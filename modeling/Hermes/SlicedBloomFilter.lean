import Mathlib.Data.Nat.Prime.Basic
import Mathlib.Data.List.TakeWhile

/-! The Bloom filter that is cut into slices, each with a hash function of its own. An index outside a slice and
an assertion that fails end a run. -/
namespace Hermes.Bloom

structure UniversalHashFunction where
  a : Int
  b : Int
  m : Int
  p : Int

namespace UniversalHashFunction

/-- What the constructor makes for some outcome of its random choices. -/
structure MadeFor (bins : Int) (function : UniversalHashFunction) : Prop where
  positive : 0 < bins
  modulus : function.m = bins
  prime : ∃ i,bins ≤ i ∧ i ≤ 2*bins ∧ i ≤ function.p ∧ function.p.toNat.Prime ∧
    ∀ q : Nat,i ≤ q → q.Prime → function.p ≤ q
  factor : 1 ≤ function.a ∧ function.a ≤ function.p-1
  summand : 0 ≤ function.b ∧ function.b ≤ function.p-1

/-- The remainders have the sign of what is divided; a negative one fails the assertion. -/
def hash (function : UniversalHashFunction) (x : Int) : Option Nat :=
  let h := (((function.a*x+function.b).bmod (2^64)).tmod function.p).tmod function.m
  if 0 ≤ h ∧ h ≤ function.m then some h.toNat else none

end UniversalHashFunction

/-- The floating point formulas at one false positive rate, for a capacity that is not 0 and slices that are not none. -/
structure Rate where
  slices : Int → Nat
  bitsPerSlice : Int → Nat → Nat

def kFromNp (rate : Rate) (n : Int) : Nat := if n = 0 then 0 else rate.slices n

def oFromNpk (rate : Rate) (n : Int) (k : Nat) : Nat := if k = 0 then 0 else rate.bitsPerSlice n k

def mFromKo (k o : Nat) : Int := ((k*o : Nat) : Int).bmod (2^32)

structure SlicedBloomFilter where
  capacity : Int
  numSlices : Nat
  numBitsPerSlice : Nat
  numBits : Int
  count : Nat
  hashFunctions : List UniversalHashFunction
  bitArrays : List (List Bool)

namespace SlicedBloomFilter

/-- The filter with the hash functions that were drawn for it. -/
def make (capacity : Int) (rate : Rate) (hashFunctions : List UniversalHashFunction) : SlicedBloomFilter :=
  let numSlices := kFromNp rate capacity
  let numBitsPerSlice := oFromNpk rate capacity numSlices
  ⟨capacity,numSlices,numBitsPerSlice,mFromKo numSlices numBitsPerSlice,0,hashFunctions,
    List.replicate numSlices (List.replicate numBitsPerSlice false)⟩

/-- One hash function for each slice, made for the number of all bits. -/
structure MakesHashFunctions (capacity : Int) (rate : Rate) (hashFunctions : List UniversalHashFunction) : Prop where
  length : hashFunctions.length = kFromNp rate capacity
  made : ∀ function ∈ hashFunctions,
    function.MadeFor (mFromKo (kFromNp rate capacity) (oFromNpk rate capacity (kFromNp rate capacity)))

def toInt (key : Int) : Int := key.bmod (2^32)

/-- The bits that stand at the hashes of the key: not the hashes, as the vector is one of bools. -/
def hashesOf (key : Int) : List UniversalHashFunction → List (List Bool) → Option (List Bool)
  | function::hashFunctions,bits::bitArrays => do
    let h ← function.hash (toInt key)
    let bit ← bits[h]?
    let later ← hashesOf key hashFunctions bitArrays
    some (bit::later)
  | _,_ => some []

def hashes (filter : SlicedBloomFilter) (key : Int) : Option (List Bool) :=
  hashesOf key filter.hashFunctions filter.bitArrays

/-- The loop of `add`: whether all bits were set before, and the slices with their bits set. -/
def setBits : Bool → List (List Bool) → List Bool → Option (Bool × List (List Bool))
  | foundAllBits,bits::bitArrays,h::hs =>
    if h.toNat < bits.length then do
      let (foundAllBits,later) ← setBits (foundAllBits && bits[h.toNat]?.getD false) bitArrays hs
      some (foundAllBits,bits.set h.toNat true::later)
    else none
  | foundAllBits,_,_ => some (foundAllBits,[])

def add (filter : SlicedBloomFilter) (key : Int) : Option (Bool × SlicedBloomFilter) :=
  if filter.capacity ≤ 0 then none
  else do
    let hs ← filter.hashes key
    let (foundAllBits,bitArrays) ← setBits true filter.bitArrays hs
    let count := if foundAllBits then filter.count else filter.count+1
    some (foundAllBits,{filter with count,bitArrays})

/-- The loop of `contains` ends at the first bit that is not set. -/
def checkBits : List (List Bool) → List Bool → Option Bool
  | bits::bitArrays,h::hs => do
    let bit ← bits[h.toNat]?
    if bit then checkBits bitArrays hs else some false
  | _,_ => some true

def contains (filter : SlicedBloomFilter) (key : Int) : Option Bool :=
  if filter.capacity = 0 then some false
  else do
    let hs ← filter.hashes key
    checkBits filter.bitArrays hs

/-- The filter after keys are added in turn. -/
def addAll (filter : SlicedBloomFilter) : List Int → Option SlicedBloomFilter
  | [] => some filter
  | key::keys => do
    let (_,filter) ← filter.add key
    addAll filter keys

/-- No false negative, no index outside a slice, and the same index of a key when it is added and later. -/
structure Reliable (filter final : SlicedBloomFilter) (keys asked : List Int) : Prop where
  added : filter.addAll keys = some final
  contained : ∀ key ∈ keys,final.contains key = some true
  inside : ∀ key ∈ asked,(final.contains key).isSome
  same : ∀ front key back before,keys = front ++ key::back → filter.addAll front = some before →
    before.hashes key = final.hashes key

end SlicedBloomFilter
end Hermes.Bloom
