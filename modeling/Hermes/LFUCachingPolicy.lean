import Mathlib.Data.List.Sort
import Mathlib.Data.Nat.Notation
import Mathlib.Logic.Function.Basic
import Mathlib.Order.Lattice
import Mathlib.Algebra.Order.Ring.Nat

/-! `LFUCachingPolicy`: the cached keys in a list for each hit number. An iterator is the node that
it points to, and the keys in the lists are those of `keySet_`, with their metadata. -/
namespace Hermes.Cache
variable {κ : Type} [DecidableEq κ]

structure SegmentMetadata where
  size : Nat
  hitNum : Nat

/-- A node of a list, which is told from others by its number. -/
structure ListNode (κ : Type) where
  node : Nat
  key : κ
deriving DecidableEq

structure LFUCachingPolicy (κ : Type) where
  maxSize : Nat
  freeSize : Nat
  freqMap : Nat → Option (List (ListNode κ))
  keyMap : κ → Option (ListNode κ)
  minFreq : Nat
  freqSet : List Nat
  keySet : κ → Option SegmentMetadata
  nodes : Nat

/-- Why a call gives no result: what it throws, or undefined behaviour. -/
inductive Failure where
  | error (message : String)
  | undefined
deriving DecidableEq

namespace LFUCachingPolicy

def make (maxSize : Nat) : LFUCachingPolicy κ := ⟨maxSize,maxSize,fun _ => none,fun _ => none,0,[],fun _ => none,0⟩

def hitNum (policy : LFUCachingPolicy κ) (key : κ) : Nat := ((policy.keySet key).map SegmentMetadata.hitNum).getD 0

def size (policy : LFUCachingPolicy κ) (key : κ) : Nat := ((policy.keySet key).map SegmentMetadata.size).getD 0

/-- The list of a frequency; `operator[]` makes an empty one. -/
def listOf (policy : LFUCachingPolicy κ) (freq : Nat) : List (ListNode κ) := (policy.freqMap freq).getD []

/-- An iterator of another list, and the least number of none, are undefined. -/
def eraseFreqMap (policy : LFUCachingPolicy κ) (freq : Nat) (it : ListNode κ) : Except Failure (LFUCachingPolicy κ) :=
  if it ∈ policy.listOf freq then
    let list := (policy.listOf freq).erase it
    if list = [] then
      let freqSet := policy.freqSet.filter fun other => decide (other ≠ freq)
      let policy := {policy with freqMap := Function.update policy.freqMap freq none,freqSet}
      if policy.minFreq = freq then
        match freqSet.min? with
        | none => .error .undefined
        | some minFreq => .ok {policy with minFreq}
      else .ok policy
    else .ok {policy with freqMap := Function.update policy.freqMap freq (some list)}
  else .error .undefined

def insert (policy : LFUCachingPolicy κ) (freq : Nat) (key : κ) : LFUCachingPolicy κ :=
  let it : ListNode κ := ⟨policy.nodes,key⟩
  {policy with
    freqMap := Function.update policy.freqMap freq (some (policy.listOf freq ++ [it]))
    keyMap := Function.update policy.keyMap key (some it)
    freqSet := if freq ∈ policy.freqSet then policy.freqSet else freq::policy.freqSet
    minFreq := if policy.minFreq = 0 then freq else policy.minFreq
    nodes := policy.nodes+1}

def maxHitNum : Nat := 2^31-1

/-- A key that is cached goes to the list of its new frequency. -/
def moveCached (policy : LFUCachingPolicy κ) (key : κ) (freq : Nat) : Except Failure (LFUCachingPolicy κ) :=
  match policy.keyMap key with
  | none => .ok policy
  | some oldListIt => do
    let policy ← policy.eraseFreqMap (freq-1) oldListIt
    .ok (policy.insert freq key)

/-- A key that is loaded for the first time comes without a size. -/
def onLoad (policy : LFUCachingPolicy κ) (key : κ) : Except Failure (LFUCachingPolicy κ) :=
  match policy.keySet key with
  | none => moveCached {policy with keySet := Function.update policy.keySet key (some ⟨0,1⟩)} key 1
  | some metadata =>
    if metadata.hitNum < maxHitNum then
      let hitNum := metadata.hitNum+1
      moveCached {policy with keySet := Function.update policy.keySet key (some {metadata with hitNum})} key hitNum
    else .error .undefined

/-- The hit number is that of the key object that is given. -/
def onRemove (policy : LFUCachingPolicy κ) (key : κ) (hitNum : Nat) : Except Failure (LFUCachingPolicy κ) :=
  match policy.keyMap key with
  | none => .ok policy
  | some listIt => do
    let policy ← policy.eraseFreqMap hitNum listIt
    .ok {policy with keyMap := Function.update policy.keyMap key none}

inductive Result where
  | sufficient
  | insufficient
  | unknown
deriving DecidableEq

/-- The candidates of one list, as long as they are less than a hit number and not enough. -/
def gather (policy : LFUCachingPolicy κ) (hitNum segmentSize : Nat) : List (ListNode κ) → Nat → List κ × Nat × Result
  | [],lowSegmentSize => ([],lowSegmentSize,.unknown)
  | candidate::candidates,lowSegmentSize =>
    if policy.hitNum candidate.key < hitNum then
      let lowSegmentSize := lowSegmentSize+policy.size candidate.key
      if segmentSize ≤ lowSegmentSize+policy.freeSize then ([candidate.key],lowSegmentSize,.sufficient)
      else
        let (removableKeys,rest) := policy.gather hitNum segmentSize candidates lowSegmentSize
        (candidate.key::removableKeys,rest)
    else ([],lowSegmentSize,.insufficient)

/-- The frequencies as they are gone through: the least one first, as it is noted. -/
def rounds (policy : LFUCachingPolicy κ) : List Nat :=
  match policy.freqSet with
  | [] => []
  | _::_ => policy.minFreq::(policy.freqSet.filter fun freq => decide (freq ≠ policy.minFreq)).insertionSort (· ≤ ·)

/-- The lists of the frequencies, up to the one where it is settled. A frequency that has no list gets one. -/
def findSpace (policy : LFUCachingPolicy κ) (hitNum segmentSize : Nat) : List Nat → Nat →
    List κ × Nat × Result × LFUCachingPolicy κ
  | [],lowSegmentSize => ([],lowSegmentSize,.unknown,policy)
  | freq::freqs,lowSegmentSize =>
    let visited := {policy with freqMap := Function.update policy.freqMap freq (some (policy.listOf freq))}
    match visited.gather hitNum segmentSize (policy.listOf freq) lowSegmentSize with
    | (removableKeys,lowSegmentSize,.unknown) =>
      let (more,rest) := visited.findSpace hitNum segmentSize freqs lowSegmentSize
      (removableKeys ++ more,rest)
    | (removableKeys,lowSegmentSize,settled) => (removableKeys,lowSegmentSize,settled,visited)

/-- A key that is to be removed and has no iterator is undefined. -/
def removeAll : LFUCachingPolicy κ → List κ → Except Failure (LFUCachingPolicy κ)
  | policy,[] => .ok policy
  | policy,removableKey::removableKeys =>
    match policy.keyMap removableKey with
    | none => .error .undefined
    | some listIt => do
      let policy ← policy.eraseFreqMap (policy.hitNum removableKey) listIt
      removeAll {policy with keyMap := Function.update policy.keyMap removableKey none} removableKeys

/-- The key as it is known; it takes its size from the first key that is stored with one. -/
def realKey (policy : LFUCachingPolicy κ) (key : κ) (segmentSize : Nat) :
    Option (SegmentMetadata × LFUCachingPolicy κ) :=
  (policy.keySet key).map fun metadata =>
    let metadata := if metadata.size = 0 then {metadata with size := segmentSize} else metadata
    (metadata,{policy with keySet := Function.update policy.keySet key (some metadata)})

/-- The removable keys if the segment is stored. -/
def onStore (policy : LFUCachingPolicy κ) (key : κ) (segmentSize : Nat) :
    Except Failure (Option (List κ) × LFUCachingPolicy κ) :=
  match policy.realKey key segmentSize with
  | none => .error (.error "onStore: Key should exist in keySet_")
  | some (metadata,policy) =>
    if policy.maxSize < metadata.size then .ok (none,policy)
    else
      let (removableKeys,lowSegmentSize,res,policy) :=
        if metadata.size ≤ policy.freeSize then ([],0,.sufficient,policy)
        else policy.findSpace metadata.hitNum metadata.size policy.rounds 0
      match res with
      | .sufficient => do
        let policy ← policy.removeAll removableKeys
        let policy := policy.insert metadata.hitNum key
        .ok (some removableKeys,{policy with freeSize := policy.freeSize+lowSegmentSize-metadata.size})
      | _ => .ok (none,policy)

end LFUCachingPolicy
end Hermes.Cache
