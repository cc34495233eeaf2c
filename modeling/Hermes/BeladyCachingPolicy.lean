import Hermes.Library.Fallible
import Mathlib.Algebra.Order.Ring.Nat
import Mathlib.Data.List.Sort
import Mathlib.Data.List.Dedup
import Mathlib.Algebra.Order.BigOperators.Group.List

/-! The caching policy that knows the queries to come: what it decides to keep behind each query, and how it follows its
decisions when segments are stored. -/
namespace Hermes.Cache
open Library.Fallible
variable {κ : Type} [DecidableEq κ] [ToString κ]

namespace BeladyCachingPolicyHelper

abbrev Involved (κ : Type) := List (Nat × κ)

def getSegmentsInQuery (involved : Involved κ) (queryNum : Nat) : Except String (List κ) :=
  let keys := (involved.filter fun use => use.1 = queryNum).map Prod.snd
  if keys = [] then
    .error ("Error, " ++ toString queryNum ++ " not populated in segmentKeysToInvolvedQueryNums_ in MiniCatalogue.cpp")
  else .ok keys.dedup

/-- None is the C++ -1. -/
def querySegmentNextUsedIn (involved : Involved κ) (segmentKey : κ) (currentQuery : Nat) : Except String (Option Nat) :=
  let queries := (involved.filter fun use => use.2 = segmentKey).map Prod.fst
  if queries = [] then .error ("Error, " ++ toString segmentKey ++
    " next query requested but never should have been used")
  else .ok (queries.filter fun queryNum => currentQuery < queryNum).min?

end BeladyCachingPolicyHelper

namespace BeladyCachingPolicy
open BeladyCachingPolicyHelper

def getSegmentSize (segmentSizeMap : κ → Option Nat) (segmentKey : κ) : Except String Nat :=
  match segmentSizeMap segmentKey with
  | some size => .ok size
  | none => .error ("Segment key not found in getSegmentSize: " ++ toString segmentKey)

structure Candidate (κ : Type) where
  key : κ
  size : Nat
  nextUse : Option Nat

def lessKeyValue (first second : Candidate κ) : Bool :=
  if first.nextUse = second.nextUse then first.size < second.size
  else
    match first.nextUse,second.nextUse with
    | none,_ => true
    | _,none => false
    | some firstUse,some secondUse => secondUse < firstUse

def ordered (candidates : List (Candidate κ)) : List (Candidate κ) :=
  (candidates.insertionSort fun first second => lessKeyValue second first = false).reverse

/-- The keys that there is room for and that are used again. -/
def keysToKeep : Nat → List (Candidate κ) → List κ
  | _,[] => []
  | remainingCacheSize,candidate::candidates =>
    if candidate.size < remainingCacheSize ∧ candidate.nextUse ≠ none then
      candidate.key::keysToKeep (remainingCacheSize-candidate.size) candidates
    else keysToKeep remainingCacheSize candidates

variable (segmentSizeMap : κ → Option Nat)

-- a key that is not in a map is an exception of the sort, or of the loop behind it
def candidate (involved : Involved κ) (queryNum : Nat) (key : κ) : Except String (Candidate κ) := do
  let size ← getSegmentSize segmentSizeMap key
  let nextUse ← querySegmentNextUsedIn involved key queryNum
  .ok ⟨key,size,nextUse⟩

def plannedSize (maxSize : Nat) : Nat := maxSize*99/100

variable (maxSize : Nat) (involved : Involved κ) (iteration : List κ → List κ)

/-- What is kept behind a query. The keys come in the order in which an unordered set is gone through. -/
def decideQuery (queryNum : Nat) (keysInCache : List κ) : Except String (List κ) := do
  let keysInCurrentQuery ← getSegmentsInQuery involved queryNum
  let potentialKeysToCache := iteration (keysInCache ++ keysInCurrentQuery).dedup
  let candidates ← potentialKeysToCache.mapM (candidate segmentSizeMap involved queryNum)
  .ok (keysToKeep (plannedSize maxSize) (ordered candidates))

/-- The decisions for a number of queries from one on, up to the first exception. -/
def decideQueries : Nat → Nat → List κ → List (Nat × List κ) × Option String
  | 0,_,_ => ([],none)
  | numQueries+1,queryNum,keysInCache =>
    match decideQuery segmentSizeMap maxSize involved iteration queryNum keysInCache with
    | .error error => ([],some error)
    | .ok keys =>
      let later := decideQueries numQueries (queryNum+1) keys
      ((queryNum,keys)::later.1,later.2)

/-- The decisions of a query are not replaced by later ones. -/
def generateCacheDecisions (numQueries : Nat) (queryNumToKeysInCache : List (Nat × List κ)) :
    List (Nat × List κ) × Option String :=
  let generated := decideQueries segmentSizeMap maxSize involved iteration numQueries 1 []
  (queryNumToKeysInCache ++ generated.1,generated.2)

-- the current query behind the decisions: the last one, or the one that threw
def lastQueryNum (numQueries currentQueryNum : Nat) : Nat :=
  if numQueries = 0 then currentQueryNum
  else min numQueries ((decideQueries segmentSizeMap maxSize involved iteration numQueries 1 []).1.length+1)

end BeladyCachingPolicy

/-- The keys in the cache come with the size that their metadata had when they were inserted. -/
structure BeladyCachingPolicy (κ : Type) where
  maxSize : Nat
  freeSize : Nat
  segmentSizeMap : κ → Option Nat
  keysInCache : List (κ × Nat)
  queryNumToKeysInCache : List (Nat × List κ)
  currentQueryNum : Nat

namespace BeladyCachingPolicy
open BeladyCachingPolicyHelper

def make (maxSize : Nat) (segmentSizeMap : κ → Option Nat) : BeladyCachingPolicy κ := ⟨maxSize,maxSize,segmentSizeMap,
      [],[],0⟩

def total (segments : List (κ × Nat)) : Nat := (segments.map Prod.snd).sum

def insert (key : κ) (size : Nat) (segments : List (κ × Nat)) : List (κ × Nat) :=
  if key ∈ segments.map Prod.fst then segments else (key,size)::segments

def absSizeDiff (segmentSize preComputedSize : Nat) : Nat := (((segmentSize : Int)-preComputedSize).bmod (2^32)).natAbs

def removable (keysThatShouldBeCached : List κ) (segments : List (κ × Nat)) : List (κ × Nat) :=
  segments.filter fun segment => segment.1 ∉ keysThatShouldBeCached

/-- The free size is an unsigned number, and is never found to be below zero. -/
def bringIn (policy : BeladyCachingPolicy κ) (keysThatShouldBeCached : List κ) (key : κ) (segmentSize : Nat) :
    List κ × BeladyCachingPolicy κ :=
  if segmentSize < policy.freeSize then
    ([],{policy with
      keysInCache := insert key segmentSize policy.keysInCache
      freeSize := policy.freeSize-segmentSize})
  else
    let removableKeys := removable keysThatShouldBeCached policy.keysInCache
    let kept := policy.keysInCache.filter fun segment => segment.1 ∉ removableKeys.map Prod.fst
    let freeSize := (policy.freeSize+total removableKeys) % 2^64
    (removableKeys.map Prod.fst,{policy with
      keysInCache := insert key segmentSize kept
      freeSize := (freeSize+(2^64-segmentSize)) % 2^64})

/-- The keys to remove, or none where the segment is not stored. -/
def onStore (policy : BeladyCachingPolicy κ) (key : κ) (segmentSize : Nat) :
    Except String (Option (List κ) × BeladyCachingPolicy κ) := do
  let preComputedSize ← getSegmentSize policy.segmentSizeMap key
  if segmentSize/100 < absSizeDiff segmentSize preComputedSize then
    .error "Error, segment has wrong size when compared to expected size"
  else if policy.maxSize < segmentSize then .ok (none,policy)
  else
    match policy.queryNumToKeysInCache.lookup policy.currentQueryNum with
    | none => .error ("Error, query " ++ toString policy.currentQueryNum ++
        " not populated in queryNumToKeysInCache_ in BeladyCachingPolicy.cpp")
    | some keysThatShouldBeCached =>
      if key ∈ keysThatShouldBeCached then
        let (removableKeys,policy) := bringIn policy keysThatShouldBeCached key segmentSize
        .ok (some removableKeys,policy)
      else .ok (none,policy)

/-- The key is the object that the policy has, and the free size stays as it is. To erase a key that is not there is not
defined in C++; here it changes nothing. -/
def onRemove (policy : BeladyCachingPolicy κ) (key : κ) : BeladyCachingPolicy κ :=
  {policy with keysInCache := policy.keysInCache.filter fun segment => segment.1 ≠ key}

def onToCache (policy : BeladyCachingPolicy κ) (segmentKeys : List κ) : Except String (List κ) :=
  match policy.queryNumToKeysInCache.lookup policy.currentQueryNum with
  | none => .error ("Error, " ++ toString policy.currentQueryNum ++
      " not populated in queryNumToKeysInCache_ in BeladyCachingPolicy.cpp")
  | some keysThatShouldBeCached => .ok (segmentKeys.filter fun key => key ∈ keysThatShouldBeCached)

end BeladyCachingPolicy
end Hermes.Cache
