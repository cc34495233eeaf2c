import Hermes.Library.RecentUse
import Mathlib.Logic.Function.Basic

/-! `LRUCachingPolicy` and the segment cache that follows it. The queue is kept from its back to
its front; an iterator is the number of a node. -/
namespace Hermes.Cache
open Library.RecentUse Library.Transition
variable {κ δ : Type} [DecidableEq κ]

/-- A key in the queue, with the size of its metadata. -/
structure QueueNode (κ : Type) where
  node : Nat
  key : κ
  size : Nat

structure LRUCachingPolicy (κ : Type) where
  maxSize : Nat
  freeSize : Nat
  usageQueue : List (QueueNode κ)
  keyIndexMap : κ → Option Nat
  nodes : Nat

namespace LRUCachingPolicy

def make (maxSize : Nat) : LRUCachingPolicy κ := ⟨maxSize,maxSize,[],fun _ => none,0⟩

def size (usageQueue : List (QueueNode κ)) : Nat := (usageQueue.map QueueNode.size).sum

/-- The loop of `onStore` from the back of the queue on: the removable keys, and the queue, the
free size and the index with it. None is the back of an empty queue. -/
def makeRoom (segmentSize : Nat) : List (QueueNode κ) → Nat → (κ → Option Nat) →
    Option (List κ × List (QueueNode κ) × Nat × (κ → Option Nat))
  | usageQueue,freeSize,keyIndexMap =>
    if freeSize < segmentSize then
      match usageQueue with
      | [] => none
      | removable::usageQueue =>
        (makeRoom segmentSize usageQueue (freeSize+removable.size) (Function.update keyIndexMap removable.key none)).map
          fun made => (removable.key::made.1,made.2)
    else some ([],usageQueue,freeSize,keyIndexMap)

def emplace (keyIndexMap : κ → Option Nat) (key : κ) (node : Nat) : κ → Option Nat :=
  if (keyIndexMap key).isSome then keyIndexMap else Function.update keyIndexMap key (some node)

/-- The removable keys if the segment is stored. -/
def onStore (policy : LRUCachingPolicy κ) (key : κ) (segmentSize : Nat) :
    Option (Option (List κ) × LRUCachingPolicy κ) :=
  if policy.maxSize < segmentSize then some (none,policy)
  else
    (makeRoom segmentSize policy.usageQueue policy.freeSize policy.keyIndexMap).map
      fun (removableKeys,usageQueue,freeSize,keyIndexMap) => (some removableKeys,{policy with
        usageQueue := usageQueue ++ [⟨policy.nodes,key,segmentSize⟩]
        keyIndexMap := emplace keyIndexMap key policy.nodes
        freeSize := freeSize-segmentSize
        nodes := policy.nodes+1})

/-- The node under the iterator of the key is moved to the front; an iterator without a node is undefined. -/
def onLoad (policy : LRUCachingPolicy κ) (key : κ) : Option (LRUCachingPolicy κ) :=
  match policy.keyIndexMap key with
  | none => some policy
  | some node => (policy.usageQueue.find? fun other => decide (other.node = node)).map fun found =>
    {policy with usageQueue := policy.usageQueue.filter (fun other => decide (other.node ≠ node)) ++ [found]}

/-- The free size stays as it is. -/
def onRemove (policy : LRUCachingPolicy κ) (key : κ) : Option (LRUCachingPolicy κ) :=
  match policy.keyIndexMap key with
  | none => some policy
  | some node => (policy.usageQueue.find? fun other => decide (other.node = node)).map fun _ =>
    {policy with
      usageQueue := policy.usageQueue.filter fun other => decide (other.node ≠ node)
      keyIndexMap := Function.update policy.keyIndexMap key none}

end LRUCachingPolicy

structure SegmentCache (κ δ : Type) where
  cachingPolicy : LRUCachingPolicy κ
  map : κ → Option δ

namespace SegmentCache

def make (maxSize : Nat) : SegmentCache κ δ := ⟨LRUCachingPolicy.make maxSize,fun _ => none⟩

def store (cache : SegmentCache κ δ) (key : κ) (segmentSize : Nat) (data : δ) :
    Option (Option (List κ) × SegmentCache κ δ) :=
  (cache.cachingPolicy.onStore key segmentSize).map fun (removableKeys,cachingPolicy) =>
    match removableKeys with
    | none => (none,{cache with cachingPolicy})
    | some removableKeys =>
      let map := fun other => if other ∈ removableKeys then none else cache.map other
      (some removableKeys,⟨cachingPolicy,if (map key).isSome then map else Function.update map key (some data)⟩)

def load [ToString κ] (cache : SegmentCache κ δ) (key : κ) : Option (Except String δ × SegmentCache κ δ) :=
  (cache.cachingPolicy.onLoad key).map fun cachingPolicy =>
    (match cache.map key with
      | some data => .ok data
      | none => .error ("Segment for key '" ++ toString key ++ "' not found"),
      {cache with cachingPolicy})

end SegmentCache
end Hermes.Cache
