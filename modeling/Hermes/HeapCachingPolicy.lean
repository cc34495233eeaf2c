import Hermes.BeladyCachingPolicy
import Hermes.LFUCachingPolicy
import Hermes.Library.BinaryHeap
import Mathlib.Data.Nat.Cast.Defs

/-! `LFUSCachingPolicy` and `WLFUCachingPolicy`: the cached keys in a heap, by their frequency for
each byte, or by their weight. A cached key that is loaded gets a new object, and the old one stays in the
heap and is stale. -/
namespace Hermes.Cache
open Library.BinaryHeap
variable {κ ν : Type} [DecidableEq κ] [ToString κ] [NatCast ν] [Div ν] [Add ν] [LT ν] [DecidableLT ν]

structure SegmentKeyPtr (κ : Type) where
  object : Nat
  key : κ
deriving DecidableEq

/-- The metadata with what the keys are compared by. -/
structure ValuedMetadata (ν : Type) extends SegmentMetadata where
  perSizeFreq : ν
  value : ν
  valid : Bool

namespace ValuedMetadata

def make (size : Nat) : ValuedMetadata ν := ⟨⟨size,1⟩,((0 : Nat) : ν),((0 : Nat) : ν),true⟩

/-- The hit number is an int. -/
def incHitNum (metadata : ValuedMetadata ν) (size : Nat) : Except Failure (ValuedMetadata ν) :=
  if metadata.hitNum < LFUCachingPolicy.maxHitNum then
    .ok {metadata with hitNum := metadata.hitNum+1,perSizeFreq := ((metadata.hitNum+1 : Nat) : ν)/(size : ν)}
  else .error .undefined

end ValuedMetadata

structure HeapCachingPolicy (κ ν : Type) where
  maxSize : Nat
  freeSize : Nat
  segmentSizeMap : κ → Option Nat
  keysInCache : List (SegmentKeyPtr κ)
  keySetInCache : κ → Option Nat
  keySet : κ → Option Nat
  weightUpdatedKeys : List κ
  metadata : Nat → ValuedMetadata ν
  objects : Nat

namespace HeapCachingPolicy

def make (maxSize : Nat) (segmentSizeMap : κ → Option Nat) : HeapCachingPolicy κ ν :=
  ⟨maxSize,maxSize,segmentSizeMap,[],fun _ => none,fun _ => none,[],fun _ => ValuedMetadata.make 0,0⟩

section Values
variable (value : ValuedMetadata ν → ν) (policy : HeapCachingPolicy κ ν)

def comp (key1 key2 : SegmentKeyPtr κ) : Bool :=
  decide (value (policy.metadata key2.object) < value (policy.metadata key1.object))

def lessValue (key1 key2 : SegmentKeyPtr κ) : Bool :=
  decide (value (policy.metadata key1.object) < value (policy.metadata key2.object))

/-- The metadata of a cached key is copied, and the copy is valid. -/
def onLoad (key : κ) (size : Nat) : Except Failure (HeapCachingPolicy κ ν) :=
  match policy.keySet key with
  | none => .ok {policy with
      keySet := Function.update policy.keySet key (some policy.objects)
      metadata := Function.update policy.metadata policy.objects (ValuedMetadata.make size)
      objects := policy.objects+1}
  | some realKey => do
    let segmentSize ← (BeladyCachingPolicy.getSegmentSize policy.segmentSizeMap key).mapError Failure.error
    let metadata ← (policy.metadata realKey).incHitNum segmentSize
    if (policy.keySetInCache key).isSome then
      let old := Function.update policy.metadata realKey {metadata with valid := false}
      let policy := {policy with metadata := Function.update old policy.objects {metadata with valid := true}}
      .ok {policy with
        keysInCache := pushHeap (policy.comp value) (policy.keysInCache ++ [⟨policy.objects,key⟩])
        keySetInCache := Function.update policy.keySetInCache key (some policy.objects)
        keySet := Function.update policy.keySet key (some policy.objects)
        objects := policy.objects+1}
    else .ok {policy with metadata := Function.update policy.metadata realKey metadata}

def pop (keysInCache : List (SegmentKeyPtr κ)) :
    List (SegmentKeyPtr κ) := (popHeap (policy.comp value) keysInCache).dropLast

def emplace (keySet : κ → Option Nat) (key : SegmentKeyPtr κ) : κ → Option Nat :=
  if (keySet key.key).isSome then keySet else Function.update keySet key.key (some key.object)

/-- What the search of `onStore` comes to: heap and set, and the removable keys with the free size if there is room. -/
structure Searched (κ : Type) where
  keysInCache : List (SegmentKeyPtr κ)
  keySetInCache : κ → Option Nat
  room : Option (List (SegmentKeyPtr κ) × Nat)

def restore (removableKeys keysInCache : List (SegmentKeyPtr κ)) (keySetInCache : κ → Option Nat) : Searched κ :=
  ⟨removableKeys.foldl (fun keys key => pushHeap (policy.comp value) (keys ++ [key])) keysInCache,
    removableKeys.foldl emplace keySetInCache,none⟩

/-- The loop of `onStore`, with the number of keys that are in the heap. None is the front of an empty heap. -/
def search (realKey : SegmentKeyPtr κ) (segmentSize : Nat) :
    Nat → List (SegmentKeyPtr κ) → (κ → Option Nat) → Nat → List (SegmentKeyPtr κ) → Option (Searched κ)
  | numKeys,keysInCache,keySetInCache,tmpFreeSize,removableKeys =>
    if tmpFreeSize < segmentSize then
      match numKeys,keysInCache with
      | numKeys+1,removableKey::_ =>
        let popped := policy.pop value keysInCache
        if (policy.metadata removableKey.object).valid = false then
          search realKey segmentSize numKeys popped keySetInCache tmpFreeSize removableKeys
        else if policy.lessValue value removableKey realKey then
          search realKey segmentSize numKeys popped (Function.update keySetInCache removableKey.key none)
            (tmpFreeSize+(policy.metadata removableKey.object).size) (removableKeys ++ [removableKey])
        else some (policy.restore value removableKeys keysInCache keySetInCache)
      | _,_ => none
    else some ⟨keysInCache,keySetInCache,some (removableKeys,tmpFreeSize)⟩

/-- The key as it is known; it takes its size from the first key that is stored with one. -/
def realKey (key : κ) (segmentSize : Nat) : Option (SegmentKeyPtr κ × HeapCachingPolicy κ ν) :=
  (policy.keySet key).map fun object =>
    let metadata := policy.metadata object
    (⟨object,key⟩,{policy with
      metadata := Function.update policy.metadata object
        (if metadata.size = 0 then {metadata with size := segmentSize} else metadata)})

/-- What is decided for a key that has its size: the removable keys if its segment is stored. -/
def decideStore (realKey : SegmentKeyPtr κ) :
    Except Failure (Option (List (SegmentKeyPtr κ)) × HeapCachingPolicy κ ν) :=
  let segmentSize := (policy.metadata realKey.object).size
  if policy.maxSize < segmentSize then .ok (none,policy)
  else
    match policy.search value realKey segmentSize policy.keysInCache.length policy.keysInCache policy.keySetInCache policy.freeSize [] with
    | none => .error .undefined
    | some ⟨keysInCache,keySetInCache,none⟩ => .ok (none,{policy with keysInCache,keySetInCache})
    | some ⟨keysInCache,keySetInCache,some (removableKeys,tmpFreeSize)⟩ => .ok (some removableKeys,{policy with
        freeSize := tmpFreeSize-segmentSize
        keysInCache := pushHeap (policy.comp value) (keysInCache ++ [realKey])
        keySetInCache := emplace keySetInCache realKey})

def onStore (key : κ) (segmentSize : Nat) : Except Failure (Option (List (SegmentKeyPtr κ)) × HeapCachingPolicy κ ν) :=
  match policy.realKey key segmentSize with
  | none => .error (.error "onStore: Key should exist in keySet_")
  | some (realKey,policy) => policy.decideStore value realKey

end Values

def erase (policy : HeapCachingPolicy κ ν) (key : SegmentKeyPtr κ) : Except Failure (HeapCachingPolicy κ ν) :=
  if key ∈ policy.keysInCache then .ok {policy with keysInCache := policy.keysInCache.erase key} else .error .undefined

end HeapCachingPolicy

namespace LFUSCachingPolicy

def onLoad (policy : HeapCachingPolicy κ ν) (key : κ) (size : Nat) : Except Failure (HeapCachingPolicy κ ν) :=
  policy.onLoad ValuedMetadata.perSizeFreq key size

def onRemove (policy : HeapCachingPolicy κ ν) (key : SegmentKeyPtr κ) : Except Failure (HeapCachingPolicy κ ν) :=
  (policy.erase key).map fun policy => {policy with keySetInCache := Function.update policy.keySetInCache key.key none}

def onStore (allowFetchSegments : Bool) (policy : HeapCachingPolicy κ ν) (key : κ) (segmentSize : Nat) :
    Except Failure (Option (List (SegmentKeyPtr κ)) × HeapCachingPolicy κ ν) :=
  if allowFetchSegments then policy.onStore ValuedMetadata.perSizeFreq key segmentSize else .ok (none,policy)

end LFUSCachingPolicy

namespace WLFUCachingPolicy

def onLoad (policy : HeapCachingPolicy κ ν) (key : κ) (size : Nat) : Except Failure (HeapCachingPolicy κ ν) :=
  policy.onLoad ValuedMetadata.value key size

def onRemove (policy : HeapCachingPolicy κ ν) (key : SegmentKeyPtr κ) : Except Failure (HeapCachingPolicy κ ν) :=
    policy.erase key

def onStore (policy : HeapCachingPolicy κ ν) (key : κ) (segmentSize : Nat) :
    Except Failure (Option (List (SegmentKeyPtr κ)) × HeapCachingPolicy κ ν) :=
  policy.onStore ValuedMetadata.value key segmentSize

/-- The weights up to the first key that is not known. -/
def onWeight : HeapCachingPolicy κ ν → List (κ × ν) → HeapCachingPolicy κ ν × Option String
  | policy,[] => (policy,none)
  | policy,(key,weight)::weightMap =>
    if key ∈ policy.weightUpdatedKeys then onWeight policy weightMap
    else
      match policy.keySet key with
      | none => (policy,some "onWeight: Key should exist in keySet_")
      | some realKey =>
        let metadata := policy.metadata realKey
        onWeight {policy with
          metadata := Function.update policy.metadata realKey {metadata with value := metadata.value+weight}
          weightUpdatedKeys := key::policy.weightUpdatedKeys} weightMap

def onNewQuery (policy : HeapCachingPolicy κ ν) : HeapCachingPolicy κ ν := {policy with weightUpdatedKeys := []}

end WLFUCachingPolicy
end Hermes.Cache
