import Hermes.BeladySpace
import Hermes.HeapCachingPolicy
import Hermes.LFUBookkeeping
import Hermes.LRURefinement

/-! The caching policies as one, and the calls of each. -/
namespace Hermes.Cache
variable {κ ν : Type} [DecidableEq κ]

namespace LRUCachingPolicy

inductive Call (κ : Type) where
  | onLoad (key : κ)
  | onStore (key : κ) (segmentSize : Nat)
  | onRemove (key : κ)

def call (policy : LRUCachingPolicy κ) : Call κ → Except Failure (LRUCachingPolicy κ)
  | .onLoad key => (policy.onLoad key).elim (.error .undefined) .ok
  | .onStore key segmentSize => (policy.onStore key segmentSize).elim (.error .undefined) fun stored => .ok stored.2
  | .onRemove key => (policy.onRemove key).elim (.error .undefined) .ok

end LRUCachingPolicy

variable [ToString κ] [NatCast ν] [Div ν] [Add ν] [LT ν] [DecidableLT ν]

namespace LFUSCachingPolicy

inductive Call (κ : Type) where
  | onLoad (key : κ) (size : Nat)
  | onStore (allowFetchSegments : Bool) (key : κ) (segmentSize : Nat)
  | onRemove (key : SegmentKeyPtr κ)

def call (policy : HeapCachingPolicy κ ν) : Call κ → Except Failure (HeapCachingPolicy κ ν)
  | .onLoad key size => onLoad policy key size
  | .onStore allowFetchSegments key segmentSize => (onStore allowFetchSegments policy key segmentSize).map Prod.snd
  | .onRemove key => onRemove policy key

end LFUSCachingPolicy

namespace WLFUCachingPolicy

inductive Call (κ ν : Type) where
  | onLoad (key : κ) (size : Nat)
  | onStore (key : κ) (segmentSize : Nat)
  | onRemove (key : SegmentKeyPtr κ)
  | onWeight (weightMap : List (κ × ν))
  | onNewQuery

def call (policy : HeapCachingPolicy κ ν) : Call κ ν → Except Failure (HeapCachingPolicy κ ν)
  | .onLoad key size => onLoad policy key size
  | .onStore key segmentSize => (onStore policy key segmentSize).map Prod.snd
  | .onRemove key => onRemove policy key
  | .onWeight weightMap => .ok (onWeight policy weightMap).1
  | .onNewQuery => .ok (onNewQuery policy)

end WLFUCachingPolicy

inductive CachingPolicyType where
  | lru
  | lfu
  | lfus
  | wlfu
  | belady

inductive CachingPolicy (κ ν : Type) where
  | lru (policy : LRUCachingPolicy κ)
  | lfu (policy : LFUCachingPolicy κ)
  | lfus (policy : HeapCachingPolicy κ ν)
  | wlfu (policy : HeapCachingPolicy κ ν)
  | belady (policy : BeladyCachingPolicy κ)

namespace CachingPolicy

def make (type : CachingPolicyType) (maxSize : Nat) (segmentSizeMap : κ → Option Nat) : CachingPolicy κ ν :=
  match type with
  | .lru => .lru (LRUCachingPolicy.make maxSize)
  | .lfu => .lfu (LFUCachingPolicy.make maxSize)
  | .lfus => .lfus (HeapCachingPolicy.make maxSize segmentSizeMap)
  | .wlfu => .wlfu (HeapCachingPolicy.make maxSize segmentSizeMap)
  | .belady => .belady (BeladyCachingPolicy.make maxSize segmentSizeMap)

inductive Call (κ ν : Type) where
  | lru (call : LRUCachingPolicy.Call κ)
  | lfu (call : LFUCachingPolicy.Call κ)
  | lfus (call : LFUSCachingPolicy.Call κ)
  | wlfu (call : WLFUCachingPolicy.Call κ ν)
  | belady (call : BeladyCachingPolicy.Call κ)

/-- A call that throws leaves all as it is, and one that is undefined is not among the steps. -/
inductive Step : CachingPolicy κ ν → Call κ ν → CachingPolicy κ ν → Prop
  | lru {policy next : LRUCachingPolicy κ} {call : LRUCachingPolicy.Call κ} (made : policy.call call = .ok next) :
      Step (.lru policy) (.lru call) (.lru next)
  | lfu {policy next : LFUCachingPolicy κ} {call : LFUCachingPolicy.Call κ} (made : policy.call call = .ok next) :
      Step (.lfu policy) (.lfu call) (.lfu next)
  | lfus {policy next : HeapCachingPolicy κ ν} {call : LFUSCachingPolicy.Call κ}
    (made : LFUSCachingPolicy.call policy call = .ok next) :
      Step (.lfus policy) (.lfus call) (.lfus next)
  | wlfu {policy next : HeapCachingPolicy κ ν} {call : WLFUCachingPolicy.Call κ ν}
    (made : WLFUCachingPolicy.call policy call = .ok next) :
      Step (.wlfu policy) (.wlfu call) (.wlfu next)
  | belady (policy : BeladyCachingPolicy κ) (call : BeladyCachingPolicy.Call κ) :
      Step (.belady policy) (.belady call) (.belady (BeladyCachingPolicy.call ⟨policy,[]⟩ call).policy)
  | lfuThrows {policy : LFUCachingPolicy κ} {call : LFUCachingPolicy.Call κ} {message : String}
      (throws : policy.call call = .error (.error message)) : Step (.lfu policy) (.lfu call) (.lfu policy)
  | lfusThrows {policy : HeapCachingPolicy κ ν} {call : LFUSCachingPolicy.Call κ} {message : String}
      (throws : LFUSCachingPolicy.call policy call = .error (.error message)) : Step (.lfus policy) (.lfus call)
      (.lfus policy)
  | wlfuThrows {policy : HeapCachingPolicy κ ν} {call : WLFUCachingPolicy.Call κ ν} {message : String}
      (throws : WLFUCachingPolicy.call policy call = .error (.error message)) : Step (.wlfu policy) (.wlfu call)
      (.wlfu policy)

/-- The keys to remove, or none where the segment is not stored. -/
def onStore (allowFetchSegments : Bool) (policy : CachingPolicy κ ν) (key : κ) (segmentSize : Nat) :
    Except Failure (Option (List κ) × CachingPolicy κ ν) :=
  let keys : Option (List (SegmentKeyPtr κ)) → Option (List κ) := Option.map (List.map SegmentKeyPtr.key)
  match policy with
  | .lru policy => (policy.onStore key segmentSize).elim (.error .undefined) fun (removableKeys,policy) => .ok (removableKeys,.lru policy)
  | .lfu policy => (policy.onStore key segmentSize).map fun (removableKeys,policy) => (removableKeys,.lfu policy)
  | .lfus policy => (LFUSCachingPolicy.onStore allowFetchSegments policy key segmentSize).map fun (removableKeys,policy) =>
      (keys removableKeys,.lfus policy)
  | .wlfu policy => (WLFUCachingPolicy.onStore policy key segmentSize).map fun (removableKeys,policy) => (keys removableKeys,.wlfu policy)
  | .belady policy => ((policy.onStore key segmentSize).mapError Failure.error).map fun (removableKeys,policy) => (removableKeys,.belady policy)

end CachingPolicy
end Hermes.Cache
