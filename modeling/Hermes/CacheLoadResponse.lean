import Hermes.HybridScanResult

/-! By which path `CacheLoadPOp` has each column delivered, for every answer of the cache. -/
namespace Hermes.HybridScan
open Hermes.Tuples Hermes.Operators
variable {ν : Type}

/-- An answer of the cache: some of the segments asked for, and some of the others to be cached. -/
structure Answers (asked segments segmentKeysToCache : List String) : Prop where
  hit : ∀ key ∈ segments, key ∈ asked
  hitOnce : segments.Nodup
  granted : ∀ key ∈ segmentKeysToCache, key ∈ asked ∧ key ∉ segments
  grantedOnce : segmentKeysToCache.Nodup

/-- The columns that a message brings, or has read and sent on. -/
def Message.columns : Message ν → List String
  | .tuple (some table) => table.fields.map Field.name
  | .scan columnNames true => columnNames
  | _ => []

namespace PartitionScan
variable (plan : PartitionScan ν)

/-- The columns on the way to the first merge, from the cache and from the object. -/
def localPath (process : Process (CacheLoadPOp ν) Unit (Message ν)) : List String :=
  (plan.sent .cacheLoad process .merge1 ++ plan.sent .cacheLoad process .scan).flatMap Message.columns

def pushdownPath (process : Process (CacheLoadPOp ν) Unit (Message ν)) : List String :=
  (plan.sent .cacheLoad process .select).flatMap Message.columns

/-- The projected columns that come by the local path, and all that are pushed down. -/
def delivered (process : Process (CacheLoadPOp ν) Unit (Message ν)) : List String :=
  (plan.localPath process).filter (fun columnName => decide (columnName ∈ plan.projectColumnNames)) ++
    plan.pushdownPath process

/-- The columns asked for are split without overlap or loss, each projected column comes by exactly
one path and once, the local path has all predicate columns if it has any, and each column counts
as a hit or as a miss. -/
structure DeliversOnce (segments segmentKeysToCache : List String)
    (process : Process (CacheLoadPOp ν) Unit (Message ν)) : Prop where
  split : plan.projPredColumnNames.Perm (plan.cacheLoadPOp.hitColumnNames segments ++ segmentKeysToCache ++
    plan.cacheLoadPOp.missedPushdownColumnNames segments segmentKeysToCache)
  disjoint : (plan.cacheLoadPOp.hitColumnNames segments ++ segmentKeysToCache ++
    plan.cacheLoadPOp.missedPushdownColumnNames segments segmentKeysToCache).Nodup
  onePath : ∀ columnName ∈ plan.projectColumnNames,
    Xor (columnName ∈ plan.localPath process) (columnName ∈ plan.pushdownPath process)
  once : plan.projectColumnNames.Nodup → (plan.delivered process).Perm plan.projectColumnNames
  local_eq : plan.localPath process =
    if plan.cacheLoadPOp.cachingResultNeeded segments segmentKeysToCache then
      plan.cacheLoadPOp.hitColumnNames segments ++ segmentKeysToCache else []
  predicates : plan.cacheLoadPOp.cachingResultNeeded segments segmentKeysToCache = true →
    ∀ columnName ∈ plan.predicateColumnNames, columnName ∈ plan.localPath process
  counted : ∃ hitNum missNum shardHitNum shardMissNum,
    .send "SegmentCache" (.cacheMetrics hitNum missNum shardHitNum shardMissNum) ∈ process.ctx.acts ∧
      hitNum+missNum = plan.projPredColumnNames.length

section Answers
variable {plan} {segments segmentKeysToCache : List String}

theorem mem_hitColumnNames {columnName : String} : columnName ∈ plan.cacheLoadPOp.hitColumnNames segments ↔
    columnName ∈ plan.projPredColumnNames ∧ columnName ∈ segments := by
  rw [CacheLoadPOp.hitColumnNames,List.mem_filter,decide_eq_true_eq]
  rfl

theorem mem_missedPushdown {columnName : String} :
    columnName ∈ plan.cacheLoadPOp.missedPushdownColumnNames segments segmentKeysToCache ↔
      columnName ∈ plan.projPredColumnNames ∧ columnName ∉ segments ∧ columnName ∉ segmentKeysToCache := by
  rw [CacheLoadPOp.missedPushdownColumnNames,List.mem_filter,decide_eq_true_eq]
  rfl

theorem hit_names : (plan.cacheLoadPOp.hitTupleSet segments segmentKeysToCache).fields.map Field.name =
    if plan.cacheLoadPOp.cachingResultNeeded segments segmentKeysToCache then plan.cacheLoadPOp.hitColumnNames segments else [] := by
  rw [CacheLoadPOp.hitTupleSet]
  split
  · apply plan.partition.part_names
    intro columnName hit
    exact plan.projPred_known (mem_hitColumnNames.mp hit).1
  · rfl

theorem localPath_responded : plan.localPath (plan.responded segments segmentKeysToCache) =
    if plan.cacheLoadPOp.cachingResultNeeded segments segmentKeysToCache then
      plan.cacheLoadPOp.hitColumnNames segments ++ segmentKeysToCache else [] := by
  obtain ⟨merge1,scan,_⟩ := plan.sent_responded segments segmentKeysToCache
  rw [localPath,merge1,scan]
  cases needed : plan.cacheLoadPOp.cachingResultNeeded segments segmentKeysToCache with
  | true => simp [Message.columns,hit_names,needed]
  | false => simp [Message.columns,hit_names,needed]

theorem pushdownPath_responded : plan.pushdownPath (plan.responded segments segmentKeysToCache) =
    if plan.cacheLoadPOp.cachingResultNeeded segments segmentKeysToCache then
      plan.cacheLoadPOp.missedPushdownColumnNames segments segmentKeysToCache else plan.projectColumnNames := by
  obtain ⟨_,_,select⟩ := plan.sent_responded segments segmentKeysToCache
  rw [pushdownPath,select]
  simp [Message.columns]

variable (answers : Answers plan.projPredColumnNames segments segmentKeysToCache)
include answers

theorem hits_perm : (plan.cacheLoadPOp.hitColumnNames segments).Perm segments := by
  have once : (plan.cacheLoadPOp.hitColumnNames segments).Nodup := plan.projPred_nodup.filter _
  refine (List.perm_ext_iff_of_nodup once answers.hitOnce).mpr ?_
  intro columnName
  rw [mem_hitColumnNames]
  exact ⟨And.right,fun inside => ⟨answers.hit columnName inside,inside⟩⟩

theorem local_once : (plan.cacheLoadPOp.hitColumnNames segments ++ segmentKeysToCache).Nodup := by
  refine List.nodup_append.mpr ⟨plan.projPred_nodup.filter _,answers.grantedOnce,?_⟩
  rintro columnName hit _ granted rfl
  exact (answers.granted columnName granted).2 (mem_hitColumnNames.mp hit).2

theorem split_once : (plan.cacheLoadPOp.hitColumnNames segments ++ segmentKeysToCache ++
    plan.cacheLoadPOp.missedPushdownColumnNames segments segmentKeysToCache).Nodup := by
  refine List.nodup_append.mpr ⟨local_once answers,plan.projPred_nodup.filter _,?_⟩
  rintro columnName known _ missed rfl
  obtain ⟨_,unhit,ungranted⟩ := mem_missedPushdown.mp missed
  rcases List.mem_append.mp known with hit | granted
  · exact unhit (mem_hitColumnNames.mp hit).2
  · exact ungranted granted

theorem split_perm : plan.projPredColumnNames.Perm (plan.cacheLoadPOp.hitColumnNames segments ++ segmentKeysToCache ++
    plan.cacheLoadPOp.missedPushdownColumnNames segments segmentKeysToCache) := by
  refine (List.perm_ext_iff_of_nodup plan.projPred_nodup (split_once answers)).mpr ?_
  intro columnName
  rw [List.mem_append,List.mem_append,mem_hitColumnNames,mem_missedPushdown]
  have granted := fun inside => (answers.granted columnName inside).1
  tauto

theorem predicates_known (needed : plan.cacheLoadPOp.cachingResultNeeded segments segmentKeysToCache = true) :
    ∀ columnName ∈ plan.predicateColumnNames,
      columnName ∈ plan.cacheLoadPOp.hitColumnNames segments ++ segmentKeysToCache := by
  intro columnName inside
  rw [CacheLoadPOp.cachingResultNeeded] at needed
  split at needed
  · have known := List.all_eq_true.mp (Bool.and_eq_true_iff.mp needed).1 columnName inside
    exact List.mem_append.mpr (of_decide_eq_true known)
  · -- the numbers leave no column to push down
    have numbers := (split_perm answers).length_eq
    rw [List.length_append,List.length_append] at numbers
    have all := of_decide_eq_true needed
    have none : plan.cacheLoadPOp.missedPushdownColumnNames segments segmentKeysToCache = [] := by
      apply List.length_eq_zero_iff.mp
      change _ = plan.projPredColumnNames.length at all
      omega
    have member := (split_perm answers).mem_iff.mp (plan.mem_projPred.mpr (.inr inside))
    rw [none,List.append_nil] at member
    exact member

theorem pushed_projected (needed : plan.cacheLoadPOp.cachingResultNeeded segments segmentKeysToCache = true)
    {columnName : String}
    (missed : columnName ∈ plan.cacheLoadPOp.missedPushdownColumnNames segments segmentKeysToCache) :
    columnName ∈ plan.projectColumnNames := by
  refine (plan.mem_projPred.mp (mem_missedPushdown.mp missed).1).resolve_right ?_
  intro predicate
  exact (List.nodup_append.mp (split_once answers)).2.2 _ (predicates_known answers needed columnName predicate) _ missed rfl

theorem metrics_counted : ∃ hitNum missNum shardHitNum shardMissNum,
    plan.cacheLoadPOp.metrics segments segmentKeysToCache = .cacheMetrics hitNum missNum shardHitNum shardMissNum ∧
      hitNum+missNum = plan.projPredColumnNames.length := by
  refine ⟨_,_,_,_,rfl,?_⟩
  have few : segments.length ≤ plan.projPredColumnNames.length := by
    rw [← (hits_perm answers).length_eq]
    exact List.length_filter_le _ _
  change (if plan.cacheLoadPOp.cachingResultNeeded segments segmentKeysToCache then segments.length else 0) +
    (if plan.cacheLoadPOp.cachingResultNeeded segments segmentKeysToCache then plan.projPredColumnNames.length-segments.length
      else plan.projPredColumnNames.length) = _
  split
  · omega
  · omega

theorem known_or_pushed {columnName : String} (projected : columnName ∈ plan.projectColumnNames) :
    Xor (columnName ∈ plan.cacheLoadPOp.hitColumnNames segments ++ segmentKeysToCache)
      (columnName ∈ plan.cacheLoadPOp.missedPushdownColumnNames segments segmentKeysToCache) := by
  have apart := (List.nodup_append.mp (split_once answers)).2.2 columnName
  have asked := (split_perm answers).mem_iff.mp (plan.mem_projPred.mpr (.inl projected))
  rcases List.mem_append.mp asked with known | missed
  · exact .inl ⟨known,fun missed => apart known _ missed rfl⟩
  · exact .inr ⟨missed,fun known => apart known _ missed rfl⟩

theorem delivered_perm (needed : plan.cacheLoadPOp.cachingResultNeeded segments segmentKeysToCache = true)
    (projected : plan.projectColumnNames.Nodup) :
    ((plan.cacheLoadPOp.hitColumnNames segments ++ segmentKeysToCache).filter
        (fun columnName => decide (columnName ∈ plan.projectColumnNames)) ++
      plan.cacheLoadPOp.missedPushdownColumnNames segments segmentKeysToCache).Perm plan.projectColumnNames := by
  refine (List.perm_ext_iff_of_nodup ((List.filter_sublist.append_right _).nodup (split_once answers)) projected).mpr ?_
  intro columnName
  rw [List.mem_append,List.mem_filter,decide_eq_true_eq]
  constructor
  · rintro (⟨_,inside⟩ | missed)
    · exact inside
    · exact pushed_projected answers needed missed
  · intro inside
    rcases known_or_pushed answers inside with ⟨known,_⟩ | ⟨missed,_⟩
    · exact .inl ⟨known,inside⟩
    · exact .inr missed

end Answers

theorem delivers_once {segments segmentKeysToCache : List String}
    (answers : Answers plan.projPredColumnNames segments segmentKeysToCache) :
    plan.DeliversOnce segments segmentKeysToCache
      (plan.receive .cacheLoad (plan.start .cacheLoad) .segmentCache (.loadResponse segments segmentKeysToCache)) := by
  rw [cacheLoad_responded]
  have here : plan.localPath (plan.responded segments segmentKeysToCache) = _ := localPath_responded
  have pushed : plan.pushdownPath (plan.responded segments segmentKeysToCache) = _ := pushdownPath_responded
  refine ⟨split_perm answers,split_once answers,?_,?_,here,?_,?_⟩
  · intro columnName projected
    rw [here,pushed]
    split
    · exact known_or_pushed answers projected
    · exact .inr ⟨projected,List.not_mem_nil⟩
  · intro projected
    rw [delivered,here,pushed]
    split
    · exact delivered_perm answers ‹_› projected
    · exact List.Perm.refl _
  · intro needed columnName predicate
    rw [here,if_pos needed]
    exact predicates_known answers needed columnName predicate
  · obtain ⟨hitNum,missNum,shardHitNum,shardMissNum,sends,counted⟩ := metrics_counted answers
    refine ⟨hitNum,missNum,shardHitNum,shardMissNum,?_,counted⟩
    rw [← sends]
    simp [responded,responseActs,POpContext.record]

/-- Columns `a` and `b` are projected; `a` is a hit and `b` is neither there nor let in. -/
theorem half_delivered : (scanTwoColumns fun columnName => columnName == "a").DeliversOnce ["a"] []
    ((scanTwoColumns fun columnName => columnName == "a").receive .cacheLoad
      ((scanTwoColumns fun columnName => columnName == "a").start .cacheLoad) .segmentCache (.loadResponse ["a"] [])) :=
  delivers_once _ ⟨by decide,by decide,by decide,by decide⟩

end PartitionScan
end Hermes.HybridScan
