import Hermes.PlanScans
import Hermes.POpDirectory

/-! The plan that comes of a tree of operators. It is wired as it should be, and all of its operators complete unless
one of them waits for producers of which no partition is left. -/
namespace Hermes.Transform
open Hermes.Library Hermes.Library.Wiring
open Hermes.Serialization (Values PhysicalOp POpType)
open Hermes.Operators (POpDirectory)
variable {V : Values} {E : Type}

section Plan
variable {plan : List (PhysicalOp V)}

/-- `Execution::boot` puts the operators into the directory. -/
def boot (plan : List (PhysicalOp V)) : Except String (POpDirectory Unit) :=
  plan.foldlM (fun directory pOp =>
    match directory.insert ⟨pOp.name,(),false⟩ with
    | (inserted,.ok ()) => .ok inserted
    | (_,.error error) => .error error) .make

def SendsTo (plan : List (PhysicalOp V)) (producer consumer : String) : Prop :=
  ∃ pOp ∈ plan, pOp.name = producer ∧ consumer ∈ pOp.consumers

/-- An operator completes on its own, or once there are producers and all of them have completed. -/
inductive Completes (plan : List (PhysicalOp V)) : PhysicalOp V → Prop
  | alone {pOp : PhysicalOp V} (free : completesOnProducers pOp.type = false) : Completes plan pOp
  | behind {pOp : PhysicalOp V} (some' : pOp.producers ≠ [])
      (all : ∀ producer ∈ plan, producer.name ∈ pOp.producers → Completes plan producer) : Completes plan pOp

structure WellFormed (plan : List (PhysicalOp V)) : Prop where
  names : (plan.map fun pOp => pOp.name).Nodup
  known : ∀ pOp ∈ plan, ∀ name ∈ pOp.consumers ++ pOp.producers, ∃ other ∈ plan, other.name = name
  bothSides : ∀ p ∈ plan, ∀ q ∈ plan, q.name ∈ p.consumers ↔ p.name ∈ q.producers
  acyclic : ∀ name, ¬Relation.TransGen (SendsTo plan) name name
  sink : ∃ collate ∈ plan, collate.type = .collate ∧ ∀ pOp ∈ plan, pOp.consumers = [] ↔ pOp = collate
  fed : ∀ pOp ∈ plan, completesOnProducers pOp.type = true → pOp.producers ≠ []
  boots : ∃ directory, boot plan = .ok directory
  completes : ∀ pOp ∈ plan, Completes plan pOp

end Plan

section Built
variable {w : Wiring (PhysicalOp V)} {pOp other : PhysicalOp V} {i j : Nat}

/-- The operator at a place of the plan lists the names of those at the other ends of its edges. -/
structure At (w : Wiring (PhysicalOp V)) (i : Nat) (pOp : PhysicalOp V) : Prop where
  bound : i < w.nodes.length
  place : (built w).allPOps[i]? = some pOp
  name : pOp.name = (deref w.nodes i).name
  type : pOp.type = (deref w.nodes i).type
  consumers : ∀ name, name ∈ pOp.consumers ↔ ∃ j, (i,j) ∈ w.edges ∧ name = (deref w.nodes j).name
  producers : ∀ name, name ∈ pOp.producers ↔ ∃ j, (j,i) ∈ w.edges ∧ name = (deref w.nodes j).name

section At
variable (bare : ∀ pOp ∈ w.nodes, pOp.consumers = [] ∧ pOp.producers = [])
include bare

theorem at_of_bound (bound : i < w.nodes.length) : ∃ pOp, At w i pOp := by
  obtain ⟨pOp,place,connected⟩ := connected_foldl w.edges (List.getElem?_eq_getElem bound)
  have known := @deref_eq V w.nodes i _ (List.getElem?_eq_getElem bound)
  obtain ⟨noConsumers,noProducers⟩ := bare _ (List.getElem_mem bound)
  refine ⟨pOp,bound,place,by rw [known,connected.name],by rw [known,connected.type],fun name => ?_,fun name => ?_⟩
  · rw [connected.consumers,noConsumers,or_iff_right List.not_mem_nil]
  · rw [connected.producers,noProducers,or_iff_right List.not_mem_nil]

theorem at_of_mem (inside : pOp ∈ (built w).allPOps) : ∃ i, At w i pOp := by
  obtain ⟨i,place⟩ := List.mem_iff_getElem?.mp inside
  have bound := (List.getElem?_eq_some_iff.mp place).1
  rw [length_built] at bound
  obtain ⟨known,at'⟩ := at_of_bound bare bound
  exact ⟨i,(Option.some.inj (at'.place.symm.trans place)) ▸ at'⟩

end At

theorem At.mem (at' : At w i pOp) : pOp ∈ (built w).allPOps := List.mem_of_getElem? at'.place

theorem names_built : (built w).allPOps.map (fun pOp => pOp.name) = w.nodes.map fun pOp => pOp.name := by
  apply List.ext_getElem?
  intro i
  rw [List.getElem?_map,List.getElem?_map]
  by_cases bound : i < w.nodes.length
  · obtain ⟨pOp,place,connected⟩ := connected_foldl w.edges (List.getElem?_eq_getElem bound)
    rw [show (built w).allPOps[i]? = some pOp from place,List.getElem?_eq_getElem bound,Option.map_some,
      Option.map_some,connected.name]
  · rw [List.getElem?_eq_none (by rw [length_built]; omega),List.getElem?_eq_none (by omega)]

/-- A wiring of new operators with names of their own. -/
structure Named (w : Wiring (PhysicalOp V)) : Prop where
  layered : w.Layered
  bare : ∀ pOp ∈ w.nodes, pOp.consumers = [] ∧ pOp.producers = []
  names : (w.nodes.map fun pOp => pOp.name).Nodup

theorem Named.place_unique (named : Named w) (first : i < w.nodes.length) (second : j < w.nodes.length)
    (same : (deref w.nodes i).name = (deref w.nodes j).name) : i = j := deref_inj named.names first second same

section Named
variable (named : Named w)
include named

theorem consumers_iff (at' : At w i pOp) (other' : At w j other) : other.name ∈ pOp.consumers ↔ (i,j) ∈ w.edges := by
  rw [at'.consumers,other'.name]
  constructor
  · rintro ⟨k,edge,same⟩
    exact named.place_unique other'.bound (named.layered.inside i k edge).2 same ▸ edge
  · exact fun edge => ⟨j,edge,rfl⟩

theorem producers_iff (at' : At w i pOp) (other' : At w j other) : other.name ∈ pOp.producers ↔ (j,i) ∈ w.edges := by
  rw [at'.producers,other'.name]
  constructor
  · rintro ⟨k,edge,same⟩
    exact named.place_unique other'.bound (named.layered.inside k i edge).1 same ▸ edge
  · exact fun edge => ⟨j,edge,rfl⟩

theorem listed_known (inside : pOp ∈ (built w).allPOps) {name : String}
    (listed : name ∈ pOp.consumers ++ pOp.producers) :
    ∃ other ∈ (built w).allPOps, other.name = name := by
  obtain ⟨i,at'⟩ := at_of_mem named.bare inside
  have place : ∃ j, j < w.nodes.length ∧ name = (deref w.nodes j).name := by
    rcases List.mem_append.mp listed with listed | listed
    · obtain ⟨j,edge,same⟩ := (at'.consumers name).mp listed
      exact ⟨j,(named.layered.inside i j edge).2,same⟩
    · obtain ⟨j,edge,same⟩ := (at'.producers name).mp listed
      exact ⟨j,(named.layered.inside j i edge).1,same⟩
  obtain ⟨j,bound,same⟩ := place
  obtain ⟨other,other'⟩ := at_of_bound named.bare bound
  exact ⟨other,other'.mem,other'.name.trans same.symm⟩

theorem path_built {first last : String} (path : Relation.TransGen (SendsTo (built w).allPOps) first last) :
    ∃ i j, i < w.nodes.length ∧ j < w.nodes.length ∧ (deref w.nodes i).name = first ∧ (deref w.nodes j).name = last ∧
      Relation.TransGen (fun i j => (i,j) ∈ w.edges) i j := by
  induction path with
  | single step =>
    obtain ⟨pOp,inside,rfl,sends⟩ := step
    obtain ⟨i,at'⟩ := at_of_mem named.bare inside
    obtain ⟨j,edge,same⟩ := (at'.consumers _).mp sends
    have bounds := named.layered.inside i j edge
    exact ⟨i,j,bounds.1,bounds.2,at'.name.symm,same.symm,.single edge⟩
  | tail _ step ih =>
    obtain ⟨i,j,first,second,start,stop,way⟩ := ih
    obtain ⟨pOp,inside,rfl,sends⟩ := step
    obtain ⟨j',at'⟩ := at_of_mem named.bare inside
    obtain ⟨k,edge,same⟩ := (at'.consumers _).mp sends
    obtain rfl := named.place_unique second at'.bound (stop.trans at'.name)
    have bounds := named.layered.inside j k edge
    exact ⟨i,k,first,bounds.2,start,same.symm,way.tail edge⟩

theorem acyclic_built (name : String) : ¬Relation.TransGen (SendsTo (built w).allPOps) name name := by
  intro cycle
  obtain ⟨i,j,first,second,start,stop,way⟩ := path_built named cycle
  obtain rfl := named.place_unique first second (start.trans stop.symm)
  exact named.layered.no_cycle i way

theorem fed_built : (∀ pOp ∈ (built w).allPOps, completesOnProducers pOp.type = true → pOp.producers ≠ []) ↔
    w.Fed Waits := by
  have some' : ∀ i pOp, At w i pOp → (pOp.producers ≠ [] ↔ ∃ j, (j,i) ∈ w.edges) := by
    intro i pOp at'
    constructor
    · intro listed
      obtain ⟨name,inside⟩ := List.exists_mem_of_ne_nil _ listed
      obtain ⟨j,edge,_⟩ := (at'.producers name).mp inside
      exact ⟨j,edge⟩
    · rintro ⟨j,edge⟩
      exact List.ne_nil_of_mem ((at'.producers _).mpr ⟨j,edge,rfl⟩)
  constructor
  · intro each i node place waits
    obtain ⟨pOp,at'⟩ := at_of_bound named.bare (List.getElem?_eq_some_iff.mp place).1
    refine (some' i pOp at').mp (each pOp at'.mem ?_)
    rw [at'.type,deref_eq place]
    exact waits
  · intro fed pOp inside waits
    obtain ⟨i,at'⟩ := at_of_mem named.bare inside
    have place := List.getElem?_eq_getElem at'.bound
    refine (some' i pOp at').mpr (fed i _ place ?_)
    rw [at'.type,deref_eq place] at waits
    exact waits

theorem completes_built (fed : w.Fed Waits) : ∀ pOp ∈ (built w).allPOps, Completes (built w).allPOps pOp := by
  have each : ∀ i pOp, At w i pOp → Completes (built w).allPOps pOp := by
    intro i
    induction i using named.layered.induct with
    | step i below =>
      intro pOp at'
      cases free : completesOnProducers pOp.type with
      | false => exact .alone free
      | true =>
        refine .behind ((fed_built named).mpr fed pOp at'.mem free) fun producer inside listed => ?_
        obtain ⟨j,other'⟩ := at_of_mem named.bare inside
        exact below j ((producers_iff named at' other').mp listed) producer other'
  intro pOp inside
  obtain ⟨i,at'⟩ := at_of_mem named.bare inside
  exact each i pOp at'

end Named

theorem boot_from {directory : POpDirectory Unit} {plan : List (PhysicalOp V)}
    (names : (plan.map fun pOp => pOp.name).Nodup) (new : ∀ pOp ∈ plan, pOp.name ∉ directory.entries.map (·.name)) :
    ∃ booted, plan.foldlM (fun directory pOp =>
      match directory.insert ⟨pOp.name,(),false⟩ with
      | (inserted,.ok ()) => .ok inserted
      | (_,.error error) => .error error) directory = (.ok booted : Except String _) := by
  induction plan generalizing directory with
  | nil => exact ⟨directory,rfl⟩
  | cons pOp plan ih =>
    obtain ⟨fresh,names⟩ := List.nodup_cons.mp names
    obtain ⟨here,later⟩ := List.forall_mem_cons.mp new
    have absent : Operators.find (·.name) directory.entries pOp.name = none := by
      rw [Operators.find,List.find?_eq_none]
      intro entry inside same
      exact here (List.mem_map.mpr ⟨entry,inside,beq_iff_eq.mp same⟩)
    rw [List.foldlM_cons,POpDirectory.insert,absent]
    apply ih names
    intro other inside
    rw [List.map_cons,List.mem_cons,not_or]
    exact ⟨fun same => fresh (List.mem_map.mpr ⟨other,inside,same⟩),later other inside⟩

theorem wellFormed_built (named : Named w) {collate : Nat} (ends : w.ends = [collate])
    (type : (deref w.nodes collate).type = .collate) : WellFormed (built w).allPOps ↔ w.Fed Waits := by
  refine ⟨fun wellFormed => (fed_built named).mp wellFormed.fed,fun fed => ?_⟩
  have names : ((built w).allPOps.map fun pOp => pOp.name).Nodup := by
    rw [names_built]
    exact named.names
  have isEnd : ∀ i, i < w.nodes.length → (i = collate ↔ ∀ j, (i,j) ∉ w.edges) := by
    intro i bound
    rw [← List.mem_singleton,← ends,named.layered.mem_ends]
    exact and_iff_right bound
  have last : collate < w.nodes.length := ((named.layered.mem_ends collate).mp (ends ▸ List.mem_singleton_self _)).1
  obtain ⟨collatePOp,at'⟩ := at_of_bound named.bare last
  refine ⟨names,fun pOp inside name listed => listed_known named inside listed,?_,acyclic_built named,
    ⟨collatePOp,at'.mem,at'.type.trans type,?_⟩,(fed_built named).mpr fed,?_,completes_built named fed⟩
  · intro p inside q inside'
    obtain ⟨i,here⟩ := at_of_mem named.bare inside
    obtain ⟨j,there⟩ := at_of_mem named.bare inside'
    rw [consumers_iff named here there,producers_iff named there here]
  · intro pOp inside
    obtain ⟨i,here⟩ := at_of_mem named.bare inside
    have silent : pOp.consumers = [] ↔ ∀ j, (i,j) ∉ w.edges := by
      rw [List.eq_nil_iff_forall_not_mem]
      constructor
      · exact fun none_ j edge => none_ _ ((here.consumers _).mpr ⟨j,edge,rfl⟩)
      · intro free name listed
        obtain ⟨j,edge,_⟩ := (here.consumers name).mp listed
        exact free j edge
    rw [silent,← isEnd i here.bound]
    constructor
    · rintro rfl
      exact Option.some.inj (here.place.symm.trans at'.place)
    · rintro rfl
      exact named.place_unique here.bound last (here.name.symm.trans at'.name)
  · exact boot_from names fun _ _ => List.not_mem_nil

end Built

namespace PrePToPTransformer
variable (transformer : PrePToPTransformer E)

/-- Some operator is left that sends the output. -/
def Sends : PrePhysicalOp E → Prop
  | .project _ _ producer => Sends producer
  | .filter _ _ producer => Sends producer
  | .filterableScan _ _ table predicate => (transformer.prune table predicate).entries ≠ []
  | _ => True

/-- Whoever waits for producers has one. -/
def Supplied : PrePhysicalOp E → Prop
  | .sort _ _ producer => Supplied producer ∧ transformer.Sends producer
  | .limitSort _ _ producer => Supplied producer ∧ transformer.Sends producer
  | .aggregate _ _ _ _ producer => Supplied producer ∧ transformer.Sends producer
  | .group _ _ producer => Supplied producer ∧ transformer.Sends producer
  | .project _ _ producer => Supplied producer
  | .filter _ _ producer => Supplied producer
  | .hashJoin _ _ _ _ left right => transformer.Sends left ∧ Supplied left ∧ Supplied right
  | .nestedLoopJoin _ _ left right =>
    (transformer.Sends left ∨ transformer.Sends right) ∧ Supplied left ∧ Supplied right
  | .filterableScan _ _ _ _ => True

theorem transformDfs_spec {op : PrePhysicalOp E} (distinct : op.ids.Nodup) (positive : 0 < transformer.degree) :
    ∃ res : TransRes V, transformer.transformDfs op = .ok res ∧
      Transformed op.ids (transformer.Sends op) (transformer.Supplied op) res := by
  induction op with
  | sort id names producer ih =>
    obtain ⟨other,distinct⟩ := List.nodup_cons.mp distinct
    obtain ⟨res,ok,transformed⟩ := ih distinct
    exact ⟨_,by rw [transformDfs,ok]; rfl,transformToOne_spec transformer transformed other (by decide) rfl⟩
  | limitSort id names producer ih =>
    obtain ⟨other,distinct⟩ := List.nodup_cons.mp distinct
    obtain ⟨res,ok,transformed⟩ := ih distinct
    exact ⟨_,by rw [transformDfs,ok]; rfl,transformToOne_spec transformer transformed other (by decide) rfl⟩
  | aggregate id names outputs functions producer ih =>
    obtain ⟨other,distinct⟩ := List.nodup_cons.mp distinct
    obtain ⟨res,ok,transformed⟩ := ih distinct
    rw [transformDfs,ok]
    exact transformAggregate_spec transformer transformed other
  | group id names producer ih =>
    obtain ⟨other,distinct⟩ := List.nodup_cons.mp distinct
    obtain ⟨res,ok,transformed⟩ := ih distinct
    rw [transformDfs,ok]
    exact transformGroup_spec transformer transformed other positive
  | project id names producer ih =>
    obtain ⟨other,distinct⟩ := List.nodup_cons.mp distinct
    obtain ⟨res,ok,transformed⟩ := ih distinct
    rw [transformDfs,ok]
    exact transformEach_spec transformer transformed other (by decide) rfl
  | filter id names producer ih =>
    obtain ⟨other,distinct⟩ := List.nodup_cons.mp distinct
    obtain ⟨res,ok,transformed⟩ := ih distinct
    rw [transformDfs,ok]
    exact transformEach_spec transformer transformed other (by decide) rfl
  | hashJoin id names leftColumnNames rightColumnNames left right ihLeft ihRight =>
    obtain ⟨other,distinct⟩ := List.nodup_cons.mp distinct
    obtain ⟨distinctLeft,distinctRight,apart⟩ := List.nodup_append.mp distinct
    obtain ⟨res,ok,transformed⟩ := ihLeft distinctLeft
    obtain ⟨res',ok',transformed'⟩ := ihRight distinctRight
    rw [transformDfs,ok,ok']
    exact transformHashJoin_spec transformer transformed transformed'
      (fun id inside inside' => apart id inside id inside' rfl) other positive
  | nestedLoopJoin id names left right ihLeft ihRight =>
    obtain ⟨other,distinct⟩ := List.nodup_cons.mp distinct
    obtain ⟨distinctLeft,distinctRight,apart⟩ := List.nodup_append.mp distinct
    obtain ⟨res,ok,transformed⟩ := ihLeft distinctLeft
    obtain ⟨res',ok',transformed'⟩ := ihRight distinctRight
    rw [transformDfs,ok,ok']
    exact transformNestedLoopJoin_spec transformer transformed transformed'
      (fun id inside inside' => apart id inside id inside' rfl) other
      positive
  | filterableScan id names table predicate => exact ⟨_,rfl,transformFilterableScan_spec transformer⟩

theorem collate_untagged {ids : List Nat} {name : String} (tagged : ∃ id ∈ ids, Tagged id name) : name ≠ "collate" := by
  rintro rfl
  obtain ⟨id,_,kind,rest,_,same⟩ := tagged
  have inside : '[' ∈ "collate".toList := by
    rw [same,toList_named]
    simp
  exact absurd inside (by decide)

theorem transform_spec {op : PrePhysicalOp E} (distinct : op.ids.Nodup) (positive : 0 < transformer.degree)
    (outputColumnNames : List String) : ∃ plan :
    List (PhysicalOp V), transformer.transform op outputColumnNames = .ok plan ∧
      (WellFormed plan ↔ transformer.Supplied op ∧ transformer.Sends op) := by
  obtain ⟨_,ok,w,rfl,sound,sends,supplied⟩ := transformDfs_spec transformer distinct positive
  let fresh : List (PhysicalOp V) := [transformer.make "collate" .collate (outputColumnNames.map Tuples.canonicalize) 0]
  let edges := manyToMany w.ends (List.range' w.nodes.length fresh.length)
  have some' : fresh ≠ [] := List.cons_ne_nil _ _
  have new := stage_fanIn sound.layered some'
  have waits : ∀ pOp ∈ fresh, Waits pOp := by
    intro pOp inside
    rw [List.mem_singleton.mp inside]
    rfl
  have named : Named (w.stage fresh edges (List.range' w.nodes.length fresh.length)) := by
    refine ⟨sound.layered.stage new,?_,?_⟩
    · intro pOp inside
      rcases List.mem_append.mp inside with old | last
      · exact sound.bare pOp old
      · rw [List.mem_singleton.mp last]
        exact ⟨rfl,rfl⟩
    · rw [Wiring.stage,List.map_append,List.nodup_append]
      refine ⟨sound.names,List.nodup_singleton _,?_⟩
      intro name inside name' inside' same
      obtain ⟨pOp,member,rfl⟩ := List.mem_map.mp inside
      exact collate_untagged (sound.tagged pOp member) (same.trans (List.mem_singleton.mp inside'))
  have last : (deref (w.nodes ++ fresh) w.nodes.length).type = .collate := by
    rw [deref_eq (List.getElem?_concat_length ..)]
    rfl
  refine ⟨(built (w.stage fresh edges (List.range' w.nodes.length fresh.length))).allPOps,?_,?_⟩
  · rw [transform,ok,built_stage sound.layered]
    show Except.ok (connectManyToOne w.ends (built w).allPOps.length _) = _
    rw [connectManyToOne,manyToOne_eq,length_built]
    rfl
  · rw [wellFormed_built named rfl last,fed_stage_waits sound.layered new waits,supplied,fed_fanIn some',sends]

/-- A plan is well-formed and can complete exactly if whoever waits for producers is sent something. -/
theorem transform_wellFormed_iff {op : PrePhysicalOp E} (distinct : op.ids.Nodup)
    (positive : 0 < transformer.parallelDegree * transformer.numNodes) (outputColumnNames : List String) :
    (∃ plan : List (PhysicalOp V), transformer.transform op outputColumnNames = .ok plan ∧ WellFormed plan) ↔
      transformer.Supplied op ∧ transformer.Sends op := by
  obtain ⟨plan,ok,wellFormed⟩ := transform_spec transformer distinct positive outputColumnNames
  rw [← wellFormed]
  constructor
  · rintro ⟨plan',ok',result⟩
    exact Except.ok.inj (ok.symm.trans ok') ▸ result
  · exact fun result => ⟨plan,ok,result⟩

end PrePToPTransformer

section Examples
open PrePToPTransformer

abbrev plainValues : Values :=
  ⟨Unit,Unit,Unit,Unit,Unit,Unit,Unit,Unit,Unit,Unit,Unit,Unit,Unit,Unit,Unit,Unit,Unit,Unit,Unit,Unit,Unit,Unit,(),
    Unit,Unit⟩

def dates : S3Table := ⟨"dates",["d_year: int32"],["d_year"],[⟨"ssb","dates.csv"⟩],by simp⟩

/-- Every predicate is false on all partitions. -/
def pruning : PrePToPTransformer Unit where
  involvedColumnNames _ := ["d_year"]
  prune table predicate := ⟨if predicate.isSome then [] else table.s3Partitions.dedup.map fun partition => (partition,none),by
      intro entry inside
      split at inside
      · cases inside
      · obtain ⟨partition,known,rfl⟩ := List.mem_map.mp inside
        exact List.mem_dedup.mp known,by
      split
      · exact List.nodup_nil
      · simpa [Function.comp_def] using List.nodup_dedup _,by
      intro entry inside
      split at inside
      · cases inside
      · obtain ⟨partition,known,rfl⟩ := List.mem_map.mp inside
        simp_all⟩
  queryId := 0
  mode := .pushdownOnly
  parallelDegree := 2
  numNodes := 1

def sortedScan (predicate : Option Unit) :
    PrePhysicalOp Unit := .sort 1 ["d_year"] (.filterableScan 0 ["d_year"] dates predicate)

theorem sortedScan_completes :
    ∃ plan : List (PhysicalOp plainValues), pruning.transform (sortedScan none) ["d_year"] = .ok plan ∧
    WellFormed plan := by
  refine (transform_wellFormed_iff pruning (by decide) (by decide) _).mpr ⟨⟨trivial,?_⟩,trivial⟩
  exact List.cons_ne_nil _ _

/-- The sort waits for producers that the plan does not have. -/
theorem pruned_scan_waits :
    ¬∃ plan : List (PhysicalOp plainValues), pruning.transform (sortedScan (some ())) ["d_year"] = .ok plan ∧
    WellFormed plan := by
  rintro ⟨plan,ok,wellFormed⟩
  obtain ⟨plan',ok',supplied⟩ := @transform_spec plainValues Unit pruning (sortedScan (some ())) (by decide)
    (by decide) ["d_year"]
  obtain rfl := Except.ok.inj (ok.symm.trans ok')
  exact (supplied.mp wellFormed).1.2 rfl

end Examples

end Hermes.Transform
