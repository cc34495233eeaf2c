import Hermes.Library.Wiring
import Hermes.PrePToPTransformer

/-! The operators and connections of a transformation as a wiring: what is connected later only adds to the names
that the operators list, and names that differ in their ids differ. -/
namespace Hermes.Transform
open Hermes.Library
open Hermes.Serialization (Values PhysicalOp POpType)
variable {V : Values} {E : Type}

section Connections
variable {allPOps others fresh : List (PhysicalOp V)} {edge : Nat × Nat} {edges : List (Nat × Nat)} {i j : Nat}

theorem mem_emplace {names : List String} {name other : String} :
    other ∈ PhysicalOp.emplace names name ↔ other ∈ names ∨ other = name := by
  unfold PhysicalOp.emplace
  split
  next inside => exact (or_iff_left_of_imp fun same => same ▸ inside).symm
  next => rw [List.mem_append,List.mem_singleton]

theorem length_connect : (connect allPOps edge).length = allPOps.length := by
  rw [connect,List.length_modify,List.length_modify]

theorem getElem?_connect : (connect allPOps edge)[i]? = allPOps[i]?.map fun pOp =>
    (fun consumer => if edge.2 = i then consumer.consume (deref allPOps edge.1).name else consumer)
      (if edge.1 = i then pOp.produce (deref allPOps edge.2).name else pOp) := by
  rw [connect,List.getElem?_modify,List.getElem?_modify]
  cases allPOps[i]? <;> rfl

theorem deref_eq {pOp : PhysicalOp V} (known : allPOps[i]? = some pOp) : deref allPOps i = pOp := by
  rw [deref,List.getD_eq_getElem?_getD,known]
  rfl

theorem deref_connect (i : Nat) : (deref (connect allPOps edge) i).name = (deref allPOps i).name := by
  rw [deref,deref,List.getD_eq_getElem?_getD,List.getD_eq_getElem?_getD,getElem?_connect]
  cases allPOps[i]? with
  | none => rfl
  | some pOp =>
    show (if edge.2 = i then _ else _ : PhysicalOp V).name = pOp.name
    split <;> split <;> rfl

structure Connected (names : Nat → String) (edges : List (Nat × Nat)) (i : Nat) (bare pOp : PhysicalOp V) : Prop where
  name : pOp.name = bare.name
  type : pOp.type = bare.type
  consumers : ∀ name, name ∈ pOp.consumers ↔ name ∈ bare.consumers ∨ ∃ j, (i,j) ∈ edges ∧ name = names j
  producers : ∀ name, name ∈ pOp.producers ↔ name ∈ bare.producers ∨ ∃ j, (j,i) ∈ edges ∧ name = names j

theorem connected_connect {pOp : PhysicalOp V} (known : allPOps[i]? = some pOp) :
    ∃ pOp', (connect allPOps edge)[i]? = some pOp' ∧ Connected (fun j => (deref allPOps j).name) [edge] i pOp pOp' := by
  obtain ⟨first,second⟩ := edge
  rw [getElem?_connect,known]
  refine ⟨_,rfl,?_⟩
  have out : ∀ name, (∃ j, (i,j) ∈ [(first,second)] ∧ name = (deref allPOps j).name) ↔
      first = i ∧ name = (deref allPOps second).name := by
    intro name
    constructor
    · rintro ⟨j,inside,named⟩
      obtain ⟨here,there⟩ := Prod.mk.inj (List.mem_singleton.mp inside)
      exact ⟨here.symm,there ▸ named⟩
    · rintro ⟨rfl,named⟩
      exact ⟨second,List.mem_singleton.mpr rfl,named⟩
  have into : ∀ name, (∃ j, (j,i) ∈ [(first,second)] ∧ name = (deref allPOps j).name) ↔
      second = i ∧ name = (deref allPOps first).name := by
    intro name
    constructor
    · rintro ⟨j,inside,named⟩
      obtain ⟨here,there⟩ := Prod.mk.inj (List.mem_singleton.mp inside)
      exact ⟨there.symm,here ▸ named⟩
    · rintro ⟨rfl,named⟩
      exact ⟨first,List.mem_singleton.mpr rfl,named⟩
  refine ⟨?_,?_,fun name => ?_,fun name => ?_⟩
  · by_cases source : first = i <;> by_cases target : second = i <;> simp [source,target,PhysicalOp.produce,
      PhysicalOp.consume]
  · by_cases source : first = i <;> by_cases target : second = i <;> simp [source,target,PhysicalOp.produce,
      PhysicalOp.consume]
  · rw [out]
    by_cases source : first = i <;> by_cases target : second = i <;>
      simp [source,target,PhysicalOp.produce,PhysicalOp.consume,mem_emplace]
  · rw [into]
    by_cases source : first = i <;> by_cases target : second = i <;>
      simp [source,target,PhysicalOp.produce,PhysicalOp.consume,mem_emplace]

theorem connected_foldl (edges : List (Nat × Nat)) {pOp : PhysicalOp V} (known : allPOps[i]? = some pOp) :
    ∃ pOp', (edges.foldl connect allPOps)[i]? = some pOp' ∧
    Connected (fun j => (deref allPOps j).name) edges i pOp pOp' := by
  induction edges generalizing allPOps pOp with
  | nil =>
    refine ⟨pOp,known,rfl,rfl,fun name => ?_,fun name => ?_⟩ <;> simp
  | cons edge edges ih =>
    obtain ⟨pOp',known',first⟩ := @connected_connect V allPOps edge i pOp known
    obtain ⟨pOp'',known'',rest⟩ := ih known'
    refine ⟨pOp'',known'',rest.name.trans first.name,rest.type.trans first.type,fun name => ?_,fun name => ?_⟩
    · rw [rest.consumers,first.consumers,or_assoc]
      simp only [deref_connect,List.mem_cons,List.not_mem_nil,or_false,or_and_right,exists_or]
    · rw [rest.producers,first.producers,or_assoc]
      simp only [deref_connect,List.mem_cons,List.not_mem_nil,or_false,or_and_right,exists_or]

theorem length_foldl_connect (edges : List (Nat × Nat)) : (edges.foldl connect allPOps).length = allPOps.length := by
  induction edges generalizing allPOps with
  | nil => rfl
  | cons edge edges ih => rw [List.foldl_cons,ih,length_connect]

theorem connect_append (first : edge.1 < allPOps.length) (second : edge.2 < allPOps.length) :
    connect (allPOps ++ fresh) edge = connect allPOps edge ++ fresh := by
  have here : ∀ i < allPOps.length, deref (allPOps ++ fresh) i = deref allPOps i := by
    intro i bound
    rw [deref,deref,List.getD_eq_getElem?_getD,List.getD_eq_getElem?_getD,List.getElem?_append_left bound]
  apply List.ext_getElem?
  intro i
  by_cases early : i < allPOps.length
  · rw [List.getElem?_append_left (by rwa [length_connect]),getElem?_connect,getElem?_connect,
      List.getElem?_append_left early,
      here _ first,here _ second]
  · have differ : edge.1 ≠ i ∧ edge.2 ≠ i := by omega
    rw [List.getElem?_append_right (by rw [length_connect]; omega),getElem?_connect,length_connect,
      List.getElem?_append_right (by omega)]
    simp only [if_neg differ.1,if_neg differ.2,Option.map_id']

theorem foldl_connect_append (inside : ∀ i j, (i,j) ∈ edges → i < allPOps.length ∧ j < allPOps.length) :
    edges.foldl connect (allPOps ++ fresh) = edges.foldl connect allPOps ++ fresh := by
  induction edges generalizing allPOps with
  | nil => rfl
  | cons edge edges ih =>
    obtain ⟨first,second⟩ := inside edge.1 edge.2 List.mem_cons_self
    rw [List.foldl_cons,connect_append first second,ih,List.foldl_cons]
    intro i j later
    rw [length_connect]
    exact inside i j (List.mem_cons_of_mem _ later)

theorem connect_shift : connect (others ++ allPOps)
    (others.length+i,others.length+j) = others ++ connect allPOps (i,j) := by
  have there : ∀ i, deref (others ++ allPOps) (others.length+i) = deref allPOps i := by
    intro i
    rw [deref,deref,List.getD_eq_getElem?_getD,List.getD_eq_getElem?_getD,
      List.getElem?_append_right (Nat.le_add_right _ _),
      Nat.add_sub_cancel_left]
  apply List.ext_getElem?
  intro k
  by_cases early : k < others.length
  · have differ : others.length+i ≠ k ∧ others.length+j ≠ k := by omega
    rw [getElem?_connect,List.getElem?_append_left early,List.getElem?_append_left early]
    simp only [if_neg differ.1,if_neg differ.2,Option.map_id']
  · obtain ⟨l,rfl⟩ := Nat.exists_eq_add_of_le (Nat.le_of_not_lt early)
    rw [getElem?_connect,List.getElem?_append_right (Nat.le_add_right _ _),
      List.getElem?_append_right (Nat.le_add_right _ _),
      Nat.add_sub_cancel_left,getElem?_connect]
    simp only [there,Nat.add_left_cancel_iff]

theorem foldl_connect_shift (edges : List (Nat × Nat)) :
    (Wiring.shift others.length edges).foldl connect (others ++ allPOps) = others ++ edges.foldl connect allPOps := by
  induction edges generalizing allPOps with
  | nil => rfl
  | cons edge edges ih =>
    show (Wiring.shift others.length edges).foldl connect
      (connect (others ++ allPOps) (others.length+edge.1,others.length+edge.2)) = _
    rw [connect_shift,ih,List.foldl_cons]

end Connections

def built (w : Wiring (PhysicalOp V)) : TransRes V := ⟨w.ends,w.edges.foldl connect w.nodes⟩

section Built
variable {w w' : Wiring (PhysicalOp V)} {fresh : List (PhysicalOp V)} {edges : List (Nat × Nat)} {ends : List Nat}

theorem upConnPOps_built : (built w).upConnPOps = w.ends := rfl

@[simp] theorem length_built : (built w).allPOps.length = w.nodes.length := length_foldl_connect _

theorem built_beside (layered : w.Layered) : built (w.beside w') = (built w).append (built w') := by
  have nodes : (w.edges ++ Wiring.shift w.nodes.length w'.edges).foldl connect (w.nodes ++ w'.nodes) =
      w.edges.foldl connect w.nodes ++ w'.edges.foldl connect w'.nodes := by
    rw [List.foldl_append,foldl_connect_append layered.inside]
    have size := @length_foldl_connect V w.nodes w.edges
    rw [← size,foldl_connect_shift]
  rw [TransRes.append,length_built]
  exact congrArg _ nodes

theorem built_stage (layered : w.Layered) :
    built (w.stage fresh edges ends) = ⟨ends,edges.foldl connect ((built w).allPOps ++ fresh)⟩ := by
  have nodes : (w.edges ++ edges).foldl connect (w.nodes ++ fresh) =
      edges.foldl connect (w.edges.foldl connect w.nodes ++ fresh) := by
    rw [List.foldl_append,foldl_connect_append layered.inside]
  exact congrArg _ nodes

theorem deref_built (i : Nat) : (deref (built w).allPOps i).name = (deref w.nodes i).name := by
  by_cases bound : i < w.nodes.length
  · obtain ⟨pOp,known,connected⟩ := connected_foldl w.edges (List.getElem?_eq_getElem bound)
    rw [built,deref_eq known,deref_eq (List.getElem?_eq_getElem bound),connected.name]
  · rw [deref,deref,List.getD_eq_getElem?_getD,List.getD_eq_getElem?_getD,
      List.getElem?_eq_none (by rw [length_built]; omega),
      List.getElem?_eq_none (by omega)]

end Built

section Names
variable {kind kind' rest rest' : String} {id id' : Nat}

def Plain (kind : String) : Prop := '[' ∉ kind.toList

instance instDecidablePlain (kind : String) : Decidable (Plain kind) := inferInstanceAs (Decidable ('[' ∉ kind.toList))

theorem toList_named : (named kind id rest).toList = kind.toList ++ '['::(Nat.toDigits 10 id ++ ']'::rest.toList) := by
  show (kind ++ "[" ++ id.repr ++ "]" ++ rest).toList = _
  rw [String.toList_append,String.toList_append,String.toList_append,String.toList_append,Nat.toList_repr]
  simp only [List.append_assoc]
  rfl

theorem takeWhile_stop {α : Type} [DecidableEq α] {stop : α} {start rest : List α} (free : stop ∉ start) :
    (start ++ stop::rest).takeWhile (fun a => decide (a ≠ stop)) = start := by
  rw [List.takeWhile_append_of_pos,List.takeWhile_cons_of_neg (by simp),List.append_nil]
  intro a inside
  exact decide_eq_true fun same => free (same ▸ inside)

theorem append_stop_inj {α : Type} [DecidableEq α] {stop : α} {start start' rest rest' : List α} (free : stop ∉ start)
    (free' : stop ∉ start') (same : start ++ stop::rest = start' ++ stop::rest') : start = start' ∧ rest = rest' := by
  have starts : start = start' := by rw [← @takeWhile_stop _ _ _ start rest free,same,takeWhile_stop free']
  rw [starts] at same
  exact ⟨starts,(List.cons.inj (List.append_cancel_left same)).2⟩

theorem bracket_not_digit (id : Nat) : ']' ∉ Nat.toDigits 10 id := by
  intro inside
  exact absurd (Nat.isDigit_of_mem_toDigits (by decide) (by decide) inside) (by decide)

theorem toDigits_injective {n m : Nat} (same : Nat.toDigits 10 n = Nat.toDigits 10 m) : n = m := by
  rw [← @Nat.ofDigitChars_ten_toDigits n,same,Nat.ofDigitChars_ten_toDigits]

theorem named_inj (plain : Plain kind) (plain' : Plain kind') (same : named kind id rest = named kind' id' rest') :
    kind = kind' ∧ id = id' ∧ rest = rest' := by
  have lists := congrArg String.toList same
  rw [toList_named,toList_named] at lists
  obtain ⟨kinds,lists⟩ := append_stop_inj plain plain' lists
  obtain ⟨ids,rests⟩ := append_stop_inj (bracket_not_digit id) (bracket_not_digit id') lists
  exact ⟨String.toList_injective kinds,toDigits_injective ids,String.toList_injective rests⟩

end Names

def Tagged (id : Nat) (name : String) : Prop := ∃ kind rest, Plain kind ∧ name = named kind id rest

theorem Tagged.unique {name : String} {id id' : Nat} (tagged : Tagged id name) (tagged' : Tagged id' name) :
    id = id' := by
  obtain ⟨kind,rest,plain,same⟩ := tagged
  obtain ⟨kind',rest',plain',same'⟩ := tagged'
  exact (named_inj plain plain' (same.symm.trans same')).2.1

def OfKind (kind : String) (id : Nat) (pOps : List (PhysicalOp V)) : Prop :=
  ∀ pOp ∈ pOps, (pOp.consumers = [] ∧ pOp.producers = []) ∧ ∃ rest, pOp.name = named kind id rest

structure Fresh (id : Nat) (pOps : List (PhysicalOp V)) : Prop where
  bare : ∀ pOp ∈ pOps, pOp.consumers = [] ∧ pOp.producers = []
  names : (pOps.map fun pOp => pOp.name).Nodup
  tagged : ∀ pOp ∈ pOps, Tagged id pOp.name

section Sound
variable {id : Nat} {ids ids' : List Nat} {kind kind' : String} {pOps others fresh : List (PhysicalOp V)}
  {w w' : Wiring (PhysicalOp V)} {edges : List (Nat × Nat)} {ends : List Nat}

theorem OfKind.made (ofKind : OfKind kind id pOps) (plain : Plain kind) (names : (pOps.map fun pOp => pOp.name).Nodup) :
    Fresh id pOps where
  bare pOp inside := (ofKind pOp inside).1
  names := names
  tagged pOp inside := by
    obtain ⟨rest,same⟩ := (ofKind pOp inside).2
    exact ⟨kind,rest,plain,same⟩

theorem Fresh.append (first : Fresh id pOps) (second : Fresh id others)
    (differ : ∀ pOp ∈ pOps, ∀ other ∈ others, pOp.name ≠ other.name) : Fresh id (pOps ++ others) where
  bare pOp inside := (List.mem_append.mp inside).elim (first.bare pOp) (second.bare pOp)
  names := by
    rw [List.map_append,List.nodup_append]
    refine ⟨first.names,second.names,?_⟩
    intro name inside name' inside' same
    obtain ⟨pOp,member,rfl⟩ := List.mem_map.mp inside
    obtain ⟨other,member',rfl⟩ := List.mem_map.mp inside'
    exact differ pOp member other member' same
  tagged pOp inside := (List.mem_append.mp inside).elim (first.tagged pOp) (second.tagged pOp)

theorem OfKind.differ (ofKind : OfKind kind id pOps) (ofKind' : OfKind kind' id others) (plain : Plain kind)
    (plain' : Plain kind') (kinds : kind ≠ kind') : ∀ pOp ∈ pOps, ∀ other ∈ others, pOp.name ≠ other.name := by
  intro pOp inside other inside' same
  obtain ⟨_,rest,name⟩ := ofKind pOp inside
  obtain ⟨_,rest',name'⟩ := ofKind' other inside'
  exact kinds (named_inj plain plain' (name.symm.trans (same.trans name'))).1

/-- A wiring of new operators with the ids, each with a name of its own. -/
structure Sound (ids : List Nat) (w : Wiring (PhysicalOp V)) : Prop where
  layered : w.Layered
  bare : ∀ pOp ∈ w.nodes, pOp.consumers = [] ∧ pOp.producers = []
  names : (w.nodes.map fun pOp => pOp.name).Nodup
  tagged : ∀ pOp ∈ w.nodes, ∃ id ∈ ids, Tagged id pOp.name

theorem names_append {pOps others : List (PhysicalOp V)} (names : (pOps.map fun pOp => pOp.name).Nodup)
    (names' : (others.map fun pOp => pOp.name).Nodup) (tagged : ∀ pOp ∈ pOps, ∃ id ∈ ids, Tagged id pOp.name)
    (tagged' : ∀ pOp ∈ others, ∃ id ∈ ids', Tagged id pOp.name) (apart : ∀ id ∈ ids, id ∉ ids') :
    ((pOps ++ others).map fun pOp => pOp.name).Nodup := by
  rw [List.map_append,List.nodup_append]
  refine ⟨names,names',?_⟩
  intro name inside name' inside' same
  obtain ⟨pOp,member,rfl⟩ := List.mem_map.mp inside
  obtain ⟨other,member',rfl⟩ := List.mem_map.mp inside'
  obtain ⟨id,known,tag⟩ := tagged pOp member
  obtain ⟨id',known',tag'⟩ := tagged' other member'
  rw [← same] at tag'
  exact apart id known (tag.unique tag' ▸ known')

theorem Sound.stage (sound : Sound ids w) (new : Wiring.Stage w fresh edges ends) (made : Fresh id fresh)
    (other : id ∉ ids) :
    Sound (id::ids) (w.stage fresh edges ends) where
  layered := sound.layered.stage new
  bare pOp inside := (List.mem_append.mp inside).elim (sound.bare pOp) (made.bare pOp)
  names := by
    have tagged : ∀ pOp ∈ fresh, ∃ id' ∈ [id], Tagged id' pOp.name :=
      fun pOp inside => ⟨id,List.mem_singleton.mpr rfl,made.tagged pOp inside⟩
    exact names_append sound.names made.names sound.tagged tagged fun id' known same => other
      (List.mem_singleton.mp same ▸ known)
  tagged pOp inside := by
    rcases List.mem_append.mp inside with old | new
    · obtain ⟨id',known,tag⟩ := sound.tagged pOp old
      exact ⟨id',List.mem_cons_of_mem _ known,tag⟩
    · exact ⟨id,List.mem_cons_self,made.tagged pOp new⟩

theorem Sound.beside (sound : Sound ids w) (sound' : Sound ids' w') (apart : ∀ id ∈ ids, id ∉ ids') :
    Sound (ids ++ ids') (w.beside w') where
  layered := sound.layered.beside sound'.layered
  bare pOp inside := (List.mem_append.mp inside).elim (sound.bare pOp) (sound'.bare pOp)
  names := names_append sound.names sound'.names sound.tagged sound'.tagged apart
  tagged pOp inside := by
    rcases List.mem_append.mp inside with left | right
    · obtain ⟨id,known,tag⟩ := sound.tagged pOp left
      exact ⟨id,List.mem_append_left _ known,tag⟩
    · obtain ⟨id,known,tag⟩ := sound'.tagged pOp right
      exact ⟨id,List.mem_append_right _ known,tag⟩

theorem deref_inj (names : (pOps.map fun pOp => pOp.name).Nodup) {i j : Nat} (first : i < pOps.length)
    (second : j < pOps.length) (same : (deref pOps i).name = (deref pOps j).name) : i = j := by
  rw [deref_eq (List.getElem?_eq_getElem first),deref_eq (List.getElem?_eq_getElem second)] at same
  have bound : i < (pOps.map fun pOp => pOp.name).length := by rwa [List.length_map]
  have bound' : j < (pOps.map fun pOp => pOp.name).length := by rwa [List.length_map]
  have equal : (pOps.map fun pOp => pOp.name)[i] = (pOps.map fun pOp => pOp.name)[j] := by
    rwa [List.getElem_map,List.getElem_map]
  exact names.getElem_inj_iff.mp equal

end Sound

end Hermes.Transform
