import Hermes.BinlogParser

/-! The partition that `BinlogParser::parse` gives a lineorder record.
The loop declares its `key` without a value, and the branches end with the largest order key
of the stable rows. -/
namespace Hermes.LineorderRouting
open Hermes.Tuple Hermes.BinlogParser Hermes.Library.SortedMap
variable {α : Type}

def routeLineorder (key orderkey : Int32) : Int :=
  ((lineorderKey orderkey).map fun i : Nat => (i : Int)).getD key.toInt

def orderkey (k : PrimaryKey 2) : Int32 := k.1.get ⟨0,by rw [k.2]; decide⟩

/-- The loop over the lineorder records; each turn has a new variable `key`. -/
def parseLineorder (key : Nat → Int32) (records : List (DeltaRow 2 α)) : List (Int × List (DeltaRow 2 α)) :=
  records.zipIdx.foldl (fun recordMap (r,i) => insertRecord (routeLineorder (key i) (orderkey r.key)) r recordMap) []

theorem partitionOf_lineorder (k : PrimaryKey 2) :
    partitionOf .lineorder k = (lineorderKey (orderkey k)).map fun i : Nat => (i : Int) := by
  obtain ⟨columns,two⟩ := k
  cases columns with
  | nil => cases two
  | cons first rest => exact (Option.map_eq_bind (x := lineorderKey first)).symm

/-- Where every record has a branch, the loop reads no variable that was not assigned. -/
theorem parse_lineorder (key : Nat → Int32) {records : List (DeltaRow 2 α)}
    (assigned : ∀ r ∈ records, (lineorderKey (orderkey r.key)).isSome) :
    parse (partitionOf .lineorder) records = some (parseLineorder key records) := by
  rw [parse,parseLineorder]
  generalize ([] : List (Int × List (DeltaRow 2 α))) = recordMap
  generalize 0 = start
  induction records generalizing recordMap start with
  | nil => rfl
  | cons r records ih =>
    rw [List.forall_mem_cons] at assigned
    obtain ⟨i,known⟩ := Option.isSome_iff_exists.mp assigned.1
    have here : routeLineorder (key start) (orderkey r.key) = i := by rw [routeLineorder,known]; rfl
    rw [List.foldlM_cons,partitionOf_lineorder,known,List.zipIdx_cons,List.foldl_cons]
    dsimp only
    rw [here]
    exact ih assigned.2 _ _

/-- The deltas of all pumps, by partition, as `deltaPump` stores them. -/
def pumpedDeltas (key : Nat → Nat → Int32) (pumps : List (List (DeltaRow 2 α))) : List (Int × List (DeltaRow 2 α)) :=
  pumps.zipIdx.flatMap fun (records,pump) => parseLineorder (key pump) records

section Route

theorem routeLineorder_eq (key orderkey : Int32) : routeLineorder key orderkey =
    ((lineorderBounds.findIdx? fun bound => orderkey ≤ bound).map fun i : Nat => (i : Int)).getD key.toInt := by
  rw [routeLineorder,lineorderKey_eq]

/-- A key that one of the first bounds is above goes to one of the first partitions, whatever
the variable held. -/
theorem routeLineorder_inside {orderkey : Int32} {partitions : Nat}
    (inside : ∃ bound ∈ lineorderBounds.take partitions, orderkey ≤ bound) :
    ∃ i, (lineorderBounds.findIdx? fun bound => orderkey ≤ bound) = some i ∧ i < partitions ∧
      ∀ key, routeLineorder key orderkey = (i : Int) := by
  obtain ⟨bound,member,below⟩ := inside
  obtain ⟨i,place,same⟩ := List.mem_iff_getElem.mp member
  rw [List.getElem_take] at same
  have early : i < partitions := by
    rw [List.length_take] at place
    omega
  cases first : lineorderBounds.findIdx? fun bound => orderkey ≤ bound with
  | none =>
    have all := List.findIdx?_eq_none_iff.mp first bound (List.mem_of_mem_take member)
    simp [below] at all
  | some j =>
    refine ⟨j,rfl,?_,?_⟩
    · obtain ⟨_,_,before⟩ := List.findIdx?_eq_some_iff_getElem.mp first
      by_contra late
      have refuted := before i (by omega)
      rw [same] at refuted
      simp [below] at refuted
    · intro key
      rw [routeLineorder_eq,first]
      rfl

theorem routeLineorder_outside {orderkey : Int32} {partitions : Nat}
    (outside : ¬∃ bound ∈ lineorderBounds.take partitions, orderkey ≤ bound) :
    routeLineorder (-1) orderkey = -1 ∨ (partitions : Int) ≤ routeLineorder (-1) orderkey := by
  rw [routeLineorder_eq]
  cases first : lineorderBounds.findIdx? fun bound => orderkey ≤ bound with
  | none => exact Or.inl rfl
  | some i =>
    obtain ⟨place,holds,_⟩ := List.findIdx?_eq_some_iff_getElem.mp first
    refine Or.inr (Int.ofNat_le.mpr ?_)
    by_contra early
    refine outside ⟨lineorderBounds[i],?_,of_decide_eq_true holds⟩
    rw [List.mem_iff_getElem]
    exact ⟨i,by rw [List.length_take]; omega,List.getElem_take⟩

theorem routeLineorder_mono {lower upper key key' : Int32} {i j : Nat} (order : lower ≤ upper)
    (low : (lineorderBounds.findIdx? fun bound => lower ≤ bound) = some i)
    (high : (lineorderBounds.findIdx? fun bound => upper ≤ bound) = some j) :
    routeLineorder key lower ≤ routeLineorder key' upper := by
  rw [routeLineorder_eq,routeLineorder_eq,low,high]
  obtain ⟨_,_,before⟩ := List.findIdx?_eq_some_iff_getElem.mp low
  obtain ⟨place,holds,_⟩ := List.findIdx?_eq_some_iff_getElem.mp high
  refine Int.ofNat_le.mpr ?_
  by_contra late
  have refuted := before j (by omega)
  have below : lower ≤ lineorderBounds[j] := le_trans order (of_decide_eq_true holds)
  simp [below] at refuted

end Route

section Parse
variable {key : Nat → Int32} {records : List (DeltaRow 2 α)}

theorem mem_insertRecord_partitions (place p : Int) (r : DeltaRow 2 α) (recordMap : List (Int × List (DeltaRow 2 α))) :
    p ∈ (insertRecord place r recordMap).map Prod.fst ↔ p = place ∨ p ∈ recordMap.map Prod.fst := by
  induction recordMap with
  | nil => simp [insertRecord]
  | cons entry recordMap ih =>
    obtain ⟨partition,set⟩ := entry
    unfold insertRecord
    split
    next same =>
      subst same
      simp
    next other =>
      rw [List.map_cons,List.mem_cons,ih,List.map_cons,List.mem_cons]
      exact or_left_comm

theorem mem_insertRecord_rows {place : Int} {r s : DeltaRow 2 α} {recordMap : List (Int × List (DeltaRow 2 α))}
    {entry : Int × List (DeltaRow 2 α)} (member : entry ∈ insertRecord place r recordMap) (inside : s ∈ entry.2) :
    (entry.1 = place ∧ s = r) ∨ ∃ before ∈ recordMap, before.1 = entry.1 ∧ s ∈ before.2 := by
  induction recordMap with
  | nil =>
    rw [insertRecord,List.mem_singleton] at member
    subst member
    exact Or.inl ⟨rfl,by simpa [emplace] using inside⟩
  | cons head recordMap ih =>
    obtain ⟨partition,set⟩ := head
    unfold insertRecord at member
    split at member
    next same =>
      rcases List.mem_cons.mp member with rfl | later
      · rcases emplace_mem inside with new | old
        · exact Or.inl ⟨same,new⟩
        · exact Or.inr ⟨_,List.mem_cons_self,rfl,old⟩
      · exact Or.inr ⟨entry,List.mem_cons_of_mem _ later,rfl,inside⟩
    next other =>
      rcases List.mem_cons.mp member with rfl | later
      · exact Or.inr ⟨_,List.mem_cons_self,rfl,inside⟩
      · rcases ih later with new | ⟨before,there,same,old⟩
        · exact Or.inl new
        · exact Or.inr ⟨before,List.mem_cons_of_mem _ there,same,old⟩

variable (key) in
private theorem foldl_routes (records : List (DeltaRow 2 α)) (start : Nat)
    (recordMap : List (Int × List (DeltaRow 2 α))) :
    (∀ p, p ∈ ((records.zipIdx start).foldl (fun recordMap (r,i) =>
        insertRecord (routeLineorder (key i) (orderkey r.key)) r recordMap) recordMap).map Prod.fst ↔
      p ∈ recordMap.map Prod.fst ∨ ∃ entry ∈ records.zipIdx start, p = routeLineorder (key entry.2)
      (orderkey entry.1.key)) ∧
    ∀ entry ∈ (records.zipIdx start).foldl (fun recordMap (r,i) =>
        insertRecord (routeLineorder (key i) (orderkey r.key)) r recordMap) recordMap, ∀ s ∈ entry.2,
      (∃ before ∈ recordMap, before.1 = entry.1 ∧ s ∈ before.2) ∨
        s ∈ records ∧ ∃ i, entry.1 = routeLineorder (key i) (orderkey s.key) := by
  induction records generalizing start recordMap with
  | nil => exact ⟨fun p => by simp,fun entry member s inside => Or.inl ⟨entry,member,rfl,inside⟩⟩
  | cons r records ih =>
    rw [List.zipIdx_cons,List.foldl_cons]
    obtain ⟨partitions,rows⟩ := ih (start+1) (insertRecord (routeLineorder (key start) (orderkey r.key)) r recordMap)
    refine ⟨fun p => ?_,fun entry member s inside => ?_⟩
    · rw [partitions,mem_insertRecord_partitions]
      simp only [List.mem_cons,exists_eq_or_imp]
      rw [or_comm (a := p = _),or_assoc]
    · rcases rows entry member s inside with ⟨before,there,same,old⟩ | ⟨later,routed⟩
      · rcases mem_insertRecord_rows there old with ⟨place,rfl⟩ | ⟨first,here,place,older⟩
        · exact Or.inr ⟨List.mem_cons_self,start,same.symm.trans place⟩
        · exact Or.inl ⟨first,here,place.trans same,older⟩
      · exact Or.inr ⟨List.mem_cons_of_mem _ later,routed⟩

theorem mem_parse_partitions (p : Int) : p ∈ (parseLineorder key records).map Prod.fst ↔
    ∃ entry ∈ records.zipIdx, p = routeLineorder (key entry.2) (orderkey entry.1.key) := by
  have routes := (foldl_routes key records 0 []).1 p
  simpa [parseLineorder] using routes

theorem mem_parse_rows {entry : Int × List (DeltaRow 2 α)} (member : entry ∈ parseLineorder key records)
    {s : DeltaRow 2 α} (inside : s ∈ entry.2) : s ∈ records ∧ ∃ i, entry.1 = routeLineorder (key i)
    (orderkey s.key) := by
  rcases (foldl_routes key records 0 []).2 entry member s inside with ⟨_,wrong,_⟩ | found
  · exact absurd wrong List.not_mem_nil
  · exact found

end Parse

/-- The partition depends on the order key alone, does not fall as it grows, and is one that
there is. -/
structure RoutedByKey (partitions : Nat) (deltas : List (Int × List (DeltaRow 2 α))) : Prop where
  determined : ∀ entry ∈ deltas, ∀ other ∈ deltas, ∀ r ∈ entry.2, ∀ s ∈ other.2,
    orderkey r.key = orderkey s.key → entry.1 = other.1
  ascending : ∀ entry ∈ deltas, ∀ other ∈ deltas, ∀ r ∈ entry.2, ∀ s ∈ other.2,
    orderkey r.key ≤ orderkey s.key → entry.1 ≤ other.1
  inRange : ∀ entry ∈ deltas, 0 ≤ entry.1 ∧ entry.1 < partitions

theorem mem_pumpedDeltas {key : Nat → Nat → Int32} {pumps : List (List (DeltaRow 2 α))}
    {entry : Int × List (DeltaRow 2 α)} : entry ∈ pumpedDeltas key pumps ↔
      ∃ pump ∈ pumps.zipIdx, entry ∈ parseLineorder (key pump.2) pump.1 := List.mem_flatMap

/-- Whatever the variables hold, the deltas of the pumps are routed by their order keys exactly
when each order key is bounded by the last key of one of the partitions. -/
theorem routed_iff (partitions : Nat) (pumps : List (List (DeltaRow 2 α))) :
    (∀ key : Nat → Nat → Int32, RoutedByKey partitions (pumpedDeltas key pumps)) ↔
      ∀ records ∈ pumps, ∀ r ∈ records, ∃ bound ∈ lineorderBounds.take partitions, orderkey r.key ≤ bound := by
  constructor
  · intro routed records member r inside
    by_contra outside
    -- every variable that is not assigned holds -1
    obtain ⟨pump,there⟩ := List.mem_iff_getElem?.mp member
    obtain ⟨i,place⟩ := List.mem_iff_getElem?.mp inside
    have chosen : routeLineorder (-1) (orderkey r.key) ∈ (parseLineorder (fun _ => -1) records).map Prod.fst :=
      (mem_parse_partitions _).mpr ⟨(r,i),List.mem_zipIdx_iff_getElem?.mpr place,rfl⟩
    obtain ⟨entry,parsed,same⟩ := List.mem_map.mp chosen
    obtain ⟨low,high⟩ := (routed fun _ _ => -1).inRange entry
      (mem_pumpedDeltas.mpr ⟨(records,pump),List.mem_zipIdx_iff_getElem?.mpr there,parsed⟩)
    rw [same] at low high
    rcases routeLineorder_outside outside with none_ | beyond
    · omega
    · omega
  · intro bounded key
    have within : ∀ entry ∈ pumpedDeltas key pumps, ∀ s ∈ entry.2,
        ∃ i, (lineorderBounds.findIdx? fun bound => orderkey s.key ≤ bound) = some i ∧
          ∃ variable_, entry.1 = routeLineorder variable_ (orderkey s.key) := by
      intro entry member s inside
      obtain ⟨pump,there,parsed⟩ := mem_pumpedDeltas.mp member
      obtain ⟨here,i,chosen⟩ := mem_parse_rows parsed inside
      have records := List.mem_of_getElem? (List.mem_zipIdx_iff_getElem?.mp there)
      obtain ⟨j,first,_⟩ := routeLineorder_inside (bounded _ records s here)
      exact ⟨j,first,_,chosen⟩
    have ascending : ∀ entry ∈ pumpedDeltas key pumps, ∀ other ∈ pumpedDeltas key pumps, ∀ r ∈ entry.2, ∀ s ∈ other.2,
        orderkey r.key ≤ orderkey s.key → entry.1 ≤ other.1 := by
      intro entry member other member' r inside s inside' order
      obtain ⟨_,low,_,lower⟩ := within entry member r inside
      obtain ⟨_,high,_,upper⟩ := within other member' s inside'
      rw [lower,upper]
      exact routeLineorder_mono order low high
    refine ⟨?_,ascending,?_⟩
    · intro entry member other member' r inside s inside' same
      apply le_antisymm
      · exact ascending entry member other member' r inside s inside' (le_of_eq same)
      · exact ascending other member' entry member s inside' r inside (le_of_eq same.symm)
    · intro entry member
      obtain ⟨pump,there,parsed⟩ := mem_pumpedDeltas.mp member
      obtain ⟨⟨r,i⟩,place,chosen⟩ := (mem_parse_partitions _).mp (List.mem_map_of_mem parsed)
      have records := List.mem_of_getElem? (List.mem_zipIdx_iff_getElem?.mp there)
      obtain ⟨j,_,low,routes⟩ := routeLineorder_inside
        (bounded _ records r (List.mem_of_getElem? (List.mem_zipIdx_iff_getElem?.mp place)))
      rw [chosen,routes]
      exact ⟨Int.natCast_nonneg j,Int.ofNat_lt.mpr low⟩

/-- A new order, above all bounds, with fifty partitions. -/
theorem new_order_unrouted : ¬∀ key : Nat → Nat → Int32,
    RoutedByKey 50 (pumpedDeltas key [[(⟨⟨pairKey 75000001 1,()⟩,.insert⟩ : DeltaRow 2 Unit)]]) := by
  intro routed
  have parsed : pumpedDeltas (fun _ _ => -1) [[(⟨⟨pairKey 75000001 1,()⟩,.insert⟩ : DeltaRow 2 Unit)]] =
      [(-1,[⟨⟨pairKey 75000001 1,()⟩,.insert⟩])] := by decide
  have ranged := (routed fun _ _ => -1).inRange (-1,[⟨⟨pairKey 75000001 1,()⟩,.insert⟩]) (by rw [parsed]; simp)
  exact absurd ranged.1 (by decide)

/-- The order key where the old rows end is routed to the last partition. -/
example : routeLineorder (-1) 74999217 = 49 := by decide

end Hermes.LineorderRouting
