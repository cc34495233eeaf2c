import Hermes.Library.SortedMap
import Hermes.Tuple
import Mathlib.Data.List.Induction

/-! From the decoded log records of one pump to the deltas of a table.
Records are collected in one ordered set for each partition, and a set keeps the
first of several records with one key. -/
namespace Hermes.BinlogParser
open Hermes.Tuple Hermes.Library.KeyOrder Hermes.Library.SortedMap
variable {n : Nat} {α : Type}

inductive Table where
  | lineorder
  | customer
  | supplier
  | part
  | date
deriving DecidableEq

def Table.primaryKeyColumns : Table → Nat
  | .lineorder => 2
  | _ => 1

theorem Table.primaryKeyColumns_pos (table : Table) : 0 < table.primaryKeyColumns := by
  cases table <;> decide

/-- A branch of the chain: above one order key, if it asks for that, and up to another. -/
structure KeyRange where
  above : Option Int32
  upTo : Int32
  key : Nat
deriving DecidableEq

def KeyRange.admits (range : KeyRange) (orderkey : Int32) : Bool :=
  range.above.all (fun bound => decide (orderkey > bound)) && decide (orderkey ≤ range.upTo)

def lineorderRanges : List KeyRange :=
  [⟨none,1499927,0⟩,⟨some 1499927,2999416,1⟩,⟨some 2999416,4498779,2⟩,⟨some 4498779,5998297,3⟩,
    ⟨some 5998297,7497903,4⟩,⟨some 7497903,8998097,5⟩,⟨some 8998097,10498020,6⟩,⟨some 10498020,11998075,7⟩,
    ⟨some 11998075,13498458,8⟩,⟨some 13498458,14998646,9⟩,⟨some 14998646,16498453,10⟩,⟨some 16498453,17998741,11⟩,
    ⟨some 17998741,19497640,12⟩,⟨some 19497640,20997451,13⟩,⟨some 20997451,22498629,14⟩,⟨some 22498629,23997983,15⟩,
    ⟨some 23997983,25498325,16⟩,⟨some 25498325,26997453,17⟩,⟨some 26997453,28497830,18⟩,⟨some 28497830,29997849,19⟩,
    ⟨some 29997849,31498442,20⟩,⟨some 31498442,32999006,21⟩,⟨some 32999006,34499232,22⟩,⟨some 34499232,35999683,23⟩,
    ⟨some 35999683,37498854,24⟩,⟨some 37498854,38999562,25⟩,⟨some 38999562,40499592,26⟩,⟨some 40499592,41999189,27⟩,
    ⟨some 41999189,43499770,28⟩,⟨some 43499770,44999813,29⟩,⟨some 44999813,46499004,30⟩,⟨some 46499004,47997977,31⟩,
    ⟨some 47997977,49498110,32⟩,⟨some 49498110,50997836,33⟩,⟨some 50997836,52497202,34⟩,⟨some 52497202,53997854,35⟩,
    ⟨some 53997854,55497373,36⟩,⟨some 55497373,56997633,37⟩,⟨some 56997633,58497825,38⟩,⟨some 58497825,59997045,39⟩,
    ⟨some 59997045,61496667,40⟩,⟨some 61496667,62996883,41⟩,⟨some 62996883,64496661,42⟩,⟨some 64496661,65996687,43⟩,
    ⟨some 65996687,67497709,44⟩,⟨some 67497709,68997780,45⟩,⟨some 68997780,70497949,46⟩,⟨some 70497949,71998259,47⟩,
    ⟨some 71998259,73498852,48⟩,⟨some 73498852,74999217,49⟩]

def lineorderKey (orderkey : Int32) : Option Nat := (lineorderRanges.find? (·.admits orderkey)).map KeyRange.key

/-- The last order key of each partition of `lineorder`. -/
def lineorderBounds : List Int32 := lineorderRanges.map KeyRange.upTo

/-- The partition of a record. Above the last bound the source reads a variable
it never assigned. -/
def partitionOf (table : Table) (k : PrimaryKey n) : Option Int :=
  match table with
  | .lineorder => do
    let orderkey ← k.1.head?
    let key ← lineorderKey orderkey
    some key
  | _ => some 0

/-- One record goes into the set of its partition, which is made when it is missing. -/
def insertRecord (key : Int) (r : DeltaRow n α) :
    List (Int × List (DeltaRow n α)) → List (Int × List (DeltaRow n α))
  | [] => [(key,emplace (·.key) r [])]
  | (partition,records)::rest =>
    if partition = key then (partition,emplace (·.key) r records)::rest
    else (partition,records) :: insertRecord key r rest

def parse (partitionOf : PrimaryKey n → Option Int) (records : List (DeltaRow n α)) :
    Option (List (Int × List (DeltaRow n α))) :=
  records.foldlM (fun recordMap r => (partitionOf r.key).map (fun key => insertRecord key r recordMap)) []

def dispatch (recordMap : List (Int × List (DeltaRow n α))) : List (Int × TupleSet (DeltaRow n α)) :=
  recordMap.map (fun (partition,records) => (partition,.ofRows records))

def pump (table : Table) (records : List (DeltaRow table.primaryKeyColumns α)) :
    Option (List (Int × TupleSet (DeltaRow table.primaryKeyColumns α))) :=
  (parse (partitionOf table) records).map dispatch

def firstEvent (records : List (DeltaRow n α)) (k : PrimaryKey n) : Option (DeltaRow n α) :=
  records.find? (fun r => r.key = k)

def lastEvent (records : List (DeltaRow n α)) (k : PrimaryKey n) : Option (DeltaRow n α) :=
  records.reverse.find? (fun r => r.key = k)

/-- The sets after the records so far, by a choice of one record for each key. -/
structure Collected (partitionOf : PrimaryKey n → Option Int) (chosen : PrimaryKey n → Option (DeltaRow n α))
    (recordMap : List (Int × List (DeltaRow n α))) : Prop where
  partitions : (recordMap.map (·.1)).Nodup
  ascending : ∀ entry ∈ recordMap, Ascending (·.key) entry.2
  rows : ∀ partition r, (∃ records, (partition,records) ∈ recordMap ∧ r ∈ records) ↔
    chosen r.key = some r ∧ partitionOf r.key = some partition

private theorem mem_insertRecord {key : Int} {r : DeltaRow n α} {recordMap : List (Int × List (DeltaRow n α))}
    {entry : Int × List (DeltaRow n α)} (distinct : (recordMap.map (·.1)).Nodup) :
    entry ∈ insertRecord key r recordMap ↔
      (entry ∈ recordMap ∧ entry.1 ≠ key) ∨
      (entry.1 = key ∧ entry.2 = emplace (·.key) r ((recordMap.lookup key).getD [])) := by
  induction recordMap with
  | nil => simp [insertRecord,Prod.ext_iff]
  | cons head rest ih =>
    obtain ⟨partition,records⟩ := head
    obtain ⟨fresh,others⟩ := List.nodup_cons.mp distinct
    unfold insertRecord
    by_cases same : partition = key
    · subst same
      have elsewhere : ∀ entry ∈ rest, entry.1 ≠ partition :=
        fun entry member equal => fresh (List.mem_map.mpr ⟨entry,member,equal⟩)
      rw [if_pos rfl,List.lookup_cons_self,List.mem_cons,List.mem_cons]
      constructor
      · rintro (rfl | member)
        · exact Or.inr ⟨rfl,rfl⟩
        · exact Or.inl ⟨Or.inr member,elsewhere entry member⟩
      · rintro (⟨rfl | member,other⟩ | ⟨place,set⟩)
        · exact absurd rfl other
        · exact Or.inr member
        · exact Or.inl (Prod.ext place set)
    · have unlike : (key == partition) = false := by simpa using Ne.symm same
      rw [if_neg same,List.mem_cons,ih others,List.lookup_cons,unlike,List.mem_cons]
      constructor
      · rintro (rfl | ⟨member,other⟩ | stored)
        · exact Or.inl ⟨Or.inl rfl,same⟩
        · exact Or.inl ⟨Or.inr member,other⟩
        · exact Or.inr stored
      · rintro (⟨rfl | member,other⟩ | stored)
        · exact Or.inl rfl
        · exact Or.inr (Or.inl ⟨member,other⟩)
        · exact Or.inr (Or.inr stored)

private theorem insertRecord_partitions (key : Int) (r : DeltaRow n α)
    {recordMap : List (Int × List (DeltaRow n α))} (distinct : (recordMap.map (·.1)).Nodup) :
    ((insertRecord key r recordMap).map (·.1)).Nodup := by
  induction recordMap with
  | nil => simp [insertRecord]
  | cons head rest ih =>
    obtain ⟨partition,records⟩ := head
    obtain ⟨fresh,others⟩ := List.nodup_cons.mp distinct
    unfold insertRecord
    split
    next same => exact List.nodup_cons.mpr ⟨fresh,others⟩
    next other =>
      refine List.nodup_cons.mpr ⟨?_,ih others⟩
      intro member
      obtain ⟨entry,inside,place⟩ := List.mem_map.mp member
      rcases (mem_insertRecord others).mp inside with ⟨old,_⟩ | ⟨here,_⟩
      · exact fresh (List.mem_map.mpr ⟨entry,old,place⟩)
      · exact other (place.symm.trans here)

private theorem mem_lookup {key : Int} {recordMap : List (Int × List (DeltaRow n α))}
    (distinct : (recordMap.map (·.1)).Nodup) (s : DeltaRow n α) :
    s ∈ (recordMap.lookup key).getD [] ↔ ∃ records, (key,records) ∈ recordMap ∧ s ∈ records := by
  induction recordMap with
  | nil => simp
  | cons head rest ih =>
    obtain ⟨partition,records⟩ := head
    obtain ⟨fresh,others⟩ := List.nodup_cons.mp distinct
    rw [List.lookup_cons]
    by_cases same : key = partition
    · subst same
      have elsewhere : ∀ set, (key,set) ∉ rest := fun set member =>
        fresh (List.mem_map.mpr ⟨(key,set),member,rfl⟩)
      simp [elsewhere]
    · have unlike : (key == partition) = false := by simpa using same
      rw [unlike]
      simp [ih others,same]

private theorem firstEvent_concat (done : List (DeltaRow n α)) (r : DeltaRow n α) (k : PrimaryKey n) :
    firstEvent (done ++ [r]) k = (firstEvent done k).or (if r.key = k then some r else none) := by
  unfold firstEvent
  rw [List.find?_append]
  by_cases same : r.key = k <;> simp [same]

theorem firstEvent_eq_none {records : List (DeltaRow n α)} {k : PrimaryKey n} :
    firstEvent records k = none ↔ ∀ r ∈ records, r.key ≠ k := by
  simp [firstEvent,List.find?_eq_none]

private theorem collected_insert {partitionOf : PrimaryKey n → Option Int} {done : List (DeltaRow n α)}
    {recordMap : List (Int × List (DeltaRow n α))} {r : DeltaRow n α} {key : Int}
    (collected : Collected partitionOf (firstEvent done) recordMap) (routed : partitionOf r.key = some key) :
    Collected partitionOf (firstEvent (done ++ [r])) (insertRecord key r recordMap) := by
  have sorted : Ascending (·.key) ((recordMap.lookup key).getD []) := by
    cases found : recordMap.lookup key with
    | none => exact List.Pairwise.nil
    | some set =>
      obtain ⟨before,after,split,_⟩ := List.lookup_eq_some_iff.mp found
      exact collected.ascending (key,set) (by rw [split]; simp)
  have fresh : (∀ s ∈ (recordMap.lookup key).getD [], s.key ≠ r.key) ↔ firstEvent done r.key = none := by
    rw [firstEvent_eq_none]
    constructor
    · intro absent s member same
      obtain ⟨first,found⟩ : ∃ first, firstEvent done r.key = some first := by
        cases found : firstEvent done r.key with
        | none => exact absurd same (firstEvent_eq_none.mp found s member)
        | some first => exact ⟨first,rfl⟩
      have here : first.key = r.key := by simpa [firstEvent] using List.find?_some found
      have inside := (collected.rows key first).mpr ⟨by rw [here]; exact found,by rw [here]; exact routed⟩
      exact absent first ((mem_lookup collected.partitions first).mpr inside) here
    · intro absent s member same
      have first := (collected.rows key s).mp ((mem_lookup collected.partitions s).mp member)
      exact absent s (List.mem_of_find?_eq_some first.1) same
  refine ⟨insertRecord_partitions key r collected.partitions,?_,?_⟩
  · intro entry member
    rcases (mem_insertRecord collected.partitions).mp member with ⟨old,_⟩ | ⟨_,stored⟩
    · exact collected.ascending entry old
    · rw [stored]
      exact emplace_ascending sorted r
  · intro partition s
    rw [firstEvent_concat]
    constructor
    · rintro ⟨records,member,inside⟩
      rcases (mem_insertRecord collected.partitions).mp member with ⟨old,_⟩ | ⟨place,stored⟩
      · obtain ⟨first,here⟩ := (collected.rows partition s).mp ⟨records,old,inside⟩
        exact ⟨by rw [first]; rfl,here⟩
      · simp only at place stored
        rw [stored,mem_emplace sorted] at inside
        rcases inside with old | ⟨rfl,new⟩
        · obtain ⟨first,here⟩ := (collected.rows key s).mp ((mem_lookup collected.partitions s).mp old)
          exact ⟨by rw [first]; rfl,place ▸ here⟩
        · rw [fresh.mp new,Option.none_or,if_pos rfl]
          exact ⟨rfl,place ▸ routed⟩
    · rintro ⟨first,here⟩
      cases found : firstEvent done s.key with
      | some first' =>
        rw [found,Option.some_or,Option.some.injEq] at first
        subst first
        obtain ⟨records,member,inside⟩ := (collected.rows partition first').mpr ⟨found,here⟩
        by_cases place : partition = key
        · refine ⟨_,(mem_insertRecord collected.partitions).mpr (Or.inr ⟨place,rfl⟩),?_⟩
          rw [mem_emplace sorted]
          exact Or.inl ((mem_lookup collected.partitions first').mpr ⟨records,place ▸ member,inside⟩)
        · exact ⟨records,(mem_insertRecord collected.partitions).mpr (Or.inl ⟨member,place⟩),inside⟩
      | none =>
        rw [found,Option.none_or] at first
        split at first
        next same =>
          rw [Option.some.injEq] at first
          subst first
          have place : partition = key := Option.some.inj (here.symm.trans routed)
          refine ⟨_,(mem_insertRecord collected.partitions).mpr (Or.inr ⟨place,rfl⟩),?_⟩
          rw [mem_emplace sorted]
          exact Or.inr ⟨rfl,fresh.mpr found⟩
        next other => cases first

theorem parse_first (partitionOf : PrimaryKey n → Option Int) (records : List (DeltaRow n α)) :
    ((∀ r ∈ records, (partitionOf r.key).isSome) →
      ∃ recordMap, parse partitionOf records = some recordMap ∧
        Collected partitionOf (firstEvent records) recordMap) ∧
    (¬(∀ r ∈ records, (partitionOf r.key).isSome) → parse partitionOf records = none) := by
  induction records using List.reverseRecOn with
  | nil =>
    refine ⟨fun _ => ⟨[],rfl,by simp,by simp,?_⟩,fun open_ => absurd (by simp) open_⟩
    simp [firstEvent]
  | append_singleton done r ih =>
    obtain ⟨routed,unrouted⟩ := ih
    have split : (∀ s ∈ done ++ [r], (partitionOf s.key).isSome) ↔
        (∀ s ∈ done, (partitionOf s.key).isSome) ∧ (partitionOf r.key).isSome := by
      simp [or_imp,forall_and]
    have steps : parse partitionOf (done ++ [r]) = (parse partitionOf done).bind
        (fun recordMap => (partitionOf r.key).map (fun key => insertRecord key r recordMap)) := by
      unfold parse
      rw [List.foldlM_append]
      cases List.foldlM (fun recordMap (r : DeltaRow n α) =>
        (partitionOf r.key).map (fun key => insertRecord key r recordMap)) [] done with
      | none => rfl
      | some recordMap => simp
    rw [split,steps]
    constructor
    · rintro ⟨all,last⟩
      obtain ⟨recordMap,parsed,collected⟩ := routed all
      obtain ⟨key,here⟩ := Option.isSome_iff_exists.mp last
      rw [parsed,here]
      exact ⟨_,rfl,collected_insert collected here⟩
    · intro open_
      by_cases all : ∀ s ∈ done, (partitionOf s.key).isSome
      · have last : partitionOf r.key = none := by
          simpa using fun some_ => open_ ⟨all,some_⟩
        obtain ⟨recordMap,parsed,_⟩ := routed all
        rw [parsed,last]
        rfl
      · rw [unrouted all]
        rfl

theorem pump_ascending {table : Table} {records : List (DeltaRow table.primaryKeyColumns α)}
    {deltas : List (Int × TupleSet (DeltaRow table.primaryKeyColumns α))}
    (pumped : pump table records = some deltas) :
    ∀ entry ∈ deltas, Ascending (fun r : DeltaRow _ α => r.key) entry.2.rows := by
  obtain ⟨recordMap,parsed,rfl⟩ := Option.map_eq_some_iff.mp pumped
  obtain ⟨routed,unrouted⟩ := parse_first (partitionOf table) records
  have collected : Collected (partitionOf table) (firstEvent records) recordMap := by
    by_cases all : ∀ r ∈ records, (partitionOf table r.key).isSome
    · obtain ⟨recordMap',parsed',collected⟩ := routed all
      exact Option.some.inj (parsed'.symm.trans parsed) ▸ collected
    · rw [unrouted all] at parsed
      cases parsed
  intro entry member
  obtain ⟨set,inside,rfl⟩ := List.mem_map.mp member
  rw [TupleSet.rows_ofRows]
  exact collected.ascending set inside

/-- Each key that occurs is in the delta of its partition exactly once, with its
last event, and the deltas are in key order. -/
def HoldsLatest (table : Table) (records : List (DeltaRow table.primaryKeyColumns α))
    (deltas : List (Int × TupleSet (DeltaRow table.primaryKeyColumns α))) : Prop :=
  Collected (partitionOf table) (lastEvent records) (deltas.map fun entry => (entry.1,entry.2.rows))

def chain : Option Int32 → Nat → List Int32 → List KeyRange
  | _,_,[] => []
  | above,key,bound::bounds => ⟨above,bound,key⟩ :: chain (some bound) (key+1) bounds

theorem lineorderRanges_eq : lineorderRanges = chain none 0 lineorderBounds := by decide

theorem find_chain (orderkey : Int32) (bounds : List Int32) (above : Option Int32) (key : Nat)
    (below : above.all (fun bound => decide (orderkey > bound)) = true) :
    ((chain above key bounds).find? (·.admits orderkey)).map KeyRange.key =
      (bounds.findIdx? fun bound => orderkey ≤ bound).map (·+key) := by
  induction bounds generalizing above key with
  | nil => rfl
  | cons bound bounds ih =>
    rw [chain,List.find?_cons,List.findIdx?_cons,KeyRange.admits,below,Bool.true_and]
    by_cases inside : orderkey ≤ bound
    · simp [inside]
    · have later := ih (some bound) (key+1) (by simpa using inside)
      simp only [inside,decide_false,Bool.false_eq_true,if_false]
      rw [later,Option.map_map]
      congr 1
      ext i
      exact (Nat.add_right_comm i 1 key).symm

theorem lineorderKey_eq (orderkey : Int32) :
    lineorderKey orderkey = lineorderBounds.findIdx? fun bound => orderkey ≤ bound := by
  have found := find_chain orderkey lineorderBounds none 0 rfl
  simpa only [← lineorderRanges_eq,Nat.add_zero,Option.map_id_fun',id_eq,lineorderKey] using found

theorem partitionOf_isSome (table : Table) (k : PrimaryKey table.primaryKeyColumns) :
    (partitionOf table k).isSome ↔ (table = .lineorder → ∀ orderkey ∈ k.1.head?, orderkey ≤ 74999217) := by
  cases table with
  | lineorder =>
    obtain ⟨orderkey,rest,columns⟩ : ∃ orderkey rest, k.1 = orderkey::rest := by
      cases columns : k.1 with
      | nil =>
        have two := k.2
        rw [columns] at two
        cases two
      | cons orderkey rest => exact ⟨orderkey,rest,rfl⟩
    have last : ∀ bound ∈ lineorderBounds, bound ≤ 74999217 := by simp [lineorderBounds,lineorderRanges]
    have bounded : (lineorderBounds.findIdx? fun bound => orderkey ≤ bound).isSome ↔ orderkey ≤ 74999217 := by
      rw [List.findIdx?_isSome,List.any_eq_true]
      constructor
      · intro ⟨bound,member,below⟩
        exact le_trans (of_decide_eq_true below) (last bound member)
      · intro below
        exact ⟨74999217,by simp [lineorderBounds,lineorderRanges],decide_eq_true below⟩
    have place : (partitionOf .lineorder k).isSome =
        (lineorderBounds.findIdx? fun bound => orderkey ≤ bound).isSome := by
      simp only [partitionOf,columns,List.head?_cons,bind,Option.bind_some,lineorderKey_eq]
      rw [Option.isSome_bind]
      cases lineorderBounds.findIdx? (fun bound => decide (orderkey ≤ bound)) <;> rfl
    rw [place,bounded]
    simp [columns]
  | customer => simp [partitionOf]
  | supplier => simp [partitionOf]
  | part => simp [partitionOf]
  | date => simp [partitionOf]

theorem lastEvent_eq_none {records : List (DeltaRow n α)} {k : PrimaryKey n} :
    lastEvent records k = none ↔ ∀ r ∈ records, r.key ≠ k := by
  simp [lastEvent,List.find?_eq_none]

theorem Collected.unique {partitionOf : PrimaryKey n → Option Int} {records : List (DeltaRow n α)}
    {recordMap : List (Int × List (DeltaRow n α))}
    (first : Collected partitionOf (firstEvent records) recordMap)
    (last : Collected partitionOf (lastEvent records) recordMap)
    (routed : ∀ r ∈ records, (partitionOf r.key).isSome) (k : PrimaryKey n) :
    firstEvent records k = lastEvent records k := by
  cases found : firstEvent records k with
  | none => exact (lastEvent_eq_none.mpr (firstEvent_eq_none.mp found)).symm
  | some r =>
    have here : r.key = k := by simpa [firstEvent] using List.find?_some found
    obtain ⟨partition,place⟩ := Option.isSome_iff_exists.mp (routed r (List.mem_of_find?_eq_some found))
    have inside := (first.rows partition r).mpr ⟨by rw [here]; exact found,place⟩
    rw [← here]
    exact ((last.rows partition r).mp inside).1.symm

/-- A pump hands out the last event of each key exactly when it hands out anything
and no key's first record differs from its last. -/
theorem pump_latest_iff (table : Table) (records : List (DeltaRow table.primaryKeyColumns α)) :
    (∃ deltas, pump table records = some deltas ∧ HoldsLatest table records deltas) ↔
      (∀ r ∈ records, table = .lineorder → ∀ orderkey ∈ r.key.1.head?, orderkey ≤ 74999217) ∧
        ∀ k, firstEvent records k = lastEvent records k := by
  obtain ⟨routed,unrouted⟩ := parse_first (partitionOf table) records
  have tables (recordMap : List (Int × List (DeltaRow table.primaryKeyColumns α))) :
      (dispatch recordMap).map (fun entry => (entry.1,entry.2.rows)) = recordMap := by
    simp [dispatch,Function.comp_def]
  simp only [← partitionOf_isSome]
  constructor
  · intro ⟨deltas,pumped,latest⟩
    obtain ⟨recordMap,parsed,rfl⟩ := Option.map_eq_some_iff.mp pumped
    have all : ∀ r ∈ records, (partitionOf table r.key).isSome := by
      by_contra some
      rw [unrouted some] at parsed
      cases parsed
    obtain ⟨recordMap',parsed',first⟩ := routed all
    obtain rfl : recordMap' = recordMap := Option.some.inj (parsed'.symm.trans parsed)
    rw [HoldsLatest,tables] at latest
    exact ⟨all,first.unique latest all⟩
  · intro ⟨all,same⟩
    obtain ⟨recordMap,parsed,first⟩ := routed all
    refine ⟨dispatch recordMap,by rw [pump,parsed]; rfl,?_⟩
    rw [HoldsLatest,tables,← funext same]
    exact first

/-- Two updates of customer 7 in one pump: the cache gets the first. -/
theorem customer_updated_twice :
    pump .customer [⟨⟨singleKey 7,1⟩,.update⟩,⟨⟨singleKey 7,2⟩,.update⟩] =
      some [(0,.ofRows [⟨⟨singleKey 7,1⟩,.update⟩])] ∧
    lastEvent [⟨⟨singleKey 7,1⟩,.update⟩,⟨⟨singleKey 7,2⟩,.update⟩] (singleKey 7) =
      some (⟨⟨singleKey 7,2⟩,.update⟩ : DeltaRow 1 Nat) ∧
    ¬∃ deltas, pump (α := Nat) .customer [⟨⟨singleKey 7,1⟩,.update⟩,⟨⟨singleKey 7,2⟩,.update⟩] = some deltas ∧
      HoldsLatest .customer [⟨⟨singleKey 7,1⟩,.update⟩,⟨⟨singleKey 7,2⟩,.update⟩] deltas := by
  have pumped : pump .customer [⟨⟨singleKey 7,1⟩,.update⟩,⟨⟨singleKey 7,2⟩,.update⟩] =
      some [(0,.ofRows [⟨⟨singleKey 7,1⟩,.update⟩])] := rfl
  refine ⟨pumped,rfl,?_⟩
  intro ⟨deltas,found,latest⟩
  obtain rfl := Option.some.inj (pumped.symm.trans found)
  have first := (latest.rows 0 ⟨⟨singleKey 7,1⟩,.update⟩).mp ⟨_,List.mem_singleton.mpr rfl,List.mem_singleton.mpr rfl⟩
  have other : (some ⟨⟨singleKey 7,2⟩,.update⟩ : Option (DeltaRow 1 Nat)) = some ⟨⟨singleKey 7,1⟩,.update⟩ := first.1
  simp at other

end Hermes.BinlogParser
