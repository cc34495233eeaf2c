import Hermes.Library.Overlay
import Mathlib.Data.List.Flatten
import Mathlib.Data.List.Pairwise

/-! A log of changes that are made to a keyed table one after the other. -/
namespace Hermes.Library.Overlay
variable {κ ρ δ π : Type} [DecidableEq κ] (K : Keyed κ ρ δ)

/-- What the table has under the key of a change goes, and the row of the change comes, if it has one. -/
def apply (table : List ρ) (c : δ) : List ρ := table.filter (fun r => K.row r ≠ K.change c) ++ (K.image c).toList

def applyLog (table : List ρ) (log : List δ) : List ρ := log.foldl (apply K) table

def lastChange (log : List δ) (k : κ) : Option δ := log.reverse.find? fun c => K.change c = k

theorem apply_eq_overlay (table : List ρ) (c : δ) : apply K table c = overlay K table [c] := by
  cases row : K.image c with
  | none => simp [apply,overlay,row]
  | some r => simp [apply,overlay,row]

theorem applyLog_eq_replay (table : List ρ) (log : List δ) :
    applyLog K table log = replay K table (log.map fun c => [c]) := by
  induction log generalizing table with
  | nil => rfl
  | cons c log ih =>
    change applyLog K (apply K table c) log = _
    rw [ih,apply_eq_overlay]
    rfl

theorem lastChange_append (log more : List δ) (k : κ) :
    lastChange K (log ++ more) k = (lastChange K more k).or (lastChange K log k) := by
  simp [lastChange]

theorem lastChange_eq_none {log : List δ} {k : κ} : lastChange K log k = none ↔ ∀ c ∈ log, K.change c ≠ k := by
  simp [lastChange,List.find?_eq_none]

theorem lastChange_mem {log : List δ} {k : κ} {c : δ} (found : lastChange K log k = some c) :
    c ∈ log ∧ K.change c = k :=
  ⟨List.mem_reverse.mp (List.mem_of_find?_eq_some found),by simpa using List.find?_some found⟩

theorem newest_singletons (log : List δ) (k : κ) : newest K (log.map fun c => [c]) k = lastChange K log k := by
  induction log using List.reverseRecOn with
  | nil => rfl
  | append_singleton log c ih =>
    have alone : lookup K [c] k = lastChange K [c] k := rfl
    rw [List.map_append,List.map_singleton,newest_concat,lastChange_append,ih,alone]

theorem mem_applyLog (table : List ρ) (log : List δ) (r : ρ) : r ∈ applyLog K table log ↔
    match lastChange K log (K.row r) with
    | some c => K.image c = some r
    | none => r ∈ table := by
  have single : ∀ version ∈ log.map (fun c => [c]), (version.map K.change).Nodup := by
    intro version member
    obtain ⟨c,_,rfl⟩ := List.mem_map.mp member
    exact List.nodup_singleton _
  rw [applyLog_eq_replay,← newest_singletons]
  exact mem_replay K single r

theorem mem_applyLog_of_none {table : List ρ} {log : List δ} {r : ρ} (found : lastChange K log (K.row r) = none) :
    r ∈ applyLog K table log ↔ r ∈ table := by
  rw [mem_applyLog,found]

theorem mem_applyLog_of_some {table : List ρ} {log : List δ} {r : ρ} {c : δ}
    (found : lastChange K log (K.row r) = some c) :
    r ∈ applyLog K table log ↔ K.image c = some r := by
  rw [mem_applyLog,found]

theorem applyLog_distinct {table : List ρ} (rows : (table.map K.row).Nodup) (log : List δ) :
    ((applyLog K table log).map K.row).Nodup := by
  rw [applyLog_eq_replay]
  apply replay_distinct K rows
  intro version member
  obtain ⟨c,_,rfl⟩ := List.mem_map.mp member
  exact List.nodup_singleton _

section Parts
variable [DecidableEq π] (part : κ → Option π)

/-- The changes of one part of the table. -/
def partLog (p : π) (log : List δ) : List δ := log.filter fun c => part (K.change c) = some p

omit [DecidableEq κ] in
theorem partLog_append (p : π) (log more : List δ) :
    partLog K part p (log ++ more) = partLog K part p log ++ partLog K part p more := by
  rw [partLog,partLog,partLog,List.filter_append]

theorem lastChange_partLog {p : π} {k : κ} (here : part k = some p) (log : List δ) :
    lastChange K (partLog K part p log) k = lastChange K log k := by
  rw [lastChange,partLog,← List.filter_reverse,List.find?_filter,lastChange]
  congr 1
  funext c
  by_cases same : K.change c = k
  · simp [same,here]
  · simp [same]

theorem lastChange_elsewhere {p : π} {k : κ} (elsewhere : part k ≠ some p) (log : List δ) :
    lastChange K (partLog K part p log) k = none := by
  rw [lastChange_eq_none]
  rintro c inside rfl
  exact elsewhere (of_decide_eq_true (List.mem_filter.mp inside).2)

theorem applyLog_parts {parts : List π} (once : parts.Nodup) {table : π → List ρ}
    (rows : ∀ p ∈ parts, ((table p).map K.row).Nodup) (placed : ∀ p ∈ parts, ∀ r ∈ table p, part (K.row r) = some p)
    {log : List δ} (covered : ∀ c ∈ log, ∃ p ∈ parts, part (K.change c) = some p) :
    (parts.flatMap fun p => applyLog K (table p) (partLog K part p log)).Perm (applyLog K (parts.flatMap table) log) := by
  have there : ∀ p ∈ parts, ∀ r ∈ applyLog K (table p) (partLog K part p log), part (K.row r) = some p := by
    intro p known r inside
    by_contra elsewhere
    rw [mem_applyLog,lastChange_elsewhere K part elsewhere] at inside
    exact elsewhere (placed p known r inside)
  have distinct : ∀ {f : π → List ρ}, (∀ p ∈ parts, ((f p).map K.row).Nodup) →
      (∀ p ∈ parts, ∀ r ∈ f p, part (K.row r) = some p) → ((parts.flatMap f).map K.row).Nodup := by
    intro f each own
    rw [List.map_flatMap,List.nodup_flatMap]
    refine ⟨each,once.imp_of_mem ?_⟩
    intro p q inP inQ differ k left right
    obtain ⟨r,first,rfl⟩ := List.mem_map.mp left
    obtain ⟨s,second,same⟩ := List.mem_map.mp right
    exact differ (Option.some.inj ((own p inP r first).symm.trans (same ▸ own q inQ s second)))
  apply perm_of_mem_iff K (distinct (fun p known => applyLog_distinct K (rows p known) _) there)
    (applyLog_distinct K (distinct rows placed) log)
  intro r
  rw [List.mem_flatMap]
  constructor
  · intro ⟨p,known,inside⟩
    have here := lastChange_partLog K part (there p known r inside) log
    cases last : lastChange K log (K.row r) with
    | none =>
      rw [mem_applyLog_of_none K (here.trans last)] at inside
      exact (mem_applyLog_of_none K last).mpr (List.mem_flatMap.mpr ⟨p,known,inside⟩)
    | some c =>
      rw [mem_applyLog_of_some K (here.trans last)] at inside
      exact (mem_applyLog_of_some K last).mpr inside
  · intro inside
    cases last : lastChange K log (K.row r) with
    | none =>
      obtain ⟨p,known,row⟩ := List.mem_flatMap.mp ((mem_applyLog_of_none K last).mp inside)
      have here := lastChange_partLog K part (placed p known r row) log
      exact ⟨p,known,(mem_applyLog_of_none K (here.trans last)).mpr row⟩
    | some c =>
      obtain ⟨member,same⟩ := lastChange_mem K last
      obtain ⟨p,known,place⟩ := covered c member
      have here := lastChange_partLog K part (same ▸ place) log
      exact ⟨p,known,(mem_applyLog_of_some K (here.trans last)).mpr ((mem_applyLog_of_some K last).mp inside)⟩

end Parts
end Hermes.Library.Overlay
