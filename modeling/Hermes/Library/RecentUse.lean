import Hermes.Library.Transition
import Mathlib.Algebra.Order.Ring.Nat
import Mathlib.Algebra.Order.BigOperators.Group.List
import Mathlib.Data.List.Nodup

/-! The cache of a bounded size that gives up what has not been used for longest. Its entries are
in the order of their last use, the last used one at the end. -/
namespace Hermes.Library.RecentUse
open Hermes.Library.Transition
variable {κ : Type}

abbrev Entries (κ : Type) := List (κ × Nat)

/-- The keys of the entries. -/
def keys (entries : Entries κ) : List κ := entries.map Prod.fst

def total (entries : Entries κ) : Nat := (entries.map Prod.snd).sum

/-- What has to go, from the least recently used on, for the rest to stay within a bound. -/
def fit (bound : Nat) : Entries κ → Entries κ × Entries κ
  | [] => ([],[])
  | entry::entries =>
    if total (entry::entries) ≤ bound then ([],entry::entries)
    else (entry::(fit bound entries).1,(fit bound entries).2)

theorem fit_append (bound : Nat) (entries : Entries κ) : (fit bound entries).1 ++ (fit bound entries).2 = entries := by
  induction entries with
  | nil => rfl
  | cons entry entries ih =>
    rw [fit]
    split
    · rfl
    · exact congrArg (entry :: ·) ih

theorem fit_total (bound : Nat) (entries : Entries κ) : total (fit bound entries).2 ≤ bound := by
  induction entries with
  | nil => exact Nat.zero_le _
  | cons entry entries ih =>
    rw [fit]
    split
    · assumption
    · exact ih

theorem total_append (first second : Entries κ) : total (first ++ second) = total first+total second := by
  rw [total,List.map_append,List.sum_append,total,total]

variable [DecidableEq κ]

/-- An entry, if there is one, becomes the last used. -/
def touch (key : κ) (entries : Entries κ) : Entries κ :=
  entries.filter (fun entry => decide (entry.1 ≠ key)) ++ entries.filter fun entry => decide (entry.1 = key)

/-- A segment that is too large is refused. For another one room is made, and it becomes the last used. -/
def store (capacity : Nat) (key : κ) (size : Nat) (entries : Entries κ) : Option (List κ × Entries κ) :=
  if capacity < size then none
  else
    let (gone,kept) := fit (capacity-size) entries
    some (keys gone,kept.filter (fun entry => decide (entry.1 ≠ key)) ++ [(key,size)])

/-- A use of the cache; a store comes with the keys that were given up for it, if it was not refused. -/
inductive Use (κ : Type) where
  | load (key : κ)
  | store (key : κ) (size : Nat) (victims : Option (List κ))

inductive Step (capacity : Nat) (entries : Entries κ) : Use κ → Entries κ → Prop
  | load (key : κ) : Step capacity entries (.load key) (touch key entries)
  | refused {key : κ} {size : Nat} : store capacity key size entries = none →
    Step capacity entries (.store key size none) entries
  | stored {key : κ} {size : Nat} {victims : List κ} {next : Entries κ} :
    store capacity key size entries = some (victims,next) → Step capacity entries (.store key size (some victims)) next

def Use.evicted (key : κ) : Use κ → Nat
  | .store _ _ (some victims) => victims.count key
  | _ => 0

def Use.admitted (key : κ) : Use κ → Nat
  | .store other _ (some _) => if other = key then 1 else 0
  | _ => 0

/-- How often a key was given up. -/
def evictions (key : κ) (uses : List (Use κ)) : Nat := (uses.map (Use.evicted key)).sum

/-- How often a key was let in. -/
def admissions (key : κ) (uses : List (Use κ)) : Nat := (uses.map (Use.admitted key)).sum

section Entries
variable {capacity size : Nat} {key : κ} {entries next : Entries κ} {victims : List κ}

theorem filter_others {α β : Type} [DecidableEq β] {value : α → β} {before later : List α} {found : α}
    (once : ((before ++ found::later).map value).Nodup) :
    (before ++ found::later).filter (fun other => decide (value other ≠ value found)) = before ++ later ∧
      (before ++ found::later).filter (fun other => decide (value other = value found)) = [found] := by
  rw [List.map_append,List.map_cons,List.nodup_middle,← List.map_append] at once
  have apart : ∀ other ∈ before ++ later, value other ≠ value found := by
    intro other inside same
    exact (List.nodup_cons.mp once).1 (same ▸ List.mem_map_of_mem inside)
  obtain ⟨earlier,after⟩ := List.forall_mem_append.mp apart
  rw [List.filter_append,List.filter_append,List.filter_cons,List.filter_cons]
  refine ⟨?_,?_⟩
  · rw [if_neg (by simp),List.filter_eq_self.mpr fun other inside => decide_eq_true (earlier other inside),
      List.filter_eq_self.mpr fun other inside => decide_eq_true (after other inside)]
  · rw [if_pos (by simp),List.filter_eq_nil_iff.mpr fun other inside => by simpa using earlier other inside,
      List.filter_eq_nil_iff.mpr fun other inside => by simpa using after other inside]
    rfl

theorem touch_missing (missing : key ∉ keys entries) : touch key entries = entries := by
  have others : ∀ entry ∈ entries, entry.1 ≠ key := fun entry inside same => missing (same ▸ List.mem_map_of_mem inside)
  rw [touch,List.filter_eq_self.mpr fun entry inside => decide_eq_true (others entry inside),
    List.filter_eq_nil_iff.mpr fun entry inside => by simpa using others entry inside,List.append_nil]

theorem touch_present {before later : Entries κ} {entry : κ × Nat} (once : (keys (before ++ entry::later)).Nodup) :
    touch entry.1 (before ++ entry::later) = before ++ later ++ [entry] := by
  obtain ⟨others,found⟩ := filter_others once
  rw [touch,others,found]

theorem touch_perm (key : κ) (entries : Entries κ) : (touch key entries).Perm entries := by
  have parts := List.filter_append_perm (fun entry : κ × Nat => decide (entry.1 ≠ key)) entries
  simp only [← decide_not,not_not] at parts
  exact parts

theorem store_eq_some (stored : store capacity key size entries = some (victims,next)) :
    size ≤ capacity ∧ ∃ kept, entries.map Prod.fst = victims ++ keys kept ∧ total kept+size ≤ capacity ∧
      next = kept.filter (fun entry => decide (entry.1 ≠ key)) ++ [(key,size)] := by
  rw [store] at stored
  split at stored
  · cases stored
  · rename_i fits
    obtain ⟨rfl,rfl⟩ := Prod.mk.inj (Option.some.inj stored)
    refine ⟨Nat.le_of_not_lt fits,(fit (capacity-size) entries).2,?_,?_,rfl⟩
    · rw [keys,keys,← List.map_append,fit_append]
    · have room := fit_total (capacity-size) entries
      omega

end Entries

/-- No key is there twice, the entries have room, and no key has been given up more often than it was let in. -/
structure Sound (capacity : Nat) (uses : List (Use κ)) (entries : Entries κ) : Prop where
  once : (keys entries).Nodup
  room : total entries ≤ capacity
  admitted : ∀ key, evictions key uses+(keys entries).count key ≤ admissions key uses

section Runs
variable {capacity : Nat} {uses : List (Use κ)} {entries next : Entries κ} {use : Use κ}

theorem evictions_snoc (key : κ) : evictions key (uses ++ [use]) = evictions key uses+use.evicted key := by
  rw [evictions,List.map_append,List.sum_append,List.map_singleton,List.sum_singleton,evictions]

theorem admissions_snoc (key : κ) : admissions key (uses ++ [use]) = admissions key uses+use.admitted key := by
  rw [admissions,List.map_append,List.sum_append,List.map_singleton,List.sum_singleton,admissions]

theorem Sound.step (sound : Sound capacity uses entries) (step : Step capacity entries use next) :
    Sound capacity (uses ++ [use]) next := by
  cases step with
  | load key =>
    have order := touch_perm key entries
    refine ⟨(order.map Prod.fst).nodup_iff.mpr sound.once,?_,?_⟩
    · rw [total,(order.map Prod.snd).sum_nat]
      exact sound.room
    · intro other
      rw [evictions_snoc,admissions_snoc,keys,(order.map Prod.fst).count_eq]
      exact sound.admitted other
  | refused _ =>
    refine ⟨sound.once,sound.room,?_⟩
    intro other
    rw [evictions_snoc,admissions_snoc]
    exact sound.admitted other
  | @stored key size victims _ stored =>
    obtain ⟨fits,kept,parts,room,rfl⟩ := store_eq_some stored
    have once := sound.once
    rw [keys,parts] at once
    have rest : (kept.filter fun entry => decide (entry.1 ≠ key)).Sublist kept := List.filter_sublist
    refine ⟨?_,?_,?_⟩
    · rw [keys,List.map_append]
      refine List.nodup_append.mpr ⟨(rest.map Prod.fst).nodup (List.nodup_append.mp once).2.1,List.nodup_singleton _,?_⟩
      intro other inside _ last same
      obtain ⟨entry,member,rfl⟩ := List.mem_map.mp inside
      obtain rfl := List.mem_singleton.mp last
      exact of_decide_eq_true (List.mem_filter.mp member).2 same
    · have smaller := (rest.map Prod.snd).sum_le_sum (fun _ _ => Nat.zero_le _)
      change total _ ≤ total kept at smaller
      rw [total_append]
      change _+size ≤ capacity
      omega
    · intro other
      have before := sound.admitted other
      rw [keys,parts,List.count_append] at before
      have fewer := (rest.map Prod.fst).count_le other
      have last : (List.map Prod.fst [(key,size)]).count other = if key = other then 1 else 0 := by
        rw [List.map_singleton,List.count_singleton]
        simp
      rw [evictions_snoc,admissions_snoc,keys,List.map_append,List.count_append,last]
      change evictions other uses+victims.count other+_ ≤ admissions other uses+if key = other then 1 else 0
      change _+(_+(kept.map Prod.fst).count other) ≤ _ at before
      omega

theorem run_sound (run : Run (Step capacity) [] uses entries) : Sound capacity uses entries := by
  refine run.invariant_labels (Sound capacity) ⟨by rw [keys]; exact List.nodup_nil,Nat.zero_le _,
    fun _ => Nat.le_refl _⟩ ?_
  intro _ _ _ _ sound step
  exact sound.step step

end Runs

end Hermes.Library.RecentUse
