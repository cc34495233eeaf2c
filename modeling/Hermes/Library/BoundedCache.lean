import Hermes.Library.RecentUse
import Mathlib.Data.List.Perm.Basic
import Mathlib.Logic.Function.Basic

/-! A cache of a capacity that gives up some of its entries to admit another one, whichever they are. -/
namespace Hermes.Library.BoundedCache
open RecentUse
variable {κ δ : Type}

/-- No key is there twice, and entries and free room are the capacity. -/
structure Balanced (capacity free : Nat) (entries : Entries κ) : Prop where
  once : (keys entries).Nodup
  whole : free+total entries = capacity

/-- Some entries are given up for a new one. -/
structure Admits (entries : Entries κ) (victims : List κ) (key : κ) (size : Nat) (after : Entries κ) : Prop where
  parts : ∃ gone kept, entries.Perm (gone ++ kept) ∧ (∀ other, other ∈ victims ↔ other ∈ keys gone) ∧
    after.Perm ((key,size)::kept)

/-- A store lets a key in for some others, or changes nothing. -/
def Stores (entries : Entries κ) (key : κ) (size : Nat) (after : Entries κ) : Option (List κ) → Prop
  | none => after.Perm entries
  | some victims => Admits entries victims key size after

/-- A map has the keys of the entries, each of them once. -/
def Agrees (map : List (κ × δ)) (entries : Entries κ) : Prop := (map.map Prod.fst).Perm (keys entries)

section
variable {capacity free size : Nat} {entries after : Entries κ} {victims : List κ} {key : κ} {map : List (κ × δ)}

theorem total_perm (order : after.Perm entries) : total after = total entries := by
  rw [total,total,(order.map Prod.snd).sum_nat]

theorem mem_keys_perm (order : after.Perm entries) : key ∈ keys after ↔
    key ∈ keys entries := (order.map Prod.fst).mem_iff

theorem Balanced.perm (balanced : Balanced capacity free entries) (order : after.Perm entries) :
    Balanced capacity free after := by
  refine ⟨(order.map Prod.fst).nodup_iff.mpr balanced.once,?_⟩
  rw [total_perm order]
  exact balanced.whole

theorem Balanced.exchange {gone kept : Entries κ} (balanced : Balanced capacity free entries)
    (parts : entries.Perm (gone ++ kept))
    (absent : key ∉ keys entries) {left : Nat} (room : left+size = free+total gone) :
    Balanced capacity left ((key,size)::kept) := by
  have whole := balanced.whole
  rw [total_perm parts,total_append] at whole
  have once := (parts.map Prod.fst).nodup_iff.mp balanced.once
  rw [List.map_append] at once
  refine ⟨List.nodup_cons.mpr ⟨fun stays => absent ?_,(List.nodup_append.mp once).2.1⟩,?_⟩
  · apply (mem_keys_perm parts).mpr
    rw [keys,List.map_append]
    exact List.mem_append_right _ stays
  · rw [total,List.map_cons,List.sum_cons,← total]
    omega

theorem Agrees.perm (agrees : Agrees map entries) (order : after.Perm entries) : Agrees map after :=
  List.Perm.trans agrees (order.map Prod.fst).symm

theorem Agrees.mem_iff (agrees : Agrees map entries) : key ∈ map.map Prod.fst ↔
    key ∈ keys entries := List.Perm.mem_iff agrees

variable [DecidableEq κ]

/-- The map without the keys that are given up, and with a new one unless it is there. -/
def replace (map : List (κ × δ)) (victims : List κ) (key : κ) (data : δ) : List (κ × δ) :=
  let erased := map.filter fun entry => decide (entry.1 ∉ victims)
  if key ∈ erased.map Prod.fst then erased else (key,data)::erased

theorem replace_of_absent (absent : key ∉ map.map Prod.fst) {data : δ} :
    replace map victims key data = (key,data)::map.filter fun entry => decide (entry.1 ∉ victims) :=
  if_neg fun stays => absent (List.map_subset _ (fun _ => List.mem_of_mem_filter) stays)

theorem mem_replace {entry : κ × δ} {data : δ} (inside : entry ∈ replace map victims key data) : entry = (key,data) ∨
    entry ∈ map := by
  rw [replace] at inside
  split at inside
  · exact .inr (List.mem_of_mem_filter inside)
  · exact (List.mem_cons.mp inside).imp_right List.mem_of_mem_filter

theorem Agrees.replace (agrees : Agrees map entries) (once : (keys entries).Nodup) (absent : key ∉ keys entries)
    (admits : Admits entries victims key size after) (data : δ) : Agrees (replace map victims key data) after := by
  obtain ⟨gone,kept,parts,out,order⟩ := admits.parts
  have names := List.Perm.trans agrees (parts.map Prod.fst)
  have unique := (parts.map Prod.fst).nodup_iff.mp once
  rw [List.map_append] at names unique
  have left : ∀ other ∈ keys gone, ¬ decide (other ∉ victims) = true := by
    intro other inside stays
    exact of_decide_eq_true stays ((out other).mpr inside)
  have stay : ∀ other ∈ keys kept, decide (other ∉ victims) = true := by
    intro other inside
    exact decide_eq_true fun leaves => (List.nodup_append.mp unique).2.2 other ((out other).mp leaves) other inside rfl
  have filtered := names.filter fun other => decide (other ∉ victims)
  rw [List.filter_append,← keys,← keys,List.filter_eq_nil_iff.mpr left,List.filter_eq_self.mpr stay,List.nil_append,
    List.filter_map] at filtered
  rw [replace_of_absent fun there => absent (agrees.mem_iff.mp there),Agrees,List.map_cons]
  exact (filtered.cons key).trans (order.map Prod.fst).symm

theorem stores_of_step {result : Option (List κ)} (absent : key ∉ keys entries)
    (step : RecentUse.Step capacity entries (.store key size result) after) : Stores entries key size after result := by
  cases step with
  | refused _ => exact List.Perm.refl _
  | @stored _ _ victims _ made =>
    rw [store] at made
    split at made
    · cases made
    · obtain ⟨rfl,rfl⟩ := Prod.mk.inj (Option.some.inj made)
      have others : ∀ entry ∈ (fit (capacity-size) entries).2, decide (entry.1 ≠ key) = true := by
        intro entry inside
        refine decide_eq_true fun same => absent ?_
        rw [← fit_append (capacity-size) entries]
        exact List.mem_map.mpr ⟨entry,List.mem_append_right _ inside,same⟩
      refine ⟨(fit (capacity-size) entries).1,(fit (capacity-size) entries).2,List.Perm.of_eq (fit_append _ _).symm,
        fun _ => Iff.rfl,?_⟩
      rw [List.filter_eq_self.mpr others]
      exact List.perm_append_singleton _ _

end
end Hermes.Library.BoundedCache
