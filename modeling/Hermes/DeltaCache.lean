import Mathlib.Data.List.Basic

/-! The delta cache of one table: every version cached for a partition.
`unordered_multimap::equal_range` fixes no order between the versions of a
partition, so whoever loads them may see any permutation of `load`. -/
namespace Hermes.Delta

structure DeltaCacheData (δ : Type) where
  delta : δ
  timestamp : Int
deriving DecidableEq

/-- The multimap from partition numbers to versions. -/
structure DeltaCache (δ : Type) where
  map : List (Int × DeltaCacheData δ)

namespace DeltaCache
variable {δ : Type}

def empty : DeltaCache δ := ⟨[]⟩

def store (cache : DeltaCache δ) (key : Int) (data : DeltaCacheData δ) : DeltaCache δ :=
  ⟨(key,data) :: cache.map⟩

def load (cache : DeltaCache δ) (key : Int) : List (DeltaCacheData δ) :=
  (cache.map.filter (fun entry => entry.1 = key)).map (·.2)

def remove (cache : DeltaCache δ) (key : Int) : DeltaCache δ :=
  ⟨cache.map.filter (fun entry => entry.1 ≠ key)⟩

@[simp] theorem load_empty (key : Int) : (empty : DeltaCache δ).load key = [] := rfl

theorem load_store (cache : DeltaCache δ) (key other : Int) (data : DeltaCacheData δ) :
    (cache.store key data).load other =
      if key = other then data :: cache.load other else cache.load other := by
  by_cases same : key = other <;> simp [store,load,same]

@[simp] theorem load_store_self (cache : DeltaCache δ) (key : Int) (data : DeltaCacheData δ) :
    (cache.store key data).load key = data :: cache.load key := by
  rw [load_store,if_pos rfl]

theorem load_remove (cache : DeltaCache δ) (key other : Int) :
    (cache.remove key).load other = if key = other then [] else cache.load other := by
  simp only [remove,load,List.filter_filter]
  by_cases same : key = other
  · subst same
    simp
  · have kept : ∀ entry : Int × DeltaCacheData δ,
        (decide (entry.1 = other) && decide (entry.1 ≠ key)) = decide (entry.1 = other) := by
      intro entry
      by_cases here : entry.1 = other
      · simp [here,Ne.symm same]
      · simp [here]
    simp only [kept,same,if_false]

@[simp] theorem load_remove_self (cache : DeltaCache δ) (key : Int) :
    (cache.remove key).load key = [] := by
  rw [load_remove,if_pos rfl]

end DeltaCache

/-- The stable bitmap of each partition, by handle `β`; a second store under an
occupied key is ignored, as `unordered_map::emplace` does. -/
structure StableBmCache (β : Type) where
  map : List (Int × β)

namespace StableBmCache
variable {β : Type}

def empty : StableBmCache β := ⟨[]⟩

def getSize (cache : StableBmCache β) : Nat := cache.map.length

def load (cache : StableBmCache β) (key : Int) : Option β := cache.map.lookup key

def store (cache : StableBmCache β) (key : Int) (bitmap : β) : StableBmCache β :=
  if (cache.load key).isSome then cache else ⟨(key,bitmap) :: cache.map⟩

def remove (cache : StableBmCache β) (key : Int) : StableBmCache β :=
  ⟨cache.map.filter (fun entry => entry.1 ≠ key)⟩

@[simp] theorem load_empty (key : Int) : (empty : StableBmCache β).load key = none := rfl

theorem load_remove (cache : StableBmCache β) (key other : Int) :
    (cache.remove key).load other = if key = other then none else cache.load other := by
  rcases cache with ⟨entries⟩
  simp only [remove,load]
  induction entries with
  | nil => simp
  | cons entry entries ih =>
    rcases entry with ⟨place,bitmap⟩
    by_cases removed : place = key
    · subst removed
      rw [List.filter_cons_of_neg (by simp),ih,List.lookup_cons]
      by_cases same : place = other
      · simp [same]
      · have unlike : (other == place) = false := by simpa using fun equal => same equal.symm
        simp [same,unlike]
    · rw [List.filter_cons_of_pos (by simpa using removed),List.lookup_cons,List.lookup_cons,ih]
      by_cases same : key = other
      · have unlike : (other == place) = false := by simpa [← same] using fun equal => removed equal.symm
        simp [same,unlike]
      · simp [same]

theorem load_replace (cache : StableBmCache β) (key other : Int) (bitmap : β) :
    ((cache.remove key).store key bitmap).load other =
      if key = other then some bitmap else cache.load other := by
  have absent : ((cache.remove key).load key).isSome = false := by rw [load_remove]; simp
  have stored : ((cache.remove key).store key bitmap) = ⟨(key,bitmap) :: (cache.remove key).map⟩ := by
    simp [store,absent]
  by_cases same : key = other
  · subst same
    rw [stored]
    simp [load]
  · have unlike : (other == key) = false := by simpa using fun equal => same equal.symm
    have rest := load_remove cache key other
    rw [stored]
    simp only [load,List.lookup_cons,unlike,same,if_false] at rest ⊢
    exact rest

end StableBmCache
end Hermes.Delta
