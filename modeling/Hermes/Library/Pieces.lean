import Mathlib.Data.List.MinMax
import Mathlib.Order.OrderDual

/-! The least and the greatest element of a list that is given in pieces. -/
namespace Hermes.Library.Pieces
variable {α : Type} [LinearOrder α]

theorem min?_pieces (pieces : List (List α)) : (pieces.filterMap List.min?).min? = pieces.flatten.min? := by
  cases whole : pieces.flatten.min? with
  | none =>
    rw [List.min?_eq_none_iff] at whole ⊢
    rw [List.filterMap_eq_nil_iff]
    intro piece inside
    rw [List.min?_eq_none_iff]
    exact List.flatten_eq_nil_iff.mp whole piece inside
  | some least =>
    obtain ⟨member,below⟩ := List.min?_eq_some_iff.mp whole
    obtain ⟨piece,inside,there⟩ := List.mem_flatten.mp member
    have first : piece.min? = some least :=
      List.min?_eq_some_iff.mpr ⟨there,fun other here => below other (List.mem_flatten_of_mem inside here)⟩
    apply List.min?_eq_some_iff.mpr
    refine ⟨List.mem_filterMap.mpr ⟨piece,inside,first⟩,?_⟩
    intro other found
    obtain ⟨source,member,lowest⟩ := List.mem_filterMap.mp found
    exact below other (List.mem_flatten_of_mem member (List.min?_eq_some_iff.mp lowest).1)

theorem max?_pieces (pieces : List (List α)) : (pieces.filterMap List.max?).max? = pieces.flatten.max? :=
  min?_pieces (α := αᵒᵈ) pieces

end Hermes.Library.Pieces
