import Mathlib.Data.List.Basic

/-! Two queues that are emptied in pairs: what is paired, and what still waits. -/
namespace Hermes.Library.Pairing
variable {α β : Type}

theorem zip_append_waiting (lefts moreLefts : List α) (rights moreRights : List β) :
    (lefts ++ moreLefts).zip (rights ++ moreRights) =
      lefts.zip rights ++ (lefts.drop rights.length ++ moreLefts).zip (rights.drop lefts.length ++ moreRights) := by
  induction lefts generalizing rights with
  | nil => simp
  | cons left lefts ih =>
    cases rights with
    | nil => simp
    | cons right rights => simp [ih]

theorem drop_waiting (lefts moreLefts : List α) (rights moreRights : List β) :
    (lefts.drop rights.length ++ moreLefts).drop (rights.drop lefts.length ++ moreRights).length =
      (lefts ++ moreLefts).drop (rights ++ moreRights).length := by
  induction lefts generalizing rights with
  | nil => simp
  | cons left lefts ih =>
    cases rights with
    | nil => simp
    | cons right rights => simpa using ih rights

end Hermes.Library.Pairing
