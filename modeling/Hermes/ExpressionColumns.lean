import Hermes.ExpressionDeserializer
import Hermes.Library.Fallible
import Mathlib.Data.List.Lattice

/-! The columns of the expressions that are read: none is named twice, and all names are canonical. -/
namespace Hermes.Gandiva.Expression

theorem ind {holds : Expression → Prop} (column : ∀ name, holds (.column name))
    (literal : ∀ value, holds (.literal value)) (and : ∀ exprs, (∀ expr ∈ exprs, holds expr) → holds (.and exprs))
    (or : ∀ exprs, (∀ expr ∈ exprs, holds expr) → holds (.or exprs)) (not : ∀ expr, holds expr → holds (.not expr))
    (binary : ∀ kind left right, holds left → holds right → holds (.binary kind left right))
    (dateAdd : ∀ left right intervalType, holds left → holds right → holds (.dateAdd left right intervalType))
    (in_ : ∀ left values, holds left → holds (.in left values))
    (if_ : ∀ ifExpr thenExpr elseExpr, holds ifExpr → holds thenExpr → holds elseExpr →
      holds (.if ifExpr thenExpr elseExpr))
    (dateExtract : ∀ dateExpr intervalType, holds dateExpr → holds (.dateExtract dateExpr intervalType))
    (isNull : ∀ expr, holds expr → holds (.isNull expr))
    (substr : ∀ expr fromLit forLit, holds expr → holds fromLit → holds forLit → holds (.substr expr fromLit forLit))
    (expression : Expression) : holds expression :=
  @Expression.rec holds (fun exprs => ∀ expr ∈ exprs, holds expr) column literal and or not binary dateAdd in_ if_
    dateExtract isNull substr (fun _ member => absurd member List.not_mem_nil)
    (fun _ _ first rest => List.forall_mem_cons.mpr ⟨first,rest⟩) expression

theorem involvedOfAll_nodup {exprs : List Expression} : (involvedOfAll exprs).Nodup := by
  induction exprs with
  | nil => exact List.nodup_nil
  | cons expr exprs ih => exact List.Nodup.union _ ih

theorem involvedColumnNames_nodup (expression : Expression) : expression.involvedColumnNames.Nodup := by
  induction expression using ind with
  | column name => exact List.nodup_singleton name
  | literal value => exact List.nodup_nil
  | and exprs _ => exact involvedOfAll_nodup
  | or exprs _ => exact involvedOfAll_nodup
  | not expr ih => exact ih
  | binary kind left right _ ih => exact List.Nodup.union _ ih
  | dateAdd left right intervalType _ ih => exact List.Nodup.union _ ih
  | in_ left values ih => exact ih
  | if_ ifExpr thenExpr elseExpr _ _ ih => exact List.Nodup.union _ ih
  | dateExtract dateExpr intervalType ih => exact ih
  | isNull expr ih => exact ih
  | substr expr fromLit forLit _ _ ih => exact List.Nodup.union _ ih

theorem mem_involvedOfAll {exprs : List Expression} {name : String} :
    name ∈ involvedOfAll exprs ↔ ∃ expr ∈ exprs, name ∈ expr.involvedColumnNames := by
  induction exprs with
  | nil => simp [involvedOfAll]
  | cons expr exprs ih => simp [involvedOfAll,ih]

end Hermes.Gandiva.Expression

namespace Hermes.Calcite

theorem RexJson.ind {holds : RexJson → Prop} (inputRef : ∀ name, holds (.inputRef name))
    (literal : ∀ type value, holds (.literal type value)) (literals : ∀ type values, holds (.literals type values))
    (operation : ∀ op operands, (∀ operand ∈ operands, holds operand) → holds (.operation op operands))
    (conditional : ∀ op condition, holds condition → holds (.conditional op condition))
    (branches : ∀ ifJson thenJson elseJson, holds ifJson → holds thenJson → holds elseJson →
      holds (.branches ifJson thenJson elseJson)) (json : RexJson) : holds json :=
  @RexJson.rec holds (fun operands => ∀ operand ∈ operands,
    holds operand) inputRef literal literals operation conditional
    branches (fun _ member => absurd member List.not_mem_nil)
    (fun _ _ first rest => List.forall_mem_cons.mpr ⟨first,rest⟩) json

namespace CalcitePlanJsonDeserializer
open Gandiva Tuples Library.Fallible

def Canonical (expression : Expression) : Prop := ∀ name ∈ expression.involvedColumnNames, canonicalize name = name

section Canonical
variable {exprs : List (Except String Expression)} {expression : Expression}

theorem canonical_operand (each : ∀ expr, .ok expr ∈ exprs → Canonical expr) {place : Nat}
    (read : operand exprs place = .ok expression) : Canonical expression := by
  unfold operand at read
  cases found : exprs[place]? with
  | none => simp [found] at read
  | some expr =>
    rw [found,Option.getD_some] at read
    exact each _ (read ▸ List.mem_of_getElem? found)

theorem canonical_all (each : ∀ expr, .ok expr ∈ exprs → Canonical expr) {operands : List Expression}
    (read : exprs.mapM id = .ok operands) : ∀ name ∈ Expression.involvedOfAll operands, canonicalize name = name := by
  intro name inside
  obtain ⟨expr,member,involved⟩ := Expression.mem_involvedOfAll.mp inside
  obtain ⟨_,there,same⟩ := forall₂_mem_right (mapM_eq_ok.mp read) expr member
  exact each expr (same ▸ there) name involved

theorem canonical_union {left right : Expression} (first : Canonical left) (second : Canonical right) :
    ∀ name ∈ left.involvedColumnNames ∪ right.involvedColumnNames, canonicalize name = name := by
  intro name inside
  rcases List.mem_union_iff.mp inside with here | there
  · exact first name here
  · exact second name there

theorem canonical_datePlusMinus {opName : String} {left right : Expression} (first : Canonical left)
    (second : Canonical right) (read : datePlusMinus opName left right = .ok expression) : Canonical expression := by
  unfold datePlusMinus at read
  split at read
  · cases read
  · cases read
  · split at read
    · split at read
      · cases read
        exact canonical_union first (fun _ inside => absurd inside List.not_mem_nil)
      · cases read
      · cases read
    · cases read
      exact canonical_union first second

theorem canonical_binaryOperation (each : ∀ expr, .ok expr ∈ exprs → Canonical expr) {opName : String}
    {kind : BinaryKind}
    (read : deserializeBinaryOperation opName kind exprs = .ok expression) : Canonical expression := by
  obtain ⟨left,first,read⟩ := bind_eq_ok.mp read
  obtain ⟨right,second,read⟩ := bind_eq_ok.mp read
  have canonicalLeft := canonical_operand each first
  have canonicalRight := canonical_operand each second
  split at read
  · exact canonical_datePlusMinus canonicalLeft canonicalRight read
  · cases read
    exact canonical_union canonicalLeft canonicalRight

theorem canonical_inOperation (each : ∀ expr, .ok expr ∈ exprs → Canonical expr) {operands : List RexJson}
    (read : deserializeInOperation operands exprs = .ok expression) : Canonical expression := by
  obtain ⟨left,first,read⟩ := bind_eq_ok.mp read
  have canonical := canonical_operand each first
  split at read
  · obtain ⟨_,_,done⟩ := bind_eq_ok.mp read
    cases done
    exact canonical
  · cases read

theorem canonical_extractOperation (each : ∀ expr, .ok expr ∈ exprs → Canonical expr) {operands : List RexJson}
    (read : deserializeExtractOperation operands exprs = .ok expression) : Canonical expression := by
  obtain ⟨date,second,read⟩ := bind_eq_ok.mp read
  have canonical := canonical_operand each second
  split at read
  · split at read
    · split at read
      · cases read
        exact canonical
      · split at read
        · cases read
          exact canonical
        · split at read
          · cases read
            exact canonical
          · cases read
    · cases read
  · cases read

theorem canonical_operation (each : ∀ expr, .ok expr ∈ exprs → Canonical expr) {opName : String}
    {operands : List RexJson}
    (read : deserializeOperation opName operands exprs = .ok expression) : Canonical expression := by
  unfold deserializeOperation at read
  split at read
  · obtain ⟨_,all,done⟩ := bind_eq_ok.mp read
    cases done
    exact canonical_all each all
  · split at read
    · obtain ⟨_,all,done⟩ := bind_eq_ok.mp read
      cases done
      exact canonical_all each all
    · split at read
      · obtain ⟨operand_,first,done⟩ := bind_eq_ok.mp read
        cases done
        have canonical := canonical_operand each first
        exact canonical
      · split at read
        · exact canonical_binaryOperation each read
        · split at read
          · exact canonical_inOperation each read
          · split at read
            · exact canonical_extractOperation each read
            · split at read
              · obtain ⟨operand_,first,done⟩ := bind_eq_ok.mp read
                cases done
                have canonical := canonical_operand each first
                exact canonical
              · split at read
                · obtain ⟨expr,first,read⟩ := bind_eq_ok.mp read
                  obtain ⟨from_,second,read⟩ := bind_eq_ok.mp read
                  obtain ⟨for_,third,done⟩ := bind_eq_ok.mp read
                  cases done
                  intro name inside
                  rcases List.mem_union_iff.mp inside with early | last
                  · exact canonical_union (canonical_operand each first) (canonical_operand each second) name early
                  · exact canonical_operand each third name last
                · cases read

theorem canonical_literal {type : String} {value : JsonValue} (read : deserializeLiteral type value = .ok expression) :
    Canonical expression := by
  have literal : ∃ value, expression = .literal value := by
    unfold deserializeLiteral at read
    repeat' split at read
    case isFalse => cases read
    all_goals
      obtain ⟨_,_,done⟩ := bind_eq_ok.mp read
      exact ⟨_,(Except.ok.inj done).symm⟩
  obtain ⟨_,rfl⟩ := literal
  exact fun _ inside => absurd inside List.not_mem_nil

theorem deserializeAll_eq (operands : List RexJson) : deserializeAll operands = operands.map deserializeExpression := by
  induction operands with
  | nil => rfl
  | cons operand operands ih => rw [deserializeAll,ih,List.map_cons]

theorem canonical_expression {json : RexJson} (read : deserializeExpression json = .ok expression) :
    Canonical expression := by
  have parts : (∀ expression, deserializeExpression json = .ok expression → Canonical expression) ∧
      ∀ ifJson thenJson elseJson, json = .branches ifJson thenJson elseJson → ∀ branch ∈ [ifJson,thenJson,elseJson],
        ∀ expression, deserializeExpression branch = .ok expression → Canonical expression := by
    clear read
    induction json using RexJson.ind with
    | inputRef name =>
      refine ⟨fun expression read => ?_,nofun⟩
      cases read
      intro other inside
      rw [List.mem_singleton.mp inside,canonicalize_canonicalize]
    | literal type value => exact ⟨fun expression read => canonical_literal read,nofun⟩
    | literals type values => exact ⟨nofun,nofun⟩
    | operation opName operands each =>
      refine ⟨fun expression read => canonical_operation (fun expr member => ?_) read,nofun⟩
      rw [deserializeAll_eq] at member
      obtain ⟨operand,inside,same⟩ := List.mem_map.mp member
      exact (each operand inside).1 expr same
    | conditional opName condition ih =>
      refine ⟨fun expression read => ?_,nofun⟩
      cases condition with
      | branches ifJson thenJson elseJson =>
        rw [deserializeExpression] at read
        split at read
        · obtain ⟨ifExpr,first,read⟩ := bind_eq_ok.mp read
          obtain ⟨thenExpr,second,read⟩ := bind_eq_ok.mp read
          obtain ⟨elseExpr,third,done⟩ := bind_eq_ok.mp read
          cases done
          have branch := ih.2 ifJson thenJson elseJson rfl
          intro name inside
          rcases List.mem_union_iff.mp inside with early | last
          · exact canonical_union (branch ifJson (by simp) ifExpr first)
              (branch thenJson (by simp) thenExpr second) name early
          · exact branch elseJson (by simp) elseExpr third name last
        · cases read
      | _ => cases read
    | branches ifJson thenJson elseJson first second third =>
      refine ⟨nofun,?_⟩
      rintro _ _ _ ⟨rfl,rfl,rfl⟩ branch member
      simp only [List.mem_cons,List.not_mem_nil,or_false] at member
      rcases member with rfl | rfl | rfl
      · exact first.1
      · exact second.1
      · exact third.1
  exact parts.1 expression read

end Canonical

end CalcitePlanJsonDeserializer
end Hermes.Calcite
