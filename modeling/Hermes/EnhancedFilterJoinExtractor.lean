import Hermes.EnhancedFilterJoinPruner
import Mathlib.Data.List.Sort

/-! `EnhancedFilterJoinExtractor.extract` and `EnhancedFilterJoinSimplifier`: a filter is cut into a part that
is pushed and a part that remains, and the remaining part is simplified by what was pushed. -/
namespace Hermes.Calcite
open RexFilter EnhancedFilterJoinPruner
variable {β : Type} [DecidableEq β]

/-- A filter with what was extracted from it and what remains of it. -/
structure Extraction (β : Type) where
  original : RexFilter β
  key : RexFilter β
  value : RexFilter β

namespace EnhancedFilterJoinSimplifier

def simplifyConjunction (extractions : List (Extraction β)) (rootLevel : Bool) : RexFilter β :=
  composeConDisjunction .and
    ((extractions.filter fun extraction => !(rootLevel && extraction.original = extraction.key)).map Extraction.value)

/-- The order of the common operands, which a hash map has, plays no part in what is made of them. -/
def getCommonChildNodes (e1 e2 : RexFilter β) : RexFilter β :=
  composeConDisjunction .and ((childNodes .and e1).eraseDups.filter fun childNode => childNode ∈ childNodes .and e2)

def removeChildNodes (parentNode nodeToRemove : RexFilter β) : RexFilter β :=
  composeConDisjunction .and ((childNodes .and parentNode).filter fun childNode => childNode ∉ childNodes .and nodeToRemove)

def simplified (common : RexFilter β) (extraction : Extraction β) : RexFilter β :=
  composeConDisjunction .and [removeChildNodes extraction.value common,removeChildNodes extraction.key common]

def extractionIndex (extractions : List (Extraction β)) (key : RexFilter β) : Nat :=
  extractions.length - 1 - extractions.reverse.findIdx fun extraction => extraction.key = key

/-- The simplified filters in the order of the operands they come from, each by the extraction recorded last for it. -/
def sortSimplified (extractions : List (Extraction β)) (simplifiedToExtraction : List (RexFilter β × RexFilter β)) :
    List (RexFilter β) :=
  (simplifiedToExtraction.map Prod.fst).insertionSort fun first second =>
    extractionIndex extractions ((simplifiedToExtraction.reverse.lookup first).getD first) ≤
      extractionIndex extractions ((simplifiedToExtraction.reverse.lookup second).getD second)

def commonExtractedFilter (first : Extraction β) (others : List (Extraction β)) : RexFilter β :=
  others.foldl (fun common extraction => getCommonChildNodes common extraction.key) first.key

def simplifyDisjunction (extractions : List (Extraction β)) (rootLevel : Bool) : RexFilter β :=
  let entirelyPushed := extractions.filter fun extraction => extraction.original = extraction.key
  match extractions.filter fun extraction => extraction.original ≠ extraction.key with
  | [] => if rootLevel then .literal true else composeConDisjunction .or (entirelyPushed.map Extraction.value)
  | first::others =>
    let common := commonExtractedFilter first others
    if isAlwaysTrue common then composeConDisjunction .or (extractions.map Extraction.original)
    else composeConDisjunction .or (sortSimplified extractions
      ((first::others).map (fun extraction => (simplified common extraction,extraction.key)) ++
        entirelyPushed.map fun extraction => (extraction.value,extraction.key)))

def simplifyConDisjunction (kind : Connective) (extractions : List (Extraction β)) (rootLevel : Bool) : RexFilter β :=
  match kind with
  | .and => simplifyConjunction extractions rootLevel
  | .or => simplifyDisjunction extractions rootLevel

end EnhancedFilterJoinSimplifier

namespace EnhancedFilterJoinExtractor
open EnhancedFilterJoinSimplifier

-- which leaves may be extracted, and which extracted filters may go into the join
variable (leafValidator predicate : RexFilter β → Bool) (pushToJoin : Bool)

omit [DecidableEq β] in
/-- Whether the predicate lets an extracted filter pass, where it is asked at all. -/
def accepts (filter : RexFilter β) : Bool := !(pushToJoin && !predicate filter)

def isExtracted (extraction : Extraction β) : Bool :=
    !isAlwaysTrue extraction.key && accepts predicate pushToJoin extraction.key

/-- The extracted and the remaining part of a call, from those of its operands. -/
def extractCall (isRoot : Bool) (kind : Connective) (operands : List (RexFilter β))
    (extractions : List (Extraction β)) :
    RexFilter β × RexFilter β :=
  if kind = .or ∧ ∃ extraction ∈ extractions, isExtracted predicate pushToJoin extraction = false then
    (.literal true,.junction kind operands)
  else
    (pruneSuperset false (composeConDisjunction kind
      ((extractions.filter (isExtracted predicate pushToJoin)).map Extraction.key)),
     pruneSuperset false (simplifyConDisjunction kind extractions isRoot))

def extractLeaf (isRoot : Bool) (filter : RexFilter β) : RexFilter β × RexFilter β :=
  if leafValidator filter && accepts predicate pushToJoin filter then (filter,if isRoot then .literal true else filter)
  else (.literal true,filter)

/-- `extract` below the root. -/
def extractBelow (filter : RexFilter β) : RexFilter β × RexFilter β :=
  fold (fun kind operands children => extractCall predicate pushToJoin false kind operands
      (children.map fun child => ⟨child.1,child.2.1,child.2.2⟩))
    (extractLeaf leafValidator predicate pushToJoin false) filter

def extractionOf (filter : RexFilter β) : Extraction β :=
  ⟨filter,(extractBelow leafValidator predicate pushToJoin filter).1,
    (extractBelow leafValidator predicate pushToJoin filter).2⟩

def extract (filter : RexFilter β) : RexFilter β × RexFilter β :=
  match filter with
  | .junction kind operands => extractCall predicate pushToJoin true kind operands
      ((conDisjunctions kind (.junction kind operands)).map (extractionOf leafValidator predicate pushToJoin))
  | filter => extractLeaf leafValidator predicate pushToJoin true filter

variable {leafValidator predicate : RexFilter β → Bool} {pushToJoin : Bool}

theorem extractBelow_junction (kind : Connective) (operands : List (RexFilter β)) :
    extractBelow leafValidator predicate pushToJoin (.junction kind operands) =
      extractCall predicate pushToJoin false kind operands
        ((conDisjunctions kind (.junction kind operands)).map (extractionOf leafValidator predicate pushToJoin)) := by
  rw [extractBelow,fold_junction,List.map_map]
  rfl

end EnhancedFilterJoinExtractor
end Hermes.Calcite
