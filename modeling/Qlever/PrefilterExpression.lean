import Qlever.ValueIdComparators

/-! The expressions by which blocks are filtered before a scan, `PrefilterExpressionIndex.cpp`, and their complements. An expression stands for
the IDs that satisfy it, that is, for which the SPARQL expression of its node is true.
-/
namespace Qlever.PrefilterExpressions
open ValueIdComparators
variable {Word : Type}

inductive IdOrLocalVocabEntry (Word : Type)
  | id (value : ValueId Word)
  | localVocabEntry (word : Word)
  deriving DecidableEq, Repr

inductive LogicalOperator
  | AND
  | OR
  deriving DecidableEq, Repr

inductive IsDatatype
  | IRI
  | BLANK
  | LITERAL
  | NUMERIC
  deriving DecidableEq, Repr

/-- The classes that derive from `PrefilterExpression`. The child of a `NotExpression` is already complemented. -/
inductive PrefilterExpression (Word : Type)
  | prefixRegexExpression (prefixLiteral : Word) (isNegated : Bool)
  | relationalExpression (comparison : Comparison) (rightSideReferenceValue : IdOrLocalVocabEntry Word)
  | isDatatypeExpression (datatype : IsDatatype) (isNegated : Bool)
  | isInExpression (referenceValues : List (IdOrLocalVocabEntry Word)) (isNegated : Bool)
  | logicalExpression (operation : LogicalOperator) (child1 child2 : PrefilterExpression Word)
  | notExpression (child : PrefilterExpression Word)
  deriving Repr

def complementMap : Comparison → Comparison
  | .LT => .GE
  | .LE => .GT
  | .GE => .LT
  | .GT => .LE
  | .EQ => .NE
  | .NE => .EQ

namespace PrefilterExpression

def logicalComplement : PrefilterExpression Word → PrefilterExpression Word
  | prefixRegexExpression prefixLiteral isNegated => prefixRegexExpression prefixLiteral (!isNegated)
  | relationalExpression comparison rightSideReferenceValue => relationalExpression (complementMap comparison) rightSideReferenceValue
  | isDatatypeExpression datatype isNegated => isDatatypeExpression datatype (!isNegated)
  | isInExpression referenceValues _ => isInExpression referenceValues true
  | logicalExpression .OR child1 child2 => logicalExpression .AND child1.logicalComplement child2.logicalComplement
  | logicalExpression .AND child1 child2 => logicalExpression .OR child1.logicalComplement child2.logicalComplement
  | notExpression child => child.logicalComplement

/-- The constructor of a `NotExpression` that is not a copy. -/
def makeNotExpression (child : PrefilterExpression Word) : PrefilterExpression Word := notExpression child.logicalComplement

end PrefilterExpression

def getValueIdFromIdOrLocalVocabEntry : IdOrLocalVocabEntry Word → ValueId Word
  | .id value => value
  | .localVocabEntry word => .localVocabIndex 0 word

structure WordText (Word : Type) where
  isIri : Word → Bool
  isLiteral : Word → Bool
  startsWith : Word → Word → Bool

section Meaning
variable [LinearOrder Word] (vocab : Vocabulary Word) (text : WordText Word)

def wordOfId : ValueId Word → Option Word
  | .vocabIndex index => vocab.words[index]?
  | .localVocabIndex _ word => some word
  | _ => none

def hasDatatype (datatype : IsDatatype) (id : ValueId Word) : Bool :=
  match datatype with
  | .IRI => (wordOfId vocab id).any text.isIri
  | .BLANK => getDatatype id = .BlankNodeIndex
  | .LITERAL => (wordOfId vocab id).any text.isLiteral ||
      getDatatype id ∈ [.encoded .Bool,.encoded .Int,.encoded .Double,.encoded .Date,.encoded .GeoPoint]
  | .NUMERIC => (getDatatype id).isNumeric

def isTrue (id reference : ValueId Word) (comparison : Comparison) : Bool := compareIds vocab id reference comparison = .True

def isUnordered (id reference : ValueId Word) (comparison : Comparison) : Bool :=
  comparison ∉ [.EQ,.NE] && areTypesCompatible (getDatatype id) (getDatatype reference) && orderOfValues vocab id reference = none

def meaning (compares : ValueId Word → ValueId Word → Comparison → Bool) (id : ValueId Word) : PrefilterExpression Word → Bool
  | .prefixRegexExpression prefixLiteral isNegated =>
    (wordOfId vocab id).any (fun word => text.isLiteral word && (text.startsWith word prefixLiteral != isNegated))
  | .relationalExpression comparison rightSideReferenceValue => compares id (getValueIdFromIdOrLocalVocabEntry rightSideReferenceValue) comparison
  | .isDatatypeExpression datatype isNegated => hasDatatype vocab text datatype id != isNegated
  | .isInExpression referenceValues isNegated =>
    referenceValues.any (fun value => compares id (getValueIdFromIdOrLocalVocabEntry value) .EQ) != isNegated
  | .logicalExpression .AND child1 child2 => meaning compares id child1 && meaning compares id child2
  | .logicalExpression .OR child1 child2 => meaning compares id child1 || meaning compares id child2
  | .notExpression child => meaning compares id child

def satisfies (expression : PrefilterExpression Word) (id : ValueId Word) : Bool := meaning vocab text (isTrue vocab) id expression

def satisfiesOrUnordered (expression : PrefilterExpression Word) (id : ValueId Word) : Bool :=
  meaning vocab text (fun id reference comparison => isTrue vocab id reference comparison || isUnordered vocab id reference comparison) id expression

def comparesTypeOf (id : ValueId Word) : PrefilterExpression Word → Bool
  | .prefixRegexExpression _ _ => (wordOfId vocab id).any text.isLiteral
  | .relationalExpression _ rightSideReferenceValue =>
    areTypesCompatible (getDatatype id) (getDatatype (getValueIdFromIdOrLocalVocabEntry rightSideReferenceValue))
  | .isDatatypeExpression _ _ => true
  | .isInExpression _ _ => true
  | .logicalExpression _ child1 child2 => comparesTypeOf id child1 && comparesTypeOf id child2
  | .notExpression child => comparesTypeOf id child

/-- The expression with the given flag in all of its `IN` nodes. -/
def withIsNegated (flag : Bool) : PrefilterExpression Word → PrefilterExpression Word
  | .isInExpression referenceValues _ => .isInExpression referenceValues flag
  | .logicalExpression operation child1 child2 => .logicalExpression operation (withIsNegated flag child1) (withIsNegated flag child2)
  | .notExpression child => .notExpression (withIsNegated flag child)
  | expression => expression

/-- The complement of an expression is right for an ID: it is satisfied if the expression is not, and the complement of the complement
means the same as the expression. -/
structure ComplementAt (expression : PrefilterExpression Word) (id : ValueId Word) : Prop where
  complement : comparesTypeOf vocab text id expression = true →
    (satisfies vocab text expression.logicalComplement id = true ↔ ¬ satisfies vocab text expression id = true)
  twice : satisfies vocab text expression.logicalComplement.logicalComplement id = satisfies vocab text expression id

end Meaning

section Complement
variable [LinearOrder Word] {vocab : Vocabulary Word} {text : WordText Word}

theorem complementMap_complementMap (comparison : Comparison) : complementMap (complementMap comparison) = comparison := by
  cases comparison <;> rfl

theorem holds_complementMap (comparison : Comparison) (order : Ordering) :
    (complementMap comparison).holds (some order) = !comparison.holds (some order) := by
  cases comparison <;> cases order <;> rfl

theorem isTrue_complementMap {id reference : ValueId Word} (compatible : areTypesCompatible (getDatatype id) (getDatatype reference) = true)
    (comparison : Comparison) :
    isTrue vocab id reference (complementMap comparison) = !(isTrue vocab id reference comparison || isUnordered vocab id reference comparison) := by
  have decided : ∀ c : Comparison,isTrue vocab id reference c = c.holds (orderOfValues vocab id reference) := by
    intro c
    rw [isTrue,compareIds,if_pos compatible]
    cases c.holds (orderOfValues vocab id reference) <;> rfl
  rw [decided,decided,isUnordered,compatible]
  cases orderOfValues vocab id reference with
  | none => cases comparison <;> rfl
  | some order => simp [holds_complementMap]

section
variable (expression : PrefilterExpression Word)

/-- The complement has the negated meaning of the expression in which all `IN` nodes are positive and the comparisons of a NaN by order are true. -/
theorem satisfies_logicalComplement {id : ValueId Word} (compares : comparesTypeOf vocab text id expression = true) :
    satisfies vocab text expression.logicalComplement id = !satisfiesOrUnordered vocab text (withIsNegated false expression) id := by
  induction expression with
  | prefixRegexExpression prefixLiteral isNegated =>
    simp only [comparesTypeOf] at compares
    simp only [satisfies,satisfiesOrUnordered,withIsNegated,meaning,PrefilterExpression.logicalComplement]
    cases isWord : wordOfId vocab id with
    | none => simp [isWord] at compares
    | some word =>
      have isLiteral : text.isLiteral word = true := by simpa [isWord] using compares
      simp [isLiteral]
  | relationalExpression comparison rightSideReferenceValue => exact isTrue_complementMap compares comparison
  | isDatatypeExpression datatype isNegated => 
    cases isNegated <;> simp [satisfies,satisfiesOrUnordered,withIsNegated,meaning,PrefilterExpression.logicalComplement]
  | isInExpression referenceValues isNegated =>
    simp [satisfies,satisfiesOrUnordered,withIsNegated,meaning,PrefilterExpression.logicalComplement,isUnordered]
  | logicalExpression operation child1 child2 ih1 ih2 =>
    obtain ⟨compares1,compares2⟩ := (Bool.and_eq_true _ _).mp compares
    have complement1 := ih1 compares1
    have complement2 := ih2 compares2
    simp only [satisfies,satisfiesOrUnordered] at complement1 complement2
    cases operation <;> simp [satisfies,satisfiesOrUnordered,withIsNegated,meaning,PrefilterExpression.logicalComplement,complement1,complement2]
  | notExpression child ih => exact ih compares

/-- The complement of the complement has the meaning of the expression in which all `IN` nodes are negated. -/
theorem satisfies_logicalComplement_twice (id : ValueId Word) :
    satisfies vocab text expression.logicalComplement.logicalComplement id = satisfies vocab text (withIsNegated true expression) id := by
  induction expression with
  | prefixRegexExpression prefixLiteral isNegated | isDatatypeExpression datatype isNegated => simp [withIsNegated,PrefilterExpression.logicalComplement]
  | relationalExpression comparison rightSideReferenceValue =>
    simp [withIsNegated,PrefilterExpression.logicalComplement,complementMap_complementMap]
  | isInExpression referenceValues isNegated => rfl
  | logicalExpression operation child1 child2 ih1 ih2 =>
    simp only [satisfies] at ih1 ih2
    cases operation <;> simp [satisfies,withIsNegated,meaning,PrefilterExpression.logicalComplement,ih1,ih2]
  | notExpression child ih => exact ih

end

end Complement

def noWords : Vocabulary Nat := ⟨[],Vocabulary.sorted_nil⟩

def noText : WordText Nat := ⟨fun _ => false,fun _ => false,fun _ _ => false⟩

end Qlever.PrefilterExpressions
