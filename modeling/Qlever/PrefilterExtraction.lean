import Qlever.FilterIntervals
import Qlever.PrefilterExpression

/-! The prefilters of a FILTER expression, `getPrefilterExpressionForMetadata` of `RelationalExpressions.cpp`, `NumericBinaryExpressions.cpp` and
`NumericUnaryExpressions.cpp`, and the value of the expression in a row. Under a NOT the prefilters of an expression stand for the
complement: they are merged by the rules of De Morgan and complemented at the NOT.
-/
namespace Qlever.PrefilterExtraction
open ValueIdComparators PrefilterExpressions FilterIntervals List
variable {Word Variable : Type}

abbrev Row (Word Variable : Type) := Variable → ValueId Word

/-- A comparison has the constant as its first argument if it is reversed. Other leaves have any value, and no prefilter. -/
inductive SparqlExpression (Word Variable : Type)
  | relational (comparison : Comparison) (var : Variable) (constant : IdOrLocalVocabEntry Word) (reversed : Bool)
  | other (value : Row Word Variable → TernaryBool)
  | and (left right : SparqlExpression Word Variable)
  | or (left right : SparqlExpression Word Variable)
  | not (child : SparqlExpression Word Variable)

abbrev PrefilterExprVariablePair (Word Variable : Type) := PrefilterExpression Word × Variable

section Prefilters
variable [LinearOrder Variable]

def checkPropertiesForPrefilterConstruction (vec : List (PrefilterExprVariablePair Word Variable)) : Except String Unit :=
  let viewVariable := vec.map Prod.snd
  if ¬ viewVariable.IsChain (fun first second => ¬ second < first) then
    throw "The vector must contain the <PrefilterExpression, Variable> pairs in sorted order w.r.t. Variable value."
  else if ¬ viewVariable.IsChain (fun first second => first ≠ second) then
    throw "For each relevant Variable must exist exactly one <PrefilterExpression, Variable> pair."
  else pure ()

/-- The pairs of only one child are kept with the rules of `AND`. -/
def ofOneChild (binOp : LogicalOperator) (pairs : List (PrefilterExprVariablePair Word Variable)) : List (PrefilterExprVariablePair Word Variable) :=
  if binOp = .AND then pairs else []

def mergePairs (binOp binaryPrefilterExpr : LogicalOperator) :
    List (PrefilterExprVariablePair Word Variable) → List (PrefilterExprVariablePair Word Variable) → List (PrefilterExprVariablePair Word Variable)
  | [],right => ofOneChild binOp right
  | left,[] => ofOneChild binOp left
  | (exprLeft,varLeft) :: left,(exprRight,varRight) :: right =>
    if varLeft = varRight then (.logicalExpression binaryPrefilterExpr exprLeft exprRight,varLeft) :: mergePairs binOp binaryPrefilterExpr left right
    else if varLeft < varRight then
      ofOneChild binOp [(exprLeft,varLeft)] ++ mergePairs binOp binaryPrefilterExpr left ((exprRight,varRight) :: right)
    else ofOneChild binOp [(exprRight,varRight)] ++ mergePairs binOp binaryPrefilterExpr ((exprLeft,varLeft) :: left) right
termination_by left right => left.length + right.length

def mergeChildrenForBinaryOpExpressionImpl (binOp binaryPrefilterExpr : LogicalOperator)
    (leftChild rightChild : List (PrefilterExprVariablePair Word Variable)) : Except String (List (PrefilterExprVariablePair Word Variable)) := do
  checkPropertiesForPrefilterConstruction leftChild
  checkPropertiesForPrefilterConstruction rightChild
  let resPairs := mergePairs binOp binaryPrefilterExpr leftChild rightChild
  checkPropertiesForPrefilterConstruction resPairs
  return resPairs

/-- Under a NOT the rules of `AND` and `OR` are exchanged. -/
def getMergeFunction (binaryPrefilterExpr : LogicalOperator) (isNegated : Bool) :
    List (PrefilterExprVariablePair Word Variable) → List (PrefilterExprVariablePair Word Variable) →
      Except String (List (PrefilterExprVariablePair Word Variable)) :=
  match binaryPrefilterExpr,isNegated with
  | .AND,false => mergeChildrenForBinaryOpExpressionImpl .AND .AND
  | .AND,true => mergeChildrenForBinaryOpExpressionImpl .OR .AND
  | .OR,false => mergeChildrenForBinaryOpExpressionImpl .OR .OR
  | .OR,true => mergeChildrenForBinaryOpExpressionImpl .AND .OR

def mirrorMap : Comparison → Comparison
  | .LT => .GT
  | .LE => .GE
  | .GE => .LE
  | .GT => .LT
  | .EQ => .EQ
  | .NE => .NE

def makePrefilterExpressionVec (comparison : Comparison) (referenceValue : IdOrLocalVocabEntry Word) (var : Variable) (mirrored : Bool) :
    List (PrefilterExprVariablePair Word Variable) :=
  [(.relationalExpression (if mirrored then mirrorMap comparison else comparison) referenceValue,var)]

namespace SparqlExpression

def getPrefilterExpressionForMetadata (isNegated : Bool) : SparqlExpression Word Variable → Except String (List (PrefilterExprVariablePair Word Variable))
  | relational comparison var constant reversed => return makePrefilterExpressionVec comparison constant var reversed
  | other _ => return []
  | and left right => do
    let leftChild ← left.getPrefilterExpressionForMetadata isNegated
    let rightChild ← right.getPrefilterExpressionForMetadata isNegated
    getMergeFunction .AND isNegated leftChild rightChild
  | or left right => do
    let leftChild ← left.getPrefilterExpressionForMetadata isNegated
    let rightChild ← right.getPrefilterExpressionForMetadata isNegated
    getMergeFunction .OR isNegated leftChild rightChild
  | not child => do
    let child ← child.getPrefilterExpressionForMetadata (!isNegated)
    let child := child.map (fun pair => (pair.1.makeNotExpression,pair.2))
    checkPropertiesForPrefilterConstruction child
    return child

end SparqlExpression

end Prefilters

section Value
variable [LinearOrder Word] [DecidableEq Variable] (vocab : Vocabulary Word) (sortedBy : Option Variable)

def getComparisonForSwappedArguments : Comparison → Comparison
  | .LE => .GE
  | .LT => .GT
  | .EQ => .EQ
  | .NE => .NE
  | .GE => .LE
  | .GT => .LT

def isSwapped (constant : IdOrLocalVocabEntry Word) (reversed : Bool) : Bool :=
  match constant with
  | .id _ => false
  | .localVocabEntry _ => reversed

def usesBinarySearch (var : Variable) (constant : IdOrLocalVocabEntry Word) (reversed : Bool) : Bool :=
  sortedBy = some var && (!reversed || isSwapped constant reversed)

/-- The value of a comparison in a row. A set of intervals, the result of the binary search, says of each row that it is inside or not
(see `FilterIntervals`); for other comparisons a row may be undefined. -/
def evaluateRelational (comparison : Comparison) (id : ValueId Word) (constant : IdOrLocalVocabEntry Word) (reversed binarySearch : Bool) : TernaryBool :=
  let value := getValueIdFromIdOrLocalVocabEntry constant
  let result := if reversed && !isSwapped constant reversed then compareIds vocab value id comparison
    else compareIds vocab id value (if reversed then getComparisonForSwappedArguments comparison else comparison)
  if binarySearch then (if result = .True then .True else .False) else toTernaryBool result

namespace SparqlExpression

def evaluate (row : Row Word Variable) : SparqlExpression Word Variable → TernaryBool
  | relational comparison var constant reversed =>
    evaluateRelational vocab comparison (row var) constant reversed (usesBinarySearch sortedBy var constant reversed)
  | other value => value row
  | and left right => andLambda (left.evaluate row) (right.evaluate row)
  | or left right => orLambda (left.evaluate row) (right.evaluate row)
  | not child => unaryNegate (child.evaluate row)

end SparqlExpression

end Value

section Merge
variable [LinearOrder Variable]

def SortedByVariable (vec : List (PrefilterExprVariablePair Word Variable)) : Prop := (vec.map Prod.snd).Pairwise (fun first second => first < second)

theorem checkProperties_eq_ok (vec : List (PrefilterExprVariablePair Word Variable)) (sorted : SortedByVariable vec) :
    checkPropertiesForPrefilterConstruction vec = .ok () := by
  have chain := sorted.isChain
  have notDescending : (vec.map Prod.snd).IsChain (fun first second => ¬ second < first) := chain.imp (fun _ _ less => less.not_gt)
  have noDuplicates : (vec.map Prod.snd).IsChain (fun first second => first ≠ second) := chain.imp (fun _ _ less => less.ne)
  simp only [checkPropertiesForPrefilterConstruction,notDescending,noDuplicates,not_true,if_false]
  rfl

variable {binOp binaryPrefilterExpr : LogicalOperator} {left right : List (PrefilterExprVariablePair Word Variable)}

variable {pairs : List (PrefilterExprVariablePair Word Variable)} {pair : PrefilterExprVariablePair Word Variable}

omit [LinearOrder Variable] in
theorem mem_ofOneChild :
    pair ∈ ofOneChild binOp pairs ↔ binOp = .AND ∧ pair ∈ pairs := by
  unfold ofOneChild
  split
  next isAnd => simp [isAnd]
  next notAnd => simp [notAnd]

/-- Where a merged pair comes from: it combines the pairs of both children, or it is, with the rules of `AND`, the pair of one child. -/
def ComesFrom (binOp binaryPrefilterExpr : LogicalOperator) (left right : List (PrefilterExprVariablePair Word Variable))
    (pair : PrefilterExprVariablePair Word Variable) : Prop :=
  (∃ exprLeft exprRight,(exprLeft,pair.2) ∈ left ∧ (exprRight,pair.2) ∈ right ∧
      pair.1 = .logicalExpression binaryPrefilterExpr exprLeft exprRight) ∨
    (binOp = .AND ∧ (pair ∈ left ∨ pair ∈ right))

omit [LinearOrder Variable] in
theorem ComesFrom.mono {left' right' : List (PrefilterExprVariablePair Word Variable)}
    (from' : ComesFrom binOp binaryPrefilterExpr left right pair) (inLeft : left ⊆ left') (inRight : right ⊆ right') :
    ComesFrom binOp binaryPrefilterExpr left' right' pair := by
  rcases from' with ⟨first,second,isFirst,isSecond,combined⟩ | ⟨isAnd,isLeft | isRight⟩
  · exact .inl ⟨first,second,inLeft isFirst,inRight isSecond,combined⟩
  · exact .inr ⟨isAnd,.inl (inLeft isLeft)⟩
  · exact .inr ⟨isAnd,.inr (inRight isRight)⟩

theorem comesFrom_of_mem_mergePairs (isPair : pair ∈ mergePairs binOp binaryPrefilterExpr left right) :
    ComesFrom binOp binaryPrefilterExpr left right pair := by
  fun_induction mergePairs binOp binaryPrefilterExpr left right with
  | case1 right =>
    obtain ⟨isAnd,isRight⟩ := mem_ofOneChild.mp isPair
    exact .inr ⟨isAnd,.inr isRight⟩
  | case2 left =>
    obtain ⟨isAnd,isLeft⟩ := mem_ofOneChild.mp isPair
    exact .inr ⟨isAnd,.inl isLeft⟩
  | case3 exprLeft left exprRight var right ih =>
    rcases mem_cons.mp isPair with rfl | inRest
    · exact .inl ⟨exprLeft,exprRight,mem_cons_self,mem_cons_self,rfl⟩
    · exact (ih inRest).mono (subset_cons_self _ _) (subset_cons_self _ _)
  | case4 exprLeft varLeft left exprRight varRight right notSame smaller ih =>
    rcases mem_append.mp isPair with isHead | inRest
    · obtain ⟨isAnd,isHead⟩ := mem_ofOneChild.mp isHead
      exact .inr ⟨isAnd,.inl (mem_cons.mpr (.inl (mem_singleton.mp isHead)))⟩
    · exact (ih inRest).mono (subset_cons_self _ _) (List.Subset.refl _)
  | case5 exprLeft varLeft left exprRight varRight right notSame larger ih =>
    rcases mem_append.mp isPair with isHead | inRest
    · obtain ⟨isAnd,isHead⟩ := mem_ofOneChild.mp isHead
      exact .inr ⟨isAnd,.inr (mem_cons.mpr (.inl (mem_singleton.mp isHead)))⟩
    · exact (ih inRest).mono (List.Subset.refl _) (subset_cons_self _ _)

omit [LinearOrder Variable] in
theorem ComesFrom.var_mem (from' : ComesFrom binOp binaryPrefilterExpr left right pair) :
    pair.2 ∈ left.map Prod.snd ∨ pair.2 ∈ right.map Prod.snd := by
  rcases from' with ⟨first,second,isFirst,isSecond,combined⟩ | ⟨isAnd,isLeft | isRight⟩
  · exact .inl (List.mem_map.mpr ⟨_,isFirst,rfl⟩)
  · exact .inl (mem_map_of_mem isLeft)
  · exact .inr (mem_map_of_mem isRight)

section
variable {pair : PrefilterExprVariablePair Word Variable} {pairs : List (PrefilterExprVariablePair Word Variable)}

theorem SortedByVariable.cons (sorted : SortedByVariable pairs) (first : ∀ other ∈ pairs,pair.2 < other.2) : SortedByVariable (pair :: pairs) := by
  rw [SortedByVariable,map_cons,pairwise_cons]
  refine ⟨?_,sorted⟩
  intro var isVar
  obtain ⟨other,isOther,rfl⟩ := List.mem_map.mp isVar
  exact first other isOther

theorem SortedByVariable.tail (sorted : SortedByVariable (pair :: pairs)) : SortedByVariable pairs := (pairwise_cons.mp sorted).2

theorem SortedByVariable.head_lt (sorted : SortedByVariable (pair :: pairs)) {var : Variable} (isVar : var ∈ pairs.map Prod.snd) : pair.2 < var :=
  (pairwise_cons.mp sorted).1 var isVar

end

theorem SortedByVariable.ofOneChild (sorted : SortedByVariable left) : SortedByVariable (ofOneChild binOp left) := by
  unfold PrefilterExtraction.ofOneChild
  split
  next => exact sorted
  next => exact List.Pairwise.nil

theorem SortedByVariable.ofOneChild_append (sorted : SortedByVariable pairs) (first : ∀ other ∈ pairs,pair.2 < other.2) :
    SortedByVariable (PrefilterExtraction.ofOneChild binOp [pair] ++ pairs) := by
  unfold PrefilterExtraction.ofOneChild
  split
  next => exact sorted.cons first
  next => exact sorted

theorem mergePairs_sorted (sortedLeft : SortedByVariable left) (sortedRight : SortedByVariable right) :
    SortedByVariable (mergePairs binOp binaryPrefilterExpr left right) := by
  fun_induction mergePairs binOp binaryPrefilterExpr left right with
  | case1 right => exact sortedRight.ofOneChild
  | case2 left => exact sortedLeft.ofOneChild
  | case3 exprLeft left exprRight var right ih =>
    apply (ih sortedLeft.tail sortedRight.tail).cons
    intro other isOther
    rcases (comesFrom_of_mem_mergePairs isOther).var_mem with isVar | isVar
    · exact sortedLeft.head_lt isVar
    · exact sortedRight.head_lt isVar
  | case4 exprLeft varLeft left exprRight varRight right notSame smaller ih =>
    apply (ih sortedLeft.tail sortedRight).ofOneChild_append
    intro other isOther
    rcases (comesFrom_of_mem_mergePairs isOther).var_mem with isVar | isVar
    · exact sortedLeft.head_lt isVar
    · rcases mem_cons.mp isVar with isHead | isVar
      · rw [isHead]
        exact smaller
      · exact smaller.trans (sortedRight.head_lt isVar)
  | case5 exprLeft varLeft left exprRight varRight right notSame notSmaller ih =>
    have larger : varRight < varLeft := lt_of_le_of_ne (not_lt.mp notSmaller) (Ne.symm notSame)
    apply (ih sortedLeft sortedRight.tail).ofOneChild_append
    intro other isOther
    rcases (comesFrom_of_mem_mergePairs isOther).var_mem with isVar | isVar
    · rcases mem_cons.mp isVar with isHead | isVar
      · rw [isHead]
        exact larger
      · exact larger.trans (sortedLeft.head_lt isVar)
    · exact sortedRight.head_lt isVar

theorem mergeChildren_eq (sortedLeft : SortedByVariable left) (sortedRight : SortedByVariable right) :
    mergeChildrenForBinaryOpExpressionImpl binOp binaryPrefilterExpr left right = .ok (mergePairs binOp binaryPrefilterExpr left right) := by
  simp only [mergeChildrenForBinaryOpExpressionImpl,checkProperties_eq_ok _ sortedLeft,checkProperties_eq_ok _ sortedRight,
    checkProperties_eq_ok _ (mergePairs_sorted sortedLeft sortedRight)]
  rfl

def mergeRule : LogicalOperator → Bool → LogicalOperator
  | .AND,false => .AND
  | .AND,true => .OR
  | .OR,false => .OR
  | .OR,true => .AND

theorem getMergeFunction_eq (operation : LogicalOperator) (isNegated : Bool) :
    getMergeFunction operation isNegated left right = mergeChildrenForBinaryOpExpressionImpl (mergeRule operation isNegated) operation left right := by
  cases operation <;> cases isNegated <;> rfl

def prefilters (isNegated : Bool) : SparqlExpression Word Variable → List (PrefilterExprVariablePair Word Variable)
  | .relational comparison var constant reversed => makePrefilterExpressionVec comparison constant var reversed
  | .other _ => []
  | .and left right => mergePairs (mergeRule .AND isNegated) .AND (prefilters isNegated left) (prefilters isNegated right)
  | .or left right => mergePairs (mergeRule .OR isNegated) .OR (prefilters isNegated left) (prefilters isNegated right)
  | .not child => (prefilters (!isNegated) child).map (fun pair => (pair.1.makeNotExpression,pair.2))

section
variable (isNegated : Bool) (expression : SparqlExpression Word Variable)

theorem prefilters_sorted : SortedByVariable (prefilters isNegated expression) := by
  induction expression generalizing isNegated with
  | relational comparison var constant reversed => exact pairwise_singleton _ _
  | other value => exact List.Pairwise.nil
  | and left right ihLeft ihRight | or left right ihLeft ihRight => exact mergePairs_sorted (ihLeft isNegated) (ihRight isNegated)
  | not child ih =>
    have sorted := ih (!isNegated)
    rw [SortedByVariable] at sorted ⊢
    rw [prefilters,map_map]
    exact sorted

theorem getPrefilterExpressionForMetadata_eq :
    expression.getPrefilterExpressionForMetadata isNegated = .ok (prefilters isNegated expression) := by
  induction expression generalizing isNegated with
  | relational comparison var constant reversed | other value => rfl
  | and left right ihLeft ihRight | or left right ihLeft ihRight =>
    rw [SparqlExpression.getPrefilterExpressionForMetadata,ihLeft,ihRight]
    exact (getMergeFunction_eq _ isNegated).trans (mergeChildren_eq (prefilters_sorted isNegated left) (prefilters_sorted isNegated right))
  | not child ih =>
    have checked := checkProperties_eq_ok _ (prefilters_sorted isNegated (.not child))
    rw [prefilters] at checked
    rw [SparqlExpression.getPrefilterExpressionForMetadata,ih]
    change (do checkPropertiesForPrefilterConstruction _; return _) = _
    rw [checked]
    rfl

end

end Merge

section Soundness
variable [LinearOrder Word] {vocab : Vocabulary Word} {text : WordText Word}

theorem areTypesCompatible_comm (typeA typeB : Datatype) : areTypesCompatible typeA typeB = areTypesCompatible typeB typeA := by
  by_cases same : typeA = typeB
  · rw [same]
  · have numericDefined : ∀ datatype : Datatype,datatype.isNumeric = true → datatype ≠ .encoded .Undefined := by
      rintro datatype isNumeric rfl
      cases isNumeric
    have stringDefined : ∀ datatype : Datatype,datatype.isString = true → datatype ≠ .encoded .Undefined := by
      rintro datatype isString rfl
      cases isString
    rw [Bool.eq_iff_iff]
    simp only [areTypesCompatible,Bool.and_eq_true,Bool.or_eq_true,bne_iff_ne,decide_eq_true_eq,same,Ne.symm same,false_or]
    constructor
    · rintro ⟨-,⟨numericA,numericB⟩ | ⟨stringA,stringB⟩⟩
      · exact ⟨numericDefined _ numericB,.inl ⟨numericB,numericA⟩⟩
      · exact ⟨stringDefined _ stringB,.inr ⟨stringB,stringA⟩⟩
    · rintro ⟨-,⟨numericB,numericA⟩ | ⟨stringB,stringA⟩⟩
      · exact ⟨numericDefined _ numericA,.inl ⟨numericA,numericB⟩⟩
      · exact ⟨stringDefined _ stringA,.inr ⟨stringA,stringB⟩⟩

theorem binary64Compare_swap (first second : Nat) : Library.Binary64.compare second first = (Library.Binary64.compare first second).map Ordering.swap := by
  unfold Library.Binary64.compare
  rw [Bool.or_comm]
  split
  next => rfl
  next => rw [Option.map_some,cmp_swap]

theorem numericCompare_swap (first second : NumericValue) : second.compare first = (first.compare second).map Ordering.swap := by
  cases first with
  | int value =>
    cases second with
    | int value' => rw [NumericValue.compare,NumericValue.compare,Option.map_some,cmp_swap]
    | double bits => exact binary64Compare_swap _ _
  | double bits => cases second <;> exact binary64Compare_swap _ _

theorem orderOfValues_swap (id reference : ValueId Word) :
    orderOfValues vocab reference id = (orderOfValues vocab id reference).map Ordering.swap := by
  by_cases bools : ∃ bits bits',id = .encoded .Bool bits ∧ reference = .encoded .Bool bits'
  · obtain ⟨bits,bits',rfl,rfl⟩ := bools
    change some (cmp (boolFromData bits') (boolFromData bits)) = (some (cmp (boolFromData bits) (boolFromData bits'))).map Ordering.swap
    rw [Option.map_some,cmp_swap]
  · have general : ∀ a b : ValueId Word,(∀ bits bits',a = .encoded .Bool bits → b ≠ .encoded .Bool bits') → orderOfValues vocab a b =
        ((getNumeric a).bind (fun first => (getNumeric b).map first.compare)).getD (some (a.compare vocab b)) := by
      intro a b notBools
      unfold orderOfValues
      split
      next first second => exact absurd rfl (notBools first second rfl)
      next => cases getNumeric a <;> cases getNumeric b <;> rfl
    rw [general id reference (fun bits bits' isId isReference => bools ⟨bits,bits',isId,isReference⟩),
      general reference id (fun bits bits' isReference isId => bools ⟨bits',bits,isId,isReference⟩)]
    have texts : some (reference.compare vocab id) = (some (id.compare vocab reference)).map Ordering.swap := by
      rw [Option.map_some,ValueId.compare_eq,ValueId.compare_eq,cmp_swap]
    cases getNumeric id with
    | none => cases getNumeric reference <;> exact texts
    | some first =>
      cases getNumeric reference with
      | none => exact texts
      | some second => exact numericCompare_swap first second

theorem holds_mirrorMap (comparison : Comparison) (order : Option Ordering) :
    (mirrorMap comparison).holds order = comparison.holds (order.map Ordering.swap) := by
  cases order with
  | none => cases comparison <;> rfl
  | some order => cases comparison <;> cases order <;> rfl

theorem compareIds_swap (id reference : ValueId Word) (comparison : Comparison) :
    compareIds vocab reference id comparison = compareIds vocab id reference (mirrorMap comparison) := by
  rw [compareIds,compareIds,areTypesCompatible_comm,holds_mirrorMap,orderOfValues_swap id reference]

def direct (comparison : Comparison) (reversed : Bool) : Comparison := if reversed then mirrorMap comparison else comparison

theorem evaluateRelational_eq (comparison : Comparison) (id : ValueId Word) (constant : IdOrLocalVocabEntry Word) (reversed binarySearch : Bool) :
    evaluateRelational vocab comparison id constant reversed binarySearch =
      if binarySearch then (if PrefilterExpressions.isTrue vocab id (getValueIdFromIdOrLocalVocabEntry constant) (direct comparison reversed) then .True else .False)
      else toTernaryBool (compareIds vocab id (getValueIdFromIdOrLocalVocabEntry constant) (direct comparison reversed)) := by
  have swapped : getComparisonForSwappedArguments comparison = mirrorMap comparison := by cases comparison <;> rfl
  simp only [evaluateRelational,PrefilterExpressions.isTrue,swapped,compareIds_swap id,direct]
  cases reversed <;> simp

end Soundness

/-- The value of an expression for which a row can be in the result, if the expression stands under NOTs of the given parity. -/
def wanted (isNegated : Bool) : TernaryBool := if isNegated then .False else .True

def combine : LogicalOperator → TernaryBool → TernaryBool → TernaryBool
  | .AND => andLambda
  | .OR => orLambda

theorem combine_wanted (operation : LogicalOperator) (isNegated : Bool) (left right : TernaryBool) :
    combine operation left right = wanted isNegated ↔
      if mergeRule operation isNegated = .AND then left = wanted isNegated ∧ right = wanted isNegated
      else left = wanted isNegated ∨ right = wanted isNegated := by
  cases operation <;> cases isNegated <;> cases left <;> cases right <;> decide

theorem unaryNegate_wanted (isNegated : Bool) (child : TernaryBool) : unaryNegate child = wanted isNegated ↔ child = wanted (!isNegated) := by
  cases isNegated <;> cases child <;> decide

namespace SparqlExpression

def parts (isNegated : Bool) : SparqlExpression Word Variable → List (SparqlExpression Word Variable)
  | relational comparison var constant reversed =>
    [if isNegated then not (relational comparison var constant reversed) else relational comparison var constant reversed]
  | other value => [if isNegated then not (other value) else other value]
  | and left right => (if isNegated then not (and left right) else and left right) :: (left.parts isNegated ++ right.parts isNegated)
  | or left right => (if isNegated then not (or left right) else or left right) :: (left.parts isNegated ++ right.parts isNegated)
  | not child => (if isNegated then not (not child) else not child) :: child.parts (!isNegated)

end SparqlExpression

section Claim
variable [LinearOrder Word] [LinearOrder Variable] (vocab : Vocabulary Word) (text : WordText Word) (sortedBy : Option Variable)
  (row : Row Word Variable)

/-- The prefilters of an expression are right for a row: there is one for each variable, sorted by the variables, and if the expression is true
then the IDs that the row binds to the variables satisfy them. -/
def PrefiltersSound (expression : SparqlExpression Word Variable) : Prop :=
  ∃ pairs,expression.getPrefilterExpressionForMetadata false = .ok pairs ∧ SortedByVariable pairs ∧
    (expression.evaluate vocab sortedBy row = .True → ∀ pair ∈ pairs,satisfies vocab text pair.1 (row pair.2) = true)

/-- A comparison under an odd number of NOTs is not the comparison of a NaN by order, and it is not done by binary search for a constant of
another type. -/
def NegatesDecided (isNegated : Bool) : SparqlExpression Word Variable → Prop
  | .relational comparison var constant reversed => isNegated = true →
      isUnordered vocab (row var) (getValueIdFromIdOrLocalVocabEntry constant) comparison = false ∧
      (usesBinarySearch sortedBy var constant reversed = true →
        areTypesCompatible (getDatatype (row var)) (getDatatype (getValueIdFromIdOrLocalVocabEntry constant)) = true)
  | .other _ => True
  | .and left right => NegatesDecided isNegated left ∧ NegatesDecided isNegated right
  | .or left right => NegatesDecided isNegated left ∧ NegatesDecided isNegated right
  | .not child => NegatesDecided (!isNegated) child

def satisfiesWanted (isNegated : Bool) (expression : PrefilterExpression Word) (id : ValueId Word) : Bool :=
  satisfies vocab text (if isNegated then expression.logicalComplement else expression) id

variable {vocab text sortedBy row}

theorem satisfiesWanted_logical (operation : LogicalOperator) (isNegated : Bool) (left right : PrefilterExpression Word) (id : ValueId Word) :
    satisfiesWanted vocab text isNegated (.logicalExpression operation left right) id = true ↔
      if mergeRule operation isNegated = .AND then
        satisfiesWanted vocab text isNegated left id = true ∧ satisfiesWanted vocab text isNegated right id = true
      else satisfiesWanted vocab text isNegated left id = true ∨ satisfiesWanted vocab text isNegated right id = true := by
  cases operation <;> cases isNegated <;> simp [satisfiesWanted,satisfies,meaning,mergeRule,PrefilterExpression.logicalComplement]

omit [LinearOrder Word] in
theorem withIsNegated_logicalComplement (expression : PrefilterExpression Word) :
    withIsNegated true expression.logicalComplement = expression.logicalComplement := by
  induction expression with
  | prefixRegexExpression prefixLiteral isNegated | relationalExpression comparison rightSideReferenceValue | isDatatypeExpression datatype isNegated
  | isInExpression referenceValues isNegated => rfl
  | logicalExpression operation child1 child2 ih1 ih2 =>
    cases operation <;> rw [PrefilterExpression.logicalComplement,withIsNegated,ih1,ih2]
  | notExpression child ih => exact ih

omit [LinearOrder Word] [LinearOrder Variable] in
theorem ComesFrom.induct {operation binOp : LogicalOperator} {left right : List (PrefilterExprVariablePair Word Variable)}
    {holds : PrefilterExprVariablePair Word Variable → Prop} {pair : PrefilterExprVariablePair Word Variable}
    (from' : ComesFrom binOp operation left right pair) (ofLeft : ∀ pair ∈ left,holds pair) (ofRight : ∀ pair ∈ right,holds pair)
    (combined : ∀ exprLeft exprRight,holds (exprLeft,pair.2) → holds (exprRight,pair.2) → holds (.logicalExpression operation exprLeft exprRight,pair.2)) :
    holds pair := by
  rcases from' with ⟨exprLeft,exprRight,isLeft,isRight,isCombined⟩ | ⟨-,isLeft | isRight⟩
  · have both := combined exprLeft exprRight (ofLeft _ isLeft) (ofRight _ isRight)
    rw [← isCombined] at both
    exact both
  · exact ofLeft _ isLeft
  · exact ofRight _ isRight

omit [LinearOrder Word] in
theorem withIsNegated_of_mem_prefilters (isNegated : Bool) (expression : SparqlExpression Word Variable) :
    ∀ pair ∈ prefilters isNegated expression,withIsNegated true pair.1 = pair.1 := by
  induction expression generalizing isNegated with
  | relational comparison var constant reversed =>
    intro pair isPair
    rw [mem_singleton.mp isPair]
    rfl
  | other value =>
    intro pair isPair
    cases isPair
  | and left right ihLeft ihRight | or left right ihLeft ihRight =>
    intro pair isPair
    apply (comesFrom_of_mem_mergePairs isPair).induct (ihLeft isNegated) (ihRight isNegated)
    intro exprLeft exprRight sameLeft sameRight
    rw [withIsNegated,sameLeft,sameRight]
  | not child ih =>
    intro pair isPair
    obtain ⟨other,isOther,rfl⟩ := List.mem_map.mp isPair
    rw [PrefilterExpression.makeNotExpression,withIsNegated,withIsNegated_logicalComplement]

theorem satisfiesWanted_makeNotExpression (isNegated : Bool) {expression : PrefilterExpression Word} (withoutIn : withIsNegated true expression = expression)
    (id : ValueId Word) : satisfiesWanted vocab text isNegated expression.makeNotExpression id = satisfiesWanted vocab text (!isNegated) expression id := by
  cases isNegated with
  | false => rfl
  | true =>
    have twice : satisfies vocab text expression.logicalComplement.logicalComplement id = satisfies vocab text (withIsNegated true expression) id :=
      satisfies_logicalComplement_twice expression id
    rw [withoutIn] at twice
    exact twice

variable {isNegated : Bool}

theorem satisfiesWanted_of_merged {operation : LogicalOperator} {left right : List (PrefilterExprVariablePair Word Variable)}
    {leftValue rightValue : TernaryBool} (isWanted : combine operation leftValue rightValue = wanted isNegated)
    (ofLeft : leftValue = wanted isNegated → ∀ pair ∈ left,satisfiesWanted vocab text isNegated pair.1 (row pair.2) = true)
    (ofRight : rightValue = wanted isNegated → ∀ pair ∈ right,satisfiesWanted vocab text isNegated pair.1 (row pair.2) = true) :
    ∀ pair ∈ mergePairs (mergeRule operation isNegated) operation left right,satisfiesWanted vocab text isNegated pair.1 (row pair.2) = true := by
  intro pair isPair
  have values := (combine_wanted operation isNegated leftValue rightValue).mp isWanted
  rcases comesFrom_of_mem_mergePairs isPair with ⟨exprLeft,exprRight,isLeft,isRight,combined⟩ | ⟨isAnd,isChild⟩
  · rw [combined,satisfiesWanted_logical]
    split
    next isAnd =>
      rw [if_pos isAnd] at values
      exact ⟨ofLeft values.1 _ isLeft,ofRight values.2 _ isRight⟩
    next notAnd =>
      rw [if_neg notAnd] at values
      exact values.imp (fun isWanted => ofLeft isWanted _ isLeft) (fun isWanted => ofRight isWanted _ isRight)
  · rw [if_pos isAnd] at values
    rcases isChild with isLeft | isRight
    · exact ofLeft values.1 _ isLeft
    · exact ofRight values.2 _ isRight

theorem isUnordered_direct (id reference : ValueId Word) (comparison : Comparison) (reversed : Bool) :
    isUnordered vocab id reference (direct comparison reversed) = isUnordered vocab id reference comparison := by
  cases reversed with
  | false => rfl
  | true => cases comparison <;> rfl

theorem relational_true_iff (comparison : Comparison) (id : ValueId Word) (constant : IdOrLocalVocabEntry Word) (reversed binarySearch : Bool) :
    evaluateRelational vocab comparison id constant reversed binarySearch = .True ↔
      satisfies vocab text (.relationalExpression (direct comparison reversed) constant) id = true := by
  rw [evaluateRelational_eq,satisfies,meaning,PrefilterExpressions.isTrue]
  cases compareIds vocab id (getValueIdFromIdOrLocalVocabEntry constant) (direct comparison reversed) <;> cases binarySearch <;> decide

variable {comparison : Comparison}

theorem not_isUnordered_of_isTrue {id reference : ValueId Word}
    (isTrue : PrefilterExpressions.isTrue vocab id reference comparison = true) : isUnordered vocab id reference comparison = false := by
  by_contra unordered
  rw [Bool.not_eq_false,isUnordered,Bool.and_eq_true,Bool.and_eq_true,decide_eq_true_eq,decide_eq_true_eq] at unordered
  obtain ⟨⟨byOrder,compatible⟩,noOrder⟩ := unordered
  rw [PrefilterExpressions.isTrue,compareIds,if_pos compatible,noOrder] at isTrue
  cases comparison with
  | EQ | NE => simp at byOrder
  | LT | LE | GE | GT => cases isTrue

/-- A comparison under an odd number of NOTs: if it is false then its complement is satisfied, except for the two cases in which the negation
is not decided. -/
theorem relational_false_iff (comparison : Comparison) (id : ValueId Word) (constant : IdOrLocalVocabEntry Word) (reversed binarySearch : Bool) :
    (evaluateRelational vocab comparison id constant reversed binarySearch = .False →
        satisfiesWanted vocab text true (.relationalExpression (direct comparison reversed) constant) id = true) ↔
      isUnordered vocab id (getValueIdFromIdOrLocalVocabEntry constant) comparison = false ∧
        (binarySearch = true → areTypesCompatible (getDatatype id) (getDatatype (getValueIdFromIdOrLocalVocabEntry constant)) = true) := by
  rw [evaluateRelational_eq,← isUnordered_direct _ _ comparison reversed]
  have complement : satisfiesWanted vocab text true (.relationalExpression (direct comparison reversed) constant) id =
      PrefilterExpressions.isTrue vocab id (getValueIdFromIdOrLocalVocabEntry constant) (complementMap (direct comparison reversed)) := rfl
  rw [complement]
  generalize getValueIdFromIdOrLocalVocabEntry constant = reference
  generalize direct comparison reversed = comparison
  by_cases compatible : areTypesCompatible (getDatatype id) (getDatatype reference) = true
  · rw [isTrue_complementMap compatible]
    have result : compareIds vocab id reference comparison = fromBool (PrefilterExpressions.isTrue vocab id reference comparison) := by
      rw [PrefilterExpressions.isTrue,compareIds,if_pos compatible]
      cases comparison.holds (orderOfValues vocab id reference) <;> rfl
    rw [result]
    cases isTrue : PrefilterExpressions.isTrue vocab id reference comparison with
    | true => cases binarySearch <;> simp [not_isUnordered_of_isTrue isTrue,compatible,fromBool,toTernaryBool]
    | false => cases binarySearch <;> simp [compatible,fromBool,toTernaryBool]
  · have undefined : ∀ c,compareIds vocab id reference c = .Undef := by
      intro c
      rw [compareIds,if_neg compatible]
    cases binarySearch <;> simp [PrefilterExpressions.isTrue,undefined,toTernaryBool,isUnordered,compatible]

variable {expression : SparqlExpression Word Variable}

theorem satisfiesWanted_of_evaluate (decided : NegatesDecided vocab sortedBy row isNegated expression) (isWanted : expression.evaluate vocab sortedBy row = wanted isNegated) :
    ∀ pair ∈ prefilters isNegated expression,satisfiesWanted vocab text isNegated pair.1 (row pair.2) = true := by
  induction expression generalizing isNegated with
  | relational comparison var constant reversed =>
    intro pair isPair
    rw [mem_singleton.mp isPair]
    cases isNegated with
    | false => exact (relational_true_iff _ _ _ _ _).mp isWanted
    | true => exact (relational_false_iff _ _ _ _ _).mpr (decided rfl) isWanted
  | other value =>
    intro pair isPair
    cases isPair
  | and left right ihLeft ihRight | or left right ihLeft ihRight => exact satisfiesWanted_of_merged isWanted (ihLeft decided.1) (ihRight decided.2)
  | not child ih =>
    intro pair isPair
    obtain ⟨other,isOther,rfl⟩ := List.mem_map.mp isPair
    rw [satisfiesWanted_makeNotExpression isNegated (withIsNegated_of_mem_prefilters (!isNegated) child other isOther)]
    exact ih decided ((unaryNegate_wanted isNegated _).mp isWanted) other isOther

theorem NegatesDecided.of_prefiltersSound {var : Variable} {constant : IdOrLocalVocabEntry Word} {reversed : Bool}
    (sound : PrefiltersSound vocab text sortedBy row (.not (.relational comparison var constant reversed))) :
    NegatesDecided vocab sortedBy row true (.relational comparison var constant reversed) := by
  intro _
  have satisfiedIf : evaluateRelational vocab comparison (row var) constant reversed (usesBinarySearch sortedBy var constant reversed) = .False →
      satisfiesWanted vocab text true (.relationalExpression (direct comparison reversed) constant) (row var) = true := by
    intro isFalse
    obtain ⟨pairs,isPairs,-,satisfied⟩ := sound
    rw [getPrefilterExpressionForMetadata_eq] at isPairs
    cases isPairs
    have isTrue : (SparqlExpression.not (.relational comparison var constant reversed)).evaluate vocab sortedBy row = .True := by
      rw [SparqlExpression.evaluate,SparqlExpression.evaluate,isFalse]
      rfl
    exact satisfied isTrue _ (mem_singleton_self _)
  exact (relational_false_iff comparison (row var) constant reversed _).mp satisfiedIf

theorem prefiltersSound_of_negatesDecided
    (decided : NegatesDecided vocab sortedBy row false expression) : PrefiltersSound vocab text sortedBy row expression := by
  refine ⟨_,getPrefilterExpressionForMetadata_eq false expression,prefilters_sorted false expression,?_⟩
  intro isTrue
  exact satisfiesWanted_of_evaluate decided isTrue

theorem negatesDecided_of_parts (isNegated : Bool)
    (sound : ∀ part ∈ expression.parts isNegated,PrefiltersSound vocab text sortedBy row part) :
    NegatesDecided vocab sortedBy row isNegated expression := by
  induction expression generalizing isNegated with
  | relational comparison var constant reversed =>
    intro isOdd
    rw [isOdd] at sound
    exact NegatesDecided.of_prefiltersSound (sound _ (mem_singleton_self _)) rfl
  | other value => trivial
  | and left right ihLeft ihRight | or left right ihLeft ihRight =>
    have ofParts := (forall_mem_append.mp (forall_mem_cons.mp sound).2)
    exact ⟨ihLeft isNegated ofParts.1,ihRight isNegated ofParts.2⟩
  | not child ih => exact ih (!isNegated) (forall_mem_cons.mp sound).2

theorem negatesDecided_parts (decided : NegatesDecided vocab sortedBy row isNegated expression) :
    ∀ part ∈ expression.parts isNegated,NegatesDecided vocab sortedBy row false part := by
  have atHead : ∀ {isNegated} {expression : SparqlExpression Word Variable},NegatesDecided vocab sortedBy row isNegated expression →
      NegatesDecided vocab sortedBy row false (if isNegated then .not expression else expression) := by
    intro isNegated expression decided
    cases isNegated <;> exact decided
  induction expression generalizing isNegated with
  | relational comparison var constant reversed | other value => exact forall_mem_singleton.mpr (atHead decided)
  | and left right ihLeft ihRight | or left right ihLeft ihRight =>
    exact forall_mem_cons.mpr ⟨atHead decided,forall_mem_append.mpr ⟨ihLeft decided.1,ihRight decided.2⟩⟩
  | not child ih => exact forall_mem_cons.mpr ⟨atHead decided,ih decided⟩

end Claim

/-- The expression `!(?x < 5)`. -/
def notLessThanFive : SparqlExpression Nat Nat := .not (.relational .LT 0 (.id (.encoded .Int 5)) false)

end Qlever.PrefilterExtraction
