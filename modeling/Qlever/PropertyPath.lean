import Mathlib

/-! Property paths and their translation to graph patterns by `QueryPlanner::seedFromPropertyPath`. The type `T` is that of
the RDF terms, and the state of the planner is the number of internal variables. A failed check is `none`.
-/
namespace Qlever
variable {T : Type}

inductive PropertyPathModifier
  | sequence
  | alternative
  | inverse
  | negated
  deriving DecidableEq

inductive PropertyPath (T : Type)
  | iri (iri : T)
  | modified (children : List (PropertyPath T)) (modifier : PropertyPathModifier)
  | minMax (min max : Nat) (child : PropertyPath T)

namespace QueryPlanner

abbrev Variable := String

inductive TripleComponent (T : Type)
  | var (name : Variable)
  | term (term : T)
  deriving DecidableEq

structure SparqlTriple (T : Type) where
  s : TripleComponent T
  p : TripleComponent T
  o : TripleComponent T
  deriving DecidableEq

inductive SparqlExpression (T : Type)
  | notEqual (iri : T) (name : Variable)
  | and (child1 child2 : SparqlExpression T)
  deriving DecidableEq

mutual
inductive GraphPattern (T : Type)
  | mk (graphPatterns : List (GraphPatternOperation T)) (filters : List (SparqlExpression T))

inductive GraphPatternOperation (T : Type)
  | basic (triples : List (SparqlTriple T))
  | union (child1 child2 : GraphPattern T)
  | transPath (left right : TripleComponent T) (innerLeft innerRight : Variable) (min max : Nat) (childGraphPattern : GraphPattern T)
end

def GraphPattern.graphPatterns : GraphPattern T → List (GraphPatternOperation T)
  | .mk graphPatterns _ => graphPatterns

section Seed

def internalVariable (count : Nat) : Variable := "?_QLever_internal_variable_qp_" ++ toString count

def generateUniqueVarName (internalVarCount : Nat) : Variable × Nat := (internalVariable internalVarCount,internalVarCount + 1)

def seedFromVarOrIri (left : TripleComponent T) (varOrIri : TripleComponent T) (right : TripleComponent T) : GraphPattern T :=
  .mk [.basic [⟨left,varOrIri,right⟩]] []

def uniteGraphPatterns : List (GraphPattern T) → Option (GraphPattern T)
  | first::second::patterns =>
    some (patterns.foldl (fun p next => .mk [.union p next] []) (.mk [.union first second] []))
  | _ => none

def splitChildren : List (PropertyPath T) → Option (List T × List T)
  | [] => some ([],[])
  | .iri iri::children => do
    let (forwardIris,inverseIris) ← splitChildren children
    return (iri::forwardIris,inverseIris)
  | .modified [.iri iri] .inverse::children => do
    let (forwardIris,inverseIris) ← splitChildren children
    return (forwardIris,iri::inverseIris)
  | _::_ => none

def makeNotEqualExpressions (name : Variable) : List T → Option (SparqlExpression T)
  | [] => none
  | iri::iris => some (iris.foldl (fun expression iri => .and expression (.notEqual iri name)) (.notEqual iri name))

def makeFilterPattern (left right : TripleComponent T) (iris : List T) (count : Nat) : Option (GraphPattern T × Nat) := do
  let (name,count) := generateUniqueVarName count
  let expression ← makeNotEqualExpressions name iris
  return (.mk (seedFromVarOrIri left (.var name) right).graphPatterns [expression],count)

def seedFromNegated (left : TripleComponent T) (paths : List (PropertyPath T)) (right : TripleComponent T) (count : Nat) : Option (GraphPattern T × Nat) := do
  let (forwardIris,inverseIris) ← splitChildren paths
  if paths.isEmpty then none
  else if inverseIris.isEmpty then makeFilterPattern left right forwardIris count
  else if forwardIris.isEmpty then makeFilterPattern right left inverseIris count
  else do
    let (forward,count) ← makeFilterPattern left right forwardIris count
    let (inverse,count) ← makeFilterPattern right left inverseIris count
    return (← uniteGraphPatterns [forward,inverse],count)

mutual
def seedFromPropertyPath (left : TripleComponent T) : PropertyPath T → TripleComponent T → Nat → Option (GraphPattern T × Nat)
  | .iri iri,right,count => some (seedFromVarOrIri left (.term iri) right,count)
  | .modified children .alternative,right,count => do
    if children.length ≤ 1 then none
    else
      let (childPlans,count) ← seedChildren left children right count
      return (← uniteGraphPatterns childPlans,count)
  | .modified [child] .inverse,right,count => seedFromPropertyPath right child left count
  | .modified _ .inverse,_,_ => none
  | .modified children .negated,right,count => seedFromNegated left children right count
  | .modified children .sequence,right,count => do
    if children.length ≤ 1 then none
    else
      let (innerRight,count) := generateUniqueVarName count
      let (graphPatterns,count) ← seedFromSequence left innerRight children right count
      return (.mk graphPatterns [],count)
  | .minMax min max child,right,count => do
    let (innerLeft,count) := generateUniqueVarName count
    let (innerRight,count) := generateUniqueVarName count
    let (childPlan,count) ← seedFromPropertyPath (.var innerLeft) child (.var innerRight) count
    return (.mk [.transPath left right innerLeft innerRight min max childPlan] [],count)

/-- The loop of `seedFromAlternative`. -/
def seedChildren (left : TripleComponent T) : List (PropertyPath T) → TripleComponent T → Nat → Option (List (GraphPattern T) × Nat)
  | [],_,count => some ([],count)
  | child::children,right,count => do
    let (pattern,count) ← seedFromPropertyPath left child right count
    let (patterns,count) ← seedChildren left children right count
    return (pattern::patterns,count)

/-- The loop of `seedFromSequence`, which appends the patterns of the children, without their filters. -/
def seedFromSequence (innerLeft : TripleComponent T) (innerRight : Variable) :
    List (PropertyPath T) → TripleComponent T → Nat → Option (List (GraphPatternOperation T) × Nat)
  | [],_,count => some ([],count)
  | [child],right,count => do
    let (pattern,count) ← seedFromPropertyPath innerLeft child right count
    let (_,count) := generateUniqueVarName count
    return (pattern.graphPatterns,count)
  | child::children,right,count => do
    let (pattern,count) ← seedFromPropertyPath innerLeft child (.var innerRight) count
    let (next,count) := generateUniqueVarName count
    let (graphPatterns,count) ← seedFromSequence (.var innerRight) next children right count
    return (pattern.graphPatterns ++ graphPatterns,count)
end

end Seed

section Semantics

def unbounded : Nat := 18446744073709551615

def WalkOfLength (edge : T → T → Prop) : Nat → T → T → Prop
  | 0,first,last => first = last
  | length + 1,first,last => ∃ next,edge first next ∧ WalkOfLength edge length next last

def Walk (edge : T → T → Prop) (min max : Nat) (first last : T) : Prop :=
  ∃ length,min ≤ length ∧ (length ≤ max ∨ max = unbounded) ∧ WalkOfLength edge length first last

section
variable {edge edge' : T → T → Prop} (same : ∀ first last,edge first last ↔ edge' first last)
include same

theorem WalkOfLength.congr (length : Nat) (first last : T) :
    WalkOfLength edge length first last ↔ WalkOfLength edge' length first last := by
  induction length generalizing first with
  | zero => rfl
  | succ length ih => exact exists_congr (fun next => and_congr (same first next) (ih next))

theorem Walk.congr (min max : Nat) (first last : T) :
    Walk edge min max first last ↔ Walk edge' min max first last :=
  exists_congr (fun length => and_congr_right (fun _ => and_congr_right (fun _ => WalkOfLength.congr same length first last)))

end

abbrev Graph (T : Type) := T → T → T → Prop

abbrev Assignment (T : Type) := Variable → T

def TripleComponent.value (assignment : Assignment T) : TripleComponent T → T
  | .var name => assignment name
  | .term value => value

def SparqlTriple.Holds (graph : Graph T) (assignment : Assignment T) (triple : SparqlTriple T) : Prop :=
  graph (triple.s.value assignment) (triple.p.value assignment) (triple.o.value assignment)

def SparqlExpression.Holds (assignment : Assignment T) : SparqlExpression T → Prop
  | .notEqual iri name => iri ≠ assignment name
  | .and child1 child2 => child1.Holds assignment ∧ child2.Holds assignment

mutual
/-- An assignment of all variables solves a pattern. The pattern below a transitive path has variables of its own. -/
def GraphPattern.Holds (graph : Graph T) : GraphPattern T → Assignment T → Prop
  | .mk graphPatterns filters,assignment => AllHold graph graphPatterns assignment ∧ ∀ filter ∈ filters,filter.Holds assignment

def AllHold (graph : Graph T) : List (GraphPatternOperation T) → Assignment T → Prop
  | [],_ => True
  | operation::operations,assignment => operation.Holds graph assignment ∧ AllHold graph operations assignment

def GraphPatternOperation.Holds (graph : Graph T) : GraphPatternOperation T → Assignment T → Prop
  | .basic triples,assignment => ∀ triple ∈ triples,triple.Holds graph assignment
  | .union child1 child2,assignment => child1.Holds graph assignment ∨ child2.Holds graph assignment
  | .transPath left right innerLeft innerRight min max child,assignment =>
    Walk (fun first last => ∃ inner : Assignment T,inner innerLeft = first ∧ inner innerRight = last ∧ child.Holds graph inner) min max
      (left.value assignment) (right.value assignment)
end

def RelatedByOther (graph : Graph T) (iris : List T) (first last : T) : Prop := iris ≠ [] ∧ ∃ predicate,graph first predicate last ∧ predicate ∉ iris

mutual
def Related (graph : Graph T) : PropertyPath T → T → T → Prop
  | .iri iri,first,last => graph first iri last
  | .modified children .sequence,first,last => RelatedBySequence graph children first last
  | .modified children .alternative,first,last => RelatedByAny graph children first last
  | .modified [child] .inverse,first,last => Related graph child last first
  | .modified _ .inverse,_,_ => False
  | .modified children .negated,first,last => match splitChildren children with
    | some (forwardIris,inverseIris) => RelatedByOther graph forwardIris first last ∨ RelatedByOther graph inverseIris last first
    | none => False
  | .minMax min max child,first,last => Walk (Related graph child) min max first last

def RelatedBySequence (graph : Graph T) : List (PropertyPath T) → T → T → Prop
  | [],first,last => first = last
  | child::children,first,last => ∃ middle,Related graph child first middle ∧ RelatedBySequence graph children middle last

def RelatedByAny (graph : Graph T) : List (PropertyPath T) → T → T → Prop
  | [],_,_ => False
  | child::children,first,last => Related graph child first last ∨ RelatedByAny graph children first last
end

mutual
def Valid : PropertyPath T → Prop
  | .iri _ => True
  | .modified children .sequence => 1 < children.length ∧ AllValid children
  | .modified children .alternative => 1 < children.length ∧ AllValid children
  | .modified children .inverse => children.length = 1 ∧ AllValid children
  | .modified children .negated => children ≠ [] ∧ (splitChildren children).isSome = true
  | .minMax min max child => min ≤ max ∧ Valid child

def AllValid : List (PropertyPath T) → Prop
  | [] => True
  | child::children => Valid child ∧ AllValid children
end

/-- The pattern of the path has a filter of its own: a negated set with IRIs of one direction only, possibly inverted. -/
def hasFilter : PropertyPath T → Bool
  | .modified children .negated => match splitChildren children with
    | some (forwardIris,inverseIris) => forwardIris.isEmpty || inverseIris.isEmpty
    | none => false
  | .modified [child] .inverse => hasFilter child
  | _ => false

mutual
def KeepsFilters : PropertyPath T → Prop
  | .iri _ => True
  | .modified children .sequence => (∀ child ∈ children,hasFilter child = false) ∧ AllKeepFilters children
  | .modified children _ => AllKeepFilters children
  | .minMax _ _ child => KeepsFilters child

def AllKeepFilters : List (PropertyPath T) → Prop
  | [] => True
  | child::children => KeepsFilters child ∧ AllKeepFilters children
end

def Fresh (count : Nat) (name : Variable) : Prop := ∃ index,count ≤ index ∧ name = internalVariable index

def TripleComponent.NotFresh (count : Nat) : TripleComponent T → Prop
  | .var name => ¬ Fresh count name
  | .term _ => True

def Translates (graph : Graph T) (left : TripleComponent T) (path : PropertyPath T) (right : TripleComponent T) (count : Nat) : Prop :=
  ∃ pattern count',seedFromPropertyPath left path right count = some (pattern,count') ∧ ∀ assignment : Assignment T,
    (∃ extended : Assignment T,(∀ name,¬ Fresh count name → extended name = assignment name) ∧ pattern.Holds graph extended) ↔
      Related graph path (left.value assignment) (right.value assignment)

end Semantics

end QueryPlanner
end Qlever
