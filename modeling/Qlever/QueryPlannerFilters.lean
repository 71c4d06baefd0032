import Qlever.PropertyPath

/-! How `QueryPlanner::optimize` applies the filters of a group. The estimates by which the planner chooses between
plans are parameters. A set bit of a bit mask is an element of a set, and a failed check or an exception is `none`.
-/
namespace Qlever
namespace QueryPlanner
variable {T : Type}

inductive SparqlFilter (T : Type)
  | expression (descriptor : String) (containedVariables : List Variable)
  | equal (var1 var2 : Variable)
  | notEqual (expression : SparqlExpression T)
  deriving DecidableEq

def SparqlExpression.containedVariables : SparqlExpression T → List Variable
  | .notEqual _ name => [name]
  | .and child1 child2 => child1.containedVariables ++ child2.containedVariables

def SparqlFilter.containedVariables : SparqlFilter T → List Variable
  | .expression _ names => names
  | .equal var1 var2 => [var1,var2]
  | .notEqual negated => negated.containedVariables

inductive Permutation
  | PSO
  | POS
  | SPO
  | SOP
  | OPS
  | OSP
  deriving DecidableEq

structure SparqlTripleSimple (T : Type) extends SparqlTriple T where
  additionalScanColumn : Option Variable := none
  deriving DecidableEq

def TripleComponent.variableNames : TripleComponent T → List Variable
  | .var name => [name]
  | .term _ => []

def SparqlTriple.variableNames (triple : SparqlTriple T) : List Variable :=
  triple.s.variableNames ++ triple.p.variableNames ++ triple.o.variableNames

/-- An index scan also has the equality filters that were generated for it. A join is of one or several columns, and
the product of several subtrees is a nested one. A spatial join substitutes a filter, and each of its children may be
missing. A subtree was planned as part of another group. -/
inductive QueryExecutionTree (T : Type)
  | indexScan (permutation : Permutation) (triple : SparqlTripleSimple T) (equalities : List (SparqlFilter T))
  | filter (filter : SparqlFilter T) (child : QueryExecutionTree T)
  | join (left right : QueryExecutionTree T)
  | cartesianProductJoin (left right : QueryExecutionTree T)
  | spatialJoin (filter : SparqlFilter T) (left right : Variable) (childLeft childRight : QueryExecutionTree T)
  | missing
  | optionalJoin (left right : QueryExecutionTree T)
  | minus (left right : QueryExecutionTree T)
  | neutralOptional (child : QueryExecutionTree T)
  | bind (target : Variable) (child : QueryExecutionTree T)
  | neutralElement
  | subtree (child : QueryExecutionTree T)
  deriving DecidableEq

namespace QueryExecutionTree

def isMissing : QueryExecutionTree T → Bool
  | .missing => true
  | _ => false

/-- The variables that the tree covers. A spatial join that is not complete only has the columns of its missing children. -/
def variableColumns : QueryExecutionTree T → List Variable
  | .indexScan _ triple _ => triple.variableNames ++ triple.additionalScanColumn.toList
  | .filter _ child => child.variableColumns
  | .join left right => left.variableColumns ++ right.variableColumns
  | .cartesianProductJoin left right => left.variableColumns ++ right.variableColumns
  | .spatialJoin _ left right childLeft childRight =>
    if childLeft.isMissing && childRight.isMissing then [left,right]
    else if childLeft.isMissing then [left]
    else if childRight.isMissing then [right]
    else childLeft.variableColumns ++ childRight.variableColumns
  | .missing => []
  | .optionalJoin left right => left.variableColumns ++ right.variableColumns
  | .minus left _ => left.variableColumns
  | .neutralOptional child => child.variableColumns
  | .bind target child => child.variableColumns ++ [target]
  | .neutralElement => []
  | .subtree child => child.variableColumns

def isIncompleteSpatialJoin : QueryExecutionTree T → Bool
  | .spatialJoin _ _ _ childLeft childRight => childLeft.isMissing || childRight.isMissing
  | _ => false

def isBindOptionalJoinOrMinus : QueryExecutionTree T → Bool
  | .bind _ _ => true
  | .optionalJoin _ _ => true
  | .minus _ _ => true
  | _ => false

end QueryExecutionTree

inductive PlanType
  | BASIC
  | OPTIONAL
  | MINUS
  deriving DecidableEq

structure SubtreePlan (T : Type) where
  qet : QueryExecutionTree T
  idsOfIncludedNodes : Finset Nat := ∅
  idsOfIncludedFilters : Finset Nat := ∅
  containsFilterSubstitute : Bool := false
  type : PlanType := .BASIC

structure FilterAndOptionalSubstitute (T : Type) where
  filter : SparqlFilter T
  substitute : Option (SubtreePlan T)

/-- The estimates of the planner, and the two variables of the filters that are GeoSPARQL functions. -/
structure Estimates (T : Type) where
  costEstimate : QueryExecutionTree T → Nat
  sizeEstimate : QueryExecutionTree T → Nat
  resultSortedOn : QueryExecutionTree T → List Variable
  useGreedyPlanning : List (SubtreePlan T) → List (SparqlFilter T) → Bool
  geoFuncCall : SparqlFilter T → Option (Variable × Variable)

abbrev TripleGraph := List (List Variable)

section Joins

def mergeSubtreePlanIds (target a b : SubtreePlan T) : SubtreePlan T := {target with
  idsOfIncludedNodes := a.idsOfIncludedNodes ∪ b.idsOfIncludedNodes
  idsOfIncludedFilters := a.idsOfIncludedFilters ∪ b.idsOfIncludedFilters
  containsFilterSubstitute := a.containsFilterSubstitute || b.containsFilterSubstitute}

def getJoinColumns (a b : SubtreePlan T) : List Variable := (a.qet.variableColumns.filter (· ∈ b.qet.variableColumns)).dedup

def isAdjacent (tg : TripleGraph) (a b : SubtreePlan T) : Bool :=
  tg.zipIdx.any (fun (node,i) => decide (i ∈ a.idsOfIncludedNodes) && tg.zipIdx.any (fun (target,j) =>
    decide (i ≠ j) && node.any (· ∈ target) && decide (j ∉ a.idsOfIncludedNodes) && decide (j ∈ b.idsOfIncludedNodes)))

def connected (a b : SubtreePlan T) (tg : Option TripleGraph) : List Variable :=
  if ¬ Disjoint a.idsOfIncludedNodes b.idsOfIncludedNodes then []
  else match tg with
    | none => getJoinColumns a b
    | some tg =>
      if a.containsFilterSubstitute || b.containsFilterSubstitute then getJoinColumns a b
      else if ∃ i ∈ a.idsOfIncludedNodes ∪ b.idsOfIncludedNodes,tg.length ≤ i then getJoinColumns a b
      else if isAdjacent tg a b then getJoinColumns a b
      else []

def addChild (spatialJoin child : QueryExecutionTree T) (varOfChild : Variable) : Option (QueryExecutionTree T) :=
  match spatialJoin with
  | .spatialJoin filter left right childLeft childRight =>
    if varOfChild = left then some (.spatialJoin filter left right child childRight)
    else if varOfChild = right then some (.spatialJoin filter left right childLeft child)
    else none
  | _ => none

/-- The result is `some none` if a spatial join cannot be created. -/
def createSpatialJoin (a b : SubtreePlan T) (jcs : List Variable) : Option (Option (SubtreePlan T)) :=
  if a.qet.isIncompleteSpatialJoin = b.qet.isIncompleteSpatialJoin then some none
  else match jcs with
    | [var] => do
      let (spatialSubtreePlan,otherSubtreePlan) := if a.qet.isIncompleteSpatialJoin then (a,b) else (b,a)
      let newSpatialJoin ← addChild spatialSubtreePlan.qet otherSubtreePlan.qet var
      return some (mergeSubtreePlanIds {qet := newSpatialJoin} a b)
    | _ => some none

def createJoinCandidatesOn (a b : SubtreePlan T) (jcs : List Variable) : Option (List (SubtreePlan T)) :=
  if jcs.isEmpty then some []
  else if a.qet.isIncompleteSpatialJoin && b.qet.isIncompleteSpatialJoin then some []
  else do
    match ← createSpatialJoin a b jcs with
    | some plan => return [plan]
    | none =>
      if a.type ≠ .BASIC then none
      else match b.type with
        | .MINUS => return [{qet := .minus a.qet b.qet}]
        | .OPTIONAL => return [{qet := .optionalJoin a.qet b.qet}]
        | .BASIC => return [mergeSubtreePlanIds {qet := .join a.qet b.qet} a b]

def createJoinCandidates (a b : SubtreePlan T) (tg : Option TripleGraph) : Option (List (SubtreePlan T)) :=
  createJoinCandidatesOn a b (connected a b tg)

variable (estimates : Estimates T)

def getPruningKey (plan : SubtreePlan T) : List Variable × Finset Nat × Finset Nat × Bool :=
  (estimates.resultSortedOn plan.qet,plan.idsOfIncludedNodes,plan.idsOfIncludedFilters,plan.containsFilterSubstitute)

def findCheapestExecutionTree (plans : List (SubtreePlan T)) : Option (SubtreePlan T) :=
  plans.argmin (fun plan => estimates.costEstimate plan.qet)

def merge (a b : List (SubtreePlan T)) (tg : TripleGraph) : Option (List (SubtreePlan T)) := do
  let plans ← (a.product b).mapM (fun (ai,bj) => createJoinCandidates ai bj (some tg))
  let candidates := plans.flatten
  return (candidates.map (getPruningKey estimates)).dedup.filterMap (fun key =>
    findCheapestExecutionTree estimates (candidates.filter (fun plan => getPruningKey estimates plan = key)))

end Joins

section Filters

inductive FilterMode
  | KeepUnfiltered
  | ReplaceUnfiltered
  | ReplaceUnfilteredNoSubstitutes
  | ApplyAllFiltersAndReplaceUnfiltered
  deriving DecidableEq

def FilterMode.allowSubstitutes : FilterMode → Bool
  | .KeepUnfiltered => true
  | .ReplaceUnfiltered => true
  | _ => false

/-- One round of the inner loop of `applyFiltersIfPossible`, for one plan and the plans that have been added for it. -/
def applyFilterIfPossible (mode : FilterMode) (state : SubtreePlan T × List (SubtreePlan T))
    (filterAndIndex : FilterAndOptionalSubstitute T × Nat) : Option (SubtreePlan T × List (SubtreePlan T)) :=
  let (plan,addedPlans) := state
  let (filterAndSubst,i) := filterAndIndex
  let containedVariables := filterAndSubst.filter.containedVariables
  if i ∈ plan.idsOfIncludedFilters then some state
  else match (if mode.allowSubstitutes && (containedVariables.isEmpty || containedVariables.any (· ∈ plan.qet.variableColumns))
      then filterAndSubst.substitute else none) with
    | some substitute => do
      let substPlans ← createJoinCandidatesOn substitute plan (getJoinColumns substitute plan)
      return (plan,addedPlans ++ substPlans.map (fun newPlan =>
        {mergeSubtreePlanIds newPlan newPlan plan with type := plan.type,containsFilterSubstitute := true}))
    | none =>
      if mode = .ApplyAllFiltersAndReplaceUnfiltered || containedVariables.all (· ∈ plan.qet.variableColumns) then
        let newPlan : SubtreePlan T := {plan with
          qet := .filter filterAndSubst.filter plan.qet
          idsOfIncludedFilters := insert i plan.idsOfIncludedFilters}
        if mode = .KeepUnfiltered then some (plan,addedPlans ++ [newPlan]) else some (newPlan,addedPlans)
      else some state

def applyFiltersIfPossible (mode : FilterMode) (row : List (SubtreePlan T)) (filters : List (FilterAndOptionalSubstitute T)) :
    Option (List (SubtreePlan T)) := do
  let results ← row.mapM (fun plan => filters.zipIdx.foldlM (applyFilterIfPossible mode) (plan,[]))
  return results.map Prod.fst ++ (results.map Prod.snd).flatten

def rewriteFilterToSpatialJoinConfig (estimates : Estimates T) : SparqlFilter T → Option (Option (Variable × Variable))
  | .expression descriptor names =>
    match estimates.geoFuncCall (.expression descriptor names) with
    | none => some none
    | some (left,right) => if left = right then none else some (some (left,right))
  | .equal _ _ => some none
  | .notEqual _ => some none

def seedFilterSubstitutes (estimates : Estimates T) (filters : List (SparqlFilter T)) : Option (List (FilterAndOptionalSubstitute T)) :=
  filters.zipIdx.mapM (fun (filter,i) => do
    match ← rewriteFilterToSpatialJoinConfig estimates filter with
    | none => return {filter := filter,substitute := none}
    | some (left,right) => return {
      filter := filter
      substitute := some {
        qet := .spatialJoin filter left right .missing .missing
        idsOfIncludedFilters := {i}
        containsFilterSubstitute := true}})

end Filters
section Seeds

/-- The index scans and the filters that have been generated so far, and the number of internal variables. -/
structure Seeds (T : Type) where
  scans : List (QueryExecutionTree T) := []
  filters : List (SparqlFilter T) := []
  internalVarCount : Nat

/-- Add an index scan. If the triple contains the graph variable, then the scan gets an internal variable instead. -/
def addIndexScan (activeGraphVariable : Option Variable) (triple : SparqlTriple T) (equalities : List (SparqlFilter T)) (seeds : Seeds T)
    (permutation : Permutation) : Seeds T :=
  match activeGraphVariable with
  | none => {seeds with scans := seeds.scans ++ [.indexScan permutation {triple with} equalities]}
  | some graphVariable =>
    if graphVariable ∈ triple.variableNames then
      let (internalVariable,internalVarCount) := generateUniqueVarName seeds.internalVarCount
      let equality : SparqlFilter T := .equal graphVariable internalVariable
      {
        scans := seeds.scans ++ [.indexScan permutation {triple with additionalScanColumn := some internalVariable} (equalities ++ [equality])]
        filters := seeds.filters ++ [equality]
        internalVarCount := internalVarCount}
    else {seeds with scans := seeds.scans ++ [.indexScan permutation {triple with additionalScanColumn := some graphVariable} equalities]}

inductive TriplePosition
  | s
  | o

/-- Replace one position of the triple by a new variable that is checked for equality with the old one. -/
def rewriteSingle (triple : SparqlTriple T) (internalVarCount : Nat) : TriplePosition → Option (SparqlTriple T × SparqlFilter T × Nat)
  | .s =>
    let (filterVar,internalVarCount) := generateUniqueVarName internalVarCount
    match triple.s with
    | .var target => some ({triple with s := .var filterVar},.equal filterVar target,internalVarCount)
    | .term _ => none
  | .o =>
    let (filterVar,internalVarCount) := generateUniqueVarName internalVarCount
    match triple.o with
    | .var target => some ({triple with o := .var filterVar},.equal filterVar target,internalVarCount)
    | .term _ => none

def handleRepeatedVariables (activeGraphVariable : Option Variable) (triple : SparqlTriple T) (seeds : Seeds T) (permutations : List Permutation)
    (rewritePositions : List TriplePosition) : Option (Seeds T) := do
  let (scanTriple,equalities,internalVarCount) ← rewritePositions.foldlM (fun (triple,equalities,internalVarCount) position => do
    let (triple,equality,internalVarCount) ← rewriteSingle triple internalVarCount position
    return (triple,equalities ++ [equality],internalVarCount)) (triple,[],seeds.internalVarCount)
  return permutations.foldl (addIndexScan activeGraphVariable scanTriple equalities)
    {seeds with filters := seeds.filters ++ equalities,internalVarCount := internalVarCount}

def seedFromOrdinaryTriple (activeGraphVariable : Option Variable) (seeds : Seeds T) (triple : SparqlTriple T) : Option (Seeds T) :=
  let scans (permutations : List Permutation) : Option (Seeds T) := some (permutations.foldl (addIndexScan activeGraphVariable triple []) seeds)
  let repeated := handleRepeatedVariables activeGraphVariable triple seeds
  match triple.s,triple.p,triple.o with
  | .term _,.term _,.term _ => scans [.PSO]
  | .var _,.term _,.term _ => scans [.POS]
  | .term _,.var _,.term _ => scans [.SOP]
  | .term _,.term _,.var _ => scans [.PSO]
  | .term _,.var p,.var o => if p = o then repeated [.SPO] [.o] else scans [.SPO,.SOP]
  | .var s,.term _,.var o => if s = o then repeated [.PSO] [.o] else scans [.PSO,.POS]
  | .var s,.var p,.term _ => if s = p then repeated [.OPS] [.s] else scans [.OSP,.OPS]
  | .var s,.var p,.var o =>
    if s = o then
      if s = p then repeated [.PSO] [.o,.s] else repeated [.POS,.OPS] [.s]
    else if s = p then repeated [.OPS,.POS] [.s]
    else if o = p then repeated [.PSO,.SPO] [.o]
    else scans [.OPS,.OSP,.PSO,.POS,.SPO,.SOP]

def seedTriples (activeGraphVariable : Option Variable) :
    List (SparqlTriple T × Nat) → List (SubtreePlan T) → Seeds T → Option (List (SubtreePlan T) × Seeds T)
  | [],plans,seeds => some (plans,seeds)
  | (triple,i)::triples,plans,seeds => do
    let next ← seedFromOrdinaryTriple activeGraphVariable {seeds with scans := []} triple
    seedTriples activeGraphVariable triples (plans ++ next.scans.map (fun scan => {qet := scan,idsOfIncludedNodes := {i}})) next

def seedChildPlans (idShift : Nat) : List (List (SubtreePlan T)) → Option (List (SubtreePlan T))
  | [] => some []
  | plans::children => do
    if 64 ≤ idShift then none
    else if plans.all (fun plan => decide (plan.idsOfIncludedFilters = ∅) || plan.qet.isBindOptionalJoinOrMinus) then
      let others ← seedChildPlans (idShift + 1) children
      return plans.map (fun plan => {plan with idsOfIncludedNodes := {idShift}}) ++ others
    else none

def seedWithScansAndText (activeGraphVariable : Option Variable) (triples : List (SparqlTriple T)) (children : List (List (SubtreePlan T)))
    (internalVarCount : Nat) : Option (List (SubtreePlan T) × Seeds T) := do
  let seeds ← seedChildPlans triples.length children
  seedTriples activeGraphVariable triples.zipIdx seeds {internalVarCount := internalVarCount}

def createTripleGraph (activeGraphVariable : Option Variable) (triples : List (SparqlTriple T)) : Option TripleGraph :=
  if 64 < triples.length then none else some (triples.map (fun triple => triple.variableNames ++ activeGraphVariable.toList))

end Seeds

section Rounds
variable (estimates : Estimates T)

def uniqueNodeIds (connectedComponent : List (SubtreePlan T)) : Option (Finset (Finset Nat)) :=
  if connectedComponent.all (fun plan => plan.idsOfIncludedNodes.card == 1) then some (connectedComponent.map (·.idsOfIncludedNodes)).toFinset
  else none

/-- Add the row with the plans that unite `k` nodes. -/
def dynamicProgrammingStep (filters : List (FilterAndOptionalSubstitute T)) (tg : TripleGraph) (dpTab : List (List (SubtreePlan T))) (k : Nat) :
    Option (List (List (SubtreePlan T))) := do
  let last ← applyFiltersIfPossible .KeepUnfiltered (← dpTab.getLast?) filters
  let dpTab := dpTab.dropLast ++ [last]
  let newPlans ← (List.range (k / 2)).mapM (fun i => do merge estimates (← dpTab[i]?) (← dpTab[k - i - 2]?) tg)
  if newPlans.flatten.isEmpty then none else return dpTab ++ [newPlans.flatten]

def runDynamicProgrammingOnConnectedComponent (connectedComponent : List (SubtreePlan T)) (filters : List (FilterAndOptionalSubstitute T))
    (tg : TripleGraph) : Option (List (SubtreePlan T)) := do
  let numSeeds := (← uniqueNodeIds connectedComponent).card
  let dpTab ← (List.range' 2 (numSeeds - 1)).foldlM (dynamicProgrammingStep estimates filters tg) [connectedComponent]
  applyFiltersIfPossible .ReplaceUnfilteredNoSubstitutes (← dpTab.getLast?) filters

def findSmallestExecutionTree (plans : List (SubtreePlan T)) : Option Nat :=
  (List.range plans.length).argmin (fun i => (plans[i]?.map (fun plan => estimates.sizeEstimate plan.qet)).getD 0)

structure GreedyState (T : Type) where
  currentPlans : List (SubtreePlan T)
  cache : List (SubtreePlan T) := []
  nextBestPlan : Option (SubtreePlan T) := none

/-- The first step merges all plans with each other, and the later ones merge them with the plan of the previous step. -/
def mergeWithNextBestPlan (tg : TripleGraph) (state : GreedyState T) : Option (List (SubtreePlan T)) :=
  match state.nextBestPlan with
  | none => merge estimates state.currentPlans state.currentPlans tg
  | some nextBestPlan => merge estimates state.currentPlans [nextBestPlan] tg

/-- One step of the greedy planning. The chosen plan is swapped with the last one of the cache and removed. -/
def greedyStep (filters : List (FilterAndOptionalSubstitute T)) (tg : TripleGraph) (isLastStep : Bool) (state : GreedyState T) :
    Option (GreedyState T) := do
  let newPlans ← mergeWithNextBestPlan estimates tg state
  let newPlans ← applyFiltersIfPossible (if isLastStep then .ReplaceUnfilteredNoSubstitutes else .ReplaceUnfiltered) newPlans filters
  if newPlans.isEmpty then none
  else
    let cache := state.cache ++ newPlans
    let currentPlans := state.currentPlans ++ state.nextBestPlan.toList
    let smallestIdxNew ← findSmallestExecutionTree estimates cache
    let nextTree ← cache[smallestIdxNew]?
    let cache := (cache.set smallestIdxNew (cache.getLastD nextTree)).dropLast
    return {
      currentPlans := currentPlans.filter (fun plan => Disjoint nextTree.idsOfIncludedNodes plan.idsOfIncludedNodes)
      cache := cache.filter (fun plan => Disjoint nextTree.idsOfIncludedNodes plan.idsOfIncludedNodes)
      nextBestPlan := some nextTree}

def runGreedyPlanningOnConnectedComponent (connectedComponent : List (SubtreePlan T)) (filters : List (FilterAndOptionalSubstitute T))
    (tg : TripleGraph) : Option (List (SubtreePlan T)) := do
  let connectedComponent ← applyFiltersIfPossible .ReplaceUnfiltered connectedComponent filters
  let numSeeds := (← uniqueNodeIds connectedComponent).card
  if numSeeds ≤ 1 then return connectedComponent
  else
    let state ← (List.range (numSeeds - 1)).foldlM (fun state i => greedyStep estimates filters tg (i == numSeeds - 2) state)
      {currentPlans := connectedComponent}
    return state.nextBestPlan.toList

/-- Two plans are connected if they share a variable, or have variables of a filter that can be substituted by a join. -/
def areAdjacent (filters : List (FilterAndOptionalSubstitute T)) (a b : SubtreePlan T) : Bool :=
  a.qet.variableColumns.any (· ∈ b.qet.variableColumns) ||
  a.qet.variableColumns.isEmpty && b.qet.variableColumns.isEmpty && decide (a.idsOfIncludedNodes = b.idsOfIncludedNodes) ||
  filters.any (fun filter => filter.substitute.isSome && filter.filter.containedVariables.any (· ∈ a.qet.variableColumns) &&
    filter.filter.containedVariables.any (· ∈ b.qet.variableColumns))

def computeConnectedComponents (filters : List (FilterAndOptionalSubstitute T)) (plans : List (SubtreePlan T)) : List (List (SubtreePlan T)) :=
  plans.foldl (fun components plan =>
    let (near,far) := components.partition (fun component => component.any (areAdjacent filters plan))
    far ++ [near.flatten ++ [plan]]) []

def makeCartesianProduct (first : SubtreePlan T) (plans : List (SubtreePlan T)) : SubtreePlan T :=
  plans.foldl (fun product plan => mergeSubtreePlanIds {qet := .cartesianProductJoin product.qet plan.qet} product plan) first


def fillDpTab (activeGraphVariable : Option Variable) (triples : List (SparqlTriple T)) (filters : List (SparqlFilter T))
    (children : List (List (SubtreePlan T))) (internalVarCount : Nat) : Option (List (SubtreePlan T) × Nat) := do
  let tg ← createTripleGraph activeGraphVariable triples
  let (initialPlans,seeds) ← seedWithScansAndText activeGraphVariable triples children internalVarCount
  let filters := filters ++ seeds.filters
  let filtersAndOptSubstitutes ← seedFilterSubstitutes estimates filters
  if 64 < filters.length then none
  else
    let components := computeConnectedComponents filtersAndOptSubstitutes initialPlans
    let lastDpRowFromComponents ← components.mapM (fun component =>
      if estimates.useGreedyPlanning component filters then runGreedyPlanningOnConnectedComponent estimates component filtersAndOptSubstitutes tg
      else runDynamicProgrammingOnConnectedComponent estimates component filtersAndOptSubstitutes tg)
    match lastDpRowFromComponents with
    | [] => return ([],seeds.internalVarCount)
    | [row] => return (← applyFiltersIfPossible .ReplaceUnfilteredNoSubstitutes row filtersAndOptSubstitutes,seeds.internalVarCount)
    | rows =>
      match ← rows.mapM (findCheapestExecutionTree estimates) with
      | [] => none
      | first::plans =>
        return (← applyFiltersIfPossible .ReplaceUnfilteredNoSubstitutes [makeCartesianProduct first plans] filtersAndOptSubstitutes,
          seeds.internalVarCount)

end Rounds

section Group
variable (estimates : Estimates T) (activeGraphVariable : Option Variable)

/-- The parts of a group. The plans of an `OPTIONAL`, a `MINUS` or a nested group are those that were found for it, and
so is the plan for a negated path with both directions, which is a union. -/
inductive GroupElement (T : Type)
  | triple (triple : SparqlTriple T)
  | negatedPath (left : TripleComponent T) (paths : List (PropertyPath T)) (right : TripleComponent T) (union : QueryExecutionTree T)
  | optional (candidates : List (SubtreePlan T))
  | minus (candidates : List (SubtreePlan T))
  | group (candidates : List (SubtreePlan T))
  | bind (target : Variable)

/-- The state of the planner of one group. The last number is that of the filters when the last part was optimized,
which the planner does not store. -/
structure GraphPatternPlanner (T : Type) where
  filters : List (SparqlFilter T)
  candidatePlans : List (List (SubtreePlan T)) := []
  candidateTriples : List (SparqlTriple T) := []
  boundVariables : List Variable := []
  internalVarCount : Nat
  numOptimizedFilters : Nat := 0

def optimizeCommutatively (s : GraphPatternPlanner T) : Option (GraphPatternPlanner T) := do
  let (lastRow,internalVarCount) ← fillDpTab estimates activeGraphVariable s.candidateTriples s.filters s.candidatePlans s.internalVarCount
  return {s with
    candidatePlans := [lastRow]
    candidateTriples := []
    internalVarCount := internalVarCount
    numOptimizedFilters := s.filters.length}

def visitGroupOptionalOrMinus (type : PlanType) (candidates : List (SubtreePlan T)) (s : GraphPatternPlanner T) : Option (GraphPatternPlanner T) := do
  let first ← candidates.head?
  let names := first.qet.variableColumns
  let areVariablesUnconnected := names.all (fun name => decide (name ∉ s.boundVariables))
  let s' := {s with boundVariables := s.boundVariables ++ names}
  match type with
  | .BASIC =>
    return {s' with candidatePlans := s.candidatePlans ++ [candidates.map (fun plan =>
      {plan with qet := .subtree plan.qet,idsOfIncludedFilters := ∅,type := .BASIC})]}
  | .MINUS =>
    if areVariablesUnconnected then return s' else joinWithCandidates s'
  | .OPTIONAL =>
    if areVariablesUnconnected then
      return {s' with candidatePlans := s.candidatePlans ++ [candidates.map (fun plan => {plan with qet := .neutralOptional plan.qet,type := .BASIC})]}
    else joinWithCandidates s'
where
  /-- Optimize all previous candidates, and then join them with those of the clause. -/
  joinWithCandidates (s : GraphPatternPlanner T) : Option (GraphPatternPlanner T) := do
    let s ← optimizeCommutatively estimates activeGraphVariable s
    let nextCandidates ← ((s.candidatePlans.headD []).product candidates).mapM (fun (a,b) => do
      let plans ← createJoinCandidates {a with idsOfIncludedNodes := {0}} {qet := .subtree b.qet,idsOfIncludedNodes := {1},type := type} none
      return plans.map (fun plan => {plan with
        idsOfIncludedFilters := a.idsOfIncludedFilters
        containsFilterSubstitute := a.containsFilterSubstitute}))
    let cheapest ← findCheapestExecutionTree estimates nextCandidates.flatten
    return {s with candidatePlans := [[cheapest]]}

def visitBind (target : Variable) (s : GraphPatternPlanner T) : Option (GraphPatternPlanner T) :=
  if target ∈ s.boundVariables then none
  else do
    let s ← optimizeCommutatively estimates activeGraphVariable {s with boundVariables := s.boundVariables ++ [target]}
    let lastRow := s.candidatePlans.headD []
    let plans : List (SubtreePlan T) := lastRow.map (fun a => {
      qet := .bind target a.qet
      idsOfIncludedFilters := a.idsOfIncludedFilters
      containsFilterSubstitute := a.containsFilterSubstitute})
    return {s with candidatePlans := [if lastRow.isEmpty then [{qet := .bind target .neutralElement}] else plans]}

def visitElement (s : GraphPatternPlanner T) : GroupElement T → Option (GraphPatternPlanner T)
  | .triple triple => some {s with
    boundVariables := s.boundVariables ++ triple.variableNames
    candidateTriples := s.candidateTriples ++ [triple]}
  | .negatedPath left paths right union => do
    let s := {s with boundVariables := s.boundVariables ++ left.variableNames ++ right.variableNames}
    let (pattern,internalVarCount) ← seedFromNegated left paths right s.internalVarCount
    match pattern with
    | .mk [.basic triples] filters => return {s with
      boundVariables := s.boundVariables ++ triples.flatMap SparqlTriple.variableNames
      candidateTriples := s.candidateTriples ++ triples
      filters := s.filters ++ filters.map SparqlFilter.notEqual
      internalVarCount := internalVarCount}
    | _ => visitGroupOptionalOrMinus estimates activeGraphVariable .BASIC [{qet := union}] {s with internalVarCount := internalVarCount}
  | .optional candidates => visitGroupOptionalOrMinus estimates activeGraphVariable .OPTIONAL candidates s
  | .minus candidates => visitGroupOptionalOrMinus estimates activeGraphVariable .MINUS candidates s
  | .group candidates => visitGroupOptionalOrMinus estimates activeGraphVariable .BASIC candidates s
  | .bind target => visitBind estimates activeGraphVariable target s

/-- The last part of `optimize`. -/
def finishGroup (filtersAndSubst : List (FilterAndOptionalSubstitute T)) (s : GraphPatternPlanner T) : Option (List (SubtreePlan T)) := do
  let s ← optimizeCommutatively estimates activeGraphVariable s
  let row := s.candidatePlans.headD []
  applyFiltersIfPossible .ApplyAllFiltersAndReplaceUnfiltered (if row.isEmpty then [{qet := .neutralElement}] else row) filtersAndSubst

def optimize (elements : List (GroupElement T)) (filters : List (SparqlFilter T)) (internalVarCount : Nat) : Option (List (SubtreePlan T)) := do
  let filtersAndSubst ← seedFilterSubstitutes estimates filters
  let s ← elements.foldlM (visitElement estimates activeGraphVariable) {filters := filters,internalVarCount := internalVarCount}
  finishGroup estimates activeGraphVariable filtersAndSubst s

end Group
end QueryPlanner
end Qlever
