import Qlever.QueryPlannerRounds

/-! Join ordering for one connected component. Neither way of planning runs out of candidates: as long as a plan does
not unite all nodes, there is a plan that shares a variable with it and with which it can be joined.
-/
namespace Qlever
open List
open Option (bind_eq_bind bind_some)
namespace QueryPlanner
open Library
variable {T : Type} {seeds : List (SubtreePlan T)} {filters : List (SparqlFilter T)} {substitutes : List (FilterAndOptionalSubstitute T)}
  {estimates : Estimates T} {tg : TripleGraph}

section Success

def SharesVariable (a b : SubtreePlan T) : Prop := ∃ name,name ∈ a.qet.variableColumns ∧ name ∈ b.qet.variableColumns

abbrev IsJoined (seeds : List (SubtreePlan T)) (filters : List (SparqlFilter T)) (plan : SubtreePlan T) : Prop := Built ⟨False,False⟩ seeds filters plan

theorem IsJoined.complete {plan : SubtreePlan T} (isJoined : IsJoined seeds filters plan) : plan.qet.IsComplete := Built.complete isJoined id

theorem notIncomplete {tree : QueryExecutionTree T} (complete : tree.IsComplete) : tree.isIncompleteSpatialJoin = false := by
  cases incomplete : tree.isIncompleteSpatialJoin with
  | false => rfl
  | true => exact absurd complete (QueryExecutionTree.not_isComplete incomplete)

theorem createJoinCandidates_eq {a b : SubtreePlan T} (isA : IsJoined seeds filters a) (isB : IsJoined seeds filters b) :
    createJoinCandidates a b (some tg) =
      some (if (connected a b (some tg)).isEmpty then [] else [mergeSubtreePlanIds {qet := .join a.qet b.qet} a b]) := by
  have notSpatial : createSpatialJoin a b (connected a b (some tg)) = some none := by
    unfold createSpatialJoin
    exact if_pos (by rw [notIncomplete isA.complete,notIncomplete isB.complete])
  rw [createJoinCandidates,createJoinCandidatesOn,notSpatial,notIncomplete isA.complete,isA.type,isB.type]
  split
  next => rfl
  next => rfl

theorem merge_succeeds (estimates : Estimates T) (tg : TripleGraph) {rowA rowB : List (SubtreePlan T)} (joinedA : ∀ plan ∈ rowA,IsJoined seeds filters plan)
    (joinedB : ∀ plan ∈ rowB,IsJoined seeds filters plan) : ∃ merged,merge estimates rowA rowB tg = some merged ∧
      ∀ a ∈ rowA,∀ b ∈ rowB,connected a b (some tg) ≠ [] → merged ≠ [] := by
  obtain ⟨plans,created⟩ : ∃ plans,(rowA.product rowB).mapM (fun pair => createJoinCandidates pair.1 pair.2 (some tg)) = some plans := by
    apply mapM_eq_some
    rintro ⟨a,b⟩ member
    obtain ⟨inA,inB⟩ := pair_mem_product.mp member
    exact ⟨_,createJoinCandidates_eq (joinedA a inA) (joinedB b inB)⟩
  have isMerged : merge estimates rowA rowB tg = some ((plans.flatten.map (getPruningKey estimates)).dedup.filterMap (fun key =>
      findCheapestExecutionTree estimates (plans.flatten.filter (fun plan => getPruningKey estimates plan = key)))) := by
    change Option.bind ((rowA.product rowB).mapM (fun pair => createJoinCandidates pair.1 pair.2 (some tg))) _ = _
    rw [created]
    rfl
  refine ⟨_,isMerged,?_⟩
  intro a inA b inB areConnected
  obtain ⟨candidates,isList,isCreated⟩ := exists_of_mem_mapM_left created (pair_mem_product.mpr ⟨inA,inB⟩)
  dsimp only at isCreated
  rw [createJoinCandidates_eq (joinedA a inA) (joinedB b inB),if_neg (by simpa using areConnected)] at isCreated
  rw [← Option.some.inj isCreated] at isList
  have isCandidate := mem_flatten.mpr ⟨_,isList,mem_singleton_self _⟩
  generalize mergeSubtreePlanIds {qet := .join a.qet b.qet} a b = candidate at isCandidate
  have isKey := mem_dedup.mpr (mem_map_of_mem (f := getPruningKey estimates) isCandidate)
  have sameKey : candidate ∈ plans.flatten.filter (fun plan => getPruningKey estimates plan = getPruningKey estimates candidate) := by
    rw [mem_filter]
    exact ⟨isCandidate,decide_eq_true rfl⟩
  cases isCheapest : findCheapestExecutionTree estimates
      (plans.flatten.filter (fun plan => getPruningKey estimates plan = getPruningKey estimates candidate)) with
  | none =>
    rw [findCheapestExecutionTree,argmin_eq_none] at isCheapest
    rw [isCheapest] at sameKey
    cases sameKey
  | some cheapest => exact ne_nil_of_mem (mem_filterMap.mpr ⟨_,isKey,isCheapest⟩)

variable {mode : FilterMode}

theorem applyFilterIfPossible_succeeds {state : SubtreePlan T × List (SubtreePlan T)} {entry : FilterAndOptionalSubstitute T × Nat}
    (noSubstitute : entry.1.substitute = none) : ∃ next,applyFilterIfPossible mode state entry = some next := by
  obtain ⟨plan,addedPlans⟩ := state
  obtain ⟨filterAndSubst,i⟩ := entry
  dsimp only at noSubstitute
  simp only [applyFilterIfPossible,noSubstitute,ite_self]
  split
  next => exact ⟨_,rfl⟩
  next =>
    split
    next =>
      split
      next => exact ⟨_,rfl⟩
      next => exact ⟨_,rfl⟩
    next => exact ⟨_,rfl⟩

theorem applyFiltersIfPossible_succeeds {row : List (SubtreePlan T)} (noSubstitutes : ∀ entry ∈ substitutes,entry.substitute = none) :
    ∃ next,applyFiltersIfPossible mode row substitutes = some next := by
  have each : ∀ (entries : List (FilterAndOptionalSubstitute T × Nat)) state,(∀ entry ∈ entries,entry.1.substitute = none) →
      ∃ next,entries.foldlM (applyFilterIfPossible mode) state = some next := by
    intro entries
    induction entries with
    | nil => exact fun state _ => ⟨state,rfl⟩
    | cons entry entries ih =>
      intro state none
      obtain ⟨middle,isMiddle⟩ : ∃ middle,applyFilterIfPossible mode state entry = some middle :=
        applyFilterIfPossible_succeeds (none entry mem_cons_self)
      obtain ⟨next,isNext⟩ := ih middle (forall_mem_cons.mp none).2
      exact ⟨next,by rw [foldlM_cons,isMiddle]; exact isNext⟩
  obtain ⟨results,applied⟩ : ∃ results,row.mapM (fun plan => substitutes.zipIdx.foldlM (applyFilterIfPossible mode) (plan,[])) = some results := by
    apply mapM_eq_some
    intro plan _
    exact each _ _ (fun entry member => noSubstitutes entry.1 (fst_mem_of_mem_zipIdx member))
  exact ⟨_,by rw [applyFiltersIfPossible,applied]; rfl⟩

end Success
section Component

def IsNode (seeds : List (SubtreePlan T)) (id : Nat) : Prop := ∃ seed ∈ seeds,seed.idsOfIncludedNodes = {id}

def IsChoice (seeds : List (SubtreePlan T)) (choice : Nat → SubtreePlan T) : Prop :=
  ∀ id,IsNode seeds id → choice id ∈ seeds ∧ (choice id).idsOfIncludedNodes = {id}

/-- The seeds form one connected component by shared variables, whichever alternatives are chosen. Triples that share a
variable are adjacent in the triple graph. -/
structure IsComponent (tg : TripleGraph) (seeds : List (SubtreePlan T)) : Prop where
  nonempty : seeds ≠ []
  connected : ∀ choice,IsChoice seeds choice → ∀ i j,IsNode seeds i → IsNode seeds j →
    Relation.ReflTransGen (fun i j => IsNode seeds j ∧ SharesVariable (choice i) (choice j)) i j
  tripleGraph : ∀ a ∈ seeds,∀ b ∈ seeds,SharesVariable a b → ∀ i j,a.idsOfIncludedNodes = {i} → b.idsOfIncludedNodes = {j} → i ≠ j →
    ∀ x y,tg[i]? = some x → tg[j]? = some y → ∃ name,name ∈ x ∧ name ∈ y

theorem exists_crossing {α : Type} {r : α → α → Prop} {p : α → Prop} {x y : α} (path : Relation.ReflTransGen r x y) (inside : p x) (outside : ¬ p y) :
    ∃ a b,p a ∧ ¬ p b ∧ r a b := by
  induction path with
  | refl => exact absurd inside outside
  | tail first last ih =>
    rename_i middle after
    by_cases isInside : p middle
    · exact ⟨middle,after,isInside,outside,last⟩
    · exact ih isInside

theorem getJoinColumns_ne_nil {a b : SubtreePlan T} (share : SharesVariable a b) : getJoinColumns a b ≠ [] := by
  obtain ⟨name,inA,inB⟩ := share
  apply ne_nil_of_mem (a := name)
  rw [getJoinColumns,mem_dedup,mem_filter]
  exact ⟨inA,by simpa using inB⟩

theorem connected_ne_nil {a b : SubtreePlan T} (disjoint : Disjoint a.idsOfIncludedNodes b.idsOfIncludedNodes) (share : SharesVariable a b)
    (adjacent : ∃ i ∈ a.idsOfIncludedNodes,∃ j ∈ b.idsOfIncludedNodes,∀ x y,tg[i]? = some x → tg[j]? = some y → ∃ name,name ∈ x ∧ name ∈ y) :
    connected a b (some tg) ≠ [] := by
  have columns := getJoinColumns_ne_nil share
  rw [connected,if_neg (not_not_intro disjoint)]
  split
  next => exact columns
  next =>
    split
    next => exact columns
    next inside =>
      push Not at inside
      rw [if_pos]
      · exact columns
      · obtain ⟨i,inA,j,inB,isEdge⟩ := adjacent
        have beforeA := inside i (Finset.mem_union_left _ inA)
        have beforeB := inside j (Finset.mem_union_right _ inB)
        obtain ⟨name,isX,isY⟩ := isEdge _ _ (List.getElem?_eq_getElem beforeA) (List.getElem?_eq_getElem beforeB)
        have notA : j ∉ a.idsOfIncludedNodes := fun member => Finset.disjoint_left.mp disjoint member inB
        have different : i ≠ j := fun same => notA (same ▸ inA)
        rw [isAdjacent,any_eq_true]
        refine ⟨(tg[i],i),mem_zipIdx_iff_getElem?.mpr (List.getElem?_eq_getElem beforeA),?_⟩
        rw [Bool.and_eq_true,any_eq_true]
        refine ⟨decide_eq_true inA,(tg[j],j),mem_zipIdx_iff_getElem?.mpr (List.getElem?_eq_getElem beforeB),?_⟩
        simp only [Bool.and_eq_true,decide_eq_true_eq,any_eq_true]
        exact ⟨⟨⟨different,name,isX,isY⟩,notA⟩,inB⟩

theorem IsComponent.exists_partner (isComponent : IsComponent tg seeds) {plans : List (SubtreePlan T)} (joined : ∀ plan ∈ plans,IsJoined seeds filters plan)
    {best : SubtreePlan T} (isBest : IsJoined seeds filters best) (nonempty : best.idsOfIncludedNodes.Nonempty)
    (covers : ∀ id,IsNode seeds id → id ∈ best.idsOfIncludedNodes ∨ ∃ plan ∈ plans,id ∈ plan.idsOfIncludedNodes) {id : Nat} (isNode : IsNode seeds id)
    (outside : id ∉ best.idsOfIncludedNodes) : ∃ plan ∈ plans,(∃ j ∈ plan.idsOfIncludedNodes,j ∉ best.idsOfIncludedNodes) ∧
      (Disjoint plan.idsOfIncludedNodes best.idsOfIncludedNodes → QueryPlanner.connected plan best (some tg) ≠ []) := by
  -- The alternative of a node that is a part of the plan, or of one of the other plans.
  have pick : ∀ i,IsNode seeds i → ∃ seed ∈ seeds,seed.idsOfIncludedNodes = {i} ∧ (i ∈ best.idsOfIncludedNodes → best.qet.Contains seed.qet) ∧
      (i ∉ best.idsOfIncludedNodes → ∃ plan ∈ plans,i ∈ plan.idsOfIncludedNodes ∧ plan.qet.Contains seed.qet) := by
    intro i isNode
    by_cases inside : i ∈ best.idsOfIncludedNodes
    · obtain ⟨seed,isSeed,isId,contains⟩ := isBest.nodes i inside
      exact ⟨seed,isSeed,isId,fun _ => contains,fun notInside => absurd inside notInside⟩
    · obtain ⟨plan,isPlan,member⟩ := (covers i isNode).resolve_left inside
      obtain ⟨seed,isSeed,isId,contains⟩ := (joined plan isPlan).nodes i member
      exact ⟨seed,isSeed,isId,fun isInside => absurd isInside inside,fun _ => ⟨plan,isPlan,member,contains⟩⟩
  have : Nonempty (SubtreePlan T) := ⟨best⟩
  choose! choice isSeed isId inBest inPlan using pick
  obtain ⟨start,inStart⟩ := nonempty
  have startNode : IsNode seeds start := by
    obtain ⟨seed,member,isStart,_⟩ := isBest.nodes start inStart
    exact ⟨seed,member,isStart⟩
  have path := isComponent.connected choice (fun i isNode => ⟨isSeed i isNode,isId i isNode⟩) start id startNode isNode
  obtain ⟨i,j,⟨nodeI,insideI⟩,outsideJ,nodeJ,name,nameI,nameJ⟩ := exists_crossing (p := fun i => IsNode seeds i ∧ i ∈ best.idsOfIncludedNodes) path
    ⟨startNode,inStart⟩ (fun both => outside both.2)
  have notInside : j ∉ best.idsOfIncludedNodes := fun member => outsideJ ⟨nodeJ,member⟩
  obtain ⟨plan,isPlan,member,contains⟩ := inPlan j nodeJ notInside
  refine ⟨plan,isPlan,⟨j,member,notInside⟩,?_⟩
  intro disjoint
  apply connected_ne_nil disjoint
  · exact ⟨name,contains.columns (joined plan isPlan).complete nameJ,(inBest i nodeI insideI).columns isBest.complete nameI⟩
  · refine ⟨j,member,i,insideI,?_⟩
    exact isComponent.tripleGraph _ (isSeed j nodeJ) _ (isSeed i nodeI) ⟨name,nameJ,nameI⟩ j i (isId j nodeJ) (isId i nodeI)
      (fun same => notInside (same ▸ insideI))

end Component

section DynamicProgramming

def HasFirstRow (seeds : List (SubtreePlan T)) (dpTab : List (List (SubtreePlan T))) : Prop :=
  ∃ row,dpTab[0]? = some row ∧ ∀ seed ∈ seeds,∃ plan ∈ row,plan.idsOfIncludedNodes = seed.idsOfIncludedNodes

variable {allowed : Allowed} {dpTab : List (List (SubtreePlan T))} {last filtered : List (SubtreePlan T)}

theorem HasFirstRow.applyFilters (allSeeds : NoneSpatial seeds) (isSeeded : IsSeeded allowed filters substitutes)
    (isTable : IsTable allowed seeds filters dpTab) (hasFirstRow : HasFirstRow seeds dpTab) (isLast : dpTab.getLast? = some last)
    (isFiltered : applyFiltersIfPossible .KeepUnfiltered last substitutes = some filtered) : HasFirstRow seeds (dpTab.dropLast ++ [filtered]) := by
  obtain ⟨row,isRow,covers⟩ := hasFirstRow
  rcases Nat.lt_or_ge 0 dpTab.dropLast.length with several | single
  · refine ⟨row,?_,covers⟩
    rw [List.getElem?_append_left several,List.getElem?_dropLast,if_pos (by rw [length_dropLast] at several; exact several)]
    exact isRow
  · have isOnly : dpTab.length - 1 = 0 := by
      rw [length_dropLast] at single
      omega
    rw [List.getLast?_eq_getElem?,isOnly,isRow] at isLast
    cases isLast
    obtain ⟨_,fromOld⟩ := applyFiltersIfPossible_built allSeeds isSeeded (by decide) (fun plan member => ((isTable 0 last isRow).plans plan member).1) isFiltered
    refine ⟨filtered,?_,?_⟩
    · rw [List.getElem?_append_right single,Nat.zero_sub]
      rfl
    · intro seed isSeed
      obtain ⟨old,isOld,isNode⟩ := covers seed isSeed
      obtain ⟨plan,isPlan,same⟩ := fromOld old isOld
      exact ⟨plan,isPlan,same.trans isNode⟩

variable {ids : Finset (Finset Nat)}

theorem exists_outside (unique : uniqueNodeIds seeds = some ids) (plan : SubtreePlan T)
    (few : plan.idsOfIncludedNodes.card < ids.card) : ∃ id,IsNode seeds id ∧ id ∉ plan.idsOfIncludedNodes := by
  obtain ⟨rfl,single⟩ := uniqueNodeIds_eq unique
  have singles : ∀ id ∈ (seeds.map (·.idsOfIncludedNodes)).toFinset,id.card = 1 := by
    intro id member
    obtain ⟨seed,isSeed,rfl⟩ := List.mem_map.mp (mem_toFinset.mp member)
    exact single seed isSeed
  rw [← card_biUnion_singletons singles] at few
  obtain ⟨id,member,outside⟩ := Finset.exists_mem_notMem_of_card_lt_card few
  obtain ⟨ids,isIds,inIds⟩ := Finset.mem_biUnion.mp member
  obtain ⟨seed,isSeed,rfl⟩ := List.mem_map.mp (mem_toFinset.mp isIds)
  obtain ⟨node,isNode⟩ := Finset.card_eq_one.mp (single seed isSeed)
  change id ∈ seed.idsOfIncludedNodes at inIds
  rw [isNode,Finset.mem_singleton] at inIds
  exact ⟨id,⟨seed,isSeed,by rw [inIds]; exact isNode⟩,outside⟩

theorem nextRow_succeeds
    (estimates : Estimates T) (isComponent : IsComponent tg seeds) (unique : uniqueNodeIds seeds = some ids) {k : Nat}
    {table : List (List (SubtreePlan T))} (isTable : IsTable ⟨False,False⟩ seeds filters table) (hasFirstRow : HasFirstRow seeds table)
    (length : table.length + 1 = k) (few : k ≤ ids.card) :
    ∃ newPlans,(List.range (k / 2)).mapM (fun i => do merge estimates (← table[i]?) (← table[k - i - 2]?) tg) = some newPlans ∧ newPlans.flatten ≠ [] := by
  obtain ⟨first,isFirst,covers⟩ := hasFirstRow
  have hasRow := (List.getElem?_eq_some_iff.mp isFirst).1
  -- The merged rows exist.
  have eachMerged : ∀ i ∈ List.range (k / 2),∃ merged,(do merge estimates (← table[i]?) (← table[k - i - 2]?) tg) = some merged := by
    intro i member
    have small := mem_range.mp member
    have isA : table[i]? = some table[i] := List.getElem?_eq_getElem (by omega)
    have isB : table[k - i - 2]? = some table[k - i - 2] := List.getElem?_eq_getElem (by omega)
    obtain ⟨merged,isMerged,_⟩ := merge_succeeds estimates tg (fun plan member => ((isTable i _ isA).plans plan member).1)
      (fun plan member => ((isTable _ _ isB).plans plan member).1)
    refine ⟨merged,?_⟩
    rw [isA,isB]
    exact isMerged
  obtain ⟨newPlans,isNewPlans⟩ := mapM_eq_some eachMerged
  refine ⟨newPlans,isNewPlans,?_⟩
  have isB : table[k - 2]? = some table[k - 2] := List.getElem?_eq_getElem (by omega)
  have firstRow := isTable 0 first isFirst
  have lastRow := isTable _ _ isB
  obtain ⟨best,isBest⟩ := exists_mem_of_ne_nil _ lastRow.nonempty
  have isCount := (lastRow.plans best isBest).2
  obtain ⟨id,isNode,outside⟩ := exists_outside unique best (by omega)
  obtain ⟨plan,isPlan,⟨j,member,notInside⟩,areConnected⟩ := isComponent.exists_partner (fun plan member => (firstRow.plans plan member).1)
    (lastRow.plans best isBest).1 (Finset.card_pos.mp (by omega)) (fun id isNode => by
      obtain ⟨seed,isSeed,isId⟩ := isNode
      obtain ⟨plan,isPlan,same⟩ := covers seed isSeed
      exact Or.inr ⟨plan,isPlan,by rw [same,isId]; exact Finset.mem_singleton_self id⟩) isNode outside
  have disjoint : Disjoint plan.idsOfIncludedNodes best.idsOfIncludedNodes := by
    obtain ⟨node,isSingle⟩ := Finset.card_eq_one.mp (firstRow.plans plan isPlan).2
    rw [isSingle,Finset.mem_singleton] at member
    rw [isSingle,← member,Finset.disjoint_singleton_left]
    exact notInside
  obtain ⟨merged,isMerged,isNonempty⟩ := merge_succeeds estimates tg (fun plan member => (firstRow.plans plan member).1)
    (fun plan member => (lastRow.plans plan member).1)
  obtain ⟨plans,inNewPlans,isPlans⟩ := exists_of_mem_mapM_left isNewPlans (mem_range.mpr (by omega : 0 < k / 2))
  rw [isFirst,Nat.sub_zero,isB] at isPlans
  rw [Option.some.inj (isPlans.symm.trans isMerged)] at inNewPlans
  obtain ⟨joined,isJoined⟩ := exists_mem_of_ne_nil _ (isNonempty plan isPlan best isBest (areConnected disjoint))
  exact ne_nil_of_mem (mem_flatten.mpr ⟨merged,inNewPlans,isJoined⟩)

section
variable (isComponent : IsComponent tg seeds) (allSeeds : NoneSpatial seeds) (isSeeded : IsSeeded ⟨False,False⟩ filters substitutes)
  {ids : Finset (Finset Nat)} (unique : uniqueNodeIds seeds = some ids)
include isComponent allSeeds isSeeded unique

theorem dynamicProgrammingStep_succeeds {k : Nat}
    (isTable : IsTable ⟨False,False⟩ seeds filters dpTab) (hasFirstRow : HasFirstRow seeds dpTab) (length : dpTab.length + 1 = k) (few : k ≤ ids.card) :
    ∃ next,dynamicProgrammingStep estimates substitutes tg dpTab k = some next ∧ HasFirstRow seeds next := by
  have hasRow : 0 < dpTab.length := by
    obtain ⟨row,isRow,_⟩ := hasFirstRow
    exact (List.getElem?_eq_some_iff.mp isRow).1
  have isLast := List.getLast?_eq_getElem? (l := dpTab)
  rw [List.getElem?_eq_getElem (by omega)] at isLast
  obtain ⟨filtered,isFiltered⟩ := applyFiltersIfPossible_succeeds (isSeeded.noSubstitute id)
  obtain ⟨filteredTable,count⟩ := isTable.applyFilters allSeeds isSeeded isLast isFiltered
  have filteredFirst := hasFirstRow.applyFilters allSeeds isSeeded isTable isLast isFiltered
  obtain ⟨newPlans,isNewPlans,nonempty⟩ := nextRow_succeeds estimates isComponent unique filteredTable filteredFirst (by omega) few
  refine ⟨dpTab.dropLast ++ [filtered] ++ [newPlans.flatten],?_,?_⟩
  · simp only [bind_eq_bind] at isNewPlans
    simp only [dynamicProgrammingStep,isLast,isFiltered,isNewPlans,bind_eq_bind,bind_some,List.isEmpty_iff]
    exact if_neg nonempty
  · obtain ⟨row,isRow,covers⟩ := filteredFirst
    refine ⟨row,?_,covers⟩
    rw [List.getElem?_append_left (List.getElem?_eq_some_iff.mp isRow).1]
    exact isRow
theorem dynamicProgrammingSteps_succeed {count start : Nat}
    (isTable : IsTable ⟨False,False⟩ seeds filters dpTab) (hasFirstRow : HasFirstRow seeds dpTab) (length : dpTab.length + 1 = start)
    (few : start + count ≤ ids.card + 1) :
    ∃ next,(range' start count).foldlM (dynamicProgrammingStep estimates substitutes tg) dpTab = some next ∧ HasFirstRow seeds next := by
  induction count generalizing start dpTab with
  | zero => exact ⟨dpTab,rfl,hasFirstRow⟩
  | succ count ih =>
    obtain ⟨middle,taken,middleFirst⟩ : ∃ middle,dynamicProgrammingStep estimates substitutes tg dpTab start = some middle ∧ HasFirstRow seeds middle :=
      dynamicProgrammingStep_succeeds isComponent allSeeds isSeeded unique isTable hasFirstRow length (by omega)
    obtain ⟨isMiddle,middleLength⟩ := dynamicProgrammingStep_isTable allSeeds isSeeded isTable length taken
    obtain ⟨next,rest,nextFirst⟩ := ih isMiddle middleFirst (by omega : middle.length + 1 = start + 1) (by omega)
    refine ⟨next,?_,nextFirst⟩
    rw [range'_succ,foldlM_cons,taken]
    exact rest

end

theorem uniqueNodeIds_succeeds (single : ∀ seed ∈ seeds,seed.idsOfIncludedNodes.card = 1) :
    uniqueNodeIds seeds = some (seeds.map (·.idsOfIncludedNodes)).toFinset := by
  apply if_pos
  rw [all_eq_true]
  intro seed member
  rw [single seed member]
  rfl

theorem runDynamicProgramming_succeeds (isComponent : IsComponent tg seeds) (isSeed : ∀ seed ∈ seeds,IsSeed ⟨False,False⟩ filters seed)
    (isSeeded : IsSeeded ⟨False,False⟩ filters substitutes) :
    ∃ row,runDynamicProgrammingOnConnectedComponent estimates seeds substitutes tg = some row := by
  have unique : uniqueNodeIds seeds = some (seeds.map (·.idsOfIncludedNodes)).toFinset := by
    apply uniqueNodeIds_succeeds
    intro seed member
    obtain ⟨id,isNode⟩ := (isSeed seed member).nodes
    rw [isNode,Finset.card_singleton]
  have firstRow : HasFirstRow seeds [seeds] := ⟨seeds,rfl,fun seed member => ⟨seed,member,rfl⟩⟩
  have positive : 0 < (seeds.map (·.idsOfIncludedNodes)).toFinset.card := by
    obtain ⟨seed,member⟩ := exists_mem_of_ne_nil seeds isComponent.nonempty
    exact Finset.card_pos.mpr ⟨_,mem_toFinset.mpr (mem_map_of_mem member)⟩
  obtain ⟨dpTab,filled,row,isRow,_⟩ : ∃ dpTab,(range' 2 ((seeds.map (·.idsOfIncludedNodes)).toFinset.card - 1)).foldlM
      (dynamicProgrammingStep estimates substitutes tg) [seeds] = some dpTab ∧ HasFirstRow seeds dpTab :=
    dynamicProgrammingSteps_succeed isComponent (fun seed member => (isSeed seed member).notSpatial) isSeeded unique
      (IsTable.firstRow isSeed isComponent.nonempty) firstRow rfl (by omega)
  have isLast := List.getLast?_eq_getElem? (l := dpTab)
  have hasRow := (List.getElem?_eq_some_iff.mp isRow).1
  rw [List.getElem?_eq_getElem (by omega)] at isLast
  obtain ⟨filtered,isFiltered⟩ := applyFiltersIfPossible_succeeds (isSeeded.noSubstitute id)
  refine ⟨filtered,?_⟩
  simp only [runDynamicProgrammingOnConnectedComponent,unique,filled,isLast,bind_eq_bind,bind_some]
  exact isFiltered

end DynamicProgramming
section Greedy
variable {state : GreedyState T}

theorem GreedyInv.exists_partner (isComponent : IsComponent tg seeds) (inv : GreedyInv ⟨False,False⟩ seeds filters state) (several : 1 < state.blocks.card)
    {best : SubtreePlan T} (isBest : best ∈ state.allPlans) :
    ∃ plan ∈ state.allPlans,Disjoint plan.idsOfIncludedNodes best.idsOfIncludedNodes ∧ connected plan best (some tg) ≠ [] := by
  obtain ⟨block,isBlock,different⟩ := Finset.exists_mem_ne several best.idsOfIncludedNodes
  obtain ⟨other,isOther,rfl⟩ := List.mem_map.mp (mem_toFinset.mp isBlock)
  have apart := (inv.disjoint other isOther best isBest).resolve_left different
  obtain ⟨id,member⟩ := inv.nonempty other isOther
  obtain ⟨seed,isSeed,isNode,_⟩ := (inv.built other isOther).nodes id member
  have covers : ∀ id,IsNode seeds id → id ∈ best.idsOfIncludedNodes ∨ ∃ plan ∈ state.allPlans,id ∈ plan.idsOfIncludedNodes := by
    rintro id ⟨seed,isSeed,isNode⟩
    obtain ⟨plan,isPlan,subset⟩ := inv.covers seed isSeed
    refine Or.inr ⟨plan,isPlan,subset ?_⟩
    rw [isNode]
    exact Finset.mem_singleton_self id
  obtain ⟨plan,isPlan,⟨j,inPlan,notInside⟩,areConnected⟩ := isComponent.exists_partner inv.built (inv.built best isBest) (inv.nonempty best isBest) covers
    ⟨seed,isSeed,isNode⟩ (Finset.disjoint_left.mp apart member)
  have disjoint : Disjoint plan.idsOfIncludedNodes best.idsOfIncludedNodes := by
    rcases inv.disjoint plan isPlan best isBest with same | disjoint
    · rw [same] at inPlan
      exact absurd inPlan notInside
    · exact disjoint
  exact ⟨plan,isPlan,disjoint,areConnected disjoint⟩

theorem mergeWithNextBestPlan_succeeds (estimates : Estimates T) (isComponent : IsComponent tg seeds) (inv : GreedyInv ⟨False,False⟩ seeds filters state)
    (several : 1 < state.blocks.card) : ∃ merged,mergeWithNextBestPlan estimates tg state = some merged ∧ merged ≠ [] := by
  have isCurrent : ∀ plan ∈ state.currentPlans,IsJoined seeds filters plan := fun plan member => inv.built plan (mem_append_left _ member)
  cases isNext : state.nextBestPlan with
  | none =>
    have same : state.allPlans = state.currentPlans := by rw [GreedyState.allPlans,isNext,Option.toList_none,append_nil]
    obtain ⟨block,isBlock⟩ := Finset.card_pos.mp (Nat.zero_lt_of_lt several)
    obtain ⟨best,isBest,_⟩ := List.mem_map.mp (mem_toFinset.mp isBlock)
    obtain ⟨plan,isPlan,_,areConnected⟩ := inv.exists_partner isComponent several isBest
    rw [same] at isBest isPlan
    obtain ⟨merged,isMerged,nonempty⟩ := merge_succeeds estimates tg isCurrent isCurrent
    refine ⟨merged,?_,nonempty plan isPlan best isBest areConnected⟩
    simp only [mergeWithNextBestPlan,isNext]
    exact isMerged
  | some best =>
    have isBest : best ∈ state.allPlans := mem_append_right _ (by rw [isNext]; exact mem_singleton_self best)
    obtain ⟨plan,isPlan,disjoint,areConnected⟩ := inv.exists_partner isComponent several isBest
    have inCurrent : plan ∈ state.currentPlans := by
      rcases mem_append.mp isPlan with isOld | isSame
      · exact isOld
      · rw [isNext,Option.toList_some,mem_singleton] at isSame
        rw [isSame] at disjoint
        exact absurd (Finset.disjoint_self_iff_empty _ |>.mp disjoint) (inv.nonempty best isBest).ne_empty
    have onlyBest : ∀ plan ∈ [best],IsJoined seeds filters plan := by
      intro plan member
      rw [mem_singleton.mp member]
      exact inv.built best isBest
    obtain ⟨merged,isMerged,nonempty⟩ := merge_succeeds estimates tg isCurrent onlyBest
    refine ⟨merged,?_,nonempty plan inCurrent best (mem_singleton_self best) areConnected⟩
    simp only [mergeWithNextBestPlan,isNext]
    exact isMerged

theorem findSmallestExecutionTree_succeeds {plans : List (SubtreePlan T)} (nonempty : plans ≠ []) :
    ∃ i plan,findSmallestExecutionTree estimates plans = some i ∧ plans[i]? = some plan := by
  cases isSmallest : findSmallestExecutionTree estimates plans with
  | none =>
    rw [findSmallestExecutionTree,argmin_eq_none,range_eq_nil,length_eq_zero_iff] at isSmallest
    exact absurd isSmallest nonempty
  | some i =>
    have inside := mem_range.mp (argmin_mem isSmallest)
    exact ⟨i,plans[i],rfl,List.getElem?_eq_getElem inside⟩

theorem applyFiltersIfPossible_ne_nil {mode : FilterMode} {row next : List (SubtreePlan T)} (nonempty : row ≠ [])
    (applied : applyFiltersIfPossible mode row substitutes = some next) : next ≠ [] := by
  simp only [applyFiltersIfPossible,bind_eq_bind,Option.bind_eq_some_iff] at applied
  obtain ⟨results,isResults,applied⟩ := applied
  cases applied
  obtain ⟨plan,member⟩ := exists_mem_of_ne_nil row nonempty
  obtain ⟨result,isResult,_⟩ := exists_of_mem_mapM_left isResults member
  exact ne_nil_of_mem (mem_append_left _ (mem_map_of_mem isResult))

theorem greedyStep_succeeds (isComponent : IsComponent tg seeds) (isSeeded : IsSeeded ⟨False,False⟩ filters substitutes)
    (inv : GreedyInv ⟨False,False⟩ seeds filters state) (several : 1 < state.blocks.card) (isLastStep : Bool) :
    ∃ next,greedyStep estimates substitutes tg isLastStep state = some next := by
  obtain ⟨merged,isMerged,nonempty⟩ := mergeWithNextBestPlan_succeeds estimates isComponent inv several
  obtain ⟨newPlans,applied⟩ : ∃ newPlans,
      applyFiltersIfPossible (if isLastStep then .ReplaceUnfilteredNoSubstitutes else .ReplaceUnfiltered) merged substitutes = some newPlans :=
    applyFiltersIfPossible_succeeds (isSeeded.noSubstitute id)
  have hasNew := applyFiltersIfPossible_ne_nil nonempty applied
  obtain ⟨i,plan,isSmallest,isPlan⟩ : ∃ i plan,findSmallestExecutionTree estimates (state.cache ++ newPlans) = some i ∧
      (state.cache ++ newPlans)[i]? = some plan :=
    findSmallestExecutionTree_succeeds (append_ne_nil_of_right_ne_nil _ hasNew)
  simp only [greedyStep,isMerged,applied,isSmallest,isPlan,bind_eq_bind,bind_some,List.isEmpty_iff,hasNew,if_false]
  exact ⟨_,rfl⟩

def IsFiltered (filters : List (SparqlFilter T)) (plan : SubtreePlan T) : Prop :=
  ∀ i filter,filters[i]? = some filter → (∀ name ∈ filter.containedVariables,name ∈ plan.qet.variableColumns) → i ∈ plan.idsOfIncludedFilters

structure FilteredState (filters : List (SparqlFilter T)) (state : GreedyState T) : Prop where
  cache : ∀ plan ∈ state.cache,IsFiltered filters plan
  next : ∀ plan ∈ state.nextBestPlan,IsFiltered filters plan

theorem greedyStep_filtered (allSeeds : NoneSpatial seeds) (isSeeded : IsSeeded ⟨False,False⟩ filters substitutes) {isLastStep : Bool}
    {next : GreedyState T} (inv : GreedyInv ⟨False,False⟩ seeds filters state) (filtered : FilteredState filters state)
    (taken : greedyStep estimates substitutes tg isLastStep state = some next) : FilteredState filters next := by
  obtain ⟨merged,newPlans,best,cache,isMerged,applied,inCache,remaining,rfl⟩ := greedyStep_cases taken
  have mergedPlans := greedyStep_newPlans allSeeds inv isMerged
  have appliesCovered : (if isLastStep then FilterMode.ReplaceUnfilteredNoSubstitutes else .ReplaceUnfiltered).AppliesCovered ⟨False,False⟩ := by
    cases isLastStep with
    | false => exact Or.inr ⟨rfl,id⟩
    | true => exact Or.inl rfl
  have newFiltered := applyFiltersIfPossible_all allSeeds isSeeded appliesCovered (fun plan member => (mergedPlans plan member).1) applied
  have all : ∀ plan ∈ state.cache ++ newPlans,IsFiltered filters plan := by
    intro plan member
    rcases mem_append.mp member with isOld | isNew
    · exact filtered.cache plan isOld
    · exact newFiltered plan isNew
  constructor
  · intro plan member
    exact all plan (remaining plan (mem_of_mem_filter member))
  · intro plan member
    cases member
    exact all best inCache

theorem greedySteps_succeed (isComponent : IsComponent tg seeds) (allSeeds : NoneSpatial seeds)
    (isSeeded : IsSeeded ⟨False,False⟩ filters substitutes) {isLast : Nat → Bool} {steps : List Nat} (inv : GreedyInv ⟨False,False⟩ seeds filters state)
    (filtered : FilteredState filters state) (few : steps.length < state.blocks.card) :
    ∃ next,steps.foldlM (fun state i => greedyStep estimates substitutes tg (isLast i) state) state = some next ∧ FilteredState filters next := by
  induction steps generalizing state with
  | nil => exact ⟨state,rfl,filtered⟩
  | cons i steps ih =>
    rw [length_cons] at few
    obtain ⟨middle,taken⟩ : ∃ middle,greedyStep estimates substitutes tg (isLast i) state = some middle :=
      greedyStep_succeeds isComponent isSeeded inv (by omega) (isLast i)
    obtain ⟨isMiddle,count,_⟩ := greedyStep_inv allSeeds isSeeded inv taken
    obtain ⟨next,rest,isFiltered⟩ := ih isMiddle (greedyStep_filtered allSeeds isSeeded inv filtered taken) (by omega)
    refine ⟨next,?_,isFiltered⟩
    rw [foldlM_cons,taken]
    exact rest

theorem runGreedyPlanning_succeeds (isComponent : IsComponent tg seeds) (isSeed : ∀ seed ∈ seeds,IsSeed ⟨False,False⟩ filters seed)
    (isSeeded : IsSeeded ⟨False,False⟩ filters substitutes) :
    ∃ row,runGreedyPlanningOnConnectedComponent estimates seeds substitutes tg = some row ∧ ∀ plan ∈ row,IsFiltered filters plan := by
  have allSeeds : NoneSpatial seeds := fun seed member => (isSeed seed member).notSpatial
  obtain ⟨plans,applied⟩ : ∃ plans,applyFiltersIfPossible .ReplaceUnfiltered seeds substitutes = some plans :=
    applyFiltersIfPossible_succeeds (isSeeded.noSubstitute id)
  have built : ∀ seed ∈ seeds,IsJoined seeds filters seed := fun seed member => (isSeed seed member).built member
  obtain ⟨fromOld,fromNew⟩ := applyFiltersIfPossible_built allSeeds isSeeded (by decide) built applied
  have unique : uniqueNodeIds plans = some (plans.map (·.idsOfIncludedNodes)).toFinset := by
    apply uniqueNodeIds_succeeds
    intro plan member
    obtain ⟨_,old,isOld,same⟩ := fromOld plan member
    obtain ⟨id,isNode⟩ := (isSeed old isOld).nodes
    rw [same,isNode,Finset.card_singleton]
  obtain ⟨inv,isBlocks⟩ := GreedyInv.initial unique (fun plan member => (fromOld plan member).1) fromNew
  have filtered := applyFiltersIfPossible_all allSeeds isSeeded (Or.inr ⟨rfl,id⟩) built applied
  simp only [runGreedyPlanningOnConnectedComponent,applied,unique,bind_eq_bind,bind_some]
  split
  next => exact ⟨plans,rfl,filtered⟩
  next several =>
    obtain ⟨state,taken,isFiltered⟩ : ∃ state,(List.range ((plans.map (·.idsOfIncludedNodes)).toFinset.card - 1)).foldlM (fun state i =>
        greedyStep estimates substitutes tg (i == (plans.map (·.idsOfIncludedNodes)).toFinset.card - 2) state) {currentPlans := plans} = some state ∧
          FilteredState filters state := by
      apply greedySteps_succeed isComponent allSeeds isSeeded inv
      · exact ⟨by simp,by simp⟩
      · rw [isBlocks,length_range]
        omega
    refine ⟨state.nextBestPlan.toList,by rw [taken]; rfl,?_⟩
    intro plan member
    exact isFiltered.next plan (Option.mem_toList.mp member)

end Greedy

section JoinOrder

structure IsFreshSeed (seed : SubtreePlan T) : Prop where
  type : seed.type = .BASIC
  notSpatial : seed.qet.isSpatial = false
  nodes : ∃ id,seed.idsOfIncludedNodes = {id}
  bits : seed.idsOfIncludedFilters = ∅
  complete : seed.qet.IsComplete

/-- The plans of the row are join trees with exactly one seed of each node, and every filter whose variables the seeds
cover is applied. -/
structure IsJoinOrder (seeds : List (SubtreePlan T)) (filters : List (FilterAndOptionalSubstitute T)) (row : List (SubtreePlan T)) : Prop where
  nonempty : row ≠ []
  plans : ∀ plan ∈ row,∃ leaves,IsJoinTree seeds plan leaves ∧ (∀ seed ∈ seeds,∃ leaf ∈ leaves,leaf.idsOfIncludedNodes = seed.idsOfIncludedNodes) ∧
    ∀ entry ∈ filters,(∀ name ∈ entry.filter.containedVariables,∃ leaf ∈ leaves,name ∈ leaf.qet.variableColumns) → plan.qet.Applies entry.filter

theorem IsFreshSeed.isSeed {seed : SubtreePlan T} (isFresh : IsFreshSeed seed) : IsSeed ⟨False,False⟩ filters seed where
  type := isFresh.type
  notSpatial := isFresh.notSpatial
  nodes := isFresh.nodes
  bits := by simp [isFresh.bits]
  complete _ := isFresh.complete

theorem Leaves.contains {tree : QueryExecutionTree T} {leaves : List (SubtreePlan T)} (isTree : Leaves seeds tree leaves) :
    ∀ leaf ∈ leaves,leaf ∈ seeds ∧ tree.Contains leaf.qet := by
  induction isTree with
  | seed member =>
    intro leaf isLeaf
    rw [mem_singleton.mp isLeaf]
    exact ⟨member,.refl _⟩
  | filter filter _ ih =>
    intro leaf isLeaf
    exact ⟨(ih leaf isLeaf).1,.filter filter (ih leaf isLeaf).2⟩
  | join _ _ ihLeft ihRight =>
    intro leaf isLeaf
    rcases mem_append.mp isLeaf with inLeft | inRight
    · exact ⟨(ihLeft leaf inLeft).1,.joinLeft _ (ihLeft leaf inLeft).2⟩
    · exact ⟨(ihRight leaf inRight).1,.joinRight _ (ihRight leaf inRight).2⟩

theorem CoversAll.isJoinOrder (allFresh : ∀ seed ∈ seeds,IsFreshSeed seed) {row : List (SubtreePlan T)}
    (coversAll : CoversAll ⟨False,False⟩ seeds (substitutes.map (·.filter)) row) (filtered : ∀ plan ∈ row,IsFiltered (substitutes.map (·.filter)) plan) :
    IsJoinOrder seeds substitutes row := by
  refine ⟨coversAll.nonempty,?_⟩
  intro plan member
  have built := coversAll.built plan member
  obtain ⟨leaves,isJoinTree⟩ := built.leaves id id
  refine ⟨leaves,isJoinTree,?_,?_⟩
  · intro seed isSeed
    obtain ⟨id,isNode⟩ := (allFresh seed isSeed).nodes
    have inPlan : id ∈ plan.idsOfIncludedNodes := coversAll.covers plan member seed isSeed (by rw [isNode]; exact Finset.mem_singleton_self id)
    obtain ⟨leaf,isLeaf,inLeaf⟩ := (isJoinTree.nodes id).mp inPlan
    refine ⟨leaf,isLeaf,?_⟩
    obtain ⟨other,isOther⟩ := (allFresh leaf (isJoinTree.tree.contains leaf isLeaf).1).nodes
    rw [isOther,Finset.mem_singleton] at inLeaf
    rw [isOther,isNode,inLeaf]
  · intro entry isEntry covered
    obtain ⟨i,isPosition⟩ := mem_iff_getElem?.mp isEntry
    have isFilter : (substitutes.map (·.filter))[i]? = some entry.filter := by
      rw [List.getElem?_map,isPosition]
      rfl
    apply built.bits i _ entry.filter isFilter
    apply filtered plan member i entry.filter isFilter
    intro name isName
    obtain ⟨leaf,isLeaf,isColumn⟩ := covered name isName
    exact (isJoinTree.tree.contains leaf isLeaf).2.columns (IsJoined.complete built) isColumn

def zeroEstimates (T : Type) : Estimates T := {
  costEstimate := fun _ => 0
  sizeEstimate := fun _ => 0
  resultSortedOn := fun _ => []
  useGreedyPlanning := fun _ _ => false
  geoFuncCall := fun _ => none}

/-- Two alternatives for `?x <1> ?y`, and one for `?y <2> ?z`. -/
def twoTriples : List (SubtreePlan Nat) := [
  {qet := .indexScan .PSO {s := .var "x",p := .term 1,o := .var "y"} [],idsOfIncludedNodes := {0}},
  {qet := .indexScan .POS {s := .var "x",p := .term 1,o := .var "y"} [],idsOfIncludedNodes := {0}},
  {qet := .indexScan .PSO {s := .var "y",p := .term 2,o := .var "z"} [],idsOfIncludedNodes := {1}}]

end JoinOrder
end QueryPlanner
end Qlever
