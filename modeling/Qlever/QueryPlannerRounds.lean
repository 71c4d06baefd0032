import Qlever.QueryPlannerPlans

/-! One round of optimization. Both ways of planning return plans that contain a seed of every node, and in the end
every filter whose variables are covered is applied.
-/
namespace Qlever
open List
open Option (bind_eq_bind bind_eq_some_iff)
namespace QueryPlanner
open Library
variable {T : Type} {allowed : Allowed} {seeds : List (SubtreePlan T)} {filters : List (SparqlFilter T)} {substitutes : List (FilterAndOptionalSubstitute T)}
  {estimates : Estimates T} {tg : TripleGraph}

structure CoversAll (allowed : Allowed) (seeds : List (SubtreePlan T)) (filters : List (SparqlFilter T)) (row : List (SubtreePlan T)) : Prop where
  nonempty : row ≠ []
  built : ∀ plan ∈ row,Built allowed seeds filters plan
  covers : ∀ plan ∈ row,∀ seed ∈ seeds,seed.idsOfIncludedNodes ⊆ plan.idsOfIncludedNodes

section NodeIds

section
variable {ids : Finset (Finset Nat)}

theorem uniqueNodeIds_eq (unique : uniqueNodeIds seeds = some ids) :
    ids = (seeds.map (·.idsOfIncludedNodes)).toFinset ∧ ∀ seed ∈ seeds,seed.idsOfIncludedNodes.card = 1 := by
  unfold uniqueNodeIds at unique
  split at unique
  next single =>
    cases unique
    refine ⟨rfl,?_⟩
    intro seed member
    have one := all_eq_true.mp single seed member
    simpa using one
  next => cases unique

theorem card_biUnion_singletons (single : ∀ id ∈ ids,id.card = 1) : (ids.biUnion id).card = ids.card := by
  rw [Finset.card_biUnion]
  · change ∑ node ∈ ids,node.card = ids.card
    rw [Finset.sum_congr rfl single,← Finset.card_eq_sum_ones]
  · intro x isX y isY different
    obtain ⟨a,rfl⟩ := Finset.card_eq_one.mp (single x isX)
    obtain ⟨b,rfl⟩ := Finset.card_eq_one.mp (single y isY)
    change Disjoint ({a} : Finset Nat) {b}
    rw [Finset.disjoint_singleton]
    intro same
    exact different (by rw [same])

theorem covers_of_card (unique : uniqueNodeIds seeds = some ids) {plan : SubtreePlan T} (built : Built allowed seeds filters plan)
    (all : plan.idsOfIncludedNodes.card = ids.card) : ∀ seed ∈ seeds,seed.idsOfIncludedNodes ⊆ plan.idsOfIncludedNodes := by
  obtain ⟨rfl,single⟩ := uniqueNodeIds_eq unique
  have subset : plan.idsOfIncludedNodes ⊆ (seeds.map (·.idsOfIncludedNodes)).toFinset.biUnion id := by
    intro node member
    obtain ⟨seed,isSeed,isNode,_⟩ := built.nodes node member
    rw [Finset.mem_biUnion]
    exact ⟨seed.idsOfIncludedNodes,mem_toFinset.mpr (mem_map_of_mem isSeed),by rw [isNode]; exact Finset.mem_singleton_self node⟩
  have singles : ∀ id ∈ (seeds.map (·.idsOfIncludedNodes)).toFinset,id.card = 1 := by
    intro id member
    obtain ⟨seed,isSeed,rfl⟩ := List.mem_map.mp (mem_toFinset.mp member)
    exact single seed isSeed
  have whole := Finset.eq_of_subset_of_card_le subset (by rw [card_biUnion_singletons singles,all])
  intro seed isSeed
  rw [whole]
  exact Finset.subset_biUnion_of_mem id (mem_toFinset.mpr (mem_map_of_mem isSeed))

end

end NodeIds

section DynamicProgramming

structure IsRow (allowed : Allowed) (seeds : List (SubtreePlan T)) (filters : List (SparqlFilter T)) (k : Nat) (row : List (SubtreePlan T)) : Prop where
  nonempty : row ≠ []
  plans : ∀ plan ∈ row,Built allowed seeds filters plan ∧ plan.idsOfIncludedNodes.card = k

theorem IsRow.applyFilters (allSeeds : NoneSpatial seeds) (isSeeded : IsSeeded allowed filters substitutes) {k : Nat}
    {mode : FilterMode} (notAll : mode ≠ .ApplyAllFiltersAndReplaceUnfiltered) {row next : List (SubtreePlan T)} (isRow : IsRow allowed seeds filters k row)
    (taken : applyFiltersIfPossible mode row substitutes = some next) : IsRow allowed seeds filters k next := by
  obtain ⟨fromOld,fromNew⟩ := applyFiltersIfPossible_built allSeeds isSeeded notAll (fun plan member => (isRow.plans plan member).1) taken
  constructor
  · obtain ⟨old,isOld⟩ := exists_mem_of_ne_nil row isRow.nonempty
    obtain ⟨plan,member,_⟩ := fromNew old isOld
    exact ne_nil_of_mem member
  · intro plan member
    obtain ⟨built,old,isOld,isNodes⟩ := fromOld plan member
    exact ⟨built,by rw [isNodes]; exact (isRow.plans old isOld).2⟩

def IsTable (allowed : Allowed) (seeds : List (SubtreePlan T)) (filters : List (SparqlFilter T)) (dpTab : List (List (SubtreePlan T))) : Prop :=
  ∀ i row,dpTab[i]? = some row → IsRow allowed seeds filters (i + 1) row

section
variable (allSeeds : NoneSpatial seeds) (isSeeded : IsSeeded allowed filters substitutes)
include allSeeds isSeeded

variable {dpTab : List (List (SubtreePlan T))}

theorem IsTable.applyFilters {last filtered : List (SubtreePlan T)} (isTable : IsTable allowed seeds filters dpTab)
    (isLast : dpTab.getLast? = some last) (isFiltered : applyFiltersIfPossible .KeepUnfiltered last substitutes = some filtered) :
    IsTable allowed seeds filters (dpTab.dropLast ++ [filtered]) ∧ (dpTab.dropLast ++ [filtered]).length = dpTab.length := by
  have hasRow : dpTab ≠ [] := by
    intro empty
    rw [empty] at isLast
    cases isLast
  have count : (dpTab.dropLast ++ [filtered]).length = dpTab.length := by
    rw [length_append,List.length_dropLast,length_singleton]
    have positive := length_pos_iff.mpr hasRow
    omega
  refine ⟨?_,count⟩
  intro i row isRow
  rcases Nat.lt_or_ge i dpTab.dropLast.length with earlier | later
  · rw [List.getElem?_append_left earlier,List.getElem?_dropLast,if_pos (by rw [List.length_dropLast] at earlier; exact earlier)] at isRow
    exact isTable i row isRow
  · have position : i = dpTab.length - 1 := by
      have inside := (List.getElem?_eq_some_iff.mp isRow).1
      rw [count] at inside
      rw [List.length_dropLast] at later
      omega
    rw [List.getElem?_append_right later,List.getElem?_singleton] at isRow
    split at isRow
    next =>
      cases isRow
      rw [getLast?_eq_getElem?,← position] at isLast
      exact (isTable i last isLast).applyFilters allSeeds isSeeded (by decide) isFiltered
    next => cases isRow

theorem dynamicProgrammingStep_isTable
    {next : List (List (SubtreePlan T))} {k : Nat} (isTable : IsTable allowed seeds filters dpTab) (length : dpTab.length + 1 = k)
    (taken : dynamicProgrammingStep estimates substitutes tg dpTab k = some next) : IsTable allowed seeds filters next ∧ next.length = k := by
  simp only [dynamicProgrammingStep,bind_eq_bind,bind_eq_some_iff] at taken
  obtain ⟨last,isLast,filtered,isFiltered,newPlans,merged,taken⟩ := taken
  split at taken
  next => cases taken
  next nonempty =>
    cases taken
    obtain ⟨filteredTable,count⟩ := isTable.applyFilters allSeeds isSeeded isLast isFiltered
    refine ⟨?_,by rw [length_append,count,length_singleton,length]⟩
    intro i row isRow
    rcases Nat.lt_or_ge i (dpTab.dropLast ++ [filtered]).length with earlier | later
    · rw [List.getElem?_append_left earlier] at isRow
      exact filteredTable i row isRow
    · rw [List.getElem?_append_right later,List.getElem?_singleton] at isRow
      split at isRow
      next isNew =>
        cases isRow
        refine ⟨fun empty => nonempty (by rw [empty]; rfl),?_⟩
        intro plan member
        obtain ⟨plans,isList,isMember⟩ := mem_flatten.mp member
        obtain ⟨j,isIndex,isMerged⟩ := exists_of_mem_mapM merged isList
        simp only [bind_eq_some_iff] at isMerged
        obtain ⟨rowA,isRowA,rowB,isRowB,isMerged⟩ := isMerged
        have plansA := filteredTable j rowA isRowA
        have plansB := filteredTable (k - j - 2) rowB isRowB
        obtain ⟨a,inA,b,inB,⟨built,isNodes,_⟩,disjoint⟩ := merge_built estimates allSeeds (fun plan member => (plansA.plans plan member).1)
          (fun plan member => (plansB.plans plan member).1) isMerged plan isMember
        refine ⟨built,?_⟩
        have small := mem_range.mp isIndex
        rw [isNodes,Finset.card_union_of_disjoint disjoint,(plansA.plans a inA).2,(plansB.plans b inB).2]
        omega
      next => cases isRow

theorem dynamicProgrammingSteps_isTable
    {count start : Nat} {next : List (List (SubtreePlan T))} (isTable : IsTable allowed seeds filters dpTab) (length : dpTab.length + 1 = start)
    (filled : (range' start count).foldlM (dynamicProgrammingStep estimates substitutes tg) dpTab = some next) :
    IsTable allowed seeds filters next ∧ next.length = dpTab.length + count := by
  induction count generalizing start dpTab with
  | zero =>
    cases filled
    exact ⟨isTable,rfl⟩
  | succ count ih =>
    rw [range'_succ,foldlM_cons,bind_eq_bind,bind_eq_some_iff] at filled
    obtain ⟨middle,first,rest⟩ := filled
    obtain ⟨isMiddle,middleLength⟩ := dynamicProgrammingStep_isTable allSeeds isSeeded isTable length first
    obtain ⟨isNext,nextLength⟩ := ih isMiddle (by omega) rest
    exact ⟨isNext,by omega⟩

end

section
variable (isSeed : ∀ seed ∈ seeds,IsSeed allowed filters seed)
include isSeed

theorem IsTable.firstRow (hasSeed : seeds ≠ []) : IsTable allowed seeds filters [seeds] := by
  intro i row isRow
  rw [List.getElem?_singleton] at isRow
  split at isRow
  next isFirst =>
    cases isRow
    refine ⟨hasSeed,fun seed member => ⟨(isSeed seed member).built member,?_⟩⟩
    obtain ⟨id,isNode⟩ := (isSeed seed member).nodes
    rw [isNode,isFirst]
    rfl
  next => cases isRow

section
variable (isSeeded : IsSeeded allowed filters substitutes) (hasSeed : seeds ≠ []) {row : List (SubtreePlan T)}
  (done : runDynamicProgrammingOnConnectedComponent estimates seeds substitutes tg = some row)
include isSeeded hasSeed done

theorem runDynamicProgramming_lastRow :
    ∃ ids last,uniqueNodeIds seeds = some ids ∧ IsRow allowed seeds filters ids.card last ∧
      applyFiltersIfPossible .ReplaceUnfilteredNoSubstitutes last substitutes = some row := by
  have allSeeds : NoneSpatial seeds := fun seed member => (isSeed seed member).notSpatial
  simp only [runDynamicProgrammingOnConnectedComponent,bind_eq_bind,bind_eq_some_iff] at done
  obtain ⟨ids,unique,dpTab,filled,last,isLast,isRow⟩ := done
  obtain ⟨isTable,length⟩ := dynamicProgrammingSteps_isTable allSeeds isSeeded (IsTable.firstRow isSeed hasSeed) rfl filled
  have positive : 0 < ids.card := by
    obtain ⟨seed,member⟩ := exists_mem_of_ne_nil seeds hasSeed
    rw [(uniqueNodeIds_eq unique).1]
    exact Finset.card_pos.mpr ⟨_,mem_toFinset.mpr (mem_map_of_mem member)⟩
  rw [getLast?_eq_getElem?] at isLast
  have lastRow := isTable _ last isLast
  have isCount : dpTab.length - 1 + 1 = ids.card := by
    rw [length,length_singleton]
    omega
  rw [isCount] at lastRow
  exact ⟨ids,last,unique,lastRow,isRow⟩

theorem runDynamicProgramming_coversAll :
    CoversAll allowed seeds filters row := by
  obtain ⟨ids,last,unique,isRow,applied⟩ := runDynamicProgramming_lastRow isSeed isSeeded hasSeed done
  have lastRow := isRow.applyFilters (fun seed member => (isSeed seed member).notSpatial) isSeeded (by decide) applied
  exact ⟨lastRow.nonempty,fun plan member => (lastRow.plans plan member).1,
    fun plan member => covers_of_card unique (lastRow.plans plan member).1 (lastRow.plans plan member).2⟩

end

end

end DynamicProgramming
section Greedy

def GreedyState.allPlans (state : GreedyState T) : List (SubtreePlan T) := state.currentPlans ++ state.nextBestPlan.toList

def GreedyState.blocks (state : GreedyState T) : Finset (Finset Nat) := (state.allPlans.map (·.idsOfIncludedNodes)).toFinset

/-- The plans unite the nodes in disjoint blocks, and a plan of the cache unites two of these blocks. -/
structure GreedyInv (allowed : Allowed) (seeds : List (SubtreePlan T)) (filters : List (SparqlFilter T)) (state : GreedyState T) : Prop where
  built : ∀ plan ∈ state.allPlans,Built allowed seeds filters plan
  nonempty : ∀ plan ∈ state.allPlans,plan.idsOfIncludedNodes.Nonempty
  disjoint : ∀ p ∈ state.allPlans,∀ q ∈ state.allPlans,p.idsOfIncludedNodes = q.idsOfIncludedNodes ∨ Disjoint p.idsOfIncludedNodes q.idsOfIncludedNodes
  next : ∀ plan ∈ state.nextBestPlan,∀ p ∈ state.currentPlans,Disjoint plan.idsOfIncludedNodes p.idsOfIncludedNodes
  cache : ∀ plan ∈ state.cache,Built allowed seeds filters plan ∧ ∃ p ∈ state.allPlans,∃ q ∈ state.allPlans,
    Disjoint p.idsOfIncludedNodes q.idsOfIncludedNodes ∧ plan.idsOfIncludedNodes = p.idsOfIncludedNodes ∪ q.idsOfIncludedNodes
  covers : ∀ seed ∈ seeds,∃ p ∈ state.allPlans,seed.idsOfIncludedNodes ⊆ p.idsOfIncludedNodes

variable {state : GreedyState T}

def Unites (allowed : Allowed) (seeds : List (SubtreePlan T)) (filters : List (SparqlFilter T)) (state : GreedyState T) (plan : SubtreePlan T) : Prop :=
  Built allowed seeds filters plan ∧ ∃ p ∈ state.allPlans,∃ q ∈ state.allPlans,
    Disjoint p.idsOfIncludedNodes q.idsOfIncludedNodes ∧ plan.idsOfIncludedNodes = p.idsOfIncludedNodes ∪ q.idsOfIncludedNodes

abbrev GreedyState.chosen (state : GreedyState T) (best : SubtreePlan T) (cache : List (SubtreePlan T)) : GreedyState T where
  currentPlans := state.allPlans.filter (fun plan => Disjoint best.idsOfIncludedNodes plan.idsOfIncludedNodes)
  cache := cache.filter (fun plan => Disjoint best.idsOfIncludedNodes plan.idsOfIncludedNodes)
  nextBestPlan := some best

theorem greedyStep_newPlans (allSeeds : NoneSpatial seeds) (inv : GreedyInv allowed seeds filters state)
    {newPlans : List (SubtreePlan T)} (merged : mergeWithNextBestPlan estimates tg state = some newPlans) :
    ∀ plan ∈ newPlans,Unites allowed seeds filters state plan := by
  have inCurrent : ∀ plan ∈ state.currentPlans,plan ∈ state.allPlans := fun plan member => mem_append_left _ member
  intro plan member
  cases isNext : state.nextBestPlan with
  | none =>
    simp only [mergeWithNextBestPlan,isNext] at merged
    obtain ⟨a,inA,b,inB,⟨built,isNodes,_⟩,disjoint⟩ := merge_built estimates allSeeds (fun plan member => inv.built plan (inCurrent plan member))
      (fun plan member => inv.built plan (inCurrent plan member)) merged plan member
    exact ⟨built,a,inCurrent a inA,b,inCurrent b inB,disjoint,isNodes⟩
  | some nextBestPlan =>
    simp only [mergeWithNextBestPlan,isNext] at merged
    have isPlan : nextBestPlan ∈ state.allPlans := mem_append_right _ (by rw [isNext]; exact mem_singleton_self _)
    obtain ⟨a,inA,b,inB,⟨built,isNodes,_⟩,disjoint⟩ := merge_built estimates allSeeds (fun plan member => inv.built plan (inCurrent plan member))
      (fun plan member => by rw [mem_singleton.mp member]; exact inv.built _ isPlan) merged plan member
    rw [mem_singleton.mp inB] at disjoint isNodes
    exact ⟨built,a,inCurrent a inA,nextBestPlan,isPlan,disjoint,isNodes⟩

theorem GreedyInv.choose (inv : GreedyInv allowed seeds filters state) {best : SubtreePlan T} {cache : List (SubtreePlan T)}
    (isBest : Unites allowed seeds filters state best) (isCache : ∀ plan ∈ cache,Unites allowed seeds filters state plan)
    {next : GreedyState T} (isNext : next = state.chosen best cache) :
    GreedyInv allowed seeds filters next ∧ next.blocks.card + 1 = state.blocks.card := by
  subst isNext
  obtain ⟨bestBuilt,p,inP,q,inQ,disjoint,isNodes⟩ := isBest
  have kept : ∀ plan ∈ state.allPlans.filter (fun plan => Disjoint best.idsOfIncludedNodes plan.idsOfIncludedNodes),
      plan ∈ state.allPlans ∧ Disjoint best.idsOfIncludedNodes plan.idsOfIncludedNodes := by
    intro plan member
    obtain ⟨isPlan,isDisjoint⟩ := mem_filter.mp member
    exact ⟨isPlan,by simpa using isDisjoint⟩
  have bestNonempty : best.idsOfIncludedNodes.Nonempty := by
    rw [isNodes]
    exact (inv.nonempty p inP).mono Finset.subset_union_left
  -- A plan overlaps with the chosen one only if its block is one of the two.
  have overlaps : ∀ plan ∈ state.allPlans,Disjoint best.idsOfIncludedNodes plan.idsOfIncludedNodes ∨
      plan.idsOfIncludedNodes = p.idsOfIncludedNodes ∨ plan.idsOfIncludedNodes = q.idsOfIncludedNodes := by
    intro plan isPlan
    rcases inv.disjoint plan isPlan p inP with same | apartP
    · exact Or.inr (Or.inl same)
    · rcases inv.disjoint plan isPlan q inQ with same | apartQ
      · exact Or.inr (Or.inr same)
      · rw [isNodes,Finset.disjoint_union_left]
        exact Or.inl ⟨apartP.symm,apartQ.symm⟩
  have notApartP : ¬ Disjoint best.idsOfIncludedNodes p.idsOfIncludedNodes := by
    intro apart
    rw [isNodes,Finset.disjoint_union_left] at apart
    exact (inv.nonempty p inP).ne_empty (Finset.disjoint_self_iff_empty _ |>.mp apart.1)
  have notApartQ : ¬ Disjoint best.idsOfIncludedNodes q.idsOfIncludedNodes := by
    intro apart
    rw [isNodes,Finset.disjoint_union_left] at apart
    exact (inv.nonempty q inQ).ne_empty (Finset.disjoint_self_iff_empty _ |>.mp apart.2)
  constructor
  · constructor
    · intro plan member
      rcases mem_append.mp member with isOld | isBest
      · exact inv.built plan (kept plan isOld).1
      · rw [mem_singleton.mp isBest]
        exact bestBuilt
    · intro plan member
      rcases mem_append.mp member with isOld | isBest
      · exact inv.nonempty plan (kept plan isOld).1
      · rw [mem_singleton.mp isBest]
        exact bestNonempty
    · intro a inA b inB
      rcases mem_append.mp inA with isOldA | isBestA
      · rcases mem_append.mp inB with isOldB | isBestB
        · exact inv.disjoint a (kept a isOldA).1 b (kept b isOldB).1
        · rw [mem_singleton.mp isBestB]
          exact Or.inr (kept a isOldA).2.symm
      · rw [mem_singleton.mp isBestA]
        rcases mem_append.mp inB with isOldB | isBestB
        · exact Or.inr (kept b isOldB).2
        · rw [mem_singleton.mp isBestB]
          exact Or.inl rfl
    · intro plan member other isOther
      cases member
      exact (kept other isOther).2
    · intro plan member
      obtain ⟨isPlan,apart⟩ := mem_filter.mp member
      obtain ⟨built,a,inA,b,inB,disjointAB,isUnion⟩ := isCache plan isPlan
      have apart' : Disjoint best.idsOfIncludedNodes (a.idsOfIncludedNodes ∪ b.idsOfIncludedNodes) := by
        rw [← isUnion]
        simpa using apart
      rw [Finset.disjoint_union_right] at apart'
      refine ⟨built,a,mem_append_left _ (mem_filter.mpr ⟨inA,?_⟩),b,mem_append_left _ (mem_filter.mpr ⟨inB,?_⟩),disjointAB,isUnion⟩
      · simpa using apart'.1
      · simpa using apart'.2
    · intro seed isSeed
      obtain ⟨plan,isPlan,subset⟩ := inv.covers seed isSeed
      rcases overlaps plan isPlan with apart | same | same
      · exact ⟨plan,mem_append_left _ (mem_filter.mpr ⟨isPlan,by simpa using apart⟩),subset⟩
      · refine ⟨best,mem_append_right _ (mem_singleton_self best),?_⟩
        rw [isNodes]
        exact (same ▸ subset).trans Finset.subset_union_left
      · refine ⟨best,mem_append_right _ (mem_singleton_self best),?_⟩
        rw [isNodes]
        exact (same ▸ subset).trans Finset.subset_union_right
  · have isP : p.idsOfIncludedNodes ∈ state.blocks := mem_toFinset.mpr (mem_map_of_mem inP)
    have isQ : q.idsOfIncludedNodes ∈ state.blocks := mem_toFinset.mpr (mem_map_of_mem inQ)
    have different : q.idsOfIncludedNodes ≠ p.idsOfIncludedNodes := by
      intro same
      rw [same] at disjoint
      exact (inv.nonempty p inP).ne_empty (Finset.disjoint_self_iff_empty _ |>.mp disjoint)
    have isBlocks : (state.chosen best cache).blocks = insert best.idsOfIncludedNodes ((state.blocks.erase p.idsOfIncludedNodes).erase q.idsOfIncludedNodes) := by
      ext block
      simp only [GreedyState.blocks,GreedyState.allPlans,mem_toFinset,List.mem_map,Finset.mem_insert,Finset.mem_erase]
      constructor
      · rintro ⟨plan,member,rfl⟩
        rcases mem_append.mp member with isOld | isBest
        · obtain ⟨isPlan,apart⟩ := kept plan isOld
          refine Or.inr ⟨?_,?_,plan,isPlan,rfl⟩
          · intro same
            exact notApartQ (same ▸ apart)
          · intro same
            exact notApartP (same ▸ apart)
        · rw [mem_singleton.mp isBest]
          exact Or.inl rfl
      · rintro (rfl | ⟨notQ,notP,plan,isPlan,rfl⟩)
        · exact ⟨best,mem_append_right _ (mem_singleton_self best),rfl⟩
        · have apart := (overlaps plan isPlan).resolve_right (by simp [notP,notQ])
          exact ⟨plan,mem_append_left _ (mem_filter.mpr ⟨isPlan,by simpa using apart⟩),rfl⟩
    have isNew : best.idsOfIncludedNodes ∉ (state.blocks.erase p.idsOfIncludedNodes).erase q.idsOfIncludedNodes := by
      intro member
      simp only [Finset.mem_erase,GreedyState.blocks,mem_toFinset,List.mem_map] at member
      obtain ⟨notQ,notP,plan,isPlan,same⟩ := member
      have apart := (overlaps plan isPlan).resolve_right (by simp [same,notP,notQ])
      rw [same] at apart
      exact bestNonempty.ne_empty (Finset.disjoint_self_iff_empty _ |>.mp apart)
    rw [isBlocks,Finset.card_insert_of_notMem isNew,Finset.card_erase_of_mem (Finset.mem_erase.mpr ⟨different,isQ⟩),Finset.card_erase_of_mem isP]
    have two : 1 < state.blocks.card := Finset.one_lt_card.mpr ⟨_,isQ,_,isP,different⟩
    omega

theorem greedyStep_cases {isLastStep : Bool} {next : GreedyState T} (taken : greedyStep estimates substitutes tg isLastStep state = some next) :
    ∃ merged newPlans best,∃ cache : List (SubtreePlan T),mergeWithNextBestPlan estimates tg state = some merged ∧
      applyFiltersIfPossible (if isLastStep then .ReplaceUnfilteredNoSubstitutes else .ReplaceUnfiltered) merged substitutes = some newPlans ∧
      best ∈ state.cache ++ newPlans ∧ (∀ plan ∈ cache,plan ∈ state.cache ++ newPlans) ∧ next = state.chosen best cache := by
  simp only [greedyStep,bind_eq_bind,bind_eq_some_iff] at taken
  obtain ⟨merged,isMerged,newPlans,applied,taken⟩ := taken
  split at taken
  next => cases taken
  next =>
    simp only [bind_eq_some_iff] at taken
    obtain ⟨smallestIdxNew,_,best,isTree,taken⟩ := taken
    have inCache := mem_of_getElem? isTree
    refine ⟨merged,newPlans,best,((state.cache ++ newPlans).set smallestIdxNew ((state.cache ++ newPlans).getLastD best)).dropLast,
      isMerged,applied,inCache,?_,(Option.some.inj taken).symm⟩
    intro plan member
    rcases mem_or_eq_of_mem_set (dropLast_subset _ member) with isOld | rfl
    · exact isOld
    · rw [getLastD_eq_getLast?]
      cases isLast : (state.cache ++ newPlans).getLast? with
      | none => exact inCache
      | some last => exact mem_of_getLast? isLast

section
variable (allSeeds : NoneSpatial seeds) (isSeeded : IsSeeded allowed filters substitutes)
include allSeeds isSeeded

theorem greedyStep_inv {isLastStep : Bool}
    {state next : GreedyState T} (inv : GreedyInv allowed seeds filters state) (taken : greedyStep estimates substitutes tg isLastStep state = some next) :
    GreedyInv allowed seeds filters next ∧ next.blocks.card + 1 = state.blocks.card ∧ next.nextBestPlan.isSome = true := by
  obtain ⟨merged,newPlans,best,cache,isMerged,applied,inCache,remaining,isNext⟩ := greedyStep_cases taken
  have mergedPlans := greedyStep_newPlans allSeeds inv isMerged
  have notAll : (if isLastStep = true then FilterMode.ReplaceUnfilteredNoSubstitutes else .ReplaceUnfiltered) ≠ .ApplyAllFiltersAndReplaceUnfiltered := by
    cases isLastStep <;> decide
  obtain ⟨fromOld,_⟩ := applyFiltersIfPossible_built allSeeds isSeeded notAll (fun plan member => (mergedPlans plan member).1) applied
  have isCache : ∀ plan ∈ state.cache ++ newPlans,Unites allowed seeds filters state plan := by
    intro plan member
    rcases mem_append.mp member with isOld | isNew
    · exact inv.cache plan isOld
    · obtain ⟨built,old,isOld,isNodes⟩ := fromOld plan isNew
      obtain ⟨_,p,inP,q,inQ,disjoint,isUnion⟩ := mergedPlans old isOld
      exact ⟨built,p,inP,q,inQ,disjoint,isNodes.trans isUnion⟩
  obtain ⟨isInv,count⟩ := inv.choose (isCache best inCache) (fun plan member => isCache plan (remaining plan member)) isNext
  refine ⟨isInv,count,?_⟩
  rw [isNext]
  rfl

theorem greedySteps_inv {isLast : Nat → Bool}
    {steps : List Nat} {state next : GreedyState T} (inv : GreedyInv allowed seeds filters state)
    (taken : steps.foldlM (fun state i => greedyStep estimates substitutes tg (isLast i) state) state = some next) :
    GreedyInv allowed seeds filters next ∧ next.blocks.card + steps.length = state.blocks.card ∧ (steps ≠ [] → next.nextBestPlan.isSome = true) := by
  induction steps generalizing state with
  | nil =>
    cases taken
    exact ⟨inv,rfl,fun nonempty => absurd rfl nonempty⟩
  | cons i steps ih =>
    rw [foldlM_cons,bind_eq_bind,bind_eq_some_iff] at taken
    obtain ⟨middle,first,rest⟩ := taken
    obtain ⟨isMiddle,middleCount,hasNext⟩ := greedyStep_inv allSeeds isSeeded inv first
    obtain ⟨isNext,count,restHasNext⟩ := ih isMiddle rest
    refine ⟨isNext,by rw [length_cons]; omega,?_⟩
    intro _
    cases steps with
    | nil =>
      cases rest
      exact hasNext
    | cons => exact restHasNext (cons_ne_nil _ _)

end

theorem GreedyInv.initial {plans : List (SubtreePlan T)} {ids : Finset (Finset Nat)} (unique : uniqueNodeIds plans = some ids)
    (built : ∀ plan ∈ plans,Built allowed seeds filters plan) (covers : ∀ seed ∈ seeds,∃ plan ∈ plans,plan.idsOfIncludedNodes = seed.idsOfIncludedNodes) :
    GreedyInv allowed seeds filters {currentPlans := plans} ∧ GreedyState.blocks {currentPlans := plans} = ids := by
  obtain ⟨isIds,single⟩ := uniqueNodeIds_eq unique
  have same : GreedyState.allPlans {currentPlans := plans} = plans := append_nil plans
  refine ⟨?_,by rw [GreedyState.blocks,same,isIds]⟩
  constructor
  · rw [same]
    exact built
  · rw [same]
    intro plan member
    exact Finset.card_pos.mp (by rw [single plan member]; exact Nat.one_pos)
  · rw [same]
    intro p inP q inQ
    obtain ⟨a,isA⟩ := Finset.card_eq_one.mp (single p inP)
    obtain ⟨b,isB⟩ := Finset.card_eq_one.mp (single q inQ)
    rw [isA,isB,Finset.disjoint_singleton]
    by_cases equal : a = b
    · exact Or.inl (by rw [equal])
    · exact Or.inr equal
  · intro plan member
    cases member
  · intro plan member
    cases member
  · rw [same]
    intro seed isSeed
    obtain ⟨plan,member,isNodes⟩ := covers seed isSeed
    exact ⟨plan,member,isNodes.ge⟩

theorem GreedyInv.coversAll (inv : GreedyInv allowed seeds filters state) (one : state.blocks.card ≤ 1) {plan : SubtreePlan T}
    (member : plan ∈ state.allPlans) : ∀ seed ∈ seeds,seed.idsOfIncludedNodes ⊆ plan.idsOfIncludedNodes := by
  intro seed isSeed
  obtain ⟨other,isOther,subset⟩ := inv.covers seed isSeed
  have same := Finset.card_le_one.mp one other.idsOfIncludedNodes (mem_toFinset.mpr (mem_map_of_mem isOther))
    plan.idsOfIncludedNodes (mem_toFinset.mpr (mem_map_of_mem member))
  rw [← same]
  exact subset

theorem runGreedyPlanning_coversAll
    (isSeed : ∀ seed ∈ seeds,IsSeed allowed filters seed) (isSeeded : IsSeeded allowed filters substitutes) (hasSeed : seeds ≠ [])
    {row : List (SubtreePlan T)} (done : runGreedyPlanningOnConnectedComponent estimates seeds substitutes tg = some row) :
    CoversAll allowed seeds filters row := by
  have allSeeds : NoneSpatial seeds := fun seed member => (isSeed seed member).notSpatial
  simp only [runGreedyPlanningOnConnectedComponent,bind_eq_bind,bind_eq_some_iff] at done
  obtain ⟨plans,applied,ids,unique,done⟩ := done
  obtain ⟨fromOld,fromNew⟩ := applyFiltersIfPossible_built allSeeds isSeeded (by decide) (fun seed member => (isSeed seed member).built member) applied
  obtain ⟨inv,isBlocks⟩ := GreedyInv.initial unique (fun plan member => (fromOld plan member).1) fromNew
  split at done
  next few =>
    cases done
    refine ⟨?_,fun plan member => (fromOld plan member).1,fun plan member => inv.coversAll (by rw [isBlocks]; exact few) (mem_append_left _ member)⟩
    obtain ⟨seed,member⟩ := exists_mem_of_ne_nil seeds hasSeed
    obtain ⟨plan,isPlan,_⟩ := fromNew seed member
    exact ne_nil_of_mem isPlan
  next many =>
    rw [bind_eq_some_iff] at done
    obtain ⟨state,taken,done⟩ := done
    obtain ⟨isInv,count,hasNext⟩ := greedySteps_inv allSeeds isSeeded inv taken
    rw [isBlocks,length_range] at count
    cases isNext : state.nextBestPlan with
    | none =>
      rw [isNext] at hasNext
      refine absurd (hasNext ?_) (by simp)
      rw [Ne,range_eq_nil]
      omega
    | some best =>
      rw [isNext] at done
      cases done
      have isPlan : best ∈ state.allPlans := mem_append_right _ (by rw [isNext]; exact mem_singleton_self best)
      refine ⟨cons_ne_nil _ _,?_,?_⟩
      · intro plan member
        rw [mem_singleton.mp member]
        exact isInv.built best isPlan
      · intro plan member
        rw [mem_singleton.mp member]
        exact isInv.coversAll (by omega) isPlan

end Greedy

section Components

structure IsPartition (plans : List (SubtreePlan T)) (components : List (List (SubtreePlan T))) : Prop where
  nonempty : ∀ component ∈ components,component ≠ []
  same : ∀ plan,plan ∈ components.flatten ↔ plan ∈ plans

theorem computeConnectedComponents_isPartition (plans : List (SubtreePlan T)) : IsPartition plans (computeConnectedComponents substitutes plans) := by
  induction plans using reverseRecOn with
  | nil => exact ⟨by simp [computeConnectedComponents],by simp [computeConnectedComponents]⟩
  | append_singleton plans plan ih =>
    have isLast : computeConnectedComponents substitutes (plans ++ [plan]) =
        ((computeConnectedComponents substitutes plans).partition (fun component => component.any (areAdjacent substitutes plan))).2 ++
          [((computeConnectedComponents substitutes plans).partition (fun component => component.any (areAdjacent substitutes plan))).1.flatten ++
            [plan]] := by
      rw [computeConnectedComponents,foldl_append]
      rfl
    rw [isLast,partition_eq_filter_filter]
    constructor
    · intro component member
      rcases mem_append.mp member with isFar | isNew
      · exact ih.nonempty component (mem_of_mem_filter isFar)
      · rw [mem_singleton.mp isNew]
        exact append_ne_nil_of_right_ne_nil _ (cons_ne_nil _ _)
    · intro other
      rw [mem_append,← ih.same other]
      simp only [flatten_append,flatten_cons,flatten_nil,append_nil,mem_append,mem_flatten,mem_filter,
        Function.comp_apply,mem_singleton]
      constructor
      · rintro (⟨component,⟨isComponent,_⟩,member⟩ | ⟨component,⟨isComponent,_⟩,member⟩ | isNew)
        · exact Or.inl ⟨component,isComponent,member⟩
        · exact Or.inl ⟨component,isComponent,member⟩
        · exact Or.inr isNew
      · rintro (⟨component,isComponent,member⟩ | isNew)
        · by_cases near : component.any (areAdjacent substitutes plan) = true
          · exact Or.inr (Or.inl ⟨component,⟨isComponent,near⟩,member⟩)
          · exact Or.inl ⟨component,⟨isComponent,by simpa using near⟩,member⟩
        · exact Or.inr (Or.inr isNew)

variable {first : SubtreePlan T} {plans : List (SubtreePlan T)}

theorem makeCartesianProduct_built
    (isAllowed : allowed.products) (allSeeds : NoneSpatial seeds)     (firstBuilt : Built allowed seeds filters first) (built : ∀ plan ∈ plans,Built allowed seeds filters plan) :
    Built allowed seeds filters (makeCartesianProduct first plans) ∧
      ∀ plan ∈ first::plans,plan.idsOfIncludedNodes ⊆ (makeCartesianProduct first plans).idsOfIncludedNodes := by
  induction plans generalizing first with
  | nil => exact ⟨firstBuilt,by simp [makeCartesianProduct]⟩
  | cons plan plans ih =>
    have both : Built allowed seeds filters (mergeSubtreePlanIds {qet := .cartesianProductJoin first.qet plan.qet} first plan) :=
      Built.combine allSeeds firstBuilt (built plan mem_cons_self) trivial (fun _ _ contains => .productLeft _ contains)
        (fun _ _ contains => .productRight _ contains) (fun _ holds => Or.inl holds) (fun _ holds => Or.inr holds)
        (fun _ member => mem_append.mp member) (by simp [QueryExecutionTree.isSpatial]) And.intro
        (fun _ noProducts => absurd isAllowed noProducts)
    obtain ⟨restBuilt,subset⟩ := ih both (forall_mem_cons.mp built).2
    refine ⟨restBuilt,?_⟩
    have firstSubset := subset _ mem_cons_self
    intro other member
    rcases mem_cons.mp member with rfl | later
    · exact Finset.subset_union_left.trans firstSubset
    · rcases mem_cons.mp later with rfl | later
      · exact Finset.subset_union_right.trans firstSubset
      · exact subset other (mem_cons_of_mem _ later)

/-- The last row of a round. Its plans contain a seed of every node, and every filter whose variables are covered is applied. -/
structure IsLastRow (allowed : Allowed) (seeds : List (SubtreePlan T)) (filters : List (SparqlFilter T)) (row : List (SubtreePlan T)) : Prop where
  nonempty : seeds ≠ [] → row ≠ []
  built : ∀ plan ∈ row,Built allowed seeds filters plan
  covers : ∀ plan ∈ row,∀ seed ∈ seeds,seed.idsOfIncludedNodes ⊆ plan.idsOfIncludedNodes
  filtered : ∀ plan ∈ row,∀ i filter,filters[i]? = some filter → (∀ name ∈ filter.containedVariables,name ∈ plan.qet.variableColumns) →
    i ∈ plan.idsOfIncludedFilters

variable {row : List (SubtreePlan T)}

theorem CoversAll.isLastRow (allSeeds : NoneSpatial seeds) (isSeeded : IsSeeded allowed filters substitutes)
    {next : List (SubtreePlan T)} (coversAll : CoversAll allowed seeds filters row)
    (taken : applyFiltersIfPossible .ReplaceUnfilteredNoSubstitutes row substitutes = some next) : IsLastRow allowed seeds filters next := by
  obtain ⟨fromOld,fromNew⟩ := applyFiltersIfPossible_built allSeeds isSeeded (by decide) coversAll.built taken
  constructor
  · intro _
    obtain ⟨old,isOld⟩ := exists_mem_of_ne_nil row coversAll.nonempty
    obtain ⟨plan,member,_⟩ := fromNew old isOld
    exact ne_nil_of_mem member
  · exact fun plan member => (fromOld plan member).1
  · intro plan member seed isSeed
    obtain ⟨_,old,isOld,isNodes⟩ := fromOld plan member
    rw [isNodes]
    exact coversAll.covers old isOld seed isSeed
  · exact applyFiltersIfPossible_all allSeeds isSeeded (Or.inl rfl) coversAll.built taken

theorem CoversAll.mono {component : List (SubtreePlan T)} (coversAll : CoversAll allowed component filters row)
    (same : ∀ seed,seed ∈ component ↔ seed ∈ seeds) : CoversAll allowed seeds filters row where
  nonempty := coversAll.nonempty
  built plan member := (coversAll.built plan member).mono (fun seed => (same seed).mp)
  covers plan member seed isSeed := coversAll.covers plan member seed ((same seed).mpr isSeed)

theorem makeCartesianProduct_coversAll
    (isAllowed : allowed.products) (allSeeds : NoneSpatial seeds) {components rows : List (List (SubtreePlan T))}
    (isPartition : IsPartition seeds components) (coverRows : List.Forall₂ (fun component row => CoversAll allowed component filters row) components rows)
    (chosen : rows.mapM (findCheapestExecutionTree estimates) = some (first::plans)) :
    CoversAll allowed seeds filters [makeCartesianProduct first plans] := by
  have fromRow : ∀ plan ∈ first::plans,Built allowed seeds filters plan := by
    intro plan member
    obtain ⟨row,isRow,isCheapest⟩ := exists_of_mem_mapM chosen member
    obtain ⟨component,isComponent,coversAll⟩ := Library.exists_left coverRows isRow
    refine (coversAll.built plan (argmin_mem isCheapest)).mono ?_
    intro seed isSeed
    exact (isPartition.same seed).mp (mem_flatten.mpr ⟨component,isComponent,isSeed⟩)
  obtain ⟨built,subset⟩ := makeCartesianProduct_built isAllowed allSeeds (fromRow first mem_cons_self)
    (forall_mem_cons.mp fromRow).2
  refine ⟨cons_ne_nil _ _,?_,?_⟩
  · intro plan member
    rw [mem_singleton.mp member]
    exact built
  · intro plan member seed isSeed
    rw [mem_singleton.mp member]
    obtain ⟨component,isComponent,inComponent⟩ := mem_flatten.mp ((isPartition.same seed).mpr isSeed)
    obtain ⟨row,isRow,coversAll⟩ := Library.exists_left coverRows.flip isComponent
    obtain ⟨best,isBest,isCheapest⟩ := exists_of_mem_mapM_left chosen isRow
    exact (coversAll.covers best (argmin_mem isCheapest) seed inComponent).trans (subset best isBest)

theorem planComponent_coversAll (isSeed : ∀ seed ∈ seeds,IsSeed allowed filters seed) (isSeeded : IsSeeded allowed filters substitutes) (hasSeed : seeds ≠ [])
    {greedy : Bool}
    (done : (if greedy = true then runGreedyPlanningOnConnectedComponent estimates seeds substitutes tg
      else runDynamicProgrammingOnConnectedComponent estimates seeds substitutes tg) = some row) : CoversAll allowed seeds filters row := by
  split at done
  next => exact runGreedyPlanning_coversAll isSeed isSeeded hasSeed done
  next => exact runDynamicProgramming_coversAll isSeed isSeeded hasSeed done

variable {activeGraphVariable : Option Variable} {triples : List (SparqlTriple T)} {children : List (List (SubtreePlan T))}
  {internalVarCount internalVarCount' : Nat} {row initialPlans : List (SubtreePlan T)}

theorem fillDpTab_seeded (done : fillDpTab estimates activeGraphVariable triples filters children internalVarCount = some (row,internalVarCount')) :
    ∃ initialPlans seeds,seedWithScansAndText activeGraphVariable triples children internalVarCount = some (initialPlans,seeds) ∧
      internalVarCount' = seeds.internalVarCount := by
  simp only [fillDpTab,bind_eq_bind,bind_eq_some_iff] at done
  obtain ⟨tg,_,⟨initialPlans,seeds⟩,seeded,substitutes,_,done⟩ := done
  refine ⟨initialPlans,seeds,seeded,?_⟩
  split at done
  next => cases done
  next =>
    simp only [bind_eq_some_iff] at done
    obtain ⟨rows,_,done⟩ := done
    split at done
    next =>
      cases done
      rfl
    next =>
      obtain ⟨filtered,_,done⟩ := Option.bind_eq_some_iff.mp done
      cases done
      rfl
    next =>
      obtain ⟨chosen,_,done⟩ := Option.bind_eq_some_iff.mp done
      cases chosen with
      | nil => cases done
      | cons first plans =>
        obtain ⟨filtered,_,done⟩ := Option.bind_eq_some_iff.mp done
        cases done
        rfl

theorem fillDpTab_isLastRow (isAllowed : allowed.products) {seeds : Seeds T}
    (seeded : seedWithScansAndText activeGraphVariable triples children internalVarCount = some (initialPlans,seeds))
    (isGeo : ∀ filter ∈ filters ++ seeds.filters,rewriteFilterToSpatialJoinConfig estimates filter ≠ some none → allowed.substitutes)
    (isSeed : ∀ seed ∈ initialPlans,IsSeed allowed (filters ++ seeds.filters) seed)
    (done : fillDpTab estimates activeGraphVariable triples filters children internalVarCount = some (row,internalVarCount')) :
    IsLastRow allowed initialPlans (filters ++ seeds.filters) row := by
  simp only [fillDpTab,seeded,bind_eq_bind,Option.bind_some,bind_eq_some_iff] at done
  obtain ⟨tg,_,substitutes,isSubstitutes,done⟩ := done
  have isSeeded := seedFilterSubstitutes_isSeeded isGeo isSubstitutes
  have noSpatial : NoneSpatial initialPlans := fun seed member => (isSeed seed member).notSpatial
  split at done
  next => cases done
  next =>
    simp only [bind_eq_some_iff] at done
    obtain ⟨rows,planned,done⟩ := done
    have isPartition : IsPartition initialPlans (computeConnectedComponents substitutes initialPlans) := computeConnectedComponents_isPartition initialPlans
    have coverRows : List.Forall₂ (fun component row => CoversAll allowed component (filters ++ seeds.filters) row)
        (computeConnectedComponents substitutes initialPlans) rows := by
      obtain ⟨sameLength,single⟩ := forall₂_iff_zip.mp (forall₂_of_mapM planned)
      refine forall₂_iff_zip.mpr ⟨sameLength,?_⟩
      intro component row member
      have isComponent := (of_mem_zip member).1
      refine planComponent_coversAll ?_ isSeeded (isPartition.nonempty component isComponent) (single member)
      intro seed inComponent
      exact isSeed seed ((isPartition.same seed).mp (mem_flatten.mpr ⟨component,isComponent,inComponent⟩))
    split at done
    next =>
      cases done
      have noComponents := forall₂_nil_right_iff.mp coverRows
      refine ⟨?_,by simp,by simp,by simp⟩
      intro hasSeed
      obtain ⟨seed,member⟩ := exists_mem_of_ne_nil initialPlans hasSeed
      have inComponent := (isPartition.same seed).mpr member
      rw [noComponents] at inComponent
      cases inComponent
    next onlyRow =>
      obtain ⟨filtered,isFiltered,done⟩ := Option.bind_eq_some_iff.mp done
      cases done
      obtain ⟨component,rest,coversAll,noRest,isComponents⟩ := forall₂_cons_right_iff.mp coverRows
      rw [forall₂_nil_right_iff.mp noRest] at isComponents
      refine (coversAll.mono ?_).isLastRow noSpatial isSeeded isFiltered
      intro seed
      rw [← isPartition.same seed,isComponents]
      simp
    next =>
      obtain ⟨chosen,isChosen,done⟩ := Option.bind_eq_some_iff.mp done
      cases chosen with
      | nil => cases done
      | cons first plans =>
        obtain ⟨filtered,isFiltered,done⟩ := Option.bind_eq_some_iff.mp done
        cases done
        exact (makeCartesianProduct_coversAll isAllowed noSpatial isPartition coverRows isChosen).isLastRow noSpatial isSeeded isFiltered

end Components
end QueryPlanner
end Qlever
