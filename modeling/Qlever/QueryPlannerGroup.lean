import Qlever.QueryPlannerComponents
import Qlever.QueryPlannerSeeds

/-! The rounds of optimization of one group. A set filter bit is carried from one round to the next, but the list of
filters is not: to that of the next round, the filters of negated paths are added, and the equality filters of the
earlier round are replaced by new ones. If no carried bit is at the position of such a filter, then no filter is lost.
-/
namespace Qlever
open List Option
namespace QueryPlanner
open Library
variable {T : Type} {estimates : Estimates T} {activeGraphVariable : Option Variable} {filters : List (SparqlFilter T)}

def HasGeo (estimates : Estimates T) (filters : List (SparqlFilter T)) : Prop :=
  ∃ filter ∈ filters,rewriteFilterToSpatialJoinConfig estimates filter ≠ some none

structure IsPlanned (geo : Prop) (filters : List (SparqlFilter T)) (plan : SubtreePlan T) : Prop where
  type : plan.type = .BASIC
  substituted : plan.qet.isSpatial = true → plan.idsOfIncludedFilters.Nonempty
  bits : ∀ i ∈ plan.idsOfIncludedFilters,∀ filter,filters[i]? = some filter → plan.qet.Applies filter
  equalities : plan.qet.IsComplete → ∀ filter ∈ plan.qet.equalities,plan.qet.Applies filter
  complete : ¬ geo → plan.qet.IsComplete

/-- A candidate plan at the beginning of a round. Its bits say something only if it is from an earlier round. A spatial
join is not a seed, because it has set bits. -/
structure IsCarried (geo : Prop) (filters : List (SparqlFilter T)) (numOptimizedFilters : Nat) (plan : SubtreePlan T) : Prop where
  type : plan.type = .BASIC
  substituted : plan.qet.isSpatial = true → plan.idsOfIncludedFilters.Nonempty
  bits : plan.qet.isBindOptionalJoinOrMinus = true → ∀ i ∈ plan.idsOfIncludedFilters,i < numOptimizedFilters →
    ∀ filter,filters[i]? = some filter → plan.qet.Applies filter
  equalities : plan.qet.isSpatial = false → plan.qet.IsComplete → ∀ filter ∈ plan.qet.equalities,plan.qet.Applies filter
  complete : plan.qet.isSpatial = false → ¬ geo → plan.qet.IsComplete

def IsFilterList (filters all : List (SparqlFilter T)) : Prop :=
  ∃ pathFilters,all = filters ++ pathFilters ∧ ∀ filter ∈ pathFilters,∃ negated,filter = .notEqual negated

/-- The state between two parts of the group. The filters of negated paths are applied in an earlier plan, or their
variables are those of a triple that has not been planned yet. -/
structure GroupInv (estimates : Estimates T) (filters : List (SparqlFilter T)) (s : GraphPatternPlanner T) : Prop where
  isFilterList : IsFilterList filters s.filters
  optimized : s.numOptimizedFilters ≤ s.filters.length
  carried : ∀ row ∈ s.candidatePlans,∀ plan ∈ row,IsCarried (HasGeo estimates filters) s.filters s.numOptimizedFilters plan
  applied : ∀ i filter,filters.length ≤ i → i < s.numOptimizedFilters → s.filters[i]? = some filter →
    ∃ row ∈ s.candidatePlans,row ≠ [] ∧ ∀ plan ∈ row,plan.qet.isSpatial = false → plan.qet.IsComplete → plan.qet.Applies filter
  pending : ∀ i filter,filters.length ≤ i → s.numOptimizedFilters ≤ i → s.filters[i]? = some filter →
    ∃ triple ∈ s.candidateTriples,∀ name ∈ filter.containedVariables,name ∈ triple.variableNames

/-- No carried plan has the bit of a filter that was not in the list when the plan was made: one of a negated path, or
an equality filter that is generated in the next round. -/
def NoStaleBits (activeGraphVariable : Option Variable) (s : GraphPatternPlanner T) : Prop :=
  match seedWithScansAndText activeGraphVariable s.candidateTriples s.candidatePlans s.internalVarCount with
  | none => True
  | some (_,seeds) => ∀ row ∈ s.candidatePlans,∀ plan ∈ row,∀ i ∈ plan.idsOfIncludedFilters,
    i < s.numOptimizedFilters ∨ s.filters.length + seeds.filters.length ≤ i

instance (activeGraphVariable : Option Variable) (s : GraphPatternPlanner T) : Decidable (NoStaleBits activeGraphVariable s) := by
  unfold NoStaleBits
  split <;> infer_instance

section Round
variable {s next : GraphPatternPlanner T} {initialPlans : List (SubtreePlan T)} {seeds : Seeds T}

theorem IsFilterList.hasGeo {all generated : List (SparqlFilter T)} (isFilterList : IsFilterList filters all) (areEqual : ∀ filter ∈ generated,IsEqual filter) :
    ∀ filter ∈ all ++ generated,rewriteFilterToSpatialJoinConfig estimates filter ≠ some none → HasGeo estimates filters := by
  obtain ⟨pathFilters,rfl,areNegated⟩ := isFilterList
  intro filter member isGeo
  rcases mem_append.mp member with isOld | isGenerated
  · rcases mem_append.mp isOld with isGroupFilter | isPathFilter
    · exact ⟨filter,isGroupFilter,isGeo⟩
    · obtain ⟨negated,rfl⟩ := areNegated filter isPathFilter
      exact absurd rfl isGeo
  · obtain ⟨var1,var2,rfl⟩ := areEqual filter isGenerated
    exact absurd rfl isGeo

theorem bindOptionalJoinOrMinus_notSpatial {tree : QueryExecutionTree T} (isRoot : tree.isBindOptionalJoinOrMinus = true) : tree.isSpatial = false := by
  cases tree with
  | spatialJoin | missing => cases isRoot
  | _ => rfl

theorem GroupInv.isSeed (inv : GroupInv estimates filters s) (noStaleBits : NoStaleBits activeGraphVariable s)
    (seeded : seedWithScansAndText activeGraphVariable s.candidateTriples s.candidatePlans s.internalVarCount = some (initialPlans,seeds)) :
    ∀ seed ∈ initialPlans,IsSeed ⟨HasGeo estimates filters,True⟩ (s.filters ++ seeds.filters) seed := by
  intro seed member
  rcases (seedWithScansAndText_spec seeded).seeds seed member with isScanSeed | isChildSeed
  · obtain ⟨triple,i,_,isNode,isScan⟩ := isScanSeed.scan
    refine ⟨isScanSeed.type,isScan.notSpatial,⟨i,isNode⟩,?_,fun _ => isScan.complete⟩
    rw [isScanSeed.bits]
    simp
  · obtain ⟨⟨k,row,plan,isRow,isPlan,rfl⟩,bits⟩ := isChildSeed
    have isMember := mem_of_getElem? isRow
    have carried := inv.carried row isMember plan isPlan
    have notSpatial : plan.qet.isSpatial = false := by
      rcases bits with noBits | isRoot
      · by_contra isSpatial
        have nonempty := carried.substituted (by simpa using isSpatial)
        exact nonempty.ne_empty noBits
      · exact bindOptionalJoinOrMinus_notSpatial isRoot
    refine ⟨carried.type,notSpatial,⟨_,rfl⟩,?_,carried.complete notSpatial⟩
    intro i isBit filter isFilter
    have isRoot := bits.resolve_left (fun noBits => by
      change plan.idsOfIncludedFilters = ∅ at noBits
      change i ∈ plan.idsOfIncludedFilters at isBit
      rw [noBits] at isBit
      cases isBit)
    have inside := (List.getElem?_eq_some_iff.mp isFilter).1
    rw [List.length_append] at inside
    rw [NoStaleBits,seeded] at noStaleBits
    have isOld := (noStaleBits row isMember plan isPlan i isBit).resolve_right (by omega)
    rw [List.getElem?_append_left (isOld.trans_le inv.optimized)] at isFilter
    exact carried.bits isRoot i isBit isOld filter isFilter

structure AfterRound (estimates : Estimates T) (filters : List (SparqlFilter T)) (s : GraphPatternPlanner T) : Prop where
  isFilterList : IsFilterList filters s.filters
  optimized : s.numOptimizedFilters = s.filters.length
  noTriples : s.candidateTriples = []
  oneRow : ∃ row,s.candidatePlans = [row]
  planned : ∀ row ∈ s.candidatePlans,∀ plan ∈ row,IsPlanned (HasGeo estimates filters) s.filters plan
  applied : ∀ i filter,filters.length ≤ i → s.filters[i]? = some filter →
    ∀ row ∈ s.candidatePlans,row ≠ [] ∧ ∀ plan ∈ row,plan.qet.IsComplete → plan.qet.Applies filter

variable {row : List (SubtreePlan T)}

theorem IsLastRow.equalities (inv : GroupInv estimates filters s) {allowed : Allowed}
    (isSeeding : IsSeeding s.candidateTriples s.candidatePlans seeds.filters initialPlans)
    (notSpatial : NoneSpatial initialPlans) (isLastRow : IsLastRow allowed initialPlans (s.filters ++ seeds.filters) row)
    {plan : SubtreePlan T} (member : plan ∈ row) (complete : plan.qet.IsComplete) :
    ∀ filter ∈ plan.qet.equalities,plan.qet.Applies filter := by
  intro filter isEquality
  obtain ⟨seed,isSeed,isSeedEquality,contains⟩ := (isLastRow.built plan member).equalities filter isEquality
  rcases isSeeding.seeds seed isSeed with isScanSeed | isChildSeed
  · obtain ⟨triple,i,_,_,isScan⟩ := isScanSeed.scan
    obtain ⟨isGenerated,covered⟩ := isScan.equalities filter isSeedEquality
    obtain ⟨j,isFilter⟩ := mem_iff_getElem?.mp (mem_append_right s.filters isGenerated)
    have isBit := isLastRow.filtered plan member j filter isFilter (fun name isName => contains.columns complete (covered name isName))
    exact (isLastRow.built plan member).bits j isBit filter isFilter
  · obtain ⟨⟨k,children,child,isRow,isChild,rfl⟩,_⟩ := isChildSeed
    have carried := inv.carried children (mem_of_getElem? isRow) child isChild
    exact contains.applies (carried.equalities (notSpatial (child.withNode _) isSeed) (contains.complete complete) filter isSeedEquality)

section NodeBits
variable {triples : List (SparqlTriple T)} {children : List (List (SubtreePlan T))} {generated : List (SparqlFilter T)} {seed : SubtreePlan T}

section
variable (isSeeding : IsSeeding triples children generated initialPlans) (isSeed : seed ∈ initialPlans)
include isSeeding isSeed

theorem IsSeeding.scan_of_node {i : Nat}
    {triple : SparqlTriple T} (isTriple : triples[i]? = some triple) (isNode : seed.idsOfIncludedNodes = {i}) : IsScan triple generated seed.qet := by
  rcases isSeeding.seeds seed isSeed with isScanSeed | isChildSeed
  · obtain ⟨other,j,member,isOtherNode,isScan⟩ := isScanSeed.scan
    rw [isNode,Finset.singleton_inj] at isOtherNode
    rw [List.mem_zipIdx_iff_getElem?,← isOtherNode,isTriple] at member
    cases member
    exact isScan
  · obtain ⟨⟨k,_,_,_,_,rfl⟩,_⟩ := isChildSeed
    have same : triples.length + k = i := Finset.singleton_inj.mp isNode
    have inside := (List.getElem?_eq_some_iff.mp isTriple).1
    omega

theorem IsSeeding.child_of_node {k : Nat}
    {row : List (SubtreePlan T)} (isRow : children[k]? = some row) (isNode : seed.idsOfIncludedNodes = {triples.length + k}) :
    ∃ plan ∈ row,seed.qet = plan.qet := by
  rcases isSeeding.seeds seed isSeed with isScanSeed | isChildSeed
  · obtain ⟨other,j,member,isOtherNode,_⟩ := isScanSeed.scan
    rw [isNode,Finset.singleton_inj] at isOtherNode
    have inside := (List.getElem?_eq_some_iff.mp (List.mem_zipIdx_iff_getElem?.mp member)).1
    omega
  · obtain ⟨⟨j,other,plan,isOther,isPlan,rfl⟩,_⟩ := isChildSeed
    have same : triples.length + j = triples.length + k := Finset.singleton_inj.mp isNode
    rw [Nat.add_left_cancel same,isRow] at isOther
    cases isOther
    exact ⟨plan,isPlan,rfl⟩

end

theorem IsLastRow.contains {allowed : Allowed} {all : List (SparqlFilter T)} {row : List (SubtreePlan T)} (isLastRow : IsLastRow allowed initialPlans all row)
    (isSeed : seed ∈ initialPlans) {id : Nat} (isNode : seed.idsOfIncludedNodes = {id}) :
    row ≠ [] ∧ ∀ plan ∈ row,∃ other ∈ initialPlans,other.idsOfIncludedNodes = {id} ∧ plan.qet.Contains other.qet := by
  refine ⟨isLastRow.nonempty (ne_nil_of_mem isSeed),?_⟩
  intro plan member
  have covered := isLastRow.covers plan member seed isSeed
  rw [isNode,Finset.singleton_subset_iff] at covered
  exact (isLastRow.built plan member).nodes id covered

end NodeBits

theorem IsLastRow.pathFilters (inv : GroupInv estimates filters s) {allowed : Allowed}
    (isSeeding : IsSeeding s.candidateTriples s.candidatePlans seeds.filters initialPlans)
    (notSpatial : NoneSpatial initialPlans) (isLastRow : IsLastRow allowed initialPlans (s.filters ++ seeds.filters) row)
    {i : Nat} {filter : SparqlFilter T} (isPathFilter : filters.length ≤ i)
    (isFilter : s.filters[i]? = some filter) : row ≠ [] ∧ ∀ plan ∈ row,plan.qet.IsComplete → plan.qet.Applies filter := by
  rcases Nat.lt_or_ge i s.numOptimizedFilters with isOld | isNew
  · obtain ⟨children,isMember,nonempty,applied⟩ := inv.applied i filter isPathFilter isOld isFilter
    obtain ⟨k,isRow⟩ := mem_iff_getElem?.mp isMember
    obtain ⟨child,isChild⟩ := exists_mem_of_ne_nil children nonempty
    obtain ⟨hasPlan,contains⟩ := isLastRow.contains (isSeeding.hasChild k children isRow child isChild) rfl
    refine ⟨hasPlan,?_⟩
    intro plan member complete
    obtain ⟨seed,isSeed,isNode,isContained⟩ := contains plan member
    obtain ⟨other,isOther,same⟩ := isSeeding.child_of_node isSeed isRow isNode
    have childComplete := isContained.complete complete
    have childNotSpatial := notSpatial seed isSeed
    rw [same] at isContained childComplete childNotSpatial
    exact isContained.applies (applied other isOther childNotSpatial childComplete)
  · obtain ⟨triple,isMember,covered⟩ := inv.pending i filter isPathFilter isNew isFilter
    obtain ⟨j,isTriple⟩ := mem_iff_getElem?.mp isMember
    obtain ⟨seed,isSeed,isNode⟩ := isSeeding.hasScan j triple isTriple
    obtain ⟨hasPlan,contains⟩ := isLastRow.contains isSeed isNode
    refine ⟨hasPlan,?_⟩
    intro plan member complete
    obtain ⟨other,isOther,isOtherNode,isContained⟩ := contains plan member
    have isScan := isSeeding.scan_of_node isOther isTriple isOtherNode
    have isAll : (s.filters ++ seeds.filters)[i]? = some filter := by
      rw [List.getElem?_append_left (List.getElem?_eq_some_iff.mp isFilter).1]
      exact isFilter
    have isBit := isLastRow.filtered plan member i filter isAll
      (fun name isName => isContained.columns complete (isScan.columns name (covered name isName)))
    exact (isLastRow.built plan member).bits i isBit filter isAll

theorem optimizeCommutatively_afterRound (inv : GroupInv estimates filters s) (noStaleBits : NoStaleBits activeGraphVariable s)
    (done : optimizeCommutatively estimates activeGraphVariable s = some next) : AfterRound estimates filters next := by
  rw [optimizeCommutatively,bind_eq_bind,bind_eq_some_iff] at done
  obtain ⟨⟨lastRow,internalVarCount⟩,filled,done⟩ := done
  cases done
  obtain ⟨initialPlans,seeds,seeded,_⟩ := fillDpTab_seeded filled
  have isSeeding := seedWithScansAndText_spec seeded
  have isSeed := inv.isSeed noStaleBits seeded
  have notSpatial : NoneSpatial initialPlans := fun seed member => (isSeed seed member).notSpatial
  have isLastRow := fillDpTab_isLastRow trivial seeded (inv.isFilterList.hasGeo isSeeding.areEqual) isSeed filled
  refine ⟨inv.isFilterList,rfl,rfl,⟨lastRow,rfl⟩,?_,?_⟩
  · intro row isRow plan member
    rw [mem_singleton.mp isRow] at member
    have built := isLastRow.built plan member
    refine ⟨built.type,built.substituted,?_,isLastRow.equalities inv isSeeding notSpatial member,built.complete⟩
    intro i isBit filter isFilter
    refine built.bits i isBit filter ?_
    rw [List.getElem?_append_left (List.getElem?_eq_some_iff.mp isFilter).1]
    exact isFilter
  · intro i filter isPathFilter isFilter row isRow
    rw [mem_singleton.mp isRow]
    exact isLastRow.pathFilters inv isSeeding notSpatial isPathFilter isFilter

end Round

section Elements
variable {s next : GraphPatternPlanner T}

section
variable (inv : GroupInv estimates filters s)
include inv

theorem GroupInv.setBoundVariables (names : List Variable) : GroupInv estimates filters {s with boundVariables := names} :=
  ⟨inv.isFilterList,inv.optimized,inv.carried,inv.applied,inv.pending⟩

theorem GroupInv.addRow {row : List (SubtreePlan T)}
    (carried : ∀ plan ∈ row,IsCarried (HasGeo estimates filters) s.filters s.numOptimizedFilters plan) :
    GroupInv estimates filters {s with candidatePlans := s.candidatePlans ++ [row]} where
  isFilterList := inv.isFilterList
  optimized := inv.optimized
  carried other isOther plan member := by
    rcases mem_append.mp isOther with isOld | isNew
    · exact inv.carried other isOld plan member
    · rw [mem_singleton.mp isNew] at member
      exact carried plan member
  applied i filter isPathFilter isOld isFilter := by
    obtain ⟨row,isRow,applied⟩ := inv.applied i filter isPathFilter isOld isFilter
    exact ⟨row,mem_append_left _ isRow,applied⟩
  pending := inv.pending

theorem GroupInv.addTriples {triples : List (SparqlTriple T)} {negated : List (SparqlExpression T)}
    (covered : ∀ expression ∈ negated,∃ triple ∈ triples,∀ name ∈ expression.containedVariables,name ∈ triple.variableNames) :
    GroupInv estimates filters {s with
      candidateTriples := s.candidateTriples ++ triples
      filters := s.filters ++ negated.map SparqlFilter.notEqual} where
  isFilterList := by
    obtain ⟨pathFilters,isList,areNegated⟩ := inv.isFilterList
    refine ⟨pathFilters ++ negated.map SparqlFilter.notEqual,by simp only [isList,append_assoc],?_⟩
    intro filter member
    rcases mem_append.mp member with isOld | isNew
    · exact areNegated filter isOld
    · obtain ⟨expression,_,rfl⟩ := List.mem_map.mp isNew
      exact ⟨expression,rfl⟩
  optimized := inv.optimized.trans (by simp)
  carried row isRow plan member := by
    have carried := inv.carried row isRow plan member
    refine ⟨carried.type,carried.substituted,?_,carried.equalities,carried.complete⟩
    intro isRoot i isBit isOld filter isFilter
    rw [List.getElem?_append_left (isOld.trans_le inv.optimized)] at isFilter
    exact carried.bits isRoot i isBit isOld filter isFilter
  applied i filter isPathFilter isOld isFilter := by
    rw [List.getElem?_append_left (isOld.trans_le inv.optimized)] at isFilter
    exact inv.applied i filter isPathFilter isOld isFilter
  pending i filter isPathFilter isNew isFilter := by
    rcases Nat.lt_or_ge i s.filters.length with earlier | later
    · rw [List.getElem?_append_left earlier] at isFilter
      obtain ⟨triple,member,covered⟩ := inv.pending i filter isPathFilter isNew isFilter
      exact ⟨triple,mem_append_left _ member,covered⟩
    · rw [List.getElem?_append_right later] at isFilter
      obtain ⟨expression,isExpression,rfl⟩ := List.mem_map.mp (mem_of_getElem? isFilter)
      obtain ⟨triple,member,covered⟩ := covered expression isExpression
      exact ⟨triple,mem_append_right _ member,covered⟩

end

structure Wraps (old plan : SubtreePlan T) : Prop where
  type : plan.type = .BASIC
  bits : plan.idsOfIncludedFilters = old.idsOfIncludedFilters
  substituted : plan.qet.isSpatial = true → old.qet.isSpatial = true
  contains : plan.qet.isSpatial = false → plan.qet.Contains old.qet
  equalities : plan.qet.isSpatial = false → plan.qet.equalities = old.qet.equalities
  complete : plan.qet.isSpatial = false → old.qet.IsComplete → plan.qet.IsComplete

theorem Wraps.isCarried {geo : Prop} {all : List (SparqlFilter T)} {old plan : SubtreePlan T} (wraps : Wraps old plan) (planned : IsPlanned geo all old)
    (numOptimizedFilters : Nat) : IsCarried geo all numOptimizedFilters plan where
  type := wraps.type
  substituted isSpatial := by
    rw [wraps.bits]
    exact planned.substituted (wraps.substituted isSpatial)
  bits isRoot i isBit _ filter isFilter := by
    rw [wraps.bits] at isBit
    exact (wraps.contains (bindOptionalJoinOrMinus_notSpatial isRoot)).applies (planned.bits i isBit filter isFilter)
  equalities notSpatial complete filter isEquality := by
    have contains := wraps.contains notSpatial
    rw [wraps.equalities notSpatial] at isEquality
    exact contains.applies (planned.equalities (contains.complete complete) filter isEquality)
  complete notSpatial noGeo := wraps.complete notSpatial (planned.complete noGeo)

theorem AfterRound.groupInv (after : AfterRound estimates filters s) {newRow : List (SubtreePlan T)}
    (nonempty : s.candidatePlans.headD [] ≠ [] → newRow ≠ [])
    (made : ∀ plan ∈ newRow,(∃ old ∈ s.candidatePlans.headD [],Wraps old plan) ∨
      s.candidatePlans.headD [] = [] ∧ IsCarried (HasGeo estimates filters) s.filters s.numOptimizedFilters plan) :
    GroupInv estimates filters {s with candidatePlans := [newRow]} := by
  obtain ⟨row,isRow⟩ := after.oneRow
  have isMember : row ∈ s.candidatePlans := by
    rw [isRow]
    exact mem_singleton_self row
  rw [isRow,headD_cons] at nonempty made
  refine ⟨after.isFilterList,after.optimized.le,?_,?_,?_⟩
  · intro other isOther plan member
    rw [mem_singleton.mp isOther] at member
    rcases made plan member with ⟨old,isOld,wraps⟩ | ⟨_,carried⟩
    · exact wraps.isCarried (after.planned row isMember old isOld) _
    · exact carried
  · intro i filter isPathFilter _ isFilter
    obtain ⟨hasPlan,applied⟩ := after.applied i filter isPathFilter isFilter row isMember
    refine ⟨newRow,mem_singleton_self newRow,nonempty hasPlan,?_⟩
    intro plan member notSpatial complete
    rcases made plan member with ⟨old,isOld,wraps⟩ | ⟨empty,_⟩
    · have contains := wraps.contains notSpatial
      exact contains.applies (applied old isOld (contains.complete complete))
    · exact absurd empty hasPlan
  · intro i filter _ isNew isFilter
    have inside := (List.getElem?_eq_some_iff.mp isFilter).1
    have optimized := after.optimized
    dsimp only at isNew inside
    omega

theorem addChild_isSpatial {tree child next : QueryExecutionTree T} {var : Variable} (added : addChild tree child var = some next) :
    tree.isSpatial = true ∧ next.isSpatial = true := by
  cases tree with
  | spatialJoin =>
    simp only [addChild] at added
    split at added
    next =>
      cases added
      exact ⟨rfl,rfl⟩
    next =>
      split at added
      next =>
        cases added
        exact ⟨rfl,rfl⟩
      next => cases added
  | _ => cases added

theorem createSpatialJoin_isSpatial {a b plan : SubtreePlan T} {jcs : List Variable} (notSpatial : b.qet.isIncompleteSpatialJoin = false)
    (created : createSpatialJoin a b jcs = some (some plan)) : plan.type = .BASIC ∧ plan.qet.isSpatial = true ∧ a.qet.isSpatial = true := by
  unfold createSpatialJoin at created
  split at created
  next => cases created
  next different =>
    split at created
    next var =>
      have isA : a.qet.isIncompleteSpatialJoin = true := by
        rw [notSpatial] at different
        simpa using different
      simp only [isA,if_true,bind_eq_bind,bind_eq_some_iff] at created
      obtain ⟨next,added,isPlan⟩ := created
      cases isPlan
      obtain ⟨isOld,isNew⟩ := addChild_isSpatial added
      exact ⟨rfl,isNew,isOld⟩
    next => cases created

/-- The join of a plan with that of an `OPTIONAL` or a `MINUS` clause. A spatial join that misses a child gets the clause as its child. -/
theorem createJoinCandidates_wraps {a b : SubtreePlan T} {type : PlanType} (notBasic : type ≠ .BASIC) {plans : List (SubtreePlan T)}
    (created : createJoinCandidates {a with idsOfIncludedNodes := {0}} {qet := .subtree b.qet,idsOfIncludedNodes := {1},type := type} none = some plans) :
    ∀ plan ∈ plans,Wraps a {plan with idsOfIncludedFilters := a.idsOfIncludedFilters,containsFilterSubstitute := a.containsFilterSubstitute} := by
  unfold createJoinCandidates createJoinCandidatesOn at created
  split at created
  next =>
    cases created
    simp
  next =>
    simp only [QueryExecutionTree.isIncompleteSpatialJoin,Bool.and_false,Bool.false_eq_true,if_false] at created
    rw [bind_eq_bind,bind_eq_some_iff] at created
    obtain ⟨spatial,isSpatial,created⟩ := created
    split at created
    next joined =>
      cases created
      intro plan member
      rw [mem_singleton.mp member]
      obtain ⟨type,isNew,isOld⟩ := createSpatialJoin_isSpatial rfl isSpatial
      exact ⟨type,rfl,fun _ => isOld,fun notSpatial => absurd (isNew.symm.trans notSpatial) (by decide),
        fun notSpatial => absurd (isNew.symm.trans notSpatial) (by decide),fun notSpatial => absurd (isNew.symm.trans notSpatial) (by decide)⟩
    next =>
      split at created
      next => cases created
      next isBasic =>
        cases type with
        | BASIC => exact absurd rfl notBasic
        | MINUS =>
          cases created
          intro plan member
          rw [mem_singleton.mp member]
          exact ⟨rfl,rfl,by simp [QueryExecutionTree.isSpatial],fun _ => .minus _ (.refl _),fun _ => rfl,fun _ complete => complete⟩
        | OPTIONAL =>
          cases created
          intro plan member
          rw [mem_singleton.mp member]
          exact ⟨rfl,rfl,by simp [QueryExecutionTree.isSpatial],fun _ => .optionalJoin _ (.refl _),fun _ => rfl,fun _ complete => complete⟩

variable {candidates : List (SubtreePlan T)}

theorem joinWithCandidates_inv {type : PlanType} (notBasic : type ≠ .BASIC) (inv : GroupInv estimates filters s)
    (noStaleBits : NoStaleBits activeGraphVariable s)
    (done : visitGroupOptionalOrMinus.joinWithCandidates estimates activeGraphVariable type candidates s = some next) : GroupInv estimates filters next := by
  simp only [visitGroupOptionalOrMinus.joinWithCandidates,bind_eq_bind,bind_eq_some_iff] at done
  obtain ⟨middle,optimized,nextCandidates,joined,cheapest,isCheapest,done⟩ := done
  cases done
  have after := optimizeCommutatively_afterRound inv noStaleBits optimized
  refine after.groupInv (fun _ => cons_ne_nil _ _) ?_
  intro plan member
  rw [mem_singleton.mp member]
  obtain ⟨plans,isList,isCandidate⟩ := mem_flatten.mp (argmin_mem isCheapest)
  obtain ⟨⟨a,b⟩,isPair,isJoined⟩ := exists_of_mem_mapM joined isList
  obtain ⟨created,isCreated,isPlans⟩ := bind_eq_some_iff.mp isJoined
  cases isPlans
  obtain ⟨candidate,isMember,rfl⟩ := List.mem_map.mp isCandidate
  exact Or.inl ⟨a,(pair_mem_product.mp isPair).1,createJoinCandidates_wraps notBasic isCreated candidate isMember⟩

theorem visitBind_inv {target : Variable} (inv : GroupInv estimates filters s) (noStaleBits : NoStaleBits activeGraphVariable s)
    (done : visitBind estimates activeGraphVariable target s = some next) : GroupInv estimates filters next := by
  unfold visitBind at done
  split at done
  next => cases done
  next =>
    rw [bind_eq_bind,bind_eq_some_iff] at done
    obtain ⟨middle,optimized,done⟩ := done
    cases done
    have after := optimizeCommutatively_afterRound (inv.setBoundVariables (s.boundVariables ++ [target])) noStaleBits optimized
    refine after.groupInv ?_ ?_
    · intro hasPlan
      cases isRow : middle.candidatePlans.headD [] with
      | nil => exact absurd isRow hasPlan
      | cons first rest => simp
    · intro plan member
      split at member
      next isEmpty =>
        refine Or.inr ⟨List.isEmpty_iff.mp isEmpty,?_⟩
        rw [mem_singleton.mp member]
        exact ⟨rfl,by simp [QueryExecutionTree.isSpatial],by simp,by simp [QueryExecutionTree.equalities],fun _ _ => trivial⟩
      next =>
        obtain ⟨old,isOld,rfl⟩ := List.mem_map.mp member
        exact Or.inl ⟨old,isOld,rfl,rfl,by simp [QueryExecutionTree.isSpatial],fun _ => .bind _ (.refl _),fun _ => rfl,fun _ complete => complete⟩

theorem visitGroup_inv (inv : GroupInv estimates filters s)
    (done : visitGroupOptionalOrMinus estimates activeGraphVariable .BASIC candidates s = some next) : GroupInv estimates filters next := by
  simp only [visitGroupOptionalOrMinus,bind_eq_bind,bind_eq_some_iff] at done
  obtain ⟨first,_,done⟩ := done
  cases done
  refine (inv.setBoundVariables (s.boundVariables ++ first.qet.variableColumns)).addRow ?_
  intro plan member
  obtain ⟨candidate,_,rfl⟩ := List.mem_map.mp member
  exact ⟨rfl,by simp [QueryExecutionTree.isSpatial],by simp,by simp [QueryExecutionTree.equalities],fun _ _ => trivial⟩

theorem visitGroupOptionalOrMinus_inv {type : PlanType} (inv : GroupInv estimates filters s)
    (noStaleBits : NoStaleBits activeGraphVariable s)
    (done : visitGroupOptionalOrMinus estimates activeGraphVariable type candidates s = some next) : GroupInv estimates filters next := by
  by_cases isBasic : type = .BASIC
  · rw [isBasic] at done
    exact visitGroup_inv inv done
  simp only [visitGroupOptionalOrMinus,bind_eq_bind,bind_eq_some_iff] at done
  obtain ⟨first,_,done⟩ := done
  have bound := inv.setBoundVariables (s.boundVariables ++ first.qet.variableColumns)
  cases type with
  | BASIC => exact absurd rfl isBasic
  | MINUS =>
    simp only at done
    split at done
    next =>
      cases done
      exact bound
    next => exact joinWithCandidates_inv isBasic bound noStaleBits done
  | OPTIONAL =>
    simp only at done
    split at done
    next =>
      cases done
      refine bound.addRow ?_
      intro plan member
      obtain ⟨candidate,_,rfl⟩ := List.mem_map.mp member
      exact ⟨rfl,by simp [QueryExecutionTree.isSpatial],by simp [QueryExecutionTree.isBindOptionalJoinOrMinus],by simp [QueryExecutionTree.equalities],
        fun _ _ => trivial⟩
    next => exact joinWithCandidates_inv isBasic bound noStaleBits done

theorem makeNotEqualExpressions_variables {name : Variable} {iris : List T} {expression : SparqlExpression T}
    (made : makeNotEqualExpressions name iris = some expression) : ∀ other ∈ expression.containedVariables,other = name := by
  cases iris with
  | nil => cases made
  | cons iri iris =>
    cases made
    have start : ∀ other ∈ (SparqlExpression.notEqual iri name).containedVariables,other = name := by
      simp [SparqlExpression.containedVariables]
    revert start
    generalize SparqlExpression.notEqual iri name = first
    induction iris generalizing first with
    | nil => exact id
    | cons iri iris ih =>
      intro start
      refine ih _ ?_
      intro other member
      rcases mem_append.mp member with isOld | isNew
      · exact start other isOld
      · exact mem_singleton.mp isNew

variable {triples : List (SparqlTriple T)} {negated : List (SparqlExpression T)}

theorem makeFilterPattern_covered {left right : TripleComponent T} {iris : List T} {count count' : Nat}
    (made : makeFilterPattern left right iris count = some (.mk [.basic triples] negated,count')) :
    ∀ expression ∈ negated,∃ triple ∈ triples,∀ name ∈ expression.containedVariables,name ∈ triple.variableNames := by
  simp only [makeFilterPattern,bind_eq_bind,bind_eq_some_iff] at made
  obtain ⟨expression,isExpression,made⟩ := made
  cases made
  intro other member
  rw [mem_singleton.mp member]
  refine ⟨_,mem_singleton_self _,?_⟩
  intro name isName
  rw [makeNotEqualExpressions_variables isExpression name isName]
  simp [SparqlTriple.variableNames,variableNames_var]

theorem seedFromNegated_covered {left right : TripleComponent T} {paths : List (PropertyPath T)} {count count' : Nat}
    (seeded : seedFromNegated left paths right count = some (.mk [.basic triples] negated,count')) :
    ∀ expression ∈ negated,∃ triple ∈ triples,∀ name ∈ expression.containedVariables,name ∈ triple.variableNames := by
  simp only [seedFromNegated,bind_eq_bind,bind_eq_some_iff] at seeded
  obtain ⟨⟨forwardIris,inverseIris⟩,_,seeded⟩ := seeded
  split at seeded
  next => cases seeded
  next =>
    split at seeded
    next => exact makeFilterPattern_covered seeded
    next =>
      split at seeded
      next => exact makeFilterPattern_covered seeded
      next =>
        -- The result is a union.
        simp only [bind_eq_some_iff] at seeded
        obtain ⟨⟨forward,_⟩,_,⟨inverse,_⟩,_,united,isUnion,seeded⟩ := seeded
        cases isUnion
        cases seeded

theorem visitElement_inv {element : GroupElement T} (inv : GroupInv estimates filters s) (noStaleBits : NoStaleBits activeGraphVariable s)
    (done : visitElement estimates activeGraphVariable s element = some next) : GroupInv estimates filters next := by
  cases element with
  | triple triple =>
    cases done
    have noFilter : ∀ expression ∈ ([] : List (SparqlExpression T)),∃ other ∈ [triple],
        ∀ name ∈ expression.containedVariables,name ∈ other.variableNames := by simp
    simpa using (inv.setBoundVariables (s.boundVariables ++ triple.variableNames)).addTriples noFilter
  | negatedPath left paths right union =>
    simp only [visitElement,bind_eq_bind,bind_eq_some_iff] at done
    obtain ⟨⟨pattern,internalVarCount⟩,seeded,done⟩ := done
    have counted : GroupInv estimates filters {s with
        boundVariables := s.boundVariables ++ left.variableNames ++ right.variableNames
        internalVarCount := internalVarCount} := ⟨inv.isFilterList,inv.optimized,inv.carried,inv.applied,inv.pending⟩
    split at done
    next _ triples negated isPattern =>
      cases done
      change pattern = .mk [.basic triples] negated at isPattern
      rw [isPattern] at seeded
      exact (counted.setBoundVariables _).addTriples (seedFromNegated_covered seeded)
    next => exact visitGroup_inv counted done
  | optional candidates | minus candidates =>
    rw [visitElement] at done
    exact visitGroupOptionalOrMinus_inv inv noStaleBits done
  | group candidates =>
    rw [visitElement] at done
    exact visitGroup_inv inv done
  | bind target => exact visitBind_inv inv noStaleBits done

end Elements

section Finish

/-- The filters that are applied at the end of the group, whether their variables are covered or not. -/
def QueryExecutionTree.endFilters : QueryExecutionTree T → List (SparqlFilter T)
  | .filter other child => other::child.endFilters
  | _ => []

/-- No filter is lost in the plan. The filters of negated paths and the equality filters of the scans that it uses are
applied if it can be evaluated, which is always so if no filter of the group can be substituted by a spatial join. -/
structure LosesNoFilter (estimates : Estimates T) (filters pathFilters : List (SparqlFilter T)) (plan : SubtreePlan T) : Prop where
  group : ∀ filter ∈ filters,plan.qet.Applies filter ∨ filter ∈ plan.qet.endFilters
  paths : plan.qet.IsComplete → ∀ filter ∈ pathFilters,plan.qet.Applies filter
  equalities : plan.qet.IsComplete → ∀ filter ∈ plan.qet.equalities,plan.qet.Applies filter
  bits : ∀ i ∈ plan.idsOfIncludedFilters,∀ filter,(filters ++ pathFilters)[i]? = some filter → plan.qet.Applies filter ∨ filter ∈ plan.qet.endFilters
  complete : ¬ HasGeo estimates filters → plan.qet.IsComplete

structure AddsFilters (filters : List (SparqlFilter T)) (plan next : SubtreePlan T) : Prop where
  applies : ∀ filter,plan.qet.Applies filter → next.qet.Applies filter
  endFilters : ∀ filter ∈ plan.qet.endFilters,filter ∈ next.qet.endFilters
  equalities : next.qet.equalities = plan.qet.equalities
  complete : next.qet.IsComplete ↔ plan.qet.IsComplete
  kept : plan.idsOfIncludedFilters ⊆ next.idsOfIncludedFilters
  bits : ∀ i ∈ next.idsOfIncludedFilters,i ∈ plan.idsOfIncludedFilters ∨ ∃ filter ∈ next.qet.endFilters,filters[i]? = some filter

variable {substitutes : List (FilterAndOptionalSubstitute T)}

theorem AddsFilters.refl (plan : SubtreePlan T) : AddsFilters filters plan plan :=
  ⟨fun _ holds => holds,fun _ member => member,rfl,Iff.rfl,fun _ member => member,fun _ member => Or.inl member⟩

theorem AddsFilters.trans {plan middle next : SubtreePlan T} (first : AddsFilters filters plan middle) (second : AddsFilters filters middle next) :
    AddsFilters filters plan next where
  applies filter holds := second.applies filter (first.applies filter holds)
  endFilters filter member := second.endFilters filter (first.endFilters filter member)
  equalities := second.equalities.trans first.equalities
  complete := second.complete.trans first.complete
  kept := first.kept.trans second.kept
  bits i member := by
    rcases second.bits i member with isMiddle | isNew
    · rcases first.bits i isMiddle with isOld | ⟨filter,isEnd,isFilter⟩
      · exact Or.inl isOld
      · exact Or.inr ⟨filter,second.endFilters filter isEnd,isFilter⟩
    · exact Or.inr isNew

section
variable (isSame : substitutes.map (·.filter) = filters) {plan : SubtreePlan T} {added : List (SubtreePlan T)} {next : SubtreePlan T × List (SubtreePlan T)}
include isSame

theorem applyFilterIfPossible_adds {entry : FilterAndOptionalSubstitute T × Nat} (isEntry : substitutes[entry.2]? = some entry.1)
    (taken : applyFilterIfPossible .ApplyAllFiltersAndReplaceUnfiltered (plan,added) entry = some next) :
    AddsFilters filters plan next.1 ∧ entry.2 ∈ next.1.idsOfIncludedFilters ∧ next.2 = added := by
  obtain ⟨entry,i⟩ := entry
  simp only [applyFilterIfPossible] at taken
  split at taken
  next isIncluded =>
    cases taken
    exact ⟨.refl plan,isIncluded,rfl⟩
  next =>
    simp only [FilterMode.allowSubstitutes,Bool.false_and,Bool.false_eq_true,if_false,decide_true,Bool.true_or,if_true,reduceCtorEq] at taken
    cases taken
    refine ⟨⟨fun _ holds => Or.inr holds,fun _ member => mem_cons_of_mem _ member,rfl,Iff.rfl,Finset.subset_insert _ _,?_⟩,
      Finset.mem_insert_self _ _,rfl⟩
    intro j member
    rcases Finset.mem_insert.mp member with rfl | isOld
    · refine Or.inr ⟨entry.filter,mem_cons_self,?_⟩
      rw [← isSame,List.getElem?_map,isEntry]
      rfl
    · exact Or.inl isOld

theorem applyFilters_adds {entries : List (FilterAndOptionalSubstitute T × Nat)}
    (areEntries : ∀ entry ∈ entries,substitutes[entry.2]? = some entry.1)
    (taken : entries.foldlM (applyFilterIfPossible .ApplyAllFiltersAndReplaceUnfiltered) (plan,added) = some next) :
    AddsFilters filters plan next.1 ∧ (∀ entry ∈ entries,entry.2 ∈ next.1.idsOfIncludedFilters) ∧ next.2 = added := by
  induction entries generalizing plan added with
  | nil =>
    cases taken
    exact ⟨.refl plan,by simp,rfl⟩
  | cons entry entries ih =>
    rw [foldlM_cons,bind_eq_bind,bind_eq_some_iff] at taken
    obtain ⟨middle,first,rest⟩ := taken
    obtain ⟨firstAdds,isIncluded,noPlans⟩ := applyFilterIfPossible_adds isSame (areEntries entry mem_cons_self) first
    obtain ⟨restAdds,areIncluded,noMorePlans⟩ := ih (forall_mem_cons.mp areEntries).2 rest
    refine ⟨firstAdds.trans restAdds,?_,noMorePlans.trans noPlans⟩
    intro other member
    rcases mem_cons.mp member with rfl | later
    · exact restAdds.kept isIncluded
    · exact areIncluded other later

end

theorem AddsFilters.losesNoFilter {pathFilters : List (SparqlFilter T)} {plan next : SubtreePlan T} (adds : AddsFilters filters plan next)
    (all : ∀ i < filters.length,i ∈ next.idsOfIncludedFilters) (planned : IsPlanned (HasGeo estimates filters) (filters ++ pathFilters) plan)
    (paths : plan.qet.IsComplete → ∀ filter ∈ pathFilters,plan.qet.Applies filter) : LosesNoFilter estimates filters pathFilters next := by
  have bits : ∀ i ∈ next.idsOfIncludedFilters,∀ filter,(filters ++ pathFilters)[i]? = some filter →
      next.qet.Applies filter ∨ filter ∈ next.qet.endFilters := by
    intro i isBit filter isFilter
    rcases adds.bits i isBit with isOld | ⟨other,isEnd,isOther⟩
    · exact Or.inl (adds.applies filter (planned.bits i isOld filter isFilter))
    · rw [List.getElem?_append_left (List.getElem?_eq_some_iff.mp isOther).1,isOther] at isFilter
      cases isFilter
      exact Or.inr isEnd
  refine ⟨?_,?_,?_,bits,fun noGeo => adds.complete.mpr (planned.complete noGeo)⟩
  · intro filter member
    obtain ⟨i,isFilter⟩ := mem_iff_getElem?.mp member
    have inside := (List.getElem?_eq_some_iff.mp isFilter).1
    refine bits i (all i inside) filter ?_
    rw [List.getElem?_append_left inside]
    exact isFilter
  · intro complete filter member
    exact adds.applies filter (paths (adds.complete.mp complete) filter member)
  · intro complete filter member
    rw [adds.equalities] at member
    exact adds.applies filter (planned.equalities (adds.complete.mp complete) filter member)

end Finish

section Run
variable {elements : List (GroupElement T)} {internalVarCount : Nat}

def visitElements (estimates : Estimates T) (activeGraphVariable : Option Variable) (filters : List (SparqlFilter T)) (internalVarCount : Nat)
    (elements : List (GroupElement T)) : Option (GraphPatternPlanner T) :=
  elements.foldlM (visitElement estimates activeGraphVariable) {filters := filters,internalVarCount := internalVarCount}

theorem GroupInv.initial (estimates : Estimates T) (filters : List (SparqlFilter T)) (internalVarCount : Nat) :
    GroupInv estimates filters {filters := filters,internalVarCount := internalVarCount} where
  isFilterList := ⟨[],by simp,by simp⟩
  optimized := Nat.zero_le _
  carried := by simp
  applied i filter _ isOld := absurd isOld (Nat.not_lt_zero i)
  pending i filter isPathFilter _ isFilter := absurd (List.getElem?_eq_some_iff.mp isFilter).1 (by simpa using isPathFilter)

theorem visitElements_inv {s : GraphPatternPlanner T}
    (noStaleBits : ∀ before s,before <+: elements → visitElements estimates activeGraphVariable filters internalVarCount before = some s →
      NoStaleBits activeGraphVariable s)
    (done : visitElements estimates activeGraphVariable filters internalVarCount elements = some s) : GroupInv estimates filters s := by
  induction elements using reverseRecOn generalizing s with
  | nil =>
    cases done
    exact .initial estimates filters internalVarCount
  | append_singleton elements element ih =>
    rw [visitElements,foldlM_append,bind_eq_bind,bind_eq_some_iff] at done
    obtain ⟨middle,before,last⟩ := done
    rw [foldlM_cons,bind_eq_bind,bind_eq_some_iff] at last
    obtain ⟨next,visited,last⟩ := last
    cases last
    have inv := ih (fun other s isPrefix => noStaleBits other s (isPrefix.trans (prefix_append _ _))) before
    exact visitElement_inv inv (noStaleBits elements middle (prefix_append _ _) before) visited

/-- The group `?x <p> ?x . BIND (.. AS ?b) ?x <p> ?y . ?y <p> ?y`. -/
def repeatedVariables : List (GroupElement Nat) := [
  .triple ⟨.var "x",.term 1,.var "x"⟩,
  .bind "b",
  .triple ⟨.var "x",.term 1,.var "y"⟩,
  .triple ⟨.var "y",.term 1,.var "y"⟩]

def repeatedVariablesTree : QueryExecutionTree Nat :=
  .join
    (.bind "b" (.filter (.equal (internalVariable 0) "x")
      (.indexScan .PSO {s := .var "x",p := .term 1,o := .var (internalVariable 0)} [.equal (internalVariable 0) "x"])))
    (.join (.indexScan .PSO {s := .var "x",p := .term 1,o := .var "y"} [])
      (.indexScan .PSO {s := .var "y",p := .term 1,o := .var (internalVariable 1)} [.equal (internalVariable 1) "y"]))

theorem optimize_repeatedVariables :
    (optimize (zeroEstimates Nat) none repeatedVariables [] 0).map (List.map (·.qet)) = some [repeatedVariablesTree] := by
  decide +kernel

/-- The group `?x <p> ?x . BIND (.. AS ?b) ?x <p> ?y` with a filter for `?y`. -/
def boundGroup : List (GroupElement Nat) := [.triple ⟨.var "x",.term 1,.var "x"⟩,.bind "b",.triple ⟨.var "x",.term 1,.var "y"⟩]

end Run
end QueryPlanner
end Qlever
