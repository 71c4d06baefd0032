import Qlever.Library.Run
import Qlever.QueryPlannerFilters

/-! The plans that are built from the seeds of one round of optimization. Combining plans keeps the filters that are
applied in them, so a set filter bit stands for an applied filter if this is so in the seeds.
-/
namespace Qlever
open Option (bind_eq_bind bind_eq_some_iff)
namespace QueryPlanner
open Library
variable {T : Type}

namespace QueryExecutionTree

/-- The filter is applied in this group to a subtree that covers its variables, or a spatial join substitutes it. -/
def Applies (filter : SparqlFilter T) : QueryExecutionTree T → Prop
  | .filter other child => other = filter ∧ (∀ name ∈ filter.containedVariables,name ∈ child.variableColumns) ∨ child.Applies filter
  | .join left right => left.Applies filter ∨ right.Applies filter
  | .cartesianProductJoin left right => left.Applies filter ∨ right.Applies filter
  | .spatialJoin other _ _ childLeft childRight => other = filter ∨ childLeft.Applies filter ∨ childRight.Applies filter
  | .optionalJoin left _ => left.Applies filter
  | .minus left _ => left.Applies filter
  | .bind _ child => child.Applies filter
  | _ => False

def equalities : QueryExecutionTree T → List (SparqlFilter T)
  | .indexScan _ _ equalities => equalities
  | .filter _ child => child.equalities
  | .join left right => left.equalities ++ right.equalities
  | .cartesianProductJoin left right => left.equalities ++ right.equalities
  | .spatialJoin _ _ _ childLeft childRight => childLeft.equalities ++ childRight.equalities
  | .optionalJoin left _ => left.equalities
  | .minus left _ => left.equalities
  | .bind _ child => child.equalities
  | _ => []

def IsComplete : QueryExecutionTree T → Prop
  | .filter _ child => child.IsComplete
  | .join left right => left.IsComplete ∧ right.IsComplete
  | .cartesianProductJoin left right => left.IsComplete ∧ right.IsComplete
  | .spatialJoin _ _ _ childLeft childRight =>
    childLeft.isMissing = false ∧ childRight.isMissing = false ∧ childLeft.IsComplete ∧ childRight.IsComplete
  | .optionalJoin left _ => left.IsComplete
  | .minus left _ => left.IsComplete
  | .bind _ child => child.IsComplete
  | _ => True

inductive Contains : QueryExecutionTree T → QueryExecutionTree T → Prop
  | refl (tree : QueryExecutionTree T) : Contains tree tree
  | filter {child part : QueryExecutionTree T} (filter : SparqlFilter T) (contains : Contains child part) : Contains (.filter filter child) part
  | joinLeft {left part : QueryExecutionTree T} (right : QueryExecutionTree T) (contains : Contains left part) : Contains (.join left right) part
  | joinRight {right part : QueryExecutionTree T} (left : QueryExecutionTree T) (contains : Contains right part) : Contains (.join left right) part
  | productLeft {left part : QueryExecutionTree T} (right : QueryExecutionTree T) (contains : Contains left part) :
    Contains (.cartesianProductJoin left right) part
  | productRight {right part : QueryExecutionTree T} (left : QueryExecutionTree T) (contains : Contains right part) :
    Contains (.cartesianProductJoin left right) part
  | spatialLeft {childLeft part : QueryExecutionTree T} (filter : SparqlFilter T) (left right : Variable) (childRight : QueryExecutionTree T)
    (contains : Contains childLeft part) : Contains (.spatialJoin filter left right childLeft childRight) part
  | spatialRight {childRight part : QueryExecutionTree T} (filter : SparqlFilter T) (left right : Variable) (childLeft : QueryExecutionTree T)
    (contains : Contains childRight part) : Contains (.spatialJoin filter left right childLeft childRight) part
  | optionalJoin {left part : QueryExecutionTree T} (right : QueryExecutionTree T) (contains : Contains left part) :
    Contains (.optionalJoin left right) part
  | minus {left part : QueryExecutionTree T} (right : QueryExecutionTree T) (contains : Contains left part) : Contains (.minus left right) part
  | bind {child part : QueryExecutionTree T} (target : Variable) (contains : Contains child part) : Contains (.bind target child) part

variable {tree part : QueryExecutionTree T}

theorem Contains.applies (contains : tree.Contains part) {filter : SparqlFilter T} (holds : part.Applies filter) : tree.Applies filter := by
  induction contains with
  | refl => exact holds
  | filter _ _ ih | joinRight _ _ ih | productRight _ _ ih => exact Or.inr (ih holds)
  | joinLeft _ _ ih | productLeft _ _ ih => exact Or.inl (ih holds)
  | spatialLeft _ _ _ _ _ ih => exact Or.inr (Or.inl (ih holds))
  | spatialRight _ _ _ _ _ ih => exact Or.inr (Or.inr (ih holds))
  | optionalJoin _ _ ih | minus _ _ ih | bind _ _ ih => exact ih holds

theorem Contains.complete (contains : tree.Contains part) (complete : tree.IsComplete) : part.IsComplete := by
  induction contains with
  | refl => exact complete
  | filter _ _ ih | optionalJoin _ _ ih | minus _ _ ih | bind _ _ ih => exact ih complete
  | joinLeft _ _ ih | productLeft _ _ ih => exact ih complete.1
  | joinRight _ _ ih | productRight _ _ ih => exact ih complete.2
  | spatialLeft _ _ _ _ _ ih => exact ih complete.2.2.1
  | spatialRight _ _ _ _ _ ih => exact ih complete.2.2.2

theorem spatialJoin_columns {filter : SparqlFilter T} {var1 var2 : Variable} {left right : QueryExecutionTree T}
    (complete : (spatialJoin filter var1 var2 left right).IsComplete) :
    (spatialJoin filter var1 var2 left right).variableColumns = left.variableColumns ++ right.variableColumns := by
  obtain ⟨hasLeft,hasRight,_⟩ := complete
  simp [variableColumns,hasLeft,hasRight]

theorem Contains.columns (contains : tree.Contains part) (complete : tree.IsComplete) {name : Variable} (member : name ∈ part.variableColumns) :
    name ∈ tree.variableColumns := by
  induction contains with
  | refl => exact member
  | filter _ _ ih | minus _ _ ih => exact ih complete member
  | joinLeft _ _ ih | productLeft _ _ ih => exact List.mem_append_left _ (ih complete.1 member)
  | joinRight _ _ ih | productRight _ _ ih => exact List.mem_append_right _ (ih complete.2 member)
  | spatialLeft _ _ _ _ _ ih =>
    rw [spatialJoin_columns complete]
    exact List.mem_append_left _ (ih complete.2.2.1 member)
  | spatialRight _ _ _ _ _ ih =>
    rw [spatialJoin_columns complete]
    exact List.mem_append_right _ (ih complete.2.2.2 member)
  | optionalJoin _ _ ih | bind _ _ ih => exact List.mem_append_left _ (ih complete member)

def HasDistinctVariables : QueryExecutionTree T → Prop
  | .spatialJoin _ left right _ _ => left ≠ right
  | _ => True

theorem missing_of_isMissing (missing : tree.isMissing = true) : tree = .missing := by
  cases tree <;> first | rfl | cases missing

theorem not_isComplete (incomplete : tree.isIncompleteSpatialJoin = true) : ¬ tree.IsComplete := by
  cases tree with
  | spatialJoin filter left right childLeft childRight =>
    intro complete
    obtain ⟨hasLeft,hasRight,_⟩ := complete
    simp [isIncompleteSpatialJoin,hasLeft,hasRight] at incomplete
  | _ => cases incomplete

theorem addChild_cases {spatial other next : QueryExecutionTree T} {var : Variable} (distinct : spatial.HasDistinctVariables)
    (incomplete : spatial.isIncompleteSpatialJoin = true) (isColumn : var ∈ spatial.variableColumns) (added : addChild spatial other var = some next) :
    ∃ filter left right,left ≠ right ∧
      ((∃ child,spatial = .spatialJoin filter left right .missing child ∧ next = .spatialJoin filter left right other child) ∨
        ∃ child,spatial = .spatialJoin filter left right child .missing ∧ next = .spatialJoin filter left right child other) := by
  cases spatial with
  | spatialJoin filter left right childLeft childRight =>
    refine ⟨filter,left,right,distinct,?_⟩
    simp only [isIncompleteSpatialJoin,Bool.or_eq_true] at incomplete
    simp only [addChild] at added
    split at added
    next isLeft =>
      cases added
      cases hasLeft : childLeft.isMissing with
      | true =>
        rw [missing_of_isMissing hasLeft]
        exact Or.inl ⟨childRight,rfl,rfl⟩
      | false =>
        -- The only column is that of the right child, which is another variable.
        have noRight : childRight.isMissing = true := incomplete.resolve_left (by simp [hasLeft])
        simp only [variableColumns,hasLeft,noRight,Bool.false_and,Bool.false_eq_true,if_false,if_true,List.mem_singleton] at isColumn
        exact absurd (isLeft.symm.trans isColumn) distinct
    next notLeft =>
      split at added
      next isRight =>
        cases added
        cases hasRight : childRight.isMissing with
        | true =>
          rw [missing_of_isMissing hasRight]
          exact Or.inr ⟨childLeft,rfl,rfl⟩
        | false =>
          have noLeft : childLeft.isMissing = true := incomplete.resolve_right (by simp [hasRight])
          simp only [variableColumns,hasRight,noLeft,Bool.and_false,Bool.false_eq_true,if_false,if_true,List.mem_singleton] at isColumn
          exact absurd isColumn notLeft
      next => cases added
  | _ => cases incomplete

end QueryExecutionTree
def QueryExecutionTree.isSpatial : QueryExecutionTree T → Bool
  | .spatialJoin _ _ _ _ _ => true
  | .missing => true
  | _ => false

/-- The ways in which a plan may be built besides joins and filters: with spatial joins that substitute filters, and with
Cartesian products. -/
structure Allowed where
  substitutes : Prop
  products : Prop

inductive Leaves (seeds : List (SubtreePlan T)) : QueryExecutionTree T → List (SubtreePlan T) → Prop
  | seed {seed : SubtreePlan T} (member : seed ∈ seeds) : Leaves seeds seed.qet [seed]
  | filter {child : QueryExecutionTree T} {leaves : List (SubtreePlan T)} (filter : SparqlFilter T) (isTree : Leaves seeds child leaves) :
    Leaves seeds (.filter filter child) leaves
  | join {left right : QueryExecutionTree T} {leavesLeft leavesRight : List (SubtreePlan T)} (isLeft : Leaves seeds left leavesLeft)
    (isRight : Leaves seeds right leavesRight) : Leaves seeds (.join left right) (leavesLeft ++ leavesRight)

/-- A tree of joins and filters that has a leaf for each of its node bits, and no two leaves with the same one. -/
structure IsJoinTree (seeds : List (SubtreePlan T)) (plan : SubtreePlan T) (leaves : List (SubtreePlan T)) : Prop where
  tree : Leaves seeds plan.qet leaves
  disjoint : leaves.Pairwise (fun a b => Disjoint a.idsOfIncludedNodes b.idsOfIncludedNodes)
  nodes : ∀ id,id ∈ plan.idsOfIncludedNodes ↔ ∃ leaf ∈ leaves,id ∈ leaf.idsOfIncludedNodes

/-- A plan that is built from the seeds: it contains a seed for each of its node bits, and a set filter bit stands for
a filter of the list that is applied. -/
structure Built (allowed : Allowed) (seeds : List (SubtreePlan T)) (filters : List (SparqlFilter T)) (plan : SubtreePlan T) : Prop where
  type : plan.type = .BASIC
  distinct : plan.qet.HasDistinctVariables
  nodes : ∀ id ∈ plan.idsOfIncludedNodes,∃ seed ∈ seeds,seed.idsOfIncludedNodes = {id} ∧ plan.qet.Contains seed.qet
  equalities : ∀ filter ∈ plan.qet.equalities,∃ seed ∈ seeds,filter ∈ seed.qet.equalities ∧ plan.qet.Contains seed.qet
  bits : ∀ i ∈ plan.idsOfIncludedFilters,∀ filter,filters[i]? = some filter → plan.qet.Applies filter
  substituted : plan.qet.isSpatial = true → plan.idsOfIncludedFilters.Nonempty
  complete : ¬ allowed.substitutes → plan.qet.IsComplete
  leaves : ¬ allowed.substitutes → ¬ allowed.products → ∃ leaves,IsJoinTree seeds plan leaves

structure IsSeed (allowed : Allowed) (filters : List (SparqlFilter T)) (seed : SubtreePlan T) : Prop where
  type : seed.type = .BASIC
  notSpatial : seed.qet.isSpatial = false
  nodes : ∃ id,seed.idsOfIncludedNodes = {id}
  bits : ∀ i ∈ seed.idsOfIncludedFilters,∀ filter,filters[i]? = some filter → seed.qet.Applies filter
  complete : ¬ allowed.substitutes → seed.qet.IsComplete

section Built
variable {allowed : Allowed} {seeds : List (SubtreePlan T)} {filters : List (SparqlFilter T)} {a b plan : SubtreePlan T}

theorem IsSeed.built (isSeed : IsSeed allowed filters plan) (member : plan ∈ seeds) : Built allowed seeds filters plan where
  type := isSeed.type
  distinct := by
    have notSpatial := isSeed.notSpatial
    cases isTree : plan.qet with
    | spatialJoin => simp [isTree,QueryExecutionTree.isSpatial] at notSpatial
    | _ => trivial
  nodes := by
    obtain ⟨id,isNode⟩ := isSeed.nodes
    intro other isMember
    rw [isNode,Finset.mem_singleton] at isMember
    exact ⟨plan,member,by rw [isNode,isMember],.refl _⟩
  equalities filter isMember := ⟨plan,member,isMember,.refl _⟩
  bits := isSeed.bits
  substituted isSpatial := by
    rw [isSeed.notSpatial] at isSpatial
    cases isSpatial
  complete := isSeed.complete
  leaves _ _ := ⟨[plan],.seed member,List.pairwise_singleton _ _,by simp⟩

variable {others : List (SubtreePlan T)}

theorem Leaves.mono {tree : QueryExecutionTree T} {leaves : List (SubtreePlan T)} (isTree : Leaves seeds tree leaves)
    (subset : ∀ seed ∈ seeds,seed ∈ others) : Leaves others tree leaves := by
  induction isTree with
  | seed member => exact .seed (subset _ member)
  | filter filter _ ih => exact .filter filter ih
  | join _ _ left right => exact .join left right

theorem Built.mono (built : Built allowed seeds filters plan) (subset : ∀ seed ∈ seeds,seed ∈ others) :
    Built allowed others filters plan where
  type := built.type
  distinct := built.distinct
  nodes id member := by
    obtain ⟨seed,isSeed,rest⟩ := built.nodes id member
    exact ⟨seed,subset seed isSeed,rest⟩
  equalities filter member := by
    obtain ⟨seed,isSeed,rest⟩ := built.equalities filter member
    exact ⟨seed,subset seed isSeed,rest⟩
  bits := built.bits
  substituted := built.substituted
  complete := built.complete
  leaves noSubstitutes noProducts := by
    obtain ⟨leaves,isJoinTree⟩ := built.leaves noSubstitutes noProducts
    exact ⟨leaves,isJoinTree.tree.mono subset,isJoinTree.disjoint,isJoinTree.nodes⟩

abbrev NoneSpatial (seeds : List (SubtreePlan T)) : Prop := ∀ seed ∈ seeds,seed.qet.isSpatial = false

theorem Built.combine (allSeeds : NoneSpatial seeds) (builtA : Built allowed seeds filters a) (builtB : Built allowed seeds filters b)
    {qet : QueryExecutionTree T} (distinct : qet.HasDistinctVariables)
    (containsA : ∀ part,part.isSpatial = false → a.qet.Contains part → qet.Contains part)
    (containsB : ∀ part,part.isSpatial = false → b.qet.Contains part → qet.Contains part)
    (appliesA : ∀ filter,a.qet.Applies filter → qet.Applies filter) (appliesB : ∀ filter,b.qet.Applies filter → qet.Applies filter)
    (equalities : ∀ filter ∈ qet.equalities,filter ∈ a.qet.equalities ∨ filter ∈ b.qet.equalities)
    (substituted : qet.isSpatial = true → a.qet.isSpatial = true) (complete : a.qet.IsComplete → b.qet.IsComplete → qet.IsComplete)
    (leaves : ¬ allowed.substitutes → ¬ allowed.products → ∃ leaves,IsJoinTree seeds (mergeSubtreePlanIds {qet := qet} a b) leaves) :
    Built allowed seeds filters (mergeSubtreePlanIds {qet := qet} a b) where
  type := rfl
  distinct := distinct
  nodes id member := by
    rcases Finset.mem_union.mp member with inA | inB
    · obtain ⟨seed,isSeed,isNode,contains⟩ := builtA.nodes id inA
      exact ⟨seed,isSeed,isNode,containsA _ (allSeeds seed isSeed) contains⟩
    · obtain ⟨seed,isSeed,isNode,contains⟩ := builtB.nodes id inB
      exact ⟨seed,isSeed,isNode,containsB _ (allSeeds seed isSeed) contains⟩
  equalities filter member := by
    rcases equalities filter member with inA | inB
    · obtain ⟨seed,isSeed,isEquality,contains⟩ := builtA.equalities filter inA
      exact ⟨seed,isSeed,isEquality,containsA _ (allSeeds seed isSeed) contains⟩
    · obtain ⟨seed,isSeed,isEquality,contains⟩ := builtB.equalities filter inB
      exact ⟨seed,isSeed,isEquality,containsB _ (allSeeds seed isSeed) contains⟩
  bits i member filter isFilter := by
    rcases Finset.mem_union.mp member with inA | inB
    · exact appliesA filter (builtA.bits i inA filter isFilter)
    · exact appliesB filter (builtB.bits i inB filter isFilter)
  substituted isSpatial := (builtA.substituted (substituted isSpatial)).mono Finset.subset_union_left
  complete noSubstitutes := complete (builtA.complete noSubstitutes) (builtB.complete noSubstitutes)
  leaves := leaves

theorem Built.join (allSeeds : NoneSpatial seeds) (builtA : Built allowed seeds filters a) (builtB : Built allowed seeds filters b)
    (disjoint : Disjoint a.idsOfIncludedNodes b.idsOfIncludedNodes) :
    Built allowed seeds filters (mergeSubtreePlanIds {qet := .join a.qet b.qet} a b) := by
  refine Built.combine allSeeds builtA builtB trivial ?_ ?_ ?_ ?_ ?_ (by simp [QueryExecutionTree.isSpatial]) And.intro ?_
  · exact fun part _ contains => .joinLeft _ contains
  · exact fun part _ contains => .joinRight _ contains
  · exact fun filter holds => Or.inl holds
  · exact fun filter holds => Or.inr holds
  · exact fun filter member => List.mem_append.mp member
  · intro noSubstitutes noProducts
    obtain ⟨leavesA,treeA⟩ := builtA.leaves noSubstitutes noProducts
    obtain ⟨leavesB,treeB⟩ := builtB.leaves noSubstitutes noProducts
    refine ⟨leavesA ++ leavesB,.join treeA.tree treeB.tree,List.pairwise_append.mpr ⟨treeA.disjoint,treeB.disjoint,?_⟩,?_⟩
    · intro leafA inA leafB inB
      rw [Finset.disjoint_left]
      intro id isA isB
      exact Finset.disjoint_left.mp disjoint ((treeA.nodes id).mpr ⟨leafA,inA,isA⟩) ((treeB.nodes id).mpr ⟨leafB,inB,isB⟩)
    · intro id
      simp only [mergeSubtreePlanIds,Finset.mem_union,treeA.nodes,treeB.nodes,List.mem_append]
      constructor
      · rintro (⟨leaf,member,isNode⟩ | ⟨leaf,member,isNode⟩)
        · exact ⟨leaf,Or.inl member,isNode⟩
        · exact ⟨leaf,Or.inr member,isNode⟩
      · rintro ⟨leaf,inA | inB,isNode⟩
        · exact Or.inl ⟨leaf,inA,isNode⟩
        · exact Or.inr ⟨leaf,inB,isNode⟩

theorem mergeSubtreePlanIds_comm (target a b : SubtreePlan T) : mergeSubtreePlanIds target a b = mergeSubtreePlanIds target b a := by
  simp only [mergeSubtreePlanIds,Finset.union_comm,Bool.or_comm]

theorem Built.addChild (allSeeds : NoneSpatial seeds) (builtA : Built allowed seeds filters a) (builtB : Built allowed seeds filters b)
    {next : QueryExecutionTree T} {var : Variable} (incomplete : a.qet.isIncompleteSpatialJoin = true) (isColumn : var ∈ a.qet.variableColumns)
    (added : addChild a.qet b.qet var = some next) : Built allowed seeds filters (mergeSubtreePlanIds {qet := next} a b) := by
  obtain ⟨filter,left,right,distinct,⟨child,isTree,rfl⟩ | ⟨child,isTree,rfl⟩⟩ :=
    QueryExecutionTree.addChild_cases builtA.distinct incomplete isColumn added
  · refine Built.combine allSeeds builtA builtB distinct ?_ ?_ ?_ ?_ ?_ (fun _ => by rw [isTree]; rfl) (fun complete => absurd complete (QueryExecutionTree.not_isComplete incomplete))
      (fun noSubstitutes => absurd (builtA.complete noSubstitutes) (QueryExecutionTree.not_isComplete incomplete))
    · intro part notSpatial contains
      rw [isTree] at contains
      cases contains with
      | refl => cases notSpatial
      | spatialLeft _ _ _ _ contains =>
        cases contains
        cases notSpatial
      | spatialRight _ _ _ _ contains => exact .spatialRight _ _ _ _ contains
    · exact fun part _ contains => .spatialLeft _ _ _ _ contains
    · intro other holds
      rw [isTree] at holds
      rcases holds with isFilter | inLeft | inRight
      · exact Or.inl isFilter
      · cases inLeft
      · exact Or.inr (Or.inr inRight)
    · exact fun other holds => Or.inr (Or.inl holds)
    · intro other member
      rw [isTree]
      rcases List.mem_append.mp member with inLeft | inRight
      · exact Or.inr inLeft
      · exact Or.inl (List.mem_append_right _ inRight)
  · refine Built.combine allSeeds builtA builtB distinct ?_ ?_ ?_ ?_ ?_ (fun _ => by rw [isTree]; rfl) (fun complete => absurd complete (QueryExecutionTree.not_isComplete incomplete))
      (fun noSubstitutes => absurd (builtA.complete noSubstitutes) (QueryExecutionTree.not_isComplete incomplete))
    · intro part notSpatial contains
      rw [isTree] at contains
      cases contains with
      | refl => cases notSpatial
      | spatialLeft _ _ _ _ contains => exact .spatialLeft _ _ _ _ contains
      | spatialRight _ _ _ _ contains =>
        cases contains
        cases notSpatial
    · exact fun part _ contains => .spatialRight _ _ _ _ contains
    · intro other holds
      rw [isTree] at holds
      rcases holds with isFilter | inLeft | inRight
      · exact Or.inl isFilter
      · exact Or.inr (Or.inl inLeft)
      · cases inRight
    · exact fun other holds => Or.inr (Or.inr holds)
    · intro other member
      rw [isTree]
      rcases List.mem_append.mp member with inLeft | inRight
      · exact Or.inl (List.mem_append_left _ inLeft)
      · exact Or.inr inRight

variable {name : Variable}

theorem mem_getJoinColumns (member : name ∈ getJoinColumns a b) : name ∈ a.qet.variableColumns ∧ name ∈ b.qet.variableColumns := by
  rw [getJoinColumns,List.mem_dedup,List.mem_filter] at member
  exact ⟨member.1,by simpa using member.2⟩

def JoinOf (allowed : Allowed) (seeds : List (SubtreePlan T)) (filters : List (SparqlFilter T)) (a b plan : SubtreePlan T) : Prop :=
  Built allowed seeds filters plan ∧ plan.idsOfIncludedNodes = a.idsOfIncludedNodes ∪ b.idsOfIncludedNodes ∧
    plan.idsOfIncludedFilters = a.idsOfIncludedFilters ∪ b.idsOfIncludedFilters

section
variable (allSeeds : NoneSpatial seeds) (builtA : Built allowed seeds filters a) (builtB : Built allowed seeds filters b)
include allSeeds builtA builtB

variable {jcs : List Variable}

theorem createSpatialJoin_built (columns : ∀ name ∈ jcs,name ∈ a.qet.variableColumns ∧ name ∈ b.qet.variableColumns)
    (created : createSpatialJoin a b jcs = some (some plan)) : JoinOf allowed seeds filters a b plan := by
  unfold createSpatialJoin at created
  split at created
  next => cases created
  next different =>
    split at created
    next var =>
      obtain ⟨inA,inB⟩ := columns var (List.mem_singleton_self var)
      cases isA : a.qet.isIncompleteSpatialJoin with
      | true =>
        simp only [isA,if_true,bind_eq_bind,bind_eq_some_iff] at created
        obtain ⟨next,added,isPlan⟩ := created
        cases isPlan
        exact ⟨builtA.addChild allSeeds builtB isA inA added,rfl,rfl⟩
      | false =>
        have isB : b.qet.isIncompleteSpatialJoin = true := by
          rw [isA] at different
          simpa using different
        simp only [isA,Bool.false_eq_true,if_false,bind_eq_bind,bind_eq_some_iff] at created
        obtain ⟨next,added,isPlan⟩ := created
        cases isPlan
        rw [mergeSubtreePlanIds_comm]
        exact ⟨builtB.addChild allSeeds builtA isB inB added,Finset.union_comm _ _,Finset.union_comm _ _⟩
    next => cases created

theorem createJoinCandidatesOn_built
    (disjoint : Disjoint a.idsOfIncludedNodes b.idsOfIncludedNodes) (columns : ∀ name ∈ jcs,name ∈ a.qet.variableColumns ∧ name ∈ b.qet.variableColumns)
    {plans : List (SubtreePlan T)} (created : createJoinCandidatesOn a b jcs = some plans) : ∀ plan ∈ plans,JoinOf allowed seeds filters a b plan := by
  unfold createJoinCandidatesOn at created
  split at created
  next =>
    cases created
    simp
  next =>
    split at created
    next =>
      cases created
      simp
    next =>
      rw [bind_eq_bind,bind_eq_some_iff] at created
      obtain ⟨spatial,isSpatial,created⟩ := created
      split at created
      next plan =>
        cases created
        intro other member
        rw [List.mem_singleton.mp member]
        exact createSpatialJoin_built allSeeds builtA builtB columns isSpatial
      next =>
        simp only [builtA.type,ne_eq,not_true_eq_false,if_false,builtB.type] at created
        cases created
        intro other member
        rw [List.mem_singleton.mp member]
        exact ⟨builtA.join allSeeds builtB disjoint,rfl,rfl⟩

end

variable {tg : Option TripleGraph}

theorem mem_connected (member : name ∈ connected a b tg) :
    Disjoint a.idsOfIncludedNodes b.idsOfIncludedNodes ∧ name ∈ getJoinColumns a b := by
  unfold connected at member
  split at member
  next => cases member
  next disjoint =>
    refine ⟨by simpa using disjoint,?_⟩
    split at member
    next => exact member
    next =>
      split at member
      next => exact member
      next =>
        split at member
        next => exact member
        next =>
          split at member
          next => exact member
          next => cases member

theorem createJoinCandidates_built (allSeeds : NoneSpatial seeds) (builtA : Built allowed seeds filters a)
    (builtB : Built allowed seeds filters b) {plans : List (SubtreePlan T)} (created : createJoinCandidates a b tg = some plans) :
    ∀ plan ∈ plans,JoinOf allowed seeds filters a b plan ∧ Disjoint a.idsOfIncludedNodes b.idsOfIncludedNodes := by
  intro plan member
  have disjoint : Disjoint a.idsOfIncludedNodes b.idsOfIncludedNodes := by
    by_contra overlapping
    have nothing : connected a b tg = [] := by
      unfold connected
      exact if_pos overlapping
    rw [createJoinCandidates,nothing] at created
    cases created
    cases member
  exact ⟨createJoinCandidatesOn_built allSeeds builtA builtB disjoint (fun name isColumn => mem_getJoinColumns (mem_connected isColumn).2)
    created plan member,disjoint⟩

theorem merge_built (estimates : Estimates T) (allSeeds : NoneSpatial seeds) {rowA rowB merged : List (SubtreePlan T)}
    (builtA : ∀ plan ∈ rowA,Built allowed seeds filters plan) (builtB : ∀ plan ∈ rowB,Built allowed seeds filters plan) {tg : TripleGraph}
    (isMerged : merge estimates rowA rowB tg = some merged) :
    ∀ plan ∈ merged,∃ a ∈ rowA,∃ b ∈ rowB,JoinOf allowed seeds filters a b plan ∧ Disjoint a.idsOfIncludedNodes b.idsOfIncludedNodes := by
  simp only [merge,bind_eq_bind,bind_eq_some_iff] at isMerged
  obtain ⟨plans,created,isMerged⟩ := isMerged
  cases isMerged
  intro plan member
  obtain ⟨key,_,isCheapest⟩ := List.mem_filterMap.mp member
  have isCandidate := (List.mem_filter.mp (List.argmin_mem isCheapest)).1
  obtain ⟨candidates,isList,isMember⟩ := List.mem_flatten.mp isCandidate
  obtain ⟨⟨a,b⟩,isPair,isCreated⟩ := exists_of_mem_mapM created isList
  obtain ⟨inA,inB⟩ := List.pair_mem_product.mp isPair
  exact ⟨a,inA,b,inB,createJoinCandidates_built allSeeds (builtA a inA) (builtB b inB) isCreated plan isMember⟩

end Built

section Apply
variable {allowed : Allowed} {seeds : List (SubtreePlan T)} {filters : List (SparqlFilter T)} {substitutes : List (FilterAndOptionalSubstitute T)}

structure IsSeeded (allowed : Allowed) (filters : List (SparqlFilter T)) (substitutes : List (FilterAndOptionalSubstitute T)) : Prop where
  same : substitutes.map (·.filter) = filters
  substitute : ∀ i (entry : FilterAndOptionalSubstitute T),substitutes[i]? = some entry → ∀ substitute ∈ entry.substitute,∃ left right,
    left ≠ right ∧ substitute = {
      qet := .spatialJoin entry.filter left right .missing .missing
      idsOfIncludedFilters := {i}
      containsFilterSubstitute := true}
  noSubstitute : ¬ allowed.substitutes → ∀ entry ∈ substitutes,entry.substitute = none

variable {i : Nat} {entry : FilterAndOptionalSubstitute T}

theorem IsSeeded.substitute_built (isSeeded : IsSeeded allowed filters substitutes)     (isEntry : substitutes[i]? = some entry) {substitute : SubtreePlan T} (isSubstitute : entry.substitute = some substitute) :
    Built allowed seeds filters substitute ∧ substitute.idsOfIncludedNodes = ∅ := by
  obtain ⟨left,right,distinct,rfl⟩ := isSeeded.substitute i entry isEntry substitute isSubstitute
  refine ⟨⟨rfl,distinct,by simp,by simp [QueryExecutionTree.equalities],?_,fun _ => Finset.singleton_nonempty i,?_,?_⟩,rfl⟩
  · intro j member filter isFilter
    rw [Finset.mem_singleton.mp member,← isSeeded.same,List.getElem?_map,isEntry] at isFilter
    cases isFilter
    exact Or.inl rfl
  all_goals
    intro noSubstitutes
    rw [isSeeded.noSubstitute noSubstitutes entry (List.mem_of_getElem? isEntry)] at isSubstitute
    cases isSubstitute

/-- What applying filters to a plan of a row yields, in one of the modes in which the variables have to be covered. -/
structure Applied (allowed : Allowed) (seeds : List (SubtreePlan T)) (filters : List (SparqlFilter T)) (plan next : SubtreePlan T) : Prop where
  built : Built allowed seeds filters next
  columns : next.qet.variableColumns = plan.qet.variableColumns
  nodes : next.idsOfIncludedNodes = plan.idsOfIncludedNodes
  bits : plan.idsOfIncludedFilters ⊆ next.idsOfIncludedFilters

variable {plan : SubtreePlan T}

theorem Applied.refl (built : Built allowed seeds filters plan) : Applied allowed seeds filters plan plan :=
  ⟨built,rfl,rfl,fun _ member => member⟩

theorem Applied.trans
    {middle next : SubtreePlan T} (first : Applied allowed seeds filters plan middle) (second : Applied allowed seeds filters middle next) :
    Applied allowed seeds filters plan next where
  built := second.built
  columns := second.columns.trans first.columns
  nodes := second.nodes.trans first.nodes
  bits := first.bits.trans second.bits

theorem Applied.filter
    (built : Built allowed seeds filters plan) {filter : SparqlFilter T} (isFilter : filters[i]? = some filter)
    (covered : ∀ name ∈ filter.containedVariables,name ∈ plan.qet.variableColumns) :
    Applied allowed seeds filters plan {plan with qet := .filter filter plan.qet,idsOfIncludedFilters := insert i plan.idsOfIncludedFilters} where
  built := {
    type := built.type
    distinct := trivial
    nodes := by
      intro id member
      obtain ⟨seed,isSeed,isNode,contains⟩ := built.nodes id member
      exact ⟨seed,isSeed,isNode,.filter _ contains⟩
    equalities := by
      intro other member
      obtain ⟨seed,isSeed,isEquality,contains⟩ := built.equalities other member
      exact ⟨seed,isSeed,isEquality,.filter _ contains⟩
    bits := by
      intro j member other isOther
      rcases Finset.mem_insert.mp member with isNew | isOld
      · rw [isNew,isFilter] at isOther
        cases isOther
        exact Or.inl ⟨rfl,covered⟩
      · exact Or.inr (built.bits j isOld other isOther)
    substituted := fun isSpatial => by cases isSpatial
    complete := built.complete
    leaves := by
      intro noSubstitutes noProducts
      obtain ⟨leaves,isJoinTree⟩ := built.leaves noSubstitutes noProducts
      exact ⟨leaves,.filter filter isJoinTree.tree,isJoinTree.disjoint,isJoinTree.nodes⟩}
  columns := rfl
  nodes := rfl
  bits := Finset.subset_insert _ _

theorem IsSeeded.isFilter (isSeeded : IsSeeded allowed filters substitutes)     (isEntry : substitutes[i]? = some entry) : filters[i]? = some entry.filter := by
  rw [← isSeeded.same,List.getElem?_map,isEntry]
  rfl

theorem substituted_built (allSeeds : NoneSpatial seeds) (isSeeded : IsSeeded allowed filters substitutes)
    (isEntry : substitutes[i]? = some entry) {substitute : SubtreePlan T}
    (isSubstitute : entry.substitute = some substitute) (built : Built allowed seeds filters plan) {substPlans : List (SubtreePlan T)}
    (created : createJoinCandidatesOn substitute plan (getJoinColumns substitute plan) = some substPlans) {newPlan : SubtreePlan T}
    (member : newPlan ∈ substPlans) :
    Built allowed seeds filters {mergeSubtreePlanIds newPlan newPlan plan with type := plan.type,containsFilterSubstitute := true} ∧
      (mergeSubtreePlanIds newPlan newPlan plan).idsOfIncludedNodes = plan.idsOfIncludedNodes := by
  obtain ⟨substituteBuilt,noNodes⟩ := isSeeded.substitute_built isEntry isSubstitute
  obtain ⟨newBuilt,isNodes,isBits⟩ :=
    createJoinCandidatesOn_built allSeeds substituteBuilt built (by rw [noNodes]; exact Finset.disjoint_empty_left _) (fun name isColumn => mem_getJoinColumns isColumn) created newPlan member
  have sameNodes : newPlan.idsOfIncludedNodes ∪ plan.idsOfIncludedNodes = newPlan.idsOfIncludedNodes := by
    rw [Finset.union_eq_left,isNodes]
    exact Finset.subset_union_right
  have sameBits : newPlan.idsOfIncludedFilters ∪ plan.idsOfIncludedFilters = newPlan.idsOfIncludedFilters := by
    rw [Finset.union_eq_left,isBits]
    exact Finset.subset_union_right
  refine ⟨⟨built.type,newBuilt.distinct,?_,newBuilt.equalities,?_,fun isSpatial => (newBuilt.substituted isSpatial).mono Finset.subset_union_left,
    newBuilt.complete,?_⟩,?_⟩
  · simp only [mergeSubtreePlanIds,sameNodes]
    exact newBuilt.nodes
  · simp only [mergeSubtreePlanIds,sameBits]
    exact newBuilt.bits
  · intro noSubstitutes noProducts
    obtain ⟨leaves,isJoinTree⟩ := newBuilt.leaves noSubstitutes noProducts
    refine ⟨leaves,isJoinTree.tree,isJoinTree.disjoint,?_⟩
    simp only [mergeSubtreePlanIds,sameNodes]
    exact isJoinTree.nodes
  · simp only [mergeSubtreePlanIds,sameNodes]
    rw [isNodes,noNodes,Finset.empty_union]

structure AppliedAll (allowed : Allowed) (seeds : List (SubtreePlan T)) (filters : List (SparqlFilter T)) (plan : SubtreePlan T) (next : SubtreePlan T × List (SubtreePlan T)) :
    Prop where
  first : Applied allowed seeds filters plan next.1
  added : ∀ other ∈ next.2,Built allowed seeds filters other ∧ other.idsOfIncludedNodes = plan.idsOfIncludedNodes

def FilterMode.AppliesCovered (allowed : Allowed) (mode : FilterMode) : Prop :=
  mode = .ReplaceUnfilteredNoSubstitutes ∨ mode = .ReplaceUnfiltered ∧ ¬ allowed.substitutes

section
variable (allSeeds : NoneSpatial seeds) (isSeeded : IsSeeded allowed filters substitutes) {mode : FilterMode}
  (notAll : mode ≠ .ApplyAllFiltersAndReplaceUnfiltered) {plan : SubtreePlan T} {state next : SubtreePlan T × List (SubtreePlan T)}
  (before : AppliedAll allowed seeds filters plan state)
include allSeeds isSeeded notAll before

theorem applyFilterIfPossible_applied {i : Nat} {entry : FilterAndOptionalSubstitute T} (isEntry : substitutes[i]? = some entry)
    (taken : applyFilterIfPossible mode state (entry,i) = some next) :
    AppliedAll allowed seeds filters plan next ∧ state.1.idsOfIncludedFilters ⊆ next.1.idsOfIncludedFilters ∧
      (mode.AppliesCovered allowed → next.2 = state.2 ∧
        ((∀ name ∈ entry.filter.containedVariables,name ∈ plan.qet.variableColumns) → i ∈ next.1.idsOfIncludedFilters)) := by
  obtain ⟨current,addedPlans⟩ := state
  have built := before.first.built
  simp only [applyFilterIfPossible] at taken
  split at taken
  next isIncluded =>
    cases taken
    exact ⟨before,Finset.Subset.refl _,fun _ => ⟨rfl,fun _ => isIncluded⟩⟩
  next notIncluded =>
    split at taken
    next substitute isSubstitute =>
      have substituted : mode.allowSubstitutes = true ∧ entry.substitute = some substitute := by
        split at isSubstitute
        next isAllowed => exact ⟨(Bool.and_eq_true_iff.mp isAllowed).1,isSubstitute⟩
        next => cases isSubstitute
      rw [bind_eq_bind,bind_eq_some_iff] at taken
      obtain ⟨substPlans,created,taken⟩ := taken
      cases taken
      refine ⟨⟨before.first,?_⟩,Finset.Subset.refl _,?_⟩
      · intro other member
        rcases List.mem_append.mp member with isOld | isNew
        · exact before.added other isOld
        · obtain ⟨newPlan,isCandidate,rfl⟩ := List.mem_map.mp isNew
          obtain ⟨newBuilt,isNodes⟩ := substituted_built allSeeds isSeeded isEntry substituted.2 built created isCandidate
          exact ⟨newBuilt,isNodes.trans before.first.nodes⟩
      · rintro (noSubstitutes | ⟨_,noSubstitutes⟩)
        · rw [noSubstitutes] at substituted
          cases substituted.1
        · rw [isSeeded.noSubstitute noSubstitutes entry (List.mem_of_getElem? isEntry)] at substituted
          cases substituted.2
    next =>
      simp only [notAll,decide_false,Bool.false_or,List.all_eq_true,decide_eq_true_eq] at taken
      split at taken
      next covered =>
        have applied := Applied.filter built (isSeeded.isFilter isEntry) covered
        split at taken
        next keep =>
          cases taken
          refine ⟨⟨before.first,?_⟩,Finset.Subset.refl _,?_⟩
          on_goal 2 =>
            rintro (replace | ⟨replace,_⟩)
            all_goals exact absurd (keep.symm.trans replace) (by decide)
          intro other member
          rcases List.mem_append.mp member with isOld | isNew
          · exact before.added other isOld
          · rw [List.mem_singleton.mp isNew]
            exact ⟨applied.built,before.first.nodes⟩
        next =>
          cases taken
          exact ⟨⟨before.first.trans applied,before.added⟩,applied.bits,fun _ => ⟨rfl,fun _ => Finset.mem_insert_self i _⟩⟩
      next notCovered =>
        cases taken
        refine ⟨before,Finset.Subset.refl _,fun _ => ⟨rfl,?_⟩⟩
        intro covered
        rw [← before.first.columns] at covered
        exact absurd covered notCovered

theorem applyFilters_applied {entries : List (FilterAndOptionalSubstitute T × Nat)}
    (areEntries : ∀ entry ∈ entries,substitutes[entry.2]? = some entry.1) (taken : entries.foldlM (applyFilterIfPossible mode) state = some next) :
    AppliedAll allowed seeds filters plan next ∧ state.1.idsOfIncludedFilters ⊆ next.1.idsOfIncludedFilters ∧
      (mode.AppliesCovered allowed → next.2 = state.2 ∧ ∀ entry ∈ entries,
        (∀ name ∈ entry.1.filter.containedVariables,name ∈ plan.qet.variableColumns) → entry.2 ∈ next.1.idsOfIncludedFilters) := by
  induction entries generalizing state with
  | nil =>
    cases taken
    exact ⟨before,Finset.Subset.refl _,fun _ => ⟨rfl,by simp⟩⟩
  | cons entry entries ih =>
    rw [List.foldlM_cons,bind_eq_bind,bind_eq_some_iff] at taken
    obtain ⟨middle,first,rest⟩ := taken
    obtain ⟨afterFirst,moreBits,firstApplied⟩ :=
      applyFilterIfPossible_applied allSeeds isSeeded notAll before (areEntries entry List.mem_cons_self) first
    obtain ⟨after,evenMoreBits,restApplied⟩ := ih afterFirst (List.forall_mem_cons.mp areEntries).2 rest
    refine ⟨after,moreBits.trans evenMoreBits,?_⟩
    intro appliesCovered
    refine ⟨(restApplied appliesCovered).1.trans (firstApplied appliesCovered).1,?_⟩
    intro other member covered
    rcases List.mem_cons.mp member with rfl | later
    · exact evenMoreBits ((firstApplied appliesCovered).2 covered)
    · exact (restApplied appliesCovered).2 other later covered

end

theorem zipIdx_entry {entry : FilterAndOptionalSubstitute T × Nat} (member : entry ∈ substitutes.zipIdx) : substitutes[entry.2]? = some entry.1 := by
  obtain ⟨filter,i⟩ := entry
  rw [List.mem_zipIdx_iff_getElem?] at member
  exact member

variable {mode : FilterMode}

theorem applyFiltersIfPossible_built (allSeeds : NoneSpatial seeds) (isSeeded : IsSeeded allowed filters substitutes)
    (notAll : mode ≠ .ApplyAllFiltersAndReplaceUnfiltered) {row next : List (SubtreePlan T)}
    (built : ∀ plan ∈ row,Built allowed seeds filters plan) (taken : applyFiltersIfPossible mode row substitutes = some next) :
    (∀ plan ∈ next,Built allowed seeds filters plan ∧ ∃ old ∈ row,plan.idsOfIncludedNodes = old.idsOfIncludedNodes) ∧
      (∀ old ∈ row,∃ plan ∈ next,plan.idsOfIncludedNodes = old.idsOfIncludedNodes) := by
  simp only [applyFiltersIfPossible,bind_eq_bind,bind_eq_some_iff] at taken
  obtain ⟨results,applied,taken⟩ := taken
  cases taken
  have all : ∀ result ∈ results,∃ old ∈ row,AppliedAll allowed seeds filters old result := by
    intro result member
    obtain ⟨old,isOld,isResult⟩ := exists_of_mem_mapM applied member
    exact ⟨old,isOld,(applyFilters_applied allSeeds isSeeded notAll ⟨.refl (built old isOld),by simp⟩ (fun _ => zipIdx_entry) isResult).1⟩
  constructor
  · intro plan member
    rcases List.mem_append.mp member with isFirst | isAdded
    · obtain ⟨result,isResult,rfl⟩ := List.mem_map.mp isFirst
      obtain ⟨old,isOld,holds⟩ := all result isResult
      exact ⟨holds.first.built,old,isOld,holds.first.nodes⟩
    · obtain ⟨added,isList,isMember⟩ := List.mem_flatten.mp isAdded
      obtain ⟨result,isResult,rfl⟩ := List.mem_map.mp isList
      obtain ⟨old,isOld,holds⟩ := all result isResult
      obtain ⟨planBuilt,isNodes⟩ := holds.added plan isMember
      exact ⟨planBuilt,old,isOld,isNodes⟩
  · intro old isOld
    obtain ⟨result,isResult,done⟩ := exists_of_mem_mapM_left applied isOld
    have holds := (applyFilters_applied allSeeds isSeeded notAll ⟨.refl (built old isOld),by simp⟩ (fun _ => zipIdx_entry) done).1
    exact ⟨result.1,List.mem_append_left _ (List.mem_map_of_mem isResult),holds.first.nodes⟩

theorem FilterMode.AppliesCovered.notAll (appliesCovered : mode.AppliesCovered allowed) :
    mode ≠ .ApplyAllFiltersAndReplaceUnfiltered := by
  rcases appliesCovered with rfl | ⟨rfl,_⟩
  · decide
  · decide

theorem applyFiltersIfPossible_all (allSeeds : NoneSpatial seeds) (isSeeded : IsSeeded allowed filters substitutes)
    (appliesCovered : mode.AppliesCovered allowed) {row next : List (SubtreePlan T)}
    (built : ∀ plan ∈ row,Built allowed seeds filters plan) (taken : applyFiltersIfPossible mode row substitutes = some next) :
    ∀ plan ∈ next,∀ i filter,filters[i]? = some filter → (∀ name ∈ filter.containedVariables,name ∈ plan.qet.variableColumns) →
      i ∈ plan.idsOfIncludedFilters := by
  simp only [applyFiltersIfPossible,bind_eq_bind,bind_eq_some_iff] at taken
  obtain ⟨results,applied,taken⟩ := taken
  cases taken
  intro plan member i filter isFilter covered
  have all : ∀ result ∈ results,result.2 = [] ∧ ((∀ name ∈ filter.containedVariables,name ∈ result.1.qet.variableColumns) →
      i ∈ result.1.idsOfIncludedFilters) := by
    intro result isResult
    obtain ⟨old,isOld,done⟩ := exists_of_mem_mapM applied isResult
    obtain ⟨after,_,replaces⟩ :=
      applyFilters_applied allSeeds isSeeded appliesCovered.notAll ⟨.refl (built old isOld),by simp⟩ (fun _ => zipIdx_entry) done
    refine ⟨(replaces appliesCovered).1,?_⟩
    intro covered
    rw [← isSeeded.same,List.getElem?_map,Option.map_eq_some_iff] at isFilter
    obtain ⟨entry,isEntry,rfl⟩ := isFilter
    rw [after.first.columns] at covered
    exact (replaces appliesCovered).2 (entry,i) (List.mem_zipIdx_iff_getElem?.mpr isEntry) covered
  rcases List.mem_append.mp member with isFirst | isAdded
  · obtain ⟨result,isResult,rfl⟩ := List.mem_map.mp isFirst
    exact (all result isResult).2 covered
  · obtain ⟨added,isList,isMember⟩ := List.mem_flatten.mp isAdded
    obtain ⟨result,isResult,rfl⟩ := List.mem_map.mp isList
    rw [(all result isResult).1] at isMember
    cases isMember

variable {estimates : Estimates T}

theorem rewriteFilterToSpatialJoinConfig_ne {filter : SparqlFilter T} {left right : Variable}
    (isConfig : rewriteFilterToSpatialJoinConfig estimates filter = some (some (left,right))) : left ≠ right := by
  cases filter with
  | expression descriptor names =>
    simp only [rewriteFilterToSpatialJoinConfig] at isConfig
    split at isConfig
    next => cases isConfig
    next =>
      split at isConfig
      next => cases isConfig
      next different =>
        cases isConfig
        exact different
  | equal | notEqual => cases isConfig

theorem seedFilterSubstitutes_isSeeded
    (isGeo : ∀ filter ∈ filters,rewriteFilterToSpatialJoinConfig estimates filter ≠ some none → allowed.substitutes)
    (seeded : seedFilterSubstitutes estimates filters = some substitutes) :
    IsSeeded allowed filters substitutes := by
  obtain ⟨sameLength,single⟩ := List.forall₂_iff_get.mp (forall₂_of_mapM seeded)
  rw [List.length_zipIdx] at sameLength
  have entries : ∀ i (entry : FilterAndOptionalSubstitute T),substitutes[i]? = some entry → filters[i]? = some entry.filter ∧
      ∀ substitute ∈ entry.substitute,∃ left right,left ≠ right ∧ substitute = {
        qet := .spatialJoin entry.filter left right .missing .missing
        idsOfIncludedFilters := {i}
        containsFilterSubstitute := true} := by
    intro i entry isElement
    obtain ⟨inside,rfl⟩ := List.getElem?_eq_some_iff.mp isElement
    have isEntry := single i (by rw [List.length_zipIdx,sameLength]; exact inside) inside
    simp only [List.get_eq_getElem,List.getElem_zipIdx,Nat.zero_add,bind_eq_bind,bind_eq_some_iff] at isEntry
    obtain ⟨config,isConfig,isEntry⟩ := isEntry
    rw [List.getElem?_eq_getElem (by rw [sameLength]; exact inside)]
    cases config with
    | none =>
      rw [← Option.some.inj isEntry]
      exact ⟨rfl,by simp⟩
    | some config =>
      obtain ⟨left,right⟩ := config
      rw [← Option.some.inj isEntry]
      refine ⟨rfl,?_⟩
      intro substitute member
      cases member
      exact ⟨left,right,rewriteFilterToSpatialJoinConfig_ne isConfig,rfl⟩
  refine ⟨?_,fun i entry isEntry => (entries i entry isEntry).2,?_⟩
  · apply List.ext_getElem?
    intro i
    rw [List.getElem?_map]
    cases isEntry : substitutes[i]? with
    | none => rw [List.getElem?_eq_none (by rw [sameLength]; exact List.getElem?_eq_none_iff.mp isEntry)]; rfl
    | some entry => rw [(entries i entry isEntry).1]; rfl
  · intro noSubstitutes entry member
    obtain ⟨⟨filter,i⟩,isFilter,isEntry⟩ := exists_of_mem_mapM seeded member
    have notGeo : rewriteFilterToSpatialJoinConfig estimates filter = some none := by
      by_contra other
      exact noSubstitutes (isGeo filter (List.fst_mem_of_mem_zipIdx isFilter) other)
    simp only [notGeo,bind_eq_bind,Option.bind_some] at isEntry
    rw [← Option.some.inj isEntry]

end Apply
end QueryPlanner
end Qlever
