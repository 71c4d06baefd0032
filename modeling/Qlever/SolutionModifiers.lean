import Qlever.Library.SolutionMappings
import Qlever.PropertyPath

/-! The solution modifiers that `QueryPlanner::createExecutionTrees` adds to the plans for the graph pattern of a query:
`DISTINCT`, then `ORDER BY`, and then the join with a trailing `VALUES` clause. An undefined value is `none`.
-/
namespace Qlever
open List
namespace SolutionModifiers
open Library QueryPlanner
variable {V : Type}

structure IdTable (V : Type) where
  columns : List Variable
  rows : List (Solution Variable V)
  undefOutside : ∀ row ∈ rows,∀ name,name ∉ columns → row name = none

/-- The inline data of a `VALUES` clause, in which every row has a value for each variable. -/
structure SparqlValues (V : Type) where
  variableNames : List Variable
  values : List (List (Option V))
  sameLength : ∀ row ∈ values,row.length = variableNames.length

def SparqlValues.rows (inlineValues : SparqlValues V) : List (Solution Variable V) :=
  inlineValues.values.map (fun row name => ((inlineValues.variableNames.zip row).reverse.lookup name).join)

/-- An execution tree whose graph pattern has been evaluated. A child of a Cartesian product varies faster than the next one. -/
inductive QueryExecutionTree (V : Type)
  | graphPattern (table : IdTable V)
  | values (inlineValues : SparqlValues V)
  | distinct (keep : List Variable) (subtree : QueryExecutionTree V)
  | orderBy (sortVariables : List (Variable × Bool)) (subtree : QueryExecutionTree V)
  | join (left right : QueryExecutionTree V)
  | cartesianProductJoin (first second : QueryExecutionTree V)

def QueryExecutionTree.variableColumns : QueryExecutionTree V → List Variable
  | .graphPattern table => table.columns
  | .values inlineValues => inlineValues.variableNames
  | .distinct _ subtree => subtree.variableColumns
  | .orderBy _ subtree => subtree.variableColumns
  | .join left right => left.variableColumns ++ right.variableColumns
  | .cartesianProductJoin first second => first.variableColumns ++ second.variableColumns

/-- The parts of a query that the solution modifiers depend on. A sort key has a flag that tells whether it is descending. -/
structure ParsedQuery (V : Type) where
  selectedVariables : List Variable
  distinct : Bool
  orderBy : List (Variable × Bool)
  postQueryValuesClause : Option (SparqlValues V)

section Planner

def getDistinctRow (query : ParsedQuery V) (previous : List (QueryExecutionTree V)) : List (QueryExecutionTree V) :=
  previous.map (fun parent => .distinct (query.selectedVariables.filter (· ∈ parent.variableColumns)).dedup parent)

def sortVariables (query : ParsedQuery V) (parent : QueryExecutionTree V) : List (Variable × Bool) :=
  query.orderBy.filter (fun key => key.1 ∈ parent.variableColumns)

def getOrderByRow (query : ParsedQuery V) (previous : List (QueryExecutionTree V)) : List (QueryExecutionTree V) :=
  if previous.any (fun parent => (sortVariables query parent).isEmpty) then previous
  else previous.map (fun parent => .orderBy (sortVariables query parent) parent)

def getJoinColumns (a b : QueryExecutionTree V) : List Variable := (a.variableColumns.filter (· ∈ b.variableColumns)).dedup

variable (sizeEstimate : QueryExecutionTree V → Nat)

def makeCartesianProductJoin (a b : QueryExecutionTree V) : QueryExecutionTree V :=
  if sizeEstimate a ≤ sizeEstimate b then .cartesianProductJoin a b else .cartesianProductJoin b a

def createJoinCandidatesAllowEmpty (a b : QueryExecutionTree V) : List (QueryExecutionTree V) :=
  if (getJoinColumns a b).isEmpty then [makeCartesianProductJoin sizeEstimate a b] else [.join a b]

def applyPostQueryValues (inlineValues : SparqlValues V) (currentPlans : List (QueryExecutionTree V)) : List (QueryExecutionTree V) :=
  currentPlans.flatMap (fun plan => createJoinCandidatesAllowEmpty sizeEstimate plan (.values inlineValues))

def createExecutionTrees (query : ParsedQuery V) (plans : List (QueryExecutionTree V)) : List (QueryExecutionTree V) :=
  let plans := if query.distinct then getDistinctRow query plans else plans
  let plans := if query.orderBy.isEmpty then plans else getOrderByRow query plans
  match query.postQueryValuesClause with
  | none => plans
  | some inlineValues => if inlineValues.variableNames.isEmpty then plans else applyPostQueryValues sizeEstimate inlineValues plans

end Planner

section Evaluation
variable [LinearOrder V]

structure ValueOrder (V : Type) where
  lessThan : Option V → Option V → Bool
  asymm : ∀ a b,lessThan a b = true → lessThan b a = false
  total : ∀ a b,a ≠ b → lessThan a b = true ∨ lessThan b a = true

def comparison (order : ValueOrder V) : List (Variable × Bool) → Solution Variable V → Solution Variable V → Bool
  | [],_,_ => false
  | (name,isDescending)::keys,a,b => if a name = b name then comparison order keys a b else order.lessThan (a name) (b name) != isDescending

def IsOrdered (order : ValueOrder V) (keys : List (Variable × Bool)) (rows : List (Solution Variable V)) : Prop :=
  rows.Pairwise (fun a b => comparison order keys b a = false)

def sortKey (names : List Variable) (row : Solution Variable V) : List (WithBot V) := names.map row

def IsSorted (names : List Variable) (rows : List (Solution Variable V)) : Prop := rows.Pairwise (fun a b => sortKey names a ≤ sortKey names b)

def distinctRows (keep : List Variable) (rows : List (Solution Variable V)) : List (Solution Variable V) :=
  rows.destutter (fun a b => sortKey keep a ≠ sortKey keep b)

/-- The possible results of a tree. The order of equal rows is not specified for sorting, and that of the rows of a join is not
specified either. -/
inductive Evaluates (order : ValueOrder V) : QueryExecutionTree V → List (Solution Variable V) → Prop
  | graphPattern (table : IdTable V) : Evaluates order (.graphPattern table) table.rows
  | values (inlineValues : SparqlValues V) : Evaluates order (.values inlineValues) inlineValues.rows
  | distinct {subtree : QueryExecutionTree V} {rows sorted : List (Solution Variable V)} (keep sortColumns : List Variable)
    (evaluates : Evaluates order subtree rows) (permutation : sortColumns.Perm keep) (sameRows : sorted.Perm rows) (isSorted : IsSorted sortColumns sorted) :
    Evaluates order (.distinct keep subtree) (distinctRows keep sorted)
  | orderBy {subtree : QueryExecutionTree V} {rows sorted : List (Solution Variable V)} (keys : List (Variable × Bool))
    (evaluates : Evaluates order subtree rows) (sameRows : sorted.Perm rows) (isOrdered : IsOrdered order keys sorted) :
    Evaluates order (.orderBy keys subtree) sorted
  | join {left right : QueryExecutionTree V} {leftRows rightRows rows : List (Solution Variable V)} (evaluatesLeft : Evaluates order left leftRows)
    (evaluatesRight : Evaluates order right rightRows) (sameRows : rows.Perm (joinRows (getJoinColumns left right) leftRows rightRows)) :
    Evaluates order (.join left right) rows
  | cartesianProductJoin {first second : QueryExecutionTree V} {firstRows secondRows : List (Solution Variable V)}
    (evaluatesFirst : Evaluates order first firstRows) (evaluatesSecond : Evaluates order second secondRows) :
    Evaluates order (.cartesianProductJoin first second) (secondRows.flatMap (fun b => firstRows.map (fun a => merged a b)))

end Evaluation

section Distinct
variable [LinearOrder V] {order : ValueOrder V}

def Differ (names : List Variable) (a b : Solution Variable V) : Prop := ∃ name ∈ names,a name ≠ b name

variable {names : List Variable} {a b : Solution Variable V}

section
omit [LinearOrder V]

theorem Differ.symm (differ : Differ names a b) : Differ names b a := by
  obtain ⟨name,member,different⟩ := differ
  exact ⟨name,member,different.symm⟩

theorem sortKey_eq_iff : sortKey names a = sortKey names b ↔ ∀ name ∈ names,a name = b name :=
  map_inj_left

theorem sortKey_ne_iff : sortKey names a ≠ sortKey names b ↔ Differ names a b := by
  rw [Ne,sortKey_eq_iff]
  simp [Differ]

end

theorem pairwise_lt_of_isChain {α κ : Type} [LinearOrder κ] {key : α → κ} {xs : List α} (sorted : xs.Pairwise (fun x y => key x ≤ key y))
    (chain : xs.IsChain (fun x y => key x ≠ key y)) : xs.Pairwise (fun x y => key x < key y) := by
  induction xs with
  | nil => exact List.Pairwise.nil
  | cons x xs ih =>
    rw [pairwise_cons] at sorted
    have tail := ih sorted.2 chain.of_cons
    rw [pairwise_cons]
    refine ⟨?_,tail⟩
    cases xs with
    | nil => simp
    | cons y ys =>
      have first : key x < key y := lt_of_le_of_ne (sorted.1 y mem_cons_self) (isChain_cons_cons.mp chain).1
      intro z member
      rcases mem_cons.mp member with rfl | later
      · exact first
      · exact first.trans ((pairwise_cons.mp tail).1 z later)

theorem distinctRows_differ {keep sortColumns : List Variable} {rows : List (Solution Variable V)} (permutation : sortColumns.Perm keep)
    (isSorted : IsSorted sortColumns rows) : (distinctRows keep rows).Pairwise (Differ keep) := by
  have same : ∀ a b : Solution Variable V,Differ keep a b ↔ Differ sortColumns a b := by
    intro a b
    simp only [Differ,permutation.mem_iff]
  have chain : (distinctRows keep rows).IsChain (fun a b => sortKey sortColumns a ≠ sortKey sortColumns b) := by
    have isChain : (distinctRows keep rows).IsChain (fun a b => sortKey keep a ≠ sortKey keep b) := isChain_destutter _ rows
    apply isChain.imp
    intro a b different
    rw [sortKey_ne_iff] at different ⊢
    exact (same a b).mp different
  have sublist : (distinctRows keep rows).Sublist rows := destutter_sublist _ rows
  have sorted := List.Pairwise.sublist sublist isSorted
  apply (pairwise_lt_of_isChain sorted chain).imp
  intro a b less
  exact (same a b).mpr (sortKey_ne_iff.mp less.ne)

end Distinct

section BeforeValues
variable [LinearOrder V] {order : ValueOrder V} {query : ParsedQuery V} {columns : List Variable}

def SameColumns (columns : List Variable) (tree : QueryExecutionTree V) : Prop := ∀ name,name ∈ tree.variableColumns ↔ name ∈ columns

def IsGraphPattern (columns : List Variable) (tree : QueryExecutionTree V) : Prop := SameColumns columns tree ∧ ∃ table,tree = .graphPattern table

def UndefOutside (order : ValueOrder V) (columns : List Variable) (tree : QueryExecutionTree V) : Prop :=
  ∀ rows,Evaluates order tree rows → ∀ row ∈ rows,∀ name,name ∉ columns → row name = none

section
variable {tree : QueryExecutionTree V}

theorem IsGraphPattern.undefOutside (isGraphPattern : IsGraphPattern columns tree) : UndefOutside order columns tree := by
  obtain ⟨same,table,rfl⟩ := isGraphPattern
  intro rows evaluates row member name outside
  cases evaluates
  exact table.undefOutside row member name (fun isColumn => outside ((same name).mp isColumn))

theorem UndefOutside.distinct (undefOutside : UndefOutside order columns tree) (keep : List Variable) :
    UndefOutside order columns (.distinct keep tree) := by
  intro rows evaluates row member
  cases evaluates with
  | distinct _ _ evaluates _ sameRows _ =>
    exact undefOutside _ evaluates row (sameRows.mem_iff.mp (List.Sublist.mem member (destutter_sublist _ _)))

theorem UndefOutside.orderBy (undefOutside : UndefOutside order columns tree) (keys : List (Variable × Bool)) :
    UndefOutside order columns (.orderBy keys tree) := by
  intro rows evaluates row member
  cases evaluates with
  | orderBy _ evaluates sameRows _ => exact undefOutside _ evaluates row (sameRows.mem_iff.mp member)

end

theorem comparison_filter {keys : List (Variable × Bool)} (visible : Variable × Bool → Bool) {a b : Solution Variable V}
    (equal : ∀ key ∈ keys,visible key = false → a key.1 = b key.1) : comparison order (keys.filter visible) a b = comparison order keys a b := by
  induction keys with
  | nil => rfl
  | cons key keys ih =>
    have rest := ih (forall_mem_cons.mp equal).2
    cases isVisible : visible key with
    | true =>
      rw [filter_cons_of_pos isVisible]
      simp only [comparison,rest]
    | false =>
      rw [filter_cons_of_neg (by simp [isVisible]),rest]
      simp only [comparison,equal key mem_cons_self isVisible,if_true]

/-- What holds of the plans before the join with the `VALUES` clause. -/
structure IsModified (order : ValueOrder V) (query : ParsedQuery V) (columns : List Variable) (tree : QueryExecutionTree V) : Prop where
  sameColumns : SameColumns columns tree
  undefOutside : UndefOutside order columns tree
  distinct : query.distinct = true → ∀ rows,Evaluates order tree rows → rows.Pairwise (Differ (query.selectedVariables.filter (· ∈ columns)))
  ordered : ∀ rows,Evaluates order tree rows → IsOrdered order query.orderBy rows

/-- The plans before the join with the `VALUES` clause. -/
def modifiedPlans (query : ParsedQuery V) (plans : List (QueryExecutionTree V)) : List (QueryExecutionTree V) :=
  let plans := if query.distinct then getDistinctRow query plans else plans
  if query.orderBy.isEmpty then plans else getOrderByRow query plans

variable {plans : List (QueryExecutionTree V)}

theorem distinctPlans_isModified (areGraphPatterns : ∀ plan ∈ plans,IsGraphPattern columns plan) :
    ∀ plan ∈ (if query.distinct then getDistinctRow query plans else plans),SameColumns columns plan ∧ UndefOutside order columns plan ∧
      (query.distinct = true → ∀ rows,Evaluates order plan rows → rows.Pairwise (Differ (query.selectedVariables.filter (· ∈ columns)))) := by
  intro plan member
  split at member
  next isDistinct =>
    obtain ⟨parent,isParent,rfl⟩ := List.mem_map.mp member
    have isGraphPattern := areGraphPatterns parent isParent
    refine ⟨isGraphPattern.1,isGraphPattern.undefOutside.distinct _,?_⟩
    intro _ rows evaluates
    cases evaluates with
    | distinct _ _ _ permutation _ isSorted =>
      apply (distinctRows_differ permutation isSorted).imp
      intro a b differ
      obtain ⟨name,isKept,different⟩ := differ
      rw [mem_dedup,mem_filter] at isKept
      refine ⟨name,mem_filter.mpr ⟨isKept.1,?_⟩,different⟩
      have isColumn := of_decide_eq_true isKept.2
      exact decide_eq_true ((isGraphPattern.1 name).mp isColumn)
  next notDistinct =>
    have isGraphPattern := areGraphPatterns plan member
    exact ⟨isGraphPattern.1,isGraphPattern.undefOutside,fun isDistinct => absurd isDistinct notDistinct⟩

theorem isOrdered_of_filter {visible : Variable × Bool → Bool} {rows : List (Solution Variable V)}
    (equal : ∀ key ∈ query.orderBy,visible key = false → ∀ row ∈ rows,row key.1 = none) (isOrdered : IsOrdered order (query.orderBy.filter visible) rows) :
    IsOrdered order query.orderBy rows := by
  apply List.Pairwise.imp_of_mem _ isOrdered
  intro a b inA inB before
  rw [comparison_filter] at before
  · exact before
  · intro key isKey hidden
    rw [equal key isKey hidden a inA,equal key isKey hidden b inB]

theorem modifiedPlans_isModified (areGraphPatterns : ∀ plan ∈ plans,IsGraphPattern columns plan) :
    ∀ plan ∈ modifiedPlans query plans,IsModified order query columns plan := by
  have distinctPlans : ∀ plan ∈ (if query.distinct then getDistinctRow query plans else plans),SameColumns columns plan ∧ UndefOutside order columns plan ∧
      (query.distinct = true → ∀ rows,Evaluates order plan rows → rows.Pairwise (Differ (query.selectedVariables.filter (· ∈ columns)))) :=
    distinctPlans_isModified areGraphPatterns
  simp only [modifiedPlans]
  generalize (if query.distinct = true then getDistinctRow query plans else plans) = previous at distinctPlans ⊢
  -- The keys that are visible are the same for all plans.
  have visible : ∀ plan ∈ previous,sortVariables query plan = query.orderBy.filter (fun key => key.1 ∈ columns) := by
    intro plan member
    apply filter_congr
    intro key _
    simp only [(distinctPlans plan member).1 key.1]
  have hidden : ∀ plan ∈ previous,∀ rows,Evaluates order plan rows → ∀ key ∈ query.orderBy,decide (key.1 ∈ columns) = false →
      ∀ row ∈ rows,row key.1 = none := by
    intro plan member rows evaluates key _ outside row isRow
    exact (distinctPlans plan member).2.1 rows evaluates row isRow key.1 (of_decide_eq_false outside)
  intro plan member
  split at member
  next noKeys =>
    obtain ⟨same,undefOutside,distinct⟩ := distinctPlans plan member
    refine ⟨same,undefOutside,distinct,?_⟩
    intro rows _
    rw [List.isEmpty_iff.mp noKeys]
    exact pairwise_of_forall (fun _ _ => rfl)
  next =>
    unfold getOrderByRow at member
    split at member
    next noneVisible =>
      obtain ⟨same,undefOutside,distinct⟩ := distinctPlans plan member
      refine ⟨same,undefOutside,distinct,?_⟩
      intro rows evaluates
      obtain ⟨other,isOther,isEmpty⟩ := any_eq_true.mp noneVisible
      rw [visible other isOther,List.isEmpty_iff] at isEmpty
      apply isOrdered_of_filter (hidden plan member rows evaluates)
      rw [isEmpty]
      exact pairwise_of_forall (fun _ _ => rfl)
    next =>
      obtain ⟨parent,isParent,rfl⟩ := List.mem_map.mp member
      obtain ⟨same,undefOutside,distinct⟩ := distinctPlans parent isParent
      refine ⟨same,undefOutside.orderBy _,?_,?_⟩
      · intro isDistinct rows evaluates
        cases evaluates with
        | orderBy _ evaluates sameRows _ => exact (sameRows.pairwise_iff Differ.symm).mpr (distinct isDistinct _ evaluates)
      · intro rows evaluates
        cases evaluates with
        | orderBy _ evaluates sameRows isOrdered =>
          rw [visible parent isParent] at isOrdered
          apply isOrdered_of_filter _ isOrdered
          intro key isKey outside row isRow
          exact hidden parent isParent _ evaluates key isKey outside row (sameRows.mem_iff.mp isRow)

end BeforeValues

section Values
variable [LinearOrder V] {order : ValueOrder V} {query : ParsedQuery V} {columns : List Variable} {sizeEstimate : QueryExecutionTree V → Nat}

omit [LinearOrder V] in
theorem SparqlValues.undefOutside (inlineValues : SparqlValues V) : ∀ row ∈ inlineValues.rows,∀ name,name ∉ inlineValues.variableNames → row name = none := by
  intro row member name outside
  obtain ⟨values,_,rfl⟩ := List.mem_map.mp member
  have noEntry : (inlineValues.variableNames.zip values).reverse.lookup name = none := by
    rw [lookup_eq_none_iff]
    intro entry isEntry
    have isName := (of_mem_zip (mem_reverse.mp isEntry : (entry.1,entry.2) ∈ _)).1
    rw [bne_iff_ne]
    intro same
    exact outside (same ▸ isName)
  dsimp only
  rw [noEntry]
  rfl

theorem flatMap_map_swap {α β γ : Type} (f : α → β → γ) (as : List α) (bs : List β) :
    (bs.flatMap (fun b => as.map (fun a => f a b))).Perm (as.flatMap (fun a => bs.map (f a))) := by
  rw [← Multiset.coe_eq_coe]
  simp only [← Multiset.coe_bind,← Multiset.map_coe]
  exact Multiset.bind_map_comm _ _

theorem makeCartesianProductJoin_evaluates {first second : QueryExecutionTree V} {rows : List (Solution Variable V)} :
    Evaluates order (makeCartesianProductJoin sizeEstimate first second) rows ↔ ∃ as bs,Evaluates order first as ∧ Evaluates order second bs ∧
      rows = if sizeEstimate first ≤ sizeEstimate second then bs.flatMap (fun b => as.map (fun a => merged a b))
        else as.flatMap (fun a => bs.map (fun b => merged b a)) := by
  unfold makeCartesianProductJoin
  split
  next =>
    constructor
    · intro evaluates
      cases evaluates with
      | cartesianProductJoin evaluatesFirst evaluatesSecond => exact ⟨_,_,evaluatesFirst,evaluatesSecond,rfl⟩
    · rintro ⟨as,bs,evaluatesFirst,evaluatesSecond,rfl⟩
      exact .cartesianProductJoin evaluatesFirst evaluatesSecond
  next =>
    constructor
    · intro evaluates
      cases evaluates with
      | cartesianProductJoin evaluatesSecond evaluatesFirst => exact ⟨_,_,evaluatesFirst,evaluatesSecond,rfl⟩
    · rintro ⟨as,bs,evaluatesFirst,evaluatesSecond,rfl⟩
      exact .cartesianProductJoin evaluatesSecond evaluatesFirst

omit [LinearOrder V] in
theorem merged_comm {a b : Solution Variable V} (apart : ∀ name,a name = none ∨ b name = none) : merged b a = merged a b := by
  funext name
  rcases apart name with isNone | isNone
  all_goals rw [merged_of_none isNone,merged_of_none_right isNone]

theorem productRows_perm {as bs : List (Solution Variable V)} (apart : ∀ a ∈ as,∀ b ∈ bs,∀ name,a name = none ∨ b name = none) (isFirst : Prop)
    [Decidable isFirst] : (if isFirst then bs.flatMap (fun b => as.map (fun a => merged a b)) else as.flatMap (fun a => bs.map (fun b => merged b a))).Perm
      (joinRows [] as bs) := by
  rw [joinRows_nil]
  split
  next => exact flatMap_map_swap merged as bs
  next =>
    rw [flatMap_congr]
    intro a inA
    apply map_congr_left
    intro b inB
    exact merged_comm (apart a inA b inB)

theorem createJoinCandidatesAllowEmpty_evaluates
    (sizeEstimate : QueryExecutionTree V → Nat) {parent : QueryExecutionTree V} (sameColumns : SameColumns columns parent)
    (undefOutside : UndefOutside order columns parent) (inlineValues : SparqlValues V) :
    (∀ plan ∈ createJoinCandidatesAllowEmpty sizeEstimate parent (.values inlineValues),∀ rows,Evaluates order plan rows → ∃ parentRows,
      Evaluates order parent parentRows ∧ rows.Perm (joinRows (getJoinColumns parent (.values inlineValues)) parentRows inlineValues.rows)) ∧
    ∀ parentRows,Evaluates order parent parentRows → ∃ plan ∈ createJoinCandidatesAllowEmpty sizeEstimate parent (.values inlineValues),∃ rows,
      Evaluates order plan rows ∧ rows.Perm (joinRows (getJoinColumns parent (.values inlineValues)) parentRows inlineValues.rows) := by
  unfold createJoinCandidatesAllowEmpty
  split
  next noColumns =>
    rw [List.isEmpty_iff] at noColumns
    have apart : ∀ parentRows,Evaluates order parent parentRows → ∀ a ∈ parentRows,∀ b ∈ inlineValues.rows,∀ name,a name = none ∨ b name = none := by
      intro parentRows evaluates a inA b inB name
      by_cases isColumn : name ∈ columns
      · refine Or.inr (inlineValues.undefOutside b inB name ?_)
        intro isVariable
        have isCommon : name ∈ getJoinColumns parent (.values inlineValues) := by
          rw [getJoinColumns,mem_dedup,mem_filter]
          exact ⟨(sameColumns name).mpr isColumn,decide_eq_true isVariable⟩
        rw [noColumns] at isCommon
        cases isCommon
      · exact Or.inl (undefOutside parentRows evaluates a inA name isColumn)
    rw [noColumns]
    constructor
    · intro plan member rows evaluates
      rw [mem_singleton.mp member,makeCartesianProductJoin_evaluates] at evaluates
      obtain ⟨parentRows,valueRows,evaluatesParent,evaluatesValues,rfl⟩ := evaluates
      cases evaluatesValues
      exact ⟨parentRows,evaluatesParent,productRows_perm (apart parentRows evaluatesParent) _⟩
    · intro parentRows evaluates
      exact ⟨_,mem_singleton_self _,_,makeCartesianProductJoin_evaluates.mpr ⟨parentRows,inlineValues.rows,evaluates,.values inlineValues,rfl⟩,
        productRows_perm (apart parentRows evaluates) _⟩
  next =>
    constructor
    · intro plan member rows evaluates
      rw [mem_singleton.mp member] at evaluates
      cases evaluates with
      | join evaluatesParent evaluatesValues sameRows =>
        cases evaluatesValues
        exact ⟨_,evaluatesParent,sameRows⟩
    · intro parentRows evaluates
      exact ⟨_,mem_singleton_self _,_,.join evaluates (.values inlineValues) (List.Perm.refl _),List.Perm.refl _⟩

/-- The inline data of a trailing `VALUES` clause that has variables. -/
def trailingValues (query : ParsedQuery V) : Option (SparqlValues V) :=
  query.postQueryValuesClause.filter (fun inlineValues => !inlineValues.variableNames.isEmpty)

omit [LinearOrder V] in
theorem createExecutionTrees_eq (sizeEstimate : QueryExecutionTree V → Nat) (query : ParsedQuery V) (plans : List (QueryExecutionTree V)) :
    createExecutionTrees sizeEstimate query plans = match trailingValues query with
      | none => modifiedPlans query plans
      | some inlineValues => applyPostQueryValues sizeEstimate inlineValues (modifiedPlans query plans) := by
  unfold createExecutionTrees trailingValues
  cases query.postQueryValuesClause with
  | none => rfl
  | some inlineValues =>
    cases isEmpty : inlineValues.variableNames.isEmpty <;> simp [Option.filter,isEmpty,modifiedPlans]

end Values

section Guarantees
variable [LinearOrder V] {order : ValueOrder V} {query : ParsedQuery V} {columns : List Variable}

/-- With `DISTINCT`, no two rows of the result of any plan agree on all selected variables. -/
def KeepsDistinct (order : ValueOrder V) (query : ParsedQuery V) (columns : List Variable) : Prop :=
  query.distinct = true → ∀ sizeEstimate plans,(∀ plan ∈ plans,IsGraphPattern columns plan) → ∀ plan ∈ createExecutionTrees sizeEstimate query plans,
    ∀ rows,Evaluates order plan rows → rows.Pairwise (Differ query.selectedVariables)

/-- The rows of the result of any plan are in the order that is required by `ORDER BY`. -/
def KeepsOrder (order : ValueOrder V) (query : ParsedQuery V) (columns : List Variable) : Prop :=
  ∀ sizeEstimate plans,(∀ plan ∈ plans,IsGraphPattern columns plan) → ∀ plan ∈ createExecutionTrees sizeEstimate query plans,
    ∀ rows,Evaluates order plan rows → IsOrdered order query.orderBy rows

/-- The rows of a trailing `VALUES` clause differ on the selected variables, and they do not define one that is bound in the graph pattern. -/
def IsSafeForDistinct (query : ParsedQuery V) (columns : List Variable) : Prop :=
  query.distinct = true → ∀ inlineValues ∈ trailingValues query,inlineValues.rows.Pairwise (Differ query.selectedVariables) ∧
    ∀ row ∈ inlineValues.rows,∀ name ∈ query.selectedVariables,name ∈ columns → row name = none

/-- A trailing `VALUES` clause has no rows, or a single one without a variable of the graph pattern, or it is not ordered by any variable. -/
def IsSafeForOrder (query : ParsedQuery V) (columns : List Variable) : Prop :=
  ∀ inlineValues ∈ trailingValues query,inlineValues.rows = [] ∨
    inlineValues.rows.length = 1 ∧ (∀ name ∈ inlineValues.variableNames,name ∉ columns) ∨
    ∀ key ∈ query.orderBy,key.1 ∉ columns ∧ key.1 ∉ inlineValues.variableNames

theorem IsSafeForDistinct.keepsDistinct (isSafe : IsSafeForDistinct query columns) : KeepsDistinct order query columns := by
  intro isDistinct sizeEstimate plans areGraphPatterns plan member rows evaluates
  have modified : ∀ plan ∈ modifiedPlans query plans,IsModified order query columns plan := modifiedPlans_isModified areGraphPatterns
  have inSelected : ∀ name,name ∈ query.selectedVariables.filter (· ∈ columns) → name ∈ query.selectedVariables ∧ name ∈ columns := by
    intro name isName
    rw [mem_filter] at isName
    exact ⟨isName.1,of_decide_eq_true isName.2⟩
  rw [createExecutionTrees_eq] at member
  cases trailing : trailingValues query with
  | none =>
    rw [trailing] at member
    apply ((modified plan member).distinct isDistinct rows evaluates).imp
    rintro a b ⟨name,isName,different⟩
    exact ⟨name,(inSelected name isName).1,different⟩
  | some inlineValues =>
    rw [trailing] at member
    obtain ⟨valuesDiffer,undefined⟩ := isSafe isDistinct inlineValues trailing
    obtain ⟨parent,isParent,isCandidate⟩ := mem_flatMap.mp member
    have isModified := modified parent isParent
    obtain ⟨parentRows,evaluatesParent,sameRows⟩ :=
      (createJoinCandidatesAllowEmpty_evaluates sizeEstimate isModified.sameColumns isModified.undefOutside inlineValues).1 plan isCandidate rows evaluates
    rw [sameRows.pairwise_iff Differ.symm]
    apply pairwise_joinRows
    · apply (isModified.distinct isDistinct parentRows evaluatesParent).imp
      rintro a a' ⟨name,isName,different⟩ b inB b' inB'
      obtain ⟨isSelected,isColumn⟩ := inSelected name isName
      refine ⟨name,isSelected,?_⟩
      rw [merged_of_none_right (undefined b inB name isSelected isColumn),merged_of_none_right (undefined b' inB' name isSelected isColumn)]
      exact different
    · intro a inA
      apply List.Pairwise.imp_of_mem _ valuesDiffer
      rintro b b' inB inB' ⟨name,isSelected,different⟩
      have notColumn : name ∉ columns := by
        intro isColumn
        exact different (by rw [undefined b inB name isSelected isColumn,undefined b' inB' name isSelected isColumn])
      have isNone := isModified.undefOutside parentRows evaluatesParent a inA name notColumn
      exact ⟨name,isSelected,by rw [merged_of_none isNone,merged_of_none isNone]; exact different⟩

section
variable {keys : List (Variable × Bool)}

theorem comparison_congr {a b a' b' : Solution Variable V}
    (same : ∀ key ∈ keys,a key.1 = b key.1 ∧ a' key.1 = b' key.1 ∨ a key.1 = a' key.1 ∧ b key.1 = b' key.1) :
    comparison order keys a b = comparison order keys a' b' := by
  induction keys with
  | nil => rfl
  | cons key keys ih =>
    have rest := ih (forall_mem_cons.mp same).2
    rcases same key mem_cons_self with ⟨equal,equal'⟩ | ⟨sameA,sameB⟩
    · simp only [comparison,equal,equal',if_true,rest]
    · simp only [comparison,sameA,sameB,rest]

theorem comparison_of_equal {a b : Solution Variable V} (equal : ∀ key ∈ keys,a key.1 = b key.1) :
    comparison order keys a b = false := by
  rw [← comparison_filter (fun _ => false) (fun key member _ => equal key member),filter_eq_nil_iff.mpr (by simp)]
  rfl

theorem productRow_isOrdered {rows : List (Solution Variable V)} {names : List Variable} {values : Solution Variable V}
    (undefOutside : ∀ row ∈ rows,∀ name,name ∉ columns → row name = none) (valuesOutside : ∀ name,name ∉ names → values name = none)
    (apart : ∀ name ∈ names,name ∉ columns) (isOrdered : IsOrdered order keys rows) : IsOrdered order keys (rows.map (fun row => merged row values)) := by
  rw [IsOrdered,pairwise_map]
  apply List.Pairwise.imp_of_mem _ isOrdered
  intro a b inA inB before
  rw [← before]
  apply comparison_congr
  intro key _
  by_cases isColumn : key.1 ∈ columns
  · have isNone := valuesOutside key.1 (fun isName => apart key.1 isName isColumn)
    rw [merged_of_none_right isNone,merged_of_none_right isNone]
    exact Or.inr ⟨rfl,rfl⟩
  · have noneA := undefOutside a inA key.1 isColumn
    have noneB := undefOutside b inB key.1 isColumn
    rw [merged_of_none noneA,merged_of_none noneB,noneA,noneB]
    exact Or.inl ⟨rfl,rfl⟩

end

theorem IsSafeForOrder.keepsOrder (isSafe : IsSafeForOrder query columns) : KeepsOrder order query columns := by
  intro sizeEstimate plans areGraphPatterns plan member rows evaluates
  have modified : ∀ plan ∈ modifiedPlans query plans,IsModified order query columns plan := modifiedPlans_isModified areGraphPatterns
  rw [createExecutionTrees_eq] at member
  cases trailing : trailingValues query with
  | none =>
    rw [trailing] at member
    exact (modified plan member).ordered rows evaluates
  | some inlineValues =>
    rw [trailing] at member
    obtain ⟨parent,isParent,isCandidate⟩ := mem_flatMap.mp member
    have isModified := modified parent isParent
    obtain ⟨parentRows,evaluatesParent,sameRows⟩ :=
      (createJoinCandidatesAllowEmpty_evaluates sizeEstimate isModified.sameColumns isModified.undefOutside inlineValues).1 plan isCandidate rows evaluates
    rcases isSafe inlineValues trailing with noRows | ⟨oneRow,apart⟩ | noKeys
    · have isEmpty : joinRows (getJoinColumns parent (.values inlineValues)) parentRows ([] : List (Solution Variable V)) = [] := by
        simp [joinRows,nestedLoop,flatMap_eq_nil_iff]
      rw [noRows,isEmpty] at sameRows
      rw [sameRows.eq_nil]
      exact List.Pairwise.nil
    · have noColumns : getJoinColumns parent (.values inlineValues) = [] := by
        rw [getJoinColumns,filter_eq_nil_iff.mpr]
        · rfl
        · intro name isColumn isVariable
          exact apart name (of_decide_eq_true isVariable) ((isModified.sameColumns name).mp isColumn)
      obtain ⟨values,isValues⟩ := length_eq_one_iff.mp oneRow
      rw [createJoinCandidatesAllowEmpty,noColumns,if_pos isEmpty_nil,mem_singleton] at isCandidate
      rw [isCandidate,makeCartesianProductJoin_evaluates] at evaluates
      obtain ⟨as,bs,evaluatesAs,evaluatesBs,rfl⟩ := evaluates
      cases evaluatesBs
      have isOrdered := productRow_isOrdered (isModified.undefOutside as evaluatesAs)
        (inlineValues.undefOutside values (by rw [isValues]; exact mem_singleton_self values)) apart (isModified.ordered as evaluatesAs)
      have swapped : as.map (fun a => merged values a) = as.map (fun a => merged a values) := by
        apply map_congr_left
        intro a inA
        apply merged_comm
        intro name
        by_cases isColumn : name ∈ columns
        · refine Or.inr (inlineValues.undefOutside values (by rw [isValues]; exact mem_singleton_self values) name ?_)
          exact fun isVariable => apart name isVariable isColumn
        · exact Or.inl (isModified.undefOutside as evaluatesAs a inA name isColumn)
      rw [isValues]
      split
      next => simpa using isOrdered
      next =>
        simp only [map_cons,map_nil]
        rw [← map_eq_flatMap,swapped]
        exact isOrdered
    · have undefined : ∀ row ∈ rows,∀ key ∈ query.orderBy,row key.1 = none := by
        intro row isRow key isKey
        obtain ⟨a,inA,b,inB,_,rfl⟩ := mem_joinRows.mp (sameRows.mem_iff.mp isRow)
        rw [merged_of_none (isModified.undefOutside parentRows evaluatesParent a inA key.1 (noKeys key isKey).1)]
        exact inlineValues.undefOutside b inB key.1 (noKeys key isKey).2
      apply List.Pairwise.imp_of_mem (R := fun _ _ => True)
      · intro a b inA inB _
        apply comparison_of_equal
        intro key isKey
        rw [undefined a inA key isKey,undefined b inB key isKey]
      · exact pairwise_of_forall (fun _ _ => trivial)

theorem exists_perm_of_total {α : Type} {rel : α → α → Prop} (total : ∀ x y,rel x y ∨ rel y x) {xs : List α} (few : xs.length ≤ 2) :
    ∃ ys : List α,ys.Perm xs ∧ ys.Pairwise rel := by
  match xs,few with
  | [],_ => exact ⟨[],List.Perm.refl _,List.Pairwise.nil⟩
  | [x],_ => exact ⟨[x],List.Perm.refl _,pairwise_singleton _ _⟩
  | [x,y],_ =>
    rcases total x y with before | after
    · exact ⟨[x,y],List.Perm.refl _,pairwise_pair.mpr before⟩
    · exact ⟨[y,x],List.Perm.swap x y [],pairwise_pair.mpr after⟩
  | _::_::_::_,few => simp at few

theorem comparison_asymm (order : ValueOrder V) (keys : List (Variable × Bool)) (a b : Solution Variable V) :
    comparison order keys a b = false ∨ comparison order keys b a = false := by
  induction keys with
  | nil => exact Or.inl rfl
  | cons key keys ih =>
    obtain ⟨name,isDescending⟩ := key
    by_cases same : a name = b name
    · simp only [comparison,same,if_true]
      exact ih
    · simp only [comparison,same,Ne.symm same,if_false]
      cases isLess : order.lessThan (a name) (b name) with
      | true =>
        rw [order.asymm _ _ isLess]
        cases isDescending with
        | false => exact Or.inr rfl
        | true => exact Or.inl rfl
      | false =>
        rw [(order.total _ _ same).resolve_left (by simp [isLess])]
        cases isDescending with
        | false => exact Or.inl rfl
        | true => exact Or.inr rfl

theorem modifiedPlans_evaluates (query : ParsedQuery V) (order : ValueOrder V) (table : IdTable V) (few : table.rows.length ≤ 2)
    (differ : table.rows.Pairwise (Differ (query.selectedVariables.filter (· ∈ table.columns)))) :
    ∃ tree ∈ modifiedPlans query [.graphPattern table],∃ rows,Evaluates order tree rows ∧ rows.Perm table.rows := by
  obtain ⟨tree,isTree,rows,evaluates,sameRows⟩ : ∃ tree,(if query.distinct then getDistinctRow query [.graphPattern table] else [.graphPattern table]) = [tree] ∧
      ∃ rows,Evaluates order tree rows ∧ rows.Perm table.rows := by
    split
    next =>
      obtain ⟨sorted,sameRows,isSorted⟩ := exists_perm_of_total
        (fun a b => le_total (sortKey (query.selectedVariables.filter (· ∈ table.columns)).dedup a) (sortKey _ b)) few
      refine ⟨_,rfl,_,.distinct _ _ (.graphPattern table) (List.Perm.refl _) sameRows isSorted,?_⟩
      rw [distinctRows,destutter_of_isChain]
      · exact sameRows
      · apply List.Pairwise.isChain
        apply ((sameRows.pairwise_iff Differ.symm).mpr differ).imp
        rintro a b ⟨name,isName,different⟩
        rw [sortKey_ne_iff]
        exact ⟨name,mem_dedup.mpr isName,different⟩
    next => exact ⟨_,rfl,_,.graphPattern table,List.Perm.refl _⟩
  simp only [modifiedPlans,isTree]
  split
  next => exact ⟨tree,mem_singleton_self tree,rows,evaluates,sameRows⟩
  next =>
    unfold getOrderByRow
    split
    next => exact ⟨tree,mem_singleton_self tree,rows,evaluates,sameRows⟩
    next =>
      obtain ⟨sorted,sameSorted,isOrdered⟩ := exists_perm_of_total
        (fun a b => comparison_asymm order (sortVariables query tree) b a) (sameRows.length_eq.trans_le few)
      exact ⟨_,mem_singleton_self _,sorted,.orderBy _ evaluates sameSorted isOrdered,sameSorted.trans sameRows⟩

theorem KeepsDistinct.joinRows_differ (keepsDistinct : KeepsDistinct order query columns) (isDistinct : query.distinct = true)
    {inlineValues : SparqlValues V} (isTrailing : trailingValues query = some inlineValues) (table : IdTable V) (isTable : table.columns = columns)
    (few : table.rows.length ≤ 2) (differ : table.rows.Pairwise (Differ (query.selectedVariables.filter (· ∈ table.columns)))) :
    ∃ names rows,rows.Perm table.rows ∧ (joinRows names rows inlineValues.rows).Pairwise (Differ query.selectedVariables) := by
  have isGraphPattern : ∀ plan ∈ [QueryExecutionTree.graphPattern table],IsGraphPattern columns plan := by
    intro plan member
    rw [mem_singleton.mp member]
    refine ⟨?_,table,rfl⟩
    intro name
    rw [QueryExecutionTree.variableColumns,isTable]
  obtain ⟨tree,isTree,rows,evaluates,sameRows⟩ := modifiedPlans_evaluates query order table few differ
  have isModified : IsModified order query columns tree := modifiedPlans_isModified isGraphPattern tree isTree
  obtain ⟨plan,isPlan,result,evaluatesPlan,sameResult⟩ :=
    (createJoinCandidatesAllowEmpty_evaluates (fun _ => 0) isModified.sameColumns isModified.undefOutside inlineValues).2 rows evaluates
  refine ⟨_,rows,sameRows,(sameResult.pairwise_iff Differ.symm).mp (keepsDistinct isDistinct (fun _ => 0) _ isGraphPattern plan ?_ result evaluatesPlan)⟩
  rw [createExecutionTrees_eq,isTrailing]
  exact mem_flatMap.mpr ⟨tree,isTree,isPlan⟩

theorem KeepsDistinct.isSafe (keepsDistinct : KeepsDistinct order query columns) : IsSafeForDistinct query columns := by
  intro isDistinct inlineValues isTrailing
  constructor
  · -- A row without any value is joined with each row of the clause.
    obtain ⟨names,rows,sameRows,differ⟩ := keepsDistinct.joinRows_differ isDistinct isTrailing ⟨columns,[fun _ => none],by simp⟩ rfl (by simp) (pairwise_singleton _ _)
    rw [perm_singleton.mp sameRows,joinRows_undef] at differ
    exact differ
  · intro row isRow name isSelected isColumn
    by_contra defined
    -- So is the row with only this value, and the two results agree.
    have differ : [fun _ => none,Function.update (fun _ => none) name (row name)].Pairwise
        (Differ (query.selectedVariables.filter (fun name => decide (name ∈ columns)))) := by
      rw [pairwise_pair]
      refine ⟨name,mem_filter.mpr ⟨isSelected,decide_eq_true isColumn⟩,?_⟩
      rw [Function.update_self]
      exact fun isNone => defined isNone.symm
    obtain ⟨names,rows,sameRows,joinDiffers⟩ := keepsDistinct.joinRows_differ isDistinct isTrailing
      ⟨columns,[fun _ => none,Function.update (fun _ => none) name (row name)],by
        intro other member outsideName outside
        simp only [mem_cons,not_mem_nil,or_false] at member
        rcases member with rfl | rfl
        · rfl
        · rw [Function.update_of_ne (show outsideName ≠ name from fun same => outside (by rw [same]; exact isColumn))]⟩ rfl (by simp) differ
    have same : ∀ other ∈ rows,merged other row = row ∧ compatible names other row = true := by
      intro other member
      have isOther := sameRows.mem_iff.mp member
      simp only [mem_cons,not_mem_nil,or_false] at isOther
      have agrees : ∀ x,other x = none ∨ other x = row x := by
        intro x
        rcases isOther with rfl | rfl
        · exact Or.inl rfl
        · by_cases isName : x = name
          · rw [isName,Function.update_self]
            exact Or.inr rfl
          · rw [Function.update_of_ne isName]
            exact Or.inl rfl
      constructor
      · funext x
        rcases agrees x with isNone | isSame
        · exact merged_of_none isNone
        · rw [merged,isSame,Option.or_self]
      · rw [compatible_iff]
        intro x _
        rcases agrees x with isNone | isSame
        · exact Or.inl isNone
        · exact Or.inr (Or.inr isSame)
    obtain ⟨first,second,isPair⟩ := length_eq_two.mp sameRows.length_eq
    rw [isPair,joinRows_cons,joinRows_cons,pairwise_append] at joinDiffers
    have inFirst := same first (by rw [isPair]; exact mem_cons_self)
    have inSecond := same second (by rw [isPair]; exact mem_cons_of_mem _ (mem_singleton_self second))
    have contradiction := joinDiffers.2.2 row (List.mem_map.mpr ⟨row,mem_filter.mpr ⟨isRow,inFirst.2⟩,inFirst.1⟩) row
      (mem_append_left _ (List.mem_map.mpr ⟨row,mem_filter.mpr ⟨isRow,inSecond.2⟩,inSecond.1⟩))
    obtain ⟨_,_,different⟩ := contradiction
    exact different rfl

def numberOrder : ValueOrder Nat where
  lessThan
    | none,some _ => true
    | some a,some b => a < b
    | _,none => false
  asymm a b isLess := by
    cases a with
    | none =>
      cases b with
      | none => rfl
      | some b => rfl
    | some a =>
      cases b with
      | none => cases isLess
      | some b =>
        have less := of_decide_eq_true isLess
        exact decide_eq_false (Nat.lt_asymm less)
  total a b different := by
    cases a with
    | none =>
      cases b with
      | none => exact absurd rfl different
      | some b => exact Or.inl rfl
    | some a =>
      cases b with
      | none => exact Or.inr rfl
      | some b =>
        rcases Nat.lt_or_gt_of_ne (fun same => different (congrArg some same)) with less | greater
        · exact Or.inl (decide_eq_true less)
        · exact Or.inr (decide_eq_true greater)

/-- `SELECT DISTINCT ?x { .. } ORDER BY ?x VALUES ?y { .. }` with the given values. -/
def distinctOrdered (values : List Nat) : ParsedQuery Nat where
  selectedVariables := ["x"]
  distinct := true
  orderBy := [("x",false)]
  postQueryValuesClause := some ⟨["y"],values.map (fun value => [some value]),by simp⟩

/-- A row with a value for `?x`. -/
def rowOf (x : Nat) : Solution Variable Nat := fun name => if name = "x" then some x else none

end Guarantees

end SolutionModifiers
end Qlever
