import Qlever.HashMapMerge

/-! When the `GROUP BY` with a hash map agrees with the sort-based one. -/
namespace Qlever.GroupBy
open HashMapAggregationData List
variable {Id κ : Type} [LinearOrder Id] [Inhabited Id] [LinearOrder κ]

/-- The table agrees with the one of the sort-based `GROUP BY` on all rows, sorted by the grouping columns. -/
def Agrees (ops : IdOperations Id κ) (columns : List Nat) (aggregates : List (Aggregate Id)) (groupThreshold : Nat) (subresults : SubResults Id) : Prop :=
  ∃ table, computeGroupByForHashMapOptimization ops columns aggregates groupThreshold subresults = some table ∧
    ∀ sorted, sorted.Perm subresults.rows → sorted.Pairwise (fun row other => keyOf columns row ≤ keyOf columns other) →
      List.Forall₂ (SameRow ops columns.length aggregates) table (doGroupBy columns (aggregates.map (·.toAlias ops)) sorted)

/-- The input is one table, or a lazy sequence whose first block has no rows and where the blocks after the switch to the
sort-based aggregation can be merged. -/
def AgreesWhen (columns : List Nat) (groupThreshold : Nat) : SubResults Id → Prop
  | .materialized _ => True
  | .lazily [] => True
  | .lazily (first::blocks) =>
    first = [] ∧ TailMerges columns (switchPoint columns groupThreshold blocks []).1 ((switchPoint columns groupThreshold blocks []).2.getD []).flatten

variable (ops : IdOperations Id κ) (columns : List Nat) (aggregates : List (Aggregate Id))

theorem agrees_iff (grouped : columns ≠ []) (groupThreshold : Nat) (subresults : SubResults Id) :
    Agrees ops columns aggregates groupThreshold subresults ↔
      ∃ table, computeGroupByForHashMapOptimization ops columns aggregates groupThreshold subresults = some table ∧
        IsGroupTable ops columns aggregates subresults.rows table := by
  have total : Std.Total (fun row other : List Id => keyOf columns row ≤ keyOf columns other) := ⟨fun row other => le_total _ _⟩
  have trans : IsTrans (List Id) (fun row other => keyOf columns row ≤ keyOf columns other) := ⟨fun _ _ _ => le_trans⟩
  constructor
  · intro ⟨table,result,same⟩
    let sorted := subresults.rows.insertionSort (fun row other => keyOf columns row ≤ keyOf columns other)
    have perm : sorted.Perm subresults.rows := perm_insertionSort _ _
    have isSorted : sorted.Pairwise (fun row other => keyOf columns row ≤ keyOf columns other) := pairwise_insertionSort _ _
    exact ⟨table,result,(doGroupBy_isGroupTable grouped subresults.rows sorted perm isSorted).of_same (same sorted perm isSorted)⟩
  · intro ⟨table,result,isTable⟩
    exact ⟨table,result,fun sorted perm isSorted => isTable.unique (doGroupBy_isGroupTable grouped subresults.rows sorted perm isSorted)⟩

theorem switchPoint_flatten (groupThreshold : Nat) (blocks : List (IdTable Id)) (rows : IdTable Id) :
    rows ++ blocks.flatten = (switchPoint columns groupThreshold blocks rows).1 ++ ((switchPoint columns groupThreshold blocks rows).2.getD []).flatten := by
  induction blocks generalizing rows with
  | nil => simp [switchPoint]
  | cons block blocks ih =>
    rw [switchPoint,flatten_cons,← append_assoc]
    split
    · rfl
    · exact ih (rows ++ block)

section
variable (grouped : columns ≠ []) (groupThreshold : Nat) (first : IdTable Id) (blocks : List (IdTable Id))
include grouped

theorem computeLazily_eq :
    ∃ data : HashMapAggregationData (aggregates.map (·.toAlias ops)), (∃ keys, Holds columns (switchPoint columns groupThreshold blocks []).1 data keys) ∧
      computeGroupByForHashMapOptimization ops columns aggregates groupThreshold (.lazily (first::blocks)) =
        (sortByColumns columns ((groups columns ((switchPoint columns groupThreshold blocks []).2.getD []).flatten).map
          (groupRow columns (aggregates.map (·.toAlias ops))))).map (mergeRows ops columns.length (createResultFromHashMap data)) := by
  let aliases := aggregates.map (fun aggregate : Aggregate Id => aggregate.toAlias ops)
  have start : ∃ keys, Holds columns [] (empty aliases) keys := ⟨[],holds_empty⟩
  have begin : addBlocks columns groupThreshold (decide ((first::blocks).length ≤ 1)) blocks (empty aliases) = addBlocks columns groupThreshold false blocks (empty aliases) := by
    cases blocks with
    | nil => rfl
    | cons block blocks =>
      have several : ¬ (first::block::blocks).length ≤ 1 := by simp
      rw [decide_eq_false several]
  obtain ⟨holds,tail⟩ := addBlocks_holds groupThreshold blocks [] (empty aliases) start
  refine ⟨_,holds,?_⟩
  simp only [computeGroupByForHashMapOptimization,SubResults.begin,tail_cons]
  rw [begin,tail]
  cases (switchPoint columns groupThreshold blocks []).2 with
  | none =>
    have noTail : sortByColumns columns ((groups columns ([] : List (IdTable Id)).flatten).map (groupRow columns aliases)) = some [] := rfl
    rw [Option.getD_none,noTail,Option.map_some,mergeRows_nil]
  | some tailBlocks => exact mergeSortedTail_eq _ aliases tailBlocks grouped

theorem computeLazily_isGroupTable
    (merges : TailMerges columns (switchPoint columns groupThreshold blocks []).1 ((switchPoint columns groupThreshold blocks []).2.getD []).flatten) :
    ∃ table, computeGroupByForHashMapOptimization ops columns aggregates groupThreshold (.lazily (first::blocks)) = some table ∧
      IsGroupTable ops columns aggregates blocks.flatten table := by
  obtain ⟨data,holds,result⟩ := computeLazily_eq ops columns aggregates grouped groupThreshold first blocks
  obtain ⟨sorted,sortResult,_,tailTable⟩ := sortedTail_isGroupTable ops columns aggregates _ merges.adjacent merges.ordered
  have hashTable := createResult_isGroupTable _ data holds
  refine ⟨_,by rw [result,sortResult]; rfl,?_⟩
  have all := switchPoint_flatten columns groupThreshold blocks []
  rw [nil_append] at all
  rw [all]
  exact merges_isGroupTable _ _ _ _ _ merges.disjoint hashTable tailTable (mergeRows_merges _ _ _)

end

/-! ### The condition is needed -/

section Needed
variable {ops columns}

theorem IsGroupTable.length_noAggregates {rows table : IdTable Id} (isTable : IsGroupTable ops columns [] rows table) (row : List Id) (member : row ∈ table) :
    row.length = columns.length := by
  obtain ⟨key,values,others,length,rfl,_,same⟩ := (isTable.same row member).2
  cases same
  simp [length]

theorem IsGroupTable.sorted_noAggregates {rows table : IdTable Id} (isTable : IsGroupTable ops columns [] rows table) : table.Pairwise (· < ·) := by
  have keys : table.map (List.take columns.length) = table := by
    conv_rhs => rw [← map_id table]
    exact map_congr_left (fun row member => take_of_length_le (isTable.length_noAggregates row member).le)
  rw [← keys]
  exact isTable.sorted

omit [LinearOrder Id] in
theorem groupRow_noAliases
    (columns : List Nat) (group : List Id × IdTable Id) : groupRow columns [] group = keyOf columns group.1 := by simp [groupRow,evaluateAll]

omit [Inhabited Id] in
theorem sortByColumns_specified (table sorted : IdTable Id) (result : sortByColumns columns table = some sorted) (row other : List Id) (member : row ∈ table)
    (member' : other ∈ table) (differs : row ≠ other) : ∃ order, compareColumns columns row other = some order ∧ order ≠ .eq := by
  unfold sortByColumns at result
  split at result
  · rename_i specified
    have symmetric : Std.Symm (fun left right : List Id => compareColumns columns left right ≠ none ∧ (left = right ∨ compareColumns columns left right ≠ some .eq)) := by
      refine ⟨fun left right ⟨defined,distinguished⟩ => ?_⟩
      obtain ⟨order,compared⟩ := Option.ne_none_iff_exists'.mp defined
      rw [compareColumns_swap,compared]
      refine ⟨by simp,?_⟩
      rcases distinguished with same | distinguished
      · exact .inl same.symm
      · refine .inr ?_
        rw [compared] at distinguished
        cases order <;> simp_all
    obtain ⟨defined,distinguished⟩ := specified.forall member member' differs
    obtain ⟨order,compared⟩ := Option.ne_none_iff_exists'.mp defined
    refine ⟨order,compared,?_⟩
    rintro rfl
    rcases distinguished with same | distinguished
    · exact differs same
    · exact distinguished compared
  · cases result

theorem ordered_of_agrees (grouped : columns ≠ []) (groupThreshold : Nat) (first : IdTable Id) (blocks : List (IdTable Id)) (rows table : IdTable Id)
    (result : computeGroupByForHashMapOptimization ops columns [] groupThreshold (.lazily (first::blocks)) = some table)
    (isTable : IsGroupTable ops columns [] rows table) :
    let tail := ((switchPoint columns groupThreshold blocks []).2.getD []).flatten
    (groupKeys columns tail).Nodup ∧ ∀ row ∈ tail, ∀ other ∈ tail, keyOf columns row < keyOf columns other →
      compareColumns columns (keyOf columns row) (keyOf columns other) = some .lt := by
  intro tail
  obtain ⟨data,holds,computed⟩ := computeLazily_eq ops columns [] grouped groupThreshold first blocks
  rw [computed] at result
  obtain ⟨sorted,sortResult,merged⟩ := Option.map_eq_some_iff.mp result
  have tailKeys : (groups columns tail).map (groupRow columns []) = groupKeys columns tail := map_congr_left (fun group _ => groupRow_noAliases columns group)
  have sortResult : sortByColumns columns (groupKeys columns tail) = some sorted := tailKeys ▸ sortResult
  obtain ⟨perm,byColumns⟩ := sortByColumns_values columns (groupKeys columns tail) sorted sortResult
  have inKeys : ∀ key ∈ groupKeys columns tail, key.length = columns.length := by
    intro key member
    obtain ⟨source,_,rfl⟩ := (mem_groupKeys tail key).mp member
    exact keyOf_length source
  have sublist : sorted.Sublist table := by
    rw [← merged]
    exact (mergeRows_merges columns.length (createResultFromHashMap data) sorted).tail_sublist
      (fun row member => (createResult_isGroupTable _ data holds).length_noAggregates row member) (fun row member => inKeys row (perm.mem_iff.mp member))
  have strict : sorted.Pairwise (· < ·) := isTable.sorted_noAggregates.sublist sublist
  refine ⟨perm.nodup_iff.mp strict.nodup,?_⟩
  intro row member other member' less
  have inside : keyOf columns row ∈ groupKeys columns tail := (mem_groupKeys tail _).mpr ⟨row,member,rfl⟩
  have inside' : keyOf columns other ∈ groupKeys columns tail := (mem_groupKeys tail _).mpr ⟨other,member',rfl⟩
  obtain ⟨order,compared,distinguished⟩ := sortByColumns_specified _ _ sortResult _ _ inside inside' less.ne
  have values : columnValues columns (keyOf columns row) ≤ columnValues columns (keyOf columns other) := by
    have symmetric : Std.Symm (fun left right : List Id => (left < right → columnValues columns left ≤ columnValues columns right) ∧
      (right < left → columnValues columns right ≤ columnValues columns left)) := ⟨fun _ _ both => ⟨both.2,both.1⟩⟩
    have both := (strict.and (pairwise_map.mp byColumns)).imp (S := fun left right => (left < right → columnValues columns left ≤ columnValues columns right) ∧
      (right < left → columnValues columns right ≤ columnValues columns left)) (fun ⟨smaller,atMost⟩ => ⟨fun _ => atMost,fun larger => absurd larger smaller.not_gt⟩)
    exact (both.forall (perm.mem_iff.mpr inside) (perm.mem_iff.mpr inside') less.ne).1 less
  have notGreater : order ≠ .gt := (compareColumns_compares columns _ _ order compared).ne_gt.mpr values
  rw [compared]
  cases order with
  | lt => rfl
  | eq => exact absurd rfl distinguished
  | gt => exact absurd rfl notGreater

/-- `MIN` of the integer one. -/
def minOne (ops : IdOperations Id κ) : Aggregate Id := ⟨.min,fun _ => ops.makeFromInt 1⟩

/-- `COUNT` of all rows. -/
def countAll (ops : IdOperations Id κ) : Aggregate Id := ⟨.count,fun _ => ops.makeFromInt 1⟩

section
omit [LinearOrder Id] [Inhabited Id]

theorem foldl_minMax_self (value : Id) (rows : IdTable Id) : rows.foldl (fun current _ => minMax ops .min value current) value = value := by
  induction rows with
  | nil => rfl
  | cons row rows ih => simpa [minMax] using ih

theorem minOne_aggregateValue (rows : IdTable Id) (nonempty : rows ≠ []) : aggregateValue ops (minOne ops) rows = ops.makeFromInt 1 := by
  cases rows with
  | nil => exact absurd rfl nonempty
  | cons row rows =>
    have added := extremum_addValue ops (minOne ops) rows (ops.makeFromInt 1)
    exact (congrArg (fun data : Option Id => data.getD ops.undefined) added).trans (foldl_minMax_self _ rows)

theorem minOne_evaluate (rows : IdTable Id) (nonempty : rows ≠ []) : ((minOne ops).toAlias ops).evaluate rows [] = ops.makeFromInt 1 := by
  cases rows with
  | nil => exact absurd rfl nonempty
  | cons row rows =>
    change rows.foldl (fun result _ => minMax ops .min result (ops.makeFromInt 1)) (ops.makeFromInt 1) = ops.makeFromInt 1
    induction rows with
    | nil => rfl
    | cons next rows ih => simpa [minMax] using ih

theorem countAll_aggregateValue (rows : IdTable Id) : aggregateValue ops (countAll ops) rows = ops.makeFromInt rows.length := by
  have summands : ∀ row ∈ rows, summand ops (countAll ops) row = 1 := by
    intro row _
    simp [summand,countAll,ops.isValid_makeFromInt]
  have folded : rows.foldl (fun result row => result + summand ops (countAll ops) row) 0 = (rows.length : Int) := by
    rw [foldl_summand,map_congr_left summands]
    simp
  exact congrArg ops.makeFromInt folded

end

theorem disjoint_of_agrees (grouped : columns ≠ []) (groupThreshold : Nat) (first : IdTable Id) (blocks : List (IdTable Id)) (rows table : IdTable Id)
    (result : computeGroupByForHashMapOptimization ops columns [minOne ops] groupThreshold (.lazily (first::blocks)) = some table)
    (isTable : IsGroupTable ops columns [minOne ops] rows table)
    (adjacent : (groupKeys columns ((switchPoint columns groupThreshold blocks []).2.getD []).flatten).Nodup)
    (ordered : ∀ row ∈ ((switchPoint columns groupThreshold blocks []).2.getD []).flatten, ∀ other ∈ ((switchPoint columns groupThreshold blocks []).2.getD []).flatten,
      keyOf columns row < keyOf columns other → compareColumns columns (keyOf columns row) (keyOf columns other) = some .lt) :
    ∀ row ∈ (switchPoint columns groupThreshold blocks []).1, ∀ other ∈ ((switchPoint columns groupThreshold blocks []).2.getD []).flatten,
      keyOf columns row ≠ keyOf columns other := by
  obtain ⟨data,⟨keys,holds⟩,computed⟩ := computeLazily_eq ops columns [minOne ops] grouped groupThreshold first blocks
  obtain ⟨sorted,sortResult,perm,tailTable⟩ := sortedTail_isGroupTable ops columns [minOne ops] _ adjacent ordered
  have hashTable := createResult_isGroupTable _ data ⟨keys,holds⟩
  rw [computed,sortResult] at result
  obtain rfl := Option.some.inj result
  have hashRows : ∀ row ∈ createResultFromHashMap data, ∃ key, key.length = columns.length ∧ row = key ++ [ops.makeFromInt 1] := by
    intro row member
    rw [createResult_eq_specRows _ data keys holds] at member
    obtain ⟨key,inside,rfl⟩ := List.mem_map.mp member
    obtain ⟨source,sourceMember,rfl⟩ := (holds.mem key).mp ((mem_insertionSort _).mp inside)
    refine ⟨_,keyOf_length source,?_⟩
    rw [specRow,map_singleton,minOne_aggregateValue]
    exact ne_nil_of_mem (mem_filter.mpr ⟨sourceMember,by simp⟩)
  have tailRows : ∀ row ∈ sorted, ∃ key, key.length = columns.length ∧ row = key ++ [ops.makeFromInt 1] := by
    intro row member
    obtain ⟨group,inside,rfl⟩ := List.mem_map.mp (perm.mem_iff.mp member)
    refine ⟨_,keyOf_length group.1,?_⟩
    have value : ((minOne ops).toAlias ops).evaluate group.2 [] = ops.makeFromInt 1 := minOne_evaluate group.2 (groups_isGroup columns _ group inside).nonempty
    simp only [groupRow,evaluateAll,map_singleton,foldl_cons,foldl_nil,nil_append,value]
  have merges : Merges ops columns.length (createResultFromHashMap data) sorted _ := mergeRows_merges _ _ _
  rcases merges.perm_or_both with permuted | ⟨row,member,other,member',same,inside⟩
  · intro row member other member' same
    have nodup := (permuted.map (List.take columns.length)).nodup_iff.mp isTable.sorted.nodup
    rw [map_append] at nodup
    exact disjoint_of_nodup_append nodup (hashTable.complete row member) (same ▸ tailTable.complete other member')
  · exfalso
    obtain ⟨key,length,rfl⟩ := hashRows row member
    obtain ⟨key',length',rfl⟩ := tailRows other member'
    have sum : addAggregates ops columns.length (key ++ [ops.makeFromInt 1]) (key' ++ [ops.makeFromInt 1]) = key ++ [ops.makeFromInt 2] := by
      simp [addAggregates,← length,length'.trans length.symm,ops.getInt_makeFromInt]
    rw [sum] at inside
    obtain ⟨⟨source,sourceMember,sourceKey⟩,value⟩ := isTable.same _ inside
    rw [take_left' length] at sourceKey value
    obtain ⟨_,_,_,shared,left,right,values⟩ := value
    obtain ⟨rfl,rfl⟩ := append_inj left (length.trans shared.symm)
    obtain rfl := append_cancel_left right
    cases values with
    | cons head _ =>
      have some : rows.filter (fun row => keyOf columns row = key) ≠ [] := ne_nil_of_mem (mem_filter.mpr ⟨sourceMember,by simpa using sourceKey⟩)
      have ranks : ops.rank (ops.makeFromInt 2) = ops.rank (ops.makeFromInt 1) := by
        rw [← minOne_aggregateValue _ some]
        exact head
      have equal := ops.rank_makeFromInt _ _ ranks
      omega

theorem first_empty_of_agrees (first rest table : IdTable Id) (withFirst : IsGroupTable ops columns [countAll ops] (first ++ rest) table)
    (without : IsGroupTable ops columns [countAll ops] rest table) : first = [] := by
  rw [eq_nil_iff_forall_not_mem]
  intro source member
  obtain ⟨row,inside,key⟩ := List.mem_map.mp (withFirst.complete source (mem_append_left _ member))
  have values := ((withFirst.same row inside).2.symm).trans (without.same row inside).2
  rw [key] at values
  obtain ⟨_,_,_,shared,left,right,values⟩ := values
  obtain ⟨rfl,rfl⟩ := append_inj left ((keyOf_length source).trans shared.symm)
  obtain rfl := append_cancel_left right
  cases values with
  | cons head _ =>
    have same : ops.makeFromInt _ = ops.makeFromInt _ := (countAll_aggregateValue _).symm.trans (head.trans (countAll_aggregateValue _))
    have counts := congrArg ops.getInt same
    rw [ops.getInt_makeFromInt,ops.getInt_makeFromInt,filter_append,length_append] at counts
    have some : 0 < (first.filter (fun row => keyOf columns row = keyOf columns source)).length :=
      length_pos_of_mem (mem_filter.mpr ⟨member,by simp⟩)
    omega

end Needed

theorem agrees_materialized (grouped : columns ≠ []) (groupThreshold : Nat) (table : IdTable Id) :
    Agrees ops columns aggregates groupThreshold (.materialized table) := by
  rw [agrees_iff ops columns aggregates grouped]
  obtain ⟨holds,tail⟩ := addBlocks_single columns (aggregates.map (·.toAlias ops)) groupThreshold table
  refine ⟨_,?_,createResult_isGroupTable table _ holds⟩
  simp only [computeGroupByForHashMapOptimization,SubResults.begin]
  rw [tail]

def integerIds : IdOperations Int Int where
  undefined := 0
  isValid _ := true
  getInt id := id
  makeFromInt value := value
  rank id := id
  isValid_makeFromInt _ := rfl
  getInt_makeFromInt _ := rfl
  rank_makeFromInt _ _ same := same

end Qlever.GroupBy
