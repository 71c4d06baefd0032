import Qlever.HashMapGroupBy

/-! The table of the groups of some rows: one row for each key, in the order of the keys, with the aggregates of all rows with
that key. `MIN` and `MAX` are determined up to values that compare equal.
-/
namespace Qlever.GroupBy
open List

section Groups
variable {Id : Type} [DecidableEq Id] [Inhabited Id] {columns : List Nat}

def groups (columns : List Nat) : IdTable Id → List (List Id × IdTable Id)
  | [] => []
  | first::rest => (cut columns first [first] rest).1 ++ [(cut columns first [first] rest).2]

def groupKeys (columns : List Nat) (table : IdTable Id) : List (List Id) := (groups columns table).map (fun group => keyOf columns group.1)

theorem doGroupBy_eq_groups (aliases : List (Alias Id)) (table : IdTable Id) (grouped : columns ≠ []) :
    doGroupBy columns aliases table = (groups columns table).map (groupRow columns aliases) := by
  rw [doGroupBy_eq_groupedRows]
  cases table with
  | nil => simp [groupedRows,groups,grouped]
  | cons first rest => simp [groupedRows,groups]

theorem cut_flatten (columns : List Nat) (first : List Id) (opened rows : IdTable Id) :
    (cut columns first opened rows).1.flatMap Prod.snd ++ (cut columns first opened rows).2.2 = opened ++ rows := by
  fun_induction cut columns first opened rows with
  | case1 first opened => simp
  | case2 first opened row rows same ih => simpa using ih
  | case3 first opened row rows differs ih => simpa [append_assoc] using ih

theorem groups_flatten (columns : List Nat) (table : IdTable Id) : (groups columns table).flatMap Prod.snd = table := by
  cases table with
  | nil => rfl
  | cons first rest => simpa [groups] using cut_flatten columns first [first] rest

theorem groups_isGroup (columns : List Nat) (table : IdTable Id) : ∀ group ∈ groups columns table, IsGroup columns group := by
  cases table with
  | nil => simp [groups]
  | cons first rest =>
    obtain ⟨closed,last⟩ := cut_isGroup first [first] rest (isGroup_singleton columns first)
    intro group member
    rcases mem_append.mp member with member | member
    · exact closed group member
    · rw [mem_singleton.mp member]
      exact last

theorem isGroup_filter (list : List (List Id × IdTable Id)) (isGroup : ∀ group ∈ list, IsGroup columns group)
    (distinct : (list.map (fun group => keyOf columns group.1)).Nodup) (group : List Id × IdTable Id) (member : group ∈ list) :
    (list.flatMap Prod.snd).filter (fun row => keyOf columns row = keyOf columns group.1) = group.2 := by
  induction list with
  | nil => cases member
  | cons head list ih =>
    have headKeys := (isGroup head mem_cons_self).sameKey
    obtain ⟨fresh,distinct'⟩ := nodup_cons.mp distinct
    rw [flatMap_cons,filter_append]
    rcases mem_cons.mp member with rfl | member
    · have all : group.2.filter (fun row => keyOf columns row = keyOf columns group.1) = group.2 :=
        filter_eq_self.mpr (fun row inside => by simpa using headKeys row inside)
      have none : (list.flatMap Prod.snd).filter (fun row => keyOf columns row = keyOf columns group.1) = [] := by
        rw [filter_eq_nil_iff]
        intro row inside
        obtain ⟨other,otherMember,rowMember⟩ := mem_flatMap.mp inside
        have key := (isGroup other (mem_cons_of_mem _ otherMember)).sameKey row rowMember
        simp only [decide_eq_true_eq]
        intro same
        exact fresh (List.mem_map.mpr ⟨other,otherMember,key.symm.trans same⟩)
      rw [all,none,append_nil]
    · have none : head.2.filter (fun row => keyOf columns row = keyOf columns group.1) = [] := by
        rw [filter_eq_nil_iff]
        intro row inside
        simp only [decide_eq_true_eq,headKeys row inside]
        intro same
        exact fresh (List.mem_map.mpr ⟨group,member,same.symm⟩)
      rw [none,nil_append]
      exact ih (forall_mem_cons.mp isGroup).2 distinct' member

theorem groups_filter (table : IdTable Id) (distinct : (groupKeys columns table).Nodup) (group : List Id × IdTable Id)
    (member : group ∈ groups columns table) : table.filter (fun row => keyOf columns row = keyOf columns group.1) = group.2 := by
  have rows := isGroup_filter (groups columns table) (groups_isGroup columns table) distinct group member
  rwa [groups_flatten] at rows

theorem mem_groupKeys (table : IdTable Id) (key : List Id) : key ∈ groupKeys columns table ↔ ∃ row ∈ table, keyOf columns row = key := by
  have isGroup := groups_isGroup columns table
  conv_rhs => rw [← groups_flatten columns table]
  simp only [groupKeys,List.mem_map,mem_flatMap]
  constructor
  · intro ⟨group,member,same⟩
    obtain ⟨row,inside⟩ := exists_mem_of_ne_nil _ (isGroup group member).nonempty
    exact ⟨row,⟨group,member,inside⟩,((isGroup group member).sameKey row inside).trans same⟩
  · intro ⟨row,⟨group,member,inside⟩,same⟩
    exact ⟨group,member,((isGroup group member).sameKey row inside).symm.trans same⟩

end Groups

theorem groupKeys_sorted {Id : Type} [LinearOrder Id] [Inhabited Id] {columns : List Nat} (table : IdTable Id)
    (sorted : table.Pairwise (fun row other => keyOf columns row ≤ keyOf columns other)) : (groupKeys columns table).Pairwise (· < ·) := by
  have general : ∀ first opened (rows : IdTable Id), (first::rows).Pairwise (fun row other => keyOf columns row ≤ keyOf columns other) →
      (((cut columns first opened rows).1 ++ [(cut columns first opened rows).2]).map (fun group => keyOf columns group.1)).Pairwise (· < ·) ∧
      ∀ key ∈ ((cut columns first opened rows).1 ++ [(cut columns first opened rows).2]).map (fun group => keyOf columns group.1), keyOf columns first ≤ key := by
    intro first opened rows sorted
    fun_induction cut columns first opened rows with
    | case1 first opened => simp
    | case2 first opened row rows same ih =>
      obtain ⟨above,sorted'⟩ := pairwise_cons.mp sorted
      exact ih (pairwise_cons.mpr ⟨fun other member => above other (mem_cons_of_mem _ member),(pairwise_cons.mp sorted').2⟩)
    | case3 first opened row rows differs ih =>
      obtain ⟨above,sorted'⟩ := pairwise_cons.mp sorted
      obtain ⟨strict,below⟩ := ih sorted'
      have less : keyOf columns first < keyOf columns row := lt_of_le_of_ne (above row mem_cons_self) (Ne.symm differs)
      refine ⟨?_,?_⟩
      · rw [cons_append,map_cons,pairwise_cons]
        exact ⟨fun key member => less.trans_le (below key member),strict⟩
      · intro key member
        rw [cons_append,map_cons,mem_cons] at member
        rcases member with rfl | member
        · exact le_rfl
        · exact less.le.trans (below key member)
  cases table with
  | nil => simp [groupKeys,groups]
  | cons first rest => exact (general first [first] rest sorted).1

/-! ### The aggregates of a group -/

section Aggregates
variable {Id κ : Type} [LinearOrder κ] (ops : IdOperations Id κ)

def SameValue (aggregate : Aggregate Id) (value other : Id) : Prop :=
  match aggregate.function with
  | .count | .sum => value = other
  | .min | .max => ops.rank value = ops.rank other

def aggregateValue (aggregate : Aggregate Id) (rows : IdTable Id) : Id :=
  (aggregate.toAlias ops).evaluateAlias (rows.foldl (aggregate.toAlias ops).addValue (aggregate.toAlias ops).reset) [] []

omit [LinearOrder κ] in
theorem foldl_summand (aggregate : Aggregate Id) (rows : IdTable Id) (start : Int) :
    rows.foldl (fun result row => result + summand ops aggregate row) start = start + (rows.map (summand ops aggregate)).sum := by
  induction rows generalizing start with
  | nil => simp
  | cons row rows ih => rw [foldl_cons,ih,map_cons,sum_cons,add_assoc]

def Extreme (function : AggregateFunction) (values : Set κ) (value : κ) : Prop :=
  if function = .min then IsLeast values value else IsGreatest values value

variable {function : AggregateFunction}

theorem Extreme.unique {values : Set κ} {value other : κ} (first : Extreme function values value)
    (second : Extreme function values other) : value = other := by
  unfold Extreme at first second
  split at first
  · rw [if_pos ‹_›] at second
    exact IsLeast.unique first second
  · rw [if_neg ‹_›] at second
    exact IsGreatest.unique first second

theorem minMax_extreme (function : AggregateFunction) (first second : Id) :
    Extreme function {ops.rank first,ops.rank second} (ops.rank (minMax ops function first second)) := by
  unfold Extreme minMax
  by_cases least : function = .min
  · rw [if_pos least,if_pos least]
    by_cases less : ops.rank first < ops.rank second
    · simp [IsLeast,lowerBounds,less,less.le]
    · simp [IsLeast,lowerBounds,less,not_lt.mp less]
  · rw [if_neg least,if_neg least]
    by_cases less : ops.rank second < ops.rank first
    · simp [IsGreatest,upperBounds,less,less.le]
    · simp [IsGreatest,upperBounds,less,not_lt.mp less]

theorem Extreme.insert {values : Set κ} {value new result : κ} (old : Extreme function values value)
    (both : Extreme function {value,new} result) : Extreme function (values ∪ {new}) result := by
  unfold Extreme at old both ⊢
  split at old
  · rw [if_pos ‹_›] at both ⊢
    obtain ⟨member,lower⟩ := both
    simp only [lowerBounds_insert,lowerBounds_singleton,Set.mem_inter_iff,Set.mem_Iic] at lower
    refine ⟨?_,?_⟩
    · rcases member with rfl | rfl
      · exact .inl old.1
      · exact .inr rfl
    · rintro x (inside | rfl)
      · exact lower.1.trans (old.2 inside)
      · exact lower.2
  · rw [if_neg ‹_›] at both ⊢
    obtain ⟨member,upper⟩ := both
    simp only [upperBounds_insert,upperBounds_singleton,Set.mem_inter_iff,Set.mem_Ici] at upper
    refine ⟨?_,?_⟩
    · rcases member with rfl | rfl
      · exact .inl old.1
      · exact .inr rfl
    · rintro x (inside | rfl)
      · exact (old.2 inside).trans upper.1
      · exact upper.2

def ranks (aggregate : Aggregate Id) (rows : IdTable Id) : Set κ := {rank | ∃ row ∈ rows, ops.rank (aggregate.child row) = rank}

omit [LinearOrder κ] in
theorem ranks_append (aggregate : Aggregate Id) (rows : IdTable Id) (row : List Id) :
    ranks ops aggregate (rows ++ [row]) = ranks ops aggregate rows ∪ {ops.rank (aggregate.child row)} := by
  ext rank
  simp only [ranks,mem_append,mem_singleton,Set.mem_ofPred_eq,Set.mem_union,Set.mem_singleton_iff]
  constructor
  · rintro ⟨other,inside | rfl,same⟩
    · exact .inl ⟨other,inside,same⟩
    · exact .inr same.symm
  · rintro (⟨other,inside,same⟩ | rfl)
    · exact ⟨other,.inl inside,same⟩
    · exact ⟨row,.inr rfl,rfl⟩

/-- An aggregation that starts with a first value and joins each next one with `minMax`, in any order of the arguments. -/
theorem foldl_extreme (aggregate : Aggregate Id) (join : Id → List Id → Id)
    (joins : ∀ value row, Extreme aggregate.function {ops.rank value,ops.rank (aggregate.child row)} (ops.rank (join value row)))
    (rows before : IdTable Id) (value : Id) (start : Extreme aggregate.function (ranks ops aggregate before) (ops.rank value)) :
    Extreme aggregate.function (ranks ops aggregate (before ++ rows)) (ops.rank (rows.foldl join value)) := by
  induction rows generalizing before value with
  | nil => simpa using start
  | cons row rows ih =>
    have next := ih (before ++ [row]) (join value row) (by
      rw [ranks_append]
      exact start.insert (joins value row))
    simpa [append_assoc] using next

theorem extreme_singleton (aggregate : Aggregate Id) (row : List Id) :
    Extreme aggregate.function (ranks ops aggregate [row]) (ops.rank (aggregate.child row)) := by
  have single : ranks ops aggregate [row] = {ops.rank (aggregate.child row)} := by
    ext rank
    simp [ranks,eq_comm]
  rw [single]
  unfold Extreme
  split
  · exact isLeast_singleton
  · exact isGreatest_singleton

section
variable (aggregate : Aggregate Id) (rows : IdTable Id)

theorem extremum_evaluate (previous : List Id) (nonempty : rows ≠ []) :
    Extreme aggregate.function (ranks ops aggregate rows) (ops.rank ((extremum ops aggregate).evaluate rows previous)) := by
  cases rows with
  | nil => exact absurd rfl nonempty
  | cons row rows =>
    exact foldl_extreme ops aggregate (fun result next => minMax ops aggregate.function result (aggregate.child next))
      (fun value row => minMax_extreme ops aggregate.function value (aggregate.child row)) rows [row] _ (extreme_singleton ops aggregate row)

theorem extremum_addValue (value : Id) :
    rows.foldl (extremum ops aggregate).addValue (some value : Option Id) =
      (some (rows.foldl (fun current row => minMax ops aggregate.function (aggregate.child row) current) value) : Option Id) := by
  induction rows generalizing value with
  | nil => rfl
  | cons row rows ih => exact ih _

theorem extremum_aggregate (key previous : List Id) (nonempty : rows ≠ []) :
    Extreme aggregate.function (ranks ops aggregate rows)
      (ops.rank ((extremum ops aggregate).evaluateAlias (rows.foldl (extremum ops aggregate).addValue (extremum ops aggregate).reset) key previous)) := by
  cases rows with
  | nil => exact absurd rfl nonempty
  | cons row rows =>
    have added : rows.foldl (extremum ops aggregate).addValue ((extremum ops aggregate).addValue (extremum ops aggregate).reset row) =
        (some (rows.foldl (fun current row => minMax ops aggregate.function (aggregate.child row) current) (aggregate.child row)) : Option Id) :=
      extremum_addValue ops aggregate rows (aggregate.child row)
    rw [foldl_cons,added]
    refine foldl_extreme ops aggregate (fun current row => minMax ops aggregate.function (aggregate.child row) current) ?_ rows [row] _
      (extreme_singleton ops aggregate row)
    intro value row
    rw [Set.pair_comm]
    exact minMax_extreme ops aggregate.function (aggregate.child row) value

theorem evaluate_same (others : IdTable Id) (previous : List Id) (perm : rows.Perm others) (nonempty : rows ≠ []) :
    SameValue ops aggregate ((aggregate.toAlias ops).evaluate rows previous) (aggregateValue ops aggregate others) := by
  have sums : (rows.map (summand ops aggregate)).sum = (others.map (summand ops aggregate)).sum := (perm.map _).sum_eq
  have sameRanks : ranks ops aggregate rows = ranks ops aggregate others := by
    ext rank
    simp [ranks,perm.mem_iff]
  have othersNonempty : others ≠ [] := fun empty => nonempty (by rw [empty] at perm; exact perm.eq_nil)
  have additiveSame : (additive ops aggregate).evaluate rows previous =
      (additive ops aggregate).evaluateAlias (others.foldl (additive ops aggregate).addValue (additive ops aggregate).reset) [] [] := by
    have folded : others.foldl (additive ops aggregate).addValue (additive ops aggregate).reset = (others.map (summand ops aggregate)).sum := by
      exact (foldl_summand ops aggregate others 0).trans (zero_add _)
    rw [folded,← sums]
    cases rows with
    | nil => rfl
    | cons row rows =>
      change ops.makeFromInt (rows.foldl _ _) = ops.makeFromInt _
      rw [foldl_summand,map_cons,sum_cons]
  have extremumSame : ops.rank ((extremum ops aggregate).evaluate rows previous) =
      ops.rank ((extremum ops aggregate).evaluateAlias (others.foldl (extremum ops aggregate).addValue (extremum ops aggregate).reset) [] []) := by
    have first := extremum_evaluate ops aggregate rows previous nonempty
    rw [sameRanks] at first
    exact first.unique (extremum_aggregate ops aggregate others [] [] othersNonempty)
  unfold SameValue aggregateValue Aggregate.toAlias
  cases function : aggregate.function with
  | count | sum => exact additiveSame
  | min | max => exact extremumSame

end

end Aggregates

/-! ### Tables of groups -/

section Tables
variable {Id κ : Type} [LinearOrder κ] (ops : IdOperations Id κ)

inductive SameValues : List (Aggregate Id) → List Id → List Id → Prop
  | nil : SameValues [] [] []
  | cons {aggregate : Aggregate Id} {aggregates : List (Aggregate Id)} {value other : Id} {values others : List Id} :
      SameValue ops aggregate value other → SameValues aggregates values others → SameValues (aggregate::aggregates) (value::values) (other::others)

def SameRow (width : Nat) (aggregates : List (Aggregate Id)) (row other : List Id) : Prop :=
  ∃ key values others, key.length = width ∧ row = key ++ values ∧ other = key ++ others ∧ SameValues ops aggregates values others

variable {ops}

section
omit [LinearOrder κ]

variable {aggregate : Aggregate Id}

theorem SameValue.symm {value other : Id} (same : SameValue ops aggregate value other) :
    SameValue ops aggregate other value := by
  unfold SameValue at same ⊢
  split at same <;> exact same.symm

theorem SameValue.trans {value other third : Id} (first : SameValue ops aggregate value other)
    (second : SameValue ops aggregate other third) : SameValue ops aggregate value third := by
  revert first second
  unfold SameValue
  cases aggregate.function <;> exact Eq.trans

variable {aggregates : List (Aggregate Id)}

theorem SameValues.symm {values others : List Id} (same : SameValues ops aggregates values others) :
    SameValues ops aggregates others values := by
  induction same with
  | nil => exact .nil
  | cons head _ ih => exact .cons head.symm ih

theorem SameValues.trans {values others thirds : List Id} (first : SameValues ops aggregates values others)
    (second : SameValues ops aggregates others thirds) : SameValues ops aggregates values thirds := by
  induction first generalizing thirds with
  | nil => exact second
  | cons head _ ih =>
    cases second with
    | cons head' tail' => exact .cons (head.trans head') (ih tail')

section
variable {width : Nat} {aggregates : List (Aggregate Id)} {row other : List Id}

theorem SameRow.symm (same : SameRow ops width aggregates row other) :
    SameRow ops width aggregates other row := by
  obtain ⟨key,values,others,length,left,right,values'⟩ := same
  exact ⟨key,others,values,length,right,left,values'.symm⟩

theorem SameRow.take (same : SameRow ops width aggregates row other) :
    row.take width = other.take width := by
  obtain ⟨key,values,others,rfl,rfl,rfl,_⟩ := same
  simp

theorem SameRow.trans {third : List Id} (first : SameRow ops width aggregates row other)
    (second : SameRow ops width aggregates other third) : SameRow ops width aggregates row third := by
  obtain ⟨key,values,others,length,rfl,rfl,same⟩ := first
  obtain ⟨key',others',thirds,length',equal,rfl,same'⟩ := second
  obtain ⟨rfl,rfl⟩ := append_inj equal (length.trans length'.symm)
  exact ⟨key,values,thirds,length,rfl,rfl,same.trans same'⟩

end

end

variable (ops) [LinearOrder Id] [Inhabited Id]

def specRow (columns : List Nat) (aggregates : List (Aggregate Id)) (rows : IdTable Id) (key : List Id) : List Id :=
  key ++ aggregates.map (fun aggregate => aggregateValue ops aggregate (rows.filter (fun row => keyOf columns row = key)))

/-- A table with one row for each key of `rows`, in the order of the keys. -/
structure IsGroupTable (columns : List Nat) (aggregates : List (Aggregate Id)) (rows table : IdTable Id) : Prop where
  sorted : (table.map (List.take columns.length)).Pairwise (· < ·)
  same : ∀ row ∈ table, (∃ source ∈ rows, keyOf columns source = row.take columns.length) ∧
    SameRow ops columns.length aggregates row (specRow ops columns aggregates rows (row.take columns.length))
  complete : ∀ source ∈ rows, keyOf columns source ∈ table.map (List.take columns.length)

variable {ops} {columns : List Nat} {aggregates : List (Aggregate Id)}

theorem IsGroupTable.mem_keys {rows table : IdTable Id} (isTable : IsGroupTable ops columns aggregates rows table) (key : List Id) :
    key ∈ table.map (List.take columns.length) ↔ ∃ source ∈ rows, keyOf columns source = key := by
  constructor
  · intro member
    obtain ⟨row,inside,rfl⟩ := List.mem_map.mp member
    exact (isTable.same row inside).1
  · rintro ⟨source,inside,rfl⟩
    exact isTable.complete source inside

omit [LinearOrder κ] [LinearOrder Id] [Inhabited Id] in
theorem forall₂_of_map_eq {α β : Type} (f : α → β) (R : α → α → Prop) (first second : List α) (keys : first.map f = second.map f)
    (related : ∀ a ∈ first, ∀ b ∈ second, f a = f b → R a b) : List.Forall₂ R first second := by
  induction first generalizing second with
  | nil =>
    cases second with
    | nil => exact .nil
    | cons b second => cases keys
  | cons a first ih =>
    cases second with
    | nil => cases keys
    | cons b second =>
      obtain ⟨head,tail⟩ := List.cons.inj keys
      refine .cons (related a mem_cons_self b mem_cons_self head) (ih second tail ?_)
      exact fun a' member b' member' => related a' (mem_cons_of_mem _ member) b' (mem_cons_of_mem _ member')

theorem IsGroupTable.unique {rows table other : IdTable Id} (first : IsGroupTable ops columns aggregates rows table)
    (second : IsGroupTable ops columns aggregates rows other) : List.Forall₂ (SameRow ops columns.length aggregates) table other := by
  have keys : table.map (List.take columns.length) = other.map (List.take columns.length) :=
    first.sorted.eq_of_mem_iff second.sorted (fun key => (first.mem_keys key).trans (second.mem_keys key).symm)
  refine forall₂_of_map_eq (List.take columns.length) _ table other keys ?_
  intro row member row' member' sameKey
  have right := (second.same row' member').2
  rw [← sameKey] at right
  exact (first.same row member).2.trans right.symm

section
omit [LinearOrder κ] [LinearOrder Id] [Inhabited Id]

theorem forall₂_map_eq {α β : Type} {f : α → β} {R : α → α → Prop} (imp : ∀ a b, R a b → f a = f b) {first second : List α}
    (related : List.Forall₂ R first second) : first.map f = second.map f := by
  induction related with
  | nil => rfl
  | cons head _ ih => rw [map_cons,map_cons,imp _ _ head,ih]

theorem forall₂_exists {α : Type} {R : α → α → Prop} {first second : List α} (related : List.Forall₂ R first second) (a : α) (member : a ∈ first) :
    ∃ b ∈ second, R a b := by
  induction related with
  | nil => cases member
  | cons head _ ih =>
    rcases mem_cons.mp member with rfl | member
    · exact ⟨_,mem_cons_self,head⟩
    · obtain ⟨b,inside,holds⟩ := ih member
      exact ⟨b,mem_cons_of_mem _ inside,holds⟩

end

theorem IsGroupTable.of_same {rows table other : IdTable Id} (isTable : IsGroupTable ops columns aggregates rows other)
    (same : List.Forall₂ (SameRow ops columns.length aggregates) table other) : IsGroupTable ops columns aggregates rows table := by
  have keys : table.map (List.take columns.length) = other.map (List.take columns.length) := forall₂_map_eq (fun _ _ => SameRow.take) same
  refine ⟨keys ▸ isTable.sorted,?_,keys ▸ isTable.complete⟩
  intro row member
  obtain ⟨other',member',sameRow⟩ := forall₂_exists same row member
  obtain ⟨source,right⟩ := isTable.same other' member'
  rw [← sameRow.take] at source right
  exact ⟨source,sameRow.trans right⟩

section
omit [LinearOrder κ] [LinearOrder Id] [Inhabited Id]

theorem foldl_append_eq_map
    {α : Type*} {β : Type} (step : List β → α → β) (value : α → β) (list : List α) (same : ∀ previous, ∀ item ∈ list, step previous item = value item) :
    list.foldl (fun previous item => previous ++ [step previous item]) [] = list.map value := by
  have general : ∀ results, list.foldl (fun previous item => previous ++ [step previous item]) results = results ++ list.map value := by
    induction list with
    | nil => simp
    | cons item list ih =>
      intro results
      rw [foldl_cons,ih (fun previous other member => same previous other (mem_cons_of_mem _ member)),same _ item mem_cons_self]
      simp
  exact general []

theorem evaluateAll_map (evaluate : Alias Id → List Id → Id) (aliases : List (Alias Id))
    (independent : ∀ item ∈ aliases, ∀ previous, evaluate item previous = evaluate item []) :
    evaluateAll evaluate aliases = aliases.map (fun item => evaluate item []) :=
  foldl_append_eq_map (fun previous item => evaluate item previous) _ aliases (fun previous item member => independent item member previous)

end

omit [LinearOrder Id] [Inhabited Id] in
theorem toAlias_evaluate (aggregate : Aggregate Id) (rows : IdTable Id) (previous : List Id) :
    (aggregate.toAlias ops).evaluate rows previous = (aggregate.toAlias ops).evaluate rows [] := by
  unfold Aggregate.toAlias
  cases aggregate.function <;> rfl

omit [LinearOrder κ] [LinearOrder Id] [Inhabited Id] in
theorem sameValues_map (aggregates : List (Aggregate Id)) (first second : Aggregate Id → Id)
    (same : ∀ aggregate ∈ aggregates, SameValue ops aggregate (first aggregate) (second aggregate)) :
    SameValues ops aggregates (aggregates.map first) (aggregates.map second) := by
  induction aggregates with
  | nil => exact .nil
  | cons aggregate aggregates ih => exact .cons (same aggregate mem_cons_self) (ih (forall_mem_cons.mp same).2)

omit [LinearOrder Id] in
@[simp] theorem keyOf_length (row : List Id) : (keyOf columns row).length = columns.length := by simp [keyOf]

theorem specRow_same (rows : IdTable Id) (source : List Id) :
    SameRow ops columns.length aggregates (specRow ops columns aggregates rows (keyOf columns source)) (specRow ops columns aggregates rows (keyOf columns source)) := by
  refine ⟨keyOf columns source,_,_,keyOf_length _,rfl,rfl,sameValues_map aggregates _ _ (fun aggregate _ => ?_)⟩
  unfold SameValue
  cases aggregate.function <;> rfl

theorem groupRow_same (rows : IdTable Id) (group : List Id × IdTable Id) (isGroup : IsGroup columns group)
    (all : group.2.Perm (rows.filter (fun row => keyOf columns row = keyOf columns group.1))) :
    SameRow ops columns.length aggregates (groupRow columns (aggregates.map (·.toAlias ops)) group) (specRow ops columns aggregates rows (keyOf columns group.1)) := by
  refine ⟨keyOf columns group.1,_,_,keyOf_length _,rfl,rfl,?_⟩
  rw [evaluateAll_map]
  · rw [map_map]
    exact sameValues_map aggregates _ _ (fun aggregate _ => evaluate_same ops aggregate group.2 _ [] all isGroup.nonempty)
  · intro item member previous
    obtain ⟨aggregate,_,rfl⟩ := List.mem_map.mp member
    exact toAlias_evaluate aggregate group.2 previous

omit [LinearOrder κ] [LinearOrder Id] in
theorem groupRow_take (aliases : List (Alias Id)) (group : List Id × IdTable Id) :
    (groupRow columns aliases group).take columns.length = keyOf columns group.1 := by
  rw [groupRow,take_left']
  exact keyOf_length _

theorem doGroupBy_isGroupTable (grouped : columns ≠ []) (rows sorted : IdTable Id) (perm : sorted.Perm rows)
    (isSorted : sorted.Pairwise (fun row other => keyOf columns row ≤ keyOf columns other)) :
    IsGroupTable ops columns aggregates rows (doGroupBy columns (aggregates.map (·.toAlias ops)) sorted) := by
  have strict := groupKeys_sorted sorted isSorted
  have keys : ((groups columns sorted).map (groupRow columns (aggregates.map (·.toAlias ops)))).map (List.take columns.length) = groupKeys columns sorted := by
    rw [map_map]
    exact map_congr_left (fun group _ => groupRow_take _ group)
  rw [doGroupBy_eq_groups _ _ grouped]
  refine ⟨keys ▸ strict,?_,?_⟩
  · intro row member
    obtain ⟨group,inside,rfl⟩ := List.mem_map.mp member
    have isGroup := groups_isGroup columns sorted group inside
    have all := groups_filter sorted strict.nodup group inside
    rw [groupRow_take]
    obtain ⟨source,sourceMember,sourceKey⟩ := (mem_groupKeys sorted (keyOf columns group.1)).mp (mem_map_of_mem inside)
    refine ⟨⟨source,perm.mem_iff.mp sourceMember,sourceKey⟩,groupRow_same rows group isGroup ?_⟩
    rw [← all]
    exact perm.filter _
  · intro source member
    rw [keys,mem_groupKeys]
    exact ⟨source,perm.mem_iff.mpr member,rfl⟩

end Tables

end Qlever.GroupBy
