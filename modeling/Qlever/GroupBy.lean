import Mathlib

/-! The sort-based and the lazy `GROUP BY` of `GroupByImpl.cpp` and `LazyGroupBy.cpp`. The rows of a table are lists of IDs.
The expressions of the aliases are parameters, evaluated on all rows of a group or from the aggregation data to which the
rows were added one by one.
-/
namespace Qlever.GroupBy
variable {Id : Type}

abbrev IdTable (Id : Type) := List (List Id)

/-- An alias. `evaluate` gets the rows of a group, and `evaluateAlias` the aggregation data and the values of the group. Both
get the results of the previous aliases. -/
structure Alias (Id : Type) where
  Data : Type
  reset : Data
  addValue : Data → List Id → Data
  evaluate : IdTable Id → List Id → Id
  evaluateAlias : Data → List Id → List Id → Id

abbrev GroupBlock (Id : Type) := List (Nat × Id)

def GroupBlock.values (block : GroupBlock Id) : List Id := block.map Prod.snd

inductive Failure
  | alreadyConsumed
  deriving DecidableEq, Repr

/-- A lazy `Result`. -/
structure LazyResult (Id : Type) where
  tables : List (IdTable Id)
  consumed : Bool := false

def LazyResult.idTables (result : LazyResult Id) : Except Failure (List (IdTable Id) × LazyResult Id) :=
  if result.consumed then .error .alreadyConsumed else .ok (result.tables,{result with consumed := true})

/-- The rows `[first, last)` of a table. -/
def IdTable.slice (table : IdTable Id) (first last : Nat) : IdTable Id := (table.drop first).take (last - first)

section Aliases

def evaluateAll (evaluate : Alias Id → List Id → Id) (aliases : List (Alias Id)) : List Id :=
  aliases.foldl (fun previous item => previous ++ [evaluate item previous]) []

end Aliases

variable [DecidableEq Id] [Inhabited Id]

def idAt (row : List Id) (column : Nat) : Id := row.getD column default

def makeGroupBlock (groupByCols : List Nat) (row : List Id) : GroupBlock Id := groupByCols.map (fun column => (column,idAt row column))

def rowMatchesBlock (block : GroupBlock Id) (row : List Id) : Bool := block.all (fun pair => idAt row pair.1 = pair.2)

/-- The loop of `searchBlockBoundaries` over the rows from `pos` on. The callback gets the current group and the bounds of
its block. -/
def searchBlockBoundaries {σ : Type} (onBlockChange : GroupBlock Id → Nat → Nat → σ → σ) :
    IdTable Id → Nat → Nat → GroupBlock Id → σ → Nat × GroupBlock Id × σ
  | [],_,blockStart,block,s => (blockStart,block,s)
  | row::rows,pos,blockStart,block,s =>
    if rowMatchesBlock block row then searchBlockBoundaries onBlockChange rows (pos + 1) blockStart block s
    else searchBlockBoundaries onBlockChange rows (pos + 1) pos (block.map (fun pair => (pair.1,idAt row pair.1)))
      (onBlockChange block blockStart pos s)

/-- The row that `processBlock` appends. -/
def processBlock (groupByCols : List Nat) (aliases : List (Alias Id)) (table : IdTable Id) (blockStart blockEnd : Nat) : List Id :=
  groupByCols.map (idAt (table.getD blockStart [])) ++ evaluateAll (fun item => item.evaluate (table.slice blockStart blockEnd)) aliases

def doGroupBy (groupByCols : List Nat) (aliases : List (Alias Id)) (table : IdTable Id) : IdTable Id :=
  match table with
  | [] => if groupByCols.isEmpty then [processBlock groupByCols aliases [] 0 0] else []
  | first::_ =>
    if groupByCols.isEmpty then [processBlock groupByCols aliases table 0 table.length]
    else
      let (lastBlockStart,_,result) := searchBlockBoundaries
        (fun _ blockStart blockEnd result => result ++ [processBlock groupByCols aliases table blockStart blockEnd]) table 0 0
        (makeGroupBlock groupByCols first) []
      result ++ [processBlock groupByCols aliases table lastBlockStart table.length]

abbrev AggregationData (aliases : List (Alias Id)) := (i : Fin aliases.length) → (aliases.get i).Data

section
omit [DecidableEq Id] [Inhabited Id]

def resetAggregationData (aliases : List (Alias Id)) : AggregationData aliases := fun i => (aliases.get i).reset

/-- `LazyGroupBy::processBlock`. -/
def addBlock {aliases : List (Alias Id)} (rows : IdTable Id) (data : AggregationData aliases) : AggregationData aliases :=
  fun i => rows.foldl (aliases.get i).addValue (data i)

/-- The row that `LazyGroupBy::commitRow` appends. -/
def commitRow {aliases : List (Alias Id)} (data : AggregationData aliases) (block : GroupBlock Id) : List Id :=
  block.values ++ (List.finRange aliases.length).foldl (fun previous i => previous ++ [(aliases.get i).evaluateAlias (data i) block.values previous]) []

end

/-- The state of the loop of `computeResultLazily`. -/
structure LazyState (aliases : List (Alias Id)) where
  data : AggregationData aliases
  resultTable : IdTable Id := []
  groupSplitAcrossTables : Bool := false
  currentGroupBlock : GroupBlock Id := []
  yielded : List (IdTable Id) := []

variable (groupByCols : List Nat) (aliases : List (Alias Id))

def onBlockChange (table : IdTable Id) (block : GroupBlock Id) (blockStart blockEnd : Nat) (s : LazyState aliases) : LazyState aliases :=
  if s.groupSplitAcrossTables then
    {s with resultTable := s.resultTable ++ [commitRow (addBlock (table.slice blockStart blockEnd) s.data) block]
            data := resetAggregationData aliases
            groupSplitAcrossTables := false}
  else {s with resultTable := s.resultTable ++ [processBlock groupByCols aliases table blockStart blockEnd]}

def processTable (singleIdTable : Bool) (s : LazyState aliases) (table : IdTable Id) : LazyState aliases :=
  match table with
  | [] => s
  | first::_ =>
    let block := if s.currentGroupBlock.isEmpty then makeGroupBlock groupByCols first else s.currentGroupBlock
    let (lastBlockStart,currentGroupBlock,s) := searchBlockBoundaries (onBlockChange groupByCols aliases table) table 0 0 block s
    let s := {s with currentGroupBlock,groupSplitAcrossTables := true,data := addBlock (table.slice lastBlockStart table.length) s.data}
    if !singleIdTable && !s.resultTable.isEmpty then {s with yielded := s.yielded ++ [s.resultTable],resultTable := []} else s

def processEmptyImplicitGroup : List Id := evaluateAll (fun item => item.evaluate []) aliases

/-- The loop of `computeResultLazily` over the tables, and what follows it: the tables that are yielded. -/
def consumeTables (singleIdTable : Bool) (tables : List (IdTable Id)) : List (IdTable Id) :=
  let s := tables.foldl (processTable groupByCols aliases singleIdTable) {data := resetAggregationData aliases}
  if !s.groupSplitAcrossTables then
    if groupByCols.isEmpty then s.yielded ++ [s.resultTable ++ [processEmptyImplicitGroup aliases]]
    else if singleIdTable then s.yielded ++ [s.resultTable]
    else s.yielded
  else s.yielded ++ [s.resultTable ++ [commitRow s.data s.currentGroupBlock]]

/-- The tables that are yielded, or the check that fails. The tables of the subresult are requested twice. -/
def computeResultLazily (singleIdTable : Bool) (subresult : LazyResult Id) : Except Failure (List (IdTable Id)) := do
  let (tables,subresult) ← subresult.idTables
  if tables.isEmpty then
    if groupByCols.isEmpty then return [[processEmptyImplicitGroup aliases]] else return []
  else
    let (tables,_) ← subresult.idTables
    return consumeTables groupByCols aliases singleIdTable tables

/-! ### Groups of adjacent rows -/

def keyOf (row : List Id) : List Id := groupByCols.map (idAt row)

/-- Cuts rows into groups of adjacent rows with equal keys. `first` and `opened` are a representative and the rows of the group
that is still open. The result has the closed groups and the open one. -/
def cut : List Id → IdTable Id → IdTable Id → List (List Id × IdTable Id) × List Id × IdTable Id
  | first,opened,[] => ([],first,opened)
  | first,opened,row::rows =>
    if keyOf groupByCols row = keyOf groupByCols first then cut first (opened ++ [row]) rows
    else ((first,opened)::(cut row [row] rows).1,(cut row [row] rows).2)

def groupRow (group : List Id × IdTable Id) : List Id :=
  keyOf groupByCols group.1 ++ evaluateAll (fun item => item.evaluate group.2) aliases

variable (first : List Id)

omit [DecidableEq Id] in
theorem makeGroupBlock_update (row : List Id) :
    (makeGroupBlock groupByCols first).map (fun pair => (pair.1,idAt row pair.1)) = makeGroupBlock groupByCols row := by
  simp [makeGroupBlock]

theorem rowMatchesBlock_iff (row : List Id) :
    rowMatchesBlock (makeGroupBlock groupByCols first) row = true ↔ keyOf groupByCols row = keyOf groupByCols first := by
  simp [rowMatchesBlock,makeGroupBlock,keyOf]

variable {groupByCols}

structure IsGroup (groupByCols : List Nat) (group : List Id × IdTable Id) : Prop where
  nonempty : group.2 ≠ []
  sameKey : ∀ row ∈ group.2, keyOf groupByCols row = keyOf groupByCols group.1

omit [DecidableEq Id] in
theorem isGroup_singleton (groupByCols : List Nat) (row : List Id) : IsGroup groupByCols (row,[row]) := ⟨by simp,by simp⟩

theorem cut_isGroup (opened rows : IdTable Id) (isGroup : IsGroup groupByCols (first,opened)) :
    (∀ group ∈ (cut groupByCols first opened rows).1, IsGroup groupByCols group) ∧ IsGroup groupByCols (cut groupByCols first opened rows).2 := by
  fun_induction cut groupByCols first opened rows with
  | case1 first opened => exact ⟨by simp,isGroup⟩
  | case2 first opened row rows same ih =>
    refine ih ⟨by simp,fun other member => ?_⟩
    rcases List.mem_append.mp member with old | new
    · exact isGroup.sameKey other old
    · rw [List.mem_singleton.mp new]; exact same
  | case3 first opened row rows differs ih =>
    obtain ⟨closed,last⟩ := ih (isGroup_singleton groupByCols row)
    refine ⟨fun group member => ?_,last⟩
    rcases List.mem_cons.mp member with rfl | member
    · exact isGroup
    · exact closed group member

/-- The rule for the loop of `searchBlockBoundaries`. `J closed first carry blockStart s` is what holds of the state `s` of the
callback when the groups `closed` are finished and the open group consists of `carry` and the rows from `blockStart` on. -/
theorem searchBlockBoundaries_rule {σ : Type} (groupByCols : List Nat) (f : GroupBlock Id → Nat → Nat → σ → σ) (table : IdTable Id)
    (J : List (List Id × IdTable Id) → List Id → IdTable Id → Nat → σ → Prop)
    (change : ∀ closed first carry blockStart pos row s, blockStart ≤ pos → table[pos]? = some row → J closed first carry blockStart s →
      J (closed ++ [(first,carry ++ table.slice blockStart pos)]) row [] pos (f (makeGroupBlock groupByCols first) blockStart pos s))
    (done rows : IdTable Id) (whole : table = done ++ rows) (closed : List (List Id × IdTable Id)) (first : List Id) (carry : IdTable Id)
    (blockStart : Nat) (s : σ) (le : blockStart ≤ done.length) (holds : J closed first carry blockStart s) :
    let out := searchBlockBoundaries f rows done.length blockStart (makeGroupBlock groupByCols first) s
    let groups := cut groupByCols first (carry ++ table.slice blockStart done.length) rows
    ∃ carry', out.2.1 = makeGroupBlock groupByCols groups.2.1 ∧ groups.2.2 = carry' ++ table.slice out.1 table.length ∧
      J (closed ++ groups.1) groups.2.1 carry' out.1 out.2.2 := by
  induction rows generalizing done closed first carry blockStart s with
  | nil =>
    refine ⟨carry,rfl,?_,by simpa [searchBlockBoundaries,cut] using holds⟩
    simp [searchBlockBoundaries,cut,whole]
  | cons row rows ih =>
    have atPos : table[done.length]? = some row := by simp [whole]
    have whole' : table = (done ++ [row]) ++ rows := by simp [whole]
    have length' : (done ++ [row]).length = done.length + 1 := by simp
    have slice' : ∀ start ≤ done.length, table.slice start (done.length + 1) = table.slice start done.length ++ [row] := by
      intro start bound
      have more : done.length + 1 - start = (done.length - start) + 1 := by omega
      have here : (table.drop start)[done.length - start]? = some row := by
        rw [List.getElem?_drop]
        rwa [Nat.add_sub_cancel' bound]
      rw [IdTable.slice,IdTable.slice,more,List.take_add_one,here]
      rfl
    by_cases same : keyOf groupByCols row = keyOf groupByCols first
    · have matched := (rowMatchesBlock_iff groupByCols first row).mpr same
      have rest := ih (done ++ [row]) whole' closed first carry blockStart s (by omega) holds
      rw [length',slice' blockStart le,← List.append_assoc] at rest
      simpa only [searchBlockBoundaries,cut,matched,same,if_true] using rest
    · have unmatched : ¬ rowMatchesBlock (makeGroupBlock groupByCols first) row = true :=
        fun matched => same ((rowMatchesBlock_iff groupByCols first row).mp matched)
      have step := change closed first carry blockStart done.length row s le atPos holds
      have rest := ih (done ++ [row]) whole' _ row [] done.length _ (by omega) step
      rw [length',slice' done.length (Nat.le_refl _)] at rest
      have empty : table.slice done.length done.length = [] := by simp [IdTable.slice]
      rw [empty] at rest
      simpa only [searchBlockBoundaries,cut,unmatched,same,if_false,makeGroupBlock_update,List.nil_append,List.append_assoc,
        List.cons_append,Bool.false_eq_true] using rest

def groupedRows (groupByCols : List Nat) (aliases : List (Alias Id)) : IdTable Id → IdTable Id
  | [] => if groupByCols.isEmpty then [processEmptyImplicitGroup aliases] else []
  | first::rest =>
    (cut groupByCols first [first] rest).1.map (groupRow groupByCols aliases) ++ [groupRow groupByCols aliases (cut groupByCols first [first] rest).2]

theorem cut_first (rest : IdTable Id) : cut groupByCols first [] (first::rest) = cut groupByCols first [first] rest := by
  simp [cut]

omit [DecidableEq Id] in
theorem processBlock_eq_groupRow (table : IdTable Id) (first : List Id) (blockStart blockEnd : Nat)
    (sameKey : keyOf groupByCols (table.getD blockStart []) = keyOf groupByCols first) :
    processBlock groupByCols aliases table blockStart blockEnd = groupRow groupByCols aliases (first,table.slice blockStart blockEnd) := by
  rw [groupRow,← sameKey]
  rfl

theorem cut_noColumns (opened rows : IdTable Id) : cut [] first opened rows = ([],first,opened ++ rows) := by
  induction rows generalizing opened with
  | nil => simp [cut]
  | cons row rows ih => simp [cut,keyOf,ih]

theorem doGroupBy_eq_groupedRows (table : IdTable Id) : doGroupBy groupByCols aliases table = groupedRows groupByCols aliases table := by
  cases table with
  | nil => cases groupByCols <;> simp [doGroupBy,groupedRows,processBlock,processEmptyImplicitGroup,IdTable.slice]
  | cons first rest =>
    by_cases implicit : groupByCols.isEmpty
    · obtain rfl := List.isEmpty_iff.mp implicit
      simp [doGroupBy,groupedRows,cut_noColumns,processBlock,groupRow,keyOf,IdTable.slice]
    · let table : IdTable Id := first::rest
      obtain ⟨carry,-,last,emitted,noCarry,lastKey⟩ := searchBlockBoundaries_rule groupByCols
        (fun _ blockStart blockEnd result => result ++ [processBlock groupByCols aliases table blockStart blockEnd]) table
        (fun closed first carry blockStart result => result = closed.map (groupRow groupByCols aliases) ∧ carry = [] ∧
          keyOf groupByCols (table.getD blockStart []) = keyOf groupByCols first)
        (by
          rintro closed first carry blockStart pos row result le atPos ⟨emitted,rfl,sameKey⟩
          refine ⟨?_,rfl,?_⟩
          · simp [emitted,processBlock_eq_groupRow aliases table first blockStart pos sameKey]
          · simp [List.getD_eq_getElem?_getD,atPos])
        [] table rfl [] first [] 0 [] (Nat.le_refl _) ⟨rfl,rfl,by simp [table]⟩
      have empty : table.slice 0 0 = [] := by simp [IdTable.slice]
      have groups : cut groupByCols first [] table = cut groupByCols first [first] rest := cut_first first rest
      simp only [List.length_nil,empty,List.append_nil,groups] at last emitted lastKey
      subst noCarry
      simp only [doGroupBy,implicit,groupedRows,Bool.false_eq_true,if_false]
      rw [emitted,processBlock_eq_groupRow aliases table _ _ _ lastKey]
      simp only [List.nil_append] at last ⊢
      rw [← last]

/-! ### The loop over the tables -/

variable {aliases}

/-- The result of the lazy `GROUP BY` for `tables`: the check on the subresult does not fail, the tables that are yielded have
the rows of the sort-based `GROUP BY`, and with `singleIdTable` there is exactly one of them. -/
def LazyCorrect (groupByCols : List Nat) (aliases : List (Alias Id)) (singleIdTable : Bool) (tables : List (IdTable Id)) : Prop :=
  ∃ out, computeResultLazily groupByCols aliases singleIdTable {tables} = .ok out ∧ out.flatten = doGroupBy groupByCols aliases tables.flatten ∧
    (singleIdTable = true → out.length = 1)

section
variable (groupByCols : List Nat) (aliases : List (Alias Id)) (singleIdTable : Bool)

theorem computeResultLazily_fails (table : IdTable Id)
    (tables : List (IdTable Id)) : computeResultLazily groupByCols aliases singleIdTable {tables := table::tables} = .error .alreadyConsumed := rfl

theorem lazyCorrect_iff (tables : List (IdTable Id)) :
    LazyCorrect groupByCols aliases singleIdTable tables ↔ tables = [] ∧ (groupByCols = [] ∨ singleIdTable = false) := by
  cases tables with
  | cons table tables =>
    refine ⟨fun ⟨out,ok,_⟩ => ?_,fun ⟨empty,_⟩ => absurd empty (by simp)⟩
    rw [computeResultLazily_fails] at ok
    cases ok
  | nil =>
    cases groupByCols with
    | nil =>
      refine ⟨fun _ => ⟨rfl,.inl rfl⟩,fun _ => ⟨_,rfl,?_,fun _ => rfl⟩⟩
      simp [doGroupBy_eq_groupedRows,groupedRows]
    | cons column columns =>
      constructor
      · rintro ⟨out,ok,_,single⟩
        obtain rfl : [] = out := Except.ok.inj ok
        cases singleIdTable with
        | false => exact ⟨rfl,.inr rfl⟩
        | true => exact absurd (single rfl) (by simp)
      · rintro ⟨_,noColumns | notSingle⟩
        · cases noColumns
        · exact ⟨[],rfl,rfl,fun single => absurd (notSingle.symm.trans single) (by simp)⟩

end

/-- One row in one table, grouped by its column. -/
theorem lazyCorrect_fails : ¬ LazyCorrect [0] ([] : List (Alias Nat)) false [[[1]]] := by
  rintro ⟨out,ok,_⟩
  cases ok

end Qlever.GroupBy
