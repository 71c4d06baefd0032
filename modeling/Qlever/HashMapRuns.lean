import Qlever.GroupTables

/-! The hash map holds the aggregation data of all rows that were added, so the table that is created from it is the table of
their groups.
-/
namespace Qlever.GroupBy
open List
variable {Id : Type} [LinearOrder Id] [Inhabited Id]

namespace HashMapAggregationData

section Emplace
omit [Inhabited Id]

def insertKey (keys : List (List Id)) (key : List Id) : List (List Id) := if key ∈ keys then keys else keys ++ [key]

variable (keys : List (List Id))

theorem lookup_zipIdx (key : List Id) (start : Nat) :
    (keys.zipIdx start).lookup key = if key ∈ keys then some (start + keys.idxOf key) else none := by
  induction keys generalizing start with
  | nil => simp
  | cons head keys ih =>
    rw [zipIdx_cons,lookup_cons]
    by_cases same : key = head
    · simp [same]
    · have differs : (key == head) = false := by simpa using same
      have index : (head::keys).idxOf key = keys.idxOf key + 1 := idxOf_cons_ne _ (Ne.symm same)
      rw [differs,ih,index]
      simp only [mem_cons,same,false_or]
      congr 2
      omega

theorem tryEmplace_zipIdx (key : List Id) :
    tryEmplace keys.zipIdx key = ((insertKey keys key).zipIdx,(insertKey keys key).idxOf key) := by
  unfold tryEmplace insertKey
  rw [lookup_zipIdx]
  by_cases member : key ∈ keys
  · simp [member]
  · simp [member,zipIdx_append,idxOf_append]

theorem prefix_insertKeys (more keys : List (List Id)) : keys <+: more.foldl insertKey keys := by
  induction more generalizing keys with
  | nil => exact prefix_rfl
  | cons key more ih =>
    refine List.IsPrefix.trans ?_ (ih _)
    unfold insertKey
    split
    · exact prefix_rfl
    · exact prefix_append _ _

theorem mem_insertKey (key other : List Id) : other ∈ insertKey keys key ↔ other ∈ keys ∨ other = key := by
  unfold insertKey
  split
  · constructor
    · exact .inl
    · rintro (member | rfl)
      · exact member
      · assumption
  · simp

section
variable (more keys : List (List Id))

theorem mem_insertKeys (other : List Id) : other ∈ more.foldl insertKey keys ↔ other ∈ keys ∨ other ∈ more := by
  induction more generalizing keys with
  | nil => simp
  | cons key more ih => rw [foldl_cons,ih,mem_insertKey,mem_cons,or_assoc]

theorem nodup_insertKeys (nodup : keys.Nodup) : (more.foldl insertKey keys).Nodup := by
  induction more generalizing keys with
  | nil => exact nodup
  | cons key more ih =>
    refine ih _ ?_
    unfold insertKey
    split
    · exact nodup
    · simpa [nodup_append,nodup] using fun other member => fun same => by rw [same] at member; exact absurd member (by assumption)

theorem emplaceAll_zipIdx :
    emplaceAll more keys.zipIdx = ((more.foldl insertKey keys).zipIdx,more.map (fun key => (more.foldl insertKey keys).idxOf key)) := by
  induction more generalizing keys with
  | nil => rfl
  | cons key more ih =>
    rw [emplaceAll,tryEmplace_zipIdx,ih,foldl_cons,map_cons]
    obtain ⟨rest,appended⟩ := prefix_insertKeys more (insertKey keys key)
    have member : key ∈ insertKey keys key := (mem_insertKey keys key key).mpr (.inr rfl)
    have stable : (more.foldl insertKey (insertKey keys key)).idxOf key = (insertKey keys key).idxOf key := by
      rw [← appended,idxOf_append_of_mem member]
    simp only [stable]

end

end Emplace

variable {aliases : List (Alias Id)} {columns : List Nat}

def keyData (columns : List Nat) (item : Alias Id) (rows : IdTable Id) (key : List Id) : item.Data :=
  (rows.filter (fun row => keyOf columns row = key)).foldl item.addValue item.reset

/-- The hash map holds the data of `rows`. -/
structure Holds (columns : List Nat) (rows : IdTable Id) (data : HashMapAggregationData aliases) (keys : List (List Id)) : Prop where
  indexed : data.map = keys.zipIdx
  nodup : keys.Nodup
  mem : ∀ key, key ∈ keys ↔ ∃ row ∈ rows, keyOf columns row = key
  vectors : ∀ i, data.vectors i = keys.map (keyData columns (aliases.get i) rows)

section
variable (item : Alias Id) (rows : IdTable Id) (row : List Id)

theorem keyData_append (key : List Id) :
    keyData columns item (rows ++ [row]) key = if keyOf columns row = key then item.addValue (keyData columns item rows key) row else keyData columns item rows key := by
  unfold keyData
  rw [filter_append]
  by_cases same : keyOf columns row = key <;> simp [same]

theorem modify_keyData (keys : List (List Id)) (nodup : keys.Nodup) :
    (keys.map (keyData columns item rows)).modify (keys.idxOf (keyOf columns row)) (fun old => item.addValue old row) =
      keys.map (keyData columns item (rows ++ [row])) := by
  apply ext_getElem
  · simp
  · intro i bound bound'
    have inside : i < keys.length := by simpa using bound'
    rw [getElem_modify,getElem_map,getElem_map,keyData_append]
    have index : keys.idxOf (keyOf columns row) = i ↔ keyOf columns row = keys[i] := by
      constructor
      · rintro rfl
        exact (getElem_idxOf inside).symm
      · intro same
        rw [same]
        exact nodup.idxOf_getElem i inside
    simp only [index]

end

theorem foldl_modify_keyData (item : Alias Id) (keys : List (List Id)) (nodup : keys.Nodup) (more rows : IdTable Id) :
    (more.zip (more.map (fun row => keys.idxOf (keyOf columns row)))).foldl
      (fun vector pair => vector.modify pair.2 (fun old => item.addValue old pair.1)) (keys.map (keyData columns item rows)) =
      keys.map (keyData columns item (rows ++ more)) := by
  induction more generalizing rows with
  | nil => simp
  | cons row more ih =>
    rw [map_cons,zip_cons_cons,foldl_cons,modify_keyData item rows row keys nodup,ih (rows ++ [row])]
    simp

theorem resize_keyData (item : Alias Id) (rows : IdTable Id) (keys keys' : List (List Id)) (known : ∀ row ∈ rows, keyOf columns row ∈ keys)
    (nodup : keys'.Nodup) (extends_ : keys <+: keys') :
    resize (keys.map (keyData columns item rows)) keys'.length item.reset = keys'.map (keyData columns item rows) := by
  obtain ⟨new,rfl⟩ := extends_
  have fresh : new.map (keyData columns item rows) = replicate new.length item.reset := by
    rw [map_eq_replicate_iff]
    intro key member
    have none : rows.filter (fun row => keyOf columns row = key) = [] := by
      rw [filter_eq_nil_iff]
      intro row inside
      simp only [decide_eq_true_eq]
      intro same
      exact disjoint_of_nodup_append nodup (same ▸ known row inside) member
    rw [keyData,none,foldl_nil]
  rw [resize,map_append,fresh]
  simp

theorem holds_empty : Holds columns [] (empty aliases) [] := ⟨rfl,nodup_nil,by simp,fun _ => rfl⟩

theorem addRows_holds (rows more : IdTable Id) (data : HashMapAggregationData aliases) (keys : List (List Id)) (holds : Holds columns rows data keys) :
    Holds columns (rows ++ more) (data.addRows columns more) ((more.map (keyOf columns)).foldl insertKey keys) := by
  have nodup := nodup_insertKeys (more.map (keyOf columns)) keys holds.nodup
  have entries := emplaceAll_zipIdx (more.map (keyOf columns)) keys
  refine ⟨?_,nodup,?_,?_⟩
  · simp only [addRows,getHashEntries,holds.indexed,entries]
  · intro key
    rw [mem_insertKeys,holds.mem]
    simp only [List.mem_map,mem_append]
    constructor
    · rintro (⟨row,member,same⟩ | ⟨row,member,same⟩)
      · exact ⟨row,.inl member,same⟩
      · exact ⟨row,.inr member,same⟩
    · rintro ⟨row,member | member,same⟩
      · exact .inl ⟨row,member,same⟩
      · exact .inr ⟨row,member,same⟩
  · intro i
    simp only [addRows,getHashEntries,holds.indexed,entries,holds.vectors,length_zipIdx]
    rw [resize_keyData (aliases.get i) rows keys _ (fun row member => (holds.mem _).mpr ⟨row,member,rfl⟩) nodup (prefix_insertKeys _ _),map_map]
    exact foldl_modify_keyData (aliases.get i) _ nodup more rows

omit [LinearOrder Id] [Inhabited Id] in
theorem blockParts_flatten (size fuel : Nat) (rows : IdTable Id) (positive : 0 < size) (enough : rows.length ≤ fuel) :
    (blockParts size fuel rows).flatten = rows := by
  induction fuel generalizing rows with
  | zero =>
    have empty : rows = [] := length_eq_zero_iff.mp (by omega)
    simp [blockParts,empty]
  | succ fuel ih =>
    rw [blockParts]
    split
    · rename_i empty
      simp [List.isEmpty_iff.mp empty]
    · have rest := ih (rows.drop size) (by rw [length_drop]; omega)
      rw [flatten_cons,rest,take_append_drop]

theorem foldl_addRows_holds (parts : List (IdTable Id)) (rows : IdTable Id) (data : HashMapAggregationData aliases)
    (holds : ∃ keys, Holds columns rows data keys) :
    ∃ keys, Holds columns (rows ++ parts.flatten) (parts.foldl (fun data rows => data.addRows columns rows) data) keys := by
  induction parts generalizing rows data with
  | nil => simpa using holds
  | cons part parts ih =>
    obtain ⟨keys,holds⟩ := holds
    have next := ih (rows ++ part) _ ⟨_,addRows_holds rows part data keys holds⟩
    simpa [append_assoc] using next

theorem addTable_holds (table rows : IdTable Id) (data : HashMapAggregationData aliases) (holds : ∃ keys, Holds columns rows data keys) :
    ∃ keys, Holds columns (rows ++ table) (addTable columns table data) keys := by
  have parts := foldl_addRows_holds (blockParts groupByHashMapBlockSize table.length table) rows data holds
  rwa [blockParts_flatten groupByHashMapBlockSize table.length table (by decide) (Nat.le_refl _)] at parts

def numberOfKeys (columns : List Nat) (rows : IdTable Id) : Nat := (rows.map (keyOf columns)).dedup.length

theorem Holds.getNumberOfGroups_eq {rows : IdTable Id} {data : HashMapAggregationData aliases} {keys : List (List Id)} (holds : Holds columns rows data keys) :
    data.getNumberOfGroups = numberOfKeys columns rows := by
  rw [getNumberOfGroups,holds.indexed,length_zipIdx,numberOfKeys]
  apply List.Perm.length_eq
  rw [perm_ext_iff_of_nodup holds.nodup (nodup_dedup _)]
  intro key
  rw [holds.mem,mem_dedup,List.mem_map]

end HashMapAggregationData

open HashMapAggregationData
variable {columns : List Nat}

/-- The rows that are added to the hash map, and the blocks that remain when it has more than `groupThreshold` groups. -/
def switchPoint (columns : List Nat) (groupThreshold : Nat) : List (IdTable Id) → IdTable Id → IdTable Id × Option (List (IdTable Id))
  | [],rows => (rows,none)
  | block::blocks,rows =>
    if groupThreshold < numberOfKeys columns (rows ++ block) then (rows ++ block,some blocks) else switchPoint columns groupThreshold blocks (rows ++ block)

theorem addBlocks_holds {aliases : List (Alias Id)} (groupThreshold : Nat) (blocks : List (IdTable Id)) (rows : IdTable Id)
    (data : HashMapAggregationData aliases) (holds : ∃ keys, Holds columns rows data keys) :
    (∃ keys, Holds columns (switchPoint columns groupThreshold blocks rows).1 (addBlocks columns groupThreshold false blocks data).1 keys) ∧
      (addBlocks columns groupThreshold false blocks data).2 = (switchPoint columns groupThreshold blocks rows).2 := by
  induction blocks generalizing rows data with
  | nil => exact ⟨holds,rfl⟩
  | cons block blocks ih =>
    have added := addTable_holds block rows data holds
    obtain ⟨keys,holds'⟩ := added
    have number := holds'.getNumberOfGroups_eq
    simp only [addBlocks,switchPoint,Bool.not_false,Bool.true_and,number,decide_eq_true_eq]
    split
    · exact ⟨⟨keys,holds'⟩,rfl⟩
    · exact ih _ _ ⟨keys,holds'⟩

theorem addBlocks_single (columns : List Nat) (aliases : List (Alias Id)) (groupThreshold : Nat) (table : IdTable Id) :
    (∃ keys, Holds columns table (addBlocks columns groupThreshold true [table] (empty aliases)).1 keys) ∧
      (addBlocks columns groupThreshold true [table] (empty aliases)).2 = none := by
  have start : ∃ keys, Holds columns [] (empty aliases) keys := ⟨[],holds_empty⟩
  have added := addTable_holds table [] (empty aliases) start
  rw [nil_append] at added
  simpa [addBlocks] using added

variable {κ : Type} [LinearOrder κ] {ops : IdOperations Id κ} {aggregates : List (Aggregate Id)}

omit [LinearOrder Id] [Inhabited Id] in
theorem toAlias_evaluateAlias (item : Alias Id) (member : item ∈ aggregates.map (·.toAlias ops)) (data : item.Data) (key previous : List Id) :
    item.evaluateAlias data key previous = item.evaluateAlias data [] [] := by
  obtain ⟨aggregate,_,rfl⟩ := List.mem_map.mp member
  revert data
  unfold Aggregate.toAlias
  cases aggregate.function <;> exact fun _ => rfl

section
variable (rows : IdTable Id) (data : HashMapAggregationData (aggregates.map (·.toAlias ops)))

theorem createResult_eq_specRows (keys : List (List Id))
    (holds : Holds columns rows data keys) :
    createResultFromHashMap data = (keys.insertionSort (· ≤ ·)).map (specRow ops columns aggregates rows) := by
  have mapKeys : data.map.map Prod.fst = keys := by rw [holds.indexed,zipIdx_map_fst]
  rw [createResultFromHashMap,mapKeys]
  refine map_congr_left (fun key member => ?_)
  have inside : key ∈ keys := (mem_insertionSort _).mp member
  have index : (data.map.lookup key).getD 0 = keys.idxOf key := by
    rw [holds.indexed,lookup_zipIdx,if_pos inside,Nat.zero_add,Option.getD_some]
  let aliases := aggregates.map (fun aggregate : Aggregate Id => aggregate.toAlias ops)
  have results := foldl_append_eq_map (getHashMapAggregationResult data key)
    (fun i => (aliases.get i).evaluateAlias (keyData columns (aliases.get i) rows key) [] []) (finRange aliases.length) (by
      intro previous i _
      have entry : (data.vectors i).getD (keys.idxOf key) (aliases.get i).reset = keyData columns (aliases.get i) rows key := by
        rw [holds.vectors i,getD_eq_getElem?_getD,getElem?_map,getElem?_idxOf inside]
        rfl
      rw [getHashMapAggregationResult,index,entry]
      exact toAlias_evaluateAlias _ (get_mem _ i) _ key previous)
  have values := congrArg (List.map (fun item : Alias Id => item.evaluateAlias (keyData columns item rows key) [] [])) (map_get_finRange aliases)
  rw [map_map,map_map] at values
  rw [results,specRow]
  exact congrArg (key ++ ·) values

theorem createResult_isGroupTable (holds : ∃ keys, Holds columns rows data keys) : IsGroupTable ops columns aggregates rows (createResultFromHashMap data) := by
  obtain ⟨keys,holds⟩ := holds
  have sortedKeys : (keys.insertionSort (· ≤ ·)).Pairwise (· < ·) := by
    have nodup := (perm_insertionSort (· ≤ ·) keys).nodup_iff.mpr holds.nodup
    exact (pairwise_insertionSort (· ≤ ·) keys).imp₂ (fun _ _ => lt_of_le_of_ne) nodup
  have fromRows : ∀ key ∈ keys.insertionSort (· ≤ ·), ∃ source ∈ rows, keyOf columns source = key := fun key member =>
    (holds.mem key).mp ((mem_insertionSort _).mp member)
  have rowKey : ∀ key ∈ keys.insertionSort (· ≤ ·), (specRow ops columns aggregates rows key).take columns.length = key := by
    intro key member
    obtain ⟨source,_,rfl⟩ := fromRows key member
    rw [specRow,take_left' (keyOf_length source)]
  have tableKeys : (createResultFromHashMap data).map (List.take columns.length) = keys.insertionSort (· ≤ ·) := by
    rw [createResult_eq_specRows rows data keys holds,map_map]
    conv_rhs => rw [← map_id (keys.insertionSort (· ≤ ·))]
    exact map_congr_left rowKey
  refine ⟨tableKeys ▸ sortedKeys,?_,?_⟩
  · intro row member
    rw [createResult_eq_specRows rows data keys holds] at member
    obtain ⟨key,inside,rfl⟩ := List.mem_map.mp member
    rw [rowKey key inside]
    obtain ⟨source,sourceMember,rfl⟩ := fromRows key inside
    exact ⟨⟨source,sourceMember,rfl⟩,specRow_same rows source⟩
  · intro source member
    rw [tableKeys,mem_insertionSort,holds.mem]
    exact ⟨source,member,rfl⟩

end

end Qlever.GroupBy
