import Mathlib

/-! A sorted list of rows, merged with a sorted list of insertions and deletions. Rows and updates are compared by
their keys. Where rows or updates share a key, each deletion takes one row away.
-/
namespace Qlever.Library
open List
variable {ρ υ κ : Type} [LinearOrder κ] (key : ρ → κ) (updateKey : υ → κ) (isInsert : υ → Bool) (toRow : υ → ρ)

def applyUpdates : List ρ → List υ → List ρ
  | [],updates => (updates.filter isInsert).map toRow
  | row::rows,[] => row::rows
  | row::rows,update::updates =>
    if updateKey update < key row then
      if isInsert update then toRow update::applyUpdates (row::rows) updates else applyUpdates (row::rows) updates
    else if updateKey update = key row then
      if isInsert update then applyUpdates (row::rows) updates else applyUpdates rows updates
    else row::applyUpdates rows (update::updates)
termination_by rows updates => rows.length + updates.length

variable {key updateKey isInsert toRow} {rows : List ρ} {updates : List υ}

theorem applyUpdates_nil : applyUpdates key updateKey isInsert toRow rows [] = rows := by
  cases rows with
  | nil => simp [applyUpdates]
  | cons row rows => rw [applyUpdates]

theorem mem_of_applyUpdates {result : ρ} (member : result ∈ applyUpdates key updateKey isInsert toRow rows updates) :
    result ∈ rows ∨ ∃ update ∈ updates,isInsert update = true ∧ toRow update = result := by
  fun_induction applyUpdates key updateKey isInsert toRow rows updates with
  | case1 updates =>
    obtain ⟨update,isUpdate,same⟩ := List.mem_map.mp member
    exact Or.inr ⟨update,(mem_filter.mp isUpdate).1,(mem_filter.mp isUpdate).2,same⟩
  | case2 row rows => exact Or.inl member
  | case3 row rows update updates less inserted ih =>
    rcases mem_cons.mp member with same | later
    · exact Or.inr ⟨update,mem_cons_self,inserted,same.symm⟩
    · exact (ih later).imp id (fun ⟨u,isUpdate,rest⟩ => ⟨u,mem_cons_of_mem _ isUpdate,rest⟩)
  | case4 row rows update updates less deleted ih | case5 row rows update updates notLess equal inserted ih =>
    exact (ih member).imp id (fun ⟨u,isUpdate,rest⟩ => ⟨u,mem_cons_of_mem _ isUpdate,rest⟩)
  | case6 row rows update updates notLess equal deleted ih =>
    exact (ih member).imp (mem_cons_of_mem _) (fun ⟨u,isUpdate,rest⟩ => ⟨u,mem_cons_of_mem _ isUpdate,rest⟩)
  | case7 row rows update updates notLess different ih =>
    rcases mem_cons.mp member with same | later
    · exact Or.inl (same ▸ mem_cons_self)
    · exact (ih later).imp (mem_cons_of_mem _) id

theorem length_applyUpdates_le : (applyUpdates key updateKey isInsert toRow rows updates).length ≤ rows.length + updates.length := by
  fun_induction applyUpdates key updateKey isInsert toRow rows updates with
  | case1 updates =>
    rw [length_map]
    exact (length_filter_le isInsert updates).trans (Nat.le_add_left _ _)
  | case2 row rows => exact Nat.le_add_right _ _
  | case3 row rows update updates less inserted ih | case4 row rows update updates less deleted ih
  | case5 row rows update updates notLess equal inserted ih | case6 row rows update updates notLess equal deleted ih
  | case7 row rows update updates notLess different ih => simp only [length_cons] at ih ⊢; omega

theorem applyUpdates_map {ρ' κ' : Type} [LinearOrder κ'] {key' : ρ' → κ'} {updateKey' : υ → κ'} {toRow' : υ → ρ'} (f : ρ → ρ')
    (less : ∀ update ∈ updates,∀ row ∈ rows,updateKey' update < key' (f row) ↔ updateKey update < key row)
    (equal : ∀ update ∈ updates,∀ row ∈ rows,updateKey' update = key' (f row) ↔ updateKey update = key row)
    (written : ∀ update ∈ updates,toRow' update = f (toRow update)) :
    applyUpdates key' updateKey' isInsert toRow' (rows.map f) updates = (applyUpdates key updateKey isInsert toRow rows updates).map f := by
  fun_induction applyUpdates key updateKey isInsert toRow rows updates with
  | case1 updates =>
    rw [map_nil,applyUpdates,map_map]
    exact map_congr_left (fun update member => written update (mem_filter.mp member).1)
  | case2 row rows => rw [applyUpdates_nil]
  | case3 row rows update updates isLess inserted ih =>
    have ih := ih (forall_mem_cons.mp less).2 (forall_mem_cons.mp equal).2
      (forall_mem_cons.mp written).2
    rw [map_cons] at ih ⊢
    rw [applyUpdates,if_pos ((less update mem_cons_self row mem_cons_self).mpr isLess),if_pos inserted,ih,
      written update mem_cons_self,map_cons]
  | case4 row rows update updates isLess deleted ih =>
    have ih := ih (forall_mem_cons.mp less).2 (forall_mem_cons.mp equal).2
      (forall_mem_cons.mp written).2
    rw [map_cons] at ih ⊢
    rw [applyUpdates,if_pos ((less update mem_cons_self row mem_cons_self).mpr isLess),if_neg deleted,ih]
  | case5 row rows update updates notLess isEqual inserted ih =>
    have ih := ih (forall_mem_cons.mp less).2 (forall_mem_cons.mp equal).2
      (forall_mem_cons.mp written).2
    rw [map_cons] at ih ⊢
    rw [applyUpdates,if_neg (mt (less update mem_cons_self row mem_cons_self).mp notLess),
      if_pos ((equal update mem_cons_self row mem_cons_self).mpr isEqual),if_pos inserted,ih]
  | case6 row rows update updates notLess isEqual deleted ih =>
    have ih := ih (fun u member r isRow => less u (mem_cons_of_mem _ member) r (mem_cons_of_mem _ isRow))
      (fun u member r isRow => equal u (mem_cons_of_mem _ member) r (mem_cons_of_mem _ isRow))
      (forall_mem_cons.mp written).2
    rw [map_cons,applyUpdates,if_neg (mt (less update mem_cons_self row mem_cons_self).mp notLess),
      if_pos ((equal update mem_cons_self row mem_cons_self).mpr isEqual),if_neg deleted,ih]
  | case7 row rows update updates notLess different ih =>
    have ih := ih (fun u member r isRow => less u member r (mem_cons_of_mem _ isRow))
      (fun u member r isRow => equal u member r (mem_cons_of_mem _ isRow)) written
    rw [map_cons,applyUpdates,if_neg (mt (less update mem_cons_self row mem_cons_self).mp notLess),
      if_neg (mt (equal update mem_cons_self row mem_cons_self).mp different),ih,map_cons]

section Sorted
variable (keyOfRow : ∀ update,key (toRow update) = updateKey update)
include keyOfRow

theorem applyUpdates_pairwise {rel : κ → κ → Prop} (strict : ∀ x y,x < y → rel x y) (step : ∀ x y z,x < y → rel y z → rel x z)
    (sortedRows : rows.Pairwise (fun x y => rel (key x) (key y)))
    (sortedUpdates : updates.Pairwise (fun x y => rel (updateKey x) (updateKey y))) :
    (applyUpdates key updateKey isInsert toRow rows updates).Pairwise (fun x y => rel (key x) (key y)) := by
  fun_induction applyUpdates key updateKey isInsert toRow rows updates with
  | case1 updates =>
    apply pairwise_map.mpr
    refine (sortedUpdates.filter isInsert).imp ?_
    intro x y less
    rw [keyOfRow,keyOfRow]
    exact less
  | case2 row rows => exact sortedRows
  | case3 row rows update updates less inserted ih =>
    obtain ⟨firstUpdate,laterUpdates⟩ := pairwise_cons.mp sortedUpdates
    refine pairwise_cons.mpr ⟨?_,ih sortedRows laterUpdates⟩
    intro result member
    rw [keyOfRow]
    rcases mem_of_applyUpdates member with isRow | ⟨u,isUpdate,_,rfl⟩
    · rcases mem_cons.mp isRow with rfl | later
      · exact strict _ _ less
      · exact step _ _ _ less ((pairwise_cons.mp sortedRows).1 result later)
    · rw [keyOfRow]
      exact firstUpdate u isUpdate
  | case4 row rows update updates less deleted ih | case5 row rows update updates notLess equal inserted ih => exact ih sortedRows (pairwise_cons.mp sortedUpdates).2
  | case6 row rows update updates notLess equal deleted ih =>
    exact ih (pairwise_cons.mp sortedRows).2 (pairwise_cons.mp sortedUpdates).2
  | case7 row rows update updates notLess different ih =>
    obtain ⟨firstRow,laterRows⟩ := pairwise_cons.mp sortedRows
    have less : key row < updateKey update := lt_of_le_of_ne (not_lt.mp notLess) (Ne.symm different)
    refine pairwise_cons.mpr ⟨?_,ih laterRows sortedUpdates⟩
    intro result member
    rcases mem_of_applyUpdates member with isRow | ⟨u,isUpdate,_,rfl⟩
    · exact firstRow result isRow
    · rw [keyOfRow]
      rcases mem_cons.mp isUpdate with rfl | later
      · exact strict _ _ less
      · exact step _ _ _ less ((pairwise_cons.mp sortedUpdates).1 u later)

theorem filter_applyUpdates (sortedRows : rows.Pairwise (fun x y => key x ≤ key y))
    (sortedUpdates : updates.Pairwise (fun x y => updateKey x ≤ updateKey y)) (k : κ) :
    (applyUpdates key updateKey isInsert toRow rows updates).filter (fun row => key row = k) =
      applyUpdates key updateKey isInsert toRow (rows.filter (fun row => key row = k)) (updates.filter (fun update => updateKey update = k)) := by
  fun_induction applyUpdates key updateKey isInsert toRow rows updates with
  | case1 updates =>
    have swap : ∀ update,(decide (key (toRow update) = k) && isInsert update) = (isInsert update && decide (updateKey update = k)) := by
      intro update
      rw [keyOfRow,Bool.and_comm]
    simp only [filter_nil,applyUpdates,filter_map,filter_filter,Function.comp_def,swap]
  | case2 row rows => rw [filter_nil,applyUpdates_nil]
  | case3 row rows update updates less inserted ih =>
    have ih := ih sortedRows (pairwise_cons.mp sortedUpdates).2
    by_cases here : updateKey update = k
    · -- All rows have larger keys.
      have noRows : (row::rows).filter (fun row => key row = k) = [] := by
        apply filter_eq_nil_iff.mpr
        intro r member
        have larger : updateKey update < key r := by
          rcases mem_cons.mp member with rfl | later
          · exact less
          · exact less.trans_le ((pairwise_cons.mp sortedRows).1 r later)
        simpa using (here ▸ larger).ne'
      rw [noRows] at ih ⊢
      simp only [applyUpdates] at ih ⊢
      simp [keyOfRow,here,inserted,ih]
    · simp [keyOfRow,here,ih]
  | case4 row rows update updates less deleted ih =>
    have ih := ih sortedRows (pairwise_cons.mp sortedUpdates).2
    rw [ih]
    by_cases here : updateKey update = k
    · have noRows : (row::rows).filter (fun row => key row = k) = [] := by
        apply filter_eq_nil_iff.mpr
        intro r member
        have larger : updateKey update < key r := by
          rcases mem_cons.mp member with rfl | later
          · exact less
          · exact less.trans_le ((pairwise_cons.mp sortedRows).1 r later)
        simpa using (here ▸ larger).ne'
      rw [noRows]
      simp [applyUpdates,here,deleted]
    · simp [here]
  | case5 row rows update updates notLess equal inserted ih =>
    rw [ih sortedRows (pairwise_cons.mp sortedUpdates).2]
    by_cases here : key row = k
    · simp [here,equal,applyUpdates,inserted]
    · simp [here,equal]
  | case6 row rows update updates notLess equal deleted ih =>
    rw [ih (pairwise_cons.mp sortedRows).2 (pairwise_cons.mp sortedUpdates).2]
    by_cases here : key row = k
    · simp [here,equal,applyUpdates,deleted]
    · simp [here,equal]
  | case7 row rows update updates notLess different ih =>
    have less : key row < updateKey update := lt_of_le_of_ne (not_lt.mp notLess) (Ne.symm different)
    have ih := ih (pairwise_cons.mp sortedRows).2 sortedUpdates
    by_cases here : key row = k
    · -- All updates have larger keys.
      have noUpdates : (update::updates).filter (fun update => updateKey update = k) = [] := by
        apply filter_eq_nil_iff.mpr
        intro u member
        have larger : key row < updateKey u := by
          rcases mem_cons.mp member with rfl | later
          · exact less
          · exact less.trans_le ((pairwise_cons.mp sortedUpdates).1 u later)
        simpa using (here ▸ larger).ne'
      rw [noUpdates,applyUpdates_nil] at ih ⊢
      simp [here,ih]
    · simp [here,ih]

end Sorted

/-- For the rows and updates of one key: some row is left, or an insertion follows the deletion of the last row. -/
def KeepsKey (isInsert : υ → Bool) (numRows : Nat) (updates : List υ) : Prop :=
  updates.countP (fun update => !isInsert update) < numRows ∨
    ∃ before update after,updates = before ++ update::after ∧ isInsert update = true ∧ numRows ≤ before.countP (fun update => !isInsert update)

section OneKey
variable {k : κ}

/-- Among rows and updates with the same key, the deletions take the first rows, and an insertion counts only when
no row is left.
-/
theorem applyUpdates_ne_nil (sameRows : ∀ row ∈ rows,key row = k) (sameUpdates : ∀ update ∈ updates,updateKey update = k) :
    applyUpdates key updateKey isInsert toRow rows updates ≠ [] ↔ KeepsKey isInsert rows.length updates := by
  unfold KeepsKey
  induction updates generalizing rows with
  | nil =>
    rw [applyUpdates_nil]
    simp [length_pos_iff]
  | cons update updates ih =>
    have tail := fun u member => sameUpdates u (mem_cons_of_mem update member)
    cases rows with
    | nil =>
      simp only [applyUpdates,ne_eq,map_eq_nil_iff,filter_eq_nil_iff,not_forall,length_nil,Nat.not_lt_zero,
        false_or,Nat.zero_le,and_true]
      constructor
      · rintro ⟨u,isUpdate,inserted⟩
        obtain ⟨before,after,split⟩ := append_of_mem isUpdate
        exact ⟨before,u,after,split,by simpa using inserted⟩
      · rintro ⟨before,u,after,split,inserted⟩
        exact ⟨u,split ▸ by simp,by simpa using inserted⟩
    | cons row rows =>
      have equal : updateKey update = key row :=
        (sameUpdates update mem_cons_self).trans (sameRows row mem_cons_self).symm
      rw [applyUpdates,if_neg equal.not_lt,if_pos equal]
      split
      next inserted =>
        rw [ih sameRows tail,countP_cons_of_neg (by simp [inserted])]
        refine or_congr Iff.rfl ?_
        constructor
        · rintro ⟨before,u,after,rfl,isInserted,enough⟩
          exact ⟨update::before,u,after,rfl,isInserted,enough.trans (countP_cons_of_neg (by simp [inserted])).ge⟩
        · rintro ⟨before,u,after,split,isInserted,enough⟩
          cases before with
          | nil => simp at enough
          | cons first before =>
            obtain ⟨rfl,rfl⟩ := List.cons.inj split
            exact ⟨before,u,after,rfl,isInserted,enough.trans (countP_cons_of_neg (by simp [inserted])).le⟩
      next deleted =>
        have counted : ∀ list : List υ,(update::list).countP (fun update => !isInsert update) = list.countP (fun update => !isInsert update) + 1 :=
          fun list => countP_cons_of_pos (by simp [deleted])
        rw [ih (forall_mem_cons.mp sameRows).2 tail,counted,length_cons]
        refine or_congr Nat.succ_lt_succ_iff.symm ?_
        constructor
        · rintro ⟨before,u,after,rfl,isInserted,enough⟩
          exact ⟨update::before,u,after,rfl,isInserted,by rw [counted]; exact Nat.succ_le_succ enough⟩
        · rintro ⟨before,u,after,split,isInserted,enough⟩
          cases before with
          | nil => simp at enough
          | cons first before =>
            obtain ⟨rfl,rfl⟩ := List.cons.inj split
            rw [counted] at enough
            exact ⟨before,u,after,rfl,isInserted,Nat.le_of_succ_le_succ enough⟩

end OneKey

theorem mem_keys_applyUpdates (keyOfRow : ∀ update,key (toRow update) = updateKey update) (sortedRows : rows.Pairwise (fun x y => key x ≤ key y))
    (sortedUpdates : updates.Pairwise (fun x y => updateKey x ≤ updateKey y)) (k : κ) :
    k ∈ (applyUpdates key updateKey isInsert toRow rows updates).map key ↔
      KeepsKey isInsert (rows.filter (fun row => key row = k)).length (updates.filter (fun update => updateKey update = k)) := by
  have nonempty : k ∈ (applyUpdates key updateKey isInsert toRow rows updates).map key ↔
      (applyUpdates key updateKey isInsert toRow rows updates).filter (fun row => key row = k) ≠ [] := by
    simp [filter_eq_nil_iff]
  rw [nonempty,filter_applyUpdates keyOfRow sortedRows sortedUpdates]
  apply applyUpdates_ne_nil (k := k)
  · exact fun row member => of_decide_eq_true (mem_filter.mp member).2
  · exact fun update member => of_decide_eq_true (mem_filter.mp member).2

theorem filter_key_cases {α : Type} {f : α → κ} {xs : List α} (increasing : xs.Pairwise (fun x y => f x < f y)) (k : κ) :
    (xs.filter (fun x => f x = k) = [] ∧ ∀ x ∈ xs,f x ≠ k) ∨
      ∃ x ∈ xs,f x = k ∧ xs.filter (fun x => f x = k) = [x] ∧ ∀ y ∈ xs,f y = k → y = x := by
  induction xs with
  | nil => exact Or.inl (by simp)
  | cons x xs ih =>
    obtain ⟨first,later⟩ := pairwise_cons.mp increasing
    by_cases here : f x = k
    · have others : ∀ y ∈ xs,f y ≠ k := fun y member => here ▸ (first y member).ne'
      refine Or.inr ⟨x,mem_cons_self,here,?_,?_⟩
      · rw [filter_cons_of_pos (by simpa using here),filter_eq_nil_iff.mpr (by simpa using others)]
      · intro y member same
        exact (mem_cons.mp member).resolve_right (fun isLater => others y isLater same)
    · rw [filter_cons_of_neg (by simpa using here)]
      rcases ih later with ⟨empty,none⟩ | ⟨y,member,same,single,only⟩
      · exact Or.inl ⟨empty,forall_mem_cons.mpr ⟨here,none⟩⟩
      · refine Or.inr ⟨y,mem_cons_of_mem x member,same,single,?_⟩
        intro z isMember sameKey
        rcases mem_cons.mp isMember with rfl | isLater
        · exact absurd sameKey here
        · exact only z isLater sameKey

theorem keepsKey_iff (increasing : updates.Pairwise (fun x y => updateKey x < updateKey y)) (k : κ) (numRows : Nat) :
    KeepsKey isInsert numRows (updates.filter (fun update => updateKey update = k)) ↔
      (∃ update ∈ updates,isInsert update = true ∧ updateKey update = k) ∨
        updates.countP (fun update => !isInsert update && decide (updateKey update = k)) < numRows := by
  have counted : updates.countP (fun update => !isInsert update && decide (updateKey update = k)) =
      (updates.filter (fun update => updateKey update = k)).countP (fun update => !isInsert update) := by
    rw [countP_filter]
  rw [counted]
  constructor
  · rintro (left | ⟨before,update,after,split,inserted,_⟩)
    · exact Or.inr left
    · have member : update ∈ updates.filter (fun update => updateKey update = k) := split ▸ by simp
      exact Or.inl ⟨update,(mem_filter.mp member).1,inserted,of_decide_eq_true (mem_filter.mp member).2⟩
  · rintro (⟨update,isUpdate,inserted,same⟩ | left)
    · rcases filter_key_cases increasing k with ⟨_,absent⟩ | ⟨only,_,_,single,unique⟩
      · exact absurd same (absent update isUpdate)
      · have isOnly : update = only := unique update isUpdate same
        subst isOnly
        rw [single]
        rcases Nat.eq_zero_or_pos numRows with rfl | positive
        · exact Or.inr ⟨[],update,[],rfl,inserted,Nat.zero_le _⟩
        · exact Or.inl (by simpa [inserted] using positive)
    · exact Or.inl left

section Strict
variable (keyOfRow : ∀ update,key (toRow update) = updateKey update)
  (sortedRows : rows.Pairwise (fun x y => key x < key y)) (sortedUpdates : updates.Pairwise (fun x y => updateKey x < updateKey y))
include keyOfRow sortedRows sortedUpdates

theorem mem_applyUpdates {result : ρ} :
    result ∈ applyUpdates key updateKey isInsert toRow rows updates ↔
      (result ∈ rows ∧ ∀ update ∈ updates,updateKey update = key result → isInsert update = true) ∨
        ∃ update ∈ updates,isInsert update = true ∧ toRow update = result ∧ ∀ row ∈ rows,key row ≠ key result := by
  have here : result ∈ applyUpdates key updateKey isInsert toRow rows updates ↔
      result ∈ applyUpdates key updateKey isInsert toRow (rows.filter (fun row => key row = key result))
        (updates.filter (fun update => updateKey update = key result)) := by
    rw [← filter_applyUpdates keyOfRow (sortedRows.imp le_of_lt) (sortedUpdates.imp le_of_lt)]
    simp
  rw [here]
  rcases filter_key_cases sortedRows (key result) with ⟨noRows,notRow⟩ | ⟨row,isRow,sameRow,oneRow,onlyRow⟩
  · have absent : result ∉ rows := fun member => notRow result member rfl
    rw [noRows]
    simp only [applyUpdates,List.mem_map,mem_filter,absent,false_and,false_or,decide_eq_true_eq]
    constructor
    · rintro ⟨update,⟨⟨isUpdate,_⟩,inserted⟩,same⟩
      exact ⟨update,isUpdate,inserted,same,notRow⟩
    · rintro ⟨update,isUpdate,inserted,same,_⟩
      exact ⟨update,⟨⟨isUpdate,by rw [← keyOfRow,same]⟩,inserted⟩,same⟩
  · have noInsertion : ¬∃ update ∈ updates,isInsert update = true ∧ toRow update = result ∧ ∀ row ∈ rows,key row ≠ key result :=
      fun ⟨_,_,_,_,fresh⟩ => fresh row isRow sameRow
    have isResult : result ∈ rows ↔ result = row := ⟨fun member => onlyRow result member rfl,fun same => same ▸ isRow⟩
    rw [oneRow,or_iff_left noInsertion,isResult]
    rcases filter_key_cases sortedUpdates (key result) with ⟨noUpdates,notUpdate⟩ | ⟨update,isUpdate,sameUpdate,oneUpdate,onlyUpdate⟩
    · rw [noUpdates,applyUpdates_nil,mem_singleton]
      exact (and_iff_left (fun update isUpdate same => absurd same (notUpdate update isUpdate))).symm
    · have equal : updateKey update = key row := sameUpdate.trans sameRow.symm
      rw [oneUpdate,applyUpdates,if_neg equal.not_lt,if_pos equal]
      have inserted : (∀ u ∈ updates,updateKey u = key result → isInsert u = true) ↔ isInsert update = true :=
        ⟨fun all => all update isUpdate sameUpdate,fun inserted u member same => onlyUpdate u member same ▸ inserted⟩
      rw [inserted]
      split
      next isInserted => simp [applyUpdates_nil,isInserted]
      next isDeleted => simp [applyUpdates,isDeleted]

end Strict

end Qlever.Library
