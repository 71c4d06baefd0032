import Qlever.BlockZipperEqual

/-! One round of the block zipper: `fillBuffer` and `joinBuffers`. A round joins and
removes all elements up to its current element.
-/
namespace Qlever.BlockZipperJoin
open ZipperJoin Library BlockAndSubrange
variable {κ : Type} [LinearOrder κ]

structure SideInv (config : Config κ) (side : JoinSide κ) : Prop where
  sorted : SortedItems side.pending
  length : side.currentBlocks.length ≤ 1
  nonempty : ∀ block ∈ side.currentBlocks,block.elements ≠ []
  undefs : Undefs config side.undefBlocks
  defined : ∀ item ∈ side.pending,config.isUndef (key item) = false
  ids : side.ids.Nodup

theorem SideInv.advance {config : Config κ} {side side' : JoinSide κ} (inv : SideInv config side)
    (advanced : Advanced side side') (pending : side'.pending.Sublist side.pending)
    (length : side'.currentBlocks.length ≤ 1) (nonempty : ∀ block ∈ side'.currentBlocks,block.elements ≠ []) :
    SideInv config side' where
  sorted := inv.sorted.sublist pending
  length := length
  nonempty := nonempty
  undefs := by rw [advanced.undefBlocks]; exact inv.undefs
  defined item member := inv.defined item (pending.subset member)
  ids := inv.ids.sublist advanced.ids

section First
variable {config : Config κ}

theorem fillWithAtLeastOneFrom_spec (it : List (Block κ)) (sorted : SortedItems (rest it)) :
    ∃ it' blocks,fillWithAtLeastOneFrom it = .ok (it',blocks) ∧ items blocks ++ rest it' = rest it ∧ blocks.length ≤ 1 ∧
      (∀ block ∈ blocks,block.elements ≠ []) ∧ it' <:+ it ∧ (blocks.map (·.fullBlock) ++ it'.map (·.id)).Sublist (it.map (·.id)) ∧
      (blocks = [] → rest it = []) := by
  induction it with
  | nil => exact ⟨[],[],rfl,rfl,by simp,by simp,List.suffix_rfl,by simp,fun _ => rfl⟩
  | cons block it ih =>
    rw [rest_cons] at sorted
    cases empty : block.elements.isEmpty with
    | true =>
      obtain ⟨it',blocks,run,pending,length,nonempty,suffix,ids,none⟩ := ih sorted.right
      have noItems : (ofBlock block).items = [] := by
        simp [BlockAndSubrange.items,subrange,ofBlock,iters,List.isEmpty_iff.mp empty]
      refine ⟨it',blocks,?_,by simpa [noItems] using pending,length,nonempty,suffix.trans (List.suffix_cons block it),
        ids.trans (List.sublist_cons_self _ _),by simpa [noItems] using none⟩
      rw [fillWithAtLeastOneFrom,empty,if_pos rfl,run]
    | false =>
      refine ⟨it,[ofBlock block],?_,by simp,by simp,?_,List.suffix_cons block it,?_,by simp⟩
      · have blockSorted : block.elements.Pairwise (· ≤ ·) := sorted.left.elements
        simp [fillWithAtLeastOneFrom,empty,blockSorted,check,bind,Except.bind,pure,Except.pure]
      · intro other member
        rw [List.mem_singleton.mp member]
        simpa [ofBlock] using empty
      · simp [ofBlock]

variable {side : JoinSide κ}

theorem fillWithAtLeastOne_filled (sorted : SortedItems side.pending) (length : side.currentBlocks.length ≤ 1)
    (nonempty : ∀ block ∈ side.currentBlocks,block.elements ≠ []) :
    ∃ side',fillWithAtLeastOne side = .ok side' ∧ Advanced side side' ∧ side'.pending = side.pending ∧
      side'.currentBlocks.length ≤ 1 ∧ (∀ block ∈ side'.currentBlocks,block.elements ≠ []) ∧
      (side'.currentBlocks = [] → side'.pending = []) := by
  obtain ⟨it,currentBlocks,undefBlocks⟩ := side
  cases currentBlocks with
  | cons block blocks =>
    exact ⟨_,by simp [fillWithAtLeastOne,pure,Except.pure],Advanced.refl _,rfl,length,nonempty,by simp⟩
  | nil =>
    have sorted' : SortedItems (rest it) := by simpa [JoinSide.pending] using sorted
    obtain ⟨it',blocks,run,pending,length',nonempty',suffix,ids,none⟩ := fillWithAtLeastOneFrom_spec it sorted'
    have same : JoinSide.pending ⟨it',blocks,undefBlocks⟩ = JoinSide.pending ⟨it,[],undefBlocks⟩ := by
      simpa [JoinSide.pending] using pending
    refine ⟨⟨it',blocks,undefBlocks⟩,?_,⟨rfl,suffix,by simpa [JoinSide.ids] using ids⟩,same,length',nonempty',?_⟩
    · simp [fillWithAtLeastOne,run,bind,Except.bind,pure,Except.pure]
    · intro nil
      rw [same,JoinSide.pending]
      simpa using none nil

theorem fillWithAtLeastOne_spec (inv : SideInv config side) :
    ∃ side',fillWithAtLeastOne side = .ok side' ∧ SideInv config side' ∧ Advanced side side' ∧ side'.pending = side.pending ∧
      (side'.currentBlocks = [] → side'.pending = []) := by
  obtain ⟨side',run,advanced,pending,length,nonempty,none⟩ := fillWithAtLeastOne_filled inv.sorted inv.length inv.nonempty
  exact ⟨side',run,inv.advance advanced (by rw [pending]) length nonempty,advanced,pending,none⟩

end First

/-- A side while blocks with the current element are added to its buffer. Its first block
reaches at least to the current element. -/
structure Fillable (currentEl : κ) (side : JoinSide κ) : Prop where
  sorted : SortedItems side.pending
  least : ∀ item ∈ rest side.it,currentEl ≤ key item
  nonempty : ∀ block ∈ side.currentBlocks,block.elements ≠ []
  later : ∀ block ∈ side.currentBlocks.tail,block.elements.head? = some currentEl
  some : side.currentBlocks ≠ []

/-- A side after a number of calls of `fillEqualToCurrentEl`. -/
structure FilledSide (currentEl : κ) (side side' : JoinSide κ) (all : Bool) : Prop where
  fillable : Fillable currentEl side'
  pending : side'.pending = side.pending
  advanced : Advanced side side'
  current : side.currentBlocks <+: side'.currentBlocks
  done : all = true → ∀ item ∈ rest side'.it,currentEl < key item
  more : all = false → side'.it ≠ [] ∧ ∃ item ∈ items side'.currentBlocks.tail,key item = currentEl

section Both
variable {currentEl : κ}

theorem fillEqualToCurrentEl_filled {side : JoinSide κ} (fillable : Fillable currentEl side) :
    ∃ side' taken all,fillEqualToCurrentEl side currentEl = .ok (side',all) ∧ FilledSide currentEl side side' all ∧
      Filled currentEl fetchBlocks side.it side'.it taken all := by
  obtain ⟨it,current,undefBlocks⟩ := side
  obtain ⟨it',taken,all,run,filled⟩ := fillEqualToCurrentEl_spec current it undefBlocks fillable.sorted fillable.least
  have pending : JoinSide.pending ⟨it',current ++ taken.map ofBlock,undefBlocks⟩ =
      JoinSide.pending ⟨it,current,undefBlocks⟩ := by
    rw [JoinSide.pending,JoinSide.pending,items_append,items_taken,List.append_assoc,← filled.pending]
  have heads : ∀ block ∈ taken.map ofBlock,block.elements.head? = some currentEl := by
    intro block member
    obtain ⟨original,inside,rfl⟩ := List.mem_map.mp member
    simpa [starts,ofBlock] using filled.equal original inside
  have tail : (current ++ taken.map ofBlock).tail = current.tail ++ taken.map ofBlock :=
    List.tail_append_of_ne_nil fillable.some
  refine ⟨_,taken,all,run,⟨⟨?_,?_,?_,?_,?_⟩,pending,filled.advanced (List.Sublist.refl _),List.prefix_append _ _,
    filled.done,?_⟩,filled⟩
  · rw [pending]
    exact fillable.sorted
  · intro item member
    exact fillable.least item (by rw [filled.pending]; exact List.mem_append_right _ member)
  · intro block member
    rcases List.mem_append.mp member with old | new
    · exact fillable.nonempty block old
    · intro none
      simpa [none] using heads block new
  · intro block member
    rw [tail] at member
    rcases List.mem_append.mp member with old | new
    · exact fillable.later block old
    · exact heads block new
  · simp [fillable.some]
  · intro no
    subst no
    obtain ⟨item,member,equal⟩ := exists_taken filled (taken_ne_nil filled)
    refine ⟨(filled.more rfl).2,item,?_,equal⟩
    rw [tail,items_append,items_taken]
    exact List.mem_append_right _ member

theorem FilledSide.trans {first second third : JoinSide κ} {all all' : Bool} (one : FilledSide currentEl first second all)
    (two : FilledSide currentEl second third all') : FilledSide currentEl first third all' where
  fillable := two.fillable
  pending := two.pending.trans one.pending
  advanced := one.advanced.trans two.advanced
  current := one.current.trans two.current
  done := two.done
  more := two.more

theorem Filled.all_eq {it it' taken : List (Block κ)} {all : Bool} (filled : Filled currentEl fetchBlocks it it' taken all) :
    all = (decide (numEqual currentEl it < fetchBlocks) ||
      (decide (numEqual currentEl it = fetchBlocks) && endsEqual currentEl it)) := by
  have counted := filled.count
  have atMost := filled.atMost
  cases all with
  | true =>
    have none := numEqual_eq_zero (filled.done rfl)
    rcases Nat.lt_or_ge taken.length fetchBlocks with less | full
    · have less' : numEqual currentEl it < fetchBlocks := by omega
      simp [less']
    · have length : taken.length = fetchBlocks := by omega
      have ended := filled.endsFull (filled.full rfl length) length (by simp [fetchBlocks])
      have equal : numEqual currentEl it = fetchBlocks := by omega
      simp [equal,ended]
  | false =>
    obtain ⟨length,more⟩ := filled.more rfl
    have notLess : ¬ numEqual currentEl it < fetchBlocks := by omega
    by_cases equal : numEqual currentEl it = fetchBlocks
    · have none : numEqual currentEl it' = 0 := by omega
      simp [equal,filled.endsMore more,endsEqual_eq_false none]
    · simp [notLess,equal]

/-- Right blocks remain after the left ones are complete, and the last of the right blocks with the current
element ends a fetch. -/
def incomplete (left : Nat) (leftEnds : Bool) (right : Nat) (rightEnds : Bool) : Bool :=
  fetchBlocks ≤ right && right % fetchBlocks = 0 && !rightEnds && (left < right || (left = right && leftEnds))

theorem incomplete_fetch (left : Nat) (leftEnds : Bool) (right : Nat) (rightEnds : Bool) (noLeft : left = 0 → leftEnds = false) :
    incomplete (fetchBlocks + left) leftEnds (fetchBlocks + right) rightEnds = incomplete left leftEnds right rightEnds := by
  rw [Bool.eq_iff_iff]
  simp only [incomplete,Bool.and_eq_true,Bool.or_eq_true,decide_eq_true_eq,Bool.not_eq_true']
  simp only [fetchBlocks]
  cases leftEnds <;> cases rightEnds <;> simp only [Bool.true_eq_false,imp_false,and_false,false_and,and_true,or_false,
    Bool.false_eq_true] at noLeft ⊢ <;> omega

/-- The result of `fillEqualToCurrentElBothSides`. -/
structure FilledBoth (currentEl : κ) (impl impl' : Impl κ) (status : BlockStatus) : Prop where
  left : FilledSide currentEl impl.leftSide impl'.leftSide (status ≠ .leftMissing)
  right : FilledSide currentEl impl.rightSide impl'.rightSide (status ≠ .rightMissing)
  action : impl'.compatibleRowAction = impl.compatibleRowAction
  last : (decide (status = .rightMissing) && decide (numEqual currentEl impl'.rightSide.it % fetchBlocks = 0) &&
      !endsEqual currentEl impl'.rightSide.it) =
    incomplete (numEqual currentEl impl.leftSide.it) (endsEqual currentEl impl.leftSide.it)
      (numEqual currentEl impl.rightSide.it) (endsEqual currentEl impl.rightSide.it)

theorem incomplete_last {left right right' takenLeft takenRight left' : List (Block κ)} {allLeft allRight : Bool}
    (filledLeft : Filled currentEl fetchBlocks left left' takenLeft allLeft)
    (filledRight : Filled currentEl fetchBlocks right right' takenRight allRight) (one : allLeft = true ∨ allRight = true) :
    (!allRight && decide (numEqual currentEl right' % fetchBlocks = 0) && !endsEqual currentEl right') =
      incomplete (numEqual currentEl left) (endsEqual currentEl left) (numEqual currentEl right) (endsEqual currentEl right) := by
  have flagLeft := filledLeft.all_eq
  have flagRight := filledRight.all_eq
  cases allRight with
  | true =>
    rw [Bool.eq_iff_iff]
    rcases Bool.or_eq_true_iff.mp flagRight.symm with less | ended
    · simp only [decide_eq_true_eq] at less
      simp [incomplete,Nat.not_le.mpr less]
    · simp [incomplete,(Bool.and_eq_true_iff.mp ended).2]
  | false =>
    have allLeft : allLeft = true := by simpa using one
    subst allLeft
    obtain ⟨length,more⟩ := filledRight.more rfl
    have counted := filledRight.count
    have atLeast : fetchBlocks ≤ numEqual currentEl right := by omega
    have same : numEqual currentEl right' % fetchBlocks = numEqual currentEl right % fetchBlocks := by
      rw [counted,length,Nat.add_mod_left]
    have before : (decide (numEqual currentEl left < numEqual currentEl right) ||
        (decide (numEqual currentEl left = numEqual currentEl right) && endsEqual currentEl left)) = true := by
      rcases Bool.or_eq_true_iff.mp flagLeft.symm with less | ended
      · simp only [decide_eq_true_eq] at less
        have smaller : numEqual currentEl left < numEqual currentEl right := by omega
        simp [smaller]
      · obtain ⟨full,ends⟩ := Bool.and_eq_true_iff.mp ended
        simp only [decide_eq_true_eq] at full
        rw [ends,Bool.and_true,← Bool.decide_or,decide_eq_true_eq]
        omega
    rw [incomplete,filledRight.endsMore more,before,same]
    simp [atLeast]

theorem fillEqualToCurrentElBothSides_spec (impl : Impl κ) (fillableLeft : Fillable currentEl impl.leftSide)
    (fillableRight : Fillable currentEl impl.rightSide) (fuel : Nat)
    (enough : impl.leftSide.it.length + impl.rightSide.it.length < fuel) :
    ∃ impl' status,fillEqualToCurrentElBothSides currentEl fuel impl = .ok (impl',status) ∧
      FilledBoth currentEl impl impl' status := by
  induction fuel generalizing impl with
  | zero => omega
  | succ fuel ih =>
    obtain ⟨left,takenLeft,allLeft,runLeft,sideLeft,filledLeft⟩ := fillEqualToCurrentEl_filled fillableLeft
    obtain ⟨right,takenRight,allRight,runRight,sideRight,filledRight⟩ := fillEqualToCurrentEl_filled fillableRight
    have last := incomplete_last filledLeft filledRight
    have shorterLeft := filledLeft.ids.length_le
    have shorterRight := filledRight.ids.length_le
    rw [List.length_append] at shorterLeft shorterRight
    rw [fillEqualToCurrentElBothSides,runLeft,runRight]
    cases allLeft with
    | true =>
      cases allRight with
      | true => exact ⟨_,.allFilled,rfl,sideLeft,sideRight,rfl,by simpa using last (Or.inl rfl)⟩
      | false => exact ⟨_,.rightMissing,rfl,sideLeft,sideRight,rfl,by simpa using last (Or.inl rfl)⟩
    | false =>
      cases allRight with
      | true => exact ⟨_,.leftMissing,rfl,sideLeft,sideRight,rfl,by simpa using last (Or.inr rfl)⟩
      | false =>
        obtain ⟨lengthLeft,moreLeft⟩ := filledLeft.more rfl
        obtain ⟨lengthRight,moreRight⟩ := filledRight.more rfl
        obtain ⟨impl',status,run,done⟩ := ih {impl with leftSide := left,rightSide := right} sideLeft.fillable sideRight.fillable
          (by simp only [fetchBlocks] at lengthLeft; simp only; omega)
        refine ⟨impl',status,run,sideLeft.trans done.left,sideRight.trans done.right,done.action,?_⟩
        rw [done.last,filledLeft.count,filledRight.count,lengthLeft,lengthRight,filledLeft.endsMore moreLeft,
          filledRight.endsMore moreRight,incomplete_fetch _ _ _ _ endsEqual_eq_false]

end Both
end Qlever.BlockZipperJoin
