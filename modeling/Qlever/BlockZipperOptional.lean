import Qlever.BlockZipperUndef

/-! The optional join with UNDEF values. The UNDEF rows of the left side that were split off are never reported as
rows without a partner, and neither are the rows of the blocks that `addRemainingUndefPairs` consumes.
-/
namespace Qlever.BlockZipperJoin
open ZipperJoin Library List
open Bool (not_eq_true not_eq_false')
variable {κ : Type} [LinearOrder κ] [OrderBot κ] {left right : List (List κ)} {leftSide rightSide : JoinSide κ}

/-- No row of `right` is compatible with the value. -/
def lonely (right : List (List κ)) (value : κ) : Bool := right.flatten.all (fun other => !undefCompatible value other)

def lonelyAt (left right : List (List κ)) (p : Nat × Nat) : Bool := (elementAt left p).any (lonely right)

/-- Exactly the rows of `left` without a compatible row get an optional row, and all others are in a pair. -/
def OptionalRowsCorrect (left right : List (List κ)) : Prop :=
  ∃ action,zipperJoinForBlocksWithPotentialUndef true left right = .ok action ∧
    (∀ p,action.optionalRows.count p = if lonelyAt left right p then 1 else 0) ∧
    ∀ p,(elementAt left p).isSome = true → ((∃ q,(p,q) ∈ action.rows) ↔ lonelyAt left right p = false)

/-- The block with the given index contains a value that is larger than all values of `right`. -/
def LargerAt (left right : List (List κ)) (i : Nat) : Prop :=
  ∃ block,left[i]? = some block ∧ ∃ element ∈ block,∀ other ∈ right.flatten,other < element

def AllFound (blocks : List (List κ)) : Prop := OnlyUndef blocks ∧ ¬ HiddenUndef blocks

/-- When the rows without a partner are reported, depending on the sides on which UNDEF rows are found. -/
def ReportsLonely (left right : List (List κ)) : Prop :=
  if StartsWithUndef right then (¬ HiddenUndef left ∧ ¬ HiddenUndef right) ∨ AllFound left ∨ AllFound right
  else if StartsWithUndef left then
    right.flatten ≠ [] ∧ (AllFound left ∨ (¬ HiddenUndef left ∧ ¬ HiddenUndef right ∧ (∀ value,¬ EndsWithFullBuffer value left right) ∧
      ∀ i j,LargerAt left right i → LargerAt left right j → i = j))
  else (∀ value,¬ EndsWithFullBuffer value left right) ∧
    ∀ value ∈ left.flatten,∀ other ∈ right.flatten,undefCompatible value other = true → value ∈ right.flatten

section Items

def CorrectFor (right : List (List κ)) (pairs : List (Item κ × Item κ)) (optional : List (Item κ)) (x : Item κ) : Prop :=
  optional.count x = (if lonely right (key x) then 1 else 0) ∧ ((∃ y,(x,y) ∈ pairs) ↔ lonely right (key x) = false)

omit [OrderBot κ] in
theorem count_place {its : List (Item κ)} (inside : its ⊆ inputItems left) {x : Item κ} (member : x ∈ inputItems left) :
    (its.map place).count (place x) = its.count x := by
  induction its with
  | nil => rfl
  | cons item its ih =>
    have rest := ih (fun other later => inside (mem_cons_of_mem item later))
    rw [map_cons,count_cons,count_cons,rest]
    congr 1
    have same : place item = place x ↔ item = x := by
      constructor
      · intro equal
        exact eq_of_place (inside mem_cons_self) member equal
      · intro equal
        rw [equal]
    simp only [beq_iff_eq,same]

theorem correct_iff_items {action : RowAction} {pairs : List (Item κ × Item κ)} {optional : List (Item κ)}
    (run : zipperJoinForBlocksWithPotentialUndef true left right = .ok action) (emits : Emits {} action pairs optional)
    (inLeft : ∀ pair ∈ pairs,pair.1 ∈ inputItems left) (inside : optional ⊆ inputItems left) :
    OptionalRowsCorrect left right ↔ ∀ x ∈ inputItems left,CorrectFor right pairs optional x := by
  have rows : ∀ p,(∃ q,(p,q) ∈ action.rows) ↔ ∃ pair ∈ pairs,place pair.1 = p := by
    intro p
    simp only [emits.rows.mem_iff,nil_append,List.mem_map,places]
    constructor
    · intro found
      obtain ⟨q,pair,member,same⟩ := found
      exact ⟨pair,member,(Prod.mk.inj same).1⟩
    · intro found
      obtain ⟨pair,member,same⟩ := found
      exact ⟨place pair.2,pair,member,by rw [same]⟩
  have counts : ∀ p,action.optionalRows.count p = (optional.map place).count p := by
    intro p
    rw [emits.optionalRows.count_eq,nil_append]
  have atItem : ∀ x ∈ inputItems left,lonelyAt left right (place x) = lonely right (key x) := by
    intro x member
    rw [lonelyAt,(mem_inputItems left x).mp member,Option.any_some]
  have pairsOf : ∀ x ∈ inputItems left,(∃ q,(place x,q) ∈ action.rows) ↔ ∃ y,(x,y) ∈ pairs := by
    intro x member
    rw [rows]
    constructor
    · intro found
      obtain ⟨pair,isPair,same⟩ := found
      exact ⟨pair.2,by rw [← eq_of_place (inLeft pair isPair) member same]; exact isPair⟩
    · intro found
      obtain ⟨y,isPair⟩ := found
      exact ⟨(x,y),isPair,rfl⟩
  constructor
  · intro correct x member
    obtain ⟨other,ok,optionalRows,addedRows⟩ := correct
    rw [run] at ok
    cases ok
    constructor
    · rw [← count_place inside member,← counts,optionalRows,atItem x member]
    · rw [← pairsOf x member,addedRows _ (by rw [(mem_inputItems left x).mp member]; rfl),atItem x member]
  · intro correct
    refine ⟨action,run,?_,?_⟩
    · intro p
      rw [counts]
      cases found : elementAt left p with
      | none =>
        rw [lonelyAt,found,Option.any_none,if_neg Bool.false_ne_true,count_eq_zero]
        intro member
        obtain ⟨x,isOptional,rfl⟩ := List.mem_map.mp member
        rw [(mem_inputItems left x).mp (inside isOptional)] at found
        cases found
      | some value =>
        have member : ((p.1,⟨value,p.2⟩) : Item κ) ∈ inputItems left := (mem_inputItems left _).mpr found
        have single := (correct _ member).1
        rw [← count_place inside member,← atItem _ member] at single
        exact single
    · intro p isSome
      obtain ⟨value,found⟩ := Option.isSome_iff_exists.mp isSome
      have member : ((p.1,⟨value,p.2⟩) : Item κ) ∈ inputItems left := (mem_inputItems left _).mpr found
      have single := (correct _ member).2
      rw [← pairsOf _ member,← atItem _ member] at single
      exact single

end Items

section Added

omit [OrderBot κ] in
theorem SideInv.congr {config config' : Config κ} (same : ∀ element,config.isUndef element = config'.isUndef element) {side : JoinSide κ}
    (inv : SideInv config side) : SideInv config' side where
  sorted := inv.sorted
  length := inv.length
  nonempty := inv.nonempty
  undefs := ⟨inv.undefs.nonempty,fun block member element inside => (same element).symm.trans (inv.undefs.undef block member element inside)⟩
  defined item member := (same (key item)).symm.trans (inv.defined item member)
  ids := inv.ids

def addedPairs (leftSide rightSide : JoinSide κ) : List (Item κ × Item κ) :=
  product (items leftSide.undefBlocks) (items rightSide.undefBlocks) ++
    joined (items leftSide.undefBlocks) (items rightSide.undefBlocks) leftSide.pending rightSide.pending

def addedOptional (config : Config κ) (left right : List (List κ)) (leftSide rightSide : JoinSide κ) : List (Item κ) :=
  keptRows config (items rightSide.undefBlocks) leftSide.pending rightSide.pending ++
    extraRows config (left.length - 1) (right.length - 1) (items rightSide.undefBlocks) leftSide.pending rightSide.pending

section
variable (startLeft : Start left leftSide) (startRight : Start right rightSide) (isLeft : findFirstBlockWithoutUndef undefConfig (makeJoinSide left) = leftSide)
  (isRight : findFirstBlockWithoutUndef undefConfig (makeJoinSide right) = rightSide) (doOptionalJoin : Bool)
include startLeft startRight isLeft isRight

theorem undefRounds_emits (some : StartsWithUndef left ∨ StartsWithUndef right)
    (harmless : (¬ HiddenUndef left ∧ ¬ HiddenUndef right) ∨ leftSide.pending = [] ∨ rightSide.pending = []) :
    ∃ action,zipperJoinForBlocksWithPotentialUndef doOptionalJoin left right = .ok action ∧ Emits {} action (addedPairs leftSide rightSide)
      (addedOptional ⟨.some (fun element => element = ⊥),doOptionalJoin⟩ left right leftSide rightSide) := by
  have run := withPotentialUndef_eq doOptionalJoin startLeft startRight isLeft isRight
  rw [if_pos some] at run
  let config : Config κ := ⟨.some (fun element => element = ⊥),doOptionalJoin⟩
  have same : ∀ element,undefConfig.isUndef element = config.isUndef element := fun _ => rfl
  have lawful : config.Lawful := undefConfig_lawful
  have first := addCartesianProduct_emits leftSide.undefBlocks rightSide.undefBlocks {}
  have done : ∃ impl,joinRounds config (leftSide.pending.length + rightSide.pending.length + 1)
      (afterUndefs leftSide rightSide) = .ok impl ∧
      Emits (addCartesianProduct leftSide.undefBlocks rightSide.undefBlocks {}) impl.compatibleRowAction
        (joined (items leftSide.undefBlocks) (items rightSide.undefBlocks) leftSide.pending rightSide.pending)
        (addedOptional config left right leftSide rightSide) := by
    rcases harmless with found | exhausted
    · exact joinRounds_spec lawful (afterUndefs leftSide rightSide)
        ((startLeft.inv found.1).congr same) ((startRight.inv found.2).congr same) startLeft.ends startRight.ends _ (Nat.lt_succ_self _)
    · obtain ⟨left',fillLeft,bufferedLeft,pendingLeft,undefsLeft,emptyLeft⟩ := startLeft.filled
      obtain ⟨right',fillRight,_,pendingRight,undefsRight,emptyRight⟩ := startRight.filled
      have oneEmpty : left'.pending = [] ∨ right'.pending = [] := by
        rw [pendingLeft,pendingRight]
        exact exhausted
      have undefs : ∀ {blocks : List (List κ)} {side : JoinSide κ},Start blocks side → Undefs config side.undefBlocks := fun start =>
        ⟨start.undefs.nonempty,start.undefs.undef⟩
      obtain ⟨impl,rounds,emits⟩ := joinRounds_exhausted (afterUndefs leftSide rightSide) bufferedLeft startLeft.length startRight.length
        fillLeft fillRight (by rw [undefsLeft]; exact undefs startLeft) (by rw [undefsRight]; exact undefs startRight)
        (Bool.or_eq_true _ _ ▸ oneEmpty.imp emptyLeft emptyRight) oneEmpty (leftSide.pending.length + rightSide.pending.length)
      rw [pendingLeft,pendingRight,undefsLeft,undefsRight] at emits
      refine ⟨impl,rounds,?_⟩
      rw [addedOptional,extraRows_exhausted exhausted,append_nil]
      exact emits
  obtain ⟨impl,rounds,emits⟩ := done
  change zipperJoinForBlocksWithPotentialUndef doOptionalJoin left right = (joinRounds config _ _).map _ at run
  rw [rounds] at run
  have all := first.trans emits
  rw [nil_append] at all
  exact ⟨impl.compatibleRowAction,run,all⟩

theorem alwaysFalse_emits (notLeft : ¬ StartsWithUndef left) (notRight : ¬ StartsWithUndef right) :
    ∃ action,zipperJoinForBlocksWithPotentialUndef doOptionalJoin left right = .ok action ∧ Emits {} action (addedPairs leftSide rightSide)
      (addedOptional ⟨none,doOptionalJoin⟩ left right leftSide rightSide) := by
  have run := withPotentialUndef_eq doOptionalJoin startLeft startRight isLeft isRight
  rw [if_neg (not_or.mpr ⟨notLeft,notRight⟩)] at run
  have lawful : (⟨none,doOptionalJoin⟩ : Config κ).Lawful := by
    intro undef element isUndef
    simp [Config.isUndef] at isUndef
  have same : ∀ element,(⟨none,false⟩ : Config κ).isUndef element = (⟨none,doOptionalJoin⟩ : Config κ).isUndef element := fun _ => rfl
  obtain ⟨impl,rounds,emits⟩ := joinRounds_spec lawful
    (afterUndefs leftSide rightSide)
    ((startLeft.inv_alwaysFalse (startLeft.unsplit.mpr notLeft)).congr same)
    ((startRight.inv_alwaysFalse (startRight.unsplit.mpr notRight)).congr same)
    startLeft.ends startRight.ends _ (Nat.lt_succ_self _)
  rw [joinAfterUndefs,rounds] at run
  have all := (addCartesianProduct_emits leftSide.undefBlocks rightSide.undefBlocks {}).trans emits
  rw [nil_append] at all
  exact ⟨impl.compatibleRowAction,run,all⟩

end

end Added

section Rows
variable {config : Config κ} (startLeft : Start left leftSide) (startRight : Start right rightSide)

omit [OrderBot κ] in
theorem mem_addedPairs (x y : Item κ) : (x,y) ∈ addedPairs leftSide rightSide ↔
    (x ∈ items leftSide.undefBlocks ∧ y ∈ items rightSide.undefBlocks) ∨ (x ∈ leftSide.pending ∧ y ∈ rightSide.pending ∧ key x = key y) ∨
    (x ∈ leftSide.pending ∧ y ∈ items rightSide.undefBlocks) ∨ (x ∈ items leftSide.undefBlocks ∧ y ∈ rightSide.pending) := by
  simp only [addedPairs,joined,product,equalPairs,mem_append,mem_nestedLoop,decide_eq_true_eq,and_true]
  tauto

omit [OrderBot κ] in
theorem addedOptional_subset : addedOptional config left right leftSide rightSide ⊆ leftSide.pending := by
  intro item member
  rcases mem_append.mp member with kept | extra
  · exact optionalItems_subset (mem_filter.mp kept).1
  · unfold extraRows at extra
    split at extra
    · exact (mem_filter.mp extra).1
    · cases extra

variable {x : Item κ}

include startLeft in
theorem Start.disjoint (undef : x ∈ items leftSide.undefBlocks) : x ∉ leftSide.pending := by
  have nodup := nodup_inputItems left
  rw [← startLeft.rows] at nodup
  exact fun pending => (nodup_append.mp nodup).2.2 x undef x pending rfl

include startRight in
theorem lonely_eq_false_iff (value : κ) : lonely right value = false ↔
    items rightSide.undefBlocks ≠ [] ∨ ∃ y ∈ rightSide.pending,undefCompatible value (key y) = true := by
  have undefined : ∀ y ∈ items rightSide.undefBlocks,undefCompatible value (key y) = true := by
    intro y member
    simp [undefCompatible,startRight.undef_keys y member]
  have rows : lonely right value = false ↔ ∃ y ∈ inputItems right,undefCompatible value (key y) = true := by
    simp only [lonely,all_eq_false,not_eq_true,not_eq_false',mem_flatten_iff]
    constructor
    · intro found
      obtain ⟨_,⟨y,member,rfl⟩,compatible⟩ := found
      exact ⟨y,member,compatible⟩
    · intro found
      obtain ⟨y,member,compatible⟩ := found
      exact ⟨key y,⟨y,member,rfl⟩,compatible⟩
  rw [rows,← startRight.rows]
  simp only [mem_append]
  constructor
  · intro found
    obtain ⟨y,member | member,compatible⟩ := found
    · exact Or.inl (ne_nil_of_mem member)
    · exact Or.inr ⟨y,member,compatible⟩
  · intro found
    rcases found with some | ⟨y,member,compatible⟩
    · obtain ⟨y,member⟩ := exists_mem_of_ne_nil _ some
      exact ⟨y,Or.inl member,undefined y member⟩
    · exact ⟨y,Or.inr member,compatible⟩

include startLeft startRight in
theorem correctFor_undef (member : x ∈ items leftSide.undefBlocks) :
    CorrectFor right (addedPairs leftSide rightSide) (addedOptional config left right leftSide rightSide) x ↔ right.flatten ≠ [] := by
  have notReported : (addedOptional config left right leftSide rightSide).count x = 0 := by
    rw [count_eq_zero]
    exact fun reported => startLeft.disjoint member (addedOptional_subset reported)
  have alone : lonely right (key x) = true ↔ right.flatten = [] := by
    rw [lonely,startLeft.undef_keys x member]
    cases right.flatten with
    | nil => simp
    | cons first rest => simp [undefCompatible]
  constructor
  · intro correct none
    have count := correct.1
    rw [notReported,alone.mpr none] at count
    simp at count
  · intro some
    have notAlone : lonely right (key x) = false := by
      rw [← not_eq_true,alone]
      exact some
    refine ⟨by rw [notReported,notAlone]; rfl,iff_of_true ?_ notAlone⟩
    obtain ⟨value,inside⟩ := exists_mem_of_ne_nil _ some
    obtain ⟨y,isRow,_⟩ := (mem_flatten_iff right value).mp inside
    rw [← startRight.rows] at isRow
    rcases mem_append.mp isRow with undef | pending
    · exact ⟨y,(mem_addedPairs x y).mpr (Or.inl ⟨member,undef⟩)⟩
    · exact ⟨y,(mem_addedPairs x y).mpr (Or.inr (Or.inr (Or.inr ⟨member,pending⟩)))⟩

include startRight in
theorem correctFor_of_undefRight (some : items rightSide.undefBlocks ≠ []) (member : x ∈ leftSide.pending) :
    CorrectFor right (addedPairs leftSide rightSide) (addedOptional config left right leftSide rightSide) x := by
  have none : addedOptional config left right leftSide rightSide = [] := by
    simp [addedOptional,keptRows,optionalItems,extraRows,some]
  have notAlone : lonely right (key x) = false := (lonely_eq_false_iff startRight (key x)).mpr (Or.inl some)
  obtain ⟨y,undef⟩ := exists_mem_of_ne_nil _ some
  refine ⟨by rw [none,notAlone]; rfl,iff_of_true ⟨y,(mem_addedPairs x y).mpr (Or.inr (Or.inr (Or.inl ⟨member,undef⟩)))⟩ notAlone⟩

variable {its : List (Item κ)}

omit [OrderBot κ] in
theorem unmatched_of_beyond (larger : beyond its x = true) : unmatched its x = true := by
  simp only [beyond,all_eq_true,decide_eq_true_eq] at larger
  simp only [unmatched,Bool.not_eq_true',any_eq_false,decide_eq_true_eq]
  exact fun y member => (larger y member).ne

omit [OrderBot κ] in
theorem matched_of_doubled {lastLeft lastRight : Nat} {others : List (Item κ)}
    (twice : doubled lastLeft lastRight (key x) others its = true) : unmatched its x = false := by
  have some : fetchBlocks < (blocksWith (key x) its).card := by
    simp only [doubled,Bool.and_eq_true,decide_eq_true_eq] at twice
    exact twice.1.1.1.1.1
  obtain ⟨id,member⟩ := Finset.card_pos.mp (Nat.zero_lt_of_lt some)
  obtain ⟨y,inside,equal,_⟩ := mem_blocksWith.mp member
  simp only [unmatched,not_eq_false',any_eq_true,decide_eq_true_eq]
  exact ⟨y,inside,equal⟩

include startLeft in
theorem nodup_pending : leftSide.pending.Nodup := by
  have nodup := nodup_inputItems left
  rw [← startLeft.rows] at nodup
  exact (nodup_append.mp nodup).2.1

include startLeft in
/-- Without UNDEF rows on the right, a row has to be lonely exactly if it has no equal row, and it must neither be lost nor be
reported in spite of its partners. -/
theorem correctFor_pending (optional : config.doOptionalJoin = true) (none : items rightSide.undefBlocks = [])
    (member : x ∈ leftSide.pending) :
    CorrectFor right (addedPairs leftSide rightSide) (addedOptional config left right leftSide rightSide) x ↔
      lonely right (key x) = unmatched rightSide.pending x ∧ lost config leftSide.pending rightSide.pending x = false ∧
      doubled (left.length - 1) (right.length - 1) (key x) leftSide.pending rightSide.pending = false := by
  have nodup := nodup_pending startLeft
  have count : (addedOptional config left right leftSide rightSide).count x =
      (if unmatched rightSide.pending x && !lost config leftSide.pending rightSide.pending x then 1 else 0) +
      (if doubled (left.length - 1) (right.length - 1) (key x) leftSide.pending rightSide.pending then 1 else 0) := by
    have kept : keptRows config (items rightSide.undefBlocks) leftSide.pending rightSide.pending = leftSide.pending.filter
        (fun item => unmatched rightSide.pending item && !lost config leftSide.pending rightSide.pending item) := by
      simp [keptRows,optionalItems,optional,none,Bool.and_comm]
    have extra : extraRows config (left.length - 1) (right.length - 1) (items rightSide.undefBlocks) leftSide.pending rightSide.pending =
        leftSide.pending.filter (fun item => doubled (left.length - 1) (right.length - 1) (key item) leftSide.pending rightSide.pending) := by
      simp [extraRows,optional,none]
    rw [addedOptional,count_append,kept,extra]
    congr 1
    all_goals exact count_of_mem_iff (nodup.filter _) (by simp [member])
  have inPair : (∃ y,(x,y) ∈ addedPairs leftSide rightSide) ↔ unmatched rightSide.pending x = false := by
    have notUndef : x ∉ items leftSide.undefBlocks := fun undef => startLeft.disjoint undef member
    simp only [mem_addedPairs,notUndef,none,not_mem_nil,false_and,and_false,or_false,false_or,member,true_and,unmatched,
      not_eq_false',any_eq_true,decide_eq_true_eq]
    constructor
    all_goals
      intro found
      obtain ⟨y,inside,equal⟩ := found
      exact ⟨y,inside,equal.symm⟩
  have lostRow : lost config leftSide.pending rightSide.pending x = true → unmatched rightSide.pending x = true := by
    intro isLost
    simp only [lost,Bool.and_eq_true] at isLost
    exact unmatched_of_beyond isLost.1.2
  have twiceRow : doubled (left.length - 1) (right.length - 1) (key x) leftSide.pending rightSide.pending = true →
      unmatched rightSide.pending x = false := matched_of_doubled
  rw [CorrectFor,count,inPair]
  generalize lonely right (key x) = isLonely at *
  generalize unmatched rightSide.pending x = isUnmatched at *
  generalize lost config leftSide.pending rightSide.pending x = isLost at *
  generalize doubled (left.length - 1) (right.length - 1) (key x) leftSide.pending rightSide.pending = isDoubled at *
  cases isLonely <;> cases isUnmatched <;> cases isLost <;> cases isDoubled <;> simp_all

omit [OrderBot κ] in
theorem lost_iff (potential : config.potentiallyHasUndef = true) :
    (∀ x ∈ its,lost config its rightSide.pending x = false) ↔
      ∀ x ∈ its,∀ y ∈ its,beyond rightSide.pending x = true → beyond rightSide.pending y = true → x.1 = y.1 := by
  constructor
  · intro none x hx y hy larger larger'
    have first : ∀ z ∈ its,beyond rightSide.pending z = true →
        (its.filter (beyond rightSide.pending)).head?.all (fun first => first.1 = z.1) = true := by
      intro z hz isLarger
      have kept := none z hz
      simp only [lost,potential,isLarger,Bool.true_and] at kept
      cases head : (its.filter (beyond rightSide.pending)).head? with
      | none => rfl
      | some first => simpa [head] using kept
    have inside : x ∈ its.filter (beyond rightSide.pending) := mem_filter.mpr ⟨hx,larger⟩
    obtain ⟨z,rest,rows⟩ := exists_cons_of_ne_nil (ne_nil_of_mem inside)
    have firstX := first x hx larger
    have firstY := first y hy larger'
    rw [rows,head?_cons,Option.all_some,decide_eq_true_eq] at firstX firstY
    exact firstX.symm.trans firstY
  · intro single x hx
    cases larger : beyond rightSide.pending x with
    | false => simp [lost,larger]
    | true =>
      cases head : (its.filter (beyond rightSide.pending)).head? with
      | none => simp [lost,head]
      | some first =>
        obtain ⟨inside,isLarger⟩ := mem_filter.mp (mem_of_mem_head? head)
        simp [lost,head,single first inside x hx isLarger larger]

end Rows

section Cases
variable (startLeft : Start left leftSide) (startRight : Start right rightSide)
  (isLeft : findFirstBlockWithoutUndef undefConfig (makeJoinSide left) = leftSide)
  (isRight : findFirstBlockWithoutUndef undefConfig (makeJoinSide right) = rightSide)
include startLeft startRight isLeft isRight

section
omit startRight isLeft isRight

theorem addedPairs_left : ∀ pair ∈ addedPairs leftSide rightSide,pair.1 ∈ inputItems left := by
  intro pair member
  rw [← startLeft.rows,mem_append]
  have cases := (mem_addedPairs pair.1 pair.2).mp member
  tauto

theorem addedOptional_inputItems (config : Config κ) : addedOptional config left right leftSide rightSide ⊆ inputItems left := by
  intro item member
  rw [← startLeft.rows]
  exact mem_append_right _ (addedOptional_subset member)

end

theorem not_optionalRowsCorrect (some : StartsWithUndef left ∨ StartsWithUndef right) (someLeft : leftSide.pending ≠ [])
    (someRight : rightSide.pending ≠ []) (hidden : HiddenUndef left ∨ HiddenUndef right) : ¬ OptionalRowsCorrect left right := by
  intro correct
  obtain ⟨action,ok,_⟩ := correct
  have run := withPotentialUndef_eq true startLeft startRight isLeft isRight
  have same : ∀ element,undefConfig.isUndef element = (⟨.some (fun element => element = ⊥),true⟩ : Config κ).isUndef element := fun _ => rfl
  obtain ⟨failure,fails⟩ := undefRounds_fail same startLeft startRight someLeft someRight
    hidden (leftSide.pending.length + rightSide.pending.length) (addCartesianProduct leftSide.undefBlocks rightSide.undefBlocks {})
  rw [if_pos some,joinAfterUndefs,fails,ok] at run
  cases run

theorem reportsLonely_undefRight (some : StartsWithUndef right) :
    OptionalRowsCorrect left right ↔ (¬ HiddenUndef left ∧ ¬ HiddenUndef right) ∨ AllFound left ∨ AllFound right := by
  have undefRight : items rightSide.undefBlocks ≠ [] := fun none => startRight.items_nil_iff.mp none some
  rw [AllFound,AllFound,← startLeft.pending_nil_iff,← startRight.pending_nil_iff]
  constructor
  · intro correct
    by_contra harmful
    simp only [not_or,not_and,not_not] at harmful
    have hidden : HiddenUndef left ∨ HiddenUndef right := or_iff_not_imp_left.mpr harmful.1
    exact not_optionalRowsCorrect startLeft startRight isLeft isRight (Or.inr some) harmful.2.1 harmful.2.2 hidden correct
  · intro harmless
    obtain ⟨action,run,emits⟩ := undefRounds_emits startLeft startRight isLeft isRight true (Or.inr some) harmless
    rw [correct_iff_items run emits (addedPairs_left startLeft) (addedOptional_inputItems startLeft _)]
    intro x member
    rw [← startLeft.rows] at member
    rcases mem_append.mp member with undef | pending
    · rw [correctFor_undef startLeft startRight undef]
      obtain ⟨y,inside⟩ := exists_mem_of_ne_nil _ undefRight
      exact ne_nil_of_mem ((mem_flatten_iff right (key y)).mpr ⟨y,startRight.rows ▸ mem_append_left _ inside,rfl⟩)
    · exact correctFor_of_undefRight startRight undefRight pending

omit isLeft isRight in
theorem lonely_eq_unmatched (definedLeft : ¬ HiddenUndef left) (definedRight : ¬ HiddenUndef right) (none : items rightSide.undefBlocks = [])
    {x : Item κ} (member : x ∈ leftSide.pending) : lonely right (key x) = unmatched rightSide.pending x := by
  have compatible := compatible_eq_of_defined definedLeft definedRight startLeft startRight x member
  rw [Bool.eq_iff_iff,← not_iff_not,not_eq_true,not_eq_true,lonely_eq_false_iff startRight]
  simp only [none,ne_eq,not_true_eq_false,false_or,unmatched,not_eq_false',any_eq_true,decide_eq_true_eq]
  constructor
  · intro found
    obtain ⟨y,inside,isCompatible⟩ := found
    rw [compatible y inside,decide_eq_true_eq] at isCompatible
    exact ⟨y,inside,isCompatible.symm⟩
  · intro found
    obtain ⟨y,inside,equal⟩ := found
    exact ⟨y,inside,by rw [compatible y inside,equal,decide_eq_true_eq]⟩

omit startRight isLeft isRight in
theorem pending_eq_filter (defined : ¬ HiddenUndef left) : leftSide.pending = (inputItems left).filter (fun item => ⊥ < key item) := by
  have undefs : (items leftSide.undefBlocks).filter (fun item => decide (⊥ < key item)) = [] := by
    rw [filter_eq_nil_iff]
    intro item member
    simp [startLeft.undef_keys item member]
  have all : leftSide.pending.filter (fun item => decide (⊥ < key item)) = leftSide.pending := by
    rw [filter_eq_self]
    intro item member
    rw [decide_eq_true_eq,bot_lt_iff_ne_bot]
    exact fun undef => defined (startLeft.hidden.mp ⟨item,member,undef⟩)
  rw [← startLeft.rows,filter_append,undefs,all,nil_append]

omit isLeft isRight in
theorem doubled_pending_iff (definedLeft : ¬ HiddenUndef left) (definedRight : ¬ HiddenUndef right) (notRight : ¬ StartsWithUndef right) :
    (∀ x ∈ leftSide.pending,doubled (left.length - 1) (right.length - 1) (key x) leftSide.pending rightSide.pending = false) ↔
      ∀ value,¬ EndsWithFullBuffer value left right := by
  have above : ∀ {value : κ},⊥ < value → doubled (left.length - 1) (right.length - 1) value leftSide.pending rightSide.pending =
      doubled (left.length - 1) (right.length - 1) value (inputItems left) (inputItems right) := by
    intro value defined
    rw [pending_eq_filter startLeft definedLeft,pending_eq_filter startRight definedRight,doubled_filter defined]
  constructor
  · intro never value full
    have inRight := mem_flatten_of_numBlocksWith (Nat.zero_lt_of_lt full.1)
    obtain ⟨y,isRow,equal⟩ := (mem_flatten_iff right value).mp inRight
    rw [← startRight.rows,startRight.items_nil_iff.mpr notRight,nil_append] at isRow
    have defined : ⊥ < value := by
      rw [bot_lt_iff_ne_bot,← equal]
      exact fun undef => definedRight (startRight.hidden.mp ⟨y,isRow,undef⟩)
    obtain ⟨x,member,same⟩ := (mem_flatten_iff left value).mp (mem_flatten_of_numBlocksWith full.2.2.2.2.1)
    have pending : x ∈ leftSide.pending := by
      rw [pending_eq_filter startLeft definedLeft,mem_filter,decide_eq_true_eq,same]
      exact ⟨member,defined⟩
    have once := never x pending
    rw [same,above defined,(doubled_iff value left right).mpr full] at once
    cases once
  · intro never x member
    have defined : ⊥ < key x := by
      rw [bot_lt_iff_ne_bot]
      exact fun undef => definedLeft (startLeft.hidden.mp ⟨x,member,undef⟩)
    rw [above defined,← not_eq_true,doubled_iff]
    exact never (key x)

omit isLeft isRight in
theorem single_block_iff (some : right.flatten ≠ []) (noneRight : items rightSide.undefBlocks = []) :
    (∀ x ∈ leftSide.pending,∀ y ∈ leftSide.pending,beyond rightSide.pending x = true → beyond rightSide.pending y = true → x.1 = y.1) ↔
      ∀ i j,LargerAt left right i → LargerAt left right j → i = j := by
  have rowsRight : rightSide.pending = inputItems right := by rw [← startRight.rows,noneRight,nil_append]
  have larger : ∀ value : κ,(∀ other ∈ right.flatten,other < value) ↔ ∀ y ∈ rightSide.pending,key y < value := by
    intro value
    rw [rowsRight,← map_key_inputItems]
    exact forall_mem_map
  -- A value larger than some row is defined, so that its row is pending.
  have item : ∀ i,LargerAt left right i ↔ ∃ x ∈ leftSide.pending,beyond rightSide.pending x = true ∧ x.1 = i := by
    intro i
    simp only [beyond,all_eq_true,decide_eq_true_eq]
    constructor
    · intro found
      obtain ⟨block,present,element,inside,isLarger⟩ := found
      obtain ⟨x,isRow,same,id⟩ := mem_blocksWith.mp ((mem_blocksWith_inputItems element left i).mpr ⟨block,present,inside⟩)
      refine ⟨x,?_,?_,id⟩
      · rw [← startLeft.rows] at isRow
        rcases mem_append.mp isRow with undef | pending
        · obtain ⟨other,member⟩ := exists_mem_of_ne_nil _ some
          have impossible := isLarger other member
          rw [← same,startLeft.undef_keys x undef] at impossible
          exact absurd impossible not_lt_bot
        · exact pending
      · rw [same]
        exact (larger element).mp isLarger
    · intro found
      obtain ⟨x,pending,isLarger,rfl⟩ := found
      have isRow : x ∈ inputItems left := startLeft.rows ▸ mem_append_right _ pending
      obtain ⟨block,present,inside⟩ := (mem_blocksWith_inputItems (key x) left x.1).mp (mem_blocksWith.mpr ⟨x,isRow,rfl,rfl⟩)
      exact ⟨block,present,key x,inside,(larger (key x)).mpr isLarger⟩
  simp only [item]
  constructor
  · intro single i j found found'
    obtain ⟨x,hx,isLarger,rfl⟩ := found
    obtain ⟨y,hy,isLarger',rfl⟩ := found'
    exact single x hx y hy isLarger isLarger'
  · intro single x hx y hy isLarger isLarger'
    exact single x.1 y.1 ⟨x,hx,isLarger,rfl⟩ ⟨y,hy,isLarger',rfl⟩

theorem reportsLonely_undefLeft (notRight : ¬ StartsWithUndef right) (someUndef : StartsWithUndef left) :
    OptionalRowsCorrect left right ↔ right.flatten ≠ [] ∧ (AllFound left ∨ (¬ HiddenUndef left ∧ ¬ HiddenUndef right ∧
      (∀ value,¬ EndsWithFullBuffer value left right) ∧ ∀ i j,LargerAt left right i → LargerAt left right j → i = j)) := by
  have noneRight : items rightSide.undefBlocks = [] := startRight.items_nil_iff.mpr notRight
  have undefLeft : items leftSide.undefBlocks ≠ [] := fun none => startLeft.items_nil_iff.mp none someUndef
  obtain ⟨first,isUndef⟩ := exists_mem_of_ne_nil _ undefLeft
  have rowsRight : inputItems right = rightSide.pending := by rw [← startRight.rows,noneRight,nil_append]
  have emptyRight : rightSide.pending = [] ↔ right.flatten = [] := by
    rw [← rowsRight,← map_key_inputItems,map_eq_nil_iff]
  have whole : ∀ harmless : (¬ HiddenUndef left ∧ ¬ HiddenUndef right) ∨ leftSide.pending = [] ∨ rightSide.pending = [],
      (OptionalRowsCorrect left right ↔ right.flatten ≠ [] ∧ ∀ x ∈ leftSide.pending,CorrectFor right (addedPairs leftSide rightSide)
        (addedOptional ⟨.some (fun element => element = ⊥),true⟩ left right leftSide rightSide) x) := by
    intro harmless
    obtain ⟨action,run,emits⟩ := undefRounds_emits startLeft startRight isLeft isRight true (Or.inl someUndef) harmless
    rw [correct_iff_items run emits (addedPairs_left startLeft) (addedOptional_inputItems startLeft _),← startLeft.rows]
    constructor
    · intro correct
      refine ⟨?_,fun x member => correct x (mem_append_right _ member)⟩
      exact (correctFor_undef startLeft startRight isUndef).mp (correct first (mem_append_left _ isUndef))
    · intro correct x member
      rcases mem_append.mp member with undef | pending
      · exact (correctFor_undef startLeft startRight undef).mpr correct.1
      · exact correct.2 x pending
  rw [AllFound,← startLeft.pending_nil_iff]
  by_cases noneLeft : leftSide.pending = []
  · rw [whole (Or.inr (Or.inl noneLeft))]
    simp [noneLeft]
  by_cases none : rightSide.pending = []
  · rw [whole (Or.inr (Or.inr none))]
    simp [emptyRight.mp none]
  by_cases hidden : HiddenUndef left ∨ HiddenUndef right
  · apply iff_of_false (not_optionalRowsCorrect startLeft startRight isLeft isRight (Or.inl someUndef) noneLeft none hidden)
    intro condition
    rcases condition.2 with nil | found
    · exact noneLeft nil
    · exact hidden.elim found.1 found.2.1
  · rw [not_or] at hidden
    have some : right.flatten ≠ [] := fun nil => none (emptyRight.mpr nil)
    let config : Config κ := ⟨.some (fun element => element = ⊥),true⟩
    have rows : (∀ x ∈ leftSide.pending,CorrectFor right (addedPairs leftSide rightSide) (addedOptional config left right leftSide rightSide) x) ↔
        (∀ x ∈ leftSide.pending,lost config leftSide.pending rightSide.pending x = false) ∧
        ∀ x ∈ leftSide.pending,doubled (left.length - 1) (right.length - 1) (key x) leftSide.pending rightSide.pending = false := by
      rw [← forall₂_and]
      apply forall₂_congr
      intro x member
      rw [correctFor_pending startLeft rfl noneRight member]
      exact and_iff_right (lonely_eq_unmatched startLeft startRight hidden.1 hidden.2 noneRight member)
    rw [whole (Or.inl hidden),rows,lost_iff rfl,single_block_iff startLeft startRight some noneRight,
      doubled_pending_iff startLeft startRight hidden.1 hidden.2 notRight]
    simp [noneLeft,hidden,and_comm]

theorem reportsLonely_none (notLeft : ¬ StartsWithUndef left) (notRight : ¬ StartsWithUndef right) :
    OptionalRowsCorrect left right ↔ (∀ value,¬ EndsWithFullBuffer value left right) ∧
      ∀ value ∈ left.flatten,∀ other ∈ right.flatten,undefCompatible value other = true → value ∈ right.flatten := by
  have noneRight : items rightSide.undefBlocks = [] := startRight.items_nil_iff.mpr notRight
  have rowsLeft : leftSide.pending = inputItems left := by rw [← startLeft.rows,startLeft.items_nil_iff.mpr notLeft,nil_append]
  have rowsRight : rightSide.pending = inputItems right := by rw [← startRight.rows,noneRight,nil_append]
  obtain ⟨action,run,emits⟩ := alwaysFalse_emits startLeft startRight isLeft isRight true notLeft notRight
  have single : ∀ x ∈ inputItems left,CorrectFor right (addedPairs leftSide rightSide)
      (addedOptional ⟨none,true⟩ left right leftSide rightSide) x ↔
      (∀ other ∈ right.flatten,undefCompatible (key x) other = true → key x ∈ right.flatten) ∧ ¬ EndsWithFullBuffer (key x) left right := by
    intro x member
    have agrees : lonely right (key x) = unmatched rightSide.pending x ↔
        ∀ other ∈ right.flatten,undefCompatible (key x) other = true → key x ∈ right.flatten := by
      have matched : unmatched rightSide.pending x = false ↔ key x ∈ right.flatten := by
        simp only [unmatched,not_eq_false',any_eq_true,decide_eq_true_eq,mem_flatten_iff,rowsRight]
      have compatible : lonely right (key x) = false ↔ ∃ other ∈ right.flatten,undefCompatible (key x) other = true := by
        simp only [lonely,all_eq_false,not_eq_true,not_eq_false']
      have same : lonely right (key x) = unmatched rightSide.pending x ↔ (lonely right (key x) = false ↔ unmatched rightSide.pending x = false) := by
        cases lonely right (key x) <;> cases unmatched rightSide.pending x <;> simp
      rw [same,compatible,matched]
      constructor
      · intro same other inside isCompatible
        exact same.mp ⟨other,inside,isCompatible⟩
      · intro all
        constructor
        · intro found
          obtain ⟨other,inside,isCompatible⟩ := found
          exact all other inside isCompatible
        · intro equal
          exact ⟨key x,equal,by simp [undefCompatible]⟩
    rw [correctFor_pending startLeft rfl noneRight (rowsLeft ▸ member),agrees,rowsLeft,rowsRight,← not_eq_true (doubled _ _ _ _ _),doubled_iff]
    simp [lost,Config.potentiallyHasUndef]
  rw [correct_iff_items run emits (addedPairs_left startLeft) (addedOptional_inputItems startLeft _)]
  constructor
  · intro correct
    refine ⟨?_,?_⟩
    · intro value full
      obtain ⟨x,member,rfl⟩ := (mem_flatten_iff left value).mp (mem_flatten_of_numBlocksWith full.2.2.2.2.1)
      exact ((single x member).mp (correct x member)).2 full
    · intro value inside
      obtain ⟨x,member,rfl⟩ := (mem_flatten_iff left value).mp inside
      exact ((single x member).mp (correct x member)).1
  · intro condition x member
    exact (single x member).mpr ⟨condition.2 (key x) ((mem_flatten_iff left (key x)).mpr ⟨x,member,rfl⟩),condition.1 (key x)⟩

end Cases

theorem optionalRows_correct_iff (left right : List (List κ)) (sortedLeft : left.flatten.Pairwise (· ≤ ·))
    (sortedRight : right.flatten.Pairwise (· ≤ ·)) : OptionalRowsCorrect left right ↔ ReportsLonely left right := by
  have startLeft := findFirstBlockWithoutUndef_start sortedLeft
  have startRight := findFirstBlockWithoutUndef_start sortedRight
  unfold ReportsLonely
  split
  next undefRight => exact reportsLonely_undefRight startLeft startRight rfl rfl undefRight
  next notRight =>
    split
    next undefLeft => exact reportsLonely_undefLeft startLeft startRight rfl rfl notRight undefLeft
    next notLeft => exact reportsLonely_none startLeft startRight rfl rfl notLeft notRight

/-- The UNDEF row is lonely, but it is not reported. -/
theorem optionalRows_not_correct : ¬ OptionalRowsCorrect (κ := Nat) [[0,1]] [] := by
  have run : zipperJoinForBlocksWithPotentialUndef true ([[0,1]] : List (List Nat)) [] = .ok ⟨0,0,[],[(0,1)]⟩ := by rfl
  intro correct
  obtain ⟨action,ok,optional,_⟩ := correct
  rw [run] at ok
  cases ok
  exact absurd (optional (0,0)) (by decide)

theorem optionalRows_correct_iff_someRows :
    OptionalRowsCorrect (κ := Nat) [[0],[1,2]] [[1],[3]] ↔ ReportsLonely (κ := Nat) [[0],[1,2]] [[1],[3]] :=
  optionalRows_correct_iff [[0],[1,2]] [[1],[3]] (by decide) (by decide)

end Qlever.BlockZipperJoin
