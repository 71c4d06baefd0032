import Qlever.BlockZipperFill

/-! The rows that a round of the block zipper adds, and the sides after the round. -/
namespace Qlever.BlockZipperJoin
open ZipperJoin Library List
variable {κ : Type} [LinearOrder κ]

def JoinSide.lessItems (side : JoinSide κ) (currentEl : κ) : List (Item κ) :=
  side.pending.filter (fun item => key item < currentEl)

section Less
variable {config : Config κ} {currentEl : κ} {side side' : JoinSide κ} {all : Bool} {front : BlockAndSubrange κ}

theorem Fillable.ready {later : List (BlockAndSubrange κ)} (fillable : Fillable currentEl side)
    (current : side.currentBlocks = front::later) (reaches : ∃ element ∈ front.elements,currentEl ≤ element)
    (done : all = true → ∀ item ∈ rest side.it,currentEl < key item) (more : all = false → side.it ≠ []) :
    (front.before (fun element => element < currentEl)).items = side.lessItems currentEl ∧
    Ready currentEl {side with currentBlocks := front.after (fun element => element < currentEl)::later} all ∧
    JoinSide.pending {side with currentBlocks := front.after (fun element => element < currentEl)::later} =
      side.pending.filter (fun item => currentEl ≤ key item) := by
  have sorted := fillable.sorted
  rw [JoinSide.pending,current,items_cons,append_assoc] at sorted
  obtain ⟨below,above⟩ := items_cutAt front (fun element => element < currentEl)
    (closed_lt id currentEl (SortedItems.elements sorted.left))
  obtain ⟨element,present,atLeast⟩ := reaches
  obtain ⟨first,inside,equal⟩ := exists_item front present
  have least : ∀ item ∈ items later ++ rest side.it,currentEl ≤ key item := by
    intro item member
    exact (equal ▸ atLeast).trans (sorted.le inside member)
  have aboveItems : (front.after (fun element => element < currentEl)).items = front.items.filter (fun item => currentEl ≤ key item) := by
    rw [above]
    apply filter_congr
    intro item _
    simp [← not_lt]
  have pending : JoinSide.pending {side with currentBlocks := front.after (fun element => element < currentEl)::later} =
      side.pending.filter (fun item => currentEl ≤ key item) := by
    have all : (items later ++ rest side.it).filter (fun item => decide (currentEl ≤ key item)) = items later ++ rest side.it := by
      rw [filter_eq_self]
      intro item member
      simpa using least item member
    rw [JoinSide.pending,JoinSide.pending,items_cons,current,items_cons,append_assoc,append_assoc,
      filter_append,all,aboveItems]
  refine ⟨?_,⟨⟨?_,?_,?_,?_⟩,?_,fillable.least,done,more⟩,pending⟩
  · have none : (items later ++ rest side.it).filter (fun item => decide (key item < currentEl)) = [] := by
      rw [filter_eq_nil_iff]
      intro item member
      simpa using least item member
    rw [below,JoinSide.lessItems,JoinSide.pending,current,items_cons,append_assoc,filter_append,none,append_nil]
  · intro block member
    rcases mem_cons.mp member with rfl | old
    · intro nil
      have member : first ∈ (front.after (fun element => element < currentEl)).items := by
        rw [aboveItems,mem_filter]
        exact ⟨inside,by simpa [equal] using atLeast⟩
      have keyMember := key_mem member
      rw [nil] at keyMember
      simp at keyMember
    · exact fillable.nonempty block (by simp [current,old])
  · have whole : SortedItems (side.pending.filter (fun item => currentEl ≤ key item)) :=
      fillable.sorted.sublist filter_sublist
    rw [← pending] at whole
    exact whole.left
  · intro item member
    have inPending : item ∈ side.pending.filter (fun item => currentEl ≤ key item) := by
      rw [← pending]
      exact mem_append_left _ member
    simpa using (mem_filter.mp inPending).2
  · intro block member
    exact fillable.later block (by simpa [current] using member)
  · rw [pending]
    exact fillable.sorted.sublist filter_sublist

omit [LinearOrder κ] in
theorem front_defined (nonempty : front.elements ≠ [])
    (defined : ∀ element ∈ front.elements,config.isUndef element = false) :
    front.elements.head?.all config.isUndef = false := by
  obtain ⟨first,tail,elements⟩ := exists_cons_of_ne_nil nonempty
  rw [elements]
  simpa using defined first (by simp [elements])

theorem joinAndRemoveLessThanCurrentEl_spec (currentEl : κ) (lawful : config.Lawful) (impl : Impl κ)
    (undefsLeft : Undefs config impl.leftSide.undefBlocks) (undefsRight : Undefs config impl.rightSide.undefBlocks)
    {left right : BlockAndSubrange κ} {laterLeft laterRight : List (BlockAndSubrange κ)}
    (currentLeft : impl.leftSide.currentBlocks = left::laterLeft) (currentRight : impl.rightSide.currentBlocks = right::laterRight)
    (sortedLeft : left.elements.Pairwise (· ≤ ·)) (sortedRight : right.elements.Pairwise (· ≤ ·))
    (nonemptyLeft : left.elements ≠ []) (nonemptyRight : right.elements ≠ [])
    (definedLeft : ∀ element ∈ left.elements,config.isUndef element = false)
    (definedRight : ∀ element ∈ right.elements,config.isUndef element = false) :
    ∃ action,joinAndRemoveLessThanCurrentEl config currentEl impl =
        .ok ⟨{impl.leftSide with currentBlocks := left.after (fun element => element < currentEl)::laterLeft},
          {impl.rightSide with currentBlocks := right.after (fun element => element < currentEl)::laterRight},action⟩ ∧
      Emits impl.compatibleRowAction action (joined (items impl.leftSide.undefBlocks) (items impl.rightSide.undefBlocks)
          (left.before (fun element => element < currentEl)).items (right.before (fun element => element < currentEl)).items)
        (optionalItems config.doOptionalJoin (items impl.rightSide.undefBlocks)
          (left.before (fun element => element < currentEl)).items (right.before (fun element => element < currentEl)).items) ∧
      InOrder impl.compatibleRowAction action (joined (items impl.leftSide.undefBlocks) (items impl.rightSide.undefBlocks)
          (left.before (fun element => element < currentEl)).items (right.before (fun element => element < currentEl)).items) := by
  obtain ⟨action,run,emits⟩ := zipper_emits lawful undefsLeft undefsRight (left.before (fun element => element < currentEl))
    (right.before (fun element => element < currentEl)) (sortedLeft.sublist (takeWhile_sublist _))
    (sortedRight.sublist (takeWhile_sublist _)) (fun element member => definedLeft element ((takeWhile_sublist _).subset member))
    (fun element member => definedRight element ((takeWhile_sublist _).subset member)) impl.compatibleRowAction
  refine ⟨action,?_,emits⟩
  simp only [BlockAndSubrange.before,BlockAndSubrange.subrange] at run
  simp only [joinAndRemoveLessThanCurrentEl,currentLeft,currentRight,front_defined nonemptyLeft definedLeft,
    front_defined nonemptyRight definedRight,check,run,Bool.not_false,if_true,bind,Except.bind,pure,Except.pure]
  rfl

end Less

section Split
variable (undefLeft undefRight : List (Item κ)) {left left' right right' : List (Item κ)}

theorem joined_split (apart : ∀ x ∈ left,∀ y ∈ right',key x ≠ key y) (apart' : ∀ x ∈ left',∀ y ∈ right,key x ≠ key y) :
    (joined undefLeft undefRight (left ++ left') (right ++ right')).Perm
      (joined undefLeft undefRight left right ++ joined undefLeft undefRight left' right') := by
  have none : equalPairs left right' = [] := nestedLoop_false _ _ _ (fun x hx y hy => by simpa using apart x hx y hy)
  have none' : equalPairs left' right = [] := nestedLoop_false _ _ _ (fun x hx y hy => by simpa using apart' x hx y hy)
  have first : (equalPairs (left ++ left') (right ++ right')).Perm (equalPairs left right ++ equalPairs left' right') := by
    have sides : equalPairs (left ++ left') (right ++ right') = equalPairs left (right ++ right') ++ equalPairs left' (right ++ right') :=
      nestedLoop_append_left _ _ _ _
    rw [sides]
    apply ((nestedLoop_append_right _ left right right').append (nestedLoop_append_right _ left' right right')).trans
    change ((equalPairs left right ++ equalPairs left right') ++ (equalPairs left' right ++ equalPairs left' right')).Perm _
    rw [none,none',append_nil,nil_append]
  have second : product (left ++ left') undefRight = product left undefRight ++ product left' undefRight :=
    nestedLoop_append_left _ _ _ _
  have third : (product undefLeft (right ++ right')).Perm (product undefLeft right ++ product undefLeft right') :=
    nestedLoop_append_right _ _ _ _
  rw [joined,second]
  apply ((first.append_right _).append third).trans
  classical
  rw [perm_iff_count]
  intro pair
  simp only [joined,count_append]
  omega

theorem unmatched_append (item : Item κ) : unmatched (right ++ right') item = (unmatched right item && unmatched right' item) := by
  simp [unmatched,any_append]

theorem unmatched_of_apart {item : Item κ} (apart : ∀ y ∈ right,key item ≠ key y) : unmatched right item = true := by
  simp only [unmatched,Bool.not_eq_true',any_eq_false,decide_eq_true_eq]
  exact fun y member same => apart y member same.symm

theorem optionalItems_split (doOptionalJoin : Bool) (apart : ∀ x ∈ left,∀ y ∈ right',key x ≠ key y)
    (apart' : ∀ x ∈ left',∀ y ∈ right,key x ≠ key y) :
    optionalItems doOptionalJoin undefRight (left ++ left') (right ++ right') =
      optionalItems doOptionalJoin undefRight left right ++ optionalItems doOptionalJoin undefRight left' right' := by
  have first : left.filter (unmatched (right ++ right')) = left.filter (unmatched right) := by
    apply filter_congr
    intro item member
    rw [unmatched_append,unmatched_of_apart (apart item member),Bool.and_true]
  have second : left'.filter (unmatched (right ++ right')) = left'.filter (unmatched right') := by
    apply filter_congr
    intro item member
    rw [unmatched_append,unmatched_of_apart (apart' item member),Bool.true_and]
  rw [optionalItems,optionalItems,optionalItems,filter_append,first,second]
  split <;> simp

end Split

section Round
variable {config : Config κ}

/-- The rows of `left` for which a round adds a second, optional row. -/
def extraItems (config : Config κ) (currentEl : κ) (left right : JoinSide κ) : List (Item κ) :=
  if config.doOptionalJoin && (items right.undefBlocks).isEmpty && (incomplete (numEqual currentEl left.it)
      (endsEqual currentEl left.it) (numEqual currentEl right.it) (endsEqual currentEl right.it) && spills currentEl right.pending)
  then left.equalItems currentEl else []

structure RoundDone (config : Config κ) (currentEl : κ) (impl impl' : Impl κ) : Prop where
  emits : Emits impl.compatibleRowAction impl'.compatibleRowAction
    (joined (items impl.leftSide.undefBlocks) (items impl.rightSide.undefBlocks) (impl.leftSide.lessItems currentEl)
        (impl.rightSide.lessItems currentEl) ++
      joined (items impl.leftSide.undefBlocks) (items impl.rightSide.undefBlocks) (impl.leftSide.equalItems currentEl)
        (impl.rightSide.equalItems currentEl))
    (optionalItems config.doOptionalJoin (items impl.rightSide.undefBlocks) (impl.leftSide.lessItems currentEl)
        (impl.rightSide.lessItems currentEl) ++
      (optionalItems config.doOptionalJoin (items impl.rightSide.undefBlocks) (impl.leftSide.equalItems currentEl)
        (impl.rightSide.equalItems currentEl) ++ extraItems config currentEl impl.leftSide impl.rightSide))
  inOrder : InOrder impl.compatibleRowAction impl'.compatibleRowAction
    (joined (items impl.leftSide.undefBlocks) (items impl.rightSide.undefBlocks) (impl.leftSide.lessItems currentEl)
        (impl.rightSide.lessItems currentEl) ++
      joined (items impl.leftSide.undefBlocks) (items impl.rightSide.undefBlocks) (impl.leftSide.equalItems currentEl)
        (impl.rightSide.equalItems currentEl))
  left : Cleared currentEl impl.leftSide impl'.leftSide
  right : Cleared currentEl impl.rightSide impl'.rightSide

structure Front (side : JoinSide κ) (front : BlockAndSubrange κ) (last : κ) : Prop where
  current : side.currentBlocks = [front]
  nonempty : front.elements ≠ []
  getLast : front.elements.getLast? = some last

theorem SideInv.front {side : JoinSide κ} (inv : SideInv config side) (some : side.currentBlocks ≠ []) :
    ∃ front last,Front side front last := by
  obtain ⟨front,later,current⟩ := exists_cons_of_ne_nil some
  have length := inv.length
  rw [current,length_cons] at length
  have nil : later = [] := length_eq_zero_iff.mp (by omega)
  subst nil
  have nonempty := inv.nonempty front (by simp [current])
  exact ⟨front,_,current,nonempty,getLast?_eq_some_getLast nonempty⟩

variable {side side' : JoinSide κ} {front : BlockAndSubrange κ} {last currentEl : κ} {all : Bool}

omit [LinearOrder κ] in
theorem Front.mem (isFront : Front side front last) : last ∈ front.elements := mem_of_getLast? isFront.getLast

theorem Front.fillable (isFront : Front side front last) (inv : SideInv config side) (atMost : currentEl ≤ last) :
    Fillable currentEl side where
  sorted := inv.sorted
  least item member := by
    obtain ⟨other,inside,equal⟩ := exists_item front isFront.mem
    have sorted := inv.sorted
    rw [JoinSide.pending] at sorted
    apply atMost.trans
    rw [← equal]
    exact sorted.le (by simp [isFront.current,inside]) member
  nonempty := inv.nonempty
  later := by simp [isFront.current]
  some := by simp [isFront.current]

theorem Front.sorted (isFront : Front side front last) (inv : SideInv config side) : front.elements.Pairwise (· ≤ ·) := by
  have sorted := inv.sorted
  rw [JoinSide.pending,isFront.current,items_cons,append_assoc] at sorted
  exact SortedItems.elements sorted.left

omit [LinearOrder κ] in
theorem Front.key_mem (isFront : Front side front last) {element : κ} (member : element ∈ front.elements) :
    element ∈ side.pending.map key := by
  obtain ⟨item,inside,rfl⟩ := exists_item front member
  apply mem_map_of_mem
  simp [JoinSide.pending,isFront.current,inside]

theorem Front.defined (isFront : Front side front last) (inv : SideInv config side) :
    ∀ element ∈ front.elements,config.isUndef element = false := by
  intro element member
  obtain ⟨item,inside,rfl⟩ := List.mem_map.mp (isFront.key_mem member)
  exact inv.defined item inside

variable {later : List (BlockAndSubrange κ)}

omit [LinearOrder κ] in
theorem advanced_after (current : side.currentBlocks = front::later) (p : κ → Bool) :
    Advanced side {side with currentBlocks := front.after p::later} where
  undefBlocks := rfl
  suffix := suffix_rfl
  ids := by simp [JoinSide.ids,current,BlockAndSubrange.after]

theorem FilledSide.current_eq (filled : FilledSide currentEl side side' all) (isFront : Front side front last) :
    ∃ later,side'.currentBlocks = front::later := by
  obtain ⟨later,current⟩ := filled.current
  exact ⟨later,by rw [← current,isFront.current]; rfl⟩

omit [LinearOrder κ] in
theorem getFirst_eq (current : side.currentBlocks = front::later)
    (getLast : front.elements.getLast? = some last) : side.getFirst = .ok last := by
  simp [JoinSide.getFirst,current,BlockAndSubrange.back,getLast]

theorem FilledSide.loopSide (filled : FilledSide currentEl side side' all)
    (current : side'.currentBlocks = front::later) (ready : Ready currentEl
      {side' with currentBlocks := front.after (fun element => element < currentEl)::later} all) (missing : all = false) :
    Missing currentEl {side' with currentBlocks := front.after (fun element => element < currentEl)::later} := by
  subst missing
  obtain ⟨_,item,member,equal⟩ := filled.more rfl
  rw [current,tail_cons] at member
  refine ⟨ready,ready.chunk.heads ?_ equal,by simp⟩
  simp [member]

theorem filter_unmatched_equal (left right : JoinSide κ) (currentEl : κ) :
    (left.equalItems currentEl).filter (unmatched (right.equalItems currentEl)) =
      if (right.equalItems currentEl).isEmpty then left.equalItems currentEl else [] := by
  cases items : right.equalItems currentEl with
  | nil => simp [unmatched]
  | cons item later =>
    have equal := equalItems_key right currentEl item (by simp [items])
    rw [if_neg (by simp),filter_eq_nil_iff]
    intro other member
    simp [unmatched,equal,equalItems_key left currentEl other member]

theorem Missing.equalItems_isEmpty (missing : Missing currentEl side) : (side.equalItems currentEl).isEmpty = false := by
  obtain ⟨item,member,equal⟩ := missing.exists_item
  have inside : item ∈ side.equalItems currentEl := by
    rw [JoinSide.equalItems,mem_filter]
    exact ⟨mem_append_left _ member,by simpa using equal⟩
  simpa using ne_nil_of_mem inside

theorem optionalEqual_eq {status : BlockStatus} {left right : JoinSide κ} (state : LoopState currentEl status left right)
    (some : right.currentBlocks ≠ []) :
    (optionalEqual config currentEl status left right).Perm
      (optionalItems config.doOptionalJoin (items right.undefBlocks) (left.equalItems currentEl) (right.equalItems currentEl) ++
        if config.doOptionalJoin && (items right.undefBlocks).isEmpty && (decide (status = .rightMissing) && spillsLater currentEl right)
        then left.equalItems currentEl else []) := by
  have notEmpty : right.currentBlocks.isEmpty = false := by simpa using some
  rw [optionalItems,filter_unmatched_equal]
  cases on : (config.doOptionalJoin && (items right.undefBlocks).isEmpty) with
  | false => cases status <;> simp [optionalEqual,on]
  | true =>
    cases status with
    | rightMissing => simp [optionalEqual,on,state.2.2.equalItems_isEmpty]
    | leftMissing | allFilled => simp [optionalEqual,on,notEmpty]

theorem spills_filter {keeps : Item κ → Bool} (kept : ∀ item,currentEl ≤ key item → keeps item) (its : List (Item κ)) :
    spills currentEl (its.filter keeps) = spills currentEl its := by
  rw [Bool.eq_iff_iff,spills_iff,spills_iff]
  simp only [mem_filter]
  constructor
  · rintro ⟨x,hx,y,hy,rest⟩
    exact ⟨x,hx.1,y,hy.1,rest⟩
  · rintro ⟨x,hx,y,hy,equal,less,same⟩
    exact ⟨x,⟨hx,kept x equal.ge⟩,y,⟨hy,kept y less.le⟩,equal,less,same⟩

section
variable (pending : side'.pending = side.pending.filter (fun item => currentEl ≤ key item))
include pending

theorem equalItems_of_pending :
    side'.equalItems currentEl = side.equalItems currentEl := by
  rw [JoinSide.equalItems,JoinSide.equalItems,pending,filter_filter]
  apply filter_congr
  intro item _
  rw [Bool.eq_iff_iff]
  simp only [Bool.and_eq_true,decide_eq_true_eq,and_iff_left_iff_imp]
  exact fun equal => equal.ge

theorem Cleared.of_pending
    (advanced : Advanced side side') {side'' : JoinSide κ} (cleared : Cleared currentEl side' side'') : Cleared currentEl side side'' where
  pending := by
    rw [cleared.pending,pending,filter_filter]
    apply filter_congr
    intro item _
    rw [Bool.eq_iff_iff]
    simp only [Bool.and_eq_true,decide_eq_true_eq,and_iff_left_iff_imp]
    exact le_of_lt
  length := cleared.length
  nonempty := cleared.nonempty
  advanced := advanced.trans cleared.advanced

end

theorem round_spec (lawful : config.Lawful) (impl : Impl κ) (invLeft : SideInv config impl.leftSide)
    (invRight : SideInv config impl.rightSide) (someLeft : impl.leftSide.currentBlocks ≠ [])
    (someRight : impl.rightSide.currentBlocks ≠ []) :
    ∃ currentEl impl₁ status impl₂,getCurrentEl impl = .ok currentEl ∧
      fillEqualToCurrentElBothSides currentEl (impl.leftSide.it.length + impl.rightSide.it.length + 1) impl = .ok (impl₁,status) ∧
      impl₁.leftSide.currentBlocks ≠ [] ∧ impl₁.rightSide.currentBlocks ≠ [] ∧ joinBuffers config status impl₁ = .ok impl₂ ∧
      RoundDone config currentEl impl impl₂ ∧
      (currentEl ∈ impl.leftSide.pending.map key ∨ currentEl ∈ impl.rightSide.pending.map key) := by
  obtain ⟨left,lastLeft,frontLeft⟩ := invLeft.front someLeft
  obtain ⟨right,lastRight,frontRight⟩ := invRight.front someRight
  have current : getCurrentEl impl = .ok (min lastLeft lastRight) := by
    simp [getCurrentEl,getFirst_eq frontLeft.current frontLeft.getLast,getFirst_eq frontRight.current frontRight.getLast,
      bind,Except.bind,pure,Except.pure]
  have fillableLeft := frontLeft.fillable invLeft (min_le_left lastLeft lastRight)
  have fillableRight := frontRight.fillable invRight (min_le_right lastLeft lastRight)
  generalize minimum : min lastLeft lastRight = currentEl at current fillableLeft fillableRight
  obtain ⟨impl₁,status,fill,filled⟩ := fillEqualToCurrentElBothSides_spec impl fillableLeft fillableRight _ (Nat.lt_succ_self _)
  obtain ⟨laterLeft,currentLeft⟩ := filled.left.current_eq frontLeft
  obtain ⟨laterRight,currentRight⟩ := filled.right.current_eq frontRight
  have inElements : currentEl ∈ left.elements ∨ currentEl ∈ right.elements := by
    rcases min_choice lastLeft lastRight with same | same
    · exact Or.inl (minimum ▸ same.symm ▸ frontLeft.mem)
    · exact Or.inr (minimum ▸ same.symm ▸ frontRight.mem)
  have reachesLeft : ∃ element ∈ left.elements,currentEl ≤ element := ⟨lastLeft,frontLeft.mem,minimum ▸ min_le_left _ _⟩
  have reachesRight : ∃ element ∈ right.elements,currentEl ≤ element := ⟨lastRight,frontRight.mem,minimum ▸ min_le_right _ _⟩
  obtain ⟨lessLeft,readyLeft,pendingLeft⟩ := filled.left.fillable.ready currentLeft reachesLeft filled.left.done
    (fun no => (filled.left.more no).1)
  obtain ⟨lessRight,readyRight,pendingRight⟩ := filled.right.fillable.ready currentRight reachesRight filled.right.done
    (fun no => (filled.right.more no).1)
  rw [filled.left.pending] at pendingLeft
  rw [filled.right.pending] at pendingRight
  have undefsLeft : Undefs config impl₁.leftSide.undefBlocks := by
    rw [filled.left.advanced.undefBlocks]
    exact invLeft.undefs
  have undefsRight : Undefs config impl₁.rightSide.undefBlocks := by
    rw [filled.right.advanced.undefBlocks]
    exact invRight.undefs
  obtain ⟨action,runLess,emitsLess,inOrderLess⟩ := joinAndRemoveLessThanCurrentEl_spec currentEl lawful impl₁ undefsLeft undefsRight currentLeft currentRight
    (frontLeft.sorted invLeft) (frontRight.sorted invRight) frontLeft.nonempty frontRight.nonempty
    (frontLeft.defined invLeft) (frontRight.defined invRight)
  have advancedLeft := filled.left.advanced.trans (advanced_after currentLeft (fun element => element < currentEl))
  have advancedRight := filled.right.advanced.trans (advanced_after currentRight (fun element => element < currentEl))
  have state : LoopState currentEl status
      {impl₁.leftSide with currentBlocks := left.after (fun element => element < currentEl)::laterLeft}
      {impl₁.rightSide with currentBlocks := right.after (fun element => element < currentEl)::laterRight} := by
    cases status with
    | allFilled => exact ⟨readyLeft,readyRight⟩
    | rightMissing => exact ⟨readyLeft,by simp,filled.right.loopSide currentRight readyRight rfl⟩
    | leftMissing => exact ⟨filled.left.loopSide currentLeft readyLeft rfl,readyRight,by simp⟩
  obtain ⟨impl₂,runEqual,joinedEqual⟩ := joinEqual_spec
    ⟨{impl₁.leftSide with currentBlocks := left.after (fun element => element < currentEl)::laterLeft},
      {impl₁.rightSide with currentBlocks := right.after (fun element => element < currentEl)::laterRight},action⟩
    status undefsRight (invRight.ids.sublist advancedRight.ids) state
    (impl₁.leftSide.it.length + impl₁.rightSide.it.length + 2) (by simp only; split <;> omega)
  have lessEqual : ∀ {side side' : JoinSide κ},side'.pending = side.pending → side'.lessItems currentEl = side.lessItems currentEl := by
    intro side side' same
    rw [JoinSide.lessItems,same,JoinSide.lessItems]
  refine ⟨currentEl,impl₁,status,impl₂,current,fill,by simp [currentLeft],by simp [currentRight],?_,⟨?_,?_,?_,?_⟩,?_⟩
  · have again : getCurrentEl impl₁ = .ok currentEl := by
      simp [getCurrentEl,getFirst_eq currentLeft frontLeft.getLast,getFirst_eq currentRight frontRight.getLast,minimum,
        bind,Except.bind,pure,Except.pure]
    simp only [joinBuffers,again,runLess,bind,Except.bind]
    exact runEqual
  · have emits := emitsLess.trans (joinedEqual.emits.perm (List.Perm.refl _) (optionalEqual_eq state (by simp)))
    rw [equalItems_of_pending pendingLeft,equalItems_of_pending pendingRight,spillsLater,pendingRight,spills_filter (by simp),
      lessLeft,lessRight,lessEqual filled.left.pending,lessEqual filled.right.pending,filled.action] at emits
    simp only [filled.left.advanced.undefBlocks,filled.right.advanced.undefBlocks] at emits
    rw [extraItems,← filled.last]
    simpa only [Bool.and_assoc] using emits
  · have emitsEqual := joinedEqual.emits
    rw [equalItems_of_pending pendingLeft,equalItems_of_pending pendingRight] at emitsEqual
    rw [lessLeft,lessRight,lessEqual filled.left.pending,lessEqual filled.right.pending,filled.action] at inOrderLess
    simp only [filled.left.advanced.undefBlocks,filled.right.advanced.undefBlocks] at emitsEqual inOrderLess
    have undefLeft : ∀ p : Item κ → Bool,∀ u ∈ items impl.leftSide.undefBlocks,∀ y ∈ impl.rightSide.pending.filter p,key u ≤ key y :=
      fun p => invLeft.undefs.key_le lawful (fun item member => invRight.defined item (mem_filter.mp member).1)
    have undefRight : ∀ p : Item κ → Bool,∀ u ∈ items impl.rightSide.undefBlocks,∀ x ∈ impl.leftSide.pending.filter p,key u ≤ key x :=
      fun p => invRight.undefs.key_le lawful (fun item member => invLeft.defined item (mem_filter.mp member).1)
    have equalValue : ∀ pair ∈ joined (items impl.leftSide.undefBlocks) (items impl.rightSide.undefBlocks) (impl.leftSide.equalItems currentEl)
        (impl.rightSide.equalItems currentEl),merged pair = currentEl := by
      intro pair member
      obtain ⟨item,inside,same⟩ := merged_joined (undefRight _) (undefLeft _) member
      rw [same]
      rcases mem_append.mp inside with isLeft | isRight
      · exact equalItems_key impl.leftSide currentEl item isLeft
      · exact equalItems_key impl.rightSide currentEl item isRight
    refine inOrderLess.trans (emitsEqual.inOrder equalValue) ?_
    intro p hp q hq
    obtain ⟨item,inside,same⟩ := merged_joined (undefRight _) (undefLeft _) hp
    rw [same,equalValue q hq]
    rcases mem_append.mp inside with isLeft | isRight
    · exact (by simpa using (mem_filter.mp isLeft).2 : key item < currentEl).le
    · exact (by simpa using (mem_filter.mp isRight).2 : key item < currentEl).le
  · exact Cleared.of_pending pendingLeft advancedLeft joinedEqual.left
  · exact Cleared.of_pending pendingRight advancedRight joinedEqual.right
  · rcases inElements with inside | inside
    · exact Or.inl (frontLeft.key_mem inside)
    · exact Or.inr (frontRight.key_mem inside)

end Round
end Qlever.BlockZipperJoin
