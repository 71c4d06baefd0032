import Qlever.BlockZipperOptional

/-! The order of the rows that the inner join with UNDEF values adds. The rounds add them in the order of their
join values, the last step does so only if its loops over the blocks and rows have nothing to repeat.
-/
namespace Qlever.BlockZipperJoin
open ZipperJoin Library List BlockAndSubrange
variable {κ : Type} [LinearOrder κ]

def groups (its : List (Item κ)) : List (List (Item κ)) := its.splitBy (fun x y => x.1 == y.1)

/-- The pairs of the remaining rows of the left side, in the order in which `addRemainingUndefPairs` adds them. -/
def remainingLeft (undefRight remaining : List (List (Item κ))) : List (Item κ × Item κ) :=
  remaining.flatMap (fun group => undefRight.flatMap (fun undef => product group undef))

/-- The same for the right side. The buffer and the input are joined by loops that are nested differently. -/
def remainingRight (undefLeft : List (List (Item κ))) : List (List (Item κ)) → List (Item κ × Item κ)
  | [] => []
  | first::later => undefLeft.flatMap (fun undef => product undef first) ++
    later.flatMap (fun group => undefLeft.flatMap (fun undef => reversedProduct undef group))

section Groups

section
omit [LinearOrder κ]

theorem groups_flatten {γ : Type} (id : γ → Nat) (part : γ → List (Item κ)) (blocks : List γ)
    (inside : ∀ block ∈ blocks,∀ item ∈ part block,item.1 = id block) (nodup : (blocks.map id).Nodup) :
    groups (blocks.flatMap part) = (blocks.map part).filter (fun part => !part.isEmpty) := by
  have same : blocks.flatMap part = ((blocks.map part).filter (fun part => !part.isEmpty)).flatten := by
    rw [flatten_filter_not_isEmpty,flatMap_def]
  rw [same]
  apply splitBy_flatten
  · simp
  · intro its member
    obtain ⟨block,present,rfl⟩ := List.mem_map.mp (mem_filter.mp member).1
    apply List.Pairwise.isChain
    apply pairwise_of_forall_mem_list
    intro x hx y hy
    simp [inside block present x hx,inside block present y hy]
  · have apart : (blocks.map part).Pairwise (fun a b => ∀ x ∈ a,∀ y ∈ b,x.1 ≠ y.1) := by
      rw [pairwise_map]
      rw [List.Nodup,pairwise_map] at nodup
      refine nodup.imp_of_mem ?_
      intro a b ha hb distinct x hx y hy
      rw [inside a ha x hx,inside b hb y hy]
      exact distinct
    have filtered := apart.filter (fun part => !part.isEmpty)
    apply List.Pairwise.isChain
    refine filtered.imp_of_mem ?_
    intro a b ha hb distinct
    have someA : a ≠ [] := by simpa using (mem_filter.mp ha).2
    have someB : b ≠ [] := by simpa using (mem_filter.mp hb).2
    exact ⟨someA,someB,by simpa using distinct _ (getLast_mem someA) _ (head_mem someB)⟩

theorem BlockAndSubrange.items_fst (block : BlockAndSubrange κ) : ∀ item ∈ block.items,item.1 = block.fullBlock := by
  intro item member
  obtain ⟨_,_,rfl⟩ := List.mem_map.mp member
  rfl

end

def JoinSide.blocks (side : JoinSide κ) : List (BlockAndSubrange κ) := side.currentBlocks ++ side.it.map ofBlock

omit [LinearOrder κ] in
theorem groups_pending (side : JoinSide κ) (ids : side.ids.Nodup) (keep : Item κ → Bool) :
    groups (side.pending.filter keep) = (side.blocks.map (fun block => block.items.filter keep)).filter (fun part => !part.isEmpty) := by
  have parts : side.pending.filter keep = side.blocks.flatMap (fun block => block.items.filter keep) := by
    rw [pending_blocks,items,filter_flatMap]
    rfl
  rw [parts]
  apply groups_flatten (·.fullBlock)
  · intro block _ item member
    exact block.items_fst item (mem_filter.mp member).1
  · exact nodup_blocks ids

end Groups

section Finish
variable {config : Config κ}

omit [LinearOrder κ] in
theorem flatMap_nonempty {γ δ : Type} (parts : List (List γ)) (f : List γ → List δ) (nil : f [] = []) :
    (parts.filter (fun part => !part.isEmpty)).flatMap f = parts.flatMap f := by
  induction parts with
  | nil => rfl
  | cons part parts ih =>
    cases part with
    | nil => simp [ih,nil]
    | cons x part => simp [ih]

def JoinSide.undefs (side : JoinSide κ) : List (List (Item κ)) := side.undefBlocks.map BlockAndSubrange.items

/-- The pairs that are left for `addRemainingUndefPairs`. -/
def finishPairs (left right : JoinSide κ) : List (Item κ × Item κ) :=
  remainingLeft right.undefs (groups (left.pending.filter (beyond right.pending))) ++
    remainingRight left.undefs (groups (right.pending.filter (beyond left.pending)))

@[simp] theorem filter_beyond_nil (its : List (Item κ)) : its.filter (beyond []) = its := by
  simp [filter_eq_self,beyond]

section
omit [LinearOrder κ]

theorem groups_blocks (side : JoinSide κ) (ids : side.ids.Nodup) :
    groups side.pending = (side.blocks.map BlockAndSubrange.items).filter (fun part => !part.isEmpty) := by
  have all := groups_pending side ids (fun _ => true)
  simpa using all

section
variable (undefs : List (BlockAndSubrange κ)) {side : JoinSide κ} (buffered : Buffered side)
include buffered

theorem remainingLeft_eq :
    remainingLeft (undefs.map BlockAndSubrange.items) (groups side.pending) =
      side.currentBlocks.flatMap (fun lBlock => undefs.flatMap (fun rBlock => product lBlock.items rBlock.items)) ++
      (side.it.map ofBlock).flatMap (fun lBlock => undefs.flatMap (fun rBlock => product lBlock.items rBlock.items)) := by
  rw [remainingLeft,groups_blocks side buffered.ids,flatMap_nonempty _ _ (by simp),JoinSide.blocks]
  simp [flatMap_map]

theorem remainingRight_eq :
    remainingRight (undefs.map BlockAndSubrange.items) (groups side.pending) =
      undefs.flatMap (fun lBlock => side.currentBlocks.flatMap (fun rBlock => product lBlock.items rBlock.items)) ++
      (side.it.map ofBlock).flatMap (fun lBlock => undefs.flatMap (fun rBlock => reversedProduct rBlock.items lBlock.items)) := by
  cases current : side.currentBlocks with
  | nil =>
    have none := buffered.none current
    have empty : ∀ block ∈ side.it.map ofBlock,block.items = [] := by
      rw [pending_blocks,items,flatMap_eq_nil_iff] at none
      exact fun block member => none block (mem_append_right _ member)
    have input : (side.it.map ofBlock).flatMap (fun lBlock => undefs.flatMap (fun rBlock =>
        reversedProduct rBlock.items lBlock.items)) = [] := by
      rw [flatMap_eq_nil_iff]
      intro block member
      simp [empty block member,reversedProduct]
    rw [none,input]
    simp [groups,remainingRight]
  | cons front later =>
    have single : later = [] := by
      have length := buffered.length
      rw [current,length_cons] at length
      exact length_eq_zero_iff.mp (by omega)
    subst single
    have some : front.items ≠ [] := by
      intro nil
      have keys := map_key_items front
      rw [nil] at keys
      exact buffered.nonempty front (by simp [current]) keys.symm
    have parts : groups side.pending = front.items::((side.it.map ofBlock).map BlockAndSubrange.items).filter
        (fun part => !part.isEmpty) := by
      rw [groups_blocks side buffered.ids,JoinSide.blocks,current]
      simp [some]
    rw [parts,remainingRight,flatMap_nonempty _ _ (by simp [reversedProduct])]
    simp [flatMap_map]

end

theorem addRemainingUndefPairs_adds (impl : Impl κ) (bufferedLeft : Buffered impl.leftSide) (bufferedRight : Buffered impl.rightSide)
    (potential : config.potentiallyHasUndef = true) :
    Adds impl.compatibleRowAction (addRemainingUndefPairs config impl).compatibleRowAction
      (remainingLeft impl.rightSide.undefs (groups impl.leftSide.pending) ++
        remainingRight impl.leftSide.undefs (groups impl.rightSide.pending)) := by
  let left := impl.leftSide
  let right := impl.rightSide
  have buffer := addCartesianProduct_adds left.currentBlocks right.undefBlocks impl.compatibleRowAction
  have input := addCartesianProduct_adds (left.it.map ofBlock) right.undefBlocks
    (addCartesianProduct left.currentBlocks right.undefBlocks impl.compatibleRowAction)
  rw [← consumeRemainingBlocks_eq] at input
  have second := addCartesianProduct_adds left.undefBlocks right.currentBlocks (consumeRemainingBlocks false left.it right.undefBlocks
    (addCartesianProduct left.currentBlocks right.undefBlocks impl.compatibleRowAction))
  have last := consumeRemainingBlocks_reversed_adds right.it left.undefBlocks (addCartesianProduct left.undefBlocks right.currentBlocks
    (consumeRemainingBlocks false left.it right.undefBlocks (addCartesianProduct left.currentBlocks right.undefBlocks impl.compatibleRowAction)))
  have all := (buffer.trans input).trans (second.trans last)
  rw [JoinSide.undefs,JoinSide.undefs,remainingLeft_eq _ bufferedLeft,remainingRight_eq _ bufferedRight]
  simp only [addRemainingUndefPairs,potential,if_true]
  exact all

end

theorem joinRounds_exhausted_adds (impl : Impl κ) {left right : JoinSide κ} (bufferedLeft : Buffered left) (bufferedRight : Buffered right)
    (lengthLeft : impl.leftSide.currentBlocks.length ≤ 1) (lengthRight : impl.rightSide.currentBlocks.length ≤ 1)
    (fillLeft : fillWithAtLeastOne impl.leftSide = .ok left) (fillRight : fillWithAtLeastOne impl.rightSide = .ok right)
    (inner : config.doOptionalJoin = false) (plain : config.potentiallyHasUndef = false → left.undefBlocks = [] ∧ right.undefBlocks = [])
    (exhausted : (left.currentBlocks.isEmpty || right.currentBlocks.isEmpty) = true)
    (oneEmpty : left.pending = [] ∨ right.pending = []) (fuel : Nat) :
    ∃ impl',joinRounds config (fuel + 1) impl = .ok impl' ∧
      Adds impl.compatibleRowAction impl'.compatibleRowAction (finishPairs left right) := by
  have buffer := fillBuffer_eq impl lengthLeft lengthRight fillLeft fillRight
  rw [exhausted,if_pos rfl] at buffer
  have run : joinRounds config (fuel + 1) impl = .ok (addRemainingUndefPairs config ⟨left,right,impl.compatibleRowAction⟩) := by
    rw [joinRounds,buffer]
    simp [bind,Except.bind,exhausted,pure,Except.pure,inner]
  refine ⟨_,run,?_⟩
  have pairs : finishPairs left right = remainingLeft right.undefs (groups left.pending) ++ remainingRight left.undefs (groups right.pending) := by
    rcases oneEmpty with none | none
    · simp [finishPairs,none]
    · simp [finishPairs,none]
  rw [pairs]
  cases potential : config.potentiallyHasUndef with
  | true => exact addRemainingUndefPairs_adds ⟨left,right,impl.compatibleRowAction⟩ bufferedLeft bufferedRight potential
  | false =>
    obtain ⟨noLeft,noRight⟩ := plain potential
    have nothing : remainingLeft right.undefs (groups left.pending) ++ remainingRight left.undefs (groups right.pending) = [] := by
      cases groups right.pending <;> simp [JoinSide.undefs,noLeft,noRight,remainingLeft,remainingRight]
    rw [nothing]
    simp only [addRemainingUndefPairs,potential]
    exact ⟨by simp,rfl⟩

theorem finishPairs_round {currentEl : κ} {impl impl' : Impl κ} (round : RoundTo config currentEl impl impl') :
    finishPairs impl.leftSide impl.rightSide = finishPairs impl'.leftSide impl'.rightSide := by
  have rows : ∀ {mine theirs : List (Item κ)},(∃ item ∈ theirs,currentEl ≤ key item) → mine.filter (beyond theirs) =
      (mine.filter (fun item => currentEl < key item)).filter (beyond (theirs.filter (fun item => currentEl < key item))) := by
    intro mine theirs reached
    rw [filter_filter]
    apply filter_congr
    intro other _
    rw [beyond_round reached,Bool.and_comm]
  have clearedLeft := round.done.left
  have clearedRight := round.done.right
  simp only [finishPairs,JoinSide.undefs]
  rw [clearedLeft.pending,clearedRight.pending,clearedLeft.advanced.undefBlocks,clearedRight.advanced.undefBlocks,
    rows round.reached.1,rows round.reached.2]

section
omit [LinearOrder κ]

theorem mem_of_mem_groups {its group : List (Item κ)} (isGroup : group ∈ groups its) {item : Item κ} (member : item ∈ group) : item ∈ its := by
  rw [← flatten_splitBy (fun x y : Item κ => x.1 == y.1) its]
  exact mem_flatten.mpr ⟨group,isGroup,member⟩

theorem mem_of_mem_undefs {side : JoinSide κ} {undef : List (Item κ)} (isUndef : undef ∈ side.undefs) {item : Item κ} (member : item ∈ undef) :
    item ∈ items side.undefBlocks := by
  obtain ⟨block,present,rfl⟩ := List.mem_map.mp isUndef
  exact mem_flatMap.mpr ⟨block,present,member⟩

theorem mem_remainingLeft {undefRight remaining : List (List (Item κ))} {x y : Item κ} (member : (x,y) ∈ remainingLeft undefRight remaining) :
    (∃ group ∈ remaining,x ∈ group) ∧ ∃ undef ∈ undefRight,y ∈ undef := by
  obtain ⟨group,isGroup,inGroup⟩ := mem_flatMap.mp member
  obtain ⟨undef,isUndef,inProduct⟩ := mem_flatMap.mp inGroup
  obtain ⟨hx,hy,_⟩ := (mem_nestedLoop _ _ _ _ _).mp inProduct
  exact ⟨⟨group,isGroup,hx⟩,undef,isUndef,hy⟩

theorem mem_remainingRight {undefLeft remaining : List (List (Item κ))} {x y : Item κ} (member : (x,y) ∈ remainingRight undefLeft remaining) :
    (∃ undef ∈ undefLeft,x ∈ undef) ∧ ∃ group ∈ remaining,y ∈ group := by
  cases remaining with
  | nil => cases member
  | cons first later =>
    rcases mem_append.mp member with inFirst | inLater
    · obtain ⟨undef,isUndef,inProduct⟩ := mem_flatMap.mp inFirst
      obtain ⟨hx,hy,_⟩ := (mem_nestedLoop _ _ _ _ _).mp inProduct
      exact ⟨⟨undef,isUndef,hx⟩,first,by simp,hy⟩
    · obtain ⟨group,isGroup,inGroup⟩ := mem_flatMap.mp inLater
      obtain ⟨undef,isUndef,inProduct⟩ := mem_flatMap.mp inGroup
      obtain ⟨hx,hy,_⟩ := (mem_nestedLoop _ _ _ _ _).mp ((reversedProduct_perm undef group).mem_iff.mp inProduct)
      exact ⟨⟨undef,isUndef,hx⟩,group,by simp [isGroup],hy⟩

end

theorem finishPairs_subset (left right : JoinSide κ) :
    finishPairs left right ⊆ joined (items left.undefBlocks) (items right.undefBlocks) left.pending right.pending := by
  intro pair member
  obtain ⟨x,y⟩ := pair
  simp only [joined,product,mem_append,mem_nestedLoop,and_true]
  rcases mem_append.mp member with inLeft | inRight
  · obtain ⟨⟨group,isGroup,hx⟩,undef,isUndef,hy⟩ := mem_remainingLeft inLeft
    exact Or.inl (Or.inr ⟨(mem_filter.mp (mem_of_mem_groups isGroup hx)).1,mem_of_mem_undefs isUndef hy⟩)
  · obtain ⟨⟨undef,isUndef,hx⟩,group,isGroup,hy⟩ := mem_remainingRight inRight
    exact Or.inr ⟨mem_of_mem_undefs isUndef hx,(mem_filter.mp (mem_of_mem_groups isGroup hy)).1⟩

end Finish

section Rounds
variable {config : Config κ}

/-- The rows that are added by the rounds are in order, and they come before the pairs that are left for the end. -/
def OrderedBeforeFinish (before after : RowAction) (left right : JoinSide κ) : Prop :=
  ∃ ordered : List (Item κ × Item κ),after.rows = before.rows ++ (ordered ++ finishPairs left right).map places ∧
    ordered ⊆ joined (items left.undefBlocks) (items right.undefBlocks) left.pending right.pending ∧
    ordered.Pairwise (fun p q => merged p ≤ merged q) ∧ ∀ p ∈ ordered,∀ q ∈ finishPairs left right,merged p ≤ merged q

section
variable (lawful : config.Lawful) {left right : JoinSide κ} (invLeft : SideInv config left) (invRight : SideInv config right)
include lawful invLeft invRight

theorem merged_of_mem {someLeft someRight : List (Item κ)} (inLeft : someLeft ⊆ left.pending) (inRight : someRight ⊆ right.pending) {pair : Item κ × Item κ}
    (member : pair ∈ joined (items left.undefBlocks) (items right.undefBlocks) someLeft someRight) :
    ∃ item ∈ someLeft ++ someRight,merged pair = key item := by
  apply merged_joined _ _ member
  · exact invRight.undefs.key_le lawful (fun item inside => invLeft.defined item (inLeft inside))
  · exact invLeft.undefs.key_le lawful (fun item inside => invRight.defined item (inRight inside))

section
variable {currentEl : κ} {pair : Item κ × Item κ}

theorem merged_round (member : pair ∈
      joined (items left.undefBlocks) (items right.undefBlocks) (left.lessItems currentEl) (right.lessItems currentEl) ++
      joined (items left.undefBlocks) (items right.undefBlocks) (left.equalItems currentEl) (right.equalItems currentEl)) :
    merged pair ≤ currentEl := by
  rcases mem_append.mp member with less | equal
  · obtain ⟨item,inside,same⟩ := merged_of_mem lawful invLeft invRight (filter_subset_self _) (filter_subset_self _) less
    rw [← filter_append,mem_filter,decide_eq_true_eq] at inside
    rw [same]
    exact inside.2.le
  · obtain ⟨item,inside,same⟩ := merged_of_mem lawful invLeft invRight (filter_subset_self _) (filter_subset_self _) equal
    rw [same]
    rcases mem_append.mp inside with isLeft | isRight
    · exact (equalItems_key left currentEl item isLeft).le
    · exact (equalItems_key right currentEl item isRight).le

theorem merged_later (member : pair ∈ joined (items left.undefBlocks) (items right.undefBlocks)
      (left.pending.filter (fun item => currentEl < key item)) (right.pending.filter (fun item => currentEl < key item))) :
    currentEl ≤ merged pair := by
  obtain ⟨item,inside,same⟩ := merged_of_mem lawful invLeft invRight (filter_subset_self _) (filter_subset_self _) member
  rw [← filter_append,mem_filter,decide_eq_true_eq] at inside
  rw [same]
  exact inside.2.le

end

end

theorem joinRounds_ordered (lawful : config.Lawful) (inner : config.doOptionalJoin = false) (impl : Impl κ)
    (plain : config.potentiallyHasUndef = false → impl.leftSide.undefBlocks = [] ∧ impl.rightSide.undefBlocks = [])
    (invLeft : SideInv config impl.leftSide) (invRight : SideInv config impl.rightSide) (fuel : Nat)
    (enough : impl.leftSide.pending.length + impl.rightSide.pending.length < fuel) :
    ∃ impl',joinRounds config fuel impl = .ok impl' ∧
      OrderedBeforeFinish impl.compatibleRowAction impl'.compatibleRowAction impl.leftSide impl.rightSide := by
  induction fuel generalizing impl with
  | zero => omega
  | succ fuel ih =>
    obtain ⟨left,filledLeft⟩ := invLeft.refilled
    obtain ⟨right,filledRight⟩ := invRight.refilled
    have same : ∀ before after,OrderedBeforeFinish before after left right → OrderedBeforeFinish before after impl.leftSide impl.rightSide := by
      intro before after ordered
      unfold OrderedBeforeFinish finishPairs JoinSide.undefs at ordered ⊢
      rwa [filledLeft.pending,filledRight.pending,filledLeft.advanced.undefBlocks,filledRight.advanced.undefBlocks] at ordered
    rw [← filledLeft.pending,← filledRight.pending] at enough
    rw [← filledLeft.advanced.undefBlocks,← filledRight.advanced.undefBlocks] at plain
    rcases joinRounds_step lawful impl filledLeft filledRight invLeft.length invRight.length with ⟨exhausted,oneEmpty⟩ | ⟨currentEl,impl₂,round,next⟩
    · obtain ⟨impl',run,adds⟩ := joinRounds_exhausted_adds impl filledLeft.buffered filledRight.buffered invLeft.length invRight.length
        filledLeft.run filledRight.run inner plain exhausted oneEmpty fuel
      exact ⟨impl',run,same _ _ ⟨[],adds.rows,by simp,List.Pairwise.nil,by simp⟩⟩
    · have clearedLeft := round.done.left
      have clearedRight := round.done.right
      have kept : config.potentiallyHasUndef = false → impl₂.leftSide.undefBlocks = [] ∧ impl₂.rightSide.undefBlocks = [] := by
        rw [clearedLeft.advanced.undefBlocks,clearedRight.advanced.undefBlocks]
        exact plain
      obtain ⟨impl',rest,later,rows,inside,sorted,before⟩ := ih impl₂ kept round.invLeft round.invRight
        (by have less := round.shorter; simp only at less; omega)
      obtain ⟨first,perm,added,inOrder⟩ := round.done.inOrder
      have finish := finishPairs_round round
      have atMost : ∀ p ∈ first,merged p ≤ currentEl := fun p member =>
        merged_round lawful filledLeft.inv filledRight.inv (perm.mem_iff.mp member)
      rw [clearedLeft.pending,clearedRight.pending,clearedLeft.advanced.undefBlocks,clearedRight.advanced.undefBlocks] at inside
      have above : ∀ q ∈ joined (items left.undefBlocks) (items right.undefBlocks) (left.pending.filter (fun item => currentEl < key item))
          (right.pending.filter (fun item => currentEl < key item)),currentEl ≤ merged q := fun q member =>
        merged_later lawful filledLeft.inv filledRight.inv member
      have sums := (round_sums filledLeft.inv.sorted filledRight.inv.sorted currentEl (items left.undefBlocks) (items right.undefBlocks) false).1
      refine ⟨impl',(next fuel).trans rest,same _ _ ⟨first ++ later,?_,?_,?_,?_⟩⟩
      · rw [rows,added]
        simp only at finish
        simp [finish]
      · intro p member
        rw [sums.mem_iff,mem_append]
        exact (mem_append.mp member).imp perm.mem_iff.mp (@inside p)
      · refine pairwise_append.mpr ⟨inOrder,sorted,?_⟩
        intro p hp q hq
        exact (atMost p hp).trans (above q (inside hq))
      · intro p hp q hq
        simp only at finish
        rw [finish] at hq
        rcases mem_append.mp hp with inFirst | inLater
        · have inJoined := finishPairs_subset _ _ hq
          rw [clearedLeft.pending,clearedRight.pending,clearedLeft.advanced.undefBlocks,clearedRight.advanced.undefBlocks] at inJoined
          exact (atMost p inFirst).trans (above q inJoined)
        · exact before p inLater q hq

end Rounds

section Sorted
variable {undefs : List (List (Item κ))}

def Constant (values : List κ) : Prop := ∀ x ∈ values,∀ y ∈ values,x = y

instance (values : List κ) : Decidable (Constant values) := inferInstanceAs (Decidable (∀ x ∈ values,∀ y ∈ values,x = y))

/-- A loop that goes through the same sorted values in each iteration keeps the order only if it has one iteration or the values
are all the same. -/
theorem pairwise_flatMap_iff {γ : Type} (iterations : List γ) (body : γ → List κ) (values : List κ)
    (sorted : ∀ x ∈ iterations,(body x).Pairwise (· ≤ ·)) (same : ∀ x ∈ iterations,∀ value,value ∈ body x ↔ value ∈ values) :
    (iterations.flatMap body).Pairwise (· ≤ ·) ↔ iterations.length ≤ 1 ∨ Constant values := by
  rw [pairwise_flatMap]
  constructor
  · intro ordered
    match iterations with
    | [] => simp
    | [_] => simp
    | first::second::_ =>
      right
      intro v hv w hw
      have cross := (pairwise_cons.mp ordered.2).1 second (by simp)
      apply le_antisymm
      · exact cross v ((same first (by simp) v).mpr hv) w ((same second (by simp) w).mpr hw)
      · exact cross w ((same first (by simp) w).mpr hw) v ((same second (by simp) v).mpr hv)
  · intro condition
    refine ⟨sorted,?_⟩
    rcases condition with single | constant
    · match iterations with
      | [] => exact List.Pairwise.nil
      | [_] => exact pairwise_singleton _ _
    · apply pairwise_of_forall_mem_list
      intro x hx y hy v hv w hw
      exact (constant v ((same x hx v).mp hv) w ((same y hy w).mp hw)).le

/-- For the remaining rows of the left side, the loop over the UNDEF blocks of the right side is outside of the loop over the rows. -/
def LoopsOnceLeft (undefs remaining : List (List κ)) : Prop := undefs.length ≤ 1 ∨ ∀ block ∈ remaining,Constant block

/-- For the rows of the right side in the buffer, the loop over the UNDEF rows of the left side is the outer one. -/
def LoopsOnceRight (undefs : List (List κ)) : List (List κ) → Prop
  | [] => True
  | first::later => (undefs.flatten.length ≤ 1 ∨ Constant first) ∧ LoopsOnceLeft undefs later

def values (groups : List (List (Item κ))) : List (List κ) := groups.map (·.map key)

structure UndefItems [OrderBot κ] (undefs : List (List (Item κ))) : Prop where
  nonempty : ∀ undef ∈ undefs,undef ≠ []
  undef : ∀ undef ∈ undefs,∀ item ∈ undef,key item = ⊥

def repeated (group undef : List (Item κ)) : List κ := group.flatMap (fun x => undef.map (fun _ => key x))

theorem repeated_sorted {group : List (Item κ)} (sorted : SortedItems group) (undef : List (Item κ)) :
    (repeated group undef).Pairwise (· ≤ ·) := by
  rw [repeated,pairwise_flatMap]
  constructor
  · intro x _
    apply pairwise_of_forall_mem_list
    simp
  · refine sorted.imp ?_
    intro x y le
    simp
    tauto

omit [LinearOrder κ] in
theorem mem_repeated (group : List (Item κ)) {undef : List (Item κ)} (some : undef ≠ []) (value : κ) :
    value ∈ repeated group undef ↔ value ∈ group.map key := by
  obtain ⟨first,tail,rfl⟩ := exists_cons_of_ne_nil some
  simp [repeated]
  tauto

variable [OrderBot κ] {groups : List (List (Item κ))}

section
variable {group undef : List (Item κ)} (isUndef : ∀ item ∈ undef,key item = ⊥)
include isUndef

theorem map_merged_product :
    (product group undef).map merged = repeated group undef := by
  simp only [product,nestedLoop,repeated,map_flatMap,filter_true,map_map]
  congr 1
  ext1 x
  apply map_congr_left
  intro u member
  simp [merged,isUndef u member]

theorem map_merged_reversedProduct :
    (reversedProduct undef group).map merged = repeated group undef := by
  simp only [reversedProduct,repeated,map_flatMap,map_map]
  congr 1
  ext1 x
  apply map_congr_left
  intro u member
  simp [merged,isUndef u member]

end

section
variable (isUndef : UndefItems undefs)
include isUndef

theorem repeated_sorted_iff {group : List (Item κ)} (sorted : SortedItems group) :
    (undefs.flatMap (repeated group)).Pairwise (· ≤ ·) ↔ undefs.length ≤ 1 ∨ Constant (group.map key) := by
  apply pairwise_flatMap_iff
  · exact fun undef _ => repeated_sorted sorted undef
  · exact fun undef member => mem_repeated group (isUndef.nonempty undef member)

theorem repeated_groups_iff (sorted : SortedItems groups.flatten) :
    (groups.flatMap (fun group => undefs.flatMap (repeated group))).Pairwise (· ≤ ·) ↔ LoopsOnceLeft (values undefs) (values groups) := by
  obtain ⟨each,across⟩ := pairwise_flatten.mp sorted
  have cross : groups.Pairwise (fun first second => ∀ v ∈ undefs.flatMap (repeated first),∀ w ∈ undefs.flatMap (repeated second),v ≤ w) := by
    refine across.imp ?_
    intro first second le v hv w hw
    obtain ⟨u,isU,inV⟩ := mem_flatMap.mp hv
    obtain ⟨u',isU',inW⟩ := mem_flatMap.mp hw
    obtain ⟨x,hx,rfl⟩ := List.mem_map.mp ((mem_repeated first (isUndef.nonempty u isU) v).mp inV)
    obtain ⟨y,hy,rfl⟩ := List.mem_map.mp ((mem_repeated second (isUndef.nonempty u' isU') w).mp inW)
    exact le x hx y hy
  rw [pairwise_flatMap,and_iff_left cross]
  simp only [LoopsOnceLeft,values,length_map,forall_mem_map]
  constructor
  · intro all
    by_cases single : undefs.length ≤ 1
    · exact Or.inl single
    · exact Or.inr (fun group member => ((repeated_sorted_iff isUndef (each group member)).mp (all group member)).resolve_left single)
  · intro condition group member
    exact (repeated_sorted_iff isUndef (each group member)).mpr (condition.imp id (fun all => all group member))

theorem remainingLeft_sorted_iff (sorted : SortedItems groups.flatten) :
    ((remainingLeft undefs groups).map merged).Pairwise (· ≤ ·) ↔ LoopsOnceLeft (values undefs) (values groups) := by
  rw [← repeated_groups_iff isUndef sorted]
  have same : (remainingLeft undefs groups).map merged = groups.flatMap (fun group => undefs.flatMap (repeated group)) := by
    simp only [remainingLeft,map_flatMap]
    congr 1
    ext1 group
    apply flatMap_congr
    intro undef member
    exact map_merged_product (isUndef.undef undef member)
  rw [same]

theorem map_merged_first (first : List (Item κ)) :
    (undefs.flatMap (fun undef => product undef first)).map merged = undefs.flatten.flatMap (fun _ => first.map key) := by
  rw [map_flatMap,flatten_eq_flatMap,flatMap_assoc]
  apply flatMap_congr
  intro undef member
  simp only [product,nestedLoop,map_flatMap,filter_true,map_map]
  apply flatMap_congr
  intro u inside
  apply map_congr_left
  intro y _
  simp [merged,isUndef.undef undef member u inside]

theorem remainingRight_sorted_iff (sorted : SortedItems groups.flatten) :
    ((remainingRight undefs groups).map merged).Pairwise (· ≤ ·) ↔ LoopsOnceRight (values undefs) (values groups) := by
  cases groups with
  | nil => simp [remainingRight,LoopsOnceRight,values]
  | cons first later =>
    rw [flatten_cons] at sorted
    have input : (later.flatMap (fun group => undefs.flatMap (fun undef => reversedProduct undef group))).map merged =
        later.flatMap (fun group => undefs.flatMap (repeated group)) := by
      simp only [map_flatMap]
      apply flatMap_congr
      intro group _
      apply flatMap_congr
      intro undef member
      exact map_merged_reversedProduct (isUndef.undef undef member)
    have buffer : (undefs.flatten.flatMap (fun _ => first.map key)).Pairwise (· ≤ ·) ↔
        (values undefs).flatten.length ≤ 1 ∨ Constant (first.map key) := by
      have single := pairwise_flatMap_iff undefs.flatten (fun _ => first.map key) (first.map key)
        (fun _ _ => pairwise_map.mpr sorted.left) (fun _ _ _ => Iff.rfl)
      rw [single]
      simp [values,Function.comp_def]
    have cross : ∀ v ∈ undefs.flatten.flatMap (fun _ => first.map key),∀ w ∈ later.flatMap (fun group => undefs.flatMap (repeated group)),
        v ≤ w := by
      intro v hv w hw
      obtain ⟨_,_,inFirst⟩ := mem_flatMap.mp hv
      obtain ⟨x,hx,rfl⟩ := List.mem_map.mp inFirst
      obtain ⟨group,isGroup,inGroup⟩ := mem_flatMap.mp hw
      obtain ⟨u,isU,inW⟩ := mem_flatMap.mp inGroup
      obtain ⟨y,hy,rfl⟩ := List.mem_map.mp ((mem_repeated group (isUndef.nonempty u isU) w).mp inW)
      exact sorted.le hx (mem_flatten.mpr ⟨group,isGroup,hy⟩)
    rw [remainingRight,map_append,map_merged_first isUndef,input,pairwise_append,and_iff_left cross,buffer,
      repeated_groups_iff isUndef sorted.right]
    rfl

end

end Sorted

section Input
variable [OrderBot κ] {left right : List (List κ)} {leftSide rightSide : JoinSide κ}

def startsWithUndef (block : List κ) : Bool := block.head? = some ⊥

def foundUndefs (blocks : List (List κ)) : List (List κ) :=
  (blocks.takeWhile startsWithUndef).map (fun block => block.takeWhile (fun element => element = ⊥))

def otherRows (blocks : List (List κ)) : List (List κ) :=
  (blocks.takeWhile startsWithUndef).map (fun block => block.dropWhile (fun element => element = ⊥)) ++ blocks.dropWhile startsWithUndef

def remainingRows (mine theirs : List (List κ)) : List (List κ) :=
  ((otherRows mine).map (fun block => block.filter (fun element => (otherRows theirs).flatten.all (fun other => other < element)))).filter
    (fun block => !block.isEmpty)

def KeepsOrder (left right : List (List κ)) : Prop :=
  (¬ StartsWithUndef left ∧ ¬ StartsWithUndef right) ∨
  (((¬ HiddenUndef left ∧ ¬ HiddenUndef right) ∨ AllFound left ∨ AllFound right) ∧
    LoopsOnceLeft (foundUndefs right) (remainingRows left right) ∧ LoopsOnceRight (foundUndefs left) (remainingRows right left))

def mergedAt (left right : List (List κ)) (row : (Nat × Nat) × (Nat × Nat)) : κ :=
  let value := (elementAt left row.1).getD ⊥
  if value = ⊥ then (elementAt right row.2).getD ⊥ else value

def SortedByJoinColumn (left right : List (List κ)) : Prop :=
  ∃ action,zipperJoinForBlocksWithPotentialUndef false left right = .ok action ∧
    (action.rows.map (mergedAt left right)).Pairwise (· ≤ ·)

section
variable {block : List κ} (starts : block.head? = some ⊥) (blocks : List (List κ))
include starts

theorem foundUndefs_cons :
    foundUndefs (block::blocks) = block.takeWhile (fun element => element = ⊥)::foundUndefs blocks := by
  simp [foundUndefs,startsWithUndef,starts]

theorem otherRows_cons :
    otherRows (block::blocks) = block.dropWhile (fun element => element = ⊥)::otherRows blocks := by
  simp [otherRows,startsWithUndef,starts]

end

variable {blocks : List (List κ)}

theorem not_starts_blocks (stops : ∀ block,blocks.head? = some block → block.head? ≠ some ⊥) :
    foundUndefs blocks = [] ∧ otherRows blocks = blocks := by
  cases blocks with
  | nil => simp [foundUndefs,otherRows]
  | cons block blocks =>
    have stop := stops block rfl
    simp [foundUndefs,otherRows,startsWithUndef,stop]

omit [LinearOrder κ] [OrderBot κ] in
theorem map_elements_ofBlock (it : List (Block κ)) : (it.map ofBlock).map (·.elements) = it.map (·.elements) := by
  simp [ofBlock]

theorem findFirstBlockWithoutUndefFrom_blocks (it : List (Block κ)) (found : List (BlockAndSubrange κ)) (sorted : SortedItems (rest it)) :
    let (it',undefBlocks,current) := findFirstBlockWithoutUndefFrom undefConfig it found
    undefBlocks.map (·.elements) = found.map (·.elements) ++ foundUndefs (it.map (·.elements)) ∧
    ((current ++ it'.map ofBlock).map (·.elements)).filter (fun block => !block.isEmpty) =
      (otherRows (it.map (·.elements))).filter (fun block => !block.isEmpty) := by
  have stop : ∀ (found : List (BlockAndSubrange κ)) (it : List (Block κ)),(∀ block,(it.map (·.elements)).head? = some block → block.head? ≠ some ⊥) →
      found.map (·.elements) = found.map (·.elements) ++ foundUndefs (it.map (·.elements)) ∧
      ((it.map ofBlock).map (·.elements)).filter (fun block => !block.isEmpty) =
        (otherRows (it.map (·.elements))).filter (fun block => !block.isEmpty) := by
    intro found it stops
    obtain ⟨none,all⟩ := not_starts_blocks stops
    rw [none,all,map_elements_ofBlock,append_nil]
    exact ⟨rfl,rfl⟩
  induction it generalizing found with
  | nil => exact stop found [] (by simp)
  | cons block it ih =>
    rw [rest_cons] at sorted
    have blockSorted : block.elements.Pairwise (· ≤ ·) := sorted.left.elements
    cases elements : block.elements with
    | nil =>
      have here := stop found (block::it) (by simp [elements])
      simpa [findFirstBlockWithoutUndefFrom,elements] using here
    | cons front tail =>
      by_cases undef : front = ⊥
      · subst undef
        by_cases all : (⊥::tail).getLast (cons_ne_nil ⊥ tail) = ⊥
        · have only : ∀ element ∈ block.elements,element = ⊥ := by
            intro element member
            rw [elements] at member blockSorted
            have below : element ≤ ⊥ := by
              rw [← all]
              exact blockSorted.rel_getLast member
            exact le_bot_iff.mp below
          have starts : block.elements.head? = some ⊥ := by simp [elements]
          have taken : block.elements.takeWhile (fun element => element = ⊥) = block.elements := by
            rw [takeWhile_eq_self_iff]
            simpa using only
          have dropped : block.elements.dropWhile (fun element => element = ⊥) = [] := by
            rw [dropWhile_eq_nil_iff]
            simpa using only
          have run : findFirstBlockWithoutUndefFrom undefConfig (block::it) found =
              findFirstBlockWithoutUndefFrom undefConfig it (found ++ [ofBlock block]) := by
            simp [findFirstBlockWithoutUndefFrom,elements,all]
          have later := ih (found ++ [ofBlock block]) sorted.right
          rw [run]
          simp only [map_append,map_cons,foundUndefs_cons starts,otherRows_cons starts,taken,dropped] at later ⊢
          simpa [ofBlock] using later
        · have starts : block.elements.head? = some ⊥ := by simp [elements]
          have run : findFirstBlockWithoutUndefFrom undefConfig (block::it) found =
              (it,found ++ [(ofBlock block).equalRange ⊥],
                [⟨block.id,((ofBlock block).equalRange ⊥).elements.length,
                  block.elements.drop ((ofBlock block).equalRange ⊥).elements.length⟩]) := by
            simp [findFirstBlockWithoutUndefFrom,elements,all]
          have stops : ∀ next,(it.map (·.elements)).head? = some next → next.head? ≠ some ⊥ := by
            intro next isNext undef
            obtain ⟨item,inside,equal⟩ := (exists_rest_iff it ⊥).mpr
              (mem_flatten.mpr ⟨next,mem_of_mem_head? isNext,mem_of_mem_head? undef⟩)
            obtain ⟨last,inBlock,isLast⟩ := exists_item (ofBlock block)
              (by rw [ofBlock,elements]; exact getLast_mem (cons_ne_nil ⊥ tail))
            apply all
            rw [← isLast,← le_bot_iff,← equal]
            exact sorted.le inBlock inside
          obtain ⟨none,others⟩ := not_starts_blocks stops
          rw [run,equalRange_bot,drop_takeWhile_bot]
          simp only [map_append,map_cons,foundUndefs_cons starts,otherRows_cons starts,none,others,le_bot_iff,map_elements_ofBlock]
          simp
      · have here := stop found (block::it) (by simp [elements,undef])
        simpa [findFirstBlockWithoutUndefFrom,elements,undef] using here

structure Split (blocks : List (List κ)) (side : JoinSide κ) : Prop where
  undefs : values side.undefs = foundUndefs blocks
  blocks : (side.blocks.map (·.elements)).filter (fun block => !block.isEmpty) = (otherRows blocks).filter (fun block => !block.isEmpty)

omit [LinearOrder κ] [OrderBot κ] in
theorem values_undefs (side : JoinSide κ) : values side.undefs = side.undefBlocks.map (·.elements) := by
  simp only [values,JoinSide.undefs,map_map]
  apply map_congr_left
  intro block _
  exact map_key_items block

theorem findFirstBlockWithoutUndef_split (sorted : blocks.flatten.Pairwise (· ≤ ·)) :
    Split blocks (findFirstBlockWithoutUndef undefConfig (makeJoinSide blocks)) := by
  have items_eq : rest (makeJoinSide blocks).it = inputItems blocks := by simp [inputItems,JoinSide.pending,makeJoinSide]
  have elements : (makeJoinSide blocks).it.map (·.elements) = blocks := by simp [makeJoinSide,Function.comp_def]
  have cut := findFirstBlockWithoutUndefFrom_blocks (makeJoinSide blocks).it [] (items_eq ▸ sorted_inputItems sorted)
  rw [elements] at cut
  simp only [map_nil,nil_append] at cut
  constructor
  · rw [values_undefs]
    exact cut.1
  · exact cut.2

omit [LinearOrder κ] [OrderBot κ] in
theorem filter_blocks (blocks : List (List κ)) (keep : κ → Bool) :
    (blocks.map (·.filter keep)).filter (fun block => !block.isEmpty) =
      ((blocks.filter (fun block => !block.isEmpty)).map (·.filter keep)).filter (fun block => !block.isEmpty) := by
  induction blocks with
  | nil => rfl
  | cons block blocks ih =>
    cases block with
    | nil => simpa using ih
    | cons element block => simp [filter_cons,ih]

theorem Split.keys {side : JoinSide κ} (split : Split blocks side) : side.pending.map key = (otherRows blocks).flatten := by
  have flat := congrArg flatten split.blocks
  rw [flatten_filter_not_isEmpty,flatten_filter_not_isEmpty] at flat
  rw [← flat,pending_blocks,items,map_flatMap,flatMap_def]
  congr 1
  apply map_congr_left
  intro block _
  exact map_key_items block

theorem Split.values_remaining {mine theirs : List (List κ)} {side other : JoinSide κ} (split : Split mine side) (split' : Split theirs other)
    (ids : side.ids.Nodup) : values (groups (side.pending.filter (beyond other.pending))) = remainingRows mine theirs := by
  let larger := fun element : κ => (otherRows theirs).flatten.all (fun other => other < element)
  have isLarger : ∀ item : Item κ,beyond other.pending item = larger (key item) := by
    intro item
    simp only [larger,← split'.keys,all_map]
    rfl
  have parts : ∀ block : BlockAndSubrange κ,(block.items.filter (beyond other.pending)).map key = block.elements.filter larger := by
    intro block
    rw [← map_key_items block,filter_map]
    congr 1
    exact filter_congr (fun item _ => isLarger item)
  calc values (groups (side.pending.filter (beyond other.pending)))
      = ((side.blocks.map (fun block => block.items.filter (beyond other.pending))).filter (fun part => !part.isEmpty)).map (·.map key) := by
        rw [groups_pending side ids,values]
    _ = ((side.blocks.map (fun block => block.items.filter (beyond other.pending))).map (·.map key)).filter (fun block => !block.isEmpty) := by
        conv_rhs => rw [filter_map]
        congr 1
        apply filter_congr
        intro part _
        simp
    _ = ((side.blocks.map (·.elements)).map (·.filter larger)).filter (fun block => !block.isEmpty) := by
        rw [map_map,map_map]
        congr 1
        exact map_congr_left (fun block _ => parts block)
    _ = remainingRows mine theirs := by
        rw [filter_blocks,split.blocks,← filter_blocks]
        rfl

theorem mergedAt_places {x y : Item κ} (inLeft : x ∈ inputItems left) (inRight : y ∈ inputItems right)
    (compatible : key x = ⊥ ∨ key y = ⊥ ∨ key x = key y) : mergedAt left right (places (x,y)) = merged (x,y) := by
  have leftValue := (mem_inputItems left x).mp inLeft
  have rightValue := (mem_inputItems right y).mp inRight
  simp only [mergedAt,places,leftValue,rightValue,Option.getD_some,merged]
  split
  next undef => rw [undef,max_eq_right bot_le]
  next defined =>
    rcases compatible with undef | undef | same
    · exact absurd undef defined
    · rw [undef,max_eq_left bot_le]
    · rw [same,max_self]

theorem Start.undefItems (start : Start left leftSide) : UndefItems leftSide.undefs where
  nonempty undef member := by
    obtain ⟨block,present,rfl⟩ := List.mem_map.mp member
    intro nil
    have keys := map_key_items block
    rw [nil] at keys
    exact start.undefs.nonempty block present keys.symm
  undef undef member item inside := start.undef_keys item (mem_of_mem_undefs member inside)

omit [OrderBot κ] in
theorem sorted_groups (sorted : SortedItems leftSide.pending) (keep : Item κ → Bool) :
    SortedItems (groups (leftSide.pending.filter keep)).flatten := by
  rw [groups,flatten_splitBy]
  exact sorted.sublist filter_sublist

section
variable (startLeft : Start left leftSide) (startRight : Start right rightSide)
include startLeft startRight

theorem finishPairs_sorted_iff (splitLeft : Split left leftSide)
    (splitRight : Split right rightSide) : ((finishPairs leftSide rightSide).map merged).Pairwise (· ≤ ·) ↔
      LoopsOnceLeft (foundUndefs right) (remainingRows left right) ∧ LoopsOnceRight (foundUndefs left) (remainingRows right left) := by
  rw [← splitLeft.undefs,← splitRight.undefs,← splitLeft.values_remaining splitRight startLeft.ids,
    ← splitRight.values_remaining splitLeft startRight.ids,
    ← remainingLeft_sorted_iff startRight.undefItems (sorted_groups startLeft.sorted _),
    ← remainingRight_sorted_iff startLeft.undefItems (sorted_groups startRight.sorted _),finishPairs,map_append,pairwise_append]
  constructor
  · intro sorted
    exact ⟨sorted.1,sorted.2.1⟩
  · intro sorted
    refine ⟨sorted.1,sorted.2,?_⟩
    intro v hv w hw
    obtain ⟨⟨x,_⟩,inLeft,_⟩ := List.mem_map.mp hv
    obtain ⟨⟨_,y⟩,inRight,_⟩ := List.mem_map.mp hw
    obtain ⟨group,isGroup,hx⟩ := (mem_remainingLeft inLeft).1
    obtain ⟨group',isGroup',hy⟩ := (mem_remainingRight inRight).2
    obtain ⟨pendingX,beyondX⟩ := mem_filter.mp (mem_of_mem_groups isGroup hx)
    obtain ⟨pendingY,beyondY⟩ := mem_filter.mp (mem_of_mem_groups isGroup' hy)
    simp only [beyond,all_eq_true,decide_eq_true_eq] at beyondX beyondY
    exact absurd (beyondX y pendingY) (beyondY x pendingX).asymm

theorem sortedByJoinColumn_iff {action : RowAction}
    (run : zipperJoinForBlocksWithPotentialUndef false left right = .ok action)
    (ordered : OrderedBeforeFinish (addCartesianProduct leftSide.undefBlocks rightSide.undefBlocks {}) action leftSide rightSide) :
    SortedByJoinColumn left right ↔ ((finishPairs leftSide rightSide).map merged).Pairwise (· ≤ ·) := by
  obtain ⟨middle,rows,inside,sorted,before⟩ := ordered
  obtain ⟨first,perm,added⟩ := (addCartesianProduct_emits leftSide.undefBlocks rightSide.undefBlocks {}).exists_ordered
  rw [added,nil_append,← map_append] at rows
  have inUndef : ∀ p ∈ first,key p.1 = ⊥ ∧ key p.2 = ⊥ ∧ p.1 ∈ inputItems left ∧ p.2 ∈ inputItems right := by
    intro p member
    obtain ⟨hx,hy,_⟩ := (mem_nestedLoop _ _ _ p.1 p.2).mp (perm.mem_iff.mp member)
    exact ⟨startLeft.undef_keys _ hx,startRight.undef_keys _ hy,startLeft.rows ▸ mem_append_left _ hx,
      startRight.rows ▸ mem_append_left _ hy⟩
  have values : action.rows.map (mergedAt left right) = (first ++ (middle ++ finishPairs leftSide rightSide)).map merged := by
    rw [rows,map_map]
    apply map_congr_left
    intro p member
    obtain ⟨x,y⟩ := p
    rcases mem_append.mp member with isUndef | later
    · obtain ⟨undef,_,inLeft,inRight⟩ := inUndef _ isUndef
      exact mergedAt_places inLeft inRight (Or.inl undef)
    · have isJoined : (x,y) ∈ joined (items leftSide.undefBlocks) (items rightSide.undefBlocks) leftSide.pending rightSide.pending :=
        (mem_append.mp later).elim (@inside (x,y)) (@finishPairs_subset _ _ leftSide rightSide (x,y))
      simp only [joined,equalPairs,product,mem_append,mem_nestedLoop,and_true,decide_eq_true_eq] at isJoined
      rcases isJoined with (⟨hx,hy,same⟩ | ⟨hx,hy⟩) | ⟨hx,hy⟩
      · exact mergedAt_places (startLeft.rows ▸ mem_append_right _ hx) (startRight.rows ▸ mem_append_right _ hy) (Or.inr (Or.inr same))
      · exact mergedAt_places (startLeft.rows ▸ mem_append_right _ hx) (startRight.rows ▸ mem_append_left _ hy)
          (Or.inr (Or.inl (startRight.undef_keys y hy)))
      · exact mergedAt_places (startLeft.rows ▸ mem_append_left _ hx) (startRight.rows ▸ mem_append_right _ hy)
          (Or.inl (startLeft.undef_keys x hx))
  have least : ∀ p ∈ first,merged p = ⊥ := by
    intro p member
    rw [merged,(inUndef p member).1,(inUndef p member).2.1,max_self]
  constructor
  · intro correct
    obtain ⟨other,ok,inOrder⟩ := correct
    rw [run] at ok
    cases ok
    rw [values,map_append,map_append] at inOrder
    exact (pairwise_append.mp (pairwise_append.mp inOrder).2.1).2.1
  · intro finish
    refine ⟨action,run,?_⟩
    rw [values,pairwise_map]
    rw [pairwise_map] at finish
    refine pairwise_append.mpr ⟨?_,pairwise_append.mpr ⟨sorted,finish,before⟩,?_⟩
    · apply pairwise_of_forall_mem_list
      intro p hp q hq
      rw [least p hp,least q hq]
    · intro p hp q _
      rw [least p hp]
      exact bot_le

theorem joinRounds_exhausted_ordered (exhausted : leftSide.pending = [] ∨ rightSide.pending = []) (fuel : Nat) (action : RowAction) :
    ∃ impl,joinRounds undefConfig (fuel + 1) ⟨leftSide,rightSide,action⟩ = .ok impl ∧
      OrderedBeforeFinish action impl.compatibleRowAction leftSide rightSide := by
  obtain ⟨left',fillLeft,bufferedLeft,pendingLeft,undefsLeft,emptyLeft⟩ := startLeft.filled
  obtain ⟨right',fillRight,bufferedRight,pendingRight,undefsRight,emptyRight⟩ := startRight.filled
  have oneEmpty : left'.pending = [] ∨ right'.pending = [] := by
    rw [pendingLeft,pendingRight]
    exact exhausted
  obtain ⟨impl,run,adds⟩ := joinRounds_exhausted_adds ⟨leftSide,rightSide,action⟩ bufferedLeft bufferedRight startLeft.length startRight.length
    fillLeft fillRight (rfl : (undefConfig : Config κ).doOptionalJoin = false) (by simp [undefConfig,Config.potentiallyHasUndef])
    (Bool.or_eq_true _ _ ▸ oneEmpty.imp emptyLeft emptyRight) oneEmpty fuel
  have same : finishPairs left' right' = finishPairs leftSide rightSide := by
    simp only [finishPairs,JoinSide.undefs,pendingLeft,pendingRight,undefsLeft,undefsRight]
  rw [same] at adds
  exact ⟨impl,run,[],adds.rows,by simp,List.Pairwise.nil,by simp⟩

theorem undefRounds_sorted_iff (splitLeft : Split left leftSide)
    (splitRight : Split right rightSide) (some : StartsWithUndef left ∨ StartsWithUndef right)
    (run : zipperJoinForBlocksWithPotentialUndef false left right =
      joinAfterUndefs undefConfig leftSide rightSide) :
    SortedByJoinColumn left right ↔ KeepsOrder left right := by
  have finish := finishPairs_sorted_iff startLeft startRight splitLeft splitRight
  have unfolded : KeepsOrder left right ↔ ((¬ HiddenUndef left ∧ ¬ HiddenUndef right) ∨ leftSide.pending = [] ∨ rightSide.pending = []) ∧
      ((finishPairs leftSide rightSide).map merged).Pairwise (· ≤ ·) := by
    rw [finish,startLeft.pending_nil_iff,startRight.pending_nil_iff,KeepsOrder,← not_or]
    simp [some,AllFound]
  rw [unfolded]
  by_cases exhausted : leftSide.pending = [] ∨ rightSide.pending = []
  · obtain ⟨impl,rounds,ordered⟩ := joinRounds_exhausted_ordered startLeft startRight exhausted
      (leftSide.pending.length + rightSide.pending.length) (addCartesianProduct leftSide.undefBlocks rightSide.undefBlocks {})
    rw [joinAfterUndefs,rounds] at run
    rw [sortedByJoinColumn_iff startLeft startRight run ordered,and_iff_right (Or.inr exhausted)]
  by_cases hidden : HiddenUndef left ∨ HiddenUndef right
  · apply iff_of_false
    · intro sorted
      obtain ⟨action,ok,_⟩ := sorted
      rw [not_or] at exhausted
      obtain ⟨failure,fails⟩ := undefRounds_fail (fun _ => rfl) startLeft startRight exhausted.1 exhausted.2 hidden
        (leftSide.pending.length + rightSide.pending.length) (addCartesianProduct leftSide.undefBlocks rightSide.undefBlocks {})
      rw [run,joinAfterUndefs,fails] at ok
      cases ok
    · intro condition
      rcases condition.1 with defined | nil
      · exact hidden.elim defined.1 defined.2
      · exact exhausted nil
  · rw [not_or] at hidden
    obtain ⟨impl,rounds,ordered⟩ := joinRounds_ordered undefConfig_lawful rfl
      (afterUndefs leftSide rightSide)
      (by simp [undefConfig,Config.potentiallyHasUndef]) (startLeft.inv hidden.1) (startRight.inv hidden.2) _ (Nat.lt_succ_self _)
    rw [joinAfterUndefs,rounds] at run
    rw [sortedByJoinColumn_iff startLeft startRight run ordered,and_iff_right (Or.inl hidden)]

theorem alwaysFalse_sorted (notLeft : ¬ StartsWithUndef left) (notRight : ¬ StartsWithUndef right)
    (run : zipperJoinForBlocksWithPotentialUndef false left right =
      joinAfterUndefs ⟨none,false⟩ leftSide rightSide) :
    SortedByJoinColumn left right := by
  have lawful : (⟨none,false⟩ : Config κ).Lawful := by
    intro undef element isUndef
    simp [Config.isUndef] at isUndef
  have noLeft := startLeft.unsplit.mpr notLeft
  have noRight := startRight.unsplit.mpr notRight
  obtain ⟨impl,rounds,ordered⟩ := joinRounds_ordered lawful rfl
    (afterUndefs leftSide rightSide) (fun _ => ⟨noLeft,noRight⟩)
    (startLeft.inv_alwaysFalse noLeft) (startRight.inv_alwaysFalse noRight) _ (Nat.lt_succ_self _)
  rw [joinAfterUndefs,rounds] at run
  rw [sortedByJoinColumn_iff startLeft startRight run ordered]
  have nothing : finishPairs leftSide rightSide = [] := by
    rw [finishPairs]
    cases groups (rightSide.pending.filter (beyond leftSide.pending)) <;>
      simp [JoinSide.undefs,noLeft,noRight,remainingLeft,remainingRight]
  simp [nothing]

end

theorem undefJoin_sorted_iff (left right : List (List κ)) (sortedLeft : left.flatten.Pairwise (· ≤ ·))
    (sortedRight : right.flatten.Pairwise (· ≤ ·)) : SortedByJoinColumn left right ↔ KeepsOrder left right := by
  have startLeft := findFirstBlockWithoutUndef_start sortedLeft
  have startRight := findFirstBlockWithoutUndef_start sortedRight
  have run := withPotentialUndef_eq false startLeft startRight rfl rfl
  by_cases some : StartsWithUndef left ∨ StartsWithUndef right
  · rw [if_pos some] at run
    exact undefRounds_sorted_iff startLeft startRight (findFirstBlockWithoutUndef_split sortedLeft)
      (findFirstBlockWithoutUndef_split sortedRight) some run
  · rw [if_neg some] at run
    rw [not_or] at some
    exact iff_of_true (alwaysFalse_sorted startLeft startRight some.1 some.2 run) (Or.inl some)

/-- The two UNDEF rows are joined one after the other with the values `1` and `2`. -/
theorem undefJoin_not_sorted : ¬ SortedByJoinColumn (κ := Nat) [[0,0]] [[1,2]] := by
  have run : zipperJoinForBlocksWithPotentialUndef false ([[0,0]] : List (List Nat)) [[1,2]] =
      .ok ⟨0,0,[((0,0),(0,0)),((0,0),(0,1)),((0,1),(0,0)),((0,1),(0,1))],[]⟩ := by rfl
  intro sorted
  obtain ⟨action,ok,inOrder⟩ := sorted
  rw [run] at ok
  cases ok
  exact absurd inOrder (by decide)

theorem undefJoin_sorted_iff_keepsOrder :
    SortedByJoinColumn (κ := Nat) [[0,1],[2,3]] [[0],[1,2]] ↔ KeepsOrder (κ := Nat) [[0,1],[2,3]] [[0],[1,2]] :=
  undefJoin_sorted_iff [[0,1],[2,3]] [[0],[1,2]] (by decide) (by decide)

end Input
end Qlever.BlockZipperJoin
