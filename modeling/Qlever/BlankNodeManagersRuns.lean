import Qlever.BlankNodeManagers

/-! What holds in all runs of the managers of blank nodes: two vectors that a living manager points to have different blocks, and the indices that
a manager has returned are those that its vector contains.
-/
namespace Qlever.BlankNodeManagers
open Qlever.Library List
open Function (update update_self update_of_ne update_apply)
variable {minIndex : Nat} {state next : State} {history : History}

def Alive (state : State) (pointer : Nat) : Prop := ∃ manager self,state.managers manager = some self ∧ pointer ∈ manager::self.otherBlocks

structure Stored (minIndex : Nat) (usedBlocksSet : Finset Nat) (vector : List BlankNodeBlock) : Prop where
  start : ∀ block ∈ vector,block.startIdx = minIndex + block.blockIdx * blockSize
  range : ∀ block ∈ vector,block.startIdx ≤ block.nextIdx ∧ block.nextIdx ≤ block.startIdx + blockSize
  available : ∀ block ∈ vector,block.blockIdx < totalAvailableBlocks minIndex
  nodup : (vector.map (·.blockIdx)).Nodup
  used : ∀ block ∈ vector,block.blockIdx ∈ usedBlocksSet

structure Invariant (minIndex : Nat) (state : State) (history : History) : Prop where
  numbered : ∀ manager self,state.managers manager = some self → ∀ pointer ∈ manager::self.otherBlocks,pointer < state.numManagers
  stored : ∀ pointer,Alive state pointer → ∃ vector,state.blocks pointer = some vector ∧ Stored minIndex state.usedBlocksSet vector
  apart : ∀ first second vector other,Alive state first → Alive state second → state.blocks first = some vector → state.blocks second = some other →
    first ≠ second → ∀ x ∈ vector,∀ y ∈ other,x.blockIdx ≠ y.blockIdx
  current : ∀ manager self vector block,state.managers manager = some self → state.blocks manager = some vector →
    vector.getLast? = some block → self.idxAfterCurrentBlock = block.startIdx + blockSize
  returned : ∀ pointer vector,Alive state pointer → state.blocks pointer = some vector →
    ∀ index,(pointer,index) ∈ history.returned ↔ ∃ block ∈ vector,block.containsIndex index = true
  distinct : history.returned.Pairwise (fun first second => Alive state first.1 → Alive state second.1 → first.2 ≠ second.2)
  range : ∀ entry ∈ history.returned,minIndex ≤ entry.2 ∧ entry.2 < 2 ^ 60
  known : ∀ entry ∈ history.returned,entry.1 < state.numManagers
  merged : ∀ manager self,state.managers manager = some self → history.merged manager = self.otherBlocks
  unmerged : ∀ manager,state.numManagers ≤ manager → history.merged manager = []

theorem IsLiving.exists {manager : Nat} (living : IsLiving state manager) : ∃ self,state.managers manager = some self := Option.isSome_iff_exists.mp living

theorem alive_of_living {manager : Nat} {self : LocalBlankNodeManager} (living : state.managers manager = some self) : Alive state manager :=
  ⟨manager,self,living,mem_cons_self⟩

section Blocks
variable {used : Finset Nat} {vector : List BlankNodeBlock} {block : BlankNodeBlock} {index : Nat}

theorem containsIndex_iff : block.containsIndex index = true ↔ block.startIdx ≤ index ∧ index < block.nextIdx := by
  simp [BlankNodeBlock.containsIndex]

section
variable (stored : Stored minIndex used vector) (member : block ∈ vector)
include stored member

theorem Stored.blockIdx_eq (lower : block.startIdx ≤ index)
    (upper : index < block.startIdx + blockSize) : block.blockIdx = (index - minIndex) / blockSize := by
  have start := stored.start block member
  unfold blockSize at *
  omega

theorem Stored.contains_blockIdx (contains : block.containsIndex index = true) :
    block.blockIdx = (index - minIndex) / blockSize := by
  obtain ⟨lower,upper⟩ := containsIndex_iff.mp contains
  exact stored.blockIdx_eq member lower (upper.trans_le (stored.range block member).2)

theorem Stored.in_range (lower : block.startIdx ≤ index)
    (upper : index < block.startIdx + blockSize) : minIndex ≤ index ∧ index < 2 ^ 60 := by
  have start := stored.start block member
  have available := stored.available block member
  unfold totalAvailableBlocks blockSize at *
  omega

end

theorem Stored.mono {more : Finset Nat} (stored : Stored minIndex used vector) (all : used ⊆ more) : Stored minIndex more vector :=
  ⟨stored.start,stored.range,stored.available,stored.nodup,fun block member => all (stored.used block member)⟩

end Blocks

section GetId
variable {manager index : Nat} {self self' : LocalBlankNodeManager} {vector vector' : List BlankNodeBlock} {used : Finset Nat}

def State.gave (state : State) (manager : Nat) (self : LocalBlankNodeManager) (vector : List BlankNodeBlock) (used : Finset Nat) : State :=
  {state with
    usedBlocksSet := used
    blocks := update state.blocks manager (some vector)
    managers := update state.managers manager (some self)}

theorem alive_gave (living : state.managers manager = some self) (same : self'.otherBlocks = self.otherBlocks) (vector : List BlankNodeBlock)
    (used : Finset Nat) (pointer : Nat) :
    Alive (state.gave manager self' vector used) pointer ↔ Alive state pointer := by
  constructor
  · rintro ⟨other,l,isOther,member⟩
    by_cases here : other = manager
    · subst here
      simp only [State.gave,update_self,Option.some.injEq] at isOther
      subst isOther
      exact ⟨other,self,living,same ▸ member⟩
    · simp only [State.gave,update_of_ne here] at isOther
      exact ⟨other,l,isOther,member⟩
  · rintro ⟨other,l,isOther,member⟩
    by_cases here : other = manager
    · subst here
      obtain rfl := Option.some.inj (isOther.symm.trans living)
      exact ⟨other,self',by simp [State.gave],same ▸ member⟩
    · exact ⟨other,l,by simp [State.gave,here,isOther],member⟩

theorem Invariant.gave (invariant : Invariant minIndex state history) (living : state.managers manager = some self)
    (isVector : state.blocks manager = some vector) (same : self'.otherBlocks = self.otherBlocks) (more : state.usedBlocksSet ⊆ used)
    (stored : Stored minIndex used vector')
    (contains : ∀ i,(∃ block ∈ vector',block.containsIndex i = true) ↔ (∃ block ∈ vector,block.containsIndex i = true) ∨ i = index)
    (fresh : ∀ pointer other,Alive state pointer → state.blocks pointer = some other → ∀ block ∈ other,¬ block.containsIndex index = true)
    (apart : ∀ pointer other,Alive state pointer → state.blocks pointer = some other → pointer ≠ manager →
      ∀ x ∈ vector',∀ y ∈ other,x.blockIdx ≠ y.blockIdx)
    (current : ∀ block,vector'.getLast? = some block → self'.idxAfterCurrentBlock = block.startIdx + blockSize)
    (range : minIndex ≤ index ∧ index < 2 ^ 60) :
    Invariant minIndex (state.gave manager self' vector' used) {history with returned := history.returned ++ [(manager,index)]} := by
  have alive := alive_gave living same vector' used
  have isKnown : manager < state.numManagers := invariant.numbered manager self living manager mem_cons_self
  have blocks : ∀ pointer,(state.gave manager self' vector' used).blocks pointer = if pointer = manager then some vector' else state.blocks pointer := by
    intro pointer
    simp [State.gave,update_apply]
  have others : ∀ other l,other ≠ manager → (state.gave manager self' vector' used).managers other = some l → state.managers other = some l := by
    intro other l different isOther
    simpa [State.gave,different] using isOther
  have isSelf : ∀ l,(state.gave manager self' vector' used).managers manager = some l → l = self' := by
    intro l isManager
    simpa [State.gave,eq_comm] using isManager
  constructor
  case numbered =>
    intro other l isOther pointer member
    by_cases here : other = manager
    · subst here
      obtain rfl := isSelf l isOther
      exact invariant.numbered other self living pointer (same ▸ member)
    · exact invariant.numbered other l (others other l here isOther) pointer member
  case stored =>
    intro pointer isAlive
    rw [blocks]
    split
    next here => exact ⟨vector',rfl,stored⟩
    next there =>
      obtain ⟨other,isOther,otherStored⟩ := invariant.stored pointer ((alive pointer).mp isAlive)
      exact ⟨other,isOther,otherStored.mono more⟩
  case apart =>
    intro first second firstVector secondVector firstAlive secondAlive isFirst isSecond different x isX y isY
    rw [blocks] at isFirst isSecond
    have firstAlive := (alive first).mp firstAlive
    have secondAlive := (alive second).mp secondAlive
    split at isFirst
    next firstHere =>
      obtain rfl := Option.some.inj isFirst
      rw [if_neg (fun secondHere => different (firstHere.trans secondHere.symm))] at isSecond
      exact apart second secondVector secondAlive isSecond (fun secondHere => different (firstHere.trans secondHere.symm)) x isX y isY
    next firstThere =>
      split at isSecond
      next secondHere =>
        obtain rfl := Option.some.inj isSecond
        exact (apart first firstVector firstAlive isFirst firstThere y isY x isX).symm
      next => exact invariant.apart first second firstVector secondVector firstAlive secondAlive isFirst isSecond different x isX y isY
  case current =>
    intro other l otherVector block isOther isOtherVector last
    rw [blocks] at isOtherVector
    split at isOtherVector
    next here =>
      subst here
      obtain rfl := isSelf l isOther
      obtain rfl := Option.some.inj isOtherVector
      exact current block last
    next there => exact invariant.current other l otherVector block (others other l there isOther) isOtherVector last
  case returned =>
    intro pointer otherVector isAlive isOtherVector i
    rw [blocks] at isOtherVector
    simp only [mem_append,mem_singleton,Prod.mk.injEq]
    split at isOtherVector
    next here =>
      subst here
      obtain rfl := Option.some.inj isOtherVector
      rw [contains,invariant.returned pointer vector (alive_of_living living) isVector i]
      simp
    next there =>
      rw [← invariant.returned pointer otherVector ((alive pointer).mp isAlive) isOtherVector i]
      exact or_iff_left (fun ⟨here,_⟩ => there here)
  case distinct =>
    simp only [alive]
    refine pairwise_append.mpr ⟨invariant.distinct,pairwise_singleton _ _,?_⟩
    intro entry member new isNew entryAlive _
    obtain rfl := mem_singleton.mp isNew
    obtain ⟨other,isOther,_⟩ := invariant.stored entry.1 entryAlive
    obtain ⟨block,isBlock,isContained⟩ := (invariant.returned entry.1 other entryAlive isOther entry.2).mp member
    intro equal
    have same : entry.2 = index := equal
    exact fresh entry.1 other entryAlive isOther block isBlock (same ▸ isContained)
  case range =>
    intro entry member
    rcases mem_append.mp member with old | new
    · exact invariant.range entry old
    · obtain rfl := mem_singleton.mp new
      exact range
  case known =>
    intro entry member
    rcases mem_append.mp member with old | new
    · exact invariant.known entry old
    · obtain rfl := mem_singleton.mp new
      exact isKnown
  case merged =>
    intro other l isOther
    by_cases here : other = manager
    · subst here
      obtain rfl := isSelf l isOther
      exact (invariant.merged other self living).trans same.symm
    · exact invariant.merged other l (others other l here isOther)
  case unmerged => exact invariant.unmerged

theorem allocateBlock_cases (minIndex : Nat) (used : Finset Nat) (draws : List Nat) :
    (∃ blockIdx ∈ draws,blockIdx ∉ used ∧
      allocateBlock minIndex used draws = .ok (⟨blockIdx,minIndex + blockIdx * blockSize,minIndex + blockIdx * blockSize⟩,insert blockIdx used)) ∨
    (allocateBlock minIndex used draws = .error .criticalNumberOfBlocks ∨ allocateBlock minIndex used draws = .error .stillDrawing) := by
  unfold allocateBlock
  split
  next few =>
    cases found : draws.find? (fun blockIdx => blockIdx ∉ used) with
    | none => exact Or.inr (Or.inr rfl)
    | some blockIdx => exact Or.inl ⟨blockIdx,mem_of_find?_eq_some found,by simpa using find?_some found,rfl⟩
  next => exact Or.inr (Or.inl rfl)

section
variable (invariant : Invariant minIndex state history) (living : state.managers manager = some self)
include invariant living

variable {draws : List Nat}

theorem Invariant.getIdFromNewBlock
    (isVector : state.blocks manager = some vector) (inRange : ∀ blockIdx ∈ draws,blockIdx < totalAvailableBlocks minIndex) :
    (∃ next index,getIdFromNewBlock minIndex manager self vector draws state = .ok (next,index) ∧
      Invariant minIndex next {history with returned := history.returned ++ [(manager,index)]}) ∨
    (getIdFromNewBlock minIndex manager self vector draws state = .error .criticalNumberOfBlocks ∨
      getIdFromNewBlock minIndex manager self vector draws state = .error .stillDrawing) := by
  rcases allocateBlock_cases minIndex state.usedBlocksSet draws with ⟨blockIdx,isDraw,isFree,allocated⟩ | failed | failed
  · left
    let block : BlankNodeBlock := ⟨blockIdx,minIndex + blockIdx * blockSize,minIndex + blockIdx * blockSize + 1⟩
    refine ⟨state.gave manager {self with idxAfterCurrentBlock := minIndex + blockIdx * blockSize + blockSize} (vector ++ [block])
      (insert blockIdx state.usedBlocksSet),minIndex + blockIdx * blockSize,?_,?_⟩
    · rw [BlankNodeManagers.getIdFromNewBlock,allocated]
      rfl
    obtain ⟨same,isSame,stored⟩ := invariant.stored manager (alive_of_living living)
    obtain rfl := Option.some.inj (isSame.symm.trans isVector)
    -- All blocks of living managers are in use, so the new one is different from them.
    have isNew : ∀ pointer other,Alive state pointer → state.blocks pointer = some other → ∀ y ∈ other,y.blockIdx ≠ blockIdx := by
      intro pointer other isAlive isOther y isY equal
      obtain ⟨otherVector,isOtherVector,otherStored⟩ := invariant.stored pointer isAlive
      obtain rfl := Option.some.inj (isOtherVector.symm.trans isOther)
      exact isFree (equal ▸ otherStored.used y isY)
    have newStored : Stored minIndex (insert blockIdx state.usedBlocksSet) (same ++ [block]) := by
      have all : ∀ {motive : BlankNodeBlock → Prop},(∀ x ∈ same,motive x) → motive block → ∀ x ∈ same ++ [block],motive x := by
        intro motive old new x member
        rcases mem_append.mp member with isOld | isNew
        · exact old x isOld
        · exact mem_singleton.mp isNew ▸ new
      refine ⟨all stored.start rfl,all stored.range ⟨Nat.le_succ _,Nat.add_le_add_left (by decide) _⟩,
        all stored.available (inRange blockIdx isDraw),?_,all (fun x member => Finset.mem_insert_of_mem (stored.used x member)) (Finset.mem_insert_self _ _)⟩
      rw [map_append]
      refine nodup_append.mpr ⟨stored.nodup,nodup_singleton _,?_⟩
      intro first isFirst second isSecond
      obtain ⟨x,isX,rfl⟩ := List.mem_map.mp isFirst
      obtain rfl := mem_singleton.mp isSecond
      exact isNew manager same (alive_of_living living) isSame x isX
    apply invariant.gave living isVector
    case same => rfl
    case more => exact Finset.subset_insert _ _
    case stored => exact newStored
    case contains =>
      intro i
      simp only [mem_append,mem_singleton,or_and_right,exists_or,exists_eq_left]
      refine or_congr Iff.rfl ?_
      rw [containsIndex_iff]
      exact ⟨fun ⟨lower,upper⟩ => Nat.le_antisymm (Nat.le_of_lt_succ upper) lower,fun here => here ▸ ⟨le_rfl,Nat.lt_succ_self _⟩⟩
    case fresh =>
      intro pointer other isAlive isOther y isY isContained
      obtain ⟨otherVector,isOtherVector,otherStored⟩ := invariant.stored pointer isAlive
      obtain rfl := Option.some.inj (isOtherVector.symm.trans isOther)
      apply isNew pointer otherVector isAlive isOtherVector y isY
      rw [otherStored.contains_blockIdx isY isContained,Nat.add_sub_cancel_left]
      exact Nat.mul_div_cancel _ (by decide)
    case apart =>
      intro pointer other isAlive isOther different x isX y isY
      rcases mem_append.mp isX with old | new
      · exact invariant.apart manager pointer same other (alive_of_living living) isAlive isSame isOther different.symm x old y isY
      · obtain rfl := mem_singleton.mp new
        exact (isNew pointer other isAlive isOther y isY).symm
    case current =>
      intro last isLast
      rw [getLast?_append] at isLast
      obtain rfl := Option.some.inj isLast
      rfl
    case range => exact newStored.in_range (mem_append_right _ mem_cons_self) le_rfl (Nat.lt_add_of_pos_right (by decide))
  · right; left
    rw [BlankNodeManagers.getIdFromNewBlock,failed]
    rfl
  · right; right
    rw [BlankNodeManagers.getIdFromNewBlock,failed]
    rfl

theorem Invariant.getIdFromCurrent (isVector : state.blocks manager = some vector) {block : BlankNodeBlock} (isLast : vector.getLast? = some block)
    (free : block.nextIdx ≠ self.idxAfterCurrentBlock) :
    Invariant minIndex {state with
      blocks := update state.blocks manager (some (vector.dropLast ++ [{block with nextIdx := block.nextIdx + 1}]))}
      {history with returned := history.returned ++ [(manager,block.nextIdx)]} := by
  let block' : BlankNodeBlock := {block with nextIdx := block.nextIdx + 1}
  have split : vector = vector.dropLast ++ [block] := (dropLast_append_getLast? block isLast).symm
  obtain ⟨same,isSame,stored⟩ := invariant.stored manager (alive_of_living living)
  obtain rfl := Option.some.inj (isSame.symm.trans isVector)
  have isBlock : block ∈ same := mem_of_getLast? isLast
  have below : block.nextIdx < block.startIdx + blockSize := by
    have after := invariant.current manager self same block living isSame isLast
    have upper := (stored.range block isBlock).2
    omega
  have blockIdx : block.blockIdx = (block.nextIdx - minIndex) / blockSize := stored.blockIdx_eq isBlock (stored.range block isBlock).1 below
  have unchanged : state.gave manager self (same.dropLast ++ [block']) state.usedBlocksSet =
      {state with blocks := update state.blocks manager (some (same.dropLast ++ [block']))} := by
    have sameManagers : update state.managers manager (some self) = state.managers := Function.update_eq_self_iff.mpr living.symm
    rw [State.gave,sameManagers]
  have old : ∀ x ∈ same.dropLast,x ∈ same := fun x member => mem_of_mem_dropLast member
  have newIdx : ∀ x ∈ same.dropLast ++ [block'],∃ y ∈ same,y.blockIdx = x.blockIdx := by
    intro x member
    rcases mem_append.mp member with isOld | isNew
    · exact ⟨x,old x isOld,rfl⟩
    · exact ⟨block,isBlock,mem_singleton.mp isNew ▸ rfl⟩
  rw [← unchanged]
  apply invariant.gave living isSame rfl (Finset.Subset.refl _)
  case stored =>
    have all : ∀ {motive : BlankNodeBlock → Prop},(∀ x ∈ same,motive x) → motive block' → ∀ x ∈ same.dropLast ++ [block'],motive x := by
      intro motive kept new x member
      rcases mem_append.mp member with isOld | isNew
      · exact kept x (old x isOld)
      · exact mem_singleton.mp isNew ▸ new
    have sameIdx : (same.dropLast ++ [block']).map (·.blockIdx) = same.map (·.blockIdx) := by
      conv => rhs; rw [split]
      simp [block']
    refine ⟨all stored.start (stored.start block isBlock),all stored.range ⟨?_,below⟩,all stored.available (stored.available block isBlock),
      sameIdx ▸ stored.nodup,all stored.used (stored.used block isBlock)⟩
    exact (stored.range block isBlock).1.trans (Nat.le_succ _)
  case contains =>
    intro i
    have grown : block'.containsIndex i = true ↔ block.containsIndex i = true ∨ i = block.nextIdx := by
      have lower := (stored.range block isBlock).1
      rw [containsIndex_iff,containsIndex_iff]
      simp only [block']
      omega
    conv => rhs; rw [split]
    simp only [mem_append,mem_singleton,or_and_right,exists_or,exists_eq_left,grown,or_assoc]
  case fresh =>
    intro pointer other isAlive isOther y isY isContained
    by_cases here : pointer = manager
    · subst here
      obtain rfl := Option.some.inj (isOther.symm.trans isSame)
      have equal : y = block := inj_on_of_nodup_map stored.nodup isY isBlock ((stored.contains_blockIdx isY isContained).trans blockIdx.symm)
      subst equal
      exact absurd (containsIndex_iff.mp isContained).2 (lt_irrefl _)
    · obtain ⟨otherVector,isOtherVector,otherStored⟩ := invariant.stored pointer isAlive
      obtain rfl := Option.some.inj (isOtherVector.symm.trans isOther)
      exact invariant.apart pointer manager otherVector same isAlive (alive_of_living living) isOther isSame here y isY block isBlock
        ((otherStored.contains_blockIdx isY isContained).trans blockIdx.symm)
  case apart =>
    intro pointer other isAlive isOther different x isX y isY
    obtain ⟨z,isZ,equal⟩ := newIdx x isX
    rw [← equal]
    exact invariant.apart manager pointer same other (alive_of_living living) isAlive isSame isOther different.symm z isZ y isY
  case current =>
    intro last isNewLast
    rw [getLast?_append] at isNewLast
    obtain rfl := Option.some.inj isNewLast
    exact invariant.current manager self same block living isSame isLast
  case range => exact stored.in_range isBlock (stored.range block isBlock).1 below

theorem Invariant.getId
    (inRange : ∀ blockIdx ∈ draws,blockIdx < totalAvailableBlocks minIndex) :
    (∃ next index,getId minIndex manager draws state = .ok (next,index) ∧
      Invariant minIndex next {history with returned := history.returned ++ [(manager,index)]}) ∨
    (getId minIndex manager draws state = .error .criticalNumberOfBlocks ∨ getId minIndex manager draws state = .error .stillDrawing) := by
  obtain ⟨vector,isVector,_⟩ := invariant.stored manager (alive_of_living living)
  have fromNew := invariant.getIdFromNewBlock living isVector inRange
  cases isLast : vector.getLast? with
  | none =>
    have eq : BlankNodeManagers.getId minIndex manager draws state = BlankNodeManagers.getIdFromNewBlock minIndex manager self vector draws state := by
      simp [BlankNodeManagers.getId,living,isVector,isLast]
    rw [eq]
    exact fromNew
  | some block =>
    by_cases full : block.nextIdx = self.idxAfterCurrentBlock
    · have eq : BlankNodeManagers.getId minIndex manager draws state = BlankNodeManagers.getIdFromNewBlock minIndex manager self vector draws state := by
        simp [BlankNodeManagers.getId,living,isVector,isLast,full]
      rw [eq]
      exact fromNew
    · exact Or.inl ⟨_,_,by simp [BlankNodeManagers.getId,living,isVector,isLast,full],invariant.getIdFromCurrent living isVector isLast full⟩

end

end GetId
section Create

section
variable (invariant : Invariant minIndex state history)
include invariant

theorem alive_create (pointer : Nat) :
    Alive (create state) pointer ↔ Alive state pointer ∨ pointer = state.numManagers := by
  have unused : state.managers state.numManagers = none := by
    cases isSelf : state.managers state.numManagers with
    | none => rfl
    | some self => exact absurd (invariant.numbered _ self isSelf _ mem_cons_self) (lt_irrefl _)
  constructor
  · rintro ⟨other,l,isOther,member⟩
    by_cases here : other = state.numManagers
    · subst here
      simp only [create,update_self,Option.some.injEq] at isOther
      subst isOther
      exact Or.inr (mem_singleton.mp member)
    · exact Or.inl ⟨other,l,by simpa [create,here] using isOther,member⟩
  · rintro (⟨other,l,isOther,member⟩ | rfl)
    · have different : other ≠ state.numManagers := by
        rintro rfl
        rw [unused] at isOther
        exact Option.some_ne_none l isOther.symm
      exact ⟨other,l,by simp [create,different,isOther],member⟩
    · exact ⟨state.numManagers,{},by simp [create],mem_cons_self⟩

theorem Invariant.alive_lt {pointer : Nat} (isAlive : Alive state pointer) : pointer < state.numManagers := by
  obtain ⟨other,l,isOther,member⟩ := isAlive
  exact invariant.numbered other l isOther pointer member

theorem Invariant.create : Invariant minIndex (create state) history := by
  have alive := alive_create invariant
  have blocks : ∀ pointer,(BlankNodeManagers.create state).blocks pointer = if pointer = state.numManagers then some [] else state.blocks pointer := by
    intro pointer
    simp [BlankNodeManagers.create,update_apply]
  have managers : ∀ manager self,(BlankNodeManagers.create state).managers manager = some self →
      (manager = state.numManagers ∧ self = {}) ∨ (manager ≠ state.numManagers ∧ state.managers manager = some self) := by
    intro manager self isSelf
    by_cases here : manager = state.numManagers
    · subst here
      exact Or.inl ⟨rfl,by simpa [BlankNodeManagers.create,eq_comm] using isSelf⟩
    · exact Or.inr ⟨here,by simpa [BlankNodeManagers.create,here] using isSelf⟩
  have old : ∀ {pointer : Nat},Alive (BlankNodeManagers.create state) pointer → pointer ≠ state.numManagers → Alive state pointer :=
    fun isAlive there => ((alive _).mp isAlive).resolve_right there
  constructor
  case numbered =>
    intro manager self isSelf pointer member
    rcases managers manager self isSelf with ⟨rfl,rfl⟩ | ⟨_,isOld⟩
    · exact mem_singleton.mp member ▸ Nat.lt_succ_self _
    · exact (invariant.numbered manager self isOld pointer member).trans (Nat.lt_succ_self _)
  case stored =>
    intro pointer isAlive
    rw [blocks]
    split
    next => exact ⟨[],rfl,by simp,by simp,by simp,by simp,by simp⟩
    next there => exact invariant.stored pointer (old isAlive there)
  case apart =>
    intro first second vector other firstAlive secondAlive isFirst isSecond different x isX y isY
    rw [blocks] at isFirst isSecond
    split at isFirst
    next =>
      obtain rfl := Option.some.inj isFirst
      exact absurd isX not_mem_nil
    next firstThere =>
      split at isSecond
      next =>
        obtain rfl := Option.some.inj isSecond
        exact absurd isY not_mem_nil
      next secondThere =>
        exact invariant.apart first second vector other (old firstAlive firstThere) (old secondAlive secondThere) isFirst isSecond different x isX y isY
  case current =>
    intro manager self vector block isSelf isVector isLast
    rw [blocks] at isVector
    rcases managers manager self isSelf with ⟨rfl,rfl⟩ | ⟨there,isOld⟩
    · obtain rfl := Option.some.inj ((if_pos rfl).symm.trans isVector)
      exact absurd isLast (by simp)
    · rw [if_neg there] at isVector
      exact invariant.current manager self vector block isOld isVector isLast
  case returned =>
    intro pointer vector isAlive isVector index
    rw [blocks] at isVector
    split at isVector
    next here =>
      obtain rfl := Option.some.inj isVector
      have unknown : (pointer,index) ∉ history.returned := fun member => absurd (invariant.known _ member) (here ▸ lt_irrefl _)
      simp [unknown]
    next there => exact invariant.returned pointer vector (old isAlive there) isVector index
  case distinct =>
    -- The new manager has not returned an index.
    refine invariant.distinct.imp_of_mem ?_
    intro first second isFirst isSecond different firstAlive secondAlive
    exact different (old firstAlive (invariant.known first isFirst).ne) (old secondAlive (invariant.known second isSecond).ne)
  case range => exact invariant.range
  case known => exact fun entry member => (invariant.known entry member).trans (Nat.lt_succ_self _)
  case merged =>
    intro manager self isSelf
    rcases managers manager self isSelf with ⟨rfl,rfl⟩ | ⟨_,isOld⟩
    · exact invariant.unmerged _ le_rfl
    · exact invariant.merged manager self isOld
  case unmerged => exact fun manager larger => invariant.unmerged manager ((Nat.le_succ _).trans larger)

end

end Create
section MergeWith
variable {manager : Nat} {self : LocalBlankNodeManager} {list : List (Option Nat)}

def History.pointersOf (history : History) (managers : List Nat) : List Nat := managers.flatMap (fun other => history.merged other ++ [other])

section
variable (known : ∀ other ∈ list.reduceOption,∃ l,state.managers other = some l ∧ history.merged other = l.otherBlocks)
include known

theorem mergeLoop_eq (others : manager ∉ list.reduceOption) (otherBlocks : List Nat) :
    mergeLoop state.managers manager list otherBlocks = .ok (otherBlocks ++ history.pointersOf list.reduceOption) := by
  induction list generalizing otherBlocks with
  | nil => exact congrArg Except.ok (append_nil otherBlocks).symm
  | cons first rest ih =>
    cases first with
    | none => exact ih known others otherBlocks
    | some other =>
      rw [reduceOption_cons_of_some] at known others ⊢
      obtain ⟨l,isOther,sameBlocks⟩ := known other mem_cons_self
      have different : other ≠ manager := fun same => others (same ▸ mem_cons_self)
      rw [mergeLoop,if_neg different,isOther]
      simp only
      rw [ih (forall_mem_cons.mp known).2 (fun member => others (mem_cons_of_mem other member))]
      simp [History.pointersOf,sameBlocks]

theorem mergeLoop_self (nothing : history.merged manager = []) (first : list.reduceOption.head? = some manager) (others : manager ∉ list.reduceOption.tail) :
    mergeLoop state.managers manager list [] = .ok (history.pointersOf list.reduceOption) := by
  induction list with
  | nil => exact absurd first (by simp [reduceOption_nil])
  | cons head rest ih =>
    cases head with
    | none => exact ih known first others
    | some other =>
      rw [reduceOption_cons_of_some] at known first others ⊢
      obtain rfl := Option.some.inj first
      rw [mergeLoop,if_pos rfl]
      simp only [isEmpty_nil,if_true]
      rw [mergeLoop_eq (forall_mem_cons.mp known).2 others]
      simp [History.pointersOf,nothing]

end

theorem Invariant.shares (invariant : Invariant minIndex state history) (living : state.managers manager = some self) {pointers : List Nat}
    (alive : ∀ pointer ∈ pointers,Alive state pointer) :
    Invariant minIndex {state with managers := update state.managers manager (some {self with otherBlocks := self.otherBlocks ++ pointers})}
      {history with merged := update history.merged manager (history.merged manager ++ pointers)} := by
  let shared : State := {state with managers := update state.managers manager (some {self with otherBlocks := self.otherBlocks ++ pointers})}
  have managers : ∀ other l,shared.managers other = some l →
      (other = manager ∧ l = {self with otherBlocks := self.otherBlocks ++ pointers}) ∨ (other ≠ manager ∧ state.managers other = some l) := by
    intro other l isOther
    by_cases here : other = manager
    · subst here
      exact Or.inl ⟨rfl,by simpa [shared,eq_comm] using isOther⟩
    · exact Or.inr ⟨here,by simpa [shared,here] using isOther⟩
  have old : ∀ pointer,Alive shared pointer → Alive state pointer := by
    rintro pointer ⟨other,l,isOther,member⟩
    rcases managers other l isOther with ⟨rfl,rfl⟩ | ⟨_,isOld⟩
    · rw [← cons_append] at member
      rcases mem_append.mp member with mine | added
      · exact ⟨other,self,living,mine⟩
      · exact alive pointer added
    · exact ⟨other,l,isOld,member⟩
  constructor
  case numbered =>
    intro other l isOther pointer member
    exact invariant.alive_lt (old pointer ⟨other,l,isOther,member⟩)
  case stored => exact fun pointer isAlive => invariant.stored pointer (old pointer isAlive)
  case apart =>
    intro first second vector other firstAlive secondAlive
    exact invariant.apart first second vector other (old first firstAlive) (old second secondAlive)
  case current =>
    intro other l vector block isOther isVector isLast
    rcases managers other l isOther with ⟨rfl,rfl⟩ | ⟨_,isOld⟩
    · exact invariant.current other self vector block living isVector isLast
    · exact invariant.current other l vector block isOld isVector isLast
  case returned => exact fun pointer vector isAlive => invariant.returned pointer vector (old pointer isAlive)
  case distinct => exact invariant.distinct.imp (fun different firstAlive secondAlive => different (old _ firstAlive) (old _ secondAlive))
  case range => exact invariant.range
  case known => exact invariant.known
  case merged =>
    intro other l isOther
    rcases managers other l isOther with ⟨rfl,rfl⟩ | ⟨there,isOld⟩
    · exact (update_self ..).trans (by rw [invariant.merged other self living])
    · exact (update_of_ne there ..).trans (invariant.merged other l isOld)
  case unmerged =>
    intro other larger
    have there : other ≠ manager := by
      rintro rfl
      exact absurd (invariant.alive_lt (alive_of_living living)) (not_lt.mpr larger)
    exact (update_of_ne there ..).trans (invariant.unmerged other larger)

theorem Invariant.mergeWith (invariant : Invariant minIndex state history) (call : IsCall minIndex state (.mergeWith manager list))
    (others : MergesOthers state (.mergeWith manager list)) :
    ∃ next,mergeWith manager list state = .ok next ∧ Invariant minIndex next (history.record (.mergeWith manager list) none) := by
  obtain ⟨isLiving,allLiving⟩ := call
  obtain ⟨self,living⟩ := isLiving.exists
  have known : ∀ other ∈ list.reduceOption,∃ l,state.managers other = some l ∧ history.merged other = l.otherBlocks := by
    intro other member
    obtain ⟨l,isOther⟩ := (allLiving other member).exists
    exact ⟨l,isOther,invariant.merged other l isOther⟩
  have alive : ∀ pointer ∈ history.pointersOf list.reduceOption,Alive state pointer := by
    intro pointer member
    obtain ⟨other,isOther,inside⟩ := mem_flatMap.mp member
    obtain ⟨l,isLiving,sameBlocks⟩ := known other isOther
    refine ⟨other,l,isLiving,?_⟩
    rw [sameBlocks] at inside
    simpa [or_comm] using inside
  have looped : mergeLoop state.managers manager list self.otherBlocks = .ok (self.otherBlocks ++ history.pointersOf list.reduceOption) := by
    rcases others with none | ⟨empty,first,rest⟩
    · exact mergeLoop_eq known none self.otherBlocks
    · have nothing : self.otherBlocks = [] := by simpa [living] using empty
      rw [nothing,nil_append]
      exact mergeLoop_self known ((invariant.merged manager self living).trans nothing) first rest
  refine ⟨_,?_,invariant.shares living alive⟩
  rw [BlankNodeManagers.mergeWith,living]
  simp only [looped]
  rfl

end MergeWith
section Destroy
variable {manager : Nat} {self : LocalBlankNodeManager} {held : Nat → Bool} {pointers : List Nat} {used : Finset Nat}
  {blocks : Nat → Option (List BlankNodeBlock)}

theorem deleteBlocks_spec {vector : List BlankNodeBlock} (nodup : (vector.map (·.blockIdx)).Nodup) (all : ∀ block ∈ vector,block.blockIdx ∈ used) :
    ∃ rest,deleteBlocks vector used = .ok rest ∧ ∀ blockIdx,blockIdx ∈ rest ↔ blockIdx ∈ used ∧ blockIdx ∉ vector.map (·.blockIdx) := by
  induction vector generalizing used with
  | nil => exact ⟨used,rfl,by simp⟩
  | cons block vector ih =>
    rw [map_cons,nodup_cons] at nodup
    have remaining : ∀ other ∈ vector,other.blockIdx ∈ used.erase block.blockIdx := by
      intro other member
      refine Finset.mem_erase.mpr ⟨?_,all other (mem_cons_of_mem block member)⟩
      intro same
      exact nodup.1 (same ▸ mem_map_of_mem member)
    obtain ⟨rest,run,mem⟩ := ih nodup.2 remaining
    refine ⟨rest,?_,?_⟩
    · rw [deleteBlocks,foldlM_cons,if_pos (all block mem_cons_self)]
      exact run
    · intro blockIdx
      rw [mem,Finset.mem_erase,map_cons,mem_cons]
      tauto

structure Droppable (held : Nat → Bool) (pointers : List Nat) (used : Finset Nat) (blocks : Nat → Option (List BlankNodeBlock)) : Prop where
  stored : ∀ pointer ∈ pointers,held pointer = false →
    ∃ vector,blocks pointer = some vector ∧ (vector.map (·.blockIdx)).Nodup ∧ ∀ block ∈ vector,block.blockIdx ∈ used
  apart : ∀ first ∈ pointers,∀ second ∈ pointers,held first = false → held second = false → first ≠ second →
    ∀ vector other,blocks first = some vector → blocks second = some other → ∀ x ∈ vector,∀ y ∈ other,x.blockIdx ≠ y.blockIdx

theorem dropPointers_spec (droppable : Droppable held pointers used blocks) :
    ∃ usedAfter blocksAfter,dropPointers held pointers used blocks = .ok (usedAfter,blocksAfter) ∧
      (∀ pointer,held pointer = true → blocksAfter pointer = blocks pointer) ∧
      ∀ blockIdx ∈ used,(∀ pointer ∈ pointers,held pointer = false → ∀ vector,blocks pointer = some vector → ∀ block ∈ vector,block.blockIdx ≠ blockIdx) →
        blockIdx ∈ usedAfter := by
  induction pointers generalizing used blocks with
  | nil => exact ⟨used,blocks,rfl,fun _ _ => rfl,fun _ member _ => member⟩
  | cons pointer pointers ih =>
    by_cases kept : pointer ∈ pointers ∨ held pointer = true
    · have later : Droppable held pointers used blocks :=
        ⟨fun p member => droppable.stored p (mem_cons_of_mem pointer member),
          fun first isFirst second isSecond => droppable.apart first (mem_cons_of_mem pointer isFirst) second (mem_cons_of_mem pointer isSecond)⟩
      obtain ⟨usedAfter,blocksAfter,run,unchanged,remains⟩ := ih later
      refine ⟨usedAfter,blocksAfter,?_,unchanged,?_⟩
      · rw [dropPointers,if_pos kept]
        exact run
      · intro blockIdx isUsed free
        exact remains blockIdx isUsed (forall_mem_cons.mp free).2
    · obtain ⟨notLater,notHeld⟩ := not_or.mp kept
      have notHeld : held pointer = false := Bool.eq_false_iff.mpr notHeld
      obtain ⟨vector,isVector,nodup,all⟩ := droppable.stored pointer mem_cons_self notHeld
      obtain ⟨rest,deleted,mem⟩ := deleteBlocks_spec nodup all
      have there : ∀ p ∈ pointers,p ≠ pointer := fun p member same => notLater (same ▸ member)
      have sameBlocks : ∀ p ∈ pointers,update blocks pointer none p = blocks p := fun p member => update_of_ne (there p member) ..
      have later : Droppable held pointers rest (update blocks pointer none) := by
        constructor
        · intro p member free
          obtain ⟨other,isOther,otherNodup,otherUsed⟩ := droppable.stored p (mem_cons_of_mem pointer member) free
          refine ⟨other,(sameBlocks p member).trans isOther,otherNodup,?_⟩
          intro block isBlock
          refine (mem _).mpr ⟨otherUsed block isBlock,?_⟩
          intro inVector
          obtain ⟨x,isX,same⟩ := List.mem_map.mp inVector
          exact droppable.apart pointer mem_cons_self p (mem_cons_of_mem pointer member) notHeld free (there p member).symm vector other
            isVector isOther x isX block isBlock same
        · intro first isFirst second isSecond firstFree secondFree different firstVector secondVector isFirstVector isSecondVector
          rw [sameBlocks first isFirst] at isFirstVector
          rw [sameBlocks second isSecond] at isSecondVector
          exact droppable.apart first (mem_cons_of_mem pointer isFirst) second (mem_cons_of_mem pointer isSecond) firstFree secondFree different
            firstVector secondVector isFirstVector isSecondVector
      obtain ⟨usedAfter,blocksAfter,run,unchanged,remains⟩ := ih later
      refine ⟨usedAfter,blocksAfter,?_,?_,?_⟩
      · rw [dropPointers,if_neg (by simp [notLater,notHeld]),isVector]
        simp only [deleted]
        exact run
      · intro p isHeld
        have different : p ≠ pointer := by
          rintro rfl
          exact Bool.false_ne_true (notHeld.symm.trans isHeld)
        exact (unchanged p isHeld).trans (update_of_ne different ..)
      · intro blockIdx isUsed free
        apply remains blockIdx
        · refine (mem blockIdx).mpr ⟨isUsed,?_⟩
          intro inVector
          obtain ⟨x,isX,same⟩ := List.mem_map.mp inVector
          exact free pointer mem_cons_self notHeld vector isVector x isX same
        · intro p member pFree other isOther
          rw [sameBlocks p member] at isOther
          exact free p (mem_cons_of_mem pointer member) pFree other isOther

theorem isHeld_iff (state : State) (numbered : ∀ manager self,state.managers manager = some self → manager < state.numManagers) (pointer : Nat) :
    isHeld state pointer = true ↔ Alive state pointer := by
  simp only [isHeld,any_eq_true,mem_range,Option.any_eq_true,decide_eq_true_eq]
  constructor
  · rintro ⟨other,_,l,isOther,member⟩
    exact ⟨other,l,isOther,member⟩
  · rintro ⟨other,l,isOther,member⟩
    exact ⟨other,numbered other l isOther,l,isOther,member⟩

theorem Invariant.destroy (invariant : Invariant minIndex state history) (living : state.managers manager = some self) :
    ∃ next,destroy manager state = .ok next ∧ Invariant minIndex next history := by
  let remaining : State := {state with managers := update state.managers manager none}
  have managers : ∀ other l,remaining.managers other = some l → state.managers other = some l := by
    intro other l isOther
    by_cases here : other = manager
    · subst here
      simp [remaining] at isOther
    · simpa [remaining,here] using isOther
  have old : ∀ pointer,Alive remaining pointer → Alive state pointer := fun pointer ⟨other,l,isOther,member⟩ => ⟨other,l,managers other l isOther,member⟩
  have heldIff := isHeld_iff remaining (fun other l isOther => invariant.alive_lt (alive_of_living (managers other l isOther)))
  have notHeld : ∀ pointer,isHeld remaining pointer = false → ¬ Alive remaining pointer := by
    intro pointer free isAlive
    exact Bool.false_ne_true (free.symm.trans ((heldIff pointer).mpr isAlive))
  have mine : ∀ pointer ∈ self.otherBlocks ++ [manager],Alive state pointer := by
    intro pointer member
    exact ⟨manager,self,living,by simpa [or_comm] using member⟩
  have droppable : Droppable (isHeld remaining) (self.otherBlocks ++ [manager]) state.usedBlocksSet state.blocks := by
    constructor
    · intro pointer member _
      obtain ⟨vector,isVector,stored⟩ := invariant.stored pointer (mine pointer member)
      exact ⟨vector,isVector,stored.nodup,stored.used⟩
    · intro first isFirst second isSecond _ _ different vector other isVector isOther
      exact invariant.apart first second vector other (mine first isFirst) (mine second isSecond) isVector isOther different
  obtain ⟨usedAfter,blocksAfter,run,unchanged,remains⟩ := dropPointers_spec droppable
  refine ⟨{remaining with usedBlocksSet := usedAfter,blocks := blocksAfter},?_,?_⟩
  · rw [BlankNodeManagers.destroy,living]
    exact bind_eq_ok.mpr ⟨(usedAfter,blocksAfter),run,rfl⟩
  have sameBlocks : ∀ pointer,Alive remaining pointer → blocksAfter pointer = state.blocks pointer :=
    fun pointer isAlive => unchanged pointer ((heldIff pointer).mpr isAlive)
  constructor
  case numbered => exact fun other l isOther => invariant.numbered other l (managers other l isOther)
  case stored =>
    intro pointer isAlive
    obtain ⟨vector,isVector,stored⟩ := invariant.stored pointer (old pointer isAlive)
    refine ⟨vector,(sameBlocks pointer isAlive).trans isVector,stored.start,stored.range,stored.available,stored.nodup,?_⟩
    intro block isBlock
    apply remains block.blockIdx (stored.used block isBlock)
    intro dropped member free other isOther x isX
    have different : dropped ≠ pointer := fun same => notHeld dropped free (same ▸ isAlive)
    exact invariant.apart dropped pointer other vector (mine dropped member) (old pointer isAlive) isOther isVector different x isX block isBlock
  case apart =>
    intro first second vector other firstAlive secondAlive isFirst isSecond
    exact invariant.apart first second vector other (old first firstAlive) (old second secondAlive) ((sameBlocks first firstAlive).symm.trans isFirst)
      ((sameBlocks second secondAlive).symm.trans isSecond)
  case current =>
    intro other l vector block isOther isVector
    have isAlive : Alive remaining other := alive_of_living isOther
    exact invariant.current other l vector block (managers other l isOther) ((sameBlocks other isAlive).symm.trans isVector)
  case returned =>
    intro pointer vector isAlive isVector
    exact invariant.returned pointer vector (old pointer isAlive) ((sameBlocks pointer isAlive).symm.trans isVector)
  case distinct => exact invariant.distinct.imp (fun different firstAlive secondAlive => different (old _ firstAlive) (old _ secondAlive))
  case range => exact invariant.range
  case known => exact invariant.known
  case merged => exact fun other l isOther => invariant.merged other l (managers other l isOther)
  case unmerged => exact invariant.unmerged

end Destroy

section Runs

theorem Invariant.start : Invariant minIndex {} {} := by
  have nobody : ∀ pointer,¬ Alive {} pointer := fun pointer ⟨_,_,isSelf,_⟩ => Option.some_ne_none _ isSelf.symm
  constructor
  case numbered => exact fun _ _ isSelf => absurd isSelf.symm (Option.some_ne_none _)
  case stored => exact fun pointer isAlive => absurd isAlive (nobody pointer)
  case apart => exact fun first _ _ _ isAlive => absurd isAlive (nobody first)
  case current => exact fun _ _ _ _ isSelf => absurd isSelf.symm (Option.some_ne_none _)
  case returned => exact fun pointer _ isAlive => absurd isAlive (nobody pointer)
  case distinct => exact List.Pairwise.nil
  case range => exact fun _ member => absurd member not_mem_nil
  case known => exact fun _ member => absurd member not_mem_nil
  case merged => exact fun _ _ isSelf => absurd isSelf.symm (Option.some_ne_none _)
  case unmerged => exact fun _ _ => rfl

theorem Invariant.step (invariant : Invariant minIndex state history) (operation : Operation) (call : IsCall minIndex state operation)
    (others : MergesOthers state operation) :
    (∃ next result,step minIndex state operation = .ok (next,result) ∧ Invariant minIndex next (history.record operation result)) ∨
      (step minIndex state operation = .error .criticalNumberOfBlocks ∨ step minIndex state operation = .error .stillDrawing) := by
  cases operation with
  | create => exact Or.inl ⟨_,none,rfl,invariant.create⟩
  | getId manager draws =>
    obtain ⟨self,living⟩ := call.1.exists
    rcases invariant.getId living call.2 with ⟨next,index,run,holds⟩ | failed | failed
    · exact Or.inl ⟨next,some index,bind_eq_ok.mpr ⟨(next,index),run,rfl⟩,holds⟩
    · exact Or.inr (Or.inl (by rw [BlankNodeManagers.step,failed]; rfl))
    · exact Or.inr (Or.inr (by rw [BlankNodeManagers.step,failed]; rfl))
  | mergeWith manager list =>
    obtain ⟨next,run,holds⟩ := invariant.mergeWith call others
    exact Or.inl ⟨next,none,bind_eq_ok.mpr ⟨next,run,rfl⟩,holds⟩
  | destroy manager =>
    obtain ⟨self,living⟩ := IsLiving.exists call
    obtain ⟨next,run,holds⟩ := invariant.destroy living
    exact Or.inl ⟨next,none,bind_eq_ok.mpr ⟨next,run,rfl⟩,holds⟩

theorem Run.invariant (run : Run minIndex state history) : Invariant minIndex state history := by
  induction run with
  | start => exact Invariant.start
  | step operation _ call others done ih =>
    rcases ih.step operation call others with ⟨next,result,isNext,holds⟩ | failed | failed
    · obtain ⟨rfl,rfl⟩ := Prod.mk.inj (Except.ok.inj (isNext.symm.trans done))
      exact holds
    all_goals exact absurd (failed.symm.trans done) (by simp)

theorem Invariant.alive_of_belongs
    (invariant : Invariant minIndex state history) {origin : Nat} (belongs : Belongs state history origin) : Alive state origin := by
  obtain ⟨manager,isLiving,isOrigin⟩ := belongs
  obtain ⟨self,living⟩ := isLiving.exists
  rw [invariant.merged manager self living] at isOrigin
  exact ⟨manager,self,living,mem_cons.mpr isOrigin⟩

theorem Invariant.containsBlankNodeIndex_iff (invariant : Invariant minIndex state history) {manager : Nat} (isLiving : IsLiving state manager) (index : Nat) :
    containsBlankNodeIndex state manager index = true ↔
      ∃ origin,(origin,index) ∈ history.returned ∧ (origin = manager ∨ origin ∈ history.merged manager) := by
  obtain ⟨self,living⟩ := isLiving.exists
  rw [invariant.merged manager self living,containsBlankNodeIndex,living]
  simp only [any_eq_true]
  constructor
  · rintro ⟨pointer,member,block,isBlock,contains⟩
    obtain ⟨vector,isVector,_⟩ := invariant.stored pointer ⟨manager,self,living,member⟩
    rw [isVector] at isBlock
    exact ⟨pointer,(invariant.returned pointer vector ⟨manager,self,living,member⟩ isVector index).mpr ⟨block,isBlock,contains⟩,mem_cons.mp member⟩
  · rintro ⟨origin,isReturned,isOrigin⟩
    have isAlive : Alive state origin := ⟨manager,self,living,mem_cons.mpr isOrigin⟩
    obtain ⟨vector,isVector,_⟩ := invariant.stored origin isAlive
    obtain ⟨block,isBlock,contains⟩ := (invariant.returned origin vector isAlive isVector index).mp isReturned
    exact ⟨origin,mem_cons.mpr isOrigin,block,by rw [isVector]; exact isBlock,contains⟩

/-- In all runs without a repeated merge of a manager with itself, no index is given away twice, and no block of a living manager is released. -/
theorem Run.guarantees (run : Run minIndex state history) : Guarantees minIndex state history := by
  have invariant := run.invariant
  constructor
  case distinct =>
    exact invariant.distinct.imp (fun different first second => different (invariant.alive_of_belongs first) (invariant.alive_of_belongs second))
  case range => exact invariant.range
  case held =>
    intro manager self living pointer member
    obtain ⟨vector,isVector,stored⟩ := invariant.stored pointer ⟨manager,self,living,member⟩
    exact ⟨vector,isVector,stored.used⟩
  case contains => exact fun manager isLiving index => invariant.containsBlankNodeIndex_iff isLiving index
  case progress =>
    intro operation call others
    rcases invariant.step operation call others with ⟨next,result,isNext,_⟩ | failed
    · exact Or.inl ⟨(next,result),isNext⟩
    · exact Or.inr failed

/-- A manager that keeps the blocks of another one, which is destroyed. -/
theorem guarantees_afterMerge : ∃ state history,Guarantees 7 state history ∧ history.returned = [(0,5007),(1,5007 + 1000)] := by
  have initial : Run 7 {} {} := Run.start
  have created := (initial.step .create trivial trivial rfl).step .create trivial trivial rfl
  have given := (created.step (.getId 0 [5]) (by decide) trivial rfl).step (.getId 1 [5,6]) (by decide) trivial rfl
  have merged := given.step (.mergeWith 1 [none,some 0]) (by decide) (by decide) rfl
  have destroyed := merged.step (.destroy 0) (by decide) trivial rfl
  exact ⟨_,_,destroyed.guarantees,rfl⟩

/-- The second merge of a manager with itself reads the vector to which it appends. -/
theorem mergeWith_self_twice : ∃ state history,Run 0 state history ∧ IsCall 0 state (.mergeWith 0 [some 0]) ∧
    step 0 state (.mergeWith 0 [some 0]) = .error .iteratorInvalidated := by
  have initial : Run 0 {} {} := Run.start
  have created := initial.step .create trivial trivial rfl
  have merged := created.step (.mergeWith 0 [some 0]) (by decide) (by decide) rfl
  exact ⟨_,_,merged,by decide,rfl⟩

end Runs
end Qlever.BlankNodeManagers
