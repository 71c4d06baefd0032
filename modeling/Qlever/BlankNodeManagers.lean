import Qlever.LocalVocab
import Qlever.Library.Run

/-! All managers of blank nodes of local vocabularies against one `BlankNodeManager`. A merge shares the vectors of blocks, and the deleter of a
vector runs when no manager points to it any more. A vector has the number of the manager that created it.
-/
namespace Qlever.BlankNodeManagers
open Qlever.Library
open Function (update)

inductive Failure
  | criticalNumberOfBlocks
  | stillDrawing
  | blockNotContained
  | iteratorInvalidated
  | danglingPointer
  deriving DecidableEq, Repr

structure LocalBlankNodeManager where
  idxAfterCurrentBlock : Nat := 0
  otherBlocks : List Nat := []
  deriving DecidableEq, Repr

structure State where
  usedBlocksSet : Finset Nat := ∅
  blocks : Nat → Option (List BlankNodeBlock) := fun _ => none
  managers : Nat → Option LocalBlankNodeManager := fun _ => none
  numManagers : Nat := 0

inductive Operation
  | create
  | getId (manager : Nat) (draws : List Nat)
  | mergeWith (manager : Nat) (localBlankNodeManagers : List (Option Nat))
  | destroy (manager : Nat)
  deriving DecidableEq, Repr

section Definitions
variable (minIndex : Nat)

def allocateBlock (usedBlocksSet : Finset Nat) (draws : List Nat) : Except Failure (BlankNodeBlock × Finset Nat) :=
  if usedBlocksSet.card < totalAvailableBlocks minIndex / 256 then
    match draws.find? (fun blockIdx => blockIdx ∉ usedBlocksSet) with
    | some blockIdx =>
      .ok (⟨blockIdx,minIndex + blockIdx * blockSize,minIndex + blockIdx * blockSize⟩,insert blockIdx usedBlocksSet)
    | none => .error .stillDrawing
  else .error .criticalNumberOfBlocks

def create (state : State) : State where
  usedBlocksSet := state.usedBlocksSet
  blocks := update state.blocks state.numManagers (some [])
  managers := update state.managers state.numManagers (some {})
  numManagers := state.numManagers + 1

def getIdFromNewBlock (manager : Nat) (self : LocalBlankNodeManager) (blocks : List BlankNodeBlock) (draws : List Nat) (state : State) :
    Except Failure (State × Nat) := do
  let (block,usedBlocksSet) ← allocateBlock minIndex state.usedBlocksSet draws
  return ({state with
    usedBlocksSet := usedBlocksSet
    blocks := update state.blocks manager (some (blocks ++ [{block with nextIdx := block.nextIdx + 1}]))
    managers := update state.managers manager (some {self with idxAfterCurrentBlock := block.nextIdx + blockSize})},block.nextIdx)

def getId (manager : Nat) (draws : List Nat) (state : State) : Except Failure (State × Nat) :=
  match state.managers manager,state.blocks manager with
  | some self,some blocks =>
    match blocks.getLast? with
    | none => getIdFromNewBlock minIndex manager self blocks draws state
    | some block =>
      if block.nextIdx = self.idxAfterCurrentBlock then getIdFromNewBlock minIndex manager self blocks draws state
      else .ok ({state with
        blocks := update state.blocks manager (some (blocks.dropLast ++ [{block with nextIdx := block.nextIdx + 1}]))},block.nextIdx)
  | _,_ => .error .danglingPointer

def containsBlankNodeIndex (state : State) (manager : Nat) (index : Nat) : Bool :=
  match state.managers manager with
  | none => false
  | some self => (manager::self.otherBlocks).any (fun pointer => ((state.blocks pointer).getD []).any (fun block => block.containsIndex index))

/-- The loop of `mergeWith`, with the vector `otherBlocks_` so far. Copying this vector to its own end invalidates the iterators, unless it
is empty. -/
def mergeLoop (managers : Nat → Option LocalBlankNodeManager) (manager : Nat) : List (Option Nat) → List Nat → Except Failure (List Nat)
  | [],otherBlocks => .ok otherBlocks
  | none::rest,otherBlocks => mergeLoop managers manager rest otherBlocks
  | some other::rest,otherBlocks =>
    if other = manager then
      if otherBlocks.isEmpty then mergeLoop managers manager rest [manager] else .error .iteratorInvalidated
    else
      match managers other with
      | none => .error .danglingPointer
      | some l => mergeLoop managers manager rest (otherBlocks ++ l.otherBlocks ++ [other])

def mergeWith (manager : Nat) (localBlankNodeManagers : List (Option Nat)) (state : State) : Except Failure State :=
  match state.managers manager with
  | none => .error .danglingPointer
  | some self => do
    let otherBlocks ← mergeLoop state.managers manager localBlankNodeManagers self.otherBlocks
    return {state with managers := update state.managers manager (some {self with otherBlocks := otherBlocks})}

def deleteBlocks (blocks : List BlankNodeBlock) (usedBlocksSet : Finset Nat) : Except Failure (Finset Nat) :=
  blocks.foldlM (fun used block => if block.blockIdx ∈ used then .ok (used.erase block.blockIdx) else .error .blockNotContained) usedBlocksSet

def isHeld (state : State) (pointer : Nat) : Bool :=
  (List.range state.numManagers).any (fun manager => (state.managers manager).any (fun self => pointer ∈ manager::self.otherBlocks))

/-- The pointers of a manager are destroyed one after the other. The last pointer to a vector deletes it. -/
def dropPointers (held : Nat → Bool) : List Nat → Finset Nat → (Nat → Option (List BlankNodeBlock)) →
    Except Failure (Finset Nat × (Nat → Option (List BlankNodeBlock)))
  | [],usedBlocksSet,blocks => .ok (usedBlocksSet,blocks)
  | pointer::pointers,usedBlocksSet,blocks =>
    if pointer ∈ pointers ∨ held pointer then dropPointers held pointers usedBlocksSet blocks
    else
      match blocks pointer with
      | none => .error .danglingPointer
      | some vector => do
        let usedBlocksSet ← deleteBlocks vector usedBlocksSet
        dropPointers held pointers usedBlocksSet (update blocks pointer none)

def destroy (manager : Nat) (state : State) : Except Failure State :=
  match state.managers manager with
  | none => .error .danglingPointer
  | some self => do
    let remaining := {state with managers := update state.managers manager none}
    let (usedBlocksSet,blocks) ← dropPointers (isHeld remaining) (self.otherBlocks ++ [manager]) state.usedBlocksSet state.blocks
    return {remaining with usedBlocksSet := usedBlocksSet,blocks := blocks}

def step (state : State) : Operation → Except Failure (State × Option Nat)
  | .create => .ok (create state,none)
  | .getId manager draws => do
    let (next,index) ← getId minIndex manager draws state
    return (next,some index)
  | .mergeWith manager localBlankNodeManagers => do
    let next ← mergeWith manager localBlankNodeManagers state
    return (next,none)
  | .destroy manager => do
    let next ← destroy manager state
    return (next,none)

end Definitions

section Specification

/-- The indices that each manager has returned, and the managers that were merged into each manager. -/
structure History where
  returned : List (Nat × Nat) := []
  merged : Nat → List Nat := fun _ => []

def History.record (history : History) : Operation → Option Nat → History
  | .getId manager _,some index => {history with returned := history.returned ++ [(manager,index)]}
  | .mergeWith manager localBlankNodeManagers,_ => {history with
      merged := update history.merged manager
        (history.merged manager ++ localBlankNodeManagers.reduceOption.flatMap (fun other => history.merged other ++ [other]))}
  | _,_ => history

def IsLiving (state : State) (manager : Nat) : Prop := (state.managers manager).isSome

def IsCall (minIndex : Nat) (state : State) : Operation → Prop
  | .create => True
  | .getId manager draws => IsLiving state manager ∧ ∀ blockIdx ∈ draws,blockIdx < totalAvailableBlocks minIndex
  | .mergeWith manager localBlankNodeManagers => IsLiving state manager ∧ ∀ other ∈ localBlankNodeManagers.reduceOption,IsLiving state other
  | .destroy manager => IsLiving state manager

instance (state : State) (manager : Nat) : Decidable (IsLiving state manager) := inferInstanceAs (Decidable (_ = true))

instance (minIndex : Nat) (state : State) : (operation : Operation) → Decidable (IsCall minIndex state operation)
  | .create => inferInstanceAs (Decidable True)
  | .getId manager draws => inferInstanceAs (Decidable (IsLiving state manager ∧ ∀ blockIdx ∈ draws,blockIdx < totalAvailableBlocks minIndex))
  | .mergeWith manager list => inferInstanceAs (Decidable (IsLiving state manager ∧ ∀ other ∈ list.reduceOption,IsLiving state other))
  | .destroy manager => inferInstanceAs (Decidable (IsLiving state manager))

/-- A manager is merged with itself at most as the first manager of a list, and only as long as nothing was merged into it. -/
def MergesOthers (state : State) : Operation → Prop
  | .mergeWith manager localBlankNodeManagers => manager ∉ localBlankNodeManagers.reduceOption ∨
      (state.managers manager).all (·.otherBlocks.isEmpty) ∧ localBlankNodeManagers.reduceOption.head? = some manager ∧
        manager ∉ localBlankNodeManagers.reduceOption.tail
  | _ => True

instance (state : State) : (operation : Operation) → Decidable (MergesOthers state operation)
  | .mergeWith manager list => inferInstanceAs (Decidable (manager ∉ list.reduceOption ∨
      (state.managers manager).all (·.otherBlocks.isEmpty) ∧ list.reduceOption.head? = some manager ∧ manager ∉ list.reduceOption.tail))
  | .create => inferInstanceAs (Decidable True)
  | .getId _ _ => inferInstanceAs (Decidable True)
  | .destroy _ => inferInstanceAs (Decidable True)

inductive Run (minIndex : Nat) : State → History → Prop
  | start : Run minIndex {} {}
  | step {state next : State} {history : History} {result : Option Nat} (operation : Operation) (run : Run minIndex state history)
      (call : IsCall minIndex state operation) (others : MergesOthers state operation)
      (done : step minIndex state operation = .ok (next,result)) : Run minIndex next (history.record operation result)

def Belongs (state : State) (history : History) (origin : Nat) : Prop :=
  ∃ manager,IsLiving state manager ∧ (origin = manager ∨ origin ∈ history.merged manager)

structure Guarantees (minIndex : Nat) (state : State) (history : History) : Prop where
  distinct : history.returned.Pairwise (fun first second => Belongs state history first.1 → Belongs state history second.1 → first.2 ≠ second.2)
  range : ∀ entry ∈ history.returned,minIndex ≤ entry.2 ∧ entry.2 < 2 ^ 60
  /-- No block of a living manager is released. -/
  held : ∀ manager self,state.managers manager = some self → ∀ pointer ∈ manager::self.otherBlocks,
    ∃ blocks,state.blocks pointer = some blocks ∧ ∀ block ∈ blocks,block.blockIdx ∈ state.usedBlocksSet
  contains : ∀ manager,IsLiving state manager → ∀ index,containsBlankNodeIndex state manager index = true ↔
    ∃ origin,(origin,index) ∈ history.returned ∧ (origin = manager ∨ origin ∈ history.merged manager)
  /-- Only an allocation can fail, and only for too many blocks or as long as the generator draws blocks that are in use. -/
  progress : ∀ operation,IsCall minIndex state operation → MergesOthers state operation →
    (∃ result,step minIndex state operation = .ok result) ∨
      (step minIndex state operation = .error .criticalNumberOfBlocks ∨ step minIndex state operation = .error .stillDrawing)

end Specification
end Qlever.BlankNodeManagers
