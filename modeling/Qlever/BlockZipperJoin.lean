import Qlever.ZipperJoin

/-! The zipper join on blocks, `BlockZipperJoinImpl` of `JoinAlgorithms.h`. The
elements of the blocks are the projected join values, compared by their linear
order. A failed check is an error. `flush` has no influence on which rows are
added and is left out.
-/
namespace Qlever.BlockZipperJoin
open ZipperJoin

inductive Check
  | blockIsEmpty
  | noCurrentBlocks
  | currentElNotSmaller
  | blockNotSorted
  | frontBlockNotJoined
  | undefInLeft
  | undefInRight
  | notFoundButRightHasUndef
  | notAllBlocksFilled
  | statusNotAllFilled
  | moreThanOneBlock
  | outOfFuel
  deriving DecidableEq, Repr

def check (condition : Bool) (failure : Check) : Except Check Unit :=
  if condition then .ok () else .error failure

/-- A block of the input. The `id` stands for its address. -/
structure Block (κ : Type) where
  id : Nat
  elements : List κ
  deriving DecidableEq, Repr

/-- A subrange `[first, first + elements.length)` of the block `fullBlock`. -/
structure BlockAndSubrange (κ : Type) where
  fullBlock : Nat
  first : Nat
  elements : List κ
  deriving DecidableEq, Repr

/-- The calls of the `compatibleRowAction`, with the blocks that were set as input. -/
structure RowAction where
  inputLeft : Nat := 0
  inputRight : Nat := 0
  rows : List ((Nat × Nat) × (Nat × Nat)) := []
  optionalRows : List (Nat × Nat) := []
  deriving DecidableEq, Repr

def RowAction.setInput (left right : Nat) (action : RowAction) : RowAction :=
  {action with inputLeft := left,inputRight := right}

def RowAction.setOnlyLeftInputForOptionalJoin (left : Nat) (action : RowAction) : RowAction :=
  {action with inputLeft := left}

def RowAction.addRow (i j : Nat) (action : RowAction) : RowAction :=
  {action with rows := action.rows ++ [((action.inputLeft,i),(action.inputRight,j))]}

def RowAction.addOptionalRow (i : Nat) (action : RowAction) : RowAction :=
  {action with optionalRows := action.optionalRows ++ [(action.inputLeft,i)]}

variable {κ : Type}

namespace BlockAndSubrange
def ofBlock (block : Block κ) : BlockAndSubrange κ := ⟨block.id,0,block.elements⟩

def subrange (block : BlockAndSubrange κ) : List (Iter κ) := iters block.first block.elements

def empty (block : BlockAndSubrange κ) : Bool := block.elements.isEmpty

def getIndexRange (block : BlockAndSubrange κ) : List Nat :=
  List.range' block.first block.elements.length

def back (block : BlockAndSubrange κ) : Except Check κ :=
  match block.elements.getLast? with
  | none => .error .blockIsEmpty
  | some element => .ok element

end BlockAndSubrange

structure JoinSide (κ : Type) where
  it : List (Block κ)
  currentBlocks : List (BlockAndSubrange κ)
  undefBlocks : List (BlockAndSubrange κ)
  deriving DecidableEq, Repr

/-- `isUndefined` is `none` for `AlwaysFalse`. -/
structure Config (κ : Type) where
  isUndefined : Option (κ → Bool)
  doOptionalJoin : Bool

def Config.potentiallyHasUndef (config : Config κ) : Bool := config.isUndefined.isSome

def Config.isUndef (config : Config κ) (element : κ) : Bool :=
  match config.isUndefined with
  | none => false
  | some isUndefined => isUndefined element

structure Impl (κ : Type) where
  leftSide : JoinSide κ
  rightSide : JoinSide κ
  compatibleRowAction : RowAction
  deriving DecidableEq, Repr

inductive BlockStatus
  | leftMissing
  | rightMissing
  | allFilled
  deriving DecidableEq, Repr

def fetchBlocks : Nat := 3

section Buffers
variable [LinearOrder κ]

def JoinSide.getFirst (side : JoinSide κ) : Except Check κ :=
  match side.currentBlocks with
  | [] => .error .noCurrentBlocks
  | block::_ => block.back

def getCurrentEl (impl : Impl κ) : Except Check κ := do
  let left ← impl.leftSide.getFirst
  let right ← impl.rightSide.getFirst
  return min left right

/-- The loop of `fillEqualToCurrentEl`, where `remaining` more blocks may be added. -/
def fillFrom (currentEl : κ) : Nat → List (Block κ) → List (BlockAndSubrange κ) →
    Except Check (List (Block κ) × List (BlockAndSubrange κ) × Bool)
  | _,[],currentBlocks => .ok ([],currentBlocks,true)
  | 0,block::it,currentBlocks => .ok (block::it,currentBlocks,false)
  | remaining + 1,block::it,currentBlocks =>
    match block.elements with
    | [] => fillFrom currentEl (remaining + 1) it currentBlocks
    | first::_ =>
      if first = currentEl then do
        check (decide (block.elements.Pairwise (· ≤ ·))) .blockNotSorted
        fillFrom currentEl remaining it (currentBlocks ++ [BlockAndSubrange.ofBlock block])
      else do
        check (currentEl < first) .currentElNotSmaller
        return (block::it,currentBlocks,true)

def fillEqualToCurrentEl (side : JoinSide κ) (currentEl : κ) : Except Check (JoinSide κ × Bool) := do
  let (it,currentBlocks,all) ← fillFrom currentEl fetchBlocks side.it side.currentBlocks
  return ({side with it,currentBlocks},all)

def fillEqualToCurrentElBothSides (currentEl : κ) : Nat → Impl κ → Except Check (Impl κ × BlockStatus)
  | 0,_ => .error .outOfFuel
  | fuel + 1,impl => do
    let (leftSide,allBlocksFromLeft) ← fillEqualToCurrentEl impl.leftSide currentEl
    let (rightSide,allBlocksFromRight) ← fillEqualToCurrentEl impl.rightSide currentEl
    let impl := {impl with leftSide,rightSide}
    match allBlocksFromLeft,allBlocksFromRight with
    | false,false => fillEqualToCurrentElBothSides currentEl fuel impl
    | true,false => return (impl,.rightMissing)
    | false,true => return (impl,.leftMissing)
    | true,true => return (impl,.allFilled)

def removeEqualToCurrentEl (blocks : List (BlockAndSubrange κ)) (lastProcessedElement : κ) :
    Except Check (List (BlockAndSubrange κ)) :=
  match blocks.head?,blocks.getLast? with
  | some front,some last => do
    if blocks.length > 1 && !front.empty then
      let back ← front.back
      check (!decide (lastProcessedElement < back)) .frontBlockNotJoined
    let joined := last.elements.takeWhile (fun element => element ≤ lastProcessedElement)
    let unjoined := last.elements.dropWhile (fun element => element ≤ lastProcessedElement)
    return if unjoined.isEmpty then [] else [⟨last.fullBlock,last.first + joined.length,unjoined⟩]
  | _,_ => .error .noCurrentBlocks

/-- The subrange of the elements that are equal to `currentEl`, by `std::equal_range`. -/
def BlockAndSubrange.equalRange (block : BlockAndSubrange κ) (currentEl : κ) : BlockAndSubrange κ :=
  ⟨block.fullBlock,block.first + (block.elements.takeWhile (fun element => element < currentEl)).length,
    (block.elements.dropWhile (fun element => element < currentEl)).takeWhile (fun element => element ≤ currentEl)⟩

def getEqualToCurrentEl (blocks : List (BlockAndSubrange κ)) (currentEl : κ) : List (BlockAndSubrange κ) :=
  match blocks.getLast? with
  | none => []
  | some last => blocks.dropLast ++ [last.equalRange currentEl]

def fillWithAtLeastOneFrom : List (Block κ) → Except Check (List (Block κ) × List (BlockAndSubrange κ))
  | [] => .ok ([],[])
  | block::it =>
    if block.elements.isEmpty then fillWithAtLeastOneFrom it
    else do
      check (decide (block.elements.Pairwise (· ≤ ·))) .blockNotSorted
      return (it,[BlockAndSubrange.ofBlock block])

def fillWithAtLeastOne (side : JoinSide κ) : Except Check (JoinSide κ) :=
  if side.currentBlocks.isEmpty then do
    let (it,currentBlocks) ← fillWithAtLeastOneFrom side.it
    return {side with it,currentBlocks}
  else return side

def fillBuffer (impl : Impl κ) : Except Check (Impl κ × BlockStatus) := do
  check (impl.leftSide.currentBlocks.length ≤ 1) .moreThanOneBlock
  check (impl.rightSide.currentBlocks.length ≤ 1) .moreThanOneBlock
  let leftSide ← fillWithAtLeastOne impl.leftSide
  let rightSide ← fillWithAtLeastOne impl.rightSide
  let impl := {impl with leftSide,rightSide}
  if leftSide.currentBlocks.isEmpty || rightSide.currentBlocks.isEmpty then return (impl,.allFilled)
  else
    let currentEl ← getCurrentEl impl
    fillEqualToCurrentElBothSides currentEl (leftSide.it.length + rightSide.it.length + 1) impl

end Buffers

section Actions

def addCartesianProduct (blocksLeft blocksRight : List (BlockAndSubrange κ)) (action : RowAction) : RowAction :=
  blocksLeft.foldl (fun action lBlock => blocksRight.foldl (fun action rBlock =>
    lBlock.getIndexRange.foldl (fun action i => rBlock.getIndexRange.foldl (fun action j => action.addRow i j) action)
      (action.setInput lBlock.fullBlock rBlock.fullBlock)) action) action

def hasUndef (config : Config κ) (side : JoinSide κ) : Bool :=
  config.potentiallyHasUndef && !side.undefBlocks.isEmpty

/-- Call `addOptionalRow` for all elements of the blocks. -/
def addOptionalRows (blocks : List (BlockAndSubrange κ)) (action : RowAction) : RowAction :=
  blocks.foldl (fun action block => block.getIndexRange.foldl (fun action i => action.addOptionalRow i)
    (action.setOnlyLeftInputForOptionalJoin block.fullBlock)) action

def addNonMatchingRowsFromLeftForOptionalJoin (config : Config κ) (rightSide : JoinSide κ)
    (blocksLeft blocksRight : List (BlockAndSubrange κ)) (action : RowAction) : RowAction :=
  if config.doOptionalJoin && !hasUndef config rightSide && blocksRight.all (·.empty) then
    addOptionalRows blocksLeft action
  else action

def addAll (config : Config κ) (rightSide : JoinSide κ) (blocksLeft blocksRight : List (BlockAndSubrange κ))
    (action : RowAction) : RowAction :=
  addCartesianProduct blocksLeft blocksRight
    (addNonMatchingRowsFromLeftForOptionalJoin config rightSide blocksLeft blocksRight action)

def joinWithUndefBlocks (blockStatus : BlockStatus) (leftSide rightSide : JoinSide κ)
    (leftBlocks rightBlocks : List (BlockAndSubrange κ)) (action : RowAction) : RowAction :=
  let action := if blockStatus = .allFilled || blockStatus = .leftMissing then
    addCartesianProduct leftBlocks rightSide.undefBlocks action else action
  if blockStatus = .allFilled || blockStatus = .rightMissing then
    addCartesianProduct leftSide.undefBlocks rightBlocks action else action

def fillWithAllFromLeft (leftSide : JoinSide κ) (action : RowAction) : RowAction :=
  addOptionalRows (leftSide.it.map BlockAndSubrange.ofBlock) (addOptionalRows leftSide.currentBlocks action)

abbrev Target := Except Check RowAction

def mapTarget (f : RowAction → RowAction) (s : State Target) : State Target := {s with target := s.target.map f}

/-- `findUndefValuesHelper`, where `input` sets an UNDEF block as one of the two inputs and
`reset` sets the original inputs. `begL` and `begR` always point to the inputs that are set,
so the distance to them is the position of an iterator in its block. -/
def findUndefValues (undefBlocks : List (BlockAndSubrange κ)) (input : Nat → RowAction → RowAction)
    (reset : RowAction → RowAction) : Finder κ Target :=
  fun _ _ body s =>
    mapTarget reset (undefBlocks.foldl (fun s block =>
      block.subrange.foldl (fun s it => body it s) (mapTarget (input block.fullBlock) s)) s)

/-- The arguments of the call of `zipperJoinWithUndef` in `joinAndRemoveLessThanCurrentEl`. -/
def joinCallbacks (config : Config κ) (leftSide rightSide : JoinSide κ) (fullBlockLeft fullBlockRight begLeft : Nat) :
    Callbacks κ Target where
  compatibleRowAction itFromL itFromR target := target.map (RowAction.addRow itFromL.pos itFromR.pos)
  findSmallerUndefRangesLeft :=
    if config.potentiallyHasUndef then
      some (findUndefValues leftSide.undefBlocks (fun undef => RowAction.setInput undef fullBlockRight)
        (RowAction.setInput fullBlockLeft fullBlockRight))
    else none
  findSmallerUndefRangesRight :=
    if config.potentiallyHasUndef then
      some (findUndefValues rightSide.undefBlocks (fun undef => RowAction.setInput fullBlockLeft undef)
        (RowAction.setInput fullBlockLeft fullBlockRight))
    else none
  elFromFirstNotFoundAction :=
    if config.doOptionalJoin then
      some (fun itFromL target => do
        check (!hasUndef config rightSide) .notFoundButRightHasUndef
        target.map (RowAction.addOptionalRow itFromL.pos))
    else none
  rowHasUndef := config.isUndef
  coverUndefRanges := !config.potentiallyHasUndef
  begLeft

end Actions

section Join
variable [LinearOrder κ] (config : Config κ)

def joinAndRemoveLessThanCurrentEl (currentEl : κ) (impl : Impl κ) : Except Check (Impl κ) :=
  match impl.leftSide.currentBlocks,impl.rightSide.currentBlocks with
  | left::restLeft,right::restRight => do
    let less := fun (element : κ) => decide (element < currentEl)
    check (!left.elements.head?.all config.isUndef) .undefInLeft
    check (!right.elements.head?.all config.isUndef) .undefInRight
    let callbacks := joinCallbacks config impl.leftSide impl.rightSide left.fullBlock right.fullBlock left.first
    let target ← (zipperJoinWithUndef callbacks (iters left.first (left.elements.takeWhile less))
      (iters right.first (right.elements.takeWhile less))
      (.ok (impl.compatibleRowAction.setInput left.fullBlock right.fullBlock))).1
    let remaining := fun (block : BlockAndSubrange κ) =>
      (⟨block.fullBlock,block.first + (block.elements.takeWhile less).length,block.elements.dropWhile less⟩ : BlockAndSubrange κ)
    return {leftSide := {impl.leftSide with currentBlocks := remaining left::restLeft}
            rightSide := {impl.rightSide with currentBlocks := remaining right::restRight}
            compatibleRowAction := target}
  | _,_ => .error .noCurrentBlocks

/-- `getNextBlocks`: the side with its next blocks, their elements that are equal to
`currentEl`, and whether all blocks were filled. -/
def getNextBlocks (side : JoinSide κ) (currentEl : κ) :
    Except Check (JoinSide κ × List (BlockAndSubrange κ) × Bool) := do
  let currentBlocks ← removeEqualToCurrentEl side.currentBlocks currentEl
  let (side,allBlocksWereFilled) ← fillEqualToCurrentEl {side with currentBlocks} currentEl
  check (!side.currentBlocks.isEmpty || allBlocksWereFilled) .notAllBlocksFilled
  return (side,getEqualToCurrentEl side.currentBlocks currentEl,allBlocksWereFilled)

def removeIfNotEmpty (side : JoinSide κ) (currentEl : κ) : Except Check (JoinSide κ) :=
  if side.currentBlocks.isEmpty then return side
  else do
    let currentBlocks ← removeEqualToCurrentEl side.currentBlocks currentEl
    return {side with currentBlocks}

/-- The while loop of `joinBuffers` and what follows it. -/
def joinEqual (currentEl : κ) : Nat → BlockStatus → List (BlockAndSubrange κ) → List (BlockAndSubrange κ) →
    Impl κ → Except Check (Impl κ)
  | 0,_,_,_,_ => .error .outOfFuel
  | fuel + 1,blockStatus,equalLeft,equalRight,impl => do
    let action := joinWithUndefBlocks blockStatus impl.leftSide impl.rightSide equalLeft equalRight impl.compatibleRowAction
    if equalLeft.isEmpty || equalRight.isEmpty then
      check (blockStatus = .allFilled) .statusNotAllFilled
      let leftSide ← removeIfNotEmpty impl.leftSide currentEl
      let rightSide ← removeIfNotEmpty impl.rightSide currentEl
      return {leftSide,rightSide,compatibleRowAction := action}
    else
      let impl := {impl with compatibleRowAction := addAll config impl.rightSide equalLeft equalRight action}
      match blockStatus with
      | .allFilled =>
        let left ← removeEqualToCurrentEl impl.leftSide.currentBlocks currentEl
        let right ← removeEqualToCurrentEl impl.rightSide.currentBlocks currentEl
        return {impl with leftSide := {impl.leftSide with currentBlocks := left}
                          rightSide := {impl.rightSide with currentBlocks := right}}
      | .rightMissing =>
        let (rightSide,equalRight,all) ← getNextBlocks impl.rightSide currentEl
        joinEqual currentEl fuel (if all then .allFilled else .rightMissing) equalLeft equalRight {impl with rightSide}
      | .leftMissing =>
        let (leftSide,equalLeft,all) ← getNextBlocks impl.leftSide currentEl
        joinEqual currentEl fuel (if all then .allFilled else .leftMissing) equalLeft equalRight {impl with leftSide}

def joinBuffers (blockStatus : BlockStatus) (impl : Impl κ) : Except Check (Impl κ) := do
  let currentEl ← getCurrentEl impl
  let impl ← joinAndRemoveLessThanCurrentEl config currentEl impl
  joinEqual config currentEl (impl.leftSide.it.length + impl.rightSide.it.length + 2) blockStatus
    (getEqualToCurrentEl impl.leftSide.currentBlocks currentEl)
    (getEqualToCurrentEl impl.rightSide.currentBlocks currentEl) impl

/-- Both directions of `consumeRemainingBlocks`: all remaining blocks of one side with the
UNDEF blocks of the other side. The loops are nested in the order of the source. -/
def consumeRemainingBlocks (reversed : Bool) (it : List (Block κ)) (undefBlocks : List (BlockAndSubrange κ))
    (action : RowAction) : RowAction :=
  it.foldl (fun action lBlock => undefBlocks.foldl (fun action rBlock =>
    (List.range lBlock.elements.length).foldl (fun action i => rBlock.getIndexRange.foldl (fun action j =>
        if reversed then action.addRow j i else action.addRow i j) action)
      (if reversed then action.setInput rBlock.fullBlock lBlock.id else action.setInput lBlock.id rBlock.fullBlock))
    action) action

def addRemainingUndefPairs (impl : Impl κ) : Impl κ :=
  if config.potentiallyHasUndef then
    let left := impl.leftSide
    let right := impl.rightSide
    let action := addCartesianProduct left.currentBlocks right.undefBlocks impl.compatibleRowAction
    let action := consumeRemainingBlocks false left.it right.undefBlocks action
    let action := addCartesianProduct left.undefBlocks right.currentBlocks action
    let action := consumeRemainingBlocks true right.it left.undefBlocks action
    {leftSide := {left with it := []},rightSide := {right with it := []},compatibleRowAction := action}
  else impl

def joinRounds : Nat → Impl κ → Except Check (Impl κ)
  | 0,_ => .error .outOfFuel
  | fuel + 1,impl => do
    let (impl,blockStatus) ← fillBuffer impl
    if impl.leftSide.currentBlocks.isEmpty || impl.rightSide.currentBlocks.isEmpty then
      let impl := addRemainingUndefPairs config impl
      if config.doOptionalJoin && !hasUndef config impl.rightSide then
        return {impl with compatibleRowAction := fillWithAllFromLeft impl.leftSide impl.compatibleRowAction}
      else return impl
    else
      let impl ← joinBuffers config blockStatus impl
      joinRounds fuel impl

/-- The loop of `findFirstBlockWithoutUndef`: the remaining blocks, the UNDEF blocks and the
defined part of the block that is split. -/
def findFirstBlockWithoutUndefFrom : List (Block κ) → List (BlockAndSubrange κ) →
    List (Block κ) × List (BlockAndSubrange κ) × List (BlockAndSubrange κ)
  | [],undefBlocks => ([],undefBlocks,[])
  | block::it,undefBlocks =>
    match block.elements with
    | [] => (block::it,undefBlocks,[])
    | front::rest =>
      if !config.isUndef front then (block::it,undefBlocks,[])
      else if config.isUndef ((front::rest).getLast (List.cons_ne_nil front rest)) then
        findFirstBlockWithoutUndefFrom it (undefBlocks ++ [BlockAndSubrange.ofBlock block])
      else
        let undef := (BlockAndSubrange.ofBlock block).equalRange front
        (it,undefBlocks ++ [undef],[⟨block.id,undef.elements.length,block.elements.drop undef.elements.length⟩])

def findFirstBlockWithoutUndef (side : JoinSide κ) : JoinSide κ :=
  let (it,undefBlocks,currentBlocks) := findFirstBlockWithoutUndefFrom config side.it side.undefBlocks
  {it,undefBlocks,currentBlocks := side.currentBlocks ++ currentBlocks}

def fetchAndProcessUndefinedBlocks (impl : Impl κ) : Impl κ :=
  if config.potentiallyHasUndef then
    let leftSide := findFirstBlockWithoutUndef config impl.leftSide
    let rightSide := findFirstBlockWithoutUndef config impl.rightSide
    {leftSide,rightSide
     compatibleRowAction := addCartesianProduct leftSide.undefBlocks rightSide.undefBlocks impl.compatibleRowAction}
  else impl

def JoinSide.size (side : JoinSide κ) : Nat :=
  (side.currentBlocks.map (·.elements.length)).sum + (side.it.map (·.elements.length)).sum

def runJoin (impl : Impl κ) : Except Check (Impl κ) :=
  let impl := fetchAndProcessUndefinedBlocks config impl
  let fuel := impl.leftSide.size + impl.rightSide.size + 1
  if config.potentiallyHasUndef && !hasUndef config impl.leftSide && !hasUndef config impl.rightSide then
    joinRounds {config with isUndefined := none} fuel impl
  else joinRounds config fuel impl

omit [LinearOrder κ] in
def makeJoinSide (blocks : List (List κ)) : JoinSide κ :=
  ⟨blocks.zipIdx.map (fun pair => ⟨pair.2,pair.1⟩),[],[]⟩

/-- Run a join and return the calls of its `compatibleRowAction`. -/
def zipperJoinForBlocks (left right : List (List κ)) : Except Check RowAction := do
  let impl ← runJoin config ⟨makeJoinSide left,makeJoinSide right,{}⟩
  return impl.compatibleRowAction

end Join

variable [LinearOrder κ]

def zipperJoinForBlocksWithoutUndef (doOptionalJoin : Bool) (left right : List (List κ)) : Except Check RowAction :=
  zipperJoinForBlocks ⟨none,doOptionalJoin⟩ left right

def zipperJoinForBlocksWithPotentialUndef [OrderBot κ] (doOptionalJoin : Bool) (left right : List (List κ)) :
    Except Check RowAction :=
  zipperJoinForBlocks ⟨some (fun element => element = ⊥),doOptionalJoin⟩ left right

end Qlever.BlockZipperJoin
