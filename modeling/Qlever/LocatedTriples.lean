import Qlever.IdTriple
import Qlever.Library.KeyedSet

/-! Located triples, `LocatedTriples.cpp`, and the metadata of the blocks of a permutation.
The nodes of the sets have addresses, and the handles that `add` returns point to these nodes.
-/
namespace Qlever
open Library

/-- The exceptions. A handle of a node that does not exist is `danglingHandle`. -/
inductive Failure
  | cancelled
  | wasNotInserted
  | blockNotContained
  | danglingHandle
  | sizeMismatch
  | tooManyBlankNodeBlocks
  | noMetadata
  | invalidHeader
  | outOfRange
  | localVocabNotEmpty
  | variableNotContained
  deriving DecidableEq, Repr

/-- The number of further checks that pass, or `none` if the operation is never cancelled. -/
structure CancellationHandle where
  remainingChecks : Option Nat
  deriving DecidableEq, Repr

/-- The handle after a check, or `none` if the check throws. -/
def CancellationHandle.throwIfCancelled (handle : CancellationHandle) : Option CancellationHandle :=
  match handle.remainingChecks with
  | none => some handle
  | some 0 => none
  | some (n + 1) => some ⟨some n⟩

structure OffsetAndCompressedSize where
  offsetInFile : Nat
  compressedSize : Nat
  deriving DecidableEq, Repr

structure CompressedBlockMetadata (Id : Type) where
  offsetsAndCompressedSize : List OffsetAndCompressedSize
  numRows : Nat
  firstTriple : IdTriple Id
  lastTriple : IdTriple Id
  graphInfo : Option (List Id)
  containsDuplicatesWithDifferentGraphs : Bool
  blockIndex : Nat
  deriving DecidableEq, Repr

structure LocatedTriple (Id : Type) where
  blockIndex : Nat
  triple : IdTriple Id
  insertOrDelete : Bool
  deriving DecidableEq, Repr

/-- A node of a `LocatedTriples` set. -/
structure Node (Id : Type) where
  address : Nat
  located : LocatedTriple Id
  deriving DecidableEq, Repr

/-- An iterator of the set of a block, `LocatedTriples::iterator`. -/
structure SetIterator where
  set : Nat
  address : Nat
  deriving DecidableEq, Repr

variable {Id : Type}

def Node.triple (node : Node Id) : IdTriple Id := node.located.triple

/-- The sets of located triples by block. A block that is not contained in the map has the
empty set, and no block with an empty set is contained. -/
structure LocatedTriplesPerBlock (Id : Type) where
  numTriples : Nat := 0
  map : Nat → List (Node Id) := fun _ => []
  augmentedMetadata : Option (List (CompressedBlockMetadata Id)) := none
  originalMetadata : Option (List (CompressedBlockMetadata Id)) := none
  nextNode : Nat := 0

section Locate

def chunkSize : Nat := 10000

/-- `chunkedForLoop`, with the given number of chunks to go. The chunk operation is the
check for cancellation. -/
def chunkedForLoop {α β : Type} (action : α → β) : Nat → List α → List β → CancellationHandle →
    Option (List β × CancellationHandle)
  | 0,_,out,handle => some (out,handle)
  | chunks + 1,xs,out,handle => do
    let handle ← handle.throwIfCancelled
    chunkedForLoop action chunks (xs.drop chunkSize) (out ++ (xs.take chunkSize).map action) handle

def numChunks (size : Nat) : Nat := (size + chunkSize - 1) / chunkSize

variable [LinearOrder Id]

/-- The first block whose last triple is not smaller than the triple, by `lower_bound`. -/
def locate (blockMetadata : List (CompressedBlockMetadata Id)) (triple : IdTriple Id) : Nat :=
  (blockMetadata.takeWhile (fun block => block.lastTriple < triple)).length

def locateTriple (blockMetadata : List (CompressedBlockMetadata Id)) (keyOrder : KeyOrder) (insertOrDelete : Bool)
    (triple : IdTriple Id) : LocatedTriple Id :=
  ⟨locate blockMetadata (triple.permute keyOrder),triple.permute keyOrder,insertOrDelete⟩

def locateTriplesInPermutation (triples : List (IdTriple Id)) (blockMetadata : List (CompressedBlockMetadata Id))
    (keyOrder : KeyOrder) (insertOrDelete : Bool) (handle : CancellationHandle) :
    Option (List (LocatedTriple Id) × CancellationHandle) :=
  chunkedForLoop (locateTriple blockMetadata keyOrder insertOrDelete) (numChunks triples.length) triples [] handle

end Locate

def MAX_NUM_GRAPHS_STORED_IN_BLOCK_METADATA : Nat := 20

namespace LocatedTriplesPerBlock

def hasUpdates (ltpb : LocatedTriplesPerBlock Id) (blockIndex : Nat) : Bool := !(ltpb.map blockIndex).isEmpty

def containsTriples (ltpb : LocatedTriplesPerBlock Id) (blockIndex : Nat) : Bool := ltpb.hasUpdates blockIndex

def numAddedAndDeleted (ltpb : LocatedTriplesPerBlock Id) (blockIndex : Nat) : Nat × Nat :=
  ((ltpb.map blockIndex).length,(ltpb.map blockIndex).length)

def setOriginalMetadata (metadata : List (CompressedBlockMetadata Id)) (ltpb : LocatedTriplesPerBlock Id) :
    LocatedTriplesPerBlock Id :=
  {ltpb with originalMetadata := some metadata}

def getAugmentedMetadata (ltpb : LocatedTriplesPerBlock Id) : Except Failure (List (CompressedBlockMetadata Id)) :=
  match ltpb.augmentedMetadata,ltpb.originalMetadata with
  | some metadata,_ => .ok metadata
  | none,some metadata => .ok metadata
  | none,none => .error .noMetadata

def clear (ltpb : LocatedTriplesPerBlock Id) : LocatedTriplesPerBlock Id :=
  {ltpb with map := fun _ => [],numTriples := 0,augmentedMetadata := none}

def deref (ltpb : LocatedTriplesPerBlock Id) (iter : SetIterator) : Option (LocatedTriple Id) :=
  ((ltpb.map iter.set).find? (fun node => node.address = iter.address)).map (·.located)

section Order
variable [LinearOrder Id]

/-- The loop of `updateGraphMetadata`: `none` if there are too many graphs. -/
def addGraphs : List (Node Id) → List Id → Option (List Id)
  | [],graphs => some graphs
  | node::nodes,graphs =>
    if !node.located.insertOrDelete then addGraphs nodes graphs
    else
      let newGraphs := graphs.insert node.triple.graphId
      if newGraphs.length > MAX_NUM_GRAPHS_STORED_IN_BLOCK_METADATA then none else addGraphs nodes newGraphs

def updateGraphMetadata (blockMetadata : CompressedBlockMetadata Id) (locatedTriples : List (Node Id)) :
    CompressedBlockMetadata Id :=
  {blockMetadata with
    containsDuplicatesWithDifferentGraphs := true
    graphInfo := match blockMetadata.graphInfo with
      | none => none
      | some graphs => (addGraphs locatedTriples graphs.dedup).map (fun newGraphs => newGraphs.insertionSort (· ≤ ·))}

/-- The loop body of `updateAugmentedMetadata` for one block. -/
def augmentBlock (blockUpdates : List (Node Id)) (blockMetadata : CompressedBlockMetadata Id) : CompressedBlockMetadata Id :=
  match blockUpdates.head?,blockUpdates.getLast? with
  | some first,some last =>
    updateGraphMetadata {blockMetadata with
      firstTriple := min blockMetadata.firstTriple first.triple
      lastTriple := max blockMetadata.lastTriple last.triple} blockUpdates
  | _,_ => blockMetadata

def lastBlock (blockIndex : Nat) (blockUpdates : List (Node Id)) : List (CompressedBlockMetadata Id) :=
  match blockUpdates.head?,blockUpdates.getLast? with
  | some first,some last =>
    [updateGraphMetadata ⟨List.replicate 4 ⟨0,0⟩,0,first.triple,last.triple,some [],true,blockIndex⟩ blockUpdates]
  | _,_ => []

/-- The blocks that `updateAugmentedMetadata` computes. -/
def augmentedBlocks (metadata : List (CompressedBlockMetadata Id)) (map : Nat → List (Node Id)) : List (CompressedBlockMetadata Id) :=
  metadata.mapIdx (fun blockIndex block => augmentBlock (map blockIndex) block) ++ lastBlock metadata.length (map metadata.length)

def updateAugmentedMetadata (ltpb : LocatedTriplesPerBlock Id) : LocatedTriplesPerBlock Id :=
  {ltpb with augmentedMetadata := some (augmentedBlocks (ltpb.originalMetadata.getD []) ltpb.map)}

def addOne (located : LocatedTriple Id) (ltpb : LocatedTriplesPerBlock Id) :
    Except Failure (SetIterator × LocatedTriplesPerBlock Id) :=
  match KeyedSet.emplace Node.triple ⟨ltpb.nextNode,located⟩ (ltpb.map located.blockIndex) with
  | none => .error .wasNotInserted
  | some set => .ok (⟨located.blockIndex,ltpb.nextNode⟩,{ltpb with
      map := Function.update ltpb.map located.blockIndex set
      numTriples := ltpb.numTriples + 1
      nextNode := ltpb.nextNode + 1})

def addAll : List (LocatedTriple Id) → LocatedTriplesPerBlock Id → Except Failure (List SetIterator × LocatedTriplesPerBlock Id)
  | [],ltpb => .ok ([],ltpb)
  | located::rest,ltpb => do
    let (handle,ltpb) ← addOne located ltpb
    let (handles,ltpb) ← addAll rest ltpb
    return (handle::handles,ltpb)

def add (locatedTriples : List (LocatedTriple Id)) (ltpb : LocatedTriplesPerBlock Id) :
    Except Failure (List SetIterator × LocatedTriplesPerBlock Id) := do
  let (handles,ltpb) ← addAll locatedTriples ltpb
  return (handles,ltpb.updateAugmentedMetadata)

end Order

def erase (blockIndex : Nat) (iter : SetIterator) (ltpb : LocatedTriplesPerBlock Id) : Except Failure (LocatedTriplesPerBlock Id) :=
  let block := ltpb.map blockIndex
  if block.isEmpty then .error .blockNotContained
  else if iter.set ≠ blockIndex || (deref ltpb iter).isNone then .error .danglingHandle
  else .ok {ltpb with
    map := Function.update ltpb.map blockIndex (block.filter (fun node => node.address ≠ iter.address))
    numTriples := ltpb.numTriples - 1}

end LocatedTriplesPerBlock
end Qlever
