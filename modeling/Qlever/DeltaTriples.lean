import Qlever.Library.Run
import Qlever.LocalVocab
import Qlever.ScanSpecAndBlocks

/-! The updates of an index, `DeltaTriples.cpp`. The triples of the maps are compared by the values of
their IDs, and the located triples consist of these values. A call that is
cancelled leaves the state that it had reached.
-/
namespace Qlever
open Library
open Function (update)

structure Index (Word : Type) [LinearOrder Word] where
  vocab : Vocabulary Word
  minIndex : Nat
  metaData : Permutation → List (CompressedBlockMetadata (IdValue Word))
  sorted : ∀ permutation,SortedBlocks (metaData permutation)

abbrev Triple (Word : Type) := IdTriple (ValueId Word)

def tripleValue {Word : Type} [LinearOrder Word] (vocab : Vocabulary Word) (triple : Triple Word) : IdTriple (IdValue Word) :=
  triple.map (ValueId.value vocab)

abbrev LocatedTripleHandles := Permutation → SetIterator

abbrev TriplesToHandlesMap (Word : Type) := List (Triple Word × LocatedTripleHandles)

abbrev LocatedTriplesPerBlockAllPermutations (Word : Type) := Permutation → LocatedTriplesPerBlock (IdValue Word)

structure DeltaTriples (Word : Type) where
  locatedTriples : LocatedTriplesPerBlockAllPermutations Word
  localVocab : LocalVocab Word := {}
  triplesInserted : TriplesToHandlesMap Word := []
  triplesDeleted : TriplesToHandlesMap Word := []
  nextSnapshotIndex : Nat := 0

variable {Word : Type} [LinearOrder Word] {minIndex : Nat}

section Rewrite

/-- The local vocabulary and the `blankNodeMap` during the conversion of the IDs. -/
structure Conversion (Word : Type) where
  localVocab : LocalVocab Word
  blankNodeMap : List (Nat × Nat)

def getLocalBlankNode (manager : BlankNodeManager minIndex) (index : Nat) (state : Conversion Word) :
    Except Failure (Nat × Conversion Word) :=
  match state.blankNodeMap.lookup index with
  | some mapped => .ok (mapped,state)
  | none => do
    let (mapped,localVocab) ← state.localVocab.getBlankNodeIndex manager
    return (mapped,⟨localVocab,(index,mapped)::state.blankNodeMap⟩)

def convertId (manager : BlankNodeManager minIndex) (id : ValueId Word) (state : Conversion Word) :
    Except Failure (ValueId Word × Conversion Word) :=
  match id with
  | .localVocabIndex _ word =>
    let (address,localVocab) := state.localVocab.getIndexAndAddIfNotContained word
    .ok (.localVocabIndex address word,{state with localVocab := localVocab})
  | .blankNodeIndex index =>
    if index < minIndex || state.localVocab.isBlankNodeIndexContained index then .ok (.blankNodeIndex index,state)
    else do
      let (mapped,state) ← getLocalBlankNode manager index state
      return (.blankNodeIndex mapped,state)
  | .encoded datatype data => .ok (.encoded datatype data,state)
  | .vocabIndex index => .ok (.vocabIndex index,state)

def convertTriple (manager : BlankNodeManager minIndex) (triple : Triple Word) (state : Conversion Word) :
    Except Failure (Triple Word × Conversion Word) := do
  let (col0Id,state) ← convertId manager triple.col0Id state
  let (col1Id,state) ← convertId manager triple.col1Id state
  let (col2Id,state) ← convertId manager triple.col2Id state
  let (graphId,state) ← convertId manager triple.graphId state
  return (⟨col0Id,col1Id,col2Id,graphId⟩,state)

def rewriteLocalVocabEntriesAndBlankNodes (manager : BlankNodeManager minIndex) (triples : List (Triple Word))
    (localVocab : LocalVocab Word) : Except Failure (List (Triple Word) × LocalVocab Word) := do
  let (triples,state) ← mapState (convertTriple manager) triples ⟨localVocab,[]⟩
  return (triples,state.localVocab)

end Rewrite

namespace TriplesToHandlesMap

def sameTriple (vocab : Vocabulary Word) (s t : Triple Word) : Bool :=
  decide (∀ i,(s.ids i).compare vocab (t.ids i) = .eq)

def find (vocab : Vocabulary Word) (map : TriplesToHandlesMap Word) (triple : Triple Word) : Option (Triple Word × LocatedTripleHandles) :=
  map.find? (fun entry => sameTriple vocab entry.1 triple)

def contains (vocab : Vocabulary Word) (map : TriplesToHandlesMap Word) (triple : Triple Word) : Bool := (find vocab map triple).isSome

def erase (vocab : Vocabulary Word) (map : TriplesToHandlesMap Word) (triple : Triple Word) : TriplesToHandlesMap Word :=
  map.filter (fun entry => !sameTriple vocab entry.1 triple)

def insert (vocab : Vocabulary Word) (map : TriplesToHandlesMap Word) (entry : Triple Word × LocatedTripleHandles) : TriplesToHandlesMap Word :=
  if contains vocab map entry.1 then map else map ++ [entry]

end TriplesToHandlesMap

namespace DeltaTriples
variable (index : Index Word)

/-- A new object after `setOriginalMetadata` was called for all permutations. -/
def ofIndex : DeltaTriples Word where
  locatedTriples permutation := LocatedTriplesPerBlock.setOriginalMetadata (index.metaData permutation) {}

omit [LinearOrder Word] in
def clear (d : DeltaTriples Word) : DeltaTriples Word :=
  {d with
    triplesInserted := []
    triplesDeleted := []
    locatedTriples := fun permutation => (d.locatedTriples permutation).clear}

def targetMap (d : DeltaTriples Word) (insertOrDelete : Bool) : TriplesToHandlesMap Word :=
  if insertOrDelete then d.triplesInserted else d.triplesDeleted

def inverseMap (d : DeltaTriples Word) (insertOrDelete : Bool) : TriplesToHandlesMap Word := d.targetMap (!insertOrDelete)

def withMaps (d : DeltaTriples Word) (insertOrDelete : Bool) (targetMap inverseMap : TriplesToHandlesMap Word) : DeltaTriples Word :=
  if insertOrDelete then {d with triplesInserted := targetMap,triplesDeleted := inverseMap}
  else {d with triplesDeleted := targetMap,triplesInserted := inverseMap}

inductive AddResult (Word : Type)
  | finished (locatedTriples : LocatedTriplesPerBlockAllPermutations Word) (intermediateHandles : Permutation → List SetIterator)
  | cancelled (locatedTriples : LocatedTriplesPerBlockAllPermutations Word)

/-- The loop of `locateAndAddTriples` over the permutations. -/
def locateAndAddTriples (triples : List (IdTriple (IdValue Word))) (insertOrDelete : Bool) : List Permutation →
    LocatedTriplesPerBlockAllPermutations Word → (Permutation → List SetIterator) → CancellationHandle →
    Except Failure (AddResult Word)
  | [],locatedTriples,intermediateHandles,_ => .ok (.finished locatedTriples intermediateHandles)
  | permutation::permutations,locatedTriples,intermediateHandles,handle =>
    match locateTriplesInPermutation triples (index.metaData permutation) permutation.toKeyOrder insertOrDelete handle with
    | none => .ok (.cancelled locatedTriples)
    | some (located,handle) =>
      match handle.throwIfCancelled with
      | none => .ok (.cancelled locatedTriples)
      | some handle => do
        let (handles,ltpb) ← (locatedTriples permutation).add located
        match handle.throwIfCancelled with
        | none => return .cancelled (update locatedTriples permutation ltpb)
        | some handle =>
          locateAndAddTriples triples insertOrDelete permutations (update locatedTriples permutation ltpb)
            (update intermediateHandles permutation handles) handle

def transposeHandles (size : Nat) (intermediateHandles : Permutation → List SetIterator) : List LocatedTripleHandles :=
  (List.range size).map (fun i permutation => (intermediateHandles permutation).getD i ⟨0,0⟩)

section
omit [LinearOrder Word]

def eraseInPermutation (handles : LocatedTripleHandles) (locatedTriples : LocatedTriplesPerBlockAllPermutations Word)
    (permutation : Permutation) : Except Failure (LocatedTriplesPerBlockAllPermutations Word) :=
  match (locatedTriples permutation).deref (handles permutation) with
  | none => .error .danglingHandle
  | some located => do
    let ltpb ← (locatedTriples permutation).erase located.blockIndex (handles permutation)
    return update locatedTriples permutation ltpb

def eraseTripleInAllPermutations (handles : LocatedTripleHandles) (locatedTriples : LocatedTriplesPerBlockAllPermutations Word) :
    Except Failure (LocatedTriplesPerBlockAllPermutations Word) :=
  Permutation.all.foldlM (eraseInPermutation handles) locatedTriples

end

def eraseFromInverse (state : LocatedTriplesPerBlockAllPermutations Word × TriplesToHandlesMap Word) (triple : Triple Word) :
    Except Failure (LocatedTriplesPerBlockAllPermutations Word × TriplesToHandlesMap Word) :=
  match TriplesToHandlesMap.find index.vocab state.2 triple with
  | none => .ok state
  | some entry => do
    let locatedTriples ← eraseTripleInAllPermutations entry.2 state.1
    return (locatedTriples,TriplesToHandlesMap.erase index.vocab state.2 triple)

inductive UpdateResult (Word : Type)
  | finished (deltaTriples : DeltaTriples Word)
  | cancelled (deltaTriples : DeltaTriples Word)

def newTriples (rewritten : List (Triple Word)) (insertOrDelete : Bool) (d : DeltaTriples Word) : List (Triple Word) :=
  rewritten.filter (fun triple => !TriplesToHandlesMap.contains index.vocab (d.targetMap insertOrDelete) triple)

/-- The part of `modifyTriplesImpl` after the triples were rewritten. -/
def applyRewritten (handle : CancellationHandle) (rewritten : List (Triple Word)) (insertOrDelete : Bool) (d : DeltaTriples Word) :
    Except Failure (UpdateResult Word) := do
  let triples := newTriples index rewritten insertOrDelete d
  let (locatedTriples,inverseMap) ← triples.foldlM (eraseFromInverse index) (d.locatedTriples,d.inverseMap insertOrDelete)
  let locatedTriples := fun permutation => (locatedTriples permutation).updateAugmentedMetadata
  let values := triples.map (tripleValue index.vocab)
  match ← locateAndAddTriples index values insertOrDelete Permutation.all locatedTriples (fun _ => []) handle with
  | .cancelled locatedTriples =>
    return .cancelled ({d with locatedTriples := locatedTriples}.withMaps insertOrDelete (d.targetMap insertOrDelete) inverseMap)
  | .finished locatedTriples intermediateHandles =>
    let handles := transposeHandles triples.length intermediateHandles
    if triples.length = handles.length then
      return .finished ({d with locatedTriples := locatedTriples}.withMaps insertOrDelete
        ((triples.zip handles).foldl (TriplesToHandlesMap.insert index.vocab) (d.targetMap insertOrDelete)) inverseMap)
    else .error .sizeMismatch

def modifyTriplesImpl (manager : BlankNodeManager index.minIndex) (handle : CancellationHandle) (triples : List (Triple Word))
    (insertOrDelete : Bool) (d : DeltaTriples Word) : Except Failure (UpdateResult Word) := do
  let (rewritten,localVocab) ← rewriteLocalVocabEntriesAndBlankNodes manager triples d.localVocab
  applyRewritten index handle rewritten insertOrDelete {d with localVocab := localVocab}

def insertTriples (manager : BlankNodeManager index.minIndex) (handle : CancellationHandle) (triples : List (Triple Word))
    (d : DeltaTriples Word) : Except Failure (UpdateResult Word) :=
  modifyTriplesImpl index manager handle triples true d

def deleteTriples (manager : BlankNodeManager index.minIndex) (handle : CancellationHandle) (triples : List (Triple Word))
    (d : DeltaTriples Word) : Except Failure (UpdateResult Word) :=
  modifyTriplesImpl index manager handle triples false d

end DeltaTriples
end Qlever
