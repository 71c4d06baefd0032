import Qlever.DeltaTriples

/-! How the updates are written to disk and read back, `TripleSerializer.h`. An ID on disk consists of its bits, so a word is
only known by the address that its entry had.
-/
namespace Qlever
open Library
variable {Word : Type} {minIndex : Nat}

def magicBytes : String := "QLEVER.UPDATE"

structure UpdateFile (Word : Type) where
  header : String
  version : Nat
  localVocab : List (Nat × Word)
  idRanges : List (List (ValueId Unit))

def ValueId.serialize : ValueId Word → ValueId Unit
  | .encoded datatype data => .encoded datatype data
  | .vocabIndex index => .vocabIndex index
  | .localVocabIndex address _ => .localVocabIndex address ()
  | .blankNodeIndex index => .blankNodeIndex index

def serializeIds (localVocab : LocalVocab Word) (idRanges : List (List (ValueId Word))) : UpdateFile Word where
  header := magicBytes
  version := 0
  localVocab := localVocab.primaryWordSet
  idRanges := idRanges.map (fun ids => ids.map ValueId.serialize)

section Read

def readHeader (file : UpdateFile Word) : Except Failure Unit :=
  if file.header = magicBytes ∧ file.version = 0 then .ok () else .error .invalidHeader

def deserializeLocalVocab [DecidableEq Word] : List (Nat × Word) → LocalVocab Word → List (Nat × ValueId Word) → LocalVocab Word × List (Nat × ValueId Word)
  | [],vocab,mapping => (vocab,mapping)
  | (address,word)::words,vocab,mapping =>
    let (localVocabIndex,vocab) := vocab.getIndexAndAddIfNotContained word
    let mapping := if (mapping.lookup address).isSome then mapping else (address,.localVocabIndex localVocabIndex word)::mapping
    deserializeLocalVocab words vocab mapping

def deserializeId (manager : BlankNodeManager minIndex) (mapping : List (Nat × ValueId Word)) (id : ValueId Unit) (state : Conversion Word) :
    Except Failure (ValueId Word × Conversion Word) :=
  match id with
  | .localVocabIndex address _ =>
    match mapping.lookup address with
    | some id => .ok (id,state)
    | none => .error .outOfRange
  | .blankNodeIndex index => do
    let (mapped,state) ← getLocalBlankNode manager index state
    return (.blankNodeIndex mapped,state)
  | .encoded datatype data => .ok (.encoded datatype data,state)
  | .vocabIndex index => .ok (.vocabIndex index,state)

/-- One range of IDs, with a `blankNodeMapping` of its own. -/
def deserializeRange (manager : BlankNodeManager minIndex) (mapping : List (Nat × ValueId Word)) (ids : List (ValueId Unit)) (vocab : LocalVocab Word) :
    Except Failure (List (ValueId Word) × LocalVocab Word) := do
  let (ids,state) ← mapState (deserializeId manager mapping) ids ⟨vocab,[]⟩
  return (ids,state.localVocab)

def deserializeIds [DecidableEq Word] (manager : BlankNodeManager minIndex) (file : UpdateFile Word) :
    Except Failure (List (List (ValueId Word)) × LocalVocab Word) := do
  readHeader file
  let (vocab,mapping) := deserializeLocalVocab file.localVocab {} []
  mapState (deserializeRange manager mapping) file.idRanges vocab

def BlankNodeManager.whileUsed (manager : BlankNodeManager minIndex) (blocks : Finset Nat) : BlankNodeManager minIndex :=
  {manager with othersBlocks := manager.othersBlocks ∪ blocks}

end Read

namespace DeltaTriples

def toRange (map : TriplesToHandlesMap Word) : List (ValueId Word) :=
  map.flatMap (fun entry => [entry.1.col0Id,entry.1.col1Id,entry.1.col2Id,entry.1.graphId])

def writeToDisk (d : DeltaTriples Word) : UpdateFile Word := serializeIds d.localVocab [toRange d.triplesDeleted,toRange d.triplesInserted]

def toTriples : List (ValueId Word) → Except Failure (List (Triple Word))
  | [] => .ok []
  | col0Id::col1Id::col2Id::graphId::ids => do
    let triples ← toTriples ids
    return ⟨col0Id,col1Id,col2Id,graphId⟩::triples
  | _ => .error .sizeMismatch

variable [LinearOrder Word]

def restore (index : Index Word) (manager : BlankNodeManager index.minIndex) (deleted inserted : List (ValueId Word)) (d : DeltaTriples Word) :
    Except Failure (UpdateResult Word) := do
  match ← insertTriples index manager ⟨none⟩ (← toTriples inserted) d with
  | .cancelled d => return .cancelled d
  | .finished d => deleteTriples index manager ⟨none⟩ (← toTriples deleted) d

def readFromDisk (index : Index Word) (manager : BlankNodeManager index.minIndex) (file : Option (UpdateFile Word)) (d : DeltaTriples Word) :
    Except Failure (UpdateResult Word) :=
  if ¬ d.localVocab.primaryWordSet.isEmpty then .error .localVocabNotEmpty
  else
    match file with
    | none => .ok (.finished d)
    | some file => do
      let (idRanges,vocab) ← deserializeIds (manager.whileUsed d.localVocab.usedBlocks) file
      match idRanges with
      | [] => return .finished d
      | [deleted,inserted] => restore index (manager.whileUsed vocab.usedBlocks) deleted inserted d
      | _ => .error .sizeMismatch

end DeltaTriples
end Qlever
