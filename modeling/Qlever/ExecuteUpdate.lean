import Qlever.DeltaTriples
import Qlever.LimitOffsetClause
import Qlever.Library.SortedSet

/-! The execution of a SPARQL UPDATE, `ExecuteUpdate.cpp`: the templates are instantiated for the selected rows of the result of
the WHERE clause, and the quads are deleted and inserted.
-/
namespace Qlever
open Library

inductive TripleComponent (Word Var : Type)
  | var (var : Var)
  | literalOrIri (word : Word)
  | id (id : ValueId Word)

inductive TemplateGraph (Word Var : Type)
  | monostate
  | iri (word : Word)
  | var (var : Var)

structure SparqlTripleSimpleWithGraph (Word Var : Type) where
  s : TripleComponent Word Var
  p : TripleComponent Word Var
  o : TripleComponent Word Var
  g : TemplateGraph Word Var

/-- A materialized table. Its size is a `size_t`. -/
structure IdTable (Word : Type) where
  numColumns : Nat
  rows : List (Fin numColumns → ValueId Word)
  fits : rows.length < 2 ^ 64

inductive IdOrVariableIndex (Word : Type) (numColumns : Nat)
  | id (id : ValueId Word)
  | columnIndex (index : Fin numColumns)

/-- The rows with the indices that `getRowIndices` yields for a materialized result, which is a single block. -/
def getRowIndices {Row : Type} (limitOffset : LimitOffsetClause) (rows : List Row) : List Row :=
  if limitOffset.limit.getD 1 = 0 then []
  else if limitOffset.offset ≥ rows.length then []
  else
    let effectiveExportLimit := min limitOffset.exportLimitOrDefault limitOffset.limitOrDefault
    (rows.drop limitOffset.offset).take (min effectiveExportLimit (rows.length - limitOffset.offset))

structure GraphUpdate (Word Var : Type) where
  toInsert : List (SparqlTripleSimpleWithGraph Word Var)
  toDelete : List (SparqlTripleSimpleWithGraph Word Var)
  limitOffset : LimitOffsetClause := {}

namespace ExecuteUpdate
variable {Word Var : Type} [LinearOrder Word] {numColumns : Nat}

section Templates
variable (vocab : Vocabulary Word) (variableColumns : Var → Option (Fin numColumns))

def getId (word : Word) : Option Nat :=
  let position := vocab.getPositionOfWord word
  if position.1 = position.2 then none else some position.1

/-- `toValueId` of a literal or an IRI. -/
def wordToValueId (word : Word) (localVocab : LocalVocab Word) : ValueId Word × LocalVocab Word :=
  match getId vocab word with
  | some index => (.vocabIndex index,localVocab)
  | none =>
    let (address,localVocab) := localVocab.getIndexAndAddIfNotContained word
    (.localVocabIndex address word,localVocab)

omit [LinearOrder Word] in
def transformVariable (var : Var) : Except Failure (IdOrVariableIndex Word numColumns) :=
  match variableColumns var with
  | some column => .ok (.columnIndex column)
  | none => .error .variableNotContained

def transformSparqlTripleComponent (component : TripleComponent Word Var) (localVocab : LocalVocab Word) :
    Except Failure (IdOrVariableIndex Word numColumns × LocalVocab Word) :=
  match component with
  | .var var => do
    let column ← transformVariable variableColumns var
    return (column,localVocab)
  | .literalOrIri word =>
    let (id,localVocab) := wordToValueId vocab word localVocab
    .ok (.id id,localVocab)
  | .id id => .ok (.id id,localVocab)

def transformGraph (defaultGraphIri : ValueId Word) (graph : TemplateGraph Word Var) (localVocab : LocalVocab Word) :
    Except Failure (IdOrVariableIndex Word numColumns × LocalVocab Word) :=
  match graph with
  | .monostate => .ok (.id defaultGraphIri,localVocab)
  | .iri word =>
    let (id,localVocab) := wordToValueId vocab word localVocab
    .ok (.id id,localVocab)
  | .var var => do
    let column ← transformVariable variableColumns var
    return (column,localVocab)

def transformSparqlTripleSimple (defaultGraphIri : ValueId Word) (triple : SparqlTripleSimpleWithGraph Word Var) (localVocab : LocalVocab Word) :
    Except Failure (IdTriple (IdOrVariableIndex Word numColumns) × LocalVocab Word) := do
  let (s,localVocab) ← transformSparqlTripleComponent vocab variableColumns triple.s localVocab
  let (p,localVocab) ← transformSparqlTripleComponent vocab variableColumns triple.p localVocab
  let (o,localVocab) ← transformSparqlTripleComponent vocab variableColumns triple.o localVocab
  let (g,localVocab) ← transformGraph vocab variableColumns defaultGraphIri triple.g localVocab
  return (⟨s,p,o,g⟩,localVocab)

def transformTriplesTemplate (defaultGraph : Word) (triples : List (SparqlTripleSimpleWithGraph Word Var)) :
    Except Failure (List (IdTriple (IdOrVariableIndex Word numColumns)) × LocalVocab Word) :=
  let (defaultGraphIri,localVocab) := wordToValueId vocab defaultGraph {}
  mapState (transformSparqlTripleSimple vocab variableColumns defaultGraphIri) triples localVocab

end Templates

section Quads

section
omit [LinearOrder Word]

def isUndefined : ValueId Word → Bool
  | .encoded .Undefined 0 => true
  | _ => false

def resolveVariable (row : Fin numColumns → ValueId Word) (idOrVar : IdOrVariableIndex Word numColumns) : Option (ValueId Word) :=
  let visitId (id : ValueId Word) := if isUndefined id then none else some id
  match idOrVar with
  | .columnIndex index => visitId (row index)
  | .id id => visitId id

def computeQuad (row : Fin numColumns → ValueId Word) (template : IdTriple (IdOrVariableIndex Word numColumns)) : Option (Triple Word) := do
  let subject ← resolveVariable row template.col0Id
  let predicate ← resolveVariable row template.col1Id
  let object ← resolveVariable row template.col2Id
  let graph ← resolveVariable row template.graphId
  return ⟨subject,predicate,object,graph⟩

def computeAndAddQuadsForResultRow (templates : List (IdTriple (IdOrVariableIndex Word numColumns))) (result : List (Triple Word))
    (row : Fin numColumns → ValueId Word) : List (Triple Word) := result ++ templates.filterMap (computeQuad row)

/-- The loop over the selected rows; `none` if it is cancelled. -/
def computeQuads (insertTemplates deleteTemplates : List (IdTriple (IdOrVariableIndex Word numColumns))) :
    List (Fin numColumns → ValueId Word) → List (Triple Word) → List (Triple Word) → CancellationHandle →
    Option (List (Triple Word) × List (Triple Word) × CancellationHandle)
  | [],toInsert,toDelete,handle => some (toInsert,toDelete,handle)
  | row::rows,toInsert,toDelete,handle => do
    let toInsert := computeAndAddQuadsForResultRow insertTemplates toInsert row
    let handle ← handle.throwIfCancelled
    let toDelete := computeAndAddQuadsForResultRow deleteTemplates toDelete row
    let handle ← handle.throwIfCancelled
    computeQuads insertTemplates deleteTemplates rows toInsert toDelete handle

end

variable (vocab : Vocabulary Word)

/-- The operator `<=>` of triples. -/
def compareTriples (s t : Triple Word) : Ordering :=
  (s.col0Id.compare vocab t.col0Id).then ((s.col1Id.compare vocab t.col1Id).then
    ((s.col2Id.compare vocab t.col2Id).then (s.graphId.compare vocab t.graphId)))

def less (s t : Triple Word) : Bool := compareTriples vocab s t == .lt

def sortAndRemoveDuplicates (container : List (Triple Word)) : List (Triple Word) :=
  unique (TriplesToHandlesMap.sameTriple vocab) (container.mergeSort (fun s t => !less vocab t s))

def setMinus (a b : List (Triple Word)) : List (Triple Word) := setDifference (less vocab) a b

end Quads

/-- The quads to insert and to delete; `none` if the computation is cancelled. -/
def computeGraphUpdateQuads (index : Index Word) (defaultGraph : Word) (update : GraphUpdate Word Var) (result : IdTable Word)
    (variableColumns : Var → Option (Fin result.numColumns)) (handle : CancellationHandle) :
    Except Failure (Option (List (Triple Word) × List (Triple Word) × CancellationHandle)) := do
  let (insertTemplates,_) ← transformTriplesTemplate index.vocab variableColumns defaultGraph update.toInsert
  let (deleteTemplates,_) ← transformTriplesTemplate index.vocab variableColumns defaultGraph update.toDelete
  match computeQuads insertTemplates deleteTemplates (getRowIndices update.limitOffset result.rows) [] [] handle with
  | none => return none
  | some (toInsert,toDelete,handle) =>
    let toInsert := sortAndRemoveDuplicates index.vocab toInsert
    let toDelete := sortAndRemoveDuplicates index.vocab toDelete
    return some (toInsert,setMinus index.vocab toDelete toInsert,handle)

/-- The deletion happens before the insertion. The two calls see the cancellation handle at different times. -/
def executeUpdate (index : Index Word) (manager : BlankNodeManager index.minIndex) (defaultGraph : Word) (update : GraphUpdate Word Var)
    (result : IdTable Word) (variableColumns : Var → Option (Fin result.numColumns)) (handle insertHandle : CancellationHandle) (d : DeltaTriples Word) :
    Except Failure (DeltaTriples.UpdateResult Word) := do
  match ← computeGraphUpdateQuads index defaultGraph update result variableColumns handle with
  | none => return .cancelled d
  | some (toInsert,toDelete,handle) =>
    match ← DeltaTriples.deleteTriples index manager handle toDelete d with
    | .cancelled d => return .cancelled d
    | .finished d => DeltaTriples.insertTriples index manager insertHandle toInsert d

end ExecuteUpdate
end Qlever
