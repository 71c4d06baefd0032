import Qlever.DeltaTriplesCancellation

/-! The `DeltaTriplesManager`: requests change the updates one after the other, and a snapshot is published after a
request that completes. Cancelled calls are part of the runs.
-/
namespace Qlever
open Library
variable {Word : Type} [LinearOrder Word]

structure LocatedTriplesSnapshot (Word : Type) where
  locatedTriplesPerBlock : LocatedTriplesPerBlockAllPermutations Word
  index : Nat

structure DeltaTriplesManager (Word : Type) where
  deltaTriples : DeltaTriples Word
  currentLocatedTriplesSnapshot : LocatedTriplesSnapshot Word

/-- A call of `insertTriples` or `deleteTriples`. -/
structure Call (index : Index Word) where
  manager : BlankNodeManager index.minIndex
  handle : CancellationHandle
  triples : List (Triple Word)
  insertOrDelete : Bool

namespace DeltaTriples
open LocatedTriplesPerBlock TriplesToHandlesMap
variable {index : Index Word} {d d' : DeltaTriples Word}

omit [LinearOrder Word] in
def getSnapshot (d : DeltaTriples Word) : LocatedTriplesSnapshot Word × DeltaTriples Word :=
  (⟨d.locatedTriples,d.nextSnapshotIndex⟩,{d with nextSnapshotIndex := d.nextSnapshotIndex + 1})

def perform (call : Call index) (d : DeltaTriples Word) : Except Failure (UpdateResult Word) :=
  modifyTriplesImpl index call.manager call.handle call.triples call.insertOrDelete d

end DeltaTriples

namespace DeltaTriplesManager
open LocatedTriplesPerBlock TriplesToHandlesMap DeltaTriples
variable {index : Index Word} {d d' : DeltaTriples Word} {m m' : DeltaTriplesManager Word} {log published : Log Word}

def ofIndex (index : Index Word) : DeltaTriplesManager Word :=
  let (snapshot,deltaTriples) := (DeltaTriples.ofIndex index).getSnapshot
  ⟨deltaTriples,snapshot⟩

omit [LinearOrder Word] in
def updateSnapshot (m : DeltaTriplesManager Word) : DeltaTriplesManager Word :=
  let (snapshot,deltaTriples) := m.deltaTriples.getSnapshot
  ⟨deltaTriples,snapshot⟩

def Call.valid (call : Call index) (d : DeltaTriples Word) : Prop := ValidBatch index call.manager d call.triples

def Call.harmless (call : Call index) (d : DeltaTriples Word) : Prop := Harmless index call.handle call.triples call.insertOrDelete d

/-- The runs where all cancelled calls are harmless. The second log is the one of the published snapshot. -/
inductive ManagerRun (index : Index Word) : DeltaTriplesManager Word → Log Word → Log Word → Prop
  | start : ManagerRun index (ofIndex index) [] []
  | completed {m : DeltaTriplesManager Word} {log published : Log Word} {d' : DeltaTriples Word} (call : Call index) (rewritten : List (Triple Word))
    (localVocab : LocalVocab Word) (before : ManagerRun index m log published) (valid : Call.valid call m.deltaTriples)
    (rewriting : rewriteLocalVocabEntriesAndBlankNodes call.manager call.triples m.deltaTriples.localVocab = .ok (rewritten,localVocab))
    (finished : perform call m.deltaTriples = .ok (.finished d')) :
    ManagerRun index {m with deltaTriples := d'} ((call.insertOrDelete,rewritten)::log) published
  | cancelled {m : DeltaTriplesManager Word} {log published : Log Word} {d' : DeltaTriples Word} (call : Call index)
    (before : ManagerRun index m log published) (valid : Call.valid call m.deltaTriples) (harmless : Call.harmless call m.deltaTriples)
    (cancelled : perform call m.deltaTriples = .ok (.cancelled d')) : ManagerRun index {m with deltaTriples := d'} log published
  | clear {m : DeltaTriplesManager Word} {log published : Log Word} (before : ManagerRun index m log published) :
    ManagerRun index {m with deltaTriples := m.deltaTriples.clear} [] published
  | publish {m : DeltaTriplesManager Word} {log published : Log Word} (before : ManagerRun index m log published) :
    ManagerRun index (updateSnapshot m) log log

section Requests

theorem perform_rewrites {call : Call index} {result : UpdateResult Word} (done : perform call d = .ok result) :
    ∃ rewritten localVocab,rewriteLocalVocabEntriesAndBlankNodes call.manager call.triples d.localVocab = .ok (rewritten,localVocab) ∧
      applyRewritten index call.handle rewritten call.insertOrDelete {d with localVocab := localVocab} = .ok result := by
  rw [perform,modifyTriplesImpl,bind_eq_ok] at done
  obtain ⟨⟨rewritten,localVocab⟩,rewriting,applied⟩ := done
  exact ⟨rewritten,localVocab,rewriting,applied⟩

end Requests

section Invariants

section
variable {call : Call index} (invariant : Invariant index d) (valid : Call.valid call d)
include invariant valid

theorem perform_cancelled (cancelled : perform call d = .ok (.cancelled d')) :
    ∃ rewritten state,Rewritten call.manager d.localVocab call.triples rewritten state ∧ (rewritten.map (tripleValue index.vocab)).Nodup ∧
      applyRewritten index call.handle rewritten call.insertOrDelete {d with localVocab := state.localVocab} = .ok (.cancelled d') := by
  obtain ⟨rewritten,localVocab,rewriting,applied⟩ := perform_rewrites cancelled
  rcases rewrite_yields invariant.vocab valid.disjoint valid.valid with failed | ⟨rewritten',localVocab',rewriting',state,rfl,result⟩
  · rw [failed] at rewriting
    cases rewriting
  · rw [rewriting] at rewriting'
    cases rewriting'
    exact ⟨rewritten,state,result,result.nodup valid.distinct,applied⟩

theorem perform_unchanged_iff (cancelled : perform call d = .ok (.cancelled d')) : Unchanged d d' ↔ Call.harmless call d := by
  obtain ⟨rewritten,state,result,distinct,applied⟩ := perform_cancelled invariant valid cancelled
  rw [Call.harmless,← harmless_iff_rewritten invariant result state.localVocab]
  constructor
  · intro unchanged
    have inStep : InStep index call.insertOrDelete d.locatedTriples (({d with localVocab := state.localVocab} : DeltaTriples Word).targetMap call.insertOrDelete)
        (({d with localVocab := state.localVocab} : DeltaTriples Word).inverseMap call.insertOrDelete) := invariant.inStepFor call.insertOrDelete
    exact applyRewritten_changed inStep distinct applied ⟨unchanged.inserted,unchanged.deleted,unchanged.sets⟩
  · intro harmless
    obtain ⟨unchanged,_,_⟩ := applyRewritten_unchanged harmless applied
    exact ⟨unchanged.inserted,unchanged.deleted,unchanged.sets⟩

theorem Invariant.cancelled (harmless : Call.harmless call d)
    (cancelled : perform call d = .ok (.cancelled d')) : Invariant index d' ∧ ∀ flag,d'.targetMap flag = d.targetMap flag := by
  obtain ⟨rewritten,state,result,distinct,applied⟩ := perform_cancelled invariant valid cancelled
  have harmless' := (harmless_iff_rewritten invariant result state.localVocab).mpr harmless
  obtain ⟨unchanged,vocab,sets⟩ := applyRewritten_unchanged harmless' applied
  have maps : ∀ flag,d'.targetMap flag = d.targetMap flag := unchanged.targetMap_eq
  refine ⟨⟨?_,⟨?_,?_,?_⟩,?_⟩,maps⟩
  · rw [vocab]
    exact result.converting.well
  · intro permutation
    rw [unchanged.inserted,unchanged.deleted]
    exact (invariant.inStep.stores permutation).sameSets (sets permutation)
  · rw [unchanged.inserted]
    exact invariant.inStep.targetHandles
  · rw [unchanged.deleted]
    exact invariant.inStep.inverseHandles
  · intro flag entry member i
    rw [maps] at member
    rw [vocab]
    exact result.owned (invariant.owned flag entry member i)

end

structure Shows (index : Index Word) (log : Log Word) (snapshot : LocatedTriplesSnapshot Word) : Prop where
  distinct : ∀ permutation,(storedEntries (index.metaData permutation) (snapshot.locatedTriplesPerBlock permutation)).Nodup
  entries : ∀ permutation entry,entry ∈ storedEntries (index.metaData permutation) (snapshot.locatedTriplesPerBlock permutation) ↔
    ∃ value insertOrDelete,lastOperation index.vocab log value = some insertOrDelete ∧
      entry = (locate (index.metaData permutation) (value.permute permutation.toKeyOrder),
        locateTriple (index.metaData permutation) permutation.toKeyOrder insertOrDelete value)

theorem mem_expectedEntries {permutation : Permutation} {insertOrDelete : Bool} {map : TriplesToHandlesMap Word} {entry : Nat × LocatedTriple (IdValue Word)} :
    entry ∈ expectedEntries index permutation insertOrDelete map ↔ ∃ value ∈ keys index.vocab map,
      entry = (locate (index.metaData permutation) (value.permute permutation.toKeyOrder),
        locateTriple (index.metaData permutation) permutation.toKeyOrder insertOrDelete value) := by
  simp only [expectedEntries,List.mem_map,locateTriple,eq_comm]

theorem map_triple_expectedEntries (permutation : Permutation) (insertOrDelete : Bool) (map : TriplesToHandlesMap Word) :
    (expectedEntries index permutation insertOrDelete map).map (fun entry => entry.2.triple) =
      (keys index.vocab map).map (IdTriple.permute permutation.toKeyOrder) := by
  rw [expectedEntries,List.map_map]
  rfl

theorem nodup_storedEntries (invariant : Invariant index d) (permutation : Permutation) :
    (storedEntries (index.metaData permutation) (d.locatedTriples permutation)).Nodup := by
  apply (invariant.storedEntries_perm permutation).nodup_iff.mpr
  apply List.Nodup.of_map (fun entry : Nat × LocatedTriple (IdValue Word) => entry.2.triple)
  rw [List.map_append,map_triple_expectedEntries,map_triple_expectedEntries,← List.map_append]
  exact invariant.inStep.nodup.map (IdTriple.permute_injective permutation.toKeyOrder)

theorem shows_snapshot (invariant : Invariant index d)
    (last : ∀ flag value,value ∈ keys index.vocab (d.targetMap flag) ↔ lastOperation index.vocab log value = some flag) :
    Shows index log d.getSnapshot.1 where
  distinct := nodup_storedEntries invariant
  entries permutation entry := by
    have inserted : ∀ value,value ∈ keys index.vocab d.triplesInserted ↔ lastOperation index.vocab log value = some true := last true
    have deleted : ∀ value,value ∈ keys index.vocab d.triplesDeleted ↔ lastOperation index.vocab log value = some false := last false
    rw [getSnapshot,(invariant.storedEntries_perm permutation).mem_iff,List.mem_append,mem_expectedEntries,mem_expectedEntries]
    simp only [inserted,deleted]
    constructor
    · rintro (⟨value,operation,same⟩ | ⟨value,operation,same⟩)
      · exact ⟨value,true,operation,same⟩
      · exact ⟨value,false,operation,same⟩
    · rintro ⟨value,flag,operation,same⟩
      cases flag with
      | true => exact Or.inl ⟨value,operation,same⟩
      | false => exact Or.inr ⟨value,operation,same⟩

structure RunInvariant (index : Index Word) (m : DeltaTriplesManager Word) (log published : Log Word) : Prop where
  invariant : Invariant index m.deltaTriples
  last : ∀ flag value,value ∈ keys index.vocab (m.deltaTriples.targetMap flag) ↔ lastOperation index.vocab log value = some flag
  shows : Shows index published m.currentLocatedTriplesSnapshot

theorem RunInvariant.updateSnapshot (holds : RunInvariant index m log published) : RunInvariant index (updateSnapshot m) log log where
  invariant := ⟨holds.invariant.vocab,holds.invariant.inStep,holds.invariant.owned⟩
  last := holds.last
  shows := shows_snapshot holds.invariant holds.last

theorem ManagerRun.runInvariant (run : ManagerRun index m log published) : RunInvariant index m log published := by
  induction run with
  | start =>
    have invariant := Invariant.ofIndex index
    have last : ∀ flag value,value ∈ keys index.vocab ((DeltaTriples.ofIndex index).targetMap flag) ↔
        lastOperation index.vocab [] value = some flag := by
      intro flag value
      exact Run.start.keys_iff flag value
    exact ⟨⟨invariant.vocab,invariant.inStep,invariant.owned⟩,last,shows_snapshot invariant last⟩
  | completed call rewritten localVocab before valid rewriting finished ih =>
    obtain ⟨state,rfl,result,updated⟩ := update_updated ih.invariant valid rewriting finished
    exact ⟨updated.invariant ih.invariant result,updated.keys_iff ih.last,ih.shows⟩
  | cancelled call before valid harmless cancelled ih =>
    obtain ⟨invariant,maps⟩ := Invariant.cancelled ih.invariant valid harmless cancelled
    refine ⟨invariant,?_,ih.shows⟩
    intro flag value
    rw [maps]
    exact ih.last flag value
  | clear before ih =>
    refine ⟨ih.invariant.clear,?_,ih.shows⟩
    intro flag value
    cases flag <;> simp [targetMap,DeltaTriples.clear,keys,lastOperation]
  | publish before ih => exact ih.updateSnapshot

end Invariants

/-- In all runs where the cancelled calls are harmless, the published snapshots show the completed calls and nothing else, and exactly
the harmless calls leave everything unchanged when they are cancelled. -/
theorem cancelled_unchanged_iff (run : ManagerRun index m log published) :
    Shows index published m.currentLocatedTriplesSnapshot ∧
      ∀ (call : Call index) (d' : DeltaTriples Word),ValidBatch index call.manager m.deltaTriples call.triples →
        modifyTriplesImpl index call.manager call.handle call.triples call.insertOrDelete m.deltaTriples = .ok (.cancelled d') →
        (Unchanged m.deltaTriples d' ↔ Harmless index call.handle call.triples call.insertOrDelete m.deltaTriples) := by
  have holds := run.runInvariant
  refine ⟨holds.shows,?_⟩
  intro call d' valid cancelled
  exact perform_unchanged_iff holds.invariant valid cancelled

def wordCall (checks : Option Nat) (insertOrDelete : Bool) : Call emptyIndex := ⟨.counting 5 {0},⟨checks⟩,[wordTriple 7],insertOrDelete⟩

theorem cancelled_unchanged_iff_published :
    ∃ m : DeltaTriplesManager Nat,ManagerRun emptyIndex m [(true,[wordTriple 0])] [(true,[wordTriple 0])] ∧
      Shows emptyIndex [(true,[wordTriple 0])] m.currentLocatedTriplesSnapshot := by
  have rewriting : rewriteLocalVocabEntriesAndBlankNodes (.counting 5 {0}) [wordTriple 7] {} =
      .ok ([wordTriple 0],{primaryWordSet := [(0,3)],nextAddress := 1}) := rfl
  have initial : ManagerRun emptyIndex (ofIndex emptyIndex) [] [] := ManagerRun.start
  obtain ⟨d1,cancelled,vocab⟩ := modifyTriplesImpl_early true initial.runInvariant.invariant rewriting
  have harmless : Call.harmless (wordCall (some 0) true) (ofIndex emptyIndex).deltaTriples := by
    refine ⟨fun _ _ => rfl,Or.inr ?_⟩
    intro checks remaining
    cases remaining
    exact Nat.zero_le _
  have first := initial.cancelled (wordCall (some 0) true) (wordTriple_valid rfl) harmless cancelled
  have valid : ValidBatch emptyIndex (.counting 5 {0}) d1 [wordTriple 7] := wordTriple_valid (by rw [vocab]; rfl)
  have rewriting2 : rewriteLocalVocabEntriesAndBlankNodes (.counting 5 {0}) [wordTriple 7] d1.localVocab =
      .ok ([wordTriple 0],{primaryWordSet := [(0,3)],nextAddress := 1}) := by
    rw [vocab]
    rfl
  obtain ⟨d2,_,inserting,_⟩ := modifyTriplesImpl_completes first.runInvariant.invariant true valid rewriting2
  have second := (first.completed (wordCall none true) _ _ valid rewriting2 inserting).publish
  exact ⟨_,second,(cancelled_unchanged_iff second).1⟩

/-- A deleted triple that is inserted again is no longer deleted after the insertion was cancelled. -/
theorem cancelled_not_unchanged :
    ∃ (m : DeltaTriplesManager Nat) (d' : DeltaTriples Nat),ManagerRun emptyIndex m [(false,[wordTriple 0])] [(false,[wordTriple 0])] ∧
      insertTriples emptyIndex (.counting 5 {0}) ⟨some 0⟩ [wordTriple 7] m.deltaTriples = .ok (.cancelled d') ∧ ¬ Unchanged m.deltaTriples d' := by
  have rewriting : rewriteLocalVocabEntriesAndBlankNodes (.counting 5 {0}) [wordTriple 7] {} =
      .ok ([wordTriple 0],{primaryWordSet := [(0,3)],nextAddress := 1}) := rfl
  have initial : ManagerRun emptyIndex (ofIndex emptyIndex) [] [] := ManagerRun.start
  obtain ⟨d1,_,deleting,_,_,deleted⟩ := modifyTriplesImpl_completes initial.runInvariant.invariant false (wordTriple_valid rfl) rewriting
  have run := (initial.completed (wordCall none false) _ _ (wordTriple_valid rfl) rewriting deleting).publish
  have vocab : d1.localVocab = {primaryWordSet := [(0,3)],nextAddress := 1} := deleted.localVocab
  have rewriting2 : rewriteLocalVocabEntriesAndBlankNodes (.counting 5 {0}) [wordTriple 7] d1.localVocab =
      .ok ([wordTriple 0],{primaryWordSet := [(0,3)],nextAddress := 1}) := by
    rw [vocab]
    rfl
  have valid : Call.valid (wordCall (some 0) true) (updateSnapshot {ofIndex emptyIndex with deltaTriples := d1}).deltaTriples := by
    apply wordTriple_valid
    change d1.localVocab.usedBlocks = ∅
    rw [vocab]
    rfl
  obtain ⟨d2,cancelled,_⟩ := modifyTriplesImpl_early true run.runInvariant.invariant rewriting2
  refine ⟨_,d2,run,cancelled,?_⟩
  intro unchanged
  -- The triple is in the inverse map of the insertion.
  have harmless := (perform_unchanged_iff run.runInvariant.invariant valid cancelled).mp unchanged
  have notContained := harmless.notInverse (wordTriple 7) (List.mem_singleton.mpr rfl)
  have contained : contains emptyIndex.vocab (d1.targetMap false) (wordTriple 7) = true := by
    rw [contains_iff,deleted.target]
    exact Or.inr (List.mem_map.mpr ⟨_,List.mem_singleton.mpr rfl,rfl⟩)
  rw [show inverseMap _ _ = d1.targetMap false from rfl,contained] at notContained
  cases notContained

end DeltaTriplesManager
end Qlever
