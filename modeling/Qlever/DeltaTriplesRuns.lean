import Qlever.DeltaTriplesUpdate

/-! Runs of `insertTriples`, `deleteTriples` and `clear`. After any run of calls that complete, the two
maps and the sets of the six permutations agree with the last operation on each triple.
-/
namespace Qlever
open Library
open List hiding keys
variable {Word : Type} [LinearOrder Word]

namespace LocatedTriplesPerBlock
variable {Id : Type} [LinearOrder Id] {metadata : List (CompressedBlockMetadata Id)} {keyOrder : KeyOrder}
  {ltpb : LocatedTriplesPerBlock Id} {row : LocatedRow Id} {rows : List (LocatedRow Id)}

omit [LinearOrder Id] in
def storedEntries (metadata : List (CompressedBlockMetadata Id)) (ltpb : LocatedTriplesPerBlock Id) : List (Nat × LocatedTriple Id) :=
  (range (metadata.length + 1)).flatMap (fun b => (ltpb.map b).map (fun node => (b,node.located)))

section
variable (stores : Stores metadata keyOrder ltpb rows)
include stores

theorem Stores.storedEntries_perm :
    (storedEntries metadata ltpb).Perm (rows.map (fun row => (locate metadata (row.triple.permute keyOrder),row.located metadata keyOrder))) := by
  have same : storedEntries metadata ltpb = (allNodes metadata ltpb).map (fun node => (node.located.blockIndex,node.located)) := by
    rw [storedEntries,allNodes,map_flatMap]
    congr 1
    funext b
    apply map_congr_left
    intro node member
    obtain ⟨_,_,_,rfl⟩ := (stores.mem _ _).mp member
    rfl
  rw [same]
  apply (stores.allNodes_perm.map _).trans
  rw [map_map]
  exact List.Perm.refl _

theorem Stores.address_eq_iff (member : row ∈ rows) {b : Nat} {node : Node Id} (isNode : node ∈ ltpb.map b) :
    node.address = row.address ↔ node.located = row.located metadata keyOrder := by
  obtain ⟨other,isRow,rfl,_⟩ := (stores.mem _ _).mp isNode
  constructor
  · intro same
    rw [inj_on_of_nodup_map stores.addresses isRow member same]
    rfl
  · intro same
    have triple : other.triple = row.triple := IdTriple.permute_injective keyOrder (congrArg LocatedTriple.triple same)
    rw [inj_on_of_nodup_map stores.triples isRow member triple]
    rfl

theorem Stores.erase_exactly (member : row ∈ rows) :
    ∃ ltpb',ltpb.erase (row.located metadata keyOrder).blockIndex (row.handle metadata keyOrder) = .ok ltpb' ∧
      ∀ b,ltpb'.map b = (ltpb.map b).filter (fun node => node.located ≠ row.located metadata keyOrder) := by
  obtain ⟨ltpb',run⟩ := erase_ok (stores.mem_map member)
  refine ⟨ltpb',run,?_⟩
  obtain rfl := erase_eq run
  intro b
  by_cases same : b = (row.located metadata keyOrder).blockIndex
  · subst same
    simp only [Function.update_self]
    apply filter_congr
    intro node isOther
    simp only [ne_eq,← stores.address_eq_iff member isOther]
    rfl
  · simp only [Function.update_of_ne same]
    symm
    apply filter_eq_self.mpr
    intro node isOther
    obtain ⟨_,_,_,rfl⟩ := (stores.mem _ _).mp isOther
    simp only [ne_eq,decide_not,Bool.not_eq_true',decide_eq_false_iff_not]
    intro equal
    exact same (congrArg LocatedTriple.blockIndex equal)

end

end LocatedTriplesPerBlock

namespace DeltaTriples
open LocatedTriplesPerBlock TriplesToHandlesMap
variable {index : Index Word} {d d' : DeltaTriples Word}

/-- A batch without duplicates. Its local blank nodes belong to the local vocabulary of the updates or to another one, and no
block of blank nodes belongs to two local vocabularies. -/
structure ValidBatch (index : Index Word) (manager : BlankNodeManager index.minIndex) (d : DeltaTriples Word) (triples : List (Triple Word)) : Prop where
  distinct : (triples.map (tripleValue index.vocab)).Nodup
  disjoint : Disjoint d.localVocab.usedBlocks manager.othersBlocks
  valid : ∀ triple ∈ triples,ValidTriple manager d.localVocab triple

/-- The completed operations since the last `clear`, with the last one first and with the rewritten batches. -/
abbrev Log (Word : Type) := List (Bool × List (Triple Word))

def lastOperation (vocab : Vocabulary Word) (log : Log Word) (value : IdTriple (IdValue Word)) : Option Bool :=
  (log.find? (fun operation => value ∈ operation.2.map (tripleValue vocab))).map (·.1)

inductive Run (index : Index Word) : DeltaTriples Word → Log Word → Prop
  | start : Run index (ofIndex index) []
  | update {d d' : DeltaTriples Word} {log : Log Word} (manager : BlankNodeManager index.minIndex) (handle : CancellationHandle)
    (triples rewritten : List (Triple Word)) (insertOrDelete : Bool) (localVocab : LocalVocab Word) (before : Run index d log)
    (valid : ValidBatch index manager d triples)
    (rewriting : rewriteLocalVocabEntriesAndBlankNodes manager triples d.localVocab = .ok (rewritten,localVocab))
    (completed : modifyTriplesImpl index manager handle triples insertOrDelete d = .ok (.finished d')) :
    Run index d' ((insertOrDelete,rewritten)::log)
  | clear {d : DeltaTriples Word} {log : Log Word} (before : Run index d log) : Run index d.clear []

structure Invariant (index : Index Word) (d : DeltaTriples Word) : Prop where
  vocab : LocalVocab.WellFormed index.minIndex d.localVocab
  inStep : InStep index true d.locatedTriples d.triplesInserted d.triplesDeleted
  owned : ∀ flag,∀ entry ∈ d.targetMap flag,∀ i,Owned index.minIndex d.localVocab (entry.1.ids i)

theorem Invariant.inStepFor (invariant : Invariant index d) (insertOrDelete : Bool) :
    InStep index insertOrDelete d.locatedTriples (d.targetMap insertOrDelete) (d.inverseMap insertOrDelete) := by
  cases insertOrDelete with
  | true => exact invariant.inStep
  | false => exact invariant.inStep.swap

variable {insertOrDelete : Bool}

theorem Invariant.of_inStep (vocab : LocalVocab.WellFormed index.minIndex d.localVocab)
    (inStep : InStep index insertOrDelete d.locatedTriples (d.targetMap insertOrDelete) (d.inverseMap insertOrDelete))
    (owned : ∀ flag,∀ entry ∈ d.targetMap flag,∀ i,Owned index.minIndex d.localVocab (entry.1.ids i)) : Invariant index d := by
  cases insertOrDelete with
  | true => exact ⟨vocab,inStep,owned⟩
  | false => exact ⟨vocab,inStep.swap,owned⟩

theorem Invariant.ofIndex (index : Index Word) : Invariant index (ofIndex index) where
  vocab := ⟨List.Pairwise.nil,by simp [DeltaTriples.ofIndex],by simp [DeltaTriples.ofIndex],by simp [DeltaTriples.ofIndex],nodup_nil,
    by simp [DeltaTriples.ofIndex]⟩
  inStep := ⟨fun permutation => Stores.setOriginalMetadata (index.metaData permutation) permutation.toKeyOrder,
    by simp [DeltaTriples.ofIndex],by simp [DeltaTriples.ofIndex]⟩
  owned flag := by cases flag <;> simp [targetMap,DeltaTriples.ofIndex]

theorem Invariant.clear (invariant : Invariant index d) : Invariant index d.clear where
  vocab := invariant.vocab
  inStep := ⟨fun permutation => (invariant.inStep.stores permutation).clear,by simp [DeltaTriples.clear],by simp [DeltaTriples.clear]⟩
  owned flag := by cases flag <;> simp [targetMap,DeltaTriples.clear]

variable {manager : BlankNodeManager index.minIndex} {triples : List (Triple Word)}

theorem modifyTriplesImpl_cases (invariant : Invariant index d) (handle : CancellationHandle)
    (insertOrDelete : Bool) (valid : ValidBatch index manager d triples) :
    (rewriteLocalVocabEntriesAndBlankNodes manager triples d.localVocab = .error .tooManyBlankNodeBlocks ∧
      modifyTriplesImpl index manager handle triples insertOrDelete d = .error .tooManyBlankNodeBlocks) ∨
    ∃ rewritten state,rewriteLocalVocabEntriesAndBlankNodes manager triples d.localVocab = .ok (rewritten,state.localVocab) ∧
      Rewritten manager d.localVocab triples rewritten state ∧
      ((∃ d',modifyTriplesImpl index manager handle triples insertOrDelete d = .ok (.cancelled d')) ∨
        ∃ d',modifyTriplesImpl index manager handle triples insertOrDelete d = .ok (.finished d') ∧
          Updated index insertOrDelete rewritten {d with localVocab := state.localVocab} d') := by
  rcases rewrite_yields invariant.vocab valid.disjoint valid.valid with failed | ⟨rewritten,localVocab,rewriting,state,rfl,result⟩
  · left
    refine ⟨failed,?_⟩
    rw [modifyTriplesImpl,failed]
    rfl
  · right
    refine ⟨rewritten,state,rewriting,result,?_⟩
    have inStep : InStep index insertOrDelete d.locatedTriples (d.targetMap insertOrDelete) (d.inverseMap insertOrDelete) :=
      invariant.inStepFor insertOrDelete
    have call : modifyTriplesImpl index manager handle triples insertOrDelete d =
        applyRewritten index handle rewritten insertOrDelete {d with localVocab := state.localVocab} := by
      rw [modifyTriplesImpl,rewriting]
      rfl
    rw [call]
    exact applyRewritten_cases handle inStep (result.nodup valid.distinct)

theorem modifyTriplesImpl_uncancelled :
    modifyTriplesImpl index manager ⟨none⟩ triples insertOrDelete d ≠ .ok (.cancelled d') := by
  intro run
  rw [modifyTriplesImpl,bind_eq_ok] at run
  obtain ⟨⟨rewritten,localVocab⟩,_,applied⟩ := run
  exact applyRewritten_uncancelled applied

section
variable (invariant : Invariant index d) {manager : BlankNodeManager index.minIndex}
include invariant

variable {localVocab : LocalVocab Word}

theorem modifyTriplesImpl_completes {triples rewritten : List (Triple Word)}
    (insertOrDelete : Bool) (valid : ValidBatch index manager d triples)
    (rewriting : rewriteLocalVocabEntriesAndBlankNodes manager triples d.localVocab = .ok (rewritten,localVocab)) :
    ∃ d' state,modifyTriplesImpl index manager ⟨none⟩ triples insertOrDelete d = .ok (.finished d') ∧ state.localVocab = localVocab ∧
      Rewritten manager d.localVocab triples rewritten state ∧ Updated index insertOrDelete rewritten {d with localVocab := localVocab} d' := by
  rcases modifyTriplesImpl_cases invariant ⟨none⟩ insertOrDelete valid with failed | ⟨_,state,rewriting',result,⟨_,cancelled⟩ | ⟨d',finished,updated⟩⟩
  · rw [failed.1] at rewriting
    cases rewriting
  · exact absurd cancelled modifyTriplesImpl_uncancelled
  · rw [rewriting] at rewriting'
    cases rewriting'
    exact ⟨d',state,finished,rfl,result,updated⟩

theorem update_updated {handle : CancellationHandle}
    {triples rewritten : List (Triple Word)} {insertOrDelete : Bool} (valid : ValidBatch index manager d triples)
    (rewriting : rewriteLocalVocabEntriesAndBlankNodes manager triples d.localVocab = .ok (rewritten,localVocab))
    (completed : modifyTriplesImpl index manager handle triples insertOrDelete d = .ok (.finished d')) :
    ∃ state,state.localVocab = localVocab ∧ Rewritten manager d.localVocab triples rewritten state ∧
      Updated index insertOrDelete rewritten {d with localVocab := localVocab} d' := by
  rcases modifyTriplesImpl_cases invariant handle insertOrDelete valid with failed | ⟨_,state,rewriting',result,⟨_,cancelled⟩ | ⟨_,finished,updated⟩⟩
  · rw [failed.2] at completed
    cases completed
  · rw [cancelled] at completed
    cases completed
  · rw [rewriting] at rewriting'
    rw [finished] at completed
    cases rewriting'
    cases completed
    exact ⟨state,rfl,result,updated⟩

end

theorem Updated.invariant (before : Invariant index d) {state : Conversion Word}
    {rewritten : List (Triple Word)} (result : Rewritten manager d.localVocab triples rewritten state)
    (updated : Updated index insertOrDelete rewritten {d with localVocab := state.localVocab} d') : Invariant index d' := by
  have vocab : d'.localVocab = state.localVocab := updated.localVocab
  apply Invariant.of_inStep (vocab ▸ result.converting.well) updated.inStep
  intro flag entry member i
  rw [vocab]
  by_cases same : flag = insertOrDelete
  · subst same
    rcases updated.targetEntries entry member with old | new
    · exact result.owned (before.owned flag entry old i)
    · exact result.owned_rewritten new i
  · obtain rfl : flag = !insertOrDelete := Bool.eq_not.mpr same
    exact result.owned (before.owned _ entry (updated.inverseEntries member) i)

variable {log : Log Word}

theorem Run.invariant (run : Run index d log) : Invariant index d := by
  induction run with
  | start => exact Invariant.ofIndex index
  | update manager handle triples rewritten insertOrDelete localVocab before valid rewriting completed ih =>
    obtain ⟨state,rfl,result,updated⟩ := update_updated ih valid rewriting completed
    exact updated.invariant ih result
  | clear before ih => exact ih.clear

theorem lastOperation_cons
    (vocab : Vocabulary Word) (log : Log Word) (insertOrDelete : Bool) (rewritten : List (Triple Word)) (value : IdTriple (IdValue Word)) :
    lastOperation vocab ((insertOrDelete,rewritten)::log) value =
      if value ∈ rewritten.map (tripleValue vocab) then some insertOrDelete else lastOperation vocab log value := by
  by_cases inBatch : value ∈ rewritten.map (tripleValue vocab)
  · rw [lastOperation,find?_cons_of_pos (by simpa using inBatch),if_pos inBatch]
    rfl
  · rw [lastOperation,find?_cons_of_neg (by simpa using inBatch),if_neg inBatch]
    rfl

theorem Updated.keys_iff {rewritten : List (Triple Word)} {d0 : DeltaTriples Word}
    (updated : Updated index insertOrDelete rewritten d0 d')
    (before : ∀ flag value,value ∈ keys index.vocab (d0.targetMap flag) ↔ lastOperation index.vocab log value = some flag) (flag : Bool)
    (value : IdTriple (IdValue Word)) :
    value ∈ keys index.vocab (d'.targetMap flag) ↔ lastOperation index.vocab ((insertOrDelete,rewritten)::log) value = some flag := by
  rw [lastOperation_cons]
  by_cases same : flag = insertOrDelete
  · subst same
    rw [updated.target,before]
    by_cases inBatch : value ∈ rewritten.map (tripleValue index.vocab)
    · simp only [inBatch,if_true,or_true]
    · simp only [inBatch,if_false,or_false]
  · obtain rfl : flag = !insertOrDelete := Bool.eq_not.mpr same
    have inverse := updated.inverse value
    rw [inverseMap,inverseMap,before] at inverse
    rw [inverse]
    by_cases inBatch : value ∈ rewritten.map (tripleValue index.vocab)
    · simp only [inBatch,not_true_eq_false,and_false,if_true,Option.some.injEq,false_iff]
      exact fun equal => same equal.symm
    · simp only [inBatch,not_false_eq_true,and_true,if_false]

theorem Run.keys_iff (run : Run index d log) (flag : Bool) (value : IdTriple (IdValue Word)) :
    value ∈ keys index.vocab (d.targetMap flag) ↔ lastOperation index.vocab log value = some flag := by
  induction run generalizing flag value with
  | start => cases flag <;> simp [targetMap,ofIndex,keys,lastOperation]
  | update manager handle triples rewritten insertOrDelete localVocab before valid rewriting completed ih =>
    obtain ⟨_,_,_,updated⟩ := update_updated before.invariant valid rewriting completed
    exact updated.keys_iff ih flag value
  | clear before ih => cases flag <;> simp [targetMap,DeltaTriples.clear,keys,lastOperation]

def expectedEntries (index : Index Word) (permutation : Permutation) (insertOrDelete : Bool) (map : TriplesToHandlesMap Word) :
    List (Nat × LocatedTriple (IdValue Word)) :=
  (keys index.vocab map).map (fun value => (locate (index.metaData permutation) (value.permute permutation.toKeyOrder),
    ⟨locate (index.metaData permutation) (value.permute permutation.toKeyOrder),value.permute permutation.toKeyOrder,insertOrDelete⟩))

structure Consistent (index : Index Word) (log : Log Word) (d : DeltaTriples Word) : Prop where
  inserted : ∀ value,value ∈ keys index.vocab d.triplesInserted ↔ lastOperation index.vocab log value = some true
  deleted : ∀ value,value ∈ keys index.vocab d.triplesDeleted ↔ lastOperation index.vocab log value = some false
  disjoint : (keys index.vocab d.triplesInserted ++ keys index.vocab d.triplesDeleted).Nodup
  located : ∀ permutation,(storedEntries (index.metaData permutation) (d.locatedTriples permutation)).Perm
    (expectedEntries index permutation true d.triplesInserted ++ expectedEntries index permutation false d.triplesDeleted)
  nothingBehind : ∀ permutation b,(index.metaData permutation).length < b → (d.locatedTriples permutation).map b = []
  numTriples : ∀ permutation,(d.locatedTriples permutation).numTriples =
    (storedEntries (index.metaData permutation) (d.locatedTriples permutation)).length
  handles : ∀ insertOrDelete,∀ entry ∈ d.targetMap insertOrDelete,∀ permutation,∃ located ltpb',
    (d.locatedTriples permutation).deref (entry.2 permutation) = some located ∧
    located = locateTriple (index.metaData permutation) permutation.toKeyOrder insertOrDelete (tripleValue index.vocab entry.1) ∧
    (d.locatedTriples permutation).erase located.blockIndex (entry.2 permutation) = .ok ltpb' ∧
    ∀ b,ltpb'.map b = ((d.locatedTriples permutation).map b).filter (fun node => node.located ≠ located)

theorem map_rowsOf (permutation : Permutation) (insertOrDelete : Bool) (map : TriplesToHandlesMap Word) :
    (rowsOf index permutation insertOrDelete map).map (fun row => (locate (index.metaData permutation) (row.triple.permute permutation.toKeyOrder),
      row.located (index.metaData permutation) permutation.toKeyOrder)) = expectedEntries index permutation insertOrDelete map := by
  rw [rowsOf,expectedEntries,keys,map_map,map_map]
  rfl

theorem Invariant.handles (invariant : Invariant index d) {entry : Triple Word × LocatedTripleHandles}
    (member : entry ∈ d.targetMap insertOrDelete) (permutation : Permutation) :
    ∃ located ltpb',(d.locatedTriples permutation).deref (entry.2 permutation) = some located ∧
      located = locateTriple (index.metaData permutation) permutation.toKeyOrder insertOrDelete (tripleValue index.vocab entry.1) ∧
      (d.locatedTriples permutation).erase located.blockIndex (entry.2 permutation) = .ok ltpb' ∧
      ∀ b,ltpb'.map b = ((d.locatedTriples permutation).map b).filter (fun node => node.located ≠ located) := by
  have inStep := invariant.inStepFor insertOrDelete
  have stores := inStep.stores permutation
  have isRow : rowOf index permutation insertOrDelete entry ∈ rowsOf index permutation insertOrDelete (d.targetMap insertOrDelete) ++
      rowsOf index permutation (!insertOrDelete) (d.inverseMap insertOrDelete) :=
    mem_append_left _ (List.mem_map.mpr ⟨entry,member,rfl⟩)
  obtain ⟨ltpb',run,exactly⟩ := stores.erase_exactly isRow
  rw [inStep.targetHandles entry member permutation]
  exact ⟨_,ltpb',stores.deref isRow,rfl,run,exactly⟩

theorem Invariant.storedEntries_perm (invariant : Invariant index d) (permutation : Permutation) :
    (storedEntries (index.metaData permutation) (d.locatedTriples permutation)).Perm
      (expectedEntries index permutation true d.triplesInserted ++ expectedEntries index permutation false d.triplesDeleted) := by
  rw [← map_rowsOf,← map_rowsOf,← map_append]
  exact (invariant.inStep.stores permutation).storedEntries_perm

/-- After every run of completed calls the maps, the sets and the handles are in step, and no check of a further call fails. -/
theorem run_consistent {log : Log Word} (run : Run index d log) :
    Consistent index log d ∧
      ∀ (manager : BlankNodeManager index.minIndex) (handle : CancellationHandle) (triples : List (Triple Word)) (insertOrDelete : Bool)
        (failure : Failure),ValidBatch index manager d triples →
        modifyTriplesImpl index manager handle triples insertOrDelete d = .error failure → failure = .tooManyBlankNodeBlocks := by
  have invariant := run.invariant
  have entries := invariant.storedEntries_perm
  refine ⟨⟨run.keys_iff true,run.keys_iff false,invariant.inStep.nodup,entries,?_,?_,?_⟩,?_⟩
  · intro permutation b behind
    exact (invariant.inStep.stores permutation).map_eq_nil behind
  · intro permutation
    rw [(invariant.inStep.stores permutation).numTriples,(entries permutation).length_eq]
    simp [rowsOf,expectedEntries,keys]
  · intro insertOrDelete entry member permutation
    exact invariant.handles member permutation
  · intro manager handle triples insertOrDelete failure valid failed
    rcases modifyTriplesImpl_cases invariant handle insertOrDelete valid with ⟨_,tooMany⟩ | ⟨_,_,_,_,⟨_,cancelled⟩ | ⟨_,finished,_⟩⟩
    · rw [tooMany] at failed
      cases failed
      rfl
    · rw [cancelled] at failed
      cases failed
    · rw [finished] at failed
      cases failed

def emptyIndex : Index Nat := ⟨⟨[],List.Pairwise.nil⟩,5,fun _ => [],fun _ => ⟨by simp,List.Pairwise.nil,rfl⟩⟩

def wordTriple (address : Nat) : Triple Nat := ⟨.encoded .Int 1,.localVocabIndex address 3,.blankNodeIndex 2,.vocabIndex 0⟩

theorem wordTriple_valid {d : DeltaTriples Nat} (noBlocks : d.localVocab.usedBlocks = ∅) :
    ValidBatch emptyIndex (.counting 5 {0}) d [wordTriple 7] := by
  refine ⟨by decide,by simp [noBlocks],?_⟩
  intro triple member i
  obtain rfl := mem_singleton.mp member
  fin_cases i <;> simp [ValidId,wordTriple,IdTriple.ids,emptyIndex]

theorem run_consistent_insertDelete :
    ∃ d,Run emptyIndex d [(false,[wordTriple 0]),(true,[wordTriple 0])] ∧ d.triplesInserted = [] ∧
      tripleValue emptyIndex.vocab (wordTriple 0) ∈ keys emptyIndex.vocab d.triplesDeleted := by
  have rewriting1 : rewriteLocalVocabEntriesAndBlankNodes (.counting 5 {0}) [wordTriple 7] {} =
      .ok ([wordTriple 0],{primaryWordSet := [(0,3)],nextAddress := 1}) := rfl
  obtain ⟨d1,_,inserting,_,_,inserted⟩ := modifyTriplesImpl_completes (Invariant.ofIndex emptyIndex) true (wordTriple_valid rfl) rewriting1
  have first := Run.update _ _ _ _ _ _ Run.start (wordTriple_valid rfl) rewriting1 inserting
  have valid : ValidBatch emptyIndex (.counting 5 {0}) d1 [wordTriple 7] := wordTriple_valid (by rw [inserted.localVocab]; rfl)
  have rewriting2 : rewriteLocalVocabEntriesAndBlankNodes (.counting 5 {0}) [wordTriple 7] d1.localVocab =
      .ok ([wordTriple 0],{primaryWordSet := [(0,3)],nextAddress := 1}) := by
    rw [inserted.localVocab]
    rfl
  obtain ⟨d2,_,deleting,_⟩ := modifyTriplesImpl_completes first.invariant false valid rewriting2
  have second := Run.update _ _ _ _ _ _ first valid rewriting2 deleting
  obtain ⟨consistent,_⟩ := run_consistent second
  refine ⟨d2,second,?_,?_⟩
  · rw [eq_nil_iff_forall_not_mem]
    intro entry member
    have last := (consistent.inserted _).mp (List.mem_map.mpr ⟨entry,member,rfl⟩)
    simp only [lastOperation_cons] at last
    split at last <;> simp [lastOperation] at last
  · rw [consistent.deleted,lastOperation_cons,if_pos (List.mem_map.mpr ⟨_,mem_singleton.mpr rfl,rfl⟩)]

end DeltaTriples
end Qlever
