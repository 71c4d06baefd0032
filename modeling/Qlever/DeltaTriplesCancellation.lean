import Qlever.DeltaTriplesRuns

/-! What a cancelled update leaves behind. The triples of the batch are already erased from the inverse map and from all permutations
when the first check is made, and a check after the first permutation finds the new triples added there.
-/
namespace Qlever
open Library
open Function (update update_of_ne update_self)
variable {Word : Type} [LinearOrder Word]

section Checks

theorem chunkedForLoop_checks {α β : Type} (action : α → β) (chunks checks : Nat) (xs : List α) (out : List β) :
    (checks < chunks → chunkedForLoop action chunks xs out ⟨some checks⟩ = none) ∧
    (chunks ≤ checks → ∃ result,chunkedForLoop action chunks xs out ⟨some checks⟩ = some (result,⟨some (checks - chunks)⟩)) := by
  induction chunks generalizing checks xs out with
  | zero => exact ⟨fun impossible => by omega,fun _ => ⟨out,rfl⟩⟩
  | succ chunks ih =>
    cases checks with
    | zero => exact ⟨fun _ => rfl,fun impossible => by omega⟩
    | succ checks =>
      obtain ⟨early,late⟩ := ih checks (xs.drop chunkSize) (out ++ (xs.take chunkSize).map action)
      refine ⟨fun few => early (by omega),fun many => ?_⟩
      rw [Nat.add_sub_add_right]
      exact late (by omega)

end Checks

namespace LocatedTriplesPerBlock
variable {Id : Type} [LinearOrder Id] {metadata : List (CompressedBlockMetadata Id)} {keyOrder : KeyOrder}
  {ltpb ltpb' : LocatedTriplesPerBlock Id} {rows rows' : List (LocatedRow Id)}

section
omit [LinearOrder Id]

structure SameSets (ltpb ltpb' : LocatedTriplesPerBlock Id) : Prop where
  map : ltpb'.map = ltpb.map
  numTriples : ltpb'.numTriples = ltpb.numTriples
  nextNode : ltpb'.nextNode = ltpb.nextNode
  originalMetadata : ltpb'.originalMetadata = ltpb.originalMetadata

theorem SameSets.refl (ltpb : LocatedTriplesPerBlock Id) : SameSets ltpb ltpb := ⟨rfl,rfl,rfl,rfl⟩

theorem SameSets.trans {ltpb1 ltpb2 ltpb3 : LocatedTriplesPerBlock Id} (first : SameSets ltpb1 ltpb2) (second : SameSets ltpb2 ltpb3) :
    SameSets ltpb1 ltpb3 :=
  ⟨second.map.trans first.map,second.numTriples.trans first.numTriples,second.nextNode.trans first.nextNode,
    second.originalMetadata.trans first.originalMetadata⟩

end

theorem SameSets.updateAugmentedMetadata (ltpb : LocatedTriplesPerBlock Id) : SameSets ltpb ltpb.updateAugmentedMetadata := ⟨rfl,rfl,rfl,rfl⟩

theorem Stores.sameSets (stores : Stores metadata keyOrder ltpb rows) (same : SameSets ltpb ltpb') : Stores metadata keyOrder ltpb' rows where
  sorted := by
    rw [Sorted,same.map]
    exact stores.sorted
  mem := by
    rw [same.map]
    exact stores.mem
  triples := stores.triples
  addresses := stores.addresses
  below := by
    rw [same.nextNode]
    exact stores.below
  numTriples := same.numTriples.trans stores.numTriples
  original := same.originalMetadata.trans stores.original

theorem Stores.length_of_map (stores : Stores metadata keyOrder ltpb rows) (stores' : Stores metadata keyOrder ltpb' rows')
    (same : ltpb'.map = ltpb.map) : rows'.length = rows.length := by
  have nodes := stores.allNodes_perm.length_eq
  have nodes' := stores'.allNodes_perm.length_eq
  rw [allNodes,same,← allNodes,nodes] at nodes'
  simpa using nodes'.symm

end LocatedTriplesPerBlock

namespace DeltaTriples
open LocatedTriplesPerBlock TriplesToHandlesMap
variable {index : Index Word} {d d' : DeltaTriples Word} {insertOrDelete : Bool} {locatedTriples locatedTriples' : LocatedTriplesPerBlockAllPermutations Word}
  {intermediateHandles : Permutation → List SetIterator} {values : List (IdTriple (IdValue Word))}

section Adding

variable {permutation : Permutation} {permutations : List Permutation}

theorem locateAndAddTriples_early {checks : Nat} (early : checks ≤ numChunks values.length) :
    locateAndAddTriples index values insertOrDelete (permutation::permutations) locatedTriples intermediateHandles ⟨some checks⟩ =
      .ok (.cancelled locatedTriples) := by
  obtain ⟨none,some⟩ := chunkedForLoop_checks (locateTriple (index.metaData permutation) permutation.toKeyOrder insertOrDelete)
    (numChunks values.length) checks values []
  rw [locateAndAddTriples,locateTriplesInPermutation]
  rcases early.lt_or_eq with less | same
  · rw [none less]
  · obtain ⟨result,run⟩ := some same.ge
    rw [run,same]
    simp [CancellationHandle.throwIfCancelled]

variable {handle : CancellationHandle}

theorem locateAndAddTriples_cancelled (run : locateAndAddTriples index values insertOrDelete (permutation::permutations) locatedTriples intermediateHandles handle =
      .ok (.cancelled locatedTriples')) :
    locatedTriples' = locatedTriples ∨
    ∃ handles ltpb,(locatedTriples permutation).add (values.map (locateTriple (index.metaData permutation) permutation.toKeyOrder insertOrDelete)) =
        .ok (handles,ltpb) ∧
      (locatedTriples' = update locatedTriples permutation ltpb ∨
        ∃ intermediateHandles' handle',locateAndAddTriples index values insertOrDelete permutations (update locatedTriples permutation ltpb)
          intermediateHandles' handle' = .ok (.cancelled locatedTriples')) := by
  rw [locateAndAddTriples] at run
  split at run
  next =>
    cases run
    exact Or.inl rfl
  next located handle1 locating =>
    obtain rfl := locateTriplesInPermutation_eq locating
    split at run
    next =>
      cases run
      exact Or.inl rfl
    next handle2 _ =>
      rw [bind_eq_ok] at run
      obtain ⟨⟨handles,ltpb⟩,adding,run⟩ := run
      refine Or.inr ⟨handles,ltpb,adding,?_⟩
      simp only at run
      split at run
      next =>
        cases run
        exact Or.inl rfl
      next handle3 _ => exact Or.inr ⟨_,_,run⟩

theorem locateAndAddTriples_others (run : locateAndAddTriples index values insertOrDelete permutations locatedTriples intermediateHandles handle = .ok (.cancelled locatedTriples'))
    {other : Permutation} (outside : other ∉ permutations) : locatedTriples' other = locatedTriples other := by
  induction permutations generalizing locatedTriples intermediateHandles handle with
  | nil => cases run
  | cons permutation permutations ih =>
    obtain ⟨different,notLater⟩ := not_or.mp (mt List.mem_cons.mpr outside)
    rcases locateAndAddTriples_cancelled run with rfl | ⟨_,_,_,rfl | ⟨_,_,rest⟩⟩
    · rfl
    · exact update_of_ne different _ _
    · rw [ih rest notLater]
      exact update_of_ne different _ _

theorem locateAndAddTriples_late (absent : permutation ∉ permutations)
    {checks : Nat} (late : numChunks values.length < checks)
    (run : locateAndAddTriples index values insertOrDelete (permutation::permutations) locatedTriples intermediateHandles ⟨some checks⟩ =
      .ok (.cancelled locatedTriples')) :
    ∃ handles,(locatedTriples permutation).add (values.map (locateTriple (index.metaData permutation) permutation.toKeyOrder insertOrDelete)) =
      .ok (handles,locatedTriples' permutation) := by
  obtain ⟨result,locating⟩ := (chunkedForLoop_checks (locateTriple (index.metaData permutation) permutation.toKeyOrder insertOrDelete)
    (numChunks values.length) checks values []).2 late.le
  obtain ⟨more,checksLeft⟩ : ∃ more,checks - numChunks values.length = more + 1 := ⟨checks - numChunks values.length - 1,by omega⟩
  have all := locateTriplesInPermutation_eq locating
  subst all
  rw [locateAndAddTriples,locateTriplesInPermutation,locating,checksLeft] at run
  simp only [CancellationHandle.throwIfCancelled] at run
  rw [bind_eq_ok] at run
  obtain ⟨⟨handles,ltpb⟩,adding,run⟩ := run
  refine ⟨handles,?_⟩
  rw [adding]
  simp only at run
  split at run
  next =>
    cases run
    rw [update_self]
  next handle3 _ => rw [locateAndAddTriples_others run absent,update_self]

theorem locateAndAddTriples_empty (run : locateAndAddTriples index [] insertOrDelete permutations locatedTriples intermediateHandles handle = .ok (.cancelled locatedTriples'))
    (permutation : Permutation) : SameSets (locatedTriples permutation) (locatedTriples' permutation) := by
  induction permutations generalizing locatedTriples intermediateHandles handle with
  | nil => cases run
  | cons first permutations ih =>
    have step : ∀ other,SameSets (locatedTriples other)
        (update locatedTriples first (locatedTriples first).updateAugmentedMetadata other) := by
      intro other
      by_cases same : other = first
      · subst same
        rw [update_self]
        exact SameSets.updateAugmentedMetadata _
      · rw [update_of_ne same]
        exact SameSets.refl _
    rcases locateAndAddTriples_cancelled run with rfl | ⟨_,_,adding,rest⟩
    · exact SameSets.refl _
    · cases adding
      rcases rest with rfl | ⟨_,_,rest⟩
      · exact step permutation
      · exact (step permutation).trans (ih rest)

end Adding

section Erasing

theorem foldlM_eraseFromInverse_none {triples : List (Triple Word)} {inverse : TriplesToHandlesMap Word}
    (absent : ∀ triple ∈ triples,tripleValue index.vocab triple ∉ keys index.vocab inverse) :
    triples.foldlM (eraseFromInverse index) (locatedTriples,inverse) = .ok (locatedTriples,inverse) := by
  induction triples with
  | nil => rfl
  | cons triple triples ih =>
    have notContained : find index.vocab inverse triple = none := by
      rw [← Option.not_isSome_iff_eq_none]
      exact fun contained => absent triple List.mem_cons_self (contains_iff.mp contained)
    have first : eraseFromInverse index (locatedTriples,inverse) triple = .ok (locatedTriples,inverse) := by
      simp only [eraseFromInverse,notContained]
    rw [List.foldlM_cons,first]
    exact ih (List.forall_mem_cons.mp absent).2

end Erasing

structure Unchanged (d d' : DeltaTriples Word) : Prop where
  inserted : d'.triplesInserted = d.triplesInserted
  deleted : d'.triplesDeleted = d.triplesDeleted
  sets : ∀ permutation,(d'.locatedTriples permutation).map = (d.locatedTriples permutation).map ∧
    (d'.locatedTriples permutation).numTriples = (d.locatedTriples permutation).numTriples

/-- No triple of the batch is in the inverse map, and if there are triples that are not in the target map, then the
cancellation is noticed at latest by the check before these are added to the first permutation. -/
structure Harmless (index : Index Word) (handle : CancellationHandle) (triples : List (Triple Word)) (insertOrDelete : Bool) (d : DeltaTriples Word) :
    Prop where
  notInverse : ∀ triple ∈ triples,contains index.vocab (d.inverseMap insertOrDelete) triple = false
  beforeAdding : newTriples index triples insertOrDelete d = [] ∨
    ∀ checks,handle.remainingChecks = some checks → checks ≤ numChunks (newTriples index triples insertOrDelete d).length

section Batch
variable {minIndex : Nat} {manager : BlankNodeManager minIndex} {localVocab : LocalVocab Word} {state : Conversion Word} {vocab : Vocabulary Word}

theorem converted_value_eq (converting : Converting manager localVocab state) {id id' known : ValueId Word}
    (converted : Converted minIndex localVocab state id id') (owned : Owned minIndex localVocab known)
    (same : id.value vocab = known.value vocab ∨ id'.value vocab = known.value vocab) : id'.value vocab = id.value vocab := by
  cases converted with
  | mapped index index' isLocal foreign member =>
    exfalso
    rcases same with same | same
    · rw [ValueId.value_blankNode same.symm] at owned
      rcases owned with global | contained
      · omega
      · rw [foreign] at contained
        cases contained
    · rw [ValueId.value_blankNode same.symm] at owned
      have isLocal' := (converting.contained _ member).1
      have new := converting.new _ member
      rcases owned with global | contained
      · simp only at isLocal'
        omega
      · rw [contained] at new
        cases new
  | _ => rfl

theorem convertedTriple_value_eq (converting : Converting manager localVocab state) {t t' known : Triple Word}
    (converted : ConvertedTriple minIndex localVocab state t t') (owned : ∀ i,Owned minIndex localVocab (known.ids i))
    (same : tripleValue vocab t = tripleValue vocab known ∨ tripleValue vocab t' = tripleValue vocab known) : tripleValue vocab t' = tripleValue vocab t := by
  apply IdTriple.ids_injective
  funext i
  simp only [tripleValue,IdTriple.ids_map]
  apply converted_value_eq converting (converted i) (owned i)
  apply same.imp
  all_goals
    intro equal
    have column := congrArg (fun triple => triple.ids i) equal
    simpa only [tripleValue,IdTriple.ids_map] using column

theorem convertedTriple_contains {map : TriplesToHandlesMap Word} (converting : Converting manager localVocab state) {t t' : Triple Word}
    (converted : ConvertedTriple minIndex localVocab state t t') (owned : ∀ entry ∈ map,∀ i,Owned minIndex localVocab (entry.1.ids i)) :
    contains vocab map t = contains vocab map t' := by
  rw [Bool.eq_iff_iff,contains_iff,contains_iff]
  constructor
  · intro member
    obtain ⟨entry,isEntry,same⟩ := List.mem_map.mp member
    rw [convertedTriple_value_eq converting converted (owned entry isEntry) (Or.inl same.symm)]
    exact member
  · intro member
    obtain ⟨entry,isEntry,same⟩ := List.mem_map.mp member
    rw [← convertedTriple_value_eq converting converted (owned entry isEntry) (Or.inr same.symm)]
    exact member

theorem harmless_iff_rewritten {manager : BlankNodeManager index.minIndex} {handle : CancellationHandle} {triples rewritten : List (Triple Word)}
    (invariant : Invariant index d) (result : Rewritten manager d.localVocab triples rewritten state) (localVocab : LocalVocab Word) :
    Harmless index handle rewritten insertOrDelete {d with localVocab := localVocab} ↔ Harmless index handle triples insertOrDelete d := by
  have same : ∀ flag,∀ t t',ConvertedTriple index.minIndex d.localVocab state t t' →
      contains index.vocab (d.targetMap flag) t = contains index.vocab (d.targetMap flag) t' := by
    intro flag t t' converted
    exact convertedTriple_contains result.converting converted (invariant.owned flag)
  have sizes : (newTriples index triples insertOrDelete d).length = (newTriples index rewritten insertOrDelete {d with localVocab := localVocab}).length := by
    apply List.Forall₂.length_eq (R := ConvertedTriple index.minIndex d.localVocab state)
    apply List.rel_filter _ result.converted
    intro t t' converted
    beta_reduce
    rw [same insertOrDelete t t' converted]
    exact Iff.rfl
  have inverse : (∀ triple ∈ rewritten,contains index.vocab (d.inverseMap insertOrDelete) triple = false) ↔
      ∀ triple ∈ triples,contains index.vocab (d.inverseMap insertOrDelete) triple = false := by
    constructor
    · intro none triple member
      obtain ⟨triple',isMember,converted⟩ := exists_left result.converted.flip member
      rw [inverseMap,same _ _ _ converted]
      exact none triple' isMember
    · intro none triple' member
      obtain ⟨triple,isMember,converted⟩ := exists_left result.converted member
      rw [inverseMap,← same _ _ _ converted]
      exact none triple isMember
  constructor
  · rintro ⟨notInverse,beforeAdding⟩
    refine ⟨inverse.mp notInverse,?_⟩
    rw [← List.length_eq_zero_iff,sizes,List.length_eq_zero_iff]
    exact beforeAdding
  · rintro ⟨notInverse,beforeAdding⟩
    refine ⟨inverse.mpr notInverse,?_⟩
    rw [← List.length_eq_zero_iff,← sizes,List.length_eq_zero_iff]
    exact beforeAdding

end Batch

section Cancelled
variable {handle : CancellationHandle} {rewritten : List (Triple Word)}

theorem applyRewritten_cancelled (run : applyRewritten index handle rewritten insertOrDelete d = .ok (.cancelled d')) :
    ∃ erased inverse' located,
      (newTriples index rewritten insertOrDelete d).foldlM (eraseFromInverse index) (d.locatedTriples,d.inverseMap insertOrDelete) = .ok (erased,inverse') ∧
      locateAndAddTriples index ((newTriples index rewritten insertOrDelete d).map (tripleValue index.vocab)) insertOrDelete Permutation.all
        (fun permutation => (erased permutation).updateAugmentedMetadata) (fun _ => []) handle = .ok (.cancelled located) ∧
      d' = {d with locatedTriples := located}.withMaps insertOrDelete (d.targetMap insertOrDelete) inverse' := by
  rw [applyRewritten,bind_eq_ok] at run
  obtain ⟨⟨erased,inverse'⟩,erasing,run⟩ := run
  rw [bind_eq_ok] at run
  obtain ⟨result,adding,run⟩ := run
  cases result with
  | cancelled located =>
    cases run
    exact ⟨erased,inverse',located,erasing,adding,rfl⟩
  | finished located intermediate =>
    simp only [length_transposeHandles,if_true,pure_eq_ok] at run
    cases run

section
omit [LinearOrder Word]

theorem Unchanged.withMaps {located : LocatedTriplesPerBlockAllPermutations Word}
    (sets : ∀ permutation,SameSets (d.locatedTriples permutation) (located permutation)) :
    Unchanged d ({d with locatedTriples := located}.withMaps insertOrDelete (d.targetMap insertOrDelete) (d.inverseMap insertOrDelete)) := by
  refine ⟨?_,?_,?_⟩
  · cases insertOrDelete <;> rfl
  · cases insertOrDelete <;> rfl
  · intro permutation
    rw [locatedTriples_withMaps]
    exact ⟨(sets permutation).map,(sets permutation).numTriples⟩

theorem Unchanged.targetMap_eq (unchanged : Unchanged d d') (flag : Bool) : d'.targetMap flag = d.targetMap flag := by
  cases flag with
  | true => exact unchanged.inserted
  | false => exact unchanged.deleted

end

theorem length_values (index : Index Word) (triples : List (Triple Word)) : (triples.map (tripleValue index.vocab)).length = triples.length := List.length_map _

theorem applyRewritten_unchanged (harmless : Harmless index handle rewritten insertOrDelete d)
    (run : applyRewritten index handle rewritten insertOrDelete d = .ok (.cancelled d')) :
    Unchanged d d' ∧ d'.localVocab = d.localVocab ∧
      ∀ permutation,SameSets (d.locatedTriples permutation) (d'.locatedTriples permutation) := by
  obtain ⟨erased,inverse',located,erasing,adding,rfl⟩ := applyRewritten_cancelled run
  have absent : ∀ triple ∈ newTriples index rewritten insertOrDelete d,tripleValue index.vocab triple ∉ keys index.vocab (d.inverseMap insertOrDelete) := by
    intro triple member inside
    have notContained := harmless.notInverse triple (mem_newTriples.mp member).1
    rw [contains_iff.mpr inside] at notContained
    cases notContained
  rw [foldlM_eraseFromInverse_none absent] at erasing
  cases erasing
  have sets : ∀ permutation,SameSets (d.locatedTriples permutation) (located permutation) := by
    intro permutation
    apply (SameSets.updateAugmentedMetadata _).trans
    rcases harmless.beforeAdding with empty | early
    · rw [empty] at adding
      exact locateAndAddTriples_empty adding permutation
    · obtain ⟨checks⟩ := handle
      cases checks with
      | none => exact absurd adding locateAndAddTriples_uncancelled
      | some checks =>
        have first := early checks rfl
        rw [← length_values index] at first
        rw [Permutation.all,locateAndAddTriples_early first] at adding
        cases adding
        exact SameSets.refl _
  exact ⟨Unchanged.withMaps sets,by simp,by simpa using sets⟩

theorem applyRewritten_changed (inStep : InStep index insertOrDelete d.locatedTriples (d.targetMap insertOrDelete) (d.inverseMap insertOrDelete))
    (distinct : (rewritten.map (tripleValue index.vocab)).Nodup)
    (run : applyRewritten index handle rewritten insertOrDelete d = .ok (.cancelled d')) (unchanged : Unchanged d d') :
    Harmless index handle rewritten insertOrDelete d := by
  obtain ⟨erased,inverse',located,erasing,adding,rfl⟩ := applyRewritten_cancelled run
  obtain ⟨erased',inverse'',erasing',inStep',members⟩ := foldlM_eraseFromInverse (newTriples index rewritten insertOrDelete d) inStep
  rw [erasing] at erasing'
  cases erasing'
  have sameInverse : inverse' = d.inverseMap insertOrDelete := by
    have same := unchanged.targetMap_eq (!insertOrDelete)
    rw [← inverseMap,inverseMap_withMaps] at same
    exact same
  refine ⟨?_,?_⟩
  · intro triple member
    by_contra contained
    have inside := contains_iff.mp (Bool.not_eq_false _ ▸ contained)
    rw [← sameInverse] at inside
    exact ((keys_erased inStep.nodup members _).mp inside).2 (List.mem_map.mpr ⟨triple,member,rfl⟩)
  · by_contra late
    obtain ⟨notEmpty,notEarly⟩ := not_or.mp late
    simp only [not_forall,not_le] at notEarly
    obtain ⟨checks,remaining,many⟩ := notEarly
    obtain ⟨remainingChecks⟩ := handle
    simp only at remaining
    subst remaining
    rw [← length_values index] at many
    obtain ⟨handles,added⟩ := locateAndAddTriples_late (by decide) many adding
    obtain ⟨ltpb,added',stores⟩ := (inStep'.updateAugmentedMetadata.stores .PSO).add _ insertOrDelete (nodup_newTriples insertOrDelete d distinct)
      (newTriples_fresh (keys_erased inStep.nodup members) .PSO)
    rw [added] at added'
    cases added'
    have sameMap := (unchanged.sets .PSO).1
    rw [locatedTriples_withMaps] at sameMap
    have lengths := (inStep.stores .PSO).length_of_map stores sameMap
    simp only [sameInverse,List.length_append,newRows,List.length_map,List.length_zipIdx] at lengths
    exact notEmpty (List.eq_nil_of_length_eq_zero (by omega))

theorem modifyTriplesImpl_early {manager : BlankNodeManager index.minIndex} {triples : List (Triple Word)} {localVocab : LocalVocab Word} (insertOrDelete : Bool)
    (invariant : Invariant index d) (rewriting : rewriteLocalVocabEntriesAndBlankNodes manager triples d.localVocab = .ok (rewritten,localVocab)) :
    ∃ d',modifyTriplesImpl index manager ⟨some 0⟩ triples insertOrDelete d = .ok (.cancelled d') ∧ d'.localVocab = localVocab := by
  have inStep : InStep index insertOrDelete d.locatedTriples (({d with localVocab := localVocab} : DeltaTriples Word).targetMap insertOrDelete)
      (({d with localVocab := localVocab} : DeltaTriples Word).inverseMap insertOrDelete) := invariant.inStepFor insertOrDelete
  obtain ⟨erased,inverse',erasing,_,_⟩ := foldlM_eraseFromInverse (newTriples index rewritten insertOrDelete {d with localVocab := localVocab}) inStep
  refine ⟨{d with localVocab := localVocab,locatedTriples := fun permutation => (erased permutation).updateAugmentedMetadata}.withMaps insertOrDelete
    (d.targetMap insertOrDelete) inverse',?_,?_⟩
  · rw [modifyTriplesImpl,rewriting]
    simp only [bind,Except.bind,applyRewritten,erasing,Permutation.all,locateAndAddTriples_early (Nat.zero_le _)]
    rfl
  · simp

end Cancelled
end DeltaTriples
end Qlever
