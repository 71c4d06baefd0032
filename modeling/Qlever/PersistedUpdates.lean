import Qlever.DeltaTriplesManager
import Qlever.TripleSerializer

/-! Which states of the updates can be reached, also by calls that are cancelled, and what reading the
IDs of such a state from disk yields.
-/
namespace Qlever
open Library
variable {Word : Type} [LinearOrder Word]

namespace TriplesToHandlesMap
variable {vocab : Vocabulary Word} {map : TriplesToHandlesMap Word}

theorem insert_cases (vocab : Vocabulary Word) (map : TriplesToHandlesMap Word) (entry : Triple Word × LocatedTripleHandles) :
    insert vocab map entry = map ∨ insert vocab map entry = map ++ [entry] ∧ tripleValue vocab entry.1 ∉ keys vocab map := by
  rw [insert]
  split
  · exact Or.inl rfl
  · rename_i notContained
    exact Or.inr ⟨rfl,mt contains_iff.mpr notContained⟩

theorem nodup_foldl_insert (entries : TriplesToHandlesMap Word) (distinct : (keys vocab map).Nodup) :
    (keys vocab (entries.foldl (insert vocab) map)).Nodup := by
  induction entries generalizing map with
  | nil => exact distinct
  | cons entry entries ih =>
    apply ih
    rcases insert_cases vocab map entry with same | ⟨appended,fresh⟩
    · rw [same]
      exact distinct
    · rw [appended,keys,List.map_append,← keys]
      exact distinct.append (List.nodup_singleton _) (by simpa using fresh)

theorem mem_foldl_insert {entries : TriplesToHandlesMap Word} {entry : Triple Word × LocatedTripleHandles}
    (member : entry ∈ entries.foldl (insert vocab) map) : entry ∈ map ∨ entry ∈ entries := by
  induction entries generalizing map with
  | nil => exact Or.inl member
  | cons first entries ih =>
    rcases ih member with old | later
    · rcases insert_cases vocab map first with same | ⟨appended,_⟩
      · rw [same] at old
        exact Or.inl old
      · rw [appended,List.mem_append,List.mem_singleton] at old
        rcases old with old | rfl
        · exact Or.inl old
        · exact Or.inr List.mem_cons_self
    · exact Or.inr (List.mem_cons_of_mem first later)

end TriplesToHandlesMap

namespace DeltaTriples
open LocatedTriplesPerBlock TriplesToHandlesMap
variable {index : Index Word} {d d' : DeltaTriples Word}

inductive Reachable (index : Index Word) : DeltaTriples Word → Prop
  | start : Reachable index (ofIndex index)
  | finished {d d' : DeltaTriples Word} (call : Call index) (before : Reachable index d) (valid : ValidBatch index call.manager d call.triples)
    (done : perform call d = .ok (.finished d')) : Reachable index d'
  | cancelled {d d' : DeltaTriples Word} (call : Call index) (before : Reachable index d) (valid : ValidBatch index call.manager d call.triples)
    (done : perform call d = .ok (.cancelled d')) : Reachable index d'
  | clear {d : DeltaTriples Word} (before : Reachable index d) : Reachable index d.clear

structure Storable (index : Index Word) (d : DeltaTriples Word) : Prop where
  vocab : LocalVocab.WellFormed index.minIndex d.localVocab
  distinct : (keys index.vocab d.triplesInserted ++ keys index.vocab d.triplesDeleted).Nodup
  owned : ∀ flag,∀ entry ∈ d.targetMap flag,∀ i,Owned index.minIndex d.localVocab (entry.1.ids i)

section Maps

variable {locatedTriples : LocatedTriplesPerBlockAllPermutations Word} {inverse : TriplesToHandlesMap Word} {result : LocatedTriplesPerBlockAllPermutations Word × TriplesToHandlesMap Word}

theorem eraseFromInverse_snd {triple : Triple Word}
    (run : eraseFromInverse index (locatedTriples,inverse) triple = .ok result) : result.2 = erase index.vocab inverse triple := by
  cases found : find index.vocab inverse triple with
  | none =>
    simp only [eraseFromInverse,found] at run
    cases run
    rw [erase_of_not_mem (find_eq_none found)]
  | some entry =>
    simp only [eraseFromInverse,found,bind_eq_ok,pure_eq_ok] at run
    obtain ⟨_,_,rfl⟩ := run
    rfl

theorem foldlM_eraseFromInverse_snd {triples : List (Triple Word)}
        (run : triples.foldlM (eraseFromInverse index) (locatedTriples,inverse) = .ok result) :
    result.2.Sublist inverse ∧ ∀ entry ∈ result.2,tripleValue index.vocab entry.1 ∉ triples.map (tripleValue index.vocab) := by
  induction triples generalizing locatedTriples inverse with
  | nil =>
    cases run
    exact ⟨List.Sublist.refl _,by simp⟩
  | cons triple triples ih =>
    rw [List.foldlM_cons,bind_eq_ok] at run
    obtain ⟨⟨located,inverse'⟩,first,rest⟩ := run
    have erased : inverse' = erase index.vocab inverse triple := eraseFromInverse_snd first
    obtain ⟨sub,absent⟩ := ih rest
    rw [erased] at sub
    refine ⟨sub.trans List.filter_sublist,?_⟩
    intro entry member inside
    rw [List.map_cons,List.mem_cons] at inside
    rcases inside with same | later
    · exact (mem_erase.mp (sub.subset member)).2 same
    · exact absent entry member later

structure MapsUpdated (index : Index Word) (insertOrDelete : Bool) (rewritten : List (Triple Word)) (d d' : DeltaTriples Word) : Prop where
  localVocab : d'.localVocab = d.localVocab
  distinct : (keys index.vocab (d'.targetMap insertOrDelete) ++ keys index.vocab (d'.inverseMap insertOrDelete)).Nodup
  target : ∀ entry ∈ d'.targetMap insertOrDelete,entry ∈ d.targetMap insertOrDelete ∨ entry.1 ∈ rewritten
  inverse : ∀ entry ∈ d'.inverseMap insertOrDelete,entry ∈ d.inverseMap insertOrDelete

omit [LinearOrder Word] in
def UpdateResult.deltaTriples : UpdateResult Word → DeltaTriples Word
  | .finished d => d
  | .cancelled d => d

theorem applyRewritten_maps {insertOrDelete : Bool} {handle : CancellationHandle} {rewritten : List (Triple Word)} {result : UpdateResult Word}
    (distinct : (keys index.vocab (d.targetMap insertOrDelete) ++ keys index.vocab (d.inverseMap insertOrDelete)).Nodup)
    (run : applyRewritten index handle rewritten insertOrDelete d = .ok result) : MapsUpdated index insertOrDelete rewritten d result.deltaTriples := by
  rw [applyRewritten,bind_eq_ok] at run
  obtain ⟨⟨erased,inverse'⟩,erasing,run⟩ := run
  obtain ⟨sub,absent⟩ := foldlM_eraseFromInverse_snd erasing
  obtain ⟨distinctTarget,distinctInverse,apart⟩ := List.nodup_append.mp distinct
  have distinctInverse' : (keys index.vocab inverse').Nodup := distinctInverse.sublist (sub.map _)
  have inverseKeys : ∀ value ∈ keys index.vocab inverse',value ∈ keys index.vocab (d.inverseMap insertOrDelete) := (sub.map _).subset
  rw [bind_eq_ok] at run
  obtain ⟨added,_,run⟩ := run
  cases added with
  | cancelled located =>
    cases run
    refine ⟨by simp [UpdateResult.deltaTriples],?_,?_,?_⟩ <;>
      simp only [UpdateResult.deltaTriples,targetMap_withMaps,inverseMap_withMaps]
    · apply List.nodup_append.mpr
      refine ⟨distinctTarget,distinctInverse',?_⟩
      intro value inTarget other inInverse
      exact apart value inTarget other (inverseKeys other inInverse)
    · exact fun entry member => Or.inl member
    · exact fun entry member => sub.subset member
  | finished located intermediate =>
    simp only [length_transposeHandles,if_true,pure_eq_ok] at run
    subst run
    refine ⟨by simp [UpdateResult.deltaTriples],?_,?_,?_⟩ <;>
      simp only [UpdateResult.deltaTriples,targetMap_withMaps,inverseMap_withMaps]
    · apply List.nodup_append.mpr
      refine ⟨nodup_foldl_insert _ distinctTarget,distinctInverse',?_⟩
      intro value inTarget other inInverse same
      subst same
      obtain ⟨entry,isEntry,rfl⟩ := List.mem_map.mp inTarget
      rcases mem_foldl_insert isEntry with old | new
      · exact apart _ (List.mem_map.mpr ⟨entry,old,rfl⟩) _ (inverseKeys _ inInverse) rfl
      · obtain ⟨other,isOther,same⟩ := List.mem_map.mp inInverse
        apply absent other isOther
        rw [same]
        exact List.mem_map.mpr ⟨entry.1,(List.of_mem_zip new).1,rfl⟩
    · intro entry member
      rcases mem_foldl_insert member with old | new
      · exact Or.inl old
      · exact Or.inr (mem_newTriples.mp (List.of_mem_zip new).1).1
    · exact fun entry member => sub.subset member

end Maps

section Reachable

theorem Storable.distinctFor (storable : Storable index d) (insertOrDelete : Bool) :
    (keys index.vocab (d.targetMap insertOrDelete) ++ keys index.vocab (d.inverseMap insertOrDelete)).Nodup := by
  cases insertOrDelete with
  | true => exact storable.distinct
  | false => exact List.nodup_append_comm.mp storable.distinct

theorem Storable.perform (storable : Storable index d) {call : Call index} (valid : ValidBatch index call.manager d call.triples)
    {result : UpdateResult Word} (done : DeltaTriples.perform call d = .ok result) : Storable index result.deltaTriples := by
  obtain ⟨rewritten,localVocab,rewriting,applied⟩ := DeltaTriplesManager.perform_rewrites done
  rcases rewrite_yields storable.vocab valid.disjoint valid.valid with failed | ⟨_,_,rewriting',state,rfl,rewritten'⟩
  · rw [failed] at rewriting
    cases rewriting
  · rw [rewriting] at rewriting'
    cases rewriting'
    have distinct : (keys index.vocab (({d with localVocab := state.localVocab} : DeltaTriples Word).targetMap call.insertOrDelete) ++
        keys index.vocab (({d with localVocab := state.localVocab} : DeltaTriples Word).inverseMap call.insertOrDelete)).Nodup :=
      storable.distinctFor call.insertOrDelete
    have updated := applyRewritten_maps distinct applied
    have vocab : result.deltaTriples.localVocab = state.localVocab := updated.localVocab
    refine ⟨vocab ▸ rewritten'.converting.well,?_,?_⟩
    · have both := updated.distinct
      cases flag : call.insertOrDelete with
      | true =>
        rw [flag] at both
        exact both
      | false =>
        rw [flag] at both
        exact List.nodup_append_comm.mp both
    · intro flag entry member i
      rw [vocab]
      by_cases same : flag = call.insertOrDelete
      · subst same
        rcases updated.target entry member with old | new
        · exact rewritten'.owned (storable.owned _ entry old i)
        · exact rewritten'.owned_rewritten new i
      · obtain rfl : flag = !call.insertOrDelete := Bool.eq_not.mpr same
        exact rewritten'.owned (storable.owned _ entry (updated.inverse entry member) i)

theorem Reachable.storable (reachable : Reachable index d) : Storable index d := by
  induction reachable with
  | start =>
    have invariant := Invariant.ofIndex index
    exact ⟨invariant.vocab,invariant.inStep.nodup,invariant.owned⟩
  | finished call before valid done ih | cancelled call before valid done ih => exact ih.perform valid done
  | @clear d before ih =>
    refine ⟨ih.vocab,List.nodup_nil,?_⟩
    intro flag
    cases flag <;> simp [targetMap,DeltaTriples.clear]

end Reachable
end DeltaTriples

section Deserialize
variable {minIndex : Nat} {manager : BlankNodeManager minIndex} {vocab : LocalVocab Word} {mapping : List (Nat × ValueId Word)}

theorem deserializeLocalVocab_spec {words : List (Nat × Word)} (well : LocalVocab.WellFormed minIndex vocab)
    (distinct : words.Pairwise (fun e1 e2 => e1.1 ≠ e2.1)) (fresh : ∀ entry ∈ words,mapping.lookup entry.1 = none) :
    LocalVocab.WellFormed minIndex (deserializeLocalVocab words vocab mapping).1 ∧
      (deserializeLocalVocab words vocab mapping).1.blocks = vocab.blocks ∧
      (∀ address,(mapping.lookup address).isSome → (deserializeLocalVocab words vocab mapping).2.lookup address = mapping.lookup address) ∧
      ∀ entry ∈ words,∃ address,(deserializeLocalVocab words vocab mapping).2.lookup entry.1 = some (.localVocabIndex address entry.2) := by
  induction words generalizing vocab mapping with
  | nil => exact ⟨well,rfl,fun _ _ => rfl,by simp⟩
  | cons entry words ih =>
    obtain ⟨address,word⟩ := entry
    obtain ⟨different,rest⟩ := List.pairwise_cons.mp distinct
    have new : mapping.lookup address = none := fresh (address,word) List.mem_cons_self
    have fresh' : ∀ entry ∈ words,
        List.lookup entry.1 ((address,ValueId.localVocabIndex (vocab.getIndexAndAddIfNotContained word).1 word)::mapping) = none := by
      intro entry member
      rw [List.lookup_cons,beq_false_of_ne (different entry member).symm]
      exact fresh entry (List.mem_cons_of_mem _ member)
    have step : deserializeLocalVocab ((address,word)::words) vocab mapping = deserializeLocalVocab words (vocab.getIndexAndAddIfNotContained word).2
        ((address,.localVocabIndex (vocab.getIndexAndAddIfNotContained word).1 word)::mapping) := by
      simp [deserializeLocalVocab,new]
    rw [step]
    obtain ⟨well',blocks,kept,found⟩ := ih (well.addWord word) rest fresh'
    refine ⟨well',blocks.trans (LocalVocab.getIndexAndAddIfNotContained_blocks vocab word),?_,?_⟩
    · intro other isSome
      have notNew : other ≠ address := by
        rintro rfl
        rw [new] at isSome
        cases isSome
      have same : List.lookup other ((address,ValueId.localVocabIndex (vocab.getIndexAndAddIfNotContained word).1 word)::mapping) = mapping.lookup other := by
        rw [List.lookup_cons,beq_false_of_ne notNew]
      rw [kept other (by rw [same]; exact isSome),same]
    · intro entry member
      rcases List.mem_cons.mp member with rfl | later
      · refine ⟨(vocab.getIndexAndAddIfNotContained word).1,?_⟩
        have first : List.lookup address ((address,ValueId.localVocabIndex (vocab.getIndexAndAddIfNotContained word).1 word)::mapping) =
            some (.localVocabIndex (vocab.getIndexAndAddIfNotContained word).1 word) := by simp
        rw [kept address (by rw [first]; rfl),first]
      · exact found entry later

omit [LinearOrder Word] in
def KnownWord (mapping : List (Nat × ValueId Word)) : ValueId Word → Prop
  | .localVocabIndex address word => ∃ address',mapping.lookup address = some (.localVocabIndex address' word)
  | _ => True

def ReadId (vocab0 : Vocabulary Word) (state : Conversion Word) : ValueId Word → ValueId Word → Prop :=
  Moved vocab0 (fun i j => (i,j) ∈ state.blankNodeMap)

theorem ReadId.extend {vocab0 : Vocabulary Word} {state state' : Conversion Word} (extension : state.Extends state') {id id' : ValueId Word}
    (read : ReadId vocab0 state id id') : ReadId vocab0 state' id id' := by
  cases id with
  | blankNodeIndex index =>
    obtain ⟨index',same,member⟩ := read
    exact ⟨index',same,extension.blankNodes member⟩
  | _ => exact read

theorem deserializeId_yields (vocab0 : Vocabulary Word) (vocab : LocalVocab Word) (id : ValueId Word) (state : Conversion Word) (known : KnownWord mapping id)
    (converting : Converting manager vocab state) :
    Yields .tooManyBlankNodeBlocks (deserializeId manager mapping id.serialize state) (fun id' next =>
      Converting manager vocab next ∧ state.Extends next ∧ ReadId vocab0 next id id') := by
  cases id with
  | encoded datatype data | vocabIndex index => exact Or.inr ⟨_,_,rfl,converting,Conversion.Extends.refl state,rfl⟩
  | localVocabIndex address word =>
    obtain ⟨address',found⟩ := known
    refine Or.inr ⟨.localVocabIndex address' word,state,?_,converting,Conversion.Extends.refl state,rfl⟩
    simp only [ValueId.serialize,deserializeId,found]
  | blankNodeIndex index =>
    apply (getLocalBlankNode_yields converting index).bind
    intro mapped next holds
    obtain ⟨converting',extension,member⟩ := holds
    exact Yields.pure ⟨converting',extension,mapped,rfl,member⟩

structure RangeRead (manager : BlankNodeManager minIndex) (vocab0 : Vocabulary Word) (vocab : LocalVocab Word) (ids ids' : List (ValueId Word))
    (state : Conversion Word) : Prop where
  converting : Converting manager vocab state
  moved : List.Forall₂ (ReadId vocab0 state) ids ids'

theorem mapState_map {α β γ ε σ : Type} (step : β → σ → Except ε (γ × σ)) (f : α → β) (xs : List α) (state : σ) :
    mapState step (xs.map f) state = mapState (fun x => step (f x)) xs state := by
  induction xs generalizing state with
  | nil => rfl
  | cons x xs ih => simp only [List.map_cons,mapState,ih]

theorem deserializeRange_yields (vocab0 : Vocabulary Word) {ids : List (ValueId Word)} (known : ∀ id ∈ ids,KnownWord mapping id)
    (well : LocalVocab.WellFormed minIndex vocab) (disjoint : Disjoint vocab.usedBlocks manager.othersBlocks) :
    Yields .tooManyBlankNodeBlocks (deserializeRange manager mapping (ids.map ValueId.serialize) vocab)
      (fun ids' vocab' => ∃ state,state.localVocab = vocab' ∧ RangeRead manager vocab0 vocab ids ids' state) := by
  have start : Converting manager vocab ⟨vocab,[]⟩ :=
    ⟨well,disjoint,fun _ contained => contained,by simp,by simp,List.nodup_nil,List.nodup_nil⟩
  have keeps : ∀ {s1 s2 : Conversion Word} {id id' : ValueId Word},s1.Extends s2 → ReadId vocab0 s1 id id' → ReadId vocab0 s2 id id' :=
    fun extension read => read.extend extension
  have all := mapState_yields Conversion.Extends.refl (fun first second => Conversion.Extends.trans first second) @keeps
    (fun id state isKnown converting => deserializeId_yields vocab0 vocab id state isKnown converting) ids ⟨vocab,[]⟩ known start
  rw [deserializeRange,mapState_map]
  rcases all with failed | ⟨ids',state,done,converting,_,moved⟩
  · exact Or.inl (by rw [failed]; rfl)
  · exact Or.inr ⟨ids',state.localVocab,by rw [done]; rfl,state,rfl,converting,moved⟩

end Deserialize
end Qlever
