import Qlever.DeltaTriplesRewrite
import Qlever.LocatedRows

/-! What one update does: the triples of the batch are erased from the inverse map and from all
permutations, and those that are not yet in the target map are added to it and to all permutations.
-/
namespace Qlever
open Library
open Function (update update_of_ne update_self)
open List (mem_map mem_cons_self map_append mem_append map_map)
variable {Word : Type} [LinearOrder Word]

namespace TriplesToHandlesMap
variable {vocab : Vocabulary Word} {map : TriplesToHandlesMap Word} {triple : Triple Word} {entry : Triple Word × LocatedTripleHandles}

def keys (vocab : Vocabulary Word) (map : TriplesToHandlesMap Word) : List (IdTriple (IdValue Word)) := map.map (fun entry => tripleValue vocab entry.1)

theorem find_eq_some (found : find vocab map triple = some entry) : entry ∈ map ∧ tripleValue vocab entry.1 = tripleValue vocab triple := by
  rw [find] at found
  have passes := List.find?_some found
  exact ⟨List.mem_of_find?_eq_some found,sameTriple_iff.mp passes⟩

theorem contains_iff : contains vocab map triple = true ↔ tripleValue vocab triple ∈ keys vocab map := by
  simp only [contains,find,List.find?_isSome,sameTriple_iff,keys,mem_map]

theorem find_eq_none (found : find vocab map triple = none) : tripleValue vocab triple ∉ keys vocab map := by
  rw [← contains_iff,contains,found]
  simp

theorem mem_erase : entry ∈ erase vocab map triple ↔ entry ∈ map ∧ tripleValue vocab entry.1 ≠ tripleValue vocab triple := by
  simp [erase,← Bool.not_eq_true,sameTriple_iff]

theorem erase_of_not_mem (absent : tripleValue vocab triple ∉ keys vocab map) : erase vocab map triple = map := by
  apply List.filter_eq_self.mpr
  intro entry member
  have different : ¬ sameTriple vocab entry.1 triple = true := by
    rw [sameTriple_iff]
    intro same
    exact absent (List.mem_map.mpr ⟨entry,member,same⟩)
  simp [different]

theorem perm_erase (distinct : (keys vocab map).Nodup) (found : find vocab map triple = some entry) :
    map.Perm (entry::erase vocab map triple) := by
  induction map with
  | nil => cases found
  | cons first map ih =>
    obtain ⟨absent,rest⟩ := List.nodup_cons.mp distinct
    cases same : sameTriple vocab first.1 triple with
    | true =>
      have equal := sameTriple_iff.mp same
      simp only [find,List.find?_cons,same,Option.some.injEq] at found
      subst found
      have others : erase vocab (first::map) triple = map := by
        rw [erase,List.filter_cons_of_neg (by simp [same])]
        exact erase_of_not_mem (equal ▸ absent)
      rw [others]
    | false =>
      simp only [find,List.find?_cons,same] at found
      have others : erase vocab (first::map) triple = first::erase vocab map triple := by
        rw [erase,List.filter_cons_of_pos (by simp [same])]
        rfl
      rw [others]
      exact ((ih rest found).cons first).trans (List.Perm.swap entry first _)

theorem foldl_insert {entries : TriplesToHandlesMap Word} (distinct : (keys vocab entries).Nodup)
    (fresh : ∀ entry ∈ entries,tripleValue vocab entry.1 ∉ keys vocab map) : entries.foldl (insert vocab) map = map ++ entries := by
  induction entries generalizing map with
  | nil => simp
  | cons entry entries ih =>
    obtain ⟨absent,rest⟩ := List.nodup_cons.mp distinct
    have notContained : ¬ contains vocab map entry.1 = true := by
      rw [contains_iff]
      exact fresh entry mem_cons_self
    have next : insert vocab map entry = map ++ [entry] := by rw [insert,if_neg notContained]
    rw [List.foldl_cons,next,ih rest,List.append_assoc,List.singleton_append]
    intro other member inside
    rw [keys,map_append,mem_append] at inside
    rcases inside with old | new
    · exact fresh other (List.mem_cons_of_mem entry member) old
    · rw [List.map_singleton,List.mem_singleton] at new
      exact absent (List.mem_map.mpr ⟨other,member,new⟩)

end TriplesToHandlesMap

namespace DeltaTriples
open LocatedTriplesPerBlock TriplesToHandlesMap
variable {index : Index Word}

def rowOf (index : Index Word) (permutation : Permutation) (insertOrDelete : Bool) (entry : Triple Word × LocatedTripleHandles) :
    LocatedRow (IdValue Word) :=
  ⟨tripleValue index.vocab entry.1,insertOrDelete,(entry.2 permutation).address⟩

def rowsOf (index : Index Word) (permutation : Permutation) (insertOrDelete : Bool) (map : TriplesToHandlesMap Word) :
    List (LocatedRow (IdValue Word)) :=
  map.map (rowOf index permutation insertOrDelete)

def handleOf (index : Index Word) (permutation : Permutation) (row : LocatedRow (IdValue Word)) : SetIterator :=
  row.handle (index.metaData permutation) permutation.toKeyOrder

def StoresIn (index : Index Word) (permutation : Permutation) (ltpb : LocatedTriplesPerBlock (IdValue Word))
    (rows : List (LocatedRow (IdValue Word))) : Prop :=
  Stores (index.metaData permutation) permutation.toKeyOrder ltpb rows

/-- The sets of all permutations contain the triples of the two maps, and the entries of the maps point to them. -/
structure InStep (index : Index Word) (insertOrDelete : Bool) (locatedTriples : LocatedTriplesPerBlockAllPermutations Word)
    (target inverse : TriplesToHandlesMap Word) : Prop where
  stores : ∀ permutation,StoresIn index permutation (locatedTriples permutation)
    (rowsOf index permutation insertOrDelete target ++ rowsOf index permutation (!insertOrDelete) inverse)
  targetHandles : ∀ entry ∈ target,∀ permutation,entry.2 permutation = handleOf index permutation (rowOf index permutation insertOrDelete entry)
  inverseHandles : ∀ entry ∈ inverse,∀ permutation,entry.2 permutation = handleOf index permutation (rowOf index permutation (!insertOrDelete) entry)

variable {insertOrDelete : Bool} {locatedTriples : LocatedTriplesPerBlockAllPermutations Word} {target inverse : TriplesToHandlesMap Word}

theorem map_triple_rowsOf (permutation : Permutation) (insertOrDelete : Bool) (map : TriplesToHandlesMap Word) :
    (rowsOf index permutation insertOrDelete map).map (·.triple) = keys index.vocab map := by
  rw [rowsOf,map_map]
  rfl

section
variable (inStep : InStep index insertOrDelete locatedTriples target inverse)
include inStep

theorem InStep.nodup :
    (keys index.vocab target ++ keys index.vocab inverse).Nodup := by
  have distinct := (inStep.stores .PSO).triples
  rwa [map_append,map_triple_rowsOf,map_triple_rowsOf] at distinct

theorem InStep.swap :
    InStep index (!insertOrDelete) locatedTriples inverse target where
  stores permutation := by
    rw [Bool.not_not]
    exact (inStep.stores permutation).perm List.perm_append_comm
  targetHandles := inStep.inverseHandles
  inverseHandles := by
    rw [Bool.not_not]
    exact inStep.targetHandles

end

section Erase

variable {handles : LocatedTripleHandles}

theorem eraseInPermutation_ok {permutation : Permutation} {row : LocatedRow (IdValue Word)} {rows : List (LocatedRow (IdValue Word))}
    (stores : StoresIn index permutation (locatedTriples permutation) (row::rows))
    (handle : handles permutation = handleOf index permutation row) :
    ∃ ltpb,eraseInPermutation handles locatedTriples permutation = .ok (update locatedTriples permutation ltpb) ∧
      StoresIn index permutation ltpb rows := by
  obtain ⟨ltpb,run,stores'⟩ := stores.erase
  refine ⟨ltpb,?_,stores'⟩
  rw [eraseInPermutation,handle,handleOf,stores.deref mem_cons_self]
  simp only [run]
  rfl

theorem foldlM_eraseInPermutation {permutations : List Permutation} (distinct : permutations.Nodup)
    {row : Permutation → LocatedRow (IdValue Word)} {rows : Permutation → List (LocatedRow (IdValue Word))}
    (stores : ∀ permutation ∈ permutations,StoresIn index permutation (locatedTriples permutation) (row permutation::rows permutation))
    (handle : ∀ permutation,handles permutation = handleOf index permutation (row permutation)) :
    ∃ locatedTriples',permutations.foldlM (eraseInPermutation handles) locatedTriples = .ok locatedTriples' ∧
      (∀ permutation ∈ permutations,StoresIn index permutation (locatedTriples' permutation) (rows permutation)) ∧
      ∀ permutation ∉ permutations,locatedTriples' permutation = locatedTriples permutation := by
  induction permutations generalizing locatedTriples with
  | nil => exact ⟨locatedTriples,rfl,by simp,fun _ _ => rfl⟩
  | cons permutation permutations ih =>
    obtain ⟨absent,rest⟩ := List.nodup_cons.mp distinct
    obtain ⟨ltpb,first,stored⟩ := eraseInPermutation_ok (stores permutation mem_cons_self) (handle permutation)
    have unchanged : ∀ other ∈ permutations,StoresIn index other (update locatedTriples permutation ltpb other) (row other::rows other) := by
      intro other member
      rw [update_of_ne (ne_of_mem_of_not_mem member absent)]
      exact stores other (List.mem_cons_of_mem permutation member)
    obtain ⟨last,run,done,others⟩ := ih rest unchanged
    refine ⟨last,?_,?_,?_⟩
    · rw [List.foldlM_cons,first]
      exact run
    · intro other member
      rcases List.mem_cons.mp member with rfl | later
      · rw [others other absent,update_self]
        exact stored
      · exact done other later
    · intro other outside
      obtain ⟨different,notLater⟩ := not_or.mp (mt List.mem_cons.mpr outside)
      rw [others other notLater,update_of_ne different]

theorem eraseFromInverse_ok (inStep : InStep index insertOrDelete locatedTriples target inverse) (triple : Triple Word) :
    ∃ locatedTriples',eraseFromInverse index (locatedTriples,inverse) triple = .ok (locatedTriples',erase index.vocab inverse triple) ∧
      InStep index insertOrDelete locatedTriples' target (erase index.vocab inverse triple) := by
  cases found : find index.vocab inverse triple with
  | none =>
    refine ⟨locatedTriples,?_,?_⟩
    · simp only [eraseFromInverse,found]
      rw [erase_of_not_mem (find_eq_none found)]
    · rw [erase_of_not_mem (find_eq_none found)]
      exact inStep
  | some entry =>
    have perm := perm_erase inStep.nodup.of_append_right found
    have stores : ∀ permutation ∈ Permutation.all,StoresIn index permutation (locatedTriples permutation)
        (rowOf index permutation (!insertOrDelete) entry::(rowsOf index permutation insertOrDelete target ++
          rowsOf index permutation (!insertOrDelete) (erase index.vocab inverse triple))) := by
      intro permutation _
      apply (inStep.stores permutation).perm
      exact ((perm.map _).append_left _).trans List.perm_middle
    obtain ⟨locatedTriples',run,stored,_⟩ := foldlM_eraseInPermutation Permutation.nodup_all stores
      (inStep.inverseHandles entry (find_eq_some found).1)
    refine ⟨locatedTriples',?_,fun permutation => stored permutation (Permutation.mem_all permutation),inStep.targetHandles,?_⟩
    · simp only [eraseFromInverse,found,eraseTripleInAllPermutations,run]
      rfl
    · intro other member
      exact inStep.inverseHandles other (mem_erase.mp member).1

theorem foldlM_eraseFromInverse (triples : List (Triple Word)) (inStep : InStep index insertOrDelete locatedTriples target inverse) :
    ∃ locatedTriples' inverse',triples.foldlM (eraseFromInverse index) (locatedTriples,inverse) = .ok (locatedTriples',inverse') ∧
      InStep index insertOrDelete locatedTriples' target inverse' ∧
      ∀ entry,entry ∈ inverse' ↔ entry ∈ inverse ∧ tripleValue index.vocab entry.1 ∉ triples.map (tripleValue index.vocab) := by
  induction triples generalizing locatedTriples inverse with
  | nil => exact ⟨locatedTriples,inverse,rfl,inStep,by simp⟩
  | cons triple triples ih =>
    obtain ⟨next,first,inStep'⟩ := eraseFromInverse_ok inStep triple
    obtain ⟨last,inverse',run,final,members⟩ := ih inStep'
    refine ⟨last,inverse',?_,final,?_⟩
    · rw [List.foldlM_cons,first]
      exact run
    · intro entry
      rw [members,mem_erase,List.map_cons,List.mem_cons,not_or,and_assoc]

theorem InStep.updateAugmentedMetadata (inStep : InStep index insertOrDelete locatedTriples target inverse) :
    InStep index insertOrDelete (fun permutation => (locatedTriples permutation).updateAugmentedMetadata) target inverse :=
  ⟨fun permutation => (inStep.stores permutation).updateAugmentedMetadata,inStep.targetHandles,inStep.inverseHandles⟩

end Erase

section Add

structure Extended (index : Index Word) (values : List (IdTriple (IdValue Word))) (insertOrDelete : Bool) (permutations : List Permutation)
    (rows : Permutation → List (LocatedRow (IdValue Word))) (locatedTriples locatedTriples' : LocatedTriplesPerBlockAllPermutations Word)
    (intermediateHandles intermediateHandles' : Permutation → List SetIterator) : Prop where
  stores : ∀ permutation ∈ permutations,StoresIn index permutation (locatedTriples' permutation)
    (newRows values insertOrDelete (locatedTriples permutation).nextNode ++ rows permutation)
  handles : ∀ permutation ∈ permutations,intermediateHandles' permutation =
    (newRows values insertOrDelete (locatedTriples permutation).nextNode).map (handleOf index permutation)
  others : ∀ permutation ∉ permutations,locatedTriples' permutation = locatedTriples permutation ∧
    intermediateHandles' permutation = intermediateHandles permutation

theorem locateAndAddTriples_cases (insertOrDelete : Bool) {values : List (IdTriple (IdValue Word))} (distinctValues : values.Nodup)
    {rows : Permutation → List (LocatedRow (IdValue Word))} {permutations : List Permutation} (distinct : permutations.Nodup)
    (stores : ∀ permutation ∈ permutations,StoresIn index permutation (locatedTriples permutation) (rows permutation))
    (fresh : ∀ permutation,∀ value ∈ values,value ∉ (rows permutation).map (·.triple))
    (intermediateHandles : Permutation → List SetIterator) (handle : CancellationHandle) :
    (∃ locatedTriples',locateAndAddTriples index values insertOrDelete permutations locatedTriples intermediateHandles handle =
      .ok (.cancelled locatedTriples')) ∨
    ∃ locatedTriples' intermediateHandles',
      locateAndAddTriples index values insertOrDelete permutations locatedTriples intermediateHandles handle =
        .ok (.finished locatedTriples' intermediateHandles') ∧
      Extended index values insertOrDelete permutations rows locatedTriples locatedTriples' intermediateHandles intermediateHandles' := by
  induction permutations generalizing locatedTriples intermediateHandles handle with
  | nil => exact Or.inr ⟨locatedTriples,intermediateHandles,rfl,by simp,by simp,fun _ _ => ⟨rfl,rfl⟩⟩
  | cons permutation permutations ih =>
    obtain ⟨absent,rest⟩ := List.nodup_cons.mp distinct
    rw [locateAndAddTriples]
    cases locating : locateTriplesInPermutation values (index.metaData permutation) permutation.toKeyOrder insertOrDelete handle with
    | none => exact Or.inl ⟨locatedTriples,rfl⟩
    | some result =>
      obtain ⟨located,handle1⟩ := result
      obtain rfl := locateTriplesInPermutation_eq locating
      simp only
      cases handle1.throwIfCancelled with
      | none => exact Or.inl ⟨locatedTriples,rfl⟩
      | some handle2 =>
        obtain ⟨ltpb,added,stored⟩ := (stores permutation mem_cons_self).add values insertOrDelete distinctValues (fresh permutation)
        simp only [added,bind,Except.bind]
        cases handle2.throwIfCancelled with
        | none => exact Or.inl ⟨_,rfl⟩
        | some handle3 =>
          have unchanged : ∀ other ∈ permutations,update locatedTriples permutation ltpb other = locatedTriples other := by
            intro other member
            exact update_of_ne (ne_of_mem_of_not_mem member absent) _ _
          have stores' : ∀ other ∈ permutations,StoresIn index other (update locatedTriples permutation ltpb other) (rows other) := by
            intro other member
            rw [unchanged other member]
            exact stores other (List.mem_cons_of_mem permutation member)
          rcases ih rest stores' (update intermediateHandles permutation _) handle3 with cancelled | ⟨last,handles,run,extended⟩
          · exact Or.inl cancelled
          · refine Or.inr ⟨last,handles,run,?_,?_,?_⟩
            · intro other member
              rcases List.mem_cons.mp member with rfl | later
              · rw [(extended.others other absent).1,update_self]
                exact stored
              · have stored' := extended.stores other later
                rwa [unchanged other later] at stored'
            · intro other member
              rcases List.mem_cons.mp member with rfl | later
              · rw [(extended.others other absent).2,update_self]
                rfl
              · have handles' := extended.handles other later
                rwa [unchanged other later] at handles'
            · intro other outside
              obtain ⟨different,notLater⟩ := not_or.mp (mt List.mem_cons.mpr outside)
              obtain ⟨same,sameHandles⟩ := extended.others other notLater
              rw [same,sameHandles,update_of_ne different,update_of_ne different]
              exact ⟨rfl,rfl⟩

theorem getElem_newRows {Id : Type} (triples : List (IdTriple Id)) (insertOrDelete : Bool) (nextNode i : Nat) (bound : i < triples.length) :
    (newRows triples insertOrDelete nextNode)[i]? = some ⟨triples[i],insertOrDelete,nextNode + i⟩ := by
  simp [newRows,bound]

variable {triples : List (Triple Word)} {next : Permutation → Nat} {intermediateHandles : Permutation → List SetIterator}

theorem new_entry (handles : ∀ permutation,intermediateHandles permutation =
      (newRows (triples.map (tripleValue index.vocab)) insertOrDelete (next permutation)).map (handleOf index permutation))
    {i : Nat} {entry : Triple Word × LocatedTripleHandles}
    (found : (triples.zip (transposeHandles triples.length intermediateHandles))[i]? = some entry) (permutation : Permutation) :
    (newRows (triples.map (tripleValue index.vocab)) insertOrDelete (next permutation))[i]? = some (rowOf index permutation insertOrDelete entry) ∧
      entry.2 permutation = handleOf index permutation (rowOf index permutation insertOrDelete entry) := by
  obtain ⟨first,second⟩ := List.getElem?_zip_eq_some.mp found
  obtain ⟨bound,isTriple⟩ := List.getElem?_eq_some_iff.mp first
  have isHandle : entry.2 permutation = handleOf index permutation ⟨tripleValue index.vocab entry.1,insertOrDelete,next permutation + i⟩ := by
    rw [transposeHandles,List.getElem?_map,List.getElem?_range bound] at second
    have handle : (intermediateHandles permutation).getD i ⟨0,0⟩ = entry.2 permutation := congrFun (Option.some.inj second) permutation
    rw [← handle,handles,List.getD_eq_getElem?_getD,List.getElem?_map,getElem_newRows _ _ _ _ (by simpa using bound)]
    simp [isTriple]
  have row : rowOf index permutation insertOrDelete entry = ⟨tripleValue index.vocab entry.1,insertOrDelete,next permutation + i⟩ := by
    rw [rowOf,isHandle]
    rfl
  rw [row]
  refine ⟨?_,isHandle⟩
  rw [getElem_newRows _ _ _ _ (by simpa using bound)]
  simp [isTriple]

theorem length_transposeHandles (size : Nat) (intermediateHandles : Permutation → List SetIterator) :
    (transposeHandles size intermediateHandles).length = size := by simp [transposeHandles]

theorem rowsOf_new_entries (handles : ∀ permutation,intermediateHandles permutation =
      (newRows (triples.map (tripleValue index.vocab)) insertOrDelete (next permutation)).map (handleOf index permutation))
    (permutation : Permutation) :
    rowsOf index permutation insertOrDelete (triples.zip (transposeHandles triples.length intermediateHandles)) =
      newRows (triples.map (tripleValue index.vocab)) insertOrDelete (next permutation) := by
  apply List.ext_getElem?
  intro i
  rw [rowsOf,List.getElem?_map]
  cases found : (triples.zip (transposeHandles triples.length intermediateHandles))[i]? with
  | some entry =>
    rw [(new_entry handles found permutation).1]
    rfl
  | none =>
    have behind := List.getElem?_eq_none_iff.mp found
    rw [List.length_zip,length_transposeHandles,Nat.min_self] at behind
    symm
    rw [Option.map_none,List.getElem?_eq_none_iff]
    simpa [newRows] using behind

end Add

section Maps
variable (d : DeltaTriples Word)

section
omit [LinearOrder Word]

@[simp] theorem targetMap_withMaps : (d.withMaps insertOrDelete target inverse).targetMap insertOrDelete = target := by
  cases insertOrDelete <;> rfl

@[simp] theorem inverseMap_withMaps : (d.withMaps insertOrDelete target inverse).inverseMap insertOrDelete = inverse := by
  cases insertOrDelete <;> rfl

@[simp] theorem locatedTriples_withMaps : (d.withMaps insertOrDelete target inverse).locatedTriples = d.locatedTriples := by
  cases insertOrDelete <;> rfl

@[simp] theorem localVocab_withMaps : (d.withMaps insertOrDelete target inverse).localVocab = d.localVocab := by
  cases insertOrDelete <;> rfl

end

end Maps

structure Updated (index : Index Word) (insertOrDelete : Bool) (rewritten : List (Triple Word)) (d d' : DeltaTriples Word) : Prop where
  inStep : InStep index insertOrDelete d'.locatedTriples (d'.targetMap insertOrDelete) (d'.inverseMap insertOrDelete)
  localVocab : d'.localVocab = d.localVocab
  target : ∀ value,value ∈ keys index.vocab (d'.targetMap insertOrDelete) ↔
    value ∈ keys index.vocab (d.targetMap insertOrDelete) ∨ value ∈ rewritten.map (tripleValue index.vocab)
  inverse : ∀ value,value ∈ keys index.vocab (d'.inverseMap insertOrDelete) ↔
    value ∈ keys index.vocab (d.inverseMap insertOrDelete) ∧ value ∉ rewritten.map (tripleValue index.vocab)
  targetEntries : ∀ entry ∈ d'.targetMap insertOrDelete,entry ∈ d.targetMap insertOrDelete ∨ entry.1 ∈ rewritten
  inverseEntries : d'.inverseMap insertOrDelete ⊆ d.inverseMap insertOrDelete

section
variable {rewritten : List (Triple Word)} {d : DeltaTriples Word}

theorem mem_newTriples {triple : Triple Word} :
    triple ∈ newTriples index rewritten insertOrDelete d ↔
      triple ∈ rewritten ∧ tripleValue index.vocab triple ∉ keys index.vocab (d.targetMap insertOrDelete) := by
  rw [newTriples,List.mem_filter,← contains_iff]
  simp

theorem mem_values_newTriples {value : IdTriple (IdValue Word)} :
    value ∈ (newTriples index rewritten insertOrDelete d).map (tripleValue index.vocab) ↔
      value ∈ rewritten.map (tripleValue index.vocab) ∧ value ∉ keys index.vocab (d.targetMap insertOrDelete) := by
  simp only [mem_map,mem_newTriples]
  constructor
  · rintro ⟨triple,⟨member,absent⟩,rfl⟩
    exact ⟨⟨triple,member,rfl⟩,absent⟩
  · rintro ⟨⟨triple,member,rfl⟩,absent⟩
    exact ⟨triple,⟨member,absent⟩,rfl⟩

end

variable {d : DeltaTriples Word} {rewritten : List (Triple Word)} {inverse' : TriplesToHandlesMap Word}

theorem newTriples_fresh (inverseKeys : ∀ value,value ∈ keys index.vocab inverse' ↔
      value ∈ keys index.vocab (d.inverseMap insertOrDelete) ∧ value ∉ rewritten.map (tripleValue index.vocab)) (permutation : Permutation) :
    ∀ value ∈ (newTriples index rewritten insertOrDelete d).map (tripleValue index.vocab),
      value ∉ (rowsOf index permutation insertOrDelete (d.targetMap insertOrDelete) ++ rowsOf index permutation (!insertOrDelete) inverse').map (·.triple) := by
  intro value isNew inside
  obtain ⟨inBatch,notTarget⟩ := mem_values_newTriples.mp isNew
  rw [map_append,map_triple_rowsOf,map_triple_rowsOf,mem_append] at inside
  rcases inside with inTarget | inInverse
  · exact notTarget inTarget
  · exact ((inverseKeys value).mp inInverse).2 inBatch

theorem nodup_newTriples
    (insertOrDelete : Bool) (d : DeltaTriples Word) (distinct : (rewritten.map (tripleValue index.vocab)).Nodup) :
    ((newTriples index rewritten insertOrDelete d).map (tripleValue index.vocab)).Nodup :=
  distinct.sublist (List.filter_sublist.map _)

variable {triples : List (Triple Word)}

theorem keys_zip {handles : List LocatedTripleHandles} (size : triples.length = handles.length) :
    keys index.vocab (triples.zip handles) = triples.map (tripleValue index.vocab) := by
  have both : keys index.vocab (triples.zip handles) = ((triples.zip handles).map Prod.fst).map (tripleValue index.vocab) := by
    rw [map_map]
    rfl
  rw [both,List.map_fst_zip size.le]

theorem keys_erased (apart : (keys index.vocab (d.targetMap insertOrDelete) ++ keys index.vocab (d.inverseMap insertOrDelete)).Nodup)
    (members : ∀ entry,entry ∈ inverse' ↔ entry ∈ d.inverseMap insertOrDelete ∧
      tripleValue index.vocab entry.1 ∉ (newTriples index rewritten insertOrDelete d).map (tripleValue index.vocab))
    (value : IdTriple (IdValue Word)) :
    value ∈ keys index.vocab inverse' ↔
      value ∈ keys index.vocab (d.inverseMap insertOrDelete) ∧ value ∉ rewritten.map (tripleValue index.vocab) := by
  rw [keys,mem_map]
  constructor
  · rintro ⟨entry,isEntry,rfl⟩
    obtain ⟨member,absent⟩ := (members entry).mp isEntry
    have inInverse : tripleValue index.vocab entry.1 ∈ keys index.vocab (d.inverseMap insertOrDelete) := List.mem_map.mpr ⟨entry,member,rfl⟩
    refine ⟨inInverse,?_⟩
    intro inBatch
    apply absent
    rw [mem_values_newTriples]
    refine ⟨inBatch,?_⟩
    intro inTarget
    exact (List.nodup_append.mp apart).2.2 _ inTarget _ inInverse rfl
  · rintro ⟨inInverse,absent⟩
    obtain ⟨entry,member,rfl⟩ := List.mem_map.mp inInverse
    refine ⟨entry,(members entry).mpr ⟨member,?_⟩,rfl⟩
    intro isNew
    exact absent (mem_values_newTriples.mp isNew).1

theorem InStep.extend {locatedTriples' : LocatedTriplesPerBlockAllPermutations Word}
    {intermediateHandles intermediateHandles' : Permutation → List SetIterator}
    (inStep : InStep index insertOrDelete locatedTriples target inverse)
    (extended : Extended index (triples.map (tripleValue index.vocab)) insertOrDelete Permutation.all
      (fun permutation => rowsOf index permutation insertOrDelete target ++ rowsOf index permutation (!insertOrDelete) inverse)
      locatedTriples locatedTriples' intermediateHandles intermediateHandles') :
    InStep index insertOrDelete locatedTriples' (target ++ triples.zip (transposeHandles triples.length intermediateHandles')) inverse where
  stores permutation := by
    have handles := fun permutation => extended.handles permutation (Permutation.mem_all permutation)
    have stored := extended.stores permutation (Permutation.mem_all permutation)
    rw [← rowsOf_new_entries handles permutation] at stored
    apply stored.perm
    simp only [rowsOf,map_append,← List.append_assoc]
    exact List.perm_append_comm.append_right _
  targetHandles entry member permutation := by
    have handles := fun permutation => extended.handles permutation (Permutation.mem_all permutation)
    rcases List.mem_append.mp member with old | new
    · exact inStep.targetHandles entry old permutation
    · obtain ⟨i,found⟩ := List.getElem?_of_mem new
      exact (new_entry handles found permutation).2
  inverseHandles := inStep.inverseHandles

theorem applyRewritten_cases (handle : CancellationHandle)
    (inStep : InStep index insertOrDelete d.locatedTriples (d.targetMap insertOrDelete) (d.inverseMap insertOrDelete))
    (distinct : (rewritten.map (tripleValue index.vocab)).Nodup) :
    (∃ d',applyRewritten index handle rewritten insertOrDelete d = .ok (.cancelled d')) ∨
    ∃ d',applyRewritten index handle rewritten insertOrDelete d = .ok (.finished d') ∧ Updated index insertOrDelete rewritten d d' := by
  obtain ⟨erased,inverse',erasing,inStep1,members⟩ := foldlM_eraseFromInverse (newTriples index rewritten insertOrDelete d) inStep
  have inverseKeys := keys_erased inStep.nodup members
  have distinctNew := nodup_newTriples insertOrDelete d distinct
  have fresh := newTriples_fresh inverseKeys
  have adding := locateAndAddTriples_cases insertOrDelete distinctNew Permutation.nodup_all
    (fun permutation _ => inStep1.updateAugmentedMetadata.stores permutation) fresh (fun _ => []) handle
  simp only [applyRewritten,erasing,bind,Except.bind]
  rcases adding with ⟨located,run⟩ | ⟨located,intermediate,run,extended⟩
  · exact Or.inl ⟨_,by rw [run]; rfl⟩
  · have size := (length_transposeHandles (newTriples index rewritten insertOrDelete d).length intermediate).symm
    have distinctEntries : (keys index.vocab ((newTriples index rewritten insertOrDelete d).zip
        (transposeHandles (newTriples index rewritten insertOrDelete d).length intermediate))).Nodup := by
      rw [keys_zip size]
      exact distinctNew
    have appended := foldl_insert distinctEntries (fun entry member => (mem_newTriples.mp (List.of_mem_zip member).1).2)
    rw [run]
    simp only [length_transposeHandles,if_true,appended]
    refine Or.inr ⟨_,rfl,?_,?_,?_,?_,?_,?_⟩
    · simpa using inStep1.updateAugmentedMetadata.extend extended
    · simp
    · intro value
      rw [targetMap_withMaps,keys,map_append,mem_append,← keys,← keys,keys_zip size,mem_values_newTriples]
      by_cases inTarget : value ∈ keys index.vocab (d.targetMap insertOrDelete) <;> simp [inTarget]
    · intro value
      rw [inverseMap_withMaps]
      exact inverseKeys value
    · intro entry member
      rw [targetMap_withMaps] at member
      rcases List.mem_append.mp member with old | new
      · exact Or.inl old
      · exact Or.inr (mem_newTriples.mp (List.of_mem_zip new).1).1
    · intro entry member
      rw [inverseMap_withMaps] at member
      exact ((members entry).mp member).1

section Uncancelled

theorem locateAndAddTriples_uncancelled {values : List (IdTriple (IdValue Word))} {permutations : List Permutation}
    {intermediateHandles : Permutation → List SetIterator} {locatedTriples' : LocatedTriplesPerBlockAllPermutations Word} :
    locateAndAddTriples index values insertOrDelete permutations locatedTriples intermediateHandles ⟨none⟩ ≠ .ok (.cancelled locatedTriples') := by
  induction permutations generalizing locatedTriples intermediateHandles with
  | nil => simp [locateAndAddTriples]
  | cons permutation permutations ih =>
    obtain ⟨located,run⟩ := chunkedForLoop_uncancelled (locateTriple (index.metaData permutation) permutation.toKeyOrder insertOrDelete)
      (numChunks values.length) values []
    rw [locateAndAddTriples,locateTriplesInPermutation,run]
    simp only [CancellationHandle.throwIfCancelled]
    cases (locatedTriples permutation).add located with
    | error failure => simp [bind,Except.bind]
    | ok result => exact ih

theorem applyRewritten_uncancelled {d d' : DeltaTriples Word} {rewritten : List (Triple Word)} :
    applyRewritten index ⟨none⟩ rewritten insertOrDelete d ≠ .ok (.cancelled d') := by
  intro run
  rw [applyRewritten,bind_eq_ok] at run
  obtain ⟨⟨erased,inverse'⟩,_,run⟩ := run
  rw [bind_eq_ok] at run
  obtain ⟨result,adding,run⟩ := run
  cases result with
  | cancelled located => exact locateAndAddTriples_uncancelled adding
  | finished located intermediate =>
    simp only [length_transposeHandles,if_true,pure_eq_ok] at run
    cases run

end Uncancelled
end DeltaTriples
end Qlever
