import Qlever.LocatedTriples

/-! What `add` and `erase` do with the sets of located triples. -/
namespace Qlever
open Library
variable {Id : Type}

section Locate

theorem chunkedForLoop_eq {α β : Type} {action : α → β} {chunks : Nat} {xs : List α} {out : List β} {handle : CancellationHandle}
    {result : List β × CancellationHandle} (enough : xs.length ≤ chunks * chunkSize)
    (run : chunkedForLoop action chunks xs out handle = some result) : result.1 = out ++ xs.map action := by
  induction chunks generalizing xs out handle with
  | zero =>
    have empty : xs = [] := List.eq_nil_of_length_eq_zero (by omega)
    cases run
    simp [empty]
  | succ chunks ih =>
    rw [chunkedForLoop,Option.bind_eq_bind,Option.bind_eq_some_iff] at run
    obtain ⟨next,_,rest⟩ := run
    have shorter : (xs.drop chunkSize).length ≤ chunks * chunkSize := by
      rw [List.length_drop]
      rw [Nat.add_mul] at enough
      omega
    rw [ih shorter rest,List.append_assoc,← List.map_append,List.take_append_drop]

theorem chunkedForLoop_uncancelled {α β : Type} (action : α → β) (chunks : Nat) (xs : List α) (out : List β) :
    ∃ result,chunkedForLoop action chunks xs out ⟨none⟩ = some (result,⟨none⟩) := by
  induction chunks generalizing xs out with
  | zero => exact ⟨out,rfl⟩
  | succ chunks ih => exact ih (xs.drop chunkSize) (out ++ (xs.take chunkSize).map action)

theorem le_numChunks (size : Nat) : size ≤ numChunks size * chunkSize := by
  unfold numChunks chunkSize
  omega

theorem locateTriplesInPermutation_eq [LinearOrder Id] {triples : List (IdTriple Id)} {blockMetadata : List (CompressedBlockMetadata Id)}
    {keyOrder : KeyOrder} {insertOrDelete : Bool} {handle handle' : CancellationHandle} {located : List (LocatedTriple Id)}
    (run : locateTriplesInPermutation triples blockMetadata keyOrder insertOrDelete handle = some (located,handle')) :
    located = triples.map (locateTriple blockMetadata keyOrder insertOrDelete) :=
  chunkedForLoop_eq (le_numChunks triples.length) run

end Locate

namespace LocatedTriplesPerBlock

structure Added (ltpb : LocatedTriplesPerBlock Id) (located : LocatedTriple Id) (ltpb' : LocatedTriplesPerBlock Id) : Prop where
  mem : ∀ b node,node ∈ ltpb'.map b ↔ node ∈ ltpb.map b ∨ (b = located.blockIndex ∧ node = ⟨ltpb.nextNode,located⟩)
  numTriples : ltpb'.numTriples = ltpb.numTriples + 1
  nextNode : ltpb'.nextNode = ltpb.nextNode + 1
  originalMetadata : ltpb'.originalMetadata = ltpb.originalMetadata

structure Erased (ltpb : LocatedTriplesPerBlock Id) (iter : SetIterator) (ltpb' : LocatedTriplesPerBlock Id) : Prop where
  mem : ∀ b node,node ∈ ltpb'.map b ↔ node ∈ ltpb.map b ∧ ¬ (b = iter.set ∧ node.address = iter.address)
  numTriples : ltpb'.numTriples = ltpb.numTriples - 1
  nextNode : ltpb'.nextNode = ltpb.nextNode
  originalMetadata : ltpb'.originalMetadata = ltpb.originalMetadata

section Erase

section
variable {ltpb : LocatedTriplesPerBlock Id}

theorem deref_isSome {b : Nat} {node : Node Id} (member : node ∈ ltpb.map b) :
    (deref ltpb ⟨b,node.address⟩).isSome := by
  rw [deref,Option.isSome_map,List.find?_isSome]
  exact ⟨node,member,by simp⟩

section
variable {ltpb' : LocatedTriplesPerBlock Id} {blockIndex : Nat} {iter : SetIterator} (run : ltpb.erase blockIndex iter = .ok ltpb')
include run

theorem erase_eq :
    ltpb' = {ltpb with
      map := Function.update ltpb.map iter.set ((ltpb.map iter.set).filter (fun node => node.address ≠ iter.address))
      numTriples := ltpb.numTriples - 1} := by
  rw [erase] at run
  split at run
  next => cases run
  next =>
    split at run
    next => cases run
    next valid =>
      simp only [ne_eq,decide_not,Bool.or_eq_true,Bool.not_eq_true',decide_eq_false_iff_not,not_or,not_not] at valid
      obtain ⟨rfl,_⟩ := valid
      cases run
      rfl

theorem erase_erased :
    Erased ltpb iter ltpb' ∧ ∀ b,(ltpb'.map b).Sublist (ltpb.map b) := by
  obtain rfl := erase_eq run
  refine ⟨⟨?_,rfl,rfl,rfl⟩,?_⟩
  · intro b node
    by_cases same : b = iter.set
    · subst same
      simp
    · simp [same]
  · intro b
    by_cases same : b = iter.set
    · subst same
      simp
    · simp [Function.update_of_ne same]

end

theorem erase_ok {b : Nat} {node : Node Id} (member : node ∈ ltpb.map b) :
    ∃ ltpb',ltpb.erase b ⟨b,node.address⟩ = .ok ltpb' := by
  have some := deref_isSome member
  have contained : (ltpb.map b).isEmpty = false := List.isEmpty_eq_false_iff_exists_mem.mpr ⟨node,member⟩
  have valid : (deref ltpb ⟨b,node.address⟩).isNone = false := by
    rw [← Option.not_isSome,some]
    rfl
  simp [erase,contained,valid]

end

end Erase

variable [LinearOrder Id]

def Sorted (ltpb : LocatedTriplesPerBlock Id) : Prop := ∀ b,KeyedSet.Sorted Node.triple (ltpb.map b)

theorem Sorted.erase {ltpb ltpb' : LocatedTriplesPerBlock Id} (sorted : Sorted ltpb)
    (sub : ∀ b,(ltpb'.map b).Sublist (ltpb.map b)) : Sorted ltpb' := fun b => (sorted b).sublist (sub b)

section Add
variable {ltpb ltpb' : LocatedTriplesPerBlock Id} {located : LocatedTriple Id}

theorem added_of_emplace (sorted : Sorted ltpb) {set : List (Node Id)}
    (run : KeyedSet.emplace Node.triple ⟨ltpb.nextNode,located⟩ (ltpb.map located.blockIndex) = some set) :
    Added ltpb located {ltpb with
      map := Function.update ltpb.map located.blockIndex set
      numTriples := ltpb.numTriples + 1
      nextNode := ltpb.nextNode + 1} ∧
    Sorted {ltpb with
      map := Function.update ltpb.map located.blockIndex set
      numTriples := ltpb.numTriples + 1
      nextNode := ltpb.nextNode + 1} := by
  obtain ⟨sortedSet,perm,_⟩ := KeyedSet.emplace_eq_some (sorted located.blockIndex) run
  refine ⟨⟨?_,rfl,rfl,rfl⟩,?_⟩
  · intro b node
    by_cases same : b = located.blockIndex
    · subst same
      simp [perm.mem_iff,or_comm]
    · simp [same]
  · intro b
    by_cases same : b = located.blockIndex
    · subst same
      simpa using sortedSet
    · simpa [Function.update_of_ne same] using sorted b

theorem addOne_ok (sorted : Sorted ltpb) (fresh : ∀ node ∈ ltpb.map located.blockIndex,node.triple ≠ located.triple) :
    ∃ ltpb',addOne located ltpb = .ok (⟨located.blockIndex,ltpb.nextNode⟩,ltpb') ∧ Added ltpb located ltpb' ∧ Sorted ltpb' := by
  have fresh' : ∀ node ∈ ltpb.map located.blockIndex,node.triple ≠ (⟨ltpb.nextNode,located⟩ : Node Id).triple := fresh
  obtain ⟨set,run,_⟩ := KeyedSet.emplace_of_fresh (sorted located.blockIndex) fresh'
  obtain ⟨added,sorted'⟩ := added_of_emplace sorted run
  exact ⟨_,by simp only [addOne,run],added,sorted'⟩

theorem addOne_added (sorted : Sorted ltpb) {handle : SetIterator} (run : addOne located ltpb = .ok (handle,ltpb')) :
    handle = ⟨located.blockIndex,ltpb.nextNode⟩ ∧ Added ltpb located ltpb' ∧ Sorted ltpb' := by
  rw [addOne] at run
  split at run
  next => cases run
  next set emplaced =>
    cases run
    exact ⟨rfl,added_of_emplace sorted emplaced⟩

end Add
end LocatedTriplesPerBlock
end Qlever
