import Qlever.PersistedUpdates

/-! Writing the updates to disk and reading them back. All blank nodes get new names, those of the index included, and the inserted and the deleted
triples get different ones.
-/
namespace Qlever
open Library
variable {Word : Type} [LinearOrder Word]

section Moved
variable {vocab : Vocabulary Word} {related related' : Nat → Nat → Prop}

theorem Moved.trans {id1 id2 id3 : ValueId Word} (first : Moved vocab related id1 id2) (second : Moved vocab related' id2 id3) :
    Moved vocab (Relation.Comp related related') id1 id3 := by
  cases blank : id1.isBlankNode with
  | true =>
    cases id1 with
    | blankNodeIndex i1 =>
      obtain ⟨i2,rfl,related1⟩ := first
      obtain ⟨i3,rfl,related2⟩ := second
      exact ⟨i3,rfl,i2,related1,related2⟩
    | _ => cases blank
  | false =>
    apply Moved.of_value blank
    rw [second.value_eq (first.isBlankNode.trans blank),first.value_eq blank]

theorem forall₂_trans {triples1 triples2 triples3 : List (Triple Word)} (first : List.Forall₂ (MovedTriple vocab related) triples1 triples2)
    (second : List.Forall₂ (MovedTriple vocab related') triples2 triples3) :
    List.Forall₂ (MovedTriple vocab (Relation.Comp related related')) triples1 triples3 := by
  induction first generalizing triples3 with
  | nil =>
    cases second
    exact List.Forall₂.nil
  | cons single rest ih =>
    cases second with
    | cons single' rest' => exact List.Forall₂.cons (fun i => (single i).trans (single' i)) (ih rest')

theorem leftUnique_comp (first : Relator.LeftUnique related) (second : Relator.LeftUnique related') :
    Relator.LeftUnique (Relation.Comp related related') := by
  rintro a b c ⟨x,ax,xb⟩ ⟨y,cy,yb⟩
  obtain rfl := second xb yb
  exact first ax cy

theorem rightUnique_comp (first : Relator.RightUnique related) (second : Relator.RightUnique related') :
    Relator.RightUnique (Relation.Comp related related') := by
  rintro a b c ⟨x,ax,xb⟩ ⟨y,ay,yc⟩
  obtain rfl := first ax ay
  exact second xb yc

theorem MovedTriple.value_eq_of_apart (apart : ∀ i i' j,related i j → related' i' j → False) {s t s' t' : Triple Word}
    (first : MovedTriple vocab related s s') (second : MovedTriple vocab related' t t') (same : tripleValue vocab s' = tripleValue vocab t') :
    tripleValue vocab s = tripleValue vocab t := by
  apply IdTriple.ids_injective
  funext i
  have column := congrArg (fun triple => triple.ids i) same
  simp only [tripleValue,IdTriple.ids_map] at column ⊢
  have moved1 := first i
  have moved2 := second i
  cases blank : (s.ids i).isBlankNode with
  | true =>
    exfalso
    have equal := ValueId.isBlankNode_of_value column.symm (moved1.isBlankNode.trans blank)
    rw [equal] at moved2
    have blank2 := moved2.isBlankNode.symm.trans (moved1.isBlankNode.trans blank)
    generalize s.ids i = id1 at *
    generalize t.ids i = id2 at *
    cases id1 with
    | blankNodeIndex i1 =>
      cases id2 with
      | blankNodeIndex i2 =>
        obtain ⟨j,isImage,related1⟩ := moved1
        obtain ⟨j',isImage',related2⟩ := moved2
        rw [isImage] at isImage'
        cases isImage'
        exact apart i1 i2 j related1 related2
      | _ => cases blank2
    | _ => cases blank
  | false =>
    have blank2 : (t.ids i).isBlankNode = false := by
      by_contra isBlank
      have equal := ValueId.isBlankNode_of_value column (moved2.isBlankNode.trans (Bool.not_eq_false _ ▸ isBlank))
      rw [← moved2.isBlankNode,← equal,moved1.isBlankNode,blank] at isBlank
      exact isBlank rfl
    rw [← moved1.value_eq blank,← moved2.value_eq blank2]
    exact column

end Moved

namespace DeltaTriples
open LocatedTriplesPerBlock TriplesToHandlesMap
variable {index : Index Word} {d d' : DeltaTriples Word}

section
omit [LinearOrder Word]

def Occurs (map : TriplesToHandlesMap Word) (blankNode : Nat) : Prop := ∃ entry ∈ map,∃ i,entry.1.ids i = .blankNodeIndex blankNode

def renameBlankNodes (rename : Nat → Nat) : ValueId Word → ValueId Word
  | .blankNodeIndex blankNode => .blankNodeIndex (rename blankNode)
  | id => id

end

structure RoundTrip (index : Index Word) (d d' : DeltaTriples Word) (rename : Nat → Nat) : Prop where
  indexBlankNodes : ∀ blankNode < index.minIndex,rename blankNode = blankNode
  localBlankNodes : ∀ blankNode,index.minIndex ≤ blankNode → index.minIndex ≤ rename blankNode
  injective : Set.InjOn rename {blankNode | Occurs d.triplesInserted blankNode ∨ Occurs d.triplesDeleted blankNode}
  inserted : ∀ value,value ∈ keys index.vocab d'.triplesInserted ↔
    value ∈ d.triplesInserted.map (fun entry => tripleValue index.vocab (entry.1.map (renameBlankNodes rename)))
  deleted : ∀ value,value ∈ keys index.vocab d'.triplesDeleted ↔
    value ∈ d.triplesDeleted.map (fun entry => tripleValue index.vocab (entry.1.map (renameBlankNodes rename)))

omit [LinearOrder Word] in
/-- No blank node of the index is contained, and no blank node is in inserted and in deleted triples. -/
structure Restorable (minIndex : Nat) (d : DeltaTriples Word) : Prop where
  noIndexBlankNodes : ∀ flag blankNode,Occurs (d.targetMap flag) blankNode → minIndex ≤ blankNode
  apart : ∀ blankNode,Occurs d.triplesInserted blankNode → Occurs d.triplesDeleted blankNode → False

/-- What is read: the blank nodes of each of the two sets are renamed injectively to local ones, and the two renamings have no image in common. -/
structure Restored (index : Index Word) (d d' : DeltaTriples Word) (related : Bool → Nat → Nat → Prop) : Prop where
  moved : ∀ flag,∃ triples,List.Forall₂ (MovedTriple index.vocab (related flag)) ((d.targetMap flag).map Prod.fst) triples ∧
    ∀ value,value ∈ keys index.vocab (d'.targetMap flag) ↔ value ∈ triples.map (tripleValue index.vocab)
  leftUnique : ∀ flag,Relator.LeftUnique (related flag)
  rightUnique : ∀ flag,Relator.RightUnique (related flag)
  isLocal : ∀ flag i j,related flag i j → index.minIndex ≤ j
  apart : ∀ i i' j,related true i j → related false i' j → False

section Abstract
variable {related : Bool → Nat → Nat → Prop}

section
variable (restored : Restored index d d' related) {flag : Bool}
include restored

theorem Restored.exists_triple {entry : Triple Word × LocatedTripleHandles}
    (member : entry ∈ d.targetMap flag) : ∃ triple,MovedTriple index.vocab (related flag) entry.1 triple ∧
      tripleValue index.vocab triple ∈ keys index.vocab (d'.targetMap flag) := by
  obtain ⟨triples,moved,values⟩ := restored.moved flag
  obtain ⟨triple,isTriple,single⟩ := exists_left moved.flip (List.mem_map.mpr ⟨entry,member,rfl⟩)
  exact ⟨triple,single,(values _).mpr (List.mem_map.mpr ⟨triple,isTriple,rfl⟩)⟩

variable {value : IdTriple (IdValue Word)}

theorem Restored.exists_entry
    (member : value ∈ keys index.vocab (d'.targetMap flag)) : ∃ entry ∈ d.targetMap flag,∃ triple,
      MovedTriple index.vocab (related flag) entry.1 triple ∧ tripleValue index.vocab triple = value := by
  obtain ⟨triples,moved,values⟩ := restored.moved flag
  obtain ⟨triple,isTriple,rfl⟩ := List.mem_map.mp ((values value).mp member)
  obtain ⟨original,isOriginal,single⟩ := exists_left moved isTriple
  obtain ⟨entry,isEntry,rfl⟩ := List.mem_map.mp isOriginal
  exact ⟨entry,isEntry,triple,single,rfl⟩

theorem Restored.exists_related {blankNode : Nat} (occurs : Occurs (d.targetMap flag) blankNode) :
    ∃ j,related flag blankNode j := by
  obtain ⟨entry,member,i,isBlank⟩ := occurs
  obtain ⟨triple,moved,_⟩ := restored.exists_triple member
  have column := moved i
  rw [isBlank] at column
  obtain ⟨j,_,holds⟩ := column
  exact ⟨j,holds⟩

theorem Restored.of_column
    (member : value ∈ keys index.vocab (d'.targetMap flag)) {i : Fin 4} {j : Nat}
    (isBlank : value.ids i = (ValueId.blankNodeIndex j : ValueId Word).value index.vocab) : ∃ blankNode,related flag blankNode j := by
  obtain ⟨entry,_,triple,moved,rfl⟩ := restored.exists_entry member
  rw [tripleValue,IdTriple.ids_map] at isBlank
  have image := ValueId.value_blankNode isBlank
  have column := moved i
  have blank := column.isBlankNode
  rw [image] at column blank
  generalize entry.1.ids i = id at *
  cases id with
  | blankNodeIndex blankNode =>
    obtain ⟨j',same,holds⟩ := column
    cases same
    exact ⟨blankNode,holds⟩
  | _ => cases blank

end

variable {rename : Nat → Nat} {entry : Triple Word × LocatedTripleHandles}

theorem keys_renamed (roundTrip : RoundTrip index d d' rename) {flag : Bool}
    (member : entry ∈ d.targetMap flag) : tripleValue index.vocab (entry.1.map (renameBlankNodes rename)) ∈ keys index.vocab (d'.targetMap flag) := by
  cases flag with
  | true => exact (roundTrip.inserted _).mpr (List.mem_map.mpr ⟨entry,member,rfl⟩)
  | false => exact (roundTrip.deleted _).mpr (List.mem_map.mpr ⟨entry,member,rfl⟩)

section
variable (restored : Restored index d d' related) {rename : Nat → Nat} (roundTrip : RoundTrip index d d' rename)
include restored roundTrip

theorem Restored.renamed_related {flag : Bool}
    {blankNode : Nat} (occurs : Occurs (d.targetMap flag) blankNode) : ∃ original,related flag original (rename blankNode) := by
  obtain ⟨entry,member,i,isBlank⟩ := occurs
  apply restored.of_column (keys_renamed roundTrip member) (i := i)
  rw [tripleValue,IdTriple.ids_map,IdTriple.ids_map,isBlank]
  rfl

theorem Restored.restorable :
    Restorable index.minIndex d where
  noIndexBlankNodes flag blankNode occurs := by
    by_contra isIndex
    obtain ⟨original,holds⟩ := restored.renamed_related roundTrip occurs
    rw [roundTrip.indexBlankNodes blankNode (not_le.mp isIndex)] at holds
    exact isIndex (restored.isLocal flag original blankNode holds)
  apart blankNode inInserted inDeleted := by
    have occurs1 : Occurs (d.targetMap true) blankNode := inInserted
    have occurs2 : Occurs (d.targetMap false) blankNode := inDeleted
    obtain ⟨i,first⟩ := restored.renamed_related roundTrip occurs1
    obtain ⟨i',second⟩ := restored.renamed_related roundTrip occurs2
    exact restored.apart i i' _ first second

end

theorem renamed_value {flag : Bool} (unique : Relator.RightUnique (related flag))     (member : entry ∈ d.targetMap flag) (renames : ∀ blankNode,Occurs (d.targetMap flag) blankNode → related flag blankNode (rename blankNode))
    {triple : Triple Word} (moved : MovedTriple index.vocab (related flag) entry.1 triple) :
    tripleValue index.vocab triple = tripleValue index.vocab (entry.1.map (renameBlankNodes rename)) := by
  apply IdTriple.ids_injective
  funext i
  simp only [tripleValue,IdTriple.ids_map]
  have column := moved i
  have occurs : ∀ blankNode,entry.1.ids i = .blankNodeIndex blankNode → related flag blankNode (rename blankNode) :=
    fun blankNode isBlank => renames blankNode ⟨entry,member,i,isBlank⟩
  generalize entry.1.ids i = id at *
  cases id with
  | blankNodeIndex blankNode =>
    obtain ⟨j,image,holds⟩ := column
    rw [image,renameBlankNodes,unique holds (occurs blankNode rfl)]
  | _ => exact column

open Classical in
section
variable (restored : Restored index d d' related) (restorable : Restorable index.minIndex d)
include restored restorable

theorem Restored.exists_rename :
    ∃ rename : Nat → Nat,(∀ flag blankNode,Occurs (d.targetMap flag) blankNode → related flag blankNode (rename blankNode)) ∧
      ∀ blankNode,¬ Occurs d.triplesInserted blankNode → ¬ Occurs d.triplesDeleted blankNode → rename blankNode = blankNode := by
  have inserted : ∀ blankNode,Occurs d.triplesInserted blankNode → ∃ j,related true blankNode j := by
    intro blankNode occurs
    have occurs' : Occurs (d.targetMap true) blankNode := occurs
    exact restored.exists_related occurs'
  have deleted : ∀ blankNode,Occurs d.triplesDeleted blankNode → ∃ j,related false blankNode j := by
    intro blankNode occurs
    have occurs' : Occurs (d.targetMap false) blankNode := occurs
    exact restored.exists_related occurs'
  refine ⟨fun blankNode => if occurs : Occurs d.triplesInserted blankNode then (inserted blankNode occurs).choose
    else if occurs' : Occurs d.triplesDeleted blankNode then (deleted blankNode occurs').choose else blankNode,?_,?_⟩
  · intro flag blankNode occurs
    cases flag with
    | true =>
      have here : Occurs d.triplesInserted blankNode := occurs
      simp only [dif_pos here]
      exact (inserted blankNode here).choose_spec
    | false =>
      have here : Occurs d.triplesDeleted blankNode := occurs
      have notThere : ¬ Occurs d.triplesInserted blankNode := fun there => restorable.apart blankNode there here
      simp only [dif_neg notThere,dif_pos here]
      exact (deleted blankNode here).choose_spec
  · intro blankNode notInserted notDeleted
    simp only [dif_neg notInserted,dif_neg notDeleted]

theorem Restored.roundTrip :
    ∃ rename,RoundTrip index d d' rename := by
  obtain ⟨rename,renames,others⟩ := restored.exists_rename restorable
  have occurs_cases : ∀ blankNode,Occurs d.triplesInserted blankNode ∨ Occurs d.triplesDeleted blankNode →
      ∃ flag,Occurs (d.targetMap flag) blankNode := by
    intro blankNode occurs
    rcases occurs with inInserted | inDeleted
    · exact ⟨true,inInserted⟩
    · exact ⟨false,inDeleted⟩
  have values : ∀ flag value,value ∈ keys index.vocab (d'.targetMap flag) ↔
      value ∈ (d.targetMap flag).map (fun entry => tripleValue index.vocab (entry.1.map (renameBlankNodes rename))) := by
    intro flag value
    constructor
    · intro member
      obtain ⟨entry,isEntry,triple,moved,rfl⟩ := restored.exists_entry member
      rw [renamed_value (restored.rightUnique flag) isEntry (renames flag) moved]
      exact List.mem_map.mpr ⟨entry,isEntry,rfl⟩
    · intro member
      obtain ⟨entry,isEntry,rfl⟩ := List.mem_map.mp member
      obtain ⟨triple,moved,isKey⟩ := restored.exists_triple isEntry
      rw [← renamed_value (restored.rightUnique flag) isEntry (renames flag) moved]
      exact isKey
  refine ⟨rename,?_,?_,?_,values true,values false⟩
  · intro blankNode isIndex
    apply others
    · exact fun occurs => absurd (restorable.noIndexBlankNodes true blankNode occurs) (not_le.mpr isIndex)
    · exact fun occurs => absurd (restorable.noIndexBlankNodes false blankNode occurs) (not_le.mpr isIndex)
  · intro blankNode isLocal
    by_cases occurs : Occurs d.triplesInserted blankNode ∨ Occurs d.triplesDeleted blankNode
    · obtain ⟨flag,here⟩ := occurs_cases blankNode occurs
      exact restored.isLocal flag blankNode _ (renames flag blankNode here)
    · obtain ⟨notInserted,notDeleted⟩ := not_or.mp occurs
      rw [others blankNode notInserted notDeleted]
      exact isLocal
  · intro b1 occurs1 b2 occurs2 same
    obtain ⟨flag1,here1⟩ := occurs_cases b1 occurs1
    obtain ⟨flag2,here2⟩ := occurs_cases b2 occurs2
    have related1 := renames flag1 b1 here1
    have related2 := renames flag2 b2 here2
    rw [← same] at related2
    cases flag1 <;> cases flag2
    · exact restored.leftUnique false related1 related2
    · exact (restored.apart _ _ _ related2 related1).elim
    · exact (restored.apart _ _ _ related1 related2).elim
    · exact restored.leftUnique true related1 related2

end

end Abstract

section Read
variable {vocab : Vocabulary Word} {related : Nat → Nat → Prop} {minIndex : Nat} {manager : BlankNodeManager minIndex}

theorem toTriples_read {map : TriplesToHandlesMap Word} {ids : List (ValueId Word)} (moved : List.Forall₂ (Moved vocab related) (toRange map) ids) :
    ∃ triples,toTriples ids = .ok triples ∧ List.Forall₂ (MovedTriple vocab related) (map.map Prod.fst) triples := by
  induction map generalizing ids with
  | nil =>
    cases moved
    exact ⟨[],rfl,List.Forall₂.nil⟩
  | cons entry map ih =>
    rw [toRange,List.flatMap_cons,← toRange] at moved
    obtain _ | @⟨_,col0Id,_,_,moved0,moved⟩ := moved
    obtain _ | @⟨_,col1Id,_,_,moved1,moved⟩ := moved
    obtain _ | @⟨_,col2Id,_,_,moved2,moved⟩ := moved
    obtain _ | @⟨_,graphId,_,_,moved3,moved⟩ := moved
    obtain ⟨triples,read,rest⟩ := ih moved
    refine ⟨⟨col0Id,col1Id,col2Id,graphId⟩::triples,by rw [toTriples,read]; rfl,List.Forall₂.cons ?_ rest⟩
    intro i
    fin_cases i
    · exact moved0
    · exact moved1
    · exact moved2
    · exact moved3

section
omit [LinearOrder Word]

variable {state : Conversion Word}

theorem blankNodeMap_leftUnique {localVocab : LocalVocab Word} (converting : Converting manager localVocab state) :
    Relator.LeftUnique (fun i j => (i,j) ∈ state.blankNodeMap) := by
  intro i j i' first second
  exact congrArg Prod.fst (List.inj_on_of_nodup_map converting.values first second rfl)

section
variable {localVocab : LocalVocab Word} {state : Conversion Word} (converting : Converting manager localVocab state)
include converting

theorem blankNodeMap_rightUnique :
    Relator.RightUnique (fun i j => (i,j) ∈ state.blankNodeMap) := by
  intro i j j' first second
  exact congrArg Prod.snd (List.inj_on_of_nodup_map converting.keys first second rfl)

theorem convertedBlankNode_rightUnique :
    Relator.RightUnique (ConvertedBlankNode minIndex localVocab state) := by
  have apart : ∀ {i : Nat},minIndex ≤ i → localVocab.isBlankNodeIndexContained i = false →
      ¬ (i < minIndex ∨ localVocab.isBlankNodeIndexContained i = true) := by
    intro i isLocal foreign known
    rcases known with isIndex | contained
    · omega
    · rw [foreign] at contained
      cases contained
  intro i j j' first second
  cases first with
  | kept _ known =>
    cases second with
    | kept _ _ => rfl
    | mapped _ _ isLocal foreign _ => exact absurd known (apart isLocal foreign)
  | mapped _ _ isLocal foreign member =>
    cases second with
    | kept _ known => exact absurd known (apart isLocal foreign)
    | mapped _ _ _ _ member' => exact blankNodeMap_rightUnique converting member member'

theorem convertedBlankNode_new {j k : Nat}
    (isLocal : minIndex ≤ j) (foreign : LocalVocab.blockOf minIndex j ∈ manager.othersBlocks) (converted : ConvertedBlankNode minIndex localVocab state j k) :
    minIndex ≤ k ∧ state.localVocab.isBlankNodeIndexContained k = true ∧ localVocab.isBlankNodeIndexContained k = false := by
  cases converted with
  | kept _ known =>
    exfalso
    rcases known with isIndex | contained
    · omega
    · have still := converting.kept j contained
      rw [converting.foreign foreign] at still
      cases still
  | mapped _ _ _ _ member =>
    obtain ⟨isLocal',contained⟩ := converting.contained _ member
    exact ⟨isLocal',contained,converting.new _ member⟩

end

def Foreign (manager : BlankNodeManager minIndex) (related : Nat → Nat → Prop) : Prop :=
  ∀ i j,related i j → minIndex ≤ j ∧ LocalVocab.blockOf minIndex j ∈ manager.othersBlocks

theorem foreign_read (other : BlankNodeManager minIndex) {localVocab temp : LocalVocab Word}
    (converting : Converting manager localVocab state) (well : LocalVocab.WellFormed minIndex temp)
    (kept : ∀ j,state.localVocab.isBlankNodeIndexContained j = true → temp.isBlankNodeIndexContained j = true) :
    Foreign (other.whileUsed temp.usedBlocks) (fun i j => (i,j) ∈ state.blankNodeMap) := by
  intro i j member
  obtain ⟨isLocal,contained⟩ := converting.contained _ member
  exact ⟨isLocal,Finset.mem_union_right _ (well.contained (kept j contained)).2⟩

end

theorem Foreign.validTriple (foreign : Foreign manager related) (localVocab : LocalVocab Word) {triple triple' : Triple Word}
    (moved : MovedTriple vocab related triple triple') : ValidTriple manager localVocab triple' := by
  intro i
  have column := moved i
  have blank := column.isBlankNode
  generalize triple'.ids i = id' at *
  cases id' with
  | blankNodeIndex j =>
    generalize triple.ids i = id at *
    cases id with
    | blankNodeIndex blankNode =>
      obtain ⟨_,same,holds⟩ := column
      cases same
      exact Or.inr (Or.inr (foreign blankNode j holds).2)
    | _ => cases blank
  | _ => trivial

theorem keys_eq (map : TriplesToHandlesMap Word) : keys vocab map = (map.map Prod.fst).map (tripleValue vocab) := by
  rw [List.map_map]
  rfl

end Read

section ReadBack

theorem Storable.knownWords (storable : Storable index d) {mapping : List (Nat × ValueId Word)}
    (found : ∀ entry ∈ d.localVocab.primaryWordSet,∃ address,mapping.lookup entry.1 = some (.localVocabIndex address entry.2)) (flag : Bool) :
    ∀ id ∈ toRange (d.targetMap flag),KnownWord mapping id := by
  intro id member
  rw [toRange,List.mem_flatMap] at member
  obtain ⟨entry,isEntry,isId⟩ := member
  have column : ∃ i,entry.1.ids i = id := by
    simp only [List.mem_cons,List.not_mem_nil,or_false] at isId
    rcases isId with rfl | rfl | rfl | rfl
    · exact ⟨0,rfl⟩
    · exact ⟨1,rfl⟩
    · exact ⟨2,rfl⟩
    · exact ⟨3,rfl⟩
  obtain ⟨i,rfl⟩ := column
  have owned := storable.owned flag entry isEntry i
  generalize entry.1.ids i = id at *
  cases id with
  | localVocabIndex address word => exact found (address,word) owned
  | _ => trivial

structure RangesRead (index : Index Word) (manager : BlankNodeManager index.minIndex) (d : DeltaTriples Word) (idRanges : List (List (ValueId Word)))
    (temp : LocalVocab Word) (state0 state1 : Conversion Word) : Prop where
  exists_ids : ∃ deleted inserted localVocab,idRanges = [deleted,inserted] ∧
    RangeRead manager index.vocab localVocab (toRange d.triplesDeleted) deleted state0 ∧
    RangeRead manager index.vocab state0.localVocab (toRange d.triplesInserted) inserted state1
  temporary : state1.localVocab = temp

theorem deserializeIds_yields (storable : Storable index d) (manager : BlankNodeManager index.minIndex) :
    Yields .tooManyBlankNodeBlocks (deserializeIds manager d.writeToDisk)
      (fun idRanges temp => ∃ state0 state1,RangesRead index manager d idRanges temp state0 state1) := by
  have empty : LocalVocab.WellFormed index.minIndex ({} : LocalVocab Word) :=
    ⟨List.Pairwise.nil,by simp,by simp,by simp,List.nodup_nil,by simp⟩
  have fresh : ∀ entry ∈ d.localVocab.primaryWordSet,([] : List (Nat × ValueId Word)).lookup entry.1 = none := by simp
  obtain ⟨well,blocks,_,found⟩ := deserializeLocalVocab_spec empty storable.vocab.addresses fresh
  have header : readHeader d.writeToDisk = .ok () := if_pos ⟨rfl,rfl⟩
  have disjoint : Disjoint (deserializeLocalVocab d.localVocab.primaryWordSet {} []).1.usedBlocks manager.othersBlocks := by
    rw [LocalVocab.usedBlocks,blocks]
    exact Finset.disjoint_empty_left _
  rw [deserializeIds,header]
  change Yields _ (mapState (deserializeRange manager (deserializeLocalVocab d.localVocab.primaryWordSet {} []).2)
    [(toRange d.triplesDeleted).map ValueId.serialize,(toRange d.triplesInserted).map ValueId.serialize] _) _
  simp only [mapState]
  apply (deserializeRange_yields index.vocab (storable.knownWords found false) well disjoint).bind
  intro deleted vocab0 first
  obtain ⟨state0,rfl,read0⟩ := first
  have second := deserializeRange_yields index.vocab (storable.knownWords found true) read0.converting.well read0.converting.disjoint
  rcases second with failed | ⟨inserted,vocab1,done,state1,rfl,read1⟩
  · left
    simp only [targetMap,if_true] at failed
    simp only [failed]
    rfl
  · right
    simp only [targetMap,if_true] at done
    simp only [done]
    exact ⟨[deleted,inserted],state1.localVocab,rfl,state0,state1,⟨deleted,inserted,_,rfl,read0,read1⟩,rfl⟩

/-- One of the two calls that restore the triples. The new names of the blank nodes were not in use before. -/
structure RestoredBatch (index : Index Word) (manager : BlankNodeManager index.minIndex) (flag : Bool) (triples : List (Triple Word))
    (d0 d1 : DeltaTriples Word) (related : Nat → Nat → Prop) : Prop where
  invariant : Invariant index d1
  disjoint : Disjoint d1.localVocab.usedBlocks manager.othersBlocks
  moved : ∃ rewritten,List.Forall₂ (MovedTriple index.vocab related) triples rewritten ∧
    (∀ value,value ∈ keys index.vocab (d1.targetMap flag) ↔
      value ∈ keys index.vocab (d0.targetMap flag) ∨ value ∈ rewritten.map (tripleValue index.vocab)) ∧
    ∀ value,value ∈ keys index.vocab (d1.inverseMap flag) ↔
      value ∈ keys index.vocab (d0.inverseMap flag) ∧ value ∉ rewritten.map (tripleValue index.vocab)
  leftUnique : Relator.LeftUnique related
  rightUnique : Relator.RightUnique related
  isLocal : ∀ i j,related i j → index.minIndex ≤ j
  contained : ∀ i j,related i j → d1.localVocab.isBlankNodeIndexContained j = true
  new : ∀ i j,related i j → d0.localVocab.isBlankNodeIndexContained j = false

variable {manager : BlankNodeManager index.minIndex}

theorem modifyTriplesImpl_restores {d0 : DeltaTriples Word} (invariant : Invariant index d0)
    (disjoint : Disjoint d0.localVocab.usedBlocks manager.othersBlocks) (flag : Bool) {triples triples' : List (Triple Word)} {related : Nat → Nat → Prop}
    (moved : List.Forall₂ (MovedTriple index.vocab related) triples triples') (distinct : (triples.map (tripleValue index.vocab)).Nodup)
    (leftUnique : Relator.LeftUnique related) (rightUnique : Relator.RightUnique related) (foreign : Foreign manager related) :
    modifyTriplesImpl index manager ⟨none⟩ triples' flag d0 = .error .tooManyBlankNodeBlocks ∨
    ∃ d1 related',modifyTriplesImpl index manager ⟨none⟩ triples' flag d0 = .ok (.finished d1) ∧
      RestoredBatch index manager flag triples d0 d1 related' := by
  have valid : ValidBatch index manager d0 triples' := by
    refine ⟨MovedTriple.nodup leftUnique moved distinct,disjoint,?_⟩
    intro triple' member
    obtain ⟨triple,_,single⟩ := exists_left moved member
    exact foreign.validTriple d0.localVocab single
  rcases modifyTriplesImpl_cases invariant ⟨none⟩ flag valid with ⟨_,failed⟩ | ⟨rewritten,state,_,result,⟨_,cancelled⟩ | ⟨d1,finished,updated⟩⟩
  · exact Or.inl failed
  · exact absurd cancelled modifyTriplesImpl_uncancelled
  · right
    have vocab : d1.localVocab = state.localVocab := updated.localVocab
    have new : ∀ i k,Relation.Comp related (ConvertedBlankNode index.minIndex d0.localVocab state) i k →
        index.minIndex ≤ k ∧ state.localVocab.isBlankNodeIndexContained k = true ∧ d0.localVocab.isBlankNodeIndexContained k = false := by
      intro i k holds
      obtain ⟨j,first,second⟩ := holds
      obtain ⟨isLocal,isForeign⟩ := foreign i j first
      exact convertedBlankNode_new result.converting isLocal isForeign second
    refine ⟨d1,Relation.Comp related (ConvertedBlankNode index.minIndex d0.localVocab state),finished,?_⟩
    refine ⟨updated.invariant invariant result,vocab ▸ result.converting.disjoint,⟨rewritten,?_,updated.target,updated.inverse⟩,?_,?_,?_,?_,?_⟩
    · exact forall₂_trans moved result.moved
    · exact leftUnique_comp leftUnique result.converting.leftUnique
    · exact rightUnique_comp rightUnique (convertedBlankNode_rightUnique result.converting)
    · exact fun i k holds => (new i k holds).1
    · exact fun i k holds => vocab ▸ (new i k holds).2.1
    · exact fun i k holds => (new i k holds).2.2

theorem RestoredBatch.restored (storable : Storable index d) {d1 d2 : DeltaTriples Word}
    {related1 related0 : Nat → Nat → Prop}
    (inserting : RestoredBatch index manager true (d.triplesInserted.map Prod.fst) (ofIndex index) d1 related1)
    (deleting : RestoredBatch index manager false (d.triplesDeleted.map Prod.fst) d1 d2 related0) :
    Restored index d d2 (fun flag => if flag then related1 else related0) := by
  obtain ⟨inserted,movedInserted,target1,inverse1⟩ := inserting.moved
  obtain ⟨deleted,movedDeleted,target0,inverse0⟩ := deleting.moved
  have apart : ∀ i i' j,related1 i j → related0 i' j → False := by
    intro i i' j first second
    have contained := inserting.contained i j first
    rw [deleting.new i' j second] at contained
    cases contained
  -- A triple that was inserted is not deleted again: triples that become equal are already equal in the file.
  have survives : ∀ value ∈ inserted.map (tripleValue index.vocab),value ∉ deleted.map (tripleValue index.vocab) := by
    intro value isInserted isDeleted
    obtain ⟨triple1,member1,rfl⟩ := List.mem_map.mp isInserted
    obtain ⟨triple0,member0,same⟩ := List.mem_map.mp isDeleted
    obtain ⟨original1,isOriginal1,single1⟩ := exists_left movedInserted member1
    obtain ⟨original0,isOriginal0,single0⟩ := exists_left movedDeleted member0
    have equal := MovedTriple.value_eq_of_apart apart single1 single0 same.symm
    have inserted1 : tripleValue index.vocab original1 ∈ keys index.vocab d.triplesInserted := by
      rw [keys_eq]
      exact List.mem_map.mpr ⟨original1,isOriginal1,rfl⟩
    have deleted0 : tripleValue index.vocab original0 ∈ keys index.vocab d.triplesDeleted := by
      rw [keys_eq]
      exact List.mem_map.mpr ⟨original0,isOriginal0,rfl⟩
    exact (List.nodup_append.mp storable.distinct).2.2 _ inserted1 _ deleted0 equal
  refine ⟨?_,?_,?_,?_,apart⟩
  · intro flag
    cases flag with
    | true =>
      refine ⟨inserted,movedInserted,?_⟩
      intro value
      have kept := inverse0 value
      have added := target1 value
      change value ∈ keys index.vocab (d2.targetMap true) ↔ value ∈ keys index.vocab (d1.targetMap true) ∧ _ at kept
      have nothing : value ∉ keys index.vocab ((ofIndex index).targetMap true) := by simp [targetMap,ofIndex,keys]
      rw [kept,added]
      constructor
      · intro holds
        exact holds.1.resolve_left nothing
      · intro holds
        exact ⟨Or.inr holds,survives value holds⟩
    | false =>
      refine ⟨deleted,movedDeleted,?_⟩
      intro value
      have before := inverse1 value
      change value ∈ keys index.vocab (d1.targetMap false) ↔ value ∈ keys index.vocab ((ofIndex index).targetMap false) ∧ _ at before
      have nothing : value ∉ keys index.vocab ((ofIndex index).targetMap false) := by simp [targetMap,ofIndex,keys]
      rw [target0 value,before]
      constructor
      · intro holds
        exact holds.resolve_left (fun old => nothing old.1)
      · exact Or.inr
  · intro flag
    cases flag
    · exact deleting.leftUnique
    · exact inserting.leftUnique
  · intro flag
    cases flag
    · exact deleting.rightUnique
    · exact inserting.rightUnique
  · intro flag
    cases flag
    · exact deleting.isLocal
    · exact inserting.isLocal

theorem readFromDisk_restores (storable : Storable index d) (manager : BlankNodeManager index.minIndex) :
    readFromDisk index manager (some d.writeToDisk) (ofIndex index) = .error .tooManyBlankNodeBlocks ∨
    ∃ d' related,readFromDisk index manager (some d.writeToDisk) (ofIndex index) = .ok (.finished d') ∧ Restored index d d' related := by
  have read := deserializeIds_yields storable (manager.whileUsed (ofIndex index).localVocab.usedBlocks)
  have step : readFromDisk index manager (some d.writeToDisk) (ofIndex index) =
      (deserializeIds (manager.whileUsed (ofIndex index).localVocab.usedBlocks) d.writeToDisk >>= _) := rfl
  rw [step]
  rcases read with failed | ⟨idRanges,temp,done,state0,state1,⟨deleted,inserted,localVocab,rfl,read0,read1⟩,rfl⟩
  · left
    rw [failed]
    rfl
  · obtain ⟨distinctInserted,distinctDeleted,_⟩ := List.nodup_append.mp storable.distinct
    rw [keys_eq] at distinctInserted distinctDeleted
    obtain ⟨triples0,isTriples0,moved0⟩ := toTriples_read read0.moved
    obtain ⟨triples1,isTriples1,moved1⟩ := toTriples_read read1.moved
    have foreign0 : Foreign (manager.whileUsed state1.localVocab.usedBlocks) (fun i j => (i,j) ∈ state0.blankNodeMap) :=
      foreign_read manager read0.converting read1.converting.well read1.converting.kept
    have foreign1 : Foreign (manager.whileUsed state1.localVocab.usedBlocks) (fun i j => (i,j) ∈ state1.blankNodeMap) :=
      foreign_read manager read1.converting read1.converting.well (fun _ contained => contained)
    have inserting := modifyTriplesImpl_restores (Invariant.ofIndex index) (Finset.disjoint_empty_left _) true moved1 distinctInserted
      (blankNodeMap_leftUnique read1.converting) (blankNodeMap_rightUnique read1.converting) foreign1
    rw [done]
    change restore index (manager.whileUsed state1.localVocab.usedBlocks) deleted inserted (ofIndex index) = _ ∨ ∃ d' related,
      restore index (manager.whileUsed state1.localVocab.usedBlocks) deleted inserted (ofIndex index) = _ ∧ _
    simp only [restore,isTriples0,isTriples1,insertTriples,deleteTriples,bind,Except.bind]
    rcases inserting with failed | ⟨d1,related1,finished1,batch1⟩
    · left
      rw [failed]
    · rw [finished1]
      have deleting := modifyTriplesImpl_restores batch1.invariant batch1.disjoint false moved0 distinctDeleted
        (blankNodeMap_leftUnique read0.converting) (blankNodeMap_rightUnique read0.converting) foreign0
      rcases deleting with failed | ⟨d2,related0,finished2,batch0⟩
      · exact Or.inl failed
      · exact Or.inr ⟨d2,_,finished2,RestoredBatch.restored storable batch1 batch0⟩

def literalTriple : Triple Nat := ⟨.encoded .Int 1,.localVocabIndex 7 3,.vocabIndex 1,.vocabIndex 0⟩

def deleteAndRead (triple : Triple Nat) : Except Failure (UpdateResult Nat) := do
  let result ← deleteTriples emptyIndex (.counting 5 {0}) ⟨none⟩ [triple] (ofIndex emptyIndex)
  readFromDisk emptyIndex (.counting 5 {0}) (some result.deltaTriples.writeToDisk) (ofIndex emptyIndex)

theorem deleteAndRead_eq {triple : Triple Nat} {d : DeltaTriples Nat}
    (deleting : deleteTriples emptyIndex (.counting 5 {0}) ⟨none⟩ [triple] (ofIndex emptyIndex) = .ok (.finished d)) :
    deleteAndRead triple = readFromDisk emptyIndex (.counting 5 {0}) (some d.writeToDisk) (ofIndex emptyIndex) := by
  unfold deleteAndRead
  rw [deleting]
  rfl

end ReadBack
end DeltaTriples
end Qlever
