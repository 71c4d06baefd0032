import Qlever.AugmentedMetadata

/-! The content of the sets of located triples of one permutation as a list of rows. -/
namespace Qlever
open Library List

structure LocatedRow (Id : Type) where
  triple : IdTriple Id
  insertOrDelete : Bool
  address : Nat

namespace LocatedRow
variable {Id : Type} [LinearOrder Id] (metadata : List (CompressedBlockMetadata Id)) (keyOrder : KeyOrder)

def located (row : LocatedRow Id) : LocatedTriple Id := locateTriple metadata keyOrder row.insertOrDelete row.triple

def node (row : LocatedRow Id) : Node Id := ⟨row.address,row.located metadata keyOrder⟩

def handle (row : LocatedRow Id) : SetIterator := ⟨(row.located metadata keyOrder).blockIndex,row.address⟩

end LocatedRow

namespace LocatedTriplesPerBlock
variable {Id : Type} [LinearOrder Id] {metadata : List (CompressedBlockMetadata Id)} {keyOrder : KeyOrder}
  {ltpb ltpb' : LocatedTriplesPerBlock Id} {row : LocatedRow Id} {rows rows' : List (LocatedRow Id)}

structure Stores (metadata : List (CompressedBlockMetadata Id)) (keyOrder : KeyOrder) (ltpb : LocatedTriplesPerBlock Id)
    (rows : List (LocatedRow Id)) : Prop where
  sorted : Sorted ltpb
  mem : ∀ b node,node ∈ ltpb.map b ↔ ∃ row ∈ rows,row.node metadata keyOrder = node ∧ node.located.blockIndex = b
  triples : (rows.map (·.triple)).Nodup
  addresses : (rows.map (·.address)).Nodup
  below : ∀ row ∈ rows,row.address < ltpb.nextNode
  numTriples : ltpb.numTriples = rows.length
  original : ltpb.originalMetadata = some metadata

theorem Stores.perm (stores : Stores metadata keyOrder ltpb rows) (perm : rows.Perm rows') : Stores metadata keyOrder ltpb rows' where
  sorted := stores.sorted
  mem b node := by
    rw [stores.mem]
    simp only [perm.mem_iff]
  triples := (perm.map _).nodup_iff.mp stores.triples
  addresses := (perm.map _).nodup_iff.mp stores.addresses
  below row member := stores.below row (perm.mem_iff.mpr member)
  numTriples := stores.numTriples.trans perm.length_eq
  original := stores.original

theorem Stores.setOriginalMetadata (metadata : List (CompressedBlockMetadata Id)) (keyOrder : KeyOrder) :
    Stores metadata keyOrder (LocatedTriplesPerBlock.setOriginalMetadata metadata {}) [] :=
  ⟨fun _ => List.Pairwise.nil,by simp [LocatedTriplesPerBlock.setOriginalMetadata],nodup_nil,nodup_nil,by simp,rfl,rfl⟩

theorem Stores.clear (stores : Stores metadata keyOrder ltpb rows) : Stores metadata keyOrder ltpb.clear [] :=
  ⟨fun _ => List.Pairwise.nil,by simp [LocatedTriplesPerBlock.clear],nodup_nil,nodup_nil,by simp,rfl,stores.original⟩

theorem Stores.updateAugmentedMetadata (stores : Stores metadata keyOrder ltpb rows) :
    Stores metadata keyOrder ltpb.updateAugmentedMetadata rows :=
  ⟨stores.sorted,stores.mem,stores.triples,stores.addresses,stores.below,stores.numTriples,stores.original⟩

section Erase

theorem Stores.mem_map (stores : Stores metadata keyOrder ltpb rows) (member : row ∈ rows) :
    row.node metadata keyOrder ∈ ltpb.map (row.located metadata keyOrder).blockIndex :=
  (stores.mem _ _).mpr ⟨row,member,rfl,rfl⟩

theorem Stores.deref (stores : Stores metadata keyOrder ltpb rows) (member : row ∈ rows) :
    ltpb.deref (row.handle metadata keyOrder) = some (row.located metadata keyOrder) := by
  have isNode := stores.mem_map member
  obtain ⟨located,found⟩ := Option.isSome_iff_exists.mp (deref_isSome isNode)
  have same : located = row.located metadata keyOrder := by
    obtain ⟨node,first,rfl⟩ := Option.map_eq_some_iff.mp found
    have passes := find?_some first
    have address : node.address = row.address := of_decide_eq_true passes
    obtain ⟨other,isRow,rfl,_⟩ := (stores.mem _ _).mp (mem_of_find?_eq_some first)
    rw [inj_on_of_nodup_map stores.addresses isRow member address]
    rfl
  rw [← same]
  exact found

theorem Stores.erase (stores : Stores metadata keyOrder ltpb (row::rows)) :
    ∃ ltpb',ltpb.erase (row.located metadata keyOrder).blockIndex (row.handle metadata keyOrder) = .ok ltpb' ∧
      Stores metadata keyOrder ltpb' rows := by
  obtain ⟨ltpb',run⟩ := erase_ok (stores.mem_map mem_cons_self)
  obtain ⟨erased,sub⟩ := erase_erased run
  have distinct := nodup_cons.mp (stores.addresses)
  refine ⟨ltpb',run,stores.sorted.erase sub,?_,(nodup_cons.mp stores.triples).2,distinct.2,?_,?_,?_⟩
  · intro b node
    rw [erased.mem,stores.mem]
    constructor
    · rintro ⟨⟨other,isRow,rfl,rfl⟩,different⟩
      rcases mem_cons.mp isRow with rfl | later
      · exact absurd ⟨rfl,rfl⟩ different
      · exact ⟨other,later,rfl,rfl⟩
    · rintro ⟨other,isRow,rfl,rfl⟩
      refine ⟨⟨other,mem_cons_of_mem row isRow,rfl,rfl⟩,?_⟩
      rintro ⟨_,address⟩
      exact distinct.1 (List.mem_map.mpr ⟨other,isRow,address⟩)
  · intro other isRow
    rw [erased.nextNode]
    exact stores.below other (mem_cons_of_mem row isRow)
  · rw [erased.numTriples,stores.numTriples]
    rfl
  · rw [erased.originalMetadata,stores.original]

end Erase

section Add

variable {triple : IdTriple Id}

theorem Stores.fresh (stores : Stores metadata keyOrder ltpb rows) (fresh : triple ∉ rows.map (·.triple)) (b : Nat) :
    ∀ node ∈ ltpb.map b,node.triple ≠ triple.permute keyOrder := by
  intro node member same
  obtain ⟨row,isRow,rfl,_⟩ := (stores.mem _ _).mp member
  have equal : row.triple = triple := IdTriple.permute_injective keyOrder same
  exact fresh (List.mem_map.mpr ⟨row,isRow,equal⟩)

theorem Stores.addOne (stores : Stores metadata keyOrder ltpb rows) (fresh : triple ∉ rows.map (·.triple))
    (insertOrDelete : Bool) :
    ∃ ltpb',ltpb.addOne (locateTriple metadata keyOrder insertOrDelete triple) =
        .ok (LocatedRow.handle metadata keyOrder ⟨triple,insertOrDelete,ltpb.nextNode⟩,ltpb') ∧
      ltpb'.nextNode = ltpb.nextNode + 1 ∧ Stores metadata keyOrder ltpb' (⟨triple,insertOrDelete,ltpb.nextNode⟩::rows) := by
  have absent : ∀ node ∈ ltpb.map (locateTriple metadata keyOrder insertOrDelete triple).blockIndex,
      node.triple ≠ (locateTriple metadata keyOrder insertOrDelete triple).triple := stores.fresh fresh _
  obtain ⟨ltpb',run,added,sorted⟩ := addOne_ok stores.sorted absent
  refine ⟨ltpb',run,added.nextNode,sorted,?_,?_,?_,?_,?_,?_⟩
  · intro b node
    rw [added.mem,stores.mem]
    constructor
    · rintro (⟨row,isRow,rfl,rfl⟩ | ⟨rfl,rfl⟩)
      · exact ⟨row,mem_cons_of_mem _ isRow,rfl,rfl⟩
      · exact ⟨_,mem_cons_self,rfl,rfl⟩
    · rintro ⟨row,isRow,rfl,rfl⟩
      rcases mem_cons.mp isRow with rfl | old
      · exact Or.inr ⟨rfl,rfl⟩
      · exact Or.inl ⟨row,old,rfl,rfl⟩
  · rw [map_cons,nodup_cons]
    exact ⟨fresh,stores.triples⟩
  · rw [map_cons,nodup_cons]
    refine ⟨?_,stores.addresses⟩
    intro member
    obtain ⟨row,isRow,same⟩ := List.mem_map.mp member
    exact (stores.below row isRow).ne same
  · intro row isRow
    rw [added.nextNode]
    rcases mem_cons.mp isRow with rfl | old
    · exact Nat.lt_succ_self _
    · exact (stores.below row old).trans (Nat.lt_succ_self _)
  · rw [added.numTriples,stores.numTriples]
    rfl
  · rw [added.originalMetadata,stores.original]

def newRows (triples : List (IdTriple Id)) (insertOrDelete : Bool) (nextNode : Nat) : List (LocatedRow Id) :=
  (triples.zipIdx nextNode).map (fun entry => ⟨entry.1,insertOrDelete,entry.2⟩)

theorem Stores.addAll (triples : List (IdTriple Id)) (insertOrDelete : Bool) (stores : Stores metadata keyOrder ltpb rows) (distinct : triples.Nodup)
    (fresh : ∀ triple ∈ triples,triple ∉ rows.map (·.triple)) :
    ∃ ltpb',ltpb.addAll (triples.map (locateTriple metadata keyOrder insertOrDelete)) =
        .ok ((newRows triples insertOrDelete ltpb.nextNode).map (LocatedRow.handle metadata keyOrder),ltpb') ∧
      Stores metadata keyOrder ltpb' (newRows triples insertOrDelete ltpb.nextNode ++ rows) := by
  induction triples generalizing ltpb rows with
  | nil => exact ⟨ltpb,rfl,stores⟩
  | cons triple triples ih =>
    obtain ⟨absent,rest⟩ := nodup_cons.mp distinct
    obtain ⟨next,first,nextNode,stores'⟩ := stores.addOne (fresh triple mem_cons_self) insertOrDelete
    have fresh' : ∀ other ∈ triples,other ∉ List.map (·.triple) (⟨triple,insertOrDelete,ltpb.nextNode⟩::rows) := by
      intro other member inside
      rw [map_cons,mem_cons] at inside
      rcases inside with rfl | old
      · exact absent member
      · exact fresh other (mem_cons_of_mem triple member) old
    obtain ⟨last,run,final⟩ := ih stores' rest fresh'
    rw [nextNode] at run final
    refine ⟨last,?_,final.perm perm_middle⟩
    rw [map_cons,LocatedTriplesPerBlock.addAll,first]
    simp only [bind,Except.bind,run]
    rfl

theorem Stores.add (triples : List (IdTriple Id)) (insertOrDelete : Bool) (stores : Stores metadata keyOrder ltpb rows) (distinct : triples.Nodup)
    (fresh : ∀ triple ∈ triples,triple ∉ rows.map (·.triple)) :
    ∃ ltpb',ltpb.add (triples.map (locateTriple metadata keyOrder insertOrDelete)) =
        .ok ((newRows triples insertOrDelete ltpb.nextNode).map (LocatedRow.handle metadata keyOrder),ltpb') ∧
      Stores metadata keyOrder ltpb' (newRows triples insertOrDelete ltpb.nextNode ++ rows) := by
  obtain ⟨ltpb',run,stores'⟩ := stores.addAll triples insertOrDelete distinct fresh
  refine ⟨ltpb'.updateAugmentedMetadata,?_,stores'.updateAugmentedMetadata⟩
  rw [LocatedTriplesPerBlock.add,run]
  rfl

end Add

section Content

def allNodes (metadata : List (CompressedBlockMetadata Id)) (ltpb : LocatedTriplesPerBlock Id) : List (Node Id) :=
  (range (metadata.length + 1)).flatMap ltpb.map

theorem Stores.nodup_nodes (stores : Stores metadata keyOrder ltpb rows) : (rows.map (LocatedRow.node metadata keyOrder)).Nodup := by
  have addresses : ((rows.map (LocatedRow.node metadata keyOrder)).map Node.address).Nodup := by
    rw [map_map]
    exact stores.addresses
  exact addresses.of_map _

theorem Stores.mem_allNodes (stores : Stores metadata keyOrder ltpb rows) (node : Node Id) :
    node ∈ allNodes metadata ltpb ↔ node ∈ rows.map (LocatedRow.node metadata keyOrder) := by
  simp only [allNodes,mem_flatMap,mem_range,List.mem_map,stores.mem]
  constructor
  · rintro ⟨_,_,row,isRow,same,_⟩
    exact ⟨row,isRow,same⟩
  · rintro ⟨row,isRow,rfl⟩
    exact ⟨_,Nat.lt_succ_of_le (locate_le_length metadata _),row,isRow,rfl,rfl⟩

theorem Stores.allNodes_perm (stores : Stores metadata keyOrder ltpb rows) :
    (allNodes metadata ltpb).Perm (rows.map (LocatedRow.node metadata keyOrder)) := by
  apply (perm_ext_iff_of_nodup ?_ stores.nodup_nodes).mpr stores.mem_allNodes
  rw [allNodes,nodup_flatMap]
  refine ⟨?_,?_⟩
  · intro b _
    exact (stores.sorted b).imp (fun less same => less.ne (congrArg Node.triple same))
  · apply nodup_range.imp
    intro b b' different node member member'
    obtain ⟨_,_,_,rfl⟩ := (stores.mem _ _).mp member
    obtain ⟨_,_,_,rfl⟩ := (stores.mem _ _).mp member'
    exact different rfl

theorem Stores.map_eq_nil (stores : Stores metadata keyOrder ltpb rows) {b : Nat} (behind : metadata.length < b) : ltpb.map b = [] := by
  rw [eq_nil_iff_forall_not_mem]
  intro node member
  obtain ⟨row,_,rfl,rfl⟩ := (stores.mem _ _).mp member
  exact absurd (locate_le_length metadata (row.triple.permute keyOrder)) (not_le.mpr behind)

end Content
end LocatedTriplesPerBlock
end Qlever
