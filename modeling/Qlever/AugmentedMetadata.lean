import Qlever.LocatedTriplesSets
import Qlever.ScanSpecAndBlocks
import Qlever.Library.Run

/-! The augmented metadata of the blocks, in all states of a `LocatedTriplesPerBlock` that are
reached by `add`, `erase` and `clear`.
-/
namespace Qlever
open Library List
variable {Id : Type} [LinearOrder Id]

namespace LocatedTriplesPerBlock

inductive Operation (Id : Type)
  | add (triples : List (IdTriple Id)) (insertOrDelete : Bool)
  | erase (blockIndex : Nat) (iter : SetIterator)
  | clear

def step (metadata : List (CompressedBlockMetadata Id)) (keyOrder : KeyOrder) (ltpb : LocatedTriplesPerBlock Id) :
    Operation Id → Except Failure (LocatedTriplesPerBlock Id)
  | .add triples insertOrDelete => do
    let (_,ltpb) ← ltpb.add (triples.map (locateTriple metadata keyOrder insertOrDelete))
    return ltpb
  | .erase blockIndex iter => ltpb.erase blockIndex iter
  | .clear => .ok ltpb.clear

def run (metadata : List (CompressedBlockMetadata Id)) (keyOrder : KeyOrder) (operations : List (Operation Id)) :
    Except Failure (LocatedTriplesPerBlock Id) :=
  operations.foldlM (step metadata keyOrder) {originalMetadata := some metadata}

structure WellLocated (metadata : List (CompressedBlockMetadata Id)) (ltpb : LocatedTriplesPerBlock Id) : Prop where
  sorted : Sorted ltpb
  located : ∀ b,∀ node ∈ ltpb.map b,b = locate metadata node.triple
  original : ltpb.originalMetadata = some metadata

section Runs
variable {metadata : List (CompressedBlockMetadata Id)} {keyOrder : KeyOrder} {ltpb ltpb' : LocatedTriplesPerBlock Id}

theorem WellLocated.addAll (triples : List (IdTriple Id)) (insertOrDelete : Bool) (well : WellLocated metadata ltpb)
    {handles : List SetIterator} (added : ltpb.addAll (triples.map (locateTriple metadata keyOrder insertOrDelete)) = .ok (handles,ltpb')) :
    WellLocated metadata ltpb' := by
  induction triples generalizing ltpb handles with
  | nil =>
    cases added
    exact well
  | cons triple triples ih =>
    simp only [map_cons,LocatedTriplesPerBlock.addAll,bind_eq_ok,pure_eq_ok,Prod.exists,Prod.mk.injEq] at added
    obtain ⟨handle,ltpb₁,first,handles',ltpb₂,later,_,rfl⟩ := added
    obtain ⟨_,one,sorted⟩ := addOne_added well.sorted first
    apply ih _ later
    refine ⟨sorted,?_,one.originalMetadata.trans well.original⟩
    intro b node member
    rcases (one.mem b node).mp member with old | ⟨block,rfl⟩
    · exact well.located b node old
    · exact block

theorem WellLocated.step {operation : Operation Id} (well : WellLocated metadata ltpb)
    (next : LocatedTriplesPerBlock.step metadata keyOrder ltpb operation = .ok ltpb') : WellLocated metadata ltpb' := by
  cases operation with
  | add triples insertOrDelete =>
    simp only [LocatedTriplesPerBlock.step,add,bind_eq_ok,pure_eq_ok,Prod.exists,Prod.mk.injEq] at next
    obtain ⟨_,_,⟨handles,ltpb₁,added,_,rfl⟩,rfl⟩ := next
    have well₁ := well.addAll triples insertOrDelete added
    exact ⟨well₁.sorted,well₁.located,well₁.original⟩
  | erase blockIndex iter =>
    obtain ⟨erased,sub⟩ := erase_erased next
    refine ⟨well.sorted.erase sub,?_,erased.originalMetadata.trans well.original⟩
    intro b node member
    exact well.located b node ((sub b).subset member)
  | clear =>
    cases next
    exact ⟨fun _ => List.Pairwise.nil,by simp [clear],well.original⟩

theorem run_wellLocated {operations : List (Operation Id)} (ran : LocatedTriplesPerBlock.run metadata keyOrder operations = .ok ltpb) :
    WellLocated metadata ltpb := by
  apply foldlM_invariant (fun state operation next well stepped => WellLocated.step well stepped) _ ran
  exact ⟨fun _ => List.Pairwise.nil,by simp,rfl⟩

end Runs

section Location
variable {metadata : List (CompressedBlockMetadata Id)} {triple : IdTriple Id}

theorem locate_le_length (metadata : List (CompressedBlockMetadata Id)) (triple : IdTriple Id) : locate metadata triple ≤ metadata.length :=
  (List.takeWhile_prefix _).length_le

variable {block : CompressedBlockMetadata Id}

theorem lt_of_locate {j : Nat} (before : j < locate metadata triple)
    (found : metadata[j]? = some block) : block.lastTriple < triple := by
  obtain ⟨rest,split⟩ := List.takeWhile_prefix (fun block : CompressedBlockMetadata Id => decide (block.lastTriple < triple)) (l := metadata)
  rw [← split,List.getElem?_append_left before] at found
  have passes := mem_takeWhile_imp (mem_of_getElem? found)
  simpa using passes

theorem le_of_locate (found : metadata[locate metadata triple]? = some block) :
    triple ≤ block.lastTriple := by
  induction metadata with
  | nil => simp at found
  | cons first metadata ih =>
    by_cases less : first.lastTriple < triple
    · have next : locate (first::metadata) triple = locate metadata triple + 1 := by simp [locate,less]
      rw [next,List.getElem?_cons_succ] at found
      exact ih found
    · have zero : locate (first::metadata) triple = 0 := by simp [locate,less]
      rw [zero,List.getElem?_cons_zero,Option.some_inj] at found
      rw [← found]
      exact not_lt.mp less

end Location

section Blocks
variable {updates : List (Node Id)} {block : CompressedBlockMetadata Id}

theorem head_le (sorted : KeyedSet.Sorted Node.triple updates) {first node : Node Id} (head : updates.head? = some first)
    (member : node ∈ updates) : first.triple ≤ node.triple := by
  obtain ⟨tail,rfl⟩ := head?_eq_some_iff.mp head
  rcases mem_cons.mp member with rfl | later
  · exact le_refl _
  · exact ((pairwise_cons.mp sorted).1 node later).le

theorem le_getLast (sorted : KeyedSet.Sorted Node.triple updates) {last node : Node Id} (final : updates.getLast? = some last)
    (member : node ∈ updates) : node.triple ≤ last.triple := by
  obtain ⟨init,rfl⟩ := getLast?_eq_some_iff.mp final
  rcases mem_append.mp member with earlier | same
  · exact ((pairwise_append.mp sorted).2.2 node earlier last (by simp)).le
  · rw [mem_singleton.mp same]

theorem addGraphs_subset {graphs newGraphs : List Id} (run : addGraphs updates graphs = some newGraphs) :
    graphs ⊆ newGraphs ∧ ∀ node ∈ updates,node.located.insertOrDelete = true → node.triple.graphId ∈ newGraphs := by
  induction updates generalizing graphs with
  | nil =>
    cases run
    exact ⟨List.Subset.refl _,by simp⟩
  | cons node updates ih =>
    rw [addGraphs] at run
    split at run
    next deleted =>
      obtain ⟨old,inserted⟩ := ih run
      refine ⟨old,?_⟩
      intro other member isInserted
      rcases mem_cons.mp member with rfl | later
      · simp [isInserted] at deleted
      · exact inserted other later isInserted
    next =>
      simp only at run
      split at run
      next => cases run
      next =>
        obtain ⟨old,inserted⟩ := ih run
        refine ⟨fun graph member => old (mem_insert_of_mem member),?_⟩
        intro other member isInserted
        rcases mem_cons.mp member with rfl | later
        · exact old mem_insert_self
        · exact inserted other later isInserted

/-- The graph info of a block is unknown, or it contains the graphs of the given rows and of the inserted triples. -/
def GraphsKnown (graphInfo : Option (List Id)) (rows : List (IdTriple Id)) (updates : List (Node Id)) : Prop :=
  ∀ graphs,graphInfo = some graphs → (∀ row ∈ rows,row.graphId ∈ graphs) ∧
    ∀ node ∈ updates,node.located.insertOrDelete = true → node.triple.graphId ∈ graphs

theorem updateGraphMetadata_known {rows : List (IdTriple Id)} (known : GraphsKnown block.graphInfo rows []) :
    GraphsKnown (updateGraphMetadata block updates).graphInfo rows updates := by
  intro graphs info
  cases original : block.graphInfo with
  | none => simp [updateGraphMetadata,original] at info
  | some originalGraphs =>
    simp only [updateGraphMetadata,original,Option.map_eq_some_iff] at info
    obtain ⟨newGraphs,run,rfl⟩ := info
    obtain ⟨old,inserted⟩ := addGraphs_subset run
    constructor
    · intro row member
      rw [mem_insertionSort]
      exact old (mem_dedup.mpr ((known originalGraphs original).1 row member))
    · intro node member isInserted
      rw [mem_insertionSort]
      exact inserted node member isInserted

end Blocks

/-- What is known about a block of the augmented metadata. `original` is the block of the index, which
does not exist for the additional last block. -/
structure Augmented (original : Option (CompressedBlockMetadata Id)) (rows : List (IdTriple Id)) (updates : List (Node Id))
    (block : CompressedBlockMetadata Id) : Prop where
  bounds : block.firstTriple ≤ block.lastTriple
  first : (∃ source,original = some source ∧ block.firstTriple = source.firstTriple) ∨ ∃ node ∈ updates,block.firstTriple = node.triple
  last : (∃ source,original = some source ∧ block.lastTriple = source.lastTriple) ∨ ∃ node ∈ updates,block.lastTriple = node.triple
  covers : ∀ source,original = some source → block.firstTriple ≤ source.firstTriple ∧ source.lastTriple ≤ block.lastTriple
  inside : ∀ node ∈ updates,block.firstTriple ≤ node.triple ∧ node.triple ≤ block.lastTriple
  graphs : GraphsKnown block.graphInfo rows updates
  index : ∀ source,original = some source → block.blockIndex = source.blockIndex

section Blocks
variable {updates : List (Node Id)} {block : CompressedBlockMetadata Id} {rows : List (IdTriple Id)}

theorem augmentBlock_augmented (sorted : KeyedSet.Sorted Node.triple updates) (bounds : block.firstTriple ≤ block.lastTriple)
    (known : GraphsKnown block.graphInfo rows []) : Augmented (some block) rows updates (augmentBlock updates block) := by
  cases head : updates.head? with
  | none =>
    have none : updates = [] := head?_eq_none_iff.mp head
    subst none
    exact ⟨bounds,Or.inl ⟨block,rfl,rfl⟩,Or.inl ⟨block,rfl,rfl⟩,by simp [augmentBlock],by simp,known,by simp [augmentBlock]⟩
  | some first =>
    have member := mem_of_mem_head? head
    obtain ⟨last,final⟩ : ∃ last,updates.getLast? = some last := by
      rw [← Option.isSome_iff_exists,getLast?_isSome]
      exact ne_nil_of_mem member
    have augmented : augmentBlock updates block = updateGraphMetadata {block with
        firstTriple := min block.firstTriple first.triple
        lastTriple := max block.lastTriple last.triple} updates := by
      simp only [augmentBlock,head,final]
    rw [augmented]
    refine ⟨?_,?_,?_,?_,?_,updateGraphMetadata_known known,?_⟩
    · exact (min_le_left _ _).trans (bounds.trans (le_max_left _ _))
    · rcases min_choice block.firstTriple first.triple with choice | choice
      · exact Or.inl ⟨block,rfl,choice⟩
      · exact Or.inr ⟨first,member,choice⟩
    · rcases max_choice block.lastTriple last.triple with choice | choice
      · exact Or.inl ⟨block,rfl,choice⟩
      · exact Or.inr ⟨last,mem_of_getLast? final,choice⟩
    · rintro source ⟨⟩
      exact ⟨min_le_left _ _,le_max_left _ _⟩
    · intro node inside
      exact ⟨(min_le_right _ _).trans (head_le sorted head inside),(le_getLast sorted final inside).trans (le_max_right _ _)⟩
    · rintro source ⟨⟩
      rfl

theorem lastBlock_augmented (sorted : KeyedSet.Sorted Node.triple updates) {blockIndex : Nat} (member : block ∈ lastBlock blockIndex updates) :
    Augmented none [] updates block ∧ block.blockIndex = blockIndex := by
  rw [lastBlock] at member
  split at member
  next first last head final =>
    rw [mem_singleton.mp member]
    have firstMember := mem_of_mem_head? head
    refine ⟨⟨head_le sorted head (mem_of_getLast? final),Or.inr ⟨first,firstMember,rfl⟩,
      Or.inr ⟨last,mem_of_getLast? final,rfl⟩,by simp,?_,?_,by simp⟩,rfl⟩
    · intro node inside
      exact ⟨head_le sorted head inside,le_getLast sorted final inside⟩
    · apply updateGraphMetadata_known
      intro graphs info
      simp
  next => simp at member

end Blocks
structure Describes (block : CompressedBlockMetadata Id) (rows : List (IdTriple Id)) : Prop where
  inside : ∀ row ∈ rows,block.firstTriple ≤ row ∧ row ≤ block.lastTriple
  graphs : GraphsKnown block.graphInfo rows []

/-- The quads that a scan of a block has to find: those of the index that are not deleted, and the inserted ones. -/
def Visible (rows : List (IdTriple Id)) (updates : List (Node Id)) (quad : IdTriple Id) : Prop :=
  (quad ∈ rows ∧ ∀ node ∈ updates,node.triple = quad → node.located.insertOrDelete = true) ∨
    ∃ node ∈ updates,node.triple = quad ∧ node.located.insertOrDelete = true

structure Original (metadata : List (CompressedBlockMetadata Id)) (rows : Nat → List (IdTriple Id)) : Prop where
  sorted : SortedBlocks metadata
  describes : ∀ i block,metadata[i]? = some block → Describes block (rows i)
  empty : ∀ i,metadata.length ≤ i → rows i = []

theorem Original.singleton {block : CompressedBlockMetadata Id} {rows : List (IdTriple Id)} (sorted : SortedBlocks [block])
    (describes : Describes block rows) : Original [block] (fun i => if i = 0 then rows else []) := by
  refine ⟨sorted,fun i other found => ?_,fun i behind => if_neg (Nat.pos_iff_ne_zero.mp behind)⟩
  match i,found with
  | 0,found =>
    cases found
    exact describes

section Consistent
variable {metadata : List (CompressedBlockMetadata Id)} {rows : Nat → List (IdTriple Id)} {ltpb : LocatedTriplesPerBlock Id}

variable {block : CompressedBlockMetadata Id}

omit [LinearOrder Id] in
theorem blockIndex_eq {blocks : List (CompressedBlockMetadata Id)} (indices : blocks.map (·.blockIndex) = range blocks.length) {i : Nat}
    (found : blocks[i]? = some block) : block.blockIndex = i := by
  have mapped : (blocks.map (·.blockIndex))[i]? = some block.blockIndex := by rw [List.getElem?_map,found]; rfl
  rw [indices] at mapped
  obtain ⟨_,equal⟩ := List.getElem?_eq_some_iff.mp mapped
  simpa using equal.symm

theorem length_augmentedBlocks (metadata : List (CompressedBlockMetadata Id)) (map : Nat → List (Node Id)) :
    (augmentedBlocks metadata map).length ≤ metadata.length + 1 := by
  have single : (lastBlock metadata.length (map metadata.length)).length ≤ 1 := by
    rw [lastBlock]
    split <;> simp
  rw [augmentedBlocks,List.length_append,List.length_mapIdx]
  omega

theorem augmentedBlocks_get (original : Original metadata rows) (well : WellLocated metadata ltpb) {i : Nat}
    (found : (augmentedBlocks metadata ltpb.map)[i]? = some block) :
    Augmented metadata[i]? (rows i) (ltpb.map i) block ∧ block.blockIndex = i := by
  rw [augmentedBlocks] at found
  by_cases inside : i < metadata.length
  · rw [List.getElem?_append_left (by simpa using inside),List.getElem?_mapIdx,List.getElem?_eq_getElem inside,Option.map_some,
      Option.some_inj] at found
    have present : metadata[i]? = some metadata[i] := List.getElem?_eq_getElem inside
    have augmented := augmentBlock_augmented (well.sorted i) (original.sorted.bounds _ (getElem_mem inside))
      (original.describes i _ present).graphs
    rw [found] at augmented
    rw [present]
    exact ⟨augmented,(augmented.index _ rfl).trans (blockIndex_eq original.sorted.indices present)⟩
  · rw [List.getElem?_append_right (by simpa using inside),List.length_mapIdx] at found
    have member := mem_of_getElem? found
    obtain ⟨augmented,index⟩ := lastBlock_augmented (well.sorted metadata.length) member
    have length := length_augmentedBlocks metadata ltpb.map
    have last : i = metadata.length := by
      obtain ⟨less,_⟩ := List.getElem?_eq_some_iff.mp found
      rw [augmentedBlocks,List.length_append,List.length_mapIdx] at length
      omega
    subst last
    rw [List.getElem?_eq_none (le_refl _),original.empty metadata.length (le_refl _)]
    exact ⟨augmented,index⟩

theorem augmentedBlocks_sorted (original : Original metadata rows) (well : WellLocated metadata ltpb) :
    SortedBlocks (augmentedBlocks metadata ltpb.map) := by
  constructor
  · intro block member
    obtain ⟨i,found⟩ := List.getElem?_of_mem member
    exact (augmentedBlocks_get original well found).1.bounds
  · rw [pairwise_iff_getElem]
    intro i j hi hj less
    have first := (augmentedBlocks_get original well (List.getElem?_eq_getElem hi)).1
    have second := (augmentedBlocks_get original well (List.getElem?_eq_getElem hj)).1
    have inside : i < metadata.length := by
      have length := length_augmentedBlocks metadata ltpb.map
      omega
    have present : metadata[i]? = some metadata[i] := List.getElem?_eq_getElem inside
    have upper : (augmentedBlocks metadata ltpb.map)[i].lastTriple ≤ metadata[i].lastTriple := by
      rcases first.last with ⟨source,found,equal⟩ | ⟨node,member,equal⟩
      · rw [present,Option.some_inj] at found
        rw [equal,found]
      · have located := well.located i node member
        rw [equal]
        exact le_of_locate (by rw [← located]; exact present)
    have lower : metadata[i].lastTriple < (augmentedBlocks metadata ltpb.map)[j].firstTriple := by
      rcases second.first with ⟨source,found,equal⟩ | ⟨node,member,equal⟩
      · rw [equal]
        exact pairwise_get original.sorted.disjoint present found less
      · have located := well.located j node member
        rw [equal]
        exact lt_of_locate (located ▸ less) present
    exact upper.trans_lt lower
  · apply ext_getElem
    · simp
    · intro i hi _
      rw [length_map] at hi
      rw [getElem_map,getElem_range]
      exact (augmentedBlocks_get original well (List.getElem?_eq_getElem hi)).2

theorem augmentedBlocks_contains (well : WellLocated metadata ltpb) {b : Nat} {node : Node Id}
    (member : node ∈ ltpb.map b) : ∃ block,(augmentedBlocks metadata ltpb.map)[b]? = some block := by
  have atMost : b ≤ metadata.length := by
    rw [well.located b node member]
    exact locate_le_length metadata node.triple
  rcases atMost.lt_or_eq with inside | last
  · rw [augmentedBlocks,List.getElem?_append_left (by simpa using inside)]
    exact ⟨_,List.getElem?_eq_getElem (by simpa using inside)⟩
  · subst last
    obtain ⟨first,head⟩ : ∃ first,(ltpb.map metadata.length).head? = some first := by
      rw [← Option.isSome_iff_exists,isSome_head?]
      exact ne_nil_of_mem member
    obtain ⟨final,getLast⟩ : ∃ final,(ltpb.map metadata.length).getLast? = some final := by
      rw [← Option.isSome_iff_exists,getLast?_isSome]
      exact ne_nil_of_mem member
    rw [augmentedBlocks,List.getElem?_append_right (by simp),List.length_mapIdx,Nat.sub_self,lastBlock,head,getLast]
    exact ⟨_,rfl⟩

end Consistent

structure Consistent [BoundedOrder Id] (rows : Nat → List (IdTriple Id)) (ltpb : LocatedTriplesPerBlock Id)
    (blocks : List (CompressedBlockMetadata Id)) : Prop where
  sorted : SortedBlocks blocks
  inside : ∀ b,∀ node ∈ ltpb.map b,∃ block,blocks[b]? = some block ∧ block.firstTriple ≤ node.triple ∧ node.triple ≤ block.lastTriple
  graphs : ∀ i block,blocks[i]? = some block → GraphsKnown block.graphInfo (rows i) (ltpb.map i)
  checks : ∀ spec ranges,ranges.flatten.Sublist blocks → ∃ result,makeScanSpecAndBlocks spec ranges = .ok result
  skipped : ∀ (filter : FilterDuplicatesAndGraphs Id) desired i block,filter.desiredGraphs = some desired → blocks[i]? = some block →
    filter.canBlockBeSkipped block = true → ∀ quad,Visible (rows i) (ltpb.map i) quad → quad.graphId ∉ desired

theorem augmentedMetadata_consistent [BoundedOrder Id] {metadata : List (CompressedBlockMetadata Id)} {rows : Nat → List (IdTriple Id)}
    (original : Original metadata rows) {keyOrder : KeyOrder} {operations : List (Operation Id)} {ltpb : LocatedTriplesPerBlock Id}
    (ran : run metadata keyOrder operations = .ok ltpb) :
    ∃ blocks,ltpb.updateAugmentedMetadata.augmentedMetadata = some blocks ∧ Consistent rows ltpb blocks := by
  have well := run_wellLocated ran
  have sorted := augmentedBlocks_sorted original well
  refine ⟨augmentedBlocks metadata ltpb.map,by simp [updateAugmentedMetadata,well.original],sorted,?_,?_,?_,?_⟩
  · intro b node member
    obtain ⟨block,found⟩ := augmentedBlocks_contains well member
    obtain ⟨augmented,_⟩ := augmentedBlocks_get original well found
    exact ⟨block,found,augmented.inside node member⟩
  · intro i block found
    exact (augmentedBlocks_get original well found).1.graphs
  · intro spec ranges sub
    exact ⟨_,makeScanSpecAndBlocks_ok spec (sorted.ordered.sublist sub)⟩
  · intro filter desired i block isDesired found skipped quad visible isWanted
    have known := (augmentedBlocks_get original well found).1.graphs
    rw [FilterDuplicatesAndGraphs.canBlockBeSkipped,isDesired] at skipped
    cases info : block.graphInfo with
    | none => simp [info] at skipped
    | some graphs =>
      simp only [info,all_eq_true,decide_eq_true_eq] at skipped
      apply skipped quad.graphId isWanted
      obtain ⟨fromRows,fromUpdates⟩ := known graphs info
      rcases visible with ⟨member,_⟩ | ⟨node,member,rfl,inserted⟩
      · exact fromRows quad member
      · exact fromUpdates node member inserted
/-- A deleted triple of the index and an inserted triple behind all blocks. -/
theorem augmentedMetadata_consistent_lastBlock :
    ∃ ltpb,run [⟨[],2,⟨1,1,1,0⟩,⟨2,2,2,0⟩,some [0],false,0⟩] Permutation.SPO.toKeyOrder
        [.add [⟨1,1,1,0⟩] false,.add [⟨3,3,3,5⟩] true] = .ok ltpb ∧
      ∃ blocks,ltpb.updateAugmentedMetadata.augmentedMetadata = some blocks ∧
        Consistent (fun i => if i = 0 then [⟨1,1,1,0⟩,⟨2,2,2,0⟩] else ([] : List (IdTriple (Fin 256)))) ltpb blocks := by
  have original : Original [⟨[],2,⟨1,1,1,0⟩,⟨2,2,2,0⟩,some [0],false,0⟩]
      (fun i => if i = 0 then [⟨1,1,1,0⟩,⟨2,2,2,0⟩] else ([] : List (IdTriple (Fin 256)))) :=
    .singleton ⟨by decide,by decide,by decide⟩ ⟨by decide,by rintro graphs ⟨⟩; decide⟩
  obtain ⟨ltpb,ran⟩ : ∃ ltpb,run [⟨[],2,⟨1,1,1,0⟩,⟨2,2,2,0⟩,some [0],false,0⟩] Permutation.SPO.toKeyOrder
      [.add [⟨1,1,1,0⟩] false,.add [(⟨3,3,3,5⟩ : IdTriple (Fin 256))] true] = .ok ltpb := ⟨_,rfl⟩
  exact ⟨ltpb,ran,augmentedMetadata_consistent original ran⟩

end LocatedTriplesPerBlock
end Qlever
