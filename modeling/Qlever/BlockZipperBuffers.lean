import Qlever.BlockZipperRows
import Qlever.Library.SortedPrefix

/-! The buffers of the block zipper: which blocks are added to a buffer, and what is
removed from it.
-/
namespace Qlever.BlockZipperJoin
open ZipperJoin Library List
variable {κ : Type}

open BlockAndSubrange

def rest (it : List (Block κ)) : List (Item κ) := items (it.map ofBlock)

def JoinSide.pending (side : JoinSide κ) : List (Item κ) := items side.currentBlocks ++ rest side.it

@[simp] theorem rest_nil : rest ([] : List (Block κ)) = [] := rfl

@[simp] theorem rest_cons (block : Block κ) (it : List (Block κ)) :
    rest (block::it) = (ofBlock block).items ++ rest it := rfl

@[simp] theorem rest_append (first second : List (Block κ)) : rest (first ++ second) = rest first ++ rest second := by
  simp [rest]

theorem iters_append (start : Nat) (first second : List κ) :
    iters start (first ++ second) = iters start first ++ iters (start + first.length) second := by
  simp [iters,zipIdx_append]

theorem items_cut (fullBlock start : Nat) (first second : List κ) :
    (⟨fullBlock,start,first ++ second⟩ : BlockAndSubrange κ).items =
      (⟨fullBlock,start,first⟩ : BlockAndSubrange κ).items ++
        (⟨fullBlock,start + first.length,second⟩ : BlockAndSubrange κ).items := by
  simp [BlockAndSubrange.items,subrange,iters_append]

theorem key_mem {block : BlockAndSubrange κ} {item : Item κ} (member : item ∈ block.items) : key item ∈ block.elements := by
  rw [← map_key_items block]
  exact mem_map_of_mem member

theorem exists_item (block : BlockAndSubrange κ) {element : κ} (member : element ∈ block.elements) :
    ∃ item ∈ block.items,key item = element := by
  rw [← map_key_items block] at member
  exact List.mem_map.mp member

def BlockAndSubrange.before (block : BlockAndSubrange κ) (p : κ → Bool) : BlockAndSubrange κ :=
  ⟨block.fullBlock,block.first,block.elements.takeWhile p⟩

def BlockAndSubrange.after (block : BlockAndSubrange κ) (p : κ → Bool) : BlockAndSubrange κ :=
  ⟨block.fullBlock,block.first + (block.elements.takeWhile p).length,block.elements.dropWhile p⟩

theorem items_cutAt (block : BlockAndSubrange κ) (p : κ → Bool)
    (closed : block.elements.Pairwise (fun x y => p y = true → p x = true)) :
    (block.before p).items = block.items.filter (fun item => p (key item)) ∧
      (block.after p).items = block.items.filter (fun item => !p (key item)) := by
  have cut : block.items = (block.before p).items ++ (block.after p).items := by
    rw [BlockAndSubrange.before,BlockAndSubrange.after,← items_cut,takeWhile_append_dropWhile]
  have passes : ∀ item ∈ (block.before p).items,p (key item) = true :=
    fun item member => mem_takeWhile_imp (key_mem member)
  have fails : ∀ item ∈ (block.after p).items,p (key item) = false := by
    intro item member
    have inside : key item ∈ block.elements.dropWhile p := key_mem member
    rw [dropWhile_eq_filter p _ closed,mem_filter] at inside
    simpa using inside.2
  rw [cut,filter_append,filter_append]
  have first : (block.before p).items.filter (fun item => p (key item)) = (block.before p).items :=
    filter_eq_self.mpr passes
  have second : (block.after p).items.filter (fun item => p (key item)) = [] := by
    rw [filter_eq_nil_iff]
    intro item member
    simp [fails item member]
  have third : (block.before p).items.filter (fun item => !p (key item)) = [] := by
    rw [filter_eq_nil_iff]
    intro item member
    simp [passes item member]
  have fourth : (block.after p).items.filter (fun item => !p (key item)) = (block.after p).items := by
    rw [filter_eq_self]
    intro item member
    simp [fails item member]
  simp [first,second,third,fourth]

section Sorted
variable [LinearOrder κ]

def SortedItems (its : List (Item κ)) : Prop := its.Pairwise (fun x y => key x ≤ key y)

theorem SortedItems.elements {block : BlockAndSubrange κ} (sorted : SortedItems block.items) :
    block.elements.Pairwise (· ≤ ·) := by
  rw [← map_key_items block]
  exact pairwise_map.mpr sorted

section
variable {first second : List (Item κ)} (sorted : SortedItems (first ++ second))
include sorted

theorem SortedItems.left : SortedItems first :=
  (pairwise_append.mp sorted).1

theorem SortedItems.right : SortedItems second :=
  (pairwise_append.mp sorted).2.1

theorem SortedItems.le {x y : Item κ}
    (hx : x ∈ first) (hy : y ∈ second) : key x ≤ key y :=
  (pairwise_append.mp sorted).2.2 x hx y hy

end

def starts (currentEl : κ) (block : Block κ) : Bool := block.elements.head? = some currentEl

def numEqual (currentEl : κ) (it : List (Block κ)) : Nat := (it.filter (starts currentEl)).length

def endsEqual (currentEl : κ) (it : List (Block κ)) : Bool := it.getLast?.any (starts currentEl)

theorem endsEqual_cons (currentEl : κ) (block : Block κ) {it : List (Block κ)} (nonempty : it ≠ []) :
    endsEqual currentEl (block::it) = endsEqual currentEl it := by
  cases it with
  | nil => exact absurd rfl nonempty
  | cons next it => simp [endsEqual]

/-- What a call of `fillFrom` has done: it added the blocks `taken`, at most `remaining` many. -/
structure Filled (currentEl : κ) (remaining : Nat) (it it' taken : List (Block κ)) (all : Bool) : Prop where
  suffix : it' <:+ it
  pending : rest it = rest taken ++ rest it'
  ids : (taken ++ it').Sublist it
  equal : ∀ block ∈ taken,starts currentEl block = true
  count : numEqual currentEl it = taken.length + numEqual currentEl it'
  atMost : taken.length ≤ remaining
  done : all = true → ∀ item ∈ rest it',currentEl < key item
  more : all = false → taken.length = remaining ∧ it' ≠ []
  full : all = true → taken.length = remaining → it' = []
  zero : remaining = 0 → it' = it
  endsMore : it' ≠ [] → endsEqual currentEl it = endsEqual currentEl it'
  endsFull : it' = [] → taken.length = remaining → 0 < remaining → endsEqual currentEl it = true

section Filled
variable {currentEl : κ} {remaining : Nat} {it it' taken : List (Block κ)} {all : Bool} {block : Block κ}

theorem Filled.taken_ne_nil (filled : Filled currentEl remaining it it' taken all) (some : taken ≠ []) : it ≠ [] := by
  intro none
  have sublist := filled.ids
  rw [none,sublist_nil] at sublist
  exact some (append_eq_nil_iff.mp sublist).1

theorem Filled.ne_nil (filled : Filled currentEl remaining it it' taken all) (some : it' ≠ []) : it ≠ [] := by
  intro none
  have suffix := filled.suffix
  rw [none,suffix_nil] at suffix
  exact some suffix

theorem Filled.skip (filled : Filled currentEl (remaining + 1) it it' taken all) (empty : block.elements = []) :
    Filled currentEl (remaining + 1) (block::it) it' taken all where
  suffix := filled.suffix.trans (suffix_cons block it)
  pending := by simp [filled.pending,ofBlock,BlockAndSubrange.items,subrange,iters,empty]
  ids := filled.ids.trans (sublist_cons_self block it)
  equal := filled.equal
  count := by rw [← filled.count]; simp [numEqual,starts,empty]
  atMost := filled.atMost
  done := filled.done
  more := filled.more
  full := filled.full
  zero := by simp
  endsMore some := by rw [endsEqual_cons currentEl block (filled.ne_nil some),filled.endsMore some]
  endsFull none length positive := by
    have some : taken ≠ [] := by
      intro nil
      simp [nil] at length
    rw [endsEqual_cons currentEl block (filled.taken_ne_nil some),filled.endsFull none length positive]

theorem Filled.take (filled : Filled currentEl remaining it it' taken all) (first : starts currentEl block = true) :
    Filled currentEl (remaining + 1) (block::it) it' (block::taken) all where
  suffix := filled.suffix.trans (suffix_cons block it)
  pending := by simp [filled.pending]
  ids := filled.ids.cons_cons block
  equal := by
    intro other member
    rcases mem_cons.mp member with rfl | later
    · exact first
    · exact filled.equal other later
  count := by
    have counted := filled.count
    simp only [numEqual,filter_cons,first,if_true,length_cons] at counted ⊢
    omega
  atMost := by simpa using filled.atMost
  done := filled.done
  more no := by simpa using filled.more no
  full yes length := filled.full yes (by simpa using length)
  zero := by simp
  endsMore some := by rw [endsEqual_cons currentEl block (filled.ne_nil some),filled.endsMore some]
  endsFull none length positive := by
    cases remaining with
    | zero =>
      have same := filled.zero rfl
      rw [none] at same
      simp [endsEqual,← same,first]
    | succ remaining =>
      have length' : taken.length = remaining + 1 := by simpa using length
      have some : taken ≠ [] := by
        intro nil
        simp [nil] at length'
      rw [endsEqual_cons currentEl block (filled.taken_ne_nil some),filled.endsFull none length' (Nat.succ_pos remaining)]

theorem Filled.stop (above : ∀ item ∈ rest (block::it),currentEl < key item) :
    Filled currentEl (remaining + 1) (block::it) (block::it) [] true := by
  constructor <;> simp_all

end Filled

theorem fillFrom_filled (currentEl : κ) (remaining : Nat) (it : List (Block κ)) (currentBlocks : List (BlockAndSubrange κ))
    (sorted : SortedItems (rest it)) (least : ∀ item ∈ rest it,currentEl ≤ key item) :
    ∃ it' taken all,fillFrom currentEl remaining it currentBlocks =
      .ok (it',currentBlocks ++ taken.map ofBlock,all) ∧ Filled currentEl remaining it it' taken all := by
  induction it generalizing remaining currentBlocks with
  | nil =>
    refine ⟨[],[],true,by simp [fillFrom],?_⟩
    constructor <;> simp [numEqual]
    omega
  | cons block it ih =>
    rw [rest_cons] at sorted least
    have blockSorted : block.elements.Pairwise (· ≤ ·) := sorted.left.elements
    have leastRest : ∀ item ∈ rest it,currentEl ≤ key item := fun item member => least item (mem_append_right _ member)
    cases remaining with
    | zero =>
      refine ⟨block::it,[],false,by simp [fillFrom],?_⟩
      constructor <;> simp
    | succ remaining =>
      cases elements : block.elements with
      | nil =>
        obtain ⟨it',taken,all,run,filled⟩ := ih (remaining + 1) currentBlocks sorted.right leastRest
        refine ⟨it',taken,all,?_,filled.skip elements⟩
        rw [fillFrom,elements]
        exact run
      | cons first tail =>
        by_cases same : first = currentEl
        · obtain ⟨it',taken,all,run,filled⟩ := ih remaining (currentBlocks ++ [ofBlock block])
            sorted.right leastRest
          refine ⟨it',block::taken,all,?_,filled.take (by simp [starts,elements,same])⟩
          rw [elements] at blockSorted
          rw [fillFrom,elements]
          simp only [same,if_true,check]
          rw [same] at blockSorted
          simp only [blockSorted,decide_true,if_true]
          simpa [bind,Except.bind] using run
        · obtain ⟨item,inside,itemKey⟩ := exists_item (ofBlock block)
            (show first ∈ _ by simp [ofBlock,elements])
          have above : currentEl < first := by
            apply lt_of_le_of_ne _ (Ne.symm same)
            rw [← itemKey]
            exact least item (mem_append_left _ inside)
          refine ⟨block::it,[],true,?_,Filled.stop ?_⟩
          · rw [fillFrom,elements]
            simp [same,check,above,bind,Except.bind,pure,Except.pure]
          · intro other member
            apply lt_of_lt_of_le above
            rw [rest_cons] at member
            rcases mem_append.mp member with here | later
            · have inElements := key_mem here
              have sortedElements : (first::tail).Pairwise (· ≤ ·) := elements ▸ blockSorted
              simp only [ofBlock,elements] at inElements
              rcases mem_cons.mp inElements with equal | tailMember
              · exact equal.ge
              · exact (pairwise_cons.mp sortedElements).1 _ tailMember
            · rw [← itemKey]
              exact sorted.le inside later

/-- A buffer whose elements are not smaller than the current element, where every block but
the first one starts with the current element. -/
structure Chunk (currentEl : κ) (blocks : List (BlockAndSubrange κ)) : Prop where
  nonempty : ∀ block ∈ blocks,block.elements ≠ []
  sorted : SortedItems (items blocks)
  least : ∀ item ∈ items blocks,currentEl ≤ key item
  later : ∀ block ∈ blocks.tail,block.elements.head? = some currentEl

section Chunk
variable {currentEl : κ} {blocks : List (BlockAndSubrange κ)}

theorem Chunk.equal_of_init {init : List (BlockAndSubrange κ)} {last : BlockAndSubrange κ}
    (chunk : Chunk currentEl (init ++ [last])) {item : Item κ} (member : item ∈ items init) : key item = currentEl := by
  have isLater : last ∈ (init ++ [last]).tail := by
    cases init with
    | nil => simp at member
    | cons first init => simp
  have head := chunk.later last isLater
  obtain ⟨other,inside,otherKey⟩ := exists_item last (mem_of_mem_head? head)
  apply le_antisymm
  · rw [← otherKey]
    have sorted := chunk.sorted
    rw [items_append] at sorted
    exact sorted.le member (by simpa using inside)
  · exact chunk.least item (by simp [member])

theorem equalRange_items (block : BlockAndSubrange κ) (sorted : SortedItems block.items) :
    (block.equalRange currentEl).items = block.items.filter (fun item => key item = currentEl) := by
  have above := (items_cutAt block (fun element => element < currentEl) (closed_lt id currentEl sorted.elements)).2
  have sortedAbove : (block.elements.dropWhile (fun element => element < currentEl)).Pairwise (· ≤ ·) :=
    sorted.elements.sublist (dropWhile_sublist _)
  have equal := (items_cutAt (block.after (fun element => element < currentEl)) (fun element => element ≤ currentEl)
    (closed_le id currentEl sortedAbove)).1
  rw [above,filter_filter] at equal
  apply equal.trans
  apply filter_congr
  intro item _
  rw [Bool.eq_iff_iff]
  simpa using le_antisymm_iff.symm

theorem getEqualToCurrentEl_items (chunk : Chunk currentEl blocks) :
    items (getEqualToCurrentEl blocks currentEl) = (items blocks).filter (fun item => key item = currentEl) := by
  rcases eq_nil_or_concat' blocks with rfl | ⟨init,last,rfl⟩
  · rfl
  · have sorted := chunk.sorted
    rw [items_append] at sorted
    have same : (items init).filter (fun item => decide (key item = currentEl)) = items init := by
      rw [filter_eq_self]
      intro item member
      simpa using chunk.equal_of_init member
    simp [getEqualToCurrentEl,same,equalRange_items last (by simpa using sorted.right)]

theorem getEqualToCurrentEl_isEmpty : (getEqualToCurrentEl blocks currentEl).isEmpty = blocks.isEmpty := by
  rcases eq_nil_or_concat' blocks with rfl | ⟨init,last,rfl⟩
  · rfl
  · have some : ∀ block : BlockAndSubrange κ,(init ++ [block]).isEmpty = false := by simp
    simp [getEqualToCurrentEl,some]

theorem removeEqualToCurrentEl_spec (chunk : Chunk currentEl blocks) (some : blocks ≠ []) :
    ∃ blocks',removeEqualToCurrentEl blocks currentEl = .ok blocks' ∧
      items blocks' = (items blocks).filter (fun item => currentEl < key item) ∧ blocks'.length ≤ 1 ∧
      (∀ block ∈ blocks',block.elements ≠ []) ∧ (blocks'.map (·.fullBlock)).Sublist (blocks.map (·.fullBlock)) := by
  rcases eq_nil_or_concat' blocks with rfl | ⟨init,last,rfl⟩
  · exact absurd rfl some
  have sorted := chunk.sorted
  rw [items_append] at sorted
  have sortedLast : last.elements.Pairwise (· ≤ ·) := by
    have lastItems : SortedItems last.items := by simpa using sorted.right
    exact lastItems.elements
  have above := (items_cutAt last (fun element => element ≤ currentEl) (closed_le id currentEl sortedLast)).2
  have aboveItems : (last.after (fun element => element ≤ currentEl)).items =
      (items (init ++ [last])).filter (fun item => currentEl < key item) := by
    have none : (items init).filter (fun item => decide (currentEl < key item)) = [] := by
      rw [filter_eq_nil_iff]
      intro item member
      simp [chunk.equal_of_init member]
    rw [above,items_append,filter_append,none,nil_append]
    simp [← not_le]
  have ids : [last.fullBlock].Sublist ((init ++ [last]).map (·.fullBlock)) := by simp
  refine ⟨if (last.after (fun element => element ≤ currentEl)).elements.isEmpty then [] else
    [last.after (fun element => element ≤ currentEl)],?_,?_,?_,?_,?_⟩
  · cases init with
    | nil => simp [removeEqualToCurrentEl,BlockAndSubrange.after,pure,Except.pure]
    | cons front init =>
      have frontSome := chunk.nonempty front (by simp)
      have notEmpty : front.empty = false := by simpa [BlockAndSubrange.empty] using frontSome
      obtain ⟨item,inside,itemKey⟩ := exists_item front (getLast_mem frontSome)
      have equal := chunk.equal_of_init (show item ∈ items (front::init) by simp [inside])
      rw [itemKey] at equal
      have back : front.back = .ok currentEl := by
        simp [BlockAndSubrange.back,getLast?_eq_some_getLast frontSome,equal]
      have final : (front::(init ++ [last])).getLast? = Option.some last := by
        rw [← cons_append]
        exact getLast?_concat
      simp [removeEqualToCurrentEl,BlockAndSubrange.after,final,notEmpty,back,check,bind,Except.bind,pure,Except.pure]
  · rw [← aboveItems]
    split
    next empty =>
      have none : (last.after (fun element => element ≤ currentEl)).elements = [] := List.isEmpty_iff.mp empty
      simp [BlockAndSubrange.items,subrange,none,iters]
    next => simp
  · split <;> simp
  · intro block member
    split at member
    next => simp at member
    next some =>
      rw [mem_singleton.mp member]
      simpa using some
  · split
    next => simp
    next => exact ids

end Chunk

/-- A side whose smaller elements are joined. If `all` is set, then all blocks with elements
that are equal to the current element are in the buffer. -/
structure Ready (currentEl : κ) (side : JoinSide κ) (all : Bool) : Prop where
  chunk : Chunk currentEl side.currentBlocks
  sorted : SortedItems side.pending
  least : ∀ item ∈ rest side.it,currentEl ≤ key item
  done : all = true → ∀ item ∈ rest side.it,currentEl < key item
  more : all = false → side.it ≠ []

def JoinSide.ids (side : JoinSide κ) : List Nat := side.currentBlocks.map (·.fullBlock) ++ side.it.map (·.id)

structure Advanced (side side' : JoinSide κ) : Prop where
  undefBlocks : side'.undefBlocks = side.undefBlocks
  suffix : side'.it <:+ side.it
  ids : side'.ids.Sublist side.ids

section
omit [LinearOrder κ]

theorem Advanced.refl (side : JoinSide κ) : Advanced side side := ⟨rfl,suffix_rfl,List.Sublist.refl _⟩

theorem Advanced.trans {first second third : JoinSide κ} (one : Advanced first second) (two : Advanced second third) :
    Advanced first third :=
  ⟨two.undefBlocks.trans one.undefBlocks,two.suffix.trans one.suffix,two.ids.trans one.ids⟩

end

section Next
variable {currentEl : κ} {side : JoinSide κ}

theorem filter_equal_append_filter_lt {its : List (Item κ)} (sorted : SortedItems its)
    (least : ∀ item ∈ its,currentEl ≤ key item) :
    its.filter (fun item => key item = currentEl) ++ its.filter (fun item => currentEl < key item) = its := by
  have cut := filter_le_append_filter_lt key currentEl sorted
  have same : its.filter (fun item => decide (key item ≤ currentEl)) = its.filter (fun item => decide (key item = currentEl)) := by
    apply filter_congr
    intro item member
    rw [Bool.eq_iff_iff]
    simp only [decide_eq_true_eq]
    exact ⟨fun atMost => le_antisymm atMost (least item member),fun equal => equal.le⟩
  rwa [same] at cut

/-- A side after a call of `fillEqualToCurrentEl` for a buffer of larger elements, or for a full buffer. -/
theorem fillEqualToCurrentEl_spec (currentBlocks : List (BlockAndSubrange κ)) (it : List (Block κ))
    (undefBlocks : List (BlockAndSubrange κ)) (sorted : SortedItems (items currentBlocks ++ rest it))
    (least : ∀ item ∈ rest it,currentEl ≤ key item) :
    ∃ it' taken all,fillEqualToCurrentEl ⟨it,currentBlocks,undefBlocks⟩ currentEl =
        .ok (⟨it',currentBlocks ++ taken.map ofBlock,undefBlocks⟩,all) ∧
      Filled currentEl fetchBlocks it it' taken all := by
  obtain ⟨it',taken,all,run,filled⟩ := fillFrom_filled currentEl fetchBlocks it currentBlocks sorted.right least
  refine ⟨it',taken,all,?_,filled⟩
  simp [fillEqualToCurrentEl,run,bind,Except.bind,pure,Except.pure]

omit [LinearOrder κ] in
theorem items_taken (taken : List (Block κ)) : items (taken.map ofBlock) = rest taken := rfl

/-- What `getNextBlocks` does to a side. The blocks `taken` are added to the buffer. -/
structure Next (currentEl : κ) (side side' : JoinSide κ) (taken : List (Block κ)) (all : Bool) : Prop where
  ready : Ready currentEl side' all
  advanced : Advanced side side'
  filled : Filled currentEl fetchBlocks side.it side'.it taken all
  current : items side'.currentBlocks = (items side.currentBlocks).filter (fun item => currentEl < key item) ++ rest taken
  some : all = false → side'.currentBlocks ≠ []

variable {taken : List (Block κ)} {all : Bool}

theorem Next.pending {side' : JoinSide κ} (ready : Ready currentEl side false)
    (next : Next currentEl side side' taken all) :
    side.pending = (items side.currentBlocks).filter (fun item => key item = currentEl) ++ side'.pending := by
  have cut := filter_equal_append_filter_lt ready.chunk.sorted ready.chunk.least
  calc side.pending = items side.currentBlocks ++ (rest taken ++ rest side'.it) := by
        rw [JoinSide.pending,next.filled.pending]
    _ = _ := by
        nth_rewrite 1 [← cut]
        rw [JoinSide.pending,next.current]
        simp only [append_assoc]

variable {current : List (BlockAndSubrange κ)}

theorem Filled.chunk {remaining : Nat} {it it' : List (Block κ)}     (filled : Filled currentEl remaining it it' taken all) (sorted : SortedItems (items current ++ rest it))
    (nonempty : ∀ block ∈ current,block.elements ≠ []) (least : ∀ item ∈ items current ++ rest it,currentEl ≤ key item)
    (later : ∀ block ∈ current.tail,block.elements.head? = some currentEl) :
    Chunk currentEl (current ++ taken.map ofBlock) := by
  have equal : ∀ block ∈ taken.map ofBlock,block.elements.head? = some currentEl := by
    intro block member
    obtain ⟨original,inside,rfl⟩ := List.mem_map.mp member
    simpa [starts,ofBlock] using filled.equal original inside
  rw [filled.pending,← append_assoc] at sorted least
  constructor
  · intro block member
    rcases mem_append.mp member with old | new
    · exact nonempty block old
    · intro none
      simpa [none] using equal block new
  · rw [items_append]
    exact sorted.left
  · intro item member
    rw [items_append] at member
    exact least item (mem_append_left _ member)
  · intro block member
    cases current with
    | nil => exact equal block (mem_of_mem_tail member)
    | cons first current =>
      rcases mem_append.mp member with old | new
      · exact later block old
      · exact equal block new

theorem Filled.ready {it it' : List (Block κ)} {undefBlocks : List (BlockAndSubrange κ)}
    (filled : Filled currentEl fetchBlocks it it' taken all) (sorted : SortedItems (items current ++ rest it))
    (chunk : Chunk currentEl (current ++ taken.map ofBlock))
    (least : ∀ item ∈ rest it,currentEl ≤ key item) :
    Ready currentEl ⟨it',current ++ taken.map ofBlock,undefBlocks⟩ all where
  chunk := chunk
  sorted := by
    rw [JoinSide.pending,items_append,items_taken,append_assoc,← filled.pending]
    exact sorted
  least item member := least item (by rw [filled.pending]; exact mem_append_right _ member)
  done := filled.done
  more no := (filled.more no).2

omit [LinearOrder κ] in
theorem ids_ofBlock (taken : List (Block κ)) :
    (taken.map ofBlock).map (·.fullBlock) = taken.map (·.id) := by
  simp [ofBlock,Function.comp_def]

theorem Filled.advanced {remaining : Nat} {it it' : List (Block κ)}
    {current' undefBlocks : List (BlockAndSubrange κ)} (filled : Filled currentEl remaining it it' taken all)
    (ids : (current'.map (·.fullBlock)).Sublist (current.map (·.fullBlock))) :
    Advanced ⟨it,current,undefBlocks⟩ ⟨it',current' ++ taken.map ofBlock,undefBlocks⟩ where
  undefBlocks := rfl
  suffix := filled.suffix
  ids := by
    simp only [JoinSide.ids,map_append,ids_ofBlock,append_assoc]
    rw [← map_append (f := Block.id)]
    exact ids.append (filled.ids.map _)

theorem getNextBlocks_spec (ready : Ready currentEl side false) (some : side.currentBlocks ≠ []) :
    ∃ side' taken all,getNextBlocks side currentEl = .ok (side',getEqualToCurrentEl side'.currentBlocks currentEl,all) ∧
      Next currentEl side side' taken all := by
  obtain ⟨it,currentBlocks,undefBlocks⟩ := side
  obtain ⟨current',removed,current'Items,current'Length,current'Some,current'Ids⟩ :=
    removeEqualToCurrentEl_spec ready.chunk some
  have sublist : (items current' ++ rest it).Sublist (items currentBlocks ++ rest it) := by
    rw [current'Items]
    exact filter_sublist.append_right _
  have sorted : SortedItems (items current' ++ rest it) := ready.sorted.sublist sublist
  obtain ⟨it',taken,all,fill,filled⟩ := fillEqualToCurrentEl_spec current' it undefBlocks sorted ready.least
  have least : ∀ item ∈ items current' ++ rest it,currentEl ≤ key item := by
    intro item member
    rcases mem_append.mp (sublist.subset member) with old | new
    · exact ready.chunk.least item old
    · exact ready.least item new
  have tailNil : current'.tail = [] := by
    rw [← length_eq_zero_iff,length_tail]
    omega
  have chunk := filled.chunk sorted current'Some least (by simp [tailNil])
  have notEmpty : all = false → current' ++ taken.map ofBlock ≠ [] := by
    intro no nil
    have length := (filled.more no).1
    simp [map_eq_nil_iff.mp (append_eq_nil_iff.mp nil).2,fetchBlocks] at length
  have passes : (!(current' ++ taken.map ofBlock).isEmpty || all) = true := by
    cases all with
    | true => simp
    | false => simpa using notEmpty rfl
  refine ⟨⟨it',current' ++ taken.map ofBlock,undefBlocks⟩,taken,all,?_,?_⟩
  · simp [getNextBlocks,removed,fill,passes,check,bind,Except.bind,pure,Except.pure]
  · constructor
    · exact filled.ready sorted chunk ready.least
    · exact filled.advanced current'Ids
    · exact filled
    · rw [items_append,items_taken,current'Items]
    · exact notEmpty

end Next

end Sorted
end Qlever.BlockZipperJoin
