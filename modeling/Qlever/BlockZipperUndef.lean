import Qlever.BlockJoin

/-! The block zipper with UNDEF values. The UNDEF rows at the start of the inputs are split off
before the first round, and they are joined with all rows of the other side. An empty block ends
the search for UNDEF rows.
-/
namespace Qlever.BlockZipperJoin
open ZipperJoin Library List BlockAndSubrange
variable {κ : Type} [LinearOrder κ]

section Extraction
variable [OrderBot κ]

/-- The instance for `Id`s, where UNDEF is the smallest value. -/
def undefConfig : Config κ := ⟨some (fun element => element = ⊥),false⟩

@[simp] theorem isUndef_undefConfig (element : κ) : undefConfig.isUndef element = decide (element = ⊥) := rfl

theorem undefConfig_lawful : (undefConfig : Config κ).Lawful := by
  intro undef element isUndef isDefined
  simp only [isUndef_undefConfig,decide_eq_true_eq,decide_eq_false_iff_not] at isUndef isDefined
  rw [isUndef]
  exact bot_lt_iff_ne_bot.mpr isDefined

structure Extracted (it it' : List (Block κ)) (undefBlocks current : List (BlockAndSubrange κ)) : Prop where
  pending : items undefBlocks ++ (items current ++ rest it') = rest it
  undefs : Undefs undefConfig undefBlocks
  length : current.length ≤ 1
  nonempty : ∀ block ∈ current,block.elements ≠ []
  suffix : it' <:+ it
  ids : (current.map (·.fullBlock) ++ it'.map (·.id)).Sublist (it.map (·.id))

theorem Extracted.cons {block : Block κ} {it it' : List (Block κ)} {undefBlocks current : List (BlockAndSubrange κ)}
    (extracted : Extracted it it' undefBlocks current) (nonempty : block.elements ≠ [])
    (undef : ∀ element ∈ block.elements,element = ⊥) :
    Extracted (block::it) it' (ofBlock block::undefBlocks) current where
  pending := by rw [items_cons,append_assoc,extracted.pending,rest_cons]
  undefs := by
    constructor
    · intro other member
      rcases mem_cons.mp member with rfl | later
      · exact nonempty
      · exact extracted.undefs.nonempty other later
    · intro other member
      rcases mem_cons.mp member with rfl | later
      · intro element inside
        simpa using undef element inside
      · exact extracted.undefs.undef other later
  length := extracted.length
  nonempty := extracted.nonempty
  suffix := extracted.suffix.trans (suffix_cons block it)
  ids := extracted.ids.trans (sublist_cons_self _ _)

variable (it : List (Block κ))

theorem Extracted.stop : Extracted it it [] [] where
  pending := rfl
  undefs := ⟨by simp,by simp⟩
  length := by simp
  nonempty := by simp
  suffix := suffix_rfl
  ids := by simp

theorem equalRange_bot (block : Block κ) :
    (ofBlock block).equalRange ⊥ = ⟨block.id,0,block.elements.takeWhile (fun element => element ≤ ⊥)⟩ := by
  have none : block.elements.takeWhile (fun element => element < ⊥) = [] := by
    simp [takeWhile_eq_nil_iff]
  have whole : block.elements.dropWhile (fun element => element < ⊥) = block.elements := by
    have cut := takeWhile_append_dropWhile (p := fun element : κ => decide (element < ⊥)) (l := block.elements)
    rwa [none,nil_append] at cut
  simp only [BlockAndSubrange.equalRange,ofBlock,none,whole]
  rfl

theorem drop_takeWhile_bot (elements : List κ) :
    elements.drop (elements.takeWhile (fun element => element ≤ ⊥)).length = elements.dropWhile (fun element => element ≤ ⊥) := by
  have cut := takeWhile_append_dropWhile (p := fun element : κ => decide (element ≤ ⊥)) (l := elements)
  calc _ = drop (elements.takeWhile (fun element => element ≤ ⊥)).length
        (elements.takeWhile (fun element => element ≤ ⊥) ++ elements.dropWhile (fun element => element ≤ ⊥)) := by rw [cut]
    _ = _ := drop_left

theorem Extracted.split (block : Block κ) (it : List (Block κ))
    (front : block.elements.head? = some ⊥) (last : ∃ element ∈ block.elements,element ≠ ⊥) :
    Extracted (block::it) it [(ofBlock block).equalRange ⊥]
      [⟨block.id,((ofBlock block).equalRange ⊥).elements.length,
        block.elements.drop ((ofBlock block).equalRange ⊥).elements.length⟩] := by
  have cut := takeWhile_append_dropWhile (p := fun element : κ => decide (element ≤ ⊥)) (l := block.elements)
  rw [equalRange_bot,drop_takeWhile_bot]
  constructor
  · have both := items_cut block.id 0 (block.elements.takeWhile (fun element => element ≤ ⊥))
      (block.elements.dropWhile (fun element => element ≤ ⊥))
    rw [cut,Nat.zero_add] at both
    rw [rest_cons,ofBlock,both]
    simp
  · constructor
    · intro other member
      rw [mem_singleton.mp member]
      obtain ⟨first,tail,elements⟩ := exists_cons_of_ne_nil (ne_nil_of_mem (mem_of_mem_head? front))
      rw [elements,head?_cons,Option.some_inj] at front
      simp [elements,front]
    · intro other member element inside
      rw [mem_singleton.mp member] at inside
      have below := mem_takeWhile_imp inside
      simpa using below
  · simp
  · intro other member
    rw [mem_singleton.mp member]
    obtain ⟨element,inside,defined⟩ := last
    rw [← cut,mem_append] at inside
    rcases inside with undef | later
    · have below := mem_takeWhile_imp undef
      exact absurd (by simpa using below) defined
    · exact ne_nil_of_mem later
  · exact suffix_cons block it
  · simp

theorem findFirstBlockWithoutUndefFrom_spec (found : List (BlockAndSubrange κ)) (sorted : SortedItems (rest it)) :
    ∃ it' undefBlocks current,findFirstBlockWithoutUndefFrom undefConfig it found = (it',found ++ undefBlocks,current) ∧
      Extracted it it' undefBlocks current := by
  induction it generalizing found with
  | nil => exact ⟨[],[],[],by simp [findFirstBlockWithoutUndefFrom],Extracted.stop []⟩
  | cons block it ih =>
    rw [rest_cons] at sorted
    have blockSorted : block.elements.Pairwise (· ≤ ·) := sorted.left.elements
    cases elements : block.elements with
    | nil => exact ⟨block::it,[],[],by simp [findFirstBlockWithoutUndefFrom,elements],Extracted.stop _⟩
    | cons front tail =>
      by_cases undef : front = ⊥
      · subst undef
        by_cases all : (⊥::tail).getLast (cons_ne_nil ⊥ tail) = ⊥
        · obtain ⟨it',undefBlocks,current,run,extracted⟩ := ih (found ++ [ofBlock block]) sorted.right
          refine ⟨it',ofBlock block::undefBlocks,current,?_,extracted.cons (by simp [elements]) ?_⟩
          · simp [findFirstBlockWithoutUndefFrom,elements,all,run]
          · intro element member
            rw [elements] at member blockSorted
            have below : element ≤ ⊥ := by
              rw [← all]
              exact blockSorted.rel_getLast member
            exact le_bot_iff.mp below
        · refine ⟨it,_,_,?_,Extracted.split block it (by simp [elements])
            ⟨_,by rw [elements]; exact getLast_mem (cons_ne_nil ⊥ tail),all⟩⟩
          simp [findFirstBlockWithoutUndefFrom,elements,all]
      · exact ⟨block::it,[],[],by simp [findFirstBlockWithoutUndefFrom,elements,undef],Extracted.stop _⟩

omit [OrderBot κ] [LinearOrder κ] in
theorem exists_rest_iff (value : κ) :
    (∃ item ∈ rest it,key item = value) ↔ value ∈ (it.map (·.elements)).flatten := by
  induction it with
  | nil => simp
  | cons block it ih =>
    rw [rest_cons,map_cons,flatten_cons,mem_append,← ih]
    simp only [mem_append,or_and_right,exists_or]
    apply or_congr_left
    rw [← List.mem_map,map_key_items]
    rfl

theorem findFirstBlockWithoutUndefFrom_hidden (found : List (BlockAndSubrange κ)) (sorted : SortedItems (rest it)) :
    let (it',_,current) := findFirstBlockWithoutUndefFrom undefConfig it found
    (∃ item ∈ items current ++ rest it',key item = ⊥) ↔
      ⊥ ∈ ((it.map (·.elements)).dropWhile (fun elements => !elements.isEmpty)).flatten := by
  induction it generalizing found with
  | nil => simp [findFirstBlockWithoutUndefFrom]
  | cons block it ih =>
    have above : ∀ element ∈ block.elements,element ≠ ⊥ → ∀ item ∈ rest it,key item ≠ ⊥ := by
      intro element member defined item inside undef
      rw [rest_cons] at sorted
      obtain ⟨first,firstInside,rfl⟩ := exists_item (ofBlock block) member
      exact defined (le_bot_iff.mp (undef ▸ sorted.le firstInside inside))
    have noneLater : ∀ element ∈ block.elements,element ≠ ⊥ →
        ⊥ ∉ ((it.map (·.elements)).dropWhile (fun elements => !elements.isEmpty)).flatten := by
      intro element member defined undef
      obtain ⟨elements,later,present⟩ := mem_flatten.mp undef
      obtain ⟨item,inside,equal⟩ := (exists_rest_iff it ⊥).mpr
        (mem_flatten.mpr ⟨elements,(dropWhile_sublist _).subset later,present⟩)
      exact above element member defined item inside equal
    have blockSorted : block.elements.Pairwise (· ≤ ·) := by
      rw [rest_cons] at sorted
      exact sorted.left.elements
    cases elements : block.elements with
    | nil =>
      simp only [findFirstBlockWithoutUndefFrom,elements,items_nil,nil_append]
      rw [exists_rest_iff]
      simp [elements]
    | cons front tail =>
      have passed : (((block::it).map (·.elements)).dropWhile (fun elements => !elements.isEmpty)) =
          (it.map (·.elements)).dropWhile (fun elements => !elements.isEmpty) := by simp [elements]
      rw [passed]
      by_cases undef : front = ⊥
      · subst undef
        by_cases all : (⊥::tail).getLast (cons_ne_nil ⊥ tail) = ⊥
        · have later := ih (found ++ [ofBlock block]) (by rw [rest_cons] at sorted; exact sorted.right)
          simpa [findFirstBlockWithoutUndefFrom,elements,all] using later
        · have member : (⊥::tail).getLast (cons_ne_nil ⊥ tail) ∈ block.elements := by
            rw [elements]
            exact getLast_mem _
          have run : findFirstBlockWithoutUndefFrom undefConfig (block::it) found =
              (it,found ++ [(ofBlock block).equalRange ⊥],
                [⟨block.id,((ofBlock block).equalRange ⊥).elements.length,
                  block.elements.drop ((ofBlock block).equalRange ⊥).elements.length⟩]) := by
            simp [findFirstBlockWithoutUndefFrom,elements,all]
          rw [run,equalRange_bot,drop_takeWhile_bot]
          apply iff_of_false _ (noneLater _ member all)
          rintro ⟨item,inside,equal⟩
          rcases mem_append.mp inside with current | later
          · have remaining : key item ∈ block.elements.dropWhile (fun element => element ≤ ⊥) := by
              rw [items_cons,items_nil,append_nil] at current
              exact key_mem current
            have filtered := dropWhile_le id ⊥ blockSorted
            simp only [id] at filtered
            rw [filtered,mem_filter,equal] at remaining
            simp at remaining
          · exact above _ member all item later equal
      · have member : front ∈ block.elements := by simp [elements]
        have run : findFirstBlockWithoutUndefFrom undefConfig (block::it) found = (block::it,found,[]) := by
          simp [findFirstBlockWithoutUndefFrom,elements,undef]
        rw [run]
        apply iff_of_false _ (noneLater front member undef)
        rintro ⟨item,inside,equal⟩
        rw [items_nil,nil_append,rest_cons] at inside
        rcases mem_append.mp inside with current | later
        · have atLeast : front ≤ key item := by
            have present : key item ∈ front::tail := elements ▸ key_mem current
            rw [elements] at blockSorted
            rcases mem_cons.mp present with same | after
            · exact same.ge
            · exact (pairwise_cons.mp blockSorted).1 _ after
          exact undef (le_bot_iff.mp (equal ▸ atLeast))
        · exact above front member undef item later equal

theorem findFirstBlockWithoutUndefFrom_none (sorted : SortedItems (rest it)) :
    (findFirstBlockWithoutUndefFrom undefConfig it []).2.1 = [] ↔ (it.head?.bind (·.elements.head?)) ≠ some ⊥ := by
  cases it with
  | nil => simp [findFirstBlockWithoutUndefFrom]
  | cons block it =>
    cases elements : block.elements with
    | nil => simp [findFirstBlockWithoutUndefFrom,elements]
    | cons front tail =>
      by_cases undef : front = ⊥
      · subst undef
        by_cases all : (⊥::tail).getLast (cons_ne_nil ⊥ tail) = ⊥
        · rw [rest_cons] at sorted
          obtain ⟨it',undefBlocks,current,run,_⟩ := findFirstBlockWithoutUndefFrom_spec it [ofBlock block] sorted.right
          simp [findFirstBlockWithoutUndefFrom,elements,all,run]
        · simp [findFirstBlockWithoutUndefFrom,elements,all]
      · simp [findFirstBlockWithoutUndefFrom,elements,undef]

end Extraction

section Start
variable [OrderBot κ]

def HiddenUndef (blocks : List (List κ)) : Prop := ⊥ ∈ (blocks.dropWhile (fun block => !block.isEmpty)).flatten

def StartsWithUndef (blocks : List (List κ)) : Prop := blocks.head?.bind (·.head?) = some ⊥

def OnlyUndef (blocks : List (List κ)) : Prop := ∀ element ∈ blocks.flatten,element = ⊥

instance (blocks : List (List κ)) : Decidable (HiddenUndef blocks) := inferInstanceAs (Decidable (⊥ ∈ flatten _))

instance (blocks : List (List κ)) : Decidable (StartsWithUndef blocks) := inferInstanceAs (Decidable (_ = some ⊥))

instance (blocks : List (List κ)) : Decidable (OnlyUndef blocks) := inferInstanceAs (Decidable (∀ element ∈ _,_))

/-- One side of the join after `fetchAndProcessUndefinedBlocks`. -/
structure Start (blocks : List (List κ)) (side : JoinSide κ) : Prop where
  rows : items side.undefBlocks ++ side.pending = inputItems blocks
  sorted : SortedItems side.pending
  length : side.currentBlocks.length ≤ 1
  nonempty : ∀ block ∈ side.currentBlocks,block.elements ≠ []
  undefs : Undefs undefConfig side.undefBlocks
  ids : side.ids.Nodup
  ends : EndsAt (blocks.length - 1) side
  hidden : (∃ item ∈ side.pending,key item = ⊥) ↔ HiddenUndef blocks
  unsplit : side.undefBlocks = [] ↔ ¬ StartsWithUndef blocks

theorem findFirstBlockWithoutUndef_start {blocks : List (List κ)} (sorted : blocks.flatten.Pairwise (· ≤ ·)) :
    Start blocks (findFirstBlockWithoutUndef undefConfig (makeJoinSide blocks)) := by
  have items_eq : rest (makeJoinSide blocks).it = inputItems blocks := by simp [inputItems,JoinSide.pending,makeJoinSide]
  have elements : (makeJoinSide blocks).it.map (·.elements) = blocks := by simp [makeJoinSide,Function.comp_def]
  have sortedItems : SortedItems (rest (makeJoinSide blocks).it) := items_eq ▸ sorted_inputItems sorted
  obtain ⟨it',undefBlocks,current,run,extracted⟩ := findFirstBlockWithoutUndefFrom_spec _ [] sortedItems
  have hidden := findFirstBlockWithoutUndefFrom_hidden _ [] sortedItems
  have none := findFirstBlockWithoutUndefFrom_none _ sortedItems
  have side : findFirstBlockWithoutUndef undefConfig (makeJoinSide blocks) = ⟨it',current,undefBlocks⟩ := by
    have noUndef : (makeJoinSide blocks).undefBlocks = [] := rfl
    have noCurrent : (makeJoinSide blocks).currentBlocks = [] := rfl
    simp [findFirstBlockWithoutUndef,noUndef,noCurrent,run]
  rw [run] at hidden none
  rw [side]
  have rows := extracted.pending.trans items_eq
  exact {
    rows
    sorted := by
      have all := sorted_inputItems sorted
      rw [← rows] at all
      exact all.right
    length := extracted.length
    nonempty := extracted.nonempty
    undefs := extracted.undefs
    ids := by
      have allIds := ids_makeJoinSide blocks ▸ nodup_range' (s := 0) (n := blocks.length)
      rw [JoinSide.ids,makeJoinSide,map_nil,nil_append] at allIds
      exact allIds.sublist extracted.ids
    ends := by
      intro block final
      apply makeJoinSide_endsAt blocks block
      obtain ⟨consumed,split⟩ := extracted.suffix
      rw [← split,getLast?_append,final]
      rfl
    hidden := by
      rw [HiddenUndef,← elements]
      exact elements ▸ hidden
    unsplit := by
      rw [nil_append] at none
      apply none.trans
      cases blocks with
      | nil => simp [StartsWithUndef,makeJoinSide]
      | cons block blocks => simp [StartsWithUndef,makeJoinSide] }

variable {blocks : List (List κ)} {side : JoinSide κ}

section
variable (start : Start blocks side)
include start

theorem Start.undef_keys : ∀ item ∈ items side.undefBlocks,key item = ⊥ := by
  intro item member
  obtain ⟨block,present,inside,_⟩ := fst_mem_items member
  simpa using start.undefs.undef block present (key item) (key_mem inside)

theorem Start.items_nil_iff : items side.undefBlocks = [] ↔ ¬ StartsWithUndef blocks := by
  have empty := items_isEmpty start.undefs.nonempty
  rw [← start.unsplit,← List.isEmpty_iff,empty,List.isEmpty_iff]

theorem Start.pending_nil_iff : side.pending = [] ↔ OnlyUndef blocks ∧ ¬ HiddenUndef blocks := by
  rw [← start.hidden]
  constructor
  · intro none
    constructor
    · intro element member
      obtain ⟨item,inside,rfl⟩ := (mem_flatten_iff blocks element).mp member
      rw [← start.rows,none,append_nil] at inside
      exact start.undef_keys item inside
    · simp [none]
  · rintro ⟨only,noHidden⟩
    rw [eq_nil_iff_forall_not_mem]
    intro item member
    apply noHidden ⟨item,member,?_⟩
    apply only
    rw [mem_flatten_iff]
    exact ⟨item,start.rows ▸ mem_append_right _ member,rfl⟩

theorem Start.inv (found : ¬ HiddenUndef blocks) : SideInv undefConfig side where
  sorted := start.sorted
  length := start.length
  nonempty := start.nonempty
  undefs := start.undefs
  defined item member := by
    rw [isUndef_undefConfig,decide_eq_false_iff_not]
    exact fun undef => found (start.hidden.mp ⟨item,member,undef⟩)
  ids := start.ids

theorem Start.inv_alwaysFalse (noUndef : side.undefBlocks = []) : SideInv ⟨none,false⟩ side where
  sorted := start.sorted
  length := start.length
  nonempty := start.nonempty
  undefs := ⟨by simp [noUndef],by simp [noUndef]⟩
  defined := by simp [Config.isUndef]
  ids := start.ids

end

end Start

section Front

def FrontUndef (config : Config κ) (side : JoinSide κ) : Prop :=
  ∃ front,side.currentBlocks.head?.bind (·.elements.head?) = some front ∧ config.isUndef front = true

variable {currentEl : κ}

theorem fillFrom_keeps {remaining : Nat} {it it' : List (Block κ)} {current current' : List (BlockAndSubrange κ)}
    {all : Bool} (run : fillFrom currentEl remaining it current = .ok (it',current',all)) : current <+: current' := by
  induction it generalizing remaining current with
  | nil =>
    simp only [fillFrom,Except.ok.injEq,Prod.mk.injEq] at run
    rw [run.2.1]
  | cons block it ih =>
    cases remaining with
    | zero =>
      simp only [fillFrom,Except.ok.injEq,Prod.mk.injEq] at run
      rw [run.2.1]
    | succ remaining =>
      rw [fillFrom] at run
      split at run
      next => exact ih run
      next first tail elements =>
        split at run
        next =>
          cases sorted : check (decide (block.elements.Pairwise (· ≤ ·))) .blockNotSorted with
          | error failure => simp [sorted,bind,Except.bind] at run
          | ok _ =>
            rw [sorted] at run
            exact (prefix_append current [ofBlock block]).trans (ih run)
        next =>
          cases smaller : check (decide (currentEl < first)) .currentElNotSmaller with
          | error failure => simp [smaller,bind,Except.bind] at run
          | ok _ =>
            simp only [smaller,bind,Except.bind,pure,Except.pure,Except.ok.injEq,Prod.mk.injEq] at run
            rw [run.2.1]

variable {side : JoinSide κ}

theorem fillEqualToCurrentEl_keeps {side' : JoinSide κ} {all : Bool}
    (run : fillEqualToCurrentEl side currentEl = .ok (side',all)) : side.currentBlocks <+: side'.currentBlocks := by
  rw [fillEqualToCurrentEl] at run
  cases filled : fillFrom currentEl fetchBlocks side.it side.currentBlocks with
  | error failure => simp [filled,bind,Except.bind] at run
  | ok result =>
    obtain ⟨it,currentBlocks,filledAll⟩ := result
    simp only [filled,bind,Except.bind,pure,Except.pure,Except.ok.injEq,Prod.mk.injEq] at run
    rw [← run.1]
    exact fillFrom_keeps filled

variable {impl : Impl κ}

theorem fillEqualToCurrentElBothSides_keeps {fuel : Nat} {impl' : Impl κ} {status : BlockStatus}
    (run : fillEqualToCurrentElBothSides currentEl fuel impl = .ok (impl',status)) :
    impl.leftSide.currentBlocks <+: impl'.leftSide.currentBlocks ∧ impl.rightSide.currentBlocks <+: impl'.rightSide.currentBlocks := by
  induction fuel generalizing impl with
  | zero => simp [fillEqualToCurrentElBothSides] at run
  | succ fuel ih =>
    rw [fillEqualToCurrentElBothSides] at run
    cases filledLeft : fillEqualToCurrentEl impl.leftSide currentEl with
    | error failure => simp [filledLeft,bind,Except.bind] at run
    | ok resultLeft =>
      cases filledRight : fillEqualToCurrentEl impl.rightSide currentEl with
      | error failure => simp [filledLeft,filledRight,bind,Except.bind] at run
      | ok resultRight =>
        obtain ⟨leftSide,allLeft⟩ := resultLeft
        obtain ⟨rightSide,allRight⟩ := resultRight
        have left := fillEqualToCurrentEl_keeps filledLeft
        have right := fillEqualToCurrentEl_keeps filledRight
        simp only [filledLeft,filledRight,bind,Except.bind] at run
        cases allLeft <;> cases allRight <;> simp only [pure,Except.pure,Except.ok.injEq,Prod.mk.injEq] at run
        · obtain ⟨laterLeft,laterRight⟩ := ih run
          exact ⟨left.trans laterLeft,right.trans laterRight⟩
        all_goals
          rw [← run.1]
          exact ⟨left,right⟩

variable {config : Config κ}

omit [LinearOrder κ] in
theorem FrontUndef.of_prefix {side' : JoinSide κ} (undef : FrontUndef config side)
    (kept : side.currentBlocks <+: side'.currentBlocks) : FrontUndef config side' := by
  obtain ⟨front,first,isUndef⟩ := undef
  obtain ⟨added,split⟩ := kept
  refine ⟨front,?_,isUndef⟩
  cases current : side.currentBlocks with
  | nil => simp [current] at first
  | cons block blocks =>
    rw [← split,current]
    simpa [current] using first

theorem joinAndRemoveLessThanCurrentEl_fails (undef : FrontUndef config impl.leftSide ∨ FrontUndef config impl.rightSide) (currentEl : κ) :
    ∃ failure,joinAndRemoveLessThanCurrentEl config currentEl impl = .error failure := by
  rw [joinAndRemoveLessThanCurrentEl]
  split
  next left restLeft right restRight currentLeft currentRight =>
    cases checkLeft : left.elements.head?.all config.isUndef with
    | true => exact ⟨.undefInLeft,by simp [check,bind,Except.bind]⟩
    | false =>
      cases checkRight : right.elements.head?.all config.isUndef with
      | true => exact ⟨.undefInRight,by simp [check,bind,Except.bind]⟩
      | false =>
        exfalso
        rcases undef with ⟨front,first,isUndef⟩ | ⟨front,first,isUndef⟩
        · rw [currentLeft,head?_cons,Option.bind_some] at first
          simp [first,isUndef] at checkLeft
        · rw [currentRight,head?_cons,Option.bind_some] at first
          simp [first,isUndef] at checkRight
  next => exact ⟨_,rfl⟩


omit [LinearOrder κ] in
theorem FrontUndef.of_pending (nonempty : ∀ block ∈ side.currentBlocks,block.elements ≠ [])
    (present : side.currentBlocks ≠ []) {item : Item κ} (first : side.pending.head? = some item)
    (undef : config.isUndef (key item) = true) : FrontUndef config side := by
  obtain ⟨block,blocks,current⟩ := exists_cons_of_ne_nil present
  have filled := nonempty block (by simp [current])
  obtain ⟨front,tail,elements⟩ := exists_cons_of_ne_nil filled
  have keys := congrArg (Option.map key) first
  rw [← head?_map,JoinSide.pending,current,items_cons,append_assoc,map_append,map_key_items,elements] at keys
  simp only [cons_append,head?_cons,Option.map_some,Option.some_inj] at keys
  exact ⟨front,by simp [current,elements],keys ▸ undef⟩

theorem joinRounds_fails (sortedLeft : SortedItems impl.leftSide.pending)
    (sortedRight : SortedItems impl.rightSide.pending) (lengthLeft : impl.leftSide.currentBlocks.length ≤ 1)
    (lengthRight : impl.rightSide.currentBlocks.length ≤ 1) (filledLeft : ∀ block ∈ impl.leftSide.currentBlocks,block.elements ≠ [])
    (filledRight : ∀ block ∈ impl.rightSide.currentBlocks,block.elements ≠ []) {left right : Item κ}
    (firstLeft : impl.leftSide.pending.head? = some left) (firstRight : impl.rightSide.pending.head? = some right)
    (undef : config.isUndef (key left) = true ∨ config.isUndef (key right) = true) (fuel : Nat) :
    ∃ failure,joinRounds config (fuel + 1) impl = .error failure := by
  obtain ⟨leftSide,runLeft,_,pendingLeft,_,nonemptyLeft,noneLeft⟩ := fillWithAtLeastOne_filled sortedLeft lengthLeft filledLeft
  obtain ⟨rightSide,runRight,_,pendingRight,_,nonemptyRight,noneRight⟩ := fillWithAtLeastOne_filled sortedRight lengthRight filledRight
  rw [← pendingLeft] at firstLeft
  rw [← pendingRight] at firstRight
  have someLeft : leftSide.currentBlocks ≠ [] := fun none => by simp [noneLeft none] at firstLeft
  have someRight : rightSide.currentBlocks ≠ [] := fun none => by simp [noneRight none] at firstRight
  have front : FrontUndef config leftSide ∨ FrontUndef config rightSide := by
    rcases undef with isUndef | isUndef
    · exact Or.inl (FrontUndef.of_pending nonemptyLeft someLeft firstLeft isUndef)
    · exact Or.inr (FrontUndef.of_pending nonemptyRight someRight firstRight isUndef)
  have buffer := fillBuffer_eq impl lengthLeft lengthRight runLeft runRight
  have notEmpty : (leftSide.currentBlocks.isEmpty || rightSide.currentBlocks.isEmpty) = false := by simp [someLeft,someRight]
  rw [notEmpty,if_neg Bool.false_ne_true] at buffer
  rw [joinRounds]
  cases filled : fillBuffer impl with
  | error failure => exact ⟨failure,by simp [bind,Except.bind]⟩
  | ok result =>
    obtain ⟨impl',status⟩ := result
    rw [filled] at buffer
    cases current : getCurrentEl ⟨leftSide,rightSide,impl.compatibleRowAction⟩ with
    | error failure => simp [current,Except.bind] at buffer
    | ok currentEl =>
      simp only [current,Except.bind] at buffer
      obtain ⟨keptLeft,keptRight⟩ := fillEqualToCurrentElBothSides_keeps buffer.symm
      have someLeft' : impl'.leftSide.currentBlocks ≠ [] := fun none => someLeft (prefix_nil.mp (none ▸ keptLeft))
      have someRight' : impl'.rightSide.currentBlocks ≠ [] := fun none => someRight (prefix_nil.mp (none ▸ keptRight))
      have front' := front.imp (fun undef => undef.of_prefix keptLeft) (fun undef => undef.of_prefix keptRight)
      simp only [bind,Except.bind,isEmpty_eq_false_iff.mpr someLeft',isEmpty_eq_false_iff.mpr someRight',
        Bool.or_self,Bool.false_eq_true,if_false,joinBuffers]
      cases getCurrentEl impl' with
      | error failure => exact ⟨failure,rfl⟩
      | ok currentEl' =>
        obtain ⟨failure,fails⟩ := joinAndRemoveLessThanCurrentEl_fails front' currentEl'
        exact ⟨failure,by simp [fails]⟩

end Front

section Join
variable [OrderBot κ] {left right : List (List κ)} {leftSide rightSide : JoinSide κ}

def undefCompatible (a b : κ) : Bool := a = b || a = ⊥ || b = ⊥

def undefCompatibleAt (left right : List (List κ)) (p q : Nat × Nat) : Bool :=
  match elementAt left p,elementAt right q with
  | some a,some b => undefCompatible a b
  | _,_ => false

theorem joined_perm (startLeft : Start left leftSide) (startRight : Start right rightSide)
    (equal : ∀ x ∈ leftSide.pending,∀ y ∈ rightSide.pending,undefCompatible (key x) (key y) = decide (key x = key y)) :
    (product (items leftSide.undefBlocks) (items rightSide.undefBlocks) ++
      joined (items leftSide.undefBlocks) (items rightSide.undefBlocks) leftSide.pending rightSide.pending).Perm
      (nestedLoop (fun x y => undefCompatible (key x) (key y)) (inputItems left) (inputItems right)) := by
  have undefLeft := startLeft.undef_keys
  have undefRight := startRight.undef_keys
  rw [← startLeft.rows,← startRight.rows,nestedLoop_append_left]
  have first : nestedLoop (fun x y => undefCompatible (key x) (key y)) (items leftSide.undefBlocks)
      (items rightSide.undefBlocks ++ rightSide.pending) =
      product (items leftSide.undefBlocks) (items rightSide.undefBlocks ++ rightSide.pending) := by
    apply nestedLoop_congr
    intro x hx y hy
    simp [undefCompatible,undefLeft x hx]
  have second : nestedLoop (fun x y => undefCompatible (key x) (key y)) leftSide.pending (items rightSide.undefBlocks) =
      product leftSide.pending (items rightSide.undefBlocks) := by
    apply nestedLoop_congr
    intro x hx y hy
    simp [undefCompatible,undefRight y hy]
  have third : nestedLoop (fun x y => undefCompatible (key x) (key y)) leftSide.pending rightSide.pending =
      equalPairs leftSide.pending rightSide.pending := nestedLoop_congr _ _ _ _ equal
  have undefRows := nestedLoop_append_right (fun _ _ => true) (items leftSide.undefBlocks) (items rightSide.undefBlocks) rightSide.pending
  have otherRows := nestedLoop_append_right (fun x y => undefCompatible (key x) (key y)) leftSide.pending
    (items rightSide.undefBlocks) rightSide.pending
  rw [second,third] at otherRows
  rw [first]
  apply List.Perm.trans _ (undefRows.append otherRows).symm
  classical
  rw [perm_iff_count]
  intro pair
  simp only [joined,product,count_append]
  omega

omit [OrderBot κ] in
theorem findFirstBlockWithoutUndefFrom_congr {config config' : Config κ} (same : ∀ element,config.isUndef element = config'.isUndef element)
    (it : List (Block κ)) (found : List (BlockAndSubrange κ)) :
    findFirstBlockWithoutUndefFrom config it found = findFirstBlockWithoutUndefFrom config' it found := by
  induction it generalizing found with
  | nil => rfl
  | cons block it ih => simp only [findFirstBlockWithoutUndefFrom,same,ih]

abbrev afterUndefs (leftSide rightSide : JoinSide κ) : Impl κ := ⟨leftSide,rightSide,addCartesianProduct leftSide.undefBlocks rightSide.undefBlocks {}⟩

abbrev joinAfterUndefs (config : Config κ) (leftSide rightSide : JoinSide κ) : Except Check RowAction :=
  (joinRounds config (leftSide.pending.length + rightSide.pending.length + 1) (afterUndefs leftSide rightSide)).map (·.compatibleRowAction)

theorem withPotentialUndef_eq (doOptionalJoin : Bool) (startLeft : Start left leftSide) (startRight : Start right rightSide)
    (isLeft : findFirstBlockWithoutUndef undefConfig (makeJoinSide left) = leftSide)
    (isRight : findFirstBlockWithoutUndef undefConfig (makeJoinSide right) = rightSide) :
    zipperJoinForBlocksWithPotentialUndef doOptionalJoin left right =
      joinAfterUndefs (if StartsWithUndef left ∨ StartsWithUndef right then ⟨some (fun element => element = ⊥),doOptionalJoin⟩ else ⟨none,doOptionalJoin⟩)
        leftSide rightSide := by
  let config : Config κ := ⟨some (fun element => element = ⊥),doOptionalJoin⟩
  have flags : ∀ {blocks : List (List κ)} {side : JoinSide κ},Start blocks side →
      hasUndef config side = decide (StartsWithUndef blocks) := by
    intro blocks side start
    have undefs : Undefs config side.undefBlocks := ⟨start.undefs.nonempty,start.undefs.undef⟩
    rw [hasUndef_eq undefs,Bool.eq_iff_iff]
    simp [start.items_nil_iff]
  have extracted : ∀ side : JoinSide κ,findFirstBlockWithoutUndef config side = findFirstBlockWithoutUndef undefConfig side := by
    intro side
    have same : ∀ element,config.isUndef element = undefConfig.isUndef element := fun _ => rfl
    simp only [findFirstBlockWithoutUndef,findFirstBlockWithoutUndefFrom_congr same]
  have fetched : fetchAndProcessUndefinedBlocks config ⟨makeJoinSide left,makeJoinSide right,{}⟩ = afterUndefs leftSide rightSide := by
    rw [← isLeft,← isRight,← extracted,← extracted]
    rfl
  have run : runJoin config ⟨makeJoinSide left,makeJoinSide right,{}⟩ =
      joinRounds (if StartsWithUndef left ∨ StartsWithUndef right then config else ⟨none,doOptionalJoin⟩)
        (leftSide.pending.length + rightSide.pending.length + 1) (afterUndefs leftSide rightSide) := by
    have potential : config.potentiallyHasUndef = true := rfl
    simp only [runJoin,fetched,flags startLeft,flags startRight,size_eq,potential,Bool.true_and]
    by_cases someLeft : StartsWithUndef left <;> by_cases someRight : StartsWithUndef right <;> simp [someLeft,someRight]
    rfl
  have unfolded : zipperJoinForBlocksWithPotentialUndef doOptionalJoin left right =
      (runJoin config ⟨makeJoinSide left,makeJoinSide right,{}⟩).bind (fun impl => .ok impl.compatibleRowAction) := rfl
  rw [unfolded,run,joinAfterUndefs]
  generalize joinRounds _ _ (⟨leftSide,rightSide,_⟩ : Impl κ) = result
  cases result <;> rfl

def UndefJoinCorrect (left right : List (List κ)) : Prop :=
  ∃ action,zipperJoinForBlocksWithPotentialUndef false left right = .ok action ∧
    ∀ p q,action.rows.count (p,q) = if undefCompatibleAt left right p q then 1 else 0

/-- No UNDEF row is hidden by an empty block, or the hidden UNDEF rows do no harm: one side has
no other rows than the UNDEF rows that were found, or there are no other rows on both sides and
none of them was found. -/
def UndefRowsFound (left right : List (List κ)) : Prop :=
  (¬ HiddenUndef left ∧ ¬ HiddenUndef right) ∨ (OnlyUndef left ∧ ¬ HiddenUndef left) ∨ (OnlyUndef right ∧ ¬ HiddenUndef right) ∨
    (OnlyUndef left ∧ OnlyUndef right ∧ ¬ StartsWithUndef left ∧ ¬ StartsWithUndef right)

theorem count_undefCompatible (left right : List (List κ)) (p q : Nat × Nat) :
    ((nestedLoop (fun x y => undefCompatible (key x) (key y)) (inputItems left) (inputItems right)).map places).count (p,q) =
      if undefCompatibleAt left right p q then 1 else 0 :=
  count_pairs undefCompatible left right p q

theorem UndefJoinCorrect.of_emits (startLeft : Start left leftSide) (startRight : Start right rightSide)
    (equal : ∀ x ∈ leftSide.pending,∀ y ∈ rightSide.pending,undefCompatible (key x) (key y) = decide (key x = key y))
    {action : RowAction} (run : zipperJoinForBlocksWithPotentialUndef false left right = .ok action)
    (emits : Emits (addCartesianProduct leftSide.undefBlocks rightSide.undefBlocks {}) action
      (joined (items leftSide.undefBlocks) (items rightSide.undefBlocks) leftSide.pending rightSide.pending) []) :
    UndefJoinCorrect left right := by
  refine ⟨action,run,?_⟩
  intro p q
  have all := (addCartesianProduct_emits leftSide.undefBlocks rightSide.undefBlocks {}).trans emits
  rw [all.rows.count_eq,nil_append,((joined_perm startLeft startRight equal).map places).count_eq,count_undefCompatible]

theorem compatible_eq_of_defined (definedLeft : ¬ HiddenUndef left) (definedRight : ¬ HiddenUndef right) (startLeft : Start left leftSide)
    (startRight : Start right rightSide) :
    ∀ x ∈ leftSide.pending,∀ y ∈ rightSide.pending,undefCompatible (key x) (key y) = decide (key x = key y) := by
  intro x hx y hy
  have xDefined : key x ≠ ⊥ := fun undef => definedLeft (startLeft.hidden.mp ⟨x,hx,undef⟩)
  have yDefined : key y ≠ ⊥ := fun undef => definedRight (startRight.hidden.mp ⟨y,hy,undef⟩)
  simp [undefCompatible,xDefined,yDefined]

variable {side : JoinSide κ}

omit [LinearOrder κ] [OrderBot κ] in
theorem currentBlocks_isEmpty (nonempty : ∀ block ∈ side.currentBlocks,block.elements ≠ [])
    (none : side.pending = []) : side.currentBlocks.isEmpty = true := by
  rw [← items_isEmpty nonempty,List.isEmpty_iff]
  exact (append_eq_nil_iff.mp none).1

theorem Start.filled {blocks : List (List κ)} (start : Start blocks side) : ∃ side',fillWithAtLeastOne side = .ok side' ∧ Buffered side' ∧
    side'.pending = side.pending ∧ side'.undefBlocks = side.undefBlocks ∧ (side'.pending = [] → side'.currentBlocks.isEmpty = true) := by
  obtain ⟨side',fill,advanced,pending,length,nonempty,none⟩ := fillWithAtLeastOne_filled start.sorted start.length start.nonempty
  exact ⟨side',fill,⟨length,nonempty,start.ids.sublist advanced.ids,none⟩,pending,advanced.undefBlocks,currentBlocks_isEmpty nonempty⟩

theorem UndefJoinCorrect.of_exhausted (startLeft : Start left leftSide) (startRight : Start right rightSide)
    (run : zipperJoinForBlocksWithPotentialUndef false left right =
      joinAfterUndefs undefConfig leftSide rightSide)
    (exhausted : leftSide.pending = [] ∨ rightSide.pending = []) : UndefJoinCorrect left right := by
  obtain ⟨left',fillLeft,bufferedLeft,pendingLeft,undefsLeft,emptyLeft⟩ := startLeft.filled
  obtain ⟨right',fillRight,_,pendingRight,undefsRight,emptyRight⟩ := startRight.filled
  have oneEmpty : left'.pending = [] ∨ right'.pending = [] := by
    rw [pendingLeft,pendingRight]
    exact exhausted
  have plain : (undefConfig : Config κ).doOptionalJoin = true → (undefConfig : Config κ).potentiallyHasUndef = false := by
    simp [undefConfig]
  obtain ⟨impl,rounds,emits⟩ := joinRounds_exhausted (afterUndefs leftSide rightSide) bufferedLeft startLeft.length startRight.length
    fillLeft fillRight (by rw [undefsLeft]; exact startLeft.undefs) (by rw [undefsRight]; exact startRight.undefs)
    (Bool.or_eq_true _ _ ▸ oneEmpty.imp emptyLeft emptyRight) oneEmpty (leftSide.pending.length + rightSide.pending.length)
  rw [keptRows_eq plain,pendingLeft,pendingRight,undefsLeft,undefsRight] at emits
  rw [joinAfterUndefs,rounds] at run
  apply UndefJoinCorrect.of_emits startLeft startRight _ run emits
  intro x hx y hy
  rcases exhausted with none | none
  · simp [none] at hx
  · simp [none] at hy

omit [OrderBot κ] in
theorem head_least (sorted : SortedItems side.pending) {first : Item κ} (head : side.pending.head? = some first) :
    ∀ item ∈ side.pending,key first ≤ key item := by
  intro item member
  obtain ⟨tail,pending⟩ := head?_eq_some_iff.mp head
  rw [SortedItems,pending,pairwise_cons] at sorted
  rw [pending] at member
  rcases mem_cons.mp member with rfl | later
  · exact le_refl _
  · exact sorted.1 item later

theorem undefRounds_fail {config : Config κ} (same : ∀ element,undefConfig.isUndef element = config.isUndef element)
    (startLeft : Start left leftSide) (startRight : Start right rightSide)
    (someLeft : leftSide.pending ≠ []) (someRight : rightSide.pending ≠ []) (hidden : HiddenUndef left ∨ HiddenUndef right)
    (fuel : Nat) (action : RowAction) : ∃ failure,joinRounds config (fuel + 1) ⟨leftSide,rightSide,action⟩ = .error failure := by
  obtain ⟨firstLeft,tailLeft,pendingLeft⟩ := exists_cons_of_ne_nil someLeft
  obtain ⟨firstRight,tailRight,pendingRight⟩ := exists_cons_of_ne_nil someRight
  have headLeft : leftSide.pending.head? = some firstLeft := by simp [pendingLeft]
  have headRight : rightSide.pending.head? = some firstRight := by simp [pendingRight]
  apply joinRounds_fails startLeft.sorted startRight.sorted startLeft.length startRight.length startLeft.nonempty
    startRight.nonempty headLeft headRight
  simp only [← same,isUndef_undefConfig,decide_eq_true_eq]
  rw [← startLeft.hidden,← startRight.hidden] at hidden
  rcases hidden with ⟨item,member,undef⟩ | ⟨item,member,undef⟩
  · exact Or.inl (le_bot_iff.mp (undef ▸ head_least startLeft.sorted headLeft item member))
  · exact Or.inr (le_bot_iff.mp (undef ▸ head_least startRight.sorted headRight item member))

section
variable (startLeft : Start left leftSide) (startRight : Start right rightSide)
include startLeft startRight

theorem undefRounds_correct_iff (some : StartsWithUndef left ∨ StartsWithUndef right)
    (run : zipperJoinForBlocksWithPotentialUndef false left right =
      joinAfterUndefs undefConfig leftSide rightSide) :
    UndefJoinCorrect left right ↔ UndefRowsFound left right := by
  by_cases noneLeft : leftSide.pending = []
  · exact iff_of_true (UndefJoinCorrect.of_exhausted startLeft startRight run (Or.inl noneLeft))
      (Or.inr (Or.inl (startLeft.pending_nil_iff.mp noneLeft)))
  by_cases noneRight : rightSide.pending = []
  · exact iff_of_true (UndefJoinCorrect.of_exhausted startLeft startRight run (Or.inr noneRight))
      (Or.inr (Or.inr (Or.inl (startRight.pending_nil_iff.mp noneRight))))
  by_cases hidden : HiddenUndef left ∨ HiddenUndef right
  · apply iff_of_false
    · rintro ⟨action,ok,_⟩
      obtain ⟨failure,fails⟩ := undefRounds_fail (fun _ => rfl) startLeft startRight noneLeft noneRight hidden
        (leftSide.pending.length + rightSide.pending.length) (addCartesianProduct leftSide.undefBlocks rightSide.undefBlocks {})
      rw [run,joinAfterUndefs,fails] at ok
      cases ok
    · rintro (⟨definedLeft,definedRight⟩ | only | only | ⟨_,_,notLeft,notRight⟩)
      · exact hidden.elim definedLeft definedRight
      · exact noneLeft (startLeft.pending_nil_iff.mpr only)
      · exact noneRight (startRight.pending_nil_iff.mpr only)
      · exact some.elim notLeft notRight
  · rw [not_or] at hidden
    obtain ⟨impl,rounds,emits⟩ := joinRounds_spec undefConfig_lawful
      (afterUndefs leftSide rightSide) (startLeft.inv hidden.1)
      (startRight.inv hidden.2) startLeft.ends startRight.ends _ (Nat.lt_succ_self _)
    rw [keptRows_eq (by simp [undefConfig])] at emits
    rw [joinAfterUndefs,rounds] at run
    exact iff_of_true (UndefJoinCorrect.of_emits startLeft startRight
      (compatible_eq_of_defined hidden.1 hidden.2 startLeft startRight) run emits) (Or.inl hidden)

theorem agree_of_counts (noLeft : leftSide.undefBlocks = [])
    (noRight : rightSide.undefBlocks = []) {action : RowAction} {optional : List (Item κ)}
    (emits : Emits (addCartesianProduct leftSide.undefBlocks rightSide.undefBlocks {}) action
      (joined (items leftSide.undefBlocks) (items rightSide.undefBlocks) leftSide.pending rightSide.pending) optional)
    (counts : ∀ p q,action.rows.count (p,q) = if undefCompatibleAt left right p q then 1 else 0) :
    ∀ x ∈ leftSide.pending,∀ y ∈ rightSide.pending,key x = ⊥ ∨ key y = ⊥ → key x = key y := by
  intro x hx y hy undef
  have insideLeft : ∀ item ∈ leftSide.pending,item ∈ inputItems left :=
    fun item member => startLeft.rows ▸ mem_append_right _ member
  have insideRight : ∀ item ∈ rightSide.pending,item ∈ inputItems right :=
    fun item member => startRight.rows ▸ mem_append_right _ member
  have compatible : undefCompatibleAt left right (place x) (place y) = true := by
    simp only [undefCompatibleAt,(mem_inputItems left x).mp (insideLeft x hx),(mem_inputItems right y).mp (insideRight y hy),
      undefCompatible,Bool.or_eq_true,decide_eq_true_eq]
    tauto
  have count := counts (place x) (place y)
  rw [emits.rows.count_eq,compatible,if_pos rfl,noLeft,noRight] at count
  have added : (place x,place y) ∈ (equalPairs leftSide.pending rightSide.pending).map places := by
    apply count_pos_iff.mp
    simp [addCartesianProduct,joined] at count
    omega
  obtain ⟨⟨x',y'⟩,member,same⟩ := List.mem_map.mp added
  obtain ⟨hx',hy',equal⟩ := (mem_nestedLoop _ _ _ _ _).mp member
  obtain ⟨sameLeft,sameRight⟩ := Prod.mk.inj same
  rw [eq_of_place (insideLeft x' hx') (insideLeft x hx) sameLeft,eq_of_place (insideRight y' hy') (insideRight y hy) sameRight] at equal
  simpa using equal

theorem found_of_agree (notLeft : ¬ StartsWithUndef left)
    (notRight : ¬ StartsWithUndef right) {x : Item κ} (hx : x ∈ leftSide.pending) (undef : key x = ⊥)
    (agree : ∀ x ∈ leftSide.pending,∀ y ∈ rightSide.pending,key x = ⊥ ∨ key y = ⊥ → key x = key y) :
    (OnlyUndef left ∧ ¬ HiddenUndef left) ∨ (OnlyUndef right ∧ ¬ HiddenUndef right) ∨
      (OnlyUndef left ∧ OnlyUndef right ∧ ¬ StartsWithUndef left ∧ ¬ StartsWithUndef right) := by
  have rowsLeft : inputItems left = leftSide.pending := by rw [← startLeft.rows,startLeft.items_nil_iff.mpr notLeft,nil_append]
  have rowsRight : inputItems right = rightSide.pending := by
    rw [← startRight.rows,startRight.items_nil_iff.mpr notRight,nil_append]
  by_cases noneRight : rightSide.pending = []
  · exact Or.inr (Or.inl (startRight.pending_nil_iff.mp noneRight))
  have onlyRight : ∀ y ∈ rightSide.pending,key y = ⊥ := fun y hy => (agree x hx y hy (Or.inl undef)).symm.trans undef
  obtain ⟨y,hy⟩ := exists_mem_of_ne_nil _ noneRight
  have onlyLeft : ∀ x ∈ leftSide.pending,key x = ⊥ := fun x hx => (agree x hx y hy (Or.inr (onlyRight y hy))).trans (onlyRight y hy)
  refine Or.inr (Or.inr ⟨?_,?_,notLeft,notRight⟩)
  · intro element member
    obtain ⟨item,inside,rfl⟩ := (mem_flatten_iff left element).mp member
    exact onlyLeft item (rowsLeft ▸ inside)
  · intro element member
    obtain ⟨item,inside,rfl⟩ := (mem_flatten_iff right element).mp member
    exact onlyRight item (rowsRight ▸ inside)

theorem alwaysFalse_correct_iff (notLeft : ¬ StartsWithUndef left) (notRight : ¬ StartsWithUndef right)
    (run : zipperJoinForBlocksWithPotentialUndef false left right =
      joinAfterUndefs ⟨none,false⟩ leftSide rightSide) :
    UndefJoinCorrect left right ↔ UndefRowsFound left right := by
  have lawful : (⟨none,false⟩ : Config κ).Lawful := by
    intro undef element isUndef
    simp [Config.isUndef] at isUndef
  obtain ⟨impl,rounds,emits⟩ := joinRounds_spec lawful
    (afterUndefs leftSide rightSide)
    (startLeft.inv_alwaysFalse (startLeft.unsplit.mpr notLeft)) (startRight.inv_alwaysFalse (startRight.unsplit.mpr notRight))
    startLeft.ends startRight.ends _ (Nat.lt_succ_self _)
  rw [keptRows_eq (by simp)] at emits
  rw [joinAfterUndefs,rounds] at run
  constructor
  · rintro ⟨action,ok,counts⟩
    rw [run] at ok
    cases ok
    have agree := agree_of_counts startLeft startRight (startLeft.unsplit.mpr notLeft) (startRight.unsplit.mpr notRight) emits counts
    by_cases hiddenLeft : HiddenUndef left
    · obtain ⟨x,hx,undef⟩ := startLeft.hidden.mpr hiddenLeft
      exact Or.inr (found_of_agree startLeft startRight notLeft notRight hx undef agree)
    by_cases hiddenRight : HiddenUndef right
    · obtain ⟨y,hy,undef⟩ := startRight.hidden.mpr hiddenRight
      have swapped := found_of_agree startRight startLeft notRight notLeft hy undef
        (fun y hy x hx undef => (agree x hx y hy undef.symm).symm)
      tauto
    exact Or.inl ⟨hiddenLeft,hiddenRight⟩
  · intro found
    apply UndefJoinCorrect.of_emits startLeft startRight _ run emits
    rcases found with ⟨definedLeft,definedRight⟩ | only | only | ⟨onlyLeft,onlyRight,_⟩
    · exact compatible_eq_of_defined definedLeft definedRight startLeft startRight
    · intro x hx
      simp [startLeft.pending_nil_iff.mpr only] at hx
    · intro x _ y hy
      simp [startRight.pending_nil_iff.mpr only] at hy
    · intro x hx y hy
      have undefLeft := onlyLeft (key x) ((mem_flatten_iff left _).mpr ⟨x,startLeft.rows ▸ mem_append_right _ hx,rfl⟩)
      have undefRight := onlyRight (key y) ((mem_flatten_iff right _).mpr ⟨y,startRight.rows ▸ mem_append_right _ hy,rfl⟩)
      simp [undefCompatible,undefLeft,undefRight]

end

theorem undefJoin_correct_iff (left right : List (List κ)) (sortedLeft : left.flatten.Pairwise (· ≤ ·))
    (sortedRight : right.flatten.Pairwise (· ≤ ·)) : UndefJoinCorrect left right ↔ UndefRowsFound left right := by
  have startLeft := findFirstBlockWithoutUndef_start sortedLeft
  have startRight := findFirstBlockWithoutUndef_start sortedRight
  have run := withPotentialUndef_eq false startLeft startRight rfl rfl
  by_cases some : StartsWithUndef left ∨ StartsWithUndef right
  · rw [if_pos some] at run
    exact undefRounds_correct_iff startLeft startRight some run
  · rw [if_neg some] at run
    rw [not_or] at some
    exact alwaysFalse_correct_iff startLeft startRight some.1 some.2 run

/-- The UNDEF row behind the empty block is joined with no row. -/
theorem undefJoin_not_correct : ¬ UndefJoinCorrect (κ := Nat) [[],[0]] [[1]] := by
  have run : zipperJoinForBlocksWithPotentialUndef false ([[],[0]] : List (List Nat)) [[1]] = .ok ⟨1,0,[],[]⟩ := by rfl
  rintro ⟨action,ok,counts⟩
  rw [run] at ok
  cases ok
  exact absurd (counts (1,0) (0,0)) (by decide)

theorem undefJoin_correct_iff_found :
    UndefJoinCorrect (κ := Nat) [[0],[0,1]] [[0,1],[],[2]] ↔ UndefRowsFound (κ := Nat) [[0],[0,1]] [[0,1],[],[2]] :=
  undefJoin_correct_iff [[0],[0,1]] [[0,1],[],[2]] (by decide) (by decide)

end Join

end Qlever.BlockZipperJoin
