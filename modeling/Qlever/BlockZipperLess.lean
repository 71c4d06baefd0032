import Qlever.BlockZipperRows

/-! The zipper on the parts of the first two blocks that are less than the current
element. The UNDEF values of both sides lie in blocks of their own, from which the
callbacks yield them.
-/
namespace Qlever.BlockZipperJoin
open ZipperJoin Library List RowAction
open Function (comp_def)
variable {κ : Type}

structure Undefs (config : Config κ) (blocks : List (BlockAndSubrange κ)) : Prop where
  nonempty : ∀ block ∈ blocks,block.elements ≠ []
  undef : ∀ block ∈ blocks,∀ element ∈ block.elements,config.isUndef element = true

variable {config : Config κ} {blocks : List (BlockAndSubrange κ)}

theorem Undefs.mem (undefs : Undefs config blocks)
    {block : BlockAndSubrange κ} (member : block ∈ blocks) {it : Iter κ} (inside : it ∈ block.subrange) :
    config.isUndef it.row = true := by
  apply undefs.undef block member
  rw [← map_row_iters block.first block.elements]
  exact mem_map_of_mem inside

theorem items_isEmpty (nonempty : ∀ block ∈ blocks,block.elements ≠ []) :
    (items blocks).isEmpty = blocks.isEmpty := by
  cases blocks with
  | nil => rfl
  | cons block blocks =>
    have some := nonempty block mem_cons_self
    rw [← map_key_items block] at some
    have first : block.items ≠ [] := fun none => some (by rw [none]; rfl)
    simp [first]

theorem hasUndef_eq {side : JoinSide κ} (undefs : Undefs config side.undefBlocks) :
    hasUndef config side = !(items side.undefBlocks).isEmpty := by
  rw [hasUndef,items_isEmpty undefs.nonempty]
  cases config with
  | mk isUndefined optional =>
    cases isUndefined with
    | some test => rfl
    | none =>
      cases blocks : side.undefBlocks with
      | nil => rfl
      | cons block rest =>
        obtain ⟨element,member⟩ := exists_mem_of_ne_nil _ (undefs.nonempty block (by simp [blocks]))
        have conflict := undefs.undef block (by simp [blocks]) element member
        exact Bool.noConfusion conflict

section Zipper
variable [LinearOrder κ] {config : Config κ} {leftSide rightSide : JoinSide κ} {bl br beg : Nat}

def Config.Lawful (config : Config κ) : Prop :=
  ∀ undef element,config.isUndef undef = true → config.isUndef element = false → undef < element

def AddsRows (cb : Callbacks κ Target) : Prop :=
  ∀ left right target,cb.compatibleRowAction left right target = target.map (addRow left.pos right.pos)

section
variable (cb : Callbacks κ Target) (adds : AddsRows cb)
include adds

private theorem foldl_actRight (it : Iter κ) (undefs : List (Iter κ))
    (less : ∀ undef ∈ undefs,undef.row < it.row) (s : State Target) (action : RowAction) (ok : s.target = .ok action) :
    undefs.foldl (fun s undef => if undef.row < it.row then act cb it undef {s with compatibleWasFound := true} else s) s =
      {s with
        target := .ok {action with rows := action.rows ++ undefs.map (fun undef =>
          ((action.inputLeft,it.pos),(action.inputRight,undef.pos)))}
        compatibleWasFound := s.compatibleWasFound || !undefs.isEmpty} := by
  induction undefs generalizing s action with
  | nil => simp [← ok]
  | cons undef undefs ih =>
    have first := less undef mem_cons_self
    rw [foldl_cons,if_pos first,ih (fun other member => less other (mem_cons_of_mem undef member)) _
      (action.addRow it.pos undef.pos) (by simp [act,adds it undef,ok,Except.map])]
    simp [act,addRow]

private theorem foldl_actLeft (noCover : cb.coverUndefRanges = false)
    (it : Iter κ) (undefs : List (Iter κ)) (less : ∀ undef ∈ undefs,undef.row < it.row) (s : State Target)
    (action : RowAction) (ok : s.target = .ok action) :
    undefs.foldl (fun s undef => if undef.row < it.row then
        if cb.coverUndefRanges then cover cb undef (act cb undef it s) else act cb undef it s else s) s =
      {s with target := .ok {action with rows := action.rows ++ undefs.map (fun undef =>
          ((action.inputLeft,undef.pos),(action.inputRight,it.pos)))}} := by
  induction undefs generalizing s action with
  | nil => simp [← ok]
  | cons undef undefs ih =>
    have first := less undef mem_cons_self
    rw [foldl_cons,if_pos first,noCover,if_neg Bool.false_ne_true,
      ← noCover,ih (fun other member => less other (mem_cons_of_mem undef member)) _
      (action.addRow undef.pos it.pos) (by simp [act,adds undef it,ok,Except.map])]
    simp [act,addRow]

private theorem foldl_undefRight (bl : Nat) (it : Iter κ)
    (blocks : List (BlockAndSubrange κ)) (less : ∀ block ∈ blocks,∀ undef ∈ block.subrange,undef.row < it.row)
    (s : State Target) (action : RowAction) (ok : s.target = .ok action) :
    ∃ action',blocks.foldl (fun s block => block.subrange.foldl (fun s undef => if undef.row < it.row then
          act cb it undef {s with compatibleWasFound := true} else s)
        (mapTarget (setInput bl block.fullBlock) s)) s =
      {s with target := .ok action',compatibleWasFound := s.compatibleWasFound || !(items blocks).isEmpty} ∧
      Emits action action' (product [(bl,it)] (items blocks)) [] := by
  induction blocks generalizing s action with
  | nil => exact ⟨action,by simp [← ok],Emits.refl action⟩
  | cons block blocks ih =>
    have inner := foldl_actRight cb adds it block.subrange (less block mem_cons_self)
      (mapTarget (setInput bl block.fullBlock) s) (action.setInput bl block.fullBlock)
      (by simp [mapTarget,ok,Except.map])
    obtain ⟨action',rest,emits⟩ := ih (fun other member => less other (mem_cons_of_mem block member)) _ _
      (congrArg State.target inner)
    refine ⟨action',?_,?_⟩
    · rw [foldl_cons,rest,inner]
      have flag : (items (block::blocks)).isEmpty = (block.subrange.isEmpty && (items blocks).isEmpty) := by
        rw [Bool.eq_iff_iff]
        simp [BlockAndSubrange.items]
      simp only [flag,mapTarget,Bool.not_and,Bool.or_assoc]
    · have first : Emits action {action.setInput bl block.fullBlock with
          rows := (action.setInput bl block.fullBlock).rows ++ block.subrange.map (fun undef =>
            (((action.setInput bl block.fullBlock).inputLeft,it.pos),
              ((action.setInput bl block.fullBlock).inputRight,undef.pos)))} (product [(bl,it)] block.items) [] := by
        constructor
        · simp [product,nestedLoop,BlockAndSubrange.items,setInput,places,place,comp_def]
        · simp [setInput]
        · exact prefix_append _ _
      exact (first.trans emits).perm (nestedLoop_append_right _ _ _ _).symm (List.Perm.refl _)

private theorem foldl_undefLeft (noCover : cb.coverUndefRanges = false)
    (br : Nat) (it : Iter κ) (blocks : List (BlockAndSubrange κ))
    (less : ∀ block ∈ blocks,∀ undef ∈ block.subrange,undef.row < it.row)
    (s : State Target) (action : RowAction) (ok : s.target = .ok action) :
    ∃ action',blocks.foldl (fun s block => block.subrange.foldl (fun s undef => if undef.row < it.row then
          if cb.coverUndefRanges then cover cb undef (act cb undef it s) else act cb undef it s else s)
        (mapTarget (setInput block.fullBlock br) s)) s = {s with target := .ok action'} ∧
      Emits action action' (product (items blocks) [(br,it)]) [] := by
  induction blocks generalizing s action with
  | nil => exact ⟨action,by simp [← ok],Emits.refl action⟩
  | cons block blocks ih =>
    have inner := foldl_actLeft cb adds noCover it block.subrange (less block mem_cons_self)
      (mapTarget (setInput block.fullBlock br) s) (action.setInput block.fullBlock br)
      (by simp [mapTarget,ok,Except.map])
    obtain ⟨action',rest,emits⟩ := ih (fun other member => less other (mem_cons_of_mem block member)) _ _
      (congrArg State.target inner)
    refine ⟨action',?_,?_⟩
    · rw [foldl_cons,rest,inner]
      rfl
    · have first : Emits action {action.setInput block.fullBlock br with
          rows := (action.setInput block.fullBlock br).rows ++ block.subrange.map (fun undef =>
            (((action.setInput block.fullBlock br).inputLeft,undef.pos),
              ((action.setInput block.fullBlock br).inputRight,it.pos)))} (product block.items [(br,it)]) [] := by
        constructor
        · simp [map_places_product,BlockAndSubrange.items,setInput,place,comp_def,
            ← map_eq_flatMap]
        · simp [setInput]
        · exact prefix_append _ _
      refine (first.trans emits).perm ?_ (List.Perm.refl _)
      rw [items_cons,product,product,product,nestedLoop_append_left]

end

def pairsOf (leftSide rightSide : JoinSide κ) (bl br : Nat) : Visit κ → List (Item κ × Item κ)
  | .right it _ _ => product [(bl,it)] (items rightSide.undefBlocks)
  | .left it _ => product (items leftSide.undefBlocks) [(br,it)]
  | .same it others => product [(bl,it)] (others.map (Prod.mk br))

def optionalOf (config : Config κ) (rightSide : JoinSide κ) (bl : Nat) : Visit κ → List (Item κ)
  | .right it _ hasNoMatch =>
    if config.doOptionalJoin && (items rightSide.undefBlocks).isEmpty && hasNoMatch then [(bl,it)] else []
  | _ => []

def coversOf (rightSide : JoinSide κ) (beg : Nat) : Visit κ → List Nat
  | .right it _ hasNoMatch => if !(items rightSide.undefBlocks).isEmpty || hasNoMatch then [it.pos - beg] else []
  | .left _ _ => []
  | .same it _ => [it.pos - beg]

def Visit.iter : Visit κ → Iter κ
  | .right it _ _ => it
  | .left it _ => it
  | .same it _ => it

structure Ok (bl br : Nat) (s : State Target) (action : RowAction) : Prop where
  target : s.target = .ok action
  inputLeft : action.inputLeft = bl
  inputRight : action.inputRight = br

structure VisitEffect (config : Config κ) (leftSide rightSide : JoinSide κ) (bl br beg : Nat) (v : Visit κ)
    (s s' : State Target) (action action' : RowAction) : Prop where
  ok : Ok bl br s' action'
  emits : Emits action action' (pairsOf leftSide rightSide bl br v) (optionalOf config rightSide bl v)
  covered : s'.coveredFromLeft = if config.doOptionalJoin then setAll s.coveredFromLeft (coversOf rightSide beg v)
    else s.coveredFromLeft

section
omit [LinearOrder κ]

private theorem cover_eq (it : Iter κ) (s : State Target) :
    cover (joinCallbacks config leftSide rightSide bl br beg) it s =
      {s with coveredFromLeft := if config.doOptionalJoin then setAll s.coveredFromLeft [it.pos - beg]
        else s.coveredFromLeft} := by
  cases optional : config.doOptionalJoin <;> simp [cover,Callbacks.hasNotFoundAction,joinCallbacks,optional,setAll]

private theorem notFound_eq (undefs : Undefs config rightSide.undefBlocks)
    (none : (items rightSide.undefBlocks).isEmpty = true) (it : Iter κ) (s : State Target)
    (action : RowAction) (ok : s.target = .ok action) :
    notFound (joinCallbacks config leftSide rightSide bl br beg) it s =
      {s with target := .ok (if config.doOptionalJoin then action.addOptionalRow it.pos else action)} := by
  have noUndef : hasUndef config rightSide = false := by rw [hasUndef_eq undefs,none]; rfl
  cases optional : config.doOptionalJoin with
  | false => simp [notFound,joinCallbacks,optional,← ok]
  | true =>
    simp [notFound,joinCallbacks,optional,noUndef,check,ok,Except.map,bind,Except.bind]

private theorem report_effect (undefs : Undefs config rightSide.undefBlocks)
    (none : (items rightSide.undefBlocks).isEmpty = true) (it : Iter κ) (range : List (Iter κ)) (hasNoMatch : Bool)
    (s t : State Target) (action : RowAction) (same : t.coveredFromLeft = s.coveredFromLeft) (middle : RowAction) (okT : Ok bl br t middle)
    (emits : Emits (κ := κ) action middle [] []) :
    ∃ action',VisitEffect config leftSide rightSide bl br beg (.right it range hasNoMatch) s
      (if hasNoMatch then cover (joinCallbacks config leftSide rightSide bl br beg) it
        (notFound (joinCallbacks config leftSide rightSide bl br beg) it t) else t) action action' := by
  have noItems : items rightSide.undefBlocks = [] := List.isEmpty_iff.mp none
  cases hasNoMatch with
  | false =>
    refine ⟨middle,okT,?_,?_⟩
    · simpa [pairsOf,optionalOf,noItems] using emits
    · simp [coversOf,noItems,same,setAll]
  | true =>
    rw [if_pos rfl,notFound_eq undefs none it t middle okT.target,cover_eq]
    refine ⟨_,⟨rfl,?_,?_⟩,?_,?_⟩
    · cases config.doOptionalJoin <;> simp [addOptionalRow,okT.inputLeft]
    · cases config.doOptionalJoin <;> simp [addOptionalRow,okT.inputRight]
    · cases optional : config.doOptionalJoin with
      | false => simpa [pairsOf,optionalOf,noItems,optional] using emits
      | true =>
        have added : Emits middle (middle.addOptionalRow it.pos) [] [((bl,it) : Item κ)] := by
          constructor
          · simp [addOptionalRow]
          · simp [addOptionalRow,okT.inputLeft,place]
          · exact prefix_rfl
        simpa [pairsOf,optionalOf,noItems,optional] using emits.trans added
    · simp [coversOf,same]

end

private theorem visit_right_effect (lawful : config.Lawful) (undefs : Undefs config rightSide.undefBlocks)
    (it : Iter κ) (defined : config.isUndef it.row = false) (range : List (Iter κ)) (hasNoMatch : Bool)
    (s : State Target) (action : RowAction) (ok : Ok bl br s action) :
    ∃ action',VisitEffect config leftSide rightSide bl br beg (.right it range hasNoMatch) s
      (visit (joinCallbacks config leftSide rightSide bl br beg) s (.right it range hasNoMatch)) action action' := by
  have less : ∀ block ∈ rightSide.undefBlocks,∀ undef ∈ block.subrange,undef.row < it.row :=
    fun block member undef inside => lawful undef.row it.row (undefs.mem member inside) defined
  cases potential : config.potentiallyHasUndef with
  | false =>
    have none : (items rightSide.undefBlocks).isEmpty = true := by
      have noUndef : hasUndef config rightSide = false := by simp [hasUndef,potential]
      simpa [hasUndef_eq undefs] using noUndef
    have unfolded : visit (joinCallbacks config leftSide rightSide bl br beg) s (.right it range hasNoMatch) =
        if hasNoMatch then cover (joinCallbacks config leftSide rightSide bl br beg) it
          (notFound (joinCallbacks config leftSide rightSide bl br beg) it s) else s := by
      simp [visit,mergeWithUndefRight,containsNoUndefined,joinCallbacks,potential]
    rw [unfolded]
    exact report_effect undefs none it range hasNoMatch s s action rfl action ok (Emits.refl action)
  | true =>
    obtain ⟨middle,folded,emits⟩ := foldl_undefRight (joinCallbacks config leftSide rightSide bl br beg) (fun _ _ _ => rfl)
      bl it rightSide.undefBlocks less {s with compatibleWasFound := false} action ok.target
    have unfolded : visit (joinCallbacks config leftSide rightSide bl br beg) s (.right it range hasNoMatch) =
        let t := mapTarget (setInput bl br) (rightSide.undefBlocks.foldl (fun s block =>
          block.subrange.foldl (fun s undef => if undef.row < it.row then
            act (joinCallbacks config leftSide rightSide bl br beg) it undef {s with compatibleWasFound := true} else s)
          (mapTarget (setInput bl block.fullBlock) s)) {s with compatibleWasFound := false})
        if t.compatibleWasFound then cover (joinCallbacks config leftSide rightSide bl br beg) it t
        else if hasNoMatch then cover (joinCallbacks config leftSide rightSide bl br beg) it
          (notFound (joinCallbacks config leftSide rightSide bl br beg) it t) else t := by
      simp [visit,mergeWithUndefRight,containsNoUndefined,findUndefValues,joinCallbacks,potential,defined]
    rw [unfolded,folded]
    have reset : Emits action (middle.setInput bl br) (product [(bl,it)] (items rightSide.undefBlocks)) [] := by
      exact ⟨emits.rows,emits.optionalRows,emits.kept⟩
    cases none : (items rightSide.undefBlocks).isEmpty with
    | true =>
      have noItems : items rightSide.undefBlocks = [] := List.isEmpty_iff.mp none
      have inputs : Ok bl br {s with target := .ok (middle.setInput bl br),compatibleWasFound := false}
        (middle.setInput bl br) := ⟨rfl,rfl,rfl⟩
      exact report_effect undefs none it range hasNoMatch s _ action rfl (middle.setInput bl br) inputs
        (by simpa [noItems] using reset)
    | false =>
      refine ⟨middle.setInput bl br,⟨?_,rfl,rfl⟩,?_,?_⟩
      · simp [mapTarget,Except.map,cover_eq]
      · simpa [pairsOf,optionalOf,none] using reset
      · simp [mapTarget,cover_eq,coversOf,none]

private theorem visit_left_effect (lawful : config.Lawful) (undefs : Undefs config leftSide.undefBlocks)
    (it : Iter κ) (defined : config.isUndef it.row = false) (range : List (Iter κ))
    (s : State Target) (action : RowAction) (ok : Ok bl br s action) :
    ∃ action',VisitEffect config leftSide rightSide bl br beg (.left it range) s
      (visit (joinCallbacks config leftSide rightSide bl br beg) s (.left it range)) action action' := by
  have less : ∀ block ∈ leftSide.undefBlocks,∀ undef ∈ block.subrange,undef.row < it.row :=
    fun block member undef inside => lawful undef.row it.row (undefs.mem member inside) defined
  cases potential : config.potentiallyHasUndef with
  | false =>
    have none : items leftSide.undefBlocks = [] := by
      have noUndef : hasUndef config leftSide = false := by simp [hasUndef,potential]
      simpa [hasUndef_eq undefs] using noUndef
    have unfolded : visit (joinCallbacks config leftSide rightSide bl br beg) s (.left it range) = s := by
      simp [visit,mergeWithUndefLeft,joinCallbacks,potential]
    rw [unfolded]
    refine ⟨action,ok,?_,?_⟩
    · simpa [pairsOf,optionalOf,none] using Emits.refl action
    · simp [coversOf,setAll]
  | true =>
    obtain ⟨middle,folded,emits⟩ := foldl_undefLeft (joinCallbacks config leftSide rightSide bl br beg) (fun _ _ _ => rfl)
      (by simp [joinCallbacks,potential]) br it leftSide.undefBlocks less s action ok.target
    have unfolded : visit (joinCallbacks config leftSide rightSide bl br beg) s (.left it range) =
        mapTarget (setInput bl br) (leftSide.undefBlocks.foldl (fun s block =>
          block.subrange.foldl (fun s undef => if undef.row < it.row then
            if (joinCallbacks config leftSide rightSide bl br beg).coverUndefRanges then
              cover (joinCallbacks config leftSide rightSide bl br beg) undef
                (act (joinCallbacks config leftSide rightSide bl br beg) undef it s)
            else act (joinCallbacks config leftSide rightSide bl br beg) undef it s else s)
          (mapTarget (setInput block.fullBlock br) s)) s) := by
      simp [visit,mergeWithUndefLeft,findUndefValues,joinCallbacks,potential]
    rw [unfolded,folded]
    refine ⟨middle.setInput bl br,⟨rfl,rfl,rfl⟩,?_,?_⟩
    · exact ⟨emits.rows,emits.optionalRows,emits.kept⟩
    · simp [mapTarget,coversOf,setAll]

omit [LinearOrder κ] in
private theorem foldl_same (it : Iter κ) (others : List (Iter κ)) (s : State Target) (action : RowAction)
    (ok : Ok bl br s action) :
    others.foldl (fun s other => act (joinCallbacks config leftSide rightSide bl br beg) it other s) s =
      {s with target := .ok {action with rows := action.rows ++ others.map (fun other => ((bl,it.pos),(br,other.pos)))}} := by
  induction others generalizing s action with
  | nil => simp [← ok.target]
  | cons other others ih =>
    have first : Ok bl br (act (joinCallbacks config leftSide rightSide bl br beg) it other s) (action.addRow it.pos other.pos) :=
      ⟨by simp [act,joinCallbacks,ok.target,Except.map],ok.inputLeft,ok.inputRight⟩
    rw [foldl_cons,ih _ _ first]
    simp [act,addRow,ok.inputLeft,ok.inputRight]

private theorem visit_same_effect (it : Iter κ) (others : List (Iter κ)) (s : State Target) (action : RowAction)
    (ok : Ok bl br s action) :
    ∃ action',VisitEffect config leftSide rightSide bl br beg (.same it others) s
      (visit (joinCallbacks config leftSide rightSide bl br beg) s (.same it others)) action action' := by
  have start : Ok bl br (cover (joinCallbacks config leftSide rightSide bl br beg) it s) action :=
    ⟨by rw [cover_eq]; exact ok.target,ok.inputLeft,ok.inputRight⟩
  rw [visit,foldl_same it others _ action start,cover_eq]
  refine ⟨_,⟨rfl,ok.inputLeft,ok.inputRight⟩,⟨?_,?_,?_⟩,?_⟩
  · simp [pairsOf,product,nestedLoop,places,place,comp_def]
  · simp [optionalOf]
  · exact prefix_append _ _
  · simp [coversOf]

section
variable (bl br beg : Nat) (lawful : config.Lawful) (undefsLeft : Undefs config leftSide.undefBlocks) (undefsRight : Undefs config rightSide.undefBlocks)
include lawful undefsLeft undefsRight

theorem visit_effect (v : Visit κ) (defined : config.isUndef (Visit.iter v).row = false)
    (s : State Target) (action : RowAction) (ok : Ok bl br s action) :
    ∃ action',VisitEffect config leftSide rightSide bl br beg v s
      (visit (joinCallbacks config leftSide rightSide bl br beg) s v) action action' := by
  cases v with
  | right it range hasNoMatch => exact visit_right_effect lawful undefsRight it defined range hasNoMatch s action ok
  | left it range => exact visit_left_effect lawful undefsLeft it defined range s action ok
  | same it others => exact visit_same_effect it others s action ok

theorem visits_effect (visits : List (Visit κ))
    (defined : ∀ v ∈ visits,config.isUndef (Visit.iter v).row = false) (s : State Target) (action : RowAction)
    (ok : Ok bl br s action) :
    ∃ action',Ok bl br (visits.foldl (visit (joinCallbacks config leftSide rightSide bl br beg)) s) action' ∧
      Emits action action' (visits.flatMap (pairsOf leftSide rightSide bl br)) (visits.flatMap (optionalOf config rightSide bl)) ∧
      (visits.foldl (visit (joinCallbacks config leftSide rightSide bl br beg)) s).coveredFromLeft =
        if config.doOptionalJoin then setAll s.coveredFromLeft (visits.flatMap (coversOf rightSide beg))
        else s.coveredFromLeft := by
  induction visits generalizing s action with
  | nil => exact ⟨action,ok,Emits.refl action,by simp [setAll]⟩
  | cons v visits ih =>
    obtain ⟨middle,effect⟩ := visit_effect bl br beg lawful undefsLeft undefsRight v (defined v mem_cons_self) s action ok
    obtain ⟨action',okEnd,emits,covered⟩ := ih (forall_mem_cons.mp defined).2 _ middle effect.ok
    refine ⟨action',okEnd,effect.emits.trans emits,?_⟩
    rw [foldl_cons,covered,effect.covered]
    cases config.doOptionalJoin <;> simp [setAll]

end

theorem merged_pairsOf (lawful : config.Lawful) (undefsLeft : Undefs config leftSide.undefBlocks)
    (undefsRight : Undefs config rightSide.undefBlocks) {v : Visit κ} (defined : config.isUndef (Visit.iter v).row = false)
    {left right : List (Iter κ)} (sound : v.Sound left right) : ∀ pair ∈ pairsOf leftSide rightSide bl br v,merged pair = v.row := by
  have undefLess : ∀ {blocks : List (BlockAndSubrange κ)},Undefs config blocks → ∀ item ∈ items blocks,key item < (Visit.iter v).row := by
    intro blocks undefs item member
    obtain ⟨block,present,inside⟩ := mem_flatMap.mp member
    obtain ⟨it,isIter,rfl⟩ := List.mem_map.mp inside
    exact lawful _ _ (undefs.mem present isIter) defined
  intro pair member
  obtain ⟨x,y⟩ := pair
  cases v with
  | right it range hasNoMatch =>
    obtain ⟨isLeft,isUndef,_⟩ := (mem_nestedLoop _ _ _ _ _).mp member
    rw [merged,mem_singleton.mp isLeft]
    exact max_eq_left (undefLess undefsRight y isUndef).le
  | left it range =>
    obtain ⟨isUndef,isRight,_⟩ := (mem_nestedLoop _ _ _ _ _).mp member
    rw [merged,mem_singleton.mp isRight]
    exact max_eq_right (undefLess undefsLeft x isUndef).le
  | same it others =>
    obtain ⟨isLeft,isRight,_⟩ := (mem_nestedLoop _ _ _ _ _).mp member
    obtain ⟨other,isOther,rfl⟩ := List.mem_map.mp isRight
    rw [show others = _ from sound] at isOther
    have equal : other.row = it.row := by simpa using (mem_filter.mp isOther).2
    rw [merged,mem_singleton.mp isLeft]
    simp only [key,equal,max_self]
    rfl

theorem visits_inOrder (bl br beg : Nat) (lawful : config.Lawful) (undefsLeft : Undefs config leftSide.undefBlocks)
    (undefsRight : Undefs config rightSide.undefBlocks) {left right : List (Iter κ)} (visits : List (Visit κ))
    (defined : ∀ v ∈ visits,config.isUndef (Visit.iter v).row = false) (sound : ∀ v ∈ visits,v.Sound left right)
    (ordered : visits.Pairwise (fun v w => v.row ≤ w.row)) {s : State Target} {action action' : RowAction} (ok : Ok bl br s action)
    (okEnd : Ok bl br (visits.foldl (visit (joinCallbacks config leftSide rightSide bl br beg)) s) action') :
    InOrder action action' (visits.flatMap (pairsOf leftSide rightSide bl br)) := by
  induction visits generalizing s action with
  | nil =>
    have same := ok.target.symm.trans okEnd.target
    injection same with same
    rw [same]
    exact InOrder.refl _
  | cons v visits ih =>
    obtain ⟨middle,effect⟩ := visit_effect bl br beg lawful undefsLeft undefsRight v (defined v mem_cons_self) s action ok
    obtain ⟨first,rest⟩ := pairwise_cons.mp ordered
    have rows : ∀ w ∈ v::visits,∀ pair ∈ pairsOf leftSide rightSide bl br w,merged pair = w.row :=
      fun w member => merged_pairsOf lawful undefsLeft undefsRight (defined w member) (sound w member)
    have now : InOrder action middle (pairsOf leftSide rightSide bl br v) := effect.emits.inOrder (rows v mem_cons_self)
    have later := ih (forall_mem_cons.mp defined).2 (forall_mem_cons.mp sound).2 rest
      effect.ok okEnd
    refine now.trans later ?_
    intro p hp q hq
    obtain ⟨w,member,inside⟩ := mem_flatMap.mp hq
    rw [rows v mem_cons_self p hp,rows w (mem_cons_of_mem v member) q inside]
    exact first w member

def equalPairs (left right : List (Item κ)) : List (Item κ × Item κ) := nestedLoop (fun x y => key x = key y) left right

def unmatched (right : List (Item κ)) (item : Item κ) : Bool := !right.any (fun other => key other = key item)

def joined (undefLeft undefRight left right : List (Item κ)) : List (Item κ × Item κ) :=
  equalPairs left right ++ product left undefRight ++ product undefLeft right

/-- The rows of `left` without a partner, for an optional join. -/
def optionalItems (doOptionalJoin : Bool) (undefRight left right : List (Item κ)) : List (Item κ) :=
  if doOptionalJoin && undefRight.isEmpty then left.filter (unmatched right) else []

theorem merged_joined {undefLeft undefRight left right : List (Item κ)} (lessLeft : ∀ u ∈ undefRight,∀ x ∈ left,key u ≤ key x)
    (lessRight : ∀ u ∈ undefLeft,∀ y ∈ right,key u ≤ key y) {pair : Item κ × Item κ} (member : pair ∈ joined undefLeft undefRight left right) :
    ∃ item ∈ left ++ right,merged pair = key item := by
  obtain ⟨x,y⟩ := pair
  simp only [joined,equalPairs,product,mem_append,mem_nestedLoop,and_true,decide_eq_true_eq] at member
  rcases member with (⟨isLeft,_,equal⟩ | ⟨isLeft,isUndef⟩) | ⟨isUndef,isRight⟩
  · exact ⟨x,mem_append_left _ isLeft,by rw [merged,equal,max_self]⟩
  · exact ⟨x,mem_append_left _ isLeft,max_eq_left (lessLeft y isUndef x isLeft)⟩
  · exact ⟨y,mem_append_right _ isRight,max_eq_right (lessRight x isUndef y isRight)⟩

theorem Undefs.key_le (lawful : config.Lawful) {blocks : List (BlockAndSubrange κ)} (undefs : Undefs config blocks) {its : List (Item κ)}
    (defined : ∀ item ∈ its,config.isUndef (key item) = false) : ∀ u ∈ items blocks,∀ x ∈ its,key u ≤ key x := by
  intro u member x inside
  obtain ⟨block,present,inBlock⟩ := mem_flatMap.mp member
  obtain ⟨it,isIter,rfl⟩ := List.mem_map.mp inBlock
  exact (lawful _ _ (undefs.mem present isIter) (defined x inside)).le

section Sums
variable {visits : List (Visit κ)} {left right : List (Iter κ)}

section
omit [LinearOrder κ]

private theorem flatMap_product_left (left : List (Iter κ)) (others : List (Item κ)) :
    left.flatMap (fun it => product [(bl,it)] others) = product (left.map (Prod.mk bl)) others := by
  simp [product,nestedLoop,flatMap_map]

private theorem flatMap_product_right (others : List (Item κ)) (right : List (Iter κ)) :
    (right.flatMap (fun it => product others [(br,it)])).Perm (product others (right.map (Prod.mk br))) := by
  induction right with
  | nil => simp
  | cons it right ih =>
    rw [flatMap_cons,map_cons]
    exact (ih.append_left _).trans (nestedLoop_append_right _ _ [(br,it)] _).symm

end

private theorem flatMap_equal (left right : List (Iter κ)) :
    (left.filter (hasEqual right)).flatMap (fun it => product [(bl,it)] ((right.filter (fun other => other.row = it.row)).map
      (Prod.mk br))) = equalPairs (left.map (Prod.mk bl)) (right.map (Prod.mk br)) := by
  rw [flatMap_filter_of_nil]
  · simp [equalPairs,product,nestedLoop,flatMap_map,filter_map,comp_def,key,eq_comm]
  · intro it _ none
    simp only [hasEqual,any_eq_false] at none
    have nil : right.filter (fun other => decide (other.row = it.row)) = [] := by
      simpa [filter_eq_nil_iff] using none
    simp [nil]

section
variable (complete : Complete left right visits)
include complete

theorem visits_pairs_perm :
    (visits.flatMap (pairsOf leftSide rightSide bl br)).Perm (joined (items leftSide.undefBlocks)
      (items rightSide.undefBlocks) (left.map (Prod.mk bl)) (right.map (Prod.mk br))) := by
  have pairs := complete.flatMap_perm (pairsOf leftSide rightSide bl br)
    (fun it => product [(bl,it)] (items rightSide.undefBlocks)) (fun it => product (items leftSide.undefBlocks) [(br,it)])
    (fun it => product [(bl,it)] ((right.filter (fun other => other.row = it.row)).map (Prod.mk br))) (by
      intro v member
      have sound := complete.sound v member
      cases v with
      | right it range hasNoMatch | left it range => exact List.Perm.refl _
      | same it others => rw [pairsOf,show others = _ from sound]; exact List.Perm.refl _)
  rw [flatMap_product_left,flatMap_equal] at pairs
  apply pairs.trans
  apply perm_append_comm.trans
  rw [joined,append_assoc]
  exact ((flatMap_product_right _ _).append_left _).append_left _

theorem visits_optional_perm :
    (visits.flatMap (optionalOf config rightSide bl)).Perm (optionalItems config.doOptionalJoin (items rightSide.undefBlocks)
      (left.map (Prod.mk bl)) (right.map (Prod.mk br))) := by
  have rows := complete.flatMap_perm (optionalOf config rightSide bl)
    (fun it => if config.doOptionalJoin && (items rightSide.undefBlocks).isEmpty && !hasEqual right it then [(bl,it)] else [])
    (fun _ => []) (fun _ => []) (by
      intro v member
      have sound := complete.sound v member
      cases v with
      | right it range hasNoMatch => rw [optionalOf,sound.2.2]; exact List.Perm.refl _
      | left it range => exact List.Perm.refl _
      | same it others => exact List.Perm.refl _)
  apply rows.trans
  have nothing : ∀ its : List (Iter κ),its.flatMap (fun _ => ([] : List (Item κ))) = [] := by simp
  rw [flatMap_if_singleton,nothing,nothing,append_nil,append_nil]
  cases on : (config.doOptionalJoin && (items rightSide.undefBlocks).isEmpty) with
  | false => simp [optionalItems,on]
  | true =>
    have test : ∀ it,unmatched (right.map (Prod.mk br)) (bl,it) = !hasEqual right it := by
      intro it
      simp only [unmatched,hasEqual,any_map,comp_def]
      rfl
    simp [optionalItems,on,filter_map,comp_def,test]

theorem visits_cover {it : Iter κ} (member : it ∈ left) :
    it.pos - beg ∈ visits.flatMap (coversOf rightSide beg) := by
  have covers := complete.flatMap_perm (coversOf rightSide beg)
    (fun it => if !(items rightSide.undefBlocks).isEmpty || !hasEqual right it then [it.pos - beg] else [])
    (fun _ => []) (fun it => [it.pos - beg]) (by
      intro v member
      have sound := complete.sound v member
      cases v with
      | right it range hasNoMatch => rw [coversOf,sound.2.2]; exact List.Perm.refl _
      | left it range => exact List.Perm.refl _
      | same it others => exact List.Perm.refl _)
  rw [covers.mem_iff,mem_append,mem_append]
  cases equal : hasEqual right it with
  | true => exact Or.inr (mem_flatMap.mpr ⟨it,mem_filter.mpr ⟨member,equal⟩,by simp⟩)
  | false => exact Or.inl (Or.inl (mem_flatMap.mpr ⟨it,member,by simp [equal]⟩))

end

end Sums

theorem zipper_emits (lawful : config.Lawful) (undefsLeft : Undefs config leftSide.undefBlocks)
    (undefsRight : Undefs config rightSide.undefBlocks) (left right : BlockAndSubrange κ)
    (sortedLeft : left.elements.Pairwise (· ≤ ·)) (sortedRight : right.elements.Pairwise (· ≤ ·))
    (definedLeft : ∀ element ∈ left.elements,config.isUndef element = false)
    (definedRight : ∀ element ∈ right.elements,config.isUndef element = false) (action : RowAction) :
    ∃ action',(zipperJoinWithUndef (joinCallbacks config leftSide rightSide left.fullBlock right.fullBlock left.first)
        left.subrange right.subrange (.ok (action.setInput left.fullBlock right.fullBlock))).1 = .ok action' ∧
      Emits action action' (joined (items leftSide.undefBlocks) (items rightSide.undefBlocks) left.items right.items)
        (optionalItems config.doOptionalJoin (items rightSide.undefBlocks) left.items right.items) ∧
      InOrder action action' (joined (items leftSide.undefBlocks) (items rightSide.undefBlocks) left.items right.items) := by
  obtain ⟨visits,run,complete⟩ := mergeAll_visits
    (joinCallbacks config leftSide rightSide left.fullBlock right.fullBlock left.first)
    (sorted_iters left.first left.elements sortedLeft) (sorted_iters right.first right.elements sortedRight)
    (initialState (joinCallbacks config leftSide rightSide left.fullBlock right.fullBlock left.first)
      (iters left.first left.elements) (.ok (action.setInput left.fullBlock right.fullBlock)))
  have element : ∀ start (elements : List κ),∀ it ∈ iters start elements,it.row ∈ elements := by
    intro start elements it member
    rw [← map_row_iters start elements]
    exact mem_map_of_mem member
  have defined : ∀ v ∈ visits,config.isUndef (Visit.iter v).row = false := by
    intro v member
    cases v with
    | right it range hasNoMatch => exact definedLeft _ (element _ _ _ (complete.mem_left member it rfl))
    | left it range => exact definedRight _ (element _ _ _ (complete.mem_right member it rfl))
    | same it others =>
      have present : it ∈ visits.filterMap Visit.same? := mem_filterMap.mpr ⟨_,member,rfl⟩
      rw [complete.sames] at present
      exact definedLeft _ (element _ _ _ (mem_filter.mp present).1)
  obtain ⟨action',ok,emits,covered⟩ := visits_effect left.fullBlock right.fullBlock left.first lawful undefsLeft undefsRight visits defined
    (initialState (joinCallbacks config leftSide rightSide left.fullBlock right.fullBlock left.first)
      (iters left.first left.elements) (.ok (action.setInput left.fullBlock right.fullBlock)))
    (action.setInput left.fullBlock right.fullBlock) ⟨rfl,rfl,rfl⟩
  have inOrder : InOrder (action.setInput left.fullBlock right.fullBlock) action' (visits.flatMap (pairsOf leftSide rightSide _ _)) :=
    visits_inOrder left.fullBlock right.fullBlock left.first lawful undefsLeft undefsRight visits defined complete.sound complete.ordered
      ⟨rfl,rfl,rfl⟩ ok
  rw [← run] at ok covered
  have noneLeft : (if (joinCallbacks config leftSide rightSide left.fullBlock right.fullBlock left.first).hasNotFoundAction then
      uncovered left.subrange (mergeAll (joinCallbacks config leftSide rightSide left.fullBlock right.fullBlock left.first)
        left.subrange right.subrange (initialState
          (joinCallbacks config leftSide rightSide left.fullBlock right.fullBlock left.first) left.subrange
          (.ok (action.setInput left.fullBlock right.fullBlock)))) else []) = [] := by
    cases optional : config.doOptionalJoin with
    | false => simp [Callbacks.hasNotFoundAction,joinCallbacks,optional]
    | true =>
      have present : (joinCallbacks config leftSide rightSide left.fullBlock right.fullBlock left.first).hasNotFoundAction = true := by
        simp [Callbacks.hasNotFoundAction,joinCallbacks,optional]
      rw [optional,if_pos rfl] at covered
      rw [if_pos present,BlockAndSubrange.subrange,BlockAndSubrange.subrange,
        uncovered_eq _ _ _ _ (by rw [covered,initialState,present,if_pos rfl])]
      rw [filter_eq_nil_iff]
      intro it member
      simpa using visits_cover complete member
  refine ⟨action',?_,?_,inOrder.perm (visits_pairs_perm complete)⟩
  · rw [zipperJoinWithUndef]
    simp only [noneLeft,foldl_nil]
    exact ok.target
  · have start : Emits (κ := κ) action (action.setInput left.fullBlock right.fullBlock) [] [] :=
      ⟨by simp [setInput],by simp [setInput],prefix_rfl⟩
    exact (start.trans emits).perm (visits_pairs_perm complete) (visits_optional_perm complete)

end Zipper
end Qlever.BlockZipperJoin
