import Qlever.BlockZipperJoin
import Qlever.ZipperJoinVisits
import Qlever.Library.NestedLoop

/-! The rows that the steps of the block zipper add, as multisets of pairs of items.
An item is an element of a block together with its block.
-/
namespace Qlever.BlockZipperJoin
open ZipperJoin Library List
open Function (comp_def)
variable {κ : Type}

abbrev Item (κ : Type) := Nat × Iter κ

def key (item : Item κ) : κ := item.2.row

def place (item : Item κ) : Nat × Nat := (item.1,item.2.pos)

def places (pair : Item κ × Item κ) : (Nat × Nat) × (Nat × Nat) := (place pair.1,place pair.2)

def BlockAndSubrange.items (block : BlockAndSubrange κ) : List (Item κ) := block.subrange.map (Prod.mk block.fullBlock)

def items (blocks : List (BlockAndSubrange κ)) : List (Item κ) := blocks.flatMap BlockAndSubrange.items

def product (left right : List (Item κ)) : List (Item κ × Item κ) := nestedLoop (fun _ _ => true) left right

@[simp] theorem items_nil : items ([] : List (BlockAndSubrange κ)) = [] := rfl

variable (block : BlockAndSubrange κ)

@[simp] theorem items_cons (blocks : List (BlockAndSubrange κ)) :
    items (block::blocks) = block.items ++ items blocks := rfl

@[simp] theorem items_append (first second : List (BlockAndSubrange κ)) : items (first ++ second) = items first ++ items second := by
  simp [items]

open BlockAndSubrange

theorem map_key_items : block.items.map key = block.elements := by
  have rows := map_row_iters block.first block.elements
  simpa [BlockAndSubrange.items,subrange,key,comp_def] using rows

theorem map_place_items :
    block.items.map place = block.getIndexRange.map (Prod.mk block.fullBlock) := by
  rw [getIndexRange,← map_pos_iters]
  simp [BlockAndSubrange.items,subrange,place]

@[simp] theorem product_nil_left (right : List (Item κ)) : product [] right = [] := rfl

@[simp] theorem product_nil_right (left : List (Item κ)) : product left [] = [] := by
  simp [product,nestedLoop]

theorem map_places_product (left right : List (Item κ)) :
    (product left right).map places = (left.map place).flatMap (fun p => (right.map place).map (Prod.mk p)) := by
  simp [product,nestedLoop,map_flatMap,flatMap_map,places,comp_def]

structure Emits (before after : RowAction) (pairs : List (Item κ × Item κ)) (optional : List (Item κ)) : Prop where
  rows : after.rows.Perm (before.rows ++ pairs.map places)
  optionalRows : after.optionalRows.Perm (before.optionalRows ++ optional.map place)
  kept : before.rows <+: after.rows

section Emits
variable {before middle after : RowAction} {pairs pairs' : List (Item κ × Item κ)} {optional optional' : List (Item κ)}

theorem Emits.refl (action : RowAction) : Emits (κ := κ) action action [] [] := by
  constructor <;> simp

theorem Emits.trans (first : Emits before middle pairs optional) (second : Emits middle after pairs' optional') :
    Emits before after (pairs ++ pairs') (optional ++ optional') := by
  constructor
  · apply second.rows.trans
    rw [map_append,← append_assoc]
    exact first.rows.append_right _
  · apply second.optionalRows.trans
    rw [map_append,← append_assoc]
    exact first.optionalRows.append_right _
  · exact first.kept.trans second.kept

theorem Emits.perm (emits : Emits before after pairs optional) (samePairs : pairs.Perm pairs')
    (sameOptional : optional.Perm optional') : Emits before after pairs' optional' := by
  constructor
  · exact emits.rows.trans ((samePairs.map _).append_left _)
  · exact emits.optionalRows.trans ((sameOptional.map _).append_left _)
  · exact emits.kept

theorem Emits.foldl {γ : Type} (step : RowAction → γ → RowAction) (pairsOf : γ → List (Item κ × Item κ))
    (optionalOf : γ → List (Item κ)) (each : ∀ action x, Emits action (step action x) (pairsOf x) (optionalOf x))
    (xs : List γ) (action : RowAction) :
    Emits action (xs.foldl step action) (xs.flatMap pairsOf) (xs.flatMap optionalOf) := by
  induction xs generalizing action with
  | nil => exact Emits.refl action
  | cons x xs ih => exact (each action x).trans (ih (step action x))

theorem Emits.exists_ordered (emits : Emits before after pairs optional) :
    ∃ ordered : List (Item κ × Item κ),ordered.Perm pairs ∧ after.rows = before.rows ++ ordered.map places := by
  obtain ⟨added,rows⟩ := emits.kept
  have perm := emits.rows
  rw [← rows,perm_append_left_iff] at perm
  have related : (fun l m => l.Perm (List.map places m)) added pairs := perm
  rw [← eq_map_comp_perm] at related
  obtain ⟨ordered,isMap,same⟩ := related
  exact ⟨ordered,same,by rw [← rows,isMap]⟩

end Emits

section Order
variable [LinearOrder κ] {before middle after : RowAction} {pairs pairs' : List (Item κ × Item κ)} {optional : List (Item κ)}

def merged (pair : Item κ × Item κ) : κ := max (key pair.1) (key pair.2)

def InOrder (before after : RowAction) (pairs : List (Item κ × Item κ)) : Prop :=
  ∃ ordered : List (Item κ × Item κ),ordered.Perm pairs ∧ after.rows = before.rows ++ ordered.map places ∧
    ordered.Pairwise (fun p q => merged p ≤ merged q)

theorem InOrder.refl (action : RowAction) : InOrder (κ := κ) action action [] := ⟨[],List.Perm.refl _,by simp,List.Pairwise.nil⟩

theorem InOrder.trans (first : InOrder before middle pairs) (second : InOrder middle after pairs')
    (above : ∀ p ∈ pairs,∀ q ∈ pairs',merged p ≤ merged q) : InOrder before after (pairs ++ pairs') := by
  obtain ⟨ordered,perm,rows,sorted⟩ := first
  obtain ⟨ordered',perm',rows',sorted'⟩ := second
  refine ⟨ordered ++ ordered',perm.append perm',by rw [rows',rows,map_append,append_assoc],?_⟩
  refine pairwise_append.mpr ⟨sorted,sorted',?_⟩
  intro p hp q hq
  exact above p (perm.mem_iff.mp hp) q (perm'.mem_iff.mp hq)

theorem InOrder.perm (inOrder : InOrder before after pairs) (same : pairs.Perm pairs') : InOrder before after pairs' := by
  obtain ⟨ordered,perm,rows,sorted⟩ := inOrder
  exact ⟨ordered,perm.trans same,rows,sorted⟩

theorem Emits.inOrder (emits : Emits before after pairs optional) {value : κ} (single : ∀ pair ∈ pairs,merged pair = value) :
    InOrder before after pairs := by
  obtain ⟨ordered,perm,rows⟩ := emits.exists_ordered
  refine ⟨ordered,perm,rows,pairwise_of_forall_mem_list ?_⟩
  intro p hp q hq
  rw [single p (perm.mem_iff.mp hp),single q (perm.mem_iff.mp hq)]

end Order

structure Adds (before after : RowAction) (pairs : List (Item κ × Item κ)) : Prop where
  rows : after.rows = before.rows ++ pairs.map places
  optionalRows : after.optionalRows = before.optionalRows

section Adds
variable {before middle after : RowAction} {pairs pairs' : List (Item κ × Item κ)}

theorem Adds.trans (first : Adds before middle pairs) (second : Adds middle after pairs') : Adds before after (pairs ++ pairs') := by
  constructor
  · rw [second.rows,first.rows,map_append,append_assoc]
  · rw [second.optionalRows,first.optionalRows]

theorem Adds.foldl {γ : Type} (step : RowAction → γ → RowAction) (pairsOf : γ → List (Item κ × Item κ))
    (each : ∀ action x,Adds action (step action x) (pairsOf x)) (xs : List γ) (action : RowAction) :
    Adds action (xs.foldl step action) (xs.flatMap pairsOf) := by
  induction xs generalizing action with
  | nil => exact ⟨by simp,rfl⟩
  | cons x xs ih => exact (each action x).trans (ih (step action x))

theorem Adds.emits (adds : Adds before after pairs) (same : pairs.Perm pairs') : Emits before after pairs' [] := by
  constructor
  · rw [adds.rows]
    exact (same.map _).append_left _
  · rw [adds.optionalRows,map_nil,append_nil]
  · rw [adds.rows]
    exact prefix_append _ _

end Adds

def reversedProduct (left right : List (Item κ)) : List (Item κ × Item κ) := right.flatMap (fun y => left.map (fun x => (x,y)))

theorem reversedProduct_perm (left right : List (Item κ)) : (reversedProduct left right).Perm (product left right) := by
  have swapped := nestedLoop_swap (fun _ _ => true) left right
  simp only [filter_true] at swapped
  exact swapped

private theorem foldl_addRow (i : Nat) (js : List Nat) (action : RowAction) :
    js.foldl (fun action j => action.addRow i j) action =
      {action with rows := action.rows ++ js.map (fun j => ((action.inputLeft,i),(action.inputRight,j)))} := by
  induction js generalizing action with
  | nil => simp
  | cons j js ih =>
    rw [foldl_cons,ih]
    simp [RowAction.addRow]

private theorem foldl_foldl_addRow (is js : List Nat) (action : RowAction) :
    is.foldl (fun action i => js.foldl (fun action j => action.addRow i j) action) action =
      {action with rows := action.rows ++ is.flatMap (fun i => js.map (fun j =>
        ((action.inputLeft,i),(action.inputRight,j))))} := by
  induction is generalizing action with
  | nil => simp
  | cons i is ih =>
    rw [foldl_cons,foldl_addRow,ih]
    simp

private theorem foldl_reversed (is js : List Nat) (action : RowAction) :
    is.foldl (fun action i => js.foldl (fun action j => action.addRow j i) action) action =
      {action with rows := action.rows ++ is.flatMap (fun i => js.map (fun j =>
        ((action.inputLeft,j),(action.inputRight,i))))} := by
  have inner : ∀ (i : Nat) (js : List Nat) (action : RowAction),js.foldl (fun action j => action.addRow j i) action =
      {action with rows := action.rows ++ js.map (fun j => ((action.inputLeft,j),(action.inputRight,i)))} := by
    intro i js
    induction js with
    | nil => simp
    | cons j js ih =>
      intro action
      rw [foldl_cons,ih]
      simp [RowAction.addRow]
  induction is generalizing action with
  | nil => simp
  | cons i is ih =>
    rw [foldl_cons,inner,ih]
    simp

private theorem foldl_addOptionalRow (is : List Nat) (action : RowAction) :
    is.foldl (fun action i => action.addOptionalRow i) action =
      {action with optionalRows := action.optionalRows ++ is.map (Prod.mk action.inputLeft)} := by
  induction is generalizing action with
  | nil => simp
  | cons i is ih =>
    rw [foldl_cons,ih]
    simp [RowAction.addOptionalRow]

section
variable (left right : BlockAndSubrange κ) (action : RowAction)

private theorem addBlocks_adds :
    Adds action (left.getIndexRange.foldl (fun action i => right.getIndexRange.foldl (fun action j => action.addRow i j) action)
      (action.setInput left.fullBlock right.fullBlock)) (product left.items right.items) := by
  rw [foldl_foldl_addRow]
  constructor
  · rw [map_places_product,map_place_items,map_place_items]
    simp [RowAction.setInput,flatMap_map,comp_def]
  · simp [RowAction.setInput]

private theorem addReversed_adds :
    Adds action (right.getIndexRange.foldl (fun action i => left.getIndexRange.foldl (fun action j => action.addRow j i) action)
      (action.setInput left.fullBlock right.fullBlock)) (reversedProduct left.items right.items) := by
  have leftPlaces := map_place_items left
  have rightPlaces := map_place_items right
  rw [foldl_reversed]
  constructor
  · have places : (reversedProduct left.items right.items).map places =
        (right.items.map place).flatMap (fun q => (left.items.map place).map (fun p => (p,q))) := by
      simp [reversedProduct,map_flatMap,flatMap_map,BlockZipperJoin.places,comp_def]
    rw [places,leftPlaces,rightPlaces]
    simp [RowAction.setInput,flatMap_map,comp_def]
  · simp [RowAction.setInput]

end

theorem product_flatMap_right (left : List (Item κ)) (right : List (BlockAndSubrange κ)) :
    (right.flatMap (fun block => product left block.items)).Perm (product left (items right)) := by
  induction right with
  | nil => simp
  | cons block right ih =>
    rw [flatMap_cons,items_cons]
    exact (ih.append_left _).trans (nestedLoop_append_right _ _ _ _).symm

section
variable (left : List (BlockAndSubrange κ))

theorem product_flatMap_left (right : List (Item κ)) :
    left.flatMap (fun block => product block.items right) = product (items left) right := by
  simp [product,nestedLoop,items,flatMap_assoc]

section
variable (right : List (BlockAndSubrange κ)) (action : RowAction)

theorem addCartesianProduct_adds :
    Adds action (addCartesianProduct left right action)
      (left.flatMap (fun lBlock => right.flatMap (fun rBlock => product lBlock.items rBlock.items))) :=
  Adds.foldl _ _ (fun action lBlock => Adds.foldl _ _ (fun action rBlock => addBlocks_adds lBlock rBlock action) right action) left action

theorem addCartesianProduct_emits :
    Emits action (addCartesianProduct left right action) (product (items left) (items right)) [] := by
  refine (addCartesianProduct_adds left right action).emits ?_
  rw [← product_flatMap_left]
  exact List.Perm.flatMap_left left (fun block _ => product_flatMap_right block.items right)

end

end

theorem addOptionalRows_emits (blocks : List (BlockAndSubrange κ)) (action : RowAction) :
    Emits action (addOptionalRows blocks action) [] (items blocks) := by
  have folded := Emits.foldl (fun action block => block.getIndexRange.foldl (fun action i => action.addOptionalRow i)
      (action.setOnlyLeftInputForOptionalJoin block.fullBlock)) (fun _ => []) BlockAndSubrange.items
    (fun action block => by
      rw [foldl_addOptionalRow]
      constructor
      · simp [RowAction.setOnlyLeftInputForOptionalJoin]
      · simp [map_place_items,RowAction.setOnlyLeftInputForOptionalJoin]
      · exact prefix_rfl) blocks action
  exact folded.perm (by simp) (List.Perm.refl _)

section
variable (it : List (Block κ)) (undefBlocks : List (BlockAndSubrange κ)) (action : RowAction)

theorem consumeRemainingBlocks_eq :
    consumeRemainingBlocks false it undefBlocks action = addCartesianProduct (it.map ofBlock) undefBlocks action := by
  simp [consumeRemainingBlocks,addCartesianProduct,foldl_map,ofBlock,
    getIndexRange,range_eq_range']

theorem consumeRemainingBlocks_emits :
    Emits action (consumeRemainingBlocks false it undefBlocks action)
      (product (items (it.map ofBlock)) (items undefBlocks)) [] := by
  rw [consumeRemainingBlocks_eq]
  exact addCartesianProduct_emits _ _ _

theorem consumeRemainingBlocks_reversed_adds :
    Adds action (consumeRemainingBlocks true it undefBlocks action) ((it.map ofBlock).flatMap (fun lBlock =>
      undefBlocks.flatMap (fun rBlock => reversedProduct rBlock.items lBlock.items))) := by
  have blocks := Adds.foldl (fun action lBlock => undefBlocks.foldl (fun action rBlock =>
      lBlock.getIndexRange.foldl (fun action i => rBlock.getIndexRange.foldl (fun action j => action.addRow j i) action)
        (action.setInput rBlock.fullBlock lBlock.fullBlock)) action)
    (fun lBlock => undefBlocks.flatMap (fun rBlock => reversedProduct rBlock.items lBlock.items))
    (fun action lBlock => Adds.foldl _ _ (fun action rBlock => addReversed_adds rBlock lBlock action) undefBlocks action)
    (it.map ofBlock) action
  have same : consumeRemainingBlocks true it undefBlocks action = (it.map ofBlock).foldl (fun action lBlock =>
      undefBlocks.foldl (fun action rBlock => lBlock.getIndexRange.foldl (fun action i =>
        rBlock.getIndexRange.foldl (fun action j => action.addRow j i) action)
        (action.setInput rBlock.fullBlock lBlock.fullBlock)) action) action := by
    simp [consumeRemainingBlocks,foldl_map,ofBlock,getIndexRange,range_eq_range']
  rw [same]
  exact blocks

theorem consumeRemainingBlocks_reversed_emits :
    Emits action (consumeRemainingBlocks true it undefBlocks action)
      (product (items undefBlocks) (items (it.map ofBlock))) [] := by
  refine (consumeRemainingBlocks_reversed_adds it undefBlocks action).emits ?_
  have blocks : ∀ lBlock : BlockAndSubrange κ,(undefBlocks.flatMap (fun rBlock => reversedProduct rBlock.items lBlock.items)).Perm
      (product (items undefBlocks) lBlock.items) := by
    intro lBlock
    rw [← product_flatMap_left]
    exact List.Perm.flatMap_left undefBlocks (fun block _ => reversedProduct_perm block.items lBlock.items)
  exact (List.Perm.flatMap_left _ (fun lBlock _ => blocks lBlock)).trans (product_flatMap_right _ _)

end

end Qlever.BlockZipperJoin
