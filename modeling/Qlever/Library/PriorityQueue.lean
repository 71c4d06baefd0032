import Mathlib

/-! What a priority queue with handles is for. It has a set of live elements with scores, and `pop` gives up an element with the smallest score, whichever
of several ones that is. `before` is the order of the scores, which need not tell different scores apart.
-/
namespace Qlever.Library.PriorityQueue
open List

inductive Request (Score Value : Type)
  | insert (score : Score) (value : Value)
  | updateKey (handle : Nat) (newKey : Score)
  | erase (handle : Nat)
  | pop
  | clear
  deriving DecidableEq, Repr

inductive Answer (Value : Type)
  | done
  | handle (handle : Nat) (value : Value)
  | emptyPop
  | notInPQ
  deriving DecidableEq, Repr

structure Contents (Score Value : Type) where
  values : List Value := []
  live : List (Score × Nat) := []

section Steps
variable {Score Value : Type}

def setScore (handle : Nat) (newKey : Score) (live : List (Score × Nat)) : List (Score × Nat) :=
  live.map (fun element => if element.2 = handle then (newKey,handle) else element)

def remove (handle : Nat) (live : List (Score × Nat)) : List (Score × Nat) := live.filter (fun element => element.2 ≠ handle)

variable (before : Score → Score → Prop)

inductive Step : Contents Score Value → Request Score Value → Answer Value → Contents Score Value → Prop
  | insert (contents : Contents Score Value) (score : Score) (value : Value) : Step contents (.insert score value) (.handle contents.values.length value)
      ⟨contents.values ++ [value],contents.live ++ [(score,contents.values.length)]⟩
  | updateKey {contents : Contents Score Value} {score : Score} {handle : Nat} (newKey : Score) (isLive : (score,handle) ∈ contents.live) :
      Step contents (.updateKey handle newKey) .done { contents with live := setScore handle newKey contents.live }
  | erase {contents : Contents Score Value} {score : Score} {handle : Nat} (isLive : (score,handle) ∈ contents.live) :
      Step contents (.erase handle) .done { contents with live := remove handle contents.live }
  | pop {contents : Contents Score Value} {score : Score} {handle : Nat} {value : Value} (isLive : (score,handle) ∈ contents.live)
      (isValue : contents.values[handle]? = some value) (least : ∀ other ∈ contents.live,¬before other.1 score) :
      Step contents .pop (.handle handle value) { contents with live := remove handle contents.live }
  | emptyPop {contents : Contents Score Value} (empty : contents.live = []) : Step contents .pop .emptyPop contents
  | clear (contents : Contents Score Value) : Step contents .clear .done { contents with live := [] }

inductive Run : Contents Score Value → List (Request Score Value) → List (Answer Value) → Contents Score Value → Prop
  | nil (contents : Contents Score Value) : Run contents [] [] contents
  | cons {contents contents' last : Contents Score Value} {request : Request Score Value} {answer : Answer Value}
      {requests : List (Request Score Value)} {answers : List (Answer Value)} (step : Step before contents request answer contents')
      (run : Run contents' requests answers last) : Run contents (request :: requests) (answer :: answers) last

/-- The handles that `pop` returned. -/
def popped : List (Request Score Value) → List (Answer Value) → List Nat
  | .pop :: requests,.handle handle _ :: answers => handle :: popped requests answers
  | _ :: requests,_ :: answers => popped requests answers
  | _,_ => []

def validAfter : List Nat → Request Score Value → Answer Value → List Nat
  | valid,.insert _ _,.handle handle _ => valid ++ [handle]
  | valid,.erase handle,_ => valid.filter (fun other => other ≠ handle)
  | valid,.pop,.handle handle _ => valid.filter (fun other => other ≠ handle)
  | _,.clear,_ => []
  | valid,_,_ => valid

def Request.IsThrough (valid : List Nat) : Request Score Value → Prop
  | .updateKey handle _ => handle ∈ valid
  | .erase handle => handle ∈ valid
  | _ => True

def UsesValidHandles : List Nat → List (Request Score Value) → List (Answer Value) → Prop
  | valid,request :: requests,answer :: answers => request.IsThrough valid ∧ UsesValidHandles (validAfter valid request answer) requests answers
  | _,_,_ => True

instance (valid : List Nat) (request : Request Score Value) : Decidable (request.IsThrough valid) :=
  match request with
  | .updateKey handle _ => inferInstanceAs (Decidable (handle ∈ valid))
  | .erase handle => inferInstanceAs (Decidable (handle ∈ valid))
  | .insert _ _ => .isTrue trivial
  | .pop => .isTrue trivial
  | .clear => .isTrue trivial

instance decidableUsesValidHandles : (valid : List Nat) → (requests : List (Request Score Value)) → (answers : List (Answer Value)) →
    Decidable (UsesValidHandles valid requests answers)
  | valid,request :: requests,answer :: answers =>
    have := decidableUsesValidHandles (validAfter valid request answer) requests answers
    inferInstanceAs (Decidable (request.IsThrough valid ∧ UsesValidHandles (validAfter valid request answer) requests answers))
  | _,[],_ => .isTrue trivial
  | _,_ :: _,[] => .isTrue trivial

end Steps

section Distinct
variable {Score Value : Type}

structure Contents.WellFormed (contents : Contents Score Value) : Prop where
  distinct : (contents.live.map Prod.snd).Nodup
  inserted : ∀ element ∈ contents.live,element.2 < contents.values.length

variable {handle : Nat} {live : List (Score × Nat)} {element : Score × Nat}

theorem mem_remove :
    element ∈ remove handle live ↔ element ∈ live ∧ element.2 ≠ handle := by
  rw [remove,mem_filter,decide_eq_true_eq]

theorem mem_setScore {newKey : Score} (isLive : ∃ score,(score,handle) ∈ live) :
    element ∈ setScore handle newKey live ↔ element = (newKey,handle) ∨ element ∈ live ∧ element.2 ≠ handle := by
  rw [setScore,List.mem_map]
  constructor
  · rintro ⟨other,isOther,rfl⟩
    by_cases same : other.2 = handle
    · exact .inl (if_pos same)
    · rw [if_neg same]
      exact .inr ⟨isOther,same⟩
  · rintro (rfl | ⟨isElement,different⟩)
    · obtain ⟨score,isLive⟩ := isLive
      exact ⟨_,isLive,if_pos rfl⟩
    · exact ⟨element,isElement,if_neg different⟩

theorem handles_setScore (handle : Nat) (newKey : Score) (live : List (Score × Nat)) :
    (setScore handle newKey live).map Prod.snd = live.map Prod.snd := by
  rw [setScore,map_map]
  apply map_congr_left
  intro element _
  by_cases same : element.2 = handle
  · simp [same]
  · simp [same]

theorem eq_of_handle (distinct : (live.map Prod.snd).Nodup) {first second : Score × Nat} (isFirst : first ∈ live)
    (isSecond : second ∈ live) (same : first.2 = second.2) : first = second := inj_on_of_nodup_map distinct isFirst isSecond same

variable {score : Score}

theorem length_remove (distinct : (live.map Prod.snd).Nodup)
    (isLive : (score,handle) ∈ live) : (remove handle live).length + 1 = live.length := by
  induction live with
  | nil => cases isLive
  | cons element live ih =>
    rw [map_cons,nodup_cons] at distinct
    by_cases same : element.2 = handle
    · have others : remove handle live = live := by
        rw [remove,filter_eq_self]
        intro other isOther
        rw [decide_eq_true_eq]
        intro sameHandle
        exact distinct.1 (List.mem_map.mpr ⟨other,isOther,sameHandle.trans same.symm⟩)
      rw [remove,filter_cons_of_neg (by simp [same]),← remove,others,length_cons]
    · have isLater : (score,handle) ∈ live := (mem_cons.mp isLive).resolve_left (fun isFirst => same (isFirst ▸ rfl))
      rw [remove,filter_cons_of_pos (by simpa using same),← remove,length_cons,length_cons,ih distinct.2 isLater]

theorem nodup_of_distinct (distinct : (live.map Prod.snd).Nodup) : live.Nodup := List.Nodup.of_map Prod.snd distinct

theorem remove_perm [DecidableEq Score] (distinct : (live.map Prod.snd).Nodup)
    (isLive : element ∈ live) : (live.erase element).Perm (remove element.2 live) := by
  have nodup := nodup_of_distinct distinct
  have removed : (remove element.2 live).Nodup := nodup.filter _
  rw [perm_ext_iff_of_nodup (nodup.erase element) removed]
  intro other
  rw [nodup.mem_erase_iff,mem_remove,and_comm]
  apply and_congr_right
  intro isOther
  exact not_congr ⟨fun same => congrArg Prod.snd same,fun same => eq_of_handle distinct isOther isLive same⟩

theorem setScore_perm (distinct : (live.map Prod.snd).Nodup) {newKey : Score}
    (isLive : (score,handle) ∈ live) : ((newKey,handle) :: remove handle live).Perm (setScore handle newKey live) := by
  have updated : (setScore handle newKey live).Nodup := nodup_of_distinct (handles_setScore handle newKey live ▸ distinct)
  have removed : (newKey,handle) ∉ remove handle live := fun isElement => (mem_remove.mp isElement).2 rfl
  rw [perm_ext_iff_of_nodup (nodup_cons.mpr ⟨removed,(nodup_of_distinct distinct).filter _⟩) updated]
  intro element
  rw [mem_cons,mem_setScore ⟨score,isLive⟩,mem_remove]

theorem setScore_same (distinct : (live.map Prod.snd).Nodup)     (isLive : (score,handle) ∈ live) : setScore handle score live = live := by
  refine (map_congr_left ?_).trans (map_id live)
  intro element isElement
  by_cases same : element.2 = handle
  · rw [if_pos same,eq_of_handle distinct isElement isLive same,id]
  · rw [if_neg same,id]

theorem handles_remove (handle : Nat) (live : List (Score × Nat)) :
    (remove handle live).map Prod.snd = (live.map Prod.snd).filter (fun other => other ≠ handle) := by
  rw [remove,filter_map]
  rfl

variable {before : Score → Score → Prop}

section
variable {contents : Contents Score Value}

section
variable {contents' : Contents Score Value} {request : Request Score Value} {answer : Answer Value} (step : Step before contents request answer contents')
include step

theorem Step.validAfter_eq :
    validAfter (contents.live.map Prod.snd) request answer = contents'.live.map Prod.snd := by
  cases step with
  | insert score value => rw [validAfter,map_append,map_singleton]
  | updateKey newKey isLive => exact (handles_setScore _ _ _).symm
  | erase isLive | pop isLive isValue least => exact (handles_remove _ _).symm
  | emptyPop empty | clear => rfl

theorem Step.wellFormed (wellFormed : contents.WellFormed) : contents'.WellFormed := by
  have removed : ∀ handle,{ contents with live := remove handle contents.live }.WellFormed := fun handle =>
    ⟨wellFormed.distinct.sublist (filter_sublist.map Prod.snd),fun element isElement => wellFormed.inserted element (mem_remove.mp isElement).1⟩
  cases step with
  | insert score value =>
    constructor
    · rw [map_append,map_singleton]
      apply nodup_append_comm.mp
      refine nodup_cons.mpr ⟨?_,wellFormed.distinct⟩
      intro isOld
      obtain ⟨element,isElement,same⟩ := List.mem_map.mp isOld
      have below := wellFormed.inserted element isElement
      simp only at same
      omega
    · intro element isElement
      rw [length_append,length_singleton]
      rcases mem_append.mp isElement with isOld | isNew
      · exact Nat.lt_succ_of_lt (wellFormed.inserted element isOld)
      · rw [mem_singleton.mp isNew]
        exact Nat.lt_succ_self _
  | updateKey newKey isLive =>
    constructor
    · rw [handles_setScore]
      exact wellFormed.distinct
    · intro element isElement
      rcases (mem_setScore ⟨_,isLive⟩).mp isElement with isUpdated | ⟨isOld,-⟩
      · have old := wellFormed.inserted _ isLive
        rw [isUpdated]
        exact old
      · exact wellFormed.inserted element isOld
  | erase isLive | pop isLive isValue least => exact removed _
  | emptyPop empty => exact wellFormed
  | clear => exact ⟨nodup_nil,fun element isElement => absurd isElement not_mem_nil⟩

theorem Step.notLive {handle : Nat} (old : handle < contents.values.length) (gone : handle ∉ contents.live.map Prod.snd) :
    handle < contents'.values.length ∧ handle ∉ contents'.live.map Prod.snd := by
  have removed : ∀ other,handle ∉ (remove other contents.live).map Prod.snd := by
    intro other isLive
    obtain ⟨element,isElement,same⟩ := List.mem_map.mp isLive
    exact gone (List.mem_map.mpr ⟨element,(mem_remove.mp isElement).1,same⟩)
  cases step with
  | insert score value =>
    rw [length_append,length_singleton,map_append,map_singleton,mem_append,mem_singleton,not_or]
    exact ⟨by omega,gone,by simp only; omega⟩
  | updateKey newKey isLive =>
    rw [handles_setScore]
    exact ⟨old,gone⟩
  | erase isLive | pop isLive isValue least => exact ⟨old,removed _⟩
  | emptyPop empty => exact ⟨old,gone⟩
  | clear => exact ⟨old,not_mem_nil⟩

end

section
variable {last : Contents Score Value} {requests : List (Request Score Value)} {answers : List (Answer Value)} (run : Run before contents requests answers last)
include run

theorem Run.not_mem_popped {handle : Nat} (old : handle < contents.values.length)
    (gone : handle ∉ contents.live.map Prod.snd) : handle ∉ popped requests answers := by
  induction run with
  | nil => exact not_mem_nil
  | cons step _ ih =>
    have stillGone := step.notLive old gone
    cases step with
    | pop isLive isValue least =>
      rw [popped,mem_cons,not_or]
      refine ⟨?_,ih stillGone.1 stillGone.2⟩
      rintro rfl
      exact gone (List.mem_map.mpr ⟨_,isLive,rfl⟩)
    | _ => exact ih stillGone.1 stillGone.2

theorem Run.popped_nodup (wellFormed : contents.WellFormed) : (popped requests answers).Nodup := by
  induction run with
  | nil => exact nodup_nil
  | cons step run ih =>
    have later := ih (step.wellFormed wellFormed)
    cases step with
    | pop isLive isValue least =>
      rw [popped,nodup_cons]
      refine ⟨run.not_mem_popped (wellFormed.inserted _ isLive) ?_,later⟩
      intro isElement
      obtain ⟨element,isElement,same⟩ := List.mem_map.mp isElement
      exact (mem_remove.mp isElement).2 same
    | _ => exact later

end

end

end Distinct

end Qlever.Library.PriorityQueue
