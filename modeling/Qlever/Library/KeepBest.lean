import Mathlib

/-! The best value of a list. A loop that replaces the best value only by a better one keeps the first of the best values, and a loop that keeps it
only if it is better than the next one keeps the last of them.
-/
namespace Qlever.Library.KeepBest
open List

section Folds
variable {α : Type} (better : α → α → Prop) [DecidableRel better]

def keepFirst (value : α) (values : List α) : α := values.foldl (fun best value => if better value best then value else best) value

def keepLast (value : α) (values : List α) : α := values.foldl (fun best value => if better best value then best else value) value

end Folds

section Optima
variable {α : Type} {better : α → α → Prop}

def IsFirstBest (better : α → α → Prop) (values : List α) (best : α) : Prop :=
  ∃ before after,values = before ++ best :: after ∧ (∀ value ∈ before,better best value) ∧ ∀ value ∈ after,¬ better value best

def IsLastBest (better : α → α → Prop) (values : List α) (best : α) : Prop :=
  ∃ before after,values = before ++ best :: after ∧ (∀ value ∈ before,¬ better value best) ∧ ∀ value ∈ after,better best value

variable [DecidableRel better]

theorem keepFirst_mem (value : α) (values : List α) : keepFirst better value values ∈ value :: values := by
  induction values generalizing value with
  | nil => exact mem_cons_self
  | cons next values ih =>
    rw [keepFirst,foldl_cons]
    split
    next => exact mem_cons_of_mem _ (ih next)
    next =>
      rcases mem_cons.mp (ih value) with same | isLater
      · rw [← keepFirst,same]
        exact mem_cons_self
      · exact mem_cons_of_mem _ (mem_cons_of_mem _ isLater)

variable {best : α} {values : List α}

theorem keepFirst_stays (none : ∀ value ∈ values,¬ better value best) : keepFirst better best values = best := by
  induction values with
  | nil => rfl
  | cons value values ih =>
    obtain ⟨notBetter,rest⟩ := forall_mem_cons.mp none
    rw [keepFirst,foldl_cons,if_neg notBetter]
    exact ih rest

theorem keepFirst_eq {value : α} (isBest : IsFirstBest better (value :: values) best) : keepFirst better value values = best := by
  obtain ⟨before,after,split,front,back⟩ := isBest
  cases before with
  | nil =>
    cases split
    exact keepFirst_stays back
  | cons first before =>
    rw [cons_append,List.cons.injEq] at split
    obtain ⟨rfl,rfl⟩ := split
    rw [keepFirst,foldl_append,foldl_cons,← keepFirst,← keepFirst,if_pos (front _ (keepFirst_mem value before))]
    exact keepFirst_stays back

/-- A loop that keeps a better value replaces it by each value that it is not better than. -/
theorem keepLast_eq_keepFirst (value : α) (values : List α) :
    keepLast better value values = keepFirst (fun next best => ¬ better best next) value values := by
  unfold keepLast keepFirst
  congr
  ext best next
  rw [ite_not]

omit [DecidableRel better] in
theorem isLastBest_iff :
    IsLastBest better values best ↔ IsFirstBest (fun next best => ¬ better best next) values best := by
  simp only [IsLastBest,IsFirstBest,not_not]

theorem keepLast_eq {value : α} (isBest : IsLastBest better (value :: values) best) : keepLast better value values = best := by
  rw [keepLast_eq_keepFirst]
  exact keepFirst_eq (isLastBest_iff.mp isBest)

end Optima

section Order
variable {α : Type} {better : α → α → Prop}

structure OrdersValues (better : α → α → Prop) (values : List α) : Prop where
  asymm : ∀ x ∈ values,∀ y ∈ values,better x y → ¬ better y x
  notBetter : ∀ x ∈ values,∀ y ∈ values,∀ z ∈ values,¬ better y x → ¬ better z y → ¬ better z x

section
variable {values : List α}

theorem OrdersValues.trans (orders : OrdersValues better values) {x y z : α} (isX : x ∈ values) (isY : y ∈ values) (isZ : z ∈ values)
    (first : better x y) (second : better y z) : better x z := by
  by_contra notBetter
  exact orders.notBetter y isY z isZ x isX (orders.asymm y isY z isZ second) notBetter first

/-- What the loop needs to end with a best value. -/
structure Chains (better : α → α → Prop) (values : List α) : Prop where
  trans : ∀ x ∈ values,∀ y ∈ values,∀ z ∈ values,better x y → better y z → better x z
  beyond : ∀ x ∈ values,∀ y ∈ values,∀ z ∈ values,better x y → ¬ better z y → better x z

theorem OrdersValues.chains (orders : OrdersValues better values) : Chains better values where
  trans _ isX _ isY _ isZ := orders.trans isX isY isZ
  beyond x isX y isY z isZ isBetter notBetter := by
    by_contra other
    exact orders.notBetter y isY z isZ x isX notBetter other isBetter

theorem OrdersValues.chains_reversed (orders : OrdersValues better values) :
    Chains (fun next best => ¬ better best next) values where
  trans := orders.notBetter
  beyond _ isX _ isY _ isZ notBetter isBetter other := notBetter (orders.trans isY isZ isX (not_not.mp isBetter) other)

theorem Chains.mono {others : List α} (chains : Chains better values) (subset : ∀ value ∈ others,value ∈ values) : Chains better others where
  trans x isX y isY z isZ := chains.trans x (subset x isX) y (subset y isY) z (subset z isZ)
  beyond x isX y isY z isZ := chains.beyond x (subset x isX) y (subset y isY) z (subset z isZ)

end

variable [DecidableRel better]

theorem Chains.isFirstBest {value : α} {values : List α} (chains : Chains better (value :: values)) :
    IsFirstBest better (value :: values) (keepFirst better value values) := by
  induction values using reverseRecOn with
  | nil => exact ⟨[],[],rfl,fun _ absent => absurd absent not_mem_nil,fun _ absent => absurd absent not_mem_nil⟩
  | append_singleton values next ih =>
    have subset : ∀ other ∈ value :: values,other ∈ value :: (values ++ [next]) := fun other isOther => mem_append_left [next] isOther
    have isNext : next ∈ value :: (values ++ [next]) := mem_append_right (value :: values) mem_cons_self
    obtain ⟨before,after,split,front,back⟩ := ih (chains.mono subset)
    rw [keepFirst,foldl_append,foldl_cons,foldl_nil,← keepFirst]
    generalize keepFirst better value values = best at split front back
    have isBest : best ∈ value :: (values ++ [next]) := subset best (split ▸ mem_append_right before mem_cons_self)
    by_cases replaced : better next best
    · rw [if_pos replaced]
      refine ⟨value :: values,[],rfl,?_,fun _ absent => absurd absent not_mem_nil⟩
      intro other isOther
      have inside := subset other isOther
      rw [split] at isOther
      rcases mem_append.mp isOther with isBefore | isRest
      · exact chains.trans next isNext best isBest other inside replaced (front other isBefore)
      · rcases mem_cons.mp isRest with rfl | isAfter
        · exact replaced
        · exact chains.beyond next isNext best isBest other inside replaced (back other isAfter)
    · rw [if_neg replaced]
      refine ⟨before,after ++ [next],?_,front,?_⟩
      · rw [← cons_append,split,append_assoc,cons_append]
      · intro other isOther
        rcases mem_append.mp isOther with isAfter | isLast
        · exact back other isAfter
        · rwa [mem_singleton.mp isLast]

section
variable {value : α} {values : List α} (orders : OrdersValues better (value :: values))
include orders

theorem isFirstBest_keepFirst :
    IsFirstBest better (value :: values) (keepFirst better value values) := orders.chains.isFirstBest

theorem isLastBest_keepLast :
    IsLastBest better (value :: values) (keepLast better value values) := by
  rw [keepLast_eq_keepFirst,isLastBest_iff]
  exact orders.chains_reversed.isFirstBest

end

end Order

end Qlever.Library.KeepBest
