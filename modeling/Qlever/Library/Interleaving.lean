import Mathlib

/-! Runs of several parties that take turns. An action names the party that moves next, and a step is
`none` while that party has to wait.
-/
namespace Qlever.Library
variable {State Action : Type} {step : State → Action → Option State} {allowed : State → Action → Prop} {first s : State}

inductive Run (step : State → Action → Option State) (allowed : State → Action → Prop) (first : State) : State → Prop
  | start : Run step allowed first first
  | next {s s' : State} (action : Action) (before : Run step allowed first s) (isAllowed : allowed s action)
    (taken : step s action = some s') : Run step allowed first s'

abbrev Always : State → Action → Prop := fun _ _ => True

theorem Run.invariant {inv : State → Prop} (run : Run step allowed first s) (holds : inv first)
    (preserves : ∀ s action s',inv s → allowed s action → step s action = some s' → inv s') : inv s := by
  induction run with
  | start => exact holds
  | next action before isAllowed taken ih => exact preserves _ action _ ih isAllowed taken

theorem Run.trans {s' : State} (run : Run step allowed first s) (rest : Run step allowed s s') : Run step allowed first s' := by
  induction rest with
  | start => exact run
  | next action before isAllowed taken ih => exact ih.next action isAllowed taken

variable {actions : List Action}

theorem Run.of_actions [∀ s action,Decidable (allowed s action)]
    (done : actions.foldlM (fun s action => if allowed s action then step s action else none) first = some s) : Run step allowed first s := by
  induction actions generalizing first with
  | nil =>
    cases done
    exact Run.start
  | cons action actions ih =>
    rw [List.foldlM_cons,Option.bind_eq_bind,Option.bind_eq_some_iff] at done
    obtain ⟨next,taken,rest⟩ := done
    split at taken
    next isAllowed => exact (Run.start.next action isAllowed taken).trans (ih rest)
    next => cases taken

theorem length_le_measure {weight : State → Nat} (decreases : ∀ s action s',step s action = some s' → weight s' < weight s)
    {last : State} (done : actions.foldlM step first = some last) : actions.length + weight last ≤ weight first := by
  induction actions generalizing first with
  | nil =>
    cases done
    simp
  | cons action actions ih =>
    rw [List.foldlM_cons,Option.bind_eq_bind,Option.bind_eq_some_iff] at done
    obtain ⟨next,taken,rest⟩ := done
    have less := decreases first action next taken
    have later := ih rest
    rw [List.length_cons]
    omega

section Sum
variable {Party M α : Type} [Fintype Party] [DecidableEq Party] [AddCommMonoid M]

theorem sum_update (f : α → M) (states : Party → α) (party : Party) (state : α) :
    ∑ other,f (Function.update states party state other) + f (states party) = ∑ other,f (states other) + f state := by
  have changed : ∑ other,f (Function.update states party state other) = f state + ∑ other ∈ Finset.univ.erase party,f (states other) := by
    rw [← Finset.add_sum_erase Finset.univ _ (Finset.mem_univ party),Function.update_self]
    congr 1
    apply Finset.sum_congr rfl
    intro other member
    rw [Function.update_of_ne (Finset.ne_of_mem_erase member)]
  have original : ∑ other,f (states other) = f (states party) + ∑ other ∈ Finset.univ.erase party,f (states other) :=
    (Finset.add_sum_erase Finset.univ _ (Finset.mem_univ party)).symm
  rw [changed,original]
  abel

end Sum
end Qlever.Library
