import Mathlib

/-! Loops whose step says how the state changes, or that the loop is left. -/
namespace Qlever.Library
variable {σ : Type} (step : σ → Option σ)

/-- The state in which the loop is left after at most `fuel` rounds. -/
def loop : Nat → σ → Option σ
  | 0,_ => none
  | fuel + 1,state =>
    match step state with
    | none => some state
    | some next => loop fuel next

abbrev Steps : σ → σ → Prop := Relation.ReflTransGen (fun state next => step state = some next)

variable {step} {inv : σ → Prop} {state : σ}

theorem loop_terminates {α : Type} {rel : α → α → Prop} (wf : WellFounded rel) (measure : σ → α)
    (keeps : ∀ state next,inv state → step state = some next → inv next ∧ rel (measure next) (measure state)) (holds : inv state) :
    ∃ fuel final,loop step fuel state = some final := by
  induction state using (InvImage.wf measure wf).induction with
  | _ state ih =>
    cases isNext : step state with
    | none => exact ⟨1,state,by rw [loop,isNext]⟩
    | some next =>
      obtain ⟨holdsNext,smaller⟩ := keeps state next holds isNext
      obtain ⟨fuel,final,isFinal⟩ := ih next smaller holdsNext
      exact ⟨fuel + 1,final,by rw [loop,isNext]; exact isFinal⟩

theorem steps_of_loop {fuel : Nat} {final : σ} (done : loop step fuel state = some final) : Steps step state final ∧ step final = none := by
  induction fuel generalizing state with
  | zero => cases done
  | succ fuel ih =>
    rw [loop] at done
    cases isNext : step state with
    | none =>
      rw [isNext] at done
      cases done
      exact ⟨.refl,isNext⟩
    | some next =>
      rw [isNext] at done
      obtain ⟨steps,isLast⟩ := ih done
      exact ⟨.head isNext steps,isLast⟩

theorem loop_of_steps {last : σ} (steps : Steps step state last) (isLast : step last = none) : ∃ fuel,loop step fuel state = some last := by
  induction steps using Relation.ReflTransGen.head_induction_on with
  | refl => exact ⟨1,by rw [loop,isLast]⟩
  | head isNext _ ih =>
    obtain ⟨fuel,done⟩ := ih
    exact ⟨fuel + 1,by rw [loop,isNext]; exact done⟩

theorem Steps.invariant (keeps : ∀ state next,inv state → step state = some next → inv next) {first : σ}
    (steps : Steps step first state) (holds : inv first) : inv state := by
  induction steps with
  | refl => exact holds
  | tail _ isNext ih => exact keeps _ _ ih isNext

theorem Steps.to_last {first last : σ} (toState : Steps step first state) (toLast : Steps step first last) (isLast : step last = none) :
    Steps step state last := by
  induction toState with
  | refl => exact toLast
  | tail _ isNext ih =>
    rcases ih.cases_head with rfl | ⟨next,isNext',steps⟩
    · rw [isLast] at isNext
      cases isNext
    · rw [isNext] at isNext'
      cases isNext'
      exact steps

end Qlever.Library
