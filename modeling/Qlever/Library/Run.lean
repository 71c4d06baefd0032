import Mathlib

/-! Runs of fallible steps. -/
namespace Qlever.Library
open List
variable {ε α β σ : Type}

theorem bind_eq_ok {first : Except ε α} {next : α → Except ε β} {result : β} :
    (first >>= next) = .ok result ↔ ∃ value,first = .ok value ∧ next value = .ok result := by
  cases first <;> simp [bind,Except.bind]

theorem pure_eq_ok {value result : α} : (pure value : Except ε α) = .ok result ↔ value = result := by
  simp [pure,Except.pure]

theorem foldlM_invariant {step : σ → α → Except ε σ} {inv : σ → Prop}
    (preserves : ∀ state x next,inv state → step state x = .ok next → inv next) {xs : List α} {start last : σ}
    (holds : inv start) (run : xs.foldlM step start = .ok last) : inv last := by
  induction xs generalizing start with
  | nil =>
    cases run
    exact holds
  | cons x xs ih =>
    rw [foldlM_cons,bind_eq_ok] at run
    obtain ⟨next,first,rest⟩ := run
    exact ih (preserves start x next holds first) rest

theorem ok_of_mem_mapM {f : α → Except ε β} {xs : List α} {ys : List β} (run : xs.mapM f = .ok ys) {x : α} (member : x ∈ xs) : ∃ y,f x = .ok y := by
  induction xs generalizing ys with
  | nil => simp at member
  | cons first xs ih =>
    rw [mapM_cons,bind_eq_ok] at run
    obtain ⟨y,applied,rest⟩ := run
    obtain ⟨later,ran,_⟩ := bind_eq_ok.mp rest
    rcases mem_cons.mp member with rfl | isLater
    · exact ⟨y,applied⟩
    · exact ih ran isLater

section MapState

def mapState (step : α → σ → Except ε (β × σ)) : List α → σ → Except ε (List β × σ)
  | [],state => .ok ([],state)
  | x::xs,state => do
    let (y,state) ← step x state
    let (ys,state) ← mapState step xs state
    return (y::ys,state)

def Yields (failure : ε) (result : Except ε (β × σ)) (expected : β → σ → Prop) : Prop :=
  result = .error failure ∨ ∃ value state,result = .ok (value,state) ∧ expected value state

variable {failure : ε} {expected : β → σ → Prop}

theorem Yields.bind {γ : Type} {result : Except ε (β × σ)} {next : β × σ → Except ε (γ × σ)}
    {final : γ → σ → Prop} (first : Yields failure result expected)
    (rest : ∀ value state,expected value state → Yields failure (next (value,state)) final) : Yields failure (result >>= next) final := by
  rcases first with failed | ⟨value,state,done,holds⟩
  · exact Or.inl (by rw [failed]; rfl)
  · rw [done]
    exact rest value state holds

theorem Yields.pure {value : β} {state : σ} (holds : expected value state) :
    Yields failure (Pure.pure (value,state)) expected := Or.inr ⟨value,state,rfl,holds⟩

variable {step : α → σ → Except ε (β × σ)}

/-- Every step keeps an invariant, extends the state, and relates its input to its output. A relation that is
kept by extensions relates in the end all the inputs to their outputs. -/
theorem mapState_yields {inv : σ → Prop} {extends' : σ → σ → Prop}
    {relates : σ → α → β → Prop} {valid : α → Prop} (refl : ∀ state,extends' state state)
    (trans : ∀ {s1 s2 s3},extends' s1 s2 → extends' s2 s3 → extends' s1 s3)
    (keeps : ∀ {s1 s2 x y},extends' s1 s2 → relates s1 x y → relates s2 x y)
    (single : ∀ x state,valid x → inv state → Yields failure (step x state) (fun y next => inv next ∧ extends' state next ∧ relates next x y))
    (xs : List α) (state : σ) (allValid : ∀ x ∈ xs,valid x) (holds : inv state) :
    Yields failure (mapState step xs state) (fun ys next => inv next ∧ extends' state next ∧ List.Forall₂ (relates next) xs ys) := by
  induction xs generalizing state with
  | nil => exact Or.inr ⟨[],state,rfl,holds,refl state,List.Forall₂.nil⟩
  | cons x xs ih =>
    rw [mapState]
    apply (single x state (allValid x mem_cons_self) holds).bind
    intro y next first
    obtain ⟨holds',extends1,related⟩ := first
    apply (ih next (forall_mem_cons.mp allValid).2 holds').bind
    intro ys last rest
    obtain ⟨holds'',extends2,relatedRest⟩ := rest
    exact Yields.pure ⟨holds'',trans extends1 extends2,List.Forall₂.cons (keeps extends2 related) relatedRest⟩

variable {relates : α → β → Prop}

theorem mapState_forall₂ (single : ∀ x state y next,step x state = .ok (y,next) → relates x y) {xs : List α} {ys : List β} {state last : σ}
    (done : mapState step xs state = .ok (ys,last)) : List.Forall₂ relates xs ys := by
  induction xs generalizing state ys with
  | nil =>
    cases done
    exact List.Forall₂.nil
  | cons x xs ih =>
    rw [mapState,bind_eq_ok] at done
    obtain ⟨⟨y,next⟩,first,done⟩ := done
    rw [bind_eq_ok] at done
    obtain ⟨⟨rest,last'⟩,others,done⟩ := done
    cases done
    exact List.Forall₂.cons (single x state y next first) (ih others)

theorem exists_left {xs : List α} {ys : List β} (related : List.Forall₂ relates xs ys) {y : β} (member : y ∈ ys) :
    ∃ x ∈ xs,relates x y := by
  induction related with
  | nil => cases member
  | @cons x first xs ys single rest ih =>
    rcases mem_cons.mp member with rfl | later
    · exact ⟨x,mem_cons_self,single⟩
    · obtain ⟨x',isMember,holds⟩ := ih later
      exact ⟨x',mem_cons_of_mem x isMember,holds⟩

end MapState

section MapOption
variable {f : α → Option β} {xs : List α} {ys : List β}

theorem mapM_some {g : α → β} (each : ∀ x ∈ xs,f x = some (g x)) : xs.mapM f = some (xs.map g) := by
  induction xs with
  | nil => rfl
  | cons x xs ih =>
    rw [mapM_cons,each x mem_cons_self,ih (forall_mem_cons.mp each).2]
    rfl

theorem mapM_eq_some (all : ∀ x ∈ xs,∃ y,f x = some y) : ∃ ys,xs.mapM f = some ys := by
  induction xs with
  | nil => exact ⟨[],rfl⟩
  | cons x xs ih =>
    obtain ⟨y,isY⟩ := all x mem_cons_self
    obtain ⟨ys,isYs⟩ := ih (forall_mem_cons.mp all).2
    exact ⟨y::ys,by rw [mapM_cons,isY,isYs]; rfl⟩

theorem forall₂_of_mapM (done : xs.mapM f = some ys) : List.Forall₂ (fun x y => f x = some y) xs ys := by
  induction xs generalizing ys with
  | nil =>
    cases done
    exact List.Forall₂.nil
  | cons x xs ih =>
    rw [mapM_cons] at done
    simp only [Option.bind_eq_bind,Option.bind_eq_some_iff] at done
    obtain ⟨first,isFirst,rest,isRest,done⟩ := done
    cases done
    exact List.Forall₂.cons isFirst (ih isRest)

theorem exists_of_mem_mapM (done : xs.mapM f = some ys) {y : β} (member : y ∈ ys) : ∃ x ∈ xs,f x = some y :=
  exists_left (forall₂_of_mapM done) member

theorem exists_of_mem_mapM_left (done : xs.mapM f = some ys) {x : α} (member : x ∈ xs) : ∃ y ∈ ys,f x = some y :=
  exists_left (forall₂_of_mapM done).flip member

end MapOption

/-- A loop over the numbers from `start` on, of which the step `i` takes the invariant from `i` to `i + 1`. -/
theorem foldlM_range' {step : σ → Nat → Option σ} {inv : Nat → σ → Prop} (start : Nat) {n : Nat}
    (keeps : ∀ i < n,∀ state,inv i state → ∃ next,step state (start + i) = some next ∧ inv (i + 1) next) {state : σ} (holds : inv 0 state) :
    ∃ final,(range' start n).foldlM step state = some final ∧ inv n final := by
  induction n with
  | zero => exact ⟨state,rfl,holds⟩
  | succ n ih =>
    obtain ⟨before,isBefore,holdsBefore⟩ := ih (fun i small => keeps i (Nat.lt_succ_of_lt small))
    obtain ⟨final,isFinal,holdsFinal⟩ := keeps n (Nat.lt_succ_self n) before holdsBefore
    refine ⟨final,?_,holdsFinal⟩
    rw [range'_concat,foldlM_append,isBefore,Nat.one_mul]
    simp [isFinal]

end Qlever.Library
