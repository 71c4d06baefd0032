import Mathlib

/-! Sets that are stored as lists, sorted by a key. Two elements with the same key
are the same for the set.
-/
namespace Qlever.Library.KeyedSet
variable {α κ : Type} [LinearOrder κ] (key : α → κ)

/-- Add an element, or `none` if its key is contained. -/
def emplace (x : α) : List α → Option (List α)
  | [] => some [x]
  | y::ys =>
    if key x < key y then some (x::y::ys)
    else if key x = key y then none
    else (emplace x ys).map (y::·)

def Sorted (xs : List α) : Prop := xs.Pairwise (fun x y => key x < key y)

variable {key} {x : α} {xs ys : List α}

theorem emplace_of_fresh (sorted : Sorted key xs) (fresh : ∀ y ∈ xs,key y ≠ key x) :
    ∃ ys,emplace key x xs = some ys ∧ Sorted key ys ∧ ys.Perm (x::xs) := by
  induction xs with
  | nil => exact ⟨[x],rfl,List.pairwise_singleton _ x,List.Perm.refl _⟩
  | cons y xs ih =>
    obtain ⟨below,tail⟩ := List.pairwise_cons.mp sorted
    rcases lt_trichotomy (key x) (key y) with less | equal | greater
    · refine ⟨x::y::xs,by simp [emplace,less],?_,List.Perm.refl _⟩
      apply List.pairwise_cons.mpr
      refine ⟨?_,sorted⟩
      intro z member
      rcases List.mem_cons.mp member with rfl | later
      · exact less
      · exact less.trans (below z later)
    · exact absurd equal.symm (fresh y List.mem_cons_self)
    · obtain ⟨ys,run,sorted',perm⟩ := ih tail (List.forall_mem_cons.mp fresh).2
      refine ⟨y::ys,by simp [emplace,greater.not_gt,greater.ne',run],?_,?_⟩
      · apply List.pairwise_cons.mpr
        refine ⟨?_,sorted'⟩
        intro z member
        rcases List.mem_cons.mp (perm.subset member) with rfl | later
        · exact greater
        · exact below z later
      · exact (perm.cons y).trans (List.Perm.swap x y xs)

theorem emplace_of_mem (sorted : Sorted key xs) {y : α} (member : y ∈ xs) (equal : key y = key x) : emplace key x xs = none := by
  induction xs with
  | nil => simp at member
  | cons z xs ih =>
    obtain ⟨below,tail⟩ := List.pairwise_cons.mp sorted
    rcases List.mem_cons.mp member with rfl | later
    · simp [emplace,equal]
    · have greater : key z < key x := equal ▸ below y later
      simp [emplace,greater.not_gt,greater.ne',ih tail later]

theorem emplace_eq_some (sorted : Sorted key xs) (run : emplace key x xs = some ys) :
    Sorted key ys ∧ ys.Perm (x::xs) ∧ ∀ y ∈ xs,key y ≠ key x := by
  have fresh : ∀ y ∈ xs,key y ≠ key x := by
    intro y member equal
    rw [emplace_of_mem sorted member equal] at run
    cases run
  obtain ⟨zs,run',sorted',perm⟩ := emplace_of_fresh sorted fresh
  rw [run] at run'
  cases run'
  exact ⟨sorted',perm,fresh⟩

end Qlever.Library.KeyedSet
