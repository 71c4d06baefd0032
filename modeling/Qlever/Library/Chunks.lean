import Mathlib

/-! Cutting a list into chunks of one size, the last of which may be smaller.
-/
namespace Qlever.Library.Chunks
open List

section Chunks
variable {α β : Type}

def chunks (size : Nat) (elements : List α) : List (List α) :=
  if elements = [] ∨ size = 0 then [] else elements.take size :: chunks size (elements.drop size)
  termination_by elements.length
  decreasing_by
    rename_i more
    have length := length_pos_iff.mpr (not_or.mp more).1
    rw [length_drop]
    omega

theorem chunks_nil (size : Nat) : chunks size ([] : List α) = [] := by
  rw [chunks,if_pos (.inl rfl)]

section
variable {size : Nat} {elements : List α}

theorem chunks_of_ne_nil (positive : 0 < size) (notEmpty : elements ≠ []) :
    chunks size elements = elements.take size :: chunks size (elements.drop size) := by
  rw [chunks,if_neg (not_or.mpr ⟨notEmpty,Nat.pos_iff_ne_zero.mp positive⟩)]

theorem chunks_append (positive : 0 < size) {first : List α} (full : first.length = size) (others : List α) :
    chunks size (first ++ others) = first :: chunks size others := by
  have notEmpty : first ++ others ≠ [] := by
    rw [← length_pos_iff,length_append]
    omega
  rw [chunks_of_ne_nil positive notEmpty,take_left' full,drop_left' full]

theorem chunks_of_length_le (fits : elements.length ≤ size) (notEmpty : elements ≠ []) :
    chunks size elements = [elements] := by
  have positive : 0 < size := Nat.lt_of_lt_of_le (length_pos_iff.mpr notEmpty) fits
  rw [chunks_of_ne_nil positive notEmpty,take_of_length_le fits,drop_of_length_le fits,chunks_nil]

theorem chunks_induction (positive : 0 < size) {motive : List α → Prop} (nil : motive [])
    (cons : ∀ elements,elements ≠ [] → motive (elements.drop size) → motive elements) (elements : List α) : motive elements := by
  induction elements using chunks.induct size with
  | case1 elements done =>
    rw [done.resolve_right (Nat.pos_iff_ne_zero.mp positive)]
    exact nil
  | case2 elements more ih => exact cons elements (not_or.mp more).1 ih

theorem flatten_chunks (positive : 0 < size) (elements : List α) : (chunks size elements).flatten = elements := by
  induction elements using chunks_induction positive with
  | nil => rw [chunks_nil,flatten_nil]
  | cons elements notEmpty ih => rw [chunks_of_ne_nil positive notEmpty,flatten_cons,ih,take_append_drop]

theorem chunks_eq_nil (positive : 0 < size) (none : chunks size elements = []) : elements = [] := by
  rw [← flatten_chunks positive elements,none,flatten_nil]

end

theorem chunks_map (change : α → β) {size : Nat} (positive : 0 < size) (elements : List α) :
    chunks size (elements.map change) = (chunks size elements).map (List.map change) := by
  induction elements using chunks_induction positive with
  | nil => rw [map_nil,chunks_nil,chunks_nil,map_nil]
  | cons elements notEmpty ih =>
    rw [chunks_of_ne_nil positive notEmpty,chunks_of_ne_nil positive (by simpa using notEmpty),← map_take,← map_drop,ih,map_cons]

theorem length_of_mem_dropLast {size : Nat} (positive : 0 < size) (elements : List α) :
    ∀ chunk ∈ (chunks size elements).dropLast,chunk.length = size := by
  induction elements using chunks_induction positive with
  | nil =>
    rw [chunks_nil]
    exact fun chunk isChunk => absurd isChunk not_mem_nil
  | cons elements notEmpty ih =>
    rw [chunks_of_ne_nil positive notEmpty]
    intro chunk isChunk
    cases isRest : chunks size (elements.drop size) with
    | nil =>
      rw [isRest,dropLast_singleton] at isChunk
      exact absurd isChunk not_mem_nil
    | cons second others =>
      rw [isRest,dropLast_cons_cons] at isChunk
      rcases mem_cons.mp isChunk with rfl | isLater
      · have more : elements.drop size ≠ [] := by
          intro none
          rw [none,chunks_nil] at isRest
          cases isRest
        rw [← length_pos_iff,length_drop] at more
        rw [length_take]
        omega
      · rw [isRest] at ih
        exact ih chunk isLater

end Chunks

end Qlever.Library.Chunks
