import Mathlib

/-! Quads of IDs, their order and the six permutations. A quad in the order of a
permutation is also a quad, `toPermutedTriple` has nothing to do here.
-/
namespace Qlever

/-- `IdTriple` and `PermutedTriple`: three columns and the graph. -/
structure IdTriple (Id : Type) where
  col0Id : Id
  col1Id : Id
  col2Id : Id
  graphId : Id
  deriving DecidableEq, Repr

namespace IdTriple
variable {Id Id' : Type}

@[ext] theorem ext {s t : IdTriple Id} (col0 : s.col0Id = t.col0Id) (col1 : s.col1Id = t.col1Id)
    (col2 : s.col2Id = t.col2Id) (graph : s.graphId = t.graphId) : s = t := by
  obtain ⟨_,_,_,_⟩ := s
  obtain ⟨_,_,_,_⟩ := t
  simp_all

def ids (t : IdTriple Id) : Fin 4 → Id
  | 0 => t.col0Id
  | 1 => t.col1Id
  | 2 => t.col2Id
  | 3 => t.graphId

def map (f : Id → Id') (t : IdTriple Id) : IdTriple Id' := ⟨f t.col0Id,f t.col1Id,f t.col2Id,f t.graphId⟩

def tie (t : IdTriple Id) : Id ×ₗ Id ×ₗ Id ×ₗ Id := toLex (t.col0Id,toLex (t.col1Id,toLex (t.col2Id,t.graphId)))

theorem tie_injective : Function.Injective (tie : IdTriple Id → Id ×ₗ Id ×ₗ Id ×ₗ Id) := by
  intro s t same
  have inner := toLex.injective same
  simp only [Prod.mk.injEq,toLex_inj] at inner
  exact ext inner.1 inner.2.1 inner.2.2.1 inner.2.2.2

instance [LinearOrder Id] : LinearOrder (IdTriple Id) := LinearOrder.lift' tie tie_injective

theorem lt_iff [LinearOrder Id] {s t : IdTriple Id} :
    s < t ↔ s.col0Id < t.col0Id ∨ s.col0Id = t.col0Id ∧ (s.col1Id < t.col1Id ∨ s.col1Id = t.col1Id ∧
      (s.col2Id < t.col2Id ∨ s.col2Id = t.col2Id ∧ s.graphId < t.graphId)) := by
  change tie s < tie t ↔ _
  simp only [tie,Prod.Lex.toLex_lt_toLex]

section Columns
variable [LinearOrder Id] {s t : IdTriple Id}

theorem col0_le (le : s ≤ t) : s.col0Id ≤ t.col0Id := by
  by_contra greater
  exact le.not_gt (lt_iff.mpr (Or.inl (not_le.mp greater)))

theorem col1_le (le : s ≤ t) (col0 : s.col0Id = t.col0Id) : s.col1Id ≤ t.col1Id := by
  by_contra greater
  exact le.not_gt (lt_iff.mpr (Or.inr ⟨col0.symm,Or.inl (not_le.mp greater)⟩))

theorem col2_le (le : s ≤ t) (col0 : s.col0Id = t.col0Id) (col1 : s.col1Id = t.col1Id) : s.col2Id ≤ t.col2Id := by
  by_contra greater
  exact le.not_gt (lt_iff.mpr (Or.inr ⟨col0.symm,Or.inr ⟨col1.symm,Or.inl (not_le.mp greater)⟩⟩))

end Columns

end IdTriple

structure KeyOrder where
  keys : Fin 4 → Fin 4
  unique : Function.Injective keys

namespace IdTriple
variable {Id Id' : Type}

def permute (keyOrder : KeyOrder) (t : IdTriple Id) : IdTriple Id :=
  ⟨t.ids (keyOrder.keys 0),t.ids (keyOrder.keys 1),t.ids (keyOrder.keys 2),t.ids (keyOrder.keys 3)⟩

theorem ids_permute (keyOrder : KeyOrder) (t : IdTriple Id) (i : Fin 4) : (t.permute keyOrder).ids i = t.ids (keyOrder.keys i) := by
  fin_cases i <;> rfl

theorem ids_injective : Function.Injective (ids : IdTriple Id → Fin 4 → Id) := by
  intro s t same
  exact ext (congrFun same 0) (congrFun same 1) (congrFun same 2) (congrFun same 3)

theorem permute_injective (keyOrder : KeyOrder) : Function.Injective (permute keyOrder : IdTriple Id → IdTriple Id) := by
  intro s t same
  apply ids_injective
  funext i
  obtain ⟨j,rfl⟩ := Finite.surjective_of_injective keyOrder.unique i
  rw [← ids_permute,← ids_permute,same]

theorem ids_map (f : Id → Id') (t : IdTriple Id) (i : Fin 4) : (t.map f).ids i = f (t.ids i) := by
  fin_cases i <;> rfl

end IdTriple

inductive Permutation
  | PSO
  | POS
  | SPO
  | SOP
  | OPS
  | OSP
  deriving DecidableEq, Repr

namespace Permutation

def all : List Permutation := [PSO,POS,SPO,SOP,OPS,OSP]

theorem mem_all (permutation : Permutation) : permutation ∈ all := by
  cases permutation <;> decide

theorem nodup_all : all.Nodup := by decide

def toKeyOrder : Permutation → KeyOrder
  | POS => ⟨![1,2,0,3],by decide⟩
  | PSO => ⟨![1,0,2,3],by decide⟩
  | SOP => ⟨![0,2,1,3],by decide⟩
  | SPO => ⟨![0,1,2,3],by decide⟩
  | OPS => ⟨![2,1,0,3],by decide⟩
  | OSP => ⟨![2,0,1,3],by decide⟩

end Permutation
end Qlever
