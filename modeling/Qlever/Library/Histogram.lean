import Mathlib

/-! Histograms of lists, and the runs of equal keys in a list of keys with counts. -/
namespace Qlever.Library
open List
variable {κ : Type} [LinearOrder κ]

structure IsHistogram (keys : List κ) (table : List (κ × Nat)) : Prop where
  increasing : (table.map Prod.fst).Pairwise (· < ·)
  counts : ∀ key count,(key,count) ∈ table ↔ count = keys.count key ∧ 0 < count

def joinRuns : List (κ × Nat) → List (κ × Nat)
  | [] => []
  | entry::rest =>
    match joinRuns rest with
    | [] => [entry]
    | next::joined => if entry.1 = next.1 then (entry.1,entry.2 + next.2)::joined else entry::next::joined

def total (entries : List (κ × Nat)) (key : κ) : Nat := ((entries.filter (fun entry => entry.1 = key)).map Prod.snd).sum

section Total
variable {entries others : List (κ × Nat)} {key : κ} {count : Nat} {keys : List κ}

@[simp] theorem total_cons (entry : κ × Nat) : total (entry::entries) key = (if entry.1 = key then entry.2 else 0) + total entries key := by
  by_cases same : entry.1 = key <;> simp [total,same]

@[simp] theorem total_append : total (entries ++ others) key = total entries key + total others key := by
  simp [total]

theorem total_weights (weight : κ → Nat) : total (keys.map (fun key => (key,weight key))) key = keys.count key * weight key := by
  induction keys with
  | nil => simp [total]
  | cons first keys ih =>
    rw [map_cons,total_cons,ih,count_cons,Nat.add_mul,Nat.add_comm]
    by_cases same : first = key
    · subst same
      simp
    · simp [same]

theorem total_ones : total (keys.map (fun key => (key,1))) key = keys.count key := by
  rw [total_weights,Nat.mul_one]

omit [LinearOrder κ] in
@[simp] theorem map_fst_weights (weight : κ → Nat) : (keys.map (fun key => (key,weight key))).map Prod.fst = keys := by
  rw [map_map]
  exact map_id keys

theorem total_eq_zero (absent : key ∉ entries.map Prod.fst) : total entries key = 0 := by
  induction entries with
  | nil => rfl
  | cons entry entries ih =>
    rw [map_cons,mem_cons,not_or] at absent
    rw [total_cons,if_neg (Ne.symm absent.1),ih absent.2]

theorem total_of_mem (distinct : (entries.map Prod.fst).Nodup) (member : (key,count) ∈ entries) : total entries key = count := by
  induction entries with
  | nil => simp at member
  | cons entry entries ih =>
    rw [map_cons,nodup_cons] at distinct
    rcases mem_cons.mp member with rfl | later
    · rw [total_cons,if_pos rfl,total_eq_zero distinct.1,Nat.add_zero]
    · have other : entry.1 ≠ key := by
        intro same
        exact distinct.1 (List.mem_map.mpr ⟨_,later,same.symm⟩)
      rw [total_cons,if_neg other,Nat.zero_add]
      exact ih distinct.2 later

end Total

section Runs
variable {entries : List (κ × Nat)} {entry : κ × Nat} {key : κ} {keys : List κ}

theorem joinRuns_cons (entry : κ × Nat) (entries : List (κ × Nat)) :
    joinRuns (entry::entries) = match joinRuns entries with
      | [] => [entry]
      | next::joined => if entry.1 = next.1 then (entry.1,entry.2 + next.2)::joined else entry::next::joined := rfl

theorem joinRuns_same (key : κ) (first second : Nat) (entries : List (κ × Nat)) :
    joinRuns ((key,first)::(key,second)::entries) = joinRuns ((key,first + second)::entries) := by
  rw [joinRuns_cons,joinRuns_cons,joinRuns_cons]
  cases joinRuns entries with
  | nil => simp
  | cons next joined =>
    by_cases same : key = next.1
    · simp [same,Nat.add_assoc]
    · simp [same]

theorem joinRuns_different {first second : κ × Nat} (different : first.1 ≠ second.1) (entries : List (κ × Nat)) :
    joinRuns (first::second::entries) = first::joinRuns (second::entries) := by
  rw [joinRuns_cons first,joinRuns_cons second]
  cases joinRuns entries with
  | nil => simp [different]
  | cons next joined =>
    by_cases same : second.1 = next.1
    · simp [same ▸ different,same]
    · simp [different,same]

theorem total_joinRuns : total (joinRuns entries) key = total entries key := by
  induction entries with
  | nil => rfl
  | cons entry entries ih =>
    rw [joinRuns_cons,total_cons,← ih]
    split
    next none => simp [none]
    next next joined runs =>
      rw [runs]
      by_cases same : entry.1 = next.1
      · rw [if_pos same,total_cons,total_cons,same]
        by_cases isKey : next.1 = key
        · rw [if_pos isKey,if_pos isKey,if_pos isKey,Nat.add_assoc]
        · rw [if_neg isKey,if_neg isKey,if_neg isKey,Nat.zero_add,Nat.zero_add]
      · rw [if_neg same,total_cons]

theorem mem_joinRuns : key ∈ (joinRuns entries).map Prod.fst ↔ key ∈ entries.map Prod.fst := by
  induction entries with
  | nil => rfl
  | cons entry entries ih =>
    rw [joinRuns_cons,map_cons,mem_cons,← ih]
    split
    next none => simp [none]
    next next joined runs =>
      rw [runs]
      by_cases same : entry.1 = next.1
      · simp [same]
      · simp [same]

theorem joinRuns_increasing : ((joinRuns entries).map Prod.fst).Pairwise (· < ·) ↔ (entries.map Prod.fst).Pairwise (· ≤ ·) := by
  induction entries with
  | nil => simp [joinRuns]
  | cons entry entries ih =>
    have sameKeys : ∀ bound : κ,(∀ key ∈ (joinRuns entries).map Prod.fst,bound ≤ key) ↔ ∀ key ∈ entries.map Prod.fst,bound ≤ key := by
      intro bound
      simp only [mem_joinRuns]
    rw [map_cons,pairwise_cons,← sameKeys,← ih,joinRuns_cons]
    split
    next none => simp [none]
    next next joined runs =>
      rw [runs,map_cons,pairwise_cons]
      by_cases same : entry.1 = next.1
      · rw [if_pos same,map_cons,pairwise_cons,same]
        simp only [mem_cons,forall_eq_or_imp,le_refl,true_and]
        exact ⟨fun ⟨less,rest⟩ => ⟨fun key member => (less key member).le,less,rest⟩,fun ⟨_,less,rest⟩ => ⟨less,rest⟩⟩
      · rw [if_neg same,map_cons,map_cons,pairwise_cons,pairwise_cons]
        simp only [mem_cons,forall_eq_or_imp]
        constructor
        · rintro ⟨⟨first,later⟩,less,rest⟩
          exact ⟨⟨first.le,fun key member => (later key member).le⟩,less,rest⟩
        · rintro ⟨⟨first,later⟩,less,rest⟩
          have strict : entry.1 < next.1 := lt_of_le_of_ne first same
          exact ⟨⟨strict,fun key member => strict.trans (less key member)⟩,less,rest⟩

theorem joinRuns_isHistogram : IsHistogram keys (joinRuns entries) ↔
    (entries.map Prod.fst).Pairwise (· ≤ ·) ∧ (∀ key,total entries key = keys.count key) ∧ ∀ key ∈ entries.map Prod.fst,key ∈ keys := by
  constructor
  · rintro ⟨increasing,counts⟩
    have distinct : ((joinRuns entries).map Prod.fst).Nodup := increasing.imp (fun less => less.ne)
    have counted : ∀ key ∈ entries.map Prod.fst,total entries key = keys.count key ∧ 0 < keys.count key := by
      intro key member
      obtain ⟨⟨key,count⟩,isEntry,rfl⟩ := List.mem_map.mp (mem_joinRuns.mpr member)
      obtain ⟨same,positive⟩ := (counts _ _).mp isEntry
      rw [← total_joinRuns,total_of_mem distinct isEntry,← same]
      exact ⟨rfl,positive⟩
    refine ⟨joinRuns_increasing.mp increasing,?_,fun key member => count_pos_iff.mp (counted key member).2⟩
    intro key
    by_cases member : key ∈ entries.map Prod.fst
    · exact (counted key member).1
    · rw [total_eq_zero member]
      by_contra different
      have isEntry := (counts key _).mpr ⟨rfl,Nat.pos_of_ne_zero (Ne.symm different)⟩
      exact member (mem_joinRuns.mp (mem_map_of_mem isEntry))
  · rintro ⟨ascending,totals,occur⟩
    have increasing := joinRuns_increasing.mpr ascending
    have distinct : ((joinRuns entries).map Prod.fst).Nodup := increasing.imp (fun less => less.ne)
    refine ⟨increasing,?_⟩
    intro key count
    constructor
    · intro member
      have isKey := mem_joinRuns.mp (mem_map_of_mem member)
      have same : count = keys.count key := by rw [← totals,← total_joinRuns,total_of_mem distinct member]
      exact ⟨same,same ▸ count_pos_iff.mpr (occur key isKey)⟩
    · rintro ⟨rfl,positive⟩
      have isKey : key ∈ entries.map Prod.fst := by
        by_contra absent
        rw [← totals,total_eq_zero absent] at positive
        exact lt_irrefl _ positive
      obtain ⟨⟨key,count⟩,member,rfl⟩ := List.mem_map.mp (mem_joinRuns.mpr isKey)
      have same : count = keys.count key := by rw [← totals,← total_joinRuns,total_of_mem distinct member]
      rw [← same]
      exact member

/-- All counts of an ascending list of keys are positive. -/
theorem joinRuns_ones (ascending : keys.Pairwise (· ≤ ·)) :
    (joinRuns (keys.map (fun key => (key,1)))).filter (fun entry => 0 < entry.2) = joinRuns (keys.map (fun key => (key,1))) := by
  have histogram := (@joinRuns_isHistogram _ _ (keys.map (fun key => (key,1))) keys).mpr
    ⟨by rwa [map_fst_weights],fun key => total_ones,fun key isKey => by rwa [map_fst_weights] at isKey⟩
  exact filter_eq_self.mpr (fun entry isEntry => decide_eq_true ((histogram.counts entry.1 entry.2).mp isEntry).2)

/-- Ascending runs with positive counts are the same if and only if they have the same total for each key. -/
theorem joinRuns_positive_eq_iff {others : List (κ × Nat)} (ascending : (entries.map Prod.fst).Pairwise (· ≤ ·))
    (ascending' : (others.map Prod.fst).Pairwise (· ≤ ·)) :
    (joinRuns entries).filter (fun entry => 0 < entry.2) = (joinRuns others).filter (fun entry => 0 < entry.2) ↔
      ∀ key,total entries key = total others key := by
  have members : ∀ {entries : List (κ × Nat)},(entries.map Prod.fst).Pairwise (· ≤ ·) → ∀ key count,
      (key,count) ∈ (joinRuns entries).filter (fun entry => 0 < entry.2) ↔ count = total entries key ∧ 0 < count := by
    intro entries ascending key count
    have distinct : ((joinRuns entries).map Prod.fst).Nodup := (joinRuns_increasing.mpr ascending).imp (fun less => less.ne)
    simp only [mem_filter,decide_eq_true_eq,and_congr_left_iff]
    intro positive
    constructor
    · intro member
      rw [← total_joinRuns,total_of_mem distinct member]
    · rintro rfl
      obtain ⟨⟨key,count⟩,member,rfl⟩ := List.mem_map.mp (mem_joinRuns.mpr (by_contra (fun absent => positive.ne' (total_eq_zero absent))))
      rwa [← total_joinRuns,total_of_mem distinct member]
  have increasing : ∀ {entries : List (κ × Nat)},(entries.map Prod.fst).Pairwise (· ≤ ·) →
      ((joinRuns entries).filter (fun entry => 0 < entry.2)).Pairwise (fun first second => first.1 < second.1) :=
    fun ascending => (pairwise_map.mp (joinRuns_increasing.mpr ascending)).filter _
  constructor
  · intro same key
    by_contra different
    rcases Nat.lt_or_gt_of_ne different with less | greater
    · have member := (members ascending' key _).mpr ⟨rfl,Nat.zero_lt_of_lt less⟩
      rw [← same] at member
      exact different ((members ascending key _).mp member).1.symm
    · have member := (members ascending key _).mpr ⟨rfl,Nat.zero_lt_of_lt greater⟩
      rw [same] at member
      exact different ((members ascending' key _).mp member).1
  · intro same
    refine List.Perm.eq_of_pairwise (fun first second _ _ less greater => absurd greater (lt_asymm less)) (increasing ascending) (increasing ascending') ?_
    refine (perm_ext_iff_of_nodup ((increasing ascending).imp (fun less equal => less.ne (congrArg Prod.fst equal)))
      ((increasing ascending').imp (fun less equal => less.ne (congrArg Prod.fst equal)))).mpr (fun entry => ?_)
    rw [members ascending,members ascending',same]

end Runs
end Qlever.Library
