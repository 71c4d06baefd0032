import Qlever.Library.NestedLoop

/-! Solution mappings, in which a name may be undefined, and their join. -/
namespace Qlever.Library
variable {Name Value : Type} [DecidableEq Value]

abbrev Solution (Name Value : Type) : Type := Name → Option Value

def compatible (names : List Name) (a b : Solution Name Value) : Bool :=
  names.all (fun name => (a name).isNone || (b name).isNone || a name == b name)

def merged (a b : Solution Name Value) : Solution Name Value := fun name => (a name).or (b name)

def joinRows (names : List Name) (as bs : List (Solution Name Value)) : List (Solution Name Value) :=
  (nestedLoop (compatible names) as bs).map (fun (a,b) => merged a b)

variable {names : List Name} {a b : Solution Name Value}

theorem compatible_iff :
    compatible names a b = true ↔ ∀ name ∈ names,a name = none ∨ b name = none ∨ a name = b name := by
  simp [compatible,List.all_eq_true,Bool.or_eq_true,or_assoc]

section
omit [DecidableEq Value]

theorem merged_of_none {name : Name} (isNone : a name = none) : merged a b name = b name := by
  rw [merged,isNone]
  rfl

theorem merged_of_none_right {name : Name} (isNone : b name = none) : merged a b name = a name := by
  rw [merged,isNone,Option.or_none]

end

theorem mem_joinRows {as bs : List (Solution Name Value)} {row : Solution Name Value} :
    row ∈ joinRows names as bs ↔ ∃ a ∈ as,∃ b ∈ bs,compatible names a b = true ∧ row = merged a b := by
  simp only [joinRows,List.mem_map,Prod.exists,mem_nestedLoop]
  constructor
  · rintro ⟨a,b,⟨inAs,inBs,areCompatible⟩,rfl⟩
    exact ⟨a,inAs,b,inBs,areCompatible,rfl⟩
  · rintro ⟨a,inAs,b,inBs,areCompatible,rfl⟩
    exact ⟨a,b,⟨inAs,inBs,areCompatible⟩,rfl⟩

theorem pairwise_joinRows {as bs : List (Solution Name Value)} {rel : Solution Name Value → Solution Name Value → Prop}
    (left : as.Pairwise (fun a a' => ∀ b ∈ bs,∀ b' ∈ bs,rel (merged a b) (merged a' b')))
    (right : ∀ a ∈ as,bs.Pairwise (fun b b' => rel (merged a b) (merged a b'))) : (joinRows names as bs).Pairwise rel := by
  rw [joinRows,nestedLoop,List.pairwise_map,List.pairwise_flatMap]
  constructor
  · intro a inAs
    rw [List.pairwise_map]
    exact (right a inAs).filter _
  · apply left.imp
    intro a a' related pair isPair pair' isPair'
    obtain ⟨b,inBs,rfl⟩ := List.mem_map.mp isPair
    obtain ⟨b',inBs',rfl⟩ := List.mem_map.mp isPair'
    exact related b (List.mem_of_mem_filter inBs) b' (List.mem_of_mem_filter inBs')

theorem joinRows_nil (as bs : List (Solution Name Value)) : joinRows ([] : List Name) as bs = as.flatMap (fun a => bs.map (merged a)) := by
  have all : ∀ a : Solution Name Value,bs.filter (compatible [] a) = bs := fun a => List.filter_eq_self.mpr (fun _ _ => rfl)
  simp [joinRows,nestedLoop,all,List.map_flatMap,Function.comp_def]

theorem joinRows_cons (names : List Name) (a : Solution Name Value) (as bs : List (Solution Name Value)) :
    joinRows names (a::as) bs = (bs.filter (compatible names a)).map (merged a) ++ joinRows names as bs := by
  simp [joinRows,nestedLoop,Function.comp_def]

theorem joinRows_undef (names : List Name) (bs : List (Solution Name Value)) : joinRows names [fun _ => none] bs = bs := by
  have all : ∀ b ∈ bs,compatible names (fun _ => none) b = true := fun b _ => compatible_iff.mpr (fun _ _ => Or.inl rfl)
  have same : merged (fun _ : Name => (none : Option Value)) = id := by
    funext b name
    rfl
  rw [joinRows_cons,List.filter_eq_self.mpr all,same,List.map_id]
  exact List.append_nil bs

end Qlever.Library
