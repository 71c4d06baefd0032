import Qlever.PropertyPath

/-! The translation of property paths binds the two sides to the pairs that the path relates, if no filter is lost in a sequence.
-/
namespace Qlever
open Function (update update_of_ne update_self)
namespace QueryPlanner
variable {T : Type} {graph : Graph T} {left right : TripleComponent T} {count count' count'' : Nat} {pattern pattern1 pattern2 : Assignment T → Prop}
  {related related1 related2 : T → T → Prop}

section Variables

theorem internalVariable_injective {first second : Nat} (same : internalVariable first = internalVariable second) : first = second := by
  unfold internalVariable at same
  generalize "?_QLever_internal_variable_qp_" = start at same
  have lists := congrArg String.toList same
  rw [String.toList_append,String.toList_append] at lists
  have digits := List.append_cancel_left lists
  rw [Nat.toString_eq_ofList_toDigits,Nat.toString_eq_ofList_toDigits,String.toList_ofList,String.toList_ofList] at digits
  rw [← Nat.ofDigitChars_ten_toDigits (n := first),digits,Nat.ofDigitChars_ten_toDigits]

def Between (count count' : Nat) (name : Variable) : Prop := ∃ index,count ≤ index ∧ index < count' ∧ name = internalVariable index

variable {name : Variable}

theorem Between.fresh (between : Between count count' name) : Fresh count name := by
  obtain ⟨index,lower,_,same⟩ := between
  exact ⟨index,lower,same⟩

theorem Between.mono (between : Between count count' name) {lower upper : Nat} (isLower : lower ≤ count) (isUpper : count' ≤ upper) :
    Between lower upper name := by
  obtain ⟨index,first,last,same⟩ := between
  exact ⟨index,isLower.trans first,last.trans_le isUpper,same⟩

theorem Between.disjoint (first : Between count count' name) (second : Between count' count'' name) : False := by
  obtain ⟨index,_,upper,same⟩ := first
  obtain ⟨index',lower,_,same'⟩ := second
  have equal := internalVariable_injective (same.symm.trans same')
  omega

namespace TripleComponent.NotFresh
variable {component : TripleComponent T}

theorem mono (notFresh : component.NotFresh count) (le : count ≤ count') :
    component.NotFresh count' := by
  cases component with
  | term => trivial
  | var name =>
    intro fresh
    obtain ⟨index,lower,same⟩ := fresh
    exact notFresh ⟨index,le.trans lower,same⟩

theorem internal {index : Nat} (less : index < count) : (TripleComponent.var (internalVariable index) : TripleComponent T).NotFresh count := by
  intro fresh
  obtain ⟨other,lower,same⟩ := fresh
  have equal := internalVariable_injective same
  omega

theorem ne_internal (notFresh : component.NotFresh count) :
    component ≠ .var (internalVariable count) := by
  intro same
  subst same
  exact notFresh ⟨count,le_refl count,rfl⟩

theorem value_eq (notFresh : component.NotFresh count) {a b : Assignment T}
    (same : ∀ name,¬ Between count count' name → b name = a name) : component.value b = component.value a := by
  cases component with
  | term => rfl
  | var name => exact same name (fun between => notFresh between.fresh)

end TripleComponent.NotFresh

end Variables

section Spec

def Uses (left right : TripleComponent T) (count count' : Nat) (name : Variable) : Prop := left = .var name ∨ right = .var name ∨ Between count count' name

/-- A pattern relates two components, and it has no other variables than those that were generated for it. -/
structure Spec (pattern : Assignment T → Prop) (left right : TripleComponent T) (count count' : Nat) (related : T → T → Prop) : Prop where
  le : count ≤ count'
  depends : ∀ a b,(∀ name,Uses left right count count' name → a name = b name) → pattern a → pattern b
  sound : ∀ a,pattern a → related (left.value a) (right.value a)
  complete : ∀ a,related (left.value a) (right.value a) → ∃ b,(∀ name,¬ Between count count' name → b name = a name) ∧ pattern b

theorem value_eq_of_uses {a b : Assignment T} (same : ∀ name,Uses left right count count' name → a name = b name) :
    left.value a = left.value b ∧ right.value a = right.value b := by
  constructor
  · cases left with
    | term => rfl
    | var name => exact same name (Or.inl rfl)
  · cases right with
    | term => rfl
    | var name => exact same name (Or.inr (Or.inl rfl))

theorem Spec.flip (spec : Spec pattern right left count count' related) : Spec pattern left right count count' (fun first last => related last first) where
  le := spec.le
  depends a b same := spec.depends a b (fun name uses => same name (uses.elim (fun isRight => Or.inr (Or.inl isRight))
    (fun rest => rest.elim Or.inl (fun between => Or.inr (Or.inr between)))))
  sound := spec.sound
  complete := spec.complete

theorem Spec.congr (spec : Spec pattern left right count count' related) (samePattern : ∀ a,pattern a ↔ pattern1 a)
    (sameRelated : ∀ first last,related first last ↔ related1 first last) : Spec pattern1 left right count count' related1 where
  le := spec.le
  depends a b same holds := (samePattern b).mp (spec.depends a b same ((samePattern a).mpr holds))
  sound a holds := (sameRelated _ _).mp (spec.sound a ((samePattern a).mpr holds))
  complete a isRelated := by
    obtain ⟨b,same,holds⟩ := spec.complete a ((sameRelated _ _).mpr isRelated)
    exact ⟨b,same,(samePattern b).mp holds⟩

theorem Spec.of_values (same : ∀ a,pattern a ↔ related (left.value a) (right.value a)) : Spec pattern left right count count related where
  le := le_refl count
  depends a b agree holds := by
    obtain ⟨isLeft,isRight⟩ := value_eq_of_uses agree
    rw [same,isLeft,isRight] at holds
    exact (same b).mpr holds
  sound a := (same a).mp
  complete a isRelated := ⟨a,fun _ _ => rfl,(same a).mpr isRelated⟩

theorem Spec.mono (spec : Spec pattern left right count count' related) {lower upper : Nat} (isLower : lower ≤ count) (isUpper : count' ≤ upper) :
    Spec pattern left right lower upper related where
  le := isLower.trans (spec.le.trans isUpper)
  depends a b same := spec.depends a b (fun name uses => same name (uses.imp id (Or.imp id (fun between => between.mono isLower isUpper))))
  sound := spec.sound
  complete a isRelated := by
    obtain ⟨b,same,holds⟩ := spec.complete a isRelated
    exact ⟨b,fun name outside => same name (fun between => outside (between.mono isLower isUpper)),holds⟩

theorem Spec.or (spec1 : Spec pattern1 left right count count' related1) (spec2 : Spec pattern2 left right count' count'' related2) :
    Spec (fun a => pattern1 a ∨ pattern2 a) left right count count'' (fun first last => related1 first last ∨ related2 first last) := by
  have wide1 := spec1.mono (le_refl count) spec2.le
  have wide2 := spec2.mono spec1.le (le_refl count'')
  exact
    { le := wide1.le
      depends := fun a b same => Or.imp (wide1.depends a b same) (wide2.depends a b same)
      sound := fun a => Or.imp (wide1.sound a) (wide2.sound a)
      complete := by
        intro a isRelated
        rcases isRelated with isRelated | isRelated
        · obtain ⟨b,same,holds⟩ := wide1.complete a isRelated
          exact ⟨b,same,Or.inl holds⟩
        · obtain ⟨b,same,holds⟩ := wide2.complete a isRelated
          exact ⟨b,same,Or.inr holds⟩ }

theorem Spec.join {index : Nat} (less : index < count) (notLeft : left ≠ .var (internalVariable index)) (notRight : right ≠ .var (internalVariable index))
    (freshLeft : left.NotFresh count) (freshRight : right.NotFresh count)
    (spec1 : Spec pattern1 left (.var (internalVariable index)) count count' related1)
    (spec2 : Spec pattern2 (.var (internalVariable index)) right count' count'' related2) :
    Spec (fun a => pattern1 a ∧ pattern2 a) left right index count'' (fun first last => ∃ middle,related1 first middle ∧ related2 middle last) := by
  have isOwn : Between index count'' (internalVariable index) := ⟨index,le_refl index,less.trans_le (spec1.le.trans spec2.le),rfl⟩
  refine ⟨less.le.trans (spec1.le.trans spec2.le),?_,?_,?_⟩
  · intro a b same holds
    obtain ⟨holds1,holds2⟩ := holds
    refine ⟨spec1.depends a b (fun name uses => same name ?_) holds1,spec2.depends a b (fun name uses => same name ?_) holds2⟩
    · rcases uses with isLeft | isMiddle | between
      · exact Or.inl isLeft
      · cases isMiddle
        exact Or.inr (Or.inr isOwn)
      · exact Or.inr (Or.inr (between.mono less.le spec2.le))
    · rcases uses with isMiddle | isRight | between
      · cases isMiddle
        exact Or.inr (Or.inr isOwn)
      · exact Or.inr (Or.inl isRight)
      · exact Or.inr (Or.inr (between.mono (less.le.trans spec1.le) (le_refl count'')))
  · intro a holds
    exact ⟨a (internalVariable index),spec1.sound a holds.1,spec2.sound a holds.2⟩
  · intro a isRelated
    obtain ⟨middle,related1,related2⟩ := isRelated
    -- The three parts: the shared variable, and the variables of the two patterns.
    let a' := update a (internalVariable index) middle
    have sameLeft : left.value a' = left.value a := by
      cases left with
      | term => rfl
      | var name => exact update_of_ne (fun same => notLeft (by rw [same])) _ _
    have sameRight : right.value a' = right.value a := by
      cases right with
      | term => rfl
      | var name => exact update_of_ne (fun same => notRight (by rw [same])) _ _
    have isMiddle : (TripleComponent.var (internalVariable index) : TripleComponent T).value a' = middle := update_self _ _ _
    obtain ⟨b1,same1,holds1⟩ := spec1.complete a' (by rw [sameLeft,isMiddle]; exact related1)
    obtain ⟨b2,same2,holds2⟩ := spec2.complete a' (by rw [sameRight,isMiddle]; exact related2)
    classical
    let b : Assignment T := fun name => if Between count count' name then b1 name else b2 name
    have agree1 : ∀ name,¬ Between count' count'' name → b name = b1 name := by
      intro name outside
      by_cases between : Between count count' name
      · exact if_pos between
      · exact (if_neg between).trans ((same2 name outside).trans (same1 name between).symm)
    have agree2 : ∀ name,¬ Between count count' name → b name = b2 name := fun name outside => if_neg outside
    have middleOutside : ¬ Between count count' (internalVariable index) ∧ ¬ Between count' count'' (internalVariable index) := by
      constructor
      · intro between
        obtain ⟨other,lower,_,same⟩ := between
        have equal := internalVariable_injective same
        omega
      · intro between
        obtain ⟨other,lower,_,same⟩ := between
        have equal := internalVariable_injective same
        have le := spec1.le
        omega
    refine ⟨b,fun name outside => ?_,spec1.depends b1 b (fun name uses => (agree1 name ?_).symm) holds1,
      spec2.depends b2 b (fun name uses => (agree2 name ?_).symm) holds2⟩
    · rw [agree1 name (fun between => outside (between.mono (less.le.trans spec1.le) (le_refl count''))),
        same1 name (fun between => outside (between.mono less.le spec2.le))]
      apply update_of_ne
      intro same
      subst same
      exact outside isOwn
    · intro between
      rcases uses with isLeft | isMiddle | own
      · subst isLeft
        exact freshLeft (between.mono spec1.le (le_refl count'')).fresh
      · cases isMiddle
        exact middleOutside.2 between
      · exact own.disjoint between
    · intro between
      rcases uses with isMiddle | isRight | own
      · cases isMiddle
        exact middleOutside.1 between
      · subst isRight
        exact freshRight between.fresh
      · exact between.disjoint own

end Spec
section Negated

theorem makeNotEqualExpressions_holds {name : Variable} {iris : List T} {expression : SparqlExpression T}
    (made : makeNotEqualExpressions name iris = some expression) (a : Assignment T) : expression.Holds a ↔ a name ∉ iris := by
  cases iris with
  | nil => cases made
  | cons iri iris =>
    obtain rfl := Option.some.inj made
    have folded : ∀ (iris : List T) (expression : SparqlExpression T),
        (iris.foldl (fun expression iri => .and expression (.notEqual iri name)) expression).Holds a ↔ expression.Holds a ∧ a name ∉ iris := by
      intro iris
      induction iris with
      | nil => simp
      | cons next iris ih =>
        intro expression
        rw [List.foldl_cons,ih]
        simp only [SparqlExpression.Holds,List.mem_cons,not_or,ne_comm,and_assoc,ne_eq]
    rw [folded]
    simp only [SparqlExpression.Holds,List.mem_cons,not_or,ne_comm,ne_eq]

theorem makeFilterPattern_spec (graph : Graph T) {iris : List T} (some : iris ≠ []) (freshLeft : left.NotFresh count) (freshRight : right.NotFresh count) :
    ∃ pattern,makeFilterPattern left right iris count = .some (pattern,count + 1) ∧
      Spec (pattern.Holds graph) left right count (count + 1) (RelatedByOther graph iris) := by
  obtain ⟨expression,made⟩ : ∃ expression,makeNotEqualExpressions (internalVariable count) iris = .some expression := by
    cases iris with
    | nil => exact absurd rfl some
    | cons iri iris => exact ⟨_,rfl⟩
  refine ⟨.mk [.basic [⟨left,.var (internalVariable count),right⟩]] [expression],?_,?_⟩
  · simp [makeFilterPattern,generateUniqueVarName,made,seedFromVarOrIri,GraphPattern.graphPatterns]
  have own : Between count (count + 1) (internalVariable count) := ⟨count,le_refl count,Nat.lt_succ_self count,rfl⟩
  have holds : ∀ a,(GraphPattern.mk [.basic [⟨left,.var (internalVariable count),right⟩]] [expression]).Holds graph a ↔
      graph (left.value a) (a (internalVariable count)) (right.value a) ∧ a (internalVariable count) ∉ iris := by
    intro a
    simp [GraphPattern.Holds,AllHold,GraphPatternOperation.Holds,SparqlTriple.Holds,TripleComponent.value,makeNotEqualExpressions_holds made]
  refine ⟨Nat.le_succ count,?_,?_,?_⟩
  · intro a b same isHeld
    obtain ⟨isLeft,isRight⟩ := value_eq_of_uses same
    rw [holds,isLeft,isRight,same _ (Or.inr (Or.inr own))] at isHeld
    exact (holds b).mpr isHeld
  · intro a isHeld
    exact ⟨some,a (internalVariable count),(holds a).mp isHeld⟩
  · intro a isRelated
    obtain ⟨_,predicate,edge,other⟩ := isRelated
    have outside : ∀ name,¬ Between count (count + 1) name → update a (internalVariable count) predicate name = a name := by
      intro name notBetween
      apply update_of_ne
      intro same
      subst same
      exact notBetween own
    refine ⟨update a (internalVariable count) predicate,outside,(holds _).mpr ?_⟩
    rw [freshLeft.value_eq outside,freshRight.value_eq outside,update_self]
    exact ⟨edge,other⟩

theorem union_holds (child1 child2 : GraphPattern T) (a : Assignment T) :
    (GraphPattern.mk [.union child1 child2] []).Holds graph a ↔ child1.Holds graph a ∨ child2.Holds graph a := by
  simp [GraphPattern.Holds,AllHold,GraphPatternOperation.Holds]

def GraphPattern.filters : GraphPattern T → List (SparqlExpression T)
  | .mk _ filters => filters

variable {paths : List (PropertyPath T)}

theorem splitChildren_length {forwardIris inverseIris : List T}
    (split : splitChildren paths = some (forwardIris,inverseIris)) : forwardIris.length + inverseIris.length = paths.length := by
  induction paths using splitChildren.induct generalizing forwardIris inverseIris with
  | case1 =>
    cases split
    rfl
  | case2 iri children ih | case3 iri children ih =>
    simp only [splitChildren,Option.bind_eq_bind,Option.bind_eq_some_iff] at split
    obtain ⟨⟨forward,inverse⟩,rest,same⟩ := split
    cases same
    have lengths := ih rest
    simp only [List.length_cons]
    omega
  | case4 path children notIri notInverse =>
    rw [splitChildren] at split
    · cases split
    · exact notIri
    · exact notInverse

theorem seedFromNegated_spec (graph : Graph T) {forwardIris inverseIris : List T} (notEmpty : paths ≠ [])
    (split : splitChildren paths = some (forwardIris,inverseIris)) (freshLeft : left.NotFresh count) (freshRight : right.NotFresh count) :
    ∃ pattern count',seedFromNegated left paths right count = some (pattern,count') ∧
      Spec (pattern.Holds graph) left right count count'
        (fun first last => RelatedByOther graph forwardIris first last ∨ RelatedByOther graph inverseIris last first) ∧
      ((forwardIris.isEmpty || inverseIris.isEmpty) = false → pattern.filters = []) := by
  have length := splitChildren_length split
  have positive := List.length_pos_iff.mpr notEmpty
  have isEmpty : paths.isEmpty = false := by simpa using notEmpty
  have nothing : ∀ first last,¬ RelatedByOther graph ([] : List T) first last := fun first last isRelated => isRelated.1 rfl
  by_cases noInverse : inverseIris = []
  · subst noInverse
    have someForward : forwardIris ≠ [] := List.length_pos_iff.mp (by rw [List.length_nil] at length; omega)
    obtain ⟨pattern,made,spec⟩ := makeFilterPattern_spec graph someForward freshLeft freshRight
    refine ⟨pattern,count + 1,?_,spec.congr (fun _ => Iff.rfl) (fun first last => by simp [nothing]),by simp⟩
    simp [seedFromNegated,split,isEmpty,made]
  · by_cases noForward : forwardIris = []
    · subst noForward
      obtain ⟨pattern,made,spec⟩ := makeFilterPattern_spec graph noInverse freshRight freshLeft
      refine ⟨pattern,count + 1,?_,spec.flip.congr (fun _ => Iff.rfl) (fun first last => by simp [nothing]),by simp⟩
      simp [seedFromNegated,split,isEmpty,made,noInverse]
    · obtain ⟨forward,madeForward,specForward⟩ := makeFilterPattern_spec graph noForward freshLeft freshRight
      obtain ⟨inverse,madeInverse,specInverse⟩ := makeFilterPattern_spec graph noInverse (freshRight.mono (Nat.le_succ count))
        (freshLeft.mono (Nat.le_succ count))
      refine ⟨.mk [.union forward inverse] [],count + 1 + 1,?_,?_,fun _ => rfl⟩
      · simp [seedFromNegated,split,isEmpty,noForward,noInverse,madeForward,madeInverse,uniteGraphPatterns]
      · exact (specForward.or specInverse.flip).congr (fun a => (union_holds forward inverse a).symm) (fun _ _ => Iff.rfl)

end Negated

section Paths

variable {patterns : List (GraphPattern T)} {united : GraphPattern T}

theorem uniteGraphPatterns_holds (isUnited : uniteGraphPatterns patterns = some united)
    (a : Assignment T) : united.Holds graph a ↔ ∃ pattern ∈ patterns,pattern.Holds graph a := by
  cases patterns with
  | nil => cases isUnited
  | cons first patterns =>
    cases patterns with
    | nil => cases isUnited
    | cons second patterns =>
      obtain rfl := Option.some.inj isUnited
      have folded : ∀ (patterns : List (GraphPattern T)) (start : GraphPattern T),
          (patterns.foldl (fun p next => .mk [.union p next] []) start).Holds graph a ↔
            start.Holds graph a ∨ ∃ pattern ∈ patterns,pattern.Holds graph a := by
        intro patterns
        induction patterns with
        | nil => simp
        | cons next patterns ih =>
          intro start
          rw [List.foldl_cons,ih,union_holds]
          simp [or_assoc]
      rw [folded,union_holds]
      simp [or_assoc]

theorem AllHold_append (operations1 operations2 : List (GraphPatternOperation T)) (a : Assignment T) :
    AllHold graph (operations1 ++ operations2) a ↔ AllHold graph operations1 a ∧ AllHold graph operations2 a := by
  induction operations1 with
  | nil => simp [AllHold]
  | cons operation operations ih => simp [AllHold,ih,and_assoc]

theorem GraphPattern.holds_of_no_filters {pattern : GraphPattern T} (noFilters : pattern.filters = []) (a : Assignment T) :
    pattern.Holds graph a ↔ AllHold graph pattern.graphPatterns a := by
  cases pattern with
  | mk graphPatterns filters =>
    obtain rfl : filters = [] := noFilters
    simp [GraphPattern.Holds,GraphPattern.graphPatterns]

theorem uniteGraphPatterns_filters (isUnited : uniteGraphPatterns patterns = some united) :
    united.filters = [] := by
  match patterns with
  | [] | [_] => cases isUnited
  | first::second::patterns =>
    obtain rfl := Option.some.inj isUnited
    have folded : ∀ (patterns : List (GraphPattern T)) (start : GraphPattern T),start.filters = [] →
        (patterns.foldl (fun p next => .mk [.union p next] []) start).filters = [] := by
      intro patterns
      induction patterns with
      | nil => exact fun start noFilters => noFilters
      | cons next patterns ih => exact fun start _ => ih (.mk [.union start next] []) rfl
    exact folded patterns _ rfl

theorem Spec.exists_iff {index : Nat}
    (spec : Spec pattern (.var (internalVariable index)) (.var (internalVariable (index + 1))) (index + 1 + 1) count' related) (first last : T) :
    related first last ↔ ∃ inner : Assignment T,inner (internalVariable index) = first ∧ inner (internalVariable (index + 1)) = last ∧ pattern inner := by
  constructor
  · intro isRelated
    let a : Assignment T := update (fun _ => first) (internalVariable (index + 1)) last
    have isFirst : a (internalVariable index) = first := by
      by_cases same : internalVariable index = internalVariable (index + 1)
      · have absurd := internalVariable_injective same
        omega
      · exact update_of_ne same _ _
    have isLast : a (internalVariable (index + 1)) = last := update_self _ _ _
    have outside : ∀ other,other < index + 1 + 1 → ¬ Between (index + 1 + 1) count' (internalVariable other) := by
      intro other less between
      exact TripleComponent.NotFresh.internal (T := T) less between.fresh
    obtain ⟨b,same,holds⟩ := spec.complete a (by simpa only [TripleComponent.value,isFirst,isLast] using isRelated)
    exact ⟨b,(same _ (outside index (by omega))).trans isFirst,(same _ (outside (index + 1) (by omega))).trans isLast,holds⟩
  · intro found
    obtain ⟨inner,rfl,rfl,holds⟩ := found
    exact spec.sound inner holds

mutual
theorem seedFromPropertyPath_spec : (path : PropertyPath T) → Valid path → KeepsFilters path → {left right : TripleComponent T} → {count : Nat} →
    left.NotFresh count → right.NotFresh count → ∃ pattern count',seedFromPropertyPath left path right count = some (pattern,count') ∧
      Spec (pattern.Holds graph) left right count count' (Related graph path) ∧ (hasFilter path = false → pattern.filters = [])
  | .iri iri,_,_,left,right,count,_,_ => by
    refine ⟨_,_,by rw [seedFromPropertyPath],Spec.of_values (fun a => ?_),fun _ => rfl⟩
    simp [seedFromVarOrIri,GraphPattern.Holds,AllHold,GraphPatternOperation.Holds,SparqlTriple.Holds,TripleComponent.value,Related]
  | .modified children .alternative,valid,keeps,left,right,count,freshLeft,freshRight => by
    rw [Valid] at valid
    rw [KeepsFilters] at keeps
    · obtain ⟨patterns,count',seeded,length,spec⟩ := seedChildren_spec children valid.2 keeps freshLeft freshRight
      obtain ⟨united,isUnited⟩ : ∃ united,uniteGraphPatterns patterns = some united := by
        match patterns,length with
        | [],length | [_],length =>
          have short := valid.1
          rw [← length] at short
          simp at short
        | first::second::patterns,_ => exact ⟨_,rfl⟩
      refine ⟨united,count',?_,spec.congr (fun a => (uniteGraphPatterns_holds isUnited a).symm) (fun first last => by rw [Related]),fun _ => ?_⟩
      · rw [seedFromPropertyPath,if_neg (by omega)]
        simp [seeded,isUnited]
      · exact uniteGraphPatterns_filters isUnited
    · simp
  | .modified [child] .inverse,valid,keeps,left,right,count,freshLeft,freshRight => by
    rw [Valid,AllValid] at valid
    rw [KeepsFilters,AllKeepFilters] at keeps
    · obtain ⟨pattern,count',seeded,spec,filters⟩ := seedFromPropertyPath_spec child valid.2.1 keeps.1 freshRight freshLeft
      refine ⟨pattern,count',?_,spec.flip.congr (fun _ => Iff.rfl) (fun first last => by rw [Related]),fun noFilter => ?_⟩
      · rw [seedFromPropertyPath]
        exact seeded
      · rw [hasFilter] at noFilter
        exact filters noFilter
    · simp
  | .modified [] .inverse,valid,keeps,left,right,count,freshLeft,freshRight => by
    rw [Valid] at valid
    simp at valid
  | .modified (_::_::_) .inverse,valid,keeps,left,right,count,freshLeft,freshRight => by
    rw [Valid] at valid
    simp at valid
  | .modified children .negated,valid,keeps,left,right,count,freshLeft,freshRight => by
    rw [Valid] at valid
    obtain ⟨⟨forwardIris,inverseIris⟩,split⟩ := Option.isSome_iff_exists.mp valid.2
    obtain ⟨pattern,count',seeded,spec,filters⟩ := seedFromNegated_spec graph valid.1 split freshLeft freshRight
    refine ⟨pattern,count',?_,spec.congr (fun _ => Iff.rfl) (fun first last => by rw [Related,split]),fun noFilter => ?_⟩
    · rw [seedFromPropertyPath]
      exact seeded
    · rw [hasFilter,split] at noFilter
      exact filters noFilter
  | .modified children .sequence,valid,keeps,left,right,count,freshLeft,freshRight => by
    rw [Valid] at valid
    rw [KeepsFilters] at keeps
    have notEmpty : children ≠ [] := List.length_pos_iff.mp (by omega)
    obtain ⟨graphPatterns,count',seeded,spec⟩ := seedFromSequence_spec children notEmpty valid.2 keeps.2 keeps.1 (Nat.lt_succ_self count)
      freshLeft.ne_internal freshRight.ne_internal (freshLeft.mono (Nat.le_succ count)) (freshRight.mono (Nat.le_succ count))
    refine ⟨.mk graphPatterns [],count',?_,spec.congr (fun a => ?_) (fun first last => by rw [Related]),fun _ => rfl⟩
    · rw [seedFromPropertyPath,if_neg (by omega)]
      simp [generateUniqueVarName,seeded]
    · simp [GraphPattern.Holds]
  | .minMax min max child,valid,keeps,left,right,count,freshLeft,freshRight => by
    rw [Valid] at valid
    rw [KeepsFilters] at keeps
    obtain ⟨childPlan,count',seeded,spec,_⟩ := seedFromPropertyPath_spec child valid.2 keeps
      (TripleComponent.NotFresh.internal (T := T) (show count < count + 1 + 1 by omega))
      (TripleComponent.NotFresh.internal (T := T) (show count + 1 < count + 1 + 1 by omega))
    refine ⟨.mk [.transPath left right (internalVariable count) (internalVariable (count + 1)) min max childPlan] [],count',?_,?_,fun _ => rfl⟩
    · rw [seedFromPropertyPath]
      simp [generateUniqueVarName,seeded]
    · have values : Spec (fun a => Walk (Related graph child) min max (left.value a) (right.value a)) left right count count
          (Walk (Related graph child) min max) := Spec.of_values (fun _ => Iff.rfl)
      refine (values.mono (le_refl count) (by have le := spec.le; omega)).congr (fun a => ?_) (fun first last => by rw [Related])
      rw [GraphPattern.holds_of_no_filters rfl]
      simp only [GraphPattern.graphPatterns,AllHold,GraphPatternOperation.Holds,and_true]
      exact Walk.congr spec.exists_iff min max _ _

theorem seedChildren_spec : (children : List (PropertyPath T)) → AllValid children → AllKeepFilters children → {left right : TripleComponent T} →
    {count : Nat} → left.NotFresh count → right.NotFresh count → ∃ patterns count',seedChildren left children right count = some (patterns,count') ∧
      patterns.length = children.length ∧
      Spec (fun a => ∃ pattern ∈ patterns,pattern.Holds graph a) left right count count' (RelatedByAny graph children)
  | [],_,_,left,right,count,_,_ => by
    refine ⟨[],count,by rw [seedChildren],rfl,Spec.of_values (fun a => ?_)⟩
    simp [RelatedByAny]
  | child::children,valid,keeps,left,right,count,freshLeft,freshRight => by
    rw [AllValid] at valid
    rw [AllKeepFilters] at keeps
    obtain ⟨pattern,middle,seeded,spec,_⟩ := seedFromPropertyPath_spec child valid.1 keeps.1 freshLeft freshRight
    obtain ⟨patterns,count',seededRest,length,specRest⟩ := seedChildren_spec children valid.2 keeps.2 (freshLeft.mono spec.le) (freshRight.mono spec.le)
    refine ⟨pattern::patterns,count',?_,by rw [List.length_cons,List.length_cons,length],?_⟩
    · rw [seedChildren]
      simp [seeded,seededRest]
    · exact (spec.or specRest).congr (fun a => by simp) (fun first last => by rw [RelatedByAny])

theorem seedFromSequence_spec : (children : List (PropertyPath T)) → children ≠ [] → AllValid children → AllKeepFilters children →
    (∀ child ∈ children,hasFilter child = false) → {left right : TripleComponent T} → {index count : Nat} → index < count →
    left ≠ .var (internalVariable index) → right ≠ .var (internalVariable index) → left.NotFresh count → right.NotFresh count →
    ∃ graphPatterns count',seedFromSequence left (internalVariable index) children right count = some (graphPatterns,count') ∧
      Spec (AllHold graph graphPatterns) left right index count' (RelatedBySequence graph children)
  | [],notEmpty,_,_,_,left,right,index,count,_,_,_,_,_ => absurd rfl notEmpty
  | [child],_,valid,keeps,noFilter,left,right,index,count,less,notLeft,notRight,freshLeft,freshRight => by
    rw [AllValid] at valid
    rw [AllKeepFilters] at keeps
    obtain ⟨pattern,count',seeded,spec,filters⟩ := seedFromPropertyPath_spec child valid.1 keeps.1 freshLeft freshRight
    refine ⟨pattern.graphPatterns,count' + 1,?_,(spec.mono less.le (Nat.le_succ count')).congr ?_ ?_⟩
    · rw [seedFromSequence]
      simp [generateUniqueVarName,seeded]
    · exact GraphPattern.holds_of_no_filters (filters (noFilter child List.mem_cons_self))
    · intro first last
      simp [RelatedBySequence]
  | child::next::children,_,valid,keeps,noFilter,left,right,index,count,less,notLeft,notRight,freshLeft,freshRight => by
    rw [AllValid] at valid
    rw [AllKeepFilters] at keeps
    obtain ⟨pattern,middle,seeded,spec,filters⟩ := seedFromPropertyPath_spec child valid.1 keeps.1 freshLeft (TripleComponent.NotFresh.internal less)
    have le := spec.le
    obtain ⟨graphPatterns,count',seededRest,specRest⟩ := seedFromSequence_spec (next::children) (by simp) valid.2 keeps.2
      (List.forall_mem_cons.mp noFilter).2 (Nat.lt_succ_self middle)
      (TripleComponent.NotFresh.internal (T := T) (show index < middle by omega)).ne_internal (freshRight.mono le).ne_internal
      (TripleComponent.NotFresh.internal (T := T) (show index < middle + 1 by omega)) (freshRight.mono (by omega))
    refine ⟨pattern.graphPatterns ++ graphPatterns,count',?_,
      (Spec.join less notLeft notRight freshLeft freshRight spec specRest).congr (fun a => ?_) (fun first last => ?_)⟩
    · rw [seedFromSequence]
      · simp [generateUniqueVarName,seeded,seededRest]
      · simp
    · rw [AllHold_append,GraphPattern.holds_of_no_filters (filters (noFilter child List.mem_cons_self))]
    · rw [RelatedBySequence]
end

/-- The translation is right for every path in which no element of a sequence is a negated set of one direction. -/
theorem translates (graph : Graph T) (path : PropertyPath T) (valid : Valid path) (keeps : KeepsFilters path) (left right : TripleComponent T) (count : Nat)
    (freshLeft : left.NotFresh count) (freshRight : right.NotFresh count) : Translates graph left path right count := by
  obtain ⟨pattern,count',seeded,spec,_⟩ := @seedFromPropertyPath_spec T graph path valid keeps left right count freshLeft freshRight
  refine ⟨pattern,count',seeded,fun assignment => ⟨fun found => ?_,fun isRelated => ?_⟩⟩
  · obtain ⟨extended,same,holds⟩ := found
    have isRelated := spec.sound extended holds
    have isLeft : left.value extended = left.value assignment := by
      cases left with
      | term => rfl
      | var name => exact same name freshLeft
    have isRight : right.value extended = right.value assignment := by
      cases right with
      | term => rfl
      | var name => exact same name freshRight
    rwa [isLeft,isRight] at isRelated
  · obtain ⟨extended,same,holds⟩ := spec.complete assignment isRelated
    exact ⟨extended,fun name notFresh => same name (fun between => notFresh between.fresh),holds⟩

end Paths

/-- A negated set below a repetition, between two variables of a query. -/
theorem translates_repeatedNegation :
    Translates (fun s p o => s < o ∧ p < 4) (.var "?x") (.modified [.iri 1,.minMax 0 unbounded (.modified [.iri 2] .negated)] .sequence) (.var "?y") 0 := by
  have freshX : (TripleComponent.var "?x" : TripleComponent Nat).NotFresh 0 := by
    intro fresh
    obtain ⟨index,notX⟩ := fresh
    have lists := congrArg String.toList notX.2
    unfold internalVariable at lists
    generalize toString index = digits at lists
    simp at lists
  have freshY : (TripleComponent.var "?y" : TripleComponent Nat).NotFresh 0 := by
    intro fresh
    obtain ⟨index,notY⟩ := fresh
    have lists := congrArg String.toList notY.2
    unfold internalVariable at lists
    generalize toString index = digits at lists
    simp at lists
  exact translates (fun s p o => s < o ∧ p < 4) _ (by simp [Valid,AllValid,splitChildren]) (by simp [KeepsFilters,AllKeepFilters,hasFilter]) _ _ 0 freshX freshY

/-- The negated set `!<2>` as the second element of a sequence loses its filter. -/
theorem translates_fails : ∃ graph : Graph Nat,Valid (.modified [.iri 1,.modified [.iri 2] .negated] .sequence : PropertyPath Nat) ∧
    ¬ Translates graph (.term 10) (.modified [.iri 1,.modified [.iri 2] .negated] .sequence) (.term 12) 0 := by
  refine ⟨fun s p o => (s,p,o) = (10,1,11) ∨ (s,p,o) = (11,2,12),by simp [Valid,AllValid,splitChildren],?_⟩
  intro right
  obtain ⟨pattern,count',seeded,same⟩ := right
  have isPattern : GraphPattern.mk [.basic [⟨.term 10,.term 1,.var (internalVariable 0)⟩],
      .basic [⟨.var (internalVariable 0),.var (internalVariable 2),.term 12⟩]] [] = pattern := by
    simp [seedFromPropertyPath,seedFromSequence,seedFromNegated,splitChildren,makeFilterPattern,makeNotEqualExpressions,generateUniqueVarName,
      seedFromVarOrIri,GraphPattern.graphPatterns] at seeded
    exact seeded.1
  subst isPattern
  have notRelated : ¬ Related (fun s p o => (s,p,o) = (10,1,11) ∨ (s,p,o) = (11,2,12))
      (.modified [.iri 1,.modified [.iri 2] .negated] .sequence : PropertyPath Nat) 10 12 := by
    simp [Related,RelatedBySequence,splitChildren,RelatedByOther]
  apply notRelated
  refine (same (fun _ => 0)).mp ⟨update (update (fun _ => 0) (internalVariable 0) 11) (internalVariable 2) 2,fun name notFresh => ?_,?_⟩
  · rw [update_of_ne,update_of_ne]
    · intro isInternal
      exact notFresh ⟨0,le_refl 0,isInternal⟩
    · intro isInternal
      exact notFresh ⟨2,Nat.zero_le 2,isInternal⟩
  · have different : internalVariable 0 ≠ internalVariable 2 := by
      intro equal
      cases internalVariable_injective equal
    simp [GraphPattern.Holds,AllHold,GraphPatternOperation.Holds,SparqlTriple.Holds,TripleComponent.value,update_of_ne different]

end QueryPlanner
end Qlever
