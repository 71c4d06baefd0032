import Qlever.ValueIdComparators

/-! The ranges that the binary searches of `ValueIdComparators.h` find in a sorted list of IDs. Each function cuts the IDs of
one type into ranges whose IDs are all smaller than the value, equal to it, greater than it or not comparable with it.
-/
namespace Qlever.ValueIdComparators
open Qlever.Library List

section Searches
variable {Word : Type} {ids : List (ValueId Word)} {first last : Nat}

structure Splits (test : ValueId Word → Bool) (ids : List (ValueId Word)) (first last point : Nat) : Prop where
  lower : first ≤ point
  upper : point ≤ last
  before : ∀ i id,ids[i]? = some id → first ≤ i → i < point → test id = true
  after : ∀ i id,ids[i]? = some id → point ≤ i → i < last → test id = false

variable {test : ValueId Word → Bool}

theorem search_spec (le : first ≤ last) (inside : last ≤ ids.length)
    (closed : ∀ i j x y,first ≤ i → i ≤ j → j < last → ids[i]? = some x → ids[j]? = some y → test y = true → test x = true) :
    ∃ point,search test ids first last = some point ∧ Splits test ids first last point := by
  have isCut : ∃ point,Cuts (fun i => (ids[i]?.map test).getD false) first last point := by
    apply exists_cuts le
    intro i j above before below holds
    have isFirst := List.getElem?_eq_getElem (show i < ids.length by omega)
    have isSecond := List.getElem?_eq_getElem (show j < ids.length by omega)
    simp only [isFirst,isSecond,Option.map_some,Option.getD_some] at holds ⊢
    exact closed i j _ _ above before below isFirst isSecond holds
  obtain ⟨point,cuts⟩ := isCut
  refine ⟨point,?_,cuts.lower,cuts.upper,?_,?_⟩
  · have range : first + (last - first) = last := by omega
    apply bisect_eq (fun i => (ids[i]?.map test).getD false)
    · intro i above below
      rw [List.getElem?_eq_getElem (show i < ids.length by omega)]
      rfl
    · rw [range]
      exact cuts
  · intro i id isId above below
    simpa [isId] using cuts.before i above below
  · intro i id isId above below
    simpa [isId] using cuts.after i above below

theorem search_twoCuts {point stop : Nat} (inside : last ≤ ids.length) (lower : first ≤ point) (middle : point ≤ stop)
    (upper : stop ≤ last) (before : ∀ i id,ids[i]? = some id → first ≤ i → i < point → test id = true)
    (between : ∀ i id,ids[i]? = some id → point ≤ i → i < stop → test id = false)
    (after : ∀ i id,ids[i]? = some id → stop ≤ i → i < last → test id = true) :
    search test ids first last = some (if first + firstProbe (point - first) (last - first) < stop then point else last) := by
  have range : first + (last - first) = last := by omega
  have value : ∀ i (below : i < last),(ids[i]?.map test).getD false = test ids[i] := by
    intro i below
    rw [List.getElem?_eq_getElem (show i < ids.length by omega)]
    rfl
  have ended := @bisect_twoCuts (fun i => (ids[i]?.map test).getD false) (fun i => ids[i]?.map test) first (last - first) point stop (by omega)
    (by
      intro i above below
      rw [List.getElem?_eq_getElem (show i < ids.length by omega)]
      rfl)
    (fun i above below => (value i (by omega)).trans (before i _ (List.getElem?_eq_getElem (by omega)) above below))
    (fun i above below => (value i (by omega)).trans (between i _ (List.getElem?_eq_getElem (by omega)) above below))
    (fun i above below => (value i (by omega)).trans (after i _ (List.getElem?_eq_getElem (by omega)) above (by omega))) lower middle
  rw [range] at ended
  exact ended

theorem search_ends (test : ValueId Word → Bool) (le : first ≤ last) (inside : last ≤ ids.length) :
    ∃ point,search test ids first last = some point ∧ first ≤ point ∧ point ≤ last := by
  have ends := @bisect_ends (fun i => (ids[i]?.map test).getD false) (fun i => ids[i]?.map test) first (last - first)
    (by
      intro i above below
      rw [List.getElem?_eq_getElem (show i < ids.length by omega)]
      rfl)
  obtain ⟨point,isPoint,lower,upper,_,_⟩ := ends
  exact ⟨point,isPoint,lower,by omega⟩

/-- The IDs of a range in the order of their keys: first the smaller ones, then the equal ones, then the greater ones. -/
structure IsEqualRange {κ : Type} [LinearOrder κ] (key : ValueId Word → κ) (value : κ) (ids : List (ValueId Word)) (first last : Nat) (range : Interval) :
    Prop where
  lower : first ≤ range.1
  middle : range.1 ≤ range.2
  upper : range.2 ≤ last
  smaller : ∀ i id,ids[i]? = some id → first ≤ i → i < range.1 → key id < value
  equal : ∀ i id,ids[i]? = some id → range.1 ≤ i → i < range.2 → key id = value
  greater : ∀ i id,ids[i]? = some id → range.2 ≤ i → i < last → value < key id

theorem equalRange_spec {κ : Type} [LinearOrder κ] {less greater : ValueId Word → Bool} (key : ValueId Word → κ) (value : κ) (le : first ≤ last)
    (inside : last ≤ ids.length)
    (tests : ∀ i id,ids[i]? = some id → first ≤ i → i < last → (less id = true ↔ key id < value) ∧ (greater id = true ↔ value < key id))
    (mono : ∀ i j x y,first ≤ i → i ≤ j → j < last → ids[i]? = some x → ids[j]? = some y → key x ≤ key y) :
    ∃ range,equalRange less greater ids first last = some range ∧ IsEqualRange key value ids first last range := by
  obtain ⟨eqBegin,isBegin,splitsBegin⟩ : ∃ point,search less ids first last = some point ∧ Splits less ids first last point := by
    apply search_spec le inside
    intro i j x y above before below isFirst isSecond holds
    rw [(tests j y isSecond (by omega) below).1] at holds
    exact (tests i x isFirst above (by omega)).1.mpr ((mono i j x y above before below isFirst isSecond).trans_lt holds)
  obtain ⟨eqEnd,isEnd,splitsEnd⟩ : ∃ point,search (fun id => !greater id) ids first last = some point ∧
      Splits (fun id => !greater id) ids first last point := by
    apply search_spec le inside
    intro i j x y above before below isFirst isSecond holds
    by_contra isGreater
    have isLarger := (tests i x isFirst above (by omega)).2.mp (by simpa using isGreater)
    have later := isLarger.trans_le (mono i j x y above before below isFirst isSecond)
    rw [(tests j y isSecond (by omega) below).2.mpr later] at holds
    cases holds
  have middle : eqBegin ≤ eqEnd := by
    by_contra reversed
    have upper := splitsBegin.upper
    have lower := splitsEnd.lower
    have isId := List.getElem?_eq_getElem (show eqEnd < ids.length by omega)
    have isLess := splitsBegin.before eqEnd _ isId lower (by omega)
    have isGreater := splitsEnd.after eqEnd _ isId (le_refl _) (by omega)
    have both := tests eqEnd _ isId lower (by omega)
    simp only [Bool.not_eq_false'] at isGreater
    exact lt_asymm (both.1.mp isLess) (both.2.mp isGreater)
  refine ⟨(eqBegin,eqEnd),?_,splitsBegin.lower,middle,splitsEnd.upper,?_,?_,?_⟩
  · rw [equalRange,isBegin,isEnd]
    rfl
  · intro i id isId above below
    have upper := splitsBegin.upper
    simp only at below
    exact (tests i id isId above (by omega)).1.mp (splitsBegin.before i id isId above below)
  · intro i id isId above below
    have lower := splitsBegin.lower
    have upper := splitsEnd.upper
    simp only at above below
    have both := tests i id isId (by omega) (by omega)
    have notLess := splitsBegin.after i id isId above (by omega)
    have notGreater := splitsEnd.before i id isId (by omega) below
    apply le_antisymm
    · apply le_of_not_gt
      rw [← both.2]
      simpa using notGreater
    · apply le_of_not_gt
      rw [← both.1]
      simpa using notLess
  · intro i id isId above below
    have lower := splitsEnd.lower
    simp only at above
    have isGreater := splitsEnd.after i id isId above below
    exact (tests i id isId (by omega) below).2.mp (by simpa using isGreater)

end Searches

section Sorted
variable {Word : Type} [LinearOrder Word] (vocab : Vocabulary Word)

/-- IDs in the order of `operator<=>`. -/
def SortedIds (ids : List (ValueId Word)) : Prop := ids.Pairwise (fun first second => first.value vocab ≤ second.value vocab)

variable {vocab} {ids : List (ValueId Word)}

omit [LinearOrder Word] in
theorem getElem?_of_pairwise {relation : ValueId Word → ValueId Word → Prop} (ordered : ids.Pairwise relation) (refl : ∀ id,relation id id)
    {i j : Nat} {x y : ValueId Word} (before : i ≤ j) (isFirst : ids[i]? = some x) (isSecond : ids[j]? = some y) : relation x y := by
  obtain ⟨inside,rfl⟩ := List.getElem?_eq_some_iff.mp isFirst
  obtain ⟨inside',rfl⟩ := List.getElem?_eq_some_iff.mp isSecond
  rcases Nat.lt_or_eq_of_le before with less | rfl
  · exact pairwise_iff_getElem.mp ordered i j inside inside' less
  · exact refl _

theorem SortedIds.le (sorted : SortedIds vocab ids) {i j : Nat} {x y : ValueId Word} (before : i ≤ j) (isFirst : ids[i]? = some x)
    (isSecond : ids[j]? = some y) : x.value vocab ≤ y.value vocab :=
  getElem?_of_pairwise sorted (fun _ => le_refl _) before isFirst isSecond

def Datatype.group (datatype : Datatype) : Nat := if datatype.isString then 4 else datatype.toNat

theorem comparatorForVocabTypes_iff (d1 d2 : Datatype) : comparatorForVocabTypes d1 d2 = true ↔ d1.group < d2.group := by
  rcases d1 with ⟨_ | _ | _ | _ | _ | _ | _ | _⟩ | _ | _ | _ <;> rcases d2 with ⟨_ | _ | _ | _ | _ | _ | _ | _⟩ | _ | _ | _ <;> decide

variable (vocab) in
theorem value_group (id : ValueId Word) : ∃ rest,id.value vocab = toLex ((getDatatype id).group,rest) := by
  cases id with
  | encoded datatype data =>
    refine ⟨toLex (data,⊥),?_⟩
    cases datatype <;> rfl
  | vocabIndex index | blankNodeIndex index => exact ⟨_,rfl⟩
  | localVocabIndex address word =>
    obtain ⟨rest,same⟩ := ValueId.wordValue_rank (vocab.getPositionOfWord word) word
    exact ⟨rest,same⟩

theorem group_le {x y : ValueId Word} (le : x.value vocab ≤ y.value vocab) : (getDatatype x).group ≤ (getDatatype y).group := by
  obtain ⟨first,isFirst⟩ := value_group vocab x
  obtain ⟨second,isSecond⟩ := value_group vocab y
  rw [isFirst,isSecond,Prod.Lex.toLex_le_toLex] at le
  rcases le with less | ⟨same,_⟩
  · exact less.le
  · exact same.le

def GroupedIds (ids : List (ValueId Word)) : Prop := ids.Pairwise (fun first second => (getDatatype first).group ≤ (getDatatype second).group)

theorem SortedIds.grouped (sorted : SortedIds vocab ids) : GroupedIds ids := sorted.imp group_le

omit [LinearOrder Word] in
theorem getRangeForDatatype_spec (grouped : GroupedIds ids) (datatype : Datatype) :
    ∃ range,getRangeForDatatype ids datatype = some range ∧ range.1 ≤ range.2 ∧ range.2 ≤ ids.length ∧
      ∀ i id,ids[i]? = some id → (range.1 ≤ i ∧ i < range.2 ↔ (getDatatype id).group = datatype.group) := by
  obtain ⟨range,isRange,cuts⟩ : ∃ range,getRangeForDatatype ids datatype = some range ∧
      IsEqualRange (fun id => (getDatatype id).group) datatype.group ids 0 ids.length range := by
    apply equalRange_spec _ _ (Nat.zero_le _) (le_refl _)
    · intro i id isId above below
      exact ⟨comparatorForVocabTypes_iff _ _,comparatorForVocabTypes_iff _ _⟩
    · intro i j x y above before below isFirst isSecond
      exact getElem?_of_pairwise grouped (fun _ => le_refl _) before isFirst isSecond
  refine ⟨range,isRange,cuts.middle,cuts.upper,?_⟩
  intro i id isId
  obtain ⟨inside,_⟩ := List.getElem?_eq_some_iff.mp isId
  constructor
  · rintro ⟨above,below⟩
    exact cuts.equal i id isId above below
  · intro same
    constructor
    · by_contra before
      have smaller := cuts.smaller i id isId (Nat.zero_le _) (by omega)
      omega
    · by_contra after
      have greater := cuts.greater i id isId (by omega) inside
      omega

end Sorted

section Pieces
variable {Word : Type} {ids : List (ValueId Word)}

abbrev Piece := Option Ordering × Interval

def Disjoint (first second : Interval) : Prop := ∀ i,¬ ((first.1 ≤ i ∧ i < first.2) ∧ second.1 ≤ i ∧ i < second.2)

/-- The ranges that a `RangeFilter` adds for the given pieces. -/
def pieceRanges (comparison : Comparison) (pieces : List Piece) : List Interval :=
  (pieces.filter (fun piece => comparison.holds piece.1)).map (·.2)

structure Classified (ids : List (ValueId Word)) (relevant : ValueId Word → Prop) (order : ValueId Word → Option Ordering) (pieces : List Piece) :
    Prop where
  inside : ∀ piece ∈ pieces,piece.2.1 ≤ piece.2.2 ∧ piece.2.2 ≤ ids.length
  disjoint : pieces.Pairwise (fun first second => Disjoint first.2 second.2)
  sound : ∀ piece ∈ pieces,∀ i id,ids[i]? = some id → piece.2.1 ≤ i → i < piece.2.2 → relevant id ∧ order id = piece.1
  complete : ∀ i id,ids[i]? = some id → relevant id → ∃ piece ∈ pieces,piece.2.1 ≤ i ∧ i < piece.2.2

variable {relevant : ValueId Word → Prop} {order : ValueId Word → Option Ordering} {pieces : List Piece}

theorem covers_pieceRanges (classified : Classified ids relevant order pieces) (comparison : Comparison) {i : Nat} {id : ValueId Word}
    (isId : ids[i]? = some id) : Covers (pieceRanges comparison pieces) i ↔ relevant id ∧ comparison.holds (order id) = true := by
  constructor
  · rintro ⟨range,isRange,above,below⟩
    obtain ⟨piece,isPiece,rfl⟩ := List.mem_map.mp isRange
    obtain ⟨isMember,accepted⟩ := mem_filter.mp isPiece
    obtain ⟨isRelevant,same⟩ := classified.sound piece isMember i id isId above below
    rw [same]
    exact ⟨isRelevant,accepted⟩
  · rintro ⟨isRelevant,holds⟩
    obtain ⟨piece,isMember,above,below⟩ := classified.complete i id isId isRelevant
    obtain ⟨_,same⟩ := classified.sound piece isMember i id isId above below
    refine ⟨piece.2,List.mem_map.mpr ⟨piece,mem_filter.mpr ⟨isMember,?_⟩,rfl⟩,above,below⟩
    rw [← same]
    exact holds

theorem lt_of_covers_pieceRanges (classified : Classified ids relevant order pieces) {comparison : Comparison} {i : Nat}
    (covered : Covers (pieceRanges comparison pieces) i) : i < ids.length := by
  obtain ⟨range,isRange,above,below⟩ := covered
  obtain ⟨piece,isPiece,rfl⟩ := List.mem_map.mp isRange
  have inside := classified.inside piece (mem_filter.mp isPiece).1
  omega

theorem Classified.append {other : ValueId Word → Prop} {pieces' : List Piece} (first : Classified ids relevant order pieces)
    (second : Classified ids other order pieces') (different : ∀ id,relevant id → ¬ other id) :
    Classified ids (fun id => relevant id ∨ other id) order (pieces ++ pieces') where
  inside := by
    intro piece isMember
    rcases mem_append.mp isMember with isFirst | isSecond
    · exact first.inside piece isFirst
    · exact second.inside piece isSecond
  disjoint := by
    rw [pairwise_append]
    refine ⟨first.disjoint,second.disjoint,?_⟩
    rintro piece isFirst piece' isSecond i ⟨⟨above,below⟩,above',below'⟩
    have inside := first.inside piece isFirst
    have isId := List.getElem?_eq_getElem (show i < ids.length by omega)
    exact different _ (first.sound piece isFirst i _ isId above below).1 (second.sound piece' isSecond i _ isId above' below').1
  sound := by
    intro piece isMember i id isId above below
    rcases mem_append.mp isMember with isFirst | isSecond
    · obtain ⟨isRelevant,same⟩ := first.sound piece isFirst i id isId above below
      exact ⟨Or.inl isRelevant,same⟩
    · obtain ⟨isRelevant,same⟩ := second.sound piece isSecond i id isId above below
      exact ⟨Or.inr isRelevant,same⟩
  complete := by
    rintro i id isId (isRelevant | isOther)
    · obtain ⟨piece,isMember,inside⟩ := first.complete i id isId isRelevant
      exact ⟨piece,mem_append_left _ isMember,inside⟩
    · obtain ⟨piece,isMember,inside⟩ := second.complete i id isId isOther
      exact ⟨piece,mem_append_right _ isMember,inside⟩

theorem pieceRanges_append (comparison : Comparison) (pieces pieces' : List Piece) :
    pieceRanges comparison (pieces ++ pieces') = pieceRanges comparison pieces ++ pieceRanges comparison pieces' := by
  simp [pieceRanges]

theorem Classified.congr {order' : ValueId Word → Option Ordering} (classified : Classified ids relevant order pieces)
    (same : ∀ (i : Nat) (id : ValueId Word),ids[i]? = some id → relevant id → order id = order' id) : Classified ids relevant order' pieces where
  inside := classified.inside
  disjoint := classified.disjoint
  sound := by
    intro piece isMember i id isId above below
    obtain ⟨isRelevant,isOrder⟩ := classified.sound piece isMember i id isId above below
    exact ⟨isRelevant,(same i id isId isRelevant) ▸ isOrder⟩
  complete := classified.complete

instance pairLe_total : Std.Total (fun first second : Interval => pairLe first second = true) where
  total := by
    intro first second
    simp only [pairLe,Bool.or_eq_true,Bool.and_eq_true,decide_eq_true_eq]
    omega

instance pairLe_trans : IsTrans Interval (fun first second : Interval => pairLe first second = true) where
  trans := by
    intro first second third
    simp only [pairLe,Bool.or_eq_true,Bool.and_eq_true,decide_eq_true_eq]
    omega

section
variable {ranges : List Interval} (valid : ∀ range ∈ ranges,range.1 ≤ range.2)
include valid

theorem covers_simplifyRanges (i : Nat) :
    Covers (simplifyRanges ranges true) i ↔ Covers ranges i := by
  let kept := ranges.filter (fun range => range.1 ≠ range.2)
  have perm : (kept.insertionSort (fun first second => pairLe first second = true)).Perm kept := perm_insertionSort _ _
  have keptValid : ∀ range ∈ kept.insertionSort (fun first second => pairLe first second = true),range.1 ≤ range.2 :=
    fun range isMember => valid range (mem_of_mem_filter (perm.mem_iff.mp isMember))
  calc Covers (simplifyRanges ranges true) i ↔ Covers (kept.insertionSort (fun first second => pairLe first second = true)) i :=
        covers_mergeAllAdjacent keptValid i
    _ ↔ Covers kept i := Covers.perm perm
    _ ↔ Covers ranges i := by
      constructor
      · rintro ⟨range,isMember,inside⟩
        exact ⟨range,mem_of_mem_filter isMember,inside⟩
      · rintro ⟨range,isMember,above,below⟩
        exact ⟨range,mem_filter.mpr ⟨isMember,by simp only [decide_eq_true_eq]; omega⟩,above,below⟩

theorem simplifyRanges_spec (disjoint : ranges.Pairwise Disjoint) :
    Separated (simplifyRanges ranges true) ∧ ∀ i,Covers (simplifyRanges ranges true) i ↔ Covers ranges i := by
  let kept := ranges.filter (fun range => range.1 ≠ range.2)
  let sorted := kept.insertionSort (fun first second => pairLe first second = true)
  have perm : sorted.Perm kept := perm_insertionSort _ _
  have nonempty : ∀ range ∈ sorted,range.1 < range.2 := by
    intro range isMember
    obtain ⟨isRange,notEmpty⟩ := mem_filter.mp (perm.mem_iff.mp isMember)
    have le := valid range isRange
    simp only [decide_eq_true_eq] at notEmpty
    omega
  have symmetric : ∀ {first second : Interval},Disjoint first second → Disjoint second first := fun apart i both => apart i both.symm
  have ordered : Ordered sorted := by
    refine ⟨nonempty,?_⟩
    have apart : sorted.Pairwise Disjoint := (perm.pairwise_iff symmetric).mpr (disjoint.sublist filter_sublist)
    have inOrder : sorted.Pairwise (fun first second => pairLe first second = true) := pairwise_insertionSort _ _
    apply (inOrder.and apart).imp_of_mem
    rintro first second isFirst isSecond ⟨le,notBoth⟩
    have isNonempty := nonempty second isSecond
    have start := notBoth second.1
    simp only [pairLe,Bool.or_eq_true,Bool.and_eq_true,decide_eq_true_eq] at le
    omega
  exact ⟨(mergeAllAdjacent_spec ordered).1,covers_simplifyRanges valid⟩

end

/-- The pieces cut the IDs at the positions from `first` to `last`. -/
structure Cut (order : ValueId Word → Option Ordering) (ids : List (ValueId Word)) (first last : Nat) (pieces : List Piece) : Prop where
  inside : ∀ piece ∈ pieces,first ≤ piece.2.1 ∧ piece.2.1 ≤ piece.2.2 ∧ piece.2.2 ≤ last
  disjoint : pieces.Pairwise (fun first second => Disjoint first.2 second.2)
  sound : ∀ piece ∈ pieces,∀ i id,ids[i]? = some id → piece.2.1 ≤ i → i < piece.2.2 → order id = piece.1
  complete : ∀ i,first ≤ i → i < last → ∃ piece ∈ pieces,piece.2.1 ≤ i ∧ i < piece.2.2

variable {first middle last : Nat} {pieces' : List Piece}

theorem cut_single {isOrder : Option Ordering} (le : first ≤ last) (same : ∀ i id,ids[i]? = some id → first ≤ i → i < last → order id = isOrder) :
    Cut order ids first last [(isOrder,(first,last))] where
  inside := by simpa using le
  disjoint := pairwise_singleton _ _
  sound := by
    intro piece isMember i id isId above below
    obtain rfl := mem_singleton.mp isMember
    exact same i id isId above below
  complete := by
    intro i above below
    exact ⟨_,mem_singleton_self _,above,below⟩

theorem Cut.append (left : Cut order ids first middle pieces) (right : Cut order ids middle last pieces') (before : first ≤ middle)
    (after : middle ≤ last) : Cut order ids first last (pieces ++ pieces') where
  inside := by
    intro piece isMember
    rcases mem_append.mp isMember with isLeft | isRight
    · have inside := left.inside piece isLeft
      omega
    · have inside := right.inside piece isRight
      omega
  disjoint := by
    rw [pairwise_append]
    refine ⟨left.disjoint,right.disjoint,?_⟩
    intro piece isLeft piece' isRight i both
    have inside := left.inside piece isLeft
    have inside' := right.inside piece' isRight
    omega
  sound := by
    intro piece isMember
    rcases mem_append.mp isMember with isLeft | isRight
    · exact left.sound piece isLeft
    · exact right.sound piece isRight
  complete := by
    intro i above below
    rcases Nat.lt_or_ge i middle with isBefore | isAfter
    · obtain ⟨piece,isMember,inside⟩ := left.complete i above isBefore
      exact ⟨piece,mem_append_left _ isMember,inside⟩
    · obtain ⟨piece,isMember,inside⟩ := right.complete i isAfter below
      exact ⟨piece,mem_append_right _ isMember,inside⟩

theorem Cut.perm (cut : Cut order ids first last pieces) (same : pieces'.Perm pieces) : Cut order ids first last pieces' where
  inside := fun piece isMember => cut.inside piece (same.mem_iff.mp isMember)
  disjoint := (same.pairwise_iff (fun apart i both => apart i both.symm)).mpr cut.disjoint
  sound := fun piece isMember => cut.sound piece (same.mem_iff.mp isMember)
  complete := by
    intro i above below
    obtain ⟨piece,isMember,inside⟩ := cut.complete i above below
    exact ⟨piece,same.mem_iff.mpr isMember,inside⟩

theorem Cut.classified (cut : Cut order ids first last pieces) (inside : last ≤ ids.length)
    (exactly : ∀ i id,ids[i]? = some id → (first ≤ i ∧ i < last ↔ relevant id)) : Classified ids relevant order pieces where
  inside := by
    intro piece isMember
    have within := cut.inside piece isMember
    omega
  disjoint := cut.disjoint
  sound := by
    intro piece isMember i id isId above below
    have within := cut.inside piece isMember
    exact ⟨(exactly i id isId).mp (by omega),cut.sound piece isMember i id isId above below⟩
  complete := by
    intro i id isId isRelevant
    obtain ⟨above,below⟩ := (exactly i id isId).mpr isRelevant
    exact cut.complete i above below

theorem IsEqualRange.cut {κ : Type} [LinearOrder κ] {key : ValueId Word → κ} {value : κ} {range : Interval}
    (isRange : IsEqualRange key value ids first last range)
    (same : ∀ i id,ids[i]? = some id → first ≤ i → i < last → order id = some (cmp (key id) value)) :
    Cut order ids first last [(some .lt,(first,range.1)),(some .eq,range),(some .gt,(range.2,last))] := by
  have lower := isRange.lower
  have middle := isRange.middle
  have upper := isRange.upper
  have smaller : Cut order ids first range.1 [(some .lt,(first,range.1))] := by
    apply cut_single lower
    intro i id isId above below
    rw [same i id isId above (by omega),(cmp_eq_lt_iff _ _).mpr (isRange.smaller i id isId above below)]
  have equal : Cut order ids range.1 range.2 [(some .eq,range)] := by
    apply cut_single middle
    intro i id isId above below
    rw [same i id isId (by omega) (by omega),(cmp_eq_eq_iff _ _).mpr (isRange.equal i id isId above below)]
  have greater : Cut order ids range.2 last [(some .gt,(range.2,last))] := by
    apply cut_single upper
    intro i id isId above below
    rw [same i id isId (by omega) below,(cmp_eq_gt_iff _ _).mpr (isRange.greater i id isId above below)]
  exact smaller.append (equal.append greater middle upper) lower (by omega)

theorem simplified_spec (classified : Classified ids relevant order pieces) (comparison : Comparison) :
    Separated (simplifyRanges (pieceRanges comparison pieces) true) ∧
      (∀ i,Covers (simplifyRanges (pieceRanges comparison pieces) true) i → i < ids.length) ∧
      ∀ i id,ids[i]? = some id →
        (Covers (simplifyRanges (pieceRanges comparison pieces) true) i ↔ relevant id ∧ comparison.holds (order id) = true) := by
  have disjoint : (pieceRanges comparison pieces).Pairwise Disjoint := by
    rw [pieceRanges,pairwise_map]
    exact classified.disjoint.sublist filter_sublist
  have valid : ∀ range ∈ pieceRanges comparison pieces,range.1 ≤ range.2 := by
    intro range isMember
    obtain ⟨piece,isPiece,rfl⟩ := List.mem_map.mp isMember
    exact (classified.inside piece (mem_of_mem_filter isPiece)).1
  obtain ⟨separated,covers⟩ := simplifyRanges_spec valid disjoint
  refine ⟨separated,?_,?_⟩
  · intro i covered
    exact lt_of_covers_pieceRanges classified ((covers i).mp covered)
  · intro i id isId
    rw [covers,covers_pieceRanges classified comparison isId]

end Pieces

namespace RangeFilter
variable (filter : RangeFilter) (first last : Nat)

@[simp] theorem addSmaller_eq : filter.addSmaller first last = ⟨filter.comparison,filter.result ++ pieceRanges filter.comparison [(some .lt,(first,last))]⟩ := by
  rcases filter with ⟨_ | _ | _ | _ | _ | _,result⟩ <;> simp [addSmaller,addImpl,pieceRanges,Comparison.holds]

@[simp] theorem addEqual_eq : filter.addEqual first last = ⟨filter.comparison,filter.result ++ pieceRanges filter.comparison [(some .eq,(first,last))]⟩ := by
  rcases filter with ⟨_ | _ | _ | _ | _ | _,result⟩ <;> simp [addEqual,addImpl,pieceRanges,Comparison.holds]

@[simp] theorem addGreater_eq : filter.addGreater first last = ⟨filter.comparison,filter.result ++ pieceRanges filter.comparison [(some .gt,(first,last))]⟩ := by
  rcases filter with ⟨_ | _ | _ | _ | _ | _,result⟩ <;> simp [addGreater,addImpl,pieceRanges,Comparison.holds]

@[simp] theorem addNotEqual_eq : filter.addNotEqual first last = ⟨filter.comparison,filter.result ++ pieceRanges filter.comparison [(none,(first,last))]⟩ := by
  rcases filter with ⟨_ | _ | _ | _ | _ | _,result⟩ <;> simp [addNotEqual,addImpl,pieceRanges,Comparison.holds]

end RangeFilter

section IndexTypes
variable {Word : Type} [LinearOrder Word] {vocab : Vocabulary Word} {ids : List (ValueId Word)}

theorem compareByBits_iff (a b : ValueId Word) : compareByBits vocab a b = true ↔ a.value vocab < b.value vocab := by
  rw [compareByBits,beq_iff_eq,ValueId.compare_eq,cmp_eq_lt_iff]

theorem getRangesForIndexTypes_spec (sorted : SortedIds vocab ids) (valueId : ValueId Word) :
    ∃ pieces,(∀ comparison,getRangesForIndexTypes vocab ids valueId comparison = some (pieceRanges comparison pieces)) ∧
      Classified ids (fun id => (getDatatype id).group = (getDatatype valueId).group) (fun id => some (id.compare vocab valueId)) pieces := by
  obtain ⟨range,isRange,le,inside,exactly⟩ := getRangeForDatatype_spec sorted.grouped (getDatatype valueId)
  obtain ⟨equal,isEqual,cuts⟩ : ∃ equal,
      equalRange (fun id => compareByBits vocab id valueId) (fun id => compareByBits vocab valueId id) ids range.1 range.2 = some equal ∧
        IsEqualRange (fun id => id.value vocab) (valueId.value vocab) ids range.1 range.2 equal := by
    apply equalRange_spec _ _ le inside
    · intro i id isId above below
      exact ⟨compareByBits_iff id valueId,compareByBits_iff valueId id⟩
    · intro i j x y above before below isFirst isSecond
      exact sorted.le before isFirst isSecond
  refine ⟨_,?_,(cuts.cut (fun i id isId above below => by rw [ValueId.compare_eq])).classified inside exactly⟩
  intro comparison
  rw [getRangesForIndexTypes,isRange]
  simp only [Option.bind_eq_bind,Option.bind_some,isEqual,RangeFilter.addSmaller_eq,RangeFilter.addEqual_eq,RangeFilter.addGreater_eq,
    nil_append,append_assoc,← pieceRanges_append]
  rfl

end IndexTypes
end Qlever.ValueIdComparators
