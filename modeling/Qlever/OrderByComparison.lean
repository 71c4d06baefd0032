import Qlever.ValueIdNumericRanges
import Qlever.SplitVocabulary

/-! The comparison of ORDER BY, which is `compareIds` in the mode `CompareByType`. It is a strict weak order on a set of IDs unless two integers
of the set are equal to the same double, or the parts of a split vocabulary change the order of its words.
-/
namespace Qlever.ValueIdComparators
open Qlever.Library ValueId

section WeakOrder
variable {α : Type} {order : α → α → Ordering}

theorem strictWeakOrder_iff (swap : ∀ x y,order y x = (order x y).swap) :
    IsStrictWeakOrder α (fun x y => order x y = .lt) ↔ ∀ x y z,order x y ≠ .gt → order y z ≠ .gt → order x z ≠ .gt := by
  have flip : ∀ x y,order x y = .gt ↔ order y x = .lt := by
    intro x y
    rw [swap x y]
    cases order x y <;> simp
  have irreflexive : ∀ x,order x x ≠ .lt := by
    intro x less
    have greater := (flip x x).mpr less
    rw [less] at greater
    cases greater
  constructor
  · intro weak x y z first second greater
    rw [Ne,flip] at first second
    rw [flip] at greater
    -- The element in the middle is neither after `z` nor before `x`.
    by_cases below : order x y = .lt
    · exact second (weak.trans z x y greater below)
    · by_cases above : order y z = .lt
      · exact first (weak.trans y z x above greater)
      · exact (weak.incomp_trans x y z ⟨below,first⟩ ⟨above,second⟩).2 greater
  · intro trans
    have notLess : ∀ x y,order x y ≠ .lt ↔ order y x ≠ .gt := fun x y => not_congr (flip y x).symm
    refine { irrefl := irreflexive,trans := ?_,incomp_trans := ?_ }
    · intro x y z first second
      by_contra notBefore
      rw [← Ne,notLess] at notBefore
      have atMost : order x y ≠ .gt := by rw [first]; decide
      exact (notLess y z).mpr (trans z x y notBefore atMost) second
    · intro x y z first second
      obtain ⟨xy,yx⟩ := first
      obtain ⟨yz,zy⟩ := second
      rw [← Ne,notLess] at xy yx yz zy
      exact ⟨(notLess x z).mpr (trans z y x yz xy),(notLess z x).mpr (trans x y z yx zy)⟩

end WeakOrder

section ByType
variable {Word : Type}

/-- The order of two numbers that `makeComparatorForNans` passes to the comparator. -/
def orderingWithNan (a b : NumericValue) : Option Ordering :=
  if a.isNan && b.isNan then some .eq
  else if a.isNan then some .gt
  else if b.isNan then some .lt
  else a.compare b

variable [LinearOrder Word] (vocab : IndexVocabulary Word)

def orderByValue (a b : ValueId Word) : Option Ordering :=
  match a,b with
  | .encoded .Bool first,.encoded .Bool second => some (cmp (boolFromData first) (boolFromData second))
  | a,b =>
    match getNumeric a,getNumeric b with
    | some first,some second => orderingWithNan first second
    | _,_ => some (a.compareThreeWay vocab b)

def orderByType (a b : ValueId Word) : Option Ordering :=
  if areTypesCompatible (getDatatype a) (getDatatype b) then orderByValue vocab a b
  else some (cmp (getDatatype a).toNat (getDatatype b).toNat)

/-- `compareIds` in the mode `CompareByType`. -/
def compareIdsByType (a b : ValueId Word) (comparison : Comparison) : ComparisonResult := fromBool (comparison.holds (orderByType vocab a b))

end ByType

namespace NumericValue
variable {f s t : NumericValue}

def place (number : NumericValue) : WithTop Int := if number.isNan then ⊤ else (Binary64.key number.toDouble : Int)

/-- Two integers are compared exactly, and all other numbers as doubles. -/
noncomputable def order : NumericValue → NumericValue → Ordering
  | int first,int second => cmp first second
  | first,second => cmp first.place second.place

theorem isNan_compare (isNan : f.isNan = true) : f.compare s = none := by
  cases f with
  | int v => cases isNan
  | double bits =>
    have bitsNan : Binary64.isNan bits = true := isNan
    cases s <;> simp [compare,Binary64.compare,toDouble,bitsNan]

theorem orderingWithNan_double (fits : f.Fits) (fits' : s.Fits) (asDoubles : f.compare s = Binary64.compare f.toDouble s.toDouble) :
    orderingWithNan f s = some (cmp f.place s.place) := by
  unfold orderingWithNan place
  rw [asDoubles,Binary64.compare,isNan_toDouble fits,isNan_toDouble fits']
  cases f.isNan <;> cases s.isNan <;> simp [cmp,cmpUsing]

theorem orderingWithNan_eq (fits : f.Fits) (fits' : s.Fits) : orderingWithNan f s = some (f.order s) := by
  cases f with
  | int v =>
    cases s with
    | int w => rfl
    | double bits => exact orderingWithNan_double fits fits' rfl
  | double bits => exact orderingWithNan_double fits fits' rfl

/-- A number that is equal to a double is not before it and not behind it. -/
theorem order_of_compare (fits : f.Fits) (fits' : s.Fits) (equal : f.compare s = some .eq) : f.order s = .eq := by
  have number : f.isNan = false ∧ s.isNan = false := by
    constructor
    · by_contra isNan
      rw [isNan_compare (by simpa using isNan)] at equal
      cases equal
    · by_contra isNan
      rw [compare_isNan (by simpa using isNan)] at equal
      cases equal
  have order := orderingWithNan_eq fits fits'
  rw [orderingWithNan,number.1,number.2] at order
  exact Option.some.inj (order.symm.trans equal)

theorem order_swap : s.order f = (f.order s).swap := by
  cases f <;> cases s <;> exact (cmp_swap _ _).symm

theorem place_mono {v w : Int} (le : v ≤ w) (fits : (int v).Fits) (fits' : (int w).Fits) : (int v).place ≤ (int w).place :=
  WithTop.coe_le_coe.mpr (Binary64.key_ofInt_mono le fits fits')

theorem place_le (fits : f.Fits) (fits' : s.Fits) (le : f.order s ≠ .gt) : f.place ≤ s.place := by
  cases f with
  | int v =>
    cases s with
    | int w => exact place_mono (ValueId.cmp_ne_gt.mp le) fits fits'
    | double bits => exact ValueId.cmp_ne_gt.mp le
  | double bits => cases s <;> exact ValueId.cmp_ne_gt.mp le

theorem compare_eq_of_place {v w : Int} {bits : Nat} (fits : (int v).Fits) (fits' : (int w).Fits) (less : v < w)
    (below : (int w).place ≤ (double bits).place) (above : (double bits).place ≤ (int v).place) :
    (int v).compare (double bits) = some .eq ∧ (int w).compare (double bits) = some .eq := by
  have mono := place_mono less.le fits fits'
  have sameV : (int v).place = (double bits).place := le_antisymm (mono.trans below) above
  have sameW : (int w).place = (double bits).place := le_antisymm below (above.trans mono)
  have notNan : Binary64.isNan bits = false := by
    by_contra isNan
    rw [Bool.not_eq_false] at isNan
    simp [place,NumericValue.isNan,isNan] at sameV
  have equal : ∀ {i : Int},(int i).Fits → (int i).place = (double bits).place → (int i).compare (double bits) = some .eq := by
    intro i small same
    have keys : Binary64.key (Binary64.ofInt i) = Binary64.key bits := by simpa [place,NumericValue.isNan,notNan,toDouble] using same
    simp [compare,Binary64.compare,toDouble,Binary64.isNan_ofInt small,notNan,keys]
  exact ⟨equal fits sameV,equal fits' sameW⟩

theorem order_trans (fits : f.Fits) (fits' : s.Fits) (fits'' : t.Fits) (first : f.order s ≠ .gt) (second : s.order t ≠ .gt)
    (distinct : ∀ v w bits,t = int v → f = int w → s = double bits → v < w →
      ¬ ((int v).compare s = some .eq ∧ (int w).compare s = some .eq)) : f.order t ≠ .gt := by
  have below := place_le fits fits' first
  have above := place_le fits' fits'' second
  cases f with
  | double bits => cases t <;> exact ValueId.cmp_ne_gt.mpr (below.trans above)
  | int w =>
    cases t with
    | double bits => exact ValueId.cmp_ne_gt.mpr (below.trans above)
    | int v =>
      cases s with
      | int u => exact ValueId.cmp_ne_gt.mpr ((ValueId.cmp_ne_gt.mp first).trans (ValueId.cmp_ne_gt.mp second))
      | double bits =>
        apply ValueId.cmp_ne_gt.mpr
        by_contra notLe
        exact distinct v w bits rfl rfl rfl (not_le.mp notLe) (compare_eq_of_place fits'' fits (not_le.mp notLe) below above)

end NumericValue

section Ids
variable {Word : Type} [LinearOrder Word] {vocab : IndexVocabulary Word} {a b c : ValueId Word}

def Datatype.place (datatype : Datatype) : Nat := if datatype.isString then 4 else if datatype.isNumeric then 2 else datatype.toNat

theorem areTypesCompatible_eq (typeA typeB : Datatype) :
    areTypesCompatible typeA typeB = (typeA != .encoded .Undefined && typeA.place = typeB.place) := by
  rcases typeA with ⟨_ | _ | _ | _ | _ | _ | _ | _⟩ | _ | _ | _ <;> rcases typeB with ⟨_ | _ | _ | _ | _ | _ | _ | _⟩ | _ | _ | _ <;> decide

theorem cmp_place {typeA typeB : Datatype} (different : typeA.place ≠ typeB.place) : cmp typeA.toNat typeB.toNat = cmp typeA.place typeB.place := by
  rcases typeA with ⟨_ | _ | _ | _ | _ | _ | _ | _⟩ | _ | _ | _ <;> rcases typeB with ⟨_ | _ | _ | _ | _ | _ | _ | _⟩ | _ | _ | _ <;>
    first | rfl | exact absurd rfl different

def plainKey : ValueId Word → Nat
  | .encoded .Undefined _ => 0
  | .encoded .Bool data => boolFromData data
  | .encoded _ data => data
  | .blankNodeIndex index => index
  | _ => 0

theorem orderByType_place (different : (getDatatype a).place ≠ (getDatatype b).place) :
    orderByType vocab a b = some (cmp (getDatatype a).place (getDatatype b).place) := by
  unfold orderByType
  rw [areTypesCompatible_eq,if_neg (by simp [different]),cmp_place different]

omit [LinearOrder Word] in
theorem getNumeric_cases (id : ValueId Word) (fits : FitsData id) :
    (∃ number,getNumeric id = some number ∧ number.Fits ∧ (getDatatype id).place = 2) ∨ getNumeric id = none ∧ (getDatatype id).place ≠ 2 := by
  rcases id with ⟨_ | _ | _ | _ | _ | _ | _ | _,data⟩ | _ | _ | _
  case encoded.Int => exact Or.inl ⟨_,rfl,fromNBit_small fits,rfl⟩
  case encoded.Double => exact Or.inl ⟨_,rfl,trivial,rfl⟩
  all_goals exact Or.inr ⟨rfl,by simp [getDatatype,Datatype.place,Datatype.isString,Datatype.isNumeric,Datatype.toNat,EncodedType.toNat]⟩

theorem orderByType_numeric {f s : NumericValue} (isA : getNumeric a = some f) (isB : getNumeric b = some s) (fits : f.Fits) (fits' : s.Fits) :
    orderByType vocab a b = some (f.order s) := by
  have value : orderByValue vocab a b = orderingWithNan f s := by
    rcases a with ⟨_ | _ | _ | _ | _ | _ | _ | _,data⟩ | _ | _ | _ <;> cases isA <;>
      rcases b with ⟨_ | _ | _ | _ | _ | _ | _ | _,data'⟩ | _ | _ | _ <;> cases isB <;> rfl
  have compatible : areTypesCompatible (getDatatype a) (getDatatype b) = true := by
    rcases a with ⟨_ | _ | _ | _ | _ | _ | _ | _,data⟩ | _ | _ | _ <;> cases isA <;>
      rcases b with ⟨_ | _ | _ | _ | _ | _ | _ | _,data'⟩ | _ | _ | _ <;> cases isB <;> rfl
  rw [orderByType,if_pos compatible,value,NumericValue.orderingWithNan_eq fits fits']

theorem orderByType_text {localA localB : Bool} {wordA wordB : Word} (textA : IsText vocab a localA wordA) (textB : IsText vocab b localB wordB) :
    orderByType vocab a b = some (a.compareThreeWay vocab b) := by
  cases textA <;> cases textB <;> rfl

def IsPlain (id : ValueId Word) : Prop := (getDatatype id).place ≠ 2 ∧ (getDatatype id).place ≠ 4

theorem eq_of_place {typeA typeB : Datatype} (notNumeric : typeA.place ≠ 2) (notString : typeA.place ≠ 4) (same : typeA.place = typeB.place) :
    typeA = typeB := by
  revert notNumeric notString same
  rcases typeA with ⟨_ | _ | _ | _ | _ | _ | _ | _⟩ | _ | _ | _ <;> rcases typeB with ⟨_ | _ | _ | _ | _ | _ | _ | _⟩ | _ | _ | _ <;> decide

theorem orderByType_plain (plain : IsPlain a) (same : (getDatatype a).place = (getDatatype b).place) :
    orderByType vocab a b = some (cmp (plainKey a) (plainKey b)) := by
  have equal := eq_of_place plain.1 plain.2 same
  cases a with
  | vocabIndex _ | localVocabIndex _ _ => exact absurd rfl plain.2
  | blankNodeIndex index =>
    cases b <;> cases equal
    exact congrArg some (cmp_congr (by simp [ValueId.bits,Prod.Lex.toLex_lt_toLex,plainKey]) (by simp [ValueId.bits,Prod.Lex.toLex_lt_toLex,plainKey]))
  | encoded datatype data =>
    cases b <;> cases equal
    rename_i data'
    have byBits : (ValueId.encoded datatype data).compareThreeWay vocab (ValueId.encoded datatype data') = cmp data data' := by
      apply cmp_congr <;> simp [ValueId.bits,Prod.Lex.toLex_lt_toLex]
    cases datatype with
    | Undefined | Bool => rfl
    | Int | Double => exact absurd rfl plain.1
    | _ => exact congrArg some byBits

omit [LinearOrder Word] in
theorem place_encoded (isEncoded : a.IsEncoded) : (getDatatype a).place ≠ 4 := by
  rcases a with ⟨_ | _ | _ | _ | _ | _ | _ | _,data⟩ | _ | _ | _
  case vocabIndex => exact isEncoded.elim
  case localVocabIndex => exact isEncoded.elim
  all_goals simp [getDatatype,Datatype.place,Datatype.isString,Datatype.isNumeric,Datatype.toNat,EncodedType.toNat]

theorem kind_cases (vocab : IndexVocabulary Word) (isId : IsId vocab a) (fits : FitsData a) :
    (∃ number,getNumeric a = some number ∧ number.Fits ∧ (getDatatype a).place = 2) ∨
      (∃ isLocal word,IsText vocab a isLocal word ∧ (getDatatype a).place = 4) ∨ IsPlain a := by
  rcases text_or_encoded vocab isId with ⟨isLocal,word,text⟩ | isEncoded
  · exact Or.inr (Or.inl ⟨isLocal,word,text,by cases text <;> rfl⟩)
  · rcases getNumeric_cases a fits with isNumber | ⟨_,notNumeric⟩
    · exact Or.inl isNumber
    · exact Or.inr (Or.inr ⟨notNumeric,place_encoded isEncoded⟩)

def Valid (vocab : IndexVocabulary Word) (id : ValueId Word) : Prop := IsId vocab id ∧ FitsData id

theorem numeric_of_place (valid : Valid vocab a) (place : (getDatatype a).place = 2) : ∃ number,getNumeric a = some number ∧ number.Fits := by
  rcases kind_cases vocab valid.1 valid.2 with ⟨number,isNumber,fits,_⟩ | ⟨_,_,_,isText⟩ | plain
  · exact ⟨number,isNumber,fits⟩
  · rw [place] at isText
    cases isText
  · exact absurd place plain.1

theorem text_of_place (valid : Valid vocab a) (place : (getDatatype a).place = 4) : ∃ isLocal word,IsText vocab a isLocal word := by
  rcases kind_cases vocab valid.1 valid.2 with ⟨_,_,_,isNumber⟩ | ⟨isLocal,word,text,_⟩ | plain
  · rw [place] at isNumber
    cases isNumber
  · exact ⟨isLocal,word,text⟩
  · exact absurd place plain.2

def byType (vocab : IndexVocabulary Word) (a b : ValueId Word) : Ordering := (orderByType vocab a b).getD .eq

theorem byType_eq {order : Ordering} (same : orderByType vocab a b = some order) : byType vocab a b = order := by
  rw [byType,same,Option.getD_some]

theorem orderByType_eq (validA : Valid vocab a) (validB : Valid vocab b) : orderByType vocab a b = some (byType vocab a b) := by
  have defined : ∃ order,orderByType vocab a b = some order := by
    by_cases same : (getDatatype a).place = (getDatatype b).place
    · rcases kind_cases vocab validA.1 validA.2 with ⟨f,isA,fits,place⟩ | ⟨_,_,textA,place⟩ | plain
      · obtain ⟨s,isB,fits'⟩ := numeric_of_place validB (same.symm.trans place)
        exact ⟨_,orderByType_numeric isA isB fits fits'⟩
      · obtain ⟨_,_,textB⟩ := text_of_place validB (same.symm.trans place)
        exact ⟨_,orderByType_text textA textB⟩
      · exact ⟨_,orderByType_plain plain same⟩
    · exact ⟨_,orderByType_place same⟩
  obtain ⟨order,isOrder⟩ := defined
  rw [isOrder,byType_eq isOrder]

theorem byType_swap (validA : Valid vocab a) (validB : Valid vocab b) : byType vocab b a = (byType vocab a b).swap := by
  by_cases same : (getDatatype a).place = (getDatatype b).place
  · rcases kind_cases vocab validA.1 validA.2 with ⟨f,isA,fits,place⟩ | ⟨_,_,textA,place⟩ | plain
    · obtain ⟨s,isB,fits'⟩ := numeric_of_place validB (same.symm.trans place)
      rw [byType_eq (orderByType_numeric isA isB fits fits'),byType_eq (orderByType_numeric isB isA fits' fits),NumericValue.order_swap]
    · obtain ⟨_,_,textB⟩ := text_of_place validB (same.symm.trans place)
      rw [byType_eq (orderByType_text textA textB),byType_eq (orderByType_text textB textA),compare_swap validA.1 validB.1]
    · have plainB : IsPlain b := ⟨same ▸ plain.1,same ▸ plain.2⟩
      rw [byType_eq (orderByType_plain plain same),byType_eq (orderByType_plain plainB same.symm),cmp_swap]
  · rw [byType_eq (orderByType_place same),byType_eq (orderByType_place (Ne.symm same)),cmp_swap]

theorem place_le (le : byType vocab a b ≠ .gt) : (getDatatype a).place ≤ (getDatatype b).place := by
  by_cases same : (getDatatype a).place = (getDatatype b).place
  · exact same.le
  · rw [byType_eq (orderByType_place same),cmp_ne_gt] at le
    exact le

theorem fits_of_getNumeric {number : NumericValue} (valid : Valid vocab a) (isNumber : getNumeric a = some number) : number.Fits := by
  rcases getNumeric_cases a valid.2 with ⟨other,isOther,fits,_⟩ | ⟨none,_⟩
  · rw [isOther] at isNumber
    exact Option.some.inj isNumber ▸ fits
  · rw [none] at isNumber
    cases isNumber

def NumbersKeepOrder (ids : Set (ValueId Word)) : Prop :=
  ∀ a ∈ ids,∀ b ∈ ids,∀ c ∈ ids,∀ v w bits,getNumeric a = some (.int v) → getNumeric b = some (.int w) → getNumeric c = some (.double bits) → v < w →
    ¬ ((NumericValue.int v).compare (.double bits) = some .eq ∧ (NumericValue.int w).compare (.double bits) = some .eq)

theorem byType_trans {ids : Set (ValueId Word)} (numbers : NumbersKeepOrder ids) (words : KeepsOrderOn vocab ids) (validA : Valid vocab a)
    (validB : Valid vocab b) (validC : Valid vocab c) (isA : a ∈ ids) (isB : b ∈ ids) (isC : c ∈ ids) (first : byType vocab a b ≠ .gt)
    (second : byType vocab b c ≠ .gt) : byType vocab a c ≠ .gt := by
  have placeAB := place_le first
  have placeBC := place_le second
  by_cases different : (getDatatype a).place = (getDatatype c).place
  swap
  · rw [byType_eq (orderByType_place different),cmp_ne_gt]
    exact placeAB.trans placeBC
  have sameAB : (getDatatype a).place = (getDatatype b).place := le_antisymm placeAB (placeBC.trans_eq different.symm)
  have sameBC : (getDatatype b).place = (getDatatype c).place := sameAB.symm.trans different
  rcases kind_cases vocab validA.1 validA.2 with ⟨f,isF,fits,place⟩ | ⟨_,_,textA,place⟩ | plain
  · obtain ⟨s,isS,fits'⟩ := numeric_of_place validB (sameAB.symm.trans place)
    obtain ⟨t,isT,fits''⟩ := numeric_of_place validC (different.symm.trans place)
    rw [byType_eq (orderByType_numeric isF isS fits fits')] at first
    rw [byType_eq (orderByType_numeric isS isT fits' fits'')] at second
    rw [byType_eq (orderByType_numeric isF isT fits fits'')]
    apply NumericValue.order_trans fits fits' fits'' first second
    rintro v w bits rfl rfl rfl less
    exact numbers c isC a isA b isB v w bits isT isF isS less
  · obtain ⟨_,_,textB⟩ := text_of_place validB (sameAB.symm.trans place)
    obtain ⟨_,_,textC⟩ := text_of_place validC (different.symm.trans place)
    rw [byType_eq (orderByType_text textA textB)] at first
    rw [byType_eq (orderByType_text textB textC)] at second
    rw [byType_eq (orderByType_text textA textC)]
    exact words.trans_text textA textB textC isA isB isC first second
  · have plainB : IsPlain b := ⟨sameAB ▸ plain.1,sameAB ▸ plain.2⟩
    rw [byType_eq (orderByType_plain plain sameAB),cmp_ne_gt] at first
    rw [byType_eq (orderByType_plain plainB sameBC),cmp_ne_gt] at second
    rw [byType_eq (orderByType_plain plain different),cmp_ne_gt]
    exact first.trans second

/-- The comparison of ORDER BY is a strict weak order on a set of IDs exactly if no double of the set is equal to two of its integers, and no word of
the vocabulary is between two local words in the order of the positions but not in the order of the words. -/
theorem compareIdsByType_strictWeakOrder_iff (ids : Set (ValueId Word)) (valid : ∀ id ∈ ids,Valid vocab id) :
    IsStrictWeakOrder ids (fun a b => compareIdsByType vocab a b .LT = .True) ↔ NumbersKeepOrder ids ∧ KeepsOrderOn vocab ids := by
  have less : (fun a b : ids => compareIdsByType vocab a.1 b.1 .LT = .True) = fun a b => byType vocab a.1 b.1 = .lt := by
    ext a b
    rw [compareIdsByType,orderByType_eq (valid a a.2) (valid b b.2)]
    cases byType vocab a.1 b.1 <;> simp [Comparison.holds,fromBool]
  rw [less,strictWeakOrder_iff (fun a b : ids => byType_swap (valid a a.2) (valid b b.2))]
  constructor
  · intro trans
    constructor
    · intro a isA b isB c isC v w bits isV isW isBits smaller equal
      have fitsV := fits_of_getNumeric (valid a isA) isV
      have fitsW := fits_of_getNumeric (valid b isB) isW
      have fitsBits := fits_of_getNumeric (valid c isC) isBits
      -- Both integers are equal to the double, so the larger one is not greater than the smaller one.
      have first : byType vocab b c ≠ .gt := by
        rw [byType_eq (orderByType_numeric isW isBits fitsW fitsBits),NumericValue.order_of_compare fitsW fitsBits equal.2]
        decide
      have second : byType vocab c a ≠ .gt := by
        rw [byType_eq (orderByType_numeric isBits isV fitsBits fitsV),NumericValue.order_swap,NumericValue.order_of_compare fitsV fitsBits equal.1]
        decide
      have third := trans ⟨b,isB⟩ ⟨c,isC⟩ ⟨a,isA⟩ first second
      rw [byType_eq (orderByType_numeric isW isV fitsW fitsV)] at third
      exact absurd smaller (cmp_ne_gt.mp third).not_gt
    · intro address address' index first second word isFirst isSecond isIndex isWord smaller between
      have text := IsText.vocab index word (valid _ isIndex).1.1 isWord
      have before : byType vocab (.localVocabIndex address' second) (.vocabIndex index) ≠ .gt := by
        rw [byType_eq (orderByType_text (.isLocal address' second) text),compare_text vocab (.isLocal address' second) text]
        exact cmp_ne_gt.mpr between.1
      have after : byType vocab (.vocabIndex index) (.localVocabIndex address first) ≠ .gt := by
        rw [byType_eq (orderByType_text text (.isLocal address first)),compare_text vocab text (.isLocal address first)]
        exact cmp_ne_gt.mpr between.2
      have third := trans ⟨_,isSecond⟩ ⟨_,isIndex⟩ ⟨_,isFirst⟩ before after
      rw [byType_eq (orderByType_text (.isLocal address' second) (.isLocal address first))] at third
      exact absurd smaller (cmp_ne_gt.mp third).not_gt
  · intro both a b c first second
    exact byType_trans both.1 both.2 (valid a a.2) (valid b b.2) (valid c c.2) a.2 b.2 c.2 first second

end Ids

section Examples

def noWords : IndexVocabulary Nat := .plain ⟨[],Vocabulary.sorted_nil⟩

/-- One integer and one double are always in order. -/
theorem compareIdsByType_strictWeakOrder_pair : IsStrictWeakOrder ({.encoded .Int 1,.encoded .Double 0} : Set (ValueId Nat))
    (fun a b => compareIdsByType noWords a b .LT = .True) := by
  refine (compareIdsByType_strictWeakOrder_iff _ ?_).mpr ⟨?_,?_⟩
  · rintro id (rfl | rfl) <;> exact ⟨trivial,by unfold FitsData dataOf; decide⟩
  · rintro a (rfl | rfl) b (rfl | rfl) c _ v w bits isV isW _ less <;> cases isV <;> cases isW
    exact absurd less (lt_irrefl _)
  · rintro address address' index first second word (same | same) <;> cases same

/-- The double 2^53 is equal to 2^53 and to 2^53 + 1, which are different integers. -/
theorem compareIdsByType_not_strictWeakOrder :
    ¬ IsStrictWeakOrder {id : ValueId Nat | Valid noWords id} (fun a b => compareIdsByType noWords a b .LT = .True) := by
  intro weak
  have fits : ∀ datatype,∀ data < 2 ^ 60,Valid noWords (.encoded datatype data) := fun datatype data small => ⟨trivial,small⟩
  let small : {id : ValueId Nat | Valid noWords id} := ⟨.encoded .Int (2 ^ 53),fits _ _ (by decide)⟩
  let double : {id : ValueId Nat | Valid noWords id} := ⟨.encoded .Double (0x434 * 2 ^ 48),fits _ _ (by decide)⟩
  let large : {id : ValueId Nat | Valid noWords id} := ⟨.encoded .Int (2 ^ 53 + 1),fits _ _ (by decide)⟩
  have first : ¬ compareIdsByType noWords (.encoded .Int (2 ^ 53)) (.encoded .Double (0x434 * 2 ^ 48)) .LT = .True ∧
      ¬ compareIdsByType noWords (.encoded .Double (0x434 * 2 ^ 48)) (.encoded .Int (2 ^ 53)) .LT = .True := by decide +kernel
  have second : ¬ compareIdsByType noWords (.encoded .Double (0x434 * 2 ^ 48)) (.encoded .Int (2 ^ 53 + 1)) .LT = .True ∧
      ¬ compareIdsByType noWords (.encoded .Int (2 ^ 53 + 1)) (.encoded .Double (0x434 * 2 ^ 48)) .LT = .True := by decide +kernel
  have less : compareIdsByType noWords (.encoded .Int (2 ^ 53)) (.encoded .Int (2 ^ 53 + 1)) .LT = .True := by decide +kernel
  exact (weak.incomp_trans small double large first second).1 less

end Examples

end Qlever.ValueIdComparators
