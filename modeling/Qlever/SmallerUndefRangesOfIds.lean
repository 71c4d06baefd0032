import Qlever.SmallerUndefRangesExact
import Qlever.ValueId

/-! `findSmallerUndefRanges` on rows of `ValueId`s. The words of the local vocabulary that stand between two words of the vocabulary also stand
between an id and the id with the next bits.
-/
namespace Qlever
variable {Word : Type} [LinearOrder Word] (vocab : Vocabulary Word)

namespace ValueId

def numDataBits : Nat := 60

def IsValid : ValueId Word → Prop
  | encoded datatype data => if datatype = .Undefined then data = 0 else data < 2 ^ numDataBits
  | vocabIndex index => index < 2 ^ numDataBits
  | localVocabIndex address _ => address < 2 ^ numDataBits
  | blankNodeIndex index => index < 2 ^ numDataBits

instance (id : ValueId Word) : Decidable id.IsValid :=
  match id with
  | encoded datatype data => inferInstanceAs (Decidable (if datatype = .Undefined then data = 0 else data < 2 ^ numDataBits))
  | vocabIndex index => inferInstanceAs (Decidable (index < 2 ^ numDataBits))
  | localVocabIndex address _ => inferInstanceAs (Decidable (address < 2 ^ numDataBits))
  | blankNodeIndex index => inferInstanceAs (Decidable (index < 2 ^ numDataBits))

def makeUndefined : ValueId Word := encoded .Undefined 0

/-- The datatype and the data of `getBits() + 1`. -/
def nextBits (id : ValueId Word) : Nat × Nat :=
  let (datatype,data) := ofLex id.bits
  if data + 1 = 2 ^ numDataBits then (datatype + 1,0) else (datatype,data + 1)

/-- The operator `<=>` with an id that is made of bits. If these are of the datatype `LocalVocabIndex` they are no pointer to a word. -/
def compareWithBits (id : ValueId Word) (datatype data : Nat) : Option Ordering :=
  match id with
  | localVocabIndex _ word =>
    if datatype = 5 then none
    else if datatype = 4 then some (compareVocabAndLocalVocab vocab data word).swap
    else some (cmp id.bits (toLex (datatype,data)))
  | vocabIndex _ => if datatype = 5 then none else some (cmp id.bits (toLex (datatype,data)))
  | _ => some (cmp id.bits (toLex (datatype,data)))

def compareWithNext (id other : ValueId Word) : Option Ordering := compareWithBits vocab id other.nextBits.1 other.nextBits.2

def isString : ValueId Word → Bool
  | vocabIndex _ => true
  | localVocabIndex _ _ => true
  | _ => false

def valueOfBits (datatype data : Nat) : IdValue Word := toLex (datatype,toLex (if datatype = 4 then 2 * data + 1 else data,⊥))

variable (id : ValueId Word)

theorem compareWithBits_eq {datatype : Nat} (data : Nat) (notLocal : datatype ≠ 5) :
    id.compareWithBits vocab datatype data = some (cmp (id.value vocab) (valueOfBits datatype data)) := by
  cases id with
  | encoded kind number =>
    have kinds := toNat_cases kind
    change some (cmp _ _) = some (cmp _ _)
    congr 1
    apply cmp_congr <;> simp only [bits,value,valueOfBits,Prod.Lex.toLex_lt_toLex] <;> split <;> simp <;> omega
  | vocabIndex index =>
    rw [compareWithBits,if_neg notLocal]
    congr 1
    apply cmp_congr <;> simp only [bits,value,valueOfBits,Prod.Lex.toLex_lt_toLex] <;> split <;> simp <;> omega
  | localVocabIndex address word =>
    rw [compareWithBits,if_neg notLocal]
    split
    next isVocab => rw [compareVocabAndLocalVocab_eq vocab data address word,cmp_swap,isVocab]; rfl
    next notVocab =>
      obtain ⟨inner,same⟩ := wordValue_rank (vocab.getPositionOfWord word) word
      congr 1
      apply cmp_congr <;> simp only [bits,value,same,valueOfBits,Prod.Lex.toLex_lt_toLex] <;> omega
  | blankNodeIndex index =>
    change some (cmp _ _) = some (cmp _ _)
    congr 1
    apply cmp_congr <;> simp only [bits,value,valueOfBits,Prod.Lex.toLex_lt_toLex] <;> split <;> simp <;> omega

theorem compareWithBits_local (data : Nat) :
    id.compareWithBits vocab 5 data = if id.isString then none else some (cmp (ofLex (id.value vocab)).1 5) := by
  cases id with
  | encoded kind number =>
    have kinds := toNat_cases kind
    simp only [compareWithBits,isString,Bool.false_eq_true,if_false]
    congr 1
    apply cmp_congr <;> simp only [bits,value,Prod.Lex.toLex_lt_toLex,ofLex_toLex] <;> omega
  | vocabIndex index | localVocabIndex address word => rfl
  | blankNodeIndex index =>
    simp only [compareWithBits,isString,Bool.false_eq_true,if_false]
    rfl

theorem isString_iff : id.isString = true ↔ (ofLex (id.value vocab)).1 = 4 := by
  cases id with
  | encoded kind number =>
    have kinds := toNat_cases kind
    simp only [isString,value,ofLex_toLex,Bool.false_eq_true,false_iff]
    omega
  | vocabIndex index | blankNodeIndex index => simp [isString,value]
  | localVocabIndex address word =>
    obtain ⟨inner,same⟩ := wordValue_rank (vocab.getPositionOfWord word) word
    simp [isString,value,same]

omit [LinearOrder Word] in
theorem nextBits_cases : id.nextBits = ((ofLex id.bits).1 + 1,0) ∧ (ofLex id.bits).2 + 1 = 2 ^ numDataBits ∨
    id.nextBits = ((ofLex id.bits).1,(ofLex id.bits).2 + 1) := by
  simp only [nextBits]
  split
  next last => exact Or.inl ⟨rfl,last⟩
  next => exact Or.inr rfl

theorem value_lt_next (notLocal : id.nextBits.1 ≠ 5) : id.value vocab < valueOfBits id.nextBits.1 id.nextBits.2 := by
  cases id with
  | encoded kind number =>
    have kinds := toNat_cases kind
    rcases nextBits_cases (encoded kind number : ValueId Word) with ⟨next,_⟩ | next <;>
      simp only [next,bits,value,valueOfBits,ofLex_toLex,Prod.Lex.toLex_lt_toLex]
    · exact Or.inl (by omega)
    · rw [if_neg (by omega)]
      exact Or.inr ⟨trivial,Or.inl (by omega)⟩
  | vocabIndex index =>
    rcases nextBits_cases (vocabIndex index : ValueId Word) with ⟨next,_⟩ | next
    · rw [next] at notLocal
      exact absurd rfl notLocal
    · simp only [next,bits,value,valueOfBits,ofLex_toLex,Prod.Lex.toLex_lt_toLex,if_true]
      exact Or.inr ⟨trivial,Or.inl (by omega)⟩
  | localVocabIndex address word =>
    obtain ⟨inner,same⟩ := wordValue_rank (vocab.getPositionOfWord word) word
    rcases nextBits_cases (localVocabIndex address word) with ⟨next,_⟩ | next
    · simp only [next,bits,value,same,valueOfBits,ofLex_toLex,Prod.Lex.toLex_lt_toLex]
      exact Or.inl (by omega)
    · rw [next] at notLocal
      exact absurd rfl notLocal
  | blankNodeIndex index =>
    rcases nextBits_cases (blankNodeIndex index : ValueId Word) with ⟨next,_⟩ | next <;>
      simp only [next,bits,value,valueOfBits,ofLex_toLex,Prod.Lex.toLex_lt_toLex]
    · exact Or.inl (by omega)
    · rw [if_neg (by omega)]
      exact Or.inr ⟨trivial,Or.inl (by omega)⟩

omit [LinearOrder Word] in
theorem isString_of_next (isLocal : id.nextBits.1 = 5) : id.isString = true := by
  cases id with
  | encoded kind number =>
    have kinds := toNat_cases kind
    rcases nextBits_cases (encoded kind number : ValueId Word) with ⟨next,_⟩ | next <;>
      simp only [next,bits,ofLex_toLex] at isLocal <;> omega
  | vocabIndex index | localVocabIndex address word => rfl
  | blankNodeIndex index =>
    rcases nextBits_cases (blankNodeIndex index : ValueId Word) with ⟨next,_⟩ | next <;>
      simp only [next,bits,ofLex_toLex] at isLocal <;> omega

theorem datatype_le {id other : ValueId Word} (le : id.value vocab ≤ other.value vocab) :
    (ofLex (id.value vocab)).1 ≤ (ofLex (other.value vocab)).1 := by
  rcases Prod.Lex.le_iff.mp le with less | ⟨same,_⟩
  · exact less.le
  · exact same.le

theorem eq_undefined_of_lt {id : ValueId Word} (isValid : id.IsValid) (less : id.value vocab < valueOfBits 0 1) : id = makeUndefined := by
  cases id with
  | encoded kind number =>
    cases kind with
    | Undefined =>
      have none : number = 0 := by simpa [IsValid] using isValid
      rw [none]
      rfl
    | _ => simp [value,valueOfBits,EncodedType.toNat,Prod.Lex.toLex_lt_toLex] at less
  | vocabIndex index | blankNodeIndex index => simp [value,valueOfBits,Prod.Lex.toLex_lt_toLex] at less
  | localVocabIndex address word =>
    obtain ⟨inner,same⟩ := wordValue_rank (vocab.getPositionOfWord word) word
    simp [value,same,valueOfBits,Prod.Lex.toLex_lt_toLex] at less

end ValueId

namespace SmallerUndefRanges
open ZipperJoin FindUndefRanges Library

def idColumns : IdColumns (ValueId Word) (IdValue Word) where
  value := ValueId.value vocab
  makeUndefined := ValueId.makeUndefined
  compareWithNext := ValueId.compareWithNext vocab

theorem value_makeUndefined : (ValueId.makeUndefined : ValueId Word).value vocab = ⊥ := rfl

theorem idColumns_lawful : Lawful (idColumns vocab) ValueId.IsValid where
  undefined := rfl
  isId := rfl
  mono := by
    intro id id' other _ _ _ le
    change searchRank (Option.map _ (id.compareWithBits vocab _ _)) ≤ searchRank (Option.map _ (id'.compareWithBits vocab _ _))
    by_cases isLocal : other.nextBits.1 = 5
    · have types := ValueId.datatype_le vocab le
      have strings := ValueId.isString_iff vocab id
      have strings' := ValueId.isString_iff vocab id'
      rw [isLocal,ValueId.compareWithBits_local,ValueId.compareWithBits_local,searchRank_le_iff]
      cases isString : id.isString <;> cases isString' : id'.isString <;> simp only [isString,isString',Bool.false_eq_true,if_false,if_true,
        Option.map_some,Option.map_none,Option.some.injEq,decide_eq_true_eq,decide_eq_false_iff_not,cmp_eq_lt_iff,reduceCtorEq,false_implies,
        true_implies,and_true,true_and,ne_eq,not_not,not_false_eq_true,false_iff,true_iff] at strings strings' ⊢ <;> omega
    · rw [ValueId.compareWithBits_eq vocab id _ isLocal,ValueId.compareWithBits_eq vocab id' _ isLocal,searchRank_le_iff]
      simp only [Option.map_some,Option.some.injEq,decide_eq_true_eq,cmp_eq_lt_iff,reduceCtorEq,false_implies,and_true]
      exact le.trans_lt
  next := by
    intro id other _ _ le
    change id.value vocab ≤ other.value vocab at le
    change id.compareWithBits vocab _ _ = _ ∨ id.compareWithBits vocab _ _ = _
    by_cases isLocal : other.nextBits.1 = 5
    · have types := ValueId.datatype_le vocab le
      rw [(ValueId.isString_iff vocab other).mp (ValueId.isString_of_next other isLocal)] at types
      rw [isLocal,ValueId.compareWithBits_local]
      split
      next => exact Or.inr rfl
      next =>
        left
        rw [(cmp_eq_lt_iff _ _).mpr (by omega)]
    · left
      rw [ValueId.compareWithBits_eq vocab id _ isLocal,(cmp_eq_lt_iff _ _).mpr (le.trans_lt (ValueId.value_lt_next vocab other isLocal))]
  nextOfUndefined := by
    intro id isValid
    have next : (ValueId.makeUndefined : ValueId Word).nextBits = (0,1) := rfl
    change Option.map _ (id.compareWithBits vocab (ValueId.makeUndefined : ValueId Word).nextBits.1 (ValueId.makeUndefined : ValueId Word).nextBits.2) = _
    rw [next,ValueId.compareWithBits_eq vocab id 1 (by decide),Option.map_some]
    congr 1
    rw [decide_eq_decide,cmp_eq_lt_iff]
    constructor
    · intro less
      rw [ValueId.eq_undefined_of_lt vocab isValid less]
      rfl
    · intro isUndef
      change id.value vocab = ⊥ at isUndef
      rw [isUndef,← value_makeUndefined]
      exact ValueId.value_lt_next vocab ValueId.makeUndefined (by rw [next]; exact Nat.zero_ne_add_one 4)

variable {vocab} {row : List (ValueId Word)} {rows : List (List (ValueId Word))}

/-- The preconditions of `findSmallerUndefRanges`: valid ids, rows of the same size, and a sorted range. -/
structure Input (vocab : Vocabulary Word) (row : List (ValueId Word)) (rows : List (List (ValueId Word))) : Prop where
  validRow : ∀ id ∈ row,id.IsValid
  validRows : ∀ other ∈ rows,other.length = row.length ∧ ∀ id ∈ other,id.IsValid
  sorted : rows.Pairwise (fun first second => (idColumns vocab).values first ≤ (idColumns vocab).values second)

theorem Input.rangeOf (input : Input vocab row rows) (start : Nat) : RangeOf (idColumns vocab) ValueId.IsValid row.length (iters start rows) where
  widths := by
    intro it member
    have isRow := List.mem_map_of_mem (f := Iter.row) member
    rw [map_row_iters] at isRow
    exact (input.validRows it.row isRow).1
  isId := by
    intro it member
    have isRow := List.mem_map_of_mem (f := Iter.row) member
    rw [map_row_iters] at isRow
    exact (input.validRows it.row isRow).2
  sorted := by
    have mapped := input.sorted
    rwa [← map_row_iters start rows,List.pairwise_map] at mapped
  nodup := nodup_iters start rows

/-- The function yields exactly the smaller, compatible rows iff no word of the local vocabulary stands between the last defined id of the row and
the next id, no word is compared with an invalid pointer, and the number of masks is not too large. -/
theorem findSmallerUndefRanges_exact_iff (input : Input vocab row rows) (start : Nat) :
    Exact (idColumns vocab) row (iters start rows) (findSmallerUndefRanges (idColumns vocab) row (iters start rows)) ↔
      Searchable (idColumns vocab) row (iters start rows) :=
  exact_iff_searchable (idColumns_lawful vocab) (input.rangeOf start) input.validRow

def twoWords : Vocabulary Nat := ⟨[10,20],by decide⟩

def rowOfTwoIds : List (ValueId Nat) := [.vocabIndex 0,.vocabIndex 0,.makeUndefined]

/-- The word 15 of the local vocabulary stands between the two words. -/
theorem findSmallerUndefRanges_wordBetween : Input twoWords rowOfTwoIds [[.makeUndefined,.localVocabIndex 7 15,.vocabIndex 1]] ∧
    ¬ Exact (idColumns twoWords) rowOfTwoIds (iters 0 [[.makeUndefined,.localVocabIndex 7 15,.vocabIndex 1]])
      (findSmallerUndefRanges (idColumns twoWords) rowOfTwoIds (iters 0 [[.makeUndefined,.localVocabIndex 7 15,.vocabIndex 1]])) := by
  have input : Input twoWords rowOfTwoIds [[.makeUndefined,.localVocabIndex 7 15,.vocabIndex 1]] :=
    ⟨by decide,by decide,List.pairwise_singleton _ _⟩
  refine ⟨input,?_⟩
  rw [exact_iff_searchable (idColumns_lawful twoWords) (input.rangeOf 0) input.validRow]
  intro searchable
  have count : numDefinedColumns (idColumns twoWords) rowOfTwoIds = 2 := by decide
  rw [Searchable,count] at searchable
  have separated := (searchable (by decide)).2
  have partly : PartlyUndef ((idColumns twoWords).values rowOfTwoIds)
      ((idColumns twoWords).values [.makeUndefined,.localVocabIndex 7 15,.vocabIndex 1]) 1 := by
    refine ⟨?_,0,by decide,rfl⟩
    intro j below
    rw [Nat.lt_one_iff.mp below]
    exact Or.inl rfl
  obtain ⟨order,isOrder,atMost⟩ := separated ⟨[.makeUndefined,.localVocabIndex 7 15,.vocabIndex 1],0⟩ (List.mem_singleton.mpr rfl) partly
  have isLess : order = .lt := Option.some.inj (isOrder.symm.trans (by decide))
  exact absurd (atMost isLess) (by decide)

theorem findSmallerUndefRanges_exact_iff_sameWord : Input twoWords rowOfTwoIds [[.makeUndefined,.vocabIndex 0,.vocabIndex 1]] ∧
    Exact (idColumns twoWords) rowOfTwoIds (iters 0 [[.makeUndefined,.vocabIndex 0,.vocabIndex 1]])
      (findSmallerUndefRanges (idColumns twoWords) rowOfTwoIds (iters 0 [[.makeUndefined,.vocabIndex 0,.vocabIndex 1]])) := by
  have input : Input twoWords rowOfTwoIds [[.makeUndefined,.vocabIndex 0,.vocabIndex 1]] :=
    ⟨by decide,by decide,List.pairwise_singleton _ _⟩
  refine ⟨input,(findSmallerUndefRanges_exact_iff input 0).mpr ?_⟩
  have count : numDefinedColumns (idColumns twoWords) rowOfTwoIds = 2 := by decide
  rw [Searchable,count]
  intro _
  refine ⟨by decide,?_⟩
  intro it member _
  rw [List.mem_singleton.mp member]
  exact ⟨.lt,by decide,fun _ => by decide⟩

end SmallerUndefRanges
end Qlever
