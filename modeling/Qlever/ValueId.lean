import Mathlib

/-! The IDs of `ValueId.h`. An ID of type `LocalVocabIndex` is a pointer to a word, and it is equal
to the ID of type `VocabIndex` of the same word. So the order of IDs is the order of their values.
-/
namespace Qlever

inductive EncodedType
  | Undefined
  | Bool
  | Int
  | Double
  | TextRecordIndex
  | Date
  | GeoPoint
  | WordVocabIndex
  deriving DecidableEq, Repr

/-- The position of the type in `Datatype`. -/
def EncodedType.toNat : EncodedType → Nat
  | Undefined => 0
  | Bool => 1
  | Int => 2
  | Double => 3
  | TextRecordIndex => 6
  | Date => 7
  | GeoPoint => 8
  | WordVocabIndex => 9

inductive ValueId (Word : Type)
  | encoded (datatype : EncodedType) (data : Nat)
  | vocabIndex (index : Nat)
  | localVocabIndex (address : Nat) (word : Word)
  | blankNodeIndex (index : Nat)
  deriving DecidableEq, Repr

structure Vocabulary (Word : Type) [LinearOrder Word] where
  words : List Word
  sorted : words.Pairwise (· < ·)

theorem Vocabulary.sorted_nil {Word : Type} [LinearOrder Word] : ([] : List Word).Pairwise (· < ·) := List.Pairwise.nil

abbrev IdValue (Word : Type) := Nat ×ₗ Nat ×ₗ WithBot Word

variable {Word : Type} [LinearOrder Word] (vocab : Vocabulary Word)

/-- `positionInVocab`: the range of the word in the vocabulary, which may be empty. -/
def Vocabulary.getPositionOfWord (word : Word) : Nat × Nat :=
  ((vocab.words.takeWhile (fun other => other < word)).length,(vocab.words.takeWhile (fun other => other ≤ word)).length)

namespace ValueId

omit [LinearOrder Word] in
def bits : ValueId Word → Nat ×ₗ Nat
  | encoded datatype data => toLex (datatype.toNat,data)
  | vocabIndex index => toLex (4,index)
  | localVocabIndex address _ => toLex (5,address)
  | blankNodeIndex index => toLex (10,index)

def compareVocabAndLocalVocab (index : Nat) (word : Word) : Ordering :=
  let position := vocab.getPositionOfWord word
  if index < position.1 then .lt else if index ≥ position.2 then .gt else .eq

/-- The operator `<=>`. -/
def compare : ValueId Word → ValueId Word → Ordering
  | localVocabIndex _ word,localVocabIndex _ other => cmp word other
  | vocabIndex index,localVocabIndex _ word => compareVocabAndLocalVocab vocab index word
  | localVocabIndex _ word,vocabIndex index => (compareVocabAndLocalVocab vocab index word).swap
  | first,second => cmp first.bits second.bits

def wordValue (position : Nat × Nat) (word : Word) : IdValue Word :=
  if position.1 = position.2 then toLex (4,toLex (2 * position.1,word)) else toLex (4,toLex (2 * position.1 + 1,⊥))

def value : ValueId Word → IdValue Word
  | encoded datatype data => toLex (datatype.toNat,toLex (data,⊥))
  | vocabIndex index => toLex (4,toLex (2 * index + 1,⊥))
  | localVocabIndex _ word => wordValue (vocab.getPositionOfWord word) word
  | blankNodeIndex index => toLex (10,toLex (index,⊥))

end ValueId

section Position

variable {words : List Word}

theorem position_cases (sorted : words.Pairwise (· < ·)) (word : Word) :
    (words.takeWhile (fun other => other ≤ word)).length = (words.takeWhile (fun other => other < word)).length ∨
      (words.takeWhile (fun other => other ≤ word)).length = (words.takeWhile (fun other => other < word)).length + 1 := by
  induction words with
  | nil => simp
  | cons first words ih =>
    obtain ⟨above,tail⟩ := List.pairwise_cons.mp sorted
    rcases lt_trichotomy first word with less | rfl | greater
    · simpa [less,less.le] using ih tail
    · have none : words.takeWhile (fun other => other ≤ first) = [] := by
        cases words with
        | nil => rfl
        | cons second words =>
          have larger := above second List.mem_cons_self
          simp [larger]
      simp [none]
    · simp [greater.not_ge,greater.not_gt]

omit [LinearOrder Word] in
theorem takeWhile_length_mono {p q : Word → Bool} (imp : ∀ word,p word = true → q word = true) :
    (words.takeWhile p).length ≤ (words.takeWhile q).length := by
  induction words with
  | nil => simp
  | cons first words ih =>
    cases passes : p first with
    | false => simp [passes]
    | true => simpa [passes,imp first passes] using ih

theorem upper_le_lower {word other : Word} (less : word < other) :
    (vocab.getPositionOfWord word).2 ≤ (vocab.getPositionOfWord other).1 := by
  apply takeWhile_length_mono
  intro entry atMost
  simp only [decide_eq_true_eq] at atMost ⊢
  exact atMost.trans_lt less

end Position

namespace ValueId

theorem cmp_congr {α β : Type} [LinearOrder α] [LinearOrder β] {a b : α} {c d : β} (less : a < b ↔ c < d) (greater : b < a ↔ d < c) :
    cmp a b = cmp c d := by
  simp [cmp,cmpUsing,less,greater]

theorem wordValue_lt {position position' : Nat × Nat} {word other : Word} (range : position.1 ≤ position.2)
    (less : word < other) (before : position.2 ≤ position'.1) : wordValue position word < wordValue position' other := by
  have inner : ∀ {x y : Nat ×ₗ WithBot Word},x < y → toLex ((4 : Nat),x) < toLex ((4 : Nat),y) := by
    intro x y smaller
    exact Prod.Lex.toLex_lt_toLex.mpr (Or.inr ⟨rfl,smaller⟩)
  unfold wordValue
  split <;> split <;> apply inner <;> rw [Prod.Lex.toLex_lt_toLex]
  · rcases (range.trans before).lt_or_eq with smaller | same
    · exact Or.inl (by omega)
    · exact Or.inr ⟨by rw [same],WithBot.coe_lt_coe.mpr less⟩
  all_goals exact Or.inl (by omega)

theorem position_le (word : Word) : (vocab.getPositionOfWord word).1 ≤ (vocab.getPositionOfWord word).2 := by
  apply takeWhile_length_mono
  intro entry less
  simp only [decide_eq_true_eq] at less ⊢
  exact less.le

theorem value_local_lt {word other : Word} (address address' : Nat) (less : word < other) :
    (localVocabIndex address word).value vocab < (localVocabIndex address' other).value vocab :=
  wordValue_lt (position_le vocab word) less (upper_le_lower vocab less)

theorem cmp_wordValue {position : Nat × Nat} (index : Nat) (word : Word)
    (cases : position.2 = position.1 ∨ position.2 = position.1 + 1) :
    (if index < position.1 then Ordering.lt else if index ≥ position.2 then .gt else .eq) =
      cmp (toLex (4,toLex (2 * index + 1,⊥))) (wordValue position word) := by
  symm
  unfold wordValue
  by_cases less : index < position.1
  · rw [if_pos less,cmp_eq_lt_iff]
    split <;> rw [Prod.Lex.toLex_lt_toLex,Prod.Lex.toLex_lt_toLex]
    all_goals exact Or.inr ⟨rfl,Or.inl (by omega)⟩
  · rw [if_neg less]
    by_cases greater : index ≥ position.2
    · rw [if_pos greater,cmp_eq_gt_iff]
      split <;> rw [Prod.Lex.toLex_lt_toLex,Prod.Lex.toLex_lt_toLex]
      all_goals exact Or.inr ⟨rfl,Or.inl (by omega)⟩
    · rw [if_neg greater,cmp_eq_eq_iff,if_neg (by omega),show index = position.1 by omega]

theorem compareVocabAndLocalVocab_eq (index address : Nat) (word : Word) :
    compareVocabAndLocalVocab vocab index word = cmp ((vocabIndex index).value vocab) ((localVocabIndex address word).value vocab) :=
  cmp_wordValue index word (position_cases vocab.sorted word)

theorem toNat_cases (datatype : EncodedType) : datatype.toNat < 4 ∨ 5 < datatype.toNat ∧ datatype.toNat < 10 := by
  cases datatype <;> simp [EncodedType.toNat]

omit [LinearOrder Word] in
theorem wordValue_rank (position : Nat × Nat) (word : Word) : ∃ inner,wordValue position word = toLex (4,inner) := by
  unfold wordValue
  split
  · exact ⟨_,rfl⟩
  · exact ⟨_,rfl⟩

def ComparedByBits : ValueId Word → ValueId Word → Prop
  | localVocabIndex _ _,localVocabIndex _ _ => False
  | vocabIndex _,localVocabIndex _ _ => False
  | localVocabIndex _ _,vocabIndex _ => False
  | _,_ => True

theorem bits_lt_iff {first second : ValueId Word} (compared : ComparedByBits first second) :
    first.bits < second.bits ↔ first.value vocab < second.value vocab := by
  cases first with
  | encoded datatype data =>
    have rank := toNat_cases datatype
    cases second with
    | localVocabIndex _ word =>
      obtain ⟨inner,same⟩ := wordValue_rank (vocab.getPositionOfWord word) word
      simp only [bits,value,same,Prod.Lex.toLex_lt_toLex]
      omega
    | vocabIndex _ =>
      simp only [bits,value,Prod.Lex.toLex_lt_toLex]
      omega
    | _ => simp [bits,value,Prod.Lex.toLex_lt_toLex]
  | vocabIndex index =>
    cases second with
    | encoded datatype data =>
      have rank := toNat_cases datatype
      simp only [bits,value,Prod.Lex.toLex_lt_toLex]
      omega
    | localVocabIndex _ _ => exact compared.elim
    | _ => simp [bits,value,Prod.Lex.toLex_lt_toLex]
  | localVocabIndex _ word =>
    obtain ⟨inner,same⟩ := wordValue_rank (vocab.getPositionOfWord word) word
    cases second with
    | encoded datatype data =>
      have rank := toNat_cases datatype
      simp only [bits,value,same,Prod.Lex.toLex_lt_toLex]
      omega
    | vocabIndex _ | localVocabIndex _ _ => exact compared.elim
    | blankNodeIndex _ =>
      simp only [bits,value,same,Prod.Lex.toLex_lt_toLex]
      omega
  | blankNodeIndex index =>
    cases second with
    | localVocabIndex _ word =>
      obtain ⟨inner,same⟩ := wordValue_rank (vocab.getPositionOfWord word) word
      simp only [bits,value,same,Prod.Lex.toLex_lt_toLex]
      omega
    | _ => simp [bits,value,Prod.Lex.toLex_lt_toLex]

theorem cmp_bits {first second : ValueId Word} (compared : ComparedByBits first second) (swapped : ComparedByBits second first) :
    cmp first.bits second.bits = cmp (first.value vocab) (second.value vocab) :=
  cmp_congr (bits_lt_iff vocab compared) (bits_lt_iff vocab swapped)

theorem compare_eq (first second : ValueId Word) : first.compare vocab second = cmp (first.value vocab) (second.value vocab) := by
  cases first with
  | localVocabIndex address word =>
    cases second with
    | localVocabIndex address' other =>
      rcases lt_trichotomy word other with less | rfl | greater
      · rw [compare,cmp_eq_lt_iff _ _ |>.mpr less,cmp_eq_lt_iff _ _ |>.mpr (value_local_lt vocab address address' less)]
      · rw [compare,cmp_self_eq_eq,value,value,cmp_self_eq_eq]
      · rw [compare,cmp_eq_gt_iff _ _ |>.mpr greater,cmp_eq_gt_iff _ _ |>.mpr (value_local_lt vocab address' address greater)]
    | vocabIndex index => rw [compare,compareVocabAndLocalVocab_eq vocab index address word,cmp_swap]
    | encoded _ _ | blankNodeIndex _ => exact cmp_bits vocab trivial trivial
  | vocabIndex index =>
    cases second with
    | localVocabIndex address word => exact compareVocabAndLocalVocab_eq vocab index address word
    | _ => exact cmp_bits vocab trivial trivial
  | encoded _ _ | blankNodeIndex _ => cases second <;> exact cmp_bits vocab trivial trivial

end ValueId
end Qlever
