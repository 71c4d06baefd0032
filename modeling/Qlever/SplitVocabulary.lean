import Qlever.ValueId

/-! The order of the IDs for an index whose vocabulary may be split. Two words of the vocabulary, and a word of the
vocabulary and a local one, are compared by their positions, but two local words are compared as strings.
-/
namespace Qlever

section Comparator
variable {Key : Type} [LinearOrder Key]

/-- The collation of the locale on the level `TOTAL`. Two strings are compared by their sort keys. -/
structure LocaleManager (Key : Type) where
  getSortKey : List Char → Key

def numBackslash (before : List Char) : Nat := (before.reverse.takeWhile (· = '\\')).length

/-- The loop of `findLiteralEnd` from some position on, with the last position where the end was found without a
backslash before it. -/
def findLiteralEndFrom (before : List Char) (lastFoundPos : Option Nat) : List Char → Option Nat
  | [] => lastFoundPos
  | c::rest =>
    if c ≠ '"' then findLiteralEndFrom (before ++ [c]) lastFoundPos rest
    else if numBackslash before = 0 then findLiteralEndFrom (before ++ [c]) (some before.length) rest
    else if numBackslash before % 2 = 0 then lastFoundPos.orElse (fun _ => some before.length)
    else findLiteralEndFrom (before ++ [c]) lastFoundPos rest

def findLiteralEnd (input : List Char) : Option Nat := findLiteralEndFrom [] none input

structure SplitVal where
  firstOriginalChar : Char
  transformedVal : List Char
  langtag : List Char
  fullInput : List Char

def extractComparable (a : List Char) : SplitVal :=
  match a with
  | '"'::res =>
    match findLiteralEnd res with
    | some endPos => ⟨'"',res.take endPos,res.drop (endPos + 1),a⟩
    | none => ⟨'"',res,[],a⟩
  | _ => ⟨a.headD (Char.ofNat 0),a,[],a⟩

def TripleComponentComparator.compare (locManager : LocaleManager Key) (a b : List Char) : Ordering :=
  let splitA := extractComparable a
  let splitB := extractComparable b
  (cmp splitA.firstOriginalChar splitB.firstOriginalChar).then
    ((cmp (locManager.getSortKey splitA.transformedVal) (locManager.getSortKey splitB.transformedVal)).then
      ((cmp splitA.fullInput splitB.fullInput).then (cmp splitA.langtag splitB.langtag)))

def comparedBy (locManager : LocaleManager Key) (a : List Char) : Char ×ₗ Key ×ₗ List Char :=
  toLex ((extractComparable a).firstOriginalChar,toLex (locManager.getSortKey (extractComparable a).transformedVal,a))

theorem fullInput_eq (a : List Char) : (extractComparable a).fullInput = a := by
  unfold extractComparable
  split
  · split <;> rfl
  · rfl

omit [LinearOrder Key] in
theorem comparedBy_injective (locManager : LocaleManager Key) : Function.Injective (comparedBy locManager) := by
  intro a b same
  have parts := Prod.ext_iff.mp (toLex.injective same)
  exact (Prod.ext_iff.mp (toLex.injective parts.2)).2

structure LiteralOrIri (locManager : LocaleManager Key) where
  toStringRepresentation : List Char
  deriving DecidableEq

instance (locManager : LocaleManager Key) : LinearOrder (LiteralOrIri locManager) :=
  LinearOrder.lift' (fun word => comparedBy locManager word.toStringRepresentation) (by
    intro a b same
    obtain ⟨a⟩ := a
    obtain ⟨b⟩ := b
    rw [LiteralOrIri.mk.injEq]
    exact comparedBy_injective locManager same)

theorem cmp_lex {α β : Type} [LinearOrder α] [LinearOrder β] (a c : α) (b d : β) :
    cmp (toLex (a,b)) (toLex (c,d)) = (cmp a c).then (cmp b d) := by
  rcases lt_trichotomy a c with less | rfl | greater
  · rw [cmp_eq_lt_iff _ _ |>.mpr less,Ordering.lt_then,cmp_eq_lt_iff]
    exact Prod.Lex.toLex_lt_toLex.mpr (Or.inl less)
  · rw [cmp_self_eq_eq,Ordering.eq_then]
    apply ValueId.cmp_congr
    · simp [Prod.Lex.toLex_lt_toLex]
    · simp [Prod.Lex.toLex_lt_toLex]
  · rw [cmp_eq_gt_iff _ _ |>.mpr greater,Ordering.gt_then,cmp_eq_gt_iff]
    exact Prod.Lex.toLex_lt_toLex.mpr (Or.inl greater)

theorem LiteralOrIri.cmp_eq {locManager : LocaleManager Key} (a b : LiteralOrIri locManager) :
    cmp a b = TripleComponentComparator.compare locManager a.toStringRepresentation b.toStringRepresentation := by
  have lifted : cmp a b = cmp (comparedBy locManager a.toStringRepresentation) (comparedBy locManager b.toStringRepresentation) :=
    ValueId.cmp_congr Iff.rfl Iff.rfl
  rw [lifted,comparedBy,comparedBy,cmp_lex,cmp_lex,TripleComponentComparator.compare]
  simp only [fullInput_eq]
  -- The language tags are compared only if the words are equal.
  have langtags : (cmp a.toStringRepresentation b.toStringRepresentation).then
      (cmp (extractComparable a.toStringRepresentation).langtag (extractComparable b.toStringRepresentation).langtag) =
      cmp a.toStringRepresentation b.toStringRepresentation := by
    rcases lt_trichotomy a.toStringRepresentation b.toStringRepresentation with less | same | greater
    · simp [cmp,cmpUsing,less]
    · simp [cmp,cmpUsing,same]
    · simp [cmp,cmpUsing,greater,greater.not_gt]
  rw [langtags]
  congr

end Comparator

section Vocabularies
variable {Word : Type} [LinearOrder Word]

def Vocabulary.lowerBound (vocab : Vocabulary Word) (word : Word) : Option (Word × Nat) :=
  let index := (vocab.words.takeWhile (fun other => other < word)).length
  vocab.words[index]?.map (fun found => (found,index))

def positionOfWord (lower : Option (Word × Nat)) (word : Word) : Option (Nat × Nat) :=
  lower.map (fun (found,index) => (index,if found = word then index + 1 else index))

def numDataBits : Nat := 60

/-- Words are written to one of several vocabularies, and the marker of the vocabulary is stored in the upper bits of
the index. -/
structure SplitVocabulary (Word : Type) [LinearOrder Word] where
  underlying : List (Vocabulary Word)
  splitFunction : Word → Nat
  marker_lt : ∀ word,splitFunction word < underlying.length
  written : ∀ marker vocab,underlying[marker]? = some vocab → ∀ word ∈ vocab.words,splitFunction word = marker
  fits : ∀ vocab ∈ underlying,vocab.words.length < 2 ^ (numDataBits - Nat.size (underlying.length - 1))

namespace SplitVocabulary
variable (vocab : SplitVocabulary Word)

def markerShift : Nat := numDataBits - Nat.size (vocab.underlying.length - 1)

def addMarker (vocabIndex marker : Nat) : Nat := vocabIndex ||| marker <<< vocab.markerShift

def getMarker (indexWithMarker : Nat) : Nat := (indexWithMarker % 2 ^ numDataBits) >>> vocab.markerShift

def getVocabIndex (indexWithMarker : Nat) : Nat := indexWithMarker % 2 ^ vocab.markerShift

def wordAt (index : Nat) : Option Word := do
  let underlying ← vocab.underlying[vocab.getMarker index]?
  underlying.words[vocab.getVocabIndex index]?

def getPositionOfWord (word : Word) : Nat × Nat :=
  let marker := vocab.splitFunction word
  match vocab.underlying[marker]? with
  | none => (0,0)
  | some underlying =>
    match positionOfWord ((underlying.lowerBound word).map (fun (found,index) => (found,vocab.addMarker index marker))) word with
    | some position => position
    | none => (vocab.addMarker underlying.words.length marker,vocab.addMarker underlying.words.length marker)

end SplitVocabulary

inductive IndexVocabulary (Word : Type) [LinearOrder Word]
  | plain (vocab : Vocabulary Word)
  | split (vocab : SplitVocabulary Word)

namespace IndexVocabulary

def wordAt : IndexVocabulary Word → Nat → Option Word
  | plain vocab,index => vocab.words[index]?
  | split vocab,index => vocab.wordAt index

/-- `positionInVocab` of a local word. -/
def getPositionOfWord : IndexVocabulary Word → Word → Nat × Nat
  | plain vocab,word => (positionOfWord (vocab.lowerBound word) word).getD (vocab.words.length,vocab.words.length)
  | split vocab,word => vocab.getPositionOfWord word

def marker : IndexVocabulary Word → Word → Nat
  | plain _,_ => 0
  | split vocab,word => vocab.splitFunction word

def key (vocab : IndexVocabulary Word) (word : Word) : Nat ×ₗ Word := toLex (vocab.marker word,word)

end IndexVocabulary

theorem lt_takeWhile_iff {words : List Word} (sorted : words.Pairwise (· < ·)) {p : Word → Bool} (closed : ∀ a b,a < b → p b = true → p a = true)
    {index : Nat} {found : Word} (isWord : words[index]? = some found) : index < (words.takeWhile p).length ↔ p found = true := by
  induction words generalizing index with
  | nil => cases isWord
  | cons first words ih =>
    obtain ⟨above,tail⟩ := List.pairwise_cons.mp sorted
    cases holds : p first with
    | true =>
      cases index with
      | zero =>
        cases isWord
        simp [holds]
      | succ index => simpa [holds] using ih tail isWord
    | false =>
      rw [List.takeWhile_cons_of_neg (by simp [holds])]
      cases index with
      | zero =>
        cases isWord
        simp [holds]
      | succ index =>
        have greater := above found (List.mem_of_getElem? isWord)
        have notFound : p found ≠ true := fun isFound => by simpa [holds] using closed first found greater isFound
        simp [notFound]

namespace Vocabulary
variable (vocab : Vocabulary Word) {index : Nat} {found : Word}

theorem lt_lower_iff (isWord : vocab.words[index]? = some found) (word : Word) : index < (vocab.getPositionOfWord word).1 ↔ found < word := by
  rw [getPositionOfWord,lt_takeWhile_iff vocab.sorted _ isWord]
  · simp
  · intro a b less before
    simp only [decide_eq_true_eq] at before ⊢
    exact less.trans before

theorem lt_upper_iff (isWord : vocab.words[index]? = some found) (word : Word) : index < (vocab.getPositionOfWord word).2 ↔ found ≤ word := by
  rw [getPositionOfWord,lt_takeWhile_iff vocab.sorted _ isWord]
  · simp
  · intro a b less before
    simp only [decide_eq_true_eq] at before ⊢
    exact less.le.trans before

theorem upper_le_length (word : Word) : (vocab.getPositionOfWord word).2 ≤ vocab.words.length := (List.takeWhile_sublist _).length_le

theorem positionOfWord_lowerBound (word : Word) :
    (positionOfWord (vocab.lowerBound word) word).getD (vocab.words.length,vocab.words.length) = vocab.getPositionOfWord word := by
  have range := position_cases vocab.sorted word
  have inside := vocab.upper_le_length word
  change (vocab.getPositionOfWord word).2 = (vocab.getPositionOfWord word).1 ∨
    (vocab.getPositionOfWord word).2 = (vocab.getPositionOfWord word).1 + 1 at range
  change (positionOfWord (vocab.words[(vocab.getPositionOfWord word).1]?.map (fun found => (found,(vocab.getPositionOfWord word).1))) word).getD _ = _
  cases isFound : vocab.words[(vocab.getPositionOfWord word).1]? with
  | none =>
    have isEnd := List.getElem?_eq_none_iff.mp isFound
    refine Prod.ext ?_ ?_
    all_goals
      change vocab.words.length = _
      omega
  | some found =>
    have isLower := vocab.lt_lower_iff isFound word
    have isUpper := vocab.lt_upper_iff isFound word
    refine Prod.ext rfl ?_
    change (if found = word then _ else _) = _
    split
    next same =>
      have contained := isUpper.mpr same.le
      omega
    next different =>
      have notContained := isUpper.not.mpr (fun atMost => lt_irrefl _ (isLower.mpr (lt_of_le_of_ne atMost different)))
      omega

end Vocabulary

namespace SplitVocabulary
variable (vocab : SplitVocabulary Word) {index : Nat} {found : Word}

theorem addMarker_eq {vocabIndex : Nat} (small : vocabIndex < 2 ^ vocab.markerShift) (marker : Nat) :
    vocab.addMarker vocabIndex marker = marker * 2 ^ vocab.markerShift + vocabIndex := by
  rw [addMarker,Nat.or_comm,Nat.shiftLeft_eq,Nat.mul_comm,Nat.two_pow_add_eq_or_of_lt small]

theorem getPositionOfWord_eq (word : Word) : ∃ part ∈ vocab.underlying,vocab.underlying[vocab.splitFunction word]? = some part ∧
    vocab.getPositionOfWord word = (vocab.splitFunction word * 2 ^ vocab.markerShift + (part.getPositionOfWord word).1,
      vocab.splitFunction word * 2 ^ vocab.markerShift + (part.getPositionOfWord word).2) := by
  have isPart : vocab.underlying[vocab.splitFunction word]? = some (vocab.underlying.get ⟨_,vocab.marker_lt word⟩) :=
    List.getElem?_eq_getElem (vocab.marker_lt word)
  generalize vocab.underlying.get ⟨_,vocab.marker_lt word⟩ = part at isPart
  have member := List.mem_of_getElem? isPart
  refine ⟨part,member,isPart,?_⟩
  have fits := vocab.fits part member
  change part.words.length < 2 ^ vocab.markerShift at fits
  have position := part.positionOfWord_lowerBound word
  simp only [getPositionOfWord,isPart]
  cases isLower : part.lowerBound word with
  | none =>
    rw [isLower] at position
    rw [← position]
    simp only [Option.map_none,positionOfWord,Option.getD_none,vocab.addMarker_eq fits]
  | some entry =>
    obtain ⟨first,lower⟩ := entry
    rw [isLower] at position
    rw [← position]
    have small : lower < 2 ^ vocab.markerShift := by
      obtain ⟨_,isFirst,same⟩ := Option.map_eq_some_iff.mp isLower
      cases same
      exact (List.getElem?_eq_some_iff.mp isFirst).1.trans fits
    simp only [Option.map_some,positionOfWord,Option.getD_some,vocab.addMarker_eq small]
    split <;> rfl

theorem wordAt_eq (isIndex : index < 2 ^ numDataBits) (isWord : vocab.wordAt index = some found) :
    ∃ part inner,vocab.underlying[vocab.splitFunction found]? = some part ∧ part.words[inner]? = some found ∧ inner < 2 ^ vocab.markerShift ∧
      index = vocab.splitFunction found * 2 ^ vocab.markerShift + inner := by
  rw [wordAt,Option.bind_eq_bind,Option.bind_eq_some_iff] at isWord
  obtain ⟨part,isPart,isWord⟩ := isWord
  have isMarker := vocab.written _ part isPart found (List.mem_of_getElem? isWord)
  refine ⟨part,vocab.getVocabIndex index,by rw [isMarker]; exact isPart,isWord,Nat.mod_lt _ (Nat.two_pow_pos _),?_⟩
  rw [isMarker,getMarker,getVocabIndex,Nat.mod_eq_of_lt isIndex,Nat.shiftRight_eq_div_pow]
  exact (Nat.div_add_mod' index _).symm

end SplitVocabulary

namespace IndexVocabulary
variable (vocab : IndexVocabulary Word) {index index' : Nat} {found found' : Word}

theorem position_iff (isIndex : index < 2 ^ numDataBits) (isWord : vocab.wordAt index = some found) (word : Word) :
    (index < (vocab.getPositionOfWord word).1 ↔ vocab.key found < vocab.key word) ∧
      ((vocab.getPositionOfWord word).2 ≤ index ↔ vocab.key word < vocab.key found) := by
  simp only [key,Prod.Lex.toLex_lt_toLex]
  cases vocab with
  | plain vocab =>
    simp only [getPositionOfWord,vocab.positionOfWord_lowerBound word,marker,lt_irrefl,false_or,true_and]
    refine ⟨vocab.lt_lower_iff isWord word,?_⟩
    rw [← Nat.not_lt,vocab.lt_upper_iff isWord word,not_le]
  | split vocab =>
    obtain ⟨part,inner,isPart,isInner,small,rfl⟩ := vocab.wordAt_eq isIndex isWord
    obtain ⟨other,isMember,isOther,isPosition⟩ := vocab.getPositionOfWord_eq word
    have fits := (other.upper_le_length word).trans_lt (vocab.fits other isMember)
    change (other.getPositionOfWord word).2 < 2 ^ vocab.markerShift at fits
    have range := ValueId.position_le other word
    simp only [getPositionOfWord,isPosition,marker]
    rcases lt_trichotomy (vocab.splitFunction found) (vocab.splitFunction word) with less | same | greater
    · have next := Nat.mul_le_mul_right (2 ^ vocab.markerShift) (Nat.succ_le_of_lt less)
      rw [Nat.succ_mul] at next
      constructor
      · exact iff_of_true (by omega) (Or.inl less)
      · exact iff_of_false (by omega) (by omega)
    · rw [same] at isPart
      rw [isPart] at isOther
      cases isOther
      have isLower := part.lt_lower_iff isInner word
      have isUpper := part.lt_upper_iff isInner word
      rw [same]
      simp only [lt_irrefl,false_or,true_and,← isLower,← not_le,← isUpper]
      omega
    · have next := Nat.mul_le_mul_right (2 ^ vocab.markerShift) (Nat.succ_le_of_lt greater)
      rw [Nat.succ_mul] at next
      constructor
      · exact iff_of_false (by omega) (by omega)
      · exact iff_of_true (by omega) (Or.inl greater)

theorem position_range (word : Word) : (vocab.getPositionOfWord word).2 = (vocab.getPositionOfWord word).1 ∨
    (vocab.getPositionOfWord word).2 = (vocab.getPositionOfWord word).1 + 1 := by
  cases vocab with
  | plain vocab =>
    rw [getPositionOfWord,vocab.positionOfWord_lowerBound word]
    exact position_cases vocab.sorted word
  | split vocab =>
    obtain ⟨part,_,_,isPosition⟩ := vocab.getPositionOfWord_eq word
    have range := position_cases part.sorted word
    change (part.getPositionOfWord word).2 = (part.getPositionOfWord word).1 ∨
      (part.getPositionOfWord word).2 = (part.getPositionOfWord word).1 + 1 at range
    simp only [getPositionOfWord,isPosition]
    omega

theorem position_of_wordAt (isIndex : index < 2 ^ numDataBits) (isWord : vocab.wordAt index = some found) :
    vocab.getPositionOfWord found = (index,index + 1) := by
  obtain ⟨isLower,isUpper⟩ := vocab.position_iff isIndex isWord found
  have notLower := isLower.not.mpr (lt_irrefl _)
  have notUpper := isUpper.not.mpr (lt_irrefl _)
  have range := vocab.position_range found
  refine Prod.ext ?_ ?_
  · change (vocab.getPositionOfWord found).1 = index
    omega
  · change (vocab.getPositionOfWord found).2 = index + 1
    omega

theorem index_lt_iff (isIndex : index < 2 ^ numDataBits) (isWord : vocab.wordAt index = some found) (isIndex' : index' < 2 ^ numDataBits)
    (isWord' : vocab.wordAt index' = some found') : index < index' ↔ vocab.key found < vocab.key found' := by
  rw [← (vocab.position_iff isIndex isWord found').1,vocab.position_of_wordAt isIndex' isWord']

end IndexVocabulary
end Vocabularies

namespace ValueId
variable {Word : Type} [LinearOrder Word] (vocab : IndexVocabulary Word) {a b c : ValueId Word}

def compareWithPosition (index : Nat) (word : Word) : Ordering :=
  let position := vocab.getPositionOfWord word
  if index < position.1 then .lt else if index ≥ position.2 then .gt else .eq

/-- The operator `<=>` for any vocabulary. -/
def compareThreeWay : ValueId Word → ValueId Word → Ordering
  | localVocabIndex _ word,localVocabIndex _ other => cmp word other
  | vocabIndex index,localVocabIndex _ word => compareWithPosition vocab index word
  | localVocabIndex _ word,vocabIndex index => (compareWithPosition vocab index word).swap
  | first,second => cmp first.bits second.bits

/-- The values of which `AbslHashValue` computes the hash. -/
inductive HashExpansion (Word : Type)
  | bits (bits : Nat ×ₗ Nat)
  | word (word : Word)

def hashExpansion : ValueId Word → HashExpansion Word
  | localVocabIndex _ word =>
    let position := vocab.getPositionOfWord word
    if position.2 ≠ position.1 then .bits (vocabIndex position.1 : ValueId Word).bits else .word word
  | id => .bits id.bits

def IsId : ValueId Word → Prop
  | vocabIndex index => index < 2 ^ numDataBits ∧ ∃ word,vocab.wordAt index = some word
  | _ => True

inductive IsText : ValueId Word → Bool → Word → Prop
  | vocab (index : Nat) (word : Word) (isIndex : index < 2 ^ numDataBits) (isWord : vocab.wordAt index = some word) :
    IsText (vocabIndex index) false word
  | isLocal (address : Nat) (word : Word) : IsText (localVocabIndex address word) true word

theorem IsText.isId {isLocal : Bool} {word : Word} (isText : IsText vocab a isLocal word) : IsId vocab a := by
  cases isText with
  | vocab index word isIndex isWord => exact ⟨isIndex,word,isWord⟩
  | isLocal => trivial

def group : ValueId Word → Nat ×ₗ Nat
  | vocabIndex _ => toLex (4,0)
  | localVocabIndex _ _ => toLex (4,0)
  | id => id.bits

def IsEncoded : ValueId Word → Prop
  | vocabIndex _ => False
  | localVocabIndex _ _ => False
  | _ => True

theorem text_or_encoded (isId : IsId vocab a) : (∃ isLocal word,IsText vocab a isLocal word) ∨ a.IsEncoded := by
  cases a with
  | vocabIndex index =>
    obtain ⟨isIndex,word,isWord⟩ := isId
    exact Or.inl ⟨false,word,.vocab index word isIndex isWord⟩
  | localVocabIndex address word => exact Or.inl ⟨true,word,.isLocal address word⟩
  | encoded _ _ | blankNodeIndex _ => exact Or.inr trivial

theorem group_text {isLocal : Bool} {word : Word} (isText : IsText vocab a isLocal word) : a.group = toLex (4,0) := by
  cases isText <;> rfl

section
omit [LinearOrder Word]

theorem group_encoded (isEncoded : a.IsEncoded) : a.group = a.bits ∧ ((ofLex a.bits).1 < 4 ∨ 5 < (ofLex a.bits).1) := by
  cases a with
  | encoded datatype data =>
    have rank := toNat_cases datatype
    exact ⟨rfl,by change datatype.toNat < 4 ∨ 5 < datatype.toNat; omega⟩
  | blankNodeIndex index => exact ⟨rfl,Or.inr (by change 5 < 10; omega)⟩
  | vocabIndex _ | localVocabIndex _ _ => exact isEncoded.elim

theorem bits_lt_group (different : a.IsEncoded ∨ b.IsEncoded) : a.bits < b.bits ↔ a.group < b.group := by
  cases a with
  | encoded datatype data =>
    have rank := toNat_cases datatype
    cases b with
    | vocabIndex _ | localVocabIndex _ _ =>
      simp only [bits,group,Prod.Lex.toLex_lt_toLex]
      omega
    | encoded _ _ | blankNodeIndex _ => rfl
  | blankNodeIndex index =>
    cases b with
    | vocabIndex _ | localVocabIndex _ _ => simp [bits,group,Prod.Lex.toLex_lt_toLex]
    | encoded _ _ | blankNodeIndex _ => rfl
  | vocabIndex index | localVocabIndex address word =>
    cases b with
    | encoded datatype data =>
      have rank := toNat_cases datatype
      simp only [bits,group,Prod.Lex.toLex_lt_toLex]
      omega
    | blankNodeIndex _ => simp [bits,group,Prod.Lex.toLex_lt_toLex]
    | vocabIndex _ | localVocabIndex _ _ => exact (different.elim id id).elim

end

theorem compare_encoded (different : a.IsEncoded ∨ b.IsEncoded) : compareThreeWay vocab a b = cmp a.group b.group := by
  have byBits : compareThreeWay vocab a b = cmp a.bits b.bits := by
    cases a with
    | encoded _ _ | blankNodeIndex _ => cases b <;> rfl
    | vocabIndex _ =>
      cases b with
      | localVocabIndex _ _ => exact (different.elim id id).elim
      | _ => rfl
    | localVocabIndex _ _ =>
      cases b with
      | encoded _ _ | blankNodeIndex _ => rfl
      | _ => exact (different.elim id id).elim
  rw [byBits]
  exact cmp_congr (bits_lt_group different) (bits_lt_group different.symm)

theorem compareWithPosition_eq {index : Nat} {found : Word} (isIndex : index < 2 ^ numDataBits) (isWord : vocab.wordAt index = some found) (word : Word) :
    compareWithPosition vocab index word = cmp (vocab.key found) (vocab.key word) := by
  obtain ⟨isLower,isUpper⟩ := vocab.position_iff isIndex isWord word
  unfold compareWithPosition
  dsimp only
  rcases lt_trichotomy (vocab.key found) (vocab.key word) with less | same | greater
  · rw [if_pos (isLower.mpr less),(cmp_eq_lt_iff _ _).mpr less]
  · rw [if_neg (isLower.not.mpr same.not_lt),if_neg (isUpper.not.mpr same.not_gt),(cmp_eq_eq_iff _ _).mpr same]
  · rw [if_neg (isLower.not.mpr greater.not_gt),if_pos (isUpper.mpr greater),(cmp_eq_gt_iff _ _).mpr greater]

theorem compare_text {localA localB : Bool} {wordA wordB : Word} (textA : IsText vocab a localA wordA) (textB : IsText vocab b localB wordB) :
    compareThreeWay vocab a b = if localA && localB then cmp wordA wordB else cmp (vocab.key wordA) (vocab.key wordB) := by
  cases textA with
  | vocab index word isIndex isWord =>
    cases textB with
    | vocab index' word' isIndex' isWord' =>
      change cmp (toLex (4,index)) (toLex (4,index')) = _
      refine (cmp_congr ?_ ?_).trans (if_neg (by simp)).symm
      · rw [← vocab.index_lt_iff isIndex isWord isIndex' isWord']
        simp [Prod.Lex.toLex_lt_toLex]
      · rw [← vocab.index_lt_iff isIndex' isWord' isIndex isWord]
        simp [Prod.Lex.toLex_lt_toLex]
    | isLocal address word' => exact compareWithPosition_eq vocab isIndex isWord wordB
  | isLocal address word =>
    cases textB with
    | vocab index' word' isIndex' isWord' =>
      change (compareWithPosition vocab index' wordA).swap = _
      rw [compareWithPosition_eq vocab isIndex' isWord',cmp_swap]
      rfl
    | isLocal address' word' => rfl

structure IsConsistent (vocab : IndexVocabulary Word) : Prop where
  refl : ∀ a,IsId vocab a → compareThreeWay vocab a a = .eq
  swap : ∀ a b,IsId vocab a → IsId vocab b → compareThreeWay vocab b a = (compareThreeWay vocab a b).swap
  trans : ∀ a b c,IsId vocab a → IsId vocab b → IsId vocab c → compareThreeWay vocab a b ≠ .gt → compareThreeWay vocab b c ≠ .gt →
    compareThreeWay vocab a c ≠ .gt
  word : ∀ index address word,index < 2 ^ numDataBits → vocab.wordAt index = some word →
    compareThreeWay vocab (localVocabIndex address word) (vocabIndex index) = .eq
  hash : ∀ a b,IsId vocab a → IsId vocab b → compareThreeWay vocab a b = .eq → hashExpansion vocab a = hashExpansion vocab b

/-- If a word goes to a later part of the vocabulary than a larger one, then no word of the vocabulary is between their positions. -/
def KeepsOrder (vocab : IndexVocabulary Word) : Prop :=
  ∀ first second,first < second → vocab.marker second < vocab.marker first → ∀ index word,index < 2 ^ numDataBits → vocab.wordAt index = some word →
    ¬ ((vocab.marker second < vocab.marker word ∨ vocab.marker word = vocab.marker second ∧ second ≤ word) ∧
      (vocab.marker word < vocab.marker first ∨ vocab.marker word = vocab.marker first ∧ word ≤ first))

section Consistent
variable {vocab}

theorem cmp_ne_gt {α : Type} [LinearOrder α] {x y : α} : cmp x y ≠ .gt ↔ x ≤ y := by
  rw [Ne,cmp_eq_gt_iff,not_lt]

theorem key_le_iff {first second : Word} : vocab.key first ≤ vocab.key second ↔
    vocab.marker first < vocab.marker second ∨ vocab.marker first = vocab.marker second ∧ first ≤ second := Prod.Lex.toLex_le_toLex

variable {word : Word}

theorem KeepsOrder.not_between (keeps : KeepsOrder vocab) {first second : Word} (less : first < second) (inverted : vocab.key second ≤ vocab.key first)
    {index : Nat} (isIndex : index < 2 ^ numDataBits) (isWord : vocab.wordAt index = some word)
    (after : vocab.key second ≤ vocab.key word) : ¬ vocab.key word ≤ vocab.key first := by
  intro before
  have markers : vocab.marker second < vocab.marker first := by
    rcases key_le_iff.mp inverted with isLess | ⟨_,atMost⟩
    · exact isLess
    · exact absurd less atMost.not_gt
  apply keeps first second less markers index word isIndex isWord
  refine ⟨?_,key_le_iff.mp before⟩
  rcases key_le_iff.mp after with isLess | ⟨same,atMost⟩
  · exact Or.inl isLess
  · exact Or.inr ⟨same.symm,atMost⟩

/-- No word of the vocabulary is between two local words for which the two orders differ, as far as these IDs are concerned. -/
def KeepsOrderOn (vocab : IndexVocabulary Word) (ids : Set (ValueId Word)) : Prop :=
  ∀ address address' index first second word,localVocabIndex address first ∈ ids → localVocabIndex address' second ∈ ids → vocabIndex index ∈ ids →
    vocab.wordAt index = some word → first < second → ¬ (vocab.key second ≤ vocab.key word ∧ vocab.key word ≤ vocab.key first)

theorem KeepsOrderOn.trans_text {ids : Set (ValueId Word)} (keeps : KeepsOrderOn vocab ids) {localA localB localC : Bool} {wordA wordB wordC : Word}
    (textA : IsText vocab a localA wordA) (textB : IsText vocab b localB wordB) (textC : IsText vocab c localC wordC) (isA : a ∈ ids) (isB : b ∈ ids)
    (isC : c ∈ ids) (first : compareThreeWay vocab a b ≠ .gt) (second : compareThreeWay vocab b c ≠ .gt) : compareThreeWay vocab a c ≠ .gt := by
  rw [compare_text vocab textA textB] at first
  rw [compare_text vocab textB textC] at second
  rw [compare_text vocab textA textC]
  cases textA with
  | vocab indexA _ _ isWordA =>
    simp only [Bool.false_and,Bool.false_eq_true,if_false,cmp_ne_gt] at first ⊢
    cases textB with
    | vocab indexB _ _ _ =>
      simp only [Bool.false_and,Bool.false_eq_true,if_false,cmp_ne_gt] at second
      exact first.trans second
    | isLocal addressB _ =>
      cases textC with
      | vocab indexC _ _ _ =>
        simp only [Bool.and_false,Bool.false_eq_true,if_false,cmp_ne_gt] at second
        exact first.trans second
      | isLocal addressC _ =>
        simp only [Bool.and_self,if_true,cmp_ne_gt] at second
        by_contra notLe
        have after := (not_le.mp notLe).le
        rcases second.lt_or_eq with less | same
        · exact keeps _ _ _ _ _ _ isB isC isA isWordA less ⟨after,first⟩
        · exact notLe (same ▸ first)
  | isLocal addressA _ =>
    cases textB with
    | vocab indexB _ _ isWordB =>
      simp only [Bool.and_false,Bool.false_and,Bool.false_eq_true,if_false,cmp_ne_gt] at first second
      cases textC with
      | vocab indexC _ _ _ =>
        simp only [Bool.and_false,Bool.false_eq_true,if_false,cmp_ne_gt]
        exact first.trans second
      | isLocal addressC _ =>
        simp only [Bool.and_self,if_true,cmp_ne_gt]
        by_contra notLe
        exact keeps _ _ _ _ _ _ isC isA isB isWordB (not_le.mp notLe) ⟨first,second⟩
    | isLocal addressB _ =>
      simp only [Bool.and_self,if_true,cmp_ne_gt] at first
      cases textC with
      | vocab indexC _ _ isWordC =>
        simp only [Bool.and_false,Bool.false_eq_true,if_false,cmp_ne_gt] at second ⊢
        by_contra notLe
        have before := (not_le.mp notLe).le
        rcases first.lt_or_eq with less | same
        · exact keeps _ _ _ _ _ _ isA isB isC isWordC less ⟨second,before⟩
        · exact notLe (same ▸ second)
      | isLocal addressC _ =>
        simp only [Bool.and_self,if_true,cmp_ne_gt] at second ⊢
        exact first.trans second

theorem KeepsOrder.trans_text (keeps : KeepsOrder vocab) {localA localB localC : Bool} {wordA wordB wordC : Word} (textA : IsText vocab a localA wordA)
    (textB : IsText vocab b localB wordB) (textC : IsText vocab c localC wordC) (first : compareThreeWay vocab a b ≠ .gt)
    (second : compareThreeWay vocab b c ≠ .gt) : compareThreeWay vocab a c ≠ .gt := by
  have keepsOn : KeepsOrderOn vocab {id | IsId vocab id} := by
    intro address address' index first second word _ _ isId isWord less between
    exact keeps.not_between less (between.1.trans between.2) isId.1 isWord between.1 between.2
  exact keepsOn.trans_text textA textB textC textA.isId textB.isId textC.isId first second

theorem KeepsOrder.trans (keeps : KeepsOrder vocab) (isA : IsId vocab a) (isB : IsId vocab b) (isC : IsId vocab c)
    (first : compareThreeWay vocab a b ≠ .gt) (second : compareThreeWay vocab b c ≠ .gt) : compareThreeWay vocab a c ≠ .gt := by
  -- The IDs of the words are at the same place, so the order of the groups is always kept.
  have group_le : ∀ {x y : ValueId Word},IsId vocab x → IsId vocab y → compareThreeWay vocab x y ≠ .gt → x.group ≤ y.group := by
    intro x y isX isY atMost
    rcases text_or_encoded vocab isX with ⟨_,_,textX⟩ | encodedX
    · rcases text_or_encoded vocab isY with ⟨_,_,textY⟩ | encodedY
      · rw [group_text vocab textX,group_text vocab textY]
      · rw [compare_encoded vocab (Or.inr encodedY),cmp_ne_gt] at atMost
        exact atMost
    · rw [compare_encoded vocab (Or.inl encodedX),cmp_ne_gt] at atMost
      exact atMost
  have groupAB := group_le isA isB first
  have groupBC := group_le isB isC second
  rcases text_or_encoded vocab isA with ⟨_,_,textA⟩ | encodedA
  · rcases text_or_encoded vocab isC with ⟨_,_,textC⟩ | encodedC
    · rcases text_or_encoded vocab isB with ⟨_,_,textB⟩ | encodedB
      · exact keeps.trans_text textA textB textC first second
      · rw [group_text vocab textA] at groupAB
        rw [group_text vocab textC] at groupBC
        obtain ⟨isBits,rank⟩ := group_encoded encodedB
        rw [← isBits,← groupAB.antisymm groupBC] at rank
        exact absurd rank (by decide)
    · rw [compare_encoded vocab (Or.inr encodedC),cmp_ne_gt]
      exact groupAB.trans groupBC
  · rw [compare_encoded vocab (Or.inl encodedA),cmp_ne_gt]
    exact groupAB.trans groupBC

theorem compare_swap (isA : IsId vocab a) (isB : IsId vocab b) : compareThreeWay vocab b a = (compareThreeWay vocab a b).swap := by
  rcases text_or_encoded vocab isA with ⟨localA,wordA,textA⟩ | encodedA
  · rcases text_or_encoded vocab isB with ⟨localB,wordB,textB⟩ | encodedB
    · rw [compare_text vocab textA textB,compare_text vocab textB textA,Bool.and_comm localB localA]
      split
      · rw [cmp_swap]
      · rw [cmp_swap]
    · rw [compare_encoded vocab (Or.inr encodedB),compare_encoded vocab (Or.inl encodedB),cmp_swap]
  · rw [compare_encoded vocab (Or.inl encodedA),compare_encoded vocab (Or.inr encodedA),cmp_swap]

theorem compare_refl (isA : IsId vocab a) : compareThreeWay vocab a a = .eq := by
  rcases text_or_encoded vocab isA with ⟨isLocal,word,isText⟩ | isEncoded
  · rw [compare_text vocab isText isText,cmp_self_eq_eq,cmp_self_eq_eq,ite_self]
  · rw [compare_encoded vocab (Or.inl isEncoded),cmp_self_eq_eq]

theorem hashExpansion_text {isLocal isLocal' : Bool} (isText : IsText vocab a isLocal word) (isText' : IsText vocab b isLocal' word) :
    hashExpansion vocab a = hashExpansion vocab b := by
  have atIndex : ∀ {index : Nat} (address : Nat),index < 2 ^ numDataBits → vocab.wordAt index = some word →
      hashExpansion vocab (localVocabIndex address word) = hashExpansion vocab (vocabIndex index) := by
    intro index address isIndex isWord
    simp [hashExpansion,vocab.position_of_wordAt isIndex isWord]
  cases isText with
  | vocab index _ isIndex isWord =>
    cases isText' with
    | vocab index' _ isIndex' isWord' => exact (atIndex 0 isIndex isWord).symm.trans (atIndex 0 isIndex' isWord')
    | isLocal address' _ => exact (atIndex address' isIndex isWord).symm
  | isLocal address _ =>
    cases isText' with
    | vocab index' _ isIndex' isWord' => exact atIndex address isIndex' isWord'
    | isLocal address' _ => rfl

theorem hashExpansion_encoded (isEncoded : a.IsEncoded) : hashExpansion vocab a = .bits a.bits := by
  cases a with
  | encoded _ _ | blankNodeIndex _ => rfl
  | vocabIndex _ | localVocabIndex _ _ => exact isEncoded.elim

theorem hashExpansion_of_eq (isA : IsId vocab a) (isB : IsId vocab b) (equal : compareThreeWay vocab a b = .eq) :
    hashExpansion vocab a = hashExpansion vocab b := by
  rcases text_or_encoded vocab isA with ⟨localA,wordA,textA⟩ | encodedA
  · rcases text_or_encoded vocab isB with ⟨localB,wordB,textB⟩ | encodedB
    · have sameWord : wordA = wordB := by
        rw [compare_text vocab textA textB] at equal
        split at equal
        · exact (cmp_eq_eq_iff _ _).mp equal
        · exact (Prod.ext_iff.mp (toLex.injective ((cmp_eq_eq_iff _ _).mp equal))).2
      subst sameWord
      exact hashExpansion_text textA textB
    · rw [compare_encoded vocab (Or.inr encodedB),cmp_eq_eq_iff,group_text vocab textA] at equal
      obtain ⟨isBits,rank⟩ := group_encoded encodedB
      rw [← isBits,← equal] at rank
      exact absurd rank (by decide)
  · rw [compare_encoded vocab (Or.inl encodedA),cmp_eq_eq_iff] at equal
    obtain ⟨isBits,rank⟩ := group_encoded encodedA
    rcases text_or_encoded vocab isB with ⟨localB,wordB,textB⟩ | encodedB
    · rw [← isBits,equal,group_text vocab textB] at rank
      exact absurd rank (by decide)
    · rw [isBits,(group_encoded encodedB).1] at equal
      rw [hashExpansion_encoded encodedA,hashExpansion_encoded encodedB,equal]

theorem compare_word {index : Nat} (address : Nat) (isIndex : index < 2 ^ numDataBits) (isWord : vocab.wordAt index = some word) :
    compareThreeWay vocab (localVocabIndex address word) (vocabIndex index) = .eq := by
  rw [compare_text vocab (.isLocal address word) (.vocab index word isIndex isWord)]
  exact cmp_self_eq_eq _

/-- The order is consistent exactly if the parts of the vocabulary keep the order of the words. -/
theorem isConsistent_iff (vocab : IndexVocabulary Word) : IsConsistent vocab ↔ KeepsOrder vocab := by
  constructor
  · intro consistent first second less markers index word isIndex isWord between
    have text := IsText.vocab index word isIndex isWord
    -- The larger word is before the word of the vocabulary, which is before the smaller one.
    have before : compareThreeWay vocab (localVocabIndex 0 second) (vocabIndex index) ≠ .gt := by
      rw [compare_text vocab (.isLocal 0 second) text]
      refine cmp_ne_gt.mpr (key_le_iff.mpr ?_)
      exact between.1.imp id (fun same => ⟨same.1.symm,same.2⟩)
    have after : compareThreeWay vocab (vocabIndex index) (localVocabIndex 0 first) ≠ .gt := by
      rw [compare_text vocab text (.isLocal 0 first)]
      exact cmp_ne_gt.mpr (key_le_iff.mpr between.2)
    have atMost := consistent.trans (localVocabIndex 0 second) (vocabIndex index) (localVocabIndex 0 first) trivial ⟨isIndex,word,isWord⟩ trivial
      before after
    exact (cmp_ne_gt.mp atMost).not_gt less
  · intro keeps
    exact ⟨fun _ => compare_refl,fun _ _ => compare_swap,fun _ _ _ => keeps.trans,fun _ address _ => compare_word address,
      fun _ _ => hashExpansion_of_eq⟩

end Consistent

section Geo

def geoLiteralSuffix : List Char := "\"^^<http://www.opengis.net/ont/geosparql#wktLiteral>".toList

def geoSplitFunc (word : List Char) : Nat := if ['"'] <+: word ∧ geoLiteralSuffix <:+ word then 1 else 0

def charLocale : LocaleManager (List Char) := ⟨id⟩

theorem geoSplitFunc_lt (word : List Char) : geoSplitFunc word < 2 := by
  unfold geoSplitFunc
  split
  · exact Nat.one_lt_two
  · exact Nat.two_pos

/-- An index with the single IRI `<b>`. -/
def iriVocabulary : SplitVocabulary (LiteralOrIri charLocale) where
  underlying := [⟨[⟨['<','b','>']⟩],List.pairwise_singleton _ _⟩,⟨[],List.Pairwise.nil⟩]
  splitFunction word := geoSplitFunc word.toStringRepresentation
  marker_lt word := geoSplitFunc_lt word.toStringRepresentation
  written marker vocab isPart word member := by
    match marker with
    | 0 =>
      cases isPart
      rw [List.mem_singleton.mp member]
      simp [geoSplitFunc]
    | 1 =>
      cases isPart
      cases member
    | _ + 2 => cases isPart
  fits vocab member := by
    simp only [List.mem_cons,List.not_mem_nil,or_false] at member
    rcases member with rfl | rfl
    · decide
    · decide

theorem firstOriginalChar_literal (rest : List Char) : (extractComparable ('"'::rest)).firstOriginalChar = '"' := by
  rw [extractComparable]
  split <;> rfl

/-- The WKT literal goes to the second part, but it is before the IRI `<a>`, which is before `<b>`. -/
theorem iriVocabulary_inconsistent : ¬ IsConsistent (.split iriVocabulary) := by
  rw [isConsistent_iff]
  intro keeps
  have less : (⟨'"'::("POINT(1 1)".toList ++ geoLiteralSuffix)⟩ : LiteralOrIri charLocale) < ⟨['<','a','>']⟩ := by
    rw [← cmp_eq_lt_iff,LiteralOrIri.cmp_eq,TripleComponentComparator.compare]
    dsimp only
    rw [firstOriginalChar_literal]
    rfl
  have isWkt : geoSplitFunc ('"'::("POINT(1 1)".toList ++ geoLiteralSuffix)) = 1 :=
    if_pos ⟨by simp,'"'::"POINT(1 1)".toList,rfl⟩
  have isIri : ∀ c,geoSplitFunc ['<',c,'>'] = 0 := fun c => if_neg (by simp)
  apply keeps _ _ less (by simp only [IndexVocabulary.marker,iriVocabulary,isWkt,isIri]; exact Nat.one_pos) 0 ⟨['<','b','>']⟩ (by decide) (by decide)
  simp only [IndexVocabulary.marker,iriVocabulary,isWkt,isIri]
  refine ⟨Or.inr ⟨trivial,?_⟩,Or.inl Nat.one_pos⟩
  rw [← cmp_ne_gt,LiteralOrIri.cmp_eq]
  decide

end Geo
end ValueId
end Qlever
