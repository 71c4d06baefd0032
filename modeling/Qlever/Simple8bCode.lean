import Qlever.Library.PackedDigits

/-! `Simple8bCode.h`: numbers of 60 bits are compressed to words of 64 bits. The four lowest bits of a word are a selector, that is, how many numbers
of how many bits the word holds.
-/
namespace Qlever.Simple8bCode
open Library.PackedDigits List

structure Selector where
  itemWidth : Nat
  groupSize : Nat
  mask : Nat
  deriving DecidableEq, Repr

def SIMPLE8B_SELECTORS : List Selector :=
  [⟨0,240,0x0⟩,⟨0,120,0x0⟩,⟨1,60,0x1⟩,⟨2,30,0x3⟩,⟨3,20,0x7⟩,⟨4,15,0xF⟩,⟨5,12,0x1F⟩,⟨6,10,0x3F⟩,⟨7,8,0x7F⟩,⟨8,7,0xFF⟩,⟨10,6,0x3FF⟩,
    ⟨12,5,0xFFF⟩,⟨15,4,0x7FFF⟩,⟨20,3,0xFFFFF⟩,⟨30,2,0x3FFFFFFF⟩,⟨60,1,0x0FFFFFFFFFFFFFFF⟩]

def selectorOf (selector : Nat) : Selector := SIMPLE8B_SELECTORS[selector]?.getD ⟨60,1,0x0FFFFFFFFFFFFFFF⟩

/-- The items that fit into a word, from the position `nofItemsInWord` on. -/
def fillWord (selector : Selector) : List Nat → Nat → Nat → Nat × Nat
  | [],nofItemsInWord,codeword => (nofItemsInWord,codeword)
  | item :: itemsLeft,nofItemsInWord,codeword =>
    if nofItemsInWord < selector.groupSize ∧ ¬ item > selector.mask then
      fillWord selector itemsLeft (nofItemsInWord + 1) (codeword ||| item <<< (4 + nofItemsInWord * selector.itemWidth))
    else (nofItemsInWord,codeword)

def trySelectors (itemsLeft : List Nat) : List Nat → Option (Nat × Nat)
  | [] => none
  | selector :: selectors =>
    let filled := fillWord (selectorOf selector) itemsLeft 0 selector
    if filled.1 = min itemsLeft.length (selectorOf selector).groupSize then some filled else trySelectors itemsLeft selectors

/-- The loop of `encode`. A number of more than 60 bits has no selector, and then the loop does not end. Else each round encodes an element,
so the number of elements bounds the number of rounds. -/
def encodeLoop : Nat → List Nat → Option (List Nat)
  | _,[] => some []
  | 0,_ :: _ => none
  | rounds + 1,item :: items =>
    let plaintext := item :: items
    let zeros := ((plaintext.take 240).takeWhile (fun item => item = 0)).length
    if zeros = min 240 plaintext.length then do
      return 0 :: (← encodeLoop rounds (plaintext.drop 240))
    else do
      let selector1 := 120 ≤ zeros
      let itemsLeft := if selector1 then plaintext.drop 120 else plaintext
      let (nofItemsInWord,codeword) ← trySelectors itemsLeft (range' 2 14)
      return (if selector1 then [1] else []) ++ codeword :: (← encodeLoop rounds (itemsLeft.drop nofItemsInWord))

def encode (plaintext : List Nat) : Option (List Nat) := encodeLoop plaintext.length plaintext

def itemsOf (selector : Selector) : Nat → Nat → List Nat
  | 0,_ => []
  | items + 1,word => (word &&& selector.mask) :: itemsOf selector items (word >>> selector.itemWidth)

def decodeWord (word : Nat) : List Nat :=
  let selector := selectorOf (word &&& 0xF)
  itemsOf selector selector.groupSize (word >>> 4)

/-- The loop of `decode`, with the items that the last word writes behind the elements. A read after the last word fails. -/
def decode : List Nat → Nat → Option (List Nat)
  | _,0 => some []
  | [],_ + 1 => none
  | word :: words,nofElements + 1 => do
    let items := decodeWord word
    return items ++ (← decode words (nofElements + 1 - items.length))

section Words

theorem selectorOf_spec (selector : Nat) : (selectorOf selector).mask + 1 = 2 ^ (selectorOf selector).itemWidth ∧ 0 < (selectorOf selector).groupSize ∧
    4 + (selectorOf selector).itemWidth * (selectorOf selector).groupSize ≤ 64 := by
  rcases Nat.lt_or_ge selector 16 with small | large
  · revert small
    revert selector
    decide
  · rw [selectorOf,getElem?_eq_none large]
    decide

theorem itemsOf_eq (selector items word : Nat) : itemsOf (selectorOf selector) items word = unpack (selectorOf selector).itemWidth items word := by
  have mask : (selectorOf selector).mask = 2 ^ (selectorOf selector).itemWidth - 1 := by
    have spec := (selectorOf_spec selector).1
    omega
  induction items generalizing word with
  | zero => rfl
  | succ items ih => rw [itemsOf,unpack,ih,mask,Nat.and_two_pow_sub_one_eq_mod,Nat.shiftRight_eq_div_pow]

def wordOf (selector : Nat) (items : List Nat) : Nat := selector + 2 ^ 4 * pack (selectorOf selector).itemWidth items

section
variable {selector : Nat} (isSelector : selector < 16) {items : List Nat} (room : items.length ≤ (selectorOf selector).groupSize)
  (small : ∀ item ∈ items,item ≤ (selectorOf selector).mask)
include isSelector room small

theorem decodeWord_wordOf :
    decodeWord (wordOf selector items) = items ++ replicate ((selectorOf selector).groupSize - items.length) 0 := by
  have spec := (selectorOf_spec selector).1
  have low : wordOf selector items &&& 0xF = selector := by
    rw [wordOf,show (0xF : Nat) = 2 ^ 4 - 1 from rfl,Nat.and_two_pow_sub_one_eq_mod,Nat.add_mul_mod_self_left]
    exact Nat.mod_eq_of_lt isSelector
  have high : wordOf selector items >>> 4 = pack (selectorOf selector).itemWidth items := by
    rw [wordOf,Nat.shiftRight_eq_div_pow,Nat.add_mul_div_left _ _ (Nat.two_pow_pos 4),Nat.div_eq_of_lt isSelector,Nat.zero_add]
  rw [decodeWord,low,high,itemsOf_eq]
  apply unpack_pack _ room
  intro item isItem
  have below := small item isItem
  omega

theorem wordOf_lt : wordOf selector items < 2 ^ 64 := by
  obtain ⟨spec,-,bits⟩ := selectorOf_spec selector
  have packed : pack (selectorOf selector).itemWidth items < 2 ^ ((selectorOf selector).itemWidth * items.length) := by
    apply pack_lt
    intro item isItem
    have below := small item isItem
    omega
  have fits : 2 ^ ((selectorOf selector).itemWidth * items.length) ≤ 2 ^ 60 := by
    apply Nat.pow_le_pow_right (by decide)
    have product := Nat.mul_le_mul_left (selectorOf selector).itemWidth room
    omega
  rw [wordOf]
  omega

end

structure Fits (selector : Nat) (items : List Nat) : Prop where
  room : items.length ≤ (selectorOf selector).groupSize
  small : ∀ item ∈ items,item ≤ (selectorOf selector).mask

variable {selector : Nat} {items : List Nat}

theorem Fits.lt_two_pow (fits : Fits selector items) :
    ∀ item ∈ items,item < 2 ^ (selectorOf selector).itemWidth := by
  intro item isItem
  have spec := (selectorOf_spec selector).1
  have below := fits.small item isItem
  omega

theorem or_item (isSelector : selector < 16) (fits : Fits selector items) (item : Nat) :
    wordOf selector items ||| item <<< (4 + items.length * (selectorOf selector).itemWidth) = wordOf selector (items ++ [item]) := by
  have below : wordOf selector items < 2 ^ (4 + items.length * (selectorOf selector).itemWidth) := by
    have packed := pack_lt fits.lt_two_pow
    rw [wordOf,Nat.pow_add,Nat.mul_comm items.length]
    omega
  rw [Nat.or_comm,Nat.shiftLeft_eq,Nat.mul_comm item,← Nat.two_pow_add_eq_or_of_lt below,wordOf,wordOf,pack_concat,Nat.pow_add,
    Nat.mul_comm items.length]
  ring

theorem fillWord_spec (isSelector : selector < 16) (items held : List Nat) (fits : Fits selector held) :
    ∃ taken,fillWord (selectorOf selector) items held.length (wordOf selector held) =
        (held.length + taken,wordOf selector (held ++ items.take taken)) ∧ taken ≤ items.length ∧ Fits selector (held ++ items.take taken) ∧
      ((∀ item ∈ items,item ≤ (selectorOf selector).mask) → held.length + taken = min (held.length + items.length) (selectorOf selector).groupSize) := by
  induction items generalizing held with
  | nil =>
    refine ⟨0,?_,le_refl _,?_,?_⟩
    · simp [fillWord]
    · simpa using fits
    · intro _
      have room := fits.room
      simp only [length_nil]
      omega
  | cons item items ih =>
    by_cases taken : held.length < (selectorOf selector).groupSize ∧ ¬ item > (selectorOf selector).mask
    · have fitsMore : Fits selector (held ++ [item]) := by
        constructor
        · rw [length_append,length_singleton]
          exact taken.1
        · intro other isOther
          rcases mem_append.mp isOther with isHeld | isItem
          · exact fits.small other isHeld
          · rw [mem_singleton.mp isItem]
            exact not_lt.mp taken.2
      obtain ⟨count,filled,inside,fitsAll,full⟩ := ih (held ++ [item]) fitsMore
      rw [length_append,length_singleton] at filled full
      refine ⟨count + 1,?_,?_,?_,?_⟩
      · rw [fillWord,if_pos taken,or_item isSelector fits,filled,append_assoc,take_succ_cons]
        congr 1
        omega
      · simpa using inside
      · simpa [append_assoc] using fitsAll
      · intro small
        have reached := full (forall_mem_cons.mp small).2
        rw [length_cons]
        omega
    · refine ⟨0,?_,Nat.zero_le _,?_,?_⟩
      · rw [fillWord,if_neg taken]
        simp
      · simpa using fits
      · intro small
        have fitsItem := small item mem_cons_self
        have room := fits.room
        rw [length_cons]
        omega

variable {selectors : List Nat}

theorem trySelectors_spec (nonempty : items ≠ []) (areSelectors : ∀ selector ∈ selectors,selector < 16)
    {nofItemsInWord codeword : Nat} (found : trySelectors items selectors = some (nofItemsInWord,codeword)) :
    ∃ selector < 16,codeword = wordOf selector (items.take nofItemsInWord) ∧ Fits selector (items.take nofItemsInWord) ∧
      0 < nofItemsInWord ∧ nofItemsInWord = min items.length (selectorOf selector).groupSize := by
  induction selectors with
  | nil => cases found
  | cons selector selectors ih =>
    have isSelector := areSelectors selector mem_cons_self
    obtain ⟨taken,filled,inside,fits,-⟩ := fillWord_spec isSelector items [] ⟨Nat.zero_le _,by simp⟩
    have start : wordOf selector [] = selector := by rw [wordOf,pack]; omega
    rw [start,length_nil,Nat.zero_add,nil_append] at filled
    rw [nil_append] at fits
    rw [trySelectors,filled] at found
    simp only at found
    split at found
    next full =>
      cases found
      have positive := length_pos_of_ne_nil nonempty
      have group := (selectorOf_spec selector).2.1
      exact ⟨selector,isSelector,rfl,fits,by omega,full⟩
    next => exact ih (forall_mem_cons.mp areSelectors).2 found

theorem trySelectors_isSome (small : ∀ item ∈ items,item < 2 ^ 60) (hasLast : 15 ∈ selectors)
    (areSelectors : ∀ selector ∈ selectors,selector < 16) : ∃ filled,trySelectors items selectors = some filled := by
  induction selectors with
  | nil => cases hasLast
  | cons selector selectors ih =>
    rw [trySelectors]
    split
    next => exact ⟨_,rfl⟩
    next notFull =>
      rcases mem_cons.mp hasLast with rfl | hasLast
      · obtain ⟨taken,filled,-,-,full⟩ := fillWord_spec (show 15 < 16 by decide) items [] ⟨Nat.zero_le _,by simp⟩
        have start : wordOf 15 [] = 15 := rfl
        rw [start,length_nil] at filled
        rw [filled] at notFull
        have reached := full (fun item isItem => by have below := small item isItem; change item ≤ 0x0FFFFFFFFFFFFFFF; omega)
        rw [length_nil,Nat.zero_add (List.length items)] at reached
        exact absurd reached notFull
      · exact ih hasLast (forall_mem_cons.mp areSelectors).2

end Words

section RoundTrip

def Represents (words plaintext : List Nat) : Prop := ∀ more,∃ rest,decode (words ++ more) plaintext.length = some (plaintext ++ rest)

theorem represents_nil : Represents [] [] := by
  intro more
  cases more <;> exact ⟨[],rfl⟩

variable {word : Nat}

theorem Represents.cons {words first rest padding : List Nat} (represents : Represents words rest) (nonempty : first ≠ [])
    (isWord : decodeWord word = first ++ padding) (last : rest = [] ∨ padding = []) : Represents (word :: words) (first ++ rest) := by
  intro more
  have positive := length_pos_of_ne_nil nonempty
  obtain ⟨count,isCount⟩ : ∃ count,(first ++ rest).length = count + 1 := ⟨(first ++ rest).length - 1,by rw [length_append]; omega⟩
  rw [isCount,cons_append,decode,← isCount,isWord,length_append,length_append]
  rcases last with rfl | rfl
  · have done : first.length + ([] : List Nat).length - (first.length + padding.length) = 0 := by
      rw [length_nil]
      omega
    rw [done]
    refine ⟨padding,?_⟩
    cases words ++ more <;> simp [decode]
  · obtain ⟨tail,decoded⟩ := represents more
    refine ⟨tail,?_⟩
    rw [length_nil,Nat.add_zero,Nat.add_sub_cancel_left,decoded]
    simp

variable {items : List Nat}

theorem take_eq_replicate {limit count : Nat} (enough : count ≤ ((items.take limit).takeWhile (fun item => item = 0)).length) :
    items.take count = replicate count 0 := by
  have zeros : ∀ item ∈ (items.take limit).takeWhile (fun item => item = 0),item = 0 := by
    intro item isItem
    have all : ((items.take limit).takeWhile (fun item => item = 0)).all (fun item => item = 0) = true := all_takeWhile
    exact of_decide_eq_true (all_eq_true.mp all item isItem)
  have isPrefix : (items.take limit).takeWhile (fun item => item = 0) <+: items := (List.takeWhile_prefix _).trans (List.take_prefix limit items)
  have front : ((items.take limit).takeWhile (fun item => item = 0)).take count = items.take count := by
    obtain ⟨rest,joined⟩ := isPrefix
    have split := congrArg (List.take count) joined
    rw [take_append_of_le_length enough] at split
    exact split
  rw [← front,eq_replicate_iff]
  constructor
  · rw [length_take]
    omega
  · intro item isItem
    exact zeros item (mem_of_mem_take isItem)

theorem decodeWord_zeros : decodeWord 0 = replicate 240 0 ∧ decodeWord 1 = replicate 120 0 := by
  have selector0 : decodeWord (wordOf 0 []) = _ := decodeWord_wordOf (by decide) (Nat.zero_le _) (by simp)
  have selector1 : decodeWord (wordOf 1 []) = _ := decodeWord_wordOf (by decide) (Nat.zero_le _) (by simp)
  exact ⟨selector0,selector1⟩

structure Encodes (words plaintext : List Nat) : Prop where
  represents : Represents words plaintext
  fewer : words.length ≤ plaintext.length
  small : ∀ word ∈ words,word < 2 ^ 64

theorem Encodes.cons {words first rest padding : List Nat} (encodes : Encodes words rest) (nonempty : first ≠ [])
    (isWord : decodeWord word = first ++ padding) (last : rest = [] ∨ padding = []) (below : word < 2 ^ 64) : Encodes (word :: words) (first ++ rest) := by
  refine ⟨encodes.represents.cons nonempty isWord last,?_,forall_mem_cons.mpr ⟨below,encodes.small⟩⟩
  have positive := length_pos_of_ne_nil nonempty
  have fewer := encodes.fewer
  rw [length_append,length_cons]
  omega

theorem trySelectors_encodes (nonempty : items ≠ []) (small : ∀ item ∈ items,item < 2 ^ 60) :
    ∃ nofItemsInWord codeword,trySelectors items (range' 2 14) = some (nofItemsInWord,codeword) ∧ 0 < nofItemsInWord ∧
      ∀ words,Encodes words (items.drop nofItemsInWord) → Encodes (codeword :: words) items := by
  have areSelectors : ∀ selector ∈ range' 2 14,selector < 16 := by decide
  obtain ⟨⟨nofItemsInWord,codeword⟩,found⟩ := trySelectors_isSome small (show 15 ∈ range' 2 14 by decide) areSelectors
  obtain ⟨selector,isSelector,rfl,fits,positive,full⟩ := trySelectors_spec nonempty areSelectors found
  refine ⟨_,_,found,positive,?_⟩
  intro words encodes
  have decoded := decodeWord_wordOf isSelector fits.room fits.small
  have someItems : items.take nofItemsInWord ≠ [] := by
    have length := length_pos_of_ne_nil nonempty
    apply ne_nil_of_length_pos
    rw [length_take]
    omega
  have last : items.drop nofItemsInWord = [] ∨
      replicate ((selectorOf selector).groupSize - (items.take nofItemsInWord).length) 0 = [] := by
    rw [drop_eq_nil_iff,replicate_eq_nil_iff,length_take]
    omega
  have joined := encodes.cons someItems decoded last (wordOf_lt isSelector fits.room fits.small)
  rwa [take_append_drop] at joined

theorem Encodes.zeros {count : Nat} {words : List Nat} (positive : 0 < count) (nonempty : items ≠ [])
    (isWord : decodeWord word = replicate count 0) (below : word < 2 ^ 64) (front : items.take count = replicate (min count items.length) 0)
    (encodes : Encodes words (items.drop count)) : Encodes (word :: words) items := by
  have length := length_pos_of_ne_nil nonempty
  have someItems : items.take count ≠ [] := by
    apply ne_nil_of_length_pos
    rw [length_take]
    omega
  have decoded : decodeWord word = items.take count ++ replicate (count - items.length) 0 := by
    rw [isWord,front,← replicate_add]
    congr 1
    omega
  have last : items.drop count = [] ∨ replicate (count - items.length) 0 = [] := by
    rw [drop_eq_nil_iff,replicate_eq_nil_iff]
    omega
  have joined := encodes.cons someItems decoded last below
  rwa [take_append_drop] at joined

variable {plaintext : List Nat}

theorem encodeLoop_spec (rounds : Nat) (enough : plaintext.length ≤ rounds) (small : ∀ item ∈ plaintext,item < 2 ^ 60) :
    ∃ words,encodeLoop rounds plaintext = some words ∧ Encodes words plaintext := by
  induction rounds generalizing plaintext with
  | zero =>
    obtain rfl := length_eq_zero_iff.mp (Nat.le_zero.mp enough)
    exact ⟨[],rfl,represents_nil,le_refl _,by simp⟩
  | succ rounds ih =>
    cases plaintext with
    | nil => exact ⟨[],rfl,represents_nil,le_refl _,by simp⟩
    | cons item items =>
      rw [encodeLoop]
      have nonempty : item :: items ≠ [] := cons_ne_nil item items
      generalize item :: items = plaintext at *
      have smallRest : ∀ count,∀ item ∈ plaintext.drop count,item < 2 ^ 60 := fun count item isItem => small item (mem_of_mem_drop isItem)
      have length := length_pos_of_ne_nil nonempty
      split
      next allZeros =>
        obtain ⟨words,encoded,encodes⟩ := ih (by rw [length_drop]; omega) (smallRest 240)
        have front : plaintext.take 240 = replicate (min 240 plaintext.length) 0 := by
          rw [take_eq_take_min]
          exact take_eq_replicate allZeros.ge
        refine ⟨0 :: words,?_,encodes.zeros (by decide) nonempty decodeWord_zeros.1 (by decide) front⟩
        rw [encoded]
        rfl
      next notAll =>
        simp only
        generalize isZeros : ((plaintext.take 240).takeWhile (fun item => item = 0)).length = zeros at notAll
        have fewer : zeros ≤ min 240 plaintext.length := by
          rw [← isZeros,← length_take]
          exact (List.takeWhile_prefix _).length_le
        by_cases selector1 : 120 ≤ zeros
        · have nonemptyRest : plaintext.drop 120 ≠ [] := by
            rw [ne_eq,drop_eq_nil_iff]
            omega
          obtain ⟨nofItemsInWord,codeword,found,positive,encodesWord⟩ := trySelectors_encodes nonemptyRest (smallRest 120)
          have shorter : ((plaintext.drop 120).drop nofItemsInWord).length ≤ rounds := by
            simp only [length_drop]
            omega
          obtain ⟨words,encoded,encodes⟩ := ih shorter (fun item isItem => smallRest 120 item (mem_of_mem_drop isItem))
          have front : plaintext.take 120 = replicate (min 120 plaintext.length) 0 := by
            rw [take_eq_take_min]
            apply take_eq_replicate
            rw [isZeros]
            omega
          refine ⟨1 :: codeword :: words,?_,(encodesWord words encodes).zeros (by decide) nonempty decodeWord_zeros.2 (by decide) front⟩
          simp only [selector1,if_true,found,encoded,Option.bind_eq_bind,Option.bind_some]
          rfl
        · obtain ⟨nofItemsInWord,codeword,found,positive,encodesWord⟩ := trySelectors_encodes nonempty small
          have shorter : (plaintext.drop nofItemsInWord).length ≤ rounds := by
            rw [length_drop]
            omega
          obtain ⟨words,encoded,encodes⟩ := ih shorter (smallRest _)
          refine ⟨codeword :: words,?_,encodesWord words encodes⟩
          simp only [selector1,if_false,found,encoded,Option.bind_eq_bind,Option.bind_some]
          rfl

theorem encode_spec (small : ∀ item ∈ plaintext,item < 2 ^ 60) :
    ∃ words,encode plaintext = some words ∧ Encodes words plaintext := encodeLoop_spec plaintext.length (le_refl _) small

end RoundTrip

section Bounds

theorem selectorOf_groupSize_le (selector : Nat) : (selectorOf selector).groupSize ≤ 240 := by
  rcases Nat.lt_or_ge selector 16 with small | large
  · revert small
    revert selector
    decide
  · rw [selectorOf,getElem?_eq_none large]
    decide

theorem itemsOf_length (selector : Selector) (items word : Nat) : (itemsOf selector items word).length = items := by
  induction items generalizing word with
  | zero => rfl
  | succ items ih => rw [itemsOf,length_cons,ih]

theorem decode_length_le {words result : List Nat} {nofElements : Nat} (decoded : decode words nofElements = some result) :
    result.length ≤ nofElements + 239 := by
  induction words generalizing nofElements result with
  | nil =>
    cases nofElements with
    | zero =>
      cases decoded
      exact Nat.zero_le _
    | succ nofElements => cases decoded
  | cons word words ih =>
    cases nofElements with
    | zero =>
      cases decoded
      exact Nat.zero_le _
    | succ nofElements =>
      have size : (decodeWord word).length ≤ 240 := by
        rw [decodeWord,itemsOf_length]
        exact selectorOf_groupSize_le _
      rw [decode] at decoded
      obtain ⟨others,decodedOthers,joined⟩ := Option.bind_eq_some_iff.mp decoded
      have isResult := Option.some.inj joined
      have below := ih decodedOthers
      rw [← isResult,length_append]
      cases others with
      | nil =>
        rw [length_nil]
        omega
      | cons other others =>
        have elementsLeft : nofElements + 1 - (decodeWord word).length ≠ 0 := by
          intro done
          rw [done] at decodedOthers
          cases words <;> cases decodedOthers
        omega

/-- All items of 60 bits are encoded and decoded again. Each word of the encoding has 64 bits, and `decode` reads no other words. -/
theorem decode_encode {plaintext : List Nat} (small : ∀ item ∈ plaintext,item < 2 ^ 60) :
    ∃ words,encode plaintext = some words ∧ words.length ≤ plaintext.length ∧ (∀ word ∈ words,word < 2 ^ 64) ∧
      ∃ rest,decode words plaintext.length = some (plaintext ++ rest) ∧ (plaintext ++ rest).length ≤ plaintext.length + 239 := by
  obtain ⟨words,encoded,encodes⟩ := encode_spec small
  obtain ⟨rest,decoded⟩ := encodes.represents []
  rw [append_nil] at decoded
  exact ⟨words,encoded,encodes.fewer,encodes.small,rest,decoded,decode_length_le decoded⟩

/-- Zeros for the second special selector, before an item of 60 bits. -/
theorem decode_encode_zeros :
    ∃ words,encode (replicate 130 0 ++ [7]) = some words ∧ words.length ≤ (replicate 130 0 ++ [7]).length ∧ (∀ word ∈ words,word < 2 ^ 64) ∧
      ∃ rest,decode words (replicate 130 0 ++ [7]).length = some (replicate 130 0 ++ [7] ++ rest) ∧
        (replicate 130 0 ++ [7] ++ rest).length ≤ (replicate 130 0 ++ [7]).length + 239 := by
  apply decode_encode
  intro item isItem
  rcases mem_append.mp isItem with isZero | isLast
  · rw [eq_of_mem_replicate isZero]
    decide
  · rw [mem_singleton.mp isLast]
    decide

end Bounds

end Qlever.Simple8bCode
