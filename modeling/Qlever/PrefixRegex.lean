import Mathlib

/-! The regexes that are answered as prefix filters. RE2 is a parameter: on expressions whose special characters are all
escaped, braces apart, it follows its documented syntax. Strings are lists of code points.
-/
namespace Qlever.PrefixRegexExpression
open List

section Source

def regexSpecialChars : List Char := "[]^$.|?*+()".toList

/-- The character and the regex in the text of the exception. -/
structure EscapeNotAllowed where
  c : Char
  regex : List Char
  deriving DecidableEq

/-- The loop from position `i` on. `none` means that there is a special character. -/
def escapePositions (regex : List Char) (i : Nat) (escaped : Bool) : List Char → Except EscapeNotAllowed (Option (List Nat))
  | [] => .ok (some [])
  | c::rest =>
    if c = '\\' then
      (escapePositions regex (i + 1) (!escaped) rest).map (Option.map fun positions => if escaped then positions else i::positions)
    else if !escaped && regexSpecialChars.contains c then .ok none
    else if escaped && !regexSpecialChars.contains c then .error ⟨c,regex⟩
    else escapePositions regex (i + 1) false rest

/-- The escaping backslashes are erased from the last one to the first one, and then the leading `^`. -/
def getPrefixRegex (regex : List Char) : Except EscapeNotAllowed (Option (List Char)) :=
  match regex with
  | '^'::rest =>
    (escapePositions regex 1 false rest).map (Option.map fun positions => (positions.foldr (fun position regex => regex.eraseIdx position) regex).tail)
  | _ => .ok none

end Source

section Syntax

/-- A character with its repetition operator as it is written, and how often it may occur. -/
structure Item where
  char : Char
  operator : List Char
  min : Nat
  max : Option Nat
  deriving DecidableEq

def value (digits : List Char) : Nat := digits.foldl (fun value digit => 10 * value + (digit.toNat - 48)) 0

def LeadingZero (digits : List Char) : Prop := digits.head? = some '0' ∧ digits ≠ ['0']

instance (digits : List Char) : Decidable (LeadingZero digits) := inferInstanceAs (Decidable (_ ∧ _))

/-- One of `{n}`, `{n,}` and `{n,m}` at the front, its bounds, and what is behind it. Other braces are literal. -/
def readOperator (text : List Char) : Option (List Char × Nat × Option Nat × List Char) :=
  match text with
  | '{'::text =>
    let (digits,behind) := text.span Char.isDigit
    let (comma,behind) := behind.span (· = ',')
    let (digits',behind) := behind.span Char.isDigit
    match behind with
    | '}'::rest =>
      if digits = [] ∨ LeadingZero digits ∨ LeadingZero digits' ∨ 1 < comma.length ∨ comma = [] ∧ digits' ≠ [] then none
      else some ('{'::(digits ++ comma ++ digits' ++ ['}']),value digits,
        if comma = [] then some (value digits) else if digits' = [] then none else some (value digits'),rest)
    | _ => none
  | _ => none

def readItem (char : Char) (text : List Char) : Item × List Char :=
  match readOperator text with
  | some (operator,min,max,rest) => (⟨char,operator,min,max⟩,rest)
  | none => (⟨char,[],1,some 1⟩,text)

/-- A lone backslash at the end is an error. Each item takes at least one character of the fuel. -/
def readItems : Nat → List Char → Option (List Item)
  | _,[] => some []
  | fuel + 1,'\\'::char::text => (readItems fuel (readItem char text).2).map ((readItem char text).1::·)
  | fuel + 1,char::text => if char = '\\' then none else (readItems fuel (readItem char text).2).map ((readItem char text).1::·)
  | 0,_ => none

/-- The words of a sequence of items. -/
def Spells : List Item → List Char → Prop
  | [],word => word = []
  | item::items,word => ∃ count rest,item.min ≤ count ∧ (∀ max ∈ item.max,count ≤ max) ∧ Spells items rest ∧ word = replicate count item.char ++ rest

/-- The first item is the anchor `^`. It does not anchor the match if it may occur zero times. -/
def PartialMatch (items : List Item) (s : List Char) : Prop :=
  ∃ anchor rest before word after,items = anchor::rest ∧ s = before ++ (word ++ after) ∧ Spells rest word ∧ (anchor.min ≠ 0 → before = [])

/-- RE2 accepts only what can be read, and then matches accordingly. -/
def Documented (re2 : List Char → Option (List Char → Prop)) : Prop :=
  ∀ regex p matched,getPrefixRegex regex = .ok (some p) → re2 regex = some matched →
    ∃ items,readItems regex.length regex = some items ∧ ∀ s,matched s ↔ PartialMatch items s

end Syntax

section Text

/-- The text of the items without the escaping backslashes. -/
def plainText (items : List Item) : List Char := items.flatMap (fun item => item.char::item.operator)

structure Item.WellFormed (item : Item) : Prop where
  ordinary : ∀ c ∈ item.operator,c ≠ '\\' ∧ c ∉ regexSpecialChars
  operator : item.operator = [] ∧ item.min = 1 ∧ item.max = some 1 ∨ '{' ∈ item.operator ∧ '}' ∈ item.operator

theorem readItem_spec (char : Char) (text : List Char) : (readItem char text).1.WellFormed ∧ (readItem char text).1.char = char ∧
    text = (readItem char text).1.operator ++ (readItem char text).2 := by
  have digit : ∀ c,c.isDigit = true → c ≠ '\\' ∧ c ∉ regexSpecialChars := by
    intro c isDigit
    have noDigit : ('\\'::regexSpecialChars).all (fun special => !special.isDigit) = true := by decide
    constructor
    · rintro rfl
      exact absurd isDigit (by decide)
    · intro member
      have notDigit := all_eq_true.mp noDigit c (mem_cons_of_mem _ member)
      simp [isDigit] at notDigit
  rw [readItem]
  split
  next rest isOperator =>
    unfold readOperator at isOperator
    split at isOperator
    next text =>
      simp only [List.span_eq_takeWhile_dropWhile] at isOperator
      split at isOperator
      next isBehind =>
        split at isOperator
        next => cases isOperator
        next =>
          cases isOperator
          have parts : text = text.takeWhile Char.isDigit ++ ((text.dropWhile Char.isDigit).takeWhile (· = ',') ++
              (((text.dropWhile Char.isDigit).dropWhile (· = ',')).takeWhile Char.isDigit ++ '}'::rest)) := by
            rw [← isBehind,takeWhile_append_dropWhile,takeWhile_append_dropWhile,takeWhile_append_dropWhile]
          refine ⟨⟨?_,Or.inr ⟨mem_cons_self,by simp⟩⟩,rfl,by simpa using parts⟩
          intro c member
          simp only [mem_cons,mem_append,not_mem_nil,or_false] at member
          rcases member with rfl | ((isDigit | isComma) | isDigit) | rfl
          · decide
          · exact digit c (mem_takeWhile_imp isDigit)
          · have isComma := mem_takeWhile_imp isComma
            rw [of_decide_eq_true isComma]
            decide
          · exact digit c (mem_takeWhile_imp isDigit)
          · decide
      next => cases isOperator
    next => cases isOperator
  next => exact ⟨⟨nofun,Or.inl ⟨rfl,rfl,rfl⟩⟩,rfl,rfl⟩

theorem escapePositions_ordinary (regex : List Char) (i : Nat) {ordinary : List Char} (areOrdinary : ∀ c ∈ ordinary,c ≠ '\\' ∧ c ∉ regexSpecialChars)
    (rest : List Char) : escapePositions regex i false (ordinary ++ rest) = escapePositions regex (i + ordinary.length) false rest := by
  induction ordinary generalizing i with
  | nil => rfl
  | cons c ordinary ih =>
    obtain ⟨notEscape,notSpecial⟩ := areOrdinary c mem_cons_self
    rw [cons_append,escapePositions,if_neg notEscape,if_neg (by simp [notSpecial]),if_neg (by simp),
      ih (i + 1) (forall_mem_cons.mp areOrdinary).2,length_cons,Nat.add_right_comm,Nat.add_assoc]

theorem escapePositions_literal {regex : List Char} {i : Nat} {char : Char} {text : List Char} {positions : List Nat} (notEscape : char ≠ '\\')
    (scanned : escapePositions regex i false (char::text) = .ok (some positions)) : escapePositions regex (i + 1) false text = .ok (some positions) := by
  rw [escapePositions,if_neg notEscape] at scanned
  split at scanned
  · cases scanned
  · rwa [if_neg (by simp)] at scanned

theorem map_eq_ok_some {α β : Type} {f : α → β} {result : Except EscapeNotAllowed (Option α)} {y : β} :
    result.map (Option.map f) = .ok (some y) ↔ ∃ x,result = .ok (some x) ∧ f x = y := by
  cases result with
  | error e => simp [Except.map]
  | ok result => simp [Except.map]

theorem escapePositions_escaped {regex : List Char} {i : Nat} {char : Char} {text : List Char} {positions : List Nat}
    (scanned : escapePositions regex i false ('\\'::char::text) = .ok (some positions)) :
    ∃ behind,positions = i::behind ∧ escapePositions regex (i + 2) false text = .ok (some behind) := by
  rw [escapePositions,if_pos rfl,map_eq_ok_some] at scanned
  obtain ⟨behind,isBehind,rfl⟩ := scanned
  refine ⟨behind,rfl,?_⟩
  rw [Bool.not_false,escapePositions] at isBehind
  split at isBehind
  · obtain ⟨_,isRest,rfl⟩ := map_eq_ok_some.mp isBehind
    exact isRest
  · rw [if_neg (by simp)] at isBehind
    split at isBehind
    · cases isBehind
    · exact isBehind

theorem readItem_scanned {regex : List Char} {i : Nat} (char : Char) {text : List Char} {positions : Option (List Nat)}
    (scanned : escapePositions regex i false text = .ok positions) :
    escapePositions regex (i + (readItem char text).1.operator.length) false (readItem char text).2 = .ok positions := by
  obtain ⟨wellFormed,-,isText⟩ := readItem_spec char text
  rwa [isText,escapePositions_ordinary regex i wellFormed.ordinary] at scanned

theorem eraseIdx_length (before : List Char) (c : Char) (after : List Char) : (before ++ c::after).eraseIdx before.length = before ++ after := by
  rw [eraseIdx_append_of_length_le (le_refl _),Nat.sub_self,eraseIdx_zero,tail_cons]

theorem readItems_plainText (regex : List Char) {fuel : Nat} {text : List Char} {items : List Item} (isRead : readItems fuel text = some items)
    {before : List Char} {positions : List Nat} (scanned : escapePositions regex before.length false text = .ok (some positions)) :
    positions.foldr (fun position regex => regex.eraseIdx position) (before ++ text) = before ++ plainText items ∧ ∀ item ∈ items,item.WellFormed := by
  fun_induction readItems fuel text generalizing items positions before with
  | case1 =>
    cases isRead
    cases scanned
    exact ⟨rfl,nofun⟩
  | case2 fuel char text ih =>
    obtain ⟨items,isRest,rfl⟩ := Option.map_eq_some_iff.mp isRead
    obtain ⟨wellFormed,isChar,isText⟩ := readItem_spec char text
    obtain ⟨positions,rfl,unescaped⟩ := escapePositions_escaped scanned
    have length : before.length + 2 = (before ++ ['\\',char]).length := by simp
    rw [length] at unescaped
    have scanned := readItem_scanned char unescaped
    rw [← length_append] at scanned
    obtain ⟨erased,areWellFormed⟩ := ih isRest scanned
    refine ⟨?_,forall_mem_cons.mpr ⟨wellFormed,areWellFormed⟩⟩
    have whole : before ++ '\\'::char::text = before ++ ['\\',char] ++ (readItem char text).1.operator ++ (readItem char text).2 := by
      simpa using isText
    rw [foldr_cons,whole,erased]
    simpa [plainText,isChar] using eraseIdx_length before '\\' _
  | case3 => cases isRead
  | case4 fuel char text _ notEscape ih =>
    obtain ⟨items,isRest,rfl⟩ := Option.map_eq_some_iff.mp isRead
    obtain ⟨wellFormed,isChar,isText⟩ := readItem_spec char text
    have literal := escapePositions_literal notEscape scanned
    have length : before.length + 1 = (before ++ [char]).length := by simp
    rw [length] at literal
    have scanned := readItem_scanned char literal
    rw [← length_append] at scanned
    obtain ⟨erased,areWellFormed⟩ := ih isRest scanned
    refine ⟨?_,forall_mem_cons.mpr ⟨wellFormed,areWellFormed⟩⟩
    have whole : before ++ char::text = before ++ [char] ++ (readItem char text).1.operator ++ (readItem char text).2 := by
      simpa using isText
    rw [whole,erased]
    simp [plainText,isChar]
  | case5 => cases isRead

end Text

section Words

def minWord (items : List Item) : List Char := items.flatMap (fun item => replicate item.min item.char)

theorem spells_minWord {items : List Item} {word : List Char} (isSpelled : Spells items word) :
    Spells items (minWord items) ∧ (minWord items).length ≤ word.length := by
  induction items generalizing word with
  | nil => exact ⟨rfl,Nat.zero_le _⟩
  | cons item items ih =>
    obtain ⟨count,rest,least,most,isRest,rfl⟩ := isSpelled
    obtain ⟨isMinimal,isShorter⟩ := ih isRest
    refine ⟨⟨item.min,_,le_refl _,fun max isMax => least.trans (most max isMax),isMinimal,rfl⟩,?_⟩
    simp only [minWord,flatMap_cons,length_append,length_replicate] at isShorter ⊢
    omega

theorem replicate_ne {n : Nat} {c : Char} {word : List Char} (opening : '{' ∈ word) (closing : '}' ∈ word) : replicate n c ≠ word := by
  rintro rfl
  exact absurd ((eq_of_mem_replicate opening).trans (eq_of_mem_replicate closing).symm) (by decide)

/-- The text contains each operator that the shortest word does not have. -/
theorem minWord_plainText {items : List Item} (wellFormed : ∀ item ∈ items,item.WellFormed) (before : List Char)
    (same : minWord items = before ++ plainText items) : before = [] ∧ ∀ item ∈ items,item.operator = [] := by
  induction items generalizing before with
  | nil => exact ⟨(append_eq_nil_iff.mp same.symm).1,nofun⟩
  | cons item items ih =>
    have ih := ih (forall_mem_cons.mp wellFormed).2
    simp only [minWord,plainText,flatMap_cons] at same ih
    rcases (wellFormed item mem_cons_self).operator with ⟨isPlain,min,-⟩ | ⟨opening,closing⟩
    · rw [isPlain,min] at same
      cases before with
      | nil => exact ⟨rfl,forall_mem_cons.mpr ⟨isPlain,(ih [] (cons.inj same).2).2⟩⟩
      | cons c before =>
        have shifted := (ih (before ++ [item.char]) (by simpa using (cons.inj same).2)).1
        simp at shifted
    · rw [← append_assoc] at same
      rcases append_eq_append_iff.mp same with ⟨more,isWord,isRest⟩ | ⟨more,isWord,-⟩
      · have isEmpty := (ih _ isRest).1
        rw [isEmpty,append_nil] at isWord
        exact absurd isWord.symm (replicate_ne (by simp [opening]) (by simp [closing]))
      · exact absurd isWord (replicate_ne (by simp [opening]) (by simp [closing]))

theorem spells_iff_plainText {items : List Item} (wellFormed : ∀ item ∈ items,item.WellFormed) (noOperator : ∀ item ∈ items,item.operator = [])
    (word : List Char) : Spells items word ↔ word = plainText items := by
  induction items generalizing word with
  | nil => rfl
  | cons item items ih =>
    have ih := ih (forall_mem_cons.mp wellFormed).2 (forall_mem_cons.mp noOperator).2
    have isPlain := noOperator item mem_cons_self
    rcases (wellFormed item mem_cons_self).operator with ⟨-,min,max⟩ | ⟨opening,-⟩
    · have once : ∀ count : Nat,(1 ≤ count ∧ ∀ max ∈ some 1,count ≤ max) ↔ count = 1 := by
        intro count
        simp
        omega
      simp only [Spells,min,max,ih,plainText,flatMap_cons,isPlain]
      simp only [← and_assoc,once]
      simp
    · rw [isPlain] at opening
      cases opening

end Words

theorem prefixRegex_sound_iff {re2 : List Char → Option (List Char → Prop)} (documented : Documented re2) {regex p : List Char}
    {matched : List Char → Prop} (isPrefix : getPrefixRegex regex = .ok (some p)) (accepted : re2 regex = some matched) :
    (∀ s,matched s ↔ p <+: s) ↔ ∀ items,readItems regex.length regex = some items → ∀ item ∈ items,item.operator = [] := by
  obtain ⟨items,isRead,isMatch⟩ := documented regex p matched isPrefix accepted
  have parts : ∃ anchor rest,items = anchor::rest ∧ p = anchor.operator ++ plainText rest ∧ ∀ item ∈ anchor::rest,item.WellFormed := by
    unfold getPrefixRegex at isPrefix
    split at isPrefix
    next text =>
      obtain ⟨positions,scanned,rfl⟩ := map_eq_ok_some.mp isPrefix
      obtain ⟨wellFormed,-,isText⟩ := readItem_spec '^' text
      obtain ⟨items,isRest,rfl⟩ := Option.map_eq_some_iff.mp isRead
      have scanned := readItem_scanned '^' scanned
      have length : 1 + (readItem '^' text).1.operator.length = ('^'::(readItem '^' text).1.operator).length := Nat.add_comm _ _
      rw [length] at scanned
      obtain ⟨erased,areWellFormed⟩ := readItems_plainText _ isRest scanned
      rw [cons_append,← isText] at erased
      exact ⟨_,items,rfl,by rw [erased,cons_append,tail_cons],forall_mem_cons.mpr ⟨wellFormed,areWellFormed⟩⟩
    next => cases isPrefix
  obtain ⟨anchor,rest,rfl,rfl,wellFormed⟩ := parts
  simp only [isMatch,isRead,Option.some.injEq,forall_eq']
  constructor
  · intro sound
    obtain ⟨_,_,before,word,after,isItems,isText,isSpelled,-⟩ := (sound (anchor.operator ++ plainText rest)).mpr (prefix_refl _)
    cases isItems
    obtain ⟨isMinimal,isShorter⟩ := spells_minWord isSpelled
    have isLonger := (sound (minWord rest)).mp ⟨anchor,rest,[],_,[],rfl,(append_nil _).symm,isMinimal,fun _ => rfl⟩
    have same := (isLonger.eq_of_length_le (by rw [isText,length_append,length_append]; omega)).symm
    exact forall_mem_cons.mpr (minWord_plainText (fun item member => wellFormed item (mem_cons_of_mem _ member)) _ same)
  · intro noOperator s
    have isWord := spells_iff_plainText (fun item member => wellFormed item (mem_cons_of_mem _ member)) (fun item member => noOperator item (mem_cons_of_mem _ member))
    have anchored : anchor.min ≠ 0 := by
      rcases (wellFormed anchor mem_cons_self).operator with ⟨-,min,-⟩ | ⟨opening,-⟩
      · omega
      · rw [noOperator anchor mem_cons_self] at opening
        cases opening
    rw [noOperator anchor mem_cons_self,nil_append]
    constructor
    · rintro ⟨_,_,before,word,after,isItems,rfl,isSpelled,isStart⟩
      cases isItems
      rw [isStart anchored,(isWord word).mp isSpelled]
      exact prefix_append _ _
    · rintro ⟨after,rfl⟩
      exact ⟨anchor,rest,[],_,after,rfl,rfl,(isWord _).mpr rfl,fun _ => rfl⟩

/-- RE2 on texts without special characters. -/
def reference (regex : List Char) : Option (List Char → Prop) := (readItems regex.length regex).map PartialMatch

theorem documented_reference : Documented reference := by
  intro regex p matched _ accepted
  obtain ⟨items,isRead,rfl⟩ := Option.map_eq_some_iff.mp accepted
  exact ⟨items,isRead,fun _ => Iff.rfl⟩

/-- The dot is escaped. -/
theorem prefixRegex_sound_iff_dot : getPrefixRegex "^a\\.".toList = .ok (some "a.".toList) ∧
    ∀ s,PartialMatch [⟨'^',[],1,some 1⟩,⟨'a',[],1,some 1⟩,⟨'.',[],1,some 1⟩] s ↔ "a.".toList <+: s := by
  have isPrefix : getPrefixRegex "^a\\.".toList = .ok (some "a.".toList) := by decide
  exact ⟨isPrefix,(prefixRegex_sound_iff documented_reference isPrefix rfl).mpr (by decide)⟩

theorem prefixRegex_not_sound : ∃ re2,Documented re2 ∧ getPrefixRegex "^a{2}".toList = .ok (some "a{2}".toList) ∧
    ∃ matched,re2 "^a{2}".toList = some matched ∧ matched "aa".toList ∧ ¬"a{2}".toList <+: "aa".toList :=
  ⟨reference,documented_reference,by decide,_,rfl,
    ⟨⟨'^',[],1,some 1⟩,[⟨'a',"{2}".toList,2,some 2⟩],[],"aa".toList,[],by decide,rfl,⟨2,[],le_refl _,by decide,rfl,by decide⟩,fun _ => rfl⟩,by decide⟩

end Qlever.PrefixRegexExpression
