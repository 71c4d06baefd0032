import Qlever.VocabularyInternalExternal

/-! The escape sequences of literals, `RdfEscaping.cpp`. A normalized literal has no escapes and ends at its last quote, and in Turtle syntax each
special byte is escaped.
-/
namespace Qlever.RdfEscaping
open List

def quote : UInt8 := 34

def apostrophe : UInt8 := 39

def backslash : UInt8 := 92

def newline : UInt8 := 10

def carriageReturn : UInt8 := 13

inductive EscapeError where
  | contractCheck
  | stringEscapesNotAllowed
  | numericEscapesNotAllowed
  | unsupportedEscapeSequence
  | undefinedBehavior
  deriving DecidableEq, Repr

section Unescape
variable (hexadecimalCharactersToUtf8 : ByteString → ByteString) (acceptOnlyNumericEscapes acceptOnlyBackslashAndNewline : Bool)

def pushNewlineOrBackslash (newlineOrBackslash : UInt8) : Except EscapeError ByteString :=
  if !acceptOnlyNumericEscapes || acceptOnlyBackslashAndNewline then .ok [newlineOrBackslash] else .error .stringEscapesNotAllowed

def pushOtherStringEscape (otherStringEscape : UInt8) : Except EscapeError ByteString :=
  if !acceptOnlyNumericEscapes && !acceptOnlyBackslashAndNewline then .ok [otherStringEscape] else .error .stringEscapesNotAllowed

def pushNumericEscape (input : ByteString) (length : Nat) : Except EscapeError ByteString :=
  if !acceptOnlyBackslashAndNewline then
    if length ≤ input.length then .ok (hexadecimalCharactersToUtf8 (input.take length)) else .error .contractCheck
  else .error .numericEscapesNotAllowed

def unescapeCharacter (character : UInt8) (input : ByteString) : Except EscapeError (ByteString × Nat) :=
  let other (otherStringEscape : UInt8) :=
    (pushOtherStringEscape acceptOnlyNumericEscapes acceptOnlyBackslashAndNewline otherStringEscape).map (fun written => (written,0))
  let basic (newlineOrBackslash : UInt8) :=
    (pushNewlineOrBackslash acceptOnlyNumericEscapes acceptOnlyBackslashAndNewline newlineOrBackslash).map (fun written => (written,0))
  let numeric (length : Nat) :=
    (pushNumericEscape hexadecimalCharactersToUtf8 acceptOnlyBackslashAndNewline input length).map (fun written => (written,length))
  if character = 't'.toUInt8 then other 9
  else if character = 'n'.toUInt8 then basic newline
  else if character = 'r'.toUInt8 then other carriageReturn
  else if character = 'b'.toUInt8 then other 8
  else if character = 'f'.toUInt8 then other 12
  else if character = quote then other quote
  else if character = apostrophe then other apostrophe
  else if character = backslash then basic backslash
  else if character = 'u'.toUInt8 then numeric 4
  else if character = 'U'.toUInt8 then numeric 8
  else .error .unsupportedEscapeSequence

def unescapeStringAndNumericEscapes (input : ByteString) : Except EscapeError ByteString :=
  match _found : input.dropWhile (fun c => c ≠ backslash) with
  | [] => .ok input
  | [_] => .error .contractCheck
  | _ :: character :: behind => do
    let (written,numCharacters) ←
      unescapeCharacter hexadecimalCharactersToUtf8 acceptOnlyNumericEscapes acceptOnlyBackslashAndNewline character behind
    let result ← unescapeStringAndNumericEscapes (behind.drop numCharacters)
    return input.takeWhile (fun c => c ≠ backslash) ++ written ++ result
termination_by input.length
decreasing_by
  have shorter := (dropWhile_suffix (fun c : UInt8 => decide (c ≠ backslash)) : _ <:+ input).length_le
  rw [_found,length_cons,length_cons] at shorter
  rw [length_drop]
  omega

def unescapeNewlinesAndBackslashes (literal : ByteString) : Except EscapeError ByteString :=
  unescapeStringAndNumericEscapes hexadecimalCharactersToUtf8 false true literal

def literalUnescape (input : ByteString) : Except EscapeError ByteString :=
  unescapeStringAndNumericEscapes hexadecimalCharactersToUtf8 false false input

def removeQuotes (length : Nat) (input : ByteString) : Except EscapeError ByteString :=
  if 2 * length ≤ input.length then .ok ((input.drop length).take (input.length - 2 * length)) else .error .undefinedBehavior

def literalUnescapeWithQuotesRemoved (input : ByteString) : Except EscapeError ByteString :=
  if [quote,quote,quote] <+: input ∨ [apostrophe,apostrophe,apostrophe] <+: input then
    if input.take 3 <:+ input then removeQuotes 3 input >>= literalUnescape hexadecimalCharactersToUtf8 else .error .contractCheck
  else
    if ([quote] <+: input ∨ [apostrophe] <+: input) ∧ input.take 1 <:+ input then
      removeQuotes 1 input >>= literalUnescape hexadecimalCharactersToUtf8
    else .error .contractCheck

def normalizeRDFLiteral (origLiteral : ByteString) : Except EscapeError ByteString := do
  return [quote] ++ (← literalUnescapeWithQuotesRemoved hexadecimalCharactersToUtf8 origLiteral) ++ [quote]

def normalizeLiteralWithQuotes (input : ByteString) : Except EscapeError ByteString :=
  literalUnescapeWithQuotesRemoved hexadecimalCharactersToUtf8 input

end Unescape

section Escape

def replacement (replacements : List (UInt8 × ByteString)) (c : UInt8) : ByteString := (replacements.lookup c).getD [c]

/-- `absl::StrReplaceAll` when each string that is replaced is one character. -/
def strReplaceAll (replacements : List (UInt8 × ByteString)) (s : ByteString) : ByteString := s.flatMap (replacement replacements)

def newlineAndBackslashEscapes : List (UInt8 × ByteString) := [(newline,[backslash,'n'.toUInt8]),(backslash,[backslash,backslash])]

def escapeNewlinesAndBackslashes (literal : ByteString) : ByteString :=
  strReplaceAll newlineAndBackslashEscapes literal

/-- The first position from `pos` on. -/
def find (s : ByteString) (c : UInt8) (pos : Nat) : Option Nat := ((s.drop pos).findIdx? (fun other => other = c)).map (pos + ·)

def rfind (s : ByteString) (c : UInt8) : Option Nat := (s.reverse.findIdx? (fun other => other = c)).map (s.length - 1 - ·)

def literalEscapes : List (UInt8 × ByteString) :=
  [(backslash,[backslash,backslash]),(newline,[backslash,'n'.toUInt8]),(carriageReturn,[backslash,'r'.toUInt8]),(quote,[backslash,quote])]

def validRDFLiteralFromNormalized (normLiteral : ByteString) : Except EscapeError ByteString :=
  if ¬ [quote] <+: normLiteral then .error .contractCheck
  else
    match find normLiteral quote 1,rfind normLiteral quote with
    | some posSecondQuote,some posLastQuote =>
      if posSecondQuote = posLastQuote ∧ ¬ ∃ c ∈ normLiteral,c = backslash ∨ c = newline ∨ c = carriageReturn then .ok normLiteral
      else
        let normalizedContent := (normLiteral.drop 1).take (posLastQuote - 1)
        let content := strReplaceAll literalEscapes normalizedContent
        .ok ([quote] ++ content ++ normLiteral.drop posLastQuote)
    | _,_ => .error .contractCheck

end Escape

section Inverse
variable {hexadecimalCharactersToUtf8 : ByteString → ByteString} {acceptOnlyNumericEscapes acceptOnlyBackslashAndNewline : Bool}

theorem unescape_eq (input : ByteString) :
    unescapeStringAndNumericEscapes hexadecimalCharactersToUtf8 acceptOnlyNumericEscapes acceptOnlyBackslashAndNewline input =
      match input.dropWhile (fun c => c ≠ backslash) with
      | [] => .ok input
      | [_] => .error .contractCheck
      | _ :: character :: behind => do
        let (written,numCharacters) ←
          unescapeCharacter hexadecimalCharactersToUtf8 acceptOnlyNumericEscapes acceptOnlyBackslashAndNewline character behind
        let result ← unescapeStringAndNumericEscapes hexadecimalCharactersToUtf8 acceptOnlyNumericEscapes acceptOnlyBackslashAndNewline
          (behind.drop numCharacters)
        return input.takeWhile (fun c => c ≠ backslash) ++ written ++ result := by
  rw [unescapeStringAndNumericEscapes]
  split
  next found => rw [found]
  next found => rw [found]
  next found => rw [found]

theorem unescape_plain {c : UInt8} (plain : c ≠ backslash) {input result : ByteString}
    (unescaped : unescapeStringAndNumericEscapes hexadecimalCharactersToUtf8 acceptOnlyNumericEscapes acceptOnlyBackslashAndNewline input = .ok result) :
    unescapeStringAndNumericEscapes hexadecimalCharactersToUtf8 acceptOnlyNumericEscapes acceptOnlyBackslashAndNewline (c :: input) =
      .ok (c :: result) := by
  have copied : (c :: input).takeWhile (fun c => decide (c ≠ backslash)) = c :: input.takeWhile (fun c => decide (c ≠ backslash)) :=
    takeWhile_cons_of_pos (decide_eq_true plain)
  have rest : (c :: input).dropWhile (fun c => decide (c ≠ backslash)) = input.dropWhile (fun c => decide (c ≠ backslash)) :=
    dropWhile_cons_of_pos (decide_eq_true plain)
  rw [unescape_eq] at unescaped
  rw [unescape_eq,rest,copied]
  revert unescaped
  match input.dropWhile (fun c => decide (c ≠ backslash)) with
  | [] =>
    intro unescaped
    cases unescaped
    rfl
  | [_] =>
    intro unescaped
    cases unescaped
  | _ :: character :: behind =>
    simp only
    cases unescapeCharacter hexadecimalCharactersToUtf8 acceptOnlyNumericEscapes acceptOnlyBackslashAndNewline character behind with
    | error e =>
      intro unescaped
      cases unescaped
    | ok pushed =>
      intro unescaped
      obtain ⟨written,numCharacters⟩ := pushed
      change (unescapeStringAndNumericEscapes _ _ _ _ >>= _) = _ at unescaped
      change (unescapeStringAndNumericEscapes _ _ _ _ >>= _) = _
      revert unescaped
      cases unescapeStringAndNumericEscapes hexadecimalCharactersToUtf8 acceptOnlyNumericEscapes acceptOnlyBackslashAndNewline
        (behind.drop numCharacters) with
      | error e =>
        intro unescaped
        cases unescaped
      | ok others =>
        intro unescaped
        cases unescaped
        rfl

theorem unescape_escape {character c : UInt8} {input result : ByteString}
    (escape : unescapeCharacter hexadecimalCharactersToUtf8 acceptOnlyNumericEscapes acceptOnlyBackslashAndNewline character input = .ok ([c],0))
    (unescaped : unescapeStringAndNumericEscapes hexadecimalCharactersToUtf8 acceptOnlyNumericEscapes acceptOnlyBackslashAndNewline input = .ok result) :
    unescapeStringAndNumericEscapes hexadecimalCharactersToUtf8 acceptOnlyNumericEscapes acceptOnlyBackslashAndNewline
      (backslash :: character :: input) = .ok (c :: result) := by
  have copied : (backslash :: character :: input).takeWhile (fun c => decide (c ≠ backslash)) = [] :=
    takeWhile_cons_of_neg (by simp)
  have rest : (backslash :: character :: input).dropWhile (fun c => decide (c ≠ backslash)) = backslash :: character :: input :=
    dropWhile_cons_of_neg (by simp)
  rw [unescape_eq,rest,copied]
  simp only
  rw [escape]
  change (unescapeStringAndNumericEscapes _ _ _ input >>= _) = _
  rw [unescaped]
  rfl

def Escaping (acceptOnlyNumericEscapes acceptOnlyBackslashAndNewline : Bool) (replacements : List (UInt8 × ByteString)) : Prop :=
  backslash ∈ replacements.map Prod.fst ∧ ∀ entry ∈ replacements,∃ character,entry.2 = [backslash,character] ∧ ∀ hexadecimalCharactersToUtf8 input,
    unescapeCharacter hexadecimalCharactersToUtf8 acceptOnlyNumericEscapes acceptOnlyBackslashAndNewline character input = .ok ([entry.1],0)

section
variable {replacements : List (UInt8 × ByteString)}

theorem replacement_of_mem {c : UInt8} (isKey : c ∈ replacements.map Prod.fst) :
    (c,replacement replacements c) ∈ replacements := by
  cases found : replacements.lookup c with
  | none =>
    obtain ⟨entry,isEntry,same⟩ := List.mem_map.mp isKey
    have different := lookup_eq_none_iff.mp found entry isEntry
    simp [same] at different
  | some value =>
    obtain ⟨before,after,joined,-⟩ := lookup_eq_some_iff.mp found
    rw [replacement,found,joined]
    exact mem_append_right before mem_cons_self

theorem replacement_of_not_mem {c : UInt8} (noKey : c ∉ replacements.map Prod.fst) :
    replacement replacements c = [c] := by
  have notFound : replacements.lookup c = none := by
    rw [lookup_eq_none_iff]
    intro entry isEntry
    have different : ¬ c = entry.1 := fun same => noKey (same ▸ mem_map_of_mem isEntry)
    simpa using different
  rw [replacement,notFound]
  rfl

theorem unescape_strReplaceAll (escaping : Escaping acceptOnlyNumericEscapes acceptOnlyBackslashAndNewline replacements) (content : ByteString) :
    unescapeStringAndNumericEscapes hexadecimalCharactersToUtf8 acceptOnlyNumericEscapes acceptOnlyBackslashAndNewline
      (strReplaceAll replacements content) = .ok content := by
  induction content with
  | nil =>
    rw [strReplaceAll,flatMap_nil,unescape_eq]
    rfl
  | cons c content ih =>
    rw [strReplaceAll,flatMap_cons]
    by_cases isKey : c ∈ replacements.map Prod.fst
    · obtain ⟨character,escaped,back⟩ := escaping.2 _ (replacement_of_mem isKey)
      simp only at escaped
      rw [escaped]
      exact unescape_escape (back _ _) ih
    · rw [replacement_of_not_mem isKey]
      have plain : c ≠ backslash := fun same => isKey (same ▸ escaping.1)
      exact unescape_plain plain ih

end

theorem escaping_newlineAndBackslashEscapes : Escaping false true newlineAndBackslashEscapes := by
  refine ⟨by decide,?_⟩
  rw [newlineAndBackslashEscapes,forall_mem_cons,forall_mem_singleton]
  exact ⟨⟨_,rfl,fun _ _ => rfl⟩,⟨_,rfl,fun _ _ => rfl⟩⟩

theorem escaping_literalEscapes : Escaping false false literalEscapes := by
  refine ⟨by decide,?_⟩
  simp only [literalEscapes,forall_mem_cons]
  exact ⟨⟨_,rfl,fun _ _ => rfl⟩,⟨_,rfl,fun _ _ => rfl⟩,⟨_,rfl,fun _ _ => rfl⟩,⟨_,rfl,fun _ _ => rfl⟩,fun _ isEntry => absurd isEntry not_mem_nil⟩

theorem unescapeNewlinesAndBackslashes_escape (literal : ByteString) :
    unescapeNewlinesAndBackslashes hexadecimalCharactersToUtf8 (escapeNewlinesAndBackslashes literal) = .ok literal :=
  unescape_strReplaceAll escaping_newlineAndBackslashEscapes literal

end Inverse

section Turtle
variable {hexadecimalCharactersToUtf8 : ByteString → ByteString}

inductive TurtleBody : ByteString → Prop where
  | nil : TurtleBody []
  | plain {c : UInt8} {body : ByteString} (notSpecial : c ∉ [quote,backslash,newline,carriageReturn]) (rest : TurtleBody body) : TurtleBody (c :: body)
  | escape {character : UInt8} {body : ByteString}
      (isEscape : character ∈ ['t'.toUInt8,'b'.toUInt8,'n'.toUInt8,'r'.toUInt8,'f'.toUInt8,quote,apostrophe,backslash])
      (rest : TurtleBody body) : TurtleBody (backslash :: character :: body)

variable {body : ByteString}

theorem TurtleBody.noNewline (turtle : TurtleBody body) : newline ∉ body ∧ carriageReturn ∉ body := by
  induction turtle with
  | nil => exact ⟨not_mem_nil,not_mem_nil⟩
  | plain notSpecial rest ih =>
    simp only [mem_cons,not_mem_nil,not_or] at notSpecial ⊢
    exact ⟨⟨fun same => notSpecial.2.2.1 same.symm,ih.1⟩,⟨fun same => notSpecial.2.2.2.1 same.symm,ih.2⟩⟩
  | @escape character body isEscape rest ih =>
    have other : character ≠ newline ∧ character ≠ carriageReturn := by
      simp only [mem_cons,not_mem_nil,or_false] at isEscape
      rcases isEscape with rfl | rfl | rfl | rfl | rfl | rfl | rfl | rfl <;> decide
    simp only [mem_cons,not_or]
    exact ⟨⟨by decide,fun same => other.1 same.symm,ih.1⟩,⟨by decide,fun same => other.2 same.symm,ih.2⟩⟩

variable (content : ByteString)

theorem turtleBody_strReplaceAll : TurtleBody (strReplaceAll literalEscapes content) := by
  induction content with
  | nil => exact .nil
  | cons c content ih =>
    rw [strReplaceAll,flatMap_cons]
    by_cases isKey : c ∈ literalEscapes.map Prod.fst
    · have escaped := replacement_of_mem isKey
      simp only [literalEscapes,mem_cons,Prod.mk.injEq,not_mem_nil,or_false] at escaped
      rcases escaped with ⟨-,escaped⟩ | ⟨-,escaped⟩ | ⟨-,escaped⟩ | ⟨-,escaped⟩
      all_goals
        change replacement literalEscapes c = _ at escaped
        rw [escaped]
        exact .escape (by decide) ih
    · rw [replacement_of_not_mem isKey]
      refine .plain ?_ ih
      intro isSpecial
      apply isKey
      revert isSpecial
      simp only [literalEscapes,map_cons,map_nil,mem_cons,not_mem_nil,or_false]
      tauto

theorem findIdx?_middle {before after : ByteString} (notBefore : quote ∉ before) :
    (before ++ quote :: after).findIdx? (fun other => other = quote) = some before.length := by
  have none : before.findIdx? (fun other => decide (other = quote)) = none := by
    rw [List.findIdx?_eq_none_iff]
    intro c isBefore
    exact decide_eq_false (fun same => notBefore (same ▸ isBefore))
  rw [List.findIdx?_append,none]
  simp [List.findIdx?_cons]

variable {suffix : ByteString}

theorem rfind_literal (noQuotes : quote ∉ suffix) :
    rfind (quote :: (content ++ quote :: suffix)) quote = some (content.length + 1) := by
  have reversed : (quote :: (content ++ quote :: suffix)).reverse = suffix.reverse ++ quote :: (quote :: content).reverse := by simp
  rw [rfind,reversed,findIdx?_middle (by rwa [mem_reverse]),Option.map_some]
  simp only [length_cons,length_append,length_reverse]
  congr 1
  omega

theorem find_literal (suffix : ByteString) : ∃ posSecondQuote,find (quote :: (content ++ quote :: suffix)) quote 1 = some posSecondQuote ∧
    (posSecondQuote = content.length + 1 → quote ∉ content) := by
  by_cases inner : quote ∈ content
  · obtain ⟨before,after,rfl,notBefore⟩ := eq_append_cons_of_mem inner
    refine ⟨1 + before.length,?_,?_⟩
    · rw [find,drop_one,tail_cons,append_assoc,cons_append,findIdx?_middle notBefore,Option.map_some]
    · intro last
      rw [length_append,length_cons] at last
      omega
  · refine ⟨1 + content.length,?_,fun _ => inner⟩
    rw [find,drop_one,tail_cons,findIdx?_middle inner,Option.map_some]

theorem strReplaceAll_eq_self {content : ByteString} (plain : ∀ c ∈ content,c ∉ literalEscapes.map Prod.fst) :
    strReplaceAll literalEscapes content = content := by
  induction content with
  | nil => rfl
  | cons c content ih =>
    obtain ⟨noKey,plainRest⟩ := forall_mem_cons.mp plain
    rw [strReplaceAll,flatMap_cons,replacement_of_not_mem noKey,← strReplaceAll,ih plainRest]
    rfl

theorem validRDFLiteralFromNormalized_eq (noQuotes : quote ∉ suffix) :
    validRDFLiteralFromNormalized (quote :: (content ++ quote :: suffix)) =
      .ok (quote :: (strReplaceAll literalEscapes content ++ quote :: suffix)) := by
  obtain ⟨posSecondQuote,found,onlyQuotes⟩ := find_literal content suffix
  rw [validRDFLiteralFromNormalized,if_neg (by simp),found,rfind_literal content noQuotes]
  simp only
  split
  next fast =>
    -- there is nothing to escape
    have plain : ∀ c ∈ content,c ∉ literalEscapes.map Prod.fst := by
      intro c isContent isKey
      simp only [literalEscapes,map_cons,map_nil,mem_cons,not_mem_nil,or_false] at isKey
      have inside : c ∈ quote :: (content ++ quote :: suffix) := mem_cons_of_mem _ (mem_append_left _ isContent)
      rcases isKey with special | special | special | special
      · exact fast.2 ⟨c,inside,.inl special⟩
      · exact fast.2 ⟨c,inside,.inr (.inl special)⟩
      · exact fast.2 ⟨c,inside,.inr (.inr special)⟩
      · exact onlyQuotes fast.1 (special ▸ isContent)
    rw [strReplaceAll_eq_self plain]
  next => simp

theorem TurtleBody.noQuoteFirst {c : UInt8} (turtle : TurtleBody (c :: body)) : c ≠ quote := by
  cases turtle with
  | plain notSpecial rest => exact fun same => notSpecial (same ▸ mem_cons_self)
  | escape isEscape rest => decide

theorem literalUnescapeWithQuotesRemoved_turtle (turtle : TurtleBody body) :
    literalUnescapeWithQuotesRemoved hexadecimalCharactersToUtf8 (quote :: (body ++ [quote])) = literalUnescape hexadecimalCharactersToUtf8 body := by
  have notTriple : ¬ ([quote,quote,quote] <+: quote :: (body ++ [quote]) ∨ [apostrophe,apostrophe,apostrophe] <+: quote :: (body ++ [quote])) := by
    rintro (⟨rest,same⟩ | ⟨rest,same⟩)
    · cases body with
      | nil => cases same
      | cons c body => exact turtle.noQuoteFirst (List.cons.inj (List.cons.inj same).2).1.symm
    · exact absurd (List.cons.inj same).1 (by decide)
  have single : ([quote] <+: quote :: (body ++ [quote]) ∨ [apostrophe] <+: quote :: (body ++ [quote])) ∧
      (quote :: (body ++ [quote])).take 1 <:+ quote :: (body ++ [quote]) := ⟨.inl ⟨_,rfl⟩,⟨quote :: body,rfl⟩⟩
  have removed : removeQuotes 1 (quote :: (body ++ [quote])) = .ok body := by
    rw [removeQuotes,if_pos]
    · simp
    · simp only [length_cons,length_append,length_nil]
      omega
  rw [literalUnescapeWithQuotesRemoved,if_neg notTriple,if_pos single,removed]
  rfl

/-- A literal is written in Turtle syntax and read back, and lines of a file are read back. -/
theorem normalizeRDFLiteral_validRDFLiteralFromNormalized (hexadecimalCharactersToUtf8 : ByteString → ByteString) (content : ByteString)
    {suffix : ByteString} (plainSuffix : ∀ c ∈ suffix,c ≠ quote ∧ c ≠ backslash) :
    (∃ body,validRDFLiteralFromNormalized (quote :: (content ++ quote :: suffix)) = .ok (quote :: (body ++ quote :: suffix)) ∧
      TurtleBody body ∧ newline ∉ body ∧ carriageReturn ∉ body ∧
      normalizeRDFLiteral hexadecimalCharactersToUtf8 (quote :: (body ++ [quote])) = .ok (quote :: (content ++ [quote])) ∧
      normalizeLiteralWithQuotes hexadecimalCharactersToUtf8 (quote :: (body ++ [quote])) = .ok content) ∧
    unescapeNewlinesAndBackslashes hexadecimalCharactersToUtf8 (escapeNewlinesAndBackslashes content) = .ok content := by
  have turtle := turtleBody_strReplaceAll content
  have noQuotes : quote ∉ suffix := fun isQuote => (plainSuffix quote isQuote).1 rfl
  have back : literalUnescapeWithQuotesRemoved hexadecimalCharactersToUtf8 (quote :: (strReplaceAll literalEscapes content ++ [quote])) = .ok content := by
    rw [literalUnescapeWithQuotesRemoved_turtle turtle]
    exact unescape_strReplaceAll escaping_literalEscapes content
  refine ⟨⟨strReplaceAll literalEscapes content,validRDFLiteralFromNormalized_eq content noQuotes,turtle,turtle.noNewline.1,turtle.noNewline.2,?_,back⟩,
    unescapeNewlinesAndBackslashes_escape content⟩
  rw [normalizeRDFLiteral,back]
  rfl

/-- The content is a quote, a backslash and an n, with a language tag. -/
theorem normalizeRDFLiteral_validRDFLiteralFromNormalized_tag :
    (∃ body,validRDFLiteralFromNormalized (quote :: ([quote,backslash,110] ++ quote :: [64,101,110])) = .ok (quote :: (body ++ quote :: [64,101,110])) ∧
      TurtleBody body ∧ newline ∉ body ∧ carriageReturn ∉ body ∧
      normalizeRDFLiteral id (quote :: (body ++ [quote])) = .ok (quote :: ([quote,backslash,110] ++ [quote])) ∧
      normalizeLiteralWithQuotes id (quote :: (body ++ [quote])) = .ok [quote,backslash,110]) ∧
    unescapeNewlinesAndBackslashes id (escapeNewlinesAndBackslashes [quote,backslash,110]) = .ok [quote,backslash,110] :=
  normalizeRDFLiteral_validRDFLiteralFromNormalized id [quote,backslash,110] (by simp [quote,backslash])

end Turtle

end Qlever.RdfEscaping
