import Qlever.RdfEscaping

/-! The class `Literal`: a string with the content in quotes and a suffix, and the position of the suffix. -/
namespace Qlever.TripleComponent
open List RdfEscaping

def langAt : UInt8 := 64

def hat : UInt8 := 94

def lessThan : UInt8 := 60

def greaterThan : UInt8 := 62

/-- An IRI by what is between its angle brackets. -/
structure Iri where
  content : ByteString
  deriving DecidableEq

def Iri.toStringRepresentation (iri : Iri) : ByteString := lessThan :: (iri.content ++ [greaterThan])

/-- A `std::string` has less than `2 ^ 63` characters. -/
structure Literal where
  content_ : ByteString
  beginOfSuffix_ : Nat
  fits : content_.length < 2 ^ 63
  deriving DecidableEq

inductive Descriptor
  | languageTag (languageTag : ByteString)
  | datatype (datatype : Iri)

def tagSuffix (languageTag : ByteString) : ByteString := if [langAt] <+: languageTag then languageTag else langAt :: languageTag

section StdString

def shiftLeft (s : ByteString) (first last n : Nat) : ByteString :=
  if n = 0 ∨ last - first ≤ n then s else s.take first ++ ((s.drop (first + n)).take (last - first - n) ++ s.drop (last - n))

def erase (s : ByteString) (position count : Nat) : ByteString := s.take position ++ s.drop (position + count)

def insert (s : ByteString) (position : Nat) (inserted : ByteString) : ByteString := s.take position ++ (inserted ++ s.drop position)

/-- The difference of two `size_t`. -/
def sizeSub (a b : Nat) : Nat := if b ≤ a then a - b else a + 2 ^ 64 - b

theorem sizeSub_of_le {a b : Nat} (atMost : b ≤ a) : sizeSub a b = a - b := if_pos atMost

end StdString

namespace Literal
variable (literal other : Literal)

/-- A string that is too long is a `std::length_error`. -/
def ofString (content : ByteString) (beginOfSuffix : Nat) : Option Literal :=
  if fits : content.length < 2 ^ 63 then some ⟨content,beginOfSuffix,fits⟩ else none

/-- The constructor with its checks. -/
def make (content : ByteString) (beginOfSuffix : Nat) : Option Literal :=
  if [quote] <+: content ∧ 2 ≤ beginOfSuffix ∧ content[beginOfSuffix - 1]? = some quote ∧
      (beginOfSuffix = content.length ∨ content[beginOfSuffix]? = some langAt ∨ content[beginOfSuffix]? = some hat) then ofString content beginOfSuffix
  else none

def getSuffix : ByteString := literal.content_.drop literal.beginOfSuffix_

def hasLanguageTag : Bool := literal.getSuffix.head? = some langAt

def hasDatatype : Bool := literal.getSuffix.head? = some hat

def getContent : ByteString := (literal.content_.drop 1).take (literal.beginOfSuffix_ - 2)

def getDatatype : Option ByteString := if literal.hasDatatype then some (literal.content_.drop (literal.beginOfSuffix_ + 3)).dropLast else none

def getLanguageTag : Option ByteString := if literal.hasLanguageTag then some (literal.content_.drop (literal.beginOfSuffix_ + 1)) else none

def addLanguageTag (languageTag : ByteString) : Option Literal :=
  if literal.hasDatatype || literal.hasLanguageTag then none
  else ofString (literal.content_ ++ tagSuffix languageTag) literal.beginOfSuffix_

def addDatatype (datatype : Iri) : Option Literal :=
  if literal.hasDatatype || literal.hasLanguageTag then none
  else ofString (literal.content_ ++ hat :: hat :: datatype.toStringRepresentation) literal.beginOfSuffix_

def literalWithNormalizedContent (normalizedRdfContent : ByteString) (descriptor : Option Descriptor) : Option Literal := do
  let literal ← make (quote :: (normalizedRdfContent ++ [quote])) (normalizedRdfContent.length + 2)
  match descriptor with
  | none => return literal
  | some (.languageTag languageTag) => literal.addLanguageTag languageTag
  | some (.datatype datatype) => literal.addDatatype datatype

/-- The sum of `start` and `length` is a `size_t`. -/
def setSubstr (start length : Nat) : Option Literal :=
  let contentLength := literal.beginOfSuffix_ - 2
  let sum := (start + length) % 2 ^ 64
  if start ≤ contentLength ∧ sum ≤ contentLength then
    ofString (erase (shiftLeft literal.content_ 1 (1 + sum) start) ((length + 1) % 2 ^ 64) (sizeSub contentLength length))
      (sizeSub literal.beginOfSuffix_ (sizeSub contentLength length))
  else none

def removeDatatypeOrLanguageTag : Option Literal := ofString (literal.content_.take literal.beginOfSuffix_) literal.beginOfSuffix_

def replaceContent (newContent : ByteString) : Option Literal :=
  let originalContentLength := literal.beginOfSuffix_ - 2
  let minLength := min originalContentLength newContent.length
  let copied := literal.content_.take 1 ++ (newContent.take minLength ++ literal.content_.drop (1 + minLength))
  ofString
    (if newContent.length ≤ originalContentLength then erase copied (newContent.length + 1) (originalContentLength - newContent.length)
    else insert copied (literal.beginOfSuffix_ - 1) (newContent.drop originalContentLength))
    (newContent.length + 2)

def concat : Option Literal := do
  let kept := literal.hasLanguageTag && other.hasLanguageTag && literal.getLanguageTag = other.getLanguageTag ||
    literal.hasDatatype && other.hasDatatype && literal.getDatatype = other.getDatatype
  let literal ← if kept then some literal else literal.removeDatatypeOrLanguageTag
  ofString (insert literal.content_ (literal.beginOfSuffix_ - 1) other.getContent) (literal.beginOfSuffix_ + other.getContent.length)

/-- The string is split at its last quote. -/
def fromStringRepresentation (internal : ByteString) : Option Literal :=
  if [quote] <+: internal then
    match rfind internal quote with
    | some endIdx => if 0 < endIdx then make internal (endIdx + 1) else none
    | none => none
  else none

end Literal

/-- A term as it is meant: its content, and nothing, a language tag or a datatype. -/
structure Value where
  content : ByteString
  suffix : ByteString
  deriving DecidableEq

inductive ValidSuffix : ByteString → Prop
  | plain : ValidSuffix []
  | languageTag (tag : ByteString) : ValidSuffix (langAt :: tag)
  | datatype (iri : Iri) : ValidSuffix (hat :: hat :: iri.toStringRepresentation)

def Descriptor.suffix : Option Descriptor → ByteString
  | none => []
  | some (.languageTag tag) => tagSuffix tag
  | some (.datatype iri) => hat :: hat :: iri.toStringRepresentation

structure Represents (literal : Literal) (value : Value) : Prop where
  string : literal.content_ = quote :: (value.content ++ quote :: value.suffix)
  position : literal.beginOfSuffix_ = value.content.length + 2
  suffix : ValidSuffix value.suffix

/-- The literals of all runs, where `setSubstr` is called with allowed arguments, and the values they are meant to have. -/
inductive Reaches (allowed : Nat → Nat → Prop) : Literal → Value → Prop
  | create {content descriptor literal} (created : Literal.literalWithNormalizedContent content descriptor = some literal) :
    Reaches allowed literal ⟨content,Descriptor.suffix descriptor⟩
  | setSubstr {literal value start length literal'} (reached : Reaches allowed literal value) (isSize : start < 2 ^ 64 ∧ length < 2 ^ 64)
    (isAllowed : allowed start length) (changed : literal.setSubstr start length = some literal') :
    Reaches allowed literal' ⟨(value.content.drop start).take length,value.suffix⟩
  | replaceContent {literal value newContent literal'} (reached : Reaches allowed literal value) (changed : literal.replaceContent newContent = some literal') :
    Reaches allowed literal' ⟨newContent,value.suffix⟩
  | concat {literal value other otherValue literal'} (reached : Reaches allowed literal value) (reached' : Reaches allowed other otherValue)
    (changed : literal.concat other = some literal') :
    Reaches allowed literal' ⟨value.content ++ otherValue.content,if value.suffix = otherValue.suffix then value.suffix else []⟩
  | removeDatatypeOrLanguageTag {literal value literal'} (reached : Reaches allowed literal value)
    (changed : literal.removeDatatypeOrLanguageTag = some literal') : Reaches allowed literal' ⟨value.content,[]⟩
  | addLanguageTag {literal value languageTag literal'} (reached : Reaches allowed literal value)
    (changed : literal.addLanguageTag languageTag = some literal') : Reaches allowed literal' ⟨value.content,tagSuffix languageTag⟩
  | addDatatype {literal value datatype literal'} (reached : Reaches allowed literal value) (changed : literal.addDatatype datatype = some literal') :
    Reaches allowed literal' ⟨value.content,hat :: hat :: datatype.toStringRepresentation⟩

variable {content : ByteString} {literal : Literal}

theorem ofString_eq_some {beginOfSuffix : Nat}
    (isSome : Literal.ofString content beginOfSuffix = some literal) : literal.content_ = content ∧ literal.beginOfSuffix_ = beginOfSuffix := by
  rw [Literal.ofString] at isSome
  split at isSome
  next =>
    cases isSome
    exact ⟨rfl,rfl⟩
  next => cases isSome

theorem validSuffix_tagSuffix (languageTag : ByteString) : ValidSuffix (tagSuffix languageTag) := by
  rw [tagSuffix]
  split
  next isTag =>
    obtain ⟨tag,rfl⟩ := isTag
    exact .languageTag tag
  next => exact .languageTag languageTag

section Represents
variable {literal other literal' : Literal} {value otherValue : Value} (represents : Represents literal value)
include represents

theorem drop_content (count : Nat) : literal.content_.drop (value.content.length + 1 + count) = (quote :: value.suffix).drop count := by
  rw [represents.string,show value.content.length + 1 + count = (value.content.length + count) + 1 by omega,drop_succ_cons,drop_length_add_append]

theorem getSuffix_eq : literal.getSuffix = value.suffix := by
  rw [Literal.getSuffix,represents.position]
  exact drop_content represents 1

theorem getContent_eq : literal.getContent = value.content := by
  rw [Literal.getContent,represents.position,represents.string]
  simp

theorem append_represents {suffix : ByteString} (valid : ValidSuffix suffix)
    (added : (if literal.hasDatatype || literal.hasLanguageTag then none
      else Literal.ofString (literal.content_ ++ suffix) literal.beginOfSuffix_) = some literal') : Represents literal' ⟨value.content,suffix⟩ := by
  split at added
  next => cases added
  next isPlain =>
    obtain ⟨isString,isPosition⟩ := ofString_eq_some added
    have noSuffix : value.suffix = [] := by
      rw [Literal.hasDatatype,Literal.hasLanguageTag,getSuffix_eq represents] at isPlain
      obtain ⟨_,old⟩ := value
      cases represents.suffix with
      | plain => rfl
      | languageTag tag | datatype iri => simp at isPlain
    refine ⟨?_,isPosition.trans represents.position,valid⟩
    rw [isString,represents.string,noSuffix]
    simp

theorem addLanguageTag_represents {languageTag : ByteString} (changed : literal.addLanguageTag languageTag = some literal') :
    Represents literal' ⟨value.content,tagSuffix languageTag⟩ := append_represents represents (validSuffix_tagSuffix languageTag) changed

theorem addDatatype_represents {datatype : Iri} (changed : literal.addDatatype datatype = some literal') :
    Represents literal' ⟨value.content,hat :: hat :: datatype.toStringRepresentation⟩ := append_represents represents (.datatype datatype) changed

theorem setSubstr_represents {start length : Nat} (fits : start + length < 2 ^ 64) (changed : literal.setSubstr start length = some literal') :
    Represents literal' ⟨(value.content.drop start).take length,value.suffix⟩ := by
  have size := literal.fits
  rw [represents.string] at size
  simp only [length_cons,length_append] at size
  rw [Literal.setSubstr,represents.position,Nat.add_sub_cancel,Nat.mod_eq_of_lt fits] at changed
  split at changed
  next inside =>
    obtain ⟨isString,isPosition⟩ := ofString_eq_some changed
    rw [Nat.mod_eq_of_lt (by omega : length + 1 < 2 ^ 64)] at isString
    rw [sizeSub_of_le (by omega : length ≤ value.content.length)] at isString isPosition
    rw [sizeSub_of_le (by omega)] at isPosition
    have isLength : ((value.content.drop start).take length).length = length := by
      rw [length_take,length_drop]
      omega
    -- The characters in front are the substring, and those from the closing quote on have stayed.
    have shifted : (shiftLeft literal.content_ 1 (1 + (start + length)) start).take (length + 1) = quote :: (value.content.drop start).take length ∧
        (shiftLeft literal.content_ 1 (1 + (start + length)) start).drop (value.content.length + 1) = quote :: value.suffix := by
      have taken : (value.content.drop start ++ quote :: value.suffix).take length = (value.content.drop start).take length :=
        take_append_of_le_length (by rw [length_drop]; omega)
      have dropped : (value.content ++ quote :: value.suffix).drop start = value.content.drop start ++ quote :: value.suffix :=
        drop_append_of_le_length inside.1
      rw [represents.string,shiftLeft]
      split
      next unmoved =>
        refine ⟨?_,by rw [drop_succ_cons,drop_left]⟩
        obtain rfl | isEmpty := unmoved
        · rw [take_succ_cons,← taken]
          rfl
        · rw [show length = 0 by omega]
          rfl
      next moved =>
        rw [show 1 + (start + length) - 1 - start = length by omega,show 1 + (start + length) - start = length + 1 by omega,Nat.add_comm 1 start,
          drop_succ_cons,drop_succ_cons,dropped,taken]
        refine ⟨?_,?_⟩
        · simp [isLength]
        · rw [take_succ_cons,take_zero,singleton_append,drop_succ_cons,drop_append,isLength,drop_drop,drop_eq_nil_of_le (by omega),nil_append,
            show length + (value.content.length - length) = value.content.length by omega,drop_left]
    refine ⟨?_,?_,represents.suffix⟩
    · rw [isString,erase,shifted.1,show length + 1 + (value.content.length - length) = value.content.length + 1 by omega,shifted.2]
      simp
    · rw [isPosition,isLength]
      omega
  next => cases changed

theorem replaceContent_represents {newContent : ByteString} (changed : literal.replaceContent newContent = some literal') :
    Represents literal' ⟨newContent,value.suffix⟩ := by
  obtain ⟨isString,isPosition⟩ := ofString_eq_some changed
  refine ⟨?_,isPosition,represents.suffix⟩
  rw [isString,represents.position,represents.string,Nat.add_sub_cancel]
  split
  next shorter =>
    have dropped : ((value.content ++ quote :: value.suffix).drop newContent.length).drop (value.content.length - newContent.length) =
        quote :: value.suffix := by
      rw [drop_drop,Nat.add_sub_cancel' shorter,drop_left]
    rw [min_eq_right shorter,take_length,erase,Nat.add_comm 1,drop_succ_cons,take_succ_cons,take_zero,singleton_append,take_succ_cons,take_left,
      show newContent.length + 1 + (value.content.length - newContent.length) = newContent.length + (value.content.length - newContent.length) + 1 by omega,
      drop_succ_cons,drop_length_add_append,dropped]
    rfl
  next longer =>
    have isTaken : (newContent.take value.content.length).length = value.content.length := by
      rw [length_take]
      omega
    have copied : (quote :: (value.content ++ quote :: value.suffix)).drop (value.content.length + 1) = quote :: value.suffix := by
      rw [drop_succ_cons,drop_left]
    rw [min_eq_left (by omega),Nat.add_comm 1,copied,take_succ_cons,take_zero,singleton_append,insert,
      show value.content.length + 2 - 1 = value.content.length + 1 by omega,take_succ_cons,drop_succ_cons]
    rw [take_left' isTaken,drop_left' isTaken,cons_append,← append_assoc,take_append_drop]

theorem getLanguageTag_eq : literal.getLanguageTag = if value.suffix.head? = some langAt then some (value.suffix.drop 1) else none := by
  rw [Literal.getLanguageTag,Literal.hasLanguageTag,getSuffix_eq represents,represents.position]
  simp only [decide_eq_true_eq]
  rw [show value.content.length + 2 + 1 = value.content.length + 1 + 2 by omega,drop_content represents,drop_succ_cons]

theorem getDatatype_eq : literal.getDatatype = if value.suffix.head? = some hat then some (value.suffix.drop 3).dropLast else none := by
  rw [Literal.getDatatype,Literal.hasDatatype,getSuffix_eq represents,represents.position]
  simp only [decide_eq_true_eq]
  rw [show value.content.length + 2 + 3 = value.content.length + 1 + 4 by omega,drop_content represents,drop_succ_cons]

theorem removeDatatypeOrLanguageTag_represents (changed : literal.removeDatatypeOrLanguageTag = some literal') :
    Represents literal' ⟨value.content,[]⟩ := by
  obtain ⟨isString,isPosition⟩ := ofString_eq_some changed
  refine ⟨?_,isPosition.trans represents.position,.plain⟩
  rw [isString,represents.position,represents.string,take_succ_cons,take_length_add_append]
  rfl

theorem kept_iff (represents' : Represents other otherValue) :
    (literal.hasLanguageTag && other.hasLanguageTag && literal.getLanguageTag = other.getLanguageTag ||
      literal.hasDatatype && other.hasDatatype && literal.getDatatype = other.getDatatype) = true ↔
      value.suffix = otherValue.suffix ∧ value.suffix ≠ [] := by
  rw [getLanguageTag_eq represents,getLanguageTag_eq represents',getDatatype_eq represents,getDatatype_eq represents',Literal.hasLanguageTag,
    Literal.hasLanguageTag,Literal.hasDatatype,Literal.hasDatatype,getSuffix_eq represents,getSuffix_eq represents']
  obtain ⟨_,suffix⟩ := value
  obtain ⟨_,suffix'⟩ := otherValue
  cases represents.suffix <;> cases represents'.suffix <;> simp [langAt,hat,Iri.toStringRepresentation]

theorem insert_represents {content : ByteString}
    (changed : Literal.ofString (insert literal.content_ (literal.beginOfSuffix_ - 1) content) (literal.beginOfSuffix_ + content.length) = some literal') :
    Represents literal' ⟨value.content ++ content,value.suffix⟩ := by
  obtain ⟨isString,isPosition⟩ := ofString_eq_some changed
  refine ⟨?_,?_,represents.suffix⟩
  · rw [isString,insert,represents.position,show value.content.length + 2 - 1 = value.content.length + 1 by omega,represents.string,take_succ_cons,
      drop_succ_cons,take_left,drop_left]
    simp
  · rw [isPosition,represents.position,length_append]
    omega

theorem concat_represents (represents' : Represents other otherValue) (changed : literal.concat other = some literal') :
    Represents literal' ⟨value.content ++ otherValue.content,if value.suffix = otherValue.suffix then value.suffix else []⟩ := by
  rw [Literal.concat,getContent_eq represents'] at changed
  by_cases same : value.suffix = otherValue.suffix ∧ value.suffix ≠ []
  · rw [if_pos ((kept_iff represents represents').mpr same)] at changed
    rw [if_pos same.1]
    exact insert_represents represents changed
  · rw [if_neg ((kept_iff represents represents').not.mpr same)] at changed
    obtain ⟨middle,isMiddle,changed⟩ := Option.bind_eq_some_iff.mp changed
    have isEmpty : (if value.suffix = otherValue.suffix then value.suffix else []) = [] := by
      rw [not_and,not_not] at same
      split
      next equal => exact same equal
      next => rfl
    rw [isEmpty]
    exact insert_represents (removeDatatypeOrLanguageTag_represents represents isMiddle) changed

end Represents

variable {descriptor : Option Descriptor}

theorem create_represents (created : Literal.literalWithNormalizedContent content descriptor = some literal) : Represents literal ⟨content,Descriptor.suffix descriptor⟩ := by
  rw [Literal.literalWithNormalizedContent] at created
  obtain ⟨quoted,isQuoted,created⟩ := Option.bind_eq_some_iff.mp created
  have plain : Represents quoted ⟨content,[]⟩ := by
    rw [Literal.make] at isQuoted
    split at isQuoted
    next => exact ⟨(ofString_eq_some isQuoted).1,(ofString_eq_some isQuoted).2,.plain⟩
    next => cases isQuoted
  match descriptor with
  | none =>
    cases created
    exact plain
  | some (.languageTag tag) => exact (addLanguageTag_represents plain created)
  | some (.datatype iri) => exact (addDatatype_represents plain created)

/-- In each run in which no sum of `setSubstr` overflows, the string is the content in quotes and the suffix. -/
theorem Reaches.represents {literal : Literal} {value : Value} (reached : Reaches (fun start length => start + length < 2 ^ 64) literal value) :
    Represents literal value := by
  induction reached with
  | create created => exact create_represents created
  | setSubstr _ _ isAllowed changed ih => exact setSubstr_represents ih isAllowed changed
  | replaceContent _ changed ih => exact replaceContent_represents ih changed
  | concat _ _ changed ih ih' => exact concat_represents ih ih' changed
  | removeDatatypeOrLanguageTag _ changed ih => exact removeDatatypeOrLanguageTag_represents ih changed
  | addLanguageTag _ changed ih => exact addLanguageTag_represents ih changed
  | addDatatype _ changed ih => exact addDatatype_represents ih changed

/-- The literal "ab"@en is cut to its second character. -/
theorem Reaches.represents_substr : ∃ literal : Literal,literal.content_ = [34,98,34,64,101,110] ∧ Represents literal ⟨[98],[64,101,110]⟩ := by
  have created : Literal.literalWithNormalizedContent [97,98] (some (.languageTag [101,110])) = some ⟨[34,97,98,34,64,101,110],4,by decide⟩ := by
    decide
  have changed : (Literal.mk [34,97,98,34,64,101,110] 4 (by decide)).setSubstr 1 1 = some ⟨[34,98,34,64,101,110],3,by decide⟩ := by decide
  exact ⟨_,rfl,Reaches.represents (.setSubstr (.create created) (by decide) (by decide) changed)⟩

/-- The sum of 1 and `2 ^ 64 - 1` is 0, so the opening quote and the content are erased. -/
theorem setSubstr_overflow : ∃ literal,Reaches (fun _ _ => True) literal ⟨[],[]⟩ ∧ literal.content_ = [quote] ∧ ¬ Represents literal ⟨[],[]⟩ := by
  have created : Literal.literalWithNormalizedContent [97] none = some ⟨[34,97,34],3,by decide⟩ := by decide
  have changed : (Literal.mk [34,97,34] 3 (by decide)).setSubstr 1 (2 ^ 64 - 1) = some ⟨[34],1,by decide⟩ := by decide
  refine ⟨_,.setSubstr (.create created) (by decide) trivial changed,rfl,?_⟩
  intro represents
  cases represents.string

section Parse
variable (hexadecimalCharactersToUtf8 : ByteString → ByteString)

/-- The parser calls it with a string that starts with the opening bracket. -/
def Iri.fromIriref (stringWithBrackets : ByteString) : Except EscapeError Iri :=
  if [lessThan] <+: stringWithBrackets ∧ [greaterThan] <:+ stringWithBrackets then
    (unescapeStringAndNumericEscapes hexadecimalCharactersToUtf8 true false (stringWithBrackets.drop 1).dropLast).map Iri.mk
  else .error .contractCheck

/-- A literal from `fromEscapedRdfLiteral`. A language tag of the grammar has no quotes. -/
structure Parsed (content : ByteString) (descriptor : Option Descriptor) (literal : Literal) : Prop where
  isContent : ∃ rdfContentWithQuotes,normalizeLiteralWithQuotes hexadecimalCharactersToUtf8 rdfContentWithQuotes = .ok content
  isLiteral : Literal.literalWithNormalizedContent content descriptor = some literal
  languageTag : ∀ tag,descriptor = some (.languageTag tag) → quote ∉ tag
  datatype : ∀ iri,descriptor = some (.datatype iri) → ∃ stringWithBrackets,Iri.fromIriref hexadecimalCharactersToUtf8 stringWithBrackets = .ok iri

end Parse

def NoQuotes (descriptor : Option Descriptor) : Prop := ∀ iri,descriptor = some (.datatype iri) → quote ∉ iri.content

/-- The literal is restored from its string. -/
def RoundTrips (literal : Literal) : Prop := ∃ restored,Literal.fromStringRepresentation literal.content_ = some restored ∧
  restored.getContent = literal.getContent ∧ restored.getLanguageTag = literal.getLanguageTag ∧ restored.getDatatype = literal.getDatatype

variable {hexadecimalCharactersToUtf8 : ByteString → ByteString}

theorem Parsed.noQuotes_iff (parsed : Parsed hexadecimalCharactersToUtf8 content descriptor literal) :
    NoQuotes descriptor ↔ quote ∉ Descriptor.suffix descriptor := by
  match isDescriptor : descriptor with
  | none => simp [NoQuotes,Descriptor.suffix]
  | some (.languageTag tag) =>
    have noQuotes := parsed.languageTag tag rfl
    refine iff_of_true (by simp [NoQuotes]) ?_
    rw [Descriptor.suffix,tagSuffix]
    split
    next => exact noQuotes
    next => simp [langAt,quote] at noQuotes ⊢; exact noQuotes
  | some (.datatype iri) => simp [NoQuotes,Descriptor.suffix,Iri.toStringRepresentation,quote,hat,lessThan,greaterThan]

/-- The string is split at its last quote. -/
theorem Represents.fromString {suffix : ByteString} (isString : literal.content_ = quote :: (content ++ quote :: suffix))
    (noQuotes : quote ∉ suffix) {restored : Literal} (isRestored : Literal.fromStringRepresentation literal.content_ = some restored) :
    restored.content_ = literal.content_ ∧ restored.beginOfSuffix_ = content.length + 2 := by
  rw [isString] at isRestored
  simp only [Literal.fromStringRepresentation,rfind_literal content noQuotes,Literal.make] at isRestored
  split_ifs at isRestored
  exact isString ▸ ofString_eq_some isRestored

theorem Represents.fromStringRepresentation_eq {value : Value} (represents : Represents literal value) (noQuotes : quote ∉ value.suffix) :
    Literal.fromStringRepresentation literal.content_ = some literal := by
  obtain ⟨content_,beginOfSuffix_,fits⟩ := literal
  obtain ⟨content,suffix⟩ := value
  obtain ⟨rfl,rfl,valid⟩ := represents
  have head : content.length + 2 = (quote :: (content ++ quote :: suffix)).length ∨ (quote :: (content ++ quote :: suffix))[content.length + 2]? = some langAt ∨
      (quote :: (content ++ quote :: suffix))[content.length + 2]? = some hat := by
    cases valid <;> simp
  have closing : (quote :: (content ++ quote :: suffix))[content.length + 1]? = some quote := by simp
  simp only [Literal.fromStringRepresentation,rfind_literal content noQuotes,Literal.make]
  rw [if_pos ⟨_,rfl⟩,if_pos (Nat.succ_pos _),if_pos ⟨⟨_,rfl⟩,by omega,closing,head⟩]
  exact dif_pos fits

theorem Parsed.roundTrips_iff (parsed : Parsed hexadecimalCharactersToUtf8 content descriptor literal) : RoundTrips literal ↔ NoQuotes descriptor := by
  have represents := create_represents parsed.isLiteral
  rw [parsed.noQuotes_iff]
  constructor
  · rintro ⟨restored,isRestored,sameContent,_⟩ inside
    obtain ⟨after,before,isSuffix,noQuotes⟩ := eq_append_cons_of_mem (mem_reverse.mpr inside)
    have isSplit : literal.content_ = quote :: ((content ++ quote :: before.reverse) ++ quote :: after.reverse) := by
      rw [represents.string,← reverse_reverse (Descriptor.suffix descriptor),isSuffix]
      simp
    obtain ⟨isString,isPosition⟩ := Represents.fromString isSplit (by rwa [mem_reverse]) isRestored
    rw [getContent_eq represents,Literal.getContent,isString,isPosition,isSplit] at sameContent
    have lengths := congrArg length sameContent
    simp at lengths
  · exact fun noQuotes => ⟨literal,represents.fromStringRepresentation_eq noQuotes,rfl,rfl,rfl⟩

/-- Exactly the literals whose datatype has no quotes are restored, and no two of them have the same string. -/
theorem fromStringRepresentation_iff (hexadecimalCharactersToUtf8 : ByteString → ByteString) {content : ByteString} {descriptor : Option Descriptor}
    {literal : Literal} (parsed : Parsed hexadecimalCharactersToUtf8 content descriptor literal) : (RoundTrips literal ↔ NoQuotes descriptor) ∧
      ∀ content' descriptor' literal',Parsed hexadecimalCharactersToUtf8 content' descriptor' literal' → NoQuotes descriptor → NoQuotes descriptor' →
        literal.content_ = literal'.content_ → literal = literal' ∧ content = content' ∧ Descriptor.suffix descriptor = Descriptor.suffix descriptor' := by
  have represents := create_represents parsed.isLiteral
  refine ⟨parsed.roundTrips_iff,?_⟩
  intro content' descriptor' literal' parsed' noQuotes noQuotes' same
  have represents' := create_represents parsed'.isLiteral
  have restored := represents.fromStringRepresentation_eq (parsed.noQuotes_iff.mp noQuotes)
  rw [same,represents'.fromStringRepresentation_eq (parsed'.noQuotes_iff.mp noQuotes')] at restored
  obtain rfl := Option.some.inj restored
  exact ⟨rfl,(getContent_eq represents).symm.trans (getContent_eq represents'),(getSuffix_eq represents).symm.trans (getSuffix_eq represents')⟩

/-- The plain literal "a". -/
theorem fromStringRepresentation_plain : RoundTrips ⟨[34,97,34],3,by decide⟩ := by
  have parsed : Parsed (fun iri => iri) [97] none ⟨[34,97,34],3,by decide⟩ :=
    ⟨⟨[34,97,34],by decide +kernel⟩,by decide,nofun,nofun⟩
  exact (fromStringRepresentation_iff _ parsed).1.mpr nofun

/-- The datatype of the first literal is given as <\u0022^^<z>. The second one has the content a"^^< and the datatype <z>. -/
theorem datatype_quote : ∃ literal literal',Parsed (fun _ => [34]) [97] (some (.datatype ⟨[34,94,94,60,122]⟩)) literal ∧
    Parsed (fun _ => [34]) [97,34,94,94,60] (some (.datatype ⟨[122]⟩)) literal' ∧ literal.content_ = literal'.content_ ∧
    literal.getContent ≠ literal'.getContent ∧ Literal.fromStringRepresentation literal.content_ = some literal' := by
  refine ⟨⟨[34,97,34,94,94,60,34,94,94,60,122,62],3,by decide⟩,⟨[34,97,34,94,94,60,34,94,94,60,122,62],7,by decide⟩,⟨?_,by decide,nofun,?_⟩,
    ⟨?_,by decide,nofun,?_⟩,rfl,by decide,by decide⟩
  · exact ⟨[34,97,34],by decide +kernel⟩
  · rintro iri ⟨⟩
    exact ⟨[60,92,117,48,48,50,50,94,94,60,122,62],by decide +kernel⟩
  · exact ⟨[34,97,92,34,94,94,60,34],by decide +kernel⟩
  · rintro iri ⟨⟩
    exact ⟨[60,122,62],by decide +kernel⟩

end Qlever.TripleComponent
