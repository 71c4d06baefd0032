import Qlever.RdfEscaping

/-! Skipping whitespace and comments before a token, `Tokenizer.h`, and the loop over the statements of a Turtle document. -/
namespace Qlever.Tokenizer
open RdfEscaping List

def hash : UInt8 := 35

def isWhitespace (c : UInt8) : Bool := c ∈ [0x20,0x09,0x0D,0x0A]

/-- Whether something was skipped, and the rest of the data. -/
def skipWhitespace (data : ByteString) : Bool × ByteString :=
  let numLeadingWhitespace := (data.takeWhile isWhitespace).length
  (numLeadingWhitespace > 0,data.dropWhile isWhitespace)

/-- An unfinished comment is only reported. -/
def skipComments (data : ByteString) : Bool × ByteString :=
  if [hash] <+: data then
    match data.dropWhile (fun c => c ≠ newline) with
    | [] => (true,data)
    | _ :: rest => (true,rest)
  else (false,data)

/-- The loop, `none` if it does not end within `fuel` rounds. -/
def skipWhitespaceAndComments : Nat → ByteString → Option ByteString
  | 0,_ => none
  | fuel + 1,data =>
    let (a,data) := skipWhitespace data
    let (b,data) := skipComments data
    if a || b then skipWhitespaceAndComments fuel data else some data

/-- Whitespace and complete comments. -/
inductive Blank : ByteString → Prop
  | nil : Blank []
  | whitespace {c : UInt8} {blank : ByteString} (isSpace : isWhitespace c = true) (rest : Blank blank) : Blank (c :: blank)
  | comment {body blank : ByteString} (complete : newline ∉ body) (rest : Blank blank) : Blank (hash :: (body ++ newline :: blank))

/-- Only a comment that does not end follows the whitespace and the complete comments. -/
def EndsInComment (data : ByteString) : Prop := ∃ blank body,Blank blank ∧ newline ∉ body ∧ data = blank ++ hash :: body

structure Skipped (data rest : ByteString) : Prop where
  onlyBlank : ∃ blank,Blank blank ∧ data = blank ++ rest
  noWhitespace : ∀ c after,rest = c :: after → isWhitespace c = false
  noComment : ∀ body after,newline ∉ body → rest ≠ hash :: (body ++ newline :: after)

theorem Blank.append {first second : ByteString} (blank : Blank first) (more : Blank second) : Blank (first ++ second) := by
  induction blank with
  | nil => exact more
  | whitespace isSpace rest ih => exact .whitespace isSpace ih
  | comment complete rest ih =>
    rw [cons_append,append_assoc,cons_append]
    exact .comment complete ih

theorem blank_of_spaces {spaces : ByteString} (areSpaces : ∀ c ∈ spaces,isWhitespace c = true) : Blank spaces := by
  induction spaces with
  | nil => exact .nil
  | cons c spaces ih => exact .whitespace (areSpaces c mem_cons_self) (ih (forall_mem_cons.mp areSpaces).2)

theorem skipWhitespace_spec (data : ByteString) : ∃ blank,Blank blank ∧ data = blank ++ (skipWhitespace data).2 ∧
    ((skipWhitespace data).1 = true ↔ blank ≠ []) ∧ ∀ c after,(skipWhitespace data).2 = c :: after → isWhitespace c = false := by
  refine ⟨data.takeWhile isWhitespace,blank_of_spaces (fun c isSpace => mem_takeWhile_imp isSpace),takeWhile_append_dropWhile.symm,
    by simp [skipWhitespace,length_pos_iff],?_⟩
  intro c after starts
  have first := head_dropWhile_not isWhitespace (fun empty => cons_ne_nil c after (starts.symm.trans empty))
  change data.dropWhile isWhitespace = _ at starts
  simpa only [starts,head_cons] using first

variable {body : ByteString}

theorem not_newline (absent : newline ∉ body) : ∀ c ∈ hash :: body,decide (c ≠ newline) = true :=
  forall_mem_cons.mpr ⟨rfl,fun _ isByte => decide_eq_true (ne_of_mem_of_not_mem isByte absent)⟩

theorem skipComments_complete (complete : newline ∉ body) (rest : ByteString) :
    skipComments (hash :: (body ++ newline :: rest)) = (true,rest) := by
  have isComment : [hash] <+: hash :: (body ++ newline :: rest) := ⟨_,rfl⟩
  have atNewline : (hash :: (body ++ newline :: rest)).dropWhile (fun c => c ≠ newline) = newline :: rest := by
    rw [← cons_append,dropWhile_append_of_pos (not_newline complete),dropWhile_cons_of_neg (by simp)]
  rw [skipComments,if_pos isComment,atNewline]

theorem skipComments_unfinished (unfinished : newline ∉ body) : skipComments (hash :: body) = (true,hash :: body) := by
  have isComment : [hash] <+: hash :: body := ⟨_,rfl⟩
  rw [skipComments,if_pos isComment,dropWhile_eq_nil_iff.mpr (not_newline unfinished)]

variable {data : ByteString}

theorem skipComments_none (noComment : ∀ rest,data ≠ hash :: rest) : skipComments data = (false,data) :=
  if_neg (fun ⟨rest,same⟩ => noComment rest same.symm)

/-- Skipping the whitespace keeps the comment at the end. -/
theorem EndsInComment.skipWhitespace (ends : EndsInComment data) : EndsInComment (skipWhitespace data).2 := by
  obtain ⟨blank,body,isBlank,unfinished,rfl⟩ := ends
  induction isBlank with
  | nil => exact ⟨[],body,.nil,unfinished,rfl⟩
  | @whitespace c blank isSpace rest ih =>
    change EndsInComment ((c :: (blank ++ hash :: body)).dropWhile isWhitespace)
    rw [dropWhile_cons_of_pos isSpace]
    exact ih
  | @comment comment blank complete rest ih => exact ⟨_,body,.comment complete rest,unfinished,rfl⟩

theorem EndsInComment.skipComments (ends : EndsInComment data) (noWhitespace : ∀ c after,data = c :: after → isWhitespace c = false) :
    (skipComments data).1 = true ∧ EndsInComment (skipComments data).2 := by
  obtain ⟨blank,body,isBlank,unfinished,rfl⟩ := ends
  cases isBlank with
  | nil =>
    rw [nil_append,skipComments_unfinished unfinished]
    exact ⟨rfl,[],body,.nil,unfinished,rfl⟩
  | whitespace isSpace rest => rw [noWhitespace _ _ rfl] at isSpace; cases isSpace
  | @comment comment blank complete rest =>
    rw [cons_append,append_assoc,cons_append,skipComments_complete complete]
    exact ⟨rfl,blank,body,rest,unfinished,rfl⟩

/-- In an unfinished comment, each round reports progress. -/
theorem EndsInComment.loops (fuel : Nat) (ends : EndsInComment data) : skipWhitespaceAndComments fuel data = none := by
  induction fuel generalizing data with
  | zero => rfl
  | succ fuel ih =>
    obtain ⟨_,_,_,_,noWhitespace⟩ := skipWhitespace_spec data
    obtain ⟨progress,stillEnds⟩ := ends.skipWhitespace.skipComments noWhitespace
    simp only [skipWhitespaceAndComments,progress,Bool.or_true,if_true,ih stillEnds]

theorem EndsInComment.of_rest {blank : ByteString} (isBlank : Blank blank) (ends : EndsInComment data) : EndsInComment (blank ++ data) := by
  obtain ⟨more,body,isMore,unfinished,rfl⟩ := ends
  exact ⟨blank ++ more,body,isBlank.append isMore,unfinished,(append_assoc blank more _).symm⟩

theorem Skipped.of_rest {blank rest : ByteString} (isBlank : Blank blank) (skipped : Skipped data rest) : Skipped (blank ++ data) rest := by
  obtain ⟨⟨more,isMore,same⟩,noWhitespace,noComment⟩ := skipped
  exact ⟨⟨blank ++ more,isBlank.append isMore,by rw [same,append_assoc]⟩,noWhitespace,noComment⟩

/-- One round that reports progress has consumed something, unless the data ends in a comment. -/
theorem skips_of_not_endsInComment (data : ByteString) (noEnd : ¬ EndsInComment data) :
    ∃ fuel rest,skipWhitespaceAndComments fuel data = some rest ∧ Skipped data rest := by
  induction length : data.length using Nat.strong_induction_on generalizing data with
  | h size ih =>
    obtain ⟨blank,isBlank,same,progress,noWhitespace⟩ := skipWhitespace_spec data
    generalize view : (skipWhitespace data).2 = rest at same noWhitespace
    by_cases isComment : ∃ body,rest = hash :: body
    · obtain ⟨body,rfl⟩ := isComment
      by_cases complete : newline ∈ body
      · obtain ⟨comment,after,rfl,isFirst⟩ := eq_append_cons_of_mem complete
        have whole : data = (blank ++ (hash :: (comment ++ newline :: []))) ++ after := by simp [same]
        have isPrefix := isBlank.append (Blank.comment isFirst .nil)
        obtain ⟨fuel,rest,ran,skipped⟩ := ih after.length (by rw [← length,whole]; simp; omega) after
          (fun ends => noEnd (whole ▸ EndsInComment.of_rest isPrefix ends)) rfl
        refine ⟨fuel + 1,rest,?_,whole ▸ skipped.of_rest isPrefix⟩
        simpa only [skipWhitespaceAndComments,view,skipComments_complete isFirst,Bool.or_true,if_true] using ran
      · exact absurd ⟨blank,body,isBlank,complete,same⟩ noEnd
    · have none := skipComments_none (fun body starts => isComment ⟨body,starts⟩)
      by_cases some : blank = []
      · have noProgress : (skipWhitespace data).1 = false := by rw [← Bool.not_eq_true,progress]; exact not_not.mpr some
        refine ⟨1,rest,?_,⟨blank,isBlank,same⟩,noWhitespace,fun body after _ starts => isComment ⟨_,starts⟩⟩
        simp only [skipWhitespaceAndComments,view,none,noProgress,Bool.or_false,Bool.false_eq_true,if_false]
      · obtain ⟨fuel,final,ran,skipped⟩ := ih rest.length (by rw [← length,same,length_append]; have := length_pos_of_ne_nil some; omega) rest
          (fun ends => noEnd (same ▸ EndsInComment.of_rest isBlank ends)) rfl
        refine ⟨fuel + 1,final,?_,same ▸ skipped.of_rest isBlank⟩
        simpa only [skipWhitespaceAndComments,view,none,progress.mpr some,Bool.true_or,if_true] using ran

theorem skipWhitespaceAndComments_unique {fuel other : Nat} {rest view : ByteString} (ran : skipWhitespaceAndComments fuel data = some rest)
    (ranOther : skipWhitespaceAndComments other data = some view) : rest = view := by
  induction fuel generalizing other data with
  | zero => cases ran
  | succ fuel ih =>
    cases other with
    | zero => cases ranOther
    | succ other =>
      simp only [skipWhitespaceAndComments] at ran ranOther
      split at ran
      next progress => exact ih ran (by rwa [if_pos progress] at ranOther)
      next noProgress => exact Option.some.inj (ran.symm.trans (by rwa [if_neg noProgress] at ranOther))

section TurtleDoc
-- `directive() || (triples() && skip<Dot>())`: the data after a statement
variable (parseStatement : ByteString → Option ByteString)

/-- The loop over the statements ends. -/
inductive TurtleDocEnds : ByteString → Prop
  | last {fuel : Nat} {data view : ByteString} (skipped : skipWhitespaceAndComments fuel data = some view) (noStatement : parseStatement view = none) :
    TurtleDocEnds data
  | next {fuel : Nat} {data view rest : ByteString} (skipped : skipWhitespaceAndComments fuel data = some view) (parsed : parseStatement view = some rest)
    (ends : TurtleDocEnds rest) : TurtleDocEnds data

/-- The data at which `statement` is called. -/
inductive StartsStatement : ByteString → ByteString → Prop
  | first (data : ByteString) : StartsStatement data data
  | later {fuel : Nat} {data view rest start : ByteString} (skipped : skipWhitespaceAndComments fuel data = some view) (parsed : parseStatement view = some rest)
    (starts : StartsStatement rest start) : StartsStatement data start

variable {parseStatement}

theorem turtleDocEnds_iff (consumes : ∀ view rest,parseStatement view = some rest → rest.length < view.length) (data : ByteString) :
    TurtleDocEnds parseStatement data ↔ ∀ start,StartsStatement parseStatement data start → ¬ EndsInComment start := by
  constructor
  · intro ends start starts
    induction ends with
    | last skipped noStatement =>
      cases starts with
      | first => exact fun inComment => Option.some_ne_none _ (skipped.symm.trans (inComment.loops _))
      | later skipped' parsed _ =>
        rw [skipWhitespaceAndComments_unique skipped' skipped,noStatement] at parsed
        cases parsed
    | next skipped parsed _ ih =>
      cases starts with
      | first => exact fun inComment => Option.some_ne_none _ (skipped.symm.trans (inComment.loops _))
      | later skipped' parsed' starts =>
        rw [skipWhitespaceAndComments_unique skipped' skipped,parsed] at parsed'
        cases parsed'
        exact ih starts
  · intro noComment
    induction length : data.length using Nat.strong_induction_on generalizing data with
    | h size ih =>
      obtain ⟨fuel,view,ran,⟨blank,_,same⟩,_⟩ := skips_of_not_endsInComment data (noComment data (.first data))
      cases parsed : parseStatement view with
      | none => exact .last ran parsed
      | some rest =>
        have shorter : rest.length < size := by
          have less := consumes view rest parsed
          rw [← length,same,length_append]
          omega
        exact .next ran parsed (ih rest.length shorter rest (fun start starts => noComment start (.later ran parsed starts)) rfl)

end TurtleDoc

end Qlever.Tokenizer
