import Qlever.SplitVocabulary

/-! The word writer of a split vocabulary, and the lookup in the vocabulary that is read from its files. -/
namespace Qlever.SplitVocabulary
open List
variable {Word : Type} [LinearOrder Word] (vocab : SplitVocabulary Word)

/-- `WordWriter::operator()`: an underlying writer returns the number of the words written before. -/
def writeWord (underlyingWordWriters : List (List Word)) (word : Word) : Option (Nat × List (List Word)) := do
  let splitIdx := vocab.splitFunction word
  let written ← underlyingWordWriters[splitIdx]?
  -- `addMarker` checks that the index fits into its bits
  guard (written.length < 2 ^ vocab.markerShift)
  return (vocab.addMarker written.length splitIdx,underlyingWordWriters.set splitIdx (written ++ [word]))

def writeWords (underlyingWordWriters : List (List Word)) : List Word → Option (List Nat × List (List Word))
  | [] => some ([],underlyingWordWriters)
  | word::words => do
    let (index,underlyingWordWriters) ← vocab.writeWord underlyingWordWriters word
    let (indices,underlyingWordWriters) ← writeWords underlyingWordWriters words
    return (index::indices,underlyingWordWriters)

def part (words : List Word) (marker : Nat) : List Word := words.filter (fun word => vocab.splitFunction word = marker)

def parts (words : List Word) : List (List Word) := (range vocab.underlying.length).map (vocab.part words)

/-- The vocabulary that is read from the files of the writer. -/
def read {words : List Word} (ascending : words.Pairwise (· < ·)) (fits : ∀ marker,(vocab.part words marker).length < 2 ^ vocab.markerShift) :
    SplitVocabulary Word where
  underlying := (range vocab.underlying.length).map (fun marker => ⟨vocab.part words marker,ascending.filter _⟩)
  splitFunction := vocab.splitFunction
  marker_lt word := by
    rw [length_map,length_range]
    exact vocab.marker_lt word
  written marker read isRead word member := by
    rw [getElem?_map,Option.map_eq_some_iff] at isRead
    obtain ⟨marker',isMarker,rfl⟩ := isRead
    obtain ⟨_,rfl⟩ := List.getElem?_eq_some_iff.mp isMarker
    simpa using (mem_filter.mp member).2
  fits read member := by
    obtain ⟨marker,_,rfl⟩ := mem_map.mp member
    rw [length_map,length_range]
    exact fits marker

section Runs
variable {words : List Word}

theorem parts_append (word : Word) : vocab.parts (words ++ [word]) =
    (vocab.parts words).set (vocab.splitFunction word) (vocab.part words (vocab.splitFunction word) ++ [word]) := by
  refine ext_getElem? (fun marker => ?_)
  rw [getElem?_set,parts,parts,length_map,length_range,getElem?_map,getElem?_map]
  rcases eq_or_ne (vocab.splitFunction word) marker with same | different
  · rw [if_pos same,← same,if_pos (vocab.marker_lt word),getElem?_range (vocab.marker_lt word)]
    simp [part]
  · rw [if_neg different]
    refine Option.map_congr (fun other isOther => ?_)
    obtain ⟨_,rfl⟩ := List.getElem?_eq_some_iff.mp isOther
    simpa [part] using different

/-- The index that the writer returns for a word: its place in its part. -/
def IsIndex (words : List Word) (word : Word) (index : Nat) : Prop :=
  ∃ inner,(vocab.part words (vocab.splitFunction word))[inner]? = some word ∧ index = vocab.addMarker inner (vocab.splitFunction word)

theorem writeWords_parts (rest : List Word) (fits : ∀ marker,(vocab.part (words ++ rest) marker).length < 2 ^ vocab.markerShift) :
    ∃ indices,vocab.writeWords (vocab.parts words) rest = some (indices,vocab.parts (words ++ rest)) ∧
      Forall₂ (vocab.IsIndex (words ++ rest)) rest indices := by
  induction rest generalizing words with
  | nil => exact ⟨[],by rw [append_nil]; rfl,.nil⟩
  | cons word rest ih =>
    rw [append_cons] at fits ⊢
    obtain ⟨indices,written,areIndices⟩ := ih fits
    have partOf : vocab.part (words ++ [word] ++ rest) (vocab.splitFunction word) =
        vocab.part words (vocab.splitFunction word) ++ word::vocab.part rest (vocab.splitFunction word) := by simp [part]
    have small := fits (vocab.splitFunction word)
    rw [partOf,length_append] at small
    have isPart : (vocab.parts words)[vocab.splitFunction word]? = some (vocab.part words (vocab.splitFunction word)) := by
      simp [parts,getElem?_range (vocab.marker_lt word)]
    have step : vocab.writeWord (vocab.parts words) word =
        some (vocab.addMarker (vocab.part words (vocab.splitFunction word)).length (vocab.splitFunction word),vocab.parts (words ++ [word])) := by
      rw [writeWord,isPart,parts_append]
      simp [guard,show (vocab.part words (vocab.splitFunction word)).length < 2 ^ vocab.markerShift by omega]
    refine ⟨_::indices,by rw [writeWords,step]; simp only [Option.bind_eq_bind,Option.bind_some,written]; rfl,.cons ⟨_,?_,rfl⟩ areIndices⟩
    rw [partOf]
    simp

end Runs

section Markers
variable {vocab} {index marker : Nat}

theorem addMarker_inverse (few : vocab.underlying.length ≤ 255) (isMarker : marker < vocab.underlying.length) (small : index < 2 ^ vocab.markerShift) :
    vocab.addMarker index marker < 2 ^ numDataBits ∧ vocab.getMarker (vocab.addMarker index marker) = marker ∧
      vocab.getVocabIndex (vocab.addMarker index marker) = index := by
  have bits : Nat.size (vocab.underlying.length - 1) ≤ 8 := Nat.size_le.mpr (by omega)
  have inBits := Nat.lt_size_self (vocab.underlying.length - 1)
  have product : 2 ^ Nat.size (vocab.underlying.length - 1) * 2 ^ vocab.markerShift = 2 ^ numDataBits := by
    rw [← Nat.pow_add,markerShift,Nat.add_sub_cancel' (bits.trans (by decide))]
  have bound := Nat.mul_le_mul_right (2 ^ vocab.markerShift) (show marker + 1 ≤ 2 ^ Nat.size (vocab.underlying.length - 1) by omega)
  rw [product,Nat.succ_mul] at bound
  rw [vocab.addMarker_eq small,getMarker,getVocabIndex,Nat.mod_eq_of_lt (by omega),Nat.shiftRight_eq_div_pow]
  refine ⟨by omega,?_,Nat.mul_add_mod_of_lt small⟩
  rw [Nat.mul_comm,Nat.mul_add_div (Nat.two_pow_pos _),Nat.div_eq_of_lt small,Nat.add_zero]

theorem addMarker_getMarker (isIndex : index < 2 ^ numDataBits) : vocab.addMarker (vocab.getVocabIndex index) (vocab.getMarker index) = index := by
  rw [vocab.addMarker_eq (show vocab.getVocabIndex index < _ from Nat.mod_lt _ (Nat.two_pow_pos _)),getMarker,getVocabIndex,Nat.mod_eq_of_lt isIndex,Nat.shiftRight_eq_div_pow]
  exact Nat.div_add_mod' index _

end Markers

theorem position_empty {word : Word} (unwritten : ∀ underlying ∈ vocab.underlying,word ∉ underlying.words) :
    (vocab.getPositionOfWord word).1 = (vocab.getPositionOfWord word).2 := by
  obtain ⟨part,member,_,isPosition⟩ := vocab.getPositionOfWord_eq word
  have range := position_cases part.sorted word
  change (part.getPositionOfWord word).2 = (part.getPositionOfWord word).1 ∨
    (part.getPositionOfWord word).2 = (part.getPositionOfWord word).1 + 1 at range
  rw [isPosition]
  refine congrArg (_ + ·) (range.elim Eq.symm (fun next => ?_))
  have isFound := getElem?_eq_getElem (l := part.words) (show (part.getPositionOfWord word).1 < _ by have := part.upper_le_length word; omega)
  have notLess := (part.lt_lower_iff isFound word).not.mp (lt_irrefl _)
  have atMost := (part.lt_upper_iff isFound word).mp (by omega)
  exact absurd (mem_of_getElem? (isFound.trans (congrArg some (atMost.antisymm (not_lt.mp notLess))))) (unwritten part member)

/-- Whatever ascending words are written, each is found under the index that the writer returned for it. -/
theorem writeWords_read {words : List Word} (ascending : words.Pairwise (· < ·)) (few : vocab.underlying.length ≤ 255)
    (fits : ∀ marker,(vocab.part words marker).length < 2 ^ vocab.markerShift) :
    (∃ indices,vocab.writeWords (vocab.underlying.map fun _ => []) words = some (indices,(vocab.read ascending fits).underlying.map (·.words)) ∧
      Forall₂ (fun word index => index < 2 ^ numDataBits ∧ (vocab.read ascending fits).wordAt index = some word ∧
        (vocab.read ascending fits).getPositionOfWord word = (index,index + 1)) words indices) ∧
    (∀ word ∉ words,((vocab.read ascending fits).getPositionOfWord word).1 = ((vocab.read ascending fits).getPositionOfWord word).2) ∧
    (∀ marker < vocab.underlying.length,∀ index < 2 ^ vocab.markerShift,vocab.addMarker index marker < 2 ^ numDataBits ∧
      vocab.getMarker (vocab.addMarker index marker) = marker ∧ vocab.getVocabIndex (vocab.addMarker index marker) = index) ∧
    ∀ index < 2 ^ numDataBits,vocab.addMarker (vocab.getVocabIndex index) (vocab.getMarker index) = index := by
  refine ⟨?_,fun word unwritten => (vocab.read ascending fits).position_empty (fun underlying member => ?_),
    fun marker isMarker index small => addMarker_inverse few isMarker small,fun index isIndex => addMarker_getMarker isIndex⟩
  · obtain ⟨indices,written,areIndices⟩ := @writeWords_parts _ _ vocab [] words fits
    have start : vocab.parts [] = vocab.underlying.map fun _ => [] := by
      change (range vocab.underlying.length).map (fun _ => []) = _
      simp [map_const']
    have result : vocab.parts words = (vocab.read ascending fits).underlying.map (·.words) := by simp [parts,read]
    rw [start,nil_append,result] at written
    refine ⟨indices,written,areIndices.imp (fun word index isIndex => ?_)⟩
    obtain ⟨inner,isInner,rfl⟩ := isIndex
    have shift : (vocab.read ascending fits).markerShift = vocab.markerShift := by simp [markerShift,read]
    obtain ⟨isIndex,isMarker,isVocabIndex⟩ := addMarker_inverse few (vocab.marker_lt word)
      ((List.getElem?_eq_some_iff.mp isInner).1.trans (fits (vocab.splitFunction word)))
    rw [getMarker,← shift] at isMarker
    rw [getVocabIndex,← shift] at isVocabIndex
    have found : (vocab.read ascending fits).wordAt (vocab.addMarker inner (vocab.splitFunction word)) = some word := by
      rw [wordAt,getMarker,getVocabIndex,isMarker,isVocabIndex]
      simpa [read,getElem?_range (vocab.marker_lt word)] using isInner
    exact ⟨isIndex,found,IndexVocabulary.position_of_wordAt (.split _) isIndex found⟩
  · obtain ⟨marker,_,rfl⟩ := mem_map.mp member
    exact fun isWord => unwritten (mem_of_mem_filter isWord)

theorem writeWords_read_iris : ∃ indices,ValueId.iriVocabulary.writeWords [[],[]] [⟨['<','a','>']⟩,⟨['<','b','>']⟩] =
    some (indices,[[⟨['<','a','>']⟩,⟨['<','b','>']⟩],[]]) := by
  have less : (⟨['<','a','>']⟩ : LiteralOrIri ValueId.charLocale) < ⟨['<','b','>']⟩ := by
    rw [← cmp_eq_lt_iff,LiteralOrIri.cmp_eq]
    decide
  obtain ⟨⟨indices,written,_⟩,_⟩ := ValueId.iriVocabulary.writeWords_read (pairwise_pair.mpr less) (by decide)
    (fun _ => (length_filter_le _ _).trans_lt (by decide))
  exact ⟨indices,written⟩

end Qlever.SplitVocabulary
