import Qlever.Library.BinarySearch

/-! The vocabulary of `VocabularyInternalExternal.h`. All words are stored on disk, and some of them also in RAM.
A search over the words in RAM comes first and is then refined on disk. A result `none` of a function stands for a
failed check.
-/
namespace Qlever
open Library List
open Option (getD_some bind_eq_bind bind_some getD_none)

abbrev ByteString := List UInt8

structure WordAndIndex where
  wordAndIndex : Option (ByteString × Nat) := none
  previousIndex : Option Nat := none
  deriving DecidableEq

def WordAndIndex.isEnd (wordAndIndex : WordAndIndex) : Bool := wordAndIndex.wordAndIndex.isNone

/-- The file of the words and the offsets at which they start. The last offset is the size of the file. -/
structure VocabularyOnDisk where
  file : ByteString
  offsets : List Nat
  size : Nat
  deriving DecidableEq

namespace VocabularyOnDisk

structure WordWriter where
  file : ByteString := []
  offsets : List Nat := []
  currentOffset : Nat := 0

def WordWriter.write (word : ByteString) (writer : WordWriter) : WordWriter where
  file := writer.file ++ word
  offsets := writer.offsets ++ [writer.currentOffset]
  currentOffset := writer.currentOffset + word.length

def WordWriter.finish (writer : WordWriter) : WordWriter := {writer with offsets := writer.offsets ++ [writer.currentOffset]}

def «open» (file : ByteString) (offsets : List Nat) : Option VocabularyOnDisk :=
  if 0 < offsets.length then some {file := file,offsets := offsets,size := offsets.length - 1} else none

variable (vocab : VocabularyOnDisk)

def getOffsetAndSize (i : Nat) : Option (Nat × Nat) :=
  if i < vocab.size then do
    let offset ← vocab.offsets[i]?
    let nextOffset ← vocab.offsets[i + 1]?
    return (offset,nextOffset - offset)
  else none

def get (idx : Nat) : Option ByteString :=
  if idx < vocab.size then do
    let (offset,size) ← vocab.getOffsetAndSize idx
    return (vocab.file.drop offset).take size
  else none

def iteratorToWordAndIndex (it : Nat) : Option WordAndIndex :=
  if it = vocab.size then some {}
  else do
    let word ← vocab.get it
    return {wordAndIndex := some (word,it)}

/-- The functions `lower_bound_iterator` and `upper_bound_iterator` of the mixin, which differ only in the test. -/
def boundIterator (goRight : Nat → Option Bool) (beginIdx endIdx : Option Nat) : Option WordAndIndex := do
  let first := beginIdx.getD 0
  let last := endIdx.getD vocab.size
  vocab.iteratorToWordAndIndex (← bisect goRight first (last - first))

def Holds (words : List ByteString) : Prop := vocab.size = words.length ∧ ∀ i,vocab.get i = words[i]?

def offsetOf (words : List ByteString) (i : Nat) : Nat := (words.take i).flatten.length

theorem offsetOf_length (words : List ByteString) : offsetOf words words.length = words.flatten.length := by
  rw [offsetOf,take_length]

variable {words : List ByteString}

theorem offsetOf_append (others : List ByteString) {i : Nat} (inside : i ≤ words.length) :
    offsetOf (words ++ others) i = offsetOf words i := by
  rw [offsetOf,offsetOf,take_append_of_le_length inside]

theorem read_word {i : Nat} {word : ByteString} (isWord : words[i]? = some word) :
    (words.flatten.drop (offsetOf words i)).take (offsetOf words (i + 1) - offsetOf words i) = word := by
  obtain ⟨inside,rfl⟩ := List.getElem?_eq_some_iff.mp isWord
  have rest : words.flatten = (words.take i).flatten ++ (words[i] ++ (words.drop (i + 1)).flatten) := by
    rw [← List.flatten_cons,List.getElem_cons_drop,← List.flatten_append,List.take_append_drop]
  have next : offsetOf words (i + 1) = offsetOf words i + words[i].length := by
    rw [offsetOf,take_succ_eq_append_getElem inside,List.flatten_append,length_append,flatten_singleton]
    rfl
  rw [next,Nat.add_sub_cancel_left,rest,offsetOf,drop_left,take_left]

structure WordWriter.Wrote (writer : WordWriter) (words : List ByteString) : Prop where
  file : writer.file = words.flatten
  offsets : writer.offsets = (range words.length).map (offsetOf words)
  currentOffset : writer.currentOffset = words.flatten.length

section
variable {writer : WordWriter} {words : List ByteString} (wrote : writer.Wrote words)
include wrote

theorem WordWriter.Wrote.write (word : ByteString) :
    (writer.write word).Wrote (words ++ [word]) where
  file := by simp [WordWriter.write,wrote.file]
  offsets := by
    have earlier : (range words.length).map (offsetOf (words ++ [word])) = (range words.length).map (offsetOf words) := by
      apply map_congr_left
      intro i member
      exact offsetOf_append [word] (Nat.le_of_lt (mem_range.mp member))
    rw [length_append,length_singleton,range_succ,map_append,earlier,map_singleton,
      offsetOf_append [word] (Nat.le_refl _),offsetOf_length]
    simp only [WordWriter.write,wrote.offsets,wrote.currentOffset]
  currentOffset := by simp [WordWriter.write,wrote.currentOffset]

theorem WordWriter.Wrote.opened :
    ∃ vocab,«open» writer.finish.file writer.finish.offsets = some vocab ∧ vocab.Holds words := by
  have isOffsets : writer.finish.offsets = (range (words.length + 1)).map (offsetOf words) := by
    rw [range_succ,map_append,map_singleton,offsetOf_length,WordWriter.finish,wrote.offsets,wrote.currentOffset]
  refine ⟨{file := words.flatten,offsets := (range (words.length + 1)).map (offsetOf words),size := words.length},?_,rfl,?_⟩
  · rw [«open»,isOffsets,WordWriter.finish,wrote.file]
    simp
  intro i
  rw [get]
  split
  next inside =>
    have isWord : words[i]? = some words[i] := List.getElem?_eq_getElem inside
    rw [getOffsetAndSize,if_pos inside,isWord,List.getElem?_map,List.getElem?_map,List.getElem?_range (Nat.lt_succ_of_lt inside),
      List.getElem?_range (Nat.succ_lt_succ inside)]
    exact congrArg some (read_word isWord)
  next outside => rw [List.getElem?_eq_none (Nat.le_of_not_lt outside)]

end

variable {vocab}

theorem Holds.iteratorToWordAndIndex (holds : vocab.Holds words) {it : Nat} (inside : it ≤ words.length) :
    vocab.iteratorToWordAndIndex it = some {wordAndIndex := words[it]?.map (·,it)} := by
  rw [VocabularyOnDisk.iteratorToWordAndIndex,holds.1,holds.2]
  split
  next isEnd => rw [isEnd]; simp
  next notEnd =>
    rw [List.getElem?_eq_getElem (Nat.lt_of_le_of_ne inside notEnd)]
    rfl

end VocabularyOnDisk

structure VocabularyInMemoryBinSearch where
  words : List ByteString := []
  indices : List Nat := []
  deriving DecidableEq

namespace VocabularyInMemoryBinSearch

structure WordWriter extends VocabularyInMemoryBinSearch where
  lastIndex : Option Nat := none

def WordWriter.write (word : ByteString) (idx : Nat) (writer : WordWriter) : Option WordWriter :=
  if writer.lastIndex.all (· < idx) then some {words := writer.words ++ [word],indices := writer.indices ++ [idx],lastIndex := some idx}
  else none

variable (vocab : VocabularyInMemoryBinSearch)

/-- The word with this index, or `some none` if the index is not part of the vocabulary. -/
def get (index : Nat) : Option (Option ByteString) := do
  let it ← bisect (fun i => vocab.indices[i]?.map (· < index)) 0 vocab.indices.length
  if vocab.indices[it]? = some index then
    let word ← vocab.words[it]?
    return some word
  else return none

def iteratorToWordAndIndex (it : Nat) : Option WordAndIndex :=
  if it = vocab.words.length then some {}
  else do
    let word ← vocab.words[it]?
    let index ← vocab.indices[it]?
    return {wordAndIndex := some (word,index),previousIndex := if 0 < it then vocab.indices[it - 1]? else none}

/-- The functions of the mixin as for `VocabularyOnDisk`. -/
def boundIterator (goRight : Nat → Option Bool) (beginIdx endIdx : Option Nat) : Option WordAndIndex := do
  let first := beginIdx.getD 0
  let last := endIdx.getD vocab.words.length
  vocab.iteratorToWordAndIndex (← bisect goRight first (last - first))

structure Holds (words : List ByteString) : Prop where
  isPart : vocab.words.map some = vocab.indices.map (words[·]?)
  ascending : vocab.indices.Pairwise (· < ·)

variable {vocab} {words : List ByteString}

section
variable (holds : vocab.Holds words)
include holds

theorem Holds.length : vocab.words.length = vocab.indices.length := by
  have same := congrArg List.length holds.isPart
  simpa using same

theorem Holds.word {k i : Nat} (isIndex : vocab.indices[k]? = some i) : vocab.words[k]? = words[i]? ∧ i < words.length := by
  have same := congrArg (·[k]?) holds.isPart
  simp only [List.getElem?_map,isIndex,Option.map_some] at same
  obtain ⟨word,isWord,found⟩ := Option.map_eq_some_iff.mp same
  exact ⟨by rw [isWord,found],(List.getElem?_eq_some_iff.mp found.symm).1⟩

theorem Holds.closed (bound : Nat) : Closed (fun i => decide (i < bound)) vocab.indices := by
  apply holds.ascending.imp
  intro i j less below
  simp only [decide_eq_true_eq] at below ⊢
  omega

theorem Holds.cuts {test : Nat → Bool} {point : Nat} (cuts : Cuts test 0 words.length point) :
    Cuts (fun k => (vocab.indices[k]?.map test).getD false) 0 vocab.indices.length (partitionPoint (fun i => decide (i < point)) vocab.indices) := by
  apply (cuts_partitionPoint (holds.closed point)).congr
  intro k _ inside
  have isIndex := List.getElem?_eq_getElem inside
  rw [isIndex,Option.map_some,Option.map_some,getD_some,getD_some]
  by_cases less : vocab.indices[k] < point
  · rw [cuts.before _ (Nat.zero_le _) less,decide_eq_true less]
  · rw [cuts.after _ (Nat.le_of_not_lt less) (holds.word isIndex).2,decide_eq_false less]

theorem Holds.get (index : Nat) :
    vocab.get index = some none ∨ vocab.get index = some words[index]? ∧ index < words.length := by
  have found : bisect (fun i => vocab.indices[i]?.map (fun i => decide (i < index))) 0 vocab.indices.length =
      some (partitionPoint (fun i => decide (i < index)) vocab.indices) := by
    apply bisect_eq (fun k => (vocab.indices[k]?.map (fun i => decide (i < index))).getD false)
    · intro k _ inside
      rw [Nat.zero_add] at inside
      rw [List.getElem?_eq_getElem inside]
      rfl
    · rw [Nat.zero_add]
      exact cuts_partitionPoint (holds.closed index)
  rw [VocabularyInMemoryBinSearch.get,found]
  simp only [bind_eq_bind,bind_some]
  split
  next isIndex =>
    obtain ⟨isWord,inside⟩ := holds.word isIndex
    right
    rw [isWord,List.getElem?_eq_getElem inside]
    exact ⟨rfl,inside⟩
  next => exact Or.inl rfl

theorem Holds.append (word : ByteString) : vocab.Holds (words ++ [word]) where
  isPart := by
    rw [holds.isPart]
    apply map_congr_left
    intro i member
    obtain ⟨k,isIndex⟩ := List.getElem?_of_mem member
    rw [List.getElem?_append_left (holds.word isIndex).2]
  ascending := holds.ascending

end

theorem Holds.write {writer : WordWriter} (holds : writer.toVocabularyInMemoryBinSearch.Holds words)
    (lastIndex : writer.lastIndex = writer.indices.getLast?) (word : ByteString) :
    ∃ next,writer.write word words.length = some next ∧ next.toVocabularyInMemoryBinSearch.Holds (words ++ [word]) ∧
      next.lastIndex = next.indices.getLast? := by
  have smaller : ∀ i ∈ writer.indices,i < words.length := by
    intro i member
    obtain ⟨k,isIndex⟩ := List.getElem?_of_mem member
    exact (holds.word isIndex).2
  have allowed : writer.lastIndex.all (· < words.length) = true := by
    rw [lastIndex]
    cases isLast : writer.indices.getLast? with
    | none => rfl
    | some last => exact decide_eq_true (smaller last (mem_of_getLast? isLast))
  refine ⟨_,if_pos allowed,⟨?_,?_⟩,?_⟩
  · rw [map_append,map_append,(holds.append word).isPart]
    simp
  · apply pairwise_append.mpr
    exact ⟨holds.ascending,pairwise_singleton _ _,fun i member j isNew => by rw [mem_singleton.mp isNew]; exact smaller i member⟩
  · simp

end VocabularyInMemoryBinSearch

structure VocabularyInternalExternal where
  internalVocab : VocabularyInMemoryBinSearch
  externalVocab : VocabularyOnDisk
  deriving DecidableEq

namespace VocabularyInternalExternal

structure WordWriter where
  internalWriter : VocabularyInMemoryBinSearch.WordWriter := {}
  externalWriter : VocabularyOnDisk.WordWriter := {}
  idx : Nat := 0
  milestoneDistance : Nat
  sinceMilestone : Nat := 0

def WordWriter.write (word : ByteString) (isExternal : Bool) (writer : WordWriter) : Option (Nat × WordWriter) := do
  let externalWriter := writer.externalWriter.write word
  if !isExternal || writer.milestoneDistance ≤ writer.sinceMilestone || writer.idx == 0 then
    let internalWriter ← writer.internalWriter.write word writer.idx
    return (writer.idx,{writer with
      internalWriter := internalWriter
      externalWriter := externalWriter
      sinceMilestone := 1
      idx := writer.idx + 1})
  else
    return (writer.idx,{writer with externalWriter := externalWriter,sinceMilestone := writer.sinceMilestone + 1,idx := writer.idx + 1})

def WordWriter.finishAndOpen (writer : WordWriter) : Option VocabularyInternalExternal := do
  let finished := writer.externalWriter.finish
  let externalVocab ← VocabularyOnDisk.open finished.file finished.offsets
  return {internalVocab := writer.internalWriter.toVocabularyInMemoryBinSearch,externalVocab := externalVocab}

variable (vocab : VocabularyInternalExternal)

def size : Nat := vocab.externalVocab.size

def get (i : Nat) : Option ByteString := do
  match ← vocab.internalVocab.get i with
  | some word => return word
  | none => vocab.externalVocab.get i

inductive Iterator
  | internal (position : Nat)
  | external (position : Nat)

def iteratorToIndex : Iterator → Option Nat
  | .internal position => vocab.internalVocab.indices[position]?
  | .external position => some position

def dereference : Iterator → Option ByteString
  | .internal position => vocab.internalVocab.words[position]?
  | .external position => vocab.externalVocab.get position

def boundImpl (goRight : Iterator → Option Bool) : Option WordAndIndex := do
  let boundFromInternalVocab ← vocab.internalVocab.boundIterator (fun position => goRight (.internal position)) none none
  let upperBound := boundFromInternalVocab.wordAndIndex.map (fun wordAndIndex => wordAndIndex.2 + 1)
  vocab.externalVocab.boundIterator (fun position => goRight (.external position)) boundFromInternalVocab.previousIndex upperBound

structure Holds (words : List ByteString) : Prop where
  internal : vocab.internalVocab.Holds words
  external : vocab.externalVocab.Holds words

variable {vocab} {words : List ByteString}

theorem Holds.get (holds : vocab.Holds words) (i : Nat) : vocab.get i = words[i]? := by
  rw [VocabularyInternalExternal.get]
  rcases holds.internal.get i with notCached | ⟨cached,inside⟩
  · rw [notCached]
    exact holds.external.2 i
  · rw [cached,List.getElem?_eq_getElem inside]
    rfl

theorem Holds.dereference (holds : vocab.Holds words) {it : Iterator} {i : Nat} (isIndex : vocab.iteratorToIndex it = some i) :
    vocab.dereference it = words[i]? := by
  cases it with
  | internal position => exact (holds.internal.word isIndex).1
  | external position =>
    cases isIndex
    exact holds.external.2 _

variable {test : Nat → Bool}

theorem Holds.boundInternal (holds : vocab.internalVocab.Holds words) {goRight : Nat → Option Bool} {point : Nat}
    (reads : ∀ k i,vocab.internalVocab.indices[k]? = some i → goRight k = some (test i)) (cuts : Cuts test 0 words.length point) :
    ∃ bound,vocab.internalVocab.boundIterator goRight none none = some bound ∧ bound.previousIndex.getD 0 ≤ point ∧
      ∀ wordAndIndex ∈ bound.wordAndIndex,point ≤ wordAndIndex.2 ∧ wordAndIndex.2 < words.length := by
  have found : bisect goRight 0 vocab.internalVocab.indices.length =
      some (partitionPoint (fun i => decide (i < point)) vocab.internalVocab.indices) := by
    apply bisect_eq (fun k => (vocab.internalVocab.indices[k]?.map test).getD false)
    · intro k _ inside
      rw [Nat.zero_add] at inside
      have isIndex := List.getElem?_eq_getElem inside
      rw [reads k _ isIndex,isIndex]
      rfl
    · rw [Nat.zero_add]
      exact holds.cuts cuts
  generalize isPosition : partitionPoint (fun i => decide (i < point)) vocab.internalVocab.indices = position at found
  rw [VocabularyInMemoryBinSearch.boundIterator,holds.length]
  simp only [getD_none,Nat.sub_zero,found,bind_eq_bind,bind_some]
  rw [VocabularyInMemoryBinSearch.iteratorToWordAndIndex,holds.length]
  split
  next => exact ⟨{},rfl,Nat.zero_le _,by simp⟩
  next notEnd =>
    have inside : position < vocab.internalVocab.indices.length := by
      have upper : position ≤ vocab.internalVocab.indices.length := by
        rw [← isPosition]
        exact partitionPoint_le
      omega
    have isIndex := List.getElem?_eq_getElem inside
    obtain ⟨isWord,below⟩ := holds.word isIndex
    have notLess := after_partitionPoint (holds.closed point) (Nat.le_of_eq isPosition) isIndex
    rw [isIndex,isWord,List.getElem?_eq_getElem below]
    refine ⟨_,rfl,?_,?_⟩
    · simp only
      split
      next later =>
        have isPrevious := List.getElem?_eq_getElem (show position - 1 < vocab.internalVocab.indices.length by omega)
        have less := before_partitionPoint (by rw [isPosition]; omega) isPrevious
        rw [isPrevious,getD_some]
        simp only [decide_eq_true_eq] at less
        omega
      next => exact Nat.zero_le _
    · intro wordAndIndex member
      cases member
      exact ⟨by simpa using notLess,below⟩

theorem Holds.boundImpl (holds : vocab.Holds words) {goRight : Iterator → Option Bool} {point : Nat}
    (reads : ∀ it i,vocab.iteratorToIndex it = some i → i < words.length → goRight it = some (test i)) (cuts : Cuts test 0 words.length point) :
    vocab.boundImpl goRight = some {wordAndIndex := words[point]?.map (·,point)} := by
  obtain ⟨bound,isBound,lower,upper⟩ := boundInternal holds.internal
    (fun k i isIndex => reads (.internal k) i isIndex (holds.internal.word isIndex).2) cuts
  have last : ∃ last,(bound.wordAndIndex.map (fun wordAndIndex => wordAndIndex.2 + 1)).getD vocab.externalVocab.size = last ∧
      point ≤ last ∧ last ≤ words.length := by
    cases isEnd : bound.wordAndIndex with
    | none => exact ⟨_,rfl,by rw [Option.map_none,getD_none,holds.external.1]; exact cuts.upper,Nat.le_of_eq holds.external.1⟩
    | some wordAndIndex =>
      obtain ⟨above,below⟩ := upper wordAndIndex isEnd
      exact ⟨_,rfl,by rw [Option.map_some,getD_some]; omega,below⟩
  obtain ⟨last,isLast,reachable,inside⟩ := last
  have whole : bound.previousIndex.getD 0 + (last - bound.previousIndex.getD 0) = last := by omega
  have found : bisect (fun position => goRight (.external position)) (bound.previousIndex.getD 0) (last - bound.previousIndex.getD 0) =
      some point := by
    apply bisect_eq test
    · intro i _ below
      rw [whole] at below
      exact reads (.external i) i rfl (by omega)
    · rw [whole]
      exact ⟨lower,reachable,fun i _ below => cuts.before i (Nat.zero_le i) below,fun i above below => cuts.after i above (by omega)⟩
  rw [VocabularyInternalExternal.boundImpl,isBound]
  simp only [bind_eq_bind,bind_some,VocabularyOnDisk.boundIterator,isLast,found]
  exact holds.external.iteratorToWordAndIndex cuts.upper

structure WordWriter.Wrote (writer : WordWriter) (words : List ByteString) : Prop where
  internal : writer.internalWriter.toVocabularyInMemoryBinSearch.Holds words
  lastIndex : writer.internalWriter.lastIndex = writer.internalWriter.indices.getLast?
  external : writer.externalWriter.Wrote words
  idx : writer.idx = words.length

variable {writer : WordWriter}

theorem WordWriter.Wrote.write (wrote : writer.Wrote words) (word : ByteString) (isExternal : Bool) :
    ∃ next,writer.write word isExternal = some (words.length,next) ∧ next.Wrote (words ++ [word]) := by
  have count : writer.idx + 1 = (words ++ [word]).length := by simp [wrote.idx]
  rw [WordWriter.write]
  split
  next =>
    obtain ⟨internalWriter,written,holds,lastIndex⟩ := wrote.internal.write wrote.lastIndex word
    rw [wrote.idx,written]
    refine ⟨_,rfl,holds,lastIndex,wrote.external.write word,?_⟩
    rw [← wrote.idx]
    exact count
  next =>
    rw [wrote.idx]
    refine ⟨_,rfl,wrote.internal.append word,wrote.lastIndex,wrote.external.write word,?_⟩
    rw [← wrote.idx]
    exact count

theorem WordWriter.Wrote.opened (wrote : writer.Wrote words) :
    ∃ vocab,writer.finishAndOpen = some vocab ∧ vocab.Holds words := by
  obtain ⟨externalVocab,isOpen,holds⟩ := wrote.external.opened
  rw [finishAndOpen,isOpen]
  exact ⟨_,rfl,wrote.internal,holds⟩

theorem WordWriter.wrote_nil (milestoneDistance : Nat) : ({milestoneDistance := milestoneDistance} : WordWriter).Wrote [] where
  internal := ⟨rfl,List.Pairwise.nil⟩
  lastIndex := rfl
  external := ⟨rfl,rfl,rfl⟩
  idx := rfl

end VocabularyInternalExternal
end Qlever
