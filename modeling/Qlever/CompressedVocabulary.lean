import Qlever.Library.Interleaving
import Qlever.VocabularyInternalExternal

/-! The vocabulary of `CompressedVocabulary.h` over the `VocabularyInternalExternal`. The writer collects the words
in blocks. The blocks are compressed by several threads at once, and one thread writes them in their order.
-/
namespace Qlever
open Library
variable {Decoder Search : Type}

structure CompressionWrapper (Decoder : Type) where
  compressAll : List ByteString → List ByteString × Decoder
  decompress : Decoder → ByteString → ByteString

def CompressionWrapper.Lossless (wrapper : CompressionWrapper Decoder) : Prop :=
  ∀ words,(wrapper.compressAll words).1.map (wrapper.decompress (wrapper.compressAll words).2) = words

structure Comparator (Search : Type) where
  less : ByteString → ByteString → Bool
  wordLess : ByteString → Search → Bool
  searchLess : Search → ByteString → Bool
  wordLess_of_le : ∀ {x y search},less y x = false → wordLess y search = true → wordLess x search = true
  searchLess_of_le : ∀ {x y search},less y x = false → searchLess search x = true → searchLess search y = true

def Comparator.ofLess (less : ByteString → ByteString → Bool)
    (negTrans : ∀ x y z,less x z = true → less x y = true ∨ less y z = true) : Comparator ByteString where
  less := less
  wordLess := less
  searchLess := less
  wordLess_of_le := by
    intro x y search notLess isLess
    rcases negTrans y x search isLess with before | after
    · rw [notLess] at before
      cases before
    · exact after
  searchLess_of_le := by
    intro x y search notLess isLess
    rcases negTrans search y x isLess with before | after
    · exact before
    · rw [notLess] at after
      cases after

/-- The words are sorted as `std::is_sorted` requires it. -/
def Comparator.Sorted (comparator : Comparator Search) (words : List ByteString) : Prop :=
  words.Pairwise (fun x y => comparator.less y x = false)

/-- What `std::lower_bound` returns for an array: the first word that is not less than the search string. -/
def stdLowerBound (comparator : Comparator Search) (words : List ByteString) (search : Search) : WordAndIndex :=
  let point := partitionPoint (fun word => comparator.wordLess word search) words
  {wordAndIndex := words[point]?.map (·,point)}

/-- What `std::upper_bound` returns for an array: the first word that is greater than the search string. -/
def stdUpperBound (comparator : Comparator Search) (words : List ByteString) (search : Search) : WordAndIndex :=
  let point := partitionPoint (fun word => !comparator.searchLess search word) words
  {wordAndIndex := words[point]?.map (·,point)}

structure CompressedVocabulary (Decoder : Type) where
  underlyingVocabulary : VocabularyInternalExternal
  decoders : List Decoder

namespace CompressedVocabulary
open VocabularyInternalExternal (Iterator)

section Search
variable (wrapper : CompressionWrapper Decoder) (numWordsPerBlock : Nat) (vocab : CompressedVocabulary Decoder)

def decompress (compressed : ByteString) (decoderIndex : Nat) : Option ByteString := do
  let decoder ← vocab.decoders[decoderIndex]?
  return wrapper.decompress decoder compressed

def getDecoderIdx (idx : Nat) : Nat := idx / numWordsPerBlock

def size : Nat := vocab.underlyingVocabulary.size

def get (idx : Nat) : Option ByteString := do
  let compressed ← vocab.underlyingVocabulary.get idx
  vocab.decompress wrapper compressed (getDecoderIdx numWordsPerBlock idx)

def decompressFromIterator (it : Iterator) : Option ByteString := do
  let idx ← vocab.underlyingVocabulary.iteratorToIndex it
  let compressed ← vocab.underlyingVocabulary.dereference it
  vocab.decompress wrapper compressed (getDecoderIdx numWordsPerBlock idx)

def convertWordAndIndexFromUnderlyingVocab (wordAndIndex : WordAndIndex) : Option WordAndIndex :=
  match wordAndIndex.wordAndIndex with
  | none => some wordAndIndex
  | some (word,index) => do
    let decompressedWord ← vocab.decompress wrapper word (getDecoderIdx numWordsPerBlock index)
    return {wordAndIndex := some (decompressedWord,index)}

def lowerBound (comparator : Comparator Search) (word : Search) : Option WordAndIndex := do
  let wordAndIndex ← vocab.underlyingVocabulary.boundImpl (fun it => do
    return comparator.wordLess (← vocab.decompressFromIterator wrapper numWordsPerBlock it) word)
  vocab.convertWordAndIndexFromUnderlyingVocab wrapper numWordsPerBlock wordAndIndex

def upperBound (comparator : Comparator Search) (word : Search) : Option WordAndIndex := do
  let wordAndIndex ← vocab.underlyingVocabulary.boundImpl (fun it => do
    return !comparator.searchLess word (← vocab.decompressFromIterator wrapper numWordsPerBlock it))
  vocab.convertWordAndIndexFromUnderlyingVocab wrapper numWordsPerBlock wordAndIndex

structure Holds (words : List ByteString) : Prop where
  stored : ∃ compressed,vocab.underlyingVocabulary.Holds compressed ∧
    words.map some = compressed.zipIdx.map (fun (word,idx) => vocab.decompress wrapper word (getDecoderIdx numWordsPerBlock idx))

end Search

section Holds
variable {wrapper : CompressionWrapper Decoder} {numWordsPerBlock : Nat} {vocab : CompressedVocabulary Decoder} {words : List ByteString}

section
variable (holds : vocab.Holds wrapper numWordsPerBlock words)
include holds

theorem Holds.get (i : Nat) : vocab.get wrapper numWordsPerBlock i = words[i]? := by
  obtain ⟨compressed,stored,isWords⟩ := holds.stored
  have same := congrArg (·[i]?) isWords
  simp only [List.getElem?_map,List.getElem?_zipIdx,Option.map_map] at same
  rw [CompressedVocabulary.get,stored.get]
  cases isCompressed : compressed[i]? with
  | none =>
    rw [isCompressed,Option.map_none,Option.map_eq_none_iff] at same
    rw [same]
    rfl
  | some word =>
    rw [isCompressed,Option.map_some,Option.map_eq_some_iff] at same
    obtain ⟨word',isWord,decompressed⟩ := same
    simp only [Function.comp_apply,Nat.zero_add] at decompressed
    rw [isWord,decompressed]
    rfl

theorem Holds.size : vocab.size = words.length := by
  obtain ⟨compressed,stored,isWords⟩ := holds.stored
  have same := congrArg List.length isWords
  simp only [List.length_map,List.length_zipIdx] at same
  rw [same]
  exact stored.external.1

theorem Holds.decompressFromIterator {it : Iterator} {i : Nat}
    (isIndex : vocab.underlyingVocabulary.iteratorToIndex it = some i) : vocab.decompressFromIterator wrapper numWordsPerBlock it = words[i]? := by
  rw [← holds.get i]
  obtain ⟨compressed,stored,_⟩ := holds.stored
  rw [CompressedVocabulary.decompressFromIterator,isIndex,stored.dereference isIndex,CompressedVocabulary.get,stored.get]
  rfl

theorem Holds.bound {test : ByteString → Bool} (closed : Closed test words) :
    (vocab.underlyingVocabulary.boundImpl (fun it => do return test (← vocab.decompressFromIterator wrapper numWordsPerBlock it)) >>=
      vocab.convertWordAndIndexFromUnderlyingVocab wrapper numWordsPerBlock) =
        some {wordAndIndex := words[partitionPoint test words]?.map (·,partitionPoint test words)} := by
  obtain ⟨compressed,stored,isWords⟩ := holds.stored
  have sameLength : words.length = compressed.length := by
    have same := congrArg List.length isWords
    simpa using same
  have cuts := cuts_partitionPoint closed
  rw [sameLength] at cuts
  have reads : ∀ it i,vocab.underlyingVocabulary.iteratorToIndex it = some i → i < compressed.length →
      (do return test (← vocab.decompressFromIterator wrapper numWordsPerBlock it) : Option Bool) = some ((words[i]?.map test).getD false) := by
    intro it i isIndex inside
    rw [← sameLength] at inside
    rw [holds.decompressFromIterator isIndex,List.getElem?_eq_getElem inside]
    rfl
  rw [stored.boundImpl reads cuts,Option.bind_eq_bind,Option.bind_some,convertWordAndIndexFromUnderlyingVocab]
  have decompressed := holds.get (partitionPoint test words)
  rw [CompressedVocabulary.get,stored.get] at decompressed
  by_cases inside : partitionPoint test words < words.length
  · rw [List.getElem?_eq_getElem inside] at decompressed ⊢
    rw [List.getElem?_eq_getElem (by rw [← sameLength]; exact inside),Option.bind_eq_bind,Option.bind_some] at decompressed
    rw [List.getElem?_eq_getElem (by rw [← sameLength]; exact inside)]
    simp only [Option.map_some,decompressed]
    rfl
  · rw [List.getElem?_eq_none (Nat.le_of_not_lt inside),List.getElem?_eq_none (by rw [← sameLength]; exact Nat.le_of_not_lt inside)]
    rfl

section
variable {comparator : Comparator Search} (sorted : comparator.Sorted words) (search : Search)
include sorted

theorem Holds.lowerBound : vocab.lowerBound wrapper numWordsPerBlock comparator search = some (stdLowerBound comparator words search) :=
  holds.bound (sorted.imp fun notLess isLess => comparator.wordLess_of_le notLess isLess)

theorem Holds.upperBound : vocab.upperBound wrapper numWordsPerBlock comparator search = some (stdUpperBound comparator words search) := by
  have closed : Closed (fun word => !comparator.searchLess search word) words := by
    apply sorted.imp
    intro x y notLess notGreater
    simp only [Bool.not_eq_true'] at notGreater ⊢
    by_contra greater
    rw [comparator.searchLess_of_le notLess (by simpa using greater)] at notGreater
    cases notGreater
  exact holds.bound closed

end

end

end Holds
/-- A block that is compressed by a thread of `compressQueue_`. -/
structure Task where
  index : Nat
  words : List ByteString
  isExternal : List Bool
  deriving DecidableEq

/-- A compressed block in `writeQueue_`. -/
structure BulkResult (Decoder : Type) where
  views : List ByteString
  decoder : Decoder
  isExternal : List Bool

inductive Phase
  | calling
  | finishing
  | finished
  deriving DecidableEq

/-- The writer with its threads. The remaining words are those for which `operator()` has not yet been called. The
ordered queue takes a value only if its index is the next one. -/
structure DiskWriter (Decoder : Type) where
  remaining : List (ByteString × Bool)
  phase : Phase := .calling
  wordBuffer : List ByteString := []
  isExternalBuffer : List Bool := []
  queueIndex : Nat := 0
  compressQueue : List Task := []
  compressing : List Task := []
  nextIndex : Nat := 0
  writeQueue : List (BulkResult Decoder) := []
  underlyingWriter : VocabularyInternalExternal.WordWriter
  decoders : List Decoder := []

inductive Action
  | call
  | start
  | push (position : Nat)
  | write

section Writer
variable (wrapper : CompressionWrapper Decoder) (numWordsPerBlock : Nat)

def initial (milestoneDistance : Nat) (entries : List (ByteString × Bool)) : DiskWriter Decoder where
  remaining := entries
  underlyingWriter := {milestoneDistance := milestoneDistance}

/-- The caller waits while `compressQueue_` is full. -/
def finishBlock (writer : DiskWriter Decoder) : Option (DiskWriter Decoder) :=
  if writer.wordBuffer.isEmpty then some writer
  else if writer.compressQueue.length < 10 then
    some {writer with
      compressQueue := writer.compressQueue ++ [{
        index := writer.queueIndex
        words := writer.wordBuffer
        isExternal := writer.isExternalBuffer}]
      queueIndex := writer.queueIndex + 1
      wordBuffer := []
      isExternalBuffer := []}
  else none

/-- One call of `operator()`, or one of the two parts of `finishImpl`, of which the second one waits for all threads. -/
def call (writer : DiskWriter Decoder) : Option (DiskWriter Decoder) :=
  match writer.phase,writer.remaining with
  | .calling,(word,isExternal)::remaining =>
    let writer := {writer with
      remaining := remaining
      wordBuffer := writer.wordBuffer ++ [word]
      isExternalBuffer := writer.isExternalBuffer ++ [isExternal]}
    if writer.wordBuffer.length = numWordsPerBlock then finishBlock writer else some writer
  | .calling,[] => do
    let writer ← finishBlock writer
    return {writer with phase := .finishing}
  | .finishing,_ =>
    if writer.compressQueue.isEmpty ∧ writer.compressing.isEmpty ∧ writer.writeQueue.isEmpty then some {writer with phase := .finished} else none
  | .finished,_ => none

def compress (task : Task) : BulkResult Decoder where
  views := (wrapper.compressAll task.words).1
  decoder := (wrapper.compressAll task.words).2
  isExternal := task.isExternal

def writeBlock (block : BulkResult Decoder) (writer : VocabularyInternalExternal.WordWriter) : Option VocabularyInternalExternal.WordWriter :=
  block.views.zipIdx.foldlM (fun writer (word,i) => do
    let isExternal ← block.isExternal[i]?
    let (_,writer) ← writer.write word isExternal
    return writer) writer

def step (writer : DiskWriter Decoder) : Action → Option (DiskWriter Decoder)
  | .call => call numWordsPerBlock writer
  | .start =>
    match writer.compressQueue with
    | task::compressQueue =>
      if writer.compressing.length < 10 then some {writer with compressQueue := compressQueue,compressing := writer.compressing ++ [task]} else none
    | [] => none
  | .push position => do
    let task ← writer.compressing[position]?
    if task.index = writer.nextIndex ∧ writer.writeQueue.length < 5 then
      some {writer with
        compressing := writer.compressing.eraseIdx position
        nextIndex := writer.nextIndex + 1
        writeQueue := writer.writeQueue ++ [compress wrapper task]}
    else none
  | .write =>
    match writer.writeQueue with
    | block::writeQueue => do
      let underlyingWriter ← writeBlock block writer.underlyingWriter
      return {writer with writeQueue := writeQueue,underlyingWriter := underlyingWriter,decoders := writer.decoders ++ [block.decoder]}
    | [] => none

def «open» (writer : DiskWriter Decoder) : Option (CompressedVocabulary Decoder) := do
  let underlyingVocabulary ← writer.underlyingWriter.finishAndOpen
  let vocab : CompressedVocabulary Decoder := {underlyingVocabulary := underlyingVocabulary,decoders := writer.decoders}
  if vocab.size = 0 ∨ getDecoderIdx numWordsPerBlock vocab.size ≤ vocab.decoders.length then some vocab else none

end Writer

end CompressedVocabulary
end Qlever
