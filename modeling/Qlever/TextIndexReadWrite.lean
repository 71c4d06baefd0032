import Qlever.Library.Binary32
import Qlever.Simple8bCode
import Qlever.ValueIdComparators

/-! The blocks of the text index, `TextIndexReadWrite.cpp`. A block has a list of word postings and a list of entity postings, and each list is
written in three sections: the text records as gaps, the words or entities by their frequency, and the scores.
-/
namespace Qlever.TextIndexReadWrite
open Library Library.PackedDigits ValueIdComparators

structure Posting where
  textRecordIndex : Nat
  wordIndex : Nat
  score : Nat
  deriving DecidableEq, Repr

/-- The file that is written, with the position that `off_t& currentOffset` counts. -/
structure Output where
  bytes : List Nat
  currentOffset : Nat
  deriving DecidableEq, Repr

def Output.write (out : Output) (data : List Nat) : Output := ⟨out.bytes ++ data,out.currentOffset + data.length⟩

structure ContextListMetaData where
  nofElements : Nat
  startContextlist : Nat
  startWordlist : Nat
  startScorelist : Nat
  lastByte : Int
  deriving DecidableEq, Repr

namespace ContextListMetaData

def getByteLengthContextList (contextList : ContextListMetaData) : Nat := contextList.startWordlist - contextList.startContextlist

def getByteLengthWordlist (contextList : ContextListMetaData) : Nat := contextList.startScorelist - contextList.startWordlist

def getByteLengthScorelist (contextList : ContextListMetaData) : Nat := (contextList.lastByte + 1 - contextList.startScorelist).toNat

end ContextListMetaData

structure TextBlockMetaData where
  cl : ContextListMetaData
  entityCl : ContextListMetaData
  deriving DecidableEq, Repr

structure ZstdWrapper where
  compress : List Nat → List Nat
  decompress : List Nat → Nat → Option (List Nat)
  lossless : ∀ src,decompress (compress src) src.length = some src

/-- The values of a list, sorted by descending frequency. The order of values of the same frequency is that of the hash map, and the sort is not
stable. -/
structure CodeBookOrder where
  codeBook : List Nat → List Nat
  perm : ∀ values,(codeBook values).Perm values.dedup
  descending : ∀ values,(codeBook values).Pairwise (fun first second => values.count second ≤ values.count first)

section Writing

def adjacentDifferences (previous : Nat) : List Nat → List Nat
  | [] => []
  | value :: values => (value + 2 ^ 64 - previous) % 2 ^ 64 :: adjacentDifferences value values

/-- `std::adjacent_difference` on 64-bit numbers. -/
def gapEncode : List Nat → List Nat
  | [] => []
  | value :: values => value :: adjacentDifferences value values

def encodeAndWriteSpanAndMoveOffset (spanToWrite : List Nat) (out : Output) : Option Output :=
  if spanToWrite.length > 0 then do
    let encoded ← Simple8bCode.encode spanToWrite
    return out.write (encoded.flatMap (unpack 8 8))
  else some out

/-- The codebook has numbers of `size` bytes. -/
def writeCodebook (size : Nat) (codebook : List Nat) (out : Output) : Output :=
  (out.write (unpack 8 8 (size * codebook.length))).write (codebook.flatMap (unpack 8 size))

/-- `writeToFile` of `FrequencyEncode`. -/
def writeFrequencyEncoded (order : CodeBookOrder) (size : Nat) (values : List Nat) (out : Output) : Option Output :=
  let codeBook := order.codeBook values
  encodeAndWriteSpanAndMoveOffset (values.map codeBook.idxOf) (writeCodebook size codeBook out)

/-- A cast to `uint16_t`. -/
def scoreToInt (score : Nat) : Nat := Binary32.truncate score % 2 ^ 16

def writeWordlist (order : CodeBookOrder) (words : List Nat) (skipWordlistIfAllTheSame : Bool) (out : Output) : Option Output :=
  if !skipWordlistIfAllTheSame || (order.codeBook words).length > 1 then writeFrequencyEncoded order 8 words out else some out

def writeScorelist (zstd : ZstdWrapper) (order : CodeBookOrder) (scores : List Nat) (scoreIsInt : Bool) (out : Output) : Option Output :=
  if scoreIsInt then writeFrequencyEncoded order 2 (scores.map scoreToInt) out else some (out.write (zstd.compress (scores.flatMap (unpack 8 4))))

def writePostings (zstd : ZstdWrapper) (order : CodeBookOrder) (out : Output) (postings : List Posting) (skipWordlistIfAllTheSame scoreIsInt : Bool) :
    Option (ContextListMetaData × Output) :=
  if postings.length = 0 then
    some (⟨0,out.currentOffset,out.currentOffset,out.currentOffset,(out.currentOffset : Int) - 1⟩,out)
  else do
    let afterTextRecords ← encodeAndWriteSpanAndMoveOffset (gapEncode (postings.map Posting.textRecordIndex)) out
    let afterWords ← writeWordlist order (postings.map Posting.wordIndex) skipWordlistIfAllTheSame afterTextRecords
    let afterScores ← writeScorelist zstd order (postings.map Posting.score) scoreIsInt afterWords
    return (⟨postings.length,out.currentOffset,afterTextRecords.currentOffset,afterWords.currentOffset,(afterScores.currentOffset : Int) - 1⟩,
      afterScores)

/-- What `createTextIndex` writes for a block. -/
def writeBlock (zstd : ZstdWrapper) (order : CodeBookOrder) (out : Output) (classicPostings entityPostings : List Posting) (scoreIsInt : Bool) :
    Option (TextBlockMetaData × Output) := do
  let (classic,out) ← writePostings zstd order out classicPostings true scoreIsInt
  let (entity,out) ← writePostings zstd order out entityPostings false scoreIsInt
  return (⟨classic,entity⟩,out)

end Writing

section Reading
variable {Word : Type}

/-- `File::read` at an offset. The loop that reads behind the end of the file does not end. -/
def readFile (file : List Nat) (nofBytesToRead offset : Nat) : Option (List Nat) :=
  if nofBytesToRead = 0 ∨ offset + nofBytesToRead ≤ file.length then some ((file.drop offset).take nofBytesToRead) else none

def makeFromIndex (makeId : Nat → ValueId Word) (id : Nat) : Option (ValueId Word) := if id < 2 ^ 60 then some (makeId id) else none

def makeFromTextRecordIndex : Nat → Option (ValueId Word) := makeFromIndex (.encoded .TextRecordIndex)

def makeFromWordVocabIndex : Nat → Option (ValueId Word) := makeFromIndex (.encoded .WordVocabIndex)

def makeFromVocabIndex : Nat → Option (ValueId Word) := makeFromIndex .vocabIndex

def makeFromInt (n : Nat) : ValueId Word := .encoded .Int (n % 2 ^ 60)

def makeFromDouble (bits : Nat) : ValueId Word := .encoded .Double (bits / 2 ^ 4)

def readGapComprListHelper (nofElements start nofBytes : Nat) (file : List Nat) : Option (List Nat) := do
  let bytes ← readFile file nofBytes start
  let decoded ← Simple8bCode.decode (readGroups 8 (nofBytes / 8) bytes) nofElements
  return decoded.take nofElements

def undoGaps (previous : Nat) : List Nat → List Nat
  | [] => []
  | gap :: gaps => (previous + gap) % 2 ^ 64 :: undoGaps ((previous + gap) % 2 ^ 64) gaps

def readGapComprList (transformer : Nat → Option (ValueId Word)) (nofElements start nofBytes : Nat) (file : List Nat) : Option (List (ValueId Word)) := do
  let gapEncodedVector ← readGapComprListHelper nofElements start nofBytes file
  (undoGaps 0 gapEncodedVector).mapM transformer

/-- The frequency-encoded list and the codebook, whose numbers have `size` bytes. The list is read into a vector that has a word for each element. -/
def readFreqComprListHelper (size nofElements start nofBytes : Nat) (file : List Nat) : Option (List Nat × List Nat) := do
  guard (nofBytes > 0)
  let header ← readFile file 8 start
  let nofCodebookBytes := pack 8 header
  let codebook ← readFile file nofCodebookBytes (start + 8)
  let current := start + 8 + nofCodebookBytes
  guard (current - start ≤ nofBytes)
  let bytes ← readFile file (nofBytes - (current - start)) current
  guard (bytes.length ≤ 8 * nofElements)
  let simple8bEncoded := readGroups 8 (bytes.length / 8) bytes
  let decoded ← Simple8bCode.decode (simple8bEncoded ++ List.replicate (nofElements - simple8bEncoded.length) 0) nofElements
  return (decoded.take nofElements,readGroups size (nofCodebookBytes / size) codebook)

def readFreqComprList (transformer : Nat → Option (ValueId Word)) (size nofElements start nofBytes : Nat) (file : List Nat) :
    Option (List (ValueId Word)) := do
  let (frequencyEncodedVector,codebook) ← readFreqComprListHelper size nofElements start nofBytes file
  frequencyEncodedVector.mapM (fun encoded => codebook[encoded]? >>= transformer)

def readZstdComprList (zstd : ZstdWrapper) (nofElements start nofBytesCompressed : Nat) (file : List Nat) : Option (List Nat) := do
  let compressed ← readFile file nofBytesCompressed start
  let decompressed ← zstd.decompress compressed (4 * nofElements)
  return readGroups 4 nofElements decompressed

abbrev Row (Word : Type) := ValueId Word × ValueId Word × ValueId Word

def readScorelist (zstd : ZstdWrapper) (contextList : ContextListMetaData) (file : List Nat) (scoreIsInt : Bool) : Option (List (ValueId Word)) :=
  if scoreIsInt then
    readFreqComprList (fun score => some (makeFromInt score)) 2 contextList.nofElements contextList.startScorelist contextList.getByteLengthScorelist file
  else
    (readZstdComprList zstd contextList.nofElements contextList.startScorelist contextList.getByteLengthScorelist file).map
      (fun scores => scores.map (fun score => makeFromDouble (Binary32.toBinary64 score)))

def readContextListHelper (zstd : ZstdWrapper) (contextList : ContextListMetaData) (isWordCl : Bool) (file : List Nat) (scoreIsInt : Bool) :
    Option (List (Row Word)) := do
  let textRecords ← readGapComprList makeFromTextRecordIndex contextList.nofElements contextList.startContextlist
    contextList.getByteLengthContextList file
  let wordIndexToId := if isWordCl then makeFromWordVocabIndex else makeFromVocabIndex
  let words ← readFreqComprList wordIndexToId 8 contextList.nofElements contextList.startWordlist contextList.getByteLengthWordlist file
  let scores ← readScorelist zstd contextList file scoreIsInt
  return textRecords.zip (words.zip scores)

def readWordCl (zstd : ZstdWrapper) (tbmd : TextBlockMetaData) (file : List Nat) (scoreIsInt : Bool) : Option (List (Row Word)) :=
  readContextListHelper zstd tbmd.cl true file scoreIsInt

def readWordEntityCl (zstd : ZstdWrapper) (tbmd : TextBlockMetaData) (file : List Nat) (scoreIsInt : Bool) : Option (List (Row Word)) :=
  readContextListHelper zstd tbmd.entityCl false file scoreIsInt

end Reading

end Qlever.TextIndexReadWrite
