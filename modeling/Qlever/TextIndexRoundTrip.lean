import Qlever.TextIndexReadWrite

/-! What is read from the blocks of the text index. Each section that was written is read back, but a section that was left out is not: the reader
has no case for it.
-/
namespace Qlever.TextIndexReadWrite
open Library Library.PackedDigits ValueIdComparators Simple8bCode List
open Option (bind_eq_bind bind_some)

section Sections
variable {Word : Type} {before after : List Nat}

theorem readFile_section (before data after : List Nat) : readFile (before ++ data ++ after) data.length before.length = some data := by
  rw [readFile,if_pos,append_assoc,drop_left,take_left]
  right
  rw [length_append,length_append]
  omega

theorem write_nil (out : Output) : out.write [] = out := by
  rw [Output.write,append_nil,length_nil,Nat.add_zero]

theorem encodeAndWrite_eq {span : List Nat} (small : ∀ item ∈ span,item < 2 ^ 60) (out : Output) :
    ∃ words,Encodes words span ∧ encodeAndWriteSpanAndMoveOffset span out = some (out.write (words.flatMap (unpack 8 8))) := by
  obtain ⟨words,encoded,encodes⟩ := encode_spec small
  refine ⟨words,encodes,?_⟩
  unfold encodeAndWriteSpanAndMoveOffset
  split
  next =>
    rw [encoded]
    rfl
  next empty =>
    have noSpan : span = [] := length_eq_zero_iff.mp (by omega)
    have noWords : words = [] := by
      have fewer := encodes.fewer
      rw [noSpan] at fewer
      exact length_eq_zero_iff.mp (Nat.le_zero.mp fewer)
    rw [noWords,flatMap_nil,write_nil]

variable {values : List Nat}

theorem undoGaps_adjacentDifferences {previous : Nat} (small : previous < 2 ^ 64) (smallValues : ∀ value ∈ values,value < 2 ^ 64) :
    undoGaps previous (adjacentDifferences previous values) = values := by
  induction values generalizing previous with
  | nil => rfl
  | cons value values ih =>
    obtain ⟨smallValue,smallRest⟩ := forall_mem_cons.mp smallValues
    have sum : (previous + (value + 2 ^ 64 - previous) % 2 ^ 64) % 2 ^ 64 = value := by omega
    rw [adjacentDifferences,undoGaps,sum,ih smallValue smallRest]

theorem undoGaps_gapEncode (small : ∀ value ∈ values,value < 2 ^ 64) : undoGaps 0 (gapEncode values) = values := by
  cases values with
  | nil => rfl
  | cons value values =>
    obtain ⟨smallValue,smallRest⟩ := forall_mem_cons.mp small
    rw [gapEncode,undoGaps,Nat.zero_add,Nat.mod_eq_of_lt smallValue,undoGaps_adjacentDifferences smallValue smallRest]

theorem length_gapEncode (values : List Nat) : (gapEncode values).length = values.length := by
  have differences : ∀ (values : List Nat) previous,(adjacentDifferences previous values).length = values.length := by
    intro values
    induction values with
    | nil => exact fun previous => rfl
    | cons value values ih =>
      intro previous
      rw [adjacentDifferences,length_cons,ih,length_cons]
  cases values with
  | nil => rfl
  | cons value values => rw [gapEncode,length_cons,differences,length_cons]

theorem gapEncode_lt {bound : Nat} (sorted : values.Pairwise (fun first second => first ≤ second))
    (small : ∀ value ∈ values,value < bound) (fits : bound ≤ 2 ^ 64) : ∀ gap ∈ gapEncode values,gap < bound := by
  have differences : ∀ (values : List Nat) previous,values.Pairwise (fun first second => first ≤ second) → (∀ value ∈ values,value < bound) →
      (∀ value ∈ values,previous ≤ value) → ∀ gap ∈ adjacentDifferences previous values,gap < bound := by
    intro values
    induction values with
    | nil =>
      intro previous _ _ _ gap isGap
      cases isGap
    | cons value values ih =>
      intro previous sorted small above gap isGap
      have below := small value mem_cons_self
      have least := above value mem_cons_self
      rcases mem_cons.mp isGap with rfl | isGap
      · omega
      · obtain ⟨first,sortedRest⟩ := pairwise_cons.mp sorted
        exact ih value sortedRest (forall_mem_cons.mp small).2 first gap isGap
  cases values with
  | nil =>
    intro gap isGap
    cases isGap
  | cons value values =>
    intro gap isGap
    obtain ⟨first,sortedRest⟩ := pairwise_cons.mp sorted
    rcases mem_cons.mp isGap with rfl | isGap
    · exact small _ mem_cons_self
    · exact differences values value sortedRest (forall_mem_cons.mp small).2 first gap isGap

variable {words : List Nat}

theorem readGroups_words (small : ∀ word ∈ words,word < 2 ^ 64) :
    readGroups 8 ((words.flatMap (unpack 8 8)).length / 8) (words.flatMap (unpack 8 8)) = words := by
  have whole : readGroups 8 words.length (words.flatMap (unpack 8 8) ++ []) = words := readGroups_flatMap small []
  rw [append_nil] at whole
  rw [length_flatMap_unpack,Nat.mul_div_cancel_left _ (by decide),whole]

theorem readGapComprList_written (before after : List Nat) (encodes : Encodes words (gapEncode values)) (small : ∀ value ∈ values,value < 2 ^ 64)
    (transformer : Nat → Option (ValueId Word)) :
    readGapComprList transformer values.length before.length (words.flatMap (unpack 8 8)).length (before ++ words.flatMap (unpack 8 8) ++ after) =
      values.mapM transformer := by
  obtain ⟨rest,decoded⟩ := encodes.represents []
  rw [append_nil,length_gapEncode] at decoded
  rw [readGapComprList,readGapComprListHelper,readFile_section]
  simp only [bind_eq_bind,bind_some,readGroups_words encodes.small,decoded,Option.pure_def]
  rw [take_left' (length_gapEncode values),undoGaps_gapEncode small]

def frequencySection (size : Nat) (codebook words : List Nat) : List Nat :=
  unpack 8 8 (size * codebook.length) ++ codebook.flatMap (unpack 8 size) ++ words.flatMap (unpack 8 8)

theorem mapM_idxOf {codebook : List Nat} (inCodebook : ∀ value ∈ values,value ∈ codebook) (transformer : Nat → Option (ValueId Word)) :
    (values.map codebook.idxOf).mapM (fun encoded => codebook[encoded]? >>= transformer) = values.mapM transformer := by
  induction values with
  | nil => rfl
  | cons value values ih =>
    obtain ⟨isCode,restInCodebook⟩ := forall_mem_cons.mp inCodebook
    rw [map_cons,mapM_cons,getElem?_idxOf isCode,ih restInCodebook,mapM_cons]
    rfl

theorem readFreqComprList_written {size : Nat} {codebook : List Nat} (encodes : Encodes words (values.map codebook.idxOf))
    (positive : 0 < size) (fits : size * codebook.length < 2 ^ 64) (small : ∀ code ∈ codebook,code < 2 ^ (8 * size))
    (inCodebook : ∀ value ∈ values,value ∈ codebook) (transformer : Nat → Option (ValueId Word)) :
    readFreqComprList transformer size values.length before.length (frequencySection size codebook words).length
      (before ++ frequencySection size codebook words ++ after) = values.mapM transformer := by
  have headerLength : (unpack 8 8 (size * codebook.length)).length = 8 := length_unpack 8 _
  have codebookLength : (codebook.flatMap (unpack 8 size)).length = size * codebook.length := length_flatMap_unpack size codebook
  have dataLength : (words.flatMap (unpack 8 8)).length = 8 * words.length := length_flatMap_unpack 8 words
  have sectionLength : (frequencySection size codebook words).length = 8 + size * codebook.length + 8 * words.length := by
    rw [frequencySection,length_append,length_append,headerLength,codebookLength,dataLength]
  -- the three reads of the section
  have header : readFile (before ++ frequencySection size codebook words ++ after) 8 before.length = some (unpack 8 8 (size * codebook.length)) := by
    have read := readFile_section before (unpack 8 8 (size * codebook.length))
      (codebook.flatMap (unpack 8 size) ++ words.flatMap (unpack 8 8) ++ after)
    rw [headerLength] at read
    simpa only [frequencySection,append_assoc] using read
  have codes : readFile (before ++ frequencySection size codebook words ++ after) (size * codebook.length) (before.length + 8) =
      some (codebook.flatMap (unpack 8 size)) := by
    have read := readFile_section (before ++ unpack 8 8 (size * codebook.length)) (codebook.flatMap (unpack 8 size))
      (words.flatMap (unpack 8 8) ++ after)
    rw [codebookLength,length_append,headerLength] at read
    simpa only [frequencySection,append_assoc] using read
  have data : readFile (before ++ frequencySection size codebook words ++ after) (8 * words.length) (before.length + 8 + size * codebook.length) =
      some (words.flatMap (unpack 8 8)) := by
    have read := readFile_section (before ++ unpack 8 8 (size * codebook.length) ++ codebook.flatMap (unpack 8 size)) (words.flatMap (unpack 8 8)) after
    rw [dataLength,length_append,length_append,headerLength,codebookLength] at read
    simpa only [frequencySection,append_assoc] using read
  have codebookBytes : pack 8 (unpack 8 8 (size * codebook.length)) = size * codebook.length := pack_unpack fits
  have codebookRead : readGroups size (size * codebook.length / size) (codebook.flatMap (unpack 8 size)) = codebook := by
    have whole : readGroups size codebook.length (codebook.flatMap (unpack 8 size) ++ []) = codebook := readGroups_flatMap small []
    rw [append_nil] at whole
    rw [Nat.mul_div_cancel_left _ positive,whole]
  have fewer := encodes.fewer
  rw [length_map] at fewer
  obtain ⟨rest,decoded⟩ := encodes.represents (replicate (values.length - words.length) 0)
  rw [length_map] at decoded
  have helper : readFreqComprListHelper size values.length before.length (frequencySection size codebook words).length
      (before ++ frequencySection size codebook words ++ after) = some (values.map codebook.idxOf,codebook) := by
    have positiveLength : 8 + size * codebook.length + 8 * words.length > 0 := by omega
    have afterCodebook : before.length + 8 + size * codebook.length - before.length = 8 + size * codebook.length := by omega
    have inside : 8 + size * codebook.length ≤ 8 + size * codebook.length + 8 * words.length := by omega
    have room : 8 * words.length ≤ 8 * values.length := by omega
    simp only [readFreqComprListHelper,sectionLength,positiveLength,guard_true,bind_eq_bind,Option.pure_def,bind_some,header,codebookBytes,
      codes,afterCodebook,inside,Nat.add_sub_cancel_left,data,dataLength,room,codebookRead]
    have words' := readGroups_words encodes.small
    rw [dataLength] at words'
    rw [words',decoded,bind_some,take_left' (length_map _)]
  rw [readFreqComprList,helper]
  exact mapM_idxOf inCodebook transformer

theorem readZstdComprList_written (before after : List Nat) (zstd : ZstdWrapper) {scores : List Nat} (small : ∀ score ∈ scores,score < 2 ^ 32) :
    readZstdComprList zstd scores.length before.length (zstd.compress (scores.flatMap (unpack 8 4))).length
      (before ++ zstd.compress (scores.flatMap (unpack 8 4)) ++ after) = some scores := by
  have lossless := zstd.lossless (scores.flatMap (unpack 8 4))
  rw [length_flatMap_unpack] at lossless
  have whole : readGroups 4 scores.length (scores.flatMap (unpack 8 4) ++ []) = scores := readGroups_flatMap small []
  rw [append_nil] at whole
  rw [readZstdComprList,readFile_section,bind_eq_bind,bind_some,lossless,bind_some,whole]
  rfl

theorem mapM_makeFromIndex (makeId : Nat → ValueId Word) {ids : List Nat} (small : ∀ id ∈ ids,id < 2 ^ 60) :
    ids.mapM (makeFromIndex makeId) = some (ids.map makeId) := by
  induction ids with
  | nil => rfl
  | cons id ids ih =>
    obtain ⟨smallId,smallIds⟩ := forall_mem_cons.mp small
    rw [mapM_cons,makeFromIndex,if_pos smallId,ih smallIds]
    rfl

end Sections

/-- The postings of a block as `createTextIndex` collects them. The sorter sorts them by text record, the indices are those of IDs, and a posting
has 24 bytes of memory. -/
structure Postings (scoreIsInt : Bool) where
  postings : List Posting
  sorted : postings.Pairwise (fun first second => first.textRecordIndex ≤ second.textRecordIndex)
  textRecords : ∀ posting ∈ postings,posting.textRecordIndex < 2 ^ 60
  words : ∀ posting ∈ postings,posting.wordIndex < 2 ^ 60
  scores : ∀ posting ∈ postings,posting.score < 2 ^ 32
  integers : scoreIsInt = true → ∀ posting ∈ postings,∃ n < 2 ^ 16,posting.score = Binary32.ofNat n
  inMemory : 24 * postings.length < 2 ^ 63

section Lists
variable (zstd : ZstdWrapper) (order : CodeBookOrder) {Word : Type} {values : List Nat}

theorem writeFrequencyEncoded_eq (size : Nat) (inMemory : values.length < 2 ^ 60) (out : Output) :
    ∃ words,Encodes words (values.map (order.codeBook values).idxOf) ∧
      writeFrequencyEncoded order size values out = some (out.write (frequencySection size (order.codeBook values) words)) := by
  have fewer : (order.codeBook values).length ≤ values.length := by
    rw [(order.perm values).length_eq]
    exact (dedup_sublist values).length_le
  have small : ∀ code ∈ values.map (order.codeBook values).idxOf,code < 2 ^ 60 := by
    intro code isCode
    obtain ⟨value,isValue,rfl⟩ := List.mem_map.mp isCode
    have inCodeBook : value ∈ order.codeBook values := (order.perm values).mem_iff.mpr (mem_dedup.mpr isValue)
    have below := idxOf_lt_length_of_mem inCodeBook
    omega
  obtain ⟨words,encodes,written⟩ := encodeAndWrite_eq small (writeCodebook size (order.codeBook values) out)
  refine ⟨words,encodes,?_⟩
  rw [writeFrequencyEncoded,written]
  simp only [writeCodebook,Output.write,frequencySection,append_assoc,length_append,Nat.add_assoc]

theorem codeBook_spec {size : Nat} (small : ∀ value ∈ values,value < 2 ^ (8 * size)) (inMemory : values.length < 2 ^ 60)
    (fits : size ≤ 8) : size * (order.codeBook values).length < 2 ^ 64 ∧ (∀ code ∈ order.codeBook values,code < 2 ^ (8 * size)) ∧
      ∀ value ∈ values,value ∈ order.codeBook values := by
  have fewer : (order.codeBook values).length ≤ values.length := by
    rw [(order.perm values).length_eq]
    exact (dedup_sublist values).length_le
  refine ⟨?_,?_,?_⟩
  · have product := Nat.mul_le_mul fits fewer
    omega
  · intro code isCode
    exact small code (mem_dedup.mp ((order.perm values).mem_iff.mp isCode))
  · intro value isValue
    exact (order.perm values).mem_iff.mpr (mem_dedup.mpr isValue)

def writesWords (words : List Nat) (skipWordlistIfAllTheSame : Bool) : Bool := !skipWordlistIfAllTheSame || (order.codeBook words).length > 1

def FrequencyEncoded (size : Nat) (values bytes : List Nat) : Prop :=
  ∃ encoded,Encodes encoded (values.map (order.codeBook values).idxOf) ∧ bytes = frequencySection size (order.codeBook values) encoded

structure Written (scoreIsInt skipWordlistIfAllTheSame : Bool) (postings : List Posting) (out out' : Output) (contextList : ContextListMetaData)
    (textRecords words scores : List Nat) : Prop where
  output : out' = out.write (textRecords ++ words ++ scores)
  metadata : contextList = ⟨postings.length,out.currentOffset,out.currentOffset + textRecords.length,
    out.currentOffset + textRecords.length + words.length,((out.currentOffset + textRecords.length + words.length + scores.length : Nat) : Int) - 1⟩
  textRecords : ∃ encoded,Encodes encoded (gapEncode (postings.map Posting.textRecordIndex)) ∧ textRecords = encoded.flatMap (unpack 8 8)
  words : if writesWords order (postings.map Posting.wordIndex) skipWordlistIfAllTheSame then FrequencyEncoded order 8 (postings.map Posting.wordIndex) words
    else words = []
  scores : if scoreIsInt then FrequencyEncoded order 2 ((postings.map Posting.score).map scoreToInt) scores
    else scores = zstd.compress ((postings.map Posting.score).flatMap (unpack 8 4))

theorem writeWordlist_eq (inMemory : values.length < 2 ^ 60) (skipWordlistIfAllTheSame : Bool) (out : Output) :
    ∃ words,writeWordlist order values skipWordlistIfAllTheSame out = some (out.write words) ∧
      if writesWords order values skipWordlistIfAllTheSame then FrequencyEncoded order 8 values words else words = [] := by
  unfold writeWordlist writesWords
  split
  next =>
    obtain ⟨encoded,encodes,written⟩ := writeFrequencyEncoded_eq order 8 inMemory out
    exact ⟨_,written,encoded,encodes,rfl⟩
  next => exact ⟨[],by rw [write_nil],rfl⟩

theorem writeScorelist_eq (inMemory : values.length < 2 ^ 60) (scoreIsInt : Bool) (out : Output) :
    ∃ scores,writeScorelist zstd order values scoreIsInt out = some (out.write scores) ∧
      if scoreIsInt then FrequencyEncoded order 2 (values.map scoreToInt) scores else scores = zstd.compress (values.flatMap (unpack 8 4)) := by
  cases scoreIsInt with
  | false => exact ⟨_,rfl,rfl⟩
  | true =>
    have inMemory' : (values.map scoreToInt).length < 2 ^ 60 := by rwa [length_map]
    obtain ⟨encoded,encodes,written⟩ := writeFrequencyEncoded_eq order 2 inMemory' out
    exact ⟨_,written,encoded,encodes,rfl⟩

variable {scoreIsInt : Bool}

theorem writePostings_eq (list : Postings scoreIsInt) (nonempty : list.postings ≠ []) (skipWordlistIfAllTheSame : Bool)
    (out : Output) : ∃ contextList out' textRecords words scores,
      writePostings zstd order out list.postings skipWordlistIfAllTheSame scoreIsInt = some (contextList,out') ∧
        Written zstd order scoreIsInt skipWordlistIfAllTheSame list.postings out out' contextList textRecords words scores := by
  have inMemory : ∀ field : Posting → Nat,(list.postings.map field).length < 2 ^ 60 := by
    intro field
    have bytes := list.inMemory
    rw [length_map]
    omega
  have notEmpty : ¬ list.postings.length = 0 := fun empty => nonempty (length_eq_zero_iff.mp empty)
  have sorted : (list.postings.map Posting.textRecordIndex).Pairwise (fun first second => first ≤ second) := pairwise_map.mpr list.sorted
  have gaps := gapEncode_lt sorted (forall_mem_map.mpr list.textRecords) (by decide)
  obtain ⟨encoded,encodes,textRecordsWritten⟩ := encodeAndWrite_eq gaps out
  obtain ⟨words,wordsWritten,wordsEncoded⟩ := writeWordlist_eq order (inMemory Posting.wordIndex) skipWordlistIfAllTheSame
    (out.write (encoded.flatMap (unpack 8 8)))
  obtain ⟨scores,scoresWritten,scoresEncoded⟩ := writeScorelist_eq zstd order (inMemory Posting.score) scoreIsInt
    ((out.write (encoded.flatMap (unpack 8 8))).write words)
  refine ⟨_,_,encoded.flatMap (unpack 8 8),words,scores,?_,⟨rfl,rfl,⟨encoded,encodes,rfl⟩,wordsEncoded,scoresEncoded⟩⟩
  simp only [writePostings,notEmpty,if_false,textRecordsWritten,bind_eq_bind,bind_some,wordsWritten,scoresWritten,Option.pure_def]
  simp only [Output.write,append_assoc,length_append,Nat.add_assoc]

def wordId (isWordCl : Bool) (wordIndex : Nat) : ValueId Word := if isWordCl then .encoded .WordVocabIndex wordIndex else .vocabIndex wordIndex

def scoreId (scoreIsInt : Bool) (score : Nat) : ValueId Word :=
  if scoreIsInt then makeFromInt (scoreToInt score) else makeFromDouble (Binary32.toBinary64 score)

def rowOf (isWordCl scoreIsInt : Bool) (posting : Posting) : Row Word :=
  (.encoded .TextRecordIndex posting.textRecordIndex,wordId isWordCl posting.wordIndex,scoreId scoreIsInt posting.score)

theorem readFreqComprList_encoded {size : Nat} (positive : 0 < size) (fits : size ≤ 8) {bytes : List Nat}
    (small : ∀ value ∈ values,value < 2 ^ (8 * size)) (inMemory : values.length < 2 ^ 60) (encoded : FrequencyEncoded order size values bytes)
    (before after : List Nat) (transformer : Nat → Option (ValueId Word)) :
    readFreqComprList transformer size values.length before.length bytes.length (before ++ bytes ++ after) = values.mapM transformer := by
  obtain ⟨encoded,encodes,rfl⟩ := encoded
  obtain ⟨room,smallCodes,inCodebook⟩ := codeBook_spec order small inMemory fits
  exact readFreqComprList_written encodes positive room smallCodes inCodebook transformer

variable {contextList : ContextListMetaData} {before : List Nat}

theorem readScorelist_written {list : Postings scoreIsInt} {scores : List Nat}     (encoded : if scoreIsInt then FrequencyEncoded order 2 ((list.postings.map Posting.score).map scoreToInt) scores
      else scores = zstd.compress ((list.postings.map Posting.score).flatMap (unpack 8 4)))
    (count : contextList.nofElements = list.postings.length) (start : contextList.startScorelist = before.length)
    (length : contextList.getByteLengthScorelist = scores.length) (after : List Nat) :
    readScorelist zstd contextList (before ++ scores ++ after) scoreIsInt = some ((list.postings.map Posting.score).map (scoreId scoreIsInt) : List (ValueId Word)) := by
  rw [readScorelist,count,start,length]
  cases scoreIsInt with
  | false =>
    have small : ∀ score ∈ list.postings.map Posting.score,score < 2 ^ 32 := forall_mem_map.mpr list.scores
    have read := readZstdComprList_written before after zstd small
    rw [length_map] at read
    rw [encoded]
    simp only [Bool.false_eq_true,if_false,read,Option.map_some]
    rfl
  | true =>
    have small : ∀ score ∈ (list.postings.map Posting.score).map scoreToInt,score < 2 ^ (8 * 2) := by
      intro score isScore
      obtain ⟨bits,-,rfl⟩ := List.mem_map.mp isScore
      exact Nat.mod_lt _ (Nat.two_pow_pos 16)
    have inMemory : ((list.postings.map Posting.score).map scoreToInt).length < 2 ^ 60 := by
      have bytes := list.inMemory
      rw [length_map,length_map]
      omega
    have read := readFreqComprList_encoded order (by decide) (by decide) small inMemory encoded before after
      (fun score => some (makeFromInt score : ValueId Word))
    rw [length_map,length_map] at read
    rw [if_pos rfl,read,mapM_map]
    exact mapM_pure

theorem readContextListHelper_written {skipWordlistIfAllTheSame : Bool} (isWordCl : Bool) {list : Postings scoreIsInt}
    {out' : Output} {textRecords words scores : List Nat}
    (written : Written zstd order scoreIsInt skipWordlistIfAllTheSame list.postings ⟨before,before.length⟩ out' contextList textRecords words scores)
    (writes : writesWords order (list.postings.map Posting.wordIndex) skipWordlistIfAllTheSame = true) (after : List Nat) :
    readContextListHelper zstd contextList isWordCl (out'.bytes ++ after) scoreIsInt =
      some (list.postings.map (rowOf isWordCl scoreIsInt) : List (Row Word)) := by
  have inMemory : (list.postings.map Posting.wordIndex).length < 2 ^ 60 := by
    have bytes := list.inMemory
    rw [length_map]
    omega
  obtain ⟨rfl,rfl,⟨encoded,encodes,rfl⟩,wordsEncoded,scoresEncoded⟩ := written
  rw [if_pos writes] at wordsEncoded
  have smallRecords : ∀ record ∈ list.postings.map Posting.textRecordIndex,record < 2 ^ 60 := forall_mem_map.mpr list.textRecords
  have smallWords : ∀ word ∈ list.postings.map Posting.wordIndex,word < 2 ^ 60 := forall_mem_map.mpr list.words
  -- each section stands between the ones before and after it
  have textRecordsRead := readGapComprList_written before (words ++ scores ++ after) encodes
    (fun record isRecord => (smallRecords record isRecord).trans (by decide)) (makeFromTextRecordIndex : Nat → Option (ValueId Word))
  have wordsRead := readFreqComprList_encoded order (by decide) (by decide)
    (fun word isWord => (smallWords word isWord).trans (by decide)) inMemory wordsEncoded (before ++ encoded.flatMap (unpack 8 8)) (scores ++ after)
    (if isWordCl then makeFromWordVocabIndex else makeFromVocabIndex : Nat → Option (ValueId Word))
  generalize encoded.flatMap (unpack 8 8) = textRecords at *
  have scoresRead : readScorelist zstd ⟨list.postings.length,before.length,before.length + textRecords.length,
      before.length + textRecords.length + words.length,((before.length + textRecords.length + words.length + scores.length : Nat) : Int) - 1⟩
      (before ++ textRecords ++ words ++ scores ++ after) scoreIsInt =
        some ((list.postings.map Posting.score).map (scoreId scoreIsInt) : List (ValueId Word)) := by
    apply readScorelist_written zstd order scoresEncoded rfl
    · simp only [length_append]
    · simp only [ContextListMetaData.getByteLengthScorelist]
      omega
  have ids : (list.postings.map Posting.wordIndex).mapM (if isWordCl then makeFromWordVocabIndex else makeFromVocabIndex : Nat → Option (ValueId Word)) =
      some ((list.postings.map Posting.wordIndex).map (wordId isWordCl)) := by
    cases isWordCl <;> exact mapM_makeFromIndex _ smallWords
  rw [length_map,makeFromTextRecordIndex,mapM_makeFromIndex _ smallRecords] at textRecordsRead
  rw [length_map,length_append,ids] at wordsRead
  have file : (Output.write ⟨before,before.length⟩ (textRecords ++ words ++ scores)).bytes ++ after = before ++ textRecords ++ words ++ scores ++ after := by
    simp only [Output.write,append_assoc]
  have lengthTextRecords : before.length + textRecords.length - before.length = textRecords.length := by omega
  have lengthWords : before.length + textRecords.length + words.length - (before.length + textRecords.length) = words.length := by omega
  rw [file,readContextListHelper]
  simp only [ContextListMetaData.getByteLengthContextList,ContextListMetaData.getByteLengthWordlist,lengthTextRecords,lengthWords]
  rw [← append_assoc,← append_assoc] at textRecordsRead
  rw [← append_assoc] at wordsRead
  rw [makeFromTextRecordIndex,textRecordsRead,bind_eq_bind,bind_some,wordsRead,bind_some,scoresRead,bind_some,
    Option.pure_def,map_map,map_map,map_map,zip_map',zip_map']
  rfl

theorem readContextListHelper_noWords (noWords : contextList.getByteLengthWordlist = 0) (isWordCl : Bool)
    (file : List Nat) (scoreIsInt : Bool) : (readContextListHelper zstd contextList isWordCl file scoreIsInt : Option (List (Row Word))) = none := by
  have noList : ∀ (transformer : Nat → Option (ValueId Word)) start,
      readFreqComprList transformer 8 contextList.nofElements start contextList.getByteLengthWordlist file = none := by
    intro transformer start
    rw [readFreqComprList,readFreqComprListHelper,noWords]
    rfl
  rw [readContextListHelper]
  simp only [noList,bind_eq_bind,Option.bind_none]
  cases readGapComprList makeFromTextRecordIndex contextList.nofElements contextList.startContextlist contextList.getByteLengthContextList file <;> rfl

theorem writePostings_noWords (list : Postings scoreIsInt) {skipWordlistIfAllTheSame : Bool} {out out' : Output}
    (leavesOut : list.postings = [] ∨ writesWords order (list.postings.map Posting.wordIndex) skipWordlistIfAllTheSame = false)
    (written : writePostings zstd order out list.postings skipWordlistIfAllTheSame scoreIsInt = some (contextList,out')) :
    contextList.getByteLengthWordlist = 0 := by
  by_cases empty : list.postings = []
  · rw [empty] at written
    cases written
    exact Nat.sub_self _
  · obtain ⟨contextList',out'',textRecords,words,scores,written',isWritten⟩ := writePostings_eq zstd order list empty skipWordlistIfAllTheSame out
    rw [written'] at written
    cases written
    have noWords := isWritten.words
    rw [if_neg (by rw [leavesOut.resolve_left empty]; decide)] at noWords
    rw [isWritten.metadata,noWords]
    exact Nat.sub_self _

theorem writesWords_skip (words : List Nat) : writesWords order words true = true ↔ ∃ first ∈ words,∃ second ∈ words,first ≠ second := by
  have sameLength := (order.perm words).length_eq
  simp only [writesWords,Bool.not_true,Bool.false_or,decide_eq_true_eq,sameLength]
  constructor
  · intro several
    cases distinct : words.dedup with
    | nil => simp [distinct] at several
    | cons first rest =>
      cases rest with
      | nil => simp [distinct] at several
      | cons second rest =>
        have isFirst : first ∈ words.dedup := by simp [distinct]
        have isSecond : second ∈ words.dedup := by simp [distinct]
        have nodup := nodup_dedup words
        rw [distinct,nodup_cons] at nodup
        exact ⟨first,mem_dedup.mp isFirst,second,mem_dedup.mp isSecond,fun same => nodup.1 (same ▸ mem_cons_self)⟩
  · rintro ⟨first,isFirst,second,isSecond,different⟩
    by_contra few
    obtain ⟨only,single⟩ : ∃ only,∀ word ∈ words.dedup,word = only := by
      cases distinct : words.dedup with
      | nil => exact ⟨first,by simp⟩
      | cons only rest =>
        have noRest : rest = [] := by
          rw [distinct,length_cons] at few
          exact length_eq_zero_iff.mp (by omega)
        exact ⟨only,by simp [noRest]⟩
    exact different ((single first (mem_dedup.mpr isFirst)).trans (single second (mem_dedup.mpr isSecond)).symm)

theorem write_atEnd (before data : List Nat) : (Output.mk before before.length).write data = ⟨before ++ data,(before ++ data).length⟩ := by
  rw [Output.write,length_append]

end Lists

section Claim
variable (zstd : ZstdWrapper) (order : CodeBookOrder) (Word : Type)

structure IsPosting {Word : Type} (isWordCl scoreIsInt : Bool) (posting : Posting) (row : Row Word) : Prop where
  textRecord : row.1 = .encoded .TextRecordIndex posting.textRecordIndex
  word : row.2.1 = wordId isWordCl posting.wordIndex
  score : if scoreIsInt then ∃ n : Nat,posting.score = Binary32.ofNat n ∧ getNumeric row.2.2 = some (.int n)
    else getNumeric row.2.2 = some (.double (Binary32.toBinary64 posting.score))

def ReadsBlock (scoreIsInt : Bool) (before : List Nat) (classicPostings entityPostings : List Posting) : Prop :=
  ∃ tbmd out,writeBlock zstd order ⟨before,before.length⟩ classicPostings entityPostings scoreIsInt = some (tbmd,out) ∧
    ∀ after,∃ wordRows entityRows : List (Row Word),
      readWordCl zstd tbmd (out.bytes ++ after) scoreIsInt = some wordRows ∧
      readWordEntityCl zstd tbmd (out.bytes ++ after) scoreIsInt = some entityRows ∧
      List.Forall₂ (IsPosting true scoreIsInt) classicPostings wordRows ∧ List.Forall₂ (IsPosting false scoreIsInt) entityPostings entityRows

variable {zstd order Word} {scoreIsInt : Bool}

theorem isPosting_rowOf (list : Postings scoreIsInt) (isWordCl : Bool) :
    List.Forall₂ (IsPosting isWordCl scoreIsInt) list.postings (list.postings.map (rowOf isWordCl scoreIsInt) : List (Row Word)) := by
  rw [forall₂_map_right_iff,forall₂_same]
  intro posting isPosting
  refine ⟨rfl,rfl,?_⟩
  cases scoreIsInt with
  | false =>
    have exact' : Binary32.toBinary64 posting.score / 2 ^ 4 * 2 ^ 4 = Binary32.toBinary64 posting.score :=
      Nat.div_mul_cancel (Nat.dvd_of_mod_eq_zero (Binary32.toBinary64_mod posting.score))
    simp only [Bool.false_eq_true,if_false,rowOf,scoreId,makeFromDouble,getNumeric,doubleFromData,exact']
  | true =>
    obtain ⟨n,small,isInt⟩ := list.integers rfl posting isPosting
    have score : scoreToInt posting.score = n := by
      rw [scoreToInt,isInt,Binary32.truncate_ofNat (small.trans (by decide)),Nat.mod_eq_of_lt small]
    have data : fromNBit (n % 2 ^ 60) = (n : Int) := by
      rw [Nat.mod_eq_of_lt (small.trans (by decide)),fromNBit,if_pos (small.trans (by decide))]
    rw [if_pos rfl]
    refine ⟨n,isInt,?_⟩
    simp only [rowOf,scoreId,if_true,makeFromInt,getNumeric,score,data]

theorem writeBlock_eq_some {before : List Nat} {classicPostings entityPostings : List Posting} {tbmd : TextBlockMetaData}
    {out : Output} (written : writeBlock zstd order ⟨before,before.length⟩ classicPostings entityPostings scoreIsInt = some (tbmd,out)) :
    ∃ between,writePostings zstd order ⟨before,before.length⟩ classicPostings true scoreIsInt = some (tbmd.cl,between) ∧
      writePostings zstd order between entityPostings false scoreIsInt = some (tbmd.entityCl,out) := by
  rw [writeBlock,bind_eq_bind,Option.bind_eq_some_iff] at written
  obtain ⟨⟨classic,between⟩,classicWritten,rest⟩ := written
  obtain ⟨⟨entity,after⟩,entityWritten,result⟩ := Option.bind_eq_some_iff.mp rest
  cases result
  exact ⟨between,classicWritten,entityWritten⟩

theorem ReadsBlock.of_nonempty (before : List Nat) {classicPostings entityPostings : Postings scoreIsInt}
    (writesClassic : writesWords order (classicPostings.postings.map Posting.wordIndex) true = true) (someClassic : classicPostings.postings ≠ [])
    (someEntity : entityPostings.postings ≠ []) :
    ReadsBlock zstd order Word scoreIsInt before classicPostings.postings entityPostings.postings := by
  obtain ⟨classic,between,_,_,_,classicWritten,isClassic⟩ := writePostings_eq zstd order classicPostings someClassic true ⟨before,before.length⟩
  have atEnd : between = ⟨between.bytes,between.bytes.length⟩ := by rw [isClassic.output,write_atEnd]
  obtain ⟨entity,out,textRecords,words,scores,entityWritten,isEntity⟩ := writePostings_eq zstd order entityPostings someEntity false between
  refine ⟨⟨classic,entity⟩,out,?_,?_⟩
  · rw [writeBlock,classicWritten,bind_eq_bind,bind_some]
    simp only [entityWritten]
    rfl
  · intro after
    have append : out.bytes ++ after = between.bytes ++ (textRecords ++ words ++ scores ++ after) := by
      rw [isEntity.output,Output.write,append_assoc]
    refine ⟨_,_,?_,?_,isPosting_rowOf classicPostings true,isPosting_rowOf entityPostings false⟩
    · rw [append]
      exact readContextListHelper_written zstd order true isClassic writesClassic _
    · rw [atEnd] at isEntity
      exact readContextListHelper_written zstd order false isEntity rfl after

theorem ReadsBlock.writesWords {before entityPostings : List _} (classicPostings : Postings scoreIsInt)
    (readsBlock : ReadsBlock zstd order Word scoreIsInt before classicPostings.postings entityPostings) :
    writesWords order (classicPostings.postings.map Posting.wordIndex) true = true := by
  obtain ⟨tbmd,out,written,reads⟩ := readsBlock
  obtain ⟨between,classicWritten,-⟩ := writeBlock_eq_some written
  obtain ⟨wordRows,_,wordsRead,-⟩ := reads []
  by_contra leavesOut
  have noWords := writePostings_noWords zstd order classicPostings (.inr (Bool.not_eq_true _ ▸ leavesOut)) classicWritten
  rw [readWordCl,readContextListHelper_noWords zstd noWords] at wordsRead
  cases wordsRead

theorem ReadsBlock.someEntity {before classicPostings : List _} (entityPostings : Postings scoreIsInt)
    (readsBlock : ReadsBlock zstd order Word scoreIsInt before classicPostings entityPostings.postings) : entityPostings.postings ≠ [] := by
  obtain ⟨tbmd,out,written,reads⟩ := readsBlock
  obtain ⟨between,-,entityWritten⟩ := writeBlock_eq_some written
  obtain ⟨_,entityRows,-,entitiesRead,-⟩ := reads []
  intro empty
  have noWords := writePostings_noWords zstd order entityPostings (.inl empty) entityWritten
  rw [readWordEntityCl,readContextListHelper_noWords zstd noWords] at entitiesRead
  cases entitiesRead

/-- A block is read back if and only if it has two different words and an entity. -/
theorem readsBlock_iff {scoreIsInt : Bool} (before : List Nat) (classicPostings entityPostings : Postings scoreIsInt) :
    ReadsBlock zstd order Word scoreIsInt before classicPostings.postings entityPostings.postings ↔
      (∃ first ∈ classicPostings.postings,∃ second ∈ classicPostings.postings,first.wordIndex ≠ second.wordIndex) ∧ entityPostings.postings ≠ [] := by
  have several : TextIndexReadWrite.writesWords order (classicPostings.postings.map Posting.wordIndex) true = true ↔
      ∃ first ∈ classicPostings.postings,∃ second ∈ classicPostings.postings,first.wordIndex ≠ second.wordIndex := by
    rw [writesWords_skip]
    simp only [List.mem_map,exists_exists_and_eq_and]
  rw [← several]
  constructor
  · intro readsBlock
    exact ⟨readsBlock.writesWords classicPostings,readsBlock.someEntity entityPostings⟩
  · rintro ⟨writes,someEntity⟩
    have someClassic : classicPostings.postings ≠ [] := by
      intro empty
      obtain ⟨first,isFirst,-⟩ := several.mp writes
      rw [empty] at isFirst
      cases isFirst
    exact ReadsBlock.of_nonempty before writes someClassic someEntity

end Claim

def noCompression : ZstdWrapper := ⟨id,fun bytes size => if bytes.length = size then some bytes else none,by simp⟩

def byFrequency : CodeBookOrder where
  codeBook values := values.dedup.insertionSort (fun first second => values.count second ≤ values.count first)
  perm values := perm_insertionSort _ _
  descending values := by
    have total : Std.Total (fun first second => values.count second ≤ values.count first) := ⟨fun first second => Nat.le_total _ _⟩
    have transitive : IsTrans Nat (fun first second => values.count second ≤ values.count first) := ⟨fun a b c first second => second.trans first⟩
    exact pairwise_insertionSort _ _

def withScoreOne (postings : List Posting) (sorted : postings.Pairwise (fun first second => first.textRecordIndex ≤ second.textRecordIndex))
    (small : ∀ posting ∈ postings,posting.textRecordIndex < 2 ^ 60 ∧ posting.wordIndex < 2 ^ 60 ∧ posting.score = Binary32.ofNat 1)
    (inMemory : 24 * postings.length < 2 ^ 63) : Postings true where
  postings := postings
  sorted := sorted
  textRecords posting isPosting := (small posting isPosting).1
  words posting isPosting := (small posting isPosting).2.1
  scores posting isPosting := by
    rw [(small posting isPosting).2.2]
    decide
  integers _ posting isPosting := ⟨1,by decide,(small posting isPosting).2.2⟩
  inMemory := inMemory

def oneWord : Postings true := withScoreOne [⟨0,7,Binary32.ofNat 1⟩,⟨1,7,Binary32.ofNat 1⟩] (by decide) (by decide) (by decide)

def oneEntity : Postings true := withScoreOne [⟨0,3,Binary32.ofNat 1⟩] (by decide) (by decide) (by decide)

def twoWords : Postings true := withScoreOne [⟨0,7,Binary32.ofNat 1⟩,⟨1,8,Binary32.ofNat 1⟩] (by decide) (by decide) (by decide)

def noEntity : Postings true := withScoreOne [] (by decide) (by decide) (by decide)

/-- A block with one word and a block without an entity cannot be read. -/
theorem readsBlock_fails : ¬ ReadsBlock noCompression byFrequency Nat true [] oneWord.postings oneEntity.postings ∧
    ¬ ReadsBlock noCompression byFrequency Nat true [] twoWords.postings noEntity.postings := by
  constructor
  · intro readsBlock
    have writes := readsBlock.writesWords oneWord
    rw [writesWords_skip] at writes
    revert writes
    decide
  · intro readsBlock
    exact readsBlock.someEntity noEntity rfl

end Qlever.TextIndexReadWrite
