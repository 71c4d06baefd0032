import Qlever.TextIndexRoundTrip

/-! `FrequencyEncode` of `TextIndexReadWrite.h`: the code of a value is its position when the values are sorted by descending frequency. A list of
postings that is written with its words is read back, because the code book has each value once.
-/
namespace Qlever.FrequencyEncode
open Library TextIndexReadWrite List

structure FrequencySort where
  sort : List (Nat × Nat) → List (Nat × Nat)
  perm : ∀ frequencyMap,(sort frequencyMap).Perm frequencyMap
  descending : ∀ frequencyMap,(sort frequencyMap).Pairwise (fun first second => second.2 ≤ first.2)

/-- `++frequencyMap[value]` -/
def increment (value : Nat) : List (Nat × Nat) → List (Nat × Nat)
  | [] => [(value,1)]
  | (key,count) :: frequencyMap => if key = value then (key,count + 1) :: frequencyMap else (key,count) :: increment value frequencyMap

structure Encoding where
  encodedVector : List Nat
  codeMap : List (Nat × Nat)
  codeBook : List Nat
  deriving DecidableEq, Repr

/-- The constructor. A value that `codeMap` does not have would get the code 0. -/
def encode (sort : FrequencySort) (view : List Nat) : Encoding :=
  let frequencyVector := sort.sort (view.foldl (fun frequencyMap value => increment value frequencyMap) [])
  let codeBook := frequencyVector.map Prod.fst
  let codeMap := codeBook.zipIdx
  ⟨view.map (fun value => (codeMap.lookup value).getD 0),codeMap,codeBook⟩

section CodeBook

theorem keys_increment (value : Nat) (frequencyMap : List (Nat × Nat)) :
    (increment value frequencyMap).map Prod.fst =
      if value ∈ frequencyMap.map Prod.fst then frequencyMap.map Prod.fst else frequencyMap.map Prod.fst ++ [value] := by
  induction frequencyMap with
  | nil => rfl
  | cons entry frequencyMap ih =>
    obtain ⟨key,count⟩ := entry
    rw [increment]
    by_cases same : key = value
    · rw [if_pos same,if_pos (by simp [same])]
      rfl
    · have other : value ≠ key := fun same' => same same'.symm
      rw [if_neg same,map_cons,ih,map_cons]
      simp only [mem_cons,other,false_or]
      split <;> rfl

variable {frequencyMap : List (Nat × Nat)}

theorem mem_increment {value key count : Nat} (distinct : (frequencyMap.map Prod.fst).Nodup)
    (isEntry : (key,count) ∈ increment value frequencyMap) :
    key ≠ value ∧ (key,count) ∈ frequencyMap ∨ key = value ∧ ((value ∉ frequencyMap.map Prod.fst ∧ count = 1) ∨
      ∃ before,(value,before) ∈ frequencyMap ∧ count = before + 1) := by
  induction frequencyMap with
  | nil =>
    cases mem_singleton.mp isEntry
    exact .inr ⟨rfl,.inl ⟨not_mem_nil,rfl⟩⟩
  | cons entry frequencyMap ih =>
    obtain ⟨first,times⟩ := entry
    rw [map_cons,nodup_cons] at distinct
    rw [increment] at isEntry
    split at isEntry
    next same =>
      subst same
      rcases mem_cons.mp isEntry with isFirst | isOther
      · cases isFirst
        exact .inr ⟨rfl,.inr ⟨times,mem_cons_self,rfl⟩⟩
      · have notFirst : key ≠ first := by
          intro same
          apply distinct.1
          rw [← same]
          exact List.mem_map.mpr ⟨_,isOther,rfl⟩
        exact .inl ⟨notFirst,mem_cons_of_mem _ isOther⟩
    next other =>
      rcases mem_cons.mp isEntry with isFirst | isOther
      · cases isFirst
        exact .inl ⟨other,mem_cons_self⟩
      · rcases ih distinct.2 isOther with ⟨different,stays⟩ | ⟨same,⟨isNew,one⟩ | ⟨before,wasEntry,more⟩⟩
        · exact .inl ⟨different,mem_cons_of_mem _ stays⟩
        · refine .inr ⟨same,.inl ⟨?_,one⟩⟩
          rw [map_cons,mem_cons,not_or]
          exact ⟨fun isFirst => other isFirst.symm,isNew⟩
        · exact .inr ⟨same,.inr ⟨before,mem_cons_of_mem _ wasEntry,more⟩⟩

structure Counts (frequencyMap : List (Nat × Nat)) (seen : List Nat) : Prop where
  distinct : (frequencyMap.map Prod.fst).Nodup
  keys : ∀ value,value ∈ frequencyMap.map Prod.fst ↔ value ∈ seen
  counts : ∀ entry ∈ frequencyMap,entry.2 = seen.count entry.1

variable {seen : List Nat}

theorem Counts.increment (counts : Counts frequencyMap seen) (value : Nat) :
    Counts (increment value frequencyMap) (seen ++ [value]) := by
  refine ⟨?_,?_,?_⟩
  · rw [keys_increment]
    split
    next => exact counts.distinct
    next isNew => exact nodup_append_comm.mp (nodup_cons.mpr ⟨isNew,counts.distinct⟩)
  · intro key
    rw [keys_increment,mem_append,mem_singleton]
    split
    next isKey =>
      rw [counts.keys]
      exact ⟨.inl,fun isSeen => isSeen.elim id (fun same => same ▸ (counts.keys value).mp isKey)⟩
    next => rw [mem_append,mem_singleton,counts.keys]
  · rintro ⟨key,count⟩ isEntry
    rw [count_append]
    rcases mem_increment counts.distinct isEntry with ⟨different,stays⟩ | ⟨rfl,⟨isNew,rfl⟩ | ⟨before,wasEntry,rfl⟩⟩
    · rw [count_singleton,if_neg (by simpa using different.symm)]
      exact counts.counts _ stays
    · rw [counts.keys] at isNew
      simp [count_eq_zero.mpr isNew]
    · have counted := counts.counts _ wasEntry
      simp only at counted
      simp [counted]

theorem counts_foldl (values : List Nat) (counts : Counts frequencyMap seen) :
    Counts (values.foldl (fun frequencyMap value => increment value frequencyMap) frequencyMap) (seen ++ values) := by
  induction values generalizing frequencyMap seen with
  | nil => simpa using counts
  | cons value values ih =>
    have counted := ih (counts.increment value)
    rwa [append_assoc,singleton_append] at counted

variable (sort : FrequencySort) (view : List Nat)

theorem frequencyVector_spec : ∃ frequencyVector : List (Nat × Nat),(encode sort view).codeBook = frequencyVector.map Prod.fst ∧
    Counts frequencyVector view ∧ frequencyVector.Pairwise (fun first second => second.2 ≤ first.2) := by
  have counts : Counts (view.foldl (fun frequencyMap value => increment value frequencyMap) []) view := by
    have empty : Counts [] [] := ⟨nodup_nil,fun value => Iff.rfl,fun entry isEntry => absurd isEntry not_mem_nil⟩
    exact counts_foldl view empty
  have perm := sort.perm (view.foldl (fun frequencyMap value => increment value frequencyMap) [])
  refine ⟨_,rfl,⟨?_,?_,?_⟩,sort.descending _⟩
  · exact (perm.map Prod.fst).nodup_iff.mpr counts.distinct
  · intro value
    rw [(perm.map Prod.fst).mem_iff,counts.keys]
  · intro entry isEntry
    exact counts.counts entry (perm.mem_iff.mp isEntry)

theorem codeBook_perm : (encode sort view).codeBook.Perm view.dedup := by
  obtain ⟨frequencyVector,isCodeBook,counts,-⟩ := frequencyVector_spec sort view
  rw [isCodeBook,perm_ext_iff_of_nodup counts.distinct (nodup_dedup view)]
  intro value
  rw [counts.keys,mem_dedup]

theorem codeBook_descending : (encode sort view).codeBook.Pairwise (fun first second => view.count second ≤ view.count first) := by
  obtain ⟨frequencyVector,isCodeBook,counts,descending⟩ := frequencyVector_spec sort view
  rw [isCodeBook,pairwise_map]
  refine descending.imp_of_mem ?_
  intro first second isFirst isSecond fewer
  rwa [← counts.counts first isFirst,← counts.counts second isSecond]

/-- The order of the values that `sort` gives. -/
def FrequencySort.order : CodeBookOrder where
  codeBook values := (encode sort values).codeBook
  perm := codeBook_perm sort
  descending := codeBook_descending sort

theorem lookup_zipIdx {codeBook : List Nat} {value : Nat} (isCode : value ∈ codeBook) (start : Nat) :
    (codeBook.zipIdx start).lookup value = some (start + codeBook.idxOf value) := by
  induction codeBook generalizing start with
  | nil => cases isCode
  | cons code codeBook ih =>
    rw [zipIdx_cons,lookup_cons,idxOf_cons]
    by_cases same : value = code
    · simp [same]
    · have different : ¬ code = value := fun same' => same same'.symm
      have isLater := (mem_cons.mp isCode).resolve_left same
      simp only [beq_eq_false_iff_ne.mpr same,beq_eq_false_iff_ne.mpr different,cond_false,ih isLater]
      congr 1
      omega

theorem encodedVector_eq : (encode sort view).encodedVector = view.map (sort.order.codeBook view).idxOf := by
  apply map_congr_left
  intro value isValue
  have isCode : value ∈ (encode sort view).codeBook := (codeBook_perm sort view).mem_iff.mpr (mem_dedup.mpr isValue)
  have found := lookup_zipIdx isCode 0
  rw [Nat.zero_add] at found
  exact congrArg (fun code => code.getD 0) found

def writeToFile (encoding : Encoding) (size : Nat) (out : Output) : Option Output :=
  encodeAndWriteSpanAndMoveOffset encoding.encodedVector (writeCodebook size encoding.codeBook out)

theorem writeToFile_encode (size : Nat) (out : Output) : writeToFile (encode sort view) size out = writeFrequencyEncoded sort.order size view out := by
  rw [writeToFile,encodedVector_eq,writeFrequencyEncoded]
  rfl

end CodeBook

section RoundTrip
variable {Word : Type}

structure Sections (contextList : ContextListMetaData) (before bytes textRecords words scores : List Nat) : Prop where
  bytes : bytes = before ++ textRecords ++ words ++ scores
  startContextlist : contextList.startContextlist = before.length
  byteLengthContextList : contextList.getByteLengthContextList = textRecords.length
  startWordlist : contextList.startWordlist = (before ++ textRecords).length
  byteLengthWordlist : contextList.getByteLengthWordlist = words.length
  startScorelist : contextList.startScorelist = (before ++ textRecords ++ words).length
  byteLengthScorelist : contextList.getByteLengthScorelist = scores.length

theorem sections_of_written {zstd : ZstdWrapper} {order : CodeBookOrder} {scoreIsInt skipWordlistIfAllTheSame : Bool} {postings : List Posting}
    {before : List Nat} {out : Output} {contextList : ContextListMetaData} {textRecords words scores : List Nat}
    (written : Written zstd order scoreIsInt skipWordlistIfAllTheSame postings ⟨before,before.length⟩ out contextList textRecords words scores) :
    Sections contextList before out.bytes textRecords words scores := by
  rw [written.output,written.metadata]
  refine ⟨?_,rfl,?_,?_,?_,?_,?_⟩
  · simp only [Output.write,append_assoc]
  · exact Nat.add_sub_cancel_left _ _
  · rw [length_append]
  · exact Nat.add_sub_cancel_left _ _
  · rw [length_append,length_append]
  · simp only [ContextListMetaData.getByteLengthScorelist]
    omega

structure IsFrequencySection (sort : FrequencySort) (size : Nat) (values bytes : List Nat) : Prop where
  encoded : FrequencyEncoded sort.order size values bytes
  once : (encode sort values).codeBook.Nodup
  each : ∀ value,value ∈ (encode sort values).codeBook ↔ value ∈ values

theorem isFrequencySection {sort : FrequencySort} {size : Nat} {values bytes : List Nat} (encoded : FrequencyEncoded sort.order size values bytes) :
    IsFrequencySection sort size values bytes := by
  have perm := codeBook_perm sort values
  refine ⟨encoded,perm.nodup_iff.mpr (nodup_dedup values),?_⟩
  intro value
  rw [perm.mem_iff,mem_dedup]

/-- What is written at the end of a file is read back, whatever follows. -/
theorem readFreqComprList_writeToFile (sort : FrequencySort) {size : Nat} (positive : 0 < size) (fits : size ≤ 8) {view : List Nat}
    (small : ∀ value ∈ view,value < 2 ^ (8 * size)) (inMemory : view.length < 2 ^ 60) (before : List Nat) :
    ∃ out,writeToFile (encode sort view) size ⟨before,before.length⟩ = some out ∧ ∀ after,∀ transformer : Nat → Option (ValueId Word),
      readFreqComprList transformer size view.length before.length (out.bytes.length - before.length) (out.bytes ++ after) = view.mapM transformer := by
  obtain ⟨words,encodes,written⟩ := writeFrequencyEncoded_eq sort.order size inMemory ⟨before,before.length⟩
  rw [← writeToFile_encode,write_atEnd] at written
  refine ⟨_,written,fun after transformer => ?_⟩
  have read := readFreqComprList_encoded sort.order positive fits small inMemory ⟨words,encodes,rfl⟩ before after transformer
  rwa [length_append,Nat.add_sub_cancel_left]

/-- Postings with integer scores that are written at the end of a file, whatever follows. -/
theorem readContextListHelper_writePostings (zstd : ZstdWrapper) (sort : FrequencySort) (list : Postings true) (nonempty : list.postings ≠ [])
    (isWordCl : Bool) (before : List Nat) : ∃ contextList out textRecords words scores,
      writePostings zstd sort.order ⟨before,before.length⟩ list.postings false true = some (contextList,out) ∧
      Sections contextList before out.bytes textRecords words scores ∧ out.currentOffset = out.bytes.length ∧
      IsFrequencySection sort 8 (list.postings.map Posting.wordIndex) words ∧
      IsFrequencySection sort 2 ((list.postings.map Posting.score).map scoreToInt) scores ∧
      ∀ after,∃ rows : List (Row Word),readContextListHelper zstd contextList isWordCl (out.bytes ++ after) true = some rows ∧
        List.Forall₂ (IsPosting isWordCl true) list.postings rows := by
  obtain ⟨contextList,out,textRecords,words,scores,isWritten,written⟩ := writePostings_eq zstd sort.order list nonempty false ⟨before,before.length⟩
  have wordsEncoded := written.words
  have scoresEncoded := written.scores
  rw [if_pos (show writesWords sort.order _ false = true from rfl)] at wordsEncoded
  rw [if_pos rfl] at scoresEncoded
  refine ⟨contextList,out,textRecords,words,scores,isWritten,sections_of_written written,?_,isFrequencySection wordsEncoded,
    isFrequencySection scoresEncoded,?_⟩
  · rw [written.output,write_atEnd]
  · intro after
    exact ⟨_,readContextListHelper_written zstd sort.order isWordCl written rfl after,isPosting_rowOf list isWordCl⟩

def stableSort : FrequencySort where
  sort := insertionSort (fun first second => second.2 ≤ first.2)
  perm := perm_insertionSort _
  descending frequencyMap := by
    have total : Std.Total (fun first second : Nat × Nat => second.2 ≤ first.2) := ⟨fun first second => Nat.le_total _ _⟩
    have transitive : IsTrans (Nat × Nat) (fun first second => second.2 ≤ first.2) := ⟨fun _ _ _ first second => second.trans first⟩
    exact pairwise_insertionSort _ _

theorem readFreqComprList_writeToFile_twoBytes :
    ∃ out,writeToFile (encode stableSort [7,300,7]) 2 ⟨[1],1⟩ = some out ∧ ∀ after,∀ transformer : Nat → Option (ValueId Nat),
      readFreqComprList transformer 2 3 1 (out.bytes.length - 1) (out.bytes ++ after) = [7,300,7].mapM transformer :=
  readFreqComprList_writeToFile stableSort (by decide) (by decide) (by decide) (by decide) [1]

/-- The list of two words behind five bytes. -/
theorem readContextListHelper_writePostings_twoWords : ∃ contextList out textRecords words scores,
    writePostings noCompression stableSort.order ⟨[1,2,3,4,5],5⟩ twoWords.postings false true = some (contextList,out) ∧
    Sections contextList [1,2,3,4,5] out.bytes textRecords words scores ∧ out.currentOffset = out.bytes.length ∧
    IsFrequencySection stableSort 8 (twoWords.postings.map Posting.wordIndex) words ∧
    IsFrequencySection stableSort 2 ((twoWords.postings.map Posting.score).map scoreToInt) scores ∧
    ∀ after,∃ rows : List (Row Nat),readContextListHelper noCompression contextList true (out.bytes ++ after) true = some rows ∧
      List.Forall₂ (IsPosting true true) twoWords.postings rows :=
  readContextListHelper_writePostings noCompression stableSort twoWords (cons_ne_nil _ _) true [1,2,3,4,5]

/-- An index of a word that no ID can hold is written but not read. -/
theorem readContextListHelper_largeWord : ∃ contextList out,
    writePostings noCompression stableSort.order ⟨[],0⟩ [⟨0,2 ^ 60,Binary32.ofNat 1⟩] false true = some (contextList,out) ∧
      ∀ isWordCl,(readContextListHelper noCompression contextList isWordCl out.bytes true : Option (List (Row Nat))) = none := by
  refine ⟨⟨1,0,8,32,49⟩,⟨[0,0,0,0,0,0,0,0,8,0,0,0,0,0,0,0,0,0,0,0,0,0,0,16,0,0,0,0,0,0,0,0,2,0,0,0,0,0,0,0,1,0,0,0,0,0,0,0,0,0],50⟩,?_,?_⟩
  · decide +kernel
  · decide +kernel

end RoundTrip

end Qlever.FrequencyEncode
