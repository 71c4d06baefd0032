import Qlever.CompressedVocabulary

/-! The runs of the writer of the `CompressedVocabulary`. Whatever the order in which the threads move, the files
contain in the end the words in their order, so the vocabulary behaves like a sorted array.
-/
namespace Qlever
open Library List
open Option (bind_eq_bind bind_some bind_eq_some_iff)

namespace CompressedVocabulary
variable {Decoder Search : Type} {wrapper : CompressionWrapper Decoder} {numWordsPerBlock : Nat}

section Blocks
variable {α : Type}

def blockOf (numWordsPerBlock : Nat) (words : List α) (k : Nat) : List α := (words.drop (k * numWordsPerBlock)).take numWordsPerBlock

theorem blockOf_map {β : Type} (f : α → β) (words : List α) (k : Nat) :
    blockOf numWordsPerBlock (words.map f) k = (blockOf numWordsPerBlock words k).map f := by
  rw [blockOf,blockOf,map_take,map_drop]

/-- If the blocks up to some block are compressed and stored one after the other, then the decoder of a word is
found by its index. -/
theorem decompress_blocks (lossless : wrapper.Lossless) (vocab : CompressedVocabulary Decoder)
    (words : List ByteString) (q : Nat)
    (decoders : ∀ k < q,vocab.decoders[k]? = some (wrapper.compressAll (blockOf numWordsPerBlock words k)).2) :
    (words.take (q * numWordsPerBlock)).map some =
      ((range q).flatMap (fun k => (wrapper.compressAll (blockOf numWordsPerBlock words k)).1)).zipIdx.map
        (fun (word,idx) => vocab.decompress wrapper word (getDecoderIdx numWordsPerBlock idx)) := by
  induction q with
  | zero => simp
  | succ q ih =>
    have earlier := ih (fun k below => decoders k (Nat.lt_succ_of_lt below))
    have isBlock := lossless (blockOf numWordsPerBlock words q)
    have sameLength := congrArg List.length earlier
    simp only [length_map,length_zipIdx,length_take] at sameLength
    rw [Nat.succ_mul,take_add,map_append,earlier,range_succ,flatMap_append,flatMap_singleton,
      zipIdx_append,map_append,← sameLength,Nat.zero_add]
    congr 1
    change (blockOf numWordsPerBlock words q).map some = _
    by_cases inside : q * numWordsPerBlock ≤ words.length
    · -- All words of this block have the same decoder.
      rw [Nat.min_eq_left inside]
      have blockLength : (wrapper.compressAll (blockOf numWordsPerBlock words q)).1.length ≤ numWordsPerBlock := by
        have same := congrArg List.length isBlock
        rw [length_map] at same
        rw [same,blockOf,length_take]
        exact Nat.min_le_left _ _
      have decoded : ∀ entry ∈ (wrapper.compressAll (blockOf numWordsPerBlock words q)).1.zipIdx (q * numWordsPerBlock),
          vocab.decompress wrapper entry.1 (getDecoderIdx numWordsPerBlock entry.2) =
            some (wrapper.decompress (wrapper.compressAll (blockOf numWordsPerBlock words q)).2 entry.1) := by
        intro (word,idx) member
        obtain ⟨above,below,_⟩ := mem_zipIdx member
        have isDecoder : idx / numWordsPerBlock = q := by
          apply Nat.div_eq_of_lt_le above
          rw [Nat.succ_mul]
          omega
        simp only [decompress,getDecoderIdx,isDecoder,decoders q (Nat.lt_succ_self q),bind_eq_bind,bind_some]
        rfl
      calc (blockOf numWordsPerBlock words q).map some
        _ = (wrapper.compressAll (blockOf numWordsPerBlock words q)).1.map
            (some ∘ wrapper.decompress (wrapper.compressAll (blockOf numWordsPerBlock words q)).2) := by
          rw [← map_map,isBlock]
        _ = (((wrapper.compressAll (blockOf numWordsPerBlock words q)).1.zipIdx (q * numWordsPerBlock)).map Prod.fst).map
            (some ∘ wrapper.decompress (wrapper.compressAll (blockOf numWordsPerBlock words q)).2) := by
          rw [zipIdx_map_fst]
        _ = _ := by
          rw [map_map]
          exact (map_congr_left decoded).symm
    · have noWords : blockOf numWordsPerBlock words q = [] := by
        rw [blockOf,drop_eq_nil_of_le (by omega),take_nil]
      have nothing : (wrapper.compressAll (blockOf numWordsPerBlock words q)).1 = [] := by
        rw [noWords] at isBlock ⊢
        exact map_eq_nil_iff.mp isBlock
      rw [nothing,noWords]
      rfl

end Blocks
section Written
variable (wrapper numWordsPerBlock)

def taskOf (entries : List (ByteString × Bool)) (k : Nat) : Task where
  index := k
  words := (blockOf numWordsPerBlock entries k).map Prod.fst
  isExternal := (blockOf numWordsPerBlock entries k).map Prod.snd

/-- The caller has made blocks of some of the words, collects further ones, and has not yet been called for the rest. -/
structure Caller (entries : List (ByteString × Bool)) (s : DiskWriter Decoder) : Prop where
  calling : s.phase = .calling → ∃ buffer,s.wordBuffer = buffer.map Prod.fst ∧ s.isExternalBuffer = buffer.map Prod.snd ∧
    buffer.length < numWordsPerBlock ∧ entries.drop (s.queueIndex * numWordsPerBlock) = buffer ++ s.remaining
  ended : s.phase ≠ .calling → entries.length ≤ s.queueIndex * numWordsPerBlock
  finished : s.phase = .finished → s.compressQueue = [] ∧ s.compressing = [] ∧ s.writeQueue = []

/-- The blocks in their order: written, in the queue for the writing thread, being compressed and not yet compressed. -/
structure Inv (entries : List (ByteString × Bool)) (s : DiskWriter Decoder) (written queued running waiting : List Task) : Prop where
  tasks : written ++ queued ++ running ++ waiting = (range s.queueIndex).map (taskOf numWordsPerBlock entries)
  isWaiting : s.compressQueue = waiting
  isRunning : s.compressing.Perm running
  isQueued : s.writeQueue = queued.map (compress wrapper)
  nextIndex : s.nextIndex = (written ++ queued).length
  underlying : s.underlyingWriter.Wrote (written.flatMap (fun task => (wrapper.compressAll task.words).1))
  decoders : s.decoders = written.map (fun task => (wrapper.compressAll task.words).2)
  caller : Caller numWordsPerBlock entries s

def Invariant (entries : List (ByteString × Bool)) (s : DiskWriter Decoder) : Prop :=
  ∃ written queued running waiting,Inv wrapper numWordsPerBlock entries s written queued running waiting

end Written

section Steps
variable {entries : List (ByteString × Bool)} {s s' : DiskWriter Decoder} {written queued running waiting : List Task}

theorem initial_invariant (positive : 0 < numWordsPerBlock) (milestoneDistance : Nat) :
    Invariant wrapper numWordsPerBlock entries (initial milestoneDistance entries) := by
  refine ⟨[],[],[],[],rfl,rfl,List.Perm.nil,rfl,rfl,VocabularyInternalExternal.WordWriter.wrote_nil milestoneDistance,rfl,?_,?_,?_⟩
  · intro _
    exact ⟨[],rfl,rfl,positive,by simp [initial]⟩
  · intro other
    exact absurd rfl other
  · intro isFinished
    cases isFinished

section
variable (inv : Inv wrapper numWordsPerBlock entries s written queued running waiting) {task : Task}
include inv

theorem Inv.isTask (member : task ∈ written ++ queued ++ running ++ waiting) : task = taskOf numWordsPerBlock entries task.index := by
  rw [inv.tasks,List.mem_map] at member
  obtain ⟨k,_,rfl⟩ := member
  rfl

variable {rest : List Task}

theorem Inv.isNext
    (isFirst : running = task::rest) : task.index = s.nextIndex := by
  have isTask : (written ++ queued ++ running ++ waiting)[s.nextIndex]? = some task := by
    rw [inv.nextIndex,isFirst,append_assoc,List.getElem?_append_right (Nat.le_refl _),Nat.sub_self]
    rfl
  have inside : s.nextIndex < s.queueIndex := by
    have below := (List.getElem?_eq_some_iff.mp isTask).1
    rw [inv.tasks] at below
    simpa using below
  rw [inv.tasks,List.getElem?_map,List.getElem?_range inside] at isTask
  cases isTask
  rfl

theorem Inv.start
    (isFirst : s.compressQueue = task::rest) (writing : s.phase ≠ .finished) :
    Inv wrapper numWordsPerBlock entries {s with compressQueue := rest,compressing := s.compressing ++ [task]} written queued (running ++ [task]) rest where
  tasks := by
    rw [← inv.tasks,← inv.isWaiting,isFirst]
    simp
  isWaiting := rfl
  isRunning := inv.isRunning.append_right [task]
  isQueued := inv.isQueued
  nextIndex := inv.nextIndex
  underlying := inv.underlying
  decoders := inv.decoders
  caller := ⟨inv.caller.calling,inv.caller.ended,fun isFinished => absurd isFinished writing⟩

theorem Inv.push {position : Nat}
    (isTask : s.compressing[position]? = some task) (isNext : task.index = s.nextIndex) :
    ∃ rest,Inv wrapper numWordsPerBlock entries
      {s with compressing := s.compressing.eraseIdx position,nextIndex := s.nextIndex + 1,writeQueue := s.writeQueue ++ [compress wrapper task]}
      written (queued ++ [task]) rest waiting := by
  obtain ⟨inside,isElement⟩ := List.getElem?_eq_some_iff.mp isTask
  have member : task ∈ running := inv.isRunning.mem_iff.mp (by rw [← isElement]; exact List.getElem_mem inside)
  obtain ⟨first,rest,isFirst⟩ := List.exists_cons_of_ne_nil (List.ne_nil_of_mem member)
  -- The first task in the order has the same number as the pushed one.
  have same : first = task := by
    have isIndex : first.index = task.index := by rw [isNext,inv.isNext isFirst]
    rw [inv.isTask (show first ∈ written ++ queued ++ running ++ waiting by simp [isFirst]),isIndex,← inv.isTask (by simp [member])]
  subst same
  have remaining : (s.compressing.eraseIdx position).Perm rest := by
    have whole := getElem_cons_eraseIdx_perm inside
    rw [isElement] at whole
    rw [isFirst] at inv
    exact (whole.trans inv.isRunning).cons_inv
  refine ⟨rest,?_,inv.isWaiting,remaining,?_,?_,inv.underlying,inv.decoders,inv.caller.calling,inv.caller.ended,?_⟩
  · rw [← inv.tasks,isFirst]
    simp
  · simp [inv.isQueued]
  · simp [inv.nextIndex,Nat.add_assoc]
  · intro isFinished
    obtain ⟨_,nothing,_⟩ := inv.caller.finished isFinished
    rw [nothing] at isTask
    cases isTask

end

theorem writeBlock_eq {block : BulkResult Decoder} {writer : VocabularyInternalExternal.WordWriter} {words : List ByteString}
    (wrote : writer.Wrote words) (flags : block.views.length ≤ block.isExternal.length) :
    ∃ next,writeBlock block writer = some next ∧ next.Wrote (words ++ block.views) := by
  -- The words that are still to be written have positions from `start` on.
  have general : ∀ (views : List ByteString) (start : Nat) (writer : VocabularyInternalExternal.WordWriter) (words : List ByteString),
      writer.Wrote words → start + views.length ≤ block.isExternal.length →
      ∃ next,(views.zipIdx start).foldlM (fun writer view => do
        let isExternal ← block.isExternal[view.2]?
        let result ← writer.write view.1 isExternal
        return result.2) writer = some next ∧ next.Wrote (words ++ views) := by
    intro views
    induction views with
    | nil =>
      intro start writer words wrote _
      exact ⟨writer,rfl,by rw [append_nil]; exact wrote⟩
    | cons word views ih =>
      intro start writer words wrote flags
      rw [List.length_cons] at flags
      obtain ⟨middle,written,wroteMore⟩ := wrote.write word (block.isExternal[start])
      obtain ⟨next,done,wroteAll⟩ := ih (start + 1) middle _ wroteMore (by omega)
      refine ⟨next,?_,by rw [append_cons]; exact wroteAll⟩
      rw [zipIdx_cons,foldlM_cons]
      simp only [List.getElem?_eq_getElem (show start < block.isExternal.length by omega),bind_eq_bind,bind_some,written]
      exact done
  exact general block.views 0 writer words wrote (by omega)

theorem Inv.write (lossless : wrapper.Lossless) (inv : Inv wrapper numWordsPerBlock entries s written queued running waiting) {task : Task}
    {rest : List Task} (isFirst : queued = task::rest) :
    ∃ underlyingWriter,writeBlock (compress wrapper task) s.underlyingWriter = some underlyingWriter ∧
      Inv wrapper numWordsPerBlock entries {s with
        writeQueue := rest.map (compress wrapper)
        underlyingWriter := underlyingWriter
        decoders := s.decoders ++ [(compress wrapper task).decoder]} (written ++ [task]) rest running waiting := by
  have flags : (compress wrapper task).views.length ≤ (compress wrapper task).isExternal.length := by
    have sameLength := congrArg List.length (lossless task.words)
    rw [length_map] at sameLength
    have isTask : task = taskOf numWordsPerBlock entries task.index := inv.isTask (by simp [isFirst])
    rw [compress,sameLength,isTask]
    simp [taskOf]
  obtain ⟨underlyingWriter,isWritten,wrote⟩ := writeBlock_eq inv.underlying flags
  refine ⟨underlyingWriter,isWritten,?_,inv.isWaiting,inv.isRunning,rfl,?_,?_,?_,inv.caller.calling,inv.caller.ended,?_⟩
  · rw [← inv.tasks,isFirst]
    simp
  · rw [inv.nextIndex,isFirst]
    simp
  · rw [flatMap_append,flatMap_singleton]
    exact wrote
  · simp [inv.decoders,compress]
  · intro isFinished
    obtain ⟨_,_,nothing⟩ := inv.caller.finished isFinished
    rw [inv.isQueued,isFirst] at nothing
    cases nothing

inductive CallStep (numWordsPerBlock : Nat) (s : DiskWriter Decoder) : DiskWriter Decoder → Prop
  | collect (word : ByteString) (isExternal : Bool) (remaining : List (ByteString × Bool)) (calling : s.phase = .calling)
    (isNext : s.remaining = (word,isExternal)::remaining) (notFull : (s.wordBuffer ++ [word]).length ≠ numWordsPerBlock) :
    CallStep numWordsPerBlock s
      {s with remaining := remaining,wordBuffer := s.wordBuffer ++ [word],isExternalBuffer := s.isExternalBuffer ++ [isExternal]}
  | full (word : ByteString) (isExternal : Bool) (remaining : List (ByteString × Bool)) (calling : s.phase = .calling)
    (isNext : s.remaining = (word,isExternal)::remaining) (isFull : (s.wordBuffer ++ [word]).length = numWordsPerBlock) :
    CallStep numWordsPerBlock s {s with
      remaining := remaining
      compressQueue := s.compressQueue ++ [⟨s.queueIndex,s.wordBuffer ++ [word],s.isExternalBuffer ++ [isExternal]⟩]
      queueIndex := s.queueIndex + 1
      wordBuffer := []
      isExternalBuffer := []}
  | lastBlock (calling : s.phase = .calling) (isNext : s.remaining = []) (nonempty : s.wordBuffer ≠ []) :
    CallStep numWordsPerBlock s {s with
      phase := .finishing
      compressQueue := s.compressQueue ++ [⟨s.queueIndex,s.wordBuffer,s.isExternalBuffer⟩]
      queueIndex := s.queueIndex + 1
      wordBuffer := []
      isExternalBuffer := []}
  | noBlock (calling : s.phase = .calling) (isNext : s.remaining = []) (empty : s.wordBuffer = []) :
    CallStep numWordsPerBlock s {s with phase := .finishing}
  | finish (finishing : s.phase = .finishing) (done : s.compressQueue = [] ∧ s.compressing = [] ∧ s.writeQueue = []) :
    CallStep numWordsPerBlock s {s with phase := .finished}

theorem finishBlock_cases (taken : finishBlock s = some s') :
    s.wordBuffer = [] ∧ s' = s ∨ s.wordBuffer ≠ [] ∧ s' = {s with
      compressQueue := s.compressQueue ++ [⟨s.queueIndex,s.wordBuffer,s.isExternalBuffer⟩]
      queueIndex := s.queueIndex + 1
      wordBuffer := []
      isExternalBuffer := []} := by
  unfold finishBlock at taken
  split at taken
  next empty =>
    cases taken
    exact Or.inl ⟨List.isEmpty_iff.mp empty,rfl⟩
  next nonempty =>
    split at taken
    next =>
      cases taken
      exact Or.inr ⟨fun empty => nonempty (List.isEmpty_iff.mpr empty),rfl⟩
    next => cases taken

theorem call_moves (taken : call numWordsPerBlock s = some s') : CallStep numWordsPerBlock s s' := by
  unfold call at taken
  split at taken
  next word isExternal remaining calling isNext =>
    dsimp only at taken
    split at taken
    next isFull =>
      rcases finishBlock_cases taken with ⟨empty,_⟩ | ⟨_,rfl⟩
      · simp at empty
      · exact .full word isExternal remaining calling isNext isFull
    next notFull =>
      cases taken
      exact .collect word isExternal remaining calling isNext notFull
  next calling isNext =>
    simp only [bind_eq_bind,bind_eq_some_iff] at taken
    obtain ⟨middle,finishes,taken⟩ := taken
    cases taken
    rcases finishBlock_cases finishes with ⟨empty,rfl⟩ | ⟨nonempty,rfl⟩
    · exact .noBlock calling isNext empty
    · exact .lastBlock calling isNext nonempty
  next finishing =>
    split at taken
    next done =>
      cases taken
      simp only [List.isEmpty_iff] at done
      exact .finish finishing done
    next => cases taken
  next => cases taken

theorem Inv.addTask (inv : Inv wrapper numWordsPerBlock entries s written queued running waiting) {task : Task}
    (isTask : task = taskOf numWordsPerBlock entries s.queueIndex) {remaining : List (ByteString × Bool)} {phase : Phase}
    (caller : Caller numWordsPerBlock entries {s with
      remaining := remaining
      phase := phase
      compressQueue := s.compressQueue ++ [task]
      queueIndex := s.queueIndex + 1
      wordBuffer := []
      isExternalBuffer := []}) :
    Inv wrapper numWordsPerBlock entries {s with
      remaining := remaining
      phase := phase
      compressQueue := s.compressQueue ++ [task]
      queueIndex := s.queueIndex + 1
      wordBuffer := []
      isExternalBuffer := []} written queued running (waiting ++ [task]) where
  tasks := by
    rw [range_succ,map_append,← inv.tasks,map_singleton,isTask]
    simp
  isWaiting := by rw [inv.isWaiting]
  isRunning := inv.isRunning
  isQueued := inv.isQueued
  nextIndex := inv.nextIndex
  underlying := inv.underlying
  decoders := inv.decoders
  caller := caller

theorem Inv.call (positive : 0 < numWordsPerBlock) (inv : Inv wrapper numWordsPerBlock entries s written queued running waiting)
    (taken : CallStep numWordsPerBlock s s') : Invariant wrapper numWordsPerBlock entries s' := by
  cases taken with
  | collect word isExternal remaining calling isNext notFull =>
    obtain ⟨buffer,isWords,isFlags,short,isRest⟩ := inv.caller.calling calling
    refine ⟨written,queued,running,waiting,inv.tasks,inv.isWaiting,inv.isRunning,inv.isQueued,inv.nextIndex,inv.underlying,inv.decoders,?_,?_,?_⟩
    · intro _
      refine ⟨buffer ++ [(word,isExternal)],by simp [isWords],by simp [isFlags],?_,by simp [isRest,isNext]⟩
      rw [isWords] at notFull
      simp only [List.length_append,length_map,length_singleton] at notFull ⊢
      omega
    · exact fun other => absurd calling other
    · exact fun isFinished => absurd (calling.symm.trans isFinished) (by simp)
  | full word isExternal remaining calling isNext isFull =>
    obtain ⟨buffer,isWords,isFlags,short,isRest⟩ := inv.caller.calling calling
    have whole : entries.drop (s.queueIndex * numWordsPerBlock) = (buffer ++ [(word,isExternal)]) ++ remaining := by simp [isRest,isNext]
    have length : (buffer ++ [(word,isExternal)]).length = numWordsPerBlock := by
      rw [isWords] at isFull
      simpa using isFull
    have isBlock : blockOf numWordsPerBlock entries s.queueIndex = buffer ++ [(word,isExternal)] := by
      rw [blockOf,whole,take_left' length]
    refine ⟨written,queued,running,_,inv.addTask (by rw [taskOf,isBlock,isWords,isFlags]; simp) ⟨?_,?_,?_⟩⟩
    · intro _
      refine ⟨[],rfl,rfl,positive,?_⟩
      rw [Nat.succ_mul,← drop_drop,whole,drop_left' length]
      rfl
    · exact fun other => absurd calling other
    · exact fun isFinished => absurd (calling.symm.trans isFinished) (by simp)
  | lastBlock calling isNext nonempty =>
    obtain ⟨buffer,isWords,isFlags,short,isRest⟩ := inv.caller.calling calling
    rw [isNext,append_nil] at isRest
    have isBlock : blockOf numWordsPerBlock entries s.queueIndex = buffer := by
      rw [blockOf,isRest,take_of_length_le (Nat.le_of_lt short)]
    have count := congrArg List.length isRest
    rw [length_drop] at count
    refine ⟨written,queued,running,_,inv.addTask (by rw [taskOf,isBlock,isWords,isFlags]) ⟨?_,?_,?_⟩⟩
    · exact fun isCalling => absurd isCalling (by simp)
    · intro _
      rw [Nat.succ_mul]
      omega
    · exact fun isFinished => absurd isFinished (by simp)
  | noBlock calling isNext empty =>
    obtain ⟨buffer,isWords,isFlags,short,isRest⟩ := inv.caller.calling calling
    rw [empty] at isWords
    rw [isNext,append_nil,map_eq_nil_iff.mp isWords.symm] at isRest
    refine ⟨written,queued,running,waiting,inv.tasks,inv.isWaiting,inv.isRunning,inv.isQueued,inv.nextIndex,inv.underlying,inv.decoders,?_,?_,?_⟩
    · exact fun isCalling => absurd isCalling (by simp)
    · exact fun _ => drop_eq_nil_iff.mp isRest
    · exact fun isFinished => absurd isFinished (by simp)
  | finish finishing done =>
    refine ⟨written,queued,running,waiting,inv.tasks,inv.isWaiting,inv.isRunning,inv.isQueued,inv.nextIndex,inv.underlying,inv.decoders,?_,?_,?_⟩
    · exact fun isCalling => absurd isCalling (by simp)
    · exact fun _ => inv.caller.ended (by rw [finishing]; simp)
    · exact fun _ => done

theorem step_invariant (lossless : wrapper.Lossless) (positive : 0 < numWordsPerBlock) {action : Action}
    (invariant : Invariant wrapper numWordsPerBlock entries s) (taken : step wrapper numWordsPerBlock s action = some s') :
    Invariant wrapper numWordsPerBlock entries s' := by
  obtain ⟨written,queued,running,waiting,inv⟩ := invariant
  cases action with
  | call => exact inv.call positive (call_moves taken)
  | start =>
    simp only [step] at taken
    split at taken
    next task rest isFirst =>
      split at taken
      next =>
        cases taken
        refine ⟨written,queued,running ++ [task],rest,inv.start isFirst ?_⟩
        intro isFinished
        rw [(inv.caller.finished isFinished).1] at isFirst
        cases isFirst
      next => cases taken
    next => cases taken
  | push position =>
    simp only [step,bind_eq_bind,bind_eq_some_iff] at taken
    obtain ⟨task,isTask,taken⟩ := taken
    split at taken
    next allowed =>
      cases taken
      obtain ⟨rest,next⟩ := inv.push isTask allowed.1
      exact ⟨written,queued ++ [task],rest,waiting,next⟩
    next => cases taken
  | write =>
    simp only [step] at taken
    split at taken
    next block writeQueue isFirst =>
      rw [inv.isQueued] at isFirst
      obtain ⟨task,rest,isQueue,rfl,rfl⟩ := map_eq_cons_iff.mp isFirst
      obtain ⟨underlyingWriter,isWritten,next⟩ := inv.write lossless isQueue
      rw [isWritten] at taken
      cases taken
      exact ⟨written ++ [task],rest,running,waiting,next⟩
    next => cases taken

theorem Invariant.progress (lossless : wrapper.Lossless) (invariant : Invariant wrapper numWordsPerBlock entries s) (writing : s.phase ≠ .finished) :
    ∃ action s',step wrapper numWordsPerBlock s action = some s' := by
  obtain ⟨written,queued,running,waiting,inv⟩ := invariant
  cases isQueue : queued with
  | cons task rest =>
    obtain ⟨underlyingWriter,isWritten,_⟩ := inv.write lossless isQueue
    refine ⟨.write,?_⟩
    rw [step,inv.isQueued,isQueue,map_cons]
    simp only [isWritten]
    exact ⟨_,rfl⟩
  | nil =>
    have noQueue : s.writeQueue = [] := by rw [inv.isQueued,isQueue,map_nil]
    cases isRunning : running with
    | cons task rest =>
      have member : task ∈ s.compressing := inv.isRunning.mem_iff.mpr (by simp [isRunning])
      obtain ⟨position,isTask⟩ := List.getElem?_of_mem member
      refine ⟨.push position,?_⟩
      simp only [step,isTask,bind_eq_bind,bind_some,inv.isNext isRunning,noQueue,List.length_nil]
      exact ⟨_,if_pos ⟨trivial,by decide⟩⟩
    | nil =>
      have noTask : s.compressing = [] := by
        rw [isRunning] at inv
        exact perm_nil.mp inv.isRunning
      cases isWaiting : s.compressQueue with
      | cons task rest =>
        refine ⟨.start,?_⟩
        simp only [step,isWaiting,noTask,List.length_nil]
        exact ⟨_,if_pos (by decide)⟩
      | nil =>
        have finishes : ∀ writer : DiskWriter Decoder,writer.compressQueue = [] → ∃ next,finishBlock writer = some next := by
          intro writer nothing
          rw [finishBlock,nothing]
          split
          next => exact ⟨_,rfl⟩
          next => exact ⟨_,rfl⟩
        refine ⟨.call,?_⟩
        rw [step,call]
        split
        next =>
          dsimp only
          split
          next => exact finishes _ isWaiting
          next => exact ⟨_,rfl⟩
        next =>
          obtain ⟨next,isNext⟩ := finishes s isWaiting
          rw [isNext]
          exact ⟨_,rfl⟩
        next =>
          rw [isWaiting,noTask,noQueue]
          exact ⟨_,rfl⟩
        next isFinished => exact absurd isFinished writing

def weight (s : DiskWriter Decoder) : Nat :=
  4 * s.remaining.length + 3 * s.compressQueue.length + 2 * s.compressing.length + s.writeQueue.length +
    match s.phase with
    | .calling => 5
    | .finishing => 1
    | .finished => 0

theorem step_weight {action : Action} (taken : step wrapper numWordsPerBlock s action = some s') : weight s' < weight s := by
  cases action with
  | call =>
    cases call_moves taken with
    | collect word isExternal remaining calling isNext notFull =>
      simp only [weight,isNext,List.length_cons]
      omega
    | full word isExternal remaining calling isNext isFull =>
      simp only [weight,isNext,List.length_cons,List.length_append,List.length_nil]
      omega
    | lastBlock calling isNext nonempty =>
      simp only [weight,calling,List.length_append,List.length_cons,List.length_nil]
      omega
    | noBlock calling isNext empty =>
      simp only [weight,calling]
      omega
    | finish finishing done =>
      simp only [weight,finishing]
      omega
  | start =>
    simp only [step] at taken
    split at taken
    next task rest isFirst =>
      split at taken
      next =>
        cases taken
        simp only [weight,isFirst,List.length_cons,List.length_append,List.length_nil]
        omega
      next => cases taken
    next => cases taken
  | push position =>
    simp only [step,bind_eq_bind,bind_eq_some_iff] at taken
    obtain ⟨task,isTask,taken⟩ := taken
    split at taken
    next =>
      cases taken
      obtain ⟨inside,_⟩ := List.getElem?_eq_some_iff.mp isTask
      simp only [weight,List.length_eraseIdx_of_lt inside,List.length_append,List.length_cons,List.length_nil]
      omega
    next => cases taken
  | write =>
    simp only [step] at taken
    split at taken
    next block writeQueue isFirst =>
      simp only [bind_eq_bind,bind_eq_some_iff] at taken
      obtain ⟨underlyingWriter,_,taken⟩ := taken
      cases taken
      simp only [weight,isFirst,List.length_cons]
      omega
    next => cases taken

theorem Invariant.opened (lossless : wrapper.Lossless) (invariant : Invariant wrapper numWordsPerBlock entries s) (finished : s.phase = .finished) :
    ∃ vocab,«open» numWordsPerBlock s = some vocab ∧ vocab.Holds wrapper numWordsPerBlock (entries.map Prod.fst) := by
  obtain ⟨written,queued,running,waiting,inv⟩ := invariant
  obtain ⟨noWaiting,noRunning,noQueue⟩ := inv.caller.finished finished
  have isWaiting : waiting = [] := by rw [← inv.isWaiting,noWaiting]
  have isRunning : running = [] := by
    have nothing := inv.isRunning
    rw [noRunning] at nothing
    exact nil_perm.mp nothing
  have isQueued : queued = [] := by
    have nothing := inv.isQueued
    rw [noQueue] at nothing
    exact map_eq_nil_iff.mp nothing.symm
  have isWritten : written = (range s.queueIndex).map (taskOf numWordsPerBlock entries) := by
    rw [← inv.tasks,isWaiting,isRunning,isQueued]
    simp
  have isBlock : ∀ k,(taskOf numWordsPerBlock entries k).words = blockOf numWordsPerBlock (entries.map Prod.fst) k := by
    intro k
    rw [blockOf_map]
    rfl
  obtain ⟨underlyingVocabulary,isOpen,stored⟩ := inv.underlying.opened
  have allWords : entries.length ≤ s.queueIndex * numWordsPerBlock := inv.caller.ended (by rw [finished]; simp)
  have decoders : ∀ k < s.queueIndex,s.decoders[k]? = some (wrapper.compressAll (blockOf numWordsPerBlock (entries.map Prod.fst) k)).2 := by
    intro k below
    simp only [inv.decoders,isWritten,map_map,List.getElem?_map,List.getElem?_range below,Option.map_some,Function.comp_apply,isBlock]
  have decoded := decompress_blocks lossless ⟨underlyingVocabulary,s.decoders⟩ (entries.map Prod.fst) s.queueIndex decoders
  rw [take_of_length_le (by rw [length_map]; exact allWords)] at decoded
  have holds : Holds wrapper numWordsPerBlock ⟨underlyingVocabulary,s.decoders⟩ (entries.map Prod.fst) := by
    refine ⟨_,stored,?_⟩
    rw [decoded,isWritten,flatMap_map]
    simp only [isBlock]
  refine ⟨_,?_,holds⟩
  have enough : getDecoderIdx numWordsPerBlock (size ⟨underlyingVocabulary,s.decoders⟩) ≤ s.decoders.length := by
    rw [holds.size,inv.decoders,isWritten,length_map,length_map,length_map,length_range]
    exact Nat.div_le_of_le_mul (by rw [Nat.mul_comm]; exact allWords)
  rw [«open»,isOpen]
  exact if_pos (Or.inr enough)

end Steps

structure IsSortedArray (wrapper : CompressionWrapper Decoder) (numWordsPerBlock : Nat) (comparator : Comparator Search) (words : List ByteString)
    (vocab : CompressedVocabulary Decoder) : Prop where
  size : vocab.size = words.length
  get : ∀ i,vocab.get wrapper numWordsPerBlock i = words[i]?
  lowerBound : ∀ search,vocab.lowerBound wrapper numWordsPerBlock comparator search = some (stdLowerBound comparator words search)
  upperBound : ∀ search,vocab.upperBound wrapper numWordsPerBlock comparator search = some (stdUpperBound comparator words search)

/-- However the threads of the writer move, they reach the end after a bounded number of steps, and the vocabulary
that is then opened behaves like a sorted array of the words. -/
theorem written_isSortedArray {entries : List (ByteString × Bool)} {comparator : Comparator Search} (milestoneDistance : Nat)
    (lossless : wrapper.Lossless) (positive : 0 < numWordsPerBlock) (sorted : comparator.Sorted (entries.map Prod.fst)) :
    (∀ (actions : List Action) last,actions.foldlM (step wrapper numWordsPerBlock) (initial milestoneDistance entries) = some last →
      actions.length ≤ 4 * entries.length + 5) ∧
    ∀ s,Run (step wrapper numWordsPerBlock) Always (initial milestoneDistance entries) s →
      (s.phase ≠ .finished → ∃ action s',step wrapper numWordsPerBlock s action = some s') ∧
      (s.phase = .finished → ∃ vocab,«open» numWordsPerBlock s = some vocab ∧
        IsSortedArray wrapper numWordsPerBlock comparator (entries.map Prod.fst) vocab) := by
  constructor
  · intro actions last done
    have decreases : ∀ s action s',step wrapper numWordsPerBlock s action = some s' → weight s' < weight s := fun _ _ _ taken => step_weight taken
    have bound := length_le_measure decreases done
    simp only [weight,initial,List.length_nil] at bound
    omega
  · intro s run
    have invariant : Invariant wrapper numWordsPerBlock entries s :=
      run.invariant (initial_invariant positive milestoneDistance) (fun _ _ _ inv _ taken => step_invariant lossless positive inv taken)
    refine ⟨invariant.progress lossless,?_⟩
    intro finished
    obtain ⟨vocab,isOpen,holds⟩ := invariant.opened lossless finished
    exact ⟨vocab,isOpen,holds.size,holds.get,holds.lowerBound sorted,holds.upperBound sorted⟩

section Example

def uncompressed : CompressionWrapper Unit where
  compressAll words := (words,())
  decompress _ word := word

def byteOrder : Comparator ByteString := .ofLess (fun x y => decide (x.map UInt8.toNat < y.map UInt8.toNat)) (by
  intro x y z less
  simp only [decide_eq_true_eq] at less ⊢
  rcases lt_or_ge (x.map UInt8.toNat) (y.map UInt8.toNat) with before | notBefore
  · exact Or.inl before
  · exact Or.inr (lt_of_le_of_lt notBefore less))

/-- The words `a`, `b` and `c`, of which only the first and the last one are kept in RAM. -/
def threeWords : List (ByteString × Bool) := [([97],true),([98],true),([99],false)]

def threeWordsActions : List Action := [.call,.call,.call,.start,.call,.start,.push 0,.push 0,.write,.write,.call]

theorem written_isSortedArray_threeWords :
    ∃ s vocab,Run (step uncompressed 2) Always (initial 1000 threeWords) s ∧ «open» 2 s = some vocab ∧
      vocab.get uncompressed 2 1 = some [98] ∧
      vocab.lowerBound uncompressed 2 byteOrder [98] = some {wordAndIndex := some ([98],1)} ∧
      vocab.upperBound uncompressed 2 byteOrder [99] = some {} := by
  have lossless : uncompressed.Lossless := fun words => map_id words
  have sorted : byteOrder.Sorted (threeWords.map Prod.fst) := by
    simp only [Comparator.Sorted]
    decide
  obtain ⟨s,isLast,isFinished⟩ : ∃ s,threeWordsActions.foldlM (step uncompressed 2) (initial 1000 threeWords) = some s ∧ s.phase = .finished :=
    ⟨_,rfl,rfl⟩
  have run : Run (step uncompressed 2) Always (initial 1000 threeWords) s := Run.of_actions (by simpa using isLast)
  obtain ⟨vocab,isOpen,isArray⟩ := ((written_isSortedArray 1000 lossless (by decide) sorted).2 s run).2 isFinished
  refine ⟨s,vocab,run,isOpen,isArray.get 1,?_,?_⟩
  · rw [isArray.lowerBound]
    decide +kernel
  · rw [isArray.upperBound]
    decide +kernel

end Example

end CompressedVocabulary
end Qlever
