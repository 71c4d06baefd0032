import Mathlib

/-! The IDs of the words of a partial vocabulary, `createInternalMapping`. The hash map is a function. -/
namespace Qlever.VocabularyMerger
open Function (update update_of_ne update_self)
open List (mem_cons_self map_cons mem_cons)

/-- An element of the `ItemVec`. -/
structure Item (Word : Type) where
  word : Word
  id : Nat
  deriving DecidableEq

section Loop
variable {Word : Type} [DecidableEq Word]

/-- The loop from some element on. `none` is a failed `AD_CONTRACT_CHECK`. -/
def mapItems (first : Bool) (lastWord : Word) (nextWordId : Nat) (res : Nat → Option Nat) : List (Item Word) → Option ((Nat → Option Nat) × List (Item Word))
  | [] => some (res,[])
  | ⟨word,id⟩::els =>
    let isNew := !first && lastWord ≠ word
    let nextWordId := if isNew then nextWordId + 1 else nextWordId
    let lastWord := if isNew then word else lastWord
    if (res id).isSome then none
    else (mapItems false lastWord nextWordId (update res id (some nextWordId)) els).map fun (res,els) => (res,⟨word,nextWordId⟩::els)

/-- The map and the elements with their new IDs. The `lastWord` is `emptyWord` at first. -/
def createInternalMapping (emptyWord : Word) (els : List (Item Word)) : Option ((Nat → Option Nat) × List (Item Word)) :=
  mapItems true emptyWord 0 (fun _ => none) els

end Loop

variable {Word : Type} [LinearOrder Word]

/-- The new IDs are 0, 1, 2 and so on in the order of the words, and the map has the new ID for each old one. -/
structure Dense (els : List (Item Word)) (res : Nat → Option Nat) (mapped : List (Item Word)) : Prop where
  words : mapped.map Item.word = els.map Item.word
  lt_iff : ∀ item ∈ mapped,∀ other ∈ mapped,item.id < other.id ↔ item.word < other.word
  same : ∀ item ∈ mapped,∀ other ∈ mapped,item.id = other.id ↔ item.word = other.word
  dense : ∀ newId,newId ∈ mapped.map Item.id ↔ newId < (els.map Item.word).toFinset.card
  mapping : List.Forall₂ (fun old new => res old.id = some new.id) els mapped

/-- The last item is `last`, and the new IDs continue the numbering from its ID. -/
structure Continues (last : Item Word) (els mapped : List (Item Word)) : Prop where
  words : mapped.map Item.word = els.map Item.word
  lt_iff : ∀ item ∈ last::mapped,∀ other ∈ last::mapped,item.id < other.id ↔ item.word < other.word
  dense : ∀ newId,newId ∈ (last::mapped).map Item.id ↔ last.id ≤ newId ∧ newId < last.id + ((last::els).map Item.word).toFinset.card

section Continue
variable {last : Item Word}

theorem Continues.cons_new {word : Word} {id : Nat} {els mapped : List (Item Word)} (less : last.word < word) (atMost : ∀ item ∈ els,word ≤ item.word)
    (continues : Continues ⟨word,last.id + 1⟩ els mapped) : Continues last (⟨word,id⟩::els) (⟨word,last.id + 1⟩::mapped) := by
  have above : ∀ item ∈ Item.mk word (last.id + 1)::mapped,last.word < item.word ∧ last.id < item.id := by
    intro item member
    have isWord : word ≤ item.word := by
      obtain rfl | inside := List.mem_cons.mp member
      · exact le_rfl
      · have word_mem := List.mem_map_of_mem (f := Item.word) inside
        rw [continues.words] at word_mem
        obtain ⟨other,isOther,same⟩ := List.mem_map.mp word_mem
        exact (atMost other isOther).trans_eq same
    have notLess := (continues.lt_iff item member _ mem_cons_self).not.mpr isWord.not_gt
    exact ⟨less.trans_le isWord,by simp only at notLess; omega⟩
  refine ⟨by rw [map_cons,map_cons,continues.words],?_,?_⟩
  · intro item member other member'
    obtain rfl | inside := List.mem_cons.mp member
    · obtain rfl | inside' := List.mem_cons.mp member'
      · simp
      · exact iff_of_true (above other inside').2 (above other inside').1
    · obtain rfl | inside' := List.mem_cons.mp member'
      · exact iff_of_false (above item inside).2.not_gt (above item inside).1.not_gt
      · exact continues.lt_iff item inside other inside'
  · intro newId
    have notMem : last.word ∉ (word::els.map Item.word).toFinset := by
      simp only [List.mem_toFinset,mem_cons,List.mem_map,not_or,not_exists,not_and]
      exact ⟨less.ne,fun item member same => (less.trans_le (atMost item member)).ne' same⟩
    have isCard : ((last::⟨word,id⟩::els).map Item.word).toFinset.card = (word::els.map Item.word).toFinset.card + 1 := by
      rw [map_cons,map_cons,List.toFinset_cons,Finset.card_insert_of_notMem notMem]
    have dense := continues.dense newId
    rw [map_cons,mem_cons,dense,isCard]
    simp only [map_cons]
    omega

theorem Continues.cons_same {id : Nat} {els mapped : List (Item Word)} (continues : Continues last els mapped) :
    Continues last (⟨last.word,id⟩::els) (last::mapped) := by
  refine ⟨by rw [map_cons,map_cons,continues.words],?_,?_⟩
  · simpa using continues.lt_iff
  · simpa using continues.dense

theorem mapItems_continues (els : List (Item Word)) (sorted : ((last::els).map Item.word).Pairwise (· ≤ ·)) (distinct : (els.map Item.id).Nodup)
    (res : Nat → Option Nat) (fresh : ∀ item ∈ els,res item.id = none) : ∃ res' mapped,mapItems false last.word last.id res els = some (res',mapped) ∧
      Continues last els mapped ∧ (∀ id,id ∉ els.map Item.id → res' id = res id) ∧ List.Forall₂ (fun old new => res' old.id = some new.id) els mapped := by
  induction els generalizing last res with
  | nil => exact ⟨res,[],rfl,⟨rfl,by simp,fun newId => by simp; omega⟩,fun _ _ => rfl,.nil⟩
  | cons item els ih =>
    obtain ⟨word,id⟩ := item
    obtain ⟨atLeast,tail⟩ := List.pairwise_cons.mp sorted
    obtain ⟨notMem,distinct'⟩ := List.nodup_cons.mp distinct
    have isFresh := fresh _ mem_cons_self
    let last' : Item Word := ⟨word,if last.word = word then last.id else last.id + 1⟩
    obtain ⟨res',mapped,isMapped,continues,kept,mapping⟩ := @ih last' tail distinct' (update res id (some last'.id)) (by
      intro item member
      have different : item.id ≠ id := fun same => notMem (List.mem_map.mpr ⟨item,member,same⟩)
      rw [update_of_ne different]
      exact fresh item (List.mem_cons_of_mem _ member))
    refine ⟨res',last'::mapped,?_,?_,?_,.cons ?_ mapping⟩
    · rw [mapItems]
      by_cases same : last.word = word
      · simp only [last',same,if_true] at isMapped ⊢
        simp [isFresh,isMapped]
      · simp only [last',same,if_false] at isMapped ⊢
        simp [isFresh,same,isMapped]
    · by_cases same : last.word = word
      · have isLast : last' = last := by
          simp only [last',same,if_true]
          exact same ▸ rfl
        rw [isLast] at continues ⊢
        exact same ▸ continues.cons_same
      · have isNext : last' = ⟨word,last.id + 1⟩ := by
          simp only [last',same,if_false]
        rw [isNext] at continues ⊢
        refine continues.cons_new (lt_of_le_of_ne (atLeast word mem_cons_self) same) ?_
        intro item member
        exact (List.pairwise_cons.mp tail).1 _ (List.mem_map_of_mem member)
    · intro other outside
      rw [map_cons,mem_cons,not_or] at outside
      rw [kept other outside.2,update_of_ne outside.1]
    · rw [kept id notMem,update_self]

end Continue

theorem dense_of_continues {word : Word} {id : Nat} {els mapped : List (Item Word)} {res : Nat → Option Nat} (isFirst : res id = some 0)
    (continues : Continues ⟨word,0⟩ els mapped) (mapping : List.Forall₂ (fun old new => res old.id = some new.id) els mapped) :
    Dense (⟨word,id⟩::els) res (⟨word,0⟩::mapped) := by
  refine ⟨by rw [map_cons,map_cons,continues.words],continues.lt_iff,?_,?_,.cons isFirst mapping⟩
  · intro item member other member'
    have less := continues.lt_iff item member other member'
    have greater := continues.lt_iff other member' item member
    rw [eq_iff_le_not_lt,eq_iff_le_not_lt,← not_lt,← not_lt,less,greater]
  · intro newId
    have dense := continues.dense newId
    simp only [Nat.zero_le,true_and,Nat.zero_add] at dense
    exact dense

/-- The first word is never remembered, so the second item is compared with the empty word. -/
theorem createInternalMapping_dense_iff (emptyWord : Word) (els : List (Item Word)) (sorted : (els.map Item.word).Pairwise (· ≤ ·))
    (distinct : (els.map Item.id).Nodup) : (∃ res mapped,createInternalMapping emptyWord els = some (res,mapped) ∧ Dense els res mapped) ↔
      ∀ first second rest,els.map Item.word = first::second::rest → first = emptyWord ∨ second ≠ first ∧ second ≠ emptyWord := by
  cases els with
  | nil => exact iff_of_true ⟨_,_,rfl,⟨rfl,nofun,nofun,by simp,.nil⟩⟩ nofun
  | cons item els =>
    obtain ⟨word,id⟩ := item
    obtain ⟨notMem,distinct'⟩ := List.nodup_cons.mp distinct
    have isFirst : createInternalMapping emptyWord (⟨word,id⟩::els) = (mapItems false emptyWord 0 (update (fun _ => none) id (some 0)) els).map
        fun (res,els) => (res,⟨word,0⟩::els) := rfl
    obtain ⟨res,mapped,isMapped,continues,kept,mapping⟩ := @mapItems_continues _ _ ⟨word,0⟩ els sorted distinct'
      (update (fun _ => none) id (some 0)) (by
        intro item member
        rw [update_of_ne (fun same => notMem (List.mem_map.mpr ⟨item,member,same⟩))])
    have dense := dense_of_continues ((kept id notMem).trans (update_self ..)) continues mapping
    rw [isFirst]
    constructor
    · rintro ⟨res',mapped',isResult,dense'⟩ first second rest isWords
      by_contra wrong
      simp only [not_or,not_and,not_not] at wrong
      obtain ⟨notEmpty,equal⟩ := wrong
      cases els with
      | nil => cases isWords
      | cons other els =>
        obtain ⟨second',id'⟩ := other
        simp only [map_cons,List.cons.injEq] at isWords
        obtain ⟨rfl,rfl,_⟩ := isWords
        obtain ⟨rest,isMapped'⟩ : ∃ rest,mapped' = ⟨word,0⟩::⟨second',if emptyWord = second' then 0 else 1⟩::rest := by
          simp only [Option.map_eq_some_iff,Prod.exists,Prod.mk.injEq] at isResult
          obtain ⟨_,_,isRest,_,rfl⟩ := isResult
          rw [mapItems] at isRest
          split at isRest
          next => cases isRest
          next =>
            obtain ⟨_,_,same⟩ := Option.map_eq_some_iff.mp isRest
            cases same
            by_cases same : emptyWord = second' <;> simp [same]
        have same := dense'.same ⟨word,0⟩ (by simp [isMapped']) ⟨second',if emptyWord = second' then 0 else 1⟩ (by simp [isMapped'])
        by_cases isSecond : second' = word
        · rw [isSecond,if_neg (Ne.symm notEmpty)] at same
          exact absurd (same.mpr rfl) Nat.zero_ne_one
        · rw [if_pos (equal isSecond).symm] at same
          exact isSecond (same.mp rfl).symm
    · intro condition
      suffices same : mapItems false emptyWord 0 (update (fun _ => none) id (some 0)) els =
          mapItems false word 0 (update (fun _ => none) id (some 0)) els by
        exact ⟨res,_,by rw [same,isMapped]; rfl,dense⟩
      cases els with
      | nil => rfl
      | cons other els =>
        obtain isEmpty | ⟨notFirst,notEmpty⟩ := condition word other.word _ rfl
        · rw [isEmpty]
        · simp only [mapItems]
          simp [notFirst.symm,notEmpty.symm]

theorem createInternalMapping_dense_iff_two :
    ∃ res mapped,createInternalMapping 0 [⟨1,7⟩,⟨2,3⟩,⟨2,5⟩] = some (res,mapped) ∧ Dense [⟨1,7⟩,⟨2,3⟩,⟨2,5⟩] res mapped := by
  refine (createInternalMapping_dense_iff 0 _ (by decide) (by decide)).mpr ?_
  intro first second rest isWords
  cases isWords
  exact Or.inr (by decide)

/-- The first word occurs twice and gets two IDs. -/
theorem firstWord_twice : ([⟨1,7⟩,⟨1,3⟩].map (@Item.word Nat)).Pairwise (· ≤ ·) ∧
    (createInternalMapping 0 [⟨1,7⟩,⟨1,3⟩]).map Prod.snd = some [⟨1,0⟩,⟨1,1⟩] ∧
    ∀ res mapped,createInternalMapping 0 [⟨1,7⟩,⟨1,3⟩] = some (res,mapped) → ¬ Dense [⟨1,7⟩,⟨1,3⟩] res mapped := by
  refine ⟨by decide,by decide,?_⟩
  intro res mapped isResult dense
  have isMapped : mapped = [⟨1,0⟩,⟨1,1⟩] := by
    cases isResult
    rfl
  subst isMapped
  exact absurd ((dense.same ⟨1,0⟩ (by decide) ⟨1,1⟩ (by decide)).mpr rfl) (by decide)

end Qlever.VocabularyMerger
