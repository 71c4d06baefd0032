import Qlever.DeltaTriples

/-! How the triples of an update are rewritten: words keep their values, and the blank nodes of
other local vocabularies are renamed injectively to new ones.
-/
namespace Qlever
open Library
variable {Word : Type} [LinearOrder Word] {minIndex : Nat}

section Values

omit [LinearOrder Word] in
def ValueId.isBlankNode : ValueId Word → Bool
  | .blankNodeIndex _ => true
  | _ => false

variable {vocab : Vocabulary Word}

theorem ValueId.value_blankNode {id : ValueId Word} {index : Nat}
    (same : id.value vocab = (ValueId.blankNodeIndex index).value vocab) : id = .blankNodeIndex index := by
  cases id with
  | encoded datatype data =>
    have rank := ValueId.toNat_cases datatype
    simp only [ValueId.value,toLex_inj,Prod.mk.injEq] at same
    omega
  | vocabIndex other => simp [ValueId.value] at same
  | localVocabIndex address word =>
    obtain ⟨inner,equal⟩ := ValueId.wordValue_rank (vocab.getPositionOfWord word) word
    simp [ValueId.value,equal] at same
  | blankNodeIndex other =>
    simp only [ValueId.value,toLex_inj,Prod.mk.injEq] at same
    rw [same.2.1]

theorem TriplesToHandlesMap.sameTriple_iff {s t : Triple Word} :
    sameTriple vocab s t = true ↔ tripleValue vocab s = tripleValue vocab t := by
  simp only [sameTriple,decide_eq_true_eq,ValueId.compare_eq,cmp_eq_eq_iff]
  constructor
  · intro same
    apply IdTriple.ids_injective
    funext i
    rw [tripleValue,tripleValue,IdTriple.ids_map,IdTriple.ids_map,same i]
  · intro same i
    have column := congrArg (fun triple => triple.ids i) same
    simpa only [tripleValue,IdTriple.ids_map] using column

end Values

section Convert
variable {manager : BlankNodeManager minIndex} {localVocab : LocalVocab Word} {state state' : Conversion Word}

section
omit [LinearOrder Word]

/-- The blank nodes that may occur in an update: those of the index, those of the local vocabulary of the
updates, and those of the other local vocabularies. -/
def ValidId (manager : BlankNodeManager minIndex) (localVocab : LocalVocab Word) : ValueId Word → Prop
  | .blankNodeIndex index => index < minIndex ∨ localVocab.isBlankNodeIndexContained index = true ∨
      LocalVocab.blockOf minIndex index ∈ manager.othersBlocks
  | _ => True

structure Converting (manager : BlankNodeManager minIndex) (localVocab : LocalVocab Word) (state : Conversion Word) : Prop where
  well : LocalVocab.WellFormed minIndex state.localVocab
  disjoint : Disjoint state.localVocab.usedBlocks manager.othersBlocks
  kept : ∀ index,localVocab.isBlankNodeIndexContained index = true → state.localVocab.isBlankNodeIndexContained index = true
  contained : ∀ entry ∈ state.blankNodeMap,minIndex ≤ entry.2 ∧ state.localVocab.isBlankNodeIndexContained entry.2 = true
  new : ∀ entry ∈ state.blankNodeMap,localVocab.isBlankNodeIndexContained entry.2 = false
  keys : (state.blankNodeMap.map Prod.fst).Nodup
  values : (state.blankNodeMap.map Prod.snd).Nodup

structure Conversion.Extends (state state' : Conversion Word) : Prop where
  words : state.localVocab.primaryWordSet ⊆ state'.localVocab.primaryWordSet
  blankNodes : state.blankNodeMap ⊆ state'.blankNodeMap

inductive Converted (minIndex : Nat) (localVocab : LocalVocab Word) (state : Conversion Word) : ValueId Word → ValueId Word → Prop
  | encoded (datatype : EncodedType) (data : Nat) : Converted minIndex localVocab state (.encoded datatype data) (.encoded datatype data)
  | vocabIndex (index : Nat) : Converted minIndex localVocab state (.vocabIndex index) (.vocabIndex index)
  | word (address address' : Nat) (word : Word) (member : (address',word) ∈ state.localVocab.primaryWordSet) :
    Converted minIndex localVocab state (.localVocabIndex address word) (.localVocabIndex address' word)
  | kept (index : Nat) (known : index < minIndex ∨ localVocab.isBlankNodeIndexContained index = true) :
    Converted minIndex localVocab state (.blankNodeIndex index) (.blankNodeIndex index)
  | mapped (index index' : Nat) (isLocal : minIndex ≤ index) (foreign : localVocab.isBlankNodeIndexContained index = false)
    (member : (index,index') ∈ state.blankNodeMap) : Converted minIndex localVocab state (.blankNodeIndex index) (.blankNodeIndex index')

theorem Conversion.Extends.refl (state : Conversion Word) : state.Extends state := ⟨fun _ member => member,fun _ member => member⟩

theorem Conversion.Extends.trans {s1 s2 s3 : Conversion Word} (first : s1.Extends s2) (second : s2.Extends s3) : s1.Extends s3 :=
  ⟨List.Subset.trans first.words second.words,List.Subset.trans first.blankNodes second.blankNodes⟩

theorem Converted.extend {id id' : ValueId Word} (converted : Converted minIndex localVocab state id id') (extension : state.Extends state') :
    Converted minIndex localVocab state' id id' := by
  cases converted with
  | encoded datatype data => exact .encoded datatype data
  | vocabIndex index => exact .vocabIndex index
  | word address address' word member => exact .word address address' word (extension.words member)
  | kept index known => exact .kept index known
  | mapped index index' isLocal foreign member => exact .mapped index index' isLocal foreign (extension.blankNodes member)

theorem Converting.foreign (converting : Converting manager localVocab state) {index : Nat}
    (foreign : LocalVocab.blockOf minIndex index ∈ manager.othersBlocks) : state.localVocab.isBlankNodeIndexContained index = false := by
  by_contra contained
  have used := (converting.well.contained (Bool.not_eq_false _ ▸ contained)).2
  exact Finset.disjoint_left.mp converting.disjoint used foreign

theorem getLocalBlankNode_yields (converting : Converting manager localVocab state) (index : Nat) :
    Yields .tooManyBlankNodeBlocks (getLocalBlankNode manager index state) (fun mapped next =>
      Converting manager localVocab next ∧ state.Extends next ∧ (index,mapped) ∈ next.blankNodeMap) := by
  cases found : state.blankNodeMap.lookup index with
  | some mapped =>
    refine Or.inr ⟨mapped,state,by rw [getLocalBlankNode,found],converting,Conversion.Extends.refl state,?_⟩
    obtain ⟨before,after,split,_⟩ := List.lookup_eq_some_iff.mp found
    simp [split]
  | none =>
    simp only [getLocalBlankNode,found]
    rcases LocalVocab.getBlankNodeIndex_cases manager state.localVocab with failed | ⟨⟨mapped,next⟩,done⟩
    · exact Or.inl (by rw [failed]; rfl)
    · have fresh := LocalVocab.getBlankNodeIndex_fresh converting.well converting.disjoint done
      rw [done]
      have absent : ∀ entry ∈ state.blankNodeMap,index ≠ entry.1 := by
        intro entry member same
        have none := List.lookup_eq_none_iff.mp found entry member
        simp [same] at none
      apply Yields.pure
      refine ⟨⟨fresh.well,fresh.disjoint,?_,?_,?_,?_,?_⟩,⟨?_,?_⟩,List.mem_cons_self⟩
      · intro other contained
        exact (fresh.contained other).mpr (Or.inl (converting.kept other contained))
      · intro entry member
        rcases List.mem_cons.mp member with rfl | old
        · exact ⟨fresh.isLocal,(fresh.contained mapped).mpr (Or.inr rfl)⟩
        · obtain ⟨isLocal,contained⟩ := converting.contained entry old
          exact ⟨isLocal,(fresh.contained entry.2).mpr (Or.inl contained)⟩
      · intro entry member
        rcases List.mem_cons.mp member with rfl | old
        · by_contra contained
          have still := converting.kept mapped (Bool.not_eq_false _ ▸ contained)
          rw [fresh.notContained] at still
          cases still
        · exact converting.new entry old
      · rw [List.map_cons,List.nodup_cons]
        refine ⟨?_,converting.keys⟩
        intro member
        obtain ⟨entry,isEntry,same⟩ := List.mem_map.mp member
        exact absent entry isEntry same.symm
      · rw [List.map_cons,List.nodup_cons]
        refine ⟨?_,converting.values⟩
        intro member
        obtain ⟨entry,isEntry,same⟩ := List.mem_map.mp member
        have contained := (converting.contained entry isEntry).2
        rw [same,fresh.notContained] at contained
        cases contained
      · simp [fresh.words]
      · exact List.subset_cons_self _ _

end

theorem Converting.addWord (converting : Converting manager localVocab state) (word : Word) :
    Converting manager localVocab {state with localVocab := (state.localVocab.getIndexAndAddIfNotContained word).2} := by
  have blocks := LocalVocab.getIndexAndAddIfNotContained_blocks state.localVocab word
  have same : ∀ index,(state.localVocab.getIndexAndAddIfNotContained word).2.isBlankNodeIndexContained index =
      state.localVocab.isBlankNodeIndexContained index := by
    intro index
    rw [LocalVocab.isBlankNodeIndexContained,blocks]
    rfl
  refine ⟨converting.well.addWord word,?_,?_,?_,converting.new,converting.keys,converting.values⟩
  · rw [LocalVocab.usedBlocks,blocks]
    exact converting.disjoint
  · intro index contained
    rw [same]
    exact converting.kept index contained
  · intro entry member
    rw [same]
    exact converting.contained entry member

theorem convertId_yields (id : ValueId Word) (state : Conversion Word) (valid : ValidId manager localVocab id)
    (converting : Converting manager localVocab state) :
    Yields .tooManyBlankNodeBlocks (convertId manager id state) (fun id' next =>
      Converting manager localVocab next ∧ state.Extends next ∧ Converted minIndex localVocab next id id') := by
  cases id with
  | encoded datatype data => exact Or.inr ⟨_,_,rfl,converting,Conversion.Extends.refl state,.encoded datatype data⟩
  | vocabIndex index => exact Or.inr ⟨_,_,rfl,converting,Conversion.Extends.refl state,.vocabIndex index⟩
  | localVocabIndex address word =>
    refine Or.inr ⟨_,_,rfl,converting.addWord word,⟨?_,fun _ member => member⟩,?_⟩
    · exact LocalVocab.getIndexAndAddIfNotContained_subset state.localVocab word
    · exact .word _ _ word (LocalVocab.getIndexAndAddIfNotContained_mem state.localVocab word)
  | blankNodeIndex index =>
    by_cases known : index < minIndex ∨ localVocab.isBlankNodeIndexContained index = true
    · have passes : (decide (index < minIndex) || state.localVocab.isBlankNodeIndexContained index) = true := by
        rcases known with global | contained
        · simp [global]
        · simp [converting.kept index contained]
      exact Or.inr ⟨_,_,by rw [convertId,if_pos passes],converting,Conversion.Extends.refl state,.kept index known⟩
    · obtain ⟨notGlobal,notContained⟩ := not_or.mp known
      have foreign : LocalVocab.blockOf minIndex index ∈ manager.othersBlocks := by
        rcases valid with global | contained | foreign
        · exact absurd global notGlobal
        · exact absurd contained notContained
        · exact foreign
      have fails : ¬ (decide (index < minIndex) || state.localVocab.isBlankNodeIndexContained index) = true := by
        simp [notGlobal,converting.foreign foreign]
      rw [convertId,if_neg fails]
      apply (getLocalBlankNode_yields converting index).bind
      intro mapped next holds
      obtain ⟨converting',extension,member⟩ := holds
      exact Yields.pure ⟨converting',extension,.mapped index mapped (not_lt.mp notGlobal) (by simpa using notContained) member⟩

section
omit [LinearOrder Word]

def ConvertedTriple (minIndex : Nat) (localVocab : LocalVocab Word) (state : Conversion Word) (triple triple' : Triple Word) : Prop :=
  ∀ i,Converted minIndex localVocab state (triple.ids i) (triple'.ids i)

def ValidTriple (manager : BlankNodeManager minIndex) (localVocab : LocalVocab Word) (triple : Triple Word) : Prop :=
  ∀ i,ValidId manager localVocab (triple.ids i)

end

theorem convertTriple_yields (localVocab : LocalVocab Word) (triple : Triple Word) (state : Conversion Word) (valid : ValidTriple manager localVocab triple)
    (converting : Converting manager localVocab state) :
    Yields .tooManyBlankNodeBlocks (convertTriple manager triple state) (fun triple' next =>
      Converting manager localVocab next ∧ state.Extends next ∧ ConvertedTriple minIndex localVocab next triple triple') := by
  rw [convertTriple]
  apply (convertId_yields triple.col0Id state (valid 0) converting).bind
  intro col0Id s1 first
  obtain ⟨converting1,extension1,converted0⟩ := first
  apply (convertId_yields triple.col1Id s1 (valid 1) converting1).bind
  intro col1Id s2 second
  obtain ⟨converting2,extension2,converted1⟩ := second
  apply (convertId_yields triple.col2Id s2 (valid 2) converting2).bind
  intro col2Id s3 third
  obtain ⟨converting3,extension3,converted2⟩ := third
  apply (convertId_yields triple.graphId s3 (valid 3) converting3).bind
  intro graphId s4 fourth
  obtain ⟨converting4,extension4,converted3⟩ := fourth
  apply Yields.pure
  refine ⟨converting4,extension1.trans (extension2.trans (extension3.trans extension4)),?_⟩
  intro i
  fin_cases i
  · exact converted0.extend (extension2.trans (extension3.trans extension4))
  · exact converted1.extend (extension3.trans extension4)
  · exact converted2.extend extension4
  · exact converted3

omit [LinearOrder Word] in
/-- The result of `rewriteLocalVocabEntriesAndBlankNodes`. -/
structure Rewritten (manager : BlankNodeManager minIndex) (localVocab : LocalVocab Word) (triples rewritten : List (Triple Word))
    (state : Conversion Word) : Prop where
  converting : Converting manager localVocab state
  words : localVocab.primaryWordSet ⊆ state.localVocab.primaryWordSet
  converted : List.Forall₂ (ConvertedTriple minIndex localVocab state) triples rewritten

theorem rewrite_yields {triples : List (Triple Word)} (well : LocalVocab.WellFormed minIndex localVocab)
    (disjoint : Disjoint localVocab.usedBlocks manager.othersBlocks) (valid : ∀ triple ∈ triples,ValidTriple manager localVocab triple) :
    Yields .tooManyBlankNodeBlocks (rewriteLocalVocabEntriesAndBlankNodes manager triples localVocab)
      (fun rewritten localVocab' => ∃ state,state.localVocab = localVocab' ∧ Rewritten manager localVocab triples rewritten state) := by
  have start : Converting manager localVocab ⟨localVocab,[]⟩ :=
    ⟨well,disjoint,fun _ contained => contained,by simp,by simp,List.nodup_nil,List.nodup_nil⟩
  have all := mapState_yields Conversion.Extends.refl (fun first second => Conversion.Extends.trans first second)
    (fun extension converted => fun i => (converted i).extend extension)
    (fun triple state isValid converting => convertTriple_yields localVocab triple state isValid converting) triples ⟨localVocab,[]⟩ valid start
  rw [rewriteLocalVocabEntriesAndBlankNodes]
  rcases all with failed | ⟨rewritten,state,done,converting,extension,converted⟩
  · exact Or.inl (by rw [failed]; rfl)
  · exact Or.inr ⟨rewritten,state.localVocab,by rw [done]; rfl,state,rfl,converting,extension.words,converted⟩

section
omit [LinearOrder Word]

def Owned (minIndex : Nat) (localVocab : LocalVocab Word) : ValueId Word → Prop
  | .localVocabIndex address word => (address,word) ∈ localVocab.primaryWordSet
  | .blankNodeIndex index => index < minIndex ∨ localVocab.isBlankNodeIndexContained index = true
  | _ => True

theorem Converted.owned (converting : Converting manager localVocab state) {id id' : ValueId Word}
    (converted : Converted minIndex localVocab state id id') : Owned minIndex state.localVocab id' := by
  cases converted with
  | encoded datatype data | vocabIndex index => trivial
  | word address address' word member => exact member
  | kept index known => exact known.imp id (converting.kept index)
  | mapped index index' isLocal foreign member => exact Or.inr (converting.contained _ member).2

section
variable {triples rewritten : List (Triple Word)} (result : Rewritten manager localVocab triples rewritten state)
include result

theorem Rewritten.owned {id : ValueId Word}
    (owned : Owned minIndex localVocab id) : Owned minIndex state.localVocab id := by
  cases id with
  | encoded datatype data | vocabIndex index => trivial
  | localVocabIndex address word => exact result.words owned
  | blankNodeIndex index => exact owned.imp id (result.converting.kept index)

theorem Rewritten.owned_rewritten {triple : Triple Word} (member : triple ∈ rewritten) (i : Fin 4) : Owned minIndex state.localVocab (triple.ids i) := by
  obtain ⟨_,_,converted⟩ := exists_left result.converted member
  exact (converted i).owned result.converting

end

end

theorem ValueId.isBlankNode_of_value {vocab : Vocabulary Word} {id id' : ValueId Word} (same : id.value vocab = id'.value vocab)
    (blankNode : id'.isBlankNode = true) : id = id' := by
  cases id' with
  | blankNodeIndex index => exact ValueId.value_blankNode same
  | _ => cases blankNode

omit [LinearOrder Word] in
theorem Converted.blankNode_injective (converting : Converting manager localVocab state) {i1 i2 index : Nat}
    (first : Converted minIndex localVocab state (.blankNodeIndex i1) (.blankNodeIndex index))
    (second : Converted minIndex localVocab state (.blankNodeIndex i2) (.blankNodeIndex index)) : i1 = i2 := by
  have apart : ∀ {i : Nat},(i,index) ∈ state.blankNodeMap → ¬ (index < minIndex ∨ localVocab.isBlankNodeIndexContained index = true) := by
    intro i member known
    have isLocal := (converting.contained _ member).1
    have new := converting.new _ member
    rcases known with global | contained
    · exact absurd isLocal (not_le.mpr global)
    · rw [contained] at new
      cases new
  cases first with
  | kept _ known =>
    cases second with
    | kept _ _ => rfl
    | mapped _ _ _ _ member => exact absurd known (apart member)
  | mapped _ _ _ _ member =>
    cases second with
    | kept _ known => exact absurd known (apart member)
    | mapped _ _ _ _ member' =>
      have same := List.inj_on_of_nodup_map converting.values member member' rfl
      exact congrArg Prod.fst same

end Convert

section Moved
variable {vocab : Vocabulary Word} {related : Nat → Nat → Prop}

def Moved (vocab : Vocabulary Word) (related : Nat → Nat → Prop) (id id' : ValueId Word) : Prop :=
  match id with
  | .blankNodeIndex index => ∃ index',id' = .blankNodeIndex index' ∧ related index index'
  | _ => id'.value vocab = id.value vocab

theorem Moved.of_value {id id' : ValueId Word} (noBlankNode : id.isBlankNode = false) (same : id'.value vocab = id.value vocab) :
    Moved vocab related id id' := by
  cases id with
  | blankNodeIndex index => cases noBlankNode
  | _ => exact same

theorem Moved.value_eq {id id' : ValueId Word} (moved : Moved vocab related id id') (noBlankNode : id.isBlankNode = false) :
    id'.value vocab = id.value vocab := by
  cases id with
  | blankNodeIndex index => cases noBlankNode
  | _ => exact moved

theorem Moved.isBlankNode {id id' : ValueId Word} (moved : Moved vocab related id id') : id'.isBlankNode = id.isBlankNode := by
  cases blank : id.isBlankNode with
  | true =>
    cases id with
    | blankNodeIndex index =>
      obtain ⟨index',rfl,_⟩ := moved
      rfl
    | _ => cases blank
  | false =>
    by_contra isBlank
    have same := ValueId.isBlankNode_of_value (moved.value_eq blank).symm (Bool.not_eq_false _ ▸ isBlank)
    rw [same] at blank
    exact isBlank blank

theorem Moved.value_injective (unique : Relator.LeftUnique related) {id1 id2 id1' id2' : ValueId Word}
    (first : Moved vocab related id1 id1') (second : Moved vocab related id2 id2') (same : id1'.value vocab = id2'.value vocab) :
    id1.value vocab = id2.value vocab := by
  cases blank : id2.isBlankNode with
  | true =>
    have blank' : id2'.isBlankNode = true := second.isBlankNode.trans blank
    obtain rfl := ValueId.isBlankNode_of_value same blank'
    have blank1 : id1.isBlankNode = true := first.isBlankNode.symm.trans blank'
    cases id1 with
    | blankNodeIndex i1 =>
      cases id2 with
      | blankNodeIndex i2 =>
        obtain ⟨index,rfl,related1⟩ := first
        obtain ⟨_,equal,related2⟩ := second
        cases equal
        rw [unique related1 related2]
      | _ => cases blank
    | _ => cases blank1
  | false =>
    have blank1 : id1.isBlankNode = false := by
      rw [← first.isBlankNode]
      by_contra isBlank
      have equal := ValueId.isBlankNode_of_value same.symm (Bool.not_eq_false _ ▸ isBlank)
      rw [← second.isBlankNode,equal] at blank
      exact isBlank blank
    rw [← first.value_eq blank1,← second.value_eq blank]
    exact same

def MovedTriple (vocab : Vocabulary Word) (related : Nat → Nat → Prop) (triple triple' : Triple Word) : Prop :=
  ∀ i,Moved vocab related (triple.ids i) (triple'.ids i)

theorem MovedTriple.value_injective (unique : Relator.LeftUnique related) {s t s' t' : Triple Word}
    (first : MovedTriple vocab related s s') (second : MovedTriple vocab related t t') (same : tripleValue vocab s' = tripleValue vocab t') :
    tripleValue vocab s = tripleValue vocab t := by
  apply IdTriple.ids_injective
  funext i
  rw [tripleValue,tripleValue,IdTriple.ids_map,IdTriple.ids_map]
  have column := congrArg (fun triple => triple.ids i) same
  simp only [tripleValue,IdTriple.ids_map] at column
  exact (first i).value_injective unique (second i) column

theorem MovedTriple.nodup (unique : Relator.LeftUnique related) {triples triples' : List (Triple Word)}
    (moved : List.Forall₂ (MovedTriple vocab related) triples triples') (distinct : (triples.map (tripleValue vocab)).Nodup) :
    (triples'.map (tripleValue vocab)).Nodup := by
  induction moved with
  | nil => exact List.nodup_nil
  | @cons triple triple' triples triples' single rest ih =>
    rw [List.map_cons,List.nodup_cons] at distinct ⊢
    refine ⟨?_,ih distinct.2⟩
    intro member
    obtain ⟨other',isMember,same⟩ := List.mem_map.mp member
    obtain ⟨other,isOther,moved'⟩ := exists_left rest isMember
    exact distinct.1 (List.mem_map.mpr ⟨other,isOther,moved'.value_injective unique single same⟩)

end Moved

section Batch
variable {vocab : Vocabulary Word} {manager : BlankNodeManager minIndex} {localVocab : LocalVocab Word} {state : Conversion Word}

section
omit [LinearOrder Word]

def ConvertedBlankNode (minIndex : Nat) (localVocab : LocalVocab Word) (state : Conversion Word) (index index' : Nat) : Prop :=
  Converted minIndex localVocab state (.blankNodeIndex index) (.blankNodeIndex index')

theorem Converting.leftUnique (converting : Converting manager localVocab state) :
    Relator.LeftUnique (ConvertedBlankNode minIndex localVocab state) := by
  intro i1 index i2 first second
  exact Converted.blankNode_injective converting first second

end

theorem Converted.moved {id id' : ValueId Word} (converted : Converted minIndex localVocab state id id') :
    Moved vocab (ConvertedBlankNode minIndex localVocab state) id id' := by
  cases converted with
  | encoded datatype data | vocabIndex index | word address address' word member => rfl
  | kept index known => exact ⟨index,rfl,.kept index known⟩
  | mapped index index' isLocal foreign member => exact ⟨index',rfl,.mapped index index' isLocal foreign member⟩

section
variable {triples rewritten : List (Triple Word)} (result : Rewritten manager localVocab triples rewritten state)
include result

theorem Rewritten.moved :
    List.Forall₂ (MovedTriple vocab (ConvertedBlankNode minIndex localVocab state)) triples rewritten :=
  result.converted.imp (fun _ _ converted i => (converted i).moved)

theorem Rewritten.nodup (distinct : (triples.map (tripleValue vocab)).Nodup) : (rewritten.map (tripleValue vocab)).Nodup :=
  MovedTriple.nodup result.converting.leftUnique result.moved distinct

end

end Batch
end Qlever
