import Qlever.ExecuteUpdate
import Qlever.RestoredUpdates

/-! What a SPARQL UPDATE does to the visible quads: those of the index that are not deleted, and those that
are inserted.
-/
namespace Qlever
open Library IdTriple
open List hiding keys
open Option (getD_some getD_none)
variable {Word Var : Type} [LinearOrder Word]

section Instances
variable {numColumns : Nat} (vocab : Vocabulary Word) (variableColumns : Var → Option (Fin numColumns))

def literalValue (word : Word) : IdValue Word := ValueId.wordValue (vocab.getPositionOfWord word) word

def undefinedValue : IdValue Word := (ValueId.encoded .Undefined 0).value vocab

def columnDenotes (row : Fin numColumns → ValueId Word) (var : Var) (value : IdValue Word) : Prop :=
  ∃ column,variableColumns var = some column ∧ value = (row column).value vocab

def TripleComponent.Denotes (row : Fin numColumns → ValueId Word) (component : TripleComponent Word Var) (value : IdValue Word) : Prop :=
  match component with
  | var variable' => columnDenotes vocab variableColumns row variable' value
  | literalOrIri word => value = literalValue vocab word
  | id constant => value = constant.value vocab

def TemplateGraph.Denotes (defaultGraph : Word) (row : Fin numColumns → ValueId Word) (graph : TemplateGraph Word Var) (value : IdValue Word) : Prop :=
  match graph with
  | monostate => value = literalValue vocab defaultGraph
  | iri word => value = literalValue vocab word
  | var variable' => columnDenotes vocab variableColumns row variable' value

structure SparqlTripleSimpleWithGraph.Denotes (defaultGraph : Word) (row : Fin numColumns → ValueId Word) (template : SparqlTripleSimpleWithGraph Word Var)
    (quad : IdTriple (IdValue Word)) : Prop where
  s : template.s.Denotes vocab variableColumns row quad.col0Id
  p : template.p.Denotes vocab variableColumns row quad.col1Id
  o : template.o.Denotes vocab variableColumns row quad.col2Id
  g : template.g.Denotes vocab variableColumns defaultGraph row quad.graphId

def instances (defaultGraph : Word) (templates : List (SparqlTripleSimpleWithGraph Word Var)) (rows : List (Fin numColumns → ValueId Word)) :
    Set (IdTriple (IdValue Word)) :=
  {quad | (∃ row ∈ rows,∃ template ∈ templates,template.Denotes vocab variableColumns defaultGraph row quad) ∧ ∀ i,quad.ids i ≠ undefinedValue vocab}

end Instances

section Select
variable {Row : Type}

def LimitOffsetClause.select (limitOffset : LimitOffsetClause) (rows : List Row) : List Row :=
  let takeLimit (limit : Option Nat) (rows : List Row) := match limit with
    | some count => rows.take count
    | none => rows
  takeLimit limitOffset.exportLimit (takeLimit limitOffset.limit (rows.drop limitOffset.offset))

theorem LimitOffsetClause.select_subset (limitOffset : LimitOffsetClause) (rows : List Row) : limitOffset.select rows ⊆ rows := by
  obtain ⟨limit,offset,exportLimit⟩ := limitOffset
  have behind : rows.drop offset ⊆ rows := drop_subset offset rows
  cases limit with
  | none =>
    cases exportLimit with
    | none => exact behind
    | some count => exact List.Subset.trans (take_subset count _) behind
  | some count =>
    cases exportLimit with
    | none => exact List.Subset.trans (take_subset count _) behind
    | some count' => exact List.Subset.trans (take_subset count' _) (List.Subset.trans (take_subset count _) behind)

theorem getRowIndices_eq (limitOffset : LimitOffsetClause) {rows : List Row} (fits : rows.length < 2 ^ 64) :
    getRowIndices limitOffset rows = limitOffset.select rows := by
  obtain ⟨limit,offset,exportLimit⟩ := limitOffset
  have short : (rows.drop offset).length ≤ 2 ^ 64 - 1 := by
    rw [length_drop]
    omega
  unfold getRowIndices LimitOffsetClause.select
  split
  next zero =>
    cases limit with
    | none => cases zero
    | some count =>
      simp only [getD_some] at zero
      subst zero
      cases exportLimit <;> simp
  next =>
    split
    next behind =>
      simp only [drop_eq_nil_of_le behind]
      cases limit <;> cases exportLimit <;> simp
    next =>
      have same : ∀ count count',min count (rows.drop offset).length = min count' (rows.drop offset).length →
          (rows.drop offset).take count = (rows.drop offset).take count' := by
        intro count count'
        exact take_eq_take_iff.mpr
      have all : (rows.drop offset).take (2 ^ 64 - 1) = rows.drop offset := take_of_length_le short
      have size : rows.length - offset = (rows.drop offset).length := length_drop.symm
      simp only [LimitOffsetClause.exportLimitOrDefault,LimitOffsetClause.limitOrDefault,size]
      cases limit with
      | none =>
        cases exportLimit with
        | none => exact take_of_length_le (by simp only [getD_none]; omega)
        | some count => exact same _ _ (by simp only [getD_none,getD_some]; omega)
      | some count =>
        cases exportLimit with
        | none => exact same _ _ (by simp only [getD_none,getD_some]; omega)
        | some count' =>
          simp only [take_take]
          exact same _ _ (by simp only [getD_some]; omega)

end Select

namespace ExecuteUpdate
variable {numColumns : Nat} {vocab : Vocabulary Word} {variableColumns : Var → Option (Fin numColumns)}

section Templates

omit [LinearOrder Word] in
def lookup (row : Fin numColumns → ValueId Word) : IdOrVariableIndex Word numColumns → ValueId Word
  | .id id => id
  | .columnIndex index => row index

theorem wordToValueId_value (word : Word) (localVocab : LocalVocab Word) : (wordToValueId vocab word localVocab).1.value vocab = literalValue vocab word := by
  unfold wordToValueId getId
  by_cases missing : (vocab.getPositionOfWord word).1 = (vocab.getPositionOfWord word).2
  · simp only [missing,if_true]
    rfl
  · simp only [missing,if_false,ValueId.value,literalValue,ValueId.wordValue]

variable {result : IdOrVariableIndex Word numColumns}

theorem transformVariable_denotes {var : Var} (done : transformVariable variableColumns var = .ok result)
    (row : Fin numColumns → ValueId Word) (value : IdValue Word) :
    columnDenotes vocab variableColumns row var value ↔ value = (lookup row result).value vocab := by
  unfold transformVariable at done
  cases found : variableColumns var with
  | none => simp [found] at done
  | some column =>
    simp only [found,Except.ok.injEq] at done
    subst done
    simp [columnDenotes,found,lookup]

variable {localVocab : LocalVocab Word}

theorem transformComponent_denotes {component : TripleComponent Word Var} {next : LocalVocab Word}
    (done : transformSparqlTripleComponent vocab variableColumns component localVocab = .ok (result,next)) (row : Fin numColumns → ValueId Word)
    (value : IdValue Word) : component.Denotes vocab variableColumns row value ↔ value = (lookup row result).value vocab := by
  cases component with
  | var var =>
    rw [transformSparqlTripleComponent,bind_eq_ok] at done
    obtain ⟨column,transformed,done⟩ := done
    cases done
    exact transformVariable_denotes transformed row value
  | literalOrIri word =>
    cases done
    change value = literalValue vocab word ↔ value = (wordToValueId vocab word localVocab).1.value vocab
    rw [wordToValueId_value]
  | id constant =>
    cases done
    rfl

theorem transformGraph_denotes
    {defaultGraph : Word} {defaultGraphIri : ValueId Word} (isDefault : defaultGraphIri.value vocab = literalValue vocab defaultGraph)
    {graph : TemplateGraph Word Var} {next : LocalVocab Word}
    (done : transformGraph vocab variableColumns defaultGraphIri graph localVocab = .ok (result,next)) (row : Fin numColumns → ValueId Word)
    (value : IdValue Word) : graph.Denotes vocab variableColumns defaultGraph row value ↔ value = (lookup row result).value vocab := by
  cases graph with
  | monostate =>
    cases done
    rw [lookup,isDefault]
    rfl
  | iri word =>
    cases done
    change value = literalValue vocab word ↔ value = (wordToValueId vocab word localVocab).1.value vocab
    rw [wordToValueId_value]
  | var var =>
    rw [transformGraph,bind_eq_ok] at done
    obtain ⟨column,transformed,done⟩ := done
    cases done
    exact transformVariable_denotes transformed row value

def Transformed (vocab : Vocabulary Word) (variableColumns : Var → Option (Fin numColumns)) (defaultGraph : Word)
    (template : SparqlTripleSimpleWithGraph Word Var) (transformed : IdTriple (IdOrVariableIndex Word numColumns)) : Prop :=
  ∀ row quad,template.Denotes vocab variableColumns defaultGraph row quad ↔ quad = tripleValue vocab (transformed.map (lookup row))

theorem transformTriplesTemplate_denotes {defaultGraph : Word} {templates : List (SparqlTripleSimpleWithGraph Word Var)}
    {transformed : List (IdTriple (IdOrVariableIndex Word numColumns))}
    (done : transformTriplesTemplate vocab variableColumns defaultGraph templates = .ok (transformed,localVocab)) :
    List.Forall₂ (Transformed vocab variableColumns defaultGraph) templates transformed := by
  refine mapState_forall₂ ?_ done
  intro template state result next single
  rw [transformSparqlTripleSimple,bind_eq_ok] at single
  obtain ⟨⟨s,state1⟩,first,single⟩ := single
  rw [bind_eq_ok] at single
  obtain ⟨⟨p,state2⟩,second,single⟩ := single
  rw [bind_eq_ok] at single
  obtain ⟨⟨o,state3⟩,third,single⟩ := single
  rw [bind_eq_ok] at single
  obtain ⟨⟨g,state4⟩,fourth,single⟩ := single
  cases single
  intro row quad
  have isDefault : (wordToValueId vocab defaultGraph {}).1.value vocab = literalValue vocab defaultGraph := wordToValueId_value defaultGraph {}
  constructor
  · intro denotes
    have column0 := (transformComponent_denotes first row _).mp denotes.s
    have column1 := (transformComponent_denotes second row _).mp denotes.p
    have column2 := (transformComponent_denotes third row _).mp denotes.o
    have column3 := (transformGraph_denotes isDefault fourth row _).mp denotes.g
    exact IdTriple.ext column0 column1 column2 column3
  · intro same
    subst same
    exact ⟨(transformComponent_denotes first row _).mpr rfl,(transformComponent_denotes second row _).mpr rfl,
      (transformComponent_denotes third row _).mpr rfl,(transformGraph_denotes isDefault fourth row _).mpr rfl⟩

end Templates

section Quads

theorem isUndefined_iff (id : ValueId Word) : isUndefined id = true ↔ id.value vocab = undefinedValue vocab := by
  constructor
  · intro undefined
    unfold isUndefined at undefined
    split at undefined
    · rfl
    · cases undefined
  · intro same
    cases id with
    | encoded datatype data =>
      simp only [undefinedValue,ValueId.value,toLex_inj,Prod.mk.injEq,and_true] at same
      obtain ⟨isType,rfl⟩ := same
      cases datatype <;> simp [EncodedType.toNat] at isType
      rfl
    | vocabIndex index | blankNodeIndex index => simp [undefinedValue,ValueId.value,EncodedType.toNat] at same
    | localVocabIndex address word =>
      obtain ⟨inner,equal⟩ := ValueId.wordValue_rank (vocab.getPositionOfWord word) word
      simp [undefinedValue,ValueId.value,equal,EncodedType.toNat] at same

section
omit [LinearOrder Word]

theorem resolveVariable_eq (row : Fin numColumns → ValueId Word) (idOrVar : IdOrVariableIndex Word numColumns) :
    resolveVariable row idOrVar = if isUndefined (lookup row idOrVar) then none else some (lookup row idOrVar) := by
  cases idOrVar <;> rfl

theorem computeQuad_eq_some {row : Fin numColumns → ValueId Word} {template : IdTriple (IdOrVariableIndex Word numColumns)} {quad : Triple Word} :
    computeQuad row template = some quad ↔ quad = template.map (lookup row) ∧ ∀ i,isUndefined (quad.ids i) = false := by
  have columns : (∀ i,isUndefined ((template.map (lookup row)).ids i) = false) ↔ isUndefined (lookup row template.col0Id) = false ∧
      isUndefined (lookup row template.col1Id) = false ∧ isUndefined (lookup row template.col2Id) = false ∧ isUndefined (lookup row template.graphId) = false := by
    constructor
    · intro all
      exact ⟨all 0,all 1,all 2,all 3⟩
    · intro all i
      obtain ⟨first,second,third,fourth⟩ := all
      fin_cases i
      · exact first
      · exact second
      · exact third
      · exact fourth
  have step : computeQuad row template = if ∀ i,isUndefined ((template.map (lookup row)).ids i) = false then some (template.map (lookup row)) else none := by
    simp only [computeQuad,resolveVariable_eq,columns]
    cases isUndefined (lookup row template.col0Id) <;> cases isUndefined (lookup row template.col1Id) <;>
      cases isUndefined (lookup row template.col2Id) <;> cases isUndefined (lookup row template.graphId) <;> rfl
  rw [step]
  split
  next all =>
    constructor
    · intro same
      cases same
      exact ⟨rfl,all⟩
    · intro same
      rw [same.1]
  next undefined =>
    constructor
    · intro none
      cases none
    · intro same
      rw [same.1] at same
      exact absurd same.2 undefined

theorem computeQuads_eq {insertTemplates deleteTemplates : List (IdTriple (IdOrVariableIndex Word numColumns))}
    {rows : List (Fin numColumns → ValueId Word)} {toInsert toDelete inserted deleted : List (Triple Word)} {handle last : CancellationHandle}
    (done : computeQuads insertTemplates deleteTemplates rows toInsert toDelete handle = some (inserted,deleted,last)) :
    inserted = toInsert ++ rows.flatMap (fun row => insertTemplates.filterMap (computeQuad row)) ∧
      deleted = toDelete ++ rows.flatMap (fun row => deleteTemplates.filterMap (computeQuad row)) := by
  induction rows generalizing toInsert toDelete handle with
  | nil =>
    cases done
    simp
  | cons row rows ih =>
    simp only [computeQuads,Option.bind_eq_bind,Option.bind_eq_some_iff] at done
    obtain ⟨handle1,_,handle2,_,done⟩ := done
    obtain ⟨isInserted,isDeleted⟩ := ih done
    rw [isInserted,isDeleted]
    simp [computeAndAddQuadsForResultRow]

end

theorem mem_computed {defaultGraph : Word} {templates : List (SparqlTripleSimpleWithGraph Word Var)}
    {transformed : List (IdTriple (IdOrVariableIndex Word numColumns))} (related : List.Forall₂ (Transformed vocab variableColumns defaultGraph) templates transformed)
    (rows : List (Fin numColumns → ValueId Word)) (quad : IdTriple (IdValue Word)) :
    quad ∈ (rows.flatMap (fun row => transformed.filterMap (computeQuad row))).map (tripleValue vocab) ↔
      quad ∈ instances vocab variableColumns defaultGraph templates rows := by
  have defined : ∀ triple : Triple Word,(∀ i,isUndefined (triple.ids i) = false) ↔ ∀ i,(tripleValue vocab triple).ids i ≠ undefinedValue vocab := by
    intro triple
    apply forall_congr'
    intro i
    rw [tripleValue,ids_map,ne_eq,← isUndefined_iff,Bool.not_eq_true]
  simp only [List.mem_map,mem_flatMap,mem_filterMap,computeQuad_eq_some]
  constructor
  · intro member
    obtain ⟨triple,⟨row,isRow,template,isTemplate,rfl,all⟩,rfl⟩ := member
    obtain ⟨original,isOriginal,same⟩ := exists_left related isTemplate
    exact ⟨⟨row,isRow,original,isOriginal,(same row _).mpr rfl⟩,(defined _).mp all⟩
  · intro member
    obtain ⟨⟨row,isRow,original,isOriginal,denotes⟩,all⟩ := member
    obtain ⟨template,isTemplate,same⟩ := exists_left related.flip isOriginal
    obtain rfl := (same row quad).mp denotes
    exact ⟨_,⟨row,isRow,template,isTemplate,rfl,(defined _).mpr all⟩,rfl⟩

end Quads

section Order

theorem cmp_then_lt {α : Type} [LinearOrder α] (a b : α) (rest : Ordering) : (cmp a b).then rest = .lt ↔ a < b ∨ a = b ∧ rest = .lt := by
  rcases lt_trichotomy a b with smaller | rfl | larger
  · simp [cmp_eq_lt_iff a b |>.mpr smaller,smaller]
  · simp
  · simp [cmp_eq_gt_iff a b |>.mpr larger,larger.not_gt,larger.ne']

theorem less_iff (s t : Triple Word) : less vocab s t = true ↔ tripleValue vocab s < tripleValue vocab t := by
  rw [less,beq_iff_eq,compareTriples,lt_iff]
  simp only [ValueId.compare_eq,cmp_then_lt,cmp_eq_lt_iff,tripleValue,IdTriple.map]

section
variable (container : List (Triple Word))

theorem sortAndRemoveDuplicates_strict :
    (sortAndRemoveDuplicates vocab container).Pairwise (fun s t => tripleValue vocab s < tripleValue vocab t) := by
  have isLe : ∀ s t : Triple Word,(!less vocab t s) = true ↔ tripleValue vocab s ≤ tripleValue vocab t := by
    intro s t
    rw [Bool.not_eq_true',← Bool.not_eq_true,less_iff,not_lt]
  refine unique_strict (fun s t => TriplesToHandlesMap.sameTriple_iff) ?_
  have transitive : ∀ a b c : Triple Word,(!less vocab b a) = true → (!less vocab c b) = true → (!less vocab c a) = true :=
    fun a b c first second => (isLe a c).mpr (((isLe a b).mp first).trans ((isLe b c).mp second))
  have total : ∀ a b : Triple Word,(!less vocab b a || !less vocab a b) = true := by
    intro a b
    rw [Bool.or_eq_true,isLe,isLe]
    exact le_total _ _
  have sorted : (container.mergeSort (fun s t => !less vocab t s)).Pairwise (fun s t => (!less vocab t s) = true) :=
    pairwise_mergeSort transitive total container
  exact sorted.imp (fun ordered => (isLe _ _).mp ordered)

theorem mem_sortAndRemoveDuplicates (value : IdTriple (IdValue Word)) :
    value ∈ (sortAndRemoveDuplicates vocab container).map (tripleValue vocab) ↔ value ∈ container.map (tripleValue vocab) := by
  rw [sortAndRemoveDuplicates,mem_keys_unique (fun s t => TriplesToHandlesMap.sameTriple_iff)]
  exact ((mergeSort_perm container _).map _).mem_iff

theorem subset_sortAndRemoveDuplicates : ∀ triple ∈ sortAndRemoveDuplicates vocab container,triple ∈ container := by
  intro triple member
  exact (mergeSort_perm container _).mem_iff.mp ((unique_sublist _).subset member)

end

theorem nodup_of_strict {triples : List (Triple Word)} (strict : triples.Pairwise (fun s t => tripleValue vocab s < tripleValue vocab t)) :
    (triples.map (tripleValue vocab)).Nodup := by
  rw [List.Nodup,pairwise_map]
  exact strict.imp (fun smaller => smaller.ne)

end Order
end ExecuteUpdate

namespace DeltaTriples
open TriplesToHandlesMap
variable {index : Index Word} {d d' : DeltaTriples Word}

section Maps

theorem keys_foldl_insert (vocab : Vocabulary Word) (entries map : TriplesToHandlesMap Word) (value : IdTriple (IdValue Word)) :
    value ∈ keys vocab (entries.foldl (insert vocab) map) ↔ value ∈ keys vocab map ∨ value ∈ keys vocab entries := by
  induction entries generalizing map with
  | nil => simp [keys]
  | cons entry entries ih =>
    rw [foldl_cons,ih]
    have single : value ∈ keys vocab (insert vocab map entry) ↔ value ∈ keys vocab map ∨ value = tripleValue vocab entry.1 := by
      unfold TriplesToHandlesMap.insert
      split
      next contained =>
        have known := contains_iff.mp contained
        constructor
        · exact Or.inl
        · intro holds
          rcases holds with old | rfl
          · exact old
          · exact known
      next => simp [keys]
    rw [single]
    simp only [keys,map_cons,mem_cons]
    tauto

variable {triples : List (Triple Word)}

theorem foldlM_eraseFromInverse_keys {locatedTriples : LocatedTriplesPerBlockAllPermutations Word}
    {inverse : TriplesToHandlesMap Word} {result : LocatedTriplesPerBlockAllPermutations Word × TriplesToHandlesMap Word}
    (run : triples.foldlM (eraseFromInverse index) (locatedTriples,inverse) = .ok result) (value : IdTriple (IdValue Word)) :
    value ∈ keys index.vocab result.2 ↔ value ∈ keys index.vocab inverse ∧ value ∉ triples.map (tripleValue index.vocab) := by
  induction triples generalizing locatedTriples inverse with
  | nil =>
    cases run
    simp
  | cons triple triples ih =>
    rw [foldlM_cons,bind_eq_ok] at run
    obtain ⟨⟨located,inverse'⟩,first,rest⟩ := run
    have erased : inverse' = erase index.vocab inverse triple := eraseFromInverse_snd first
    have single : value ∈ keys index.vocab inverse' ↔ value ∈ keys index.vocab inverse ∧ value ≠ tripleValue index.vocab triple := by
      rw [erased]
      simp only [keys,List.mem_map]
      constructor
      · intro member
        obtain ⟨entry,isEntry,rfl⟩ := member
        obtain ⟨old,different⟩ := mem_erase.mp isEntry
        exact ⟨⟨entry,old,rfl⟩,different⟩
      · intro member
        obtain ⟨⟨entry,isEntry,rfl⟩,different⟩ := member
        exact ⟨entry,mem_erase.mpr ⟨isEntry,different⟩,rfl⟩
    rw [ih rest,single]
    simp only [map_cons,mem_cons]
    tauto

structure KeysUpdated (index : Index Word) (insertOrDelete : Bool) (rewritten : List (Triple Word)) (d d' : DeltaTriples Word) : Prop where
  target : ∀ value,value ∈ keys index.vocab (d'.targetMap insertOrDelete) ↔
    value ∈ keys index.vocab (d.targetMap insertOrDelete) ∨ value ∈ rewritten.map (tripleValue index.vocab)
  inverse : ∀ value,value ∈ keys index.vocab (d'.inverseMap insertOrDelete) ↔
    value ∈ keys index.vocab (d.inverseMap insertOrDelete) ∧ value ∉ rewritten.map (tripleValue index.vocab)

variable {handle : CancellationHandle}

theorem applyRewritten_keys {insertOrDelete : Bool} {rewritten : List (Triple Word)}
    (distinct : (keys index.vocab (d.targetMap insertOrDelete) ++ keys index.vocab (d.inverseMap insertOrDelete)).Nodup)
    (run : applyRewritten index handle rewritten insertOrDelete d = .ok (.finished d')) : KeysUpdated index insertOrDelete rewritten d d' := by
  rw [applyRewritten,bind_eq_ok] at run
  obtain ⟨⟨erased,inverse'⟩,erasing,run⟩ := run
  have inverseKeys := foldlM_eraseFromInverse_keys erasing
  rw [bind_eq_ok] at run
  obtain ⟨added,_,run⟩ := run
  cases added with
  | cancelled located => cases run
  | finished located intermediate =>
    simp only [length_transposeHandles,if_true,pure_eq_ok] at run
    cases run
    have size := (length_transposeHandles (newTriples index rewritten insertOrDelete d).length intermediate).symm
    refine ⟨?_,?_⟩
    · intro value
      rw [targetMap_withMaps,keys_foldl_insert,keys_zip size,mem_values_newTriples]
      by_cases inTarget : value ∈ keys index.vocab (d.targetMap insertOrDelete) <;> simp [inTarget]
    · intro value
      rw [inverseMap_withMaps,inverseKeys,mem_values_newTriples]
      constructor
      · intro holds
        refine ⟨holds.1,?_⟩
        intro inBatch
        -- A triple of the batch that is not new is in the target map, and so it is not in the inverse map.
        have inTarget : value ∈ keys index.vocab (d.targetMap insertOrDelete) := by
          by_contra absent
          exact holds.2 ⟨inBatch,absent⟩
        exact (nodup_append.mp distinct).2.2 value inTarget value holds.1 rfl
      · intro holds
        exact ⟨holds.1,fun new => holds.2 new.1⟩

theorem Storable.keysUpdated (storable : Storable index d) {manager : BlankNodeManager index.minIndex}
    {insertOrDelete : Bool} (valid : ValidBatch index manager d triples)
    (done : modifyTriplesImpl index manager handle triples insertOrDelete d = .ok (.finished d')) :
    ∃ rewritten state,Rewritten manager d.localVocab triples rewritten state ∧ d'.localVocab = state.localVocab ∧
      KeysUpdated index insertOrDelete rewritten d d' ∧ Storable index d' := by
  have call : DeltaTriples.perform ⟨manager,handle,triples,insertOrDelete⟩ d = .ok (.finished d') := done
  obtain ⟨rewritten,localVocab,rewriting,applied⟩ := DeltaTriplesManager.perform_rewrites call
  rcases rewrite_yields storable.vocab valid.disjoint valid.valid with failed | ⟨_,_,rewriting',state,rfl,result⟩
  · rw [failed] at rewriting
    cases rewriting
  · rw [rewriting] at rewriting'
    cases rewriting'
    have distinct : (keys index.vocab (({d with localVocab := state.localVocab} : DeltaTriples Word).targetMap insertOrDelete) ++
        keys index.vocab (({d with localVocab := state.localVocab} : DeltaTriples Word).inverseMap insertOrDelete)).Nodup :=
      storable.distinctFor insertOrDelete
    have keysUpdated := applyRewritten_keys distinct applied
    exact ⟨rewritten,state,result,(applyRewritten_maps distinct applied).localVocab,⟨keysUpdated.target,keysUpdated.inverse⟩,storable.perform valid call⟩

end Maps

section Visible

structure IndexRows (index : Index Word) where
  rows : Set (IdTriple (IdValue Word))
  blankNodes : ∀ quad ∈ rows,∀ i blankNode,quad.ids i = (ValueId.blankNodeIndex blankNode : ValueId Word).value index.vocab → blankNode < index.minIndex

def visible (indexRows : IndexRows index) (d : DeltaTriples Word) : Set (IdTriple (IdValue Word)) :=
  (indexRows.rows \ {quad | quad ∈ keys index.vocab d.triplesDeleted}) ∪ {quad | quad ∈ keys index.vocab d.triplesInserted}

omit [LinearOrder Word] in
def KnownBlankNode (minIndex : Nat) (localVocab : LocalVocab Word) (blankNode : Nat) : Prop :=
  blankNode < minIndex ∨ localVocab.isBlankNodeIndexContained blankNode = true

def OccursIn (vocab : Vocabulary Word) (quad : IdTriple (IdValue Word)) (blankNode : Nat) : Prop :=
  ∃ i,quad.ids i = (ValueId.blankNodeIndex blankNode : ValueId Word).value vocab

variable {indexRows : IndexRows index} {quad : IdTriple (IdValue Word)}

theorem visible_known (storable : Storable index d) (isVisible : quad ∈ visible indexRows d) {blankNode : Nat}
    (occurs : OccursIn index.vocab quad blankNode) : KnownBlankNode index.minIndex d.localVocab blankNode := by
  obtain ⟨i,isBlank⟩ := occurs
  rcases isVisible with ⟨inIndex,_⟩ | inserted
  · exact Or.inl (indexRows.blankNodes quad inIndex i blankNode isBlank)
  · obtain ⟨entry,member,rfl⟩ := List.mem_map.mp inserted
    rw [tripleValue,ids_map] at isBlank
    have owned := storable.owned true entry member i
    rw [ValueId.value_blankNode isBlank] at owned
    exact owned

theorem known_mem_rewritten {manager : BlankNodeManager index.minIndex} {localVocab : LocalVocab Word} {triples rewritten : List (Triple Word)}
    {state : Conversion Word} (result : Rewritten manager localVocab triples rewritten state)
    (known : ∀ blankNode,OccursIn index.vocab quad blankNode → KnownBlankNode index.minIndex localVocab blankNode) :
    quad ∈ rewritten.map (tripleValue index.vocab) ↔ quad ∈ triples.map (tripleValue index.vocab) := by
  have single : ∀ {id id' : ValueId Word},Converted index.minIndex localVocab state id id' →
      (∀ blankNode,id' = .blankNodeIndex blankNode → KnownBlankNode index.minIndex localVocab blankNode) ∨
      (∀ blankNode,id = .blankNodeIndex blankNode → KnownBlankNode index.minIndex localVocab blankNode) → id'.value index.vocab = id.value index.vocab := by
    intro id id' converted isKnown
    cases converted with
    | mapped blankNode blankNode' isLocal foreign member =>
      exfalso
      rcases isKnown with isKnown | isKnown
      · rcases isKnown blankNode' rfl with isIndex | contained
        · exact absurd (result.converting.contained _ member).1 (not_le.mpr isIndex)
        · rw [result.converting.new _ member] at contained
          cases contained
      · rcases isKnown blankNode rfl with isIndex | contained
        · omega
        · rw [foreign] at contained
          cases contained
    | _ => rfl
  constructor
  · intro member
    obtain ⟨triple',isTriple',rfl⟩ := List.mem_map.mp member
    obtain ⟨triple,isTriple,converted⟩ := exists_left result.converted isTriple'
    refine List.mem_map.mpr ⟨triple,isTriple,?_⟩
    apply ids_injective
    funext i
    simp only [tripleValue,ids_map]
    refine (single (converted i) (Or.inl ?_)).symm
    intro blankNode isBlank
    exact known blankNode ⟨i,by rw [tripleValue,ids_map,isBlank]⟩
  · intro member
    obtain ⟨triple,isTriple,rfl⟩ := List.mem_map.mp member
    obtain ⟨triple',isTriple',converted⟩ := exists_left result.converted.flip isTriple
    refine List.mem_map.mpr ⟨triple',isTriple',?_⟩
    apply ids_injective
    funext i
    simp only [tripleValue,ids_map]
    refine single (converted i) (Or.inr ?_)
    intro blankNode isBlank
    exact known blankNode ⟨i,by rw [tripleValue,ids_map,isBlank]⟩

theorem visible_updated {d1 d2 : DeltaTriples Word} {deleted inserted : List (Triple Word)} (deleting : KeysUpdated index false deleted d d1)
    (inserting : KeysUpdated index true inserted d1 d2) :
    visible indexRows d2 = (visible indexRows d \ {quad | quad ∈ deleted.map (tripleValue index.vocab)}) ∪
      {quad | quad ∈ inserted.map (tripleValue index.vocab)} := by
  ext quad
  have deletedMap := deleting.target quad
  have insertedMap := deleting.inverse quad
  have deletedMap' := inserting.inverse quad
  have insertedMap' := inserting.target quad
  simp only [targetMap,inverseMap,Bool.not_false,Bool.not_true,if_true,Bool.false_eq_true,if_false] at deletedMap insertedMap deletedMap' insertedMap'
  simp only [visible,Set.mem_union,Set.mem_sdiff,Set.mem_ofPred_eq,deletedMap',insertedMap',deletedMap,insertedMap]
  grind

end Visible

section Names

omit [LinearOrder Word] in
def renameValue (rename : Nat → Nat) (value : IdValue Word) : IdValue Word :=
  if (ofLex value).1 = 10 then toLex (10,toLex (rename (ofLex (ofLex value).2).1,(ofLex (ofLex value).2).2)) else value

section
variable (vocab : Vocabulary Word) (rename : Nat → Nat)

theorem renameValue_blankNode (blankNode : Nat) :
    renameValue rename ((ValueId.blankNodeIndex blankNode : ValueId Word).value vocab) = (ValueId.blankNodeIndex (rename blankNode)).value vocab := rfl

theorem renameValue_other {id : ValueId Word} (noBlankNode : id.isBlankNode = false) :
    renameValue rename (id.value vocab) = id.value vocab := by
  unfold renameValue
  rw [if_neg]
  cases id with
  | encoded datatype data =>
    have rank := ValueId.toNat_cases datatype
    simp only [ValueId.value,ofLex_toLex]
    omega
  | vocabIndex index => simp [ValueId.value]
  | localVocabIndex address word =>
    obtain ⟨inner,equal⟩ := ValueId.wordValue_rank (vocab.getPositionOfWord word) word
    simp [ValueId.value,equal]
  | blankNodeIndex index => cases noBlankNode

end

/-- The names that the blank nodes of inserted quads get: those of the index and of the updates are kept, and all others get
different new names. -/
structure NewNames (index : Index Word) (localVocab : LocalVocab Word) (quads : Set (IdTriple (IdValue Word))) (rename : Nat → Nat) : Prop where
  kept : ∀ quad ∈ quads,∀ blankNode,OccursIn index.vocab quad blankNode → KnownBlankNode index.minIndex localVocab blankNode → rename blankNode = blankNode
  new : ∀ quad ∈ quads,∀ blankNode,OccursIn index.vocab quad blankNode → ¬ KnownBlankNode index.minIndex localVocab blankNode →
    ¬ KnownBlankNode index.minIndex localVocab (rename blankNode)
  injective : Set.InjOn rename {blankNode | ∃ quad ∈ quads,OccursIn index.vocab quad blankNode}

theorem NewNames.same {localVocab : LocalVocab Word} {quads : Set (IdTriple (IdValue Word))} {rename : Nat → Nat}
    (names : NewNames index localVocab quads rename) {quad : IdTriple (IdValue Word)} (member : quad ∈ quads)
    (known : ∀ blankNode,OccursIn index.vocab quad blankNode → KnownBlankNode index.minIndex localVocab blankNode) {triples : List (Triple Word)}
    (isValue : quad ∈ triples.map (tripleValue index.vocab)) : quad.map (renameValue rename) = quad := by
  obtain ⟨triple,_,rfl⟩ := List.mem_map.mp isValue
  apply ids_injective
  funext i
  rw [ids_map,tripleValue,ids_map]
  cases blank : (triple.ids i).isBlankNode with
  | false => exact renameValue_other index.vocab rename blank
  | true =>
    have occurs : ∀ blankNode,triple.ids i = .blankNodeIndex blankNode → OccursIn index.vocab (tripleValue index.vocab triple) blankNode :=
      fun blankNode isBlank => ⟨i,by rw [tripleValue,ids_map,isBlank]⟩
    generalize triple.ids i = id at *
    cases id with
    | blankNodeIndex blankNode =>
      have here := occurs blankNode rfl
      rw [renameValue_blankNode,names.kept _ member blankNode here (known blankNode here)]
    | _ => cases blank

variable {manager : BlankNodeManager index.minIndex} {localVocab earlier : LocalVocab Word} {triples rewritten : List (Triple Word)}
  {state : Conversion Word}

section
variable (result : Rewritten manager localVocab triples rewritten state)
include result

theorem Rewritten.exists_name {blankNode : Nat}
    (occurs : ∃ quad ∈ triples.map (tripleValue index.vocab),OccursIn index.vocab quad blankNode) :
    ∃ name,ConvertedBlankNode index.minIndex localVocab state blankNode name := by
  obtain ⟨quad,member,i,isBlank⟩ := occurs
  obtain ⟨triple,isTriple,rfl⟩ := List.mem_map.mp member
  obtain ⟨triple',_,converted⟩ := exists_left result.converted.flip isTriple
  rw [tripleValue,ids_map] at isBlank
  have column := converted i
  rw [ValueId.value_blankNode isBlank] at column
  generalize triple'.ids i = id' at column
  cases column with
  | kept _ known => exact ⟨blankNode,.kept blankNode known⟩
  | mapped _ name isLocal foreign inMap => exact ⟨name,.mapped blankNode name isLocal foreign inMap⟩

theorem foreign_of_valid (valid : ∀ triple ∈ triples,ValidTriple manager earlier triple)
    {quad : IdTriple (IdValue Word)} (member : quad ∈ triples.map (tripleValue index.vocab)) {blankNode : Nat}
    (occurs : OccursIn index.vocab quad blankNode) (unknown : ¬ KnownBlankNode index.minIndex earlier blankNode) :
    ¬ KnownBlankNode index.minIndex localVocab blankNode := by
  obtain ⟨i,isBlank⟩ := occurs
  obtain ⟨triple,isTriple,rfl⟩ := List.mem_map.mp member
  rw [tripleValue,ids_map] at isBlank
  have isValid := valid triple isTriple i
  rw [ValueId.value_blankNode isBlank] at isValid
  obtain ⟨notIndex,notContained⟩ := not_or.mp unknown
  have foreign := (isValid.resolve_left notIndex).resolve_left notContained
  intro known
  rcases known with isIndex | contained
  · exact notIndex isIndex
  · have still := result.converting.kept blankNode contained
    rw [result.converting.foreign foreign] at still
    cases still

theorem converted_value {rename : Nat → Nat} {triple triple' : Triple Word}
    (isTriple : triple ∈ triples) (converted : ConvertedTriple index.minIndex localVocab state triple triple')
    (names : ∀ blankNode,(∃ quad ∈ triples.map (tripleValue index.vocab),OccursIn index.vocab quad blankNode) →
      ConvertedBlankNode index.minIndex localVocab state blankNode (rename blankNode)) :
    tripleValue index.vocab triple' = (tripleValue index.vocab triple).map (renameValue rename) := by
  apply ids_injective
  funext i
  rw [ids_map]
  simp only [tripleValue,ids_map]
  have column := converted i
  have occurs : ∀ blankNode,triple.ids i = .blankNodeIndex blankNode → ConvertedBlankNode index.minIndex localVocab state blankNode (rename blankNode) := by
    intro blankNode isBlank
    refine names blankNode ⟨_,List.mem_map.mpr ⟨triple,isTriple,rfl⟩,i,?_⟩
    rw [tripleValue,ids_map,isBlank]
  generalize triple.ids i = id at *
  generalize triple'.ids i = id' at *
  cases id with
  | blankNodeIndex blankNode =>
    have moved : Moved index.vocab (ConvertedBlankNode index.minIndex localVocab state) (.blankNodeIndex blankNode) id' := column.moved
    obtain ⟨name,rfl,isName⟩ := moved
    rw [renameValue_blankNode,convertedBlankNode_rightUnique result.converting isName (occurs blankNode rfl)]
  | _ =>
    rw [renameValue_other index.vocab rename rfl]
    exact column.moved.value_eq rfl

end

open Classical in
theorem Rewritten.newNames (result : Rewritten manager localVocab triples rewritten state)
    (kept : ∀ blankNode,earlier.isBlankNodeIndexContained blankNode = true → localVocab.isBlankNodeIndexContained blankNode = true)
    (valid : ∀ triple ∈ triples,ValidTriple manager earlier triple) :
    ∃ rename,NewNames index earlier {quad | quad ∈ triples.map (tripleValue index.vocab)} rename ∧
      {quad | quad ∈ rewritten.map (tripleValue index.vocab)} =
        (fun quad => quad.map (renameValue rename)) '' {quad | quad ∈ triples.map (tripleValue index.vocab)} := by
  have exists_name : ∀ {blankNode : Nat},(∃ quad ∈ triples.map (tripleValue index.vocab),OccursIn index.vocab quad blankNode) →
      ∃ name,ConvertedBlankNode index.minIndex localVocab state blankNode name := fun occurs => Rewritten.exists_name result occurs
  let rename : Nat → Nat := fun blankNode =>
    if occurs : ∃ quad ∈ triples.map (tripleValue index.vocab),OccursIn index.vocab quad blankNode then (exists_name occurs).choose else blankNode
  have names : ∀ blankNode,(∃ quad ∈ triples.map (tripleValue index.vocab),OccursIn index.vocab quad blankNode) →
      ConvertedBlankNode index.minIndex localVocab state blankNode (rename blankNode) := by
    intro blankNode occurs
    simp only [rename,dif_pos occurs]
    exact (exists_name occurs).choose_spec
  refine ⟨rename,⟨?_,?_,?_⟩,?_⟩
  · intro quad member blankNode occurs known
    have name := names blankNode ⟨quad,member,occurs⟩
    have known' : blankNode < index.minIndex ∨ localVocab.isBlankNodeIndexContained blankNode = true := known.imp id (kept blankNode)
    exact convertedBlankNode_rightUnique result.converting name (.kept blankNode known')
  · intro quad member blankNode occurs unknown
    have name := names blankNode ⟨quad,member,occurs⟩
    have unknown' := foreign_of_valid result valid member occurs unknown
    generalize rename blankNode = name' at name
    cases name with
    | kept _ known => exact absurd known unknown'
    | mapped _ _ isLocal foreign inMap =>
      intro known
      rcases known with isIndex | contained
      · exact absurd (result.converting.contained _ inMap).1 (not_le.mpr isIndex)
      · have still := kept _ contained
        rw [result.converting.new _ inMap] at still
        cases still
  · intro b1 occurs1 b2 occurs2 same
    have name1 := names b1 occurs1
    have name2 := names b2 occurs2
    rw [same] at name1
    exact result.converting.leftUnique name1 name2
  · ext quad
    constructor
    · intro member
      obtain ⟨triple',isTriple',rfl⟩ := List.mem_map.mp member
      obtain ⟨triple,isTriple,converted⟩ := exists_left result.converted isTriple'
      exact ⟨_,List.mem_map.mpr ⟨triple,isTriple,rfl⟩,(converted_value result isTriple converted names).symm⟩
    · intro member
      obtain ⟨original,isOriginal,rfl⟩ := member
      obtain ⟨triple,isTriple,rfl⟩ := List.mem_map.mp isOriginal
      obtain ⟨triple',isTriple',converted⟩ := exists_left result.converted.flip isTriple
      exact List.mem_map.mpr ⟨triple',isTriple',converted_value result isTriple converted names⟩

end Names
end DeltaTriples

namespace ExecuteUpdate
open DeltaTriples
variable {index : Index Word} {manager : BlankNodeManager index.minIndex} {d d' : DeltaTriples Word} {defaultGraph : Word} {update : GraphUpdate Word Var}
  {result : IdTable Word} {variableColumns : Var → Option (Fin result.numColumns)} {handle insertHandle : CancellationHandle}

section Valid

section
omit [LinearOrder Word]

def ValidComponent {minIndex : Nat} (manager : BlankNodeManager minIndex) (localVocab : LocalVocab Word) : TripleComponent Word Var → Prop
  | .id id => ValidId manager localVocab id
  | _ => True

/-- The blank nodes of the result and of the templates belong to the index, to the updates or to a local vocabulary that is in use. -/
structure ValidUpdate {minIndex : Nat} (manager : BlankNodeManager minIndex) (localVocab : LocalVocab Word) (update : GraphUpdate Word Var)
    (result : IdTable Word) : Prop where
  disjoint : Disjoint localVocab.usedBlocks manager.othersBlocks
  rows : ∀ row ∈ result.rows,∀ column,ValidId manager localVocab (row column)
  constants : ∀ template ∈ update.toInsert ++ update.toDelete,ValidComponent manager localVocab template.s ∧ ValidComponent manager localVocab template.p ∧
    ValidComponent manager localVocab template.o

end

theorem wordToValueId_valid {localVocab : LocalVocab Word} (vocab : Vocabulary Word) (word : Word) (templateVocab : LocalVocab Word) :
    ValidId manager localVocab (wordToValueId vocab word templateVocab).1 := by
  unfold wordToValueId
  split <;> trivial

section
variable {numColumns : Nat} {columns : Var → Option (Fin numColumns)} {vocab : Vocabulary Word} {localVocab templateVocab : LocalVocab Word}

variable {next : LocalVocab Word} {transformed : IdOrVariableIndex Word numColumns} {row : Fin numColumns → ValueId Word}

theorem transformComponent_valid
    {component : TripleComponent Word Var} (valid : ValidComponent manager localVocab component)
    (done : transformSparqlTripleComponent vocab columns component templateVocab = .ok (transformed,next))
    (validRow : ∀ column,ValidId manager localVocab (row column)) : ValidId manager localVocab (lookup row transformed) := by
  cases transformed with
  | columnIndex column => exact validRow column
  | id id =>
    cases component with
    | var var =>
      rw [transformSparqlTripleComponent,bind_eq_ok] at done
      obtain ⟨column,transforming,done⟩ := done
      unfold transformVariable at transforming
      split at transforming
      · cases transforming
        cases done
      · cases transforming
    | literalOrIri word =>
      cases done
      exact wordToValueId_valid vocab word templateVocab
    | id constant =>
      cases done
      exact valid

theorem transformGraph_valid
    {graph : TemplateGraph Word Var} {defaultGraphIri : ValueId Word}
    (valid : ValidId manager localVocab defaultGraphIri)
    (done : transformGraph vocab columns defaultGraphIri graph templateVocab = .ok (transformed,next))
    (validRow : ∀ column,ValidId manager localVocab (row column)) : ValidId manager localVocab (lookup row transformed) := by
  cases transformed with
  | columnIndex column => exact validRow column
  | id id =>
    cases graph with
    | var var =>
      rw [transformGraph,bind_eq_ok] at done
      obtain ⟨column,transforming,done⟩ := done
      unfold transformVariable at transforming
      split at transforming
      · cases transforming
        cases done
      · cases transforming
    | iri word =>
      cases done
      exact wordToValueId_valid vocab word templateVocab
    | monostate =>
      cases done
      exact valid

theorem transformTriplesTemplate_valid
    {templates : List (SparqlTripleSimpleWithGraph Word Var)} {transformed : List (IdTriple (IdOrVariableIndex Word numColumns))}
    (valid : ∀ template ∈ templates,ValidComponent manager localVocab template.s ∧ ValidComponent manager localVocab template.p ∧
      ValidComponent manager localVocab template.o)
    (done : transformTriplesTemplate vocab columns defaultGraph templates = .ok (transformed,templateVocab))
    (validRow : ∀ column,ValidId manager localVocab (row column)) :
    ∀ template ∈ transformed,ValidTriple manager localVocab (template.map (lookup row)) := by
  have related : List.Forall₂ (fun template template' => ValidComponent manager localVocab template.s ∧ ValidComponent manager localVocab template.p ∧
      ValidComponent manager localVocab template.o → ValidTriple manager localVocab (IdTriple.map (lookup row) template')) templates transformed := by
    refine mapState_forall₂ ?_ done
    intro template state template' next single isValid
    rw [transformSparqlTripleSimple,bind_eq_ok] at single
    obtain ⟨⟨s,state1⟩,first,single⟩ := single
    rw [bind_eq_ok] at single
    obtain ⟨⟨p,state2⟩,second,single⟩ := single
    rw [bind_eq_ok] at single
    obtain ⟨⟨o,state3⟩,third,single⟩ := single
    rw [bind_eq_ok] at single
    obtain ⟨⟨g,state4⟩,fourth,single⟩ := single
    cases single
    obtain ⟨validS,validP,validO⟩ := isValid
    intro i
    fin_cases i
    · exact transformComponent_valid validS first validRow
    · exact transformComponent_valid validP second validRow
    · exact transformComponent_valid validO third validRow
    · exact transformGraph_valid (wordToValueId_valid vocab defaultGraph {}) fourth validRow
  intro template' member
  obtain ⟨template,isTemplate,single⟩ := exists_left related member
  exact single (valid template isTemplate)

end

end Valid

section Outcome

structure Batches (index : Index Word) (manager : BlankNodeManager index.minIndex) (localVocab : LocalVocab Word) (deleted inserted : Set (IdTriple (IdValue Word)))
    (toInsert toDelete : List (Triple Word)) : Prop where
  insertDistinct : (toInsert.map (tripleValue index.vocab)).Nodup
  deleteDistinct : (toDelete.map (tripleValue index.vocab)).Nodup
  insertValues : ∀ quad,quad ∈ toInsert.map (tripleValue index.vocab) ↔ quad ∈ inserted
  deleteValues : ∀ quad,quad ∈ toDelete.map (tripleValue index.vocab) ↔ quad ∈ deleted ∧ quad ∉ inserted
  insertValid : ∀ triple ∈ toInsert,ValidTriple manager localVocab triple
  deleteValid : ∀ triple ∈ toDelete,ValidTriple manager localVocab triple

variable {localVocab : LocalVocab Word} {toInsert toDelete : List (Triple Word)}

theorem computeGraphUpdateQuads_batches
    (valid : ValidUpdate manager localVocab update result)
    {last : CancellationHandle}
    (done : computeGraphUpdateQuads index defaultGraph update result variableColumns handle = .ok (some (toInsert,toDelete,last))) :
    Batches index manager localVocab (instances index.vocab variableColumns defaultGraph update.toDelete (update.limitOffset.select result.rows))
      (instances index.vocab variableColumns defaultGraph update.toInsert (update.limitOffset.select result.rows)) toInsert toDelete := by
  rw [computeGraphUpdateQuads,bind_eq_ok] at done
  obtain ⟨⟨insertTemplates,insertVocab⟩,transformingInsert,done⟩ := done
  rw [bind_eq_ok] at done
  obtain ⟨⟨deleteTemplates,deleteVocab⟩,transformingDelete,done⟩ := done
  rw [getRowIndices_eq update.limitOffset result.fits] at done
  cases computing : computeQuads insertTemplates deleteTemplates (update.limitOffset.select result.rows) [] [] handle with
  | none =>
    simp only [computing,pure_eq_ok] at done
    cases done
  | some quads =>
    obtain ⟨inserted,deleted,last'⟩ := quads
    simp only [computing,pure_eq_ok,Option.some.injEq,Prod.mk.injEq] at done
    obtain ⟨rfl,rfl,_⟩ := done
    obtain ⟨isInserted,isDeleted⟩ := computeQuads_eq computing
    rw [nil_append] at isInserted isDeleted
    have strictInsert : (sortAndRemoveDuplicates index.vocab inserted).Pairwise (fun s t => tripleValue index.vocab s < tripleValue index.vocab t) :=
      sortAndRemoveDuplicates_strict inserted
    have strictDelete : (sortAndRemoveDuplicates index.vocab deleted).Pairwise (fun s t => tripleValue index.vocab s < tripleValue index.vocab t) :=
      sortAndRemoveDuplicates_strict deleted
    have fewer : (setMinus index.vocab (sortAndRemoveDuplicates index.vocab deleted) (sortAndRemoveDuplicates index.vocab inserted)).Sublist
        (sortAndRemoveDuplicates index.vocab deleted) := setDifference_sublist _ _
    have insertedValues : ∀ quad,quad ∈ (sortAndRemoveDuplicates index.vocab inserted).map (tripleValue index.vocab) ↔
        quad ∈ instances index.vocab variableColumns defaultGraph update.toInsert (update.limitOffset.select result.rows) := by
      intro quad
      rw [mem_sortAndRemoveDuplicates,isInserted]
      exact mem_computed (transformTriplesTemplate_denotes transformingInsert) _ quad
    have deletedValues : ∀ quad,quad ∈ (sortAndRemoveDuplicates index.vocab deleted).map (tripleValue index.vocab) ↔
        quad ∈ instances index.vocab variableColumns defaultGraph update.toDelete (update.limitOffset.select result.rows) := by
      intro quad
      rw [mem_sortAndRemoveDuplicates,isDeleted]
      exact mem_computed (transformTriplesTemplate_denotes transformingDelete) _ quad
    have computedValid : ∀ {templates : List (SparqlTripleSimpleWithGraph Word Var)} {transformed : List (IdTriple (IdOrVariableIndex Word result.numColumns))}
        {templateVocab : LocalVocab Word},templates ⊆ update.toInsert ++ update.toDelete →
        transformTriplesTemplate index.vocab variableColumns defaultGraph templates = .ok (transformed,templateVocab) →
        ∀ triple ∈ (update.limitOffset.select result.rows).flatMap (fun row => transformed.filterMap (computeQuad row)),ValidTriple manager localVocab triple := by
      intro templates transformed templateVocab contained transforming triple member
      obtain ⟨row,isRow,inRow⟩ := mem_flatMap.mp member
      obtain ⟨template,isTemplate,computed⟩ := mem_filterMap.mp inRow
      rw [(computeQuad_eq_some.mp computed).1]
      exact transformTriplesTemplate_valid (fun template isTemplate => valid.constants template (contained isTemplate)) transforming
        (valid.rows row (update.limitOffset.select_subset result.rows isRow)) template isTemplate
    refine ⟨nodup_of_strict strictInsert,nodup_of_strict (strictDelete.sublist fewer),insertedValues,?_,?_,?_⟩
    · intro quad
      rw [setMinus,mem_keys_setDifference less_iff strictDelete strictInsert,insertedValues,deletedValues]
    · intro triple member
      apply computedValid (subset_append_left _ _) transformingInsert
      rw [← isInserted]
      exact subset_sortAndRemoveDuplicates inserted triple member
    · intro triple member
      apply computedValid (subset_append_right _ _) transformingDelete
      rw [← isDeleted]
      exact subset_sortAndRemoveDuplicates deleted triple (fewer.subset member)

theorem Batches.insertSet {deleted inserted : Set (IdTriple (IdValue Word))}
    (batches : Batches index manager localVocab deleted inserted toInsert toDelete) :
    {quad | quad ∈ toInsert.map (tripleValue index.vocab)} = inserted := by
  ext quad
  exact batches.insertValues quad

theorem visible_batches (storable : Storable index d) {indexRows : IndexRows index} {deleted inserted : Set (IdTriple (IdValue Word))}
    {insertedTriples deletedTriples : List (Triple Word)} {d1 : DeltaTriples Word} {state : Conversion Word}
    (batches : Batches index manager d.localVocab deleted inserted toInsert toDelete)
    (deleting : Rewritten manager d.localVocab toDelete deletedTriples state) (deletedKeys : KeysUpdated index false deletedTriples d d1)
    (insertedKeys : KeysUpdated index true insertedTriples d1 d') {rename : Nat → Nat} (names : NewNames index d.localVocab inserted rename)
    (renamed : {quad | quad ∈ insertedTriples.map (tripleValue index.vocab)} = (fun quad => quad.map (renameValue rename)) '' inserted) :
    visible indexRows d' = (visible indexRows d \ deleted) ∪ (fun quad => quad.map (renameValue rename)) '' inserted := by
  rw [visible_updated deletedKeys insertedKeys,renamed]
  ext quad
  simp only [Set.mem_union,Set.mem_sdiff,Set.mem_ofPred_eq]
  by_cases isVisible : quad ∈ visible indexRows d
  · have known : ∀ blankNode,OccursIn index.vocab quad blankNode → KnownBlankNode index.minIndex d.localVocab blankNode :=
      fun blankNode occurs => visible_known storable isVisible occurs
    have isDeleted := (known_mem_rewritten deleting known).trans (batches.deleteValues quad)
    by_cases isInserted : quad ∈ inserted
    · -- The quad is not deleted, but it is inserted with the same blank nodes.
      have same := names.same isInserted known ((batches.insertValues quad).mpr isInserted)
      have again : quad ∈ (fun quad => IdTriple.map (renameValue rename) quad) '' inserted := ⟨quad,isInserted,same⟩
      exact iff_of_true (Or.inr again) (Or.inr again)
    · have deletedFirst : quad ∈ deletedTriples.map (tripleValue index.vocab) ↔ quad ∈ deleted :=
        isDeleted.trans (and_iff_left isInserted)
      rw [deletedFirst]
  · simp only [isVisible,false_and]

theorem ValidTriple.mono {localVocab' : LocalVocab Word} {triple : Triple Word} (valid : ValidTriple manager localVocab triple)
    (kept : ∀ blankNode,localVocab.isBlankNodeIndexContained blankNode = true → localVocab'.isBlankNodeIndexContained blankNode = true) :
    ValidTriple manager localVocab' triple := by
  intro i
  have single := valid i
  cases id : triple.ids i with
  | blankNodeIndex blankNode =>
    rw [id] at single
    rcases single with isIndex | contained | foreign
    · exact Or.inl isIndex
    · exact Or.inr (Or.inl (kept blankNode contained))
    · exact Or.inr (Or.inr foreign)
  | _ => trivial

/-- The visible quads after an update. The blank nodes of the inserted quads that belong neither to the index nor to the updates are renamed. -/
theorem executeUpdate_visible (reachable : Reachable index d) (indexRows : IndexRows index) (valid : ValidUpdate manager d.localVocab update result)
    (done : executeUpdate index manager defaultGraph update result variableColumns handle insertHandle d = .ok (.finished d')) :
    let rows := update.limitOffset.select result.rows
    let deleted := instances index.vocab variableColumns defaultGraph update.toDelete rows
    let inserted := instances index.vocab variableColumns defaultGraph update.toInsert rows
    (∃ rename,NewNames index d.localVocab inserted rename ∧
      visible indexRows d' = (visible indexRows d \ deleted) ∪ (fun quad => quad.map (renameValue rename)) '' inserted) ∧
    ((∀ quad ∈ inserted,∀ blankNode,OccursIn index.vocab quad blankNode → KnownBlankNode index.minIndex d.localVocab blankNode) →
      visible indexRows d' = (visible indexRows d \ deleted) ∪ inserted) := by
  intro rows deleted inserted
  have storable := reachable.storable
  rw [executeUpdate,bind_eq_ok] at done
  obtain ⟨computed,computing,done⟩ := done
  cases computed with
  | none => cases done
  | some quads =>
    obtain ⟨toInsert,toDelete,handle'⟩ := quads
    have batches : Batches index manager d.localVocab deleted inserted toInsert toDelete := computeGraphUpdateQuads_batches valid computing
    rw [bind_eq_ok] at done
    obtain ⟨afterDelete,deleting,done⟩ := done
    cases afterDelete with
    | cancelled d1 => cases done
    | finished d1 =>
      obtain ⟨deletedTriples,state,rewrittenDelete,vocab1,deletedKeys,storable1⟩ :=
        storable.keysUpdated ⟨batches.deleteDistinct,valid.disjoint,batches.deleteValid⟩ deleting
      have kept : ∀ blankNode,d.localVocab.isBlankNodeIndexContained blankNode = true → d1.localVocab.isBlankNodeIndexContained blankNode = true := by
        rw [vocab1]
        exact rewrittenDelete.converting.kept
      have disjoint1 : Disjoint d1.localVocab.usedBlocks manager.othersBlocks := by
        rw [vocab1]
        exact rewrittenDelete.converting.disjoint
      obtain ⟨insertedTriples,state',rewrittenInsert,_,insertedKeys,_⟩ :=
        storable1.keysUpdated ⟨batches.insertDistinct,disjoint1,fun triple member => ValidTriple.mono (batches.insertValid triple member) kept⟩ done
      obtain ⟨rename,names,renamed⟩ := Rewritten.newNames rewrittenInsert kept batches.insertValid
      rw [batches.insertSet] at names renamed
      have outcome : visible indexRows d' = (visible indexRows d \ deleted) ∪ (fun quad => quad.map (renameValue rename)) '' inserted :=
        visible_batches storable batches rewrittenDelete deletedKeys insertedKeys names renamed
      refine ⟨⟨rename,names,outcome⟩,?_⟩
      intro known
      have same : (fun quad => IdTriple.map (renameValue rename) quad) '' inserted = inserted := by
        rw [Set.image_congr (fun quad member => names.same member (known quad member) ((batches.insertValues quad).mpr member)),Set.image_id']
      rw [outcome,same]

def noRows : IndexRows emptyIndex := ⟨∅,fun _ member => absurd member (Set.notMem_empty _)⟩

local instance twoPositive : NeZero 2 := ⟨by decide⟩

/-- Insert `?0 <3> ?1` and delete `?1 <3> ?0`. -/
def swapUpdate : GraphUpdate Nat (Fin 2) where
  toInsert := [⟨.var 0,.literalOrIri 3,.var 1,.monostate⟩]
  toDelete := [⟨.var 1,.literalOrIri 3,.var 0,.iri 9⟩]

def singleRow (id : ValueId Nat) : IdTable Nat := ⟨2,[![id,.encoded .Int 4],![id,.encoded .Undefined 0]],by simp⟩

def executeSwap (id : ValueId Nat) : Except Failure (UpdateResult Nat) :=
  executeUpdate emptyIndex (.counting 5 {0}) 9 swapUpdate (singleRow id) some ⟨none⟩ ⟨none⟩ (ofIndex emptyIndex)

variable {id : ValueId Nat}

theorem swapUpdate_valid (valid : ValidId (BlankNodeManager.counting 5 {0}) {} id) :
    ValidUpdate (BlankNodeManager.counting 5 {0}) (ofIndex emptyIndex).localVocab swapUpdate (singleRow id) := by
  refine ⟨Finset.disjoint_empty_left _,?_,?_⟩
  · intro row member column
    change row ∈ [![id,.encoded .Int 4],![id,.encoded .Undefined 0]] at member
    rcases mem_pair.mp member with rfl | rfl
    all_goals
      fin_cases column
      · exact valid
      · trivial
  · intro template member
    change template ∈ [⟨.var 0,.literalOrIri 3,.var 1,.monostate⟩,⟨.var 1,.literalOrIri 3,.var 0,.iri 9⟩] at member
    rcases mem_pair.mp member with rfl | rfl
    · exact ⟨trivial,trivial,trivial⟩
    · exact ⟨trivial,trivial,trivial⟩

section
omit [LinearOrder Word]

def finished? : Except Failure (UpdateResult Word) → Option (DeltaTriples Word)
  | .ok (.finished d) => some d
  | _ => none

theorem eq_of_finished {result : Except Failure (UpdateResult Word)} (isSome : (finished? result).isSome = true) :
    ∃ d,result = .ok (.finished d) ∧ finished? result = some d := by
  unfold finished? at *
  split at isSome
  · exact ⟨_,rfl,rfl⟩
  · cases isSome

end

/-- The value of the quad `id <3> 4` in the default graph `<9>`. -/
def swapQuad (id : ValueId Nat) : IdTriple (IdValue Nat) :=
  tripleValue emptyIndex.vocab ⟨id,.localVocabIndex 0 3,.encoded .Int 4,.localVocabIndex 0 9⟩

theorem mem_swapInstances (defined : id.value emptyIndex.vocab ≠ undefinedValue emptyIndex.vocab) (quad : IdTriple (IdValue Nat)) :
    quad ∈ instances emptyIndex.vocab some 9 swapUpdate.toInsert (swapUpdate.limitOffset.select (singleRow id).rows) ↔ quad = swapQuad id := by
  have wordDefined : ∀ word : Nat,(ValueId.localVocabIndex 0 word).value emptyIndex.vocab ≠ undefinedValue emptyIndex.vocab := by
    intro word same
    cases ((isUndefined_iff (.localVocabIndex 0 word)).mpr same : false = true)
  have intDefined : (ValueId.encoded .Int 4).value emptyIndex.vocab ≠ undefinedValue emptyIndex.vocab := by decide
  constructor
  · intro member
    obtain ⟨⟨row,isRow,template,isTemplate,denotes⟩,all⟩ := member
    change row ∈ [![id,.encoded .Int 4],![id,.encoded .Undefined 0]] at isRow
    obtain rfl := mem_singleton.mp isTemplate
    obtain ⟨⟨_,column0,s⟩,p,⟨_,column1,o⟩,g⟩ := denotes
    cases column0
    cases column1
    rcases mem_pair.mp isRow with rfl | rfl
    · exact IdTriple.ext s p o g
    · exact absurd o (all 2)
  · intro same
    subst same
    refine ⟨⟨![id,.encoded .Int 4],mem_cons_self,_,mem_singleton.mpr rfl,⟨0,rfl,rfl⟩,rfl,⟨1,rfl,rfl⟩,rfl⟩,?_⟩
    intro i
    fin_cases i
    · exact defined
    · exact wordDefined 3
    · exact intDefined
    · exact wordDefined 9

theorem executeUpdate_visible_int : ∃ d',executeSwap (.encoded .Int 8) = .ok (.finished d') ∧ swapQuad (.encoded .Int 8) ∈ visible noRows d' ∧
    visible noRows d' = (visible noRows (ofIndex emptyIndex) \
        instances emptyIndex.vocab some 9 swapUpdate.toDelete (swapUpdate.limitOffset.select (singleRow (.encoded .Int 8)).rows)) ∪
      instances emptyIndex.vocab some 9 swapUpdate.toInsert (swapUpdate.limitOffset.select (singleRow (.encoded .Int 8)).rows) := by
  have succeeds : (finished? (executeSwap (.encoded .Int 8))).isSome = true := by decide +kernel
  obtain ⟨d',done,_⟩ := eq_of_finished succeeds
  have noBlankNodes : ∀ quad ∈ instances emptyIndex.vocab some 9 swapUpdate.toInsert (swapUpdate.limitOffset.select (singleRow (.encoded .Int 8)).rows),
      ∀ blankNode,OccursIn emptyIndex.vocab quad blankNode → KnownBlankNode emptyIndex.minIndex (ofIndex emptyIndex).localVocab blankNode := by
    intro quad member blankNode occurs
    rw [mem_swapInstances (by decide)] at member
    obtain ⟨i,isBlank⟩ := occurs
    rw [member,swapQuad,tripleValue,ids_map] at isBlank
    have isBlankNode := ValueId.value_blankNode isBlank
    fin_cases i <;> cases isBlankNode
  have valid : ValidId (BlankNodeManager.counting 5 {0}) {} (.encoded .Int 8 : ValueId Nat) := trivial
  have outcome := (executeUpdate_visible Reachable.start noRows (swapUpdate_valid valid) done).2 noBlankNodes
  refine ⟨d',done,?_,outcome⟩
  rw [outcome]
  exact Or.inr ((mem_swapInstances (by decide) _).mpr rfl)

/-- The blank node 7 belongs to another local vocabulary, and the quad with it gets a new blank node. -/
theorem not_executeUpdate_visible : ∃ d',executeSwap (.blankNodeIndex 7) = .ok (.finished d') ∧
    visible noRows d' ≠ (visible noRows (ofIndex emptyIndex) \
        instances emptyIndex.vocab some 9 swapUpdate.toDelete (swapUpdate.limitOffset.select (singleRow (.blankNodeIndex 7)).rows)) ∪
      instances emptyIndex.vocab some 9 swapUpdate.toInsert (swapUpdate.limitOffset.select (singleRow (.blankNodeIndex 7)).rows) := by
  have succeeds : (finished? (executeSwap (.blankNodeIndex 7))).isSome = true := by decide +kernel
  have renamed : (finished? (executeSwap (.blankNodeIndex 7))).any (fun d' =>
      swapQuad (.blankNodeIndex 7) ∈ TriplesToHandlesMap.keys emptyIndex.vocab d'.triplesInserted) = false := by decide +kernel
  obtain ⟨d',done,isResult⟩ := eq_of_finished succeeds
  refine ⟨d',done,?_⟩
  intro same
  have isVisible : swapQuad (.blankNodeIndex 7) ∈ visible noRows d' := by
    rw [same]
    exact Or.inr ((mem_swapInstances (by decide) _).mpr rfl)
  rcases isVisible with inIndex | inserted
  · exact absurd inIndex.1 (Set.notMem_empty _)
  · rw [isResult,Option.any_some,decide_eq_false_iff_not] at renamed
    exact renamed inserted

end Outcome
end ExecuteUpdate
end Qlever
