import Qlever.QueryPlannerRounds

/-! The seeds of one round of optimization. The equality filters of an index scan only have variables that the scan
covers, and a node bit tells from which triple or from which earlier plans a seed was made.
-/
namespace Qlever
open List
open Option (bind_eq_bind bind_eq_some_iff)
namespace QueryPlanner
variable {T : Type} {activeGraphVariable : Option Variable}

structure IsScan (triple : SparqlTriple T) (filters : List (SparqlFilter T)) (scan : QueryExecutionTree T) : Prop where
  notSpatial : scan.isSpatial = false
  complete : scan.IsComplete
  columns : ∀ name ∈ triple.variableNames,name ∈ scan.variableColumns
  equalities : ∀ filter ∈ scan.equalities,filter ∈ filters ∧ ∀ name ∈ filter.containedVariables,name ∈ scan.variableColumns

def IsEqual (filter : SparqlFilter T) : Prop := ∃ var1 var2,filter = .equal var1 var2

theorem IsScan.mono {triple : SparqlTriple T} {filters others : List (SparqlFilter T)} {scan : QueryExecutionTree T} (isScan : IsScan triple filters scan)
    (subset : ∀ filter ∈ filters,filter ∈ others) : IsScan triple others scan where
  notSpatial := isScan.notSpatial
  complete := isScan.complete
  columns := isScan.columns
  equalities filter member := ⟨subset filter (isScan.equalities filter member).1,(isScan.equalities filter member).2⟩

section Scans
variable {triple scanTriple : SparqlTriple T} {equalities : List (SparqlFilter T)} {seeds next : Seeds T}

structure Scans (triple : SparqlTriple T) (seeds next : Seeds T) : Prop where
  scans : ∀ scan ∈ next.scans,scan ∈ seeds.scans ∨ IsScan triple next.filters scan
  old : ∀ scan ∈ seeds.scans,scan ∈ next.scans
  filters : ∃ generated,next.filters = seeds.filters ++ generated ∧ ∀ filter ∈ generated,IsEqual filter

theorem Scans.refl (triple : SparqlTriple T) (seeds : Seeds T) : Scans triple seeds seeds where
  scans _ member := Or.inl member
  old _ member := member
  filters := ⟨[],by simp,by simp⟩

theorem Scans.trans {middle : Seeds T} (first : Scans triple seeds middle) (second : Scans triple middle next) : Scans triple seeds next := by
  obtain ⟨generated,isGenerated,areEqual⟩ := first.filters
  obtain ⟨generated',isGenerated',areEqual'⟩ := second.filters
  constructor
  · intro scan member
    rcases second.scans scan member with isOld | isScan
    · rcases first.scans scan isOld with isOld | isScan
      · exact Or.inl isOld
      · refine Or.inr (isScan.mono ?_)
        intro filter isFilter
        rw [isGenerated']
        exact mem_append_left _ isFilter
    · exact Or.inr isScan
  · exact fun scan member => second.old scan (first.old scan member)
  · refine ⟨generated ++ generated',by rw [isGenerated',isGenerated,append_assoc],?_⟩
    intro filter member
    exact (mem_append.mp member).elim (areEqual filter) (areEqual' filter)

/-- The triple of the scan has the variables of the original one, and those of the equality filters. -/
structure IsRewritten (triple scanTriple : SparqlTriple T) (equalities : List (SparqlFilter T)) : Prop where
  columns : ∀ name ∈ triple.variableNames,name ∈ scanTriple.variableNames
  equalities : ∀ filter ∈ equalities,IsEqual filter ∧ ∀ name ∈ filter.containedVariables,name ∈ scanTriple.variableNames

theorem addIndexScan_scans (activeGraphVariable : Option Variable) (isRewritten : IsRewritten triple scanTriple equalities)
    (generated : ∀ filter ∈ equalities,filter ∈ seeds.filters) (permutation : Permutation) :
    Scans triple seeds (addIndexScan activeGraphVariable scanTriple equalities seeds permutation) ∧
      (addIndexScan activeGraphVariable scanTriple equalities seeds permutation).scans ≠ [] := by
  -- The scan without the equality for the graph variable.
  have plain : ∀ column : Option Variable,IsScan triple seeds.filters
      (.indexScan permutation {scanTriple with additionalScanColumn := column} equalities) := by
    intro column
    refine ⟨rfl,trivial,fun name member => mem_append_left _ (isRewritten.columns name member),?_⟩
    intro filter member
    exact ⟨generated filter member,fun name isName => mem_append_left _ ((isRewritten.equalities filter member).2 name isName)⟩
  have added : ∀ scan,IsScan triple seeds.filters scan → Scans triple seeds {seeds with scans := seeds.scans ++ [scan]} := by
    intro scan isScan
    refine ⟨?_,fun other member => mem_append_left _ member,⟨[],by simp,by simp⟩⟩
    intro other member
    rcases mem_append.mp member with isOld | isNew
    · exact Or.inl isOld
    · rw [mem_singleton.mp isNew]
      exact Or.inr isScan
  unfold addIndexScan
  cases activeGraphVariable with
  | none => exact ⟨added _ (plain none),by simp⟩
  | some graphVariable =>
    dsimp only
    split
    next isVariable =>
      refine ⟨⟨?_,fun other member => mem_append_left _ member,⟨_,rfl,?_⟩⟩,by simp⟩
      · intro other member
        rcases mem_append.mp member with isOld | isNew
        · exact Or.inl isOld
        · rw [mem_singleton.mp isNew]
          refine Or.inr ⟨rfl,trivial,fun name isName => mem_append_left _ (isRewritten.columns name isName),?_⟩
          intro filter isFilter
          rcases mem_append.mp isFilter with isOld | isEquality
          · exact ⟨mem_append_left _ (generated filter isOld),
              fun name isName => mem_append_left _ ((isRewritten.equalities filter isOld).2 name isName)⟩
          · refine ⟨mem_append_right _ isEquality,?_⟩
            rw [mem_singleton.mp isEquality]
            intro name isName
            simp only [SparqlFilter.containedVariables,mem_cons,not_mem_nil,or_false] at isName
            rcases isName with rfl | rfl
            · exact mem_append_left _ isVariable
            · exact mem_append_right _ (by simp)
      · intro filter isFilter
        rw [mem_singleton.mp isFilter]
        exact ⟨_,_,rfl⟩
    next => exact ⟨added _ (plain (some graphVariable)),by simp⟩

theorem addIndexScans_scans (activeGraphVariable : Option Variable) (seeds : Seeds T) (isRewritten : IsRewritten triple scanTriple equalities)
    (generated : ∀ filter ∈ equalities,filter ∈ seeds.filters) (permutations : List Permutation) :
    Scans triple seeds (permutations.foldl (addIndexScan activeGraphVariable scanTriple equalities) seeds) ∧
      (permutations ≠ [] → (permutations.foldl (addIndexScan activeGraphVariable scanTriple equalities) seeds).scans ≠ []) := by
  induction permutations generalizing seeds with
  | nil => exact ⟨.refl triple seeds,fun nonempty => absurd rfl nonempty⟩
  | cons permutation permutations ih =>
    rw [foldl_cons]
    obtain ⟨first,nonempty⟩ := addIndexScan_scans activeGraphVariable isRewritten generated permutation
    obtain ⟨more,isMore,_⟩ := first.filters
    have stillGenerated : ∀ filter ∈ equalities,filter ∈ (addIndexScan activeGraphVariable scanTriple equalities seeds permutation).filters := by
      intro filter member
      rw [isMore]
      exact mem_append_left _ (generated filter member)
    obtain ⟨rest,_⟩ := ih _ stillGenerated
    refine ⟨first.trans rest,fun _ => ?_⟩
    obtain ⟨scan,isScan⟩ := exists_mem_of_ne_nil _ nonempty
    exact ne_nil_of_mem (rest.old scan isScan)

theorem IsRewritten.refl (triple : SparqlTriple T) : IsRewritten triple triple [] := ⟨fun _ member => member,by simp⟩

theorem handleRepeatedVariables_scans {permutations : List Permutation} (hasPermutation : permutations ≠ []) {positions : List TriplePosition}
    (areRewritten : ∀ scanTriple equalities internalVarCount,positions.foldlM (fun (triple,equalities,internalVarCount) position => do
        let (triple,equality,internalVarCount) ← rewriteSingle triple internalVarCount position
        return (triple,equalities ++ [equality],internalVarCount)) (triple,[],seeds.internalVarCount) = some (scanTriple,equalities,internalVarCount) →
      IsRewritten triple scanTriple equalities)
    (done : handleRepeatedVariables activeGraphVariable triple seeds permutations positions = some next) :
    Scans triple seeds next ∧ next.scans ≠ [] := by
  unfold handleRepeatedVariables at done
  rw [bind_eq_bind,bind_eq_some_iff] at done
  obtain ⟨⟨scanTriple,equalities,internalVarCount⟩,rewritten,done⟩ := done
  cases done
  have isRewritten := areRewritten scanTriple equalities internalVarCount rewritten
  have started : Scans triple seeds {seeds with filters := seeds.filters ++ equalities,internalVarCount := internalVarCount} :=
    ⟨fun scan member => Or.inl member,fun scan member => member,⟨equalities,rfl,fun filter member => (isRewritten.equalities filter member).1⟩⟩
  have generated : ∀ filter ∈ equalities,filter ∈ seeds.filters ++ equalities := fun filter member => mem_append_right _ member
  obtain ⟨scans,nonempty⟩ := addIndexScans_scans activeGraphVariable {seeds with filters := seeds.filters ++ equalities,internalVarCount := internalVarCount}
    isRewritten generated permutations
  exact ⟨started.trans scans,nonempty hasPermutation⟩

theorem variableNames_var (name : Variable) : (TripleComponent.var name : TripleComponent T).variableNames = [name] := rfl

variable {equality : SparqlFilter T}

theorem rewriteSingle_s {count count' : Nat}
    (isRepeated : ∀ name ∈ triple.s.variableNames,name ∈ triple.p.variableNames ∨ name ∈ triple.o.variableNames)
    (rewritten : rewriteSingle triple count .s = some (scanTriple,equality,count')) : IsRewritten triple scanTriple [equality] := by
  obtain ⟨s,p,o⟩ := triple
  cases s with
  | term s => cases rewritten
  | var s =>
    cases rewritten
    have elsewhere := isRepeated s (mem_singleton_self s)
    simp only at elsewhere
    constructor
    · intro name member
      simp only [SparqlTriple.variableNames,variableNames_var,mem_append,mem_singleton] at member ⊢
      grind
    · intro filter member
      rw [mem_singleton.mp member]
      refine ⟨⟨_,_,rfl⟩,?_⟩
      simp only [SparqlFilter.containedVariables,SparqlTriple.variableNames,variableNames_var,mem_cons,not_mem_nil,or_false,
        mem_append]
      grind

theorem rewriteSingle_o {count count' : Nat}
    (isRepeated : ∀ name ∈ triple.o.variableNames,name ∈ triple.s.variableNames ∨ name ∈ triple.p.variableNames)
    (rewritten : rewriteSingle triple count .o = some (scanTriple,equality,count')) : IsRewritten triple scanTriple [equality] := by
  obtain ⟨s,p,o⟩ := triple
  cases o with
  | term o => cases rewritten
  | var o =>
    cases rewritten
    have elsewhere := isRepeated o (mem_singleton_self o)
    simp only at elsewhere
    constructor
    · intro name member
      simp only [SparqlTriple.variableNames,variableNames_var,mem_append,mem_singleton] at member ⊢
      grind
    · intro filter member
      rw [mem_singleton.mp member]
      refine ⟨⟨_,_,rfl⟩,?_⟩
      simp only [SparqlFilter.containedVariables,SparqlTriple.variableNames,variableNames_var,mem_cons,not_mem_nil,or_false,
        mem_append]
      grind

theorem seedFromOrdinaryTriple_scans (done : seedFromOrdinaryTriple activeGraphVariable seeds triple = some next) :
    Scans triple seeds next ∧ next.scans ≠ [] := by
  have plain : ∀ permutations ≠ [],Scans triple seeds (permutations.foldl (addIndexScan activeGraphVariable triple []) seeds) ∧
      (permutations.foldl (addIndexScan activeGraphVariable triple []) seeds).scans ≠ [] := by
    intro permutations hasPermutation
    obtain ⟨scans,nonempty⟩ := addIndexScans_scans activeGraphVariable seeds (.refl triple) (by simp) permutations
    exact ⟨scans,nonempty hasPermutation⟩
  have single : ∀ position,(∀ scanTriple equality internalVarCount,
      rewriteSingle triple seeds.internalVarCount position = some (scanTriple,equality,internalVarCount) → IsRewritten triple scanTriple [equality]) →
      ∀ permutations ≠ [],handleRepeatedVariables activeGraphVariable triple seeds permutations [position] = some next →
        Scans triple seeds next ∧ next.scans ≠ [] := by
    intro position rewrites permutations hasPermutation repeated
    refine handleRepeatedVariables_scans hasPermutation ?_ repeated
    intro scanTriple equalities internalVarCount rewritten
    simp only [foldlM_cons,foldlM_nil,bind_eq_bind,bind_eq_some_iff] at rewritten
    obtain ⟨_,⟨⟨scanTriple',equality,count⟩,isRewritten,same⟩,rewritten⟩ := rewritten
    cases same
    cases rewritten
    exact rewrites scanTriple' equality count isRewritten
  obtain ⟨s,p,o⟩ := triple
  unfold seedFromOrdinaryTriple at done
  cases s with
  | term s =>
    cases p with
    | term p =>
      cases o with
      | term o | var o =>
        cases done
        exact plain _ (cons_ne_nil _ _)
    | var p =>
      cases o with
      | term o =>
        cases done
        exact plain _ (cons_ne_nil _ _)
      | var o =>
        simp only at done
        split at done
        next same =>
          refine single .o (fun _ _ _ => rewriteSingle_o ?_) _ (cons_ne_nil _ _) done
          simp [TripleComponent.variableNames,same]
        next =>
          cases done
          exact plain _ (cons_ne_nil _ _)
  | var s =>
    cases p with
    | term p =>
      cases o with
      | term o =>
        cases done
        exact plain _ (cons_ne_nil _ _)
      | var o =>
        simp only at done
        split at done
        next same =>
          refine single .o (fun _ _ _ => rewriteSingle_o ?_) _ (cons_ne_nil _ _) done
          simp [TripleComponent.variableNames,same]
        next =>
          cases done
          exact plain _ (cons_ne_nil _ _)
    | var p =>
      cases o with
      | term o =>
        simp only at done
        split at done
        next same =>
          refine single .s (fun _ _ _ => rewriteSingle_s ?_) _ (cons_ne_nil _ _) done
          simp [TripleComponent.variableNames,same]
        next =>
          cases done
          exact plain _ (cons_ne_nil _ _)
      | var o =>
        simp only at done
        split at done
        next sameO =>
          split at done
          next sameP =>
            refine handleRepeatedVariables_scans (cons_ne_nil _ _) ?_ done
            intro scanTriple equalities internalVarCount rewritten
            cases rewritten
            exact ⟨by simp [SparqlTriple.variableNames,TripleComponent.variableNames,sameO,← sameP],
              by simp [SparqlTriple.variableNames,TripleComponent.variableNames,SparqlFilter.containedVariables,IsEqual,sameO,← sameP]⟩
          next =>
            refine single .s (fun _ _ _ => rewriteSingle_s ?_) _ (cons_ne_nil _ _) done
            simp [TripleComponent.variableNames,sameO]
        next =>
          split at done
          next sameP =>
            refine single .s (fun _ _ _ => rewriteSingle_s ?_) _ (cons_ne_nil _ _) done
            simp [TripleComponent.variableNames,sameP]
          next =>
            split at done
            next same =>
              refine single .o (fun _ _ _ => rewriteSingle_o ?_) _ (cons_ne_nil _ _) done
              simp [TripleComponent.variableNames,same]
            next =>
              cases done
              exact plain _ (cons_ne_nil _ _)

end Scans

section Round

structure IsScanSeed (triples : List (SparqlTriple T × Nat)) (filters : List (SparqlFilter T)) (seed : SubtreePlan T) : Prop where
  scan : ∃ triple i,(triple,i) ∈ triples ∧ seed.idsOfIncludedNodes = {i} ∧ IsScan triple filters seed.qet
  type : seed.type = .BASIC
  bits : seed.idsOfIncludedFilters = ∅

variable {triples : List (SparqlTriple T × Nat)}

theorem IsScanSeed.mono {others : List (SparqlTriple T × Nat)} {filters filters' : List (SparqlFilter T)} {seed : SubtreePlan T}
    (isScanSeed : IsScanSeed triples filters seed) (moreTriples : ∀ triple ∈ triples,triple ∈ others)
    (moreFilters : ∀ filter ∈ filters,filter ∈ filters') : IsScanSeed others filters' seed where
  scan := by
    obtain ⟨triple,i,member,isNode,isScan⟩ := isScanSeed.scan
    exact ⟨triple,i,moreTriples _ member,isNode,isScan.mono moreFilters⟩
  type := isScanSeed.type
  bits := isScanSeed.bits

theorem seedTriples_spec {plans initialPlans : List (SubtreePlan T)} {seeds next : Seeds T}
    (done : seedTriples activeGraphVariable triples plans seeds = some (initialPlans,next)) :
    (∀ plan ∈ initialPlans,plan ∈ plans ∨ IsScanSeed triples next.filters plan) ∧ (∀ plan ∈ plans,plan ∈ initialPlans) ∧
      (∀ triple i,(triple,i) ∈ triples → ∃ plan ∈ initialPlans,plan.idsOfIncludedNodes = {i}) ∧
      ∃ generated,next.filters = seeds.filters ++ generated ∧ ∀ filter ∈ generated,IsEqual filter := by
  induction triples generalizing plans seeds with
  | nil =>
    cases done
    exact ⟨fun plan member => Or.inl member,fun plan member => member,by simp,[],by simp,by simp⟩
  | cons entry triples ih =>
    obtain ⟨triple,i⟩ := entry
    rw [seedTriples,bind_eq_bind,bind_eq_some_iff] at done
    obtain ⟨middle,seeded,done⟩ := done
    obtain ⟨scans,nonempty⟩ := seedFromOrdinaryTriple_scans seeded
    obtain ⟨fromPlans,kept,covers,generated,isGenerated,areEqual⟩ := ih done
    obtain ⟨first,isFirst,areFirstEqual⟩ := scans.filters
    refine ⟨?_,fun plan member => kept plan (mem_append_left _ member),?_,first ++ generated,by rw [isGenerated,isFirst,append_assoc],?_⟩
    · intro plan member
      rcases fromPlans plan member with isOld | isScanSeed
      · rcases mem_append.mp isOld with isOld | isNew
        · exact Or.inl isOld
        · obtain ⟨scan,isScan,rfl⟩ := List.mem_map.mp isNew
          have isNewScan := (scans.scans scan isScan).resolve_left not_mem_nil
          refine Or.inr ⟨⟨triple,i,mem_cons_self,rfl,isNewScan.mono ?_⟩,rfl,rfl⟩
          intro filter isFilter
          rw [isGenerated]
          exact mem_append_left _ isFilter
      · exact Or.inr (isScanSeed.mono (fun other member => mem_cons_of_mem _ member) (fun filter isFilter => isFilter))
    · intro other j member
      rcases mem_cons.mp member with same | later
      · cases same
        obtain ⟨scan,isScan⟩ := exists_mem_of_ne_nil _ nonempty
        exact ⟨{qet := scan,idsOfIncludedNodes := {i}},kept _ (mem_append_right _ (mem_map_of_mem isScan)),rfl⟩
      · exact covers other j later
    · intro filter member
      exact (mem_append.mp member).elim (areFirstEqual filter) (areEqual filter)

def SubtreePlan.withNode (plan : SubtreePlan T) (id : Nat) : SubtreePlan T := {plan with idsOfIncludedNodes := {id}}

/-- A seed for a plan of another part of the group. Filter bits are only allowed if a part of this group was planned before. -/
structure IsChildSeed (children : List (List (SubtreePlan T))) (idShift : Nat) (seed : SubtreePlan T) : Prop where
  child : ∃ k row plan,children[k]? = some row ∧ plan ∈ row ∧ seed = SubtreePlan.withNode plan (idShift + k)
  bits : seed.idsOfIncludedFilters = ∅ ∨ seed.qet.isBindOptionalJoinOrMinus = true

variable {children : List (List (SubtreePlan T))}

theorem seedChildPlans_spec {idShift : Nat} {seeds : List (SubtreePlan T)}
    (done : seedChildPlans idShift children = some seeds) :
    (∀ seed ∈ seeds,IsChildSeed children idShift seed) ∧
      ∀ k row,children[k]? = some row → ∀ plan ∈ row,SubtreePlan.withNode plan (idShift + k) ∈ seeds := by
  induction children generalizing idShift seeds with
  | nil =>
    cases done
    exact ⟨by simp,by simp⟩
  | cons plans children ih =>
    unfold seedChildPlans at done
    split at done
    next => cases done
    next =>
      split at done
      next allowed =>
        rw [bind_eq_bind,bind_eq_some_iff] at done
        obtain ⟨others,isOthers,done⟩ := done
        cases done
        obtain ⟨fromChildren,areSeeds⟩ := ih isOthers
        constructor
        · intro seed member
          rcases mem_append.mp member with isFirst | isLater
          · obtain ⟨plan,isPlan,rfl⟩ := List.mem_map.mp isFirst
            refine ⟨⟨0,plans,plan,rfl,isPlan,rfl⟩,?_⟩
            have isAllowed := all_eq_true.mp allowed plan isPlan
            simpa using isAllowed
          · obtain ⟨⟨k,row,plan,isRow,isPlan,isSeed⟩,bits⟩ := fromChildren seed isLater
            exact ⟨⟨k + 1,row,plan,isRow,isPlan,by rw [isSeed,Nat.add_right_comm,Nat.add_assoc]⟩,bits⟩
        · intro k row isRow plan isPlan
          cases k with
          | zero =>
            cases isRow
            exact mem_append_left _ (mem_map_of_mem isPlan)
          | succ k =>
            refine mem_append_right _ ?_
            have isSeed := areSeeds k row isRow plan isPlan
            rw [Nat.add_right_comm,Nat.add_assoc] at isSeed
            exact isSeed
      next => cases done

structure IsSeeding (triples : List (SparqlTriple T)) (children : List (List (SubtreePlan T))) (generated : List (SparqlFilter T))
    (initialPlans : List (SubtreePlan T)) : Prop where
  seeds : ∀ seed ∈ initialPlans,IsScanSeed triples.zipIdx generated seed ∨ IsChildSeed children triples.length seed
  hasScan : ∀ i triple,triples[i]? = some triple → ∃ seed ∈ initialPlans,seed.idsOfIncludedNodes = {i}
  hasChild : ∀ k row,children[k]? = some row → ∀ plan ∈ row,SubtreePlan.withNode plan (triples.length + k) ∈ initialPlans
  areEqual : ∀ filter ∈ generated,IsEqual filter

theorem seedWithScansAndText_spec {triples : List (SparqlTriple T)} {internalVarCount : Nat}
    {initialPlans : List (SubtreePlan T)} {seeds : Seeds T}
    (done : seedWithScansAndText activeGraphVariable triples children internalVarCount = some (initialPlans,seeds)) :
    IsSeeding triples children seeds.filters initialPlans := by
  rw [seedWithScansAndText,bind_eq_bind,bind_eq_some_iff] at done
  obtain ⟨childSeeds,isChildSeeds,done⟩ := done
  obtain ⟨fromChildren,areSeeds⟩ := seedChildPlans_spec isChildSeeds
  obtain ⟨fromPlans,kept,covers,generated,isGenerated,areEqual⟩ := seedTriples_spec done
  rw [nil_append] at isGenerated
  constructor
  · intro seed member
    rcases fromPlans seed member with isChild | isScanSeed
    · exact Or.inr (fromChildren seed isChild)
    · exact Or.inl isScanSeed
  · intro i triple isTriple
    exact covers triple i (mem_zipIdx_iff_getElem?.mpr isTriple)
  · intro k row isRow plan isPlan
    exact kept _ (areSeeds k row isRow plan isPlan)
  · rw [isGenerated]
    exact areEqual

end Round
end QueryPlanner
end Qlever
