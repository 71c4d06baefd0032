import Qlever.Library.BinarySearch
import Qlever.Library.Loop
import Qlever.PropertyPath

/-! The depth-first search behind a transitive path. A node is marked when it is first reached by enough steps, and a node that is marked is skipped
from then on.
-/
namespace Qlever.TransitivePath
open Qlever Qlever.Library Qlever.QueryPlanner
open Finset (mem_insert notMem_empty mem_insert_self)
variable {Id : Type} [LinearOrder Id]

section Edges

structure BinSearchMap (Id : Type) where
  startIds : List Id
  targetIds : List Id

def BinSearchMap.successors (edges : BinSearchMap Id) (node : Id) : List Id :=
  let startIndex := partitionPoint (fun startId => decide (startId < node)) edges.startIds
  let endIndex := partitionPoint (fun startId => decide (startId ≤ node)) edges.startIds
  (edges.targetIds.drop startIndex).take (endIndex - startIndex)

structure HashMapWrapper (Id : Type) [DecidableEq Id] where
  map : Id → Option (Finset Id)
  enumerate : (set : Finset Id) → {ids : List Id // ids.toFinset = set}

def HashMapWrapper.successors (edges : HashMapWrapper Id) (node : Id) : List Id :=
  match edges.map node with
  | none => []
  | some set => edges.enumerate set

def insertEdge (edges : Id → Option (Finset Id)) (row : Id × Id) : Id → Option (Finset Id) :=
  Function.update edges row.1 (some (insert row.2 ((edges row.1).getD ∅)))

def setupEdgesMap (sub : List (Id × Id)) : Id → Option (Finset Id) := sub.foldl insertEdge (fun _ => none)

inductive Representation (Id : Type) [DecidableEq Id]
  | binSearch
  | hashMap (enumerate : (set : Finset Id) → {ids : List Id // ids.toFinset = set})

def Representation.successors (sub : List (Id × Id)) : Representation Id → Id → List Id
  | .binSearch => BinSearchMap.successors ⟨sub.map Prod.fst,sub.map Prod.snd⟩
  | .hashMap enumerate => HashMapWrapper.successors ⟨setupEdgesMap sub,enumerate⟩

def Representation.Sorted (sub : List (Id × Id)) : Representation Id → Prop
  | .binSearch => (sub.map Prod.fst).Pairwise (· ≤ ·)
  | .hashMap _ => True

end Edges

section Source

structure Search (Id : Type) where
  stack : List (Id × Nat)
  marks : Finset Id
  connectedNodes : Finset Id

variable (successors : Id → List Id) (minDist maxDist : Nat) (target : Option Id)

/-- One round of the loop of `findConnectedNodes`, with the top of the stack first. -/
def step (search : Search Id) : Option (Search Id) :=
  match search.stack with
  | [] => none
  | (node,steps) :: stack =>
    if steps ≤ maxDist ∧ node ∉ search.marks then
      let stack := ((successors node).map (fun successor => (successor,(steps + 1) % 2 ^ 64))).reverse ++ stack
      if minDist ≤ steps then
        some ⟨stack,insert node search.marks,if target.all (fun target => node = target) then insert node search.connectedNodes else search.connectedNodes⟩
      else some {search with stack := stack}
    else some {search with stack := stack}

def start (startNode : Id) : Search Id := ⟨[(startNode,0)],∅,∅⟩

def findConnectedNodes (fuel : Nat) (startNode : Id) : Option (Finset Id) :=
  (loop (step successors minDist maxDist target) fuel (start startNode)).map Search.connectedNodes

end Source

section Represents
variable {sub : List (Id × Id)}

theorem setupEdgesMap_of_isSome (node : Id) (edges : Id → Option (Finset Id)) (other : Id) :
    other ∈ ((sub.foldl insertEdge edges) node).getD ∅ ↔ other ∈ (edges node).getD ∅ ∨ (node,other) ∈ sub := by
  induction sub generalizing edges with
  | nil => simp
  | cons row sub ih =>
    rw [List.foldl_cons,ih,insertEdge]
    by_cases same : node = row.1
    · subst same
      rw [Function.update_self,Option.getD_some,mem_insert,List.mem_cons]
      have isFirst : (row.1,other) = row ↔ other = row.2 := by rw [Prod.ext_iff]; simp
      rw [isFirst]
      tauto
    · have notFirst : (node,other) ≠ row := fun isFirst => same (congrArg Prod.fst isFirst)
      rw [Function.update_of_ne same,List.mem_cons]
      simp [notFirst]

theorem mem_successors_hashMap (enumerate : (set : Finset Id) → {ids : List Id // ids.toFinset = set}) (node other : Id) :
    other ∈ (Representation.hashMap enumerate).successors sub node ↔ (node,other) ∈ sub := by
  have members := @setupEdgesMap_of_isSome Id _ sub node (fun _ => none) other
  rw [Option.getD_none,← setupEdgesMap] at members
  simp only [notMem_empty,false_or] at members
  rw [← members]
  simp only [Representation.successors,HashMapWrapper.successors]
  cases setupEdgesMap sub node with
  | none => simp
  | some set => rw [← List.mem_toFinset,(enumerate set).property,Option.getD_some]

theorem mem_successors_binSearch (sorted : Representation.binSearch.Sorted sub) (node other : Id) :
    other ∈ Representation.binSearch.successors sub node ↔ (node,other) ∈ sub := by
  have sortedRows : sub.Pairwise (fun row row' => row.1 ≤ row'.1) := List.pairwise_map.mp sorted
  have closedLess : Closed (fun row : Id × Id => decide (row.1 < node)) sub := sortedRows.imp (fun le less => by
    simp only [decide_eq_true_iff] at less ⊢
    exact lt_of_le_of_lt le less)
  have closedLe : Closed (fun row : Id × Id => decide (row.1 ≤ node)) sub := sortedRows.imp (fun le less => by
    simp only [decide_eq_true_iff] at less ⊢
    exact le_trans le less)
  have position : ∀ test : Id → Bool,partitionPoint test (sub.map Prod.fst) = partitionPoint (fun row => test row.1) sub := by
    intro test
    rw [partitionPoint,List.findIdx_map]
    rfl
  have slice := slice_partitionPoint closedLess closedLe (fun row _ less => by
    simp only [decide_eq_true_iff] at less ⊢
    exact less.le)
  have content : Representation.binSearch.successors sub node =
      (sub.filter (fun row => decide (row.1 ≤ node) && !decide (row.1 < node))).map Prod.snd := by
    rw [← slice,List.map_take,List.map_drop,← position (fun startId => decide (startId ≤ node)),← position (fun startId => decide (startId < node))]
    rfl
  rw [content,List.mem_map]
  constructor
  · rintro ⟨row,isRow,rfl⟩
    obtain ⟨member,between⟩ := List.mem_filter.mp isRow
    rw [Bool.and_eq_true,decide_eq_true_iff,Bool.not_eq_true',decide_eq_false_iff_not,not_lt] at between
    rw [le_antisymm between.2 between.1]
    exact member
  · intro member
    exact ⟨(node,other),List.mem_filter.mpr ⟨member,by simp⟩,rfl⟩

theorem mem_successors {representation : Representation Id} (sorted : representation.Sorted sub) (node other : Id) :
    other ∈ representation.successors sub node ↔ (node,other) ∈ sub := by
  cases representation with
  | binSearch => exact mem_successors_binSearch sorted node other
  | hashMap enumerate => exact mem_successors_hashMap enumerate node other

end Represents

section Rounds
variable {successors : Id → List Id} {minDist maxDist : Nat} {target : Option Id} {search next : Search Id} {node : Id} {steps : Nat}
  {stack : List (Id × Nat)}

def pushed (successors : Id → List Id) (node : Id) (steps : Nat) : List (Id × Nat) :=
  ((successors node).map (fun successor => (successor,(steps + 1) % 2 ^ 64))).reverse

inductive Round (successors : Id → List Id) (minDist maxDist : Nat) (target : Option Id) (search : Search Id) (node : Id) (steps : Nat)
    (stack : List (Id × Nat)) : Search Id → Prop
  | drop (skipped : maxDist < steps ∨ node ∈ search.marks) : Round successors minDist maxDist target search node steps stack {search with stack := stack}
  | follow (near : steps ≤ maxDist) (isNew : node ∉ search.marks) (early : steps < minDist) :
    Round successors minDist maxDist target search node steps stack {search with stack := pushed successors node steps ++ stack}
  | mark (near : steps ≤ maxDist) (isNew : node ∉ search.marks) (late : minDist ≤ steps) :
    Round successors minDist maxDist target search node steps stack
      ⟨pushed successors node steps ++ stack,insert node search.marks,
        if target.all (fun target => node = target) then insert node search.connectedNodes else search.connectedNodes⟩

theorem step_cases (isNext : step successors minDist maxDist target search = some next) :
    ∃ node steps stack,search.stack = (node,steps) :: stack ∧ Round successors minDist maxDist target search node steps stack next := by
  rw [step] at isNext
  split at isNext
  next => cases isNext
  next node steps stack isStack =>
    refine ⟨node,steps,stack,isStack,?_⟩
    by_cases followed : steps ≤ maxDist ∧ node ∉ search.marks
    · rw [if_pos followed] at isNext
      by_cases late : minDist ≤ steps
      · simp only [if_pos late,Option.some_inj] at isNext
        subst isNext
        exact .mark followed.1 followed.2 late
      · simp only [if_neg late,Option.some_inj] at isNext
        subst isNext
        exact .follow followed.1 followed.2 (not_le.mp late)
    · rw [if_neg followed,Option.some_inj] at isNext
      subst isNext
      refine .drop ?_
      rcases not_and_or.mp followed with far | isMarked
      · exact .inl (not_le.mp far)
      · exact .inr (not_not.mp isMarked)

theorem stack_of_last (isLast : step successors minDist maxDist target search = none) : search.stack = [] := by
  rw [step] at isLast
  split at isLast
  next isStack => exact isStack
  next =>
    split at isLast
    · split at isLast <;> cases isLast
    · cases isLast

omit [LinearOrder Id] in
theorem mem_pushed {entry : Id × Nat} : entry ∈ pushed successors node steps ↔ entry.1 ∈ successors node ∧ entry.2 = (steps + 1) % 2 ^ 64 := by
  rw [pushed,List.mem_reverse,List.mem_map]
  constructor
  · rintro ⟨successor,member,rfl⟩
    exact ⟨member,rfl⟩
  · rintro ⟨member,count⟩
    exact ⟨entry.1,member,Prod.ext rfl count.symm⟩

end Rounds

section Termination
variable {successors : Id → List Id} {minDist maxDist : Nat} {target : Option Id} {nodes : Finset Id} {branching : Nat}

def weight (branching minDist : Nat) (entry : Id × Nat) : Nat := (branching + 1) ^ (minDist - entry.2)

def measure (nodes : Finset Id) (branching minDist : Nat) (search : Search Id) : Nat ×ₗ Nat :=
  toLex ((nodes \ search.marks).card,(search.stack.map (weight branching minDist)).sum)

omit [LinearOrder Id] in
theorem sum_weight_pushed {node : Id} {steps : Nat} (branches : (successors node).length ≤ branching) (early : steps < minDist) (small : minDist < 2 ^ 64) :
    ((pushed successors node steps).map (weight branching minDist)).sum < weight branching minDist (node,steps) := by
  have counter : (steps + 1) % 2 ^ 64 = steps + 1 := Nat.mod_eq_of_lt (by omega)
  have remaining : minDist - steps = minDist - (steps + 1) + 1 := by omega
  have each : (pushed successors node steps).map (weight branching minDist) =
      List.replicate (successors node).length ((branching + 1) ^ (minDist - (steps + 1))) := by
    refine List.eq_replicate_iff.mpr ⟨by rw [pushed,List.length_map,List.length_reverse,List.length_map],fun amount member => ?_⟩
    obtain ⟨entry,isEntry,rfl⟩ := List.mem_map.mp member
    rw [weight,(mem_pushed.mp isEntry).2,counter]
  rw [each,List.sum_replicate_nat,weight,remaining,Nat.pow_succ,Nat.mul_comm]
  exact Nat.mul_lt_mul_of_pos_left (Nat.lt_succ_of_le branches) (Nat.pow_pos (Nat.succ_pos _))

section
variable (inside : ∀ node ∈ nodes,∀ successor ∈ successors node,successor ∈ nodes)
include inside

theorem step_decreases (branches : ∀ node ∈ nodes,(successors node).length ≤ branching) (small : minDist < 2 ^ 64) {search next : Search Id}
    (onNodes : ∀ entry ∈ search.stack,entry.1 ∈ nodes) (isNext : step successors minDist maxDist target search = some next) :
    (∀ entry ∈ next.stack,entry.1 ∈ nodes) ∧ measure nodes branching minDist next < measure nodes branching minDist search := by
  obtain ⟨node,steps,stack,isStack,round⟩ := step_cases isNext
  rw [isStack] at onNodes
  have isNode := onNodes _ List.mem_cons_self
  have rest := fun entry member => onNodes entry (List.mem_cons_of_mem _ member)
  have followed : ∀ entry ∈ pushed successors node steps ++ stack,entry.1 ∈ nodes := by
    intro entry member
    rcases List.mem_append.mp member with isPushed | isOld
    · exact inside node isNode _ (mem_pushed.mp isPushed).1
    · exact rest entry isOld
  have total : (search.stack.map (weight branching minDist)).sum = weight branching minDist (node,steps) + (stack.map (weight branching minDist)).sum := by
    rw [isStack,List.map_cons,List.sum_cons]
  cases round with
  | drop skipped =>
    refine ⟨rest,Prod.Lex.toLex_lt_toLex.mpr (.inr ⟨rfl,?_⟩)⟩
    rw [total]
    exact Nat.lt_add_of_pos_left (Nat.pow_pos (Nat.succ_pos _))
  | follow near isNew early =>
    refine ⟨followed,Prod.Lex.toLex_lt_toLex.mpr (.inr ⟨rfl,?_⟩)⟩
    rw [total,List.map_append,List.sum_append]
    exact Nat.add_lt_add_right (sum_weight_pushed (branches node isNode) early small) _
  | mark near isNew late =>
    refine ⟨followed,Prod.Lex.toLex_lt_toLex.mpr (.inl (Finset.card_lt_card ?_))⟩
    refine Finset.ssubset_iff_subset_ne.mpr ⟨Finset.sdiff_subset_sdiff (Finset.Subset.refl _) (Finset.subset_insert _ _),fun same => ?_⟩
    have notMarked := Finset.mem_sdiff.mpr ⟨isNode,isNew⟩
    rw [← same] at notMarked
    exact (Finset.mem_sdiff.mp notMarked).2 (mem_insert_self _ _)

theorem loop_step_terminates (small : minDist < 2 ^ 64) {startNode : Id}
    (isNode : startNode ∈ nodes) : ∃ fuel final,loop (step successors minDist maxDist target) fuel (start startNode) = some final := by
  have branches : ∀ node ∈ nodes,(successors node).length ≤ ∑ node ∈ nodes,(successors node).length :=
    fun node member => Finset.single_le_sum (f := fun node => (successors node).length) (fun _ _ => Nat.zero_le _) member
  refine loop_terminates wellFounded_lt (measure nodes (∑ node ∈ nodes,(successors node).length) minDist)
    (fun search next onNodes isNext => step_decreases inside branches small onNodes isNext) (fun entry member => ?_)
  rw [List.mem_singleton.mp member]
  exact isNode

end

variable (sub : List (Id × Id))

def reachableNodes (startNode : Id) : Finset Id := insert startNode (sub.map Prod.snd).toFinset

variable {sub}

theorem successors_mem_reachableNodes {representation : Representation Id} (startNode node : Id) :
    ∀ successor ∈ representation.successors sub node,successor ∈ reachableNodes sub startNode := by
  intro successor member
  refine Finset.mem_insert_of_mem (List.mem_toFinset.mpr ?_)
  cases representation with
  | binSearch => exact List.mem_of_mem_drop (List.mem_of_mem_take member)
  | hashMap enumerate => exact List.mem_map.mpr ⟨_,(mem_successors_hashMap enumerate node successor).mp member,rfl⟩

theorem findConnectedNodes_terminates (representation : Representation Id) (sub : List (Id × Id)) (startNode : Id) (target : Option Id)
    {minDist maxDist : Nat} (bounds : minDist ≤ maxDist) (small : maxDist < 2 ^ 64) :
    ∃ fuel connectedNodes,findConnectedNodes (representation.successors sub) minDist maxDist target fuel startNode = some connectedNodes := by
  obtain ⟨fuel,final,isFinal⟩ := @loop_step_terminates _ _ (representation.successors sub) minDist maxDist target (reachableNodes sub startNode)
    (fun node _ => successors_mem_reachableNodes startNode node) (lt_of_le_of_lt bounds small) startNode (mem_insert_self _ _)
  exact ⟨fuel,final.connectedNodes,by rw [findConnectedNodes,isFinal]; rfl⟩

theorem findConnectedNodes_terminates_cycle : ∃ fuel connectedNodes,
    findConnectedNodes (Representation.binSearch.successors [(1,2),(2,1)]) 3 (2 ^ 64 - 1) none fuel 1 = some connectedNodes :=
  findConnectedNodes_terminates .binSearch [(1,2),(2,1)] 1 none (by decide) (by decide)

end Termination

section Walks
variable {edge : Id → Id → Prop} {minDist maxDist : Nat} {target : Option Id}

/-- A walk from a node that is reached by `steps` steps, of which the length is within the bounds altogether. -/
def Completes (edge : Id → Id → Prop) (minDist maxDist steps : Nat) (node last : Id) : Prop :=
  ∃ length,minDist ≤ steps + length ∧ (steps + length ≤ maxDist ∨ maxDist = unbounded) ∧ WalkOfLength edge length node last

def Promised (edge : Id → Id → Prop) (minDist maxDist : Nat) (search : Search Id) (last : Id) : Prop :=
  last ∈ search.marks ∨ ∃ entry ∈ search.stack,Completes edge minDist maxDist entry.2 entry.1 last

/-- An entry of the stack whose node is marked already, or whose counter has its last value, leads to no node that is not promised without it. -/
def LosesNothing (edge : Id → Id → Prop) (successors : Id → List Id) (minDist maxDist : Nat) (target : Option Id) (search : Search Id) : Prop :=
  ∀ node steps stack next,search.stack = (node,steps) :: stack → step successors minDist maxDist target search = some next → steps ≤ maxDist →
    node ∈ search.marks ∨ steps + 1 = 2 ^ 64 → ∀ last,target.all (fun target => last = target) = true →
      Completes edge minDist maxDist steps node last → Promised edge minDist maxDist next last

variable {last : Id}

omit [LinearOrder Id] in
theorem completes_zero {node : Id} : Completes edge minDist maxDist 0 node last ↔ Walk edge minDist maxDist node last := by
  simp only [Completes,Nat.zero_add,Walk]

/-- The counters of the stack are machine words, and the nodes that are marked and wanted are the result. -/
structure Keeps (target : Option Id) (search : Search Id) : Prop where
  counters : ∀ entry ∈ search.stack,entry.2 < 2 ^ 64
  connected : ∀ node,node ∈ search.connectedNodes ↔ node ∈ search.marks ∧ target.all (fun target => node = target) = true

variable {successors : Id → List Id} {search next : Search Id}

theorem Keeps.step (keeps : Keeps target search) (isNext : step successors minDist maxDist target search = some next) : Keeps target next := by
  obtain ⟨node,steps,stack,isStack,round⟩ := step_cases isNext
  have rest : ∀ entry ∈ stack,entry.2 < 2 ^ 64 := fun entry member => keeps.counters entry (by rw [isStack]; exact List.mem_cons_of_mem _ member)
  have followed : ∀ entry ∈ pushed successors node steps ++ stack,entry.2 < 2 ^ 64 := by
    intro entry member
    rcases List.mem_append.mp member with isPushed | isOld
    · rw [(mem_pushed.mp isPushed).2]
      exact Nat.mod_lt _ (Nat.two_pow_pos 64)
    · exact rest entry isOld
  cases round with
  | drop skipped => exact ⟨rest,keeps.connected⟩
  | follow near isNew early => exact ⟨followed,keeps.connected⟩
  | mark near isNew late =>
    refine ⟨followed,fun other => ?_⟩
    rw [mem_insert]
    by_cases wanted : target.all (fun target => node = target) = true
    · rw [if_pos wanted,mem_insert,keeps.connected]
      constructor
      · rintro (rfl | ⟨isMarked,isWanted⟩)
        · exact ⟨.inl rfl,wanted⟩
        · exact ⟨.inr isMarked,isWanted⟩
      · rintro ⟨rfl | isMarked,isWanted⟩
        · exact .inl rfl
        · exact .inr ⟨isMarked,isWanted⟩
    · rw [if_neg wanted,keeps.connected]
      refine and_congr_left (fun isWanted => ⟨.inr,fun isMarked => isMarked.resolve_left (fun same => ?_)⟩)
      rw [same] at isWanted
      exact wanted isWanted

theorem keeps_start (startNode : Id) : Keeps target (start startNode) := by
  refine ⟨fun entry member => ?_,fun node => ?_⟩
  · rw [List.mem_singleton.mp member]
    exact Nat.two_pow_pos 64
  · exact iff_of_false (notMem_empty _) (fun ⟨isMarked,_⟩ => absurd isMarked (notMem_empty _))

omit [LinearOrder Id] in
theorem not_completes_of_far {steps : Nat} {node : Id} (counter : steps < 2 ^ 64) (far : maxDist < steps) :
    ¬Completes edge minDist maxDist steps node last := by
  rintro ⟨length,_,near | isUnbounded,_⟩
  · omega
  · rw [isUnbounded,unbounded] at far
    omega

variable (small : maxDist < 2 ^ 64) (edges : ∀ node other,other ∈ successors node ↔ edge node other)
include small edges

omit [LinearOrder Id] in
theorem completes_of_pushed {node : Id} {steps : Nat} (near : steps ≤ maxDist) {entry : Id × Nat}
    (member : entry ∈ pushed successors node steps) (completes : Completes edge minDist maxDist entry.2 entry.1 last) :
    Completes edge minDist maxDist steps node last := by
  obtain ⟨isSuccessor,count⟩ := mem_pushed.mp member
  obtain ⟨length,late,within,walk⟩ := completes
  rw [count] at late within
  refine ⟨length + 1,?_,?_,entry.1,(edges _ _).mp isSuccessor,walk⟩
  · by_cases last : steps + 1 = 2 ^ 64
    · omega
    · rw [Nat.mod_eq_of_lt (by omega)] at late
      omega
  · by_cases last : steps + 1 = 2 ^ 64
    · right
      rw [unbounded]
      omega
    · rw [Nat.mod_eq_of_lt (by omega)] at within
      omega

theorem promised_of_step (isNext : step successors minDist maxDist target search = some next)
    (promised : Promised edge minDist maxDist next last) : Promised edge minDist maxDist search last := by
  obtain ⟨node,steps,stack,isStack,round⟩ := step_cases isNext
  rw [Promised,isStack]
  have followed : steps ≤ maxDist → ∀ entry ∈ pushed successors node steps ++ stack,Completes edge minDist maxDist entry.2 entry.1 last →
      ∃ entry ∈ (node,steps) :: stack,Completes edge minDist maxDist entry.2 entry.1 last := by
    intro near entry member completes
    rcases List.mem_append.mp member with isPushed | isOld
    · exact ⟨_,List.mem_cons_self,completes_of_pushed small edges near isPushed completes⟩
    · exact ⟨entry,List.mem_cons_of_mem _ isOld,completes⟩
  cases round with
  | drop skipped =>
    rcases promised with isMarked | ⟨entry,member,completes⟩
    · exact .inl isMarked
    · exact .inr ⟨entry,List.mem_cons_of_mem _ member,completes⟩
  | follow near isNew early =>
    rcases promised with isMarked | ⟨entry,member,completes⟩
    · exact .inl isMarked
    · exact .inr (followed near entry member completes)
  | mark near isNew late =>
    rcases promised with isMarked | ⟨entry,member,completes⟩
    · rcases Finset.mem_insert.mp isMarked with rfl | isMarked
      · exact .inr ⟨_,List.mem_cons_self,0,late,.inl near,rfl⟩
      · exact .inl isMarked
    · exact .inr (followed near entry member completes)

omit small in
theorem promised_step (keeps : Keeps target search) (isNext : step successors minDist maxDist target search = some next)
    (losesNothing : LosesNothing edge successors minDist maxDist target search) (wanted : target.all (fun target => last = target) = true)
    (promised : Promised edge minDist maxDist search last) : Promised edge minDist maxDist next last := by
  obtain ⟨node,steps,stack,isStack,round⟩ := step_cases isNext
  have loses := losesNothing node steps stack next isStack isNext
  have counter := keeps.counters (node,steps) (by rw [isStack]; exact List.mem_cons_self)
  have keptMarks : search.marks ⊆ next.marks ∧ ∀ entry ∈ stack,entry ∈ next.stack := by
    cases round with
    | drop skipped => exact ⟨Finset.Subset.refl _,fun _ member => member⟩
    | follow near isNew early => exact ⟨Finset.Subset.refl _,fun _ member => List.mem_append_right _ member⟩
    | mark near isNew late => exact ⟨Finset.subset_insert _ _,fun _ member => List.mem_append_right _ member⟩
  rcases promised with isMarked | ⟨entry,member,completes⟩
  · exact .inl (keptMarks.1 isMarked)
  rw [isStack] at member
  rcases List.mem_cons.mp member with rfl | isOld
  swap
  · exact .inr ⟨entry,keptMarks.2 entry isOld,completes⟩
  by_cases special : steps ≤ maxDist ∧ (node ∈ search.marks ∨ steps + 1 = 2 ^ 64)
  · exact loses special.1 special.2 last wanted completes
  have viaSuccessor : steps ≤ maxDist → node ∉ search.marks → ∀ length,minDist ≤ steps + (length + 1) →
      (steps + (length + 1) ≤ maxDist ∨ maxDist = unbounded) → WalkOfLength edge (length + 1) node last →
      ∃ entry ∈ pushed successors node steps ++ stack,Completes edge minDist maxDist entry.2 entry.1 last := by
    rintro near isNew length late within ⟨successor,isSuccessor,walk⟩
    have notLast : steps + 1 ≠ 2 ^ 64 := fun last => special ⟨near,.inr last⟩
    have count : (steps + 1) % 2 ^ 64 = steps + 1 := Nat.mod_eq_of_lt (by omega)
    refine ⟨(successor,steps + 1),List.mem_append_left _ (mem_pushed.mpr ⟨(edges _ _).mpr isSuccessor,count.symm⟩),length,?_,?_,walk⟩
    · change minDist ≤ steps + 1 + length
      omega
    · change steps + 1 + length ≤ maxDist ∨ maxDist = unbounded
      omega
  cases round with
  | drop skipped =>
    rcases skipped with far | isMarked
    · exact absurd completes (not_completes_of_far counter far)
    · by_cases near : steps ≤ maxDist
      · exact absurd ⟨near,.inl isMarked⟩ special
      · exact absurd completes (not_completes_of_far counter (not_le.mp near))
  | follow near isNew early =>
    obtain ⟨length,late,within,walk⟩ := completes
    cases length with
    | zero => exact absurd late (not_le.mpr early)
    | succ length => exact .inr (viaSuccessor near isNew length late within walk)
  | mark near isNew late =>
    obtain ⟨length,enough,within,walk⟩ := completes
    cases length with
    | zero =>
      cases walk
      exact .inl (mem_insert_self _ _)
    | succ length => exact .inr (viaSuccessor near isNew length enough within walk)

theorem loop_step_correct_iff {startNode : Id} {fuel : Nat} {final : Search Id}
    (done : loop (step successors minDist maxDist target) fuel (start startNode) = some final) :
    (∀ node,node ∈ final.connectedNodes ↔ Walk edge minDist maxDist startNode node ∧ target.all (fun target => node = target) = true) ↔
      ∀ search,Steps (step successors minDist maxDist target) (start startNode) search → LosesNothing edge successors minDist maxDist target search := by
  obtain ⟨toLast,isLast⟩ := steps_of_loop done
  have keeps : ∀ search,Steps (step successors minDist maxDist target) (start startNode) search → Keeps target search :=
    fun search steps => steps.invariant (fun _ _ keeps isNext => keeps.step isNext) (keeps_start startNode)
  have atStart : ∀ last,Promised edge minDist maxDist (start startNode) last ↔ Walk edge minDist maxDist startNode last := by
    intro last
    rw [← completes_zero,Promised,start]
    simp
  have atLast : ∀ last,Promised edge minDist maxDist final last ↔ last ∈ final.marks := by
    intro last
    rw [Promised,stack_of_last isLast]
    simp
  have shrinks : ∀ search,Steps (step successors minDist maxDist target) (start startNode) search → ∀ last,
      Promised edge minDist maxDist search last → Promised edge minDist maxDist (start startNode) last := by
    intro search steps last
    induction steps with
    | refl => exact id
    | tail _ isNext ih => exact fun promised => ih (promised_of_step small edges isNext promised)
  constructor
  · intro correct search steps node count stack next isStack isNext near special last wanted completes
    -- The node is in the result, so the remaining rounds still reach it.
    have promised : Promised edge minDist maxDist search last := .inr ⟨(node,count),by rw [isStack]; exact List.mem_cons_self,completes⟩
    have found := (correct last).mpr ⟨(atStart last).mp (shrinks search steps last promised),wanted⟩
    have isMarked := (((keeps final toLast).connected last).mp found).1
    have fromNext : Steps (step successors minDist maxDist target) next final := Library.Steps.to_last (steps.tail isNext) toLast isLast
    have backwards : ∀ search,Steps (step successors minDist maxDist target) next search →
        Promised edge minDist maxDist search last → Promised edge minDist maxDist next last := by
      intro search steps
      induction steps with
      | refl => exact id
      | tail _ isNext ih => exact fun promised => ih (promised_of_step small edges isNext promised)
    exact backwards final fromNext ((atLast last).mpr isMarked)
  · intro losesNothing node
    rw [(keeps final toLast).connected,and_congr_left_iff]
    intro wanted
    rw [← atLast,← atStart]
    refine ⟨shrinks final toLast node,fun promised => ?_⟩
    have forwards : ∀ search,Steps (step successors minDist maxDist target) (start startNode) search → Promised edge minDist maxDist search node := by
      intro search steps
      induction steps with
      | refl => exact promised
      | tail before isNext ih =>
        exact promised_step edges (keeps _ before) isNext (losesNothing _ before) wanted ih
    exact forwards final toLast

end Walks

section Result
variable {sub : List (Id × Id)} {representation : Representation Id} {minDist maxDist : Nat}

def Edge (sub : List (Id × Id)) (node other : Id) : Prop := (node,other) ∈ sub

end Result
end Qlever.TransitivePath
