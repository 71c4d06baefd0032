import Qlever.Library.BinarySearch
import Qlever.Library.Loop
import Qlever.Library.Run

/-! The enumeration of all paths from a source. The stack and the current path are lists with their last element first, the paths of the result
start at the source.
-/
namespace Qlever.PathSearch
open Qlever Qlever.Library List
open Option (any_none some_inj)
open Finset (mem_sdiff mem_insert)
variable {Id : Type} [LinearOrder Id]

structure Edge (Id : Type) where
  start : Id
  end_ : Id
  edgeRow : Nat
  deriving DecidableEq, Repr

section Source

def makeEdgeFromRow (table : List (Id × Id)) (row : Nat) : Option (Edge Id) := table[row]?.map (fun ids => ⟨ids.1,ids.2,row⟩)

def outgoingEdes (table : List (Id × Id)) (node : Id) : List (Edge Id) :=
  let startIndex := partitionPoint (fun row => decide (row.1 < node)) table
  let endIndex := partitionPoint (fun row => decide (row.1 ≤ node)) table
  (range' startIndex (endIndex - startIndex)).filterMap (makeEdgeFromRow table)

structure Search (Id : Type) where
  edgeStack : List (Edge Id)
  currentPath : List (Edge Id)
  numPathsPerNode : Id → Nat
  result : List (List (Edge Id))
  visited : Finset Id

def backtrack (start : Id) : List (Edge Id) → Finset Id → List (Edge Id) × Finset Id
  | [],visited => ([],visited)
  | last :: currentPath,visited =>
    if start ≠ last.end_ then backtrack start currentPath (visited.erase last.end_) else (last :: currentPath,visited)

variable (outgoing : Id → List (Edge Id)) (targets : Finset Id) (numPathsPerTarget : Option Nat)

/-- One round of the loop of `findPaths`. -/
def step (search : Search Id) : Option (Search Id) :=
  match search.edgeStack with
  | [] => none
  | edge :: edgeStack =>
    let visited := insert edge.end_ search.visited
    let (currentPath,visited) := backtrack edge.start search.currentPath visited
    let numPaths := search.numPathsPerNode edge.end_ + 1
    let numPathsPerNode := if numPathsPerTarget.isSome then Function.update search.numPathsPerNode edge.end_ numPaths else search.numPathsPerNode
    if numPathsPerTarget.any (fun limit => limit < numPaths) then some ⟨edgeStack,currentPath,numPathsPerNode,search.result,visited⟩
    else
      let currentPath := edge :: currentPath
      let result := if targets = ∅ ∨ edge.end_ ∈ targets then search.result ++ [currentPath.reverse] else search.result
      let unvisited := (outgoing edge.end_).filter (fun outgoingEdge => outgoingEdge.end_ ∉ visited)
      some ⟨unvisited.reverse ++ edgeStack,currentPath,numPathsPerNode,result,visited⟩

def start (source : Id) : Search Id := ⟨(outgoing source).reverse,[],fun _ => 0,[],{source}⟩

def findPaths (fuel : Nat) (source : Id) : Option (List (List (Edge Id))) :=
  (loop (step outgoing targets numPathsPerTarget) fuel (start outgoing source)).map Search.result

end Source

section Table
variable {table : List (Id × Id)}

def IsEdge (table : List (Id × Id)) (edge : Edge Id) : Prop := table[edge.edgeRow]? = some (edge.start,edge.end_)

omit [LinearOrder Id] in
theorem makeEdgeFromRow_eq_some {row : Nat} {edge : Edge Id} : makeEdgeFromRow table row = some edge ↔ IsEdge table edge ∧ edge.edgeRow = row := by
  rw [makeEdgeFromRow,Option.map_eq_some_iff]
  constructor
  · rintro ⟨ids,isRow,rfl⟩
    exact ⟨isRow,rfl⟩
  · rintro ⟨isEdge,rfl⟩
    exact ⟨_,isEdge,rfl⟩

theorem mem_outgoingEdes (sorted : table.Pairwise (fun row row' => row.1 ≤ row'.1)) (node : Id) (edge : Edge Id) :
    edge ∈ outgoingEdes table node ↔ IsEdge table edge ∧ edge.start = node := by
  have closedLess : Closed (fun row : Id × Id => decide (row.1 < node)) table := sorted.imp (fun le less => by
    simp only [decide_eq_true_iff] at less ⊢
    exact lt_of_le_of_lt le less)
  have closedLe : Closed (fun row : Id × Id => decide (row.1 ≤ node)) table := sorted.imp (fun le less => by
    simp only [decide_eq_true_iff] at less ⊢
    exact le_trans le less)
  simp only [outgoingEdes,mem_filterMap,makeEdgeFromRow_eq_some,mem_range'_1]
  constructor
  · rintro ⟨row,⟨above,below⟩,isEdge,rfl⟩
    have notLess := after_partitionPoint closedLess above isEdge
    have inside : edge.edgeRow < partitionPoint (fun row => decide (row.1 ≤ node)) table := by omega
    have le := before_partitionPoint inside isEdge
    simp only [decide_eq_false_iff_not,not_lt] at notLess
    simp only [decide_eq_true_iff] at le
    exact ⟨isEdge,le_antisymm le notLess⟩
  · rintro ⟨isEdge,rfl⟩
    have above : partitionPoint (fun row => decide (row.1 < edge.start)) table ≤ edge.edgeRow := by
      by_contra below
      have less := before_partitionPoint (not_le.mp below) isEdge
      simp at less
    have below : edge.edgeRow < partitionPoint (fun row => decide (row.1 ≤ edge.start)) table := by
      by_contra above
      have notLe := after_partitionPoint closedLe (not_lt.mp above) isEdge
      simp at notLe
    exact ⟨edge.edgeRow,⟨above,by omega⟩,isEdge,rfl⟩

theorem nodup_outgoingEdes (table : List (Id × Id)) (node : Id) : (outgoingEdes table node).Nodup := by
  refine List.Nodup.filterMap ?_ nodup_range'
  intro row row' edge isEdge isEdge'
  exact (makeEdgeFromRow_eq_some.mp isEdge).2.symm.trans (makeEdgeFromRow_eq_some.mp isEdge').2

end Table

section Paths
variable (outgoing : Id → List (Edge Id)) (source : Id)

def last : List (Edge Id) → Id
  | [] => source
  | edge :: _ => edge.end_

def nodes (path : List (Edge Id)) : List Id := path.map Edge.end_ ++ [source]

def IsPath : List (Edge Id) → Prop
  | [] => True
  | edge :: path => edge ∈ outgoing (last source path) ∧ IsPath path

structure Simple (path : List (Edge Id)) : Prop where
  isPath : IsPath outgoing source path
  nodup : (nodes source path).Nodup

/-- The simple paths that continue a path by at most `length` edges, in the order in which the search finds them. -/
def extensions : Nat → List (Edge Id) → List (List (Edge Id))
  | 0,_ => []
  | length + 1,path =>
    ((outgoing (last source path)).filter (fun edge => edge.end_ ∉ nodes source path)).reverse.flatMap
      (fun edge => (edge :: path) :: extensions length (edge :: path))

variable {outgoing source} {path : List (Edge Id)} {more : List (Edge Id)}

section
omit [LinearOrder Id]

theorem IsPath.of_append (isPath : IsPath outgoing source (more ++ path)) : IsPath outgoing source path := by
  induction more with
  | nil => exact isPath
  | cons edge more ih => exact ih isPath.2

theorem Simple.of_append (simple : Simple outgoing source (more ++ path)) : Simple outgoing source path := by
  refine ⟨simple.isPath.of_append,?_⟩
  have nodup := simple.nodup
  rw [nodes,map_append,append_assoc] at nodup
  exact (nodup_append.mp nodup).2.1

theorem simple_cons {edge : Edge Id} :
    Simple outgoing source (edge :: path) ↔ edge ∈ outgoing (last source path) ∧ edge.end_ ∉ nodes source path ∧ Simple outgoing source path := by
  have nodup : (nodes source (edge :: path)).Nodup ↔ edge.end_ ∉ nodes source path ∧ (nodes source path).Nodup := nodup_cons
  constructor
  · rintro ⟨⟨isEdge,isPath⟩,distinct⟩
    exact ⟨isEdge,(nodup.mp distinct).1,isPath,(nodup.mp distinct).2⟩
  · rintro ⟨isEdge,fresh,isPath,distinct⟩
    exact ⟨⟨isEdge,isPath⟩,nodup.mpr ⟨fresh,distinct⟩⟩

end

theorem mem_extensions (simple : Simple outgoing source path) (length : Nat) (path' : List (Edge Id)) :
    path' ∈ extensions outgoing source length path ↔
      ∃ more,more ≠ [] ∧ path' = more ++ path ∧ more.length ≤ length ∧ Simple outgoing source path' := by
  induction length generalizing path path' with
  | zero =>
    refine iff_of_false not_mem_nil ?_
    rintro ⟨more,nonempty,-,short,-⟩
    exact nonempty (length_eq_zero_iff.mp (Nat.le_zero.mp short))
  | succ length ih =>
    rw [extensions,mem_flatMap]
    constructor
    · rintro ⟨edge,isEdge,member⟩
      obtain ⟨isOutgoing,fresh⟩ := mem_filter.mp (mem_reverse.mp isEdge)
      have longer := simple_cons.mpr ⟨isOutgoing,of_decide_eq_true fresh,simple⟩
      rcases mem_cons.mp member with rfl | member
      · exact ⟨[edge],cons_ne_nil _ _,rfl,Nat.succ_le_succ (Nat.zero_le _),longer⟩
      · obtain ⟨more,nonempty,rfl,short,isSimple⟩ := (ih longer _).mp member
        refine ⟨more ++ [edge],by simp,by simp,?_,isSimple⟩
        rw [length_append]
        exact Nat.succ_le_succ short
    · rintro ⟨more,nonempty,rfl,short,isSimple⟩
      rcases List.eq_nil_or_concat more with rfl | ⟨more,edge,rfl⟩
      · exact absurd rfl nonempty
      rw [concat_eq_append,append_assoc,singleton_append] at isSimple ⊢
      have longer := isSimple.of_append
      obtain ⟨isOutgoing,fresh,-⟩ := simple_cons.mp longer
      refine ⟨edge,mem_reverse.mpr (mem_filter.mpr ⟨isOutgoing,decide_eq_true fresh⟩),?_⟩
      rw [concat_eq_append,length_append] at short
      rcases more with - | ⟨first,more⟩
      · exact mem_cons_self
      · exact mem_cons_of_mem _ ((ih longer _).mpr ⟨first :: more,cons_ne_nil _ _,rfl,Nat.le_of_succ_le_succ short,isSimple⟩)

theorem nodup_extensions (distinct : ∀ node,(outgoing node).Nodup) (simple : Simple outgoing source path) (length : Nat) :
    (extensions outgoing source length path).Nodup := by
  induction length generalizing path with
  | zero => exact nodup_nil
  | succ length ih =>
    -- Every path of a part ends with the edge of this part.
    have ends : ∀ edge,edge ∈ outgoing (last source path) → edge.end_ ∉ nodes source path →
        ∀ path' ∈ (edge :: path) :: extensions outgoing source length (edge :: path),∃ more,path' = more ++ edge :: path := by
      intro edge isOutgoing fresh path' member
      rcases mem_cons.mp member with rfl | member
      · exact ⟨[],rfl⟩
      · obtain ⟨more,-,rfl,-⟩ := (mem_extensions (simple_cons.mpr ⟨isOutgoing,fresh,simple⟩) length path').mp member
        exact ⟨more,rfl⟩
    rw [extensions,nodup_flatMap]
    refine ⟨fun edge isEdge => ?_,?_⟩
    · obtain ⟨isOutgoing,fresh⟩ := mem_filter.mp (mem_reverse.mp isEdge)
      have longer := simple_cons.mpr ⟨isOutgoing,of_decide_eq_true fresh,simple⟩
      refine nodup_cons.mpr ⟨fun member => ?_,ih longer⟩
      obtain ⟨more,nonempty,same,-⟩ := (mem_extensions longer length _).mp member
      exact nonempty (append_left_eq_self.mp same.symm)
    · refine pairwise_reverse.mpr (((distinct _).filter _).imp_of_mem (fun {edge edge'} isEdge isEdge' different => ?_))
      obtain ⟨isOutgoing,fresh⟩ := mem_filter.mp isEdge
      obtain ⟨isOutgoing',fresh'⟩ := mem_filter.mp isEdge'
      intro path' member' member
      obtain ⟨more,rfl⟩ := ends edge isOutgoing (of_decide_eq_true fresh) _ member
      obtain ⟨more',same⟩ := ends edge' isOutgoing' (of_decide_eq_true fresh') _ member'
      have sameEdge := append_inj_right' same rfl
      exact different (List.cons.inj sameEdge).1

variable {allNodes : Finset Id}

omit [LinearOrder Id] in
theorem Simple.length_lt [DecidableEq Id] (simple : Simple outgoing source path) (inside : ∀ node ∈ nodes source path,node ∈ allNodes) :
    path.length < allNodes.card := by
  have card := Finset.card_le_card (show (nodes source path).toFinset ⊆ allNodes from fun node member => inside node (mem_toFinset.mp member))
  rw [toFinset_card_of_nodup simple.nodup,nodes,length_append,length_map] at card
  exact card

end Paths

section Frames
variable {outgoing : Id → List (Edge Id)} {source : Id} {targets : Finset Id} {search next : Search Id}

abbrev Frame (Id : Type) := Edge Id × List (Edge Id)

def pathOf (frames : List (Frame Id)) : List (Edge Id) := frames.map Prod.fst

def stackOf (frames : List (Frame Id)) (root : List (Edge Id)) : List (Edge Id) := frames.flatMap Prod.snd ++ root

inductive Pops : List (Frame Id) → List (Edge Id) → Edge Id → List (Frame Id) → List (Edge Id) → List (Edge Id) → Prop
  | top (edge : Edge Id) (pending : List (Edge Id)) (popped : Edge Id) (frames : List (Frame Id)) (root : List (Edge Id)) :
    Pops ((edge,popped :: pending) :: frames) root popped ((edge,pending) :: frames) root []
  | root (popped : Edge Id) (root : List (Edge Id)) : Pops [] (popped :: root) popped [] root []
  | leave (edge : Edge Id) {frames : List (Frame Id)} {root : List (Edge Id)} {popped : Edge Id} {kept : List (Frame Id)} {root' left : List (Edge Id)} :
    Pops frames root popped kept root' left → Pops ((edge,[]) :: frames) root popped kept root' (edge :: left)

omit [LinearOrder Id] in
theorem exists_pops {frames : List (Frame Id)} {root : List (Edge Id)} {popped : Edge Id} {rest : List (Edge Id)}
    (isStack : stackOf frames root = popped :: rest) : ∃ kept root' left,Pops frames root popped kept root' left ∧ rest = stackOf kept root' := by
  induction frames with
  | nil =>
    cases isStack
    exact ⟨[],rest,[],.root _ _,rfl⟩
  | cons frame frames ih =>
    obtain ⟨edge,pending⟩ := frame
    cases pending with
    | nil =>
      obtain ⟨kept,root',left,pops,isRest⟩ := ih isStack
      exact ⟨kept,root',edge :: left,.leave edge pops,isRest⟩
    | cons first pending =>
      cases isStack
      exact ⟨(edge,pending) :: frames,root,[],.top _ _ _ _ _,rfl⟩

variable (outgoing source) in
def Pending : List (Frame Id) → List (Edge Id) → Prop
  | [],root => ∀ edge ∈ root,edge ∈ outgoing source
  | (edge,pending) :: frames,root => (∀ edge' ∈ pending,edge' ∈ outgoing edge.end_) ∧ Pending frames root

variable {frames kept : List (Frame Id)} {root root' left : List (Edge Id)} {popped : Edge Id}

section
omit [LinearOrder Id]

theorem Pops.path_eq (pops : Pops frames root popped kept root' left) : pathOf frames = left ++ pathOf kept := by
  induction pops with
  | top | root => rfl
  | leave edge _ ih => exact congrArg (List.cons edge) ih

theorem Pops.pending (pops : Pops frames root popped kept root' left) (pending : Pending outgoing source frames root) :
    popped ∈ outgoing (last source (pathOf kept)) ∧ Pending outgoing source kept root' := by
  induction pops with
  | top edge others popped frames root =>
    obtain ⟨first,rest⟩ := pending
    exact ⟨first popped mem_cons_self,fun edge' member => first edge' (mem_cons_of_mem _ member),rest⟩
  | root popped root => exact ⟨pending popped mem_cons_self,fun edge' member => pending edge' (mem_cons_of_mem _ member)⟩
  | leave edge _ ih => exact ih pending.2

end

theorem backtrack_append {left kept : List (Edge Id)} {start : Id} (isLast : last source kept = start) (distinct : (nodes source (left ++ kept)).Nodup)
    (visited : Finset Id) : backtrack start (left ++ kept) visited = (kept,visited \ (left.map Edge.end_).toFinset) := by
  induction left generalizing visited with
  | nil =>
    rw [nil_append,map_nil,toFinset_nil,Finset.sdiff_empty]
    cases kept with
    | nil => rfl
    | cons edge kept => exact if_neg (not_not.mpr isLast.symm)
  | cons edge left ih =>
    obtain ⟨fresh,rest⟩ := nodup_cons.mp distinct
    have notLast : start ≠ edge.end_ := by
      intro same
      refine fresh (mem_append.mpr ?_)
      rw [← same,← isLast]
      cases kept with
      | nil => exact .inr (mem_singleton_self _)
      | cons first kept => exact .inl (List.mem_map.mpr ⟨first,mem_append_right _ mem_cons_self,rfl⟩)
    rw [cons_append,backtrack,if_pos notLast,ih rest,map_cons,toFinset_cons]
    refine Prod.ext rfl ?_
    change visited.erase edge.end_ \ _ = visited \ insert edge.end_ _
    rw [Finset.sdiff_insert,Finset.erase_sdiff_comm]

variable (targets source) in
def wanted (path : List (Edge Id)) : Bool := targets = ∅ ∨ last source path ∈ targets

structure Framed (outgoing : Id → List (Edge Id)) (source : Id) (frames : List (Frame Id)) (root : List (Edge Id)) (search : Search Id) : Prop where
  path : search.currentPath = pathOf frames
  stack : search.edgeStack = stackOf frames root
  pending : Pending outgoing source frames root

def unvisited (outgoing : Id → List (Edge Id)) (visited : Finset Id) (node : Id) : List (Edge Id) :=
  ((outgoing node).filter (fun edge => edge.end_ ∉ visited)).reverse

theorem Framed.step (starts : ∀ node,∀ edge ∈ outgoing node,edge.start = node) (framed : Framed outgoing source frames root search)
    (distinct : (nodes source (pathOf frames)).Nodup) (isNext : step outgoing targets none search = some next) :
    ∃ popped kept root' left,Pops frames root popped kept root' left ∧
      next.visited = insert popped.end_ search.visited \ (left.map Edge.end_).toFinset ∧
      next.result = search.result ++ ([popped :: pathOf kept].filter (wanted source targets)).map reverse ∧
      Framed outgoing source ((popped,unvisited outgoing next.visited popped.end_) :: kept) root' next ∧
      search.edgeStack = popped :: stackOf kept root' := by
  rw [PathSearch.step] at isNext
  cases isStack : search.edgeStack with
  | nil =>
    rw [isStack] at isNext
    cases isNext
  | cons popped rest =>
    obtain ⟨kept,root',left,pops,rfl⟩ := exists_pops (framed.stack.symm.trans isStack)
    obtain ⟨isOutgoing,pending⟩ := pops.pending framed.pending
    have path := framed.path.trans pops.path_eq
    have back := @backtrack_append _ _ source left (pathOf kept) popped.start (starts _ _ isOutgoing).symm (by rw [← pops.path_eq]; exact distinct)
      (insert popped.end_ search.visited)
    simp only [isStack,path,back,any_none,Bool.false_eq_true,if_false,Option.isSome_none,some_inj] at isNext
    subst isNext
    refine ⟨popped,kept,root',left,pops,rfl,?_,⟨rfl,?_,?_,pending⟩,rfl⟩
    · by_cases reached : targets = ∅ ∨ popped.end_ ∈ targets
      · have isWanted : wanted source targets (popped :: pathOf kept) = true := decide_eq_true reached
        rw [filter_cons_of_pos isWanted,filter_nil]
        exact if_pos reached
      · have notWanted : ¬wanted source targets (popped :: pathOf kept) = true := fun isWanted => reached (of_decide_eq_true isWanted)
        rw [filter_cons_of_neg notWanted,filter_nil,map_nil,append_nil]
        exact if_neg reached
    · simp only [stackOf,flatMap_cons,append_assoc,unvisited]
    · intro edge member
      exact (mem_filter.mp (mem_reverse.mp member)).1

variable (outgoing source) in
def OnCycle (path : List (Edge Id)) (edge : Edge Id) : Prop :=
  ∃ back cycle,IsPath outgoing source (back :: (cycle ++ edge :: path)) ∧ back.end_ = edge.end_ ∧
    ((back :: cycle).map Edge.end_ ++ nodes source path).Nodup

variable (outgoing source) in
/-- The edge on the top of the stack does not lead to a node of the branch that is left for it, or this node is on no cycle that avoids the rest. -/
def LeavesNoCycle (search : Search Id) : Prop :=
  ∀ edge rest,search.edgeStack = edge :: rest →
    edge.end_ ∈ (search.currentPath.takeWhile (fun edge' => edge'.end_ ≠ edge.start)).map Edge.end_ →
      ¬OnCycle outgoing source (search.currentPath.dropWhile (fun edge' => edge'.end_ ≠ edge.start)) edge

theorem takeWhile_left {left kept : List (Edge Id)} {start : Id} (isLast : last source kept = start) (distinct : (nodes source (left ++ kept)).Nodup) :
    (left ++ kept).takeWhile (fun edge => edge.end_ ≠ start) = left ∧ (left ++ kept).dropWhile (fun edge => edge.end_ ≠ start) = kept := by
  have notLast : ∀ edge ∈ left,decide (edge.end_ ≠ start) = true := by
    intro edge member
    refine decide_eq_true (fun same => ?_)
    rw [nodes,map_append,append_assoc] at distinct
    refine (nodup_append.mp distinct).2.2 edge.end_ (List.mem_map.mpr ⟨edge,member,rfl⟩) start ?_ same
    rw [← isLast]
    cases kept with
    | nil => exact mem_singleton_self _
    | cons first kept => exact mem_cons_self
  have stops : kept.takeWhile (fun edge => edge.end_ ≠ start) = [] ∧ kept.dropWhile (fun edge => edge.end_ ≠ start) = kept := by
    cases kept with
    | nil => exact ⟨rfl,rfl⟩
    | cons first kept =>
      have isStart : ¬decide (first.end_ ≠ start) = true := fun different => of_decide_eq_true different isLast
      exact ⟨takeWhile_cons_of_neg isStart,dropWhile_cons_of_neg isStart⟩
  rw [takeWhile_append_of_pos notLast,dropWhile_append_of_pos notLast,stops.1,stops.2,append_nil]
  exact ⟨rfl,rfl⟩

variable (outgoing source) in
def Fresh : List (Frame Id) → List (Edge Id) → Prop
  | [],root => ∀ edge ∈ root,edge.end_ ≠ source
  | (edge,pending) :: frames,root => (∀ edge' ∈ pending,edge'.end_ ∉ nodes source (edge :: pathOf frames)) ∧ Fresh frames root

omit [LinearOrder Id] in
theorem Pops.fresh (pops : Pops frames root popped kept root' left) (fresh : Fresh source frames root) :
    popped.end_ ∉ nodes source (pathOf kept) ∧ Fresh source kept root' := by
  induction pops with
  | top edge others popped frames root =>
    obtain ⟨first,rest⟩ := fresh
    exact ⟨first popped mem_cons_self,fun edge' member => first edge' (mem_cons_of_mem _ member),rest⟩
  | root popped root =>
    refine ⟨fun member => fresh popped mem_cons_self (mem_singleton.mp member),fun edge' member => fresh edge' (mem_cons_of_mem _ member)⟩
  | leave edge _ ih => exact ih fresh.2

variable (outgoing source) in
def subtree (size : Nat) (path : List (Edge Id)) : List (List (Edge Id)) := path :: extensions outgoing source (size - path.length) path

variable (outgoing source) in
def todo (size : Nat) : List (Frame Id) → List (Edge Id) → List (List (Edge Id))
  | [],root => root.flatMap (fun edge => subtree outgoing source size [edge])
  | (edge,pending) :: frames,root =>
    pending.flatMap (fun edge' => subtree outgoing source size (edge' :: edge :: pathOf frames)) ++ todo size frames root

theorem Pops.todo_eq (pops : Pops frames root popped kept root' left) (size : Nat) :
    todo outgoing source size frames root = subtree outgoing source size (popped :: pathOf kept) ++ todo outgoing source size kept root' := by
  induction pops with
  | top edge others popped frames root => rw [todo,todo,flatMap_cons,append_assoc]; rfl
  | root popped root => rw [todo,todo,flatMap_cons]; rfl
  | leave edge _ ih => rw [todo,flatMap_nil,nil_append,ih]

end Frames

section Complete
variable {outgoing : Id → List (Edge Id)} {source : Id} {targets : Finset Id} {search next : Search Id} {frames : List (Frame Id)} {root : List (Edge Id)}
  {allNodes : Finset Id}

/-- What holds while no branch leaves a cycle: the visited nodes are those of the path, but for some that are on no cycle, and the paths that are found
and still to be found are all paths. -/
structure Clean (outgoing : Id → List (Edge Id)) (source : Id) (targets : Finset Id) (size : Nat) (frames : List (Frame Id)) (root : List (Edge Id))
    (search : Search Id) : Prop where
  framed : Framed outgoing source frames root search
  fresh : Fresh source frames root
  simple : Simple outgoing source (pathOf frames)
  sourceVisited : source ∈ search.visited
  visited : ∀ node ∈ search.visited,node ∈ nodes source (pathOf frames)
  missing : ∀ more edge path,pathOf frames = more ++ edge :: path → edge.end_ ∉ search.visited → ¬OnCycle outgoing source path edge
  found : search.result ++ ((todo outgoing source size frames root).filter (wanted source targets)).map reverse =
    ((extensions outgoing source size []).filter (wanted source targets)).map reverse

variable {path : List (Edge Id)} {visited : Finset Id}

theorem mem_visited_iff (simple : Simple outgoing source path) (sourceVisited : source ∈ visited)
    (inside : ∀ node ∈ visited,node ∈ nodes source path)
    (missing : ∀ more edge path',path = more ++ edge :: path' → edge.end_ ∉ visited → ¬OnCycle outgoing source path' edge) {edge : Edge Id}
    (isOutgoing : edge ∈ outgoing (last source path)) : edge.end_ ∈ visited ↔ edge.end_ ∈ nodes source path := by
  refine ⟨inside _,fun member => ?_⟩
  by_contra notVisited
  rcases mem_append.mp member with isEnd | isSource
  · obtain ⟨edge',isEdge',sameEnd⟩ := List.mem_map.mp isEnd
    obtain ⟨more,path',rfl⟩ := append_of_mem isEdge'
    refine missing more edge' path' rfl (by rw [sameEnd]; exact notVisited) ⟨edge,more,⟨isOutgoing,simple.isPath⟩,sameEnd.symm,?_⟩
    -- The nodes of the cycle are those of the path from the node on.
    have distinct := simple.nodup
    rw [nodes,map_append,map_cons,append_assoc,cons_append,nodup_middle,sameEnd] at distinct
    rw [map_cons,cons_append]
    exact distinct
  · rw [mem_singleton.mp isSource] at notVisited
    exact notVisited sourceVisited

omit [LinearOrder Id] in
theorem simple_mem_allNodes (inside : ∀ node,∀ edge ∈ outgoing node,edge.end_ ∈ allNodes) (isNode : source ∈ allNodes)
    (simple : Simple outgoing source path) : ∀ node ∈ nodes source path,node ∈ allNodes := by
  intro node member
  induction path with
  | nil =>
    rw [mem_singleton.mp member]
    exact isNode
  | cons edge path ih =>
    obtain ⟨isOutgoing,-,simple⟩ := simple_cons.mp simple
    rcases mem_cons.mp member with rfl | member
    · exact inside _ _ isOutgoing
    · exact ih simple member

theorem extensions_eq_flatMap (simple : Simple outgoing source path) (inside : ∀ node ∈ nodes source path,node ∈ allNodes)
    (same : ∀ edge ∈ outgoing (last source path),edge.end_ ∈ visited ↔ edge.end_ ∈ nodes source path) :
    extensions outgoing source (allNodes.card - path.length) path =
      (unvisited outgoing visited (last source path)).flatMap (fun edge => subtree outgoing source allNodes.card (edge :: path)) := by
  have shorter := simple.length_lt inside
  obtain ⟨rest,isRest⟩ : ∃ rest,allNodes.card - path.length = rest + 1 := ⟨allNodes.card - path.length - 1,by omega⟩
  have sameEdges : (outgoing (last source path)).filter (fun edge => edge.end_ ∉ nodes source path) =
      (outgoing (last source path)).filter (fun edge => edge.end_ ∉ visited) :=
    filter_congr (fun edge member => by simp only [same edge member])
  rw [isRest,extensions,sameEdges,unvisited]
  refine flatMap_congr (fun edge _ => ?_)
  have short : allNodes.card - (edge :: path).length = rest := by
    rw [length_cons]
    omega
  rw [subtree,short]

theorem Clean.step (starts : ∀ node,∀ edge ∈ outgoing node,edge.start = node) (inside : ∀ node,∀ edge ∈ outgoing node,edge.end_ ∈ allNodes)
    (isNode : source ∈ allNodes) (clean : Clean outgoing source targets allNodes.card frames root search) (leaves : LeavesNoCycle outgoing source search)
    (isNext : PathSearch.step outgoing targets none search = some next) :
    ∃ frames' root',Clean outgoing source targets allNodes.card frames' root' next ∧
      (todo outgoing source allNodes.card frames' root').length < (todo outgoing source allNodes.card frames root).length := by
  obtain ⟨framed,fresh,simple,sourceVisited,visited,missing,found⟩ := clean
  obtain ⟨popped,kept,root',left,pops,isVisited,isResult,framed',isStack⟩ := framed.step starts simple.nodup isNext
  obtain ⟨isFresh,fresh'⟩ := pops.fresh fresh
  obtain ⟨isOutgoing,pending⟩ := pops.pending framed.pending
  rw [pops.path_eq] at simple visited missing
  have simple' : Simple outgoing source (popped :: pathOf kept) := simple_cons.mpr ⟨isOutgoing,isFresh,simple.of_append⟩
  have distinct := simple.nodup
  rw [nodes,map_append,append_assoc] at distinct
  obtain ⟨-,-,apart⟩ := nodup_append.mp distinct
  have notLeft : ∀ node ∈ nodes source (pathOf kept),node ∉ left.map Edge.end_ := fun node member isLeft => apart node isLeft node member rfl
  have mem_visited : ∀ node,node ∈ next.visited ↔ (node = popped.end_ ∨ node ∈ search.visited) ∧ node ∉ left.map Edge.end_ := by
    intro node
    rw [isVisited,mem_sdiff,mem_insert,mem_toFinset]
  have sourceVisited' : source ∈ next.visited :=
    (mem_visited source).mpr ⟨.inr sourceVisited,notLeft source (mem_append_right _ (mem_singleton_self _))⟩
  have visited' : ∀ node ∈ next.visited,node ∈ nodes source (popped :: pathOf kept) := by
    intro node member
    obtain ⟨isPopped | isOld,notLeft⟩ := (mem_visited node).mp member
    · rw [isPopped]
      exact mem_cons_self
    · have onPath := visited node isOld
      rw [nodes,map_append,append_assoc] at onPath
      exact mem_cons_of_mem _ ((mem_append.mp onPath).resolve_left notLeft)
  have missing' : ∀ more edge path,popped :: pathOf kept = more ++ edge :: path → edge.end_ ∉ next.visited → ¬OnCycle outgoing source path edge := by
    intro more edge path isPath notVisited
    cases more with
    | nil =>
      cases isPath
      have isLeft : popped.end_ ∈ left.map Edge.end_ := by
        by_contra notLeft
        exact notVisited ((mem_visited _).mpr ⟨.inl rfl,notLeft⟩)
      have branch := @takeWhile_left _ _ source left (pathOf kept) popped.start (starts _ _ isOutgoing).symm simple.nodup
      have condition := leaves popped _ isStack
      rw [framed.path,pops.path_eq,branch.1,branch.2] at condition
      exact condition isLeft
    | cons first more =>
      have isKept : pathOf kept = more ++ edge :: path := (List.cons.inj isPath).2
      refine missing (left ++ more) edge path (by rw [isKept,append_assoc]) (fun isOld => notVisited ((mem_visited _).mpr ⟨.inr isOld,?_⟩))
      refine notLeft _ (mem_append_left _ (List.mem_map.mpr ⟨edge,?_,rfl⟩))
      rw [isKept]
      exact mem_append_right _ mem_cons_self
  have sameVisited : ∀ edge ∈ outgoing (last source (popped :: pathOf kept)),edge.end_ ∈ next.visited ↔ edge.end_ ∈ nodes source (popped :: pathOf kept) :=
    fun edge isOutgoing => mem_visited_iff simple' sourceVisited' visited' missing' isOutgoing
  have todo_eq : todo outgoing source allNodes.card frames root =
      (popped :: pathOf kept) :: todo outgoing source allNodes.card ((popped,unvisited outgoing next.visited popped.end_) :: kept) root' := by
    rw [pops.todo_eq,subtree,extensions_eq_flatMap simple' (simple_mem_allNodes inside isNode simple') sameVisited,todo,cons_append]
    rfl
  refine ⟨(popped,unvisited outgoing next.visited popped.end_) :: kept,root',⟨framed',⟨fun edge member => ?_,fresh'⟩,simple',sourceVisited',visited',missing',?_⟩,?_⟩
  · obtain ⟨isOutgoing,notVisited⟩ := mem_filter.mp (mem_reverse.mp member)
    exact fun onPath => of_decide_eq_true notVisited ((sameVisited edge isOutgoing).mpr onPath)
  · rw [← found,todo_eq,isResult,append_assoc,← map_append,← filter_append]
    rfl
  · rw [todo_eq,length_cons]
    exact Nat.lt_succ_self _

theorem todo_of_stack_eq_nil (size : Nat) (empty : stackOf frames root = []) : todo outgoing source size frames root = [] := by
  induction frames with
  | nil =>
    have noRoot : root = [] := empty
    rw [todo,noRoot,flatMap_nil]
  | cons frame frames ih =>
    obtain ⟨edge,pending⟩ := frame
    obtain ⟨nonePending,rest⟩ := append_eq_nil_iff.mp ((append_assoc pending _ root).symm.trans empty)
    rw [todo,nonePending,flatMap_nil,nil_append]
    exact ih rest

theorem stack_of_last (isLast : step outgoing targets none search = none) : search.edgeStack = [] := by
  rw [step] at isLast
  split at isLast
  next isStack => exact isStack
  next => simp at isLast

theorem Clean.finish (starts : ∀ node,∀ edge ∈ outgoing node,edge.start = node) (inside : ∀ node,∀ edge ∈ outgoing node,edge.end_ ∈ allNodes)
    (isNode : source ∈ allNodes) (amount : Nat) (clean : Clean outgoing source targets allNodes.card frames root search)
    (leaves : ∀ search',Steps (PathSearch.step outgoing targets none) search search' → LeavesNoCycle outgoing source search')
    (enough : (todo outgoing source allNodes.card frames root).length < amount) :
    ∃ fuel final,loop (PathSearch.step outgoing targets none) fuel search = some final ∧
      final.result = ((extensions outgoing source allNodes.card []).filter (wanted source targets)).map reverse := by
  induction amount generalizing frames root search with
  | zero => exact absurd enough (Nat.not_lt_zero _)
  | succ amount ih =>
    cases isNext : PathSearch.step outgoing targets none search with
    | none =>
      refine ⟨1,search,by rw [loop,isNext],?_⟩
      have empty := clean.framed.stack.symm.trans (stack_of_last isNext)
      have found := clean.found
      rw [todo_of_stack_eq_nil _ empty,filter_nil,map_nil,append_nil] at found
      exact found
    | some next =>
      obtain ⟨frames',root',clean',shorter⟩ := clean.step starts inside isNode (leaves search .refl) isNext
      obtain ⟨fuel,final,isFinal,result⟩ := ih clean' (fun search' steps => leaves search' (.head isNext steps)) (by omega)
      exact ⟨fuel + 1,final,by rw [loop,isNext]; exact isFinal,result⟩

theorem clean_start (isNode : source ∈ allNodes)
    (noLoop : ∀ edge ∈ outgoing source,edge.end_ ≠ source) :
    Clean outgoing source targets allNodes.card [] (outgoing source).reverse (start outgoing source) := by
  have simple : Simple outgoing source [] := ⟨trivial,nodup_singleton _⟩
  have onNodes : ∀ node ∈ nodes source [],node ∈ allNodes := by
    intro node member
    rw [mem_singleton.mp member]
    exact isNode
  have same : ∀ edge ∈ outgoing (last source []),edge.end_ ∈ ({source} : Finset Id) ↔ edge.end_ ∈ nodes source [] := by
    intro edge _
    rw [Finset.mem_singleton,nodes,map_nil,nil_append,mem_singleton]
  have allUnvisited : unvisited outgoing {source} (last source []) = (outgoing source).reverse := by
    have allEdges : (outgoing source).filter (fun edge => edge.end_ ∉ ({source} : Finset Id)) = outgoing source :=
      filter_eq_self.mpr (fun edge member => decide_eq_true (fun isSource => noLoop edge member (Finset.mem_singleton.mp isSource)))
    exact congrArg reverse allEdges
  refine ⟨⟨rfl,rfl,fun edge member => mem_reverse.mp member⟩,fun edge member => noLoop edge (mem_reverse.mp member),simple,
    Finset.mem_singleton_self _,fun node member => ?_,fun more edge path isPath => ?_,?_⟩
  · rw [Finset.mem_singleton.mp member]
    exact mem_singleton_self _
  · have nonempty := congrArg List.length isPath
    rw [length_append] at nonempty
    exact absurd nonempty (by simp [pathOf])
  · have all := extensions_eq_flatMap simple onNodes same
    rw [allUnvisited,length_nil,Nat.sub_zero] at all
    rw [all]
    rfl

end Complete

section Necessary
variable {outgoing : Id → List (Edge Id)} {source : Id} {search next final : Search Id} {frames : List (Frame Id)} {root : List (Edge Id)}

theorem step_found (isNext : step outgoing ∅ none search = some next) :
    next.currentPath.reverse ∈ next.result ∧ search.result <+: next.result ∧
      ∃ popped rest,search.edgeStack = popped :: rest ∧ rest <:+ next.edgeStack ∧ ∃ path,next.currentPath = popped :: path := by
  rw [step] at isNext
  cases isStack : search.edgeStack with
  | nil =>
    rw [isStack] at isNext
    cases isNext
  | cons popped rest =>
    simp only [isStack,any_none,Bool.false_eq_true,if_false,true_or,if_true,some_inj] at isNext
    subst isNext
    exact ⟨mem_append_right _ (mem_singleton_self _),prefix_append _ _,popped,rest,rfl,suffix_append _ _,_,rfl⟩

theorem result_grows (steps : Steps (step outgoing ∅ none) search next) : search.result <+: next.result := by
  induction steps with
  | refl => exact prefix_refl _
  | tail _ isNext ih => exact ih.trans (step_found isNext).2.1

variable {edge : Edge Id} {fuel : Nat}

theorem exists_popped (done : loop (step outgoing ∅ none) fuel search = some final) (member : edge ∈ search.edgeStack) :
    ∃ search' path,Steps (step outgoing ∅ none) search search' ∧ search'.currentPath = edge :: path := by
  induction fuel generalizing search with
  | zero => cases done
  | succ fuel ih =>
    rw [loop] at done
    cases isNext : step outgoing ∅ none search with
    | none =>
      rw [stack_of_last isNext] at member
      exact absurd member not_mem_nil
    | some next =>
      rw [isNext] at done
      obtain ⟨-,-,popped,rest,isStack,keeps,path,isPath⟩ := step_found isNext
      rw [isStack] at member
      rcases mem_cons.mp member with rfl | later
      · exact ⟨next,path,.single isNext,isPath⟩
      · obtain ⟨search',path',steps,isPath'⟩ := ih done (keeps.subset later)
        exact ⟨search',path',.head isNext steps,isPath'⟩

structure Tracked (outgoing : Id → List (Edge Id)) (source : Id) (frames : List (Frame Id)) (root : List (Edge Id)) (search : Search Id) : Prop where
  framed : Framed outgoing source frames root search
  visited : ∀ node ∈ search.visited,node ∈ nodes source (pathOf frames)

theorem Tracked.step (starts : ∀ node,∀ edge ∈ outgoing node,edge.start = node) (tracked : Tracked outgoing source frames root search)
    (distinct : (nodes source search.currentPath).Nodup) (isNext : step outgoing ∅ none search = some next) :
    ∃ popped kept root' left,Pops frames root popped kept root' left ∧ search.edgeStack = popped :: stackOf kept root' ∧
      next.visited = insert popped.end_ search.visited \ (left.map Edge.end_).toFinset ∧
      Tracked outgoing source ((popped,unvisited outgoing next.visited popped.end_) :: kept) root' next := by
  rw [tracked.framed.path] at distinct
  obtain ⟨popped,kept,root',left,pops,isVisited,-,framed,isStack⟩ := tracked.framed.step starts distinct isNext
  refine ⟨popped,kept,root',left,pops,isStack,isVisited,framed,fun node member => ?_⟩
  rw [isVisited,mem_sdiff,mem_insert,mem_toFinset] at member
  obtain ⟨rfl | isOld,notLeft⟩ := member
  · exact mem_cons_self
  · have onPath := tracked.visited node isOld
    rw [pops.path_eq,nodes,map_append,append_assoc] at onPath
    exact mem_cons_of_mem _ ((mem_append.mp onPath).resolve_left notLeft)

omit [LinearOrder Id] in
theorem Pops.of_append {top bottom kept : List (Frame Id)} {popped : Edge Id} {pending root' left : List (Edge Id)} (nonempty : pending ≠ [])
    (pops : Pops (top ++ (edge,pending) :: bottom) root popped kept root' left) :
    root' = root ∧ ((∃ top',kept = top' ++ (edge,pending) :: bottom) ∨ ∃ pending',pending = popped :: pending' ∧ kept = (edge,pending') :: bottom) := by
  induction top generalizing left with
  | nil =>
    cases pops with
    | top => exact ⟨rfl,.inr ⟨_,rfl,rfl⟩⟩
    | leave => exact absurd rfl nonempty
  | cons frame top ih =>
    cases pops with
    | top edge' others => exact ⟨rfl,.inl ⟨(edge',others) :: top,rfl⟩⟩
    | leave edge' pops => exact ih pops

variable (starts : ∀ node,∀ edge ∈ outgoing node,edge.start = node)
  (allSimple : ∀ search,Steps (step outgoing ∅ none) (start outgoing source) search → (nodes source search.currentPath).Nodup)
include starts allSimple

theorem exists_tracked (steps : Steps (step outgoing ∅ none) (start outgoing source) search) : ∃ frames root,Tracked outgoing source frames root search := by
  induction steps with
  | refl =>
    refine ⟨[],(outgoing source).reverse,⟨rfl,rfl,fun edge member => mem_reverse.mp member⟩,fun node member => ?_⟩
    rw [Finset.mem_singleton.mp member]
    exact mem_singleton_self _
  | tail steps isNext ih =>
    obtain ⟨frames,root,tracked⟩ := ih
    obtain ⟨popped,kept,root',left,-,-,-,tracked'⟩ := tracked.step starts (allSimple _ steps) isNext
    exact ⟨_,_,tracked'⟩

theorem comes_back {top bottom : List (Frame Id)} {following : Edge Id} {pending : List (Edge Id)} {node : Id}
    (steps : Steps (step outgoing ∅ none) (start outgoing source) search)
    (tracked : Tracked outgoing source (top ++ (edge,pending) :: bottom) root search) (member : following ∈ pending)
    (onPath : node ∈ (edge :: pathOf bottom).map Edge.end_) (notVisited : node ∉ search.visited)
    (done : loop (step outgoing ∅ none) fuel search = some final) :
    ∃ search' pending',Steps (step outgoing ∅ none) (start outgoing source) search' ∧
      Tracked outgoing source ((following,unvisited outgoing search'.visited following.end_) :: (edge,pending') :: bottom) root search' ∧
      node ∉ search'.visited ∧ ∃ fuel,loop (step outgoing ∅ none) fuel search' = some final := by
  induction fuel generalizing search top pending with
  | zero => cases done
  | succ fuel ih =>
    rw [loop] at done
    cases isNext : step outgoing ∅ none search with
    | none =>
      have isStack := stack_of_last isNext
      rw [tracked.framed.stack,stackOf,flatMap_append,flatMap_cons] at isStack
      simp only [append_eq_nil_iff] at isStack
      rw [isStack.1.2.1] at member
      exact absurd member not_mem_nil
    | some next =>
      rw [isNext] at done
      have steps' := steps.tail isNext
      obtain ⟨popped,kept,root',left,pops,-,isVisited,tracked'⟩ := tracked.step starts (allSimple _ steps) isNext
      obtain ⟨rfl,position⟩ := pops.of_append (ne_nil_of_mem member)
      have onKept : node ∈ (pathOf kept).map Edge.end_ := by
        rcases position with ⟨top',rfl⟩ | ⟨pending',-,rfl⟩
        · rw [pathOf,map_append,map_append]
          exact mem_append_right _ onPath
        · exact onPath
      have distinct := allSimple next steps'
      rw [tracked'.framed.path] at distinct
      have notVisited' : node ∉ next.visited := by
        rw [isVisited,mem_sdiff,mem_insert]
        rintro ⟨rfl | isOld,-⟩
        · exact (nodup_cons.mp distinct).1 (mem_append_left _ onKept)
        · exact notVisited isOld
      rcases position with ⟨top',rfl⟩ | ⟨pending',rfl,rfl⟩
      · exact @ih next ((popped,unvisited outgoing next.visited popped.end_) :: top') pending steps' tracked' member notVisited' done
      · rcases mem_cons.mp member with rfl | later
        · exact ⟨next,pending',steps',tracked',notVisited',fuel,done⟩
        · exact @ih next [(popped,unvisited outgoing next.visited popped.end_)] pending' steps' tracked' later notVisited' done

theorem follows {kept : List (Frame Id)} (steps : Steps (step outgoing ∅ none) (start outgoing source) search)
    (tracked : Tracked outgoing source ((edge,unvisited outgoing search.visited edge.end_) :: kept) root search) (notVisited : edge.end_ ∉ search.visited)
    (done : ∃ fuel,loop (step outgoing ∅ none) fuel search = some final) {more : List (Edge Id)}
    (isPath : IsPath outgoing source (more ++ edge :: pathOf kept)) (distinct : (more.map Edge.end_ ++ nodes source (pathOf kept)).Nodup) :
    ∃ search' edge' bottom,Steps (step outgoing ∅ none) (start outgoing source) search' ∧
      Tracked outgoing source ((edge',unvisited outgoing search'.visited edge'.end_) :: bottom) root search' ∧
      edge' :: pathOf bottom = more ++ edge :: pathOf kept ∧ edge.end_ ∉ search'.visited ∧ ∃ fuel,loop (step outgoing ∅ none) fuel search' = some final := by
  induction more with
  | nil => exact ⟨search,edge,kept,steps,tracked,rfl,notVisited,done⟩
  | cons following more ih =>
    obtain ⟨isOutgoing,isPath⟩ := isPath
    obtain ⟨notLater,distinct⟩ := nodup_cons.mp distinct
    obtain ⟨search',edge',bottom,steps',tracked',isPath',notVisited',fuel,done'⟩ := ih isPath distinct
    have isUnvisited : following ∈ unvisited outgoing search'.visited edge'.end_ := by
      have isLast : edge'.end_ = last source (more ++ edge :: pathOf kept) := by
        rw [← isPath']
        rfl
      refine mem_reverse.mpr (mem_filter.mpr ⟨by rw [isLast]; exact isOutgoing,decide_eq_true (fun isVisited => ?_)⟩)
      have onPath := tracked'.visited _ isVisited
      change following.end_ ∈ nodes source (edge' :: pathOf bottom) at onPath
      rw [isPath',nodes,map_append,append_assoc] at onPath
      rcases mem_append.mp onPath with inMore | fromEdge
      · exact notLater (mem_append_left _ inMore)
      · rcases mem_cons.mp fromEdge with isEdge | isKept
        · rw [isEdge] at isVisited
          exact notVisited' isVisited
        · exact notLater (mem_append_right _ isKept)
    have onPath : edge.end_ ∈ (edge' :: pathOf bottom).map Edge.end_ := by
      rw [isPath']
      exact List.mem_map.mpr ⟨edge,mem_append_right _ mem_cons_self,rfl⟩
    obtain ⟨search'',pending',steps'',tracked'',notVisited'',done''⟩ :=
      @comes_back _ _ _ _ _ _ _ edge' fuel starts allSimple [] bottom following _ edge.end_ steps' tracked' isUnvisited onPath notVisited' done'
    exact ⟨search'',following,(edge',pending') :: bottom,steps'',tracked'',congrArg (List.cons following) isPath',notVisited'',done''⟩

theorem leavesNoCycle_of_allSimple (done : loop (step outgoing ∅ none) fuel (start outgoing source) = some final)
    (steps : Steps (step outgoing ∅ none) (start outgoing source) search) : LeavesNoCycle outgoing source search := by
  intro edge rest isStack isLeft onCycle
  obtain ⟨frames,root,tracked⟩ := exists_tracked starts allSimple steps
  obtain ⟨toLast,isLast⟩ := steps_of_loop done
  cases isNext : step outgoing ∅ none search with
  | none =>
    rw [stack_of_last isNext] at isStack
    cases isStack
  | some next =>
    obtain ⟨popped,kept,root',left,pops,isStack',isVisited,tracked'⟩ := tracked.step starts (allSimple _ steps) isNext
    rw [isStack] at isStack'
    cases isStack'
    have distinct := allSimple _ steps
    rw [tracked.framed.path,pops.path_eq] at distinct
    obtain ⟨isOutgoing,-⟩ := pops.pending tracked.framed.pending
    have branch := @takeWhile_left _ _ source left (pathOf kept) edge.start (starts _ _ isOutgoing).symm distinct
    rw [tracked.framed.path,pops.path_eq,branch.1] at isLeft
    rw [tracked.framed.path,pops.path_eq,branch.2] at onCycle
    have notVisited : edge.end_ ∉ next.visited := by
      rw [isVisited,mem_sdiff,mem_toFinset]
      exact fun ⟨_,notLeft⟩ => notLeft isLeft
    obtain ⟨back,cycle,isPath,sameEnd,distinctCycle⟩ := onCycle
    have toLast' := Steps.to_last (steps.tail isNext) toLast isLast
    obtain ⟨fuel',done'⟩ := loop_of_steps toLast' isLast
    obtain ⟨search',edge',bottom,steps',tracked'',isPath',-⟩ := @follows _ _ _ _ _ _ _ edge starts allSimple kept (steps.tail isNext) tracked' notVisited
      ⟨fuel',done'⟩ (back :: cycle) isPath distinctCycle
    have simple' := allSimple _ steps'
    rw [tracked''.framed.path] at simple'
    change (nodes source (edge' :: pathOf bottom)).Nodup at simple'
    rw [isPath'] at simple'
    refine (nodup_cons.mp simple').1 (mem_append_left _ ?_)
    rw [sameEnd]
    exact List.mem_map.mpr ⟨edge,mem_append_right _ mem_cons_self,rfl⟩

end Necessary

section Result
variable {table : List (Id × Id)} {source : Id} {targets : Finset Id}

def Connects (table : List (Id × Id)) : Id → List (Edge Id) → Prop
  | _,[] => True
  | node,edge :: path => IsEdge table edge ∧ edge.start = node ∧ Connects table edge.end_ path

structure SimplePath (table : List (Id × Id)) (source : Id) (path : List (Edge Id)) : Prop where
  nonempty : path ≠ []
  connects : Connects table source path
  nodup : (source :: path.map Edge.end_).Nodup

def pathEnd (source : Id) (path : List (Edge Id)) : Id := (path.getLast?.map Edge.end_).getD source

def EnumeratesSimplePaths (table : List (Id × Id)) (source : Id) (targets : Finset Id) : Prop :=
  ∃ fuel result,findPaths (outgoingEdes table) targets none fuel source = some result ∧ result.Nodup ∧
    ∀ path,path ∈ result ↔ SimplePath table source path ∧ (targets = ∅ ∨ pathEnd source path ∈ targets)

omit [LinearOrder Id] in
theorem last_reverse (source : Id) (path : List (Edge Id)) : last source path.reverse = pathEnd source path := by
  rw [pathEnd,← head?_reverse]
  cases path.reverse <;> rfl

variable {path : List (Edge Id)}

omit [LinearOrder Id] in
theorem connects_concat {node : Id} {edge : Edge Id} :
    Connects table node (path ++ [edge]) ↔ Connects table node path ∧ IsEdge table edge ∧ edge.start = last node path.reverse := by
  induction path generalizing node with
  | nil => simp [Connects,last]
  | cons first path ih =>
    have sameLast : last node (first :: path).reverse = last first.end_ path.reverse := by
      rw [reverse_cons]
      cases path.reverse <;> rfl
    rw [cons_append,Connects,Connects,ih,sameLast]
    tauto

theorem simplePath_reverse (sorted : table.Pairwise (fun row row' => row.1 ≤ row'.1)) :
    SimplePath table source path.reverse ↔ path ≠ [] ∧ Simple (outgoingEdes table) source path := by
  have connects : Connects table source path.reverse ↔ IsPath (outgoingEdes table) source path := by
    induction path with
    | nil => exact Iff.rfl
    | cons edge path ih =>
      rw [reverse_cons,connects_concat,reverse_reverse,ih,IsPath,mem_outgoingEdes sorted]
      tauto
  have distinct : (source :: path.reverse.map Edge.end_).Nodup ↔ (nodes source path).Nodup := by
    rw [← nodup_reverse,reverse_cons,map_reverse,reverse_reverse]
    rfl
  constructor
  · rintro ⟨nonempty,isPath,nodup⟩
    exact ⟨fun isEmpty => nonempty (by rw [isEmpty]; rfl),connects.mp isPath,distinct.mp nodup⟩
  · rintro ⟨nonempty,isPath,nodup⟩
    exact ⟨fun isEmpty => nonempty (reverse_eq_nil_iff.mp isEmpty),connects.mpr isPath,distinct.mpr nodup⟩

theorem steps_forget {outgoing : Id → List (Edge Id)} {search next : Search Id} (steps : Steps (step outgoing targets none) search next)
    (result : List (List (Edge Id))) :
    ∃ result',Steps (step outgoing ∅ none) {search with result := result} {next with result := result'} := by
  induction steps with
  | refl => exact ⟨result,.refl⟩
  | @tail state next _ isNext ih =>
    obtain ⟨result',steps⟩ := ih
    rw [step] at isNext
    cases isStack : state.edgeStack with
    | nil =>
      rw [isStack] at isNext
      cases isNext
    | cons popped rest =>
      simp only [isStack,any_none,Bool.false_eq_true,if_false,some_inj] at isNext
      subst isNext
      refine ⟨result' ++ [(popped :: (backtrack popped.start state.currentPath (insert popped.end_ state.visited)).1).reverse],steps.tail ?_⟩
      simp only [step,isStack,any_none,Bool.false_eq_true,if_false,true_or,if_true]

def tableNodes (table : List (Id × Id)) (source : Id) : Finset Id := insert source (table.map Prod.snd).toFinset

end Result
end Qlever.PathSearch
