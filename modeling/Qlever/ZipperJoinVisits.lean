import Qlever.ZipperJoin

/-! The control flow of the zipper without its callbacks. A run of the main loop
is a sequence of visits; sortedness alone decides which visits occur, and the
callbacks only decide what a single visit does to the state.
-/
namespace Qlever.ZipperJoin
open List
open Function (comp_def)
variable {ρ σ : Type} [LinearOrder ρ]

inductive Visit (ρ : Type)
  | right (it : Iter ρ) (range : List (Iter ρ)) (hasNoMatch : Bool)
  | left (it : Iter ρ) (range : List (Iter ρ))
  | same (it : Iter ρ) (others : List (Iter ρ))

def visit (cb : Callbacks ρ σ) (s : State σ) : Visit ρ → State σ
  | .right it range hasNoMatch => mergeWithUndefRight cb it range hasNoMatch s
  | .left it range => mergeWithUndefLeft cb it range s
  | .same it others => others.foldl (fun s it2 => act cb it it2 s) (cover cb it s)

def Visit.right? : Visit ρ → Option (Iter ρ)
  | .right it _ _ => some it
  | _ => none

def Visit.left? : Visit ρ → Option (Iter ρ)
  | .left it _ => some it
  | _ => none

def Visit.same? : Visit ρ → Option (Iter ρ)
  | .same it _ => some it
  | _ => none

def Visit.row : Visit ρ → ρ
  | .right it _ _ => it.row
  | .left it _ => it.row
  | .same it _ => it.row

/-- Whether a row of `left` has an equal row in `right`. -/
def hasEqual (right : List (Iter ρ)) (it : Iter ρ) : Bool := right.any (fun other => other.row = it.row)

/-- What sortedness guarantees for a single visit: the range contains all smaller rows
of the other side, the flag tells whether an equal row exists, and `others` are the
equal rows. -/
def Visit.Sound (left right : List (Iter ρ)) : Visit ρ → Prop
  | .right it range hasNoMatch => range <+: right ∧ (∀ other ∈ right, other.row < it.row → other ∈ range) ∧
      hasNoMatch = !hasEqual right it
  | .left it range => range <+: left ∧ ∀ other ∈ left, other.row < it.row → other ∈ range
  | .same it others => others = right.filter (fun other => other.row = it.row)

section
variable (cb : Callbacks ρ σ) (range : List (Iter ρ))

theorem skipLeft_eq (it2 : Iter ρ)
    (passed rest : List (Iter ρ)) (s : State σ) :
    skipLeft cb range it2 passed rest s =
      (passed ++ rest.takeWhile (fun it => it.row < it2.row),rest.dropWhile (fun it => it.row < it2.row),
        ((rest.takeWhile (fun it => it.row < it2.row)).map (Visit.right · range true)).foldl (visit cb) s) := by
  induction rest generalizing passed s with
  | nil => simp [skipLeft]
  | cons it rest ih =>
    by_cases less : it.row < it2.row
    · simp [skipLeft,less,ih,visit]
    · simp [skipLeft,less]

theorem skipRight_eq (it1 : Iter ρ)
    (passed rest : List (Iter ρ)) (s : State σ) :
    skipRight cb range it1 passed rest s =
      (passed ++ rest.takeWhile (fun it => it.row < it1.row),rest.dropWhile (fun it => it.row < it1.row),
        ((rest.takeWhile (fun it => it.row < it1.row)).map (Visit.left · range)).foldl (visit cb) s) := by
  induction rest generalizing passed s with
  | nil => simp [skipRight]
  | cons it rest ih =>
    by_cases less : it.row < it1.row
    · simp [skipRight,less,ih,visit]
    · simp [skipRight,less]

end

open Visit

/-- The invariant of the main loop. The two cursors separate both ranges by value, and
the visits so far are exactly those of the passed rows. -/
structure Progress (cb : Callbacks ρ σ) (left right : List (Iter ρ)) (start : State σ)
    (p : Position ρ σ) (visits : List (Visit ρ)) : Prop where
  split1 : p.passed1 ++ p.rest1 = left
  split2 : p.passed2 ++ p.rest2 = right
  below1 : ∀ a ∈ p.passed1,∀ b ∈ p.rest2,a.row < b.row
  below2 : ∀ b ∈ p.passed2,∀ a ∈ p.rest1,b.row < a.row
  state : p.state = visits.foldl (visit cb) start
  rights : visits.filterMap right? = p.passed1
  lefts : visits.filterMap left? = p.passed2
  sames : visits.filterMap same? = p.passed1.filter (hasEqual right)
  sound : ∀ v ∈ visits,v.Sound left right
  ordered : visits.Pairwise (fun v w => v.row ≤ w.row)

def Sorted (its : List (Iter ρ)) : Prop := its.Pairwise (fun a b => a.row ≤ b.row)

section
variable {cb : Callbacks ρ σ} {left right : List (Iter ρ)} {start : State σ} {p : Position ρ σ} {visits : List (Visit ρ)}

theorem Progress.row_mem (inv : Progress cb left right start p visits) {v : Visit ρ} (member : v ∈ visits) :
    (∃ a ∈ p.passed1,v.row = a.row) ∨ ∃ b ∈ p.passed2,v.row = b.row := by
  cases v with
  | right it range hasNoMatch =>
    have present : it ∈ visits.filterMap right? := mem_filterMap.mpr ⟨_,member,rfl⟩
    rw [inv.rights] at present
    exact Or.inl ⟨it,present,rfl⟩
  | left it range =>
    have present : it ∈ visits.filterMap left? := mem_filterMap.mpr ⟨_,member,rfl⟩
    rw [inv.lefts] at present
    exact Or.inr ⟨it,present,rfl⟩
  | same it others =>
    have present : it ∈ visits.filterMap same? := mem_filterMap.mpr ⟨_,member,rfl⟩
    rw [inv.sames] at present
    exact Or.inl ⟨it,(mem_filter.mp present).1,rfl⟩

theorem Progress.ordered_append {later : List (Visit ρ)} (inv : Progress cb left right start p visits) (sorted : later.Pairwise (fun v w => v.row ≤ w.row))
    (above1 : ∀ a ∈ p.passed1,∀ v ∈ later,a.row ≤ v.row) (above2 : ∀ b ∈ p.passed2,∀ v ∈ later,b.row ≤ v.row) :
    (visits ++ later).Pairwise (fun v w => v.row ≤ w.row) := by
  refine pairwise_append.mpr ⟨inv.ordered,sorted,?_⟩
  intro v old w new
  rcases inv.row_mem old with ⟨a,passed,row⟩ | ⟨b,passed,row⟩
  · rw [row]
    exact above1 a passed w new
  · rw [row]
    exact above2 b passed w new

end

theorem Sorted.le_append {first second : List (Iter ρ)} (sorted : Sorted (first ++ second)) : ∀ a ∈ first,∀ b ∈ second,a.row ≤ b.row :=
  (pairwise_append.mp sorted).2.2

section Steps
variable {cb : Callbacks ρ σ} {left right : List (Iter ρ)} {start : State σ}
  {passed1 rest1 passed2 rest2 : List (Iter ρ)} {s : State σ} {visits : List (Visit ρ)}

theorem Progress.skip1 {skipped rest1' : List (Iter ρ)}
    (inv : Progress cb left right start ⟨passed1,skipped ++ rest1',passed2,rest2,s⟩ visits)
    (below : ∀ a ∈ skipped,∀ b ∈ rest2,a.row < b.row) (sorted : Sorted left) :
    Progress cb left right start ⟨passed1 ++ skipped,rest1',passed2,rest2,
        (skipped.map (Visit.right · passed2 true)).foldl (visit cb) s⟩
      (visits ++ skipped.map (Visit.right · passed2 true)) := by
  have progress := inv
  obtain ⟨split1,split2,below1,below2,state,rights,lefts,sames,sound,_⟩ := inv
  simp only at split1 split2 below1 below2 state rights lefts sames
  have noEqual : ∀ a ∈ skipped,hasEqual right a = false := by
    intro a member
    simp only [hasEqual,any_eq_false,decide_eq_true_eq,← split2,mem_append]
    rintro other (old | new) equal
    · exact (below2 other old a (by simp [member])).ne equal
    · exact (below a member other new).ne' equal
  constructor
  · simpa using split1
  · exact split2
  · intro a member b hb
    rcases mem_append.mp member with old | new
    · exact below1 a old b hb
    · exact below a new b hb
  · exact fun b hb a ha => below2 b hb a (by simp [ha])
  · rw [foldl_append,← state]
  · simp [rights,right?,comp_def,filterMap_map]
  · simp [lefts,left?,comp_def,filterMap_map]
  · have none : skipped.filter (hasEqual right) = [] := by
      simpa [filter_eq_nil_iff] using noEqual
    simp [sames,none,same?,comp_def,filterMap_map]
  · intro v member
    rcases mem_append.mp member with old | new
    · exact sound v old
    · obtain ⟨a,ha,rfl⟩ := List.mem_map.mp new
      refine ⟨⟨rest2,split2⟩,?_,by simp [noEqual a ha]⟩
      intro other present less
      rw [← split2,mem_append] at present
      rcases present with inside | later
      · exact inside
      · exact absurd less (below a ha other later).not_gt
  · rw [← split1] at sorted
    apply progress.ordered_append
    · rw [pairwise_map]
      exact (sorted.sublist (sublist_append_right _ _)).sublist (sublist_append_left _ _)
    · intro a passed v member
      obtain ⟨b,isSkipped,rfl⟩ := List.mem_map.mp member
      exact sorted.le_append a passed b (mem_append_left _ isSkipped)
    · intro b passed v member
      obtain ⟨a,isSkipped,rfl⟩ := List.mem_map.mp member
      exact (below2 b passed a (mem_append_left _ isSkipped)).le

theorem Progress.skip2 {skipped rest2' : List (Iter ρ)}
    (inv : Progress cb left right start ⟨passed1,rest1,passed2,skipped ++ rest2',s⟩ visits)
    (below : ∀ b ∈ skipped,∀ a ∈ rest1,b.row < a.row) (sorted : Sorted right) :
    Progress cb left right start ⟨passed1,rest1,passed2 ++ skipped,rest2',
        (skipped.map (Visit.left · passed1)).foldl (visit cb) s⟩
      (visits ++ skipped.map (Visit.left · passed1)) := by
  have progress := inv
  obtain ⟨split1,split2,below1,below2,state,rights,lefts,sames,sound,_⟩ := inv
  simp only at split1 split2 below1 below2 state rights lefts sames
  constructor
  · exact split1
  · simpa using split2
  · exact fun a ha b hb => below1 a ha b (by simp [hb])
  · intro b member a ha
    rcases mem_append.mp member with old | new
    · exact below2 b old a ha
    · exact below b new a ha
  · rw [foldl_append,← state]
  · simp [rights,right?,comp_def,filterMap_map]
  · simp [lefts,left?,comp_def,filterMap_map]
  · simp [sames,same?,comp_def,filterMap_map]
  · intro v member
    rcases mem_append.mp member with old | new
    · exact sound v old
    · obtain ⟨b,hb,rfl⟩ := List.mem_map.mp new
      refine ⟨⟨rest1,split1⟩,?_⟩
      intro other present less
      rw [← split1,mem_append] at present
      rcases present with inside | later
      · exact inside
      · exact absurd less (below b hb other later).not_gt
  · rw [← split2] at sorted
    apply progress.ordered_append
    · rw [pairwise_map]
      exact (sorted.sublist (sublist_append_right _ _)).sublist (sublist_append_left _ _)
    · intro a passed v member
      obtain ⟨b,isSkipped,rfl⟩ := List.mem_map.mp member
      exact (below1 a passed b (mem_append_left _ isSkipped)).le
    · intro b passed v member
      obtain ⟨b',isSkipped,rfl⟩ := List.mem_map.mp member
      exact sorted.le_append b passed b' (mem_append_left _ isSkipped)

def sameVisits (passed1 passed2 same1 same2 : List (Iter ρ)) : List (Visit ρ) :=
  same1.map (Visit.right · passed2 false) ++ same2.map (Visit.left · passed1) ++
    same1.map (Visit.same · same2)

theorem Progress.same (same1 rest1' same2 rest2' : List (Iter ρ)) (value : ρ)
    (inv : Progress cb left right start ⟨passed1,same1 ++ rest1',passed2,same2 ++ rest2',s⟩ visits)
    (equal1 : ∀ a ∈ same1,a.row = value) (equal2 : ∀ b ∈ same2,b.row = value)
    (above1 : ∀ a ∈ rest1',value < a.row) (above2 : ∀ b ∈ rest2',value < b.row)
    (nonempty : same2 ≠ []) (sorted : Sorted right) :
    Progress cb left right start ⟨passed1 ++ same1,rest1',passed2 ++ same2,rest2',
        (sameVisits passed1 passed2 same1 same2).foldl (visit cb) s⟩
      (visits ++ sameVisits passed1 passed2 same1 same2) := by
  have progress := inv
  obtain ⟨split1,split2,below1,below2,state,rights,lefts,sames,sound,_⟩ := inv
  simp only at split1 split2 below1 below2 state rights lefts sames
  have hasEq : ∀ a ∈ same1,hasEqual right a = true := by
    intro a ha
    obtain ⟨b,hb⟩ := exists_mem_of_ne_nil same2 nonempty
    simp only [hasEqual,any_eq_true,decide_eq_true_eq]
    exact ⟨b,by simp [← split2,hb],(equal2 b hb).trans (equal1 a ha).symm⟩
  constructor
  · simpa using split1
  · simpa using split2
  · intro a member b hb
    rcases mem_append.mp member with old | new
    · exact below1 a old b (by simp [hb])
    · rw [equal1 a new]
      exact above2 b hb
  · intro b member a ha
    rcases mem_append.mp member with old | new
    · exact below2 b old a (by simp [ha])
    · rw [equal2 b new]
      exact above1 a ha
  · rw [foldl_append,← state]
  · simp [rights,sameVisits,right?,comp_def,filterMap_map]
  · simp [lefts,sameVisits,left?,comp_def,filterMap_map]
  · have all : same1.filter (hasEqual right) = same1 := filter_eq_self.mpr hasEq
    simp [sames,all,sameVisits,same?,comp_def,filterMap_map]
  · intro v member
    simp only [sameVisits,mem_append,List.mem_map] at member
    rcases member with old | (⟨a,ha,rfl⟩ | ⟨b,hb,rfl⟩) | ⟨a,ha,rfl⟩
    · exact sound v old
    · refine ⟨⟨same2 ++ rest2',split2⟩,?_,by simp [hasEq a ha]⟩
      intro other present less
      simp only [← split2,mem_append] at present
      rcases present with inside | now | later
      · exact inside
      · exact absurd less (by rw [equal1 a ha,equal2 other now]; exact lt_irrefl value)
      · exact absurd less (by rw [equal1 a ha]; exact (above2 other later).not_gt)
    · refine ⟨⟨same1 ++ rest1',split1⟩,?_⟩
      intro other present less
      simp only [← split1,mem_append] at present
      rcases present with inside | now | later
      · exact inside
      · exact absurd less (by rw [equal2 b hb,equal1 other now]; exact lt_irrefl value)
      · exact absurd less (by rw [equal2 b hb]; exact (above1 other later).not_gt)
    · have before : passed2.filter (fun other => decide (other.row = a.row)) = [] := by
        simp only [filter_eq_nil_iff,decide_eq_true_eq]
        exact fun b hb => (below2 b hb a (by simp [ha])).ne
      have now : same2.filter (fun other => decide (other.row = a.row)) = same2 := by
        simp only [filter_eq_self,decide_eq_true_eq]
        exact fun b hb => (equal2 b hb).trans (equal1 a ha).symm
      have later : rest2'.filter (fun other => decide (other.row = a.row)) = [] := by
        simp only [filter_eq_nil_iff,decide_eq_true_eq]
        exact fun b hb => by rw [equal1 a ha]; exact (above2 b hb).ne'
      simp [Visit.Sound,← split2,before,now,later]
  · obtain ⟨first,isSame⟩ := exists_mem_of_ne_nil same2 nonempty
    have rows : ∀ v ∈ sameVisits passed1 passed2 same1 same2,v.row = value := by
      intro v member
      simp only [sameVisits,mem_append,List.mem_map] at member
      rcases member with (⟨a,ha,rfl⟩ | ⟨b,hb,rfl⟩) | ⟨a,ha,rfl⟩
      · exact equal1 a ha
      · exact equal2 b hb
      · exact equal1 a ha
    rw [← split2] at sorted
    apply progress.ordered_append
    · refine pairwise_of_forall_mem_list ?_
      intro v hv w hw
      rw [rows v hv,rows w hw]
    · intro a passed v member
      rw [rows v member,← equal2 first isSame]
      exact (below1 a passed first (mem_append_left _ isSame)).le
    · intro b passed v member
      rw [rows v member,← equal2 first isSame]
      exact sorted.le_append b passed first (mem_append_left _ isSame)

end Steps

section
variable {it : Iter ρ} {rest : List (Iter ρ)} (sorted : Sorted (it::rest))
include sorted

theorem Sorted.head_le :
    ∀ other ∈ it::rest,it.row ≤ other.row := by
  intro other member
  rcases mem_cons.mp member with rfl | later
  · exact le_rfl
  · exact (pairwise_cons.mp sorted).1 other later

theorem Sorted.above :
    ∀ other ∈ (it::rest).dropWhile (fun other => other.row = it.row),it.row < other.row := by
  intro other member
  have tail : Sorted ((it::rest).dropWhile (fun other => other.row = it.row)) :=
    sorted.sublist (dropWhile_sublist _)
  cases dropped : (it::rest).dropWhile (fun other => other.row = it.row) with
  | nil => simp [dropped] at member
  | cons first later =>
    have differs : first.row ≠ it.row := by
      have head := head_dropWhile_not (fun other : Iter ρ => decide (other.row = it.row)) (l := it::rest)
        (by simp [dropped])
      simpa [dropped] using head
    have inside : first ∈ it::rest := (dropWhile_sublist _).subset (by rw [dropped]; simp)
    have bound := Sorted.head_le sorted first inside
    rw [dropped] at member tail
    exact lt_of_lt_of_le (lt_of_le_of_ne bound (Ne.symm differs)) (Sorted.head_le tail other member)

end

section Loop
variable {cb : Callbacks ρ σ} {left right : List (Iter ρ)} {start : State σ}

theorem addSame_eq (cb : Callbacks ρ σ) (same1 same2 : List (Iter ρ)) (s : State σ) :
    addSame cb same1 same2 s = (same1.map (Visit.same · same2)).foldl (visit cb) s := by
  rw [foldl_map]
  rfl

theorem takeWhile_below (its : List (Iter ρ)) (bound : ρ) :
    ∀ a ∈ its.takeWhile (fun it => it.row < bound),a.row < bound := by
  intro a member
  simpa using mem_takeWhile_imp member

theorem Progress.step {p : Position ρ σ} {visits : List (Visit ρ)} {it1 it2 : Iter ρ}
    {tail1 tail2 : List (Iter ρ)} (sorted1 : Sorted left) (sorted2 : Sorted right)
    (inv : Progress cb left right start p visits) (first1 : p.rest1 = it1::tail1)
    (first2 : p.rest2 = it2::tail2) :
    ∃ visits',Progress cb left right start (zipStep cb p it2) visits' ∧
      (zipStep cb p it2).rest1.length + (zipStep cb p it2).rest2.length < p.rest1.length + p.rest2.length := by
  obtain ⟨passed1,rest1,passed2,rest2,s⟩ := p
  simp only at first1 first2
  have sortedRest1 : Sorted rest1 := sorted1.sublist (inv.split1 ▸ sublist_append_right _ _)
  have sortedRest2 : Sorted rest2 := sorted2.sublist (inv.split2 ▸ sublist_append_right _ _)
  have least2 : ∀ b ∈ rest2,it2.row ≤ b.row := by
    rw [first2] at sortedRest2 ⊢
    exact sortedRest2.head_le
  have split1 := takeWhile_append_dropWhile (p := fun it : Iter ρ => decide (it.row < it2.row)) (l := rest1)
  have count1 : (rest1.takeWhile (fun it => decide (it.row < it2.row))).length +
      (rest1.dropWhile (fun it => decide (it.row < it2.row))).length = rest1.length := by
    rw [← length_append,split1]
  rw [← split1] at inv
  have inv1 := inv.skip1 (fun a ha b hb => lt_of_lt_of_le (takeWhile_below rest1 it2.row a ha) (least2 b hb)) sorted1
  unfold zipStep
  simp only [skipLeft_eq]
  cases remaining1 : rest1.dropWhile (fun it => decide (it.row < it2.row)) with
  | nil =>
    rw [remaining1] at inv1
    refine ⟨_,inv1,?_⟩
    simp [first1]
  | cons a later1 =>
    have sortedA : Sorted (a::later1) := remaining1 ▸ sortedRest1.sublist (dropWhile_sublist _)
    have notLess : ¬ a.row < it2.row := by
      have head := head_dropWhile_not (fun it : Iter ρ => decide (it.row < it2.row)) (l := rest1)
        (by simp [remaining1])
      simpa [remaining1] using head
    have split2 := takeWhile_append_dropWhile (p := fun it : Iter ρ => decide (it.row < a.row)) (l := rest2)
    have count2 : (rest2.takeWhile (fun it => decide (it.row < a.row))).length +
        (rest2.dropWhile (fun it => decide (it.row < a.row))).length = rest2.length := by
      rw [← length_append,split2]
    rw [remaining1] at inv1
    rw [← split2] at inv1
    have inv2 := inv1.skip2 (fun b hb x hx => lt_of_lt_of_le (takeWhile_below rest2 a.row b hb) (sortedA.head_le x hx)) sorted2
    simp only [skipRight_eq]
    cases remaining2 : rest2.dropWhile (fun it => decide (it.row < a.row)) with
    | nil =>
      rw [remaining2] at inv2
      refine ⟨_,inv2,?_⟩
      have bound : (a::later1).length ≤ rest1.length := by rw [← remaining1]; omega
      simp [first2] at bound ⊢
      omega
    | cons b later2 =>
      have sortedB : Sorted (b::later2) := remaining2 ▸ sortedRest2.sublist (dropWhile_sublist _)
      rw [remaining2] at inv2
      by_cases equal : a.row = b.row
      · have inv3 := Progress.same ((a::later1).takeWhile (fun it => decide (it.row = b.row)))
          ((a::later1).dropWhile (fun it => decide (it.row = b.row)))
          ((b::later2).takeWhile (fun it => decide (a.row = it.row)))
          ((b::later2).dropWhile (fun it => decide (a.row = it.row))) b.row
          (by simpa only [takeWhile_append_dropWhile] using inv2)
          (fun x hx => by simpa using mem_takeWhile_imp hx)
          (fun x hx => by simpa [eq_comm,equal] using mem_takeWhile_imp hx)
          (by simpa only [equal] using sortedA.above)
          (by simpa only [equal,eq_comm] using sortedB.above)
          (by simp [equal]) sorted2
        refine ⟨_,by simpa only [addSame_eq,sameVisits,foldl_append,foldl_map,visit] using inv3,?_⟩
        have shrink1 : ((a::later1).dropWhile (fun it => decide (it.row = b.row))).length ≤ later1.length := by
          simpa [equal] using length_dropWhile_le _ later1
        have shrink2 : ((b::later2).dropWhile (fun it => decide (a.row = it.row))).length ≤ (b::later2).length :=
          length_dropWhile_le _ _
        simp only [remaining1,remaining2,length_cons] at count1 count2
        simp only [length_cons] at shrink2 ⊢
        omega
      · refine ⟨_,by simpa [equal,addSame] using inv2,?_⟩
        -- Without an equal pair the second loop has moved, as the first loop stopped at `a`.
        have moved : it2.row < a.row := by
          rcases lt_trichotomy it2.row a.row with less | same | more
          · exact less
          · have stopped : rest2.dropWhile (fun it => decide (it.row < a.row)) = rest2 := by simp [first2,same]
            rw [stopped,first2] at remaining2
            cases remaining2
            exact absurd same.symm equal
          · exact absurd more notLess
        have positive : 0 < (rest2.takeWhile (fun it => decide (it.row < a.row))).length := by simp [first2,moved]
        simp only [remaining1,remaining2,length_cons] at count1 count2
        simp only [decide_false,equal,Bool.false_eq_true,not_false_eq_true,dropWhile_cons_of_neg,length_cons]
        omega

theorem Progress.loop (sorted1 : Sorted left) (sorted2 : Sorted right) (fuel : Nat) (p : Position ρ σ)
    (visits : List (Visit ρ)) (inv : Progress cb left right start p visits)
    (enough : p.rest1.length + p.rest2.length < fuel) :
    ∃ visits',Progress cb left right start (zipLoop cb fuel p) visits' ∧
      ((zipLoop cb fuel p).rest1 = [] ∨ (zipLoop cb fuel p).rest2 = []) := by
  induction fuel generalizing p visits with
  | zero => omega
  | succ fuel ih =>
    unfold zipLoop
    split
    next it1 tail1 it2 tail2 first1 first2 =>
      obtain ⟨visits',inv',less⟩ := inv.step sorted1 sorted2 first1 first2
      exact ih _ visits' inv' (by omega)
    next exhausted =>
      refine ⟨visits,inv,?_⟩
      cases first1 : p.rest1 with
      | nil => simp
      | cons it1 tail1 =>
        cases first2 : p.rest2 with
        | nil => simp
        | cons it2 tail2 => exact absurd first2 (exhausted it1 tail1 it2 tail2 first1)

structure Complete (left right : List (Iter ρ)) (visits : List (Visit ρ)) : Prop where
  rights : visits.filterMap right? = left
  lefts : visits.filterMap left? = right
  sames : visits.filterMap same? = left.filter (hasEqual right)
  sound : ∀ v ∈ visits,v.Sound left right
  ordered : visits.Pairwise (fun v w => v.row ≤ w.row)

section
variable {visits : List (Visit ρ)} (complete : Complete left right visits) {v : Visit ρ} (member : v ∈ visits) (it : Iter ρ)
include complete member

theorem Complete.mem_left (first : v.right? = some it) : it ∈ left := by
  rw [← complete.rights,mem_filterMap]
  exact ⟨v,member,first⟩

theorem Complete.mem_right (first : v.left? = some it) : it ∈ right := by
  rw [← complete.lefts,mem_filterMap]
  exact ⟨v,member,first⟩

end

/-- Every row of `left` and every row of `right` is visited exactly once for the smaller
rows of the other side, and every row of `left` with an equal row once for these. -/
theorem mergeAll_visits (cb : Callbacks ρ σ) (sorted1 : Sorted left) (sorted2 : Sorted right) (s : State σ) :
    ∃ visits,mergeAll cb left right s = visits.foldl (visit cb) s ∧ Complete left right visits := by
  have initial : Progress cb left right s ⟨[],left,[],right,s⟩ [] := by
    constructor <;> simp
  obtain ⟨visits,inv,exhausted⟩ := initial.loop sorted1 sorted2 (left.length + right.length + 1) _ _ (by simp)
  unfold mergeAll
  generalize zipLoop cb (left.length + right.length + 1) ⟨[],left,[],right,s⟩ = p at inv exhausted
  have noEqual : ∀ a ∈ p.rest1,hasEqual right a = false := by
    intro a member
    have all : p.passed2 = right := by
      rcases exhausted with none | none
      · simp [none] at member
      · simpa [none] using inv.split2
    simp only [hasEqual,any_eq_false,decide_eq_true_eq]
    exact fun b hb => (inv.below2 b (all ▸ hb) a member).ne
  refine ⟨visits ++ p.rest2.map (Visit.left · left) ++ p.rest1.map (Visit.right · right true),?_,?_,?_,?_,?_,?_⟩
  · simp only [foldl_append,foldl_map,visit,inv.state]
  · simp [inv.rights,inv.split1,right?,comp_def,filterMap_map]
  · simp [inv.lefts,inv.split2,left?,comp_def,filterMap_map]
  · have none : p.rest1.filter (hasEqual right) = [] := by simpa [filter_eq_nil_iff] using noEqual
    have whole : left.filter (hasEqual right) = p.passed1.filter (hasEqual right) := by
      rw [← inv.split1,filter_append,none,append_nil]
    simp [inv.sames,whole,same?,comp_def,filterMap_map]
  · intro v member
    simp only [mem_append,List.mem_map] at member
    rcases member with (old | ⟨b,_,rfl⟩) | ⟨a,ha,rfl⟩
    · exact inv.sound v old
    · exact ⟨prefix_rfl,fun other present _ => present⟩
    · exact ⟨prefix_rfl,fun other present _ => present,by simp [noEqual a ha]⟩
  · rw [← inv.split1] at sorted1
    rw [← inv.split2] at sorted2
    rcases exhausted with none | none
    · rw [none,map_nil,append_nil]
      apply inv.ordered_append
      · rw [pairwise_map]
        exact sorted2.sublist (sublist_append_right _ _)
      · intro a passed v member
        obtain ⟨b,isRest,rfl⟩ := List.mem_map.mp member
        exact (inv.below1 a passed b isRest).le
      · intro b passed v member
        obtain ⟨b',isRest,rfl⟩ := List.mem_map.mp member
        exact sorted2.le_append b passed b' isRest
    · rw [none,map_nil,append_nil]
      apply inv.ordered_append
      · rw [pairwise_map]
        exact sorted1.sublist (sublist_append_right _ _)
      · intro a passed v member
        obtain ⟨a',isRest,rfl⟩ := List.mem_map.mp member
        exact sorted1.le_append a passed a' isRest
      · intro b passed v member
        obtain ⟨a,isRest,rfl⟩ := List.mem_map.mp member
        exact (inv.below2 b passed a isRest).le

end Loop

def Visit.select {γ : Type} (onRight onLeft onSame : Iter ρ → γ) : Visit ρ → γ
  | .right it _ _ => onRight it
  | .left it _ => onLeft it
  | .same it _ => onSame it

omit [LinearOrder ρ] in
theorem flatMap_select {γ : Type} (visits : List (Visit ρ)) (onRight onLeft onSame : Iter ρ → List γ) :
    (visits.flatMap (select onRight onLeft onSame)).Perm
      ((visits.filterMap right?).flatMap onRight ++ (visits.filterMap left?).flatMap onLeft ++
        (visits.filterMap same?).flatMap onSame) := by
  induction visits with
  | nil => simp
  | cons v visits ih =>
    cases v with
    | right it range hasNoMatch =>
      simp only [select,right?,left?,same?,flatMap_cons,filterMap_cons,
        append_assoc] at ih ⊢
      exact ih.append_left (onRight it)
    | left it range =>
      simp only [select,right?,left?,same?,flatMap_cons,filterMap_cons,
        append_assoc] at ih ⊢
      exact (ih.append_left (onLeft it)).trans (perm_append_comm_assoc _ _ _)
    | same it others =>
      simp only [select,right?,left?,same?,flatMap_cons,filterMap_cons] at ih ⊢
      exact (ih.append_left (onSame it)).trans (perm_append_comm_assoc _ _ _)

theorem Complete.flatMap_perm {γ : Type} {left right : List (Iter ρ)} {visits : List (Visit ρ)}
    (complete : Complete left right visits) (contribution : Visit ρ → List γ)
    (onRight onLeft onSame : Iter ρ → List γ)
    (each : ∀ v ∈ visits,(contribution v).Perm (v.select onRight onLeft onSame)) :
    (visits.flatMap contribution).Perm
      (left.flatMap onRight ++ right.flatMap onLeft ++ (left.filter (hasEqual right)).flatMap onSame) := by
  have selected := flatMap_select visits onRight onLeft onSame
  rw [complete.rights,complete.lefts,complete.sames] at selected
  exact (List.Perm.flatMap_left visits each).trans selected

def setAll (covered : List Bool) (positions : List Nat) : List Bool :=
  positions.foldl (fun covered i => covered.set i true) covered

section Rows
omit [LinearOrder ρ]

theorem mem_iters (rows : List ρ) (it : Iter ρ) : it ∈ iters 0 rows ↔ rows[it.pos]? = some it.row := by
  obtain ⟨row,pos⟩ := it
  simp only [iters,List.mem_map,Prod.exists,Iter.mk.injEq]
  rw [← mk_mem_zipIdx_iff_getElem?]
  constructor
  · rintro ⟨a,b,member,rfl,rfl⟩
    exact member
  · exact fun member => ⟨row,pos,member,rfl,rfl⟩

section
variable (start : Nat) (rows : List ρ)

theorem map_pos_iters : (iters start rows).map Iter.pos = range' start rows.length := by
  simp [iters,comp_def]

theorem map_row_iters : (iters start rows).map Iter.row = rows := by
  simp [iters,comp_def]

theorem nodup_iters : (iters start rows).Nodup := by
  apply List.Nodup.of_map Iter.pos
  rw [map_pos_iters]
  exact nodup_range'

end

theorem eq_of_pos {rows : List ρ} {a b : Iter ρ} (ha : a ∈ iters 0 rows) (hb : b ∈ iters 0 rows)
    (same : a.pos = b.pos) : a = b := by
  rw [mem_iters] at ha hb
  obtain ⟨row,pos⟩ := a
  obtain ⟨row',pos'⟩ := b
  simp only at same ha hb
  subst same
  rw [ha] at hb
  simpa using hb

theorem sorted_iters [LinearOrder ρ] (start : Nat) (rows : List ρ) (sorted : rows.Pairwise (· ≤ ·)) : Sorted (iters start rows) := by
  have mapped : ((iters start rows).map Iter.row).Pairwise (· ≤ ·) := by rwa [map_row_iters]
  exact pairwise_map.mp mapped

section
variable (covered : List Bool) (positions : List Nat)

theorem length_setAll : (setAll covered positions).length = covered.length := by
  unfold setAll
  induction positions generalizing covered with
  | nil => rfl
  | cons i positions ih => simp [ih]

theorem getElem?_setAll (i : Nat) (inside : i < covered.length) :
    (setAll covered positions)[i]? = if i ∈ positions then some true else covered[i]? := by
  unfold setAll
  induction positions generalizing covered with
  | nil => simp
  | cons j positions ih =>
    rw [foldl_cons,ih (covered.set j true) (by simpa using inside)]
    by_cases later : i ∈ positions
    · simp [later]
    · by_cases here : i = j
      · subst here
        simp [later,inside]
      · simp [later,here,Ne.symm here]

end

theorem uncovered_eq (start : Nat) (rows : List ρ) (positions : List Nat) (s : State σ)
    (covered : s.coveredFromLeft = setAll (replicate (iters start rows).length false) positions) :
    uncovered (iters start rows) s = (iters start rows).filter (fun it => it.pos - start ∉ positions) := by
  have flags : s.coveredFromLeft = (iters start rows).map (fun it => decide (it.pos - start ∈ positions)) := by
    rw [covered]
    apply ext_getElem?
    intro i
    have count : (iters start rows).length = rows.length := by simp [iters]
    by_cases inside : i < rows.length
    · rw [getElem?_setAll _ _ _ (by simpa [count] using inside)]
      by_cases member : i ∈ positions <;> simp [iters,inside,member]
    · rw [List.getElem?_eq_none (by simpa [length_setAll,count] using inside),
        List.getElem?_eq_none (by simpa [count] using inside)]
  simp only [uncovered,flags]
  induction iters start rows with
  | nil => rfl
  | cons it its ih =>
    by_cases member : it.pos - start ∈ positions
    · simpa [member] using ih
    · simpa [member] using ih

end Rows

end Qlever.ZipperJoin
