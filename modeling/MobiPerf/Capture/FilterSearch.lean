import Mathlib.Algebra.Order.BigOperators.Group.Finset
import Mathlib.Data.Finset.Range
import MobiPerf.Capture.FilterLayout
import MobiPerf.Lib.Visit

/-!
# Capture.FilterSearch — the tries of `icode_to_fcode`

The graph is searched twice in a try: to count its instructions, and to place them.
Both searches mark the same blocks, so the array is filled exactly. Every try that
fails marks a side of a block as long, so the tries end.
-/

namespace MobiPerf.Capture

open Lib

/-! ## The search -/

/-- The edges of the allocated blocks. -/
def EdgeTo (G : Graph) (i j : ℕ) : Prop := i < G.size ∧ ∃ side, G.edge i side = some j

/-- In a finished graph edges lead to later blocks. -/
theorem Sealed.up {G : Graph} (h : Sealed G) {i : ℕ} (hi : i < G.size) {side : Bool} {j : ℕ}
    (hj : G.edge i side = some j) : i < j ∧ j < G.size := by
  rcases h.block i hi with ⟨v, -, hnone⟩ | ⟨t, -, hsome⟩
  · rw [hnone side] at hj
    cases hj
  · obtain ⟨k, hk, hup, hlt⟩ := hsome side
    obtain rfl : k = j := Option.some.inj (hk.symm.trans hj)
    exact ⟨hup, hlt⟩

theorem Sealed.edgeTo_up {G : Graph} (h : Sealed G) : ∀ i j, EdgeTo G i j → i < j := by
  rintro i j ⟨hi, side, hj⟩
  exact (h.up hi hj).1

/-- The blocks a pointer can start a search at. -/
def Enters (G : Graph) (fuel : ℕ) (p : Option ℕ) : Prop :=
  ∀ i, p = some i → i < G.size ∧ G.size ≤ fuel + i

/-- A pass fewer is left for what an edge leads to. -/
theorem Sealed.enters {G : Graph} (h : Sealed G) {fuel p : ℕ}
    (hp : Enters G (fuel + 1) (some p)) (side : Bool) : Enters G fuel (G.edge p side) := by
  intro i hi
  obtain ⟨hlt, hfuel⟩ := hp p rfl
  obtain ⟨hup, hi'⟩ := h.up hlt hi
  omega

/-- A block's edges, in either order. -/
theorem edgeTo_iff {G : Graph} {p : ℕ} (hp : p < G.size) (s : Bool) (j : ℕ) :
    EdgeTo G p j ↔ j ∈ (G.edge p s).toList ++ (G.edge p (!s)).toList := by
  rw [List.mem_append, Option.mem_toList, Option.mem_toList]
  constructor
  · rintro ⟨-, side, hj⟩
    cases s <;> cases side
    · exact .inl hj
    · exact .inr hj
    · exact .inr hj
    · exact .inl hj
  · rintro (hj | hj)
    · exact ⟨hp, s, hj⟩
    · exact ⟨hp, !s, hj⟩

section Search

variable {G : Graph} {M M1 M2 : Finset ℕ} {p : ℕ}

/-- A block is visited, then what one side leads to, then what the other does. -/
theorem visits_node (hp : p < G.size) {s : Bool}
    (h1 : Visits (EdgeTo G) (G.edge p s).toList (insert p M) M1)
    (h2 : Visits (EdgeTo G) (G.edge p (!s)).toList M1 M2) : Visits (EdgeTo G) [p] M M2 :=
  Visits.node (edgeTo_iff hp s) (h1.append h2)

/-- What a visit of a block adds up: its own weight, and those of what its edges
lead to. -/
theorem sum_visits_node (w : ℕ → ℕ) (hpM : p ∉ M) {s : Bool}
    (h1 : Visits (EdgeTo G) (G.edge p s).toList (insert p M) M1)
    (h2 : Visits (EdgeTo G) (G.edge p (!s)).toList M1 M2) :
    ∑ i ∈ M2 \ M, w i = ∑ i ∈ M2 \ M1, w i + ∑ i ∈ M1 \ insert p M, w i + w p := by
  rw [sum_sdiff_insert w hpM (h1.subset.trans h2.subset), sum_sdiff_trans w h1.subset h2.subset]

/-- `count_stmts` marks what is reachable and counts its instructions. -/
theorem countStmts_spec (hG : Sealed G) (long : Long) {fuel : ℕ} {ptr : Option ℕ}
    (hptr : Enters G fuel ptr) (hclosed : ∀ i, ptr = some i → ClosedAbove (EdgeTo G) M i) :
    ∃ M', Visits (EdgeTo G) ptr.toList M M' ∧
      countStmts G long fuel ptr M = some (∑ i ∈ M' \ M, room G long i, M') := by
  induction fuel generalizing ptr M with
  | zero =>
      cases ptr with
      | none => exact ⟨M, Visits.nil M, by simp [countStmts]⟩
      | some p =>
          obtain ⟨hlt, hfuel⟩ := hptr p rfl
          omega
  | succ fuel ih =>
      cases ptr with
      | none => exact ⟨M, Visits.nil M, by simp [countStmts]⟩
      | some p =>
          have hcl := hclosed p rfl
          by_cases hp : p ∈ M
          · exact ⟨M, Visits.marked hG.edgeTo_up hcl hp, by simp [countStmts, hp]⟩
          · -- a block is closed above once both its branches are visited
            have hlt := (hptr p rfl).1
            have hins : ∀ side i, G.edge p side = some i →
                ClosedAbove (EdgeTo G) (insert p M) i := fun side i hi =>
              hcl.insert (hG.up hlt hi).1
            obtain ⟨M1, hv1, hc1⟩ := ih (hG.enters hptr true) (hins true)
            obtain ⟨M2, hv2, hc2⟩ := ih (hG.enters hptr false)
              fun i hi => hv1.closed (hins false i hi)
            refine ⟨M2, visits_node hlt (s := true) hv1 hv2, ?_⟩
            rw [sum_visits_node (room G long) hp (s := true) hv1 hv2]
            simp only [countStmts, hp, if_false, hc1, hc2, Option.bind_eq_bind, Option.bind_some]
            simp only [room, pure, Option.some.injEq, Prod.mk.injEq, and_true]
            omega

/-- What `convert_code_r` leaves when it succeeds. -/
structure Converted (G : Graph) (N : ℕ) (ptr : Option ℕ) (L L' : FcodeLayout) : Prop where
  visits : Visits (EdgeTo G) ptr.toList L.mark L'.mark
  long : L'.long = L.long
  front : ∃ body, Front body L L' ∧ body.length = ∑ i ∈ L'.mark \ L.mark, room G L.long i
  offset : ∀ i, i ∉ L'.mark \ L.mark → L'.offset i = L.offset i
  start : ∀ p, ptr = some p → p ∉ L.mark → L'.offset p = L'.ftail
  placed : ∀ i ∈ L'.mark \ L.mark, Placed G L' i
  good : Good G N L'

/-- The sides that may still be marked as long. -/
def deficit (G : Graph) (long : Long) : ℕ :=
  ∑ i ∈ Finset.range G.size, ((1 - long.jt i) + (1 - long.jf i))

variable {L L' : FcodeLayout} {N : ℕ} {ptr : Option ℕ}

/-- A block that is marked is not converted again. -/
theorem Converted.refl (hgood : Good G N L) (hptr : ∀ p, ptr = some p → p ∈ L.mark)
    (hvisits : Visits (EdgeTo G) ptr.toList L.mark L.mark) : Converted G N ptr L L where
  visits := hvisits
  long := rfl
  front := ⟨[], Front.refl L, by simp⟩
  offset _ _ := rfl
  start p hp hnot := absurd (hptr p hp) hnot
  placed i hi := by simp at hi
  good := hgood

/-- What was placed before the search is placed behind it. -/
theorem Converted.placed_of_le (h : Converted G N ptr L L') {b : ℕ}
    (hclosed : ClosedAbove (EdgeTo G) L.mark b) (hlt : ∀ i ∈ L.mark, i < G.size)
    (hplaced : ∀ i ∈ L.mark, b ≤ i → Placed G L i) :
    ∀ i ∈ L'.mark, b ≤ i → Placed G L' i := by
  intro i hi hb
  by_cases hM : i ∈ L.mark
  · obtain ⟨body, hfront, -⟩ := h.front
    have hkeep : ∀ j ∈ L.mark, L'.offset j = L.offset j := fun j hj =>
      h.offset j fun hmem => (Finset.mem_sdiff.mp hmem).2 hj
    refine (hplaced i hM hb).front hfront (hkeep i hM) fun side t ht => hkeep t ?_
    exact hclosed i hM hb t ⟨hlt i hM, side, ht⟩
  · exact h.placed i (Finset.mem_sdiff.mpr ⟨hi, hM⟩)

/-- Marking a side that was not marked leaves fewer sides to mark. -/
theorem deficit_lt {long long' : Long} (hp : p < G.size)
    (hjt : ∀ i, long.jt i ≤ long'.jt i) (hjf : ∀ i, long.jf i ≤ long'.jf i)
    (h : (long.jt p = 0 ∧ long'.jt p = 1) ∨ (long.jf p = 0 ∧ long'.jf p = 1)) :
    deficit G long' < deficit G long := by
  refine Finset.sum_lt_sum (fun i _ => ?_) ⟨p, Finset.mem_range.mpr hp, ?_⟩
  · have h1 := hjt i
    have h2 := hjf i
    omega
  · have h1 := hjt p
    have h2 := hjf p
    omega

/-- A block is marked that was not: the mark is 1, and no other changes. -/
theorem update_mark {f : ℕ → ℕ} (hzero : f p = 0) (i : ℕ) :
    f i ≤ Function.update f p (f p + 1) i ∧ (f i ≤ 1 → Function.update f p (f p + 1) i ≤ 1) := by
  by_cases hip : i = p
  · rw [hip, Function.update_self, hzero]
    exact ⟨Nat.zero_le 1, fun _ => le_rfl⟩
  · rw [Function.update_of_ne hip]
    exact ⟨le_rfl, id⟩

/-- A branch that was short is made long once. -/
theorem update_mark_self {f : ℕ → ℕ} (hzero : f p = 0) :
    Function.update f p (f p + 1) p = 1 := by
  rw [Function.update_self, hzero]

/-- Making the true branch long leaves fewer short ones. -/
theorem markJt_lt (hp : p < G.size) (hlong : L.long.Ok G) (hzero : L.long.jt p = 0)
    (hedge : G.edge p true ≠ none) :
    (L.markJt p).long.Ok G ∧ deficit G (L.markJt p).long < deficit G L.long := by
  have hmark := update_mark hzero
  refine ⟨⟨fun i => ⟨(hmark i).2 (hlong.le_one i).1, (hlong.le_one i).2⟩, fun i hi => ?_⟩,
    deficit_lt hp (fun i => (hmark i).1) (fun i => le_rfl) (.inl ⟨hzero, update_mark_self hzero⟩)⟩
  have hip : i ≠ p := by
    rintro rfl
    exact hedge hi
  exact ⟨(Function.update_of_ne hip _ _).trans (hlong.of_ret i hi).1, (hlong.of_ret i hi).2⟩

/-- So does making the false branch long. -/
theorem markJf_lt (hp : p < G.size) (hlong : L.long.Ok G) (hzero : L.long.jf p = 0)
    (hedge : G.edge p true ≠ none) :
    (L.markJf p).long.Ok G ∧ deficit G (L.markJf p).long < deficit G L.long := by
  have hmark := update_mark hzero
  refine ⟨⟨fun i => ⟨(hlong.le_one i).1, (hmark i).2 (hlong.le_one i).2⟩, fun i hi => ?_⟩,
    deficit_lt hp (fun i => le_rfl) (fun i => (hmark i).1) (.inr ⟨hzero, update_mark_self hzero⟩)⟩
  have hip : i ≠ p := by
    rintro rfl
    exact hedge hi
  exact ⟨(hlong.of_ret i hi).1, (Function.update_of_ne hip _ _).trans (hlong.of_ret i hi).2⟩

/-- A block whose edges lead to placed blocks is placed or marked. -/
theorem place_spec (hG : Sealed G) (hN : N < 2 ^ 32) (hp : p < G.size) (hgood : Good G N L)
    (hlong : L.long.Ok G) (hplaced : ∀ side i, G.edge p side = some i → Placed G L i)
    (hroom : room G L.long p ≤ L.ftail) :
    (∃ L', L.place G p = some (true, L') ∧ Written G N p L L') ∨
      ∃ L', L.place G p = some (false, L') ∧ L'.long.Ok G ∧
        deficit G L'.long < deficit G L.long := by
  rcases hG.block p hp with ⟨v, hcode, hnone⟩ | ⟨t, hcode, hsome⟩
  · exact .inl (place_ret hgood hcode hnone hlong hroom)
  · obtain ⟨jt, hjt, -, -⟩ := hsome true
    obtain ⟨jf, hjf, -, -⟩ := hsome false
    have hne : ∀ side i, G.edge p side = some i → i ≠ p := fun side i hi =>
      Nat.ne_of_gt (hG.up hp hi).1
    have hedge : G.edge p true ≠ none := by
      rw [hjt]
      exact fun h => nomatch h
    rcases place_test hN hgood hcode hjt hjf hne hplaced hroom with h | ⟨hzero, h⟩ | ⟨hzero, h⟩
    · exact .inl h
    · exact .inr ⟨_, h, markJt_lt (L := L.reserve p (room G L.long p)) hp hlong hzero hedge⟩
    · exact .inr ⟨_, h, markJf_lt (L := L.reserve p (room G L.long p)) hp hlong hzero hedge⟩

/-- The room that a search needs. -/
def Fitting (G : Graph) (ptr : Option ℕ) (L : FcodeLayout) : Prop :=
  ∀ M', Visits (EdgeTo G) ptr.toList L.mark M' → ∑ i ∈ M' \ L.mark, room G L.long i ≤ L.ftail

/-- What the search relies on. -/
structure Ready (G : Graph) (N fuel : ℕ) (ptr : Option ℕ) (L : FcodeLayout) : Prop where
  enters : Enters G fuel ptr
  lt : ∀ i ∈ L.mark, i < G.size
  closed : ∀ b, ptr = some b → ClosedAbove (EdgeTo G) L.mark b
  placed : ∀ b, ptr = some b → ∀ i ∈ L.mark, b ≤ i → Placed G L i
  good : Good G N L
  long : L.long.Ok G
  fitting : Fitting G ptr L

/-- An edge leads to a block of the graph. -/
theorem EdgeTo.lt (hG : Sealed G) {i j : ℕ} (h : EdgeTo G i j) : j < G.size := by
  obtain ⟨hi, side, hj⟩ := h
  exact (hG.up hi hj).2

/-- A visit stays among the blocks of the graph. -/
theorem visits_lt (hG : Sealed G) {fuel : ℕ} (hptr : Enters G fuel ptr)
    (hv : Visits (EdgeTo G) ptr.toList M M1) (hM : ∀ i ∈ M, i < G.size) : ∀ i ∈ M1, i < G.size := by
  intro i hi
  rcases (hv i).mp hi with hi | ⟨q, hq, hr⟩
  · exact hM i hi
  · rcases Relation.ReflTransGen.cases_tail hr with rfl | ⟨j, -, hj⟩
    · exact (hptr _ (Option.mem_toList.mp hq)).1
    · exact hj.lt hG

/-- Every search of the graph marks some set of blocks. -/
theorem exists_visits (hG : Sealed G) {fuel : ℕ} (hptr : Enters G fuel ptr) (M : Finset ℕ) :
    ∃ M', Visits (EdgeTo G) ptr.toList M M' := by
  refine Visits.exists_of_finite (Finset.range G.size) (fun i hi => ?_) (fun i _ j hj => ?_) M
  · exact Finset.mem_range.mpr (hptr i (Option.mem_toList.mp hi)).1
  · exact Finset.mem_range.mpr (hj.lt hG)

/-- The block that is being converted is marked. -/
def FcodeLayout.enter (L : FcodeLayout) (p : ℕ) : FcodeLayout := { L with mark := insert p L.mark }

section Node

variable {fuel : ℕ} {L2 L3 L4 : FcodeLayout}

/-- Entering a block leaves what is behind it closed. -/
theorem Ready.closed_enter (h : Ready G N (fuel + 1) (some p) L) {b : ℕ} (hb : p < b) :
    ClosedAbove (EdgeTo G) (L.enter p).mark b := (h.closed p rfl).insert hb

/-- A block that is entered is one of the graph. -/
theorem Ready.lt_enter (h : Ready G N (fuel + 1) (some p) L) :
    ∀ i ∈ (L.enter p).mark, i < G.size := by
  intro i hi
  rcases Finset.mem_insert.mp hi with rfl | hi
  · exact (h.enters i rfl).1
  · exact h.lt i hi

/-- What is behind it stays where it was placed. -/
theorem Ready.placed_enter (h : Ready G N (fuel + 1) (some p) L) {b : ℕ} (hb : p < b) :
    ∀ i ∈ (L.enter p).mark, b ≤ i → Placed G (L.enter p) i := by
  intro i hi hbi
  rcases Finset.mem_insert.mp hi with rfl | hi
  · omega
  · obtain ⟨hlow, hhigh, hstmts, hbranch⟩ := h.placed p rfl i hi (by omega)
    exact ⟨hlow, hhigh, hstmts, hbranch⟩

/-- The first edge may be followed. -/
theorem Ready.first (hG : Sealed G) (h : Ready G N (fuel + 1) (some p) L) (hpM : p ∉ L.mark) :
    Ready G N fuel (G.edge p false) (L.enter p) where
  enters := hG.enters h.enters false
  lt := h.lt_enter
  closed _ hb := h.closed_enter (hG.up (h.enters p rfl).1 hb).1
  placed _ hb := h.placed_enter (hG.up (h.enters p rfl).1 hb).1
  good := ⟨h.good.total, h.good.check, h.good.last⟩
  long := h.long
  fitting := by
    intro M2 hv2
    obtain ⟨M3, hv3⟩ := exists_visits hG (hG.enters h.enters true) M2
    have hle := h.fitting M3 (visits_node (h.enters p rfl).1 (s := false) hv2 hv3)
    rw [sum_visits_node _ hpM (s := false) hv2 hv3] at hle
    exact le_trans (by simp only [FcodeLayout.enter]; omega) hle

/-- What is converted takes the room of its blocks in front of the array. -/
theorem Converted.ftail (h : Converted G N ptr L L') :
    L'.ftail + ∑ i ∈ L'.mark \ L.mark, room G L.long i = L.ftail := by
  obtain ⟨body, hfront, hlen⟩ := h.front
  rw [← hlen]
  exact hfront.ftail

/-- The second may be followed behind it. -/
theorem Ready.second (hG : Sealed G) (h : Ready G N (fuel + 1) (some p) L) (hpM : p ∉ L.mark)
    (h2 : Converted G N (G.edge p false) (L.enter p) L2) :
    Ready G N fuel (G.edge p true) L2 where
  enters := hG.enters h.enters true
  lt := visits_lt hG (hG.enters h.enters false) h2.visits h.lt_enter
  closed _ hb := h2.visits.closed (h.closed_enter (hG.up (h.enters p rfl).1 hb).1)
  placed b hb := h2.placed_of_le (h.closed_enter (hG.up (h.enters p rfl).1 hb).1) h.lt_enter
    (h.placed_enter (hG.up (h.enters p rfl).1 hb).1)
  good := h2.good
  long := h2.long ▸ h.long
  fitting := by
    intro M3 hv3
    have hle := h.fitting M3 (visits_node (h.enters p rfl).1 (s := false) h2.visits hv3)
    rw [sum_visits_node _ hpM (s := false) h2.visits hv3] at hle
    have hftail := h2.ftail
    rw [h2.long]
    simp only [FcodeLayout.enter] at hftail hle ⊢
    omega

/-- Then there is room for the block itself, and all behind it is placed. -/
theorem Ready.third (hG : Sealed G) (h : Ready G N (fuel + 1) (some p) L) (hpM : p ∉ L.mark)
    (h2 : Converted G N (G.edge p false) (L.enter p) L2)
    (h3 : Converted G N (G.edge p true) L2 L3) :
    room G L3.long p ≤ L3.ftail ∧ ∀ i ∈ L3.mark, p < i → Placed G L3 i := by
  constructor
  · have hle := h.fitting L3.mark (visits_node (h.enters p rfl).1 (s := false) h2.visits h3.visits)
    rw [sum_visits_node _ hpM (s := false) h2.visits h3.visits] at hle
    have hftail2 := h2.ftail
    have hftail3 := h3.ftail
    rw [h3.long, h2.long]
    rw [h2.long] at hftail3
    simp only [FcodeLayout.enter] at hftail2 hftail3 hle ⊢
    omega
  · have hlt2 := visits_lt hG (hG.enters h.enters false) h2.visits h.lt_enter
    have hclosed := h.closed_enter (Nat.lt_succ_self p)
    exact h3.placed_of_le (h2.visits.closed hclosed) hlt2
      (h2.placed_of_le hclosed h.lt_enter (h.placed_enter (Nat.lt_succ_self p)))

/-- A block behind the blocks its edges lead to. -/
theorem Converted.node (hG : Sealed G) (h : Ready G N (fuel + 1) (some p) L) (hpM : p ∉ L.mark)
    (h2 : Converted G N (G.edge p false) (L.enter p) L2)
    (h3 : Converted G N (G.edge p true) L2 L3) (h4 : Written G N p L3 L4) :
    Converted G N (some p) L L4 := by
  have hp := (h.enters p rfl).1
  have hvisits : Visits (EdgeTo G) [p] L.mark L3.mark :=
    visits_node hp (s := false) h2.visits h3.visits
  have hsum := sum_visits_node (room G L.long) hpM (s := false) h2.visits h3.visits
  have hkeep : ∀ i, i ∉ L3.mark \ L.mark → L3.offset i = L.offset i := by
    intro i hi
    by_cases hM : i ∈ L.mark
    · have hmem : i ∈ L2.mark := h2.visits.subset (Finset.mem_insert_of_mem hM)
      rw [h3.offset i fun hx => (Finset.mem_sdiff.mp hx).2 hmem,
        h2.offset i fun hx => (Finset.mem_sdiff.mp hx).2 (Finset.mem_insert_of_mem hM)]
      rfl
    · have hnot : i ∉ L3.mark := fun hx => hi (Finset.mem_sdiff.mpr ⟨hx, hM⟩)
      rw [h3.offset i fun hx => hnot (Finset.mem_sdiff.mp hx).1,
        h2.offset i fun hx => hnot (h3.visits.subset (Finset.mem_sdiff.mp hx).1)]
      rfl
  obtain ⟨body2, hfront2, hlen2⟩ := h2.front
  obtain ⟨body3, hfront3, hlen3⟩ := h3.front
  obtain ⟨body4, hfront4, hlen4⟩ := h4.front
  have hfront : Front (body4 ++ (body3 ++ body2)) L L4 := by
    have hfront2' : Front body2 L L2 := ⟨hfront2.fcode, hfront2.ftail⟩
    exact (hfront2'.trans hfront3).trans hfront4
  refine ⟨h4.mark ▸ hvisits, by rw [h4.long, h3.long, h2.long]; rfl, ⟨_, hfront, ?_⟩, ?_, ?_, ?_,
    h4.good⟩
  · rw [List.length_append, List.length_append, hlen4, hlen3, hlen2, h4.mark, hsum, h3.long,
      h2.long]
    simp only [FcodeLayout.enter]
    omega
  · intro i hi
    rw [h4.mark] at hi
    have hip : i ≠ p := by
      rintro rfl
      exact hi (Finset.mem_sdiff.mpr ⟨hvisits.mem (List.mem_singleton_self _), hpM⟩)
    rw [h4.offset i hip, hkeep i hi]
  · intro q hq _
    cases hq
    exact h4.start
  · intro i hi
    rw [h4.mark] at hi
    obtain ⟨hi3, hiM⟩ := Finset.mem_sdiff.mp hi
    by_cases hip : i = p
    · rw [hip]
      exact h4.placed
    · -- it lies above `p`, and so do its targets
      have hle : p ≤ i := by
        rcases (hvisits i).mp hi3 with hM | ⟨q, hq, hr⟩
        · exact absurd hM hiM
        · rw [List.mem_singleton.mp hq] at hr
          exact hr.le hG.edgeTo_up
      have hlt : p < i := lt_of_le_of_ne hle (Ne.symm hip)
      have hsize : i < G.size := visits_lt hG (h.enters : Enters G _ (some p)) hvisits h.lt i hi3
      refine (((h.third hG hpM h2 h3).2 i hi3 hlt).front hfront4 (h4.offset i hip)) ?_
      intro side t ht
      exact h4.offset t (Nat.ne_of_gt (hlt.trans (hG.up hsize ht).1))

end Node

/-- `convert_code_r` places what is reachable, behind the blocks that were placed
before it, or marks a block whose branch is too far from its target. -/
theorem convertCode_spec (hG : Sealed G) (hN : N < 2 ^ 32) {fuel : ℕ}
    (h : Ready G N fuel ptr L) :
    (∃ L', convertCode G fuel ptr L = some (true, L') ∧ Converted G N ptr L L') ∨
      ∃ L', convertCode G fuel ptr L = some (false, L') ∧ L'.long.Ok G ∧
        deficit G L'.long < deficit G L.long := by
  induction fuel generalizing ptr L with
  | zero =>
      cases ptr with
      | none =>
          exact .inl ⟨L, rfl, Converted.refl h.good (fun p hp => nomatch hp) (Visits.nil _)⟩
      -- with no fuel there is no block to enter: the fuel covers the blocks from `p` on
      | some p =>
          obtain ⟨hlt, hfuel⟩ := h.enters p rfl
          omega
  | succ fuel ih =>
      cases ptr with
      | none =>
          exact .inl ⟨L, rfl, Converted.refl h.good (fun p hp => nomatch hp) (Visits.nil _)⟩
      | some p =>
          by_cases hpM : p ∈ L.mark
          · -- the block has been converted already
            refine .inl ⟨L, by simp [convertCode, hpM], Converted.refl h.good ?_ ?_⟩
            · intro q hq
              cases hq
              exact hpM
            · exact Visits.marked hG.edgeTo_up (h.closed p rfl) hpM
          · -- the false branch first, then the true one, then the block in front of both
            have hunfold : convertCode G (fuel + 1) (some p) L =
                (convertCode G fuel (G.edge p false) (L.enter p)).bind fun r =>
                  if r.1 then (convertCode G fuel (G.edge p true) r.2).bind fun r =>
                    if r.1 then r.2.place G p else some (false, r.2)
                  else some (false, r.2) := by
              simp only [convertCode, hpM, if_false]
              rfl
            rw [hunfold]
            rcases ih (h.first hG hpM) with ⟨L2, hc2, h2⟩ | ⟨L2, hc2, hlong, hdef⟩
            · rcases ih (h.second hG hpM h2) with ⟨L3, hc3, h3⟩ | ⟨L3, hc3, hlong, hdef⟩
              · -- both branches are converted, so the block's targets are placed
                obtain ⟨hroom, hplaced⟩ := h.third hG hpM h2 h3
                have hp := (h.enters p rfl).1
                have hlong3 : L3.long = L.long := h3.long.trans h2.long
                have htargets : ∀ side i, G.edge p side = some i → Placed G L3 i := by
                  intro side i hi
                  refine hplaced i ?_ (hG.up hp hi).1
                  cases side with
                  | true => exact h3.visits.mem (Option.mem_toList.mpr hi)
                  | false => exact h3.visits.subset (h2.visits.mem (Option.mem_toList.mpr hi))
                rcases place_spec hG hN hp h3.good (hlong3 ▸ h.long) htargets hroom with
                  ⟨L4, hc4, h4⟩ | ⟨L4, hc4, hok, hdef⟩
                · left
                  refine ⟨L4, ?_, Converted.node hG h hpM h2 h3 h4⟩
                  simp only [hc2, Option.bind_some, if_true, hc3, hc4]
                · -- the block has a jump that is too long, and is made long for the next try
                  right
                  refine ⟨L4, ?_, hok, hlong3 ▸ hdef⟩
                  simp only [hc2, Option.bind_some, if_true, hc3, hc4]
              · right
                refine ⟨L3, ?_, hlong, h2.long ▸ hdef⟩
                simp [hc2, hc3]
            · right
              refine ⟨L2, ?_, hlong, hdef⟩
              simp [hc2]

end Search

/-! ## The tries -/

/-- More instructions than any try needs. -/
def Graph.bound (G : Graph) : ℕ := ∑ i ∈ Finset.range G.size, (slength (G.code i).1 + 3)

/-- The array that `icode_to_fcode` returns: it is filled from its first place, which
is that of the root. -/
structure Emitted (G : Graph) (root : ℕ) (L : FcodeLayout) : Prop where
  ftail : L.ftail = 0
  root : root ∈ L.mark ∧ L.offset root = 0
  lt : ∀ i ∈ L.mark, i < G.size
  closed : ∀ i ∈ L.mark, ∀ side j, G.edge i side = some j → j ∈ L.mark
  placed : ∀ i ∈ L.mark, Placed G L i
  good : Good G L.fcode.length L
  length_le : L.fcode.length ≤ G.bound

section Tries

variable {G : Graph} {root : ℕ} {L : FcodeLayout}

/-- A block needs its statements, its branch and two jumps at most. -/
theorem room_le (hlong : L.long.Ok G) (i : ℕ) : room G L.long i ≤ slength (G.code i).1 + 3 := by
  have hle := hlong.le_one i
  unfold room
  omega

/-- One try. -/
theorem try_spec (hG : Sealed G) (hroot : root < G.size) (hbound : G.bound < 2 ^ 32)
    (hlong : L.long.Ok G) :
    ∃ n M, countStmts G L.long G.size (some root) ∅ = some (n, M) ∧
      ((∃ L', convertCode G G.size (some root) { L with mark := ∅, ftail := n, fcode := [] } =
          some (true, L') ∧ Emitted G root L') ∨
        ∃ L', convertCode G G.size (some root) { L with mark := ∅, ftail := n, fcode := [] } =
          some (false, L') ∧ L'.long.Ok G ∧ deficit G L'.long < deficit G L.long) := by
  have henters : Enters G G.size (some root) := by
    intro i hi
    cases hi
    exact ⟨hroot, Nat.le_add_right _ _⟩
  obtain ⟨M, hvisits, hcount⟩ := countStmts_spec (M := ∅) hG L.long henters
    fun i _ j hj => absurd hj (Finset.notMem_empty j)
  have hlt := visits_lt hG henters hvisits fun i hi => absurd hi (Finset.notMem_empty i)
  -- `n` is the count of the first pass, which is the length the second pass fills
  generalize hn : ∑ i ∈ M \ ∅, room G L.long i = n at hcount
  have hn_le : n ≤ G.bound := by
    rw [← hn, Finset.sdiff_empty]
    calc ∑ i ∈ M, room G L.long i ≤ ∑ i ∈ M, (slength (G.code i).1 + 3) :=
          Finset.sum_le_sum fun i _ => room_le hlong i
      _ ≤ G.bound := Finset.sum_le_sum_of_subset fun i hi => Finset.mem_range.mpr (hlt i hi)
  refine ⟨n, M, hcount, ?_⟩
  have hready : Ready G n G.size (some root) { L with mark := ∅, ftail := n, fcode := [] } := by
    refine ⟨henters, fun i hi => absurd hi (Finset.notMem_empty i),
      fun b _ i hi => absurd hi (Finset.notMem_empty i),
      fun b _ i hi => absurd hi (Finset.notMem_empty i), ⟨rfl, fun a p ha => ?_, fun p hp => ?_⟩,
      hlong, fun M' hM' => ?_⟩
    · simp [FcodeLayout.at] at ha
    · cases hp
    · rw [hM'.unique hvisits]
      exact hn.le
  rcases convertCode_spec hG (hn_le.trans_lt hbound) hready with ⟨L', hc, h⟩ | ⟨L', hc, hok, hdef⟩
  · left
    refine ⟨L', hc, ?_⟩
    have hmark : L'.mark = M := h.visits.unique hvisits
    -- what is left in front of the program is what the count had too much, which is nothing
    have hftail : L'.ftail = 0 := by
      have hsum := h.ftail
      simp only [hmark] at hsum
      omega
    have htotal := h.good.total
    rw [hftail, Nat.zero_add] at htotal
    have hall : ∀ i ∈ L'.mark, i ∈ L'.mark \ (∅ : Finset ℕ) := fun i hi => by
      rw [Finset.sdiff_empty]
      exact hi
    refine ⟨hftail, ⟨h.visits.mem (List.mem_singleton_self _), ?_⟩, hmark ▸ hlt, ?_,
      fun i hi => h.placed i (hall i hi), htotal ▸ h.good, htotal ▸ hn_le⟩
    · rw [h.start root rfl (Finset.notMem_empty _), hftail]
    · -- the blocks converted are the ones reached from the root
      intro i hi side j hj
      rcases (h.visits i).mp hi with hM | ⟨q, hq, hr⟩
      · exact absurd hM (Finset.notMem_empty i)
      · exact (h.visits j).mpr
          (.inr ⟨q, hq, Relation.ReflTransGen.tail hr ⟨hlt i (hmark ▸ hi), side, hj⟩⟩)
  · exact .inr ⟨L', hc, hok, hdef⟩

/-- The tries end: each that fails marks a side, and there are finitely many. -/
theorem icodeToFcode_spec (hG : Sealed G) (hroot : root < G.size) (hbound : G.bound < 2 ^ 32)
    {tries : ℕ} (hlong : L.long.Ok G) (htries : deficit G L.long < tries) :
    ∃ L', icodeToFcode G root tries L = some L'.fcode ∧ Emitted G root L' := by
  induction tries generalizing L with
  | zero => exact absurd htries (Nat.not_lt_zero _)
  | succ tries ih =>
      obtain ⟨n, M, hcount, h⟩ := try_spec hG hroot hbound hlong
      rcases h with ⟨L', hc, h⟩ | ⟨L', hc, hok, hdef⟩
      · refine ⟨L', ?_, h⟩
        simp [icodeToFcode, hcount, hc, h.ftail]
      · obtain ⟨L'', hloop, h⟩ := ih hok (by omega)
        refine ⟨L'', ?_, h⟩
        simp [icodeToFcode, hcount, hc, hloop]

/-- At the start every branch is short. -/
theorem long_start_ok (G : Graph) : FcodeLayout.start.long.Ok G :=
  ⟨fun _ => ⟨Nat.zero_le 1, Nat.zero_le 1⟩, fun _ _ => ⟨rfl, rfl⟩⟩

/-- So there are two for each block to be made long. -/
theorem deficit_start (G : Graph) : deficit G FcodeLayout.start.long = 2 * G.size := by
  simp [deficit, FcodeLayout.start, Finset.sum_const, Nat.mul_comm]

end Tries

end MobiPerf.Capture
