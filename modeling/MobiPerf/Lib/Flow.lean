import Mathlib.Data.Finset.Basic
import MobiPerf.Lib.Machine

/-!
# Lib.Flow — flow graphs with a true and a false exit

A fragment of a flow graph decides a condition: it is entered at its head, each
of its nodes runs a block that takes one of two sides, and a side leads to another
node or out of the fragment, by its true or its false exit. Fragments are put in
sequence at one exit of the first, which is short-circuit evaluation, and swapped.
`Decides` says what a fragment computes; the rules say it of a compound fragment
from its parts.
-/

namespace MobiPerf.Lib

variable {ι σ ρ : Type*}

/-- Where a side of a node leads. -/
inductive Target (ι : Type*) where
  | node (i : ι)
  | exit (e : Bool)
deriving DecidableEq

/-- How a fragment is left: with a result of the whole program, or by an exit. -/
inductive Leaving (σ ρ : Type*) where
  | done (r : ρ)
  | exit (e : Bool) (s : σ)

namespace Leaving

/-- A block on its own is left by the side it takes. -/
def ofBlock : Stepped (Bool × σ) ρ → Leaving σ ρ
  | .halt r => done r
  | .next (b, s) => exit b s

/-- Go on behind the exit `e`. -/
def andThen (e : Bool) (x : Leaving σ ρ) (f : σ → Leaving σ ρ) : Leaving σ ρ :=
  match x with
  | done r => done r
  | exit b s => if b = e then f s else exit b s

def swap : Leaving σ ρ → Leaving σ ρ
  | done r => done r
  | exit b s => exit (!b) s

/-- The exit alone. -/
def side : Leaving σ ρ → Stepped Bool ρ
  | done r => .halt r
  | exit b _ => .next b

theorem side_ofBlock (x : Stepped (Bool × σ) ρ) : (ofBlock x).side = x.bind fun p => .next p.1 := by
  cases x <;> rfl

theorem side_swap (x : Leaving σ ρ) : x.swap.side = x.side.bind fun b => .next !b := by
  cases x <;> rfl

/-- Where the second part decides the same from every state. -/
theorem side_andThen {e : Bool} {x : Leaving σ ρ} {f : σ → Leaving σ ρ} {y : Stepped Bool ρ}
    (h : ∀ s, (f s).side = y) :
    (x.andThen e f).side = x.side.bind fun b => if b = e then y else .next b := by
  cases x with
  | done r => rfl
  | exit b s =>
      show (if b = e then f s else exit b s).side = if b = e then y else .next b
      split
      · exact h s
      · rfl

end Leaving

namespace Target

/-- The exit `e` becomes a node. -/
def redirect (e : Bool) (j : ι) : Target ι → Target ι
  | node i => node i
  | exit b => if b = e then node j else exit b

def swap : Target ι → Target ι
  | node i => node i
  | exit b => exit (!b)

theorem redirect_eq_exit {e b : Bool} {j : ι} {t : Target ι} :
    t.redirect e j = exit b ↔ t = exit b ∧ b = !e := by
  cases t with
  | node i => simp [redirect]
  | exit b' => cases b' <;> cases e <;> cases b <;> simp [redirect]

theorem redirect_eq_node {e : Bool} {j k : ι} {t : Target ι} :
    t.redirect e j = node k ↔ t = node k ∨ t = exit e ∧ k = j := by
  cases t with
  | node i => simp [redirect]
  | exit b =>
      by_cases h : b = e
      · simp [redirect, h, eq_comm]
      · simp [redirect, h]

theorem swap_eq_exit {b : Bool} {t : Target ι} : t.swap = exit b ↔ t = exit (!b) := by
  cases t with
  | node i => simp [swap]
  | exit b' => cases b' <;> cases b <;> simp [swap]

theorem swap_eq_node {k : ι} {t : Target ι} : t.swap = node k ↔ t = node k := by
  cases t <;> simp [swap]

end Target

/-- A fragment: it is entered at its head and its sides do not lead to nodes of
other fragments. -/
structure Flow (ι : Type*) where
  nodes : Finset ι
  head : ι
  succ : ι → Bool → Target ι
  head_mem : head ∈ nodes
  closed : ∀ i ∈ nodes, ∀ b j, succ i b = .node j → j ∈ nodes

namespace Flow

/-- One node, whose sides are the exits. -/
def single (i : ι) : Flow ι where
  nodes := {i}
  head := i
  succ _ b := .exit b
  head_mem := Finset.mem_singleton_self i
  closed := by
    intro i _ b j h
    cases h

/-- The exits change places. -/
def swap (F : Flow ι) : Flow ι where
  nodes := F.nodes
  head := F.head
  succ i b := (F.succ i b).swap
  head_mem := F.head_mem
  closed := fun i hi b j h => F.closed i hi b j (Target.swap_eq_node.mp h)

/-- The exit `e` of `F` leads to the head of `G`. -/
def seq [DecidableEq ι] (e : Bool) (F G : Flow ι) : Flow ι where
  nodes := F.nodes ∪ G.nodes
  head := F.head
  succ i b := if i ∈ F.nodes then (F.succ i b).redirect e G.head else G.succ i b
  head_mem := Finset.mem_union_left _ F.head_mem
  closed := by
    intro i hi b j h
    by_cases hF : i ∈ F.nodes
    · rw [if_pos hF] at h
      rcases Target.redirect_eq_node.mp h with h | ⟨-, rfl⟩
      · exact Finset.mem_union_left _ (F.closed i hF b j h)
      · exact Finset.mem_union_right _ G.head_mem
    · rw [if_neg hF] at h
      have hG : i ∈ G.nodes := (Finset.mem_union.mp hi).resolve_left hF
      exact Finset.mem_union_right _ (G.closed i hG b j h)

/-! ## Running a fragment -/

variable (exec : ι → σ → Stepped (Bool × σ) ρ)

/-- A node runs its block and takes a side of it. -/
def machine (F : Flow ι) : Machine (ι × σ) (Leaving σ ρ) := fun c =>
  match exec c.1 c.2 with
  | .halt r => .halt (.done r)
  | .next (b, s) =>
    match F.succ c.1 b with
    | .node j => .next (j, s)
    | .exit e => .halt (.exit e s)

/-- From its head the fragment computes `sem`. -/
def Decides (F : Flow ι) (sem : σ → Leaving σ ρ) : Prop :=
  ∀ s, (F.machine exec).Yields (F.head, s) (sem s)

variable {exec}

theorem machine_eq_next {F : Flow ι} {c : ι × σ} {c' : ι × σ} :
    F.machine exec c = .next c' ↔
      ∃ b, exec c.1 c.2 = .next (b, c'.2) ∧ F.succ c.1 b = .node c'.1 := by
  obtain ⟨j, s'⟩ := c'
  unfold machine
  cases hexec : exec c.1 c.2 with
  | halt r => simp
  | next p =>
      obtain ⟨b, s⟩ := p
      cases hsucc : F.succ c.1 b with
      | node k =>
          simp only [hsucc, Stepped.next.injEq, Prod.mk.injEq]
          constructor
          · rintro ⟨rfl, rfl⟩
            exact ⟨b, ⟨rfl, rfl⟩, by rw [hsucc]⟩
          · rintro ⟨b', ⟨rfl, rfl⟩, h⟩
            rw [hsucc] at h
            exact ⟨Target.node.inj h, rfl⟩
      | exit e =>
          simp only [hsucc, Stepped.next.injEq, Prod.mk.injEq]
          constructor
          · intro h
            cases h
          · rintro ⟨b', ⟨rfl, rfl⟩, h⟩
            rw [hsucc] at h
            cases h

theorem machine_eq_halt {F : Flow ι} {c : ι × σ} {r : Leaving σ ρ}
    (h : F.machine exec c = .halt r) :
    (∃ x, exec c.1 c.2 = .halt x ∧ r = .done x) ∨
      ∃ b s e, exec c.1 c.2 = .next (b, s) ∧ F.succ c.1 b = .exit e ∧ r = .exit e s := by
  unfold machine at h
  split at h
  · rename_i x hx
    cases h
    exact .inl ⟨x, hx, rfl⟩
  · rename_i b s hx
    split at h
    · cases h
    · rename_i e he
      cases h
      exact .inr ⟨b, s, e, hx, he, rfl⟩

/-- A node that halts, or whose side is an exit. -/
theorem yields_done {F : Flow ι} {i : ι} {s : σ} {x : ρ} (h : exec i s = .halt x) :
    (F.machine exec).Yields (i, s) (.done x) :=
  Machine.Yields.halt (by simp only [machine, h])

theorem yields_exit {F : Flow ι} {i : ι} {s s' : σ} {b e : Bool} (h : exec i s = .next (b, s'))
    (he : F.succ i b = .exit e) : (F.machine exec).Yields (i, s) (.exit e s') :=
  Machine.Yields.halt (by simp only [machine, h, he])

/-- Only the blocks of the fragment matter. -/
theorem Decides.congr {exec' : ι → σ → Stepped (Bool × σ) ρ} {F : Flow ι}
    {sem : σ → Leaving σ ρ} (h : F.Decides exec sem) (hsame : ∀ i ∈ F.nodes, exec i = exec' i) :
    F.Decides exec' sem := by
  intro s
  have hmachine : ∀ c : ι × σ, c.1 ∈ F.nodes → F.machine exec c = F.machine exec' c := by
    intro c hc
    simp only [machine, hsame c.1 hc]
  refine Machine.Yields.simulated (R := fun a b => a = b ∧ a.1 ∈ F.nodes) ?_ ?_ (h s)
    ⟨rfl, F.head_mem⟩
  · rintro c c' _ ⟨rfl, hc⟩ hstep
    obtain ⟨b, -, hsucc⟩ := machine_eq_next.mp hstep
    rw [hmachine c hc] at hstep
    exact ⟨c', Machine.Leads.single hstep, rfl, F.closed _ hc b _ hsucc⟩
  · rintro c _ ⟨rfl, hc⟩ hhalt
    rw [hmachine c hc] at hhalt
    exact Machine.Yields.halt hhalt

theorem decides_single (i : ι) :
    (single i).Decides exec fun s => Leaving.ofBlock (exec i s) := by
  intro s
  show (machine exec (single i)).Yields (i, s) (Leaving.ofBlock (exec i s))
  cases h : exec i s with
  | halt x => exact yields_done h
  | next p => exact yields_exit h rfl

theorem Decides.swap {F : Flow ι} {sem : σ → Leaving σ ρ} (h : F.Decides exec sem) :
    F.swap.Decides exec fun s => (sem s).swap := by
  intro s
  refine Machine.Yields.simulated (R := Eq) ?_ ?_ (h s) rfl
  · rintro c c' _ rfl hstep
    obtain ⟨b, hexec, hsucc⟩ := machine_eq_next.mp hstep
    refine ⟨c', Machine.Leads.single (machine_eq_next.mpr ⟨b, hexec, ?_⟩), rfl⟩
    exact Target.swap_eq_node.mpr hsucc
  · rintro c _ rfl hhalt
    show (machine exec F.swap).Yields c (sem s).swap
    rcases machine_eq_halt hhalt with ⟨x, hexec, heq⟩ | ⟨b, s', e, hexec, hsucc, heq⟩
    · rw [heq]
      exact yields_done hexec
    · rw [heq]
      exact yields_exit hexec (Target.swap_eq_exit.mpr (by rw [Bool.not_not]; exact hsucc))

section Seq

variable [DecidableEq ι] {F G : Flow ι} {e : Bool}

/-- The second fragment runs in the sequence as it runs alone. -/
theorem seq_yields_right (hdisj : Disjoint F.nodes G.nodes) {c : ι × σ} {r : Leaving σ ρ}
    (hc : c.1 ∈ G.nodes) (h : (G.machine exec).Yields c r) :
    ((seq e F G).machine exec).Yields c r := by
  have hsame : ∀ i ∈ G.nodes, ∀ b, (seq e F G).succ i b = G.succ i b := fun i hi b =>
    if_neg (Finset.disjoint_right.mp hdisj hi)
  refine Machine.Yields.simulated (R := fun a b => a = b ∧ a.1 ∈ G.nodes) ?_ ?_ h ⟨rfl, hc⟩
  · rintro c c' _ ⟨rfl, hc⟩ hstep
    obtain ⟨b, hexec, hsucc⟩ := machine_eq_next.mp hstep
    have hnext := machine_eq_next.mpr ⟨b, hexec, (hsame _ hc b).trans hsucc⟩
    exact ⟨c', Machine.Leads.single hnext, rfl, G.closed _ hc b _ hsucc⟩
  · rintro c _ ⟨rfl, hc⟩ hhalt
    rcases machine_eq_halt hhalt with ⟨x, hexec, rfl⟩ | ⟨b, s', e', hexec, hsucc, rfl⟩
    · exact yields_done hexec
    · exact yields_exit hexec ((hsame _ hc b).trans hsucc)

/-- The first fragment runs in the sequence as it runs alone, up to the exit where
the second one follows. -/
theorem seq_yields_left {c : ι × σ} {r q : Leaving σ ρ} (hc : c.1 ∈ F.nodes)
    (h : (F.machine exec).Yields c r)
    (hgo : ∀ s, r = .exit e s → ((seq e F G).machine exec).Yields (G.head, s) q)
    (hstop : (∀ s, r ≠ .exit e s) → q = r) : ((seq e F G).machine exec).Yields c q := by
  have hsame : ∀ i ∈ F.nodes, ∀ b, (seq e F G).succ i b = (F.succ i b).redirect e G.head :=
    fun i hi b => if_pos hi
  refine Machine.Yields.simulated (R := fun a b => a = b ∧ a.1 ∈ F.nodes) ?_ ?_ h ⟨rfl, hc⟩
  · rintro c c' _ ⟨rfl, hc⟩ hstep
    obtain ⟨b, hexec, hsucc⟩ := machine_eq_next.mp hstep
    have hnode : (seq e F G).succ c.1 b = .node c'.1 := by
      rw [hsame _ hc, hsucc]
      rfl
    have hnext := machine_eq_next.mpr ⟨b, hexec, hnode⟩
    exact ⟨c', Machine.Leads.single hnext, rfl, F.closed _ hc b _ hsucc⟩
  · rintro c _ ⟨rfl, hc⟩ hhalt
    rcases machine_eq_halt hhalt with ⟨x, hexec, rfl⟩ | ⟨b, s', e', hexec, hsucc, rfl⟩
    · rw [hstop fun s h => nomatch h]
      exact yields_done hexec
    · by_cases he : e' = e
      · subst he
        have hnode : (seq e' F G).succ c.1 b = .node G.head := by
          rw [hsame _ hc, hsucc, Target.redirect, if_pos rfl]
        have hnext : (seq e' F G).machine exec c = .next (G.head, s') :=
          machine_eq_next.mpr ⟨b, hexec, hnode⟩
        exact Machine.Yields.next hnext (hgo s' rfl)
      · rw [hstop fun s h => he (Leaving.exit.inj h).1]
        refine yields_exit hexec ?_
        rw [hsame _ hc, hsucc, Target.redirect, if_neg he]

/-- Short-circuit evaluation. -/
theorem Decides.seq {semF semG : σ → Leaving σ ρ} (hdisj : Disjoint F.nodes G.nodes)
    (hF : F.Decides exec semF) (hG : G.Decides exec semG) :
    (F.seq e G).Decides exec fun s => (semF s).andThen e semG := by
  intro s
  refine seq_yields_left F.head_mem (hF s) ?_ ?_
  · intro s' hs'
    show ((F.seq e G).machine exec).Yields (G.head, s') ((semF s).andThen e semG)
    rw [hs', Leaving.andThen, if_pos rfl]
    exact seq_yields_right hdisj G.head_mem (hG s')
  · intro hne
    show (semF s).andThen e semG = semF s
    cases hs : semF s with
    | done r => rfl
    | exit b s' =>
        rw [Leaving.andThen, if_neg]
        rintro rfl
        exact hne s' hs

end Seq

end Flow

end MobiPerf.Lib
