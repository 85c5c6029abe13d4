import Mathlib.Data.List.Basic

/-!
# Lib.Renewal — values that are withdrawn until they are renewed

A party is granted values (credentials, leases, handles) on request, uses them,
and withdraws one that turns out bad. A withdrawn value is *stale* until a
request made after the withdrawal has granted it again, and a stale value must
not be used. What happened is a log, the newest event first.

`Safe log held` is the invariant: no value held is stale, and no stale value was
used. There is one rule for each kind of event, and one for what ceases to be
held.
-/

namespace MobiPerf.Lib

/-- The events, for values of type `γ` and requests of type `ι`. -/
inductive Renewal (ι γ : Type*) where
  | requested (a : ι)
  | granted (a : ι) (c : γ)
  | used (c : γ)
  | withdrawn (c : γ)
deriving DecidableEq, Repr

namespace Renewal

variable {ι γ : Type*}

/-- Among these events, a request was made and granted `c`. -/
def Renewed (since : List (Renewal ι γ)) (c : γ) : Prop :=
  ∃ a, .requested a ∈ since ∧ .granted a c ∈ since

/-- `c` was withdrawn, and no request made since has granted it. -/
def Stale (log : List (Renewal ι γ)) (c : γ) : Prop :=
  ∃ since earlier, log = since ++ .withdrawn c :: earlier ∧ ¬ Renewed since c

/-- No value was used while it was stale. -/
def NoReuse (log : List (Renewal ι γ)) : Prop :=
  ∀ later earlier c, log = later ++ .used c :: earlier → ¬ Stale earlier c

structure Safe (log : List (Renewal ι γ)) (held : γ → Prop) : Prop where
  fresh : ∀ c, held c → ¬ Stale log c
  noReuse : NoReuse log

variable {log : List (Renewal ι γ)} {held : γ → Prop}

theorem safe_nil : Safe ([] : List (Renewal ι γ)) held := by
  constructor
  · rintro c _ ⟨since, earlier, heq, -⟩
    simp at heq
  · intro later earlier c heq
    simp at heq

/-- An event other than the withdrawal of `c` does not make `c` stale. -/
theorem Stale.of_cons {e : Renewal ι γ} {c : γ} (h : Stale (e :: log) c) (he : e ≠ .withdrawn c) :
    Stale log c := by
  rcases h with ⟨since, earlier, heq, hrenewed⟩
  cases since with
  | nil => exact absurd (List.cons.inj heq).1 he
  | cons e' since =>
      rcases List.cons.inj heq with ⟨rfl, hlog⟩
      refine ⟨since, earlier, hlog, ?_⟩
      rintro ⟨a, hrequested, hgranted⟩
      exact hrenewed ⟨a, List.mem_cons_of_mem _ hrequested, List.mem_cons_of_mem _ hgranted⟩

/-- Only a use can be a reuse. -/
theorem NoReuse.cons {e : Renewal ι γ} (h : NoReuse log)
    (he : ∀ c, e = .used c → ¬ Stale log c) : NoReuse (e :: log) := by
  intro later earlier c heq
  cases later with
  | nil =>
      rcases List.cons.inj heq with ⟨hused, rfl⟩
      exact he c hused
  | cons e' later => exact h later earlier c (List.cons.inj heq).2

/-! ## Rules -/

theorem Safe.mono {held' : γ → Prop} (h : Safe log held) (hsub : ∀ c, held' c → held c) :
    Safe log held' where
  fresh c hc := h.fresh c (hsub c hc)
  noReuse := h.noReuse

theorem Safe.request (h : Safe log held) (a : ι) : Safe (.requested a :: log) held where
  fresh c hc hstale := h.fresh c hc (hstale.of_cons nofun)
  noReuse := h.noReuse.cons nofun

/-- A value held may be used. -/
theorem Safe.use (h : Safe log held) {c : γ} (hc : held c) : Safe (.used c :: log) held where
  fresh d hd hstale := h.fresh d hd (hstale.of_cons nofun)
  noReuse := h.noReuse.cons fun d heq => by
    cases heq
    exact h.fresh c hc

theorem Safe.useAll (h : Safe log held) {cs : List γ} (hcs : ∀ c ∈ cs, held c) :
    Safe (cs.map .used ++ log) held := by
  induction cs with
  | nil => exact h
  | cons c cs ih =>
      have hrest := ih fun d hd => hcs d (List.mem_cons_of_mem c hd)
      exact hrest.use (hcs c List.mem_cons_self)

/-- A value is withdrawn when nothing holds it any more. -/
theorem Safe.withdraw (h : Safe log held) {c : γ} (hc : ¬ held c) :
    Safe (.withdrawn c :: log) held where
  fresh d hd hstale := by
    have hne : Renewal.withdrawn (ι := ι) c ≠ .withdrawn d := by
      rintro ⟨⟩
      exact hc hd
    exact h.fresh d hd (hstale.of_cons hne)
  noReuse := h.noReuse.cons nofun

/-- A granted value that nobody takes. -/
theorem Safe.grant_unheld (h : Safe log held) (a : ι) (c : γ) :
    Safe (.granted a c :: log) held where
  fresh d hd hstale := h.fresh d hd (hstale.of_cons nofun)
  noReuse := h.noReuse.cons nofun

/-- A granted value may be held, when each withdrawal of it was followed by the
request that granted it, or by one that has renewed it already. -/
theorem Safe.grant (h : Safe log held) {a : ι} {c : γ}
    (hrequest : ∀ since earlier, log = since ++ .withdrawn c :: earlier →
      Renewed since c ∨ .requested a ∈ since) :
    Safe (.granted a c :: log) fun d => held d ∨ d = c where
  fresh d hd hstale := by
    rcases hd with hd | rfl
    · exact h.fresh d hd (hstale.of_cons nofun)
    · rcases hstale with ⟨since, earlier, heq, hrenewed⟩
      cases since with
      | nil => simp at heq
      | cons e since =>
          rcases List.cons.inj heq with ⟨rfl, hlog⟩
          rcases hrequest since earlier hlog with ⟨b, hb, hgranted⟩ | ha
          · exact hrenewed ⟨b, List.mem_cons_of_mem _ hb, List.mem_cons_of_mem _ hgranted⟩
          · exact hrenewed ⟨a, List.mem_cons_of_mem _ ha, List.mem_cons_self⟩
  noReuse := h.noReuse.cons nofun

end Renewal

end MobiPerf.Lib
