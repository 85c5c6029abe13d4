import MobiPerf.Measurements.Traceroute

/-!
# Measurements.Addresses — what is taken for an address

A text is cut at its separators, and its pieces are read as numbers. Empty pieces
at the end are dropped, a sign and the digits of other scripts are read, and
pieces that are missing are not missed: the validators accept more than
addresses, and of those only one kind is not accepted.

* `TracerouteTask.isValidIpv4Addr_iff`, `TracerouteTask.isValidIpv6Addr_iff`: the
  pieces of what is accepted;
* `TracerouteTask.extracts_iff`: only addresses are accepted, and they all are,
  for texts that are none of these; a line that starts with `From` is searched
  when it has a second word.
-/

namespace MobiPerf.Measurements

open Lib Scheduler

namespace TracerouteTask

/-! ## Numbers -/

section Numbers

/-- What the validators take for a number up to `bound`. -/
def Loose (radix : ℕ) (bound : ℤ) (t : List Char) : Prop :=
  ∃ n, parseRadix radix t = some n ∧ 0 ≤ n ∧ n ≤ bound

/-- A decimal number up to 255. -/
structure Octet (t : List Char) : Prop where
  nonempty : t ≠ []
  digits : ∀ c ∈ t, c.isDigit
  le : Nat.ofDigitChars 10 t 0 ≤ 255

def isHexDigit (c : Char) : Prop := c.isDigit ∨ ('a' ≤ c ∧ c ≤ 'f') ∨ ('A' ≤ c ∧ c ≤ 'F')

/-- A group of an address: up to four hexadecimal digits. -/
structure Group (t : List Char) : Prop where
  nonempty : t ≠ []
  digits : ∀ c ∈ t, isHexDigit c
  length_le : t.length ≤ 4

instance : DecidablePred isHexDigit := fun _ => inferInstanceAs (Decidable (_ ∨ _))

variable {t : List Char}

/-- One digit is a group. -/
theorem group_singleton {c : Char} (h : c.isDigit) : Group [c] :=
  ⟨List.cons_ne_nil _ _, fun _ hd => List.mem_singleton.mp hd ▸ Or.inl h, Nat.le_add_left 1 3⟩

/-- An octet is a number up to 255. -/
theorem Octet.loose (h : Octet t) : Loose 10 255 t := by
  have hall : t.all fun d => (charDigit 10 d).isSome := by
    rw [List.all_eq_true]
    intro c hc
    rw [charDigit_of_isDigit (by decide) (h.digits c hc)]
    rfl
  have hvalue := radixValue_of_isDigit h.digits
  have hle := h.le
  refine ⟨radixValue 10 t, ?_, by omega, by omega⟩
  rw [parseRadix_of_digits h.nonempty hall]
  exact Option.filter_some_pos (decide_eq_true (by omega))

/-- A loose number without signs or digits of other scripts. -/
theorem octet_of_loose (h : Loose 10 255 t) (hdigits : ∀ c ∈ t, c.isDigit) : Octet t := by
  obtain ⟨n, hn, h0, hle⟩ := h
  have hne : t ≠ [] := by
    rintro rfl
    cases hn
  have hall : t.all fun d => (charDigit 10 d).isSome := by
    rw [List.all_eq_true]
    intro c hc
    rw [charDigit_of_isDigit (by decide) (hdigits c hc)]
    rfl
  rw [parseRadix_of_digits hne hall] at hn
  obtain ⟨hvalue, -⟩ := Option.filter_eq_some_iff.mp hn
  cases hvalue
  rw [radixValue_of_isDigit hdigits] at hle
  exact ⟨hne, hdigits, by omega⟩

/-- A hexadecimal digit has a value. -/
theorem charDigit_isSome_of_isHexDigit {c : Char} (h : isHexDigit c) :
    (charDigit 16 c).isSome := by
  rcases h with hdigit | hlower | hupper
  · rw [charDigit_of_isDigit (by decide) hdigit]
    rfl
  · have hlo : 97 ≤ c.toNat := hlower.1
    have hhi : c.toNat ≤ 102 := hlower.2
    have hdigit : ¬ c.isDigit := fun hdigit => by
      have h57 : c.toNat ≤ 57 := (Char.isDigit_iff_toNat.mp hdigit).2
      omega
    have hletter : 'a' ≤ c ∧ c ≤ 'z' :=
      ⟨hlower.1, Char.le_trans hlower.2 (by decide)⟩
    have hlt : decide (c.toNat - 87 < 16) = true := decide_eq_true (by omega)
    simp only [charDigit, if_neg hdigit, if_pos hletter, Option.filter_some, hlt]
    rfl
  · have hlo : 65 ≤ c.toNat := hupper.1
    have hhi : c.toNat ≤ 70 := hupper.2
    have hdigit : ¬ c.isDigit := fun hdigit => by
      have h57 : c.toNat ≤ 57 := (Char.isDigit_iff_toNat.mp hdigit).2
      omega
    have hlower : ¬ ('a' ≤ c ∧ c ≤ 'z') := fun hlower => by
      have h97 : 97 ≤ c.toNat := hlower.1
      omega
    have hletter : 'A' ≤ c ∧ c ≤ 'Z' :=
      ⟨hupper.1, Char.le_trans hupper.2 (by decide)⟩
    have hlt : decide (c.toNat - 55 < 16) = true := decide_eq_true (by omega)
    simp only [charDigit, if_neg hdigit, if_neg hlower, if_pos hletter, Option.filter_some, hlt]
    rfl

/-- A group is a number of 16 bits. -/
theorem Group.loose (h : Group t) : Loose 16 0xFFFF t := by
  have hall : t.all fun d => (charDigit 16 d).isSome :=
    List.all_eq_true.mpr fun c hc => charDigit_isSome_of_isHexDigit (h.digits c hc)
  have hlt : radixValue 16 t < 16 ^ t.length := radixValue_lt (by decide) t
  have hpow : 16 ^ t.length ≤ 16 ^ 4 := Nat.pow_le_pow_right (by decide) h.length_le
  refine ⟨radixValue 16 t, ?_, by omega, by omega⟩
  rw [parseRadix_of_digits h.nonempty hall]
  exact Option.filter_some_pos (decide_eq_true (by omega))

end Numbers

/-! ## Pieces -/

section Pieces

/-- A text cut at each separator. -/
def pieces (c : Char) (s : String) : List (List Char) := s.toList.splitOn c

/-- The pieces up to the last that is not empty. -/
def kept (p : List (List Char)) : List (List Char) := p.rdropWhile (· = [])

variable {p : List (List Char)}

/-- Nothing is dropped behind a piece that is not empty. -/
theorem kept_of_last {t : List Char} (ht : t ≠ []) : kept (p ++ [t]) = p ++ [t] :=
  List.rdropWhile_concat_neg _ _ _ (by simpa using ht)

/-- An empty piece at the end is dropped. -/
theorem kept_append_nil : kept (p ++ [[]]) = kept p :=
  List.rdropWhile_concat_pos _ _ _ (decide_eq_true rfl)

/-- There are no more pieces than before. -/
theorem length_kept_le : (kept p).length ≤ p.length := (List.rdropWhile_prefix _ _).length_le

/-- What is dropped is empty. -/
theorem forall_mem_kept {P : List Char → Prop} :
    (∀ t ∈ kept p, t = [] ∨ P t) ↔ ∀ t ∈ p, t = [] ∨ P t := by
  constructor
  · intro h t ht
    rw [← List.rdropWhile_append_rtakeWhile (p := fun t : List Char => decide (t = [])) (l := p)]
      at ht
    rcases List.mem_append.mp ht with ht | ht
    · exact h t ht
    · have hempty := List.mem_rtakeWhile_imp ht
      exact Or.inl (of_decide_eq_true hempty)
  · intro h t ht
    exact h t ((List.rdropWhile_prefix _ _).subset ht)

/-- Java drops the empty pieces at the end. -/
theorem split_eq_of_ne_one {c : Char} {s : String} (h : (pieces c s).length ≠ 1) :
    split c s = (kept (pieces c s)).map String.ofList := congrArg _ (if_neg h)

/-- A text of one piece is kept as it is. -/
theorem split_eq_of_one {c : Char} {s : String} (h : (pieces c s).length = 1) :
    split c s = (pieces c s).map String.ofList := congrArg _ (if_pos h)

/-- A number in the range is read from a loose numeral. -/
theorem any_parseRadix_iff {radix : ℕ} {bound : ℤ} {t : List Char} :
    (parseRadix radix t).any (fun val => decide (0 ≤ val ∧ val ≤ bound)) ↔ Loose radix bound t := by
  rw [Option.any_eq_true]
  exact exists_congr fun n => and_congr_right fun _ => decide_eq_true_iff

/-- What the first validator accepts: four loose numbers, and empty pieces behind
them. -/
theorem isValidIpv4Addr_iff {ip : String} : isValidIpv4Addr ip ↔
    (kept (pieces '.' ip)).length = 4 ∧ ∀ t ∈ kept (pieces '.' ip), Loose 10 255 t := by
  unfold isValidIpv4Addr
  by_cases hone : (pieces '.' ip).length = 1
  · have hle := length_kept_le (p := pieces '.' ip)
    rw [split_eq_of_one hone]
    refine iff_of_false ?_ fun h => by omega
    simp [hone]
  · rw [split_eq_of_ne_one hone]
    simp only [Bool.and_eq_true, decide_eq_true_eq, List.length_map, List.all_map,
      List.all_eq_true, Function.comp_apply, parseInt, String.toList_ofList]
    exact and_congr_right fun _ => forall₂_congr fun t _ => any_parseRadix_iff

/-- What the second one accepts: at most eight loose groups, some of them missing,
and empty pieces behind them. -/
theorem isValidIpv6Addr_iff {ip : String} : isValidIpv6Addr ip ↔
    (kept (pieces ':' ip)).length ≤ 8 ∧ ∀ t ∈ pieces ':' ip, t = [] ∨ Loose 16 0xFFFF t := by
  have htoken : ∀ t : List Char, (decide (String.ofList t = "") ||
      (parseHex (String.ofList t).toList).any fun val => 0 ≤ val ∧ val ≤ 0xFFFF) = true ↔
        t = [] ∨ Loose 16 0xFFFF t := by
    intro t
    rw [Bool.or_eq_true, decide_eq_true_eq, String.toList_ofList]
    refine or_congr ?_ any_parseRadix_iff
    rw [← String.toList_inj, String.toList_ofList]
    rfl
  unfold isValidIpv6Addr
  by_cases hone : (pieces ':' ip).length = 1
  · have hle := length_kept_le (p := pieces ':' ip)
    rw [split_eq_of_one hone]
    simp only [Bool.and_eq_true, decide_eq_true_eq, List.length_map, List.all_map,
      List.all_eq_true, Function.comp_apply, htoken]
    exact and_congr (iff_of_true (by omega) (by omega)) Iff.rfl
  · rw [split_eq_of_ne_one hone, ← forall_mem_kept]
    simp only [Bool.and_eq_true, decide_eq_true_eq, List.length_map, List.all_map,
      List.all_eq_true, Function.comp_apply, htoken]

/-- Texts without the separator are the pieces of their join. -/
theorem pieces_intercalate {c : Char} {s : String} {texts : List (List Char)} (hne : texts ≠ [])
    (hc : ∀ t ∈ texts, c ∉ t) (hs : s.toList = [c].intercalate texts) : pieces c s = texts := by
  unfold pieces
  rw [hs]
  exact List.splitOn_intercalate c hc hne

/-- The pieces make up the text. -/
theorem intercalate_pieces (c : Char) (s : String) : [c].intercalate (pieces c s) = s.toList :=
  List.intercalate_splitOn c

end Pieces

/-! ## Dotted quads -/

section Quads

/-- Four decimal numbers up to 255 with a dot between each two, and nothing else. -/
def DottedQuad (ip : String) : Prop :=
  ∃ numbers : List (List Char), numbers.length = 4 ∧ (∀ t ∈ numbers, Octet t) ∧
    ip.toList = ['.'].intercalate numbers

/-- A text that slips through: four loose numbers, one of them with a sign or a
digit of another script, or with dots behind them. -/
structure QuadSlips (p : List (List Char)) : Prop where
  four : (kept p).length = 4
  loose : ∀ t ∈ kept p, Loose 10 255 t
  slip : (∃ t ∈ kept p, ∃ c ∈ t, ¬ c.isDigit) ∨ p.getLast? = some []

variable {ip : String}

/-- A dotted quad has four pieces, each of them an octet. -/
theorem dottedQuad_iff : DottedQuad ip ↔
    (pieces '.' ip).length = 4 ∧ ∀ t ∈ pieces '.' ip, Octet t := by
  constructor
  · rintro ⟨numbers, hlength, hnumbers, hip⟩
    have hne : numbers ≠ [] := by
      rintro rfl
      cases hlength
    have hdot : ∀ t ∈ numbers, '.' ∉ t := fun t ht hmem =>
      absurd ((hnumbers t ht).digits '.' hmem) (by decide)
    rw [pieces_intercalate hne hdot hip]
    exact ⟨hlength, hnumbers⟩
  · rintro ⟨hlength, hnumbers⟩
    exact ⟨_, hlength, hnumbers, (intercalate_pieces '.' ip).symm⟩

/-- Pieces that are not empty are all kept. -/
theorem kept_of_forall_ne {p : List (List Char)} (h : ∀ t ∈ p, t ≠ []) : kept p = p := by
  unfold kept
  rw [List.rdropWhile_eq_self_iff]
  intro hne
  simpa using h _ (List.getLast_mem hne)

/-- A dotted quad is valid. -/
theorem isValidIpv4Addr_of_dottedQuad (h : DottedQuad ip) : isValidIpv4Addr ip := by
  obtain ⟨hlength, hnumbers⟩ := dottedQuad_iff.mp h
  rw [isValidIpv4Addr_iff, kept_of_forall_ne fun t ht => (hnumbers t ht).nonempty]
  exact ⟨hlength, fun t ht => (hnumbers t ht).loose⟩

/-- The first validator accepts what it should, and no more, when nothing slips
through. -/
theorem ipv4_iff : (isValidIpv4Addr ip ↔ DottedQuad ip) ↔ ¬ QuadSlips (pieces '.' ip) := by
  constructor
  · rintro hexact ⟨hfour, hloose, hslip⟩
    obtain ⟨hlength, hnumbers⟩ :=
      dottedQuad_iff.mp (hexact.mp (isValidIpv4Addr_iff.mpr ⟨hfour, hloose⟩))
    rw [kept_of_forall_ne fun t ht => (hnumbers t ht).nonempty] at hslip
    rcases hslip with ⟨t, ht, c, hc, hdigit⟩ | hlast
    · exact hdigit ((hnumbers t ht).digits c hc)
    · exact (hnumbers [] (List.mem_of_getLast? hlast)).nonempty rfl
  · intro hslips
    refine ⟨fun hvalid => ?_, isValidIpv4Addr_of_dottedQuad⟩
    obtain ⟨hfour, hloose⟩ := isValidIpv4Addr_iff.mp hvalid
    have hkept : kept (pieces '.' ip) = pieces '.' ip := by
      unfold kept
      rw [List.rdropWhile_eq_self_iff]
      intro hne hempty
      refine hslips ⟨hfour, hloose, Or.inr ?_⟩
      rw [List.getLast?_eq_some_getLast hne, of_decide_eq_true hempty]
    rw [dottedQuad_iff, ← hkept]
    refine ⟨hfour, fun t ht => octet_of_loose (hloose t ht) fun c hc => ?_⟩
    by_contra hdigit
    exact hslips ⟨hfour, hloose, Or.inl ⟨t, ht, c, hc, hdigit⟩⟩

end Quads

/-! ## Groups -/

section Groups

/-- The pieces of the groups on one side of a gap: there is one, also without a
group. -/
def ends (groups : List (List Char)) : List (List Char) := if groups = [] then [[]] else groups

/-- Eight groups of hexadecimal digits with a colon between each two, or at most
seven with two colons in one place. -/
inductive TextualIpv6 (ip : String) : Prop where
  | full (groups : List (List Char)) (hlength : groups.length = 8)
      (hgroups : ∀ t ∈ groups, Group t) (hip : ip.toList = [':'].intercalate groups)
  | compressed (left right : List (List Char)) (hlength : left.length + right.length ≤ 7)
      (hleft : ∀ t ∈ left, Group t) (hright : ∀ t ∈ right, Group t)
      (hip : ip.toList = [':'].intercalate left ++ [':', ':'] ++ [':'].intercalate right)

/-- The pieces of an address. -/
inductive AddressPieces (p : List (List Char)) : Prop where
  | full (hlength : p.length = 8) (hgroups : ∀ t ∈ p, Group t)
  | compressed (left right : List (List Char)) (hlength : left.length + right.length ≤ 7)
      (hleft : ∀ t ∈ left, Group t) (hright : ∀ t ∈ right, Group t)
      (hp : p = ends left ++ [] :: ends right)

/-- The pieces of what the validator takes for an address. -/
structure LooseGroups (p : List (List Char)) : Prop where
  few : (kept p).length ≤ 8
  loose : ∀ t ∈ p, t = [] ∨ Loose 16 0xFFFF t

/-- The places where two colons meet. -/
def gaps (p : List (List Char)) : ℕ := p.tail.dropLast.count []

/-- What is not an address about some pieces: a group with a sign, digits of other
scripts or too many digits; no gap, and not eight groups; two gaps; one colon at
the start or at the end; eight groups and a gap. -/
inductive Slack (p : List (List Char)) : Prop where
  | group (t : List Char) (ht : t ∈ p) (hne : t ≠ []) (h : ¬ Group t)
  | noGap (h : gaps p = 0) (hnot : ¬ (p.length = 8 ∧ [] ∉ p))
  | gaps (h : 2 ≤ gaps p)
  | start (t : List Char) (rest : List (List Char)) (hp : p = [] :: t :: rest) (ht : t ≠ [])
  | stop (rest : List (List Char)) (t : List Char) (hp : p = rest ++ [t, []]) (ht : t ≠ [])
  | eight (groups : List (List Char)) (hp : p = groups ++ [[], []]) (hlength : groups.length = 8)

/-- Two colons and seven groups behind them. -/
def LateSeven (p : List (List Char)) : Prop :=
  ∃ right : List (List Char), p = [] :: [] :: right ∧ right.length = 7 ∧ ∀ t ∈ right, Group t

variable {p left right : List (List Char)}

theorem ends_nil : ends [] = [[]] := rfl

theorem ends_of_ne {groups : List (List Char)} (h : groups ≠ []) : ends groups = groups := if_neg h

/-- One side of the gap has a piece. -/
theorem ends_ne_nil (groups : List (List Char)) : ends groups ≠ [] := by
  unfold ends
  split
  · exact List.cons_ne_nil _ _
  · assumption

/-- A piece of it is empty or a group. -/
theorem mem_ends {groups : List (List Char)} {t : List Char} (h : t ∈ ends groups) :
    t = [] ∨ t ∈ groups := by
  unfold ends at h
  split at h
  · exact Or.inl (List.mem_singleton.mp h)
  · exact Or.inr h

/-- Its text is that of the groups. -/
theorem intercalate_ends (c : Char) (groups : List (List Char)) :
    [c].intercalate (ends groups) = [c].intercalate groups := by
  unfold ends
  split
  · rename_i hnil
    rw [hnil]
    rfl
  · rfl

/-- The text of two sides, with a colon between them. -/
theorem intercalate_append {c : Char} {l l' : List (List Char)} (hl : l ≠ []) (hl' : l' ≠ []) :
    [c].intercalate (l ++ l') = [c].intercalate l ++ c :: [c].intercalate l' := by
  induction l with
  | nil => exact absurd rfl hl
  | cons t l ih =>
      cases l with
      | nil =>
          rw [List.cons_append, List.nil_append, List.intercalate_cons_of_ne_nil hl',
            List.intercalate_singleton, List.append_assoc]
          rfl
      | cons t' l =>
          have hne : t' :: l ≠ [] := List.cons_ne_nil _ _
          rw [List.cons_append,
            List.intercalate_cons_of_ne_nil (List.append_ne_nil_of_left_ne_nil hne _),
            ih hne, List.intercalate_cons_of_ne_nil hne]
          simp

/-- A group has no colon. -/
theorem not_colon_of_group {t : List Char} (h : Group t) : ':' ∉ t := fun hmem =>
  absurd (h.digits ':' hmem) (by decide)

/-- An address by its pieces. -/
theorem textualIpv6_iff {ip : String} : TextualIpv6 ip ↔ AddressPieces (pieces ':' ip) := by
  -- a double colon is an empty piece; at either end of the text it is two
  have hjoin : ∀ left right : List (List Char),
      [':'].intercalate (ends left ++ [] :: ends right) =
        [':'].intercalate left ++ [':', ':'] ++ [':'].intercalate right := by
    intro left right
    rw [intercalate_append (ends_ne_nil left) (List.cons_ne_nil _ _),
      List.intercalate_cons_of_ne_nil (ends_ne_nil right), intercalate_ends, intercalate_ends]
    simp
  constructor
  · -- all eight groups, or fewer of them around a double colon
    rintro (⟨groups, hlength, hgroups, hip⟩ | ⟨left, right, hlength, hleft, hright, hip⟩)
    · have hne : groups ≠ [] := by
        rintro rfl
        cases hlength
      rw [pieces_intercalate hne (fun t ht => not_colon_of_group (hgroups t ht)) hip]
      exact .full hlength hgroups
    · rw [← hjoin] at hip
      refine .compressed left right hlength hleft hright (pieces_intercalate ?_ ?_ hip)
      · exact List.append_ne_nil_of_left_ne_nil (ends_ne_nil left) _
      · intro t ht
        have hcases : t = [] ∨ t ∈ left ∨ t ∈ right := by
          rcases List.mem_append.mp ht with ht | ht
          · exact (mem_ends ht).imp_right Or.inl
          · rcases List.mem_cons.mp ht with ht | ht
            · exact Or.inl ht
            · exact (mem_ends ht).imp_right Or.inr
        rcases hcases with rfl | ht | ht
        · exact List.not_mem_nil
        · exact not_colon_of_group (hleft t ht)
        · exact not_colon_of_group (hright t ht)
  · rintro (⟨hlength, hgroups⟩ | ⟨left, right, hlength, hleft, hright, hp⟩)
    · exact .full _ hlength hgroups (intercalate_pieces ':' ip).symm
    · refine .compressed left right hlength hleft hright ?_
      rw [← hjoin, ← hp, intercalate_pieces]

theorem gaps_ends (hleft : [] ∉ left) (hright : [] ∉ right) :
    gaps (ends left ++ [] :: ends right) = 1 := by
  have hfirst : (ends left).tail.count [] = 0 := by
    refine List.count_eq_zero.mpr fun hmem => ?_
    unfold ends at hmem
    split at hmem
    · exact List.not_mem_nil hmem
    · exact hleft (List.mem_of_mem_tail hmem)
  have hlast : (ends right).dropLast.count [] = 0 := by
    refine List.count_eq_zero.mpr fun hmem => ?_
    unfold ends at hmem
    split at hmem
    · exact List.not_mem_nil hmem
    · exact hright (List.dropLast_subset _ hmem)
  unfold gaps
  rw [List.tail_append_of_ne_nil (ends_ne_nil left),
    List.dropLast_append_of_ne_nil (List.cons_ne_nil _ _),
    List.dropLast_cons_of_ne_nil (ends_ne_nil right), List.count_append, List.count_cons, hfirst,
    hlast]
  rfl

/-- What is kept of an address with a gap. -/
theorem length_kept_ends (hleft : [] ∉ left) (hright : [] ∉ right) :
    (kept (ends left ++ [] :: ends right)).length =
      if right = [] then left.length else (ends left).length + 1 + right.length := by
  by_cases hnil : right = []
  · subst hnil
    have hcons : ends left ++ [] :: ends [] = (ends left ++ [[]]) ++ [[]] := by
      rw [ends_nil, List.append_assoc]
      rfl
    rw [if_pos rfl, hcons, kept_append_nil, kept_append_nil]
    by_cases hl : left = []
    · subst hl
      rfl
    · rw [ends_of_ne hl, kept_of_forall_ne fun t ht h => hleft (h ▸ ht)]
  · have hlast : right.dropLast ++ [right.getLast hnil] = right := List.dropLast_append_getLast hnil
    have hne : right.getLast hnil ≠ [] := fun h => hright (h ▸ List.getLast_mem hnil)
    have hp : ends left ++ [] :: ends right =
        (ends left ++ [] :: right.dropLast) ++ [right.getLast hnil] := by
      rw [ends_of_ne hnil, List.append_assoc, List.cons_append, hlast]
    rw [if_neg hnil, hp, kept_of_last hne, ← hp, ends_of_ne hnil, List.length_append,
      List.length_cons]
    omega

/-- A group is not empty. -/
theorem nil_notMem_of_group {groups : List (List Char)} (h : ∀ t ∈ groups, Group t) :
    [] ∉ groups := fun hmem => (h [] hmem).nonempty rfl

/-- A side has a piece for each of its groups, and one for none. -/
theorem length_ends (groups : List (List Char)) :
    (ends groups).length = max groups.length 1 := by
  unfold ends
  split
  · rename_i hnil
    rw [hnil]
    rfl
  · rename_i hne
    have hpos := List.length_pos_iff.mpr hne
    omega

/-- An address does not start with a single colon. -/
theorem eq_nil_of_start {t : List Char} {rest : List (List Char)} (hleft : [] ∉ left)
    (hp : ends left ++ [] :: ends right = [] :: t :: rest) : t = [] := by
  cases left with
  | nil =>
      rw [ends_nil] at hp
      exact (List.cons.inj (List.cons.inj hp).2).1.symm
  | cons first left =>
      rw [ends_of_ne (List.cons_ne_nil _ _)] at hp
      exact absurd (List.mem_cons.mpr (Or.inl (List.cons.inj hp).1.symm)) hleft

/-- Nor does it end with one. -/
theorem eq_nil_of_stop {t : List Char} {rest : List (List Char)} (hright : [] ∉ right)
    (hp : ends left ++ [] :: ends right = rest ++ [t, []]) : t = [] := by
  by_cases hnil : right = []
  · subst hnil
    have hsplit : (ends left ++ [[]]) ++ [[]] = (rest ++ [t]) ++ [[]] := by
      rw [List.append_assoc, List.append_assoc]
      exact hp
    have hfront := List.append_inj_left' hsplit rfl
    exact (List.singleton_injective (List.append_inj_right' hfront rfl)).symm
  · have hlast := congrArg List.getLast? hp
    rw [ends_of_ne hnil, List.getLast?_append_cons, List.getLast?_cons,
      List.getLast?_append_cons, List.getLast?_eq_some_getLast hnil] at hlast
    have hempty : right.getLast hnil = [] := Option.some.inj hlast
    exact absurd (hempty ▸ List.getLast_mem hnil) hright

/-- An address has none of the slips. -/
theorem AddressPieces.not_slack (h : AddressPieces p) : ¬ Slack p := by
  rcases h with ⟨hlength, hgroups⟩ | ⟨left, right, hlength, hleft, hright, rfl⟩
  · -- eight groups: no piece is empty
    have hnil := nil_notMem_of_group hgroups
    rintro (⟨t, ht, -, hnot⟩ | ⟨-, hnot⟩ | hgaps | ⟨t, rest, rfl, -⟩ | ⟨rest, t, rfl, -⟩ |
      ⟨groups, rfl, -⟩)
    · exact hnot (hgroups t ht)
    · exact hnot ⟨hlength, hnil⟩
    · have hzero : gaps p = 0 := List.count_eq_zero.mpr fun hmem =>
        hnil (List.mem_of_mem_tail (List.dropLast_subset _ hmem))
      omega
    · exact hnil List.mem_cons_self
    · exact hnil (by simp)
    · exact hnil (by simp)
  · -- the only gap is the one between the two sides
    have hl := nil_notMem_of_group hleft
    have hr := nil_notMem_of_group hright
    have hgap := gaps_ends hl hr
    rintro (⟨t, ht, hne, hnot⟩ | ⟨hzero, -⟩ | htwo | ⟨t, rest, hp, ht⟩ | ⟨rest, t, hp, ht⟩ |
      ⟨groups, hp, hgroups⟩)
    · rcases List.mem_append.mp ht with ht | ht
      · exact hnot (hleft t ((mem_ends ht).resolve_left hne))
      · rcases List.mem_cons.mp ht with ht | ht
        · exact hne ht
        · exact hnot (hright t ((mem_ends ht).resolve_left hne))
    · omega
    · omega
    · exact ht (eq_nil_of_start hl hp)
    · exact ht (eq_nil_of_stop hr hp)
    · -- eight groups in front of the gap are one too many
      have hlengths := congrArg List.length hp
      rw [List.length_append, List.length_append, List.length_cons, length_ends, length_ends,
        hgroups] at hlengths
      simp only [List.length_cons, List.length_nil] at hlengths
      omega

/-- The pieces on one side of a gap, where an empty one is alone. -/
theorem exists_ends {side : List (List Char)} (hne : side ≠ []) (h : [] ∈ side → side = [[]]) :
    ∃ groups, ends groups = side ∧ ∀ t ∈ groups, t ∈ side ∧ t ≠ [] := by
  by_cases hnil : [] ∈ side
  · exact ⟨[], (h hnil).symm, nofun⟩
  · exact ⟨side, ends_of_ne hne, fun t ht => ⟨ht, fun heq => hnil (heq ▸ ht)⟩⟩

theorem exists_gap (hone : gaps p = 1) : ∃ first before behind last,
    p = (first :: before) ++ [] :: (behind ++ [last]) ∧ [] ∉ before ∧ [] ∉ behind := by
  have hmem : [] ∈ p.tail.dropLast := List.count_pos_iff.mp (by unfold gaps at hone; omega)
  obtain ⟨before, behind, hinner⟩ := List.append_of_mem hmem
  have htail : p.tail ≠ [] := by
    intro hnil
    rw [hnil] at hmem
    exact List.not_mem_nil hmem
  have hp : p ≠ [] := by
    rintro rfl
    exact htail rfl
  have hcount := hone
  unfold gaps at hcount
  rw [hinner, List.count_append, List.count_cons_self] at hcount
  refine ⟨p.head hp, before, behind, p.tail.getLast htail, ?_, List.count_eq_zero.mp (by omega),
    List.count_eq_zero.mp (by omega)⟩
  calc p = p.head hp :: p.tail := (List.cons_head_tail hp).symm
    _ = p.head hp :: (p.tail.dropLast ++ [p.tail.getLast htail]) := by
        rw [List.dropLast_append_getLast htail]
    _ = _ := by
        rw [hinner]
        simp

/-- Without slips the pieces in front of the gap are those of groups: the first
piece is empty only when it is alone. -/
theorem exists_left_ends {first : List Char} {before rest : List (List Char)}
    (hslack : ¬ Slack p) (hp : p = (first :: before) ++ rest) (hbefore : [] ∉ before) :
    ∃ left, ends left = first :: before ∧ ∀ t ∈ left, t ∈ first :: before ∧ t ≠ [] := by
  refine exists_ends (List.cons_ne_nil _ _) fun hmem => ?_
  have hfirst : first = [] := ((List.mem_cons.mp hmem).resolve_right hbefore).symm
  cases before with
  | nil => rw [hfirst]
  | cons t before =>
      have ht : t ≠ [] := fun h => hbefore (h ▸ List.mem_cons_self)
      exact absurd (.start t _ (hfirst ▸ hp) ht) hslack

theorem exists_right_ends {last : List Char} {front behind : List (List Char)}
    (hslack : ¬ Slack p) (hp : p = front ++ (behind ++ [last])) (hbehind : [] ∉ behind) :
    ∃ right, ends right = behind ++ [last] ∧ ∀ t ∈ right, t ∈ behind ++ [last] ∧ t ≠ [] := by
  refine exists_ends (List.append_ne_nil_of_right_ne_nil _ (List.cons_ne_nil _ _)) fun hmem => ?_
  have hlast : last = [] :=
    (List.mem_singleton.mp ((List.mem_append.mp hmem).resolve_left hbehind)).symm
  rcases List.eq_nil_or_concat behind with rfl | ⟨behind', t, rfl⟩
  · rw [hlast]
    rfl
  · have ht : t ≠ [] := fun h => hbehind (h ▸ by simp)
    refine absurd (.stop (front ++ behind') t ?_ ht) hslack
    rw [hp, hlast]
    simp

/-- Loose groups without slips are an address. -/
theorem AddressPieces.of_loose (h : LooseGroups p) (hslack : ¬ Slack p) : AddressPieces p := by
  have hgroup : ∀ t ∈ p, t ≠ [] → Group t := fun t ht hne => by
    by_contra hnot
    exact hslack (.group t ht hne hnot)
  by_cases hzero : gaps p = 0
  · have height : p.length = 8 ∧ [] ∉ p := by
      by_contra hnot
      exact hslack (.noGap hzero hnot)
    exact .full height.1 fun t ht => hgroup t ht fun h => height.2 (h ▸ ht)
  · have hone : gaps p = 1 := by
      by_contra hne
      exact hslack (.gaps (by omega))
    obtain ⟨first, before, behind, last, hp, hbefore, hbehind⟩ := exists_gap hone
    obtain ⟨left, hleft, hleftMem⟩ := exists_left_ends hslack hp hbefore
    have hp' : p = (first :: before ++ [[]]) ++ (behind ++ [last]) := by
      rw [hp, List.append_assoc]
      rfl
    obtain ⟨right, hright, hrightMem⟩ := exists_right_ends hslack hp' hbehind
    rw [← hleft, ← hright] at hp
    have hmemLeft : ∀ t ∈ left, Group t := fun t ht =>
      hgroup t (hp ▸ hleft ▸ List.mem_append_left _ (hleftMem t ht).1) (hleftMem t ht).2
    have hmemRight : ∀ t ∈ right, Group t := fun t ht =>
      hgroup t (hp ▸ hright ▸ List.mem_append_right _ (List.mem_cons_of_mem _ (hrightMem t ht).1))
        (hrightMem t ht).2
    refine .compressed left right ?_ hmemLeft hmemRight hp
    -- the validator counts the pieces up to the last that is not empty
    have hfew := h.few
    rw [hp, length_kept_ends (nil_notMem_of_group hmemLeft) (nil_notMem_of_group hmemRight),
      length_ends] at hfew
    by_cases hnil : right = []
    · subst hnil
      rw [if_pos rfl] at hfew
      have height : left.length ≠ 8 := fun heq => by
        have hne : left ≠ [] := List.ne_nil_of_length_pos (by omega)
        refine hslack (.eight left ?_ heq)
        rw [hp, ends_of_ne hne, ends_nil]
      simp only [List.length_nil]
      omega
    · rw [if_neg hnil] at hfew
      omega

/-- The pieces of an address are empty or numbers of 16 bits. -/
theorem AddressPieces.loose (h : AddressPieces p) : ∀ t ∈ p, t = [] ∨ Loose 16 0xFFFF t := by
  rcases h with ⟨-, hgroups⟩ | ⟨left, right, -, hleft, hright, rfl⟩
  · exact fun t ht => Or.inr (hgroups t ht).loose
  · intro t ht
    rcases List.mem_append.mp ht with ht | ht
    · exact (mem_ends ht).imp_right fun ht => (hleft t ht).loose
    · rcases List.mem_cons.mp ht with ht | ht
      · exact Or.inl ht
      · exact (mem_ends ht).imp_right fun ht => (hright t ht).loose

/-- Of the addresses only those with seven groups behind a gap are missed. -/
theorem AddressPieces.looseGroups_or (h : AddressPieces p) : LooseGroups p ∨ LateSeven p := by
  by_cases hfew : (kept p).length ≤ 8
  · exact Or.inl ⟨hfew, h.loose⟩
  · right
    rcases h with ⟨hlength, hgroups⟩ | ⟨left, right, hlength, hleft, hright, rfl⟩
    · have hle := length_kept_le (p := p)
      omega
    · rw [length_kept_ends (nil_notMem_of_group hleft) (nil_notMem_of_group hright), length_ends]
        at hfew
      by_cases hnil : right = []
      · rw [if_pos hnil] at hfew
        omega
      · rw [if_neg hnil] at hfew
        have hzero : left = [] := List.length_eq_zero_iff.mp (by omega)
        subst hzero
        rw [List.length_nil] at hlength hfew
        refine ⟨right, ?_, by omega, hright⟩
        rw [ends_nil, ends_of_ne hnil]
        rfl

/-- Such an address is well formed, and still refused. -/
theorem LateSeven.addressPieces (h : LateSeven p) : AddressPieces p ∧ ¬ LooseGroups p := by
  obtain ⟨right, rfl, hlength, hright⟩ := h
  have hne : right ≠ [] := List.ne_nil_of_length_pos (by omega)
  have hp : [] :: [] :: right = ends [] ++ [] :: ends right := by
    rw [ends_nil, ends_of_ne hne]
    rfl
  refine ⟨.compressed [] right (by rw [List.length_nil]; omega) nofun hright hp, fun hloose => ?_⟩
  have hfew := hloose.few
  rw [hp, length_kept_ends List.not_mem_nil (nil_notMem_of_group hright), if_neg hne, length_ends,
    hlength] at hfew
  simp only [List.length_nil] at hfew
  omega

/-- What is accepted, by the pieces. -/
theorem isValidIpv6Addr_iff_looseGroups {ip : String} :
    isValidIpv6Addr ip ↔ LooseGroups (pieces ':' ip) := by
  rw [isValidIpv6Addr_iff]
  exact ⟨fun h => ⟨h.1, h.2⟩, fun h => ⟨h.few, h.loose⟩⟩

/-- The second validator accepts what it should, and no more, when no loose groups
slip through and the groups are not seven behind a gap. -/
theorem ipv6_iff {ip : String} : (isValidIpv6Addr ip ↔ TextualIpv6 ip) ↔
    ¬ (LooseGroups (pieces ':' ip) ∧ Slack (pieces ':' ip)) ∧ ¬ LateSeven (pieces ':' ip) := by
  rw [isValidIpv6Addr_iff_looseGroups, textualIpv6_iff]
  constructor
  · intro hexact
    refine ⟨fun h => (hexact.mp h.1).not_slack h.2, fun hseven => ?_⟩
    exact hseven.addressPieces.2 (hexact.mpr hseven.addressPieces.1)
  · rintro ⟨hslack, hseven⟩
    refine ⟨fun h => AddressPieces.of_loose h fun hslips => hslack ⟨h, hslips⟩, fun h => ?_⟩
    exact h.looseGroups_or.resolve_right hseven

end Groups

/-! ## Lines -/

section Lines

/-- The host of a line is none, or a word of it that is accepted. -/
def Searched (line : String) : Prop :=
  startsWith "From" line → ∃ ip, getHostIp line = .ok ip ∧
    ∀ host ∈ ip, host ∈ split ' ' line ∧ isValidAddr host

/-- A line is searched without an exception exactly when it is well formed. -/
theorem searched_iff {line : String} : Searched line ↔ WellFormed line := by
  unfold Searched WellFormed
  refine imp_congr_right fun _ => ?_
  constructor
  · rintro ⟨ip, hip, -⟩
    by_contra hshort
    have hnone : (split ' ' line)[1]? = none := List.getElem?_eq_none (by omega)
    unfold getHostIp at hip
    simp only [hnone] at hip
    cases hip
  · intro hlength
    have hsome : (split ' ' line)[1]? = some (split ' ' line)[1] := List.getElem?_eq_getElem hlength
    unfold getHostIp
    simp only [hsome]
    split
    · rename_i hvalid
      refine ⟨_, rfl, fun host hhost => ?_⟩
      cases hhost
      exact ⟨List.getElem_mem hlength, hvalid⟩
    · refine ⟨_, rfl, fun host hhost => ?_⟩
      exact ⟨List.mem_of_mem_eraseIdx (List.mem_of_find?_eq_some hhost),
        List.find?_some hhost⟩

/-- The validators accept exactly addresses, and a line is searched. -/
structure Extracts (ip line : String) : Prop where
  ipv4 : isValidIpv4Addr ip ↔ DottedQuad ip
  ipv6 : isValidIpv6Addr ip ↔ TextualIpv6 ip
  host : Searched line

/-- The three functions agree with the addresses exactly where none of their slips
is met. -/
theorem extracts_iff (ip line : String) : Extracts ip line ↔
    ¬ QuadSlips (pieces '.' ip) ∧
      (¬ (LooseGroups (pieces ':' ip) ∧ Slack (pieces ':' ip)) ∧ ¬ LateSeven (pieces ':' ip)) ∧
        WellFormed line := by
  rw [← ipv4_iff, ← ipv6_iff, ← searched_iff]
  exact ⟨fun h => ⟨h.ipv4, h.ipv6, h.host⟩, fun h => ⟨h.1, h.2.1, h.2.2⟩⟩

/-- An ordinary word of hexadecimal digits is accepted, and so are four numbers
with a dot behind them; seven groups behind two colons are not, and a line of one
word is not searched. -/
theorem cafe_accepted :
    ¬ Extracts "cafe" "From 10.0.0.1 icmp_seq=1 Time to live exceeded" ∧
      ¬ Extracts "1.2.3.4." "From 10.0.0.1 icmp_seq=1 Time to live exceeded" ∧
        ¬ Extracts "::1:2:3:4:5:6:7" "From 10.0.0.1 icmp_seq=1 Time to live exceeded" ∧
          ¬ Extracts "10.0.0.1" "From" := by
  refine ⟨fun h => ?_, fun h => ?_, fun h => ?_, fun h => ?_⟩
  · have haddress := textualIpv6_iff.mp (h.ipv6.mp (by decide +kernel))
    exact haddress.not_slack (.noGap (by decide +kernel) (by decide +kernel))
  · have hquad := dottedQuad_iff.mp (h.ipv4.mp (by decide +kernel))
    exact absurd hquad.1 (by decide +kernel)
  · have hrejected : isValidIpv6Addr "::1:2:3:4:5:6:7" = false := by decide +kernel
    have haddress : TextualIpv6 "::1:2:3:4:5:6:7" := by
      refine .compressed [] (['1', '2', '3', '4', '5', '6', '7'].map fun c => [c]) (by decide) nofun
        (fun t ht => ?_) rfl
      obtain ⟨c, hc, rfl⟩ := List.mem_map.mp ht
      have hdigits : ['1', '2', '3', '4', '5', '6', '7'].all Char.isDigit := by decide
      exact group_singleton (List.all_eq_true.mp hdigits c hc)
    rw [h.ipv6.mpr haddress] at hrejected
    cases hrejected
  · exact absurd (searched_iff.mp h.host) (by decide +kernel)

end Lines

end TracerouteTask

end MobiPerf.Measurements
