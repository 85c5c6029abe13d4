import MobiPerf.Lib.Firsts
import MobiPerf.Measurements.Ping

/-!
# Measurements.PingReplies — duplicate replies and the packet loss

The loop over the output keeps the time of a reply when its sequence number is
new, and the loss of the last line that tells one. The least positive value
stands for no loss told yet, which no loss comes to.

* `PingTask.readsOnce_iff`: the times are the first ones, further replies change
  nothing, and the loss is the one told, exactly when the last line that speaks of
  packets does not speak of 0 packets sent.
-/

namespace MobiPerf.Measurements

open Lib Scheduler

namespace PingTask

variable {J : Platform}

/-! ## Times -/

section Times

/-- The loop keeps the first reply of each number. -/
theorem repliesOf_eq_firsts (lines : List String) :
    repliesOf J lines = firsts (lines.filterMap (replyOf J)) :=
  foldl_keepFirst _

/-- Replies with a number that was there before, of lines that are `P`, have been
inserted. -/
inductive Duplicated (J : Platform) (P : String → Prop) (lines : List String) :
    List String → Prop where
  | refl : Duplicated J P lines lines
  | insert {before after : List String} {line : String} {icmpSeq : ℤ} {time earlier : Value}
      (hrest : Duplicated J P lines (before ++ after))
      (hearlier : (icmpSeq, earlier) ∈ before.filterMap (replyOf J))
      (hreply : replyOf J line = some (icmpSeq, time)) (hline : P line) :
      Duplicated J P lines (before ++ line :: after)

variable {P : String → Prop} {lines lines' : List String}

/-- So a further reply changes nothing. -/
theorem Duplicated.repliesOf_eq (h : Duplicated J P lines lines') :
    repliesOf J lines' = repliesOf J lines := by
  induction h with
  | refl => rfl
  | insert hrest hearlier hreply hline ih =>
      rw [← ih, repliesOf_eq_firsts, repliesOf_eq_firsts, List.filterMap_append,
        List.filterMap_append, List.filterMap_cons_some hreply]
      exact firsts_insert _ (List.mem_map.mpr ⟨_, hearlier, rfl⟩)

/-- A line with a reply has a number that is an `int`. -/
theorem readsNumber_of_replyOf {line : String} {reply : ℤ × Value}
    (h : replyOf J line = some reply) : ReadsNumber line := by
  intro found hfound
  unfold replyOf at h
  obtain ⟨found', hfound', h⟩ := Option.bind_eq_some_iff.mp h
  obtain ⟨icmpSeq, hseq, -⟩ := Option.bind_eq_some_iff.mp h
  rw [hfound] at hfound'
  cases hfound'
  rw [hseq]
  rfl

/-- A line that was inserted can be read. -/
theorem Duplicated.readsNumber (h : Duplicated J P lines lines')
    (hlines : ∀ line ∈ lines, ReadsNumber line) : ∀ line ∈ lines', ReadsNumber line := by
  induction h with
  | refl => exact hlines
  | insert hrest hearlier hreply hline ih =>
      rw [List.forall_mem_append] at ih ⊢
      exact ⟨ih.1, List.forall_mem_cons.mpr ⟨readsNumber_of_replyOf hreply, ih.2⟩⟩

/-- The line does not speak of packets sent and received. -/
def Quiet (line : String) : Prop := extractPacketLossInfoFromPingOutput line = none

/-- A quiet line leaves the packets that were told. -/
theorem Duplicated.lossInfoOf_eq (h : Duplicated J Quiet lines lines') :
    lossInfoOf lines' = lossInfoOf lines := by
  induction h with
  | refl => rfl
  | insert hrest hearlier hreply hline ih =>
      rw [← ih]
      unfold lossInfoOf
      rw [List.filterMap_append, List.filterMap_append, List.filterMap_cons_none hline]

/-- Further replies leave all that the loop keeps. -/
theorem Duplicated.readingOf_eq (h : Duplicated J Quiet lines lines') :
    readingOf J lines' = readingOf J lines := by
  unfold readingOf rrtsOf
  rw [h.repliesOf_eq, h.lossInfoOf_eq]

end Times

/-! ## The packet loss -/

section Loss

/-- A quotient of `int`s is a whole number of units of a small power of two. -/
theorem exists_units_of_quotient (hJ : J.double = Rounding.binary64) {received sent : ℤ}
    (hreceived : -2 ^ 31 ≤ received ∧ received < 2 ^ 31) (hsent : -2 ^ 31 ≤ sent ∧ sent < 2 ^ 31)
    (hne : sent ≠ 0) :
    ∃ m : ℤ, J.double.round (received / sent) = .finite (m * 2 ^ (-31 - 52 : ℤ)) := by
  have hone : (1 : ℚ) ≤ |(sent : ℚ)| := by exact_mod_cast Int.one_le_abs hne
  have hquotient : |(received / sent : ℚ)| ≤ 2 ^ 31 := by
    rw [abs_div]
    refine (div_le_self (abs_nonneg _) hone).trans ?_
    exact_mod_cast abs_le.mpr (by omega : -2 ^ 31 ≤ received ∧ received ≤ 2 ^ 31)
  by_cases hzero : received = 0
  · refine ⟨0, ?_⟩
    rw [hzero, Int.cast_zero, zero_div, zero_mul]
    exact J.double.round_zero
  · obtain ⟨x, hx, -⟩ := J.double.round_within (by omega) hquotient
    -- a quotient that is not 0 is 2 ^ -31 at least
    have hlarge : (2 : ℚ) ^ (-31 : ℤ) ≤ |(received / sent : ℚ)| := by
      have hreceived' : (1 : ℚ) ≤ |(received : ℚ)| := by exact_mod_cast Int.one_le_abs hzero
      have hsent' : |(sent : ℚ)| ≤ 2 ^ 31 := by
        exact_mod_cast abs_le.mpr (by omega : -2 ^ 31 ≤ sent ∧ sent ≤ 2 ^ 31)
      have hpos : (0 : ℚ) < |(sent : ℚ)| := by linarith
      rw [abs_div, le_div_iff₀ hpos]
      calc (2 : ℚ) ^ (-31 : ℤ) * |(sent : ℚ)| ≤ 2 ^ (-31 : ℤ) * 2 ^ 31 := by gcongr
        _ = 1 := by norm_num
        _ ≤ |(received : ℚ)| := hreceived'
    obtain ⟨m, rfl⟩ := Rounding.binary64_units hlarge (hJ ▸ hx)
    exact ⟨m, hx⟩

/-- The loss of packets that were sent is rounded twice. -/
theorem packetLossOf_eq (hJ : J.double = Rounding.binary64) {received sent : ℤ}
    (hreceived : -2 ^ 31 ≤ received ∧ received < 2 ^ 31) (hsent : -2 ^ 31 ≤ sent ∧ sent < 2 ^ 31)
    (hne : sent ≠ 0) {x : ℚ} (hx : J.double.round (received / sent) = .finite x) :
    packetLossOf J received sent = J.double.round (1 + -x) := by
  have hexact : ∀ n : ℤ, -2 ^ 31 ≤ n ∧ n < 2 ^ 31 → J.double.ofInt n = .finite n := by
    intro n hn
    rw [hJ]
    exact Rounding.binary64_ofInt (abs_lt.mpr (by omega))
  have hone : J.double.ofInt 1 = .finite 1 := by
    rw [hexact 1 (by omega), Int.cast_one]
  unfold packetLossOf
  rw [hone, hexact _ hreceived, hexact _ hsent, Rounding.div_finite (by exact_mod_cast hne), hx]
  rfl

/-- The least positive double is smaller than any loss. -/
theorem least_lt_unit : (1 : ℚ) / 2 ^ 1074 < 2 ^ (-31 - 52 - 52 : ℤ) := by
  rw [one_div, ← zpow_natCast, ← zpow_neg]
  exact zpow_lt_zpow_right₀ one_lt_two (by omega)

/-- No loss comes to the least positive value: a loss is a whole number of units
far larger. -/
theorem packetLossOf_ne_minValue (hJ : J.double = Rounding.binary64) {received sent : ℤ}
    (hreceived : -2 ^ 31 ≤ received ∧ received < 2 ^ 31) (hsent : -2 ^ 31 ≤ sent ∧ sent < 2 ^ 31)
    (hne : sent ≠ 0) : packetLossOf J received sent ≠ minValue := by
  obtain ⟨m, hm⟩ := exists_units_of_quotient hJ hreceived hsent hne
  have hdifference : (1 + -(m * 2 ^ (-31 - 52 : ℤ)) : ℚ) =
      (2 ^ 83 - m : ℤ) * 2 ^ (-31 - 52 : ℤ) := by
    push_cast
    norm_num
    ring
  have hpos : (0 : ℚ) < 1 / 2 ^ 1074 := by positivity
  rw [packetLossOf_eq hJ hreceived hsent hne hm, hdifference]
  intro hmin
  by_cases hzero : (2 ^ 83 - m : ℤ) = 0
  · -- all packets are received
    rw [hzero, Int.cast_zero, zero_mul, J.double.round_zero] at hmin
    exact hpos.ne (Value.finite.inj hmin)
  · have hle := Rounding.binary64_unit_le (Rounding.unit_le_abs hzero) (hJ ▸ hmin) hpos.ne'
    rw [abs_of_pos hpos] at hle
    exact absurd least_lt_unit (not_lt.mpr hle)

/-- The loss of the last line that speaks of packets sent, some of them, and
received; where there is none, ten replies are expected. -/
def lossTold (J : Platform) (lines : List String) : Value :=
  match ((lines.filterMap extractPacketLossInfoFromPingOutput).filter fun info =>
      info.1 ≠ 0).getLast? with
  | some (sent, received) => packetLossOf J received sent
  | none => packetLossOf J (firsts (lines.filterMap (replyOf J))).length pingCount

/-- The loss that is told is a number. -/
theorem isFinite_lossTold (lines : List String) : (lossTold J lines).isFinite := by
  unfold lossTold
  cases htold : ((lines.filterMap extractPacketLossInfoFromPingOutput).filter fun info =>
      info.1 ≠ 0).getLast? with
  | none =>
      have hlen := length_rrtsOf_le (J := J) lines
      unfold rrtsOf at hlen
      rw [List.length_map, repliesOf_eq_firsts] at hlen
      refine (isFinite_packetLossOf_iff ?_ (by decide)).mpr (by decide)
      rw [abs_of_nonneg (Int.natCast_nonneg _)]
      exact_mod_cast hlen
  | some info =>
      obtain ⟨hmem, hne⟩ := List.mem_filter.mp (List.mem_of_getLast? htold)
      obtain ⟨hsent, hreceived⟩ := bounds_of_mem_lossInfos hmem
      exact (isFinite_packetLossOf_iff (abs_le.mpr (by omega)) (abs_le.mpr (by omega))).mpr
        (of_decide_eq_true hne)

/-- No line speaks of packets: the replies are counted. -/
theorem loss_of_none {lines : List String} (h : lossInfoOf lines = none) :
    (readingOf J lines).loss J = lossTold J lines := by
  have hnone : lines.filterMap extractPacketLossInfoFromPingOutput = [] :=
    List.getLast?_eq_none_iff.mp h
  have hmin : (readingOf J lines).packetLoss = minValue := by
    unfold readingOf
    rw [h]
    rfl
  have hbeq : minValue.beq minValue = true := by simp [Value.beq, minValue]
  unfold Reading.loss lossTold
  rw [hmin, hbeq, hnone]
  show packetLossOf J (rrtsOf J lines).length pingCount = _
  unfold rrtsOf
  rw [List.length_map, repliesOf_eq_firsts]
  rfl

/-- The last line that speaks of packets speaks of some sent: its loss is not taken
for the mark of none. -/
theorem loss_of_some (hJ : J.double = Rounding.binary64) {lines : List String}
    {sent received : ℤ} (h : lossInfoOf lines = some (sent, received)) (hne : sent ≠ 0) :
    (readingOf J lines).loss J = lossTold J lines := by
  obtain ⟨hsent, hreceived⟩ := bounds_of_lossInfoOf h
  have hloss : (readingOf J lines).packetLoss = packetLossOf J received sent := by
    unfold readingOf
    rw [h]
    rfl
  obtain ⟨infos, hinfos⟩ := List.getLast?_eq_some_iff.mp h
  have hlast : ((lines.filterMap extractPacketLossInfoFromPingOutput).filter fun info =>
      info.1 ≠ 0).getLast? = some (sent, received) := by
    rw [hinfos, List.filter_append, List.filter_cons, if_pos (decide_eq_true hne)]
    exact List.getLast?_concat
  have hbeq : ¬ (packetLossOf J received sent).beq minValue := by
    simp only [Value.beq, Bool.and_eq_true, decide_eq_true_eq, not_and]
    exact fun _ => packetLossOf_ne_minValue hJ hreceived hsent hne
  unfold Reading.loss lossTold
  rw [hloss, hlast, if_neg hbeq]

/-- The loss the loop comes to is the one told, unless the last line that speaks of
packets speaks of none sent. -/
theorem loss_eq_lossTold_iff (hJ : J.double = Rounding.binary64) (lines : List String) :
    (readingOf J lines).loss J = lossTold J lines ↔
      ∀ sent received, lossInfoOf lines = some (sent, received) → sent ≠ 0 := by
  constructor
  · intro heq
    rw [← isFinite_loss_iff (J := J), heq]
    exact isFinite_lossTold lines
  · intro h
    cases hinfo : lossInfoOf lines with
    | none => exact loss_of_none hinfo
    | some info => exact loss_of_some hJ hinfo (h info.1 info.2 hinfo)

end Loss

/-! ## The output -/

section Output

/-- What the command comes to when it prints some lines. -/
def printing (env : PingEnv) (lines : List String) : PingEnv :=
  { env with command := .started ⟨lines, none⟩ }

/-- The loop over the output keeps the first time of each sequence number, further
replies change nothing but the loss, when they speak of one, and the loss is the
one told. -/
structure ReadsOnce (J : Platform) (lines : List String) : Prop where
  times : ∃ st, lines.foldlM (readLine J) ⟨[], [], minValue, pingCount⟩ = .ok st ∧
    st.rrts = (firsts (lines.filterMap (replyOf J))).map Prod.snd ∧
      st.loss J = lossTold J lines
  same_times : ∀ lines', Duplicated J (fun _ => True) lines lines' →
    ∃ st, lines'.foldlM (readLine J) ⟨[], [], minValue, pingCount⟩ = .ok st ∧
      st.rrts = (firsts (lines.filterMap (replyOf J))).map Prod.snd
  same_result : ∀ lines', Duplicated J Quiet lines lines' → ∀ desc env targetIp,
    runCommand J desc (printing env lines') targetIp =
      runCommand J desc (printing env lines) targetIp

/-- The output is read once exactly when the last line that speaks of packets does
not speak of 0 sent. -/
theorem readsOnce_iff (J : Platform) (lines : List String) (hJ : J.double = Rounding.binary64)
    (hlines : ∀ line ∈ lines, ReadsNumber line) :
    ReadsOnce J lines ↔
      ∀ sent received, lossInfoOf lines = some (sent, received) → sent ≠ 0 := by
  rw [← loss_eq_lossTold_iff hJ]
  constructor
  · rintro ⟨⟨st, hread, -, hloss⟩, -, -⟩
    rw [readLines_of_readsNumber hlines] at hread
    cases hread
    exact hloss
  · intro hloss
    refine ⟨⟨_, readLines_of_readsNumber hlines, ?_, hloss⟩, fun lines' h => ?_,
      fun lines' h desc env targetIp => ?_⟩
    · show rrtsOf J lines = _
      rw [rrtsOf, repliesOf_eq_firsts]
    · refine ⟨_, readLines_of_readsNumber (h.readsNumber hlines), ?_⟩
      show rrtsOf J lines' = _
      rw [rrtsOf, h.repliesOf_eq, repliesOf_eq_firsts]
    · rw [runCommand_of_readsNumber rfl (h.readsNumber hlines),
        runCommand_of_readsNumber rfl hlines,
        h.readingOf_eq]
      show constructResult J desc _ targetIp (rrtsOf J lines') _ _ _ = _
      unfold rrtsOf
      rw [h.repliesOf_eq]
      rfl

/-- Whether the numbers can be read can be computed. -/
theorem readsNumber_of_all {lines : List String}
    (h : ∀ line ∈ lines, (extractInfoFromPingOutput line).all
      fun found => (parseInt found.1).isSome) : ∀ line ∈ lines, ReadsNumber line :=
  fun line hline => by simpa [ReadsNumber, Option.all_eq_true] using h line hline

/-- Two replies and the summary of three packets. -/
def twoReplies : List String :=
  ["64 bytes from 10.0.0.1: icmp_seq=1 ttl=64 time=1.5 ms",
    "64 bytes from 10.0.0.1: icmp_seq=2 ttl=64 time=2.5 ms",
    "3 packets transmitted, 2 received, 33% packet loss, time 2ms"]

/-- The first reply comes twice. -/
def duplicateReply : List String :=
  ["64 bytes from 10.0.0.1: icmp_seq=1 ttl=64 time=1.5 ms",
    "64 bytes from 10.0.0.1: icmp_seq=1 ttl=64 time=9.5 ms (DUP!)",
    "64 bytes from 10.0.0.1: icmp_seq=2 ttl=64 time=2.5 ms",
    "3 packets transmitted, 2 received, 33% packet loss, time 2ms"]

/-- The second reply was inserted behind the first. -/
theorem duplicated_duplicateReply :
    Duplicated Platform.latin Quiet twoReplies duplicateReply := by
  have hfirst : replyOf Platform.latin "64 bytes from 10.0.0.1: icmp_seq=1 ttl=64 time=1.5 ms" =
      some (1, .finite (3 / 2)) := by decide +kernel
  have hagain : replyOf Platform.latin
      "64 bytes from 10.0.0.1: icmp_seq=1 ttl=64 time=9.5 ms (DUP!)" =
      some (1, .finite (19 / 2)) := by decide +kernel
  have hearlier : (1, .finite (3 / 2)) ∈
      (twoReplies.take 1).filterMap (replyOf Platform.latin) :=
    List.mem_filterMap.mpr ⟨_, List.mem_cons_self, hfirst⟩
  have hquiet : extractPacketLossInfoFromPingOutput
      "64 bytes from 10.0.0.1: icmp_seq=1 ttl=64 time=9.5 ms (DUP!)" = none := by decide +kernel
  exact Duplicated.refl.insert (P := Quiet) hearlier hagain hquiet

/-- The second reply with number 1 changes neither the times nor the result. -/
theorem readsOnce_iff_twoReplies :
    Duplicated Platform.latin Quiet twoReplies duplicateReply ∧
      lossInfoOf twoReplies = some (3, 2) ∧ ReadsOnce Platform.latin twoReplies := by
  have hinfo : lossInfoOf twoReplies = some (3, 2) := by decide +kernel
  refine ⟨duplicated_duplicateReply, hinfo, (readsOnce_iff Platform.latin twoReplies rfl
    (readsNumber_of_all (by decide +kernel))).mpr ?_⟩
  intro sent received h
  rw [hinfo] at h
  cases h
  decide

/-- One reply, and a summary that speaks of no packets: the loss is 0 / 0. -/
theorem loss_of_no_packets :
    (∀ line ∈ ["64 bytes from 10.0.0.1: icmp_seq=1 ttl=64 time=1.5 ms",
      "0 packets transmitted, 0 received, time 0ms"], ReadsNumber line) ∧
      ¬ ReadsOnce Platform.latin ["64 bytes from 10.0.0.1: icmp_seq=1 ttl=64 time=1.5 ms",
        "0 packets transmitted, 0 received, time 0ms"] := by
  have hlines : ∀ line ∈ ["64 bytes from 10.0.0.1: icmp_seq=1 ttl=64 time=1.5 ms",
      "0 packets transmitted, 0 received, time 0ms"], ReadsNumber line :=
    readsNumber_of_all (by decide +kernel)
  refine ⟨hlines, fun h => ?_⟩
  obtain ⟨st, hread, -, hloss⟩ := h.times
  rw [readLines_of_readsNumber hlines] at hread
  cases hread
  have hsent := (loss_eq_lossTold_iff rfl _).mp hloss 0 0 (by decide +kernel)
  exact hsent rfl

end Output

end PingTask

end MobiPerf.Measurements
