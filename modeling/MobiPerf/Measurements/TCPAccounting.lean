import MobiPerf.Lib.Metering
import MobiPerf.Measurements.TCPSamples
import MobiPerf.Measurements.TCPWindow

/-!
# Measurements.TCPAccounting — what a download counts

Each read is counted twice: for the total, and, behind the slow start, for the
sample that is open. The end of the stream is counted as a read of -1 bytes.

* `TCPThroughputTask.perm_samples`: the samples are those of the spans the reads
  behind the slow start are cut into;
* `TCPThroughputTask.accounts_iff`: the bytes are accounted for exactly when the
  download does not run into the end of the stream.
-/

namespace MobiPerf.Measurements

open Lib Scheduler

namespace TCPThroughputTask

variable {J : Platform} {desc : TCPThroughputDesc} {env : TCPThroughputEnv}

/-! ## The clock -/

section Clock

def readings (clock : SampleClock) : List ℤ :=
  [clock.arrival, clock.sampleStart, clock.sampleEnd, clock.restart]

/-- The clock does not go back, and tells the milliseconds since 1970 as a
`long`. -/
structure SteadyClock (env : TCPThroughputEnv) : Prop where
  start : 0 ≤ env.startTime
  order : (env.startTime :: env.downlink.reads.flatMap fun read => readings read.2).Pairwise (· ≤ ·)
  fits : ∀ read ∈ env.downlink.reads, ∀ t ∈ readings read.2, t < 2 ^ 63

/-- Bytes that come in while TCP starts. -/
def InSlowStart (desc : TCPThroughputDesc) (env : TCPThroughputEnv)
    (read : Chunk 5000 × SampleClock) : Prop :=
  read.2.arrival - env.startTime < 1000 * desc.slow_start_period_sec

instance : DecidablePred (InSlowStart desc env) := fun _ => inferInstanceAs (Decidable (_ < _))

variable {read : Chunk 5000 × SampleClock} {reads : List (Chunk 5000 × SampleClock)}

/-- The readings of any reads are in order. -/
theorem SteadyClock.readings (h : SteadyClock env) (hsub : reads.Sublist env.downlink.reads) :
    (env.startTime :: reads.flatMap fun read => TCPThroughputTask.readings read.2).Pairwise
      (· ≤ ·) :=
  h.order.sublist ((hsub.flatMap _).cons_cons _)

/-- A read arrives after the start, and the difference is a `long`. -/
theorem SteadyClock.arrival_mem (h : SteadyClock env) (hread : read ∈ env.downlink.reads) :
    0 ≤ read.2.arrival - env.startTime ∧ read.2.arrival - env.startTime < 2 ^ 63 := by
  have hstart := h.start
  have hfits := h.fits read hread read.2.arrival List.mem_cons_self
  have horder := (List.pairwise_cons.mp (h.readings (List.singleton_sublist.mpr hread))).1
    read.2.arrival (List.mem_flatMap.mpr ⟨read, List.mem_singleton_self _, List.mem_cons_self⟩)
  omega

/-- Reads arrive in order. -/
theorem SteadyClock.arrivals (h : SteadyClock env) :
    env.downlink.reads.Pairwise fun a b => a.2.arrival ≤ b.2.arrival := by
  refine List.pairwise_map.mp (h.order.of_cons.sublist ?_)
  rw [List.map_eq_flatMap]
  exact List.Sublist.flatMap_right _ fun read _ =>
    (List.nil_sublist _).cons_cons _

/-- A read behind the slow start opens a sample at a time that is not 0. -/
theorem SteadyClock.sampleStart_pos (h : SteadyClock env) (hread : read ∈ env.downlink.reads)
    (hlate : ¬ InSlowStart desc env read) : 0 < read.2.sampleStart := by
  have hstart := h.start
  have hsec := desc.slow_start_period_sec_mem
  have horder := (List.pairwise_cons.mp (h.readings (List.singleton_sublist.mpr hread))).2
  have harrival : read.2.arrival ≤ read.2.sampleStart :=
    (List.pairwise_cons.mp horder).1 _ List.mem_cons_self
  unfold InSlowStart at hlate
  omega

/-- The spans of a sample that the first of some reads opens. -/
theorem SteadyClock.steady (h : SteadyClock env)
    (hsub : (read :: reads).Sublist env.downlink.reads) :
    Span.Steady (fun read => read.2.sampleEnd) (fun read => read.2.restart) read.2.sampleStart
      (read :: reads) := by
  refine (h.readings hsub).of_cons.sublist ?_
  refine List.Sublist.cons _ (List.Sublist.cons_cons _ ?_)
  refine List.Sublist.cons_cons _ (List.Sublist.cons_cons _ ?_)
  exact List.Sublist.flatMap_right _ fun read _ => ((List.Sublist.refl _).cons _).cons _

/-- A time in milliseconds is compared with some seconds. -/
theorem ofInt_lt_seconds (hJ : J.double = Rounding.binary64) {time sec : ℤ} (h0 : 0 ≤ time)
    (hfits : time < 2 ^ 63) (hsec : 0 < sec ∧ sec ≤ 7) :
    (J.double.ofInt (toLong time)).lt (.finite (sec * ksec)) = decide (time < 1000 * sec) := by
  have hcast : ((sec : ℚ) * (ksec : ℚ)) = ((1000 * sec : ℤ) : ℚ) := by
    unfold ksec
    push_cast
    ring
  rw [hJ, toLong_eq (by omega) hfits, hcast]
  exact Rounding.binary64_ofInt_lt h0 hfits.le (by omega)

end Clock

/-! ## Samples -/

section Samples

/-- Eight bits a byte, by the time it took. -/
def rate (J : Platform) (I : Span (Chunk 5000 × SampleClock)) : Value :=
  J.double.div (.finite (8 * bytesOf I.items)) (J.double.ofInt (I.stop - I.start))

variable (J desc) in
/-- The spans of reads behind the slow start. -/
def spansFrom (start : ℤ) (current reads : List (Chunk 5000 × SampleClock)) :
    List (Span (Chunk 5000 × SampleClock)) :=
  Span.cut (fun read => read.2.sampleEnd) (fun read => read.2.restart)
    (1000 * desc.sample_period_sec) start current reads

/-- The samples are made of the reads, in order, up to one that is unfinished. -/
theorem exists_unfinished (desc : TCPThroughputDesc) (start : ℤ)
    (current reads : List (Chunk 5000 × SampleClock)) : ∃ unfinished,
      current ++ reads = (spansFrom desc start current reads).flatMap Span.items ++ unfinished :=
  Span.exists_rest

/-- The bytes of two lists of reads. -/
theorem bytesOf_append (reads rest : List (Chunk 5000 × SampleClock)) :
    bytesOf (reads ++ rest) = bytesOf reads + bytesOf rest := by
  unfold bytesOf
  rw [List.map_append, List.sum_append]

/-- The bits of an `int` of bytes are counted exactly. -/
theorem ofInt_mul_eight (hJ : J.double = Rounding.binary64) {n : ℤ} (h0 : 0 ≤ n)
    (hn : n < 2 ^ 31) : J.double.mul (J.double.ofInt n) (.finite 8) = .finite (8 * n) := by
  have hexact : J.double.ofInt n = .finite n := by
    rw [hJ]
    exact Rounding.binary64_ofInt (by rw [abs_of_nonneg h0]; omega)
  have hbits : J.double.round ((8 * n : ℤ) : ℚ) = .finite ((8 * n : ℤ) : ℚ) := by
    rw [hJ]
    exact Rounding.binary64_ofInt (by rw [abs_of_nonneg (by omega)]; omega)
  push_cast at hbits
  rw [hexact]
  show J.double.round (n * 8) = _
  rw [mul_comm, hbits]

/-- A read behind the slow start, while a sample is open. -/
theorem updateSize_of_late (hJ : J.double = Rounding.binary64) {clock : SampleClock}
    {st : Receiving} {delta n : ℤ} (harrival : 0 ≤ clock.arrival - env.startTime)
    (hfits : clock.arrival - env.startTime < 2 ^ 63)
    (hlate : ¬ clock.arrival - env.startTime < 1000 * desc.slow_start_period_sec)
    (hopen : st.startSampleTime ≠ 0) (hstart : 0 ≤ clock.sampleEnd - st.startSampleTime)
    (hend : clock.sampleEnd - st.startSampleTime < 2 ^ 63)
    (hn : st.accumulativeSize + delta = n) (h0 : 0 ≤ n) (hn31 : n < 2 ^ 31) :
    updateSize J desc env clock delta st =
      if clock.sampleEnd - st.startSampleTime < 1000 * desc.sample_period_sec then
        { st with accumulativeSize := n }
      else { st with
        startSampleTime := clock.restart
        accumulativeSize := 0
        samplingResults := insertWithOrder st.samplingResults
          (J.double.div (.finite (8 * n))
            (J.double.ofInt (clock.sampleEnd - st.startSampleTime))) } := by
  have hstarted : startSample clock st = st := if_neg hopen
  have hsize : toInt (st.accumulativeSize + delta) = n := by
    rw [hn]
    exact toInt_eq (by omega) hn31
  have hlong : toLong (clock.sampleEnd - st.startSampleTime) =
      clock.sampleEnd - st.startSampleTime := toLong_eq (by omega) hend
  unfold updateSize
  simp only [hstarted, hsize, ofInt_mul_eight hJ h0 hn31]
  rw [ofInt_lt_seconds hJ harrival hfits desc.slow_start_period_sec_mem, decide_eq_false hlate,
    ofInt_lt_seconds hJ hstart hend desc.sample_period_sec_mem, hlong]
  simp

/-- The bytes of a read and those behind it. -/
theorem bytesOf_cons (read : Chunk 5000 × SampleClock) (reads : List (Chunk 5000 × SampleClock)) :
    bytesOf (read :: reads) = read.1.val.length + bytesOf reads := by
  simp [bytesOf]

/-- The samples of reads behind the slow start: those of the spans they are cut
into. The one that is open has counted the bytes of `current` since `start`. -/
theorem perm_samples (hJ : J.double = Rounding.binary64) (start : ℤ)
    (current reads : List (Chunk 5000 × SampleClock)) (st : Receiving)
    (hopen : st.startSampleTime = start) (hpos : 0 < start)
    (hacc : st.accumulativeSize = bytesOf current)
    (hbytes : bytesOf current + bytesOf reads < 2 ^ 31)
    (hlate : ∀ read ∈ reads, ¬ InSlowStart desc env read)
    (harrival : ∀ read ∈ reads, 0 ≤ read.2.arrival - env.startTime ∧
      read.2.arrival - env.startTime < 2 ^ 63)
    (hclock : Span.Steady (fun read => read.2.sampleEnd) (fun read => read.2.restart) start reads)
    (hfits : ∀ read ∈ reads, read.2.sampleEnd < 2 ^ 63) :
    (reads.foldl (receiveStep J desc env) st).samplingResults.Perm
      ((spansFrom desc start current reads).map (rate J) ++ st.samplingResults) := by
  induction reads generalizing start current st with
  | nil => exact List.Perm.refl _
  | cons read reads ih =>
      rw [List.forall_mem_cons] at hlate harrival hfits
      rw [bytesOf_cons] at hbytes
      obtain ⟨⟨hend, hrestart, -⟩, hsame, hnext⟩ := hclock.cons
      have hcurrent := bytesOf_nonneg current
      have hreads := bytesOf_nonneg reads
      have hcounted : bytesOf (current ++ [read]) = bytesOf current + read.1.val.length := by
        rw [bytesOf_append, bytesOf_cons]
        exact congrArg _ (add_zero _)
      have hstep : updateSize J desc env read.2 read.1.val.length st = _ :=
        updateSize_of_late hJ harrival.1.1 harrival.1.2 hlate.1 (by omega) (by omega) (by omega)
          (hacc ▸ hcounted.symm) (by omega) (by omega)
      rw [hopen] at hstep
      rw [List.foldl_cons]
      unfold spansFrom Span.cut receiveStep count
      by_cases hover : read.2.sampleEnd - start < 1000 * desc.sample_period_sec
      · -- it is counted for the sample that is open
        rw [hstep, if_pos hover, if_pos hover]
        exact ih start _ _ rfl hpos rfl (by omega) hlate.2 harrival.2 hsame hfits.2
      · -- the sample is taken, and the next one is open
        rw [hstep, if_neg hover, if_neg hover]
        have hnone : bytesOf [] = 0 := rfl
        refine (ih read.2.restart [] _ rfl (by omega) rfl (by omega)
          hlate.2 harrival.2 hnext hfits.2).trans ?_
        refine ((insertWithOrder_perm _ _).append_left _).trans ?_
        exact List.perm_middle

/-- A sample is a number, and not a negative one. -/
theorem rate_nonneg {I : Span (Chunk 5000 × SampleClock)} (hbytes : bytesOf I.items < 2 ^ 31)
    (hlength : 0 < I.stop - I.start) (hfits : I.stop - I.start < 2 ^ 63) :
    ∃ q, rate J I = .finite q ∧ 0 ≤ q := by
  have hnonneg := bytesOf_nonneg I.items
  have hbits : (Value.finite (8 * bytesOf I.items : ℚ)).Within 34 := by
    refine ⟨_, rfl, ?_⟩
    rw [abs_of_nonneg (by positivity)]
    exact_mod_cast (by omega : 8 * bytesOf I.items ≤ 2 ^ 34)
  have habs : |I.stop - I.start| ≤ 2 ^ 63 := by
    rw [abs_of_pos hlength]
    exact hfits.le
  have hwithin : (rate J I).Within 34 :=
    Rounding.within_div_ofInt (by omega) (by omega : 63 ≤ 1023) hbits (by omega)
      (by exact_mod_cast habs)
  obtain ⟨q, hq, -⟩ := hwithin
  exact ⟨q, hq, Rounding.div_ofInt_nonneg (by positivity) hlength.le hq⟩

end Samples

/-! ## The loop of reads -/

section Loop

/-- How the bytes read make up the samples. -/
structure Sampled (J : Platform) (desc : TCPThroughputDesc) (env : TCPThroughputEnv)
    (reads : List (Chunk 5000 × SampleClock)) (samples : List Value)
    (early unfinished : List (Chunk 5000 × SampleClock))
    (spans : List (Span (Chunk 5000 × SampleClock))) : Prop where
  reads_eq : reads = early ++ (spans.flatMap Span.items ++ unfinished)
  early_inSlowStart : ∀ read ∈ early, InSlowStart desc env read
  late : ∀ read ∈ spans.flatMap Span.items ++ unfinished, ¬ InSlowStart desc env read
  chained : ∀ first, (spans.flatMap Span.items ++ unfinished).head? = some first →
    Span.Chained (fun read => read.2.sampleEnd) (fun read => read.2.restart)
      first.2.sampleStart spans
  lasts : ∀ I ∈ spans, 1000 * desc.sample_period_sec ≤ I.stop - I.start
  within : ∀ I ∈ spans, I.Within fun read => read.2.sampleEnd
  samples_perm : samples.Perm (spans.map (rate J))

/-- The bytes received are accounted for. -/
structure Accounted (J : Platform) (desc : TCPThroughputDesc) (env : TCPThroughputEnv)
    (st : Receiving) : Prop where
  total : st.totalRevSize = bytesReceived J desc env
  nonneg : ∀ x ∈ st.samplingResults, ∃ q, x = .finite q ∧ 0 ≤ q
  sampled : ∃ early unfinished spans,
    Sampled J desc env (readsMade J desc env) st.samplingResults early unfinished spans

/-- The reads of the slow start come first. -/
theorem exists_split (desc : TCPThroughputDesc) (env : TCPThroughputEnv)
    {reads : List (Chunk 5000 × SampleClock)}
    (harrivals : reads.Pairwise fun a b => a.2.arrival ≤ b.2.arrival) :
    ∃ early late, reads = early ++ late ∧ (∀ read ∈ early, InSlowStart desc env read) ∧
      ∀ read ∈ late, ¬ InSlowStart desc env read := by
  induction reads with
  | nil => exact ⟨[], [], rfl, nofun, nofun⟩
  | cons read reads ih =>
      obtain ⟨hfirst, hrest⟩ := List.pairwise_cons.mp harrivals
      by_cases hslow : InSlowStart desc env read
      · obtain ⟨early, late, hreads, hearly, hlate⟩ := ih hrest
        exact ⟨read :: early, late, congrArg _ hreads, List.forall_mem_cons.mpr ⟨hslow, hearly⟩,
          hlate⟩
      · refine ⟨[], read :: reads, rfl, nofun, List.forall_mem_cons.mpr ⟨hslow, ?_⟩⟩
        intro other hother hslow'
        have hle := hfirst other hother
        unfold InSlowStart at hslow hslow'
        omega

/-- While TCP starts, bytes are counted for the total only. -/
theorem updateSize_of_slow (hJ : J.double = Rounding.binary64) {clock : SampleClock}
    {st : Receiving} {delta : ℤ} (harrival : 0 ≤ clock.arrival - env.startTime)
    (hfits : clock.arrival - env.startTime < 2 ^ 63)
    (hslow : clock.arrival - env.startTime < 1000 * desc.slow_start_period_sec) :
    updateSize J desc env clock delta st = st := by
  simp only [updateSize]
  rw [ofInt_lt_seconds hJ harrival hfits desc.slow_start_period_sec_mem, decide_eq_true hslow]
  rfl

/-- In the slow start no sample is made. -/
theorem foldl_of_slow (hJ : J.double = Rounding.binary64)
    {early : List (Chunk 5000 × SampleClock)} (st : Receiving)
    (hslow : ∀ read ∈ early, InSlowStart desc env read)
    (harrival : ∀ read ∈ early, 0 ≤ read.2.arrival - env.startTime ∧
      read.2.arrival - env.startTime < 2 ^ 63) :
    (early.foldl (receiveStep J desc env) st).startSampleTime = st.startSampleTime ∧
      (early.foldl (receiveStep J desc env) st).samplingResults = st.samplingResults := by
  induction early generalizing st with
  | nil => exact ⟨rfl, rfl⟩
  | cons read early ih =>
      rw [List.forall_mem_cons] at hslow harrival
      have hstep : updateSize J desc env read.2 read.1.val.length st = st :=
        updateSize_of_slow hJ harrival.1.1 harrival.1.2 hslow.1
      obtain ⟨hstart, hsamples⟩ := ih (receiveStep J desc env st read) hslow.2 harrival.2
      rw [List.foldl_cons, hstart, hsamples]
      unfold receiveStep count
      rw [hstep]
      exact ⟨rfl, rfl⟩

/-- The first read behind the slow start opens a sample. -/
theorem receiveStep_startSample (hJ : J.double = Rounding.binary64)
    {read : Chunk 5000 × SampleClock} {st : Receiving}
    (harrival : 0 ≤ read.2.arrival - env.startTime)
    (hfits : read.2.arrival - env.startTime < 2 ^ 63)
    (hlate : ¬ InSlowStart desc env read) (hstart : read.2.sampleStart ≠ 0) :
    receiveStep J desc env (startSample read.2 st) read = receiveStep J desc env st read := by
  have htwice : startSample read.2 (startSample read.2 st) = startSample read.2 st := by
    by_cases hopen : st.startSampleTime = 0
    · simp [startSample, hopen, hstart]
    · simp [startSample, hopen]
  have htotal : (startSample read.2 st).totalRevSize = st.totalRevSize := by
    unfold startSample
    split <;> rfl
  have hlate' : ¬ read.2.arrival - env.startTime < 1000 * desc.slow_start_period_sec := hlate
  have hopened : updateSize J desc env read.2 read.1.val.length (startSample read.2 st) =
      updateSize J desc env read.2 read.1.val.length st := by
    simp only [updateSize, htwice]
    rw [ofInt_lt_seconds hJ harrival hfits desc.slow_start_period_sec_mem, decide_eq_false hlate']
    rfl
  unfold receiveStep count
  rw [hopened, htotal]

/-- The reads behind the slow start, the first of which opens a sample. -/
theorem perm_samples_of_late (hJ : J.double = Rounding.binary64) (hclock : SteadyClock env)
    {first : Chunk 5000 × SampleClock} {rest : List (Chunk 5000 × SampleClock)} {st : Receiving}
    (hclosed : st.startSampleTime = 0) (hsub : (first :: rest).Sublist env.downlink.reads)
    (hlate : ∀ read ∈ first :: rest, ¬ InSlowStart desc env read)
    (hbytes : bytesOf (first :: rest) < 2 ^ 31) :
    ((first :: rest).foldl (receiveStep J desc env) st).samplingResults.Perm
      ((spansFrom desc first.2.sampleStart [] (first :: rest)).map (rate J) ++
        st.samplingResults) := by
  have hmem : ∀ read ∈ first :: rest, read ∈ env.downlink.reads := fun _ hread => hsub.subset hread
  have hfirst := hmem first List.mem_cons_self
  have hpos := hclock.sampleStart_pos hfirst (hlate first List.mem_cons_self)
  have hnone : bytesOf [] = 0 := rfl
  have hopened : startSample first.2 st =
      { st with startSampleTime := first.2.sampleStart, accumulativeSize := 0 } := if_pos hclosed
  have hperm := perm_samples hJ first.2.sampleStart [] (first :: rest)
    { st with startSampleTime := first.2.sampleStart, accumulativeSize := 0 } rfl hpos rfl
    (by omega) hlate (fun read hread => hclock.arrival_mem (hmem read hread)) (hclock.steady hsub)
    fun read hread => hclock.fits read (hmem read hread) _ (by simp [readings])
  rw [List.foldl_cons, ← hopened, receiveStep_startSample hJ (hclock.arrival_mem hfirst).1
    (hclock.arrival_mem hfirst).2 (hlate first List.mem_cons_self) hpos.ne', hopened] at hperm
  exact hperm

/-- A sample has no more bytes than all. -/
theorem bytesOf_items_le {spans : List (Span (Chunk 5000 × SampleClock))}
    {I : Span (Chunk 5000 × SampleClock)} (hI : I ∈ spans) :
    bytesOf I.items ≤ bytesOf (spans.flatMap Span.items) := by
  obtain ⟨before, behind, rfl⟩ := List.append_of_mem hI
  rw [List.flatMap_append, List.flatMap_cons, bytesOf_append, bytesOf_append]
  have hbefore := bytesOf_nonneg (before.flatMap Span.items)
  have hbehind := bytesOf_nonneg (behind.flatMap Span.items)
  omega

/-- The samples of some first reads. -/
theorem exists_sampled (desc : TCPThroughputDesc) (hJ : J.double = Rounding.binary64)
    (hclock : SteadyClock env)
    {reads : List (Chunk 5000 × SampleClock)} (hsub : reads.Sublist env.downlink.reads)
    (hbytes : bytesOf reads < 2 ^ 31) : ∃ early unfinished spans,
      Sampled J desc env reads
        (reads.foldl (receiveStep J desc env) noneReceived).samplingResults early unfinished spans ∧
          ∀ I ∈ spans, ∃ q, rate J I = .finite q ∧ 0 ≤ q := by
  obtain ⟨early, late, rfl, hearly, hlate⟩ := exists_split desc env (hclock.arrivals.sublist hsub)
  obtain ⟨hclosed, hsamples⟩ := foldl_of_slow hJ noneReceived hearly fun read hread =>
    hclock.arrival_mem (hsub.subset (List.mem_append_left _ hread))
  rw [List.foldl_append]
  cases late with
  | nil =>
      -- nothing is read behind the slow start
      rw [List.foldl_nil, hsamples]
      exact ⟨early, [], [], ⟨rfl, hearly, nofun, nofun, nofun, nofun, List.Perm.refl _⟩, nofun⟩
  | cons first rest =>
      have hsublate : (first :: rest).Sublist env.downlink.reads :=
        (List.sublist_append_right _ _).trans hsub
      have hearlyBytes := bytesOf_nonneg early
      rw [bytesOf_append] at hbytes
      have hperm := perm_samples_of_late hJ hclock hclosed hsublate hlate (by omega)
      rw [hsamples] at hperm
      obtain ⟨unfinished, hreads⟩ :=
        exists_unfinished desc first.2.sampleStart [] (first :: rest)
      rw [List.nil_append] at hreads
      have hsteady := hclock.steady hsublate
      refine ⟨early, unfinished, spansFrom desc first.2.sampleStart [] (first :: rest), ?_, ?_⟩
      · exact {
          reads_eq := congrArg _ hreads
          early_inSlowStart := hearly
          late := hreads ▸ hlate
          chained := by
            intro other hother
            rw [← hreads, List.head?_cons] at hother
            cases hother
            exact Span.chained
          lasts := Span.lasts
          within := Span.within hsteady nofun
          samples_perm := by
            rw [← List.append_nil (List.map _ _)]
            exact hperm }
      · -- a span ends with one of its reads, so its length is a time of the clock
        intro I hI
        have hsec := desc.sample_period_sec_mem
        have hperiod : 1000 * desc.sample_period_sec ≤ I.stop - I.start := Span.lasts I hI
        obtain ⟨hstart, last, hlast, hstop⟩ := Span.mem_cut hsteady hI
        have hpos := hclock.sampleStart_pos (hsublate.subset List.mem_cons_self)
          (hlate first List.mem_cons_self)
        have hfits := hclock.fits last (hsublate.subset hlast) last.2.sampleEnd (by simp [readings])
        have hitems := bytesOf_items_le hI
        have hunfinished := bytesOf_nonneg unfinished
        rw [hreads, bytesOf_append] at hbytes
        exact rate_nonneg (by omega) (by omega) (by omega)

/-- Where the cap ends the stream every read is accounted for. -/
theorem accounted_of_capped (hJ : J.double = Rounding.binary64) (hclock : SteadyClock env)
    (hcap : (∃ clock, env.downlink.last = .ok clock) →
      dataLimitOn env ∧ dataLimitByteDown desc ≤ bytesOf env.downlink.reads)
    {exceeded : Bool} {st : Receiving}
    (hreceive : receive J desc env env.downlink.reads noneReceived = .ok (exceeded, st)) :
    Accounted J desc env st := by
  rcases goesOn_or_stops (receiveStep J desc env) (receiveStop desc env) noneReceived
      env.downlink.reads with hgoes | ⟨k, read, hk, hstop, hgoes⟩
  · -- the end of the stream is not reached
    rw [receive_of_goesOn hgoes, receive] at hreceive
    obtain ⟨clock, hlast, -⟩ := except_bind_eq_ok.mp hreceive
    cases hfailed : env.downlink.last with
    | error e =>
        rw [hfailed] at hlast
        cases hlast
    | ok clock =>
        obtain ⟨hon, hreached⟩ := hcap ⟨clock, hfailed⟩
        have hbelow := (goesOn_receive_iff (le_refl _)).mp hgoes hon
        rw [List.take_length] at hbelow
        omega
  · have hlt : k < env.downlink.reads.length := (List.getElem?_eq_some_iff.mp hk).1
    have hmade : readsMade J desc env = env.downlink.reads.take (k + 1) :=
      taken_of_stops hk hstop hgoes
    have hon : dataLimitOn env := (of_decide_eq_true hstop).1
    have hlimit := dataLimitByteDown_mem desc
    have hbelow := (goesOn_receive_iff hlt.le).mp hgoes hon
    have hstep := bytesOf_take_succ env.downlink.reads k
    have hnonneg := bytesOf_nonneg (env.downlink.reads.take (k + 1))
    rw [receive_of_stops hk hstop hgoes] at hreceive
    obtain ⟨early, unfinished, spans, hsampled, hrates⟩ := exists_sampled desc hJ hclock
      (List.take_sublist (k + 1) env.downlink.reads) (by omega)
    cases hreceive
    refine ⟨?_, ?_, early, unfinished, spans, hmade ▸ hsampled⟩
    · unfold bytesReceived
      rw [hmade, totalRevSize_received]
      exact toInt_eq (by omega) (by omega)
    · intro x hx
      obtain ⟨I, hI, rfl⟩ := List.mem_map.mp (hsampled.samples_perm.mem_iff.mp hx)
      exact hrates I hI

/-- At the end of the stream a byte is missing. -/
theorem totalRevSize_of_end (J : Platform) (desc : TCPThroughputDesc) (env : TCPThroughputEnv)
    (hfree : dataLimitOn env → bytesOf env.downlink.reads < dataLimitByteDown desc)
    {clock : SampleClock} (hlast : env.downlink.last = .ok clock) :
    ∃ exceeded st, receive J desc env env.downlink.reads noneReceived = .ok (exceeded, st) ∧
      st.totalRevSize = toInt (bytesReceived J desc env - 1) := by
  have hgoes : GoesOn (receiveStep J desc env) (receiveStop desc env) noneReceived
      env.downlink.reads env.downlink.reads.length := by
    rw [goesOn_receive_iff (le_refl _), List.take_length]
    exact hfree
  have hmade : readsMade J desc env = env.downlink.reads := taken_of_goesOn hgoes
  rw [receive_of_goesOn hgoes, receive, hlast]
  refine ⟨_, _, rfl, ?_⟩
  show toInt (_ + -1) = _
  unfold bytesReceived
  rw [hmade, totalRevSize_received, List.take_length]
  exact Int.bmod_add_bmod

/-- The bytes are accounted for when the download stops at the cap, and not when
it comes to the end of the stream. -/
theorem accounts_iff (J : Platform) (desc : TCPThroughputDesc) (env : TCPThroughputEnv)
    (hJ : J.double = Rounding.binary64) (hclock : SteadyClock env) :
    (∀ exceeded st, receive J desc env env.downlink.reads noneReceived = .ok (exceeded, st) →
      Accounted J desc env st) ↔
        ((∃ clock, env.downlink.last = .ok clock) →
          dataLimitOn env ∧ dataLimitByteDown desc ≤ bytesOf env.downlink.reads) := by
  constructor
  · rintro haccounted ⟨clock, hlast⟩
    by_contra hcap
    have hfree : dataLimitOn env → bytesOf env.downlink.reads < dataLimitByteDown desc :=
      fun hon => not_le.mp fun hle => hcap ⟨hon, hle⟩
    obtain ⟨exceeded, st, hreceive, htotal⟩ := totalRevSize_of_end J desc env hfree hlast
    have hmod :=
      congrArg (· % (2 ^ 32 : ℤ)) ((haccounted exceeded st hreceive).total.symm.trans htotal)
    have hbmod : toInt (bytesReceived J desc env - 1) % 2 ^ 32 =
        (bytesReceived J desc env - 1) % 2 ^ 32 := Int.bmod_emod
    simp only [hbmod] at hmod
    omega
  · intro hcap exceeded st hreceive
    exact accounted_of_capped hJ hclock hcap hreceive

/-- A server that sends one byte, two seconds behind the slow start. -/
def oneByte (last : Except IoFailure SampleClock) : TCPThroughputEnv :=
  cellular [] [(⟨[0], by decide⟩, tick 8000)] last

/-- The first two full reads. -/
theorem fullReads_add_two (n : ℕ) : fullReads (n + 2) = (fullBuffer, tick 8000) ::
    (fullBuffer, tick 9000) ::
      (List.range n).map fun i : ℕ => (fullBuffer, tick (8000 + 1000 * (i + 2 : ℕ))) := by
  unfold fullReads
  simp [List.range_succ_eq_map, add_assoc]

/-- The clock of full reads goes on a second with each. -/
theorem steadyClock_fullReads {n : ℕ} (hn : n ≤ 2 ^ 32) (writes : List ℤ)
    (last : Except IoFailure SampleClock) : SteadyClock (cellular writes (fullReads n) last) := by
  have htick : ∀ time, readings (tick time) = List.replicate 4 time := fun _ => rfl
  have hread : ∀ read ∈ fullReads n, ∃ i < n,
      readings read.2 = List.replicate 4 (8000 + 1000 * (i : ℤ)) := by
    intro read hread
    obtain ⟨i, hi, rfl⟩ := List.mem_map.mp hread
    exact ⟨i, List.mem_range.mp hi, rfl⟩
  have hstart : (cellular writes (fullReads n) last).startTime = 1000 := rfl
  refine ⟨by omega, List.pairwise_cons.mpr ⟨?_, ?_⟩, ?_⟩
  · intro t ht
    obtain ⟨read, hmem, ht⟩ := List.mem_flatMap.mp ht
    obtain ⟨i, -, hi⟩ := hread read hmem
    rw [hi] at ht
    rw [List.eq_of_mem_replicate ht]
    omega
  · refine List.pairwise_flatMap.mpr ⟨fun read hmem => ?_, List.pairwise_map.mpr ?_⟩
    · obtain ⟨i, -, hi⟩ := hread read hmem
      rw [hi]
      exact List.pairwise_replicate.mpr (Or.inr (le_refl _))
    · refine List.pairwise_lt_range.imp fun {i j} hij t ht u hu => ?_
      rw [htick] at ht hu
      rw [List.eq_of_mem_replicate ht, List.eq_of_mem_replicate hu]
      omega
  · intro read hmem t ht
    obtain ⟨i, hin, hi⟩ := hread read hmem
    rw [hi] at ht
    rw [List.eq_of_mem_replicate ht]
    omega

/-- An insertion leaves a sample. -/
theorem insertWithOrder_ne_nil (array : List Value) (item : Value) :
    insertWithOrder array item ≠ [] := by
  intro h
  have hitem : item ∈ insertWithOrder array item := mem_insertWithOrder.mpr (Or.inl rfl)
  rw [h] at hitem
  cases hitem

/-- A sample that was taken is kept. -/
theorem samplingResults_updateSize_ne_nil {st : Receiving} (clock : SampleClock) (delta : ℤ)
    (h : st.samplingResults ≠ []) :
    (updateSize J desc env clock delta st).samplingResults ≠ [] := by
  simp only [updateSize]
  split
  · exact h
  · split
    · rwa [samplingResults_startSample]
    · exact insertWithOrder_ne_nil _ _

/-- Samples are not taken back. -/
theorem samplingResults_receive_ne_nil {reads : List (Chunk 5000 × SampleClock)}
    {st st' : Receiving} {exceeded : Bool} (h : st.samplingResults ≠ [])
    (hreceive : receive J desc env reads st = .ok (exceeded, st')) : st'.samplingResults ≠ [] := by
  induction reads generalizing st with
  | nil =>
      obtain ⟨clock, -, hst⟩ := except_bind_eq_ok.mp hreceive
      cases hst
      exact samplingResults_updateSize_ne_nil _ _ h
  | cons read reads ih =>
      have hnext : (receiveStep J desc env st read).samplingResults ≠ [] :=
        samplingResults_updateSize_ne_nil _ _ h
      rw [receive_cons] at hreceive
      split at hreceive
      · cases hreceive
        exact hnext
      · exact ih hnext hreceive

/-- Ten megabytes and a bit more, which reach the cap, come in a second apart: the
second read takes a sample. -/
theorem accounts_iff_cap : ∃ st, receive Platform.latin defaults bothCaps
    bothCaps.downlink.reads noneReceived = .ok (true, st) ∧ st.samplingResults ≠ [] ∧
      Accounted Platform.latin defaults bothCaps st := by
  have hreached : dataLimitByteDown defaults ≤ bytesOf bothCaps.downlink.reads := by
    unfold bothCaps
    rw [cellular_reads, bytesOf_fullReads]
    decide
  obtain ⟨st, hreceive⟩ := exists_receive_of_reached Platform.latin rfl hreached
  refine ⟨st, hreceive, ?_, (accounts_iff Platform.latin defaults bothCaps rfl
    (steadyClock_fullReads (by decide) _ _)).mpr (fun _ => ⟨rfl, hreached⟩) true st hreceive⟩
  unfold bothCaps at hreceive
  rw [cellular_reads, fullReads_add_two, receive_cons, if_neg (by decide +kernel), receive_cons,
    if_neg (by decide +kernel)] at hreceive
  exact samplingResults_receive_ne_nil (by decide +kernel) hreceive

/-- The only byte of a stream that ends is not counted. -/
theorem byte_lost_at_end : SteadyClock (oneByte (.ok (tick 8002))) ∧
    ¬ ∀ exceeded st, receive Platform.latin defaults (oneByte (.ok (tick 8002)))
      (oneByte (.ok (tick 8002))).downlink.reads noneReceived = .ok (exceeded, st) →
        Accounted Platform.latin defaults (oneByte (.ok (tick 8002))) st := by
  refine ⟨⟨by decide, by decide, by decide⟩, fun h => ?_⟩
  obtain ⟨exceeded, st, hreceive, htotal⟩ := totalRevSize_of_end Platform.latin defaults
    (oneByte (.ok (tick 8002))) (fun _ => by decide) rfl
  have hlost := htotal.symm.trans (h exceeded st hreceive).total
  revert hlost
  decide

end Loop

end TCPThroughputTask

end MobiPerf.Measurements
