import MobiPerf.Measurements.TCPSamples
import MobiPerf.Measurements.TCPWindow

/-!
# Measurements.UplinkReply — the samples of the server's reply

Behind the upload the server writes its samples, a separator between two of
them, and closes. The stream comes in pieces; the client reads once and takes
the first piece for the whole.

* `TCPThroughputTask.uplink_samples_iff`: over two ways the reply is cut up, the
  samples are the same, all of them and in order, exactly when both first pieces
  reach into the last number, far enough that it reads as it does in full;
* `TCPThroughputTask.uplink_samples_cut`: a number cut in two is another number.
-/

namespace MobiPerf.Measurements

open Lib Scheduler

namespace TCPThroughputTask

variable {J : Platform} {desc : TCPThroughputDesc} {env env' : TCPThroughputEnv}
  {texts : List String}

/-! ## The reply and its pieces -/

def byte (c : Char) : UInt8 := UInt8.ofNat c.toNat

def asciiChar (b : UInt8) : Char := Char.ofNat b.toNat

/-- The character set of the phone agrees with ASCII where that has a character. -/
def ReadsAscii (J : Platform) : Prop :=
  ∀ bytes : List UInt8, (∀ b ∈ bytes, b.toNat < 128) →
    J.newString bytes = String.ofList (bytes.map asciiChar)

/-- The characters of the reply. -/
def joined (texts : List String) : List Char := List.intercalate ['#'] (texts.map String.toList)

/-- What the server sends. -/
def reply (texts : List String) : List UInt8 := (joined texts).map byte

/-- A number as the server writes it. -/
structure IsSample (J : Platform) (text : String) : Prop where
  ascii : ∀ c ∈ text.toList, c.toNat < 128
  whole : '#' ∉ text.toList
  reads : ∃ x, J.parseDouble text = .ok x

/-- The upload goes through, and the reply comes in these pieces; the end of the
stream is read where there is none. -/
structure Receives (desc : TCPThroughputDesc) (env : TCPThroughputEnv) (texts : List String)
    (pieces : List (Chunk 5000)) : Prop where
  timeout : 0 ≤ timeoutMillis desc
  connected : env.uplink.connect = .ok ()
  finishes : Finishes desc env
  finished : env.uplink.finish = .ok ()
  sent : (pieces.map Subtype.val).flatten = reply texts
  read : env.uplink.read = .ok pieces.head?
  closed : env.uplink.close = .ok ()

/-- All the samples, none before a smaller one. -/
def AllInOrder (J : Platform) (texts : List String) (samplingResults : List Value) : Prop :=
  (∃ samples, texts.map J.parseDouble = samples.map .ok ∧ samplingResults.Perm samples) ∧
    samplingResults.Pairwise fun x y => ¬ y.lt x

/-- The piece holds all numbers but the last, and of the last one so much that it
reads as the same value. -/
def ReachesEnd (J : Platform) (texts : List String) (piece : Chunk 5000) : Prop :=
  ∃ front last start, texts = front ++ [last] ∧ start.toList <+: last.toList ∧
    J.parseDouble start = J.parseDouble last ∧ piece.val = reply (front ++ [start])

/-! ## The text of a piece -/

/-- An ASCII character is one UTF-16 unit. -/
theorem units_of_ascii {c : Char} (h : c.toNat < 128) : units c = 1 := by
  unfold units
  exact if_pos (by omega)

/-- The first characters of a text are the text they came from. -/
theorem substring_append {s : List Char} (h : ∀ c ∈ s, units c = 1) (rest : List Char) :
    substring s.length (s ++ rest) = some s := by
  induction s with
  | nil => cases rest <;> rfl
  | cons c s ih =>
      obtain ⟨hc, hs⟩ := List.forall_mem_cons.mp h
      have hcons : substring (s.length + 1) (c :: (s ++ rest)) =
          (substring s.length (s ++ rest)).map (c :: ·) := by
        cases hlen : s.length <;> simp [substring, hc]
      rw [List.length_cons, List.cons_append, hcons, ih hs]
      rfl

/-- The byte of an ASCII character is its code. -/
theorem toNat_byte {c : Char} (h : c.toNat < 128) : (byte c).toNat = c.toNat := by
  unfold byte
  rw [UInt8.toNat_ofNat']
  omega

/-- So bytes and ASCII characters are the same text. -/
theorem asciiChars_byte {s : List Char} (h : ∀ c ∈ s, c.toNat < 128) :
    (s.map byte).map asciiChar = s := by
  rw [List.map_map]
  calc s.map (asciiChar ∘ byte) = s.map id := by
        apply List.map_congr_left
        intro c hc
        show Char.ofNat (byte c).toNat = c
        rw [toNat_byte (h c hc), Char.ofNat_toNat]
    _ = s := List.map_id s

/-- The zeros behind the bytes read are cut off again. -/
theorem message_ascii (hascii : ReadsAscii J) {piece : Chunk 5000} {s : List Char}
    (hs : ∀ c ∈ s, c.toNat < 128) (hpiece : piece.val = s.map byte) :
    message J piece = .ok (String.ofList s) := by
  have hlength : piece.val.length = s.length := by rw [hpiece, List.length_map]
  have hbuffer : J.newString (buffer piece) =
      String.ofList (s ++ List.replicate (bufferSize - s.length) (Char.ofNat 0)) := by
    rw [hascii]
    · unfold buffer
      rw [hlength, hpiece, List.map_append, List.map_replicate, asciiChars_byte hs]
      rfl
    · intro b hb
      rcases List.mem_append.mp hb with hb | hb
      · rw [hpiece] at hb
        obtain ⟨c, hc, rfl⟩ := List.mem_map.mp hb
        rw [toNat_byte (hs c hc)]
        exact hs c hc
      · rw [List.eq_of_mem_replicate hb]
        decide
  unfold message
  rw [hbuffer, hlength, String.toList_ofList,
    substring_append fun c hc => units_of_ascii (hs c hc)]

/-! ## The samples of a text -/

/-- An insertion keeps all samples. -/
theorem insertAll_perm (array samples : List Value) :
    (insertAll array samples).Perm (array ++ samples) := by
  induction samples generalizing array with
  | nil => rw [List.append_nil]; exact List.Perm.refl _
  | cons x samples ih =>
      calc (insertAll (insertWithOrder array x) samples).Perm
            (insertWithOrder array x ++ samples) := ih _
        _ |>.Perm ((x :: array) ++ samples) := (insertWithOrder_perm array x).append_right samples
        _ |>.Perm (array ++ x :: samples) := List.perm_middle.symm

/-- The item goes in front of the first larger one, also where not every double is
a number. -/
theorem insertWithOrder_inOrder {array : List Value} {item : Value}
    (h : array.Pairwise fun x y => ¬ y.lt x) :
    (insertWithOrder array item).Pairwise fun x y => ¬ y.lt x := by
  induction array with
  | nil => exact List.pairwise_singleton _ _
  | cons x array ih =>
      have hx := (List.pairwise_cons.mp h).1
      unfold insertWithOrder
      split
      · rename_i hlt
        refine List.pairwise_cons.mpr ⟨fun y hy => ?_, h⟩
        rcases List.mem_cons.mp hy with rfl | hy
        · exact Value.not_lt_of_lt hlt
        · exact fun hyitem => hx y hy (Value.lt_of_lt_of_lt hyitem hlt)
      · rename_i hnot
        refine List.pairwise_cons.mpr ⟨fun y hy => ?_, ih (List.pairwise_cons.mp h).2⟩
        rcases mem_insertWithOrder.mp hy with rfl | hy
        · exact hnot
        · exact hx y hy

theorem insertAll_inOrder {array : List Value} (samples : List Value)
    (h : array.Pairwise fun x y => ¬ y.lt x) :
    (insertAll array samples).Pairwise fun x y => ¬ y.lt x := by
  induction samples generalizing array with
  | nil => exact h
  | cons x samples ih => exact ih (insertWithOrder_inOrder h)

/-- The texts are read one by one, and each of them has to be a number. -/
theorem readAll_eq_ok_iff {parts : List String} {array results : List Value} :
    parts.foldlM (readSample J) array = .ok results ↔
      ∃ samples, parts.map J.parseDouble = samples.map .ok ∧
        results = insertAll array samples := by
  induction parts generalizing array with
  | nil =>
      constructor
      · intro h
        cases h
        exact ⟨[], rfl, rfl⟩
      · rintro ⟨samples, hmap, rfl⟩
        rw [List.map_eq_nil_iff.mp hmap.symm]
        rfl
  | cons part parts ih =>
      rw [List.foldlM_cons, except_bind_eq_ok]
      simp only [ih, readSample, except_bind_eq_ok]
      constructor
      · rintro ⟨next, ⟨x, hx, hnext⟩, samples, hmap, hresults⟩
        cases hnext
        refine ⟨x :: samples, ?_, hresults⟩
        rw [List.map_cons, List.map_cons, hx, hmap]
      · rintro ⟨samples, hmap, hresults⟩
        cases samples with
        | nil => cases hmap
        | cons x samples =>
            obtain ⟨hx, hmap⟩ := List.cons_eq_cons.mp hmap
            exact ⟨_, ⟨x, hx, rfl⟩, samples, hmap, hresults⟩

/-! ## The parts of a piece -/

/-- A sample is not empty. -/
theorem IsSample.ne_empty {text : String} (h : IsSample J text) : text ≠ "" := by
  rintro rfl
  obtain ⟨x, hx⟩ := h.reads
  have hblank : readDecimal "" = none := by decide +kernel
  unfold Platform.parseDouble at hx
  rw [hblank] at hx
  cases hx

/-- The start of a sample that can be read is a sample. -/
theorem IsSample.of_prefix {text start : String} (h : IsSample J text)
    (hstarts : start.toList <+: text.toList) (hreads : ∃ x, J.parseDouble start = .ok x) :
    IsSample J start :=
  ⟨fun c hc => h.ascii c (hstarts.subset hc), fun hc => h.whole (hstarts.subset hc), hreads⟩

/-- The samples are separated by #. -/
theorem joined_cons (text : String) {texts : List String} (hne : texts ≠ []) :
    joined (text :: texts) = text.toList ++ '#' :: joined texts := by
  unfold joined
  rw [List.map_cons, List.intercalate_cons_of_ne_nil (by simpa using hne)]
  simp

/-- The text of samples is ASCII. -/
theorem ascii_joined (h : ∀ t ∈ texts, IsSample J t) : ∀ c ∈ joined texts, c.toNat < 128 := by
  induction texts with
  | nil => exact nofun
  | cons text texts ih =>
      obtain ⟨htext, htexts⟩ := List.forall_mem_cons.mp h
      by_cases hne : texts = []
      · subst hne
        simpa [joined] using htext.ascii
      · intro c hc
        rw [joined_cons text hne] at hc
        rcases List.mem_append.mp hc with hc | hc
        · exact htext.ascii c hc
        · rcases List.mem_cons.mp hc with rfl | hc
          · decide
          · exact ih htexts c hc

/-- It is empty when there are none. -/
theorem joined_eq_nil_iff (h : ∀ t ∈ texts, IsSample J t) : joined texts = [] ↔ texts = [] := by
  constructor
  · intro hnil
    cases texts with
    | nil => rfl
    | cons text texts =>
        have hempty := (h text List.mem_cons_self).ne_empty
        by_cases hne : texts = []
        · subst hne
          exact absurd (by simpa [joined] using hnil) hempty
        · rw [joined_cons text hne] at hnil
          simp at hnil
  · rintro rfl
    rfl

/-- Its pieces are the samples. -/
theorem splitOn_joined (hne : texts ≠ []) (h : ∀ t ∈ texts, IsSample J t) :
    (joined texts).splitOn '#' = texts.map String.toList := by
  apply List.splitOn_intercalate
  · intro l hl
    obtain ⟨t, ht, rfl⟩ := List.mem_map.mp hl
    exact (h t ht).whole
  · simpa using hne

/-- What the reply starts with: some numbers in full, and the start of one more,
which may be empty and then is dropped. -/
theorem exists_parts (h : ∀ t ∈ texts, IsSample J t) (hne : texts ≠ []) {s : List Char}
    (hs : s <+: joined texts) (hpiece : s ≠ []) :
    ∃ front start whole back, texts = front ++ whole :: back ∧ start.toList <+: whole.toList ∧
      s = joined (front ++ [start]) ∧
      split '#' (String.ofList s) = front ++ if start = "" then [] else [start] := by
  obtain ⟨pieces, piece, wholeChars, rest, hpieces, htexts, hstarts⟩ :=
    splitOn_of_prefix (a := '#') hs
  rw [splitOn_joined hne h] at htexts
  obtain ⟨front, others, rfl, hfront, hothers⟩ := List.map_eq_append_iff.mp htexts
  obtain ⟨whole, back, rfl, rfl, -⟩ := List.map_eq_cons_iff.mp hothers
  have hjoined : s = joined (front ++ [String.ofList piece]) := by
    have hinverse : List.intercalate ['#'] (s.splitOn '#') = s := List.intercalate_splitOn _
    rw [hpieces, ← hfront] at hinverse
    unfold joined
    rw [List.map_append, List.map_singleton, String.toList_ofList]
    exact hinverse.symm
  refine ⟨front, String.ofList piece, whole, back, rfl, ?_, hjoined, ?_⟩
  · rwa [String.toList_ofList]
  · have hfull : ∀ t ∈ front, t ≠ "" := fun t ht =>
      (h t (List.mem_append_left _ ht)).ne_empty
    have hsome : front ≠ [] ∨ piece ≠ [] := by
      by_contra hnone
      obtain ⟨hnil, hblank⟩ := not_or.mp hnone
      exact hpiece (by simpa [joined, not_not.mp hnil, not_not.mp hblank] using hjoined)
    unfold split
    rw [String.toList_ofList, hpieces, ← hfront, keptPieces_concat hsome hfull]

/-! ## The samples of the first piece -/

/-- A piece of the reply is read sample by sample. -/
theorem readSamples_piece (hascii : ReadsAscii J) {piece : Chunk 5000} {s : List Char}
    (hs : ∀ c ∈ s, c.toNat < 128) (hpiece : piece.val = s.map byte) :
    readSamples J (some piece) = (split '#' (String.ofList s)).foldlM (readSample J) [] := by
  show (message J piece >>= fun text => (split '#' text).foldlM (readSample J) []) = _
  rw [message_ascii hascii hs hpiece]
  rfl

theorem exists_samples (h : ∀ t ∈ texts, IsSample J t) :
    ∃ samples : List Value, texts.map J.parseDouble = samples.map .ok := by
  induction texts with
  | nil => exact ⟨[], rfl⟩
  | cons text texts ih =>
      obtain ⟨htext, htexts⟩ := List.forall_mem_cons.mp h
      obtain ⟨x, hx⟩ := htext.reads
      obtain ⟨samples, hsamples⟩ := ih htexts
      refine ⟨x :: samples, ?_⟩
      rw [List.map_cons, List.map_cons, hx, hsamples]

/-- Values that are read from two lists of texts with the same front. -/
theorem last_of_perm {front : List String} {start whole : String} {samples samples' : List Value}
    (hstart : (front ++ [start]).map J.parseDouble = samples.map .ok)
    (hwhole : (front ++ [whole]).map J.parseDouble = samples'.map .ok)
    (hperm : samples.Perm samples') : J.parseDouble start = J.parseDouble whole := by
  rw [List.map_append] at hstart hwhole
  obtain ⟨xs, last, rfl, hxs, hlast⟩ := List.map_eq_append_iff.mp hstart.symm
  obtain ⟨ys, last', rfl, hys, hlast'⟩ := List.map_eq_append_iff.mp hwhole.symm
  obtain ⟨x, rfl, hx⟩ := List.map_eq_singleton_iff.mp hlast
  obtain ⟨y, rfl, hy⟩ := List.map_eq_singleton_iff.mp hlast'
  have hfront : xs = ys := List.map_injective_iff.mpr (fun _ _ h => Except.ok.inj h)
    (hxs.trans hys.symm)
  rw [hfront, List.perm_append_left_iff] at hperm
  have hxy := List.singleton_perm_singleton.mp hperm
  rw [← hx, ← hy, hxy]

/-- A piece that gives all samples in order reaches the end of the last. -/
theorem reachesEnd_of_samples (hascii : ReadsAscii J) (h : ∀ t ∈ texts, IsSample J t)
    (hne : texts ≠ []) {piece : Chunk 5000} (hstarts : piece.val <+: reply texts)
    {results : List Value} (hread : readSamples J (some piece) = .ok results)
    (hall : AllInOrder J texts results) : ReachesEnd J texts piece := by
  obtain ⟨s, hs, hpiece⟩ := List.prefix_map_iff.mp hstarts
  have hsne : s ≠ [] := by
    rintro rfl
    exact piece.property.1 hpiece
  rw [readSamples_piece hascii (fun c hc => ascii_joined h c (hs.subset hc)) hpiece] at hread
  obtain ⟨front, start, whole, back, rfl, hstart, rfl, hparts⟩ := exists_parts h hne hs hsne
  obtain ⟨samples, hsamples, hresults⟩ := readAll_eq_ok_iff.mp hread
  obtain ⟨samples', hsamples', hperm⟩ := hall.1
  rw [hparts] at hsamples
  have hperm' : samples.Perm samples' := by
    rw [hresults] at hperm
    exact (insertAll_perm [] samples).symm.trans hperm
  have hlength := hperm'.length_eq
  have hcount := congrArg List.length hsamples
  have hcount' := congrArg List.length hsamples'
  simp only [List.length_map, List.length_append, List.length_cons] at hcount hcount'
  by_cases hblank : start = ""
  · -- the number that is cut is lost
    rw [if_pos hblank] at hcount
    simp only [List.length_nil] at hcount
    omega
  · rw [if_neg hblank] at hsamples hcount
    simp only [List.length_singleton] at hcount
    have hback : back = [] := List.eq_nil_of_length_eq_zero (by omega)
    subst hback
    exact ⟨front, whole, start, rfl, hstart, last_of_perm hsamples hsamples' hperm', hpiece⟩

/-- A piece that does gives all of them. -/
theorem samples_of_reachesEnd (hascii : ReadsAscii J) (h : ∀ t ∈ texts, IsSample J t)
    {piece : Chunk 5000} (hreaches : ReachesEnd J texts piece) :
    ∃ samples, texts.map J.parseDouble = samples.map .ok ∧
      readSamples J (some piece) = .ok (insertAll [] samples) := by
  obtain ⟨front, last, start, rfl, hstart, hvalue, hpiece⟩ := hreaches
  have hlast := h last (List.mem_append_right _ List.mem_cons_self)
  have hparts : ∀ t ∈ front ++ [start], IsSample J t := by
    intro t ht
    rcases List.mem_append.mp ht with ht | ht
    · exact h t (List.mem_append_left _ ht)
    · rw [List.mem_singleton.mp ht]
      exact hlast.of_prefix hstart (hvalue ▸ hlast.reads)
  have hmap : (front ++ [last]).map J.parseDouble = (front ++ [start]).map J.parseDouble := by
    rw [List.map_append, List.map_append, List.map_singleton, List.map_singleton, hvalue]
  have hsplit : split '#' (String.ofList (joined (front ++ [start]))) = front ++ [start] :=
    split_intercalate (by simp) (fun t ht => (hparts t ht).whole)
      fun t ht => (hparts t ht).ne_empty
  obtain ⟨samples, hsamples⟩ := exists_samples hparts
  refine ⟨samples, hmap.trans hsamples, ?_⟩
  rw [readSamples_piece hascii (ascii_joined hparts) hpiece, hsplit]
  exact readAll_eq_ok_iff.mpr ⟨samples, hsamples, rfl⟩

/-- What is inserted is in order. -/
theorem allInOrder_insertAll {samples : List Value}
    (h : texts.map J.parseDouble = samples.map .ok) : AllInOrder J texts (insertAll [] samples) :=
  ⟨⟨samples, h, insertAll_perm [] samples⟩, insertAll_inOrder samples List.Pairwise.nil⟩

/-! ## The upload -/

/-- The upload is done once the reply is read as numbers. -/
theorem exists_uplink_iff {pieces : List (Chunk 5000)} (h : Receives desc env texts pieces)
    {P : List Value → Prop} :
    (∃ done, uplink J desc env = .ok done ∧ P done.samplingResults) ↔
      ∃ results, readSamples J pieces.head? = .ok results ∧ P results := by
  obtain ⟨sent, hsent⟩ := exists_sent_iff.mpr h.finishes
  have hupload : ∀ done, uplink J desc env = .ok done ↔ upload J desc env = .ok done := by
    intro done
    unfold uplink
    rw [h.connected, h.closed, buildUpSocket, if_neg (not_lt.mpr h.timeout)]
    exact catchIo_eq_ok (by simp)
  have hrest : upload J desc env = (do
      let samplingResults ← readSamples J pieces.head?
      .ok {
        samplingResults
        dataLimitExceeded := sent.1
        taskDuration :=
          J.double.div (J.double.ofInt (toLong (sent.2 - env.startTime)))
            (J.double.ofInt 1000) }) := by
    unfold upload
    rw [hsent, h.finished, h.read]
    rfl
  simp only [hupload, hrest]
  constructor
  · rintro ⟨done, hdone, hP⟩
    obtain ⟨results, hread, hresults⟩ := except_bind_eq_ok.mp hdone
    cases hresults
    exact ⟨results, hread, hP⟩
  · rintro ⟨results, hread, hP⟩
    exact ⟨_, except_bind_eq_ok.mpr ⟨results, hread, rfl⟩, hP⟩

/-- Where there is a first piece, it is what the reply starts with. -/
theorem Receives.prefix_reply {pieces : List (Chunk 5000)} (h : Receives desc env texts pieces)
    {piece : Chunk 5000} (hpiece : piece ∈ pieces.head?) : piece.val <+: reply texts := by
  obtain ⟨rest, rfl⟩ := List.head?_eq_some_iff.mp hpiece
  rw [← h.sent]
  exact List.prefix_append _ _

/-- The samples of a reply whose first piece reaches into the last number. -/
theorem exists_inOrder (hascii : ReadsAscii J) (htexts : ∀ t ∈ texts, IsSample J t)
    {pieces : List (Chunk 5000)} (h : Receives desc env texts pieces)
    (hreaches : ∀ piece ∈ pieces.head?, ReachesEnd J texts piece) :
    ∃ samples, texts.map J.parseDouble = samples.map .ok ∧
      readSamples J pieces.head? = .ok (insertAll [] samples) := by
  cases pieces with
  | nil =>
      have hnone : reply texts = [] := h.sent.symm
      have hempty := (joined_eq_nil_iff htexts).mp (List.map_eq_nil_iff.mp hnone)
      subst hempty
      exact ⟨[], rfl, rfl⟩
  | cons piece pieces => exact samples_of_reachesEnd hascii htexts (hreaches piece rfl)

/-- An uplink with all samples has read them in the first piece. -/
theorem reachesEnd_of_uplink (hascii : ReadsAscii J) (htexts : ∀ t ∈ texts, IsSample J t)
    {pieces : List (Chunk 5000)} (h : Receives desc env texts pieces) {done : Transfer}
    (hdone : uplink J desc env = .ok done) (hall : AllInOrder J texts done.samplingResults) :
    ∀ piece ∈ pieces.head?, ReachesEnd J texts piece := by
  intro piece hpiece
  obtain ⟨results, hread, hresults⟩ := (exists_uplink_iff h).mp ⟨done, hdone, hall⟩
  rw [hpiece] at hread
  have hstarts := h.prefix_reply hpiece
  have hne : texts ≠ [] := by
    rintro rfl
    exact piece.property.1 (List.prefix_nil.mp hstarts)
  exact reachesEnd_of_samples hascii htexts hne hstarts hread hresults

/-- Over two ways the reply is cut up, the same samples, all of them and in order. -/
theorem uplink_samples_iff (hascii : ReadsAscii J) (htexts : ∀ t ∈ texts, IsSample J t)
    {pieces pieces' : List (Chunk 5000)} (h : Receives desc env texts pieces)
    (h' : Receives desc env' texts pieces') :
    (∃ done done', uplink J desc env = .ok done ∧ uplink J desc env' = .ok done' ∧
        done.samplingResults = done'.samplingResults ∧
        AllInOrder J texts done.samplingResults) ↔
      (∀ piece ∈ pieces.head?, ReachesEnd J texts piece) ∧
        ∀ piece ∈ pieces'.head?, ReachesEnd J texts piece := by
  constructor
  · rintro ⟨done, done', hdone, hdone', hsame, hall⟩
    exact ⟨reachesEnd_of_uplink hascii htexts h hdone hall,
      reachesEnd_of_uplink hascii htexts h' hdone' (hsame ▸ hall)⟩
  · rintro ⟨hreaches, hreaches'⟩
    obtain ⟨samples, hsamples, hread⟩ := exists_inOrder hascii htexts h hreaches
    obtain ⟨samples', hsamples', hread'⟩ := exists_inOrder hascii htexts h' hreaches'
    have hsame : samples' = samples := List.map_injective_iff.mpr (fun _ _ h => Except.ok.inj h)
      (hsamples'.symm.trans hsamples)
    rw [hsame] at hread'
    obtain ⟨done, hdone, hresults⟩ := (exists_uplink_iff h).mpr
      ⟨_, hread, (rfl : insertAll [] samples = insertAll [] samples)⟩
    obtain ⟨done', hdone', hresults'⟩ := (exists_uplink_iff h').mpr
      ⟨_, hread', (rfl : insertAll [] samples = insertAll [] samples)⟩
    refine ⟨done, done', hdone, hdone', hresults.symm.trans hresults', ?_⟩
    rw [← hresults]
    exact allInOrder_insertAll hsamples

/-- A server that answers with these pieces once the time is over. -/
def answering (pieces : List (Chunk 5000)) : TCPThroughputEnv :=
  { cellular [] [] (.error ⟨none, none⟩) with
    uplink := ⟨.ok (), [22000], ⟨none, none⟩, .ok (), .ok pieces.head?, .ok ()⟩ }

/-- A server that answers in pieces is received so. -/
theorem receives_answering {pieces : List (Chunk 5000)}
    (h : (pieces.map Subtype.val).flatten = reply texts) :
    Receives defaults (answering pieces) texts pieces where
  timeout := by decide
  connected := rfl
  finishes :=
    ⟨0, 22000, rfl, Or.inr (show totalDuration defaults ≤ toLong (22000 - 1000) by decide)⟩
  finished := rfl
  sent := h
  read := rfl
  closed := rfl

/-- The Latin platform reads ASCII. -/
theorem readsAscii_latin : ReadsAscii Platform.latin := fun _ _ => rfl

theorem parseDouble_eq {text text' : String} {x : Value} (h : readDecimal text = some x)
    (h' : readDecimal text' = some x) : J.parseDouble text = J.parseDouble text' := by
  rw [Platform.parseDouble, Platform.parseDouble, h, h']

/-- A text that can be read is a sample. -/
theorem isSample_of_reads {text : String} {x : Value}
    (hchars : text.toList.all fun c => c.toNat < 128 && c ≠ '#')
    (hreads : readDecimal text = some x) : IsSample J text := by
  have hmem : ∀ c ∈ text.toList, c.toNat < 128 ∧ c ≠ '#' := by simpa using hchars
  refine ⟨fun c hc => (hmem c hc).1, fun hseparator => (hmem '#' hseparator).2 rfl,
    J.double.convert x, ?_⟩
  rw [Platform.parseDouble, hreads]

theorem isSample_twelve : IsSample J "12" :=
  isSample_of_reads (x := .finite 12) (by decide) (by decide +kernel)

/-- Two samples at once, and cut before the last digit, which adds nothing. -/
theorem uplink_samples_of_two : ∃ done done',
    uplink Platform.latin defaults (answering [⟨reply ["12", "7.0"], by decide, by decide⟩]) =
        .ok done ∧
      uplink Platform.latin defaults (answering [⟨reply ["12", "7."], by decide, by decide⟩,
        ⟨reply ["0"], by decide, by decide⟩]) = .ok done' ∧
      done.samplingResults = done'.samplingResults ∧
      AllInOrder Platform.latin ["12", "7.0"] done.samplingResults := by
  have hseven : readDecimal "7.0" = some (.finite 7) := by decide +kernel
  have htexts : ∀ t ∈ ["12", "7.0"], IsSample Platform.latin t := by
    intro t ht
    rcases List.mem_pair.mp ht with rfl | rfl
    · exact isSample_twelve
    · exact isSample_of_reads (by decide) hseven
  refine (uplink_samples_iff readsAscii_latin htexts (receives_answering (by decide))
    (receives_answering (by decide))).mpr ⟨fun piece hpiece => ?_, fun piece hpiece => ?_⟩
  · cases hpiece
    exact ⟨["12"], "7.0", "7.0", rfl, List.prefix_rfl, rfl, rfl⟩
  · cases hpiece
    exact ⟨["12"], "7.0", "7.", rfl, by decide, parseDouble_eq (by decide +kernel) hseven, rfl⟩

/-- A number cut between its digits is read as its first ones. -/
theorem uplink_samples_cut :
    ¬ ∀ (J : Platform) (desc : TCPThroughputDesc) (env env' : TCPThroughputEnv)
      (texts : List String) (pieces pieces' : List (Chunk 5000)), ReadsAscii J →
      (∀ t ∈ texts, IsSample J t) → (reply texts).length ≤ bufferSize →
      Receives desc env texts pieces → Receives desc env' texts pieces' →
      ∃ done done', uplink J desc env = .ok done ∧ uplink J desc env' = .ok done' ∧
        done.samplingResults = done'.samplingResults ∧
        AllInOrder J texts done.samplingResults := by
  intro hall
  have htexts : ∀ t ∈ ["12"], IsSample Platform.latin t := by
    intro t ht
    rw [List.mem_singleton.mp ht]
    exact isSample_twelve
  have hcut : Receives defaults (answering [⟨reply ["1"], by decide, by decide⟩,
      ⟨reply ["2"], by decide, by decide⟩]) ["12"] _ := receives_answering (by decide)
  obtain ⟨done, done', -, hdone', hsame, hdone⟩ := hall Platform.latin defaults _ _ ["12"]
    [⟨reply ["12"], by decide, by decide⟩] _ readsAscii_latin htexts (by decide)
    (receives_answering (by decide)) hcut
  obtain ⟨front, last, start, htext, hstart, hvalue, hpiece⟩ :=
    reachesEnd_of_uplink readsAscii_latin htexts hcut hdone' (hsame ▸ hdone) _ rfl
  obtain ⟨rfl, rfl⟩ : front = [] ∧ last = "12" := by
    cases front with
    | nil => exact ⟨rfl, (List.cons.inj htext).1.symm⟩
    | cons first front => simp at htext
  -- the piece is as long as the start of the number
  have hlength : start.toList.length = 1 := by
    simpa [reply, joined] using (congrArg List.length hpiece).symm
  have hone : start = "1" := by
    have htake := List.prefix_iff_eq_take.mp hstart
    rw [hlength] at htake
    exact String.toList_inj.mp htake
  rw [hone] at hvalue
  revert hvalue
  decide +kernel

end TCPThroughputTask

end MobiPerf.Measurements
