import Mathlib.Data.List.Induction
import MobiPerf.SocketProc.ProcFs

/-!
# SocketProc.Rows — the rows of `iNode2connid`

A row of the inode table counts its connection numbers in a byte and stores each
as a byte. `pushId` is what a row does to the numbers it holds, `kept` what is
left of all numbers pushed to it:

* `rowIds_pushConn`: the code's push on the bytes is `pushId` on the numbers;
* `foldl_pushId`: the numbers a row is left with, without the loop.
-/

namespace MobiPerf.SocketProc

/-- The connection numbers a row shows to a search: its cells, as many as its
count says. -/
def ConnTable.rowIds (t : ConnTable) (h : ℕ) : List ℕ :=
  (List.range (t.iNode2connid h 0).toNat).map fun i => (t.iNode2connid h (i + 1)).toNat

theorem ConnTable.findINode_eq (t : ConnTable) (iNode : DWORD) :
    t.findINode iNode =
      (t.rowIds (inoHash iNode)).find? fun id => (t.conns id).iNode = iNode := rfl

/-- A push to a row. The 256th makes the count zero, which is the cell the new
number is then written to: the number becomes the count. -/
def pushId (ids : List ℕ) (id : ℕ) : List ℕ :=
  if ids.length < 255 then ids ++ [id] else ids.take (id % 256)

/-- What a row keeps of the numbers pushed to it. With the 256th number `p` the
count falls to the low byte of `p`; where that is 255 it falls again with the
next one. -/
def kept (ids : List ℕ) : List ℕ :=
  match ids[255]? with
  | none => ids
  | some p =>
    if p = 255 then
      match ids[256]? with
      | none => ids.take 255
      | some q => ids.take (q % 256) ++ ids.drop 257
    else ids.take (p % 256) ++ ids.drop 256

/-! ## Bytes -/

/-- A push changes one row, and that as `pushId` says. -/
theorem ConnTable.rowIds_pushConn {t : ConnTable} {h : ℕ} {ids : List ℕ}
    (hrow : t.rowIds h = ids.map (· % 256)) :
    (t.pushConn h).rowIds h = (pushId ids t.nConns).map (· % 256) := by
  have hlen : (t.iNode2connid h 0).toNat = ids.length := by
    have h := congrArg List.length hrow
    simpa [ConnTable.rowIds] using h
  have hbyte := (t.iNode2connid h 0).toNat_lt
  have hnext : (t.nextColumn h).toNat = ((t.iNode2connid h 0).toNat + 1) % 256 := by
    rw [ConnTable.nextColumn, UInt8.toNat_add]
    rfl
  unfold pushId
  split
  · -- a free cell behind the count
    rename_i hfree
    have hk : (t.nextColumn h).toNat = ids.length + 1 := by omega
    have hcount : ((t.pushConn h).iNode2connid h 0).toNat = ids.length + 1 := by
      simp [ConnTable.pushConn, hk]
    have hlast : ((t.pushConn h).iNode2connid h (ids.length + 1)).toNat = t.nConns % 256 := by
      simp [ConnTable.pushConn, hk]
    have hcells : ∀ i < ids.length,
        (t.pushConn h).iNode2connid h (i + 1) = t.iNode2connid h (i + 1) := by
      intro i hi
      have hne : i + 1 ≠ ids.length + 1 := by omega
      simp [ConnTable.pushConn, hk, Function.update_of_ne hne]
    rw [ConnTable.rowIds, hcount, List.range_succ, List.map_append, List.map_append, ← hrow,
      ConnTable.rowIds, hlen]
    congr 1
    · apply List.map_congr_left
      intro i hi
      rw [hcells i (List.mem_range.mp hi)]
    · simpa using hlast
  · -- the count wraps around
    rename_i hfull
    have hk : (t.nextColumn h).toNat = 0 := by omega
    have hcount : ((t.pushConn h).iNode2connid h 0).toNat = t.nConns % 256 := by
      simp [ConnTable.pushConn, hk]
    have hcells : ∀ i, (t.pushConn h).iNode2connid h (i + 1) = t.iNode2connid h (i + 1) := by
      intro i
      simp [ConnTable.pushConn, hk]
    have hmin : min (t.nConns % 256) ids.length = t.nConns % 256 := by omega
    rw [ConnTable.rowIds, hcount, List.map_take, ← hrow, ConnTable.rowIds, ← List.map_take,
      List.take_range, hlen, hmin]
    simp only [hcells]

theorem ConnTable.rowIds_pushConn_of_ne {t : ConnTable} {h h' : ℕ} (hne : h' ≠ h) :
    (t.pushConn h).rowIds h' = t.rowIds h' := by
  simp [ConnTable.rowIds, ConnTable.pushConn, Function.update_of_ne hne]

/-! ## The closed form -/

/-- Between two places of an increasing list there is room for the places. -/
theorem add_le_of_getElem? {ids : List ℕ} (h : ids.Pairwise (· < ·)) {i j p q : ℕ} (hij : i ≤ j)
    (hp : ids[i]? = some p) (hq : ids[j]? = some q) : p + (j - i) ≤ q := by
  induction j generalizing q with
  | zero =>
      have hi : i = 0 := Nat.le_zero.mp hij
      subst hi
      rw [hp] at hq
      exact Nat.le_of_eq (Option.some.inj hq)
  | succ j ih =>
      rcases Nat.lt_or_eq_of_le hij with hlt | rfl
      · obtain ⟨hj, rfl⟩ := List.getElem?_eq_some_iff.mp hq
        have hj' : j < ids.length := by omega
        have hprev := ih (Nat.le_of_lt_succ hlt) (List.getElem?_eq_getElem hj')
        have hnext := List.pairwise_iff_getElem.mp h j (j + 1) hj' hj (Nat.lt_succ_self j)
        omega
      · rw [hp] at hq
        have heq := Option.some.inj hq
        omega

theorem kept_of_length_le {ids : List ℕ} (h : ids.length ≤ 255) : kept ids = ids := by
  rw [kept, List.getElem?_eq_none h]

theorem kept_of_low {ids : List ℕ} {p : ℕ} (hp : ids[255]? = some p) (hne : p ≠ 255) :
    kept ids = ids.take (p % 256) ++ ids.drop 256 := by
  rw [kept, hp]
  exact if_neg hne

theorem kept_of_255 {ids : List ℕ} (hp : ids[255]? = some 255) (hlen : ids.length = 256) :
    kept ids = ids.take 255 := by
  rw [kept, hp, List.getElem?_eq_none (Nat.le_of_eq hlen)]
  rfl

theorem kept_of_255_low {ids : List ℕ} {q : ℕ} (hp : ids[255]? = some 255)
    (hq : ids[256]? = some q) : kept ids = ids.take (q % 256) ++ ids.drop 257 := by
  rw [kept, hp, hq]
  rfl

/-- What a row keeps are some of the numbers, in order. -/
theorem kept_sublist (ids : List ℕ) : (kept ids).Sublist ids := by
  have hcut {m n : ℕ} (hmn : m ≤ n) : (ids.take m ++ ids.drop n).Sublist ids := by
    have hdrop : (ids.drop n).Sublist (ids.drop m) := List.drop_sublist_drop_left ids hmn
    have h := (List.Sublist.refl (ids.take m)).append hdrop
    rwa [List.take_append_drop] at h
  unfold kept
  split
  · exact List.Sublist.refl ids
  · split
    · split
      · exact List.take_sublist 255 ids
      · exact hcut (by omega)
    · exact hcut (by omega)

/-- The loop of pushes leaves `kept`, for connection numbers in order. -/
theorem foldl_pushId {ids : List ℕ} (hord : ids.Pairwise (· < ·)) (hlt : ∀ id ∈ ids, id < 512) :
    ids.foldl pushId [] = kept ids := by
  induction ids using List.reverseRecOn with
  | nil => rfl
  | append_singleton ids id ih =>
      have hord' := (List.pairwise_append.mp hord).1
      simp only [List.forall_mem_append, List.forall_mem_singleton] at hlt
      have hlast : (ids ++ [id])[ids.length]? = some id := List.getElem?_concat_length
      have hget {i p : ℕ} (hp : ids[i]? = some p) : (ids ++ [id])[i]? = some p := by
        rw [List.getElem?_append_left (List.getElem?_eq_some_iff.mp hp).1, hp]
      have hgap {i p : ℕ} (hp : ids[i]? = some p) : p + (ids.length - i) ≤ id :=
        add_le_of_getElem? hord (Nat.le_of_lt (List.getElem?_eq_some_iff.mp hp).1) (hget hp) hlast
      rw [List.foldl_append, ih hord' hlt.1, List.foldl_cons, List.foldl_nil]
      rcases Nat.lt_trichotomy ids.length 255 with hlen | hlen | hlen
      · have hlen' : (ids ++ [id]).length ≤ 255 := by
          rw [List.length_append, List.length_singleton]
          omega
        rw [kept_of_length_le (Nat.le_of_lt hlen), kept_of_length_le hlen', pushId, if_pos hlen]
      · -- the 256th number
        rw [hlen] at hlast
        rw [kept_of_length_le (Nat.le_of_eq hlen), pushId, if_neg (by omega)]
        by_cases hid : id = 255
        · subst hid
          rw [kept_of_255 hlast (by simp [hlen]), List.take_append_of_le_length (by omega)]
        · have hdrop : (ids ++ [id]).drop 256 = [] := List.drop_eq_nil_of_le (by simp [hlen])
          rw [kept_of_low hlast hid, hdrop, List.append_nil,
            List.take_append_of_le_length (by omega)]
      · obtain ⟨p, hp⟩ : ∃ p, ids[255]? = some p := ⟨_, List.getElem?_eq_getElem hlen⟩
        obtain ⟨z, hz⟩ : ∃ z, ids[0]? = some z := ⟨_, List.getElem?_eq_getElem (by omega)⟩
        have hfirst := add_le_of_getElem? hord' (Nat.zero_le 255) hz hp
        have hroom := hgap hp
        by_cases hpeq : p = 255
        · subst hpeq
          rcases Nat.lt_or_ge 256 ids.length with h256 | h256
          · obtain ⟨q, hq⟩ : ∃ q, ids[256]? = some q := ⟨_, List.getElem?_eq_getElem h256⟩
            have hnext := add_le_of_getElem? hord' (Nat.le_succ 255) hp hq
            have hroom' := hgap hq
            have hlow : (kept ids).length < 255 := by
              rw [kept_of_255_low hp hq, List.length_append, List.length_take, List.length_drop]
              omega
            rw [pushId, if_pos hlow, kept_of_255_low hp hq, kept_of_255_low (hget hp) (hget hq),
              List.take_append_of_le_length (by omega), List.drop_append_of_le_length (by omega),
              List.append_assoc]
          · -- the 257th number, after the count stayed at 255
            have hlen256 : ids.length = 256 := by omega
            have hfull : ¬(ids.take 255).length < 255 := by
              rw [List.length_take]
              omega
            have hdrop : (ids ++ [id]).drop 257 = [] :=
              List.drop_eq_nil_of_le (by simp [hlen256])
            have hmin : min (id % 256) 255 = id % 256 := by omega
            rw [hlen256] at hlast
            rw [kept_of_255 hp hlen256, pushId, if_neg hfull, kept_of_255_low (hget hp) hlast,
              hdrop, List.append_nil, List.take_take, hmin,
              List.take_append_of_le_length (by omega)]
        · have hlow : (kept ids).length < 255 := by
            rw [kept_of_low hp hpeq, List.length_append, List.length_take, List.length_drop]
            omega
          rw [pushId, if_pos hlow, kept_of_low hp hpeq, kept_of_low (hget hp) hpeq,
            List.take_append_of_le_length (by omega), List.drop_append_of_le_length (by omega),
            List.append_assoc]

end MobiPerf.SocketProc
