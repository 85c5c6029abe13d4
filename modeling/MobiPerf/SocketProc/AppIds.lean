import MobiPerf.Lib.Interning
import MobiPerf.SocketProc.Table

/-!
# SocketProc.AppIds — the application dictionary

`GetAppID` looks a name up in a chain of its hash bin and adds it to the front
of the chain when it is not there. Seen from outside, the dictionary is an
interner: the id of a name is its index among the distinct names in the order
they were first seen, which is the order in which they are written to the
appname file. `Numbers` relates the two; neither the hash nor the layout of the
bins shows in what it says of the ids.
-/

namespace MobiPerf.SocketProc

open Lib

/-- The dictionary a first `StartCapture` leaves. -/
def AppTable.empty : AppTable where
  ppApps := fun _ => []
  nApps := 0
  appNames := []

/-- One call of `GetAppID` for each of the names, and the ids they return. -/
def getAppIDs : List Bytes → AppTable → List ℕ × AppTable
  | [], a => ([], a)
  | procName :: procNames, a =>
    let (id, a) := getAppID procName a
    let (ids, a) := getAppIDs procNames a
    (id :: ids, a)

/-! ## The dictionary is an interner -/

/-- The dictionary holds the names `known`, each under its index: its entry is in
the chain of its bin, and the file lists the names. -/
structure AppTable.Numbers (a : AppTable) (known : List Bytes) : Prop where
  nodup : known.Nodup
  count : a.nApps = known.length
  file : a.appNames = known
  chain : ∀ bin info, info ∈ a.ppApps bin ↔
    info.name ∈ known ∧ info.hash = getStringHash info.name ∧
      info.appid = known.idxOf info.name ∧ bin = info.hash % appBins

theorem AppTable.empty_numbers : AppTable.empty.Numbers [] where
  nodup := List.nodup_nil
  count := rfl
  file := rfl
  chain := by simp [AppTable.empty]

/-- A known name is found in its chain. -/
theorem AppTable.Numbers.notMem_of_find_eq_none {a : AppTable} {known : List Bytes}
    (h : a.Numbers known) {procName : Bytes}
    (hfind : (a.ppApps (getStringHash procName % appBins)).find? (fun info =>
      info.hash = getStringHash procName && info.name = procName) = none) :
    procName ∉ known := by
  intro hknown
  have hmem := (h.chain (getStringHash procName % appBins)
    ⟨procName, getStringHash procName, known.idxOf procName⟩).mpr ⟨hknown, rfl, rfl, rfl⟩
  have htest := List.find?_eq_none.mp hfind _ hmem
  simp at htest

/-- The chains once the entry of a new name was put in front of the chain of its
bin. -/
theorem mem_chain_new {a : AppTable} {procName : Bytes} {bin : ℕ} {info : AppInfo} :
    info ∈ Function.update a.ppApps (getStringHash procName % appBins)
        (⟨procName, getStringHash procName, a.nApps⟩ ::
          a.ppApps (getStringHash procName % appBins)) bin ↔
      info = ⟨procName, getStringHash procName, a.nApps⟩ ∧
          bin = getStringHash procName % appBins ∨
        info ∈ a.ppApps bin := by
  by_cases hbin : bin = getStringHash procName % appBins
  · subst hbin
    simp
  · rw [Function.update_of_ne hbin]
    simp [hbin]

/-- `GetAppID` returns the index of the name among the names then known. -/
theorem getAppID_numbers {a : AppTable} {known : List Bytes} (h : a.Numbers known)
    (procName : Bytes) :
    (getAppID procName a).2.Numbers (intern known procName) ∧
      (getAppID procName a).1 = (intern known procName).idxOf procName := by
  unfold getAppID
  dsimp only
  split
  · rename_i info hfind
    have hmem := (h.chain _ info).mp (List.mem_of_find?_eq_some hfind)
    have htest := List.find?_some hfind
    simp only [Bool.and_eq_true, decide_eq_true_eq] at htest
    rcases htest with ⟨_, rfl⟩
    rw [intern_of_mem hmem.1]
    exact ⟨h, hmem.2.2.1⟩
  · rename_i hfind
    have hnew := h.notMem_of_find_eq_none hfind
    have hidx : (known ++ [procName]).idxOf procName = known.length := by
      rw [List.idxOf_append_of_notMem hnew]
      simp
    rw [intern_of_notMem hnew, hidx]
    refine ⟨⟨?_, ?_, ?_, ?_⟩, h.count⟩
    · have hnodup := nodup_intern h.nodup procName
      rwa [intern_of_notMem hnew] at hnodup
    · simp [h.count]
    · simp [h.file]
    · intro bin info
      dsimp only
      rw [mem_chain_new, h.chain, List.mem_append, List.mem_singleton]
      constructor
      · rintro (⟨rfl, rfl⟩ | ⟨hknown, hhash, hid, hbin⟩)
        · exact ⟨.inr rfl, rfl, by rw [hidx, h.count], rfl⟩
        · refine ⟨.inl hknown, hhash, ?_, hbin⟩
          rw [List.idxOf_append_of_mem hknown]
          exact hid
      · rintro ⟨hknown | hname, hhash, hid, hbin⟩
        · rw [List.idxOf_append_of_mem hknown] at hid
          exact .inr ⟨hknown, hhash, hid, hbin⟩
        · -- the entry of the new name, with the next id
          left
          rw [hname, hidx, ← h.count] at hid
          rw [hname] at hhash
          cases info
          simp_all

/-- An id that was returned is in range, and the range only grows. -/
theorem getAppID_lt {a : AppTable} {known : List Bytes} (h : a.Numbers known)
    (procName : Bytes) :
    (getAppID procName a).1 < (getAppID procName a).2.nApps ∧
      a.nApps ≤ (getAppID procName a).2.nApps := by
  rcases getAppID_numbers h procName with ⟨hnumbers, hid⟩
  rw [hid, hnumbers.count, h.count]
  refine ⟨?_, (prefix_intern known procName).length_le⟩
  rw [List.idxOf_lt_length_iff, mem_intern]
  exact Or.inr rfl

/-- So it is for a sequence of calls. -/
theorem getAppIDs_numbers {a : AppTable} {known : List Bytes} (h : a.Numbers known)
    (procNames : List Bytes) :
    (getAppIDs procNames a).2.Numbers (internAll known procNames) ∧
      (getAppIDs procNames a).1 =
        procNames.map fun procName => (internAll known procNames).idxOf procName := by
  induction procNames generalizing a known with
  | nil => exact ⟨h, rfl⟩
  | cons procName procNames ih =>
      rcases getAppID_numbers h procName with ⟨hnumbers, hid⟩
      rcases ih hnumbers with ⟨hrest, hids⟩
      refine ⟨hrest, ?_⟩
      show (getAppID procName a).1 :: (getAppIDs procNames (getAppID procName a).2).1 = _
      rw [hids, List.map_cons, hid]
      congr 1
      have hmem : procName ∈ intern known procName := mem_intern.mpr (Or.inr rfl)
      exact (idxOf_stable (prefix_internAll _ procNames) hmem).symm

/-! ## A stable bijection -/

/-- What a sequence of calls with the names `procNames` that returned `ids` is to
leave. -/
structure StableBijection (procNames : List Bytes) (ids : List ℕ) (a : AppTable) : Prop where
  length_eq : ids.length = procNames.length
  /-- equal names always get the same id, different names different ones -/
  name_eq_iff : ∀ x ∈ procNames.zip ids, ∀ y ∈ procNames.zip ids, x.1 = y.1 ↔ x.2 = y.2
  /-- the ids in use are `0, …, nApps - 1` -/
  mem_ids_iff : ∀ id, id ∈ ids ↔ id < a.nApps
  nApps_eq : a.nApps = procNames.toFinset.card
  /-- the name with id `k` is the `k`-th one written to the file, which has no others -/
  appNames_get : ∀ x ∈ procNames.zip ids, a.appNames[x.2]? = some x.1
  length_appNames : a.appNames.length = a.nApps

/-- Every sequence of calls of `GetAppID` leaves a stable bijection that agrees
with the appname file. -/
theorem getAppIDs_stableBijection (procNames : List Bytes) :
    StableBijection procNames (getAppIDs procNames AppTable.empty).1
      (getAppIDs procNames AppTable.empty).2 := by
  rcases getAppIDs_numbers AppTable.empty_numbers procNames with ⟨hnumbers, hids⟩
  have hknown : ∀ procName ∈ procNames, procName ∈ internAll [] procNames :=
    fun procName h => mem_internAll.mpr (Or.inr h)
  -- a call's name is known, and its id is the name's index
  have hcall : ∀ x ∈ procNames.zip (getAppIDs procNames AppTable.empty).1,
      x.1 ∈ internAll [] procNames ∧ x.2 = (internAll [] procNames).idxOf x.1 := by
    intro x hx
    have hzip := List.zip_map' (f := id) (g := (internAll [] procNames).idxOf) (l := procNames)
    rw [List.map_id] at hzip
    rw [hids, hzip] at hx
    rcases List.mem_map.mp hx with ⟨procName, hmem, rfl⟩
    exact ⟨hknown procName hmem, rfl⟩
  constructor
  · rw [hids, List.length_map]
  · intro x hx y hy
    rw [(hcall x hx).2, (hcall y hy).2]
    constructor
    · intro heq
      rw [heq]
    · intro heq
      exact (List.idxOf_inj (hcall x hx).1).mp heq
  · intro id
    rw [hids, hnumbers.count, List.mem_map]
    constructor
    · rintro ⟨procName, hmem, rfl⟩
      exact List.idxOf_lt_length_iff.mpr (hknown procName hmem)
    · intro hlt
      have hmem := mem_internAll.mp (List.getElem_mem hlt)
      refine ⟨(internAll [] procNames)[id], hmem.resolve_left List.not_mem_nil, ?_⟩
      exact List.Nodup.idxOf_getElem hnumbers.nodup id hlt
  · rw [hnumbers.count, length_internAll]
  · intro x hx
    rw [hnumbers.file, (hcall x hx).2]
    exact List.getElem?_idxOf (hcall x hx).1
  · rw [hnumbers.file, hnumbers.count]

end MobiPerf.SocketProc
