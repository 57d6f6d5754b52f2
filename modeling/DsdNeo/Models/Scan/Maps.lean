import Mathlib.Data.Int.Notation
import Mathlib.Data.Nat.Notation
import DsdNeo.Core.Overlay.Desk

/-!
# Scan rows and the operator's DMR key map

A map from talkgroups to DMR key identifiers. While a scan row has a map of its own,
it takes the place of the operator's, which waits in the baseline. A map is checked
before it is installed, and one that fails the check changes nothing.
-/

namespace DsdNeo.ScanScope

open DsdNeo.Overlay

/-- `DSD_DMR_TG_KEY_MAP_MAX`. -/
def mapMax : ℕ := 256

/-- `dsd_dmr_key_map`. -/
structure DmrKeyMap where
  count : ℤ
  tg : Vector (BitVec 32) 256
  kid : Vector (BitVec 8) 256
  deriving DecidableEq

/-- A cleared map. -/
def DmrKeyMap.zero : DmrKeyMap := ⟨0, Vector.replicate 256 0, Vector.replicate 256 0⟩

/-- The map a state has in effect, with the marks of calls that were told of it. -/
structure LiveMap where
  map : DmrKeyMap
  noteEpoch : Vector (BitVec 64) 2
  skipEpoch : Vector (BitVec 64) 2
  deriving DecidableEq

/-- A map without what lies beyond its count. -/
def trimmed (m : DmrKeyMap) : DmrKeyMap where
  count := m.count
  tg := Vector.ofFn fun i => if i.val < m.count.toNat then m.tg[i] else 0
  kid := Vector.ofFn fun i => if i.val < m.count.toNat then m.kid[i] else 0

/-- `dsd_dmr_key_map_capture`. -/
def mapCaptured (m : DmrKeyMap) : DmrKeyMap :=
  if m.count < 0 ∨ m.count > mapMax then DmrKeyMap.zero else trimmed m

/-- Whether one talkgroup of a map is in range, and none before it is the same. -/
def tgValid (m : DmrKeyMap) (i : ℕ) : Bool :=
  let tg (i : ℕ) := m.tg.toList.getD i 0
  tg i ≠ 0 && decide (tg i ≤ 0xFFFFFF) && (List.range i).all fun j => tg j ≠ tg i

/-- `dsd_dmr_key_map_validate`. -/
def mapValid (m : DmrKeyMap) : Bool :=
  !(decide (m.count < 0) || decide (m.count > mapMax)) && (List.range m.count.toNat).all (tgValid m)

/-- `dsd_dmr_key_map_install`, without effect on a map that is not valid. -/
def mapInstall (m : DmrKeyMap) : Option LiveMap :=
  if mapValid m then some ⟨trimmed m, Vector.replicate 2 0, Vector.replicate 2 0⟩ else none

/-- The map fields of `channel_modes`. -/
structure MapScope where
  baseline : DmrKeyMap
  row : DmrKeyMap
  active : Bool
  suspended : Bool
  deriving DecidableEq

/-- No row active. -/
def MapScope.idle : MapScope := ⟨DmrKeyMap.zero, DmrKeyMap.zero, false, false⟩

/-- A map installed where it is valid. -/
def tryInstall (live : LiveMap) (m : DmrKeyMap) : LiveMap := (mapInstall m).getD live

/-- `dsd_scan_maps_leave`. -/
def mapsLeave (m : MapScope) (live : LiveMap) : MapScope × LiveMap :=
  if m.active = false then (m, live)
  else (MapScope.idle, if m.suspended then live else tryInstall live m.baseline)

/-- `dsd_scan_maps_enter`, with the row's map where it has one: whether the map in effect
changed, the scope and the map. -/
def mapsEnter (m : MapScope) (live : LiveMap) (rowMap : Option DmrKeyMap) :
    Bool × MapScope × LiveMap :=
  let before := mapCaptured live.map
  match rowMap with
  | none =>
    let (m, live) := mapsLeave m live
    (mapCaptured live.map ≠ before, m, live)
  | some row =>
    match mapInstall row with
    | none => (false, m, live)
    | some live =>
      (mapCaptured live.map ≠ before,
        { m with
          baseline := if m.active then m.baseline else before, active := true, row := row },
        live)

/-- `dsd_scan_maps_suspend`. -/
def mapsSuspend (m : MapScope) (live : LiveMap) : MapScope × LiveMap :=
  if m.active = false ∨ m.suspended = true then (m, live)
  else ({ m with suspended := true }, tryInstall live m.baseline)

/-- `dsd_scan_maps_resume`. -/
def mapsResume (m : MapScope) (live : LiveMap) : MapScope × LiveMap :=
  if m.suspended = false then (m, live)
  else
    ({ m with baseline := mapCaptured live.map, suspended := false }, tryInstall live m.row)

/-- A map an operator can have: valid, and cleared beyond its count, as every importer makes
it. -/
structure OperatorMap where
  map : DmrKeyMap
  valid : mapValid map = true
  trim : trimmed map = map

/-- The operator gives the decoder another map. -/
def editMap (m : OperatorMap) : LiveMap := ⟨m.map, Vector.replicate 2 0, Vector.replicate 2 0⟩

/-- A valid map is captured without what it does not use. -/
theorem mapCaptured_of_valid {m : DmrKeyMap} (h : mapValid m = true) :
    mapCaptured m = trimmed m := by
  simp only [mapValid, Bool.and_eq_true, Bool.not_eq_true', Bool.or_eq_false_iff,
    decide_eq_false_iff_not] at h
  rw [mapCaptured, if_neg]
  rintro (hneg | hbig)
  · exact h.1.1 hneg
  · exact h.1.2 hbig

/-- A valid map is installed without what it does not use. -/
theorem tryInstall_map (live : LiveMap) {m : DmrKeyMap} (h : mapValid m = true) :
    (tryInstall live m).map = trimmed m := by
  rw [tryInstall, mapInstall, if_pos h]
  rfl

/-- A scope and a map in effect show what the desk does; rows are valid, the operator's maps
are such as an operator can have. -/
def Shows (m : MapScope) (live : LiveMap) : Desk OperatorMap DmrKeyMap → Prop
  | .bare own => m.active = false ∧ m.suspended = false ∧ live.map = own.map
  | .covered own row =>
    m.active = true ∧ m.suspended = false ∧ m.baseline = own.map ∧ m.row = row ∧
      live.map = trimmed row ∧ mapValid row = true
  | .aside own row draft =>
    m.active = true ∧ m.suspended = true ∧ m.baseline = own.map ∧ m.row = row ∧
      live.map = draft.map ∧ mapValid row = true

section Calls

variable {m : MapScope} {live : LiveMap} {d : Desk OperatorMap DmrKeyMap} (h : Shows m live d)

include h

/-- A leave is the desk's leave. -/
theorem shows_leave : Shows (mapsLeave m live).1 (mapsLeave m live).2 d.leave := by
  rw [mapsLeave]
  cases d with
  | bare own =>
    rw [if_pos h.1]
    exact h
  | covered own row =>
    obtain ⟨hactive, hsuspended, hbase, -⟩ := h
    rw [if_neg (by rw [hactive]; exact Bool.noConfusion), hsuspended, hbase]
    refine ⟨rfl, rfl, ?_⟩
    exact (tryInstall_map live own.valid).trans own.trim
  | aside own row draft =>
    obtain ⟨hactive, hsuspended, -, -, hlive, -⟩ := h
    rw [if_neg (by rw [hactive]; exact Bool.noConfusion), hsuspended]
    exact ⟨rfl, rfl, hlive⟩

/-- A suspend is the desk's suspend. -/
theorem shows_suspend : Shows (mapsSuspend m live).1 (mapsSuspend m live).2 d.suspend := by
  rw [mapsSuspend]
  cases d with
  | bare own =>
    rw [if_pos (Or.inl h.1)]
    exact h
  | covered own row =>
    obtain ⟨hactive, hsuspended, hbase, hrow, -, hvalid⟩ := h
    rw [if_neg (by rw [hactive, hsuspended]; decide)]
    refine ⟨hactive, rfl, hbase, hrow, ?_, hvalid⟩
    rw [hbase]
    exact (tryInstall_map live own.valid).trans own.trim
  | aside own row draft =>
    rw [if_pos (Or.inr h.2.1)]
    exact h

/-- A resume is the desk's resume. -/
theorem shows_resume : Shows (mapsResume m live).1 (mapsResume m live).2 (d.resume true) := by
  rw [mapsResume]
  cases d with
  | bare own =>
    rw [if_pos h.2.1]
    exact h
  | covered own row =>
    rw [if_pos h.2.1]
    exact h
  | aside own row draft =>
    obtain ⟨hactive, hsuspended, -, hrow, hlive, hvalid⟩ := h
    rw [if_neg (by rw [hsuspended]; exact Bool.noConfusion)]
    refine ⟨hactive, rfl, ?_, hrow, ?_, hvalid⟩
    · change mapCaptured live.map = draft.map
      rw [hlive, mapCaptured_of_valid draft.valid, draft.trim]
    · rw [hrow]
      exact tryInstall_map live hvalid

/-- A valid row entered is the desk's enter. -/
theorem shows_enter (hd : d.Settled) {row : DmrKeyMap} (hrow : mapValid row = true) :
    Shows (mapsEnter m live (some row)).2.1 (mapsEnter m live (some row)).2.2 (d.enter row) := by
  rw [mapsEnter, mapInstall, if_pos hrow]
  cases d with
  | bare own =>
    obtain ⟨hactive, hsuspended, hlive⟩ := h
    refine ⟨rfl, hsuspended, ?_, rfl, rfl, hrow⟩
    simp only [hactive, Bool.false_eq_true, if_false]
    rw [hlive, mapCaptured_of_valid own.valid, own.trim]
    rfl
  | covered own row' =>
    obtain ⟨hactive, hsuspended, hbase, -⟩ := h
    refine ⟨rfl, hsuspended, ?_, rfl, rfl, hrow⟩
    simp only [hactive, if_true]
    exact hbase
  | aside own row draft => cases hd

/-- An edit where one may be made is the desk's edit. -/
theorem shows_edit (hd : d.Editable) (edited : OperatorMap) :
    Shows m (editMap edited) (d.edit fun _ => edited) := by
  cases d with
  | bare own => exact ⟨h.1, h.2.1, rfl⟩
  | covered own row => cases hd
  | aside own row draft => exact ⟨h.1, h.2.1, h.2.2.1, h.2.2.2.1, rfl, h.2.2.2.2.2⟩

end Calls

/-- A row whose map is not valid is refused. -/
theorem mapsEnter_of_not_valid (m : MapScope) (live : LiveMap) {row : DmrKeyMap}
    (h : mapValid row = false) : mapsEnter m live (some row) = (false, m, live) := by
  rw [mapsEnter, mapInstall, h]
  rfl

end DsdNeo.ScanScope
