import DsdNeo.Models.Keys.Direct

/-!
# Key sets and the live keyring

A key set is a sparse copy of the keyring: the cells that are loaded or hold a value, with the flag
of the loader, the scalars and the name of the profile. Installing a set overwrites the whole
keyring, so that what it leaves depends on the set alone.
-/

namespace DsdNeo.Keys

open DsdNeo.Text

/-- Cells of `rkey_array`. -/
@[irreducible] def keyCapacity : ℕ := 0x1FFFF

theorem keyCapacity_lt : keyCapacity < 2 ^ 32 := by
  rw [keyCapacity]
  decide

/-- One cell of `rkey_array` and `rkey_array_loaded`. -/
structure Cell where
  value : BitVec 64
  loaded : Bool
  deriving DecidableEq

/-- A cleared cell. -/
def Cell.zero : Cell := ⟨0, false⟩

/-- Whether a cell is worth copying. -/
def Cell.inUse (c : Cell) : Bool := c.loaded || c.value ≠ 0

/-- The string `key_profile_ref` holds in its 64 characters. -/
structure ProfileRef where
  text : Bytes
  fits : text.length < 64
  deriving DecidableEq

/-- No profile. -/
def ProfileRef.empty : ProfileRef := ⟨[], by decide⟩

/-- The keys in effect. -/
structure Keyring where
  cells : Fin keyCapacity → Cell
  keyloader : ℤ
  profileRef : ProfileRef
  scalars : Scalars

/-- `dsd_key_set_entry`. -/
structure KeyEntry where
  index : BitVec 32
  value : BitVec 64
  loaded : Bool
  deriving DecidableEq

/-- `dsd_key_set`, its table as a list. -/
structure KeySet where
  entries : List KeyEntry
  present : Bool
  keyloader : ℤ
  scalars : Scalars
  profileRef : ProfileRef
  deriving DecidableEq

/-- What `dsd_key_set_free` leaves. -/
def KeySet.empty : KeySet := ⟨[], false, 0, Scalars.zero, ProfileRef.empty⟩

/-- The entry of one cell. -/
def entryOf (cells : Fin keyCapacity → Cell) (i : Fin keyCapacity) : Option KeyEntry :=
  if (cells i).inUse then some ⟨BitVec.ofNat 32 i, (cells i).value, (cells i).loaded⟩ else none

/-- The set `dsd_key_set_capture` makes of a keyring. -/
def captured (ring : Keyring) : KeySet where
  entries := (List.finRange keyCapacity).filterMap (entryOf ring.cells)
  present := false
  keyloader := ring.keyloader
  scalars := ring.scalars
  profileRef := ring.profileRef

/-- `dsd_key_set_capture`, which allocates where there are entries. -/
def capture (ring : Keyring) (allocated : Bool) : Option KeySet :=
  if allocated ∨ (captured ring).entries = [] then some (captured ring) else none

/-- One entry written into the cells, ignored beyond them. -/
def writeEntry (cells : Fin keyCapacity → Cell) (e : KeyEntry) : Fin keyCapacity → Cell :=
  fun i => if i.val = e.index.toNat then ⟨e.value, e.loaded⟩ else cells i

/-- The keyring `dsd_key_set_install` leaves. -/
def installed (ks : KeySet) : Keyring where
  cells := ks.entries.foldl writeEntry fun _ => Cell.zero
  keyloader := ks.keyloader
  profileRef := ks.profileRef
  scalars := ks.scalars

/-- `dsd_key_set_copy`, which allocates where there are entries. -/
def copy (src : KeySet) (allocated : Bool) : Option KeySet :=
  if allocated ∨ src.entries = [] then some src else none

/-- `dsd_key_set_equal`: every field, and entry by entry. -/
def equal (a b : KeySet) : Bool := a = b

theorem eq_zero_of_not_inUse {c : Cell} (h : ¬ c.inUse = true) : c = Cell.zero := by
  cases c with
  | mk value loaded =>
    simp only [Cell.inUse, Bool.or_eq_true, not_or, Bool.not_eq_true, decide_eq_true_eq,
      ne_eq, not_not] at h
    rw [Cell.zero, h.1, h.2]

theorem toNat_index (i : Fin keyCapacity) : (BitVec.ofNat 32 i.val).toNat = i.val := by
  rw [BitVec.toNat_ofNat]
  exact Nat.mod_eq_of_lt (Nat.lt_trans i.isLt keyCapacity_lt)

theorem foldl_writeEntry (cells : Fin keyCapacity → Cell) (is : List (Fin keyCapacity))
    (start : Fin keyCapacity → Cell) (j : Fin keyCapacity) :
    (is.filterMap (entryOf cells)).foldl writeEntry start j =
      if j ∈ is ∧ (cells j).inUse then cells j else start j := by
  induction is generalizing start with
  | nil => simp
  | cons i is ih =>
    rw [List.filterMap_cons]
    cases huse : (cells i).inUse with
    | false =>
      have hentry : entryOf cells i = none := by
        rw [entryOf, huse]
        rfl
      rw [hentry, ih]
      have hne : (cells j).inUse = true → j ≠ i := by
        rintro hj rfl
        rw [huse] at hj
        cases hj
      by_cases hj : (cells j).inUse = true
      · simp [hj, hne hj]
      · simp [hj]
    | true =>
      have hentry : entryOf cells i =
          some ⟨BitVec.ofNat 32 i, (cells i).value, (cells i).loaded⟩ := by
        rw [entryOf, huse]
        rfl
      have hwritten : writeEntry start ⟨BitVec.ofNat 32 i, (cells i).value, (cells i).loaded⟩ j =
          if j = i then cells i else start j := by
        rw [writeEntry, toNat_index]
        by_cases hji : j = i
        · rw [if_pos (congrArg Fin.val hji), if_pos hji]
        · rw [if_neg fun h => hji (Fin.ext h), if_neg hji]
      rw [hentry, List.foldl_cons, ih, hwritten]
      by_cases hji : j = i
      · subst hji
        simp [huse]
      · simp [hji]

/-- A keyring that was captured comes back as it was. -/
theorem installed_captured (ring : Keyring) : installed (captured ring) = ring := by
  have hcells : (installed (captured ring)).cells = ring.cells := by
    funext j
    refine (foldl_writeEntry ring.cells _ _ j).trans ?_
    by_cases huse : (ring.cells j).inUse = true
    · exact if_pos ⟨List.mem_finRange j, huse⟩
    · rw [if_neg fun h => huse h.2]
      exact (eq_zero_of_not_inUse huse).symm
  cases ring
  exact congrArg (fun cells => Keyring.mk cells _ _ _) hcells

theorem capture_eq_some {ring : Keyring} {allocated : Bool} {ks : KeySet}
    (h : capture ring allocated = some ks) : ks = captured ring := by
  rw [capture] at h
  split at h
  · exact (Option.some.inj h).symm
  · cases h

theorem copy_eq_some {src : KeySet} {allocated : Bool} {ks : KeySet}
    (h : copy src allocated = some ks) : ks = src := by
  rw [copy] at h
  split at h
  · exact (Option.some.inj h).symm
  · cases h

/-!
# Scan rows and the operator's keys

While a scan row has keys of its own, they take the place of the operator's, which
wait in the baseline. Runtime commands edit the operator's keys between a suspend and
a resume, or, for keys given as text, in the baseline itself. A change of row can be
prepared with every allocation it needs and committed later.
-/

/-- What the key functions read and write of `dsd_state`. -/
structure State where
  live : Keyring
  payloadKeyid : ℤ
  payloadKeyidR : ℤ
  baseline : KeySet
  active : KeySet
  activeSet : Bool
  keyEpoch : BitVec 64

/-- `dsd_key_set_install`. -/
def install (s : State) (ks : KeySet) : State := { s with live := installed ks }

/-- `key_tetra_air_same`. -/
def tetraAirSame (slot key : TetraAirKey) : Bool :=
  if slot.loaded = 0 ∨ slot.kind ≠ key.kind ∨ slot.mcc ≠ key.mcc ∨ slot.mnc ≠ key.mnc then false
  else key.kind ≠ tea1Reduced || (slot.la = key.la && slot.cc = key.cc &&
    slot.carrier = key.carrier)

/-- `key_scalars_merge_tetra_air`: in the slot of the key it stands for, else in a free one. -/
def mergeTetraAir (target : Scalars) (key : TetraAirKey) : Option Scalars :=
  match target.tetraAirKeys.toList.findIdx? (tetraAirSame · key) with
  | some i => some { target with tetraAirKeys := target.tetraAirKeys.setIfInBounds i key }
  | none =>
    match target.tetraAirKeys.toList.findIdx? (·.loaded = 0) with
    | some i => some { target with tetraAirKeys := target.tetraAirKeys.setIfInBounds i key }
    | none => none

/-- `key_scalars_overlay_direct`. -/
def overlayDirect (target parsed : Scalars) (type : KeyType) : Scalars :=
  match type with
  | .basic => { target with K := parsed.K, basicKeyPresent := parsed.basicKeyPresent }
  | .rc4 =>
    { target with R := parsed.R, RR := parsed.RR, scalarKeyPresent := parsed.scalarKeyPresent }
  | .scrambler | .m17Scrambler =>
    { target with
      R := parsed.R
      scalarKeyPresent := target.scalarKeyPresent.set 0
        (parsed.scalarKeyPresent.get ⟨0, Nat.two_pos⟩) Nat.two_pos }
  | .hex | .m17Aes | .tetraAir =>
    { parsed with
      K := target.K, R := target.R, RR := target.RR
      basicKeyPresent := target.basicKeyPresent
      scalarKeyPresent := target.scalarKeyPresent
      tetraAirKeys := target.tetraAirKeys }

/-- The result of an edit, `none` for `DSD_KEY_DIRECT_OK`. -/
abbrev Result := Option DirectError

/-- The scalars `dsd_key_apply_direct` installs in overlay mode. -/
def overlaid (target parsed : Scalars) (type : KeyType) : Except DirectError Scalars :=
  match type with
  | .tetraAir =>
    match mergeTetraAir target (parsed.tetraAirKeys.get 0) with
    | some merged => .ok merged
    | none => .error .invalidArgument
  | _ => .ok (overlayDirect target parsed type)

/-- `dsd_key_apply_direct`, in overlay mode. -/
def applyDirect (s : State) (type : KeyType) (text : Option Bytes) : Result × State :=
  match parseTypedDirect type text with
  | .error e => (some e, s)
  | .ok parsed =>
    match overlaid s.live.scalars parsed type with
    | .error e => (some e, s)
    | .ok scalars =>
      (none, { s with
        live := { s.live with profileRef := ProfileRef.empty, scalars := scalars, keyloader := 0 }
        payloadKeyid := 0
        payloadKeyidR := 0 })

/-- `dsd_scan_keys_apply_direct`. -/
def scanKeysApplyDirect (s : State) (type : KeyType) (text : Option Bytes) : Result × State :=
  if s.activeSet = false then applyDirect s type text
  else
    match parseTypedDirect type text with
    | .error e => (some e, s)
    | .ok parsed =>
      (none, { s with
        baseline := { s.baseline with
          scalars := overlayDirect s.baseline.scalars parsed type
          keyloader := 0
          profileRef := ProfileRef.empty } })

/-- `dsd_scan_keys_enter`, with the outcomes of its two allocations: whether the set changed,
and the state. -/
def scanKeysEnter (s : State) (rowSet : KeySet) (captures copies : Bool) : Bool × State :=
  if s.activeSet = false then
    match capture s.live captures with
    | none => (false, { s with baseline := KeySet.empty })
    | some baseline =>
      match copy rowSet copies with
      | none => (false, { s with baseline := KeySet.empty })
      | some active =>
        (true, install { s with baseline := baseline, active := active, activeSet := true } active)
  else if equal s.active rowSet then (false, s)
  else
    match copy rowSet copies with
    | none => (false, s)
    | some active => (true, install { s with active := active } active)

/-- `dsd_scan_keys_leave`. -/
def scanKeysLeave (s : State) : State :=
  if s.activeSet = false then s
  else
    { install s s.baseline with
      baseline := KeySet.empty, active := KeySet.empty, activeSet := false }

/-- `dsd_scan_keys_suspend`. -/
def scanKeysSuspend (s : State) : State :=
  if s.activeSet = false then s else install s s.baseline

/-- `dsd_scan_keys_resume`: where the capture fails the baseline stays. -/
def scanKeysResume (s : State) (captures : Bool) : State :=
  if s.activeSet = false then s
  else
    match capture s.live captures with
    | some fresh => install { s with baseline := fresh } s.active
    | none => install s s.active

/-- `dsd_scan_row_keys_apply`, for what the store holds of the row. -/
def scanRowKeysApply (s : State) (rowSet : Option KeySet) (captures copies : Bool) : Bool × State :=
  match rowSet.filter KeySet.present with
  | some rowSet =>
    let (changed, s) := scanKeysEnter s rowSet captures copies
    (changed, if changed then { s with keyEpoch := s.keyEpoch + 1 } else s)
  | none =>
    if s.activeSet then
      let s := scanKeysLeave s
      (true, { s with keyEpoch := s.keyEpoch + 1 })
    else (false, s)

/-- `dsd_scan_key_change`. -/
structure Change where
  baseline : KeySet
  active : KeySet
  captureBaseline : Bool
  keyed : Bool
  changed : Bool
  prepared : Bool

/-- What `dsd_scan_key_change_clear` leaves. -/
def Change.cleared : Change := ⟨KeySet.empty, KeySet.empty, false, false, false, false⟩

/-- Whether a row brings other keys than those in effect. -/
def rowChanges (s : State) (row : Option KeySet) : Bool :=
  match row.filter KeySet.present with
  | some row => !s.activeSet || !equal s.active row
  | none => s.activeSet

/-- `dsd_scan_key_change_prepare`: whether it succeeded, and the change. -/
def scanKeyChangePrepare (s : State) (row : Option KeySet) (captures copies : Bool) :
    Bool × Change :=
  match row.filter KeySet.present with
  | none => (true, { Change.cleared with changed := rowChanges s row, prepared := true })
  | some rowSet =>
    match if s.activeSet then copy s.baseline captures else capture s.live captures with
    | none => (false, Change.cleared)
    | some baseline =>
      match copy rowSet copies with
      | none => (false, Change.cleared)
      | some active => (true, ⟨baseline, active, true, true, rowChanges s row, true⟩)

/-- `dsd_scan_key_change_commit`: whether the keys changed, and the state. The change is left
cleared. -/
def scanKeyChangeCommit (s : State) (change : Change) : Bool × State :=
  if change.prepared = false then (false, s)
  else if change.keyed = false then (change.changed, scanKeysLeave s)
  else
    let s := if change.captureBaseline then { s with baseline := change.baseline } else s
    (change.changed, install { s with active := change.active, activeSet := true } change.active)

end DsdNeo.Keys
