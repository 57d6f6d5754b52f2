import DsdNeo.Models.Keys.Scan

/-!
# Key edits under a scan row

A key given as text while a scan row's keys are active goes into the baseline; without
a row it goes into the live keyring. Both routes overlay the same scalars for every
type of key but one: the baseline route has no merge for TETRA keys, and treats one as
a hexadecimal key that is cleared.
-/

namespace DsdNeo.Keys

open DsdNeo.Text

/-- An edit under the row's keys, then leaving them. -/
def editThenLeave (s : State) (type : KeyType) (text : Option Bytes) : Result × Keyring :=
  ((scanKeysApplyDirect s type text).1, (scanKeysLeave (scanKeysApplyDirect s type text).2).live)

/-- Leaving the row's keys, then the edit. -/
def leaveThenEdit (s : State) (type : KeyType) (text : Option Bytes) : Result × Keyring :=
  ((applyDirect (scanKeysLeave s) type text).1, (applyDirect (scanKeysLeave s) type text).2.live)

/-- The scalars without those a hexadecimal key sets. -/
def clearedHex (s : Scalars) : Scalars :=
  { Scalars.zero with
    K := s.K, R := s.R, RR := s.RR, basicKeyPresent := s.basicKeyPresent
    scalarKeyPresent := s.scalarKeyPresent, tetraAirKeys := s.tetraAirKeys }

/-- The slot a TETRA key stands for holds that very key. -/
def HoldsAirKey (s : Scalars) (key : TetraAirKey) : Prop :=
  s.tetraAirKeys.toList.find? (tetraAirSame · key) = some key

/-- The operator's scalars and an edit that reaches them: a key that is not a TETRA key, or a
text that is none; or a TETRA key they hold already, without a hexadecimal key beside it. -/
def EditReaches (globals : Scalars) (type : KeyType) (text : Option Bytes) : Prop :=
  ∀ parsed, type = .tetraAir → parseTypedDirect type text = .ok parsed →
    clearedHex globals = globals ∧ HoldsAirKey globals (parsed.tetraAirKeys.get 0)

theorem overlayDirect_tetraAir (target : Scalars) (slots : Vector TetraAirKey 16) :
    overlayDirect target { Scalars.zero with tetraAirKeys := slots } .tetraAir =
      clearedHex target := rfl

variable {key : TetraAirKey}

/-- A merge changes the slots alone. -/
theorem mergeTetraAir_eq_some {target merged : Scalars}
    (h : mergeTetraAir target key = some merged) :
    merged = { target with tetraAirKeys := merged.tetraAirKeys } := by
  rw [mergeTetraAir] at h
  split at h
  · cases h
    rfl
  · split at h
    · cases h
      rfl
    · cases h

/-- Slots that stay the same under a write hold what is written. -/
theorem setIfInBounds_eq_self {slots : Vector TetraAirKey 16} {i : ℕ} (hi : i < 16) :
    slots.setIfInBounds i key = slots ↔ slots.toList[i]? = some key := by
  have hget : slots.toList[i]? = some slots[i] := by
    rw [List.getElem?_eq_getElem (by rw [Vector.length_toList]; exact hi), Vector.getElem_toList]
  rw [hget, Option.some_inj]
  constructor
  · intro h
    rw [← h]
    exact Vector.getElem_setIfInBounds_self _
  · intro h
    rw [← h]
    ext j hj
    by_cases hij : i = j
    · subst hij
      rw [Vector.getElem_setIfInBounds_self]
    · rw [Vector.getElem_setIfInBounds_ne _ hij]

theorem mergeTetraAir_slots {target merged : Scalars} (hkey : key.loaded = 1)
    (h : mergeTetraAir target key = some merged) :
    merged.tetraAirKeys = target.tetraAirKeys ↔ HoldsAirKey target key := by
  rw [mergeTetraAir] at h
  rw [HoldsAirKey]
  split at h
  · rename_i i hfind
    cases h
    obtain ⟨hlt, hsame, hfirst⟩ := List.findIdx?_eq_some_iff_getElem.mp hfind
    have hfound : target.tetraAirKeys.toList.find? (tetraAirSame · key) =
        target.tetraAirKeys.toList[i]? := by
      rw [List.getElem?_eq_getElem hlt, List.find?_eq_some_iff_getElem]
      exact ⟨hsame, i, hlt, rfl, fun j hj => by simpa using hfirst j hj⟩
    rw [hfound]
    exact setIfInBounds_eq_self (by rwa [Vector.length_toList] at hlt)
  · rename_i hnone
    rw [List.findIdx?_eq_none_iff] at hnone
    have hno : target.tetraAirKeys.toList.find? (tetraAirSame · key) = none :=
      List.find?_eq_none.mpr fun slot hslot => by simp [hnone slot hslot]
    rw [hno]
    split at h
    · rename_i i hfree
      cases h
      obtain ⟨hlt, hempty, -⟩ := List.findIdx?_eq_some_iff_getElem.mp hfree
      constructor
      · intro heq
        rw [setIfInBounds_eq_self (by rwa [Vector.length_toList] at hlt),
          List.getElem?_eq_getElem hlt, Option.some_inj] at heq
        rw [heq, hkey] at hempty
        cases hempty
      · intro heq
        cases heq
    · cases h

theorem mergeTetraAir_ne_none {target : Scalars} (h : HoldsAirKey target key) :
    mergeTetraAir target key ≠ none := by
  rw [mergeTetraAir]
  cases hfind : target.tetraAirKeys.toList.findIdx? (tetraAirSame · key) with
  | some i => exact Option.some_ne_none _
  | none =>
    rw [List.findIdx?_eq_none_iff] at hfind
    have hsame := List.find?_some h
    rw [hfind key (List.mem_of_find?_eq_some h)] at hsame
    cases hsame

section Routes

variable {s : State} (h : s.activeSet = true)

include h

variable {type : KeyType} {text : Option Bytes}

theorem editThenLeave_error {e : DirectError} (hparse : parseTypedDirect type text = .error e) :
    editThenLeave s type text = (some e, installed s.baseline) := by
  simp [editThenLeave, scanKeysApplyDirect, scanKeysLeave, install, h, hparse]

theorem leaveThenEdit_error {e : DirectError} (hparse : parseTypedDirect type text = .error e) :
    leaveThenEdit s type text = (some e, installed s.baseline) := by
  simp [leaveThenEdit, applyDirect, scanKeysLeave, install, h, hparse]

variable {parsed : Scalars}

theorem editThenLeave_ok (hparse : parseTypedDirect type text = .ok parsed) :
    editThenLeave s type text =
      (none, { installed s.baseline with
        profileRef := ProfileRef.empty, keyloader := 0
        scalars := overlayDirect s.baseline.scalars parsed type }) := by
  simp [editThenLeave, scanKeysApplyDirect, scanKeysLeave, install, installed, h, hparse]

theorem leaveThenEdit_ok (hparse : parseTypedDirect type text = .ok parsed) :
    leaveThenEdit s type text =
      match overlaid s.baseline.scalars parsed type with
      | .ok scalars =>
        (none, { installed s.baseline with
          profileRef := ProfileRef.empty, keyloader := 0, scalars := scalars })
      | .error e => (some e, installed s.baseline) := by
  have hscalars : (installed s.baseline).scalars = s.baseline.scalars := rfl
  simp only [leaveThenEdit, applyDirect, scanKeysLeave, install, h, hparse, hscalars,
    Bool.true_eq_false, if_false]
  cases overlaid s.baseline.scalars parsed type with
  | error e => rfl
  | ok scalars => rfl

theorem routes_eq_of_overlayDirect (hparse : parseTypedDirect type text = .ok parsed)
    (hoverlaid : ∀ target, overlaid target parsed type = .ok (overlayDirect target parsed type)) :
    editThenLeave s type text = leaveThenEdit s type text := by
  rw [editThenLeave_ok h hparse, leaveThenEdit_ok h hparse, hoverlaid]

theorem routes_eq_tetraAir_iff (hparse : parseTypedDirect .tetraAir text = .ok parsed) :
    editThenLeave s .tetraAir text = leaveThenEdit s .tetraAir text ↔
      clearedHex s.baseline.scalars = s.baseline.scalars ∧
        HoldsAirKey s.baseline.scalars (parsed.tetraAirKeys.get 0) := by
  obtain ⟨key, hkey, rfl⟩ := parseTypedDirect_tetraAir hparse
  rw [editThenLeave_ok h hparse, leaveThenEdit_ok h hparse, overlayDirect_tetraAir]
  have hslot : (Scalars.zero.tetraAirKeys.set 0 key).get 0 = key := Vector.getElem_set_self _
  simp only [overlaid, hslot]
  cases hmerge : mergeTetraAir s.baseline.scalars key with
  | none =>
    constructor
    · intro heq
      cases congrArg Prod.fst heq
    · rintro ⟨-, hholds⟩
      exact absurd hmerge (mergeTetraAir_ne_none hholds)
  | some merged =>
    have hframe := mergeTetraAir_eq_some hmerge
    have hkept : (clearedHex s.baseline.scalars).tetraAirKeys = s.baseline.scalars.tetraAirKeys :=
      rfl
    rw [← mergeTetraAir_slots hkey hmerge]
    constructor
    · intro heq
      have hscalars : clearedHex s.baseline.scalars = merged :=
        congrArg (fun p : Result × Keyring => p.2.scalars) heq
      have hslots : s.baseline.scalars.tetraAirKeys = merged.tetraAirKeys := by
        rw [← hkept, hscalars]
      refine ⟨?_, hslots.symm⟩
      rw [hscalars, hframe, ← hslots]
    · rintro ⟨hclear, hslots⟩
      rw [hslots] at hframe
      rw [hclear, hframe]

end Routes

/-- Under a row or after it, an edit gives the same result and the same keys just where it is
no TETRA key, or one that changes nothing. -/
theorem edit_routes_agree_iff (s : State) (h : s.activeSet = true) (type : KeyType)
    (text : Option Bytes) :
    editThenLeave s type text = leaveThenEdit s type text ↔
      EditReaches s.baseline.scalars type text := by
  cases hparse : parseTypedDirect type text with
  | error e =>
    rw [editThenLeave_error h hparse, leaveThenEdit_error h hparse]
    refine ⟨fun _ parsed _ hok => ?_, fun _ => rfl⟩
    rw [hparse] at hok
    cases hok
  | ok parsed =>
    by_cases htype : type = .tetraAir
    · subst htype
      rw [routes_eq_tetraAir_iff h hparse]
      constructor
      · intro hreach other _ hok
        rw [hparse] at hok
        cases hok
        exact hreach
      · intro hreach
        exact hreach parsed rfl hparse
    · refine ⟨fun _ other heq _ => absurd heq htype, fun _ => ?_⟩
      refine routes_eq_of_overlayDirect h hparse fun target => ?_
      cases type with
      | tetraAir => exact absurd rfl htype
      | _ => rfl

/-- A state whose row has keys, over an operator's hexadecimal key. -/
def keyedRow : State where
  live := installed KeySet.empty
  payloadKeyid := 0
  payloadKeyidR := 0
  baseline := { KeySet.empty with scalars := { Scalars.zero with H := 5, K1 := 5 } }
  active := KeySet.empty
  activeSet := true
  keyEpoch := 0

/-- A basic key typed in under a row. -/
theorem edit_routes_agree_basic :
    editThenLeave keyedRow .basic (some [0x37]) = leaveThenEdit keyedRow .basic (some [0x37]) :=
  (edit_routes_agree_iff keyedRow rfl .basic (some [0x37])).mpr fun _ htype _ => nomatch htype

/-- `1,1,00112233445566778899` under a row: the operator's hexadecimal key is gone after it. -/
theorem tetra_edit_clears_hex_key :
    ¬ ∀ (s : State) (type : KeyType) (text : Option Bytes), s.activeSet = true →
      editThenLeave s type text = leaveThenEdit s type text := by
  intro h
  have hkeys := congrArg (fun p => p.2.scalars.K1) (h keyedRow .tetraAir
    (some [0x31, 0x2C, 0x31, 0x2C, 0x30, 0x30, 0x31, 0x31, 0x32, 0x32, 0x33, 0x33, 0x34, 0x34,
      0x35, 0x35, 0x36, 0x36, 0x37, 0x37, 0x38, 0x38, 0x39, 0x39]) rfl)
  revert hkeys
  decide

end DsdNeo.Keys
