import Mathlib.Data.BitVec

/-!
# The encryption lockout ledger

`enc_lockout.c`: targets on which encrypted voice was confirmed. A confirmation takes a free
slot, else one of a stale key epoch, else that of the least recently confirmed target.
-/

namespace DsdNeo.EncLockout

/-- `DSD_ENC_LOCKOUT_MAX`. -/
def lockoutMax : ℕ := 128

/-- `DSD_ENC_LOCKOUT_ALGID_UNKNOWN`. -/
def algidUnknown : ℤ := -1

/-- `dsd_enc_lockout_entry`. -/
structure Entry where
  keyEpoch : BitVec 64
  lastSeq : BitVec 64
  lastSeen : ℤ
  target : BitVec 32
  hits : BitVec 32
  algid : ℤ
  keyid : ℤ
  isGroup : Bool
  inUse : Bool
deriving DecidableEq

/-- An entry of zeroes. -/
def Entry.blank : Entry := ⟨0, 0, 0, 0, 0, 0, 0, false, false⟩

/-- The ledger of a state. -/
structure Ledger where
  entries : Fin lockoutMax → Entry
  keyEpoch : BitVec 64
  seq : BitVec 64

open Ledger

/-- `dsd_enc_lockout_init`. -/
def Ledger.init : Ledger := ⟨fun _ => Entry.blank, 1, 0⟩

/-- What an entry is found by. -/
structure Key where
  target : BitVec 32
  isGroup : Bool
deriving DecidableEq

/-- The key of a call's target. -/
def keyOf (target : BitVec 32) (isGroup : ℤ) : Key := ⟨target, isGroup ≠ 0⟩

/-- The key of an entry. -/
def Entry.key (e : Entry) : Key := ⟨e.target, e.isGroup⟩

/-- An entry in use for a key. -/
def Entry.Holds (e : Entry) (k : Key) : Prop := e.inUse = true ∧ e.key = k

instance (e : Entry) (k : Key) : Decidable (e.Holds k) := inferInstanceAs (Decidable (_ ∧ _))

/-- `enc_lockout_find` past its check of the target. -/
def Ledger.slotOf (s : Ledger) (k : Key) : Option (Fin lockoutMax) :=
  (List.finRange lockoutMax).find? fun i => (s.entries i).Holds k

/-- `enc_lockout_find`. -/
def Ledger.find (s : Ledger) (target : BitVec 32) (isGroup : ℤ) : Option (Fin lockoutMax) :=
  if target = 0 then none else s.slotOf (keyOf target isGroup)

/-- An entry confirmed at another key epoch. -/
def Ledger.stale (s : Ledger) (i : Fin lockoutMax) : Bool := (s.entries i).keyEpoch ≠ s.keyEpoch

/-- Whether a slot is given up before the one found so far. -/
def Ledger.before (s : Ledger) (i : Fin lockoutMax) : Option (Fin lockoutMax) → Bool
  | none => true
  | some victim =>
    (s.stale i && !s.stale victim) ||
      (s.stale i = s.stale victim && (s.entries i).lastSeq < (s.entries victim).lastSeq)

/-- The loop of `enc_lockout_choose_slot` over the slots that are left. -/
def Ledger.chooseLoop (s : Ledger) :
    List (Fin lockoutMax) → Option (Fin lockoutMax) → Option (Fin lockoutMax)
  | [], victim => victim
  | i :: rest, victim =>
    if (s.entries i).inUse = false then some i
    else s.chooseLoop rest (if s.before i victim then some i else victim)

/-- `enc_lockout_choose_slot`. -/
def Ledger.chooseSlot (s : Ledger) : Option (Fin lockoutMax) :=
  s.chooseLoop (List.finRange lockoutMax) none

/-- What `dsd_enc_lockout_note` is told beside the target. -/
structure Evidence where
  algid : ℤ
  keyid : ℤ
  now : ℤ

/-- An entry confirmed at an epoch, as the confirmation of a number. -/
def Entry.confirmed (e : Entry) (keyEpoch seq : BitVec 64) (ev : Evidence) : Entry :=
  { e with
    keyEpoch := keyEpoch
    lastSeq := seq
    lastSeen := ev.now
    hits := if e.hits < BitVec.allOnes 32 then e.hits + 1 else e.hits
    algid := if 0 ≤ ev.algid then ev.algid % 256 else e.algid
    keyid := if 0 ≤ ev.algid then ev.keyid % 65536 else e.keyid
    inUse := true }

/-- A slot rewritten with the next confirmation. -/
def Ledger.confirm (s : Ledger) (i : Fin lockoutMax) (e : Entry) (ev : Evidence) : Ledger :=
  { s with
    entries := Function.update s.entries i (e.confirmed s.keyEpoch (s.seq + 1) ev)
    seq := s.seq + 1 }

/-- `dsd_enc_lockout_note`, with what it returns. -/
def Ledger.note (s : Ledger) (target : BitVec 32) (isGroup : ℤ) (ev : Evidence) : ℤ × Ledger :=
  if target = 0 then (0, s)
  else
    match s.find target isGroup with
    | some i => (if s.stale i then 1 else 0, s.confirm i (s.entries i) ev)
    | none =>
      match s.chooseSlot with
      | none => (0, s)
      | some i =>
        let e : Entry :=
          { Entry.blank with target := target, isGroup := isGroup ≠ 0, algid := algidUnknown }
        (1, s.confirm i e ev)

/-- `dsd_enc_lockout_entry_active`. -/
def Ledger.entryActive (s : Ledger) (target : BitVec 32) (isGroup : ℤ) : ℤ :=
  match s.find target isGroup with
  | some i => if (s.entries i).keyEpoch = s.keyEpoch then 1 else 0
  | none => 0

/-- `dsd_enc_lockout_release`, with what it returns. -/
def Ledger.release (s : Ledger) (target : BitVec 32) (isGroup : ℤ) : ℤ × Ledger :=
  if target = 0 then (0, s)
  else
    match s.find target isGroup with
    | some i => (1, { s with entries := Function.update s.entries i Entry.blank })
    | none => (0, s)

/-- `dsd_enc_lockout_bump_key_epoch`. -/
def Ledger.bumpKeyEpoch (s : Ledger) : Ledger := { s with keyEpoch := s.keyEpoch + 1 }

/-- `dsd_enc_lockout_clear_all`. -/
def Ledger.clearAll (s : Ledger) : Ledger := { s with entries := fun _ => Entry.blank }

/-- No two slots in use hold one key. -/
def Ledger.Unique (s : Ledger) : Prop :=
  ∀ i j k, (s.entries i).Holds k → (s.entries j).Holds k → i = j

variable {s : Ledger}

theorem Ledger.slotOf_eq_none {k : Key} : s.slotOf k = none ↔ ∀ i, ¬(s.entries i).Holds k := by
  simp [slotOf, List.find?_eq_none]

theorem Ledger.slotOf_holds {k : Key} {i : Fin lockoutMax} (h : s.slotOf k = some i) :
    (s.entries i).Holds k := by
  simpa using List.find?_some h

/-- The place of a slot in the order in which they are given up. -/
def Ledger.rank (s : Ledger) (i : Fin lockoutMax) : ℕ :=
  (if s.stale i then 0 else 2 ^ 64) + (s.entries i).lastSeq.toNat

theorem Ledger.before_some {i victim : Fin lockoutMax} :
    s.before i (some victim) = true ↔ s.rank i < s.rank victim := by
  have hi := (s.entries i).lastSeq.isLt
  have hv := (s.entries victim).lastSeq.isLt
  simp only [Ledger.before, Ledger.rank, BitVec.lt_def, Bool.or_eq_true, Bool.and_eq_true,
    decide_eq_true_eq, Bool.not_eq_true']
  cases s.stale i <;> cases s.stale victim <;> simp <;> omega

/-- The loop ends at a free slot, or at the one given up first of those it saw. -/
theorem Ledger.chooseLoop_spec {rest : List (Fin lockoutMax)} {victim : Option (Fin lockoutMax)}
    {i : Fin lockoutMax} (h : s.chooseLoop rest victim = some i) :
    (s.entries i).inUse = false ∨
      (∀ j ∈ rest, (s.entries j).inUse = true ∧ s.rank i ≤ s.rank j) ∧
        ∀ v ∈ victim, s.rank i ≤ s.rank v := by
  induction rest generalizing victim with
  | nil =>
    right
    have hv : victim = some i := h
    simp [hv]
  | cons j rest ih =>
    rw [chooseLoop] at h
    split at h
    · rename_i hfree
      left
      cases h
      exact hfree
    · rename_i hused
      rcases ih h with hfree | ⟨hrest, hvictim⟩
      · exact Or.inl hfree
      · right
        have huse : (s.entries j).inUse = true := by simpa using hused
        cases victim with
        | none =>
          have hj : s.rank i ≤ s.rank j := hvictim j (by simp [Ledger.before])
          simpa [huse, hj] using hrest
        | some v =>
          have hboth : s.rank i ≤ s.rank j ∧ s.rank i ≤ s.rank v := by
            by_cases hbefore : s.before j (some v) = true
            · have hlt := before_some.mp hbefore
              have hj : s.rank i ≤ s.rank j := hvictim j (by simp [hbefore])
              omega
            · have hge := mt before_some.mpr hbefore
              have hv : s.rank i ≤ s.rank v := hvictim v (by simp [hbefore])
              omega
          simpa [huse, hboth] using hrest

theorem Ledger.chooseLoop_some (s : Ledger) (rest : List (Fin lockoutMax)) (v : Fin lockoutMax) :
    ∃ i, s.chooseLoop rest (some v) = some i := by
  induction rest generalizing v with
  | nil => exact ⟨v, rfl⟩
  | cons j rest ih =>
    rw [chooseLoop]
    split
    · exact ⟨j, rfl⟩
    · split
      · exact ih j
      · exact ih v

theorem Ledger.chooseSlot_spec (s : Ledger) :
    ∃ i, s.chooseSlot = some i ∧ ((s.entries i).inUse = false ∨
      ∀ j, (s.entries j).inUse = true ∧ s.rank i ≤ s.rank j) := by
  have hsome : ∃ i, s.chooseSlot = some i := by
    rw [chooseSlot]
    cases hrange : List.finRange lockoutMax with
    | nil =>
      have hlen := congrArg List.length hrange
      simp [lockoutMax] at hlen
    | cons j rest =>
      rw [chooseLoop]
      split
      · exact ⟨j, rfl⟩
      · exact s.chooseLoop_some rest j
  obtain ⟨i, hi⟩ := hsome
  refine ⟨i, hi, ?_⟩
  rcases chooseLoop_spec hi with hfree | ⟨hall, -⟩
  · exact Or.inl hfree
  · exact Or.inr fun j => hall j (List.mem_finRange j)

end DsdNeo.EncLockout
