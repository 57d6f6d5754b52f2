import DsdNeo.Core.Register.Sticky
import Mathlib.Data.Nat.Bitwise

/-!
# The PRBS9 test pattern

`m17_prbs9_next_bit` and the receiver of `m17_algorithms.c`. Until it is locked the receiver takes
the bits it is given into its register and counts those it foretold; from then on its register runs
by itself.
-/

namespace DsdNeo.M17

/-- `M17_PRBS9_MASK`. -/
def prbs9Mask : UInt16 := 0x1FF

/-- `M17_PRBS9_LOCK_BITS`. -/
def prbs9LockBits : UInt16 := 18

/-- `M17_PRBS9_RESYNC_WINDOW_BITS`. -/
def prbs9ResyncWindowBits : UInt16 := 128

/-- `M17_PRBS9_RESYNC_ERROR_THRESHOLD`. -/
def prbs9ResyncErrorThreshold : UInt16 := 18

/-- The bit a register makes. -/
def prbs9Feedback (state : UInt16) : UInt16 := ((state >>> 8) ^^^ (state >>> 4)) &&& 1

/-- `m17_prbs9_next_bit`: the bit, and the register after it. -/
def prbs9NextBit (lfsr : UInt16) : UInt16 × UInt16 :=
  let masked := lfsr &&& prbs9Mask
  let state := if masked = 0 then 1 else masked
  let bit := prbs9Feedback state
  (bit, ((state <<< 1) ||| bit) &&& prbs9Mask)

/-- `m17_prbs9_rx_state`. -/
structure Prbs9Rx where
  lfsr : UInt16
  lockCount : UInt16
  windowBits : UInt16
  windowErrors : UInt16
  totalBits : UInt32
  totalErrors : UInt32
  resyncCount : UInt32
  locked : UInt8

/-- `m17_prbs9_rx_init`. -/
def prbs9RxInit (initialState : UInt16) : Prbs9Rx :=
  let lfsr := initialState &&& prbs9Mask
  { lfsr := if lfsr = 0 then 1 else lfsr, lockCount := 0, windowBits := 0, windowErrors := 0,
    totalBits := 0, totalErrors := 0, resyncCount := 0, locked := 0 }

/-- The end of a window of bits: the lock is given up where too many were wrong. -/
def prbs9CloseWindow (rx : Prbs9Rx) : Prbs9Rx :=
  if rx.windowBits ≥ prbs9ResyncWindowBits then
    let rx := if rx.windowErrors > prbs9ResyncErrorThreshold then
        { rx with locked := 0, lockCount := 0, resyncCount := rx.resyncCount + 1 }
      else rx
    { rx with windowBits := 0, windowErrors := 0 }
  else rx

/-- `m17_prbs9_rx_push_bit`: what is returned, and the receiver after it. -/
def prbs9RxPushBit (rx : Prbs9Rx) (bit : UInt8) : ℤ × Prbs9Rx :=
  let bit := bit &&& 1
  let rx := if rx.lfsr = 0 then { rx with lfsr := 1 } else rx
  if rx.locked ≠ 0 then
    let next := prbs9NextBit rx.lfsr
    let error := next.1 ≠ bit.toUInt16
    let rx := { rx with
      lfsr := next.2, totalBits := rx.totalBits + 1, windowBits := rx.windowBits + 1 }
    let rx := if error then
        { rx with totalErrors := rx.totalErrors + 1, windowErrors := rx.windowErrors + 1 }
      else rx
    (if error then -1 else 1, prbs9CloseWindow rx)
  else
    let expected := prbs9Feedback rx.lfsr
    let lockCount := if expected = bit.toUInt16 then rx.lockCount + 1 else 0
    let rx := { rx with
      lockCount := lockCount, lfsr := ((rx.lfsr <<< 1) ||| bit.toUInt16) &&& prbs9Mask }
    (0, if rx.lockCount ≥ prbs9LockBits then
        { rx with locked := 1, windowBits := 0, windowErrors := 0 }
      else rx)

/-- The register of the transmitter after some bits. -/
def prbs9Register (lfsr : UInt16) : ℕ → UInt16
  | 0 => lfsr
  | t + 1 => (prbs9NextBit (prbs9Register lfsr t)).2

/-- The bits of the transmitter, as they arrive without errors. -/
def prbs9Stream (lfsr : UInt16) (t : ℕ) : UInt8 := (prbs9NextBit (prbs9Register lfsr t)).1.toUInt8

/-- The receiver after some bits of a stream. -/
def prbs9Received (stream : ℕ → UInt8) (rx : Prbs9Rx) : ℕ → Prbs9Rx
  | 0 => rx
  | t + 1 => (prbs9RxPushBit (prbs9Received stream rx t) (stream t)).2

open SelfSync

theorem prbs9Feedback_lt (state : UInt16) : (prbs9Feedback state).toNat < 2 := by
  rw [prbs9Feedback, UInt16.toNat_and]
  exact Nat.and_lt_two_pow _ (by decide : (1 : UInt16).toNat < 2 ^ 1)

/-- A register takes in a bit. -/
theorem toNat_shiftIn (r : UInt16) {b : UInt16} (hb : b.toNat < 2) :
    (((r <<< 1) ||| b) &&& prbs9Mask).toNat = push 9 r.toNat b.toNat := by
  have hshift : (r <<< 1).toNat = 2 ^ 1 * (r.toNat % 2 ^ 15) := by
    rw [UInt16.toNat_shiftLeft]
    change r.toNat <<< 1 % 2 ^ 16 = _
    rw [Nat.shiftLeft_eq]
    omega
  have hmask : prbs9Mask.toNat = 2 ^ 9 - 1 := rfl
  rw [UInt16.toNat_and, UInt16.toNat_or, hshift, hmask, Nat.and_two_pow_sub_one_eq_mod,
    ← Nat.two_pow_add_eq_or_of_lt (by simpa using hb), push]
  omega

/-- The register a bit is made from. -/
def prbs9State (lfsr : UInt16) : UInt16 :=
  if lfsr &&& prbs9Mask = 0 then 1 else lfsr &&& prbs9Mask

theorem prbs9State_ne_zero (lfsr : UInt16) : prbs9State lfsr ≠ 0 := by
  rw [prbs9State]
  split_ifs with h
  · decide
  · exact h

theorem and_prbs9Mask_lt (r : UInt16) : (r &&& prbs9Mask).toNat < 2 ^ 9 := by
  rw [UInt16.toNat_and]
  exact Nat.and_lt_two_pow _ (by decide)

theorem prbs9State_lt (lfsr : UInt16) : (prbs9State lfsr).toNat < 2 ^ 9 := by
  rw [prbs9State]
  split_ifs
  · decide
  · exact and_prbs9Mask_lt lfsr

theorem and_prbs9Mask {r : UInt16} (h : r.toNat < 2 ^ 9) : r &&& prbs9Mask = r := by
  apply UInt16.toNat_inj.mp
  have hmask : prbs9Mask.toNat = 2 ^ 9 - 1 := rfl
  rw [UInt16.toNat_and, hmask, Nat.and_two_pow_sub_one_eq_mod, Nat.mod_eq_of_lt h]

theorem prbs9State_of_lt {r : UInt16} (h : r.toNat < 2 ^ 9) (hne : r ≠ 0) : prbs9State r = r := by
  rw [prbs9State, and_prbs9Mask h, if_neg hne]

theorem prbs9NextBit_eq (lfsr : UInt16) : prbs9NextBit lfsr =
    (prbs9Feedback (prbs9State lfsr),
      ((prbs9State lfsr <<< 1) ||| prbs9Feedback (prbs9State lfsr)) &&& prbs9Mask) := rfl

theorem toNat_prbs9NextBit (lfsr : UInt16) : (prbs9NextBit lfsr).2.toNat =
    push 9 (prbs9State lfsr).toNat (prbs9Feedback (prbs9State lfsr)).toNat :=
  toNat_shiftIn _ (prbs9Feedback_lt _)

theorem prbs9NextBit_ne_zero (lfsr : UInt16) : (prbs9NextBit lfsr).2 ≠ 0 := by
  intro hzero
  have hpush := toNat_prbs9NextBit lfsr
  rw [hzero] at hpush
  have hbit := prbs9Feedback_lt (prbs9State lfsr)
  have hlt := prbs9State_lt lfsr
  have hne : (prbs9State lfsr).toNat ≠ 0 := fun h =>
    prbs9State_ne_zero lfsr (UInt16.toNat_inj.mp h)
  have hzero' : (0 : UInt16).toNat = 0 := rfl
  rw [push, hzero'] at hpush
  have htop : prbs9State lfsr = 256 := UInt16.toNat_inj.mp (by
    change _ = 256
    omega)
  rw [htop] at hpush
  exact absurd hpush (by decide)

theorem prbs9State_nextBit (lfsr : UInt16) :
    prbs9State (prbs9NextBit lfsr).2 = (prbs9NextBit lfsr).2 := by
  refine prbs9State_of_lt ?_ (prbs9NextBit_ne_zero lfsr)
  rw [toNat_prbs9NextBit]
  exact push_lt 9 _ _

/-- How the receiver stands after `t` bits without errors: either it is on the way to a lock,
with its register behind that of the transmitter, or it is locked to it. -/
structure Tracking (lfsr : UInt16) (t : ℕ) (rx : Prbs9Rx) : Prop where
  totalErrors : rx.totalErrors = 0
  windowErrors : rx.windowErrors = 0
  resyncCount : rx.resyncCount = 0
  register : rx.lfsr.toNat < 2 ^ 9
  stage : (rx.locked = 0 ∧
      Trails 9 t rx.lfsr.toNat (prbs9State (prbs9Register lfsr t)).toNat ∧
      rx.lockCount.toNat ≤ t ∧ t ≤ rx.lockCount.toNat + 17 ∧ rx.lockCount.toNat < 18) ∨
    (rx.locked ≠ 0 ∧ rx.lfsr = prbs9State (prbs9Register lfsr t))

theorem prbs9Feedback_cases (state : UInt16) :
    prbs9Feedback state = 0 ∨ prbs9Feedback state = 1 := by
  have hlt := prbs9Feedback_lt state
  rcases (by omega : (prbs9Feedback state).toNat = 0 ∨ (prbs9Feedback state).toNat = 1) with h | h
  · exact .inl (UInt16.toNat_inj.mp h)
  · exact .inr (UInt16.toNat_inj.mp h)

theorem prbs9Stream_bit (lfsr : UInt16) (t : ℕ) : (prbs9Stream lfsr t &&& 1).toUInt16 =
    prbs9Feedback (prbs9State (prbs9Register lfsr t)) := by
  rw [prbs9Stream, prbs9NextBit_eq]
  rcases prbs9Feedback_cases (prbs9State (prbs9Register lfsr t)) with h | h
  · rw [h]
    exact (by decide : ((0 : UInt16).toUInt8 &&& 1).toUInt16 = 0)
  · rw [h]
    exact (by decide : ((1 : UInt16).toUInt8 &&& 1).toUInt16 = 1)

/-- The register of the transmitter takes in the bit it makes. -/
theorem prbs9State_succ (lfsr : UInt16) (t : ℕ) :
    (prbs9State (prbs9Register lfsr (t + 1))).toNat =
      push 9 (prbs9State (prbs9Register lfsr t)).toNat
        (prbs9Feedback (prbs9State (prbs9Register lfsr t))).toNat := by
  rw [prbs9Register, prbs9State_nextBit, toNat_prbs9NextBit]

variable {rx : Prbs9Rx}

theorem prbs9RxPushBit_locked {bit : UInt8} (hlfsr : rx.lfsr ≠ 0) (hlocked : rx.locked ≠ 0)
    (hbit : (prbs9NextBit rx.lfsr).1 = (bit &&& 1).toUInt16) :
    prbs9RxPushBit rx bit = (1, prbs9CloseWindow { rx with
      lfsr := (prbs9NextBit rx.lfsr).2
      totalBits := rx.totalBits + 1
      windowBits := rx.windowBits + 1 }) := by
  simp only [prbs9RxPushBit, if_neg hlfsr, if_pos hlocked, hbit, ne_eq, not_true_eq_false, if_false]

theorem prbs9RxPushBit_unlocked (bit : UInt8) (hlfsr : rx.lfsr.toNat < 2 ^ 9)
    (hunlocked : rx.locked = 0) :
    prbs9RxPushBit rx bit =
      let next := { rx with
        lockCount := if prbs9Feedback (prbs9State rx.lfsr) = (bit &&& 1).toUInt16 then
          rx.lockCount + 1 else 0
        lfsr := ((prbs9State rx.lfsr <<< 1) ||| (bit &&& 1).toUInt16) &&& prbs9Mask }
      (0, if next.lockCount ≥ prbs9LockBits then
          { next with locked := 1, windowBits := 0, windowErrors := 0 }
        else next) := by
  have hstate : prbs9State rx.lfsr = if rx.lfsr = 0 then 1 else rx.lfsr := by
    rw [prbs9State, and_prbs9Mask hlfsr]
  by_cases hzero : rx.lfsr = 0
  · simp only [prbs9RxPushBit, hstate, if_pos hzero, hunlocked, ne_eq, not_true_eq_false, if_false]
  · simp only [prbs9RxPushBit, hstate, if_neg hzero, hunlocked, ne_eq, not_true_eq_false, if_false]

/-- A window without errors changes nothing but its own counters. -/
theorem prbs9CloseWindow_of_clean (h : rx.windowErrors = 0) :
    (prbs9CloseWindow rx).lfsr = rx.lfsr ∧ (prbs9CloseWindow rx).locked = rx.locked ∧
      (prbs9CloseWindow rx).totalErrors = rx.totalErrors ∧
      (prbs9CloseWindow rx).windowErrors = 0 ∧
      (prbs9CloseWindow rx).resyncCount = rx.resyncCount := by
  have hfew : ¬ rx.windowErrors > prbs9ResyncErrorThreshold := by
    rw [h]
    decide
  rw [prbs9CloseWindow, if_neg hfew]
  split_ifs
  · exact ⟨rfl, rfl, rfl, rfl, rfl⟩
  · exact ⟨rfl, rfl, rfl, h, rfl⟩

/-- A locked receiver whose register is that of the transmitter stays so. -/
theorem push_of_locked {lfsr : UInt16} {t : ℕ} (h : Tracking lfsr t rx) (hlocked : rx.locked ≠ 0)
    (hsame : rx.lfsr = prbs9State (prbs9Register lfsr t)) :
    (prbs9RxPushBit rx (prbs9Stream lfsr t)).1 = 1 ∧
      Tracking lfsr (t + 1) (prbs9RxPushBit rx (prbs9Stream lfsr t)).2 := by
  have hne : rx.lfsr ≠ 0 := by
    rw [hsame]
    exact prbs9State_ne_zero _
  have hstate : prbs9State rx.lfsr = prbs9State (prbs9Register lfsr t) := by
    rw [prbs9State_of_lt h.register hne, hsame]
  have hnext : prbs9NextBit rx.lfsr = prbs9NextBit (prbs9Register lfsr t) := by
    rw [prbs9NextBit_eq, hstate]
    rfl
  have hbit : (prbs9NextBit rx.lfsr).1 = (prbs9Stream lfsr t &&& 1).toUInt16 := by
    rw [prbs9Stream_bit, prbs9NextBit_eq, hstate]
  rw [prbs9RxPushBit_locked hne hlocked hbit]
  refine ⟨rfl, ?_⟩
  generalize hrx : ({ rx with
    lfsr := (prbs9NextBit rx.lfsr).2
    totalBits := rx.totalBits + 1
    windowBits := rx.windowBits + 1 } : Prbs9Rx) = rx'
  have hregister : rx'.lfsr = prbs9State (prbs9Register lfsr (t + 1)) := by
    rw [← hrx, prbs9Register, prbs9State_nextBit, hnext]
  have hclean : rx'.windowErrors = 0 := by
    rw [← hrx]
    exact h.windowErrors
  obtain ⟨hlfsr, hlock, htotal, hwindow, hresync⟩ := prbs9CloseWindow_of_clean hclean
  constructor
  · rw [htotal, ← hrx]
    exact h.totalErrors
  · exact hwindow
  · rw [hresync, ← hrx]
    exact h.resyncCount
  · rw [hlfsr, hregister]
    exact prbs9State_lt _
  · refine .inr ⟨?_, hlfsr.trans hregister⟩
    rw [hlock, ← hrx]
    exact hlocked

theorem push_of_unlocked {lfsr : UInt16} {t : ℕ} (h : Tracking lfsr t rx)
    (hunlocked : rx.locked = 0)
    (htrails : Trails 9 t rx.lfsr.toNat (prbs9State (prbs9Register lfsr t)).toNat)
    (hcount : rx.lockCount.toNat ≤ t) (hclose : t ≤ rx.lockCount.toNat + 17)
    (hbelow : rx.lockCount.toNat < 18) :
    Tracking lfsr (t + 1) (prbs9RxPushBit rx (prbs9Stream lfsr t)).2 := by
  have hrefilled : (prbs9State rx.lfsr).toNat = refilled rx.lfsr.toNat := by
    rw [prbs9State, and_prbs9Mask h.register, refilled]
    by_cases hzero : rx.lfsr = 0
    · rw [hzero]
      rfl
    · have hnat : rx.lfsr.toNat ≠ 0 := fun hnat => hzero (UInt16.toNat_inj.mp hnat)
      rw [if_neg hzero, if_neg hnat]
  have hregister : (((prbs9State rx.lfsr <<< 1) ||| (prbs9Stream lfsr t &&& 1).toUInt16)
      &&& prbs9Mask).toNat = push 9 (refilled rx.lfsr.toNat)
        (prbs9Feedback (prbs9State (prbs9Register lfsr t))).toNat := by
    rw [prbs9Stream_bit, toNat_shiftIn _ (prbs9Feedback_lt _), hrefilled]
  have hnext : Trails 9 (t + 1) (((prbs9State rx.lfsr <<< 1) |||
      (prbs9Stream lfsr t &&& 1).toUInt16) &&& prbs9Mask).toNat
      (prbs9State (prbs9Register lfsr (t + 1))).toNat := by
    rw [hregister, prbs9State_succ]
    exact htrails.push (by decide) (prbs9Feedback_lt _)
      fun hzero => prbs9State_ne_zero _ (UInt16.toNat_inj.mp hzero)
  -- from the seventeenth bit on each one is foretold
  have hforetold : 17 ≤ t →
      prbs9Feedback (prbs9State rx.lfsr) = (prbs9Stream lfsr t &&& 1).toUInt16 := by
    intro ht
    have hsame := UInt16.toNat_inj.mp (htrails.eq (by omega))
    rw [prbs9Stream_bit, prbs9State_of_lt h.register, hsame]
    rw [hsame]
    exact prbs9State_ne_zero _
  rw [prbs9RxPushBit_unlocked _ h.register hunlocked]
  generalize hcount' : (if prbs9Feedback (prbs9State rx.lfsr) =
    (prbs9Stream lfsr t &&& 1).toUInt16 then rx.lockCount + 1 else 0) = lockCount
  have hplus : (rx.lockCount + 1).toNat = rx.lockCount.toNat + 1 := by
    rw [UInt16.toNat_add]
    change (rx.lockCount.toNat + 1) % 2 ^ 16 = _
    omega
  have hmore : lockCount.toNat ≤ t + 1 ∧ t + 1 ≤ lockCount.toNat + 17 := by
    rw [← hcount']
    split_ifs with hbit
    · omega
    · have hearly : t < 17 := by
        by_contra hlate
        exact hbit (hforetold (by omega))
      change 0 ≤ t + 1 ∧ t + 1 ≤ 0 + 17
      omega
  simp only
  split_ifs with hlock
  · have henough : 18 ≤ lockCount.toNat := hlock
    refine ⟨h.totalErrors, rfl, h.resyncCount, and_prbs9Mask_lt _,
      .inr ⟨(by decide : (1 : UInt8) ≠ 0), ?_⟩⟩
    exact UInt16.toNat_inj.mp (hnext.eq (by omega))
  · have hfew : lockCount.toNat < 18 := by
      by_contra henough
      exact hlock (UInt16.le_iff_toNat_le.mpr (Nat.not_lt.mp henough))
    exact ⟨h.totalErrors, h.windowErrors, h.resyncCount, and_prbs9Mask_lt _,
      .inl ⟨hunlocked, hnext, hmore.1, hmore.2, hfew⟩⟩

theorem tracking_init (lfsr initialState : UInt16) :
    Tracking lfsr 0 (prbs9RxInit initialState) := by
  have hstate : (prbs9RxInit initialState).lfsr = prbs9State initialState := rfl
  have hcount : (prbs9RxInit initialState).lockCount.toNat = 0 := rfl
  refine ⟨rfl, rfl, rfl, ?_, .inl ⟨rfl, ?_, hcount.le, Nat.zero_le _, by omega⟩⟩
  · rw [hstate]
    exact prbs9State_lt initialState
  · refine .filling (by decide) (fun _ hzero => ?_) (by rw [Nat.pow_zero, Nat.mod_one, Nat.mod_one])
    exact prbs9State_ne_zero initialState (UInt16.toNat_inj.mp hzero)

theorem tracking_received (lfsr initialState : UInt16) (t : ℕ) :
    Tracking lfsr t (prbs9Received (prbs9Stream lfsr) (prbs9RxInit initialState) t) := by
  induction t with
  | zero => exact tracking_init lfsr initialState
  | succ t ih =>
    rcases ih.stage with ⟨hunlocked, htrails, hcount, hclose, hbelow⟩ | ⟨hlocked, hsame⟩
    · exact push_of_unlocked ih hunlocked htrails hcount hclose hbelow
    · exact (push_of_locked ih hlocked hsame).2

/-- Whatever register the transmitter runs from and the receiver starts with, an error-free
stream is locked to within 36 bits, and every bit from then on is as foretold. -/
theorem prbs9_locks (lfsr initialState : UInt16) :
    ∃ n ≤ 36, ∀ t, n ≤ t →
      (prbs9Received (prbs9Stream lfsr) (prbs9RxInit initialState) t).locked ≠ 0 ∧
        (prbs9Received (prbs9Stream lfsr) (prbs9RxInit initialState) t).totalErrors = 0 ∧
        (prbs9Received (prbs9Stream lfsr) (prbs9RxInit initialState) t).resyncCount = 0 ∧
        (prbs9RxPushBit (prbs9Received (prbs9Stream lfsr) (prbs9RxInit initialState) t)
          (prbs9Stream lfsr t)).1 = 1 := by
  refine ⟨35, by decide, fun t ht => ?_⟩
  have htrack := tracking_received lfsr initialState
  have hlocked : ∀ m,
      (prbs9Received (prbs9Stream lfsr) (prbs9RxInit initialState) (35 + m)).locked ≠ 0 := by
    intro m
    rcases (htrack (35 + m)).stage with ⟨-, -, -, hclose, hcount⟩ | ⟨hlocked, -⟩
    · omega
    · exact hlocked
  obtain ⟨m, rfl⟩ := Nat.exists_eq_add_of_le ht
  rcases (htrack (35 + m)).stage with ⟨hunlocked, -⟩ | ⟨hl, hsame⟩
  · exact absurd hunlocked (hlocked m)
  · exact ⟨hl, (htrack _).totalErrors, (htrack _).resyncCount,
      (push_of_locked (htrack _) hl hsame).1⟩

end DsdNeo.M17
