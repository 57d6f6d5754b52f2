import DsdNeo.Models.Calls.Lifecycle

/-!
# What a new epoch takes from the one before it

A ledger follows a slot from outside: how many epochs were given out, which ones the slot
held, and whether the call it holds was ended, for what reason, when, and what was heard
of it since. A new epoch takes nothing from the one before it unless the ledger permits
it, and its number is greater than any the slot has held.
-/

namespace DsdNeo.CallState

/-- A call on the slot, or a context brought back whole. -/
inductive Step where
  | call (op : Op)
  | contextRestore (record : Record) (revision : BitVec 64)

/-- How the call on the slot was ended first, and whether later ends took the hope of a
resumption away. -/
structure Ending where
  reason : EndReason
  endedM : ℚ
  retracted : Bool

/-- What is known of a slot from the steps taken on it. -/
structure Ledger where
  given : ℕ
  held : List (BitVec 64)
  active : Bool
  ending : Option Ending

/-- Nothing has happened. -/
def Ledger.start : Ledger := ⟨0, [], false, none⟩

/-- A later end says that the call is over. -/
def Ending.hear (e : Ending) (reason : EndReason) : Ending :=
  { e with
    retracted := e.retracted || decide (reason = .explicit) || decide (reason = .terminator) ||
      decide (e.reason = .unverifiedTerminator ∧ reason = .unverifiedTerminator) }

/-- The ledger after an end: the first closes the call, later ones are heard. -/
def Ledger.endEx (l : Ledger) (nowM : ℚ) (reason : EndReason) : Ledger :=
  if l.active then { l with active := false, ending := some ⟨reason, nowM, false⟩ }
  else { l with ending := l.ending.map (·.hear reason) }

/-- The ledger after a step on the slot `w`. -/
def Ledger.after (w : Slot) (l : Ledger) : Step → Ledger
  | .call (.observe observation boundary rx) =>
    let r := callStateObserve w observation boundary rx
    { given := if r.beginsEpoch then l.given + 1 else l.given
      held := if r.beginsEpoch then r.slot.record.epoch :: l.held else l.held
      active := true
      ending := none }
  | .call (.endEx observedM clock reason) => l.endEx (callStateObservedM observedM clock) reason
  | .call (.refreshReceive identity _ _ clock) =>
    if w.record.phase = .active ∧ receiveIdentityChanged w.record.receiveIdentity identity ∧
        w.record.protocol ≠ syncAnalog then
      l.endEx (callStateObservedM 0 clock) .explicit
    else l
  | .call _ => l
  | .contextRestore record _ =>
    { given := max l.given record.epoch.toNat
      held := record.epoch :: l.held
      active := decide (record.phase = .active)
      ending := none }

/-- The slot after a step. -/
def Step.take (w : Slot) : Step → Slot
  | .call op => perform w op
  | .contextRestore record revision => callContextRestoreSnapshot w record revision

/-- The slot and its ledger after steps taken from the start. -/
def follow (steps : List Step) : Slot × Ledger :=
  steps.foldl (fun (w, l) step => (step.take w, l.after w step)) (Slot.start, Ledger.start)

/-- The observation may resume the call `E` of the slot: an end that may be recovered closed
it, nothing since took that back, `E` named a call, the observation contradicts nothing
known of it, and it comes in time. After an unverified terminator it names nothing itself. -/
def Ledger.Permits (l : Ledger) (E : Record) (observation : Observation) (rx : Reception)
    (nowM : ℚ) : Prop :=
  ∃ e, l.ending = some e ∧ (e.reason = .syncLoss ∨ e.reason = .unverifiedTerminator) ∧
    e.retracted = false ∧ callStateSnapshotHasIdentity E = true ∧
    callStateObservationChangesIdentity E observation = false ∧
    receiveIdentityChanged E.receiveIdentity rx.received = false ∧
    (e.reason = .unverifiedTerminator → callStateObservationHasIdentity observation = false) ∧
    0 ≤ nowM - e.endedM ∧ nowM - e.endedM ≤ callStateEndReasonReacquireGapS e.reason

/-- The record of an epoch of its own: it depends on the observation and the reception
alone. -/
def freshRecord (epoch : BitVec 64) (observation : Observation) (rx : Reception) (nowM : ℚ) :
    Record :=
  { observed { newEpoch epoch rx nowM with receiveIdentity := rx.received } observation rx nowM with
    revision := callStateNextNonzero 0 }

/-- The slot and its ledger tell the same story. -/
structure Told (w : Slot) (l : Ledger) : Prop where
  sequence : l.given < 2 ^ 64 → w.epochSequence.toNat = l.given
  held : l.given < 2 ^ 64 → ∀ e ∈ l.held, e.toNat ≤ l.given
  epoch : l.given < 2 ^ 64 → w.record.epoch.toNat ≤ l.given
  active : w.record.phase = .active → w.record.epoch ≠ 0 → l.active = true
  ended : w.record.phase = .ended → callStateEndReasonIsRecoverable w.record.endReason = true →
    w.record.epoch ≠ 0 ∧ l.active = false ∧ ∃ e, l.ending = some e ∧ e.retracted = false ∧
      e.reason = w.record.endReason ∧ e.endedM = w.record.endedM

theorem callStateNextNonzero_ne_zero (value : BitVec 64) : callStateNextNonzero value ≠ 0 := by
  unfold callStateNextNonzero Version.bump
  split
  · decide
  · assumption

/-- Short of the last one, the next epoch counts one more. -/
theorem toNat_callStateNextNonzero {value : BitVec 64} (h : value.toNat + 1 < 2 ^ 64) :
    (callStateNextNonzero value).toNat = value.toNat + 1 := by
  have hsum : (value + 1).toNat = value.toNat + 1 := by
    rw [BitVec.toNat_add]
    exact Nat.mod_eq_of_lt h
  have hne : value + 1 ≠ 0 := by
    intro hzero
    rw [hzero] at hsum
    simp at hsum
  rw [callStateNextNonzero, Version.bump, if_neg hne, hsum]

theorem Told.start : Told Slot.start Ledger.start where
  sequence := fun _ => rfl
  held := by simp [Ledger.start]
  epoch := fun _ => Nat.le_refl 0
  active := by simp [Slot.start, Record.cleared]
  ended := by simp [Slot.start, Record.cleared]

variable {l : Ledger} {w : Slot}

/-- A step that leaves the life of the epoch alone changes no story. -/
theorem Told.sameLife {w' : Slot} (h : Told w l) (hlife : w.SameLife w') : Told w' l := by
  obtain ⟨hrecord, hsequence⟩ := hlife
  have hepoch : w'.record.epoch = w.record.epoch := congrArg Life.epoch hrecord
  have hphase : w'.record.phase = w.record.phase := congrArg Life.phase hrecord
  have hreason : w'.record.endReason = w.record.endReason := congrArg Life.endReason hrecord
  have hended : w'.record.endedM = w.record.endedM := congrArg Life.endedM hrecord
  constructor
  · rw [hsequence]
    exact h.sequence
  · exact h.held
  · rw [hepoch]
    exact h.epoch
  · rw [hphase, hepoch]
    exact h.active
  · rw [hphase, hreason, hepoch, hended]
    exact h.ended

theorem Told.endEx (h : Told w l) (observedM clock : ℚ) (reason : EndReason) :
    Told (callStateEndEx w observedM clock reason).2
      (l.endEx (callStateObservedM observedM clock) reason) := by
  have hgiven : (l.endEx (callStateObservedM observedM clock) reason).given = l.given ∧
      (l.endEx (callStateObservedM observedM clock) reason).held = l.held := by
    unfold Ledger.endEx
    split <;> exact ⟨rfl, rfl⟩
  obtain ⟨hsequence, hepoch⟩ := callStateEndEx_epoch w observedM clock reason
  refine ⟨?_, ?_, ?_, ?_, ?_⟩
  · rw [hgiven.1, hsequence]
    exact h.sequence
  · rw [hgiven.1, hgiven.2]
    exact h.held
  · rw [hgiven.1, hepoch]
    exact h.epoch
  all_goals
    rcases callStateEndEx_cases w observedM clock reason with
      ⟨hne, hactive, hlife⟩ | ⟨-, hfinal, hphase⟩ | ⟨hidle, hheard, hsame⟩
  · intro hphase
    have hclosed : (callStateEndEx w observedM clock reason).2.record.phase = .ended :=
      congrArg Life.phase hlife
    rw [hclosed] at hphase
    cases hphase
  · intro hactive
    rw [hphase] at hactive
    cases hactive
  · intro hactive hne
    rw [hsame] at hactive hne
    exact absurd (hidle hactive) hne
  · intro _ _
    have hreason : (callStateEndEx w observedM clock reason).2.record.endReason = reason :=
      congrArg Life.endReason hlife
    have hendedM : (callStateEndEx w observedM clock reason).2.record.endedM =
      callStateObservedM observedM clock := congrArg Life.endedM hlife
    rw [hepoch, hreason, hendedM, Ledger.endEx, if_pos (h.active hactive hne)]
    exact ⟨hne, rfl, _, rfl, rfl, rfl, rfl⟩
  · intro _ hrecoverable
    rw [hfinal] at hrecoverable
    cases hrecoverable
  · intro hended hrecoverable
    rw [hsame] at hended hrecoverable ⊢
    obtain ⟨hne, hinactive, e, he, hretracted, hreason, hendedM⟩ := h.ended hended hrecoverable
    obtain ⟨hexplicit, hterminator, hunverified⟩ := hheard hne hended hrecoverable
    refine ⟨hne, ?_, e.hear reason, ?_, ?_, hreason, hendedM⟩
    · simp [Ledger.endEx, hinactive]
    · simp [Ledger.endEx, hinactive, he]
    · rw [← hreason] at hunverified
      simp [Ending.hear, hretracted, hexplicit, hterminator, hunverified]

theorem Told.opened (h : Told w l) {w' : Slot}
    (hsequence : w'.epochSequence = callStateNextNonzero w.epochSequence)
    (hepoch : w'.record.epoch = callStateNextNonzero w.epochSequence)
    (hphase : w'.record.phase = .active) :
    Told w' ⟨l.given + 1, w'.record.epoch :: l.held, true, none⟩ := by
  have hcount : l.given + 1 < 2 ^ 64 →
      (callStateNextNonzero w.epochSequence).toNat = l.given + 1 := by
    intro hlt
    have hgiven := h.sequence (by omega)
    rw [toNat_callStateNextNonzero (by omega), hgiven]
  constructor
  · intro hlt
    rw [hsequence]
    exact hcount hlt
  · intro (hlt : l.given + 1 < 2 ^ 64) e he
    rcases List.mem_cons.mp he with rfl | he
    · rw [hepoch]
      exact (hcount hlt).le
    · exact (h.held (by omega) e he).trans (Nat.le_succ _)
  · intro hlt
    rw [hepoch]
    exact (hcount hlt).le
  · intro _ _
    rfl
  · intro hended
    rw [hphase] at hended
    cases hended

/-- An observation opens an epoch in both, or describes the call of both. -/
theorem Told.observe (h : Told w l) (observation : Observation) (boundary : Boundary)
    (rx : Reception) :
    Told (callStateObserve w observation boundary rx).slot
      (l.after w (.call (.observe observation boundary rx))) := by
  unfold Ledger.after
  rcases callStateObserve_cases w observation boundary rx _ rfl with
    ⟨-, -, hobserve⟩ | ⟨-, hobserve⟩ | ⟨-, hactive, hobserve⟩
  · simp only [hobserve, if_true]
    exact h.opened rfl rfl rfl
  · simp only [hobserve, if_true]
    exact h.opened rfl rfl rfl
  · simp only [hobserve, Bool.false_eq_true, if_false]
    refine ⟨h.sequence, h.held, h.epoch, fun _ _ => rfl, ?_⟩
    intro hended
    cases hended

/-- A context brought back leaves no end to recover from. -/
theorem Told.contextRestore (h : Told w l) (record : Record) (revision : BitVec 64) :
    Told (callContextRestoreSnapshot w record revision)
      (l.after w (.contextRestore record revision)) := by
  have hepoch : (callContextRestoreSnapshot w record revision).record.epoch = record.epoch := by
    unfold callContextRestoreSnapshot
    dsimp only
    split <;> rfl
  refine ⟨?_, ?_, ?_, ?_, ?_⟩
  · intro hlt
    have hgiven := h.sequence (lt_of_le_of_lt (Nat.le_max_left _ _) hlt)
    change (if w.epochSequence < record.epoch then record.epoch else w.epochSequence).toNat =
      max l.given record.epoch.toNat
    split_ifs with hless
    · rw [BitVec.lt_def] at hless
      omega
    · rw [BitVec.lt_def] at hless
      omega
  · intro hlt e he
    rcases List.mem_cons.mp he with rfl | he
    · exact Nat.le_max_right _ _
    · exact (h.held (lt_of_le_of_lt (Nat.le_max_left _ _) hlt) e he).trans (Nat.le_max_left _ _)
  · intro _
    rw [hepoch]
    exact Nat.le_max_right _ _
  · intro hactive _
    unfold callContextRestoreSnapshot at hactive
    dsimp only at hactive
    split at hactive
    · exact decide_eq_true (hactive)
    · exact decide_eq_true hactive
  · intro hended hrecoverable
    unfold callContextRestoreSnapshot at hended hrecoverable
    dsimp only at hended hrecoverable
    split at hended
    · rw [if_pos ‹_›] at hrecoverable
      cases hrecoverable
    · exact absurd hended ‹_›

/-- A step keeps the story. -/
theorem Told.after (h : Told w l) (step : Step) : Told (step.take w) (l.after w step) := by
  cases step with
  | contextRestore record revision => exact h.contextRestore record revision
  | call op =>
    cases op with
    | observe observation boundary rx => exact h.observe observation boundary rx
    | endEx observedM clock reason => exact h.endEx observedM clock reason
    | updateCrypto => exact h.sameLife (sameLife_updateCrypto ..)
    | updateMedia => exact h.sameLife (sameLife_updateMedia ..)
    | enrichText => exact h.sameLife (sameLife_enrichText ..)
    | forgetCryptoValues => exact h.sameLife (sameLife_forgetCryptoValues _)
    | noteKeySelection => exact h.sameLife (sameLife_noteKeySelection ..)
    | refreshReceive identity verdict label clock =>
      unfold Step.take perform Ledger.after
      dsimp only
      rcases callStateRefreshReceive_cases w identity verdict label clock with
        ⟨hends, hrefresh⟩ | ⟨hstays, hlife, -⟩
      · rw [if_pos hends, hrefresh]
        exact h.endEx 0 clock .explicit
      · rw [if_neg hstays]
        exact h.sameLife hlife

/-- Every run keeps the story. -/
theorem told_follow (steps : List Step) : Told (follow steps).1 (follow steps).2 := by
  induction steps using List.reverseRecOn with
  | nil => exact Told.start
  | append_singleton steps step ih =>
    rw [follow, List.foldl_append]
    exact ih.after step

theorem Told.permits (h : Told w l) {observation : Observation} {rx : Reception} {nowM : ℚ}
    (hreceived : receiveIdentityChanged w.record.receiveIdentity rx.received = false)
    (hreacquires : callStateReacquiresEndedEpoch w.record observation nowM = true) :
    l.Permits w.record observation rx nowM := by
  obtain ⟨hended, hrecoverable, hunverified, hidentity, hchanges, -, hafter, hgap⟩ :=
    callStateReacquiresEndedEpoch_iff.mp hreacquires
  obtain ⟨-, -, e, he, hretracted, hreason, hendedM⟩ := h.ended hended hrecoverable
  refine ⟨e, he, ?_, hretracted, hidentity, hchanges, hreceived, ?_, ?_, ?_⟩
  · rw [hreason]
    simpa [callStateEndReasonIsRecoverable] using hrecoverable
  · rw [hreason]
    exact hunverified
  · rw [hendedM]
    exact sub_nonneg.mpr hafter
  · rw [hendedM, hreason]
    exact hgap

/-- In every run, an observation that opens an epoch gives it a new and greater number, and
carries over from the epoch before it only what the ledger permits. -/
theorem reacquisition_sound (steps : List Step) (observation : Observation) (boundary : Boundary)
    (rx : Reception) {w : Slot} {l : Ledger} (hfollow : follow steps = (w, l)) {r : Observed}
    (hobserve : callStateObserve w observation boundary rx = r) (hbegins : r.beginsEpoch = true) :
    r.slot.record.epoch ≠ 0 ∧
    (l.given + 1 < 2 ^ 64 → ∀ e ∈ l.held, e < r.slot.record.epoch) ∧
    (¬ l.Permits w.record observation rx (callStateObservedM observation.observedM rx.clock) →
      r.slot.record = freshRecord r.slot.record.epoch observation rx
        (callStateObservedM observation.observedM rx.clock)) := by
  have h : Told w l := by
    have htold := told_follow steps
    rwa [hfollow] at htold
  have hgreater : l.given + 1 < 2 ^ 64 → ∀ e ∈ l.held,
    e < callStateNextNonzero w.epochSequence := by
    intro hlt e he
    have hgiven := h.sequence (by omega)
    have hheld := h.held (by omega) e he
    rw [BitVec.lt_def, toNat_callStateNextNonzero (by omega), hgiven]
    exact Nat.lt_succ_of_le hheld
  rcases callStateObserve_cases w observation boundary rx _ rfl with
    ⟨hreceived, hreacquires, hcase⟩ | ⟨-, hcase⟩ | ⟨-, -, hcase⟩
  · obtain rfl := hobserve.symm.trans hcase
    refine ⟨callStateNextNonzero_ne_zero _, hgreater, ?_⟩
    intro hforbidden
    exact absurd (h.permits hreceived hreacquires) hforbidden
  · obtain rfl := hobserve.symm.trans hcase
    exact ⟨callStateNextNonzero_ne_zero _, hgreater, fun _ => rfl⟩
  · obtain rfl := hobserve.symm.trans hcase
    cases hbegins

/-- A call, lost at instant 10. -/
def lostCall : List Step :=
  [.call (.observe (groupCall 100 9) .begin plainReception), .call (.endEx 10 10 .syncLoss)]

/-- Another group's call a moment later gets a greater number and starts from nothing. -/
theorem reacquisition_sound_lostCall :
    let r := callStateObserve (follow lostCall).1
      (groupCall 200 (101 / 10)) .continue plainReception
    r.slot.record.epoch ≠ 0 ∧ (∀ e ∈ (follow lostCall).2.held, e < r.slot.record.epoch) ∧
      r.slot.record = freshRecord r.slot.record.epoch (groupCall 200 (101 / 10)) plainReception
        (callStateObservedM (101 / 10) 1) := by
  have h := reacquisition_sound lostCall (groupCall 200 (101 / 10)) .continue plainReception rfl rfl
    (by rfl)
  refine ⟨h.1, h.2.1 (by decide), h.2.2 ?_⟩
  rintro ⟨e, -, -, -, -, hchanges, -⟩
  revert hchanges
  decide

end DsdNeo.CallState
