import DsdNeo.Models.Tetra.TrunkTuning

/-!
# Tunes that do not happen

A tune or a return the tuner refuses or defers changes nothing. One left in flight stages what it
would change, and what it found is put back when it fails, whatever the decoder did meanwhile.
The control channel of P25 is not among what is put back: a return in flight that fails leaves it
cleared.
-/

namespace DsdNeo.Tetra.TrunkTuning

open Calls Program
open Tuning (TuneResult)

/-- What a tune that does not happen has to leave as it was. -/
structure Settings where
  state : SmState
  followed : Grant
  followedRetired : Bool
  tTuneM : ℚ
  tVoiceM : ℚ
  trunkIsTuned : Bool
  shared : Shared
  deriving DecidableEq

/-- The settings as they stand. -/
def Receiver.settings (r : Receiver) : Settings where
  state := r.calls.sm.state
  followed := r.calls.sm.followed
  followedRetired := r.calls.sm.followedRetired
  tTuneM := r.calls.sm.tTuneM
  tVoiceM := r.calls.sm.tVoiceM
  trunkIsTuned := r.calls.around.trunkIsTuned
  shared := r.shared

/-- What TETRA asks the tuner for. -/
inductive Request where
  | grant (g : Grant)
  | return

open Request

/-- The request made. -/
def Request.make (now : Instant) : Request → Task Bool
  | .grant g => smTuneGrant now g
  | .return => smRelease now

/-- The tuner is asked: always for a grant; for a return with trunking on, from another channel
than the control channel. -/
def Request.Asks (r : Receiver) : Request → Prop
  | .grant _ => True
  | .return => r.calls.around.trunkEnable = true ∧ 0 < r.calls.around.trunkCcFreq ∧
      r.calls.sm.followed.freqHz ≠ r.calls.around.trunkCcFreq

/-- What the tuner answers now. -/
def Receiver.answer (r : Receiver) : Answer := r.calls.answers 0

/-- The tuner changes nothing where it does not tune, nor the P25 control channel ever, and names
the request it leaves in flight. -/
structure Instant.Honest (now : Instant) (r : Receiver) : Prop where
  refused : tuneResultIsOk r.answer.tune = false →
    (∀ s, now.hook s = s) ∧ r.answer.trunkIsTuned = r.calls.around.trunkIsTuned
  p25CcFreq : ∀ s, (now.hook s).p25CcFreq = s.p25CcFreq
  requestId : r.answer.tune = .pending → r.answer.requestId ≠ 0

/-- An entry of the state machine. -/
inductive Entry where
  | ccSync
  | grant (g : Grant)
  | release (id : CallId)
  | voice (tn : ℕ)
  | tick
  | settle

/-- What an entry does. -/
def Entry.run (now : Instant) : Entry → Task Unit
  | .ccSync => smOnCcSync now
  | .grant g => discard (smOnGrant now g)
  | .release id => smOnRelease now id
  | .voice tn => smNoteVoice now tn
  | .tick => smTick now
  | .settle => discard (smSettlePending now)

/-- The entry finds the request in flight: the tuner has not answered, or a burst is open. -/
def Entry.Waits (r : Receiver) : Entry → Prop
  | .ccSync => r.calls.confirm.burstOpen = true ∨ r.answer.status = .pending
  | .grant _ => r.calls.confirm.burstOpen = true ∨ r.answer.status = .pending
  | .release _ => r.calls.confirm.burstOpen = true ∨ r.answer.status = .pending
  | .voice _ => True
  | .tick => r.answer.status = .pending
  | .settle => r.answer.status = .pending

/-- What happens while a request is in flight: an entry of the state machine, or anything that
leaves the state machine and the P25 control channel alone. -/
inductive Meanwhile : Receiver → Receiver → Prop
  | entry (r : Receiver) (e : Entry) (now : Instant) (h : e.Waits r) : Meanwhile r (e.run now r).2
  | elsewhere {r r' : Receiver} (hsm : r'.calls.sm = r.calls.sm)
      (htuning : r'.pendingTuning = r.pendingTuning)
      (hcc : r'.shared.p25CcFreq = r.shared.p25CcFreq) : Meanwhile r r'

/-- The tuner answers that the request failed. -/
def Receiver.Fails (r : Receiver) : Prop := r.answer.status ≠ .pending ∧ r.answer.status ≠ .ok

/-- The request was asked of the tuner and did not happen: refused or deferred at once, or left in
flight and settled later as failed. -/
inductive Unmade (now : Instant) (q : Request) (r : Receiver) : Receiver → Prop
  | refused (hasks : q.Asks r) (h : tuneResultIsOk r.answer.tune = false) :
      Unmade now q r (q.make now r).2
  | failed (hasks : q.Asks r) (h : r.answer.tune = .pending) {r' : Receiver} (later : Instant)
      (hmeanwhile : Relation.ReflTransGen Meanwhile (q.make now r).2 r') (hfails : r'.Fails) :
      Unmade now q r (smSettlePending later r').2

/-- The state machine, what it puts back, and the P25 control channel are as they were. -/
structure Held (r r' : Receiver) : Prop where
  sm : r'.calls.sm = r.calls.sm
  pendingTuning : r'.pendingTuning = r.pendingTuning
  p25CcFreq : r'.shared.p25CcFreq = r.shared.p25CcFreq

theorem Held.refl (r : Receiver) : Held r r := ⟨rfl, rfl, rfl⟩

theorem Held.trans {r r' r'' : Receiver} (h : Held r r') (h' : Held r' r'') : Held r r'' :=
  ⟨h'.1.trans h.1, h'.2.trans h.2, h'.3.trans h.3⟩

variable {r : Receiver}

/-- A request the tuner has not answered stays in flight. -/
theorem smSettlePending_waits (now : Instant) (hpending : r.calls.sm.pendingRequestId ≠ 0)
    (hstatus : r.answer.status = .pending) :
    (smSettlePending now r).1 = false ∧ Held r (smSettlePending now r).2 := by
  have hrun : smSettlePending now r = (false, ((onCalls ask) r).2) := by
    show (if r.calls.sm.pendingRequestId = 0 then _ else _ : Task Bool) r = _
    rw [if_neg hpending]
    show (if r.answer.status = .pending then _ else _ : Task Bool) ((onCalls ask) r).2 = _
    rw [if_pos hstatus]
    rfl
  rw [hrun]
  exact ⟨rfl, rfl, rfl, rfl⟩

theorem smSettleAtEntry_waits (now : Instant) (hpending : r.calls.sm.pendingRequestId ≠ 0)
    (hwaits : r.calls.confirm.burstOpen = true ∨ r.answer.status = .pending) :
    (smSettleAtEntry now r).1 = false ∧ Held r (smSettleAtEntry now r).2 := by
  have hrun : smSettleAtEntry now r =
      (if r.calls.confirm.burstOpen then (pure (r.calls.sm.pendingRequestId = 0) : Task Bool)
        else smSettlePending now) r := rfl
  rw [hrun]
  split
  · exact ⟨decide_eq_false hpending, .refl r⟩
  · rename_i hclosed
    exact smSettlePending_waits now hpending (hwaits.resolve_left hclosed)

/-- What follows a settling that leaves the request in flight is not run. -/
theorem held_of_waits {α : Type} {m : Task Bool} {f : Bool → Task α} {a : α}
    (h : (m r).1 = false ∧ Held r (m r).2) (hf : ∀ r, f false r = (a, r)) :
    Held r ((m >>= f) r).2 := by
  have hrun : (m >>= f) r = f (m r).1 (m r).2 := rfl
  rw [hrun, h.1, hf]
  exact h.2

theorem smNoteVoice_waits (now : Instant) (tn : ℕ) (hpending : r.calls.sm.pendingRequestId ≠ 0) :
    Held r (smNoteVoice now tn r).2 := by
  have hvoice : (Calls.smNoteVoice tn r.calls).2 = r.calls := by
    show ((if _ ∧ r.calls.sm.pendingRequestId = 0 ∧ _ then _ else _ : Prog Unit) r.calls).2 = _
    rw [if_neg fun hvoice => hpending hvoice.2.1]
    rfl
  have hrun : (smNoteVoice now tn r).2.calls = (Calls.smNoteVoice tn r.calls).2 := rfl
  exact ⟨by rw [hrun, hvoice], rfl, rfl⟩

/-- One step while a request is in flight. -/
theorem Meanwhile.held {r r' : Receiver} (h : Meanwhile r r')
    (hpending : r.calls.sm.pendingRequestId ≠ 0) : Held r r' := by
  cases h with
  | elsewhere hsm htuning hcc => exact ⟨hsm, htuning, hcc⟩
  | entry e now hwaits =>
    cases e with
    | ccSync =>
      exact held_of_waits (smSettleAtEntry_waits now hpending hwaits) fun _ => rfl
    | grant g =>
      have hheld : Held r (smOnGrant now g r).2 :=
        held_of_waits (smSettleAtEntry_waits now hpending hwaits) fun _ => rfl
      exact hheld
    | release id =>
      exact held_of_waits (smSettleAtEntry_waits now hpending hwaits) fun _ => rfl
    | voice tn => exact smNoteVoice_waits now tn hpending
    | tick => exact held_of_waits (smSettlePending_waits now hpending hwaits) fun _ => rfl
    | settle => exact (smSettlePending_waits now hpending hwaits).2

/-- Any number of steps while a request is in flight. -/
theorem held_of_meanwhile {r r' : Receiver} (h : Relation.ReflTransGen Meanwhile r r')
    (hpending : r.calls.sm.pendingRequestId ≠ 0) : Held r r' := by
  induction h with
  | refl => exact .refl r
  | tail _ hstep ih => exact ih.trans (hstep.held (by rw [ih.sm]; exact hpending))

/-- What the request in flight puts back when it fails, the P25 control channel as it stands. -/
def Receiver.putBack (r : Receiver) : Settings where
  state := r.calls.sm.pendingPrev.state
  followed := r.calls.sm.pendingPrev.followed
  followedRetired := r.calls.sm.pendingPrev.followedRetired
  tTuneM := r.calls.sm.pendingPrev.tTuneM
  tVoiceM := r.calls.sm.pendingPrev.tVoiceM
  trunkIsTuned := r.calls.sm.pendingPrev.trunkIsTuned
  shared := { r.pendingTuning with p25CcFreq := r.shared.p25CcFreq }

theorem Held.putBack {r r' : Receiver} (h : Held r r') : r'.putBack = r.putBack := by
  rw [Receiver.putBack, Receiver.putBack, h.sm, h.pendingTuning, h.p25CcFreq]

theorem settings_smSettlePending_of_fails (now : Instant)
    (hpending : r.calls.sm.pendingRequestId ≠ 0)
    (hfails : r.Fails) : (smSettlePending now r).2.settings = r.putBack := by
  have hrun : (smSettlePending now r).2 =
      (smRestore r.calls.sm.pendingPrev r.pendingTuning
        ((onCalls smDisownPending) ((onCalls ask) r).2).2).2 := by
    show ((if r.calls.sm.pendingRequestId = 0 then _ else _ : Task Bool) r).2 = _
    rw [if_neg hpending]
    show ((if r.answer.status = .pending then _ else _ : Task Bool) ((onCalls ask) r).2).2 = _
    rw [if_neg hfails.1]
    show ((if r.answer.status = .ok then _ else _ : Task Bool)
      ((onCalls smDisownPending) ((onCalls ask) r).2).2).2 = _
    rw [if_neg hfails.2]
    rfl
  rw [hrun]
  rfl

/-- What a grant left in flight keeps is what it found. -/
theorem smTuneGrant_pending (now : Instant) (g : Grant) (hhonest : now.Honest r)
    (h : r.answer.tune = .pending) :
    (smTuneGrant now g r).2.calls.sm.pendingRequestId ≠ 0 ∧
      (smTuneGrant now g r).2.putBack = r.settings := by
  have hok : tuneResultIsOk r.answer.tune = true := by rw [h]; rfl
  have hrun : (smTuneGrant now g r).2 =
      (smStagePending .grant r.answer.requestId (smCapture r.calls) r.shared.toTuneSnapshot
        ((onCalls (smSetState .tuned)) ((onCalls (smFollow g)) (askTune now r).2).2).2).2 := by
    show ((if tuneResultIsOk r.answer.tune = false then _ else _ : Task Bool) (askTune now r).2).2 =
      _
    rw [if_neg (by simp [hok])]
    show ((if r.answer.tune = .pending then _ else _ : Task Bool)
      ((onCalls (smSetState .tuned)) ((onCalls (smFollow g)) (askTune now r).2).2).2).2 = _
    rw [if_pos h]
    rfl
  rw [hrun]
  have hcc : (now.hook r.shared).p25CcFreq = r.shared.p25CcFreq := hhonest.p25CcFreq _
  constructor
  · exact hhonest.requestId h
  · show (⟨_, _, _, _, _, _, { r.shared.toTuneSnapshot with
      p25CcFreq := (now.hook r.shared).p25CcFreq }⟩ : Settings) = r.settings
    rw [hcc]
    rfl

theorem smTuneGrant_refused (now : Instant) (g : Grant) (hhonest : now.Honest r)
    (h : tuneResultIsOk r.answer.tune = false) : (smTuneGrant now g r).2.settings = r.settings := by
  obtain ⟨hhook, htuned⟩ := hhonest.refused h
  have hrun : (smTuneGrant now g r).2 = (askTune now r).2 := by
    show ((if tuneResultIsOk r.answer.tune = false then _ else _ : Task Bool) (askTune now r).2).2 =
      _
    rw [if_pos h]
    rfl
  rw [hrun]
  show (⟨_, _, _, _, _, r.answer.trunkIsTuned, now.hook r.shared⟩ : Settings) = r.settings
  rw [htuned, hhook]
  rfl

/-- The shared tuning state as the tuner finds it when a return is asked of it. -/
def Receiver.withoutP25Cc (r : Receiver) : Receiver :=
  { r with shared := { r.shared with p25CcFreq := 0 } }

/-- A return the tuner is asked for and does not refuse at once. -/
theorem smRelease_pending (now : Instant) (hhonest : now.Honest r) (hasks : return.Asks r)
    (h : r.answer.tune = .pending) :
    (smRelease now r).2.calls.sm.pendingRequestId ≠ 0 ∧
      (smRelease now r).2.putBack = r.withoutP25Cc.settings := by
  obtain ⟨henabled, hcontrol, haway⟩ := hasks
  have hok : tuneResultIsOk r.answer.tune = true := by rw [h]; rfl
  have hrun : (smRelease now r).2 =
      ((onCalls (smSetState (smRestState true r.calls)))
        ((onCalls (modifySm fun sm => { sm with followed := .zero }))
          (smStagePending .return r.answer.requestId (smCapture r.calls) r.shared.toTuneSnapshot
            (askTune now r.withoutP25Cc).2).2).2).2 := by
    show ((if r.calls.around.trunkEnable = false then _ else _ : Task Bool) r).2 = _
    rw [if_neg (by simp [henabled])]
    show ((if r.calls.around.trunkCcFreq ≤ 0 ∨
      r.calls.sm.followed.freqHz = r.calls.around.trunkCcFreq then _ else _ : Task Bool) r).2 = _
    rw [if_neg (by simp [haway, hcontrol])]
    show ((if tuneResultIsOk r.answer.tune = false then _ else _ : Task Bool)
      (askTune now r.withoutP25Cc).2).2 = _
    rw [if_neg (by simp [hok])]
    show ((if r.answer.tune = .pending then _ else _ : Task Bool)
      (askTune now r.withoutP25Cc).2).2 = _
    rw [if_pos h]
    rfl
  rw [hrun]
  have hcc : (now.hook r.withoutP25Cc.shared).p25CcFreq = 0 := hhonest.p25CcFreq _
  constructor
  · exact hhonest.requestId h
  · show (⟨_, _, _, _, _, _, { r.shared.toTuneSnapshot with
      p25CcFreq := (now.hook r.withoutP25Cc.shared).p25CcFreq }⟩ : Settings) =
        r.withoutP25Cc.settings
    rw [hcc]
    rfl

theorem smRelease_refused (now : Instant) (hhonest : now.Honest r) (hasks : return.Asks r)
    (h : tuneResultIsOk r.answer.tune = false) : (smRelease now r).2.settings = r.settings := by
  obtain ⟨henabled, hcontrol, haway⟩ := hasks
  obtain ⟨hhook, htuned⟩ := hhonest.refused h
  have hrun : (smRelease now r).2 =
      ((modifyShared fun s => { s with p25CcFreq := r.shared.p25CcFreq })
        (askTune now r.withoutP25Cc).2).2 := by
    show ((if r.calls.around.trunkEnable = false then _ else _ : Task Bool) r).2 = _
    rw [if_neg (by simp [henabled])]
    show ((if r.calls.around.trunkCcFreq ≤ 0 ∨
      r.calls.sm.followed.freqHz = r.calls.around.trunkCcFreq then _ else _ : Task Bool) r).2 = _
    rw [if_neg (by simp [haway, hcontrol])]
    show ((if tuneResultIsOk r.answer.tune = false then _ else _ : Task Bool)
      (askTune now r.withoutP25Cc).2).2 = _
    rw [if_pos h]
    rfl
  rw [hrun]
  show (⟨_, _, _, _, _, r.answer.trunkIsTuned,
    { now.hook r.withoutP25Cc.shared with p25CcFreq := r.shared.p25CcFreq }⟩ : Settings) =
      r.settings
  rw [htuned, hhook]
  rfl

/-- What a request left in flight will put back. -/
theorem make_pending (now : Instant) (q : Request) (hhonest : now.Honest r) (hasks : q.Asks r)
    (h : r.answer.tune = .pending) :
    (q.make now r).2.calls.sm.pendingRequestId ≠ 0 ∧
      (q.make now r).2.putBack =
        match q with | .grant _ => r.settings | .return => r.withoutP25Cc.settings := by
  cases q with
  | grant g => exact smTuneGrant_pending now g hhonest h
  | «return» => exact smRelease_pending now hhonest hasks h

theorem make_refused (now : Instant) (q : Request) (hhonest : now.Honest r) (hasks : q.Asks r)
    (h : tuneResultIsOk r.answer.tune = false) : (q.make now r).2.settings = r.settings := by
  cases q with
  | grant g => exact smTuneGrant_refused now g hhonest h
  | «return» => exact smRelease_refused now hhonest hasks h

/-- The return is left in flight while another protocol's control channel is set. -/
def LosesP25Cc (q : Request) (r : Receiver) : Prop :=
  q = .return ∧ q.Asks r ∧ r.answer.tune = .pending ∧ r.shared.p25CcFreq ≠ 0

theorem settings_withoutP25Cc_iff :
    r.withoutP25Cc.settings = r.settings ↔ r.shared.p25CcFreq = 0 := by
  constructor
  · intro h
    exact (congrArg (fun s => s.shared.p25CcFreq) h).symm
  · intro h
    have hshared : ({ r.shared with p25CcFreq := 0 } : Shared) = r.shared := by rw [← h]
    rw [Receiver.settings, Receiver.settings]
    show (⟨_, _, _, _, _, _, { r.shared with p25CcFreq := 0 }⟩ : Settings) = _
    rw [hshared]
    rfl

/-- Whatever the decoder does meanwhile, a request of the tuner that does not happen leaves every
setting as it was, but for a return left in flight that clears the P25 control channel. -/
theorem unmade_undone_iff (now : Instant) (q : Request) (r : Receiver) (hhonest : now.Honest r) :
    (∀ r', Unmade now q r r' → r'.settings = r.settings) ↔ ¬LosesP25Cc q r := by
  constructor
  · rintro h ⟨rfl, hasks, hpending, hcc⟩
    obtain ⟨hrequest, hback⟩ := make_pending now .return hhonest hasks hpending
    -- The tuner's answer is all that has to change for the failure to be settled next.
    let failed : Receiver :=
      { (return.make now r).2 with
        calls := { (return.make now r).2.calls with
          answers := fun _ => { r.answer with status := .failed } } }
    have hheld : Held (return.make now r).2 failed := ⟨rfl, rfl, rfl⟩
    have hfails : failed.Fails :=
      ⟨by simp [failed, Receiver.answer], by simp [failed, Receiver.answer]⟩
    have hundone := h _ (.failed hasks hpending now
      (.single (.elsewhere hheld.1 hheld.2 hheld.3)) hfails)
    rw [settings_smSettlePending_of_fails (r := failed) now hrequest hfails, hheld.putBack, hback]
      at hundone
    exact hcc (settings_withoutP25Cc_iff.mp hundone)
  · intro h r' hunmade
    cases hunmade with
    | refused hasks hrefused => exact make_refused now q hhonest hasks hrefused
    | failed hasks hpending later hmeanwhile hfails =>
      obtain ⟨hrequest, hback⟩ := make_pending now q hhonest hasks hpending
      have hheld := held_of_meanwhile hmeanwhile hrequest
      rw [settings_smSettlePending_of_fails later (by rw [hheld.sm]; exact hrequest) hfails,
        hheld.putBack, hback]
      cases q with
      | grant g => rfl
      | «return» =>
        apply settings_withoutP25Cc_iff.mpr
        by_contra hcc
        exact h ⟨rfl, hasks, hpending, hcc⟩

/-- What the tuner answers to a return that stays in flight and fails. -/
def failingReturn : Answer where
  nowM := 20
  slotActive := false
  keyUsable _ := false
  decision := none
  shouldPreempt := false
  speechMuted := false
  tune := .pending
  requestId := 1
  trunkIsTuned := false
  status := .failed
  completedM := 0

/-- The engine's return lets go of the traffic channel. -/
def engineReturn : Instant where
  wall := 20
  nowM := 20
  hook s :=
    { s with
      p25VcFreq := fun _ => 0
      trunkVcFreq := fun _ => 0
      lastVcSyncTime := 0
      lastVcSyncTimeM := 0
      lastCcSyncTime := 20
      lastCcSyncTimeM := 20 }

/-- A call followed on a traffic channel at 391 MHz, of a control channel at 390 MHz. -/
def onTraffic (p25CcFreq : ℤ) : Receiver where
  calls := { State.init
      { trunkEnable := true
        trunkIsTuned := true
        trunkTuneEncCalls := false
        trunkHangtime := 1
        trunkCcFreq := 390000000
        tunedFreqHz := 391000000
        rxTunedHz := 391000000
        tdmaValid := false
        tn := 0
        controlFrame := false
        uplink := false
        dmo := false
        network := none
        freqBand := 3
        freqOffset := 0 }
      (fun _ => failingReturn) with
    sm := { Sm.zero with
      followed := ⟨391000000, 3640, 0b0100, 7⟩
      tTuneM := 10
      tVoiceM := 12
      state := .tuned } }
  shared :=
    { p25VcFreq := fun _ => 391000000
      trunkVcFreq := fun _ => 391000000
      lastVcSyncTime := 12
      lastVcSyncTimeM := 12
      lastCcSyncTime := 10
      lastCcSyncTimeM := 10
      p25LastVcTuneTime := 10
      p25LastVcTuneTimeM := 10
      p25CcFreq := p25CcFreq }
  pendingTuning := ⟨fun _ => 0, fun _ => 0, 0, 0, 0, 0, 0, 0⟩

theorem honest_engineReturn (p25CcFreq : ℤ) : engineReturn.Honest (onTraffic p25CcFreq) where
  refused h := by
    have hok : tuneResultIsOk failingReturn.tune = true := by decide
    exact absurd (hok.symm.trans h) (by simp)
  p25CcFreq _ := rfl
  requestId _ := by
    have hid : failingReturn.requestId ≠ 0 := by decide
    exact hid

/-- The return asked for, left in flight, and settled as failed. -/
def failedReturn (p25CcFreq : ℤ) : Receiver :=
  (smSettlePending engineReturn (return.make engineReturn (onTraffic p25CcFreq)).2).2

theorem unmade_failedReturn (p25CcFreq : ℤ) :
    Unmade engineReturn .return (onTraffic p25CcFreq) (failedReturn p25CcFreq) := by
  have hasks : return.Asks (onTraffic p25CcFreq) := by
    refine ⟨rfl, ?_, ?_⟩ <;> simp [onTraffic, State.init]
  exact .failed hasks rfl engineReturn .refl ⟨nofun, nofun⟩

/-- With no control channel of P25 set, the call is followed again as it was. -/
theorem failedReturn_undone : (failedReturn 0).settings = (onTraffic 0).settings :=
  (unmade_undone_iff engineReturn .return (onTraffic 0) (honest_engineReturn 0)).mpr
    (fun hloses => hloses.2.2.2 rfl) _ (unmade_failedReturn 0)

/-- With one set, it is lost. -/
theorem failedReturn_loses_p25Cc :
    Unmade engineReturn .return (onTraffic 851012500) (failedReturn 851012500) ∧
      (onTraffic 851012500).shared.p25CcFreq = 851012500 ∧
      (failedReturn 851012500).shared.p25CcFreq = 0 ∧
      (failedReturn 851012500).settings ≠ (onTraffic 851012500).settings := by
  have hbefore : (onTraffic 851012500).shared.p25CcFreq = 851012500 := rfl
  have hafter : (failedReturn 851012500).shared.p25CcFreq = 0 := rfl
  refine ⟨unmade_failedReturn _, hbefore, hafter, fun heq => ?_⟩
  have hcc := congrArg (fun s => s.shared.p25CcFreq) heq
  simp only [Receiver.settings, hbefore, hafter] at hcc
  cases hcc

end DsdNeo.Tetra.TrunkTuning
