import DsdNeo.Models.Tetra.CallTable

/-!
# The TETRA trunking state machine

`tetra_trunk_sm.c`, with the publication of the followed call that it reaches: a follow, a
tune or return in flight and what it puts back when it fails.
-/

namespace DsdNeo.Tetra.Calls

open Program (onlyIf)
open Tuning (TuneResult)

/-- `calls_carrying`. -/
def callsCarrying (pub : Published) : Prog Bool := do
  let s ← get
  if s.published = pub then pure (← ask).slotActive else pure false

/-- `calls_publish`. -/
def callsPublish (pub : Published) : Prog Unit := do
  let s ← get
  onlyIf (s.published ≠ pub) callsEndPublished
  modify fun s => { s with published := pub }

/-- `calls_publish_call`. -/
def callsPublishCall (c : Fin 8) : Prog Unit := do
  let s ← get
  callsPublish (.call (s.call c).callId)

/-- `calls_publish_followed`. -/
def callsPublishFollowed : Prog Unit := do
  let s ← get
  match smFollowed s with
  | none => pure ()
  | some g =>
    if s.sm.pendingRequestId ≠ 0 then pure ()
    else
      match callsFind s g.callId with
      | none => pure ()
      | some c => if (s.call c).phase = .ceased then pure () else callsPublishCall c

/-- `calls_sync_published`. -/
def callsSyncPublished (c : Fin 8) : Prog Unit := do
  let s ← get
  if ← callsCarrying (.call (s.call c).callId) then
    if smFollowedCallId s = some (s.call c).callId then callsPublishFollowed
    else callsPublishCall c

/-- Slot 0 ends where it carries trunked mode speech. -/
def callsEndTrunked : Prog Unit := do
  let s ← get
  match s.published with
  | .call _ => callsEndPublished
  | .anon _ => callsEndPublished
  | _ => pure ()

/-- `tetra_calls_unfollowed`. -/
def callsUnfollowed : Prog Unit := callsEndTrunked

/-- `tetra_calls_followed_moved`. -/
def callsFollowedMoved : Prog Unit := do
  let s ← get
  match (smFollowedCallId s).bind (callsFind s) with
  | none => callsEndTrunked
  | some c =>
    if ← callsCarrying (.call (s.call c).callId) then callsSyncPublished c
    else callsEndTrunked

/-- `calls_forget_carrier_speech`. -/
def callsForgetCarrierSpeech : Prog Unit :=
  modify fun s => { s with slotEnc := fun _ => 0, heard := false, held := false, heardCall := none }

/-- `tetra_calls_forget_carrier`. -/
def callsForgetCarrier : Prog Unit := do
  callsForgetCarrierSpeech
  modify fun s => { s with dmoActive := false, dmoSeenM := 0 }

/-- `tetra_confirm_reset`. -/
def confirmReset : Prog Unit :=
  modifyConfirm fun c =>
    { c with
      signallingBlocks := 0
      carrierBlocks := 0
      carrierEpoch := c.carrierEpoch + 1
      followedCall := false
      burstStale := c.burstOpen }

/-- `tetra_forget_carrier`. -/
def forgetCarrier : Prog Unit := do
  confirmReset
  modify fun s =>
    { s with around := { s.around with rxTunedHz := 0, tdmaValid := false, dmo := false } }
  callsForgetCarrier

/-- `sm_set_state`. -/
def smSetState (next : SmState) : Prog Unit := modifySm fun sm => { sm with state := next }

/-- `sm_rest_state`. -/
def smRestState (opts : Bool) (s : State) : SmState :=
  if opts ∧ s.around.trunkEnable ∧ 0 < s.around.trunkCcFreq then .onCc else .idle

/-- `sm_capture`. -/
def smCapture (s : State) : Rollback where
  trunkIsTuned := s.around.trunkIsTuned
  followed := s.sm.followed
  tTuneM := s.sm.tTuneM
  tVoiceM := s.sm.tVoiceM
  confirmEpoch := s.confirm.carrierEpoch
  followedProven := s.confirm.followedCall
  followedRetired := s.sm.followedRetired
  state := s.sm.state

/-- `tetra_confirm_restore_followed_call`. -/
def confirmRestoreFollowedCall (epoch : BitVec 32) (proven : Bool) : Prog Unit :=
  modifyConfirm fun c => if c.carrierEpoch = epoch then { c with followedCall := proven } else c

/-- `sm_restore`. -/
def smRestore (r : Rollback) : Prog Unit := do
  setTrunkIsTuned r.trunkIsTuned
  modifySm fun sm =>
    { sm with
      followed := r.followed
      followedRetired := r.followedRetired
      tTuneM := r.tTuneM
      tVoiceM := r.tVoiceM }
  confirmRestoreFollowedCall r.confirmEpoch r.followedProven
  smSetState r.state

/-- `sm_follow`. -/
def smFollow (g : Grant) : Prog Unit := do
  modifySm fun sm =>
    { sm with followed := g, followedRetired := false, tTuneM := 0, tVoiceM := 0 }
  confirmForgetFollowedCall

/-- `sm_unfollow`. -/
def smUnfollow : Prog Unit := do
  modifySm fun sm => { sm with followed := .zero, tTuneM := 0, tVoiceM := 0 }
  confirmForgetFollowedCall
  callsUnfollowed

/-- `tetra_sm_disown_pending`. -/
def smDisownPending : Prog Unit :=
  modifySm fun sm => { sm with pendingRequestId := 0, pendingKind := .none }

/-- `sm_stage_pending`. -/
def smStagePending (kind : Pending) (requestId : BitVec 64) (prev : Rollback) : Prog Unit :=
  modifySm fun sm =>
    { sm with pendingPrev := prev, pendingRequestId := requestId, pendingKind := kind }

/-- `sm_return_completed`. -/
def smReturnCompleted : Prog Unit := do
  setTrunkIsTuned false
  smUnfollow
  forgetCarrier

/-- A tune or return asked of the tuner. -/
def askTune : Prog Answer := do
  let a ← ask
  setTrunkIsTuned a.trunkIsTuned
  pure a

/-- `dsd_trunk_tune_result_is_ok`. -/
def tuneResultIsOk (r : TuneResult) : Bool := r = .ok ∨ r = .pending

/-- `sm_same_call`. -/
def smSameCall (sm : Sm) (g : Grant) : Bool :=
  decide (sm.followedRetired = false ∧ sm.followed.freqHz = g.freqHz ∧
    sm.followed.timeslots = g.timeslots ∧
    (sm.followed.callId = 0 ∨ g.callId = 0 ∨ sm.followed.callId = g.callId))

/-- `tetra_sm_receiver_freq`. -/
def smReceiverFreq (s : State) : ℤ :=
  if s.sm.pendingRequestId ≠ 0 then 0
  else if s.sm.state = .tuned then s.sm.followed.freqHz
  else s.around.tunedFreqHz

/-- `sm_grant_followable`. -/
def smGrantFollowable (s : State) (g : Grant) : Bool :=
  decide (s.around.trunkEnable = true ∧ 0 < s.around.trunkCcFreq ∧ 0 < g.freqHz ∧
    s.confirm.signallingBlocks ≠ 0)

/-- The bit of a timeslot in an allocation's bitmap. -/
def slotBit (tn : ℕ) : BitVec 4 := if 1 ≤ tn ∧ tn ≤ 4 then 1 <<< (4 - tn) else 0

/-- `tetra_sm_note_voice`. -/
def smNoteVoice (tn : ℕ) : Prog Unit := do
  let s ← get
  if s.sm.state = .tuned ∧ s.sm.pendingRequestId = 0 ∧ s.sm.followed.timeslots &&&
    slotBit tn ≠ 0 then
    let a ← ask
    modifySm fun sm => { sm with tVoiceM := a.nowM }

/-- `sm_hold_untrunked`. -/
def smHoldUntrunked : Prog Unit := do
  let s ← get
  if s.sm.followedRetired = false then
    modifySm fun sm => { sm with followedRetired := true }
    confirmForgetFollowedCall

end DsdNeo.Tetra.Calls
