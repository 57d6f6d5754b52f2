import DsdNeo.Models.Tetra.TrunkSm
import Mathlib.Data.Fintype.Basic

/-!
# The tuning state TETRA shares

`tetra_trunk_sm.c` once more, with the tuning state it shares with the engine and the other
protocols: what a follow claims of it, what a tune keeps of it to put back, and what the return to
the control channel clears.
-/

namespace DsdNeo.Tetra.TrunkTuning

open Calls Program
open Tuning (TuneResult)

/-- `tetra_sm_tune_snapshot`, the tuned flag apart. -/
structure TuneSnapshot where
  p25VcFreq : Fin 2 → ℤ
  trunkVcFreq : Fin 2 → ℤ
  lastVcSyncTime : ℤ
  lastVcSyncTimeM : ℚ
  lastCcSyncTime : ℤ
  lastCcSyncTimeM : ℚ
  p25LastVcTuneTime : ℤ
  p25LastVcTuneTimeM : ℚ
  deriving DecidableEq

/-- The shared tuning state, the tuned flag apart. -/
structure Shared extends TuneSnapshot where
  p25CcFreq : ℤ
  deriving DecidableEq

/-- TETRA with the tuning state it shares, and what the request in flight puts back of that. -/
structure Receiver where
  calls : State
  shared : Shared
  pendingTuning : TuneSnapshot

/-- What the clocks show at one instant, and what the tuner does to the shared tuning state if it
is asked then. -/
structure Instant where
  wall : ℤ
  nowM : ℚ
  hook : Shared → Shared

/-- Programs over the calls and the shared tuning state. -/
abbrev Task := StateM Receiver

/-- What is done to the calls. -/
def onCalls {α : Type} (m : Prog α) : Task α :=
    fun r => ((m r.calls).1, { r with calls := (m r.calls).2 })

/-- What is done to the shared tuning state. -/
def modifyShared (f : Shared → Shared) : Task Unit :=
    modify fun r => { r with shared := f r.shared }

/-- `sm_stamp_tuned`. -/
def smStampTuned (now : Instant) (atM : ℚ) : Task Unit :=
  modifyShared fun s =>
    { s with
      lastVcSyncTime := now.wall
      lastVcSyncTimeM := atM
      lastCcSyncTime := now.wall
      lastCcSyncTimeM := atM
      p25LastVcTuneTime := now.wall
      p25LastVcTuneTimeM := atM }

/-- `dsd_mark_vc_sync`. -/
def markVcSync (now : Instant) : Task Unit :=
  modifyShared fun s => { s with lastVcSyncTime := now.wall, lastVcSyncTimeM := now.nowM }

/-- `dsd_mark_cc_sync`. -/
def markCcSync (now : Instant) : Task Unit :=
  modifyShared fun s => { s with lastCcSyncTime := now.wall, lastCcSyncTimeM := now.nowM }

/-- `sm_claim_shared_tuning`. -/
def smClaimSharedTuning (freqHz : ℤ) : Task Unit := do
  onCalls (setTrunkIsTuned true)
  modifyShared fun s => { s with trunkVcFreq := fun _ => freqHz, p25VcFreq := fun _ => freqHz }

/-- `sm_release_shared_tuning`. -/
def smReleaseSharedTuning : Task Unit := do
  onCalls (setTrunkIsTuned false)
  modifyShared fun s => { s with trunkVcFreq := fun _ => 0, p25VcFreq := fun _ => 0 }

/-- `sm_stage_pending`. -/
def smStagePending (kind : Pending) (requestId : BitVec 64) (prev : Rollback)
    (tuning : TuneSnapshot) : Task Unit := do
  onCalls (Calls.smStagePending kind requestId prev)
  modify fun r => { r with pendingTuning := tuning }

/-- `sm_restore`. -/
def smRestore (prev : Rollback) (tuning : TuneSnapshot) : Task Unit := do
  modifyShared fun s => { tuning with p25CcFreq := s.p25CcFreq }
  onCalls (Calls.smRestore prev)

/-- `sm_grant_tune_completed`. -/
def smGrantTuneCompleted (now : Instant) (completedM : ℚ) : Task Unit := do
  onCalls (setTrunkIsTuned true)
  let a ← onCalls ask
  let tTuneM := if 0 < completedM then completedM else a.nowM
  onCalls (modifySm fun sm => { sm with tTuneM := tTuneM })
  smStampTuned now tTuneM
  onCalls forgetCarrier
  onCalls callsFollowedMoved

/-- `sm_return_completed`. -/
def smReturnCompleted : Task Unit := onCalls Calls.smReturnCompleted

/-- The tune or return that was in flight completed. -/
def smCompleted (now : Instant) (kind : Pending) (completedM : ℚ) : Task Unit :=
  if kind = .grant then smGrantTuneCompleted now completedM else smReturnCompleted

/-- `sm_settle_pending`. -/
def smSettlePending (now : Instant) : Task Bool := do
  let r ← get
  if r.calls.sm.pendingRequestId = 0 then pure true
  else
    let a ← onCalls ask
    if a.status = .pending then pure false
    else
      onCalls smDisownPending
      if a.status = .ok then
        smCompleted now r.calls.sm.pendingKind a.completedM
        pure true
      else
        smRestore r.calls.sm.pendingPrev r.pendingTuning
        pure true

/-- `sm_settle_at_entry`. -/
def smSettleAtEntry (now : Instant) : Task Bool := do
  let r ← get
  if r.calls.confirm.burstOpen then pure (r.calls.sm.pendingRequestId = 0) else smSettlePending now

/-- A tune or return asked of the tuner. -/
def askTune (now : Instant) : Task Answer := do
  let a ← onCalls Calls.askTune
  modifyShared now.hook
  pure a

/-- `sm_release`. -/
def smRelease (now : Instant) : Task Bool := do
  let r ← get
  if r.calls.around.trunkEnable = false then pure false
  else if r.calls.around.trunkCcFreq ≤ 0 ∨
      r.calls.sm.followed.freqHz = r.calls.around.trunkCcFreq then
    smReleaseSharedTuning
    onCalls smUnfollow
    onCalls (smSetState (smRestState true r.calls))
    pure true
  else
    modifyShared fun s => { s with p25CcFreq := 0 }
    let a ← askTune now
    if tuneResultIsOk a.tune = false then
      modifyShared fun s => { s with p25CcFreq := r.shared.p25CcFreq }
      pure false
    else if a.tune = .pending then
      smStagePending .return a.requestId (smCapture r.calls) r.shared.toTuneSnapshot
      onCalls (modifySm fun sm => { sm with followed := .zero })
      onCalls (smSetState (smRestState true r.calls))
      pure true
    else
      smReturnCompleted
      onCalls (smSetState (smRestState true r.calls))
      pure true

/-- `sm_follow_here`. -/
def smFollowHere (now : Instant) (g : Grant) : Task Bool := do
  let r ← get
  if r.calls.sm.state = .tuned ∧ smSameCall r.calls.sm g then
    onCalls <| onlyIf (r.calls.sm.followed.callId = 0) <|
      modifySm fun sm => { sm with followed := { sm.followed with callId := g.callId } }
    pure false
  else
    onCalls (smFollow g)
    let a ← onCalls ask
    onCalls (modifySm fun sm => { sm with tTuneM := a.nowM })
    if r.calls.sm.state ≠ .tuned then
      smClaimSharedTuning g.freqHz
      smStampTuned now a.nowM
    onCalls confirmNoteFollowedCall
    onCalls (smSetState .tuned)
    pure true

/-- `sm_tune_grant`. -/
def smTuneGrant (now : Instant) (g : Grant) : Task Bool := do
  let r ← get
  let a ← askTune now
  if tuneResultIsOk a.tune = false then pure false
  else
    onCalls (smFollow g)
    onCalls (smSetState .tuned)
    if a.tune = .pending then
      smStagePending .grant a.requestId (smCapture r.calls) r.shared.toTuneSnapshot
      pure true
    else
      smGrantTuneCompleted now 0
      pure true

/-- `tetra_sm_on_cc_sync`. -/
def smOnCcSync (now : Instant) : Task Unit := do
  if ← smSettleAtEntry now then
    let r ← get
    if r.calls.around.trunkEnable ∧ 0 < r.calls.around.trunkCcFreq ∧ r.calls.sm.state ≠ .tuned then
      markCcSync now
      if r.calls.sm.state = .idle then onCalls (smSetState .onCc)

/-- `tetra_sm_on_grant`. -/
def smOnGrant (now : Instant) (g : Grant) : Task Bool := do
  if ← smSettleAtEntry now then
    let r ← get
    if smGrantFollowable r.calls g then
      if g.freqHz = smReceiverFreq r.calls then smFollowHere now g else smTuneGrant now g
    else pure false
  else pure false

/-- `tetra_sm_on_release`. -/
def smOnRelease (now : Instant) (id : CallId) : Task Unit := do
  if ← smSettleAtEntry now then
    let r ← get
    if r.calls.sm.state = .tuned ∧ r.calls.sm.followed.callId = id then discard (smRelease now)

/-- `tetra_sm_note_voice`. -/
def smNoteVoice (now : Instant) (tn : ℕ) : Task Unit := do
  markVcSync now
  onCalls (Calls.smNoteVoice tn)

/-- `sm_tick_tuned`. -/
def smTickTuned (now : Instant) : Task Unit := do
  let r ← get
  if r.calls.around.trunkIsTuned = false then
    onCalls smUnfollow
    onCalls (smSetState (smRestState true r.calls))
  else if r.calls.around.trunkEnable = false then onCalls smHoldUntrunked
  else
    let a ← onCalls ask
    if 0 < r.calls.sm.tVoiceM then
      if 1 / 4 + max r.calls.around.trunkHangtime 0 ≤ a.nowM - r.calls.sm.tVoiceM then
        discard (smRelease now)
    else if 0 < r.calls.sm.tTuneM ∧ 4 ≤ a.nowM - r.calls.sm.tTuneM then discard (smRelease now)

/-- `sm_tick`. -/
def smTick (now : Instant) : Task Unit := do
  if ← smSettlePending now then
    let r ← get
    if r.calls.sm.state = .onCc ∧ smRestState true r.calls ≠ .onCc then onCalls (smSetState .idle)
    else if r.calls.sm.state = .tuned then smTickTuned now

end DsdNeo.Tetra.TrunkTuning
