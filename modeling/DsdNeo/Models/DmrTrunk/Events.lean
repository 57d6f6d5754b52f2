import DsdNeo.Models.DmrTrunk.Hunt

/-!
# Calls followed and released, ticks and moves

Grants and releases of the DMR machine, its tick, what an operator move tells it, and the
steps of a run: the machine's own, other owners' tunes, the tuning layer's answers and moves.
-/

namespace DsdNeo.DmrTrunk

open Program (onlyIf)
open Tuning (TuneResult)

/-- `dmr_sm_release_without_cc`. -/
def Ctx.releaseWithoutCc (c : Ctx) : Ctx :=
  { c with ccAcquiring := false, ccConfirmed := false, ccTuneRequestId := 0 }

/-- The fields of a followed call cleared. -/
def Ctx.callCleared (c : Ctx) : Ctx :=
  { c with
    slots := fun _ => .quiet
    vcFreqHz := 0
    vcStatusFollow := false
    tTuneM := 0
    tVoiceM := 0
    receiveCheckStartedM := 0
    receiveCheckFreqHz := 0 }

/-- `dmr_sm_clear_released_carrier`. -/
def clearReleasedCarrier (ccReturned : Bool) (next : SmState) : Prog Unit := do
  modifyCtx Ctx.callCleared
  modifyRest fun r => { r with trunkIsTuned := false, trunkVcFreq := 0 }
  onlyIf (ccReturned = false) (modifyCtx Ctx.releaseWithoutCc)
  modifyCtx fun c => c.setState next

/-- `dmr_sm_release_destination`. -/
def releaseDestination (s : State) : ℤ :=
  if s.ctx.vcStatusFollow = true ∧ 1 ≤ s.rest.dmrRestChannel ∧ s.rest.dmrRestChannel ≤ 16 ∧
      0 < s.rest.trunkChanMap s.rest.dmrRestChannel then s.rest.trunkChanMap s.rest.dmrRestChannel
  else if 0 < s.trunkCcFreq then s.trunkCcFreq
  else s.ctx.ccFreqHz

/-- `do_release`. -/
def doRelease : Prog Unit := do
  let s ← get
  modifyRest fun r => { r with trunkSmForceRelease := false }
  if 0 < releaseDestination s then do
    let result ← returnToCc (releaseDestination s)
    if isOk result = false then
      onlyIf (s.rest.trunkSmForceRelease = true)
        (modifyRest fun r => { r with trunkSmForceRelease := true })
    else clearReleasedCarrier true .onCc
  else clearReleasedCarrier false .hunting

/-- `dmr_sm_abandon_carrier`. -/
def abandonCarrier : Prog Unit := do
  modifyRest fun r => { r with trunkSmForceRelease := false }
  clearReleasedCarrier false .onCc

/-- `dmr_sm_event_t` of a grant, without the call's identity; it may name no slot. -/
structure Grant where
  freqHz : ℤ
  lpcn : ℤ
  slot : Option Bool

/-- `dsd_receive_identity_current` of a DMR signal: of a slot, or of the carrier alone. -/
def Rest.identity (r : Rest) (slot : Option Bool) : Receive.Identity where
  value := if r.dmrColorCode ≤ 15 then r.dmrColorCode.setWidth 16 else 0
  kind := .filter .dcc
  known := r.dmrColorCode ≤ 15
  slot :=
    match r.dmrMonoRxSlot, slot with
    | .ts1, _ => 1
    | .ts2, _ => 2
    | .pending, _ => 0
    | .none, some second => if second then 2 else 1
    | .none, none => 0
  slotPending := r.dmrMonoRxSlot = .pending

/-- `dsd_receive_allows`, for a slot of a DMR signal. -/
def Rest.receiveAllows (r : Rest) (slot : Bool) : Bool := r.receive.allows (r.identity (some slot))

/-- `resolve_freq`. -/
def resolveFreq (rest : Rest) (freq lpcn : ℤ) : ℤ :=
  if 0 < freq then freq else if 0 < lpcn ∧ lpcn < 0xFFFF then rest.trunkChanMap lpcn else 0

/-- `lpcn_is_trusted`. -/
def lpcnIsTrusted (s : State) (lpcn : ℤ) : Bool :=
  if lpcn ≤ 0 ∨ 0x1000 ≤ lpcn then true
  else !(s.rest.dmrLcnTrust lpcn < 2 && !(s.trunkCcFreq ≠ 0 && !s.rest.trunkIsTuned))

/-- `dmr_sm_resolve_tunable_grant`. -/
def resolveTunableGrant (s : State) (ev : Grant) : Option ℤ :=
  let freq := resolveFreq s.rest ev.freqHz ev.lpcn
  if s.rest.trunkEnable = false ∨ s.trunkCcFreq = 0 ∨ s.ctx.ccTuneRequestId ≠ 0 then none
  else if s.rest.receive.grantAllows ev.slot = false then none
  else if freq ≤ 0 then none
  else if Receive.carriersReject s.ctx.receiveCarriers s.rest.receive freq = true then none
  else if ev.freqHz ≤ 0 ∧ 0 < ev.lpcn ∧ lpcnIsTrusted s ev.lpcn = false then none
  else if s.ctx.state = .tuned ∧ s.ctx.vcFreqHz = freq then none
  else some freq

/-- The context a followed call leaves. -/
def Ctx.followed (c : Ctx) (freq : ℤ) (statusFollow : Bool) (nowM : ℤ) : Ctx :=
  { c with
    vcFreqHz := freq
    vcStatusFollow := statusFollow
    tTuneM := nowM
    tVoiceM := 0
    ccAcquiring := false
    ccTuneRequestId := 0
    ccTuneSuperseded := false
    slots := fun _ => .quiet }.setState .tuned

/-- The tune of `handle_grant`. -/
def grantTune (freq : ℤ) : Prog Unit := do
  let a ← ask
  let (result, _) ← tuneToFreq freq
  if isOk result = false then pure () else modifyCtx fun c => c.followed freq false a.nowM

/-- `handle_grant`. -/
def handleGrant (ev : Grant) : Prog Unit := do
  noteProtocol
  let s ← get
  match resolveTunableGrant s ev with
  | none => pure ()
  | some freq => do
    onlyIf (s.ctx.ccAcquiring = true ∧ s.rest.trunkIsTuned = false ∧
        s.frameIsCurrent s.ctx.ccRxGeneration = true)
      -- a validated grant on a completed probe proves where to return
      (ccNoteActivityCtx s.ctx.ccProbeFreqHz)
    grantTune freq

/-- `dmr_sm_voice_evidence_m`. -/
def voiceEvidenceM (s : State) (slot : Bool) (nowM : ℤ) : ℤ :=
  let evidenceM := s.rest.dmrConfidenceVoiceM slot
  if s.rest.dmrConfidenceVoiceOpen slot = false then 0
  else if evidenceM ≤ 0 ∨ evidenceM < s.ctx.tTuneM ∨ voiceEvidence < nowM - evidenceM then 0
  else evidenceM

/-- A slot's activity at a time, the time only moving forward. -/
def Slot.at (slot : Slot) (timeM : ℤ) : Slot :=
  ⟨true, if slot.lastActiveM < timeM then timeM else slot.lastActiveM⟩

/-- `dmr_sm_note_voice_evidence`. -/
def noteVoiceEvidence (slot : Bool) (nowM : ℤ) : Prog Unit := do
  let s ← get
  let evidenceM := voiceEvidenceM s slot nowM
  onlyIf (0 < evidenceM) (modifyCtx fun c =>
    { c with
      slots := Function.update c.slots slot ((c.slots slot).at evidenceM)
      tVoiceM := if c.tVoiceM < evidenceM then evidenceM else c.tVoiceM })

/-- `handle_voice_sync`, without the call it publishes. -/
def handleVoiceSync (slot : Bool) : Prog Unit := do
  let s ← get
  let a ← ask
  onlyIf (s.rest.receiveAllows slot = true) (noteVoiceEvidence slot a.nowM)

/-- `handle_data_sync`. -/
def handleDataSync (slot : Bool) : Prog Unit := do
  let s ← get
  let a ← ask
  onlyIf (s.rest.trunkTuneDataCalls = true ∧ s.rest.receiveAllows slot = true) (modifyCtx fun c =>
    { c with slots := Function.update c.slots slot ⟨true, a.nowM⟩, tVoiceM := a.nowM })

/-- Slots that are no longer in voice. -/
def Ctx.silenced (c : Ctx) (p : Bool → Bool) : Ctx :=
  { c with slots := fun slot => if p slot then { c.slots slot with voiceActive := false }
      else c.slots slot }

/-- `handle_release`: of a slot, or of the whole channel. -/
def handleRelease (slot : Option Bool) : Prog Unit := do
  let s ← get
  if s.ctx.state ≠ .tuned then pure ()
  else if s.rest.trunkSmForceRelease then doRelease
  else modifyCtx fun c => c.silenced fun i => slot.all fun one => i = one

/-- `dmr_sm_event_type_e`, with what an event carries. -/
inductive Event where
  | grant (ev : Grant)
  | voiceSync (slot : Bool)
  | dataSync (slot : Bool)
  | release (slot : Option Bool)
  | ccSync
  | syncLost

/-- `dmr_sm_event`, on a context that is initialized. -/
def smEvent : Event → Prog Unit
  | .grant ev => handleGrant ev
  | .voiceSync slot => handleVoiceSync slot
  | .dataSync slot => handleDataSync slot
  | .release slot => handleRelease slot
  | .ccSync => ccNoteHeartbeatCtx
  | .syncLost => pure ()

/-- `tick_on_cc`. -/
def tickOnCc (nowM : ℤ) : Prog Unit := do
  let s ← get
  if s.ctx.ccAcquiring = false ∧ s.ctx.tCcSyncM ≤ 0 then
    modifyCtx fun c => { c with tCcSyncM := nowM }
  else if ccWindowOpen s nowM then pure ()
  else if s.ctx.siteWithoutCc = true ∧ 0 < s.ctx.ccRxFreqHz ∧ s.ctx.ccRxFreqHz = ccAnchor s ∧
      s.frameIsCurrent s.ctx.ccRxGeneration = true then
    modifyCtx fun c => { c with tCcSyncM := nowM, ccAcquiring := false }
  else modifyCtx fun c => { c.setState .hunting with ccWindowLost := true }

/-- A slot silent for too long. -/
def Slot.stale (slot : Slot) (nowM : ℤ) : Bool :=
  slot.voiceActive && decide (0 < slot.lastActiveM) && decide (voiceStale < nowM - slot.lastActiveM)

/-- `clear_stale_voice_slots`. -/
def Ctx.clearStaleVoiceSlots (c : Ctx) (nowM : ℤ) : Ctx :=
  c.silenced fun slot => (c.slots slot).stale nowM

/-- `has_voice_activity`. -/
def Ctx.hasVoiceActivity (c : Ctx) : Bool :=
    (c.slots false).voiceActive || (c.slots true).voiceActive

/-- The latest activity of the active slots. -/
def Ctx.voiceRefreshed (c : Ctx) : Ctx :=
  { c with
    tVoiceM := [false, true].foldl (fun latest slot =>
      if (c.slots slot).voiceActive = true ∧ latest < (c.slots slot).lastActiveM then
        (c.slots slot).lastActiveM else latest) c.tVoiceM }

/-- The context on the channel that is checked: another one starts a window of its own, and its
codes are its own where its tune forgot the control channel's. -/
def Ctx.checking (c : Ctx) (rest : Rest) (freq : ℤ) : Ctx :=
  if freq = c.receiveCheckFreqHz then c
  else
    { c with
      receiveCheckFreqHz := freq
      receiveCheckStartedM := 0
      receiveCodesFresh := decide (freq ≠ 0 ∧ rest.receiveCodesFreshFreq = freq) }

/-- The code `dsd_receive_carriers_note` keeps of a channel. -/
def Rest.verifiedCode (r : Rest) (freq : ℤ) : Option (Receive.FilterKind × BitVec 16) :=
  Receive.carrierCode (r.identity none) freq

/-- The note of the channel's code, written down where there is one. -/
def noteReceiveCarrier (freq : ℤ) : Prog Unit := modify fun s =>
  match s.rest.verifiedCode freq with
  | none => s
  | some code =>
    { s with
      ctx := { s.ctx with receiveCarriers := s.ctx.receiveCarriers.note freq code }
      verified := (freq, code) :: s.verified }

/-- `dmr_sm_receive_check`: whether nothing on the carrier is admitted. -/
def receiveCheck (freq : ℤ) (nowM grantTimeout : ℤ) : Prog Bool := do
  let s ← get
  modifyCtx fun c => c.checking s.rest freq
  let s ← get
  onlyIf (s.ctx.receiveCodesFresh = true) (noteReceiveCarrier freq)
  modifyCtx fun c => c.silenced fun slot => !s.rest.receiveAllows slot
  if s.rest.receiveAllows false = true ∨ s.rest.receiveAllows true = true then do
    modifyCtx fun c => { c with receiveCheckStartedM := 0 }
    pure false
  else do
    modifyCtx fun c =>
      { c with receiveCheckStartedM :=
          if c.receiveCheckStartedM ≤ 0 then nowM else c.receiveCheckStartedM }
    let s ← get
    onlyIf (grantTimeout ≤ nowM - s.ctx.receiveCheckStartedM) do
      modifyCtx fun c => { c with receiveCheckStartedM := 0 }
      doRelease
    pure true

/-- The end of `tick_tuned`: the deadlines of an admitted call. -/
def tickDeadlines (nowM hangtime grantTimeout : ℤ) : Prog Unit := do
  modifyCtx fun c => c.clearStaleVoiceSlots nowM
  let s ← get
  if s.ctx.hasVoiceActivity then modifyCtx Ctx.voiceRefreshed
  else if 0 < s.ctx.tVoiceM ∧ hangtime ≤ nowM - s.ctx.tVoiceM then doRelease
  else onlyIf (s.ctx.tVoiceM ≤ 0 ∧ 0 < s.ctx.tTuneM ∧ grantTimeout ≤ nowM - s.ctx.tTuneM) doRelease

/-- `tick_tuned`. -/
def tickTuned (nowM hangtime grantTimeout : ℤ) : Prog Unit := do
  let s ← get
  if s.rest.trunkSmForceRelease then doRelease
  else do
    let rejected ← receiveCheck s.ctx.vcFreqHz nowM grantTimeout
    if rejected then pure () else tickDeadlines nowM hangtime grantTimeout

/-- `dmr_sm_tick_not_admitted`. -/
def tickNotAdmitted : Prog Unit := do
  let s ← get
  let a ← ask
  if s.ctx.coldStartHunt then do
    let _ ← coldStartGate a.nowM false
    pure ()
  else modifyCtx fun c => { c with coldStartArmedM := 0 }

/-- `dmr_sm_tick_ready` past a startup hunt's gate. -/
def tickSettled (nowM : ℤ) : Prog Bool := do
  let unsettled ← settleAfterMove nowM
  if unsettled then pure false else ccResolvePending nowM

/-- `dmr_sm_tick_ready`. -/
def tickReady (nowM : ℤ) : Prog Bool := do
  let s ← get
  if s.ctx.coldStartHunt then do
    let goesOn ← coldStartGate nowM false
    if goesOn then tickSettled nowM else pure false
  else tickSettled nowM

/-- The work of `dmr_sm_tick_ctx` in each state. -/
def tickState (nowM hangtime grantTimeout : ℤ) : Prog Unit := do
  let s ← get
  match s.ctx.state with
  | .idle => tickIdleColdStart nowM
  | .onCc =>
    if s.rest.trunkIsTuned = false then tickOnCc nowM
    else do
      -- a voice channel another path tuned itself is judged as a followed grant's
      let _ ← receiveCheck s.rest.trunkVcFreq nowM grantTimeout
      pure ()
  | .tuned => tickTuned nowM hangtime grantTimeout
  | .hunting => ccHunt nowM

/-- `dmr_sm_tick_ctx`, on a context that is initialized. -/
def tickCtx : Prog Unit := do
  let s ← get
  let a ← ask
  if a.recoveryAllowed = false then tickNotAdmitted
  else do
    let ready ← tickReady a.nowM
    if ready then tickState a.nowM s.ctx.hangtimeS s.ctx.grantTimeoutS else pure ()

/-- The context listening on the frequency an operator moved to. -/
def Ctx.moved (c : Ctx) (nowM : ℤ) : Ctx :=
  { c with
    ccRxFreqHz := 0
    ccRxGeneration := 0
    ccProbeFreqHz := 0
    ccAcquiring := false
    ccAcquireStartM := 0
    ccRetryAfterM := 0
    ccMovedM := nowM
    tCcSyncM := nowM
    ccTuneSuperseded := true
    ccSettleWaited := false }.setState .onCc

/-- `dmr_sm_cold_start_note_retune`, on a context that is initialized. -/
def coldStartNoteRetune : Prog Unit := do
  let a ← ask
  modifyCtx fun c => { c with rxSeenHz := 0, rxSeenGeneration := 0, rxQueryRetryM := 0 }
  let s ← get
  if s.ctx.coldStartHunt then
    modifyCtx fun c =>
      { c with
        coldStartArmedM := a.nowM
        coldStartParkPending := some .keeping
        ccProbeFreqHz := 0
        ccRxFreqHz := 0 }
  else if s.ctx.state = .idle then
    modifyCtx fun c =>
      { c with coldStartArmedM := if 0 < c.coldStartArmedM then a.nowM else c.coldStartArmedM }
  -- trunk scan moves the receiver itself and restarts each target it parks
  else if s.rest.trunkScanEnabled then pure ()
  else do
    onlyIf (s.ctx.state = .tuned) abandonCarrier
    modifyCtx fun c => c.moved a.nowM

/-- `dmr_sm_note_status_follow`. -/
def noteStatusFollow (freq : ℤ) : Prog Unit := do
  let a ← ask
  onlyIf (0 < freq) (modifyCtx fun c => c.followed freq true a.nowM)

/-- A step of a run. -/
inductive Op where
  | tick
  | event (ev : Event)
  /-- Control decoded from a frame of a generation. -/
  | noteCcActivity (generation : ℕ) (freq : ℤ)
  | noteCcHeartbeat (generation : ℕ)
  | noteXptSite (generation : ℕ)
  | noteStatusFollow (freq : ℤ)
  | returnToCc (freq : ℤ)
  | abandonCarrier
  /-- Another owner tunes through the hooks, its hook staging the alias or not. -/
  | otherTune (freq : ℤ) (staged : Option ℤ)
  /-- The backend or an owner answers the tuning layer. -/
  | answer (call : Tuning.Call)
  /-- The operator moves the receiver. -/
  | operatorMove (freq : ℤ)
  /-- The rest of the decoder goes on. -/
  | outside (rest : Rest)

/-- A note of a frame, delivered while the frame's generation is current. -/
def delivered (generation : ℕ) (m : Prog Unit) : Prog Unit := do
  let s ← get
  onlyIf (s.frameIsCurrent generation = true) m

/-- The alias another owner's hook stages. -/
def stage (staged : Option ℤ) : Prog Unit :=
  match staged with
  | none => pure ()
  | some freq => setTrunkCcFreq freq

/-- What a step runs. -/
def Op.program : Op → Prog Unit
  | .tick => tickCtx
  | .event ev => smEvent ev
  | .noteCcActivity generation freq => delivered generation (DmrTrunk.noteCcActivity freq)
  | .noteCcHeartbeat generation => delivered generation DmrTrunk.noteCcHeartbeat
  | .noteXptSite generation => delivered generation DmrTrunk.noteXptSite
  | .noteStatusFollow freq => DmrTrunk.noteStatusFollow freq
  | .returnToCc freq => do
    let _ ← DmrTrunk.returnToCc freq
    pure ()
  | .abandonCarrier => DmrTrunk.abandonCarrier
  | .otherTune freq staged => do
    let _ ← hookTune freq (stage staged)
    pure ()
  | .answer call => onlyIf (call ≠ .begin) (layer call)
  | .operatorMove freq => do
    modify fun s => { s with receiver := freq }
    coldStartNoteRetune
  | .outside rest => modifyRest fun _ => rest

/-- The state after a step. -/
def Op.apply (op : Op) (s : State) : State := (op.program s).2

/-- The state after a run. -/
def run (s : State) (ops : List Op) : State := ops.foldl (fun s op => op.apply s) s

end DsdNeo.DmrTrunk
