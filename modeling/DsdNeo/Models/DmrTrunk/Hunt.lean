import DsdNeo.Models.DmrTrunk.Machine

/-!
# Notes of control and the hunt for it

The startup hunt, the settle after an operator move, what decoded control says of where
the receiver is, and the probe of one candidate after another.
-/

namespace DsdNeo.DmrTrunk

open Program (onlyIf)

/-- `dmr_sm_cold_start_clear`. -/
def Ctx.coldStartClear (c : Ctx) : Ctx :=
  { c with coldStartArmedM := 0, coldStartHunt := false, coldStartParkPending := none }

/-- `dmr_sm_hunt_eligible`. -/
def huntEligible (s : State) (a : Answer) : Bool :=
  if s.ctx.siteWithoutCc then false
  else if a.coldStartEligible then true
  else s.rest.recoveryProtocol = .dmr && !s.ctx.ccConfirmed && a.dmrHuntEligible

/-- `dmr_sm_cold_start_window_expired`. -/
def coldStartWindowExpired (s : State) (nowM : ℤ) : Bool :=
  let startM := if s.ctx.coldStartArmedM < s.rest.dmrConfidenceLockM then s.rest.dmrConfidenceLockM
    else s.ctx.coldStartArmedM
  decide (s.ctx.ccGraceS < nowM - startM)

/-- `dmr_sm_cold_start_park_now`. -/
def coldStartParkNow (keepWindow : Bool) : Prog Unit :=
  modifyCtx fun c =>
    { c with
      ccTuneRequestId := 0
      ccAcquiring := false
      ccProbeFreqHz := 0
      ccRxFreqHz := 0
      ccRetryAfterM := 0
      coldStartArmedM := if keepWindow then c.coldStartArmedM else 0
      coldStartHunt := false
      coldStartParkPending := none }.setState .idle

/-- The settle tune of `dmr_sm_settle_step`. -/
def settleTune (nowM : ℤ) : Prog Unit := do
  let freq ← ccTunerFrequency
  let s ← get
  if 0 < freq then do
    let (result, requestId) ← tuneToCc freq
    setTrunkCcFreq s.trunkCcFreq
    onlyIf (isOk result = true) (modifyCtx fun c =>
      { c with
        ccProbeFreqHz := freq
        ccTuneRequestId := requestId
        ccTuneDeadlineM := nowM + ccTuneTimeout })
  else pure ()

/-- The rest of `dmr_sm_settle_step`, with no tracked tune in flight. -/
def settleFailure (nowM : ℤ) : Prog Bool := do
  let s ← get
  if s.pendingRequest = 0 then pure false
  else if s.status s.pendingRequest = .pending then pure true
  else do
    settleTune nowM
    pure true

/-- `dmr_sm_settle_step`. -/
def settleStep (nowM : ℤ) : Prog Bool := do
  let s ← get
  if s.ctx.ccTuneRequestId ≠ 0 then do
    let _ ← ccResolvePending nowM
    let s ← get
    if s.ctx.ccTuneRequestId ≠ 0 then pure true else settleFailure nowM
  else settleFailure nowM

/-- `dmr_sm_cold_start_settle`. -/
def coldStartSettle (nowM : ℤ) (keepWindow : Bool) : Prog Unit := do
  modifyCtx fun c =>
    { c with coldStartParkPending := some (if keepWindow then .keeping else .unarmed) }
  let unsettled ← settleStep nowM
  if unsettled then pure () else coldStartParkNow keepWindow

/-- `dmr_sm_settle_after_move`. -/
def settleAfterMove (nowM : ℤ) : Prog Bool := do
  let s ← get
  if s.ctx.ccTuneSuperseded = false then pure false
  else do
    let unsettled ← settleStep nowM
    if unsettled then do
      modifyCtx fun c => { c with ccSettleWaited := true }
      pure true
    else do
      modifyCtx fun c =>
        { c with
          tCcSyncM := if c.ccSettleWaited then nowM else c.ccMovedM
          ccTuneSuperseded := false
          ccSettleWaited := false
          ccAcquiring := false
          ccRetryAfterM := 0 }.setState .onCc
      pure false

/-- The end of `dmr_sm_cold_start_gate`, where a hunt may go on. -/
def coldStartGateOn (nowM : ℤ) (decision : Bool) : Prog Bool := do
  let s ← get
  match s.ctx.coldStartParkPending with
  | some park => do
    coldStartSettle nowM (park = .keeping)
    pure false
  | none =>
    if decision = true ∧ coldStartWindowExpired s nowM = false then do
      coldStartSettle nowM true
      pure false
    else pure true

/-- `dmr_sm_cold_start_gate`. -/
def coldStartGate (nowM : ℤ) (decision : Bool) : Prog Bool := do
  let s ← get
  let a ← ask
  if s.rest.recoveryProtocol ≠ .unknown ∧
      (s.rest.recoveryProtocol ≠ .dmr ∨ s.ctx.siteWithoutCc = true) then do
    -- a grant it followed stands: only the startup bookkeeping ends
    if s.ctx.state = .tuned then modifyCtx Ctx.coldStartClear else coldStartParkNow false
    pure false
  else if s.rest.trunkEnable = false ∨ s.rest.inputBoundary = true then do
    coldStartParkNow false
    pure false
  else if (s.ctx.state = .tuned ∨ s.rest.trunkIsTuned = true) ∧ huntEligible s a = false then do
    modifyCtx Ctx.coldStartClear
    pure false
  else if huntEligible s a = false ∨ a.recoveryAllowed = false then do
    coldStartSettle nowM false
    pure false
  else coldStartGateOn nowM decision

/-- `dsd_trunk_recovery_note_protocol`, for DMR. -/
def noteProtocol : Prog Unit := modifyRest fun r => { r with recoveryProtocol := .dmr }

/-- `dmr_cc_activity_context`: whether there is a context. -/
def ccActivityContext : Prog Bool := do
  let s ← get
  let a ← ask
  if s.rest.trunkEnable = false ∨ s.rest.trunkIsTuned = true then pure false
  else if s.rest.trunkScanEnabled = true ∧ a.scanCtx = false then pure false
  else ccResolvePending a.nowM

/-- `dmr_cc_note_monitor_frequency`. -/
def ccNoteMonitorFrequency (freq : ℤ) : Prog Unit := do
  let current ← ccMonitorFrequency
  let s ← get
  onlyIf (0 < current ∧ (freq ≤ 0 ∨ freq = current)) do
    note (.noted current s.receiver)
    setTrunkCcFreq current

/-- The context `dmr_cc_note_activity_ctx` leaves. -/
def Ctx.decodedCc (c : Ctx) (current : ℤ) (generation : ℕ) (nowM : ℤ) : Ctx :=
  { c.coldStartClear with
    ccFreqHz := current
    ccProbeFreqHz := current
    ccRxFreqHz := current
    ccRxGeneration := generation
    ccConfirmed := true
    ccAcquiring := false
    ccRetryAfterM := 0
    tCcSyncM := nowM }.setState .onCc

/-- `dmr_cc_note_activity_ctx`. -/
def ccNoteActivityCtx (freq : ℤ) : Prog Unit := do
  let current ← ccCurrentFrequency
  let s ← get
  let a ← ask
  if current ≤ 0 ∨ (0 < freq ∧ freq ≠ current) ∨
      (s.ctx.ccAcquiring = true ∧ current ≠ s.ctx.ccProbeFreqHz) then pure ()
  else do
    note (.noted current s.receiver)
    modifyCtx fun c => c.decodedCc current s.generation a.nowM
    setTrunkCcFreq current
    noteProtocol

/-- `dmr_sm_note_cc_activity`. -/
def noteCcActivity (freq : ℤ) : Prog Unit := do
  let s ← get
  if s.rest.trunkEnable = false ∧ s.rest.trunkIsTuned = false then ccNoteMonitorFrequency freq
  else do
    let found ← ccActivityContext
    if found then ccNoteActivityCtx freq else pure ()

/-- `dmr_cc_note_heartbeat_ctx`. -/
def ccNoteHeartbeatCtx : Prog Unit := do
  let s ← get
  let a ← ask
  if s.rest.trunkIsTuned = true ∨ s.ctx.ccConfirmed = false ∨ s.ctx.ccAcquiring = true then pure ()
  else do
    let resolved ← ccResolvePending a.nowM
    let s ← get
    onlyIf (resolved = true ∧ s.ctx.ccRxFreqHz = s.ctx.ccFreqHz ∧
        s.frameIsCurrent s.ctx.ccRxGeneration = true)
      (modifyCtx fun c => { c with tCcSyncM := a.nowM }.setState .onCc)

/-- `dmr_sm_note_cc_heartbeat`. -/
def noteCcHeartbeat : Prog Unit := do
  let found ← ccActivityContext
  if found then ccNoteHeartbeatCtx else pure ()

/-- `dmr_sm_note_xpt_site`. -/
def noteXptSite : Prog Unit := do
  modifyCtx fun c => { c with siteWithoutCc := true }
  noteProtocol
  let s ← get
  if s.rest.trunkIsTuned = false ∧ s.ctx.state ≠ .tuned then do
    let freq ← ccCurrentFrequency
    let s ← get
    onlyIf (0 < freq) do
      note (.noted freq s.receiver)
      modifyCtx fun c => { c with ccFreqHz := freq }
      setTrunkCcFreq freq
  else pure ()

/-- `dmr_cc_map_has_frequency`. -/
def ccMapHasFrequency (rows : List (ℤ × Bool)) (freq : ℤ) : Bool :=
  rows.any fun row => row.1 = freq && !row.2

/-- The loop of `dmr_cc_next_mapped_candidate`: the row's frequency, the index it leaves and
whether the probe was listed. -/
def nextMappedLoop (rows : List (ℤ × Bool)) (probe : ℤ) : ℕ → ℕ → Bool → Option ℤ × ℕ × Bool
  | 0, index, listed => (none, index, listed)
  | tries + 1, index, listed =>
    let index := if rows.length ≤ index then 0 else index
    let row := rows.getD index (0, false)
    if row.1 ≤ 0 ∨ row.2 = true then nextMappedLoop rows probe tries (index + 1) listed
    else if row.1 = probe then nextMappedLoop rows probe tries (index + 1) true
    -- adjacent rows often name the same channel
    else
      (some row.1, index + 1 + ((rows.drop (index + 1)).takeWhile fun next =>
        next.1 = row.1).length,
        listed)

/-- `dmr_cc_next_mapped_candidate`. -/
def ccNextMappedCandidate : Prog ℤ := do
  let s ← get
  let found := nextMappedLoop s.rest.lcnFreqs s.ctx.ccProbeFreqHz s.rest.lcnFreqs.length
    s.ctx.ccHuntIndex false
  modifyCtx fun c => { c with ccHuntIndex := found.2.1 }
  match found.1 with
  | some freq => pure freq
  | none =>
    pure (if found.2.2 = true ∧ (s.ctx.ccRxFreqHz ≠ s.ctx.ccProbeFreqHz ∨
      s.frameIsCurrent s.ctx.ccRxGeneration = false) then s.ctx.ccProbeFreqHz else 0)

/-- `dmr_cc_next_candidate`. -/
def ccNextCandidate : Prog ℤ := do
  let s ← get
  let a ← ask
  let anchor := if 0 < s.ctx.ccFreqHz then s.ctx.ccFreqHz
    else if s.ctx.coldStartHunt then 0 else s.trunkCcFreq
  if s.ctx.siteWithoutCc then pure anchor
  else if (s.rest.chanInFile = true ∨ a.scanMap = true) ∧ s.rest.lcnFreqs ≠ [] then
    if s.ctx.ccProbeFreqHz ≠ anchor ∧ 0 < anchor ∧
        ccMapHasFrequency s.rest.lcnFreqs anchor = true then pure anchor
    else ccNextMappedCandidate
  else if s.ctx.ccProbeFreqHz ≠ anchor ∧ 0 < anchor then pure anchor
  else pure (a.ccCandidate.getD anchor)

/-- The probe of `dmr_cc_hunt`. -/
def ccProbe (freq : ℤ) : Prog Unit := do
  let s ← get
  let (result, requestId) ← tuneToCc freq
  -- the return destination stays until a control message proves another
  setTrunkCcFreq s.trunkCcFreq
  if isOk result = false then pure ()
  else do
    let a ← ask
    modifyCtx fun c =>
      { c with
        ccProbeFreqHz := freq
        ccAcquiring := true
        ccAcquireStartM := a.nowM
        ccTuneRequestId := requestId
        ccTuneDeadlineM := a.nowM + ccTuneTimeout }.setState .onCc
    let _ ← ccResolvePending a.nowM
    pure ()

/-- `dmr_cc_hunt` at a candidate: listen where the receiver is, or probe. -/
def ccHuntTo (nowM : ℤ) (freq : ℤ) : Prog Unit := do
  let s ← get
  if freq = s.ctx.ccRxFreqHz ∧ s.frameIsCurrent s.ctx.ccRxGeneration = true then
    modifyCtx fun c =>
      { c with ccProbeFreqHz := freq, ccAcquiring := true, ccAcquireStartM := nowM }.setState .onCc
  else ccProbe freq

/-- `dmr_cc_hunt` past its gate. -/
def ccHuntOn (nowM : ℤ) : Prog Unit := do
  let s ← get
  if s.ctx.ccWindowLost = true ∧ ccWindowOpen s nowM = true then modifyCtx fun c => c.setState .onCc
  else do
    modifyCtx fun c => { c with ccWindowLost := false, ccRetryAfterM := nowM + ccRetry }
    let freq ← ccNextCandidate
    if freq ≤ 0 then pure () else ccHuntTo nowM freq

/-- `dmr_cc_hunt`. -/
def ccHunt (nowM : ℤ) : Prog Unit := do
  let s ← get
  let a ← ask
  if a.recoveryAllowed = false ∨ s.rest.trunkIsTuned = true ∨ nowM < s.ctx.ccRetryAfterM then
    pure ()
  else if s.ctx.coldStartHunt then do
    let goesOn ← coldStartGate nowM true
    if goesOn then ccHuntOn nowM else pure ()
  else ccHuntOn nowM

/-- `dmr_sm_tick_idle_cold_start`. -/
def tickIdleColdStart (nowM : ℤ) : Prog Unit := do
  let s ← get
  let a ← ask
  if huntEligible s a = false then modifyCtx fun c => { c with coldStartArmedM := 0 }
  else if s.ctx.coldStartArmedM ≤ 0 then modifyCtx fun c => { c with coldStartArmedM := nowM }
  else if coldStartWindowExpired s nowM = false then pure ()
  else do
    modifyCtx fun c => { c with coldStartHunt := true, ccRetryAfterM := 0 }.setState .hunting
    ccHunt nowM

end DsdNeo.DmrTrunk
