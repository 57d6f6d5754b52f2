import DsdNeo.Core.Bits.Sizes
import DsdNeo.Core.Program.Wp
import DsdNeo.Models.Receive.Policy
import DsdNeo.Models.Tuning.Frames

/-!
# The DMR trunking machine and the tuning layer under it

`dmr_sm_ctx_t` beside the tuning requests. A request that completes advances the generation
and names the frequency the receiver landed on. What the rest of the decoder keeps is a
record of its own; clocks, the tuner's answers and the backend are a stream of answers.
Times are nanoseconds.
-/

namespace DsdNeo.DmrTrunk

open Program (onlyIf)
open Tuning (TuneResult)

/-- `DMR_CC_PROBE_GRACE_S`. -/
def ccProbeGrace : ℤ := 2000000000

/-- `DMR_CC_TUNE_TIMEOUT_S`. -/
def ccTuneTimeout : ℤ := 5000000000

/-- `DMR_VOICE_EVIDENCE_S`. -/
def voiceEvidence : ℤ := 1000000000

/-- `DMR_RX_QUERY_RETRY_S`. -/
def rxQueryRetry : ℤ := 2000000000

/-- How long the hunt waits after a probe or a failed tune. -/
def ccRetry : ℤ := 2000000000

/-- The voice silence after which a slot is stale. -/
def voiceStale : ℤ := 200000000

/-- `hangtime_s` with nothing configured. -/
def defaultHangtime : ℤ := 2000000000

/-- `grant_timeout_s` with nothing configured. -/
def defaultGrantTimeout : ℤ := 4000000000

/-- `cc_grace_s`. -/
def defaultCcGrace : ℤ := 6000000000

/-- `dmr_sm_state_e`. -/
inductive SmState where
  | idle
  | onCc
  | tuned
  | hunting
  deriving DecidableEq

/-- `dsd_trunk_recovery_protocol`: the owner of recovery. -/
inductive Owner where
  | unknown
  | dmr
  | other
  deriving DecidableEq

/-- A startup park waiting for the tuning layer: keeping the window, or not. -/
inductive Park where
  | keeping
  | unarmed
  deriving DecidableEq

/-- `dmr_sm_slot_ctx_t`, without the talkgroup it shows. -/
structure Slot where
  voiceActive : Bool
  lastActiveM : ℤ

/-- No activity. -/
def Slot.quiet : Slot := ⟨false, 0⟩

/-- `dmr_sm_ctx_t`, without the identity of the call it publishes. -/
structure Ctx where
  state : SmState
  slots : Bool → Slot
  vcFreqHz : ℤ
  vcStatusFollow : Bool
  tTuneM : ℤ
  receiveCheckStartedM : ℤ
  receiveCheckFreqHz : ℤ
  receiveCodesFresh : Bool
  receiveCarriers : Receive.Carriers
  tVoiceM : ℤ
  tCcSyncM : ℤ
  ccFreqHz : ℤ
  ccProbeFreqHz : ℤ
  ccRxFreqHz : ℤ
  ccRxGeneration : ℕ
  ccAcquireStartM : ℤ
  ccRetryAfterM : ℤ
  ccTuneDeadlineM : ℤ
  ccTuneRequestId : ℕ
  ccAcquiring : Bool
  ccConfirmed : Bool
  ccHuntIndex : ℕ
  coldStartArmedM : ℤ
  coldStartHunt : Bool
  coldStartParkPending : Option Park
  siteWithoutCc : Bool
  ccMovedM : ℤ
  ccTuneSuperseded : Bool
  ccSettleWaited : Bool
  ccWindowLost : Bool
  rxSeenHz : ℤ
  rxSeenGeneration : ℕ
  rxQueryRetryM : ℤ
  hangtimeS : ℤ
  grantTimeoutS : ℤ
  ccGraceS : ℤ
  initialized : Bool

/-- The slot the single-slot decoder follows, as far as its CACH proved it. -/
inductive MonoRx where
  | none
  | pending
  | ts1
  | ts2
  deriving DecidableEq

/-- What the options and the state of the rest of the decoder say. -/
structure Rest where
  trunkEnable : Bool
  trunkIsTuned : Bool
  trunkScanEnabled : Bool
  useRigctl : Bool
  audioInRtl : Bool
  chanInFile : Bool
  trunkTuneDataCalls : Bool
  trunkHangtime : ℤ
  receive : Receive.Policy
  dmrColorCode : BitVec 32
  dmrMonoRxSlot : MonoRx
  receiveCodesFreshFreq : ℤ
  p25CcFreq : ℤ
  trunkVcFreq : ℤ
  trunkSmForceRelease : Bool
  recoveryProtocol : Owner
  inputBoundary : Bool
  dmrConfidenceLockM : ℤ
  dmrConfidenceVoiceOpen : Bool → Bool
  dmrConfidenceVoiceM : Bool → ℤ
  dmrRestChannel : ℤ
  trunkChanMap : ℤ → ℤ
  dmrLcnTrust : ℤ → ℕ
  /-- The rows of the channel list, each with whether it is avoided. -/
  lcnFreqs : List (ℤ × Bool)

/-- What is asked of the rest of the program at one instant. -/
structure Answer where
  /-- `dsd_decode_now_mono_s`, `dsd_realtime_mono_s` and `dsd_decode_now_mono_ns`. -/
  nowM : ℤ
  realM : ℤ
  nowNs : ℕ
  dmrHangtime : Option ℤ
  dmrGrantTimeout : Option ℤ
  recoveryAllowed : Bool
  coldStartEligible : Bool
  dmrHuntEligible : Bool
  /-- The rigctl peer answers. -/
  rigctlReads : Bool
  /-- The tuner's frequency in the options while a request is not resolved. -/
  centerFreq : ℤ
  scanCtx : Bool
  scanMap : Bool
  ccCandidate : Option ℤ
  /-- What the backend publishes of a request before its tune returns, and what that returns. -/
  published : Option TuneResult
  tuneReturns : TuneResult

/-- Where a control channel's frequency came from. -/
inductive Source where
  /-- Control or an XPT site was noted at a frequency, beside where the receiver was. -/
  | noted (frequency receiver : ℤ)
  /-- A return to a frequency was accepted. -/
  | returned (frequency : ℤ)
  deriving DecidableEq

/-- The frequency of a source. -/
def Source.frequency : Source → ℤ
  | .noted f _ => f
  | .returned f => f

/-- A colour code verified on a voice channel. -/
abbrev Verified := ℤ × Receive.FilterKind × BitVec 16

/-- The machine, the tuning layer, the receiver and the rest of the decoder. -/
structure State where
  ctx : Ctx
  rest : Rest
  trunkCcFreq : ℤ
  tuning : Tuning.Machine
  /-- The frequency each request asked for. -/
  asked : ℕ → ℤ
  receiver : ℤ
  answers : ℕ → Answer
  /-- Where control channels came from, the latest first. -/
  log : List Source
  /-- The colour codes noted of voice channels, the latest first. -/
  verified : List Verified

/-- Programs of the decoder. -/
abbrev Prog := StateM State

/-- What the rest of the program answers now. -/
def ask : Prog Answer := fun s => (s.answers 0, { s with answers := fun n => s.answers (n + 1) })

/-- An edit of the machine's context. -/
def modifyCtx (f : Ctx → Ctx) : Prog Unit := modify fun s => { s with ctx := f s.ctx }

/-- An edit of what the rest of the decoder keeps. -/
def modifyRest (f : Rest → Rest) : Prog Unit := modify fun s => { s with rest := f s.rest }

/-- The shared control-channel alias. -/
def setTrunkCcFreq (freq : ℤ) : Prog Unit := modify fun s => { s with trunkCcFreq := freq }

/-- A source written down. -/
def note (source : Source) : Prog Unit := modify fun s => { s with log := source :: s.log }

/-- `dsd_trunk_tuning_generation`. -/
def State.generation (s : State) : ℕ := s.tuning.now.generation

/-- `dsd_trunk_tuning_frame_is_current`, between two calls on the layer. -/
def State.frameIsCurrent (s : State) (generation : ℕ) : Bool :=
  Tuning.frameIsCurrent generation s.tuning.now s.tuning.now s.tuning.now s.tuning.now

/-- `dsd_trunk_tuning_request_status`. -/
def State.status (s : State) (id : ℕ) : TuneResult := Tuning.requestStatus s.tuning.now.records id

/-- The time `dsd_trunk_tuning_request_status` tells with it. -/
def State.completedM (s : State) (id : ℕ) : ℤ :=
  match Tuning.requestFind s.tuning.now.records id with
  | none => 0
  | some i => (s.tuning.now.records i).completedMNs

/-- `dsd_trunk_tuning_pending_request`. -/
def State.pendingRequest (s : State) : ℕ :=
  (List.finRange 64).foldl (fun newest i =>
    if ((s.tuning.now.records i).state = .pending ∨ (s.tuning.now.records i).state = .failedGated) ∧
        newest < (s.tuning.now.records i).requestId then (s.tuning.now.records i).requestId
    else newest) 0

/-- The receiver after a call on the layer: a request that completed lands it. -/
def State.settle (s : State) (m : Tuning.Machine) : State :=
  match (Tuning.succeeded s.tuning m).getLast? with
  | none => { s with tuning := m }
  | some id => { s with tuning := m, receiver := s.asked id }

/-- A call on the layer. -/
def layer (call : Tuning.Call) : Prog Unit := modify fun s => s.settle (call.apply s.tuning)

/-- `dsd_trunk_tune_result_is_ok`. -/
def isOk (result : TuneResult) : Bool := result = .ok || result = .pending

/-- `dsd_trunk_tuning_request_begin` for a frequency. -/
def requestBegin (freq : ℤ) : Prog ℕ := fun s =>
  let begun := Tuning.requestBegin s.tuning
  (begun.1, { s with tuning := begun.2, asked := Function.update s.asked begun.1 freq })

/-- `dsd_trunk_tuning_note_result`. -/
def noteResult (id : ℕ) (result : TuneResult) (nowNs : ℕ) : Prog TuneResult := do
  if result = .pending then do
    layer (.markReady id)
    let s ← get
    pure (if s.status id = .ok then .ok else .pending)
  else do
    layer (.complete id result nowNs)
    let s ← get
    pure (s.status id)

/-- What the backend publishes before the tune returns. -/
def publishEarly (id : ℕ) (published : Option TuneResult) (nowNs : ℕ) : Prog Unit :=
  match published with
  | none => pure ()
  | some result => layer (.publish id result nowNs)

/-- A tune through the hooks, with what the hook leaves when it is accepted. -/
def hookTune (freq : ℤ) (accepted : Prog Unit) : Prog (TuneResult × ℕ) := do
  let id ← requestBegin freq
  if id = 0 then pure (.failed, 0)
  else do
    let a ← ask
    publishEarly id a.published a.nowNs
    onlyIf (isOk a.tuneReturns = true) accepted
    let result ← noteResult id a.tuneReturns a.nowNs
    pure (result, id)

/-- What an accepted tune to a voice channel leaves: the codes of the one before are forgotten. -/
def Rest.tunedVoice (r : Rest) (freq : ℤ) : Rest :=
  { r with
    trunkIsTuned := true
    trunkVcFreq := freq
    dmrColorCode := 16
    dmrMonoRxSlot := .none
    receiveCodesFreshFreq := freq }

/-- `dsd_trunk_tuning_hook_tune_to_freq`. -/
def tuneToFreq (freq : ℤ) : Prog (TuneResult × ℕ) :=
  hookTune freq (modifyRest fun r => r.tunedVoice freq)

/-- `dsd_trunk_tuning_hook_tune_to_cc`: the shared helper stages the alias. -/
def tuneToCc (freq : ℤ) : Prog (TuneResult × ℕ) := hookTune freq (setTrunkCcFreq freq)

/-- `dsd_trunk_tuning_hook_return_to_cc`: to the P25 alias if there is one, else to the shared. -/
def hookReturnToCc : Prog (TuneResult × ℕ) := do
  let s ← get
  let freq := if s.rest.p25CcFreq ≠ 0 then s.rest.p25CcFreq else s.trunkCcFreq
  hookTune freq do
    setTrunkCcFreq freq
    modifyRest fun r => { r with trunkIsTuned := false, trunkVcFreq := 0 }

/-- `set_state`. -/
def Ctx.setState (c : Ctx) (state : SmState) : Ctx :=
  if c.state = state then c
  else
    { c with
      state := state
      ccWindowLost := false
      coldStartArmedM :=
        if state ≠ .idle ∧ c.coldStartHunt = false then 0 else c.coldStartArmedM }

/-- The end of `dmr_cc_resolve_pending`, for a request that is not pending. -/
def ccResolved (nowM : ℤ) : Prog Bool := do
  let s ← get
  let id := s.ctx.ccTuneRequestId
  let completedM := s.completedM id
  if s.status id = .ok then do
    modifyCtx fun c =>
      { c with
        ccTuneRequestId := 0
        ccAcquireStartM := if 0 < completedM then completedM else nowM
        ccRxFreqHz := c.ccProbeFreqHz
        ccRxGeneration := s.generation }
    pure true
  else do
    modifyCtx fun c =>
      { c with
        ccTuneRequestId := 0
        ccAcquiring := false
        ccRetryAfterM := nowM + ccRetry }.setState .hunting
    pure false

/-- `dmr_cc_resolve_pending`. -/
def ccResolvePending (nowM : ℤ) : Prog Bool := do
  let s ← get
  if s.ctx.ccTuneRequestId = 0 then pure true
  else if s.status s.ctx.ccTuneRequestId = .pending then
    if nowM < s.ctx.ccTuneDeadlineM then pure false
    else do
      let a ← ask
      -- a late completion cannot resurrect the expired request
      layer (.publish s.ctx.ccTuneRequestId .failed a.nowNs)
      ccResolved nowM
  else ccResolved nowM

/-- `dmr_sm_init_ctx`. -/
def Ctx.init (rest : Rest) (trunkCcFreq : ℤ) (a : Answer) : Ctx where
  state := if trunkCcFreq ≠ 0 then .onCc else .idle
  slots _ := .quiet
  vcFreqHz := 0
  vcStatusFollow := false
  tTuneM := 0
  receiveCheckStartedM := 0
  receiveCheckFreqHz := 0
  receiveCodesFresh := false
  receiveCarriers := .empty
  tVoiceM := 0
  tCcSyncM := if trunkCcFreq ≠ 0 then a.nowM else 0
  ccFreqHz := trunkCcFreq
  ccProbeFreqHz := trunkCcFreq
  ccRxFreqHz := 0
  ccRxGeneration := 0
  ccAcquireStartM := 0
  ccRetryAfterM := 0
  ccTuneDeadlineM := 0
  ccTuneRequestId := 0
  ccAcquiring := false
  ccConfirmed := false
  ccHuntIndex := 0
  coldStartArmedM := 0
  coldStartHunt := false
  coldStartParkPending := none
  siteWithoutCc := false
  ccMovedM := 0
  ccTuneSuperseded := false
  ccSettleWaited := false
  ccWindowLost := false
  rxSeenHz := 0
  rxSeenGeneration := 0
  rxQueryRetryM := 0
  hangtimeS := a.dmrHangtime.getD
    (if 0 ≤ rest.trunkHangtime then rest.trunkHangtime else defaultHangtime)
  grantTimeoutS := a.dmrGrantTimeout.getD defaultGrantTimeout
  ccGraceS := defaultCcGrace
  initialized := true

/-- The context `dmr_sm_begin_cc_acquisition` starts with. -/
def Ctx.acquiring (c : Ctx) (s : State) (a : Answer) (freq : ℤ) (requestId : ℕ) : Ctx :=
  { Ctx.init s.rest s.trunkCcFreq a with
    siteWithoutCc := c.siteWithoutCc
    ccFreqHz := freq
    ccProbeFreqHz := freq
    ccAcquiring := true
    ccAcquireStartM := a.nowM
    ccTuneRequestId := requestId
    ccTuneDeadlineM := a.nowM + ccTuneTimeout
    state := .onCc
    ccRxFreqHz := if requestId = 0 then freq else 0
    ccRxGeneration := if requestId = 0 then s.generation else 0 }

/-- `dmr_sm_begin_cc_acquisition`. -/
def beginCcAcquisition (freq : ℤ) (requestId : ℕ) : Prog Unit := do
  let s ← get
  if freq ≤ 0 then pure ()
  else do
    let a ← ask
    modifyCtx fun c => c.acquiring s a freq requestId
    let _ ← ccResolvePending a.nowM
    pure ()

/-- `dmr_sm_return_to_cc`. -/
def returnToCc (freq : ℤ) : Prog TuneResult := do
  let s ← get
  if freq ≤ 0 then pure .failed
  else do
    modifyRest fun r => { r with p25CcFreq := 0 }
    setTrunkCcFreq freq
    let (result, requestId) ← hookReturnToCc
    if isOk result = false then do
      modifyRest fun r => { r with p25CcFreq := s.rest.p25CcFreq }
      setTrunkCcFreq s.trunkCcFreq
      pure result
    else do
      note (.returned freq)
      modifyCtx fun c => c.setState .onCc
      beginCcAcquisition freq requestId
      pure result

/-- `dsd_rigctl_query_hook_get_current_freq_hz`: the peer tells where the receiver is, or fails. -/
def rigctlRead (a : Answer) (s : State) : ℤ := if a.rigctlReads then s.receiver else 0

/-- The tuner's frequency in the options: where the last completed tune or move put the receiver. -/
def rtlCenter (a : Answer) (s : State) : ℤ :=
  if s.tuning.now.unresolvedCount = 0 then s.receiver else a.centerFreq

/-- The read of `dmr_cc_rigctl_frequency`, kept for this generation. -/
def ccRigctlQuery (generation : ℕ) : Prog ℤ := do
  let s ← get
  let a ← ask
  let freq := rigctlRead a s
  if 0 < freq then do
    modifyCtx fun c =>
      { c with rxSeenHz := freq, rxSeenGeneration := generation, rxQueryRetryM := 0 }
    pure freq
  else do
    modifyCtx fun c => { c with rxQueryRetryM := a.realM + rxQueryRetry }
    pure freq

/-- `dmr_cc_rigctl_frequency`, with a context. -/
def ccRigctlFrequency (generation : ℕ) (useCache : Bool) : Prog ℤ := do
  let s ← get
  let a ← ask
  if useCache ∧ 0 < s.ctx.rxSeenHz ∧ s.ctx.rxSeenGeneration = generation then pure s.ctx.rxSeenHz
  else if 0 < s.ctx.rxQueryRetryM ∧ a.realM < s.ctx.rxQueryRetryM then pure 0
  else ccRigctlQuery generation

/-- `dmr_cc_current_frequency`, with a context. -/
def ccCurrentFrequency : Prog ℤ := do
  let s ← get
  let a ← ask
  if 0 < s.ctx.ccRxFreqHz ∧ s.ctx.ccRxGeneration = s.generation then pure s.ctx.ccRxFreqHz
  else if s.rest.useRigctl then ccRigctlFrequency s.generation true
  else if s.rest.audioInRtl then pure (rtlCenter a s)
  else pure (if s.ctx.ccProbeFreqHz ≠ 0 then s.ctx.ccProbeFreqHz else s.ctx.ccFreqHz)

/-- `dmr_cc_current_frequency`, without a context. -/
def ccMonitorFrequency : Prog ℤ := do
  let s ← get
  let a ← ask
  if s.rest.useRigctl then pure (rigctlRead a s)
  else if s.rest.audioInRtl then pure (rtlCenter a s)
  else pure 0

/-- `dmr_cc_tuner_frequency`. -/
def ccTunerFrequency : Prog ℤ := do
  let s ← get
  let a ← ask
  if s.rest.useRigctl then ccRigctlFrequency s.generation false
  else pure (if s.rest.audioInRtl then rtlCenter a s else 0)

/-- `dmr_cc_anchor`. -/
def ccAnchor (s : State) : ℤ := if 0 < s.ctx.ccFreqHz then s.ctx.ccFreqHz else s.trunkCcFreq

/-- `dmr_cc_window_open`. -/
def ccWindowOpen (s : State) (nowM : ℤ) : Bool :=
  let since := if s.ctx.ccAcquiring then s.ctx.ccAcquireStartM else s.ctx.tCcSyncM
  if since ≤ 0 then false
  else
    let since := if since < s.rest.dmrConfidenceLockM then s.rest.dmrConfidenceLockM else since
    decide (nowM - since ≤ if s.ctx.ccAcquiring then ccProbeGrace else s.ctx.ccGraceS)

end DsdNeo.DmrTrunk
