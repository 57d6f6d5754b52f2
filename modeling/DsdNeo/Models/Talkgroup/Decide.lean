import DsdNeo.Models.Talkgroup.Avoids

/-!
# Decisions on calls

Whether a call is tuned, heard, recorded and streamed: the row that names it sets the flags, and
options, the encryption lockout, session avoids, call skips, the mode of the row and a hold take
them back in turn, each with its reason.
-/

namespace DsdNeo.TgPolicy

/-- `dsd_tg_policy_match_type`. -/
inductive MatchType where
  | none
  | exact
  | range
  deriving DecidableEq

/-- `dsd_tg_policy_lookup`. -/
structure Lookup where
  matched : MatchType
  entry : Entry

/-- `dsd_tg_policy_lookup_id`, on the rows of a state. -/
def lookupId (rows : List Entry) (id : BitVec 32) : Lookup :=
  match lookupExact rows id with
  | some e => ⟨.exact, e⟩
  | none =>
    let bestIdx := findBestRangeIdx rows id
    if bestIdx ≥ 0 then ⟨.range, rows.getD bestIdx.toNat Entry.zero⟩ else ⟨.none, Entry.zero⟩

/-- `tg_policy_lookup_exact_only`. -/
def lookupExactOnly (rows : List Entry) (id : BitVec 32) : Option Entry :=
  let lookup := lookupId rows id
  if lookup.matched = .exact then some lookup.entry else none

/-- `DSD_TG_POLICY_BLOCK_GROUP_DISABLED`. -/
def blockGroupDisabled : BitVec 32 := 0x1

/-- `DSD_TG_POLICY_BLOCK_PRIVATE_DISABLED`. -/
def blockPrivateDisabled : BitVec 32 := 0x2

/-- `DSD_TG_POLICY_BLOCK_DATA_DISABLED`. -/
def blockDataDisabled : BitVec 32 := 0x4

/-- `DSD_TG_POLICY_BLOCK_ENCRYPTED_DISABLED`. -/
def blockEncryptedDisabled : BitVec 32 := 0x8

/-- `DSD_TG_POLICY_BLOCK_ALLOWLIST`. -/
def blockAllowlist : BitVec 32 := 0x10

/-- `DSD_TG_POLICY_BLOCK_MODE`. -/
def blockMode : BitVec 32 := 0x20

/-- `DSD_TG_POLICY_BLOCK_HOLD`. -/
def blockHold : BitVec 32 := 0x40

/-- `DSD_TG_POLICY_BLOCK_AUDIO`. -/
def blockAudio : BitVec 32 := 0x80

/-- `DSD_TG_POLICY_BLOCK_RECORD`. -/
def blockRecord : BitVec 32 := 0x100

/-- `DSD_TG_POLICY_BLOCK_STREAM`. -/
def blockStream : BitVec 32 := 0x200

/-- `DSD_TG_POLICY_BLOCK_ENC_LOCKOUT`. -/
def blockEncLockout : BitVec 32 := 0x400

/-- `DSD_TG_POLICY_BLOCK_SESSION_AVOID`. -/
def blockSessionAvoid : BitVec 32 := 0x800

/-- `DSD_TG_POLICY_BLOCK_CALL_SKIP`. -/
def blockCallSkip : BitVec 32 := 0x1000

/-- `DSD_TG_POLICY_BLOCK_OTA_FINAL`. -/
def blockOtaFinal : BitVec 32 :=
    blockCallSkip ||| blockEncLockout ||| blockSessionAvoid ||| blockMode

/-- The options a decision reads. -/
structure TuneOpts where
  trunkUseAllowList : BitVec 8
  trunkTuneGroupCalls : BitVec 8
  trunkTunePrivateCalls : BitVec 8
  trunkTuneDataCalls : BitVec 8
  trunkTuneEncCalls : BitVec 8

/-- `dsd_enc_lockout_entry`. -/
structure EncLockoutEntry where
  target : BitVec 32
  isGroup : BitVec 8
  inUse : BitVec 8
  keyEpoch : BitVec 64

/-- The store of a state, as a decision reads it. -/
structure PolicyView (T : Type) where
  rows : List Entry
  sessionAvoids : List (BitVec 32)
  callSkips : CallSkipsOf T
  ordered : Ordered sessionAvoids

/-- The state a decision reads; the clock is read once for each look into the call skips. -/
structure TuneState (T : Type) where
  policy : Option (PolicyView T)
  tgHold : BitVec 32
  encLockoutEntries : Vector EncLockoutEntry 128
  encLockoutKeyEpoch : BitVec 64
  clock : ℕ → T

section State

variable {T : Type}

/-- The rows of a state. -/
def TuneState.rows (state : TuneState T) : List Entry :=
  (state.policy.map PolicyView.rows).getD []

/-- `enc_lockout_find_const`. -/
def encLockoutFind (state : TuneState T) (target : BitVec 32) (isGroup : Bool) :
    Option EncLockoutEntry :=
  if target = 0 then none
  else
    state.encLockoutEntries.toList.find? fun e =>
      e.inUse ≠ 0 && e.target = target && e.isGroup = if isGroup then 1 else 0

/-- `dsd_enc_lockout_entry_active`. -/
def encLockoutEntryActive (state : TuneState T) (target : BitVec 32) (isGroup : Bool) : Bool :=
  match encLockoutFind state target isGroup with
  | some e => e.keyEpoch = state.encLockoutKeyEpoch
  | none => false

/-- `dsd_enc_lockout_is_blocked`. -/
def encLockoutIsBlocked (opts : Option TuneOpts) (state : TuneState T) (target : BitVec 32)
    (isGroup : Bool) : Bool :=
  match opts with
  | none => false
  | some opts =>
    if opts.trunkTuneEncCalls ≠ 0 then false else encLockoutEntryActive state target isGroup

/-- `dsd_tg_policy_session_avoid_contains`. -/
def sessionAvoidContains (state : TuneState T) (id : BitVec 32) : Bool :=
  match state.policy with
  | none => false
  | some ctx =>
    let index := avoidLowerBound ctx.sessionAvoids id
    index < ctx.sessionAvoids.length && ctx.sessionAvoids.getD index 0 = id

/-- `tg_policy_call_skip_blocking`, with the reading of the clock. -/
def callSkipBlocking [OfNat T 0] [Sub T] [LE T] [DecidableLE T] [OfScientific T]
    (state : TuneState T) (id : BitVec 32) (now : T) : Bool :=
  match state.policy with
  | none => false
  | some ctx => if ctx.callSkips.count = 0 then false else callSkipActive ctx.callSkips id now

end State

/-- `dsd_tg_policy_decision`. -/
structure CallDecision where
  targetId : BitVec 32
  sourceId : BitVec 32
  encrypted : Bool
  dataCall : Bool
  privateCall : Bool
  tuneAllowed : Bool
  audioAllowed : Bool
  recordAllowed : Bool
  streamAllowed : Bool
  priority : ℤ
  preemptRequested : Bool
  blockReasons : BitVec 32
  tgHoldActive : Bool
  tgHoldMatch : Bool
  mode : Chars 8
  name : Chars 50
  matched : MatchType

/-- `tg_policy_init_decision`. -/
def initDecision (targetId sourceId : BitVec 32) (encrypted dataCall : Bool) : CallDecision where
  targetId := targetId
  sourceId := sourceId
  encrypted := encrypted
  dataCall := dataCall
  privateCall := false
  tuneAllowed := true
  audioAllowed := true
  recordAllowed := true
  streamAllowed := true
  priority := 0
  preemptRequested := false
  blockReasons := 0
  tgHoldActive := false
  tgHoldMatch := false
  mode := Chars.zero 8
  name := Chars.zero 50
  matched := .none

/-- `tg_policy_decision_apply_entry`. -/
def decisionApplyEntry (out : CallDecision) (entry : Entry) (matched : MatchType) : CallDecision :=
  { out with
    matched := matched
    priority := entry.priority
    preemptRequested := entry.preempt ≠ 0
    audioAllowed := entry.audio ≠ 0
    recordAllowed := entry.record ≠ 0
    streamAllowed := entry.stream ≠ 0
    mode := safeCopy out.mode entry.mode.cstr
    name := safeCopy out.name entry.name.cstr }

/-- `tg_policy_block_decision_tune_and_media`. -/
def blockDecisionTuneAndMedia (out : CallDecision) (reason : BitVec 32) : CallDecision :=
  { out with
    tuneAllowed := false, audioAllowed := false, recordAllowed := false, streamAllowed := false
    blockReasons := out.blockReasons ||| reason }

/-- A block of the tuning alone. -/
def blockDecisionTune (out : CallDecision) (reason : BitVec 32) : CallDecision :=
  { out with tuneAllowed := false, blockReasons := out.blockReasons ||| reason }

/-- Record and stream taken back for themselves. -/
def blockMedia (out : CallDecision) (explicitRecordBlock explicitStreamBlock : Bool) :
    CallDecision :=
  let out :=
    if explicitRecordBlock then
      { out with recordAllowed := false, blockReasons := out.blockReasons ||| blockRecord }
    else out
  if explicitStreamBlock then
    { out with streamAllowed := false, blockReasons := out.blockReasons ||| blockStream }
  else out

/-- `tg_policy_apply_explicit_media_blocks`. -/
def applyExplicitMediaBlocks (out : CallDecision)
    (explicitAudioBlock explicitRecordBlock explicitStreamBlock : Bool) : CallDecision :=
  if explicitAudioBlock then
    { out with
      audioAllowed := false, recordAllowed := false, streamAllowed := false
      blockReasons := out.blockReasons ||| blockAudio }
  else blockMedia out explicitRecordBlock explicitStreamBlock

/-- What the row of a call takes back. -/
structure EntryBlocks where
  modeBlocking : Bool
  explicitAudioBlock : Bool
  explicitRecordBlock : Bool
  explicitStreamBlock : Bool

/-- `tg_policy_group_apply_lookup`. -/
def groupApplyLookup (rows : List Entry) (tg : BitVec 32) (out : CallDecision) :
    CallDecision × EntryBlocks :=
  let lookup := lookupId rows tg
  if lookup.matched = .none then (out, ⟨false, false, false, false⟩)
  else
    let modeBlocking := modeIsBlocking lookup.entry.mode.cstr
    (decisionApplyEntry out lookup.entry lookup.matched,
      ⟨modeBlocking, !modeBlocking && lookup.entry.audio = 0,
        !modeBlocking && lookup.entry.audio ≠ 0 && lookup.entry.record = 0,
        !modeBlocking && lookup.entry.audio ≠ 0 && lookup.entry.stream = 0⟩)

/-- `tg_policy_group_set_hold_state`, with whether the hold is on another call. -/
def groupSetHoldState (tgHold tg : BitVec 32) (out : CallDecision) : CallDecision × Bool :=
  let active : Bool := tgHold ≠ 0
  let matched : Bool := active && tgHold = tg
  ({ out with tgHoldActive := active, tgHoldMatch := matched }, active && !matched)

/-- `tg_policy_private_set_hold_state`, with whether the hold is on another call. -/
def privateSetHoldState (tgHold src dst : BitVec 32) (out : CallDecision) : CallDecision × Bool :=
  let active : Bool := tgHold ≠ 0
  let matched : Bool := active && (tgHold = src || tgHold = dst)
  ({ out with tgHoldActive := active, tgHoldMatch := matched }, active && !matched)

/-- Whether an option is set and has a value. -/
def optIs (opts : Option TuneOpts) (field : TuneOpts → BitVec 8) (value : BitVec 8) : Bool :=
  match opts with
  | none => false
  | some opts => field opts = value

/-- `tg_policy_apply_group_tune_blocks`. -/
def applyGroupTuneBlocks (opts : Option TuneOpts) (encrypted dataCall : Bool) (out : CallDecision) :
    CallDecision :=
  let out := if optIs opts (·.trunkTuneGroupCalls) 0 then
    blockDecisionTune out blockGroupDisabled else out
  let out := if dataCall && optIs opts (·.trunkTuneDataCalls) 0 then
    blockDecisionTune out blockDataDisabled else out
  let out := if encrypted && optIs opts (·.trunkTuneEncCalls) 0 then
    blockDecisionTune out blockEncryptedDisabled else out
  if optIs opts (·.trunkUseAllowList) 1 && out.matched = .none then
    blockDecisionTune out blockAllowlist else out

/-- `tg_policy_apply_private_tune_blocks`. -/
def applyPrivateTuneBlocks (opts : Option TuneOpts)
    (encrypted dataCall srcMatch dstMatch allowUnlisted : Bool) (out : CallDecision) :
    CallDecision :=
  let out := if optIs opts (·.trunkTunePrivateCalls) 0 then
    blockDecisionTune out blockPrivateDisabled else out
  let out := if dataCall && optIs opts (·.trunkTuneDataCalls) 0 then
    blockDecisionTune out blockDataDisabled else out
  let out := if encrypted && optIs opts (·.trunkTuneEncCalls) 0 then
    blockDecisionTune out blockEncryptedDisabled else out
  if optIs opts (·.trunkUseAllowList) 1 && !allowUnlisted && !srcMatch && !dstMatch then
    blockDecisionTune out blockAllowlist else out

section Evaluate

variable {T : Type} [OfNat T 0] [Sub T] [LE T] [DecidableLE T] [OfScientific T]

/-- `tg_policy_apply_enc_lockout_block`. -/
def applyEncLockoutBlock (opts : Option TuneOpts) (state : TuneState T) (target : BitVec 32)
    (isGroup dataCall : Bool) (out : CallDecision) : CallDecision :=
  if !dataCall && encLockoutIsBlocked opts state target isGroup then
    blockDecisionTune out blockEncLockout else out

/-- `dsd_tg_policy_evaluate_group_call`. -/
def evaluateGroupCall (opts : Option TuneOpts) (state : TuneState T) (tg src : BitVec 32)
    (encrypted dataCall : Bool) : CallDecision :=
  let out := initDecision tg src encrypted dataCall
  let (out, blocks) := groupApplyLookup state.rows tg out
  let (out, holdMismatch) := groupSetHoldState state.tgHold tg out
  let out := applyGroupTuneBlocks opts encrypted dataCall out
  let out := applyEncLockoutBlock opts state tg true dataCall out
  let out := if sessionAvoidContains state tg then
    blockDecisionTuneAndMedia out blockSessionAvoid else out
  let out := if callSkipBlocking state tg (state.clock 0) then
    blockDecisionTuneAndMedia out blockCallSkip else out
  let out := if blocks.modeBlocking then blockDecisionTuneAndMedia out blockMode else out
  let out := if holdMismatch then blockDecisionTuneAndMedia out blockHold else out
  if !blocks.modeBlocking && !holdMismatch then
    applyExplicitMediaBlocks out blocks.explicitAudioBlock blocks.explicitRecordBlock
      blocks.explicitStreamBlock
  else out

/-- `dsd_tg_policy_apply_ota_final_blocks`, with whether a block was merged. -/
def applyOtaFinalBlocks (opts : Option TuneOpts) (state : TuneState T)
    (otaTarget policyTarget src : BitVec 32) (decision : CallDecision) : Bool × CallDecision :=
  if otaTarget = 0 ∨ otaTarget = policyTarget then (false, decision)
  else
    let ota := evaluateGroupCall opts state otaTarget src false false
    let final := ota.blockReasons &&& blockOtaFinal
    if final = 0 then (false, decision)
    else
      let decision := blockDecisionTune decision final
      (true,
        if final &&& ~~~blockEncLockout ≠ 0 then
          { decision with audioAllowed := false, recordAllowed := false, streamAllowed := false }
        else decision)

/-- `tg_policy_choose_private_entry`. -/
def choosePrivateEntry (srcEntry dstEntry : Option Entry) : Option Entry :=
  match dstEntry with
  | some e => some e
  | none => srcEntry

/-- `tg_policy_private_mode_is_blocking`. -/
def privateModeIsBlocking (srcEntry dstEntry : Option Entry) : Bool :=
  srcEntry.any (fun e => modeIsBlocking e.mode.cstr) ||
    dstEntry.any fun e => modeIsBlocking e.mode.cstr

/-- The row chosen for a private call, applied. -/
def privateApplyEntry (chosen : Option Entry) (out : CallDecision) : CallDecision :=
  match chosen with
  | some e => decisionApplyEntry out e .exact
  | none => out

/-- `tg_policy_evaluate_private_call`. -/
def evaluatePrivate (opts : Option TuneOpts) (state : TuneState T) (src dst : BitVec 32)
    (encrypted dataCall allowUnlisted : Bool) : CallDecision :=
  let out := { initDecision dst src encrypted dataCall with privateCall := true }
  let srcEntry := lookupExactOnly state.rows src
  let dstEntry := lookupExactOnly state.rows dst
  let chosen := choosePrivateEntry srcEntry dstEntry
  let out := privateApplyEntry chosen out
  let modeBlocking := privateModeIsBlocking srcEntry dstEntry
  let (out, holdMismatch) := privateSetHoldState state.tgHold src dst out
  let out := applyPrivateTuneBlocks opts encrypted dataCall srcEntry.isSome dstEntry.isSome
    allowUnlisted out
  let out := applyEncLockoutBlock opts state dst false dataCall out
  let out := if sessionAvoidContains state src || sessionAvoidContains state dst then
    blockDecisionTuneAndMedia out blockSessionAvoid else out
  let out := if callSkipBlocking state src (state.clock 0) ||
      callSkipBlocking state dst (state.clock 1) then
    blockDecisionTuneAndMedia out blockCallSkip else out
  let out := if modeBlocking then blockDecisionTuneAndMedia out blockMode else out
  let out := if holdMismatch then blockDecisionTuneAndMedia out blockHold else out
  match chosen with
  | none => out
  | some e =>
    if !modeBlocking && !holdMismatch then
      applyExplicitMediaBlocks out (e.audio = 0) (e.audio ≠ 0 && e.record = 0)
        (e.audio ≠ 0 && e.stream = 0)
    else out

/-- `dsd_tg_policy_evaluate_private_call`. -/
def evaluatePrivateCall (opts : Option TuneOpts) (state : TuneState T) (src dst : BitVec 32)
    (encrypted dataCall : Bool) : CallDecision :=
  evaluatePrivate opts state src dst encrypted dataCall false

/-- `dsd_tg_policy_evaluate_private_grant`. -/
def evaluatePrivateGrant (opts : Option TuneOpts) (state : TuneState T) (src dst : BitVec 32)
    (encrypted dataCall : Bool) : CallDecision :=
  evaluatePrivate opts state src dst encrypted dataCall true

end Evaluate

end DsdNeo.TgPolicy
