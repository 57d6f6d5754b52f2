import DsdNeo.Core.Cache.Quarantine
import Mathlib.Tactic.Linarith

/-!
# Grants after a call ended

An accepted END of a voice call arms a guard on its slot: until a quiet gap, an age limit or
evidence of a new call, an update on the control channel that names the ended call may only be
left over from it. One such update is let through to be tried; the others are held before
anything of the receiver moves.
-/

namespace DsdNeo.P25Trunk

/-- `p25_sm_grant_provenance_e`. -/
inductive Provenance
  | unknown | assignment | update
  deriving DecidableEq, Repr

/-- What `p25_sm_event_t` says of a channel grant. -/
structure GrantEvent where
  channel : ℕ
  tg : ℤ
  src : ℤ
  dst : ℤ
  svcBits : ℤ
  isGroup : Bool
  grantProvenance : Provenance
  dataCallOverride : ℤ
  deriving DecidableEq, Repr

/-- `SVC_IS_DATA`, of service options that are valid. -/
def svcIsData (svc : ℕ) : Bool := svc.testBit 4

/-- The field `data_call` of `p25_grant_eval_ctx_from_event`. -/
def GrantEvent.dataCall (ev : GrantEvent) : Bool :=
  if 0 < ev.dataCallOverride then true
  else if ev.dataCallOverride < 0 then false
  else decide (0 ≤ ev.svcBits) && svcIsData ev.svcBits.toNat

/-- `p25_grant_ota_target_id`. -/
def GrantEvent.otaTargetId (ev : GrantEvent) : ℤ := if ev.isGroup then ev.tg else ev.dst

/-- `p25_source_id_known`. -/
def sourceIdKnown (src : ℤ) : Bool := 0 < src && src != 0xFFFFFD && src != 0xFFFFFF

/-- What the guard reads of `p25_sm_slot_ctx_t`. -/
structure SlotCtx where
  freqHz : ℤ
  dst : ℤ
  isGroup : Bool
  dataCall : Bool
  lastEndM : ℚ
  lastEndTg : ℤ
  lastEndSrc : ℤ
  deriving DecidableEq, Repr

/-- `p25_sm_recent_call_end_t`. -/
structure RecentCallEnd where
  endM : ℚ
  lastMatchM : ℚ
  freqHz : ℤ
  slot : ℤ
  target : ℤ
  src : ℤ
  isGroup : Bool
  probeAttempted : Bool
  valid : Bool
  deriving DecidableEq, Repr

/-- The zero bytes an initialised context and an external retune leave. -/
def RecentCallEnd.zero : RecentCallEnd := ⟨0, 0, 0, 0, 0, 0, false, false, false⟩

/-- `p25_stale_regrant_guard_clear`. -/
def staleRegrantGuardClear : RecentCallEnd := { RecentCallEnd.zero with slot := -1 }

/-- The number of a slot. -/
def slotNumber (slot : Bool) : ℤ := if slot then 1 else 0

/-- `P25_STALE_REGRANT_QUIET_S`, `P25_STALE_REGRANT_PROBE_DELAY_S` and
`P25_STALE_REGRANT_MAX_AGE_S`. -/
def staleRegrant : Quarantine.Limits ℚ := ⟨2, 2, 10⟩

/-- The target `p25_stale_regrant_guard_arm` takes of a slot. -/
def SlotCtx.endTarget (slotCtx : SlotCtx) : ℤ :=
  if slotCtx.isGroup then slotCtx.lastEndTg else slotCtx.dst

/-- `p25_stale_regrant_guard_slot_eligible`. -/
def staleRegrantGuardSlotEligible (slotCtx : SlotCtx) (target : ℤ) : Bool :=
  !slotCtx.dataCall && 0 < slotCtx.lastEndM && 0 < slotCtx.freqHz && 0 < target

/-- `p25_stale_regrant_guard_same_epoch`. -/
def staleRegrantGuardSameEpoch (guard : RecentCallEnd) (slotCtx : SlotCtx) (slot : Bool)
    (target : ℤ) : Bool :=
  guard.valid && guard.freqHz == slotCtx.freqHz && guard.slot == slotNumber slot &&
    guard.target == target && guard.src == slotCtx.lastEndSrc &&
    guard.isGroup == slotCtx.isGroup

/-- The guard of a call that ended on a slot at a time. -/
def RecentCallEnd.ofEnd (slotCtx : SlotCtx) (slot : Bool) (now : ℚ) : RecentCallEnd :=
  ⟨now, 0, slotCtx.freqHz, slotNumber slot, slotCtx.endTarget, slotCtx.lastEndSrc,
    slotCtx.isGroup, false, true⟩

/-- `p25_stale_regrant_guard_arm`, of one slot. -/
def staleRegrantGuardArm (guard : RecentCallEnd) (slotCtx : SlotCtx) (slot : Bool) (now : ℚ) :
    RecentCallEnd :=
  if staleRegrantGuardSlotEligible slotCtx slotCtx.endTarget = false then guard
  else if staleRegrantGuardSameEpoch guard slotCtx slot slotCtx.endTarget then guard
  else .ofEnd slotCtx slot now

/-- `p25_stale_regrant_identity_matches`. -/
def staleRegrantIdentityMatches (guard : RecentCallEnd) (ev : GrantEvent) (freq : ℤ)
    (slot : Bool) : Bool :=
  freq == guard.freqHz && slotNumber slot == guard.slot && ev.isGroup == guard.isGroup &&
    ev.otaTargetId == guard.target

/-- `p25_stale_regrant_has_new_source`. -/
def staleRegrantHasNewSource (guard : RecentCallEnd) (ev : GrantEvent) : Bool :=
  sourceIdKnown guard.src && sourceIdKnown ev.src && ev.src != guard.src

/-- `p25_stale_regrant_clear_for_new_epoch`, as the test it makes. -/
def staleRegrantNewEpoch (guard : RecentCallEnd) (ev : GrantEvent) : Bool :=
  ev.grantProvenance == .assignment || staleRegrantHasNewSource guard ev

/-- What the guard answers a grant: pass, whether as the probe, or held. -/
inductive Verdict
  | passed (probe : Bool)
  | held
  deriving DecidableEq, Repr

/-- `p25_stale_regrant_update_blocked`. -/
def staleRegrantUpdateBlocked (guard : RecentCallEnd) (now : ℚ) : Verdict × RecentCallEnd :=
  let age := now - guard.endM
  let quiet := if 0 < guard.lastMatchM then now - guard.lastMatchM else 0
  if staleRegrant.maxAge ≤ age then (.passed false, staleRegrantGuardClear)
  else if quiet < 0 then (.passed false, staleRegrantGuardClear)
  else if staleRegrant.quiet ≤ quiet then (.passed false, staleRegrantGuardClear)
  else if staleRegrant.delay ≤ age ∧ guard.probeAttempted = false then
    (.passed true, { guard with probeAttempted := true, lastMatchM := now })
  else (.held, { guard with lastMatchM := now })

/-- `p25_grant_stale_regrant_blocked`, of the guard of the grant's slot. -/
def grantStaleRegrantBlocked (guard : RecentCallEnd) (ev : GrantEvent) (freq : ℤ) (slot : Bool)
    (dataCall : Bool) (now : ℚ) : Verdict × RecentCallEnd :=
  if dataCall then (.passed false, guard)
  else if guard.valid = false ∨ staleRegrantIdentityMatches guard ev freq slot = false then
    (.passed false, guard)
  else if guard.endM ≤ 0 ∨ now - guard.endM < 0 then (.passed false, staleRegrantGuardClear)
  else if staleRegrantNewEpoch guard ev then (.passed false, staleRegrantGuardClear)
  else staleRegrantUpdateBlocked guard now

/-- The voice channel, as far as a tune and a probe name it. -/
structure VoiceChannel where
  tuned : Bool
  freqHz : ℤ
  tuneCount : ℕ
  staleRegrantProbe : Bool
  staleRegrantProbeSlot : Option Bool
  deriving DecidableEq, Repr

/-- The context apart from its guards; `ρ` is everything no grant is judged by here. -/
structure Receiver (ρ : Type) where
  slots : Bool → SlotCtx
  vc : VoiceChannel
  rest : ρ

/-- `p25_sm_ctx_t`: the guards, and the rest of the context. -/
structure Ctx (ρ : Type) where
  recentCallEnds : Bool → RecentCallEnd
  receiver : Receiver ρ

/-- What is answered before the guard is asked: `grant_allowed` with what it noted, the frequency
and kind of the channel, and the receive filter. -/
structure Admission (ρ : Type) where
  allowed : Bool
  noted : ρ
  freq : ℤ
  tdma : Bool
  receiveAllowed : Bool

/-- The checks `handle_grant` makes before the guard. -/
def Admission.reachesGuard {ρ : Type} (adm : Admission ρ) : Bool :=
  adm.allowed && adm.freq != 0 && adm.receiveAllowed

/-- The field `logical_slot` of a route: the channel's slot, or the one a single carrier has. -/
def GrantEvent.logicalSlot (ev : GrantEvent) (tdma : Bool) : Bool := tdma && ev.channel.testBit 0

/-- How the checks after the guard end: the receiver they leave, and whether it was tuned. -/
structure Followed (ρ : Type) where
  receiver : Receiver ρ
  tunes : Bool

variable {ρ : Type}

/-- `p25_grant_start_stale_regrant_probe`. -/
def startStaleRegrantProbe (vc : VoiceChannel) (probe slot : Bool) : VoiceChannel :=
  { vc with
    staleRegrantProbe := probe
    staleRegrantProbeSlot := if probe then some slot else none }

/-- The end of `handle_grant`, of a grant that passed the guard. -/
def Followed.finish (followed : Followed ρ) (probe slot : Bool) : Receiver ρ :=
  if followed.tunes then
    { followed.receiver with vc := startStaleRegrantProbe followed.receiver.vc probe slot }
  else followed.receiver

/-- What the guard of a grant's slot answers. -/
def Ctx.staleVerdict (ctx : Ctx ρ) (ev : GrantEvent) (adm : Admission ρ) (now : ℚ) :
    Verdict × RecentCallEnd :=
  let slot := ev.logicalSlot adm.tdma
  grantStaleRegrantBlocked (ctx.recentCallEnds slot) ev adm.freq slot ev.dataCall now

/-- `handle_grant`. -/
def handleGrant (ctx : Ctx ρ) (ev : GrantEvent) (adm : Admission ρ) (followed : Followed ρ)
    (now : ℚ) : Ctx ρ :=
  let receiver := { ctx.receiver with rest := adm.noted }
  if adm.reachesGuard = false then { ctx with receiver }
  else
    let slot := ev.logicalSlot adm.tdma
    let answer := ctx.staleVerdict ev adm now
    let recentCallEnds := Function.update ctx.recentCallEnds slot answer.2
    match answer.1 with
    | .held => ⟨recentCallEnds, receiver⟩
    | .passed probe => ⟨recentCallEnds, followed.finish probe slot⟩

/-- `p25_voice_end_record`, of an END that arms. -/
def voiceEndRecord (slotCtx : SlotCtx) (now : ℚ) (tg src : ℤ) : SlotCtx :=
  { slotCtx with lastEndM := now, lastEndTg := tg, lastEndSrc := src }

/-- `handle_voice_end` of an END that is accepted and arms the guard. -/
def handleVoiceEnd (ctx : Ctx ρ) (slot : Bool) (tg src : ℤ) (vc : VoiceChannel) (rest : ρ)
    (now : ℚ) : Ctx ρ :=
  let slotCtx := voiceEndRecord (ctx.receiver.slots slot) now tg src
  { recentCallEnds := Function.update ctx.recentCallEnds slot
      (staleRegrantGuardArm (ctx.recentCallEnds slot) slotCtx slot now)
    receiver := ⟨Function.update ctx.receiver.slots slot slotCtx, vc, rest⟩ }

/-- `p25_voice_start_clear_activity_guards`. -/
def voiceStartClearActivityGuards (ctx : Ctx ρ) (slot : Bool) : Ctx ρ :=
  let guard :=
    if (ctx.recentCallEnds slot).valid then staleRegrantGuardClear else ctx.recentCallEnds slot
  let vc := ctx.receiver.vc
  if vc.staleRegrantProbe = false ∨ vc.staleRegrantProbeSlot ≠ some slot then
    { ctx with recentCallEnds := Function.update ctx.recentCallEnds slot guard }
  else
    { recentCallEnds := Function.update ctx.recentCallEnds slot staleRegrantGuardClear
      receiver := { ctx.receiver with vc := startStaleRegrantProbe vc false slot } }

/-- One event of a run. What the rest of the machine makes of it is given with it. -/
inductive Op (ρ : Type)
  /-- A grant on the control channel. -/
  | grant (ev : GrantEvent) (adm : Admission ρ) (followed : Followed ρ)
  /-- An END that is accepted and arms the guard of its slot. -/
  | ended (slot : Bool) (tg src : ℤ) (vc : VoiceChannel) (rest : ρ)
  /-- A voice start that gets as far as the guards. -/
  | activity (slot : Bool) (receiver : Receiver ρ)
  /-- A retune from outside, or the reset of a context whose channel was taken from outside. -/
  | retuned (receiver : Receiver ρ)
  /-- Everything else: a release, a tick, an END that is not accepted or does not arm. -/
  | other (receiver : Receiver ρ)

/-- One event at a time. -/
def Ctx.step (ctx : Ctx ρ) (now : ℚ) : Op ρ → Ctx ρ
  | .grant ev adm followed => handleGrant ctx ev adm followed now
  | .ended slot tg src vc rest => handleVoiceEnd ctx slot tg src vc rest now
  | .activity slot receiver =>
    { voiceStartClearActivityGuards ctx slot with receiver }
  | .retuned receiver => ⟨fun _ => .zero, receiver⟩
  | .other receiver => { ctx with receiver }

/-- A run of timed events. -/
def Ctx.run (ctx : Ctx ρ) : List (ℚ × Op ρ) → Ctx ρ
  | [] => ctx
  | (now, op) :: ops => (ctx.step now op).run ops

end DsdNeo.P25Trunk
