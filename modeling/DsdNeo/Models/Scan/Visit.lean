import Mathlib.Data.Rat.Floor

/-!
# Visits of the -Y scanner

`scan_voice_gate.c`: a row is kept while policy-allowed voice is heard on it, and no longer than
the visit cap. The cap is measured from an anchor that retunes set and that ticks move on while the
visit cannot end. Times are exact; an anchor below zero is none.
-/

namespace DsdNeo.ScanVisit

/-- `dsd_scan_voice_gate_phase`. -/
inductive GatePhase where
  | off
  | qualify
  | voice
  | tail
  deriving DecidableEq

/-- `dsd_scan_stay_reason`, as far as -Y gives one. -/
inductive Stay where
  | none
  | retunePending
  | voice
  | activityHold
  | manualHold
  | idleDwell
  | hangtime
  | carrier
  | tonePending
  deriving DecidableEq

/-- `dsd_scan_analog_tone_gate`. -/
inductive ToneGate where
  | off
  | pending
  | allowed
  | rejected
  deriving DecidableEq

/-- `dsd_receive_verdict`. -/
inductive Verdict where
  | off
  | checking
  | allowed
  | rejected
  deriving DecidableEq

/-- `dsd_call_phase`. -/
inductive CallPhase where
  | idle
  | active
  | ended
  deriving DecidableEq

/-- `dsd_call_kind`. -/
inductive CallKind where
  | unknown
  | voice
  | groupVoice
  | privateVoice
  | data
  deriving DecidableEq

/-- `dsd_call_snapshot`, with what the policies say of the call. -/
structure Call where
  phase : CallPhase
  kind : CallKind
  receiveVerdict : Verdict
  policyTargetId : ℕ
  otaTargetId : ℕ
  otaSourceId : ℕ
  startedM : ℚ
  mediaStartedM : ℚ
  mediaUpdatedM : ℚ
  mediaActive : Bool
  identityAdmitted : Bool
  tuneAllowed : Bool
  deriving DecidableEq

/-- The options of a scan. -/
structure Opts where
  scannerMode : ℤ
  trunkScanEnabled : ℤ
  scanVoiceOnly : ℤ
  analogOnly : ℤ
  m17Encoder : ℤ
  scanVoiceHoldMs : ℤ
  scanVoiceQualifyMs : ℤ
  scanMaxVisitMs : ℤ
  trunkHangtime : ℚ
  deriving DecidableEq

/-- A row of the list. -/
structure Row where
  frequency : ℤ
  avoided : Bool
  deriving DecidableEq

/-- What the gate reads and the rest of the program sets. -/
structure Env where
  opts : Opts
  lcnFreqRoll : ℤ
  lcnScanHold : Bool
  tgHold : ℕ
  /-- The calls that the slots have. -/
  calls : List Call
  rows : List Row
  /-- `dsd_engine_channel_scan_waiting`. -/
  waiting : Bool
  toneGate : ToneGate
  /-- `dsd_scan_analog_carrier_open`. -/
  carrierOpen : Bool
  lastCcSyncTime : ℤ
  deriving DecidableEq

/-- `dsd_scan_timing_publication`. -/
structure Timing where
  startedM : ℚ
  deadlineM : ℚ
  visitDeadlineM : ℚ
  spanMs : ℕ
  dwellMs : ℕ
  holdMs : ℕ
  visitLimitMs : ℕ
  reason : Stay
  conventional : Bool
  deriving DecidableEq

open Timing

/-- What the gate keeps: its anchors, the cap's, and what it published last. -/
structure Gate where
  arriveM : ℚ
  syncM : ℚ
  voiceM : ℚ
  rollSeen : ℤ
  holdSeen : Bool
  phase : GatePhase
  visitSinceM : ℚ
  visitRollSeen : ℤ
  visitRearmPending : Bool
  timing : Timing
  deriving DecidableEq

section Functions

variable (env : Env)

/-- `scan_voice_gate_enabled`. -/
def voiceGateEnabled : Bool :=
  env.opts.scanVoiceOnly = 1 ∧ ¬(env.opts.analogOnly = 1 ∧ env.opts.m17Encoder ≠ 1)

/-- `scan_voice_resolve_ms`. -/
def voiceResolveMs (configured fallback : ℤ) : ℤ := if configured ≤ 0 then fallback else configured

/-- The hold after voice, in milliseconds. -/
def holdMs : ℤ := voiceResolveMs env.opts.scanVoiceHoldMs 2000

/-- The window to qualify in, in milliseconds. -/
def qualifyMs : ℤ := voiceResolveMs env.opts.scanVoiceQualifyMs 1000

/-- The target a call is compared by. -/
def Call.target (c : Call) : ℕ := if c.policyTargetId ≠ 0 then c.policyTargetId else c.otaTargetId

/-- `scan_voice_snapshot_is_voice`. -/
def Call.isVoice (c : Call) : Bool :=
  (c.phase = .active ∨ c.phase = .ended) ∧ c.kind ≠ .data ∧
    ¬(c.mediaStartedM ≤ 0 ∨ c.mediaUpdatedM ≤ 0) ∧
    1 / 10 ≤ c.mediaUpdatedM -
      if c.startedM > c.mediaStartedM then c.startedM else c.mediaStartedM

/-- `scan_voice_snapshot_policy_allows`. -/
def Call.policyAllows (c : Call) : Bool := c.identityAdmitted && (c.target == 0 || c.tuneAllowed)

/-- The latest media of some calls, below zero when there is none. -/
def latestMedia (calls : List Call) : ℚ :=
  calls.foldl (fun m c => if c.mediaUpdatedM > m then c.mediaUpdatedM else m) (-1)

/-- `dsd_scan_voice_probe`: the active and the retained media. -/
def voiceProbe : ℚ × ℚ :=
  let voices := env.calls.filter fun c => c.isVoice && c.policyAllows
  (latestMedia (voices.filter fun c => c.phase = .active ∧ c.mediaActive = true),
    latestMedia voices)

/-- `dsd_scan_voice_gate_note_retune`. -/
def noteRetune (g : Gate) (now : ℚ) : Gate :=
  { g with
    visitSinceM := now
    visitRollSeen := env.lcnFreqRoll
    visitRearmPending := false
    arriveM := now
    syncM := -1
    voiceM := -1
    rollSeen := env.lcnFreqRoll
    holdSeen := env.lcnScanHold
    phase := .qualify }

/-- `scan_voice_gate_track_visit`. -/
def trackVisit (g : Gate) (now : ℚ) : Gate :=
  let g := if env.lcnFreqRoll ≠ g.rollSeen then noteRetune env g now else g
  let g := if g.holdSeen ∧ ¬env.lcnScanHold then noteRetune env g now else g
  { g with holdSeen := env.lcnScanHold }

/-- `scan_voice_gate_publish_phase`. -/
def publishPhase (g : Gate) (mediaInVisit : Bool) : Gate :=
  { g with phase := if mediaInVisit then .voice else if 0 ≤ g.voiceM then .tail else .qualify }

/-- `dsd_scan_voice_gate_tick`. -/
def gateTick (g : Gate) (synced : Bool) (now : ℚ) : Gate :=
  if env.opts.scannerMode ≠ 1 then g
  else if !voiceGateEnabled env then { g with phase := .off }
  else
    let g := trackVisit env g now
    let g := if g.arriveM < 0 then { g with arriveM := now } else g
    let g := if g.syncM < 0 ∧ synced then { g with syncM := now } else g
    let (active, retained) := voiceProbe env
    let g :=
      if (0 ≤ retained ∧ g.arriveM ≤ retained) ∧ g.voiceM < retained then
        { g with voiceM := retained }
      else g
    publishPhase g (0 ≤ active ∧ g.arriveM ≤ active)

/-- `dsd_scan_voice_gate_owns_step`. -/
def ownsStep (g : Gate) : Bool := voiceGateEnabled env && (0 ≤ g.voiceM || 0 ≤ g.syncM)

/-- `dsd_scan_voice_gate_should_step`. -/
def shouldStep (g : Gate) (now : ℚ) : Bool :=
  if !ownsStep env g then false
  else if env.lcnScanHold then false
  else if 0 ≤ g.voiceM then holdMs env / 1000 ≤ now - g.voiceM
  else if 0 ≤ g.syncM then qualifyMs env / 1000 ≤ now - g.syncM
  else false

/-- `scan_visit_cap_enabled`. -/
def visitCapEnabled : Bool := 1000 ≤ env.opts.scanMaxVisitMs

/-- `scan_visit_scanner_owns`. -/
def visitScannerOwns : Bool := env.opts.scannerMode = 1 ∧ env.opts.trunkScanEnabled ≠ 1

/-- `dsd_scan_tg_hold_call_active`. -/
def tgHoldCallActive : Bool :=
  env.tgHold ≠ 0 && env.calls.any fun c =>
    (c.phase = .active ∧ c.kind ≠ .data ∧ c.receiveVerdict ≠ .checking ∧
      c.receiveVerdict ≠ .rejected) &&
    (env.tgHold == c.target || (c.kind = .privateVoice ∧ env.tgHold = c.otaSourceId))

/-- `scan_visit_suspended`. -/
def visitSuspended : Bool := env.lcnScanHold || tgHoldCallActive env

/-- `dsd_state_trunk_lcn_usable_count`. -/
def usableCount : ℕ := env.rows.countP fun r => r.frequency ≠ 0 && !r.avoided

/-- `scan_visit_rearms`. -/
def visitRearms : Bool := visitSuspended env || usableCount env < 2

/-- The anchor dropped. -/
def dropVisit (g : Gate) : Gate :=
  { g with visitSinceM := -1, visitRollSeen := env.lcnFreqRoll, visitRearmPending := false }

/-- `dsd_engine_scan_visit_tick`. -/
def visitTick (g : Gate) (now : ℚ) : Gate :=
  if !visitScannerOwns env then dropVisit env g
  else if !visitCapEnabled env then dropVisit env g
  else
    let g :=
      if env.lcnFreqRoll ≠ g.visitRollSeen then
        { g with
          visitRollSeen := env.lcnFreqRoll, visitSinceM := now, visitRearmPending := false }
      else g
    let g := if g.visitSinceM < 0 then { g with visitSinceM := now } else g
    let rearm := visitRearms env
    let g := if rearm || g.visitRearmPending then { g with visitSinceM := now } else g
    { g with visitRearmPending := rearm }

/-- The cap in seconds. -/
def visitCap : ℚ := env.opts.scanMaxVisitMs / 1000

/-- `dsd_engine_scan_visit_deadline_m`. -/
def visitDeadlineM (g : Gate) : ℚ :=
  if !visitScannerOwns env || !visitCapEnabled env then -1
  else if g.visitSinceM < 0 ∨ g.visitRearmPending then -1
  else if env.lcnFreqRoll ≠ g.visitRollSeen then -1
  else if env.waiting then -1
  else if visitRearms env then -1
  else g.visitSinceM + visitCap env

/-- `dsd_engine_scan_visit_expired`. -/
def visitExpired (g : Gate) (now : ℚ) : Bool :=
  0 ≤ visitDeadlineM env g ∧ visitDeadlineM env g ≤ now

/-- `scan_y_timing_seed`. -/
def timingSeed : Timing where
  startedM := -1
  deadlineM := -1
  visitDeadlineM := -1
  spanMs := 0
  dwellMs := if voiceGateEnabled env then (qualifyMs env).toNat else 0
  holdMs := if voiceGateEnabled env then (holdMs env).toNat else 0
  visitLimitMs := if visitCapEnabled env then env.opts.scanMaxVisitMs.toNat else 0
  reason := .none
  conventional := true

/-- `scan_y_timing_arm`. -/
def Timing.arm (out : Timing) (startedM : ℚ) (spanMs : ℕ) : Timing :=
  { out with startedM := startedM, deadlineM := startedM + spanMs / 1000, spanMs := spanMs }

/-- `scan_y_timing_fill_gate`. -/
def Timing.fillGate (out : Timing) (g : Gate) : Timing :=
  if 0 ≤ g.voiceM then
    let reason : Stay := if g.phase = .voice then .voice else .activityHold
    arm { out with reason := reason } g.voiceM out.holdMs
  else arm { out with reason := .idleDwell } g.syncM out.dwellMs

/-- `scan_y_timing_span_ms`, of whole seconds. -/
def timingSpanMs (seconds : ℤ) : ℕ :=
  if 2 ^ 32 - 1 ≤ seconds * 1000 then 2 ^ 32 - 1 else (seconds * 1000).toNat

/-- `scan_y_timing_fill_hangtime`. -/
def Timing.fillHangtime (out : Timing) (now nowWall : ℚ) : Timing :=
  let out :=
    { out with
      reason := if env.carrierOpen then .carrier else .hangtime, dwellMs := 0, holdMs := 0 }
  if env.lastCcSyncTime = 0 ∨ ¬0 ≤ env.opts.trunkHangtime then out
  else
    let started := now + (env.lastCcSyncTime - nowWall)
    let span := ⌊env.opts.trunkHangtime⌋ + 1
    { out with startedM := started, deadlineM := started + span, spanMs := timingSpanMs span }

/-- The report of `dsd_engine_scan_y_timing_tick`, where it makes one. -/
def timingReport (g : Gate) (now nowWall : ℚ) : Option Timing :=
  if env.opts.scannerMode ≠ 1 ∨ env.opts.trunkScanEnabled = 1 then none
  else
    let seed := timingSeed env
    let report :=
      if env.waiting then { seed with reason := .retunePending }
      else if env.lcnScanHold then { seed with reason := .manualHold }
      else if env.toneGate = .rejected then { seed with reason := .carrier }
      else if env.toneGate = .pending then { seed with reason := .tonePending }
      else if ownsStep env g then seed.fillGate g
      else seed.fillHangtime env now nowWall
    some { report with visitDeadlineM := visitDeadlineM env g }

/-- `dsd_engine_scan_y_timing_tick`. -/
def timingTick (g : Gate) (now nowWall : ℚ) : Gate :=
  { g with timing := (timingReport env g now nowWall).getD g.timing }

end Functions

/-- A scanner: what its gate reads and what it keeps. -/
structure State where
  env : Env
  gate : Gate

/-- What happens at one time. An edit is anything else the rest of the program does: avoids and the
cap, the talkgroup hold, calls, a moved roll, another scanner. -/
inductive Op where
  | visitTick
  | gateTick (synced : Bool)
  | noteRetune
  | timingTick (nowWall : ℚ)
  | holdToggle (decodeTime : ℤ)
  | loadChannelMap (rows : List Row)
  | edit (env : Env)

/-- `apply_manual_scan_hold_toggle`: letting go anchors the visit anew. -/
def holdToggle (s : State) (decodeTime : ℤ) (now : ℚ) : State :=
  if s.env.lcnScanHold then
    { env := { s.env with lcnScanHold := false, lastCcSyncTime := decodeTime }
      gate := { s.gate with
        visitSinceM := now, visitRollSeen := s.env.lcnFreqRoll, visitRearmPending := false } }
  else { s with env := { s.env with lcnScanHold := true } }

/-- `chan_map_adopt`, and `svc_clear_channel_map` for no rows: the visit goes with its row. -/
def loadChannelMap (s : State) (rows : List Row) : State where
  env := { s.env with rows := rows, lcnFreqRoll := 0, lcnScanHold := false }
  gate := { s.gate with visitSinceM := -1, visitRollSeen := 0, visitRearmPending := false }

/-- The state after it. -/
def step (s : State) (now : ℚ) : Op → State
  | .visitTick => { s with gate := visitTick s.env s.gate now }
  | .gateTick synced => { s with gate := gateTick s.env s.gate synced now }
  | .noteRetune => { s with gate := noteRetune s.env s.gate now }
  | .timingTick nowWall => { s with gate := timingTick s.env s.gate now nowWall }
  | .holdToggle decodeTime => holdToggle s decodeTime now
  | .loadChannelMap rows => loadChannelMap s rows
  | .edit env => { s with env := { env with lcnScanHold := s.env.lcnScanHold } }

/-- The state after a run. -/
def run (s : State) : List (ℚ × Op) → State
  | [] => s
  | (now, op) :: ops => run (step s now op) ops

/-- The clock of a run does not go back, from one time to another. -/
def Clocked : ℚ → List (ℚ × Op) → ℚ → Prop
  | start, [], stop => start ≤ stop
  | start, (now, _) :: ops, stop => start ≤ now ∧ Clocked now ops stop

/-- A visit is anchored anew: by a note of the tuner, by a gate tick that sees the row moved or a
hold let go, or by the operator who lets a hold go. -/
def Opens (s : State) : Op → Prop
  | .noteRetune => True
  | .gateTick _ => s.env.opts.scannerMode = 1 ∧ voiceGateEnabled s.env = true ∧
      (s.env.lcnFreqRoll ≠ s.gate.rollSeen ∨ s.gate.holdSeen = true ∧ s.env.lcnScanHold = false)
  | .holdToggle _ => s.env.lcnScanHold = true
  | _ => False

/-- A visit tick finds the scanner owning the rotation, the cap enabled, the roll unchanged, no
suspension and two usable rows; and no other channel map takes the row away. -/
def Ages (s : State) : Op → Prop
  | .visitTick => visitScannerOwns s.env = true ∧ visitCapEnabled s.env = true ∧
      s.env.lcnFreqRoll = s.gate.visitRollSeen ∧ visitSuspended s.env = false ∧
      2 ≤ usableCount s.env
  | .loadChannelMap _ => False
  | _ => True

/-- At the times of `p` no visit was anchored anew and every visit tick let the visit age. -/
def Undisturbed (p : ℚ → Prop) : State → List (ℚ × Op) → Prop
  | _, [] => True
  | s, (now, op) :: ops => (p now → ¬Opens s op ∧ Ages s op) ∧ Undisturbed p (step s now op) ops

/-- The anchor of the cap, the roll it is for, and a re-arm that is owed. -/
def Gate.visit (g : Gate) : ℚ × ℤ × Bool := (g.visitSinceM, g.visitRollSeen, g.visitRearmPending)

theorem visitRearms_eq_false {env : Env} (hsuspended : visitSuspended env = false)
    (husable : 2 ≤ usableCount env) : visitRearms env = false := by
  rw [visitRearms, hsuspended, Bool.false_or]
  exact decide_eq_false husable.not_gt

theorem visit_trackVisit (env : Env) (g : Gate) (now : ℚ) :
    (trackVisit env g now).visit =
      if env.lcnFreqRoll ≠ g.rollSeen ∨ g.holdSeen = true ∧ env.lcnScanHold = false then
        (now, env.lcnFreqRoll, false) else g.visit := by
  unfold trackVisit
  by_cases hroll : env.lcnFreqRoll ≠ g.rollSeen
  · have hheld : ¬(env.lcnScanHold = true ∧ ¬env.lcnScanHold = true) := fun h => h.2 h.1
    simp [hroll, noteRetune, Gate.visit]
  · by_cases hhold : g.holdSeen = true ∧ env.lcnScanHold = false
    · simp [hroll, hhold, noteRetune, Gate.visit]
    · have hkeep : ¬(g.holdSeen = true ∧ ¬env.lcnScanHold = true) := by simpa using hhold
      simp only [hroll, if_neg hkeep, hhold, if_false, or_self, Gate.visit]

/-- A gate tick moves the anchor by a retune note alone. -/
theorem visit_gateTick (env : Env) (g : Gate) (synced : Bool) (now : ℚ) :
    Opens ⟨env, g⟩ (.gateTick synced) ∧
        (gateTick env g synced now).visit = (now, env.lcnFreqRoll, false) ∨
      ¬Opens ⟨env, g⟩ (.gateTick synced) ∧ (gateTick env g synced now).visit = g.visit := by
  unfold gateTick
  by_cases hmode : env.opts.scannerMode ≠ 1
  · rw [if_pos hmode]
    exact Or.inr ⟨fun hopen => hmode hopen.1, rfl⟩
  · rw [if_neg hmode]
    by_cases hon : voiceGateEnabled env = true
    · have hvisit := visit_trackVisit env g now
      rw [if_neg (by simp [hon])]
      -- the voice and sync anchors are set behind the visit's
      generalize trackVisit env g now = g' at hvisit
      split at hvisit
      · case isTrue hopen =>
          refine Or.inl ⟨⟨not_not.mp hmode, hon, hopen⟩, ?_⟩
          rw [← hvisit]
          simp only [Gate.visit, publishPhase]
          split_ifs <;> rfl
      · case isFalse hopen =>
          refine Or.inr ⟨fun h => hopen h.2.2, ?_⟩
          rw [← hvisit]
          simp only [Gate.visit, publishPhase]
          split_ifs <;> rfl
    · rw [if_pos (by simpa using hon)]
      exact Or.inr ⟨fun hopen => hon hopen.2.1, rfl⟩

/-- A toggle moves the anchor where it lets a hold go. -/
theorem visit_holdToggle (s : State) (decodeTime : ℤ) (now : ℚ) :
    s.env.lcnScanHold = true ∧
        (holdToggle s decodeTime now).gate.visit = (now, s.env.lcnFreqRoll, false) ∨
      ¬s.env.lcnScanHold = true ∧ (holdToggle s decodeTime now).gate.visit = s.gate.visit := by
  rw [holdToggle]
  split
  · case isTrue hheld => exact Or.inl ⟨hheld, rfl⟩
  · case isFalse hfree => exact Or.inr ⟨hfree, rfl⟩

/-- The anchor is not before a time, or it is none to measure from. -/
def Gate.Since (g : Gate) (start : ℚ) : Prop :=
  g.visitSinceM < 0 ∨ g.visitRearmPending = true ∨ start ≤ g.visitSinceM

variable {s : State} {now start : ℚ}

variable {g : Gate}

theorem Gate.Since.of_visit {g' : Gate} (h : g.Since start) (hvisit : g'.visit = g.visit) :
    g'.Since start := by
  obtain ⟨hsince, -, hpending⟩ := Prod.mk.inj hvisit |>.imp_right Prod.mk.inj
  rw [Since, hsince, hpending]
  exact h

theorem since_of_opened {roll : ℤ} (h : g.visit = (now, roll, false)) : g.Since now := by
  obtain ⟨hsince, -⟩ := Prod.mk.inj h
  exact Or.inr (Or.inr hsince.ge)

theorem since_visitTick (env : Env) (h : g.Since start) (hclock : start ≤ now) :
    (visitTick env g now).Since start := by
  unfold visitTick Gate.Since at *
  split_ifs <;> grind [dropVisit]

theorem since_visitTick_not_ages (hages : ¬Ages s .visitTick) :
    (visitTick s.env s.gate now).Since now := by
  have hrearms : ¬(s.env.lcnFreqRoll = s.gate.visitRollSeen ∧ visitRearms s.env = false) ∨
      visitScannerOwns s.env = false ∨ visitCapEnabled s.env = false := by
    simp only [Ages, visitRearms] at *
    grind
  unfold visitTick Gate.Since
  split_ifs <;> grind [dropVisit]

/-- The anchor does not go back. -/
theorem since_step (h : s.gate.Since start) (hclock : start ≤ now) (op : Op) :
    (step s now op).gate.Since start := by
  cases op with
  | visitTick => exact since_visitTick s.env h hclock
  | gateTick synced =>
    rcases visit_gateTick s.env s.gate synced now with ⟨-, hvisit⟩ | ⟨-, hvisit⟩
    · exact (since_of_opened hvisit).imp_right (Or.imp_right hclock.trans)
    · exact h.of_visit hvisit
  | noteRetune => exact Or.inr (Or.inr hclock)
  | timingTick nowWall => exact h
  | holdToggle decodeTime =>
    rcases visit_holdToggle s decodeTime now with ⟨-, hvisit⟩ | ⟨-, hvisit⟩
    · exact (since_of_opened hvisit).imp_right (Or.imp_right hclock.trans)
    · exact h.of_visit hvisit
  | loadChannelMap rows => exact .inl neg_one_lt_zero
  | edit env => exact h

/-- What disturbs a visit sets the anchor anew. -/
theorem since_of_disturbed {op : Op} (h : Opens s op ∨ ¬Ages s op) :
    (step s now op).gate.Since now := by
  cases op with
  | visitTick => exact since_visitTick_not_ages (h.resolve_left id)
  | gateTick synced =>
    have hopen := h.resolve_right (not_not.mpr trivial)
    rcases visit_gateTick s.env s.gate synced now with ⟨-, hvisit⟩ | ⟨hnot, -⟩
    · exact since_of_opened hvisit
    · exact absurd hopen hnot
  | noteRetune => exact Or.inr (Or.inr le_rfl)
  | timingTick nowWall => exact absurd h (by simp [Opens, Ages])
  | holdToggle decodeTime =>
    have hopen := h.resolve_right (not_not.mpr trivial)
    rcases visit_holdToggle s decodeTime now with ⟨-, hvisit⟩ | ⟨hnot, -⟩
    · exact since_of_opened hvisit
    · exact absurd hopen hnot
  | loadChannelMap rows => exact .inl neg_one_lt_zero
  | edit env => exact absurd h (by simp [Opens, Ages])

variable {stop : ℚ} {ops : List (ℚ × Op)}

theorem since_run (h : s.gate.Since start) (hclock : Clocked start ops stop) :
    (run s ops).gate.Since start := by
  suffices key : ∀ {now : ℚ}, start ≤ now → Clocked now ops stop →
      s.gate.Since start → (run s ops).gate.Since start from key le_rfl hclock h
  clear h hclock
  induction ops generalizing s with
  | nil => exact fun _ _ h => h
  | cons timed ops ih =>
    intro now hle hclock h
    obtain ⟨time, op⟩ := timed
    have htime := hle.trans hclock.1
    exact ih htime hclock.2 (since_step h htime op)

theorem undisturbed_of_old {p : ℚ → Prop} (hclock : Clocked start ops stop)
    (hold : ∀ now, p now → ¬(run s ops).gate.Since now) : Undisturbed p s ops := by
  induction ops generalizing s start with
  | nil => trivial
  | cons timed ops ih =>
    obtain ⟨now, op⟩ := timed
    refine ⟨fun hp => ?_, ih hclock.2 hold⟩
    by_contra hdisturbed
    have hsince : (step s now op).gate.Since now := since_of_disturbed (by tauto)
    have hrun := since_run hsince hclock.2
    exact hold now hp hrun

theorem old_of_expired (hexpired : visitExpired s.env s.gate now = true) :
    ∀ time, now - visitCap s.env < time → ¬s.gate.Since time := by
  intro time htime hsince
  unfold visitExpired visitDeadlineM at hexpired
  unfold Gate.Since at hsince
  split_ifs at hexpired with howns hnone hroll hwait hrearm
  · norm_num at hexpired
  · norm_num at hexpired
  · norm_num at hexpired
  · norm_num at hexpired
  · norm_num at hexpired
  · simp only [Bool.decide_and, Bool.and_eq_true, decide_eq_true_eq] at hexpired
    rcases hsince with hnone' | hpending | hle
    · exact hnone (Or.inl hnone')
    · exact hnone (Or.inr hpending)
    · linarith [hexpired.2]

/-- A visit that nothing disturbs keeps its anchor and its roll. -/
theorem visit_undisturbed {roll : ℤ} (hstart : 0 ≤ start)
    (hvisit : s.gate.visit = (start, roll, false)) (hrun : Undisturbed (fun _ => True) s ops) :
    (run s ops).gate.visit = (start, roll, false) := by
  induction ops generalizing s with
  | nil => exact hvisit
  | cons timed ops ih =>
    obtain ⟨now, op⟩ := timed
    obtain ⟨hopen, hages⟩ := hrun.1 trivial
    refine ih ?_ hrun.2
    cases op with
    | visitTick =>
      obtain ⟨howns, hcap, hroll, hsuspended, husable⟩ := hages
      obtain ⟨hsince, hseen, hpending⟩ := Prod.mk.inj hvisit |>.imp_right Prod.mk.inj
      have hrearms : visitRearms s.env = false := visitRearms_eq_false hsuspended husable
      have hanchor : ¬s.gate.visitSinceM < 0 := by rw [hsince]; exact hstart.not_gt
      rw [← hvisit]
      simp [step, visitTick, howns, hcap, hroll, hanchor, hrearms, hpending, Gate.visit]
    | gateTick synced =>
      rcases visit_gateTick s.env s.gate synced now with ⟨hopens, -⟩ | ⟨-, hkept⟩
      · exact absurd hopens hopen
      · exact hkept.trans hvisit
    | noteRetune => exact absurd trivial hopen
    | timingTick nowWall => exact hvisit
    | holdToggle decodeTime =>
      rcases visit_holdToggle s decodeTime now with ⟨hopens, -⟩ | ⟨-, hkept⟩
      · exact absurd hopens hopen
      · exact hkept.trans hvisit
    | loadChannelMap rows => exact absurd hages id
    | edit env => exact hvisit

theorem toNat_voiceResolveMs (configured fallback : ℤ) (h : 0 ≤ fallback) :
    (((voiceResolveMs configured fallback).toNat : ℕ) : ℚ) =
      voiceResolveMs configured fallback := by
  have hnonneg : 0 ≤ voiceResolveMs configured fallback := by
    unfold voiceResolveMs
    split <;> omega
  exact_mod_cast Int.toNat_of_nonneg hnonneg

theorem shouldStep_fillGate {env : Env} (howns : ownsStep env g = true)
    (hhold : env.lcnScanHold = false) (time : ℚ) :
    shouldStep env g time = decide (((timingSeed env).fillGate g).deadlineM ≤ time) := by
  have hon : voiceGateEnabled env = true := by
    unfold ownsStep at howns
    exact (Bool.and_eq_true _ _ ▸ howns).1
  have hwindow : ∀ anchor ms : ℚ, ms / 1000 ≤ time - anchor ↔ anchor + ms / 1000 ≤ time :=
    fun anchor ms => by rw [le_sub_iff_add_le, add_comm]
  have hholdMs := toNat_voiceResolveMs env.opts.scanVoiceHoldMs 2000 (by decide)
  have hqualifyMs := toNat_voiceResolveMs env.opts.scanVoiceQualifyMs 1000 (by decide)
  simp only [shouldStep, howns, hhold, Bool.not_true, Bool.false_eq_true, if_false,
    fillGate, timingSeed, hon, if_true]
  by_cases hvoice : 0 ≤ g.voiceM
  · simp only [if_pos hvoice, arm, holdMs, hholdMs, hwindow]
  · have hsync : 0 ≤ g.syncM := by
      simp only [ownsStep, hon, hvoice, decide_false, Bool.false_or, Bool.true_and,
        decide_eq_true_eq] at howns
      exact howns
    simp only [if_neg hvoice, if_pos hsync, arm, qualifyMs, hqualifyMs, hwindow]

theorem step_at_deadline {env : Env} {nowWall : ℚ} {report : Timing}
    (hreport : timingReport env g now nowWall = some report)
    (hreason : report.reason = .voice ∨ report.reason = .activityHold ∨
      report.reason = .idleDwell) (time : ℚ) :
    shouldStep env g time = decide (report.deadlineM ≤ time) := by
  unfold timingReport at hreport
  split at hreport
  · cases hreport
  · obtain rfl := Option.some.inj hreport
    split_ifs at hreason ⊢ with hwait hhold hrejected hpending howns
    · simp at hreason
    · simp at hreason
    · simp at hreason
    · simp at hreason
    · exact shouldStep_fillGate howns (by simpa using hhold) time
    · -- the hangtime window has a reason of its own
      simp only [fillHangtime] at hreason
      split_ifs at hreason <;> simp at hreason

/-- What opens a visit anchors it at its time and for the roll it finds. -/
theorem visit_opened {op : Op} (h : Opens s op) :
    (step s now op).gate.visit = (now, s.env.lcnFreqRoll, false) := by
  cases op with
  | visitTick => exact absurd h id
  | gateTick synced =>
    rcases visit_gateTick s.env s.gate synced now with ⟨-, hvisit⟩ | ⟨hnot, -⟩
    · exact hvisit
    · exact absurd h hnot
  | noteRetune => rfl
  | timingTick nowWall => exact absurd h id
  | holdToggle decodeTime =>
    rcases visit_holdToggle s decodeTime now with ⟨-, hvisit⟩ | ⟨hnot, -⟩
    · exact hvisit
    · exact absurd h hnot
  | loadChannelMap rows => exact absurd h id
  | edit env => exact absurd h id

theorem visitExpired_of_visit {opened : State} (hstart : 0 ≤ start)
    (hvisit : opened.gate.visit = (start, opened.env.lcnFreqRoll, false))
    (hwaiting : opened.env.waiting = false) (howns : visitScannerOwns opened.env = true)
    (hcap : visitCapEnabled opened.env = true) (hsuspended : visitSuspended opened.env = false)
    (husable : 2 ≤ usableCount opened.env) (now : ℚ) :
    visitExpired opened.env opened.gate now = decide (start + visitCap opened.env ≤ now) := by
  obtain ⟨hsince, hseen, hpending⟩ := Prod.mk.inj hvisit |>.imp_right Prod.mk.inj
  have hanchor : ¬start < 0 := hstart.not_gt
  have hrearms : visitRearms opened.env = false := visitRearms_eq_false hsuspended husable
  have hpos : 0 ≤ start + visitCap opened.env := by
    have hms : 1000 ≤ opened.env.opts.scanMaxVisitMs := by simpa [visitCapEnabled] using hcap
    have hms' : (0 : ℚ) ≤ opened.env.opts.scanMaxVisitMs := by
      exact_mod_cast hms.trans' (by decide)
    exact add_nonneg hstart (div_nonneg hms' (by norm_num))
  have hdeadline : visitDeadlineM opened.env opened.gate = start + visitCap opened.env := by
    simp [visitDeadlineM, howns, hcap, hsince, hanchor, hpending, hseen, hwaiting, hrearms]
  simp [visitExpired, hdeadline, hpos]

/-- The cap cuts no visit short and misses none: it expires only where for a cap no retune was
noted, no hold let go and no visit tick disturbed, and a visit opened at a time and undisturbed
since, on the same roll, with no row on its way and nothing that holds it at the end, expires a
cap after it. What is shown for the voice gate is the time it steps at. -/
theorem visit_cap_exact (s : State) (ops : List (ℚ × Op)) {start stop : ℚ} (hstart : 0 ≤ start)
    (hclock : Clocked start ops stop) :
    (visitExpired (run s ops).env (run s ops).gate stop = true →
        Undisturbed (fun now => stop - visitCap (run s ops).env < now) s ops) ∧
      (∀ op opened, Opens s op → opened = run (step s start op) ops →
        Undisturbed (fun _ => True) (step s start op) ops →
        opened.env.lcnFreqRoll = s.env.lcnFreqRoll → opened.env.waiting = false →
        visitScannerOwns opened.env = true → visitCapEnabled opened.env = true →
        visitSuspended opened.env = false → 2 ≤ usableCount opened.env →
        ∀ now, visitExpired opened.env opened.gate now =
          decide (start + visitCap opened.env ≤ now)) ∧
      ∀ now nowWall report,
        timingReport (run s ops).env (run s ops).gate now nowWall = some report →
        report.reason = .voice ∨ report.reason = .activityHold ∨ report.reason = .idleDwell →
        ∀ time, shouldStep (run s ops).env (run s ops).gate time =
          decide (report.deadlineM ≤ time) := by
  refine ⟨fun hexpired => ?_, ?_, fun now nowWall report => step_at_deadline⟩
  · exact undisturbed_of_old hclock (old_of_expired hexpired)
  · rintro op opened hopens rfl hrun hroll
    have hvisit := visit_undisturbed hstart (visit_opened hopens) hrun
    rw [← hroll] at hvisit
    exact visitExpired_of_visit hstart hvisit

/-- A rotation of two rows with a cap of two seconds. -/
def twoRows : Env where
  opts := ⟨1, 0, 0, 0, 0, 0, 0, 2000, 3⟩
  lcnFreqRoll := 0
  lcnScanHold := false
  tgHold := 0
  calls := []
  rows := [⟨154000000, false⟩, ⟨155000000, false⟩]
  waiting := false
  toneGate := .off
  carrierOpen := false
  lastCcSyncTime := 0

/-- A scanner that has not parked yet. -/
def unparked : State :=
  ⟨twoRows, ⟨-1, -1, -1, 0, false, .off, -1, 0, false, timingSeed twoRows⟩⟩

/-- A visit the operator held for a moment. -/
def heldOnce : State := run (step unparked 0 .noteRetune) [(1, .visitTick), (1, .holdToggle 10)]

/-- Two seconds after the hold was let go the visit ends. -/
theorem visit_cap_exact_released :
    visitExpired (run (step heldOnce 2 (.holdToggle 11)) [(3, .visitTick)]).env
      (run (step heldOnce 2 (.holdToggle 11)) [(3, .visitTick)]).gate 4 = true := by
  have hclock : Clocked 2 [(3, .visitTick)] 4 := by
    refine ⟨?_, ?_⟩ <;> norm_num [Clocked]
  have hages : Ages (step heldOnce 2 (.holdToggle 11)) .visitTick :=
    ⟨by decide, by decide, by decide, by decide, by decide⟩
  have hstart : (0 : ℚ) ≤ 2 := by norm_num
  rw [(visit_cap_exact heldOnce [(3, .visitTick)] hstart hclock).2.1 (.holdToggle 11) _ rfl rfl
    ⟨fun _ => ⟨id, hages⟩, trivial⟩ rfl rfl (by decide) (by decide) (by decide) (by decide)]
  decide +kernel

/-- A visit that ticks, before the operator holds its row. -/
def heldRun : List (ℚ × Op) := [(1, .visitTick), (1, .holdToggle 10)]

/-- The operator's hold keeps a visit past its cap before a tick has seen it. -/
theorem visit_held_unseen :
    Clocked 0 heldRun 2 ∧ Undisturbed (fun _ => True) (step unparked 0 .noteRetune) heldRun ∧
      (run (step unparked 0 .noteRetune) heldRun).env.lcnFreqRoll = unparked.env.lcnFreqRoll ∧
      (run (step unparked 0 .noteRetune) heldRun).env.waiting = false ∧
      0 + visitCap (run (step unparked 0 .noteRetune) heldRun).env ≤ 2 ∧
      visitExpired (run (step unparked 0 .noteRetune) heldRun).env
        (run (step unparked 0 .noteRetune) heldRun).gate 2 = false := by
  have hages : Ages (step unparked 0 .noteRetune) .visitTick :=
    ⟨by decide, by decide, by decide, by decide, by decide⟩
  have hfree : (run (step unparked 0 .noteRetune) [(1, .visitTick)]).env.lcnScanHold = false := rfl
  refine ⟨?_, ⟨fun _ => ⟨id, hages⟩, fun _ => ⟨fun hheld => ?_, trivial⟩, trivial⟩, rfl, rfl, ?_,
    by decide⟩
  · norm_num [Clocked, heldRun]
  · exact absurd (hheld : _ = true) (Bool.eq_false_iff.mp hfree)
  · decide +kernel

end DsdNeo.ScanVisit
