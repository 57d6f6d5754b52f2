import DsdNeo.Models.DmrTrunk.Sources

/-!
# The attribution over runs

A run whose steps find a completed probe still where the receiver is attributes control
channels rightly in every state. One step taken after another owner's tune moved the
receiver is enough to attribute the probed frequency to the wrong place.
-/

namespace DsdNeo.DmrTrunk

open Program Tuning

variable {s : State} {n : ℕ} {known : Set ℤ}

/-- What an abandoned carrier leaves alone. -/
def State.left (s : State) : (Machine × ℤ) × Bool × ℤ × ℕ :=
  ((s.tuning, s.receiver), s.ctx.coldStartHunt, s.ctx.rxSeenHz, s.ctx.rxSeenGeneration)

theorem left_setState (c : Ctx) (state : SmState) :
    ((c.setState state).coldStartHunt, (c.setState state).rxSeenHz,
      (c.setState state).rxSeenGeneration) = (c.coldStartHunt, c.rxSeenHz, c.rxSeenGeneration) := by
  unfold Ctx.setState
  split
  · rfl
  · rfl

theorem left_abandonCarrier : Keeps (Same State.left) abandonCarrier := by
  refine keeps_bind (fun _ => rfl) fun _ => keeps_bind (fun _ => rfl) fun _ =>
    keeps_bind (fun _ => rfl) fun _ => keeps_bind (keeps_onlyIf fun _ => rfl) fun _ s => ?_
  exact congrArg (fun rest => ((s.tuning, s.receiver), rest)) (left_setState s.ctx .onCc)

theorem State.Attributed.operatorMove (h : s.Attributed) (freq : ℤ)
    (hscan : s.rest.trunkScanEnabled = true → s.ctx.state ≠ .idle → s.ctx.coldStartHunt = false →
      0 < s.ctx.ccRxFreqHz → s.ctx.ccRxGeneration = s.generation → freq = s.ctx.ccRxFreqHz) :
    Wp coldStartNoteRetune { s with receiver := freq } fun _ s' => s'.Attributed := by
  have hp := h.placed
  refine wp_bind (wp_ask (wp_bind (wp_modifyCtx (wp_bind (wp_get ?_)))))
  refine wp_ite (fun hh => wp_modifyCtx ⟨h.good, h.earned, ?_⟩) fun hh =>
    wp_ite (fun hi => wp_modifyCtx ⟨h.good, h.earned, ?_⟩) fun hi =>
      wp_ite (fun hs => ⟨h.good, h.earned, ?_⟩) fun _ => ?_
  · refine ⟨fun hpos => absurd hpos (lt_irrefl 0), hp.rx_le, fun hpos => absurd hpos (lt_irrefl 0),
      Nat.zero_le _, fun hst => ?_, hp.hunt⟩
    exact absurd hst (hp.hunting hh).1
  · refine ⟨fun hpos => ?_, hp.rx_le, fun hpos => absurd hpos (lt_irrefl 0), Nat.zero_le _, hp.idle,
      hp.hunt⟩
    exact absurd hpos (by rw [show _ = (0 : ℤ) from (hp.idle hi).1]; exact lt_irrefl 0)
  · exact ⟨hscan hs hi (by simpa using hh), hp.rx_le, fun hpos => absurd hpos (lt_irrefl 0),
      Nat.zero_le _, hp.idle, hp.hunt⟩
  · refine wp_bind (((keeps_onlyIf left_abandonCarrier).wp _).mono fun _ s₂ hl => wp_modifyCtx ?_)
    have htuning : s₂.tuning = s.tuning := congrArg (·.1.1) hl
    have hhunt : s₂.ctx.coldStartHunt = s.ctx.coldStartHunt := congrArg (·.2.1) hl
    have hseen : s₂.ctx.rxSeenHz = 0 := congrArg (·.2.2.1) hl
    have hsgen : s₂.ctx.rxSeenGeneration = 0 := congrArg (·.2.2.2) hl
    refine ⟨htuning ▸ h.good, htuning ▸ h.earned, ?_⟩
    refine Ctx.placed_wake (by decide) (fun hpos => absurd hpos (lt_irrefl 0))
      (Nat.zero_le _) ?_ ?_ ?_
    · exact fun hpos => absurd hpos (by rw [show _ = (0 : ℤ) from hseen]; exact lt_irrefl 0)
    · rw [show _ = 0 from hsgen]
      exact Nat.zero_le _
    · exact fun hon => absurd (hhunt.symm.trans hon) hh

/-- The steps that resolve the tracked tune. -/
def Op.resolves : Op → Bool
  | .tick => true
  | .event ev => ev.resolves
  | .noteCcActivity _ _ => true
  | .noteCcHeartbeat _ => true
  | _ => false

/-- The condition on a step: what it resolves is still where the receiver is, a move under
trunk scan leaves no attribution standing, and another owner stages no unknown alias. -/
structure Timely (known : Set ℤ) (s : State) (op : Op) : Prop where
  fresh : op.resolves = true → s.Fresh
  moved : ∀ freq, op = .operatorMove freq → s.rest.trunkScanEnabled = true →
    s.ctx.state ≠ .idle → s.ctx.coldStartHunt = false → 0 < s.ctx.ccRxFreqHz →
    s.ctx.ccRxGeneration = s.generation → freq = s.ctx.ccRxFreqHz
  staged : ∀ freq staged, op = .otherTune freq (some staged) → Known known s.log staged
  queried : s.rest.useRigctl = true ∨ s.rest.audioInRtl = true
  room : s.tuning.now.nextRequest + 2 < 2 ^ 64

theorem Timely.ready {op : Op} (ht : Timely known s op) (h : s.Attributed) : s.Ready 1 :=
  ⟨h, ht.room, ht.queried⟩

/-- A delivered note runs while nothing is unresolved. -/
theorem wp_delivered {generation : ℕ} {m : Prog Unit} {post : Unit → State → Prop}
    (h : s.tuning.now.unresolvedCount = 0 → Wp m s post) (hn : post () s) :
    Wp (delivered generation m) s post :=
  wp_bind (wp_get (wp_onlyIf (fun hcur => h (closed_of_frameIsCurrent hcur).1) fun _ => hn))

theorem State.Attributed.step (h : s.Attributed) {op : Op} (ht : Timely known s op) :
    (op.apply s).Attributed := by
  have hr := ht.ready h
  have hr₀ := hr.weaken
  have hto : ∀ {m : Prog Unit}, (Wp m s fun _ s' => s'.Ready 0) → Wp m s fun _ s' =>
    s'.Attributed :=
    fun hm => hm.mono fun _ _ h' => h'.toAttributed
  change Wp op.program s fun _ s' => s'.Attributed
  cases op with
  | tick => exact hto (hr.tickCtx (ht.fresh rfl))
  | event ev => exact hto (hr.smEvent ev ht.fresh)
  | noteCcActivity generation freq =>
    exact hto (wp_delivered (fun hz => hr₀.noteCcActivity (ht.fresh rfl) hz freq) hr₀)
  | noteCcHeartbeat generation =>
    exact hto (wp_delivered (fun _ => hr₀.noteCcHeartbeat (ht.fresh rfl)) hr₀)
  | noteXptSite generation => exact hto (wp_delivered (fun _ => hr₀.noteXptSite) hr₀)
  | noteStatusFollow freq =>
    refine hto (wp_bind (wp_ask (wp_onlyIf (fun _ => wp_modifyCtx ?_) fun _ => ?_)))
    · exact (hr₀.of_quiet (quiet_ask s)).edit (h.placed.followed _ _ _)
    · exact hr₀.of_quiet (quiet_ask s)
  | returnToCc freq => exact hto (wp_bind ((hr.returnToCc freq).mono fun _ _ h' => wp_pure h'))
  | abandonCarrier => exact hto hr₀.abandonCarrier
  | otherTune freq staged =>
    refine hto (wp_bind ((hr.hookTune freq (quiet_stage staged) ?_).mono fun _ _ h' =>
      wp_pure h'.ready))
    cases staged with
    | none => exact keeps_pure _
    | some f => exact fun _ => rfl
  | answer call => exact hto (wp_onlyIf (fun hc => hr₀.layer hc) fun _ => hr₀)
  | operatorMove freq => exact wp_bind (wp_modify (h.operatorMove freq (ht.moved freq rfl)))
  | outside rest => exact ⟨h.good, h.earned, h.placed⟩

theorem State.Named.step (hn : s.Named known) (h : s.Attributed) {op : Op}
    (ht : Timely known s op) : (op.apply s).Named known := by
  have hr := ht.ready h
  change Wp op.program s fun _ s' => s'.Named known
  cases op with
  | tick => exact stays_tickCtx s hn
  | event ev => exact named_smEvent hr hn ev
  | noteCcActivity generation freq =>
    exact wp_delivered (fun hz => named_noteCcActivity hr (ht.fresh rfl) hz hn freq) hn
  | noteCcHeartbeat generation =>
    exact wp_delivered (fun _ => hn.of_unnamed (unnamed_noteCcHeartbeat s)) hn
  | noteXptSite generation => exact wp_delivered (fun hz => named_noteXptSite hr hz hn) hn
  | noteStatusFollow freq => exact hn.of_unnamed (unnamed_noteStatusFollow freq s)
  | returnToCc freq => exact wp_bind (stays_returnToCc freq s hn)
  | abandonCarrier => exact hn.of_unnamed (unnamed_abandonCarrier s)
  | otherTune freq staged =>
    cases staged with
    | none =>
      exact wp_bind (stays_of_unnamed (keeps_hookTune (fun _ _ => id) freq (keeps_pure ())) s hn)
    | some f =>
      refine wp_bind ((keeps_hookTune (R := Stays fun s' => s'.Named known ∧
        Known known s'.log f) ?_ freq (fun s' h' => ?_) s ⟨hn, ht.staged freq f rfl⟩).1)
      · intro s₁ s₂ hq h₁
        exact ⟨h₁.1.of_unnamed hq, (show s₂.log = s₁.log from congrArg (·.2.1) hq) ▸ h₁.2⟩
      · exact ⟨⟨h'.2, h'.1.cc, h'.1.noted⟩, h'.2⟩
  | answer call => exact wp_onlyIf (fun _ => hn.of_unnamed (unnamed_layer call s)) fun _ => hn
  | operatorMove freq =>
    exact wp_bind (wp_modify
      ((show State.Named known { s with receiver := freq } from hn.of_unnamed rfl).of_unnamed
      (unnamed_coldStartNoteRetune _)))
  | outside rest => exact ⟨hn.trunkCc, hn.cc, hn.noted⟩

/-- A machine just initialized, with or without a control channel, over an untouched layer. -/
structure State.Started (s : State) : Prop where
  ctx : ∃ a freq, (freq = 0 ∨ freq = s.trunkCcFreq) ∧ s.ctx = Ctx.init s.rest freq a
  tuning : s.tuning = start
  log : s.log = []

/-- What the control channels may be at the start. -/
def State.first (s : State) : Set ℤ := {s.trunkCcFreq, s.ctx.ccFreqHz}

theorem State.Started.attributed (h : s.Started) : s.Attributed := by
  obtain ⟨a, freq, -, hctx⟩ := h.ctx
  refine ⟨h.tuning ▸ sound_start.good, h.tuning ▸ earned_start, ?_⟩
  rw [hctx]
  exact ⟨fun hpos => absurd hpos (lt_irrefl 0), Nat.zero_le _, fun hpos =>
    absurd hpos (lt_irrefl 0),
    Nat.zero_le _, fun _ => ⟨rfl, rfl, rfl, rfl⟩, nofun⟩

theorem State.Started.named (h : s.Started) : s.Named s.first :=
  ⟨.inl (.inl rfl), .inl (.inr rfl), fun _ _ hmem => absurd (h.log ▸ hmem) List.not_mem_nil⟩

/-- The control channel's attribution is right, and so is where control channels came from. -/
structure State.Right (s₀ s : State) : Prop where
  /-- A current attribution names the frequency the receiver is on. -/
  placed : ∀ f, 0 < f → s.ctx.ccRxFreqHz = f → s.frameIsCurrent s.ctx.ccRxGeneration = true →
    s.receiver = f
  /-- The alias and the control channel are the first ones, or of a source. -/
  trunkCc : Known s₀.first s.log s.trunkCcFreq
  cc : Known s₀.first s.log s.ctx.ccFreqHz
  /-- A source that is not an accepted return was noted where the receiver was. -/
  noted : ∀ freq receiver, Source.noted freq receiver ∈ s.log → freq = receiver

/-- Every step of a run is timely. -/
def TimelyRun (s₀ : State) (ops : List Op) : Prop :=
  ∀ pre op post, ops = pre ++ op :: post → Timely s₀.first (run s₀ pre) op

theorem run_concat (s : State) (ops : List Op) (op : Op) :
    run s (ops ++ [op]) = op.apply (run s ops) := by
  rw [run, List.foldl_append]
  rfl

theorem kept_run {s₀ : State} (h : s₀.Started) {ops : List Op} (ht : TimelyRun s₀ ops) :
    (run s₀ ops).Attributed ∧ (run s₀ ops).Named s₀.first := by
  induction ops using List.reverseRecOn with
  | nil => exact ⟨h.attributed, h.named⟩
  | append_singleton ops op ih =>
    have hpre : TimelyRun s₀ ops := by
      rintro pre one post rfl
      exact ht pre one (post ++ [op]) (by simp)
    obtain ⟨ha, hn⟩ := ih hpre
    have hop := ht ops op [] rfl
    rw [run_concat]
    exact ⟨ha.step hop, hn.step ha hop⟩

/-- In a run whose steps are all timely, the attribution is right in every state reached. -/
theorem attribution_right {s₀ : State} (h : s₀.Started) {ops : List Op} (ht : TimelyRun s₀ ops) :
    ∀ pre post, ops = pre ++ post → s₀.Right (run s₀ pre) := by
  rintro pre post rfl
  have hpre : TimelyRun s₀ pre := by
    rintro first op rest rfl
    exact ht first op (rest ++ post) (by simp)
  obtain ⟨ha, hn⟩ := kept_run h hpre
  refine ⟨?_, hn.trunkCc, hn.cc, hn.noted⟩
  rintro f hpos rfl hcur
  exact ha.placed.rx hpos (closed_of_frameIsCurrent hcur).2

/-- A decoder that trunks over a rigctl peer. -/
def Rest.plain : Rest where
  trunkEnable := true
  trunkIsTuned := false
  trunkScanEnabled := false
  useRigctl := true
  audioInRtl := false
  chanInFile := false
  trunkTuneDataCalls := false
  trunkHangtime := 2000000000
  receive _ := ⟨0, 0, false⟩
  dmrColorCode := 16
  dmrMonoRxSlot := .none
  receiveCodesFreshFreq := 0
  p25CcFreq := 0
  trunkVcFreq := 0
  trunkSmForceRelease := false
  recoveryProtocol := .dmr
  inputBoundary := false
  dmrConfidenceLockM := 0
  dmrConfidenceVoiceOpen _ := false
  dmrConfidenceVoiceM _ := 0
  dmrRestChannel := 0
  trunkChanMap _ := 0
  dmrLcnTrust _ := 0
  lcnFreqs := []

/-- Answers at one instant, by what a tune returns. -/
def Answer.plain (tuneReturns : TuneResult) : Answer where
  nowM := 7000000000
  realM := 7000000000
  nowNs := 7000000000
  dmrHangtime := none
  dmrGrantTimeout := none
  recoveryAllowed := true
  coldStartEligible := false
  dmrHuntEligible := false
  rigctlReads := true
  centerFreq := 0
  scanCtx := false
  scanMap := false
  ccCandidate := none
  published := none
  tuneReturns := tuneReturns

/-- A machine at a control channel: its first tune is answered pending, the others at once. -/
def pendingStart : State where
  ctx := Ctx.init .plain 100 (.plain .ok)
  rest := .plain
  trunkCcFreq := 100
  tuning := start
  asked _ := 0
  receiver := 0
  answers k := .plain (if k = 0 then .pending else .ok)
  log := []
  verified := []

theorem started_pendingStart : pendingStart.Started :=
  ⟨⟨.plain .ok, 100, .inr rfl, rfl⟩, rfl, rfl⟩

/-- A return that completes, then control heard where it landed. -/
def freshRun : List Op := [.returnToCc 100, .answer (.publish 1 .ok 7000000001), .noteCcHeartbeat 2]

set_option maxRecDepth 40000 in
theorem timelyRun_freshRun : TimelyRun pendingStart freshRun := by
  have hfirst : Timely pendingStart.first (run pendingStart []) (.returnToCc 100) :=
    ⟨nofun, nofun, nofun, .inl (by decide), by decide⟩
  have hsecond : Timely pendingStart.first (run pendingStart [.returnToCc 100])
      (.answer (.publish 1 .ok 7000000001)) :=
    ⟨nofun, nofun, nofun, .inl (by decide), by decide⟩
  have hthird : Timely pendingStart.first
      (run pendingStart [.returnToCc 100, .answer (.publish 1 .ok 7000000001)])
      (.noteCcHeartbeat 2) := by
    refine ⟨fun _ _ _ _ => ?_, nofun, nofun, .inl (by decide), by decide⟩
    decide
  intro pre op post h
  rcases pre with _ | ⟨a, _ | ⟨b, _ | ⟨c, pre⟩⟩⟩
  · cases h
    exact hfirst
  · cases h
    exact hsecond
  · cases h
    exact hthird
  · simp [freshRun] at h

/-- A run whose readings are all of their own carrier. -/
theorem attribution_right_fresh : pendingStart.Right (run pendingStart freshRun) :=
  attribution_right started_pendingStart timelyRun_freshRun freshRun [] rfl

/-- A return that completes, then another owner's tune, then control heard there. -/
def staleRun : List Op :=
  [.returnToCc 100, .answer (.publish 1 .ok 7000000001), .otherTune 200 none, .noteCcHeartbeat 3]

set_option maxRecDepth 40000 in
theorem attribution_stale :
    pendingStart.Started ∧ ¬ pendingStart.Right (run pendingStart staleRun) := by
  have hrx : (run pendingStart staleRun).ctx.ccRxFreqHz = 100 := by decide
  have hcur : (run pendingStart staleRun).frameIsCurrent
      (run pendingStart staleRun).ctx.ccRxGeneration = true := by decide
  have hreceiver : (run pendingStart staleRun).receiver = 200 := by decide
  refine ⟨started_pendingStart, fun h => ?_⟩
  have := h.placed 100 (by decide) hrx hcur
  rw [hreceiver] at this
  exact absurd this (by decide)

end DsdNeo.DmrTrunk
