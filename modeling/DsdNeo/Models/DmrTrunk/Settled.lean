import DsdNeo.Models.DmrTrunk.Placed

/-!
# Attributions while the machine works

A tracked tune is attributed when it is resolved, not when it completes: the attribution is
right while the receiver is still where the tune left it. Every other write of an
attribution names what the receiver was just asked, or what a tune just landed on.
-/

namespace DsdNeo.DmrTrunk

open Program Tuning

variable {s s' : State} {n : ℕ}

/-- A tracked tune that has completed is where the receiver still is. -/
def State.Fresh (s : State) : Prop :=
  s.ctx.ccTuneRequestId ≠ 0 → 0 < s.ctx.ccProbeFreqHz → s.status s.ctx.ccTuneRequestId = .ok →
    s.receiver = s.ctx.ccProbeFreqHz

theorem State.Fresh.of_untracked (h : s.ctx.ccTuneRequestId = 0) : s.Fresh :=
  fun hne => absurd h hne

theorem State.Fresh.of_quiet (h : s.Fresh) (hq : Quiet s s') : s'.Fresh := by
  have htune : s'.tuning = s.tuning := congrArg (·.2.1.1) hq
  have hreceiver : s'.receiver = s.receiver := congrArg (·.2.1.2.2) hq
  have hid : s'.ctx.ccTuneRequestId = s.ctx.ccTuneRequestId := congrArg (·.1.2.2.2.1.1) hq
  have hprobe : s'.ctx.ccProbeFreqHz = s.ctx.ccProbeFreqHz := congrArg (·.1.2.2.2.1.2) hq
  unfold State.Fresh State.status
  rw [htune, hreceiver, hid, hprobe]
  exact h

/-- What a resolution of the tracked tune comes to. -/
structure Resolved (n : ℕ) (s : State) (done : Bool) (s' : State) : Prop where
  ready : s'.Ready n
  untracked : done = true → s'.ctx.ccTuneRequestId = 0
  awake : s.ctx.state ≠ .idle → s'.ctx.state ≠ .idle
  hunt : s'.ctx.coldStartHunt = s.ctx.coldStartHunt
  superseded : s'.ctx.ccTuneSuperseded = s.ctx.ccTuneSuperseded
  closed : s.tuning.now.unresolvedCount = 0 → s'.tuning = s.tuning

theorem State.Ready.ccResolved (h : s.Ready n) (hf : s.Fresh) (ht : s.ctx.ccTuneRequestId ≠ 0)
    (nowM : ℤ) : Wp (ccResolved nowM) s fun done s' => Resolved n s done s' := by
  have hawake : s.ctx.state ≠ .idle := fun hi => ht (h.placed.idle hi).2.1
  refine wp_bind (wp_get (wp_ite (fun hok => ?_) fun _ => ?_))
  · refine wp_bind (wp_modifyCtx (wp_pure ?_))
    refine ⟨h.edit ?_, fun _ => rfl, fun _ => hawake, rfl, rfl, fun _ => rfl⟩
    exact
      { rx := fun hp _ => hf ht hp hok
        rx_le := le_refl _
        seen := h.placed.seen
        seen_le := h.placed.seen_le
        idle := fun hi => absurd hi hawake
        hunt := h.placed.hunt }
  · refine wp_bind (wp_modifyCtx (wp_pure ?_))
    have hplaced : ({ s.ctx with
        ccTuneRequestId := 0, ccAcquiring := false, ccRetryAfterM := nowM + ccRetry } : Ctx).Placed
        s.generation s.receiver :=
      ⟨h.placed.rx, h.placed.rx_le, h.placed.seen, h.placed.seen_le, fun hi => absurd hi hawake,
        h.placed.hunt⟩
    obtain ⟨hid, -, hhunt, hsup, -⟩ := Ctx.setState_rest { s.ctx with
      ccTuneRequestId := 0, ccAcquiring := false, ccRetryAfterM := nowM + ccRetry } .hunting
    refine ⟨h.edit (hplaced.setState (by decide)), fun _ => hid, fun _ => ?_, hhunt, hsup,
      fun _ => rfl⟩
    rw [Ctx.setState_state]
    decide

theorem State.Ready.ccResolvePending (h : s.Ready n) (hf : s.Fresh) (nowM : ℤ) :
    Wp (ccResolvePending nowM) s fun done s' => Resolved n s done s' := by
  refine wp_bind (wp_get (wp_ite (fun h0 => ?_) fun ht => wp_ite (fun hp => ?_) fun _ => ?_))
  · exact ⟨h, fun _ => h0, id, rfl, rfl, fun _ => rfl⟩
  · refine wp_ite (fun _ => ⟨h, nofun, id, rfl, rfl, fun _ => rfl⟩) fun _ => ?_
    refine wp_bind (wp_ask (wp_bind ?_))
    generalize hs₁ : ({ s with answers := fun n => s.answers (n + 1) } : State) = s₁
    have hq₁ : Quiet s s₁ := hs₁ ▸ rfl
    have hctx₁ : s₁.ctx = s.ctx := hs₁ ▸ rfl
    have htune₁ : s₁.tuning = s.tuning := hs₁ ▸ rfl
    have h₁ := h.of_quiet hq₁
    -- the deadline fails the request, which then has no status of success
    have hne : Call.publish s.ctx.ccTuneRequestId .failed (s.answers 0).nowNs ≠ .begin := nofun
    have hrun : Wp (DmrTrunk.layer (.publish s.ctx.ccTuneRequestId .failed (s.answers 0).nowNs)) s₁
        fun _ s₂ => s₂ = s₁.settle (requestPublish s₁.tuning s.ctx.ccTuneRequestId .failed
          (s.answers 0).nowNs) := rfl
    refine ((h₁.layer hne).and hrun).mono ?_
    rintro _ s₂ ⟨h₂, hs₂⟩
    have hctx₂ : s₂.ctx = s.ctx := by rw [hs₂, settle_ctx, hctx₁]
    have htune₂ : s₂.tuning = requestPublish s.tuning s.ctx.ccTuneRequestId .failed
        (s.answers 0).nowNs := by
      rw [hs₂, ← htune₁]
      unfold State.settle
      split
      · rfl
      · rfl
    have hf₂ : s₂.Fresh := by
      intro _ _ hok
      rw [hctx₂, State.status, htune₂] at hok
      exact absurd hok (status_publish_failed h.good h.earned _ hp)
    have ht₂ : s₂.ctx.ccTuneRequestId ≠ 0 := hctx₂ ▸ ht
    refine (h₂.ccResolved hf₂ ht₂ nowM).mono fun done s₃ h₃ => ?_
    refine ⟨h₃.ready, h₃.untracked, fun hi => h₃.awake (hctx₂ ▸ hi), h₃.hunt.trans (by rw [hctx₂]),
      h₃.superseded.trans (by rw [hctx₂]), fun hz => ?_⟩
    have hsame := publish_of_resolved h.good hz s.ctx.ccTuneRequestId (s.answers 0).nowNs .failed
    rw [h₃.closed (by rw [htune₂, hsame]; exact hz), htune₂, hsame]
  · exact h.ccResolved hf ht nowM

/-- What asking for the frequency leaves alone. -/
structure Asked (s s' : State) : Prop where
  state : s'.ctx.state = s.ctx.state
  tracked : s'.ctx.ccTuneRequestId = s.ctx.ccTuneRequestId
  hunt : s'.ctx.coldStartHunt = s.ctx.coldStartHunt
  superseded : s'.ctx.ccTuneSuperseded = s.ctx.ccTuneSuperseded
  tuning : s'.tuning = s.tuning

theorem Asked.of_quiet (hq : Quiet s s') : Asked s s' :=
  ⟨congrArg (·.1.1) hq, congrArg (·.1.2.2.2.1.1) hq, congrArg (·.1.2.2.2.2.2) hq,
    congrArg (·.1.2.2.2.2.1) hq, congrArg (·.2.1.1) hq⟩

theorem Asked.trans {s'' : State} (h : Asked s s') (h' : Asked s' s'') : Asked s s'' :=
  ⟨h'.state.trans h.state, h'.tracked.trans h.tracked, h'.hunt.trans h.hunt,
    h'.superseded.trans h.superseded, h'.tuning.trans h.tuning⟩

/-- A frequency asked for, right when it is known that nothing is unresolved. -/
structure Read (n : ℕ) (s : State) (freq : ℤ) (s' : State) : Prop where
  ready : s'.Ready n
  asked : Asked s s'
  right : s.tuning.now.unresolvedCount = 0 → 0 < freq → s'.receiver = freq

variable {generation : ℕ}

theorem State.Ready.ccRigctlQuery (h : s.Ready n) (hg : generation = s.generation) :
    Wp (ccRigctlQuery generation) s fun freq s' => Read n s freq s' := by
  refine wp_bind (wp_get (wp_bind (wp_ask (wp_ite (fun hpos => ?_) fun hneg => ?_))))
  · refine wp_bind (wp_modifyCtx (wp_pure ?_))
    have hread : s.receiver = rigctlRead (s.answers 0) s := by
      unfold rigctlRead at hpos ⊢
      split at hpos
      · next hr => rw [if_pos hr]
      · exact absurd hpos (lt_irrefl 0)
    refine ⟨⟨⟨h.good, h.earned, ?_⟩, h.room, h.queried⟩, ⟨rfl, rfl, rfl, rfl, rfl⟩,
      fun _ _ => hread⟩
    exact
      { rx := h.placed.rx
        rx_le := h.placed.rx_le
        seen := fun _ _ => hread
        seen_le := hg.le
        idle := h.placed.idle
        hunt := h.placed.hunt }
  · refine wp_bind (wp_modifyCtx (wp_pure ?_))
    refine ⟨⟨⟨h.good, h.earned, h.placed.of_trace rfl⟩, h.room, h.queried⟩,
      ⟨rfl, rfl, rfl, rfl, rfl⟩, fun _ hpos => absurd hpos hneg⟩

theorem Read.of_quiet_before {freq : ℤ} {s₁ : State} (h : Read n s₁ freq s') (hq : Quiet s s₁) :
    Read n s freq s' := by
  have ha := Asked.of_quiet hq
  exact ⟨h.ready, ha.trans h.asked, fun hz => h.right (ha.tuning ▸ hz)⟩

theorem State.Ready.ccRigctlFrequency (h : s.Ready n) (useCache : Bool) :
    Wp (ccRigctlFrequency s.generation useCache) s fun freq s' => Read n s freq s' := by
  refine wp_bind (wp_get (wp_bind (wp_ask (wp_ite (fun hc => ?_) fun _ =>
    wp_ite (fun _ => ?_) fun _ => ?_))))
  · exact ⟨h.of_quiet rfl, .of_quiet rfl, fun _ hpos => h.placed.seen hpos hc.2.2⟩
  · exact ⟨h.of_quiet rfl, .of_quiet rfl, fun _ hpos => absurd hpos (lt_irrefl 0)⟩
  · have h₁ := h.of_quiet (quiet_ask s)
    exact (h₁.ccRigctlQuery rfl).mono fun freq s' h' => h'.of_quiet_before (quiet_ask s)

theorem rtlCenter_of_closed (hz : s.tuning.now.unresolvedCount = 0) (a : Answer) :
    rtlCenter a s = s.receiver := if_pos hz

theorem State.Ready.ccCurrentFrequency (h : s.Ready n) :
    Wp ccCurrentFrequency s fun freq s' => Read n s freq s' := by
  have h₁ := h.of_quiet (quiet_ask s)
  refine wp_bind (wp_get (wp_bind (wp_ask (wp_ite (fun hc => ?_) fun _ =>
    wp_ite (fun _ => ?_) fun hrig => wp_ite (fun _ => ?_) fun hrtl => ?_))))
  · exact ⟨h₁, .of_quiet rfl, fun _ hpos => h.placed.rx hpos hc.2⟩
  · exact (h₁.ccRigctlFrequency true).mono fun freq s' h' => h'.of_quiet_before (quiet_ask s)
  · exact wp_pure ⟨h₁, .of_quiet rfl, fun hz _ => (rtlCenter_of_closed hz _).symm⟩
  · exact (h.queried.elim hrig hrtl).elim

theorem State.Ready.ccTunerFrequency (h : s.Ready n) :
    Wp ccTunerFrequency s fun freq s' => Read n s freq s' := by
  have h₁ := h.of_quiet (quiet_ask s)
  refine wp_bind (wp_get (wp_bind (wp_ask (wp_ite (fun _ => ?_) fun _ => ?_))))
  · exact (h₁.ccRigctlFrequency false).mono fun freq s' h' => h'.of_quiet_before (quiet_ask s)
  · refine wp_pure ⟨h₁, .of_quiet rfl, fun hz hpos => ?_⟩
    split_ifs at hpos ⊢ with hr
    · exact (rtlCenter_of_closed hz _).symm
    · exact absurd hpos (lt_irrefl 0)

/-!
# The machine stays placed

The settle, the startup gate, the hunt, notes, releases, grants and the tick each keep a
machine placed, when a tracked tune that has completed is still where the receiver is.
-/

/-- A machine that is not idle went on with its startup hunt and its operator move. -/
structure Worked (n : ℕ) (s s' : State) : Prop where
  ready : s'.Ready n
  awake : s'.ctx.state ≠ .idle
  hunt : s'.ctx.coldStartHunt = s.ctx.coldStartHunt
  superseded : s'.ctx.ccTuneSuperseded = s.ctx.ccTuneSuperseded

/-- A settle step, and what holds when nothing is left to settle. -/
structure SettleStep (n : ℕ) (s : State) (unsettled : Bool) (s' : State) : Prop
    extends Worked n s s' where
  settled : unsettled = false → s'.Ready (n + 1) ∧ s'.ctx.ccTuneRequestId = 0

theorem Worked.trans {s'' : State} (h : Worked n s' s'')
    (hh : s'.ctx.coldStartHunt = s.ctx.coldStartHunt)
    (hs : s'.ctx.ccTuneSuperseded = s.ctx.ccTuneSuperseded) : Worked n s s'' :=
  ⟨h.ready, h.awake, h.hunt.trans hh, h.superseded.trans hs⟩

theorem quiet_stage (staged : Option ℤ) : Keeps Quiet (stage staged) := by
  cases staged with
  | none => exact keeps_pure _
  | some freq => exact quiet_setTrunkCcFreq freq

/-- A probe or a settle tune of the shared helper. -/
theorem State.Ready.tuneToCc (h : s.Ready (n + 1)) (freq : ℤ) :
    Wp (tuneToCc freq) s fun out s' => Tuned n s.ctx freq out s' :=
  h.hookTune freq (quiet_setTrunkCcFreq freq) fun _ => rfl

theorem State.Ready.settleTune (h : s.Ready (n + 1)) (hawake : s.ctx.state ≠ .idle) (nowM : ℤ) :
    Wp (settleTune nowM) s fun _ s' => Worked n s s' := by
  refine wp_bind (h.ccTunerFrequency.mono fun freq s₁ h₁ => wp_bind (wp_get ?_))
  have hawake₁ : s₁.ctx.state ≠ .idle := h₁.asked.state ▸ hawake
  refine wp_ite (fun _ => ?_) fun _ =>
    ⟨h₁.ready.weaken, hawake₁, h₁.asked.hunt, h₁.asked.superseded⟩
  refine wp_bind ((h₁.ready.tuneToCc freq).mono ?_)
  rintro ⟨result, requestId⟩ s₂ h₂
  have hctx₂ := h₂.ctx
  refine wp_bind (wp_modify ?_)
  have h₃ := h₂.ready.of_quiet (quiet_setTrunkCcFreq s₁.trunkCcFreq s₂)
  refine wp_onlyIf (fun _ => wp_modifyCtx ?_) fun _ => ?_
  · refine ⟨h₃.edit ?_, by rw [← hctx₂] at hawake₁; exact hawake₁, ?_, ?_⟩
    · have hp := h₂.ready.placed
      refine ⟨hp.rx, hp.rx_le, hp.seen, hp.seen_le, fun hi => ?_, hp.hunt⟩
      exact absurd hi (by rw [← hctx₂] at hawake₁; exact hawake₁)
    · exact (congrArg Ctx.coldStartHunt hctx₂).trans h₁.asked.hunt
    · exact (congrArg Ctx.ccTuneSuperseded hctx₂).trans h₁.asked.superseded
  · refine ⟨h₃, by rw [← hctx₂] at hawake₁; exact hawake₁, ?_, ?_⟩
    · exact (congrArg Ctx.coldStartHunt hctx₂).trans h₁.asked.hunt
    · exact (congrArg Ctx.ccTuneSuperseded hctx₂).trans h₁.asked.superseded

theorem State.Ready.settleFailure (h : s.Ready (n + 1)) (hawake : s.ctx.state ≠ .idle)
    (ht : s.ctx.ccTuneRequestId = 0) (nowM : ℤ) :
    Wp (settleFailure nowM) s fun unsettled s' => SettleStep n s unsettled s' := by
  refine wp_bind (wp_get (wp_ite (fun _ => ?_) fun _ => wp_ite (fun _ => ?_) fun _ => ?_))
  · exact ⟨⟨h.weaken, hawake, rfl, rfl⟩, fun _ => ⟨h, ht⟩⟩
  · exact ⟨⟨h.weaken, hawake, rfl, rfl⟩, nofun⟩
  · exact wp_bind ((h.settleTune hawake nowM).mono fun _ s₁ h₁ => wp_pure ⟨h₁, nofun⟩)

theorem State.Ready.settleStep (h : s.Ready (n + 1)) (hf : s.Fresh) (hawake : s.ctx.state ≠ .idle)
    (nowM : ℤ) : Wp (settleStep nowM) s fun unsettled s' => SettleStep n s unsettled s' := by
  refine wp_bind (wp_get (wp_ite (fun _ => ?_) fun ht => ?_))
  · refine wp_bind ((h.ccResolvePending hf nowM).mono fun done s₁ h₁ => wp_bind (wp_get ?_))
    refine wp_ite (fun _ => ?_) fun ht₁ => ?_
    · exact ⟨⟨h₁.ready.weaken, h₁.awake hawake, h₁.hunt, h₁.superseded⟩, nofun⟩
    · refine (h₁.ready.settleFailure (h₁.awake hawake) (not_not.mp ht₁) nowM).mono ?_
      exact fun unsettled s₂ h₂ => ⟨h₂.toWorked.trans h₁.hunt h₁.superseded, h₂.settled⟩
  · exact h.settleFailure hawake (not_not.mp ht) nowM

/-- A park: nothing is attributed any more. -/
theorem State.Ready.coldStartParkNow (h : s.Ready n) (hs : s.ctx.ccTuneSuperseded = false)
    (keepWindow : Bool) : Wp (coldStartParkNow keepWindow) s fun _ s' => s'.Ready n := by
  refine wp_modifyCtx (h.edit (Ctx.Placed.enter ?_ fun _ => ⟨rfl, rfl, hs, rfl⟩))
  refine ⟨fun hp => absurd hp (lt_irrefl 0), h.placed.rx_le, h.placed.seen, h.placed.seen_le,
    fun _ => ⟨rfl, rfl, hs, rfl⟩, fun _ => hs⟩

/-- A machine hunting at startup is awake, and no operator move is waiting. -/
theorem Ctx.Placed.hunting {c : Ctx} {receiver : ℤ} (h : c.Placed generation receiver)
    (hh : c.coldStartHunt = true) : c.state ≠ .idle ∧ c.ccTuneSuperseded = false :=
  ⟨fun hi => absurd hh (by rw [(h.idle hi).2.2.2]; decide), h.hunt hh⟩

theorem State.Ready.coldStartSettle (h : s.Ready (n + 1)) (hf : s.Fresh)
    (hh : s.ctx.coldStartHunt = true) (nowM : ℤ) (keepWindow : Bool) :
    Wp (coldStartSettle nowM keepWindow) s fun _ s' => s'.Ready n := by
  obtain ⟨hawake, hs⟩ := h.placed.hunting hh
  refine wp_bind (wp_modifyCtx ?_)
  have h₁ := h.of_quiet (quiet_modifyCtx (f := fun c =>
    { c with coldStartParkPending := some (if keepWindow then .keeping else .unarmed) })
    (fun _ => rfl) s)
  have hf₁ := hf.of_quiet (quiet_modifyCtx (f := fun c =>
    { c with coldStartParkPending := some (if keepWindow then .keeping else .unarmed) })
    (fun _ => rfl) s)
  refine wp_bind ((h₁.settleStep hf₁ hawake nowM).mono fun unsettled s₂ h₂ => ?_)
  exact wp_ite (fun _ => h₂.ready) fun _ => h₂.ready.coldStartParkNow (h₂.superseded.trans hs) _

/-- An operator's move settled: the rest of the tick may run with nothing tracked. -/
structure Settled (n : ℕ) (done : Bool) (s : State) : Prop where
  ready : s.Ready n
  free : done = true → s.Ready (n + 1) ∧ s.ctx.ccTuneRequestId = 0

theorem State.Ready.settleAfterMove (h : s.Ready (n + 1)) (hf : s.Fresh) (nowM : ℤ) :
    Wp (settleAfterMove nowM) s fun unsettled s' =>
      s'.Ready n ∧ (unsettled = false → s'.Ready (n + 1) ∧ s'.Fresh) := by
  refine wp_bind (wp_get (wp_ite (fun _ => ?_) fun hs => ?_))
  · exact ⟨h.weaken, fun _ => ⟨h, hf⟩⟩
  · have hawake : s.ctx.state ≠ .idle := fun hi => hs (h.placed.idle hi).2.2.1
    have hhunt : s.ctx.coldStartHunt = false := by
      cases hh : s.ctx.coldStartHunt with
      | false => rfl
      | true => exact absurd (h.placed.hunt hh) hs
    refine wp_bind ((h.settleStep hf hawake nowM).mono fun unsettled s₁ h₁ => ?_)
    refine wp_ite (fun _ => ?_) fun hset => ?_
    · exact wp_bind (wp_modifyCtx (wp_pure ⟨h₁.ready.edit (h₁.ready.placed.of_trace rfl), nofun⟩))
    · refine wp_bind (wp_modifyCtx (wp_pure ?_))
      obtain ⟨hready, ht⟩ := h₁.settled (by simpa using hset)
      have hp : ∀ c : Ctx, c.state = s₁.ctx.state → c.ccRxFreqHz = s₁.ctx.ccRxFreqHz →
          c.ccRxGeneration = s₁.ctx.ccRxGeneration → c.rxSeenHz = s₁.ctx.rxSeenHz →
          c.rxSeenGeneration = s₁.ctx.rxSeenGeneration → c.ccTuneSuperseded = false →
          c.Placed s₁.generation s₁.receiver := by
        intro c hst hrx hgen hseen hsgen hsup
        refine ⟨by rw [hrx, hgen]; exact hready.placed.rx, by rw [hgen]; exact hready.placed.rx_le,
          by rw [hseen, hsgen]; exact hready.placed.seen,
          by rw [hsgen]; exact hready.placed.seen_le, fun hi => ?_, fun _ => hsup⟩
        exact absurd (hst.symm.trans hi) h₁.awake
      have hplaced := (hp _ rfl rfl rfl rfl rfl rfl : ({ s₁.ctx with
        tCcSyncM := if s₁.ctx.ccSettleWaited then nowM else s₁.ctx.ccMovedM
        ccTuneSuperseded := false
        ccSettleWaited := false
        ccAcquiring := false
        ccRetryAfterM := 0 } : Ctx).Placed _ _).setState (show SmState.onCc ≠ .idle by decide)
      refine ⟨h₁.ready.edit hplaced, fun _ => ⟨hready.edit hplaced, .of_untracked ?_⟩⟩
      exact (Ctx.setState_rest _ _).1.trans ht

theorem State.Ready.tickSettled (h : s.Ready (n + 1)) (hf : s.Fresh) (nowM : ℤ) :
    Wp (tickSettled nowM) s fun done s' => Settled n done s' := by
  refine wp_bind ((h.settleAfterMove hf nowM).mono fun unsettled s₁ h₁ => ?_)
  refine wp_ite (fun _ => ⟨h₁.1, nofun⟩) fun hset => ?_
  obtain ⟨hready, hfresh⟩ := h₁.2 (by simpa using hset)
  refine (hready.ccResolvePending hfresh nowM).mono fun done s₂ h₂ => ?_
  exact ⟨h₂.ready.weaken, fun hd => ⟨h₂.ready, h₂.untracked hd⟩⟩

/-- What a hunt that may go on has left. -/
structure Gated (n : ℕ) (s : State) (goesOn : Bool) (s' : State) : Prop where
  ready : s'.Ready n
  same : goesOn = true → Quiet s s'

theorem State.Ready.coldStartGateOn (h : s.Ready (n + 1)) (hf : s.Fresh)
    (hh : s.ctx.coldStartHunt = true) (nowM : ℤ) (decision : Bool) :
    Wp (coldStartGateOn nowM decision) s fun goesOn s' => Gated n s goesOn s' := by
  refine wp_bind (wp_get ?_)
  cases hpark : s.ctx.coldStartParkPending with
  | some park =>
    exact wp_bind ((h.coldStartSettle hf hh nowM _).mono fun _ s₁ h₁ => wp_pure ⟨h₁, nofun⟩)
  | none =>
    refine wp_ite (fun _ => ?_) fun _ => ⟨h.weaken, fun _ => rfl⟩
    exact wp_bind ((h.coldStartSettle hf hh nowM _).mono fun _ s₁ h₁ => wp_pure ⟨h₁, nofun⟩)

theorem Ctx.Placed.coldStartClear {c : Ctx} {receiver : ℤ} (h : c.Placed generation receiver) :
    c.coldStartClear.Placed generation receiver :=
  ⟨h.rx, h.rx_le, h.seen, h.seen_le, fun hi => ⟨(h.idle hi).1, (h.idle hi).2.1,
    (h.idle hi).2.2.1, rfl⟩, nofun⟩

theorem State.Ready.coldStartGate (h : s.Ready (n + 1)) (hf : s.Fresh)
    (hh : s.ctx.coldStartHunt = true) (nowM : ℤ) (decision : Bool) :
    Wp (coldStartGate nowM decision) s fun goesOn s' => Gated n s goesOn s' := by
  have hs := (h.placed.hunting hh).2
  have h₁ := h.of_quiet (quiet_ask s)
  have hf₁ := hf.of_quiet (quiet_ask s)
  refine wp_bind (wp_get
    (wp_bind (wp_ask (wp_ite (fun _ => ?_) fun _ => wp_ite (fun _ => ?_) fun _ =>
    wp_ite (fun _ => ?_) fun _ => wp_ite (fun _ => ?_) fun _ => ?_))))
  · refine wp_ite (fun _ => ?_) fun _ => ?_
    · exact wp_bind (wp_modifyCtx (wp_pure ⟨h₁.weaken.edit h₁.placed.coldStartClear, nofun⟩))
    · exact wp_bind ((h₁.weaken.coldStartParkNow hs false).mono fun _ s₂ h₂ => wp_pure ⟨h₂, nofun⟩)
  · exact wp_bind ((h₁.weaken.coldStartParkNow hs false).mono fun _ s₂ h₂ => wp_pure ⟨h₂, nofun⟩)
  · exact wp_bind (wp_modifyCtx (wp_pure ⟨h₁.weaken.edit h₁.placed.coldStartClear, nofun⟩))
  · exact wp_bind ((h₁.coldStartSettle hf₁ hh nowM false).mono fun _ s₂ h₂ => wp_pure ⟨h₂, nofun⟩)
  · refine (h₁.coldStartGateOn hf₁ hh nowM decision).mono fun goesOn s₂ h₂ => ?_
    exact ⟨h₂.ready, fun hg => trans_of Quiet (quiet_ask s) (h₂.same hg)⟩

end DsdNeo.DmrTrunk
