import DsdNeo.Models.DmrTrunk.Settled

/-!
# Every step of the machine keeps it placed

The hunt, the notes of control, releases, grants and the tick, each from a machine that is
placed and whose tracked tune is fresh where the step resolves it.
-/

namespace DsdNeo.DmrTrunk

open Program Tuning Ctx

variable {s s' : State} {n : ℕ}

theorem quiet_ccNextMappedCandidate : Keeps Quiet ccNextMappedCandidate := by
  refine keeps_bind keeps_get fun s => keeps_bind (quiet_modifyCtx fun _ => rfl) fun _ => ?_
  split
  · exact keeps_pure _
  · exact keeps_pure _

theorem quiet_ccNextCandidate : Keeps Quiet ccNextCandidate := by
  refine keeps_bind keeps_get fun s => keeps_bind quiet_ask fun a => keeps_ite (keeps_pure _) ?_
  refine keeps_ite (keeps_ite (keeps_pure _) quiet_ccNextMappedCandidate) ?_
  exact keeps_ite (keeps_pure _) (keeps_pure _)

theorem State.Ready.ccProbe (h : s.Ready (n + 1)) (freq : ℤ) :
    Wp (ccProbe freq) s fun _ s' => s'.Ready n := by
  refine wp_bind (wp_get (wp_bind ((h.tuneToCc freq).mono ?_)))
  rintro ⟨result, requestId⟩ s₁ h₁
  refine wp_bind (wp_modify ?_)
  have h₂ := h₁.ready.of_quiet (quiet_setTrunkCcFreq s.trunkCcFreq s₁)
  refine wp_ite (fun _ => h₂) fun hok => wp_bind (wp_ask (wp_bind (wp_modifyCtx (wp_bind ?_))))
  obtain ⟨-, hlands⟩ := h₁.lands (by simpa using hok)
  have hp := h₁.ready.placed
  generalize (s₁.answers 0).nowM = nowM
  have hset : (({ s₁.ctx with
      ccProbeFreqHz := freq, ccAcquiring := true, ccAcquireStartM := nowM
      ccTuneRequestId := requestId, ccTuneDeadlineM := nowM + ccTuneTimeout } : Ctx).setState
        .onCc).Placed
      s₁.generation s₁.receiver :=
    placed_wake (by decide) hp.rx hp.rx_le hp.seen hp.seen_le hp.hunt
  have h₃ := (h₂.of_quiet (quiet_ask _)).edit hset
  obtain ⟨hid, hprobe, -⟩ := setState_rest { s₁.ctx with
      ccProbeFreqHz := freq, ccAcquiring := true, ccAcquireStartM := nowM
      ccTuneRequestId := requestId, ccTuneDeadlineM := nowM + ccTuneTimeout } .onCc
  refine (h₃.ccResolvePending (fun _ _ hst => ?_) nowM).mono fun _ s₄ h₄ => wp_pure h₄.ready
  exact (hlands ((congrArg s₁.status hid.symm).trans hst)).trans hprobe.symm

theorem State.Ready.ccHuntTo (h : s.Ready (n + 1)) (nowM : ℤ) (freq : ℤ) :
    Wp (ccHuntTo nowM freq) s fun _ s' => s'.Ready n := by
  refine wp_bind (wp_get (wp_ite (fun _ => wp_modifyCtx ?_) fun _ => h.ccProbe freq))
  have hp := h.placed
  exact h.weaken.edit (placed_wake (by decide) hp.rx hp.rx_le hp.seen hp.seen_le hp.hunt)

theorem State.Ready.ccHuntOn (h : s.Ready (n + 1)) (nowM : ℤ) :
    Wp (ccHuntOn nowM) s fun _ s' => s'.Ready n := by
  refine wp_bind (wp_get (wp_ite (fun _ => wp_modifyCtx ?_) fun _ => wp_bind (wp_modifyCtx ?_)))
  · exact h.weaken.edit (h.placed.setState (by decide))
  · have h₁ := h.of_quiet (quiet_modifyCtx (f := fun c =>
      { c with ccWindowLost := false, ccRetryAfterM := nowM + ccRetry }) (fun _ => rfl) s)
    refine wp_bind ((quiet_ccNextCandidate.wp _).mono fun freq s₂ hq => ?_)
    have h₂ := h₁.of_quiet hq
    exact wp_ite (fun _ => h₂.weaken) fun _ => h₂.ccHuntTo nowM freq

theorem State.Ready.ccHunt (h : s.Ready (n + 1)) (ht : s.ctx.ccTuneRequestId = 0) (nowM : ℤ) :
    Wp (ccHunt nowM) s fun _ s' => s'.Ready n := by
  have h₁ := h.of_quiet (quiet_ask s)
  refine wp_bind (wp_get (wp_bind (wp_ask (wp_ite (fun _ => h₁.weaken) fun _ =>
    wp_ite (fun hh => ?_) fun _ => h₁.ccHuntOn nowM))))
  refine wp_bind ((h₁.coldStartGate (.of_untracked ht) hh nowM true).mono fun goesOn s₂ h₂ => ?_)
  exact wp_ite (fun hg => (h₁.of_quiet (h₂.same hg)).ccHuntOn nowM) fun _ => h₂.ready

theorem State.Ready.tickIdleColdStart (h : s.Ready (n + 1)) (hi : s.ctx.state = .idle) (nowM : ℤ) :
    Wp (tickIdleColdStart nowM) s fun _ s' => s'.Ready n := by
  have h₁ := h.of_quiet (quiet_ask s)
  obtain ⟨hrx, ht, hs, -⟩ := h.placed.idle hi
  refine wp_bind (wp_get (wp_bind (wp_ask (wp_ite (fun _ => wp_modifyCtx ?_) fun _ =>
    wp_ite (fun _ => wp_modifyCtx ?_) fun _ => wp_ite (fun _ => h₁.weaken) fun _ =>
      wp_bind (wp_modifyCtx ?_)))))
  · exact h₁.weaken.edit (h.placed.of_trace rfl)
  · exact h₁.weaken.edit (h.placed.of_trace rfl)
  · -- the hunt starts with no move waiting: an idle machine has none
    have hp := h.placed
    have hset : (({ s.ctx with coldStartHunt := true, ccRetryAfterM := 0 } : Ctx).setState
        .hunting).Placed s.generation s.receiver :=
      placed_wake (by decide) hp.rx hp.rx_le hp.seen hp.seen_le fun _ => hs
    exact (h₁.edit hset).ccHunt ((setState_rest _ _).1.trans ht) nowM

theorem closed_of_frameIsCurrent {generation : ℕ} (h : s.frameIsCurrent generation = true) :
    s.tuning.now.unresolvedCount = 0 ∧ generation = s.generation := by
  unfold State.frameIsCurrent Tuning.frameIsCurrent at h
  split_ifs at h with h₁ h₂
  exact ⟨not_not.mp h₁, not_not.mp h₂⟩

theorem State.Ready.ccNoteActivityCtx (h : s.Ready n) (hz : s.tuning.now.unresolvedCount = 0)
    (freq : ℤ) : Wp (ccNoteActivityCtx freq) s fun _ s' => s'.Ready n := by
  refine wp_bind (h.ccCurrentFrequency.mono fun current s₁ h₁ => ?_)
  have h₂ := h₁.ready.of_quiet (quiet_ask s₁)
  refine wp_bind (wp_get (wp_bind (wp_ask (wp_ite (fun _ => h₂) fun hc => ?_))))
  refine wp_bind (wp_modify (wp_bind (wp_modifyCtx (wp_bind (wp_modify (wp_modify ?_))))))
  have hp := h₁.ready.placed
  have hpos : 0 < current := not_le.mp fun hle => hc (.inl hle)
  have hplaced : (s₁.ctx.decodedCc current s₁.generation (s₁.answers 0).nowM).Placed
      s₁.generation s₁.receiver :=
    placed_wake (by decide) (fun _ _ => h₁.right hz hpos) (le_refl _) hp.seen hp.seen_le nofun
  exact ⟨⟨h₁.ready.good, h₁.ready.earned, hplaced⟩, h₁.ready.room, h₁.ready.queried⟩

theorem quiet_noteProtocol : Keeps Quiet noteProtocol := quiet_modifyRest fun _ => rfl

theorem quiet_ccMonitorFrequency : Keeps Quiet ccMonitorFrequency :=
  keeps_bind keeps_get fun _ => keeps_bind quiet_ask fun _ =>
    keeps_ite (keeps_pure _) (keeps_ite (keeps_pure _) (keeps_pure _))

theorem quiet_ccNoteMonitorFrequency (freq : ℤ) : Keeps Quiet (ccNoteMonitorFrequency freq) :=
  keeps_bind quiet_ccMonitorFrequency fun _ => keeps_bind keeps_get fun _ =>
    keeps_onlyIf (keeps_bind (quiet_note _) fun _ => quiet_setTrunkCcFreq _)

/-- The context a note of control finds: its tracked tune resolved, the gate as it was. -/
theorem State.Ready.ccActivityContext (h : s.Ready n) (hf : s.Fresh) :
    Wp ccActivityContext s fun found s' =>
      s'.Ready n ∧ (found = true → s'.ctx.ccTuneRequestId = 0) ∧
      (s.tuning.now.unresolvedCount = 0 → s'.tuning = s.tuning) := by
  have h₁ := h.of_quiet (quiet_ask s)
  refine wp_bind (wp_get (wp_bind (wp_ask (wp_ite (fun _ => ⟨h₁, nofun, fun _ => rfl⟩) fun _ =>
    wp_ite (fun _ => ⟨h₁, nofun, fun _ => rfl⟩) fun _ => ?_))))
  refine (h₁.ccResolvePending (hf.of_quiet (quiet_ask s)) _).mono fun found s₂ h₂ => ?_
  exact ⟨h₂.ready, h₂.untracked, h₂.closed⟩

theorem State.Ready.noteCcActivity (h : s.Ready n) (hf : s.Fresh)
    (hz : s.tuning.now.unresolvedCount = 0) (freq : ℤ) :
    Wp (noteCcActivity freq) s fun _ s' => s'.Ready n := by
  refine wp_bind (wp_get (wp_ite (fun _ => ?_) fun _ => ?_))
  · exact h.of_quiet (quiet_ccNoteMonitorFrequency freq s)
  · refine wp_bind ((h.ccActivityContext hf).mono fun found s₁ h₁ => ?_)
    refine wp_ite (fun _ => h₁.1.ccNoteActivityCtx ?_ freq) fun _ => h₁.1
    rw [h₁.2.2 hz]
    exact hz

theorem State.Ready.ccNoteHeartbeatCtx (h : s.Ready n) (hf : s.Fresh) :
    Wp ccNoteHeartbeatCtx s fun _ s' => s'.Ready n := by
  have h₁ := h.of_quiet (quiet_ask s)
  refine wp_bind (wp_get (wp_bind (wp_ask (wp_ite (fun _ => h₁) fun _ => wp_bind ?_))))
  refine (h₁.ccResolvePending (hf.of_quiet (quiet_ask s)) _).mono fun done s₂ h₂ =>
    wp_bind (wp_get (wp_onlyIf (fun _ => wp_modifyCtx (h₂.ready.edit ?_)) fun _ => h₂.ready))
  have hp := h₂.ready.placed
  exact placed_wake (by decide) hp.rx hp.rx_le hp.seen hp.seen_le hp.hunt

theorem State.Ready.noteCcHeartbeat (h : s.Ready n) (hf : s.Fresh) :
    Wp noteCcHeartbeat s fun _ s' => s'.Ready n := by
  refine wp_bind ((h.ccActivityContext hf).mono fun found s₁ h₁ => ?_)
  exact wp_ite (fun hfound => h₁.1.ccNoteHeartbeatCtx (.of_untracked (h₁.2.1 hfound))) fun _ => h₁.1

theorem State.Ready.noteXptSite (h : s.Ready n) : Wp noteXptSite s fun _ s' => s'.Ready n := by
  refine wp_bind (wp_modifyCtx (wp_bind (wp_modify (wp_bind (wp_get ?_)))))
  have h₁ := (h.of_quiet (quiet_modifyCtx (f := fun c => { c with siteWithoutCc := true })
    (fun _ => rfl) s)).of_quiet (quiet_noteProtocol _)
  refine wp_ite (fun _ => ?_) fun _ => h₁
  refine wp_bind (h₁.ccCurrentFrequency.mono fun freq s₂ h₂ => wp_bind (wp_get ?_))
  refine h₂.ready.of_quiet (keeps_onlyIf ?_ s₂)
  exact keeps_bind (quiet_note _) fun _ => keeps_bind (quiet_modifyCtx fun _ => rfl) fun _ =>
    quiet_setTrunkCcFreq _

theorem State.Ready.beginCcAcquisition (h : s.Ready n) {freq : ℤ} {requestId : ℕ}
    (hid : requestId ≠ 0) (hlands : s.status requestId = .ok → s.receiver = freq) :
    Wp (beginCcAcquisition freq requestId) s fun _ s' => s'.Ready n := by
  have h₁ := h.of_quiet (quiet_ask s)
  refine wp_bind (wp_get (wp_ite (fun _ => h) fun _ =>
    wp_bind (wp_ask (wp_bind (wp_modifyCtx ?_)))))
  have hplaced : (s.ctx.acquiring s (s.answers 0) freq requestId).Placed s.generation
    s.receiver := by
    refine ⟨?_, ?_, fun hpos => absurd hpos (lt_irrefl 0), Nat.zero_le _, nofun, nofun⟩
    · intro hpos
      simp only [acquiring, if_neg hid] at hpos
      exact absurd hpos (lt_irrefl 0)
    · simp only [acquiring, if_neg hid]
      exact Nat.zero_le _
  exact wp_bind (((h₁.edit hplaced).ccResolvePending (fun _ _ hst => hlands hst) _).mono
    fun _ s₂ h₂ => wp_pure h₂.ready)

theorem State.Ready.hookReturnToCc (h : s.Ready (n + 1)) (hp25 : s.rest.p25CcFreq = 0) :
    Wp hookReturnToCc s fun out s' => Tuned n s.ctx s.trunkCcFreq out s' := by
  refine wp_bind (wp_get ?_)
  rw [if_neg (not_not.mpr hp25)]
  refine h.hookTune _ (keeps_bind (quiet_setTrunkCcFreq _) fun _ =>
    quiet_modifyRest fun _ => rfl) ?_
  exact keeps_bind (fun _ => rfl) fun _ => fun _ => rfl

theorem State.Ready.returnToCc (h : s.Ready (n + 1)) (freq : ℤ) :
    Wp (returnToCc freq) s fun _ s' => s'.Ready n := by
  refine wp_bind (wp_get (wp_ite (fun _ => h.weaken) fun _ => ?_))
  refine wp_bind (wp_modify (wp_bind (wp_modify (wp_bind ?_))))
  have h₁ : ({ s with rest := { s.rest with p25CcFreq := 0 }, trunkCcFreq := freq } : State).Ready
      (n + 1) := h.of_quiet rfl
  refine (h₁.hookReturnToCc rfl).mono ?_
  rintro ⟨result, requestId⟩ s₂ h₂
  refine wp_ite (fun _ => ?_) fun hok => ?_
  · exact wp_bind (wp_modify (wp_bind (wp_modify (wp_pure (h₂.ready.of_quiet rfl)))))
  · obtain ⟨hid, hlands⟩ := h₂.lands (by simpa using hok)
    refine wp_bind (wp_modify (wp_bind (wp_modifyCtx (wp_bind ?_))))
    have h₃ : ({ s₂ with ctx := s₂.ctx.setState .onCc, log := .returned freq :: s₂.log } :
      State).Ready
        n := (h₂.ready.of_quiet (quiet_note (.returned freq) s₂)).edit
          (h₂.ready.placed.setState (by decide))
    exact (h₃.beginCcAcquisition hid hlands).mono fun _ s₄ h₄ => wp_pure h₄

theorem State.Ready.clearReleasedCarrier (h : s.Ready n) (ccReturned : Bool) {next : SmState}
    (hne : next ≠ .idle) : Wp (clearReleasedCarrier ccReturned next) s fun _ s' => s'.Ready n := by
  refine wp_bind (wp_modifyCtx (wp_bind (wp_modify (wp_bind ?_))))
  have h₁ : ({ s with ctx := s.ctx.callCleared, rest := { s.rest with
      trunkIsTuned := false, trunkVcFreq := 0 } } : State).Ready n := h.of_quiet rfl
  have hp := h.placed
  refine wp_onlyIf (fun _ => wp_modifyCtx (wp_modifyCtx ?_)) fun _ => wp_modifyCtx ?_
  · exact h₁.edit (placed_wake hne hp.rx hp.rx_le hp.seen hp.seen_le hp.hunt)
  · exact h₁.edit (placed_wake hne hp.rx hp.rx_le hp.seen hp.seen_le hp.hunt)

theorem State.Ready.doRelease (h : s.Ready (n + 1)) : Wp doRelease s fun _ s' => s'.Ready n := by
  refine wp_bind (wp_get (wp_bind (wp_modify (wp_ite (fun _ => ?_) fun _ => ?_))))
  · have h₁ : ({ s with rest := { s.rest with trunkSmForceRelease := false } } : State).Ready
        (n + 1) := h.of_quiet rfl
    refine wp_bind ((h₁.returnToCc _).mono fun result s₂ h₂ => wp_ite (fun _ => ?_) fun _ => ?_)
    · exact wp_onlyIf (fun _ => wp_modify (h₂.of_quiet rfl)) fun _ => h₂
    · exact h₂.clearReleasedCarrier true (by decide)
  · have h₁ : ({ s with rest := { s.rest with trunkSmForceRelease := false } } : State).Ready n :=
      h.weaken.of_quiet rfl
    exact h₁.clearReleasedCarrier false (by decide)

theorem State.Ready.abandonCarrier (h : s.Ready n) :
    Wp abandonCarrier s fun _ s' => s'.Ready n := by
  have h₁ : ({ s with rest := { s.rest with trunkSmForceRelease := false } } : State).Ready n :=
    h.of_quiet rfl
  exact wp_bind (wp_modify (h₁.clearReleasedCarrier false (by decide)))

/-- A followed call drops the tracked tune and an operator's move. -/
theorem Ctx.Placed.followed {c : Ctx} {generation : ℕ} {receiver : ℤ}
    (h : c.Placed generation receiver) (freq : ℤ) (statusFollow : Bool) (nowM : ℤ) :
    (c.followed freq statusFollow nowM).Placed generation receiver :=
  placed_wake (by decide) h.rx h.rx_le h.seen h.seen_le fun _ => rfl

theorem State.Ready.tuneToFreq (h : s.Ready (n + 1)) (freq : ℤ) :
    Wp (tuneToFreq freq) s fun out s' => Tuned n s.ctx freq out s' := by
  apply h.hookTune freq
  · exact quiet_modifyRest fun _ => rfl
  · exact fun _ => rfl

theorem State.Ready.grantTune (h : s.Ready (n + 1)) (freq : ℤ) :
    Wp (grantTune freq) s fun _ s' => s'.Ready n := by
  have h₁ := h.of_quiet (quiet_ask s)
  refine wp_bind (wp_ask (wp_bind ?_))
  refine (h₁.tuneToFreq freq).mono ?_
  rintro ⟨result, requestId⟩ s₂ h₂
  exact wp_ite (fun _ => h₂.ready) fun _ =>
    wp_modifyCtx (h₂.ready.edit (h₂.ready.placed.followed _ _ _))

theorem State.Ready.handleGrant (h : s.Ready (n + 1)) (ev : Grant) :
    Wp (handleGrant ev) s fun _ s' => s'.Ready n := by
  refine wp_bind (wp_modify (wp_bind (wp_get ?_)))
  have h₁ := h.of_quiet (quiet_noteProtocol s)
  split
  · exact h₁.weaken
  · next freq hgrant =>
    refine wp_bind (wp_onlyIf (fun hc => ?_) fun _ => h₁.grantTune freq)
    obtain ⟨hz, -⟩ := closed_of_frameIsCurrent hc.2.2
    exact (h₁.ccNoteActivityCtx hz _).mono fun _ s₂ h₂ => h₂.grantTune freq

theorem quiet_handleVoiceSync (slot : Bool) : Keeps Quiet (handleVoiceSync slot) :=
  keeps_bind keeps_get fun _ => keeps_bind quiet_ask fun _ => keeps_onlyIf
    (keeps_bind keeps_get fun _ => keeps_onlyIf (quiet_modifyCtx fun _ => rfl))

/-- The part of the receive check before its verdict. -/
theorem quiet_noteReceiveCarrier (freq : ℤ) : Keeps Quiet (noteReceiveCarrier freq) := by
  intro s
  simp only [noteReceiveCarrier, modify, modifyGet, MonadStateOf.modifyGet, StateT.modifyGet]
  cases s.rest.verifiedCode freq with
  | none => rfl
  | some code => rfl

theorem quiet_handleDataSync (slot : Bool) : Keeps Quiet (handleDataSync slot) :=
  keeps_bind keeps_get fun _ => keeps_bind quiet_ask fun _ =>
    keeps_onlyIf (quiet_modifyCtx fun _ => rfl)

theorem State.Ready.handleRelease (h : s.Ready (n + 1)) (slot : Option Bool) :
    Wp (handleRelease slot) s fun _ s' => s'.Ready n :=
  wp_bind (wp_get (wp_ite (fun _ => h.weaken) fun _ => wp_ite (fun _ => h.doRelease) fun _ =>
    wp_modifyCtx (h.weaken.of_quiet rfl)))

/-- The only event that resolves the tracked tune. -/
def Event.resolves : Event → Bool
  | .ccSync => true
  | _ => false

theorem State.Ready.smEvent (h : s.Ready (n + 1)) (ev : Event) (hf : ev.resolves = true → s.Fresh) :
    Wp (smEvent ev) s fun _ s' => s'.Ready n := by
  cases ev with
  | grant ev => exact h.handleGrant ev
  | voiceSync slot => exact h.weaken.of_quiet (quiet_handleVoiceSync slot s)
  | dataSync slot => exact h.weaken.of_quiet (quiet_handleDataSync slot s)
  | release slot => exact h.handleRelease slot
  | ccSync => exact h.weaken.ccNoteHeartbeatCtx (hf rfl)
  | syncLost => exact h.weaken

theorem State.Ready.tickOnCc (h : s.Ready n) (nowM : ℤ) :
    Wp (tickOnCc nowM) s fun _ s' => s'.Ready n := by
  refine wp_bind (wp_get (wp_ite (fun _ => ?_) fun _ => wp_ite (fun _ => h) fun _ =>
    wp_ite (fun _ => ?_) fun _ => wp_modifyCtx ?_))
  · exact wp_modifyCtx (h.edit (h.placed.of_trace rfl))
  · exact wp_modifyCtx (h.edit (h.placed.of_trace rfl))
  · exact h.edit ((h.placed.setState (show SmState.hunting ≠ .idle by decide)).of_trace rfl)

theorem State.Ready.receiveCheck (h : s.Ready (n + 1)) (freq : ℤ) (nowM grantTimeout : ℤ) :
    Wp (receiveCheck freq nowM grantTimeout) s fun rejected s' =>
      s'.Ready n ∧ (rejected = false → s'.Ready (n + 1)) := by
  refine wp_bind (wp_get (wp_bind ?_))
  have hnew : Keeps Quiet (modifyCtx fun c => c.checking s.rest freq) :=
    quiet_modifyCtx fun c => by
      unfold checking
      split
      · rfl
      · rfl
  refine (hnew.wp _).mono fun _ s₁ hq₁ => wp_bind (wp_get (wp_bind ?_))
  have h₁ := h.of_quiet hq₁
  refine ((keeps_onlyIf (quiet_noteReceiveCarrier freq)).wp _).mono fun _ s₂ hq₂ =>
    wp_bind (wp_modifyCtx ?_)
  have hsilenced : (s₂.ctx.silenced fun slot => !s₁.rest.receiveAllows slot).Placed
      s₂.generation s₂.receiver := (h₁.of_quiet hq₂).placed.of_trace rfl
  have h₂ := (h₁.of_quiet hq₂).edit hsilenced
  refine wp_ite (fun _ => ?_) fun _ => ?_
  · refine wp_bind (wp_modifyCtx (wp_pure ?_))
    have hstarted : Ctx.Placed { (s₂.ctx.silenced fun slot =>
        !s₁.rest.receiveAllows slot) with receiveCheckStartedM := 0 }
        s₂.generation s₂.receiver := hsilenced.of_trace rfl
    have h₃ := h₂.edit hstarted
    exact ⟨h₃.weaken, fun _ => h₃⟩
  · refine wp_bind (wp_modifyCtx (wp_bind (wp_get (wp_bind ?_))))
    refine wp_onlyIf (fun _ => wp_bind (wp_modifyCtx ?_)) fun _ => wp_pure ?_
    · refine (State.Ready.doRelease (n := n) ?_).mono fun _ s₄ h₄ => wp_pure ⟨h₄, nofun⟩
      exact h₂.of_quiet rfl
    · exact ⟨h₂.weaken.of_quiet rfl, nofun⟩

theorem State.Ready.tickDeadlines (h : s.Ready (n + 1)) (nowM hangtime grantTimeout : ℤ) :
    Wp (tickDeadlines nowM hangtime grantTimeout) s fun _ s' => s'.Ready n := by
  refine wp_bind (wp_modifyCtx (wp_bind (wp_get ?_)))
  have h₁ : ({ s with ctx := s.ctx.clearStaleVoiceSlots nowM } : State).Ready (n + 1) :=
    h.of_quiet rfl
  refine wp_ite (fun _ => wp_modifyCtx (h₁.weaken.of_quiet rfl)) fun _ =>
    wp_ite (fun _ => h₁.doRelease) fun _ => wp_onlyIf (fun _ => h₁.doRelease) fun _ => h₁.weaken

theorem State.Ready.tickTuned (h : s.Ready (n + 1)) (nowM hangtime grantTimeout : ℤ) :
    Wp (tickTuned nowM hangtime grantTimeout) s fun _ s' => s'.Ready n := by
  refine wp_bind (wp_get (wp_ite (fun _ => h.doRelease) fun _ => wp_bind ?_))
  refine (h.receiveCheck _ nowM grantTimeout).mono fun rejected s₁ h₁ => ?_
  refine wp_ite (fun _ => h₁.1) fun hr => ?_
  exact (h₁.2 (by simpa using hr)).tickDeadlines nowM hangtime grantTimeout

theorem State.Ready.tickState (h : s.Ready (n + 1)) (ht : s.ctx.ccTuneRequestId = 0)
    (nowM hangtime grantTimeout : ℤ) :
    Wp (tickState nowM hangtime grantTimeout) s fun _ s' => s'.Ready n := by
  refine wp_bind (wp_get ?_)
  cases hst : s.ctx.state with
  | idle => exact h.tickIdleColdStart hst nowM
  | onCc =>
    refine wp_ite (fun _ => h.weaken.tickOnCc nowM) fun _ => wp_bind ?_
    exact (h.receiveCheck _ nowM grantTimeout).mono fun _ s₁ h₁ => wp_pure h₁.1
  | tuned => exact h.tickTuned nowM hangtime grantTimeout
  | hunting => exact h.ccHunt ht nowM

theorem State.Ready.tickReady (h : s.Ready (n + 1)) (hf : s.Fresh) (nowM : ℤ) :
    Wp (tickReady nowM) s fun done s' => Settled n done s' := by
  refine wp_bind (wp_get (wp_ite (fun hh => ?_) fun _ => h.tickSettled hf nowM))
  refine wp_bind ((h.coldStartGate hf hh nowM false).mono fun goesOn s₁ h₁ => ?_)
  refine wp_ite (fun hg => ?_) fun _ => ⟨h₁.ready, nofun⟩
  exact (h.of_quiet (h₁.same hg)).tickSettled (hf.of_quiet (h₁.same hg)) nowM

theorem State.Ready.tickNotAdmitted (h : s.Ready (n + 1)) (hf : s.Fresh) :
    Wp tickNotAdmitted s fun _ s' => s'.Ready n := by
  have h₁ := h.of_quiet (quiet_ask s)
  refine wp_bind (wp_get (wp_bind (wp_ask (wp_ite (fun hh => wp_bind ?_) fun _ => ?_))))
  · exact (h₁.coldStartGate (hf.of_quiet (quiet_ask s)) hh _ false).mono fun _ s₂ h₂ =>
      wp_pure h₂.ready
  · exact wp_modifyCtx (h₁.weaken.of_quiet rfl)

theorem State.Ready.tickCtx (h : s.Ready (n + 1)) (hf : s.Fresh) :
    Wp tickCtx s fun _ s' => s'.Ready n := by
  have h₁ := h.of_quiet (quiet_ask s)
  have hf₁ := hf.of_quiet (quiet_ask s)
  refine wp_bind (wp_get (wp_bind (wp_ask (wp_ite (fun _ => h₁.tickNotAdmitted hf₁) fun _ =>
    wp_bind ?_))))
  refine (h₁.tickReady hf₁ _).mono fun done s₂ h₂ => wp_ite (fun hd => ?_) fun _ => h₂.ready
  obtain ⟨hready, ht⟩ := h₂.free hd
  exact hready.tickState ht _ _ _

end DsdNeo.DmrTrunk
