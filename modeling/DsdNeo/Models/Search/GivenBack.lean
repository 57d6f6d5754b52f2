import DsdNeo.Models.Search.Serving

/-!
# The session a search gives back

A search keeps the settings, the gains and the frequency it found, and restores them
once, as it stops. After a stop that restored and then failed, a resume installs new
receive profiles that no later stop takes away.
-/

namespace DsdNeo.SignalSearch

open Program Text

/-- The settings and the Airspy controls of a desk are in force, and no row is installed. -/
structure InForce (desk : Desk) (s : State) : Prop where
  settings : capture s.opts s.state = desk.settings
  airspy : s.opts.airspy = desk.airspy
  scope : s.scope = none

/-- The session is given back: all of the desk is in force. -/
structure GivenBack (desk : Desk) (s : State) : Prop extends InForce desk s where
  frequency : s.opts.rtlsdrCenterFreq = desk.frequency

/-- A search that will give the session back. -/
structure Lent (desk : Desk) (s : State) : Prop where
  kept : s.c.kept.1 = desk
  airspy : s.opts.airspyInput = false → s.opts.airspy = desk.airspy
  back : s.c.restored = true → InForce desk s
  settled : s.c.restored = true → s.c.stopping = true ∨ s.c.phase = .paused ∨ s.c.phase = .error

/-- What holds between two calls. -/
structure Sound (desk : Desk) (s : State) : Prop where
  stopped : s.c.phase = .stopped → GivenBack desk s
  active : s.c.phase ≠ .stopped → Lent desk s

variable {desk : Desk} {s s' : State}

theorem InForce.of_eq (h : InForce desk s) (hopts : s'.opts = s.opts) (hstate : s'.state = s.state)
    (hscope : s'.scope = s.scope) : InForce desk s' :=
  ⟨by rw [hopts, hstate, h.settings], by rw [hopts, h.airspy], by rw [hscope, h.scope]⟩

theorem Lent.of_eq (h : Lent desk s) (hopts : s'.opts = s.opts) (hstate : s'.state = s.state)
    (hscope : s'.scope = s.scope) (hkept : s'.c.kept = s.c.kept)
    (hsettled : s.c.restored = true →
      s'.c.stopping = true ∨ s'.c.phase = .paused ∨ s'.c.phase = .error) : Lent desk s' where
  kept := by rw [hkept, h.kept]
  airspy hinput := by rw [hopts, h.airspy (by rw [← hopts, hinput])]
  back hr := (h.back ((congrArg (·.2) hkept).symm.trans hr)).of_eq hopts hstate hscope
  settled hr := hsettled ((congrArg (·.2) hkept).symm.trans hr)

theorem Lent.quiet (h : Lent desk s) (hq : Quiet s s') : Lent desk s' := by
  have hphase : s'.c.phase = s.c.phase := congrArg (·.2.2.2.2.1) hq
  have hstopping : s'.c.stopping = s.c.stopping := congrArg (·.2.2.2.2.2) hq
  refine h.of_eq (congrArg (·.1) hq) (congrArg (·.2.1) hq) (congrArg (·.2.2.1) hq)
    (congrArg (·.2.2.2.1) hq) fun hr => ?_
  rw [hphase, hstopping]
  exact h.settled hr

theorem Sound.quiet (h : Sound desk s) (hq : Quiet s s') : Sound desk s' := by
  have hopts : s'.opts = s.opts := congrArg (·.1) hq
  have hphase : s'.c.phase = s.c.phase := congrArg (·.2.2.2.2.1) hq
  constructor
  · intro hp
    have hback := h.stopped (hphase.symm.trans hp)
    exact ⟨hback.toInForce.of_eq hopts (congrArg (·.2.1) hq) (congrArg (·.2.2.1) hq),
      by rw [hopts, hback.frequency]⟩
  · exact fun hp => (h.active fun hs => hp (hphase.trans hs)).quiet hq

theorem Lent.serves (h : Lent desk s) (hr : s.c.restored = false) (hs : Serves s s') :
    Lent desk s' where
  kept := by rw [hs.kept, h.kept]
  airspy hinput := by
    have hinput' : s.opts.airspyInput = false := hs.airspyInput.symm.trans hinput
    rw [hs.airspy hinput', h.airspy hinput']
  back hr' := absurd (hr.symm.trans ((congrArg (·.2) hs.kept).symm.trans hr')) nofun
  settled hr' := absurd (hr.symm.trans ((congrArg (·.2) hs.kept).symm.trans hr')) nofun

/-- A failure keeps what is lent. -/
theorem Lent.searchError (h : Lent desk s) (message : String) :
    Wp (searchError message) s fun _ s' => Lent desk s' ∧ s'.c.phase = .error := by
  refine wp_bind ((quiet_searchEndHit.wp s).mono fun _ s₁ hq => ?_)
  exact ⟨(h.quiet hq).of_eq rfl rfl rfl rfl fun _ => .inr (.inr rfl), rfl⟩

theorem wp_quietC {f : Coord → Coord} {post : Unit → State → Prop}
    (hf : ∀ c, (f c).still = c.still) (h : ∀ s', Quiet s s' → post () s') :
    Wp (modifyC f) s post := h _ (quiet_modifyC hf s)

theorem wp_scanModeLeave (s : State) :
    Wp scanModeLeave s fun _ s' => s'.c = s.c ∧ s'.scope = none ∧ SameRadio s.opts s'.opts := by
  refine wp_bind (wp_get ?_)
  cases hscope : s.scope with
  | none => exact ⟨rfl, hscope, rfl, rfl, rfl⟩
  | some scope =>
    refine wp_bind (wp_onlyIf (fun _ => ?_) fun _ => ?_)
    · exact ⟨rfl, rfl, rfl, rfl, rfl⟩
    · exact ⟨rfl, rfl, rfl, rfl, rfl⟩

variable {s₀ : State}

/-- Restoring puts the desk a session started with back. -/
theorem wp_searchRestore (h : Lent s₀.desk s) :
    Wp searchRestore s fun _ s' => InForce s₀.desk s' ∧ s'.c.kept = (s₀.desk, true) ∧
      s'.c.phase = s.c.phase ∧ s'.c.stopping = s.c.stopping := by
  refine wp_bind (wp_get (wp_onlyIf (fun _ => ?_) fun hr => ?_))
  · refine wp_bind ((wp_scanModeLeave s).mono fun _ s₁ ⟨hc, hscope, hradio⟩ => ?_)
    have hsaved : s.c.saved = capture s₀.opts s₀.state := congrArg Desk.settings h.kept
    have hcontrols : s.c.savedAirspy = s₀.opts.airspy := congrArg Desk.airspy h.kept
    have hkept : s₁.c.kept.1 = s₀.desk := by rw [hc, h.kept]
    have hphase : s₁.c.phase = s.c.phase := by rw [hc]
    have hstopping : s₁.c.stopping = s.c.stopping := by rw [hc]
    refine ⟨⟨?_, ?_, hscope⟩, Prod.ext hkept rfl, hphase, hstopping⟩
    · show capture (ite (s₁.opts.airspyInput = true) _ _) _ = _
      rw [hsaved]
      split_ifs
      · exact capture_restore s₀.opts s₀.state s₁.opts
      · exact capture_restore s₀.opts s₀.state s₁.opts
    · show Opts.airspy (ite (s₁.opts.airspyInput = true) _ _) = _
      split_ifs with hinput
      · exact hcontrols
      · have hno : s.opts.airspyInput = false :=
          Bool.eq_false_iff.mpr fun hyes => hinput (hradio.airspyInput.trans hyes)
        exact hradio.airspy.trans (h.airspy hno)
  · have hr' : s.c.restored = true := Bool.not_eq_false _ ▸ hr
    exact ⟨h.back hr', Prod.ext h.kept hr', rfl, rfl⟩

/-- Shutting a session down gives it back. -/
theorem wp_searchShutdown (h : Lent s₀.desk s) (hp : s.c.phase ≠ .stopped) :
    Wp searchShutdown s fun _ s' => s'.c.phase = .stopped ∧ GivenBack s₀.desk s' := by
  refine wp_bind (wp_get (wp_onlyIf (fun _ => ?_) fun hs => absurd hp hs))
  refine wp_bind ((quiet_searchEndHit.wp s).mono fun _ s₁ h₁ => ?_)
  refine wp_bind ((quiet_searchCancelMeasurements.wp s₁).mono fun _ s₂ h₂ => ?_)
  have hlent := (h.quiet h₁).quiet h₂
  refine wp_bind ((wp_searchRestore hlent).mono fun _ s₃ ⟨hback, hkept, _⟩ => ?_)
  exact ⟨rfl, ⟨hback.settings, hback.airspy, hback.scope⟩, congrArg (fun k => k.1.frequency) hkept⟩

theorem Lent.sound (h : Lent desk s) (hp : s.c.phase ≠ .stopped) : Sound desk s :=
  ⟨fun hs => absurd hs hp, fun _ => h⟩

/-- A failure leaves a search that can still give the session back. -/
theorem Lent.error_sound (h : Lent desk s) (message : String) :
    Wp (SignalSearch.searchError message) s fun _ s' => Sound desk s' :=
  (h.searchError message).mono fun _ _ ⟨hlent, hp⟩ => hlent.sound (hp ▸ nofun)

/-- A search that is stopping. -/
structure Stopping (desk : Desk) (s : State) : Prop where
  lent : Lent desk s
  phase : s.c.phase ≠ .stopped
  stopping : s.c.stopping = true

theorem Stopping.quiet (h : Stopping desk s) (hq : Quiet s s') : Stopping desk s' := by
  have hphase : s'.c.phase = s.c.phase := congrArg (·.2.2.2.2.1) hq
  have hstopping : s'.c.stopping = s.c.stopping := congrArg (·.2.2.2.2.2) hq
  exact ⟨h.lent.quiet hq, hphase ▸ h.phase, hstopping.trans h.stopping⟩

theorem Stopping.sound (h : Stopping desk s) : Sound desk s := h.lent.sound h.phase

theorem Stopping.restoreTune (h : Stopping s₀.desk s) :
    Wp searchRestoreTune s fun _ s' => Sound s₀.desk s' := by
  refine wp_bind ((quiet_searchEndHit.wp s).mono fun _ s₁ h₁ => ?_)
  refine wp_bind ((quiet_searchCancelMeasurements.wp s₁).mono fun _ s₂ h₂ => ?_)
  have hstop := (h.quiet h₁).quiet h₂
  refine wp_bind ((wp_searchRestore hstop.lent).mono fun _ s₃ ⟨hback, hkept, hphase, hst⟩ => ?_)
  have hstopping := hst.trans hstop.stopping
  have hlent : Lent s₀.desk s₃ :=
    ⟨congrArg Prod.fst hkept, fun _ => hback.airspy, fun _ => hback, fun _ => .inl hstopping⟩
  have hstop₃ : Stopping s₀.desk s₃ := ⟨hlent, hphase ▸ hstop.phase, hstopping⟩
  refine wp_bind (wp_bind ((quiet_ask.wp s₃).mono fun a s₄ h₄ => wp_bind ?_))
  refine wp_quietC (fun _ => rfl) fun s₅ h₅ => ?_
  have hstop₅ := (hstop₃.quiet h₄).quiet h₅
  refine wp_bind (wp_get (wp_ite (fun _ => hstop₅.lent.error_sound _) fun _ => wp_ite ?_ ?_))
  · exact fun _ => wp_quietC (fun _ => rfl) fun _ h₆ => (hstop₅.quiet h₆).sound
  · exact fun _ => wp_onlyIf (fun _ => hstop₅.lent.error_sound _) fun _ => hstop₅.sound

theorem Stopping.tick (h : Stopping s₀.desk s) :
    Wp searchStopTick s fun _ s' => Sound s₀.desk s' := by
  refine wp_bind (wp_get (wp_bind ((quiet_ask.wp s).mono fun a s₁ h₁ => ?_)))
  have hstop := h.quiet h₁
  refine wp_ite (fun _ => wp_bind ?_) fun _ => ?_
  · exact wp_onlyIf (fun _ => hstop.lent.error_sound _) fun _ => hstop.sound
  · refine wp_bind (wp_quietC (fun _ => rfl) fun s₂ h₂ => ?_)
    have hstop₂ := hstop.quiet h₂
    refine wp_bind (wp_get (wp_ite (fun _ => hstop₂.restoreTune) fun _ => ?_))
    refine wp_bind (wp_quietC (fun _ => rfl) fun s₃ h₃ => ?_)
    have hstop₃ := hstop₂.quiet h₃
    refine wp_ite (fun _ => wp_bind (hstop₃.lent.error_sound _)) fun _ => wp_bind (wp_modify ?_)
    have hlent : Lent s₀.desk
        { s₃ with opts := { s₃.opts with rtlsdrCenterFreq := s₃.c.savedFrequency } } :=
      ⟨hstop₃.lent.kept, hstop₃.lent.airspy, fun hr => ⟨(hstop₃.lent.back hr).settings,
        (hstop₃.lent.back hr).airspy, (hstop₃.lent.back hr).scope⟩, hstop₃.lent.settled⟩
    refine wp_bind ((wp_searchShutdown hlent hstop₃.phase).mono fun _ _ ⟨hp, hback⟩ => ?_)
    exact ⟨fun _ => hback, fun hne => absurd hp hne⟩

theorem Sound.tick (h : Sound s₀.desk s) : Wp searchTick s fun _ s' => Sound s₀.desk s' := by
  refine wp_bind (wp_get (wp_ite (fun _ => h) fun hp => ?_))
  have hlent := h.active hp
  have hbody : Wp searchTickBody s fun _ s' => Sound s₀.desk s' := by
    refine wp_bind (wp_get (wp_bind ((quiet_ask.wp s).mono fun a s₁ h₁ => ?_)))
    have hphase : s₁.c.phase = s.c.phase := congrArg (·.2.2.2.2.1) h₁
    have hst : s₁.c.stopping = s.c.stopping := congrArg (·.2.2.2.2.2) h₁
    have hlent₁ := hlent.quiet h₁
    have hp₁ : s₁.c.phase ≠ .stopped := hphase ▸ hp
    refine wp_ite (fun _ => ?_) fun _ => wp_ite (fun hs => ?_) fun hs =>
      wp_ite (fun _ => ?_) fun hon => ?_
    · -- the input is gone
      refine wp_bind (wp_get (wp_ite (fun _ => ?_) fun _ => ?_))
      · refine wp_bind ((wp_searchShutdown hlent₁ hp₁).mono fun _ _ ⟨hp', hback⟩ => ?_)
        exact ⟨fun _ => hback, fun hne => absurd hp' hne⟩
      · exact wp_bind (wp_onlyIf (fun _ => hlent₁.error_sound _) fun _ => hlent₁.sound hp₁)
    · exact Stopping.tick ⟨hlent₁, hp₁, hst.trans hs⟩
    · exact hlent₁.sound hp₁
    · -- nothing has been restored yet
      have hr : s₁.c.restored = false := by
        cases hr : s₁.c.restored with
        | false => rfl
        | true =>
          rcases hlent₁.settled hr with hstop | hpaused | herror
          · exact absurd (hst.symm.trans hstop) hs
          · exact absurd (.inl (hphase.symm.trans hpaused)) hon
          · exact absurd (.inr (hphase.symm.trans herror)) hon
      have hserves := serves_searchAdvance s₁
      exact (hlent₁.serves hr hserves).sound (hserves.phase hp₁)
  refine wp_bind (hbody.mono fun _ s₁ h₁ =>
    wp_bind (wp_get (wp_bind (wp_onlyIf (fun _ => ?_) fun _ => h₁))))
  exact wp_quietC (fun _ => rfl) fun _ h₂ => h₁.quiet h₂

theorem still_searchShouldYield : Keeps Still searchShouldYield := by
  refine keeps_bind keeps_get fun _ => keeps_bind still_ask fun _ => keeps_ite (keeps_pure _)
    (keeps_ite (keeps_pure _) (keeps_ite (keeps_pure _) ?_))
  refine keeps_bind (still_searchNoteActivity _) fun _ =>
    keeps_bind (keeps_onlyIf still_searchLiveStrength) fun _ => keeps_bind keeps_get fun _ => ?_
  exact keeps_ite (keeps_pure _) (keeps_pure _)

theorem still_searchAvoidAction (f : BitVec 32) : Keeps Still (searchAvoidAction f) := by
  refine keeps_bind ?_ fun _ => keeps_ite (keeps_pure _) ?_
  · refine keeps_bind keeps_get fun _ => keeps_ite (keeps_pure _) ?_
    exact keeps_bind (still_modifyC fun _ => rfl) fun _ => keeps_pure _
  · refine keeps_bind keeps_get fun _ => keeps_bind (keeps_onlyIf ?_) fun _ => keeps_pure _
    exact keeps_bind (still_modifyC fun _ => rfl) fun _ => still_searchPublish

theorem still_searchUnavoid (f : BitVec 32) : Keeps Still (searchUnavoid f) :=
  still_modifyC fun c => by
    split
    · rfl
    · rfl

/-- A stop that restored the session, and then failed. -/
def State.Spent (s : State) : Prop :=
  s.c.phase ≠ .stopped ∧ s.c.restored = true ∧ s.c.stopping = false

/-- The call resumes no search whose stop has restored the session and failed. -/
def Op.Resumable (s : State) : Op → Prop
  | .start _ => ¬ s.Spent
  | .control action => action.action = .resume ∨ action.action = .hold → ¬ s.Spent
  | _ => True

/-- A restored search that may be resumed is stopping. -/
theorem stopping_of_not_spent (h : ¬ s.Spent) (hp : s.c.phase ≠ .stopped)
    (hr : s.c.restored = true) : s.c.stopping = true := by
  cases hs : s.c.stopping with
  | true => rfl
  | false => exact absurd ⟨hp, hr, hs⟩ h

/-- An edit of the coordinator that settles a restored search. -/
theorem Lent.modifyC (h : Lent desk s) {f : Coord → Coord} (hkept : (f s.c).kept = s.c.kept)
    (hphase : (f s.c).phase ≠ .stopped) (hsettled : s.c.restored = true →
      (f s.c).stopping = true ∨ (f s.c).phase = .paused ∨ (f s.c).phase = .error) :
    Wp (SignalSearch.modifyC f) s fun _ s' => Sound desk s' := by
  have hlent : Lent desk { s with c := f s.c } := h.of_eq rfl rfl rfl hkept hsettled
  exact hlent.sound hphase

theorem Lent.applyAction (h : Lent desk s) (hp : s.c.phase ≠ .stopped) {action : Control}
    (hresumable : action.action = .resume ∨ action.action = .hold → ¬ s.Spent) :
    Wp (searchApplyAction action) s fun _ s' => Sound desk s' := by
  have hsound := h.sound hp
  refine wp_bind (wp_get ?_)
  cases haction : action.action with
  | stop =>
    refine wp_bind ((quiet_ask.wp s).mono fun a s₁ h₁ => wp_bind ?_)
    have hphase : s₁.c.phase = s.c.phase := congrArg (·.2.2.2.2.1) h₁
    exact (h.quiet h₁).modifyC rfl (hphase ▸ hp) fun _ => .inl rfl
  | pause =>
    refine wp_bind (wp_bind ((quiet_searchEndHit.wp s).mono fun _ s₁ h₁ => ?_))
    refine wp_bind ((quiet_searchCancelMeasurements.wp s₁).mono fun _ s₂ h₂ => ?_)
    exact ((h.quiet h₁).quiet h₂).modifyC rfl (fun hs => nomatch hs) fun _ => .inr (.inl rfl)
  | resume =>
    refine wp_bind (wp_get (wp_ite (fun _ => hsound) fun _ => wp_bind ?_))
    refine h.modifyC rfl (fun hs => nomatch hs) fun hr => .inl ?_
    exact stopping_of_not_spent (hresumable (.inl haction)) hp hr
  | hold =>
    have hstopping (hr : s.c.restored = true) :=
      stopping_of_not_spent (hresumable (.inr haction)) hp hr
    refine wp_bind ?_
    by_cases htuning : s.c.phase = .tuning
    · refine h.modifyC ?_ ?_ fun hr => .inl ?_
      · rw [if_neg (not_not_intro htuning)]
        rfl
      · rw [if_neg (not_not_intro htuning)]
        exact hp
      · rw [if_neg (not_not_intro htuning)]
        exact hstopping hr
    · refine h.modifyC ?_ ?_ fun hr => .inl ?_
      · rw [if_pos htuning]
        rfl
      · rw [if_pos htuning]
        exact receptionPhase_ne_stopped _
      · rw [if_pos htuning]
        exact hstopping hr
  | skip => exact wp_bind (wp_quietC (fun _ => rfl) fun _ h₁ => hsound.quiet h₁)
  | avoid =>
    exact ((Still.quiet (still_searchAvoidAction _)).wp s).mono fun _ _ h₁ => hsound.quiet h₁
  | avoidPermanent =>
    exact ((Still.quiet (still_searchAvoidAction _)).wp s).mono fun _ _ h₁ => hsound.quiet h₁
  | avoidFrequency =>
    exact ((Still.quiet (still_searchAvoidAction _)).wp s).mono fun _ _ h₁ => hsound.quiet h₁
  | unavoid =>
    exact wp_bind (((Still.quiet (still_searchUnavoid _)).wp s).mono fun _ _ h₁ => hsound.quiet h₁)
  | unknown => exact hsound

theorem Sound.control (h : Sound desk s) {action : Control}
    (hresumable : action.action = .resume ∨ action.action = .hold → ¬ s.Spent) :
    Wp (searchControl action) s fun _ s' => Sound desk s' := by
  refine wp_bind (wp_get (wp_ite (fun _ => h) fun hvalid => ?_))
  have hp : s.c.phase ≠ .stopped := by
    intro hp
    rw [validAction, if_pos (.inr hp)] at hvalid
    exact hvalid rfl
  refine wp_bind (((h.active hp).applyAction hp hresumable).mono fun ok s₁ h₁ => ?_)
  refine wp_ite (fun _ => h₁) fun _ => wp_bind (wp_quietC (fun _ => rfl) fun s₂ h₂ => ?_)
  exact wp_bind ((quiet_searchPublish.wp s₂).mono fun _ s₃ h₃ => (h₁.quiet h₂).quiet h₃)

theorem phase_of_validateStart {a : Answer} {config : Config}
    (h : validateStart s a config = none) : s.c.phase = .paused ∨ s.c.phase = .stopped := by
  rw [validateStart] at h
  split_ifs at h with hconfig hlive hactive
  simp only [searchActive, decide_eq_true_eq, not_and_or, not_or, not_not] at hactive
  exact hactive.symm.imp And.left id

theorem sameRadio_sessionOpts (opts : Opts) : SameRadio opts (sessionOpts opts) := by
  unfold sessionOpts
  dsimp only
  split_ifs
  · exact ⟨rfl, rfl, rfl⟩
  · exact ⟨rfl, rfl, rfl⟩

theorem keeps_scanModeBegin : Keeps (Same fun s : State => (s.opts, s.c)) scanModeBegin := by
  refine keeps_bind keeps_get fun s => keeps_bind (fun _ => rfl) fun _ => ?_
  split
  · exact keeps_pure _
  · exact keeps_ite (keeps_bind (fun _ => rfl) fun _ => keeps_pure _) (keeps_pure _)

theorem GivenBack.begin (h : GivenBack s₀.desk s) (hp : s.c.phase = .stopped) (config : Config) :
    Wp (searchBegin config) s fun _ s' => Sound s₀.desk s' := by
  have hdesk : s.desk = s₀.desk := by
    rw [State.desk, h.settings, h.airspy, h.frequency]
  refine wp_bind (wp_get (wp_bind ((quiet_ask.wp s).mono fun a s₁ h₁ => ?_)))
  have hopts₁ : s₁.opts = s.opts := congrArg (·.1) h₁
  have hp₁ : s₁.c.phase = .stopped := (congrArg (·.2.2.2.2.1) h₁ : s₁.c.phase = s.c.phase).trans hp
  have hback₁ : GivenBack s₀.desk s₁ :=
    (Sound.quiet ⟨fun _ => h, fun hne => absurd hp hne⟩ h₁).stopped hp₁
  refine wp_ite (fun _ => ⟨fun _ => hback₁, fun hne => absurd hp₁ hne⟩) fun _ => ?_
  refine wp_bind (wp_modify (wp_bind ((keeps_scanModeBegin.wp _).mono fun rc s₂ h₂ => ?_)))
  have hopts₂ : s₂.opts = sessionOpts s₁.opts := congrArg (·.1) h₂
  have hc₂ : s₂.c = s₁.c := congrArg (·.2) h₂
  have hradio : SameRadio s.opts s₂.opts := by
    rw [hopts₂, ← hopts₁]
    exact sameRadio_sessionOpts _
  refine wp_bind ((quiet_ask.wp s₂).mono fun own s₃ h₃ => ?_)
  have hopts₃ : s₃.opts = s₂.opts := congrArg (·.1) h₃
  have hphase₃ : s₃.c.phase = .stopped :=
    (congrArg (·.2.2.2.2.1) h₃ : s₃.c.phase = s₂.c.phase).trans
      ((congrArg Coord.phase hc₂).trans hp₁)
  refine wp_ite (fun _ => ?_) fun _ => ?_
  · -- the start failed: the settings go back
    refine wp_bind ((wp_scanModeLeave s₃).mono fun _ s₄ ⟨hc₄, hscope₄, hradio₄⟩ => ?_)
    refine wp_bind (wp_modify ⟨fun _ => ⟨⟨?_, ?_, hscope₄⟩, ?_⟩, fun hne => absurd ?_ hne⟩)
    · exact (capture_restore s.opts s.state s₄.opts).trans h.settings
    · exact (hradio₄.airspy.trans (by rw [hopts₃, hradio.airspy])).trans h.airspy
    · exact (hradio₄.rtlsdrCenterFreq.trans (by rw [hopts₃, hradio.rtlsdrCenterFreq])).trans
        h.frequency
    · exact (congrArg Coord.phase hc₄).trans hphase₃
  · refine wp_bind (wp_modify
      (wp_bind (((Still.quiet still_searchSelectRange).wp _).mono fun _ s₄ h₄ => ?_)))
    refine wp_bind ((quiet_searchPublish.wp s₄).mono fun _ s₅ h₅ => ?_)
    have hairspy : s₃.opts.airspy = s₀.desk.airspy := by rw [hopts₃, hradio.airspy, h.airspy]
    have hlent : Lent s₀.desk { s₃ with
        c := Coord.fresh config (capture s.opts s.state) s.opts.rtlsdrCenterFreq s.opts.airspy
          a.nowMs } :=
      ⟨hdesk, fun _ => hairspy, (fun hr : false = true => nomatch hr),
        (fun hr : false = true => nomatch hr)⟩
    exact ((hlent.sound fun hs : Phase.searching = .stopped => nomatch hs).quiet h₄).quiet h₅

theorem Sound.start (h : Sound s₀.desk s) (hspent : ¬ s.Spent) (config : Config) :
    Wp (searchStart config) s fun _ s' => Sound s₀.desk s' := by
  refine wp_bind (wp_get (wp_bind ((quiet_ask.wp s).mono fun a s₁ h₁ => ?_)))
  have hsound := h.quiet h₁
  cases hvalid : validateStart s a config with
  | some why => exact hsound
  | none =>
    have hphase : s₁.c.phase = s.c.phase := congrArg (·.2.2.2.2.1) h₁
    refine wp_ite (fun hpaused => wp_bind ?_) fun hpaused => ?_
    · have hp : s.c.phase ≠ .stopped := hpaused ▸ nofun
      have hlent := (h.active hp).quiet h₁
      refine wp_bind (Wp.mono (hlent.modifyC rfl (fun hs => nomatch hs) fun hr => .inl ?_)
        fun _ s₂ h₂ => ?_)
      · exact (congrArg (·.2.2.2.2.2) h₁ : s₁.c.stopping = s.c.stopping).trans
          (stopping_of_not_spent hspent hp
            ((congrArg (·.2.2.2.1.2) h₁ : s₁.c.restored = s.c.restored).symm.trans hr))
      · refine wp_bind (((quiet_note _).wp s₂).mono fun _ s₃ h₃ => ?_)
        refine wp_bind (((Still.quiet still_searchSelectRange).wp s₃).mono fun _ s₄ h₄ => ?_)
        exact (quiet_searchPublish.wp s₄).mono fun _ _ h₅ => ((h₂.quiet h₃).quiet h₄).quiet h₅
    · have hstopped := (phase_of_validateStart hvalid).resolve_left hpaused
      exact (hsound.stopped (hphase.trans hstopped)).begin (hphase.trans hstopped) config

theorem Sound.evidence (h : Sound desk s) (protocol : Bytes) (target source : BitVec 32)
    (access : Bytes) :
    Wp (searchEvidence protocol target source access) s fun _ s' => Sound desk s' := by
  refine wp_bind (wp_get (wp_bind ((quiet_ask.wp s).mono fun a s₁ h₁ => ?_)))
  have hsound := h.quiet h₁
  refine wp_onlyIf (fun hreceiving => ?_) fun _ => hsound
  simp only [receiving, Bool.and_eq_true, Bool.or_eq_true, beq_iff_eq] at hreceiving
  refine wp_bind (wp_quietC (fun _ => rfl) fun s₂ h₂ => wp_bind ?_)
  refine wp_quietC (fun _ => rfl) fun s₃ h₃ => wp_bind ?_
  have hquiet : Quiet s s₃ := h₃.trans (h₂.trans h₁)
  have hphase : s₃.c.phase = s.c.phase := congrArg (·.2.2.2.2.1) hquiet
  have hon : s₃.c.phase ≠ .stopped ∧ s₃.c.phase ≠ .paused ∧ s₃.c.phase ≠ .error := by
    rw [hphase]
    rcases hreceiving.1.2 with (hp | hp) | hp <;> rw [hp] <;> exact ⟨nofun, nofun, nofun⟩
  have hlent := (h.quiet hquiet).active hon.1
  refine Wp.mono (hlent.modifyC rfl ?_ fun hr => .inl ?_) fun _ s₄ h₄ => wp_bind ?_
  · show ite (s₃.c.hold = true) s₃.c.phase .listening ≠ _
    split_ifs
    · exact hon.1
    · nofun
  · exact ((hlent.settled hr).resolve_right (not_or.mpr hon.2))
  · refine wp_quietC (fun _ => rfl) fun s₅ h₅ => ?_
    exact (quiet_searchPublish.wp s₅).mono fun _ _ h₆ => (h₄.quiet h₅).quiet h₆

theorem quiet_searchRefreshed (refreshed : Visit × Bool) :
    Keeps Quiet (searchRefreshed refreshed) :=
  keeps_bind (quiet_modifyC fun _ => rfl) fun _ => keeps_onlyIf quiet_searchPublish

theorem quiet_searchSite (note : SiteNote) : Keeps Quiet (searchSite note) := by
  refine keeps_bind keeps_get fun _ => keeps_bind quiet_ask fun _ => ?_
  split
  · exact keeps_pure _
  · exact quiet_searchRefreshed _

theorem quiet_searchCall (slot : ℕ) (record : Option CallState.Record) :
    Keeps Quiet (searchCall slot record) := by
  refine keeps_bind keeps_get fun _ => keeps_bind quiet_ask fun _ => ?_
  split
  · exact keeps_pure _
  · exact keeps_ite (keeps_pure _) (keeps_ite (keeps_pure _) (quiet_searchRefreshed _))

theorem quiet_searchNotice (session : BitVec 64) (message : String) :
    Keeps Quiet (searchNotice session message) :=
  keeps_bind keeps_get fun _ =>
    keeps_onlyIf (keeps_bind (quiet_modifyC fun _ => rfl) fun _ => quiet_searchPublish)

theorem Sound.shutdown (h : Sound s₀.desk s) :
    Wp searchShutdown s fun _ s' => Sound s₀.desk s' := by
  by_cases hp : s.c.phase = .stopped
  · exact wp_bind (wp_get (wp_onlyIf (fun hne => absurd hp hne) fun _ => h))
  · exact (wp_searchShutdown (h.active hp) hp).mono fun _ _ ⟨hs, hback⟩ =>
      ⟨fun _ => hback, fun hne => absurd hs hne⟩

/-- A call keeps what holds between two calls, unless it resumes a spent search. -/
theorem Sound.perform (h : Sound s₀.desk s) {op : Op} (hop : op.Resumable s) :
    Sound s₀.desk (perform op s).2 := by
  cases op with
  | start config => exact h.start hop config
  | control action => exact h.control hop
  | tick => exact h.tick
  | shouldYield => exact h.quiet (Still.quiet still_searchShouldYield s)
  | evidence protocol target source access => exact h.evidence protocol target source access
  | site note => exact h.quiet (quiet_searchSite note s)
  | call slot record => exact h.quiet (quiet_searchCall slot record s)
  | notice session message => exact h.quiet (quiet_searchNotice session message s)
  | shutdown => exact h.shutdown

/-- Every call of a run, in the state it is made in, resumes no spent search. -/
def Resumable (s : State) : List Op → Prop
  | [] => True
  | op :: ops => op.Resumable s ∧ Resumable (perform op s).2 ops

theorem Sound.run (h : Sound s₀.desk s) {ops : List Op} (hops : Resumable s ops) :
    Sound s₀.desk (run s ops) := by
  induction ops generalizing s with
  | nil => exact h
  | cons op ops ih => exact ih (h.perform hops.1) hops.2

/-- In every run that resumes no search whose stop has restored the session and failed, the
settings, the Airspy controls and the frequency are the session's whenever the search is
stopped, no row is left installed, and until then the search owns the tuner. -/
theorem search_gives_session_back (s₀ : State) (hidle : s₀.c.phase = .stopped)
    (hscope : s₀.scope = none) (ops : List Op) (hops : Resumable s₀ ops) :
    ((run s₀ ops).c.phase = .stopped → GivenBack s₀.desk (run s₀ ops)) ∧
      ((run s₀ ops).c.phase ≠ .stopped →
        searchActive (run s₀ ops) = true ∧ (run s₀ ops).c.kept.1 = s₀.desk) := by
  have hsound : Sound s₀.desk s₀ :=
    ⟨fun _ => ⟨⟨rfl, rfl, hscope⟩, rfl⟩, fun hne => absurd hidle hne⟩
  have hrun := hsound.run hops
  exact ⟨hrun.stopped, fun hne => ⟨decide_eq_true hne, (hrun.active hne).kept⟩⟩

/-- Options of a session on one radio, with its squelch at a level. -/
def sessionStart : Opts where
  rtlSquelchLevel := 1
  rtlSquelchMode := 0
  rtlSquelchMarginDb := 10
  analogToneSet := .empty
  receive := []
  analogToneFilter := 0
  aggressiveFramesync := 0
  dmrCrcRelaxedDefault := 0
  scanVoiceOnly := 0
  scanVoiceQualifyMs := 0
  scanVoiceHoldMs := 0
  scanMaxVisitMs := 0
  dmrMuteEncL := 0
  dmrMuteEncR := 0
  unmuteEncryptedP25 := 0
  trunkTuneDataCalls := 0
  trunkTuneEncCalls := 0
  p25PreferCandidates := 0
  groupInFile := ""
  analogNfmBandwidthHz := 0
  analogAmBandwidthHz := 0
  frameDstar := 0
  frameX2tdma := 0
  frameP25p1 := 0
  frameP25p2 := 0
  frameNxdn48 := 0
  frameNxdn96 := 0
  frameDmr := 1
  frameDpmr := 0
  frameProvoice := 0
  frameYsf := 0
  frameM17 := 0
  frameTetra := 0
  modC4fm := 1
  modQpsk := 0
  modGfsk := 0
  modCliLock := 0
  modP25p2C4fm := 0
  modP25p2ProfileLock := 0
  invertedP2 := 0
  invertedX2tdma := 0
  invertedDmr := 0
  invertedDpmr := 0
  invertedYsf := 0
  invertedM17 := 0
  dmrStereo := 1
  dmrMono := 0
  useCosineFilter := 0
  ssize := 36
  msize := 15
  analogOnly := 0
  monitorInputAudio := 0
  analogDemod := 0
  outputName := "DMR"
  airspy := Range.zero.airspy
  rtlsdrCenterFreq := 451000000
  airspyInput := false
  audioInRtl := true
  trunkEnable := false
  scannerMode := false
  trunkScanEnabled := false

/-- A range of two channels, searched with Auto. -/
def twoChannels : Range :=
  { Range.zero with
    startHz := 450000000
    endHz := 450012500
    stepNum := 12500
    stepDen := 1
    bandwidthHz := 16000
    enabled := true
    digital := 1
    sensitivityDb := 15
    minimumDbfs := -60
    squelchMode := 2
    squelchMarginDb := 10
    squelchDbfs := -60
    probeMs := 2000
    maxVisitMs := 30000 }

/-- A search of that range. -/
def twoChannelConfig : Config := ⟨1, [twoChannels], []⟩

/-- A radio that delivers samples, and answers every tune alike. -/
def radioAnswer (tuneAsync : ℤ) : Answer where
  nowMs := 0
  decodeMs := 0
  realtimeMs := 0
  settings := ⟨0, 0, 0, 0, []⟩
  streamActive := true
  liveReceiver := true
  alloc := true
  airspyControls := 0
  ensureAudio := 0
  prepareFamily := 0
  outputGeneration := 1
  tuneAsync := tuneAsync
  ticket := 1
  tunePoll := (1, 0)
  captureGet := some ⟨2400000, 451000000, 1, 0⟩
  captureLastMs := 0
  measureRequest := 0
  measureGet := 0
  reportSession := 0
  reportRequest := 0
  reportGeneration := 0
  verdict _ := ⟨0, 0, false, true⟩
  carrierOpen := false
  carrierObserved := false
  controlsPending := false
  inputInterrupted := false
  allowed := false
  nxdn48 := false
  preset _ saved := saved
  power _ := 1

/-- A decoder with no search on such a radio. -/
def idleDecoder (tuneAsync : ℤ) : State where
  opts := sessionStart
  state := ⟨0, 0, 10, 4, 0, 0⟩
  scope := none
  c := { Coord.fresh twoChannelConfig
    (capture sessionStart ⟨0, 0, 10, 4, 0, 0⟩) 0 Range.zero.airspy 0 with
    phase := .stopped }
  requested := []
  answers _ := radioAnswer tuneAsync
  log := []

/-- A control action without a frequency. -/
def controlOf (action : Action) : Op := .control ⟨1, 0, action, 0⟩

/-- A stop whose restore tune is refused, then a resume, and the end of the session. -/
def resumedStop : List Op :=
  [.start twoChannelConfig, controlOf .stop, .tick, controlOf .pause, controlOf .resume, .tick,
    .shutdown]

set_option maxRecDepth 20000 in
/-- A search resumed after its stop failed ends with a row installed. -/
theorem resumed_stop_keeps_row :
    ¬ ∀ (s₀ : State) (ops : List Op), s₀.c.phase = .stopped → s₀.scope = none →
      (run s₀ ops).c.phase = .stopped → GivenBack s₀.desk (run s₀ ops) := by
  intro h
  have hend : (run (idleDecoder (-1)) resumedStop).c.phase = .stopped := by decide
  have hrow : (run (idleDecoder (-1)) resumedStop).scope.isSome = true := by decide
  have hback := h (idleDecoder (-1)) resumedStop rfl rfl hend
  rw [hback.scope] at hrow
  exact nomatch hrow

set_option maxRecDepth 20000 in
/-- A session stopped on its first tune is given back. -/
theorem search_gives_session_back_stopped :
    GivenBack (idleDecoder 0).desk
      (run (idleDecoder 0) [.start twoChannelConfig, .tick, controlOf .stop, .tick, .tick]) :=
  (search_gives_session_back (idleDecoder 0) rfl rfl
    [.start twoChannelConfig, .tick, controlOf .stop, .tick, .tick]
    ⟨fun h => h.1 rfl, trivial, fun h => h.elim nofun nofun, trivial, trivial, trivial⟩).1
      (by decide)

end DsdNeo.SignalSearch
