import DsdNeo.Models.DmrTrunk.Kept

/-!
# Where control channels come from

The shared alias and the machine's control channel are what they were at the start, a
frequency the receiver was on when control or an XPT site was noted, or where a return was
accepted to. A probe or a settle tune stages the alias and puts it back.
-/

namespace DsdNeo.DmrTrunk

open Program Tuning Ctx State

variable {s : State} {n : ℕ} {known : Set ℤ}

/-- A frequency known at the start, or from a source written down since. -/
def Known (known : Set ℤ) (log : List Source) (freq : ℤ) : Prop :=
  freq ∈ known ∨ ∃ source ∈ log, source.frequency = freq

/-- Both control channels are known, and every note was of where the receiver was. -/
structure State.Named (known : Set ℤ) (s : State) : Prop where
  trunkCc : Known known s.log s.trunkCcFreq
  cc : Known known s.log s.ctx.ccFreqHz
  noted : ∀ freq receiver, Source.noted freq receiver ∈ s.log → freq = receiver

/-- A property that a program does not lose. -/
def Stays (p : State → Prop) (s s' : State) : Prop := p s → p s'

instance (p : State → Prop) : IsPreorder State (Stays p) where
  refl _ := id
  trans _ _ _ h h' := h' ∘ h

/-- What is known stays known. -/
theorem Known.cons {log : List Source} {freq : ℤ} (h : Known known log freq) (source : Source) :
    Known known (source :: log) freq :=
  h.imp_right fun ⟨one, hone, hf⟩ => ⟨one, List.mem_cons_of_mem _ hone, hf⟩

/-- A source just noted is known. -/
theorem Known.head (known : Set ℤ) (log : List Source) (source : Source) :
    Known known (source :: log) source.frequency := .inr ⟨source, List.mem_cons_self, rfl⟩

/-- A note names its receiver. -/
theorem State.Named.note (h : s.Named known) {freq : ℤ} (hfreq : s.receiver = freq) :
    ∀ f r, Source.noted f r ∈ Source.noted freq s.receiver :: s.log → f = r := by
  intro f r hmem
  rcases List.mem_cons.mp hmem with heq | hmem
  · cases heq
    exact hfreq.symm
  · exact h.noted f r hmem

/-- What a context remembers: its control channel, and the codes of voice channels. -/
def Ctx.kept (c : Ctx) : ℤ × Receive.Carriers := (c.ccFreqHz, c.receiveCarriers)

theorem Ctx.kept_setState (c : Ctx) (state : SmState) : (c.setState state).kept = c.kept := by
  unfold setState
  split
  · rfl
  · rfl

/-- What a voice channel is judged by, and the codes noted so far. -/
def State.judged (s : State) : Receive.Policy × List Verified := (s.rest.receive, s.verified)

/-- The control channels and their sources, and what is remembered of voice channels. -/
def State.names (s : State) :
    ℤ × List Source × (ℤ × Receive.Carriers) × Receive.Policy × List Verified :=
  (s.trunkCcFreq, s.log, s.ctx.kept, s.judged)

/-- None of them changes. -/
abbrev Unnamed : State → State → Prop := Same names

/-- A step that names nothing keeps the names. -/
theorem State.Named.of_unnamed {s' : State} (hn : s.Named known) (h : Unnamed s s') :
    s'.Named known := by
  have halias : s'.trunkCcFreq = s.trunkCcFreq := congrArg (·.1) h
  have hlog : s'.log = s.log := congrArg (·.2.1) h
  have hcc : s'.ctx.ccFreqHz = s.ctx.ccFreqHz := congrArg (·.2.2.1.1) h
  refine ⟨?_, ?_, ?_⟩
  · rw [halias, hlog]
    exact hn.trunkCc
  · rw [hcc, hlog]
    exact hn.cc
  · rw [hlog]
    exact hn.noted

theorem stays_of_unnamed {α : Type} {m : Prog α} (h : Keeps Unnamed m) :
    Keeps (Stays (State.Named known)) m := fun s hn => hn.of_unnamed (h s)

section Unnamed

theorem unnamed_ask : Keeps Unnamed ask := fun _ => rfl

theorem unnamed_modifyRest {f : Rest → Rest} (h : ∀ r, (f r).receive = r.receive) :
    Keeps Unnamed (modifyRest f) := fun s =>
  congrArg (fun receive => (s.trunkCcFreq, s.log, s.ctx.kept, receive, s.verified)) (h s.rest)

theorem unnamed_modifyCtx {f : Ctx → Ctx} (h : ∀ c, (f c).kept = c.kept) :
    Keeps Unnamed (modifyCtx f) := fun s =>
  congrArg (fun kept => (s.trunkCcFreq, s.log, kept, s.judged)) (h s.ctx)

theorem unnamed_setState {f : Ctx → Ctx} (state : SmState) (h : ∀ c, (f c).kept = c.kept) :
    Keeps Unnamed (modifyCtx fun c => (f c).setState state) :=
  unnamed_modifyCtx fun c => (kept_setState _ _).trans (h c)

/-- Settling names nothing. -/
theorem settle_names (s : State) (m : Machine) : (s.settle m).names = s.names := by
  unfold settle
  split
  · rfl
  · rfl

theorem unnamed_layer (call : Call) : Keeps Unnamed (layer call) := fun _ => settle_names _ _

theorem unnamed_requestBegin (freq : ℤ) : Keeps Unnamed (requestBegin freq) := fun _ => rfl

/-- A tune keeps what its parts keep. -/
theorem keeps_hookTune {R : State → State → Prop} [IsPreorder State R]
    (hR : ∀ s s', Unnamed s s' → R s s') (freq : ℤ) {accepted : Prog Unit} (h : Keeps R accepted) :
    Keeps R (hookTune freq accepted) := by
  have hlayer : ∀ call, Keeps R (layer call) := fun call => (unnamed_layer call).mono hR
  refine keeps_bind ((unnamed_requestBegin freq).mono hR) fun id => keeps_ite (keeps_pure _) ?_
  refine keeps_bind (unnamed_ask.mono hR) fun a => keeps_bind ?_ fun _ =>
    keeps_bind (keeps_onlyIf h) fun _ => keeps_bind ?_ fun _ => keeps_pure _
  · cases a.published with
    | none => exact keeps_pure _
    | some result => exact hlayer _
  · refine keeps_ite ?_ ?_
    · exact keeps_bind (hlayer _) fun _ => keeps_bind keeps_get fun _ => keeps_pure _
    · exact keeps_bind (hlayer _) fun _ => keeps_bind keeps_get fun _ => keeps_pure _

theorem unnamed_tuneToFreq (freq : ℤ) : Keeps Unnamed (tuneToFreq freq) :=
  keeps_hookTune (fun _ _ => id) freq (unnamed_modifyRest fun _ => rfl)

/-- The sources, the machine's own control channel and what is remembered of voice channels. -/
def State.own (s : State) : List Source × (ℤ × Receive.Carriers) × Receive.Policy × List Verified :=
  (s.log, s.ctx.kept, s.judged)

/-- A tune to a control channel moves no source. -/
theorem own_tuneToCc (freq : ℤ) : Keeps (Same own) (tuneToCc freq) := by
  apply keeps_hookTune
  · exact fun _ _ hn => congrArg Prod.snd (show names _ = names _ from hn)
  · exact fun _ => rfl

/-- The alias restored after a tune of the shared helper. -/
theorem unnamed_restored {s' : State} (h : Same own s s') :
    Unnamed s { s' with trunkCcFreq := s.trunkCcFreq } := Prod.ext rfl h

theorem unnamed_ccResolved (nowM : ℤ) : Keeps Unnamed (ccResolved nowM) :=
  keeps_bind keeps_get fun _ => keeps_ite
    (keeps_bind (unnamed_modifyCtx fun _ => rfl) fun _ => keeps_pure _)
    (keeps_bind (unnamed_setState (f := fun c => { c with
      ccTuneRequestId := 0, ccAcquiring := false, ccRetryAfterM := nowM + ccRetry }) _ fun _ => rfl)
      fun _ => keeps_pure _)

/-- Resolving what is pending names nothing. -/
theorem unnamed_ccResolvePending (nowM : ℤ) : Keeps Unnamed (ccResolvePending nowM) :=
  keeps_bind keeps_get fun _ => keeps_ite (keeps_pure _) (keeps_ite
    (keeps_ite (keeps_pure _) (keeps_bind unnamed_ask fun _ => keeps_bind (unnamed_layer _)
      fun _ => unnamed_ccResolved nowM))
    (unnamed_ccResolved nowM))

theorem unnamed_ccRigctlQuery (generation : ℕ) : Keeps Unnamed (ccRigctlQuery generation) :=
  keeps_bind keeps_get fun _ => keeps_bind unnamed_ask fun _ => keeps_ite
    (keeps_bind (unnamed_modifyCtx fun _ => rfl) fun _ => keeps_pure _)
    (keeps_bind (unnamed_modifyCtx fun _ => rfl) fun _ => keeps_pure _)

theorem unnamed_ccRigctlFrequency (generation : ℕ) (useCache : Bool) :
    Keeps Unnamed (ccRigctlFrequency generation useCache) :=
  keeps_bind keeps_get fun _ => keeps_bind unnamed_ask fun _ => keeps_ite (keeps_pure _)
    (keeps_ite (keeps_pure _) (unnamed_ccRigctlQuery generation))

theorem unnamed_ccCurrentFrequency : Keeps Unnamed ccCurrentFrequency :=
  keeps_bind keeps_get fun _ => keeps_bind unnamed_ask fun _ => keeps_ite (keeps_pure _)
    (keeps_ite (unnamed_ccRigctlFrequency _ true) (keeps_ite (keeps_pure _) (keeps_pure _)))

theorem unnamed_ccTunerFrequency : Keeps Unnamed ccTunerFrequency :=
  keeps_bind keeps_get fun _ => keeps_bind unnamed_ask fun _ =>
    keeps_ite (unnamed_ccRigctlFrequency _ false) (keeps_pure _)

theorem unnamed_settleTune (nowM : ℤ) : Keeps Unnamed (settleTune nowM) := by
  refine keeps_bind unnamed_ccTunerFrequency fun freq s => ?_
  change Wp _ s fun _ s' => Unnamed s s'
  refine wp_bind (wp_get
    (wp_ite (fun _ => wp_bind (((own_tuneToCc freq).wp s).mono ?_)) fun _ => rfl))
  rintro ⟨result, requestId⟩ s₁ h₁
  have h₂ := unnamed_restored h₁
  refine wp_bind (wp_modify (wp_onlyIf (fun _ => wp_modifyCtx ?_) fun _ => h₂))
  exact h₂

theorem unnamed_settleFailure (nowM : ℤ) : Keeps Unnamed (settleFailure nowM) :=
  keeps_bind keeps_get fun _ => keeps_ite (keeps_pure _) (keeps_ite (keeps_pure _)
    (keeps_bind (unnamed_settleTune nowM) fun _ => keeps_pure _))

theorem unnamed_settleStep (nowM : ℤ) : Keeps Unnamed (settleStep nowM) :=
  keeps_bind keeps_get fun _ => keeps_ite
    (keeps_bind (unnamed_ccResolvePending nowM) fun _ => keeps_bind keeps_get fun _ =>
      keeps_ite (keeps_pure _) (unnamed_settleFailure nowM))
    (unnamed_settleFailure nowM)

theorem unnamed_coldStartParkNow (keepWindow : Bool) :
    Keeps Unnamed (coldStartParkNow keepWindow) :=
  unnamed_modifyCtx fun _ => kept_setState _ _

theorem unnamed_coldStartSettle (nowM : ℤ) (keepWindow : Bool) :
    Keeps Unnamed (coldStartSettle nowM keepWindow) :=
  keeps_bind (unnamed_modifyCtx fun _ => rfl) fun _ => keeps_bind (unnamed_settleStep nowM) fun _ =>
    keeps_ite (keeps_pure _) (unnamed_coldStartParkNow keepWindow)

theorem unnamed_settleAfterMove (nowM : ℤ) : Keeps Unnamed (settleAfterMove nowM) := by
  refine keeps_bind keeps_get fun _ => keeps_ite (keeps_pure _)
    (keeps_bind (unnamed_settleStep nowM) fun _ => keeps_ite ?_ ?_)
  · exact keeps_bind (unnamed_modifyCtx fun _ => rfl) fun _ => keeps_pure _
  · exact keeps_bind (unnamed_modifyCtx fun _ => kept_setState _ _) fun _ => keeps_pure _

theorem unnamed_coldStartGateOn (nowM : ℤ) (decision : Bool) :
    Keeps Unnamed (coldStartGateOn nowM decision) := by
  refine keeps_bind keeps_get fun s => ?_
  cases s.ctx.coldStartParkPending with
  | some park => exact keeps_bind (unnamed_coldStartSettle nowM _) fun _ => keeps_pure _
  | none =>
    exact keeps_ite (keeps_bind (unnamed_coldStartSettle nowM _) fun _ => keeps_pure _)
      (keeps_pure _)

theorem unnamed_coldStartGate (nowM : ℤ) (decision : Bool) :
    Keeps Unnamed (coldStartGate nowM decision) := by
  have hclear : Keeps Unnamed (modifyCtx coldStartClear) := unnamed_modifyCtx fun _ => rfl
  refine keeps_bind keeps_get fun _ => keeps_bind unnamed_ask fun _ => keeps_ite ?_ (keeps_ite ?_
    (keeps_ite ?_ (keeps_ite ?_ (unnamed_coldStartGateOn nowM decision))))
  · refine keeps_ite ?_ ?_
    · exact keeps_bind hclear fun _ => keeps_pure _
    · exact keeps_bind (unnamed_coldStartParkNow false) fun _ => keeps_pure _
  · exact keeps_bind (unnamed_coldStartParkNow false) fun _ => keeps_pure _
  · exact keeps_bind hclear fun _ => keeps_pure _
  · exact keeps_bind (unnamed_coldStartSettle nowM false) fun _ => keeps_pure _

theorem unnamed_ccActivityContext : Keeps Unnamed ccActivityContext :=
  keeps_bind keeps_get fun _ => keeps_bind unnamed_ask fun _ => keeps_ite (keeps_pure _)
    (keeps_ite (keeps_pure _) (unnamed_ccResolvePending _))

theorem unnamed_ccNoteHeartbeatCtx : Keeps Unnamed ccNoteHeartbeatCtx :=
  keeps_bind keeps_get fun _ => keeps_bind unnamed_ask fun _ => keeps_ite (keeps_pure _)
    (keeps_bind (unnamed_ccResolvePending _) fun _ => keeps_bind keeps_get fun _ =>
      keeps_onlyIf (unnamed_modifyCtx fun _ => kept_setState _ _))

theorem unnamed_noteCcHeartbeat : Keeps Unnamed noteCcHeartbeat :=
  keeps_bind unnamed_ccActivityContext fun _ =>
    keeps_ite unnamed_ccNoteHeartbeatCtx (keeps_pure _)

theorem unnamed_ccNextMappedCandidate : Keeps Unnamed ccNextMappedCandidate := by
  refine keeps_bind keeps_get fun s => keeps_bind (unnamed_modifyCtx fun _ => rfl) fun _ => ?_
  split
  · exact keeps_pure _
  · exact keeps_pure _

theorem unnamed_ccNextCandidate : Keeps Unnamed ccNextCandidate :=
  keeps_bind keeps_get fun _ => keeps_bind unnamed_ask fun _ => keeps_ite (keeps_pure _)
    (keeps_ite (keeps_ite (keeps_pure _) unnamed_ccNextMappedCandidate)
      (keeps_ite (keeps_pure _) (keeps_pure _)))

theorem unnamed_ccProbe (freq : ℤ) : Keeps Unnamed (ccProbe freq) := by
  intro s
  change Wp _ s fun _ s' => Unnamed s s'
  refine wp_bind (wp_get (wp_bind (((own_tuneToCc freq).wp s).mono ?_)))
  rintro ⟨result, requestId⟩ s₁ h₁
  refine wp_bind (wp_modify ?_)
  have h₂ := unnamed_restored h₁
  have hrest : Keeps Unnamed (do
      let a ← ask
      modifyCtx fun c =>
        { c with
          ccProbeFreqHz := freq
          ccAcquiring := true
          ccAcquireStartM := a.nowM
          ccTuneRequestId := requestId
          ccTuneDeadlineM := a.nowM + ccTuneTimeout }.setState .onCc
      let _ ← ccResolvePending a.nowM
      pure () : Prog Unit) :=
    keeps_bind unnamed_ask fun _ => keeps_bind (unnamed_modifyCtx fun _ =>
      kept_setState _ _) fun _ => keeps_bind (unnamed_ccResolvePending _) fun _ =>
        keeps_pure _
  refine wp_ite (fun _ => h₂) fun _ => ?_
  exact (hrest.wp _).mono fun _ _ h₃ => trans_of Unnamed h₂ h₃

theorem unnamed_ccHuntTo (nowM : ℤ) (freq : ℤ) : Keeps Unnamed (ccHuntTo nowM freq) :=
  keeps_bind keeps_get fun _ => keeps_ite
    (unnamed_modifyCtx fun _ => kept_setState _ _) (unnamed_ccProbe freq)

theorem unnamed_ccHuntOn (nowM : ℤ) : Keeps Unnamed (ccHuntOn nowM) :=
  keeps_bind keeps_get fun _ => keeps_ite
    (unnamed_modifyCtx fun _ => kept_setState _ _)
    (keeps_bind (unnamed_modifyCtx fun _ => rfl) fun _ => keeps_bind unnamed_ccNextCandidate
      fun freq => keeps_ite (keeps_pure _) (unnamed_ccHuntTo nowM freq))

theorem unnamed_ccHunt (nowM : ℤ) : Keeps Unnamed (ccHunt nowM) :=
  keeps_bind keeps_get fun _ => keeps_bind unnamed_ask fun _ => keeps_ite (keeps_pure _)
    (keeps_ite (keeps_bind (unnamed_coldStartGate nowM true) fun _ =>
      keeps_ite (unnamed_ccHuntOn nowM) (keeps_pure _)) (unnamed_ccHuntOn nowM))

theorem unnamed_tickIdleColdStart (nowM : ℤ) : Keeps Unnamed (tickIdleColdStart nowM) := by
  refine keeps_bind keeps_get fun _ => keeps_bind unnamed_ask fun _ => keeps_ite ?_ (keeps_ite ?_
    (keeps_ite (keeps_pure _) ?_))
  · exact unnamed_modifyCtx fun _ => rfl
  · exact unnamed_modifyCtx fun _ => rfl
  · exact keeps_bind (unnamed_modifyCtx fun _ => kept_setState _ _) fun _ =>
      unnamed_ccHunt nowM

theorem unnamed_clearReleasedCarrier (ccReturned : Bool) (next : SmState) :
    Keeps Unnamed (clearReleasedCarrier ccReturned next) :=
  keeps_bind (unnamed_modifyCtx fun _ => rfl) fun _ =>
    keeps_bind (unnamed_modifyRest fun _ => rfl) fun _ =>
    keeps_bind (keeps_onlyIf (unnamed_modifyCtx fun _ => rfl)) fun _ =>
      unnamed_modifyCtx fun _ => kept_setState _ _

theorem unnamed_abandonCarrier : Keeps Unnamed abandonCarrier :=
  keeps_bind (unnamed_modifyRest fun _ => rfl) fun _ => unnamed_clearReleasedCarrier false .onCc

theorem unnamed_grantTune (freq : ℤ) : Keeps Unnamed (grantTune freq) :=
  keeps_bind unnamed_ask fun _ => keeps_bind (unnamed_tuneToFreq freq) fun _ =>
    keeps_ite (keeps_pure _) (unnamed_modifyCtx fun _ => kept_setState _ _)

theorem unnamed_handleVoiceSync (slot : Bool) : Keeps Unnamed (handleVoiceSync slot) :=
  keeps_bind keeps_get fun _ => keeps_bind unnamed_ask fun _ => keeps_onlyIf
    (keeps_bind keeps_get fun _ => keeps_onlyIf (unnamed_modifyCtx fun _ => rfl))

theorem unnamed_handleDataSync (slot : Bool) : Keeps Unnamed (handleDataSync slot) :=
  keeps_bind keeps_get fun _ => keeps_bind unnamed_ask fun _ =>
    keeps_onlyIf (unnamed_modifyCtx fun _ => rfl)

theorem unnamed_noteStatusFollow (freq : ℤ) : Keeps Unnamed (noteStatusFollow freq) :=
  keeps_bind unnamed_ask fun _ =>
    keeps_onlyIf (unnamed_modifyCtx fun _ => kept_setState _ _)

theorem unnamed_coldStartNoteRetune : Keeps Unnamed coldStartNoteRetune := by
  refine keeps_bind unnamed_ask fun _ => keeps_bind (unnamed_modifyCtx fun _ => rfl) fun _ =>
    keeps_bind keeps_get fun _ => keeps_ite ?_ (keeps_ite ?_ (keeps_ite (keeps_pure _) ?_))
  · exact unnamed_modifyCtx fun _ => rfl
  · exact unnamed_modifyCtx fun _ => rfl
  · exact keeps_bind (keeps_onlyIf unnamed_abandonCarrier) fun _ =>
      unnamed_modifyCtx fun _ => kept_setState _ _

end Unnamed

theorem own_hookReturnToCc : Keeps (Same own) hookReturnToCc := by
  refine keeps_bind keeps_get fun _ => keeps_hookTune ?_ _ ?_
  · exact fun _ _ hn => congrArg Prod.snd (show names _ = names _ from hn)
  · exact keeps_bind (fun _ => rfl) fun _ _ => rfl

theorem trunkCcFreq_hookReturnToCc (hp25 : s.rest.p25CcFreq = 0) :
    Wp hookReturnToCc s fun _ s' => s'.trunkCcFreq = s.trunkCcFreq := by
  refine wp_bind (wp_get ?_)
  rw [if_neg (not_not.mpr hp25)]
  refine keeps_hookTune (R := Stays fun s' => s'.trunkCcFreq = s.trunkCcFreq) ?_ _ ?_ s rfl
  · exact fun _ _ hn h => (congrArg (·.1) hn).trans h
  · exact keeps_bind (fun _ _ => rfl) fun _ _ => id

theorem State.Named.beginCcAcquisition (hn : s.Named known) {freq : ℤ}
    (hfreq : Known known s.log freq) (requestId : ℕ) :
    Wp (beginCcAcquisition freq requestId) s fun _ s' => s'.Named known := by
  refine wp_bind (wp_get (wp_ite (fun _ => hn) fun _ =>
    wp_bind (wp_ask (wp_bind (wp_modifyCtx ?_)))))
  refine wp_bind (((unnamed_ccResolvePending _).wp _).mono fun _ s₁ h₁ => wp_pure ?_)
  have hn₁ : ({ s with ctx := s.ctx.acquiring s (s.answers 0) freq requestId } : State).Named
    known :=
    ⟨hn.trunkCc, hfreq, hn.noted⟩
  exact hn₁.of_unnamed h₁

theorem stays_returnToCc (freq : ℤ) : Keeps (Stays (State.Named known)) (returnToCc freq) := by
  intro s hn
  change Wp _ s fun _ s' => s'.Named known
  refine wp_bind (wp_get (wp_ite (fun _ => hn) fun _ =>
    wp_bind (wp_modify (wp_bind (wp_modify ?_)))))
  generalize hs₁ : ({ s with rest := { s.rest with p25CcFreq := 0 }, trunkCcFreq := freq } :
    State) = s₁
  have hown₁ : Same own s s₁ := hs₁ ▸ rfl
  have hp25₁ : s₁.rest.p25CcFreq = 0 := hs₁ ▸ rfl
  have hcc₁ : s₁.trunkCcFreq = freq := hs₁ ▸ rfl
  change Wp _ s₁ _
  refine wp_bind (((own_hookReturnToCc.wp s₁).and (trunkCcFreq_hookReturnToCc hp25₁)).mono ?_)
  rintro ⟨result, requestId⟩ s₂ ⟨hown₂, hcc₂⟩
  have hown : Same own s s₂ := trans_of (Same own) hown₁ hown₂
  have hlog : s₂.log = s.log := congrArg (·.1) hown
  have hcc : s₂.ctx.ccFreqHz = s.ctx.ccFreqHz := congrArg (·.2.1.1) hown
  refine wp_ite (fun _ => wp_bind (wp_modify (wp_bind (wp_modify (wp_pure ?_))))) fun _ => ?_
  · exact hn.of_unnamed (Prod.ext rfl hown)
  · refine wp_bind (wp_modify (wp_bind (wp_modifyCtx (wp_bind ?_))))
    have hknown : Known known (.returned freq :: s₂.log) freq := .head known s₂.log (.returned freq)
    have hn₃ : ({ s₂ with ctx := s₂.ctx.setState .onCc, log := .returned freq :: s₂.log } :
        State).Named known := by
      refine ⟨by rw [show s₂.trunkCcFreq = freq from hcc₂.trans hcc₁]; exact hknown, ?_, ?_⟩
      · change Known known (.returned freq :: s₂.log) (s₂.ctx.setState .onCc).ccFreqHz
        rw [(setState_rest _ _).2.2.2.2, hcc, hlog]
        exact hn.cc.cons _
      · intro f r hmem
        rcases List.mem_cons.mp hmem with heq | hmem
        · cases heq
        · exact hn.noted f r (hlog ▸ hmem)
    exact (hn₃.beginCcAcquisition hknown requestId).mono fun _ s₄ h₄ => wp_pure h₄

theorem Ctx.kept_checking (c : Ctx) (rest : Rest) (freq : ℤ) :
    (c.checking rest freq).kept = c.kept := by
  unfold checking
  split
  · rfl
  · rfl

theorem unnamed_tickSettled (nowM : ℤ) : Keeps Unnamed (tickSettled nowM) :=
  keeps_bind (unnamed_settleAfterMove nowM) fun _ =>
    keeps_ite (keeps_pure _) (unnamed_ccResolvePending nowM)

theorem unnamed_tickReady (nowM : ℤ) : Keeps Unnamed (tickReady nowM) :=
  keeps_bind keeps_get fun _ => keeps_ite
    (keeps_bind (unnamed_coldStartGate nowM false) fun _ =>
      keeps_ite (unnamed_tickSettled nowM) (keeps_pure _))
    (unnamed_tickSettled nowM)

theorem unnamed_tickNotAdmitted : Keeps Unnamed tickNotAdmitted :=
  keeps_bind keeps_get fun _ => keeps_bind unnamed_ask fun _ => keeps_ite
    (keeps_bind (unnamed_coldStartGate _ false) fun _ => keeps_pure _)
    (unnamed_modifyCtx fun _ => rfl)

section Parts

/-! What returns and notes of voice channels keep besides the rest, releases and ticks keep. -/

variable {R : State → State → Prop} [IsPreorder State R] (hR : ∀ s s', Unnamed s s' → R s s')

include hR

omit [IsPreorder State R] in
theorem keeps_edit {f : Ctx → Ctx} (h : ∀ c, (f c).kept = c.kept) : Keeps R (modifyCtx f) :=
  (unnamed_modifyCtx h).mono hR

omit [IsPreorder State R] in
theorem keeps_editRest {f : Rest → Rest} (h : ∀ r, (f r).receive = r.receive) :
    Keeps R (modifyRest f) := (unnamed_modifyRest h).mono hR

theorem keeps_tickOnCc (nowM : ℤ) : Keeps R (tickOnCc nowM) :=
  keeps_bind keeps_get fun _ => keeps_ite (keeps_edit hR fun _ => rfl) (keeps_ite (keeps_pure _)
    (keeps_ite (keeps_edit hR fun _ => rfl) (keeps_edit hR fun _ => kept_setState _ _)))

variable (hreturn : ∀ freq, Keeps R (returnToCc freq))

include hreturn

theorem keeps_doRelease : Keeps R doRelease :=
  keeps_bind keeps_get fun _ => keeps_bind (keeps_editRest hR fun _ => rfl) fun _ =>
    keeps_ite
      (keeps_bind (hreturn _) fun _ => keeps_ite
        (keeps_onlyIf (keeps_editRest hR fun _ => rfl))
        ((unnamed_clearReleasedCarrier true .onCc).mono hR))
      ((unnamed_clearReleasedCarrier false .hunting).mono hR)

theorem keeps_handleRelease (slot : Option Bool) : Keeps R (handleRelease slot) :=
  keeps_bind keeps_get fun _ => keeps_ite (keeps_pure _)
    (keeps_ite (keeps_doRelease hR hreturn) (keeps_edit hR fun _ => rfl))

theorem keeps_tickDeadlines (nowM hangtime grantTimeout : ℤ) :
    Keeps R (tickDeadlines nowM hangtime grantTimeout) := by
  have hrelease := keeps_doRelease hR hreturn
  exact keeps_bind (keeps_edit hR fun _ => rfl) fun _ => keeps_bind keeps_get fun _ =>
    keeps_ite (keeps_edit hR fun _ => rfl) (keeps_ite hrelease (keeps_onlyIf hrelease))

variable (hnote : ∀ freq, Keeps R (noteReceiveCarrier freq))

include hnote

theorem keeps_receiveCheck (freq : ℤ) (nowM grantTimeout : ℤ) :
    Keeps R (receiveCheck freq nowM grantTimeout) := by
  refine keeps_bind keeps_get fun s => keeps_bind
    (keeps_edit hR fun c => c.kept_checking s.rest freq) fun _ => keeps_bind keeps_get fun _ =>
      keeps_bind (keeps_onlyIf (hnote freq)) fun _ =>
        keeps_bind (keeps_edit hR fun _ => rfl) fun _ => keeps_ite ?_ ?_
  · exact keeps_bind (keeps_edit hR fun _ => rfl) fun _ => keeps_pure _
  · refine keeps_bind (keeps_edit hR fun _ => rfl) fun _ => keeps_bind keeps_get fun _ =>
      keeps_bind (keeps_onlyIf ?_) fun _ => keeps_pure _
    exact keeps_bind (keeps_edit hR fun _ => rfl) fun _ => keeps_doRelease hR hreturn

theorem keeps_tickTuned (nowM hangtime grantTimeout : ℤ) :
    Keeps R (tickTuned nowM hangtime grantTimeout) :=
  keeps_bind keeps_get fun _ => keeps_ite (keeps_doRelease hR hreturn)
    (keeps_bind (keeps_receiveCheck hR hreturn hnote _ _ _) fun _ =>
      keeps_ite (keeps_pure _) (keeps_tickDeadlines hR hreturn _ _ _))

theorem keeps_tickState (nowM hangtime grantTimeout : ℤ) :
    Keeps R (tickState nowM hangtime grantTimeout) := by
  refine keeps_bind keeps_get fun s => ?_
  cases s.ctx.state with
  | idle => exact (unnamed_tickIdleColdStart nowM).mono hR
  | onCc =>
    exact keeps_ite (keeps_tickOnCc hR nowM)
      (keeps_bind (keeps_receiveCheck hR hreturn hnote _ _ _) fun _ => keeps_pure _)
  | tuned => exact keeps_tickTuned hR hreturn hnote _ _ _
  | hunting => exact (unnamed_ccHunt nowM).mono hR

theorem keeps_tickCtx : Keeps R tickCtx :=
  keeps_bind keeps_get fun _ => keeps_bind (unnamed_ask.mono hR) fun _ => keeps_ite
    (unnamed_tickNotAdmitted.mono hR)
    (keeps_bind ((unnamed_tickReady _).mono hR) fun _ =>
      keeps_ite (keeps_tickState hR hreturn hnote _ _ _) (keeps_pure _))

end Parts

theorem stays_noteReceiveCarrier (freq : ℤ) :
    Keeps (Stays (State.Named known)) (noteReceiveCarrier freq) := by
  intro s hn
  simp only [noteReceiveCarrier, modify, modifyGet, MonadStateOf.modifyGet, StateT.modifyGet]
  cases s.rest.verifiedCode freq with
  | none => exact hn
  | some code => exact ⟨hn.trunkCc, hn.cc, hn.noted⟩

theorem stays_handleRelease (slot : Option Bool) :
    Keeps (Stays (State.Named known)) (handleRelease slot) :=
  keeps_handleRelease (fun _ _ h hn => hn.of_unnamed h) stays_returnToCc slot

theorem stays_tickCtx : Keeps (Stays (State.Named known)) tickCtx :=
  keeps_tickCtx (fun _ _ h hn => hn.of_unnamed h) stays_returnToCc stays_noteReceiveCarrier

theorem named_ccNoteActivityCtx (h : s.Ready n)
    (hz : s.tuning.now.unresolvedCount = 0) (hn : s.Named known) (freq : ℤ) :
    Wp (ccNoteActivityCtx freq) s fun _ s' => s'.Named known := by
  refine wp_bind ((h.ccCurrentFrequency.and (unnamed_ccCurrentFrequency.wp s)).mono ?_)
  rintro current s₁ ⟨h₁, hq₁⟩
  have hn₁ := hn.of_unnamed hq₁
  refine wp_bind (wp_get (wp_bind (wp_ask (wp_ite (fun _ => hn₁.of_unnamed rfl) fun hc => ?_))))
  refine wp_bind (wp_modify (wp_bind (wp_modifyCtx (wp_bind (wp_modify (wp_modify ?_))))))
  have hpos : 0 < current := not_le.mp fun hle => hc (.inl hle)
  have hknown : Known known (.noted current s₁.receiver :: s₁.log) current :=
    .head known s₁.log (.noted current s₁.receiver)
  refine ⟨hknown, ?_, hn₁.note (h₁.right hz hpos)⟩
  change Known known _ (s₁.ctx.decodedCc current s₁.generation _).ccFreqHz
  rw [show (s₁.ctx.decodedCc current s₁.generation (s₁.answers 0).nowM).ccFreqHz = current from
    (setState_rest _ _).2.2.2.2]
  exact hknown

theorem named_ccNoteMonitorFrequency (h : s.Ready n)
    (hz : s.tuning.now.unresolvedCount = 0) (hn : s.Named known) (freq : ℤ) :
    Wp (ccNoteMonitorFrequency freq) s fun _ s' => s'.Named known := by
  have hread : Wp ccMonitorFrequency s fun current s₁ =>
      Unnamed s s₁ ∧ (0 < current → s₁.receiver = current) := by
    refine wp_bind (wp_get (wp_bind (wp_ask (wp_ite (fun _ => wp_pure ⟨rfl, ?_⟩) fun hrig =>
      wp_ite (fun _ => wp_pure ⟨rfl, fun _ => (rtlCenter_of_closed hz _).symm⟩) fun hrtl => ?_))))
    · intro hpos
      unfold rigctlRead at hpos ⊢
      split_ifs at hpos ⊢
      · rfl
      · exact absurd hpos (lt_irrefl 0)
    · exact (h.queried.elim hrig hrtl).elim
  refine wp_bind (hread.mono ?_)
  rintro current s₁ ⟨hq₁, hright⟩
  have hn₁ := hn.of_unnamed hq₁
  refine wp_bind (wp_get (wp_onlyIf (fun hc => ?_) fun _ => hn₁))
  refine wp_bind (wp_modify (wp_modify ?_))
  exact ⟨.head known s₁.log (.noted current s₁.receiver), hn₁.cc.cons _, hn₁.note (hright hc.1)⟩

theorem named_noteCcActivity (h : s.Ready n) (hf : s.Fresh)
    (hz : s.tuning.now.unresolvedCount = 0) (hn : s.Named known) (freq : ℤ) :
    Wp (noteCcActivity freq) s fun _ s' => s'.Named known := by
  refine wp_bind (wp_get (wp_ite (fun _ => named_ccNoteMonitorFrequency h hz hn freq) fun _ => ?_))
  refine wp_bind (((h.ccActivityContext hf).and (unnamed_ccActivityContext.wp s)).mono ?_)
  rintro found s₁ ⟨⟨h₁, -, hclosed⟩, hq₁⟩
  have hn₁ := hn.of_unnamed hq₁
  refine wp_ite (fun _ => named_ccNoteActivityCtx h₁ ?_ hn₁ freq) fun _ => hn₁
  rw [hclosed hz]
  exact hz

theorem named_noteXptSite (h : s.Ready n) (hz : s.tuning.now.unresolvedCount = 0)
    (hn : s.Named known) : Wp noteXptSite s fun _ s' => s'.Named known := by
  refine wp_bind (wp_modifyCtx (wp_bind (wp_modify (wp_bind (wp_get ?_)))))
  have h₁ := (h.of_quiet (quiet_modifyCtx (f := fun c => { c with siteWithoutCc := true })
    (fun _ => rfl) s)).of_quiet (quiet_noteProtocol _)
  have hn₁ : ({ s with ctx := { s.ctx with siteWithoutCc := true }, rest := { s.rest with
      recoveryProtocol := .dmr } } : State).Named known := hn.of_unnamed rfl
  refine wp_ite (fun _ => ?_) fun _ => hn₁
  refine wp_bind ((h₁.ccCurrentFrequency.and (unnamed_ccCurrentFrequency.wp _)).mono ?_)
  rintro freq s₂ ⟨h₂, hq₂⟩
  have hn₂ := hn₁.of_unnamed hq₂
  refine wp_bind (wp_get (wp_onlyIf (fun hpos => ?_) fun _ => hn₂))
  refine wp_bind (wp_modify (wp_bind (wp_modifyCtx (wp_modify ?_))))
  have hknown : Known known (.noted freq s₂.receiver :: s₂.log) freq :=
    .head known s₂.log (.noted freq s₂.receiver)
  exact ⟨hknown, hknown, hn₂.note (h₂.right hz hpos)⟩

theorem named_handleGrant (h : s.Ready n) (hn : s.Named known) (ev : Grant) :
    Wp (handleGrant ev) s fun _ s' => s'.Named known := by
  refine wp_bind (wp_modify (wp_bind (wp_get ?_)))
  have h₁ := h.of_quiet (quiet_noteProtocol s)
  have hn₁ := hn.of_unnamed (unnamed_modifyRest
    (f := fun r => { r with recoveryProtocol := .dmr }) (fun _ => rfl) s)
  split
  · exact hn₁
  · next freq hgrant =>
    have htune : ∀ s₂ : State, s₂.Named known → Wp (grantTune freq) s₂ fun _ s' => s'.Named known :=
      fun s₂ hn₂ => hn₂.of_unnamed (unnamed_grantTune freq s₂)
    refine wp_bind (wp_onlyIf (fun hc => ?_) fun _ => htune _ hn₁)
    obtain ⟨hz, -⟩ := closed_of_frameIsCurrent hc.2.2
    exact (named_ccNoteActivityCtx h₁ hz hn₁ _).mono fun _ s₂ h₂ => htune s₂ h₂

theorem named_smEvent (h : s.Ready n) (hn : s.Named known) (ev : Event) :
    Wp (smEvent ev) s fun _ s' => s'.Named known := by
  cases ev with
  | grant ev => exact named_handleGrant h hn ev
  | voiceSync slot => exact hn.of_unnamed (unnamed_handleVoiceSync slot s)
  | dataSync slot => exact hn.of_unnamed (unnamed_handleDataSync slot s)
  | release slot => exact stays_handleRelease slot s hn
  | ccSync => exact hn.of_unnamed (unnamed_ccNoteHeartbeatCtx s)
  | syncLost => exact hn

end DsdNeo.DmrTrunk
