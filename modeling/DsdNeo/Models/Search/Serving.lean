import DsdNeo.Models.Search.Tick

/-!
# What a search keeps for its session

Most parts of the coordinator leave the decoder alone. The others tune and install
receive profiles, but touch neither the settings that were saved nor whether they have
been restored.
-/

namespace DsdNeo.SignalSearch

open Program Coord

variable {s : State}

/-- The settings, the Airspy controls and the frequency of a session. -/
structure Desk where
  settings : ScanSettings
  airspy : AirspyConfig
  frequency : BitVec 32

/-- What a state has of them. -/
def State.desk (s : State) : Desk :=
  ⟨capture s.opts s.state, s.opts.airspy, s.opts.rtlsdrCenterFreq⟩

/-- What a coordinator will restore, and whether it has. -/
def Coord.kept (c : Coord) : Desk × Bool :=
  (⟨c.saved, c.savedAirspy, c.savedFrequency⟩, c.restored)

/-- What a coordinator keeps, with its phase and a stop. -/
def Coord.still (c : Coord) : (Desk × Bool) × Phase × Bool := (c.kept, c.phase, c.stopping)

/-- The decoder, with what the coordinator keeps. -/
def State.quiet (s : State) : Opts × Decoder × Option ScanScope × (Desk × Bool) × Phase × Bool :=
  (s.opts, s.state, s.scope, s.c.still)

/-- The decoder stays, and so do what will be restored, the phase and a stop. -/
abbrev Quiet : State → State → Prop := Same State.quiet

/-- What a search has published, with the hit and the tuple it publishes next. -/
structure Issue where
  published : List Hit
  hit : Hit
  call : SearchCall
  nextHit : BitVec 64

/-- What a search publishes, with what tells whether its hit lasts. -/
structure Bill where
  issue : Issue
  visit : Bool
  needSpan : Bool
  stopping : Bool
  restoreQueued : Bool
  phase : Phase

/-- The bill of a coordinator. -/
def Coord.bill (c : Coord) : Bill :=
  ⟨⟨c.published, c.hit, c.call, c.nextHit⟩, c.visit, c.needSpan, c.stopping, c.restoreQueued,
    c.phase⟩

/-- So does what is published. -/
abbrev Still : State → State → Prop := Same fun s : State => (s.quiet, s.c.bill)

/-- The settings may change, but not what will be restored. -/
structure Serves (s s' : State) : Prop where
  kept : s'.c.kept = s.c.kept
  phase : s.c.phase ≠ .stopped → s'.c.phase ≠ .stopped
  airspyInput : s'.opts.airspyInput = s.opts.airspyInput
  airspy : s.opts.airspyInput = false → s'.opts.airspy = s.opts.airspy

instance : IsPreorder State Serves where
  refl _ := ⟨rfl, id, rfl, fun _ => rfl⟩
  trans _ _ _ h h' :=
    ⟨h'.kept.trans h.kept, fun hp => h'.phase (h.phase hp), h'.airspyInput.trans h.airspyInput,
      fun hi => (h'.airspy (h.airspyInput.trans hi)).trans (h.airspy hi)⟩

/-- A quiet step serves what was served. -/
theorem serves_of_quiet {s s' : State} (h : Quiet s s') : Serves s s' := by
  have hopts : s'.opts = s.opts := congrArg (·.1) h
  have hphase : s'.c.phase = s.c.phase := congrArg (·.2.2.2.2.1) h
  exact ⟨congrArg (·.2.2.2.1) h, fun hp => hphase ▸ hp, by rw [hopts], fun _ => by rw [hopts]⟩

section Quiet

theorem quiet_ask : Keeps Quiet ask := fun _ => rfl

theorem quiet_note (e : Event) : Keeps Quiet (note e) := fun _ => rfl

/-- An edit of the coordinator that leaves the session alone. -/
theorem quiet_modifyC {f : Coord → Coord} (h : ∀ c, (f c).still = c.still) :
    Keeps Quiet (modifyC f) :=
  fun s => congrArg (fun c => (s.opts, s.state, s.scope, c)) (h s.c)

theorem quiet_searchPublish {hitChanged : Bool} : Keeps Quiet (searchPublish hitChanged) :=
  keeps_bind quiet_ask fun _ => quiet_modifyC fun _ => rfl

theorem quiet_searchCancelMeasurements : Keeps Quiet searchCancelMeasurements :=
  quiet_modifyC fun _ => rfl

theorem quiet_searchEndHit : Keeps Quiet searchEndHit :=
  keeps_bind keeps_get fun _ =>
    keeps_onlyIf (keeps_bind (quiet_modifyC fun _ => rfl) fun _ => quiet_searchPublish)

theorem still_ask : Keeps Still ask := fun _ => rfl

theorem still_searchPublish : Keeps Still (searchPublish false) := fun _ => rfl

theorem still_modifyC {f : Coord → Coord}
    (h : ∀ c, ((f c).still, (f c).bill) = (c.still, c.bill)) : Keeps Still (modifyC f) := fun s =>
  congrArg (fun c : _ × Bill => ((s.opts, s.state, s.scope, c.1), c.2)) (h s.c)

/-- What leaves the coordinator still is quiet. -/
theorem Still.quiet {α : Type} {m : Prog α} (h : Keeps Still m) : Keeps Quiet m :=
  h.mono fun _ _ => congrArg Prod.fst

theorem still_searchSuppress (f : BitVec 32) : Keeps Still (searchSuppress f) :=
  still_modifyC fun c => by
    split
    · rfl
    · rfl

theorem still_searchWrap : Keeps Still searchWrap :=
  keeps_bind keeps_get fun _ =>
    keeps_onlyIf (keeps_bind (still_modifyC fun _ => rfl) fun _ _ => rfl)

theorem still_searchSelectLoop (tries : ℕ) : Keeps Still (searchSelectLoop tries) := by
  induction tries with
  | zero => exact keeps_pure _
  | succ tries ih =>
    refine keeps_bind still_searchWrap fun _ => keeps_bind keeps_get fun _ => keeps_ite ?_ ?_
    · exact keeps_bind (still_modifyC fun _ => rfl) fun _ => keeps_pure _
    · exact keeps_bind (still_modifyC fun _ => rfl) fun _ => ih

theorem still_searchSelectRange : Keeps Still searchSelectRange :=
  keeps_bind keeps_get fun _ => still_searchSelectLoop _

theorem still_searchNoteActivity (now : BitVec 64) : Keeps Still (searchNoteActivity now) :=
  keeps_bind still_ask fun _ => still_modifyC fun c => by
    split_ifs
    · rfl
    · rfl
    · rfl

theorem still_searchLiveReport (now : BitVec 64) : Keeps Still (searchLiveReport now) := by
  refine keeps_bind still_ask fun _ => keeps_ite (keeps_pure _) ?_
  refine keeps_bind (still_modifyC fun _ => by simp only [Coord.still, Coord.kept, Coord.bill])
    fun _ =>
    keeps_bind keeps_get fun _ => ?_
  refine keeps_ite (keeps_ite ?_ ?_) (keeps_pure _)
  · exact keeps_bind (still_modifyC fun _ => rfl) fun _ => still_searchPublish
  · exact still_modifyC fun _ => by simp only [Coord.still, Coord.kept, Coord.bill]

theorem still_searchLiveRequest (now : BitVec 64) : Keeps Still (searchLiveRequest now) := by
  refine keeps_bind keeps_get fun _ => keeps_bind still_ask fun _ => keeps_ite ?_ ?_
  · exact still_modifyC fun _ => rfl
  · refine keeps_bind (still_modifyC fun _ => by simp only [Coord.still, Coord.kept, Coord.bill])
      fun _ =>
      keeps_ite ?_ ?_
    · exact keeps_bind (fun _ => rfl) fun _ => still_modifyC fun _ => rfl
    · exact still_modifyC fun _ => by simp only [Coord.still, Coord.kept, Coord.bill]

theorem still_searchLiveStrength : Keeps Still searchLiveStrength := by
  refine keeps_bind keeps_get fun _ => keeps_bind still_ask fun _ => keeps_bind (keeps_onlyIf ?_)
    fun _ => keeps_ite (still_searchLiveReport _)
      (keeps_ite (keeps_pure _) (still_searchLiveRequest _))
  exact keeps_bind (still_modifyC fun _ => rfl) fun _ => still_searchPublish

end Quiet

section Serves

/-- A quiet program serves. -/
theorem Quiet.serves {α : Type} {m : Prog α} (h : Keeps Quiet m) : Keeps Serves m :=
  h.mono fun _ _ => serves_of_quiet

/-- So does a still one. -/
theorem Still.serves {α : Type} {m : Prog α} (h : Keeps Still m) : Keeps Serves m :=
  Quiet.serves (Still.quiet h)

theorem serves_ask : Keeps Serves ask := Quiet.serves quiet_ask

theorem serves_modifyC {f : Coord → Coord} (hkept : ∀ c, (f c).kept = c.kept)
    (hphase : ∀ c, c.phase ≠ .stopped → (f c).phase ≠ .stopped) : Keeps Serves (modifyC f) :=
  fun _ => ⟨hkept _, hphase _, rfl, fun _ => rfl⟩

theorem serves_searchError (message : String) : Keeps Serves (searchError message) := by
  refine keeps_bind (Quiet.serves quiet_searchEndHit) fun _ =>
    keeps_bind (Quiet.serves quiet_searchCancelMeasurements) fun _ => keeps_bind ?_ fun _ =>
      Quiet.serves quiet_searchPublish
  exact serves_modifyC (fun _ => rfl) fun _ _ => nofun

theorem serves_settingsRestore (saved : ScanSettings) : Keeps Serves (settingsRestore saved) :=
  fun _ => ⟨rfl, id, rfl, fun _ => rfl⟩

theorem serves_scanModeBegin : Keeps Serves scanModeBegin := by
  refine keeps_bind keeps_get fun s => keeps_bind serves_ask fun _ => ?_
  split
  · exact keeps_pure _
  · refine keeps_ite (keeps_bind ?_ fun _ => keeps_pure _) (keeps_pure _)
    exact fun _ => ⟨rfl, id, rfl, fun _ => rfl⟩

theorem serves_scanScopeApply (scope : ScanScope) : Keeps Serves (scanScopeApply scope) :=
  keeps_bind (serves_settingsRestore _) fun _ =>
    keeps_ite (keeps_pure _) (keeps_bind serves_ask fun _ => serves_settingsRestore _)

theorem serves_scanModeEnter (mode : ℤ) : Keeps Serves (scanModeEnter mode) := by
  refine keeps_ite (keeps_pure _) (keeps_bind serves_scanModeBegin fun _ => ?_)
  refine keeps_ite (keeps_pure _) (keeps_bind keeps_get fun s => ?_)
  split
  · exact keeps_pure _
  · refine keeps_bind (fun _ => ?_) fun _ => keeps_bind (serves_scanScopeApply _) fun _ =>
      keeps_pure _
    exact ⟨rfl, id, rfl, fun _ => rfl⟩

/-- A row of options leaves the radio alone. -/
theorem sameRadio_applyOptions (power : ℤ → ℚ) (values : RowOptions) (opts : Opts) :
    SameRadio opts (applyOptions power values opts) := by
  obtain ⟨squelch, tone, bandwidth⟩ := values
  unfold applyOptions
  refine ⟨?_, ?_, ?_⟩
  all_goals
    rcases squelch with _ | ⟨mode, margin, db⟩ <;> rcases tone with _ | ⟨filter, tones⟩ <;>
      rcases bandwidth with _ | ⟨am, hz⟩ <;> try cases am
    all_goals dsimp only
    all_goals try split_ifs
    all_goals rfl

theorem serves_scanModeOptions (values : RowOptions) : Keeps Serves (scanModeOptions values) := by
  refine keeps_bind keeps_get fun s => keeps_bind serves_ask fun a => ?_
  split
  · exact keeps_pure _
  · refine keeps_bind (fun _ => ⟨rfl, id, rfl, fun _ => rfl⟩) fun _ => keeps_ite (keeps_pure _) ?_
    refine keeps_bind (fun s => ?_) fun _ => keeps_pure _
    have hradio := sameRadio_applyOptions a.power values
    exact ⟨rfl, id, (hradio _).airspyInput, fun _ => (hradio _).airspy⟩

theorem serves_searchApplyAirspy : Keeps Serves searchApplyAirspy := by
  intro s
  change Serves s (@ite (Prog ℤ) (s.opts.airspyInput = true) _ _ _ _).2
  split_ifs with hinput hrefused
  · exact ⟨rfl, id, rfl, fun _ => rfl⟩
  · exact ⟨rfl, id, rfl, fun hno => absurd (hinput.symm.trans hno) nofun⟩
  · exact ⟨rfl, id, rfl, fun _ => rfl⟩

theorem serves_searchPrepareProfile (analog : Bool) :
    Keeps Serves (searchPrepareProfile analog) := by
  refine keeps_bind keeps_get fun _ => keeps_bind serves_searchApplyAirspy fun _ => ?_
  refine keeps_ite (keeps_pure _) (keeps_bind (serves_scanModeEnter _) fun _ => ?_)
  refine keeps_ite (keeps_pure _) (keeps_bind (serves_scanModeOptions _) fun _ => ?_)
  refine keeps_ite (keeps_pure _) (keeps_bind ?_ fun _ => ?_)
  · exact keeps_bind keeps_get fun _ => keeps_bind serves_ask fun _ => keeps_pure _
  · exact keeps_ite (keeps_pure _) (keeps_bind serves_ask fun _ => keeps_pure _)

theorem serves_searchQueueTune (target : BitVec 32) (visit analog : Bool) :
    Keeps Serves (searchQueueTune target visit analog) := by
  refine keeps_bind (Quiet.serves quiet_searchCancelMeasurements) fun _ =>
    keeps_bind serves_ask fun _ => keeps_bind ?_ fun _ =>
      keeps_bind (serves_searchPrepareProfile _) fun _ => keeps_ite (serves_searchError _) ?_
  · exact serves_modifyC (fun _ => rfl) fun _ h => h
  · refine keeps_bind serves_ask fun _ => keeps_bind ?_ fun _ => keeps_ite (serves_searchError _) ?_
    · exact serves_modifyC (fun _ => rfl) fun _ h => h
    · exact keeps_bind (serves_modifyC (fun _ => rfl) fun _ _ => nofun) fun _ =>
        Quiet.serves quiet_searchPublish

theorem serves_searchReturnToSpan : Keeps Serves searchReturnToSpan :=
  keeps_bind (Quiet.serves quiet_searchEndHit) fun _ =>
    keeps_bind (Quiet.serves (quiet_modifyC fun _ => rfl)) fun _ =>
      keeps_bind keeps_get fun _ => serves_searchQueueTune _ _ _

theorem serves_searchBeginMeasurement : Keeps Serves searchBeginMeasurement := by
  refine keeps_bind (Quiet.serves (quiet_modifyC fun _ => by simp only [Coord.still, Coord.kept]))
    fun _ => keeps_bind serves_ask fun _ => keeps_ite (serves_searchError _) ?_
  exact keeps_bind (fun _ => ⟨rfl, id, rfl, fun _ => rfl⟩) fun _ =>
    Quiet.serves (quiet_modifyC fun _ => rfl)

theorem serves_searchPreviousTuneReady : Keeps Serves searchPreviousTuneReady := by
  refine keeps_bind keeps_get fun _ => keeps_ite (keeps_pure _) ?_
  refine keeps_bind serves_ask fun _ => keeps_ite ?_ ?_
  · exact keeps_bind (keeps_onlyIf (serves_searchError _)) fun _ => keeps_pure _
  · exact keeps_bind (Quiet.serves (quiet_modifyC fun _ => rfl)) fun _ => keeps_pure _

theorem serves_searchCaptureReady : Keeps Serves searchCaptureReady := by
  refine keeps_bind keeps_get fun _ => keeps_bind serves_ask fun _ => ?_
  split
  · exact keeps_bind (keeps_onlyIf (serves_searchError _)) fun _ => keeps_pure _
  · refine keeps_ite (keeps_bind (serves_searchError _) fun _ => keeps_pure _) ?_
    exact keeps_bind (Quiet.serves (quiet_modifyC fun _ => rfl)) fun _ => keeps_pure _

theorem serves_searchNextSpan (k : Capture) : Keeps Serves (searchNextSpan k) := by
  refine keeps_bind (Still.serves still_searchSelectRange) fun _ => keeps_bind (keeps_onlyIf ?_)
    fun _ => keeps_bind (keeps_onlyIf (serves_searchError _)) fun _ => keeps_pure _
  refine keeps_bind keeps_get fun _ => keeps_bind (Quiet.serves (quiet_modifyC fun _ => rfl))
    fun _ => keeps_ite (serves_searchError _) ?_
  exact keeps_bind (Quiet.serves (quiet_note _)) fun _ =>
    keeps_bind (Quiet.serves (quiet_modifyC fun _ => rfl)) fun _ => serves_searchQueueTune _ _ _

/-- Reception is not a stopped search. -/
theorem receptionPhase_ne_stopped (c : Coord) : receptionPhase c ≠ .stopped := by
  unfold receptionPhase
  split_ifs <;> nofun

theorem serves_searchLand (now : BitVec 64) : Keeps Serves (searchLand now) := by
  refine keeps_bind (fun _ => ⟨rfl, id, rfl, fun _ => rfl⟩) fun _ => keeps_bind ?_ fun _ =>
    keeps_bind keeps_get fun _ => Quiet.serves quiet_searchPublish
  refine serves_modifyC (fun c => ?_) fun c _ => ?_
  · dsimp only
    split_ifs <;> rfl
  · by_cases hvisit : c.visit = true
    · rw [if_pos hvisit]
      exact receptionPhase_ne_stopped _
    · rw [if_neg hvisit]
      exact fun h : Phase.searching = .stopped => nomatch h

theorem serves_searchWaitTune (k : Capture) : Keeps Serves (searchWaitTune k) := by
  have hawait (now : BitVec 64) : Keeps Serves (searchAwait k now) := by
    refine keeps_bind keeps_get fun _ => keeps_bind serves_ask fun _ =>
      keeps_ite ?_ (keeps_ite ?_ ?_)
    · exact keeps_bind (serves_searchError _) fun _ => keeps_pure _
    · exact keeps_bind (keeps_onlyIf (serves_searchError _)) fun _ => keeps_pure _
    · exact keeps_bind (serves_searchLand _) fun _ => keeps_pure _
  refine keeps_bind keeps_get fun _ => keeps_bind serves_ask fun _ => keeps_ite ?_ (hawait _)
  refine keeps_bind (Quiet.serves (quiet_modifyC fun _ => rfl)) fun _ => keeps_ite ?_ (hawait _)
  exact keeps_bind (serves_searchError _) fun _ => keeps_pure _

theorem serves_searchVisitCandidate (found : Candidate) :
    Keeps Serves (searchVisitCandidate found) := by
  refine keeps_bind keeps_get fun _ =>
    keeps_bind (Quiet.serves (quiet_modifyC fun _ => ?_)) fun _ =>
    keeps_bind (Quiet.serves (quiet_note _)) fun _ =>
    keeps_bind (Still.serves (still_searchSuppress _)) fun _ =>
    keeps_bind (Quiet.serves quiet_searchPublish) fun _ =>
    keeps_bind (Quiet.serves (quiet_modifyC fun _ => rfl)) fun _ => serves_searchQueueTune _ _ _
  simp only [Coord.still, Coord.kept, detected]

theorem serves_searchTakeReport (report : List Candidate) :
    Keeps Serves (searchTakeReport report) := by
  refine keeps_bind (Quiet.serves (quiet_note _)) fun _ => keeps_bind keeps_get fun _ => ?_
  split
  · exact serves_searchError _
  · exact keeps_bind (Quiet.serves (quiet_note _)) fun _ =>
      keeps_bind (Quiet.serves (quiet_modifyC fun _ => rfl)) fun _ =>
        Quiet.serves quiet_searchPublish
  · exact serves_searchVisitCandidate _

theorem serves_searchMeasure (k : Capture) : Keeps Serves (searchMeasure k) := by
  refine keeps_bind keeps_get fun _ => keeps_bind serves_ask fun _ =>
    keeps_ite (serves_searchError _) (keeps_ite serves_searchBeginMeasurement
      (keeps_ite (Quiet.serves (quiet_modifyC fun _ => rfl)) (keeps_ite (keeps_pure _) ?_)))
  exact keeps_bind (Quiet.serves (quiet_modifyC fun _ => rfl)) fun _ =>
    keeps_ite (keeps_pure _) (serves_searchTakeReport _)

/-- A tick of a visit serves. -/
theorem serves_searchVisitTick : Keeps Serves searchVisitTick := by
  refine keeps_bind serves_ask fun _ => keeps_bind (Still.serves (still_searchNoteActivity _))
    fun _ => keeps_bind keeps_get fun _ => keeps_ite ?_ (keeps_ite ?_ (keeps_ite ?_ ?_))
  · exact keeps_bind serves_searchReturnToSpan fun _ => keeps_pure _
  · exact keeps_bind (serves_searchQueueTune _ _ _) fun _ => keeps_pure _
  · exact keeps_bind serves_searchReturnToSpan fun _ => keeps_pure _
  · refine keeps_bind (Quiet.serves ?_) fun _ => keeps_pure _
    exact keeps_bind (Still.quiet still_searchLiveStrength) fun _ => keeps_bind keeps_get fun _ =>
      keeps_bind quiet_ask fun _ => keeps_onlyIf quiet_searchPublish

/-- An advance of the search serves. -/
theorem serves_searchAdvance : Keeps Serves searchAdvance := by
  have honAir (k : Capture) : Keeps Serves (searchOnAir k) :=
    keeps_bind keeps_get fun _ =>
      keeps_ite (keeps_bind (serves_searchMeasure k) fun _ => keeps_pure _)
        (keeps_ite serves_searchVisitTick (keeps_pure _))
  refine keeps_bind serves_searchPreviousTuneReady fun _ => keeps_ite (keeps_pure _) ?_
  refine keeps_bind serves_searchCaptureReady fun capture => ?_
  split
  · exact keeps_pure _
  · refine keeps_bind keeps_get fun _ =>
      keeps_ite (serves_searchNextSpan _) (keeps_ite ?_ (honAir _))
    exact keeps_bind (serves_searchWaitTune _) fun _ => keeps_ite (keeps_pure _) (honAir _)

end Serves

end DsdNeo.SignalSearch
