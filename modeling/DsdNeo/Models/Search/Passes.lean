import DsdNeo.Models.Search.Coverage
import DsdNeo.Models.Search.GivenBack

/-!
# The passes of a search

Most parts of the coordinator leave its place in the pass alone. The place moves as a
range is selected, a span planned, a report taken, and a pause resumed; each keeps it in
agreement with the history.
-/

namespace DsdNeo.SignalSearch

open Program Text List

variable {s s' : State} {ranges : List Range}

/-- The place of a search, with what its measurements depend on. -/
structure Course where
  place : Place
  phase : Phase
  visit : Bool
  measuring : Bool
  requested : List (BitVec 32)

/-- The course of a state. -/
def State.course (s : State) : Course where
  place := s.place
  phase := s.c.phase
  visit := s.c.visit
  measuring := s.c.measuring
  requested := s.requested

/-- An outstanding measurement is one of the planned span, and no search is a visit. -/
structure Tame (s : State) : Prop where
  phase : s.c.measuring = true → s.c.phase = .searching
  requested : s.c.measuring = true → s.requested = s.c.span.frequencies
  spanned : s.c.measuring = true → s.c.needSpan = false
  visit : s.c.phase = .searching → s.c.visit = false

theorem tame_of_idle (hm : s.c.measuring = false)
    (hv : s.c.phase = .searching → s.c.visit = false) : Tame s :=
  ⟨fun h => absurd (hm.symm.trans h) nofun, fun h => absurd (hm.symm.trans h) nofun,
    fun h => absurd (hm.symm.trans h) nofun, hv⟩

theorem Tame.measuring_eq_false (h : Tame s) (hp : s.c.phase ≠ .searching) :
    s.c.measuring = false :=
  Bool.eq_false_iff.mpr fun hm => hp (h.phase hm)

theorem Tame.phase_ne (h : Tame s) (hv : s.c.visit = true) : s.c.phase ≠ .searching :=
  fun hp => absurd (hv.symm.trans (h.visit hp)) nofun

/-- The place stays, and a tame search stays tame. -/
structure Stays (s s' : State) : Prop where
  place : s'.place = s.place
  tame : Tame s → Tame s'

instance : IsPreorder State Stays where
  refl _ := ⟨rfl, id⟩
  trans _ _ _ h h' := ⟨h'.place.trans h.place, fun ht => h'.tame (h.tame ht)⟩

/-- The course stays. -/
abbrev Coursed : State → State → Prop := Same State.course

theorem stays_of_course (h : Coursed s s') : Stays s s' := by
  have hplace : s'.place = s.place := congrArg Course.place h
  have hphase : s'.c.phase = s.c.phase := congrArg Course.phase h
  have hvisit : s'.c.visit = s.c.visit := congrArg Course.visit h
  have hmeasuring : s'.c.measuring = s.c.measuring := congrArg Course.measuring h
  have hrequested : s'.requested = s.requested := congrArg Course.requested h
  have hspan : s'.c.span = s.c.span := congrArg Place.span hplace
  have hneed : s'.c.needSpan = s.c.needSpan := congrArg Place.needSpan hplace
  refine ⟨hplace, fun ht => ⟨?_, ?_, ?_, ?_⟩⟩
  · rw [hmeasuring, hphase]
    exact ht.phase
  · rw [hmeasuring, hrequested, hspan]
    exact ht.requested
  · rw [hmeasuring, hneed]
    exact ht.spanned
  · rw [hphase, hvisit]
    exact ht.visit

theorem Coursed.stays {α : Type} {m : Prog α} (h : Keeps Coursed m) : Keeps Stays m :=
  h.mono fun _ _ => stays_of_course

/-- The place stays, and nothing is searched or measured any more. -/
structure Halts (s s' : State) : Prop where
  place : s'.place = s.place
  measuring : s'.c.measuring = false
  phase : s'.c.phase ≠ .searching

theorem Halts.stays (h : Halts s s') : Stays s s' :=
  ⟨h.place, fun _ => tame_of_idle h.measuring fun hp => absurd hp h.phase⟩

/-- The coordinator, the last request and the history stay. -/
abbrev Inert : State → State → Prop := Same fun s : State => (s.c, s.requested, s.log)

theorem Inert.c (h : Inert s s') : s'.c = s.c := congrArg (·.1) h

/-- What leaves the coordinator alone stays on course. -/
theorem Inert.coursed {α : Type} {m : Prog α} (h : Keeps Inert m) : Keeps Coursed m :=
  h.mono fun s s' hi => by
    obtain ⟨hc, hrequested, hlog⟩ := Prod.mk.inj hi |>.imp_right Prod.mk.inj
    simp only [Same, State.course, State.place, hc, hrequested, hlog]

section Inert

theorem inert_ask : Keeps Inert ask := fun _ => rfl

theorem inert_settingsRestore (saved : ScanSettings) : Keeps Inert (settingsRestore saved) :=
  fun _ => rfl

theorem inert_scanModeBegin : Keeps Inert scanModeBegin := by
  refine keeps_bind keeps_get fun s => keeps_bind inert_ask fun _ => ?_
  split
  · exact keeps_pure _
  · exact keeps_ite (keeps_bind (fun _ => rfl) fun _ => keeps_pure _) (keeps_pure _)

theorem inert_scanScopeApply (scope : ScanScope) : Keeps Inert (scanScopeApply scope) :=
  keeps_bind (inert_settingsRestore _) fun _ =>
    keeps_ite (keeps_pure _) (keeps_bind inert_ask fun _ => inert_settingsRestore _)

theorem inert_scanModeEnter (mode : ℤ) : Keeps Inert (scanModeEnter mode) := by
  refine keeps_ite (keeps_pure _) (keeps_bind inert_scanModeBegin fun _ => ?_)
  refine keeps_ite (keeps_pure _) (keeps_bind keeps_get fun s => ?_)
  split
  · exact keeps_pure _
  · exact keeps_bind (fun _ => rfl) fun _ => keeps_bind (inert_scanScopeApply _) fun _ =>
      keeps_pure _

theorem inert_scanModeOptions (values : RowOptions) : Keeps Inert (scanModeOptions values) := by
  refine keeps_bind keeps_get fun s => keeps_bind inert_ask fun a => ?_
  split
  · exact keeps_pure _
  · exact keeps_bind (fun _ => rfl) fun _ => keeps_ite (keeps_pure _)
      (keeps_bind (fun _ => rfl) fun _ => keeps_pure _)

theorem inert_scanModeLeave : Keeps Inert scanModeLeave := by
  refine keeps_bind keeps_get fun s => ?_
  split
  · exact keeps_pure _
  · exact keeps_bind (keeps_onlyIf (inert_settingsRestore _)) fun _ _ => rfl

theorem inert_searchApplyAirspy : Keeps Inert searchApplyAirspy :=
  keeps_bind keeps_get fun _ => keeps_bind inert_ask fun _ =>
    keeps_ite (keeps_ite (keeps_pure _) (keeps_bind (fun _ => rfl) fun _ => keeps_pure _))
      (keeps_pure _)

theorem inert_searchPrepareProfile (analog : Bool) : Keeps Inert (searchPrepareProfile analog) := by
  refine keeps_bind keeps_get fun _ => keeps_bind inert_searchApplyAirspy fun _ => ?_
  refine keeps_ite (keeps_pure _) (keeps_bind (inert_scanModeEnter _) fun _ => ?_)
  refine keeps_ite (keeps_pure _) (keeps_bind (inert_scanModeOptions _) fun _ => ?_)
  refine keeps_ite (keeps_pure _) (keeps_bind ?_ fun _ => ?_)
  · exact keeps_bind keeps_get fun _ => keeps_bind inert_ask fun _ => keeps_pure _
  · exact keeps_ite (keeps_pure _) (keeps_bind inert_ask fun _ => keeps_pure _)

end Inert

section Coursed

theorem coursed_ask : Keeps Coursed ask := fun _ => rfl

/-- An edit of the coordinator off its course. -/
theorem coursed_modifyC {f : Coord → Coord}
    (h : ∀ s : State, { s with c := f s.c }.course = s.course) : Keeps Coursed (modifyC f) :=
  fun s => h s

theorem wp_coursedC {f : Coord → Coord} {post : Unit → State → Prop}
    (hf : ∀ s : State, { s with c := f s.c }.course = s.course)
    (h : ∀ s', Coursed s s' → post () s') : Wp (modifyC f) s post := h _ (coursed_modifyC hf s)

theorem coursed_searchPublish {hitChanged : Bool} : Keeps Coursed (searchPublish hitChanged) :=
  keeps_bind coursed_ask fun _ => coursed_modifyC fun _ => rfl

theorem coursed_searchEndHit : Keeps Coursed searchEndHit :=
  keeps_bind keeps_get fun _ =>
    keeps_onlyIf (keeps_bind (coursed_modifyC fun _ => rfl) fun _ => coursed_searchPublish)

theorem coursed_searchRestore : Keeps Coursed searchRestore := by
  refine keeps_bind keeps_get fun _ => keeps_onlyIf ?_
  exact keeps_bind (Inert.coursed inert_scanModeLeave) fun _ =>
    keeps_bind (Inert.coursed (inert_settingsRestore _)) fun _ =>
      keeps_bind (fun _ => rfl) fun _ => coursed_modifyC fun _ => rfl

theorem coursed_searchNoteActivity (now : BitVec 64) : Keeps Coursed (searchNoteActivity now) :=
  keeps_bind coursed_ask fun _ => coursed_modifyC fun s => by
    split_ifs
    · rfl
    · rfl
    · rfl

theorem coursed_searchRefreshed (refreshed : Visit × Bool) :
    Keeps Coursed (searchRefreshed refreshed) :=
  keeps_bind (coursed_modifyC fun _ => rfl) fun _ => keeps_onlyIf coursed_searchPublish

theorem coursed_searchSite (note : SiteNote) : Keeps Coursed (searchSite note) := by
  refine keeps_bind keeps_get fun _ => keeps_bind coursed_ask fun _ => ?_
  split
  · exact keeps_pure _
  · exact coursed_searchRefreshed _

theorem coursed_searchCall (slot : ℕ) (record : Option CallState.Record) :
    Keeps Coursed (searchCall slot record) := by
  refine keeps_bind keeps_get fun _ => keeps_bind coursed_ask fun _ => ?_
  split
  · exact keeps_pure _
  · exact keeps_ite (keeps_pure _) (keeps_ite (keeps_pure _) (coursed_searchRefreshed _))

theorem coursed_searchNotice (session : BitVec 64) (message : String) :
    Keeps Coursed (searchNotice session message) :=
  keeps_bind keeps_get fun _ =>
    keeps_onlyIf (keeps_bind (coursed_modifyC fun _ => rfl) fun _ => coursed_searchPublish)

end Coursed

section Halts

/-- The place stays, and nothing is measured any more. -/
structure Mutes (s s' : State) : Prop where
  place : s'.place = s.place
  measuring : s'.c.measuring = false

/-- What only keeps its course after the measurements end. -/
theorem Mutes.coursed {s'' : State} (h : Mutes s s') (hc : Coursed s' s'') : Mutes s s'' where
  place := (congrArg Course.place hc).trans h.place
  measuring := (congrArg Course.measuring hc : s''.c.measuring = s'.c.measuring).trans h.measuring

/-- An edit of the coordinator that leaves the place and measures nothing. -/
theorem Mutes.modifyC (h : Mutes s s') {f : Coord → Coord}
    (hplace : { s' with c := f s'.c }.place = s'.place)
    (hmeasuring : (f s'.c).measuring = s'.c.measuring) {post : Unit → State → Prop}
    (hpost : ∀ s'', s''.c = f s'.c → Mutes s s'' → post () s'') : Wp (modifyC f) s' post :=
  hpost { s' with c := f s'.c } rfl ⟨hplace.trans h.place, hmeasuring.trans h.measuring⟩

theorem Halts.coursed {s'' : State} (h : Halts s s') (hc : Coursed s' s'') : Halts s s'' where
  place := (congrArg Course.place hc).trans h.place
  measuring := (congrArg Course.measuring hc : s''.c.measuring = s'.c.measuring).trans h.measuring
  phase hp := h.phase ((congrArg Course.phase hc : s''.c.phase = s'.c.phase).symm.trans hp)

theorem Halts.after {s₀ : State} (h : Halts s s') (hplace : s.place = s₀.place) : Halts s₀ s' :=
  ⟨h.place.trans hplace, h.measuring, h.phase⟩

theorem wp_halts_searchError (message : String) (s : State) :
    Wp (searchError message) s fun _ s' => Halts s s' := by
  refine wp_bind ((coursed_searchEndHit.wp s).mono fun _ s₁ h₁ => ?_)
  refine wp_bind (wp_modify (wp_bind (wp_modify ?_)))
  refine (coursed_searchPublish.wp _).mono fun _ s₂ h₂ => Halts.coursed ⟨?_, rfl, ?_⟩ h₂
  · exact congrArg Course.place h₁
  · exact fun hp : Phase.error = .searching => nomatch hp

theorem halts_searchError (message : String) : Keeps Halts (searchError message) :=
  fun s => wp_halts_searchError message s

theorem halts_searchQueueTune (target : BitVec 32) (visit analog : Bool) :
    Keeps Halts (searchQueueTune target visit analog) := by
  intro s
  suffices h : Wp (searchQueueTune target visit analog) s fun _ s' => Halts s s' from h
  have hcancel : Wp searchCancelMeasurements s fun _ s' => Mutes s s' := ⟨rfl, rfl⟩
  refine wp_bind (hcancel.mono fun _ s₁ h₁ => wp_bind ?_)
  refine (coursed_ask.wp s₁).mono fun a s₂ h₂ => wp_bind ?_
  refine (h₁.coursed h₂).modifyC rfl rfl fun s₃ _ h₃ => wp_bind ?_
  refine ((Inert.coursed (inert_searchPrepareProfile analog)).wp s₃).mono fun rc s₄ h₄ => ?_
  have hmutes := h₃.coursed h₄
  refine wp_ite (fun _ => ?_) fun _ => wp_bind ?_
  · exact (wp_halts_searchError _ s₄).mono fun _ _ h => h.after hmutes.place
  · refine (coursed_ask.wp s₄).mono fun a s₅ h₅ => wp_bind ?_
    refine (hmutes.coursed h₅).modifyC rfl rfl fun s₆ _ h₆ => wp_ite (fun _ => ?_) fun _ =>
      wp_bind ?_
    · exact (wp_halts_searchError _ s₆).mono fun _ _ h => h.after h₆.place
    · refine h₆.modifyC rfl rfl fun s₇ hc h₇ => ?_
      have hhalt : Halts s s₇ :=
        ⟨h₇.place, h₇.measuring, by rw [hc]; exact fun hp : Phase.tuning = .searching => nomatch hp⟩
      exact (coursed_searchPublish.wp s₇).mono fun _ _ h₈ => hhalt.coursed h₈

theorem halts_searchReturnToSpan : Keeps Halts searchReturnToSpan := by
  intro s
  suffices h : Wp searchReturnToSpan s fun _ s' => Halts s s' from h
  refine wp_bind ((coursed_searchEndHit.wp s).mono fun _ s₁ h₁ => wp_bind (wp_modify ?_))
  refine wp_bind (wp_get (((halts_searchQueueTune _ _ _).wp _).mono fun _ _ h => h.after ?_))
  exact congrArg Course.place h₁

end Halts

section Stays

theorem stays_searchError (message : String) : Keeps Stays (searchError message) :=
  (halts_searchError message).mono fun _ _ => Halts.stays

theorem stays_searchCancelMeasurements : Keeps Stays searchCancelMeasurements :=
  fun _ => ⟨rfl, fun ht => tame_of_idle rfl ht.visit⟩

theorem stays_ask : Keeps Stays ask := Coursed.stays coursed_ask

theorem stays_modifyC {f : Coord → Coord}
    (h : ∀ s : State, { s with c := f s.c }.course = s.course) : Keeps Stays (modifyC f) :=
  Coursed.stays (coursed_modifyC h)

theorem stays_searchPreviousTuneReady : Keeps Stays searchPreviousTuneReady := by
  refine keeps_bind keeps_get fun _ => keeps_ite (keeps_pure _) ?_
  refine keeps_bind stays_ask fun _ => keeps_ite ?_ ?_
  · exact keeps_bind (keeps_onlyIf (stays_searchError _)) fun _ => keeps_pure _
  · exact keeps_bind (stays_modifyC fun _ => rfl) fun _ => keeps_pure _

theorem stays_searchCaptureReady : Keeps Stays searchCaptureReady := by
  refine keeps_bind keeps_get fun _ => keeps_bind stays_ask fun _ => ?_
  split
  · exact keeps_bind (keeps_onlyIf (stays_searchError _)) fun _ => keeps_pure _
  · refine keeps_ite (keeps_bind (stays_searchError _) fun _ => keeps_pure _) ?_
    exact keeps_bind (stays_modifyC fun _ => rfl) fun _ => keeps_pure _

theorem stays_searchShutdown : Keeps Stays searchShutdown := by
  intro s
  suffices h : Wp searchShutdown s fun _ s' => Stays s s' from h
  refine wp_bind (wp_get (wp_ite (fun _ => ?_) fun _ => refl_of Stays s))
  refine wp_bind ((coursed_searchEndHit.wp s).mono fun _ s₁ h₁ => ?_)
  have hcancel : Wp searchCancelMeasurements s₁ fun _ s' => Mutes s s' :=
    ⟨congrArg Course.place h₁, rfl⟩
  refine wp_bind (hcancel.mono fun _ s₂ h₂ => wp_bind ?_)
  refine (coursed_searchRestore.wp s₂).mono fun _ s₃ h₃ => wp_bind (wp_modify (wp_bind ?_))
  have hmutes : Mutes s { s₃ with
      opts := { s₃.opts with rtlsdrCenterFreq := s₃.c.savedFrequency } } := h₂.coursed h₃
  refine hmutes.modifyC rfl rfl fun s₄ hc h₄ => ?_
  have hhalt : Halts s s₄ :=
    ⟨h₄.place, h₄.measuring, by rw [hc]; exact fun hp : Phase.stopped = .searching => nomatch hp⟩
  exact (coursed_searchPublish.wp s₄).mono fun _ _ h₅ => (hhalt.coursed h₅).stays

theorem stays_searchRestoreTune : Keeps Stays searchRestoreTune := by
  refine keeps_bind (Coursed.stays coursed_searchEndHit) fun _ =>
    keeps_bind stays_searchCancelMeasurements fun _ =>
    keeps_bind (Coursed.stays coursed_searchRestore) fun _ => keeps_bind ?_ fun _ => keeps_pure _
  refine keeps_bind stays_ask fun _ => keeps_bind (stays_modifyC fun _ => rfl) fun _ =>
    keeps_bind keeps_get fun _ => keeps_ite (stays_searchError _) (keeps_ite ?_ ?_)
  · exact stays_modifyC fun _ => rfl
  · exact keeps_onlyIf (stays_searchError _)

theorem stays_searchStopTick : Keeps Stays searchStopTick := by
  refine keeps_bind keeps_get fun _ => keeps_bind stays_ask fun _ => keeps_ite ?_ ?_
  · exact keeps_bind (keeps_onlyIf (stays_searchError _)) fun _ => keeps_pure _
  · refine keeps_bind (stays_modifyC fun _ => rfl) fun _ => keeps_bind keeps_get fun _ =>
      keeps_ite stays_searchRestoreTune (keeps_bind (stays_modifyC fun _ => rfl) fun _ => ?_)
    refine keeps_ite (keeps_bind (stays_searchError _) fun _ => keeps_pure _) ?_
    exact keeps_bind (Coursed.stays fun _ => rfl) fun _ =>
      keeps_bind stays_searchShutdown fun _ => keeps_pure _

theorem stays_searchInputLost : Keeps Stays searchInputLost :=
  keeps_bind keeps_get fun _ =>
    keeps_ite (keeps_bind stays_searchShutdown fun _ => keeps_pure _)
      (keeps_bind (keeps_onlyIf (stays_searchError _)) fun _ => keeps_pure _)

end Stays

/-- The place, the phase and the measurement of the span stay. -/
abbrev Staged : State → State → Prop :=
  Same fun s : State => (s.place, s.c.phase, s.c.visit, s.c.measuring)

/-- What is requested elsewhere matters only to a measurement. -/
theorem Staged.stays (h : Staged s s') (hm : s.c.measuring = false) : Stays s s' := by
  have hphase : s'.c.phase = s.c.phase := congrArg (·.2.1) h
  have hvisit : s'.c.visit = s.c.visit := congrArg (·.2.2.1) h
  have hmeasuring : s'.c.measuring = s.c.measuring := congrArg (·.2.2.2) h
  refine ⟨congrArg (·.1) h, fun ht => tame_of_idle (hmeasuring.trans hm) ?_⟩
  rw [hphase, hvisit]
  exact ht.visit

theorem staged_modifyC {f : Coord → Coord}
    (h : ∀ s : State, { s with c := f s.c }.course = s.course) : Keeps Staged (modifyC f) :=
    fun s =>
  congrArg (fun k : Course => (k.place, k.phase, k.visit, k.measuring)) (h s)

theorem staged_searchLiveStrength : Keeps Staged searchLiveStrength := by
  have hask : Keeps Staged ask := fun _ => rfl
  have hpublish : Keeps Staged (searchPublish false) := fun _ => rfl
  have hlater (later : BitVec 64) : Keeps Staged (modifyC fun c => { c with liveNext := later }) :=
    staged_modifyC fun _ => rfl
  have hreport (now : BitVec 64) : Keeps Staged (searchLiveReport now) := by
    refine keeps_bind hask fun _ => keeps_ite (keeps_pure _) (keeps_bind ?_ fun _ => ?_)
    · exact staged_modifyC fun _ => rfl
    · refine keeps_bind keeps_get fun _ => keeps_ite (keeps_ite ?_ (hlater _)) (keeps_pure _)
      exact keeps_bind (staged_modifyC fun _ => rfl) fun _ => hpublish
  have hrequest (now : BitVec 64) : Keeps Staged (searchLiveRequest now) := by
    refine keeps_bind keeps_get fun _ => keeps_bind hask fun _ => keeps_ite (hlater _) ?_
    refine keeps_bind ?_ fun _ => keeps_ite ?_ (hlater _)
    · exact staged_modifyC fun _ => rfl
    · exact keeps_bind (fun _ => rfl) fun _ => staged_modifyC fun _ => rfl
  refine keeps_bind keeps_get fun _ => keeps_bind hask fun _ => keeps_bind (keeps_onlyIf ?_)
    fun _ => keeps_ite (hreport _) (keeps_ite (keeps_pure _) (hrequest _))
  exact keeps_bind (staged_modifyC fun _ => rfl) fun _ => hpublish

theorem receptionPhase_ne_searching (c : Coord) : receptionPhase c ≠ .searching := by
  unfold receptionPhase
  split_ifs <;> nofun

/-- Evidence on a visit keeps the place. -/
theorem Tame.evidence (h : Tame s) (protocol : Bytes) (target source : BitVec 32)
    (access : Bytes) :
    Wp (searchEvidence protocol target source access) s fun _ s' => Stays s s' := by
  refine wp_bind (wp_get (wp_bind ((coursed_ask.wp s).mono fun a s₁ h₁ => ?_)))
  have hstays := stays_of_course h₁
  refine wp_ite (fun hreceiving => ?_) fun _ => hstays
  simp only [receiving, Bool.and_eq_true] at hreceiving
  refine wp_bind (wp_coursedC (fun _ => rfl) fun s₂ h₂ => wp_bind ?_)
  refine wp_coursedC (fun _ => rfl) fun s₃ h₃ => wp_bind (wp_modify (wp_bind ?_))
  have hcourse : Coursed s s₃ := h₃.trans (h₂.trans h₁)
  have hstays₃ := stays_of_course hcourse
  have hphase : s₃.c.phase ≠ .searching := by
    rw [show s₃.c.phase = s.c.phase from congrArg Course.phase hcourse]
    exact h.phase_ne hreceiving.1.1.1.1
  have hm := (hstays₃.tame h).measuring_eq_false hphase
  refine wp_coursedC (fun _ => rfl) fun s₄ h₄ => ?_
  refine (coursed_searchPublish.wp s₄).mono fun _ s₅ h₅ => ?_
  refine Halts.stays ((Halts.coursed ⟨?_, ?_, ?_⟩ h₄).coursed h₅)
  · exact hstays₃.place
  · exact hm
  · show ite (s₃.c.hold = true) s₃.c.phase .listening ≠ _
    split_ifs
    · exact hphase
    · decide

/-- Holding or releasing a visit keeps the place. -/
theorem Tame.toggleHold (h : Tame s) (hv : s.c.visit = true) :
    Wp searchToggleHold s fun _ s' => Stays s s' := by
  have hphase := h.phase_ne hv
  refine wp_modify (Halts.stays ⟨?_, ?_, ?_⟩)
  · dsimp only
    split_ifs
    · rfl
    · rfl
  · dsimp only
    split_ifs
    · exact h.measuring_eq_false hphase
    · exact h.measuring_eq_false hphase
  · dsimp only
    split_ifs
    · exact receptionPhase_ne_searching _
    · exact hphase

theorem Tame.shouldYield (h : Tame s) : Wp searchShouldYield s fun _ s' => Stays s s' := by
  refine wp_bind (wp_get (wp_bind ((coursed_ask.wp s).mono fun a s₁ h₁ => ?_)))
  have hstays := stays_of_course h₁
  refine wp_ite (fun _ => hstays) fun _ => wp_ite (fun _ => hstays) fun _ =>
    wp_ite (fun _ => hstays) fun _ => ?_
  refine wp_bind (((coursed_searchNoteActivity _).wp s₁).mono fun _ s₂ h₂ => ?_)
  have hstays₂ := trans_of Stays hstays (stays_of_course h₂)
  have hlive : Wp (onlyIf (s.c.visit = true) searchLiveStrength) s₂ fun _ s' => Stays s s' := by
    refine wp_ite (fun hv => ?_) fun _ => hstays₂
    have hm : s₂.c.measuring = false := by
      rw [show s₂.c.measuring = s₁.c.measuring from congrArg Course.measuring h₂,
        show s₁.c.measuring = s.c.measuring from congrArg Course.measuring h₁]
      exact h.measuring_eq_false (h.phase_ne hv)
    exact (staged_searchLiveStrength.wp s₂).mono fun _ _ h₃ => trans_of Stays hstays₂ (h₃.stays hm)
  exact wp_bind (hlive.mono fun _ s₃ h₃ => wp_bind (wp_get (wp_ite (fun _ => h₃) fun _ => h₃)))

theorem wp_edit {f : State → State} {post : Unit → State → Prop}
    (h : ∀ s', s' = f s → post () s') : Wp (modify f : Prog Unit) s post := wp_modify (h _ rfl)

variable {report : List Candidate}

theorem mem_of_strongestLoop {excluded : BitVec 32 → Bool} {best : Option Candidate} {x : Candidate}
    (h : strongestLoop excluded best report = some (some x)) :
    best = some x ∨ x ∈ report ∧ x.detected = true ∧ excluded x.frequencyHz = false := by
  induction report generalizing best with
  | nil => exact .inl (Option.some.inj h)
  | cons y report ih =>
    rw [strongestLoop] at h
    split_ifs at h with hvalid hbetter
    · rcases ih h with hy | ⟨hx, hnew⟩
      · obtain rfl := Option.some.inj hy
        simp only [Bool.and_eq_true, Bool.not_eq_true'] at hbetter
        exact .inr ⟨mem_cons_self, hbetter.1.1, hbetter.1.2⟩
      · exact .inr ⟨mem_cons_of_mem _ hx, hnew⟩
    · rcases ih h with hbest | ⟨hx, hnew⟩
      · exact .inl hbest
      · exact .inr ⟨mem_cons_of_mem _ hx, hnew⟩

/-- Where no candidate is chosen, every detection is excluded. -/
theorem excluded_of_strongestLoop {excluded : BitVec 32 → Bool} {best : Option Candidate}
    (h : strongestLoop excluded best report = some none) :
    best = none ∧ ∀ x ∈ report, x.detected = true → excluded x.frequencyHz = true := by
  induction report generalizing best with
  | nil => exact ⟨Option.some.inj h, fun _ hx => nomatch hx⟩
  | cons y report ih =>
    rw [strongestLoop] at h
    split_ifs at h with hvalid hbetter
    · exact absurd (ih h).1 nofun
    · obtain ⟨hbest, hrest⟩ := ih h
      refine ⟨hbest, fun x hx hdetected => ?_⟩
      rcases mem_cons.mp hx with rfl | hx
      · -- there was no best candidate to be weaker than
        rw [hbest, hdetected] at hbetter
        simpa only [Bool.true_and, Option.all_none, Bool.and_true, Bool.not_eq_true',
          Bool.not_eq_false] using hbetter
      · exact hrest x hx hdetected

theorem frequencies_reportOf (requested : List (BitVec 32)) (verdict : ℕ → Verdict) :
    (reportOf requested verdict).map (·.frequencyHz) = requested := by
  rw [reportOf, mapIdx_eq_zipIdx_map, map_map]
  exact zipIdx_map_fst 0 requested

/-- A search whose place agrees with its history. -/
structure Sweeps (ranges : List Range) (s : State) : Prop where
  surveys : Surveys ranges s.place
  tame : Tame s

open Sweeps

theorem Surveys.of_eq {p q : Place} (h : Surveys ranges p) (heq : q = p) : Surveys ranges q :=
  heq ▸ h

theorem Sweeps.stays (h : Sweeps ranges s) (hs : Stays s s') : Sweeps ranges s' :=
  ⟨hs.place ▸ h.surveys, hs.tame h.tame⟩

theorem Sweeps.halts (h : Surveys ranges s.place) (hs : Halts s s') : Sweeps ranges s' :=
  ⟨hs.place ▸ h, tame_of_idle hs.measuring fun hp => absurd hp hs.phase⟩

/-- The selection of a range keeps what a search does, and ends at a channel if it succeeds. -/
structure Selects (ranges : List Range) (selected : Bool) (s s' : State) : Prop where
  surveys : Surveys ranges s'.place
  needSpan : s'.c.needSpan = true
  visit : s'.c.visit = s.c.visit
  measuring : s'.c.measuring = s.c.measuring
  channel : selected = true → ∃ r, ranges[s'.c.rangeIndex]? = some r ∧ s'.c.range = r ∧
    r.enabled = true

theorem wp_searchWrap (h : Surveys ranges s.place) (hneed : s.c.needSpan = true) :
    Wp searchWrap s fun _ s' => Selects ranges false s s' ∧ s'.c.rangeIndex < ranges.length := by
  have hranges : s.c.config.ranges = ranges := h.ranges_eq
  refine wp_bind (wp_get (wp_ite (fun hend => ?_) fun hin => ?_))
  · rw [hranges] at hend
    refine wp_bind (wp_modify (wp_modify ⟨⟨?_, ?_, rfl, rfl, nofun⟩, ?_⟩))
    · exact h.wrap hneed hend
    · exact hneed
    · exact h.ranges_pos
  · refine ⟨⟨h, hneed, rfl, rfl, nofun⟩, ?_⟩
    exact Nat.lt_of_le_of_ne h.range_le (hranges ▸ hin)

theorem wp_searchSelectLoop (tries : ℕ) (h : Surveys ranges s.place)
    (hneed : s.c.needSpan = true) :
    Wp (searchSelectLoop tries) s fun selected s' => Selects ranges selected s s' := by
  induction tries generalizing s with
  | zero => exact ⟨h, hneed, rfl, rfl, nofun⟩
  | succ tries ih =>
    refine wp_bind ((wp_searchWrap h hneed).mono fun _ s₁ ⟨h₁, hin⟩ => wp_bind (wp_get ?_))
    have hr : ranges[s₁.c.rangeIndex]? = some ranges[s₁.c.rangeIndex] :=
      getElem?_eq_getElem hin
    have hrange : s₁.c.range = ranges[s₁.c.rangeIndex] := by
      rw [Coord.range, show s₁.c.config.ranges = ranges from h₁.surveys.ranges_eq, hr]
      rfl
    refine wp_ite (fun hfound => ?_) fun hnone => ?_
    · refine wp_bind (wp_modify (wp_pure ?_))
      exact ⟨h₁.surveys, h₁.needSpan, h₁.visit, h₁.measuring,
        fun _ => ⟨_, hr, hrange, hrange ▸ hfound.1⟩⟩
    · -- every channel of the range has been surveyed
      have hdone : reach ranges s₁.c.rangeIndex ≤ s₁.c.channelIndex := by
        rw [reach, hr]
        dsimp only
        split_ifs with henabled
        · rw [hrange] at hnone
          exact Nat.not_lt.mp fun hlt => hnone ⟨henabled, hlt⟩
        · exact Nat.zero_le _
      refine wp_bind (wp_modify (Wp.mono (ih ?_ h₁.needSpan) fun _ s₂ h₂ => ?_))
      · exact h₁.surveys.advance h₁.needSpan hin hdone
      · exact ⟨h₂.surveys, h₂.needSpan, h₂.visit.trans h₁.visit,
          h₂.measuring.trans h₁.measuring, h₂.channel⟩

theorem wp_searchNextSpan (h : Surveys ranges s.place) (hneed : s.c.needSpan = true)
    (k : Capture) : Wp (searchNextSpan k) s fun _ s' => Sweeps ranges s' := by
  refine wp_bind (wp_bind
    (wp_get (Wp.mono (wp_searchSelectLoop _ h hneed) fun selected s₁ h₁ => ?_)))
  have hplan (hselected : selected = true) :
      Wp (searchPlanSpan k) s₁ fun _ s' => Sweeps ranges s' := by
    obtain ⟨r, hr, hrange, henabled⟩ := h₁.channel hselected
    refine wp_bind (wp_get ?_)
    cases hplanned : SignalSearch.plan s₁.c.range s₁.c.channelIndex k.rateHz k.captureOffsetHz
        s₁.c.span with
    | mk rc span =>
      refine wp_bind (wp_modify (wp_ite (fun _ => ?_) fun hrc => wp_bind (wp_modify ?_)))
      · refine (wp_halts_searchError _ _).mono fun _ _ h₂ => halts ?_ h₂
        have hreplan := h₁.surveys.replan span
        rw [← h₁.needSpan] at hreplan
        exact hreplan
      · rw [show rc = 1 from not_not.mp hrc, hrange] at hplanned
        have hspan := h₁.surveys.plan hr henabled (planned_of_plan hplanned)
        refine wp_bind (wp_modify (((halts_searchQueueTune _ _ _).wp _).mono fun _ _ h₂ => ?_))
        exact halts hspan h₂
  cases hselected : selected with
  | true =>
    refine wp_bind (Wp.mono (wp_ite (fun _ => hplan hselected) fun hno => absurd rfl hno)
      fun _ s₂ h₂ => wp_bind ?_)
    exact wp_ite (fun hno => absurd hno nofun) fun _ => h₂
  | false =>
    refine wp_bind (wp_ite (fun hno => absurd hno nofun) fun _ => wp_pure (wp_bind ?_))
    refine wp_ite (fun _ => ?_) fun hno => absurd rfl hno
    exact (wp_halts_searchError _ s₁).mono fun _ _ h₂ => halts h₁.surveys h₂

theorem wp_searchSuppress {f : BitVec 32} {post : Unit → State → Prop}
    (hnew : s.c.suppressed.contains f = false) (hroom : s.c.suppressed.length < maxChannels)
    (h : post () { s with c := { s.c with suppressed := s.c.suppressed ++ [f] } }) :
    Wp (searchSuppress f) s post := by
  refine wp_modify ?_
  beta_reduce
  rw [if_pos ⟨hnew, hroom⟩]
  exact h

theorem wp_searchVisitCandidate (h : Surveys ranges s.place) (hneed : s.c.needSpan = false)
    (hlast : lastMeasured s.log = some report)
    (hreport : report.map (·.frequencyHz) = s.c.span.frequencies) {x : Candidate} (hx : x ∈ report)
    (hdetected : x.detected = true) (hnew : searchExcluded s.c x.frequencyHz = false) :
    Wp (searchVisitCandidate x) s fun _ s' => Sweeps ranges s' := by
  simp only [searchExcluded, Bool.or_eq_false_iff] at hnew
  have havoid : x.frequencyHz ∉ s.c.config.avoids := by
    rw [← contains_iff_mem, hnew.1]
    nofun
  have hsuppressed : x.frequencyHz ∉ s.c.suppressed := by
    rw [← contains_iff_mem, hnew.2]
    nofun
  obtain ⟨hroom, hchosen⟩ := h.choose hneed hlast hreport hx hdetected havoid hsuppressed
  refine wp_bind (wp_get (wp_bind (wp_modify (wp_bind (wp_modify (wp_bind ?_))))))
  refine wp_searchSuppress hnew.2 hroom (wp_bind ?_)
  refine (coursed_searchPublish.wp _).mono fun _ s₁ h₁ => wp_bind (wp_modify ?_)
  refine ((halts_searchQueueTune _ _ _).wp _).mono fun _ _ h₂ => halts ?_ h₂
  exact hchosen.of_eq (congrArg Course.place h₁)

theorem wp_searchTakeReport (h : Surveys ranges s.place) (ht : Tame s)
    (hneed : s.c.needSpan = false) (hreport : report.map (·.frequencyHz) = s.c.span.frequencies)
    (hm : s.c.measuring = false) : Wp (searchTakeReport report) s fun _ s' => Sweeps ranges s' := by
  refine wp_bind (wp_edit fun s₁ hs₁ => wp_bind (wp_get ?_))
  have hc₁ : s₁.c = s.c := by rw [hs₁]
  have hlast : lastMeasured s₁.log = some report := by rw [hs₁]; rfl
  have hmeasured : Surveys ranges s₁.place := by
    rw [hs₁]
    exact h.measure hneed hreport
  have hneed₁ : s₁.c.needSpan = false := hc₁ ▸ hneed
  split
  · exact (wp_halts_searchError _ s₁).mono fun _ _ h₂ => halts hmeasured h₂
  · rename_i hnone
    have hold (x : Candidate) (hx : x ∈ report) (hdetected : x.detected = true) :
        x.frequencyHz ∈ s₁.c.suppressed ∨ x.frequencyHz ∈ s₁.c.config.avoids := by
      have hexcluded := (excluded_of_strongestLoop hnone).2 x hx hdetected
      simp only [searchExcluded, Bool.or_eq_true, contains_iff_mem] at hexcluded
      exact hexcluded.symm
    have hleft := hmeasured.leave hneed₁ hlast hold
    refine wp_bind (wp_modify (wp_bind (wp_edit fun s₂ hs₂ => ?_)))
    have hsweeps : Sweeps ranges s₂ := by
      rw [hs₂]
      exact ⟨hleft, tame_of_idle (hc₁ ▸ hm) (hc₁ ▸ ht.visit)⟩
    exact (coursed_searchPublish.wp s₂).mono fun _ _ h₂ => hsweeps.stays (stays_of_course h₂)
  · rename_i x hfound
    obtain hbest | ⟨hx, hdetected, hnew⟩ := mem_of_strongestLoop hfound
    · cases hbest
    · exact wp_searchVisitCandidate hmeasured hneed₁ hlast (hc₁ ▸ hreport) hx hdetected hnew

theorem wp_searchMeasure (h : Sweeps ranges s) (hp : s.c.phase = .searching)
    (hneed : s.c.needSpan = false) (k : Capture) :
    Wp (searchMeasure k) s fun _ s' => Sweeps ranges s' := by
  refine wp_bind (wp_get (wp_bind ((coursed_ask.wp s).mono fun a s₁ h₁ => ?_)))
  have hsweeps := h.stays (stays_of_course h₁)
  have hphase : s₁.c.phase = .searching := (congrArg Course.phase h₁).trans hp
  have hneed₁ : s₁.c.needSpan = false := (congrArg (·.place.needSpan) h₁).trans hneed
  have hrequested : s₁.requested = s.requested := congrArg Course.requested h₁
  have hmeasuring : s₁.c.measuring = s.c.measuring := congrArg Course.measuring h₁
  refine wp_ite (fun _ => ?_) fun _ => wp_ite (fun _ => ?_) fun hm => wp_ite (fun _ => ?_) fun _ =>
    wp_ite (fun _ => hsweeps) fun _ => ?_
  · exact (wp_halts_searchError _ s₁).mono fun _ _ h₂ => hsweeps.stays h₂.stays
  · -- the planned span is requested
    refine wp_bind (wp_modify (wp_bind ((coursed_ask.wp _).mono fun b s₂ h₂ => ?_)))
    have hplace : s₂.place = s₁.place := congrArg Course.place h₂
    have hphase₂ : s₂.c.phase = .searching := (congrArg Course.phase h₂).trans hphase
    have hvisit₂ : s₂.c.visit = s₁.c.visit := congrArg Course.visit h₂
    refine wp_ite (fun _ => ?_) fun _ => wp_bind (wp_modify (wp_modify ?_))
    · exact (wp_halts_searchError _ s₂).mono fun _ _ h₃ =>
        halts (hplace ▸ hsweeps.surveys) h₃
    · refine ⟨hplace ▸ hsweeps.surveys, fun _ => hphase₂, fun _ => rfl, fun _ => ?_, fun _ => ?_⟩
      · exact (congrArg Place.needSpan hplace).trans hneed₁
      · exact hvisit₂.trans (hsweeps.tame.visit hphase)
  · exact wp_modify ⟨hsweeps.surveys, tame_of_idle rfl fun _ => hsweeps.tame.visit hphase⟩
  · -- the report is one on what was requested
    have hreport : (reportOf s.requested a.verdict).map (·.frequencyHz) =
      s₁.c.span.frequencies := by
      rw [frequencies_reportOf, ← hrequested]
      exact hsweeps.tame.requested (hmeasuring.trans (Bool.eq_true_of_not_eq_false hm))
    refine wp_bind (wp_edit fun s₂ hs₂ => ?_)
    have hplace : s₂.place = s₁.place := by rw [hs₂]; rfl
    have hm₂ : s₂.c.measuring = false := by rw [hs₂]
    have hvisit₂ : s₂.c.visit = false := by
      rw [hs₂]
      exact hsweeps.tame.visit hphase
    have hsurveys := hsweeps.surveys.of_eq hplace
    have htame := tame_of_idle hm₂ fun _ => hvisit₂
    refine wp_ite (fun _ => ⟨hsurveys, htame⟩) fun _ => ?_
    refine wp_searchTakeReport hsurveys htame ((congrArg Place.needSpan hplace).trans hneed₁) ?_ hm₂
    exact hreport.trans (congrArg (·.span.frequencies) hplace).symm

theorem Sweeps.error (h : Sweeps ranges s) (message : String) :
    Wp (searchError message) s fun _ s' => Sweeps ranges s' :=
  (wp_halts_searchError message s).mono fun _ _ hs => h.stays hs.stays

theorem Sweeps.land (h : Sweeps ranges s) (hp : s.c.phase = .tuning) (now : BitVec 64) :
    Wp (searchLand now) s fun _ s' => Sweeps ranges s' ∧ s'.c.needSpan = s.c.needSpan := by
  have hm := h.tame.measuring_eq_false (hp ▸ nofun)
  refine wp_bind (wp_edit fun s₁ hs₁ => wp_bind (wp_edit fun s₂ hs₂ => ?_))
  have hplace₁ : s₁.place = s.place := by rw [hs₁]; rfl
  have hm₁ : s₁.c.measuring = false := by rw [hs₁]; exact hm
  have hplace₂ : s₂.place = s₁.place ∧ Tame s₂ := by
    rw [hs₂]
    beta_reduce
    by_cases hv : s₁.c.visit = true
    · rw [if_pos hv]
      exact ⟨rfl, tame_of_idle hm₁ fun hs => absurd hs (receptionPhase_ne_searching _)⟩
    · rw [if_neg hv]
      exact ⟨rfl, tame_of_idle hm₁ fun _ => Bool.eq_false_iff.mpr hv⟩
  refine wp_bind (wp_get ((coursed_searchPublish.wp s₂).mono fun _ s₃ h₃ => ?_))
  have hstays := stays_of_course h₃
  have hplace : s₃.place = s.place := hstays.place.trans (hplace₂.1.trans hplace₁)
  exact ⟨⟨h.surveys.of_eq hplace, hstays.tame hplace₂.2⟩, congrArg Place.needSpan hplace⟩

theorem Sweeps.waitTune (h : Sweeps ranges s) (hp : s.c.phase = .tuning) (k : Capture) :
    Wp (searchWaitTune k) s fun waiting s' =>
      Sweeps ranges s' ∧ (waiting = false → s'.c.needSpan = s.c.needSpan) := by
  have hawait {s : State} (h : Sweeps ranges s) (hp : s.c.phase = .tuning) (now : BitVec 64) :
      Wp (searchAwait k now) s fun waiting s' =>
        Sweeps ranges s' ∧ (waiting = false → s'.c.needSpan = s.c.needSpan) := by
    refine wp_bind (wp_get (wp_bind ((coursed_ask.wp s).mono fun a s₁ h₁ => ?_)))
    have hsweeps := h.stays (stays_of_course h₁)
    have hphase : s₁.c.phase = .tuning := (congrArg Course.phase h₁).trans hp
    have hneed : s₁.c.needSpan = s.c.needSpan := congrArg (·.place.needSpan) h₁
    refine wp_ite (fun _ => wp_bind ?_) fun _ => wp_ite (fun _ => wp_bind ?_) fun _ => wp_bind ?_
    · exact (hsweeps.error _).mono fun _ _ h₂ => ⟨h₂, nofun⟩
    · exact wp_ite (fun _ => (hsweeps.error _).mono fun _ _ h₂ => ⟨h₂, nofun⟩) fun _ =>
        ⟨hsweeps, nofun⟩
    · exact (hsweeps.land hphase now).mono fun _ _ h₂ => ⟨h₂.1, fun _ => h₂.2.trans hneed⟩
  refine wp_bind (wp_get (wp_bind ((coursed_ask.wp s).mono fun a s₁ h₁ => ?_)))
  have hsweeps := h.stays (stays_of_course h₁)
  have hphase : s₁.c.phase = .tuning := (congrArg Course.phase h₁).trans hp
  have hneed : s₁.c.needSpan = s.c.needSpan := congrArg (·.place.needSpan) h₁
  refine wp_ite (fun _ => wp_bind ?_) fun _ => ?_
  · refine wp_coursedC (fun _ => rfl) fun s₂ h₂ => wp_ite (fun _ => wp_bind ?_) fun _ => ?_
    · exact ((hsweeps.stays (stays_of_course h₂)).error _).mono fun _ _ h₃ => ⟨h₃, nofun⟩
    · have hphase₂ : s₂.c.phase = .tuning := (congrArg Course.phase h₂).trans hphase
      have hneed₂ : s₂.c.needSpan = s.c.needSpan := (congrArg (·.place.needSpan) h₂).trans hneed
      refine (hawait (hsweeps.stays (stays_of_course h₂)) hphase₂ _).mono fun _ _ h₃ => ?_
      exact ⟨h₃.1, fun hw => (h₃.2 hw).trans hneed₂⟩
  · exact (hawait hsweeps hphase _).mono fun _ _ h₂ => ⟨h₂.1, fun hw => (h₂.2 hw).trans hneed⟩

theorem Sweeps.visitTick (h : Sweeps ranges s) (hv : s.c.visit = true) :
    Wp searchVisitTick s fun _ s' => Sweeps ranges s' := by
  refine wp_bind ((coursed_ask.wp s).mono fun a s₁ h₁ => wp_bind ?_)
  refine ((coursed_searchNoteActivity _).wp s₁).mono fun _ s₂ h₂ => ?_
  have hcourse : Coursed s s₂ := trans_of Coursed h₁ h₂
  have hsweeps := h.stays (stays_of_course hcourse)
  refine wp_bind (wp_get (wp_ite (fun _ => wp_bind ?_) fun _ =>
    wp_ite (fun _ => wp_bind ?_) fun _ =>
    wp_ite (fun _ => wp_bind ?_) fun _ => wp_bind (wp_bind ?_)))
  · exact (halts_searchReturnToSpan.wp s₂).mono fun _ _ h₃ => hsweeps.stays h₃.stays
  · exact ((halts_searchQueueTune _ _ _).wp s₂).mono fun _ _ h₃ => hsweeps.stays h₃.stays
  · exact (halts_searchReturnToSpan.wp s₂).mono fun _ _ h₃ => hsweeps.stays h₃.stays
  · have hv₂ : s₂.c.visit = true := (congrArg Course.visit hcourse).trans hv
    have hm := hsweeps.tame.measuring_eq_false (hsweeps.tame.phase_ne hv₂)
    refine (staged_searchLiveStrength.wp s₂).mono fun _ s₃ h₃ => ?_
    have hsweeps₃ := hsweeps.stays (Staged.stays h₃ hm)
    refine wp_bind (wp_get (wp_bind ((coursed_ask.wp s₃).mono fun b s₄ h₄ => ?_)))
    have hsweeps₄ := hsweeps₃.stays (stays_of_course h₄)
    refine wp_ite (fun _ => ?_) fun _ => hsweeps₄
    exact (coursed_searchPublish.wp s₄).mono fun _ _ h₅ => hsweeps₄.stays (stays_of_course h₅)

theorem Sweeps.onAir (h : Sweeps ranges s) (hneed : s.c.needSpan = false) (k : Capture) :
    Wp (searchOnAir k) s fun _ s' => Sweeps ranges s' :=
  wp_bind (wp_get (wp_ite (fun hp => wp_bind (wp_searchMeasure h hp hneed k)) fun _ =>
    wp_ite (fun hv => h.visitTick hv) fun _ => h))

theorem Sweeps.advance (h : Sweeps ranges s) : Wp searchAdvance s fun _ s' => Sweeps ranges s' := by
  refine wp_bind ((stays_searchPreviousTuneReady.wp s).mono fun ready s₁ h₁ => ?_)
  have hsweeps₁ := h.stays h₁
  refine wp_ite (fun _ => hsweeps₁) fun _ => wp_bind ?_
  refine (stays_searchCaptureReady.wp s₁).mono fun capture s₂ h₂ => ?_
  have hsweeps₂ := hsweeps₁.stays h₂
  cases capture with
  | none => exact hsweeps₂
  | some k =>
    refine wp_bind (wp_get (wp_ite (fun hneed => ?_) fun hneed => ?_))
    · exact wp_searchNextSpan hsweeps₂.surveys hneed k
    · have hneed' : s₂.c.needSpan = false := Bool.eq_false_iff.mpr hneed
      refine wp_ite (fun hp => wp_bind ?_) fun _ => hsweeps₂.onAir hneed' k
      refine (hsweeps₂.waitTune hp k).mono fun waiting s₃ h₃ => ?_
      refine wp_ite (fun _ => h₃.1) fun hlanded => ?_
      exact h₃.1.onAir ((h₃.2 (Bool.eq_false_iff.mpr hlanded)).trans hneed') k

theorem Sweeps.tick (h : Sweeps ranges s) : Wp searchTick s fun _ s' => Sweeps ranges s' := by
  have hbody : Wp searchTickBody s fun _ s' => Sweeps ranges s' := by
    refine wp_bind (wp_get (wp_bind ((coursed_ask.wp s).mono fun a s₁ h₁ => ?_)))
    have hsweeps := h.stays (stays_of_course h₁)
    refine wp_ite (fun _ => ?_) fun _ => wp_ite (fun _ => ?_) fun _ =>
      wp_ite (fun _ => hsweeps) fun _ => hsweeps.advance
    · exact (stays_searchInputLost.wp s₁).mono fun _ _ h₂ => hsweeps.stays h₂
    · exact (stays_searchStopTick.wp s₁).mono fun _ _ h₂ => hsweeps.stays h₂
  refine wp_bind (wp_get (wp_ite (fun _ => h) fun _ => wp_bind (hbody.mono fun _ s₁ h₁ => ?_)))
  refine wp_bind (wp_get (wp_bind (wp_ite (fun _ => wp_modify ?_) fun _ => h₁)))
  exact h₁.stays (stays_of_course rfl)

theorem Sweeps.applyAction (h : Sweeps ranges s) {action : Control}
    (hvalid : validAction s.c action = true) :
    Wp (searchApplyAction action) s fun _ s' => Sweeps ranges s' := by
  have havoid (f : BitVec 32) : Wp (searchAvoidAction f) s fun _ s' => Sweeps ranges s' := by
    refine (Keeps.wp (R := Coursed) ?_ s).mono fun _ _ h₁ => h.stays (stays_of_course h₁)
    refine keeps_bind ?_ fun _ => keeps_ite (keeps_pure _) ?_
    · refine keeps_bind keeps_get fun _ => keeps_ite (keeps_pure _) ?_
      refine keeps_bind (coursed_modifyC fun s => ?_) fun _ => keeps_pure _
      split_ifs
      · rfl
      · rfl
    · refine keeps_bind keeps_get fun _ => keeps_bind (keeps_onlyIf ?_) fun _ => keeps_pure _
      exact keeps_bind (coursed_modifyC fun _ => rfl) fun _ => coursed_searchPublish
  refine wp_bind (wp_get ?_)
  cases haction : action.action with
  | stop =>
    refine wp_bind ((coursed_ask.wp s).mono fun a s₁ h₁ => wp_bind ?_)
    refine wp_coursedC (fun _ => rfl) fun s₂ h₂ => ?_
    exact (h.stays (stays_of_course h₁)).stays (stays_of_course h₂)
  | pause =>
    refine wp_bind (wp_bind ((coursed_searchEndHit.wp s).mono fun _ s₁ h₁ => ?_))
    have hsweeps := h.stays (stays_of_course h₁)
    refine wp_bind (wp_modify (wp_modify ⟨hsweeps.surveys, ?_⟩))
    exact tame_of_idle rfl fun hp : Phase.paused = .searching => nomatch hp
  | resume =>
    refine wp_bind (wp_get (wp_ite (fun _ => h) fun hp => wp_bind (wp_modify ?_)))
    have hm := h.tame.measuring_eq_false (not_not.mp hp ▸ nofun)
    exact ⟨h.surveys.replan s.c.span, tame_of_idle hm fun _ => rfl⟩
  | hold =>
    have hv : s.c.visit = true := by
      rw [validAction, haction] at hvalid
      split_ifs at hvalid
      simp only [Bool.and_eq_true] at hvalid
      exact hvalid.1.1
    exact wp_bind ((h.tame.toggleHold hv).mono fun _ _ h₁ => h.stays h₁)
  | skip =>
    exact wp_bind (wp_coursedC (fun _ => rfl) fun _ h₁ => h.stays (stays_of_course h₁))
  | avoid => exact havoid _
  | avoidPermanent => exact havoid _
  | avoidFrequency => exact havoid _
  | unavoid =>
    refine wp_bind (wp_coursedC (fun s => ?_) fun _ h₁ => h.stays (stays_of_course h₁))
    split
    · rfl
    · rfl
  | unknown => exact h

theorem Sweeps.control (h : Sweeps ranges s) (action : Control) :
    Wp (searchControl action) s fun _ s' => Sweeps ranges s' := by
  refine wp_bind (wp_get (wp_ite (fun _ => h) fun hvalid => wp_bind ?_))
  refine (h.applyAction (Bool.eq_true_of_not_eq_false hvalid)).mono fun _ s₁ h₁ => ?_
  refine wp_ite (fun _ => h₁) fun _ => wp_bind (wp_coursedC (fun _ => rfl) fun s₂ h₂ => wp_bind ?_)
  exact (coursed_searchPublish.wp s₂).mono fun _ _ h₃ =>
    (h₁.stays (stays_of_course h₂)).stays (stays_of_course h₃)

/-- No new session and no edited ranges. -/
def Op.Continues : Op → Prop
  | .start _ => False
  | _ => True

theorem Sweeps.perform (h : Sweeps ranges s) {op : Op} (hop : op.Continues) :
    Sweeps ranges (perform op s).2 := by
  cases op with
  | start config => exact hop.elim
  | control action => exact h.control action
  | tick => exact h.tick
  | shouldYield => exact h.stays h.tame.shouldYield
  | evidence protocol target source access =>
    exact h.stays (h.tame.evidence protocol target source access)
  | site note => exact h.stays (stays_of_course (coursed_searchSite note s))
  | call slot record => exact h.stays (stays_of_course (coursed_searchCall slot record s))
  | notice session message =>
    exact h.stays (stays_of_course (coursed_searchNotice session message s))
  | shutdown => exact h.stays (stays_searchShutdown s)

theorem Sweeps.run (h : Sweeps ranges s) {ops : List Op} (hops : ∀ op ∈ ops, op.Continues) :
    Sweeps ranges (run s ops) := by
  induction ops generalizing s with
  | nil => exact h
  | cons op ops ih =>
    exact ih (h.perform (hops op mem_cons_self)) fun op' hop' =>
      hops op' (mem_cons_of_mem _ hop')

theorem valid_of_validateStart {a : Answer} {config : Config}
    (h : validateStart s a config = none) :
    0 < config.ranges.length ∧ totalChannels config.ranges ≤ maxChannels := by
  rw [validateStart] at h
  split_ifs at h with hconfig hlive hactive
  unfold validateConfig at h
  by_cases hsize : config.ranges.length = 0 ∨ maxRanges < config.ranges.length ∨
      maxAvoids < config.avoids.length
  · rw [if_pos hsize] at h
    cases h
  · rw [if_neg hsize] at h
    refine ⟨Nat.pos_of_ne_zero fun hz => hsize (.inl hz), ?_⟩
    cases hwhy : config.ranges.findSome? validate with
    | some why =>
      rw [hwhy] at h
      cases h
    | none =>
      rw [hwhy] at h
      dsimp only at h
      split_ifs at h with hnone hroom
      exact Nat.not_lt.mp hroom

theorem wp_searchStart (hidle : s.c.phase = .stopped) (hlog : s.log = []) (config : Config) :
    Wp (searchStart config) s fun rc s' => rc = 0 → Sweeps config.ranges s' := by
  refine wp_bind (wp_get (wp_bind ((coursed_ask.wp s).mono fun a s₁ h₁ => ?_)))
  have hlog₁ : s₁.log = [] := (congrArg (·.place.log) h₁).trans hlog
  cases hvalid : validateStart s a config with
  | some why => exact fun hrc : (-1 : ℤ) = 0 => absurd hrc (by decide)
  | none =>
    obtain ⟨hpos, hroom⟩ := valid_of_validateStart hvalid
    refine wp_ite (fun hpaused => absurd (hidle.symm.trans hpaused) nofun) fun _ => ?_
    refine wp_bind (wp_get (wp_bind ((coursed_ask.wp s₁).mono fun b s₂ h₂ => ?_)))
    have hlog₂ : s₂.log = [] := (congrArg (·.place.log) h₂).trans hlog₁
    refine wp_ite (fun _ (hrc : (-1 : ℤ) = 0) => absurd hrc (by decide)) fun _ =>
      wp_bind (wp_modify (wp_bind ?_))
    refine ((Inert.coursed inert_scanModeBegin).wp _).mono fun rc s₃ h₃ => wp_bind ?_
    have hlog₃ : s₃.log = [] := (congrArg (·.place.log) h₃).trans hlog₂
    refine (coursed_ask.wp s₃).mono fun own s₄ h₄ => ?_
    have hlog₄ : s₄.log = [] := (congrArg (·.place.log) h₄).trans hlog₃
    refine wp_ite (fun _ => ?_) fun _ => wp_bind (wp_edit fun s₅ hs₅ => ?_)
    · exact wp_bind (wp_bind fun hrc : (-1 : ℤ) = 0 => absurd hrc (by decide))
    · have hsweeps : Surveys config.ranges s₅.place ∧ s₅.c.needSpan = true ∧
          s₅.c.visit = false ∧ s₅.c.measuring = false := by
        rw [hs₅]
        refine ⟨?_, rfl, rfl, rfl⟩
        refine (surveys_start hpos hroom Span.zero).of_eq ?_
        simp only [State.place, Coord.fresh, hlog₄]
      obtain ⟨hsurveys, hneed, hvisit, hm⟩ := hsweeps
      refine wp_bind (wp_bind (wp_get ((wp_searchSelectLoop _ hsurveys hneed).mono
        fun _ s₆ h₆ => wp_bind ?_)))
      have htame : Tame s₆ :=
        tame_of_idle (h₆.measuring.trans hm) fun _ => h₆.visit.trans hvisit
      refine (coursed_searchPublish.wp s₆).mono fun _ s₇ h₇ _ => ?_
      exact stays ⟨h₆.surveys, htame⟩ (stays_of_course h₇)

/-- The channels of a valid range increase strictly from its start to no further than its
end, each the whole hertz nearest to its place on the rational grid, with no error that adds
up. In a session with one configuration, every event is fair: a pass ends with each channel of
each enabled range surveyed once and in order, a span is planned where the surveyed channels
end, a report is one on that span, a visit is a new detection of it that is not on the avoid
list, and a span is left when its last report detected nothing new. -/
theorem passes_skip_nothing (s₀ : State) (hidle : s₀.c.phase = .stopped) (hlog : s₀.log = [])
    (config : Config) (hstart : (searchStart config s₀).1 = 0) (ops : List Op)
    (hops : ∀ op ∈ ops, op.Continues) :
    (∀ r, validate r = none → ∀ i < channelCount r,
      (frequency r i).toNat = r.startHz.toNat + roundedStep r i ∧
        r.startHz.toNat ≤ (frequency r i).toNat ∧ (frequency r i).toNat ≤ r.endHz.toNat ∧
        ∀ j < i, (frequency r j).toNat < (frequency r i).toNat) ∧
    (grid config.ranges).Nodup ∧
    (∀ newer e older, (run s₀ (.start config :: ops)).log = newer ++ e :: older →
      e.Fair config.ranges older) ∧
    surveyed (run s₀ (.start config :: ops)).log <+: grid config.ranges ∧
    (run s₀ (.start config :: ops)).c.pass =
      BitVec.ofNat 64 (passes (run s₀ (.start config :: ops)).log + 1) := by
  have hbegun : Sweeps config.ranges (perform (.start config) s₀).2 :=
    wp_searchStart hidle hlog config hstart
  have hrun := (hbegun.run hops).surveys
  refine ⟨fun r hr i hi => ?_, nodup_grid _, fun newer e older hlog =>
    ?_, hrun.prefix_grid, hrun.pass_eq⟩
  · have hgrid := Range.grid_of_validate hr
    have hmem := hgrid.frequency_mem hi
    exact ⟨hgrid.toNat_frequency hi, hmem.1, hmem.2, fun j hj => hgrid.frequency_lt hj hi⟩
  · have hfair : Fair config.ranges (run s₀ (.start config :: ops)).log := hrun.fair
    rw [hlog] at hfair
    exact hfair.event

/-- A radio on the span of the two channels, at a generation of its output. -/
def quietRadio (generation : BitVec 32) : Answer :=
  { radioAnswer 0 with
    outputGeneration := generation
    captureGet := some ⟨2400000, 450896000, generation, 0⟩
    measureGet := 1
    reportSession := 1
    reportRequest := 1
    reportGeneration := generation }

/-- A decoder whose tune to the span lands, and that detects nothing there. -/
def quietDecoder : State :=
  { idleDecoder 0 with answers := fun n => quietRadio (if n < 10 then 1 else 2) }

/-- The span is planned, landed on and measured, and the range selected anew. -/
def onePass : List Op := [.tick, .tick, .tick, .tick]

set_option maxRecDepth 20000 in
/-- A session that measures its span goes on to a second pass, and skipped nothing. -/
theorem passes_skip_nothing_passed :
    passes (run quietDecoder (.start twoChannelConfig :: onePass)).log = 1 ∧
      (∀ newer e older,
        (run quietDecoder (.start twoChannelConfig :: onePass)).log = newer ++ e :: older →
          e.Fair twoChannelConfig.ranges older) ∧
      (run quietDecoder (.start twoChannelConfig :: onePass)).c.pass =
        BitVec.ofNat 64
          (passes (run quietDecoder (.start twoChannelConfig :: onePass)).log + 1) := by
  have hops : ∀ op ∈ onePass, op.Continues := by
    intro op hop
    have hticks : op ∈ List.replicate 4 Op.tick := hop
    obtain ⟨-, rfl⟩ := mem_replicate.mp hticks
    trivial
  have hfair := passes_skip_nothing quietDecoder rfl rfl twoChannelConfig (by decide) onePass hops
  exact ⟨by decide +kernel, hfair.2.2.1, hfair.2.2.2.2⟩

end DsdNeo.SignalSearch
