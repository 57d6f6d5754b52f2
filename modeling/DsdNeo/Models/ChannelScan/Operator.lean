import DsdNeo.Models.ChannelScan.Captured

/-!
# A scan row stays out of the operator's settings

The settings a leave gives back are those the operator last set: before the scope, by an edit while
it is suspended, or by a setter. A row entered from a suspended scope goes back to the settings kept
at the suspend, whatever was set since.
-/

namespace DsdNeo.ChannelScan

open SignalSearch Overlay Session

variable {power : ℤ → ℚ} {same : ℚ} {s : Session}

namespace Session

/-- Whether the scope is suspended. -/
def suspended (s : Session) : Bool := s.scope.any fun scope => scope.suspended

/-- The operator's settings and the scope over them. -/
def desk (s : Session) : Desk ScanSettings RowScope :=
  match s.scope with
  | none => .bare s.live
  | some scope =>
    if scope.suspended then .aside scope.configured scope s.live
    else .covered scope.configured scope

/-- What a leave would give back. -/
def kept (s : Session) : ScanSettings := s.desk.leave.own

theorem kept_of_none (h : s.scope = none) : s.kept = s.live := by
  simp only [kept, desk, h, Desk.leave, Desk.own]

variable {scope : RowScope}

theorem kept_of_row (h : s.scope = some scope) (hrow : scope.suspended = false) :
    s.kept = scope.configured := by
  simp only [kept, desk, h, hrow, Bool.false_eq_true, if_false, Desk.leave, Desk.own]

theorem kept_of_suspended (h : s.scope = some scope) (hrow : scope.suspended = true) :
    s.kept = s.live := by
  simp only [kept, desk, h, hrow, if_true, Desk.leave, Desk.own]

/-- The settings a suspended scope keeps. -/
def parked (s : Session) : Option ScanSettings :=
  (s.scope.filter fun scope => scope.suspended).map fun scope => scope.configured

theorem parked_of_none (h : s.scope = none) : s.parked = none := by
  rw [parked, h]
  rfl

theorem parked_of_row (h : s.scope = some scope) (hrow : scope.suspended = false) :
    s.parked = none := by
  simp [parked, h, Option.filter, hrow]

theorem parked_of_suspended (h : s.scope = some scope) (hrow : scope.suspended = true) :
    s.parked = some scope.configured := by
  simp [parked, h, Option.filter, hrow]

/-- What the scope keeps fits the options it was captured from. -/
def Captured (s : Session) : Prop :=
  ∀ scope, s.scope = some scope → Fits scope.configured ∧ Fits scope.effective

end Session

variable {operator : ScanSettings}

theorem Session.captured_of_none (h : s.scope = none) (hlive : s.live = operator) :
    s.Captured ∧ s.kept = operator := by
  refine ⟨fun scope hno => ?_, (kept_of_none h).trans hlive⟩
  rw [h] at hno
  cases hno

variable {scope : RowScope}

theorem Session.captured_of_row (h : s.scope = some scope) (hrow : scope.suspended = false)
    (hfits : Fits scope.configured ∧ Fits scope.effective)
    (hoperator : scope.configured = operator) : s.Captured ∧ s.kept = operator := by
  refine ⟨fun scope' hscope' => ?_, (kept_of_row h hrow).trans hoperator⟩
  cases h.symm.trans hscope'
  exact hfits

theorem Session.captured_of_suspended (h : s.scope = some scope) (hrow : scope.suspended = true)
    (hfits : Fits scope.configured ∧ Fits scope.effective) (hlive : s.live = operator) :
    s.Captured ∧ s.kept = operator := by
  refine ⟨fun scope' hscope' => ?_, (kept_of_suspended h hrow).trans hlive⟩
  cases h.symm.trans hscope'
  exact hfits

/-- What the operator last set, after a call other than those that set it aside and take it back:
edits and setters change it, and a resume times the configured decoder again. -/
def noteSettings (s : Session) (operator : ScanSettings) : Call → ScanSettings
  | .configure settings => if s.scope.isNone then (s.restore settings).live else operator
  | .edit settings _ => if s.suspended then (s.restore settings).live else operator
  | .resume retime _ => if s.suspended then configuredRetime retime operator else operator
  | .setSquelch setting => squelchStore setting operator
  | .setAnalogWidth am widthHz => widthStore am widthHz operator
  | .setTonePolicy filter set => { operator with analogToneFilter := filter, analogToneSet := set }
  | .setReceive policy => { operator with receive := policy }
  | _ => operator

/-- What the operator last set, and what that was when the scope was last suspended. -/
structure Operator where
  settings : ScanSettings
  atSuspend : ScanSettings

/-- The operator's settings after a call: a row entered from a suspended scope goes back to those
kept at the suspend. -/
def Operator.note (s : Session) (o : Operator) : Call → Operator
  | .suspend => if s.suspended then o else { o with atSuspend := o.settings }
  | .enter _ _ _ => if s.suspended then { o with settings := o.atSuspend } else o
  | call => { o with settings := noteSettings s o.settings call }

/-- A session keeps what the operator last set, and a suspended scope what that was before. -/
structure Session.Keeps (s : Session) (o : Operator) : Prop where
  kept : s.kept = o.settings
  aside : ∀ settings ∈ s.parked, settings = o.atSuspend

/-- A staged row is put back: the options and the state are as they were. -/
theorem Session.scanModePrepare_eq (mode : Mode) (row : Option OptionValues) (sps : ℤ)
    (allocated : Bool) :
    (s.scanModePrepare power mode row sps allocated).2 = (s.scanModeBegin allocated).2 := by
  rw [Session.scanModePrepare]
  cases hscope : (s.scanModeBegin allocated).2.scope with
  | none => rfl
  | some scope =>
    dsimp only
    split
    · rfl
    · rw [restore_restore, restore_live]

/-- A row in force is set aside for the configured settings. -/
theorem Session.scanModeSuspend_of_row (hscope : s.scope = some scope)
    (hrow : scope.suspended = false) :
    s.scanModeSuspend = (1, { s with scope := some { scope with toScope :=
        { scope.toScope with effective := s.live, suspended := true } } }.restore
          scope.configured) := by
  have hsuspend : ChannelScan.scanModeSuspend scope.toScope s.live =
      ({ scope.toScope with effective := s.live, suspended := true }, scope.configured) := by
    rw [ChannelScan.scanModeSuspend, hrow]
    rfl
  rw [Session.scanModeSuspend, hscope]
  simp only [hrow, Bool.false_eq_true, if_false, hsuspend]

/-- A scope set aside stays there. -/
theorem Session.scanModeSuspend_of_suspended (hscope : s.scope = some scope)
    (hrow : scope.suspended = true) : s.scanModeSuspend = (0, s) := by
  rw [Session.scanModeSuspend, hscope]
  exact if_pos hrow

/-- A row in force is not resumed. -/
theorem Session.scanModeResume_of_row (hscope : s.scope = some scope)
    (hrow : scope.suspended = false) (retime : Option ℤ) (sps : ℤ) :
    s.scanModeResume power retime sps = (0, s) := by
  rw [Session.scanModeResume, hscope]
  exact if_pos hrow

/-- What a resume makes of the row over the configured settings. -/
def resumedRow (power : ℤ → ℚ) (scope : RowScope) (conf : ScanSettings) (sps : ℤ) : ScanSettings :=
  applyOptions power scope.options
    (resumeTargetDecoder conf scope.effective scope.mode scope.modulation sps)

/-- The scope after a resume. -/
def resumedScope (scope : RowScope) (conf row : ScanSettings) : RowScope :=
  { scope with
    toScope := { scope.toScope with
      configured := conf, effective := resumeEffective scope.effective row, suspended := false }
    squelchPending := .settled }

/-- Whether a resumed row is the one from before the suspend. -/
def unchanged (scope : RowScope) (row : ScanSettings) : Bool :=
  settingsEqual (resumeEffective scope.effective row) row false

theorem Session.scanModeResume_of_suspended (hscope : s.scope = some scope)
    (hrow : scope.suspended = true) (retime : Option ℤ) (sps : ℤ) {conf row : ScanSettings}
    (hconf : configuredRetime retime s.live = conf)
    (hresumed : resumedRow power scope conf sps = row) :
    s.scanModeResume power retime sps =
      (if unchanged scope row then 0 else 1,
        ({ s with scope := some (resumedScope scope conf row) }.restore
          (if unchanged scope row then
            resumeEffective scope.effective row else row)).scanSquelchPush) := by
  subst hconf hresumed
  rw [Session.scanModeResume, hscope]
  exact if_neg (by rw [hrow]; exact Bool.noConfusion)

theorem Session.scope_scanSquelchPush (s : Session) : s.scanSquelchPush.scope = s.scope := by
  unfold Session.scanSquelchPush
  split <;> rfl

theorem Session.live_scanSquelchPush (s : Session) : s.scanSquelchPush.live = s.live := by
  unfold Session.scanSquelchPush
  split <;> rfl

/-- A squelch judged against the row's entry leaves the rest of the scope. -/
theorem Session.judgeAgainst_scope (scope : RowScope) (setting : SquelchSetting) :
    (judgeAgainst scope setting).toScope = scope.toScope ∧
      (judgeAgainst scope setting).modulation = scope.modulation := by
  unfold judgeAgainst
  split
  · exact ⟨rfl, rfl⟩
  · exact ⟨rfl, rfl⟩

theorem Session.suspended_of_none (h : s.scope = none) : s.suspended = false := by
  rw [Session.suspended, h]
  rfl

theorem Session.suspended_eq (h : s.scope = some scope) : s.suspended = scope.suspended := by
  rw [Session.suspended, h]
  rfl

theorem Session.parked_congr {t : Session} {scope' : RowScope} (h : s.scope = some scope)
    (h' : t.scope = some scope') (hconf : scope'.configured = scope.configured)
    (hrow : scope'.suspended = scope.suspended) : t.parked = s.parked := by
  simp only [Session.parked, h, h', Option.filter, hrow]
  split
  · exact congrArg some hconf
  · rfl

theorem Session.parked_begin (s : Session) (allocated : Bool) :
    (s.scanModeBegin allocated).2.parked = s.parked := by
  cases hscope : s.scope with
  | some scope => rw [Session.scanModeBegin, hscope]
  | none =>
    rw [Session.scanModeBegin, hscope, parked_of_none hscope]
    cases allocated with
    | false => exact parked_of_none hscope
    | true => rfl

theorem Session.parked_setConfigured (s : Session) (store : ScanSettings → ScanSettings)
    (shadowed : OptionValues → Bool) : (s.setConfigured store shadowed).2.parked = s.parked := by
  cases hscope : s.scope with
  | none =>
    rw [Session.setConfigured, hscope]
    rfl
  | some scope =>
    rw [Session.setConfigured, hscope]
    dsimp only
    cases hrow : scope.suspended with
    | true => rfl
    | false =>
      rw [if_neg Bool.false_ne_true, parked_of_row hscope hrow]
      split
      · exact parked_of_row rfl rfl
      · exact parked_of_row rfl rfl

/-- A call other than a suspend sets nothing aside that was not. -/
theorem Session.parked_perform (s : Session) {call : Call} (hcall : call ≠ .suspend) :
    (s.perform power same call).parked = none ∨ (s.perform power same call).parked = s.parked := by
  cases call with
  | suspend => exact absurd rfl hcall
  | begin allocated => exact .inr (s.parked_begin allocated)
  | prepare mode row sps allocated =>
    rw [Session.perform, scanModePrepare_eq]
    exact .inr (s.parked_begin allocated)
  | enter mode sps allocated =>
    have hbegun := s.parked_begin allocated
    rw [Session.perform, Session.scanModeEnter]
    generalize (s.scanModeBegin allocated).2 = t at hbegun
    cases hscope : t.scope with
    | none => exact .inr hbegun
    | some scope =>
      refine .inl (parked_of_row rfl ?_)
      rw [Session.enteredSquelch]
      split_ifs <;> rfl
  | options values =>
    rw [Session.perform, Session.scanModeOptions]
    cases hscope : s.scope with
    | none => exact .inr rfl
    | some scope =>
      dsimp only
      split
      · exact .inr (parked_congr hscope rfl rfl rfl)
      · exact .inr (parked_congr hscope (scope_scanSquelchSettle _ _) rfl rfl)
  | targetModulation modulation =>
    cases hscope : s.scope with
    | none =>
      refine .inl (parked_of_none ?_)
      rw [Session.perform, Session.scanModeTargetModulation, hscope]
      rfl
    | some scope =>
      have htarget : (s.scanModeTargetModulation modulation).scope =
          some { scope with modulation := modulation } := by
        rw [Session.scanModeTargetModulation, hscope]
        rfl
      exact .inr (parked_congr hscope htarget rfl rfl)
  | resume retime sps =>
    rw [Session.perform]
    cases hscope : s.scope with
    | none =>
      rw [Session.scanModeResume, hscope]
      exact .inr rfl
    | some scope =>
      cases hrow : scope.suspended with
      | false =>
        rw [scanModeResume_of_row hscope hrow]
        exact .inr rfl
      | true =>
        rw [scanModeResume_of_suspended hscope hrow retime sps rfl rfl]
        exact .inl (parked_of_row (scope_scanSquelchPush _) rfl)
  | setSquelch setting =>
    have hset := s.parked_setConfigured (squelchStore setting) fun v => v.has optSquelch
    rw [Session.perform, Session.setConfiguredSquelchSetting]
    generalize s.setConfigured (squelchStore setting) (fun v => v.has optSquelch) = set at hset ⊢
    obtain ⟨stored, t⟩ := set
    dsimp only at hset ⊢
    split
    · rw [← hset]
      cases hscope : t.scope with
      | none => exact .inl rfl
      | some scope =>
        have hjudged := (judgeAgainst_scope scope setting).1
        exact .inr (parked_congr hscope rfl (congrArg Scope.configured hjudged)
          (congrArg Scope.suspended hjudged))
    · exact .inr hset
  | setAnalogWidth am widthHz => exact .inr (s.parked_setConfigured _ _)
  | setTonePolicy filter set => exact .inr (s.parked_setConfigured _ _)
  | setReceive policy =>
    rw [Session.perform, Session.setConfiguredReceive]
    cases hscope : s.scope with
    | none => exact .inr rfl
    | some scope =>
      dsimp only
      cases hrow : scope.suspended with
      | true => exact .inr rfl
      | false => exact .inl (parked_of_row rfl rfl)
  | leave =>
    rw [Session.perform, Session.scanModeLeave]
    cases hscope : s.scope with
    | none => exact .inr rfl
    | some scope => exact .inl (parked_of_none rfl)
  | configure settings =>
    rw [Session.perform]
    split <;> exact .inr rfl
  | edit settings told =>
    rw [Session.perform, Session.editSettings]
    cases hscope : s.scope with
    | none => exact .inr rfl
    | some scope =>
      dsimp only
      split <;> exact .inr rfl

/-- A suspend sets aside what was kept. -/
theorem Session.parked_suspend (hrow : s.suspended = false) :
    ∀ settings ∈ s.scanModeSuspend.2.parked, settings = s.kept := by
  intro settings hsettings
  cases hscope : s.scope with
  | none =>
    rw [Session.scanModeSuspend, hscope, parked_of_none hscope] at hsettings
    cases hsettings
  | some scope =>
    rw [suspended_eq hscope] at hrow
    rw [scanModeSuspend_of_row hscope hrow, parked_of_suspended rfl rfl] at hsettings
    cases hsettings
    exact (kept_of_row hscope hrow).symm

section Calls

variable (h : s.Captured)
include h

theorem Session.Captured.begin (allocated : Bool) :
    (s.scanModeBegin allocated).2.Captured ∧ (s.scanModeBegin allocated).2.kept = s.kept ∧
      (s.scanModeBegin allocated).2.live = s.live := by
  cases hscope : s.scope with
  | some scope =>
    rw [Session.scanModeBegin, hscope]
    exact ⟨h, rfl, rfl⟩
  | none =>
    cases allocated with
    | false =>
      rw [Session.scanModeBegin, hscope]
      exact ⟨h, rfl, rfl⟩
    | true =>
      rw [Session.scanModeBegin, hscope]
      refine ⟨fun scope hscope' => ?_, ?_, rfl⟩
      · cases hscope'
        exact ⟨s.fits_live, s.fits_live⟩
      · rw [kept_of_row rfl rfl, kept_of_none hscope]
        rfl

/-- A row entered leaves the operator's settings where they were, and goes back to those a suspended
scope keeps. -/
theorem Session.Captured.enter (mode : Mode) (sps : ℤ) (allocated : Bool) :
    (s.scanModeEnter power mode sps allocated).2.Captured ∧
      (s.scanModeEnter power mode sps allocated).2.kept = s.parked.getD s.kept := by
  obtain ⟨hbegun, hkept, -⟩ := h.begin allocated
  have haside := s.parked_begin allocated
  rw [Session.scanModeEnter]
  generalize (s.scanModeBegin allocated).2 = t at *
  cases hscope : t.scope with
  | none =>
    rw [← haside, parked_of_none hscope]
    exact ⟨hbegun, hkept⟩
  | some scope =>
    obtain ⟨hconf, heff⟩ := hbegun scope hscope
    have hrow (squelch : SquelchSetting) : (enteredSquelch { scope with
        toScope := (ChannelScan.scanModeEnter power scope.toScope mode sps).1
        modulation := .inherit } scope.suspended squelch).toScope =
          (ChannelScan.scanModeEnter power scope.toScope mode sps).1 := by
      rw [enteredSquelch]
      split_ifs <;> rfl
    refine ⟨fun scope' hscope' => ?_, ?_⟩
    · cases hscope'
      rw [hrow]
      exact ⟨hconf, heff⟩
    · rw [kept_of_row rfl (by rw [hrow]; rfl), hrow, ← hkept, ← haside]
      change scope.configured = t.parked.getD t.kept
      cases hsuspended : scope.suspended with
      | false =>
        rw [parked_of_row hscope hsuspended]
        exact (kept_of_row hscope hsuspended).symm
      | true =>
        rw [parked_of_suspended hscope hsuspended]
        rfl

theorem Session.Captured.of_scope {scope scope' : RowScope} {t : Session}
    (hscope : s.scope = some scope)
    (hscope' : t.scope = some scope') (hconf : scope'.configured = scope.configured)
    (heff : scope'.effective = scope.effective) (hrow : scope'.suspended = scope.suspended)
    (hlive : scope.suspended = true → t.live = s.live) : t.Captured ∧ t.kept = s.kept := by
  refine ⟨fun other hother => ?_, ?_⟩
  · cases hscope'.symm.trans hother
    rw [hconf, heff]
    exact h scope hscope
  · cases hsuspended : scope.suspended with
    | false =>
      rw [kept_of_row hscope' (hrow.trans hsuspended), kept_of_row hscope hsuspended, hconf]
    | true =>
      rw [kept_of_suspended hscope' (hrow.trans hsuspended),
        kept_of_suspended hscope hsuspended, hlive hsuspended]

theorem Session.Captured.options (values : Option OptionValues) :
    (s.scanModeOptions power same values).2.Captured ∧
      (s.scanModeOptions power same values).2.kept = s.kept := by
  rw [Session.scanModeOptions]
  cases hscope : s.scope with
  | none => exact ⟨h, rfl⟩
  | some scope =>
    dsimp only
    split
    · exact h.of_scope hscope rfl rfl rfl rfl fun _ => rfl
    · rename_i hrow
      refine h.of_scope hscope (scope_scanSquelchSettle _ _) rfl rfl rfl fun hno => ?_
      exact absurd hno hrow

theorem Session.Captured.targetModulation (modulation : Modulation) :
    (s.scanModeTargetModulation modulation).Captured ∧
      (s.scanModeTargetModulation modulation).kept = s.kept := by
  cases hscope : s.scope with
  | none =>
    have hsame : s.scanModeTargetModulation modulation = s := by
      rw [Session.scanModeTargetModulation, hscope, Option.map_none, ← hscope]
    rw [hsame]
    exact ⟨h, rfl⟩
  | some scope =>
    have htarget : (s.scanModeTargetModulation modulation).scope =
        some { scope with modulation := modulation } := by
      rw [Session.scanModeTargetModulation, hscope]
      rfl
    exact h.of_scope hscope htarget rfl rfl rfl fun _ => rfl

theorem Session.Captured.suspend : s.scanModeSuspend.2.Captured ∧
    s.scanModeSuspend.2.kept = s.kept ∧ s.scanModeSuspend.2.live = s.kept := by
  cases hscope : s.scope with
  | none =>
    rw [Session.scanModeSuspend, hscope]
    exact ⟨h, rfl, (kept_of_none hscope).symm⟩
  | some scope =>
    obtain ⟨hconf, heff⟩ := h scope hscope
    cases hrow : scope.suspended with
    | true =>
      rw [scanModeSuspend_of_suspended hscope hrow]
      exact ⟨h, rfl, (kept_of_suspended hscope hrow).symm⟩
    | false =>
      rw [scanModeSuspend_of_row hscope hrow, kept_of_row hscope hrow]
      have hlive := live_restore { s with scope := some { scope with toScope :=
        { scope.toScope with effective := s.live, suspended := true } } } hconf
      refine ⟨fun scope' hscope' => ?_, ?_, hlive⟩
      · cases hscope'
        exact ⟨hconf, s.fits_live⟩
      · rw [kept_of_suspended rfl rfl]
        exact hlive

/-- A resume keeps the draft, timed again where that is due. -/
theorem Session.Captured.resume (retime : Option ℤ) (sps : ℤ) :
    (s.scanModeResume power retime sps).2.Captured ∧
      (s.scanModeResume power retime sps).2.kept =
        if s.suspended then configuredRetime retime s.kept else s.kept := by
  cases hscope : s.scope with
  | none =>
    rw [Session.scanModeResume, hscope, suspended_of_none hscope]
    exact ⟨h, rfl⟩
  | some scope =>
    have hsame := suspended_eq hscope
    obtain ⟨-, heff⟩ := h scope hscope
    cases hrow : scope.suspended with
    | false =>
      rw [scanModeResume_of_row hscope hrow, hsame, hrow]
      exact ⟨h, rfl⟩
    | true =>
      have hconf := s.fits_live.configuredRetime retime
      have hresumed : Fits (resumedRow power scope (configuredRetime retime s.live) sps) :=
        (hconf.resumeTargetDecoder _ _ _ _).applyOptions _
      rw [scanModeResume_of_suspended hscope hrow retime sps rfl rfl, hsame, hrow, if_pos rfl,
        kept_of_suspended hscope hrow]
      generalize resumedRow power scope (configuredRetime retime s.live) sps = row at hresumed ⊢
      have hafter := scope_scanSquelchPush
        ({ s with scope := some (resumedScope scope (configuredRetime retime s.live) row) }.restore
          (if unchanged scope row then resumeEffective scope.effective row else row))
      refine ⟨fun scope' hscope' => ?_, kept_of_row hafter rfl⟩
      cases hafter.symm.trans hscope'
      exact ⟨hconf, heff.resumeEffective hresumed⟩

/-- A setter changes the operator's settings, whatever the row shows of them. -/
theorem Session.Captured.setConfigured {store : ScanSettings → ScanSettings}
    (hstore : ∀ {t}, Fits t → Fits (store t)) (shadowed : OptionValues → Bool) :
    (s.setConfigured store shadowed).2.Captured ∧
      (s.setConfigured store shadowed).2.kept = store s.kept := by
  have hlive := live_restore s (hstore s.fits_live)
  rw [Session.setConfigured]
  cases hscope : s.scope with
  | none =>
    rw [kept_of_none hscope]
    refine captured_of_none ?_ hlive
    exact hscope
  | some scope =>
    obtain ⟨hconf, heff⟩ := h scope hscope
    dsimp only
    cases hrow : scope.suspended with
    | true =>
      rw [kept_of_suspended hscope hrow]
      refine captured_of_suspended ?_ hrow ⟨hconf, heff⟩ hlive
      exact hscope
    | false =>
      rw [kept_of_row hscope hrow, if_neg Bool.false_ne_true]
      split
      · exact captured_of_row rfl rfl ⟨hstore hconf, heff⟩ rfl
      · exact captured_of_row rfl rfl ⟨hstore hconf, heff⟩ rfl

theorem Session.Captured.setSquelch (setting : SquelchSetting) :
    (s.setConfiguredSquelchSetting setting).Captured ∧
      (s.setConfiguredSquelchSetting setting).kept = squelchStore setting s.kept := by
  have hset := h.setConfigured (fun ht => Fits.squelchStore ht setting) fun v => v.has optSquelch
  rw [Session.setConfiguredSquelchSetting]
  generalize (s.setConfigured (squelchStore setting) fun v => v.has optSquelch) = set at hset ⊢
  obtain ⟨stored, t⟩ := set
  obtain ⟨hcaptured, hkept⟩ := hset
  dsimp only at hcaptured hkept ⊢
  split
  · rw [← hkept]
    cases hscope : t.scope with
    | none =>
      rw [kept_of_none hscope]
      exact captured_of_none rfl rfl
    | some scope =>
      have hjudged := (judgeAgainst_scope scope setting).1
      exact hcaptured.of_scope hscope rfl (congrArg Scope.configured hjudged)
        (congrArg Scope.effective hjudged) (congrArg Scope.suspended hjudged) fun _ => rfl
  · exact ⟨hcaptured, hkept⟩

theorem Session.Captured.setReceive (policy : Receive) :
    (s.setConfiguredReceive policy).Captured ∧
      (s.setConfiguredReceive policy).kept = { s.kept with receive := policy } := by
  have hfits : Fits { s.live with receive := policy } := { s.fits_live with }
  have hlive := live_restore s hfits
  rw [Session.setConfiguredReceive]
  cases hscope : s.scope with
  | none =>
    rw [kept_of_none hscope]
    refine captured_of_none ?_ hlive
    exact hscope
  | some scope =>
    obtain ⟨hconf, heff⟩ := h scope hscope
    dsimp only
    cases hrow : scope.suspended with
    | true =>
      rw [kept_of_suspended hscope hrow]
      refine captured_of_suspended ?_ hrow ⟨hconf, heff⟩ hlive
      exact hscope
    | false =>
      rw [kept_of_row hscope hrow, if_neg Bool.false_ne_true]
      exact captured_of_row rfl rfl ⟨{ hconf with }, heff⟩ rfl

/-- A leave gives back what was kept. -/
theorem Session.Captured.leave : (s.scanModeLeave same).Captured ∧
    (s.scanModeLeave same).kept = s.kept ∧ (s.scanModeLeave same).live = s.kept := by
  rw [Session.scanModeLeave]
  cases hscope : s.scope with
  | none => exact ⟨h, rfl, (kept_of_none hscope).symm⟩
  | some scope =>
    obtain ⟨hconf, -⟩ := h scope hscope
    have hlive : (if scope.suspended then
        s.scanSquelchSettle same { scope with squelchPending := .unknown }
          (squelchSettingOfOpts s.live)
        else (s.restore scope.configured).scanSquelchSettle same scope
          (squelchSettingOfOpts s.live)).live = s.kept := by
      cases hrow : scope.suspended with
      | true =>
        rw [if_pos rfl, live_scanSquelchSettle, kept_of_suspended hscope hrow]
      | false =>
        rw [if_neg Bool.false_ne_true, live_scanSquelchSettle,
          live_restore _ hconf, kept_of_row hscope hrow]
    dsimp only
    generalize (if scope.suspended = true then _ else _ : Session) = left at hlive ⊢
    have hleft := captured_of_none (s := { left with scope := none }) rfl hlive
    exact ⟨hleft.1, hleft.2, hlive⟩

theorem Session.Captured.editSettings (settings : ScanSettings) (told : Option SquelchSetting) :
    (s.editSettings settings told).Captured ∧
      (s.editSettings settings told).kept =
        if s.suspended then (s.restore settings).live else s.kept := by
  rw [Session.editSettings]
  cases hscope : s.scope with
  | none =>
    rw [suspended_of_none hscope]
    exact ⟨h, rfl⟩
  | some scope =>
    rw [suspended_eq hscope]
    dsimp only
    cases hrow : scope.suspended with
    | true => exact ⟨h, kept_of_suspended hscope hrow⟩
    | false => exact ⟨h, rfl⟩

/-- The call leaves the operator's settings as a note of it says. -/
theorem Session.Captured.kept_perform {o : Operator} (hkeeps : s.Keeps o) (call : Call) :
    (s.perform power same call).Captured ∧
      (s.perform power same call).kept = (o.note s call).settings := by
  have hnoted : s.kept = o.settings := hkeeps.kept
  cases call with
  | begin allocated =>
    obtain ⟨hcaptured, hkept, -⟩ := h.begin allocated
    exact ⟨hcaptured, hkept.trans hnoted⟩
  | enter mode sps allocated =>
    obtain ⟨hcaptured, hkept⟩ : (s.scanModeEnter power mode sps allocated).2.Captured ∧ _ :=
      h.enter mode sps allocated
    refine ⟨hcaptured, hkept.trans ?_⟩
    rw [Operator.note]
    cases hscope : s.scope with
    | none =>
      rw [parked_of_none hscope, Session.suspended, hscope]
      exact hnoted
    | some scope =>
      rw [suspended_eq hscope]
      cases hrow : scope.suspended with
      | false =>
        rw [parked_of_row hscope hrow]
        exact hnoted
      | true =>
        have haside := parked_of_suspended hscope hrow
        rw [haside]
        exact hkeeps.aside _ haside
  | options values =>
    obtain ⟨hcaptured, hkept⟩ := h.options values
    exact ⟨hcaptured, hkept.trans hnoted⟩
  | targetModulation modulation =>
    obtain ⟨hcaptured, hkept⟩ := h.targetModulation modulation
    exact ⟨hcaptured, hkept.trans hnoted⟩
  | prepare mode row sps allocated =>
    obtain ⟨hcaptured, hkept, -⟩ := h.begin allocated
    rw [Session.perform, scanModePrepare_eq]
    exact ⟨hcaptured, hkept.trans hnoted⟩
  | suspend =>
    obtain ⟨hcaptured, hkept, -⟩ := h.suspend
    refine ⟨hcaptured, (hkept.trans hnoted).trans ?_⟩
    rw [Operator.note]
    split <;> rfl
  | resume retime sps =>
    obtain ⟨hcaptured, hkept⟩ := h.resume retime sps
    rw [hnoted] at hkept
    exact ⟨hcaptured, hkept⟩
  | setSquelch setting =>
    obtain ⟨hcaptured, hkept⟩ := h.setSquelch setting
    rw [hnoted] at hkept
    exact ⟨hcaptured, hkept⟩
  | setAnalogWidth am widthHz =>
    obtain ⟨hcaptured, hkept⟩ := h.setConfigured (fun ht => Fits.widthStore ht am widthHz)
      fun v => v.widthOf am
    rw [hnoted] at hkept
    exact ⟨hcaptured, hkept⟩
  | setTonePolicy filter set =>
    have hfits {t : ScanSettings} (ht : Fits t) :
        Fits { t with analogToneFilter := filter, analogToneSet := set } := { ht with }
    obtain ⟨hcaptured, hkept⟩ := h.setConfigured hfits fun v => v.has optTone
    rw [hnoted] at hkept
    exact ⟨hcaptured, hkept⟩
  | setReceive policy =>
    obtain ⟨hcaptured, hkept⟩ := h.setReceive policy
    rw [hnoted] at hkept
    exact ⟨hcaptured, hkept⟩
  | leave =>
    have hleft : (s.scanModeLeave same).Captured ∧ (s.scanModeLeave same).kept = s.kept ∧
        (s.scanModeLeave same).live = s.kept := h.leave
    exact ⟨hleft.1, hleft.2.1.trans hnoted⟩
  | configure settings =>
    cases hscope : s.scope with
    | none =>
      simp only [Session.perform, Operator.note, noteSettings, hscope, Option.isNone_none, if_true]
      exact ⟨fun scope hno => absurd (hscope.symm.trans hno) nofun, kept_of_none hscope⟩
    | some scope =>
      simp only [Session.perform, Operator.note, noteSettings, hscope]
      exact ⟨h, hnoted⟩
  | edit settings told =>
    obtain ⟨hcaptured, hkept⟩ := h.editSettings settings told
    rw [hnoted] at hkept
    exact ⟨hcaptured, hkept⟩

/-- Every call keeps the session in step with what the operator last set. -/
theorem Session.Captured.perform {o : Operator} (hkeeps : s.Keeps o) (call : Call) :
    (s.perform power same call).Captured ∧ (s.perform power same call).Keeps (o.note s call) := by
  obtain ⟨hcaptured, hkept⟩ : (s.perform power same call).Captured ∧ _ :=
    h.kept_perform hkeeps call
  refine ⟨hcaptured, hkept, fun settings hsettings => ?_⟩
  by_cases hcall : call = .suspend
  · subst hcall
    rw [Operator.note]
    cases hrow : s.suspended with
    | true =>
      rw [Session.suspended, Option.any_eq_true] at hrow
      obtain ⟨scope, hscope, hrow⟩ := hrow
      rw [Session.perform, scanModeSuspend_of_suspended hscope hrow] at hsettings
      exact hkeeps.aside settings hsettings
    | false => exact (parked_suspend hrow settings hsettings).trans hkeeps.kept
  · have hsame : (o.note s call).atSuspend = o.atSuspend := by
      cases call with
      | suspend => exact absurd rfl hcall
      | enter mode sps allocated =>
        rw [Operator.note]
        split <;> rfl
      | _ => rfl
    rw [hsame]
    have hparked : (s.perform power same call).parked = none ∨ _ := s.parked_perform hcall
    rcases hparked with hnone | hold
    · rw [hnone] at hsettings
      cases hsettings
    · rw [hold] at hsettings
      exact hkeeps.aside settings hsettings

theorem Session.Captured.next (call : Call) : (s.perform power same call).Captured := by
  have hself : s.Keeps ⟨s.kept, s.parked.getD s.kept⟩ := by
    refine ⟨rfl, fun settings hsettings => ?_⟩
    rw [Option.mem_def] at hsettings
    rw [hsettings]
    rfl
  exact (h.perform hself call).1

end Calls

end DsdNeo.ChannelScan
