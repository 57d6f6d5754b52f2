import DsdNeo.Models.ChannelScan.Resumed

/-!
# No row leaks into the operator's settings

Over any run of scan-mode calls, a leave and a suspend give back what the operator last set, a
preparation changes nothing, and a suspend taken back at once is no change of the row.
-/

namespace DsdNeo.ChannelScan

open SignalSearch Session

variable {power : ℤ → ℚ} {same : ℚ}

/-- What the operator last set, after a run of calls. -/
def Session.operatorAfter (power : ℤ → ℚ) (same : ℚ) (s : Session) (o : Operator) :
    List Call → Operator
  | [] => o
  | call :: calls =>
    Session.operatorAfter power same (s.perform power same call) (o.note s call) calls

variable {s : Session}

theorem Session.captured_of_bare (h : s.scope = none) : s.Captured :=
  (captured_of_none h rfl).1

theorem Session.Captured.keeps_run (h : s.Captured) {o : Operator} (hkeeps : s.Keeps o)
    (calls : List Call) : (s.run power same calls).Keeps (s.operatorAfter power same o calls) := by
  induction calls generalizing s o with
  | nil => exact hkeeps
  | cons call calls ih =>
    obtain ⟨hnext, hkept⟩ : (s.perform power same call).Captured ∧ _ := h.perform hkeeps call
    exact ih hnext hkept

/-- What the operator set before a scope is there: nothing was suspended yet. -/
def Operator.start (s : Session) : Operator := ⟨s.live, s.live⟩

theorem Session.keeps_of_bare (h : s.scope = none) : s.Keeps (Operator.start s) where
  kept := kept_of_none h
  aside settings hsettings := by
    rw [parked_of_none h] at hsettings
    cases hsettings

/-- The squelch in force is that of the row's options over the configured one. -/
def Session.SquelchOfRow (power : ℤ → ℚ) (s : Session) (scope : RowScope) : Prop :=
  s.live.rtlSquelchLevel = (applyOptions power scope.options scope.configured).rtlSquelchLevel ∧
    s.live.rtlSquelchMarginDb =
      (applyOptions power scope.options scope.configured).rtlSquelchMarginDb

theorem Session.Captured.squelchOfRow_options (h : s.Captured) {scope : RowScope}
    (hscope : s.scope = some scope) (hrow : scope.suspended = false)
    (values : Option OptionValues) :
    ∃ scope', (s.scanModeOptions power same values).2.scope = some scope' ∧
      scope'.suspended = false ∧
      (s.scanModeOptions power same values).2.SquelchOfRow power scope' := by
  obtain ⟨hconf, -⟩ := h scope hscope
  have hnot : ¬scope.suspended = true := ne_true_of_eq_false hrow
  have hfits : Fits (ChannelScan.scanModeOptions power scope.toScope s.live values).2 := by
    rw [ChannelScan.scanModeOptions, if_neg hnot]
    exact ((s.fits_live.copyRowOpts hconf).copyWidths _).applyOptions _
  rw [Session.scanModeOptions, hscope]
  dsimp only
  split
  · rename_i hno
    exact absurd hno hnot
  · refine ⟨_, scope_scanSquelchSettle _ _, hrow, ?_⟩
    rw [Session.SquelchOfRow, live_scanSquelchSettle, live_restore _ hfits,
      ChannelScan.scanModeOptions, if_neg hnot]
    exact ⟨rfl, rfl⟩

theorem Session.Captured.squelchOfRow_entered (h : s.Captured) (mode : Mode) (sps : ℤ)
    (allocated : Bool) (values : Option OptionValues) {scope : RowScope}
    (hscope : ((s.scanModeEnter power mode sps allocated).2.scanModeOptions power same
      values).2.scope = some scope) :
    scope.suspended = false ∧
      ((s.scanModeEnter power mode sps allocated).2.scanModeOptions power same
        values).2.SquelchOfRow power scope := by
  have hentered : (s.scanModeEnter power mode sps allocated).2.Captured :=
    (h.enter mode sps allocated).1
  cases hbegun : (s.scanModeBegin allocated).2.scope with
  | none =>
    have hstays : s.scanModeEnter power mode sps allocated =
        (-1, (s.scanModeBegin allocated).2) := by
      rw [Session.scanModeEnter, hbegun]
    rw [hstays, Session.scanModeOptions, hbegun] at hscope
    exact absurd (hbegun.symm.trans hscope) (Option.some_ne_none _).symm
  | some begun =>
    have hrow : ∃ row, (s.scanModeEnter power mode sps allocated).2.scope = some row ∧
        row.suspended = false := by
      rw [Session.scanModeEnter, hbegun]
      refine ⟨_, rfl, ?_⟩
      rw [Session.enteredSquelch]
      split_ifs <;> rfl
    obtain ⟨row, hsome, hrow⟩ := hrow
    obtain ⟨scope', hscope', hinstalled⟩ := hentered.squelchOfRow_options hsome hrow values
    cases hscope'.symm.trans hscope
    exact hinstalled

/-- A suspend taken back at once. -/
def Session.takenBack (power : ℤ → ℚ) (s : Session) (retime : Option ℤ) (sps : ℤ) : ℤ × Session :=
  s.scanModeSuspend.2.scanModeResume power retime sps

theorem Session.takenBack_of_none (h : s.scope = none) (retime : Option ℤ) (sps : ℤ) :
    s.takenBack power retime sps = (0, s) := by
  have hstays : s.scanModeSuspend = (0, s) := by rw [Session.scanModeSuspend, h]
  rw [Session.takenBack, hstays, Session.scanModeResume, h]

theorem Session.Installed.takenBack (h : s.Installed power) (hcaptured : s.Captured)
    (hrow : s.suspended = false) (retime : Option ℤ) (sps : ℤ) :
    (s.takenBack power retime sps).1 = 0 ∧
      squelchInUse (s.takenBack power retime sps).2.live = squelchInUse s.live := by
  cases hscope : s.scope with
  | none =>
    rw [takenBack_of_none hscope]
    exact ⟨rfl, rfl⟩
  | some scope =>
    have hsame : s.suspended = scope.suspended := by rw [Session.suspended, hscope]; rfl
    have hrow' : scope.suspended = false := hsame.symm.trans hrow
    refine ⟨?_, h.squelchInUse_resume hcaptured hscope hrow' retime sps⟩
    rw [Session.takenBack, h.resume_suspend hcaptured hscope hrow' retime sps rfl]

/-- What the operator last set is what a leave or a suspend gives back, where a row entered from a
suspended scope goes back to the settings kept at the suspend; a preparation changes nothing; and a
suspend taken back is no change of the row while its target's modulation is not set: of its settings
right after they were installed, and later of all but the half of the squelch its mode does not
read. -/
theorem row_stays_out_of_settings (power : ℤ → ℚ) (same : ℚ) {s₀ : Session}
    (hbare : s₀.scope = none) (calls : List Call) :
    let s := s₀.run power same calls
    ((s.scanModeLeave same).live =
          (s₀.operatorAfter power same (Operator.start s₀) calls).settings ∧
        s.scanModeSuspend.2.live =
          (s₀.operatorAfter power same (Operator.start s₀) calls).settings) ∧
      (∀ mode row sps allocated,
        (s.scanModePrepare power mode row sps allocated).2.opts = s.opts ∧
          (s.scanModePrepare power mode row sps allocated).2.state = s.state) ∧
      ∀ mode sps allocated values, ∀ retime sps',
        (let t := s.run power same [.enter mode sps allocated, .options values];
          (t.takenBack power retime sps').1 = 0 ∧ (t.takenBack power retime sps').2.opts = t.opts ∧
            (t.takenBack power retime sps').2.state = t.state) ∧
          ∀ later : List Call, (∀ call ∈ later, call.Plain) →
            let t := s.run power same (.enter mode sps allocated :: .options values :: later);
            t.suspended = false →
              (t.takenBack power retime sps').1 = 0 ∧
                squelchInUse (t.takenBack power retime sps').2.live = squelchInUse t.live := by
  have hstart : s₀.Captured := captured_of_bare hbare
  intro s
  have hcaptured : s.Captured := hstart.run calls
  have hkeeps : s.Keeps (s₀.operatorAfter power same (Operator.start s₀) calls) :=
    hstart.keeps_run (keeps_of_bare hbare) calls
  refine ⟨?_, fun mode row sps allocated => ?_,
    fun mode sps allocated values retime sps' => ⟨?_, fun later hlater => ?_⟩⟩
  · rw [← hkeeps.kept]
    exact ⟨hcaptured.leave.2.2, hcaptured.suspend.2.2⟩
  · rw [scanModePrepare_eq, Session.scanModeBegin]
    cases s.scope with
    | some scope => exact ⟨rfl, rfl⟩
    | none => cases allocated <;> exact ⟨rfl, rfl⟩
  · intro t
    have hentered : (s.scanModeEnter power mode sps allocated).2.Captured :=
      (hcaptured.enter mode sps allocated).1
    have ht : t.Captured := (hentered.options values).1
    have hinstalled : t.Installed power :=
      (hcaptured.installed_enter mode sps allocated).options hentered values
    cases hscope : t.scope with
    | none =>
      rw [takenBack_of_none hscope]
      exact ⟨rfl, rfl, rfl⟩
    | some scope =>
      obtain ⟨hrow, hlevel, hmargin⟩ :=
        hcaptured.squelchOfRow_entered mode sps allocated values hscope
      refine ⟨?_, hinstalled.resume_exactly ht hscope hrow hlevel hmargin retime sps'⟩
      rw [Session.takenBack, hinstalled.resume_suspend ht hscope hrow retime sps' rfl]
  · intro t hrow
    have hentered : (s.scanModeEnter power mode sps allocated).2.Captured :=
      (hcaptured.enter mode sps allocated).1
    have hinstalled : t.Installed power :=
      ((hcaptured.installed_enter mode sps allocated).options hentered values).run
        (hentered.options values).1 hlater
    have ht : t.Captured := (hentered.options values).1.run later
    exact hinstalled.takenBack ht hrow retime sps'

/-- Settings an operator edits while the scope is suspended. -/
def invertedSettings : ScanSettings := { radioSettings with invertedDmr := 1 }

/-- An edit under a row, which the row then comes back over. -/
def editedUnderRow : List Call :=
  [.enter .dmr 10 true, .options (some autoSquelch), .suspend, .edit invertedSettings none,
    .resume none 10]

/-- An edit under a suspended row is what a leave gives back. -/
theorem row_stays_out_of_settings_edited :
    ((radioSession.run (fun _ => 1) 0 editedUnderRow).scanModeLeave 0).live = invertedSettings := by
  have hbare : radioSession.scope = none := rfl
  have hleft := (row_stays_out_of_settings (fun _ => 1) 0 hbare editedUnderRow).1.1
  exact hleft.trans rfl

/-- A target's modulation comes with the resume; a row entered from a suspended scope drops the
edit; and a level set under a row with a squelch of its own comes with the resume. -/
theorem row_leaks :
    (let t := radioSession.run (fun _ => 1) 0
        [.enter .p25 10 true, .options none, .targetModulation .cqpsk];
      (t.takenBack (fun _ => 1) none 10).1 = 1 ∧ t.opts.modQpsk = 0 ∧
        (t.takenBack (fun _ => 1) none 10).2.opts.modQpsk = 1) ∧
      (let t := radioSession.run (fun _ => 1) 0
          [.enter .dmr 10 true, .options none, .suspend, .edit invertedSettings none,
            .enter .dmr 10 true];
        (t.scanModeLeave 0).opts.invertedDmr = 0) ∧
      let t := radioSession.run (fun _ => 1) 0
        [.enter .dmr 10 true, .options (some autoSquelch), .setSquelch (squelchSettingOfLevel 1)];
      t.opts.rtlSquelchLevel = 0 ∧
        (t.takenBack (fun _ => 1) none 10).2.opts.rtlSquelchLevel = 1 := by
  refine ⟨⟨?_, ?_, ?_⟩, ?_, ?_, ?_⟩
  · decide
  · decide
  · decide
  · decide
  · rfl
  · rfl

end DsdNeo.ChannelScan
