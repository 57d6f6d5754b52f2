import DsdNeo.Models.ChannelScan.RowScope

/-!
# The demodulator's squelch follows the scan scope

Between calls the demodulator holds opts' squelch, or, where a row was entered and its options
are still to come, the squelch from before the entry. What it holds is open only while the scope
is suspended, and after a row was entered from there.
-/

namespace DsdNeo.ChannelScan

open SignalSearch

variable {power : ℤ → ℚ} {same : ℚ}

theorem squelchSettingEqual_self (hsame : 0 ≤ same) (a : SquelchSetting) :
    squelchSettingEqual same a a = true := by
  have hscale : 0 ≤ same * |a.level| := mul_nonneg hsame (abs_nonneg a.level)
  simp [squelchSettingEqual, hscale]

theorem mode_of_squelchSettingEqual {a b : SquelchSetting}
    (h : squelchSettingEqual same a b = true) : a.mode = b.mode := by
  by_contra hne
  rw [squelchSettingEqual, if_pos hne] at h
  cases h

/-- The comparison is taken for equality: settings equal to one setting are equal. -/
structure ComparesAsEquality (same : ℚ) : Prop where
  nonneg : 0 ≤ same
  trans : ∀ {a b c}, squelchSettingEqual same a b = true → squelchSettingEqual same b c = true →
    squelchSettingEqual same a c = true

theorem squelchSettingEqual_zero_trans {a b c : SquelchSetting}
    (hab : squelchSettingEqual 0 a b = true) (hbc : squelchSettingEqual 0 b c = true) :
    squelchSettingEqual 0 a c = true := by
  have hmode := mode_of_squelchSettingEqual hab
  have hmode' := mode_of_squelchSettingEqual hbc
  have level_eq {x y : ℚ} : |x - y| ≤ 0 ↔ x = y := by rw [abs_nonpos_iff, sub_eq_zero]
  cases hd : isDynamic b.mode with
  | true => simp_all [squelchSettingEqual]
  | false =>
    cases ha : squelchIsOff a.level <;> cases hb : squelchIsOff b.level <;>
      cases hc : squelchIsOff c.level <;> simp_all [squelchSettingEqual]

/-- With no tolerance it is equality of what a mode reads. -/
theorem comparesAsEquality_zero : ComparesAsEquality 0 :=
  ⟨le_rfl, squelchSettingEqual_zero_trans⟩

theorem isDynamic_squelchSettingDynamic (mode margin : ℤ) :
    isDynamic (squelchSettingDynamic mode margin).mode = true := by
  rw [squelchSettingDynamic]
  split
  · rfl
  · rfl

theorem mode_squelchSettingDynamic {mode : ℤ} (h : isDynamic mode = true) (margin : ℤ) :
    (squelchSettingDynamic mode margin).mode = mode := by
  rw [isDynamic, Bool.or_eq_true, beq_iff_eq, beq_iff_eq] at h
  rcases h with rfl | rfl
  · rfl
  · rfl

theorem squelchSettingEqual_store {setting : SquelchSetting} (s : ScanSettings) {t : ScanSettings}
    (h : squelchSettingEqual same setting (squelchSettingOfOpts t) = true) :
    squelchSettingEqual same (squelchSettingOfOpts (squelchStore setting s))
      (squelchSettingOfOpts t) = true := by
  have hmode := mode_of_squelchSettingEqual h
  cases hd : isDynamic setting.mode with
  | true =>
    have hstored : squelchSettingOfOpts (squelchStore setting s) =
        squelchSettingDynamic setting.mode setting.marginDb := by
      simp only [squelchStore, hd, if_true, squelchSettingOfOpts]
    have hmode' := mode_squelchSettingDynamic hd setting.marginDb
    have hmargin : (squelchSettingDynamic setting.mode setting.marginDb).marginDb =
        setting.marginDb := setting.inRange
    rw [hstored]
    simpa [squelchSettingEqual, hmode', hmargin, hd] using h
  | false =>
    have hlevel : setting.mode = squelchLevel := by
      rw [hmode, squelchSettingOfOpts] at hd ⊢
      split at hd
      · rw [isDynamic_squelchSettingDynamic] at hd
        cases hd
      · rename_i ht
        rw [if_neg ht]
        rfl
    have hstored : squelchSettingOfOpts (squelchStore setting s) =
        squelchSettingOfLevel setting.level := by
      simp only [squelchStore, hd, Bool.false_eq_true, if_false, squelchSettingOfOpts,
        isDynamic_squelchLevel, squelchSettingOfLevel]
      split_ifs <;> rfl
    rw [hstored]
    by_cases hon : 0 < setting.level
    · have hsame : squelchSettingEqual same (squelchSettingOfLevel setting.level)
          (squelchSettingOfOpts t) =
          squelchSettingEqual same setting (squelchSettingOfOpts t) := by
        simp [squelchSettingEqual, squelchSettingOfLevel, hon, hlevel, isDynamic_squelchLevel]
      rw [hsame, h]
    · have hoff : squelchIsOff setting.level = true := by simpa [squelchIsOff] using hon
      have hoff' : squelchIsOff (squelchSettingOfLevel setting.level).level = true := by
        simp [squelchSettingOfLevel, hon, squelchIsOff]
      have hmode' : (squelchSettingOfLevel setting.level).mode = squelchLevel := rfl
      simpa [squelchSettingEqual, hoff, hoff', hlevel, hmode', isDynamic_squelchLevel] using h

/-- What the demodulator holds while a scope is not suspended. -/
def Holds (same : ℚ) (demod : SquelchSetting) (live : ScanSettings) (scope : RowScope) : Prop :=
  match scope.squelchPending with
  | .settled => squelchSettingEqual same demod (squelchSettingOfOpts live) = true
  | .entered =>
    ∀ t, squelchSettingEqual same scope.squelchEnteredFrom (squelchSettingOfOpts t) = true →
      squelchSettingEqual same demod (squelchSettingOfOpts t) = true
  | .unknown => True

theorem Holds.congr {demod : SquelchSetting} {live live' : ScanSettings} {scope : RowScope}
    (h : Holds same demod live scope)
    (hlive : squelchSettingOfOpts live' = squelchSettingOfOpts live) :
    Holds same demod live' scope := by
  rw [Holds] at h ⊢
  rw [hlive]
  exact h

namespace Session

variable {s : Session}

theorem squelchSettingOfOpts_restore (s : Session) (saved : ScanSettings) :
    squelchSettingOfOpts (s.restore saved).live = squelchSettingOfOpts saved := rfl

/-- The demodulator holds opts' squelch. -/
def Told (same : ℚ) (s : Session) : Prop :=
  squelchSettingEqual same s.demod (squelchSettingOfOpts s.live) = true

/-- On a radio, the demodulator holds what the scope takes it to hold. -/
structure Follows (same : ℚ) (s : Session) : Prop where
  radio : s.opts.audioInRtl = true
  bare : s.scope = none → s.Told same
  held : ∀ scope, s.scope = some scope → scope.suspended = false → Holds same s.demod s.live scope

open Follows

theorem told_tell (hsame : 0 ≤ same) (s : Session) : s.tell.Told same :=
  squelchSettingEqual_self hsame _

theorem scanSquelchPush_eq (hradio : s.opts.audioInRtl = true) : s.scanSquelchPush = s.tell := by
  rw [scanSquelchPush, if_pos hradio]

variable {scope : RowScope}

theorem told_scanSquelchSettle (hsame : 0 ≤ same) (hradio : s.opts.audioInRtl = true)
    {held : SquelchSetting} (hsettled : scope.squelchPending = .settled →
      squelchSettingEqual same held (squelchSettingOfOpts s.live) = true → s.Told same)
    (hentered : scope.squelchPending = .entered →
      squelchSettingEqual same scope.squelchEnteredFrom (squelchSettingOfOpts s.live) = true →
      s.Told same) : (s.scanSquelchSettle same scope held).Told same := by
  have hpush (scope : Option RowScope) :
      Session.Told same (scanSquelchPush { s with scope := scope }) := by
    rw [scanSquelchPush_eq (s := { s with scope := scope }) hradio]
    exact told_tell hsame _
  have hstays (h : s.Told same) (scope : Option RowScope) :
      Session.Told same { s with scope := scope } := h
  cases hpending : scope.squelchPending with
  | unknown =>
    rw [scanSquelchSettle]
    simp only [hpending, decide_true, Bool.true_or, if_true]
    exact hpush _
  | settled =>
    cases hequal : squelchSettingEqual same held (squelchSettingOfOpts s.live) with
    | true =>
      simpa [scanSquelchSettle, hpending, hequal] using hstays (hsettled hpending hequal) _
    | false =>
      simpa [scanSquelchSettle, hpending, hequal] using hpush _
  | entered =>
    cases hequal : squelchSettingEqual same scope.squelchEnteredFrom
        (squelchSettingOfOpts s.live) with
    | true =>
      simpa [scanSquelchSettle, hpending, hequal] using hstays (hentered hpending hequal) _
    | false =>
      simpa [scanSquelchSettle, hpending, hequal] using hpush _

theorem live_scanSquelchSettle (scope : RowScope) (held : SquelchSetting) :
    (s.scanSquelchSettle same scope held).live = s.live := by
  simp only [scanSquelchSettle, scanSquelchPush]
  split_ifs <;> rfl

theorem opts_scanSquelchSettle (scope : RowScope) (held : SquelchSetting) :
    (s.scanSquelchSettle same scope held).opts = s.opts := by
  simp only [scanSquelchSettle, scanSquelchPush]
  split_ifs <;> rfl

theorem scope_scanSquelchSettle (scope : RowScope) (held : SquelchSetting) :
    (s.scanSquelchSettle same scope held).scope =
      some { scope with squelchPending := .settled } := by
  simp only [scanSquelchSettle, scanSquelchPush]
  split_ifs <;> rfl

theorem pushes_scanSquelchSettle (scope : RowScope) (held : SquelchSetting) :
    (s.scanSquelchSettle same scope held).pushes ≤ s.pushes + 1 := by
  simp only [scanSquelchSettle, scanSquelchPush]
  split_ifs <;> simp [tell]

theorem Follows.of_scope (hradio : s.opts.audioInRtl = true) (hscope : s.scope = some scope)
    (hheld : scope.suspended = false → Holds same s.demod s.live scope) : s.Follows same where
  radio := hradio
  bare hnone := by
    rw [hscope] at hnone
    cases hnone
  held scope' hscope' := by
    rw [hscope] at hscope'
    cases hscope'
    exact hheld

theorem Follows.of_bare (hradio : s.opts.audioInRtl = true) (hscope : s.scope = none)
    (htold : s.Told same) : s.Follows same where
  radio := hradio
  bare _ := htold
  held scope hscope' := by
    rw [hscope] at hscope'
    cases hscope'

theorem Follows.told_settle (h : s.Follows same) (hsame : ComparesAsEquality same)
    (scope' : RowScope) (hscope : s.scope = some scope) (hrow : scope.suspended = false)
    (hpending : scope'.squelchPending = scope.squelchPending)
    (hfrom : scope'.squelchEnteredFrom = scope.squelchEnteredFrom) (row : ScanSettings) :
    ((s.restore row).scanSquelchSettle same scope' (squelchSettingOfOpts s.live)).Told same := by
  have hheld := h.held scope hscope hrow
  refine told_scanSquelchSettle (s := s.restore row) hsame.nonneg h.radio (fun hsettled hequal =>
    ?_) fun hentered hequal => ?_
  · rw [Holds, ← hpending, hsettled] at hheld
    exact hsame.trans hheld hequal
  · rw [Holds, ← hpending, hentered] at hheld
    exact hheld _ (hfrom ▸ hequal)

theorem Follows.begin (h : s.Follows same) (allocated : Bool) :
    (s.scanModeBegin allocated).2.Follows same := by
  cases hscope : s.scope with
  | some scope =>
    rw [scanModeBegin, hscope]
    exact h
  | none =>
    cases allocated with
    | false =>
      rw [scanModeBegin, hscope]
      exact h
    | true =>
      rw [scanModeBegin, hscope]
      exact of_scope h.radio rfl fun _ => h.bare hscope

/-- An entered row leaves the demodulator with what opts held before. -/
theorem holds_enteredSquelch {demod : SquelchSetting} {live live' : ScanSettings}
    (hsame : ComparesAsEquality same) {wasSuspended : Bool}
    (hheld : wasSuspended = false → Holds same demod live scope) :
    Holds same demod live' (enteredSquelch scope wasSuspended (squelchSettingOfOpts live)) := by
  cases wasSuspended with
  | true => trivial
  | false =>
    have hheld := hheld rfl
    rw [Holds] at hheld
    cases hpending : scope.squelchPending with
    | settled =>
      rw [hpending] at hheld
      rw [enteredSquelch, hpending]
      exact fun t => hsame.trans hheld
    | entered =>
      rw [hpending] at hheld
      rw [enteredSquelch, hpending, Holds, if_neg nofun, if_neg nofun, hpending]
      exact hheld
    | unknown =>
      rw [enteredSquelch, hpending, Holds, if_neg nofun, if_neg nofun, hpending]
      trivial

theorem Follows.enter (h : s.Follows same) (hsame : ComparesAsEquality same) (mode : Mode)
    (sps : ℤ) (allocated : Bool) : (s.scanModeEnter power mode sps allocated).2.Follows same := by
  have hbegun := h.begin allocated
  rw [Session.scanModeEnter]
  generalize (s.scanModeBegin allocated).2 = s at hbegun ⊢
  cases hscope : s.scope with
  | none => exact hbegun
  | some scope =>
    refine of_scope hbegun.radio rfl fun _ => holds_enteredSquelch hsame fun hrow => ?_
    exact hbegun.held scope hscope hrow

theorem Follows.options (h : s.Follows same) (hsame : ComparesAsEquality same)
    (values : Option OptionValues) : (s.scanModeOptions power same values).2.Follows same := by
  rw [Session.scanModeOptions]
  cases hscope : s.scope with
  | none => exact h
  | some scope =>
    cases hrow : scope.suspended with
    | true =>
      have hrow' : (ChannelScan.scanModeOptions power scope.toScope s.live values).1.suspended =
          true := hrow
      simp only [hrow', if_true]
      exact of_scope h.radio rfl fun hno => absurd (hrow'.symm.trans hno) nofun
    | false =>
      have hrow' : (ChannelScan.scanModeOptions power scope.toScope s.live values).1.suspended =
          false := hrow
      simp only [hrow', Bool.false_eq_true, if_false]
      generalize ChannelScan.scanModeOptions power scope.toScope s.live values = row
      refine of_scope ?_ (scope_scanSquelchSettle _ _) fun _ => ?_
      · rw [opts_scanSquelchSettle]
        exact h.radio
      · exact h.told_settle hsame { scope with toScope := row.1 } hscope hrow rfl rfl row.2

theorem Follows.targetModulation (h : s.Follows same) (modulation : Modulation) :
    (s.scanModeTargetModulation modulation).Follows same := by
  cases hscope : s.scope with
  | none =>
    rw [scanModeTargetModulation, hscope]
    exact of_bare h.radio rfl (h.bare hscope)
  | some scope =>
    rw [scanModeTargetModulation, hscope]
    exact of_scope h.radio rfl (h.held scope hscope)

theorem Follows.prepare (h : s.Follows same) (mode : Mode) (row : Option OptionValues) (sps : ℤ)
    (allocated : Bool) : (s.scanModePrepare power mode row sps allocated).2.Follows same := by
  have hbegun := h.begin allocated
  rw [Session.scanModePrepare]
  generalize (s.scanModeBegin allocated).2 = s at hbegun ⊢
  cases hscope : s.scope with
  | none => exact hbegun
  | some scope =>
    dsimp only
    split
    · exact hbegun
    · refine of_scope hbegun.radio hscope fun hrow => ?_
      exact (hbegun.held scope hscope hrow).congr (squelchSettingOfOpts_restore _ _)

theorem Follows.suspend (h : s.Follows same) : s.scanModeSuspend.2.Follows same := by
  rw [Session.scanModeSuspend]
  cases hscope : s.scope with
  | none => exact h
  | some scope =>
    cases hrow : scope.suspended with
    | true =>
      simp only [hrow, if_true]
      exact h
    | false =>
      simp only [hrow, Bool.false_eq_true, if_false]
      refine of_scope h.radio rfl fun hno => ?_
      simp [ChannelScan.scanModeSuspend, hrow] at hno

/-- A resumed scope has told the demodulator. -/
theorem Follows.resume (h : s.Follows same) (hsame : ComparesAsEquality same) (retime : Option ℤ)
    (sps : ℤ) : (s.scanModeResume power retime sps).2.Follows same := by
  rw [Session.scanModeResume]
  cases hscope : s.scope with
  | none => exact h
  | some scope =>
    cases hrow : scope.suspended with
    | false =>
      simp only [hrow, if_true]
      exact h
    | true =>
      simp only [hrow, Bool.true_eq_false, if_false]
      rw [scanSquelchPush_eq (by exact h.radio)]
      exact of_scope h.radio rfl fun _ => told_tell hsame.nonneg _

theorem Follows.leave (h : s.Follows same) (hsame : ComparesAsEquality same) :
    (s.scanModeLeave same).Follows same := by
  rw [Session.scanModeLeave]
  cases hscope : s.scope with
  | none => exact h
  | some scope =>
    cases hrow : scope.suspended with
    | true =>
      simp only [hrow, if_true]
      refine of_bare ?_ rfl ?_
      · exact (congrArg Opts.audioInRtl (opts_scanSquelchSettle _ _)).trans h.radio
      · exact told_scanSquelchSettle hsame.nonneg h.radio nofun nofun
    | false =>
      simp only [hrow, Bool.false_eq_true, if_false]
      refine of_bare ?_ rfl ?_
      · exact (congrArg Opts.audioInRtl (opts_scanSquelchSettle _ _)).trans h.radio
      · exact h.told_settle hsame scope hscope hrow rfl rfl _

theorem Follows.setConfigured (h : s.Follows same) {store : ScanSettings → ScanSettings}
    (hstore : ∀ t, squelchSettingOfOpts (store t) = squelchSettingOfOpts t)
    (shadowed : OptionValues → Bool) : (s.setConfigured store shadowed).2.Follows same := by
  have hlive : squelchSettingOfOpts (s.restore (store s.live)).live = squelchSettingOfOpts s.live :=
    hstore _
  rw [Session.setConfigured]
  cases hscope : s.scope with
  | none =>
    refine of_bare h.radio hscope ?_
    rw [Told, hlive]
    exact h.bare hscope
  | some scope =>
    cases hrow : scope.suspended with
    | true =>
      simp only [hrow, if_true]
      exact of_scope h.radio hscope fun hno => absurd (hrow.symm.trans hno) nofun
    | false =>
      have hheld := h.held scope hscope hrow
      simp only [hrow, Bool.false_eq_true, if_false]
      split
      · exact of_scope h.radio rfl fun _ => hheld
      · exact of_scope h.radio rfl fun _ => Holds.congr hheld hlive

theorem holds_judgeAgainst (hsame : 0 ≤ same) (scope : RowScope) (hrow : scope.suspended = false)
    (setting : SquelchSetting) (t : ScanSettings) :
    Holds same (squelchSettingOfOpts (squelchStore setting t)) (squelchStore setting t)
      (judgeAgainst scope setting) := by
  have hstays (hne : scope.squelchPending ≠ .entered) : judgeAgainst scope setting = scope :=
    if_neg fun h => hne h.2
  cases hpending : scope.squelchPending with
  | settled =>
    rw [hstays (by rw [hpending]; exact nofun)]
    simp only [Holds, hpending]
    exact squelchSettingEqual_self hsame _
  | entered =>
    rw [judgeAgainst, if_pos ⟨hrow, hpending⟩]
    simp only [Holds, hpending]
    exact fun _ => squelchSettingEqual_store t
  | unknown =>
    rw [hstays (by rw [hpending]; exact nofun)]
    simp only [Holds, hpending]

/-- The caller tells the demodulator the setting, unless the row's own stands over it. -/
theorem Follows.setSquelch (h : s.Follows same) (hsame : ComparesAsEquality same)
    (setting : SquelchSetting) : (s.setConfiguredSquelchSetting setting).Follows same := by
  rw [Session.setConfiguredSquelchSetting, Session.setConfigured]
  cases hscope : s.scope with
  | none =>
    simp only [if_true]
    refine of_bare h.radio ?_ (told_tell hsame.nonneg _)
    change Option.map _ s.scope = none
    rw [hscope]
    rfl
  | some scope =>
    cases hrow : scope.suspended with
    | true =>
      simp only [hrow, if_true]
      have htold : Option.map (fun scope => judgeAgainst scope setting) s.scope = some scope := by
        rw [hscope, Option.map_some, judgeAgainst, hrow, if_neg fun hno => nomatch hno.1]
      exact of_scope h.radio htold fun hno => absurd (hrow.symm.trans hno) nofun
    | false =>
      have hheld := h.held scope hscope hrow
      have hnot : ¬scope.suspended = true := ne_true_of_eq_false hrow
      dsimp only
      rw [if_neg hnot]
      split
      · simp only [zero_ne_one, if_false]
        exact of_scope h.radio rfl fun _ => hheld
      · simp only [if_true]
        have hjudged := holds_judgeAgainst hsame.nonneg { scope with toScope :=
          { scope.toScope with configured := squelchStore setting scope.configured } } hrow
          setting s.live
        refine of_scope h.radio rfl fun _ => ?_
        exact hjudged.congr (squelchSettingOfOpts_restore _ _)

theorem Follows.setReceive (h : s.Follows same) (policy : Receive) :
    (s.setConfiguredReceive policy).Follows same := by
  rw [Session.setConfiguredReceive]
  cases hscope : s.scope with
  | none => exact of_bare h.radio hscope (h.bare hscope)
  | some scope =>
    have hheld := h.held scope hscope
    cases hrow : scope.suspended with
    | true =>
      simp only [hrow, if_true]
      exact of_scope h.radio hscope hheld
    | false =>
      have hnot : ¬scope.suspended = true := ne_true_of_eq_false hrow
      dsimp only
      rw [if_neg hnot]
      refine of_scope h.radio rfl fun _ => ?_
      exact Holds.congr (hheld hrow) (squelchSettingOfOpts_restore _ _)

theorem Follows.editSettings (h : s.Follows same) (settings : ScanSettings)
    (told : Option SquelchSetting) : (s.editSettings settings told).Follows same := by
  rw [Session.editSettings]
  cases hscope : s.scope with
  | none => exact h
  | some scope =>
    cases hrow : scope.suspended with
    | true =>
      simp only [hrow, if_true]
      exact of_scope h.radio hscope fun hno => absurd (hrow.symm.trans hno) nofun
    | false =>
      simp only [hrow, Bool.false_eq_true, if_false]
      exact h

end Session

/-- A call that leaves the operator's settings alone where there is no scope. -/
def Call.Scoped : Call → Prop
  | .configure _ => False
  | _ => True

section Runs

variable {s : Session}

theorem Session.Follows.perform (h : s.Follows same) (hsame : ComparesAsEquality same) {call : Call}
    (hcall : call.Scoped) : (s.perform power same call).Follows same := by
  cases call with
  | begin allocated => exact h.begin allocated
  | enter mode sps allocated => exact h.enter hsame mode sps allocated
  | options values => exact h.options hsame values
  | targetModulation modulation => exact h.targetModulation modulation
  | prepare mode row sps allocated => exact h.prepare mode row sps allocated
  | suspend => exact h.suspend
  | resume retime sps => exact h.resume hsame retime sps
  | setSquelch setting => exact h.setSquelch hsame setting
  | setAnalogWidth am widthHz =>
    refine h.setConfigured (fun t => ?_) _
    cases am with
    | true => rfl
    | false => rfl
  | setTonePolicy filter set =>
    refine h.setConfigured (fun t => ?_) _
    rfl
  | setReceive policy => exact h.setReceive policy
  | leave => exact h.leave hsame
  | configure settings => cases hcall
  | edit settings told => exact h.editSettings settings told

theorem Session.Follows.run (h : s.Follows same) (hsame : ComparesAsEquality same)
    {calls : List Call} (hcalls : ∀ call ∈ calls, call.Scoped) :
    (s.run power same calls).Follows same := by
  induction calls generalizing s with
  | nil => exact h
  | cons call calls ih =>
    exact ih (h.perform hsame (hcalls call List.mem_cons_self)) fun other hother =>
      hcalls other (List.mem_cons_of_mem call hother)

/-- A radio session without a scope, whose demodulator was told opts' squelch. -/
structure Session.Fresh (s : Session) : Prop where
  scope : s.scope = none
  radio : s.opts.audioInRtl = true
  demod : s.demod = squelchSettingOfOpts s.live

/-- The scope, where there is one, is settled and not suspended. -/
def Session.Settled (s : Session) : Prop :=
  ∀ scope, s.scope = some scope → scope.squelchPending = .settled ∧ scope.suspended = false

theorem Session.Follows.told (h : s.Follows same) (hsettled : s.Settled) : s.Told same := by
  cases hscope : s.scope with
  | none => exact h.bare hscope
  | some scope =>
    obtain ⟨hpending, hrow⟩ := hsettled scope hscope
    have hheld := h.held scope hscope hrow
    rw [Holds, hpending] at hheld
    exact hheld

theorem pushes_scanModeEnter (mode : Mode) (sps : ℤ) (allocated : Bool) :
    (s.scanModeEnter power mode sps allocated).2.pushes = s.pushes := by
  have hbegin : (s.scanModeBegin allocated).2.pushes = s.pushes := by
    rw [Session.scanModeBegin]
    cases s.scope with
    | some scope => rfl
    | none => cases allocated <;> rfl
  rw [Session.scanModeEnter]
  cases hscope : (s.scanModeBegin allocated).2.scope with
  | none => exact hbegin
  | some scope => exact hbegin

theorem pushes_scanModeOptions (values : Option OptionValues) :
    (s.scanModeOptions power same values).2.pushes ≤ s.pushes + 1 := by
  rw [Session.scanModeOptions]
  cases hscope : s.scope with
  | none => exact Nat.le_succ _
  | some scope =>
    dsimp only
    split
    · exact Nat.le_succ _
    · exact Session.pushes_scanSquelchSettle _ _

/-- Whatever calls a scan makes, where its scope is settled and not suspended the demodulator was
last told opts' squelch; and a row's entry with its options tells it at most once. -/
theorem demod_follows_scope (power : ℤ → ℚ) {same : ℚ} (hsame : ComparesAsEquality same)
    {s₀ : Session} (hfresh : s₀.Fresh) (calls : List Call)
    (hcalls : ∀ call ∈ calls, call.Scoped) :
    ((s₀.run power same calls).Settled →
      squelchSettingEqual same (s₀.run power same calls).demod
        (squelchSettingOfOpts (s₀.run power same calls).live) = true) ∧
      ∀ mode sps allocated values,
        (s₀.run power same (calls ++ [.enter mode sps allocated, .options values])).pushes ≤
          (s₀.run power same calls).pushes + 1 := by
  have hstart : s₀.Follows same := by
    refine Session.Follows.of_bare hfresh.radio hfresh.scope ?_
    rw [Session.Told, hfresh.demod]
    exact squelchSettingEqual_self hsame.nonneg _
  refine ⟨(hstart.run hsame hcalls).told, fun mode sps allocated values => ?_⟩
  rw [Session.run, List.foldl_append]
  change ((s₀.run power same calls).scanModeEnter power mode sps allocated).2.scanModeOptions power
    same values |>.2.pushes ≤ _
  calc _ ≤ ((s₀.run power same calls).scanModeEnter power mode sps allocated).2.pushes + 1 :=
        pushes_scanModeOptions values
    _ = (s₀.run power same calls).pushes + 1 := by rw [pushes_scanModeEnter]

end Runs

/-- Settings of a radio session, its squelch off. -/
def radioSettings : ScanSettings :=
  ⟨0, 0, 10, ToneSet.empty, [], 0, 0, 0, 0, 0, 0, 0, 0, 0, 0, 0, 0, 0, "", 0, 0, 0, 0, 0, 0, 0,
    0, 0, 0, 0, 0, 0, 0, 0, 0, 0, 0, 0, 0, 0, 0, 0, 0, 0, 0, 0, 0, 0, 0, 0, 0, 0, 0, "", 0, 0,
    10, 4, 0, 0⟩

/-- A radio session before a scan. -/
def radioSession : Session where
  scope := none
  opts := restoreOpts radioSettings
    ⟨0, 0, 0, ToneSet.empty, [], 0, 0, 0, 0, 0, 0, 0, 0, 0, 0, 0, 0, 0, "", 0, 0, 0, 0, 0, 0, 0,
      0, 0, 0, 0, 0, 0, 0, 0, 0, 0, 0, 0, 0, 0, 0, 0, 0, 0, 0, 0, 0, 0, 0, 0, 0, 0, 0, "",
      ⟨Vector.replicate 17 0, 0, 0, 0, 0, 0, 0, 0, 0, 0, 0⟩, 0, false, true, false, true, false⟩
  state := restoreState radioSettings
  demod := squelchSettingOfOpts radioSettings
  pushes := 0

theorem fresh_radioSession : radioSession.Fresh := ⟨rfl, rfl, rfl⟩

/-- A row's own squelch, learned with a margin of six decibels. -/
def autoSquelch : OptionValues :=
  { OptionValues.zero with
    present := bitMask optSquelch
    squelchMode := squelchAuto
    squelchMarginDb := 6 }

/-- A row with a squelch of its own, entered while the scope was suspended for an edit. -/
def editedVisit : List Call :=
  [.enter .dmr 10 true, .options (some autoSquelch), .suspend, .edit radioSettings none,
    .enter .p25 10 true, .options (some autoSquelch)]

/-- A visit whose settings are edited under it. -/
theorem demod_follows_scope_edited :
    squelchSettingEqual 0 (radioSession.run (fun _ => 1) 0 editedVisit).demod
      (squelchSettingOfOpts (radioSession.run (fun _ => 1) 0 editedVisit).live) = true := by
  refine (demod_follows_scope (fun _ => 1) comparesAsEquality_zero fresh_radioSession editedVisit
    fun call hcall => ?_).1 fun scope hscope => ?_
  · simp only [editedVisit, List.mem_cons, List.not_mem_nil, or_false] at hcall
    rcases hcall with rfl | rfl | rfl | rfl | rfl | rfl <;> trivial
  · cases hscope
    exact ⟨rfl, rfl⟩

end DsdNeo.ChannelScan
