import DsdNeo.Models.ChannelScan.Fitted

/-!
# The gate of the channel scan

Landing, staleness, retry and commit are kept apart: a request is outstanding, the staged row
waits for another try, or the receiver has moved and no row is committed yet. Outside all
three the row last landed on is the row committed.
-/

namespace DsdNeo.ChannelScan

open SignalSearch ScanScope Overlay Function
open Tuning (TuneResult)

/-- What a staged tune carries is as it was when the tune was staged: the acquisition settings, the
configured width it runs with, the epochs of keys and edits, and the receive-family requests that
can supersede it. -/
structure Commit.Unmoved (c : Commit) : Prop where
  acquisition : acquisition c.found.configured = acquisition c.staged.configured
  timing : timing c.found.configured = timing c.staged.configured
  outputName : c.found.configured.outputName = c.staged.configured.outputName
  width : ∀ am, c.widthOfAm = some am →
    widthHz c.found.configured am = widthHz c.staged.configured am
  keyEpoch : c.staged.keyEpoch = c.found.keyEpoch
  editsEpoch : c.staged.editsEpoch = c.found.editsEpoch
  requests : c.familyAttached = true → c.staged.familyRequests = c.found.familyRequests
  supersedes : c.familyAttached = false →
    c.staged.familylessSupersedes = c.found.familylessSupersedes

/-- The inputs a scan has recorded for its staged tune. -/
def Scan.inputs (scan : Scan) : Inputs where
  configured := scan.configured
  keyEpoch := scan.keyEpoch
  editsEpoch := scan.stagedEditsEpoch
  familyRequests := scan.familyRequests
  familylessSupersedes := scan.familylessSupersedes

/-- A scan whose row is staged: its class, its keys and what its tune depends on. -/
structure Scan.Staged (plan : Plan) (staged : Inputs) (scan : Scan) : Prop where
  mode : scan.mode = (plan.row scan.row).mode
  keys : Carries scan.keys (plan.row scan.row).keys
  inputs : staged = scan.inputs

/-- The last commit is that of a row, and found nothing of it moved. -/
def CommitOf (commit : Option Commit) (row : Option ℕ) : Prop :=
  ∀ r, row = some r → ∃ c, commit = some c ∧ c.row = r ∧ c.Unmoved

/-- The flags of a scan beside its requests and what has landed. -/
structure Scan.Gate (plan : Plan) (s : State) (scan : Scan) : Prop where
  current : scan.retry = true ∨ scan.request ≠ 0 → scan.mapSequence = plan.mapSeq
  retried : scan.retry = true →
    scan.needsCommit = true ∧ requestStatus s scan.request ≠ .pending
  asked : scan.request ≠ 0 → scan.retry = false →
    ∃ result, s.tunes scan.request = some ⟨scan.row, result⟩ ∧
      (result = .ok → s.landed = some scan.row) ∧ scan.Staged plan s.staged
  landing : scan.needsCommit = false →
    scan.request = 0 ∨ requestStatus s scan.request ≠ .ok → s.landed = scan.committedRow
  commit : CommitOf s.commit scan.committedRow

/-- The requests on record have been made. -/
def Recorded (s : State) : Prop := ∀ id t, s.tunes id = some t → 0 < id ∧ id ≤ s.nextRequest

/-- No tune is outstanding. -/
def Quiet (s : State) : Prop := ∀ id row, s.tunes id ≠ some ⟨row, .pending⟩

/-- The committed row. -/
def State.committed (s : State) : Option ℕ := s.scan.bind Scan.committedRow

/-- The session edits. -/
def State.edits (s : State) : ℕ → Option RowEdit := (s.scan.map Scan.edits).getD fun _ => none

/-- A state a scan can reach. -/
structure State.Good (plan : Plan) (s : State) : Prop where
  recorded : Recorded s
  outstanding : ∀ id row, s.tunes id = some ⟨row, .pending⟩ →
    ∃ scan, s.scan = some scan ∧ scan.request = id
  unopened : s.scan = none → s.landed = none
  gate : ∀ scan, s.scan = some scan → scan.Gate plan s
  fitted : Fitted plan s s.committed s.edits

variable {plan : Plan} {s : State}

variable {scan : Scan}

theorem State.Good.fittedOf (h : s.Good plan) (hscan : s.scan = some scan) :
    Fitted plan s scan.committedRow scan.edits := by
  have hfit := h.fitted
  rw [State.committed, State.edits, hscan] at hfit
  exact hfit

theorem requestStatus_zero (h : Recorded s) : requestStatus s 0 = .failed := by
  cases ht : s.tunes 0 with
  | none => rw [requestStatus, ht]; rfl
  | some t => exact absurd (h 0 t ht).1 (Nat.lt_irrefl 0)

theorem quiet_of_request_zero (h : s.Good plan)
    (hr : ∀ scan, s.scan = some scan → scan.request = 0) : Quiet s := by
  intro id row ht
  obtain ⟨scan, hscan, hid⟩ := h.outstanding id row ht
  have hpos := (h.recorded id _ ht).1
  rw [← hid, hr scan hscan] at hpos
  exact Nat.lt_irrefl 0 hpos

theorem quiet_of_status (h : s.Good plan) (hscan : s.scan = some scan)
    (hr : requestStatus s scan.request ≠ .pending) : Quiet s := by
  intro id row ht
  obtain ⟨scan', hscan', hid⟩ := h.outstanding id row ht
  rw [hscan] at hscan'
  cases hscan'
  refine hr ?_
  rw [requestStatus, hid, ht]
  rfl

theorem unmoved_of_not_stale (scan : Scan) (hstaged : s.staged = scan.inputs)
    (h : stagedStale plan scan s = false) :
    Commit.Unmoved ⟨scan.row, s.staged, s.inputs scan.editsEpoch, scan.familyAttached,
      carriedWidth plan scan⟩ := by
  rw [stagedStale] at h
  split at h
  · cases h
  · rename_i hsame
    simp only [not_or, Bool.not_eq_true, ne_eq, not_not] at hsame
    obtain ⟨hconf, hkeys, hedits⟩ := hsame
    rw [configuredChanged] at hconf
    split at hconf
    · cases hconf
    · rename_i hequal
      rw [Bool.not_eq_false] at hequal
      simp only [settingsEqual, Bool.and_eq_true, decide_eq_true_eq, Bool.not_true,
        Bool.false_or] at hequal
      obtain ⟨⟨⟨hacq, -⟩, hname⟩, htiming⟩ := hequal
      rw [hstaged]
      refine ⟨hacq, htiming, hname, fun am ham => ?_, hkeys, hedits, fun hfam => ?_, fun hfam => ?_⟩
      · have ham' : carriedWidth plan scan = some am := ham
        rw [ham'] at hconf
        exact not_not.mp (of_decide_eq_false hconf)
      · have hfam' : scan.familyAttached = true := hfam
        rw [hfam'] at h
        exact not_not.mp (of_decide_eq_false h)
      · have hfam' : scan.familyAttached = false := hfam
        rw [hfam'] at h
        exact not_not.mp (of_decide_eq_false h)

/-- A scan about to be committed: its staged row is the one the receiver is on. -/
structure Scan.Landed (plan : Plan) (s : State) (scan : Scan) : Prop where
  recorded : Recorded s
  quiet : Quiet s
  current : scan.mapSequence = plan.mapSeq
  retry : scan.retry = false
  landed : s.landed = some scan.row
  staged : scan.Staged plan s.staged
  commit : CommitOf s.commit scan.committedRow
  fitted : Fitted plan s scan.committedRow scan.edits

theorem good_of_gated (hrec : Recorded s) (hq : Quiet s) (hscan : s.scan = some scan)
    (hgate : scan.Gate plan s) (hfit : Fitted plan s scan.committedRow scan.edits) :
    s.Good plan where
  recorded := hrec
  outstanding id row ht := absurd ht (hq id row)
  unopened hnone := by rw [hscan] at hnone; cases hnone
  gate scan' hscan' := by
    rw [hscan] at hscan'
    cases hscan'
    exact hgate
  fitted := by
    rw [State.committed, State.edits, hscan]
    exact hfit

/-- The gate of a scan that waits for another try. -/
theorem gate_of_retry (hq : Quiet s) (hcurrent : scan.mapSequence = plan.mapSeq)
    (hretry : scan.retry = true) (hneeds : scan.needsCommit = true)
    (hcommit : CommitOf s.commit scan.committedRow) : scan.Gate plan s where
  current _ := hcurrent
  retried _ := by
    refine ⟨hneeds, fun hstatus => ?_⟩
    cases ht : s.tunes scan.request with
    | none =>
      rw [requestStatus, ht] at hstatus
      cases hstatus
    | some t =>
      obtain ⟨row, result⟩ := t
      rw [requestStatus, ht] at hstatus
      have hpending : result = .pending := hstatus
      exact hq _ row (hpending ▸ ht)
  asked _ h := by rw [hretry] at h; cases h
  landing h := by rw [hneeds] at h; cases h
  commit := hcommit

theorem fitted_installRow {before : Option ℕ} {edits edits' : ℕ → Option RowEdit}
    (h : Fitted plan s before edits') {row : ℕ} {change : Keys.Change}
    (hkeys : Carries change (plan.row row).keys) {scope : Scope} {live : ScanSettings}
    (hs : scope.suspended = false) (hforce : scope.InForce plan.power live)
    (hholds : scope.Holds plan edits row) (force : ℤ) :
    Fitted plan (installRow plan row change force { s with scope := some scope, live := live })
      (some row) edits where
  scope sc hsc := by
    cases hsc
    exact ⟨hs, hforce⟩
  options r hr := by
    cases hr
    exact ⟨scope, rfl, hholds⟩
  keys r hr := by
    cases hr
    exact keysOf_commit s.keys hkeys _
  groups := by
    obtain ⟨d, hparks, hsettled, -⟩ := h.groups
    cases hstore : (plan.row row).profile.bind RowProfile.groupStore with
    | none =>
      have hrun : groupsEnter s.groups none s.world = groupsLeave s.groups s.world := rfl
      have hleft := (follows_leave heldElsewhere hparks).parks
      obtain ⟨hd, hrow⟩ := d.settled_leave
      refine ⟨d.leave, ?_, hd, fun r hr => ?_⟩
      · simp only [installRow, hstore, hrun]
        exact hleft
      · cases hr
        rw [hrow, hstore]
    | some store =>
      have hentered := (follows_enter heldElsewhere hparks hsettled
        (fun a _ => Nat.one_ne_zero : ∀ a, store = some a → heldElsewhere a ≠ 0)).parks
      obtain ⟨hd, hrow⟩ := Desk.settled_enter hsettled store
      refine ⟨d.enter store, ?_, hd, fun r hr => ?_⟩
      · simp only [installRow, hstore]
        exact hentered
      · cases hr
        rw [hrow, hstore]
  maps := by
    obtain ⟨d, hshows, hsettled, -⟩ := h.maps
    cases hmap : (plan.row row).profile.bind RowProfile.keyMap with
    | none =>
      have hleft := shows_leave hshows
      obtain ⟨hd, hrow⟩ := d.settled_leave
      refine ⟨d.leave, ?_, hd, fun r hr => ?_⟩
      · simp only [installRow, hmap]
        exact hleft
      · cases hr
        rw [hrow, hmap]
    | some m =>
      obtain ⟨p, -, hp⟩ := Option.bind_eq_some_iff.mp hmap
      have hvalid : mapValid m = true := by
        rw [RowProfile.keyMap] at hp
        split at hp
        · cases hp
          exact p.valid
        · cases hp
      have hentered := shows_enter hshows hsettled hvalid
      obtain ⟨hd, hrow⟩ := Desk.settled_enter hsettled m
      refine ⟨d.enter m, ?_, hd, fun r hr => ?_⟩
      · simp only [installRow, hmap]
        exact hentered
      · cases hr
        rw [hrow, hmap]

theorem enterRow_spec (a : Answer) (scope : Scope) (scan : Scan)
    (hmode : scan.mode = (plan.row scan.row).mode) :
    (enterRow plan a scope scan).1.suspended = false ∧
      (enterRow plan a scope scan).1.InForce plan.power (enterRow plan a scope scan).2 ∧
      (enterRow plan a scope scan).1.Holds plan scan.edits scan.row :=
  ⟨rfl, inForce_options (inForce_enter scope scan.mode a.enterSps) rfl _, hmode, rfl⟩

theorem Scan.Landed.commitRow (h : scan.Landed plan s) (a : Answer) :
    (commitRow plan a scan s).2.Good plan := by
  have hretry : ∀ request, State.Good plan { s with scan := some { scan with
      needsCommit := true, request := request, retry := true } } := by
    intro request
    have hgate : Scan.Gate plan
        { s with scan := some { scan with needsCommit := true, request := request, retry := true } }
        { scan with needsCommit := true, request := request, retry := true } :=
      gate_of_retry h.quiet h.current rfl rfl h.commit
    exact good_of_gated h.recorded h.quiet rfl hgate
      (h.fitted.congr rfl rfl rfl rfl rfl rfl rfl rfl)
  rw [ChannelScan.commitRow]
  dsimp only
  split
  · exact hretry 0
  · rename_i hstale
    cases hscope : scanModeBegin s.scope s.live a.enterAllocated with
    | none => exact hretry scan.request
    | some scope =>
      dsimp only
      obtain ⟨hs, hforce, hholds⟩ := enterRow_spec a scope
        { scan with needsCommit := true } h.staged.mode
      have hfit := fitted_installRow h.fitted h.staged.keys hs hforce hholds s.live.forceKey
      have hunmoved := unmoved_of_not_stale { scan with needsCommit := true } h.staged.inputs
        (Bool.eq_false_iff.mpr hstale)
      refine good_of_gated h.recorded h.quiet rfl ?_
        (hfit.congr rfl rfl rfl rfl rfl rfl rfl rfl)
      refine ⟨fun _ => h.current, fun hr => ?_, fun hr => absurd rfl hr, fun _ _ => h.landed,
        fun r hr => ?_⟩
      · have hretry : scan.retry = true := hr
        rw [h.retry] at hretry
        cases hretry
      · cases hr
        exact ⟨_, rfl, rfl, hunmoved⟩

/-- A scan whose next row is being staged: nothing is outstanding, and it is open or waits for
another try. -/
structure Scan.Between (plan : Plan) (s : State) (scan : Scan) : Prop where
  recorded : Recorded s
  quiet : Quiet s
  idle : scan.retry = true ∧ scan.needsCommit = true ∨ scan.retry = false ∧ scan.request = 0
  landing : scan.needsCommit = false → s.landed = scan.committedRow
  commit : CommitOf s.commit scan.committedRow
  fitted : Fitted plan s scan.committedRow scan.edits

theorem Scan.Between.good (h : scan.Between plan s) (hscan : s.scan = some scan)
    (hcurrent : scan.mapSequence = plan.mapSeq) : s.Good plan := by
  refine good_of_gated h.recorded h.quiet hscan ?_ h.fitted
  rcases h.idle with ⟨hretry, hneeds⟩ | ⟨hretry, hrequest⟩
  · exact gate_of_retry h.quiet hcurrent hretry hneeds h.commit
  · refine ⟨fun _ => hcurrent, fun hr => ?_, fun hr => absurd hrequest hr,
      fun hneeds _ => h.landing hneeds, h.commit⟩
    rw [hretry] at hr
    cases hr

theorem openScan_between (h : s.Good plan) {a : Answer} {s' : State}
    (hidle : ∀ scan, s.scan = some scan → scan.retry = true ∨ scan.request = 0)
    (hopen : openScan a s = some (scan, s')) : scan.Between plan s' := by
  rw [openScan] at hopen
  cases hscan : s.scan with
  | some scan' =>
    rw [hscan] at hopen
    cases hopen
    have hgate := h.gate scan hscan
    have hfit := h.fittedOf hscan
    cases hretry : scan.retry with
    | true =>
      obtain ⟨hneeds, hstatus⟩ := hgate.retried hretry
      exact ⟨h.recorded, quiet_of_status h hscan hstatus, .inl ⟨hretry, hneeds⟩,
        fun hn => (by rw [hneeds] at hn; cases hn), hgate.commit, hfit⟩
    | false =>
      have hrequest : scan.request = 0 := by
        rcases hidle scan hscan with hr | hr
        · rw [hretry] at hr
          cases hr
        · exact hr
      refine ⟨h.recorded, quiet_of_status h hscan ?_, .inr ⟨hretry, hrequest⟩,
        fun hn => hgate.landing hn (.inl hrequest), hgate.commit, hfit⟩
      rw [hrequest, requestStatus_zero h.recorded]
      decide
  | none =>
    rw [hscan] at hopen
    dsimp only at hopen
    split at hopen
    · cases hopen
      have hq : Quiet s := quiet_of_request_zero h fun scan hs => by rw [hscan] at hs; cases hs
      have hfit := h.fitted
      rw [State.committed, State.edits, hscan] at hfit
      exact ⟨h.recorded, hq, .inr ⟨rfl, rfl⟩, fun _ => h.unopened hscan,
        fun r hr => (by cases hr), hfit.congr rfl rfl rfl rfl rfl rfl rfl rfl⟩
    · cases hopen

/-- The scope that is begun where there is none has nothing but the configured settings. -/
theorem Fitted.begun {row : Option ℕ} {edits : ℕ → Option RowEdit} (h : Fitted plan s row edits)
    {allocated : Bool} {scope : Scope} (hb : scanModeBegin s.scope s.live allocated = some scope) :
    Fitted plan { s with scope := some scope } row edits := by
  unfold scanModeBegin at hb
  cases hscope : s.scope with
  | some scope' =>
    rw [hscope] at hb
    cases hb
    exact h.congr hscope.symm rfl rfl rfl rfl rfl rfl rfl
  | none =>
    rw [hscope] at hb
    dsimp only at hb
    split at hb
    · cases hb
      refine h.withScope (some (Scope.fresh s.live)) s.live (fun sc hsc => ?_) fun sc hsc => ?_
      · cases hsc
        exact ⟨rfl, inForce_fresh s.live⟩
      · rw [hscope] at hsc
        cases hsc
    · cases hb

theorem Scan.Between.stageRow (h : scan.Between plan s) (a : Answer)
    (hcurrent : scan.mapSequence = plan.mapSeq) (hmode : scan.mode = (plan.row scan.row).mode)
    (hedits : scan.stagedEditsEpoch = scan.editsEpoch) {done : Bool} {scan' : Scan} {s' : State}
    (hstage : stageRow plan a scan s = (done, scan', s')) :
    scan'.mapSequence = plan.mapSeq ∧ Recorded s' ∧ Quiet s' ∧
      (scan'.needsCommit = false → s'.landed = scan'.committedRow) ∧
      CommitOf s'.commit scan'.committedRow ∧
      Fitted plan s' scan'.committedRow scan'.edits ∧
      (done = false → scan'.Between plan s') ∧
      (done = true → scan'.retry = false ∧ scan'.Staged plan (s'.inputs scan'.editsEpoch)) := by
  rw [ChannelScan.stageRow] at hstage
  cases hscope : scanModeBegin s.scope s.live a.scopeAllocated with
  | none =>
    rw [hscope] at hstage
    cases hstage
    exact ⟨hcurrent, h.recorded, h.quiet, h.landing, h.commit, h.fitted, fun _ => h, nofun⟩
  | some scope =>
    rw [hscope] at hstage
    dsimp only at hstage
    have hfit := h.fitted.begun hscope
    by_cases hgroups : a.groupsBegun = false
    · rw [if_pos hgroups] at hstage
      cases hstage
      exact ⟨hcurrent, h.recorded, h.quiet, h.landing, h.commit, hfit,
        fun _ => ⟨h.recorded, h.quiet, h.idle, h.landing, h.commit, hfit⟩, nofun⟩
    · rw [if_neg hgroups] at hstage
      have hcarries := carries_prepare s.keys (plan.row scan.row).keys a.captures a.copies
      generalize Keys.scanKeyChangePrepare s.keys (plan.row scan.row).keys a.captures a.copies =
        prepared at hstage hcarries
      obtain ⟨ok, change⟩ := prepared
      dsimp only at hstage hcarries
      cases ok with
      | false =>
        rw [if_pos rfl] at hstage
        cases hstage
        exact ⟨hcurrent, h.recorded, h.quiet, h.landing, h.commit, hfit,
          fun _ => ⟨h.recorded, h.quiet, h.idle, h.landing, h.commit, hfit⟩, nofun⟩
      | true =>
        rw [if_neg Bool.noConfusion] at hstage
        cases hstage
        refine ⟨hcurrent, h.recorded, h.quiet, h.landing, h.commit, hfit, nofun,
          fun _ => ⟨rfl, hmode, hcarries rfl, ?_⟩⟩
        rw [Scan.inputs, State.inputs, hedits]

theorem good_tuneRow (a : Answer) (hcurrent : scan.mapSequence = plan.mapSeq) (hrec : Recorded s)
    (hq : Quiet s) (hlanding : scan.needsCommit = false → s.landed = scan.committedRow)
    (hcommit : CommitOf s.commit scan.committedRow)
    (hfit : Fitted plan s scan.committedRow scan.edits) (hretry : scan.retry = false)
    (hstaged : scan.Staged plan (s.inputs scan.editsEpoch)) :
    (tuneRow plan a scan s).2.Good plan := by
  -- a tune that is given up leaves the scan between rows
  have hgiven : ∀ (s' : State) (row : ℤ), Recorded s' → Quiet s' → s'.landed = s.landed →
      s'.commit = s.commit → Fitted plan s' scan.committedRow scan.edits →
      State.Good plan { s' with scan := some { scan with request := 0 }, lcnFreqRoll := row } := by
    intro s' row hrec' hq' hlanded hcom hfit'
    have hbetween : Scan.Between plan
        { s' with scan := some { scan with request := 0 }, lcnFreqRoll := row }
        { scan with request := 0 } :=
      ⟨hrec', hq', .inr ⟨hretry, rfl⟩, fun hn => hlanded.trans (hlanding hn), hcom ▸ hcommit,
        hfit'.congr rfl rfl rfl rfl rfl rfl rfl rfl⟩
    exact hbetween.good rfl hcurrent
  have hfit₀ : ∀ s' : State, s'.scope = s.scope → s'.live = s.live → s'.keys = s.keys →
      s'.typed = s.typed → s'.groups = s.groups → s'.world = s.world → s'.maps = s.maps →
      s'.liveMap = s.liveMap → Fitted plan s' scan.committedRow scan.edits :=
    fun s' h₁ h₂ h₃ h₄ h₅ h₆ h₇ h₈ => hfit.congr h₁ h₂ h₃ h₄ h₅ h₆ h₇ h₈
  by_cases hask : (plan.row scan.row).freq ≤ 0 ∨ a.requestBegun = false
  · simp only [tuneRow, scanTuneToFreq, if_pos hask]
    exact hgiven { s with staged := s.inputs scan.editsEpoch } _ hrec hq rfl rfl
      (hfit₀ _ rfl rfl rfl rfl rfl rfl rfl rfl)
  · simp only [tuneRow, scanTuneToFreq, if_neg hask]
    -- the request is on record, and no other tune is outstanding
    have hrec' : ∀ id t, update s.tunes (s.nextRequest + 1) (some ⟨scan.row, a.result⟩) id =
        some t → 0 < id ∧ id ≤ s.nextRequest + 1 := by
      intro id t ht
      by_cases hid : id = s.nextRequest + 1
      · subst hid
        exact ⟨Nat.succ_pos _, le_refl _⟩
      · rw [update_of_ne hid] at ht
        exact ⟨(hrec id t ht).1, Nat.le_succ_of_le (hrec id t ht).2⟩
    have hothers : ∀ id row, update s.tunes (s.nextRequest + 1)
        (some ⟨scan.row, a.result⟩) id = some ⟨row, .pending⟩ →
        id = s.nextRequest + 1 ∧ a.result = .pending := by
      intro id row ht
      by_cases hid : id = s.nextRequest + 1
      · subst hid
        rw [update_self] at ht
        exact ⟨rfl, congrArg Tune.result (Option.some.inj ht)⟩
      · rw [update_of_ne hid] at ht
        exact absurd ht (hq id row)
    cases hresult : a.result with
    | ok =>
      have hq' : ∀ id row, update s.tunes (s.nextRequest + 1)
          (some ⟨scan.row, .ok⟩) id ≠ some ⟨row, .pending⟩ := by
        rw [hresult] at hothers
        exact fun id row ht => by cases (hothers id row ht).2
      rw [hresult] at hrec'
      have hlanded : Scan.Landed plan
          { s with
            staged := s.inputs scan.editsEpoch
            nextRequest := s.nextRequest + 1
            tunes := update s.tunes (s.nextRequest + 1) (some ⟨scan.row, .ok⟩)
            landed := some scan.row }
          { scan with request := s.nextRequest + 1 } :=
        ⟨hrec', hq', hcurrent, hretry, rfl, ⟨hstaged.mode, hstaged.keys, hstaged.inputs⟩, hcommit,
          hfit₀ _ rfl rfl rfl rfl rfl rfl rfl rfl⟩
      exact hlanded.commitRow a
    | pending =>
      rw [hresult] at hrec' hothers
      refine ⟨hrec', fun id row ht => ⟨_, rfl, (hothers id row ht).1.symm⟩,
        fun hn => (by cases hn), fun scan' hscan' => ?_,
        hfit₀ _ rfl rfl rfl rfl rfl rfl rfl rfl⟩
      cases hscan'
      refine ⟨fun _ => hcurrent, fun hr => ?_, fun _ _ => ?_, fun hn _ => ?_, hcommit⟩
      · have hr' : scan.retry = true := hr
        rw [hretry] at hr'
        cases hr'
      · exact ⟨.pending, update_self _ _ _, nofun, hstaged.mode, hstaged.keys, hstaged.inputs⟩
      · exact hlanding hn
    | deferred | failed | timeout =>
      rw [hresult] at hrec' hothers
      have hq' := fun id row ht => (by cases (hothers id row ht).2 : False)
      exact hgiven { s with
        staged := s.inputs scan.editsEpoch
        nextRequest := s.nextRequest + 1
        tunes := update s.tunes (s.nextRequest + 1) (some ⟨scan.row, _⟩) } _ hrec' hq'
        rfl rfl (hfit₀ _ rfl rfl rfl rfl rfl rfl rfl rfl)

theorem State.Good.startRow (h : s.Good plan) (a : Answer) (row : ℕ)
    (hidle : ∀ scan, s.scan = some scan → scan.retry = true ∨ scan.request = 0) :
    (startRow plan a row s).2.Good plan := by
  rw [ChannelScan.startRow]
  split
  · split
    · exact ⟨h.recorded, h.outstanding, h.unopened, fun scan hscan =>
        ⟨(h.gate scan hscan).current, (h.gate scan hscan).retried, (h.gate scan hscan).asked,
          (h.gate scan hscan).landing, (h.gate scan hscan).commit⟩,
        h.fitted.congr rfl rfl rfl rfl rfl rfl rfl rfl⟩
    · cases hopen : openScan a s with
      | none => exact h
      | some opened =>
        obtain ⟨scan, s₁⟩ := opened
        have hbetween := openScan_between h hidle hopen
        have hdescribed : (scan.describe plan row).Between plan s₁ :=
          ⟨hbetween.recorded, hbetween.quiet, hbetween.idle, hbetween.landing, hbetween.commit,
            hbetween.fitted⟩
        cases hstage : stageRow plan a (scan.describe plan row) s₁ with
        | mk done rest =>
          obtain ⟨scan₂, s₂⟩ := rest
          obtain ⟨hcurrent, hrec, hq, hlanding, hcommit, hfit, hnot, hdone⟩ :=
            hdescribed.stageRow a rfl rfl rfl hstage
          dsimp only
          rw [hstage]
          cases done with
          | false =>
            have hb := hnot rfl
            have hb' : scan₂.Between plan { s₂ with scan := some scan₂ } :=
              ⟨hb.recorded, hb.quiet, hb.idle, hb.landing, hb.commit,
                hb.fitted.congr rfl rfl rfl rfl rfl rfl rfl rfl⟩
            exact hb'.good rfl hcurrent
          | true =>
            obtain ⟨hretry, hstaged⟩ := hdone rfl
            exact good_tuneRow a hcurrent hrec hq hlanding hcommit hfit hretry hstaged
  · exact h

end DsdNeo.ChannelScan
