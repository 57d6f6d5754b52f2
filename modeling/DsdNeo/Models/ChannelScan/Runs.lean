import DsdNeo.Models.ChannelScan.Gate

/-!
# Every run of the channel scanner

Each event keeps the gate of the scan and what is installed for its row. Where frames are
served after a landing, the row installed is then the one the receiver is on.
-/

namespace DsdNeo.ChannelScan

open SignalSearch ScanScope Overlay
open Tuning (TuneResult)

variable {plan : Plan} {s : State}

/-- An event that leaves the scan and its requests alone. -/
theorem State.Good.beside (h : s.Good plan) {s' : State} (hscan : s'.scan = s.scan)
    (htunes : s'.tunes = s.tunes) (hnext : s'.nextRequest = s.nextRequest)
    (hlanded : s'.landed = s.landed) (hstaged : s'.staged = s.staged)
    (hcommit : s'.commit = s.commit) (hfit : Fitted plan s' s.committed s.edits) :
    s'.Good plan where
  recorded := by
    rw [Recorded, htunes, hnext]
    exact h.recorded
  outstanding := by
    rw [htunes, hscan]
    exact h.outstanding
  unopened := by
    rw [hscan, hlanded]
    exact h.unopened
  gate scan hs := by
    have hstatus : ∀ id, requestStatus s' id = requestStatus s id := fun id => by
      rw [requestStatus, requestStatus, htunes]
    have hg := h.gate scan (hscan ▸ hs)
    refine ⟨hg.current, ?_, ?_, ?_, ?_⟩
    · rw [hstatus]
      exact hg.retried
    · rw [htunes, hlanded, hstaged]
      exact hg.asked
    · rw [hstatus, hlanded]
      exact hg.landing
    · rw [hcommit]
      exact hg.commit
  fitted := by
    have hc : s'.committed = s.committed := by rw [State.committed, State.committed, hscan]
    have he : s'.edits = s.edits := by rw [State.edits, State.edits, hscan]
    rw [hc, he]
    exact hfit

/-- An event that only turns to another row. -/
theorem State.Good.roll (h : s.Good plan) (roll : ℤ) :
    State.Good plan { s with lcnFreqRoll := roll } :=
  h.beside rfl rfl rfl rfl rfl rfl (h.fitted.congr rfl rfl rfl rfl rfl rfl rfl rfl)

variable {scan : Scan}

theorem State.Good.giveUp (h : s.Good plan) (hscan : s.scan = some scan)
    (hretry : scan.retry = false) (hstatus : requestStatus s scan.request ≠ .pending)
    (hok : scan.needsCommit = false → requestStatus s scan.request ≠ .ok) :
    State.Good plan { s with scan := some { scan with request := 0 } } := by
  have hgate := h.gate scan hscan
  have hquiet := quiet_of_status h hscan hstatus
  refine good_of_gated h.recorded hquiet rfl ?_
    ((h.fittedOf hscan).congr rfl rfl rfl rfl rfl rfl rfl rfl)
  refine ⟨fun hask => ?_, fun hr => ?_, fun hr => absurd rfl hr,
    fun hn _ => hgate.landing hn (.inr (hok hn)), hgate.commit⟩
  · rcases hask with hr | hr
    · exact absurd (hr : scan.retry = true) (by rw [hretry]; exact Bool.noConfusion)
    · exact absurd rfl hr
  · exact absurd (hr : scan.retry = true) (by rw [hretry]; exact Bool.noConfusion)

theorem State.Good.pending (h : s.Good plan) (a : Answer) : (pending plan a s).2.Good plan := by
  rw [ChannelScan.pending]
  cases hscan : s.scan with
  | none => exact h
  | some scan =>
    have hgate := h.gate scan hscan
    dsimp only
    by_cases hretry : scan.retry = true
    · have hcurrent : rowIsCurrent plan scan = true :=
        decide_eq_true (hgate.current (.inl hretry))
      simp only [if_pos hretry, if_pos hcurrent]
      refine h.startRow a scan.row fun scan' hscan' => .inl ?_
      rw [hscan] at hscan'
      cases hscan'
      exact hretry
    · rw [if_neg hretry]
      rw [Bool.not_eq_true] at hretry
      by_cases hrequest : scan.request = 0
      · rw [if_pos hrequest]
        exact h
      · rw [if_neg hrequest]
        have hcurrent : rowIsCurrent plan scan = true :=
          decide_eq_true (hgate.current (.inr hrequest))
        by_cases hpending : requestStatus s scan.request = .pending
        · rw [if_pos hpending]
          exact h
        · rw [if_neg hpending]
          by_cases hok : requestStatus s scan.request = .ok
          · rw [if_pos ⟨hok, hcurrent⟩]
            -- the tune has landed, and its row is the one staged
            obtain ⟨result, htune, hlanded, hstaged⟩ := hgate.asked hrequest hretry
            have hresult : result = .ok := by
              rw [requestStatus, htune] at hok
              exact hok
            have hfit := h.fittedOf hscan
            have hl : Scan.Landed plan s { scan with request := 0 } :=
              ⟨h.recorded, quiet_of_status h hscan hpending, hgate.current (.inr hrequest), hretry,
                hlanded hresult, ⟨hstaged.mode, hstaged.keys, hstaged.inputs⟩, hgate.commit,
                hfit⟩
            exact hl.commitRow a
          · rw [if_neg fun hboth => hok hboth.1]
            exact (h.giveUp hscan hretry hpending fun _ => hok).roll _

theorem State.Good.serviceSync (h : s.Good plan) (a : Answer) :
    (serviceSync plan a s).2.Good plan := by
  rw [ChannelScan.serviceSync]
  split
  · exact h
  · exact h.pending a

theorem idle_of_not_waiting (h : waiting s = false) :
    ∀ scan, s.scan = some scan → scan.retry = true ∨ scan.request = 0 := by
  intro scan hscan
  rw [waiting, hscan, Option.any_some, Bool.or_eq_false_iff] at h
  exact .inr (not_not.mp (of_decide_eq_false h.1))

theorem State.Good.step (h : s.Good plan) (a : Answer) : (step plan a s).2.Good plan := by
  rw [ChannelScan.step]
  split
  · exact h
  · split
    · exact h.pending a
    · rename_i hwait
      cases nextUnavoided plan s.avoided (rollRow plan s) with
      | none => exact h
      | some row => exact h.startRow a row (idle_of_not_waiting (Bool.eq_false_iff.mpr hwait))

theorem State.Good.stepManual (h : s.Good plan) (a : Answer) :
    (stepManual plan a s).2.Good plan := by
  rw [ChannelScan.stepManual]
  split
  · exact h
  · split
    · exact h.step a
    · rename_i hwait
      cases nextUnavoided plan _ (rollRow plan s) with
      | none => exact h
      | some row => exact h.startRow a row (idle_of_not_waiting (Bool.eq_false_iff.mpr hwait))

theorem State.Good.reedited (h : s.Good plan) (hscan : s.scan = some scan)
    (edits : ℕ → Option RowEdit) (epoch : BitVec 32) (values : Option OptionValues)
    (scope : Option Scope) (live : ScanSettings)
    (hfit : Fitted plan { s with scope := scope, live := live } scan.committedRow edits) :
    State.Good plan { s with
      scan := some { scan with edits := edits, editsEpoch := epoch, stagedValues := values }
      scope := scope
      live := live } := by
  have hgate := h.gate scan hscan
  refine ⟨h.recorded, fun id row ht => ?_, nofun, fun scan' hscan' => ?_,
    hfit.congr rfl rfl rfl rfl rfl rfl rfl rfl⟩
  · obtain ⟨scan', hscan', hid⟩ := h.outstanding id row ht
    rw [hscan] at hscan'
    cases hscan'
    exact ⟨_, rfl, hid⟩
  · cases hscan'
    refine ⟨hgate.current, hgate.retried, fun hask hretry => ?_, hgate.landing, hgate.commit⟩
    obtain ⟨result, htune, hlanded, hstaged⟩ := hgate.asked hask hretry
    exact ⟨result, htune, hlanded, hstaged.mode, hstaged.keys, hstaged.inputs⟩

variable {row : ℕ}

theorem rowValues_storeEdit {edits edits' : ℕ → Option RowEdit} {next : RowEdit} {stored : Bool}
    (h : storeEdit edits row next stored = some edits') {other : ℕ} (hne : other ≠ row) :
    rowValues plan edits' other = rowValues plan edits other := by
  have hsame : edits' other = edits other := by
    rw [storeEdit] at h
    split at h
    · cases h
      exact Function.update_of_ne hne _ _
    · split at h
      · cases h
        exact Function.update_of_ne hne _ _
      · cases h
  rw [rowValues, rowValues, hsame]

theorem State.Good.installEdit (h : s.Good plan) (a : Answer) (hscan : s.scan = some scan) (row : ℕ)
    (next : RowEdit) : (installEdit plan a scan row next s).2.Good plan := by
  have hfit := h.fittedOf hscan
  rw [ChannelScan.installEdit]
  cases hstore : storeEdit scan.edits row next a.editStored with
  | none => exact h
  | some edits =>
    dsimp only
    by_cases hother : scan.committedRow ≠ some row
    · rw [if_pos hother]
      refine h.reedited hscan edits _ scan.stagedValues s.scope s.live
        ⟨hfit.scope, fun r hr => ?_, hfit.keys, hfit.groups, hfit.maps⟩
      obtain ⟨scope, hscope, hmode, hoptions⟩ := hfit.options r hr
      have hne : r ≠ row := fun heq => hother (heq ▸ hr)
      exact ⟨scope, hscope, hmode, by rw [hoptions, rowValues_storeEdit hstore hne]⟩
    · rw [if_neg hother]
      have hcommitted : scan.committedRow = some row := not_not.mp hother
      obtain ⟨scope, hscope, hmode, -⟩ := hfit.options row hcommitted
      obtain ⟨hsuspended, hforce⟩ := hfit.scope scope hscope
      rw [hscope]
      dsimp only
      have hforce' := inForce_options hforce hsuspended (rowValues plan edits row)
      -- the options of the committed row are put over the configured settings again
      have hscope' : (scanModeOptions plan.power scope s.live (rowValues plan edits row)).1 =
          { scope with options := (rowValues plan edits row).getD OptionValues.zero } := by
        rw [scanModeOptions, if_neg (by rw [hsuspended]; exact Bool.noConfusion)]
      generalize hr : scanModeOptions plan.power scope s.live (rowValues plan edits row) = r at *
      obtain ⟨scope', live'⟩ := r
      have hfit' : Fitted plan { s with scope := some scope', live := live' } scan.committedRow
          edits := by
        refine ⟨fun sc hsc => ?_, fun r hr' => ?_, hfit.keys, hfit.groups, hfit.maps⟩
        · cases hsc
          refine ⟨?_, hforce'⟩
          rw [show scope' = _ from hscope']
          exact hsuspended
        · rw [hcommitted] at hr'
          cases hr'
          refine ⟨scope', rfl, ?_, ?_⟩
          · rw [show scope' = _ from hscope']
            exact hmode
          · rw [show scope' = _ from hscope']
      by_cases hrow : row = scan.row
      · rw [if_pos hrow]
        exact h.reedited hscan edits _ _ (some scope') live' hfit'
      · rw [if_neg hrow]
        exact h.reedited hscan edits _ scan.stagedValues (some scope') live' hfit'

theorem editScan_eq_some {session : BitVec 32} (h : editScan plan session row s = some scan) :
    s.scan = some scan :=
  (Option.filter_eq_some_iff.mp h).1

theorem State.Good.editRow (h : s.Good plan) (a : Answer) (session : BitVec 32) (row bit : ℕ)
    (action : EditAction) (value : EditValue) :
    (editRow plan a session row bit action value s).2.Good plan := by
  rw [ChannelScan.editRow]
  cases hscan : editScan plan session row s with
  | none => exact h
  | some scan =>
    dsimp only
    split
    · exact h
    · exact h.installEdit a (editScan_eq_some hscan) row _

theorem State.Good.restoreRowEdit (h : s.Good plan) (a : Answer) (session : BitVec 32) (row : ℕ)
    (fields : BitVec 32) (edit : RowEdit) :
    (restoreRowEdit plan a session row fields edit s).2.Good plan := by
  rw [ChannelScan.restoreRowEdit]
  cases hscan : editScan plan session row s with
  | none => exact h
  | some scan => exact h.installEdit a (editScan_eq_some hscan) row _

theorem State.Good.complete (h : s.Good plan) (id : ℕ) (result : TuneResult) :
    (complete id result s).Good plan := by
  rw [ChannelScan.complete]
  split
  · rename_i row ht
    obtain ⟨scan, hscan, hid⟩ := h.outstanding id row ht
    have hgate := h.gate scan hscan
    have hstatus : requestStatus s scan.request = .pending := by
      rw [requestStatus, hid, ht]
      rfl
    have hpos : scan.request ≠ 0 := by
      rw [hid]
      exact Nat.pos_iff_ne_zero.mp (h.recorded id _ ht).1
    have hretry : scan.retry = false := by
      rw [← Bool.not_eq_true]
      exact fun hr => (hgate.retried hr).2 hstatus
    obtain ⟨before, htune, -, hstaged⟩ := hgate.asked hpos hretry
    have hrow : scan.row = row := by
      rw [hid, ht] at htune
      exact (congrArg Tune.row (Option.some.inj htune)).symm
    have hothers : ∀ id' t, id' ≠ id →
        Function.update s.tunes id (some ⟨row, result⟩) id' = some t → s.tunes id' = some t := by
      intro id' t hne ht'
      rwa [Function.update_of_ne hne] at ht'
    refine ⟨fun id' t ht' => ?_, fun id' row' ht' => ⟨scan, hscan, ?_⟩,
      fun hnone => ?_, fun scan' hscan' => ?_, h.fitted.congr rfl rfl rfl rfl rfl rfl rfl rfl⟩
    · by_cases heq : id' = id
      · rw [heq]
        exact h.recorded id _ ht
      · exact h.recorded id' t (hothers id' t heq ht')
    · by_cases heq : id' = id
      · rw [heq]
        exact hid
      · obtain ⟨scan', hscan', hid'⟩ := h.outstanding id' row' (hothers id' _ heq ht')
        rw [hscan] at hscan'
        cases hscan'
        exact hid'
    · rw [hscan] at hnone
      cases hnone
    · rw [hscan] at hscan'
      cases hscan'
      refine ⟨hgate.current, fun hr => ?_, fun _ _ => ?_, fun hn hask => ?_, hgate.commit⟩
      · rw [hretry] at hr
        cases hr
      · refine ⟨result, ?_, fun hok => ?_, hstaged⟩
        · rw [hid, hrow]
          exact Function.update_self _ _ _
        · rw [hrow]
          exact if_pos hok
      · have hnot : result ≠ .ok := by
          rcases hask with hzero | hnot
          · exact absurd hzero hpos
          · intro hok
            refine hnot ?_
            rw [requestStatus, hid]
            dsimp only
            rw [Function.update_self, hok]
            rfl
        have hlanded := hgate.landing hn (.inr (by rw [hstatus]; exact TuneResult.noConfusion))
        exact (if_neg hnot).trans hlanded
  · exact h

theorem State.Good.perform (h : s.Good plan) (op : Op) : (perform plan s op).Good plan := by
  cases op with
  | step a => exact h.step a
  | stepManual a => exact h.stepManual a
  | pending a => exact h.pending a
  | serviceSync a => exact h.serviceSync a
  | editRow a session row bit action value => exact h.editRow a session row bit action value
  | restoreRowEdit a session row fields edit => exact h.restoreRowEdit a session row fields edit
  | configure edit retime sps =>
    have hfit := h.fitted.configure edit retime sps
    rw [ChannelScan.perform]
    unfold ChannelScan.configure at hfit ⊢
    split at hfit
    · exact h.beside rfl rfl rfl rfl rfl rfl hfit
    · exact h.beside rfl rfl rfl rfl rfl rfl hfit
  | setSquelch setting =>
    exact h.beside rfl rfl rfl rfl rfl rfl (h.fitted.setConfigured (rowStore_squelch setting))
  | setAnalogWidth am widthHz =>
    exact h.beside rfl rfl rfl rfl rfl rfl (h.fitted.setConfigured (rowStore_width am widthHz))
  | setTonePolicy filter set =>
    exact h.beside rfl rfl rfl rfl rfl rfl (h.fitted.setConfigured (rowStore_tone filter set))
  | editKeyring f captures succeeded =>
    exact h.beside rfl rfl rfl rfl rfl rfl (h.fitted.editKeyring f captures succeeded)
  | replaceKeys set => exact h.beside rfl rfl rfl rfl rfl rfl (h.fitted.replaceKeys set)
  | applyKeyText type text =>
    have hfit := h.fitted.applyKeyText type text
    rw [ChannelScan.perform]
    unfold ChannelScan.applyKeyText at hfit ⊢
    split at hfit
    · exact h.beside rfl rfl rfl rfl rfl rfl hfit
    · exact h.beside rfl rfl rfl rfl rfl rfl hfit
  | typeKey f => exact h.beside rfl rfl rfl rfl rfl rfl (h.fitted.typeKey f)
  | replaceMap m => exact h.beside rfl rfl rfl rfl rfl rfl (h.fitted.replaceMap m)
  | editGroups f =>
    exact h.beside rfl rfl rfl rfl rfl rfl (h.fitted.editGroups fun _ _ _ hp hd =>
      (edits_editStore heldElsewhere hp hd f).parks)
  | replaceGroups store =>
    exact h.beside rfl rfl rfl rfl rfl rfl (h.fitted.editGroups fun _ _ _ hp hd =>
      (edits_replaceStore heldElsewhere hp hd store).parks)
  | requestFamily supersedes =>
    exact h.beside rfl rfl rfl rfl rfl rfl (h.fitted.congr rfl rfl rfl rfl rfl rfl rfl rfl)
  | complete id result => exact h.complete id result
  | select roll => exact h.roll roll
  | avoid row flag =>
    exact h.beside rfl rfl rfl rfl rfl rfl (h.fitted.congr rfl rfl rfl rfl rfl rfl rfl rfl)

theorem good_run (h : s.Good plan) (ops : List Op) : (run plan s ops).Good plan := by
  induction ops generalizing s with
  | nil => exact h
  | cons op ops ih => exact ih (h.perform op)

/-- A decoder that has not scanned yet: no scan, no scope, no tune, and no row's talkgroups or
key map. -/
structure State.Fresh (s : State) : Prop where
  scan : s.scan = none
  scope : s.scope = none
  tunes : ∀ id, s.tunes id = none
  landed : s.landed = none
  groups : s.groups = GroupScope.idle
  maps : s.maps.active = false ∧ s.maps.suspended = false
  operator : ∃ own : OperatorMap, s.liveMap.map = own.map

/-- A row's class and options, its keys, its talkgroups and its key map are in effect. -/
structure Installed (plan : Plan) (s : State) (row : ℕ) : Prop where
  scope : ∃ scope, s.scope = some scope ∧ scope.suspended = false ∧
    scope.mode = (plan.row row).mode ∧
    scope.options = (rowValues plan s.edits row).getD OptionValues.zero ∧
    scope.InForce plan.power s.live
  keys : KeysOf s.keys s.typed (plan.row row).keys
  groups : ((plan.row row).profile.bind RowProfile.groupStore).elim (s.groups.active = false)
    fun store => s.groups.active = true ∧ s.world.slots decoder = store
  maps : ((plan.row row).profile.bind RowProfile.keyMap).elim (s.maps.active = false)
    fun m => s.maps.active = true ∧ s.liveMap.map = trimmed m

theorem Fitted.installed (h : Fitted plan s (some row) s.edits) : Installed plan s row where
  scope := by
    obtain ⟨scope, hscope, hmode, hoptions⟩ := h.options row rfl
    obtain ⟨hsuspended, hforce⟩ := h.scope scope hscope
    exact ⟨scope, hscope, hsuspended, hmode, hoptions, hforce⟩
  keys := h.keys row rfl
  groups := by
    obtain ⟨d, hparks, hsettled, hrow⟩ := h.groups
    rw [← hrow row rfl]
    cases d with
    | bare own => exact congrArg GroupScope.active hparks.1
    | covered own store => exact ⟨congrArg GroupScope.active hparks.1, hparks.2⟩
    | aside own store draft => cases hsettled
  maps := by
    obtain ⟨d, hshows, hsettled, hrow⟩ := h.maps
    rw [← hrow row rfl]
    cases d with
    | bare own => exact hshows.1
    | covered own m => exact ⟨hshows.1, hshows.2.2.2.2.1⟩
    | aside own m draft => cases hsettled

/-- Everything is allocated, and the tuner answers later. -/
def later : Answer where
  scanAllocated := true
  scopeAllocated := true
  groupsBegun := true
  captures := true
  copies := true
  sps := 10
  attaches := false
  requestBegun := true
  result := .pending
  enterAllocated := true
  enterSps := 10
  editAccepted := true
  editStored := true

end DsdNeo.ChannelScan
