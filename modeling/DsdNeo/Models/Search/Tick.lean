import DsdNeo.Models.Search.Session

/-!
# The tick of a search, and its runs

A tick drains a stop, plans the next span, waits for a tune, measures the span or serves
a visit. A run is any sequence of calls on the coordinator.
-/

namespace DsdNeo.SignalSearch

open Program (onlyIf)
open Text

/-- The tune of `search_restore_tune`, once the settings are restored. -/
def searchRetune : Prog Unit := do
  let a ← ask
  modifyC fun c => { c with ticket := a.ticket }
  let s ← get
  if a.tuneAsync < 0 then searchError "Unable to restore the previous frequency"
  else if a.tuneAsync = 0 then modifyC fun c => { c with restoreQueued := true }
  else
    onlyIf (10000 < a.nowMs - s.c.tuneStarted)
      (searchError "Timed out restoring the receiver; stop the radio session")

/-- `search_restore_tune`. -/
def searchRestoreTune : Prog Bool := do
  searchEndHit
  searchCancelMeasurements
  searchRestore
  searchRetune
  pure true

/-- What follows a complete tune in `search_stop_tick`. -/
def searchStopComplete (result : ℤ) : Prog Bool := do
  modifyC fun c => { c with ticket := 0 }
  let s ← get
  if s.c.restoreQueued = false then searchRestoreTune
  else do
    modifyC fun c => { c with restoreQueued := false }
    if result ≠ 0 then do
      searchError "Restoring the previous tune failed"
      pure true
    else do
      modify fun s => { s with opts := { s.opts with rtlsdrCenterFreq := s.c.savedFrequency } }
      searchShutdown
      pure false

/-- `search_stop_tick`. -/
def searchStopTick : Prog Bool := do
  let s ← get
  let a ← ask
  if s.c.ticket ≠ 0 ∧ a.tunePoll.1 = 0 then do
    onlyIf (10000 < a.nowMs - s.c.tuneStarted)
      (searchError "Timed out restoring the receiver; stop the radio session")
    pure true
  else searchStopComplete (if s.c.ticket ≠ 0 then a.tunePoll.2 else 0)

/-- `search_previous_tune_ready`. -/
def searchPreviousTuneReady : Prog Bool := do
  let s ← get
  if s.c.ticket = 0 ∨ s.c.phase = .tuning then pure true
  else do
    let a ← ask
    if a.tunePoll.1 = 0 then do
      onlyIf (10000 < a.nowMs - s.c.tuneStarted) (searchError "The previous tune did not finish")
      pure false
    else do
      modifyC fun c => { c with ticket := 0 }
      pure true

/-- `search_capture_ready`. -/
def searchCaptureReady : Prog (Option Capture) := do
  let s ← get
  let a ← ask
  match a.captureGet with
  | none => do
    onlyIf (10000 < a.nowMs - s.c.tuneStarted) (searchError "No samples from the radio input")
    pure none
  | some k =>
    if a.captureLastMs ≤ a.nowMs ∧ 10000 < a.nowMs - a.captureLastMs then do
      searchError "The radio input stopped delivering samples"
      pure none
    else do
      modifyC fun c => { c with captureRateHz := k.rateHz }
      pure (some k)

/-- The plan of `search_next_span`, once a range is selected. -/
def searchPlanSpan (k : Capture) : Prog Unit := do
  let s ← get
  let planned := plan s.c.range s.c.channelIndex k.rateHz k.captureOffsetHz s.c.span
  modifyC fun c => { c with span := planned.2 }
  if planned.1 ≠ 1 then
    searchError "This range cannot be covered at the receiver's capture rate"
  else do
    note (.planned s.c.rangeIndex planned.2)
    modifyC fun c => { c with needSpan := false }
    searchQueueTune planned.2.tuneHz false false

/-- `search_next_span`. -/
def searchNextSpan (k : Capture) : Prog Bool := do
  let selected ← searchSelectRange
  onlyIf (selected = true) (searchPlanSpan k)
  onlyIf (selected = false) (searchError "No enabled ranges")
  pure true

/-- The landing of `search_wait_tune`. -/
def searchLand (now : BitVec 64) : Prog Unit := do
  modify fun s => { s with opts := { s.opts with rtlsdrCenterFreq := s.c.target } }
  modifyC fun c =>
    let c := { c with ticket := 0 }
    if c.visit then
      let c :=
        { c with
          acquired := if c.acquired = 0 then now else c.acquired
          probeStarted := now
          activity := now
          landed := now
          listenReady := false }
      { c with phase := receptionPhase c }
    else { c with phase := .searching }
  let s ← get
  searchPublish s.c.visit

/-- The wait of `search_wait_tune` for a tune that has a ticket, or none. -/
def searchAwait (k : Capture) (now : BitVec 64) : Prog Bool := do
  let s ← get
  let a ← ask
  let complete : ℤ := if s.c.ticket ≠ 0 then a.tunePoll.1 else 0
  if complete < 0 ∨ (complete ≠ 0 ∧ a.tunePoll.2 < 0) then do
    searchError "The receiver failed to tune"
    pure true
  else if complete = 0 ∨ k.generation = s.c.beforeGeneration ∨
      (k.captureHz.toNat : ℤ) - k.captureOffsetHz ≠ s.c.target.toNat ∨
      k.generation ≠ a.outputGeneration then do
    onlyIf (10000 < a.nowMs - s.c.tuneStarted)
      (searchError "Timed out waiting for fresh radio samples")
    pure true
  else do
    searchLand now
    pure false

/-- `search_wait_tune`. -/
def searchWaitTune (k : Capture) : Prog Bool := do
  let s ← get
  let a ← ask
  if s.c.ticket = 0 then do
    modifyC fun c => { c with ticket := a.ticket }
    if a.tuneAsync < 0 then do
      searchError "The receiver refused the tune"
      pure true
    else searchAwait k a.decodeMs
  else searchAwait k a.decodeMs

/-- The coordinator with the hit of a detection. -/
def Coord.detected (c : Coord) (opts : Opts) (a : Answer) (found : Candidate) : Coord :=
  { c with
    nextHit := c.nextHit + 1
    site := .clear
    call := .none
    hit :=
      { Hit.zero with
        sessionId := c.config.sessionId
        hitId := c.nextHit + 1
        frequencyHz := found.frequencyHz
        range :=
          ⟨c.range.bandwidthHz, c.range.stepNum, c.range.stepDen, c.range.am, c.range.name⟩
        powerDbfs := found.powerDbfs
        noiseDbfs := found.noiseDbfs
        startedMs := a.realtimeMs
        rangeIndex := c.rangeIndex
        unresolved := decide (c.range.digital ≠ 0)
        settings := a.settings
        airspy := opts.airspy } }

/-- `search_visit_candidate`. -/
def searchVisitCandidate (found : Candidate) : Prog Unit := do
  let s ← get
  modifyC fun c => c.detected s.opts (s.answers 0) found
  note (.chosen found.frequencyHz s.c.config.avoids)
  searchSuppress found.frequencyHz
  searchPublish true
  modifyC fun c => { c with acquired := 0 }
  searchQueueTune found.frequencyHz true (decide (s.c.range.digital = 0))

/-- The loop of `search_strongest_candidate`: `none` where a candidate is not valid. -/
def strongestLoop (excluded : BitVec 32 → Bool) :
    Option Candidate → List Candidate → Option (Option Candidate)
  | best, [] => some best
  | best, x :: rest =>
    if x.valid = false then none
    else
      strongestLoop excluded
        (if x.detected && !excluded x.frequencyHz &&
            best.all (fun b => decide (b.powerDbfs < x.powerDbfs)) then some x else best) rest

/-- A report on the requested frequencies. -/
def reportOf (requested : List (BitVec 32)) (verdict : ℕ → Verdict) : List Candidate :=
  requested.mapIdx fun i f =>
    ⟨f, (verdict i).powerDbfs, (verdict i).noiseDbfs, (verdict i).detected, (verdict i).valid⟩

/-- What `search_measure_tick` does with a report of its own request. -/
def searchTakeReport (report : List Candidate) : Prog Unit := do
  note (.measured report)
  let s ← get
  match strongestLoop (searchExcluded s.c) none report with
  | none => searchError "Capture geometry changed; restart the search"
  | some none => do
    note (.left s.c.rangeIndex s.c.span report s.c.config.avoids)
    modifyC fun c => { c with channelIndex := c.span.next, needSpan := true }
    searchPublish false
  | some (some found) => searchVisitCandidate found

/-- `search_measure_tick`. -/
def searchMeasure (k : Capture) : Prog Unit := do
  let s ← get
  let a ← ask
  if s.c.measurementStarted ≠ 0 ∧ 5000 < a.nowMs - s.c.measurementStarted then
    searchError "No uninterrupted samples for a measurement"
  else if s.c.measuring = false then searchBeginMeasurement
  else if a.measureGet < 0 then modifyC fun c => { c with measuring := false }
  else if a.measureGet = 0 then pure ()
  else do
    modifyC fun c => { c with measuring := false }
    if a.reportSession ≠ s.c.config.sessionId ∨ a.reportRequest ≠ s.c.request ∨
        a.reportGeneration ≠ k.generation then pure ()
    else searchTakeReport (reportOf s.requested a.verdict)

/-- The end of `search_visit_tick`, while a visit goes on. -/
def searchVisitOn : Prog Unit := do
  searchLiveStrength
  let s ← get
  let a ← ask
  onlyIf (100 ≤ a.nowMs - s.c.lastPublish) (searchPublish false)

/-- `search_visit_tick`. -/
def searchVisitTick : Prog Bool := do
  let a ← ask
  let now := a.decodeMs
  searchNoteActivity now
  let s ← get
  let c := s.c
  if c.skip ∨ (c.hold = false ∧ c.range.maxVisitMs ≠ 0 ∧
      c.range.maxVisitMs ≤ (now - c.acquired).toNat) then do
    searchReturnToSpan
    pure true
  else if c.probing ∧ c.range.probeMs ≤ (now - c.probeStarted).toNat then do
    searchQueueTune c.hit.frequencyHz true true
    pure true
  else if c.hold = false ∧ c.probing = false ∧ 500 ≤ now - c.activity then do
    searchReturnToSpan
    pure true
  else do
    searchVisitOn
    pure false

/-- `search_end_reception`. -/
def searchEndReception : Prog Unit := modifyC fun c => { c with receptionEnded := true }

/-- `search_input_lost`. -/
def searchInputLost : Prog Bool := do
  let s ← get
  if s.c.stopping then do
    searchShutdown
    pure false
  else do
    onlyIf (s.c.phase ≠ .error) (searchError "The radio input is no longer available")
    pure true

/-- A tuning or listening search, once a capture is there. -/
def searchOnAir (k : Capture) : Prog Bool := do
  let s ← get
  if s.c.phase = .searching then do
    searchMeasure k
    pure true
  else if s.c.visit then searchVisitTick
  else pure false

/-- A search that is neither stopping, paused nor failed. -/
def searchAdvance : Prog Bool := do
  let ready ← searchPreviousTuneReady
  if ready = false then pure true
  else do
    let capture ← searchCaptureReady
    match capture with
    | none => pure true
    | some k => do
      let s ← get
      if s.c.needSpan then searchNextSpan k
      else if s.c.phase = .tuning then do
        let waiting ← searchWaitTune k
        if waiting then pure true else searchOnAir k
      else searchOnAir k

/-- `search_tick`. -/
def searchTickBody : Prog Bool := do
  let s ← get
  let a ← ask
  if s.opts.audioInRtl = false ∨ a.streamActive = false then searchInputLost
  else if s.c.stopping then searchStopTick
  else if s.c.phase = .paused ∨ s.c.phase = .error then pure true
  else searchAdvance

/-- `dsd_engine_signal_search_tick`. -/
def searchTick : Prog Bool := do
  let s ← get
  if s.c.phase = .stopped then pure false
  else do
    let rc ← searchTickBody
    let s ← get
    onlyIf (s.c.phase = .paused ∨ s.c.phase = .error) searchEndReception
    pure rc

/-- One call on the search. -/
inductive Op where
  | start (config : Config)
  | control (action : Control)
  | tick
  | shouldYield
  | evidence (protocol : Bytes) (target source : BitVec 32) (access : Bytes)
  | site (note : SiteNote)
  | call (slot : ℕ) (record : Option CallState.Record)
  | notice (session : BitVec 64) (message : String)
  | shutdown

/-- A call on the search. -/
def perform : Op → Prog Unit
  | .start config => do
    let _ ← searchStart config
    pure ()
  | .control action => do
    let _ ← searchControl action
    pure ()
  | .tick => do
    let _ ← searchTick
    pure ()
  | .shouldYield => do
    let _ ← searchShouldYield
    pure ()
  | .evidence protocol target source access => searchEvidence protocol target source access
  | .site note => searchSite note
  | .call slot record => searchCall slot record
  | .notice session message => searchNotice session message
  | .shutdown => searchShutdown

/-- The state after a run of calls. -/
def run (s : State) (ops : List Op) : State := ops.foldl (fun s op => (perform op s).2) s

end DsdNeo.SignalSearch
