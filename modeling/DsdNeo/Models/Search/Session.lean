import DsdNeo.Models.Search.Coordinator

/-!
# A search session: start, shutdown, notes and control actions

Calls of the engine, the decoders and the frontends on the coordinator, all but the tick.
-/

namespace DsdNeo.SignalSearch

open Program (onlyIf)
open Text Csv

/-- `search_valid_config`. -/
def validConfig (config : Config) : Bool :=
  decide (config.sessionId ≠ 0 ∧ config.ranges.length ≠ 0 ∧ config.ranges.length ≤ maxRanges ∧
    config.avoids.length ≤ maxAvoids)

/-- `search_validate_start`: why a start is refused. -/
def validateStart (s : State) (a : Answer) (config : Config) : Option String :=
  if validConfig config = false then some "Invalid signal search configuration"
  else if (s.opts.audioInRtl && a.liveReceiver && !s.opts.trunkEnable && !s.opts.scannerMode &&
      !s.opts.trunkScanEnabled) = false then
    some "Signal search needs exclusive use of a live tunable SDR"
  else if searchActive s ∧ (s.c.phase ≠ .paused ∨ s.c.config.sessionId ≠ config.sessionId) then
    some "Pause Signal search before applying edited ranges"
  else validateConfig config

/-- The coordinator of a new session. -/
def Coord.fresh (config : Config) (saved : ScanSettings) (frequency : BitVec 32)
    (airspy : AirspyConfig) (now : BitVec 64) : Coord where
  config := config
  phase := .searching
  revision := 0
  pass := 1
  rangeIndex := 0
  channelIndex := 0
  channelCount := 0
  captureRateHz := 0
  identifying := false
  owned := false
  livePowerValid := false
  hit := .zero
  site := .clear
  call := .none
  published := []
  message := ""
  saved := saved
  savedFrequency := frequency
  savedAirspy := airspy
  suppressed := []
  request := 0
  nextHit := 0
  acquired := 0
  probeStarted := 0
  activity := 0
  tuneStarted := now
  lastPublish := 0
  measurementStarted := 0
  landed := 0
  hold := false
  skip := false
  needSpan := true
  visit := false
  measuring := false
  stopping := false
  probing := false
  restored := false
  restoreQueued := false
  analogVisit := false
  listenReady := false
  receptionEnded := false
  ticket := 0
  target := 0
  beforeGeneration := 0
  span := .zero
  liveMeasuring := false
  liveRequest := 0
  liveNext := 0
  liveAccepted := 0

/-- The options a session starts with: Auto, with a dispatch for direct mode voice. -/
def sessionOpts (opts : Opts) : Opts :=
  let opts := applyAutoPreset opts
  if opts.dmrStereo = 0 ∧ opts.dmrMono = 0 then { opts with dmrStereo := 1 } else opts

/-- The restart of a paused search with edited ranges. -/
def searchRestart (config : Config) : Prog Unit := do
  modifyC fun c =>
    { c with
      config := { c.config with ranges := config.ranges }
      rangeIndex := 0
      channelIndex := 0
      pass := c.pass + 1
      suppressed := []
      needSpan := true
      visit := false
      skip := false
      hold := false
      phase := .searching }
  note .pass
  let _ ← searchSelectRange
  searchPublish false

/-- The start of a new session. -/
def searchBegin (config : Config) : Prog ℤ := do
  let s ← get
  let a ← ask
  if a.alloc = false then pure (-1)
  else do
    let saved := capture s.opts s.state
    let c := Coord.fresh config saved s.opts.rtlsdrCenterFreq s.opts.airspy a.nowMs
    modifyOpts sessionOpts
    let rc ← scanModeBegin
    let own ← ask
    if rc ≠ 0 ∨ own.alloc = false then do
      scanModeLeave
      settingsRestore saved
      pure (-1)
    else do
      modifyC fun _ => c
      let _ ← searchSelectRange
      searchPublish false
      pure 0

/-- `dsd_engine_signal_search_start`. -/
def searchStart (config : Config) : Prog ℤ := do
  let s ← get
  let a ← ask
  match validateStart s a config with
  | some _ => pure (-1)
  | none =>
    if s.c.phase = .paused then do
      searchRestart config
      pure 0
    else searchBegin config

/-- `dsd_engine_signal_search_shutdown`. -/
def searchShutdown : Prog Unit := do
  let s ← get
  onlyIf (s.c.phase ≠ .stopped) do
    searchEndHit
    searchCancelMeasurements
    searchRestore
    modify fun s => { s with opts := { s.opts with rtlsdrCenterFreq := s.c.savedFrequency } }
    modifyC fun c => { c with phase := .stopped }
    searchPublish false

/-- `search_receiving`. -/
def receiving (c : Coord) (a : Answer) : Bool :=
  c.visit && !c.hit.ended && !a.inputInterrupted &&
    (c.phase == .identifying || c.phase == .listening || c.phase == .held)

/-- The hit of a visit, with the site and the call noted on it. -/
structure Visit where
  hit : Hit
  site : Site
  call : SearchCall

/-- The visit of a coordinator. -/
def Coord.visited (c : Coord) : Visit := ⟨c.hit, c.site, c.call⟩

/-- The coordinator with this visit. -/
def Coord.visiting (c : Coord) (v : Visit) : Coord :=
  { c with hit := v.hit, site := v.site, call := v.call }

/-- `search_site_is`. -/
def siteIs (v : Visit) (protocol : Bytes) : Bool := belongs v.site.protocol protocol

/-- The site a hit shows while it belongs to its protocol. -/
def shownSite (v : Visit) : Bytes := if siteIs v v.hit.protocol then siteFormat v.site 96 else []

/-- `search_refresh_site`: the visit, and whether the shown site changed. -/
def refreshSite (v : Visit) : Visit × Bool :=
  if shownSite v = v.hit.site then (v, false)
  else ({ v with hit := { v.hit with site := shownSite v } }, true)

/-- `search_call_is`. -/
def callIs (v : Visit) (protocol : Bytes) : Bool := belongs v.call.protocol protocol

/-- The hit shows this call tuple. -/
def Hit.Shows (hit : Hit) (t : SearchCall) : Prop :=
  hit.target = t.target ∧ hit.source = t.source ∧ hit.slot = t.slot ∧
    hit.targetText = t.targetText ∧ hit.sourceText = t.sourceText ∧ hit.crypt = t.crypt

instance (hit : Hit) (t : SearchCall) : Decidable (hit.Shows t) :=
  inferInstanceAs (Decidable (_ ∧ _))

/-- The hit with this call tuple on it. -/
def Hit.showing (hit : Hit) (t : SearchCall) : Hit :=
  { hit with
    target := t.target
    source := t.source
    slot := t.slot
    targetText := t.targetText
    sourceText := t.sourceText
    crypt := t.crypt }

/-- `search_refresh_call`: the visit, and whether the shown tuple changed. -/
def refreshCall (v : Visit) : Visit × Bool :=
  if callIs v v.hit.protocol = false then (v, false)
  else if v.hit.Shows v.call then (v, false)
  else ({ v with hit := v.hit.showing v.call }, true)

/-- The visit as another protocol is identified. -/
def Visit.reidentified (v : Visit) (identified : Bytes) : Visit where
  hit :=
    { v.hit with
      target := 0
      source := 0
      slot := 0
      access := []
      sourceText := []
      targetText := []
      crypt := [] }
  site := if v.hit.protocol ≠ [] ∧ siteIs v identified = false then .clear else v.site
  call := if v.hit.protocol ≠ [] ∧ callIs v identified = false then .none else v.call

/-- The visit once its protocol is written. -/
def Visit.named (v : Visit) (identified : Bytes) : Visit :=
  { v with hit := { v.hit with protocol := copied 24 identified } }

/-- The protocol with the rate of NXDN. -/
def identified (nxdn48 : Bool) (protocol : Bytes) : Bytes :=
  if protocol = ascii "NXDN" then ascii (if nxdn48 then "NXDN48" else "NXDN96") else protocol

/-- `search_identified_protocol`. -/
def identifiedProtocol (v : Visit) (identified : Bytes) : Visit :=
  let v := if v.hit.protocol ≠ identified then v.reidentified identified else v
  (refreshCall (refreshSite (v.named identified)).1).1

/-- The identifiers of plain evidence, which stand in for a hit that no record has named. -/
def Visit.standIn (v : Visit) (target source : BitVec 32) (access : Bytes) : Visit :=
  let stands := callIs v v.hit.protocol = false
  { v with
    hit :=
      { v.hit with
        target := if stands ∧ target ≠ 0 then target else v.hit.target
        source := if stands ∧ source ≠ 0 then source else v.hit.source
        access := if access ≠ [] then copied 64 access else v.hit.access } }

/-- `dsd_engine_signal_search_evidence_at`. -/
def searchEvidence (protocol : Bytes) (target source : BitVec 32) (access : Bytes) : Prog Unit := do
  let s ← get
  let a ← ask
  onlyIf (receiving s.c a && a.allowed) do
    modifyC fun c =>
      { c with
        activity := a.decodeMs
        probing := false
        hit := { c.hit with confirmed := true, unresolved := false } }
    modifyC fun c => c.visiting (identifiedProtocol c.visited (identified a.nxdn48 protocol))
    modifyC fun c => { c with phase := if c.hold then c.phase else .listening }
    modifyC fun c => c.visiting (c.visited.standIn target source access)
    searchPublish true

/-- A visit that is refreshed, and published where what it shows changed. -/
def searchRefreshed (refreshed : Visit × Bool) : Prog Unit := do
  modifyC fun c => c.visiting refreshed.1
  onlyIf (refreshed.2 = true) (searchPublish true)

/-- `dsd_engine_signal_search_site`. -/
def searchSite (note : SiteNote) : Prog Unit := do
  let s ← get
  let a ← ask
  match if receiving s.c a then siteApply s.c.site note else none with
  | none => pure ()
  | some site => searchRefreshed (refreshSite { s.c.visited with site := site })

/-- `search_call_admit`, for a slot's call record. -/
def callAdmit (c : Coord) (a : Answer) (record : Option CallState.Record) :
    Option (CallState.Record × Bytes) :=
  match record with
  | none => none
  | some record =>
    if record.phase ≠ .active ∨ record.crcInvalid ≠ 0 ∨ a.allowed = false then none
    else
      match searchCallProtocol record.protocol with
      | none => none
      | some protocol =>
        if c.hit.protocol ≠ [] ∧ protocol.isPrefixOf c.hit.protocol = false then none
        else some (record, protocol)

/-- `search_call_superseded`. -/
def callSuperseded (c : Coord) (protocol : Bytes) (slot : ℕ) (record : CallState.Record) : Bool :=
  if c.call.protocol = [] ∨ c.call.protocol ≠ protocol then false
  else
    let sameCall := c.call.recordSlot = slot ∧ c.call.epoch = record.epoch
    decide (¬sameCall ∧ record.startedM < c.call.startedM)

/-- The record a call note takes notice of, with its protocol's name. -/
def callNoted (c : Coord) (a : Answer) (slot : ℕ) (record : Option CallState.Record) :
    Option (CallState.Record × Bytes) :=
  if receiving c a ∧ slot < 2 then callAdmit c a record else none

/-- `dsd_engine_signal_search_call`, with the call record of the slot. -/
def searchCall (slot : ℕ) (record : Option CallState.Record) : Prog Unit := do
  let s ← get
  let a ← ask
  match callNoted s.c a slot record with
  | none => pure ()
  | some (record, protocol) =>
    let next := searchCallFromRecord record protocol slot
    if callSuperseded s.c protocol slot record then pure ()
    else if searchCallEqual next s.c.call then pure ()
    else searchRefreshed (refreshCall { s.c.visited with call := next })

/-- `dsd_engine_signal_search_notice`. -/
def searchNotice (session : BitVec 64) (message : String) : Prog Unit := do
  let s ← get
  onlyIf (s.c.config.sessionId = session ∧ s.c.phase ≠ .stopped ∧ s.c.phase ≠ .error) do
    modifyC fun c => { c with message := message }
    searchPublish false

/-- The level an outstanding live measurement gives. -/
def searchLiveReport (now : BitVec 64) : Prog Unit := do
  let a ← ask
  if a.measureGet = 0 then pure ()
  else do
    modifyC fun c => { c with liveMeasuring := false, liveNext := now + 250 }
    let s ← get
    if a.measureGet = 1 ∧ a.reportSession = s.c.config.sessionId ∧
        a.reportRequest = s.c.liveRequest ∧ s.requested.length = 1 then
      if (a.verdict 0).valid then do
        modifyC fun c => { c with livePowerValid := true, liveAccepted := now }
        searchPublish false
      else modifyC fun c => { c with liveNext := now + 1000 }
    else pure ()

/-- The next live measurement. -/
def searchLiveRequest (now : BitVec 64) : Prog Unit := do
  let s ← get
  let a ← ask
  let landed : Bool :=
    match a.captureGet with
    | some k => decide (k.generation = a.outputGeneration ∧
        (k.captureHz.toNat : ℤ) - k.captureOffsetHz = s.c.hit.frequencyHz.toNat)
    | none => false
  if landed = false then modifyC fun c => { c with liveNext := now + 250 }
  else do
    modifyC fun c => { c with request := c.request + 1, liveRequest := c.request + 1 }
    if a.measureRequest = 0 then do
      modify fun s => { s with requested := [s.c.hit.frequencyHz] }
      modifyC fun c => { c with liveMeasuring := true }
    else modifyC fun c => { c with liveNext := now + 1000 }

/-- `search_live_strength`. -/
def searchLiveStrength : Prog Unit := do
  let s ← get
  let a ← ask
  onlyIf (s.c.livePowerValid ∧ 1750 ≤ a.nowMs - s.c.liveAccepted) do
    modifyC fun c => { c with livePowerValid := false }
    searchPublish false
  if s.c.liveMeasuring then searchLiveReport a.nowMs
  else if a.nowMs < s.c.liveNext then pure ()
  else searchLiveRequest a.nowMs

/-- `search_note_activity`. -/
def searchNoteActivity (now : BitVec 64) : Prog Unit := do
  let a ← ask
  modifyC fun c =>
    if a.carrierOpen then { c with activity := now, listenReady := true }
    else if c.analogVisit = false ∨ c.listenReady then c
    else
      { c with
        listenReady := a.carrierObserved || decide (3000 ≤ now - c.landed)
        activity := now }

/-- `search_visit_expired`. -/
def visitExpired (c : Coord) (now : BitVec 64) : Bool :=
  !c.hold && (decide (c.range.maxVisitMs ≠ 0 ∧ c.range.maxVisitMs ≤ (now - c.acquired).toNat) ||
    (!c.probing && decide (500 ≤ now - c.activity)))

/-- `dsd_engine_signal_search_should_yield`. -/
def searchShouldYield : Prog Bool := do
  let s ← get
  let a ← ask
  if s.c.phase = .stopped then pure false
  else if a.controlsPending || s.c.skip || s.c.stopping then pure true
  else if s.c.phase = .paused ∨ s.c.phase = .tuning ∨ s.c.phase = .searching ∨
    s.c.phase = .error then
    pure true
  else do
    searchNoteActivity a.decodeMs
    onlyIf (s.c.visit = true) searchLiveStrength
    let s ← get
    if s.c.probing ∧ s.c.range.probeMs ≤ (a.decodeMs - s.c.probeStarted).toNat then pure true
    else pure (visitExpired s.c a.decodeMs)

/-- `dsd_signal_search_action`; `unknown` is any other number. -/
inductive Action where
  | stop
  | pause
  | resume
  | hold
  | skip
  | avoid
  | avoidPermanent
  | unavoid
  | avoidFrequency
  | unknown
  deriving DecidableEq

/-- `dsd_signal_search_control`. -/
structure Control where
  sessionId : BitVec 64
  hitId : BitVec 64
  action : Action
  frequencyHz : BitVec 32
  deriving DecidableEq

/-- `search_valid_action`. -/
def validAction (c : Coord) (action : Control) : Bool :=
  if action.sessionId ≠ c.config.sessionId ∨ c.phase = .stopped then false
  else
    match action.action with
    | .unavoid | .avoidFrequency => decide (action.frequencyHz ≠ 0)
    | .stop | .pause | .resume => true
    | _ => c.visit && decide (action.hitId = c.hit.hitId) && !c.hit.ended

/-- `search_avoid`: whether there was room. -/
def searchAvoid (frequency : BitVec 32) : Prog Bool := do
  let s ← get
  if s.c.config.avoids.contains frequency = false ∧ s.c.config.avoids.length = maxAvoids then
    pure false
  else do
    modifyC fun c =>
      { c with
        config :=
          if c.config.avoids.contains frequency then c.config
          else { c.config with avoids := c.config.avoids ++ [frequency] }
        skip :=
          c.skip || (c.visit && !c.hit.ended && decide (c.hit.frequencyHz = frequency)) }
    pure true

/-- `search_pause`. -/
def searchPause : Prog Unit := do
  searchEndHit
  searchCancelMeasurements
  modifyC fun c => { c with hold := false, skip := false, visit := false, phase := .paused }

/-- `search_unavoid`. -/
def searchUnavoid (frequency : BitVec 32) : Prog Unit :=
  modifyC fun c =>
    match c.config.avoids.idxOf? frequency with
    | none => c
    | some i =>
      let last := c.config.avoids.getLast?.getD 0
      { c with config := { c.config with avoids := (c.config.avoids.set i last).dropLast } }

/-- `search_avoid_action`. -/
def searchAvoidAction (frequency : BitVec 32) : Prog Bool := do
  let ok ← searchAvoid frequency
  if ok then pure true
  else do
    let s ← get
    onlyIf (s.c.phase ≠ .error) do
      modifyC fun c => { c with message := "The avoid list is full" }
      searchPublish false
    pure false

/-- `search_resume`. -/
def searchResume : Prog Bool := do
  let s ← get
  if s.c.phase ≠ .paused then pure false
  else do
    modifyC fun c => { c with needSpan := true, visit := false, phase := .searching }
    pure true

/-- `search_toggle_hold`. -/
def searchToggleHold : Prog Unit :=
  modifyC fun c =>
    let c := { c with hold := !c.hold }
    if c.phase ≠ .tuning then { c with phase := receptionPhase c } else c

/-- `search_apply_action`: whether the action was taken. -/
def searchApplyAction (action : Control) : Prog Bool := do
  let s ← get
  match action.action with
  | .stop => do
    let a ← ask
    modifyC fun c => { c with stopping := true, tuneStarted := a.nowMs }
    pure true
  | .pause => do
    searchPause
    pure true
  | .resume => searchResume
  | .hold => do
    searchToggleHold
    pure true
  | .avoid | .avoidPermanent => searchAvoidAction s.c.hit.frequencyHz
  | .avoidFrequency => searchAvoidAction action.frequencyHz
  | .skip => do
    modifyC fun c => { c with skip := true }
    pure true
  | .unavoid => do
    searchUnavoid action.frequencyHz
    pure true
  | .unknown => pure false

/-- `dsd_engine_signal_search_control`. -/
def searchControl (action : Control) : Prog Bool := do
  let s ← get
  if validAction s.c action = false then pure false
  else do
    let ok ← searchApplyAction action
    if ok = false then pure false
    else do
      modifyC fun c => { c with message := if c.phase ≠ .error then "" else c.message }
      searchPublish false
      pure true

end DsdNeo.SignalSearch
