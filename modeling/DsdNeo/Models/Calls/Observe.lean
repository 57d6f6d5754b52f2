import DsdNeo.Models.Calls.Record

/-!
# Observing a call

An observation describes the call on the slot, or opens a new epoch for another one.
An epoch closed a moment ago by a recoverable end is taken up again where the
observation describes the same call: the new epoch is seeded with what the old one
had learned.
-/

namespace DsdNeo.CallState

open DsdNeo.Text

/-- One slot of the call state: its record, the last epoch given out, and the revision of
the whole. -/
structure Slot where
  record : Record
  epochSequence : BitVec 64
  revision : BitVec 64

/-- A slot as allocated. -/
def Slot.start : Slot := ⟨Record.cleared, 0, 0⟩

/-- A slot with another record, its revisions advanced. -/
def Slot.publish (w : Slot) (record : Record) : Slot :=
  { w with
    record := { record with revision := callStateNextNonzero record.revision }
    revision := callStateNextNonzero w.revision }

/-- `call_state_snapshot_is_provisional_voice`. -/
def callStateSnapshotIsProvisionalVoice (current : Record) : Bool :=
  decide (current.phase = .active ∧ current.kind = .voice ∧
    callStateEffectiveTargetSnapshot current = 0 ∧ current.otaSourceId = 0 ∧
    current.sourceText = [] ∧ current.targetText = [] ∧
    current.routeText0 = [] ∧ current.routeText1 = [])

/-- `call_state_observation_has_identity`. -/
def callStateObservationHasIdentity (observation : Observation) : Bool :=
  decide (callStateEffectiveTargetObservation observation ≠ 0) ||
    decide (observation.otaSourceId ≠ 0) || callStateTextIsKnown observation.sourceText ||
    callStateTextIsKnown observation.targetText || callStateTextIsKnown observation.routeText0 ||
    callStateTextIsKnown observation.routeText1

/-- `call_state_begin_specializes_provisional_voice`. -/
def callStateBeginSpecializesProvisionalVoice (current : Record) (observation : Observation)
    (boundary : Boundary) : Bool :=
  if boundary ≠ .begin ∨ ¬ callStateSnapshotIsProvisionalVoice current ∨
      ¬ callStateKindIsVoice observation.kind ∨ ¬ callStateObservationHasIdentity observation then
    false
  else if current.protocol = syncNone ∨ observation.protocol = syncNone then true
  else decide
    (callStateProtocolFamily current.protocol = callStateProtocolFamily observation.protocol)

/-- `call_state_observation_changes_identity`. -/
def callStateObservationChangesIdentity (current : Record) (observation : Observation) : Bool :=
  let oldTarget := callStateEffectiveTargetSnapshot current
  let newTarget := callStateEffectiveTargetObservation observation
  if current.protocol ≠ syncNone ∧ observation.protocol ≠ syncNone ∧
      callStateProtocolFamily current.protocol ≠ callStateProtocolFamily observation.protocol then
    true
  else if oldTarget ≠ 0 ∧ newTarget ≠ 0 ∧ oldTarget ≠ newTarget then true
  else if callStateKindChanged current.kind observation.kind then true
  else if current.otaSourceId ≠ 0 ∧ observation.otaSourceId ≠ 0 ∧
      current.otaSourceId ≠ observation.otaSourceId then true
  else callStateKnownTextChanged current.sourceText observation.sourceText ||
    callStateKnownTextChanged current.targetText observation.targetText ||
    callStateKnownTextChanged current.routeText0 observation.routeText0 ||
    callStateKnownTextChanged current.routeText1 observation.routeText1

/-- `call_state_observation_begins_epoch`. -/
def callStateObservationBeginsEpoch (current : Record) (observation : Observation)
    (boundary : Boundary) : Bool :=
  if current.phase ≠ .active then true
  else if boundary = .begin ∧
      ¬ callStateBeginSpecializesProvisionalVoice current observation boundary then true
  else callStateObservationChangesIdentity current observation

/-- `dsd_call_state_snapshot_has_identity`. -/
def callStateSnapshotHasIdentity (current : Record) : Bool :=
  decide (callStateEffectiveTargetSnapshot current ≠ 0) ||
    decide (current.otaSourceId ≠ 0) || callStateTextIsKnown current.sourceText ||
    callStateTextIsKnown current.targetText || callStateTextIsKnown current.routeText0 ||
    callStateTextIsKnown current.routeText1

/-- `dsd_call_state_end_reason_is_recoverable`. -/
def callStateEndReasonIsRecoverable (endReason : EndReason) : Bool :=
  endReason = .syncLoss || endReason = .unverifiedTerminator

/-- `dsd_call_state_end_reason_reacquire_gap_s`. -/
def callStateEndReasonReacquireGapS (endReason : EndReason) : ℚ :=
  if endReason = .unverifiedTerminator then callTerminatorHealGapS else callReacquireGapS

/-- `call_state_reacquires_ended_epoch`. -/
def callStateReacquiresEndedEpoch (current : Record) (observation : Observation) (nowM : ℚ) :
    Bool :=
  if current.phase ≠ .ended ∨ ¬ callStateEndReasonIsRecoverable current.endReason then false
  else if current.endReason = .unverifiedTerminator ∧
      callStateObservationHasIdentity observation then false
  else if ¬ callStateSnapshotHasIdentity current then false
  else if callStateObservationChangesIdentity current observation then false
  else decide (current.endedM > 0 ∧ nowM ≥ current.endedM ∧
    nowM - current.endedM ≤ callStateEndReasonReacquireGapS current.endReason)

/-- `call_state_seed_reacquired_snapshot`. -/
def callStateSeedReacquiredSnapshot (snapshot previous : Record) : Record :=
  { snapshot with
    otaSourceId := previous.otaSourceId
    otaTargetId := previous.otaTargetId
    policyTargetId := previous.policyTargetId
    sourceText := previous.sourceText
    targetText := previous.targetText
    routeText0 := previous.routeText0
    routeText1 := previous.routeText1
    kind := previous.kind
    protocol := previous.protocol
    channel := previous.channel
    frequencyHz := previous.frequencyHz
    crypto := previous.crypto
    algid := previous.algid
    kid := previous.kid
    mi := previous.mi
    cryptoReceived := previous.cryptoReceived
    cryptoRestored := decide (previous.algid ≠ 0 ∨ previous.kid ≠ 0)
    encReceived := previous.encReceived
    receivedAlgid := previous.receivedAlgid
    receivedKid := previous.receivedKid
    serviceOptions := previous.serviceOptions
    hasServiceMetadata := previous.hasServiceMetadata
    emergency := previous.emergency
    priority := previous.priority
    mediaStartedM := previous.mediaStartedM
    mediaUpdatedM := previous.mediaUpdatedM }

/-- `call_state_apply_observation`. -/
def callStateApplyObservation (snapshot : Record) (observation : Observation) : Record :=
  { snapshot with
    protocol :=
      if observation.protocol ≠ syncNone then observation.protocol else snapshot.protocol
    kind :=
      if observation.kind ≠ .unknown ∧ ¬ (observation.kind = .voice ∧
          (snapshot.kind = .groupVoice ∨ snapshot.kind = .privateVoice)) then observation.kind
      else snapshot.kind
    otaTargetId :=
      if observation.otaTargetId ≠ 0 then observation.otaTargetId else snapshot.otaTargetId
    policyTargetId :=
      if observation.policyTargetId ≠ 0 then observation.policyTargetId
      else snapshot.policyTargetId
    otaSourceId :=
      if observation.otaSourceId ≠ 0 then observation.otaSourceId else snapshot.otaSourceId
    sourceText := callStateApplyText snapshot.sourceText observation.sourceText
    targetText := callStateApplyText snapshot.targetText observation.targetText
    routeText0 := callStateApplyText snapshot.routeText0 observation.routeText0
    routeText1 := callStateApplyText snapshot.routeText1 observation.routeText1
    channel := if observation.channel ≠ 0 then observation.channel else snapshot.channel
    frequencyHz :=
      if observation.frequencyHz ≠ 0 then observation.frequencyHz else snapshot.frequencyHz
    serviceOptions :=
      if observation.hasServiceMetadata then observation.serviceOptions
      else snapshot.serviceOptions
    emergency :=
      if observation.hasServiceMetadata then observation.emergency else snapshot.emergency
    priority := if observation.hasServiceMetadata then observation.priority else snapshot.priority
    hasServiceMetadata := observation.hasServiceMetadata || snapshot.hasServiceMetadata }

/-- The record of a new epoch, before anything is known of its call. -/
def newEpoch (epoch : BitVec 64) (rx : Reception) (nowM : ℚ) : Record :=
  { Record.cleared with epoch := epoch, startedM := nowM, rxIdEpoch := rx.rxIdEpoch }

/-- The record a new epoch starts from where it takes up the epoch before it. -/
def reopened (epoch : BitVec 64) (rx : Reception) (nowM : ℚ) (previous : Record) : Record :=
  { callStateSeedReacquiredSnapshot (newEpoch epoch rx nowM) previous with
    crcInvalid := previous.crcInvalid
    receiveIdentity := receiveIdentityMerge previous.receiveIdentity rx.received }

/-- The record as the observation leaves it. -/
def observed (snapshot : Record) (observation : Observation) (rx : Reception) (nowM : ℚ) : Record :=
  { callStateApplyObservation snapshot observation with
    phase := .active
    crcInvalid := snapshot.crcInvalid ||| rx.crcInvalid
    updatedM := nowM
    endedM := 0 }

/-- What observing a call does: whether an epoch began, the record handed to the reacquire
hook, and the slot after it. -/
structure Observed where
  beginsEpoch : Bool
  healed : Option Record
  slot : Slot

/-- `dsd_call_state_observe`. -/
def callStateObserve (w : Slot) (observation : Observation) (boundary : Boundary)
    (rx : Reception) : Observed :=
  let previous := w.record
  let nowM := callStateObservedM observation.observedM rx.clock
  let serviceChanged := receiveIdentityChanged previous.receiveIdentity rx.received
  let beginsEpoch :=
    serviceChanged || callStateObservationBeginsEpoch previous observation boundary
  let reacquires :=
    beginsEpoch && !serviceChanged && callStateReacquiresEndedEpoch previous observation nowM
  if beginsEpoch then
    let epoch := callStateNextNonzero w.epochSequence
    let w := { w with epochSequence := epoch }
    if reacquires then
      ⟨true, some previous,
        w.publish (observed (reopened epoch rx nowM previous) observation rx nowM)⟩
    else
      ⟨true, none, w.publish (observed
        { newEpoch epoch rx nowM with receiveIdentity := rx.received } observation rx nowM)⟩
  else
    ⟨false, none, w.publish (observed
      { previous with receiveIdentity := receiveIdentityMerge previous.receiveIdentity rx.received }
      observation rx nowM)⟩

/-- An ended call is taken up again in its gap alone, by what does not contradict it. -/
theorem callStateReacquiresEndedEpoch_iff {current : Record} {observation : Observation}
    {nowM : ℚ} :
    callStateReacquiresEndedEpoch current observation nowM = true ↔
      current.phase = .ended ∧ callStateEndReasonIsRecoverable current.endReason = true ∧
      (current.endReason = .unverifiedTerminator →
        callStateObservationHasIdentity observation = false) ∧
      callStateSnapshotHasIdentity current = true ∧
      callStateObservationChangesIdentity current observation = false ∧
      0 < current.endedM ∧ current.endedM ≤ nowM ∧
      nowM - current.endedM ≤ callStateEndReasonReacquireGapS current.endReason := by
  unfold callStateReacquiresEndedEpoch
  cases callStateObservationHasIdentity observation <;>
    cases callStateSnapshotHasIdentity current <;>
    cases callStateObservationChangesIdentity current observation <;>
    cases callStateEndReasonIsRecoverable current.endReason <;>
    by_cases hphase : current.phase = .ended <;>
    by_cases hreason : current.endReason = .unverifiedTerminator <;>
    simp [hphase, hreason]

/-- An observation takes an ended call up, opens a new one, or goes on with the one there is. -/
theorem callStateObserve_cases (w : Slot) (observation : Observation) (boundary : Boundary)
    (rx : Reception) (nowM : ℚ) (hnow : nowM = callStateObservedM observation.observedM rx.clock) :
    (receiveIdentityChanged w.record.receiveIdentity rx.received = false ∧
      callStateReacquiresEndedEpoch w.record observation nowM = true ∧
      callStateObserve w observation boundary rx = ⟨true, some w.record,
        Slot.publish { w with epochSequence := callStateNextNonzero w.epochSequence }
          (observed (reopened (callStateNextNonzero w.epochSequence) rx nowM w.record)
            observation rx nowM)⟩) ∨
    ((receiveIdentityChanged w.record.receiveIdentity rx.received = true ∨
        callStateReacquiresEndedEpoch w.record observation nowM = false) ∧
      callStateObserve w observation boundary rx = ⟨true, none,
        Slot.publish { w with epochSequence := callStateNextNonzero w.epochSequence }
          (observed { newEpoch (callStateNextNonzero w.epochSequence) rx nowM with
            receiveIdentity := rx.received } observation rx nowM)⟩) ∨
    (receiveIdentityChanged w.record.receiveIdentity rx.received = false ∧
      w.record.phase = .active ∧
      callStateObserve w observation boundary rx = ⟨false, none,
        Slot.publish w (observed { w.record with
          receiveIdentity := receiveIdentityMerge w.record.receiveIdentity rx.received }
          observation rx nowM)⟩) := by
  subst hnow
  cases hservice : receiveIdentityChanged w.record.receiveIdentity rx.received with
  | true =>
    refine .inr (.inl ⟨.inl rfl, ?_⟩)
    simp [callStateObserve, hservice]
  | false =>
    cases hbegins : callStateObservationBeginsEpoch w.record observation boundary with
    | false =>
      refine .inr (.inr ⟨rfl, ?_, by simp [callStateObserve, hservice, hbegins]⟩)
      by_contra hphase
      simp [callStateObservationBeginsEpoch, hphase] at hbegins
    | true =>
      cases hreacquires : callStateReacquiresEndedEpoch w.record observation
          (callStateObservedM observation.observedM rx.clock) with
      | true => exact .inl ⟨rfl, rfl, by simp [callStateObserve, hservice, hbegins, hreacquires]⟩
      | false =>
        exact .inr (.inl ⟨.inr rfl, by simp [callStateObserve, hservice, hbegins, hreacquires]⟩)

end DsdNeo.CallState
