import DsdNeo.Core.Text.Render
import DsdNeo.Core.Version.Counter

/-!
# The call on a slot

Each slot holds the record of one call: who speaks to whom, what service and crypto it
was heard with, when it began and how it ended. Texts are what stands before a string's
terminator, and times are exact.
-/

namespace DsdNeo.CallState

open DsdNeo.Text

/-- `dsd_call_phase`. -/
inductive Phase where
  | idle | active | ended
  deriving DecidableEq

/-- `dsd_call_kind`. -/
inductive Kind where
  | unknown | voice | groupVoice | privateVoice | data
  deriving DecidableEq

/-- `dsd_call_crypto_state`. -/
inductive Crypto where
  | unknown | clear | encryptedPending | encrypted | decryptable
  deriving DecidableEq

/-- `dsd_call_end_reason`. -/
inductive EndReason where
  | explicit | syncLoss | unverifiedTerminator | terminator
  deriving DecidableEq

/-- `dsd_call_boundary`. -/
inductive Boundary where
  | continue | begin
  deriving DecidableEq

/-- `dsd_receive_identity`. -/
structure ReceiveIdentity where
  value : BitVec 16
  kind : BitVec 8
  known : Bool
  slot : BitVec 8
  slotPending : Bool
  deriving DecidableEq

/-- `dsd_call_key_selection`. -/
structure KeySelection where
  keyEpoch : BitVec 64
  effectiveId : BitVec 32
  signaledId : BitVec 16
  valid : Bool
  source : BitVec 8
  algorithm : BitVec 8
  available : BitVec 8
  fallback : BitVec 8
  profileRef : Bytes
  deriving DecidableEq

/-- `dsd_call_snapshot`. -/
structure Record where
  revision : BitVec 64
  epoch : BitVec 64
  otaTargetId : BitVec 64
  policyTargetId : BitVec 64
  otaSourceId : BitVec 64
  frequencyHz : BitVec 64
  mi : BitVec 64
  startedM : ℚ
  updatedM : ℚ
  endedM : ℚ
  mediaStartedM : ℚ
  mediaUpdatedM : ℚ
  phase : Phase
  protocol : ℤ
  kind : Kind
  channel : BitVec 32
  crypto : Crypto
  serviceOptions : BitVec 16
  kid : BitVec 16
  hasServiceMetadata : Bool
  emergency : BitVec 8
  priority : BitVec 8
  algid : BitVec 8
  audioPermitted : Bool
  mediaActive : Bool
  endReason : EndReason
  crcInvalid : BitVec 8
  cryptoReceived : BitVec 8
  receivedAlgid : BitVec 8
  receivedKid : BitVec 16
  cryptoRestored : Bool
  encReceived : Bool
  sourceText : Bytes
  targetText : Bytes
  routeText0 : Bytes
  routeText1 : Bytes
  keySelection : KeySelection
  receiveIdentity : ReceiveIdentity
  receiveVerdict : BitVec 8
  serviceLabel : Bytes
  rxIdEpoch : BitVec 32
  deriving DecidableEq

/-- `dsd_call_observation`, its slot apart. -/
structure Observation where
  protocol : ℤ
  kind : Kind
  otaTargetId : BitVec 64
  policyTargetId : BitVec 64
  otaSourceId : BitVec 64
  sourceText : Bytes
  targetText : Bytes
  routeText0 : Bytes
  routeText1 : Bytes
  channel : BitVec 32
  frequencyHz : BitVec 64
  serviceOptions : BitVec 16
  emergency : BitVec 8
  priority : BitVec 8
  hasServiceMetadata : Bool
  observedM : ℚ

/-- What the receiver knows when a call is observed: the identity received, the carrier it
comes from, the checks that failed, and the clock. -/
structure Reception where
  received : ReceiveIdentity
  rxIdEpoch : BitVec 32
  crcInvalid : BitVec 8
  clock : ℚ

/-- A DMR group call, heard at an instant. -/
def groupCall (target : BitVec 64) (observedM : ℚ) : Observation where
  protocol := 12
  kind := .groupVoice
  otaTargetId := target
  policyTargetId := 0
  otaSourceId := 0
  sourceText := []
  targetText := []
  routeText0 := []
  routeText1 := []
  channel := 0
  frequencyHz := 0
  serviceOptions := 0
  emergency := 0
  priority := 0
  hasServiceMetadata := false
  observedM := observedM

/-- A reception that tells nothing of its own. -/
def plainReception : Reception := ⟨⟨0, 0, false, 0, false⟩, 0, 0, 1⟩

/-- `DSD_SYNC_NONE`. -/
def syncNone : ℤ := -1

/-- `DSD_SYNC_ANALOG`. -/
def syncAnalog : ℤ := 39

/-- `DSD_CALL_REACQUIRE_GAP_S`. -/
def callReacquireGapS : ℚ := 1 / 2

/-- `DSD_CALL_TERMINATOR_HEAL_GAP_S`. -/
def callTerminatorHealGapS : ℚ := 1 / 4

/-- `DSD_CALL_IDENTITY_TEXT_SIZE`. -/
def callIdentityTextSize : ℕ := 64

/-- `DSD_CALL_CRYPTO_RX_ALG`. -/
def callCryptoRxAlg : BitVec 8 := 1

/-- `DSD_CALL_CRYPTO_RX_KID`. -/
def callCryptoRxKid : BitVec 8 := 2

/-- A receive identity set to zero. -/
def ReceiveIdentity.cleared : ReceiveIdentity := ⟨0, 0, false, 0, false⟩

/-- A key selection set to zero. -/
def KeySelection.cleared : KeySelection := ⟨0, 0, 0, false, 0, 0, 0, 0, []⟩

/-- A record set to zero, with no protocol. -/
def Record.cleared : Record where
  revision := 0
  epoch := 0
  otaTargetId := 0
  policyTargetId := 0
  otaSourceId := 0
  frequencyHz := 0
  mi := 0
  startedM := 0
  updatedM := 0
  endedM := 0
  mediaStartedM := 0
  mediaUpdatedM := 0
  phase := .idle
  protocol := syncNone
  kind := .unknown
  channel := 0
  crypto := .unknown
  serviceOptions := 0
  kid := 0
  hasServiceMetadata := false
  emergency := 0
  priority := 0
  algid := 0
  audioPermitted := false
  mediaActive := false
  endReason := .explicit
  crcInvalid := 0
  cryptoReceived := 0
  receivedAlgid := 0
  receivedKid := 0
  cryptoRestored := false
  encReceived := false
  sourceText := []
  targetText := []
  routeText0 := []
  routeText1 := []
  keySelection := .cleared
  receiveIdentity := .cleared
  receiveVerdict := 0
  serviceLabel := []
  rxIdEpoch := 0

/-- `call_state_observed_m`. -/
def callStateObservedM (observedM clock : ℚ) : ℚ := if observedM > 0 then observedM else clock

/-- `call_state_next_nonzero`. -/
def callStateNextNonzero (value : BitVec 64) : BitVec 64 := Version.bump value

/-- The effective target of a pair of target ids. -/
def effectiveTarget (ota policy : BitVec 64) : BitVec 64 := if ota ≠ 0 then ota else policy

/-- `call_state_effective_target_observation`. -/
def callStateEffectiveTargetObservation (observation : Observation) : BitVec 64 :=
  effectiveTarget observation.otaTargetId observation.policyTargetId

/-- `call_state_effective_target_snapshot`. -/
def callStateEffectiveTargetSnapshot (snapshot : Record) : BitVec 64 :=
  effectiveTarget snapshot.otaTargetId snapshot.policyTargetId

/-- `dsd_call_state_protocol_family`. -/
def callStateProtocolFamily (protocol : ℤ) : ℤ :=
  if protocol ∈ [0, 1] then 1
  else if protocol ∈ [35, 36] then 2
  else if 2 ≤ protocol ∧ protocol ≤ 5 then 3
  else if protocol ∈ [6, 7, 18, 19] then 4
  else if protocol ∈ [8, 9, 16, 17, 76, 77, 86, 87, 98, 99, 100, 101] then 5
  else if protocol ∈ [10, 11, 12, 13, 32, 33, 34] then 6
  else if protocol ∈ [14, 15, 37, 38] then 7
  else if 20 ≤ protocol ∧ protocol ≤ 27 then 8
  else if protocol ∈ [28, 29] then 9
  else if protocol ∈ [30, 31] then 10
  else if protocol ∈ [41, 42, 43, 44] then 11
  else if protocol = syncNone then 0 else 1000 + protocol

/-- The loop of `call_state_normalize_text`: the text made so far, and whether a space is
pending. -/
def normalizeLoop : Bytes → Bytes → Bool → Bytes
  | [], out, _ => out
  | ch :: rest, out, pendingSpace =>
    if isSpace ch then normalizeLoop rest out (decide (out ≠ []))
    else
      let out := if pendingSpace ∧ out.length + 1 < callIdentityTextSize then out ++ [0x20] else out
      let out :=
        if out.length + 1 < callIdentityTextSize then
          out ++ [if ch < 0x20 ∨ ch = 0x7F then 0x5F else ch]
        else out
      normalizeLoop rest out false

/-- `call_state_normalize_text`. -/
def callStateNormalizeText (src : Bytes) : Bytes := normalizeLoop (skipSpace src) [] false

/-- `call_state_known_text_changed`. -/
def callStateKnownTextChanged (current incoming : Bytes) : Bool :=
  let normalized := callStateNormalizeText incoming
  decide (current ≠ [] ∧ normalized ≠ [] ∧ current ≠ normalized)

/-- `call_state_kind_is_voice`. -/
def callStateKindIsVoice (kind : Kind) : Bool :=
  kind = .voice || kind = .groupVoice || kind = .privateVoice

/-- `call_state_kind_changed`. -/
def callStateKindChanged (oldKind newKind : Kind) : Bool :=
  if oldKind = .unknown ∨ newKind = .unknown then false
  else if (oldKind = .voice ∨ newKind = .voice) ∧ callStateKindIsVoice oldKind ∧
      callStateKindIsVoice newKind then false
  else decide (oldKind ≠ newKind)

/-- `call_state_text_is_known`. -/
def callStateTextIsKnown (text : Bytes) : Bool := decide (callStateNormalizeText text ≠ [])

/-- `call_state_apply_text`. -/
def callStateApplyText (dst src : Bytes) : Bytes :=
  let normalized := callStateNormalizeText src
  if normalized ≠ [] then normalized else dst

/-- `dsd_receive_identity_changed`. -/
def receiveIdentityChanged (a b : ReceiveIdentity) : Bool :=
  if a.slot ≠ 0 ∧ b.slot ≠ 0 ∧ a.slot ≠ b.slot then true
  else a.known && b.known && decide (a.kind ≠ b.kind ∨ a.value ≠ b.value)

/-- `dsd_receive_identity_merge`. -/
def receiveIdentityMerge (held received : ReceiveIdentity) : ReceiveIdentity :=
  let held :=
    if received.known then
      { held with kind := received.kind, value := received.value, known := true }
    else held
  if received.slot ≠ 0 then { held with slot := received.slot, slotPending := false }
  else if held.slot = 0 then { held with slotPending := received.slotPending }
  else held

end DsdNeo.CallState
