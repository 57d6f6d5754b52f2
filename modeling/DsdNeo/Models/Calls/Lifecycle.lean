import DsdNeo.Models.Calls.Observe

/-!
# The calls on the slot

Every call takes the slot as it stands: crypto updates on the call that is running or
on one that has ended, media marks, ends and the evidence that follows them, texts that
arrive late, and records brought back from another context.
-/

namespace DsdNeo.CallState

open DsdNeo.Text

/-- `dsd_call_crypto_update`. -/
structure CryptoUpdate where
  classification : Crypto
  algid : BitVec 8
  kid : BitVec 16
  mi : BitVec 64
  audioPermitted : Bool
  observedM : ℚ
  received : BitVec 8
  contradicted : BitVec 8
  encObserved : BitVec 8
  carried : Bool

/-- `DSD_CALL_ENC_OBSERVED_ENCRYPTED`. -/
def callEncObservedEncrypted : BitVec 8 := 1

/-- `DSD_CALL_ENC_OBSERVED_CLEAR`. -/
def callEncObservedClear : BitVec 8 := 2

/-- `call_state_crypto_target_accepts`. -/
def callStateCryptoTargetAccepts (snapshot : Record) (includeEnded : Bool) : Bool :=
  if snapshot.epoch = 0 then false
  else if snapshot.phase = .active then true
  else includeEnded && decide (snapshot.phase = .ended)

/-- `call_state_crypto_receives_new`. -/
def callStateCryptoReceivesNew (snapshot : Record) (update : CryptoUpdate) : Bool :=
  decide (update.received &&& callCryptoRxAlg ≠ 0 ∧
      (snapshot.cryptoReceived &&& callCryptoRxAlg = 0 ∨ snapshot.receivedAlgid ≠ update.algid)) ||
    decide (update.received &&& callCryptoRxKid ≠ 0 ∧
      (snapshot.cryptoReceived &&& callCryptoRxKid = 0 ∨ snapshot.receivedKid ≠ update.kid))

/-- `call_state_enc_received_after`. -/
def callStateEncReceivedAfter (snapshot : Record) (update : CryptoUpdate) : Bool :=
  if update.encObserved = callEncObservedEncrypted then true
  else if update.encObserved = callEncObservedClear then false
  else snapshot.encReceived

/-- `call_state_crypto_withdraws`. -/
def callStateCryptoWithdraws (snapshot : Record) (update : CryptoUpdate) : BitVec 8 :=
  update.contradicted &&& ~~~update.received &&& snapshot.cryptoReceived

/-- `call_state_crypto_update_owns_values`. -/
def callStateCryptoUpdateOwnsValues (snapshot : Record) (update : CryptoUpdate) : Bool :=
  if update.carried then false
  else decide ¬ (snapshot.cryptoRestored ∧ update.received = 0 ∧ update.algid = 0 ∧ update.kid = 0)

/-- `call_state_crypto_differs`. -/
def callStateCryptoDiffers (snapshot : Record) (update : CryptoUpdate) : Bool :=
  let owns := callStateCryptoUpdateOwnsValues snapshot update
  decide (snapshot.crypto ≠ update.classification) ||
    (owns && decide (snapshot.algid ≠ update.algid ∨ snapshot.kid ≠ update.kid ∨
      snapshot.mi ≠ update.mi)) ||
    decide (snapshot.audioPermitted ≠ update.audioPermitted) ||
    callStateCryptoReceivesNew snapshot update ||
    decide (callStateCryptoWithdraws snapshot update ≠ 0) ||
    decide (callStateEncReceivedAfter snapshot update ≠ snapshot.encReceived)

/-- `call_state_apply_received_crypto`. -/
def callStateApplyReceivedCrypto (snapshot : Record) (update : CryptoUpdate) : Record :=
  let withdrawn := callStateCryptoWithdraws snapshot update
  let snapshot :=
    if withdrawn &&& callCryptoRxAlg ≠ 0 then { snapshot with receivedAlgid := 0 } else snapshot
  let snapshot :=
    if withdrawn &&& callCryptoRxKid ≠ 0 then { snapshot with receivedKid := 0 } else snapshot
  let snapshot := { snapshot with cryptoReceived := snapshot.cryptoReceived &&& ~~~withdrawn }
  let snapshot :=
    if update.received &&& callCryptoRxAlg ≠ 0 then
      { snapshot with
        receivedAlgid := update.algid
        cryptoReceived := snapshot.cryptoReceived ||| callCryptoRxAlg }
    else snapshot
  if update.received &&& callCryptoRxKid ≠ 0 then
    { snapshot with
      receivedKid := update.kid
      cryptoReceived := snapshot.cryptoReceived ||| callCryptoRxKid }
  else snapshot

/-- The record with the values an update publishes. -/
def cryptoPublished (snapshot : Record) (update : CryptoUpdate) : Record :=
  let encReceived := callStateEncReceivedAfter snapshot update
  let snapshot := { snapshot with crypto := update.classification }
  let snapshot :=
    if callStateCryptoUpdateOwnsValues snapshot update then
      { snapshot with
        algid := update.algid
        kid := update.kid
        mi := update.mi
        cryptoRestored := false }
    else snapshot
  { snapshot with audioPermitted := update.audioPermitted, encReceived := encReceived }

/-- The record as a crypto update leaves it. -/
def cryptoUpdated (snapshot : Record) (update : CryptoUpdate) (crcInvalid : BitVec 8) (clock : ℚ) :
    Record :=
  let snapshot := cryptoPublished snapshot update
  let snapshot :=
    if update.carried then snapshot else callStateApplyReceivedCrypto snapshot update
  let snapshot := { snapshot with crcInvalid := snapshot.crcInvalid ||| crcInvalid }
  if snapshot.phase = .active then
    { snapshot with updatedM := callStateObservedM update.observedM clock }
  else snapshot

/-- `call_state_update_crypto`. -/
def callStateUpdateCrypto (w : Slot) (update : CryptoUpdate) (includeEnded : Bool)
    (crcInvalid : BitVec 8) (clock : ℚ) : Bool × Slot :=
  if ¬ callStateCryptoTargetAccepts w.record includeEnded then (false, w)
  else if ¬ callStateCryptoDiffers w.record update ∧ crcInvalid &&& ~~~w.record.crcInvalid = 0 then
    (true, w)
  else (true, w.publish (cryptoUpdated w.record update crcInvalid clock))

/-- A record whose crypto values are forgotten. -/
def Record.forgotten (snapshot : Record) : Record :=
  { snapshot with
    algid := 0
    kid := 0
    mi := 0
    cryptoReceived := 0
    receivedAlgid := 0
    receivedKid := 0
    cryptoRestored := false
    encReceived := false }

/-- `dsd_call_state_forget_crypto_values`. -/
def callStateForgetCryptoValues (w : Slot) : Bool × Slot :=
  let r := w.record
  if r.epoch = 0 ∨ r.phase ≠ .active ∨
      (r.algid = 0 ∧ r.kid = 0 ∧ r.mi = 0 ∧ r.cryptoReceived = 0 ∧ r.receivedAlgid = 0 ∧
        r.receivedKid = 0 ∧ r.cryptoRestored = false ∧ r.encReceived = false) then (false, w)
  else (true, w.publish r.forgotten)

/-- `dsd_call_state_update_media`. -/
def callStateUpdateMedia (w : Slot) (mediaActive : Bool) (observedM clock : ℚ) : Bool × Slot :=
  let r := w.record
  if r.epoch = 0 ∨ r.phase ≠ .active then (false, w)
  else
    let nowM := callStateObservedM observedM clock
    let r := { r with mediaActive := mediaActive, updatedM := nowM }
    let r :=
      if mediaActive then
        { r with
          mediaStartedM := if r.mediaStartedM ≤ 0 then nowM else r.mediaStartedM
          mediaUpdatedM := nowM }
      else r
    (true, w.publish r)

/-- `dsd_call_state_end_ex`. -/
def callStateEndEx (w : Slot) (observedM clock : ℚ) (reason : EndReason) : Bool × Slot :=
  let r := w.record
  if r.epoch = 0 ∨ r.phase ≠ .active then
    let retracts := decide (reason = .explicit ∨ reason = .terminator) &&
      callStateEndReasonIsRecoverable r.endReason
    let corroborates := decide (reason = .unverifiedTerminator ∧
      r.endReason = .unverifiedTerminator)
    if r.epoch ≠ 0 ∧ r.phase = .ended ∧ (retracts ∨ corroborates) then
      (true, w.publish
        { r with endReason := if reason = .terminator ∨
          corroborates then .terminator else .explicit })
    else (false, w)
  else
    let nowM := callStateObservedM observedM clock
    (true, w.publish
      { r with
        phase := .ended
        endReason := reason
        mediaActive := false
        audioPermitted := false
        endedM := nowM
        updatedM := nowM })

/-- One slot's part of `dsd_call_context_restore_snapshot`: the record of the context, whose
end is a hop and never a fade. -/
def callContextRestoreSnapshot (w : Slot) (record : Record) (revision : BitVec 64) : Slot where
  record := if record.phase = .ended then { record with endReason := .explicit } else record
  epochSequence := if w.epochSequence < record.epoch then record.epoch else w.epochSequence
  revision := revision

/-- One slot's part of `dsd_call_state_restore_snapshot`. -/
def callStateRestoreSnapshot (w : Slot) (record : Record) (revision : BitVec 64) : Slot where
  record := record
  epochSequence := if w.epochSequence < record.epoch then record.epoch else w.epochSequence
  revision := revision

/-- `dsd_call_state_enrich_text`. -/
def callStateEnrichText (w : Slot) (epoch : BitVec 64) (sourceText targetText route0 route1 : Bytes)
    (observedM clock : ℚ) : Bool × Slot :=
  let r := w.record
  if epoch = 0 ∨ r.phase ≠ .active ∨ r.epoch ≠ epoch then (false, w)
  else (true, w.publish
    { r with
      sourceText := callStateApplyText r.sourceText sourceText
      targetText := callStateApplyText r.targetText targetText
      routeText0 := callStateApplyText r.routeText0 route0
      routeText1 := callStateApplyText r.routeText1 route1
      updatedM := callStateObservedM observedM clock })

/-- `dsd_call_state_note_key_selection`, its bounds on the arguments apart. -/
def callStateNoteKeySelection (w : Slot) (epoch : BitVec 64) (selection : KeySelection) :
    Bool × Slot :=
  let r := w.record
  if epoch = 0 ∨ r.epoch ≠ epoch ∨ r.phase = .idle then (false, w)
  else
    let selection := { selection with valid := true, algorithm := r.algid }
    if r.keySelection = selection then (true, w)
    else (true, w.publish { r with keySelection := selection })

/-- `dsd_call_state_refresh_receive`, for the verdict and the label the policy gives. -/
def callStateRefreshReceive (w : Slot) (identity : ReceiveIdentity) (verdict : BitVec 8)
    (label : Bytes) (clock : ℚ) : Slot :=
  let r := w.record
  if r.phase ≠ .active then w
  else if receiveIdentityChanged r.receiveIdentity identity then
    if r.protocol = syncAnalog then w else (callStateEndEx w 0 clock .explicit).2
  else
    { w with
      record := { r with
        receiveVerdict := verdict
        receiveIdentity := receiveIdentityMerge r.receiveIdentity identity
        serviceLabel := label } }

/-- A call on the slot. -/
inductive Op where
  | observe (observation : Observation) (boundary : Boundary) (rx : Reception)
  | endEx (observedM clock : ℚ) (reason : EndReason)
  | updateCrypto (update : CryptoUpdate) (includeEnded : Bool) (crcInvalid : BitVec 8) (clock : ℚ)
  | updateMedia (mediaActive : Bool) (observedM clock : ℚ)
  | enrichText (epoch : BitVec 64) (sourceText targetText route0 route1 : Bytes)
      (observedM clock : ℚ)
  | forgetCryptoValues
  | noteKeySelection (epoch : BitVec 64) (selection : KeySelection)
  | refreshReceive (identity : ReceiveIdentity) (verdict : BitVec 8) (label : Bytes) (clock : ℚ)

/-- The slot after a call. -/
def perform (w : Slot) : Op → Slot
  | .observe observation boundary rx => (callStateObserve w observation boundary rx).slot
  | .endEx observedM clock reason => (callStateEndEx w observedM clock reason).2
  | .updateCrypto update includeEnded crcInvalid clock =>
    (callStateUpdateCrypto w update includeEnded crcInvalid clock).2
  | .updateMedia mediaActive observedM clock =>
    (callStateUpdateMedia w mediaActive observedM clock).2
  | .enrichText epoch sourceText targetText route0 route1 observedM clock =>
    (callStateEnrichText w epoch sourceText targetText route0 route1 observedM clock).2
  | .forgetCryptoValues => (callStateForgetCryptoValues w).2
  | .noteKeySelection epoch selection => (callStateNoteKeySelection w epoch selection).2
  | .refreshReceive identity verdict label clock =>
    callStateRefreshReceive w identity verdict label clock

/-- What an epoch's life hangs on. -/
structure Life where
  epoch : BitVec 64
  phase : Phase
  endReason : EndReason
  endedM : ℚ

/-- The life of the epoch on the slot. -/
def Record.life (r : Record) : Life := ⟨r.epoch, r.phase, r.endReason, r.endedM⟩

/-- The crypto values of a record, and what of them was received. -/
structure CryptoView where
  algid : BitVec 8
  kid : BitVec 16
  mi : BitVec 64
  cryptoReceived : BitVec 8
  receivedAlgid : BitVec 8
  receivedKid : BitVec 16
  cryptoRestored : Bool

/-- The crypto a record holds. -/
def Record.cryptoView (r : Record) : CryptoView :=
  ⟨r.algid, r.kid, r.mi, r.cryptoReceived, r.receivedAlgid, r.receivedKid, r.cryptoRestored⟩

/-- Received values leave the life alone. -/
theorem callStateApplyReceivedCrypto_life (r : Record) (update : CryptoUpdate) :
    (callStateApplyReceivedCrypto r update).life = r.life := by
  unfold callStateApplyReceivedCrypto Record.life
  dsimp only
  split_ifs <;> rfl

/-- Publishing values leaves the life of the epoch alone. -/
theorem cryptoPublished_life (r : Record) (update : CryptoUpdate) :
    (cryptoPublished r update).life = r.life := by
  unfold cryptoPublished Record.life
  dsimp only
  split_ifs <;> rfl

theorem cryptoUpdated_life (r : Record) (update : CryptoUpdate) (crcInvalid : BitVec 8)
    (clock : ℚ) : (cryptoUpdated r update crcInvalid clock).life = r.life := by
  have hpublished := cryptoPublished_life r update
  have hreceived := (callStateApplyReceivedCrypto_life _ update).trans hpublished
  unfold cryptoUpdated
  dsimp only
  split_ifs
  · exact hpublished
  · exact hpublished
  · exact hreceived
  · exact hreceived

theorem cryptoUpdated_cryptoView (r : Record) (update : CryptoUpdate) (crcInvalid : BitVec 8)
    (clock : ℚ) : (cryptoUpdated r update crcInvalid clock).cryptoView =
      (if update.carried then cryptoPublished r update
        else callStateApplyReceivedCrypto (cryptoPublished r update) update).cryptoView := by
  unfold cryptoUpdated
  dsimp only
  split_ifs <;> rfl

/-- The slot holds the same epoch in the same stage of its life. -/
def Slot.SameLife (w w' : Slot) : Prop :=
  w'.record.life = w.record.life ∧ w'.epochSequence = w.epochSequence

/-- Refused, nothing new, or published. -/
theorem callStateUpdateCrypto_cases (w : Slot) (update : CryptoUpdate) (includeEnded : Bool)
    (crcInvalid : BitVec 8) (clock : ℚ) :
    callStateUpdateCrypto w update includeEnded crcInvalid clock = (false, w) ∨
    (callStateCryptoDiffers w.record update = false ∧
      callStateUpdateCrypto w update includeEnded crcInvalid clock = (true, w)) ∨
    callStateUpdateCrypto w update includeEnded crcInvalid clock =
      (true, w.publish (cryptoUpdated w.record update crcInvalid clock)) := by
  unfold callStateUpdateCrypto
  split_ifs with haccepts hskips
  · exact .inr (.inl ⟨Bool.eq_false_iff.mpr hskips.1, rfl⟩)
  · exact .inr (.inr rfl)
  · exact .inl rfl

/-- A crypto update leaves the life alone. -/
theorem sameLife_updateCrypto (w : Slot) (update : CryptoUpdate) (includeEnded : Bool)
    (crcInvalid : BitVec 8) (clock : ℚ) :
    w.SameLife (callStateUpdateCrypto w update includeEnded crcInvalid clock).2 := by
  rcases callStateUpdateCrypto_cases w update includeEnded crcInvalid clock with h | ⟨-, h⟩ | h
  · rw [h]
    exact ⟨rfl, rfl⟩
  · rw [h]
    exact ⟨rfl, rfl⟩
  · rw [h]
    exact ⟨cryptoUpdated_life _ _ _ _, rfl⟩

/-- So does a media update. -/
theorem sameLife_updateMedia (w : Slot) (mediaActive : Bool) (observedM clock : ℚ) :
    w.SameLife (callStateUpdateMedia w mediaActive observedM clock).2 := by
  unfold callStateUpdateMedia
  dsimp only
  split_ifs <;> exact ⟨rfl, rfl⟩

/-- A media update leaves the crypto view alone. -/
theorem cryptoView_updateMedia (w : Slot) (mediaActive : Bool) (observedM clock : ℚ) :
    (callStateUpdateMedia w mediaActive observedM clock).2.record.cryptoView =
    w.record.cryptoView := by
  unfold callStateUpdateMedia
  dsimp only
  split_ifs <;> rfl

/-- Text leaves the life alone. -/
theorem sameLife_enrichText (w : Slot) (epoch : BitVec 64)
    (sourceText targetText route0 route1 : Bytes) (observedM clock : ℚ) :
    w.SameLife
      (callStateEnrichText w epoch sourceText targetText route0 route1 observedM clock).2 := by
  unfold callStateEnrichText
  dsimp only
  split_ifs <;> exact ⟨rfl, rfl⟩

theorem cryptoView_enrichText (w : Slot) (epoch : BitVec 64)
    (sourceText targetText route0 route1 : Bytes) (observedM clock : ℚ) :
    (callStateEnrichText w epoch sourceText targetText route0 route1
      observedM clock).2.record.cryptoView = w.record.cryptoView := by
  unfold callStateEnrichText
  dsimp only
  split_ifs <;> rfl

/-- Forgetting values leaves the life alone. -/
theorem sameLife_forgetCryptoValues (w : Slot) : w.SameLife (callStateForgetCryptoValues w).2 := by
  unfold callStateForgetCryptoValues
  dsimp only
  split_ifs <;> exact ⟨rfl, rfl⟩

/-- A key chosen leaves the life alone. -/
theorem sameLife_noteKeySelection (w : Slot) (epoch : BitVec 64) (selection : KeySelection) :
    w.SameLife (callStateNoteKeySelection w epoch selection).2 := by
  unfold callStateNoteKeySelection
  dsimp only
  split_ifs <;> exact ⟨rfl, rfl⟩

theorem cryptoView_noteKeySelection (w : Slot) (epoch : BitVec 64) (selection : KeySelection) :
    (callStateNoteKeySelection w epoch selection).2.record.cryptoView = w.record.cryptoView := by
  unfold callStateNoteKeySelection
  dsimp only
  split_ifs <;> rfl

/-- Another identity ends the running call, else its life stays. -/
theorem callStateRefreshReceive_cases (w : Slot) (identity : ReceiveIdentity) (verdict : BitVec 8)
    (label : Bytes) (clock : ℚ) :
    ((w.record.phase = .active ∧ receiveIdentityChanged w.record.receiveIdentity identity = true ∧
        w.record.protocol ≠ syncAnalog) ∧
      callStateRefreshReceive w identity verdict label clock =
        (callStateEndEx w 0 clock .explicit).2) ∨
    (¬ (w.record.phase = .active ∧
        receiveIdentityChanged w.record.receiveIdentity identity = true ∧
        w.record.protocol ≠ syncAnalog) ∧
      w.SameLife (callStateRefreshReceive w identity verdict label clock) ∧
      (callStateRefreshReceive w identity verdict label clock).record.cryptoView =
        w.record.cryptoView) := by
  unfold callStateRefreshReceive
  dsimp only
  split_ifs with hactive hchanged hanalog
  · exact .inr ⟨fun h => hactive h.1, ⟨rfl, rfl⟩, rfl⟩
  · exact .inr ⟨fun h => h.2.2 hanalog, ⟨rfl, rfl⟩, rfl⟩
  · exact .inl ⟨⟨not_not.mp hactive, hchanged, hanalog⟩, rfl⟩
  · exact .inr ⟨fun h => hchanged h.2.1, ⟨rfl, rfl⟩, rfl⟩

/-- A running call ends, an ended one is made final, or nothing changes. -/
theorem callStateEndEx_cases (w : Slot) (observedM clock : ℚ) (reason : EndReason) :
    (w.record.epoch ≠ 0 ∧ w.record.phase = .active ∧
      (callStateEndEx w observedM clock reason).2.record.life =
        ⟨w.record.epoch, .ended, reason, callStateObservedM observedM clock⟩) ∨
    (w.record.phase = .ended ∧
      callStateEndReasonIsRecoverable
        (callStateEndEx w observedM clock reason).2.record.endReason = false ∧
      (callStateEndEx w observedM clock reason).2.record.phase = .ended) ∨
    ((w.record.phase = .active → w.record.epoch = 0) ∧
      (w.record.epoch ≠ 0 → w.record.phase = .ended →
        callStateEndReasonIsRecoverable w.record.endReason = true →
        reason ≠ .explicit ∧ reason ≠ .terminator ∧
          ¬ (w.record.endReason = .unverifiedTerminator ∧ reason = .unverifiedTerminator)) ∧
      (callStateEndEx w observedM clock reason).2 = w) := by
  by_cases hrunning : w.record.epoch = 0 ∨ w.record.phase ≠ .active
  · simp only [callStateEndEx, if_pos hrunning]
    split_ifs with htighten hfinal
    · exact .inr (.inl ⟨htighten.2.1, rfl, htighten.2.1⟩)
    · exact .inr (.inl ⟨htighten.2.1, rfl, htighten.2.1⟩)
    · refine .inr (.inr ⟨?_, ?_, rfl⟩)
      · intro hactive
        exact hrunning.resolve_right (not_not_intro hactive)
      · intro hepoch hended hrecoverable
        have hnone := fun h => htighten ⟨hepoch, hended, h⟩
        rw [hrecoverable] at hnone
        simp only [Bool.and_true, decide_eq_true_eq, imp_false, not_or] at hnone
        exact ⟨hnone.1.1, hnone.1.2, fun h => hnone.2 h.symm⟩
  · simp only [callStateEndEx, if_neg hrunning]
    rw [not_or, not_not] at hrunning
    exact .inl ⟨hrunning.1, hrunning.2, rfl⟩

theorem cryptoView_endEx (w : Slot) (observedM clock : ℚ) (reason : EndReason) :
    (callStateEndEx w observedM clock reason).2.record.cryptoView = w.record.cryptoView := by
  unfold callStateEndEx
  dsimp only
  split_ifs <;> rfl

/-- An end keeps the epoch. -/
theorem callStateEndEx_epoch (w : Slot) (observedM clock : ℚ) (reason : EndReason) :
    (callStateEndEx w observedM clock reason).2.epochSequence = w.epochSequence ∧
      (callStateEndEx w observedM clock reason).2.record.epoch = w.record.epoch := by
  unfold callStateEndEx
  dsimp only
  split_ifs <;> exact ⟨rfl, rfl⟩

end DsdNeo.CallState
