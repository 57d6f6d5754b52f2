import DsdNeo.Core.Program.Wp
import DsdNeo.Models.Tetra.MacPdu
import DsdNeo.Models.Tuning.Request
import Mathlib.Algebra.Order.Ring.Rat

/-!
# TETRA calls: the records and what refers to them

`tetra_state_t` as far as `tetra_calls.c` and `tetra_trunk_sm.c` read and write it: eight
call records, what canonical slot 0 carries and whose speech is heard, the state machine
with the tune it has in flight, and the evidence of the carrier. What other parts of the
decoder, the tuner and the policy answer is read from a stream.
-/

namespace DsdNeo.Tetra.Calls

open Program (onlyIf)
open Tuning (TuneResult)

/-- A call identifier, fourteen bits on the air. -/
abbrev CallId := BitVec 14

/-- `tetra_chan_alloc`. -/
structure ChanAlloc where
  freqHz : ℤ
  carrier : ℕ
  timeslots : BitVec 4
  upDown : BitVec 2
  modulation : ℕ
  deriving DecidableEq

/-- An allocation of no channel. -/
def ChanAlloc.zero : ChanAlloc := ⟨0, 0, 0, 0, 0⟩

/-- `TETRA_CALL_FREE` to `TETRA_CALL_CEASED`. -/
inductive Phase where
  | free
  | setup
  | connected
  | txGranted
  | ceased
  deriving DecidableEq

/-- `tetra_label_channel`. -/
structure LabelChannel where
  epoch : BitVec 32
  carrier : ℕ
  slots : BitVec 4
  allocated : Bool
  deriving DecidableEq

/-- `tetra_call_t`. -/
structure Call where
  seenM : ℚ
  allocM : ℚ
  alloc : ChanAlloc
  calledSsi : ℕ
  callingSsi : ℕ
  /-- The calling party's network, where it is known. -/
  callingNet : Option ℕ
  talkerSsi : ℕ
  callId : CallId
  /-- The event label assigned to a party, with the channel it is valid on. -/
  eventLabel : Option (ℕ × LabelChannel)
  phase : Phase
  setupSeen : Bool
  basicService : BitVec 8
  e2ee : Bool
  airEnc : BitVec 2
  priority : ℕ
  timeout : ℕ
  usageMarker : Option ℕ
  deriving DecidableEq

/-- An unused entry. -/
def Call.zero : Call :=
  ⟨0, 0, .zero, 0, 0, some 0, 0, 0, none, .free, false, 0, false, 0, 0, 0, none⟩

/-- `TETRA_PUB_NONE` to `TETRA_PUB_DMO`, with what `published_call_id` holds for each. -/
inductive Published where
  | none
  | call (id : CallId)
  | anon (tn : ℕ)
  | dmo
  deriving DecidableEq

/-- `tetra_sm_state_e`. -/
inductive SmState where
  | idle
  | onCc
  | tuned
  deriving DecidableEq

/-- `tetra_sm_grant`. -/
structure Grant where
  freqHz : ℤ
  carrier : ℕ
  timeslots : BitVec 4
  callId : CallId
  deriving DecidableEq

/-- No grant. -/
def Grant.zero : Grant := ⟨0, 0, 0, 0⟩

/-- `tetra_sm_rollback`. -/
structure Rollback where
  trunkIsTuned : Bool
  followed : Grant
  tTuneM : ℚ
  tVoiceM : ℚ
  confirmEpoch : BitVec 32
  followedProven : Bool
  followedRetired : Bool
  state : SmState
  deriving DecidableEq

/-- A rollback of nothing. -/
def Rollback.zero : Rollback := ⟨false, .zero, 0, 0, 0, false, false, .idle⟩

/-- What the request in flight does. -/
inductive Pending where
  | none
  | grant
  | return
  deriving DecidableEq

/-- `tetra_sm_t`. -/
structure Sm where
  pendingPrev : Rollback
  followed : Grant
  tTuneM : ℚ
  tVoiceM : ℚ
  pendingRequestId : BitVec 64
  state : SmState
  pendingKind : Pending
  followedRetired : Bool
  deriving DecidableEq

/-- The state machine as it starts. -/
def Sm.zero : Sm := ⟨.zero, .zero, 0, 0, 0, .idle, .none, false⟩

/-- `tetra_confirm_t`. -/
structure Confirm where
  signallingBlocks : ℕ
  carrierBlocks : ℕ
  carrierEpoch : BitVec 32
  followedCall : Bool
  burstOpen : Bool
  burstStale : Bool

/-- What the decoder reads that these functions do not change, the tuned flag apart. -/
structure Surroundings where
  trunkEnable : Bool
  trunkIsTuned : Bool
  trunkTuneEncCalls : Bool
  trunkHangtime : ℚ
  trunkCcFreq : ℤ
  tunedFreqHz : ℤ
  rxTunedHz : ℤ
  tdmaValid : Bool
  tn : ℕ
  controlFrame : Bool
  uplink : Bool
  dmo : Bool
  network : Option (ℕ × ℕ)
  freqBand : ℕ
  freqOffset : ℕ

/-- What the talkgroup policy decides on a call. -/
structure Decision where
  tuneAllowed : Bool
  tgHoldMatch : Bool
  preemptRequested : Bool

/-- What the rest of the program answers at one instant. -/
structure Answer where
  nowM : ℚ
  /-- Canonical slot 0 carries an active TETRA call. -/
  slotActive : Bool
  /-- A key stream can be made for a carrier. -/
  keyUsable : Option ℕ → Bool
  decision : Option Decision
  shouldPreempt : Bool
  speechMuted : Bool
  tune : TuneResult
  requestId : BitVec 64
  trunkIsTuned : Bool
  status : TuneResult
  completedM : ℚ

/-- The part of the TETRA state that the calls live in. -/
structure State where
  call : Fin 8 → Call
  published : Published
  ends : BitVec 32
  heard : Bool
  held : Bool
  heardTn : ℕ
  heardM : ℚ
  heldM : ℚ
  /-- The call the heard speech belongs to. -/
  heardCall : Option CallId
  slotEnc : ℕ → ℕ
  la : Option ℕ
  dmoActive : Bool
  dmoSeenM : ℚ
  sm : Sm
  confirm : Confirm
  around : Surroundings
  answers : ℕ → Answer

/-- The state as it is allocated. -/
def State.init (around : Surroundings) (answers : ℕ → Answer) : State where
  call _ := .zero
  published := .none
  ends := 0
  heard := false
  held := false
  heardTn := 0
  heardM := 0
  heldM := 0
  heardCall := none
  slotEnc _ := 0
  la := none
  dmoActive := false
  dmoSeenM := 0
  sm := .zero
  confirm := ⟨0, 0, 0, false, false, false⟩
  around := around
  answers := answers

/-- Programs over the calls. -/
abbrev Prog := StateM State

/-- What the rest of the program answers now. -/
def ask : Prog Answer := fun s => (s.answers 0, { s with answers := fun n => s.answers (n + 1) })

/-- An edit of the state machine. -/
def modifySm (f : Sm → Sm) : Prog Unit := modify fun s => { s with sm := f s.sm }

/-- An edit of the carrier's evidence. -/
def modifyConfirm (f : Confirm → Confirm) : Prog Unit :=
  modify fun s => { s with confirm := f s.confirm }

/-- The shared tuned flag. -/
def setTrunkIsTuned (b : Bool) : Prog Unit :=
  modify fun s => { s with around := { s.around with trunkIsTuned := b } }

/-- A record in use. -/
def State.Live (s : State) (c : Fin 8) : Prop := (s.call c).phase ≠ .free

instance (s : State) (c : Fin 8) : Decidable (s.Live c) := inferInstanceAs (Decidable (_ ≠ _))

/-- `calls_find`. -/
def callsFind (s : State) (id : CallId) : Option (Fin 8) :=
  (List.finRange 8).find? fun c => decide (s.Live c ∧ (s.call c).callId = id)

/-- `calls_end_published`. -/
def callsEndPublished : Prog Unit :=
  modify fun s => if s.published = .none then s else
    { s with published := .none, ends := s.ends + 1 }

/-- `tetra_confirm_forget_followed_call`. -/
def confirmForgetFollowedCall : Prog Unit :=
  modifyConfirm fun c => { c with followedCall := false }

/-- `tetra_confirm_note_followed_call`. -/
def confirmNoteFollowedCall : Prog Unit :=
  modifyConfirm fun c =>
    if c.burstOpen && c.burstStale then c else { c with followedCall := true }

/-- `tetra_sm_followed_call_id`. -/
def smFollowedCallId (s : State) : Option CallId :=
  if s.sm.state = .tuned ∧ s.sm.followedRetired = false then some s.sm.followed.callId else none

/-- `tetra_sm_followed`. -/
def smFollowed (s : State) : Option Grant :=
  if s.sm.state = .tuned then some s.sm.followed else none

end DsdNeo.Tetra.Calls
