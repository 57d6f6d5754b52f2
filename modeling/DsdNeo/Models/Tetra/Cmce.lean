import DsdNeo.Core.Bits.Reader

/-!
# Call PDUs

The parsers of the call-control PDUs, each a program of reads into a snapshot that is
published as one event once every declared element has fitted.
-/

namespace DsdNeo.Tetra.Cmce

/-- `tetra_bits_read64`: a field of at most 64 bits. -/
def bitsRead64 (width : ℕ) : StateM Tape ℕ :=
  if 64 < width then do
    Tape.fail
    return 0
  else Tape.read width

/-- `tetra_bits_read`: a field of at most 32 bits. -/
def bitsRead (width : ℕ) : StateM Tape ℕ :=
  if 32 < width then do
    Tape.fail
    return 0
  else bitsRead64 width

/-- `tetra_bits_skip`. -/
def bitsSkip (width : ℕ) : StateM Tape Bool := Tape.skip width

/-- `tetra_bits_ok`. -/
def bitsOk : StateM Tape Bool := Tape.ok

/-- `tetra_bits_present`. -/
def bitsPresent : StateM Tape Bool := do
  let bit ← bitsRead 1
  let fitted ← bitsOk
  return decide (bit ≠ 0) && fitted

/-- `bits_reject`. -/
def bitsReject : StateM Tape Unit := Tape.fail

/-- One type-3/4 element after its M-bit; whether it was skipped. -/
def skipElement : StateM Tape Bool := do
  let _ ← bitsRead 4
  let length ← bitsRead 11
  let fitted ← bitsOk
  if !fitted || length == 0 then return false else bitsSkip length

/-- So many passes of the loop of `tetra_bits_skip_type34`; `none` while it still runs. -/
def skipType34Loop : ℕ → StateM Tape (Option Bool)
  | 0 => return none
  | passes + 1 => do
      let more ← bitsRead 1
      if more = 0 then some <$> bitsOk
      else do
        let skipped ← skipElement
        if skipped then skipType34Loop passes
        else do
          bitsReject
          return some false

/-- Passes the loop can make: each but the last moves over an element. -/
def passesLeft (r : Tape) : ℕ := r.nbits - r.pos + 1

/-- `tetra_bits_skip_type34`: whether the chain ended inside the PDU. -/
def bitsSkipType34 : StateM Tape Bool := fun r =>
  ((skipType34Loop (passesLeft r) r).1.getD false, (skipType34Loop (passesLeft r) r).2)

/-- `read_type2_elements`: each element behind its P-bit, `none` where absent. -/
def readType2Elements : List ℕ → StateM Tape (List (Option ℕ))
  | [] => return []
  | width :: widths => do
      let present ← bitsPresent
      let value ← (if present then some <$> bitsRead width else return none)
      let values ← readType2Elements widths
      return value :: values

/-- `values[i]` after `read_type2_elements`: 0 when absent. -/
def type2Value (values : List (Option ℕ)) (i : ℕ) : ℕ := ((values[i]?).join).getD 0

/-- `type2_present`. -/
def type2Present (values : List (Option ℕ)) (i : ℕ) : Bool := ((values[i]?).join).isSome

/-- `tetra_cmce_party`. -/
structure Party where
  ssi : ℕ := 0
  extension : ℕ := 0
  type : ℕ := 0
  typeValid : Bool := false
  ssiValid : Bool := false
  extensionValid : Bool := false
  deriving DecidableEq, Repr

/-- `cmce_read_party_address`. -/
def cmceReadPartyAddress (party : Party) : StateM Tape Party := do
  let withSsi ← (if party.type = 1 ∨ party.type = 2 then
      (fun ssi => { party with ssi := ssi, ssiValid := true }) <$> bitsRead 24
    else return party)
  if withSsi.type = 2 then
    (fun extension => { withSsi with extension := extension, extensionValid := true }) <$>
      bitsRead 24
  else return withSsi

/-- `cmce_read_party_type2`. -/
def cmceReadPartyType2 (party : Party) : StateM Tape Party := do
  let present ← bitsPresent
  if present then do
    let type ← bitsRead 2
    cmceReadPartyAddress { party with type := type, typeValid := true }
  else return party

/-- `tetra_call_event_kind`. -/
inductive PduKind where
  | setup
  | alert
  | proceeding
  | connect
  | connectAck
  | info
  | txGranted
  | txInterrupt
  | txCeased
  | txContinue
  | txWait
  | restore
  | release
  deriving DecidableEq, Repr

/-- `tetra_call_event`, one flag for each bit of `has`. -/
structure PduEvent where
  kind : PduKind
  callId : ℕ
  hasCalling : Bool := false
  hasTalker : Bool := false
  hasNewId : Bool := false
  hasBasic : Bool := false
  hasTimeout : Bool := false
  hasGrant : Bool := false
  hasEncryption : Bool := false
  hasCallingExt : Bool := false
  callingSsi : ℕ := 0
  callingExt : ℕ := 0
  talkerSsi : ℕ := 0
  newCallId : ℕ := 0
  basicService : ℕ := 0
  priority : ℕ := 0
  timeout : ℕ := 0
  grant : ℕ := 0
  encryption : ℕ := 0
  deriving DecidableEq, Repr

/-- What a parser returns, and the events it handed to the call records. -/
structure Parsed where
  accepted : Bool
  events : List PduEvent
  deriving DecidableEq, Repr

/-- `cmce_reject`. -/
def cmceReject : Parsed := ⟨false, []⟩

/-- Read a snapshot, check it once, then publish it. -/
def publish {α : Type} (snapshot : StateM Tape α) (event : α → PduEvent) : StateM Tape Parsed := do
  let s ← snapshot
  let fitted ← bitsOk
  return if fitted then ⟨true, [event s]⟩ else cmceReject

/-- `cmce_setup`. -/
structure Setup where
  calling : Party := {}
  callId : ℕ
  timeout : ℕ
  basic : ℕ
  grant : ℕ
  permission : ℕ
  priority : ℕ

/-- `cmce_read_setup`. -/
def cmceReadSetup : StateM Tape Setup := do
  let callId ← bitsRead 14
  let timeout ← bitsRead 4
  let _ ← bitsSkip 2
  let basic ← bitsRead 8
  let grant ← bitsRead 2
  let permission ← bitsRead 1
  let priority ← bitsRead 4
  let calling ← (do
    let optional ← bitsPresent
    if optional then do
      let _ ← readType2Elements [6, 24]
      let calling ← cmceReadPartyType2 {}
      let _ ← bitsSkipType34
      return calling
    else return {})
  return ⟨calling, callId, timeout, basic, grant, permission, priority⟩

/-- The event of a D-SETUP. -/
def setupEvent (s : Setup) : PduEvent :=
  { kind := .setup, callId := s.callId,
    hasBasic := true, hasTimeout := true, hasGrant := true,
    basicService := s.basic, priority := s.priority, timeout := s.timeout, grant := s.grant,
    hasCalling := s.calling.ssiValid,
    callingSsi := if s.calling.ssiValid then s.calling.ssi else 0,
    hasCallingExt := s.calling.extensionValid,
    callingExt := if s.calling.extensionValid then s.calling.extension else 0 }

/-- `parse_cmce_d_setup`. -/
def parseCmceDSetup : StateM Tape Parsed := publish cmceReadSetup setupEvent

/-- The O-bit, then type-2 elements and the type-3/4 chain. -/
def readOptional (widths : List ℕ) : StateM Tape (List (Option ℕ)) := do
  let optional ← bitsPresent
  if optional then do
    let values ← readType2Elements widths
    let _ ← bitsSkipType34
    return values
  else return []

/-- `parse_cmce_release`. -/
def parseCmceRelease : StateM Tape Parsed :=
  publish
    (do
      let callId ← bitsRead 14
      let _ ← bitsRead 5
      let _ ← readOptional [6]
      return callId)
    fun callId => { kind := .release, callId := callId }

/-- `parse_cmce_d_release`. -/
def parseCmceDRelease : StateM Tape Parsed := parseCmceRelease

/-- `parse_cmce_d_disconnect`. -/
def parseCmceDDisconnect : StateM Tape Parsed := parseCmceRelease

/-- `cmce_connect`. -/
structure Connect where
  optional : List (Option ℕ)
  callId : ℕ
  timeout : ℕ
  grant : ℕ
  permission : ℕ

/-- `parse_cmce_d_connect`. -/
def parseCmceDConnect : StateM Tape Parsed :=
  publish
    (do
      let callId ← bitsRead 14
      let timeout ← bitsRead 4
      let _ ← bitsSkip 2
      let grant ← bitsRead 2
      let permission ← bitsRead 1
      let _ ← bitsSkip 1
      let optional ← readOptional [4, 8, 24, 6]
      return (⟨optional, callId, timeout, grant, permission⟩ : Connect))
    fun c =>
      { kind := .connect, callId := c.callId, hasTimeout := true, hasGrant := true,
        hasBasic := type2Present c.optional 1, timeout := c.timeout, grant := c.grant,
        basicService := type2Value c.optional 1 }

/-- `parse_cmce_d_connect_ack`. -/
def parseCmceDConnectAck : StateM Tape Parsed :=
  publish
    (do
      let callId ← bitsRead 14
      let timeout ← bitsRead 4
      let grant ← bitsRead 2
      let _ ← bitsSkip 1
      let _ ← readOptional [6]
      return (callId, timeout, grant))
    fun (callId, timeout, grant) =>
      { kind := .connectAck, callId := callId, hasTimeout := true, hasGrant := true,
        timeout := timeout, grant := grant }

/-- `parse_cmce_d_alert`. -/
def parseCmceDAlert : StateM Tape Parsed :=
  publish
    (do
      let callId ← bitsRead 14
      let _ ← bitsRead 3
      let _ ← bitsSkip 2
      let _ ← bitsRead 1
      let values ← readOptional [8, 6]
      return (callId, values))
    fun (callId, values) =>
      { kind := .alert, callId := callId, hasBasic := type2Present values 0,
        basicService := type2Value values 0 }

/-- `parse_cmce_d_call_proceeding`. -/
def parseCmceDCallProceeding : StateM Tape Parsed :=
  publish
    (do
      let callId ← bitsRead 14
      let _ ← bitsRead 3
      let _ ← bitsSkip 2
      let values ← readOptional [8, 3, 6]
      return (callId, values))
    fun (callId, values) =>
      { kind := .proceeding, callId := callId, hasBasic := type2Present values 0,
        basicService := type2Value values 0 }

/-- `cmce_floor`. -/
structure Floor where
  party : Party := {}
  callId : ℕ
  grant : ℕ := 0
  permission : ℕ := 0
  encryption : ℕ := 0
  reserved : ℕ := 0
  continueValue : ℕ := 0
  notification : Option ℕ := none

/-- `cmce_read_grant_fields`. -/
def cmceReadGrantFields (f : Floor) : StateM Tape Floor := do
  let grant ← bitsRead 2
  let permission ← bitsRead 1
  let encryption ← bitsRead 1
  let reserved ← bitsRead 1
  return { f with
    grant := grant, permission := permission, encryption := encryption, reserved := reserved }

/-- `cmce_read_floor_optional`. -/
def cmceReadFloorOptional (withParty : Bool) (f : Floor) : StateM Tape Floor := do
  let optional ← bitsPresent
  if optional then do
    let values ← readType2Elements [6]
    let party ← (if withParty then cmceReadPartyType2 f.party else return f.party)
    let _ ← bitsSkipType34
    return { f with notification := (values[0]?).join, party := party }
  else return f

/-- `cmce_floor_event`. -/
def cmceFloorEvent (kind : PduKind) (f : Floor) : PduEvent :=
  { kind := kind, callId := f.callId, hasGrant := true, hasEncryption := true,
    grant := f.grant, encryption := f.encryption, hasTalker := f.party.ssiValid,
    talkerSsi := if f.party.ssiValid then f.party.ssi else 0 }

/-- `parse_cmce_d_tx_granted`. -/
def parseCmceDTxGranted : StateM Tape Parsed :=
  publish
    (do
      let callId ← bitsRead 14
      let f ← cmceReadGrantFields { callId := callId }
      cmceReadFloorOptional true f)
    (cmceFloorEvent .txGranted)

/-- `parse_cmce_d_tx_ceased`. -/
def parseCmceDTxCeased : StateM Tape Parsed :=
  publish
    (do
      let callId ← bitsRead 14
      let permission ← bitsRead 1
      cmceReadFloorOptional false { callId := callId, permission := permission })
    fun f => { kind := .txCeased, callId := f.callId }

/-- The PDUs `parse_cmce_tx_event` serves. -/
inductive TxPdu where
  | txContinue
  | txInterrupt
  | txWait
  deriving DecidableEq

/-- The type-1 elements of these PDUs after the call identifier. -/
def cmceReadTxFields (pdu : TxPdu) (f : Floor) : StateM Tape Floor :=
  match pdu with
  | .txInterrupt => cmceReadGrantFields f
  | .txContinue => do
      let continueValue ← bitsRead 1
      let permission ← bitsRead 1
      return { f with continueValue := continueValue, permission := permission }
  | .txWait => do
      let permission ← bitsRead 1
      return { f with permission := permission }

/-- The event of one of these PDUs. -/
def txEvent (pdu : TxPdu) (f : Floor) : PduEvent :=
  match pdu with
  | .txInterrupt => cmceFloorEvent .txInterrupt f
  | .txContinue => { kind := .txContinue, callId := f.callId }
  | .txWait => { kind := .txWait, callId := f.callId }

/-- `parse_cmce_tx_event`. -/
def parseCmceTxEvent (pdu : TxPdu) : StateM Tape Parsed :=
  publish
    (do
      let callId ← bitsRead 14
      let f ← cmceReadTxFields pdu { callId := callId }
      cmceReadFloorOptional (pdu = .txInterrupt) f)
    (txEvent pdu)

/-- `parse_cmce_d_tx_continue`. -/
def parseCmceDTxContinue : StateM Tape Parsed := parseCmceTxEvent .txContinue

/-- `parse_cmce_d_tx_interrupt`. -/
def parseCmceDTxInterrupt : StateM Tape Parsed := parseCmceTxEvent .txInterrupt

/-- `parse_cmce_d_tx_wait`. -/
def parseCmceDTxWait : StateM Tape Parsed := parseCmceTxEvent .txWait

/-- `parse_cmce_d_info`. -/
def parseCmceDInfo : StateM Tape Parsed :=
  publish
    (do
      let callId ← bitsRead 14
      let _ ← bitsRead 1
      let _ ← bitsRead 1
      let values ← readOptional [14, 4, 3, 1, 9, 3, 24, 6, 6, 6]
      return (callId, values))
    fun (callId, values) =>
      { kind := .info, callId := callId, hasNewId := type2Present values 0,
        hasTimeout := type2Present values 1, newCallId := type2Value values 0,
        timeout := type2Value values 1 }

/-- `tetra_cmce_call_restore`. -/
structure CallRestore where
  callId : ℕ
  newCallId : ℕ
  newCallIdPresent : Bool
  timeout : ℕ
  timeoutPresent : Bool
  grant : ℕ
  permission : ℕ
  reset : ℕ

/-- `cmce_read_call_restore`. -/
def cmceReadCallRestore : StateM Tape CallRestore := do
  let callId ← bitsRead 14
  let grant ← bitsRead 2
  let permission ← bitsRead 1
  let reset ← bitsRead 1
  let values ← readOptional [14, 4, 3, 9, 6]
  return ⟨callId, type2Value values 0, type2Present values 0, type2Value values 1,
    type2Present values 1, grant, permission, reset⟩

/-- `cmce_report_call_restore`. -/
def restoreEvent (c : CallRestore) : PduEvent :=
  { kind := .restore, callId := c.callId, hasNewId := c.newCallIdPresent,
    hasTimeout := c.timeoutPresent, newCallId := c.newCallId, timeout := c.timeout }

/-- `parse_cmce_d_call_restore`. -/
def parseCmceDCallRestore : StateM Tape Parsed := publish cmceReadCallRestore restoreEvent

/-- The call-control PDUs of `k_cmce_parsers`. -/
inductive CallPdu where
  | dAlert
  | dCallProceeding
  | dConnect
  | dConnectAck
  | dDisconnect
  | dInfo
  | dRelease
  | dSetup
  | dTxCeased
  | dTxContinue
  | dTxGranted
  | dTxWait
  | dTxInterrupt
  | dCallRestore
  deriving DecidableEq

/-- `k_cmce_parsers`. -/
def CallPdu.parser : CallPdu → StateM Tape Parsed
  | .dAlert => parseCmceDAlert
  | .dCallProceeding => parseCmceDCallProceeding
  | .dConnect => parseCmceDConnect
  | .dConnectAck => parseCmceDConnectAck
  | .dDisconnect => parseCmceDDisconnect
  | .dInfo => parseCmceDInfo
  | .dRelease => parseCmceDRelease
  | .dSetup => parseCmceDSetup
  | .dTxCeased => parseCmceDTxCeased
  | .dTxContinue => parseCmceDTxContinue
  | .dTxGranted => parseCmceDTxGranted
  | .dTxWait => parseCmceDTxWait
  | .dTxInterrupt => parseCmceDTxInterrupt
  | .dCallRestore => parseCmceDCallRestore

end DsdNeo.Tetra.Cmce
