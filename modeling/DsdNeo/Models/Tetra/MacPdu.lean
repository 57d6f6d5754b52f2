import DsdNeo.Core.Bits.Reader

/-!
# Downlink MAC PDUs

The decoders read a PDU from the start of the bits left in its block. They act on
nothing: each gives what the PDU says, or nothing where it does not fit or is
discarded.
-/

namespace DsdNeo.Tetra.Mac

open Bits

/-- `TETRA_MAC_TYPE_RESOURCE`. -/
def macTypeResource : ℕ := 0

/-- `TETRA_MAC_TYPE_FRAG_END`. -/
def macTypeFragEnd : ℕ := 1

/-- `TETRA_MAC_TYPE_BROADCAST`. -/
def macTypeBroadcast : ℕ := 2

/-- `TETRA_MAC_FRAGE_END`. -/
def macFrageEnd : ℕ := 1

/-- `TETRA_MAC_BC_SYSINFO`. -/
def macBcSysinfo : ℕ := 0

/-- `TETRA_MAC_BC_ACCESS_DEF`. -/
def macBcAccessDef : ℕ := 1

/-- `TETRA_MAC_ADDR_NULL`. -/
def macAddrNull : ℕ := 0

/-- `TETRA_ENC_MODE_NONE`. -/
def encModeNone : ℕ := 0

/-- `MAC_HALF_SLOT_BITS`. -/
def macHalfSlotBits : ℕ := 124

/-- `MAC_LI_MAX_OCTETS`. -/
def macLiMaxOctets : ℕ := 58

/-- `MAC_LI_SECOND_HALF_STOLEN`. -/
def macLiSecondHalfStolen : ℕ := 62

/-- `MAC_LI_FRAGMENT_START`. -/
def macLiFragmentStart : ℕ := 63

/-- `tetra_mac_address`. -/
structure Address where
  type : ℕ
  esi : Bool
  usageMarker : ℕ
  eventLabel : ℕ
  ssi : ℕ
  deriving DecidableEq

/-- `tetra_chan_alloc`, the band and the offset as it carries them, its frequency apart. -/
structure ChanAlloc where
  type : ℕ
  timeslots : ℕ
  upDown : ℕ
  carrier : ℕ
  extended : Option (ℕ × ℕ)
  bandwidth : ℕ
  modulation : ℕ
  deriving DecidableEq

/-- `tetra_mac_resource`. -/
structure Resource where
  addr : Address
  pduBits : ℕ
  body : ℕ
  fill : Bool
  grantPos : ℕ
  encMode : ℕ
  randomAccess : ℕ
  lengthInd : ℕ
  allocPresent : Bool

/-- `address_family`. -/
def addressFamily (type : ℕ) : ℕ :=
  if type ∈ [1, 3, 5, 6] then 1 else if type ∈ [4, 7] then 2 else 0

/-- `address_has_event_label`. -/
def addressHasEventLabel (type : ℕ) : Bool := type ∈ [2, 5, 7]

/-- `read_address`. -/
def readAddress (type encMode : ℕ) : StateM Reader Address := do
  let ssi ← if addressFamily type ≠ 0 then read 24 else pure 0
  let eventLabel ← if addressHasEventLabel type then read 10 else pure 0
  let usageMarker ← if type = 6 then read 6 else pure 0
  pure ⟨type, decide (encMode ≠ encModeNone ∧ type ∈ [1, 5, 6]), usageMarker, eventLabel, ssi⟩

/-- `content_end`: the place of the last 1 bit below `stop`, or `stop` without fill bits. -/
def contentEnd (bits : List Bool) (start : ℕ) (fill : Bool) : ℕ → Option ℕ
  | 0 => if fill then none else some 0
  | stop + 1 =>
    if fill = false then some (stop + 1)
    else if stop < start then none
    else if bits.getD stop false then some stop
    else contentEnd bits start fill stop

/-- The content of a PDU from a place on, its fill bits removed. -/
def content (bits : List Bool) (start stop : ℕ) (fill : Bool) : Option (List Bool) :=
  (contentEnd bits start fill stop).map (slice bits start)

/-- `read_augmented_allocation`. -/
def readAugmentedAllocation (a : ChanAlloc) : StateM Reader (Option ChanAlloc) := do
  let upDown ← read 2
  let bandwidth ← read 3
  let modulation ← read 3
  skip 15
  if (← read 2) = 1 then skip 11
  skip 4
  if (← read 1) ≠ 0 then skip 16
  if (← read 1) ≠ 0 then skip 16
  let further ← read 1
  let r ← get
  pure <|
    if ¬ r.failed ∧ upDown ≠ 0 ∧ further = 0 then
      some { a with upDown := upDown, bandwidth := bandwidth, modulation := modulation }
    else none

/-- `read_allocation`. -/
def readAllocation : StateM Reader (Option ChanAlloc) := do
  let type ← read 2
  let timeslots ← read 4
  let upDown ← read 2
  skip 2
  let carrier ← read 12
  let extended ←
    if (← read 1) ≠ 0 then do
      let band ← read 4
      let offset ← read 2
      skip 4
      pure (some (band, offset))
    else pure none
  if (← read 2) = 0 then skip 2
  let a : ChanAlloc := ⟨type, timeslots, upDown, carrier, extended, 0, 0⟩
  let a ← if upDown = 0 then readAugmentedAllocation a else pure (some a)
  let r ← get
  pure (if r.failed then none else a)

/-- `resource_pdu_bits`. -/
def resourcePduBits (lengthInd nbits : ℕ) : Option ℕ :=
  if lengthInd = macLiSecondHalfStolen ∨ lengthInd = macLiFragmentStart then some nbits
  else if lengthInd = 0 ∨ lengthInd > macLiMaxOctets then none
  else some (min (lengthInd * 8) nbits)

/-- The elements of a MAC-RESOURCE after its address type. -/
def readResourceBody (type encMode : ℕ) : StateM Reader (Address × ℕ) := do
  let addr ← readAddress type encMode
  if (← read 1) ≠ 0 then skip 4
  if (← read 1) ≠ 0 then skip 8
  let allocPresent ← read 1
  pure (addr, allocPresent)

/-- The fields of a MAC-RESOURCE up to its address type. -/
def readResourceFront : StateM Reader (ℕ × ℕ × ℕ × ℕ × ℕ × ℕ × ℕ) := do
  let macType ← read 2
  let fill ← read 1
  let grantPos ← read 1
  let encMode ← read 2
  let randomAccess ← read 1
  let lengthInd ← read 6
  let type ← read 3
  pure (macType, fill, grantPos, encMode, randomAccess, lengthInd, type)

/-- `tetra_mac_resource_decode`. -/
def resourceDecode (bits : List Bool) : Option Resource :=
  let ((macType, fill, grantPos, encMode, randomAccess, lengthInd, type), r) :=
    readResourceFront (Reader.over bits bits.length 0)
  if macType ≠ macTypeResource ∨ r.failed ∨ type = macAddrNull then none
  else
    match resourcePduBits lengthInd bits.length with
    | none => none
    | some pduBits =>
      let ((addr, allocPresent), r) :=
        readResourceBody type encMode (Reader.over bits pduBits r.pos)
      if r.failed then none
      else some
        { addr := addr
          pduBits := pduBits
          body := r.pos
          fill := decide (fill ≠ 0)
          grantPos := grantPos
          encMode := encMode
          randomAccess := randomAccess
          lengthInd := lengthInd
          allocPresent := decide (allocPresent ≠ 0) }

/-- The channel allocation from a place on, where there is one, and the content after it. -/
def allocatedContent (bits : List Bool) (pduBits body : ℕ) (fill allocPresent : Bool) :
    Option (Option ChanAlloc × List Bool) :=
  if allocPresent then
    match readAllocation (Reader.over bits pduBits body) with
    | (none, _) => none
    | (some alloc, r) => (content bits r.pos pduBits fill).map (some alloc, ·)
  else (content bits body pduBits fill).map (none, ·)

/-- The allocation and the content of a clear MAC-RESOURCE. -/
def Resource.contents (h : Resource) (bits : List Bool) : Option (Option ChanAlloc × List Bool) :=
  allocatedContent bits h.pduBits h.body h.fill h.allocPresent

/-- A MAC-FRAG: its content, nothing where it has fill bits without a final 1 bit. -/
def fragDecode (bits : List Bool) : Option (Option (List Bool)) :=
  let (fill, r) := read 1 (Reader.over bits bits.length 3)
  if r.failed then none else some (content bits r.pos bits.length (decide (fill ≠ 0)))

/-- A MAC-END up to its channel allocation flag. -/
structure MacEnd where
  pduBits : ℕ
  body : ℕ
  fill : Bool
  allocPresent : Bool

/-- The fields of a MAC-END up to its length indication. -/
def readEndFront : StateM Reader (ℕ × ℕ) := do
  let fill ← read 1
  skip 1
  let lengthInd ← read 6
  pure (fill, lengthInd)

/-- The elements of a MAC-END after its length indication. -/
def readEndBody : StateM Reader ℕ := do
  if (← read 1) ≠ 0 then skip 8
  read 1

/-- A MAC-END, up to its channel allocation flag. -/
def endDecode (bits : List Bool) : Option MacEnd :=
  let ((fill, lengthInd), r) := readEndFront (Reader.over bits bits.length 3)
  if r.failed ∨ lengthInd = 0 ∨ lengthInd > macLiMaxOctets then none
  else
    let pduBits := min (lengthInd * 8) bits.length
    let (allocPresent, r) := readEndBody (Reader.over bits pduBits r.pos)
    if r.failed then none
    else some ⟨pduBits, r.pos, decide (fill ≠ 0), decide (allocPresent ≠ 0)⟩

/-- The allocation and the content of a clear MAC-END. -/
def MacEnd.contents (e : MacEnd) (bits : List Bool) : Option (Option ChanAlloc × List Bool) :=
  allocatedContent bits e.pduBits e.body e.fill e.allocPresent

/-- A run of fields of these widths. -/
def skipFields : List ℕ → StateM Reader Unit
  | [] => pure ()
  | width :: widths => do
    skip width
    skipFields widths

/-- Whether a SYSINFO fits. -/
def sysinfoComplete (bits : List Bool) : Bool :=
  !(skipFields [12, 4, 2, 3, 1, 2, 3, 4, 4, 4, 1, 16, 2, 20]
    (Reader.over bits bits.length 4)).2.failed

/-- The fields of an ACCESS-DEFINE after the broadcast type. -/
def readAccessDefine : StateM Reader Unit := do
  skipFields [1, 2, 4, 4, 4, 1, 4, 3]
  let optionFlag ← read 2
  if optionFlag = 1 then skip 16
  else if optionFlag = 2 then skip 24
  skip 3

/-- The length of an ACCESS-DEFINE that fits. -/
def accessDefineBits (bits : List Bool) : Option ℕ :=
  let r := (readAccessDefine (Reader.over bits bits.length 4)).2
  if r.failed then none else some r.pos

/-- A MAC-D-BLCK that fits: its encryption mode, its event label and its content. -/
def dBlckDecode (bits : List Bool) : Option (ℕ × ℕ × List Bool) :=
  let fields : StateM Reader (ℕ × ℕ × ℕ × ℕ) := do
    let subtype ← read 1
    let fill ← read 1
    let encMode ← read 2
    let eventLabel ← read 10
    skip 1
    if (← read 1) ≠ 0 then skip 8
    pure (subtype, fill, encMode, eventLabel)
  let ((subtype, fill, encMode, eventLabel), r) := fields (Reader.over bits bits.length 2)
  if r.failed ∨ subtype ≠ 0 then none
  else (content bits r.pos bits.length (decide (fill ≠ 0))).map (encMode, eventLabel, ·)

end DsdNeo.Tetra.Mac
