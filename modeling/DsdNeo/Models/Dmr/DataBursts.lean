import DsdNeo.Models.Dmr.DataBlocks

/-!
# The data bursts of a slot

A burst arrives decoded, with the verdict of its check. Confirmed blocks leave their verdict in
the table of block checks at the counter's place, and a block out of sequence resets the slot.
Then the burst goes where its data type says: a header announces blocks, a block is assembled,
signalling has its effects.
-/

namespace DsdNeo.Dmr.DataBlocks

open Program

/-- The data type of a burst. -/
inductive DataType where
  /-- 0x00. -/
  | pi
  /-- 0x01. -/
  | vlc
  /-- 0x02. -/
  | tlc
  /-- 0x03. -/
  | csbk
  /-- 0x04. -/
  | mbcHeader
  /-- 0x05. -/
  | mbcContinuation
  /-- 0x06. -/
  | dataHeader
  /-- 0x07. -/
  | rate12
  /-- 0x08. -/
  | rate34
  /-- 0x09. -/
  | idle
  /-- 0x0A. -/
  | rate1
  /-- 0x0B. -/
  | usbd
  /-- 0xEB, the embedded link control. -/
  | embedded
  /-- Every other value. -/
  | reserved
  deriving DecidableEq

/-- A burst as its decoder leaves it. -/
structure Burst where
  databurst : DataType
  /-- The octets decoded, with the serial number and check of a confirmed block. -/
  bytes : ℕ → BitVec 8
  /-- The check carried agrees with the one computed. -/
  crcMatches : Bool
  irrecoverableErrors : Bool
  bptcReservedBits : ℕ
  /-- What the packet or aggregate gives that this burst may end. -/
  whole : Whole

/-- `dmr_dburst_profile_resolve`: unified data comes at rate one half. -/
def Burst.isUdt (b : Burst) (s : Slot) : Bool := b.databurst = .rate12 && s.dataHeaderFormat == 0

/-- `pdu_start`: where the octets of a block start. -/
def Burst.pduStart (b : Burst) (s : Slot) : ℕ :=
  if s.dataConfData && (b.databurst = .rate12 || b.databurst = .rate34 || b.databurst = .rate1) then
    2
  else 0

/-- `pdu_len`: how many octets it has. -/
def Burst.pduLen (b : Burst) (s : Slot) : ℕ :=
  match b.databurst with
  | .rate34 => 18 - b.pduStart s
  | .rate1 => 24 - b.pduStart s
  | .idle => 0
  | .embedded => 9
  | .reserved => 25
  | _ => 12 - b.pduStart s

/-- `dmr_pdu`. -/
def Burst.pdu (b : Burst) (s : Slot) (i : ℕ) : BitVec 8 := b.bytes (i + b.pduStart s)

/-- `dbsn_for_seq`: the serial number of a confirmed block. -/
def Burst.dbsn (b : Burst) : ℕ := (b.bytes 0 >>> 1).toNat

/-- `dmr_dburst_keeps_data_p_head`. -/
def DataType.keepsDataPHead : DataType → Bool
  | .dataHeader | .rate12 | .rate34 | .rate1 | .usbd => true
  | _ => false

/-- The bursts decoded by the product code. -/
def DataType.isBptc : DataType → Bool
  | .rate34 | .idle | .rate1 | .embedded | .reserved => false
  | _ => true

/-- The bursts that leave the verdict of a confirmed block: what is decoded at full rate does
so whatever its type. -/
def DataType.leavesVerdict : DataType → Bool
  | .rate12 | .rate34 | .rate1 | .reserved => true
  | _ => false

/-- `crc_correct` before the reserved bits are read. -/
def Burst.crcOriginal (b : Burst) (s : Slot) : Bool :=
  if b.databurst = .idle then false
  else if b.databurst.leavesVerdict ∧ s.dataConfData = false then true
  else b.crcMatches

/-- `irrecoverable_errors`, of the product codes alone. -/
def Burst.irrecoverable (b : Burst) : Bool :=
  (b.databurst.isBptc || b.databurst = .embedded) && b.irrecoverableErrors

/-- `is_ras`: what `dmr_dburst_handle_bptc` takes on the reserved bits alone. -/
def Burst.isRas (opts : Opts) (b : Burst) (s : Slot) : Bool :=
  b.databurst.isBptc && opts.aggressiveFramesync == 0 && !b.crcOriginal s && !b.irrecoverable &&
    b.bptcReservedBits == 4 && b.bytes 1 != 0x68

/-- `crc_correct`. -/
def Burst.crcCorrect (opts : Opts) (b : Burst) (s : Slot) : Bool :=
    b.crcOriginal s || b.isRas opts s

/-- `crc_flags`: the continuation of a control message has no check of its own. -/
def Burst.crcFlags (opts : Opts) (b : Burst) (s : Slot) : ℕ :=
  if b.databurst = .mbcContinuation then 0
  else if b.isRas opts s then crcRasUnverified
  else if b.crcCorrect opts s then 0
  else crcFailed

/-- The writes of `dmr_dburst_handle_bptc`, `dmr_dburst_trellis_update_confirmed_crc` and
`dmr_dburst_handle_full` to the table of block checks. -/
def leaveVerdict (opts : Opts) (b : Burst) (s : Slot) : Option Slot := do
  if b.databurst.leavesVerdict ∧ s.dataConfData then
    let blockcounter := s.dataBlockCounter % 256
    let verdict := if b.crcMatches then 1 else if b.isRas opts s then blockCrcRas else 0
    let crcValid ← store s.dataBlockCrcValid blockcounter verdict
    return { s with dataBlockCrcValid := crcValid }
  else if b.databurst = .mbcHeader ∨ b.databurst = .dataHeader then
    let crcValid ← store s.dataBlockCrcValid 0 (b.crcOriginal s).toNat
    return { s with dataBlockCrcValid := crcValid }
  else
    return s

/-- The confirmed blocks whose serial numbers `dmr_dburst_update_dbsn_sequence` follows. -/
def Burst.numbered (b : Burst) (s : Slot) : Bool :=
  s.dataConfData && b.databurst.leavesVerdict && b.databurst != .reserved

/-- A checked block that is not the next one, where the sequence is enforced. -/
def Burst.outOfSequence (opts : Opts) (b : Burst) (s : Slot) : Bool :=
  b.numbered s && s.dataDbsnHave && b.crcCorrect opts s && b.dbsn != s.dataDbsnExpected &&
    opts.aggressiveFramesync == 1

/-- `dmr_dburst_update_dbsn_sequence`, of a block not out of sequence. -/
def updateDbsnSequence (opts : Opts) (b : Burst) (s : Slot) : Slot :=
  if b.numbered s = false then s
  else if s.dataDbsnHave = false then
    if b.crcCorrect opts s ∨ opts.aggressiveFramesync = 0 then
      { s with dataDbsnExpected := (b.dbsn + 1) % 128, dataDbsnHave := true }
    else s
  else if b.crcCorrect opts s then { s with dataDbsnExpected := (b.dbsn + 1) % 128 }
  else s

/-- `convert_bits_into_output` over the bits of a header. -/
def bitsField (bytes : ℕ → BitVec 8) (start width : ℕ) : ℕ :=
  Bits.number ((List.range' start width).map fun k => (bytes (k / 8)).getLsbD (7 - k % 8))

/-- `dmr_dheader_fields`, as far as the bookkeeping reads it. -/
structure DheaderFields where
  a : ℕ
  bf : ℕ
  dpf : ℕ
  pMfid : ℕ
  pSap : ℕ
  poc : ℕ
  sAbFin : ℕ
  sap : ℕ
  udtFormat : ℕ
  udtUab : ℕ

/-- `dmr_dheader_parse_fields`, with the service point `dmr_dheader_set_strings` takes from an
extended header. -/
def parseFields (bytes : ℕ → BitVec 8) : DheaderFields where
  a := bitsField bytes 1 1
  bf := bitsField bytes 65 7
  dpf := bitsField bytes 4 4
  pMfid := bitsField bytes 8 8
  pSap := bitsField bytes 0 4
  poc := bitsField bytes 12 4 + 16 * bitsField bytes 3 1
  sAbFin := 16 * bitsField bytes 2 2 + bitsField bytes 12 4
  sap := if bitsField bytes 4 4 = 15 then bitsField bytes 0 4 else bitsField bytes 8 4
  udtFormat := bitsField bytes 12 4
  udtUab := bitsField bytes 70 2 + 1

/-- `dmr_dheader_reset_irrecoverable`. -/
def Slot.resetIrrecoverable (s : Slot) : Slot :=
  { s with
    dataHeaderValid := false, dataHeaderCrcInvalid := 0, dataPHead := false, dataConfData := false
    dataBlockCounter := 1, dataHeaderBlocks := 1, dataHeaderFormat := 7 }

/-- `dmr_dheader_handle_udt`: the header is the first block of its aggregate. -/
def handleUdt (opts : Opts) (b : Burst) (f : DheaderFields) (s : Slot) : Option Slot :=
  assembler opts b.bytes 12 .unified b.whole
    { s with dataHeaderBlocks := f.udtUab, dataHeaderValid := true, dataBlockCounter := 0 }

/-- `dmr_dheader_handle_short_data`. -/
def handleShortData (f : DheaderFields) (s : Slot) : Slot :=
  { s with
    dataHeaderBlocks := if f.sAbFin ≠ 0 then f.sAbFin else s.dataHeaderBlocks
    dataConfData := if f.a = 1 then true else s.dataConfData }

/-- `dmr_dheader_handle_moto_p_head`: the header's octets are the first block. -/
def handleMotoPHead (b : Burst) (s : Slot) : Option Slot := do
  let row ← forRange 0 10 s.dmrPduSf fun i row => store row i (b.bytes i)
  return { s with
    dmrPduSf := row, dataBlockCounter := s.dataBlockCounter + 1, dataByteCtr := 10
    dataPHead := true, dataKsStart := if b.bytes 2 = 2 then 3 else 0 }

/-- `dmr_dheader_handle_proprietary`: any other extension takes up one announced block. -/
def handleProprietary (b : Burst) (f : DheaderFields) (s : Slot) : Option Slot :=
  if f.pMfid = 0x10 ∧ f.pSap = 1 then
    handleMotoPHead b s
  else
    some { s with
      dataHeaderBlocks := if 1 < s.dataHeaderBlocks then s.dataHeaderBlocks - 1
        else s.dataHeaderBlocks
      dataByteCtr := 0
      dataKsStart := if f.pMfid = 0x77 ∧ f.pSap ≠ 1 ∨ f.pMfid = 0x10 then 0 else s.dataKsStart }

/-- `dmr_dheader_handle_response` and `dmr_dheader_handle_unconfirmed_or_confirmed`. -/
def handleAnnounced (f : DheaderFields) (s : Slot) : Slot :=
  { s with
    dataHeaderBlocks := f.bf
    dataConfData := if f.dpf = 3 then true else s.dataConfData }

/-- The header of a packet format. -/
def handleStandard (opts : Opts) (b : Burst) (f : DheaderFields) (s : Slot) : Option Slot :=
  match f.dpf with
  | 0 => handleUdt opts b f s
  | 1 | 2 | 3 => some (handleAnnounced f s)
  | 13 | 14 => some (handleShortData f s)
  | _ => some s

/-- `dmr_dheader_handle_by_format`. -/
def handleByFormat (opts : Opts) (b : Burst) (f : DheaderFields) (s : Slot) : Option Slot := do
  if f.dpf = 15 then
    handleProprietary b f s
  else
    let s ← handleStandard opts b f s
    return { s with dataByteCtr := 0 }

/-- `dmr_dheader_sanitize_blocks`. -/
def Slot.sanitizeBlocks (s : Slot) : Slot :=
  { s with dataHeaderBlocks := max 1 (min s.dataHeaderBlocks 127) }

/-- `dmr_dheader_arms_assembler`. -/
def DheaderFields.armsAssembler (f : DheaderFields) : Bool :=
  !(f.dpf == 15) && !(f.dpf == 1 && f.bf == 0)

/-- `dmr_dheader_classified`, of a header that is taken. -/
def dheaderTaken (opts : Opts) (b : Burst) (crcFlags : ℕ) (s : Slot) : Option Slot := do
  let f := parseFields b.bytes
  let crcInvalid := (if f.dpf ≠ 15 then 0 else s.dataHeaderCrcInvalid) ||| crcFlags
  let crcValid ← store s.dataBlockCrcValid 0 (decide (crcInvalid = 0)).toNat
  let s := { s with
    dataDbsnHave := false, dataDbsnExpected := 0
    dataHeaderCrcInvalid := crcInvalid, dataBlockCrcValid := crcValid
    dataBlockPoc := if f.dpf = 2 ∨ f.dpf = 3 then f.poc
      else if f.dpf = 15 then s.dataBlockPoc else 0
    dataHeaderFormat := f.dpf
    udtUabReserved := decide (f.dpf = 0 ∧ f.udtFormat = 5 ∧ f.udtUab = 3) }
  let s ← handleByFormat opts b f s
  let s := s.sanitizeBlocks
  return { s with
    dataHeaderValid := s.dataHeaderValid || f.armsAssembler
    dataHeaderSap := f.sap }

/-- `dmr_dheader_classified`. -/
def dheaderClassified (opts : Opts) (b : Burst) (crcFlags : ℕ) (s : Slot) : Option Slot :=
  let s := { s with dmrPduSf := clearSuperframe s.dmrPduSf, dataBlockCounter := 1 }
  if b.irrecoverable ∨
      ¬(crcFlags = 0 ∨ opts.aggressiveFramesync = 0 ∨ opts.dmrCrcRelaxedDefault) then
    some { s.resetIrrecoverable with dataBlockPoc := 0 }
  else
    dheaderTaken opts b crcFlags s

/-- `dmr_dburst_dispatch_by_type`. -/
def dispatchByType (opts : Opts) (b : Burst) (crcCorrect : Bool) (crcFlags : ℕ) (isUdt : Bool)
    (pdu : ℕ → BitVec 8) (pduLen : ℕ) (s : Slot) : Option Slot :=
  match b.databurst with
  | .vlc | .tlc | .csbk | .embedded => some (b.whole.effects.foldl Slot.effect s)
  | .mbcHeader =>
    assembler opts pdu pduLen .control b.whole
      { s with
        dataBlockCounter := 0, dataHeaderValid := crcCorrect && !b.irrecoverable
        dataHeaderCrcInvalid := crcFlags }
  | .mbcContinuation => assembler opts pdu pduLen .control b.whole s
  | .dataHeader => dheaderClassified opts b crcFlags s
  | .rate12 => assembler opts pdu pduLen (if isUdt then .unified else .packet) b.whole s
  | .rate34 | .rate1 => assembler opts pdu pduLen .packet b.whole s
  | .pi | .idle | .usbd | .reserved => some s

/-- `dmr_data_burst_handler`. -/
def dataBurstHandler (opts : Opts) (b : Burst) (s : Slot) : Option Slot := do
  let s := { s with dataPHead := s.dataPHead && b.databurst.keepsDataPHead }
  let received ← leaveVerdict opts b s
  if b.outOfSequence opts s then
    return idle
  let next := updateDbsnSequence opts b received
  dispatchByType opts b (b.crcCorrect opts s) (b.crcFlags opts s) (b.isUdt s) (b.pdu s)
    (b.pduLen s) next

/-- What happens to a slot. -/
inductive Event where
  /-- A data burst of the slot. -/
  | burst (b : Burst)
  /-- `dmr_reset_blocks` for the other slot, a retune or a lost sync. -/
  | reset
  /-- The carrier is lost. -/
  | carrierLost

/-- One event. -/
def step (opts : Opts) (s : Slot) : Event → Option Slot
  | .burst b => dataBurstHandler opts b s
  | .reset => some idle
  | .carrierLost => some s.carrierLost

/-- A run of a slot; it fails at an access outside the table or the row. -/
def run (opts : Opts) (s : Slot) (events : List Event) : Option Slot := events.foldlM (step opts) s

end DsdNeo.Dmr.DataBlocks
