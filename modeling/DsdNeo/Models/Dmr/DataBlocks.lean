import DsdNeo.Core.Program.Returns
import DsdNeo.Core.Bits.Reader

/-!
# Assembling DMR data blocks

A data header announces the blocks that follow it, and the blocks of a slot are gathered in one row
of bytes until the announced count is reached. A packet of rate blocks appends where the last block
ended, an aggregate of control or unified data blocks stores at a place that its counter scales.
-/

namespace DsdNeo.Dmr.DataBlocks

open Program

/-- Octets of a row of `dmr_pdu_sf`. -/
def rowBytes : ℕ := 24 * 128

/-- Entries of a row of `data_block_crc_valid`. -/
def crcBlocks : ℕ := 127

/-- `DSD_CRC_FAILED`. -/
def crcFailed : ℕ := 1

/-- `DSD_CRC_RAS_UNVERIFIED`. -/
def crcRasUnverified : ℕ := 2

/-- `DMR_DATA_BLOCK_CRC_RAS`: what the table keeps of a block taken on the reserved bits alone. -/
def blockCrcRas : ℕ := 2

/-- The options the block code reads. -/
structure Opts where
  aggressiveFramesync : ℤ
  dmrCrcRelaxedDefault : Bool
  payload : Bool

/-- The block bookkeeping of one slot. -/
structure Slot where
  dataHeaderBlocks : ℕ
  dataBlockCounter : ℕ
  dataHeaderValid : Bool
  dataHeaderFormat : ℕ
  dataHeaderSap : ℕ
  dataHeaderCrcInvalid : ℕ
  dataPHead : Bool
  dataConfData : Bool
  dataBlockPoc : ℕ
  dataByteCtr : ℕ
  dataKsStart : ℕ
  udtUabReserved : Bool
  dataDbsnExpected : ℕ
  dataDbsnHave : Bool
  dataBlockCrcValid : Vector ℕ crcBlocks
  dmrPduSf : Vector (BitVec 8) rowBytes

/-- `dmr_reset_blocks`: the slot as it also starts out. -/
def idle : Slot where
  dataHeaderBlocks := 1
  dataBlockCounter := 1
  dataHeaderValid := false
  dataHeaderFormat := 7
  dataHeaderSap := 0
  dataHeaderCrcInvalid := 0
  dataPHead := false
  dataConfData := false
  dataBlockPoc := 0
  dataByteCtr := 0
  dataKsStart := 0
  udtUabReserved := false
  dataDbsnExpected := 0
  dataDbsnHave := false
  dataBlockCrcValid := Vector.replicate crcBlocks 0
  dmrPduSf := Vector.replicate rowBytes 0

/-- `no_carrier_reset_dmr_data_blocks` and the clears beside it: the sequence and the confirmed
flag stay. -/
def Slot.carrierLost (s : Slot) : Slot :=
  { idle with
    dataConfData := s.dataConfData
    udtUabReserved := s.udtUabReserved
    dataDbsnExpected := s.dataDbsnExpected
    dataDbsnHave := s.dataDbsnHave }

/-- `dmr_clear_superframe_slot`: the last octets of the row are not its own. -/
def clearSuperframe (row : Vector (BitVec 8) rowBytes) : Vector (BitVec 8) rowBytes :=
  Vector.ofFn fun i => if i.val < 24 * 127 then 0 else row.get i

/-- What link control or control signalling does to the blocks of the slot. -/
inductive Effect where
  /-- `dmr_reset_blocks`, of a retune or a lockout. -/
  | reset
  /-- The data terminator of `dmr_flco`. -/
  | terminate
  /-- The row cleared with the metadata of a call that ended. -/
  | clearRow

/-- One effect on the slot. -/
def Slot.effect (s : Slot) : Effect → Slot
  | .reset => idle
  | .terminate =>
    { s with
      dataHeaderFormat := 7, dataHeaderSap := 0, dataHeaderValid := false, dataConfData := false
      dataBlockPoc := 0, dataByteCtr := 0, dataKsStart := 0 }
  | .clearRow => { s with dmrPduSf := Vector.replicate rowBytes 0 }

/-- The octets decryption leaves, by octet or by block of sixteen. -/
inductive Cipher where
  | stream (keystream : ℕ → BitVec 8)
  | blocks (plain : ℕ → BitVec 8)

/-- What the checks over a whole packet or aggregate and its handlers give. -/
structure Whole where
  /-- The check carried agrees with the one computed. -/
  crcMatches : Bool
  /-- The decryption, of an encrypted packet whose key is known. -/
  cipher : Option Cipher
  /-- What the control message does, when the aggregate is one. -/
  effects : List Effect

/-- How the assembler is called. -/
inductive Kind where
  /-- Type 1, a packet of rate blocks. -/
  | packet
  /-- Type 2, a multi block control message. -/
  | control
  /-- Type 3, unified data transport. -/
  | unified
  deriving DecidableEq

/-- `dmr_block_assembler_ctx`, as far as the bookkeeping reads it. -/
structure Assembler where
  blockBytes : ℕ → BitVec 8
  blockLen : ℕ
  isUdt : Bool
  blockcounter : ℕ
  blocks : ℕ

/-- `dmr_block_assembler_init_ctx`; the counter is kept in one octet. -/
def initCtx (blockBytes : ℕ → BitVec 8) (blockLen : ℕ) (kind : Kind) (s : Slot) : Assembler where
  blockBytes := blockBytes
  blockLen := min (if blockLen = 0 then 18 else blockLen) 24
  isUdt := kind = .unified
  blockcounter := s.dataBlockCounter % 256
  blocks := min 127 <| max 1 <| match kind with
    | .packet => s.dataHeaderBlocks - 1
    | .control => s.dataBlockCounter
    | .unified => s.dataHeaderBlocks

/-- Reading some octets of the row one after the other. -/
def readSpan (row : Vector (BitVec 8) rowBytes) (start len : ℕ) : Option (List (BitVec 8)) :=
  (List.range' start len).mapM fun i => row[i]?

/-- `dmr_block_type1_complete`. -/
def Slot.complete (s : Slot) : Bool :=
  s.dataBlockCounter == s.dataHeaderBlocks && s.dataHeaderValid

/-- `dmr_block_type1_append_bytes`. -/
def type1AppendBytes (a : Assembler) (s : Slot) : Option Slot := do
  let start := min s.dataByteCtr rowBytes
  let stop := min (start + a.blockLen) rowBytes
  let row ← forRange start stop s.dmrPduSf fun i row => store row i (a.blockBytes (i - start))
  some { s with dmrPduSf := row, dataByteCtr := stop }

/-- The proprietary header the check of `dmr_block_type1_update_crc` leaves out. -/
def isMnis (s : Slot) : Option Bool := do
  if s.dataHeaderFormat = 0xF ∧ s.dataHeaderSap = 1 ∧ 10 ≤ s.dataByteCtr then
    return (← s.dmrPduSf[1]?) == 0x10 && (← s.dmrPduSf[2]?) == 0x02
  else
    return false

/-- `dmr_block_type1_update_crc`: the octets it reads, and whether the packet checked. -/
def type1UpdateCrc (w : Whole) (s : Slot) : Option Bool := do
  let mnis ← isMnis s
  let skip := if mnis then 3 else 0
  let overhead := if mnis then 8 else 4
  if s.dataByteCtr < overhead then
    return false
  let _extracted ← readSpan s.dmrPduSf (s.dataByteCtr - 4) 4
  let _covered ← readSpan s.dmrPduSf skip (s.dataByteCtr - overhead)
  return w.crcMatches

/-- `dmr_block_type1_block_crc_flags`. -/
def type1BlockCrcFlags (s : Slot) : Option ℕ :=
  if s.dataConfData then
    let start := if s.dataPHead then 2 else 1
    let stop := min s.dataHeaderBlocks 126
    if stop < start then
      some crcFailed
    else
      forRange start (stop + 1) 0 fun bi flags => do
        let verdict ← s.dataBlockCrcValid[bi]?
        if verdict = blockCrcRas then return flags ||| crcRasUnverified
        else if verdict ≠ 1 then return flags ||| crcFailed
        else return flags
  else
    some 0

/-- The window of `dmr_block_crypto_load_ctx` and `dmr_block_crypto_clamp_window`. -/
def cryptoWindow (a : Assembler) (s : Slot) : ℕ × ℕ :=
  let start := min s.dataKsStart rowBytes
  let len : ℤ := (a.blocks + 1) * a.blockLen - 4 - s.dataBlockPoc - s.dataKsStart
  let most := rowBytes - start
  (start, if len < 0 ∨ most < len then most else len.toNat)

/-- `dmr_block_crypto_decrypt_payload`: the octets it goes over. -/
def decryptPayload (a : Assembler) (cipher : Cipher) (s : Slot) : Option Slot := do
  let (start, len) := cryptoWindow a s
  if len = 0 then
    return s
  match cipher with
  | .stream keystream =>
    let row ← forRange start (start + len) s.dmrPduSf fun i row => do
      store row i ((← row[i]?) ^^^ keystream (i - start))
    return { s with dmrPduSf := row }
  | .blocks plain =>
    let nblocks := min (s.dataByteCtr / 16) ((rowBytes - start) / 16)
    let row ← forRange start (start + 16 * nblocks) s.dmrPduSf fun i row =>
      store row i (plain (i - start))
    return { s with dmrPduSf := row }

/-- `dmr_block_type1_process_payload`. -/
def type1ProcessPayload (opts : Opts) (a : Assembler) (w : Whole) (crcCorrect : Bool) (s : Slot) :
    Option Slot := do
  let blockFlags ← type1BlockCrcFlags s
  let crcInvalid := (if crcCorrect then 0 else crcFailed) ||| s.dataHeaderCrcInvalid ||| blockFlags
  if crcInvalid ≠ 0 ∧ opts.aggressiveFramesync ≠ 0 ∧ opts.dmrCrcRelaxedDefault = false then
    return s
  match w.cipher with
  | none => return s
  | some cipher => decryptPayload a cipher s

/-- The octets a payload log prints. -/
def logPayload (opts : Opts) (a : Assembler) (s : Slot) : Option Unit := do
  if opts.payload then
    let _printed ← readSpan s.dmrPduSf 0 ((a.blocks + 1) * a.blockLen)

/-- `dmr_block_type1_clear_header_state`. -/
def Slot.clearHeaderState (s : Slot) : Slot :=
  { s with
    dataHeaderFormat := 7, dataHeaderSap := 0, dataHeaderValid := false, dataHeaderCrcInvalid := 0
    dataConfData := false, dataBlockPoc := 0, dataByteCtr := 0, dataKsStart := 0 }

/-- `dmr_block_assembler_handle_type1`. -/
def handleType1 (opts : Opts) (a : Assembler) (w : Whole) (s : Slot) : Option Slot := do
  let s ← type1AppendBytes a s
  if s.complete then
    let crcCorrect ← type1UpdateCrc w s
    let s ← type1ProcessPayload opts a w crcCorrect s
    logPayload opts a s
    return s.clearHeaderState
  else
    return s

/-- `dmr_block_assembler_reset_type2`: what both resets clear. -/
def Slot.resetType2 (s : Slot) : Option Slot := do
  let crcValid ← store s.dataBlockCrcValid 0 0
  return { s with
    dmrPduSf := clearSuperframe s.dmrPduSf, dataBlockCrcValid := crcValid, dataBlockCounter := 1
    dataHeaderFormat := 7, dataHeaderSap := 0, dataHeaderValid := false, dataHeaderCrcInvalid := 0
    dataConfData := false, dataPHead := false, udtUabReserved := false }

/-- `dmr_block_assembler_reset_type1`: also the octets counted. -/
def Slot.resetType1 (s : Slot) : Option Slot := do
  let s ← s.resetType2
  return { s with dataBlockPoc := 0, dataByteCtr := 0, dataKsStart := 0 }

/-- `dmr_block_assembler_finalize` of a packet. -/
def finalizeType1 (s : Slot) : Option Slot :=
  if s.dataBlockCounter = s.dataHeaderBlocks then s.resetType1
  else some { s with dataBlockCounter := s.dataBlockCounter + 1 }

/-- `dmr_block_assembler_finalize` of an aggregate. -/
def finalizeType2 (lb : Bool) (s : Slot) : Option Slot :=
  if lb then s.resetType2 else some { s with dataBlockCounter := s.dataBlockCounter + 1 }

/-- The store of `dmr_block_assembler_handle_type2`, bounded by the row. -/
def type2Store (a : Assembler) (s : Slot) : Option Slot := do
  let base := a.blockcounter * a.blockLen
  let stop := min (base + a.blockLen) rowBytes
  let row ← forRange base stop s.dmrPduSf fun i row => store row i (a.blockBytes (i - base))
  return { s with dmrPduSf := row }

/-- `dmr_block_type2_set_lb_pf`: the last block, the protected one, and how many blocks. -/
def type2SetLbPf (a : Assembler) (w : Whole) (s : Slot) : Option (Bool × Bool × ℕ) := do
  if a.isUdt = false then
    return ((a.blockBytes 0).getLsbD 7, (a.blockBytes 0).getLsbD 6, a.blocks)
  if s.udtUabReserved then
    if a.blockcounter * 96 < 16 then
      return (false, false, a.blocks)
    let _unpacked ← readSpan s.dmrPduSf 0 (min ((1 + a.blockcounter) * a.blockLen) rowBytes)
    if w.crcMatches then
      return (true, false, a.blockcounter)
    else
      return (false, false, a.blocks)
  else
    return (a.blocks == a.blockcounter, false, a.blocks)

/-- `dmr_block_type2_unpack_bits`: the protected flag of unified data is in its header. -/
def type2UnpackBits (a : Assembler) (pf : Bool) (blocks : ℕ) (s : Slot) : Option Bool := do
  let _unpacked ← readSpan s.dmrPduSf 0 (min ((1 + blocks) * a.blockLen) 60)
  if a.isUdt then
    return (← s.dmrPduSf[9]?).getLsbD 6
  else
    return pf

/-- `dmr_block_type2_dispatch`: a control message has its effects, unified data has none. -/
def type2Dispatch (a : Assembler) (w : Whole) (pf : Bool) (s : Slot) : Slot :=
  if a.isUdt = false ∧ pf = false then w.effects.foldl Slot.effect s else s

/-- `dmr_block_assembler_handle_type2`, and the finalizing after it. -/
def handleType2 (opts : Opts) (a : Assembler) (w : Whole) (s : Slot) : Option Slot := do
  let s := { s with dataBlockCounter := min s.dataBlockCounter 4 }
  let s ← type2Store a s
  let (lb, pf, blocks) ← type2SetLbPf a w s
  if lb = false ∨ s.dataHeaderValid = false then
    finalizeType2 lb s
  else if a.isUdt = false ∧ ¬(1 ≤ blocks ∧ blocks ≤ 4) then
    -- `dmr_block_type2_length_ok`: the block is dropped and nothing is finalized
    let crcValid ← store s.dataBlockCrcValid 0 0
    return { s with dataBlockCrcValid := crcValid }
  else
    let pf ← type2UnpackBits a pf blocks s
    let s := type2Dispatch a w pf s
    logPayload opts { a with blocks := blocks } s
    finalizeType2 lb s

/-- `dmr_block_assembler`. -/
def assembler (opts : Opts) (blockBytes : ℕ → BitVec 8) (blockLen : ℕ) (kind : Kind) (w : Whole)
    (s : Slot) : Option Slot :=
  let a := initCtx blockBytes blockLen kind s
  match kind with
  | .packet => handleType1 opts a w s >>= finalizeType1
  | .control | .unified => handleType2 opts a w s

end DsdNeo.Dmr.DataBlocks
