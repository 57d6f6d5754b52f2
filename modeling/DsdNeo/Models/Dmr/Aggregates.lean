import DsdNeo.Models.Dmr.BlockRuns

/-!
# What aggregates are dispatched with

A control message is a header and up to four continuation blocks, the last of which says so.
Unified data is a header that announces its blocks. The last block is found, the octets gathered
are unpacked, and the check at their end is compared with one over the blocks.
-/

namespace DsdNeo.Dmr.DataBlocks

open Program

/-- `dsd_crc_ccitt16_bits`. -/
def crcCcitt16Bits (bits : List Bool) : BitVec 16 :=
  bits.foldl (fun (crc : BitVec 16) bit =>
    if crc.getLsbD 15 ^^ bit then crc <<< 1 ^^^ 0x1021 else crc <<< 1) 0 ^^^ 0xFFFF

/-- The bits of octets, each with its most significant bit first. -/
def octetBits (octets : ℕ → BitVec 8) (k : ℕ) : Bool := (octets (k / 8)).getLsbD (7 - k % 8)

/-- The octets of a row. -/
def rowOctets (row : Vector (BitVec 8) rowBytes) (i : ℕ) : BitVec 8 := row[i]?.getD 0

/-- `dmr_pdu_sf_bits`: the bits of so many octets of the row, and zeros. -/
def pduSfBits (row : Vector (BitVec 8) rowBytes) (octets k : ℕ) : Bool :=
  decide (k < 8 * octets) && octetBits (rowOctets row) k

/-- `dmr_block_extract_crc16`. -/
def extractCrc16 (bits : ℕ → Bool) (totalBits : ℕ) : ℕ :=
  Bits.number ((List.range' (totalBits - 16) 16).map bits)

/-- Bits of `mbc_block_bits`. -/
def mbcCap : ℕ := 12 * 8 * 6

/-- `mbc_block_bits`: the bits after the header up to a limit, and zeros. -/
def mbcBlockBits (bits : ℕ → Bool) (limit k : ℕ) : Bool := decide (k < limit) && bits (k + 96)

/-- The check of `dmr_block_type2_set_lb_pf`, where unified data announces no number of blocks. -/
def type2EndsHere (a : Assembler) (row : Vector (BitVec 8) rowBytes) : Bool :=
  let mbits := min (a.blockcounter * 96) mbcCap
  let bits := pduSfBits row (min ((1 + a.blockcounter) * a.blockLen) rowBytes)
  let computed := crcCcitt16Bits ((List.range (mbits - 16)).map (mbcBlockBits bits mbits))
  computed.toNat == extractCrc16 bits (96 * (1 + a.blockcounter))

/-- The bits of `dmr_block_type2_unpack_bits`. -/
def type2Bits (a : Assembler) (blocks : ℕ) (row : Vector (BitVec 8) rowBytes) : ℕ → Bool :=
  pduSfBits row (min ((1 + blocks) * a.blockLen) (12 * 5))

/-- The check of `dmr_block_type2_update_crc`. -/
def type2CrcGood (a : Assembler) (blocks : ℕ) (bits : ℕ → Bool) : Bool :=
  let limit := if a.isUdt then min (12 * 8 * blocks) mbcCap else min (12 * 8 * 3) mbcCap
  let crcBits := min (blocks * 96 - 16) mbcCap
  let computed := crcCcitt16Bits ((List.range crcBits).map (mbcBlockBits bits limit))
  computed.toNat == extractCrc16 bits (96 * (1 + blocks))

/-- What `dmr_block_type2_dispatch` is called with. -/
structure Dispatch where
  isUdt : Bool
  pf : Bool
  blocks : ℕ
  bits : ℕ → Bool
  octets : ℕ → BitVec 8
  /-- `mbc_crc_good`, of the header and of the blocks after it. -/
  headerGood : Bool
  crcGood : Bool
  /-- `dmr_block_type2_crc_flags`. -/
  crcFlags : ℕ
  /-- Whether a control message is taken. -/
  accepted : Bool

/-- The dispatch of an aggregate whose last block is in the row. -/
def Assembler.dispatch (opts : Opts) (a : Assembler) (pf : Bool) (blocks : ℕ) (s : Slot) :
    Dispatch :=
  let bits := type2Bits a blocks s.dmrPduSf
  let headerGood := s.dataBlockCrcValid[0]?.getD 0 == 1
  let crcGood := type2CrcGood a blocks bits
  let headerFlags := if s.dataHeaderCrcInvalid ≠ 0 then s.dataHeaderCrcInvalid else crcFailed
  { isUdt := a.isUdt
    pf := pf
    blocks := blocks
    bits := bits
    octets := rowOctets s.dmrPduSf
    headerGood := headerGood
    crcGood := crcGood
    crcFlags := (if crcGood then 0 else crcFailed) ||| (if headerGood then 0 else headerFlags)
    accepted := headerGood && crcGood ||
      opts.aggressiveFramesync == 0 && crcGood && s.dataHeaderValid }

/-- The row with the block at its place. -/
def Assembler.stored (a : Assembler) (row : Vector (BitVec 8) rowBytes) :
    Vector (BitVec 8) rowBytes :=
  Vector.ofFn fun i =>
    if a.blockcounter * a.blockLen ≤ i.val ∧ i.val < a.blockcounter * a.blockLen + a.blockLen then
      a.blockBytes (i.val - a.blockcounter * a.blockLen)
    else row.get i

/-- What the handlers give, with the check over the aggregate that the row gives. -/
def Whole.checked (w : Whole) (a : Assembler) (row : Vector (BitVec 8) rowBytes) : Whole :=
  { w with crcMatches := type2EndsHere a (a.stored row) }

/-- The dispatch of `dmr_block_assembler_handle_type2`, where it comes to one. -/
def Assembler.dispatched (opts : Opts) (a : Assembler) (w : Whole) (s : Slot) :
    Option Dispatch := do
  let w := w.checked a s.dmrPduSf
  let s ← type2Store a { s with dataBlockCounter := min s.dataBlockCounter 4 }
  let (lb, pf, blocks) ← type2SetLbPf a w s
  if lb = false ∨ s.dataHeaderValid = false ∨ a.isUdt = false ∧ ¬(1 ≤ blocks ∧ blocks ≤ 4) then
    none
  else
    let pf ← type2UnpackBits a pf blocks s
    return a.dispatch opts pf blocks s

/-- The slot in which `dmr_dheader_handle_udt` hands the header itself to the assembler. -/
def Slot.unified (b : Burst) (crcFlags : ℕ) (s : Slot) : Slot :=
  let f := parseFields b.bytes
  { s with
    dataHeaderBlocks := f.udtUab, dataHeaderValid := true, dataBlockCounter := 0
    dataHeaderFormat := f.dpf, dataHeaderCrcInvalid := crcFlags
    dataBlockCrcValid := s.dataBlockCrcValid.set 0 (decide (crcFlags = 0)).toNat (by decide)
    dataBlockPoc := 0, dataDbsnHave := false, dataDbsnExpected := 0
    udtUabReserved := decide (f.dpf = 0 ∧ f.udtFormat = 5 ∧ f.udtUab = 3)
    dmrPduSf := clearSuperframe s.dmrPduSf }

/-- The header of unified data is taken. -/
def Burst.announcesUnified (opts : Opts) (b : Burst) (s : Slot) : Bool :=
  (parseFields b.bytes).dpf == 0 && !b.irrecoverable &&
    (b.crcFlags opts s == 0 || opts.aggressiveFramesync == 0 || opts.dmrCrcRelaxedDefault)

/-- The call of the assembler that a burst makes with an aggregate's block, and the slot there. -/
def Burst.call (opts : Opts) (b : Burst) (s : Slot) : Option (Kind × Slot) := do
  let received ← leaveVerdict opts b
    { s with dataPHead := s.dataPHead && b.databurst.keepsDataPHead }
  if b.outOfSequence opts s then
    none
  let next := updateDbsnSequence opts b received
  match b.databurst with
  | .mbcHeader => some (.control, { next with
      dataBlockCounter := 0, dataHeaderValid := b.crcCorrect opts s && !b.irrecoverable
      dataHeaderCrcInvalid := b.crcFlags opts s })
  | .mbcContinuation => some (.control, next)
  | .dataHeader =>
    if b.announcesUnified opts s then some (.unified, next.unified b (b.crcFlags opts s)) else none
  | .rate12 => if b.isUdt s then some (.unified, next) else none
  | _ => none

/-- The context of that call. -/
def Burst.assembler (b : Burst) (s : Slot) (kind : Kind) (t : Slot) : Assembler :=
  initCtx (b.pdu s) (b.pduLen s) kind t

/-- The dispatch a burst leads to. -/
def Burst.dispatched (opts : Opts) (b : Burst) (s : Slot) : Option Dispatch :=
  match b.call opts s with
  | none => none
  | some (kind, t) => (b.assembler s kind t).dispatched opts b.whole t

/-- The burst with the check over the aggregate that its octets give. -/
def Burst.checked (opts : Opts) (b : Burst) (s : Slot) : Burst :=
  match b.call opts s with
  | none => b
  | some (kind, t) => { b with whole := b.whole.checked (b.assembler s kind t) t.dmrPduSf }

/-- The dispatches of bursts in a row, none where a burst leads to none. -/
def dispatches (opts : Opts) : Slot → List Burst → Option (List (Option Dispatch))
  | _, [] => some []
  | s, b :: bursts => do
    let s' ← dataBurstHandler opts (b.checked opts s) s
    let rest ← dispatches opts s' bursts
    return b.dispatched opts s :: rest

variable {opts : Opts} {s t : Slot} {b header : Burst} {a : Assembler} {w : Whole} {kind : Kind}
  {bursts blocks : List Burst}

variable {row : Vector (BitVec 8) rowBytes}

theorem rowOctets_eq_getElem {i : ℕ} (h : i < rowBytes) : rowOctets row i = row[i] := by
  rw [rowOctets, getElem?_eq_some_getElem h, Option.getD_some]

theorem rowOctets_stored {i : ℕ} (h : i < rowBytes) :
    rowOctets (a.stored row) i =
      if a.blockcounter * a.blockLen ≤ i ∧ i < a.blockcounter * a.blockLen + a.blockLen then
        a.blockBytes (i - a.blockcounter * a.blockLen) else rowOctets row i := by
  rw [rowOctets_eq_getElem h, rowOctets_eq_getElem h, Assembler.stored, Vector.getElem_ofFn]
  rfl

theorem type2Store_eq (h : a.blockcounter * a.blockLen + a.blockLen ≤ rowBytes) :
    type2Store a s = some { s with dmrPduSf := a.stored s.dmrPduSf } := by
  have hwrites : Returns (forRange (a.blockcounter * a.blockLen)
      (min (a.blockcounter * a.blockLen + a.blockLen) rowBytes) s.dmrPduSf fun i row =>
        store row i (a.blockBytes (i - a.blockcounter * a.blockLen)))
      fun row => row = a.stored s.dmrPduSf := by
    rw [Nat.min_eq_left h]
    refine (returns_forRange (fun j row => ∀ i, i < rowBytes → rowOctets row i =
      if a.blockcounter * a.blockLen ≤ i ∧ i < j then
        a.blockBytes (i - a.blockcounter * a.blockLen)
      else rowOctets s.dmrPduSf i) (Nat.le_add_right _ _) ?_ fun j row hlow hhigh hinv => ?_).mono
        ?_
    · intro i _
      rw [if_neg (by omega)]
    · refine (returns_store (by omega)).mono fun row' hrow' i hi => ?_
      by_cases hij : i = j
      · rw [hij, rowOctets, hrow'.here, if_pos ⟨hlow, Nat.lt_succ_self j⟩, Option.getD_some]
      · rw [rowOctets, hrow'.rest i hij]
        exact (hinv i hi).trans (if_congr (by omega) rfl rfl)
    · intro row hrow
      ext1 i hi
      rw [← rowOctets_eq_getElem hi, ← rowOctets_eq_getElem hi, hrow i hi, rowOctets_stored hi]
  obtain ⟨row, hrow, rfl⟩ := hwrites
  exact congrArg (·.bind fun row => some { s with dmrPduSf := row }) hrow

/-- The octets of bursts one after the other. -/
def messageOctets (bursts : List Burst) (i : ℕ) : BitVec 8 :=
  (bursts[i / 12]?.map fun b => b.bytes (i % 12)).getD 0

/-- Their bits. -/
def messageBits (bursts : List Burst) : List Bool :=
  (List.range (96 * bursts.length)).map (octetBits (messageOctets bursts))

/-- The check at the end. -/
def messageCheck (bursts : List Burst) : ℕ :=
  Bits.number ((messageBits bursts).drop (96 * bursts.length - 16))

/-- The bits it covers, between the header and the check. -/
def coveredBits (bursts : List Burst) : List Bool :=
  ((messageBits bursts).take (96 * bursts.length - 16)).drop 96

/-- The check is right. -/
def MessageChecks (bursts : List Burst) : Prop :=
  messageCheck bursts = (crcCcitt16Bits (coveredBits bursts)).toNat

/-- Bits of which those past the third block are cleared. -/
def clearedPastThird (bits : List Bool) : List Bool :=
  bits.take 288 ++ List.replicate (bits.length - 288) false

/-- A header whose check is right and up to four continuation blocks, the last of which alone says
that it is the last. -/
structure ControlMessage (header : Burst) (blocks : List Burst) : Prop where
  header_type : header.databurst = .mbcHeader
  header_checks : header.crcMatches = true
  header_decoded : header.irrecoverableErrors = false
  header_more : (header.bytes 0).getLsbD 7 = false
  block_type : ∀ b ∈ blocks, b.databurst = .mbcContinuation
  nonempty : blocks ≠ []
  length_le : blocks.length ≤ 4
  last : ∀ k (hk : k < blocks.length),
    ((blocks[k].bytes 0).getLsbD 7 = true ↔ k + 1 = blocks.length)

/-- A header of unified data that is taken and the blocks it announces, in a slot whose blocks are
not confirmed ones. -/
structure UnifiedMessage (opts : Opts) (s : Slot) (header : Burst) (blocks : List Burst) :
    Prop where
  header_type : header.databurst = .dataHeader
  taken : header.announcesUnified opts s = true
  block_type : ∀ b ∈ blocks, b.databurst = .rate12
  announced : blocks.length = (parseFields header.bytes).udtUab
  unconfirmed : s.dataConfData = false

/-- The header announces a number of blocks that the code takes as reserved. -/
def Burst.reservedNumber (header : Burst) : Bool :=
  (parseFields header.bytes).udtFormat == 5 && (parseFields header.bytes).udtUab == 3

/-- What is dispatched is the message, and the check reported is its check. -/
structure Dispatch.Exact (d : Dispatch) (bursts : List Burst) : Prop where
  bits : (List.range (96 * (1 + d.blocks))).map d.bits = messageBits bursts
  octets : ∀ i < 12 * bursts.length, d.octets i = messageOctets bursts i
  crc : d.crcGood = true ↔ MessageChecks bursts

/-- The message is dispatched once, at its last block, and exactly. -/
def DispatchedExactly (opts : Opts) (s : Slot) (header : Burst) (blocks : List Burst) : Prop :=
  ∃ d : Dispatch, dispatches opts s (header :: blocks) =
      some (List.replicate blocks.length none ++ [some d]) ∧
    d.Exact (header :: blocks)

/-- The check of a control message comes out the same when the bits past the third block count as
zero: the bits are fewer, or the remainder is the same, or the check is neither remainder. -/
def PastThirdIdle (bursts : List Burst) : Prop :=
  bursts.length ≤ 4 ∨
    crcCcitt16Bits (clearedPastThird (coveredBits bursts)) = crcCcitt16Bits (coveredBits bursts) ∨
    (messageCheck bursts ≠ (crcCcitt16Bits (clearedPastThird (coveredBits bursts))).toNat ∧
      ¬ MessageChecks bursts)

/-- The check of unified data is right after its last block, and after none before. -/
def EndFound (header : Burst) (blocks : List Burst) : Prop :=
  ∀ k < blocks.length, (MessageChecks (header :: blocks.take (k + 1)) ↔ k + 1 = blocks.length)

theorem messageOctets_snoc (bursts : List Burst) (b : Burst) (i : ℕ) :
    messageOctets (bursts ++ [b]) i =
      if 12 * bursts.length ≤ i ∧ i < 12 * bursts.length + 12 then b.bytes (i - 12 * bursts.length)
      else messageOctets bursts i := by
  unfold messageOctets
  split
  case isTrue h =>
    have hplace : i / 12 = bursts.length := by omega
    have hoctet : i % 12 = i - 12 * bursts.length := by omega
    rw [hplace, List.getElem?_concat_length, hoctet]
    rfl
  case isFalse h =>
    rcases Nat.lt_or_ge (i / 12) bursts.length with hlow | hhigh
    · rw [List.getElem?_append_left hlow]
    · rw [List.getElem?_eq_none (by simp; omega), List.getElem?_eq_none hhigh]

/-- The bits are those of the message, as far as it goes. -/
def Agrees (bits : ℕ → Bool) (bursts : List Burst) : Prop :=
  ∀ k < 96 * bursts.length, bits k = octetBits (messageOctets bursts) k

variable {bits : ℕ → Bool} {n limit : ℕ}

theorem Agrees.extractCrc16_eq (h : Agrees bits bursts) (hne : bursts ≠ []) :
    extractCrc16 bits (96 * bursts.length) = messageCheck bursts := by
  have hpos : 0 < bursts.length := List.length_pos_iff.mpr hne
  have hlast : 96 * bursts.length - (96 * bursts.length - 16) = 16 := by omega
  have hdrop : (List.range (96 * bursts.length)).drop (96 * bursts.length - 16) =
      List.range' (96 * bursts.length - 16) 16 := by
    rw [List.range_eq_range', List.drop_range', hlast, mul_one, zero_add]
  rw [messageCheck, messageBits, ← List.map_drop, hdrop, extractCrc16]
  congr 1
  refine List.map_congr_left fun k hk => h k ?_
  have hrange := List.mem_range'_1.mp hk
  omega

/-- The bits between header and check, by index. -/
theorem coveredBits_eq (hlen : bursts.length = n + 1) :
    coveredBits bursts =
      (List.range (96 * n - 16)).map fun k => octetBits (messageOctets bursts) (k + 96) := by
  refine List.ext_getElem ?_ fun k hk hk' => ?_
  · rw [coveredBits, messageBits, List.length_drop, List.length_take, List.length_map,
      List.length_range, List.length_map, List.length_range]
    omega
  · simp [coveredBits, messageBits, Nat.add_comm]

theorem Agrees.coveredBits_eq (h : Agrees bits bursts) (hlen : bursts.length = n + 1)
    (hlimit : 96 * n - 16 ≤ limit) :
    (List.range (96 * n - 16)).map (mbcBlockBits bits limit) = coveredBits bursts := by
  rw [DataBlocks.coveredBits_eq hlen]
  refine List.map_congr_left fun k hk => ?_
  have hrange := List.mem_range.mp hk
  rw [mbcBlockBits, decide_eq_true (by omega : k < limit), Bool.true_and, h _ (by omega)]

theorem Agrees.clearedPastThird_eq (h : Agrees bits bursts) (hlen : bursts.length = n + 1) :
    (List.range (96 * n - 16)).map (mbcBlockBits bits 288) =
      clearedPastThird (coveredBits bursts) := by
  rw [DataBlocks.coveredBits_eq hlen]
  refine List.ext_getElem ?_ fun k hk hk' => ?_
  · simp [clearedPastThird]
    omega
  · have hrange : k < 96 * n - 16 := by simpa using hk
    simp only [List.getElem_map, List.getElem_range, mbcBlockBits, clearedPastThird]
    rcases Nat.lt_or_ge k 288 with hlow | hhigh
    · rw [List.getElem_append_left (by simp; omega)]
      simp [hlow, h (k + 96) (by omega)]
    · rw [List.getElem_append_right (by simp; omega)]
      simp [Nat.not_lt.mpr hhigh]

theorem clearedPastThird_of_length_le {covered : List Bool} (h : covered.length ≤ 288) :
    clearedPastThird covered = covered := by
  rw [clearedPastThird, List.take_of_length_le h, Nat.sub_eq_zero_of_le h, List.replicate_zero,
    List.append_nil]

theorem length_coveredBits (hlen : bursts.length = n + 1) :
    (coveredBits bursts).length = 96 * n - 16 := by
  rw [coveredBits_eq hlen, List.length_map, List.length_range]

theorem beq_messageCheck (bursts : List Burst) (crc : BitVec 16) :
    (crc.toNat == messageCheck bursts) = true ↔ messageCheck bursts = crc.toNat := by
  rw [beq_iff_eq, eq_comm]

/-- The check of unified data covers all of its blocks. -/
theorem type2CrcGood_unified (hudt : a.isUdt = true) (h : Agrees bits bursts)
    (hlen : bursts.length = n + 1) (hn : n ≤ 4) :
    type2CrcGood a n bits = true ↔ MessageChecks bursts := by
  have hne : bursts ≠ [] := List.ne_nil_of_length_eq_add_one hlen
  have hcrc : min (n * 96 - 16) mbcCap = 96 * n - 16 := by
    unfold mbcCap
    omega
  have htotal : 96 * (1 + n) = 96 * bursts.length := by omega
  simp only [type2CrcGood, if_pos hudt, hcrc, htotal, h.extractCrc16_eq hne]
  rw [h.coveredBits_eq hlen]
  · exact beq_messageCheck _ _
  · unfold mbcCap
    omega

theorem type2CrcGood_control (hudt : a.isUdt = false) (h : Agrees bits bursts)
    (hlen : bursts.length = n + 1) (hn : n ≤ 4) :
    type2CrcGood a n bits = true ↔
      messageCheck bursts = (crcCcitt16Bits (clearedPastThird (coveredBits bursts))).toNat := by
  have hne : bursts ≠ [] := List.ne_nil_of_length_eq_add_one hlen
  have hcrc : min (n * 96 - 16) mbcCap = 96 * n - 16 := by
    unfold mbcCap
    omega
  have htotal : 96 * (1 + n) = 96 * bursts.length := by omega
  have hlimit : min (12 * 8 * 3) mbcCap = 288 := rfl
  simp only [type2CrcGood, if_neg (Bool.eq_false_iff.mp hudt), hcrc, hlimit, htotal,
    h.extractCrc16_eq hne, h.clearedPastThird_eq hlen]
  exact beq_messageCheck _ _

theorem pastThirdIdle_iff (hlen : bursts.length = n + 1) :
    (messageCheck bursts = (crcCcitt16Bits (clearedPastThird (coveredBits bursts))).toNat ↔
      MessageChecks bursts) ↔ PastThirdIdle bursts := by
  unfold PastThirdIdle MessageChecks
  constructor
  · intro hiff
    by_cases hchecks : messageCheck bursts = (crcCcitt16Bits (coveredBits bursts)).toNat
    · exact .inr (.inl (BitVec.eq_of_toNat_eq ((hiff.mpr hchecks).symm.trans hchecks)))
    · exact .inr (.inr ⟨fun h => hchecks (hiff.mp h), hchecks⟩)
  · rintro (hshort | hsame | ⟨hcleared, hchecks⟩)
    · rw [clearedPastThird_of_length_le]
      rw [length_coveredBits hlen]
      omega
    · rw [hsame]
    · exact iff_of_false hcleared hchecks

theorem agrees_pduSfBits {octets : ℕ}
    (h : ∀ i < 12 * bursts.length, rowOctets row i = messageOctets bursts i)
    (hle : 12 * bursts.length ≤ octets) : Agrees (pduSfBits row octets) bursts := by
  intro k hk
  rw [pduSfBits, decide_eq_true (by omega : k < 8 * octets), Bool.true_and, octetBits, octetBits,
    h _ (by omega)]

/-- Where no number is announced, the last block is one after which the check is right. -/
theorem type2EndsHere_iff (h : ∀ i < 12 * bursts.length, rowOctets row i = messageOctets bursts i)
    (hlen : bursts.length = a.blockcounter + 1) (hn : a.blockcounter ≤ 4)
    (hoctets : a.blockLen = 12) : type2EndsHere a row = true ↔ MessageChecks bursts := by
  have hne : bursts ≠ [] := List.ne_nil_of_length_eq_add_one hlen
  have hmbits : min (a.blockcounter * 96) mbcCap = 96 * a.blockcounter := by
    unfold mbcCap
    omega
  have htotal : 96 * (1 + a.blockcounter) = 96 * bursts.length := by omega
  have hspan : min ((1 + a.blockcounter) * a.blockLen) rowBytes = 12 * bursts.length := by
    unfold rowBytes
    rw [hoctets]
    omega
  have hbits : Agrees (pduSfBits row (12 * bursts.length)) bursts := agrees_pduSfBits h le_rfl
  simp only [type2EndsHere, hmbits, htotal, hspan, hbits.extractCrc16_eq hne]
  rw [hbits.coveredBits_eq hlen (Nat.sub_le _ _)]
  exact beq_messageCheck _ _

end DsdNeo.Dmr.DataBlocks
