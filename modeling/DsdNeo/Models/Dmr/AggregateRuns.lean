import DsdNeo.Models.Dmr.Aggregates

/-!
# Aggregates gathered block by block

A slot gathers the header and the blocks after it; what it holds and where the aggregate ends is
what one block leaves to the next. The dispatch comes with the last block and carries the message.
-/

namespace DsdNeo.Dmr.DataBlocks

open Program DataType

variable {opts : Opts} {s t : Slot} {b header : Burst} {w : Whole} {kind : Kind} {reserved : Bool}
  {announced : ℕ} {bursts blocks : List Burst}

/-- The bursts so far are in the row, and the counter counts them. -/
structure Gathering (bursts : List Burst) (t : Slot) : Prop where
  counter : t.dataBlockCounter = bursts.length
  valid : t.dataHeaderValid = true
  octets : ∀ i < 12 * bursts.length, rowOctets t.dmrPduSf i = messageOctets bursts i

/-- The block is the last of its aggregate: it says so, or as many as announced came before it, or
no number was announced and the check is right. -/
def Ends (kind : Kind) (reserved : Bool) (announced : ℕ) (bursts : List Burst) (b : Burst) : Prop :=
  if kind = .control then (b.bytes 0).getLsbD 7 = true
  else if reserved = true then bursts ≠ [] ∧ MessageChecks (bursts ++ [b])
  else bursts.length = min 127 (max 1 announced)

/-- The context of a block of twelve octets. -/
def blockCtx (b : Burst) (kind : Kind) (t : Slot) : Assembler := initCtx b.bytes 12 kind t

theorem blockLen_blockCtx : (blockCtx b kind t).blockLen = 12 := rfl

theorem Gathering.blockcounter (h : Gathering bursts t) (hlen : bursts.length ≤ 4) (b : Burst)
    (kind : Kind) : (blockCtx b kind t).blockcounter = bursts.length := by
  show t.dataBlockCounter % 256 = bursts.length
  rw [h.counter]
  omega

theorem Gathering.stored (h : Gathering bursts t) (hlen : bursts.length ≤ 4) (b : Burst)
    (kind : Kind) : ∀ i < 12 * (bursts ++ [b]).length,
      rowOctets ((blockCtx b kind t).stored t.dmrPduSf) i = messageOctets (bursts ++ [b]) i := by
  intro i hi
  rw [List.length_append, List.length_singleton] at hi
  have hin : i < rowBytes := by
    unfold rowBytes
    omega
  rw [rowOctets_stored hin, messageOctets_snoc, h.blockcounter hlen b kind, blockLen_blockCtx,
    Nat.mul_comm bursts.length 12]
  split
  · rfl
  · exact h.octets i (by omega)

theorem Gathering.store_eq (h : Gathering bursts t) (hlen : bursts.length ≤ 4) {s : Slot} :
    type2Store (blockCtx b kind t) s =
      some { s with dmrPduSf := (blockCtx b kind t).stored s.dmrPduSf } := by
  refine type2Store_eq ?_
  rw [h.blockcounter hlen b kind, blockLen_blockCtx]
  unfold rowBytes
  omega

/-- What the block says of itself. -/
theorem Gathering.setLbPf (h : Gathering bursts t) (hlen : bursts.length ≤ 4)
    (hkind : kind ≠ .packet) (b : Burst) (w : Whole) (t' : Slot)
    (hrow : t'.dmrPduSf = (blockCtx b kind t).stored t.dmrPduSf)
    (hreserved : t'.udtUabReserved = t.udtUabReserved) :
    Returns (type2SetLbPf (blockCtx b kind t) (w.checked (blockCtx b kind t) t.dmrPduSf) t')
      fun r => (r.1 = true ↔ Ends kind t.udtUabReserved t.dataHeaderBlocks bursts b) ∧
        (r.1 = true → bursts ≠ [] → r.2.2 = bursts.length) := by
  have hcounter := h.blockcounter hlen b kind
  cases kind with
  | packet => exact absurd rfl hkind
  | control =>
    refine returns_some ⟨iff_of_eq (if_pos rfl).symm, fun _ hne => ?_⟩
    have hpos := List.length_pos_iff.mpr hne
    show min 127 (max 1 t.dataBlockCounter) = bursts.length
    rw [h.counter]
    omega
  | unified =>
    have hends : (type2EndsHere (blockCtx b .unified t)
        ((blockCtx b .unified t).stored t.dmrPduSf) = true ↔ MessageChecks (bursts ++ [b])) := by
      refine type2EndsHere_iff (h.stored hlen b .unified) ?_ (hcounter ▸ hlen) blockLen_blockCtx
      rw [hcounter, List.length_append, List.length_singleton]
    unfold type2SetLbPf Ends
    refine returns_ite (fun hcontrol => absurd hcontrol (by simp [blockCtx, initCtx])) fun _ => ?_
    rw [hreserved, hcounter, if_neg (show ¬ Kind.unified = .control by decide)]
    refine returns_ite (fun hres => ?_) fun hres => ?_
    · rw [if_pos hres]
      refine returns_ite (fun hfew => ?_) fun hmany => ?_
      · have hnil : bursts = [] := List.length_eq_zero_iff.mp (by omega)
        exact returns_some ⟨by simp [hnil], nofun⟩
      · have hne : bursts ≠ [] := fun hnil => hmany (by simp [hnil])
        refine (returns_readSpan (by omega)).bind fun _ _ => ?_
        refine returns_ite (fun hmatch => returns_some ⟨?_, fun _ _ => rfl⟩)
          fun hmatch => returns_some ⟨?_, nofun⟩
        · exact iff_of_true rfl ⟨hne, hends.mp hmatch⟩
        · exact iff_of_false Bool.false_ne_true fun hlast => hmatch (hends.mpr hlast.2)
    · rw [if_neg hres]
      refine returns_some ⟨?_, fun hlast _ => beq_iff_eq.mp hlast⟩
      rw [beq_iff_eq]
      exact eq_comm

/-- The slot with the block in its row. -/
def Slot.holding (b : Burst) (kind : Kind) (bursts : List Burst) (t : Slot) : Slot :=
  { t with
    dmrPduSf := (blockCtx b kind t).stored t.dmrPduSf
    dataBlockCounter := bursts.length }

/-- The slot after a block that is not the last. -/
def Slot.gathered (b : Burst) (kind : Kind) (bursts : List Burst) (t : Slot) : Slot :=
  { t.holding b kind bursts with dataBlockCounter := bursts.length + 1 }

theorem Gathering.gathered (h : Gathering bursts t) (hlen : bursts.length ≤ 4) (b : Burst)
    (kind : Kind) : Gathering (bursts ++ [b]) (t.gathered b kind bursts) where
  counter := by
    rw [List.length_append]
    rfl
  valid := h.valid
  octets := h.stored hlen b kind

theorem Gathering.holding_eq (h : Gathering bursts t) (hlen : bursts.length ≤ 4) :
    type2Store (blockCtx b kind t) { t with dataBlockCounter := min t.dataBlockCounter 4 } =
      some (t.holding b kind bursts) := by
  have hclamp : min t.dataBlockCounter 4 = bursts.length := by
    rw [h.counter]
    omega
  rw [h.store_eq hlen, hclamp]
  rfl

theorem Gathering.more (h : Gathering bursts t) (hlen : bursts.length ≤ 4) (hkind : kind ≠ .packet)
    (opts : Opts) (w : Whole) (hmore : ¬ Ends kind t.udtUabReserved t.dataHeaderBlocks bursts b) :
    assembler opts b.bytes 12 kind (w.checked (blockCtx b kind t) t.dmrPduSf) t =
        some (t.gathered b kind bursts) ∧ (blockCtx b kind t).dispatched opts w t = none := by
  obtain ⟨⟨lb, pf, blocks⟩, hresult, hends, -⟩ :=
    h.setLbPf hlen hkind b w (t.holding b kind bursts) rfl rfl
  have hlb : lb = false := Bool.eq_false_iff.mpr fun hlast => hmore (hends.mp hlast)
  subst hlb
  constructor
  · have hctx : initCtx b.bytes 12 kind t = blockCtx b kind t := rfl
    rw [assembler_aggregate hkind, hctx, handleType2]
    simp only [h.holding_eq hlen, Option.bind_eq_bind, Option.bind_some, hresult, true_or, if_true]
    rfl
  · rw [Assembler.dispatched]
    simp only [h.holding_eq hlen, Option.bind_eq_bind, Option.bind_some, hresult, true_or, if_true]

/-- The dispatch carries the message, and the check its kind makes. -/
structure Dispatch.Carries (d : Dispatch) (kind : Kind) (bursts : List Burst) : Prop where
  blocks : bursts.length = d.blocks + 1
  bits : Agrees d.bits bursts
  octets : ∀ i < 12 * bursts.length, d.octets i = messageOctets bursts i
  crc : d.crcGood = true ↔ messageCheck bursts = (crcCcitt16Bits
    (if kind = .control then clearedPastThird (coveredBits bursts) else coveredBits bursts)).toNat

theorem Gathering.carries (h : Gathering bursts t) (hlen : bursts.length ≤ 4)
    (hkind : kind ≠ .packet) (opts : Opts) (b : Burst) (pf : Bool) :
    ((blockCtx b kind t).dispatch opts pf bursts.length (t.holding b kind bursts)).Carries kind
      (bursts ++ [b]) := by
  have hlength : (bursts ++ [b]).length = bursts.length + 1 := List.length_append
  have hoctets := h.stored hlen b kind
  have hbits : Agrees (type2Bits (blockCtx b kind t) bursts.length
      ((blockCtx b kind t).stored t.dmrPduSf)) (bursts ++ [b]) := by
    refine agrees_pduSfBits hoctets ?_
    rw [hlength, blockLen_blockCtx]
    omega
  refine ⟨hlength, hbits, hoctets, ?_⟩
  cases kind with
  | packet => exact absurd rfl hkind
  | control => exact type2CrcGood_control rfl hbits hlength hlen
  | unified => exact type2CrcGood_unified rfl hbits hlength hlen

/-- The last block is dispatched with the message. -/
theorem Gathering.ends (h : Gathering bursts t) (hlen : bursts.length ≤ 4) (hne : bursts ≠ [])
    (hkind : kind ≠ .packet) (opts : Opts) (w : Whole)
    (hlast : Ends kind t.udtUabReserved t.dataHeaderBlocks bursts b) :
    Returns (assembler opts b.bytes 12 kind (w.checked (blockCtx b kind t) t.dmrPduSf) t)
        (fun _ => True) ∧
      ∃ d, (blockCtx b kind t).dispatched opts w t = some d ∧ d.Carries kind (bursts ++ [b]) := by
  obtain ⟨⟨lb, pf, blocks⟩, hresult, hends, hcount⟩ :=
    h.setLbPf hlen hkind b w (t.holding b kind bursts) rfl rfl
  have hlb : lb = true := hends.mpr hlast
  have hblocks : blocks = bursts.length := hcount hlb hne
  subst hlb hblocks
  constructor
  · rw [assembler_aggregate hkind]
    have hcounter := h.blockcounter hlen b kind
    have hlow : (blockCtx b kind t).blockcounter ≤ 127 := by omega
    exact (returns_handleType2 (Nat.min_le_left _ _) hlow (Nat.min_le_right _ _)).mono
      fun _ _ => trivial
  · obtain ⟨pf', hpf, -⟩ := returns_type2UnpackBits (a := blockCtx b kind t)
      (s := t.holding b kind bursts) pf bursts.length
    have hpos := List.length_pos_iff.mpr hne
    have hgoes : ¬ (true = false ∨ (t.holding b kind bursts).dataHeaderValid = false ∨
        (blockCtx b kind t).isUdt = false ∧ ¬(1 ≤ bursts.length ∧ bursts.length ≤ 4)) := by
      have hvalid : (t.holding b kind bursts).dataHeaderValid = true := h.valid
      rw [hvalid]
      simp
      omega
    refine ⟨_, ?_, h.carries hlen hkind opts b pf'⟩
    rw [Assembler.dispatched]
    simp only [h.holding_eq hlen, Option.bind_eq_bind, Option.bind_some, hresult, hpf, if_neg hgoes]
    rfl

/-- What the checks and handlers over an aggregate give is read by the assembler alone. -/
theorem dataBurstHandler_eq (w : Whole) :
    dataBurstHandler opts { b with whole := w } s =
      (leaveVerdict opts b { s with dataPHead := s.dataPHead && b.databurst.keepsDataPHead } >>=
        fun received => if b.outOfSequence opts s = true then some idle else
          dispatchByType opts { b with whole := w } (b.crcCorrect opts s) (b.crcFlags opts s)
            (b.isUdt s) (b.pdu s) (b.pduLen s) (updateDbsnSequence opts b received)) := rfl

theorem dispatchByType_dataHeader {crcCorrect isUdt : Bool} {crcFlags pduLen : ℕ}
    {pdu : ℕ → BitVec 8} (h : b.databurst = .dataHeader) :
    dispatchByType opts b crcCorrect crcFlags isUdt pdu pduLen s =
      dheaderClassified opts b crcFlags s := by
  unfold dispatchByType
  rw [h]

theorem dataBurstHandler_of_call (htype : b.databurst ≠ .dataHeader)
    (h : b.call opts s = some (kind, t)) (w : Whole) :
    dataBurstHandler opts { b with whole := w } s =
      assembler opts (b.pdu s) (b.pduLen s) kind w t := by
  unfold Burst.call at h
  rw [dataBurstHandler_eq]
  cases hverdict : leaveVerdict opts b
      { s with dataPHead := s.dataPHead && b.databurst.keepsDataPHead } with
  | none => simp [hverdict] at h
  | some received =>
    simp only [hverdict, Option.bind_eq_bind, Option.bind_some] at h ⊢
    split at h
    · simp at h
    · next hin =>
        rw [if_neg hin]
        obtain ⟨databurst, bytes, crcMatches, errors, reservedBits, whole⟩ := b
        cases databurst with
        | dataHeader => exact absurd rfl htype
        | mbcHeader | mbcContinuation =>
          cases h
          rfl
        | rate12 =>
          obtain ⟨hudt, hcall⟩ := Option.ite_none_right_eq_some.mp h
          cases hcall
          exact congrArg (fun udt : Bool =>
            assembler opts _ _ (if udt then Kind.unified else .packet) w _) hudt
        | _ => cases h

/-- The burst hands twelve octets to the assembler. -/
structure HandsOver (opts : Opts) (b : Burst) (s : Slot) (kind : Kind) (t : Slot) : Prop where
  call : b.call opts s = some (kind, t)
  ctx : b.assembler s kind t = blockCtx b kind t
  handler : ∀ w, dataBurstHandler opts { b with whole := w } s = assembler opts b.bytes 12 kind w t

theorem handsOver_of_call (hcall : b.call opts s = some (kind, t))
    (htype : b.databurst ≠ .dataHeader)
    (hstart : b.pduStart s = 0) (hlen : b.pduLen s = 12) : HandsOver opts b s kind t := by
  have hpdu : b.pdu s = b.bytes := by
    funext i
    rw [Burst.pdu, hstart]
    rfl
  refine ⟨hcall, ?_, fun w => ?_⟩
  · rw [Burst.assembler, hpdu, hlen]
    rfl
  · rw [dataBurstHandler_of_call htype hcall w, hpdu, hlen]

theorem handsOver_continuation (htype : b.databurst = .mbcContinuation) :
    HandsOver opts b s .control { s with dataPHead := false } := by
  have hstart : b.pduStart s = 0 := by simp [Burst.pduStart, htype]
  refine handsOver_of_call ?_ (by simp [htype]) hstart (by simp [Burst.pduLen, htype, hstart])
  simp [Burst.call, htype, leaveVerdict, Burst.outOfSequence, Burst.numbered, updateDbsnSequence,
    leavesVerdict, keepsDataPHead]

theorem handsOver_rate12 (htype : b.databurst = .rate12) (hformat : s.dataHeaderFormat = 0)
    (hconf : s.dataConfData = false) : HandsOver opts b s .unified s := by
  have hstart : b.pduStart s = 0 := by simp [Burst.pduStart, hconf]
  have hudt : b.isUdt s = true := by simp [Burst.isUdt, htype, hformat]
  have hkeeps : { s with dataPHead := s.dataPHead && b.databurst.keepsDataPHead } = s := by
    simp [htype, keepsDataPHead]
  refine handsOver_of_call ?_ (by simp [htype]) hstart (by simp [Burst.pduLen, htype, hstart])
  rw [Burst.call, hkeeps]
  simp [htype, leaveVerdict, Burst.outOfSequence, Burst.numbered, updateDbsnSequence, hconf, hudt]

theorem handsOver_header (opts : Opts) (s : Slot) (htype : b.databurst = .mbcHeader)
    (hchecks : b.crcMatches = true)
    (hdecoded : b.irrecoverableErrors = false) :
    ∃ t, HandsOver opts b s .control t ∧ Gathering [] t := by
  have hstart : b.pduStart s = 0 := by simp [Burst.pduStart, htype]
  obtain ⟨crcValid, hstore, -⟩ :=
    returns_store (v := s.dataBlockCrcValid) (x := 1) (show 0 < crcBlocks by decide)
  refine ⟨{ s with
    dataPHead := false, dataBlockCrcValid := crcValid, dataBlockCounter := 0
    dataHeaderValid := b.crcCorrect opts s && !b.irrecoverable
    dataHeaderCrcInvalid := b.crcFlags opts s }, ?_, rfl, ?_, nofun⟩
  · refine handsOver_of_call ?_ (by simp [htype]) hstart (by simp [Burst.pduLen, htype, hstart])
    simp [Burst.call, htype, leaveVerdict, Burst.outOfSequence, Burst.numbered, updateDbsnSequence,
      leavesVerdict, keepsDataPHead, Burst.crcOriginal, hchecks, hstore]
  · simp [Burst.crcCorrect, Burst.crcOriginal, htype, hchecks, hdecoded, Burst.irrecoverable,
      leavesVerdict]

/-- The slot after the header of unified data has been assembled. -/
def Slot.announcedUnified (b : Burst) (u : Slot) : Slot :=
  let u := ({ u with dataByteCtr := 0 } : Slot).sanitizeBlocks
  { u with
    dataHeaderValid := u.dataHeaderValid || (parseFields b.bytes).armsAssembler
    dataHeaderSap := (parseFields b.bytes).sap }

theorem dheaderClassified_unified (h : b.announcesUnified opts s = true) (next : Slot) :
    dheaderClassified opts { b with whole := w } (b.crcFlags opts s) next =
      (assembler opts b.bytes 12 .unified w (next.unified b (b.crcFlags opts s))).map
        (Slot.announcedUnified b) := by
  simp only [Burst.announcesUnified, Bool.and_eq_true, Bool.or_eq_true, beq_iff_eq,
    Bool.not_eq_true', or_assoc] at h
  obtain ⟨⟨hdpf, hdecoded⟩, htaken⟩ := h
  have hirrecoverable : ({ b with whole := w } : Burst).irrecoverable = false := hdecoded
  have hrefused : ¬ (({ b with whole := w } : Burst).irrecoverable = true ∨
      ¬ (b.crcFlags opts s = 0 ∨ opts.aggressiveFramesync = 0 ∨
        opts.dmrCrcRelaxedDefault = true)) := by
    rw [hirrecoverable]
    exact fun hrefused => hrefused.elim Bool.false_ne_true fun huntaken => huntaken htaken
  have hstore : store next.dataBlockCrcValid 0 (decide (b.crcFlags opts s = 0)).toNat =
      some (next.dataBlockCrcValid.set 0 (decide (b.crcFlags opts s = 0)).toNat (by decide)) :=
    dif_pos (by decide)
  unfold dheaderClassified
  rw [if_neg hrefused]
  simp [dheaderTaken, handleByFormat, handleStandard, handleUdt, hdpf, hstore, Slot.unified,
    Option.map_eq_bind, Option.bind_assoc]
  rfl

theorem call_unified (htype : b.databurst = .dataHeader) (h : b.announcesUnified opts s = true) :
    ∃ next : Slot, next.dataConfData = s.dataConfData ∧
      b.call opts s = some (.unified, next.unified b (b.crcFlags opts s)) ∧
      ∀ w, dataBurstHandler opts { b with whole := w } s =
        (assembler opts b.bytes 12 .unified w (next.unified b (b.crcFlags opts s))).map
          (Slot.announcedUnified b) := by
  have hleaves : b.databurst.leavesVerdict = false := by
    rw [htype]
    rfl
  have hreturns : Returns
      (leaveVerdict opts b { s with dataPHead := s.dataPHead && b.databurst.keepsDataPHead })
      fun s' => ∃ crcValid, s' = { s with
        dataPHead := s.dataPHead && b.databurst.keepsDataPHead, dataBlockCrcValid := crcValid } :=
    returns_leaveVerdict fun _ hleaving => absurd hleaving (Bool.eq_false_iff.mp hleaves)
  obtain ⟨_, hverdict, crcValid, rfl⟩ := hreturns
  have hsequence : ∀ s : Slot, b.outOfSequence opts s = false ∧
    updateDbsnSequence opts b s = s := by
    simp [Burst.outOfSequence, updateDbsnSequence, Burst.numbered, hleaves]
  refine ⟨{ s with
    dataPHead := s.dataPHead && b.databurst.keepsDataPHead, dataBlockCrcValid := crcValid },
    rfl, ?_, fun w => ?_⟩
  · rw [Burst.call, hverdict]
    simp [hsequence, htype, h]
  · rw [dataBurstHandler_eq, hverdict]
    simp only [Option.bind_eq_bind, Option.bind_some, hsequence, Bool.false_eq_true, if_false]
    rw [dispatchByType_dataHeader (b := { b with whole := w }) htype, dheaderClassified_unified h]

/-- The slot between two bursts of a message. -/
structure Midway (kind : Kind) (reserved : Bool) (announced : ℕ) (bursts : List Burst)
    (s : Slot) : Prop extends Gathering bursts s where
  kept : kind ≠ .control → s.dataHeaderFormat = 0 ∧ s.dataConfData = false ∧
    s.udtUabReserved = reserved ∧ s.dataHeaderBlocks = announced

/-- The type of the blocks after the header. -/
def Kind.blockType : Kind → DataType
  | .unified => .rate12
  | _ => .mbcContinuation

theorem Midway.handsOver (h : Midway kind reserved announced bursts s) (hkind : kind ≠ .packet)
    (opts : Opts) (htype : b.databurst = kind.blockType) :
    ∃ t, HandsOver opts b s kind t ∧ Midway kind reserved announced bursts t := by
  cases kind with
  | packet => exact absurd rfl hkind
  | control =>
    exact ⟨_, handsOver_continuation htype, ⟨h.counter, h.valid, h.octets⟩,
      fun hcontrol => absurd rfl hcontrol⟩
  | unified =>
    have hkept := h.kept (by decide)
    exact ⟨s, handsOver_rate12 htype hkept.1 hkept.2.1, h⟩

theorem Midway.ends_iff (h : Midway kind reserved announced bursts s) :
    Ends kind s.udtUabReserved s.dataHeaderBlocks bursts b ↔
      Ends kind reserved announced bursts b := by
  unfold Ends
  split
  · exact Iff.rfl
  · next hcontrol => rw [(h.kept hcontrol).2.2.1, (h.kept hcontrol).2.2.2]

/-- Of these blocks the last alone ends the aggregate. -/
def LastEnds (kind : Kind) (reserved : Bool) (announced : ℕ) (bursts blocks : List Burst) : Prop :=
  blocks ≠ [] ∧ ∀ k (hk : k < blocks.length),
    (Ends kind reserved announced (bursts ++ blocks.take k) blocks[k] ↔ k + 1 = blocks.length)

theorem lastEnds_cons : LastEnds kind reserved announced bursts (b :: blocks) ↔
    (Ends kind reserved announced bursts b ↔ blocks = []) ∧
      (blocks ≠ [] → LastEnds kind reserved announced (bursts ++ [b]) blocks) := by
  unfold LastEnds
  constructor
  · rintro ⟨-, h⟩
    refine ⟨?_, fun hne => ⟨hne, fun k hk => ?_⟩⟩
    · have hfirst := h 0 (Nat.succ_pos _)
      simpa [eq_comm] using hfirst
    · have hnext := h (k + 1) (Nat.succ_lt_succ hk)
      simpa [List.append_assoc] using hnext
  · rintro ⟨hfirst, hrest⟩
    refine ⟨List.cons_ne_nil _ _, fun k hk => ?_⟩
    cases k with
    | zero => simpa [eq_comm] using hfirst
    | succ k =>
      have hk' : k < blocks.length := Nat.lt_of_succ_lt_succ hk
      have hnext := (hrest (List.ne_nil_of_length_pos (Nat.zero_lt_of_lt hk'))).2 k hk'
      simpa [List.append_assoc] using hnext

theorem dispatches_cons {s' : Slot} (h : dataBurstHandler opts (b.checked opts s) s = some s') :
    dispatches opts s (b :: bursts) =
      (dispatches opts s' bursts).map fun rest => b.dispatched opts s :: rest := by
  rw [dispatches, h, Option.map_eq_bind]
  rfl

/-- A block that is not the last leaves the slot midway. -/
theorem Midway.gathered (h : Midway kind reserved announced bursts t) (hlen : bursts.length ≤ 4)
    (b : Burst) : Midway kind reserved announced (bursts ++ [b]) (t.gathered b kind bursts) :=
  ⟨h.toGathering.gathered hlen b kind, h.kept⟩

theorem Midway.dispatches (h : Midway kind reserved announced bursts s) (opts : Opts)
    (blocks : List Burst) (hkind : kind ≠ .packet)
    (hne : bursts ≠ []) (htypes : ∀ b ∈ blocks, b.databurst = kind.blockType)
    (hlen : bursts.length + blocks.length ≤ 5) :
    (LastEnds kind reserved announced bursts blocks →
      ∃ d : Dispatch, dispatches opts s blocks =
        some (List.replicate (blocks.length - 1) none ++ [some d]) ∧
          d.Carries kind (bursts ++ blocks)) ∧
      ∀ d : Dispatch, dispatches opts s blocks =
        some (List.replicate (blocks.length - 1) none ++ [some d]) →
          LastEnds kind reserved announced bursts blocks := by
  induction blocks generalizing bursts s with
  | nil =>
    exact ⟨fun hends => absurd rfl hends.1, fun d hd => by simp [DataBlocks.dispatches] at hd⟩
  | cons b blocks ih =>
    rw [List.length_cons] at hlen
    obtain ⟨t, hover, hmid⟩ := h.handsOver hkind opts (htypes b List.mem_cons_self)
    have hlen' : bursts.length ≤ 4 := by omega
    have hdispatched : b.dispatched opts s = (blockCtx b kind t).dispatched opts b.whole t := by
      rw [Burst.dispatched, hover.call, ← hover.ctx]
    have hhandler : dataBurstHandler opts (b.checked opts s) s = assembler opts b.bytes 12 kind
        (b.whole.checked (blockCtx b kind t) t.dmrPduSf) t := by
      rw [Burst.checked, hover.call, ← hover.ctx]
      exact hover.handler _
    rw [lastEnds_cons]
    by_cases hends : Ends kind reserved announced bursts b
    · obtain ⟨⟨s', hs', -⟩, d, hd, hcarries⟩ := hmid.ends hlen' hne hkind opts
        b.whole (hmid.ends_iff.mpr hends)
      rw [← hhandler] at hs'
      rw [← hdispatched] at hd
      cases blocks with
      | nil =>
        refine ⟨fun _ => ⟨d, ?_, hcarries⟩, fun _ _ => ⟨iff_of_true hends rfl, absurd rfl⟩⟩
        rw [dispatches_cons hs', hd]
        rfl
      | cons b' blocks =>
        refine ⟨fun hlast => absurd (hlast.1.mp hends) (List.cons_ne_nil _ _), fun d' hd' => ?_⟩
        rw [dispatches_cons hs', hd] at hd'
        obtain ⟨rest, -, hrest⟩ := Option.map_eq_some_iff.mp hd'
        cases hrest
    · obtain ⟨hs', hd⟩ := hmid.more hlen' hkind opts b.whole
        (fun hlast => hends (hmid.ends_iff.mp hlast))
      rw [← hhandler] at hs'
      rw [← hdispatched] at hd
      rw [dispatches_cons hs', hd]
      cases blocks with
      | nil =>
        refine ⟨fun hlast => absurd (hlast.1.mpr rfl) hends, fun d hd' => ?_⟩
        cases hd'
      | cons b' blocks =>
        have hrest := ih (hmid.gathered hlen' b) (List.append_ne_nil_of_right_ne_nil _ (by simp))
          (fun one hone => htypes one (List.mem_cons_of_mem _ hone))
          (by simp only [List.length_append, List.length_cons, List.length_nil] at hlen ⊢; omega)
        constructor
        · intro hlast
          obtain ⟨d, hd', hcarries⟩ := hrest.1 (hlast.2 (List.cons_ne_nil _ _))
          refine ⟨d, ?_, by simpa using hcarries⟩
          rw [hd']
          rfl
        · intro d hd'
          obtain ⟨rest, hd', hlist⟩ := Option.map_eq_some_iff.mp hd'
          refine ⟨iff_of_false hends (List.cons_ne_nil _ _), fun _ => hrest.2 d ?_⟩
          rw [hd', (List.cons.inj hlist).2]
          rfl

/-- After its header a message is midway, and nothing has been dispatched. -/
structure Starts (opts : Opts) (s : Slot) (header : Burst) (kind : Kind) (reserved : Bool)
    (announced : ℕ) (s' : Slot) : Prop where
  handler : dataBurstHandler opts (header.checked opts s) s = some s'
  dispatched : header.dispatched opts s = none
  midway : Midway kind reserved announced [header] s'

theorem ControlMessage.starts (h : ControlMessage header blocks) (opts : Opts) (s : Slot) :
    ∃ s', Starts opts s header .control false 0 s' := by
  obtain ⟨t, hover, hgathering⟩ := handsOver_header opts s h.header_type
    h.header_checks h.header_decoded
  have hmore : ¬ Ends .control t.udtUabReserved t.dataHeaderBlocks [] header :=
    Bool.eq_false_iff.mp h.header_more
  obtain ⟨hs', hd⟩ := hgathering.more (Nat.zero_le _) (by decide) opts header.whole
    hmore
  refine ⟨t.gathered header .control [], ?_, ?_, ?_⟩
  · rw [Burst.checked, hover.call, ← hs', ← hover.ctx]
    exact hover.handler _
  · rw [Burst.dispatched, hover.call, ← hd, ← hover.ctx]
  · exact ⟨hgathering.gathered (Nat.zero_le _) header .control, fun hcontrol => absurd rfl hcontrol⟩

theorem parseFields_udtUab (bytes : ℕ → BitVec 8) :
    1 ≤ (parseFields bytes).udtUab ∧ (parseFields bytes).udtUab ≤ 4 := by
  have hfield := bitsField_lt bytes 70 2
  simp only [parseFields]
  omega

theorem UnifiedMessage.dpf (h : UnifiedMessage opts s header blocks) :
    (parseFields header.bytes).dpf = 0 := by
  have htaken := h.taken
  simp only [Burst.announcesUnified, Bool.and_eq_true, beq_iff_eq] at htaken
  exact htaken.1.1

theorem UnifiedMessage.starts (h : UnifiedMessage opts s header blocks) :
    ∃ s', Starts opts s header .unified header.reservedNumber
      (parseFields header.bytes).udtUab s' := by
  obtain ⟨next, hconf, hcall, hhandler⟩ := call_unified h.header_type h.taken
  have huab := parseFields_udtUab header.bytes
  generalize ht : next.unified header (header.crcFlags opts s) = t at hcall hhandler
  have hgathering : Gathering [] t := by
    subst ht
    exact ⟨rfl, rfl, nofun⟩
  have hformat : t.dataHeaderFormat = 0 := by
    subst ht
    exact h.dpf
  have hreserved : t.udtUabReserved = header.reservedNumber := by
    subst ht
    simp [Slot.unified, Burst.reservedNumber, h.dpf, Bool.decide_and, beq_eq_decide]
  have hblocks : t.dataHeaderBlocks = (parseFields header.bytes).udtUab := by
    subst ht
    rfl
  have hctx : header.assembler s .unified t = blockCtx header .unified t := by
    have hstart : header.pduStart s = 0 := by simp [Burst.pduStart, h.header_type]
    have hlen : header.pduLen s = 12 := by simp [Burst.pduLen, h.header_type, hstart]
    have hpdu : header.pdu s = header.bytes := by
      funext i
      rw [Burst.pdu, hstart]
      rfl
    rw [Burst.assembler, hpdu, hlen]
    rfl
  have hmore : ¬ Ends .unified t.udtUabReserved t.dataHeaderBlocks [] header := by
    unfold Ends
    rw [if_neg (by decide)]
    split
    · exact fun hends => hends.1 rfl
    · rw [List.length_nil]
      omega
  obtain ⟨hs', hd⟩ := hgathering.more (Nat.zero_le _) (by decide) opts header.whole
    hmore
  refine ⟨(t.gathered header .unified []).announcedUnified header, ?_, ?_, ?_⟩
  · rw [Burst.checked, hcall]
    refine (hhandler _).trans ?_
    rw [hctx, hs']
    rfl
  · rw [Burst.dispatched, hcall, ← hd, ← hctx]
  · have hheld := hgathering.gathered (Nat.zero_le _) header .unified
    refine ⟨⟨hheld.counter, ?_, hheld.octets⟩, fun _ => ⟨?_, ?_, hreserved, ?_⟩⟩
    · exact Bool.or_eq_true_iff.mpr (.inl hgathering.valid)
    · exact hformat
    · subst ht
      exact hconf.trans h.unconfirmed
    · show max 1 (min t.dataHeaderBlocks 127) = (parseFields header.bytes).udtUab
      omega

theorem Dispatch.Carries.exact_iff {d : Dispatch} (h : d.Carries kind bursts) :
    d.Exact bursts ↔ (d.crcGood = true ↔ MessageChecks bursts) := by
  refine ⟨fun hexact => hexact.crc, fun hcrc => ⟨?_, h.octets, hcrc⟩⟩
  have hlen : 96 * (1 + d.blocks) = 96 * bursts.length := by
    have hblocks := h.blocks
    omega
  rw [hlen, messageBits]
  exact List.map_congr_left fun k hk => h.bits k (List.mem_range.mp hk)

theorem Starts.dispatchedExactly_iff {s' : Slot}
    (h : Starts opts s header kind reserved announced s')
    (hkind : kind ≠ .packet) (hne : blocks ≠ []) (hlen : blocks.length ≤ 4)
    (htypes : ∀ b ∈ blocks, b.databurst = kind.blockType) :
    DispatchedExactly opts s header blocks ↔
      LastEnds kind reserved announced [header] blocks ∧
        (messageCheck (header :: blocks) = (crcCcitt16Bits
            (if kind = .control then clearedPastThird (coveredBits (header :: blocks))
              else coveredBits (header :: blocks))).toNat ↔ MessageChecks (header :: blocks)) := by
  obtain ⟨hends, halone⟩ := h.midway.dispatches opts blocks hkind
    (List.cons_ne_nil _ _) htypes (by simp only [List.length_singleton]; omega)
  have hreplicate : List.replicate blocks.length (none : Option Dispatch) =
      none :: List.replicate (blocks.length - 1) none := by
    rw [← List.replicate_succ, Nat.sub_add_cancel (List.length_pos_iff.mpr hne)]
  unfold DispatchedExactly
  rw [dispatches_cons h.handler, h.dispatched, hreplicate]
  constructor
  · rintro ⟨d, hd, hexact⟩
    obtain ⟨rest, hrest, hlist⟩ := Option.map_eq_some_iff.mp hd
    rw [(List.cons.inj hlist).2] at hrest
    have hlast := halone d hrest
    obtain ⟨d', hd', hcarries⟩ := hends hlast
    have hsame : d' = d := by
      rw [hd'] at hrest
      simpa using hrest
    subst hsame
    exact ⟨hlast, hcarries.crc.symm.trans hexact.crc⟩
  · rintro ⟨hlast, hcheck⟩
    obtain ⟨d, hd, hcarries⟩ := hends hlast
    refine ⟨d, ?_, hcarries.exact_iff.mpr (hcarries.crc.trans hcheck)⟩
    rw [hd]
    rfl

theorem ControlMessage.dispatchedExactly_iff (h : ControlMessage header blocks) :
    DispatchedExactly opts s header blocks ↔ PastThirdIdle (header :: blocks) := by
  obtain ⟨s', hstarts⟩ := h.starts opts s
  rw [hstarts.dispatchedExactly_iff (by decide) h.nonempty h.length_le h.block_type, if_pos rfl,
    pastThirdIdle_iff List.length_cons]
  exact and_iff_right ⟨h.nonempty, h.last⟩

theorem UnifiedMessage.dispatchedExactly_iff (h : UnifiedMessage opts s header blocks) :
    DispatchedExactly opts s header blocks ↔
      (header.reservedNumber = true → EndFound header blocks) := by
  obtain ⟨s', hstarts⟩ := h.starts
  have huab := parseFields_udtUab header.bytes
  have hannounced := h.announced
  have hne : blocks ≠ [] := List.ne_nil_of_length_pos (by omega)
  rw [hstarts.dispatchedExactly_iff (by decide) hne (by omega) h.block_type, if_neg (by decide)]
  refine (and_iff_left Iff.rfl).trans ?_
  cases hreserved : header.reservedNumber with
  | false =>
    refine iff_of_true ⟨hne, fun k hk => ?_⟩ nofun
    have hbefore : ([header] ++ blocks.take k).length = k + 1 := by
      rw [List.length_append, List.length_take_of_le hk.le, List.length_singleton, Nat.add_comm]
    rw [Ends, if_neg (by decide), if_neg Bool.false_ne_true, hbefore]
    omega
  | true =>
    refine (and_iff_right hne).trans (Iff.trans ?_ (forall_prop_of_true rfl).symm)
    refine forall₂_congr fun k hk => ?_
    have hnext : header :: blocks.take (k + 1) = [header] ++ blocks.take k ++ [blocks[k]] := by
      rw [List.take_succ_eq_append_getElem hk]
      rfl
    rw [Ends, if_neg (by decide), if_pos rfl, and_iff_right (by simp), hnext]

/-- **A message is dispatched once, at its last block and exactly**, precisely when the bits past
the third block of a control message are idle, and the end of unified data that announces a reserved
number is found. -/
theorem aggregate_dispatchedExactly
    (hmessage : ControlMessage header blocks ∨ UnifiedMessage opts s header blocks) :
    DispatchedExactly opts s header blocks ↔
      (header.databurst = .mbcHeader → PastThirdIdle (header :: blocks)) ∧
        (header.databurst = .dataHeader → header.reservedNumber = true →
          EndFound header blocks) := by
  rcases hmessage with hcontrol | hunified
  · rw [hcontrol.dispatchedExactly_iff, hcontrol.header_type]
    simp
  · rw [hunified.dispatchedExactly_iff, hunified.header_type]
    simp

/-- A burst of a control message, of its first and its last two octets. -/
def controlBurst (databurst : DataType) (first : BitVec 8) (check : BitVec 16) : Burst where
  databurst := databurst
  bytes i := if i = 0 then first else if i = 10 then (check >>> 8).setWidth 8
    else if i = 11 then check.setWidth 8 else 0
  crcMatches := true
  irrecoverableErrors := false
  bptcReservedBits := 0
  whole := ⟨false, none, []⟩

/-- The header of a control message and its continuation of so many blocks. -/
def controlBlocks (n : ℕ) (check : BitVec 16) : List Burst :=
  List.replicate n (controlBurst .mbcContinuation 0 0) ++ [controlBurst .mbcContinuation 0x80 check]

theorem controlMessage_blocks {n : ℕ} {check : BitVec 16} (hn : n ≤ 3) :
    ControlMessage (controlBurst .mbcHeader 0 0) (controlBlocks n check) where
  header_type := rfl
  header_checks := rfl
  header_decoded := rfl
  header_more := by decide
  block_type b hb := by
    rcases List.mem_append.mp hb with hmore | hlast
    · rw [List.eq_of_mem_replicate hmore]
      rfl
    · rw [List.mem_singleton.mp hlast]
      rfl
  nonempty := by simp [controlBlocks]
  length_le := by simp [controlBlocks]; omega
  last k hk := by
    have hlen : (controlBlocks n check).length = n + 1 := by simp [controlBlocks]
    rw [hlen] at hk ⊢
    rcases Nat.lt_or_ge k n with hlow | hhigh
    · simp [controlBlocks, hlow, controlBurst]
      omega
    · have hkn : k = n := by omega
      subst hkn
      simp [controlBlocks, controlBurst]

/-- A header and three blocks whose check is right, on a slot as it starts out. -/
theorem dispatchedExactly_four :
    MessageChecks (controlBurst .mbcHeader 0 0 :: controlBlocks 2 0x1BCB) ∧
      DispatchedExactly ⟨0, false, false⟩ idle (controlBurst .mbcHeader 0 0)
        (controlBlocks 2 0x1BCB) := by
  refine ⟨?_, (aggregate_dispatchedExactly (.inl (controlMessage_blocks (by decide)))).mpr
    ⟨fun _ => .inl (by decide), nofun⟩⟩
  unfold MessageChecks
  decide +kernel

/-- Four blocks whose check is right are not reported so. -/
theorem not_dispatchedExactly_five :
    ControlMessage (controlBurst .mbcHeader 0 0) (controlBlocks 3 0x1BCB) ∧
      MessageChecks (controlBurst .mbcHeader 0 0 :: controlBlocks 3 0x1BCB) ∧
      ∀ opts s, ¬ DispatchedExactly opts s (controlBurst .mbcHeader 0 0)
        (controlBlocks 3 0x1BCB) := by
  have hmessage : ControlMessage (controlBurst .mbcHeader 0 0) (controlBlocks 3 0x1BCB) :=
    controlMessage_blocks le_rfl
  have hchecks : MessageChecks (controlBurst .mbcHeader 0 0 :: controlBlocks 3 0x1BCB) := by
    unfold MessageChecks
    decide +kernel
  refine ⟨hmessage, hchecks, fun opts s hexact => ?_⟩
  rcases hmessage.dispatchedExactly_iff.mp hexact with hshort | hsame | hneither
  · exact absurd hshort (by decide)
  · exact absurd hsame (by decide +kernel)
  · exact hneither.2 hchecks

end DsdNeo.Dmr.DataBlocks
