import DsdNeo.Models.Dmr.BlocksInRange

/-!
# Runs of data bursts

A run in which no block is handed to the packet assembler past the announced count, and no
confirmed block is the last of a packet announced with 127, makes every access inside its table and
row and keeps the counter below 128.
-/

namespace DsdNeo.Dmr.DataBlocks

open Program Burst List

variable {opts : Opts} {s s' : Slot} {b : Burst}

/-- The burst is a block of a packet. -/
def Burst.isPacketBlock (b : Burst) (s : Slot) : Bool :=
  b.databurst = .rate34 || b.databurst = .rate1 || b.databurst = .rate12 && !b.isUdt s

/-- The burst comes where the code expects it: a block handed on while the announced count is not
passed, and no verdict of the 127th confirmed block. -/
structure InOrder (opts : Opts) (s : Slot) (b : Burst) : Prop where
  announced : b.isPacketBlock s = true → b.outOfSequence opts s = false →
    s.dataBlockCounter ≤ s.dataHeaderBlocks
  tabled : s.dataConfData = true → b.databurst.leavesVerdict = true → s.dataBlockCounter ≠ 127

/-- Every burst of a run comes in order. -/
def RunInOrder (opts : Opts) (s : Slot) : List Event → Prop
  | [] => True
  | e :: events =>
    (∀ b, e = .burst b → InOrder opts s b) ∧
      ∀ s', step opts s e = some s' → RunInOrder opts s' events

theorem returns_leaveVerdict (h : s.dataConfData = true → b.databurst.leavesVerdict = true →
      s.dataBlockCounter < crcBlocks) :
    Returns (leaveVerdict opts b s) fun s' =>
      ∃ crcValid, s' = { s with dataBlockCrcValid := crcValid } := by
  refine returns_ite (fun hleaves => ?_) fun _ => returns_ite (fun _ => ?_) fun _ => ?_
  · have hcounter := h hleaves.2 hleaves.1
    refine (returns_store ((Nat.mod_le _ _).trans_lt hcounter)).bind fun crcValid _ => ?_
    exact returns_some ⟨crcValid, rfl⟩
  · exact (returns_store (by decide)).bind fun crcValid _ => returns_some ⟨crcValid, rfl⟩
  · exact returns_some ⟨s.dataBlockCrcValid, rfl⟩

/-- Following the sequence touches nothing else. -/
theorem updateDbsnSequence_eq (opts : Opts) (b : Burst) (s : Slot) :
    ∃ expected have', updateDbsnSequence opts b s =
    { s with dataDbsnExpected := expected, dataDbsnHave := have' } := by
  unfold updateDbsnSequence
  split
  · exact ⟨_, _, rfl⟩
  · split
    · split
      · exact ⟨_, _, rfl⟩
      · exact ⟨_, _, rfl⟩
    · split
      · exact ⟨_, _, rfl⟩
      · exact ⟨_, _, rfl⟩

theorem updateDbsnSequence_counts (opts : Opts) (b : Burst) (s : Slot) :
    (updateDbsnSequence opts b s).dataBlockCounter = s.dataBlockCounter ∧
      (updateDbsnSequence opts b s).dataHeaderBlocks = s.dataHeaderBlocks := by
  obtain ⟨expected, have', h⟩ := updateDbsnSequence_eq opts b s
  rw [h]
  exact ⟨rfl, rfl⟩

theorem returns_packetBlock (hrange : InRange s)
    (hannounced : s.dataBlockCounter ≤ s.dataHeaderBlocks) (bytes : ℕ → BitVec 8) (len : ℕ)
    (w : Whole) : Returns (assembler opts bytes len .packet w s) InRange := by
  refine (returns_assembler_packet bytes len).mono fun t ht => ?_
  obtain ⟨hblocks, hends, hcounts⟩ := ht
  refine ⟨hblocks ▸ hrange.blocks_pos, hblocks ▸ hrange.blocks_le, ?_⟩
  by_cases hlast : s.dataBlockCounter = s.dataHeaderBlocks
  · rw [hends hlast]
    exact .inr (by omega)
  · obtain ⟨row, ctr, rfl⟩ := hcounts hlast
    dsimp only
    omega

/-- The slot is in range after what its burst is handed to. -/
theorem returns_dispatchByType (hrange : InRange s) {isUdt : Bool}
    (hannounced : b.databurst = .rate34 ∨ b.databurst = .rate1 ∨ b.databurst = .rate12 ∧
    isUdt = false →
      s.dataBlockCounter ≤ s.dataHeaderBlocks)
    (crcCorrect : Bool) (crcFlags : ℕ) (pdu : ℕ → BitVec 8) (pduLen : ℕ) :
    Returns (dispatchByType opts b crcCorrect crcFlags isUdt pdu pduLen s) InRange := by
  unfold dispatchByType
  cases htype : b.databurst with
  | pi => exact returns_some hrange
  | idle => exact returns_some hrange
  | usbd => exact returns_some hrange
  | reserved => exact returns_some hrange
  | vlc => exact returns_some (hrange.effects _)
  | tlc => exact returns_some (hrange.effects _)
  | csbk => exact returns_some (hrange.effects _)
  | embedded => exact returns_some (hrange.effects _)
  | mbcHeader =>
    exact returns_assembler_aggregate (by simp) pdu pduLen hrange.blocks_pos hrange.blocks_le
      (Nat.zero_le _)
  | mbcContinuation =>
    exact returns_assembler_aggregate (by simp) pdu pduLen hrange.blocks_pos hrange.blocks_le
      hrange.counter_le
  | dataHeader => exact returns_dheaderClassified crcFlags
  | rate12 =>
    cases isUdt with
    | true =>
      exact returns_assembler_aggregate (by simp) pdu pduLen hrange.blocks_pos hrange.blocks_le
        hrange.counter_le
    | false =>
      exact returns_packetBlock hrange (hannounced (by simp [htype])) pdu pduLen b.whole
  | rate34 => exact returns_packetBlock hrange (hannounced (by simp [htype])) pdu pduLen b.whole
  | rate1 => exact returns_packetBlock hrange (hannounced (by simp [htype])) pdu pduLen b.whole

theorem returns_dataBurstHandler (hrange : InRange s) (hburst : InOrder opts s b) :
    Returns (dataBurstHandler opts b s) InRange := by
  have htabled : s.dataConfData = true → b.databurst.leavesVerdict = true →
      s.dataBlockCounter < crcBlocks := fun hconf hleaves =>
    lt_of_le_of_ne hrange.counter_le (hburst.tabled hconf hleaves)
  have hverdict := @returns_leaveVerdict opts
    { s with dataPHead := s.dataPHead && b.databurst.keepsDataPHead } b htabled
  refine hverdict.bind ?_
  rintro _ ⟨crcValid, rfl⟩
  refine returns_ite (fun _ => returns_some inRange_idle) fun hseq => ?_
  obtain ⟨hcounter, hblocks⟩ := updateDbsnSequence_counts opts b
    { s with
      dataPHead := s.dataPHead && b.databurst.keepsDataPHead, dataBlockCrcValid := crcValid }
  refine returns_dispatchByType (hrange.congr hcounter hblocks) (fun htype => ?_) _ _ _ _
  rw [hcounter, hblocks]
  have hinOrder : b.outOfSequence opts s = false := Bool.eq_false_iff.mpr hseq
  refine hburst.announced ?_ hinOrder
  obtain h | h | ⟨h, hudt⟩ := htype
  · simp [isPacketBlock, h]
  · simp [isPacketBlock, h]
  · have hpacket : b.isUdt s = false := hudt
    simp [isPacketBlock, h, hpacket]

theorem returns_step {e : Event} (hrange : InRange s) (he : ∀ b, e = .burst b → InOrder opts s b) :
    Returns (step opts s e) InRange := by
  cases e with
  | burst b => exact returns_dataBurstHandler hrange (he b rfl)
  | reset => exact returns_some inRange_idle
  | carrierLost => exact returns_some (inRange_idle.congr rfl rfl)

theorem run_cons (opts : Opts) (s : Slot) (e : Event) (events : List Event) :
    run opts s (e :: events) = step opts s e >>= fun s' => run opts s' events :=
  foldlM_cons

theorem returns_run {events : List Event} (hrange : InRange s) (h : RunInOrder opts s events) :
    Returns (run opts s events) InRange := by
  induction events generalizing s with
  | nil => exact returns_some hrange
  | cons e events ih =>
    obtain ⟨hfirst, hrest⟩ := h
    obtain ⟨t, hstep, ht⟩ := returns_step hrange hfirst
    rw [run_cons]
    exact returns_bind_some hstep (ih ht (hrest t hstep))

section Overrun

/-- A checked confirmed block says which one comes next. -/
theorem updateDbsnSequence_followed (hnumbered : b.numbered s = true)
    (hcrc : b.crcCorrect opts s = true) :
    (updateDbsnSequence opts b s).dataDbsnHave = true ∧
      (updateDbsnSequence opts b s).dataDbsnExpected = (b.dbsn + 1) % 128 := by
  rw [updateDbsnSequence, if_neg (by simp [hnumbered])]
  split
  · rw [if_pos (.inl hcrc)]
    exact ⟨rfl, rfl⟩
  · rename_i hhave
    exact ⟨by simpa using hhave, rfl⟩

theorem returns_openBlock (htype : b.databurst = .rate34)
    (hopen : s.dataBlockCounter ≠ s.dataHeaderBlocks)
    (htabled : s.dataConfData = true → s.dataBlockCounter < crcBlocks)
    (hseq : b.outOfSequence opts s = false) :
    Returns (step opts s (.burst b)) fun s' =>
      s'.dataBlockCounter = s.dataBlockCounter + 1 ∧ s'.dataHeaderBlocks = s.dataHeaderBlocks ∧
        s'.dataConfData = s.dataConfData ∧
        (b.numbered s = true → b.crcCorrect opts s = true →
          s'.dataDbsnHave = true ∧ s'.dataDbsnExpected = (b.dbsn + 1) % 128) := by
  have hverdict := @returns_leaveVerdict opts
    { s with dataPHead := s.dataPHead && b.databurst.keepsDataPHead } b fun hconf _ => htabled hconf
  refine hverdict.bind ?_
  rintro _ ⟨crcValid, rfl⟩
  refine returns_ite (fun hout => absurd hout (Bool.eq_false_iff.mp hseq)) fun _ => ?_
  generalize hnext : updateDbsnSequence opts b
    { s with
      dataPHead := s.dataPHead && b.databurst.keepsDataPHead
      dataBlockCrcValid := crcValid } = next
  have hdbsn : b.numbered s = true → b.crcCorrect opts s = true →
      next.dataDbsnHave = true ∧ next.dataDbsnExpected = (b.dbsn + 1) % 128 := by
    intro hnumbered hcrc
    rw [← hnext]
    exact updateDbsnSequence_followed hnumbered hcrc
  obtain ⟨expected, have', heq⟩ := updateDbsnSequence_eq opts b
    { s with
      dataPHead := s.dataPHead && b.databurst.keepsDataPHead, dataBlockCrcValid := crcValid }
  rw [heq] at hnext
  subst hnext
  unfold dispatchByType
  simp only [htype]
  refine (returns_assembler_packet _ _).mono fun t ht => ?_
  obtain ⟨row, ctr, rfl⟩ := ht.2.2 hopen
  exact ⟨rfl, rfl, rfl, hdbsn⟩

theorem run_append (opts : Opts) (s : Slot) (events events' : List Event) :
    run opts s (events ++ events') = run opts s events >>= fun s' => run opts s' events' :=
  foldlM_append

/-- Past the announced count the blocks that follow are all counted. -/
theorem overrun_unbounded (htype : b.databurst = .rate34) (hconf : s.dataConfData = false)
    (hpassed : s.dataHeaderBlocks < s.dataBlockCounter) (n : ℕ) :
    Returns (run opts s (List.replicate n (.burst b))) fun s' =>
      s'.dataBlockCounter = s.dataBlockCounter + n := by
  induction n generalizing s with
  | zero => exact returns_some rfl
  | succ n ih =>
    rw [replicate_succ, run_cons]
    have hseq : b.outOfSequence opts s = false := by
      simp [outOfSequence, numbered, hconf]
    refine (returns_openBlock htype hpassed.ne' (by simp [hconf]) hseq).bind fun t ht => ?_
    obtain ⟨hcounter, hblocks, hconf', -⟩ := ht
    refine (ih (hconf'.trans hconf) (by omega)).mono fun u hu => ?_
    omega

/-- The options as they come. -/
def strict : Opts where
  aggressiveFramesync := 1
  dmrCrcRelaxedDefault := false
  payload := false

/-- A burst whose checks all pass. -/
def checked (databurst : DataType) (bytes : ℕ → BitVec 8) : Burst where
  databurst := databurst
  bytes := bytes
  crcMatches := true
  irrecoverableErrors := false
  bptcReservedBits := 0
  whole := { crcMatches := true, cipher := none, effects := [] }

/-- The header of a confirmed packet of so many blocks. -/
def confirmedHeader (blocks : ℕ) : Burst := checked .dataHeader fun
  | 0 => 0x03
  | 1 => 0x40
  | 8 => BitVec.ofNat 8 blocks
  | _ => 0

/-- The block of a confirmed packet with this serial number. -/
def confirmedBlock (dbsn : ℕ) : Burst := checked .rate34 fun
  | 0 => BitVec.ofNat 8 (2 * dbsn)
  | _ => 0

/-- The network header of a packet, without the header before it. -/
def mnisHeader : Burst := checked .dataHeader fun
  | 0 => 0x1F
  | 1 => 0x10
  | _ => 0

variable {k : ℕ}

theorem dbsn_confirmedBlock (hk : k < 128) : (confirmedBlock k).dbsn = k := by
  have hbyte : 2 * k % 256 = 2 * k := Nat.mod_eq_of_lt (by omega)
  simp only [dbsn, confirmedBlock, checked, BitVec.toNat_ushiftRight, BitVec.toNat_ofNat]
  rw [hbyte, Nat.shiftRight_eq_div_pow]
  omega

/-- Part of a packet of 127 confirmed blocks has come, in sequence. -/
structure Receiving (s : Slot) (k : ℕ) : Prop where
  counter : s.dataBlockCounter = k + 1
  blocks : s.dataHeaderBlocks = 127
  conf : s.dataConfData = true
  expected : s.dataDbsnHave = true → s.dataDbsnExpected = k

theorem receiving_header : ∃ s, step strict idle (.burst (confirmedHeader 127)) = some s ∧
    Receiving s 0 :=
  ⟨_, rfl, rfl, rfl, rfl, fun _ => rfl⟩

/-- Each block of the packet but the last is counted. -/
theorem Receiving.block (h : Receiving s k) (hk : k < 126) :
    Returns (step strict s (.burst (confirmedBlock k))) fun s' => Receiving s' (k + 1) := by
  have hdbsn : (confirmedBlock k).dbsn = k := dbsn_confirmedBlock (by omega)
  have hseq : (confirmedBlock k).outOfSequence strict s = false := by
    cases hhave : s.dataDbsnHave with
    | false => simp [outOfSequence, hhave]
    | true => simp [outOfSequence, hdbsn, h.expected hhave]
  have hopen : s.dataBlockCounter ≠ s.dataHeaderBlocks := by
    rw [h.counter, h.blocks]
    omega
  have htabled : s.dataConfData = true → s.dataBlockCounter < crcBlocks := fun _ => by
    rw [h.counter]
    unfold crcBlocks
    omega
  refine (returns_openBlock rfl hopen htabled hseq).mono fun t ht => ?_
  obtain ⟨hcounter, hblocks, hconf, hfollowed⟩ := ht
  have hnumbered : (confirmedBlock k).numbered s = true := by
    simp [numbered, h.conf, confirmedBlock, checked, DataType.leavesVerdict]
  have hcrc : (confirmedBlock k).crcCorrect strict s = true := by
    simp [crcCorrect, crcOriginal, h.conf, confirmedBlock, checked]
  constructor
  · rw [hcounter, h.counter]
  · rw [hblocks, h.blocks]
  · rw [hconf, h.conf]
  · intro _
    rw [(hfollowed hnumbered hcrc).2, hdbsn]
    omega

theorem receiving_blocks (k : ℕ) (hk : k ≤ 126) :
    Returns (run strict idle (.burst (confirmedHeader 127) ::
      (List.range k).map fun i => .burst (confirmedBlock i))) fun s => Receiving s k := by
  induction k with
  | zero =>
    obtain ⟨s, hs, hreceiving⟩ := receiving_header
    rw [range_zero, map_nil, run_cons]
    exact returns_bind_some hs (returns_some hreceiving)
  | succ k ih =>
    rw [range_succ, map_append, ← cons_append, run_append]
    refine (ih (by omega)).bind fun s hs => ?_
    rw [map_singleton, run_cons]
    exact (hs.block (by omega)).bind fun t ht => returns_some ht

theorem Receiving.inOrder (h : Receiving s k) (hk : k < 126) :
    InOrder strict s (confirmedBlock k) := by
  constructor
  · intro _ _
    rw [h.counter, h.blocks]
    omega
  · intro _ _
    rw [h.counter]
    omega

theorem Receiving.runInOrder (h : Receiving s k) (n : ℕ) (hn : k + n ≤ 126) :
    RunInOrder strict s ((List.range' k n).map fun i => .burst (confirmedBlock i)) := by
  induction n generalizing s k with
  | zero => trivial
  | succ n ih =>
    rw [range'_succ, map_cons]
    constructor
    · rintro b ⟨rfl⟩
      exact h.inOrder (by omega)
    · intro t hstep
      obtain ⟨u, hu, hreceiving⟩ := h.block (by omega)
      obtain rfl : t = u := Option.some.inj (hstep.symm.trans hu)
      exact ih hreceiving (by omega)

/-- Every run in order stays inside the table of block checks and the row of its slot, with the
counter bounded. -/
theorem run_in_range (opts : Opts) (events : List Event) (h : RunInOrder opts idle events) :
    ∃ s, run opts idle events = some s ∧ s.dataBlockCounter ≤ 127 := by
  obtain ⟨s, hrun, hs⟩ := returns_run inRange_idle h
  exact ⟨s, hrun, hs.counter_le⟩

/-- The first 126 blocks of a confirmed packet, in sequence. -/
theorem confirmedBlocks_in_range :
    ∃ s, run strict idle (.burst (confirmedHeader 127) ::
      (List.range' 0 126).map fun i => .burst (confirmedBlock i)) = some s ∧
        s.dataBlockCounter ≤ 127 := by
  refine run_in_range strict _ ⟨?_, fun t hstep => ?_⟩
  · rintro b ⟨rfl⟩
    exact ⟨fun _ _ => le_rfl, fun hconf => by simp [idle] at hconf⟩
  · obtain ⟨u, hu, hreceiving⟩ := receiving_header
    obtain rfl : t = u := Option.some.inj (hstep.symm.trans hu)
    exact hreceiving.runInOrder 126 le_rfl

theorem Receiving.last_none (h : Receiving s 126) :
    step strict s (.burst (confirmedBlock 126)) = none := by
  have hverdict : leaveVerdict strict (confirmedBlock 126)
      { s with dataPHead := s.dataPHead && (confirmedBlock 126).databurst.keepsDataPHead } =
        none := by
    unfold leaveVerdict
    rw [if_pos ⟨rfl, h.conf⟩]
    simp only [h.counter, store_none (show crcBlocks ≤ (126 + 1) % 256 by decide)]
    rfl
  show leaveVerdict _ _ _ >>= _ = none
  rw [hverdict]
  rfl

/-- A confirmed packet of 127 blocks, in sequence and with every check passed, writes outside the
table; blocks after a network header that came alone are counted without bound. -/
theorem announced127_out_of_range :
    run strict idle (.burst (confirmedHeader 127) ::
        (List.range 127).map fun i => .burst (confirmedBlock i)) = none ∧
      ∀ bound, ∃ events s, run strict idle events = some s ∧ bound < s.dataBlockCounter := by
  constructor
  · obtain ⟨s, hs, hreceiving⟩ := receiving_blocks 126 le_rfl
    rw [range_succ, map_append, ← cons_append, run_append, hs, map_singleton,
      Option.bind_eq_bind, Option.bind_some, run_cons, hreceiving.last_none]
    rfl
  · intro bound
    have hmnis : ∃ s, step strict idle (.burst mnisHeader) = some s ∧ s.dataBlockCounter = 2 ∧
        s.dataHeaderBlocks = 1 ∧ s.dataConfData = false := ⟨_, rfl, rfl, rfl, rfl⟩
    obtain ⟨s, hs, hcounter, hblocks, hconf⟩ := hmnis
    have hpassed : s.dataHeaderBlocks < s.dataBlockCounter := by omega
    obtain ⟨t, ht, hcount⟩ := @overrun_unbounded strict s (confirmedBlock 0) rfl hconf hpassed bound
    refine ⟨.burst mnisHeader :: List.replicate bound (.burst (confirmedBlock 0)), t, ?_, by omega⟩
    rw [run_cons, hs, Option.bind_eq_bind, Option.bind_some, ht]

end Overrun

end DsdNeo.Dmr.DataBlocks
