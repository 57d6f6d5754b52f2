import DsdNeo.Models.Dmr.DataBursts

/-!
# Block bookkeeping in range

Each part of the burst handler returns, and says what it leaves of the counter and of the
announced count. The counter passes the announced count only up to the few blocks an aggregate
may have, as long as no block is handed to the packet assembler past it: that assembler waits
for the two to be equal, and from there on the counter only grows.
-/

namespace DsdNeo.Dmr.DataBlocks

open Program

variable {opts : Opts} {s s' : Slot} {b : Burst} {a : Assembler} {w : Whole}

/-- The counter and the announced count stand where they should. -/
structure InRange (s : Slot) : Prop where
  blocks_pos : 1 ≤ s.dataHeaderBlocks
  blocks_le : s.dataHeaderBlocks ≤ 127
  counter : s.dataBlockCounter ≤ s.dataHeaderBlocks ∨ s.dataBlockCounter ≤ 5

theorem InRange.counter_le (h : InRange s) : s.dataBlockCounter ≤ 127 := by
  have hcounter := h.counter
  have hblocks := h.blocks_le
  omega

theorem inRange_idle : InRange idle := ⟨le_rfl, by decide, .inl le_rfl⟩

/-- Only the two counts matter. -/
theorem InRange.congr (h : InRange s) (hcounter : s'.dataBlockCounter = s.dataBlockCounter)
    (hblocks : s'.dataHeaderBlocks = s.dataHeaderBlocks) : InRange s' := by
  constructor
  · exact hblocks ▸ h.blocks_pos
  · exact hblocks ▸ h.blocks_le
  · rw [hcounter, hblocks]
    exact h.counter

theorem InRange.effect (h : InRange s) (e : Effect) : InRange (s.effect e) := by
  cases e with
  | reset => exact inRange_idle
  | terminate => exact h.congr rfl rfl
  | clearRow => exact h.congr rfl rfl

theorem InRange.effects (h : InRange s) (effects : List Effect) :
    InRange (effects.foldl Slot.effect s) := by
  induction effects generalizing s with
  | nil => exact h
  | cons e effects ih => exact ih (h.effect e)

section Accesses

variable {row : Vector (BitVec 8) rowBytes} {lo hi start len : ℕ}

/-- Writing one entry after the other inside the row. -/
theorem returns_writes (hhi : hi ≤ rowBytes) (f : ℕ → BitVec 8) :
    Returns (forRange lo hi row fun i row => store row i (f i)) fun _ => True := by
  refine returns_loop (fun _ _ => True) trivial fun j row _ hj _ => ?_
  exact (returns_store (by omega)).mono fun _ _ => trivial

theorem returns_readSpan (h : start + len ≤ rowBytes) :
    Returns (readSpan row start len) fun _ => True := by
  have hread : ∀ indices : List ℕ, (∀ i ∈ indices, i < rowBytes) →
      Returns (indices.mapM fun i => row[i]?) fun _ => True := by
    intro indices
    induction indices with
    | nil => exact fun _ => ⟨[], rfl, trivial⟩
    | cons i indices ih =>
      intro hlt
      obtain ⟨octets, hoctets, -⟩ := ih fun j hj => hlt j (List.mem_cons_of_mem i hj)
      have hi : i < rowBytes := hlt i List.mem_cons_self
      refine ⟨row[i] :: octets, ?_, trivial⟩
      rw [List.mapM_cons, getElem?_eq_some_getElem hi, hoctets]
      rfl
  refine hread _ fun i hi => ?_
  have hrange := List.mem_range'_1.mp hi
  omega

theorem returns_logPayload (h : (a.blocks + 1) * a.blockLen ≤ rowBytes) :
    Returns (logPayload opts a s) fun _ => True := by
  unfold logPayload
  refine returns_ite (fun _ => ?_) fun _ => returns_some trivial
  exact (returns_readSpan (by omega)).bind fun _ _ => returns_some trivial

end Accesses

/-- The octets a payload log prints fit for every announced count. -/
theorem mul_blockLen_le {blocks blockLen : ℕ} (hblocks : blocks ≤ 127) (hlen : blockLen ≤ 24) :
    (blocks + 1) * blockLen ≤ rowBytes :=
  (Nat.mul_le_mul (Nat.succ_le_succ hblocks) hlen).trans (by decide)

section Packet

theorem returns_type1AppendBytes :
    Returns (type1AppendBytes a s) fun s' =>
      ∃ row, ∃ ctr ≤ rowBytes, s' = { s with dmrPduSf := row, dataByteCtr := ctr } := by
  refine (returns_writes (Nat.min_le_right _ _) fun _ => _).bind fun row _ => ?_
  exact returns_some ⟨row, _, Nat.min_le_right _ _, rfl⟩

theorem returns_type1UpdateCrc (h : s.dataByteCtr ≤ rowBytes) :
    Returns (type1UpdateCrc w s) fun _ => True := by
  have hmnis : Returns (isMnis s) fun _ => True := by
    refine returns_ite (fun _ => ?_) fun _ => returns_some trivial
    refine returns_bind_some (getElem?_eq_some_getElem (by decide)) ?_
    exact returns_bind_some (getElem?_eq_some_getElem (by decide)) (returns_some trivial)
  refine hmnis.bind fun mnis _ => ?_
  refine returns_ite (fun _ => returns_some trivial) fun hctr => ?_
  have hskip : (if mnis then 3 else 0) ≤ if mnis then 8 else 4 := by split <;> omega
  refine (returns_readSpan (by split at hctr <;> omega)).bind fun _ _ => ?_
  exact (returns_readSpan (by omega)).bind fun _ _ => returns_some trivial

theorem returns_type1BlockCrcFlags : Returns (type1BlockCrcFlags s) fun _ => True := by
  unfold type1BlockCrcFlags
  refine returns_ite (fun _ => ?_) fun _ => returns_some trivial
  refine returns_ite (fun _ => returns_some trivial) fun _ => ?_
  refine returns_loop (fun _ _ => True) trivial fun bi flags _ hbi _ => ?_
  have hlt : bi < crcBlocks := by
    unfold crcBlocks
    omega
  refine returns_bind_some (getElem?_eq_some_getElem hlt) ?_
  split
  · exact returns_some trivial
  · split
    · exact returns_some trivial
    · exact returns_some trivial

theorem cryptoWindow_le : (cryptoWindow a s).1 ≤ rowBytes ∧
    (cryptoWindow a s).1 + (cryptoWindow a s).2 ≤ rowBytes := by
  unfold cryptoWindow
  dsimp only
  split <;> omega

theorem returns_decryptPayload (cipher : Cipher) :
    Returns (decryptPayload a cipher s) fun s' => ∃ row, s' = { s with dmrPduSf := row } := by
  unfold decryptPayload
  have hfits := @cryptoWindow_le s a
  revert hfits
  generalize cryptoWindow a s = window
  obtain ⟨start, len⟩ := window
  rintro ⟨hstart, hwindow⟩
  refine returns_ite (fun _ => returns_some ⟨s.dmrPduSf, rfl⟩) fun _ => ?_
  cases cipher with
  | stream keystream =>
    refine (returns_loop (fun _ _ => True) trivial fun j row _ hj _ => ?_).bind fun row _ =>
      returns_some ⟨row, rfl⟩
    have hlt : j < rowBytes := by
      dsimp only at hwindow
      omega
    refine returns_bind_some (getElem?_eq_some_getElem hlt) ?_
    exact (returns_store hlt).mono fun _ _ => trivial
  | blocks plain =>
    refine (returns_writes ?_ fun _ => _).bind fun row _ => returns_some ⟨row, rfl⟩
    dsimp only at hstart
    omega

theorem returns_type1ProcessPayload (crcCorrect : Bool) :
    Returns (type1ProcessPayload opts a w crcCorrect s) fun s' =>
      ∃ row, s' = { s with dmrPduSf := row } := by
  refine returns_type1BlockCrcFlags.bind fun flags _ => ?_
  refine returns_ite (fun _ => returns_some ⟨s.dmrPduSf, rfl⟩) fun _ => ?_
  cases w.cipher with
  | none => exact returns_some ⟨s.dmrPduSf, rfl⟩
  | some cipher => exact returns_decryptPayload cipher

theorem returns_handleType1 (h : (a.blocks + 1) * a.blockLen ≤ rowBytes) :
    Returns (handleType1 opts a w s) fun s' =>
      s'.dataBlockCounter = s.dataBlockCounter ∧ s'.dataHeaderBlocks = s.dataHeaderBlocks ∧
        (s.dataBlockCounter ≠ s.dataHeaderBlocks →
          ∃ row ctr, s' = { s with dmrPduSf := row, dataByteCtr := ctr }) := by
  refine returns_type1AppendBytes.bind ?_
  rintro _ ⟨row, ctr, hctr, rfl⟩
  refine returns_ite (fun hcomplete => ?_) fun _ =>
    returns_some ⟨rfl, rfl, fun _ => ⟨row, ctr, rfl⟩⟩
  have heq : s.dataBlockCounter = s.dataHeaderBlocks := by
    simp only [Slot.complete, Bool.and_eq_true, beq_iff_eq] at hcomplete
    exact hcomplete.1
  refine (returns_type1UpdateCrc hctr).bind fun crcCorrect _ => ?_
  refine (returns_type1ProcessPayload crcCorrect).bind ?_
  rintro _ ⟨row', rfl⟩
  refine (returns_logPayload h).bind fun _ _ => ?_
  exact returns_some ⟨rfl, rfl, fun hne => absurd heq hne⟩

theorem returns_resetType2 :
    Returns s.resetType2 fun s' =>
      s'.dataBlockCounter = 1 ∧ s'.dataHeaderBlocks = s.dataHeaderBlocks :=
  (returns_store (by decide)).bind fun _ _ => returns_some ⟨rfl, rfl⟩

theorem returns_assembler_packet (bytes : ℕ → BitVec 8) (len : ℕ) :
    Returns (assembler opts bytes len .packet w s) fun s' =>
      s'.dataHeaderBlocks = s.dataHeaderBlocks ∧
        (s.dataBlockCounter = s.dataHeaderBlocks → s'.dataBlockCounter = 1) ∧
        (s.dataBlockCounter ≠ s.dataHeaderBlocks → ∃ row ctr, s' = { s with
          dmrPduSf := row, dataByteCtr := ctr, dataBlockCounter := s.dataBlockCounter + 1 }) := by
  refine (returns_handleType1 (mul_blockLen_le (Nat.min_le_left _ _) (Nat.min_le_right _ _))).bind
    ?_
  rintro t ⟨hcounter, hblocks, hopen⟩
  rw [← hcounter, ← hblocks]
  refine returns_ite (fun heq => ?_) fun hne => returns_some ⟨rfl, fun heq => absurd heq hne, ?_⟩
  · refine Returns.bind returns_resetType2 fun u hu => returns_some ⟨hu.2, fun _ => hu.1, ?_⟩
    exact fun hne => absurd heq hne
  · intro _
    rw [hcounter, hblocks] at hne
    obtain ⟨row, ctr, rfl⟩ := hopen hne
    exact ⟨row, ctr, rfl⟩

end Packet

section Aggregate

theorem returns_type2Store :
    Returns (type2Store a s) fun s' => ∃ row, s' = { s with dmrPduSf := row } :=
  (returns_writes (Nat.min_le_right _ _) fun _ => _).bind fun row _ => returns_some ⟨row, rfl⟩

theorem returns_type2SetLbPf (hblocks : a.blocks ≤ 127) (hcounter : a.blockcounter ≤ 127) :
    Returns (type2SetLbPf a w s) fun r => r.2.2 ≤ 127 := by
  unfold type2SetLbPf
  refine returns_ite (fun _ => returns_some hblocks) fun _ => ?_
  refine returns_ite (fun _ => ?_) fun _ => returns_some hblocks
  refine returns_ite (fun _ => returns_some hblocks) fun _ => ?_
  refine (returns_readSpan (by omega)).bind fun _ _ => ?_
  exact returns_ite (fun _ => returns_some hcounter) fun _ => returns_some hblocks

theorem returns_type2UnpackBits (pf : Bool) (blocks : ℕ) :
    Returns (type2UnpackBits a pf blocks s) fun _ => True := by
  have hsixty : 60 ≤ rowBytes := by decide
  refine (returns_readSpan (by omega)).bind fun _ _ => ?_
  refine returns_ite (fun _ => ?_) fun _ => returns_some trivial
  exact returns_bind_some (getElem?_eq_some_getElem (by decide)) (returns_some trivial)

theorem returns_finalizeType2 (lb : Bool) :
    Returns (finalizeType2 lb s) fun s' => s'.dataHeaderBlocks = s.dataHeaderBlocks ∧
      s'.dataBlockCounter ≤ max 1 (s.dataBlockCounter + 1) ∧
        (lb = true → s'.dataBlockCounter = 1) := by
  unfold finalizeType2
  refine returns_ite (fun _ => ?_) fun hlb =>
    returns_some ⟨rfl, le_max_right _ _, fun h => absurd h hlb⟩
  exact returns_resetType2.mono fun t ht => ⟨ht.2, ht.1 ▸ le_max_left _ _, fun _ => ht.1⟩

theorem returns_handleType2 (hblocks : a.blocks ≤ 127) (hcounter : a.blockcounter ≤ 127)
    (hlen : a.blockLen ≤ 24) :
    Returns (handleType2 opts a w s) fun t =>
      1 ≤ s.dataHeaderBlocks → s.dataHeaderBlocks ≤ 127 → InRange t := by
  refine returns_type2Store.bind ?_
  rintro _ ⟨row, rfl⟩
  have hclamped : 1 ≤ s.dataHeaderBlocks → s.dataHeaderBlocks ≤ 127 → InRange
      { s with dataBlockCounter := min s.dataBlockCounter 4, dmrPduSf := row } :=
    fun hpos hle => ⟨hpos, hle, .inr (by dsimp only; omega)⟩
  refine (returns_type2SetLbPf hblocks hcounter).bind ?_
  rintro ⟨lb, pf, blocks⟩ hmost
  refine returns_ite (fun _ => ?_) fun hlast => ?_
  · refine (returns_finalizeType2 lb).mono fun t ht hpos hle => ⟨?_, ?_, .inr ?_⟩
    · exact ht.1 ▸ hpos
    · exact ht.1 ▸ hle
    · have hcount := ht.2.1
      dsimp only at hcount
      omega
  refine returns_ite (fun _ => ?_) fun _ => ?_
  · exact (returns_store (by decide)).bind fun _ _ =>
      returns_some fun hpos hle => (hclamped hpos hle).congr rfl rfl
  refine (returns_type2UnpackBits pf blocks).bind fun pf' _ => ?_
  have hdispatched : 1 ≤ s.dataHeaderBlocks → s.dataHeaderBlocks ≤ 127 →
    InRange (type2Dispatch a w pf'
      { s with dataBlockCounter := min s.dataBlockCounter 4, dmrPduSf := row }) := by
    intro hpos hle
    unfold type2Dispatch
    split
    · exact (hclamped hpos hle).effects _
    · exact hclamped hpos hle
  refine Returns.bind (returns_logPayload ?_) fun _ _ => ?_
  · exact mul_blockLen_le hmost hlen
  have hlb : lb = true := by
    by_contra hne
    exact hlast (.inl (Bool.eq_false_iff.mpr hne))
  refine (returns_finalizeType2 lb).mono fun t ht hpos hle => ⟨?_, ?_, .inr ?_⟩
  · exact ht.1 ▸ (hdispatched hpos hle).blocks_pos
  · exact ht.1 ▸ (hdispatched hpos hle).blocks_le
  · rw [ht.2.2 hlb]
    omega

/-- Every call but of a packet goes the way of the aggregates. -/
theorem assembler_aggregate {kind : Kind} (hkind : kind ≠ .packet) (bytes : ℕ → BitVec 8)
    (len : ℕ) :
    assembler opts bytes len kind w s = handleType2 opts (initCtx bytes len kind s) w s := by
  cases kind with
  | packet => exact absurd rfl hkind
  | control => rfl
  | unified => rfl

theorem returns_assembler_aggregate {kind : Kind} (hkind : kind ≠ .packet) (bytes : ℕ → BitVec 8)
    (len : ℕ) (hpos : 1 ≤ s.dataHeaderBlocks) (hle : s.dataHeaderBlocks ≤ 127)
    (hcounter : s.dataBlockCounter ≤ 127) :
    Returns (assembler opts bytes len kind w s) InRange := by
  rw [assembler_aggregate hkind]
  have hmost : (initCtx bytes len kind s).blockcounter ≤ 127 := (Nat.mod_le _ _).trans hcounter
  exact (returns_handleType2 (Nat.min_le_left _ _) hmost (Nat.min_le_right _ _)).mono
    fun t ht => ht hpos hle

end Aggregate

section Header

variable {f : DheaderFields}

theorem returns_handleStandard (hpos : 1 ≤ f.udtUab) (huab : f.udtUab ≤ 4)
    (hcounter : s.dataBlockCounter = 1) :
    Returns (handleStandard opts b f s) fun s' => s'.dataBlockCounter ≤ 5 ∨
      s'.dataBlockCounter ≤ s'.dataHeaderBlocks ∧ s'.dataHeaderBlocks ≤ 127 := by
  have hlow : s.dataBlockCounter ≤ 5 := by omega
  unfold handleStandard
  split
  · refine (returns_assembler_aggregate (by simp) _ _ hpos ?_ (Nat.zero_le _)).mono fun t ht => ?_
    · dsimp only
      omega
    · have hblocks := ht.blocks_le
      exact ht.counter.symm.imp_right fun hle => ⟨hle, hblocks⟩
  all_goals exact returns_some (.inl hlow)

theorem returns_handleProprietary (hcounter : s.dataBlockCounter = 1) :
    Returns (handleProprietary b f s) fun s' => s'.dataBlockCounter ≤ 2 := by
  refine returns_ite (fun _ => ?_) fun _ => returns_some ?_
  · refine (returns_writes (by decide) _).bind fun row _ => returns_some ?_
    dsimp only
    omega
  · dsimp only
    omega

theorem returns_handleByFormat (hpos : 1 ≤ f.udtUab) (huab : f.udtUab ≤ 4)
    (hcounter : s.dataBlockCounter = 1) :
    Returns (handleByFormat opts b f s) fun s' => s'.dataBlockCounter ≤ 5 ∨
      s'.dataBlockCounter ≤ s'.dataHeaderBlocks ∧ s'.dataHeaderBlocks ≤ 127 := by
  refine returns_ite (fun _ => ?_) fun _ => ?_
  · exact (returns_handleProprietary hcounter).mono fun t ht => .inl (by omega)
  · exact (returns_handleStandard hpos huab hcounter).bind fun t ht => returns_some ht

theorem bitsField_lt (bytes : ℕ → BitVec 8) (start width : ℕ) :
    bitsField bytes start width < 2 ^ width := by
  simpa [bitsField] using Bits.number_lt
    ((List.range' start width).map fun k => (bytes (k / 8)).getLsbD (7 - k % 8))

/-- A header leaves its slot in range, whatever it announces. -/
theorem returns_dheaderClassified (crcFlags : ℕ) :
    Returns (dheaderClassified opts b crcFlags s) InRange := by
  unfold dheaderClassified
  refine returns_ite (fun _ => returns_some (inRange_idle.congr rfl rfl)) fun _ => ?_
  refine (returns_store (by decide)).bind fun crcValid _ => ?_
  have huab : (parseFields b.bytes).udtUab ≤ 4 := by
    have hfield := bitsField_lt b.bytes 70 2
    simp only [parseFields]
    omega
  refine Returns.bind (returns_handleByFormat (Nat.le_add_left 1 _) huab rfl) fun t ht => ?_
  have hsane : InRange t.sanitizeBlocks := by
    constructor
    · exact le_max_left _ _
    · exact max_le (by decide) (min_le_right _ _)
    · simp only [Slot.sanitizeBlocks]
      omega
  exact returns_some (hsane.congr rfl rfl)

end Header

end DsdNeo.Dmr.DataBlocks
