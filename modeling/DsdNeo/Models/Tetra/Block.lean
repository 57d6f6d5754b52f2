import DsdNeo.Models.Tetra.Trellis

/-!
# A random access block survives its coding chain

The 92 bits of a block, its checksum and the tail go through the mother code, the
puncturing to 168 bits, the interleaver and one XOR with the scrambling sequence.
Descrambling the hard costs with the same seed restores the interleaved costs,
deinterleaving and depuncturing put every sent bit back at its place in the mother
word, and the punctured code separates all blocks.
-/

namespace DsdNeo.Tetra

open Reorder Trellis LinearCode List

/-- The type-4 bits of a type-2 block: encoded, punctured and interleaved. -/
def schHuEncode (block : List (BitVec 8)) : Option (List (BitVec 8)) :=
  (rcpcPunctureById rcpcPunct23 (convEncode signallingCode block) 168).map fun type3 =>
    blockInterleave type3 (List.replicate 168 0) 168 13

/-- One XOR with the scrambling sequence of a seed. -/
def scramble (bits : List (BitVec 8)) (lfsrInit : BitVec 32) : List (BitVec 8) :=
  List.zipWith (fun b s => b ^^^ bitByte s) bits (lfsrSequence bits.length (lfsrStart lfsrInit))

/-- Cost of a certain bit. -/
def hardCost (b : Bool) : BitVec 16 := bif b then 0xFFFF else 0

theorem descrambleLoop_scrambled (bits : List Bool) (s : BitVec 32) :
    descrambleLoop (hardBitsToSoft (List.zipWith (fun b k => b ^^^ bitByte k) (bits.map bitByte)
      (lfsrSequence bits.length s))) s = bits.map hardCost := by
  have hcost : ∀ b k : Bool,
      (if k ∧ (if (bitByte b ^^^ bitByte k) &&& 1 ≠ 0 then (0xFFFF : BitVec 16) else 0x0000) ≠
          softNeutral then
        0xFFFF ^^^ (if (bitByte b ^^^ bitByte k) &&& 1 ≠ 0 then (0xFFFF : BitVec 16) else 0x0000)
      else if (bitByte b ^^^ bitByte k) &&& 1 ≠ 0 then 0xFFFF else 0x0000) = hardCost b := by
    decide
  induction bits generalizing s with
  | nil => rfl
  | cons b bits ih =>
    have htail := ih (lfsr32Next s).2
    have hhead := hcost b (lfsr32Next s).1
    rw [hardBitsToSoft] at htail ⊢
    rw [map_cons, length_cons, lfsrSequence, zipWith_cons_cons, map_cons,
      descrambleLoop, htail, hhead, map_cons]

theorem descramble_scramble (bits : List Bool) (lfsrInit : BitVec 32) :
    descrambleSoft (hardBitsToSoft (scramble (bits.map bitByte) lfsrInit)) lfsrInit =
      bits.map hardCost := by
  rw [descrambleSoft, scramble, length_map]
  exact descrambleLoop_scrambled bits _

/-- The interleaver over plain bits. -/
def interleaved (bits : List Bool) : List Bool :=
  scatter ((List.range 168).map fun i => (13 * (i + 1) % 168, bits.getD i false))
    (List.replicate 168 false)

theorem blockInterleave_map (bits : List Bool) :
    blockInterleave (bits.map bitByte) (List.replicate 168 0) 168 13 =
      (interleaved bits).map bitByte := by
  rw [interleaved, map_scatter, blockInterleave, map_map, map_replicate]
  congr 1
  refine map_congr_left fun i _ => ?_
  simp only [getD_eq_getElem?_getD, getElem?_map, Function.comp_apply]
  cases bits[i]? <;> rfl

set_option maxRecDepth 4000 in
private theorem interleave_inverse :
    ∀ i, i < 168 → (13 * (13 * (i + 1) % 168) + 167) % 168 = i := by
  decide

theorem deinterleave_interleaved {bits : List Bool} (h : bits.length = 168) :
    blockDeinterleaveSoft ((interleaved bits).map hardCost) 168 13 = bits.map hardCost := by
  apply ext_getElem?
  intro i
  by_cases hi : i < 168
  · have hstore : (interleaved bits)[13 * (i + 1) % 168]? = some (bits.getD i false) := by
      refine getElem?_scatter ?_ ?_ (by rw [length_replicate]; omega)
      · rw [map_map]
        refine nodup_range.map_on fun x hx y hy hxy => ?_
        rw [← interleave_inverse x (mem_range.mp hx), ← interleave_inverse y (mem_range.mp hy)]
        exact congrArg (fun k => (13 * k + 167) % 168) hxy
      · exact mem_map.mpr ⟨i, mem_range.mpr hi, rfl⟩
    simp only [blockDeinterleaveSoft, getElem?_map, getElem?_range hi, Option.map_some,
      getD_eq_getElem?_getD, hstore, Option.getD_some,
      getElem?_eq_getElem (show i < bits.length by omega)]
  · rw [getElem?_eq_none (by simp [blockDeinterleaveSoft]; omega),
      getElem?_eq_none (by simp; omega)]

private theorem encode_step (s : Fin 16) (b : Bool) :
    ((List.range 4).map fun lane => parity5 (BitVec.ofNat 8
      ((((bitByte b &&& 1).toNat <<< 4) ||| s.val) &&& signallingCode.taps.getD lane 0))) =
        (signallingOut s b).map bitByte ∧
      convNextState signallingCode s.val (bitByte b &&& 1).toNat = (signallingNext s b).val := by
  revert s b
  decide

theorem convEncodeLoop_eq (bits : List Bool) (s : Fin 16) :
    convEncodeLoop signallingCode (bits.map bitByte) s.val =
      (signalling.codedStream s bits).map bitByte := by
  induction bits generalizing s with
  | nil => rfl
  | cons b bits ih =>
    obtain ⟨hout, hnext⟩ := encode_step s b
    rw [map_cons, convEncodeLoop, codedStream, map_append]
    simp only [hnext, ih]
    exact congrArg (· ++ _) hout

/-- The encoder writes the words of the mother code. -/
theorem convEncode_eq (bits : List Bool) :
    convEncode signallingCode (bits.map bitByte) = (signalling.codedStream 0 bits).map bitByte :=
  convEncodeLoop_eq bits 0

/-- Mother position of sent bit `j`. -/
def sentAt (j : ℕ) : ℕ := 8 * (j / 3) + [0, 1, 4].getD (j % 3) 0

/-- Whether a mother position is sent. -/
def sentMask : List Bool :=
  (List.range 448).map fun p => p % 8 == 0 || p % 8 == 1 || p % 8 == 4

set_option maxRecDepth 4000 in
private theorem puncturerK_two_thirds : ∀ j, j < 168 →
    puncturerK ⟨[1, 2, 5], 3, 8, .equalsJ⟩ (j + 1) = sentAt j + 1 ∧ sentAt j < 448 := by
  decide

set_option maxRecDepth 4000 in
private theorem sentAt_inverse : ∀ j, j < 168 →
    3 * (sentAt j / 8) + (if sentAt j % 8 = 0 then 0 else if sentAt j % 8 = 1 then 1 else 2) = j ∧
      (sentAt j % 8 == 0 || sentAt j % 8 == 1 || sentAt j % 8 == 4) = true := by
  decide

private theorem exists_sentAt : ∀ p, p < 448 →
    (p % 8 == 0 || p % 8 == 1 || p % 8 == 4) = true → ∃ j, j < 168 ∧ sentAt j = p := by
  intro p hp hmask
  simp only [Bool.or_eq_true, beq_iff_eq] at hmask
  obtain ⟨q, hq⟩ : ∃ q, q = p / 8 := ⟨_, rfl⟩
  rcases hmask with (h | h) | h
  · refine ⟨3 * q, by omega, ?_⟩
    rw [sentAt, show 3 * q / 3 = q by omega, show 3 * q % 3 = 0 by omega]
    simp
    omega
  · refine ⟨3 * q + 1, by omega, ?_⟩
    rw [sentAt, show (3 * q + 1) / 3 = q by omega, show (3 * q + 1) % 3 = 1 by omega]
    simp
    omega
  · refine ⟨3 * q + 2, by omega, ?_⟩
    rw [sentAt, show (3 * q + 2) / 3 = q by omega, show (3 * q + 2) % 3 = 2 by omega]
    simp
    omega

/-- The sent bits of a mother word. -/
def sentBits (coded : List Bool) : List Bool :=
  (List.range 168).map fun j => coded.getD (sentAt j) false

theorem rcpcPuncture_eq {coded : List Bool} (h : coded.length = 448) :
    rcpcPunctureById rcpcPunct23 (coded.map bitByte) 168 = some ((sentBits coded).map bitByte) := by
  rw [rcpcPunctureById, sentBits, map_map]
  refine congrArg some (map_congr_left fun j hj => ?_)
  obtain ⟨hk, hlt⟩ := puncturerK_two_thirds j (mem_range.mp hj)
  simp only [hk, length_map, h]
  rw [if_pos (by omega), Nat.add_sub_cancel]
  simp [getD_eq_getElem?_getD, getElem?_eq_getElem (show sentAt j < coded.length by omega)]

/-- Stores by which the sent costs go back into the mother word. -/
private def sentWrites (coded : List Bool) : List (ℕ × BitVec 16) :=
  (List.range 168).map fun j => (sentAt j, hardCost (coded.getD (sentAt j) false))

private theorem sentWrites_nodup (coded : List Bool) : ((sentWrites coded).map Prod.fst).Nodup := by
  rw [sentWrites, map_map]
  refine nodup_range.map_on fun x hx y hy hxy => ?_
  rw [← (sentAt_inverse x (mem_range.mp hx)).1, ← (sentAt_inverse y (mem_range.mp hy)).1]
  exact congrArg (fun p => 3 * (p / 8) + (if p % 8 = 0 then 0 else if p % 8 = 1 then 1 else 2)) hxy

private theorem rcpcDepuncture_writes (coded : List Bool) :
    rcpcDepunctureById rcpcPunct23 ((sentBits coded).map hardCost) 448 =
      some (scatter (sentWrites coded) (List.replicate 448 softNeutral)) := by
  have hlen : ((sentBits coded).map hardCost).length = 168 := by simp [sentBits]
  have hwrite : ∀ j, j < 168 → ((sentBits coded).map hardCost).getD j 0 =
      hardCost (coded.getD (sentAt j) false) := by
    intro j hj
    simp only [sentBits, getD_eq_getElem?_getD, getElem?_map, getElem?_range hj,
      Option.map_some, Option.getD_some]
  rw [rcpcDepunctureById, hlen,
    show puncturers[rcpcPunct23]? = some ⟨[1, 2, 5], 3, 8, .equalsJ⟩ from rfl, Option.map_some,
    filterMap_map, sentWrites]
  refine congrArg (fun w => some (scatter w _)) ((filterMap_congr fun j hj => ?_).trans
    (congrFun filterMap_eq_map _))
  have hj := mem_range.mp hj
  obtain ⟨hk, hlt⟩ := puncturerK_two_thirds j hj
  simp only [Function.comp_apply, hwrite j hj, hk]
  rw [if_pos (by omega), Nat.add_sub_cancel]

theorem rcpcDepuncture_eq {coded : List Bool} (h : coded.length = 448) :
    ∃ costs, rcpcDepunctureById rcpcPunct23 ((sentBits coded).map hardCost) 448 = some costs ∧
      costs.map BitVec.toNat = received 65535 32767 sentMask coded := by
  refine ⟨_, rcpcDepuncture_writes coded, ?_⟩
  have hmask : sentMask.length = coded.length := by simp [sentMask, h]
  apply ext_getElem?
  intro p
  by_cases hp : p < 448
  · have hm : sentMask[p]? = some (p % 8 == 0 || p % 8 == 1 || p % 8 == 4) := by
      rw [sentMask, getElem?_map, getElem?_range hp, Option.map_some]
    have hb : coded[p]? = some (coded.getD p false) := by
      rw [getD_eq_getElem?_getD, getElem?_eq_getElem (by omega), Option.getD_some]
    rw [getElem?_received _ _ hm hb, getElem?_map]
    by_cases hsent : (p % 8 == 0 || p % 8 == 1 || p % 8 == 4) = true
    · obtain ⟨j, hj, rfl⟩ := exists_sentAt p hp hsent
      rw [getElem?_scatter (sentWrites_nodup coded)
        (mem_map.mpr ⟨j, mem_range.mpr hj, rfl⟩) (by rw [length_replicate]; exact hp),
        hsent]
      cases coded.getD (sentAt j) false <;> rfl
    · rw [getElem?_scatter_of_notMem, getElem?_replicate, if_pos hp, Bool.eq_false_iff.mpr hsent]
      · rfl
      · intro hmem
        obtain ⟨w, hw, rfl⟩ := mem_map.mp hmem
        obtain ⟨j, hj, rfl⟩ := mem_map.mp hw
        exact hsent (sentAt_inverse j (mem_range.mp hj)).2
  · rw [getElem?_eq_none (by rw [length_map, length_scatter, length_replicate]; omega),
      getElem?_eq_none (by rw [length_received _ _ hmask]; omega)]

private theorem signalling_separation :
    agreements (charges 65535 1 4 112 sentMask) <
      signalling.leastCharge (2 ^ 32) (· == 0) (charges 65535 1 4 112 sentMask) := by
  decide +kernel

/-- The decoder recovers a flushed block from what depuncturing leaves. -/
theorem viterbiDecodeSoft_sent (kernel : Kernel) {block : List Bool} (hblock : block.length = 108)
    {costs : List (BitVec 16)}
    (hcosts : costs.map BitVec.toNat = received 65535 32767 sentMask
      (signalling.codedStream 0 (block ++ List.replicate 4 false))) :
    viterbiDecodeSoft kernel costs 112 = some ((block ++ List.replicate 4 false).map bitByte) := by
  obtain ⟨input, hinput⟩ : ∃ input, input = block ++ List.replicate 4 false := ⟨_, rfl⟩
  rw [← hinput] at hcosts ⊢
  have hin : input.length = 112 := by rw [hinput]; simp [hblock]
  have hmask : sentMask.length = 4 * input.length := by simp [sentMask, hin]
  have hcoded : (signalling.codedStream 0 input).length = 448 := by
    rw [length_codedStream (show ∀ s b, (signalling.out s b).length = 4 from fun _ _ => rfl), hin]
  have hlen : costs.length = 4 * 112 := by
    have := congrArg List.length hcosts
    rw [length_map, length_received _ _ (by rw [hmask, hin, hcoded])] at this
    omega
  have hprices := @prices_received _ 4 signalling (fun _ _ => rfl) 65535 32767 1
    (by omega) (by omega) (by omega) _ _ hmask 0
  rw [← hcosts, hin] at hprices
  have hflush : ∀ i, i < 4 → input.getD (108 + i) false = false := by
    intro i hi
    rw [hinput, getD_append_right _ _ _ _ (by omega), getD_replicate _ (by omega)]
  have hsent := convViterbi_sent hlen kernel (show 112 = 108 + 4 from rfl) (by decide)
    (length_charges _ _ _ _ _) hflush signalling_separation hprices
  rw [viterbiDecodeSoft, if_neg (by omega), show costs.length / 4 = 112 by omega,
    if_neg (by decide), hsent]
  refine congrArg some (ext_getElem? fun t => ?_)
  by_cases ht : t < 112
  · simp only [getElem?_map, getElem?_range ht, Option.map_some,
      getD_eq_getElem?_getD, getElem?_eq_getElem (show t < input.length by omega),
      Option.getD_some]
  · rw [getElem?_eq_none (by simp; omega), getElem?_eq_none (by simp; omega)]

theorem schHuDecode_sent (kernel : Kernel) {mac crc : List Bool} (hmac : mac.length = 92)
    (hcrc : crc.length = 16) (hok : crc16CcittBits ((mac ++ crc).map bitByte) = crc16Ok)
    (seed : BitVec 32) :
    ∃ type4, schHuEncode ((mac ++ crc ++ List.replicate 4 false).map bitByte) = some type4 ∧
      schHuDecode kernel (descrambleSoft (hardBitsToSoft (scramble type4 seed)) seed) =
        some (mac.map bitByte) := by
  obtain ⟨block, hdef⟩ : ∃ block, block = mac ++ crc := ⟨_, rfl⟩
  rw [← hdef] at hok ⊢
  have hblock : block.length = 108 := by rw [hdef, length_append, hmac, hcrc]
  have hcoded : (signalling.codedStream 0 (block ++ List.replicate 4 false)).length = 448 := by
    rw [length_codedStream (show ∀ s b, (signalling.out s b).length = 4 from fun _ _ => rfl)]
    simp [hblock]
  obtain ⟨costs, hdepunc, hcosts⟩ := rcpcDepuncture_eq hcoded
  refine ⟨(interleaved (sentBits (signalling.codedStream 0
    (block ++ List.replicate 4 false)))).map bitByte, ?_, ?_⟩
  · rw [schHuEncode, convEncode_eq, rcpcPuncture_eq hcoded, Option.map_some, blockInterleave_map]
  · have hchecked : (List.map bitByte (block ++ List.replicate 4 false)).take 108 =
        block.map bitByte := by
      rw [← map_take, take_left' hblock]
    have hhead : (block ++ List.replicate 4 false).take 92 = mac := by
      rw [hdef, append_assoc, take_left' hmac]
    rw [descramble_scramble, schHuDecode,
      deinterleave_interleaved (by rw [sentBits, length_map, length_range]), hdepunc]
    simp only [Option.bind_eq_bind, Option.bind_some]
    rw [viterbiDecodeSoft_sent kernel hblock hcosts, Option.bind_some, if_neg, ← map_take, hhead]
    rw [hchecked, hok]
    simp [hblock]

/-- The register step of the checksum once its input bit is in. -/
def crcShift (crc : BitVec 16) : BitVec 16 :=
  (crc <<< 1) ^^^ (bif crc.getLsbD 15 then 0x1021 else 0)

/-- An input bit at the top of the register. -/
def topBit (b : Bool) : BitVec 16 := bif b then 0x8000 else 0

theorem crcShift_xor (x y : BitVec 16) : crcShift (x ^^^ y) = crcShift x ^^^ crcShift y := by
  have hpoly : ∀ a b : Bool, (bif a ^^ b then (0x1021 : BitVec 16) else 0) =
      (bif a then 0x1021 else 0) ^^^ (bif b then 0x1021 else 0) := by decide
  rw [crcShift, crcShift, crcShift, BitVec.shiftLeft_xor_distrib, BitVec.getLsbD_xor, hpoly]
  ac_rfl

theorem crcStep_eq (crc : BitVec 16) (b : Bool) :
    crcStep crc (bitByte b) = crcShift (crc ^^^ topBit b) := by
  have hbit : (bitByte b &&& 1).setWidth 16 <<< 15 = topBit b := by
    cases b <;> rfl
  have htop : ∀ r : BitVec 16, r &&& 0x8000 = if r.getLsbD 15 then 0x8000 else 0 :=
    fun r => BitVec.and_twoPow r 15
  rw [crcStep, hbit, htop, crcShift]
  cases (crc ^^^ topBit b).getLsbD 15 <;> simp

theorem crcShift_topBit (c : BitVec 16) : crcShift (c ^^^ topBit (c.getLsbD 15)) = c <<< 1 := by
  have hout : ∀ b, topBit b <<< 1 = 0#16 := by decide
  have htop : ∀ b, (topBit b).getLsbD 15 = b := by decide
  rw [crcShift, BitVec.getLsbD_xor, htop, Bool.xor_self, cond_false, BitVec.shiftLeft_xor_distrib,
    hout, BitVec.xor_zero]
  exact BitVec.xor_zero

/-- Feeding the bits of `c`, highest first, leaves the zero-input run of the register
combined with `c`. -/
theorem foldl_crcStep (r c : BitVec 16) (n : ℕ) :
    ((List.range n).map fun i => bitByte ((c <<< i).getLsbD 15)).foldl crcStep r ^^^ (c <<< n) =
      crcShift^[n] (r ^^^ c) := by
  induction n with
  | zero => simp
  | succ n ih =>
    rw [range_succ, map_append, foldl_append, map_singleton, foldl_cons,
      foldl_nil, crcStep_eq, Function.iterate_succ_apply', ← ih]
    rw [BitVec.shiftLeft_add, ← crcShift_topBit (c <<< n), ← crcShift_xor]
    congr 1
    rw [BitVec.xor_assoc, BitVec.xor_comm (c <<< n), ← BitVec.xor_assoc (topBit _), BitVec.xor_self,
      BitVec.zero_xor]

/-- Every block has a checksum that passes. -/
theorem exists_crc16 (mac : List Bool) :
    ∃ crc : List Bool, crc.length = 16 ∧ crc16CcittBits ((mac ++ crc).map bitByte) = crc16Ok := by
  obtain ⟨r, hr⟩ : ∃ r, r = crc16CcittBits (mac.map bitByte) := ⟨_, rfl⟩
  refine ⟨(List.range 16).map fun i => ((r ^^^ 0xFFFF) <<< i).getLsbD 15, by simp, ?_⟩
  have hrun := foldl_crcStep r (r ^^^ 0xFFFF) 16
  rw [← BitVec.xor_assoc, BitVec.xor_self, BitVec.zero_xor, BitVec.shiftLeft_eq_zero le_rfl,
    BitVec.xor_zero] at hrun
  rw [crc16CcittBits, map_append, foldl_append, map_map]
  show List.foldl crcStep (crc16CcittBits (mac.map bitByte)) _ = crc16Ok
  rw [← hr]
  exact hrun.trans (by decide)

/-- Every block has a passing checksum, and with any such checksum and the tail, encoded,
scrambled and descrambled with one seed, it decodes to its bits with either kernel. -/
theorem schHuDecode_inverts_chain {mac : List Bool} (hmac : mac.length = 92) :
    (∃ crc : List Bool, crc.length = 16 ∧
        crc16CcittBits ((mac ++ crc).map bitByte) = crc16Ok) ∧
      ∀ crc : List Bool, crc.length = 16 →
        crc16CcittBits ((mac ++ crc).map bitByte) = crc16Ok →
        ∀ (kernel : Kernel) (seed : BitVec 32), ∃ type4,
          schHuEncode ((mac ++ crc ++ List.replicate 4 false).map bitByte) = some type4 ∧
          schHuDecode kernel (descrambleSoft (hardBitsToSoft (scramble type4 seed)) seed) =
            some (mac.map bitByte) :=
  ⟨exists_crc16 mac, fun _ hcrc hok kernel seed => schHuDecode_sent kernel hmac hcrc hok seed⟩

/-- The zero block, with the checksum `0x6EA2`. -/
theorem schHuDecode_inverts_chain_zeros :
    ∃ type4,
      schHuEncode ((List.replicate 92 false ++ [false, true, true, false, true, true, true, false,
        true, false, true, false, false, false, true, false] ++ List.replicate 4 false).map
          bitByte) = some type4 ∧
      schHuDecode .sse2 (descrambleSoft (hardBitsToSoft (scramble type4 3)) 3) =
        some ((List.replicate 92 false).map bitByte) :=
  (schHuDecode_inverts_chain
    (show (List.replicate 92 false).length = 92 from length_replicate)).2
    _ rfl (by decide +kernel) .sse2 3

end DsdNeo.Tetra
