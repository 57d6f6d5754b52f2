import DsdNeo.Models.Fec.Golay2412

/-!
# Message indicators of late entry

`dmr_late_entry.c`: a message indicator and its check bits come as three Golay words, spread in
nibbles over the fragments of two halves, the data in the first and the parity in the second.
Up to three bits in error in each word leave the indicator and its check as they were sent.
-/

namespace DsdNeo.Dmr.LateEntry

open Fec.Golay2412 List BitVec

/-- The columns and rows of a half, in the order they are packed. -/
def packOrder : List (ℕ × ℕ) :=
  (List.range 3).flatMap fun col => (List.range 3).map fun row => (col, row)

/-- `dmr_late_entry_pack_fragments`. -/
def packFragments (fragments : ℕ → BitVec 64) (vcBase : ℕ) : BitVec 64 :=
  packOrder.foldl
    (fun packed p => (packed <<< 4) ||| (fragments ((vcBase + p.2) * 3 + p.1) &&& 0x0F)) 0

/-- The polynomial of `dsd_dmr_crc4`. -/
def polynomial : List UInt8 := [1, 0, 0, 1, 1]

/-- One bit of the message divided out. -/
def crc4Step (work : ℕ → UInt8) (i : ℕ) : ℕ → UInt8 :=
  if work i = 0 then work
  else
    (List.range 5).foldl
      (fun work j => Function.update work (i + j) (work (i + j) ^^^ polynomial.getD j 0)) work

/-- `dsd_dmr_crc4`. -/
def dmrCrc4 (bits : ℕ → UInt8) (len : ℕ) : BitVec 8 :=
  if len > 256 - 4 then 0
  else
    let work := (List.range len).foldl crc4Step fun k => if k < len then bits k else 0
    let crc : BitVec 8 :=
      (List.range 4).foldl (fun crc i => (crc <<< 1) ||| (work (len + i)).toBitVec) 0
    crc ^^^ 0x0F

/-- `dsd_dmr_late_entry_result`. -/
structure Result where
  mi : BitVec 32
  crcOk : Bool

/-- One word of the three, from the packed halves. -/
def codeword (miCodewords parityCodewords : BitVec 64) (triplet : ℕ) : ℕ → UInt8 := fun k =>
  let bitAt (packed : BitVec 64) (bit : ℕ) : UInt8 :=
    ⟨(((packed <<< (bit + triplet * 12)) &&& 0x800000000) >>> 35).setWidth 8⟩
  if k < 12 then bitAt miCodewords k
  else if k < 24 then bitAt parityCodewords (k - 12)
  else 0

/-- `dsd_dmr_late_entry_decode`. -/
def lateEntryDecode (fragments : ℕ → BitVec 64) : Bool × Result :=
  let miCodewords := packFragments fragments 1
  let parityCodewords := packFragments fragments 4
  let decoded := fun triplet => decode (codeword miCodewords parityCodewords triplet)
  let miBits : ℕ → UInt8 := fun i => if i < 36 then (decoded (i / 12)).2 (i % 12) else 0
  let mi : BitVec 32 :=
    (List.range 32).foldl (fun mi i => (mi <<< 1) ||| (miBits i).toBitVec.setWidth 32) 0
  let extractedCrc : BitVec 8 :=
    (List.range 4).foldl (fun crc i => (crc <<< 1) ||| (miBits (32 + i)).toBitVec) 0
  ((List.range 3).all fun triplet => (decoded triplet).1,
    ⟨mi, extractedCrc = dmrCrc4 miBits 32⟩)

/-- A bit as a character. -/
def bitOf (b : Bool) : UInt8 := if b then 1 else 0

/-- The bits of a message indicator. -/
def miBitsOf (mi : BitVec 32) : ℕ → UInt8 := fun i => bitOf (mi.getLsbD (31 - i))

/-- A message indicator and its check bits. -/
def messageBits (mi : BitVec 32) : ℕ → UInt8 := fun i =>
  if i < 32 then miBitsOf mi i else bitOf ((dmrCrc4 (miBitsOf mi) 32).getLsbD (35 - i))

/-- The words sent. -/
def sentWord (mi : BitVec 32) (triplet : ℕ) : ℕ → UInt8 :=
  encode fun k => messageBits mi (12 * triplet + k)

/-- The words received, with some bits flipped. -/
def receivedWord (mi : BitVec 32) (errors : ℕ → Finset ℕ) (triplet : ℕ) : ℕ → UInt8 := fun k =>
  if k ∈ errors triplet then sentWord mi triplet k ^^^ 1 else sentWord mi triplet k

/-- A nibble of a half: its words one after the other. -/
def nibble (half : ℕ → UInt8) (n : ℕ) : BitVec 64 :=
  (List.range 4).foldl
    (fun packed b => (packed <<< 1) ||| (half (4 * n + b)).toBitVec.setWidth 64) 0

/-- The first or the second twelve bits of the words, one after the other. -/
def halfOf (words : ℕ → ℕ → UInt8) (start : ℕ) : ℕ → UInt8 := fun i =>
  words (i / 12) (start + i % 12)

/-- Words spread over the fragments, in the order they are packed in, under whatever other bits the
fragments hold. -/
def spread (words : ℕ → ℕ → UInt8) (rest : ℕ → BitVec 64) : ℕ → BitVec 64 := fun m =>
  let row := m / 3
  let value :=
    if row < 4 then nibble (halfOf words 0) (m % 3 * 3 + (row - 1))
    else nibble (halfOf words 12) (m % 3 * 3 + (row - 4))
  (rest m &&& ~~~0x0F) ||| value

variable {k start : ℕ}

theorem getLsbD_packed {w q : ℕ} (hq : 0 < q) {digit : ℕ → BitVec w}
    (hdigit : ∀ n k, q ≤ k → (digit n).getLsbD k = false) (count : ℕ) (hk : k < w) :
    ((List.range count).foldl
        (fun (packed : BitVec w) n => (packed <<< q) ||| digit n) 0).getLsbD k =
      (decide (k < q * count) && (digit (count - 1 - k / q)).getLsbD (k % q)) := by
  induction count generalizing k with
  | zero => simp
  | succ count ih =>
    rw [range_succ, foldl_append, foldl_cons, foldl_nil, getLsbD_or,
      getLsbD_shiftLeft, decide_eq_true hk, Bool.true_and]
    by_cases hlow : k < q
    · have hin : k < q * (count + 1) := hlow.trans_le (Nat.le_mul_of_pos_right q (Nat.succ_pos _))
      rw [decide_eq_true hlow, decide_eq_true hin, Nat.div_eq_of_lt hlow, Nat.mod_eq_of_lt hlow]
      rfl
    · have hge : q ≤ k := not_lt.mp hlow
      have hsplit : k = k - q + q := (Nat.sub_add_cancel hge).symm
      have hdiv : k / q = (k - q) / q + 1 := by
        conv_lhs => rw [hsplit, Nat.add_div_right _ hq]
      have hmod : k % q = (k - q) % q := by
        conv_lhs => rw [hsplit, Nat.add_mod_right]
      have hbound : decide (k - q < q * count) = decide (k < q * (count + 1)) := by
        rw [decide_eq_decide, Nat.mul_succ]
        omega
      have hindex : count - 1 - (k - q) / q = count + 1 - 1 - ((k - q) / q + 1) := by omega
      rw [decide_eq_false hlow, ih (by omega), hdigit count k hge, hdiv, hmod, hbound, hindex,
        Bool.not_false, Bool.true_and, Bool.or_false]

/-- Bits shifted in one after the other. -/
theorem getLsbD_bits {w : ℕ} {bit : ℕ → UInt8} (hbit : ∀ n, bit n = 0 ∨ bit n = 1) (count : ℕ)
    (hk : k < w) :
    ((List.range count).foldl
        (fun (packed : BitVec w) n => (packed <<< 1) ||| (bit n).toBitVec.setWidth w) 0).getLsbD k =
      (decide (k < count) && decide (bit (count - 1 - k) = 1)) := by
  have hdigit : ∀ n k, 1 ≤ k → ((bit n).toBitVec.setWidth w).getLsbD k = false := by
    intro n k hle
    rw [getLsbD_setWidth]
    rcases hbit n with h | h
    · simp [h]
    · have hne : k ≠ 0 := by omega
      simp [h, getLsbD_one, hne]
  rw [getLsbD_packed (by decide) hdigit count hk, Nat.one_mul, Nat.div_one, Nat.mod_one,
    getLsbD_setWidth]
  have hw : 0 < w := by omega
  rcases hbit (count - 1 - k) with h | h
  · simp [h]
  · simp [h, hw]

variable {words : ℕ → ℕ → UInt8}

theorem halfOf_bit (h : ∀ t k, words t k = 0 ∨ words t k = 1) (start i : ℕ) :
    halfOf words start i = 0 ∨ halfOf words start i = 1 := h _ _

theorem getLsbD_nibble (h : ∀ t k, words t k = 0 ∨ words t k = 1) (start n : ℕ) (hk : k < 64) :
    (nibble (halfOf words start) n).getLsbD k =
      (decide (k < 4) && decide (halfOf words start (4 * n + (3 - k)) = 1)) :=
  getLsbD_bits (fun b => halfOf_bit h start (4 * n + b)) 4 hk

/-- The low nibble of a fragment. -/
theorem spread_masked (h : ∀ t k, words t k = 0 ∨ words t k = 1) (rest : ℕ → BitVec 64) {m n : ℕ}
    (hvalue : (if m / 3 < 4 then nibble (halfOf words 0) (m % 3 * 3 + (m / 3 - 1))
      else nibble (halfOf words 12) (m % 3 * 3 + (m / 3 - 4))) = nibble (halfOf words start) n) :
    spread words rest m &&& 0x0F = nibble (halfOf words start) n := by
  have hmask : (0x0F : BitVec 64).toNat = 2 ^ 4 - 1 := by decide
  rw [spread, hvalue]
  refine eq_of_getLsbD_eq fun k hk => ?_
  rw [getLsbD_and, getLsbD_or, getLsbD_and, getLsbD_not,
    getLsbD_nibble h start n hk, ← testBit_toNat (0x0F : BitVec 64), hmask,
    Nat.testBit_two_pow_sub_one]
  by_cases hlow : k < 4 <;> simp [hlow]

theorem packFragments_spread (h : ∀ t k, words t k = 0 ∨ words t k = 1) (rest : ℕ → BitVec 64)
    {vcBase : ℕ} (hhalf : (vcBase = 1 ∧ start = 0) ∨ (vcBase = 4 ∧ start = 12)) :
    packFragments (spread words rest) vcBase =
      (List.range 9).foldl
        (fun (packed : BitVec 64) n => (packed <<< 4) ||| nibble (halfOf words start) n) 0 := by
  have horder : List.range 9 = packOrder.map fun p => p.1 * 3 + p.2 := by decide
  rw [packFragments, horder, foldl_map]
  refine foldl_ext _ _ _ fun packed p hp => ?_
  obtain ⟨hcol, hrow⟩ : p.1 < 3 ∧ p.2 < 3 := by
    simp only [packOrder, mem_flatMap, mem_map, mem_range] at hp
    obtain ⟨col, hcol, row, hrow, rfl⟩ := hp
    exact ⟨hcol, hrow⟩
  have hdiv : ((vcBase + p.2) * 3 + p.1) / 3 = vcBase + p.2 := by omega
  have hmod : ((vcBase + p.2) * 3 + p.1) % 3 = p.1 := by omega
  have hvalue : (if ((vcBase + p.2) * 3 + p.1) / 3 < 4 then
      nibble (halfOf words 0) (((vcBase + p.2) * 3 + p.1) % 3 * 3 +
        (((vcBase + p.2) * 3 + p.1) / 3 - 1))
      else nibble (halfOf words 12) (((vcBase + p.2) * 3 + p.1) % 3 * 3 +
        (((vcBase + p.2) * 3 + p.1) / 3 - 4))) = nibble (halfOf words start) (p.1 * 3 + p.2) := by
    rw [hdiv, hmod]
    rcases hhalf with ⟨rfl, rfl⟩ | ⟨rfl, rfl⟩
    · rw [if_pos (by omega), Nat.add_sub_cancel_left]
    · rw [if_neg (by omega), Nat.add_sub_cancel_left]
  rw [spread_masked h rest hvalue]

theorem getLsbD_packFragments (h : ∀ t k, words t k = 0 ∨ words t k = 1) (rest : ℕ → BitVec 64)
    {vcBase : ℕ} (hhalf : (vcBase = 1 ∧ start = 0) ∨ (vcBase = 4 ∧ start = 12)) {n : ℕ}
    (hn : n < 36) : (packFragments (spread words rest) vcBase).getLsbD (35 - n) =
      decide (halfOf words start n = 1) := by
  have hdigit : ∀ i k, 4 ≤ k → (nibble (halfOf words start) i).getLsbD k = false := by
    intro i k hk
    by_cases hlt : k < 64
    · rw [getLsbD_nibble h start i hlt, decide_eq_false (by omega), Bool.false_and]
    · exact getLsbD_of_ge _ _ (not_lt.mp hlt)
  have hplace : 4 * (9 - 1 - (35 - n) / 4) + (3 - (35 - n) % 4) = n := by omega
  rw [packFragments_spread h rest hhalf, getLsbD_packed (by decide) hdigit 9 (by omega),
    decide_eq_true (by omega), Bool.true_and, getLsbD_nibble h start _ (by omega),
    decide_eq_true (by omega), Bool.true_and, hplace]

theorem bitOf_one {x : UInt8} (h : x = 0 ∨ x = 1) : bitOf (decide (x = 1)) = x := by
  rcases h with rfl | rfl <;> rfl

theorem extracted_eq (packed : BitVec 64) {shift : ℕ} (hs : shift < 36) :
    (⟨(((packed <<< shift) &&& 0x800000000) >>> 35).setWidth 8⟩ : UInt8) =
      bitOf (packed.getLsbD (35 - shift)) := by
  have hmask : (0x800000000 : BitVec 64) = BitVec.twoPow 64 35 := by decide
  have hbit : (packed <<< shift).getLsbD 35 = packed.getLsbD (35 - shift) := by
    rw [getLsbD_shiftLeft, decide_eq_true (by decide), decide_eq_false (by omega)]
    rfl
  rw [hmask, and_twoPow, hbit]
  cases packed.getLsbD (35 - shift) <;> rfl

theorem codeword_spread (h : ∀ t k, words t k = 0 ∨ words t k = 1) (rest : ℕ → BitVec 64) {t : ℕ}
    (ht : t < 3) (k : ℕ) :
    codeword (packFragments (spread words rest) 1) (packFragments (spread words rest) 4) t k =
      if k < 24 then words t k else 0 := by
  have hhalf : ∀ start i, i < 12 → halfOf words start (i + t * 12) = words t (start + i) := by
    intro start i hi
    have hdiv : (i + t * 12) / 12 = t := by omega
    have hmod : (i + t * 12) % 12 = i := by omega
    rw [halfOf, hdiv, hmod]
  rw [codeword]
  dsimp only
  by_cases hdata : k < 12
  · rw [if_pos hdata, if_pos (by omega), extracted_eq _ (by omega),
      getLsbD_packFragments h rest (Or.inl ⟨rfl, rfl⟩) (by omega), hhalf 0 k hdata, Nat.zero_add,
      bitOf_one (h t k)]
  · rw [if_neg hdata]
    by_cases hparity : k < 24
    · rw [if_pos hparity, if_pos hparity, extracted_eq _ (by omega),
        getLsbD_packFragments h rest (Or.inr ⟨rfl, rfl⟩) (by omega), hhalf 12 _ (by omega),
        Nat.add_sub_cancel' (not_lt.mp hdata), bitOf_one (h t k)]
    · rw [if_neg hparity, if_neg hparity]

theorem bitOf_cases (b : Bool) : bitOf b = 0 ∨ bitOf b = 1 := by
  cases b
  · exact Or.inl rfl
  · exact Or.inr rfl

theorem xor_bit {a b : UInt8} (ha : a = 0 ∨ a = 1) (hb : b = 0 ∨ b = 1) :
    a ^^^ b = 0 ∨ a ^^^ b = 1 := by
  rcases ha with rfl | rfl <;> rcases hb with rfl | rfl <;> decide

theorem crc4Step_bit {work : ℕ → UInt8} (h : ∀ k, work k = 0 ∨ work k = 1) (i k : ℕ) :
    crc4Step work i k = 0 ∨ crc4Step work i k = 1 := by
  have hpoly : ∀ j < 5, polynomial.getD j 0 = 0 ∨ polynomial.getD j 0 = 1 := by decide
  rw [crc4Step]
  split
  · exact h k
  · refine List.foldlRecOn (motive := fun w : ℕ → UInt8 => ∀ k, w k = 0 ∨ w k = 1)
      (List.range 5) _ h
      (fun w hw j hj k => ?_) k
    by_cases hk : k = i + j
    · subst hk
      rw [Function.update_self]
      exact xor_bit (hw _) (hpoly j (mem_range.mp hj))
    · rw [Function.update_of_ne hk]
      exact hw k

/-- The check bits are four. -/
theorem getLsbD_dmrCrc4 {bits : ℕ → UInt8} (h : ∀ k, bits k = 0 ∨ bits k = 1) (len : ℕ)
    (hk : 4 ≤ k) : (dmrCrc4 bits len).getLsbD k = false := by
  have hwork : ∀ k, (List.range len).foldl crc4Step (fun k => if k < len then bits k else 0) k = 0 ∨
      (List.range len).foldl crc4Step (fun k => if k < len then bits k else 0) k = 1 := by
    refine List.foldlRecOn (motive := fun w : ℕ → UInt8 => ∀ k, w k = 0 ∨ w k = 1) (List.range len)
      crc4Step (fun k => ?_) fun w hw i _ => crc4Step_bit hw i
    split
    · exact h k
    · exact Or.inl rfl
  have hinverted : ∀ k < 8, 4 ≤ k → (0x0F : BitVec 8).getLsbD k = false := by decide
  by_cases h8 : k < 8
  · rw [dmrCrc4]
    split
    · exact getLsbD_zero
    · have hbits := getLsbD_bits (w := 8) (fun n => hwork (len + n)) 4 h8
      simp only [setWidth_eq] at hbits
      rw [getLsbD_xor, hbits, decide_eq_false (by omega), hinverted k h8 hk]
      rfl
  · exact getLsbD_of_ge _ _ (not_lt.mp h8)

/-- The check bits are those of the message. -/
theorem dmrCrc4_congr {bits bits' : ℕ → UInt8} {len : ℕ} (h : ∀ k < len, bits k = bits' k) :
    dmrCrc4 bits len = dmrCrc4 bits' len := by
  have hstart : (fun k => if k < len then bits k else 0) =
      fun k => if k < len then bits' k else 0 := by
    ext1 k
    by_cases hk : k < len
    · rw [if_pos hk, if_pos hk, h k hk]
    · rw [if_neg hk, if_neg hk]
  rw [dmrCrc4, dmrCrc4, hstart]

theorem messageBits_bit (mi : BitVec 32) (i : ℕ) : messageBits mi i = 0 ∨ messageBits mi i = 1 := by
  rw [messageBits]
  split
  · exact bitOf_cases _
  · exact bitOf_cases _

theorem receivedWord_bit (mi : BitVec 32) (errors : ℕ → Finset ℕ) (t k : ℕ) :
    receivedWord mi errors t k = 0 ∨ receivedWord mi errors t k = 1 := by
  rw [receivedWord]
  split
  · exact xor_bit (encode_bit _ _) (Or.inr rfl)
  · exact encode_bit _ _

theorem decode_codeword (mi : BitVec 32) {errors : ℕ → Finset ℕ} {t : ℕ} (ht : t < 3)
    (hplaces : errors t ⊆ Finset.range 24) (hfew : (errors t).card ≤ 3) (rest : ℕ → BitVec 64) :
    decode (codeword (packFragments (spread (receivedWord mi errors) rest) 1)
      (packFragments (spread (receivedWord mi errors) rest) 4) t) =
        (true, clipped (sentWord mi t)) := by
  have hclipped : codeword (packFragments (spread (receivedWord mi errors) rest) 1)
      (packFragments (spread (receivedWord mi errors) rest) 4) t =
        clipped (receivedWord mi errors t) := by
    ext1 k
    rw [codeword_spread (receivedWord_bit mi errors) rest ht, clipped]
  rw [hclipped]
  exact decode_clipped (encode_isCodeword _) hplaces hfew fun k _ => rfl

theorem clipped_sentWord (mi : BitVec 32) (i : ℕ) :
    clipped (sentWord mi (i / 12)) (i % 12) = messageBits mi i := by
  have hmod : i % 12 < 12 := Nat.mod_lt _ (by decide)
  rw [clipped, if_pos (by omega), sentWord, encode_data (fun k _ => messageBits_bit mi _) hmod,
    Nat.div_add_mod]

/-- The message as the decoder keeps it. -/
def keptBits (mi : BitVec 32) : ℕ → UInt8 := fun i => if i < 36 then messageBits mi i else 0

theorem keptBits_bit (mi : BitVec 32) (i : ℕ) : keptBits mi i = 0 ∨ keptBits mi i = 1 := by
  rw [keptBits]
  split
  · exact messageBits_bit mi i
  · exact Or.inl rfl

/-- The indicator is read back from the message. -/
theorem foldl_mi (mi : BitVec 32) : (List.range 32).foldl (fun (packed : BitVec 32) i =>
    (packed <<< 1) ||| (keptBits mi i).toBitVec.setWidth 32) 0 = mi := by
  refine eq_of_getLsbD_eq fun k hk => ?_
  have hplace : 31 - (32 - 1 - k) = k := by omega
  rw [getLsbD_bits (keptBits_bit mi) 32 hk, decide_eq_true hk, Bool.true_and, keptBits,
    if_pos (by omega), messageBits, if_pos (by omega), miBitsOf, hplace]
  cases mi.getLsbD k <;> rfl

theorem foldl_crc (mi : BitVec 32) : (List.range 4).foldl (fun (crc : BitVec 8) i =>
    (crc <<< 1) ||| (keptBits mi (32 + i)).toBitVec) 0 = dmrCrc4 (miBitsOf mi) 32 := by
  refine eq_of_getLsbD_eq fun k hk => ?_
  have hread := getLsbD_bits (w := 8) (fun i => keptBits_bit mi (32 + i)) 4 hk
  simp only [setWidth_eq] at hread
  rw [hread]
  by_cases hlow : k < 4
  · have hplace : 35 - (32 + (4 - 1 - k)) = k := by omega
    rw [decide_eq_true hlow, Bool.true_and, keptBits, if_pos (by omega), messageBits,
      if_neg (by omega), hplace]
    cases (dmrCrc4 (miBitsOf mi) 32).getLsbD k <;> rfl
  · have hmiBits : ∀ i, miBitsOf mi i = 0 ∨ miBitsOf mi i = 1 := fun i => bitOf_cases _
    rw [decide_eq_false hlow, getLsbD_dmrCrc4 hmiBits 32 (not_lt.mp hlow)]
    rfl

theorem dmrCrc4_keptBits (mi : BitVec 32) :
    dmrCrc4 (keptBits mi) 32 = dmrCrc4 (miBitsOf mi) 32 := by
  refine dmrCrc4_congr fun k hk => ?_
  rw [keptBits, if_pos (by omega), messageBits, if_pos hk]

/-- Any three bits or fewer in error in each word leave the message indicator, and its check, as
they were sent. -/
theorem lateEntryDecode_received (mi : BitVec 32) (errors : ℕ → Finset ℕ)
    (hplaces : ∀ t < 3, errors t ⊆ Finset.range 24) (hfew : ∀ t < 3, (errors t).card ≤ 3)
    (rest : ℕ → BitVec 64) :
    lateEntryDecode (spread (receivedWord mi errors) rest) = (true, ⟨mi, true⟩) := by
  have hdecode : ∀ t < 3, decode (codeword
      (packFragments (spread (receivedWord mi errors) rest) 1)
      (packFragments (spread (receivedWord mi errors) rest) 4) t) =
        (true, clipped (sentWord mi t)) :=
    fun t ht => decode_codeword mi ht (hplaces t ht) (hfew t ht) rest
  have hbits : ∀ i, (if i < 36 then (decode (codeword
      (packFragments (spread (receivedWord mi errors) rest) 1)
      (packFragments (spread (receivedWord mi errors) rest) 4) (i / 12))).2 (i % 12) else 0) =
        keptBits mi i := by
    intro i
    rw [keptBits]
    by_cases hi : i < 36
    · rw [if_pos hi, if_pos hi, hdecode _ (by omega)]
      exact clipped_sentWord mi i
    · rw [if_neg hi, if_neg hi]
  have hpass : (List.range 3).all (fun t => (decode (codeword
      (packFragments (spread (receivedWord mi errors) rest) 1)
      (packFragments (spread (receivedWord mi errors) rest) 4) t)).1) = true := by
    refine all_eq_true.mpr fun t ht => ?_
    rw [hdecode t (mem_range.mp ht)]
  have hcheck := (foldl_crc mi).trans (dmrCrc4_keptBits mi).symm
  rw [lateEntryDecode]
  simp only [hpass, hbits, foldl_mi, decide_eq_true hcheck]

/-- Three bits in error in each of the words of one message. -/
theorem lateEntryDecode_received_three :
    lateEntryDecode (spread (receivedWord 0x12345678 fun _ => {0, 13, 23}) fun _ => 0) =
      (true, ⟨0x12345678, true⟩) :=
  lateEntryDecode_received 0x12345678 (fun _ => {0, 13, 23}) (fun _ _ => by decide)
    (fun _ _ => by decide) fun _ => 0

end DsdNeo.Dmr.LateEntry
