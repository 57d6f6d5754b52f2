import DsdNeo.Core.Bits.Digits
import DsdNeo.Core.Code.Checksum
import Mathlib.Data.Nat.Bitwise

/-!
# Frame checks

The checks at the end of control frames: a register over the bits, a division inside a buffer, an
array of taps. Each of them is the register of its polynomial, so no two frames that pass differ
in a burst of bits that fits in it.
-/

namespace DsdNeo.Fec.FrameChecks

open Checksum List BitVec

/-- The bits from `start`, shifted into a number: `convert_bits_into_output`, and the loops of
`crc16_ok`, `crc12_ok`, `crc8_ok` and `dpmr_extract_cch_crc`. -/
def bitsAt (bits : ℕ → Bool) (start count : ℕ) : ℕ :=
  Digits.number 2 (fun i => (bits (start + i)).toNat) count

/-- `ComputeCrcCCITT16b`. -/
def computeCrcCcitt16b (buf : ℕ → Bool) (len : ℕ) : BitVec 16 :=
  (List.range len).foldl
    (fun (crc : BitVec 16) i => if crc.msb ^^ buf i then crc <<< 1 ^^^ 0x1021 else crc <<< 1) 0
    ^^^ 0xFFFF

/-- A bit of the message divided out of `buf`. -/
def divideStep (poly buf : List Bool) (i : ℕ) : List Bool :=
  (List.range 256).map fun k =>
    buf.getD k false ^^ (buf.getD i false && decide (i ≤ k) && poly.getD (k - i) false)

/-- What the division of `crc12` and `crc8` leaves behind the message, as a number. -/
def remainder (poly : List Bool) (bits : ℕ → Bool) (len : ℕ) : ℕ :=
  let buf := (List.range len).foldl (divideStep poly)
    ((List.range 256).map fun i => decide (i < len) && bits i)
  bitsAt (buf.getD · false) len (poly.length - 1)

/-- `crc12` of `p25_crc.c`. -/
def crc12 (bits : ℕ → Bool) (len : ℕ) : ℕ :=
  if len + 12 > 256 then 0
  else remainder [true, true, false, false, false, true, false, false, true, false, true, true,
    true] bits len ^^^ 0xfff

/-- `crc8` of `dmr_utils.c`. -/
def crc8 (bits : ℕ → Bool) (len : ℕ) : ℕ :=
  if len + 8 > 256 then 0
  else remainder [true, false, false, false, false, false, true, true, true] bits len

/-- The check behind a message against the one computed: zero, or minus one as a `uint16_t`. -/
def compareCheck (k computed : ℕ) (bits : ℕ → Bool) (len cap : ℕ) : ℕ :=
  if k > cap ∨ len > cap ∨ len + k > cap then 65535
  else if bitsAt bits len k = computed then 0 else 65535

/-- `crc16_ok`. -/
def crc16Ok (bits : ℕ → Bool) (len cap : ℕ) : ℕ :=
  compareCheck 16 (computeCrcCcitt16b bits len).toNat bits len cap

/-- `crc12_ok`. -/
def crc12Ok (bits : ℕ → Bool) (len cap : ℕ) : ℕ :=
  compareCheck 12 (crc12 bits len) bits len cap

/-- `buf` of a bridge. -/
def bridged (payload : ℕ → Bool) (total i : ℕ) : Bool := decide (i < min total 190) && payload i

/-- `crc16_lb_bridge`. -/
def crc16LbBridge (payload : ℕ → Bool) (len : ℕ) : ℕ :=
  crc16Ok (bridged payload (len + 16)) len 190

/-- `crc12_xb_bridge`. -/
def crc12XbBridge (payload : ℕ → Bool) (len : ℕ) : ℕ :=
  crc12Ok (bridged payload (len + 12)) len 190

/-- `crc8_ok`. -/
def crc8Ok (bits : ℕ → Bool) (len : ℕ) : Bool := bitsAt bits len 8 == crc8 bits len

/-- A bit into the array `s` of an NXDN check: each entry moves up, and `a` is added to those with
a tap. -/
def tapStep (taps s : List Bool) (b : Bool) : List Bool :=
  let a := b ^^ s.getD 0 false
  (List.range taps.length).map fun i => s.getD (i + 1) false ^^ (a && taps.getD i false)

/-- An NXDN check over an array that starts from ones. -/
def tapCheck (taps : List Bool) (buf : ℕ → Bool) (len : ℕ) : ℕ :=
  let s := (List.range len).foldl (fun s i => tapStep taps s (buf i))
    (List.replicate taps.length true)
  bitsAt (s.getD · false) 0 taps.length

/-- `crc6`. -/
def crc6 : (ℕ → Bool) → ℕ → ℕ := tapCheck [true, false, false, true, true, true]

/-- `crc7_scch`. -/
def crc7Scch : (ℕ → Bool) → ℕ → ℕ := tapCheck [false, false, false, true, false, false, true]

/-- `crc12f`. -/
def crc12f : (ℕ → Bool) → ℕ → ℕ :=
  tapCheck [true, false, false, false, false, false, false, false, true, true, true, true]

/-- `crc15`. -/
def crc15 : (ℕ → Bool) → ℕ → ℕ :=
  tapCheck [true, false, false, true, true, false, false, true, true, false, false, false, true,
    false, true]

/-- The comparison of `nxdn_deperm_sacch_soft`. -/
def sacchPasses (trellis : ℕ → Bool) : Prop := crc6 trellis 26 = bitsAt trellis 26 6

/-- `crc7_scch` against `nxdn_scch_crc7_check_from_trellis`. -/
def scchPasses (trellis : ℕ → Bool) : Prop := crc7Scch trellis 25 = bitsAt trellis 25 7

/-- `nxdn_facch_crc12_payload_from_trellis` against `nxdn_facch_crc12_check_from_trellis`. -/
def facchPasses (trellis : ℕ → Bool) : Prop := crc12f trellis 80 = bitsAt trellis 80 12

/-- `nxdn_facch2_udch_crc15_payload_from_trellis` against
`nxdn_facch2_udch_crc15_check_from_trellis`. -/
def facch2Passes (trellis : ℕ → Bool) : Prop := crc15 trellis 184 = bitsAt trellis 184 15

/-- `dpmr_crc7`. -/
def dpmrCrc7 (input : ℕ → Bool) (bitLength : ℕ) : BitVec 8 :=
  (List.range bitLength).foldl (fun shiftRegister i =>
    if shiftRegister.getLsbD 6 ^^ input i then (shiftRegister <<< 1 ^^^ 0x09) &&& 0x7F
    else shiftRegister <<< 1 &&& 0x7F) 0

/-- `CrcOk` of `dpmr_decode_cch_frames`. -/
def cchPasses (cchBits : ℕ → Bool) : Prop := bitsAt cchBits 41 7 = (dpmrCrc7 cchBits 41).toNat

variable {n len : ℕ} {bits : ℕ → Bool}

variable {r : BitVec n}

/-- Bits that give the number of a state are its bits. -/
theorem getMsbD_of_bitsAt {start : ℕ} (h : bitsAt bits start n = r.toNat) :
    ∀ i < n, bits (start + i) = r.getMsbD i := by
  intro i hi
  have hdigit := Digits.digit_number (b := 2) (by decide) (n := n) (k := i)
    (f := fun i => (bits (start + i)).toNat) (fun k _ => Bool.toNat_lt _) hi
  rw [show Digits.number 2 (fun i => (bits (start + i)).toNat) n = r.toNat from h,
    ← Nat.toNat_testBit] at hdigit
  rw [BitVec.getMsbD, decide_eq_true hi, Bool.true_and, BitVec.getLsbD]
  exact ((by decide : ∀ a b : Bool, a.toNat = b.toNat → a = b) _ _ hdigit).symm

theorem bitsAt_eq {start : ℕ} (h : ∀ i < n, bits (start + i) = r.getMsbD i) :
    bitsAt bits start n = r.toNat := by
  have hnumber := Digits.number_digits (b := 2) r.isLt
  refine (Digits.number_congr fun i hi => ?_).trans hnumber
  rw [← Nat.toNat_testBit, h i hi, BitVec.getMsbD, decide_eq_true hi, Bool.true_and, BitVec.getLsbD]

variable (c : Cyclic n)

theorem getD_map_range (f : ℕ → Bool) (i : ℕ) :
    ((List.range n).map f).getD i false = (decide (i < n) && f i) := by
  by_cases hi : i < n <;> simp [getD_eq_getElem?_getD, hi]

/-- The polynomial as a list, the highest coefficient first. -/
def tapsOf : List Bool := (List.range n).map c.poly.getMsbD

theorem length_tapsOf : (tapsOf c).length = n := by simp [tapsOf]

theorem getD_tapsOf (i : ℕ) : (tapsOf c).getD i false = c.poly.getMsbD i := by
  rw [tapsOf, getD_map_range]
  by_cases hi : i < n
  · rw [decide_eq_true hi, Bool.true_and]
  · rw [decide_eq_false hi, getMsbD_of_ge _ _ (by omega), Bool.false_and]

/-- The array of an NXDN check holds the bits of the register. -/
theorem getD_tapped (len i : ℕ) : ((List.range len).foldl (fun s i => tapStep (tapsOf c) s (bits i))
    (List.replicate n true)).getD i false = (c.run (BitVec.allOnes n) bits len).getMsbD i := by
  induction len generalizing i with
  | zero => by_cases hi : i < n <;> simp [getD_eq_getElem?_getD, hi]
  | succ len ih =>
    rw [range_succ, foldl_append, foldl_cons, foldl_nil, c.run_succ, tapStep,
      length_tapsOf, getD_map_range, ih, ih, c.getMsbD_feed, getD_tapsOf,
      msb_eq_getMsbD_zero, Bool.xor_comm (bits len)]
    by_cases hi : i < n
    · rw [decide_eq_true hi, Bool.true_and]
    · rw [decide_eq_false hi, getMsbD_of_ge _ _ (by omega),
        getMsbD_of_ge _ i (by omega), Bool.and_false, Bool.xor_false, Bool.false_and]

/-- The buffer of a division holds the message with the register added ahead of the place. -/
theorem getD_divided (message : ℕ → Bool) (done k : ℕ) (hk : done ≤ k) (h256 : k < 256) :
    ((List.range done).foldl (divideStep (true :: tapsOf c)) ((List.range 256).map message)).getD k
      false = (message k ^^ (c.run 0#n message done).getMsbD (k - done)) := by
  induction done generalizing k with
  | zero =>
    rw [range_zero, foldl_nil, getD_map_range, decide_eq_true h256, Bool.true_and,
      c.run_zero, getMsbD_zero, Bool.xor_false]
  | succ done ih =>
    have hnext : k - done = k - (done + 1) + 1 := by omega
    rw [@range_succ done, foldl_append, foldl_cons, foldl_nil, c.run_succ,
      divideStep, getD_map_range, decide_eq_true h256, Bool.true_and, ih k (by omega) h256,
      ih done (Nat.le_refl _) (by omega), c.getMsbD_feed, Nat.sub_self, hnext,
      getD_cons_succ, getD_tapsOf, decide_eq_true (show done ≤ k by omega), Bool.and_true,
      ← msb_eq_getMsbD_zero, Bool.xor_comm (message done), Bool.xor_assoc]

/-- A message is sealed by the bits behind it if they are the number of the state it leaves. -/
theorem sealed_of_bitsAt (h : bitsAt bits len n = (c.run r bits len).toNat) :
    c.Sealed r 0#n bits len := by
  intro i hi
  rw [getMsbD_of_bitsAt h i hi, xor_zero]

theorem sealed_of_tapCheck (h : tapCheck (tapsOf c) bits len = bitsAt bits len n) :
    c.Sealed (BitVec.allOnes n) 0#n bits len := by
  refine sealed_of_bitsAt c (h.symm.trans ?_)
  rw [tapCheck, length_tapsOf]
  refine bitsAt_eq fun i _ => ?_
  rw [Nat.zero_add, getD_tapped]

/-- The remainder of a division is the number of the register. -/
theorem remainder_eq (hfits : len + n ≤ 256) :
    remainder (true :: tapsOf c) bits len = (c.run 0#n bits len).toNat := by
  rw [remainder, length_cons, length_tapsOf, Nat.add_sub_cancel]
  refine bitsAt_eq fun i hi => ?_
  have hmessage : ∀ i < len, (decide (i < len) && bits i) = bits i := fun i hi => by
    rw [decide_eq_true hi, Bool.true_and]
  rw [getD_divided c _ _ _ (by omega) (by omega), Nat.add_sub_cancel_left,
    decide_eq_false (by omega), Bool.false_and, Bool.false_xor, c.run_congr hmessage]

/-- What a bridge returns zero for is sealed, where it compares with the register. -/
theorem sealed_of_bridge (mask : BitVec n) {computed : ℕ} {payload : ℕ → Bool}
    (h : compareCheck n computed (bridged payload (len + n)) len 190 = 0)
    (hcomputed : len + n ≤ 190 →
      computed = (c.run 0#n (bridged payload (len + n)) len ^^^ mask).toNat) :
    c.Sealed 0#n mask payload len := by
  rw [compareCheck] at h
  split_ifs at h with hcap heq
  have hfits : len + n ≤ 190 := by omega
  have hsame : ∀ i < len + n, bridged payload (len + n) i = payload i := fun i hi => by
    rw [bridged, decide_eq_true (by omega), Bool.true_and]
  intro i hi
  rw [← hsame (len + i) (by omega), getMsbD_of_bitsAt (heq.trans (hcomputed hfits)) i hi,
    c.run_congr fun i hi => hsame i (by omega)]

/-- The register of `dpmr_crc7`. -/
def dpmr7 : Cyclic 7 := ⟨0x09, rfl⟩

theorem dpmrCrc7_eq (bits : ℕ → Bool) (len : ℕ) :
    dpmrCrc7 bits len = (dpmr7.run 0 bits len).setWidth 8 := by
  have hstep : ∀ (r : BitVec 7) (b : Bool),
      (if (r.setWidth 8).getLsbD 6 ^^ b then (r.setWidth 8 <<< 1 ^^^ 0x09) &&& 0x7F
        else r.setWidth 8 <<< 1 &&& 0x7F) = (dpmr7.feed r b).setWidth 8 := by
    decide
  induction len with
  | zero => rfl
  | succ len ih =>
    rw [dpmrCrc7] at ih ⊢
    rw [range_succ, foldl_append, foldl_cons, foldl_nil, ih, hstep, dpmr7.run_succ]

/-- The register of `ComputeCrcCCITT16b`. -/
def ccitt16 : Cyclic 16 := ⟨0x1021, rfl⟩

/-- The register of `crc12`. -/
def p25Crc12 : Cyclic 12 := ⟨0x897, rfl⟩

/-- The register of `crc8`. -/
def dmrCrc8 : Cyclic 8 := ⟨0x07, rfl⟩

/-- No frame that a check of the program passes differs from another that it passes in one burst of
as many bits as the check has. -/
theorem frame_checks_tell_bursts :
    (∀ len, TellsBursts 16 (len + 16) (crc16LbBridge · len = 0)) ∧
    (∀ len, TellsBursts 12 (len + 12) (crc12XbBridge · len = 0)) ∧
    (∀ len, len + 8 ≤ 256 → TellsBursts 8 (len + 8) (crc8Ok · len = true)) ∧
    TellsBursts 6 32 sacchPasses ∧ TellsBursts 7 32 scchPasses ∧
    TellsBursts 12 92 facchPasses ∧ TellsBursts 15 199 facch2Passes ∧
    TellsBursts 7 48 cchPasses := by
  refine ⟨fun len => ?_, fun len => ?_, fun len hfits => ?_, ?_, ?_, ?_, ?_, ?_⟩
  · exact ccitt16.tellsBursts fun w hw => sealed_of_bridge _ 0xFFFF hw fun _ => rfl
  · refine p25Crc12.tellsBursts fun w hw => sealed_of_bridge _ 0xFFF hw fun hfits => ?_
    rw [crc12, if_neg (by omega), toNat_xor, ← remainder_eq p25Crc12 (by omega)]
    rfl
  · refine dmrCrc8.tellsBursts (r := 0#8) fun w hw => sealed_of_bitsAt _ ?_
    have hcheck := beq_iff_eq.mp hw
    rw [crc8, if_neg (by omega)] at hcheck
    exact hcheck.trans (remainder_eq dmrCrc8 hfits)
  · exact Cyclic.tellsBursts ⟨0x27#6, rfl⟩ fun w hw => sealed_of_tapCheck _ hw
  · exact Cyclic.tellsBursts ⟨0x09#7, rfl⟩ fun w hw => sealed_of_tapCheck _ hw
  · exact Cyclic.tellsBursts ⟨0x80F#12, rfl⟩ fun w hw => sealed_of_tapCheck _ hw
  · exact Cyclic.tellsBursts ⟨0x4CC5#15, rfl⟩ fun w hw => sealed_of_tapCheck _ hw
  · refine dpmr7.tellsBursts (r := 0#7) fun w hw => sealed_of_bitsAt _ ?_
    rwa [cchPasses, dpmrCrc7_eq, toNat_setWidth_of_le (by decide)] at hw

end DsdNeo.Fec.FrameChecks
