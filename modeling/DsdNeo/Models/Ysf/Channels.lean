import DsdNeo.Models.Fec.Golay2412
import DsdNeo.Models.M17.Codec
import DsdNeo.Models.M17.Viterbi

/-!
# The channels of System Fusion

The frame information and the data channels are interleaved in twenty columns, coded at rate one
half and read by the soft decoder of link setup frames, whose output begins with a lead of one
byte. The words of the frame information are Golay words besides, and the payload of a data channel
is whitened.
-/

namespace DsdNeo.Ysf

open Trellis HalfRate M17 Fec Reorder List

/-- A bit of a byte array. -/
def bitByte (b : Bool) : UInt8 := if b then 1 else 0

/-- A bit shifted into the remainder of `ysf_crc16`. -/
def crcBit (crc : BitVec 32) (bit : UInt8) : BitVec 32 :=
  let crc := (crc <<< 1 ||| (bit &&& 1).toBitVec.setWidth 32) &&& 0x1ffff
  if crc &&& 0x10000 ≠ 0 then (crc &&& 0xffff) ^^^ 0x1021 else crc

/-- `ysf_crc16`. -/
def ysfCrc16 (bits : List UInt8) : BitVec 16 := ((bits.foldl crcBit 0) ^^^ 0xffff).setWidth 16

/-- `DSD_YSF_PN95_TABLE_BITS`. -/
def pn95TableBits : ℕ := 512

/-- `DSD_YSF_PN95_SEED`. -/
def pn95Seed : BitVec 16 := 0x1C9

/-- `ysf_pn95_next`: the bit, and the register after it. -/
def pn95Next (lfsr : BitVec 16) : UInt8 × BitVec 16 :=
  let feedback := (lfsr >>> 4 ^^^ lfsr) &&& 1
  (⟨(lfsr &&& 1).setWidth 8⟩, lfsr >>> 1 ||| feedback <<< 8)

/-- `dsd_ysf_pn95_bit`. -/
def pn95Bit (bitIndex : ℕ) : UInt8 :=
  (pn95Next ((fun lfsr => (pn95Next lfsr).2)^[bitIndex % pn95TableBits] pn95Seed)).1

/-- The loops of `dsd_ysf_dewhiten_bits`: the bits since the register was last started, the
register and the bits left. -/
def dewhitenLoop : ℕ → BitVec 16 → List UInt8 → List UInt8
  | _, _, [] => []
  | i, lfsr, bit :: bits =>
    let start := if i < pn95TableBits then (i, lfsr) else (0, pn95Seed)
    (bit ^^^ (pn95Next start.2).1) :: dewhitenLoop (start.1 + 1) (pn95Next start.2).2 bits

/-- `dsd_ysf_dewhiten_bits`. -/
def dewhitenBits (bits : List UInt8) (bitCount : ℕ) : List UInt8 :=
  dewhitenLoop 0 pn95Seed (bits.take bitCount) ++ bits.drop bitCount

/-- `ysf_dibit_to_soft_costs`. -/
def dibitToSoftCosts (dibit : UInt8) : List ℕ :=
  [if dibit &&& 2 ≠ 0 then 0xFFFF else 0, if dibit &&& 1 ≠ 0 then 0xFFFF else 0]

/-- The loop of `viterbi_decode_punctured`: the room left in its buffer, the values left and the
place in the pattern. -/
def unpuncture (punct : List ℕ) : ℕ → List ℕ → ℕ → Option (List ℕ)
  | _, [], _ => some []
  | 0, _ :: _, _ => none
  | room + 1, x :: input, p =>
    if punct.getD p 0 ≠ 0 then
      (unpuncture punct room input ((p + 1) % punct.length)).map (x :: ·)
    else (unpuncture punct room (x :: input) ((p + 1) % punct.length)).map (0x7FFF :: ·)

/-- `viterbi_decode_punctured`: the bytes and the cost. -/
def viterbiDecodePunctured (out input punct : List ℕ) : Option (List ℕ × ℕ) :=
  (unpuncture punct 488 input 0).map fun umsg =>
    let r := viterbiDecode out umsg
    (r.1, (r.2 + 2 ^ 32 - (umsg.length - input.length) * 0x7FFF % 2 ^ 32) % 2 ^ 32)

/-- `DSD_YSF_PUNCTURE_NONE`. -/
def punctureNone : List ℕ := [1, 1, 1, 1]

/-- What `dsd_ysf_soft_viterbi_decode` returns and leaves in its output arrays. -/
structure SoftDecoded where
  error : ℕ
  outBits : List UInt8
  outBytes : List ℕ

/-- `dsd_ysf_soft_viterbi_decode`. -/
def softViterbiDecode (dibits : List UInt8) (decodedBytes offsetBits outputBits : ℕ)
    (outBits : List UInt8) (outBytes : List ℕ) : Option SoftDecoded :=
  if 244 < dibits.length ∨ decodedBytes = 0 ∨ 64 ≤ decodedBytes ∨ outputBits = 0 ∨
      outputBits % 8 ≠ 0 then some ⟨2 ^ 32 - 1, outBits, outBytes⟩
  else if (decodedBytes + 1) * 8 < offsetBits ∨
      (decodedBytes + 1) * 8 - offsetBits < outputBits then some ⟨2 ^ 32 - 1, outBits, outBytes⟩
  else
    (viterbiDecodePunctured (List.replicate 64 0) (dibits.flatMap dibitToSoftCosts)
      punctureNone).map fun r =>
        let temp := Bytes.bitsOf (r.1.take (decodedBytes + 1))
        let bits := (temp.drop offsetBits).take outputBits
        ⟨r.2, bits.map bitByte ++ outBits.drop outputBits,
          Bytes.pack bits ++ outBytes.drop (outputBits / 8)⟩

/-- The reading out of twenty columns of so many dibits. -/
def deinterleave (m : ℕ) (input : List UInt8) : List UInt8 :=
  (List.range (20 * m)).map fun k => input.getD (k / m + k % m * 20) 0

/-- A word of `ysf_conv_fich`. -/
def fichWord (trellisBuf : List UInt8) (i : ℕ) : ℕ → UInt8 :=
  fun j => trellisBuf.getD (i * 24 + j) 0

/-- The corrected bits of `ysf_conv_fich`, by whether each word was. -/
def fichBits (trellisBuf : List UInt8) : List UInt8 :=
  (List.range 4).flatMap fun i =>
    (List.range 12).map (Golay2412.decode (fichWord trellisBuf i)).2

/-- `ysf_conv_fich`: the status, the bits and the cost. -/
def convFich (input : List UInt8) : Option (ℤ × List UInt8 × ℕ) :=
  (softViterbiDecode (deinterleave 5 input) 13 8 96 (List.replicate 100 0)
    (List.replicate 100 0)).map fun r =>
      let err := if ∀ i < 4, (Golay2412.decode (fichWord r.outBits i)).1 = true then 0 else -1
      let err := if ysfCrc16 (fichBits r.outBits) ≠ 0 then -2 else err
      (err, (fichBits r.outBits).take 32, r.error)

/-- What a data channel is read with. -/
structure FrameInfo where
  bn : UInt8
  bt : UInt8
  fn : UInt8
  ft : UInt8
  cm : UInt8

/-- What the reading of a data channel returns, hands to its parser, and prints. -/
structure DchRead where
  err : ℤ
  parsed : Option (FrameInfo × List UInt8)
  error : ℕ
  mData : List ℕ

/-- The two data channels alike: the dibits of a column, the bytes decoded, the bits they check and
those that are whitened. -/
def convDchOf (m decodedBytes crcBits payloadBits size : ℕ) (info : FrameInfo)
    (input : List UInt8) : Option DchRead :=
  (softViterbiDecode (deinterleave m input) decodedBytes 8 crcBits (List.replicate size 0)
    (List.replicate 100 0)).map fun r =>
      let err := if ysfCrc16 (r.outBits.take crcBits) ≠ 0 then -2 else 0
      let trellisBuf := dewhitenBits r.outBits payloadBits
      { err := err
        parsed := if err = 0 then some (info, trellisBuf) else none
        error := r.error
        mData := Bytes.pack ((trellisBuf.take crcBits).map fun bit => bit &&& 1 == 1) }

/-- `ysf_conv_dch2`. -/
def convDch2 : FrameInfo → List UInt8 → Option DchRead := convDchOf 5 13 96 80 100

/-- `ysf_conv_dch`. -/
def convDch : FrameInfo → List UInt8 → Option DchRead := convDchOf 9 23 176 160 190

/-- The remainder once a bit is in, as a linear map of both. -/
def crcFeed (crc : BitVec 32) (b : Bool) : BitVec 32 :=
  ((crc <<< 1 ^^^ bif b then 1 else 0) &&& 0xffff) ^^^ bif crc.getLsbD 15 then 0x1021 else 0

theorem crcBit_bitByte (crc : BitVec 32) (b : Bool) : crcBit crc (bitByte b) = crcFeed crc b := by
  have hin : crc <<< 1 ||| (bitByte b &&& 1).toBitVec.setWidth 32 =
      crc <<< 1 ^^^ bif b then 1 else 0 := by
    ext i hi
    by_cases h0 : i = 0
    · subst h0
      cases b <;> simp [bitByte]
    · cases b <;> simp [bitByte, h0]
  have htop : crc.getLsbD 15 = (crc <<< 1 ^^^ bif b then 1 else 0 : BitVec 32).getLsbD 16 := by
    cases b <;> simp
  rw [crcBit, crcFeed, hin, htop]
  generalize (crc <<< 1 ^^^ bif b then 1 else 0 : BitVec 32) = x
  have hover : x &&& 0x10000 = bif x.getLsbD 16 then 0x10000 else 0 := by
    refine (BitVec.and_twoPow x 16).trans ?_
    cases x.getLsbD 16 <;> rfl
  have hmask : (0x1ffff : BitVec 32) = 0xffff ^^^ 0x10000 := by decide
  have hsplit : x &&& 0x1ffff = (x &&& 0xffff) ^^^ (x &&& 0x10000) := by
    rw [hmask, BitVec.and_comm, Bits.xor_and, BitVec.and_comm, BitVec.and_comm x 0x10000]
  have hcarry : x &&& 0x1ffff &&& 0x10000 = x &&& 0x10000 := by
    rw [BitVec.and_assoc]
    rfl
  have hrest : x &&& 0x1ffff &&& 0xffff = x &&& 0xffff := by
    rw [BitVec.and_assoc]
    rfl
  rw [hcarry, hrest, hsplit, hover]
  cases x.getLsbD 16 <;> simp

theorem crcFeed_xor (x y : BitVec 32) (a b : Bool) :
    crcFeed (x ^^^ y) (a ^^ b) = crcFeed x a ^^^ crcFeed y b := by
  have hbit : ∀ (p : BitVec 32) (a b : Bool), (bif a ^^ b then p else 0) =
      (bif a then p else 0) ^^^ (bif b then p else 0) := by
    intro p a b
    cases a <;> cases b <;> simp
  rw [crcFeed, crcFeed, crcFeed, BitVec.shiftLeft_xor_distrib, BitVec.getLsbD_xor, hbit, hbit]
  simp only [Bits.xor_and]
  ac_rfl

theorem crcFeed_and (crc : BitVec 32) (b : Bool) : crcFeed crc b &&& 0xffff = crcFeed crc b := by
  have hpoly : ∀ c : Bool, (bif c then 0x1021 else 0 : BitVec 32) &&& 0xffff =
      bif c then 0x1021 else 0 := by decide
  rw [crcFeed, Bits.xor_and, hpoly, BitVec.and_assoc]
  rfl

variable {word : BitVec 32}

theorem getLsbD_of_and (hword : word &&& 0xffff = word) {i : ℕ} (hi : 16 ≤ i) :
    word.getLsbD i = false := by
  have hmask : (0xffff : BitVec 32).getLsbD i = false := by
    by_cases h : i < 32
    · interval_cases i <;> rfl
    · exact BitVec.getLsbD_of_ge _ _ (by omega)
  rw [← hword, BitVec.getLsbD_and, hmask, Bool.and_false]

theorem crcFeed_shift (hword : word &&& 0xffff = word) {k : ℕ} (hk : k < 16) :
    crcFeed (word >>> (16 - k)) (word.getLsbD (15 - k)) = word >>> (15 - k) := by
  have htop : (word >>> (16 - k)).getLsbD 15 = false := by
    rw [BitVec.getLsbD_ushiftRight]
    exact getLsbD_of_and hword (by omega)
  have hone : ∀ (b : Bool) (i : ℕ), (bif b then 1 else 0 : BitVec 32).getLsbD i =
      (b && decide (i = 0)) := by
    intro b i
    cases b <;> simp
  rw [crcFeed, htop, cond_false]
  refine BitVec.xor_zero.trans (BitVec.eq_of_getLsbD_eq fun i hi => ?_)
  rw [BitVec.getLsbD_and, BitVec.getLsbD_xor, hone, BitVec.getLsbD_ushiftRight]
  by_cases hi16 : i < 16
  · have hmask : (0xffff : BitVec 32).getLsbD i = true := by
      interval_cases i <;> rfl
    rw [hmask, Bool.and_true, BitVec.getLsbD_shiftLeft]
    rcases i with _ | i
    · simp
    · have hplace : 16 - k + i = 15 - k + (i + 1) := by omega
      simp [hi, hplace]
  · have hmask : (0xffff : BitVec 32).getLsbD i = false := by
      interval_cases i <;> rfl
    rw [hmask, Bool.and_false, getLsbD_of_and hword (by omega)]

/-- The bits of a word of sixteen, highest first. -/
def wordBits (word : BitVec 32) : List Bool := (List.range 16).map fun i => word.getLsbD (15 - i)

theorem foldl_crcFeed (hword : word &&& 0xffff = word) (crc : BitVec 32) :
    (wordBits word).foldl crcFeed crc = (List.replicate 16 false).foldl crcFeed crc ^^^ word := by
  suffices hall : ∀ k, k ≤ 16 →
      ((List.range k).map fun i => word.getLsbD (15 - i)).foldl crcFeed crc =
        (List.replicate k false).foldl crcFeed crc ^^^ (word >>> (16 - k)) by
    exact (hall 16 le_rfl).trans (by rw [Nat.sub_self, BitVec.ushiftRight_zero])
  intro k hk
  induction k with
  | zero =>
    have hnone : word >>> 16 = 0 := by
      refine BitVec.eq_of_getLsbD_eq fun i hi => ?_
      rw [BitVec.getLsbD_ushiftRight, getLsbD_of_and hword (by omega)]
      exact BitVec.getLsbD_zero.symm
    rw [Nat.sub_zero, hnone]
    exact BitVec.xor_zero.symm
  | succ k ih =>
    have hshift : 16 - (k + 1) = 15 - k := by omega
    rw [range_succ, map_append, foldl_append, ih (by omega), map_singleton,
      foldl_cons, foldl_nil, replicate_succ', foldl_append, foldl_cons,
      foldl_nil, hshift, ← crcFeed_shift hword (by omega), ← crcFeed_xor, Bool.false_xor]

theorem foldl_crcBit (bits : List Bool) (crc : BitVec 32) :
    (bits.map bitByte).foldl crcBit crc = bits.foldl crcFeed crc := by
  induction bits generalizing crc with
  | nil => rfl
  | cons b bits ih => rw [map_cons, foldl_cons, crcBit_bitByte, ih, foldl_cons]

/-- Every message has a check. -/
theorem exists_crc (message : List Bool) :
    ∃ crc : List Bool, crc.length = 16 ∧ ysfCrc16 ((message ++ crc).map bitByte) = 0 := by
  obtain ⟨r, hr⟩ : ∃ r, r = message.foldl crcFeed 0 := ⟨_, rfl⟩
  obtain ⟨z, hz⟩ : ∃ z, z = (List.replicate 16 false).foldl crcFeed r := ⟨_, rfl⟩
  have hmask : z &&& 0xffff = z := by
    rw [hz, show (16 : ℕ) = 15 + 1 from rfl, replicate_succ', foldl_append]
    exact crcFeed_and _ _
  have hword : (z ^^^ 0xffff) &&& 0xffff = z ^^^ 0xffff := by
    rw [Bits.xor_and, hmask, BitVec.and_self]
  refine ⟨wordBits (z ^^^ 0xffff), by simp [wordBits], ?_⟩
  rw [ysfCrc16, foldl_crcBit, foldl_append, ← hr, foldl_crcFeed hword, ← hz,
    ← BitVec.xor_assoc, BitVec.xor_self, BitVec.zero_xor, BitVec.xor_self]
  rfl

theorem pn95Bit_eq (k : ℕ) : pn95Bit k = bitByte (pn95Bit k == 1) := by
  have hbit : ∀ lfsr : BitVec 16, (pn95Next lfsr).1 = bitByte ((pn95Next lfsr).1 == 1) := by
    intro lfsr
    have hlow : (lfsr &&& 1).setWidth 8 = 0#8 ∨ (lfsr &&& 1).setWidth 8 = 1#8 := by
      have h : lfsr &&& 1 = BitVec.setWidth 16 (BitVec.ofBool (lfsr.getLsbD 0)) :=
        BitVec.and_one_eq_setWidth_ofBool_getLsbD
      rw [h]
      cases lfsr.getLsbD 0
      · exact .inl rfl
      · exact .inr rfl
    rcases hlow with h | h <;> simp only [pn95Next, h] <;> rfl
  exact hbit _

/-- The bits whitened from a place in the sequence on. -/
def whitened : ℕ → List Bool → List Bool
  | _, [] => []
  | k, b :: bits => (b ^^ (pn95Bit k == 1)) :: whitened (k + 1) bits

@[simp] theorem length_whitened (k : ℕ) (bits : List Bool) :
    (whitened k bits).length = bits.length := by
  induction bits generalizing k with
  | nil => rfl
  | cons b bits ih => rw [whitened, length_cons, ih, length_cons]

theorem dewhitenLoop_whitened {i k : ℕ} (hi : i ≤ pn95TableBits)
    (hk : k % pn95TableBits = i % pn95TableBits) (bits : List Bool) :
    dewhitenLoop i ((fun lfsr => (pn95Next lfsr).2)^[i] pn95Seed) ((whitened k bits).map bitByte) =
      bits.map bitByte := by
  have hxor : ∀ a b : Bool, bitByte (a ^^ b) ^^^ bitByte b = bitByte a := by decide
  induction bits generalizing i k with
  | nil => rfl
  | cons b bits ih =>
    have hstart : (if i < pn95TableBits then
          (i, (fun lfsr => (pn95Next lfsr).2)^[i] pn95Seed) else (0, pn95Seed)) =
        (k % pn95TableBits, (fun lfsr => (pn95Next lfsr).2)^[k % pn95TableBits] pn95Seed) := by
      rw [hk]
      by_cases hlt : i < pn95TableBits
      · rw [if_pos hlt, Nat.mod_eq_of_lt hlt]
      · rw [if_neg hlt, Nat.le_antisymm hi (not_lt.mp hlt), Nat.mod_self]
        rfl
    have hnow : (pn95Next ((fun lfsr => (pn95Next lfsr).2)^[k % pn95TableBits] pn95Seed)).1 =
        bitByte (pn95Bit k == 1) := by
      rw [← pn95Bit_eq, pn95Bit]
    have hroom := Nat.mod_lt k (show 0 < pn95TableBits by decide)
    have hnext := ih (i := k % pn95TableBits + 1) (k := k + 1) hroom (by rw [Nat.mod_add_mod])
    rw [Function.iterate_succ_apply'] at hnext
    rw [whitened, map_cons, dewhitenLoop, map_cons]
    simp only [hstart]
    rw [hnow, hxor, hnext]

theorem dewhitenBits_whitened (payload : List Bool) (rest : List UInt8) :
    dewhitenBits ((whitened 0 payload).map bitByte ++ rest) payload.length =
      payload.map bitByte ++ rest := by
  have hlen : ((whitened 0 payload).map bitByte).length = payload.length := by simp
  rw [dewhitenBits, take_left' hlen, drop_left' hlen]
  exact congrArg (· ++ rest) (dewhitenLoop_whitened (Nat.zero_le _) rfl payload)

/-- The dibits of coded bits, two at a time. -/
def dibitsOf : List Bool → List UInt8
  | b1 :: b0 :: bits => ((if b1 then 2 else 0) ||| (if b0 then 1 else 0)) :: dibitsOf bits
  | _ => []

/-- The order of sending, column by column. -/
def interleave (m : ℕ) (dibits : List UInt8) : List UInt8 :=
  (List.range (20 * m)).map fun k => dibits.getD (k / 20 + k % 20 * m) 0

/-- The dibits sent for a message: its code with the tail, interleaved. -/
def sent (m : ℕ) (message : List Bool) : List UInt8 :=
  interleave m (dibitsOf (convolutionEncodeBits (message ++ List.replicate 4 false)))

theorem costs_dibitsOf : ∀ {coded : List Bool}, coded.length % 2 = 0 →
    (dibitsOf coded).flatMap dibitToSoftCosts = coded.map fun b => bif b then 0xFFFF else 0
  | [], _ => rfl
  | [_], h => by simp at h
  | b1 :: b0 :: bits, h => by
    have hone : ∀ b1 b0 : Bool,
        dibitToSoftCosts ((if b1 then 2 else 0) ||| (if b0 then 1 else 0)) =
          [bif b1 then 0xFFFF else 0, bif b0 then 0xFFFF else 0] := by decide
    have heven : bits.length % 2 = 0 := by
      simp only [length_cons] at h
      omega
    rw [dibitsOf, flatMap_cons, hone, costs_dibitsOf heven]
    rfl

theorem length_dibitsOf : ∀ coded : List Bool, (dibitsOf coded).length = coded.length / 2
  | [] => rfl
  | [_] => by simp [dibitsOf]
  | _ :: _ :: bits => by
    rw [dibitsOf, length_cons, length_dibitsOf bits, length_cons, length_cons]
    omega

theorem deinterleave_interleave {m : ℕ} (hm : 0 < m) {dibits : List UInt8}
    (hlen : dibits.length = 20 * m) : deinterleave m (interleave m dibits) = dibits := by
  refine ext_getElem (by simp [deinterleave, hlen]) fun k hk _ => ?_
  have hk' : k < 20 * m := by simpa [deinterleave] using hk
  have hcolumn : k / m < 20 := (Nat.div_lt_iff_lt_mul hm).mpr hk'
  have hrow := Nat.mod_lt k hm
  have hback : k % m + k / m * m = k := Nat.mod_add_div' k m
  simp only [deinterleave, interleave, getElem_map, getElem_range]
  generalize k / m = column at *
  generalize k % m = row at *
  have hplace : column + row * 20 < 20 * m := by omega
  have hdiv : (column + row * 20) / 20 = row := by omega
  have hmod : (column + row * 20) % 20 = column := by omega
  rw [getD_eq_getElem _ _ (by simpa using hplace), getElem_map, getElem_range]
  simp only [hdiv, hmod, hback]
  exact getD_eq_getElem _ _ (by omega)

theorem unpuncture_none {room p : ℕ} (input : List ℕ) (hroom : input.length ≤ room) (hp : p < 4) :
    unpuncture punctureNone room input p = some input := by
  induction input generalizing room p with
  | nil => cases room <;> rfl
  | cons x input ih =>
    obtain _ | room := room
    · exact absurd hroom (by simp)
    · have hkeep : punctureNone.getD p 0 ≠ 0 := by
        interval_cases p <;> decide
      have hnext : (p + 1) % punctureNone.length < 4 := Nat.mod_lt _ four_pos
      rw [unpuncture, if_pos hkeep, ih (by simpa using hroom) hnext]
      rfl

/-- Nothing is punctured. -/
def whole (n : ℕ) : List Bool := List.replicate (2 * n) true

theorem received_whole (coded : List Bool) {n : ℕ} (h : coded.length = 2 * n) :
    received 0xFFFF 0x7FFF (whole n) coded = coded.map fun b => bif b then 0xFFFF else 0 := by
  have hall : ∀ values : List ℕ,
      List.zipWith (fun m x => bif m then x else 0x7FFF) (List.replicate values.length true)
        values = values := by
    intro values
    induction values with
    | nil => rfl
    | cons x values ih => exact congrArg (x :: ·) ih
  have hlen : 2 * n = (coded.map fun b => bif b then 0xFFFF else 0).length := by
    rw [length_map, h]
  rw [received, masked, whole, hlen, hall]

private theorem separation :
    (LinearCode.agreements (charges 0xFFFF 1 2 100 (whole 100)) <
      code.leastCharge (2 ^ 32) (fun _ => true) (charges 0xFFFF 1 2 100 (whole 100))) ∧
    LinearCode.agreements (charges 0xFFFF 1 2 180 (whole 180)) <
      code.leastCharge (2 ^ 32) (fun _ => true) (charges 0xFFFF 1 2 180 (whole 180)) := by
  constructor <;> decide +kernel

theorem softViterbiDecode_sent {message : List Bool} {n m : ℕ} (hn : message.length + 4 = n)
    (hfull : message.length % 8 = 0) (hm : 20 * m = n) (hpos : 0 < m) (hle : n ≤ 244)
    (hseparated : LinearCode.agreements (charges 0xFFFF 1 2 n (whole n)) <
      code.leastCharge (2 ^ 32) (fun _ => true) (charges 0xFFFF 1 2 n (whole n)))
    (outBits : List UInt8) (outBytes : List ℕ) :
    ∃ error, softViterbiDecode (deinterleave m (sent m message)) (message.length / 8 + 1) 8
        message.length outBits outBytes =
      some ⟨error, message.map bitByte ++ outBits.drop message.length,
        Bytes.pack message ++ outBytes.drop (message.length / 8)⟩ := by
  have hcoded : (codedStream 0 (message ++ List.replicate 4 false)).length = 2 * n := by
    rw [length_codedStream, length_append, length_replicate, hn]
  have hdibits : (dibitsOf (codedStream 0 (message ++ List.replicate 4 false))).length = n := by
    rw [length_dibitsOf, hcoded]
    omega
  have hcosts : (dibitsOf (codedStream 0 (message ++ List.replicate 4 false))).flatMap
      dibitToSoftCosts =
        received 0xFFFF 0x7FFF (whole n) (codedStream 0 (message ++ List.replicate 4 false)) := by
    rw [costs_dibitsOf (by omega), received_whole _ hcoded]
  have hprices := @prices_received 0xFFFF 0x7FFF 1 (by omega) (by omega) (by omega) (whole n)
    (message ++ List.replicate 4 false) (by simp [whole, hn])
  have hlength : (received 0xFFFF 0x7FFF (whole n)
      (codedStream 0 (message ++ List.replicate 4 false))).length = 2 * n := by
    rw [received_whole _ hcoded, length_map, hcoded]
  have hinput : (message ++ List.replicate 4 false).length = message.length + 4 := by simp
  rw [hinput] at hprices
  subst hn
  have hbits := @bitsOf_viterbiDecode _ (List.replicate 64 0) _ _ _ message.length hlength
    (received_le (by omega) _ _) (by omega) (by rw [length_charges]) hfull (getD_flush message)
    hseparated hprices
  obtain ⟨r, hr⟩ : ∃ r, r = viterbiDecode (List.replicate 64 0) (received 0xFFFF 0x7FFF
    (whole (message.length + 4)) (codedStream 0 (message ++ List.replicate 4 false))) := ⟨_, rfl⟩
  have hread : ((Bytes.bitsOf (r.1.take (message.length / 8 + 1 + 1))).drop 8).take
      message.length = message := by
    have hcount : ((List.range message.length).map
      ((message ++ List.replicate 4 false).getD · false)).length = message.length := by simp
    rw [Bytes.bitsOf_take, drop_take, take_take, min_eq_left (by omega), hr, hbits,
      take_left' hcount, map_getD_flush]
  have hsome : message.length ≠ 0 := by omega
  have hfirst : ¬ (244 < (dibitsOf (codedStream 0 (message ++ List.replicate 4 false))).length ∨
      message.length / 8 + 1 = 0 ∨ 64 ≤ message.length / 8 + 1 ∨ message.length = 0 ∨
        message.length % 8 ≠ 0) := by
    rw [hdibits]
    omega
  have hsecond : ¬ ((message.length / 8 + 1 + 1) * 8 < 8 ∨
      (message.length / 8 + 1 + 1) * 8 - 8 < message.length) := by omega
  rw [sent, convolutionEncodeBits_eq, deinterleave_interleave hpos (hdibits.trans hm.symm),
    softViterbiDecode, if_neg hfirst, if_neg hsecond, hcosts, viterbiDecodePunctured,
    unpuncture_none _ (by rw [hlength]; omega) four_pos]
  simp only [Option.map_some, ← hr, hread]
  exact ⟨_, rfl⟩

/-- The coded words of the frame information. -/
def fichCoded (fich : List Bool) : List Bool :=
  (List.range 96).map fun p =>
    Golay2412.encode (fun k => bitByte (fich.getD (p / 24 * 12 + k) false)) (p % 24) == 1

theorem fichWord_coded (fich : List Bool) (rest : List UInt8) {i j : ℕ} (hi : i < 4) (hj : j < 24) :
    fichWord ((fichCoded fich).map bitByte ++ rest) i j =
      Golay2412.encode (fun k => bitByte (fich.getD (i * 12 + k) false)) j := by
  have hlen : i * 24 + j < ((fichCoded fich).map bitByte).length := by
    simp only [fichCoded, length_map, length_range]
    omega
  have hdiv : (i * 24 + j) / 24 = i := by omega
  have hmod : (i * 24 + j) % 24 = j := by omega
  rw [fichWord, getD_eq_getElem _ _ (by rw [length_append]; omega), getElem_append_left hlen]
  simp only [fichCoded, getElem_map, getElem_range, hdiv, hmod]
  rcases Golay2412.encode_bit (fun k => bitByte (fich.getD (i * 12 + k) false)) j with h | h <;>
    rw [h] <;> rfl

/-- A word sent needs no correction. -/
theorem decode_coded (fich : List Bool) (rest : List UInt8) {i : ℕ} (hi : i < 4) :
    Golay2412.decode (fichWord ((fichCoded fich).map bitByte ++ rest) i) =
      (true, fichWord ((fichCoded fich).map bitByte ++ rest) i) := by
  have hbits : Hamming.bits 24 (fichWord ((fichCoded fich).map bitByte ++ rest) i) =
      Hamming.bits 24
        (Golay2412.encode fun k => bitByte (fich.getD (i * 12 + k) false)) := by
    funext j
    exact congrArg (fun b : UInt8 => (b.toNat : ZMod 2)) (fichWord_coded fich rest hi j.isLt)
  have hword : Golay2412.IsCodeword (fichWord ((fichCoded fich).map bitByte ++ rest) i) := by
    rw [Golay2412.IsCodeword, hbits]
    exact Golay2412.encode_isCodeword _
  have hnone : Golay2412.IsPattern [] := ⟨List.Pairwise.nil, by simp, by simp⟩
  generalize fichWord ((fichCoded fich).map bitByte ++ rest) i = w at hword
  have hread := Golay2412.decode_flipped hword hnone
  rwa [Golay2412.flipped, foldl_nil] at hread

theorem fichBits_coded {fich : List Bool} (hfich : fich.length = 48) (rest : List UInt8) :
    fichBits ((fichCoded fich).map bitByte ++ rest) = fich.map bitByte := by
  have hbit : ∀ b, bitByte b = 0 ∨ bitByte b = 1 := by decide
  have hword : ∀ i ∈ List.range 4, (List.range 12).map
      (Golay2412.decode (fichWord ((fichCoded fich).map bitByte ++ rest) i)).2 =
        (List.range 12).map fun k => bitByte (fich.getD (i * 12 + k) false) := by
    intro i hi
    rw [mem_range] at hi
    rw [decode_coded fich rest hi]
    refine map_congr_left fun k hk => ?_
    rw [mem_range] at hk
    dsimp only
    rw [fichWord_coded fich rest hi (by omega)]
    exact Golay2412.encode_data (fun _ _ => hbit _) hk
  have hrows : ∀ f : ℕ → UInt8, ((List.range 4).flatMap fun i =>
      (List.range 12).map fun k => f (i * 12 + k)) = (List.range 48).map f := fun _ => rfl
  rw [fichBits, flatMap_congr hword, hrows fun p => bitByte (fich.getD p false)]
  refine ext_getElem (by simp [hfich]) fun p hp _ => ?_
  have hp' : p < fich.length := by simpa [hfich] using hp
  simp [hp']

/-- The frame information sent is read. -/
theorem convFich_sent {fich : List Bool} (hfich : fich.length = 48)
    (hcrc : ysfCrc16 (fich.map bitByte) = 0) :
    ∃ error, convFich (sent 5 (fichCoded fich)) = some (0, (fich.take 32).map bitByte, error) := by
  have hlen : (fichCoded fich).length = 96 := by simp [fichCoded]
  obtain ⟨error, hsoft⟩ := @softViterbiDecode_sent (fichCoded fich) 100 5
    (by rw [hlen]) (by rw [hlen]) rfl (by omega) (by omega) separation.1 (List.replicate 100 0)
    (List.replicate 100 0)
  rw [hlen] at hsoft
  refine ⟨error, ?_⟩
  have hgolay : ∀ i < 4, (Golay2412.decode (fichWord ((fichCoded fich).map bitByte ++
      (List.replicate 100 0).drop 96) i)).1 = true := by
    intro i hi
    rw [decode_coded fich _ hi]
  have hchecked : ¬ ysfCrc16 (fich.map bitByte) ≠ 0 := not_not.mpr hcrc
  rw [convFich, hsoft, Option.map_some]
  simp only [fichBits_coded hfich, if_pos hgolay, if_neg hchecked, ← map_take]

/-- What is read without an error was corrected word by word and passes the check. -/
theorem convFich_sound {input : List UInt8} {dest : List UInt8} {error : ℕ}
    (h : convFich input = some (0, dest, error)) :
    ∃ r, softViterbiDecode (deinterleave 5 input) 13 8 96 (List.replicate 100 0)
        (List.replicate 100 0) = some r ∧
      (∀ i < 4, (Golay2412.decode (fichWord r.outBits i)).1 = true) ∧
      ysfCrc16 (fichBits r.outBits) = 0 ∧ dest = (fichBits r.outBits).take 32 := by
  obtain ⟨r, hr, heq⟩ := Option.map_eq_some_iff.mp h
  obtain ⟨herr, hdest⟩ := Prod.mk.inj heq
  refine ⟨r, hr, ?_⟩
  by_cases hcrc : ysfCrc16 (fichBits r.outBits) ≠ 0
  · rw [if_pos hcrc] at herr
    exact absurd herr (by decide)
  · rw [if_neg hcrc] at herr
    by_cases hall : ∀ i < 4, (Golay2412.decode (fichWord r.outBits i)).1 = true
    · exact ⟨hall, not_not.mp hcrc, (congrArg Prod.fst hdest).symm⟩
    · rw [if_neg hall] at herr
      exact absurd herr (by decide)

theorem convDchOf_sent {m size : ℕ} {payload crc : List Bool} (hcrc : crc.length = 16)
    {n : ℕ} (hn : payload.length + 20 = n) (hfull : payload.length % 8 = 0) (hm : 20 * m = n)
    (hpos : 0 < m) (hle : n ≤ 244)
    (hseparated : LinearCode.agreements (charges 0xFFFF 1 2 n (whole n)) <
      code.leastCharge (2 ^ 32) (fun _ => true) (charges 0xFFFF 1 2 n (whole n)))
    (hchecked : ysfCrc16 ((whitened 0 payload ++ crc).map bitByte) = 0) (info : FrameInfo) :
    ∃ r rest, convDchOf m (payload.length / 8 + 3) (payload.length + 16) payload.length size info
        (sent m (whitened 0 payload ++ crc)) = some r ∧
      r.err = 0 ∧ r.parsed = some (info, payload.map bitByte ++ rest) := by
  have hlen : (whitened 0 payload ++ crc).length = payload.length + 16 := by
    rw [length_append, length_whitened, hcrc]
  have hbytes : (payload.length + 16) / 8 + 1 = payload.length / 8 + 3 := by omega
  obtain ⟨error, hsoft⟩ := @softViterbiDecode_sent (whitened 0 payload ++ crc) n m
    (by rw [hlen]; omega) (by rw [hlen]; omega) hm hpos hle hseparated
    (List.replicate size 0) (List.replicate 100 0)
  rw [hlen, hbytes] at hsoft
  have htake : (((whitened 0 payload ++ crc).map bitByte ++
      (List.replicate size 0).drop (payload.length + 16)).take (payload.length + 16)) =
        (whitened 0 payload ++ crc).map bitByte :=
    take_left' (by rw [length_map, hlen])
  have herr : ¬ ysfCrc16 ((whitened 0 payload ++ crc).map bitByte) ≠ 0 := not_not.mpr hchecked
  have hread : ∃ r, convDchOf m (payload.length / 8 + 3) (payload.length + 16) payload.length size
      info (sent m (whitened 0 payload ++ crc)) = some r ∧ r.err = 0 ∧
        r.parsed = some (info, payload.map bitByte ++
          (crc.map bitByte ++ (List.replicate size 0).drop (payload.length + 16))) := by
    rw [convDchOf, hsoft, Option.map_some]
    refine ⟨_, rfl, ?_, ?_⟩
    · simp only [htake, if_neg herr]
    · simp only [htake, if_neg herr, if_true]
      rw [map_append, append_assoc, dewhitenBits_whitened]
  obtain ⟨r, hsome, hzero, hparsed⟩ := hread
  exact ⟨r, _, hsome, hzero, hparsed⟩

/-- Every message has a check, and with its check the frame information and the payloads of the
data channels are read as they were sent; and frame information read without an error was
corrected word by word and passes its check. -/
theorem channels_decode_sent :
    (∀ message : List Bool,
      ∃ crc : List Bool, crc.length = 16 ∧ ysfCrc16 ((message ++ crc).map bitByte) = 0) ∧
    (∀ fich : List Bool, fich.length = 48 → ysfCrc16 (fich.map bitByte) = 0 →
      ∃ error, convFich (sent 5 (fichCoded fich)) =
        some (0, (fich.take 32).map bitByte, error)) ∧
    (∀ (info : FrameInfo) (payload crc : List Bool), payload.length = 80 → crc.length = 16 →
      ysfCrc16 ((whitened 0 payload ++ crc).map bitByte) = 0 →
      ∃ r rest, convDch2 info (sent 5 (whitened 0 payload ++ crc)) = some r ∧ r.err = 0 ∧
        r.parsed = some (info, payload.map bitByte ++ rest)) ∧
    (∀ (info : FrameInfo) (payload crc : List Bool), payload.length = 160 → crc.length = 16 →
      ysfCrc16 ((whitened 0 payload ++ crc).map bitByte) = 0 →
      ∃ r rest, convDch info (sent 9 (whitened 0 payload ++ crc)) = some r ∧ r.err = 0 ∧
        r.parsed = some (info, payload.map bitByte ++ rest)) ∧
    ∀ (input dest : List UInt8) (error : ℕ), input.length = 100 →
      convFich input = some (0, dest, error) →
      ∃ r, softViterbiDecode (deinterleave 5 input) 13 8 96 (List.replicate 100 0)
          (List.replicate 100 0) = some r ∧
        (∀ i < 4, (Golay2412.decode (fichWord r.outBits i)).1 = true) ∧
        ysfCrc16 (fichBits r.outBits) = 0 ∧ dest = (fichBits r.outBits).take 32 := by
  refine ⟨exists_crc, fun fich hfich hcrc => convFich_sent hfich hcrc, ?_, ?_,
    fun input dest error _ h => convFich_sound h⟩
  · intro info payload crc hpayload hcrc hchecked
    have hread := @convDchOf_sent 5 100 payload crc hcrc 100 (by rw [hpayload]) (by rw [hpayload])
      rfl (by omega) (by omega) separation.1 hchecked info
    rwa [hpayload] at hread
  · intro info payload crc hpayload hcrc hchecked
    have hread := @convDchOf_sent 9 190 payload crc hcrc 180 (by rw [hpayload]) (by rw [hpayload])
      rfl (by omega) (by omega) separation.2 hchecked info
    rwa [hpayload] at hread

/-- Frame information and its check. -/
def checkedFich : List Bool := (List.range 48).map fun i => Nat.testBit 0x8A5C13F0D8FC (47 - i)

/-- A channel header with its check. -/
theorem channels_decode_sent_checked :
    ∃ error, convFich (sent 5 (fichCoded checkedFich)) =
      some (0, (checkedFich.take 32).map bitByte, error) :=
  channels_decode_sent.2.1 checkedFich rfl (by decide +kernel)

end DsdNeo.Ysf
