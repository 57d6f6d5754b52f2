import Mathlib.Data.BitVec
import Mathlib.Data.Nat.Prime.Basic
import Mathlib.Tactic.Ring

/-!
# Descrambling a talker alias

Every octet of an alias is looked up, shifted by the high octet of a running product and
multiplied by the inverse of the low one, which a loop finds by counting up odd numbers. The
accumulator of the product is moved on by the encoded octets, so it is known again when an
alias is scrambled anew: what was sent can be told from what was decoded.
-/

namespace DsdNeo.Alias

open BitVec

set_option maxRecDepth 2048 in
/-- `moto_alias_lut`. -/
def motoAliasLut : Vector (BitVec 8) 256 := #v[
    0xD2, 0xF6, 0xD4, 0x2B, 0x63, 0x49, 0x94, 0x5E, 0xA7, 0x5C, 0x70, 0x69, 0xF7, 0x08, 0xB1, 0x7D,
    0x38, 0xCF, 0xCC, 0xD8, 0x51, 0x8F, 0xD5, 0x93, 0x6A, 0xF3, 0xEF, 0x7E, 0xFB, 0x64, 0xF4, 0x35,
    0x27, 0x07, 0x31, 0x14, 0x87, 0x98, 0x76, 0x34, 0xCA, 0x92, 0x33, 0x1B, 0x4F, 0x8C, 0x09, 0x40,
    0x32, 0x36, 0x77, 0x12, 0xD3, 0xC3, 0x01, 0xAB, 0x72, 0x81, 0x95, 0xC9, 0xC0, 0xE9, 0x65, 0x52,
    0x24, 0x30, 0x1C, 0xDB, 0x88, 0xE8, 0x97, 0x9D, 0x58, 0x26, 0x04, 0x39, 0xAC, 0x2A, 0x9E, 0xAA,
    0x25, 0xD7, 0xCE, 0xEB, 0x96, 0xF5, 0x0E, 0x8D, 0xDC, 0xA9, 0x2F, 0xDD, 0x1F, 0xEA, 0x91, 0xB7,
    0xD6, 0x89, 0x8B, 0xD1, 0xB0, 0x99, 0x13, 0x7A, 0xE7, 0x9A, 0xB5, 0x86, 0xFF, 0x46, 0x85, 0xB2,
    0x73, 0xDA, 0xBF, 0xD0, 0x71, 0xCB, 0x4D, 0x80, 0x15, 0x67, 0x16, 0x1A, 0x20, 0x8E, 0x45, 0x3E,
    0xF2, 0x2E, 0x66, 0x90, 0x74, 0x8A, 0x6F, 0x78, 0xBB, 0x53, 0x03, 0x11, 0x68, 0xCD, 0x44, 0x17,
    0x28, 0x5F, 0x1E, 0x84, 0x75, 0x79, 0x6E, 0x9B, 0x2C, 0xBE, 0x62, 0x2D, 0xF1, 0x7C, 0xB8, 0x83,
    0xD9, 0x4E, 0x6D, 0x02, 0x61, 0x3D, 0xA8, 0x06, 0xB9, 0xF8, 0x9C, 0x37, 0x3A, 0x23, 0xC1, 0x50,
    0xED, 0x9F, 0xAF, 0x3B, 0xBD, 0x82, 0xBA, 0xA0, 0xDF, 0xC2, 0x47, 0x22, 0xF0, 0xEE, 0xA1, 0xFE,
    0xA2, 0x10, 0x5B, 0x48, 0x57, 0xA3, 0x05, 0x60, 0x7B, 0x0D, 0xF9, 0x6C, 0xB3, 0x56, 0x4C, 0xBC,
    0x29, 0xA4, 0x0F, 0xEC, 0xB6, 0xA5, 0xA6, 0x3C, 0x7F, 0x6B, 0xB4, 0x21, 0xAD, 0xAE, 0xC4, 0xC8,
    0xC5, 0x5D, 0xDE, 0xE0, 0x1D, 0x19, 0x4B, 0xC6, 0x0C, 0x3F, 0x5A, 0xC7, 0xE1, 0x59, 0x55, 0x54,
    0x4A, 0x43, 0x42, 0xE2, 0xE3, 0xFA, 0x00, 0xE4, 0xE5, 0x18, 0x41, 0x0B, 0x0A, 0xE6, 0xFC, 0xFD]

/-- `accum_mult` of an accumulator. -/
def accumMult (accumulator : BitVec 16) : BitVec 16 := accumulator * 293 + 0x72E9

/-- Where `shortstop` starts: the low octet of the product, made odd. -/
def shortstop (accumulator : BitVec 16) : BitVec 8 := (accumMult accumulator ||| 1).setWidth 8

/-- The `while` loop of `apx_embedded_alias_unscramble` and the `mult2` it ends with, if it does
within so many turns. -/
def incrementLoop (increment : BitVec 8) : ℕ → BitVec 8 → BitVec 8 → Option (BitVec 8)
  | 0, shortstop, mult2 => if shortstop = 1 then some mult2 else none
  | turns + 1, shortstop, mult2 =>
    if shortstop = 1 then some mult2
    else incrementLoop increment turns (shortstop + increment) (mult2 + 2)

/-- The `mult2` of one octet. -/
def mult2 (turns : ℕ) (accumulator : BitVec 16) : Option (BitVec 8) :=
  incrementLoop (shortstop accumulator <<< 1) turns (shortstop accumulator) 1

/-- What one encoded octet is decoded to. -/
def decodeOctet (turns : ℕ) (accumulator : BitVec 16) (encoded : BitVec 8) : Option (BitVec 8) :=
  let lut := motoAliasLut[encoded.toNat]
  let mult1 := lut - (accumMult accumulator >>> 8).setWidth 8
  (mult2 turns accumulator).map (mult1 * ·)

/-- The accumulator after an octet. -/
def accumulate (accumulator : BitVec 16) (encoded : BitVec 8) : BitVec 16 :=
  accumulator + (encoded.setWidth 16 + 1)

/-- The loop over the octets. -/
def decodeOctets (turns : ℕ) : BitVec 16 → List (BitVec 8) → Option (List (BitVec 8))
  | _, [] => some []
  | accumulator, octet :: encoded => do
    let decoded ← decodeOctet turns accumulator octet
    let rest ← decodeOctets turns (accumulate accumulator octet) encoded
    return decoded :: rest

/-- `apx_embedded_alias_unscramble`: the buffer for the decoded octets when it is done. -/
def apxEmbeddedAliasUnscramble (turns : ℕ) (encoded : List (BitVec 8)) (numBytes : BitVec 16)
    (decoded : List (BitVec 8)) : Option (List (BitVec 8)) :=
  let limit := min (min numBytes.toNat encoded.length) decoded.length
  (decodeOctets turns numBytes (encoded.take limit)).map (· ++ decoded.drop limit)

variable {increment s m : BitVec 8} {turns n : ℕ} {accumulator : BitVec 16}
  {encoded encoded' decoded decoded' : List (BitVec 8)}

theorem ofNat_succ (k : ℕ) : BitVec.ofNat 8 (k + 1) = BitVec.ofNat 8 k + 1 :=
  ofNat_add k 1

theorem incrementLoop_ends (h : ∃ k ≤ turns, s + BitVec.ofNat 8 k * increment = 1) :
    ∃ j, s + BitVec.ofNat 8 j * increment = 1 ∧
      incrementLoop increment turns s m = some (m + 2 * BitVec.ofNat 8 j) := by
  induction turns generalizing s m with
  | zero =>
    obtain ⟨k, hk, hone⟩ := h
    obtain rfl : k = 0 := Nat.le_zero.mp hk
    have hs : s = 1 := by simpa using hone
    exact ⟨0, hone, by simp [incrementLoop, hs]⟩
  | succ turns ih =>
    by_cases hs : s = 1
    · exact ⟨0, by simp [hs], by simp [incrementLoop, hs]⟩
    · obtain ⟨k, hk, hone⟩ := h
      obtain ⟨k, rfl⟩ : ∃ k', k = k' + 1 := by
        refine Nat.exists_eq_succ_of_ne_zero ?_
        rintro rfl
        exact hs (by simpa using hone)
      have hnext : ∀ j, s + increment + BitVec.ofNat 8 j * increment =
          s + BitVec.ofNat 8 (j + 1) * increment := by
        intro j
        rw [ofNat_succ]
        ring
      obtain ⟨j, hj, hloop⟩ := ih (m := m + 2) ⟨k, by omega, by rw [hnext, hone]⟩
      refine ⟨j + 1, by rw [← hnext, hj], ?_⟩
      rw [incrementLoop, if_neg hs, hloop, ofNat_succ]
      congr 1
      ring

theorem exists_odd_inverse (h : s.getLsbD 0 = true) :
    ∃ k ≤ 127, s * (1 + 2 * BitVec.ofNat 8 k) = 1 := by
  have hodd : s.toNat % 2 = 1 := by simpa [BitVec.getLsbD, Nat.testBit_zero] using h
  have hcoprime : Nat.Coprime s.toNat 256 :=
    Nat.Coprime.pow_right 8 (Odd.coprime_two_right (Nat.odd_iff.mpr hodd))
  obtain ⟨t, ht, hone⟩ := Nat.exists_mul_mod_eq_one_of_coprime hcoprime (by decide)
  -- The product is odd, so the inverse is: one, and twice the number of turns.
  have htodd : t % 2 = 1 := by
    have hparity : s.toNat * t % 2 = 1 := by omega
    rcases Nat.mod_two_eq_zero_or_one t with heven | hodd
    · simp [Nat.mul_mod, heven] at hparity
    · exact hodd
  refine ⟨t / 2, by omega, ?_⟩
  have hinverse : (1 : BitVec 8) + 2 * BitVec.ofNat 8 (t / 2) = BitVec.ofNat 8 t := by
    apply eq_of_toNat_eq
    simp only [toNat_add, toNat_mul, toNat_ofNat,
      show BitVec.toNat (1 : BitVec 8) = 1 from rfl, show BitVec.toNat (2 : BitVec 8) = 2 from rfl]
    omega
  rw [hinverse]
  apply eq_of_toNat_eq
  rw [toNat_mul, toNat_ofNat, Nat.mod_eq_of_lt ht]
  exact hone

theorem getLsbD_shortstop : (shortstop accumulator).getLsbD 0 = true := by
  simp [shortstop]

theorem incrementLoop_mono {more : ℕ} {found : BitVec 8} (hle : turns ≤ more)
    (h : incrementLoop increment turns s m = some found) :
    incrementLoop increment more s m = some found := by
  induction turns generalizing more s m with
  | zero =>
    obtain ⟨hs, hfound⟩ := Option.ite_none_right_eq_some.mp h
    cases more <;> rw [incrementLoop, if_pos hs, hfound]
  | succ turns ih =>
    obtain ⟨more, rfl⟩ := Nat.exists_eq_add_of_le' (Nat.one_le_of_lt hle)
    rw [incrementLoop] at h ⊢
    split_ifs at h ⊢ with hs
    · exact h
    · exact ih (by omega) h

theorem mult2_inverse (accumulator : BitVec 16) :
    ∃ inverse, inverse * shortstop accumulator = 1 ∧
      ∀ turns, 127 ≤ turns → mult2 turns accumulator = some inverse := by
  have hstep : ∀ k, shortstop accumulator + BitVec.ofNat 8 k * (shortstop accumulator <<< 1) =
      shortstop accumulator * (1 + 2 * BitVec.ofNat 8 k) := by
    intro k
    rw [shiftLeft_eq_mul_twoPow, show BitVec.twoPow 8 1 = 2 from rfl]
    ring
  obtain ⟨k, hk, hone⟩ := exists_odd_inverse getLsbD_shortstop
  obtain ⟨j, hj, hloop⟩ := incrementLoop_ends (m := 1) ⟨k, hk, (hstep k).trans hone⟩
  refine ⟨1 + 2 * BitVec.ofNat 8 j, ?_, fun turns hturns => incrementLoop_mono hturns hloop⟩
  rw [mul_comm, ← hstep, hj]

theorem motoAliasLut_nodup : motoAliasLut.toList.Nodup := by
  decide +kernel

/-- No two octets are looked up alike. -/
theorem motoAliasLut_injective {e f : BitVec 8}
    (h : motoAliasLut[e.toNat] = motoAliasLut[f.toNat]) : e = f := by
  apply eq_of_toNat_eq
  have he : e.toNat < motoAliasLut.toList.length := by simp [e.isLt]
  have hf : f.toNat < motoAliasLut.toList.length := by simp [f.isLt]
  have hsame : motoAliasLut.toList[e.toNat] = motoAliasLut.toList[f.toNat] := by simpa using h
  exact motoAliasLut_nodup.getElem_inj_iff.mp hsame

theorem decodeOctet_injective (accumulator : BitVec 16) :
    ∃ decode : BitVec 8 → BitVec 8, Function.Injective decode ∧
      ∀ turns, 127 ≤ turns → ∀ e, decodeOctet turns accumulator e = some (decode e) := by
  obtain ⟨inverse, hinverse, hmult2⟩ := mult2_inverse accumulator
  refine ⟨fun e => (motoAliasLut[e.toNat] -
    (accumMult accumulator >>> 8).setWidth 8) * inverse, ?_, ?_⟩
  · intro e f h
    have hcancel := congrArg (· * shortstop accumulator) h
    simp only [mul_assoc, hinverse, mul_one] at hcancel
    exact motoAliasLut_injective (sub_left_injective hcancel)
  · intro turns hturns e
    rw [decodeOctet, hmult2 turns hturns]
    rfl

theorem decodeOctets_isSome (encoded : List (BitVec 8)) (accumulator : BitVec 16) :
    ∃ decoded : List (BitVec 8), decoded.length = encoded.length ∧
      ∀ turns, 127 ≤ turns → decodeOctets turns accumulator encoded = some decoded := by
  induction encoded generalizing accumulator with
  | nil => exact ⟨[], rfl, fun _ _ => rfl⟩
  | cons e encoded ih =>
    obtain ⟨decode, -, hdecode⟩ := decodeOctet_injective accumulator
    obtain ⟨decoded, hlen, hdecoded⟩ := ih (accumulate accumulator e)
    refine ⟨decode e :: decoded, by rw [List.length_cons, hlen, List.length_cons], ?_⟩
    intro turns hturns
    simp [decodeOctets, hdecode turns hturns, hdecoded turns hturns]

theorem decodeOctets_injective (hturns : 127 ≤ turns) (hlen : encoded.length = encoded'.length)
    (h : decodeOctets turns accumulator encoded = decodeOctets turns accumulator encoded') :
    encoded = encoded' := by
  induction encoded generalizing encoded' accumulator with
  | nil => exact (List.length_eq_zero_iff.mp hlen.symm).symm
  | cons e encoded ih =>
    obtain ⟨f, encoded', rfl⟩ := List.exists_cons_of_length_eq_add_one hlen.symm
    obtain ⟨decode, hinjective, hdecode⟩ := decodeOctet_injective accumulator
    obtain ⟨decoded, -, hdecoded⟩ := decodeOctets_isSome encoded (accumulate accumulator e)
    obtain ⟨decoded', -, hdecoded'⟩ := decodeOctets_isSome encoded' (accumulate accumulator f)
    have hboth : decode e = decode f ∧ decoded = decoded' := by
      simpa [decodeOctets, hdecode turns hturns, hdecoded turns hturns, hdecoded' turns hturns]
        using h
    obtain rfl : e = f := hinjective hboth.1
    have hrest := ih (Nat.succ.inj hlen)
      ((hdecoded turns hturns).trans (hboth.2 ▸ (hdecoded' turns hturns).symm))
    rw [hrest]

/-- The loop of every octet ends with the inverse of the odd octet it starts at, and an alias of
at most two hundred octets is decoded to as many, from which what was encoded can be told. -/
theorem unscramble_lossless (hn : n ≤ 200) :
    (∀ accumulator, ∃ inverse, inverse * shortstop accumulator = 1 ∧
      ∀ turns, 127 ≤ turns → mult2 turns accumulator = some inverse) ∧
    (∀ encoded decoded turns, encoded.length = n → decoded.length = n → 127 ≤ turns →
      ∃ out : List (BitVec 8), out.length = n ∧
        apxEmbeddedAliasUnscramble turns encoded (BitVec.ofNat 16 n) decoded = some out) ∧
    ∀ encoded encoded' decoded decoded' turns, encoded.length = n → encoded'.length = n →
      decoded.length = n → decoded'.length = n → 127 ≤ turns →
        apxEmbeddedAliasUnscramble turns encoded (BitVec.ofNat 16 n) decoded =
          apxEmbeddedAliasUnscramble turns encoded' (BitVec.ofNat 16 n) decoded' →
        encoded = encoded' := by
  have hwhole : ∀ encoded decoded turns, encoded.length = n → decoded.length = n →
      apxEmbeddedAliasUnscramble turns encoded (BitVec.ofNat 16 n) decoded =
        decodeOctets turns (BitVec.ofNat 16 n) encoded := by
    intro encoded decoded turns hencoded hdecoded
    have hlimit : min (min (BitVec.ofNat 16 n).toNat encoded.length) decoded.length = n := by
      rw [hencoded, hdecoded, toNat_ofNat, Nat.mod_eq_of_lt (by omega)]
      omega
    rw [apxEmbeddedAliasUnscramble, hlimit, List.take_of_length_le hencoded.le,
      List.drop_of_length_le hdecoded.le]
    simp
  refine ⟨mult2_inverse, ?_, ?_⟩
  · intro encoded decoded turns hencoded hdecoded hturns
    obtain ⟨out, hlen, hout⟩ := decodeOctets_isSome encoded (BitVec.ofNat 16 n)
    exact ⟨out, hlen.trans hencoded, (hwhole _ _ _ hencoded hdecoded).trans (hout turns hturns)⟩
  · intro encoded encoded' decoded decoded' turns hencoded hencoded' hdecoded hdecoded' hturns h
    rw [hwhole _ _ _ hencoded hdecoded, hwhole _ _ _ hencoded' hdecoded'] at h
    exact decodeOctets_injective hturns (hencoded.trans hencoded'.symm) h

/-- Two aliases of two octets are decoded to different octets. -/
theorem unscramble_lossless_two :
    (∃ out : List (BitVec 8), out.length = 2 ∧
      apxEmbeddedAliasUnscramble 127 [0x12, 0x34] 2 [0, 0] = some out) ∧
    apxEmbeddedAliasUnscramble 127 [0x12, 0x34] 2 [0, 0] ≠
      apxEmbeddedAliasUnscramble 127 [0x12, 0x35] 2 [0, 0] := by
  obtain ⟨-, hdecoded, hinjective⟩ := unscramble_lossless (n := 2) (by decide)
  refine ⟨hdecoded [0x12, 0x34] [0, 0] 127 rfl rfl le_rfl, fun heq => ?_⟩
  exact absurd (hinjective _ _ _ _ 127 rfl rfl rfl rfl le_rfl heq) (by decide)

end DsdNeo.Alias
