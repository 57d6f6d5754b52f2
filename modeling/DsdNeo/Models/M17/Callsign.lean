import Mathlib.Data.List.GetD
import Mathlib.Data.List.TakeWhile
import Mathlib.Data.Nat.Digits.Lemmas

/-!
# Callsigns in base 40

`m17_encode_b40_callsign` and `m17_address_decode_csd`. The encoder goes through a callsign from
its last character to its first, the decoder writes the first character first and stops when
nothing is left of the address.
-/

namespace DsdNeo.M17

open List

/-- `m17_base40_alphabet`. -/
def base40Alphabet : List UInt8 :=
  [' ', 'A', 'B', 'C', 'D', 'E', 'F', 'G', 'H', 'I', 'J', 'K', 'L', 'M', 'N', 'O', 'P', 'Q', 'R',
    'S', 'T', 'U', 'V', 'W', 'X', 'Y', 'Z', '0', '1', '2', '3', '4', '5', '6', '7', '8', '9', '-',
    '/', '.'].map Char.toUInt8

/-- `m17_callsign_len_max9`: the characters before the terminator, no more than nine. -/
def callsignLenMax9 (csd : List UInt8) : ℕ := ((csd.take 9).takeWhile (· ≠ 0)).length

/-- `m17_upper_ascii`. -/
def upperAscii (c : UInt8) : UInt8 := if 97 ≤ c ∧ c ≤ 122 then c - 32 else c

/-- `m17_base40_value`. -/
def base40Value (c : UInt8) : ℕ :=
  let i := base40Alphabet.idxOf (upperAscii c)
  if i < 40 then i else 0

/-- `m17_encode_b40_callsign`. -/
def encodeB40Callsign (value : UInt64) (csd : List UInt8) : UInt64 :=
  if value ≥ 0xEE6B28000000 then value
  else (csd.take (callsignLenMax9 csd)).foldr (fun c value => value * 40 + (base40Value c).toUInt64)
    value

/-- `M17_ADDRESS_STANDARD_MAX`. -/
def addressStandardMax : UInt64 := 0xEE6B27FFFFFF

/-- `M17_ADDRESS_EXTENDED_MAX`. -/
def addressExtendedMax : UInt64 := 0xFFFFFFFFFFFE

/-- What an address is for. -/
inductive AddressKind where
  | reserved
  | standard
  | extended
  | broadcast
deriving DecidableEq

/-- `m17_address_classify`. -/
def addressClassify (address : UInt64) : AddressKind :=
  if address = 0 then .reserved
  else if address ≤ addressStandardMax then .standard
  else if address ≤ addressExtendedMax then .extended
  else .broadcast

/-- The loop of `m17_address_decode_csd`: the characters written in the room left. -/
def decodeCharacters : ℕ → UInt64 → List UInt8
  | 0, _ => []
  | room + 1, address =>
    if address = 0 then []
    else base40Alphabet.getD (address % 40).toNat 0 :: decodeCharacters room (address / 40)

/-- `m17_address_decode_csd`: the ten bytes of the callsign, or the error. -/
def addressDecodeCsd (address : UInt64) : Except ℤ (List UInt8) :=
  if addressClassify address ≠ .standard then .error (-2)
  else .ok ((decodeCharacters 9 address).rightpad 10 0)

theorem length_base40Alphabet : base40Alphabet.length = 40 := rfl

theorem base40Value_lt (c : UInt8) : base40Value c < 40 := by
  simp only [base40Value]
  split_ifs with h
  · exact h
  · decide

theorem base40Value_getD {i : ℕ} (hi : i < 40) : base40Value (base40Alphabet.getD i 0) = i := by
  revert i
  decide

/-- A character of the alphabet in either case. -/
def IsBase40 (c : UInt8) : Prop := upperAscii c ∈ base40Alphabet

theorem getD_base40Value {c : UInt8} (hc : IsBase40 c) :
    base40Alphabet.getD (base40Value c) 0 = upperAscii c := by
  have hlt := idxOf_lt_length_iff.mpr hc
  simp only [base40Value, if_pos (hlt.trans_eq length_base40Alphabet)]
  rw [getD_eq_getElem _ _ hlt, getElem_idxOf]

theorem ne_zero_of_isBase40 {c : UInt8} (hc : IsBase40 c) : c ≠ 0 := by
  rintro rfl
  exact absurd hc (by unfold IsBase40; decide)

/-- Only a space has the digit zero among the characters of the alphabet. -/
theorem base40Value_eq_zero {c : UInt8} (hc : IsBase40 c) : base40Value c = 0 ↔ c = 32 := by
  constructor
  · intro h
    have hupper := getD_base40Value hc
    rw [h] at hupper
    have hspace : upperAscii c = 32 := hupper.symm
    rw [upperAscii] at hspace
    split_ifs at hspace with hcase
    · have hc64 : c = 64 := by
        rw [← UInt8.sub_add_cancel c 32, hspace]
        rfl
      subst hc64
      exact absurd hcase.1 (by decide)
    · exact hspace
  · rintro rfl
    decide

variable {csd : List UInt8}

/-- The characters the encoder goes through are those before the terminator. -/
theorem take_callsignLenMax9 (h : ∀ c ∈ csd, c ≠ 0) (hlen : csd.length ≤ 9) (room : ℕ) :
    (csd ++ List.replicate room 0).take (callsignLenMax9 (csd ++ List.replicate room 0)) = csd := by
  have hall : csd.takeWhile (· ≠ 0) = csd := takeWhile_eq_self_iff.mpr (by simpa using h)
  have hlast : (List.replicate (min (9 - csd.length) room) (0 : UInt8)).takeWhile (· ≠ 0) = [] := by
    cases min (9 - csd.length) room <;> rfl
  have hcount : callsignLenMax9 (csd ++ List.replicate room 0) = csd.length := by
    rw [callsignLenMax9, take_append, take_of_length_le hlen, take_replicate,
      takeWhile_append_of_pos (by simpa using h), hlast, append_nil]
  rw [hcount, take_left]

theorem encoded_lt (csd : List UInt8) :
    Nat.ofDigits 40 (csd.map base40Value) < 40 ^ csd.length := by
  have hlt := Nat.ofDigits_lt_base_pow_length (b := 40) (l := csd.map base40Value) (by decide)
    (by simpa using fun c _ => base40Value_lt c)
  rwa [length_map] at hlt

/-- The number the encoder makes has the characters as its digits, the first the lowest. -/
theorem encodeB40Callsign_toNat (h : ∀ c ∈ csd, c ≠ 0) (hlen : csd.length ≤ 9) (room : ℕ) :
    (encodeB40Callsign 0 (csd ++ List.replicate room 0)).toNat =
      Nat.ofDigits 40 (csd.map base40Value) := by
  rw [encodeB40Callsign, if_neg (by decide), take_callsignLenMax9 h hlen]
  clear h
  induction csd with
  | nil => rfl
  | cons c csd ih =>
    rw [length_cons] at hlen
    have hrest := ih (by omega)
    have hlt := (encoded_lt csd).trans_le (Nat.pow_le_pow_right (by decide) (by omega : _ ≤ 8))
    have hdigit := base40Value_lt c
    rw [foldr_cons, UInt64.toNat_add, UInt64.toNat_mul, hrest, map_cons, Nat.ofDigits_cons]
    have hc : (base40Value c).toUInt64.toNat = base40Value c := by
      rw [Nat.toUInt64, UInt64.toNat_ofNat_of_lt']
      exact hdigit.trans (by decide)
    rw [hc]
    change (_ * 40 % 2 ^ 64 + _) % 2 ^ 64 = _
    omega

variable {address : UInt64}

theorem decodeCharacters_eq {room : ℕ} (h : address.toNat < 40 ^ room) :
    decodeCharacters room address =
      (Nat.digits 40 address.toNat).map (base40Alphabet.getD · 0) := by
  induction room generalizing address with
  | zero =>
    have hzero : address.toNat = 0 := by omega
    rw [hzero]
    rfl
  | succ room ih =>
    rw [decodeCharacters]
    split_ifs with hzero
    · rw [hzero]
      rfl
    · have hpos : 0 < address.toNat := by
        rw [Nat.pos_iff_ne_zero]
        exact fun hnat => hzero (UInt64.toNat_inj.mp hnat)
      have hdiv : (address / 40).toNat = address.toNat / 40 := UInt64.toNat_div ..
      have hmod : (address % 40).toNat = address.toNat % 40 := UInt64.toNat_mod ..
      rw [Nat.digits_def' (by decide) hpos, map_cons, hmod, ih, hdiv]
      rw [hdiv]
      exact Nat.div_lt_of_lt_mul (by rwa [← pow_succ'])

theorem lt_of_standard (h : address ≤ addressStandardMax) : address.toNat < 40 ^ 9 := by
  have hle : address.toNat ≤ addressStandardMax.toNat := h
  have hmax : addressStandardMax.toNat = 40 ^ 9 - 1 := by decide
  omega

theorem addressClassify_standard (hpos : 1 ≤ address) (h : address ≤ addressStandardMax) :
    addressClassify address = .standard := by
  have hne : address ≠ 0 := by
    rintro rfl
    exact absurd hpos (by decide)
  rw [addressClassify, if_neg hne, if_pos h]

theorem isBase40_getD {i : ℕ} (hi : i < 40) : base40Alphabet.getD i 0 ≠ 0 := by
  revert i
  decide

theorem encode_decode (hpos : 1 ≤ address) (h : address ≤ addressStandardMax) :
    ∃ csd, addressDecodeCsd address = .ok csd ∧ encodeB40Callsign 0 csd = address := by
  have hlt := lt_of_standard h
  have hdigits : ∀ d ∈ Nat.digits 40 address.toNat, d < 40 := fun d hd =>
    Nat.digits_lt_base (by decide) hd
  have hlen : (Nat.digits 40 address.toNat).length ≤ 9 :=
    (Nat.digits_length_le_iff (by decide) _).mpr hlt
  refine ⟨_, by rw [addressDecodeCsd, if_neg (by simp [addressClassify_standard hpos h])], ?_⟩
  apply UInt64.toNat_inj.mp
  rw [decodeCharacters_eq hlt, List.rightpad, encodeB40Callsign_toNat, map_map]
  · have hsame : (Nat.digits 40 address.toNat).map (base40Value ∘ (base40Alphabet.getD · 0)) =
        Nat.digits 40 address.toNat := by
      refine (map_congr_left fun d hd => ?_).trans (map_id _)
      exact base40Value_getD (hdigits d hd)
    rw [hsame, Nat.ofDigits_digits]
  · intro c hc
    obtain ⟨d, hd, rfl⟩ := mem_map.mp hc
    exact isBase40_getD (hdigits d hd)
  · rwa [length_map]

theorem decode_encode (hlen : csd.length ≤ 9) (hchars : ∀ c ∈ csd, IsBase40 c) (hne : csd ≠ [])
    (hlast : csd.getLast hne ≠ 32) :
    addressDecodeCsd (encodeB40Callsign 0 csd) = .ok ((csd.map upperAscii).rightpad 10 0) := by
  have hnat := encodeB40Callsign_toNat (fun c hc => ne_zero_of_isBase40 (hchars c hc)) hlen 0
  rw [replicate_zero, append_nil] at hnat
  have hdigits : Nat.digits 40 (encodeB40Callsign 0 csd).toNat = csd.map base40Value := by
    rw [hnat]
    refine Nat.digits_ofDigits 40 (by decide) _ ?_ fun hmap => ?_
    · intro d hd
      obtain ⟨c, -, rfl⟩ := mem_map.mp hd
      exact base40Value_lt c
    · rw [getLast_map, ne_eq, base40Value_eq_zero (hchars _ (getLast_mem hne))]
      exact hlast
  have hpos : 1 ≤ encodeB40Callsign 0 csd := by
    have hnonzero : (encodeB40Callsign 0 csd).toNat ≠ 0 := by
      intro hzero
      rw [hzero, Nat.digits_zero] at hdigits
      exact hne (map_eq_nil_iff.mp hdigits.symm)
    exact Nat.pos_iff_ne_zero.mpr hnonzero
  have hlt : (encodeB40Callsign 0 csd).toNat < 40 ^ 9 := by
    rw [hnat]
    exact (encoded_lt csd).trans_le (Nat.pow_le_pow_right (by decide) hlen)
  have hstandard : encodeB40Callsign 0 csd ≤ addressStandardMax := by
    have hmax : addressStandardMax.toNat = 40 ^ 9 - 1 := by decide
    exact UInt64.le_iff_toNat_le.mpr (by omega)
  rw [addressDecodeCsd, if_neg (by simp [addressClassify_standard hpos hstandard]),
    decodeCharacters_eq hlt, hdigits, map_map]
  congr 2
  exact map_congr_left fun c hc => getD_base40Value (hchars c hc)

/-- Standard addresses and callsigns that do not end in a space are each other's codes. -/
theorem callsign_codec :
    (∀ address, 1 ≤ address → address ≤ addressStandardMax →
      ∃ csd, addressDecodeCsd address = .ok csd ∧ encodeB40Callsign 0 csd = address) ∧
    ∀ (csd : List UInt8) (hne : csd ≠ []), csd.length ≤ 9 → (∀ c ∈ csd, IsBase40 c) →
      csd.getLast hne ≠ 32 →
      addressDecodeCsd (encodeB40Callsign 0 csd) = .ok ((csd.map upperAscii).rightpad 10 0) := by
  constructor
  · intro address hpos h
    exact encode_decode hpos h
  · intro csd hne hlen hchars hlast
    exact decode_encode hlen hchars hne hlast

/-- The highest standard address is nine full stops, and two letters round a space are kept. -/
theorem callsign_codec_stops :
    (∃ csd, addressDecodeCsd addressStandardMax = .ok csd ∧
      encodeB40Callsign 0 csd = addressStandardMax) ∧
    addressDecodeCsd (encodeB40Callsign 0 [97, 32, 66]) = .ok ([65, 32, 66].rightpad 10 0) := by
  constructor
  · exact callsign_codec.1 addressStandardMax (by decide) (by decide)
  · have hchars : ∀ c ∈ ([97, 32, 66] : List UInt8), IsBase40 c := by
      simp only [forall_mem_cons, IsBase40]
      refine ⟨?_, ?_, ?_, by simp⟩ <;> decide
    exact callsign_codec.2 [97, 32, 66] (by decide) (by decide) hchars (by decide)

end DsdNeo.M17
