import Mathlib.Data.Nat.Bitwise

/-!
# Protocol identifiers of a packet

`m17_encode_packet_protocol_id` of `m17.c` and `m17_packet_protocol_decode` of `m17_parse.c`. An
identifier goes into a byte, or into a lead byte that tells how many bytes follow with six bits
each. The decoder takes the shortest form alone, so that the two are inverse.
-/

namespace DsdNeo.M17

/-- `M17_PACKET_PROTOCOL_MAX`. -/
def packetProtocolMax : UInt32 := 0x1FFFFF

/-- One byte written: six bits of the identifier, or those left for the lead, under its mark. -/
def markedByte (mark shift mask identifier : UInt32) : UInt8 :=
  (mark ||| ((identifier >>> shift) &&& mask)).toUInt8

/-- `m17_encode_packet_protocol_id`: the bytes written, none for an identifier out of range. -/
def encodePacketProtocolId (identifier : UInt32) : List UInt8 :=
  if packetProtocolMax < identifier then []
  else if identifier < 0x80 then [identifier.toUInt8]
  else if identifier < 0x800 then
    [markedByte 0xC0 6 0x1F identifier, markedByte 0x80 0 0x3F identifier]
  else if identifier < 0x10000 then
    [markedByte 0xE0 12 0x0F identifier, markedByte 0x80 6 0x3F identifier,
      markedByte 0x80 0 0x3F identifier]
  else
    [markedByte 0xF0 18 0x07 identifier, markedByte 0x80 12 0x3F identifier,
      markedByte 0x80 6 0x3F identifier, markedByte 0x80 0 0x3F identifier]

/-- `m17_packet_protocol_result`. -/
structure PacketProtocolResult where
  identifier : UInt32
  length : ℕ
deriving DecidableEq, Repr

/-- `m17_packet_continuation_valid`. -/
def packetContinuationValid (byte : UInt8) : Bool := byte &&& 0xC0 == 0x80

/-- What a lead byte tells: the bytes needed, its own bits, and the least value of the form. -/
def packetLead (b0 : UInt8) : Option (ℕ × UInt32 × UInt32) :=
  if b0 &&& 0xE0 = 0xC0 then some (2, (b0 &&& 0x1F).toUInt32, 0x80)
  else if b0 &&& 0xF0 = 0xE0 then some (3, (b0 &&& 0x0F).toUInt32, 0x800)
  else if b0 &&& 0xF8 = 0xF0 then some (4, (b0 &&& 0x07).toUInt32, 0x10000)
  else none

/-- The loop over the bytes that follow the lead. -/
def packetContinuations : List UInt8 → UInt32 → Except ℤ UInt32
  | [], value => .ok value
  | byte :: bytes, value =>
    if packetContinuationValid byte then
      packetContinuations bytes ((value <<< 6) ||| (byte &&& 0x3F).toUInt32)
    else .error (-4)

/-- `m17_packet_protocol_decode`. -/
def packetProtocolDecode : List UInt8 → Except ℤ PacketProtocolResult
  | [] => .error (-2)
  | b0 :: rest =>
    if b0 < 0x80 then .ok ⟨b0.toUInt32, 1⟩
    else
      match packetLead b0 with
      | none => .error (-3)
      | some (need, value, minValue) =>
        if (b0 :: rest).length < need then .error (-2)
        else do
          let value ← packetContinuations (rest.take (need - 1)) value
          if value < minValue ∨ packetProtocolMax < value then .error (-5) else .ok ⟨value, need⟩

variable {identifier value v : UInt32}

theorem toNat_markedByte {mark mask shift : UInt32} (k q s : ℕ) (hmark : mark.toNat = 2 ^ k * q)
    (hmask : mask.toNat = 2 ^ k - 1) (hshift : shift.toNat = s) (hs : s < 32)
    (hbyte : 2 ^ k * q + 2 ^ k ≤ 256) :
    (markedByte mark shift mask identifier).toNat =
      2 ^ k * q + identifier.toNat / 2 ^ s % 2 ^ k := by
  have hlow : identifier.toNat / 2 ^ s % 2 ^ k < 2 ^ k := Nat.mod_lt _ (Nat.two_pow_pos k)
  have hshifted : (identifier >>> shift).toNat = identifier.toNat / 2 ^ s := by
    rw [UInt32.toNat_shiftRight, hshift, Nat.mod_eq_of_lt hs, Nat.shiftRight_eq_div_pow]
  rw [markedByte, UInt32.toNat_toUInt8, UInt32.toNat_or, UInt32.toNat_and, hshifted, hmark, hmask,
    Nat.and_two_pow_sub_one_eq_mod, ← Nat.two_pow_add_eq_or_of_lt hlow]
  exact Nat.mod_eq_of_lt (by omega)

theorem toNat_continuation (identifier : UInt32) :
    (markedByte 0x80 0 0x3F identifier).toNat = 128 + identifier.toNat % 64 ∧
      (markedByte 0x80 6 0x3F identifier).toNat = 128 + identifier.toNat / 64 % 64 ∧
      (markedByte 0x80 12 0x3F identifier).toNat = 128 + identifier.toNat / 4096 % 64 := by
  refine ⟨?_, ?_, ?_⟩
  · rw [toNat_markedByte 6 2 0 rfl rfl rfl (by decide) (by decide)]
    omega
  · exact toNat_markedByte 6 2 6 rfl rfl rfl (by decide) (by decide)
  · exact toNat_markedByte 6 2 12 rfl rfl rfl (by decide) (by decide)

theorem toNat_lead (identifier : UInt32) :
    (markedByte 0xC0 6 0x1F identifier).toNat = 192 + identifier.toNat / 64 % 32 ∧
      (markedByte 0xE0 12 0x0F identifier).toNat = 224 + identifier.toNat / 4096 % 16 ∧
      (markedByte 0xF0 18 0x07 identifier).toNat = 240 + identifier.toNat / 262144 % 8 := by
  refine ⟨?_, ?_, ?_⟩
  · exact toNat_markedByte 5 6 6 rfl rfl rfl (by decide) (by decide)
  · exact toNat_markedByte 4 14 12 rfl rfl rfl (by decide) (by decide)
  · exact toNat_markedByte 3 30 18 rfl rfl rfl (by decide) (by decide)

/-- A byte that follows the lead is one of those between its mark and the next. -/
theorem packetContinuationValid_iff (byte : UInt8) :
    packetContinuationValid byte = true ↔ 128 ≤ byte.toNat ∧ byte.toNat < 192 := by
  have hall : ∀ n < 256, ((n &&& 0xC0) = 0x80) ↔ (128 ≤ n ∧ n < 192) := by decide +kernel
  rw [packetContinuationValid, beq_iff_eq, ← UInt8.toNat_inj, UInt8.toNat_and]
  exact hall byte.toNat byte.toNat_lt

/-- The lead bytes of each form, with the bits they hold. -/
theorem packetLead_eq (b0 : UInt8) (h : 128 ≤ b0.toNat) :
    packetLead b0 =
      if b0.toNat < 192 then none
      else if b0.toNat < 224 then some (2, UInt32.ofNat (b0.toNat - 192), 0x80)
      else if b0.toNat < 240 then some (3, UInt32.ofNat (b0.toNat - 224), 0x800)
      else if b0.toNat < 248 then some (4, UInt32.ofNat (b0.toNat - 240), 0x10000) else none := by
  have hall : ∀ n < 256, 128 ≤ n → packetLead (UInt8.ofNat n) =
      if n < 192 then none
      else if n < 224 then some (2, UInt32.ofNat (n - 192), 0x80)
      else if n < 240 then some (3, UInt32.ofNat (n - 224), 0x800)
      else if n < 248 then some (4, UInt32.ofNat (n - 240), 0x10000)
      else none := by decide +kernel
  have hself := hall b0.toNat b0.toNat_lt h
  rwa [UInt8.ofNat_toNat] at hself

/-- Six bits more of an identifier that still has room for them. -/
theorem toNat_append {b : UInt8} (h : value.toNat < 2 ^ 26) :
    ((value <<< 6) ||| (b &&& 0x3F).toUInt32).toNat = value.toNat * 64 + b.toNat % 64 := by
  have hlow : b.toNat % 64 < 2 ^ 6 := Nat.mod_lt _ (by decide)
  have hmask : (b &&& 0x3F).toUInt32.toNat = b.toNat % 64 := by
    rw [UInt8.toNat_toUInt32, UInt8.toNat_and]
    exact Nat.and_two_pow_sub_one_eq_mod b.toNat 6
  have hshift : (value <<< 6).toNat = 2 ^ 6 * value.toNat := by
    rw [UInt32.toNat_shiftLeft]
    change value.toNat <<< 6 % 2 ^ 32 = 2 ^ 6 * value.toNat
    rw [Nat.shiftLeft_eq, Nat.mod_eq_of_lt (by omega), Nat.mul_comm]
  rw [UInt32.toNat_or, hmask, hshift, ← Nat.two_pow_add_eq_or_of_lt hlow, Nat.mul_comm]

theorem packetContinuations_cons {byte : UInt8} (h : 128 ≤ byte.toNat ∧ byte.toNat < 192)
    (bytes : List UInt8) (value : UInt32) :
    packetContinuations (byte :: bytes) value =
      packetContinuations bytes ((value <<< 6) ||| (byte &&& 0x3F).toUInt32) := by
  rw [packetContinuations, if_pos ((packetContinuationValid_iff byte).mpr h)]

/-- The bytes that followed a lead were all marked, and their bits come after its own. -/
theorem of_packetContinuations_cons {byte : UInt8} {bytes : List UInt8}
    (h : packetContinuations (byte :: bytes) value = .ok v) :
    (128 ≤ byte.toNat ∧ byte.toNat < 192) ∧
      packetContinuations bytes ((value <<< 6) ||| (byte &&& 0x3F).toUInt32) = .ok v := by
  rw [packetContinuations] at h
  split at h
  · rename_i hvalid
    exact ⟨(packetContinuationValid_iff byte).mp hvalid, h⟩
  · cases h

theorem packetProtocolDecode_lead {b0 : UInt8} {rest : List UInt8} {need : ℕ} {minValue : UInt32}
    (hhigh : 128 ≤ b0.toNat) (hlead : packetLead b0 = some (need, value, minValue))
    (hlen : need ≤ (b0 :: rest).length)
    (hrest : packetContinuations (rest.take (need - 1)) value = .ok v)
    (hmin : minValue.toNat ≤ v.toNat) (hmax : v ≤ packetProtocolMax) :
    packetProtocolDecode (b0 :: rest) = .ok ⟨v, need⟩ := by
  have hnot : ¬b0 < 0x80 := by
    rw [UInt8.lt_iff_toNat_lt]
    exact Nat.not_lt.mpr hhigh
  have hrange : ¬(v < minValue ∨ packetProtocolMax < v) := by
    rw [not_or, UInt32.not_lt, UInt32.not_lt, UInt32.le_iff_toNat_le]
    exact ⟨hmin, hmax⟩
  rw [packetProtocolDecode, if_neg hnot, hlead]
  dsimp only
  rw [if_neg (Nat.not_lt.mpr hlen), hrest]
  exact if_neg hrange

theorem of_packetProtocolDecode {b0 : UInt8} {rest : List UInt8} {result : PacketProtocolResult}
    (h : packetProtocolDecode (b0 :: rest) = .ok result) :
    b0.toNat < 128 ∧ result = ⟨b0.toUInt32, 1⟩ ∨
      128 ≤ b0.toNat ∧ ∃ value minValue,
        packetLead b0 = some (result.length, value, minValue) ∧
          result.length ≤ rest.length + 1 ∧
          packetContinuations (rest.take (result.length - 1)) value = .ok result.identifier ∧
          minValue.toNat ≤ result.identifier.toNat ∧ result.identifier ≤ packetProtocolMax := by
  rw [packetProtocolDecode] at h
  split at h
  · rename_i hlow
    rw [UInt8.lt_iff_toNat_lt] at hlow
    exact Or.inl ⟨hlow, (Except.ok.inj h).symm⟩
  · rename_i hhigh
    rw [UInt8.lt_iff_toNat_lt, Nat.not_lt] at hhigh
    refine Or.inr ⟨hhigh, ?_⟩
    cases hlead : packetLead b0 with
    | none =>
      rw [hlead] at h
      cases h
    | some form =>
      obtain ⟨need, value, minValue⟩ := form
      rw [hlead] at h
      dsimp only at h
      split at h
      · cases h
      · rename_i hlen
        cases hrest : packetContinuations (rest.take (need - 1)) value with
        | error e =>
          rw [hrest] at h
          cases h
        | ok v =>
          rw [hrest] at h
          change (if v < minValue ∨ packetProtocolMax < v then _ else _) = _ at h
          split at h
          · cases h
          · rename_i hrange
            rw [not_or, UInt32.not_lt, UInt32.not_lt, UInt32.le_iff_toNat_le] at hrange
            cases h
            exact ⟨value, minValue, rfl, Nat.not_lt.mp hlen, hrest, hrange⟩

theorem encodePacketProtocolId_eq (h : identifier ≤ packetProtocolMax) :
    encodePacketProtocolId identifier =
      if identifier.toNat < 0x80 then [identifier.toUInt8]
      else if identifier.toNat < 0x800 then
        [markedByte 0xC0 6 0x1F identifier, markedByte 0x80 0 0x3F identifier]
      else if identifier.toNat < 0x10000 then
        [markedByte 0xE0 12 0x0F identifier, markedByte 0x80 6 0x3F identifier,
          markedByte 0x80 0 0x3F identifier]
      else
        [markedByte 0xF0 18 0x07 identifier, markedByte 0x80 12 0x3F identifier,
          markedByte 0x80 6 0x3F identifier, markedByte 0x80 0 0x3F identifier] := by
  rw [encodePacketProtocolId, if_neg (UInt32.not_lt.mpr h)]
  rfl

/-- The decoder reads back every identifier with the bytes it was written in. -/
theorem packetProtocolDecode_encode (h : identifier ≤ packetProtocolMax) (rest : List UInt8) :
    packetProtocolDecode (encodePacketProtocolId identifier ++ rest) =
      .ok ⟨identifier, (encodePacketProtocolId identifier).length⟩ := by
  have hmax : identifier.toNat ≤ 2097151 := UInt32.le_iff_toNat_le.mp h
  obtain ⟨hlow, hmid, hhigh⟩ := toNat_continuation identifier
  obtain ⟨htwo, hthree, hfour⟩ := toNat_lead identifier
  rw [encodePacketProtocolId_eq h]
  split_ifs with h1 h2 h3
  · have hbyte : identifier.toUInt8.toNat = identifier.toNat := by
      rw [UInt32.toNat_toUInt8]
      exact Nat.mod_eq_of_lt (by omega)
    have hlt : identifier.toUInt8 < 0x80 := by
      rw [UInt8.lt_iff_toNat_lt, hbyte]
      exact h1
    have hback : identifier.toUInt8.toUInt32 = identifier := by
      rw [← UInt32.toNat_inj, UInt8.toNat_toUInt32, hbyte]
    rw [List.singleton_append, packetProtocolDecode, if_pos hlt, hback]
    rfl
  · have hlead := packetLead_eq (markedByte 0xC0 6 0x1F identifier) (by omega)
    rw [if_neg (by omega), if_pos (by omega)] at hlead
    refine packetProtocolDecode_lead (by omega) hlead (by simp) ?_ (Nat.not_lt.mp h1) h
    change packetContinuations [markedByte 0x80 0 0x3F identifier] _ = _
    have hvalue : (UInt32.ofNat ((markedByte 0xC0 6 0x1F identifier).toNat - 192)).toNat =
        identifier.toNat / 64 := by
      rw [UInt32.toNat_ofNat']
      omega
    rw [packetContinuations_cons (by omega)]
    refine congrArg Except.ok (UInt32.toNat_inj.mp ?_)
    rw [toNat_append (by omega), hvalue]
    omega
  · have hlead := packetLead_eq (markedByte 0xE0 12 0x0F identifier) (by omega)
    rw [if_neg (by omega), if_neg (by omega), if_pos (by omega)] at hlead
    refine packetProtocolDecode_lead (by omega) hlead (by simp) ?_ (Nat.not_lt.mp h2) h
    change packetContinuations [markedByte 0x80 6 0x3F identifier,
      markedByte 0x80 0 0x3F identifier] _ = _
    have hvalue : (UInt32.ofNat ((markedByte 0xE0 12 0x0F identifier).toNat - 224)).toNat =
        identifier.toNat / 4096 := by
      rw [UInt32.toNat_ofNat']
      omega
    rw [packetContinuations_cons (by omega), packetContinuations_cons (by omega)]
    refine congrArg Except.ok (UInt32.toNat_inj.mp ?_)
    have hsecond := toNat_append (b := markedByte 0x80 6 0x3F identifier)
      (hvalue.trans_lt (by omega))
    rw [hvalue] at hsecond
    rw [toNat_append (by omega), hsecond]
    omega
  · have hlead := packetLead_eq (markedByte 0xF0 18 0x07 identifier) (by omega)
    rw [if_neg (by omega), if_neg (by omega), if_neg (by omega), if_pos (by omega)] at hlead
    refine packetProtocolDecode_lead (by omega) hlead (by simp) ?_ (Nat.not_lt.mp h3) h
    change packetContinuations [markedByte 0x80 12 0x3F identifier,
      markedByte 0x80 6 0x3F identifier, markedByte 0x80 0 0x3F identifier] _ = _
    have hvalue : (UInt32.ofNat ((markedByte 0xF0 18 0x07 identifier).toNat - 240)).toNat =
        identifier.toNat / 262144 := by
      rw [UInt32.toNat_ofNat']
      omega
    rw [packetContinuations_cons (by omega), packetContinuations_cons (by omega),
      packetContinuations_cons (by omega)]
    refine congrArg Except.ok (UInt32.toNat_inj.mp ?_)
    have hsecond := toNat_append (b := markedByte 0x80 12 0x3F identifier)
      (hvalue.trans_lt (by omega))
    rw [hvalue] at hsecond
    have hthird := toNat_append (b := markedByte 0x80 6 0x3F identifier)
      (hsecond.trans_lt (by omega))
    rw [hsecond] at hthird
    rw [toNat_append (by omega), hthird]
    omega

/-- One byte more that followed a lead, with the bits it brought. -/
theorem of_packetContinuations_singleton {b : UInt8} (h : packetContinuations [b] value = .ok v)
    (hvalue : value.toNat < 2 ^ 26) :
    (128 ≤ b.toNat ∧ b.toNat < 192) ∧ v.toNat = value.toNat * 64 + b.toNat % 64 := by
  obtain ⟨hb, hv⟩ := of_packetContinuations_cons h
  exact ⟨hb, (congrArg UInt32.toNat (Except.ok.inj hv)).symm.trans (toNat_append hvalue)⟩

theorem encode_of_packetProtocolDecode {input : List UInt8} {result : PacketProtocolResult}
    (h : packetProtocolDecode input = .ok result) :
    result.identifier ≤ packetProtocolMax ∧
      input.take result.length = encodePacketProtocolId result.identifier := by
  cases input with
  | nil => cases h
  | cons b0 rest =>
    have hb0 := b0.toNat_lt
    obtain ⟨hlow, rfl⟩ | ⟨hhigh, value, minValue, hlead, hlen, hrest, hmin, hmax⟩ :=
      of_packetProtocolDecode h
    · have hnat : b0.toUInt32.toNat = b0.toNat := UInt8.toNat_toUInt32 b0
      have hmax : b0.toUInt32 ≤ packetProtocolMax := by
        rw [UInt32.le_iff_toNat_le, hnat]
        exact (Nat.le_of_lt hlow).trans (by decide)
      refine ⟨hmax, ?_⟩
      have hback : b0.toUInt32.toUInt8 = b0 := by
        rw [← UInt8.toNat_inj, UInt32.toNat_toUInt8, hnat]
        exact Nat.mod_eq_of_lt hb0
      rw [encodePacketProtocolId_eq hmax, hnat, if_pos hlow, hback]
      rfl
    · refine ⟨hmax, ?_⟩
      have hlimit : result.identifier.toNat ≤ 2097151 := UInt32.le_iff_toNat_le.mp hmax
      obtain ⟨hlast, hmid, hfirst⟩ := toNat_continuation result.identifier
      obtain ⟨htwo, hthree, hfour⟩ := toNat_lead result.identifier
      rw [packetLead_eq b0 hhigh] at hlead
      rw [encodePacketProtocolId_eq hmax]
      obtain ⟨identifier, length⟩ := result
      dsimp only at *
      split_ifs at hlead with h1 h2 h3 h4
      · obtain ⟨rfl, rfl, rfl⟩ := by simpa using hlead
        have hvalue : (UInt32.ofNat (b0.toNat - 192)).toNat = b0.toNat - 192 := by
          rw [UInt32.toNat_ofNat']
          omega
        obtain _ | ⟨b1, more⟩ := rest
        · simp at hlen
        obtain ⟨hb1, hv⟩ := of_packetContinuations_singleton hrest (by omega)
        change 128 ≤ identifier.toNat at hmin
        rw [if_neg (by omega), if_pos (by omega)]
        change [b0, b1] = _
        simp only [List.cons.injEq, ← UInt8.toNat_inj, and_true]
        omega
      · obtain ⟨rfl, rfl, rfl⟩ := by simpa using hlead
        have hvalue : (UInt32.ofNat (b0.toNat - 224)).toNat = b0.toNat - 224 := by
          rw [UInt32.toNat_ofNat']
          omega
        obtain _ | ⟨b1, _ | ⟨b2, more⟩⟩ := rest
        · simp at hlen
        · simp at hlen
        obtain ⟨hb1, hrest⟩ := of_packetContinuations_cons hrest
        have hsecond := toNat_append (b := b1) (hvalue.trans_lt (by omega))
        obtain ⟨hb2, hv⟩ := of_packetContinuations_singleton hrest (by omega)
        change 0x800 ≤ identifier.toNat at hmin
        rw [if_neg (by omega), if_neg (by omega), if_pos (by omega)]
        change [b0, b1, b2] = _
        simp only [List.cons.injEq, ← UInt8.toNat_inj, and_true]
        omega
      · obtain ⟨rfl, rfl, rfl⟩ := by simpa using hlead
        have hvalue : (UInt32.ofNat (b0.toNat - 240)).toNat = b0.toNat - 240 := by
          rw [UInt32.toNat_ofNat']
          omega
        obtain _ | ⟨b1, _ | ⟨b2, _ | ⟨b3, more⟩⟩⟩ := rest
        · simp at hlen
        · simp at hlen
        · simp at hlen
        obtain ⟨hb1, hrest⟩ := of_packetContinuations_cons hrest
        have hsecond := toNat_append (b := b1) (hvalue.trans_lt (by omega))
        obtain ⟨hb2, hrest⟩ := of_packetContinuations_cons hrest
        have hthird := toNat_append (b := b2) (hsecond.trans_lt (by omega))
        obtain ⟨hb3, hv⟩ := of_packetContinuations_singleton hrest (by omega)
        change 0x10000 ≤ identifier.toNat at hmin
        rw [if_neg (by omega), if_neg (by omega), if_neg (by omega)]
        change [b0, b1, b2, b3] = _
        simp only [List.cons.injEq, ← UInt8.toNat_inj, and_true]
        omega

/-- The two are inverse: an identifier within the limit is read back from its bytes, and the bytes
of a reading are those of an identifier within the limit. -/
theorem packet_protocol_codec :
    (∀ identifier ≤ packetProtocolMax, ∀ rest,
        packetProtocolDecode (encodePacketProtocolId identifier ++ rest) =
          .ok ⟨identifier, (encodePacketProtocolId identifier).length⟩) ∧
      ∀ input result, packetProtocolDecode input = .ok result →
        result.identifier ≤ packetProtocolMax ∧
          input.take result.length = encodePacketProtocolId result.identifier :=
  ⟨fun _ h rest => packetProtocolDecode_encode h rest,
    fun _ _ h => encode_of_packetProtocolDecode h⟩

/-- The greatest identifier, with a byte after it. -/
theorem packet_protocol_codec_limit :
    packetProtocolDecode (encodePacketProtocolId packetProtocolMax ++ [7]) =
      .ok ⟨packetProtocolMax, 4⟩ :=
  packet_protocol_codec.1 packetProtocolMax (by decide) [7]

/-- An overlong form of a byte, a surrogate half, and the greatest identifier. -/
example : packetProtocolDecode [0xC1, 0xBF] = .error (-5) ∧
    packetProtocolDecode [0xED, 0xA0, 0x80] = .ok ⟨0xD800, 3⟩ ∧
    packetProtocolDecode [0xF7, 0xBF, 0xBF, 0xBF, 7] = .ok ⟨0x1FFFFF, 4⟩ := by decide

end DsdNeo.M17
