import DsdNeo.Models.M17.Codec
import DsdNeo.Models.M17.Viterbi
import DsdNeo.Models.Nxdn.Convolution

/-!
# The encoders and the decoders agree

The receiving side of link setup, stream and test frames, and the round trips
through it. The decoders start from an unknown state and stand in erasures or
plain zeros for the punctured bits; that every message still wins over every
other path is the separation of the punctured code, computed once for each of
the three puncturings.
-/

namespace DsdNeo.M17

open Reorder Trellis HalfRate CNXDNConvolution List

/-- The decoding of `M17prepareStream`: frame number and payload of a stream frame. -/
def prepareStream (m17Bits : List Bool) (d : Storage) : (ℕ × List Bool) × Storage :=
  let temp := ((streamDepuncture m17Bits).take 296).map fun b => b.toNat <<< 1
  let r := decodeFrame (hardSteps (pairs temp 148)) (List.replicate 28 0) 144 d
  (streamParseType1Bits (Bytes.bitsOf (r.1.take 18)), r.2)

/-- `m17_decode_bert_payload_bits`. -/
def decodeBertPayloadBits (m17Bits : List Bool) (d : Storage) : List Bool × Storage :=
  let temp := (depunctureP2Hard m17Bits 402).map fun b => b.toNat <<< 1
  let r := decodeFrame (hardSteps (pairs temp 201)) (List.replicate 25 0) 197 d
  ((Bytes.bitsOf r.1).take 197, r.2)

/-- The soft decoding of a link setup frame: the bytes after the lead. -/
def lsfDecode (softBits : List ℕ) : List ℕ :=
  ((viterbiDecode (List.replicate 31 0) (softDepunctureP1 softBits)).1.drop 1).take 30

private theorem separation :
    (List.range' 0 488).countP (keeps puncturePattern1) = 368 ∧
    (LinearCode.agreements (charges 0xFFFF 1 2 244 (kept (keeps puncturePattern1) 368 0 488)) <
      code.leastCharge (2 ^ 32) (fun _ => true)
        (charges 0xFFFF 1 2 244 (kept (keeps puncturePattern1) 368 0 488))) ∧
    (LinearCode.agreements (charges 2 2 2 148 (kept (keeps puncturePattern2) 272 0 296)) <
      code.leastCharge (2 ^ 32) (fun _ => true)
        (charges 2 2 2 148 (kept (keeps puncturePattern2) 272 0 296))) ∧
    LinearCode.agreements (charges 2 2 2 201 (kept (keeps puncturePattern2) 368 0 402)) <
      code.leastCharge (2 ^ 32) (fun _ => true)
        (charges 2 2 2 201 (kept (keeps puncturePattern2) 368 0 402)) := by
  refine ⟨?_, ?_, ?_, ?_⟩
  all_goals decide +kernel

/-- Received hard values of a depunctured word. -/
private theorem map_shift_masked (mask coded : List Bool) :
    (masked false mask coded).map (fun b => b.toNat <<< 1) = received 2 0 mask coded := by
  rw [map_masked, received]
  refine congrArg (masked 0 mask) (map_congr_left fun b _ => ?_)
  cases b <;> rfl

/-- From cleared metrics the shared decoder reads back any message whose puncturing
separates it, with zeros in place of the punctured bits. -/
theorem bitsOf_decodeFrame_masked {message mask : List Bool} {ceiling n : ℕ} {out : List ℕ}
    {d : Storage} (hd : ∀ j, d.metrics1.get j = 0) (hn : n = message.length + 4)
    (hmask : mask.length = 2 * n) (hsmall : 4 * n < 2 ^ 16) (hout : message.length ≤ 8 * out.length)
    (hpos : LinearCode.agreements (charges 2 2 2 n mask) <
      code.leastCharge ceiling (fun _ => true) (charges 2 2 2 n mask)) :
    Bytes.bitsOf (decodeFrame (hardSteps (pairs ((masked false mask
        (codedStream 0 (message ++ List.replicate 4 false))).map fun b => b.toNat <<< 1) n))
        out message.length d).1 = message ++ (Bytes.bitsOf out).drop message.length := by
  have hlen : (message ++ List.replicate 4 false).length = n := by simp [hn]
  have hprices := @prices_received 2 0 2 (by omega) (by omega) (by omega) mask
    (message ++ List.replicate 4 false) (by omega)
  rw [hlen] at hprices
  rw [map_shift_masked, bitsOf_decodeFrame_hard ?_ (by rw [length_pairs]; exact hsmall) hd
    (by rw [length_charges, length_pairs]) (by rw [length_pairs, hn]) hout (getD_flush message) hpos
    hprices,
    map_getD_flush]
  intro p hp
  obtain ⟨i, -, rfl⟩ := mem_map.mp hp
  exact ⟨received_le (by omega) _ _ _, received_le (by omega) _ _ _⟩

section Lsf

variable {coded : List Bool} (hcoded : coded.length = 488)

include hcoded

theorem softDepunctureP1_puncture :
    softDepunctureP1 (((punctureBits coded puncturePattern1
        (List.replicate 368 false) 368).1).map fun b => 0xFFFF * b.toNat) =
      received 0xFFFF 0x7FFF (kept (keeps puncturePattern1) 368 0 488) coded := by
  obtain ⟨hlength, rest, hpunctured⟩ := punctureBits_eq (show puncturePattern1.length ≠ 0 by decide)
    coded 368
  have hcount := separation.1
  rw [softDepunctureP1, softDepunctureP1Loop_eq _ (by rw [hcount, length_map, hlength]),
    length_map, hlength, drop_zero, hpunctured, hcoded, map_append, map_select,
    expand_select _ _ _ _ (by rw [length_kept, length_map, hcoded]), received]
  refine congrArg (masked 0x7FFF _) (map_congr_left fun b _ => ?_)
  cases b <;> rfl

end Lsf

theorem lsf_roundTrip (lsf : List.Vector Bool 240) :
    lsfDecode ((payloadDecodeBits (lsfEncodeType1Bits
      (lsf.toList ++ List.replicate 4 false)).1).map fun b => 0xFFFF * b.toNat) =
      Bytes.pack lsf.toList := by
  have hmessage : lsf.toList.length = 240 := lsf.2
  have hinput : (lsf.toList ++ List.replicate 4 false).length = 240 + 4 := by simp
  have hcoded : (codedStream 0 (lsf.toList ++ List.replicate 4 false)).length = 488 := by
    rw [length_codedStream, hinput]
  have hprices := @prices_received 0xFFFF 0x7FFF 1 (by omega) (by omega) (by omega)
    (kept (keeps puncturePattern1) 368 0 488) (lsf.toList ++ List.replicate 4 false)
      (by rw [length_kept, hinput])
  rw [hinput] at hprices
  have hbits := @bitsOf_viterbiDecode _ (List.replicate 31 0) _ _ _ 240
    (by rw [received, masked, length_zipWith, length_kept, length_map, hcoded, min_self])
    (received_le (by omega) _ _) (by decide) (by rw [length_charges]) rfl
    (fun t ht => getD_flush lsf.toList t (by omega)) separation.2.1 hprices
  have hfilled : (List.replicate 31 0).drop (240 / 8 + 1) = [] := rfl
  rw [hfilled, Bytes.bitsOf_nil, append_nil] at hbits
  have hpunctured := (punctureBits_eq (show puncturePattern1.length ≠ 0 by decide)
    (codedStream 0 (lsf.toList ++ List.replicate 4 false)) 368).1
  have hflush := map_getD_flush lsf.toList
  rw [hmessage] at hflush
  simp only [lsfEncodeType1Bits, convolutionEncodeBits_eq]
  rw [payloadDecode_payloadEncode hpunctured, lsfDecode, softDepunctureP1_puncture hcoded]
  have hbytes := viterbiDecode_lt (List.replicate 31 0)
    (received 0xFFFF 0x7FFF (kept (keeps puncturePattern1) 368 0 488)
      (codedStream 0 (lsf.toList ++ List.replicate 4 false))) (by simp [-List.reduceReplicate])
  rw [← Bytes.pack_bitsOf (fun x hx => hbytes x (mem_of_mem_drop (mem_of_mem_take hx))),
    Bytes.bitsOf_take, Bytes.bitsOf_drop, hbits, hflush]
  congr 1
  exact take_of_length_le hmessage.le

variable {frameNumber : ℕ}

private theorem frameNumber_fold (hfn : frameNumber < 2 ^ 16) {type1 : List Bool}
    (hbits : ∀ i, i < 16 → type1.getD i false = frameNumber.testBit (15 - i)) {k : ℕ}
    (hk : k ≤ 16) :
    (List.range k).foldl (fun fn i => (fn <<< 1 ||| (type1.getD i false).toNat) % 2 ^ 16) 0 =
      frameNumber / 2 ^ (16 - k) := by
  induction k with
  | zero =>
    rw [range_zero, foldl_nil]
    omega
  | succ k ih =>
    have hpow : 2 ^ (16 - k) = 2 ^ (15 - k) * 2 := by
      rw [← Nat.pow_succ]
      congr 1
      omega
    have hbit : ((type1.getD k false).toNat) = frameNumber / 2 ^ (15 - k) % 2 := by
      rw [hbits k (by omega), Nat.toNat_testBit]
    rw [range_succ, foldl_append, foldl_cons, foldl_nil, ih (by omega),
      ← Nat.shiftLeft_add_eq_or_of_lt (by rw [hbit]; omega), hbit, Nat.shiftLeft_eq, hpow,
      ← Nat.div_div_eq_div_mul, show 16 - (k + 1) = 15 - k by omega]
    have hle : frameNumber / 2 ^ (15 - k) ≤ frameNumber := Nat.div_le_self _ _
    omega

theorem streamParse_build (hfn : frameNumber < 2 ^ 16) {payload : List Bool}
    (hpayload : payload.length = 128) :
    streamParseType1Bits ((streamBuildType1Bits frameNumber payload).take 144) =
      (frameNumber, payload) := by
  have hcontent : (streamBuildType1Bits frameNumber payload).take 144 =
      ((List.range 16).map fun i => frameNumber.testBit (15 - i)) ++ payload := by
    rw [streamBuildType1Bits, take_left' (by simp)]
    refine congrArg _ (ext_getElem (by simp [hpayload]) fun i _ h => ?_)
    simp [getD_eq_getElem?_getD, getElem?_eq_getElem h]
  rw [hcontent, streamParseType1Bits, frameNumber_fold hfn ?_ le_rfl]
  · refine Prod.ext (by simp) (ext_getElem (by simp [hpayload]) fun i _ h => ?_)
    simp [getD_eq_getElem?_getD, getElem?_append, getElem?_eq_getElem h]
  · intro i hi
    simp [getD_eq_getElem?_getD, getElem?_append, hi]

theorem stream_roundTrip {d : Storage} (hd : ∀ j, d.metrics1.get j = 0) (hfn : frameNumber < 2 ^ 16)
    (payload : List.Vector Bool 128) (lich : List.Vector Bool 96) :
    (prepareStream (lich.toList ++
      streamEncodeType1Bits (streamBuildType1Bits frameNumber payload.toList)) d).1 =
      (frameNumber, payload.toList) := by
  let message := (streamBuildType1Bits frameNumber payload.toList).take 144
  have hbuild : streamBuildType1Bits frameNumber payload.toList =
      message ++ List.replicate 4 false := by
    simp only [message, streamBuildType1Bits]
    rw [take_left' (by simp)]
  have hmessage : message.length = 144 := by simp [message, streamBuildType1Bits]
  have hcoded : (codedStream 0 (message ++ List.replicate 4 false)).length = 296 := by
    rw [length_codedStream, length_append, hmessage, length_replicate]
  obtain ⟨hlength, rest, hpunctured⟩ := punctureBits_eq (show puncturePattern2.length ≠ 0 by decide)
    (codedStream 0 (message ++ List.replicate 4 false)) 272
  have hbits := @bitsOf_decodeFrame_masked message
    (kept (keeps puncturePattern2) 272 0 296) _ 148 (List.replicate 28 0) d hd (by rw [hmessage])
    (by rw [length_kept]) (by decide) (by rw [hmessage, length_replicate]; decide)
    separation.2.2.1
  rw [hmessage] at hbits
  simp only [prepareStream, streamEncodeType1Bits, convolutionEncodeBits_eq, hbuild]
  rw [streamDepuncture_eq lich.toList_length hlength, hpunctured, hcoded,
    expand_select _ _ _ _ (by rw [length_kept, hcoded]), Bytes.bitsOf_take, hbits,
    take_left' hmessage]
  exact streamParse_build hfn payload.toList_length

/-- A test frame gives back its bits. -/
theorem bert_roundTrip {d : Storage} (hd : ∀ j, d.metrics1.get j = 0)
    (bert : List.Vector Bool 197) :
    (decodeBertPayloadBits (payloadDecodeBits (bertEncodeType1Bits
      (bert.toList ++ List.replicate 4 false)).1) d).1 = bert.toList := by
  have hmessage : bert.toList.length = 197 := bert.2
  have hinput : (bert.toList ++ List.replicate 4 false).length = 201 := by simp
  have hcoded : (codedStream 0 (bert.toList ++ List.replicate 4 false)).length = 402 := by
    rw [length_codedStream, hinput]
  obtain ⟨hlength, rest, hpunctured⟩ := punctureBits_eq (show puncturePattern2.length ≠ 0 by decide)
    (codedStream 0 (bert.toList ++ List.replicate 4 false)) 368
  have hbits := @bitsOf_decodeFrame_masked bert.toList
    (kept (keeps puncturePattern2) 368 0 402) _ 201 (List.replicate 25 0) d hd (by rw [hmessage])
    (by rw [length_kept]) (by decide) (by rw [hmessage, length_replicate]; decide)
    separation.2.2.2
  rw [hmessage] at hbits
  simp only [bertEncodeType1Bits, convolutionEncodeBits_eq, decodeBertPayloadBits]
  rw [payloadDecode_payloadEncode hlength, depunctureP2Hard, depunctureP2HardLoop_eq,
    hpunctured, hcoded, drop_zero, Nat.sub_zero,
    expand_select _ _ _ _ (by rw [length_kept, hcoded]), hbits, take_left' hmessage]

/-- Every link setup frame, every stream frame and every test frame decodes to what
was encoded, the last two from cleared path metrics. -/
theorem encode_decode_agree :
    (∀ lsf : List.Vector Bool 240,
      lsfDecode ((payloadDecodeBits (lsfEncodeType1Bits
        (lsf.toList ++ List.replicate 4 false)).1).map fun b => 0xFFFF * b.toNat) =
        Bytes.pack lsf.toList) ∧
    (∀ d : Storage, (∀ j, d.metrics1.get j = 0) → ∀ frameNumber, frameNumber < 2 ^ 16 →
      ∀ (payload : List.Vector Bool 128) (lich : List.Vector Bool 96),
        (prepareStream (lich.toList ++
          streamEncodeType1Bits (streamBuildType1Bits frameNumber payload.toList)) d).1 =
          (frameNumber, payload.toList)) ∧
    (∀ d : Storage, (∀ j, d.metrics1.get j = 0) → ∀ bert : List.Vector Bool 197,
      (decodeBertPayloadBits (payloadDecodeBits (bertEncodeType1Bits
        (bert.toList ++ List.replicate 4 false)).1) d).1 = bert.toList) :=
  ⟨lsf_roundTrip, fun _ hd _ hfn payload lich => stream_roundTrip hd hfn payload lich,
    fun _ hd bert => bert_roundTrip hd bert⟩

/-- The last frame of a stream of ones, and a test frame of ones, in a fresh process. -/
theorem encode_decode_agree_fresh :
    (prepareStream (List.replicate 96 false ++ streamEncodeType1Bits
      (streamBuildType1Bits 0x8001 (List.replicate 128 true))) Storage.zero).1 =
      (0x8001, List.replicate 128 true) ∧
    (decodeBertPayloadBits (payloadDecodeBits (bertEncodeType1Bits
      (List.replicate 197 true ++ List.replicate 4 false)).1) Storage.zero).1 =
      List.replicate 197 true :=
  ⟨encode_decode_agree.2.1 Storage.zero (fun j => List.Vector.get_replicate 0 j) 0x8001 (by decide)
      (List.Vector.replicate 128 true) (List.Vector.replicate 96 false),
    encode_decode_agree.2.2 Storage.zero (fun j => List.Vector.get_replicate 0 j)
      (List.Vector.replicate 197 true)⟩

end DsdNeo.M17
