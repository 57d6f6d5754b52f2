import DsdNeo.Models.Fec.Golay2412

/-!
# The link information channel

The LICH of `m17_algorithms.c` and `m17.c`: a link setup frame goes out in six chunks of forty
bits, each with its number in four Golay words. The receiver puts what it decodes in its place,
in whatever order it comes, and closes the frame at the last chunk.
-/

namespace DsdNeo.M17

open Fec.Golay2412 List

/-- `m17_golay24_encode12_bits`. -/
def golay24Encode12Bits (dataBits : ℕ → UInt8) : ℕ → UInt8 := fun i =>
  encode (fun k => dataBits k &&& 1) i &&& 1

/-- `m17_golay24_decode24_bits`: whether the word was corrected, and its data. -/
def golay24Decode24Bits (encodedBits : ℕ → UInt8) : Bool × (ℕ → UInt8) :=
  let rx := decode (clipped fun i => encodedBits i &&& 1)
  (rx.1, fun i => rx.2 i &&& 1)

/-- `m17_lich_build_content`. -/
def lichBuildContent (lsfBits : ℕ → UInt8) (lichCnt : UInt8) : Option (ℕ → UInt8) :=
  if lichCnt ≥ 6 then none
  else some fun i =>
    if i < 40 then lsfBits (lichCnt.toNat * 40 + i) &&& 1
    else if i = 40 then (lichCnt >>> 2) &&& 1
    else if i = 41 then (lichCnt >>> 1) &&& 1
    else if i = 42 then lichCnt &&& 1
    else 0

/-- `m17_lich_parse_content`, the reserved bits aside. -/
def lichParseContent (lichContent : ℕ → UInt8) : Bool × UInt8 :=
  let cnt := ((lichContent 40 &&& 1) <<< 2) ||| ((lichContent 41 &&& 1) <<< 1) |||
    (lichContent 42 &&& 1)
  (cnt < 6, cnt)

/-- `m17_lich_encode_bits`. -/
def lichEncodeBits (lichContent : ℕ → UInt8) : ℕ → UInt8 := fun j =>
  golay24Encode12Bits (fun i => lichContent (j / 24 * 12 + i)) (j % 24)

/-- `m17_lich_decode_bits`. -/
def lichDecodeBits (encodedBits : ℕ → UInt8) : Bool × (ℕ → UInt8) :=
  let block b := golay24Decode24Bits fun i => encodedBits (b * 24 + i)
  ((List.range 4).all fun b => (block b).1, fun i => (block (i / 12)).2 (i % 12))

/-- `m17_process_lich`: `m17_lsf` after it, and what `M17finalizeLICH` was called on. -/
def processLich (m17Lsf : ℕ → UInt8) (lichBits : ℕ → UInt8) : (ℕ → UInt8) × Option (ℕ → UInt8) :=
  let lichDecoded := lichDecodeBits lichBits
  let lichCounter := lichParseContent lichDecoded.2
  if lichDecoded.1 && lichCounter.1 then
    let start := lichCounter.2.toNat * 40
    let stored := fun i =>
      if start ≤ i ∧ i < start + 40 then lichDecoded.2 (i - start) else m17Lsf i
    if lichCounter.2 = 5 then (fun _ => 0, some stored) else (stored, none)
  else (m17Lsf, none)

/-- The words of a stream one after the other, with what was finalized. -/
def processStream (m17Lsf : ℕ → UInt8) : List (ℕ → UInt8) → (ℕ → UInt8) × List (ℕ → UInt8)
  | [] => (m17Lsf, [])
  | lichBits :: rest =>
    let s := processLich m17Lsf lichBits
    let t := processStream s.1 rest
    (t.1, s.2.toList ++ t.2)

/-- A word as received that carries one chunk of an LSF, with up to three bits in error in each
of its Golay words. -/
def Carries (lsf : ℕ → UInt8) (lichCnt : UInt8) (lichBits : ℕ → UInt8) : Prop :=
  ∃ content, lichBuildContent lsf lichCnt = some content ∧ ∀ b < 4, ∃ errors ⊆ Finset.range 24,
    errors.card ≤ 3 ∧ ∀ k < 24, lichBits (b * 24 + k) &&& 1 =
      if k ∈ errors then lichEncodeBits content (b * 24 + k) ^^^ 1
      else lichEncodeBits content (b * 24 + k)

variable {lsf m17Lsf lichBits content : ℕ → UInt8} {lichCnt : UInt8}

theorem and_one_bit (x : UInt8) : x &&& 1 = 0 ∨ x &&& 1 = 1 := by
  rw [← UInt8.toNat_inj, ← UInt8.toNat_inj, UInt8.toNat_and]
  exact (Nat.and_one_is_mod x.toNat).symm ▸ Nat.mod_two_eq_zero_or_one _

theorem and_one_of_bit {x : UInt8} (h : x = 0 ∨ x = 1) : x &&& 1 = x := by
  rcases h with rfl | rfl <;> rfl

/-- Golay words with up to three bits in error give their data back. -/
theorem golay24Decode24Bits_received {dataBits : ℕ → UInt8} {errors : Finset ℕ}
    (hplaces : errors ⊆ Finset.range 24) (hfew : errors.card ≤ 3)
    (h : ∀ k < 24, lichBits k &&& 1 = if k ∈ errors then golay24Encode12Bits dataBits k ^^^ 1
      else golay24Encode12Bits dataBits k) :
    (golay24Decode24Bits lichBits).1 = true ∧
      ∀ i < 12, (golay24Decode24Bits lichBits).2 i = dataBits i &&& 1 := by
  have hsent : ∀ k, golay24Encode12Bits dataBits k = encode (fun k => dataBits k &&& 1) k :=
    fun k => and_one_of_bit (encode_bit _ k)
  simp only [hsent] at h
  have hdecode := decode_clipped (encode_isCodeword _) hplaces hfew h
  rw [golay24Decode24Bits, hdecode]
  refine ⟨rfl, fun i hi => ?_⟩
  dsimp only
  rw [clipped, if_pos (by omega), and_one_of_bit (encode_bit _ i),
    encode_data (fun k _ => and_one_bit _) hi]

theorem lichBuildContent_bit (h : lichBuildContent lsf lichCnt = some content) (i : ℕ) :
    content i &&& 1 = content i := by
  rw [lichBuildContent] at h
  split_ifs at h
  obtain rfl := Option.some.inj h
  dsimp only
  split_ifs
  all_goals exact and_one_of_bit (by first | exact and_one_bit _ | exact Or.inl rfl)

/-- A word that carries a chunk is decoded to its content. -/
theorem Carries.decode (h : Carries lsf lichCnt lichBits) :
    ∃ content, lichBuildContent lsf lichCnt = some content ∧ (lichDecodeBits lichBits).1 = true ∧
      ∀ i < 48, (lichDecodeBits lichBits).2 i = content i := by
  obtain ⟨content, hcontent, hblocks⟩ := h
  have hblock : ∀ b < 4, (golay24Decode24Bits fun i => lichBits (b * 24 + i)).1 = true ∧
      ∀ i < 12, (golay24Decode24Bits fun i => lichBits (b * 24 + i)).2 i =
        content (b * 12 + i) := by
    intro b hb
    obtain ⟨errors, hplaces, hfew, hk⟩ := hblocks b hb
    have hreceived : ∀ k < 24, lichBits (b * 24 + k) &&& 1 =
        if k ∈ errors then golay24Encode12Bits (fun i => content (b * 12 + i)) k ^^^ 1
        else golay24Encode12Bits (fun i => content (b * 12 + i)) k := by
      intro k hk24
      have hsent := hk k hk24
      rwa [lichEncodeBits, show (b * 24 + k) / 24 = b by omega,
        show (b * 24 + k) % 24 = k by omega] at hsent
    obtain ⟨hok, hdata⟩ := golay24Decode24Bits_received hplaces hfew hreceived
    exact ⟨hok, fun i hi => (hdata i hi).trans (lichBuildContent_bit hcontent _)⟩
  refine ⟨content, hcontent, ?_, fun i hi => ?_⟩
  · simp only [lichDecodeBits, all_eq_true, mem_range]
    exact fun b hb => (hblock b hb).1
  · have hplace := (hblock (i / 12) (by omega)).2 (i % 12) (Nat.mod_lt _ (by decide))
    rwa [show i / 12 * 12 + i % 12 = i by omega] at hplace

theorem lichParseContent_eq (h : lichBuildContent lsf lichCnt = some content)
    {decoded : ℕ → UInt8} (hsame : ∀ i < 48, decoded i = content i) :
    lichParseContent decoded = (true, lichCnt) := by
  rw [lichBuildContent] at h
  split_ifs at h with hcnt
  obtain rfl := Option.some.inj h
  have h40 : decoded 40 = (lichCnt >>> 2) &&& 1 := hsame 40 (by decide)
  have h41 : decoded 41 = (lichCnt >>> 1) &&& 1 := hsame 41 (by decide)
  have h42 : decoded 42 = lichCnt &&& 1 := hsame 42 (by decide)
  have hcases : lichCnt = 0 ∨ lichCnt = 1 ∨ lichCnt = 2 ∨ lichCnt = 3 ∨ lichCnt = 4 ∨
      lichCnt = 5 := by
    rw [ge_iff_le, UInt8.le_iff_toNat_le] at hcnt
    simp only [← UInt8.toNat_inj, UInt8.reduceToNat] at hcnt ⊢
    omega
  rw [lichParseContent, h40, h41, h42]
  rcases hcases with rfl | rfl | rfl | rfl | rfl | rfl <;> rfl

/-- What a word that carries a chunk does to the LSF. -/
theorem processLich_carries (h : Carries lsf lichCnt lichBits) :
    lichCnt.toNat < 6 ∧ ∃ stored : ℕ → UInt8,
      (∀ i, stored i = if i / 40 = lichCnt.toNat then lsf i &&& 1 else m17Lsf i) ∧
      processLich m17Lsf lichBits =
        if lichCnt = 5 then (fun _ => 0, some stored) else (stored, none) := by
  obtain ⟨content, hcontent, hok, hsame⟩ := h.decode
  have hparse := lichParseContent_eq hcontent hsame
  rw [lichBuildContent] at hcontent
  split_ifs at hcontent with hcnt
  rw [ge_iff_le, UInt8.le_iff_toNat_le] at hcnt
  refine ⟨Nat.lt_of_not_le hcnt, fun i => if i / 40 = lichCnt.toNat then lsf i &&& 1 else m17Lsf i,
    fun i => rfl, ?_⟩
  have hstored : (fun i => if lichCnt.toNat * 40 ≤ i ∧ i < lichCnt.toNat * 40 + 40 then
      (lichDecodeBits lichBits).2 (i - lichCnt.toNat * 40) else m17Lsf i) =
      fun i => if i / 40 = lichCnt.toNat then lsf i &&& 1 else m17Lsf i := by
    ext1 i
    by_cases hi : lichCnt.toNat * 40 ≤ i ∧ i < lichCnt.toNat * 40 + 40
    · have hplace : i - lichCnt.toNat * 40 < 40 := by omega
      rw [if_pos hi, if_pos (by omega), hsame _ (by omega), ← Option.some.inj hcontent]
      dsimp only
      rw [if_pos hplace, Nat.add_sub_cancel' hi.1]
    · rw [if_neg hi, if_neg (by omega)]
  rw [processLich, hok, hparse]
  dsimp only
  rw [hstored]
  rfl

/-- A word as it is encoded carries its chunk. -/
theorem carries_encoded (h : lichBuildContent lsf lichCnt = some content) :
    Carries lsf lichCnt (lichEncodeBits content) := by
  refine ⟨content, h, fun b _ => ⟨∅, Finset.empty_subset _, Nat.zero_le _, fun k _ => ?_⟩⟩
  rw [if_neg (Finset.notMem_empty k)]
  exact and_one_of_bit (and_one_bit _)

/-- A word with a Golay word past correction leaves the LSF alone. -/
theorem processLich_lost (h : (lichDecodeBits lichBits).1 = false) :
    processLich m17Lsf lichBits = (m17Lsf, none) := by
  rw [processLich, h, Bool.false_and]
  rfl

/-- Whatever the order of the first five chunks, and whatever is repeated or lost between them,
the LSF that is finalized has every chunk heard as it was sent, and the next starts from zero. -/
theorem lich_reassembles (lsf m17Lsf lastBits : ℕ → UInt8)
    (words : List (Option UInt8 × (ℕ → UInt8)))
    (hwords : ∀ w ∈ words, (∃ cnt ≠ 5, w.1 = some cnt ∧ Carries lsf cnt w.2) ∨
      w.1 = none ∧ (lichDecodeBits w.2).1 = false)
    (hlast : Carries lsf 5 lastBits) :
    ∃ final : ℕ → UInt8,
      processStream m17Lsf (words.map Prod.snd ++ [lastBits]) = (fun _ => 0, [final]) ∧
      ∀ i < 240, final i =
        if i / 40 = 5 ∨ ∃ w ∈ words, w.1 = some (UInt8.ofNat (i / 40)) then lsf i &&& 1
        else m17Lsf i := by
  induction words generalizing m17Lsf with
  | nil =>
    obtain ⟨-, stored, hstored, hfinal⟩ := @processLich_carries lsf m17Lsf _ _ hlast
    refine ⟨stored, ?_, fun i hi => ?_⟩
    · rw [map_nil, nil_append, processStream, hfinal]
      rfl
    · rw [hstored]
      simp
  | cons w words ih =>
    obtain ⟨hword, hrest⟩ := forall_mem_cons.mp hwords
    rcases hword with ⟨cnt, hne, htag, hcarries⟩ | ⟨htag, hlost⟩
    · obtain ⟨hsix, stored, hstored, hstep⟩ := @processLich_carries lsf m17Lsf _ _ hcarries
      obtain ⟨final, hrun, hfinal⟩ := ih stored hrest
      refine ⟨final, ?_, fun i hi => ?_⟩
      · rw [map_cons, cons_append, processStream, hstep, if_neg hne, hrun]
        rfl
      · have hsame : i / 40 = cnt.toNat ↔ some cnt = some (UInt8.ofNat (i / 40)) := by
          rw [Option.some.injEq, ← UInt8.toNat_inj, UInt8.toNat_ofNat']
          omega
        rw [hfinal i hi, hstored]
        simp only [exists_mem_cons_iff, htag, ← hsame]
        rw [← ite_or]
        exact if_congr (or_assoc.trans (or_congr_right or_comm)) rfl rfl
    · obtain ⟨final, hrun, hfinal⟩ := ih m17Lsf hrest
      refine ⟨final, ?_, fun i hi => ?_⟩
      · rw [map_cons, cons_append, processStream, processLich_lost hlost]
        exact hrun
      · rw [hfinal i hi]
        simp only [exists_mem_cons_iff, htag, reduceCtorEq, false_or]

/-- Two fragments of one message. -/
theorem lich_reassembles_two : ∃ final : ℕ → UInt8,
    processStream (fun _ => 0)
        [lichEncodeBits fun i => if i < 40 then 1 else if i = 41 then 1 else 0,
          lichEncodeBits fun i => if i < 40 then 1 else if i = 40 ∨ i = 42 then 1 else 0] =
      (fun _ => 0, [final]) ∧ ∀ i < 240, final i = if i / 40 = 5 ∨ i / 40 = 2 then 1 else 0 := by
  have hsecond : lichBuildContent (fun _ => 1) 2 =
      some fun i => if i < 40 then 1 else if i = 41 then 1 else 0 := by
    rw [lichBuildContent, if_neg (by decide)]
    refine congrArg some (funext fun i => ?_)
    split_ifs <;> first | rfl | omega
  have hlast : lichBuildContent (fun _ => 1) 5 =
      some fun i => if i < 40 then 1 else if i = 40 ∨ i = 42 then 1 else 0 := by
    rw [lichBuildContent, if_neg (by decide)]
    refine congrArg some (funext fun i => ?_)
    split_ifs <;> first | rfl | omega
  obtain ⟨final, hrun, hfinal⟩ := lich_reassembles (fun _ => 1) (fun _ => 0) _ [(some 2, _)]
    (forall_mem_singleton.mpr (Or.inl ⟨2, by decide, rfl, carries_encoded hsecond⟩))
    (carries_encoded hlast)
  refine ⟨final, hrun, fun i hi => (hfinal i hi).trans ?_⟩
  have hword : UInt8.ofNat (i / 40) = 2 ↔ i / 40 = 2 := by
    rw [← UInt8.toNat_inj, UInt8.toNat_ofNat']
    change i / 40 % 2 ^ 8 = 2 ↔ _
    omega
  simp [@eq_comm _ (2 : UInt8), hword]

end DsdNeo.M17
