import DsdNeo.Models.Alias.Blocks
import Mathlib.Data.List.TakeWhile

/-!
# Whole records of a talker alias

A record sent block by block stands in the row when the last block is there, and nothing after
it. So its length is told rightly just when none of its words is zero, for the first that is ends
the count; and a record whose length is right checks, and is decoded to what was sent.
-/

namespace DsdNeo.Alias

open List

open Tape (numberAt)

/-- What is sent: an identity and an alias of so many words. -/
structure Record where
  fqsuid : BitVec 56
  octets : List (BitVec 8)
  words : ℕ
  words_pos : 1 ≤ words
  words_le : 2 * words ≤ 200
  length_octets : octets.length = 2 * words

namespace Record

variable (r : Record)

/-- The bits a record is checked over. -/
def body (k : ℕ) : Bool :=
  if k < 56 then r.fqsuid.getMsbD k
  else (r.octets.getD ((k - 56) / 8) 0).getMsbD ((k - 56) % 8)

/-- The check of a record. -/
def crc : BitVec 16 :=
  Dmr.DataBlocks.crcCcitt16Bits ((List.range (56 + 16 * r.words)).map r.body)

/-- The bits of a record, and zeros after them. -/
def cell (k : ℕ) : Bool :=
  if k < 56 + 16 * r.words then r.body k else r.crc.getMsbD (k - (56 + 16 * r.words))

/-- How many blocks a record takes. -/
def blockCount : ℕ := (56 + 16 * r.words + 16 + 43) / 44

/-- A header and blocks a record is sent as. -/
structure SentAs (header : Cells) (blocks : List Cells) : Prop where
  code : numberAt header 0 16 = 0x1590
  count : numberAt header 32 8 = r.blockCount
  length_blocks : blocks.length = r.blockCount
  inOrder : InOrder header blocks
  data : ∀ i (h : i < blocks.length), ∀ j < 44, blocks[i] (28 + j) = r.cell (44 * i + j)

/-- No word of the alias is zero, nor the check. -/
def NoZeroWord : Prop :=
  (∀ i < r.words, ¬ (r.octets.getD (2 * i) 0 = 0 ∧ r.octets.getD (2 * i + 1) 0 = 0)) ∧ r.crc ≠ 0

variable {r} {header : Cells} {blocks : List Cells} {lc : Cells} {s : Store} {i k : ℕ}

theorem cell_past (h : 56 + 16 * r.words + 16 ≤ k) : r.cell k = false := by
  rw [cell, if_neg (by omega), BitVec.getMsbD_of_ge _ _ (by omega)]

theorem covers : 56 + 16 * r.words + 16 ≤ 44 * r.blockCount := by
  unfold blockCount
  omega

theorem blockCount_le : r.blockCount ≤ 38 ∧ 1 ≤ r.blockCount := by
  have := r.words_le
  unfold blockCount
  omega

theorem cell_octet (hi : i < 2 * r.words) (hk : k < 8) :
    r.cell (56 + 8 * i + k) = (r.octets.getD i 0).getMsbD k := by
  rw [cell, if_pos (by omega), body, if_neg (by omega)]
  congr 2 <;> omega

theorem cell_crc : r.cell (56 + 16 * r.words + k) = r.crc.getMsbD k := by
  rw [cell, if_neg (by omega), Nat.add_sub_cancel_left]

theorem numberAt_getMsbD {cells : Cells} {w pos : ℕ} {v : BitVec w}
    (h : ∀ k < w, cells (pos + k) = v.getMsbD k) : numberAt cells pos w = v.toNat := by
  refine Tape.numberAt_eq v.isLt fun k hk => ?_
  rw [h k hk, BitVec.getMsbD_eq_getLsbD]
  simp [hk, BitVec.getLsbD]

theorem word_crc : numberAt r.cell (56 + 16 * r.words) 16 = r.crc.toNat :=
  numberAt_getMsbD fun _ _ => cell_crc

theorem word_eq_zero (hi : i < r.words) : numberAt r.cell (56 + 16 * i) 16 = 0 ↔
    r.octets.getD (2 * i) 0 = 0 ∧ r.octets.getD (2 * i + 1) 0 = 0 := by
  have hfirst : ∀ k < 8, r.cell (56 + 16 * i + k) = (r.octets.getD (2 * i) 0).getMsbD k := by
    intro k hk
    rw [← cell_octet (by omega) hk]
    congr 1
    omega
  have hsecond : ∀ k < 8,
      r.cell (56 + 16 * i + (8 + k)) = (r.octets.getD (2 * i + 1) 0).getMsbD k := by
    intro k hk
    rw [← cell_octet (by omega) hk]
    congr 1
    omega
  have hzero : ∀ v : BitVec 8, v = 0 ↔ ∀ k < 8, v.getMsbD k = false := by
    intro v
    refine ⟨by rintro rfl; simp, fun h => BitVec.eq_of_getMsbD_eq fun k hk => ?_⟩
    simp [h k hk]
  rw [Tape.numberAt_eq_zero, hzero, hzero]
  constructor
  · intro h
    refine ⟨fun k hk => ?_, fun k hk => ?_⟩
    · rw [← hfirst k hk, h k (by omega)]
    · rw [← hsecond k hk, h (8 + k) (by omega)]
  · rintro ⟨h, h'⟩ k hk
    rcases Nat.lt_or_ge k 8 with hlt | hge
    · rw [hfirst k hlt, h k hlt]
    · obtain ⟨k, rfl⟩ := Nat.exists_eq_add_of_le hge
      rw [hsecond k (by omega), h' k (by omega)]

theorem noZeroWord_iff :
    r.NoZeroWord ↔ ∀ i < r.words + 1, numberAt r.cell (56 + 16 * i) 16 ≠ 0 := by
  have hcrc : r.crc ≠ 0 ↔ numberAt r.cell (56 + 16 * r.words) 16 ≠ 0 := by
    rw [word_crc, Ne, Ne, ← BitVec.toNat_inj]
    rfl
  rw [NoZeroWord, hcrc, Nat.forall_lt_succ_right]
  refine and_congr_left' (forall₂_congr fun i hi => ?_)
  rw [Ne, word_eq_zero hi]

/-- After a header and so many blocks of a record, the row holds them and zeros. -/
structure StoredAs (r : Record) (header : Cells) (blocks : ℕ) (s : Store) : Prop where
  rx : s.rx = ⟨true, numberAt header 56 4, r.blockCount, blocks + 1⟩
  header_row : ∀ k < 72, s.row k = header k
  data : ∀ k, s.row (72 + k) = (decide (k < 44 * blocks) && r.cell k)

theorem SentAs.stored_header (h : r.SentAs header blocks) (s : Store) :
    r.StoredAs header 0 (s.step (.header header)) := by
  refine ⟨?_, fun k hk => ?_, fun k => ?_⟩
  · have := blockCount_le (r := r)
    simp [Store.step, apxEmbeddedAliasHeaderPhase1, Rx.begin, h.count]
    omega
  · simp [Store.step, apxEmbeddedAliasHeaderPhase1, hk]
  · simp [Store.step, apxEmbeddedAliasHeaderPhase1]

theorem StoredAs.accepts (h : r.StoredAs header i s) (hsent : r.SentAs header blocks)
    (hi : i < blocks.length) :
    numberAt s.row 32 8 = r.blockCount ∧ numberAt s.row 0 16 = 0x1590 ∧
      numberAt blocks[i] 16 8 = i + 1 ∧ s.rx.accepts (numberAt blocks[i] 24 4) (i + 1) = true := by
  obtain ⟨hbn, hsn⟩ := hsent.inOrder i hi
  have hlen := hsent.length_blocks
  refine ⟨(stored_field h.header_row (by decide)).trans hsent.count,
    (stored_field h.header_row (by decide)).trans hsent.code, hbn, ?_⟩
  simp [Rx.accepts, h.rx, hsn]
  omega

theorem StoredAs.storeBlock (h : r.StoredAs header i s) (hsent : r.SentAs header blocks)
    (hi : i < blocks.length) :
    (∀ k < 72, storeBlock s.row (i * 44 + 72) blocks[i] k = header k) ∧
    ∀ k, storeBlock s.row (i * 44 + 72) blocks[i] (72 + k) =
      (decide (k < 44 * (i + 1)) && r.cell k) := by
  constructor
  · intro k hk
    rw [← h.header_row k hk]
    exact if_neg (by omega)
  · intro k
    by_cases hin : 44 * i ≤ k ∧ k < 44 * (i + 1)
    · obtain ⟨j, rfl⟩ := Nat.exists_eq_add_of_le hin.1
      have hdata := hsent.data i hi j (by omega)
      rw [Alias.storeBlock, if_pos (by omega), decide_eq_true hin.2, Bool.true_and, ← hdata,
        show 28 + (72 + (44 * i + j) - (i * 44 + 72)) = 28 + j by omega]
    · rw [Alias.storeBlock, if_neg (by omega), h.data]
      congr 2
      exact propext (by omega)

/-- What one more block of a record does. -/
theorem StoredAs.step (h : r.StoredAs header i s) (hsent : r.SentAs header blocks)
    (hi : i < blocks.length) :
    apxEmbeddedAliasBlocksPhase1 s blocks[i] =
      let stored : Store := ⟨Alias.storeBlock s.row (i * 44 + 72) blocks[i], s.rx.accepted (i + 1)⟩
      if r.blockCount ≠ i + 1 then (none, stored)
      else (some ⟨56 + 16 * aliasWords stored.row,
        apxEmbeddedAliasDecode (56 + 16 * aliasWords stored.row) stored.row⟩,
          { stored with row := fun _ => false }) := by
  obtain ⟨htaLen, hheader, hbn, haccepts⟩ := h.accepts hsent hi
  have hlen := hsent.length_blocks
  have hcount := blockCount_le (r := r)
  have hmissing : ¬ (r.blockCount = 0 ∨ 0x1590 ≠ 0x1590) := by omega
  have hroom : ¬ rowBits < i * 44 + 72 + 44 := by
    unfold rowBits
    omega
  simp only [apxEmbeddedAliasBlocksPhase1, htaLen, hheader, haccepts, hbn, if_neg hmissing,
    Nat.add_sub_cancel, if_neg hroom, Bool.true_eq_false, if_false]

theorem StoredAs.block (h : r.StoredAs header i s) (hsent : r.SentAs header blocks)
    (hi : i < blocks.length) (hmore : i + 1 < blocks.length) :
    r.StoredAs header (i + 1) (s.step (.block blocks[i])) := by
  have hlen := hsent.length_blocks
  obtain ⟨hrow, hdata⟩ := h.storeBlock hsent hi
  rw [Store.step, h.step hsent hi, if_pos (by omega)]
  refine ⟨?_, hrow, hdata⟩
  simp [Rx.accepted, h.rx]
  omega

theorem SentAs.stored (h : r.SentAs header (blocks ++ [lc])) (s : Store) :
    r.StoredAs header blocks.length ((s.step (.header header)).run (blocks.map .block)) := by
  have hprefix : ∀ n ≤ blocks.length, r.StoredAs header n
      ((s.step (.header header)).run ((blocks.take n).map .block)) := by
    intro n hn
    induction n with
    | zero => exact h.stored_header s
    | succ n ih =>
      have hwithin : n < (blocks ++ [lc]).length := by simp; omega
      have hnext : (blocks ++ [lc])[n] = blocks[n] := getElem_append_left (by omega)
      have hstep := (ih (by omega)).block h hwithin (by simp; omega)
      rw [hnext] at hstep
      rw [take_succ_eq_append_getElem (by omega), map_append, Store.run, foldl_append]
      exact hstep
  simpa using hprefix blocks.length le_rfl

/-- How far numbers from zero on pass a test, when one does not. -/
theorem length_takeWhile_range {p : ℕ → Bool} {k m : ℕ} (hk : k < m) (hstop : p k = false) :
    ((List.range m).takeWhile p).length = k ↔ ∀ i < k, p i = true := by
  rw [takeWhile_eq_take_findIdx_not, length_take, length_range]
  have hbound : k < (List.range m).length := by simpa using hk
  have hfind := @findIdx_eq _ (fun i => !p i) _ _ hbound
  simp only [getElem_range, hstop, Bool.not_false, true_and, Bool.not_eq_false'] at hfind
  rw [← hfind]
  omega

/-- The row when the last block is there. -/
structure StoredWhole (r : Record) (header row : Cells) : Prop where
  header_row : ∀ k < 72, row k = header k
  data : ∀ k, row (72 + k) = r.cell k

variable {row : Cells}

theorem StoredWhole.numberAt (h : r.StoredWhole header row) (pos width : ℕ) :
    numberAt row (72 + pos) width = numberAt r.cell pos width :=
  Tape.numberAt_ext fun k _ => by rw [Nat.add_assoc, h.data]

/-- The length is told rightly just when no word is zero. -/
theorem StoredWhole.aliasWords_iff (h : r.StoredWhole header row) :
    aliasWords row = r.words + 1 ↔ r.NoZeroWord := by
  have hword : ∀ i, Tape.numberAt row (72 + 56 + i * 16) 16 =
      Tape.numberAt r.cell (56 + 16 * i) 16 := by
    intro i
    rw [Nat.add_assoc, h.numberAt, Nat.mul_comm]
  have hle := r.words_le
  have hstop : Tape.numberAt r.cell (56 + 16 * (r.words + 1)) 16 = 0 :=
    Tape.numberAt_eq_zero.mpr fun k _ => cell_past (by omega)
  rw [noZeroWord_iff, aliasWords, length_takeWhile_range (by omega)]
  · simp [hword]
  · simp [hword, hstop]

theorem StoredWhole.identity (h : r.StoredWhole header row) {pos width : ℕ}
    (hfits : pos + width ≤ 56) :
    Tape.numberAt row (72 + pos) width = (r.fqsuid.extractLsb' (56 - pos - width) width).toNat := by
  rw [h.numberAt]
  refine numberAt_getMsbD fun k hk => ?_
  rw [cell, if_pos (by omega), body, if_pos (by omega), BitVec.getMsbD_eq_getLsbD,
    BitVec.getMsbD_eq_getLsbD, BitVec.getLsbD_extractLsb']
  have hplace : 56 - 1 - (pos + k) = 56 - pos - width + (width - 1 - k) := by omega
  rw [hplace, decide_eq_true (show pos + k < 56 by omega), decide_eq_true hk,
    decide_eq_true (show width - 1 - k < width by omega)]
  rfl

theorem StoredWhole.encodedOctets (h : r.StoredWhole header row) :
    encodedOctets row (2 * r.words) =
      r.octets ++ List.replicate (aliasMaxOctets - 2 * r.words) 0 := by
  rw [Alias.encodedOctets]
  congr 1
  apply ext_getElem (by simp [r.length_octets])
  intro i hi hlen
  have hwithin : i < 2 * r.words := by simpa using hi
  have hoctet : Tape.numberAt r.cell (56 + 8 * i) 8 = r.octets[i].toNat := by
    refine numberAt_getMsbD fun k hk => ?_
    rw [cell_octet hwithin hk, getD_eq_getElem?_getD, getElem?_eq_getElem hlen, Option.getD_some]
  rw [getElem_map, getElem_range, show 128 + 8 * i = 72 + (56 + 8 * i) by omega,
    h.numberAt, hoctet, BitVec.ofNat_toNat, BitVec.setWidth_eq]

theorem unscramble_buffers {octets : List (BitVec 8)} {n : ℕ} (hlen : octets.length = n)
    (hn : n ≤ aliasMaxOctets) :
    (apxEmbeddedAliasUnscramble 127 (octets ++ List.replicate (aliasMaxOctets - n) 0)
      (BitVec.ofNat 16 n) (List.replicate aliasMaxOctets 0)).map (fun out => out.take n) =
        decodeOctets 127 (BitVec.ofNat 16 n) octets := by
  unfold aliasMaxOctets at hn ⊢
  obtain ⟨decoded, hdecoded, h⟩ := decodeOctets_isSome octets (BitVec.ofNat 16 n)
  have hlimit : min (min (BitVec.ofNat 16 n).toNat
      (octets ++ List.replicate (200 - n) (0 : BitVec 8)).length)
      (List.replicate 200 (0 : BitVec 8)).length = n := by
    rw [BitVec.toNat_ofNat, Nat.mod_eq_of_lt (by omega), length_append,
      length_replicate, length_replicate, hlen]
    omega
  rw [apxEmbeddedAliasUnscramble, hlimit, take_left' hlen, h 127 le_rfl]
  simp [take_left' (hdecoded.trans hlen)]

/-- A record whose length is right is decoded. -/
theorem StoredWhole.decode (h : r.StoredWhole header row) :
    apxEmbeddedAliasDecode (56 + 16 * r.words + 16) row =
      .decoded (r.fqsuid.extractLsb' 36 20).toNat (r.fqsuid.extractLsb' 24 12).toNat
        (r.fqsuid.extractLsb' 0 24).toNat
        (decodeOctets 127 (BitVec.ofNat 16 (2 * r.words)) r.octets) := by
  have hle := r.words_le
  have hbytes : (56 + 16 * r.words + 16) / 8 - 9 = 2 * r.words := by omega
  have hcheck : Tape.numberAt row (72 + (56 + 16 * r.words + 16) - 16) 16 = r.crc.toNat := by
    rw [show 72 + (56 + 16 * r.words + 16) - 16 = 72 + (56 + 16 * r.words) by omega, h.numberAt,
      word_crc]
  have hcovered : (List.range (56 + 16 * r.words + 16 - 16)).map (fun k => row (72 + k)) =
      (List.range (56 + 16 * r.words)).map r.body := by
    rw [Nat.add_sub_cancel]
    refine map_congr_left fun k hk => ?_
    rw [h.data, cell, if_pos (mem_range.mp hk)]
  have hwacn : Tape.numberAt row 72 20 = (r.fqsuid.extractLsb' 36 20).toNat :=
    h.identity (show 0 + 20 ≤ 56 by decide)
  have hsys : Tape.numberAt row 92 12 = (r.fqsuid.extractLsb' 24 12).toNat :=
    h.identity (show 20 + 12 ≤ 56 by decide)
  have hrid : Tape.numberAt row 104 24 = (r.fqsuid.extractLsb' 0 24).toNat :=
    h.identity (show 32 + 24 ≤ 56 by decide)
  rw [apxEmbeddedAliasDecode, if_neg (by omega), if_neg (by unfold aliasMaxOctets; omega)]
  simp only [hbytes, hcheck, hcovered, h.encodedOctets,
    unscramble_buffers r.length_octets (show 2 * r.words ≤ aliasMaxOctets from hle),
    hwacn, hsys, hrid]
  exact if_neg (not_not.mpr rfl)

theorem SentAs.last (h : r.SentAs header (blocks ++ [lc])) (s : Store) :
    ∃ row, r.StoredWhole header row ∧
      (apxEmbeddedAliasBlocksPhase1 ((s.step (.header header)).run (blocks.map .block)) lc).1 =
        some ⟨56 + 16 * aliasWords row, apxEmbeddedAliasDecode (56 + 16 * aliasWords row) row⟩ := by
  have hlast : blocks.length < (blocks ++ [lc]).length := by simp
  have hlc : (blocks ++ [lc])[blocks.length] = lc := by simp
  have hstored := h.stored s
  obtain ⟨hheader, hdata⟩ := hstored.storeBlock h hlast
  have hcount : r.blockCount = blocks.length + 1 := by simpa using h.length_blocks.symm
  refine ⟨_, ⟨hheader, fun k => ?_⟩, ?_⟩
  · rw [hdata, ← hcount]
    by_cases hk : k < 44 * r.blockCount
    · rw [decide_eq_true hk, Bool.true_and]
    · rw [cell_past (covers.trans (not_lt.mp hk)), Bool.and_false]
  · have hstep := hstored.step h hlast
    rw [hlc] at hstep ⊢
    rw [hstep, if_neg (not_not.mpr hcount)]

variable (r) in
/-- The last block of a record leads to a decode of all of it. -/
def DecodedWhole (header : Cells) (blocks : List Cells) (lc : Cells) (s : Store) : Prop :=
  ∃ call, (apxEmbeddedAliasBlocksPhase1 ((s.step (.header header)).run (blocks.map .block))
      lc).1 = some call ∧
    call.numBits = 56 + 16 * r.words + 16 ∧
    call.outcome = .decoded (r.fqsuid.extractLsb' 36 20).toNat (r.fqsuid.extractLsb' 24 12).toNat
      (r.fqsuid.extractLsb' 0 24).toNat
      (decodeOctets 127 (BitVec.ofNat 16 (2 * r.words)) r.octets)

end Record

/-- A record is decoded whole just when none of its words is zero, and nothing is decoded but a
header with its blocks in order. -/
theorem records_decoded (s : Store) (ops : List Op) :
    (∀ (r : Record) (header : Cells) (blocks : List Cells) (lc : Cells),
      r.SentAs header (blocks ++ [lc]) →
        (r.DecodedWhole header blocks lc s ↔ r.NoZeroWord)) ∧
    ∀ (lc : Cells) (call : Call),
      (apxEmbeddedAliasBlocksPhase1 (Store.reset.run ops) lc).1 = some call →
        ∃ before header blocks, ops = before ++ .header header :: blocks.map .block ∧
          numberAt header 0 16 = 0x1590 ∧ InOrder header (blocks ++ [lc]) ∧
          (blocks ++ [lc]).length = numberAt header 32 8 := by
  refine ⟨fun r header blocks lc hsent => ?_, fun lc call hcall =>
    (follows_run ops).decoded hcall⟩
  obtain ⟨row, hwhole, hlast⟩ := hsent.last s
  rw [← hwhole.aliasWords_iff]
  constructor
  · rintro ⟨call, hcall, hbits, -⟩
    obtain rfl := Option.some.inj (hlast.symm.trans hcall)
    simp only at hbits
    omega
  · intro hwords
    refine ⟨_, hlast, ?_, ?_⟩
    · simp only [hwords]
      omega
    · simp only [hwords]
      exact hwhole.decode

namespace Record

variable (r : Record)

/-- A header of a record. -/
def header (sn : BitVec 4) : Cells := fun k =>
  if k < 16 then (0x1590 : BitVec 16).getMsbD k
  else if 32 ≤ k ∧ k < 40 then (BitVec.ofNat 8 r.blockCount).getMsbD (k - 32)
  else if 56 ≤ k then sn.getMsbD (k - 56)
  else false

/-- A block of a record. -/
def block (sn : BitVec 4) (i : ℕ) : Cells := fun k =>
  if k < 16 then (0x1790 : BitVec 16).getMsbD k
  else if k < 24 then (BitVec.ofNat 8 (i + 1)).getMsbD (k - 16)
  else if k < 28 then sn.getMsbD (k - 24)
  else r.cell (44 * i + (k - 28))

theorem sentAs_sender (sn : BitVec 4) :
    r.SentAs (r.header sn) ((List.range r.blockCount).map (r.block sn)) := by
  have hcount := blockCount_le (r := r)
  have hsn : Tape.numberAt (r.header sn) 56 4 = sn.toNat := by
    refine numberAt_getMsbD fun k hk => ?_
    rw [header, if_neg (by omega), if_neg (by omega), if_pos (by omega), Nat.add_sub_cancel_left]
  refine ⟨numberAt_getMsbD (v := 0x1590) fun k hk => ?_, ?_, by simp, fun i hi => ⟨?_, ?_⟩,
    fun i hi j hj => ?_⟩
  · rw [header, if_pos (by omega), Nat.zero_add]
  · rw [numberAt_getMsbD (v := BitVec.ofNat 8 r.blockCount), BitVec.toNat_ofNat]
    · omega
    · intro k hk
      rw [header, if_neg (by omega), if_pos (by omega), Nat.add_sub_cancel_left]
  · simp only [length_map, length_range] at hi
    rw [getElem_map, getElem_range, numberAt_getMsbD (v := BitVec.ofNat 8 (i + 1)),
      BitVec.toNat_ofNat]
    · omega
    · intro k hk
      rw [block, if_neg (by omega), if_pos (by omega), Nat.add_sub_cancel_left]
  · rw [getElem_map, hsn]
    refine numberAt_getMsbD fun k hk => ?_
    rw [block, if_neg (by omega), if_neg (by omega), if_pos (by omega), Nat.add_sub_cancel_left]
  · rw [getElem_map, getElem_range, block, if_neg (by omega), if_neg (by omega),
      if_neg (by omega), Nat.add_sub_cancel_left]

end Record

/-- An alias of one word. -/
def oneWord (first second : BitVec 8) : Record :=
  ⟨0x12345678901234, [first, second], 1, le_rfl, by decide, rfl⟩

/-- An alias of one word that is not zero is decoded. -/
theorem records_decoded_oneWord : (oneWord 0x12 0x34).DecodedWhole
    ((oneWord 0x12 0x34).header 5) [(oneWord 0x12 0x34).block 5 0]
    ((oneWord 0x12 0x34).block 5 1) .reset :=
  ((records_decoded .reset []).1 (oneWord 0x12 0x34) _ [_] _
    ((oneWord 0x12 0x34).sentAs_sender 5)).mpr ⟨by decide, by decide +kernel⟩

/-- An alias of one word that is zero is sent like any other, and taken for one of no words. -/
theorem records_not_decoded :
    (oneWord 0 0).SentAs ((oneWord 0 0).header 5)
      ([(oneWord 0 0).block 5 0] ++ [(oneWord 0 0).block 5 1]) ∧
    ((apxEmbeddedAliasBlocksPhase1 ((Store.reset.step (.header ((oneWord 0 0).header 5))).run
      [.block ((oneWord 0 0).block 5 0)]) ((oneWord 0 0).block 5 1)).1.map
        fun call => (call.numBits, call.outcome)) = some (56, .lengthError) := by
  refine ⟨(oneWord 0 0).sentAs_sender 5, ?_⟩
  decide +kernel

end DsdNeo.Alias
