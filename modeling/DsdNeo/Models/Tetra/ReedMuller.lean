import DsdNeo.Core.Bits.Weight

/-!
# The (30,14) Reed-Muller code

`tetra_fec.c`: a word is its information bits over their parity. What a received word's parity
differs by is its syndrome, and the decoder searches for the error of at most three bits that
leaves it.
-/

namespace DsdNeo.Tetra

open Bits List BitVec

/-- `k_rm3014_parity`. -/
def rm3014ParityRows : List (BitVec 16) :=
  [0x9B60, 0x2DE0, 0xFC20, 0xE03C, 0x983A, 0x5436, 0x2C2E,
    0xFFDF, 0x8339, 0x42B5, 0x21AD, 0x1273, 0x096B, 0x04E7]

/-- `rm3014_parity`. -/
def rm3014Parity (info : BitVec 16) : BitVec 16 :=
  (List.range 14).foldl
    (fun parity i =>
      if (info >>> (13 - i)) &&& 1 ≠ 0 then parity ^^^ rm3014ParityRows.getD i 0 else parity) 0

/-- `rm3014_bit_syndrome`. -/
def rm3014BitSyndrome (k : ℕ) : BitVec 16 :=
  if 16 ≤ k then rm3014ParityRows.getD (29 - k) 0 else 1#16 <<< k

/-- `tetra_rm3014_encode`. -/
def rm3014Encode (info : BitVec 16) : BitVec 32 :=
  let info := info &&& 0x3FFF
  (info.setWidth 32 <<< 16) ||| (rm3014Parity info).setWidth 32

/-- `rm3014_error_for`: the weight and the error, or none. -/
def rm3014ErrorFor (s : BitVec 16) : Option (ℕ × BitVec 32) :=
  (List.range 30).findSome? fun a =>
    let sa := rm3014BitSyndrome a
    if sa = s then some (1, 1#32 <<< a)
    else (List.range' (a + 1) (29 - a)).findSome? fun b =>
      let sab := sa ^^^ rm3014BitSyndrome b
      if sab = s then some (2, 1#32 <<< a ||| 1#32 <<< b)
      else (List.range' (b + 1) (29 - b)).findSome? fun c =>
        if sab ^^^ rm3014BitSyndrome c = s then
          some (3, 1#32 <<< a ||| 1#32 <<< b ||| 1#32 <<< c)
        else none

/-- `tetra_rm3014_decode`: the result, and the information word, which a failure leaves. -/
def rm3014Decode (received : BitVec 32) (info : BitVec 16) : ℤ × BitVec 16 :=
  if received >>> 30 ≠ 0 then (-1, info)
  else
    let s := rm3014Parity ((received >>> 16).setWidth 16) ^^^ (received &&& 0xFFFF).setWidth 16
    if s = 0 then (0, (received >>> 16).setWidth 16)
    else
      match rm3014ErrorFor s with
      | none => (-1, info)
      | some (corrected, error) => (corrected, ((received ^^^ error) >>> 16).setWidth 16)

/-- What a word's parity differs by. -/
def rm3014Syndrome (w : BitVec 32) : BitVec 16 :=
  rm3014Parity ((w >>> 16).setWidth 16) ^^^ (w &&& 0xFFFF).setWidth 16

theorem bit_ne_zero_iff (x : BitVec 16) (k : ℕ) : (x >>> k) &&& 1 ≠ 0 ↔ x.getLsbD k = true := by
  rw [show (1 : BitVec 16) = 1#16 from rfl, and_one_eq_setWidth_ofBool_getLsbD,
    getLsbD_ushiftRight, Nat.add_zero]
  cases x.getLsbD k <;> decide

/-- The parity row of a bit that is set. -/
def rm3014Term (info : BitVec 16) (i : ℕ) : BitVec 16 :=
  bif info.getLsbD (13 - i) then rm3014ParityRows.getD i 0 else 0

theorem rm3014Parity_eq (info : BitVec 16) :
    rm3014Parity info = (List.range 14).foldl (fun p i => p ^^^ rm3014Term info i) 0 := by
  have hstep : (fun (p : BitVec 16) i =>
      if (info >>> (13 - i)) &&& 1 ≠ 0 then p ^^^ rm3014ParityRows.getD i 0 else p) =
      fun p i => p ^^^ rm3014Term info i := by
    funext p i
    rw [rm3014Term]
    by_cases h : info.getLsbD (13 - i) = true
    · rw [if_pos ((bit_ne_zero_iff info _).mpr h), h, cond_true]
    · rw [if_neg fun hne => h ((bit_ne_zero_iff info _).mp hne), Bool.eq_false_iff.mpr h,
        cond_false]
      exact xor_zero.symm
  rw [rm3014Parity, hstep]

theorem rm3014Term_xor (a b : BitVec 16) (i : ℕ) :
    rm3014Term (a ^^^ b) i = rm3014Term a i ^^^ rm3014Term b i := by
  rw [rm3014Term, rm3014Term, rm3014Term, getLsbD_xor]
  cases a.getLsbD (13 - i) <;> cases b.getLsbD (13 - i) <;> simp

theorem rm3014Parity_xor (a b : BitVec 16) :
    rm3014Parity (a ^^^ b) = rm3014Parity a ^^^ rm3014Parity b := by
  have hfold : ∀ (l : List ℕ) (p q : BitVec 16),
      l.foldl (fun p i => p ^^^ rm3014Term (a ^^^ b) i) (p ^^^ q) =
        l.foldl (fun p i => p ^^^ rm3014Term a i) p ^^^
          l.foldl (fun p i => p ^^^ rm3014Term b i) q := by
    intro l
    induction l with
    | nil => exact fun p q => rfl
    | cons i l ih =>
      intro p q
      rw [foldl_cons, foldl_cons, foldl_cons, rm3014Term_xor, ← ih]
      congr 1
      ac_rfl
  rw [rm3014Parity_eq, rm3014Parity_eq, rm3014Parity_eq, ← hfold]
  rfl

theorem rm3014Syndrome_xor (a b : BitVec 32) :
    rm3014Syndrome (a ^^^ b) = rm3014Syndrome a ^^^ rm3014Syndrome b := by
  have hhigh : ((a ^^^ b) >>> 16).setWidth 16 =
      (a >>> 16).setWidth 16 ^^^ (b >>> 16).setWidth 16 := by
    refine eq_of_getLsbD_eq fun k hk => ?_
    simp [hk]
  have hlow : ((a ^^^ b) &&& 0xFFFF).setWidth 16 =
      (a &&& 0xFFFF).setWidth 16 ^^^ (b &&& 0xFFFF).setWidth 16 := by
    refine eq_of_getLsbD_eq fun k hk => ?_
    simp [hk, Bool.and_xor_distrib_right]
  rw [rm3014Syndrome, rm3014Syndrome, rm3014Syndrome, hhigh, hlow, rm3014Parity_xor]
  ac_rfl

theorem rm3014Syndrome_oneBit : ∀ k < 30, rm3014Syndrome (1#32 <<< k) = rm3014BitSyndrome k := by
  decide

theorem rm3014Syndrome_zero : rm3014Syndrome 0 = 0 := by
  decide

theorem rm3014Syndrome_ofPositions {l : List ℕ} (h : ∀ k ∈ l, k < 30) :
    rm3014Syndrome (ofPositions 32 l) = l.foldr (fun k s => rm3014BitSyndrome k ^^^ s) 0 := by
  induction l with
  | nil => exact rm3014Syndrome_zero
  | cons k l ih =>
    have hrest := ih fun j hj => h j (mem_cons_of_mem k hj)
    rw [ofPositions] at hrest
    rw [ofPositions, foldr_cons, foldr_cons, rm3014Syndrome_xor, hrest,
      rm3014Syndrome_oneBit k (h k mem_cons_self)]

theorem high_rm3014Encode (info : BitVec 16) :
    (rm3014Encode info >>> 16).setWidth 16 = info &&& 0x3FFF := by
  rw [rm3014Encode]
  generalize info &&& 0x3FFF = high
  refine eq_of_getLsbD_eq fun k hk => ?_
  have hin : 16 + k < 32 := by omega
  have hlow : ¬ 16 + k < 16 := by omega
  have hwide : k < 32 := by omega
  simp [hk, hin, hlow, hwide]

theorem low_rm3014Encode (info : BitVec 16) :
    (rm3014Encode info &&& 0xFFFF).setWidth 16 = rm3014Parity (info &&& 0x3FFF) := by
  rw [rm3014Encode]
  generalize info &&& 0x3FFF = high
  refine eq_of_getLsbD_eq fun k hk => ?_
  have hmask : ∀ j < 16, (0xFFFF : BitVec 32).getLsbD j = true := by decide
  have hwide : k < 32 := by omega
  rw [getLsbD_setWidth, getLsbD_and, hmask k hk, getLsbD_or,
    getLsbD_shiftLeft, getLsbD_setWidth, getLsbD_setWidth]
  simp [hk, hwide]

theorem rm3014Syndrome_encode (info : BitVec 16) : rm3014Syndrome (rm3014Encode info) = 0 := by
  rw [rm3014Syndrome, high_rm3014Encode, low_rm3014Encode, BitVec.xor_self]
  rfl

variable {w : BitVec 32}

theorem getLsbD_of_thirty (hw : w >>> 30 = 0) {k : ℕ} (hk : 30 ≤ k) : w.getLsbD k = false := by
  have hbit := congrArg (fun v => v.getLsbD (k - 30)) hw
  simpa [getLsbD_ushiftRight, Nat.add_sub_of_le hk] using hbit

theorem high_masked (hw : w >>> 30 = 0) :
    (w >>> 16).setWidth 16 &&& (0x3FFF : BitVec 16) = (w >>> 16).setWidth 16 := by
  refine eq_of_getLsbD_eq fun k hk => ?_
  have hmask : ∀ j < 16, (0x3FFF : BitVec 16).getLsbD j = decide (j < 14) := by decide
  rw [getLsbD_and, hmask k hk, getLsbD_setWidth, getLsbD_ushiftRight]
  by_cases h14 : k < 14
  · simp [h14]
  · simp [h14, getLsbD_of_thirty hw (show 30 ≤ 16 + k by omega)]

/-- A word of thirty bits is its information bits over its low half. -/
theorem eq_rm3014Encode (hw : w >>> 30 = 0) (hs : rm3014Syndrome w = 0) :
    rm3014Encode ((w >>> 16).setWidth 16) = w := by
  have hparity : rm3014Parity ((w >>> 16).setWidth 16) = (w &&& 0xFFFF).setWidth 16 :=
    BitVec.xor_eq_zero_iff.mp hs
  rw [rm3014Encode, high_masked hw, hparity]
  refine eq_of_getLsbD_eq fun k hk => ?_
  have hlow : ∀ j < 32, (0xFFFF : BitVec 32).getLsbD j = decide (j < 16) := by decide
  rw [getLsbD_or, getLsbD_shiftLeft, getLsbD_setWidth, getLsbD_setWidth,
    getLsbD_setWidth, getLsbD_setWidth, getLsbD_ushiftRight,
    getLsbD_and, hlow k hk]
  by_cases h16 : k < 16
  · simp [h16, hk]
  · have hback : 16 + (k - 16) = k := by omega
    have hlow : k - 16 < 16 := by omega
    have hwide : k - 16 < 32 := by omega
    simp [h16, hk, hback, hlow, hwide]

/-- The rows a word takes. -/
def rm3014Takes (w : BitVec 32) : List Bool := (List.range 14).map fun i => w.getLsbD (29 - i)

theorem sumTaken_toNat (rows : List (BitVec 16)) (takes : List Bool) (p : BitVec 16) :
    sumTaken (rows.map BitVec.toNat) takes p.toNat =
      ((rows.zip takes).foldl (fun p x => bif x.2 then p ^^^ x.1 else p) p).toNat := by
  induction rows generalizing takes p with
  | nil => rfl
  | cons row rows ih =>
    cases takes with
    | nil => rfl
    | cons take takes =>
      rw [map_cons, sumTaken, zip_cons_cons, foldl_cons, ← ih]
      cases take <;> rfl

theorem toNat_rm3014Parity (w : BitVec 32) :
    (rm3014Parity ((w >>> 16).setWidth 16)).toNat =
      sumTaken (rm3014ParityRows.map BitVec.toNat) (rm3014Takes w) 0 := by
  rw [show (0 : ℕ) = (0 : BitVec 16).toNat from rfl, sumTaken_toNat]
  refine congrArg BitVec.toNat ?_
  have hterm : ∀ i < 14, ∀ p : BitVec 16, p ^^^ rm3014Term ((w >>> 16).setWidth 16) i =
      bif w.getLsbD (29 - i) then p ^^^ rm3014ParityRows.getD i 0 else p := by
    intro i hi p
    have hbit : ((w >>> 16).setWidth 16).getLsbD (13 - i) = w.getLsbD (29 - i) := by
      rw [getLsbD_setWidth, getLsbD_ushiftRight, show 16 + (13 - i) = 29 - i by omega,
        decide_eq_true (show 13 - i < 16 by omega), Bool.true_and]
    rw [rm3014Term, hbit]
    cases w.getLsbD (29 - i)
    · exact xor_zero
    · rfl
  have hzip : rm3014ParityRows.zip (rm3014Takes w) =
      (List.range 14).map fun i => (rm3014ParityRows.getD i 0, w.getLsbD (29 - i)) := rfl
  rw [rm3014Parity_eq, hzip, foldl_map]
  exact foldl_ext _ _ _ fun p i hi => hterm i (mem_range.mp hi) p

theorem weight_eq (w : BitVec 32) (hw : w >>> 30 = 0) :
    weight w = (rm3014Takes w).count true +
      (bitsBelow 16 ((w &&& 0xFFFF).setWidth 16).toNat).length := by
  have hsplit : List.range 32 =
      List.range 16 ++ (((List.range 14).map fun i => 29 - i).reverse ++ [30, 31]) := by decide
  have hlow : bitsBelow 16 ((w &&& 0xFFFF).setWidth 16).toNat =
    (List.range 16).filter w.getLsbD := by
    refine filter_congr fun k hk => ?_
    have hk := mem_range.mp hk
    have hmask : ∀ j < 16, (0xFFFF : BitVec 32).getLsbD j = true := by decide
    rw [testBit_toNat, getLsbD_setWidth, getLsbD_and, hmask k hk,
      decide_eq_true hk, Bool.true_and, Bool.and_true]
  have hhigh : ((((List.range 14).map fun i => 29 - i).reverse ++ [30, 31]).filter
      w.getLsbD).length = (rm3014Takes w).count true := by
    rw [filter_append, filter_reverse, length_append, length_reverse,
      filter_map, length_map, filter_cons_of_neg, filter_cons_of_neg,
      filter_nil, length_nil, Nat.add_zero, rm3014Takes, List.count, countP_map,
      countP_eq_length_filter]
    · refine congrArg List.length (filter_congr fun i _ => ?_)
      cases h : w.getLsbD (29 - i) <;> simp [Function.comp_apply, h]
    · rw [getLsbD_of_thirty hw (by decide : 30 ≤ 31)]
      exact Bool.false_ne_true
    · rw [getLsbD_of_thirty hw (le_refl 30)]
      exact Bool.false_ne_true
  rw [weight, positions, hsplit, filter_append, length_append, hhigh, hlow, Nat.add_comm]

theorem keepsBit_rm3014 : keepsBit (rm3014ParityRows.map BitVec.toNat) 7 0 false = true := by
  decide +kernel

/-- Words of the code have at least eight bits. -/
theorem eq_zero_of_weight (hw : w >>> 30 = 0) (hs : rm3014Syndrome w = 0) (hlight : weight w < 8) :
    w = 0 := by
  have hparity : rm3014Parity ((w >>> 16).setWidth 16) = (w &&& 0xFFFF).setWidth 16 :=
    BitVec.xor_eq_zero_iff.mp hs
  have hsum := toNat_rm3014Parity w
  rw [hparity] at hsum
  rw [weight_eq w hw] at hlight
  have hlen : (rm3014Takes w).length = (rm3014ParityRows.map BitVec.toNat).length := by
    rw [rm3014Takes, length_map, length_range, length_map]
    rfl
  have hnone : true ∉ rm3014Takes w := by
    intro hmem
    refine clearLowest_sumTaken keepsBit_rm3014 hlen (by omega) (Or.inr hmem) ?_
    rw [← hsum]
    exact clearLowest_eq_zero (BitVec.isLt _) (by omega)
  have hzero : rm3014Takes w = List.replicate 14 false := by
    refine eq_replicate_iff.mpr ⟨hlen, fun b hb => ?_⟩
    cases b with
    | false => rfl
    | true => exact absurd hb hnone
  have hbare : weight w = 0 := by
    rw [weight_eq w hw, hsum, hzero]
    decide
  exact weight_eq_zero.mp hbare

/-- What the search returns is the word of up to three distinct positions, with their syndrome. -/
def Explains (s : BitVec 16) (r : ℕ × BitVec 32) : Prop :=
  ∃ l : List ℕ, l.Nodup ∧ (∀ k ∈ l, k < 30) ∧ l.length = r.1 ∧ r.1 ≤ 3 ∧ r.2 = ofPositions 32 l ∧
    l.foldr (fun k s => rm3014BitSyndrome k ^^^ s) 0 = s

theorem oneBits_eq_ofPositions : (∀ a < 30, 1#32 <<< a = ofPositions 32 [a]) ∧
    (∀ a < 30, ∀ b < 30, a < b → 1#32 <<< a ||| 1#32 <<< b = ofPositions 32 [a, b]) ∧
    ∀ a < 30, ∀ b < 30, ∀ c < 30, a < b → b < c →
      1#32 <<< a ||| 1#32 <<< b ||| 1#32 <<< c = ofPositions 32 [a, b, c] := by
  have hor : ∀ (l : List ℕ), l.Nodup → ∀ k < 32,
      (ofPositions 32 l).getLsbD k = decide (k ∈ l) := fun l hl k hk => getLsbD_ofPositions hl hk
  refine ⟨fun a ha => ?_, fun a ha b hb hab => ?_, fun a ha b hb c hc hab hbc => ?_⟩
  · refine eq_of_getLsbD_eq fun k hk => ?_
    rw [hor [a] (nodup_singleton a) k hk, getLsbD_oneBit hk]
    simp
  · have hne : a ≠ b := Nat.ne_of_lt hab
    refine eq_of_getLsbD_eq fun k hk => ?_
    rw [hor [a, b] (by simp [hne]) k hk, getLsbD_or, getLsbD_oneBit hk, getLsbD_oneBit hk]
    simp
  · have hab' : a ≠ b := Nat.ne_of_lt hab
    have hac' : a ≠ c := Nat.ne_of_lt (hab.trans hbc)
    have hbc' : b ≠ c := Nat.ne_of_lt hbc
    refine eq_of_getLsbD_eq fun k hk => ?_
    rw [hor [a, b, c] (by simp [hab', hac', hbc']) k hk, getLsbD_or, getLsbD_or,
      getLsbD_oneBit hk, getLsbD_oneBit hk, getLsbD_oneBit hk]
    simp [Bool.or_assoc]

theorem foldr_bitSyndrome (a b c : ℕ) :
    [a].foldr (fun k s => rm3014BitSyndrome k ^^^ s) 0 = rm3014BitSyndrome a ∧
      [a, b].foldr (fun k s => rm3014BitSyndrome k ^^^ s) 0 =
        rm3014BitSyndrome a ^^^ rm3014BitSyndrome b ∧
      [a, b, c].foldr (fun k s => rm3014BitSyndrome k ^^^ s) 0 =
        rm3014BitSyndrome a ^^^ rm3014BitSyndrome b ^^^ rm3014BitSyndrome c := by
  simp [xor_assoc]

theorem mem_range'_later {a b : ℕ} (ha : a < 30) :
    b ∈ List.range' (a + 1) (29 - a) ↔ a < b ∧ b < 30 := by
  rw [mem_range'_1]
  omega

/-- Soundness: one case for each loop. -/
theorem explains_errorFor {s : BitVec 16} {r : ℕ × BitVec 32} (h : rm3014ErrorFor s = some r) :
    Explains s r := by
  obtain ⟨hone, htwo, hthree⟩ := oneBits_eq_ofPositions
  obtain ⟨a, ha, h⟩ := exists_of_findSome?_eq_some h
  have ha := mem_range.mp ha
  dsimp only at h
  split at h
  · rename_i hs
    cases h
    exact ⟨[a], nodup_singleton a, by simpa using ha, rfl, (by decide : 1 ≤ 3), hone a ha,
      (foldr_bitSyndrome a a a).1.trans hs⟩
  · obtain ⟨b, hb, h⟩ := exists_of_findSome?_eq_some h
    obtain ⟨hab, hb⟩ := (mem_range'_later ha).mp hb
    split at h
    · rename_i hs
      cases h
      refine ⟨[a, b], ?_, ?_, rfl, (by decide : 2 ≤ 3), htwo a ha b hb hab,
        (foldr_bitSyndrome a b b).2.1.trans hs⟩
      · simp [Nat.ne_of_lt hab]
      · simp [ha, hb]
    · obtain ⟨c, hc, h⟩ := exists_of_findSome?_eq_some h
      obtain ⟨hbc, hc⟩ := (mem_range'_later hb).mp hc
      split at h
      · rename_i hs
        cases h
        refine ⟨[a, b, c], ?_, ?_, rfl, (by decide : 3 ≤ 3), hthree a ha b hb c hc hab hbc,
          (foldr_bitSyndrome a b c).2.2.trans hs⟩
        · simp [Nat.ne_of_lt hab, Nat.ne_of_lt hbc, Nat.ne_of_lt (hab.trans hbc)]
        · simp [ha, hb, hc]
      · cases h

/-- Completeness: a search that ends without an error has tried every one. -/
theorem errorFor_ne_none {s : BitVec 16} {l : List ℕ} (hl : l.Pairwise (· < ·))
    (hlt : ∀ k ∈ l, k < 30) (hlen : l.length ≤ 3) (hne : l ≠ [])
    (hs : l.foldr (fun k s => rm3014BitSyndrome k ^^^ s) 0 = s) : rm3014ErrorFor s ≠ none := by
  intro hnone
  have houter := findSome?_eq_none_iff.mp hnone
  dsimp only at houter
  match l with
  | [] => exact hne rfl
  | [a] =>
    have ha : a < 30 := hlt a mem_cons_self
    have h := houter a (mem_range.mpr ha)
    rw [if_pos ((foldr_bitSyndrome a a a).1.symm.trans hs)] at h
    cases h
  | [a, b] =>
    have ha : a < 30 := hlt a (by simp)
    have hb : b < 30 := hlt b (by simp)
    have hab : a < b := rel_of_pairwise_cons hl mem_cons_self
    have h := houter a (mem_range.mpr ha)
    split at h
    · cases h
    · have hinner := findSome?_eq_none_iff.mp h b ((mem_range'_later ha).mpr ⟨hab, hb⟩)
      rw [if_pos ((foldr_bitSyndrome a b b).2.1.symm.trans hs)] at hinner
      cases hinner
  | [a, b, c] =>
    have ha : a < 30 := hlt a (by simp)
    have hb : b < 30 := hlt b (by simp)
    have hc : c < 30 := hlt c (by simp)
    have hab : a < b := rel_of_pairwise_cons hl mem_cons_self
    have hbc : b < c := rel_of_pairwise_cons hl.of_cons mem_cons_self
    have h := houter a (mem_range.mpr ha)
    split at h
    · cases h
    · have hinner := findSome?_eq_none_iff.mp h b ((mem_range'_later ha).mpr ⟨hab, hb⟩)
      split at hinner
      · cases hinner
      · have hlast :=
          findSome?_eq_none_iff.mp hinner c ((mem_range'_later hb).mpr ⟨hbc, hc⟩)
        rw [if_pos ((foldr_bitSyndrome a b c).2.2.symm.trans hs)] at hlast
        cases hlast
  | _ :: _ :: _ :: _ :: l =>
    rw [length_cons, length_cons, length_cons, length_cons] at hlen
    omega

theorem high_rm3014Encode_zero (info : BitVec 16) : rm3014Encode info >>> 30 = 0 := by
  refine eq_of_getLsbD_eq fun k hk => ?_
  have hmask : ∀ j < 16, 14 ≤ j → (0x3FFF : BitVec 16).getLsbD j = false := by decide
  rw [rm3014Encode, getLsbD_ushiftRight, getLsbD_or, getLsbD_shiftLeft,
    getLsbD_setWidth, getLsbD_setWidth, getLsbD_and,
    getLsbD_of_ge _ (30 + k) (show 16 ≤ 30 + k by omega)]
  by_cases h32 : 30 + k < 32
  · rw [hmask (30 + k - 16) (by omega) (by omega)]
    simp
  · simp [h32]

theorem high_xor {a b : BitVec 32} (ha : a >>> 30 = 0) (hb : b >>> 30 = 0) :
    (a ^^^ b) >>> 30 = 0 := by
  rw [ushiftRight_xor_distrib, ha, hb]
  rfl

/-- Two errors of at most three bits with one syndrome are the same. -/
theorem eq_of_rm3014Syndrome_eq {e e' : BitVec 32} (he : e >>> 30 = 0) (he' : e' >>> 30 = 0)
    (hs : rm3014Syndrome e = rm3014Syndrome e') (hw : weight e ≤ 3) (hw' : weight e' ≤ 3) :
    e = e' := by
  have hsum := weight_xor_le e e'
  have hzero : rm3014Syndrome (e ^^^ e') = 0 := by
    rw [rm3014Syndrome_xor, hs, BitVec.xor_self]
    rfl
  exact BitVec.xor_eq_zero_iff.mp (eq_zero_of_weight (high_xor he he') hzero (by omega))

/-- A codeword within reach of a word, found from an error with the word's syndrome, is the only
one. -/
theorem near_rm3014 {received e : BitVec 32} (hr : received >>> 30 = 0) (he : e >>> 30 = 0)
    (hs : rm3014Syndrome e = rm3014Syndrome received) (hw : weight e ≤ 3) :
    let i := ((received ^^^ e) >>> 16).setWidth 16
    i &&& 0x3FFF = i ∧ distance received (rm3014Encode i) = weight e ∧
      ∀ j, distance received (rm3014Encode j) ≤ 3 → rm3014Encode j = rm3014Encode i := by
  have hzero : rm3014Syndrome (received ^^^ e) = 0 := by
    rw [rm3014Syndrome_xor, hs, BitVec.xor_self]
    rfl
  have hword := eq_rm3014Encode (high_xor hr he) hzero
  have hback : received ^^^ (received ^^^ e) = e := by
    rw [← xor_assoc, BitVec.xor_self, BitVec.zero_xor]
  refine ⟨high_masked (high_xor hr he), ?_, fun j hj => ?_⟩
  · rw [hword, distance, hback]
  · have hsj : rm3014Syndrome (received ^^^ rm3014Encode j) = rm3014Syndrome e := by
      rw [rm3014Syndrome_xor, rm3014Syndrome_encode, hs]
      exact xor_zero
    have hsame := eq_of_rm3014Syndrome_eq (high_xor hr (high_rm3014Encode_zero j)) he hsj hj hw
    rw [hword, ← hsame, ← xor_assoc, BitVec.xor_self, BitVec.zero_xor]

/-- Of every word of thirty bits the decoder returns the information word of the one codeword at
distance at most three, with the distance, or -1 where there is none. -/
theorem rm3014Decode_bounded_distance (received : BitVec 32) (hr : received >>> 30 = 0)
    (info : BitVec 16) :
    (∃ i, i &&& 0x3FFF = i ∧ distance received (rm3014Encode i) ≤ 3 ∧
        rm3014Decode received info = ((distance received (rm3014Encode i) : ℤ), i) ∧
        ∀ j, distance received (rm3014Encode j) ≤ 3 → rm3014Encode j = rm3014Encode i) ∨
      ((∀ j, 3 < distance received (rm3014Encode j)) ∧
        rm3014Decode received info = (-1, info)) := by
  have hdecode : rm3014Decode received info =
      if rm3014Syndrome received = 0 then ((0 : ℤ), (received >>> 16).setWidth 16)
      else match rm3014ErrorFor (rm3014Syndrome received) with
        | none => (-1, info)
        | some (corrected, error) =>
          ((corrected : ℤ), ((received ^^^ error) >>> 16).setWidth 16) := by
    rw [rm3014Decode, if_neg (not_not.mpr hr)]
    rfl
  by_cases hs : rm3014Syndrome received = 0
  · have hzero : rm3014Syndrome (0 : BitVec 32) = rm3014Syndrome received := by
      rw [hs, rm3014Syndrome_zero]
    have hweight : weight (0 : BitVec 32) = 0 := weight_eq_zero.mpr rfl
    obtain ⟨hmask, hdist, honly⟩ := near_rm3014 hr rfl hzero (hweight.le.trans (Nat.zero_le 3))
    rw [hweight] at hdist
    have hplain : received ^^^ (0 : BitVec 32) = received := xor_zero
    rw [hplain] at hmask hdist honly
    refine Or.inl ⟨_, hmask, hdist.le.trans (Nat.zero_le 3), ?_, honly⟩
    rw [hdecode, if_pos hs, hdist]
    rfl
  · cases herror : rm3014ErrorFor (rm3014Syndrome received) with
    | none =>
      refine Or.inr ⟨fun j => ?_, by rw [hdecode, if_neg hs, herror]⟩
      by_contra hnear
      have he := high_xor hr (high_rm3014Encode_zero j)
      have hsj : rm3014Syndrome (received ^^^ rm3014Encode j) = rm3014Syndrome received := by
        rw [rm3014Syndrome_xor, rm3014Syndrome_encode]
        exact xor_zero
      have hlt : ∀ k ∈ positions (received ^^^ rm3014Encode j), k < 30 := by
        intro k hk
        by_contra hge
        rw [mem_positions, getLsbD_of_thirty he (not_lt.mp hge)] at hk
        cases hk
      have hsum := rm3014Syndrome_ofPositions hlt
      rw [ofPositions_positions, hsj] at hsum
      refine errorFor_ne_none (pairwise_positions _) hlt (not_lt.mp hnear) (fun hnil => ?_)
        hsum.symm herror
      rw [hnil] at hsum
      exact hs hsum
    | some r =>
      obtain ⟨l, hnodup, hlt, hlen, hthree, hword, hsum⟩ := explains_errorFor herror
      have hlt' : ∀ k ∈ l, k < 32 := fun k hk => (hlt k hk).trans (by decide)
      have hweight : weight r.2 = r.1 := by rw [hword, weight_ofPositions hnodup hlt', hlen]
      have hhigh : r.2 >>> 30 = 0 := by
        refine eq_of_getLsbD_eq fun k hk => ?_
        rw [getLsbD_ushiftRight, hword]
        by_cases hwide : 30 + k < 32
        · rw [getLsbD_ofPositions hnodup hwide, decide_eq_false fun hmem => ?_]
          · simp
          · have := hlt _ hmem
            omega
        · rw [getLsbD_of_ge _ _ (not_lt.mp hwide)]
          simp
      have hsyn : rm3014Syndrome r.2 = rm3014Syndrome received := by
        rw [hword, rm3014Syndrome_ofPositions hlt, hsum]
      obtain ⟨hmask, hdist, honly⟩ := near_rm3014 hr hhigh hsyn (hweight.le.trans hthree)
      refine Or.inl ⟨_, hmask, hdist.le.trans (hweight.le.trans hthree), ?_, honly⟩
      rw [hdecode, if_neg hs, herror, hdist, hweight]

/-- Three bits set. -/
theorem rm3014Decode_bounded_distance_three :
    (∃ i, i &&& 0x3FFF = i ∧ distance 0x20010001 (rm3014Encode i) ≤ 3 ∧
        rm3014Decode 0x20010001 0 = ((distance 0x20010001 (rm3014Encode i) : ℤ), i) ∧
        ∀ j, distance 0x20010001 (rm3014Encode j) ≤ 3 → rm3014Encode j = rm3014Encode i) ∨
      ((∀ j, 3 < distance 0x20010001 (rm3014Encode j)) ∧ rm3014Decode 0x20010001 0 = (-1, 0)) :=
  rm3014Decode_bounded_distance 0x20010001 (by decide) 0

end DsdNeo.Tetra
