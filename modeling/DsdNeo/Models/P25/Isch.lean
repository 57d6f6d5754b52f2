import DsdNeo.Core.Bits.Weight
import Mathlib.Data.List.Pairwise

/-!
# Lookup of a received ISCH word

`isch_lookup` and `isch_lookup_soft` of `ez.cpp`: a word in the table is taken as it is, any other
goes to an entry within seven bits of it. The table is visited in an order that is not specified.
The words of the code are far enough apart for this, but the word for a synchronization is not one
of them: between it and eight of the others there is room for words within seven bits of both.
-/

namespace DsdNeo.P25

open Bits

/-- A word of the table and its value. -/
abbrev IschEntry := BitVec 64 × ℤ

/-- `isch_table`. -/
def ischTable : List IschEntry :=
  [(0x184229d461, 0), (0x18761451f6, 1), (0x181ae27e2f, 2), (0x182edffbb8, 3), (0x18df8a7510, 4),
   (0x18ebb7f087, 5), (0x188741df5e, 6), (0x18b37c5ac9, 7), (0x1146a44f13, 8), (0x117299ca84, 9),
   (0x111e6fe55d, 10), (0x112a5260ca, 11), (0x11db07ee62, 12), (0x11ef3a6bf5, 13),
   (0x1183cc442c, 14), (0x11b7f1c1bb, 15), (0x1a4a2e239e, 16), (0x1a7e13a609, 17),
   (0x1a12e589d0, 18), (0x1a26d80c47, 19), (0x1ad78d82ef, 20), (0x1ae3b00778, 21),
   (0x1a8f4628a1, 22), (0x1abb7bad36, 23), (0x134ea3b8ec, 24), (0x137a9e3d7b, 25),
   (0x13166812a2, 26), (0x1322559735, 27), (0x13d300199d, 28), (0x13e73d9c0a, 29),
   (0x138bcbb3d3, 30), (0x13bff63644, 31), (0x1442f705ef, 32), (0x1476ca8078, 33),
   (0x141a3cafa1, 34), (0x142e012a36, 35), (0x14df54a49e, 36), (0x14eb692109, 37),
   (0x14879f0ed0, 38), (0x14b3a28b47, 39), (0x1d467a9e9d, 40), (0x1d72471b0a, 41),
   (0x1d1eb134d3, 42), (0x1d2a8cb144, 43), (0x1ddbd93fec, 44), (0x1defe4ba7b, 45),
   (0x1d831295a2, 46), (0x1db72f1035, 47), (0x164af0f210, 48), (0x167ecd7787, 49),
   (0x16123b585e, 50), (0x162606ddc9, 51), (0x16d7535361, 52), (0x16e36ed6f6, 53),
   (0x168f98f92f, 54), (0x16bba57cb8, 55), (0x1f4e7d6962, 56), (0x1f7a40ecf5, 57),
   (0x1f16b6c32c, 58), (0x1f228b46bb, 59), (0x1fd3dec813, 60), (0x1fe7e34d84, 61),
   (0x1f8b15625d, 62), (0x1fbf28e7ca, 63), (0x084d62c339, 64), (0x08795f46ae, 65),
   (0x0815a96977, 66), (0x082194ece0, 67), (0x08d0c16248, 68), (0x08e4fce7df, 69),
   (0x08880ac806, 70), (0x08bc374d91, 71), (0x0149ef584b, 72), (0x017dd2dddc, 73),
   (0x011124f205, 74), (0x0125197792, 75), (0x01d44cf93a, 76), (0x01e0717cad, 77),
   (0x018c875374, 78), (0x01b8bad6e3, 79), (0x0a456534c6, 80), (0x0a7158b151, 81),
   (0x0a1dae9e88, 82), (0x0a29931b1f, 83), (0x0ad8c695b7, 84), (0x0aecfb1020, 85),
   (0x0a800d3ff9, 86), (0x0ab430ba6e, 87), (0x0341e8afb4, 88), (0x0375d52a23, 89),
   (0x03192305fa, 90), (0x032d1e806d, 91), (0x03dc4b0ec5, 92), (0x03e8768b52, 93),
   (0x038480a48b, 94), (0x03b0bd211c, 95), (0x044dbc12b7, 96), (0x0479819720, 97),
   (0x041577b8f9, 98), (0x04214a3d6e, 99), (0x04d01fb3c6, 100), (0x04e4223651, 101),
   (0x0488d41988, 102), (0x04bce99c1f, 103), (0x0d493189c5, 104), (0x0d7d0c0c52, 105),
   (0x0d11fa238b, 106), (0x0d25c7a61c, 107), (0x0dd49228b4, 108), (0x0de0afad23, 109),
   (0x0d8c5982fa, 110), (0x0db864076d, 111), (0x0645bbe548, 112), (0x06718660df, 113),
   (0x061d704f06, 114), (0x06294dca91, 115), (0x06d8184439, 116), (0x06ec25c1ae, 117),
   (0x0680d3ee77, 118), (0x06b4ee6be0, 119), (0x0f41367e3a, 120), (0x0f750bfbad, 121),
   (0x0f19fdd474, 122), (0x0f2dc051e3, 123), (0x0fdc95df4b, 124), (0x0fe8a85adc, 125),
   (0x0f845e7505, 126), (0x0fb063f092, 127), (0x575d57f7ff, -2)]

/-- The entry of a word, as a map finds it. -/
def ischFind (table : List IschEntry) (isch : BitVec 64) : Option ℤ :=
  (table.find? fun kv => kv.1 == isch).map Prod.snd

/-- `dsd_popcount64`. -/
def popcount64 (x : BitVec 64) : ℕ := weight x

/-- One entry of the hard lookup: the value decoded and its distance so far. -/
def ischStep (isch : BitVec 64) (s : ℤ × ℕ) (kv : IschEntry) : ℤ × ℕ :=
  let popct := popcount64 (isch ^^^ kv.1)
  if popct ≤ 7 ∧ popct < s.2 then (kv.2, popct) else s

/-- `isch_lookup`, the table visited in the order it is given in. -/
def ischLookup (table : List IschEntry) (isch : BitVec 64) : ℤ :=
  match ischFind table isch with
  | some value => value
  | none => (table.foldl (ischStep isch) (-2, 40)).1

/-- `isch_weighted_mismatch_cost`. -/
def ischWeightedMismatchCost (received candidate : BitVec 64) (reliab40 : Vector UInt8 40) : ℤ :=
  (List.finRange 40).foldl (fun cost i =>
    if (received ^^^ candidate) &&& (1#64 <<< (39 - i.val)) ≠ 0 then cost + (reliab40[i].toNat : ℤ)
    else cost) 0

/-- The value decoded so far, with its cost and its distance. -/
structure IschBest where
  decoded : ℤ
  cost : ℤ
  popct : ℕ

/-- One entry of the soft lookup. -/
def ischSoftStep (isch : BitVec 64) (reliab40 : Vector UInt8 40) (s : IschBest) (kv : IschEntry) :
    IschBest :=
  let popct := popcount64 (isch ^^^ kv.1)
  if 7 < popct then s
  else
    let cost := ischWeightedMismatchCost isch kv.1 reliab40
    if cost < s.cost ∨ (cost = s.cost ∧ popct < s.popct) ∨
        (cost = s.cost ∧ popct = s.popct ∧ kv.2 < s.decoded) then
      ⟨kv.2, cost, popct⟩
    else s

/-- The greatest `int`. -/
def intMax : ℤ := 2147483647

/-- `isch_lookup_soft`, which may be given no reliabilities. -/
def ischLookupSoft (table : List IschEntry) (isch : BitVec 64)
    (reliab40 : Option (Vector UInt8 40)) : ℤ :=
  match ischFind table isch with
  | some value => value
  | none =>
    match reliab40 with
    | none => ischLookup table isch
    | some reliab40 => (table.foldl (ischSoftStep isch reliab40) ⟨-2, intMax, 40⟩).decoded

/-- An entry both lookups consider. -/
def ischNear (isch : BitVec 64) (kv : IschEntry) : Bool := popcount64 (isch ^^^ kv.1) ≤ 7

/-- Entries at least fourteen bits apart, of different values. -/
def Apart (a b : IschEntry) : Prop := clearLowest 13 (a.1 ^^^ b.1).toNat ≠ 0 ∧ a.2 ≠ b.2

instance : DecidableRel Apart := fun _ _ => inferInstanceAs (Decidable (_ ∧ _))

instance : Std.Symm Apart := ⟨fun a b h => ⟨BitVec.xor_comm a.1 b.1 ▸ h.1, h.2.symm⟩⟩

/-- What the value's bits add to the word of value zero. -/
def codeRows : List (BitVec 64) :=
  [0x00343d8597, 0x0058cbaa4e, 0x009da3a171, 0x09048d9b72, 0x020807f7ff,
   0x0c00ded18e, 0x100f4b1758]

/-- The rows of a value's bits, summed, from bit `i` on. -/
def codeSum : List (BitVec 64) → ℕ → BitVec 7 → BitVec 64
  | [], _, _ => 0
  | row :: rows, i, k => (if k.getLsbD i then row else 0) ^^^ codeSum rows (i + 1) k

theorem xor_xor_cancel_left (c x y : BitVec 64) : (c ^^^ x) ^^^ (c ^^^ y) = x ^^^ y := by
  calc (c ^^^ x) ^^^ (c ^^^ y) = (c ^^^ c) ^^^ (x ^^^ y) := by ac_rfl
    _ = x ^^^ y := by rw [BitVec.xor_self, BitVec.zero_xor]

theorem codeSum_xor (rows : List (BitVec 64)) (i : ℕ) (a b : BitVec 7) :
    codeSum rows i (a ^^^ b) = codeSum rows i a ^^^ codeSum rows i b := by
  induction rows generalizing i with
  | nil => exact BitVec.xor_self.symm
  | cons row rows ih =>
    rw [codeSum, codeSum, codeSum, ih, BitVec.getLsbD_xor]
    cases a.getLsbD i with
    | false =>
      cases b.getLsbD i with
      | false => simp
      | true =>
        simp only [Bool.false_bne, if_true, Bool.false_eq_true, if_false]
        ac_rfl
    | true =>
      cases b.getLsbD i with
      | false => simp [BitVec.xor_assoc]
      | true => simpa using (xor_xor_cancel_left row _ _).symm

/-- The words but the synchronization's are a coset of a linear code of least weight sixteen,
which that one is as far from. -/
theorem ischTable_coset :
    ischTable = (List.range 128).map (fun k =>
        (0x184229d461 ^^^ codeSum codeRows 0 (BitVec.ofNat 7 k), (k : ℤ))) ++
      [(0x575d57f7ff, -2)] ∧
    (∀ k < 128, k ≠ 0 → clearLowest 13 (codeSum codeRows 0 (BitVec.ofNat 7 k)).toNat ≠ 0) ∧
    ∀ k < 128, clearLowest 13
      (0x184229d461 ^^^ codeSum codeRows 0 (BitVec.ofNat 7 k) ^^^ 0x575d57f7ff).toNat ≠ 0 := by
  decide +kernel

theorem ischTable_apart : ischTable.Pairwise Apart := by
  obtain ⟨htable, hweight, hsync⟩ := ischTable_coset
  rw [htable, List.pairwise_append]
  refine ⟨List.pairwise_map.mpr ?_, List.pairwise_singleton _ _, ?_⟩
  · refine List.pairwise_lt_range.imp_of_mem fun {a b} ha hb hlt =>
      ⟨?_, fun heq => hlt.ne (Int.ofNat.inj heq)⟩
    have ha' := List.mem_range.mp ha
    have hb' := List.mem_range.mp hb
    have hsum : (0x184229d461 ^^^ codeSum codeRows 0 (BitVec.ofNat 7 a)) ^^^
        (0x184229d461 ^^^ codeSum codeRows 0 (BitVec.ofNat 7 b)) =
        codeSum codeRows 0 (BitVec.ofNat 7 (a ^^^ b)) := by
      rw [xor_xor_cancel_left, BitVec.ofNat_xor, codeSum_xor]
    rw [hsum]
    refine hweight _ (Nat.xor_lt_two_pow (n := 7) ha' hb') fun hzero => hlt.ne ?_
    exact Nat.xor_eq_zero_iff.mp hzero
  · rintro _ ha _ hb
    obtain ⟨k, hk, rfl⟩ := List.mem_map.mp ha
    obtain rfl := List.mem_singleton.mp hb
    refine ⟨hsync k (List.mem_range.mp hk), ?_⟩
    dsimp only
    omega

theorem ischTable_nodup : ischTable.Nodup :=
  ischTable_apart.imp fun h heq => h.2 (congrArg Prod.snd heq)

/-- Two entries near one word are seven bits from it. -/
theorem distance_of_near {isch : BitVec 64} {a b : IschEntry} (ha : a ∈ ischTable)
    (hb : b ∈ ischTable) (hne : a ≠ b) (hnear : ischNear isch a = true)
    (hnear' : ischNear isch b = true) : distance isch a.1 = 7 ∧ distance isch b.1 = 7 := by
  have hapart := lt_distance (ischTable_apart.forall ha hb hne).1
  have hsum := distance_le a.1 b.1 isch
  have hle : distance isch a.1 ≤ 7 := of_decide_eq_true hnear
  have hle' : distance isch b.1 ≤ 7 := of_decide_eq_true hnear'
  omega

/-- A pass that skips what is not near goes over what is near alone. -/
theorem foldl_near {σ : Type} {near : IschEntry → Bool} {step : σ → IschEntry → σ}
    (hfar : ∀ s kv, near kv = false → step s kv = s) (order : List IschEntry) (s : σ) :
    order.foldl step s = (order.filter near).foldl step s := by
  have hstep : step = fun s kv => if near kv = true then step s kv else s := by
    ext s kv
    split
    · rfl
    · rename_i hnot
      exact hfar s kv (Bool.eq_false_of_not_eq_true hnot)
  rw [List.foldl_filter]
  exact congrArg (fun f => order.foldl f s) hstep

theorem ischStep_far {isch : BitVec 64} (s : ℤ × ℕ) (kv : IschEntry)
    (h : ischNear isch kv = false) : ischStep isch s kv = s := by
  have hgt : ¬popcount64 (isch ^^^ kv.1) ≤ 7 := of_decide_eq_false h
  rw [ischStep]
  exact if_neg fun hno => hgt hno.1

theorem ischSoftStep_far {isch : BitVec 64} (reliab40 : Vector UInt8 40) (s : IschBest)
    (kv : IschEntry) (h : ischNear isch kv = false) : ischSoftStep isch reliab40 s kv = s := by
  have hgt : ¬popcount64 (isch ^^^ kv.1) ≤ 7 := of_decide_eq_false h
  rw [ischSoftStep]
  exact if_pos (not_le.mp hgt)

theorem foldl_cost_le {received candidate : BitVec 64} {reliab40 : Vector UInt8 40}
    (places : List (Fin 40)) (cost : ℤ) :
    places.foldl (fun cost i =>
      if (received ^^^ candidate) &&& (1#64 <<< (39 - i.val)) ≠ 0 then
        cost + (reliab40[i].toNat : ℤ) else cost) cost ≤ cost + 255 * places.length := by
  induction places generalizing cost with
  | nil => simp
  | cons i places ih =>
    have hbyte := reliab40[i].toNat_lt
    rw [List.foldl_cons, List.length_cons]
    have hrest := ih (if (received ^^^ candidate) &&& (1#64 <<< (39 - i.val)) ≠ 0 then
      cost + (reliab40[i].toNat : ℤ) else cost)
    split_ifs at hrest ⊢ <;> omega

theorem ischWeightedMismatchCost_lt (received candidate : BitVec 64) (reliab40 : Vector UInt8 40) :
    ischWeightedMismatchCost received candidate reliab40 < intMax := by
  have hle : ischWeightedMismatchCost received candidate reliab40 ≤
      0 + 255 * ((List.finRange 40).length : ℤ) := foldl_cost_le _ _
  have hmax : intMax = 2147483647 := rfl
  rw [List.length_finRange] at hle
  omega

/-- No two entries are near the word. -/
def ischUnambiguous (isch : BitVec 64) : Prop :=
  ∀ a ∈ ischTable, ∀ b ∈ ischTable, ischNear isch a = true → ischNear isch b = true → a = b

variable {isch : BitVec 64} {order order' : List IschEntry}

/-- There is nothing near such a word, or one entry. -/
theorem near_cases (h : ischUnambiguous isch) : ischTable.filter (ischNear isch) = [] ∨
    ∃ a, ischNear isch a = true ∧ ischTable.filter (ischNear isch) = [a] := by
  have hnodup : (ischTable.filter (ischNear isch)).Nodup := ischTable_nodup.filter _
  have hmem : ∀ a ∈ ischTable.filter (ischNear isch), a ∈ ischTable ∧ ischNear isch a = true :=
    fun a ha => List.mem_filter.mp ha
  cases hlist : ischTable.filter (ischNear isch) with
  | nil => exact Or.inl rfl
  | cons a rest =>
    rw [hlist] at hnodup hmem
    obtain ⟨ha, hnear⟩ := hmem a List.mem_cons_self
    refine Or.inr ⟨a, hnear, congrArg (a :: ·) (List.eq_nil_iff_forall_not_mem.mpr fun b hb => ?_)⟩
    obtain ⟨hb', hnear'⟩ := hmem b (List.mem_cons_of_mem a hb)
    have hsame := h a ha b hb' hnear hnear'
    exact (List.nodup_cons.mp hnodup).1 (hsame ▸ hb)

/-- Any order leaves the same entries near it. -/
theorem filter_near (h : ischUnambiguous isch) (horder : order.Perm ischTable) :
    order.filter (ischNear isch) = ischTable.filter (ischNear isch) := by
  have hperm := horder.filter (ischNear isch)
  obtain hnone | ⟨a, -, hone⟩ := near_cases h
  · rw [hnone] at hperm ⊢
    exact hperm.eq_nil
  · rw [hone] at hperm ⊢
    exact List.perm_singleton.mp hperm

theorem popcount64_self (a : BitVec 64) : popcount64 (a ^^^ a) = 0 := distance_self a

/-- The entry found for a word is in the table, whatever its order. -/
theorem ischFind_eq_some {value : ℤ} (horder : order.Perm ischTable) :
    ischFind order isch = some value ↔ (isch, value) ∈ ischTable := by
  rw [ischFind, Option.map_eq_some_iff]
  constructor
  · rintro ⟨kv, hfind, rfl⟩
    have hkey := List.find?_some hfind
    rw [beq_iff_eq] at hkey
    have hmem := horder.mem_iff.mp (List.mem_of_find?_eq_some hfind)
    rwa [← hkey]
  · intro hmem
    have hmem' := horder.mem_iff.mpr hmem
    cases hfind : order.find? fun kv => kv.1 == isch with
    | none => simpa using List.find?_eq_none.mp hfind _ hmem'
    | some kv =>
      have hkey := List.find?_some hfind
      rw [beq_iff_eq] at hkey
      have hkv := horder.mem_iff.mp (List.mem_of_find?_eq_some hfind)
      refine ⟨kv, rfl, ?_⟩
      by_contra hne
      have hapart := lt_distance (ischTable_apart.forall hkv hmem fun heq => hne (by rw [heq])).1
      rw [hkey, distance_self] at hapart
      omega

theorem ischFind_eq_none (horder : order.Perm ischTable) :
    ischFind order isch = none ↔ ∀ value, (isch, value) ∉ ischTable := by
  rw [Option.eq_none_iff_forall_ne_some]
  exact forall_congr' fun value => not_congr (ischFind_eq_some horder)

theorem ischFind_perm (horder : order.Perm ischTable) :
    ischFind order isch = ischFind ischTable isch := by
  cases hfind : ischFind ischTable isch with
  | none => exact (ischFind_eq_none horder).mpr ((ischFind_eq_none (List.Perm.refl _)).mp hfind)
  | some value =>
    exact (ischFind_eq_some horder).mpr ((ischFind_eq_some (List.Perm.refl _)).mp hfind)

/-- The value of a word near one entry at most. -/
def ischValue (isch : BitVec 64) : ℤ :=
  match ischFind ischTable isch with
  | some value => value
  | none =>
    match ischTable.filter (ischNear isch) with
    | [] => -2
    | kv :: _ => kv.2

theorem ischLookup_eq (h : ischUnambiguous isch) (horder : order.Perm ischTable) :
    ischLookup order isch = ischValue isch := by
  rw [ischLookup, ischValue, ischFind_perm horder, foldl_near ischStep_far, filter_near h horder]
  cases ischFind ischTable isch with
  | some value => rfl
  | none =>
    obtain hnone | ⟨a, hnear, hone⟩ := near_cases h
    · rw [hnone]
      rfl
    · have hle : popcount64 (isch ^^^ a.1) ≤ 7 := of_decide_eq_true hnear
      rw [hone]
      change (ischStep isch (-2, 40) a).1 = a.2
      rw [ischStep]
      dsimp only
      rw [if_pos ⟨hle, by omega⟩]

theorem ischLookupSoft_eq (h : ischUnambiguous isch) (horder : order.Perm ischTable)
    (reliab40 : Option (Vector UInt8 40)) :
    ischLookupSoft order isch reliab40 = ischValue isch := by
  have hhard := ischLookup_eq h horder
  unfold ischLookupSoft
  rw [ischFind_perm horder]
  cases hfind : ischFind ischTable isch with
  | some value => rw [ischValue, hfind]
  | none =>
    cases reliab40 with
    | none => exact hhard
    | some reliab40 =>
      dsimp only
      rw [ischValue, hfind, foldl_near (ischSoftStep_far reliab40), filter_near h horder]
      obtain hnone | ⟨a, hnear, hone⟩ := near_cases h
      · rw [hnone]
        rfl
      · have hle : popcount64 (isch ^^^ a.1) ≤ 7 := of_decide_eq_true hnear
        have hcost := ischWeightedMismatchCost_lt isch a.1 reliab40
        rw [hone]
        change (ischSoftStep isch reliab40 ⟨-2, intMax, 40⟩ a).decoded = a.2
        rw [ischSoftStep]
        dsimp only
        rw [if_neg (not_lt.mpr hle), if_pos (Or.inl hcost)]

theorem ischLookup_first {a b : IschEntry} (ha : a ∈ ischTable) (hb : b ∈ ischTable) (hne : a ≠ b)
    (hnear : ischNear isch a = true) (hnear' : ischNear isch b = true)
    (horder : (a :: order).Perm ischTable) : ischLookup (a :: order) isch = a.2 := by
  have hseven : ∀ kv ∈ ischTable, ischNear isch kv = true → popcount64 (isch ^^^ kv.1) = 7 := by
    intro kv hkv hnear''
    by_cases hsame : kv = a
    · exact hsame ▸ (distance_of_near ha hb hne hnear hnear').1
    · exact (distance_of_near hkv ha hsame hnear'' hnear).1
  have hmiss : ischFind (a :: order) isch = none := by
    refine (ischFind_eq_none horder).mpr fun value hmem => ?_
    have hself : popcount64 (isch ^^^ isch) = 0 := popcount64_self isch
    have hnear'' : ischNear isch (isch, value) = true := decide_eq_true (by rw [hself]; omega)
    have hfar : popcount64 (isch ^^^ isch) = 7 := hseven (isch, value) hmem hnear''
    omega
  have hstays : ∀ rest ⊆ ischTable, rest.foldl (ischStep isch) (a.2, 7) = (a.2, 7) := by
    intro rest hrest
    induction rest with
    | nil => rfl
    | cons kv rest ih =>
      obtain ⟨hkv, hrest⟩ := List.cons_subset.mp hrest
      rw [List.foldl_cons]
      have hstep : ischStep isch (a.2, 7) kv = (a.2, 7) := by
        rw [ischStep]
        refine if_neg fun hno => ?_
        have := hseven kv hkv (decide_eq_true hno.1)
        omega
      rw [hstep]
      exact ih hrest
  have hfirst : ischStep isch (-2, 40) a = (a.2, 7) := by
    have hpop := hseven a ha hnear
    rw [ischStep]
    dsimp only
    rw [hpop, if_pos ⟨le_rfl, by decide⟩]
  rw [ischLookup, hmiss, List.foldl_cons, hfirst]
  dsimp only
  rw [hstays order fun kv hkv => horder.mem_iff.mp (List.mem_cons_of_mem a hkv)]

/-- Both lookups agree on a word, in whatever orders the table is visited, if and only if no two
entries are within seven bits of it. -/
theorem isch_lookups_agree_iff (isch : BitVec 64) :
    (∀ order order' : List IschEntry, order.Perm ischTable → order'.Perm ischTable →
        ischLookup order isch = ischLookup order' isch ∧
          ∀ reliab40, ischLookupSoft order isch reliab40 = ischLookup order' isch) ↔
      ischUnambiguous isch := by
  constructor
  · intro hagree a ha b hb hnear hnear'
    by_contra hne
    have hfront : (a :: ischTable.erase a).Perm ischTable := (List.perm_cons_erase ha).symm
    have hfront' : (b :: ischTable.erase b).Perm ischTable := (List.perm_cons_erase hb).symm
    have hsame := (hagree _ _ hfront hfront').1
    rw [ischLookup_first ha hb hne hnear hnear' hfront,
      ischLookup_first hb ha (Ne.symm hne) hnear' hnear hfront'] at hsame
    exact (ischTable_apart.forall ha hb hne).2 hsame
  · intro h order order' horder horder'
    refine ⟨?_, fun reliab40 => ?_⟩
    · rw [ischLookup_eq h horder, ischLookup_eq h horder']
    · rw [ischLookupSoft_eq h horder, ischLookup_eq h horder']

/-- Seven bits from the tenth word of the code and from the synchronization: the hard lookup takes
whichever comes first, the soft one under equal reliabilities the smaller value. -/
theorem isch_lookups_disagree :
    ischLookup ischTable 0x111e77f7ff = 10 ∧ ischLookup ischTable.reverse 0x111e77f7ff = -2 ∧
      ischLookupSoft ischTable 0x111e77f7ff (some (Vector.replicate 40 255)) = -2 := by
  decide +kernel

end DsdNeo.P25
