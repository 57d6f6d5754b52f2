import DsdNeo.Models.P25.Frequency

/-!
# P25 frequencies follow the tables

A lookup gives what the tables give now while every frequency the map would serve
is still theirs. Storing an identifier, resetting the tables and learning another
system all clear what they change; a seeding clears nothing, so it keeps the map
right only when no row takes over an entry from which a channel was cached.
-/

namespace DsdNeo.P25.Frequency

/-- Slots a carrier is divided in, for an entry of one table. -/
def tableDenom (s : State) (iden : Fin 16) (entry : IdenEntry) (tdma : Bool) : ℕ :=
  if tdma then channelTypeSlotsPerCarrier (entry.chanType &&& 0xF).toNat
  else if s.chanTdmaExplicit iden = 0 ∧ s.sysIsTdma = 1 then 2
  else 1

/-- The frequency of a channel by an entry, `0` where it is refused. -/
def entryFreq (entry : IdenEntry) (chan16 : BitVec 16) (denom : ℕ) : ℤ :=
  let freq := entry.baseFreq * 5 + ((chan16 &&& 0xFFF).toNat / denom : ℕ) * entry.chanSpac * 125
  if entry.ready ∧ 0 < entry.baseFreq ∧ 0 < freq ∧ freq ≤ trunkFreqMaxHz then freq else 0

/-- What the tables give for a channel now. -/
def tableFreq (s : State) (chan16 : BitVec 16) : ℤ :=
  if chan16 = 0xFFFF then 0
  else
    let iden := chanIden chan16
    let (entry, tdma) := selectIdenEntry s iden .auto
    entryFreq entry chan16 (tableDenom s iden entry tdma)

/-- The map is asked for a channel: not the sentinel, nor one both tables may hold. -/
def Served (s : State) (chan16 : BitVec 16) : Prop :=
  chan16 ≠ 0xFFFF ∧ idenSlotIsAmbiguous s (chanIden chan16) = false

instance (s : State) (c : BitVec 16) : Decidable (Served s c) :=
  inferInstanceAs (Decidable (_ ∧ _))

/-- Every frequency the map would serve is the tables'. -/
def MapSound (s : State) : Prop := Memo.Sound (Served s) (tableFreq s) s.trunkChanMap

theorem slotsPerCarrier_ne_zero (type : ℕ) : channelTypeSlotsPerCarrier type ≠ 0 := by
  unfold channelTypeSlotsPerCarrier
  split
  · decide
  · split <;> decide

/-- The refusals of the denominator never happen: a type is four bits. -/
theorem channelTdmaDenom_auto (s : State) (iden : Fin 16) (entry : IdenEntry) (tdma : Bool) :
    channelTdmaDenom s iden .auto tdma (entry.chanType &&& 0xF).toNat =
      some (tableDenom s iden entry tdma) := by
  have htype : ¬ 15 < (entry.chanType &&& 0xF).toNat := by
    have h : (entry.chanType &&& 0xF).toNat ≤ (0xF : BitVec 32).toNat := by
      rw [BitVec.toNat_and]
      exact Nat.and_le_right
    exact Nat.not_lt.mpr h
  unfold channelTdmaDenom tableDenom
  cases tdma with
  | true => rw [if_pos rfl, if_pos rfl, if_neg htype, if_neg (slotsPerCarrier_ne_zero _)]
  | false =>
    simp only [Bool.false_eq_true, if_false, true_and]
    split <;> rfl

/-- A lookup serves the map, or works the frequency out and keeps it. -/
theorem processChannelToFreq_eq (s : State) (channel : BitVec 32) :
    let c := channel.setWidth 16
    processChannelToFreq s channel =
      if Served s c ∧ s.trunkChanMap c ≠ 0 then (s.trunkChanMap c, s)
      else
        (tableFreq s c,
          if Served s c ∧ tableFreq s c ≠ 0 then setTrunkChanFreq s c (tableFreq s c) else s) := by
  intro c
  unfold processChannelToFreq channelToFreqImpl Served tableFreq
  by_cases hc : channel.setWidth 16 = 0xFFFF
  · simp [hc, c]
  rw [if_neg hc]
  simp only [channelTdmaDenom_auto, c, hc, ne_eq, not_false_eq_true, true_and, if_false]
  generalize hsel : selectIdenEntry s (chanIden (channel.setWidth 16)) .auto = sel
  cases hamb : idenSlotIsAmbiguous s (chanIden (channel.setWidth 16)) with
  | true =>
    simp only [Bool.not_true, Bool.false_and, Bool.false_eq_true, if_false, false_and, reduceCtorEq]
    unfold entryFreq
    cases hr : sel.1.ready with
    | false => simp
    | true =>
      simp only [Bool.not_true, Bool.false_eq_true, if_false, true_and]
      split_ifs with h₁ h₂ h₂
      · omega
      · rfl
      · rfl
      · omega
  | false =>
    by_cases hmap : s.trunkChanMap (channel.setWidth 16) = 0
    · simp only [hmap, Bool.not_false, not_true_eq_false, decide_false, Bool.and_false,
        Bool.false_eq_true, if_false, and_false, true_and]
      unfold entryFreq
      cases hr : sel.1.ready with
      | false => simp
      | true =>
        simp only [Bool.not_true, Bool.false_eq_true, if_false, true_and]
        split_ifs with h₁ h₂ h₂ h₃ h₃
        all_goals first | rfl | omega
    · simp [hmap]

/-- The two states hold the same identifier: its entries and its hint. -/
structure SameIden (s s' : State) (i : Fin 16) : Prop where
  synctype : s'.synctype = s.synctype
  ccIsTdma : s'.ccIsTdma = s.ccIsTdma
  sysIsTdma : s'.sysIsTdma = s.sysIsTdma
  hint : s'.chanTdmaExplicit i = s.chanTdmaExplicit i
  entry : ∀ t, s'.iden t i = s.iden t i

variable {c : BitVec 16} {s s' : State}

theorem SameIden.tableFreq (h : SameIden s s' (chanIden c)) : tableFreq s' c = tableFreq s c := by
  have hauto : autoPrefersTdma s' (chanIden c) = autoPrefersTdma s (chanIden c) := by
    simp only [autoPrefersTdma, h.hint, h.synctype, h.ccIsTdma]
  have hsel : selectIdenEntry s' (chanIden c) .auto = selectIdenEntry s (chanIden c) .auto := by
    simp only [selectIdenEntry, hauto, h.entry]
  simp only [Frequency.tableFreq, hsel, tableDenom, h.hint, h.sysIsTdma]

theorem SameIden.ambiguous {i : Fin 16} (h : SameIden s s' i) :
    idenSlotIsAmbiguous s' i = idenSlotIsAmbiguous s i := by
  simp only [idenSlotIsAmbiguous, h.entry]

theorem selectIdenEntry_of_only {t : Table} {i : Fin 16} (hin : (s.iden t i).populated = true)
    (hout : (s.iden t.other i).populated = false) :
    selectIdenEntry s i .auto = (s.iden t i, decide (t = .tdma)) := by
  cases t with
  | fdma =>
    simp only [Table.other] at hout
    cases h : autoPrefersTdma s i <;> simp [selectIdenEntry, h, hin, hout]
  | tdma =>
    simp only [Table.other] at hout
    cases h : autoPrefersTdma s i <;> simp [selectIdenEntry, h, hin, hout]

/-- An identifier no table holds gives no frequency. -/
theorem tableFreq_of_unpopulated (h : ∀ t, (s.iden t (chanIden c)).populated = false) :
    tableFreq s c = 0 := by
  unfold tableFreq
  split
  · rfl
  · have hsel : (selectIdenEntry s (chanIden c) .auto).1.populated = false := by
      cases hp : autoPrefersTdma s (chanIden c) <;> simp [selectIdenEntry, hp, h]
    simp [entryFreq, IdenEntry.ready, hsel]

@[simp] theorem chanIden_lt (c : BitVec 16) : (chanIden c).val = c.toNat >>> 12 := by
  have h : c.toNat >>> 12 < 16 := by
    rw [Nat.shiftRight_eq_div_pow]
    have := c.isLt
    omega
  simp only [chanIden, Fin.ofNat]
  exact Nat.mod_eq_of_lt h

theorem setTrunkChanFreq_of_ne {freq : ℤ} (hc : c ≠ 0xFFFF) :
    setTrunkChanFreq s c freq =
      { s with trunkChanMap := Function.update s.trunkChanMap c freq } := by
  have hv : trunkChanValid c = true := by
    simp only [trunkChanValid, decide_eq_true_eq]
    have := c.isLt
    have hne : c.toNat ≠ 0xFFFF := fun h => hc (BitVec.eq_of_toNat_eq h)
    omega
  rw [setTrunkChanFreq, if_pos hv]

/-- Only the map differs. -/
structure SameTables (s s' : State) : Prop where
  wacn : s'.wacn = s.wacn
  sysid : s'.sysid = s.sysid
  rows : s'.bandplanRows = s.bandplanRows
  iden : ∀ i, SameIden s s' i

theorem SameTables.refl (s : State) : SameTables s s :=
  ⟨rfl, rfl, rfl, fun _ => ⟨rfl, rfl, rfl, rfl, fun _ => rfl⟩⟩

theorem SameIden.trans {s'' : State} {i : Fin 16} (h : SameIden s s' i) (h' : SameIden s' s'' i) :
    SameIden s s'' i :=
  ⟨h'.1.trans h.1, h'.2.trans h.2, h'.3.trans h.3, h'.4.trans h.4,
    fun t => (h'.5 t).trans (h.5 t)⟩

theorem SameTables.trans {s'' : State} (h : SameTables s s') (h' : SameTables s' s'') :
    SameTables s s'' :=
  ⟨h'.1.trans h.1, h'.2.trans h.2, h'.3.trans h.3, fun i => (h.4 i).trans (h'.4 i)⟩

theorem sameTables_setTrunkChanFreq (s : State) (c : BitVec 16) (freq : ℤ) :
    SameTables s (setTrunkChanFreq s c freq) := by
  unfold setTrunkChanFreq
  split
  · exact ⟨rfl, rfl, rfl, fun _ => ⟨rfl, rfl, rfl, rfl, fun _ => rfl⟩⟩
  · exact .refl s

theorem foldl_clear (chs : List ℕ) (s : State) :
    let s' := chs.foldl (fun s ch => setTrunkChanFreq s (.ofNat 16 ch) 0) s
    SameTables s s' ∧
      (∀ c, s'.trunkChanMap c = s.trunkChanMap c ∨ s'.trunkChanMap c = 0) ∧
      ∀ c : BitVec 16, c ≠ 0xFFFF → c.toNat ∈ chs → s'.trunkChanMap c = 0 := by
  induction chs generalizing s with
  | nil => exact ⟨.refl s, fun _ => .inl rfl, fun _ _ h => absurd h List.not_mem_nil⟩
  | cons ch chs ih =>
    intro s'
    obtain ⟨htab, hmap, hclear⟩ := ih (setTrunkChanFreq s (.ofNat 16 ch) 0)
    have hset : ∀ c, (setTrunkChanFreq s (.ofNat 16 ch) 0).trunkChanMap c = s.trunkChanMap c ∨
        (setTrunkChanFreq s (.ofNat 16 ch) 0).trunkChanMap c = 0 := by
      intro c
      unfold setTrunkChanFreq
      split
      · by_cases hc : c = .ofNat 16 ch
        · exact .inr (by simp [hc])
        · exact .inl (Function.update_of_ne hc _ _)
      · exact .inl rfl
    refine ⟨(sameTables_setTrunkChanFreq s _ _).trans htab, ?_, ?_⟩
    · intro c
      rcases hmap c with h | h
      · rcases hset c with h' | h'
        · exact .inl (h.trans h')
        · exact .inr (h.trans h')
      · exact .inr h
    · intro c hc hmem
      rcases List.mem_cons.mp hmem with h | h
      · have hch : BitVec.ofNat 16 ch = c := by
          rw [← h, BitVec.ofNat_toNat, BitVec.setWidth_eq]
        have hzero : (setTrunkChanFreq s (.ofNat 16 ch) 0).trunkChanMap c = 0 := by
          rw [hch, setTrunkChanFreq_of_ne hc]
          simp
        rcases hmap c with h' | h'
        · exact h'.trans hzero
        · exact h'
      · exact hclear c hc h

/-- An invalidation clears the channels of the identifier and no others. -/
theorem invalidateChanMapForIden_spec (s : State) (i : Fin 16) :
    SameTables s (invalidateChanMapForIden s i) ∧
      (∀ c, (invalidateChanMapForIden s i).trunkChanMap c = s.trunkChanMap c ∨
        (invalidateChanMapForIden s i).trunkChanMap c = 0) ∧
      ∀ c : BitVec 16, c ≠ 0xFFFF → chanIden c = i →
        (invalidateChanMapForIden s i).trunkChanMap c = 0 := by
  obtain ⟨htab, hmap, hclear⟩ := foldl_clear
    (List.range' (i.val <<< 12) (min ((i.val + 1) <<< 12) 0xFFFF - i.val <<< 12)) s
  refine ⟨htab, hmap, ?_⟩
  intro c hc hi
  apply hclear c hc
  have hlt := c.isLt
  have hne : c.toNat ≠ 0xFFFF := fun h => hc (BitVec.eq_of_toNat_eq h)
  have hval : i.val = c.toNat >>> 12 := by rw [← hi, chanIden_lt]
  rw [List.mem_range'_1]
  simp only [Nat.shiftLeft_eq, Nat.shiftRight_eq_div_pow] at hval ⊢
  omega

/-- Invalidating some identifiers clears their channels. -/
theorem foldl_invalidate (is : List (Fin 16)) (s : State) :
    SameTables s (is.foldl invalidateChanMapForIden s) ∧
      ∀ c : BitVec 16, c ≠ 0xFFFF → (s.trunkChanMap c = 0 ∨ chanIden c ∈ is) →
        (is.foldl invalidateChanMapForIden s).trunkChanMap c = 0 := by
  induction is generalizing s with
  | nil =>
    refine ⟨.refl s, ?_⟩
    rintro c - (h | h)
    · exact h
    · exact absurd h List.not_mem_nil
  | cons i is ih =>
    obtain ⟨htab, hmap, hclear⟩ := invalidateChanMapForIden_spec s i
    obtain ⟨htab', hrest⟩ := ih (invalidateChanMapForIden s i)
    refine ⟨htab.trans htab', ?_⟩
    rintro c hc (h | h)
    · apply hrest c hc
      rcases hmap c with h' | h'
      · exact .inl (h'.trans h)
      · exact .inl h'
    · rcases List.mem_cons.mp h with h | h
      · exact hrest c hc (.inl (hclear c hc h))
      · exact hrest c hc (.inr h)

theorem invalidateChanMap_spec (s : State) :
    SameTables s (invalidateChanMap s) ∧
      ∀ c : BitVec 16, c ≠ 0xFFFF → (invalidateChanMap s).trunkChanMap c = 0 := by
  unfold invalidateChanMap
  obtain ⟨htab, hclear⟩ := foldl_invalidate (List.finRange 16) s
  exact ⟨htab, fun c hc => hclear c hc (.inr (List.mem_finRange _))⟩

theorem mapSound_of_empty (h : ∀ c : BitVec 16, c ≠ 0xFFFF → s.trunkChanMap c = 0) : MapSound s :=
  Memo.sound_of_empty fun c hc => h c hc.1

theorem MapSound.lookup (h : MapSound s) (channel : BitVec 32) :
    (processChannelToFreq s channel).1 = tableFreq s (channel.setWidth 16) ∧
      MapSound (processChannelToFreq s channel).2 := by
  rw [processChannelToFreq_eq]
  generalize channel.setWidth 16 = c
  by_cases hmap : Served s c ∧ s.trunkChanMap c ≠ 0
  · rw [if_pos hmap]
    exact ⟨h c hmap.1 hmap.2, h⟩
  rw [if_neg hmap]
  refine ⟨rfl, ?_⟩
  dsimp only
  split
  · next hfill =>
    have htab := sameTables_setTrunkChanFreq s c (tableFreq s c)
    have hfilled := Memo.Sound.fill h c
    rw [setTrunkChanFreq_of_ne hfill.1.1] at htab ⊢
    refine Memo.Sound.change hfilled ?_
    intro k hk hne
    refine ⟨rfl, ⟨hk.1, ?_⟩, (htab.iden _).tableFreq⟩
    rw [← (htab.iden _).ambiguous]
    exact hk.2
  · exact h

end DsdNeo.P25.Frequency
