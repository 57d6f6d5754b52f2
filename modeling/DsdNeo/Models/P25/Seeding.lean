import DsdNeo.Models.P25.Cached

/-!
# What a seeding does to a held identifier

A seeding leaves an entry already held alone, unless it is one a global row seeded
and a row names the system: the first such row takes it over. The map is not
touched, so a channel cached from the entry keeps the global row's frequency.
-/

namespace DsdNeo.P25.Frequency

open BandplanRow List

/-- The row may take over the entry of a place, were that place held. -/
def takes (s : State) (t : Table) (i : Fin 16) (row : BandplanRow) : Bool :=
  row.namesSystem s && row.table = t && row.place = i && slotIsSeededGlobal s row (s.iden t i)

/-- The row that takes over a held entry in a seeding, if one does. -/
def takeover (s : State) (t : Table) (i : Fin 16) : Option BandplanRow :=
  (s.bandplanRows.take bandplanMaxRows).find? (takes s t i)

/-- The entry a row writes. -/
def BandplanRow.written (row : BandplanRow) : IdenEntry :=
  { row.entry with trust := 1, populated := true, rfss := 0, site := 0 }

/-- What a seeding never changes. -/
structure Framed (s s' : State) : Prop where
  synctype : s'.synctype = s.synctype
  ccIsTdma : s'.ccIsTdma = s.ccIsTdma
  sysIsTdma : s'.sysIsTdma = s.sysIsTdma
  wacn : s'.wacn = s.wacn
  sysid : s'.sysid = s.sysid
  rows : s'.bandplanRows = s.bandplanRows
  trunkChanMap : s'.trunkChanMap = s.trunkChanMap

/-- The place of a table as a seeding found it, with the hint while no other table joins. -/
def Untouched (s s' : State) (t : Table) (i : Fin 16) : Prop :=
  s'.iden t i = s.iden t i ∧
    ((s'.iden t.other i).populated = false → s'.chanTdmaExplicit i = s.chanTdmaExplicit i)

/-- The place of a table as a row took it over. -/
def TakenOver (s s' : State) (t : Table) (i : Fin 16) (row : BandplanRow) : Prop :=
  s'.iden t i = row.written ∧
    ((s'.iden t.other i).populated = false →
      s'.chanTdmaExplicit i = s.chanTdmaExplicit i ||| t.bit)

/-- A held place after the rows of a list: taken over by the one found, or untouched. -/
def Held (s s' : State) (t : Table) (i : Fin 16) : Option BandplanRow → Prop
  | none => Untouched s s' t i
  | some row => TakenOver s s' t i row

theorem framed_writeSlot (s : State) (row : BandplanRow) : Framed s (writeSlot s row) :=
  ⟨rfl, rfl, rfl, rfl, rfl, rfl, rfl⟩

variable {s s' : State}

theorem Framed.trans {s'' : State} (h : Framed s s') (h' : Framed s' s'') : Framed s s'' :=
  ⟨h'.1.trans h.1, h'.2.trans h.2, h'.3.trans h.3, h'.4.trans h.4, h'.5.trans h.5, h'.6.trans h.6,
    h'.7.trans h.7⟩

theorem iden_writeSlot_self (s : State) (row : BandplanRow) :
    (writeSlot s row).iden row.table row.place = row.written := by
  simp [writeSlot, State.store, written]

theorem hint_writeSlot_self (s : State) (row : BandplanRow) :
    (writeSlot s row).chanTdmaExplicit row.place =
      s.chanTdmaExplicit row.place ||| row.table.bit := by
  simp [writeSlot, State.store]

variable {row : BandplanRow} {i : Fin 16} {t : Table}

theorem iden_writeSlot_of_ne (h : ¬ (row.table = t ∧ row.place = i)) :
    (writeSlot s row).iden t i = s.iden t i := by
  by_cases ht : t = row.table
  · subst ht
    have hi : i ≠ row.place := fun hi => h ⟨rfl, hi.symm⟩
    simp [writeSlot, State.store, hi]
  · simp [writeSlot, State.store, ht]

theorem hint_writeSlot_of_ne (h : row.place ≠ i) :
    (writeSlot s row).chanTdmaExplicit i = s.chanTdmaExplicit i := by
  simp [writeSlot, State.store, Function.update_of_ne h.symm]

theorem other_of_ne {t' : Table} (h : t' ≠ t) : t' = t.other := by
  cases t <;> cases t' <;> first | rfl | exact absurd rfl h

variable {found : Option BandplanRow}

theorem Held.write_other (h : Held s s' t i found) (hne : ¬ (row.table = t ∧ row.place = i)) :
    Held s (writeSlot s' row) t i found := by
  have hout : ((writeSlot s' row).iden t.other i).populated = false →
      (s'.iden t.other i).populated = false ∧
        (writeSlot s' row).chanTdmaExplicit i = s'.chanTdmaExplicit i := by
    intro hempty
    by_cases hi : row.place = i
    · have ht : row.table = t.other := other_of_ne fun ht => hne ⟨ht, hi⟩
      rw [← ht, ← hi, iden_writeSlot_self] at hempty
      cases hempty
    · have hother : ¬ (row.table = t.other ∧ row.place = i) := fun h => hi h.2
      rw [iden_writeSlot_of_ne hother] at hempty
      exact ⟨hempty, hint_writeSlot_of_ne hi⟩
  cases found with
  | none =>
    refine ⟨(iden_writeSlot_of_ne hne).trans h.1, ?_⟩
    intro hempty
    obtain ⟨he, hh⟩ := hout hempty
    exact hh.trans (h.2 he)
  | some r =>
    refine ⟨(iden_writeSlot_of_ne hne).trans h.1, ?_⟩
    intro hempty
    obtain ⟨he, hh⟩ := hout hempty
    exact hh.trans (h.2 he)

theorem Held.populated (h : Held s s' t i found) (hp : (s.iden t i).populated = true) :
    (s'.iden t i).populated = true := by
  cases found with
  | none => rw [h.1, hp]
  | some row => rw [h.1]; rfl

theorem slotIsSeededGlobal_congr (h : Framed s s') (row : BandplanRow) (slot : IdenEntry) :
    slotIsSeededGlobal s' row slot = slotIsSeededGlobal s row slot := by
  simp only [slotIsSeededGlobal, h.rows]

theorem namesSystem_congr (h : Framed s s') (row : BandplanRow) :
    row.namesSystem s' = row.namesSystem s := by
  simp only [namesSystem, h.wacn, h.sysid]

theorem not_seededGlobal_written {row' : BandplanRow} (h : row.namesSystem s = true) :
    slotIsSeededGlobal s' row' row.written = false := by
  have hne : ¬ (row.entry.wacn = 0 ∧ row.entry.sysid = 0) := by
    rintro ⟨h₁, h₂⟩
    rw [namesSystem, isGlobal, decide_eq_true h₁, decide_eq_true h₂] at h
    exact Bool.false_ne_true h
  rw [← Bool.not_eq_true]
  intro hseeded
  simp only [slotIsSeededGlobal, written, Bool.and_eq_true] at hseeded
  exact hne ⟨of_decide_eq_true hseeded.1.1.1.1.2, of_decide_eq_true hseeded.1.1.1.2⟩

variable {acc : ℕ × State}

theorem Held.seedSystemRow {pre : List BandplanRow} (hp : (s.iden t i).populated = true)
    (hf : Framed s acc.2) (h : Held s acc.2 t i (pre.find? (takes s t i))) :
    Held s (seedSystemRow acc row).2 t i ((pre ++ [row]).find? (takes s t i)) := by
  rw [find?_append]
  unfold Frequency.seedSystemRow
  by_cases hnames : row.namesSystem acc.2
  · by_cases hplace : row.table = t ∧ row.place = i
    · obtain ⟨ht, hi⟩ := hplace
      have hslot : row.slot acc.2 = acc.2.iden t i := by rw [BandplanRow.slot, ht, hi]
      have hpop : (row.slot acc.2).populated = true := by
        rw [hslot]
        exact h.populated hp
      cases hfound : pre.find? (takes s t i) with
      | some r =>
        rw [hfound] at h
        have hr : r.namesSystem s = true := by
          have := find?_some hfound
          simp only [takes, Bool.and_eq_true] at this
          exact this.1.1.1
        have hnot : slotIsSeededGlobal acc.2 row (row.slot acc.2) = false := by
          rw [hslot, h.1]
          exact not_seededGlobal_written hr
        simp only [hnames, hpop, hnot, Bool.not_true, Bool.not_false, Bool.and_true,
          Bool.false_eq_true, if_false, if_true]
        exact h
      | none =>
        rw [hfound] at h
        have htakes : takes s t i row = slotIsSeededGlobal acc.2 row (row.slot acc.2) := by
          rw [slotIsSeededGlobal_congr hf, hslot, h.1]
          simp [takes, ← namesSystem_congr hf, hnames, ht, hi]
        cases hseeded : slotIsSeededGlobal acc.2 row (row.slot acc.2) with
        | false =>
          simp only [hnames, hpop, Bool.not_true, Bool.not_false, Bool.and_true,
            Bool.false_eq_true, if_false, if_true]
          simpa [htakes, hseeded] using h
        | true =>
          simp only [hnames, Bool.not_true, Bool.and_false, Bool.false_eq_true, if_false]
          have hfind : (none : Option BandplanRow).or ([row].find? (takes s t i)) = some row := by
            simp [htakes, hseeded]
          rw [hfind]
          subst ht hi
          refine ⟨iden_writeSlot_self _ _, ?_⟩
          intro hempty
          have hother : ¬ (row.table = row.table.other ∧ row.place = row.place) := by
            rintro ⟨h, -⟩
            revert h
            cases row.table <;> decide
          rw [iden_writeSlot_of_ne hother] at hempty
          rw [hint_writeSlot_self, h.2 hempty]
    · have htakes : takes s t i row = false := by
        simp only [takes, Bool.and_eq_false_iff, decide_eq_false_iff_not]
        by_cases ht : row.table = t
        · exact .inl (.inr fun hi => hplace ⟨ht, hi⟩)
        · exact .inl (.inl (.inr ht))
      have hfind : (pre.find? (takes s t i)).or ([row].find? (takes s t i)) =
          pre.find? (takes s t i) := by
        simp [htakes]
      rw [hfind]
      split_ifs
      · exact h
      · exact h
      · exact h.write_other hplace
  · have htakes : takes s t i row = false := by
      rw [namesSystem_congr hf] at hnames
      simp [takes, hnames]
    simp only [hnames, Bool.not_false, if_true]
    simpa [htakes] using h

theorem framed_seedSystemRow (row : BandplanRow) (hf : Framed s acc.2) :
    Framed s (seedSystemRow acc row).2 := by
  unfold seedSystemRow
  split_ifs
  · exact hf
  · exact hf
  · exact hf.trans (framed_writeSlot _ _)

theorem framed_seedGlobalRow (row : BandplanRow) (hf : Framed s acc.2) :
    Framed s (seedGlobalRow acc row).2 := by
  unfold seedGlobalRow
  split_ifs
  · exact hf
  · exact hf
  · exact hf.trans (framed_writeSlot _ _)

theorem Held.seedGlobalRow (row : BandplanRow) (hp : (s.iden t i).populated = true)
    (h : Held s acc.2 t i found) : Held s (seedGlobalRow acc row).2 t i found := by
  unfold Frequency.seedGlobalRow
  split_ifs with _ hslot
  · exact h
  · exact h
  · apply h.write_other
    rintro ⟨ht, hi⟩
    rw [BandplanRow.slot, ht, hi] at hslot
    exact hslot (h.populated hp)

theorem held_foldl_seedSystemRow (rows : List BandplanRow) :
    Framed s (rows.foldl seedSystemRow (0, s)).2 ∧
      ∀ t i, (s.iden t i).populated = true →
        Held s (rows.foldl seedSystemRow (0, s)).2 t i (rows.find? (takes s t i)) := by
  induction rows using List.reverseRecOn with
  | nil => exact ⟨⟨rfl, rfl, rfl, rfl, rfl, rfl, rfl⟩, fun t i _ => ⟨rfl, fun _ => rfl⟩⟩
  | append_singleton rows row ih =>
    rw [foldl_append, foldl_cons, foldl_nil]
    refine ⟨framed_seedSystemRow row ih.1, ?_⟩
    intro t i hp
    exact (ih.2 t i hp).seedSystemRow hp ih.1

theorem held_foldl_seedGlobalRow (rows : List BandplanRow) (hp : (s.iden t i).populated = true)
    (h : Held s acc.2 t i found) : Held s (rows.foldl seedGlobalRow acc).2 t i found := by
  induction rows generalizing acc with
  | nil => exact h
  | cons row rows ih => exact ih (h.seedGlobalRow row hp)

theorem framed_foldl_seedGlobalRow (rows : List BandplanRow) (h : Framed s acc.2) :
    Framed s (rows.foldl seedGlobalRow acc).2 := by
  induction rows generalizing acc with
  | nil => exact h
  | cons row rows ih => exact ih (framed_seedGlobalRow row h)

/-- Before the system is known no row names it. -/
theorem takeover_of_unknown (h : ¬ (s.wacn ≠ 0 ∨ s.sysid ≠ 0)) (t : Table) (i : Fin 16) :
    takeover s t i = none := by
  rw [not_or, not_not, not_not] at h
  rw [takeover, find?_eq_none]
  intro row _
  simp only [takes, namesSystem, isGlobal, h.1, h.2, Bool.and_eq_true]
  rintro ⟨⟨⟨⟨⟨hg, hw⟩, hs⟩, -⟩, -⟩, -⟩
  simp only [decide_eq_true_eq] at hw hs
  simp [hw, hs] at hg

/-- A seeding keeps every held entry but those taken over. -/
theorem bandplanSeed_spec (s : State) :
    Framed s (bandplanSeed s).2 ∧
      ∀ t i, (s.iden t i).populated = true → Held s (bandplanSeed s).2 t i (takeover s t i) := by
  unfold bandplanSeed
  by_cases hknown : s.wacn ≠ 0 ∨ s.sysid ≠ 0
  · simp only [if_pos hknown]
    obtain ⟨hf, hheld⟩ := held_foldl_seedSystemRow (s := s) (s.bandplanRows.take bandplanMaxRows)
    exact ⟨framed_foldl_seedGlobalRow _ hf,
      fun t i hp => held_foldl_seedGlobalRow _ hp (hheld t i hp)⟩
  · simp only [if_neg hknown]
    refine ⟨framed_foldl_seedGlobalRow _ ⟨rfl, rfl, rfl, rfl, rfl, rfl, rfl⟩, ?_⟩
    intro t i hp
    rw [takeover_of_unknown hknown]
    exact held_foldl_seedGlobalRow _ hp ⟨rfl, fun _ => rfl⟩

/-!
# Runs of lookups, seedings and updates

A seeding is quiet when no row takes over an entry from which a channel was cached.
Through any run whose seedings are quiet the map stays sound, so every lookup gives
what the tables give; the first system learned may seed loudly.
-/

/-- The row leaves what the frequencies of a held identifier are made of as it is. -/
def KeepsNumbers (s : State) (t : Table) (i : Fin 16) (row : BandplanRow) : Prop :=
  row.entry.baseFreq = (s.iden t i).baseFreq ∧ row.entry.chanSpac = (s.iden t i).chanSpac ∧
    match t with
    | .tdma => channelTypeSlotsPerCarrier (row.entry.chanType &&& 0xF).toNat =
        channelTypeSlotsPerCarrier ((s.iden t i).chanType &&& 0xF).toNat
    | .fdma => ¬ (s.chanTdmaExplicit i = 0 ∧ s.sysIsTdma = 1)

/-- A row takes over a held entry only where no channel was cached from it, or both
tables hold the identifier, or the row has the numbers the entry had. -/
def SeedsQuietly (s : State) : Prop :=
  ∀ t i row, (s.iden t i).populated = true → takeover s t i = some row →
    (s.iden t.other i).populated = true ∨
      (∀ c : BitVec 16, c ≠ 0xFFFF → chanIden c = i → s.trunkChanMap c = 0) ∨
      KeepsNumbers s t i row

theorem ambiguous_eq (s : State) (t : Table) (i : Fin 16) :
    idenSlotIsAmbiguous s i = ((s.iden t i).populated && (s.iden t.other i).populated) := by
  cases t
  · rfl
  · exact Bool.and_comm _ _

variable {c : BitVec 16}

/-- The frequency of a channel whose identifier one table holds. -/
theorem tableFreq_of_only (hc : c ≠ 0xFFFF) (hin : (s.iden t (chanIden c)).populated = true)
    (hout : (s.iden t.other (chanIden c)).populated = false) :
    tableFreq s c = entryFreq (s.iden t (chanIden c)) c
      (tableDenom s (chanIden c) (s.iden t (chanIden c)) (decide (t = .tdma))) := by
  rw [tableFreq, if_neg hc]
  simp only [selectIdenEntry_of_only hin hout]

theorem entryFreq_congr {e e' : IdenEntry} {denom : ℕ} (hbase : e'.baseFreq = e.baseFreq)
    (hspac : e'.chanSpac = e.chanSpac) (hpop : e'.populated = e.populated) :
    entryFreq e' c denom = entryFreq e c denom := by
  cases e
  cases e'
  simp only at hbase hspac hpop
  subst hbase hspac hpop
  rfl

theorem Held.tableFreq (h : Held s s' t (chanIden c) found) (hf : Framed s s') (hc : c ≠ 0xFFFF)
    (hin : (s.iden t (chanIden c)).populated = true)
    (hout : (s.iden t.other (chanIden c)).populated = false)
    (hout' : (s'.iden t.other (chanIden c)).populated = false)
    (hkeep : ∀ row, found = some row → KeepsNumbers s t (chanIden c) row) :
    tableFreq s' c = tableFreq s c := by
  rw [tableFreq_of_only hc hin hout, tableFreq_of_only hc (h.populated hin) hout']
  cases found with
  | none =>
    rw [h.1]
    simp only [tableDenom, h.2 hout', hf.sysIsTdma]
  | some row =>
    obtain ⟨hbase, hspac, hlast⟩ := hkeep row rfl
    rw [h.1]
    have hentry : ∀ denom, entryFreq row.written c denom =
        entryFreq (s.iden t (chanIden c)) c denom := by
      intro denom
      exact entryFreq_congr hbase hspac hin.symm
    rw [hentry]
    congr 1
    cases t with
    | tdma => simpa [tableDenom, written] using hlast
    | fdma =>
      have hbit : s.chanTdmaExplicit (chanIden c) ||| Table.bit .fdma ≠ 0 := by
        intro hzero
        have h₀ := congrArg (·.getLsbD 0) hzero
        simp [Table.bit] at h₀
      have hhint : s'.chanTdmaExplicit (chanIden c) ≠ 0 := by
        rw [h.2 hout']
        exact hbit
      simp only [tableDenom, reduceCtorEq, decide_false, Bool.false_eq_true, if_false]
      rw [if_neg hlast, if_neg fun h => hhint h.1]

theorem MapSound.seed (h : MapSound s) (hq : SeedsQuietly s) : MapSound (bandplanSeed s).2 := by
  obtain ⟨hf, hheld⟩ := bandplanSeed_spec s
  refine Memo.Sound.change h ?_
  intro c hc hne
  rw [hf.trunkChanMap] at hne ⊢
  refine ⟨rfl, ?_⟩
  have hserved : Served s c := by
    refine ⟨hc.1, ?_⟩
    rw [← Bool.not_eq_true]
    intro hamb
    have hamb' := hc.2
    rw [idenSlotIsAmbiguous, Bool.and_eq_true] at hamb
    rw [idenSlotIsAmbiguous, (hheld _ _ hamb.1).populated hamb.1,
      (hheld _ _ hamb.2).populated hamb.2] at hamb'
    cases hamb'
  refine ⟨hserved, ?_⟩
  -- a cached channel has its identifier in exactly one table
  have hheldIn : ∃ t, (s.iden t (chanIden c)).populated = true := by
    by_contra hnone
    have hzero := tableFreq_of_unpopulated (s := s) (c := c) fun t =>
      Bool.not_eq_true _ ▸ fun ht => hnone ⟨t, ht⟩
    exact hne ((h c hserved hne).trans hzero)
  obtain ⟨t, hin⟩ := hheldIn
  have hout : (s.iden t.other (chanIden c)).populated = false := by
    have := hserved.2
    rwa [ambiguous_eq s t, hin, Bool.true_and] at this
  have hout' : ((bandplanSeed s).2.iden t.other (chanIden c)).populated = false := by
    have := hc.2
    rwa [ambiguous_eq _ t, (hheld t _ hin).populated hin, Bool.true_and] at this
  refine (hheld t _ hin).tableFreq hf hc.1 hin hout hout' ?_
  intro row hrow
  rcases hq t _ row hin hrow with hother | hempty | hkeep
  · rw [hout] at hother
    cases hother
  · exact absurd (hempty c hc.1 rfl) hne
  · exact hkeep

/-- What may happen to the tables and the map. -/
inductive Op where
  /-- `p25_update_system_identity`. -/
  | identity (wacn sysid : BitVec 64)
  /-- `dsd_state_p25_bandplan_seed`. -/
  | seed
  /-- `p25_reset_iden_tables`, then every identifier invalidated. -/
  | reset
  /-- An entry and its hint written, then `p25_invalidate_chan_map_for_iden`. -/
  | update (t : Table) (iden : Fin 16) (e : IdenEntry) (hint : BitVec 8)
  /-- `process_channel_to_freq`. -/
  | lookup (channel : BitVec 32)

/-- The state after an operation. -/
def Op.apply : Op → State → State
  | .identity wacn sysid, s => (updateSystemIdentity s wacn sysid).2
  | .seed, s => (bandplanSeed s).2
  | .reset, s => invalidateChanMap (resetIdenTables s)
  | .update t iden e hint, s => invalidateChanMapForIden (s.store t iden e hint) iden
  | .lookup channel, s => (processChannelToFreq s channel).2

/-- An operation whose seeding, if it makes one and cleared nothing, is quiet. -/
def Op.Quiet : Op → State → Prop
  | .identity wacn sysid, s => s.wacn = 0 ∧ s.sysid = 0 →
      SeedsQuietly { s with wacn := wacn, sysid := sysid }
  | .seed, s => SeedsQuietly s
  | _, _ => True

/-- The state after a sequence of operations. -/
def run (s : State) (ops : List Op) : State := ops.foldl (fun s op => op.apply s) s

/-- Every operation of a sequence is quiet where it happens. -/
def QuietRun : State → List Op → Prop
  | _, [] => True
  | s, op :: ops => op.Quiet s ∧ QuietRun (op.apply s) ops

theorem MapSound.update (h : MapSound s) (t : Table) (i : Fin 16) (e : IdenEntry)
    (hint : BitVec 8) : MapSound (invalidateChanMapForIden (s.store t i e hint) i) := by
  obtain ⟨htab, hmap, hclear⟩ := invalidateChanMapForIden_spec (s.store t i e hint) i
  refine Memo.Sound.change h ?_
  intro c hc hne
  have hi : chanIden c ≠ i := fun hi => hne (hclear c hc.1 hi)
  have hsame : SameIden s (s.store t i e hint) (chanIden c) := by
    refine ⟨rfl, rfl, rfl, Function.update_of_ne hi _ _, ?_⟩
    intro t'
    by_cases ht : t' = t
    · subst ht
      simp [State.store, hi]
    · simp [State.store, ht]
  have hall := hsame.trans (htab.iden (chanIden c))
  refine ⟨(hmap c).resolve_right hne, ⟨hc.1, ?_⟩, hall.tableFreq⟩
  rw [← hall.ambiguous]
  exact hc.2

theorem MapSound.identity (h : MapSound s) {wacn sysid : BitVec 64}
    (hq : (Op.identity wacn sysid).Quiet s) : MapSound (updateSystemIdentity s wacn sysid).2 := by
  unfold updateSystemIdentity
  by_cases hnone : wacn = 0 ∧ sysid = 0
  · rw [if_pos hnone]
    exact h
  rw [if_neg hnone]
  have hset : MapSound { s with wacn := wacn, sysid := sysid } := h
  by_cases hchanged : s.wacn ≠ wacn ∨ s.sysid ≠ sysid
  · by_cases hknown : s.wacn ≠ 0 ∨ s.sysid ≠ 0
    · simp only [hchanged, hknown, and_self, if_true]
      obtain ⟨-, hempty⟩ := invalidateChanMap_spec (resetIdenTables s)
      apply mapSound_of_empty
      intro c hc
      simpa only [(bandplanSeed_spec _).1.trunkChanMap] using hempty c hc
    · simp only [hchanged, hknown, false_and, if_true, if_false]
      rw [not_or, not_not, not_not] at hknown
      exact hset.seed (hq hknown)
  · simp only [hchanged, and_false, if_false]
    exact hset

theorem MapSound.apply (h : MapSound s) {op : Op} (hq : op.Quiet s) : MapSound (op.apply s) := by
  cases op with
  | identity wacn sysid => exact h.identity hq
  | seed => exact h.seed hq
  | reset =>
    simp only [Op.apply]
    exact mapSound_of_empty (invalidateChanMap_spec _).2
  | update t iden e hint => exact h.update t iden e hint
  | lookup channel => exact (h.lookup channel).2

theorem MapSound.run {ops : List Op} (h : MapSound s) (hq : QuietRun s ops) :
    MapSound (run s ops) := by
  induction ops generalizing s with
  | nil => exact h
  | cons op ops ih => exact ih (h.apply hq.1) hq.2

/-- A plan whose rows all apply everywhere takes no entry over. -/
theorem seedsQuietly_of_global (h : ∀ row ∈ s.bandplanRows, row.isGlobal = true) :
    SeedsQuietly s := by
  intro t i row _ hrow
  have htakes := find?_some hrow
  have hmem := mem_of_mem_take (mem_of_find?_eq_some hrow)
  simp [takes, namesSystem, h row hmem] at htakes

/-- After a run that seeds quietly every lookup gives the tables' frequency. -/
theorem lookup_follows_tables (s : State) (ops : List Op)
    (hempty : ∀ c : BitVec 16, c ≠ 0xFFFF → s.trunkChanMap c = 0) (hquiet : QuietRun s ops)
    (channel : BitVec 32) :
    (processChannelToFreq (run s ops) channel).1 = tableFreq (run s ops) (channel.setWidth 16) :=
  (((mapSound_of_empty hempty).run hquiet).lookup channel).1

/-- An 800 MHz row for identifier 1 that applies everywhere. -/
def everywhereRow : BandplanRow :=
  ⟨1, false, ⟨170200000, 1, 100, 0, 0, 1, true, 0, 0, 0, 0⟩⟩

/-- A 700 MHz row for identifier 1 of one system. -/
def systemRow : BandplanRow :=
  ⟨1, false, ⟨152400000, 1, 100, 0, 0, 1, true, 0xBEE00, 0x3C5, 0, 0⟩⟩

/-- A receiver that knows a band plan and nothing else. -/
def freshState (rows : List BandplanRow) : State :=
  ⟨0, 0, 0, 0, 0, fun _ => 0, fun _ _ => .empty, rows, fun _ => 0⟩

/-- With a row that applies everywhere the first system learned changes nothing. -/
theorem lookup_follows_tables_everywhere :
    let ops := [Op.seed, .lookup 0x1001, .identity 0xBEE00 0x3C5]
    (processChannelToFreq (run (freshState [everywhereRow]) ops) 0x1001).1 =
      tableFreq (run (freshState [everywhereRow]) ops) 0x1001 := by
  intro ops
  have hquiet : QuietRun (freshState [everywhereRow]) ops := by
    refine ⟨?_, trivial, fun _ => ?_, trivial⟩
    · exact seedsQuietly_of_global (by decide)
    · exact seedsQuietly_of_global (by decide)
  exact lookup_follows_tables _ ops (fun _ _ => rfl) hquiet 0x1001

/-- A channel cached from the row that applies everywhere keeps its frequency when the
first system learned has a row of its own. -/
theorem stale_after_first_system :
    ¬ ∀ (s : State) (ops : List Op), (∀ c : BitVec 16, c ≠ 0xFFFF → s.trunkChanMap c = 0) →
      ∀ channel : BitVec 32, (processChannelToFreq (run s ops) channel).1 =
        tableFreq (run s ops) (channel.setWidth 16) := by
  intro h
  have hfollows := h (freshState [everywhereRow, systemRow])
    [.seed, .lookup 0x1001, .identity 0xBEE00 0x3C5] (fun _ _ => rfl) 0x1001
  have hserved : (processChannelToFreq (run (freshState [everywhereRow, systemRow])
      [.seed, .lookup 0x1001, .identity 0xBEE00 0x3C5]) 0x1001).1 = 851012500 := by
    decide
  have htables : tableFreq (run (freshState [everywhereRow, systemRow])
      [.seed, .lookup 0x1001, .identity 0xBEE00 0x3C5]) 0x1001 = 762012500 := by
    decide
  have hequal : (851012500 : ℤ) = 762012500 := hserved.symm.trans (hfollows.trans htables)
  exact absurd hequal (by decide)

end DsdNeo.P25.Frequency
