import DsdNeo.Models.P25.Seeding

/-!
# Which row an identifier comes from

Over seedings, identity updates and entries learned over the air, each place of the tables holds
what was learned over the air since the last reset, else the first row naming the system, else
the first global row. Whether a row may take over a place is read off the entry there, so what
came over the air must not look like what a global row wrote.
-/

namespace DsdNeo.P25.Frequency

open BandplanRow List

/-- The rows of the plan, as many as it holds. -/
def State.plan (s : State) : List BandplanRow := s.bandplanRows.take bandplanMaxRows

/-- The rows of a plan are of the identifiers there are, as the import admits them. -/
def Planned (s : State) : Prop := ∀ row ∈ s.bandplanRows, row.iden.toNat < 16

/-- A row for a place of a table. -/
def BandplanRow.isFor (t : Table) (i : Fin 16) (row : BandplanRow) : Bool :=
  row.table = t && row.place = i

/-- The first row that names the system, for a place. -/
def rowOfSystem (s : State) (t : Table) (i : Fin 16) : Option BandplanRow :=
  s.plan.find? fun row => row.namesSystem s && row.isFor t i

/-- The first row that applies everywhere, for a place. -/
def globalRow (s : State) (t : Table) (i : Fin 16) : Option BandplanRow :=
  s.plan.find? fun row => row.isGlobal && row.isFor t i

/-- An entry that looks as a global row left it in a place. -/
def looksSeeded (s : State) (t : Table) (i : Fin 16) (e : IdenEntry) : Bool :=
  e.trust = 1 && e.wacn = 0 && e.sysid = 0 && e.rfss = 0 && e.site = 0
    && s.bandplanRows.any fun g => g.isFor t i && g.isGlobal && entryNumbersEqual g.entry e

variable {row : BandplanRow}

theorem BandplanRow.place_eq_iff {g : BandplanRow} (hg : g.iden.toNat < 16)
    (hrow : row.iden.toNat < 16) : g.place = row.place ↔ g.iden = row.iden := by
  have hmask : ∀ r : BandplanRow, r.iden.toNat < 16 → r.place.val = r.iden.toNat := by
    intro r hr
    have hand : (r.iden &&& 0xF).toNat = r.iden.toNat % 16 := by
      rw [BitVec.toNat_and]
      exact Nat.and_two_pow_sub_one_eq_mod _ 4
    rw [BandplanRow.place, Fin.val_ofNat, hand]
    omega
  rw [Fin.ext_iff, hmask g hg, hmask row hrow, BitVec.toNat_inj]

theorem BandplanRow.table_eq_iff {g : BandplanRow} :
    g.table = row.table ↔ g.isTdma = row.isTdma := by
  simp only [BandplanRow.table]
  cases g.isTdma <;> cases row.isTdma <;> simp

variable {s s' : State}

theorem Planned.slotIsSeededGlobal (h : Planned s) (hrow : row ∈ s.bandplanRows) (e : IdenEntry) :
    slotIsSeededGlobal s row e = looksSeeded s row.table row.place e := by
  rw [Frequency.slotIsSeededGlobal, looksSeeded]
  congr 1
  rw [Bool.eq_iff_iff, any_eq_true, any_eq_true]
  refine exists_congr fun g => and_congr_right fun hg => ?_
  have hplace := place_eq_iff (h g hg) (h row hrow)
  have htable : g.table = row.table ↔ g.isTdma = row.isTdma := table_eq_iff
  simp only [isFor, Bool.and_eq_true, decide_eq_true_eq, hplace, htable]
  tauto

theorem looksSeeded_congr (h : Framed s s') (t : Table) (i : Fin 16) (e : IdenEntry) :
    looksSeeded s' t i e = looksSeeded s t i e := by
  simp only [looksSeeded, h.rows]

theorem not_looksSeeded_written (h : row.namesSystem s = true) (t : Table) (i : Fin 16) :
    looksSeeded s' t i row.written = false := by
  have hne : ¬(row.entry.wacn = 0 ∧ row.entry.sysid = 0) := by
    rintro ⟨hwacn, hsysid⟩
    rw [namesSystem, isGlobal, decide_eq_true hwacn, decide_eq_true hsysid] at h
    exact Bool.false_ne_true h
  rw [← Bool.not_eq_true]
  intro hlooks
  simp only [looksSeeded, written, Bool.and_eq_true] at hlooks
  exact hne ⟨of_decide_eq_true hlooks.1.1.1.1.2, of_decide_eq_true hlooks.1.1.1.2⟩

theorem looksSeeded_written (hrow : row ∈ s.bandplanRows) (hglobal : row.isGlobal = true) :
    looksSeeded s row.table row.place row.written = true := by
  have hzero : row.entry.wacn = 0 ∧ row.entry.sysid = 0 := by
    simpa [isGlobal] using hglobal
  have hany : (s.bandplanRows.any fun g => g.isFor row.table row.place && g.isGlobal &&
      entryNumbersEqual g.entry row.written) = true := by
    rw [any_eq_true]
    exact ⟨row, hrow, by simp [isFor, hglobal, entryNumbersEqual, written]⟩
  simp only [looksSeeded, hany, Bool.and_true]
  simp [written, hzero]

/-- A place that no system row may take. -/
def Fixed (s : State) (t : Table) (i : Fin 16) : Prop :=
  (s.iden t i).populated = true ∧ looksSeeded s t i (s.iden t i) = false

instance (s : State) (t : Table) (i : Fin 16) : Decidable (Fixed s t i) :=
  inferInstanceAs (Decidable (_ ∧ _))

variable {i : Fin 16} {t : Table}

theorem iden_writeSlot_of_not_isFor (h : row.isFor t i = false) :
    (writeSlot s row).iden t i = s.iden t i := by
  apply iden_writeSlot_of_ne
  rintro ⟨rfl, rfl⟩
  simp [isFor] at h

theorem iden_seedSystemRow {acc : ℕ × State} (h : Planned s) (hf : Framed s acc.2)
    (hrow : row ∈ s.bandplanRows) (t : Table) (i : Fin 16) :
    (seedSystemRow acc row).2.iden t i =
      if (row.namesSystem s && row.isFor t i) = true ∧ ¬Fixed acc.2 t i then row.written
      else acc.2.iden t i := by
  have hplanned : Planned acc.2 := fun r hr => h r (hf.rows ▸ hr)
  have hmem : row ∈ acc.2.bandplanRows := hf.rows ▸ hrow
  have hnames := namesSystem_congr hf row
  rw [seedSystemRow, hnames, hplanned.slotIsSeededGlobal hmem]
  cases hfor : row.isFor t i with
  | false =>
    simp only [Bool.and_false, Bool.false_eq_true, false_and, if_false]
    split
    · rfl
    · split
      · rfl
      · exact iden_writeSlot_of_not_isFor hfor
  | true =>
    obtain ⟨rfl, rfl⟩ : row.table = t ∧ row.place = i := by
      simpa [isFor] using hfor
    cases row.namesSystem s with
    | false => simp
    | true =>
      have hfixed : ((row.slot acc.2).populated &&
          !looksSeeded acc.2 row.table row.place (row.slot acc.2)) = true ↔
          Fixed acc.2 row.table row.place := by
        simp [Fixed, BandplanRow.slot]
      by_cases hcase : Fixed acc.2 row.table row.place
      · simp [hfixed.mpr hcase, hcase]
      · simp only [Bool.not_true, Bool.false_eq_true, if_false, Bool.and_true, true_and, hcase,
          not_false_eq_true, if_true, hfixed]
        exact iden_writeSlot_self _ row

theorem Fixed.congr (h : Framed s s') (hsame : s'.iden t i = s.iden t i) :
    Fixed s' t i ↔ Fixed s t i := by
  simp only [Fixed, hsame, looksSeeded_congr h]

variable {rows : List BandplanRow}

theorem iden_foldl_seedSystemRow (h : Planned s) (hrows : ∀ row ∈ rows, row ∈ s.bandplanRows)
    (t : Table) (i : Fin 16) :
    (rows.foldl seedSystemRow (0, s)).2.iden t i =
      if Fixed s t i then s.iden t i
      else (rows.find? fun row => row.namesSystem s && row.isFor t i).elim (s.iden t i)
        written := by
  induction rows using List.reverseRecOn with
  | nil => simp
  | append_singleton rows row ih =>
    have hframed := (held_foldl_seedSystemRow (s := s) rows).1
    have hold := ih fun r hr => hrows r (by simp [hr])
    rw [foldl_append, foldl_cons, foldl_nil,
      iden_seedSystemRow h hframed (hrows row (by simp)), find?_append]
    by_cases hfixed : Fixed s t i
    · rw [if_pos hfixed] at hold ⊢
      have hstill := (Fixed.congr hframed hold).mpr hfixed
      rw [if_neg fun hboth => hboth.2 hstill, hold]
    · rw [if_neg hfixed] at hold ⊢
      cases hfind : rows.find? fun row => row.namesSystem s && row.isFor t i with
      | some r =>
        have hr : r.namesSystem s = true := by
          have hp := find?_some hfind
          simp only [Bool.and_eq_true] at hp
          exact hp.1
        rw [hfind, Option.elim_some] at hold
        have hstill : Fixed (rows.foldl seedSystemRow (0, s)).2 t i := by
          rw [Fixed, hold]
          exact ⟨rfl, not_looksSeeded_written hr t i⟩
        rw [if_neg fun hboth => hboth.2 hstill, hold, Option.some_or, Option.elim_some]
      | none =>
        rw [hfind, Option.elim_none] at hold
        have hopen := mt (Fixed.congr hframed hold).mp hfixed
        rw [Option.none_or, find?_singleton, hold]
        by_cases hrow : (row.namesSystem s && row.isFor t i) = true
        · rw [if_pos ⟨hrow, hopen⟩, if_pos hrow, Option.elim_some]
        · rw [if_neg fun hboth => hrow hboth.1, if_neg hrow, Option.elim_none]

theorem iden_foldl_seedGlobalRow (acc : ℕ × State) (rows : List BandplanRow) (t : Table)
    (i : Fin 16) :
    (rows.foldl seedGlobalRow acc).2.iden t i =
      if (acc.2.iden t i).populated then acc.2.iden t i
      else (rows.find? fun row => row.isGlobal && row.isFor t i).elim (acc.2.iden t i) written := by
  induction rows generalizing acc with
  | nil => simp
  | cons row rows ih =>
    have hstep : (seedGlobalRow acc row).2.iden t i =
        if (row.isGlobal && row.isFor t i) = true ∧ (acc.2.iden t i).populated = false
        then row.written else acc.2.iden t i := by
      rw [seedGlobalRow]
      cases hglobal : row.isGlobal with
      | false => simp
      | true =>
        cases hfor : row.isFor t i with
        | false =>
          simp only [Bool.not_true, Bool.false_eq_true, if_false, Bool.and_false, false_and]
          split
          · rfl
          · exact iden_writeSlot_of_not_isFor hfor
        | true =>
          obtain ⟨rfl, rfl⟩ : row.table = t ∧ row.place = i := by
            simpa [isFor] using hfor
          simp only [Bool.not_true, Bool.false_eq_true, if_false, Bool.and_true, true_and,
            BandplanRow.slot]
          by_cases hheld : (acc.2.iden row.table row.place).populated = true
          · simp [hheld]
          · simpa [hheld] using iden_writeSlot_self _ row
    rw [foldl_cons, ih, hstep, find?_cons]
    cases hrow : (row.isGlobal && row.isFor t i) with
    | false => simp
    | true =>
      cases hheld : (acc.2.iden t i).populated with
      | false => simp [written]
      | true => simp [hheld]

theorem namesSystem_of_unknown (h : ¬(s.wacn ≠ 0 ∨ s.sysid ≠ 0)) (row : BandplanRow) :
    row.namesSystem s = false := by
  rw [not_or, not_not, not_not] at h
  rw [← Bool.not_eq_true]
  simp only [namesSystem, isGlobal, h.1, h.2, Bool.and_eq_true]
  rintro ⟨⟨hglobal, hwacn⟩, hsysid⟩
  simp [of_decide_eq_true hwacn, of_decide_eq_true hsysid] at hglobal

theorem mem_of_mem_plan (h : row ∈ s.plan) : row ∈ s.bandplanRows :=
  mem_of_mem_take h

/-- The state between the system rows and the global rows of a seeding. -/
def systemSeeded (s : State) : ℕ × State :=
  if s.wacn ≠ 0 ∨ s.sysid ≠ 0 then s.plan.foldl seedSystemRow (0, s) else (0, s)

theorem bandplanSeed_eq (s : State) :
    bandplanSeed s = s.plan.foldl seedGlobalRow (systemSeeded s) := rfl

theorem iden_systemSeeded (h : Planned s) (t : Table) (i : Fin 16) :
    (systemSeeded s).2.iden t i =
      if Fixed s t i then s.iden t i else (rowOfSystem s t i).elim (s.iden t i) written := by
  rw [systemSeeded]
  split
  · exact iden_foldl_seedSystemRow h (fun row hrow => mem_of_mem_plan hrow) t i
  · rename_i hunknown
    have hnone : rowOfSystem s t i = none := by
      simp [rowOfSystem, find?_eq_none, namesSystem_of_unknown hunknown]
    rw [hnone]
    simp

theorem iden_bandplanSeed (h : Planned s) (t : Table) (i : Fin 16) :
    (bandplanSeed s).2.iden t i =
      if Fixed s t i then s.iden t i
      else (rowOfSystem s t i).elim
        (if (s.iden t i).populated then s.iden t i
          else (globalRow s t i).elim (s.iden t i) written) written := by
  rw [bandplanSeed_eq, iden_foldl_seedGlobalRow, iden_systemSeeded h]
  by_cases hfixed : Fixed s t i
  · rw [if_pos hfixed, if_pos hfixed, if_pos hfixed.1]
  · rw [if_neg hfixed, if_neg hfixed]
    cases rowOfSystem s t i with
    | some row => simp [written]
    | none => rfl

/-- A call that bears on the tables. An entry learned over the air is written with any hint. -/
inductive Event where
  | seed
  | identity (wacn sysid : BitVec 64)
  | overTheAir (t : Table) (i : Fin 16) (e : IdenEntry) (hint : BitVec 8)

/-- An entry is written as one learned over the air: trusted, or with a provenance, or with
numbers no global row of the plan has. -/
def FromAir (s : State) (e : IdenEntry) : Prop :=
  e.populated = true ∧ (e.trust = 2 ∨ ¬(e.wacn = 0 ∧ e.sysid = 0 ∧ e.rfss = 0 ∧ e.site = 0) ∨
    ∀ g ∈ s.bandplanRows, g.isGlobal = true → entryNumbersEqual g.entry e = false)

/-- The entries a run learns are written as ones learned over the air. -/
def Event.Allowed (s : State) : Event → Prop
  | .overTheAir _ _ e _ => FromAir s e
  | _ => True

/-- The tables, and what was learned over the air since they were last reset. -/
structure Course where
  state : State
  air : Table → Fin 16 → Option IdenEntry

/-- Whether an update of the identity resets the tables. -/
def State.resetBy (s : State) (wacn sysid : BitVec 64) : Bool :=
  !(wacn = 0 && sysid = 0) && (s.wacn ≠ 0 || s.sysid ≠ 0) && (s.wacn ≠ wacn || s.sysid ≠ sysid)

/-- One call. -/
def Course.step (c : Course) : Event → Course
  | .seed => { c with state := (bandplanSeed c.state).2 }
  | .identity wacn sysid =>
    ⟨(updateSystemIdentity c.state wacn sysid).2,
      if c.state.resetBy wacn sysid then fun _ _ => none else c.air⟩
  | .overTheAir t i e hint =>
    ⟨c.state.store t i e hint, Function.update c.air t (Function.update (c.air t) i (some e))⟩

/-- What a place is to hold after a seeding. -/
def Course.expected (c : Course) (t : Table) (i : Fin 16) : IdenEntry :=
  (c.air t i).getD ((rowOfSystem c.state t i).elim
    ((globalRow c.state t i).elim .empty written) written)

/-- What a place may hold at any time: what was learned over the air, and else nothing, or what the
first row naming the system, or the first that applies everywhere, wrote. -/
def Course.Sourced (c : Course) (t : Table) (i : Fin 16) : Prop :=
  match c.air t i with
  | some e => FromAir c.state e ∧ c.state.iden t i = e
  | none => c.state.iden t i = .empty ∨
      (∃ row ∈ rowOfSystem c.state t i, c.state.iden t i = row.written) ∨
      ∃ row ∈ globalRow c.state t i, c.state.iden t i = row.written

theorem FromAir.fixed (h : FromAir s (s.iden t i)) : Fixed s t i := by
  refine ⟨h.1, ?_⟩
  rw [← Bool.not_eq_true]
  intro hlooks
  simp only [looksSeeded, Bool.and_eq_true, decide_eq_true_eq, any_eq_true] at hlooks
  obtain ⟨⟨⟨⟨⟨htrust, hwacn⟩, hsysid⟩, hrfss⟩, hsite⟩, g, hg, ⟨-, hglobal⟩, hequal⟩ := hlooks
  rcases h.2 with h | h | h
  · rw [htrust] at h
    exact absurd h (by decide)
  · exact h ⟨hwacn, hsysid, hrfss, hsite⟩
  · rw [h g hg hglobal] at hequal
    cases hequal

theorem systemRow_spec (h : rowOfSystem s t i = some row) : row.namesSystem s = true := by
  have hp := find?_some h
  simp only [Bool.and_eq_true] at hp
  exact hp.1

theorem globalRow_spec (h : globalRow s t i = some row) :
    row ∈ s.bandplanRows ∧ row.isGlobal = true ∧ row.table = t ∧ row.place = i := by
  have hp := find?_some h
  simp only [isFor, Bool.and_eq_true, decide_eq_true_eq] at hp
  exact ⟨mem_of_mem_plan (mem_of_find?_eq_some h), hp.1, hp.2.1, hp.2.2⟩

variable {c : Course}

theorem Course.Sourced.seed (hplan : Planned c.state) (h : c.Sourced t i) :
    (bandplanSeed c.state).2.iden t i = c.expected t i := by
  rw [iden_bandplanSeed hplan, Course.expected]
  rw [Course.Sourced] at h
  cases hair : c.air t i with
  | some e =>
    rw [hair] at h
    obtain ⟨hfrom, hiden⟩ := h
    have hfixed : Fixed c.state t i := (hiden ▸ hfrom : FromAir c.state (c.state.iden t i)).fixed
    rw [if_pos hfixed, hiden]
    rfl
  | none =>
    rw [hair] at h
    rw [Option.getD_none]
    rcases h with hempty | ⟨row, hrow, hiden⟩ | ⟨row, hrow, hiden⟩
    · have hopen : ¬Fixed c.state t i := by
        rw [Fixed, hempty]
        simp [IdenEntry.empty]
      rw [if_neg hopen, hempty]
      simp [IdenEntry.empty]
    · have hnames := systemRow_spec hrow
      have hfixed : Fixed c.state t i := by
        rw [Fixed, hiden]
        exact ⟨rfl, not_looksSeeded_written hnames t i⟩
      have hsome : rowOfSystem c.state t i = some row := hrow
      rw [if_pos hfixed, hsome, hiden]
      rfl
    · obtain ⟨hmem, hglobal, rfl, rfl⟩ := globalRow_spec hrow
      have hopen : ¬Fixed c.state row.table row.place := by
        rw [Fixed, hiden, looksSeeded_written hmem hglobal]
        simp
      have hsome : globalRow c.state row.table row.place = some row := hrow
      rw [if_neg hopen, hiden, hsome]
      simp [written]

/-- Two courses that learned the same over the air, with the same plan and system. -/
structure Course.Alike (c c' : Course) : Prop where
  rows : c'.state.bandplanRows = c.state.bandplanRows
  wacn : c'.state.wacn = c.state.wacn
  sysid : c'.state.sysid = c.state.sysid
  air : c'.air = c.air

theorem systemRow_congr (hrows : s'.bandplanRows = s.bandplanRows) (hwacn : s'.wacn = s.wacn)
    (hsysid : s'.sysid = s.sysid) : rowOfSystem s' = rowOfSystem s := by
  funext t i
  simp only [rowOfSystem, State.plan, namesSystem, hrows, hwacn, hsysid]

theorem globalRow_congr (hrows : s'.bandplanRows = s.bandplanRows) :
    globalRow s' = globalRow s := by
  funext t i
  simp only [globalRow, State.plan, hrows]

theorem FromAir.congr (hrows : s'.bandplanRows = s.bandplanRows) {e : IdenEntry} (h : FromAir s e) :
    FromAir s' e := by
  rw [FromAir, hrows]
  exact h

theorem Course.Alike.expected {c' : Course} (h : c.Alike c') : c'.expected = c.expected := by
  funext t i
  rw [Course.expected, Course.expected, h.air, systemRow_congr h.rows h.wacn h.sysid,
    globalRow_congr h.rows]

/-- Every place holds what it is to hold, and what was learned over the air looks so. -/
structure Course.Settled (c : Course) : Prop where
  planned : Planned c.state
  holds : ∀ t i, c.state.iden t i = c.expected t i
  air : ∀ t i, ∀ e ∈ c.air t i, FromAir c.state e

theorem Course.Settled.sourced (h : c.Settled) (t : Table) (i : Fin 16) : c.Sourced t i := by
  have hiden := h.holds t i
  rw [Course.Sourced]
  rw [Course.expected] at hiden
  cases hair : c.air t i with
  | some e =>
    rw [hair] at hiden
    exact ⟨h.air t i e hair, hiden⟩
  | none =>
    rw [hair, Option.getD_none] at hiden
    cases hsystem : rowOfSystem c.state t i with
    | some row =>
      rw [hsystem] at hiden
      exact Or.inr (Or.inl ⟨row, rfl, hiden⟩)
    | none =>
      cases hglobal : globalRow c.state t i with
      | some row =>
        rw [hsystem, hglobal] at hiden
        exact Or.inr (Or.inr ⟨row, rfl, hiden⟩)
      | none =>
        rw [hsystem, hglobal] at hiden
        exact Or.inl hiden

theorem Course.settled_seed (hplan : Planned c.state) (h : ∀ t i, c.Sourced t i) :
    (c.step .seed).Settled := by
  obtain ⟨hframed, -⟩ := bandplanSeed_spec c.state
  have halike : c.Alike (c.step .seed) := ⟨hframed.rows, hframed.wacn, hframed.sysid, rfl⟩
  refine ⟨fun row hrow => hplan row (hframed.rows ▸ hrow), fun t i => ?_, fun t i e he => ?_⟩
  · rw [halike.expected]
    exact (h t i).seed hplan
  · have hsourced := h t i
    have hair : c.air t i = some e := he
    rw [Course.Sourced, hair] at hsourced
    exact hsourced.1.congr hframed.rows

theorem Course.Settled.held (h : c.Settled) (hrow : row ∈ c.state.plan) :
    (row.isGlobal = true → (c.state.iden row.table row.place).populated = true) ∧
      (row.namesSystem c.state = true → Fixed c.state row.table row.place) := by
  have hiden := h.holds row.table row.place
  rw [Course.expected] at hiden
  have hself : row.isFor row.table row.place = true := by simp [isFor]
  cases hair : c.air row.table row.place with
  | some e =>
    rw [hair, Option.getD_some] at hiden
    have hfixed : Fixed c.state row.table row.place :=
      (hiden ▸ h.air _ _ e hair : FromAir c.state (c.state.iden row.table row.place)).fixed
    exact ⟨fun _ => hfixed.1, fun _ => hfixed⟩
  | none =>
    rw [hair, Option.getD_none] at hiden
    cases hsystem : rowOfSystem c.state row.table row.place with
    | some r =>
      rw [hsystem, Option.elim_some] at hiden
      have hfixed : Fixed c.state row.table row.place := by
        rw [Fixed, hiden]
        exact ⟨rfl, not_looksSeeded_written (systemRow_spec hsystem) _ _⟩
      exact ⟨fun _ => hfixed.1, fun _ => hfixed⟩
    | none =>
      constructor
      · intro hglobal
        cases hfirst : globalRow c.state row.table row.place with
        | some r =>
          rw [hsystem, hfirst] at hiden
          rw [hiden]
          rfl
        | none =>
          have hnot := find?_eq_none.mp hfirst row hrow
          simp [hglobal, hself] at hnot
      · intro hnames
        have hnot := find?_eq_none.mp hsystem row hrow
        simp [hnames, hself] at hnot

theorem foldl_eq_self {α β : Type} {f : α → β → α} {a : α} {l : List β} (h : ∀ b ∈ l, f a b = a) :
    l.foldl f a = a := by
  induction l with
  | nil => rfl
  | cons b l ih =>
    rw [foldl_cons, h b mem_cons_self]
    exact ih fun b' hb' => h b' (mem_cons_of_mem b hb')

theorem Course.Settled.seed_again (h : c.Settled) : bandplanSeed c.state = (0, c.state) := by
  have hsystem : systemSeeded c.state = (0, c.state) := by
    rw [systemSeeded]
    split
    · apply foldl_eq_self
      intro row hrow
      rw [seedSystemRow]
      cases hnames : row.namesSystem c.state with
      | false => simp
      | true =>
        obtain ⟨hpop, hlooks⟩ := (h.held hrow).2 hnames
        have hseeded : slotIsSeededGlobal c.state row (row.slot c.state) = false := by
          rw [h.planned.slotIsSeededGlobal (mem_of_mem_plan hrow)]
          exact hlooks
        have hslot : (row.slot c.state).populated = true := hpop
        simp [hseeded, hslot]
    · rfl
  rw [bandplanSeed_eq, hsystem]
  apply foldl_eq_self
  intro row hrow
  rw [seedGlobalRow]
  cases hglobal : row.isGlobal with
  | false => simp
  | true =>
    have hslot : (row.slot c.state).populated = true := (h.held hrow).1 hglobal
    simp [hslot]

/-- The state an identity update seeds. -/
def State.renamed (s : State) (wacn sysid : BitVec 64) : State :=
  { (if s.resetBy wacn sysid then invalidateChanMap (resetIdenTables s) else s) with
    wacn := wacn
    sysid := sysid }

/-- Whether an update of the identity seeds the tables. -/
def State.seededBy (s : State) (wacn sysid : BitVec 64) : Bool :=
  !(wacn = 0 && sysid = 0) && (s.wacn ≠ wacn || s.sysid ≠ sysid)

theorem updateSystemIdentity_eq (s : State) (wacn sysid : BitVec 64) :
    (updateSystemIdentity s wacn sysid).2 =
      if s.seededBy wacn sysid then (bandplanSeed (s.renamed wacn sysid)).2 else s := by
  rw [updateSystemIdentity]
  by_cases hnone : wacn = 0 ∧ sysid = 0
  · simp [hnone, State.seededBy]
  · by_cases hchanged : s.wacn ≠ wacn ∨ s.sysid ≠ sysid
    · have hseeded : s.seededBy wacn sysid = true := by
        simp only [State.seededBy, Bool.and_eq_true, Bool.not_eq_true', Bool.and_eq_false_iff,
          decide_eq_false_iff_not, Bool.or_eq_true, decide_eq_true_eq]
        exact ⟨not_and_or.mp hnone, hchanged⟩
      have hreset : s.resetBy wacn sysid = true ↔ (s.wacn ≠ 0 ∨ s.sysid ≠ 0) := by
        simp only [State.resetBy, Bool.and_eq_true, Bool.not_eq_true', Bool.and_eq_false_iff,
          decide_eq_false_iff_not, Bool.or_eq_true, decide_eq_true_eq]
        exact ⟨fun h => h.1.2, fun h => ⟨⟨not_and_or.mp hnone, h⟩, hchanged⟩⟩
      rw [if_neg hnone, if_pos hseeded]
      simp only [hchanged, and_true, if_true, State.renamed, hreset]
    · have hsame : s.wacn = wacn ∧ s.sysid = sysid := by
        rw [not_or, not_not, not_not] at hchanged
        exact hchanged
      obtain ⟨rfl, rfl⟩ := hsame
      rw [if_neg hnone]
      simp [State.seededBy]

/-- The course an identity update seeds. -/
def Course.renamed (c : Course) (wacn sysid : BitVec 64) : Course :=
  ⟨c.state.renamed wacn sysid, if c.state.resetBy wacn sysid then fun _ _ => none else c.air⟩

variable {wacn sysid : BitVec 64}

theorem resetBy_of_not_seededBy (h : s.seededBy wacn sysid = false) :
    s.resetBy wacn sysid = false := by
  rw [← Bool.not_eq_true] at h ⊢
  intro hreset
  apply h
  simp only [State.resetBy, State.seededBy, Bool.and_eq_true] at hreset ⊢
  exact ⟨hreset.1.1, hreset.2⟩

theorem Course.step_identity (c : Course) (wacn sysid : BitVec 64) :
    c.step (.identity wacn sysid) =
      if c.state.seededBy wacn sysid then (c.renamed wacn sysid).step .seed else c := by
  have hstep : c.step (.identity wacn sysid) = ⟨(updateSystemIdentity c.state wacn sysid).2,
      if c.state.resetBy wacn sysid then fun _ _ => none else c.air⟩ := rfl
  rw [hstep, updateSystemIdentity_eq]
  cases hseeded : c.state.seededBy wacn sysid with
  | true => rfl
  | false =>
    rw [resetBy_of_not_seededBy hseeded]
    rfl

/-- A reset empties the tables and keeps the plan. -/
theorem invalidated_reset (s : State) :
    (invalidateChanMap (resetIdenTables s)).bandplanRows = s.bandplanRows ∧
      ∀ t i, (invalidateChanMap (resetIdenTables s)).iden t i = .empty := by
  have hsame := (invalidateChanMap_spec (resetIdenTables s)).1
  exact ⟨hsame.rows, fun t i => (hsame.iden i).entry t⟩

theorem Course.sourced_empty (hplan : Planned s) (hrows : s.bandplanRows = rows)
    (hempty : ∀ t i, s.iden t i = .empty) (wacn sysid : BitVec 64) :
    Planned (⟨{ s with wacn := wacn, sysid := sysid }, fun _ _ => none⟩ : Course).state ∧
      (⟨{ s with wacn := wacn, sysid := sysid }, fun _ _ => none⟩ : Course).state.bandplanRows =
        rows ∧
      ∀ t i, (⟨{ s with wacn := wacn, sysid := sysid }, fun _ _ => none⟩ : Course).Sourced t i :=
  ⟨hplan, hrows, fun t i => Or.inl (hempty t i)⟩

theorem Course.renamed_of_reset (h : c.state.resetBy wacn sysid = true) :
    c.renamed wacn sysid = ⟨{ invalidateChanMap (resetIdenTables c.state) with
      wacn := wacn, sysid := sysid }, fun _ _ => none⟩ := by
  rw [Course.renamed, State.renamed, if_pos h, if_pos h]

/-- An identity update finds every place sourced: empty after a reset, and before the system is
known held by no row that names one. -/
theorem Course.Sourced.renamed (hplan : Planned c.state)
    (hseeded : c.state.seededBy wacn sysid = true) (h : ∀ t i, c.Sourced t i) :
    Planned (c.renamed wacn sysid).state ∧
      (c.renamed wacn sysid).state.bandplanRows = c.state.bandplanRows ∧
      ∀ t i, (c.renamed wacn sysid).Sourced t i := by
  cases hreset : c.state.resetBy wacn sysid with
  | true =>
    obtain ⟨hrows, hempty⟩ := invalidated_reset c.state
    rw [Course.renamed_of_reset hreset]
    have hplan' : Planned (invalidateChanMap (resetIdenTables c.state)) := by
      intro row hrow
      rw [hrows] at hrow
      exact hplan row hrow
    exact Course.sourced_empty hplan' hrows hempty wacn sysid
  | false =>
    have hrenamed : c.renamed wacn sysid =
      ⟨{ c.state with wacn := wacn, sysid := sysid }, c.air⟩ := by
      rw [Course.renamed, State.renamed, hreset]
      simp only [Bool.false_eq_true, if_false]
    rw [hrenamed]
    refine ⟨hplan, rfl, fun t i => ?_⟩
    have hunknown : ¬(c.state.wacn ≠ 0 ∨ c.state.sysid ≠ 0) := by
      intro hknown
      simp only [State.seededBy, Bool.and_eq_true] at hseeded
      have hknown' : (decide (c.state.wacn ≠ 0) || decide (c.state.sysid ≠ 0)) = true := by
        simpa using hknown
      rw [State.resetBy, hseeded.1, hseeded.2, hknown'] at hreset
      cases hreset
    have hsourced := h t i
    rw [Course.Sourced] at hsourced ⊢
    cases hair : c.air t i with
    | some e =>
      rw [hair] at hsourced
      exact hsourced
    | none =>
      rw [hair] at hsourced
      rcases hsourced with hnone | ⟨row, hrow, -⟩ | hglobal
      · exact Or.inl hnone
      · have hnames := systemRow_spec hrow
        rw [namesSystem_of_unknown hunknown] at hnames
        cases hnames
      · exact Or.inr (Or.inr hglobal)

theorem Course.Sourced.overTheAir (h : ∀ t i, c.Sourced t i) {e : IdenEntry}
    (he : FromAir c.state e) (hint : BitVec 8) (t' : Table) (i' : Fin 16) :
    (c.step (.overTheAir t i e hint)).Sourced t' i' := by
  have hsourced := h t' i'
  rw [Course.Sourced] at hsourced ⊢
  by_cases hplace : t' = t ∧ i' = i
  · obtain ⟨rfl, rfl⟩ := hplace
    simp only [Course.step, State.store, Function.update_self]
    exact ⟨he, trivial⟩
  · have hiden : (c.step (.overTheAir t i e hint)).state.iden t' i' = c.state.iden t' i' := by
      by_cases ht : t' = t
      · subst ht
        have hi : i' ≠ i := fun hi => hplace ⟨rfl, hi⟩
        simp [Course.step, State.store, hi]
      · simp [Course.step, State.store, ht]
    have hair : (c.step (.overTheAir t i e hint)).air t' i' = c.air t' i' := by
      by_cases ht : t' = t
      · subst ht
        have hi : i' ≠ i := fun hi => hplace ⟨rfl, hi⟩
        simp [Course.step, hi]
      · simp [Course.step, ht]
    rw [hair, hiden]
    exact hsourced

/-- What every call keeps. -/
structure Course.Kept (c : Course) (rows : List BandplanRow) : Prop where
  rows_eq : c.state.bandplanRows = rows
  planned : Planned c.state
  sourced : ∀ t i, c.Sourced t i

/-- Whether a call seeds the tables. -/
def Course.seeds (c : Course) : Event → Bool
  | .seed => true
  | .identity wacn sysid => c.state.seededBy wacn sysid
  | .overTheAir .. => false

theorem Course.Settled.kept (h : c.Settled) (hrows : c.state.bandplanRows = rows) : c.Kept rows :=
  ⟨hrows, h.planned, h.sourced⟩

theorem Course.rows_seed (c : Course) : (c.step .seed).state.bandplanRows = c.state.bandplanRows :=
  (bandplanSeed_spec c.state).1.rows

theorem Course.Kept.step (h : c.Kept rows) {event : Event} (hevent : event.Allowed c.state) :
    (c.step event).Kept rows ∧ (c.seeds event = true → (c.step event).Settled) := by
  cases event with
  | seed =>
    have hsettled := c.settled_seed h.planned h.sourced
    exact ⟨hsettled.kept (c.rows_seed.trans h.rows_eq), fun _ => hsettled⟩
  | overTheAir t i e hint =>
    have hplan : Planned (c.step (.overTheAir t i e hint)).state := h.planned
    exact ⟨⟨h.rows_eq, hplan, Course.Sourced.overTheAir h.sourced hevent hint⟩,
      fun hseeds => by cases hseeds⟩
  | identity wacn sysid =>
    rw [c.step_identity]
    cases hseeded : c.state.seededBy wacn sysid with
    | false => exact ⟨h, fun hseeds => by rw [Course.seeds, hseeded] at hseeds; cases hseeds⟩
    | true =>
      obtain ⟨hplan, hrows, hsourced⟩ := Course.Sourced.renamed h.planned hseeded h.sourced
      have hsettled := (c.renamed wacn sysid).settled_seed hplan hsourced
      have hrows' := (c.renamed wacn sysid).rows_seed.trans (hrows.trans h.rows_eq)
      exact ⟨hsettled.kept hrows', fun _ => hsettled⟩

/-- Calls from a state on. -/
def Course.run (s : State) (events : List Event) : Course :=
    events.foldl Course.step ⟨s, fun _ _ => none⟩

theorem Course.kept_run (hempty : ∀ t i, s.iden t i = .empty) (hplan : Planned s)
    {events : List Event} (hevents : ∀ event ∈ events, event.Allowed s) :
    (Course.run s events).Kept s.bandplanRows := by
  induction events using List.reverseRecOn with
  | nil => exact ⟨rfl, hplan, fun t i => Or.inl (hempty t i)⟩
  | append_singleton events event ih =>
    have hkept := ih fun event' h' => hevents event' (by simp [h'])
    have hallowed : event.Allowed (Course.run s events).state := by
      have hevent := hevents event (by simp)
      cases event with
      | overTheAir t i e hint => exact FromAir.congr hkept.rows_eq hevent
      | _ => trivial
    have hrun : Course.run s (events ++ [event]) =
      (Course.run s events).step event := by simp [Course.run]
    rw [hrun]
    exact (hkept.step hallowed).1

/-- After every seeding of a run from empty tables, each place holds what was learned over the air
since the last reset, else the first row naming the system, else the first that applies everywhere,
else nothing, and another seeding writes nothing; and at no time does a place hold what a row naming
another system wrote. -/
theorem seeding_precedence (s : State) (hempty : ∀ t i, s.iden t i = .empty) (hplan : Planned s)
    (events : List Event) (hevents : ∀ event ∈ events, event.Allowed s) (event : Event)
    (hevent : event.Allowed s) :
    ((Course.run s events).seeds event = true →
      (∀ t i, ((Course.run s events).step event).state.iden t i =
        ((Course.run s events).step event).expected t i) ∧
      bandplanSeed ((Course.run s events).step event).state =
        (0, ((Course.run s events).step event).state)) ∧
    ∀ t i, (Course.run s events).air t i = none →
      (Course.run s events).state.iden t i = .empty ∨
      ∃ row ∈ s.bandplanRows,
        (row.isGlobal = true ∨ row.namesSystem (Course.run s events).state = true) ∧
        (Course.run s events).state.iden t i = row.written := by
  have hkept := Course.kept_run hempty hplan hevents
  have hallowed : event.Allowed (Course.run s events).state := by
    cases event with
    | overTheAir t i e hint => exact FromAir.congr hkept.rows_eq hevent
    | _ => trivial
  refine ⟨fun hseeds => ?_, fun t i hair => ?_⟩
  · have hsettled := (hkept.step hallowed).2 hseeds
    exact ⟨hsettled.holds, hsettled.seed_again⟩
  · have hsourced := hkept.sourced t i
    rw [Course.Sourced, hair] at hsourced
    have hmem : ∀ row ∈ (Course.run s events).state.plan, row ∈ s.bandplanRows := by
      intro row hrow
      rw [← hkept.rows_eq]
      exact mem_of_mem_plan hrow
    rcases hsourced with hnone | ⟨row, hrow, hiden⟩ | ⟨row, hrow, hiden⟩
    · exact Or.inl hnone
    · have hfound : rowOfSystem (Course.run s events).state t i = some row := hrow
      exact Or.inr ⟨row, hmem row (mem_of_find?_eq_some hfound),
        Or.inr (systemRow_spec hfound), hiden⟩
    · have hfound : globalRow (Course.run s events).state t i = some row := hrow
      exact Or.inr ⟨row, hmem row (mem_of_find?_eq_some hfound),
        Or.inl (globalRow_spec hfound).2.1, hiden⟩

/-- A row that applies everywhere, and one of the same identifier for a system. -/
def twoRows : State where
  synctype := 0
  ccIsTdma := 0
  sysIsTdma := 0
  wacn := 0
  sysid := 0
  chanTdmaExplicit := fun _ => 0
  iden := fun _ _ => .empty
  bandplanRows :=
    [⟨1, false, ⟨170201250, 1, 100, -180, 0, 1, true, 0, 0, 0, 0⟩⟩,
      ⟨1, false, ⟨172000000, 1, 50, 180, 0, 1, true, 0xBEE00, 0x1A, 0, 0⟩⟩]
  trunkChanMap := fun _ => 0

/-- A row of the system stands before a global one. -/
theorem seeding_precedence_twoRows :
    (((Course.run twoRows [.seed]).step (.identity 0xBEE00 0x1A)).state.iden .fdma 1).baseFreq =
      172000000 := by
  have hplan : Planned twoRows := by
    simp [Planned, twoRows]
  have hevents : ∀ event ∈ [Event.seed], event.Allowed twoRows := by
    simp [Event.Allowed]
  obtain ⟨hseeded, -⟩ := seeding_precedence twoRows (fun _ _ => rfl) hplan [.seed] hevents
    (.identity 0xBEE00 0x1A) trivial
  rw [(hseeded (by decide)).1 .fdma 1]
  decide

end DsdNeo.P25.Frequency
