import DsdNeo.Models.P25.BandplanCsv

/-!
# A band plan exported and imported again

A row is written whatever its entry holds, and read only where every value is one a file may give.
The bandwidth is written as six and a quarter or twelve and a half kilohertz or not at all, and the
table a row belongs to is not written: both are worked out again when it is read.
-/

namespace DsdNeo.P25.Bandplan

open Text Csv Frequency List

/-- The most units of transmit offset a row may give. -/
def offsetMost (bwVu : BitVec 8) (isTdma : Bool) : ℤ :=
  if bwVu ≠ 0 || isTdma then vuOffsetMaxUnits else stdOffsetMaxUnits

/-- An entry of one of the two tables is one a row of a file can say. -/
structure Fits (isTdma : Bool) (e : IdenEntry) : Prop where
  base : 0 < e.baseFreq ∧ e.baseFreq ≤ baseMaxUnits
  spacing : 0 < e.chanSpac ∧ e.chanSpac ≤ spacingMaxUnits
  type : e.chanType.toNat ≤ 15
  table : isTdma = decide (2 < e.chanType.toNat)
  bandwidth : e.bwVu = 0 ∨ e.bwVu = 4 ∨ e.bwVu = 5
  offset : -offsetMost e.bwVu isTdma ≤ e.transOff ∧ e.transOff ≤ offsetMost e.bwVu isTdma
  wacn : e.wacn.toNat ≤ wacnMax
  sysid : e.sysid.toNat ≤ sysidMax

theorem bind_eq_ok {ε : Type} {α β : Type} {x : Except ε α} {f : α → Except ε β} {b : β}
    (h : x >>= f = .ok b) : ∃ a, x = .ok a ∧ f a = .ok b := by
  cases x with
  | error e => cases h
  | ok a => exact ⟨a, rfl, h⟩

theorem bind_of_ok {ε : Type} {α β : Type} {x : Except ε α} {f : α → Except ε β} {a : α}
    {r : Except ε β} (hx : x = .ok a) (hf : f a = r) : x >>= f = r := by
  rw [hx]
  exact hf

variable {why : String} {ok : ℕ → Bool}

theorem checked_eq_ok {value : Option (BitVec 64)} {n : ℕ} (h : checked value ok why = .ok n) :
    ok n = true := by
  unfold checked at h
  split at h
  · split at h
    · rename_i hok
      cases h
      exact hok
    · cases h
  · cases h

variable {fields : List Bytes}

/-- What the three required cells give. -/
theorem parseRequired_eq_ok {iden base spacing : ℕ}
    (h : parseRequired fields = .ok (iden, base, spacing)) :
    (base ≠ 0 ∧ base % baseUnitHz = 0 ∧ base / baseUnitHz ≤ baseMaxUnits) ∧
      spacing ≠ 0 ∧ spacing % spacingUnitHz = 0 ∧ spacing / spacingUnitHz ≤ spacingMaxUnits := by
  rw [parseRequired] at h
  split at h
  · cases h
  · obtain ⟨iden', -, h⟩ := bind_eq_ok h
    obtain ⟨base', hbase, h⟩ := bind_eq_ok h
    obtain ⟨spacing', hspacing, h⟩ := bind_eq_ok h
    cases h
    simpa [and_assoc] using And.intro (checked_eq_ok hbase) (checked_eq_ok hspacing)

theorem bwCodeFromHz_eq_some {hz : ℕ} {code : BitVec 8} (h : bwCodeFromHz hz = some code) :
    code = 0 ∨ code = 4 ∨ code = 5 := by
  rw [bwCodeFromHz] at h
  split_ifs at h <;> cases h <;> simp

variable {cols : HeaderCols}

theorem parseTypeAndBw_eq_ok {type : ℕ} {code : BitVec 8}
    (h : parseTypeAndBw fields cols = .ok (type, code)) :
    type ≤ 15 ∧ (code = 0 ∨ code = 4 ∨ code = 5) := by
  rw [parseTypeAndBw] at h
  obtain ⟨type', htype, h⟩ := bind_eq_ok h
  obtain ⟨code', hcode, h⟩ := bind_eq_ok h
  cases h
  constructor
  · rw [typeOfCell] at htype
    split at htype
    · cases htype
      omega
    · simpa using checked_eq_ok htype
  · rw [bwOfCell] at hcode
    split at hcode
    · cases hcode
      exact .inl rfl
    · split at hcode
      · rename_i hbind
        cases hcode
        obtain ⟨hz, -, hcode⟩ := Option.bind_eq_some_iff.mp hbind
        exact bwCodeFromHz_eq_some hcode
      · cases hcode

theorem offsetInUnits_eq_ok {offsetHz unit most offset : ℤ}
    (h : offsetInUnits offsetHz unit most why = .ok offset) : -most ≤ offset ∧ offset ≤ most := by
  rw [offsetInUnits] at h
  split at h
  · cases h
  · cases h
    omega

variable {isTdma : Bool}

/-- What the cell of the transmit offset gives. -/
theorem parseOffset_eq_ok {spacing offset : ℤ} {bwVu : BitVec 8}
    (h : parseOffset fields cols spacing (bwVu ≠ 0 || isTdma) = .ok offset) :
    -offsetMost bwVu isTdma ≤ offset ∧ offset ≤ offsetMost bwVu isTdma := by
  rw [parseOffset] at h
  obtain ⟨offsetHz, -, h⟩ := bind_eq_ok h
  rw [offsetMost]
  split at h
  · rename_i hunits
    rw [if_pos hunits]
    exact offsetInUnits_eq_ok h
  · rename_i hunits
    rw [if_neg hunits]
    exact offsetInUnits_eq_ok h

theorem parseSystem_eq_ok {wacn sysid : BitVec 64}
    (h : parseSystem fields cols = .ok (wacn, sysid)) :
    wacn.toNat ≤ wacnMax ∧ sysid.toNat ≤ sysidMax := by
  rw [parseSystem] at h
  split at h
  · cases h
  · split at h
    · cases h
      simp
    · obtain ⟨wacn', hwacn, h⟩ := bind_eq_ok h
      obtain ⟨sysid', hsysid, h⟩ := bind_eq_ok h
      cases h
      have hw : wacn' ≤ wacnMax := by simpa using checked_eq_ok hwacn
      have hs : sysid' ≤ sysidMax := by simpa using checked_eq_ok hsysid
      rw [BitVec.toNat_ofNat, BitVec.toNat_ofNat]
      exact ⟨(Nat.mod_le _ _).trans hw, (Nat.mod_le _ _).trans hs⟩

variable {row : BandplanRow}

theorem fits_of_parseRowFields (h : parseRowFields fields cols = .ok row) :
    Fits row.isTdma row.entry := by
  rw [parseRowFields] at h
  obtain ⟨⟨iden, base, spacing⟩, hrequired, h⟩ := bind_eq_ok h
  obtain ⟨⟨type, code⟩, htype, h⟩ := bind_eq_ok h
  obtain ⟨offset, hoffset, h⟩ := bind_eq_ok h
  obtain ⟨⟨wacn, sysid⟩, hsystem, h⟩ := bind_eq_ok h
  obtain ⟨⟨hbase, hbase5, hbaseMost⟩, hspacing, hspacing125, hspacingMost⟩ :=
    parseRequired_eq_ok hrequired
  obtain ⟨htypeMost, hcode⟩ := parseTypeAndBw_eq_ok htype
  have hsmall : type % 2 ^ 32 = type := Nat.mod_eq_of_lt (by omega)
  have hmod : type % 16 = type := Nat.mod_eq_of_lt (by omega)
  obtain ⟨hwacn, hsysid⟩ := parseSystem_eq_ok hsystem
  cases h
  constructor
  · simp only [baseUnitHz] at hbase5 hbaseMost ⊢
    exact ⟨by omega, by omega⟩
  · simp only [spacingUnitHz] at hspacing125 hspacingMost ⊢
    exact ⟨by omega, by omega⟩
  · rw [BitVec.toNat_ofNat, hsmall]
    exact htypeMost
  · rw [BitVec.toNat_ofNat, hsmall, hmod]
  · exact hcode
  · exact parseOffset_eq_ok hoffset
  · exact hwacn
  · exact hsysid

/-- Every row read so far fits. -/
def Parsed.AllFit (p : Parsed) : Prop := ∀ row ∈ p.rows, Fits row.isTdma row.entry

theorem Parsed.AllFit.keep {p : Parsed} (h : p.AllFit) {row : BandplanRow}
    (hrow : Fits row.isTdma row.entry) : (p.keep row).AllFit := by
  intro row' hmem
  rw [Parsed.keep] at hmem
  split at hmem
  · rcases mem_or_eq_of_mem_set hmem with hmem | rfl
    · exact h row' hmem
    · exact hrow
  · split at hmem
    · exact h row' hmem
    · rcases mem_append.mp hmem with hmem | hmem
      · exact h row' hmem
      · rw [mem_singleton.mp hmem]
        exact hrow

theorem Parsed.AllFit.line {p : Parsed} (h : p.AllFit) (cols : HeaderCols) (line : Line) :
    (p.line cols line).AllFit := by
  rw [Parsed.line]
  simp only
  split
  · exact h
  · split
    · exact h
    · split
      · rename_i row hrow
        exact Parsed.AllFit.keep (p := { p with total := p.total + 1 }) h
          (fits_of_parseRowFields hrow)
      · exact h

theorem allFit_parseFile (file : Bytes) : (parseFile file).AllFit := by
  rw [parseFile]
  split
  · simp [Parsed.AllFit]
  · rename_i header lines _
    have hrun : ∀ (lines : List Line) (p : Parsed), p.AllFit → ∀ cols,
        (lines.foldl (Parsed.line cols) p).AllFit := by
      intro lines
      induction lines with
      | nil => exact fun _ h _ => h
      | cons line lines ih => exact fun p h cols => ih _ (h.line cols line) cols
    exact hrun lines _ (by simp [Parsed.AllFit]) _

/-- The columns of the written header. -/
structure WrittenCols (cols : HeaderCols) : Prop where
  type : cols .type = some 3
  offset : cols .offset = some 4
  bw : cols .bw = some 5
  wacn : cols .wacn = some 6
  sysid : cols .sysid = some 7

theorem headerCells_checked :
    (∀ c ∈ headerCells, Plain c) ∧ (joined headerCells).length < bsize := by
  constructor
  · simp [headerCells, ascii, Column.name, Plain, isSpace, comma]
  · simp [headerCells, ascii, Column.name, comma, joined, bsize]

theorem plain_headerCells : ∀ c ∈ headerCells, Plain c := headerCells_checked.1

theorem writtenCols_parseHeader : WrittenCols (parseHeader (joined headerCells)) := by
  have hfields : splitPreserveEmpty (joined headerCells) maxFields = headerCells :=
    splitPreserveEmpty_joined plain_headerCells (by simp [headerCells]) (by decide)
  rw [parseHeader, hfields]
  constructor <;> decide

theorem plain_systemCell (e : IdenEntry) (width : ℕ) (part : BitVec 64) :
    Plain (systemCell e width part) := by
  rw [systemCell]
  split
  · exact plain_zeroPadded (plain_numeral (by omega) (by omega) _) width
  · exact Plain.nil

theorem plain_rowCells (row : BandplanRow) : ∀ c ∈ rowCells row, Plain c := by
  intro c hc
  simp only [rowCells, mem_cons, not_mem_nil, or_false] at hc
  rcases hc with rfl | rfl | rfl | rfl | rfl | rfl | rfl | rfl
  · exact plain_numeral (by omega) (by omega) _
  · exact plain_signedDecimal _
  · exact plain_signedDecimal _
  · exact plain_numeral (by omega) (by omega) _
  · exact plain_signedDecimal _
  · exact plain_numeral (by omega) (by omega) _
  · exact plain_systemCell _ _ _
  · exact plain_systemCell _ _ _

theorem cell_eq {i : ℕ} {c : Bytes} (h : fields[i]? = some c) (hc : Plain c) :
    cell fields (some i) = c := by
  rw [cell, h]
  exact trimWs_plain hc

theorem signedDecimal_ofNat (n : ℕ) : signedDecimal n = numeral 10 n := by
  rw [signedDecimal, if_neg (by omega), Int.natAbs_natCast]

theorem checked_ofNat {n : ℕ} (hn : n < 2 ^ 64) (h : ok n = true) :
    checked (some (BitVec.ofNat 64 n)) ok why = .ok n := by
  have hvalue : (BitVec.ofNat 64 n).toNat = n := by
    rw [BitVec.toNat_ofNat, Nat.mod_eq_of_lt hn]
  simp only [checked, hvalue, h, if_true]

theorem checked_numeral {n : ℕ} (hn : n < 2 ^ 64) (h : ok n = true) :
    checked (parseDecU64Strict (numeral 10 n)) ok why = .ok n := by
  rw [parseDecU64Strict_numeral hn]
  exact checked_ofNat hn h

section Row

variable {row : BandplanRow} {cols : HeaderCols}

theorem parseRequired_rowCells (hiden : row.iden.toNat < 16) {base spacing : ℕ}
    (hbase : row.entry.baseFreq = base) (hspacing : row.entry.chanSpac = spacing)
    (hfits : Fits row.isTdma row.entry) :
    parseRequired (rowCells row) =
      .ok (row.iden.toNat, base * baseUnitHz, spacing * spacingUnitHz) := by
  have hb := hfits.base
  have hs := hfits.spacing
  rw [hbase] at hb
  rw [hspacing] at hs
  simp only [baseMaxUnits, spacingMaxUnits] at hb hs
  have hcell1 : (rowCells row)[1]? = some (numeral 10 (base * baseUnitHz)) := by
    simp only [rowCells, hbase, ← Nat.cast_mul, signedDecimal_ofNat]
    rfl
  have hcell2 : (rowCells row)[2]? = some (numeral 10 (spacing * spacingUnitHz)) := by
    simp only [rowCells, hspacing, ← Nat.cast_mul, signedDecimal_ofNat]
    rfl
  have hplain : ∀ n, Plain (numeral 10 n) := plain_numeral (by omega) (by omega)
  have hlen : ¬(rowCells row).length < 3 := by simp [rowCells]
  rw [parseRequired, if_neg hlen, cell_eq (c := numeral 10 row.iden.toNat) rfl (hplain _),
    cell_eq hcell1 (hplain _), cell_eq hcell2 (hplain _),
    checked_numeral (by omega) (by simpa using by omega),
    checked_numeral (by simp only [baseUnitHz]; omega)
      (by simp only [baseUnitHz, baseMaxUnits]; simp; omega),
    checked_numeral (by simp only [spacingUnitHz]; omega)
      (by simp only [spacingUnitHz, spacingMaxUnits]; simp; omega)]
  rfl

theorem parseTypeAndBw_rowCells (hcols : WrittenCols cols) (hfits : Fits row.isTdma row.entry) :
    parseTypeAndBw (rowCells row) cols = .ok (row.entry.chanType.toNat, row.entry.bwVu) := by
  have htype : (row.entry.chanType &&& 0xF).toNat = row.entry.chanType.toNat := by
    have hand := Nat.and_two_pow_sub_one_eq_mod row.entry.chanType.toNat 4
    have hle := hfits.type
    rw [BitVec.toNat_and]
    exact hand.trans (Nat.mod_eq_of_lt (by omega))
  have hplain : ∀ n, Plain (numeral 10 n) := plain_numeral (by omega) (by omega)
  have hcell3 : (rowCells row)[3]? = some (numeral 10 row.entry.chanType.toNat) := by
    rw [← htype]
    rfl
  have hcell5 : (rowCells row)[5]? = some (numeral 10 (bwHzFromCode row.entry.bwVu)) := rfl
  have hbw : (parseDecU64Strict (numeral 10 (bwHzFromCode row.entry.bwVu))).bind
      (fun hz => bwCodeFromHz hz.toNat) = some row.entry.bwVu := by
    rcases hfits.bandwidth with h | h | h <;>
      rw [h, bwHzFromCode, parseDecU64Strict_numeral (by decide)] <;> decide
  rw [parseTypeAndBw, hcols.type, hcols.bw, cell_eq hcell3 (hplain _), cell_eq hcell5 (hplain _),
    typeOfCell, if_neg (numeral_ne_nil _ _),
    checked_numeral (by have := hfits.type; omega) (by simpa using hfits.type),
    bwOfCell, if_neg (numeral_ne_nil _ _), hbw]
  rfl

theorem offsetInUnits_mul {offset unit most : ℤ} (hunit : 0 < unit)
    (h : -most ≤ offset ∧ offset ≤ most) (why : String) :
    offsetInUnits (offset * unit) unit most why = .ok offset := by
  have hdiv : (offset * unit).tdiv unit = offset := Int.mul_tdiv_cancel _ (by omega)
  have hmod : (offset * unit).tmod unit = 0 := Int.mul_tmod_left _ _
  have hin : ¬((offset * unit).tmod unit ≠ 0 ∨ most < offset ∨ offset < -most) := by
    rw [hmod]
    omega
  rw [offsetInUnits, hdiv, if_neg hin]

theorem parseOffset_rowCells (hcols : WrittenCols cols) {spacing : ℕ}
    (hspacing : row.entry.chanSpac = spacing) (hfits : Fits row.isTdma row.entry) :
    parseOffset (rowCells row) cols (spacing * spacingUnitHz : ℕ)
      (row.entry.bwVu ≠ 0 || row.isTdma) = .ok row.entry.transOff := by
  have hs := hfits.spacing
  have hoffset := hfits.offset
  rw [hspacing] at hs
  simp only [spacingMaxUnits] at hs
  rw [offsetMost] at hoffset
  have hplain : ∀ i, Plain (signedDecimal i) := plain_signedDecimal
  have hne : ∀ i, signedDecimal i ≠ [] := by
    intro i
    rw [signedDecimal]
    split
    · simp
    · exact numeral_ne_nil _ _
  rw [parseOffset, hcols.offset]
  split
  · rename_i hunits
    rw [if_pos hunits, vuOffsetMaxUnits] at hoffset
    have hcell4 : (rowCells row)[4]? =
        some (signedDecimal (row.entry.transOff * (spacing * spacingUnitHz : ℕ))) := by
      simp only [rowCells, if_pos hunits, hspacing, ← Nat.cast_mul]
      rfl
    have hbounds : -(8191 * (1023 * 125)) ≤ row.entry.transOff * (spacing * spacingUnitHz : ℕ) ∧
        row.entry.transOff * (spacing * spacingUnitHz : ℕ) ≤ 8191 * (1023 * 125) := by
      simp only [spacingUnitHz]
      push_cast at hs ⊢
      constructor <;> nlinarith
    rw [cell_eq hcell4 (hplain _), offsetOfCell, if_neg (hne _),
      parseDecLongStrict_signedDecimal (by omega) (by omega)]
    exact offsetInUnits_mul (by simp only [spacingUnitHz]; omega) hoffset _
  · rename_i hunits
    rw [if_neg hunits, stdOffsetMaxUnits] at hoffset
    have hcell4 : (rowCells row)[4]? =
      some (signedDecimal (row.entry.transOff * stdOffsetUnitHz)) := by
      simp only [rowCells, if_neg hunits]
      rfl
    rw [cell_eq hcell4 (hplain _), offsetOfCell, if_neg (hne _), stdOffsetUnitHz,
      parseDecLongStrict_signedDecimal (by omega) (by omega)]
    exact offsetInUnits_mul (by omega) hoffset _

theorem checked_zeroPadded {n width : ℕ} {ok : ℕ → Bool} {why : String} (hn : n < 2 ^ 64)
    (hwidth : width ≤ 16) (h : ok n = true) :
    checked (parseHexU64Strict (zeroPadded width (numeral 16 n))) ok why = .ok n := by
  rw [parseHexU64Strict_zeroPadded hn hwidth]
  exact checked_ofNat hn h

theorem parseSystem_rowCells (hcols : WrittenCols cols) (hfits : Fits row.isTdma row.entry) :
    parseSystem (rowCells row) cols = .ok (row.entry.wacn, row.entry.sysid) := by
  have hwacnCell : cell (rowCells row) (some 6) = systemCell row.entry 5 row.entry.wacn :=
    cell_eq rfl (plain_systemCell row.entry 5 _)
  have hsysidCell : cell (rowCells row) (some 7) = systemCell row.entry 3 row.entry.sysid :=
    cell_eq rfl (plain_systemCell row.entry 3 _)
  rw [parseSystem, hcols.wacn, hcols.sysid, hwacnCell, hsysidCell]
  by_cases hsystem : row.entry.wacn ≠ 0 ∨ row.entry.sysid ≠ 0
  · have hne : ∀ width n, zeroPadded width (numeral 16 n) ≠ [] := by
      intro width n h
      rw [zeroPadded] at h
      exact numeral_ne_nil 16 n (append_eq_nil_iff.mp h).2
    simp only [systemCell, if_pos hsystem, hne, ne_eq, not_false_eq_true, and_false, false_and,
      or_self, if_false]
    rw [checked_zeroPadded row.entry.wacn.isLt (by omega) (by simpa using hfits.wacn),
      checked_zeroPadded row.entry.sysid.isLt (by omega) (by simpa using hfits.sysid)]
    simp [bind, Except.bind, pure, Except.pure]
  · have hzero : row.entry.wacn = 0 ∧ row.entry.sysid = 0 := by
      simpa only [not_or, not_not] using hsystem
    simp only [systemCell, ne_eq, not_true_eq_false, false_and, and_false, or_self,
      if_false, if_true, hzero.1, hzero.2]

end Row

variable {e : IdenEntry}

theorem fits_rowOf {iden : Fin 16} :
    Fits (rowOf iden isTdma e).isTdma (rowOf iden isTdma e).entry ↔ Fits isTdma e :=
  ⟨fun h => ⟨h.1, h.2, h.3, h.4, h.5, h.6, h.7, h.8⟩,
    fun h => ⟨h.1, h.2, h.3, h.4, h.5, h.6, h.7, h.8⟩⟩

/-- A collected row whose entry fits reads back as itself. -/
theorem parseRowFields_rowCells (hcols : WrittenCols cols) {iden : Fin 16} (h : Fits isTdma e) :
    parseRowFields (rowCells (rowOf iden isTdma e)) cols = .ok (rowOf iden isTdma e) := by
  have hfits : Fits (rowOf iden isTdma e).isTdma (rowOf iden isTdma e).entry := fits_rowOf.mpr h
  have hiden : (rowOf iden isTdma e).iden.toNat < 16 := by
    simp only [rowOf, BitVec.toNat_ofNat]
    omega
  have hbase : e.baseFreq = e.baseFreq.toNat := (Int.toNat_of_nonneg h.base.1.le).symm
  have hspacing : e.chanSpac = e.chanSpac.toNat := (Int.toNat_of_nonneg h.spacing.1.le).symm
  have htdma : decide (2 < e.chanType.toNat % 16) = isTdma := by
    have htype := h.type
    rw [Nat.mod_eq_of_lt (by omega)]
    exact h.table.symm
  have hbaseUnit : e.baseFreq.toNat * baseUnitHz / baseUnitHz = e.baseFreq.toNat :=
    Nat.mul_div_cancel _ (by decide)
  have hspacingUnit : e.chanSpac.toNat * spacingUnitHz / spacingUnitHz = e.chanSpac.toNat :=
    Nat.mul_div_cancel _ (by decide)
  have hoffset : parseOffset (rowCells (rowOf iden isTdma e)) cols
      (e.chanSpac.toNat * spacingUnitHz : ℕ)
      (e.bwVu ≠ 0 || decide (2 < e.chanType.toNat % 16)) = .ok e.transOff := by
    rw [htdma]
    exact parseOffset_rowCells hcols hspacing hfits
  rw [parseRowFields]
  apply bind_of_ok (parseRequired_rowCells hiden hbase hspacing hfits)
  apply bind_of_ok (parseTypeAndBw_rowCells hcols hfits)
  apply bind_of_ok hoffset
  apply bind_of_ok (parseSystem_rowCells hcols hfits)
  have hplace : BitVec.ofNat 8 (rowOf iden isTdma e).iden.toNat = BitVec.ofNat 8 iden := by
    rw [BitVec.ofNat_toNat, BitVec.setWidth_eq]
    rfl
  simp only [hbaseUnit, hspacingUnit, ← hbase, ← hspacing, hplace, BitVec.ofNat_toNat,
    BitVec.setWidth_eq]
  exact congrArg (fun b =>
    Except.ok (⟨BitVec.ofNat 8 iden, b, (rowOf iden isTdma e).entry⟩ : BandplanRow))
    htdma

/-- The rows of one table. -/
def tableRows (table : Fin 16 → IdenEntry) (isTdma : Bool) : List BandplanRow :=
  ((List.finRange 16).filter fun iden => !skipped (table iden)).map fun iden =>
    rowOf iden isTdma (table iden)

theorem sameKey_rowOf_of_iden_ne {iden iden' : Fin 16} (h : iden ≠ iden') (isTdma : Bool)
    (e e' : IdenEntry) : sameKey (rowOf iden isTdma e) (rowOf iden' isTdma e') = false := by
  have hne : BitVec.ofNat 8 iden.val ≠ BitVec.ofNat 8 iden'.val := by
    intro heq
    have hval := congrArg BitVec.toNat heq
    simp only [BitVec.toNat_ofNat] at hval
    omega
  simp [sameKey, rowOf, hne]

theorem sameKey_rowOf_of_table_ne (iden iden' : Fin 16) (e e' : IdenEntry) :
    sameKey (rowOf iden false e) (rowOf iden' true e') = false := by
  simp [sameKey, rowOf]

/-- Rows that no two have one key of. -/
def Distinct (rows : List BandplanRow) : Prop := rows.Pairwise fun a b => sameKey a b = false

theorem length_tableRows_le (table : Fin 16 → IdenEntry) (isTdma : Bool) :
    (tableRows table isTdma).length ≤ 16 := by
  rw [tableRows, length_map]
  exact (length_filter_le _ _).trans (by simp)

theorem distinct_tableRows (table : Fin 16 → IdenEntry) (isTdma : Bool) :
    Distinct (tableRows table isTdma) := by
  rw [Distinct, tableRows, pairwise_map]
  exact ((nodup_finRange 16).filter _).imp fun hne =>
    sameKey_rowOf_of_iden_ne hne isTdma _ _

/-- With room for all of them and no row of their keys there, the entries of a table are appended
one after another. -/
theorem foldl_appendEntry {cap : ℕ} {table : Fin 16 → IdenEntry} {isTdma : Bool}
    (idens : List (Fin 16)) (hnodup : idens.Nodup) :
    ∀ rows : List BandplanRow, rows.length + idens.length ≤ cap →
      (∀ row ∈ rows, ∀ iden ∈ idens, sameKey row (rowOf iden isTdma (table iden)) = false) →
      idens.foldl (appendEntry cap table isTdma) rows =
        rows ++ (idens.filter fun iden => !skipped (table iden)).map fun iden =>
          rowOf iden isTdma (table iden) := by
  induction idens with
  | nil => simp
  | cons iden idens ih =>
    intro rows hroom hkeys
    obtain ⟨hnot, hnodup⟩ := nodup_cons.mp hnodup
    rw [length_cons] at hroom
    have hfull : ¬cap ≤ rows.length := by omega
    have habsent : ¬rows.any (sameKey · (rowOf iden isTdma (table iden))) = true := by
      simpa using fun row hrow => hkeys row hrow iden (by simp)
    rw [foldl_cons, appendEntry, if_neg hfull, if_neg habsent]
    by_cases hskip : skipped (table iden) = true
    · rw [if_pos hskip, ih hnodup rows (by omega) fun row hrow iden' h' =>
        hkeys row hrow iden' (by simp [h'])]
      simp [hskip]
    · rw [if_neg hskip, ih hnodup _ (by simp; omega)]
      · simp [hskip]
      · intro row hrow iden' h'
        rcases mem_append.mp hrow with hrow | hrow
        · exact hkeys row hrow iden' (by simp [h'])
        · rw [mem_singleton.mp hrow]
          have hne : iden ≠ iden' := by
            rintro rfl
            exact hnot h'
          exact sameKey_rowOf_of_iden_ne hne isTdma _ _

theorem appendTables_nil (fdma tdma : Fin 16 → IdenEntry) :
    appendTables [] bandplanMaxRows fdma tdma = tableRows fdma false ++ tableRows tdma true := by
  have hfdma := @foldl_appendEntry bandplanMaxRows fdma false
    (List.finRange 16) (nodup_finRange 16) [] (by simp [bandplanMaxRows]) (by simp)
  have hlen := length_tableRows_le fdma false
  have htdma := @foldl_appendEntry bandplanMaxRows tdma true
    (List.finRange 16) (nodup_finRange 16) (tableRows fdma false)
    (by simp [bandplanMaxRows]; omega)
    (by
      intro row hrow iden _
      obtain ⟨iden', -, rfl⟩ := mem_map.mp hrow
      exact sameKey_rowOf_of_table_ne iden' iden _ _)
  rw [appendTables, if_neg (by simp [bandplanMaxRows]), appendTable, appendTable, hfdma, nil_append]
  exact htdma

theorem distinct_tables (fdma tdma : Fin 16 → IdenEntry) :
    Distinct (tableRows fdma false ++ tableRows tdma true) := by
  rw [Distinct, pairwise_append]
  refine ⟨distinct_tableRows fdma false, distinct_tableRows tdma true, ?_⟩
  intro row hrow row' hrow'
  obtain ⟨iden, -, rfl⟩ := mem_map.mp hrow
  obtain ⟨iden', -, rfl⟩ := mem_map.mp hrow'
  exact sameKey_rowOf_of_table_ne iden iden' _ _

theorem length_signedDecimal_le {i : ℤ} {k : ℕ} (hk : 0 < k) (h : i.natAbs < 10 ^ k) :
    (signedDecimal i).length ≤ k + 1 := by
  have hnumeral := length_numeral_le (b := 10) (by omega) hk h
  rw [signedDecimal]
  split
  · rw [length_cons]
    omega
  · omega

theorem length_systemCell_le {width : ℕ} {part : BitVec 64} (hwidth : width ≤ 20)
    (h : part.toNat < 16 ^ 20) : (systemCell e width part).length ≤ 20 := by
  have hnumeral := length_numeral_le (b := 16) (by omega) (by omega) h
  rw [systemCell]
  split
  · rw [zeroPadded, length_append, length_replicate]
    omega
  · simp

theorem length_joined_rowCells_lt (h : Fits row.isTdma row.entry) :
    (joined (rowCells row)).length < bsize := by
  obtain ⟨hbase, hspacing, htype, -, hbw, hoffset, -, -⟩ := h
  have hmost : offsetMost row.entry.bwVu row.isTdma ≤ 8191 := by
    rw [offsetMost]
    split <;> decide
  have hcells : ∀ c ∈ rowCells row, c.length ≤ 20 := by
    intro c hc
    simp only [rowCells, mem_cons, not_mem_nil, or_false] at hc
    simp only [baseUnitHz, spacingUnitHz, stdOffsetUnitHz, baseMaxUnits, spacingMaxUnits] at *
    rcases hc with rfl | rfl | rfl | rfl | rfl | rfl | rfl | rfl
    · exact length_numeral_le (by omega) (by omega) (lt_of_lt_of_le (BitVec.isLt _) (by norm_num))
    · exact (length_signedDecimal_le (k := 11) (by omega) (by omega)).trans (by omega)
    · exact (length_signedDecimal_le (k := 6) (by omega) (by omega)).trans (by omega)
    · exact length_numeral_le (by omega) (by omega) (lt_of_lt_of_le (BitVec.isLt _) (by norm_num))
    · have hbounds : ∀ unit : ℤ, 0 ≤ unit → unit ≤ 250000 →
          (signedDecimal (row.entry.transOff * unit)).length ≤ 20 := by
        intro unit hunit hunit'
        have hlow : -(8191 * 250000) ≤ row.entry.transOff * unit := by nlinarith
        have hhigh : row.entry.transOff * unit ≤ 8191 * 250000 := by nlinarith
        exact (length_signedDecimal_le (k := 10) (by omega) (by omega)).trans (by omega)
      apply hbounds
      · split <;> omega
      · split <;> omega
    · have hhz : bwHzFromCode row.entry.bwVu < 10 ^ 20 := by
        rcases hbw with h | h | h <;> rw [h] <;> decide
      exact length_numeral_le (by omega) (by omega) hhz
    · exact length_systemCell_le (by omega) (lt_of_lt_of_le (BitVec.isLt _) (by norm_num))
    · exact length_systemCell_le (by omega) (lt_of_lt_of_le (BitVec.isLt _) (by norm_num))
  exact lt_of_le_of_lt (length_joined_le hcells) (by simp [rowCells, bsize])

/-- Rows that read back and are of a length to be read. -/
def ReadsBack (row : BandplanRow) : Prop :=
  (joined (rowCells row)).length < bsize ∧
    ∀ cols, WrittenCols cols → parseRowFields (rowCells row) cols = .ok row

theorem Parsed.line_rowCells {p : Parsed} (hcols : WrittenCols cols) (h : ReadsBack row)
    (hroom : p.rows.length < bandplanMaxRows) (hkey : ∀ row' ∈ p.rows, sameKey row' row = false) :
    p.line cols (readLine (joined (rowCells row)) true) =
      ⟨p.rows ++ [row], p.total + 1, p.accepted + 1⟩ := by
  have hplain := plain_rowCells row
  have hblank : lineIsBlank (joined (rowCells row)) = false := by
    have hcomma : isSpace comma = false := by decide
    simp [lineIsBlank, rowCells, joined_cons_cons, hcomma]
  have hfields : splitPreserveEmpty (joined (rowCells row)) maxFields = rowCells row :=
    splitPreserveEmpty_joined hplain (by simp [rowCells]) (by simp [rowCells, maxFields])
  have hfind : p.rows.findIdx? (sameKey · row) = none := by
    simpa using hkey
  have hfull : ¬bandplanMaxRows ≤ p.rows.length := by omega
  simp [Parsed.line, readLine_joined hplain h.1, trimEol_joined hplain, hblank, hfields,
    h.2 cols hcols,
    Parsed.keep, hfind, hfull]

theorem foldl_line (hcols : WrittenCols cols) (rows : List BandplanRow) :
    ∀ p : Parsed, (∀ row ∈ rows, ReadsBack row) → Distinct (p.rows ++ rows) →
      p.rows.length + rows.length ≤ bandplanMaxRows →
      (rows.map fun row => readLine (joined (rowCells row)) true).foldl (Parsed.line cols) p =
        ⟨p.rows ++ rows, p.total + rows.length, p.accepted + rows.length⟩ := by
  induction rows with
  | nil => simp
  | cons row rows ih =>
    intro p hback hdistinct hroom
    rw [length_cons] at hroom
    have hkey : ∀ row' ∈ p.rows, sameKey row' row = false := fun row' hrow' =>
      (pairwise_append.mp hdistinct).2.2 row' hrow' row (by simp)
    rw [map_cons, foldl_cons, Parsed.line_rowCells hcols (hback row (by simp)) (by omega) hkey,
      ih _ (fun row' hrow' => hback row' (by simp [hrow'])) (by simpa using hdistinct)
        (by simp; omega)]
    simp only [append_assoc, singleton_append, length_cons, Parsed.mk.injEq, true_and]
    exact ⟨by omega, by omega⟩

theorem readLines_writeRows (rows : List BandplanRow) :
    readLines (writeRows rows) =
      (headerCells :: rows.map rowCells).map fun cells => readLine (joined cells) true := by
  have hlines : ∀ lines : List (List Bytes), (∀ cells ∈ lines, ∀ c ∈ cells, Plain c) →
      rawLines (lines.map fun cells => joined cells ++ [lf]).flatten =
        lines.map fun cells => (joined cells, true) := by
    intro lines
    induction lines with
    | nil => exact fun _ => rfl
    | cons cells lines ih =>
      intro hplain
      have hlf : lf ∉ joined cells := fun hmem =>
        (joined_bytes (hplain cells (by simp)) lf hmem).1 rfl
      rw [map_cons, flatten_cons, append_assoc, singleton_append,
        rawLines_append hlf, ih fun cells' h' => hplain cells' (by simp [h'])]
      rfl
  have hplain : ∀ cells ∈ headerCells :: rows.map rowCells, ∀ c ∈ cells, Plain c := by
    intro cells hcells
    rcases mem_cons.mp hcells with rfl | hcells
    · exact plain_headerCells
    · obtain ⟨row, -, rfl⟩ := mem_map.mp hcells
      exact plain_rowCells row
  rw [readLines, writeRows, hlines _ hplain, map_map]
  rfl

theorem parseFile_writeRows {rows : List BandplanRow} (hback : ∀ row ∈ rows, ReadsBack row)
    (hdistinct : Distinct rows) (hroom : rows.length ≤ bandplanMaxRows) :
    parseFile (writeRows rows) = ⟨rows, rows.length, rows.length⟩ := by
  have hlen : (joined headerCells).length < bsize := headerCells_checked.2
  have hlines := foldl_line writtenCols_parseHeader rows ⟨[], 0, 0⟩ hback hdistinct
    (by simpa using hroom)
  rw [parseFile, readLines_writeRows, map_cons, readLine_joined plain_headerCells hlen]
  simp only [trimEol_joined plain_headerCells, map_map, Function.comp_def]
  simpa using hlines

/-- The entries of a table that are exported are ones a row can say. -/
def TableFits (table : Fin 16 → IdenEntry) (isTdma : Bool) : Prop :=
  ∀ iden, skipped (table iden) = false → Fits isTdma (table iden)

theorem readsBack_of_mem_tableRows {table : Fin 16 → IdenEntry} (h : TableFits table isTdma)
    (hrow : row ∈ tableRows table isTdma) : ReadsBack row := by
  obtain ⟨iden, hiden, rfl⟩ := mem_map.mp hrow
  have hfits : Fits isTdma (table iden) := h iden (by simpa using (mem_filter.mp hiden).2)
  exact ⟨length_joined_rowCells_lt (fits_rowOf.mpr hfits), fun cols hcols =>
    parseRowFields_rowCells hcols hfits⟩

theorem tableFits_of_forall_mem {table : Fin 16 → IdenEntry}
    (h : ∀ row ∈ tableRows table isTdma, Fits row.isTdma row.entry) : TableFits table isTdma := by
  intro iden hiden
  have hfits := h (rowOf iden isTdma (table iden))
    (mem_map.mpr ⟨iden, mem_filter.mpr ⟨mem_finRange iden, by simp [hiden]⟩, rfl⟩)
  exact fits_rowOf.mp hfits

/-- The rows of every pair of tables come back from the file exported of them, in their order and
none refused, exactly where every exported entry is one a row of a file can say. -/
theorem export_import_iff (fdma tdma : Fin 16 → IdenEntry) :
    (∀ file, exportRows (appendTables [] bandplanMaxRows fdma tdma) = some file →
      parseFile file = ⟨appendTables [] bandplanMaxRows fdma tdma,
        (appendTables [] bandplanMaxRows fdma tdma).length,
        (appendTables [] bandplanMaxRows fdma tdma).length⟩) ↔
    TableFits fdma false ∧ TableFits tdma true := by
  rw [appendTables_nil]
  constructor
  · intro h
    have hall : ∀ row ∈ tableRows fdma false ++ tableRows tdma true, Fits row.isTdma row.entry := by
      by_cases hempty : tableRows fdma false ++ tableRows tdma true = []
      · simp [hempty]
      · have hparsed := allFit_parseFile (writeRows (tableRows fdma false ++ tableRows tdma true))
        rw [Parsed.AllFit, h _ (by rw [exportRows, if_neg hempty])] at hparsed
        exact hparsed
    exact ⟨tableFits_of_forall_mem fun row hrow => hall row (mem_append_left _ hrow),
      tableFits_of_forall_mem fun row hrow => hall row (mem_append_right _ hrow)⟩
  · intro h file hfile
    rw [exportRows] at hfile
    split at hfile
    · cases hfile
    · cases hfile
      apply parseFile_writeRows
      · intro row hrow
        rcases mem_append.mp hrow with hrow | hrow
        · exact readsBack_of_mem_tableRows h.1 hrow
        · exact readsBack_of_mem_tableRows h.2 hrow
      · exact distinct_tables fdma tdma
      · have hfdma := length_tableRows_le fdma false
        have htdma := length_tableRows_le tdma true
        rw [length_append, bandplanMaxRows]
        omega

/-- An entry as `IDEN_UP_VU` gives it, with a bandwidth code a file cannot say. -/
def oddBandwidth : IdenEntry := ⟨170201250, 1, 100, -360, 7, 2, true, 0, 0, 0, 0⟩

/-- The FDMA table with that entry at identifier zero only. -/
def oddTable : Fin 16 → IdenEntry := Function.update (fun _ => .empty) 0 oddBandwidth

/-- Its row comes back without its bandwidth, and with its offset in another unit. -/
theorem oddTable_not_reimported :
    ∃ file, exportRows (appendTables [] bandplanMaxRows oddTable fun _ => .empty) = some file ∧
      parseFile file =
        ⟨[rowOf 0 false { oddBandwidth with bwVu := 0, transOff := -18 }], 1, 1⟩ ∧
      parseFile file ≠ ⟨appendTables [] bandplanMaxRows oddTable fun _ => .empty, 1, 1⟩ :=
  ⟨writeRows (appendTables [] bandplanMaxRows oddTable fun _ => .empty), by decide,
    by decide, by decide⟩

end DsdNeo.P25.Bandplan
