import DsdNeo.Models.Import.CsvText
import DsdNeo.Models.P25.Frequency

/-!
# Band-plan files

`p25_bandplan_csv.c`: one row an identifier, in plain Hz, read into the units of the tables and
written from them. Whether a row is of the FDMA or the TDMA table, and the unit of its transmit
offset, are worked out from its channel type and its bandwidth.
-/

namespace DsdNeo.P25.Bandplan

open Text Csv Frequency

/-- `BP_MAX_FIELDS`. -/
def maxFields : ℕ := 16

/-- `BP_BASE_UNIT_HZ`. -/
def baseUnitHz : ℕ := 5

/-- `BP_BASE_MAX_UNITS`. -/
def baseMaxUnits : ℕ := 0xFFFFFFFF

/-- `BP_SPACING_UNIT_HZ`. -/
def spacingUnitHz : ℕ := 125

/-- `BP_SPACING_MAX_UNITS`. -/
def spacingMaxUnits : ℕ := 1023

/-- `BP_STD_OFFSET_UNIT_HZ`. -/
def stdOffsetUnitHz : ℤ := 250000

/-- `BP_STD_OFFSET_MAX_UNITS`. -/
def stdOffsetMaxUnits : ℤ := 255

/-- `BP_VU_OFFSET_MAX_UNITS`. -/
def vuOffsetMaxUnits : ℤ := 8191

/-- `BP_WACN_MAX`. -/
def wacnMax : ℕ := 0xFFFFF

/-- `BP_SYSID_MAX`. -/
def sysidMax : ℕ := 0xFFF

/-- The columns found by their names. -/
inductive Column where
  | type
  | offset
  | bw
  | wacn
  | sysid
deriving DecidableEq

/-- The name of a column. -/
def Column.name : Column → Bytes
  | .type => ascii "type"
  | .offset => ascii "tx_offset_hz"
  | .bw => ascii "bandwidth_hz"
  | .wacn => ascii "wacn"
  | .sysid => ascii "sysid"

/-- The table of `bp_parse_header`. -/
def columns : List Column := [.type, .offset, .bw, .wacn, .sysid]

/-- `bp_header_cols`. -/
abbrev HeaderCols := Column → Option ℕ

/-- `bp_header_default`. -/
def headerDefault : HeaderCols
  | .type => some 3
  | .offset => some 4
  | .bw => some 5
  | .wacn => none
  | .sysid => none

/-- The positional columns of `bp_release_claimed_positional`. -/
def positional : List (Column × ℕ) := [(.type, 3), (.offset, 4), (.bw, 5)]

/-- `bp_release_claimed_positional`. -/
def releaseClaimedPositional (cols : HeaderCols) (named : Column → Bool) : HeaderCols :=
  positional.foldl
    (fun cols p =>
      if named p.1 = false ∧ (cols .wacn = some p.2 ∨ cols .sysid = some p.2) then
        Function.update cols p.1 none
      else cols)
    cols

/-- One field of the header, at an index. -/
def headerField (s : HeaderCols × (Column → Bool)) (field : Bytes × ℕ) :
    HeaderCols × (Column → Bool) :=
  match columns.find? fun c => sameIgnoringCase (trimWs field.1) c.name with
  | some c => (Function.update s.1 c (some field.2), Function.update s.2 c true)
  | none => s

/-- `bp_parse_header`. -/
def parseHeader (line : Bytes) : HeaderCols :=
  let fields := (splitPreserveEmpty line maxFields).zipIdx.drop 3
  let (cols, named) := fields.foldl headerField (headerDefault, fun _ => false)
  releaseClaimedPositional cols named

/-- `bp_cell`. -/
def cell (fields : List Bytes) : Option ℕ → Bytes
  | none => []
  | some idx => (fields[idx]?).elim [] trimWs

/-- `bp_bw_code_from_hz`. -/
def bwCodeFromHz (hz : ℕ) : Option (BitVec 8) :=
  if hz = 0 then some 0 else if hz = 6250 then some 4 else if hz = 12500 then some 5 else none

/-- The number of a cell, where it is one that meets a test. -/
def checked (value : Option (BitVec 64)) (ok : ℕ → Bool) (why : String) : Except String ℕ :=
  match value with
  | some v => if ok v.toNat then .ok v.toNat else .error why
  | none => .error why

/-- `bp_parse_required`: the identifier, the base and the spacing in Hz. -/
def parseRequired (fields : List Bytes) : Except String (ℕ × ℕ × ℕ) :=
  if fields.length < 3 then .error "expected at least iden,base_hz,spacing_hz"
  else do
    let iden ← checked (parseDecU64Strict (cell fields (some 0))) (fun v => v ≤ 15)
      "iden must be 0-15"
    let base ← checked (parseDecU64Strict (cell fields (some 1)))
      (fun v => v ≠ 0 && v % baseUnitHz = 0 && v / baseUnitHz ≤ baseMaxUnits)
      "base_hz must be a multiple of 5 Hz below 21474836475"
    let spacing ← checked (parseDecU64Strict (cell fields (some 2)))
      (fun v => v ≠ 0 && v % spacingUnitHz = 0 && v / spacingUnitHz ≤ spacingMaxUnits)
      "spacing_hz must be a multiple of 125 Hz up to 127875"
    return (iden, base, spacing)

/-- The channel type of its cell, which may be empty. -/
def typeOfCell (text : Bytes) : Except String ℕ :=
  if text = [] then .ok 1
  else
    checked (parseDecU64Strict text) (fun v => v ≤ 15)
      "type must be 0-15 (1 FDMA, 3 two-slot TDMA, 4 four-slot)"

/-- The bandwidth code of its cell, which may be empty. -/
def bwOfCell (text : Bytes) : Except String (BitVec 8) :=
  if text = [] then .ok 0
  else
    match (parseDecU64Strict text).bind fun hz => bwCodeFromHz hz.toNat with
    | some code => .ok code
    | none => .error "bandwidth_hz must be empty, 0, 6250 or 12500"

/-- `bp_parse_type_and_bw`: the channel type and the bandwidth code. -/
def parseTypeAndBw (fields : List Bytes) (cols : HeaderCols) : Except String (ℕ × BitVec 8) := do
  let type ← typeOfCell (cell fields (cols .type))
  let bwVu ← bwOfCell (cell fields (cols .bw))
  return (type, bwVu)

/-- The offset in Hz of its cell, which may be empty. -/
def offsetOfCell (text : Bytes) : Except String ℤ :=
  if text = [] then .ok 0
  else
    match parseDecLongStrict text with
    | some v => .ok v
    | none => .error "tx_offset_hz must be a signed decimal"

/-- An offset in Hz in units of another, where there are no more than so many. -/
def offsetInUnits (offsetHz unit most : ℤ) (why : String) : Except String ℤ :=
  if offsetHz.tmod unit ≠ 0 ∨ most < offsetHz.tdiv unit ∨ offsetHz.tdiv unit < -most then .error why
  else .ok (offsetHz.tdiv unit)

/-- `bp_parse_offset`. -/
def parseOffset (fields : List Bytes) (cols : HeaderCols) (spacingHz : ℤ) (spacingUnits : Bool) :
    Except String ℤ := do
  let offsetHz ← offsetOfCell (cell fields (cols .offset))
  if spacingUnits then
    offsetInUnits offsetHz spacingHz vuOffsetMaxUnits
      "tx_offset_hz must be a multiple of spacing_hz (VHF/UHF or TDMA row) within 8191 steps"
  else
    offsetInUnits offsetHz stdOffsetUnitHz stdOffsetMaxUnits
      "tx_offset_hz must be a multiple of 250000 Hz within 255 steps"

/-- `bp_parse_system`. -/
def parseSystem (fields : List Bytes) (cols : HeaderCols) : Except String (BitVec 64 × BitVec 64) :=
  let wacnText := cell fields (cols .wacn)
  let sysidText := cell fields (cols .sysid)
  if (wacnText ≠ [] ∧ sysidText = []) ∨ (wacnText = [] ∧ sysidText ≠ []) then
    .error "wacn and sysid must be given together"
  else if wacnText = [] then .ok (0, 0)
  else do
    let wacn ← checked (parseHexU64Strict wacnText) (fun v => v ≤ wacnMax)
      "wacn must be hex 00000-FFFFF"
    let sysid ← checked (parseHexU64Strict sysidText) (fun v => v ≤ sysidMax)
      "sysid must be hex 000-FFF"
    return (BitVec.ofNat 64 wacn, BitVec.ofNat 64 sysid)

/-- `bp_parse_row_fields`. -/
def parseRowFields (fields : List Bytes) (cols : HeaderCols) : Except String BandplanRow := do
  let (iden, baseHz, spacingHz) ← parseRequired fields
  let (type, bwVu) ← parseTypeAndBw fields cols
  let isTdma : Bool := 2 < type % 16
  let transOff ← parseOffset fields cols spacingHz (bwVu ≠ 0 || isTdma)
  let (wacn, sysid) ← parseSystem fields cols
  return {
    iden := BitVec.ofNat 8 iden
    isTdma := isTdma
    entry := {
      baseFreq := (baseHz / baseUnitHz : ℕ)
      chanType := BitVec.ofNat 32 type
      chanSpac := (spacingHz / spacingUnitHz : ℕ)
      transOff := transOff
      bwVu := bwVu
      trust := 1
      populated := true
      wacn := wacn
      sysid := sysid
      rfss := 0
      site := 0 } }

/-- Two rows for one identifier of one system. -/
def sameKey (a b : BandplanRow) : Bool :=
  a.iden = b.iden && a.isTdma = b.isTdma && a.entry.wacn = b.entry.wacn
    && a.entry.sysid = b.entry.sysid

/-- The rows read so far, and how many data rows there were and were accepted. -/
structure Parsed where
  rows : List BandplanRow
  total : ℕ
  accepted : ℕ
deriving DecidableEq

/-- A row kept: in place of the row of its key, else as one more where there is room. -/
def Parsed.keep (p : Parsed) (row : BandplanRow) : Parsed :=
  match p.rows.findIdx? (sameKey · row) with
  | some existing => { p with rows := p.rows.set existing row, accepted := p.accepted + 1 }
  | none =>
    if bandplanMaxRows ≤ p.rows.length then p
    else { p with rows := p.rows ++ [row], accepted := p.accepted + 1 }

/-- One data line of `csv_p25_bandplan_parse_file`. -/
def Parsed.line (cols : HeaderCols) (p : Parsed) (line : Line) : Parsed :=
  let buffer := trimEol line.buffer
  if line.overlong then { p with total := p.total + 1 }
  else if lineIsBlank buffer then p
  else
    let p := { p with total := p.total + 1 }
    match parseRowFields (splitPreserveEmpty buffer maxFields) cols with
    | .ok row => p.keep row
    | .error _ => p

/-- `csv_p25_bandplan_parse_file`, of a file that can be read. -/
def parseFile (file : Bytes) : Parsed :=
  match readLines file with
  | [] => ⟨[], 0, 0⟩
  | header :: lines =>
    let cols := if header.overlong then headerDefault else parseHeader (trimEol header.buffer)
    lines.foldl (Parsed.line cols) ⟨[], 0, 0⟩

/-- `bp_bw_hz_from_code`. -/
def bwHzFromCode (code : BitVec 8) : ℕ := if code = 4 then 6250 else if code = 5 then 12500 else 0

/-- The names of the written columns. -/
def headerCells : List Bytes :=
  [ascii "iden", ascii "base_hz", ascii "spacing_hz", Column.type.name, Column.offset.name,
    Column.bw.name, Column.wacn.name, Column.sysid.name]

/-- The cell of a part of the system, empty where no system is named. -/
def systemCell (e : IdenEntry) (width : ℕ) (part : BitVec 64) : Bytes :=
  if e.wacn ≠ 0 ∨ e.sysid ≠ 0 then zeroPadded width (numeral 16 part.toNat) else []

/-- The cells of one row of `bp_write_rows`. -/
def rowCells (row : BandplanRow) : List Bytes :=
  let e := row.entry
  let baseHz := e.baseFreq * (baseUnitHz : ℤ)
  let spacingHz := e.chanSpac * (spacingUnitHz : ℤ)
  let offsetUnit := if e.bwVu ≠ 0 || row.isTdma then spacingHz else stdOffsetUnitHz
  [numeral 10 row.iden.toNat, signedDecimal baseHz, signedDecimal spacingHz,
    numeral 10 (e.chanType &&& 0xF).toNat, signedDecimal (e.transOff * offsetUnit),
    numeral 10 (bwHzFromCode e.bwVu), systemCell e 5 e.wacn, systemCell e 3 e.sysid]

/-- `bp_write_rows`. -/
def writeRows (rows : List BandplanRow) : Bytes :=
  ((headerCells :: rows.map rowCells).map fun cells => joined cells ++ [lf]).flatten

/-- `csvP25BandplanExportRows`: the file it writes, where there is a row to write. -/
def exportRows (rows : List BandplanRow) : Option Bytes :=
  if rows = [] then none else some (writeRows rows)

/-- The row `bandplan_append_table` makes of an entry. -/
def rowOf (iden : Fin 16) (isTdma : Bool) (e : IdenEntry) : BandplanRow :=
  ⟨BitVec.ofNat 8 iden, isTdma, { e with trust := 1, populated := true, rfss := 0, site := 0 }⟩

/-- An entry `bandplan_append_table` passes over. -/
def skipped (e : IdenEntry) : Bool := !e.populated || e.baseFreq = 0 || e.chanSpac = 0

/-- One turn of `bandplan_append_table`, with the check of `bandplan_rows_contain`. -/
def appendEntry (cap : ℕ) (table : Fin 16 → IdenEntry) (isTdma : Bool) (rows : List BandplanRow)
    (iden : Fin 16) : List BandplanRow :=
  if cap ≤ rows.length then rows
  else if skipped (table iden) then rows
  else if rows.any (sameKey · (rowOf iden isTdma (table iden))) then rows
  else rows ++ [rowOf iden isTdma (table iden)]

/-- `bandplan_append_table`. -/
def appendTable (cap : ℕ) (table : Fin 16 → IdenEntry) (isTdma : Bool) (rows : List BandplanRow) :
    List BandplanRow :=
  (List.finRange 16).foldl (appendEntry cap table isTdma) rows

/-- `dsd_p25_bandplan_append_tables`. -/
def appendTables (rows : List BandplanRow) (cap : ℕ) (fdma tdma : Fin 16 → IdenEntry) :
    List BandplanRow :=
  if cap = 0 ∨ cap < rows.length then rows
  else appendTable cap tdma true (appendTable cap fdma false rows)

end DsdNeo.P25.Bandplan
