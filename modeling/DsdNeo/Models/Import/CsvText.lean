import DsdNeo.Core.Bits.Sizes
import DsdNeo.Core.Text.Render
import Mathlib.Data.List.DropRight

/-!
# Lines and cells of a CSV file

`csv_parse_internal.h`: physical lines of at most so many bytes, their cells, and the strict
readers of numbers. A file is its bytes.
-/

namespace DsdNeo.Csv

open Text List

/-- `BSIZE`. -/
def bsize : ℕ := 999

/-- A line feed. -/
def lf : BitVec 8 := 0x0A

/-- A carriage return. -/
def cr : BitVec 8 := 0x0D

/-- The comma between two cells. -/
def comma : BitVec 8 := 0x2C

/-- The bytes of a text of the program. -/
def ascii (s : String) : Bytes := s.toList.map fun c => BitVec.ofNat 8 c.toNat

/-- The physical lines of a file, and whether a line feed ends each. -/
def rawLines : Bytes → List (Bytes × Bool)
  | [] => []
  | c :: t =>
    if c = lf then ([], true) :: rawLines t
    else
      match rawLines t with
      | [] => [([c], false)]
      | (line, ended) :: rest => (c :: line, ended) :: rest

/-- A line as it is left in the buffer, and whether it is not to be read. -/
structure Line where
  buffer : Bytes
  overlong : Bool
deriving DecidableEq

/-- `csv_read_line`, of one physical line. -/
def readLine (raw : Bytes) (ended : Bool) : Line :=
  let content := if ended ∧ raw.getLast? = some cr then raw.dropLast else raw
  ⟨content.take (bsize - 1), decide (bsize - 1 < content.length ∨ 0 ∈ raw)⟩

/-- The lines of a file, read one after another. -/
def readLines (file : Bytes) : List Line := (rawLines file).map fun l => readLine l.1 l.2

/-- `trim_eol`. -/
def trimEol (t : Bytes) : Bytes := t.rdropWhile fun c => c = lf || c = cr

/-- `csv_line_is_blank`. -/
def lineIsBlank (t : Bytes) : Bool := t.all isSpace

/-- `trim_ws`. -/
def trimWs (t : Bytes) : Bytes := (t.dropWhile isSpace).rdropWhile isSpace

/-- `csv_split_preserve_empty`. -/
def splitPreserveEmpty (t : Bytes) (maxFields : ℕ) : List Bytes := (t.splitOn comma).take maxFields

/-- `tolower` in the C locale. -/
def toLower (c : BitVec 8) : BitVec 8 := if 0x41 ≤ c ∧ c ≤ 0x5A then c + 0x20 else c

/-- `csv_ascii_casecmp` finds no difference. -/
def sameIgnoringCase (a b : Bytes) : Bool := a.map toLower = b.map toLower

/-- `parse_dec_u64_strict`. -/
def parseDecU64Strict (token : Bytes) : Option (BitVec 64) :=
  let token := skipSpace token
  if token = [] ∨ token.head? = some 0x2D ∨ token.head? = some 0x2B then none
  else
    match strtoull10 token with
    | some (v, rest) => if rest.all isSpace then some v else none
    | none => none

/-- `parse_dec_long_strict`. -/
def parseDecLongStrict (token : Bytes) : Option ℤ :=
  let token := skipSpace token
  if token = [] then none
  else
    match strtol10 token with
    | some (v, rest) => if rest.all isSpace then some v else none
    | none => none

/-- A hexadecimal token without the prefix it may have. -/
def dropHexPrefix : Bytes → Bytes
  | z :: c :: t => if z = 0x30 ∧ (c = 0x78 ∨ c = 0x58) then t else z :: c :: t
  | t => t

/-- `parse_hex_u64_strict`. -/
def parseHexU64Strict (token : Bytes) : Option (BitVec 64) :=
  let token := dropHexPrefix (skipSpace token)
  let digits := token.takeWhile fun c => !isSpace c
  if (token.drop digits.length).all isSpace then parseHexU64 digits else none

/-- A line up to its feed is the first one read. -/
theorem rawLines_append {line : Bytes} (h : lf ∉ line) (rest : Bytes) :
    rawLines (line ++ lf :: rest) = (line, true) :: rawLines rest := by
  induction line with
  | nil => simp [rawLines]
  | cons c line ih =>
    obtain ⟨hc, hline⟩ := not_or.mp (mt mem_cons.mpr h)
    rw [cons_append, rawLines, if_neg (Ne.symm hc), ih hline]

/-- Bytes a written cell has: no space, no comma and no zero byte. -/
def Plain (t : Bytes) : Prop := ∀ c ∈ t, isSpace c = false ∧ c ≠ comma ∧ c ≠ 0

instance (t : Bytes) : Decidable (Plain t) :=
  inferInstanceAs (Decidable (∀ c ∈ t, isSpace c = false ∧ c ≠ comma ∧ c ≠ 0))

theorem Plain.nil : Plain [] := by simp [Plain]

theorem Plain.append {t t' : Bytes} (h : Plain t) (h' : Plain t') : Plain (t ++ t') := by
  intro c hc
  rcases mem_append.mp hc with hc | hc
  · exact h c hc
  · exact h' c hc

/-- Plain text has nothing to trim. -/
theorem trimWs_plain {t : Bytes} (h : Plain t) : trimWs t = t := by
  have hleft : t.dropWhile isSpace = t := by
    cases t with
    | nil => rfl
    | cons c t => exact dropWhile_cons_of_neg (by simp [(h c mem_cons_self).1])
  rw [trimWs, hleft, rdropWhile_eq_self_iff]
  intro hne
  simp [(h _ (getLast_mem hne)).1]

/-- Digits are plain text. -/
theorem plain_digitChars {ds : List ℕ} (h : ∀ d ∈ ds, d < 16) : Plain (ds.map digitChar) := by
  have hall : ∀ d : Fin 16, isSpace (digitChar d) = false ∧ digitChar d ≠ comma ∧
    digitChar d ≠ 0 := by
    decide
  intro c hc
  obtain ⟨d, hd, rfl⟩ := mem_map.mp hc
  exact hall ⟨d, h d hd⟩

/-- A numeral is plain text. -/
theorem plain_numeral {b : ℕ} (hb : 1 < b) (hb' : b ≤ 16) (n : ℕ) : Plain (numeral b n) :=
  plain_digitChars fun _ hd => lt_of_lt_of_le (lt_of_mem_digitsOf hb hd) hb'

/-- A signed decimal is plain text. -/
theorem plain_signedDecimal (i : ℤ) : Plain (signedDecimal i) := by
  have hnumeral := plain_numeral (b := 10) (by omega) (by omega) i.natAbs
  rw [signedDecimal]
  split
  · have hminus : Plain [0x2D] := by
      intro c hc
      rw [mem_singleton.mp hc]
      decide
    exact hminus.append hnumeral
  · exact hnumeral

/-- Padding with zeros leaves plain text plain. -/
theorem plain_zeroPadded {t : Bytes} (h : Plain t) (width : ℕ) : Plain (zeroPadded width t) := by
  have hzeros : Plain (List.replicate (width - t.length) 0x30) := by
    intro c hc
    rw [eq_of_mem_replicate hc]
    decide
  exact hzeros.append h

/-- Plain text has no space to skip. -/
theorem skipSpace_plain {t : Bytes} (h : Plain t) : skipSpace t = t := by
  cases t with
  | nil => rfl
  | cons c t => exact dropWhile_cons_of_neg (by simp [(h c mem_cons_self).1])

/-- A decimal numeral of 64 bits is read back. -/
theorem parseDecU64Strict_numeral {n : ℕ} (h : n < 2 ^ 64) :
    parseDecU64Strict (numeral 10 n) = some (BitVec.ofNat 64 n) := by
  obtain ⟨hminus, hplus⟩ := head?_numeral n
  have hread : ¬(numeral 10 n = [] ∨ (numeral 10 n).head? = some 0x2D ∨
      (numeral 10 n).head? = some 0x2B) := by
    simp only [not_or]
    exact ⟨numeral_ne_nil 10 n, hminus, hplus⟩
  simp only [parseDecU64Strict, skipSpace_numeral, if_neg hread, strtoull10_numeral h]
  simp

/-- A signed decimal of 64 bits is read back. -/
theorem parseDecLongStrict_signedDecimal {i : ℤ} (hlow : -(2 ^ 63) ≤ i) (hhigh : i < 2 ^ 63) :
    parseDecLongStrict (signedDecimal i) = some i := by
  have hne : signedDecimal i ≠ [] := by
    rw [signedDecimal]
    split
    · simp
    · exact numeral_ne_nil 10 _
  simp only [parseDecLongStrict, skipSpace_plain (plain_signedDecimal i), if_neg hne,
    strtol10_signedDecimal hlow hhigh]
  simp

/-- Digits alone have no prefix to drop. -/
theorem dropHexPrefix_digits {ds : List ℕ} (h : ∀ d ∈ ds, d < 16) :
    dropHexPrefix (ds.map digitChar) = ds.map digitChar := by
  have hall : ∀ d : Fin 16, ¬(digitChar d = 0x78 ∨ digitChar d = 0x58) := by decide
  match ds with
  | [] => rfl
  | [_] => rfl
  | d :: d' :: ds =>
    have hd' := hall ⟨d', h d' (by simp)⟩
    exact if_neg fun hprefix => hd' hprefix.2

/-- A padded hexadecimal numeral of 64 bits is read back. -/
theorem parseHexU64Strict_zeroPadded {n width : ℕ} (hn : n < 2 ^ 64) (hwidth : width ≤ 16) :
    parseHexU64Strict (zeroPadded width (numeral 16 n)) = some (BitVec.ofNat 64 n) := by
  have hplain : Plain (zeroPadded width (numeral 16 n)) :=
    plain_zeroPadded (plain_numeral (by omega) (by omega) n) width
  have hprefix : dropHexPrefix (zeroPadded width (numeral 16 n)) = zeroPadded width
    (numeral 16 n) := by
    have hpadded : zeroPadded width (numeral 16 n) =
        (List.replicate (width - (numeral 16 n).length) 0 ++ digitsOf 16 n).map digitChar := by
      rw [zeroPadded, map_append, map_replicate]
      rfl
    rw [hpadded]
    apply dropHexPrefix_digits
    intro d hd
    rcases mem_append.mp hd with hd | hd
    · rw [eq_of_mem_replicate hd]
      omega
    · exact lt_of_mem_digitsOf (by omega) hd
  have htake : (zeroPadded width (numeral 16 n)).takeWhile (fun c => !isSpace c) =
      zeroPadded width (numeral 16 n) := by
    apply takeWhile_eq_self_iff.mpr
    intro c hc
    simp [(hplain c hc).1]
  simp only [parseHexU64Strict, skipSpace_plain hplain, hprefix, htake, drop_length, all_nil,
    if_true]
  exact parseHexU64_zeroPadded hn hwidth

/-- A row of cells as it is written. -/
def joined (cells : List Bytes) : Bytes := [comma].intercalate cells

variable {cells : List Bytes}

/-- Plain cells joined by commas are split into themselves. -/
theorem splitPreserveEmpty_joined (h : ∀ cell ∈ cells, Plain cell) (hne : cells ≠ [])
    {maxFields : ℕ} (hlen : cells.length ≤ maxFields) :
    splitPreserveEmpty (joined cells) maxFields = cells := by
  have hcomma : ∀ cell ∈ cells, comma ∉ cell :=
    fun cell hcell hmem => (h cell hcell comma hmem).2.1 rfl
  rw [splitPreserveEmpty, joined, splitOn_intercalate comma hcomma hne, take_of_length_le hlen]

theorem joined_cons_cons (cell cell' : Bytes) (cells : List Bytes) :
    joined (cell :: cell' :: cells) = cell ++ comma :: joined (cell' :: cells) := by
  rw [joined, intercalate_cons_cons, joined]
  simp

/-- Joined plain cells have no byte that ends a line. -/
theorem joined_bytes {cells : List Bytes} (h : ∀ cell ∈ cells, Plain cell) :
    ∀ c ∈ joined cells, c ≠ lf ∧ c ≠ cr ∧ c ≠ 0 := by
  have hspecial : isSpace lf = true ∧ isSpace cr = true ∧ comma ≠ lf ∧ comma ≠ cr ∧ comma ≠ 0 := by
    decide
  have hcell : ∀ cell ∈ cells, ∀ c ∈ cell, c ≠ lf ∧ c ≠ cr ∧ c ≠ 0 := by
    intro cell hcell c hc
    obtain ⟨hspace, -, hzero⟩ := h cell hcell c hc
    refine ⟨?_, ?_, hzero⟩
    · rintro rfl
      rw [hspecial.1] at hspace
      cases hspace
    · rintro rfl
      rw [hspecial.2.1] at hspace
      cases hspace
  match cells with
  | [] => simp [joined]
  | [cell] =>
    intro c hc
    exact hcell cell (by simp) c (by simpa [joined] using hc)
  | cell :: cell' :: cells =>
    intro c hc
    rw [joined_cons_cons, mem_append, mem_cons] at hc
    rcases hc with hc | rfl | hc
    · exact hcell cell (by simp) c hc
    · exact hspecial.2.2
    · exact joined_bytes (fun cell'' h' => h cell'' (by simp [h'])) c hc

/-- A bound on the line from one on its cells. -/
theorem length_joined_le {cells : List Bytes} {k : ℕ} (h : ∀ cell ∈ cells, cell.length ≤ k) :
    (joined cells).length ≤ cells.length * (k + 1) := by
  match cells with
  | [] => simp [joined]
  | [cell] =>
    have hcell := h cell (by simp)
    simp only [joined, intercalate_singleton, length_singleton]
    omega
  | cell :: cell' :: cells =>
    have hcell := h cell (by simp)
    have hcells : ∀ c ∈ cell' :: cells, c.length ≤ k := fun c hc => h c (by simp [hc])
    have hrest := length_joined_le hcells
    rw [joined_cons_cons, length_append, length_cons, length_cons]
    rw [Nat.add_mul]
    omega

/-- A line that fits the buffer is read whole. -/
theorem readLine_joined (h : ∀ cell ∈ cells, Plain cell) (hlen : (joined cells).length < bsize) :
    readLine (joined cells) true = ⟨joined cells, false⟩ := by
  have hbytes := joined_bytes h
  have hcr : (joined cells).getLast? ≠ some cr := fun hlast =>
    (hbytes cr (mem_of_getLast? hlast)).2.1 rfl
  have hzero : (0 : BitVec 8) ∉ joined cells := fun hmem => (hbytes 0 hmem).2.2 rfl
  have hlimit : ¬(bsize - 1 < (joined cells).length ∨ 0 ∈ joined cells) := by
    rw [not_or]
    exact ⟨by omega, hzero⟩
  simp only [readLine, hcr, and_false, if_false, decide_eq_false hlimit]
  rw [take_of_length_le (by omega)]

/-- Joined plain cells have no line end to trim. -/
theorem trimEol_joined (h : ∀ cell ∈ cells, Plain cell) :
    trimEol (joined cells) = joined cells := by
  rw [trimEol, rdropWhile_eq_self_iff]
  intro hne
  obtain ⟨hlf, hcr, -⟩ := joined_bytes h _ (getLast_mem hne)
  simp [hlf, hcr]

end DsdNeo.Csv
