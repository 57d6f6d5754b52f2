import Mathlib.Data.List.TakeWhile

/-!
# Rows of the talkgroup policy

`talkgroup_policy.c`: a row names one talkgroup or a range of them, with a mode,
a priority and four flags. Texts are character arrays of a fixed size, read up to
their terminator and written by a truncating copy that leaves the bytes behind the
terminator as they were.
-/

namespace DsdNeo.TgPolicy

/-- A terminated string: the bytes before its terminator. -/
structure CString where
  bytes : List (BitVec 8)
  noNul : 0 ∉ bytes
  deriving DecidableEq

/-- A character array. -/
abbrev Chars (n : ℕ) := Vector (BitVec 8) n

/-- The string a character array holds. -/
def Chars.cstr {n : ℕ} (a : Chars n) : CString where
  bytes := a.toList.takeWhile (· != 0)
  noNul h := by simpa using List.mem_takeWhile_imp h

/-- `memchr (a, 0, sizeof a)`. -/
def Chars.terminated {n : ℕ} (a : Chars n) : Bool := a.toList.contains 0

/-- A cleared character array. -/
def Chars.zero (n : ℕ) : Chars n := Vector.replicate n 0

/-- `tg_policy_safe_copy`. -/
def safeCopy {n : ℕ} (dst : Chars n) (src : CString) : Chars n :=
  Vector.ofFn fun i =>
    if i.val < min src.bytes.length (n - 1) then src.bytes.getD i 0
    else if i.val = min src.bytes.length (n - 1) then 0
    else dst[i]

/-- The empty string. -/
def emptyText : CString := ⟨[], by decide⟩

/-- The mode that admits a talkgroup. -/
def modeA : CString := ⟨[0x41], by decide⟩

/-- The mode that blocks a talkgroup. -/
def modeB : CString := ⟨[0x42], by decide⟩

/-- The mode of an alias. -/
def modeD : CString := ⟨[0x44], by decide⟩

/-- The mode of an encrypted talkgroup. -/
def modeDE : CString := ⟨[0x44, 0x45], by decide⟩

/-- `DSD_TG_POLICY_SOURCE_RUNTIME_ALIAS`. -/
def sourceRuntimeAlias : BitVec 8 := 1

/-- `DSD_TG_POLICY_SOURCE_USER_LOCKOUT`. -/
def sourceUserLockout : BitVec 8 := 2

/-- `dsd_tg_policy_entry`. -/
structure Entry where
  idStart : BitVec 32
  idEnd : BitVec 32
  mode : Chars 8
  name : Chars 50
  tags : Chars 50
  priority : ℤ
  preempt : BitVec 8
  audio : BitVec 8
  record : BitVec 8
  stream : BitVec 8
  isRange : BitVec 8
  source : BitVec 8
  row : BitVec 32
  deriving DecidableEq

/-- A cleared row. -/
def Entry.zero : Entry where
  idStart := 0
  idEnd := 0
  mode := Chars.zero 8
  name := Chars.zero 50
  tags := Chars.zero 50
  priority := 0
  preempt := 0
  audio := 0
  record := 0
  stream := 0
  isRange := 0
  source := 0
  row := 0

/-- `tg_policy_mode_is_blocking`. -/
def modeIsBlocking (mode : CString) : Bool := mode = modeB || mode = modeDE

/-- `tg_policy_defaults_from_mode`, for each of the three flags. -/
def defaultsFromMode (mode : CString) : BitVec 8 := if modeIsBlocking mode then 0 else 1

/-- A flag as zero or one. -/
def flag (v : BitVec 8) : BitVec 8 := if v ≠ 0 then 1 else 0

/-- A priority brought into its range. -/
def clampPriority (p : ℤ) : ℤ := if p < 0 then 0 else if p > 100 then 100 else p

/-- `tg_policy_normalize_entry`. -/
def normalizeEntry (e : Entry) : Entry :=
  let e := { e with
    preempt := flag e.preempt, audio := flag e.audio, record := flag e.record
    stream := flag e.stream, priority := clampPriority e.priority }
  if modeIsBlocking e.mode.cstr then { e with audio := 0, record := 0, stream := 0 }
  else if e.audio = 0 then { e with record := 0, stream := 0 }
  else e

/-- `tg_policy_mode_valid`. -/
def modeValid (mode : CString) : Bool := mode.bytes ≠ [] && decide (mode.bytes.length < 8)

/-- `tg_policy_entry_apply_mode`. -/
def entryApplyMode (e : Entry) (mode : CString) : Entry :=
  let copied := safeCopy e.mode mode
  let on := defaultsFromMode copied.cstr
  normalizeEntry { e with mode := copied, audio := on, record := on, stream := on }

/-- `tg_policy_copy_entry_normalized`. -/
def copyEntryNormalized (src : Entry) : Entry :=
  normalizeEntry
    { src with
      mode := safeCopy (Chars.zero 8) src.mode.cstr
      name := safeCopy (Chars.zero 50) src.name.cstr
      tags := safeCopy (Chars.zero 50) src.tags.cstr
      isRange := flag src.isRange }

/-- `tg_policy_entry_valid_exact`. -/
def entryValidExact (e : Entry) : Bool := e.isRange = 0 && e.idStart = e.idEnd

/-- `tg_policy_entry_valid_range`. -/
def entryValidRange (e : Entry) : Bool :=
  e.isRange ≠ 0 && !(decide (e.idStart > e.idEnd)) && e.idStart ≠ e.idEnd

/-- `dsd_tg_policy_make_exact_entry`. -/
def makeExactEntry (id : BitVec 32) (mode name : CString) (source : BitVec 8) : Entry :=
  let copied := safeCopy (Chars.zero 8) mode
  let on := defaultsFromMode copied.cstr
  { Entry.zero with
    idStart := id, idEnd := id
    mode := copied
    name := safeCopy (Chars.zero 50) name
    audio := on, record := on, stream := on
    source := source }

/-- `tg_policy_row_editable`. -/
def rowEditable (e : Entry) : Bool := e.source ≠ sourceRuntimeAlias && e.mode.cstr ≠ modeD

/-- `DSD_TG_POLICY_FIELD_LISTEN`. -/
def fieldListen : BitVec 32 := 1

/-- `DSD_TG_POLICY_FIELD_PRIORITY`. -/
def fieldPriority : BitVec 32 := 2

/-- `DSD_TG_POLICY_FIELD_PREEMPT`. -/
def fieldPreempt : BitVec 32 := 4

/-- `DSD_TG_POLICY_FIELD_NAME`. -/
def fieldName : BitVec 32 := 8

/-- `DSD_TG_POLICY_FIELD_TAGS`. -/
def fieldTags : BitVec 32 := 16

/-- Whether a mask selects a field. -/
def selects (mask field : BitVec 32) : Bool := mask &&& field ≠ 0

/-- `tg_policy_listen_fields_invalid`. -/
def listenFieldsInvalid (values : Entry) (mask : BitVec 32) : Bool :=
  selects mask fieldListen &&
    (!values.mode.terminated || (values.mode.cstr ≠ modeA && values.mode.cstr ≠ modeB))

/-- `tg_policy_other_fields_invalid`. -/
def otherFieldsInvalid (values : Entry) (mask : BitVec 32) : Bool :=
  (selects mask fieldPriority && (decide (values.priority < 0) || decide (values.priority > 100)))
    || (selects mask fieldPreempt && decide (values.preempt > 1))
    || (selects mask fieldName && !values.name.terminated)
    || (selects mask fieldTags && !values.tags.terminated)

/-- An edit made where its field is selected. -/
def editIf (c : Bool) (edit : Entry → Entry) (e : Entry) : Entry := if c then edit e else e

/-- `tg_policy_apply_fields`. -/
def applyFields (e values : Entry) (mask : BitVec 32) : Entry :=
  e
  |> editIf (selects mask fieldListen) (entryApplyMode · values.mode.cstr)
  |> editIf (selects mask fieldPriority) (fun e => { e with priority := values.priority })
  |> editIf (selects mask fieldPreempt) (fun e => { e with preempt := values.preempt })
  |> editIf (selects mask fieldName) (fun e => { e with name := safeCopy e.name values.name.cstr })
  |> editIf (selects mask fieldTags) (fun e => { e with tags := safeCopy e.tags values.tags.cstr })

/-- Bounds and kind of a row agree. -/
def Entry.Bounded (e : Entry) : Prop :=
  (e.isRange = 0 ∧ e.idStart = e.idEnd) ∨ (e.isRange = 1 ∧ e.idStart < e.idEnd)

/-- Priority and flags of a row are in range and follow from each other. -/
structure Entry.Normal (e : Entry) : Prop where
  priority : 0 ≤ e.priority ∧ e.priority ≤ 100
  preempt : e.preempt = 0 ∨ e.preempt = 1
  audio : e.audio = 0 ∨ e.audio = 1
  record : e.record = 0 ∨ e.record = 1
  stream : e.stream = 0 ∨ e.stream = 1
  blocked : e.mode.cstr = modeB ∨ e.mode.cstr = modeDE →
    e.audio = 0 ∧ e.record = 0 ∧ e.stream = 0
  silent : e.audio = 0 → e.record = 0 ∧ e.stream = 0

/-- A row as the table keeps it. -/
structure Entry.WellFormed (e : Entry) : Prop where
  bounded : e.Bounded
  normal : e.Normal

theorem flag_cases (v : BitVec 8) : flag v = 0 ∨ flag v = 1 := by
  rw [flag]
  split
  · exact Or.inr rfl
  · exact Or.inl rfl

theorem clampPriority_bounds (p : ℤ) : 0 ≤ clampPriority p ∧ clampPriority p ≤ 100 := by
  rw [clampPriority]
  split
  · omega
  · split <;> omega

theorem modeIsBlocking_iff (mode : CString) :
    modeIsBlocking mode = true ↔ mode = modeB ∨ mode = modeDE := by
  simp [modeIsBlocking]

/-- Normalizing leaves the identity of a row alone. -/
theorem normalizeEntry_frame (e : Entry) :
    (normalizeEntry e).idStart = e.idStart ∧ (normalizeEntry e).idEnd = e.idEnd ∧
      (normalizeEntry e).isRange = e.isRange ∧ (normalizeEntry e).mode = e.mode ∧
      (normalizeEntry e).source = e.source := by
  rw [normalizeEntry]
  split
  · exact ⟨rfl, rfl, rfl, rfl, rfl⟩
  · split <;> exact ⟨rfl, rfl, rfl, rfl, rfl⟩

theorem normalizeEntry_normal (e : Entry) : (normalizeEntry e).Normal := by
  have hpriority := clampPriority_bounds e.priority
  rw [normalizeEntry]
  simp only [modeIsBlocking_iff]
  split
  · exact ⟨hpriority, flag_cases _, Or.inl rfl, Or.inl rfl, Or.inl rfl,
      fun _ => ⟨rfl, rfl, rfl⟩, fun _ => ⟨rfl, rfl⟩⟩
  · rename_i hmode
    split
    · exact ⟨hpriority, flag_cases _, flag_cases _, Or.inl rfl, Or.inl rfl,
        fun h => absurd h hmode, fun _ => ⟨rfl, rfl⟩⟩
    · rename_i haudio
      exact ⟨hpriority, flag_cases _, flag_cases _, flag_cases _, flag_cases _,
        fun h => absurd h hmode, fun h => absurd h haudio⟩

variable {e : Entry}

theorem Entry.Bounded.congr {e' : Entry} (h : e.Bounded) (hstart : e'.idStart = e.idStart)
    (hend : e'.idEnd = e.idEnd) (hrange : e'.isRange = e.isRange) : e'.Bounded := by
  rw [Entry.Bounded, hstart, hend, hrange]
  exact h

theorem entryApplyMode_frame (e : Entry) (mode : CString) :
    (entryApplyMode e mode).idStart = e.idStart ∧ (entryApplyMode e mode).idEnd = e.idEnd ∧
      (entryApplyMode e mode).isRange = e.isRange ∧ (entryApplyMode e mode).source = e.source := by
  obtain ⟨hstart, hend, hrange, -, hsource⟩ := normalizeEntry_frame
    { e with mode := safeCopy e.mode mode, audio := defaultsFromMode (safeCopy e.mode mode).cstr
             record := defaultsFromMode (safeCopy e.mode mode).cstr
             stream := defaultsFromMode (safeCopy e.mode mode).cstr }
  exact ⟨hstart, hend, hrange, hsource⟩

theorem entryApplyMode_wellFormed (h : e.Bounded) (mode : CString) :
    (entryApplyMode e mode).WellFormed := by
  obtain ⟨hstart, hend, hrange, -⟩ := entryApplyMode_frame e mode
  exact ⟨h.congr hstart hend hrange, normalizeEntry_normal _⟩

/-- A row that passes its check is stored well formed. -/
theorem copyEntryNormalized_wellFormed
    (h : (if e.isRange ≠ 0 then entryValidRange e else entryValidExact e) = true) :
    (copyEntryNormalized e).WellFormed := by
  refine ⟨?_, normalizeEntry_normal _⟩
  obtain ⟨hstart, hend, hrange, -⟩ := normalizeEntry_frame
    { e with
      mode := safeCopy (Chars.zero 8) e.mode.cstr
      name := safeCopy (Chars.zero 50) e.name.cstr
      tags := safeCopy (Chars.zero 50) e.tags.cstr
      isRange := flag e.isRange }
  rw [Entry.Bounded, copyEntryNormalized, hstart, hend, hrange]
  by_cases hkind : e.isRange = 0
  · rw [if_neg (by simpa using hkind)] at h
    refine Or.inl ⟨by simp [flag, hkind], ?_⟩
    simp only [entryValidExact, Bool.and_eq_true, decide_eq_true_eq] at h
    exact h.2
  · rw [if_pos hkind] at h
    refine Or.inr ⟨if_pos hkind, ?_⟩
    simp only [entryValidRange, Bool.and_eq_true, decide_eq_true_eq, Bool.not_eq_true',
      decide_eq_false_iff_not] at h
    have hle : e.idStart.toNat ≤ e.idEnd.toNat := Nat.le_of_not_lt h.1.2
    have hne : e.idStart.toNat ≠ e.idEnd.toNat := fun heq => h.2 (BitVec.eq_of_toNat_eq heq)
    exact Nat.lt_of_le_of_ne hle hne

theorem makeExactEntry_wellFormed (id : BitVec 32) (mode name : CString) (source : BitVec 8) :
    (makeExactEntry id mode name source).WellFormed := by
  have hpriority : (0 : ℤ) ≤ 0 ∧ (0 : ℤ) ≤ 100 := by decide
  refine ⟨Or.inl ⟨rfl, rfl⟩, ?_⟩
  by_cases hmode : modeIsBlocking (safeCopy (Chars.zero 8) mode).cstr = true
  · have hoff : defaultsFromMode (safeCopy (Chars.zero 8) mode).cstr = 0 := if_pos hmode
    exact ⟨hpriority, Or.inl rfl, Or.inl hoff, Or.inl hoff, Or.inl hoff,
      fun _ => ⟨hoff, hoff, hoff⟩, fun _ => ⟨hoff, hoff⟩⟩
  · have hon : defaultsFromMode (safeCopy (Chars.zero 8) mode).cstr = 1 := if_neg hmode
    rw [modeIsBlocking_iff] at hmode
    refine ⟨hpriority, Or.inl rfl, Or.inr hon, Or.inr hon, Or.inr hon, fun h => absurd h hmode,
      fun h => ?_⟩
    have hzero : defaultsFromMode (safeCopy (Chars.zero 8) mode).cstr = 0 := h
    rw [hon] at hzero
    exact absurd hzero (by decide)

theorem Entry.WellFormed.withPriority (h : e.WellFormed) {p : ℤ} (hp : 0 ≤ p ∧ p ≤ 100) :
    ({ e with priority := p } : Entry).WellFormed :=
  ⟨h.bounded, hp, h.normal.preempt, h.normal.audio, h.normal.record, h.normal.stream,
    h.normal.blocked, h.normal.silent⟩

theorem Entry.WellFormed.withPreempt (h : e.WellFormed) {v : BitVec 8} (hv : v = 0 ∨ v = 1) :
    ({ e with preempt := v } : Entry).WellFormed :=
  ⟨h.bounded, h.normal.priority, hv, h.normal.audio, h.normal.record, h.normal.stream,
    h.normal.blocked, h.normal.silent⟩

theorem Entry.WellFormed.withName (h : e.WellFormed) (name : Chars 50) :
    ({ e with name := name } : Entry).WellFormed :=
  ⟨h.bounded, h.normal.priority, h.normal.preempt, h.normal.audio, h.normal.record,
    h.normal.stream, h.normal.blocked, h.normal.silent⟩

theorem Entry.WellFormed.withTags (h : e.WellFormed) (tags : Chars 50) :
    ({ e with tags := tags } : Entry).WellFormed :=
  ⟨h.bounded, h.normal.priority, h.normal.preempt, h.normal.audio, h.normal.record,
    h.normal.stream, h.normal.blocked, h.normal.silent⟩

theorem editIf_wellFormed {c : Bool} {f : Entry → Entry}
    (hedit : c = true → ∀ e, e.WellFormed → (f e).WellFormed) (e : Entry) (h : e.WellFormed) :
    (editIf c f e).WellFormed := by
  rw [editIf]
  split
  · exact hedit ‹_› e h
  · exact h

theorem applyFields_wellFormed {values : Entry} {mask : BitVec 32} (h : e.WellFormed)
    (hvalues : otherFieldsInvalid values mask = false) :
    (applyFields e values mask).WellFormed := by
  simp only [otherFieldsInvalid, Bool.or_eq_false_iff, Bool.and_eq_false_iff,
    decide_eq_false_iff_not, Int.not_lt, gt_iff_lt] at hvalues
  obtain ⟨⟨⟨hpriority, hpreempt⟩, -⟩, -⟩ := hvalues
  have hprio : selects mask fieldPriority = true → 0 ≤ values.priority ∧ values.priority ≤ 100 :=
    fun hsel => hpriority.resolve_left (by rw [hsel]; decide)
  have hpre : selects mask fieldPreempt = true → values.preempt = 0 ∨ values.preempt = 1 := by
    intro hsel
    have hnat : values.preempt.toNat ≤ 1 :=
      Nat.le_of_not_lt (hpreempt.resolve_left (by rw [hsel]; decide))
    rcases Nat.le_one_iff_eq_zero_or_eq_one.mp hnat with hz | ho
    · exact Or.inl (BitVec.eq_of_toNat_eq hz)
    · exact Or.inr (BitVec.eq_of_toNat_eq ho)
  -- the mode comes first and normalizes; what follows touches checked fields only
  have hlisten := editIf_wellFormed (c := selects mask fieldListen)
    (f := (entryApplyMode · values.mode.cstr))
    fun _ _ h => entryApplyMode_wellFormed h.bounded values.mode.cstr
  have hweigh := editIf_wellFormed (c := selects mask fieldPriority)
    (f := fun e => { e with priority := values.priority })
    fun hsel _ h => h.withPriority (hprio hsel)
  have hpreempting := editIf_wellFormed (c := selects mask fieldPreempt)
    (f := fun e => { e with preempt := values.preempt })
    fun hsel _ h => h.withPreempt (hpre hsel)
  have hname := editIf_wellFormed (c := selects mask fieldName)
    (f := fun e => { e with name := safeCopy e.name values.name.cstr })
    fun _ e h => h.withName (safeCopy e.name values.name.cstr)
  have htags := editIf_wellFormed (c := selects mask fieldTags)
    (f := fun e => { e with tags := safeCopy e.tags values.tags.cstr })
    fun _ e h => h.withTags (safeCopy e.tags values.tags.cstr)
  rw [applyFields]
  exact htags _ (hname _ (hpreempting _ (hweigh _ (hlisten _ h))))

end DsdNeo.TgPolicy
