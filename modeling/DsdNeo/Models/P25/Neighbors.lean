import DsdNeo.Core.Queue.Compact
import Mathlib.Data.BitVec

/-!
# Neighbor sites

The neighbor table of `p25_cc_candidates.c`. An announcement with an identity refreshes the entry
of its site, else one of its frequency that has no identity yet; one without refreshes the first
entry of its frequency. What is not found is entered, in place of the entry seen longest ago where
the table is full.
-/

namespace DsdNeo.P25.Neighbors

open Queue

/-- `P25_NB_MAX`. -/
def nbMax : ℕ := 32

/-- `P25_NB_TTL_SEC`. -/
def nbTtlSec : ℤ := 30 * 60

/-- `p25_nb_entry_t`. -/
structure Entry where
  freq : ℤ
  wacn : BitVec 32
  sysid : BitVec 16
  rfss : BitVec 8
  site : BitVec 8
  cfva : BitVec 8
  lra : BitVec 8
  wacnValid : Bool
  lraValid : Bool
  cfvaValid : Bool
  lastSeen : ℤ
deriving DecidableEq

/-- An entry of zeroes. -/
def Entry.blank : Entry := ⟨0, 0, 0, 0, 0, 0, 0, false, false, false, 0⟩

/-- `p25_neighbor_channel_announcement_t`, as the table reads it. -/
structure Announcement where
  wacn : BitVec 32
  sysid : BitVec 16
  rfss : BitVec 8
  site : BitVec 8
  lra : BitVec 8
  cfva : BitVec 8
  wacnValid : Bool
  lraValid : Bool
  cfvaValid : Bool
deriving DecidableEq

/-- `p25_neighbor_record_update_t`. -/
structure Update where
  freq : ℤ
  announcement : Announcement
deriving DecidableEq

/-- `p25_nb_entries` and `p25_nb_count`. -/
structure Table where
  entries : ℕ → Entry
  count : ℕ

/-- The table of a fresh state. -/
def Table.empty : Table := ⟨fun _ => Entry.blank, 0⟩

/-- The entries in order. -/
def Table.listed (t : Table) : List Entry := (List.range t.count).map t.entries

/-- `p25_neighbor_wacn20`. -/
def Announcement.wacn20 (a : Announcement) : BitVec 32 := a.wacn &&& 0xFFFFF

/-- `p25_nb_has_site_identity`. -/
def Announcement.hasSiteIdentity (a : Announcement) : Bool :=
    a.sysid ≠ 0 || a.rfss ≠ 0 || a.site ≠ 0

/-- `p25_nb_sysid_matches`. -/
def sysidMatches (entrySysid announcementSysid : BitVec 16) : Bool :=
  entrySysid = announcementSysid || entrySysid = 0 || announcementSysid = 0

/-- `p25_nb_same_site_identity`. -/
def Entry.sameSiteIdentity (e : Entry) (a : Announcement) : Bool :=
  if e.rfss = 0 ∨ e.site = 0 ∨ a.rfss = 0 ∨ a.site = 0 then
    e.sysid = a.sysid && e.rfss = a.rfss && e.site = a.site
  else e.rfss = a.rfss && e.site = a.site && sysidMatches e.sysid a.sysid

/-- The announcement tells a WACN other than the one known of the entry. -/
def Entry.otherWacn (e : Entry) (a : Announcement) : Bool :=
  a.wacnValid && e.wacnValid && e.wacn ≠ a.wacn20

/-- `p25_nb_enrich_unknown_identity`. -/
def Entry.enrichUnknownIdentity (e : Entry) (a : Announcement) : Entry :=
  if e.sysid = 0 ∧ a.sysid ≠ 0 then { e with sysid := a.sysid } else e

/-- `p25_nb_apply_record_update`. -/
def Entry.applyRecordUpdate (e : Entry) (u : Update) (copyIdentity : Bool) (now : ℤ) : Entry :=
  let a := u.announcement
  { freq := u.freq
    sysid := if copyIdentity then a.sysid else e.sysid
    rfss := if copyIdentity then a.rfss else e.rfss
    site := if copyIdentity then a.site else e.site
    wacn := if a.wacnValid then a.wacn20 else e.wacn
    wacnValid := a.wacnValid || e.wacnValid
    lra := if a.lraValid then a.lra else e.lra
    lraValid := a.lraValid || e.lraValid
    cfva := if a.cfvaValid then a.cfva else e.cfva
    cfvaValid := a.cfvaValid || e.cfvaValid
    lastSeen := now }

/-- The first place the loops over the table stop at. -/
def Table.firstPlace (t : Table) (p : Entry → Bool) : Option ℕ :=
  (List.range (min t.count nbMax)).find? fun i => p (t.entries i)

/-- The entry `p25_nb_update_by_site` stops at. -/
def Update.takesBySite (u : Update) (e : Entry) : Bool :=
  e.sameSiteIdentity u.announcement && !e.otherWacn u.announcement

/-- The entry `p25_nb_update_by_freq` stops at. -/
def Update.takesByFreq (u : Update) (e : Entry) : Bool :=
  e.freq = u.freq &&
    !(u.announcement.hasSiteIdentity && (e.sysid ≠ 0 || e.rfss ≠ 0 || e.site ≠ 0))

/-- The table with one entry written. -/
def Table.write (t : Table) (i : ℕ) (e : Entry) : Table :=
  { t with entries := Function.update t.entries i e }

/-- `p25_nb_update_by_site`, where it finds an entry. -/
def Table.updateBySite (t : Table) (u : Update) (now : ℤ) : Option Table :=
  (t.firstPlace u.takesBySite).map fun i =>
    t.write i (((t.entries i).applyRecordUpdate u false now).enrichUnknownIdentity u.announcement)

/-- `p25_nb_update_by_freq`, where it finds an entry. -/
def Table.updateByFreq (t : Table) (u : Update) (now : ℤ) : Option Table :=
  (t.firstPlace u.takesByFreq).map fun i =>
    t.write i ((t.entries i).applyRecordUpdate u u.announcement.hasSiteIdentity now)

/-- One turn of the loop of `p25_nb_select_insert_index`: the place and the time of the oldest. -/
def Table.olderOf (t : Table) (s : ℕ × ℤ) (i : ℕ) : ℕ × ℤ :=
  if (t.entries i).lastSeen < s.2 then (i, (t.entries i).lastSeen) else s

/-- The place of the entry seen longest ago, the first of them. -/
def Table.oldest (t : Table) : ℕ :=
  ((List.range' 1 (nbMax - 1)).foldl t.olderOf (0, (t.entries 0).lastSeen)).1

/-- `p25_nb_select_insert_index`: the count and the place. -/
def Table.selectInsertIndex (t : Table) : ℕ × ℕ :=
  if t.count < nbMax then (t.count + 1, t.count) else (t.count, t.oldest)

/-- `p25_nb_insert_record`. -/
def Table.insertRecord (t : Table) (u : Update) (now : ℤ) : Table :=
  let (count, idx) := t.selectInsertIndex
  { t.write idx (Entry.blank.applyRecordUpdate u true now) with count := count }

/-- `p25_nb_record_update`, with the control channel of the state. -/
def Table.recordUpdate (t : Table) (ccFreq : ℤ) (u : Update) (now : ℤ) : Table :=
  if u.freq ≤ 0 then t
  else if u.freq = ccFreq then t
  else
    match if u.announcement.hasSiteIdentity then t.updateBySite u now else none with
    | some t' => t'
    | none => (t.updateByFreq u now).getD (t.insertRecord u now)

/-- An entry `p25_nb_tick` keeps. -/
def Entry.fresh (now : ℤ) (e : Entry) : Bool :=
  e.freq ≠ 0 && (e.lastSeen = 0 || now - e.lastSeen ≤ nbTtlSec)

/-- `p25_nb_tick`. -/
def Table.tick (t : Table) (now : ℤ) : Table :=
  let n := min t.count nbMax
  let (entries, w) := moveUp (Entry.fresh now) t.entries n
  ⟨fun i => if w ≤ i ∧ i < n then Entry.blank else entries i, w⟩

/-- The place found is an entry's, and satisfies the test. -/
theorem Table.firstPlace_some {t : Table} {p : Entry → Bool} {i : ℕ} (h : t.firstPlace p = some i) :
    i < t.count ∧ p (t.entries i) = true := by
  have hfind : (List.range (min t.count nbMax)).find? (fun i => p (t.entries i)) = some i := h
  have hmem := List.mem_range.mp (List.mem_of_find?_eq_some hfind)
  have hp := List.find?_some hfind
  exact ⟨by omega, hp⟩

/-- No place is found where no entry satisfies the test. -/
theorem Table.firstPlace_none {t : Table} (hcount : t.count ≤ nbMax) {p : Entry → Bool} :
    t.firstPlace p = none ↔ ∀ i < t.count, p (t.entries i) = false := by
  simp [Table.firstPlace, List.find?_eq_none, Nat.min_eq_left hcount]

/-- A tick keeps the fresh entries, in order. -/
theorem Table.listed_tick {t : Table} (hcount : t.count ≤ nbMax) (now : ℤ) :
    (t.tick now).listed = t.listed.filter (Entry.fresh now) := by
  obtain ⟨-, hkept, -⟩ := moveUp_spec (Entry.fresh now) t.entries t.count
  rw [Table.listed, Table.listed, ← hkept, Table.tick, Nat.min_eq_left hcount]
  apply List.map_congr_left
  intro i hi
  have hlt := List.mem_range.mp hi
  dsimp only at hlt ⊢
  rw [if_neg (by omega)]

end DsdNeo.P25.Neighbors
