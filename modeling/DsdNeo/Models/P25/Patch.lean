import Mathlib.Data.Int.Notation
import Mathlib.Data.List.Nodup
import Mathlib.Data.List.Perm.Subperm
import Mathlib.Order.Basic

/-!
# P25 patches

`p25_patch.c`: a table of at most eight supergroups with their members and their
key policy. An entry that was not refreshed for more than twenty seconds is stale:
the answers pass over it, a new supergroup may take its place in a full table, and
the status text sweeps it out. The table is the list of the entries counted.
-/

namespace DsdNeo.P25.Patch

open List

/-- `P25_PATCH_TTL_SECONDS`. -/
def patchTtlSeconds : ℤ := 20

/-- Places of the table. -/
def patchMax : ℕ := 8

/-- One entry, the working groups and units as the lists of those counted. -/
structure Entry where
  sgid : BitVec 16
  isPatch : Bool
  active : Bool
  lastUpdate : ℤ
  wgid : List (BitVec 16)
  wuid : List (BitVec 32)
  key : BitVec 16
  alg : BitVec 8
  ssn : BitVec 8
  keyValid : Bool
  deriving DecidableEq

/-- The entries counted, in table order. -/
abbrev Table := List Entry

/-- `find_patch_idx`. -/
def findPatchIdx (t : Table) (sgid : BitVec 16) : Option ℕ := t.findIdx? (·.sgid = sgid)

/-- `p25_patch_entry_is_stale`. -/
def Entry.isStale (e : Entry) (now : ℤ) : Bool :=
  decide (e.lastUpdate > 0) && decide (now - e.lastUpdate > patchTtlSeconds)

/-- `p25_patch_clear_entry_context`. -/
def Entry.clearContext (e : Entry) : Entry :=
  { e with wgid := [], wuid := [], key := 0, alg := 0, ssn := 0, keyValid := false }

/-- The entry of a supergroup edited where there is one. -/
def editFound (t : Table) (sgid : BitVec 16) (f : Entry → Entry) : Table :=
  match findPatchIdx t sgid with
  | some i => t.modify i f
  | none => t

/-- The oldest of the entries, the first among equals. -/
def oldestIdx (t : Table) : ℕ :=
  let stamp i := (t[i]?.map Entry.lastUpdate).getD 0
  (List.range' 1 7).foldl (fun repl i => if stamp i < stamp repl then i else repl) 0

/-- `p25_patch_replacement_idx`. -/
def replacementIdx (t : Table) (active : Bool) (now : ℤ) : Option ℕ :=
  match t.findIdx? (!·.active) with
  | some i => some i
  | none =>
    match t.findIdx? (·.isStale now) with
    | some i => some i
    | none => if active then some (oldestIdx t) else none

/-- A new entry in the table, or in the place of another where the table is full. -/
def insertEntry (t : Table) (e : Entry) (now : ℤ) : Table :=
  if t.length < patchMax then t ++ [e]
  else
    match replacementIdx t e.active now with
    | some i => t.set i e
    | none => t

/-- The entry a supergroup starts with. -/
def newEntry (sgid : BitVec 16) (isPatch active : Bool) (now : ℤ) : Entry :=
  ⟨sgid, isPatch, active, now, [], [], 0, 0, 0, false⟩

/-- Whether a supergroup has an entry. -/
def hasPatch (t : Table) (sgid : BitVec 16) : Bool := (findPatchIdx t sgid).isSome

/-- A supergroup number as the table keeps it. -/
def asSgid (sgid : ℤ) : BitVec 16 := BitVec.ofInt 16 sgid

/-- Whether a number is one of sixteen bits, and not zero. -/
def inRange16 (v : ℤ) : Bool := decide (0 < v) && decide (v ≤ 0xFFFF)

/-- `p25_patch_update`. -/
def patchUpdate (now : ℤ) (t : Table) (sgid : ℤ) (isPatch active : Bool) : Table :=
  if !inRange16 sgid then t
  else if hasPatch t (asSgid sgid) then
    editFound t (asSgid sgid) fun e =>
      { e with isPatch := isPatch, active := active, lastUpdate := now }
  else insertEntry t (newEntry (asSgid sgid) isPatch active now) now

/-- The entry of a supergroup, created as an active patch where there is none. -/
def ensurePatch (now : ℤ) (t : Table) (sgid : ℤ) : Table :=
  if hasPatch t (asSgid sgid) then t else patchUpdate now t sgid true true

/-- A member counted once, while there is room. -/
def addMember {w : ℕ} (members : List (BitVec w)) (m : BitVec w) : List (BitVec w) :=
  if members.contains m ∨ members.length ≥ 8 then members else members ++ [m]

/-- `p25_patch_add_wgid`. -/
def addWgid (now : ℤ) (t : Table) (sgid wgid : ℤ) : Table :=
  if !inRange16 sgid || !inRange16 wgid then t
  else
    editFound (ensurePatch now t sgid) (asSgid sgid) fun e =>
      { e with wgid := addMember e.wgid (BitVec.ofInt 16 wgid) }

/-- `p25_patch_add_wuid`. -/
def addWuid (now : ℤ) (t : Table) (sgid : ℤ) (wuid : BitVec 32) : Table :=
  if !inRange16 sgid || wuid = 0 then t
  else
    editFound (ensurePatch now t sgid) (asSgid sgid) fun e =>
      { e with wuid := addMember e.wuid wuid }

/-- A member dropped, the last one taking its place. -/
def dropMember (members : List (BitVec 16)) (m : BitVec 16) : List (BitVec 16) :=
  match members.findIdx? (· = m) with
  | some i => (members.set i (members.getLastD 0)).dropLast
  | none => members

/-- `p25_patch_remove_wgid`: without members the patch is inactive. -/
def removeWgid (t : Table) (sgid wgid : ℤ) : Table :=
  if sgid ≤ 0 ∨ wgid ≤ 0 then t
  else
    editFound t (asSgid sgid) fun e =>
      let members := dropMember e.wgid (BitVec.ofInt 16 wgid)
      { e with wgid := members, active := e.active && !(members.isEmpty && e.wuid.isEmpty) }

/-- `p25_patch_clear_sg`. -/
def clearSg (now : ℤ) (t : Table) (sgid : ℤ) : Table :=
  if sgid ≤ 0 then t
  else
    editFound t (asSgid sgid) fun e => { e.clearContext with active := false, lastUpdate := now }

/-- `p25_patch_prepare_grg_update`. -/
def prepareGrgUpdate (now : ℤ) (t : Table) (sgid : ℤ) (isPatch active : Bool) (ssn : ℤ) : Table :=
  if !inRange16 sgid then t
  else if !active then
    let t := if hasPatch t (asSgid sgid) then t else patchUpdate now t sgid isPatch false
    editFound (clearSg now t sgid) (asSgid sgid) fun e => { e with isPatch := isPatch }
  else
    let normalized : BitVec 8 := BitVec.ofInt 8 (ssn % 32)
    let t := editFound t (asSgid sgid) fun e =>
      if e.active ∧ ssn ≥ 0 ∧ e.ssn ≠ normalized then e.clearContext else e
    patchUpdate now t sgid isPatch true

/-- `p25_patch_set_kas`. -/
def setKas (now : ℤ) (t : Table) (sgid key alg ssn : ℤ) : Table :=
  if sgid ≤ 0 then t
  else
    editFound (ensurePatch now t sgid) (asSgid sgid) fun e =>
      { e with
        key := if key ≥ 0 then BitVec.ofInt 16 key else e.key
        keyValid := e.keyValid || decide (key ≥ 0)
        alg := if alg ≥ 0 then BitVec.ofInt 8 alg else e.alg
        ssn := if ssn ≥ 0 then BitVec.ofInt 8 (ssn % 32) else e.ssn }

/-- `p25_patch_sweep_stale`. -/
def sweepStale (now : ℤ) (t : Table) : Table := t.filter fun e => !e.isStale now

/-- A number in a base, padded with zeros to a width. -/
def padded (base width n : ℕ) : List Char :=
  let digits := (Nat.toDigits base n).map Char.toUpper
  List.replicate (width - digits.length) '0' ++ digits

/-- `p25_patch_append`: the text so far, and the count of what it would hold unbounded. -/
def patchAppend (cap : ℕ) (s : ℕ × List Char) (text : List Char) : ℕ × List Char :=
  if s.1 ≥ cap then s else (s.1 + text.length, (s.2 ++ text).take (cap - 1))

/-- The pieces of `p25_patch_append_wg_summary`. -/
def wgSummary (wgid : List (BitVec 16)) : List (List Char) :=
  let number (w : BitVec 16) := padded 10 4 w.toNat
  match wgid with
  | [] => []
  | w :: rest =>
    if wgid.length ≤ 3 then
      " WG:".toList :: number w :: rest.map fun w => ',' :: number w
    else
      [" WG:".toList ++ padded 10 1 wgid.length ++ "(".toList ++ number w ++ ",".toList ++
        number (rest.headD 0) ++ "+)".toList]

/-- The pieces of `p25_patch_append_crypt_summary`. -/
def cryptSummary (e : Entry) : List (List Char) :=
  (if e.key ≠ 0 then [" K:".toList ++ padded 16 4 e.key.toNat] else []) ++
    (if e.alg ≠ 0 then [" A:".toList ++ padded 16 2 e.alg.toNat] else []) ++
    (if e.ssn ≠ 0 then [" S:".toList ++ padded 10 2 (e.ssn.toNat % 32)] else [])

/-- The pieces for one entry. -/
def entryPieces (e : Entry) : List (List Char) :=
  ["SG".toList ++ padded 10 3 e.sgid.toNat ++ "[".toList ++ [if e.isPatch then 'P' else 'S'] ++
      "]".toList] ++
    (if e.wgid ≠ [] then wgSummary e.wgid
      else if e.wuid ≠ [] then [" U:".toList ++ padded 10 1 e.wuid.length] else []) ++
    cryptSummary e

/-- The loop of `p25_patch_compose_details`. -/
def composeLoop (cap : ℕ) : Table → ℕ × List Char → ℕ × List Char
  | [], s => s
  | e :: t, s =>
    if !e.active then composeLoop cap t s
    else
      let s := if s.1 > 0 then patchAppend cap s "; ".toList else s
      let s := (entryPieces e).foldl (patchAppend cap) s
      if (s.1 : ℤ) ≥ cap - 8 then s else composeLoop cap t s

/-- `p25_patch_compose_details`: the count, the text and the swept table. -/
def composeDetails (now : ℤ) (t : Table) (cap : ℕ) : (ℕ × List Char) × Table :=
  if cap = 0 then ((0, []), t)
  else (composeLoop cap (sweepStale now t) (0, []), sweepStale now t)

/-- `p25_patch_tg_key_is_clear`: the first live patch with the talkgroup decides. -/
def tgKeyIsClear (now : ℤ) (t : Table) (tg : ℤ) : Bool :=
  if tg ≤ 0 then false
  else
    match t.find? fun e => e.active && !e.isStale now && e.wgid.contains (BitVec.ofInt 16 tg) with
    | some e => e.keyValid && e.key = 0
    | none => false

/-- `p25_patch_sg_key_is_clear`. -/
def sgKeyIsClear (now : ℤ) (t : Table) (sgid : ℤ) : Bool :=
  if sgid ≤ 0 then false
  else
    match t.find? fun e => e.active && e.sgid = asSgid sgid && !e.isStale now with
    | some e => e.keyValid && e.key = 0
    | none => false

/-- `p25_patch_collect_active_wgids`: the count, and what it stores in `cap` places. -/
def collectActiveWgids (now : ℤ) (t : Table) (sgid : ℤ) (cap : ℕ) : ℕ × List (BitVec 16) :=
  if !inRange16 sgid then (0, [])
  else
    match t.find? (·.sgid = asSgid sgid) with
    | some e => if !e.active || e.isStale now then (0, []) else (e.wgid.length, e.wgid.take cap)
    | none => (0, [])

/-- One call that may change the table. -/
inductive Call where
  | update (sgid : ℤ) (isPatch active : Bool)
  | addWgid (sgid wgid : ℤ)
  | addWuid (sgid : ℤ) (wuid : BitVec 32)
  | removeWgid (sgid wgid : ℤ)
  | clearSg (sgid : ℤ)
  | prepareGrgUpdate (sgid : ℤ) (isPatch active : Bool) (ssn : ℤ)
  | setKas (sgid key alg ssn : ℤ)
  | composeDetails (cap : ℕ)
  deriving DecidableEq

/-- The table after a call. -/
def step (now : ℤ) (t : Table) : Call → Table
  | .update sgid isPatch active => patchUpdate now t sgid isPatch active
  | .addWgid sgid wgid => addWgid now t sgid wgid
  | .addWuid sgid wuid => addWuid now t sgid wuid
  | .removeWgid sgid wgid => removeWgid t sgid wgid
  | .clearSg sgid => clearSg now t sgid
  | .prepareGrgUpdate sgid isPatch active ssn => prepareGrgUpdate now t sgid isPatch active ssn
  | .setKas sgid key alg ssn => setKas now t sgid key alg ssn
  | .composeDetails cap => (composeDetails now t cap).2

/-- Calls with the decode clock at each of them. -/
abbrev Calls := List (ℤ × Call)

/-- The table after calls. -/
def run (t : Table) (calls : Calls) : Table := calls.foldl (fun t c => step c.1 t c.2) t

/-- Whether a call draws the status text. -/
def Call.isDisplay : Call → Bool
  | .composeDetails _ => true
  | _ => false

/-- Calls without those that draw the status text. -/
def undisplayed (calls : Calls) : Calls := calls.filter fun c => !c.2.isDisplay

/-- The clock never runs backwards, and a later time is no earlier than its last value. -/
def Clocked (calls : Calls) (later : ℤ) : Prop := (calls.map Prod.fst ++ [later]).Pairwise (· ≤ ·)

instance (calls : Calls) (later : ℤ) : Decidable (Clocked calls later) :=
  inferInstanceAs (Decidable (List.Pairwise _ _))

theorem findPatchIdx_cons (e : Entry) (t : Table) (sgid : BitVec 16) :
    findPatchIdx (e :: t) sgid =
      if e.sgid = sgid then some 0 else (findPatchIdx t sgid).map (· + 1) := by
  simp only [findPatchIdx, findIdx?_cons, decide_eq_true_eq]

theorem hasPatch_cons (e : Entry) (t : Table) (sgid : BitVec 16) :
    hasPatch (e :: t) sgid = (decide (e.sgid = sgid) || hasPatch t sgid) := by
  rw [hasPatch, findPatchIdx_cons]
  by_cases h : e.sgid = sgid
  · simp [h]
  · simp [h, hasPatch]

theorem editFound_cons (e : Entry) (t : Table) (sgid : BitVec 16) (f : Entry → Entry) :
    editFound (e :: t) sgid f = if e.sgid = sgid then f e :: t else e :: editFound t sgid f := by
  rw [editFound, findPatchIdx_cons]
  by_cases h : e.sgid = sgid
  · rw [if_pos h, if_pos h]
    rfl
  · rw [if_neg h, if_neg h, editFound]
    cases findPatchIdx t sgid <;> rfl

theorem editFound_of_not_hasPatch {t : Table} {sgid : BitVec 16} (h : hasPatch t sgid = false)
    (f : Entry → Entry) : editFound t sgid f = t := by
  rw [editFound]
  rw [hasPatch, Option.isSome_eq_false_iff, Option.isNone_iff_eq_none] at h
  rw [h]

variable {f : Entry → Entry}

theorem hasPatch_editFound {t : Table} {sgid : BitVec 16} (hf : ∀ e, (f e).sgid = e.sgid) :
    hasPatch (editFound t sgid f) sgid = hasPatch t sgid := by
  induction t with
  | nil => rfl
  | cons e t ih =>
    rw [editFound_cons]
    split
    · rw [hasPatch_cons, hasPatch_cons, hf]
    · rw [hasPatch_cons, hasPatch_cons, ih]

theorem exists_of_hasPatch {t : Table} {sgid : BitVec 16} (h : hasPatch t sgid = true) :
    ∃ e ∈ t, e.sgid = sgid := by
  induction t with
  | nil => cases h
  | cons e t ih =>
    rw [hasPatch_cons, Bool.or_eq_true, decide_eq_true_eq] at h
    rcases h with heq | hrest
    · exact ⟨e, mem_cons_self, heq⟩
    · obtain ⟨d, hd, hsg⟩ := ih hrest
      exact ⟨d, mem_cons_of_mem _ hd, hsg⟩

theorem mem_editFound {t : Table} {sgid : BitVec 16} {e : Entry} (h : e ∈ editFound t sgid f) :
    e ∈ t ∨ ∃ d ∈ t, d.sgid = sgid ∧ e = f d := by
  induction t with
  | nil => exact absurd h not_mem_nil
  | cons d t ih =>
    rw [editFound_cons] at h
    split at h
    · rename_i heq
      rcases mem_cons.mp h with rfl | hmem
      · exact Or.inr ⟨d, mem_cons_self, heq, rfl⟩
      · exact Or.inl (mem_cons_of_mem _ hmem)
    · rcases mem_cons.mp h with rfl | hmem
      · exact Or.inl mem_cons_self
      · rcases ih hmem with hold | ⟨c, hc, hsg, rfl⟩
        · exact Or.inl (mem_cons_of_mem _ hold)
        · exact Or.inr ⟨c, mem_cons_of_mem _ hc, hsg, rfl⟩

theorem mem_insertEntry {t : Table} {e d : Entry} {now : ℤ} (h : d ∈ insertEntry t e now) :
    d ∈ t ∨ d = e := by
  rw [insertEntry] at h
  split at h
  · exact (mem_append.mp h).imp_right mem_singleton.mp
  · split at h
    · exact mem_or_eq_of_mem_set h
    · exact Or.inl h

/-- Forgetting the context of an entry where a new command changes it. -/
def contextFor (ssn : ℤ) (e : Entry) : Entry :=
  if e.active ∧ ssn ≥ 0 ∧ e.ssn ≠ BitVec.ofInt 8 (ssn % 32) then e.clearContext else e

theorem contextFor_frame (ssn : ℤ) (e : Entry) :
    (contextFor ssn e).sgid = e.sgid ∧ (contextFor ssn e).lastUpdate = e.lastUpdate := by
  rw [contextFor]
  split <;> exact ⟨rfl, rfl⟩

theorem map_sgid_editFound {t : Table} {sgid : BitVec 16} (hf : ∀ e, (f e).sgid = e.sgid) :
    (editFound t sgid f).map Entry.sgid = t.map Entry.sgid := by
  induction t with
  | nil => rfl
  | cons e t ih =>
    rw [editFound_cons]
    split
    · rw [map_cons, map_cons, hf]
    · rw [map_cons, map_cons, ih]

theorem hasPatch_eq_false {t : Table} {sgid : BitVec 16} (h : hasPatch t sgid = false) :
    sgid ∉ t.map Entry.sgid := by
  induction t with
  | nil => exact not_mem_nil
  | cons e t ih =>
    rw [hasPatch_cons, Bool.or_eq_false_iff, decide_eq_false_iff_not] at h
    rw [map_cons, mem_cons, not_or]
    exact ⟨fun heq => h.1 heq.symm, ih h.2⟩

theorem nodup_editFound {t : Table} (h : (t.map Entry.sgid).Nodup) {sgid : BitVec 16}
    (hf : ∀ e, (f e).sgid = e.sgid) : ((editFound t sgid f).map Entry.sgid).Nodup := by
  rw [map_sgid_editFound hf]
  exact h

theorem nodup_insertEntry {t : Table} {e : Entry} {now : ℤ} (h : (t.map Entry.sgid).Nodup)
    (hnew : e.sgid ∉ t.map Entry.sgid) : ((insertEntry t e now).map Entry.sgid).Nodup := by
  rw [insertEntry]
  split
  · rw [map_append, map_singleton]
    refine nodup_append.mpr ⟨h, nodup_singleton _, ?_⟩
    intro sgid hsgid d hd
    rcases mem_singleton.mp hd with rfl
    exact fun heq => hnew (heq ▸ hsgid)
  · split
    · rw [map_set]
      exact h.set hnew
    · exact h

/-- Members counted once each, none of them zero, and no more than there are places. -/
structure Members {w : ℕ} (members : List (BitVec w)) : Prop where
  nodup : members.Nodup
  few : members.length ≤ 8
  nonzero : 0 ∉ members

/-- What every entry keeps to: no key is set that is not marked valid, and an SSN has five bits. -/
structure Entry.Kept (e : Entry) : Prop where
  sgid : e.sgid ≠ 0
  wgid : Members e.wgid
  wuid : Members e.wuid
  key : e.keyValid = false → e.key = 0
  ssn : e.ssn.toNat < 32

variable {t : Table} {now sgid : ℤ}

theorem members_nil {w : ℕ} : Members ([] : List (BitVec w)) :=
  ⟨nodup_nil, Nat.zero_le _, not_mem_nil⟩

theorem Members.add {w : ℕ} {members : List (BitVec w)} (h : Members members) {m : BitVec w}
    (hm : m ≠ 0) : Members (addMember members m) := by
  rw [addMember]
  split
  · exact h
  · rename_i hroom
    rw [not_or, contains_iff_mem, ge_iff_le, Nat.not_le] at hroom
    rw [← concat_eq_append]
    refine ⟨h.nodup.concat hroom.1, ?_, ?_⟩
    · rw [length_concat]
      exact hroom.2
    · rw [concat_eq_append, mem_append, mem_singleton, not_or]
      exact ⟨h.nonzero, hm.symm⟩

/-- The last member moves to where one is dropped. -/
theorem dropMember_subperm (members : List (BitVec 16)) (m : BitVec 16) :
    (dropMember members m).Subperm members := by
  rw [dropMember]
  cases hi : members.findIdx? (· = m) with
  | none => exact .refl _
  | some i =>
    obtain ⟨hlt, -, -⟩ := findIdx?_eq_some_iff_getElem.mp hi
    obtain ⟨front, last, rfl⟩ := (eq_nil_or_concat members).resolve_left
      (ne_nil_of_length_pos (Nat.zero_lt_of_lt hlt))
    rw [length_concat] at hlt
    rw [concat_eq_append, getLastD_concat]
    dsimp only
    rcases Nat.lt_succ_iff_lt_or_eq.mp hlt with hbefore | rfl
    · rw [set_append_left _ _ hbefore, dropLast_concat]
      refine (set_perm_cons_eraseIdx hbefore last).subperm.trans ?_
      exact ((eraseIdx_sublist front i).cons_cons last).subperm.trans
        (perm_append_singleton last front).symm.subperm
    · rw [set_append_right _ _ (Nat.le_refl _), Nat.sub_self, set_cons_zero, dropLast_concat]
      exact (sublist_append_left _ _).subperm

theorem Members.drop {members : List (BitVec 16)} (h : Members members) (m : BitVec 16) :
    Members (dropMember members m) := by
  have hsub := dropMember_subperm members m
  refine ⟨?_, Nat.le_trans hsub.length_le h.few, fun hmem => h.nonzero (hsub.subset hmem)⟩
  obtain ⟨rest, hperm, hrest⟩ := hsub
  exact hperm.nodup_iff.mp (h.nodup.sublist hrest)

theorem asSgid_ne_zero {v : ℤ} (h : inRange16 v = true) : BitVec.ofInt 16 v ≠ 0 := by
  rw [inRange16, Bool.and_eq_true, decide_eq_true_eq, decide_eq_true_eq] at h
  intro hzero
  have hint := congrArg BitVec.toNat hzero
  rw [BitVec.toNat_ofInt] at hint
  simp at hint
  omega

theorem ofInt_ssn_lt (ssn : ℤ) : (BitVec.ofInt 8 (ssn % 32)).toNat < 32 := by
  rw [BitVec.toNat_ofInt]
  omega

/-- What a call may make of an entry. -/
structure Edits (f : Entry → Entry) : Prop where
  sgid : ∀ e, (f e).sgid = e.sgid
  kept : ∀ e : Entry, e.Kept → (f e).Kept

/-- What edits, new entries and the sweep keep. -/
structure Lasting (P : Table → Prop) : Prop where
  edit : ∀ {t}, P t → ∀ (s : BitVec 16) {f}, Edits f → P (editFound t s f)
  insert : ∀ {t}, P t → ∀ {e : Entry}, e.Kept → e.sgid ∉ t.map Entry.sgid → ∀ now,
    P (insertEntry t e now)
  sweep : ∀ {t}, P t → ∀ p, P (t.filter p)

variable {P : Table → Prop}

theorem Lasting.patchUpdate (h : Lasting P) (ht : P t) (isPatch active : Bool) :
    P (patchUpdate now t sgid isPatch active) := by
  rw [Patch.patchUpdate]
  split
  · exact ht
  · rename_i hrange
    split
    · exact h.edit ht _ ⟨fun _ => rfl, fun _ he => ⟨he.sgid, he.wgid, he.wuid, he.key, he.ssn⟩⟩
    · rename_i hnone
      rw [Bool.not_eq_true, Bool.not_eq_false'] at hrange
      have hkept : (newEntry (asSgid sgid) isPatch active now).Kept :=
        ⟨asSgid_ne_zero hrange, members_nil, members_nil, fun _ => rfl, Nat.zero_lt_succ 31⟩
      exact h.insert ht hkept (hasPatch_eq_false (Bool.eq_false_iff.mpr hnone)) now

theorem Lasting.ensurePatch (h : Lasting P) (ht : P t) : P (ensurePatch now t sgid) := by
  rw [Patch.ensurePatch]
  split
  · exact ht
  · exact h.patchUpdate ht true true

theorem Lasting.clearSg (h : Lasting P) (ht : P t) : P (clearSg now t sgid) := by
  rw [Patch.clearSg]
  split
  · exact ht
  · exact h.edit ht _ ⟨fun _ => rfl, fun _ he =>
      ⟨he.sgid, members_nil, members_nil, fun _ => rfl, Nat.zero_lt_succ 31⟩⟩

theorem Lasting.step (h : Lasting P) (ht : P t) (c : Call) : P (step now t c) := by
  cases c with
  | update sgid isPatch active => exact h.patchUpdate ht isPatch active
  | addWgid sgid wgid =>
    rw [Patch.step, addWgid]
    split
    · exact ht
    · rename_i hrange
      rw [Bool.or_eq_true, not_or, Bool.not_eq_true', Bool.not_eq_false] at hrange
      exact h.edit (h.ensurePatch ht) _ ⟨fun _ => rfl, fun _ he => ⟨he.sgid,
        he.wgid.add (asSgid_ne_zero (by simpa using hrange.2)), he.wuid, he.key, he.ssn⟩⟩
  | addWuid sgid wuid =>
    rw [Patch.step, addWuid]
    split
    · exact ht
    · rename_i hrange
      rw [Bool.or_eq_true, not_or, decide_eq_true_eq] at hrange
      exact h.edit (h.ensurePatch ht) _ ⟨fun _ => rfl, fun _ he =>
        ⟨he.sgid, he.wgid, he.wuid.add hrange.2, he.key, he.ssn⟩⟩
  | removeWgid sgid wgid =>
    rw [Patch.step, removeWgid]
    split
    · exact ht
    · exact h.edit ht _ ⟨fun _ => rfl, fun _ he =>
        ⟨he.sgid, he.wgid.drop _, he.wuid, he.key, he.ssn⟩⟩
  | clearSg sgid => exact h.clearSg ht
  | prepareGrgUpdate sgid isPatch active ssn =>
    rw [Patch.step, prepareGrgUpdate]
    split
    · exact ht
    · split
      · refine h.edit (h.clearSg ?_) _ ⟨fun _ => rfl, fun _ he =>
          ⟨he.sgid, he.wgid, he.wuid, he.key, he.ssn⟩⟩
        split
        · exact ht
        · exact h.patchUpdate ht isPatch false
      · refine h.patchUpdate (h.edit ht _ ⟨fun e => (contextFor_frame ssn e).1, fun e he => ?_⟩)
          isPatch true
        rw [contextFor]
        split
        · exact ⟨he.sgid, members_nil, members_nil, fun _ => rfl, Nat.zero_lt_succ 31⟩
        · exact he
  | setKas sgid key alg ssn =>
    rw [Patch.step, setKas]
    split
    · exact ht
    · refine h.edit (h.ensurePatch ht) _ ⟨fun _ => rfl, fun e he =>
        ⟨he.sgid, he.wgid, he.wuid, fun hvalid => ?_, ?_⟩⟩
      · rw [Bool.or_eq_false_iff, decide_eq_false_iff_not] at hvalid
        exact (if_neg hvalid.2).trans (he.key hvalid.1)
      · dsimp only
        split
        · exact ofInt_ssn_lt ssn
        · exact he.ssn
  | composeDetails cap =>
    rw [Patch.step, composeDetails]
    split
    · exact ht
    · exact h.sweep ht _

theorem Lasting.run (h : Lasting P) (ht : P t) (calls : Calls) : P (run t calls) := by
  induction calls generalizing t with
  | nil => exact ht
  | cons c calls ih => exact ih (h.step ht c.2)

theorem lasting_nodup : Lasting fun t => (t.map Entry.sgid).Nodup where
  edit h _ _ hf := nodup_editFound h hf.sgid
  insert h _ _ hnew _ := nodup_insertEntry h hnew
  sweep h _ := h.sublist (filter_sublist.map Entry.sgid)

/-- Every call keeps one entry for each supergroup. -/
theorem nodup_step {t : Table} (h : (t.map Entry.sgid).Nodup) (now : ℤ) (c : Call) :
    ((step now t c).map Entry.sgid).Nodup := lasting_nodup.step h c

theorem nodup_run {t : Table} (h : (t.map Entry.sgid).Nodup) (calls : Calls) :
    ((run t calls).map Entry.sgid).Nodup := lasting_nodup.run h calls

theorem lasting_few : Lasting fun t => t.length ≤ patchMax where
  edit h s f hf := by
    rw [← length_map Entry.sgid, map_sgid_editFound hf.sgid, length_map]
    exact h
  insert h e _ _ now := by
    rw [insertEntry]
    split
    · rename_i hroom
      rw [length_append]
      exact hroom
    · split
      · rw [length_set]
        exact h
      · exact h
  sweep h _ := Nat.le_trans (length_filter_le _ _) h

theorem lasting_kept : Lasting fun t => ∀ e ∈ t, e.Kept where
  edit h _ _ hf e he := by
    rcases mem_editFound he with hold | ⟨d, hd, -, rfl⟩
    · exact h e hold
    · exact hf.kept d (h d hd)
  insert h e hkept _ now d hd := by
    rcases mem_insertEntry hd with hold | rfl
    · exact h d hold
    · exact hkept
  sweep h _ e he := h e (mem_of_mem_filter he)

/-- The key a supergroup was last given, after a call: its own calls give one and clear it. -/
def Call.give (sgid : BitVec 16) (key : Option (BitVec 16)) : Call → Option (BitVec 16)
  | .setKas s k _ _ =>
    if 0 < s ∧ asSgid s = sgid ∧ 0 ≤ k then some (BitVec.ofInt 16 k) else key
  | .clearSg s => if 0 < s ∧ asSgid s = sgid then none else key
  | _ => key

/-- The key the calls gave a supergroup last, where they have not cleared it since. -/
def keyGiven (calls : Calls) (sgid : BitVec 16) : Option (BitVec 16) :=
  calls.foldl (fun key c => c.2.give sgid key) none

/-- Every valid key of a table is the one its supergroup was given. -/
def Told (t : Table) (given : BitVec 16 → Option (BitVec 16)) : Prop :=
  ∀ e ∈ t, e.keyValid = true → given e.sgid = some e.key

/-- Every valid key of the second table is that of the same supergroup in the first. -/
def Inherits (t t' : Table) : Prop :=
  ∀ e' ∈ t', e'.keyValid = true →
    ∃ e ∈ t, e.sgid = e'.sgid ∧ e.keyValid = true ∧ e.key = e'.key

theorem Inherits.refl (t : Table) : Inherits t t := fun e he hvalid => ⟨e, he, rfl, hvalid, rfl⟩

theorem Inherits.trans {t t' t'' : Table} (h : Inherits t t') (h' : Inherits t' t'') :
    Inherits t t'' := by
  intro e he hvalid
  obtain ⟨e', he', hsgid', hvalid', hkey'⟩ := h' e he hvalid
  obtain ⟨d, hd, hsgid, hvalid, hkey⟩ := h e' he' hvalid'
  exact ⟨d, hd, hsgid.trans hsgid', hvalid, hkey.trans hkey'⟩

variable {given : BitVec 16 → Option (BitVec 16)}

theorem Inherits.told {t t' : Table} (h : Inherits t t') (ht : Told t given) : Told t' given := by
  intro e he hvalid
  obtain ⟨d, hd, hsgid, hvalid, hkey⟩ := h e he hvalid
  rw [← hsgid, ← hkey]
  exact ht d hd hvalid

/-- An edit that sets no key. -/
structure Unkeyed (f : Entry → Entry) : Prop where
  sgid : ∀ e, (f e).sgid = e.sgid
  key : ∀ e, (f e).keyValid = true → e.keyValid = true ∧ e.key = (f e).key

theorem inherits_editFound (t : Table) (s : BitVec 16) (hf : Unkeyed f) :
    Inherits t (editFound t s f) := by
  intro e he hvalid
  rcases mem_editFound he with hold | ⟨d, hd, -, rfl⟩
  · exact ⟨e, hold, rfl, hvalid, rfl⟩
  · exact ⟨d, hd, (hf.sgid d).symm, hf.key d hvalid⟩

theorem inherits_patchUpdate (now : ℤ) (t : Table) (sgid : ℤ) (isPatch active : Bool) :
    Inherits t (patchUpdate now t sgid isPatch active) := by
  rw [Patch.patchUpdate]
  split
  · exact .refl t
  · split
    · exact inherits_editFound t _ ⟨fun _ => rfl, fun _ hvalid => ⟨hvalid, rfl⟩⟩
    · intro e he hvalid
      rcases mem_insertEntry he with hold | rfl
      · exact ⟨e, hold, rfl, hvalid, rfl⟩
      · cases hvalid

theorem inherits_ensurePatch (now : ℤ) (t : Table) (sgid : ℤ) :
    Inherits t (ensurePatch now t sgid) := by
  rw [Patch.ensurePatch]
  split
  · exact .refl t
  · exact inherits_patchUpdate now t sgid true true

theorem inherits_clearSg (now : ℤ) (t : Table) (sgid : ℤ) : Inherits t (clearSg now t sgid) := by
  rw [Patch.clearSg]
  split
  · exact .refl t
  · exact inherits_editFound t _ ⟨fun _ => rfl, fun _ hvalid => by cases hvalid⟩

/-- Only a call that sets a key sets one. -/
theorem inherits_step (now : ℤ) (t : Table) (c : Call) (hc : ∀ s k a n, c ≠ .setKas s k a n) :
    Inherits t (step now t c) := by
  cases c with
  | setKas s k a n => exact absurd rfl (hc s k a n)
  | update sgid isPatch active => exact inherits_patchUpdate now t sgid isPatch active
  | clearSg sgid => exact inherits_clearSg now t sgid
  | addWgid sgid wgid =>
    rw [Patch.step, addWgid]
    split
    · exact .refl t
    · exact (inherits_ensurePatch now t sgid).trans
        (inherits_editFound _ _ ⟨fun _ => rfl, fun _ hvalid => ⟨hvalid, rfl⟩⟩)
  | addWuid sgid wuid =>
    rw [Patch.step, addWuid]
    split
    · exact .refl t
    · exact (inherits_ensurePatch now t sgid).trans
        (inherits_editFound _ _ ⟨fun _ => rfl, fun _ hvalid => ⟨hvalid, rfl⟩⟩)
  | removeWgid sgid wgid =>
    rw [Patch.step, removeWgid]
    split
    · exact .refl t
    · exact inherits_editFound t _ ⟨fun _ => rfl, fun _ hvalid => ⟨hvalid, rfl⟩⟩
  | prepareGrgUpdate sgid isPatch active ssn =>
    rw [Patch.step, prepareGrgUpdate]
    split
    · exact .refl t
    · split
      · refine Inherits.trans ?_ ((inherits_clearSg now _ sgid).trans
          (inherits_editFound _ _ ⟨fun _ => rfl, fun _ hvalid => ⟨hvalid, rfl⟩⟩))
        split
        · exact .refl t
        · exact inherits_patchUpdate now t sgid isPatch false
      · refine (inherits_editFound t _ (f := contextFor ssn) ⟨fun e => (contextFor_frame ssn e).1,
          fun e hvalid => ?_⟩).trans (inherits_patchUpdate now _ sgid isPatch true)
        rw [contextFor] at hvalid ⊢
        split at hvalid
        · cases hvalid
        · rename_i hsame
          rw [if_neg hsame]
          exact ⟨hvalid, rfl⟩
  | composeDetails cap =>
    rw [Patch.step, composeDetails]
    split
    · exact .refl t
    · exact fun e he hvalid => ⟨e, mem_of_mem_filter he, rfl, hvalid, rfl⟩

/-- Where a supergroup has one entry, an edit of it leaves none as it was. -/
theorem mem_editFound_nodup (h : (t.map Entry.sgid).Nodup) {s : BitVec 16} {e : Entry}
    (he : e ∈ editFound t s f) : e ∈ t ∧ e.sgid ≠ s ∨ ∃ d ∈ t, d.sgid = s ∧ e = f d := by
  induction t with
  | nil => exact absurd he not_mem_nil
  | cons d t ih =>
    rw [map_cons, nodup_cons] at h
    rw [editFound_cons] at he
    split at he
    · rename_i heq
      rcases mem_cons.mp he with rfl | hmem
      · exact Or.inr ⟨d, mem_cons_self, heq, rfl⟩
      · refine Or.inl ⟨mem_cons_of_mem _ hmem, fun hsame => h.1 ?_⟩
        rw [heq, ← hsame]
        exact mem_map_of_mem hmem
    · rename_i hne
      rcases mem_cons.mp he with rfl | hmem
      · exact Or.inl ⟨mem_cons_self, hne⟩
      · rcases ih h.2 hmem with ⟨hold, hother⟩ | ⟨c, hc, hsgid, rfl⟩
        · exact Or.inl ⟨mem_cons_of_mem _ hold, hother⟩
        · exact Or.inr ⟨c, mem_cons_of_mem _ hc, hsgid, rfl⟩

theorem told_setKas (hnodup : (t.map Entry.sgid).Nodup) (h : Told t given)
    (now sgid key alg ssn : ℤ) :
    Told (setKas now t sgid key alg ssn)
      fun s => Call.give s (given s) (.setKas sgid key alg ssn) := by
  rw [setKas]
  split
  · rename_i hnone
    intro e he hvalid
    refine Eq.trans (if_neg fun hgiven => ?_) (h e he hvalid)
    exact absurd hgiven.1 (Int.not_lt.mpr hnone)
  · rename_i hsome
    have hensured := (inherits_ensurePatch now t sgid).told h
    intro e he hvalid
    rcases mem_editFound_nodup (lasting_nodup.ensurePatch hnodup) he with
      ⟨hold, hother⟩ | ⟨d, hd, hsgid, rfl⟩
    · exact (if_neg fun hgiven => hother hgiven.2.1.symm).trans (hensured e hold hvalid)
    · dsimp only at hvalid ⊢
      by_cases hkey : key ≥ 0
      · rw [if_pos hkey]
        exact if_pos ⟨Int.not_le.mp hsome, hsgid.symm, hkey⟩
      · rw [if_neg hkey]
        rw [decide_eq_false hkey, Bool.or_false] at hvalid
        exact (if_neg fun hgiven => hkey hgiven.2.2).trans (hensured d hd hvalid)

theorem told_clearSg (hnodup : (t.map Entry.sgid).Nodup) (h : Told t given) (now sgid : ℤ) :
    Told (clearSg now t sgid) fun s => Call.give s (given s) (.clearSg sgid) := by
  rw [clearSg]
  split
  · rename_i hnone
    intro e he hvalid
    refine Eq.trans (if_neg fun hgiven => ?_) (h e he hvalid)
    exact absurd hgiven.1 (Int.not_lt.mpr hnone)
  · intro e he hvalid
    rcases mem_editFound_nodup hnodup he with ⟨hold, hother⟩ | ⟨d, hd, hsgid, rfl⟩
    · exact (if_neg fun hgiven => hother hgiven.2.symm).trans (h e hold hvalid)
    · cases hvalid

theorem told_step (hnodup : (t.map Entry.sgid).Nodup) (h : Told t given) (now : ℤ) (c : Call) :
    Told (step now t c) fun s => c.give s (given s) := by
  cases c with
  | setKas sgid key alg ssn => exact told_setKas hnodup h now sgid key alg ssn
  | clearSg sgid => exact told_clearSg hnodup h now sgid
  | _ => exact (inherits_step now t _ (by simp)).told h

/-- Every valid key of the table is the one its supergroup was given last. -/
theorem told_run (hnodup : (t.map Entry.sgid).Nodup) (h : Told t given) (calls : Calls) :
    Told (run t calls) fun s => calls.foldl (fun key c => c.2.give s key) (given s) := by
  induction calls generalizing t given with
  | nil => exact h
  | cons c calls ih => exact ih (nodup_step hnodup c.1 c.2) (told_step hnodup h c.1 c.2)

/-- Whatever calls are made, the table has at most eight entries, one for each supergroup, with
members counted once, no key but the one its supergroup was given last and not cleared of since, and
an SSN of five bits. -/
theorem run_keeps_table (calls : Calls) :
    (run [] calls).length ≤ patchMax ∧ ((run [] calls).map Entry.sgid).Nodup ∧
      ∀ e ∈ run [] calls, e.Kept ∧ (e.keyValid = true → keyGiven calls e.sgid = some e.key) := by
  have hnodup : ((run [] calls).map Entry.sgid).Nodup := nodup_run (t := []) nodup_nil calls
  have hkept : ∀ e ∈ run [] calls, e.Kept :=
    lasting_kept.run (fun _ h => absurd h not_mem_nil) calls
  have htold : Told (run [] calls) (keyGiven calls) :=
    told_run (t := []) nodup_nil (fun _ h => absurd h not_mem_nil) calls
  exact ⟨lasting_few.run (Nat.zero_le _) calls, hnodup, fun e he => ⟨hkept e he, htold e he⟩⟩

end DsdNeo.P25.Patch
