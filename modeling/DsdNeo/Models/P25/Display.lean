import DsdNeo.Models.P25.Patch

/-!
# The status text and the answers

Drawing the status text sweeps stale entries out of the table. The answers never read a stale
entry, so two tables that differ in stale entries alone answer alike. They stay so under every call
that leaves the stale entries alone: one that names none of their supergroups, and needs none of
their places.
-/

namespace DsdNeo.P25.Patch

open List

/-- The second table is the first without some of its stale entries. -/
inductive Thinned (now : ℤ) : Table → Table → Prop where
  | nil : Thinned now [] []
  | keep (e : Entry) {t t' : Table} : Thinned now t t' → Thinned now (e :: t) (e :: t')
  | drop {e : Entry} {t t' : Table} : e.isStale now = true → Thinned now t t' →
      Thinned now (e :: t) t'

/-- No stale entry of the table belongs to a supergroup. -/
def Untouched (now : ℤ) (t : Table) (sgid : BitVec 16) : Prop :=
  ∀ e ∈ t, e.isStale now = true → e.sgid ≠ sgid

variable {now sgid : ℤ}

theorem isStale_mono {e : Entry} {later : ℤ} (h : now ≤ later) (hs : e.isStale now = true) :
    e.isStale later = true := by
  simp only [Entry.isStale, Bool.and_eq_true, decide_eq_true_eq] at hs ⊢
  exact ⟨hs.1, by omega⟩

theorem isStale_now (e : Entry) (h : e.lastUpdate = now) : e.isStale now = false := by
  simp [Entry.isStale, h, patchTtlSeconds]

namespace Thinned

variable {now : ℤ} {t t' : Table}

theorem refl (now : ℤ) (t : Table) : Thinned now t t := by
  induction t with
  | nil => exact .nil
  | cons e t ih => exact .keep e ih

theorem later {now' : ℤ} (h : Thinned now t t') (hle : now ≤ now') : Thinned now' t t' := by
  induction h with
  | nil => exact .nil
  | keep e _ ih => exact .keep e ih
  | drop hs _ ih => exact .drop (isStale_mono hle hs) ih

theorem sweep (h : Thinned now t t') : Thinned now t (sweepStale now t') := by
  induction h with
  | nil => exact .nil
  | @keep e t t' _ ih =>
    rw [sweepStale]
    cases hs : e.isStale now with
    | true =>
      rw [filter_cons_of_neg (by simp [hs])]
      exact .drop hs ih
    | false =>
      rw [filter_cons_of_pos (by simp [hs])]
      exact .keep e ih
  | drop hs _ ih => exact .drop hs ih

theorem append (h : Thinned now t t') (e : Entry) : Thinned now (t ++ [e]) (t' ++ [e]) := by
  induction h with
  | nil => exact refl now [e]
  | keep d _ ih => exact .keep d ih
  | drop hs _ ih => exact .drop hs ih

theorem length_le (h : Thinned now t t') : t'.length ≤ t.length := by
  induction h with
  | nil => exact Nat.le_refl 0
  | keep _ _ ih => exact Nat.succ_le_succ ih
  | drop _ _ ih => exact Nat.le_succ_of_le ih

theorem eq_of_live (h : Thinned now t t') (hlive : ∀ e ∈ t, e.isStale now = false) : t' = t := by
  induction h with
  | nil => rfl
  | keep e _ ih => rw [ih fun d hd => hlive d (mem_cons_of_mem _ hd)]
  | @drop e t t' hs _ _ =>
    have hfalse := hlive e mem_cons_self
    rw [hs] at hfalse
    cases hfalse

/-- Looking for an entry that is live finds the same one in both. -/
theorem find?_eq (h : Thinned now t t') {p : Entry → Bool}
    (hp : ∀ e ∈ t, p e = true → e.isStale now = false) : t'.find? p = t.find? p := by
  induction h with
  | nil => rfl
  | keep e _ ih =>
    have hrest := ih fun d hd => hp d (mem_cons_of_mem _ hd)
    rw [find?_cons, find?_cons, hrest]
  | @drop e t t' hs _ ih =>
    have hrest := ih fun d hd => hp d (mem_cons_of_mem _ hd)
    have hno : p e = false := by
      cases hpe : p e with
      | false => rfl
      | true =>
        have hlive := hp e mem_cons_self hpe
        rw [hs] at hlive
        cases hlive
    rw [find?_cons, hno, hrest]

theorem mem (h : Thinned now t t') {e : Entry} (he : e ∈ t') : e ∈ t := by
  induction h with
  | nil => exact he
  | keep d _ ih =>
    rcases mem_cons.mp he with rfl | hmem
    · exact mem_cons_self
    · exact mem_cons_of_mem _ (ih hmem)
  | drop _ _ ih => exact mem_cons_of_mem _ (ih he)

end Thinned

theorem Untouched.tail {now : ℤ} {e : Entry} {t : Table} {sgid : BitVec 16}
    (h : Untouched now (e :: t) sgid) : Untouched now t sgid :=
  fun d hd => h d (mem_cons_of_mem _ hd)

namespace Thinned

variable {now : ℤ} {t t' : Table} {sgid : BitVec 16}

theorem hasPatch_eq (h : Thinned now t t') (hu : Untouched now t sgid) :
    hasPatch t' sgid = hasPatch t sgid := by
  induction h with
  | nil => rfl
  | keep e _ ih => rw [hasPatch_cons, hasPatch_cons, ih hu.tail]
  | @drop e t t' hs _ ih =>
    have hne := hu e mem_cons_self hs
    rw [hasPatch_cons, ih hu.tail, decide_eq_false hne, Bool.false_or]

theorem editFound (h : Thinned now t t') (hu : Untouched now t sgid) (f : Entry → Entry) :
    Thinned now (editFound t sgid f) (Patch.editFound t' sgid f) := by
  induction h with
  | nil => exact .nil
  | keep e h ih =>
    rw [editFound_cons, editFound_cons]
    split
    · exact .keep (f e) h
    · exact .keep e (ih hu.tail)
  | @drop e t t' hs _ ih =>
    rw [editFound_cons, if_neg (hu e mem_cons_self hs)]
    exact .drop hs (ih hu.tail)

theorem editFound_keeping (h : Thinned now t t') (hn : (t.map Entry.sgid).Nodup)
    {f : Entry → Entry} (hf : ∀ e, (f e).lastUpdate = e.lastUpdate) :
    Thinned now (Patch.editFound t sgid f) (Patch.editFound t' sgid f) := by
  induction h with
  | nil => exact .nil
  | keep e h ih =>
    rw [editFound_cons, editFound_cons]
    split
    · exact .keep (f e) h
    · exact .keep e (ih (nodup_cons.mp hn).2)
  | @drop e t t' hs h ih =>
    rw [editFound_cons]
    split
    · rename_i heq
      -- the only entry of the supergroup is the one the second table lacks
      have hnone : hasPatch t' sgid = false := by
        rw [Bool.eq_false_iff]
        intro hhas
        obtain ⟨d, hd, hsg⟩ := exists_of_hasPatch hhas
        exact (nodup_cons.mp hn).1 (mem_map.mpr ⟨d, h.mem hd, hsg.trans heq.symm⟩)
      rw [editFound_of_not_hasPatch hnone]
      refine .drop ?_ h
      rw [Entry.isStale, hf]
      exact hs
    · exact .drop hs (ih (nodup_cons.mp hn).2)

end Thinned

variable {t t' : Table}

/-- An edit that keeps or refreshes the time leaves the stale entries of other supergroups. -/
theorem Untouched.editFound {sgid : BitVec 16} (hu : Untouched now t sgid) {f : Entry → Entry}
    (hf : ∀ e, (f e).sgid = e.sgid ∧ ((f e).lastUpdate = e.lastUpdate ∨ (f e).lastUpdate = now)) :
    Untouched now (editFound t sgid f) sgid := by
  intro e he hs
  rcases mem_editFound he with hold | ⟨d, hd, hsg, rfl⟩
  · exact hu e hold hs
  · obtain ⟨-, hsame | hnow⟩ := hf d
    · refine absurd hsg (hu d hd ?_)
      rw [Entry.isStale, hsame] at hs
      exact hs
    · rw [isStale_now (f d) hnow] at hs
      cases hs

/-- A full table holds no stale entry, or there is room. -/
def Roomy (now : ℤ) (t : Table) : Prop :=
  t.length < patchMax ∨ ∀ e ∈ t, e.isStale now = false

theorem Thinned.insertEntry (h : Thinned now t t') (hr : Roomy now t) (e : Entry) :
    Thinned now (insertEntry t e now) (Patch.insertEntry t' e now) := by
  rcases hr with hroom | hlive
  · rw [Patch.insertEntry, Patch.insertEntry, if_pos hroom,
      if_pos (Nat.lt_of_le_of_lt h.length_le hroom)]
    exact h.append e
  · rw [h.eq_of_live hlive]
    exact .refl now _

theorem Untouched.insertEntry {sgid : BitVec 16} (hu : Untouched now t sgid) {e : Entry}
    (he : e.lastUpdate = now) : Untouched now (insertEntry t e now) sgid := by
  intro d hd hs
  rcases mem_insertEntry hd with hold | rfl
  · exact hu d hold hs
  · rw [isStale_now d he] at hs
    cases hs

/-- The supergroup a call gives something: a time, a member, or a key. -/
def Call.target : Call → Option (BitVec 16)
  | .update sgid _ _ => if inRange16 sgid then some (asSgid sgid) else none
  | .addWgid sgid wgid => if inRange16 sgid && inRange16 wgid then some (asSgid sgid) else none
  | .addWuid sgid wuid => if inRange16 sgid && wuid ≠ 0 then some (asSgid sgid) else none
  | .removeWgid _ _ => none
  | .clearSg sgid => if sgid ≤ 0 then none else some (asSgid sgid)
  | .prepareGrgUpdate sgid _ _ _ => if inRange16 sgid then some (asSgid sgid) else none
  | .setKas sgid _ _ _ => if sgid ≤ 0 then none else some (asSgid sgid)
  | .composeDetails _ => none

/-- Whether a call gives its supergroup an entry where it has none. -/
def Call.creates : Call → Bool
  | .clearSg _ => false
  | _ => true

/-- A call that leaves the stale entries of the table alone: it gives none of them anything,
and adds no supergroup to a full table that holds one. -/
def LeavesStale (now : ℤ) (t : Table) (c : Call) : Prop :=
  ∀ sgid, c.target = some sgid → Untouched now t sgid ∧
    (c.creates = true → hasPatch t sgid = false → Roomy now t)

theorem leavesStale_of_live (h : ∀ e ∈ t, e.isStale now = false) (c : Call) :
    LeavesStale now t c := by
  refine fun sgid _ => ⟨fun e he hs => ?_, fun _ _ => Or.inr h⟩
  rw [h e he] at hs
  cases hs

section Step

variable {now : ℤ} {t t' : Table} (h : Thinned now t t')

include h

theorem Thinned.patchUpdate {sgid : ℤ} (hu : Untouched now t (asSgid sgid))
    (hr : hasPatch t (asSgid sgid) = false → Roomy now t) (isPatch active : Bool) :
    Thinned now (patchUpdate now t sgid isPatch active)
      (Patch.patchUpdate now t' sgid isPatch active) := by
  rw [Patch.patchUpdate, Patch.patchUpdate, h.hasPatch_eq hu]
  split
  · exact h
  · split
    · exact h.editFound hu _
    · exact h.insertEntry (hr (by simpa using ‹¬ hasPatch t (asSgid sgid) = true›)) _

theorem Thinned.ensurePatch {sgid : ℤ} (hu : Untouched now t (asSgid sgid))
    (hr : hasPatch t (asSgid sgid) = false → Roomy now t) :
    Thinned now (ensurePatch now t sgid) (Patch.ensurePatch now t' sgid) := by
  rw [Patch.ensurePatch, Patch.ensurePatch, h.hasPatch_eq hu]
  split
  · exact h
  · exact h.patchUpdate hu hr true true

end Step

theorem Untouched.patchUpdate {sg : BitVec 16} (hsg : sg = asSgid sgid) (hu : Untouched now t sg)
    (isPatch active : Bool) : Untouched now (patchUpdate now t sgid isPatch active) sg := by
  subst hsg
  rw [Patch.patchUpdate]
  split
  · exact hu
  · split
    · exact hu.editFound fun e => ⟨rfl, Or.inr rfl⟩
    · exact hu.insertEntry rfl

theorem Untouched.ensurePatch (hu : Untouched now t (asSgid sgid)) :
    Untouched now (ensurePatch now t sgid) (asSgid sgid) := by
  rw [Patch.ensurePatch]
  split
  · exact hu
  · exact hu.patchUpdate rfl true true

theorem Thinned.prepareInactive (h : Thinned now t t') (hu : Untouched now t (asSgid sgid))
    (hr : hasPatch t (asSgid sgid) = false → Roomy now t) (hin : inRange16 sgid = true)
    (isPatch : Bool) {ssn : ℤ} :
    Thinned now (prepareGrgUpdate now t sgid isPatch false ssn)
      (prepareGrgUpdate now t' sgid isPatch false ssn) := by
  have hpos : ¬ sgid ≤ 0 := by
    simp only [inRange16, Bool.and_eq_true, decide_eq_true_eq] at hin
    omega
  -- the entry a supergroup has, or the inactive one it is given
  have hentry : ∃ u u', Thinned now u u' ∧ Untouched now u (asSgid sgid) ∧
      (if hasPatch t (asSgid sgid) then t else Patch.patchUpdate now t sgid isPatch false) = u ∧
      (if hasPatch t' (asSgid sgid) then t' else Patch.patchUpdate now t' sgid isPatch false) =
        u' := by
    rw [h.hasPatch_eq hu]
    cases hhas : hasPatch t (asSgid sgid) with
    | true => exact ⟨t, t', h, hu, rfl, rfl⟩
    | false =>
      exact ⟨_, _, h.patchUpdate hu hr isPatch false, hu.patchUpdate rfl isPatch false, rfl, rfl⟩
  obtain ⟨u, u', huu, hclean, hl, hr'⟩ := hentry
  simp only [prepareGrgUpdate, hin, Bool.not_true, Bool.false_eq_true, if_false, Bool.not_false,
    if_true, hl, hr', clearSg, if_neg hpos]
  refine (huu.editFound hclean _).editFound (Untouched.editFound hclean ?_) _
  intro e
  exact ⟨rfl, Or.inr rfl⟩

theorem Thinned.prepareActive (h : Thinned now t t') (hu : Untouched now t (asSgid sgid))
    (hr : hasPatch t (asSgid sgid) = false → Roomy now t) (hin : inRange16 sgid = true)
    (isPatch : Bool) {ssn : ℤ} :
    Thinned now (prepareGrgUpdate now t sgid isPatch true ssn)
      (prepareGrgUpdate now t' sgid isPatch true ssn) := by
  simp only [prepareGrgUpdate, hin, Bool.not_true, Bool.false_eq_true, if_false]
  refine (h.editFound hu (contextFor ssn)).patchUpdate
    (hu.editFound fun e => ⟨(contextFor_frame ssn e).1, Or.inl (contextFor_frame ssn e).2⟩)
    (fun hnone => ?_) isPatch true
  rw [hasPatch_editFound fun e => (contextFor_frame ssn e).1] at hnone
  rw [editFound_of_not_hasPatch hnone]
  exact hr hnone

theorem Thinned.step (h : Thinned now t t') {c : Call} (hn : (t.map Entry.sgid).Nodup)
    (hc : LeavesStale now t c) (hd : c.isDisplay = false) :
    Thinned now (step now t c) (Patch.step now t' c) := by
  cases c with
  | update sgid isPatch active =>
    rw [Patch.step, Patch.step]
    cases hin : inRange16 sgid with
    | false => simpa [Patch.patchUpdate, hin] using h
    | true =>
      obtain ⟨hu, hr⟩ := hc (asSgid sgid) (by simp [Call.target, hin])
      exact h.patchUpdate hu (hr rfl) isPatch active
  | addWgid sgid wgid =>
    rw [Patch.step, Patch.step, addWgid, addWgid]
    split
    · exact h
    · rename_i hin
      obtain ⟨hu, hr⟩ := hc (asSgid sgid) (by simp [Call.target] at hin ⊢; exact hin)
      exact (h.ensurePatch hu (hr rfl)).editFound hu.ensurePatch _
  | addWuid sgid wuid =>
    rw [Patch.step, Patch.step, addWuid, addWuid]
    split
    · exact h
    · rename_i hin
      obtain ⟨hu, hr⟩ := hc (asSgid sgid) (by simp [Call.target] at hin ⊢; exact hin)
      exact (h.ensurePatch hu (hr rfl)).editFound hu.ensurePatch _
  | removeWgid sgid wgid =>
    rw [Patch.step, Patch.step, removeWgid, removeWgid]
    split
    · exact h
    · exact h.editFound_keeping hn fun _ => rfl
  | clearSg sgid =>
    rw [Patch.step, Patch.step, clearSg, clearSg]
    split
    · exact h
    · rename_i hin
      obtain ⟨hu, -⟩ := hc (asSgid sgid) (by rw [Call.target, if_neg hin])
      exact h.editFound hu _
  | prepareGrgUpdate sgid isPatch active ssn =>
    rw [Patch.step, Patch.step]
    cases hin : inRange16 sgid with
    | false => simpa [prepareGrgUpdate, hin] using h
    | true =>
      obtain ⟨hu, hr⟩ := hc (asSgid sgid) (by simp [Call.target, hin])
      cases active with
      | false => exact h.prepareInactive hu (hr rfl) hin isPatch
      | true => exact h.prepareActive hu (hr rfl) hin isPatch
  | setKas sgid key alg ssn =>
    rw [Patch.step, Patch.step, setKas, setKas]
    split
    · exact h
    · rename_i hin
      obtain ⟨hu, hr⟩ := hc (asSgid sgid) (by rw [Call.target, if_neg hin])
      exact (h.ensurePatch hu (hr rfl)).editFound hu.ensurePatch _
  | composeDetails cap => cases hd

theorem Thinned.live_eq (h : Thinned now t t') (hn : (t.map Entry.sgid).Nodup) (sgid : BitVec 16) :
    (t'.find? (·.sgid = sgid)).filter (!·.isStale now) =
      (t.find? (·.sgid = sgid)).filter (!·.isStale now) := by
  induction h with
  | nil => rfl
  | keep e _ ih =>
    rw [find?_cons, find?_cons]
    split
    · rfl
    · exact ih (nodup_cons.mp hn).2
  | @drop e t t' hs h ih =>
    rw [find?_cons]
    split
    · rename_i heq
      have hnone : t'.find? (·.sgid = sgid) = none := by
        rw [find?_eq_none]
        intro d hd heqd
        refine (nodup_cons.mp hn).1 (mem_map.mpr ⟨d, h.mem hd, ?_⟩)
        rw [of_decide_eq_true heqd, of_decide_eq_true heq]
      rw [hnone, Option.filter_some, hs]
      rfl
    · exact ih (nodup_cons.mp hn).2

/-- Calls that leave the stale entries of every table on their way alone. -/
def AllLeaveStale : Table → Calls → Prop
  | _, [] => True
  | t, (now, c) :: calls => LeavesStale now t c ∧ AllLeaveStale (step now t c) calls

theorem undisplayed_cons (now : ℤ) (c : Call) (calls : Calls) :
    undisplayed ((now, c) :: calls) =
      if c.isDisplay then undisplayed calls else (now, c) :: undisplayed calls := by
  rw [undisplayed, filter_cons]
  cases c.isDisplay <;> rfl

theorem Clocked.tail {now later : ℤ} {c : Call} {calls : Calls}
    (h : Clocked ((now, c) :: calls) later) : Clocked calls later := (pairwise_cons.mp h).2

variable {calls : Calls}

theorem Clocked.head_le {later : ℤ} {c : Call} (h : Clocked ((now, c) :: calls) later) :
    (∀ d ∈ calls, now ≤ d.1) ∧ now ≤ later := by
  have hall := (pairwise_cons.mp h).1
  refine ⟨fun d hd => hall _ (mem_append_left _ (mem_map_of_mem hd)), ?_⟩
  exact hall later (mem_append_right _ (mem_singleton.mpr rfl))

/-- Calls with and without status texts lead to tables that differ in stale entries alone. -/
theorem thinned_run {later : ℤ} {start : ℤ} (h : Thinned start t t')
    (hstart : ∀ d ∈ calls, start ≤ d.1) (hlater : start ≤ later) (hclock : Clocked calls later)
    (hn : (t.map Entry.sgid).Nodup) (hleave : AllLeaveStale t (undisplayed calls)) :
    Thinned later (run t (undisplayed calls)) (run t' calls) := by
  induction calls generalizing t t' start with
  | nil => exact h.later hlater
  | cons d calls ih =>
    obtain ⟨now, c⟩ := d
    obtain ⟨hnow, hend⟩ := hclock.head_le
    have hreached := h.later (hstart (now, c) mem_cons_self)
    rw [undisplayed_cons] at hleave ⊢
    cases hd : c.isDisplay with
    | false =>
      rw [hd] at hleave
      exact ih (hreached.step hn hleave.1 hd) hnow hend hclock.tail (nodup_step hn now c) hleave.2
    | true =>
      rw [hd] at hleave
      have hswept : Thinned now t (step now t' c) := by
        cases c with
        | composeDetails cap =>
          rw [Patch.step, Patch.composeDetails]
          split
          · exact hreached
          · exact hreached.sweep
        | _ => cases hd
      exact ih hswept hnow hend hclock.tail hn hleave

/-- The answers of two tables, at one time. -/
def SameAnswers (now : ℤ) (t t' : Table) : Prop :=
  (∀ tg, tgKeyIsClear now t tg = tgKeyIsClear now t' tg) ∧
    (∀ sgid, sgKeyIsClear now t sgid = sgKeyIsClear now t' sgid) ∧
    ∀ sgid cap, collectActiveWgids now t sgid cap = collectActiveWgids now t' sgid cap

/-- What is collected of an entry that was found. -/
private theorem collectActiveWgids_eq (now : ℤ) (t : Table) (sgid : ℤ) (cap : ℕ) :
    collectActiveWgids now t sgid cap =
      if !inRange16 sgid then (0, [])
      else
        match (t.find? (·.sgid = asSgid sgid)).filter (!·.isStale now) with
        | some e => if !e.active then (0, []) else (e.wgid.length, e.wgid.take cap)
        | none => (0, []) := by
  rw [collectActiveWgids]
  split
  · rfl
  · cases t.find? (·.sgid = asSgid sgid) with
    | none => rfl
    | some e =>
      rw [Option.filter_some]
      cases hs : e.isStale now <;> cases ha : e.active <;> simp [hs, ha]

/-- Answers never read a stale entry. -/
theorem Thinned.sameAnswers (h : Thinned now t t') (hn : (t.map Entry.sgid).Nodup) :
    SameAnswers now t t' := by
  refine ⟨fun tg => ?_, fun sgid => ?_, fun sgid cap => ?_⟩
  · rw [tgKeyIsClear, tgKeyIsClear, h.find?_eq]
    intro e _ hp
    simp only [Bool.and_eq_true, Bool.not_eq_true'] at hp
    exact hp.1.2
  · rw [sgKeyIsClear, sgKeyIsClear, h.find?_eq]
    intro e _ hp
    simp only [Bool.and_eq_true, Bool.not_eq_true'] at hp
    exact hp.2
  · rw [collectActiveWgids_eq, collectActiveWgids_eq, h.live_eq hn]

theorem sameAnswers_undisplayed {later : ℤ} (hclock : Clocked calls later)
    (hleave : AllLeaveStale [] (undisplayed calls)) :
    SameAnswers later (run [] (undisplayed calls)) (run [] calls) := by
  have hstart : ∃ start, (∀ d ∈ calls, start ≤ d.1) ∧ start ≤ later := by
    cases calls with
    | nil => exact ⟨later, fun d hd => absurd hd not_mem_nil, Int.le_refl _⟩
    | cons d calls =>
      obtain ⟨hnow, hend⟩ := hclock.head_le
      refine ⟨d.1, fun b hb => ?_, hend⟩
      rcases mem_cons.mp hb with rfl | hmem
      · exact Int.le_refl _
      · exact hnow b hmem
  obtain ⟨start, hnow, hend⟩ := hstart
  have hnodup : (([] : Table).map Entry.sgid).Nodup := nodup_nil
  exact (thinned_run (.refl start []) hnow hend hclock hnodup hleave).sameAnswers
    (nodup_run hnodup _)

/-- Runs that differ in status texts alone answer alike wherever no call revives a stale entry
or takes its place. -/
theorem answers_without_display {a b : Calls} {later : ℤ} (ha : Clocked a later)
    (hb : Clocked b later) (hsame : undisplayed a = undisplayed b)
    (hleave : AllLeaveStale [] (undisplayed a)) : SameAnswers later (run [] a) (run [] b) := by
  obtain ⟨htg, hsg, hcollect⟩ := sameAnswers_undisplayed ha hleave
  rw [hsame] at htg hsg hcollect hleave
  obtain ⟨htg', hsg', hcollect'⟩ := sameAnswers_undisplayed hb hleave
  exact ⟨fun tg => (htg tg).symm.trans (htg' tg), fun sgid => (hsg sgid).symm.trans (hsg' sgid),
    fun sgid cap => (hcollect sgid cap).symm.trans (hcollect' sgid cap)⟩

/-- A patch with a clear key, drawn once while it is fresh. -/
theorem answers_without_display_fresh :
    SameAnswers 105
      (run [] [(100, .update 1 true true), (100, .setKas 1 0 0 0), (101, .addWgid 1 7)])
      (run [] [(100, .update 1 true true), (100, .setKas 1 0 0 0), (101, .addWgid 1 7),
        (102, .composeDetails 64)]) := by
  refine answers_without_display (by decide) (by decide) (by decide) ⟨?_, ?_, ?_, trivial⟩
  · exact leavesStale_of_live (by decide) _
  · exact leavesStale_of_live (by decide) _
  · exact leavesStale_of_live (by decide) _

/-- A patch of one talkgroup with a clear key, refreshed after more than twenty seconds:
the members and the key of the stale entry come back, unless the text was drawn before. -/
theorem display_changes_answers :
    ¬ ∀ (a b : Calls) (later : ℤ), Clocked a later → Clocked b later →
      undisplayed a = undisplayed b → SameAnswers later (run [] a) (run [] b) := by
  intro h
  have hclear := (h
    [(100, .update 1 true true), (100, .setKas 1 0 0 0), (100, .addWgid 1 7),
      (121, .update 1 true true)]
    [(100, .update 1 true true), (100, .setKas 1 0 0 0), (100, .addWgid 1 7),
      (121, .composeDetails 64), (121, .update 1 true true)]
    121 (by decide) (by decide) (by decide)).1 7
  revert hclear
  decide

end DsdNeo.P25.Patch
