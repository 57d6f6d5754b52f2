import DsdNeo.Core.Overlay.Desk
import DsdNeo.Models.Talkgroup.Policy

/-!
# Scan rows and the operator's talkgroups

`dsd_state_trunk_lcn.c`: while a scan row has a group list, its store takes the place of the
operator's, which waits as the retained baseline. A suspend parks the row's store and shows the
baseline, for an import to edit.
-/

namespace DsdNeo.ScanScope

open DsdNeo.TgPolicy DsdNeo.Overlay List

/-- The decoder state the scan runs on. -/
def decoder : StateId := .app 0

/-- The group fields of `channel_modes`. -/
structure GroupScope where
  baseline : Option ℕ
  suspendedRow : Option ℕ
  active : Bool
  suspended : Bool
  deriving DecidableEq

open GroupScope

/-- No row active. -/
def GroupScope.idle : GroupScope := ⟨none, none, false, false⟩

/-- `dsd_tg_policy_release`. -/
def release : Option ℕ → Policy Unit
  | none => pure ()
  | some a => contextFree a

/-- The baseline put back in the decoder where no suspend did it. -/
def reinstall (m : GroupScope) : Policy Unit :=
  if m.suspended then pure () else install decoder m.baseline

/-- `dsd_scan_groups_leave`. -/
def groupsLeave (m : GroupScope) : Policy GroupScope :=
  if m.active = false then pure m
  else do
    reinstall m
    release m.baseline
    release m.suspendedRow
    pure GroupScope.idle

/-- What the first row that enters retains. -/
def groupsBaseline (m : GroupScope) : Policy GroupScope :=
  if m.active then pure m
  else do
    let baseline ← retain decoder
    pure { m with baseline := baseline, active := true }

/-- `dsd_scan_groups_enter`, with the row's group list where it has one. -/
def groupsEnter (m : GroupScope) (groups : Option (Option ℕ)) : Policy GroupScope :=
  match groups with
  | none => groupsLeave m
  | some store => do
    let m ← groupsBaseline m
    install decoder store
    pure m

/-- `dsd_scan_groups_suspend`. -/
def groupsSuspend (m : GroupScope) : Policy GroupScope :=
  if m.active = false ∨ m.suspended = true then pure m
  else do
    let row ← retain decoder
    restore decoder m.baseline
    pure { m with suspendedRow := row, suspended := true }

/-- `dsd_scan_groups_resume`. -/
def groupsResume (m : GroupScope) : Policy GroupScope :=
  if m.suspended = false then pure m
  else do
    release m.baseline
    let baseline ← retain decoder
    restore decoder m.suspendedRow
    release m.suspendedRow
    pure { m with baseline := baseline, suspendedRow := none, suspended := false }

/-- Whether a pointer holds a store. -/
def holds (p : Option ℕ) (a : ℕ) : ℕ := if p = some a then 1 else 0

/-- Every store counts its holders, and nothing else is held. -/
def Tallied (w : World) (holders : ℕ → ℕ) : Prop :=
  ∀ a : ℕ, (w.heap[a]?).elim 0 Store.references = holders a

/-- What a store keeps: all but its references and its active calls. -/
def kept (s : Store) : Store := { s with references := 0, active := ActiveTable.zero }

/-- What the stores of a process keep. -/
def contents (w : World) : List Store := w.heap.map kept

variable {w w' : World} {h h' : ℕ → ℕ}

theorem Tallied.congr (ht : Tallied w h) (heq : ∀ a, h a = h' a) :
    Tallied w h' := fun a => (ht a).trans (heq a)

variable {a : ℕ}

theorem contents_modify {f : Store → Store} (hf : ∀ s, kept (f s) = kept s) :
    contents (modifyStore a f w).2 = contents w := by
  change (w.heap.modify a f).map kept = w.heap.map kept
  apply ext_getElem?
  intro i
  rw [getElem?_map, getElem?_map, getElem?_modify]
  cases w.heap[i]? with
  | none => rfl
  | some s =>
    by_cases hi : a = i
    · simp [hi, hf]
    · simp [hi]

theorem tallied_modify {f : Store → Store} (ht : Tallied w h)
    (hf : ∀ s, s.references = h a → (f s).references = h' a) (hnone : h a = 0 → h' a = 0)
    (hrest : ∀ b, b ≠ a → h' b = h b) : Tallied (modifyStore a f w).2 h' := by
  intro b
  change ((w.heap.modify a f)[b]?).elim 0 Store.references = h' b
  rw [getElem?_modify]
  have hcount := ht b
  by_cases hb : a = b
  · subst hb
    cases hold : w.heap[a]? with
    | none =>
      rw [hold] at hcount
      exact (hnone hcount.symm).symm
    | some old =>
      rw [hold] at hcount
      simpa using hf old hcount
  · rw [hrest b fun heq => hb heq.symm, ← hcount]
    simp [hb]

theorem holds_self (a : ℕ) : holds (some a) a = 1 := if_pos rfl

theorem holds_of_ne {b : ℕ} (h : b ≠ a) : holds (some a) b = 0 :=
  if_neg fun heq => h (Option.some.inj heq).symm

theorem holds_none (a : ℕ) : holds none a = 0 := if_neg nofun

/-- One reference more, of a store that is held. -/
theorem tallied_retained (ht : Tallied w h) (ha : h a ≠ 0) :
    Tallied (modifyStore a (fun s => { s with references := s.references + 1 }) w).2
      (fun b => h b + holds (some a) b) :=
  tallied_modify ht (fun s hs => by rw [holds_self, ← hs]) (fun hzero => absurd hzero ha)
    fun b hb => by rw [holds_of_ne hb]; rfl

/-- One reference less. -/
theorem tallied_contextFree (ht : Tallied w fun b => h b + holds (some a) b) :
    Tallied (contextFree a w).2 h :=
  tallied_modify ht (fun s hs => by rw [holds_self] at hs; simp [hs])
    (fun hzero => (Nat.add_eq_zero_iff.mp hzero).1) fun b hb => by rw [holds_of_ne hb]; rfl

theorem contents_contextFree (w : World) (a : ℕ) : contents (contextFree a w).2 = contents w :=
  contents_modify fun _ => rfl

/-- What a program does to the references, the slot of the decoder and what stores keep. -/
structure Moves (w w' : World) (before after : ℕ → ℕ) (slot : Option ℕ) : Prop where
  tally : Tallied w before → Tallied w' after
  slot : w'.slots decoder = slot
  contents : contents w' = contents w

variable {p : Option ℕ}

theorem Moves.trans {w'' : World} {h'' : ℕ → ℕ} {p' : Option ℕ} (a : Moves w w' h h' p)
    (b : Moves w' w'' h' h'' p') : Moves w w'' h h'' p' :=
  ⟨fun ht => b.tally (a.tally ht), b.slot, b.contents.trans a.contents⟩

/-- Two moves whose counts agree in between. -/
theorem Moves.andThen {w'' : World} {g g' : ℕ → ℕ} {p' : Option ℕ} (a : Moves w w' h h' p)
    (b : Moves w' w'' g g' p') (hmid : ∀ x, h' x = g x) : Moves w w'' h g' p' :=
  a.trans ⟨fun ht => b.tally (ht.congr hmid), b.slot, b.contents⟩

theorem Moves.congr {g g' : ℕ → ℕ} (m : Moves w w' h h' p) (hb : ∀ a, h a = g a)
    (ha : ∀ a, h' a = g' a) : Moves w w' g g' p :=
  ⟨fun ht => (m.tally (ht.congr fun a => (hb a).symm)).congr ha, m.slot, m.contents⟩

theorem moves_release (w : World) (h : ℕ → ℕ) (p : Option ℕ) :
    Moves w (release p w).2 (fun a => h a + holds p a) h (w.slots decoder) := by
  cases p with
  | none => exact ⟨fun ht => ht.congr fun a => by rw [holds_none]; rfl, rfl, rfl⟩
  | some a => exact ⟨tallied_contextFree, rfl, contents_contextFree w a⟩

theorem moves_retain (w : World) (h : ℕ → ℕ) :
    (retain decoder w).1 = w.slots decoder ∧
      Moves w (retain decoder w).2 (fun a => h a + holds (w.slots decoder) a)
        (fun a => h a + holds (w.slots decoder) a + holds (w.slots decoder) a)
        (w.slots decoder) := by
  have hrun : retain decoder w =
      (match w.slots decoder with
        | none => pure none
        | some a => do
          modifyStore a fun st => { st with references := st.references + 1 }
          pure (some a) : Policy (Option ℕ)) w := rfl
  rw [hrun]
  cases hslot : w.slots decoder with
  | none => exact ⟨rfl, fun ht => ht.congr fun a => by rw [holds_none], hslot, rfl⟩
  | some a =>
    refine ⟨rfl, fun ht => tallied_retained ht ?_, hslot, contents_modify fun _ => rfl⟩
    rw [holds_self]
    exact Nat.succ_ne_zero _

theorem slots_setSlot (p : Option ℕ) (w : World) : (setSlot decoder p w).2.slots decoder = p := by
  change Function.update w.slots decoder p decoder = p
  rw [Function.update_self]

/-- The slot gives up its reference for one that is counted already. -/
theorem moves_extSet (w : World) (h : ℕ → ℕ) (hp : w.slots decoder ≠ p) :
    Moves w (extSet decoder p w).2 (fun a => h a + holds (w.slots decoder) a) h p := by
  have hrun : (extSet decoder p w).2 =
      (setSlot decoder p (freeReplaced (w.slots decoder) p w).2).2 := rfl
  have hset := slots_setSlot p
  rw [hrun]
  cases hslot : w.slots decoder with
  | none => exact ⟨fun ht => ht.congr fun a => by rw [holds_none]; rfl, hset _, rfl⟩
  | some a =>
    have hne : p ≠ some a := fun heq => hp (hslot.trans heq.symm)
    rw [freeReplaced, if_neg hne]
    refine ⟨fun ht => ?_, hset _, contents_contextFree w a⟩
    exact tallied_contextFree ht

theorem extSet_self (w : World) :
    (extSet decoder (w.slots decoder) w).2.heap = w.heap ∧
      (extSet decoder (w.slots decoder) w).2.slots decoder = w.slots decoder := by
  have hrun : (extSet decoder (w.slots decoder) w).2 =
      (setSlot decoder (w.slots decoder)
        (freeReplaced (w.slots decoder) (w.slots decoder) w).2).2 :=
    rfl
  have hfree : (freeReplaced (w.slots decoder) (w.slots decoder) w).2 = w := by
    unfold freeReplaced
    cases w.slots decoder with
    | none => rfl
    | some a =>
      simp only [if_true]
      rfl
  rw [hrun, hfree]
  exact ⟨rfl, slots_setSlot _ w⟩

theorem restore_some (w : World) (a : ℕ) :
    restore decoder (some a) w =
      if w.slots decoder = some a then extSet decoder (some a) w
      else
        extSet decoder (some a)
          (modifyStore a (fun st => { st with references := st.references + 1 }) w).2 := by
  have hrun : restore decoder (some a) w =
      (if w.slots decoder = some a then extSet decoder (some a)
        else do
          modifyStore a fun st => { st with references := st.references + 1 }
          extSet decoder (some a) : Policy Unit) w := rfl
  rw [hrun]
  split <;> rfl

theorem restore_of_slot_eq (h : w.slots decoder = p) :
    restore decoder p w = extSet decoder p w := by
  cases p with
  | none => rfl
  | some a => rw [restore_some, if_pos h]

/-- The slot is given another store that is held, or keeps the one it has. -/
theorem moves_restore (w : World) (h : ℕ → ℕ) (p : Option ℕ) (hp : ∀ a, p = some a → h a ≠ 0) :
    Moves w (restore decoder p w).2 (fun a => h a + holds (w.slots decoder) a)
      (fun a => h a + holds p a) p := by
  by_cases hsame : w.slots decoder = p
  · rw [restore_of_slot_eq hsame]
    subst hsame
    obtain ⟨hheap, hslot⟩ := extSet_self w
    refine ⟨fun ht a => ?_, hslot, ?_⟩
    · rw [hheap]
      exact ht a
    · rw [contents, hheap]
      rfl
  · cases p with
    | none =>
      rw [restore]
      exact (moves_extSet w h hsame).congr (fun _ => rfl) fun a => by rw [holds_none]; rfl
    | some a =>
      rw [restore_some, if_neg hsame]
      have hretained : Moves w (modifyStore a
          (fun st => { st with references := st.references + 1 }) w).2
          (fun b => h b + holds (w.slots decoder) b)
          (fun b => h b + holds (w.slots decoder) b + holds (some a) b) (w.slots decoder) :=
        ⟨fun ht => tallied_retained ht (fun hzero => hp a rfl (Nat.add_eq_zero_iff.mp hzero).1),
          rfl, contents_modify fun _ => rfl⟩
      have hset := moves_extSet (modifyStore a
          (fun st => { st with references := st.references + 1 }) w).2
        (fun b => h b + holds (some a) b) hsame
      exact hretained.trans (hset.congr (fun b => Nat.add_right_comm _ _ _) fun _ => rfl)

theorem moves_install (w : World) (h : ℕ → ℕ) (p : Option ℕ) (hp : ∀ a, p = some a → h a ≠ 0) :
    Moves w (install decoder p w).2 (fun a => h a + holds (w.slots decoder) a)
      (fun a => h a + holds p a) p := by
  cases p with
  | none => exact moves_restore w h none hp
  | some a =>
    have hrun : (install decoder (some a) w).2 = (restore decoder (some a)
        (modifyStore a (fun st => { st with active := ActiveTable.zero }) w).2).2 := rfl
    have hcleared : Moves w
        (modifyStore a (fun st => { st with active := ActiveTable.zero }) w).2
        (fun b => h b + holds (w.slots decoder) b) (fun b => h b + holds (w.slots decoder) b)
        (w.slots decoder) :=
      ⟨fun ht => tallied_modify ht (fun s hs => hs) id fun _ _ => rfl, rfl,
        contents_modify fun _ => rfl⟩
    rw [hrun]
    exact hcleared.trans (moves_restore _ h (some a) hp)

/-- The holders of each store: the slot, the scope, and those elsewhere. -/
def holders (rest : ℕ → ℕ) (w : World) (m : GroupScope) (a : ℕ) : ℕ :=
  rest a + holds (w.slots decoder) a + holds m.baseline a + holds m.suspendedRow a

/-- A scope and a slot show what the desk does. -/
def Parks (m : GroupScope) (slot : Option ℕ) : Desk (Option ℕ) (Option ℕ) → Prop
  | .bare own => m = GroupScope.idle ∧ slot = own
  | .covered own row => m = ⟨own, none, true, false⟩ ∧ slot = row
  | .aside own row draft => m = ⟨own, row, true, true⟩ ∧ slot = draft

/-- What a call of the scope does: it follows the desk, keeps every count right, and leaves
what the stores keep. -/
structure Follows (rest : ℕ → ℕ) (m : GroupScope) (w : World) (r : GroupScope × World)
    (d : Desk (Option ℕ) (Option ℕ)) : Prop where
  parks : Parks r.1 (r.2.slots decoder) d
  tally : Tallied w (holders rest w m) → Tallied r.2 (holders rest r.2 r.1)
  contents : contents r.2 = contents w

section Calls

variable (rest : ℕ → ℕ) {m : GroupScope} {w : World} {d : Desk (Option ℕ) (Option ℕ)}

theorem follows_refl (h : Parks m (w.slots decoder) d) : Follows rest m w (m, w) d :=
  ⟨h, id, rfl⟩

theorem Moves.follows {r : GroupScope × World} {before after : ℕ → ℕ} {slot : Option ℕ}
    (hm : Moves w r.2 before after slot) (hb : ∀ a, before a = holders rest w m a)
    (ha : ∀ a, after a = rest a + holds slot a + holds r.1.baseline a + holds r.1.suspendedRow a)
    (hp : Parks r.1 slot d) : Follows rest m w r d := by
  refine ⟨hm.slot.symm ▸ hp, fun ht => ?_, hm.contents⟩
  refine (hm.tally (ht.congr fun a => (hb a).symm)).congr fun a => ?_
  rw [ha, holders, hm.slot]

theorem held_by (h : ℕ → ℕ) (p : Option ℕ) (a : ℕ) (hp : p = some a) : h a + holds p a ≠ 0 := by
  rw [hp, holds_self]
  exact Nat.succ_ne_zero _

theorem follows_leave (h : Parks m (w.slots decoder) d) :
    Follows rest m w (groupsLeave m w) d.leave := by
  cases d with
  | bare own =>
    obtain ⟨rfl, -⟩ := id h
    exact follows_refl rest h
  | covered own row =>
    obtain ⟨rfl, hslot⟩ := h
    have hinstall := moves_install w (fun a => rest a + holds own a) own
      (held_by rest own)
    have hrelease := moves_release (install decoder own w).2 (fun a => rest a + holds own a) own
    rw [hinstall.slot] at hrelease
    have hrun : groupsLeave ⟨own, none, true, false⟩ w =
        (GroupScope.idle, (release own (install decoder own w).2).2) := rfl
    rw [hrun]
    refine Moves.follows rest (hinstall.trans hrelease) (fun a => ?_) (fun a => ?_) ⟨rfl, rfl⟩
    · simp only [holders, holds_none]
      omega
    · simp only [GroupScope.idle, holds_none]
      omega
  | aside own row draft =>
    obtain ⟨rfl, hslot⟩ := h
    have hbase := moves_release w (fun a => rest a + holds draft a + holds row a) own
    have hrow := moves_release (release own w).2 (fun a => rest a + holds draft a) row
    rw [hbase.slot, hslot] at hrow
    rw [hslot] at hbase
    have hrun : groupsLeave ⟨own, row, true, true⟩ w =
        (GroupScope.idle, (release row (release own w).2).2) := rfl
    rw [hrun]
    refine Moves.follows rest (hbase.trans hrow) (fun a => ?_) (fun a => ?_) ⟨rfl, rfl⟩
    · simp only [holders, hslot]
      omega
    · simp only [GroupScope.idle, holds_none]
      omega

theorem follows_enter (h : Parks m (w.slots decoder) d) (hd : d.Settled) {store : Option ℕ}
    (hstore : ∀ a, store = some a → rest a ≠ 0) :
    Follows rest m w (groupsEnter m (some store) w) (d.enter store) := by
  have hheld : ∀ {own : Option ℕ} (a : ℕ), store = some a → rest a + holds own a ≠ 0 :=
    fun a ha hzero => hstore a ha (Nat.add_eq_zero_iff.mp hzero).1
  cases d with
  | bare own =>
    obtain ⟨rfl, hslot⟩ := h
    obtain ⟨hresult, hretain⟩ := moves_retain w rest
    have hinstall := moves_install (retain decoder w).2 (fun a => rest a + holds own a) store
      hheld
    rw [hretain.slot] at hinstall
    rw [hslot] at hretain hinstall hresult
    have hrun : groupsEnter GroupScope.idle (some store) w =
        (⟨(retain decoder w).1, none, true, false⟩,
          (install decoder store (retain decoder w).2).2) := rfl
    rw [hrun, hresult]
    refine Moves.follows rest (hretain.trans hinstall) (fun a => ?_) (fun a => ?_) ⟨rfl, rfl⟩
    · simp only [holders, hslot, GroupScope.idle, holds_none]
      omega
    · simp only [holds_none]
      omega
  | covered own row =>
    obtain ⟨rfl, hslot⟩ := h
    have hinstall := moves_install w (fun a => rest a + holds own a) store hheld
    have hrun : groupsEnter ⟨own, none, true, false⟩ (some store) w =
        (⟨own, none, true, false⟩, (install decoder store w).2) := rfl
    rw [hrun]
    refine Moves.follows rest hinstall (fun a => ?_) (fun a => ?_) ⟨rfl, rfl⟩
    · simp only [holders, holds_none]
      omega
    · simp only [holds_none]
      omega
  | aside own row draft => cases hd

theorem follows_suspend (h : Parks m (w.slots decoder) d) :
    Follows rest m w (groupsSuspend m w) d.suspend := by
  cases d with
  | bare own =>
    obtain ⟨rfl, -⟩ := id h
    exact follows_refl rest h
  | covered own row =>
    obtain ⟨rfl, hslot⟩ := h
    obtain ⟨hresult, hretain⟩ := moves_retain w fun a => rest a + holds own a
    have hrestore := moves_restore (retain decoder w).2
      (fun a => rest a + holds row a + holds own a) own
      (held_by (fun a => rest a + holds row a) own)
    rw [hretain.slot] at hrestore
    rw [hslot] at hretain hrestore hresult
    have hrun : groupsSuspend ⟨own, none, true, false⟩ w =
        (⟨own, (retain decoder w).1, true, true⟩,
          (restore decoder own (retain decoder w).2).2) := rfl
    rw [hrun, hresult]
    have hmoves := hretain.andThen hrestore fun a => by omega
    refine Moves.follows rest hmoves (fun a => ?_) (fun a => ?_) ⟨rfl, rfl⟩
    · simp only [holders, hslot, holds_none]
      omega
    · dsimp only
      omega
  | aside own row draft =>
    obtain ⟨rfl, -⟩ := id h
    exact follows_refl rest h

theorem follows_resume (h : Parks m (w.slots decoder) d) :
    Follows rest m w (groupsResume m w) (d.resume true) := by
  cases d with
  | bare own =>
    obtain ⟨rfl, -⟩ := id h
    exact follows_refl rest h
  | covered own row =>
    obtain ⟨rfl, -⟩ := id h
    exact follows_refl rest h
  | aside own row draft =>
    obtain ⟨rfl, hslot⟩ := h
    have hbase := moves_release w (fun a => rest a + holds draft a + holds row a) own
    obtain ⟨hresult, hretain⟩ := moves_retain (release own w).2 fun a => rest a + holds row a
    have hrestore := moves_restore (retain decoder (release own w).2).2
      (fun a => rest a + holds draft a + holds row a) row
      (held_by (fun a => rest a + holds draft a) row)
    have hrow := moves_release (restore decoder row (retain decoder (release own w).2).2).2
      (fun a => rest a + holds draft a + holds row a) row
    rw [hrestore.slot] at hrow
    rw [hretain.slot] at hrestore
    rw [hbase.slot, hslot] at hretain hrestore hresult
    rw [hslot] at hbase
    have hrun : groupsResume ⟨own, row, true, true⟩ w =
        (⟨(retain decoder (release own w).2).1, none, true, false⟩,
          (release row (restore decoder row (retain decoder (release own w).2).2).2).2) := rfl
    rw [hrun, hresult]
    have hmoves := (hbase.andThen hretain fun a => by omega).andThen
      (hrestore.trans hrow) fun a => by omega
    refine Moves.follows rest hmoves (fun a => ?_) (fun a => ?_) ⟨rfl, rfl⟩
    · simp only [holders, hslot]
      omega
    · simp only [holds_none]
      omega

end Calls

/-- An edit of the store the decoder has, in place. -/
def editStore (f : Store → Store) (w : World) : World :=
  match w.slots decoder with
  | none => w
  | some a => (modifyStore a (fun s => { f s with references := s.references }) w).2

/-- A new store in the decoder, or none, in place of the one it has. -/
def replaceStore (store : Option Store) (w : World) : World :=
  match store with
  | none => (extSet decoder none w).2
  | some s =>
    (extSet decoder (some w.heap.length) (pushStore { s with references := 1 } w).2).2

/-- What an edit does: the scope stays, and every count is right. -/
structure Edits (rest : ℕ → ℕ) (m : GroupScope) (w w' : World)
    (d : Desk (Option ℕ) (Option ℕ)) : Prop where
  parks : Parks m (w'.slots decoder) (d.edit fun _ => w'.slots decoder)
  tally : Tallied w (holders rest w m) → Tallied w' (holders rest w' m)

variable {d : Desk (Option ℕ) (Option ℕ)} {m : GroupScope}

theorem parks_edit {slot slot' : Option ℕ} (h : Parks m slot d) (hd : d.Editable) :
    Parks m slot' (d.edit fun _ => slot') := by
  cases d with
  | bare own => exact ⟨h.1, rfl⟩
  | covered own row => cases hd
  | aside own row draft => exact ⟨h.1, rfl⟩

theorem slots_editStore (f : Store → Store) (w : World) : (editStore f w).slots = w.slots := by
  unfold editStore
  cases w.slots decoder <;> rfl

theorem edits_editStore (rest : ℕ → ℕ) (h : Parks m (w.slots decoder) d) (hd : d.Editable)
    (f : Store → Store) : Edits rest m w (editStore f w) d := by
  refine ⟨parks_edit h hd, fun ht => ?_⟩
  have hsame : holders rest (editStore f w) m = holders rest w m := by
    funext a
    rw [holders, holders, slots_editStore]
  rw [hsame]
  unfold editStore
  cases w.slots decoder with
  | none => exact ht
  | some a => exact tallied_modify ht (fun s hs => hs) id fun _ _ => rfl

theorem slots_extSet (p : Option ℕ) (w : World) : (extSet decoder p w).2.slots decoder = p :=
  slots_setSlot p _

/-- The new store has one holder, the slot: nothing held its address before. -/
theorem tallied_push (ht : Tallied w h) (s : Store) :
    Tallied (pushStore { s with references := 1 } w).2
      fun a => h a + holds (some w.heap.length) a := by
  intro a
  have hcount := ht a
  change ((w.heap ++ [{ s with references := 1 }])[a]?).elim 0 Store.references =
    h a + holds (some w.heap.length) a
  by_cases ha : a = w.heap.length
  · subst ha
    rw [getElem?_eq_none (Nat.le_refl _)] at hcount
    rw [getElem?_concat_length, holds_self, ← hcount]
    rfl
  · rw [holds_of_ne ha, ← hcount]
    rcases Nat.lt_or_gt_of_ne ha with hlt | hgt
    · rw [getElem?_append_left hlt]
      rfl
    · rw [getElem?_eq_none (by simp; omega), getElem?_eq_none (by omega)]
      rfl

theorem edits_replaceStore (rest : ℕ → ℕ) (h : Parks m (w.slots decoder) d) (hd : d.Editable)
    (store : Option Store) : Edits rest m w (replaceStore store w) d := by
  refine ⟨parks_edit h hd, fun ht => ?_⟩
  have hslot : ∀ a, holders rest w m a =
      rest a + holds m.baseline a + holds m.suspendedRow a + holds (w.slots decoder) a := by
    intro a
    rw [holders]
    omega
  cases store with
  | none =>
    have hset := moves_restore w
      (fun a => rest a + holds m.baseline a + holds m.suspendedRow a) none nofun
    refine (hset.tally (ht.congr hslot)).congr fun a => ?_
    rw [holders, replaceStore, slots_extSet]
    omega
  | some s =>
    have hne : w.slots decoder ≠ some w.heap.length := by
      intro heq
      have hcount := ht w.heap.length
      rw [getElem?_eq_none (Nat.le_refl _), hslot, heq, holds_self] at hcount
      exact Nat.succ_ne_zero _ hcount.symm
    have hset := moves_extSet (pushStore { s with references := 1 } w).2
      (fun a => rest a + holds m.baseline a + holds m.suspendedRow a +
        holds (some w.heap.length) a) hne
    have hslots : (pushStore { s with references := 1 } w).2.slots = w.slots := rfl
    refine (hset.tally ((tallied_push ht s).congr fun a => ?_)).congr fun a => ?_
    · rw [hslot, hslots]
      omega
    · rw [holders, replaceStore, slots_extSet]
      omega

end DsdNeo.ScanScope
