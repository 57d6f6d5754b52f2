import DsdNeo.Core.Cache.Recency
import DsdNeo.Models.Trunk.Lockout

/-!
# What the lockout ledger remembers

Beside the ledger runs a log of what was noted, evicted, released and bumped, newest first. A
target is active when its last note is of this key epoch and nothing has ended it since, and
only a target with a full ledger of others noted since its last note is ever evicted.
-/

namespace DsdNeo.EncLockout

open Recency Ledger Entry List

/-- A call on the ledger. -/
inductive Op where
  | note (target : BitVec 32) (isGroup : ℤ) (ev : Evidence)
  | release (target : BitVec 32) (isGroup : ℤ)
  | bumpKeyEpoch
  | clearAll

/-- What happened to the targets of the ledger. -/
inductive Event where
  | noted (k : Key)
  | evicted (k : Key)
  | released (k : Key)
  | bumped
  | cleared
deriving DecidableEq

open Event

/-- One call. -/
def Ledger.perform (s : Ledger) : Op → Ledger
  | .note target isGroup ev => (s.note target isGroup ev).2
  | .release target isGroup => (s.release target isGroup).2
  | .bumpKeyEpoch => s.bumpKeyEpoch
  | .clearAll => s.clearAll

/-- The target whose entry a note of another takes. -/
def Ledger.evictedBy (s : Ledger) (k : Key) : Option Key :=
  if (s.slotOf k).isSome then none
  else s.chooseSlot.bind fun i => if (s.entries i).inUse then some (s.entries i).key else none

/-- What one call does to the targets, newest first. Target 0 is no target. -/
def Ledger.events (s : Ledger) : Op → List Event
  | .note target isGroup _ =>
    if target = 0 then []
    else (s.evictedBy (keyOf target isGroup)).toList.map evicted ++
      [.noted (keyOf target isGroup)]
  | .release target isGroup => if target = 0 then [] else [.released (keyOf target isGroup)]
  | .bumpKeyEpoch => [.bumped]
  | .clearAll => [.cleared]

/-- A ledger and the log of its targets, newest first. -/
structure Course where
  ledger : Ledger
  log : List Event

/-- One call, logged. -/
def Course.step (c : Course) (op : Op) : Course :=
  ⟨c.ledger.perform op, c.ledger.events op ++ c.log⟩

/-- Calls from a fresh ledger on. -/
def run (ops : List Op) : Course := ops.foldl Course.step ⟨Ledger.init, []⟩

/-- The target an event notes. -/
def Event.notedKey : Event → Option Key
  | .noted k => some k
  | _ => none

/-- The targets noted, newest first. -/
def notes (log : List Event) : List Key := log.filterMap notedKey

/-- How often the key epoch was bumped. -/
def bumps (log : List Event) : ℕ := log.count .bumped

/-- How many notes there were before the last bump. -/
def notesAtBump : List Event → ℕ
  | [] => 0
  | .bumped :: log => (notes log).length
  | _ :: log => notesAtBump log

/-- What ends the activity of a target. -/
def Event.Ends (k : Key) (e : Event) : Prop :=
  e = .bumped ∨ e = .cleared ∨ e = .released k ∨ e = .evicted k

/-- A target was noted, and nothing has ended its activity since. -/
def Locked (k : Key) (log : List Event) : Prop :=
  ∃ since before, log = since ++ .noted k :: before ∧ ∀ e ∈ since, ¬e.Ends k

theorem not_locked_nil (k : Key) : ¬Locked k [] := by
  rintro ⟨since, before, h, -⟩
  simp at h

variable {e : Event} {k : Key} {log : List Event}

theorem locked_cons : Locked k (e :: log) ↔ e = .noted k ∨ (¬e.Ends k ∧ Locked k log) := by
  constructor
  · rintro ⟨since, before, h, hends⟩
    cases since with
    | nil => exact Or.inl (List.cons.inj h).1
    | cons e' since =>
      obtain ⟨rfl, hlog⟩ := List.cons.inj h
      exact Or.inr ⟨hends e (by simp), since, before, hlog, fun e' he' => hends e' (by simp [he'])⟩
  · rintro (rfl | ⟨hnot, since, before, rfl, hends⟩)
    · exact ⟨[], log, rfl, by simp⟩
    · refine ⟨e :: since, before, rfl, fun e' he' => ?_⟩
      rcases mem_cons.mp he' with rfl | he'
      · exact hnot
      · exact hends e' he'

@[simp]
theorem notes_noted (k : Key) (log : List Event) : notes (.noted k :: log) = k :: notes log := rfl

theorem notes_other (h : e.notedKey = none) (log : List Event) : notes (e :: log) = notes log := by
  simp [notes, h]

@[simp]
theorem bumps_bumped (log : List Event) : bumps (.bumped :: log) = bumps log + 1 := by
  simp [bumps]

theorem bumps_other (h : e ≠ .bumped) (log : List Event) : bumps (e :: log) = bumps log := by
  simp [bumps, h]

@[simp]
theorem notesAtBump_bumped (log : List Event) :
    notesAtBump (.bumped :: log) = (notes log).length := rfl

theorem notesAtBump_other (h : e ≠ .bumped) (log : List Event) :
    notesAtBump (e :: log) = notesAtBump log := by
  cases e <;> first | rfl | exact absurd rfl h

theorem notesAtBump_le (log : List Event) : notesAtBump log ≤ (notes log).length := by
  induction log with
  | nil => rfl
  | cons e log ih =>
    have hnotes : (notes log).length ≤ (notes (e :: log)).length :=
      ((sublist_cons_self e log).filterMap _).length_le
    by_cases he : e = .bumped
    · subst he
      exact hnotes
    · rw [notesAtBump_other he]
      omega

/-- What the entries of a ledger say of its log. -/
structure Told (s : Ledger) (log : List Event) : Prop where
  unique : s.Unique
  seq : s.seq = BitVec.ofNat 64 (notes log).length
  epoch : s.keyEpoch = BitVec.ofNat 64 (bumps log + 1)
  entry : ∀ i k, (s.entries i).Holds k → k ∈ notes log ∧
    (s.entries i).lastSeq = BitVec.ofNat 64 (ticket k (notes log)) ∧
    ∃ b ≤ bumps log, (s.entries i).keyEpoch = BitVec.ofNat 64 (b + 1) ∧
      (b = bumps log ↔ notesAtBump log < ticket k (notes log))

/-- Counters that have not wrapped. -/
def Unwrapped (log : List Event) : Prop := (notes log).length < 2 ^ 64 ∧ bumps log < 2 ^ 64

variable {i : Fin lockoutMax} {s : Ledger}

theorem Told.stale_iff (h : Told s log) (hwrap : Unwrapped log) (hk : (s.entries i).Holds k) :
    s.stale i = true ↔ ticket k (notes log) ≤ notesAtBump log := by
  obtain ⟨-, -, b, hb, hepoch, hlast⟩ := h.entry i k hk
  have hsame : (s.entries i).keyEpoch = s.keyEpoch ↔ b = bumps log := by
    have := hwrap.2
    rw [hepoch, h.epoch]
    constructor
    · intro heq
      have hmod := congrArg BitVec.toNat heq
      simp only [BitVec.toNat_ofNat] at hmod
      omega
    · intro heq
      rw [heq]
  simp only [Ledger.stale, ne_eq, decide_not, Bool.not_eq_true', decide_eq_false_iff_not, hsame,
    hlast]
  omega

theorem Told.skip (h : Told s log) (hnote : e.notedKey = none) (hbump : e ≠ .bumped) :
    Told s (e :: log) := by
  constructor
  · exact h.unique
  · rw [notes_other hnote]
    exact h.seq
  · rw [bumps_other hbump]
    exact h.epoch
  · rw [notes_other hnote, bumps_other hbump, notesAtBump_other hbump]
    exact h.entry

/-- Entries given up leave the others as they are told. -/
theorem Told.fewer {s' : Ledger} (h : Told s log) (hseq : s'.seq = s.seq)
    (hepoch : s'.keyEpoch = s.keyEpoch)
    (hsub : ∀ i k, (s'.entries i).Holds k → s'.entries i = s.entries i) : Told s' log := by
  constructor
  · intro i j k hi hj
    exact h.unique i j k (hsub i k hi ▸ hi) (hsub j k hj ▸ hj)
  · rw [hseq]
    exact h.seq
  · rw [hepoch]
    exact h.epoch
  · intro i k hi
    rw [hsub i k hi]
    exact h.entry i k (hsub i k hi ▸ hi)

theorem Told.bump (h : Told s log) : Told s.bumpKeyEpoch (.bumped :: log) := by
  constructor
  · exact h.unique
  · rw [notes_other rfl]
    exact h.seq
  · rw [bumps_bumped, BitVec.ofNat_add, ← h.epoch]
    rfl
  · intro i k hi
    obtain ⟨hmem, hseq, b, hb, hepoch, -⟩ := h.entry i k hi
    rw [notes_other rfl, bumps_bumped, notesAtBump_bumped]
    refine ⟨hmem, hseq, b, by omega, hepoch, ?_⟩
    have := ticket_le k (notes log)
    omega

@[simp]
theorem Ledger.confirm_self (s : Ledger) (i : Fin lockoutMax) (e : Entry) (ev : Evidence) :
    (s.confirm i e ev).entries i = e.confirmed s.keyEpoch (s.seq + 1) ev := by
  simp [Ledger.confirm]

theorem Ledger.confirm_ne (s : Ledger) {j : Fin lockoutMax} (h : j ≠ i) (e : Entry)
    (ev : Evidence) : (s.confirm i e ev).entries j = s.entries j := by
  simp [Ledger.confirm, h]

theorem Entry.holds_confirmed {e : Entry} {keyEpoch seq : BitVec 64} {ev : Evidence} :
    (e.confirmed keyEpoch seq ev).Holds k ↔ e.key = k := by
  simp [Entry.Holds, confirmed, key]

theorem Told.confirm (h : Told s log) {e : Entry} (hkey : e.key = k)
    (hfree : ∀ j ≠ i, ¬(s.entries j).Holds k) (ev : Evidence) :
    Told (s.confirm i e ev) (.noted k :: log) := by
  have hbump : noted k ≠ .bumped := by simp
  have hother : ∀ j ≠ i, ∀ k', ((s.confirm i e ev).entries j).Holds k' → (s.entries j).Holds k' ∧
    k ≠ k' := by
    intro j hj k' hk'
    rw [s.confirm_ne hj] at hk'
    exact ⟨hk', fun hkk => hfree j hj (hkk ▸ hk')⟩
  have hself : ∀ k', ((s.confirm i e ev).entries i).Holds k' → k = k' := by
    intro k' hk'
    rw [s.confirm_self, holds_confirmed] at hk'
    rw [← hkey, hk']
  constructor
  · intro j j' k' hj hj'
    by_cases hji : j = i <;> by_cases hji' : j' = i
    · rw [hji, hji']
    · subst hji
      exact absurd (hself k' hj) (hother j' hji' k' hj').2
    · subst hji'
      exact absurd (hself k' hj') (hother j hji k' hj).2
    · exact h.unique j j' k' (hother j hji k' hj).1 (hother j' hji' k' hj').1
  · rw [notes_noted, length_cons, BitVec.ofNat_add, ← h.seq]
    rfl
  · rw [bumps_other hbump]
    exact h.epoch
  · intro j k' hj
    rw [notes_noted, bumps_other hbump, notesAtBump_other hbump]
    by_cases hji : j = i
    · subst hji
      obtain rfl := hself k' hj
      have hle := notesAtBump_le log
      rw [s.confirm_self, ticket_cons_self]
      refine ⟨by simp, ?_, bumps log, le_rfl, h.epoch, by omega⟩
      rw [BitVec.ofNat_add, ← h.seq]
      rfl
    · obtain ⟨hold, hne⟩ := hother j hji k' hj
      obtain ⟨hmem, hrest⟩ := h.entry j k' hold
      rw [s.confirm_ne hji, ticket_cons_ne hne]
      exact ⟨mem_cons_of_mem k hmem, hrest⟩

/-- A target with an entry of this key epoch. -/
def Ledger.Active (s : Ledger) (k : Key) : Prop := ∃ i, (s.entries i).Holds k ∧ s.stale i = false

/-- The slot a note of a target writes. -/
structure Ledger.Takes (s : Ledger) (k : Key) (i : Fin lockoutMax) : Prop where
  alone : ∀ j ≠ i, ¬(s.entries j).Holds k
  evicts : ∀ k' ≠ k, s.evictedBy k = some k' ↔ (s.entries i).Holds k'
  new : ∀ v, s.evictedBy k = some v → v ≠ k ∧ (∀ j, ¬(s.entries j).Holds k) ∧
    ∀ j, (s.entries j).inUse = true ∧ s.rank i ≤ s.rank j

variable {target : BitVec 32}

theorem Ledger.find_eq (h : target ≠ 0) (s : Ledger) (isGroup : ℤ) :
    s.find target isGroup = s.slotOf (keyOf target isGroup) := if_neg h

theorem Ledger.Unique.note (h : s.Unique) (htarget : target ≠ 0) (isGroup : ℤ) (ev : Evidence) :
    ∃ i e, (s.note target isGroup ev).2 = s.confirm i e ev ∧ e.key = keyOf target isGroup ∧
      s.Takes (keyOf target isGroup) i ∧
      ((s.note target isGroup ev).1 = 1 ↔ ¬s.Active (keyOf target isGroup)) := by
  rw [Ledger.note, if_neg htarget, s.find_eq htarget]
  cases hslot : s.slotOf (keyOf target isGroup) with
  | some i =>
    have hholds := slotOf_holds hslot
    refine ⟨i, s.entries i, rfl, hholds.2, ⟨fun j hj hk => hj (h j i _ hk hholds), ?_, ?_⟩, ?_⟩
    · intro k' hk'
      simp only [Ledger.evictedBy, hslot, Option.isSome_some, if_true]
      constructor
      · intro hnone
        cases hnone
      · intro hk
        exact absurd (hk.2.symm.trans hholds.2) hk'
    · intro v hv
      simp [Ledger.evictedBy, hslot] at hv
    · have hactive : s.Active (keyOf target isGroup) ↔ s.stale i = false := by
        constructor
        · rintro ⟨j, hj, hstale⟩
          rwa [h i j _ hholds hj]
        · exact fun hstale => ⟨i, hholds, hstale⟩
      rw [hactive]
      cases hstale : s.stale i <;> simp [hstale]
  | none =>
    have hnone := slotOf_eq_none.mp hslot
    obtain ⟨i, hi, hchosen⟩ := s.chooseSlot_spec
    rw [hi]
    have hevicted : s.evictedBy (keyOf target isGroup) =
        if (s.entries i).inUse then some (s.entries i).key else none := by
      simp [Ledger.evictedBy, hslot, hi]
    refine ⟨i, _, rfl, rfl, ⟨fun j _ => hnone j, ?_, ?_⟩, ?_⟩
    · intro k' _
      rw [hevicted, Entry.Holds]
      cases (s.entries i).inUse <;> simp
    · intro v hv
      rw [hevicted] at hv
      split at hv
      · rename_i huse
        have hkey : (s.entries i).key = v := Option.some.inj hv
        refine ⟨fun hvk => hnone i ⟨huse, hkey.trans hvk⟩, hnone, ?_⟩
        rcases hchosen with hfree | hall
        · rw [hfree] at huse
          cases huse
        · exact hall
      · cases hv
    · have hidle : ¬s.Active (keyOf target isGroup) := fun ⟨j, hj, _⟩ => hnone j hj
      simp [hidle]

theorem Ledger.Unique.entryActive (h : s.Unique) (htarget : target ≠ 0) (isGroup : ℤ) :
    (s.entryActive target isGroup = 1 ↔ s.Active (keyOf target isGroup)) ∧
      (s.entryActive target isGroup = 0 ↔ ¬s.Active (keyOf target isGroup)) := by
  rw [Ledger.entryActive, s.find_eq htarget]
  cases hslot : s.slotOf (keyOf target isGroup) with
  | none =>
    have hnone := slotOf_eq_none.mp hslot
    have hidle : ¬s.Active (keyOf target isGroup) := fun ⟨j, hj, _⟩ => hnone j hj
    simp [hidle]
  | some i =>
    have hholds := slotOf_holds hslot
    have hactive : s.Active (keyOf target isGroup) ↔ (s.entries i).keyEpoch = s.keyEpoch := by
      constructor
      · rintro ⟨j, hj, hstale⟩
        rw [h i j _ hholds hj]
        simpa [Ledger.stale] using hstale
      · exact fun hepoch => ⟨i, hholds, by simpa [Ledger.stale] using hepoch⟩
    rw [hactive]
    by_cases hepoch : (s.entries i).keyEpoch = s.keyEpoch <;> simp [hepoch]

theorem Ledger.Takes.active_confirm (h : s.Takes k i) (hunique : s.Unique) {e : Entry}
    (hkey : e.key = k) (ev : Evidence) (k' : Key) :
    (s.confirm i e ev).Active k' ↔ k' = k ∨ (s.evictedBy k ≠ some k' ∧ s.Active k') := by
  by_cases hk : k' = k
  · subst hk
    simp only [true_or, iff_true]
    refine ⟨i, ?_, by simp [Ledger.stale, Ledger.confirm, confirmed]⟩
    rw [s.confirm_self, holds_confirmed]
    exact hkey
  · rw [ne_eq, h.evicts k' hk]
    simp only [hk, false_or]
    constructor
    · rintro ⟨j, hj, hstale⟩
      by_cases hji : j = i
      · subst hji
        rw [s.confirm_self, holds_confirmed, hkey] at hj
        exact absurd hj.symm hk
      · rw [Ledger.stale, s.confirm_ne hji] at hstale
        rw [s.confirm_ne hji] at hj
        exact ⟨fun hi => hji (hunique j i k' hj hi), j, hj, hstale⟩
    · rintro ⟨hout, j, hj, hstale⟩
      have hji : j ≠ i := fun hji => hout (hji ▸ hj)
      refine ⟨j, by rwa [s.confirm_ne hji], ?_⟩
      rw [Ledger.stale, s.confirm_ne hji]
      exact hstale

/-- The activity of the targets after an entry is given up. -/
theorem Ledger.Unique.active_release (h : s.Unique) (htarget : target ≠ 0) (isGroup : ℤ) (k : Key) :
    (s.release target isGroup).2.Active k ↔ k ≠ keyOf target isGroup ∧ s.Active k := by
  rw [Ledger.release, if_neg htarget, s.find_eq htarget]
  cases hslot : s.slotOf (keyOf target isGroup) with
  | none =>
    have hnone := slotOf_eq_none.mp hslot
    have hkey : s.Active k → k ≠ keyOf target isGroup := by
      rintro ⟨j, hj, -⟩ rfl
      exact hnone j hj
    exact ⟨fun hk => ⟨hkey hk, hk⟩, And.right⟩
  | some i =>
    have hholds := slotOf_holds hslot
    constructor
    · rintro ⟨j, hj, hstale⟩
      by_cases hji : j = i
      · subst hji
        simp [Entry.Holds, blank] at hj
      · simp only [Ledger.stale, Function.update_of_ne hji] at hj hstale
        exact ⟨fun hk => hji (h j i _ hj (hk ▸ hholds)), j, hj, hstale⟩
    · rintro ⟨hne, j, hj, hstale⟩
      have hji : j ≠ i := by
        rintro rfl
        exact hne (hj.2.symm.trans hholds.2)
      refine ⟨j, ?_, ?_⟩
      · simpa only [Function.update_of_ne hji] using hj
      · simpa only [Ledger.stale, Function.update_of_ne hji] using hstale

theorem locked_noted (h : s.Takes k i) (k' : Key) (log : List Event) :
    Locked k' ((s.evictedBy k).toList.map evicted ++ .noted k :: log) ↔
      k' = k ∨ (s.evictedBy k ≠ some k' ∧ Locked k' log) := by
  have hnoted : Locked k' (.noted k :: log) ↔ k' = k ∨ Locked k' log := by
    rw [locked_cons]
    simp [Event.Ends, eq_comm]
  cases hevicted : s.evictedBy k with
  | none => simpa using hnoted
  | some v =>
    have hv := (h.new v hevicted).1
    simp only [Option.toList_some, map_cons, map_nil, singleton_append, locked_cons, hnoted]
    by_cases hk : k' = k
    · subst hk
      simp [Event.Ends, hv]
    · simp [Event.Ends, hk]

/-- Every eviction was of a target that had been noted, with a full ledger of others noted since. -/
def Earned (log : List Event) : Prop :=
  ∀ after earlier v, log = after ++ .evicted v :: earlier →
    v ∈ notes earlier ∧ lockoutMax ≤ (usedSince v (notes earlier)).toFinset.card

theorem Earned.cons (h : Earned log) (he : ∀ v, e = .evicted v →
      v ∈ notes log ∧ lockoutMax ≤ (usedSince v (notes log)).toFinset.card) :
    Earned (e :: log) := by
  intro after earlier v hlog
  cases after with
  | nil =>
    obtain ⟨rfl, rfl⟩ := List.cons.inj hlog
    exact he v rfl
  | cons e' after => exact h after earlier v (List.cons.inj hlog).2

theorem Told.evicts (h : Told s log) (hwrap : Unwrapped log) {v : Key} (htakes : s.Takes k i)
    (hv : s.evictedBy k = some v) :
    v ∈ notes log ∧ lockoutMax ≤ (usedSince v (notes (.noted k :: log))).toFinset.card := by
  obtain ⟨hne, hnew, hfull⟩ := htakes.new v hv
  have hholds : ∀ j, (s.entries j).Holds (s.entries j).key := fun j => ⟨(hfull j).1, rfl⟩
  have hi : (s.entries i).Holds v := (htakes.evicts v hne).mp hv
  let held : Finset Key := Finset.univ.image fun j => (s.entries j).key
  have hcard : held.card = lockoutMax := by
    rw [Finset.card_image_of_injective, Finset.card_univ, Fintype.card_fin]
    intro a b hab
    have hab' : (s.entries a).key = (s.entries b).key := hab
    exact h.unique a b _ (hholds a) (hab' ▸ hholds b)
  have hheld : ∀ z ∈ held, ∃ j, (s.entries j).Holds z := by
    intro z hz
    obtain ⟨j, -, rfl⟩ := Finset.mem_image.mp hz
    exact ⟨j, hholds j⟩
  have hseq : ∀ j z, (s.entries j).Holds z →
      (s.entries j).lastSeq.toNat = ticket z (notes log) := by
    intro j z hz
    have hle := ticket_le z (notes log)
    have hlen := hwrap.1
    rw [(h.entry j z hz).2.1, BitVec.toNat_ofNat, Nat.mod_eq_of_lt (by omega)]
  have hleast : ∀ z ∈ held, ticket v (notes log) ≤ ticket z (notes log) := by
    intro z hz
    obtain ⟨j, hj⟩ := hheld z hz
    have hrank := (hfull j).2
    have hbound := (s.entries j).lastSeq.isLt
    rw [Ledger.rank, Ledger.rank, hseq i v hi, hseq j z hj] at hrank
    have hsi := h.stale_iff hwrap hi
    have hsj := h.stale_iff hwrap hj
    rw [hseq j z hj] at hbound
    by_cases hstale : s.stale i = true <;> by_cases hstale' : s.stale j = true <;>
      simp only [hstale, hstale', if_true, if_false, true_iff, false_iff, Bool.false_eq_true]
        at * <;>
      omega
  have hmem : v ∈ held := Finset.mem_image.mpr ⟨i, Finset.mem_univ i, hi.2⟩
  have hout : k ∉ held := fun hk => by
    obtain ⟨j, hj⟩ := hheld k hk
    exact hnew j hj
  have hused : ∀ z ∈ held, z ∈ notes log := by
    intro z hz
    obtain ⟨j, hj⟩ := hheld z hz
    exact (h.entry j z hj).1
  rw [← hcard, notes_noted]
  exact ⟨hused v hmem, card_le_usedSince hmem hout hused hleast⟩

/-- What the ledger of a course remembers of its log. -/
structure Remembers (c : Course) : Prop where
  told : Told c.ledger c.log
  locked : ∀ k, Locked k c.log ↔ c.ledger.Active k
  earned : Earned c.log

theorem Remembers.start : Remembers ⟨Ledger.init, []⟩ := by
  have hidle : ∀ (i : Fin lockoutMax) (k : Key), ¬(Ledger.init.entries i).Holds k := by
    simp [Ledger.init, Entry.Holds, blank]
  refine ⟨⟨fun i _ k hi => absurd hi (hidle i k), rfl, rfl, fun i k hi => absurd hi (hidle i k)⟩,
    fun k => ?_, ?_⟩
  · simp only [not_locked_nil, false_iff]
    rintro ⟨i, hi, -⟩
    exact hidle i k hi
  · intro after earlier v hlog
    simp at hlog

variable {c : Course}

theorem Remembers.note (h : Remembers c) (hwrap : Unwrapped c.log) (htarget : target ≠ 0)
    (isGroup : ℤ) (ev : Evidence) : Remembers (c.step (.note target isGroup ev)) := by
  obtain ⟨i, e, hnote, hkey, htakes, -⟩ := h.told.unique.note htarget isGroup ev
  have hledger : (c.step (.note target isGroup ev)).ledger = c.ledger.confirm i e ev := hnote
  have hlog : (c.step (.note target isGroup ev)).log =
      (c.ledger.evictedBy (keyOf target isGroup)).toList.map evicted ++
        .noted (keyOf target isGroup) :: c.log := by
    simp only [Course.step, Ledger.events, if_neg htarget, append_assoc, singleton_append]
  have htold := h.told.confirm hkey htakes.alone ev
  have hearned : Earned (.noted (keyOf target isGroup) :: c.log) := h.earned.cons (by simp)
  constructor
  · rw [hledger, hlog]
    cases c.ledger.evictedBy (keyOf target isGroup) with
    | none => exact htold
    | some v => exact htold.skip rfl (by simp)
  · intro k
    rw [hledger, hlog, locked_noted htakes, htakes.active_confirm h.told.unique hkey, h.locked]
  · rw [hlog]
    cases hevicted : c.ledger.evictedBy (keyOf target isGroup) with
    | none => exact hearned
    | some v =>
      refine hearned.cons fun v' hv' => ?_
      obtain rfl := evicted.inj hv'
      obtain ⟨hmem, hcard⟩ := h.told.evicts hwrap htakes hevicted
      exact ⟨mem_cons_of_mem _ hmem, hcard⟩

theorem Told.release (h : Told s log) (target : BitVec 32) (isGroup : ℤ) :
    Told (s.release target isGroup).2 log := by
  rw [Ledger.release]
  split
  · exact h
  · split
    · rename_i i _
      refine h.fewer rfl rfl fun j k hj => ?_
      by_cases hji : j = i
      · subst hji
        simp [Entry.Holds, blank] at hj
      · simp [hji]
    · exact h

theorem Remembers.release (h : Remembers c) (htarget : target ≠ 0) (isGroup : ℤ) :
    Remembers (c.step (.release target isGroup)) := by
  have hlog : (c.step (.release target isGroup)).log = .released
    (keyOf target isGroup) :: c.log := by
    simp only [Course.step, Ledger.events, if_neg htarget, singleton_append]
  constructor
  · rw [hlog]
    exact (h.told.release target isGroup).skip rfl (by simp)
  · intro k
    have hactive := h.told.unique.active_release htarget isGroup k
    rw [hlog, locked_cons, h.locked]
    refine Iff.trans ?_ hactive.symm
    simp [Event.Ends, eq_comm]
  · rw [hlog]
    exact h.earned.cons (by simp)

theorem Remembers.bump (h : Remembers c) (hwrap : Unwrapped (c.step .bumpKeyEpoch).log) :
    Remembers (c.step .bumpKeyEpoch) := by
  have htold : Told (c.step .bumpKeyEpoch).ledger (c.step .bumpKeyEpoch).log := h.told.bump
  refine ⟨htold, fun k => ?_, h.earned.cons (by simp)⟩
  have hidle : ¬(c.step .bumpKeyEpoch).ledger.Active k := by
    rintro ⟨i, hi, hstale⟩
    have hle := ticket_le k (notes c.log)
    have hold := (htold.stale_iff hwrap hi).mpr hle
    rw [hstale] at hold
    cases hold
  simp only [hidle, iff_false]
  simp [Course.step, Ledger.events, locked_cons, Event.Ends]

theorem Remembers.clear (h : Remembers c) : Remembers (c.step .clearAll) := by
  have hidle : ∀ i k, ¬((c.step .clearAll).ledger.entries i).Holds k := by
    simp [Course.step, Ledger.perform, Ledger.clearAll, Entry.Holds, blank]
  have htold : Told (c.step .clearAll).ledger c.log :=
    h.told.fewer rfl rfl fun i k hi => absurd hi (hidle i k)
  have hbump : cleared ≠ .bumped := by simp
  refine ⟨htold.skip rfl hbump, fun k => ?_, h.earned.cons (by simp)⟩
  have hidle' : ¬(c.step .clearAll).ledger.Active k := fun ⟨i, hi, _⟩ => hidle i k hi
  simp only [hidle', iff_false]
  simp [Course.step, Ledger.events, locked_cons, Event.Ends]

theorem Remembers.step (h : Remembers c) {op : Op} (hwrap : Unwrapped c.log)
    (hwrap' : Unwrapped (c.step op).log) : Remembers (c.step op) := by
  have hzero : ∀ op : Op, c.ledger.perform op = c.ledger → c.ledger.events op = [] →
    c.step op = c := by
    intro op hsame hnone
    rw [Course.step, hsame, hnone]
    rfl
  cases op with
  | note target isGroup ev =>
    by_cases htarget : target = 0
    · rw [hzero _ (by simp [Ledger.perform, Ledger.note, htarget])
        (by simp [Ledger.events, htarget])]
      exact h
    · exact h.note hwrap htarget isGroup ev
  | release target isGroup =>
    by_cases htarget : target = 0
    · rw [hzero _ (by simp [Ledger.perform, Ledger.release, htarget])
        (by simp [Ledger.events, htarget])]
      exact h
    · exact h.release htarget isGroup
  | bumpKeyEpoch => exact h.bump hwrap'
  | clearAll => exact h.clear

theorem Unwrapped.of_step {op : Op} (h : Unwrapped (c.step op).log) : Unwrapped c.log := by
  have hsub : c.log.Sublist (c.step op).log := sublist_append_right _ _
  have hnotes := (hsub.filterMap notedKey).length_le
  have hbumps : bumps c.log ≤ bumps (c.step op).log := hsub.count_le _
  exact ⟨lt_of_le_of_lt hnotes h.1, lt_of_le_of_lt hbumps h.2⟩

theorem run_remembers {ops : List Op} (hwrap : Unwrapped (run ops).log) : Remembers (run ops) := by
  induction ops using List.reverseRecOn with
  | nil => exact Remembers.start
  | append_singleton ops op ih =>
    have hrun : run (ops ++ [op]) = (run ops).step op := by simp [run]
    rw [hrun] at hwrap ⊢
    exact (ih hwrap.of_step).step hwrap.of_step hwrap

/-- Over any calls whose counters do not wrap, entries are unique, a target is active just while its
last note is of this key epoch and nothing ended it since, whoever was evicted had a full ledger of
others noted since, and `note` returns 1 just for a target that was not active. -/
theorem ledger_forgets_least_recent (ops : List Op) (hwrap : Unwrapped (run ops).log) :
    (run ops).ledger.Unique ∧
    (∀ target isGroup, target ≠ 0 →
      ((run ops).ledger.entryActive target isGroup = 1 ↔
        Locked (keyOf target isGroup) (run ops).log)) ∧
    (∀ after earlier v, (run ops).log = after ++ .evicted v :: earlier →
      v ∈ notes earlier ∧ lockoutMax ≤ (usedSince v (notes earlier)).toFinset.card) ∧
    (∀ target isGroup ev, target ≠ 0 →
      (((run ops).ledger.note target isGroup ev).1 = 1 ↔
        (run ops).ledger.entryActive target isGroup = 0)) := by
  have h := run_remembers hwrap
  refine ⟨h.told.unique, fun target isGroup htarget =>
    ?_, h.earned, fun target isGroup ev htarget => ?_⟩
  · rw [(h.told.unique.entryActive htarget isGroup).1, h.locked]
  · obtain ⟨i, e, -, -, -, hreturns⟩ := h.told.unique.note htarget isGroup ev
    rw [hreturns, (h.told.unique.entryActive htarget isGroup).2]

/-- Two targets, one of them released, and a change of the keys. -/
def lockedAndReleased : List Op :=
  [.note 100 1 ⟨0x84, 3, 0⟩, .bumpKeyEpoch, .note 200 1 ⟨-1, 0, 1⟩, .note 300 0 ⟨0x81, 9, 1⟩,
    .release 200 1]

/-- Notes, a key change and a release. -/
theorem ledger_forgets_least_recent_released :
    (run lockedAndReleased).ledger.entryActive 300 0 = 1 ∧
      ((run lockedAndReleased).ledger.note 100 1 ⟨-1, 0, 2⟩).1 = 1 := by
  have hlog : (run lockedAndReleased).log =
      [.released ⟨200, true⟩, .noted ⟨300, false⟩, .noted ⟨200, true⟩, .bumped,
        .noted ⟨100, true⟩] := by
    decide
  have hwrap : Unwrapped (run lockedAndReleased).log := by
    rw [hlog]
    exact ⟨by decide, by decide⟩
  obtain ⟨-, hactive, -, hnote⟩ := ledger_forgets_least_recent lockedAndReleased hwrap
  constructor
  · rw [hactive 300 0 (by decide), hlog]
    exact ⟨[.released ⟨200, true⟩], _, rfl, by simp [Event.Ends, keyOf]⟩
  · rw [hnote 100 1 ⟨-1, 0, 2⟩ (by decide)]
    decide

/-- A note of target 0 is refused, although target 0 is never active. -/
theorem note_zero_refused :
    ¬(((run []).ledger.note 0 1 ⟨0x84, 3, 0⟩).1 = 1 ↔ (run []).ledger.entryActive 0 1 = 0) := by
  decide

end DsdNeo.EncLockout
