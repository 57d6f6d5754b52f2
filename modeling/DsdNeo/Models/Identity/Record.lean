import Mathlib.Algebra.Order.Ring.Nat
import Mathlib.Data.Finset.Basic

/-!
# The received identity

What a carrier sent about its system: parts with a valid and a fresh mark, the family
they belong to, and an epoch that moves whenever the record turns to another identity.
-/

namespace DsdNeo.Identity

open Finset

/-- `dsd_rxid_family`. -/
inductive Family where
  | noFamily
  | dmr
  | p25
  | nxdn
  | dpmr
  | m17
  | tetra
  | edacs
  | other
  deriving DecidableEq, Repr

/-- The `DSD_RXID_*` part bits. -/
inductive Part where
  | access
  | p25Wacn
  | p25Sysid
  | p25Site
  | p25Lra
  | dmrRestLsn
  | dmrSiteText
  | dmrBrand
  | dmrT3Syscode
  | nxdnLocation
  | nxdnIdasArea
  | nxdnIdasSite
  | nxdnTypedSystem
  | edacsSite
  | edacsArea
  | edacsSystem
  | edacsCcLcn
  | tetraNet
  | tetraLa
  | ccFreq
  | dmrXptFreeLcn
  | dmrVendor
  deriving DecidableEq, Repr

/-- The values of `dsd_received_identity`. -/
structure Values where
  p25Wacn : ℕ := 0
  nxdnSys : ℕ := 0
  nxdnTypedSys : ℕ := 0
  ccFreqHz : ℕ := 0
  access : ℕ := 0
  p25Sysid : ℕ := 0
  nxdnSite : ℕ := 0
  dmrRestLsn : ℕ := 0
  dmrT3Syscode : ℕ := 0
  edacsSite : ℕ := 0
  edacsArea : ℕ := 0
  edacsSystem : ℕ := 0
  edacsCcLcn : ℕ := 0
  tetraMcc : ℕ := 0
  tetraMnc : ℕ := 0
  tetraLa : ℕ := 0
  accessKind : ℕ := 0
  p25Rfss : ℕ := 0
  p25Site : ℕ := 0
  p25Lra : ℕ := 0
  nxdnCategory : ℕ := 0
  nxdnIdasArea : ℕ := 0
  nxdnIdasSiteType : ℕ := 0
  nxdnIdasSiteCode : ℕ := 0
  nxdnTypedSite : ℕ := 0
  dmrXptFreeLcn : ℕ := 0
  dmrTrunk : ℕ := 0
  dmrVendor : ℕ := 0
  edacsEaMode : ℤ := 0
  tetraColour : ℕ := 0
  dmrSiteText : List Char := []
  dmrBrand : List Char := []

/-- `dsd_received_identity`; `moves` counts what its 32-bit epoch counts, uncut. -/
structure Received where
  moves : ℕ := 0
  family : Family := .noFamily
  valid : Finset Part := ∅
  fresh : Finset Part := ∅
  values : Values := {}

/-- The epoch as the record stores it. -/
def Received.epoch (id : Received) : ℕ := id.moves % 2 ^ 32

/-- `rxid_clear`. -/
def Received.clear (id : Received) : Received := { moves := id.moves + 1 }

/-- `rxid_set`. -/
def Received.set (parts : Finset Part) (id : Received) : Received :=
  { id with valid := id.valid ∪ parts, fresh := id.fresh ∪ parts }

/-- `rxid_drop`. -/
def Received.drop (parts : Finset Part) (id : Received) : Received :=
  { id with valid := id.valid \ parts, fresh := id.fresh \ parts }

/-- Move the epoch. -/
def Received.move (id : Received) : Received := { id with moves := id.moves + 1 }

/-- `rxid_has`: one of these parts is valid. -/
def Received.Has (id : Received) (parts : Finset Part) : Prop := ∃ p ∈ parts, p ∈ id.valid

instance (id : Received) (parts : Finset Part) : Decidable (id.Has parts) :=
  inferInstanceAs (Decidable (∃ p ∈ parts, p ∈ id.valid))

/-- `rxid_invalidate`. -/
def Received.invalidate (parts : Finset Part) (id : Received) : Received :=
  if id.Has parts then (id.drop parts).move else id

/-- Invalidate parts when another identity was named. -/
def Received.invalidateIf (other : Prop) [Decidable other] (parts : Finset Part) (id : Received) :
    Received :=
  if other then id.invalidate parts else id

/-- Write values. -/
def Received.write (f : Values → Values) (id : Received) : Received :=
  { id with values := f id.values }

/-- Write values and mark the parts they are. -/
def Received.put (parts : Finset Part) (f : Values → Values) (id : Received) : Received :=
  (id.write f).set parts

/-- The record `rxid_for` gives a note of a family it holds. -/
def Received.ofFamily (family : Family) (id : Received) : Received :=
  if id.family = family then id
  else { (if id.family = .noFamily then id else id.clear) with family := family }

/-- `RXID_P25_SYSTEM`. -/
def p25SystemParts : Finset Part := {.p25Wacn, .p25Sysid, .p25Site, .p25Lra, .ccFreq}

/-- `RXID_DMR_TRUNK_PARTS`. -/
def dmrTrunkParts : Finset Part :=
  {.dmrRestLsn, .dmrSiteText, .dmrBrand, .dmrT3Syscode, .dmrXptFreeLcn}

/-- `RXID_NXDN_TYPE_D`. -/
def nxdnTypeD : Finset Part := {.nxdnIdasArea, .nxdnIdasSite, .nxdnTypedSystem}

/-- What only Type-C sends on an NXDN carrier. -/
def nxdnTypeC : Finset Part := {.nxdnLocation, .access}

/-- `RXID_EDACS_PARTS`. -/
def edacsParts : Finset Part := {.edacsSite, .edacsArea, .edacsSystem, .edacsCcLcn}

/-- `rxid_system_parts`. -/
def systemParts : Family → Finset Part
  | .dmr =>
    {.dmrRestLsn, .dmrSiteText, .dmrBrand, .dmrT3Syscode, .dmrXptFreeLcn, .dmrVendor, .ccFreq}
  | .p25 => p25SystemParts
  | .nxdn => {.nxdnLocation, .nxdnIdasArea, .nxdnIdasSite, .nxdnTypedSystem, .ccFreq}
  | .dpmr => {.ccFreq}
  | .tetra => {.tetraLa, .ccFreq}
  | .edacs => {.edacsSite, .edacsArea, .edacsSystem, .edacsCcLcn, .ccFreq}
  | .noFamily | .m17 | .other => ∅

/-- Whose part it is; an access code and a control channel are any family's. -/
def Part.owner : Part → Option Family
  | .access | .ccFreq => none
  | .p25Wacn | .p25Sysid | .p25Site | .p25Lra => some .p25
  | .dmrRestLsn | .dmrSiteText | .dmrBrand | .dmrT3Syscode | .dmrXptFreeLcn | .dmrVendor =>
    some .dmr
  | .nxdnLocation | .nxdnIdasArea | .nxdnIdasSite | .nxdnTypedSystem => some .nxdn
  | .edacsSite | .edacsArea | .edacsSystem | .edacsCcLcn => some .edacs
  | .tetraNet | .tetraLa => some .tetra

/-- A part a family can send. -/
def Part.IsOf (part : Part) (family : Family) : Prop :=
  family ≠ .noFamily ∧ (part.owner = none ∨ part.owner = some family)

instance (part : Part) (family : Family) : Decidable (part.IsOf family) :=
  inferInstanceAs (Decidable (_ ∧ _))

/-- What a part that names a system, a site or a cell says; `none` for the others. -/
def Values.named (v : Values) : Part → Option (List ℕ ⊕ List Char)
  | .p25Wacn => some (.inl [v.p25Wacn])
  | .p25Sysid => some (.inl [v.p25Sysid])
  | .p25Site => some (.inl [v.p25Rfss, v.p25Site])
  | .dmrT3Syscode => some (.inl [v.dmrT3Syscode])
  | .dmrSiteText => some (.inr v.dmrSiteText)
  | .nxdnLocation => some (.inl [v.nxdnCategory, v.nxdnSys, v.nxdnSite])
  | .nxdnIdasArea => some (.inl [v.nxdnIdasArea])
  | .nxdnIdasSite => some (.inl [v.nxdnIdasSiteType, v.nxdnIdasSiteCode])
  | .nxdnTypedSystem => some (.inl [v.nxdnTypedSys, v.nxdnTypedSite])
  | .edacsSystem => some (.inl [v.edacsSystem])
  | .edacsSite => some (.inl [v.edacsSite])
  | .tetraNet => some (.inl [v.tetraMcc, v.tetraMnc, v.tetraColour])
  | .access | .p25Lra | .dmrRestLsn | .dmrBrand | .edacsArea | .edacsCcLcn | .tetraLa | .ccFreq
  | .dmrXptFreeLcn | .dmrVendor => none

/-- A record that names one system. -/
structure Received.Good (id : Received) : Prop where
  fresh : id.fresh ⊆ id.valid
  own : ∀ p ∈ id.valid, p.IsOf id.family
  oneKind : id.Has nxdnTypeD → ¬ id.Has nxdnTypeC
  sameSite : .nxdnIdasSite ∈ id.valid → .nxdnTypedSystem ∈ id.valid →
    id.values.nxdnIdasSiteCode = id.values.nxdnTypedSite
  siteOfSystem : .p25Site ∈ id.valid → .p25Sysid ∈ id.valid
  lraOfSystem : .p25Lra ∈ id.valid → .p25Sysid ∈ id.valid
  laOfNet : .tetraLa ∈ id.valid → .tetraNet ∈ id.valid

/-- A later record: while the epoch has not moved, what named the system still does. -/
structure Continues (a b : Received) : Prop where
  le : a.moves ≤ b.moves
  kept : a.moves = b.moves → ∀ p ∈ a.valid, a.values.named p ≠ none →
    p ∈ b.valid ∧ b.values.named p = a.values.named p

theorem Continues.refl (a : Received) : Continues a a :=
  ⟨Nat.le_refl _, fun _ _ hp _ => ⟨hp, rfl⟩⟩

theorem Continues.trans {a b c : Received} (h : Continues a b) (h' : Continues b c) :
    Continues a c := by
  refine ⟨h.le.trans h'.le, fun same p hp named => ?_⟩
  have le := h.le
  have le' := h'.le
  obtain ⟨there, value⟩ := h.kept (by omega) p hp named
  obtain ⟨there', value'⟩ := h'.kept (by omega) p there (by rwa [value])
  exact ⟨there', value'.trans value⟩

/-- A record whose epoch has moved names nothing of the old identity. -/
theorem Continues.of_lt {a b : Received} (h : a.moves < b.moves) : Continues a b :=
  ⟨h.le, fun same => absurd same h.ne⟩

theorem continues_clear (id : Received) : Continues id id.clear :=
  .of_lt (Nat.lt_succ_self _)

theorem good_empty (moves : ℕ) (values : Values) (family : Family) :
    Received.Good ⟨moves, family, ∅, ∅, values⟩ where
  fresh := Finset.Subset.refl _
  own := fun p hp => by cases hp
  oneKind := fun ⟨p, _, hp⟩ => by cases hp
  sameSite := fun hp => by cases hp
  siteOfSystem := fun hp => by cases hp
  lraOfSystem := fun hp => by cases hp
  laOfNet := fun hp => by cases hp

theorem good_clear (id : Received) : id.clear.Good := good_empty _ _ _

/-- Parts that can go without leaving one that hangs on them. -/
structure Closed (parts : Finset Part) : Prop where
  p25Site : .p25Sysid ∈ parts → .p25Site ∈ parts
  p25Lra : .p25Sysid ∈ parts → .p25Lra ∈ parts
  tetraLa : .tetraNet ∈ parts → .tetraLa ∈ parts

variable {parts : Finset Part} {id : Received}

theorem Received.Good.drop (h : id.Good) (closed : Closed parts) : (id.drop parts).Good := by
  have less {p : Part} (hp : p ∈ (id.drop parts).valid) : p ∈ id.valid ∧ p ∉ parts :=
    mem_sdiff.mp hp
  have fewer {ps : Finset Part} (hp : (id.drop parts).Has ps) : id.Has ps := by
    obtain ⟨p, hps, hp⟩ := hp
    exact ⟨p, hps, (less hp).1⟩
  refine ⟨sdiff_subset_sdiff h.fresh (Finset.Subset.refl _), fun p hp => h.own p (less hp).1,
    fun hd hc => h.oneKind (fewer hd) (fewer hc), fun hs ht => h.sameSite (less hs).1 (less ht).1,
    fun hp => ?_, fun hp => ?_, fun hp => ?_⟩
  · exact mem_sdiff.mpr ⟨h.siteOfSystem (less hp).1, fun hs => (less hp).2 (closed.p25Site hs)⟩
  · exact mem_sdiff.mpr ⟨h.lraOfSystem (less hp).1, fun hs => (less hp).2 (closed.p25Lra hs)⟩
  · exact mem_sdiff.mpr ⟨h.laOfNet (less hp).1, fun hs => (less hp).2 (closed.tetraLa hs)⟩

theorem Received.Good.move (h : id.Good) : id.move.Good :=
  ⟨h.fresh, h.own, h.oneKind, h.sameSite, h.siteOfSystem, h.lraOfSystem, h.laOfNet⟩

theorem Received.Good.invalidate (h : id.Good) (closed : Closed parts) :
    (id.invalidate parts).Good := by
  unfold Received.invalidate
  split
  · exact (h.drop closed).move
  · exact h

theorem Received.Good.invalidateIf (h : id.Good) (other : Prop) [Decidable other]
    (closed : Closed parts) : (id.invalidateIf other parts).Good := by
  unfold Received.invalidateIf
  split
  · exact h.invalidate closed
  · exact h

theorem continues_drop_move (id : Received) (parts : Finset Part) :
    Continues id (id.drop parts).move :=
  .of_lt (Nat.lt_succ_self _)

theorem continues_invalidate (id : Received) (parts : Finset Part) :
    Continues id (id.invalidate parts) := by
  unfold Received.invalidate
  split
  · exact continues_drop_move id parts
  · exact .refl id

theorem continues_invalidateIf (id : Received) (other : Prop) [Decidable other]
    (parts : Finset Part) : Continues id (id.invalidateIf other parts) := by
  unfold Received.invalidateIf
  split
  · exact continues_invalidate id parts
  · exact .refl id

variable {p : Part}

/-- A part that goes is gone. -/
theorem not_mem_invalidate (id : Received) (hp : p ∈ parts) : p ∉ (id.invalidate parts).valid := by
  unfold Received.invalidate
  split
  · exact fun h => (mem_sdiff.mp h).2 hp
  · rename_i none
    exact fun h => none ⟨p, hp, h⟩

/-- A part that stays did not go. -/
theorem mem_of_mem_invalidate (h : p ∈ (id.invalidate parts).valid) : p ∈ id.valid := by
  unfold Received.invalidate at h
  split at h
  · exact (mem_sdiff.mp h).1
  · exact h

/-- What stays after a conditional invalidation: it was there, and the condition failed. -/
theorem mem_of_mem_invalidateIf {other : Prop} [Decidable other]
    (h : p ∈ (id.invalidateIf other parts).valid) : p ∈ id.valid ∧ (p ∈ parts → ¬ other) := by
  unfold Received.invalidateIf at h
  split at h
  · exact ⟨mem_of_mem_invalidate h, fun hp => absurd h (not_mem_invalidate id hp)⟩
  · rename_i hno
    exact ⟨h, fun _ => hno⟩

@[simp] theorem invalidate_values (id : Received) (parts : Finset Part) :
    (id.invalidate parts).values = id.values := by
  unfold Received.invalidate
  split <;> rfl

@[simp] theorem invalidateIf_values (id : Received) (other : Prop) [Decidable other]
    (parts : Finset Part) : (id.invalidateIf other parts).values = id.values := by
  unfold Received.invalidateIf
  split
  · exact invalidate_values id parts
  · rfl

@[simp] theorem invalidate_family (id : Received) (parts : Finset Part) :
    (id.invalidate parts).family = id.family := by
  unfold Received.invalidate
  split <;> rfl

@[simp] theorem invalidateIf_family (id : Received) (other : Prop) [Decidable other]
    (parts : Finset Part) : (id.invalidateIf other parts).family = id.family := by
  unfold Received.invalidateIf
  split
  · exact invalidate_family id parts
  · rfl

variable {f : Values → Values}

theorem continues_write (same : ∀ p ∈ id.valid, id.values.named p ≠ none →
      (f id.values).named p = id.values.named p) : Continues id (id.write f) :=
  ⟨Nat.le_refl _, fun _ p hp named => ⟨hp, same p hp named⟩⟩

theorem Received.Good.write (h : id.Good)
    (site : .nxdnIdasSite ∈ id.valid → .nxdnTypedSystem ∈ id.valid →
      (f id.values).nxdnIdasSiteCode = (f id.values).nxdnTypedSite) : (id.write f).Good :=
  ⟨h.fresh, h.own, h.oneKind, site, h.siteOfSystem, h.lraOfSystem, h.laOfNet⟩

theorem continues_set (id : Received) (parts : Finset Part) : Continues id (id.set parts) :=
  ⟨Nat.le_refl _, fun _ _ hp _ => ⟨mem_union_left _ hp, rfl⟩⟩

theorem mem_set :
    p ∈ (id.set parts).valid ↔ p ∈ id.valid ∨ p ∈ parts := mem_union

theorem Received.Good.ofFamily (h : id.Good) (family : Family) : (id.ofFamily family).Good := by
  unfold Received.ofFamily
  split
  · exact h
  · split
    · rename_i hno
      -- a record of no family holds no part, so it may take any
      have empty : id.valid = ∅ := by
        refine eq_empty_of_forall_notMem fun p hp => ?_
        exact (h.own p hp).1 hno
      have stale : id.fresh = ∅ := subset_empty.mp (empty ▸ h.fresh)
      obtain ⟨moves, fam, valid, fresh, values⟩ := id
      cases empty
      cases stale
      exact good_empty _ _ _
    · exact good_empty _ _ _

theorem continues_ofFamily (h : id.Good) (family : Family) : Continues id (id.ofFamily family) := by
  unfold Received.ofFamily
  split
  · exact .refl id
  · split
    · rename_i hno
      exact ⟨Nat.le_refl _, fun _ p hp _ => absurd hno (h.own p hp).1⟩
    · exact .of_lt (Nat.lt_succ_self _)

@[simp] theorem ofFamily_family (id : Received) (family : Family) :
    (id.ofFamily family).family = family := by
  unfold Received.ofFamily
  split
  · assumption
  · rfl

theorem continues_put (same : ∀ p ∈ id.valid, id.values.named p ≠ none →
      (f id.values).named p = id.values.named p) : Continues id (id.put parts f) :=
  (continues_write same).trans (continues_set _ parts)

theorem Received.Good.put (h : id.Good) (other : id.family ≠ .nxdn)
    (own : ∀ p ∈ parts, p.IsOf id.family)
    (site : .p25Site ∈ parts → .p25Sysid ∈ id.valid ∨ .p25Sysid ∈ parts)
    (lra : .p25Lra ∈ parts → .p25Sysid ∈ id.valid ∨ .p25Sysid ∈ parts)
    (la : .tetraLa ∈ parts → .tetraNet ∈ id.valid ∨ .tetraNet ∈ parts) : (id.put parts f).Good := by
  have owned : ∀ p ∈ (id.put parts f).valid, p.IsOf id.family := fun p hp =>
    (mem_set.mp hp).elim (h.own p) (own p)
  have noTypeD : ∀ p ∈ nxdnTypeD, p ∉ (id.put parts f).valid := by
    intro p hp hv
    have mine := (owned p hv).2
    cases p <;> simp [nxdnTypeD] at hp <;> simp [Part.owner] at mine <;> exact other mine.symm
  refine ⟨union_subset_union h.fresh (Finset.Subset.refl _), owned,
    fun ⟨p, hp, hv⟩ => absurd hv (noTypeD p hp), fun hv => absurd hv (noTypeD _ (by decide)),
    fun hv => mem_set.mpr ?_, fun hv => mem_set.mpr ?_, fun hv => mem_set.mpr ?_⟩
  · exact (mem_set.mp hv).elim (fun hv => Or.inl (h.siteOfSystem hv)) site
  · exact (mem_set.mp hv).elim (fun hv => Or.inl (h.lraOfSystem hv)) lra
  · exact (mem_set.mp hv).elim (fun hv => Or.inl (h.laOfNet hv)) la

theorem Received.Good.putNxdn (h : id.Good) (nxdn : id.family = .nxdn)
    (own : ∀ p ∈ parts, p.IsOf .nxdn)
    (kind : (parts ⊆ nxdnTypeC ∧ ¬ id.Has nxdnTypeD) ∨ (parts ⊆ nxdnTypeD ∧ ¬ id.Has nxdnTypeC))
    (site : .nxdnIdasSite ∈ id.valid ∨ .nxdnIdasSite ∈ parts →
      .nxdnTypedSystem ∈ id.valid ∨ .nxdnTypedSystem ∈ parts →
      (f id.values).nxdnIdasSiteCode = (f id.values).nxdnTypedSite) : (id.put parts f).Good := by
  have owned : ∀ p ∈ (id.put parts f).valid, p.IsOf id.family := fun p hp =>
    (mem_set.mp hp).elim (h.own p) (by rw [nxdn]; exact own p)
  have mine {p : Part} {family : Family} (ne : family ≠ .nxdn) (howner : p.owner = some family)
      (hv : p ∈ (id.put parts f).valid) : False := by
    have him := (owned p hv).2
    rw [howner, nxdn] at him
    simp [ne] at him
  refine ⟨union_subset_union h.fresh (Finset.Subset.refl _), owned, ?_,
    fun hs ht => site (mem_set.mp hs) (mem_set.mp ht), fun hv => (mine (by decide) rfl hv).elim,
    fun hv => (mine (by decide) rfl hv).elim, fun hv => (mine (by decide) rfl hv).elim⟩
  have apart : ∀ p ∈ nxdnTypeC, p ∉ nxdnTypeD := by decide
  rintro ⟨p, hp, hv⟩ ⟨q, hq, hw⟩
  rcases kind with ⟨sub, no⟩ | ⟨sub, no⟩
  · exact (mem_set.mp hv).elim (fun hv => no ⟨p, hp, hv⟩) fun hv => apart p (sub hv) hp
  · exact (mem_set.mp hw).elim (fun hw => no ⟨q, hq, hw⟩) fun hw => apart q hq (sub hw)

end DsdNeo.Identity
