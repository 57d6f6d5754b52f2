import DsdNeo.Models.Identity.Notes

/-!
# One system at a time

Every note keeps the record to one system: what it adds belongs to what is there, or what
is there goes and the epoch moves. So within an epoch whatever names the system stands.
-/

namespace DsdNeo.Identity

open Received Values Finset

/-- A change that keeps the record's family, its order, and its names within the epoch. -/
structure Keeps (a b : Received) : Prop where
  good : b.Good
  family : b.family = a.family
  names : Continues a b

variable {a id : Received}

theorem Keeps.refl (h : a.Good) : Keeps a a := ⟨h, rfl, .refl a⟩

theorem Keeps.trans {b c : Received} (h : Keeps a b) (h' : Keeps b c) : Keeps a c :=
  ⟨h'.good, h'.family.trans h.family, h.names.trans h'.names⟩

section Parts

variable {id : Received} {parts : Finset Part}

theorem keeps_invalidate (h : id.Good) (parts : Finset Part) (closed : Closed parts) :
    Keeps id (id.invalidate parts) :=
  ⟨h.invalidate closed, invalidate_family id parts, continues_invalidate id parts⟩

theorem keeps_invalidateIf (h : id.Good) (other : Prop) [Decidable other] (parts : Finset Part)
    (closed : Closed parts) : Keeps id (id.invalidateIf other parts) :=
  ⟨h.invalidateIf other closed, invalidateIf_family id other parts,
    continues_invalidateIf id other parts⟩

variable {f : Values → Values}

theorem keeps_write (h : id.Good) (same : ∀ p, (f id.values).named p = id.values.named p)
    (site : (f id.values).nxdnIdasSiteCode = id.values.nxdnIdasSiteCode)
    (typed : (f id.values).nxdnTypedSite = id.values.nxdnTypedSite) : Keeps id (id.write f) :=
  ⟨h.write fun hs ht => by rw [site, typed]; exact h.sameSite hs ht, rfl,
    continues_write fun p _ _ => same p⟩

theorem named_of_others {v w : Values} {valid : Finset Part} (p : Part)
    (others : ∀ q ≠ p, w.named q = v.named q) (same : p ∈ valid → w.named p = v.named p) :
    ∀ q ∈ valid, v.named q ≠ none → w.named q = v.named q := by
  intro q hq _
  by_cases h : q = p
  · cases h
    exact same hq
  · exact others q h

theorem keeps_put (h : id.Good) (other : id.family ≠ .nxdn) (own : ∀ p ∈ parts, p.IsOf id.family)
    (same : ∀ p ∈ id.valid, id.values.named p ≠ none →
      (f id.values).named p = id.values.named p)
    (site : .p25Site ∈ parts → .p25Sysid ∈ id.valid ∨ .p25Sysid ∈ parts)
    (lra : .p25Lra ∈ parts → .p25Sysid ∈ id.valid ∨ .p25Sysid ∈ parts)
    (la : .tetraLa ∈ parts → .tetraNet ∈ id.valid ∨ .tetraNet ∈ parts) :
    Keeps id (id.put parts f) :=
  ⟨h.put other own site lra la, rfl, continues_put same⟩

theorem keeps_put_free (h : id.Good) (other : id.family ≠ .nxdn)
    (own : ∀ p ∈ parts, p.IsOf id.family) (same : ∀ p ∈ id.valid, id.values.named p ≠ none →
      (f id.values).named p = id.values.named p)
    (free : .p25Site ∉ parts ∧ .p25Lra ∉ parts ∧ .tetraLa ∉ parts) : Keeps id (id.put parts f) :=
  keeps_put h other own same (fun hp => absurd hp free.1) (fun hp => absurd hp free.2.1)
    fun hp => absurd hp free.2.2

end Parts

/-- A change a note of a family may make to the record it holds. -/
def Safe (family : Family) (f : Received → Received) : Prop :=
  ∀ id : Received, id.Good → id.family = family → Keeps id (f id)

variable {family : Family} {f : Received → Received}

theorem Safe.comp {g : Received → Received} (hf : Safe family f) (hg : Safe family g) :
    Safe family fun id => g (f id) := by
  intro id good fam
  have first := hf id good fam
  exact first.trans (hg _ first.good (first.family.trans fam))

theorem closed_systemParts (family : Family) : Closed (systemParts family) := by
  cases family <;> exact ⟨by decide, by decide, by decide⟩

theorem keeps_heardAccess (h : id.Good) (kind value : ℕ) :
    Keeps id (id.heardAccess kind value) := by
  unfold heardAccess
  split
  · exact ⟨(h.drop (closed_systemParts _)).move, rfl, continues_drop_move _ _⟩
  · exact .refl h

theorem named_access (v : Values) (kind value : ℕ) (p : Part) :
    ({ v with accessKind := kind, access := value } : Values).named p = v.named p := by
  cases p <;> rfl

theorem safe_ofNxdn (typeD : Bool) : Safe .nxdn (ofNxdn typeD) := by
  intro id h _
  unfold ofNxdn
  split <;> exact keeps_invalidateIf h _ _ ⟨by decide, by decide, by decide⟩

theorem not_has_ofNxdn (typeD : Bool) (id : Received) :
    ¬ (id.ofNxdn typeD).Has (if typeD then nxdnTypeC else nxdnTypeD) := by
  cases typeD with
  | false =>
    rintro ⟨p, hp, hv⟩
    obtain ⟨there, gone⟩ := mem_of_mem_invalidateIf hv
    refine gone ?_ ⟨p, hp, there⟩
    revert hp
    cases p <;> decide
  | true =>
    rintro ⟨p, hp, hv⟩
    obtain ⟨there, gone⟩ := mem_of_mem_invalidateIf hv
    refine gone ?_ ⟨p, hp, there⟩
    revert hp
    cases p <;> decide

/-- What an access code leaves holds no part it did not find. -/
theorem not_has_heardAccess {parts : Finset Part} (h : ¬ id.Has parts) (kind value : ℕ) :
    ¬ (id.heardAccess kind value).Has parts := by
  unfold heardAccess
  split
  · rintro ⟨p, hp, hv⟩
    exact h ⟨p, hp, (mem_sdiff.mp hv).1⟩
  · exact h

theorem safe_access (family : Family) (named : family ≠ .noFamily) (kind value : ℕ) :
    Safe family fun id =>
      ((if family = .nxdn then id.ofNxdn false else id).heardAccess kind value).put {.access}
        fun v => { v with accessKind := kind, access := value } := by
  intro id h fam
  beta_reduce
  by_cases hx : family = .nxdn
  · rw [if_pos hx]
    cases hx
    have typed := safe_ofNxdn false id h fam
    have heard := typed.trans (keeps_heardAccess typed.good kind value)
    refine heard.trans ⟨heard.good.putNxdn (heard.family.trans fam) (by decide) (Or.inl ⟨by decide,
      not_has_heardAccess (not_has_ofNxdn false id) kind value⟩) ?_, rfl,
      continues_put fun p _ _ => named_access _ kind value p⟩
    exact fun hs ht => heard.good.sameSite (hs.resolve_right (by decide))
      (ht.resolve_right (by decide))
  · rw [if_neg hx]
    have heard := keeps_heardAccess h kind value
    refine heard.trans (keeps_put_free heard.good ?_ ?_ (fun p _ _ => named_access _ kind value p)
      (by decide))
    · rw [heard.family, fam]
      exact hx
    · intro p hp
      cases mem_singleton.mp hp
      rw [heard.family, fam]
      exact ⟨named, Or.inl rfl⟩

theorem safe_p25Network (wacn sysid : ℕ) :
    Safe .p25 fun id => (id.invalidateIf (¬ id.SameP25System wacn sysid) p25SystemParts).put
      {.p25Wacn, .p25Sysid} fun v => { v with p25Wacn := wacn, p25Sysid := sysid } := by
  intro id h fam
  have apart := keeps_invalidateIf h (¬ id.SameP25System wacn sysid) p25SystemParts
    ⟨by decide, by decide, by decide⟩
  have inP25 : (id.invalidateIf (¬ id.SameP25System wacn sysid) p25SystemParts).family = .p25 :=
    apart.family.trans fam
  refine apart.trans (keeps_put_free apart.good (by rw [inP25]; decide) ?_ ?_ (by decide))
  · rw [inP25]
    decide
  · intro p hp _
    obtain ⟨there, gone⟩ := mem_of_mem_invalidateIf hp
    rw [invalidateIf_values]
    cases p <;> try rfl
    · obtain ⟨_, _, same⟩ := not_not.mp (gone (by decide))
      have value : id.values.p25Wacn = wacn := same.resolve_left (not_not.mpr there)
      simp [named, value]
    · obtain ⟨_, same, _⟩ := not_not.mp (gone (by decide))
      simp [named, same]

/-- A note under a system's code. -/
theorem safe_p25Bound (sysid : ℕ)
    (hf : ∀ id : Received, id.Good → id.family = .p25 → .p25Sysid ∈ id.valid → Keeps id (f id)) :
    Safe .p25 (p25Bound sysid f) := by
  intro id h fam
  unfold p25Bound
  have inP25 : id.family ≠ .nxdn := by rw [fam]; decide
  have own : ∀ p ∈ ({.p25Sysid} : Finset Part), p.IsOf id.family := by rw [fam]; decide
  split
  · rename_i held
    split
    · exact .refl h
    · have same : Keeps id (id.set {.p25Sysid}) :=
        keeps_put_free (f := fun v => v) h inP25 own (fun _ _ _ => rfl) (by decide)
      exact same.trans (hf _ same.good fam (mem_set.mpr (Or.inl held)))
  · rename_i absent
    have started : Keeps id (id.put {.p25Sysid} fun v => { v with p25Sysid := sysid }) := by
      refine keeps_put_free h inP25 own (named_of_others .p25Sysid ?_ fun hp => absurd hp absent)
        (by decide)
      intro q hq
      cases q <;> first | rfl | exact absurd rfl hq
    exact started.trans (hf _ started.good fam (mem_set.mpr (Or.inr (by decide))))

theorem safe_p25Site (sysid rfss site : ℕ) :
    Safe .p25 (p25Bound sysid fun id =>
      (id.invalidateIf
        (.p25Site ∈ id.valid ∧ (id.values.p25Rfss ≠ rfss ∨ id.values.p25Site ≠ site))
        {.p25Site, .p25Lra, .ccFreq}).put {.p25Site}
        fun v => { v with p25Rfss := rfss, p25Site := site }) := by
  refine safe_p25Bound sysid fun id h fam held => ?_
  have apart := keeps_invalidateIf h
    (.p25Site ∈ id.valid ∧ (id.values.p25Rfss ≠ rfss ∨ id.values.p25Site ≠ site))
    {.p25Site, .p25Lra, .ccFreq} ⟨by decide, by decide, by decide⟩
  refine apart.trans (keeps_put apart.good ?_ ?_ (named_of_others .p25Site ?_ fun hp => ?_)
    (fun _ => Or.inl ?_) (fun hp => absurd hp (by decide)) (fun hp => absurd hp (by decide)))
  · rw [apart.family, fam]
    decide
  · rw [apart.family, fam]
    decide
  · intro q hq
    cases q <;> first | rfl | exact absurd rfl hq
  · obtain ⟨there, gone⟩ := mem_of_mem_invalidateIf hp
    have same := gone (by decide)
    rw [invalidateIf_values]
    simp only [there, true_and, not_or, not_not] at same
    simp [named, same.1, same.2]
  · -- the system's code is not among what another site drops
    unfold invalidateIf invalidate
    split
    · split
      · exact mem_sdiff.mpr ⟨held, by decide⟩
      · exact held
    · exact held

theorem safe_p25Lra (sysid lra : ℕ) :
    Safe .p25 (p25Bound sysid fun id => id.put {.p25Lra} fun v => { v with p25Lra := lra }) := by
  refine safe_p25Bound sysid fun id h fam held => ?_
  refine keeps_put h (by rw [fam]; decide) (by rw [fam]; decide) (fun p _ _ => ?_)
    (fun hp => absurd hp (by decide)) (fun _ => Or.inl held) (fun hp => absurd hp (by decide))
  cases p <;> rfl

theorem safe_named {p : Part} {other : Received → Prop} [∀ id, Decidable (other id)]
    {parts : Finset Part} {f : Values → Values} (notNxdn : family ≠ .nxdn) (closed : Closed parts)
    (mem : p ∈ parts) (own : p.IsOf family) (free : p ≠ .p25Site ∧ p ≠ .p25Lra ∧ p ≠ .tetraLa)
    (others : ∀ (v : Values) q, q ≠ p → (f v).named q = v.named q)
    (same : ∀ id : Received, p ∈ id.valid → ¬ other id →
      (f id.values).named p = id.values.named p) :
    Safe family fun id => (id.invalidateIf (other id) parts).put {p} f := by
  intro id h fam
  have apart := keeps_invalidateIf h (other id) _ closed
  refine apart.trans (keeps_put_free apart.good ?_ ?_
    (named_of_others p (others _) fun hp => ?_) ?_)
  · rw [apart.family, fam]
    exact notNxdn
  · intro q hq
    cases mem_singleton.mp hq
    rw [apart.family, fam]
    exact own
  · obtain ⟨there, gone⟩ := mem_of_mem_invalidateIf hp
    rw [invalidateIf_values]
    exact same id there (gone mem)
  · simp only [mem_singleton]
    exact ⟨fun h => free.1 h.symm, fun h => free.2.1 h.symm, fun h => free.2.2 h.symm⟩

theorem safe_unnamed {p : Part} {f : Values → Values} (notNxdn : family ≠ .nxdn)
    (own : p.IsOf family) (free : p ≠ .p25Site ∧ p ≠ .p25Lra ∧ p ≠ .tetraLa)
    (same : ∀ (v : Values) q, (f v).named q = v.named q) : Safe family fun id => id.put {p} f := by
  intro id h fam
  refine keeps_put_free h (by rw [fam]; exact notNxdn) ?_ (fun q _ _ => same _ q) ?_
  · intro q hq
    cases mem_singleton.mp hq
    rw [fam]
    exact own
  · simp only [mem_singleton]
    exact ⟨fun h => free.1 h.symm, fun h => free.2.1 h.symm, fun h => free.2.2 h.symm⟩

theorem safe_ofTrunk (trunk : ℕ) : Safe .dmr (ofTrunk trunk) := by
  intro id h _
  unfold ofTrunk
  split
  · exact .refl h
  · have apart := keeps_invalidateIf h (id.Has dmrTrunkParts ∧ id.values.dmrTrunk ≠ trunk)
      {.dmrRestLsn, .dmrSiteText, .dmrBrand, .dmrT3Syscode, .dmrXptFreeLcn, .ccFreq}
      ⟨by decide, by decide, by decide⟩
    refine apart.trans (keeps_write apart.good (fun p => ?_) rfl rfl)
    cases p <;> rfl

theorem safe_heardSiteText (next : List Char) : Safe .dmr (heardSiteText next) := by
  refine safe_named (p := .dmrSiteText) (by decide) ⟨by decide, by decide, by decide⟩ (by decide)
    (by decide) (by decide) (fun v q hq => ?_) fun id there same => ?_
  · cases q <;> first | rfl | exact absurd rfl hq
  · simp only [there, true_and, not_not] at same
    simp [named, same]

theorem safe_heardSyscode (syscode : ℕ) : Safe .dmr (heardSyscode syscode) := by
  refine safe_named (p := .dmrT3Syscode) (by decide) ⟨by decide, by decide, by decide⟩ (by decide)
    (by decide) (by decide) (fun v q hq => ?_) fun id there same => ?_
  · cases q <;> first | rfl | exact absurd rfl hq
  · simp only [there, true_and, not_not] at same
    simp [named, same]

theorem safe_ofEaMode (eaMode : ℤ) : Safe .edacs (ofEaMode eaMode) := by
  intro id h _
  unfold ofEaMode
  have apart := keeps_invalidateIf h
    (id.Has edacsParts ∧ id.values.edacsEaMode ≠ eaMode.bmod 256)
    {.edacsSite, .edacsArea, .edacsSystem, .edacsCcLcn, .ccFreq}
    ⟨by decide, by decide, by decide⟩
  refine apart.trans (keeps_write apart.good (fun p => ?_) rfl rfl)
  cases p <;> rfl

theorem safe_edacsSite (site : ℕ) : Safe .edacs fun id =>
    (id.invalidateIf (.edacsSite ∈ id.valid ∧ id.values.edacsSite ≠ site)
      {.edacsSite, .edacsCcLcn, .ccFreq}).put {.edacsSite}
      fun v => { v with edacsSite := site } := by
  refine safe_named (p := .edacsSite) (by decide) ⟨by decide, by decide, by decide⟩ (by decide)
    (by decide) (by decide) (fun v q hq => ?_) fun id there same => ?_
  · cases q <;> first | rfl | exact absurd rfl hq
  · simp only [there, true_and, not_not] at same
    simp [named, same]

theorem safe_edacsSystem (system : ℕ) : Safe .edacs fun id =>
    (id.invalidateIf (.edacsSystem ∈ id.valid ∧ id.values.edacsSystem ≠ system)
      {.edacsSystem, .edacsSite, .edacsArea, .edacsCcLcn, .ccFreq}).put {.edacsSystem}
      fun v => { v with edacsSystem := system } := by
  refine safe_named (p := .edacsSystem) (by decide) ⟨by decide, by decide, by decide⟩ (by decide)
    (by decide) (by decide) (fun v q hq => ?_) fun id there same => ?_
  · cases q <;> first | rfl | exact absurd rfl hq
  · simp only [there, true_and, not_not] at same
    simp [named, same]

theorem safe_nxdnLocation (category sys site : ℕ) :
    Safe .nxdn fun id => (id.ofNxdn false).heardLocation category sys site := by
  intro id h fam
  have typed := safe_ofNxdn false id h fam
  have noTypeD : ¬ (id.ofNxdn false).Has nxdnTypeD := not_has_ofNxdn false id
  refine typed.trans ?_
  have apart := keeps_invalidateIf typed.good
    (.nxdnLocation ∈ (id.ofNxdn false).valid ∧ ((id.ofNxdn false).values.nxdnCategory ≠ category ∨
      (id.ofNxdn false).values.nxdnSys ≠ sys ∨ (id.ofNxdn false).values.nxdnSite ≠ site))
    {.nxdnLocation, .ccFreq} ⟨by decide, by decide, by decide⟩
  refine apart.trans ⟨apart.good.putNxdn (apart.family.trans (typed.family.trans fam)) (by decide)
    (Or.inl ⟨by decide, ?_⟩) ?_, rfl,
    continues_put (named_of_others .nxdnLocation ?_ fun hp => ?_)⟩
  · rintro ⟨p, hp, hv⟩
    exact noTypeD ⟨p, hp, (mem_of_mem_invalidateIf hv).1⟩
  · exact fun hs ht => apart.good.sameSite (hs.resolve_right (by decide))
      (ht.resolve_right (by decide))
  · intro q hq
    generalize values _ = v
    cases q <;> first | rfl | exact absurd rfl hq
  · obtain ⟨there, gone⟩ := mem_of_mem_invalidateIf hp
    have same := gone (by decide)
    rw [invalidateIf_values]
    simp only [there, true_and, not_or, not_not] at same
    simp [named, same.1, same.2.1, same.2.2]

section TypeD

variable {id mid : Received} {parts : Finset Part} {f : Values → Values}

theorem keeps_putTypeD (fam : id.family = .nxdn) (noTypeC : ¬ id.Has nxdnTypeC)
    (first : Keeps id mid) (less : ∀ p ∈ mid.valid, p ∈ id.valid)
    (own : ∀ p ∈ parts, p.IsOf .nxdn) (kind : parts ⊆ nxdnTypeD)
    (site : .nxdnIdasSite ∈ mid.valid ∨ .nxdnIdasSite ∈ parts →
      .nxdnTypedSystem ∈ mid.valid ∨ .nxdnTypedSystem ∈ parts →
      (f mid.values).nxdnIdasSiteCode = (f mid.values).nxdnTypedSite)
    (same : ∀ p ∈ mid.valid, mid.values.named p ≠ none →
      (f mid.values).named p = mid.values.named p) : Keeps id (mid.put parts f) := by
  refine first.trans ⟨first.good.putNxdn (first.family.trans fam) own (Or.inr ⟨kind, ?_⟩) site, rfl,
    continues_put same⟩
  rintro ⟨p, hp, hv⟩
  exact noTypeC ⟨p, hp, less p hv⟩

end TypeD

theorem safe_nxdnIdasArea (area : ℕ) : Safe .nxdn fun id => (id.ofNxdn true).heardArea area := by
  intro id h fam
  have typed := safe_ofNxdn true id h fam
  refine typed.trans ?_
  have apart := keeps_invalidateIf typed.good
    (.nxdnIdasArea ∈ (id.ofNxdn true).valid ∧ (id.ofNxdn true).values.nxdnIdasArea ≠ area)
    {.nxdnIdasArea, .nxdnIdasSite, .nxdnTypedSystem, .ccFreq}
    ⟨by decide, by decide, by decide⟩
  refine keeps_putTypeD (typed.family.trans fam) (not_has_ofNxdn true id) apart
    (fun p hp => (mem_of_mem_invalidateIf hp).1) (by decide) (by decide) ?_
    (named_of_others .nxdnIdasArea ?_ fun hp => ?_)
  · exact fun hs ht => apart.good.sameSite (hs.resolve_right (by decide))
      (ht.resolve_right (by decide))
  · intro q hq
    generalize values _ = v
    cases q <;> first | rfl | exact absurd rfl hq
  · obtain ⟨there, gone⟩ := mem_of_mem_invalidateIf hp
    have same := gone (by decide)
    rw [invalidateIf_values]
    simp only [there, true_and, not_not] at same
    simp [named, same]

theorem forIdasSite_spec (h : id.Good) (siteType siteCode : ℕ) :
    Keeps id (id.forIdasSite siteType siteCode) ∧
      (id.forIdasSite siteType siteCode).values = id.values ∧
      (∀ p ∈ (id.forIdasSite siteType siteCode).valid, p ∈ id.valid) ∧
      (.nxdnIdasSite ∈ (id.forIdasSite siteType siteCode).valid →
        id.values.nxdnIdasSiteType = siteType ∧ id.values.nxdnIdasSiteCode = siteCode) ∧
      (.nxdnTypedSystem ∈ (id.forIdasSite siteType siteCode).valid →
        id.values.nxdnTypedSite = siteCode) := by
  have first := keeps_invalidateIf h
    (.nxdnIdasSite ∈ id.valid ∧
      (id.values.nxdnIdasSiteType ≠ siteType ∨ id.values.nxdnIdasSiteCode ≠ siteCode))
    {.nxdnIdasSite, .ccFreq} ⟨by decide, by decide, by decide⟩
  refine ⟨first.trans (keeps_invalidateIf first.good _ _ ⟨by decide, by decide, by decide⟩), ?_,
    fun p hp => ?_, fun hp => ?_, fun hp => ?_⟩
  · simp [forIdasSite]
  · exact (mem_of_mem_invalidateIf (mem_of_mem_invalidateIf hp).1).1
  · obtain ⟨there, gone⟩ := mem_of_mem_invalidateIf (mem_of_mem_invalidateIf hp).1
    have same := gone (by decide)
    simpa only [there, true_and, not_or, not_not] using same
  · obtain ⟨there, gone⟩ := mem_of_mem_invalidateIf hp
    have same := gone (by decide)
    rw [invalidateIf_values] at same
    simpa only [there, true_and, not_not] using same

theorem safe_nxdnIdasSite (siteType siteCode : ℕ) : Safe .nxdn fun id =>
    ((id.ofNxdn true).forIdasSite siteType siteCode).put {.nxdnIdasSite}
      fun v => { v with nxdnIdasSiteType := siteType, nxdnIdasSiteCode := siteCode } := by
  intro id h fam
  have typed := safe_ofNxdn true id h fam
  obtain ⟨keeps, values, less, site, system⟩ := forIdasSite_spec typed.good siteType siteCode
  refine typed.trans (keeps_putTypeD (typed.family.trans fam) (not_has_ofNxdn true id) keeps less
    (by decide) (by decide) (fun _ ht => ?_) (named_of_others .nxdnIdasSite ?_ fun hp => ?_))
  · have held := ht.resolve_right (by decide)
    show siteCode = _
    rw [values]
    exact (system held).symm
  · intro q hq
    generalize ((id.ofNxdn true).forIdasSite siteType siteCode).values = v
    cases q <;> first | rfl | exact absurd rfl hq
  · rw [values]
    simp [named, site hp]

theorem forTypedSystem_spec (h : id.Good) (sys site : ℕ) :
    Keeps id (id.forTypedSystem sys site) ∧
      (id.forTypedSystem sys site).values = id.values ∧
      (∀ p ∈ (id.forTypedSystem sys site).valid, p ∈ id.valid) ∧
      (.nxdnTypedSystem ∈ (id.forTypedSystem sys site).valid →
        id.values.nxdnTypedSys = sys ∧ id.values.nxdnTypedSite = site) ∧
      (.nxdnIdasSite ∈ (id.forTypedSystem sys site).valid → id.values.nxdnIdasSiteCode = site) := by
  unfold forTypedSystem
  by_cases hsys : .nxdnTypedSystem ∈ id.valid ∧ id.values.nxdnTypedSys ≠ sys
  · rw [if_pos hsys]
    have first := keeps_invalidate h
      {.nxdnTypedSystem, .nxdnIdasArea, .nxdnIdasSite, .ccFreq}
      ⟨by decide, by decide, by decide⟩
    refine ⟨first.trans (keeps_invalidateIf first.good _ _ ⟨by decide, by decide, by decide⟩),
      by simp, fun p hp => ?_, fun hp => ?_, fun hp => ?_⟩
    · exact mem_of_mem_invalidate (mem_of_mem_invalidateIf hp).1
    · exact absurd (mem_of_mem_invalidateIf hp).1 (not_mem_invalidate id (by decide))
    · exact absurd (mem_of_mem_invalidateIf hp).1 (not_mem_invalidate id (by decide))
  · rw [if_neg hsys]
    have first := keeps_invalidateIf h
      (.nxdnTypedSystem ∈ id.valid ∧ id.values.nxdnTypedSite ≠ site)
      {.nxdnTypedSystem, .nxdnIdasArea, .ccFreq} ⟨by decide, by decide, by decide⟩
    refine ⟨first.trans (keeps_invalidateIf first.good _ _ ⟨by decide, by decide, by decide⟩),
      by simp, fun p hp => ?_, fun hp => ?_, fun hp => ?_⟩
    · exact (mem_of_mem_invalidateIf (mem_of_mem_invalidateIf hp).1).1
    · obtain ⟨there, gone⟩ := mem_of_mem_invalidateIf (mem_of_mem_invalidateIf hp).1
      have same := gone (by decide)
      simp only [there, true_and, not_not] at same hsys
      exact ⟨hsys, same⟩
    · obtain ⟨there, gone⟩ := mem_of_mem_invalidateIf hp
      have same := gone (by decide)
      rw [invalidateIf_values] at same
      simpa only [there, true_and, not_not] using same

theorem safe_nxdnTypedSystem (sys site : ℕ) : Safe .nxdn fun id =>
    ((id.ofNxdn true).forTypedSystem sys site).put {.nxdnTypedSystem}
      fun v => { v with nxdnTypedSys := sys, nxdnTypedSite := site } := by
  intro id h fam
  have typed := safe_ofNxdn true id h fam
  obtain ⟨keeps, values, less, system, idas⟩ := forTypedSystem_spec typed.good sys site
  refine typed.trans (keeps_putTypeD (typed.family.trans fam) (not_has_ofNxdn true id) keeps less
    (by decide) (by decide) (fun hs _ => ?_) (named_of_others .nxdnTypedSystem ?_ fun hp => ?_))
  · have held := hs.resolve_right (by decide)
    show _ = site
    rw [values]
    exact idas held
  · intro q hq
    generalize ((id.ofNxdn true).forTypedSystem sys site).values = v
    cases q <;> first | rfl | exact absurd rfl hq
  · rw [values]
    simp [named, system hp]

theorem safe_heardCell (mcc mnc colour : ℕ) : Safe .tetra (heardCell mcc mnc colour) := by
  intro id h fam
  have apart := keeps_invalidateIf h (¬ id.SameCell mcc mnc colour)
    {.tetraNet, .tetraLa, .ccFreq} ⟨by decide, by decide, by decide⟩
  refine apart.trans (keeps_put_free apart.good ?_ ?_ (named_of_others .tetraNet ?_ fun hp => ?_)
    (by decide))
  · rw [apart.family, fam]
    decide
  · rw [apart.family, fam]
    decide
  · intro q hq
    cases q <;> first | rfl | exact absurd rfl hq
  · obtain ⟨_, gone⟩ := mem_of_mem_invalidateIf hp
    obtain ⟨_, sameMcc, sameMnc, sameColour⟩ := not_not.mp (gone (by decide))
    rw [invalidateIf_values]
    simp [named, sameMcc, sameMnc, sameColour]

theorem safe_tetraLa (la : ℕ) : Safe .tetra fun id =>
    if .tetraNet ∈ id.valid then id.put {.tetraLa} fun v => { v with tetraLa := la } else id := by
  intro id h fam
  beta_reduce
  split
  · rename_i net
    refine keeps_put h (by rw [fam]; decide) (by rw [fam]; decide) (fun p _ _ => ?_)
      (fun hp => absurd hp (by decide)) (fun hp => absurd hp (by decide)) fun _ => Or.inl net
    cases p <;> rfl
  · exact .refl h

theorem safe_ccFreq (family : Family) (named : family ≠ .noFamily) (freqHz : ℕ) :
    Safe family fun id => id.put {.ccFreq} fun v => { v with ccFreqHz := freqHz } := by
  have unnamed (v : Values) (p : Part) :
      ({ v with ccFreqHz := freqHz } : Values).named p = v.named p := by cases p <;> rfl
  by_cases hx : family = .nxdn
  · cases hx
    intro id h fam
    -- a control channel is of neither kind, so both kinds stay apart
    refine ⟨⟨union_subset_union h.fresh (Finset.Subset.refl _), fun p hp => ?_, ?_,
      fun hs ht => ?_, fun hp => ?_, fun hp => ?_, fun hp => ?_⟩, rfl,
      continues_put fun p _ _ => unnamed _ p⟩
    · refine (mem_set.mp hp).elim (h.own p) fun hp => ?_
      cases mem_singleton.mp hp
      show Part.ccFreq.IsOf id.family
      rw [fam]
      decide
    · rintro ⟨p, hp, hv⟩ ⟨q, hq, hw⟩
      refine h.oneKind ⟨p, hp, (mem_set.mp hv).resolve_right fun hx => ?_⟩
        ⟨q, hq, (mem_set.mp hw).resolve_right fun hx => ?_⟩
      · cases mem_singleton.mp hx
        exact absurd hp (by decide)
      · cases mem_singleton.mp hx
        exact absurd hq (by decide)
    · exact h.sameSite ((mem_set.mp hs).resolve_right (by decide))
        ((mem_set.mp ht).resolve_right (by decide))
    · exact mem_set.mpr (Or.inl (h.siteOfSystem ((mem_set.mp hp).resolve_right (by decide))))
    · exact mem_set.mpr (Or.inl (h.lraOfSystem ((mem_set.mp hp).resolve_right (by decide))))
    · exact mem_set.mpr (Or.inl (h.laOfNet ((mem_set.mp hp).resolve_right (by decide))))
  · exact safe_unnamed hx ⟨named, Or.inl rfl⟩ (by decide) unnamed

/-- A step keeps the record to one system. -/
structure Kept (a b : Received) : Prop where
  good : b.Good
  names : Continues a b

theorem Kept.refl (h : a.Good) : Kept a a := ⟨h, .refl a⟩

theorem Keeps.kept {b : Received} (h : Keeps a b) : Kept a b := ⟨h.good, h.names⟩

variable {s : State}

theorem kept_noteFor (h : s.rxId.Good) (safe : family ≠ .noFamily → Safe family f) :
    Kept s.rxId (s.noteFor family f).rxId := by
  unfold State.noteFor
  split
  · exact .refl h
  · rename_i named
    have first := h.ofFamily family
    have next := safe (fun hx => named (Or.inl hx)) _ first (ofFamily_family _ _)
    exact ⟨next.good, (continues_ofFamily h family).trans next.names⟩

theorem kept_noteEdacs (h : s.rxId.Good) (safe : Safe .edacs f) :
    Kept s.rxId (s.noteEdacs f).rxId :=
  kept_noteFor h fun _ => (safe_ofEaMode s.eaMode).comp safe

theorem kept_noteTetra (h : s.rxId.Good) (safe : s.rxId.family = .tetra → Kept s.rxId (f s.rxId)) :
    Kept s.rxId (s.noteTetra f).rxId := by
  unfold State.noteTetra
  split
  · rename_i held
    exact safe held.2
  · exact .refl h

theorem kept_clear (id : Received) : Kept id id.clear := ⟨good_clear id, continues_clear id⟩

/-- Losing the access code names no other system. -/
theorem kept_drop_access (h : id.Good) : Kept id (id.drop {.access}) := by
  refine ⟨h.drop ⟨by decide, by decide, by decide⟩, Nat.le_refl _, fun _ p hp named => ⟨?_, rfl⟩⟩
  refine mem_sdiff.mpr ⟨hp, fun hx => ?_⟩
  cases mem_singleton.mp hx
  exact named rfl

theorem kept_apply_trunk_tune (h : s.rxId.Good) : Kept s.rxId (applyTrunkTune s).rxId := by
  unfold applyTrunkTune
  split
  · exact kept_drop_access h
  · exact .refl h

theorem kept_synced (h : id.Good) (family : Family) : Kept id (id.synced family) := by
  unfold synced
  split
  · exact kept_clear id
  · exact .refl h

theorem closed_forget (family : Family) (withAccess : Bool) :
    Closed (if withAccess then systemParts family ∪ {.access} else systemParts family) := by
  cases withAccess <;> cases family <;> exact ⟨by decide, by decide, by decide⟩

/-- A note that a check may pass over. -/
theorem kept_unless {c : Prop} [Decidable c] {t : State} (h : s.rxId.Good)
    (kept : ¬ c → Kept s.rxId t.rxId) : Kept s.rxId (if c then s else t).rxId := by
  split
  · exact .refl h
  · next hc => exact kept hc

/-- Whatever happens keeps the record to one system. -/
theorem kept_apply (n : Note) (h : s.rxId.Good) : Kept s.rxId (n.apply s).rxId := by
  cases n with
  | reset => exact kept_clear _
  | sync synctype => exact kept_unless h fun _ => kept_synced h _
  | stale =>
    exact ⟨⟨empty_subset _, h.own, h.oneKind, h.sameSite, h.siteOfSystem, h.lraOfSystem,
      h.laOfNet⟩, Nat.le_refl _, fun _ p hp _ => ⟨hp, rfl⟩⟩
  | tune => exact kept_drop_access h
  | requestTune =>
    show Kept s.rxId (requestTrunkTune s).rxId
    unfold requestTrunkTune
    split
    · exact kept_apply_trunk_tune (s := { s with rxIdTrunkTunePending := true }) h
    · exact .refl h
  | applyTune => exact kept_apply_trunk_tune h
  | access family kind value =>
    exact kept_unless h fun _ => kept_noteFor h fun named => safe_access family named kind value
  | p25Network wacn sysid =>
    exact kept_unless h fun _ => kept_noteFor h fun _ => safe_p25Network _ _
  | p25Site sysid rfss site =>
    exact kept_unless h fun _ => kept_noteFor h fun _ => safe_p25Site _ _ _
  | p25Lra sysid lra =>
    exact kept_unless h fun _ => kept_noteFor h fun _ => safe_p25Lra _ _
  | dmrRestLsn lsn =>
    refine kept_noteFor h fun _ => (safe_ofTrunk 2).comp ?_
    exact safe_unnamed (by decide) (by decide) (by decide) fun v q => by cases q <;> rfl
  | dmrSiteText text =>
    exact kept_unless h fun _ => kept_noteFor h fun _ =>
      (safe_ofTrunk _).comp (safe_heardSiteText _)
  | dmrBrand brand =>
    refine kept_unless h fun _ => kept_noteFor h fun _ => (safe_ofTrunk _).comp ?_
    exact safe_unnamed (by decide) (by decide) (by decide) fun v q => by cases q <;> rfl
  | dmrVendor mfid =>
    refine kept_unless h fun _ => kept_noteFor h fun _ => ?_
    exact safe_unnamed (by decide) (by decide) (by decide) fun v q => by cases q <;> rfl
  | dmrT3Syscode syscode =>
    exact kept_noteFor h fun _ => (safe_ofTrunk 1).comp (safe_heardSyscode syscode)
  | dmrXptFreeLcn lcn =>
    refine kept_noteFor h fun _ => (safe_ofTrunk 4).comp ?_
    exact safe_unnamed (by decide) (by decide) (by decide) fun v q => by cases q <;> rfl
  | nxdnLocation category sys site =>
    exact kept_unless h fun _ => kept_noteFor h fun _ => safe_nxdnLocation category sys site
  | nxdnIdasArea area => exact kept_noteFor h fun _ => safe_nxdnIdasArea _
  | nxdnIdasSite siteType siteCode =>
    exact kept_unless h fun _ => kept_noteFor h fun _ => safe_nxdnIdasSite siteType siteCode
  | nxdnTypedSystem sys site => exact kept_noteFor h fun _ => safe_nxdnTypedSystem _ site
  | edacsSite site => exact kept_noteEdacs h (safe_edacsSite site)
  | edacsArea area =>
    refine kept_noteEdacs h ?_
    exact safe_unnamed (by decide) (by decide) (by decide) fun v q => by cases q <;> rfl
  | edacsSystem system => exact kept_noteEdacs h (safe_edacsSystem system)
  | edacsCcLcn lcn =>
    refine kept_noteEdacs h ?_
    exact safe_unnamed (by decide) (by decide) (by decide) fun v q => by cases q <;> rfl
  | tetraCell mcc mnc colour => exact kept_noteFor h fun _ => safe_heardCell _ _ _
  | tetraLa la => exact kept_noteTetra h fun fam => (safe_tetraLa _ _ h fam).kept
  | tetraOtherCell =>
    exact kept_noteTetra h fun _ => (keeps_invalidate h _ ⟨by decide, by decide, by decide⟩).kept
  | tetraDirectMode => exact kept_noteTetra h fun _ => kept_clear _
  | ccFreq family freqHz =>
    exact kept_unless h fun _ => kept_noteFor h fun named => safe_ccFreq family named freqHz
  | forget family withAccess =>
    show Kept s.rxId (forgetSystem family withAccess s).rxId
    unfold forgetSystem
    split
    · exact (keeps_invalidate h _ (closed_forget _ withAccess)).kept
    · exact .refl h
  | settings opts =>
    show Kept s.rxId (noteDecoderSettings opts s).rxId
    unfold noteDecoderSettings
    split
    · exact .refl h
    · split
      · exact kept_clear _
      · exact .refl h
  | meanwhile => exact .refl h

/-- A whole run keeps the record to one system. -/
theorem kept_run (notes : List Note) (h : s.rxId.Good) : Kept s.rxId (run notes s).rxId := by
  induction notes generalizing s with
  | nil => exact .refl h
  | cons n notes ih =>
    have first := kept_apply n h
    have rest := ih first.good
    exact ⟨rest.good, first.names.trans rest.names⟩

/-- The record before anything was received. -/
theorem good_init : (({} : State).rxId).Good := good_empty _ _ _

/-- In every state the record names one system: fresh parts are valid, valid parts are its
family's, and no part speaks against another; and between two states of one epoch fewer than
`2 ^ 32` moves apart every name valid in both is the same. -/
theorem identity_never_mixed (before between : List Note) :
    (run before {}).rxId.Good ∧
      ((run (before ++ between) {}).rxId.moves < (run before {}).rxId.moves + 2 ^ 32 →
        (run before {}).rxId.epoch = (run (before ++ between) {}).rxId.epoch →
        ∀ p, (run before {}).rxId.values.named p ≠ none → p ∈ (run before {}).rxId.valid →
          p ∈ (run (before ++ between) {}).rxId.valid →
          (run (before ++ between) {}).rxId.values.named p =
            (run before {}).rxId.values.named p) := by
  have first := kept_run before good_init
  have later := kept_run between first.good
  have joined : run (before ++ between) {} = run between (run before {}) := List.foldl_append
  rw [joined]
  refine ⟨first.good, fun near same p named held _ => ?_⟩
  have le := later.names.le
  unfold epoch at same
  have still : (run before {}).rxId.moves = (run between (run before {})).rxId.moves := by omega
  exact (later.names.kept still p held named).2

/-- Resets count the epoch up and leave nothing. -/
theorem run_reset (n : ℕ) (s : State) : run (List.replicate (n + 1) .reset) s =
    { s with rxId := { moves := s.rxId.moves + (n + 1) }, rxIdTrunkTunePending := false } := by
  induction n generalizing s with
  | zero => rfl
  | succ n ih =>
    rw [List.replicate_succ]
    show run (List.replicate (n + 1) .reset) (rxidReset s) = _
    rw [ih]
    show State.mk { moves := s.rxId.moves + 1 + (n + 1) } _ _ _ _ _ _ = _
    rw [Nat.add_assoc, Nat.add_comm 1]
    rfl

/-- The epoch has 32 bits: after as many resets as it counts it is the old one again, and
another system is named under it. -/
theorem epoch_returns :
    (run [.p25Network 1 1] {}).rxId.epoch =
        (run ([.p25Network 1 1] ++ (List.replicate (2 ^ 32) .reset ++ [.p25Network 1 2]))
          {}).rxId.epoch ∧
      .p25Sysid ∈ (run [.p25Network 1 1] {}).rxId.valid ∧
      .p25Sysid ∈
        (run ([.p25Network 1 1] ++ (List.replicate (2 ^ 32) .reset ++ [.p25Network 1 2]))
          {}).rxId.valid ∧
      (run [.p25Network 1 1] {}).rxId.values.named .p25Sysid ≠
        (run ([.p25Network 1 1] ++ (List.replicate (2 ^ 32) .reset ++ [.p25Network 1 2]))
          {}).rxId.values.named .p25Sysid := by
  have split : run ([.p25Network 1 1] ++ (List.replicate (2 ^ 32) .reset ++ [.p25Network 1 2])) {} =
      run [.p25Network 1 2] (run (List.replicate (4294967295 + 1) .reset)
        (run [.p25Network 1 1] {})) := by
    unfold run
    rw [List.foldl_append, List.foldl_append, show (2 : ℕ) ^ 32 = 4294967295 + 1 from rfl]
  rw [split, run_reset]
  decide

end DsdNeo.Identity
