import DsdNeo.Models.P25.Neighbors

/-!
# One entry a site

Entries are refreshed in place with what they do not know yet, so two entries of one site never
come about, as long as no update found by its frequency tells another WACN than the entry's.
-/

namespace DsdNeo.P25.Neighbors

open Table Entry List Function

/-- Two entries that may be one site: nothing known of them differs. -/
def Entry.Clashes (e f : Entry) : Prop :=
  e.rfss ≠ 0 ∧ e.site ≠ 0 ∧ e.rfss = f.rfss ∧ e.site = f.site ∧
    (e.sysid = f.sysid ∨ e.sysid = 0 ∨ f.sysid = 0) ∧
    ¬(e.wacnValid = true ∧ f.wacnValid = true ∧ e.wacn ≠ f.wacn)

instance (e f : Entry) : Decidable (e.Clashes f) :=
  inferInstanceAs (Decidable (_ ∧ _ ∧ _ ∧ _ ∧ _ ∧ _))

/-- No two entries may be one site. -/
def Table.Unique (t : Table) : Prop :=
  ∀ i < t.count, ∀ j < t.count, i ≠ j → ¬(t.entries i).Clashes (t.entries j)

/-- What is known of an entry stays as it is. -/
structure Entry.Keeps (e e' : Entry) : Prop where
  rfss : e.rfss ≠ 0 → e'.rfss = e.rfss
  site : e.site ≠ 0 → e'.site = e.site
  sysid : e.sysid ≠ 0 → e'.sysid = e.sysid
  wacn : e.wacnValid = true → e'.wacnValid = true ∧ e'.wacn = e.wacn

theorem Entry.Keeps.refl (e : Entry) : e.Keeps e :=
  ⟨fun _ => rfl, fun _ => rfl, fun _ => rfl, fun h => ⟨h, rfl⟩⟩

variable {e f : Entry}

theorem Entry.Clashes.symm (h : e.Clashes f) : f.Clashes e := by
  obtain ⟨hrfss, hsite, heq, heq', hsysid, hwacn⟩ := h
  refine ⟨heq ▸ hrfss, heq' ▸ hsite, heq.symm, heq'.symm, ?_, ?_⟩
  · rcases hsysid with h | h | h
    · exact Or.inl h.symm
    · exact Or.inr (Or.inr h)
    · exact Or.inr (Or.inl h)
  · rintro ⟨hf, he, hne⟩
    exact hwacn ⟨he, hf, hne.symm⟩

theorem Entry.Keeps.clashes {e' : Entry} (h : e.Keeps e') (hrfss : e'.rfss = e.rfss)
    (hsite : e'.site = e.site) (hclash : e'.Clashes f) : e.Clashes f := by
  obtain ⟨h1, h2, h3, h4, hsysid, hwacn⟩ := hclash
  refine ⟨hrfss ▸ h1, hsite ▸ h2, hrfss ▸ h3, hsite ▸ h4, ?_, ?_⟩
  · by_cases hzero : e.sysid = 0
    · exact Or.inr (Or.inl hzero)
    · rwa [h.sysid hzero] at hsysid
  · rintro ⟨he, hf, hne⟩
    obtain ⟨hvalid, hsame⟩ := h.wacn he
    exact hwacn ⟨hvalid, hf, hsame ▸ hne⟩

variable {t : Table}

theorem Table.Unique.write (h : t.Unique) {i : ℕ}
    (he : ∀ j < t.count, j ≠ i → ¬e.Clashes (t.entries j)) : (t.write i e).Unique := by
  intro a ha b hb hab
  by_cases hai : a = i
  · subst hai
    have hba : b ≠ a := hab.symm
    simpa only [Table.write, update_self, update_of_ne hba] using he b hb hba
  · by_cases hbi : b = i
    · subst hbi
      intro hclash
      simp only [Table.write, update_self, update_of_ne hai] at hclash
      exact he a ha hai hclash.symm
    · simpa only [Table.write, update_of_ne hai, update_of_ne hbi] using
        h a ha b hb hab

theorem Entry.otherWacn_iff {a : Announcement} :
    e.otherWacn a = true ↔ a.wacnValid = true ∧ e.wacnValid = true ∧ e.wacn ≠ a.wacn20 := by
  simp [otherWacn, and_assoc]

/-- An entry with no identity. -/
def Entry.Nameless (e : Entry) : Prop := e.sysid = 0 ∧ e.rfss = 0 ∧ e.site = 0

variable {u : Update}

theorem Entry.keeps_apply (h : e.otherWacn u.announcement = false) {copyIdentity : Bool}
    (hcopy : copyIdentity = true → e.Nameless) (now : ℤ) :
    e.Keeps (e.applyRecordUpdate u copyIdentity now) := by
  have hwacn : e.wacnValid = true →
      (e.applyRecordUpdate u copyIdentity now).wacnValid = true ∧
        (e.applyRecordUpdate u copyIdentity now).wacn = e.wacn := by
    intro he
    have hnot := mt otherWacn_iff.mpr (Bool.eq_false_iff.mp h)
    simp only [applyRecordUpdate, he, Bool.or_true, true_and]
    split
    · rename_i ha
      by_contra hne
      exact hnot ⟨ha, he, fun heq => hne heq.symm⟩
    · rfl
  cases copyIdentity with
  | false => exact ⟨fun _ => rfl, fun _ => rfl, fun _ => rfl, hwacn⟩
  | true =>
    obtain ⟨hsysid, hrfss, hsite⟩ := hcopy rfl
    exact ⟨fun hne => absurd hrfss hne, fun hne => absurd hsite hne, fun hne => absurd hsysid hne,
      hwacn⟩

theorem Entry.Keeps.enrich {e' : Entry} (h : e.Keeps e') (a : Announcement) :
    e.Keeps (e'.enrichUnknownIdentity a) := by
  rw [enrichUnknownIdentity]
  split
  · rename_i hzero
    refine ⟨h.rfss, h.site, fun hne => ?_, h.wacn⟩
    exact absurd (h.sysid hne ▸ hzero.1) hne
  · exact h

@[simp]
theorem Entry.enrich_rfss (e : Entry) (a : Announcement) :
    (e.enrichUnknownIdentity a).rfss = e.rfss := by
  rw [enrichUnknownIdentity]
  split <;> rfl

@[simp]
theorem Entry.enrich_site (e : Entry) (a : Announcement) :
    (e.enrichUnknownIdentity a).site = e.site := by
  rw [enrichUnknownIdentity]
  split <;> rfl

theorem Entry.not_clashes_new {now : ℤ} (hf : u.takesBySite f = false) :
    ¬(e.applyRecordUpdate u true now).Clashes f := by
  rintro ⟨hrfss, hsite, hrfss', hsite', hsysid, hwacn⟩
  have hsame : f.sameSiteIdentity u.announcement = true := by
    simp only [applyRecordUpdate, if_true] at hrfss hsite hrfss' hsite' hsysid
    have hfull : ¬(f.rfss = 0 ∨ f.site = 0 ∨ u.announcement.rfss = 0 ∨
      u.announcement.site = 0) := by
      rintro (h | h | h | h)
      · exact hrfss (hrfss'.trans h)
      · exact hsite (hsite'.trans h)
      · exact hrfss h
      · exact hsite h
    rw [sameSiteIdentity, if_neg hfull, sysidMatches, hrfss', hsite']
    rcases hsysid with h | h | h <;> simp [h]
  have hother : f.otherWacn u.announcement = true := by
    simpa [Update.takesBySite, hsame] using hf
  obtain ⟨ha, he, hne⟩ := otherWacn_iff.mp hother
  refine hwacn ⟨?_, he, ?_⟩
  · simp [applyRecordUpdate, ha]
  · simpa [applyRecordUpdate, ha] using hne.symm

/-- What an update comes to: it is refused, taken by the entry of its site or of its frequency, or
entered. -/
inductive Table.Updated (t : Table) (ccFreq : ℤ) (u : Update) (now : ℤ) : Table → Prop
  | refused (h : u.freq ≤ 0 ∨ u.freq = ccFreq) : Updated t ccFreq u now t
  | bySite (i : ℕ) (hcc : u.freq ≠ ccFreq) (hid : u.announcement.hasSiteIdentity = true)
      (hi : i < t.count) (htakes : u.takesBySite (t.entries i) = true) :
      Updated t ccFreq u now (t.write i
        (((t.entries i).applyRecordUpdate u false now).enrichUnknownIdentity u.announcement))
  | byFreq (i : ℕ) (hfreq : 0 < u.freq) (hcc : u.freq ≠ ccFreq)
      (hsite : u.announcement.hasSiteIdentity = true →
        ∀ j < t.count, u.takesBySite (t.entries j) = false)
      (hfound : t.firstPlace u.takesByFreq = some i) :
      Updated t ccFreq u now
        (t.write i ((t.entries i).applyRecordUpdate u u.announcement.hasSiteIdentity now))
  | entered (hcc : u.freq ≠ ccFreq)
      (hsite : u.announcement.hasSiteIdentity = true →
        ∀ j < t.count, u.takesBySite (t.entries j) = false)
      (hnone : ∀ j < t.count, u.takesByFreq (t.entries j) = false) :
      Updated t ccFreq u now (t.insertRecord u now)

theorem Table.recordUpdate_updated (hcount : t.count ≤ nbMax) (ccFreq : ℤ) (u : Update) (now : ℤ) :
    t.Updated ccFreq u now (t.recordUpdate ccFreq u now) := by
  by_cases hfreq : u.freq ≤ 0
  · rw [Table.recordUpdate, if_pos hfreq]
    exact .refused (Or.inl hfreq)
  · by_cases hcc : u.freq = ccFreq
    · rw [Table.recordUpdate, if_neg hfreq, if_pos hcc]
      exact .refused (Or.inr hcc)
    · have hbyFreq : (u.announcement.hasSiteIdentity = true →
            ∀ j < t.count, u.takesBySite (t.entries j) = false) →
          t.Updated ccFreq u now ((t.updateByFreq u now).getD (t.insertRecord u now)) := by
        intro hsite
        cases hfound : t.firstPlace u.takesByFreq with
        | some i =>
          simp only [Table.updateByFreq, hfound, Option.map_some, Option.getD_some]
          exact .byFreq i (not_le.mp hfreq) hcc hsite hfound
        | none =>
          simp only [Table.updateByFreq, hfound, Option.map_none, Option.getD_none]
          exact .entered hcc hsite ((firstPlace_none hcount).mp hfound)
      rw [Table.recordUpdate, if_neg hfreq, if_neg hcc]
      cases hid : u.announcement.hasSiteIdentity with
      | false =>
        simp only [hid, Bool.false_eq_true, false_imp_iff, forall_const] at hbyFreq
        exact hbyFreq
      | true =>
        cases hfound : t.firstPlace u.takesBySite with
        | some i =>
          obtain ⟨hi, htakes⟩ := firstPlace_some hfound
          simp only [Table.updateBySite, hfound, Option.map_some, if_true]
          exact .bySite i hcc hid hi htakes
        | none =>
          have hsite := (firstPlace_none hcount).mp hfound
          simpa [Table.updateBySite, hfound] using hbyFreq fun _ => hsite

theorem Update.nameless_of_takesByFreq (h : u.takesByFreq e = true)
    (hid : u.announcement.hasSiteIdentity = true) : e.Nameless := by
  have hparts : e.freq = u.freq ∧ (e.sysid = 0 ∧ e.rfss = 0) ∧ e.site = 0 := by
    simpa [Update.takesByFreq, hid] using h
  exact ⟨hparts.2.1.1, hparts.2.1.2, hparts.2.2⟩

/-- An update that tells the entry of its frequency another WACN than it knows. -/
def Table.Clobbers (t : Table) (ccFreq : ℤ) (u : Update) : Prop :=
  0 < u.freq ∧ u.freq ≠ ccFreq ∧
    (u.announcement.hasSiteIdentity = true → ∀ i < t.count, u.takesBySite (t.entries i) = false) ∧
    ∃ i, t.firstPlace u.takesByFreq = some i ∧ (t.entries i).otherWacn u.announcement = true

/-- A full table in which no entry takes an update. -/
def Table.Displaces (t : Table) (u : Update) : Prop :=
  nbMax ≤ t.count ∧ ∀ i < t.count, u.takesByFreq (t.entries i) = false ∧
    (u.announcement.hasSiteIdentity = true → u.takesBySite (t.entries i) = false)

/-- Each entry keeps what it knows, but for one a new entry takes the place of in a full table. -/
def Table.Kept (t : Table) (u : Update) (now : ℤ) (t' : Table) : Prop :=
  ∀ i < t.count, (t.entries i).Keeps (t'.entries i) ∨
    (t.Displaces u ∧ t'.entries i = blank.applyRecordUpdate u true now)

theorem Table.kept_write {i : ℕ} (he : (t.entries i).Keeps e) (u : Update) (now : ℤ) :
    t.Kept u now (t.write i e) := by
  intro j _
  left
  by_cases hji : j = i
  · subst hji
    simpa [Table.write] using he
  · simpa [Table.write, hji] using Entry.Keeps.refl (t.entries j)

theorem hasSiteIdentity_of_full {a : Announcement} (h : a.rfss ≠ 0) : a.hasSiteIdentity = true := by
  simpa [Announcement.hasSiteIdentity] using Or.inl (Or.inr h)

theorem Table.Updated.good {t' : Table} {ccFreq : ℤ} {now : ℤ} (h : t.Updated ccFreq u now t')
    (hcount : t.count ≤ nbMax) (hunique : t.Unique) (hkeeps : ¬t.Clobbers ccFreq u) :
    t'.count ≤ nbMax ∧ t'.Unique ∧ t.Kept u now t' := by
  -- a new or newly named entry clashes with none, as none took its announcement by its site
  have hnew : ∀ e : Entry, (u.announcement.hasSiteIdentity = true →
      ∀ j < t.count, u.takesBySite (t.entries j) = false) →
      ∀ j < t.count, ¬(e.applyRecordUpdate u true now).Clashes (t.entries j) := by
    intro e hsite j hj hclash
    have hid : u.announcement.hasSiteIdentity = true := hasSiteIdentity_of_full hclash.1
    exact not_clashes_new (hsite hid j hj) hclash
  cases h with
  | refused => exact ⟨hcount, hunique, fun i _ => Or.inl (Entry.Keeps.refl _)⟩
  | bySite i hcc hid hi htakes =>
    have hother : (t.entries i).otherWacn u.announcement = false := by
      simp only [Update.takesBySite, Bool.and_eq_true, Bool.not_eq_true'] at htakes
      exact htakes.2
    have hcopy : false = true → (t.entries i).Nameless := by simp
    have hkept := (keeps_apply hother hcopy now).enrich u.announcement
    refine ⟨hcount, hunique.write fun j hj hji hclash => ?_, kept_write hkept u now⟩
    have hold := hkept.clashes (by simp [applyRecordUpdate])
      (by simp [applyRecordUpdate]) hclash
    exact hunique i hi j hj hji.symm hold
  | byFreq i hfreq hcc hsite hfound =>
    obtain ⟨hi, htakes⟩ := firstPlace_some hfound
    have hother : (t.entries i).otherWacn u.announcement = false := by
      by_contra hne
      exact hkeeps ⟨hfreq, hcc, hsite, i, hfound, by simpa using hne⟩
    have hkept := keeps_apply hother
      (fun hid => Update.nameless_of_takesByFreq htakes hid) now
    refine ⟨hcount, hunique.write fun j hj hji hclash => ?_, kept_write hkept u now⟩
    cases hid : u.announcement.hasSiteIdentity with
    | true =>
      rw [hid] at hclash
      exact hnew _ hsite j hj hclash
    | false =>
      rw [hid] at hclash hkept
      exact hunique i hi j hj hji.symm (hkept.clashes rfl rfl hclash)
  | entered hcc hsite hnone =>
    have hold : ∀ i < t.count, i ≠ t.count := fun i hi => hi.ne
    rw [Table.insertRecord, Table.selectInsertIndex]
    by_cases hroom : t.count < nbMax
    · rw [if_pos hroom]
      have hsame : ∀ i < t.count,
        ((t.write t.count (blank.applyRecordUpdate u true now)).entries i) =
          t.entries i := fun i hi => update_of_ne (hold i hi) _ _
      have hself : (t.write t.count (blank.applyRecordUpdate u true now)).entries t.count =
          blank.applyRecordUpdate u true now := update_self _ _ _
      refine ⟨hroom, fun i hi j hj hij => ?_, fun i hi => Or.inl ?_⟩
      · dsimp only at hi hj ⊢
        rcases Nat.lt_succ_iff_lt_or_eq.mp hi with hi | rfl
        · rcases Nat.lt_succ_iff_lt_or_eq.mp hj with hj | rfl
          · rw [hsame i hi, hsame j hj]
            exact hunique i hi j hj hij
          · rw [hsame i hi, hself]
            exact fun hclash => hnew _ hsite i hi hclash.symm
        · have hj : j < t.count := by omega
          rw [hself, hsame j hj]
          exact hnew _ hsite j hj
      · dsimp only
        rw [hsame i hi]
        exact Entry.Keeps.refl _
    · rw [if_neg hroom]
      generalize t.oldest = k
      refine ⟨hcount, hunique.write fun j hj _ => hnew _ hsite j hj, fun i hi => ?_⟩
      by_cases hik : i = k
      · right
        refine ⟨⟨not_lt.mp hroom, fun j hj => ⟨hnone j hj, fun hid => hsite hid j hj⟩⟩, ?_⟩
        rw [hik]
        exact update_self _ _ _
      · left
        have hsame : (t.write k (blank.applyRecordUpdate u true now)).entries i =
            t.entries i := update_of_ne hik _ _
        dsimp only
        rw [hsame]
        exact Entry.Keeps.refl _

theorem Table.Updated.clobbered {t' : Table} {ccFreq : ℤ} {now : ℤ} (h : t.Updated ccFreq u now t')
    (hclobbers : t.Clobbers ccFreq u) : ¬t.Kept u now t' := by
  obtain ⟨hfreq, hcc, hsite, i, hfound, hother⟩ := hclobbers
  obtain ⟨hi, htakes⟩ := firstPlace_some hfound
  obtain ⟨hvalid, hknown, hne⟩ := otherWacn_iff.mp hother
  cases h with
  | refused h => rcases h with h | h <;> omega
  | bySite j _ hid hj hbySite => exact absurd hbySite (Bool.eq_false_iff.mp (hsite hid j hj))
  | entered _ _ hnone => exact absurd htakes (Bool.eq_false_iff.mp (hnone i hi))
  | byFreq j _ _ _ hfound' =>
    obtain rfl : i = j := Option.some.inj (hfound.symm.trans hfound')
    intro hkept
    rcases hkept i hi with hkeeps | ⟨⟨-, hout⟩, -⟩
    · have hwacn := (hkeeps.wacn hknown).2
      simp only [Table.write, update_self, applyRecordUpdate, hvalid, if_true] at hwacn
      exact hne hwacn.symm
    · exact absurd htakes (Bool.eq_false_iff.mp (hout i hi).1)

/-- A call on the table. -/
inductive Op where
  | record (ccFreq : ℤ) (u : Update) (now : ℤ)
  | tick (now : ℤ)

/-- One call. -/
def Table.perform (t : Table) : Op → Table
  | .record ccFreq u now => t.recordUpdate ccFreq u now
  | .tick now => t.tick now

/-- Calls from an empty table on. -/
def run (ops : List Op) : Table := ops.foldl Table.perform Table.empty

/-- A call that clobbers a WACN. -/
def Table.ClobbersIn (t : Table) : Op → Prop
  | .record ccFreq u _ => t.Clobbers ccFreq u
  | .tick _ => False

/-- What a call is to leave: one entry a site, and every entry as far as it was known. A tick drops
entries and changes none; an update of the control channel changes nothing. -/
def Table.Good (t : Table) (op : Op) : Prop :=
  (t.perform op).Unique ∧
    match op with
    | .record ccFreq u now =>
      t.Kept u now (t.perform op) ∧ (u.freq = ccFreq → t.perform op = t)
    | .tick now => (t.perform op).listed = t.listed.filter (Entry.fresh now)

/-- Every call of a run from the state it is made in. -/
def Throughout (p : Table → Op → Prop) (ops : List Op) : Prop :=
  ∀ done op rest, ops = done ++ op :: rest → p (run done) op

/-- What the calls of a run start from. -/
structure Table.Settled (t : Table) : Prop where
  count_le : t.count ≤ nbMax
  unique : t.Unique

theorem Table.settled_empty : Table.empty.Settled :=
  ⟨Nat.zero_le _, fun i hi => absurd hi (Nat.not_lt_zero i)⟩

/-- Entries dropped leave the others apart. -/
theorem Table.Settled.tick (h : t.Settled) (now : ℤ) : (t.tick now).Settled := by
  have hpairwise : t.listed.Pairwise fun e f => ¬e.Clashes f := by
    rw [Table.listed, pairwise_map, pairwise_iff_getElem]
    intro i j hi hj hij
    simp only [getElem_range]
    exact h.unique i (by simpa using hi) j (by simpa using hj) hij.ne
  have hkept : (t.tick now).listed.Pairwise fun e f => ¬e.Clashes f := by
    rw [listed_tick h.count_le]
    exact hpairwise.filter _
  constructor
  · have hle := (Queue.moveUp_spec (Entry.fresh now) t.entries (min t.count nbMax)).1
    exact le_trans hle (Nat.min_le_right _ _)
  · rw [Table.listed, pairwise_map, pairwise_iff_getElem] at hkept
    simp only [getElem_range, length_range] at hkept
    intro i hi j hj hij
    rcases Nat.lt_or_gt_of_ne hij with hlt | hgt
    · exact hkept i j hi hj hlt
    · exact fun hclash => hkept j i hj hi hgt hclash.symm

theorem Table.Settled.step (h : t.Settled) {op : Op} (hop : ¬t.ClobbersIn op) :
    (t.perform op).Settled ∧ t.Good op := by
  cases op with
  | tick now =>
    have hticked := h.tick now
    exact ⟨hticked, hticked.unique, listed_tick h.count_le now⟩
  | record ccFreq u now =>
    obtain ⟨hcount, hunique, hkept⟩ :=
      (t.recordUpdate_updated h.count_le ccFreq u now).good h.count_le h.unique hop
    refine ⟨⟨hcount, hunique⟩, hunique, hkept, fun hcc => ?_⟩
    rw [Table.perform, Table.recordUpdate, if_pos hcc]
    split <;> rfl

theorem Table.Settled.not_good (h : t.Settled) {op : Op} (hop : t.ClobbersIn op) : ¬t.Good op := by
  cases op with
  | tick now => exact hop.elim
  | record ccFreq u now =>
    intro hgood
    exact (t.recordUpdate_updated h.count_le ccFreq u now).clobbered hop hgood.2.1

theorem throughout_snoc {p : Table → Op → Prop} {ops : List Op} {op : Op} :
    Throughout p (ops ++ [op]) ↔ Throughout p ops ∧ p (run ops) op := by
  constructor
  · intro h
    exact ⟨fun done op' rest heq => h done op' (rest ++ [op]) (by simp [heq]), h ops op [] rfl⟩
  · rintro ⟨h, hop⟩ done op' rest heq
    rcases eq_nil_or_concat rest with rfl | ⟨rest, last, rfl⟩
    · obtain ⟨rfl, heq'⟩ := append_inj' heq rfl
      obtain rfl := (List.cons.inj heq').1
      exact hop
    · have hsplit : ops ++ [op] = (done ++ op' :: rest) ++ [last] := by simpa using heq
      exact h done op' rest (append_inj' hsplit rfl).1

theorem run_snoc (ops : List Op) (op : Op) : run (ops ++ [op]) = (run ops).perform op := by
  simp [run]

theorem run_settled {ops : List Op} (h : Throughout (fun t op => ¬t.ClobbersIn op) ops) :
    (run ops).Settled := by
  induction ops using List.reverseRecOn with
  | nil => exact settled_empty
  | append_singleton ops op ih =>
    obtain ⟨hbefore, hop⟩ := throughout_snoc.mp h
    rw [run_snoc]
    exact ((ih hbefore).step hop).1

/-- In a run, there is one entry a site and nothing known is ever changed, if and only if no update
is found by its frequency at an entry that knows another WACN than it tells. -/
theorem neighbors_kept_iff (ops : List Op) :
    Throughout (fun t op => t.Good op) ops ↔ Throughout (fun t op => ¬t.ClobbersIn op) ops := by
  induction ops using List.reverseRecOn with
  | nil =>
    have hnone : ∀ p, Throughout p [] := fun p done op rest heq => by simp at heq
    exact ⟨fun _ => hnone _, fun _ => hnone _⟩
  | append_singleton ops op ih =>
    rw [throughout_snoc, throughout_snoc, ih]
    refine and_congr_right fun hbefore => ?_
    have hsettled := run_settled hbefore
    exact ⟨fun hgood hop => hsettled.not_good hop hgood, fun hop => (hsettled.step hop).2⟩

/-- Two sites of one system told apart by their WACNs, and the frequency of the first told with the
WACN of the second. -/
def twoWacns : List Op :=
  let site : BitVec 32 → Announcement := fun wacn => ⟨wacn, 0x123, 1, 1, 0, 0, true, false, false⟩
  let nameless : BitVec 32 → Announcement := fun wacn => ⟨wacn, 0, 0, 0, 0, 0, true, false, false⟩
  [.record 0 ⟨851000000, site 0xA0001⟩ 100, .record 0 ⟨852000000, site 0xA0002⟩ 101,
    .record 0 ⟨851000000, nameless 0xA0002⟩ 102]

/-- The WACN of the first site is overwritten, and both entries are of one site. -/
theorem twoWacns_not_kept :
    ¬Throughout (fun t op => t.Good op) twoWacns ∧ ¬(run twoWacns).Unique ∧
      ((run (twoWacns.take 2)).entries 0).wacn = 0xA0001 ∧
      ((run twoWacns).entries 0).wacn = 0xA0002 := by
  have hunique : ¬(run twoWacns).Unique := fun h =>
    h 0 (by decide) 1 (by decide) (by decide) (by decide)
  refine ⟨fun h => hunique ?_, hunique, by decide, by decide⟩
  exact (h (twoWacns.take 2) _ [] rfl).1

end DsdNeo.P25.Neighbors
