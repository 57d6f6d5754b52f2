import DsdNeo.Core.Search.LowerBound
import DsdNeo.Models.Talkgroup.Steps

/-!
# Session avoids

The identifiers a session avoids are kept ascending and without zero, so that the bisection tells
which are listed and how many lie in a range. Over a run of additions, clears and snapshots the
list of a state is what was added to it since it was last cleared, a snapshot taking over what its
source holds, as long as no snapshot is taken over a copy that was edited itself.
-/

namespace DsdNeo.TgPolicy

open Program Search World List

/-- The session avoids of a state, in the order they are kept. -/
def World.avoidsOf (w : World) (s : StateId) : List (BitVec 32) :=
  ((w.storeOf s).map Store.sessionAvoids).getD []

/-- `dsd_tg_policy_session_avoid_contains`. -/
def World.sessionAvoidContains (w : World) (s : StateId) (id : BitVec 32) : Bool :=
  match w.storeOf s with
  | none => false
  | some c =>
    let index := avoidLowerBound c.sessionAvoids id
    index < c.sessionAvoids.length && c.sessionAvoids.getD index 0 = id

/-- `dsd_tg_policy_session_avoid_count`. -/
def World.sessionAvoidCount (w : World) (s : StateId) (first last : BitVec 32) : ℕ :=
  match w.storeOf s with
  | none => 0
  | some c =>
    if first > last then 0
    else
      let after :=
        if last = 0xFFFFFFFF then c.sessionAvoids.length
        else avoidLowerBound c.sessionAvoids (last + 1)
      after - avoidLowerBound c.sessionAvoids first

/-- Avoids ascend, and zero is none of them. -/
structure Ordered (ids : List (BitVec 32)) : Prop where
  ascending : Ascending BitVec.toNat ids
  nonzero : (0 : BitVec 32) ∉ ids

theorem ordered_nil : Ordered [] := ⟨ascending_nil, not_mem_nil⟩

variable {ids : List (BitVec 32)} {id : BitVec 32}

theorem avoidLowerBoundLoop_eq (ids : List (BitVec 32)) (id : BitVec 32) (fuel lo hi : ℕ) :
    avoidLowerBoundLoop ids id fuel lo hi =
      bisect (fun i => decide ((ids.getD i 0).toNat < id.toNat)) fuel lo hi := by
  induction fuel generalizing lo hi with
  | zero => rfl
  | succ fuel ih =>
    rw [avoidLowerBoundLoop, bisect]
    dsimp only
    rw [ih, ih]
    simp only [BitVec.lt_def, decide_eq_true_eq]

/-- The search finds the number of smaller avoids. -/
theorem Ordered.avoidLowerBound_eq (h : Ordered ids) (id : BitVec 32) :
    avoidLowerBound ids id = rank BitVec.toNat ids id.toNat := by
  rw [avoidLowerBound, avoidLowerBoundLoop_eq, h.ascending.bisect_eq]

/-- What the search finds is listed there if it is listed at all. -/
theorem Ordered.found_iff (h : Ordered ids) (id : BitVec 32) :
    ids[avoidLowerBound ids id]? = some id ↔ id ∈ ids := by
  rw [h.avoidLowerBound_eq, h.ascending.getElem?_rank]

/-- A look at the place the search points to tells what is listed. -/
theorem Ordered.contains_iff (h : Ordered ids) (id : BitVec 32) :
    (decide (avoidLowerBound ids id < ids.length) &&
      decide (ids.getD (avoidLowerBound ids id) 0 = id)) = true ↔ id ∈ ids := by
  rw [← h.found_iff, List.getElem?_eq_some_iff]
  simp only [Bool.and_eq_true, decide_eq_true_eq]
  constructor
  · rintro ⟨hlt, heq⟩
    rw [getD_eq_getElem?_getD, getElem?_eq_getElem hlt, Option.getD_some] at heq
    exact ⟨hlt, heq⟩
  · rintro ⟨hlt, heq⟩
    rw [getD_eq_getElem?_getD, getElem?_eq_getElem hlt, Option.getD_some]
    exact ⟨hlt, heq⟩

/-- The list with an identifier put in. -/
def inserted (ids : List (BitVec 32)) (id : BitVec 32) : List (BitVec 32) :=
  ids.take (avoidLowerBound ids id) ++ id :: ids.drop (avoidLowerBound ids id)

theorem mem_inserted {x : BitVec 32} : x ∈ inserted ids id ↔ x = id ∨ x ∈ ids := by
  have hsplit : x ∈ ids.take (avoidLowerBound ids id) ∨ x ∈ ids.drop (avoidLowerBound ids id) ↔
      x ∈ ids := by
    rw [← mem_append, take_append_drop]
  rw [inserted, mem_append, mem_cons, ← hsplit]
  constructor
  · rintro (hfront | heq | hback)
    · exact Or.inr (Or.inl hfront)
    · exact Or.inl heq
    · exact Or.inr (Or.inr hback)
  · rintro (heq | hfront | hback)
    · exact Or.inr (Or.inl heq)
    · exact Or.inl hfront
    · exact Or.inr (Or.inr hback)

/-- A new identifier goes in where the search points. -/
theorem Ordered.inserted (h : Ordered ids) (hid : id ≠ 0) (hnew : id ∉ ids) :
    Ordered (inserted ids id) := by
  constructor
  · rw [TgPolicy.inserted, h.avoidLowerBound_eq]
    exact h.ascending.insert fun b hb heq => hnew (BitVec.eq_of_toNat_eq heq ▸ hb)
  · rw [mem_inserted]
    rintro (heq | hmem)
    · exact hid heq.symm
    · exact h.nonzero hmem

/-- The number of avoids in a range, whatever its end. -/
theorem Ordered.count_eq (h : Ordered ids) {first last : BitVec 32} (hle : first ≤ last) :
    (if last = 0xFFFFFFFF then ids.length else avoidLowerBound ids (last + 1)) -
        avoidLowerBound ids first =
      (ids.filter fun id => decide (first ≤ id) && decide (id ≤ last)).length := by
  have hafter : (if last = 0xFFFFFFFF then ids.length else avoidLowerBound ids (last + 1)) =
      rank BitVec.toNat ids (last.toNat + 1) := by
    split
    case isTrue hlast =>
      refine (countP_eq_length.mpr fun x _ => ?_).symm
      have hx := x.isLt
      rw [hlast, decide_eq_true_iff]
      exact hx
    case isFalse hlast =>
      have hnext : (last + 1).toNat = last.toNat + 1 := by
        have hlt := last.isLt
        have hne : last.toNat ≠ 0xFFFFFFFF := fun heq => hlast (BitVec.eq_of_toNat_eq heq)
        have hone : (1 : BitVec 32).toNat = 1 := rfl
        rw [BitVec.toNat_add, hone]
        exact Nat.mod_eq_of_lt (by omega)
      rw [h.avoidLowerBound_eq, hnext]
  have hle' : first.toNat ≤ last.toNat + 1 := Nat.le_succ_of_le hle
  rw [hafter, h.avoidLowerBound_eq, rank_sub ids hle']
  refine congrArg List.length (filter_congr fun x _ => ?_)
  simp only [BitVec.le_def, Nat.lt_succ_iff]

/-- The lists of all states are in order. -/
def World.Tidy (w : World) : Prop := ∀ s, Ordered (w.avoidsOf s)

variable {s : StateId} {w : World} {a : ℕ}

theorem World.avoidsOf_eq {st : Store} (ha : w.slots s = some a) (hst : w.heap[a]? = some st) :
    w.avoidsOf s = st.sessionAvoids := by
  rw [avoidsOf, storeOf, ha, Option.bind_some, hst]
  rfl

theorem World.avoidsOf_none (h : w.slots s = none) : w.avoidsOf s = [] := by
  rw [avoidsOf, storeOf, h]
  rfl

/-- What is looked up is what is listed. -/
theorem World.Tidy.contains_iff (h : w.Tidy) (s : StateId) (id : BitVec 32) :
    w.sessionAvoidContains s id = true ↔ id ∈ w.avoidsOf s := by
  have hs := h s
  rw [sessionAvoidContains]
  rw [avoidsOf] at hs ⊢
  cases hstore : w.storeOf s with
  | none => simp
  | some c =>
    rw [hstore] at hs
    exact hs.contains_iff id

theorem World.Tidy.count_eq (h : w.Tidy) (s : StateId) {first last : BitVec 32}
    (hle : first ≤ last) :
    w.sessionAvoidCount s first last =
      ((w.avoidsOf s).filter fun id => decide (first ≤ id) && decide (id ≤ last)).length := by
  have hs := h s
  rw [sessionAvoidCount]
  rw [avoidsOf] at hs ⊢
  cases hstore : w.storeOf s with
  | none => rfl
  | some c =>
    rw [hstore] at hs
    have hnot : ¬first > last := by
      rw [gt_iff_lt, BitVec.not_lt]
      exact hle
    dsimp only
    rw [if_neg hnot]
    exact hs.count_eq hle

theorem noteMutation_noted {s s' : Store} (hids : SameIds s s') (hrows : s'.rows = s.rows)
    (hgeneration : s'.table.generation = s.table.generation) : Noted s (noteMutation s') := by
  refine ⟨⟨⟨hids.context, hids.source, hids.parent⟩, fun hok e he => hok e (hrows ▸ he)⟩, ?_⟩
  rw [← hgeneration]
  rfl

/-- The list of a state is written as one mutation of its store. -/
structure Rewritten (w : World) (s : StateId) (ids : List (BitVec 32)) (a : ℕ) (v : World)
    (f : Store → Store) : Prop where
  filled : Filled w s a v
  noted : ∀ st, Noted st (f st)
  ids : ∀ st, v.heap[a]? = some st → (f st).sessionAvoids = ids

/-- The stores of the states are there. -/
def World.Placed (w : World) : Prop := ∀ s a, w.slots s = some a → ∃ st, w.heap[a]? = some st

/-- The store a state is found with has the list the state had. -/
theorem Filled.avoids {v : World} (h : Filled w s a v) (hplaced : w.Placed) :
    ∃ st, v.heap[a]? = some st ∧ st.sessionAvoids = w.avoidsOf s := by
  rcases h.own with hown | ⟨hnone, -, st, hst, hquiet⟩
  · obtain ⟨old, hold⟩ := hplaced s a hown
    obtain ⟨st, hst, hquiet⟩ := h.calm.quiet hold
    exact ⟨st, hst, by rw [hquiet.avoids, avoidsOf_eq hown hold]⟩
  · exact ⟨st, hst, by rw [hquiet.avoids, avoidsOf_none hnone]; rfl⟩

theorem getD_store {st : Store} (hst : w.heap[a]? = some st) :
    w.heap.getD a (Store.fresh 0) = st := by
  rw [getD_eq_getElem?_getD, hst, Option.getD_some]

/-- An identifier put into the list of a state. -/
theorem Filled.inserted {v : World} (h : Filled w s a v) (hplaced : w.Placed) (id : BitVec 32) :
    Rewritten w s (inserted (w.avoidsOf s) id) a v fun st =>
      noteMutation (avoidInsert st (avoidLowerBound (w.avoidsOf s) id) id) := by
  refine ⟨h, fun st => noteMutation_noted ⟨rfl, rfl, rfl⟩ rfl rfl, fun st hst => ?_⟩
  obtain ⟨st', hst', hlist⟩ := h.avoids hplaced
  obtain rfl : st' = st := Option.some.inj (hst'.symm.trans hst)
  rw [TgPolicy.inserted, ← hlist]
  rfl

theorem wp_sessionAvoidAdd (hplaced : w.Placed) (htidy : w.Tidy) (s : StateId) (id : BitVec 32)
    {post : ℤ → World → Prop} (hidle : ∀ r w', Spent w w' → (r = 0 → id ∈ w.avoidsOf s) → post r w')
    (hadd : ∀ a v f, id ≠ 0 → id ∉ w.avoidsOf s → Rewritten w s (inserted (w.avoidsOf s) id) a v f →
      post 0 (v.edited a f)) : Wp (sessionAvoidAdd s id) w post := by
  refine wp_ite (fun _ => hidle 1 w (Still.refl w).spent fun h => absurd h (by decide)) fun hid =>
    ?_
  refine wp_bind (wp_ctxGetMut_found (wp_bind ?_))
  have hfail : ∀ w', Spent w w' → post (-1) w' :=
    fun w' h => hidle _ w' h fun h => absurd h (by decide)
  refine wp_importedOrNew (fun a ha => ?_) (fun w' _ h => hfail w' h.spent) fun v hnone hfresh => ?_
  · obtain ⟨st, hst⟩ := hplaced s a ha
    have hlist : (w.heap.getD a (Store.fresh 0)).sessionAvoids = w.avoidsOf s := by
      rw [getD_store hst, avoidsOf_eq ha hst]
    have hsome : w.slots s ≠ none := by
      rw [ha]
      exact Option.some_ne_none a
    refine wp_bind (wp_storeAt ?_)
    dsimp only
    rw [hlist]
    refine wp_ite (fun hfound => ?_) fun hnew => wp_bind (wp_avoidReserve fun ok v hstill => ?_)
    · exact hidle 0 w (Still.refl w).spent fun _ => ((htidy s).found_iff id).mp hfound
    · rw [(htidy s).found_iff] at hnew
      refine wp_ite (fun _ => ?_) fun _ => ?_
      · rw [if_neg hsome]
        have hfilled := hstill.filled ha
        exact wp_bind (wp_modifyStore (hadd a v _ hid hnew (hfilled.inserted hplaced id)))
      · rw [if_neg hsome]
        exact hfail v hstill.spent
  · have hlist : (v.heap.getD w.heap.length (Store.fresh 0)).sessionAvoids = w.avoidsOf s := by
      rw [getD_store hfresh.store, avoidsOf_none hnone]
      rfl
    have hnew : id ∉ w.avoidsOf s := by
      rw [avoidsOf_none hnone]
      exact not_mem_nil
    refine wp_bind (wp_storeAt ?_)
    dsimp only
    rw [hlist]
    refine wp_ite (fun hfound => absurd (((htidy s).found_iff id).mp hfound) hnew) fun _ => ?_
    refine wp_bind (wp_avoidReserve fun ok v' hstill => wp_ite (fun _ => ?_) fun _ => ?_)
    · rw [if_pos hnone]
      refine wp_bind (wp_extSet fun v'' hslotted _ => ?_)
      have hfilled : Filled w s w.heap.length v'' :=
        hfresh.filled (hstill.slotted hslotted) hnone
      exact wp_bind (wp_modifyStore (hadd _ v'' _ hid hnew (hfilled.inserted hplaced id)))
    · rw [if_pos hnone]
      refine wp_bind (wp_contextFree fun v'' hfreed _ => ?_)
      exact hfail v'' (hfresh.spent (hstill.trans hfreed))

theorem wp_sessionAvoidClear (hplaced : w.Placed) (s : StateId) {post : Unit → World → Prop}
    (hidle : w.avoidsOf s = [] → post () w)
    (hclear : ∀ a v f, Rewritten w s [] a v f → w.slots s = some a → post () (v.edited a f)) :
    Wp (sessionAvoidClear s) w post := by
  refine wp_bind (wp_ctxGetMut_found ?_)
  cases hslot : w.slots s with
  | none => exact hidle (avoidsOf_none hslot)
  | some a =>
    obtain ⟨st, hst⟩ := hplaced s a hslot
    refine wp_bind (wp_storeAt (wp_ite (fun _ => ?_) fun hempty => ?_))
    · refine wp_modifyStore (hclear a w _ ⟨(Still.refl w).filled hslot, fun st => ?_, ?_⟩ hslot)
      · exact noteMutation_noted ⟨rfl, rfl, rfl⟩ rfl rfl
      · exact fun _ _ => rfl
    · rw [getD_store hst, not_not] at hempty
      exact hidle ((avoidsOf_eq hslot hst).trans hempty)

end DsdNeo.TgPolicy
