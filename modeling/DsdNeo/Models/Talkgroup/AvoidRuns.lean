import DsdNeo.Models.Talkgroup.Avoids
import Mathlib.Data.Finset.Insert

/-!
# Session avoids over a run

Every run of additions, clears and snapshots leaves ordered lists. A ledger keeps what was added to
each state since it was last cleared: it agrees with the lists of all states but those given a
snapshot over a copy that was edited itself, as long as the generations have not gone once round.
-/

namespace DsdNeo.TgPolicy

open Program World Function

/-- The calls that change session avoids. -/
inductive AvoidOp where
  | add (s : ℕ) (id : BitVec 32)
  | clear (s : ℕ)
  | copy (dst src : ℕ)

open AvoidOp

/-- The call of the interface. -/
def AvoidOp.op : AvoidOp → Op
  | .add s id => .sessionAvoidAdd s id
  | .clear s => .sessionAvoidClear s
  | .copy dst src => .copySnapshot dst src

/-- How a state came by its list: by additions, by a snapshot, by a snapshot edited since, or by a
snapshot over an edited one, which may have kept its list. -/
inductive Origin where
  | own
  | copied
  | edited
  | mixed

/-- The origin of a list that is edited. -/
def Origin.onEdit : Origin → Origin
  | .own => .own
  | .copied => .edited
  | .edited => .edited
  | .mixed => .mixed

/-- The origin of a list that is cleared. -/
def Origin.onClear : Origin → Origin
  | .own => .own
  | _ => .edited

/-- The origin of a snapshot of a list over what the destination has. -/
def Origin.onto (src : Origin) : Option Origin → Origin
  | none | some .own | some .copied => if src matches .mixed then .mixed else .copied
  | some .edited | some .mixed => .mixed

/-- What was added to a list since it was last cleared. -/
structure Holding where
  added : Finset (BitVec 32)
  origin : Origin

/-- The lists of the states that have one. -/
abbrev Ledger := ℕ → Option Holding

/-- The identifiers added to a state. -/
def Ledger.added (l : Ledger) (i : ℕ) : Finset (BitVec 32) := ((l i).map Holding.added).getD ∅

/-- An addition in the ledger. -/
def Holding.insert (id : BitVec 32) : Option Holding → Holding
  | none => ⟨{id}, .own⟩
  | some h => ⟨Insert.insert id h.added, h.origin.onEdit⟩

/-- The ledger after a call with its result. -/
def Ledger.after (l : Ledger) (op : AvoidOp) (result : ℤ) : Ledger :=
  if result ≠ 0 then l
  else match op with
    | .add s id => update l s (some (Holding.insert id (l s)))
    | .clear s => update l s ((l s).map fun h => ⟨∅, h.origin.onClear⟩)
    | .copy dst src =>
      if dst = src then l
      else update l dst
        ((l src).map fun h => ⟨h.added, h.origin.onto ((l dst).map Holding.origin)⟩)

/-- The list did not come by a snapshot over one that was edited. -/
def Sure (h : Option Holding) : Prop := ∀ g, h = some g → g.origin ≠ .mixed

/-- The ledger after a run. -/
def Ledger.run (w : World) (l : Ledger) : List AvoidOp → Ledger
  | [] => l
  | op :: ops =>
    Ledger.run (perform op.op w).2 (l.after op (perform op.op w).1) ops

variable {w w' v : World}

/-- A state keeps its list where its store is quiet. -/
theorem Calm.avoidsOf (h : Calm w w') (hplaced : w.Placed) {s : StateId}
    (hslot : w'.slots s = w.slots s) : w'.avoidsOf s = w.avoidsOf s := by
  cases hs : w.slots s with
  | none => rw [avoidsOf_none hs, avoidsOf_none (hslot.trans hs)]
  | some a =>
    obtain ⟨st, hst⟩ := hplaced s a hs
    obtain ⟨st', hst', hquiet⟩ := h.quiet hst
    rw [avoidsOf_eq hs hst, avoidsOf_eq (hslot.trans hs) hst', hquiet.avoids]

variable {a m d i s : ℕ}

theorem Calm.placed (h : Calm w w') (hplaced : w.Placed) {s : StateId} (ha : w.slots s = some a) :
    ∃ st, w'.heap[a]? = some st := by
  obtain ⟨st, hst⟩ := hplaced s a ha
  obtain ⟨st', hst', -⟩ := h.quiet hst
  exact ⟨st', hst'⟩

theorem Idle.placed (h : Idle w w') (hplaced : w.Placed) : w'.Placed := by
  intro s a ha
  rw [h.slots] at ha
  exact h.calm.placed hplaced ha

theorem Idle.avoidsOf (h : Idle w w') (hplaced : w.Placed) (s : StateId) :
    w'.avoidsOf s = w.avoidsOf s := h.calm.avoidsOf hplaced (congrFun h.slots s)

section Rewritten

variable {w v : World} {s : StateId} {ids : List (BitVec 32)} {a : ℕ} {f : Store → Store}

theorem Rewritten.store (h : Rewritten w s ids a v f) (hplaced : w.Placed) :
    ∃ st, v.heap[a]? = some st ∧ (v.edited a f).heap[a]? = some (f st) ∧
      (f st).sessionAvoids = ids := by
  obtain ⟨st, hst, -⟩ := h.filled.avoids hplaced
  refine ⟨st, hst, ?_, h.ids st hst⟩
  rw [getElem?_edited, if_pos rfl, hst]
  rfl

theorem Rewritten.other (h : Rewritten w s ids a v f) {b : ℕ} (hb : b ≠ a) {st : Store}
    (hst : w.heap[b]? = some st) : ∃ st', (v.edited a f).heap[b]? = some st' ∧ Quiet st st' := by
  obtain ⟨st', hst', hquiet⟩ := h.filled.calm.quiet hst
  rw [getElem?_edited, if_neg hb.symm]
  exact ⟨st', hst', hquiet⟩

theorem Rewritten.slots (h : Rewritten w s ids a v f) :
    (v.edited a f).slots = update w.slots s (some a) := h.filled.slots

theorem Rewritten.placed (h : Rewritten w s ids a v f) (hplaced : w.Placed) :
    (v.edited a f).Placed := by
  intro t b hb
  obtain ⟨st, -, hst, -⟩ := h.store hplaced
  by_cases hba : b = a
  · exact ⟨f st, hba ▸ hst⟩
  · rw [h.slots] at hb
    have ht : t ≠ s := by
      rintro rfl
      rw [update_self] at hb
      exact hba (Option.some.inj hb).symm
    rw [update_of_ne ht] at hb
    obtain ⟨old, hold⟩ := hplaced t b hb
    obtain ⟨st', hst', -⟩ := h.other hba hold
    exact ⟨st', hst'⟩

/-- The list of a state that has the store. -/
theorem Rewritten.avoidsOf_self (h : Rewritten w s ids a v f) (hplaced : w.Placed) {t : StateId}
    (ht : (v.edited a f).slots t = some a) : (v.edited a f).avoidsOf t = ids := by
  obtain ⟨st, -, hst, hids⟩ := h.store hplaced
  rw [avoidsOf_eq ht hst, hids]

theorem Rewritten.avoidsOf_other (h : Rewritten w s ids a v f) (hplaced : w.Placed) {t : StateId}
    (ht : (v.edited a f).slots t ≠ some a) : (v.edited a f).avoidsOf t = w.avoidsOf t := by
  have hts : t ≠ s := by
    rintro rfl
    rw [h.slots, update_self] at ht
    exact ht rfl
  rw [h.slots, update_of_ne hts] at ht
  have hslot : (v.edited a f).slots t = w.slots t := by
    rw [h.slots, update_of_ne hts]
  cases hs : w.slots t with
  | none => rw [avoidsOf_none hs, avoidsOf_none (hslot.trans hs)]
  | some b =>
    obtain ⟨old, hold⟩ := hplaced t b hs
    have hba : b ≠ a := fun heq => ht (heq ▸ hs)
    obtain ⟨st', hst', hquiet⟩ := h.other hba hold
    rw [avoidsOf_eq hs hold, avoidsOf_eq (hslot.trans hs) hst', hquiet.avoids]

theorem Rewritten.tidy (h : Rewritten w s ids a v f) (hplaced : w.Placed) (htidy : w.Tidy)
    (hids : Ordered ids) : (v.edited a f).Tidy := by
  intro t
  by_cases ht : (v.edited a f).slots t = some a
  · rw [h.avoidsOf_self hplaced ht]
    exact hids
  · rw [h.avoidsOf_other hplaced ht]
    exact htidy t

end Rewritten

variable {dst : StateId}

/-- A state emptied has no list. -/
theorem Slotted.avoidsOf (h : Slotted w dst none w') (hplaced : w.Placed) (t : StateId) :
    w'.avoidsOf t = if t = dst then [] else w.avoidsOf t := by
  have hslots := congrFun h.slots t
  by_cases ht : t = dst
  · subst ht
    rw [update_self] at hslots
    rw [if_pos rfl, avoidsOf_none hslots]
  · rw [update_of_ne ht] at hslots
    rw [if_neg ht, h.calm.avoidsOf hplaced hslots]

theorem Slotted.placed (h : Slotted w dst none w') (hplaced : w.Placed) : w'.Placed := by
  intro t a ha
  rw [h.slots] at ha
  by_cases ht : t = dst
  · subst ht
    rw [update_self] at ha
    exact absurd ha (by simp)
  · rw [update_of_ne ht] at ha
    exact h.calm.placed hplaced ha

variable {src copy st st' : Store}

theorem Cloned.placed (h : Cloned w dst src w') (hplaced : w.Placed) : w'.Placed := by
  intro t a ha
  rw [h.slots] at ha
  by_cases ht : t = dst
  · subst ht
    rw [update_self] at ha
    obtain ⟨r, hr⟩ := h.store
    exact ⟨_, Option.some.inj ha ▸ hr⟩
  · rw [update_of_ne ht] at ha
    obtain ⟨st, hst⟩ := hplaced t a ha
    obtain ⟨st', hst', -⟩ := h.quiet a st hst
    exact ⟨st', hst'⟩

theorem Cloned.avoidsOf (h : Cloned w dst src w') (hplaced : w.Placed) (t : StateId) :
    w'.avoidsOf t = if t = dst then src.sessionAvoids else w.avoidsOf t := by
  have hslots := congrFun h.slots t
  by_cases ht : t = dst
  · subst ht
    rw [update_self] at hslots
    obtain ⟨r, hr⟩ := h.store
    rw [if_pos rfl, avoidsOf_eq hslots hr]
    rfl
  · rw [update_of_ne ht] at hslots
    rw [if_neg ht]
    cases hs : w.slots t with
    | none => rw [avoidsOf_none hs, avoidsOf_none (hslots.trans hs)]
    | some a =>
      obtain ⟨st, hst⟩ := hplaced t a hs
      obtain ⟨st', hst', hquiet⟩ := h.quiet a st hst
      rw [avoidsOf_eq hs hst, avoidsOf_eq (hslots.trans hs) hst', hquiet.avoids]

theorem idle_shortcut (w : World) (d : ℕ) (src : Store) : Idle w (w.edited d fun st =>
    { st with active := src.active, callSkips := src.callSkips }) := by
  have hcalm : Calm w (w.edited d fun st =>
      { st with active := src.active, callSkips := src.callSkips }) :=
    fun _ => Trace.refl.quiet fun _ => ⟨⟨rfl, rfl, rfl⟩, rfl, rfl, rfl⟩
  exact ⟨hcalm, rfl, rfl, by rw [World.edited, List.length_modify]; omega⟩

/-- The states have their stores, and the stores ordered lists. -/
structure Kempt (w : World) : Prop where
  placed : w.Placed
  tidy : w.Tidy

theorem kempt_init (tape : List Bool) : Kempt (World.init tape) := by
  have hnone : ∀ s, (World.init tape).slots s = none := fun _ => rfl
  refine ⟨fun s a ha => absurd ha (by rw [hnone]; simp), fun s => ?_⟩
  rw [avoidsOf_none (hnone s)]
  exact ordered_nil

theorem Kempt.idle (h : Kempt w) (hidle : Idle w w') : Kempt w' := by
  refine ⟨hidle.placed h.placed, fun s => ?_⟩
  rw [hidle.avoidsOf h.placed]
  exact h.tidy s

/-- What a call does, with its result. -/
inductive Outcome (w : World) : AvoidOp → ℤ → World → Prop where
  | failed {op : AvoidOp} {r : ℤ} {w' : World} : Idle w w' → r ≠ 0 → Outcome w op r w'
  | listed {s : ℕ} {id : BitVec 32} {w' : World} : Idle w w' → id ∈ w.avoidsOf (.app s) →
      Outcome w (.add s id) 0 w'
  | added {s : ℕ} {id : BitVec 32} {a : ℕ} {v : World} {f : Store → Store} : id ≠ 0 →
      id ∉ w.avoidsOf (.app s) → Rewritten w (.app s) (inserted (w.avoidsOf (.app s)) id) a v f →
      Outcome w (.add s id) 0 (v.edited a f)
  | clear {s : ℕ} : w.avoidsOf (.app s) = [] → Outcome w (.clear s) 0 w
  | cleared {s a : ℕ} {v : World} {f : Store → Store} : Rewritten w (.app s) [] a v f →
      w.slots (.app s) = some a → Outcome w (.clear s) 0 (v.edited a f)
  | self {s : ℕ} : Outcome w (.copy s s) 0 w
  | emptied {dst src : ℕ} {w' : World} : dst ≠ src → w.slots (.app src) = none →
      Slotted w (.app dst) none w' → Outcome w (.copy dst src) 0 w'
  | same {dst src d a : ℕ} {w' : World} : dst ≠ src → w.slots (.app dst) = some d →
      w.slots (.app src) = some a →
      sameVersion d a (w.heap.getD d (Store.fresh 0)) (w.heap.getD a (Store.fresh 0)) = true →
      Idle w w' → Outcome w (.copy dst src) 0 w'
  | cloned {dst src a : ℕ} {w' : World} : dst ≠ src → w.slots (.app src) = some a →
      Cloned w (.app dst) (w.heap.getD a (Store.fresh 0)) w' → Outcome w (.copy dst src) 0 w'

theorem Kempt.outcome (h : Kempt w) (op : AvoidOp) :
    Outcome w op (perform op.op w).1 (perform op.op w).2 := by
  cases op with
  | add s id =>
    refine wp_sessionAvoidAdd h.placed h.tidy (.app s) id (fun r w' hidle hlisted => ?_)
      fun a v f hid hnew hrewritten => Outcome.added hid hnew hrewritten
    by_cases hr : r = 0
    · subst hr
      exact Outcome.listed hidle.toIdle (hlisted rfl)
    · exact Outcome.failed hidle.toIdle hr
  | clear s =>
    have hclear : Wp (sessionAvoidClear (.app s)) w fun _ w' => Outcome w (.clear s) 0 w' :=
      wp_sessionAvoidClear h.placed (.app s) Outcome.clear
        fun a v f hrewritten ha => Outcome.cleared hrewritten ha
    exact hclear
  | copy dst src =>
    by_cases hne : dst = src
    · subst hne
      have hself : Wp (copySnapshot (.app dst) (.app dst)) w fun r w' =>
          Outcome w (.copy dst dst) r w' :=
        wp_ite (fun _ => Outcome.self) fun hne => absurd rfl hne
      exact hself
    · refine wp_copySnapshot (fun heq => hne (StateId.app.inj heq))
        (fun w' hsrc hslotted => Outcome.emptied hne hsrc hslotted)
        (fun d a hd ha hversion => Outcome.same hne hd ha hversion (idle_shortcut w d _))
        (fun w' hidle => Outcome.failed hidle.toIdle (by decide))
        fun a w' ha hcloned => Outcome.cloned hne ha hcloned

/-- Every call leaves ordered lists. -/
theorem Kempt.step (h : Kempt w) {op : AvoidOp} {r : ℤ} (hop : Outcome w op r w') : Kempt w' := by
  cases hop with
  | failed hidle _ => exact h.idle hidle
  | listed hidle _ => exact h.idle hidle
  | @added s id a v f hid hnew hrewritten =>
    have hids := (h.tidy (.app s)).inserted hid hnew
    exact ⟨hrewritten.placed h.placed, hrewritten.tidy h.placed h.tidy hids⟩
  | clear _ => exact h
  | cleared hrewritten _ =>
    exact ⟨hrewritten.placed h.placed, hrewritten.tidy h.placed h.tidy ordered_nil⟩
  | self => exact h
  | @emptied dst src w' _ _ hslotted =>
    refine ⟨hslotted.placed h.placed, fun t => ?_⟩
    rw [hslotted.avoidsOf h.placed]
    split
    · exact ordered_nil
    · exact h.tidy t
  | same _ _ _ _ hidle => exact h.idle hidle
  | @cloned dst src a w' _ ha hcloned =>
    refine ⟨hcloned.placed h.placed, fun t => ?_⟩
    obtain ⟨st, hst⟩ := h.placed (.app src) a ha
    rw [hcloned.avoidsOf h.placed, getD_store hst, ← avoidsOf_eq ha hst]
    split
    · exact h.tidy (.app src)
    · exact h.tidy t

theorem Quiet.noted {s s' s'' : Store} (h : Quiet s s') (h' : Noted s' s'') : Noted s s'' :=
  ⟨⟨h.ids.trans h'.ids, fun hok => h'.rows (h.sound.rows hok)⟩, by rw [h'.generation, h.generation]⟩

/-- Every store is quiet or has one mutation. -/
def Advances (w w' : World) : Prop :=
  ∀ (b : ℕ) (s : Store), w.heap[b]? = some s →
    ∃ s', w'.heap[b]? = some s' ∧ (Quiet s s' ∨ Noted s s')

theorem Calm.advances (h : Calm w w') : Advances w w' := by
  intro b s hs
  obtain ⟨s', hs', hquiet⟩ := h.quiet hs
  exact ⟨s', hs', Or.inl hquiet⟩

theorem Cloned.advances (h : Cloned w dst src w') : Advances w w' := by
  intro b s hs
  obtain ⟨s', hs', hquiet⟩ := h.quiet b s hs
  exact ⟨s', hs', Or.inl hquiet⟩

variable {f : Store → Store}

theorem Rewritten.advances {s : StateId} {ids : List (BitVec 32)} (h : Rewritten w s ids a v f) :
    Advances w (v.edited a f) := by
  intro b st hst
  by_cases hb : b = a
  · obtain ⟨st', hst', hquiet⟩ := h.filled.calm.quiet hst
    refine ⟨f st', ?_, Or.inr (hquiet.noted (h.noted st'))⟩
    rw [getElem?_edited, if_pos hb.symm, hst']
    rfl
  · obtain ⟨st', hst', hquiet⟩ := h.other hb hst
    exact ⟨st', hst', Or.inl hquiet⟩

/-- The store a copy was taken from has moved on by at most `m` mutations; without one, it holds
the same avoids. -/
def Behind (m : ℕ) (w : World) (copy : Store) : Prop :=
  ∃ p src j, copy.snapshotParentContextId = idAt p ∧ w.heap[p]? = some src ∧ j ≤ m ∧
    src.table.generation = Version.bump^[j] copy.table.generation ∧
    (j = 0 → src.sessionAvoids = copy.sessionAvoids)

theorem Behind.step {copy' : Store} (h : Behind m w copy) (hcopy : Quiet copy copy')
    (hw : Advances w w') : Behind (m + 1) w' copy' := by
  obtain ⟨p, src, j, hparent, hsrc, hj, hgeneration, hsame⟩ := h
  obtain ⟨src', hsrc', hquiet | hnoted⟩ := hw p src hsrc
  · refine ⟨p, src', j, hcopy.ids.parent.trans hparent, hsrc', by omega, ?_, fun hz => ?_⟩
    · rw [hquiet.generation, hcopy.generation, hgeneration]
    · rw [hquiet.avoids, hcopy.avoids, hsame hz]
  · refine ⟨p, src', j + 1, hcopy.ids.parent.trans hparent, hsrc', by omega, ?_, by omega⟩
    rw [hnoted.generation, hcopy.generation, hgeneration, iterate_succ_apply']

theorem idAt_injective {b : ℕ} (ha : a < 2 ^ 64 - 1) (hb : b < 2 ^ 64 - 1) (h : idAt a = idAt b) :
    a = b := Version.iterate_bump_injective ha hb h

theorem Behind.avoids_eq (h : Behind m w copy) (hindexed : w.Indexed) (hm : m < 2 ^ 32 - 1)
    (hlength : w.heap.length ≤ m) (hsrc : w.heap[a]? = some src)
    (hversion : sameVersion d a copy src = true) : copy.sessionAvoids = src.sessionAvoids := by
  obtain ⟨p, src', j, hparent, hsrc', hj, hgeneration, hsame⟩ := h
  simp only [sameVersion, Bool.and_eq_true, decide_eq_true_eq] at hversion
  obtain ⟨⟨⟨⟨_, _⟩, hid⟩, hgen⟩, _⟩ := hversion
  have hp := (List.getElem?_eq_some_iff.mp hsrc').1
  have ha := (List.getElem?_eq_some_iff.mp hsrc).1
  have hpa : p = a := by
    refine idAt_injective (by omega) (by omega) ?_
    rw [← hparent, hid, hindexed.ids a src hsrc]
  subst hpa
  obtain rfl : src = src' := Option.some.inj (hsrc.symm.trans hsrc')
  have hj0 : j = 0 := by
    refine Version.iterate_bump_injective (by omega) (by omega) (g := copy.table.generation) ?_
    rw [← hgeneration, ← hgen]
    rfl
  exact (hsame hj0).symm

/-- The origin of a list tells of its store. -/
def Origin.Fits (m : ℕ) (w : World) (st : Store) : Origin → Prop
  | .own => st.snapshotParentContextId = 0
  | .copied => Behind m w st
  | .edited => True
  | .mixed => True

theorem Origin.Fits.step {o : Origin} (h : o.Fits m w st) (hst : Quiet st st')
    (hw : Advances w w') : o.Fits (m + 1) w' st' := by
  cases o with
  | own => exact hst.ids.parent.trans h
  | copied => exact Behind.step h hst hw
  | edited => trivial
  | mixed => trivial

theorem Origin.Fits.onEdit {n : ℕ} {o : Origin} (h : o.Fits m w st) (hst : SameIds st st') :
    o.onEdit.Fits n w' st' := by
  cases o with
  | own => exact hst.parent.trans h
  | copied => trivial
  | edited => trivial
  | mixed => trivial

theorem Origin.Fits.onClear {n : ℕ} {o : Origin} (h : o.Fits m w st) (hst : SameIds st st') :
    o.onClear.Fits n w' st' := by
  cases o with
  | own => exact hst.parent.trans h
  | copied => trivial
  | edited => trivial
  | mixed => trivial

/-- A snapshot that is not mixed is over none that was edited, of a list that is not mixed. -/
theorem Origin.onto_cases (src : Origin) (dst : Option Origin) :
    src.onto dst = .mixed ∨
      src.onto dst = .copied ∧ src ≠ .mixed ∧
        (dst = none ∨ dst = some .own ∨ dst = some .copied) := by
  cases src <;> rcases dst with _ | dst <;> try cases dst
  all_goals simp [Origin.onto]

/-- After `m` calls, the ledger agrees with the stores. -/
structure Tracks (m : ℕ) (w : World) (l : Ledger) : Prop where
  indexed : w.Indexed
  length : w.heap.length ≤ m
  apart : ∀ i j a, w.slots (.app i) = some a → w.slots (.app j) = some a → i = j
  holds : ∀ i, l i = none ↔ w.slots (.app i) = none
  added : ∀ i, Sure (l i) → ∀ id, id ∈ l.added i ↔ id ∈ w.avoidsOf (.app i)
  fits : ∀ i h a st, l i = some h → w.slots (.app i) = some a → w.heap[a]? = some st →
    h.origin.Fits m w st

theorem Ledger.added_update_self (l : Ledger) (i : ℕ) (h : Option Holding) :
    Ledger.added (update l i h) i = (h.map Holding.added).getD ∅ := by
  rw [Ledger.added, update_self]

theorem Ledger.added_update_of_ne (l : Ledger) {j : ℕ} (hji : j ≠ i) (h : Option Holding) :
    Ledger.added (update l i h) j = l.added j := by
  rw [Ledger.added, update_of_ne hji, Ledger.added]

variable {l : Ledger}

theorem Tracks.change (h : Tracks m w l) (hplaced : w.Placed) {ptr : Option ℕ}
    {holding : Option Holding} (hindexed : w'.Indexed)
    (hlength : w'.heap.length ≤ w.heap.length + 1) (hadvances : Advances w w')
    (hslots : w'.slots = update w.slots (.app i) ptr)
    (hothers : ∀ j b st, j ≠ i → w.slots (.app j) = some b → w.heap[b]? = some st →
      ∃ st', w'.heap[b]? = some st' ∧ Quiet st st')
    (hapart : ∀ j b, j ≠ i → ptr = some b → w.slots (.app j) ≠ some b)
    (hholds : holding = none ↔ ptr = none) (hadded : Sure holding →
      ∀ id, id ∈ (holding.map Holding.added).getD ∅ ↔ id ∈ w'.avoidsOf (.app i))
    (hfits : ∀ g a st, holding = some g → ptr = some a → w'.heap[a]? = some st →
      g.origin.Fits (m + 1) w' st) : Tracks (m + 1) w' (update l i holding) := by
  have hself : w'.slots (.app i) = ptr := by rw [hslots, update_self]
  have hother : ∀ j, j ≠ i → w'.slots (.app j) = w.slots (.app j) := fun j hj => by
    rw [hslots, update_of_ne fun heq => hj (StateId.app.inj heq)]
  have havoids : ∀ j, j ≠ i → w'.avoidsOf (.app j) = w.avoidsOf (.app j) := by
    intro j hj
    cases hs : w.slots (.app j) with
    | none => rw [avoidsOf_none hs, avoidsOf_none ((hother j hj).trans hs)]
    | some b =>
      obtain ⟨st, hst⟩ := hplaced _ _ hs
      obtain ⟨st', hst', hquiet⟩ := hothers j b st hj hs hst
      have hs' := (hother j hj).trans hs
      rw [avoidsOf_eq hs hst, avoidsOf_eq hs' hst', hquiet.avoids]
  refine ⟨hindexed, by have := h.length; omega, fun j k a hj hk => ?_, fun j => ?_,
    fun j hsure id => ?_, fun j g a st hg ha hst => ?_⟩
  · by_cases hji : j = i <;> by_cases hki : k = i
    · rw [hji, hki]
    · subst hji
      rw [hother k hki] at hk
      exact absurd hk (hapart k a hki (hself.symm.trans hj))
    · subst hki
      rw [hother j hji] at hj
      exact absurd hj (hapart j a hji (hself.symm.trans hk))
    · rw [hother j hji] at hj
      rw [hother k hki] at hk
      exact h.apart j k a hj hk
  · by_cases hji : j = i
    · subst hji
      rw [update_self, hself, hholds]
    · rw [update_of_ne hji, hother j hji, h.holds]
  · by_cases hji : j = i
    · subst hji
      rw [update_self] at hsure
      rw [Ledger.added_update_self, hadded hsure]
    · rw [update_of_ne hji] at hsure
      rw [Ledger.added_update_of_ne l hji, havoids j hji, h.added j hsure]
  · by_cases hji : j = i
    · subst hji
      rw [update_self] at hg
      exact hfits g a st hg (hself.symm.trans ha) hst
    · rw [update_of_ne hji] at hg
      rw [hother j hji] at ha
      obtain ⟨old, hold⟩ := hplaced _ _ ha
      obtain ⟨st', hst', hquiet⟩ := hothers j a old hji ha hold
      obtain rfl : st' = st := Option.some.inj (hst'.symm.trans hst)
      exact (h.fits j g a old hg ha hold).step hquiet hadvances

theorem Tracks.hold (h : Tracks m w l) (hplaced : w.Placed) (hidle : Idle w w')
    {holding : Option Holding} (hholds : holding = none ↔ l i = none) (hadded : Sure holding →
      ∀ id, id ∈ (holding.map Holding.added).getD ∅ ↔ id ∈ w.avoidsOf (.app i))
    (hfits : ∀ g a st, holding = some g → w.slots (.app i) = some a → w'.heap[a]? = some st →
      g.origin.Fits (m + 1) w' st) : Tracks (m + 1) w' (update l i holding) := by
  have hslots : w'.slots = update w.slots (.app i) (w.slots (.app i)) := by
    rw [update_eq_self, hidle.slots]
  refine h.change hplaced ((hidle.calm 0).indexed h.indexed) hidle.length hidle.calm.advances hslots
    (fun j b st _ _ hst => hidle.calm.quiet hst) (fun j b hj hb hjb => hj (h.apart j i b hjb hb))
    (hholds.trans (h.holds i)) (fun hsure id => ?_) hfits
  rw [hadded hsure, hidle.avoidsOf hplaced]

/-- A call that changes nothing. -/
theorem Tracks.idle (h : Tracks m w l) (hplaced : w.Placed) (hidle : Idle w w') :
    Tracks (m + 1) w' l := by
  have hhold : Tracks (m + 1) w' (update l 0 (l 0)) := by
    refine h.hold hplaced hidle Iff.rfl (h.added 0) fun g a st hg ha hst => ?_
    obtain ⟨old, hold⟩ := hplaced _ _ ha
    obtain ⟨st', hst', hquiet⟩ := hidle.calm.quiet hold
    obtain rfl : st' = st := Option.some.inj (hst'.symm.trans hst)
    exact (h.fits 0 g a old hg ha hold).step hquiet hidle.calm.advances
  rwa [update_eq_self] at hhold

/-- A call that rewrites the list of a state. -/
theorem Tracks.rewritten {ids : List (BitVec 32)} {holding : Holding} (h : Tracks m w l)
    (hplaced : w.Placed) (hrewritten : Rewritten w (.app s) ids a v f)
    (hadded : holding.origin ≠ .mixed → ∀ id, id ∈ holding.added ↔ id ∈ ids)
    (hnone : l s = none → holding.origin = .own)
    (hsome : ∀ g, l s = some g → ∀ st, g.origin.Fits m w st → ∀ st', SameIds st st' →
      holding.origin.Fits (m + 1) (v.edited a f) st') :
    Tracks (m + 1) (v.edited a f) (update l s (some holding)) := by
  have hindexed : (v.edited a f).Indexed := by
    have hv := (hrewritten.filled.calm 0).indexed h.indexed
    exact hv.edited fun st => (hrewritten.noted st).ids.context
  have hlength : (v.edited a f).heap.length ≤ w.heap.length + 1 := by
    rw [World.edited, List.length_modify]
    exact hrewritten.filled.length
  have hfree : ∀ j b, j ≠ s → w.slots (.app j) = some b → b ≠ a := by
    rintro j b hj hb rfl
    rcases hrewritten.filled.own with hown | ⟨-, ha, -⟩
    · exact hj (h.apart j s b hb hown)
    · obtain ⟨st, hst⟩ := hplaced _ _ hb
      have hlt := (List.getElem?_eq_some_iff.mp hst).1
      omega
  have hself : (v.edited a f).slots (.app s) = some a := by
    rw [hrewritten.slots, update_self]
  refine h.change hplaced hindexed hlength hrewritten.advances hrewritten.slots
    (fun j b st hj hb hst => hrewritten.other (hfree j b hj hb) hst)
    (fun j b hj hb hjb => hfree j b hj hjb (Option.some.inj hb).symm) (by simp)
    (fun hsure id => ?_) fun g b st hg hb hst => ?_
  · rw [hrewritten.avoidsOf_self hplaced hself]
    exact hadded (hsure holding rfl) id
  · obtain rfl : holding = g := Option.some.inj hg
    obtain rfl : a = b := Option.some.inj hb
    obtain ⟨old, hold, hnew, -⟩ := hrewritten.store hplaced
    obtain rfl : f old = st := Option.some.inj (hnew.symm.trans hst)
    have hids : SameIds old (f old) := (hrewritten.noted old).ids
    cases hl : l s with
    | none =>
      rw [hnone hl]
      have hslot := (h.holds s).mp hl
      rcases hrewritten.filled.own with hown | ⟨-, -, st', hst', hquiet⟩
      · exact absurd (hslot.symm.trans hown) (by simp)
      · obtain rfl : st' = old := Option.some.inj (hst'.symm.trans hold)
        exact hids.parent.trans hquiet.ids.parent
    | some g =>
      rcases hrewritten.filled.own with hown | ⟨hslot, -⟩
      · obtain ⟨st', hst'⟩ := hplaced _ _ hown
        obtain ⟨st'', hst'', hquiet⟩ := hrewritten.filled.calm.quiet hst'
        obtain rfl : st'' = old := Option.some.inj (hst''.symm.trans hold)
        exact hsome g hl st' (h.fits s g a st' hl hown hst') _ (hquiet.ids.trans hids)
      · exact absurd (((h.holds s).mpr hslot).symm.trans hl) (by simp)

/-- The origin of a list that a call touches without a change. -/
theorem Tracks.fits_touched {g : Holding} (h : Tracks m w l) (hplaced : w.Placed)
    (hidle : Idle w w') (hl : l s = some g) {holding : Holding}
    (horigin : ∀ st, g.origin.Fits m w st → ∀ st', SameIds st st' →
      holding.origin.Fits (m + 1) w' st') :
    ∀ o a st, some holding = some o → w.slots (.app s) = some a → w'.heap[a]? = some st →
      o.origin.Fits (m + 1) w' st := by
  intro o a st ho ha hst
  obtain rfl : holding = o := Option.some.inj ho
  obtain ⟨old, hold⟩ := hplaced _ _ ha
  obtain ⟨st', hst', hquiet⟩ := hidle.calm.quiet hold
  obtain rfl : st' = st := Option.some.inj (hst'.symm.trans hst)
  exact horigin old (h.fits s g a old hl ha hold) _ hquiet.ids

/-- A state that has a store is in the ledger. -/
theorem Tracks.held (h : Tracks m w l) (ha : w.slots (.app s) = some a) : ∃ g, l s = some g :=
  Option.ne_none_iff_exists'.mp fun hl => by
    exact absurd (((h.holds s).mp hl).symm.trans ha) (by simp)

/-- A copy of the version of its source that was not edited. -/
theorem Tracks.behind {dst : ℕ} {g : Holding} {source : Store} (h : Tracks m w l)
    (hg : l dst = some g) (horigin : g.origin = .own ∨ g.origin = .copied)
    (hd : w.slots (.app dst) = some d) (hcopy : w.heap[d]? = some copy)
    (hversion : sameVersion d a copy source = true) : Behind m w copy := by
  have hfits := h.fits dst g d copy hg hd hcopy
  rcases horigin with hown | hcopied
  · rw [hown] at hfits
    have hparent : copy.snapshotParentContextId = 0 := hfits
    simp [sameVersion, hparent] at hversion
  · rw [hcopied] at hfits
    exact hfits

/-- An identifier that is listed is added again. -/
theorem Tracks.listed {id : BitVec 32} (h : Tracks m w l) (hplaced : w.Placed) (hidle : Idle w w')
    (hmem : id ∈ w.avoidsOf (.app s)) :
    Tracks (m + 1) w' (update l s (some (Holding.insert id (l s)))) := by
  cases hl : l s with
  | none =>
    rw [avoidsOf_none ((h.holds s).mp hl)] at hmem
    exact absurd hmem List.not_mem_nil
  | some g =>
    refine h.hold hplaced hidle (by simp [hl]) (fun hsure x => ?_)
      (h.fits_touched hplaced hidle hl fun st hst st' hids => hst.onEdit hids)
    have hold : Sure (l s) := by
      intro g' hg' hmixed
      obtain rfl : g = g' := Option.some.inj (hl.symm.trans hg')
      exact hsure _ rfl (by rw [Holding.insert, hmixed]; rfl)
    have hadded := h.added s hold
    rw [Ledger.added, hl] at hadded
    rw [← hadded]
    have hin : id ∈ g.added := (hadded id).mpr hmem
    simp only [Option.map_some, Option.getD_some, Holding.insert, Finset.insert_eq_of_mem hin]

/-- A new identifier is added. -/
theorem Tracks.inserted {id : BitVec 32} (h : Tracks m w l) (hplaced : w.Placed)
    (hrewritten : Rewritten w (.app s) (inserted (w.avoidsOf (.app s)) id) a v f) :
    Tracks (m + 1) (v.edited a f) (update l s (some (Holding.insert id (l s)))) := by
  refine h.rewritten hplaced hrewritten (fun hmixed x => ?_) (fun hl => ?_)
    fun g hl st hst st' hids => ?_
  · have hold : Sure (l s) := by
      intro g hg horigin
      rw [hg, Holding.insert, horigin] at hmixed
      exact hmixed rfl
    rw [mem_inserted, ← h.added s hold, Ledger.added]
    cases l s with
    | none => simp [Holding.insert]
    | some g => simp [Holding.insert]
  · rw [hl]
    rfl
  · rw [hl]
    exact hst.onEdit hids

/-- An empty list is cleared. -/
theorem Tracks.clear (h : Tracks m w l) (hplaced : w.Placed) (hempty : w.avoidsOf (.app s) = []) :
    Tracks (m + 1) w (update l s ((l s).map fun g => ⟨∅, g.origin.onClear⟩)) := by
  have hidle := (Still.refl w).idle
  cases hl : l s with
  | none =>
    refine h.hold hplaced hidle (by simp [hl]) (fun _ id => ?_) fun g _ _ hg => absurd hg (by simp)
    rw [hempty]
    simp
  | some g =>
    refine h.hold hplaced hidle (by simp [hl]) (fun _ id => ?_)
      (h.fits_touched hplaced hidle hl fun st hst st' hids => hst.onClear hids)
    rw [hempty]
    simp

/-- A list is cleared. -/
theorem Tracks.cleared (h : Tracks m w l) (hplaced : w.Placed)
    (hrewritten : Rewritten w (.app s) [] a v f) (ha : w.slots (.app s) = some a) :
    Tracks (m + 1) (v.edited a f) (update l s ((l s).map fun g => ⟨∅, g.origin.onClear⟩)) := by
  obtain ⟨g, hl⟩ := h.held ha
  rw [hl]
  refine h.rewritten hplaced hrewritten (fun _ x => ?_) (fun hnone => ?_)
    fun g' hg' st hst st' hids => ?_
  · simp
  · exact absurd (hnone.symm.trans hl) (by simp)
  · obtain rfl : g = g' := Option.some.inj (hl.symm.trans hg')
    exact hst.onClear hids

/-- A snapshot of a state that has no store. -/
theorem Tracks.emptied {dst : ℕ} (h : Tracks m w l) (hplaced : w.Placed)
    (hslotted : Slotted w (.app dst) none w') : Tracks (m + 1) w' (update l dst none) := by
  have hlength : w'.heap.length ≤ w.heap.length + 1 := by
    rw [hslotted.length]
    exact Nat.le_succ _
  refine h.change hplaced ((hslotted.calm 0).indexed h.indexed) hlength hslotted.calm.advances
    hslotted.slots (fun j b st _ _ hst => hslotted.calm.quiet hst)
    (fun j b _ hb => absurd hb (by simp)) (by simp) (fun _ id => ?_)
    fun g _ _ hg => absurd hg (by simp)
  rw [hslotted.avoidsOf hplaced, if_pos rfl]
  simp

/-- A snapshot of a version the destination has. -/
theorem Tracks.same {dst src : ℕ} (h : Tracks m w l) (hplaced : w.Placed) (hm : m < 2 ^ 32 - 1)
    (hd : w.slots (.app dst) = some d) (ha : w.slots (.app src) = some a)
    (hversion : sameVersion d a (w.heap.getD d (Store.fresh 0))
    (w.heap.getD a (Store.fresh 0)) = true)
    (hidle : Idle w w') : Tracks (m + 1) w' (update l dst
      ((l src).map fun g => ⟨g.added, g.origin.onto ((l dst).map Holding.origin)⟩)) := by
  obtain ⟨dst', hdst⟩ := hplaced _ _ hd
  obtain ⟨src', hsrc⟩ := hplaced _ _ ha
  rw [getD_store hdst, getD_store hsrc] at hversion
  obtain ⟨g, hg⟩ := h.held hd
  obtain ⟨g', hg'⟩ := h.held ha
  rw [hg, hg']
  rcases Origin.onto_cases g'.origin (some g.origin) with hmixed | ⟨hcopied, hsure, horigin⟩
  · refine h.hold hplaced hidle (by simp [hg]) (fun hsure => absurd hmixed (hsure _ rfl))
      fun o b st ho hb hst => ?_
    obtain rfl : _ = o := Option.some.inj ho
    dsimp only [Option.map_some]
    rw [hmixed]
    trivial
  · have hplain : g.origin = .own ∨ g.origin = .copied := by simpa using horigin
    have hbehind : Behind m w dst' := h.behind hg hplain hd hdst hversion
    have hlists : w.avoidsOf (.app dst) = w.avoidsOf (.app src) := by
      rw [avoidsOf_eq hd hdst, avoidsOf_eq ha hsrc]
      exact hbehind.avoids_eq h.indexed hm h.length hsrc hversion
    have hlist := h.added src fun o ho => Option.some.inj (hg'.symm.trans ho) ▸ hsure
    refine h.hold hplaced hidle (by simp [hg]) (fun _ id => ?_) fun o b st ho hb hst => ?_
    · rw [hlists, ← hlist, Ledger.added, hg']
      rfl
    · obtain rfl : _ = o := Option.some.inj ho
      obtain rfl : d = b := Option.some.inj (hd.symm.trans hb)
      obtain ⟨st', hst', hquiet⟩ := hidle.calm.quiet hdst
      obtain rfl : st' = st := Option.some.inj (hst'.symm.trans hst)
      dsimp only [Option.map_some]
      rw [hcopied]
      exact hbehind.step hquiet hidle.calm.advances

/-- A snapshot that is taken. -/
theorem Tracks.cloned {dst src : ℕ} (h : Tracks m w l) (hplaced : w.Placed)
    (ha : w.slots (.app src) = some a)
    (hcloned : Cloned w (.app dst) (w.heap.getD a (Store.fresh 0)) w') :
    Tracks (m + 1) w' (update l dst
      ((l src).map fun g => ⟨g.added, g.origin.onto ((l dst).map Holding.origin)⟩)) := by
  obtain ⟨src', hsrc⟩ := hplaced _ _ ha
  rw [getD_store hsrc] at hcloned
  obtain ⟨g, hg⟩ := h.held ha
  rw [hg]
  refine h.change hplaced (hcloned.indexed h.indexed) (by have := hcloned.length; omega)
    hcloned.advances hcloned.slots (fun j b st _ _ hst => hcloned.quiet b st hst)
    (fun j b _ hb hjb => ?_) (by simp) (fun hsure id => ?_) fun o b st ho hb hst => ?_
  · obtain ⟨st, hst⟩ := hplaced _ _ hjb
    have hlt := (List.getElem?_eq_some_iff.mp hst).1
    have := Option.some.inj hb
    omega
  · have hlist := h.added src fun o ho => by
      obtain rfl : g = o := Option.some.inj (hg.symm.trans ho)
      rcases Origin.onto_cases g.origin ((l dst).map Holding.origin) with hmixed | ⟨-, hsure, -⟩
      · exact absurd hmixed (hsure _ rfl)
      · exact hsure
    rw [hcloned.avoidsOf hplaced, if_pos rfl, ← avoidsOf_eq ha hsrc, ← hlist, Ledger.added, hg]
    rfl
  · obtain rfl : _ = o := Option.some.inj ho
    obtain rfl : w.heap.length = b := Option.some.inj hb
    obtain ⟨refs, hrefs⟩ := hcloned.store
    obtain rfl : _ = st := Option.some.inj (hrefs.symm.trans hst)
    obtain ⟨src'', hsrc'', hquiet⟩ := hcloned.quiet a src' hsrc
    dsimp only [Option.map_some]
    rcases Origin.onto_cases g.origin ((l dst).map Holding.origin) with hmixed | ⟨hcopied, -, -⟩
    · rw [hmixed]
      trivial
    · rw [hcopied]
      exact ⟨a, src'', 0, h.indexed.ids a src' hsrc, hsrc'', Nat.zero_le _, hquiet.generation,
        fun _ => hquiet.avoids⟩

/-- Every call keeps the ledger in agreement. -/
theorem Tracks.step {op : AvoidOp} {r : ℤ} (h : Tracks m w l) (hkempt : Kempt w)
    (hm : m < 2 ^ 32 - 1) (hop : Outcome w op r w') : Tracks (m + 1) w' (l.after op r) := by
  have hplaced := hkempt.placed
  cases hop with
  | failed hidle hr =>
    have hsame : l.after op r = l := if_pos hr
    rw [hsame]
    exact h.idle hplaced hidle
  | listed hidle hmem =>
    rw [Ledger.after, if_neg (by simp)]
    exact h.listed hplaced hidle hmem
  | added hid hnew hrewritten =>
    rw [Ledger.after, if_neg (by simp)]
    exact h.inserted hplaced hrewritten
  | clear hempty =>
    rw [Ledger.after, if_neg (by simp)]
    exact h.clear hplaced hempty
  | cleared hrewritten ha =>
    rw [Ledger.after, if_neg (by simp)]
    exact h.cleared hplaced hrewritten ha
  | self =>
    rw [Ledger.after, if_neg (by simp)]
    rw [if_pos rfl]
    exact h.idle hplaced (Still.refl w).idle
  | emptied hne hsrc hslotted =>
    rw [Ledger.after, if_neg (by simp)]
    rw [if_neg hne, (h.holds _).mpr hsrc]
    exact h.emptied hplaced hslotted
  | same hne hd ha hversion hidle =>
    rw [Ledger.after, if_neg (by simp)]
    rw [if_neg hne]
    exact h.same hplaced hm hd ha hversion hidle
  | cloned hne ha hcloned =>
    rw [Ledger.after, if_neg (by simp)]
    rw [if_neg hne]
    exact h.cloned hplaced ha hcloned

/-- The empty ledger, at the start. -/
def Ledger.empty : Ledger := fun _ => none

theorem Kempt.run (h : Kempt w) (ops : List AvoidOp) : Kempt (run w (ops.map AvoidOp.op)) := by
  induction ops generalizing w with
  | nil => exact h
  | cons op ops ih => exact ih (h.step (h.outcome op))

theorem tracks_init (tape : List Bool) : Tracks 0 (World.init tape) Ledger.empty := by
  have hstores : ∀ (a : ℕ) (s : Store), (World.init tape).heap[a]? ≠ some s :=
    fun _ _ h => absurd h (by simp [World.init])
  refine ⟨⟨fun a s hs => absurd hs (hstores a s), rfl⟩, le_rfl,
    fun i j a hi => absurd hi (by simp [World.init]), fun i => ⟨fun _ => rfl, fun _ => rfl⟩,
    fun i _ id => ?_, fun i h a st _ _ hst => absurd hst (hstores a st)⟩
  rw [avoidsOf_none rfl]
  simp [Ledger.added, Ledger.empty]

theorem Tracks.run (h : Tracks m w l) (hkempt : Kempt w) {ops : List AvoidOp}
    (hm : m + ops.length < 2 ^ 32 - 1) :
    Tracks (m + ops.length) (TgPolicy.run w (ops.map AvoidOp.op)) (l.run w ops) := by
  induction ops generalizing m w l with
  | nil => exact h
  | cons op ops ih =>
    have hop := hkempt.outcome op
    rw [List.length_cons] at hm
    have hnext := h.step hkempt (by omega) hop
    have hrun := ih hnext (hkempt.step hop) (by omega)
    rw [List.length_cons, Nat.add_comm ops.length 1, ← Nat.add_assoc]
    exact hrun

/-- After every run of additions, clears and snapshots the list of a state ascends without zero, the
search tells what is listed and counts it, and in fewer than `2 ^ 32 - 1` calls what is listed in a
state was added since its last clear, unless it came by a snapshot over a copy that was edited. -/
theorem sessionAvoids_exact (tape : List Bool) (ops : List AvoidOp) :
    (∀ s, ((run (World.init tape) (ops.map AvoidOp.op)).avoidsOf s).Pairwise (· < ·) ∧
      0 ∉ (run (World.init tape) (ops.map AvoidOp.op)).avoidsOf s) ∧
    (∀ s id, (run (World.init tape) (ops.map AvoidOp.op)).sessionAvoidContains s id = true ↔
      id ∈ (run (World.init tape) (ops.map AvoidOp.op)).avoidsOf s) ∧
    (∀ s first last, first ≤ last →
      (run (World.init tape) (ops.map AvoidOp.op)).sessionAvoidCount s first last =
        (((run (World.init tape) (ops.map AvoidOp.op)).avoidsOf s).filter
          fun id => decide (first ≤ id) && decide (id ≤ last)).length) ∧
    (ops.length < 2 ^ 32 - 1 → ∀ i, Sure (Ledger.empty.run (World.init tape) ops i) → ∀ id,
      (run (World.init tape) (ops.map AvoidOp.op)).sessionAvoidContains (.app i) id = true ↔
        id ∈ (Ledger.empty.run (World.init tape) ops).added i) := by
  have hkempt := (kempt_init tape).run ops
  refine ⟨fun s => ⟨(hkempt.tidy s).ascending, (hkempt.tidy s).nonzero⟩, hkempt.tidy.contains_iff,
    fun s first last hle => hkempt.tidy.count_eq s hle, fun hlength i hsure id => ?_⟩
  have hlength' : 0 + ops.length < 2 ^ 32 - 1 := by omega
  have htracks := (tracks_init tape).run (kempt_init tape) hlength'
  rw [hkempt.tidy.contains_iff, htracks.added i hsure]

/-- A snapshot, then one addition to each side: the copy keeps its own list. -/
theorem snapshot_over_edited :
    ¬((run (World.init []) ([.add 1 1, .copy 2 1, .add 2 2, .add 1 3, .copy 2 1].map
        AvoidOp.op)).sessionAvoidContains (.app 2) 3 = true ↔
      3 ∈ (Ledger.empty.run (World.init [])
        [.add 1 1, .copy 2 1, .add 2 2, .add 1 3, .copy 2 1]).added 2) := by
  decide

/-- The source of that snapshot, and a third state, keep what was added to them. -/
theorem sessionAvoids_exact_copy :
    (run (World.init [true, true, true, false, true, true])
    ([.add 1 7, .copy 2 1, .add 1 9, .add 2 8,
        .copy 2 1, .copy 3 1].map AvoidOp.op)).sessionAvoidContains (.app 3) 7 = true ↔
      7 ∈ (Ledger.empty.run (World.init [true, true, true, false, true, true])
        [.add 1 7, .copy 2 1, .add 1 9, .add 2 8, .copy 2 1, .copy 3 1]).added 3 :=
  (sessionAvoids_exact [true, true, true, false, true, true]
    [.add 1 7, .copy 2 1, .add 1 9, .add 2 8, .copy 2 1, .copy 3 1]).2.2.2 (by decide) 3
      (by rintro _ ⟨⟩ ⟨⟩) 7

end DsdNeo.TgPolicy
