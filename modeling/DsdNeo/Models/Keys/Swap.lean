import DsdNeo.Core.Overlay.Desk
import DsdNeo.Models.Keys.Scan

/-!
# The operator's keys over a whole scan

Rows come and go, changes are prepared and committed, and the operator's keyring is
edited in brackets, with allocations that may fail. A ledger keeps what the operator
last left and the row in effect; every call keeps the state in step with it.
-/

namespace DsdNeo.Keys

open DsdNeo.Overlay KeySet Change Function

/-- A decoder state with the changes prepared, by name. -/
structure Process where
  state : State
  changes : ℕ → Change

/-- One step of a scan. -/
inductive Op where
  | rowKeysApply (row : Option KeySet) (captures copies : Bool)
  | enter (row : KeySet) (captures copies : Bool)
  | prepare (id : ℕ) (row : Option KeySet) (captures copies : Bool)
  | commit (id : ℕ)
  | leave
  | suspend
  | edit (f : Keyring → Keyring)
  | resume (captures : Bool)

/-- One step: what the call returns, as success or change, and the process after it. -/
def perform (p : Process) : Op → Bool × Process
  | .rowKeysApply row captures copies =>
    let (changed, state) := scanRowKeysApply p.state row captures copies
    (changed, { p with state := state })
  | .enter row captures copies =>
    let (changed, state) := scanKeysEnter p.state row captures copies
    (changed, { p with state := state })
  | .prepare id row captures copies =>
    let (prepared, change) := scanKeyChangePrepare p.state row captures copies
    (prepared, { p with changes := update p.changes id change })
  | .commit id =>
    let (changed, state) := scanKeyChangeCommit p.state (p.changes id)
    (changed, { state := state, changes := update p.changes id cleared })
  | .leave => (true, { p with state := scanKeysLeave p.state })
  | .suspend => (true, { p with state := scanKeysSuspend p.state })
  | .edit f => (true, { p with state := { p.state with live := f p.state.live } })
  | .resume captures => (true, { p with state := scanKeysResume p.state captures })

/-- Edits stand in brackets of suspend and resume, no row changes inside one, and each is
closed. The flag says whether one is open. -/
def Bracketed : Bool → List Op → Prop
  | b, [] => b = false
  | b, .prepare _ _ _ _ :: ops => Bracketed b ops
  | true, .edit _ :: ops => Bracketed true ops
  | true, .resume _ :: ops => Bracketed false ops
  | true, _ :: _ => False
  | false, .suspend :: ops => Bracketed true ops
  | false, .edit _ :: _ => False
  | false, .resume _ :: _ => False
  | false, _ :: ops => Bracketed false ops

/-- A prepared change: the row, or none for the operator's keys, and the operator's keyring
when it was prepared. -/
structure Staged where
  row : Option KeySet
  own : Keyring

/-- The operator's keyring and the row in effect, with the changes prepared. -/
structure Ledger where
  desk : Desk Keyring KeySet
  staged : ℕ → Option Staged

/-- Nothing prepared, and no row. -/
def Ledger.start (ring : Keyring) : Ledger := ⟨.bare ring, fun _ => none⟩

/-- Whether the draft beside a row could be captured. -/
def draftKept (d : Desk Keyring KeySet) (captures : Bool) : Bool :=
  match d with
  | .aside _ _ draft => (capture draft captures).isSome
  | _ => false

/-- The desk a prepared change leads to: the operator's keyring is what it was then. -/
def Staged.commit (d : Desk Keyring KeySet) (staged : Staged) : Desk Keyring KeySet :=
  match staged.row with
  | some row => .covered staged.own row
  | none => d.leave

/-- What a step means for the ledger, by what the call returned. -/
def Ledger.note (l : Ledger) (result : Bool) : Op → Ledger
  | .rowKeysApply row _ _ =>
    { l with desk :=
        match row.filter present with
        | some rowSet => if result then l.desk.enter rowSet else l.desk
        | none => l.desk.leave }
  | .enter row _ _ => { l with desk := if result then l.desk.enter row else l.desk }
  | .prepare id row _ _ =>
    let staged := if result then some ⟨row.filter present, l.desk.own⟩ else none
    { l with staged := update l.staged id staged }
  | .commit id =>
    { desk := (l.staged id).elim l.desk (Staged.commit l.desk)
      staged := update l.staged id none }
  | .leave => { l with desk := l.desk.leave }
  | .suspend => { l with desk := l.desk.suspend }
  | .edit f => { l with desk := l.desk.edit f }
  | .resume captures => { l with desk := l.desk.resume (draftKept l.desk captures) }

/-- A run, with the ledger kept beside it. -/
def run (p : Process) (l : Ledger) : List Op → Process × Ledger
  | [] => (p, l)
  | op :: ops => run (perform p op).2 (l.note (perform p op).1 op) ops

/-- A state shows what the desk does. -/
def Mirrors (s : State) : Desk Keyring KeySet → Prop
  | .bare own => s.activeSet = false ∧ s.live = own
  | .covered own row =>
    s.activeSet = true ∧ s.active = row ∧ s.live = installed row ∧ installed s.baseline = own
  | .aside own row draft =>
    s.activeSet = true ∧ s.active = row ∧ s.live = draft ∧ installed s.baseline = own

/-- A change owns what the ledger has of it. -/
def Owns (c : Change) : Option Staged → Prop
  | none => c.prepared = false
  | some ⟨none, _⟩ => c.prepared = true ∧ c.keyed = false
  | some ⟨some row, own⟩ =>
    c.prepared = true ∧ c.keyed = true ∧ c.captureBaseline = true ∧ c.active = row ∧
      installed c.baseline = own

/-- A process in step with its ledger. -/
structure InStep (p : Process) (l : Ledger) : Prop where
  mirrors : Mirrors p.state l.desk
  owns : ∀ id, Owns (p.changes id) (l.staged id)

variable {d : Desk Keyring KeySet} {s : State}

theorem Mirrors.live (h : Mirrors s d) : s.live = d.visible installed := by
  cases d with
  | bare own => exact h.2
  | covered own row => exact h.2.2.1
  | aside own row draft => exact h.2.2.1

theorem Mirrors.own (h : Mirrors s d) :
    (if s.activeSet then installed s.baseline else s.live) = d.own := by
  cases d with
  | bare own =>
    rw [h.1]
    exact h.2
  | covered own row =>
    rw [h.1]
    exact h.2.2.2
  | aside own row draft =>
    rw [h.1]
    exact h.2.2.2

theorem Mirrors.congr {s' : State} (h : Mirrors s d) (hset : s'.activeSet = s.activeSet)
    (hactive : s'.active = s.active) (hlive : s'.live = s.live)
    (hbase : s.activeSet = true → s'.baseline = s.baseline) : Mirrors s' d := by
  cases d with
  | bare own => exact ⟨hset.trans h.1, hlive.trans h.2⟩
  | covered own row =>
    exact ⟨hset.trans h.1, hactive.trans h.2.1, hlive.trans h.2.2.1,
      (congrArg installed (hbase h.1)).trans h.2.2.2⟩
  | aside own row draft =>
    exact ⟨hset.trans h.1, hactive.trans h.2.1, hlive.trans h.2.2.1,
      (congrArg installed (hbase h.1)).trans h.2.2.2⟩

theorem mirrors_leave (h : Mirrors s d) (hd : d.Settled) : Mirrors (scanKeysLeave s) d.leave := by
  rw [scanKeysLeave]
  cases d with
  | bare own =>
    rw [if_pos h.1]
    exact h
  | covered own row =>
    rw [if_neg (by rw [h.1]; exact Bool.noConfusion)]
    exact ⟨rfl, h.2.2.2⟩
  | aside own row draft => cases hd

theorem mirrors_suspend (h : Mirrors s d) (hd : d.Settled) :
    Mirrors (scanKeysSuspend s) d.suspend := by
  rw [scanKeysSuspend]
  cases d with
  | bare own =>
    rw [if_pos h.1]
    exact h
  | covered own row =>
    rw [if_neg (by rw [h.1]; exact Bool.noConfusion)]
    exact ⟨h.1, h.2.1, h.2.2.2, h.2.2.2⟩
  | aside own row draft => cases hd

theorem mirrors_edit (h : Mirrors s d) (hd : d.Editable) (f : Keyring → Keyring) :
    Mirrors { s with live := f s.live } (d.edit f) := by
  cases d with
  | bare own => exact ⟨h.1, congrArg f h.2⟩
  | covered own row => cases hd
  | aside own row draft => exact ⟨h.1, h.2.1, congrArg f h.2.2.1, h.2.2.2⟩

/-- Coming back to the row keeps the draft where it could be captured. -/
theorem mirrors_resume (h : Mirrors s d) (hd : d.Editable) (captures : Bool) :
    Mirrors (scanKeysResume s captures) (d.resume (draftKept d captures)) := by
  rw [scanKeysResume]
  cases d with
  | bare own =>
    rw [if_pos h.1]
    exact h
  | covered own row => cases hd
  | aside own row draft =>
    obtain ⟨hset, hactive, hlive, hbase⟩ := h
    rw [if_neg (by rw [hset]; exact Bool.noConfusion), draftKept, hlive]
    cases hcapture : capture draft captures with
    | none => exact ⟨hset, hactive, congrArg installed hactive, hbase⟩
    | some fresh =>
      refine ⟨hset, hactive, congrArg installed hactive, ?_⟩
      rw [capture_eq_some hcapture]
      exact installed_captured draft

theorem mirrors_enter (h : Mirrors s d) (hd : d.Settled) (row : KeySet) (captures copies : Bool) :
    Mirrors (scanKeysEnter s row captures copies).2
      (if (scanKeysEnter s row captures copies).1 then d.enter row else d) := by
  rw [scanKeysEnter]
  cases d with
  | bare own =>
    rw [if_pos h.1]
    cases hcapture : capture s.live captures with
    | none => exact h
    | some baseline =>
      cases hcopy : copy row copies with
      | none => exact h
      | some active =>
        refine ⟨rfl, copy_eq_some hcopy, congrArg installed (copy_eq_some hcopy), ?_⟩
        rw [capture_eq_some hcapture]
        exact (installed_captured s.live).trans h.2
  | covered own row' =>
    rw [if_neg (by rw [h.1]; exact Bool.noConfusion)]
    split
    · exact h
    · cases hcopy : copy row copies with
      | none => exact h
      | some active =>
        exact ⟨h.1, copy_eq_some hcopy, congrArg installed (copy_eq_some hcopy), h.2.2.2⟩
  | aside own row draft => cases hd

theorem owns_prepare (h : Mirrors s d) (row : Option KeySet) (captures copies : Bool) :
    Owns (scanKeyChangePrepare s row captures copies).2
      (if (scanKeyChangePrepare s row captures copies).1 then
        some ⟨row.filter present, d.own⟩ else none) := by
  rw [scanKeyChangePrepare]
  cases hrow : row.filter present with
  | none => exact ⟨rfl, rfl⟩
  | some rowSet =>
    have hown : ∀ baseline,
        (if s.activeSet then copy s.baseline captures else capture s.live captures) =
          some baseline → installed baseline = d.own := by
      intro baseline hbaseline
      rw [← h.own]
      split at hbaseline
      · rw [if_pos ‹_›, copy_eq_some hbaseline]
      · rw [if_neg ‹_›, capture_eq_some hbaseline, installed_captured]
    cases hbaseline : if s.activeSet then copy s.baseline captures else capture s.live captures with
    | none => exact (rfl : cleared.prepared = false)
    | some baseline =>
      by_cases hcopy : copies = true ∨ rowSet.entries = []
      · simp only [copy, if_pos hcopy, if_true]
        exact ⟨rfl, rfl, rfl, rfl, hown baseline hbaseline⟩
      · simp only [copy, if_neg hcopy, Bool.false_eq_true, if_false]
        exact (rfl : cleared.prepared = false)

theorem mirrors_commit (h : Mirrors s d) (hd : d.Settled) {c : Change} {staged : Option Staged}
    (hc : Owns c staged) :
    Mirrors (scanKeyChangeCommit s c).2 (staged.elim d (Staged.commit d)) := by
  rw [scanKeyChangeCommit]
  match staged, hc with
  | none, hc =>
    have hprepared : c.prepared = false := hc
    rw [if_pos hprepared]
    exact h
  | some ⟨none, own⟩, hc =>
    obtain ⟨hprepared, hkeyed⟩ : c.prepared = true ∧ c.keyed = false := hc
    rw [if_neg (by rw [hprepared]; exact Bool.noConfusion), if_pos hkeyed]
    exact mirrors_leave h hd
  | some ⟨some row, own⟩, hc =>
    obtain ⟨hprepared, hkeyed, hbase, hactive, hown⟩ := hc
    rw [if_neg (by rw [hprepared]; exact Bool.noConfusion),
      if_neg (by rw [hkeyed]; exact Bool.noConfusion), if_pos hbase]
    exact ⟨rfl, hactive, congrArg installed hactive, hown⟩

theorem mirrors_rowKeysApply (h : Mirrors s d) (hd : d.Settled) (row : Option KeySet)
    (captures copies : Bool) :
    Mirrors (scanRowKeysApply s row captures copies).2
      (match row.filter present with
        | some rowSet => if (scanRowKeysApply s row captures copies).1 then d.enter rowSet else d
        | none => d.leave) := by
  rw [scanRowKeysApply]
  cases hrow : row.filter present with
  | some rowSet =>
    have hentered := mirrors_enter h hd rowSet captures copies
    dsimp only
    cases hchanged : (scanKeysEnter s rowSet captures copies).1 with
    | true =>
      rw [hchanged] at hentered
      exact hentered.congr rfl rfl rfl fun _ => rfl
    | false =>
      rw [hchanged] at hentered
      exact hentered
  | none =>
    have hleft := mirrors_leave h hd
    dsimp only
    split
    · exact hleft.congr rfl rfl rfl fun _ => rfl
    · rw [scanKeysLeave, if_pos (Bool.eq_false_iff.mpr ‹_›)] at hleft
      exact hleft

/-- What a desk is like inside a bracket, and outside. -/
def Phase (inside : Bool) (d : Desk Keyring KeySet) : Prop :=
  if inside then d.Editable else d.Settled

/-- The bracket after a step. -/
def Op.inside (b : Bool) : Op → Bool
  | .suspend => true
  | .resume _ => false
  | _ => b

/-- Whether a step may come where a bracket is open, or none is. -/
def Op.allowed (b : Bool) : Op → Bool
  | .prepare _ _ _ _ => true
  | .edit _ => b
  | .resume _ => b
  | _ => !b

variable {b : Bool} {ops : List Op}

theorem bracketed_cons {op : Op} (h : Bracketed b (op :: ops)) :
    op.allowed b = true ∧ Bracketed (op.inside b) ops := by
  cases b <;> cases op <;> first | exact ⟨rfl, h⟩ | cases h

theorem settled_enter (h : d.Settled) (row : KeySet) (b : Bool) :
    (if b then d.enter row else d).Settled := by
  cases b with
  | false => exact h
  | true =>
    cases d with
    | aside own row draft => cases h
    | _ => trivial

theorem settled_leave (d : Desk Keyring KeySet) : d.leave.Settled := by
  cases d <;> trivial

theorem settled_commit (d : Desk Keyring KeySet) (hd : d.Settled) (staged : Option Staged) :
    (staged.elim d (Staged.commit d)).Settled := by
  cases staged with
  | none => exact hd
  | some staged =>
    obtain ⟨row, own⟩ := staged
    cases row with
    | none => exact settled_leave d
    | some row => trivial

theorem owns_update {changes : ℕ → Change} {staged : ℕ → Option Staged}
    (h : ∀ id, Owns (changes id) (staged id)) {id : ℕ} {c : Change} {st : Option Staged}
    (hc : Owns c st) (j : ℕ) : Owns (update changes id c j) (update staged id st j) := by
  by_cases hj : j = id
  · subst hj
    rw [update_self, update_self]
    exact hc
  · rw [update_of_ne hj, update_of_ne hj]
    exact h j

variable {l : Ledger}

theorem InStep.perform {p : Process} (h : InStep p l) (hb : Phase b l.desk) {op : Op}
    (hop : op.allowed b = true) :
    InStep (perform p op).2 (l.note (perform p op).1 op) ∧
      Phase (op.inside b) (l.note (perform p op).1 op).desk := by
  obtain ⟨hm, ho⟩ := h
  cases op with
  | prepare id row captures copies =>
    exact ⟨⟨hm, owns_update ho (owns_prepare hm row captures copies)⟩, hb⟩
  | edit f =>
    cases b with
    | false => cases hop
    | true =>
      refine ⟨⟨mirrors_edit hm hb f, ho⟩, ?_⟩
      change l.desk.Editable at hb
      change (l.desk.edit f).Editable
      cases hdesk : l.desk with
      | covered own row =>
        rw [hdesk] at hb
        exact hb
      | _ => trivial
  | resume captures =>
    cases b with
    | false => cases hop
    | true =>
      refine ⟨⟨mirrors_resume hm hb captures, ho⟩, ?_⟩
      change (l.desk.resume _).Settled
      cases l.desk <;> trivial
  | suspend =>
    cases b with
    | true => cases hop
    | false =>
      refine ⟨⟨mirrors_suspend hm hb, ho⟩, ?_⟩
      change l.desk.suspend.Editable
      cases l.desk <;> trivial
  | leave =>
    cases b with
    | true => cases hop
    | false => exact ⟨⟨mirrors_leave hm hb, ho⟩, settled_leave l.desk⟩
  | commit id =>
    cases b with
    | true => cases hop
    | false =>
      refine ⟨⟨mirrors_commit hm hb (ho id), ?_⟩, settled_commit l.desk hb _⟩
      exact owns_update ho (rfl : cleared.prepared = false)
  | enter row captures copies =>
    cases b with
    | true => cases hop
    | false =>
      exact ⟨⟨mirrors_enter hm hb row captures copies, ho⟩, settled_enter hb row _⟩
  | rowKeysApply row captures copies =>
    cases b with
    | true => cases hop
    | false =>
      refine ⟨⟨mirrors_rowKeysApply hm hb row captures copies, ho⟩, ?_⟩
      rw [Ledger.note]
      cases hrow : row.filter present with
      | some rowSet => exact settled_enter hb rowSet _
      | none => exact settled_leave l.desk

theorem InStep.run (hops : Bracketed b ops) {p : Process} (h : InStep p l) (hb : Phase b l.desk) :
    InStep (run p l ops).1 (run p l ops).2 ∧ (run p l ops).2.desk.Settled := by
  induction ops generalizing p l b with
  | nil =>
    cases hops
    exact ⟨h, hb⟩
  | cons op ops ih =>
    obtain ⟨hop, hrest⟩ := bracketed_cons hops
    obtain ⟨hstep, hphase⟩ := h.perform hb hop
    exact ih hrest hstep hphase

/-- The operator's keyring as last left by an edit, or as it was. -/
def edited (ring : Keyring) (ops : List Op) : Keyring :=
  ops.foldl (fun ring op => match op with | .edit f => f ring | _ => ring) ring

/-- The changes prepared and not committed yet, and whether an edit or a resume has come since. -/
abbrev Pending := ℕ → Option Bool

/-- Nothing prepared. -/
def Pending.start : Pending := fun _ => none

/-- The changes pending after a step. -/
def Op.pass (pending : Pending) : Op → Pending
  | .prepare id _ _ _ => update pending id (some false)
  | .commit id => update pending id none
  | .edit _ => fun id => (pending id).map fun _ => true
  | .resume _ => fun id => (pending id).map fun _ => true
  | _ => pending

/-- A step that loses no edit: a resume captures the draft, and no edit or resume lies between a
prepare and its commit. -/
def Op.Keeps (pending : Pending) : Op → Prop
  | .resume captures => captures = true
  | .commit id => pending id ≠ some true
  | _ => True

/-- Every step keeps the operator's edits. -/
def NothingLost : Pending → List Op → Prop
  | _, [] => True
  | pending, op :: ops => op.Keeps pending ∧ NothingLost (op.pass pending) ops

/-- The operator's keyring is the one last edited: kept, in a draft, and in the changes pending that
no edit or resume has passed. -/
structure UpToDate (l : Ledger) (pending : Pending) (ring : Keyring) : Prop where
  desk : l.desk.leave.own = ring
  staged : ∀ id st, l.staged id = some st →
    pending id = some true ∨ pending id = some false ∧ st.own = l.desk.own

theorem own_enter (d : Desk Keyring KeySet) (row : KeySet) (b : Bool) :
    (if b then d.enter row else d).own = d.own ∧
      (if b then d.enter row else d).leave.own = d.leave.own := by
  cases b <;> cases d <;> exact ⟨rfl, rfl⟩

theorem own_leave (h : d.Settled) : d.leave.own = d.own := by
  cases d with
  | aside own row draft => cases h
  | _ => rfl

variable {ring : Keyring} {pending : Pending}

theorem UpToDate.withDesk (h : UpToDate l pending ring) (hown : d.own = l.desk.own)
    (hleave : d.leave.own = l.desk.leave.own) : UpToDate { l with desk := d } pending ring :=
  ⟨hleave.trans h.desk, fun id st hst =>
    (h.staged id st hst).imp_right (And.imp_right (·.trans hown.symm))⟩

/-- An edit or a resume passes every change pending. -/
theorem UpToDate.passed (h : UpToDate l pending ring) {id : ℕ} {st : Staged}
    (hst : l.staged id = some st) : (pending id).map (fun _ => true) = some true := by
  rcases h.staged id st hst with hpending | ⟨hpending, -⟩ <;> rw [hpending] <;> rfl

theorem UpToDate.note (h : UpToDate l pending ring) (hb : Phase b l.desk) {op : Op}
    (hop : op.allowed b = true) (hkeeps : op.Keeps pending) (result : Bool) :
    UpToDate (l.note result op) (op.pass pending) (edited ring [op]) := by
  cases op with
  | rowKeysApply row captures copies =>
    cases b with
    | true => cases hop
    | false =>
      rw [Ledger.note]
      cases hrow : row.filter present with
      | some rowSet =>
        exact h.withDesk (own_enter l.desk rowSet result).1 (own_enter l.desk rowSet result).2
      | none =>
        exact h.withDesk (own_leave hb) (own_leave (settled_leave l.desk))
  | enter row captures copies =>
    exact h.withDesk (own_enter l.desk row result).1 (own_enter l.desk row result).2
  | leave =>
    cases b with
    | true => cases hop
    | false => exact h.withDesk (own_leave hb) (own_leave (settled_leave l.desk))
  | prepare id row captures copies =>
    refine ⟨h.desk, fun j st hst => ?_⟩
    change update l.staged id _ j = some st at hst
    rw [Op.pass]
    by_cases hj : j = id
    · subst hj
      rw [update_self] at hst ⊢
      split at hst
      · cases hst
        exact .inr ⟨rfl, rfl⟩
      · cases hst
    · rw [update_of_ne hj] at hst ⊢
      exact h.staged j st hst
  | commit id =>
    cases b with
    | true => cases hop
    | false =>
      have hrest : ∀ j st, update l.staged id none j = some st →
          update pending id none j = some true ∨
            update pending id none j = some false ∧ st.own = l.desk.own := by
        intro j st hst
        by_cases hj : j = id
        · rw [hj, update_self] at hst
          cases hst
        · rw [update_of_ne hj] at hst ⊢
          exact h.staged j st hst
      have hown : ((l.staged id).elim l.desk (Staged.commit l.desk)).own = l.desk.own := by
        cases hst : l.staged id with
        | none => rfl
        | some st =>
          have hsame := ((h.staged id st hst).resolve_left hkeeps).2
          obtain ⟨row, own⟩ := st
          cases row with
          | none => exact own_leave hb
          | some row => exact hsame
      have hsettled := settled_commit l.desk hb (l.staged id)
      refine ⟨?_, fun j st hst => (hrest j st hst).imp_right (And.imp_right (·.trans hown.symm))⟩
      exact (own_leave hsettled).trans (hown.trans ((own_leave hb).symm.trans h.desk))
  | suspend =>
    cases b with
    | true => cases hop
    | false =>
      refine h.withDesk ?_ ?_
      · cases l.desk <;> rfl
      · cases hdesk : l.desk with
        | aside own row draft =>
          change l.desk.Settled at hb
          rw [hdesk] at hb
          cases hb
        | _ => rfl
  | edit f =>
    cases b with
    | false => cases hop
    | true =>
      refine ⟨?_, fun id st hst => .inl (h.passed hst)⟩
      rw [edited, List.foldl_cons, List.foldl_nil, ← h.desk]
      change l.desk.Editable at hb
      change (l.desk.edit f).leave.own = f l.desk.leave.own
      cases hdesk : l.desk with
      | covered own row =>
        rw [hdesk] at hb
        cases hb
      | _ => rfl
  | resume captures =>
    cases b with
    | false => cases hop
    | true =>
      refine ⟨?_, fun id st hst => .inl (h.passed hst)⟩
      rw [edited, List.foldl_cons, List.foldl_nil, ← h.desk]
      change (l.desk.resume (draftKept l.desk captures)).leave.own = l.desk.leave.own
      cases l.desk with
      | aside own row draft =>
        have hcaptured : (capture draft captures).isSome = true := by
          have hallocated : captures = true := hkeeps
          rw [capture, if_pos (Or.inl hallocated)]
          rfl
        rw [draftKept, hcaptured]
        rfl
      | _ => rfl

theorem UpToDate.run (hops : Bracketed b ops) (hlost : NothingLost pending ops) {p : Process}
    (hstep : InStep p l) (hb : Phase b l.desk) (h : UpToDate l pending ring) :
    (run p l ops).2.desk.leave.own = edited ring ops := by
  induction ops generalizing p l b pending ring with
  | nil => exact h.desk
  | cons op ops ih =>
    obtain ⟨hop, hrest⟩ := bracketed_cons hops
    obtain ⟨hnext, hphase⟩ := hstep.perform hb hop
    exact ih hrest hlost.2 hnext hphase (h.note hb hop hlost.1 _)

/-- Whatever rows came and went, the keys in effect are those of the row, and leaving it gives
the operator's keyring back: as the ledger has it, and as last edited where every resume captures
and no edit or resume lies between a prepare and its commit. -/
theorem scan_keeps_operator_keys (s : State) (h : s.activeSet = false) (ops : List Op)
    (hops : Bracketed false ops) :
    let r := run ⟨s, fun _ => cleared⟩ (Ledger.start s.live) ops
    (∀ row, r.2.desk.row = some row → r.1.state.live = installed row) ∧
      (scanKeysLeave r.1.state).live = r.2.desk.own ∧
      (NothingLost Pending.start ops → r.2.desk.own = edited s.live ops) := by
  intro r
  have hstart : InStep ⟨s, fun _ => cleared⟩ (Ledger.start s.live) :=
    ⟨⟨h, rfl⟩, fun _ => rfl⟩
  obtain ⟨hend, hsettled⟩ := hstart.run hops trivial
  refine ⟨fun row hrow => ?_, ?_, fun hlost => ?_⟩
  · rw [hend.mirrors.live]
    exact Overlay.Desk.visible_of_row installed hsettled hrow
  · rw [(mirrors_leave hend.mirrors hsettled).live]
    exact Overlay.Desk.visible_leave installed hsettled
  · have hdate : UpToDate (Ledger.start s.live) Pending.start s.live :=
      ⟨rfl, fun id st hst => by cases hst⟩
    rw [← own_leave hsettled]
    exact UpToDate.run hops hlost hstart trivial hdate

/-- No row, and a keyring without keys. -/
def idle : State where
  live := installed KeySet.empty
  payloadKeyid := 0
  payloadKeyidR := 0
  baseline := KeySet.empty
  active := KeySet.empty
  activeSet := false
  keyEpoch := 0

/-- A row with a key file. -/
def fileRow : KeySet := { KeySet.empty with present := true, keyloader := 1 }

/-- The operator's edit of the loader flag. -/
def setLoader (ring : Keyring) : Keyring := { ring with keyloader := 5 }

/-- An edit under a row is what the operator has after it. -/
theorem scan_keeps_operator_keys_edit :
    (run ⟨idle, fun _ => cleared⟩ (Ledger.start idle.live)
      [.enter fileRow true true, .suspend, .edit setLoader, .resume true, .leave]).2.desk.own =
      setLoader idle.live :=
  (scan_keeps_operator_keys idle rfl
    [.enter fileRow true true, .suspend, .edit setLoader, .resume true, .leave] rfl).2.2
    ⟨trivial, trivial, trivial, rfl, trivial, trivial⟩

/-- A change prepared before an edit and committed after it takes the edit back. -/
theorem commit_loses_edit :
    ¬ ∀ (s : State) (ops : List Op), s.activeSet = false → Bracketed false ops →
      (scanKeysLeave (run ⟨s, fun _ => cleared⟩ (Ledger.start s.live) ops).1.state).live =
        edited s.live ops := by
  intro h
  have hloader := congrArg Keyring.keyloader (h idle
    [.prepare 0 (some fileRow) true true, .suspend, .edit setLoader, .resume true, .commit 0]
    rfl rfl)
  revert hloader
  decide

end DsdNeo.Keys
