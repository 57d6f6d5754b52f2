import DsdNeo.Models.DmrTrunk.Events
import DsdNeo.Models.Tuning.Earned

/-!
# Where the machine places the receiver

An attribution of the present generation names the frequency the receiver is on. A call on
the tuning layer that moves the receiver advances the generation, so what was written down
before it names no present place.
-/

namespace DsdNeo.DmrTrunk

open Program Tuning

variable {s : State} {n : ℕ} {generation : ℕ} {receiver : ℤ}

/-- What a context says of where the receiver is, and when it says nothing. -/
structure Ctx.Placed (c : Ctx) (generation : ℕ) (receiver : ℤ) : Prop where
  rx : 0 < c.ccRxFreqHz → c.ccRxGeneration = generation → receiver = c.ccRxFreqHz
  rx_le : c.ccRxGeneration ≤ generation
  seen : 0 < c.rxSeenHz → c.rxSeenGeneration = generation → receiver = c.rxSeenHz
  seen_le : c.rxSeenGeneration ≤ generation
  idle : c.state = .idle → c.ccRxFreqHz = 0 ∧ c.ccTuneRequestId = 0 ∧
    c.ccTuneSuperseded = false ∧ c.coldStartHunt = false
  hunt : c.coldStartHunt = true → c.ccTuneSuperseded = false

/-- The tuning layer between calls, and a context that places the receiver. -/
structure State.Attributed (s : State) : Prop where
  good : s.tuning.Good
  earned : s.tuning.Earned
  placed : s.ctx.Placed s.generation s.receiver

/-- Some requests may still begin, and the receiver can be asked where it is. -/
structure State.Ready (n : ℕ) (s : State) : Prop extends s.Attributed where
  room : s.tuning.now.nextRequest + n + 1 < 2 ^ 64
  queried : s.rest.useRigctl = true ∨ s.rest.audioInRtl = true

theorem State.Ready.weaken (h : s.Ready (n + 1)) : s.Ready n :=
  ⟨h.toAttributed, by have := h.room; omega, h.queried⟩

/-- What a placement reads, with the probe. -/
def Ctx.trace (c : Ctx) : SmState × (ℤ × ℕ) × (ℤ × ℕ) × (ℕ × ℤ) × Bool × Bool :=
  (c.state, (c.ccRxFreqHz, c.ccRxGeneration), (c.rxSeenHz, c.rxSeenGeneration),
    (c.ccTuneRequestId, c.ccProbeFreqHz), c.ccTuneSuperseded, c.coldStartHunt)

variable {c : Ctx}

theorem Ctx.Placed.of_trace {c' : Ctx} (h : c.Placed generation receiver)
    (heq : c'.trace = c.trace) : c'.Placed generation receiver := by
  simp only [Ctx.trace, Prod.mk.injEq] at heq
  obtain ⟨hstate, ⟨hrx, hgen⟩, ⟨hseen, hsgen⟩, ⟨hid, -⟩, hsup, hhunt⟩ := heq
  constructor
  · rw [hrx, hgen]
    exact h.rx
  · rw [hgen]
    exact h.rx_le
  · rw [hseen, hsgen]
    exact h.seen
  · rw [hsgen]
    exact h.seen_le
  · rw [hstate, hrx, hid, hsup, hhunt]
    exact h.idle
  · rw [hhunt, hsup]
    exact h.hunt

variable {state : SmState}

theorem Ctx.Placed.enter (h : c.Placed generation receiver)
    (hidle : state = .idle → c.ccRxFreqHz = 0 ∧ c.ccTuneRequestId = 0 ∧
      c.ccTuneSuperseded = false ∧ c.coldStartHunt = false) :
    (c.setState state).Placed generation receiver := by
  unfold Ctx.setState
  split
  · exact h
  · exact ⟨h.rx, h.rx_le, h.seen, h.seen_le, hidle, h.hunt⟩

/-- A state other than idle entered: what an idle context would promise is not asked. -/
theorem Ctx.placed_wake (hne : state ≠ .idle)
    (rx : 0 < c.ccRxFreqHz → c.ccRxGeneration = generation → receiver = c.ccRxFreqHz)
    (rx_le : c.ccRxGeneration ≤ generation)
    (seen : 0 < c.rxSeenHz → c.rxSeenGeneration = generation → receiver = c.rxSeenHz)
    (seen_le : c.rxSeenGeneration ≤ generation)
    (hunt : c.coldStartHunt = true → c.ccTuneSuperseded = false) :
    (c.setState state).Placed generation receiver := by
  unfold Ctx.setState
  split
  · next hst => exact ⟨rx, rx_le, seen, seen_le, fun hi => absurd (hst.symm.trans hi) hne, hunt⟩
  · exact ⟨rx, rx_le, seen, seen_le, fun hi => absurd hi hne, hunt⟩

theorem Ctx.Placed.setState (h : c.Placed generation receiver) (hne : state ≠ .idle) :
    (c.setState state).Placed generation receiver :=
  placed_wake hne h.rx h.rx_le h.seen h.seen_le h.hunt

theorem Ctx.setState_state (c : Ctx) (state : SmState) : (c.setState state).state = state := by
  unfold Ctx.setState
  split
  · next h => exact h
  · rfl

/-- What entering a state leaves alone. -/
theorem Ctx.setState_rest (c : Ctx) (state : SmState) :
    (c.setState state).ccTuneRequestId = c.ccTuneRequestId ∧
      (c.setState state).ccProbeFreqHz = c.ccProbeFreqHz ∧
      (c.setState state).coldStartHunt = c.coldStartHunt ∧
      (c.setState state).ccTuneSuperseded = c.ccTuneSuperseded ∧
      (c.setState state).ccFreqHz = c.ccFreqHz := by
  unfold Ctx.setState
  split
  · exact ⟨rfl, rfl, rfl, rfl, rfl⟩
  · exact ⟨rfl, rfl, rfl, rfl, rfl⟩

/-- A later generation: what was written down names no present place. -/
theorem Ctx.Placed.advance (h : c.Placed generation receiver) {generation' : ℕ} {receiver' : ℤ}
    (hlt : generation < generation') : c.Placed generation' receiver' :=
  ⟨fun _ he => absurd (he ▸ h.rx_le) (not_le.mpr hlt), h.rx_le.trans hlt.le,
    fun _ he => absurd (he ▸ h.seen_le) (not_le.mpr hlt), h.seen_le.trans hlt.le, h.idle, h.hunt⟩

theorem State.Ready.edit (h : s.Ready n) (hc : c.Placed s.generation s.receiver) :
    ({ s with ctx := c } : State).Ready n := ⟨⟨h.good, h.earned, hc⟩, h.room, h.queried⟩

/-- The placement and what it rests on. -/
def State.place (s : State) : (SmState × (ℤ × ℕ) × (ℤ × ℕ) × (ℕ × ℤ) × Bool × Bool) ×
    (Machine × (ℕ → ℤ) × ℤ) × Bool × Bool :=
  (s.ctx.trace, (s.tuning, s.asked, s.receiver), s.rest.useRigctl, s.rest.audioInRtl)

/-- None of that changes. -/
abbrev Quiet : State → State → Prop := Same State.place

theorem State.Ready.of_quiet {s' : State} (h : s.Ready n) (hq : Quiet s s') : s'.Ready n := by
  have htune : s'.tuning = s.tuning := congrArg (·.2.1.1) hq
  have hreceiver : s'.receiver = s.receiver := congrArg (·.2.1.2.2) hq
  have htrace : s'.ctx.trace = s.ctx.trace := congrArg (·.1) hq
  have hrig : s'.rest.useRigctl = s.rest.useRigctl := congrArg (·.2.2.1) hq
  have hrtl : s'.rest.audioInRtl = s.rest.audioInRtl := congrArg (·.2.2.2) hq
  have hgeneration : s'.generation = s.generation := congrArg (·.now.generation) htune
  refine ⟨⟨htune ▸ h.good, htune ▸ h.earned, ?_⟩, htune ▸ h.room, ?_⟩
  · rw [hgeneration, hreceiver]
    exact h.placed.of_trace htrace
  · rw [hrig, hrtl]
    exact h.queried

section Quiet

theorem quiet_ask : Keeps Quiet ask := fun _ => rfl

theorem quiet_setTrunkCcFreq (freq : ℤ) : Keeps Quiet (setTrunkCcFreq freq) := fun _ => rfl

theorem quiet_note (source : Source) : Keeps Quiet (note source) := fun _ => rfl

theorem quiet_modifyCtx {f : Ctx → Ctx} (h : ∀ c, (f c).trace = c.trace) :
    Keeps Quiet (modifyCtx f) := fun s =>
  congrArg (fun t => (t, (s.tuning, s.asked, s.receiver), s.rest.useRigctl, s.rest.audioInRtl))
    (h s.ctx)

theorem quiet_modifyRest {f : Rest → Rest}
    (h : ∀ r, ((f r).useRigctl, (f r).audioInRtl) = (r.useRigctl, r.audioInRtl)) :
    Keeps Quiet (modifyRest f) := fun s =>
  congrArg (fun t => (s.ctx.trace, (s.tuning, s.asked, s.receiver), t)) (h s.rest)

end Quiet

theorem wp_ask {post : Answer → State → Prop}
    (h : post (s.answers 0) { s with answers := fun n => s.answers (n + 1) }) :
    Wp ask s post := h

theorem wp_modifyCtx {f : Ctx → Ctx} {post : Unit → State → Prop}
    (h : post () { s with ctx := f s.ctx }) : Wp (modifyCtx f) s post := h

theorem State.Ready.generation_eq (h : s.Ready n) :
    s.generation = 1 + s.tuning.now.committed.length := by
  have hbudget := h.good.budget
  have hroom := h.room
  rw [State.generation, h.good.timed.now_covered.generation, Nat.mod_eq_of_lt]
  omega

/-- Another answer of the layer that commits at most one request: the machine stays placed. -/
theorem State.Ready.settle (h : s.Ready n) {m : Machine} (hgood : m.Good) (hearned : m.Earned)
    (hnext : m.now.nextRequest = s.tuning.now.nextRequest) {won : List ℕ}
    (hcommitted : m.now.committed = s.tuning.now.committed ++ won) : (s.settle m).Ready n := by
  have hsucceeded : succeeded s.tuning m = won := by
    rw [succeeded, hcommitted, List.drop_left]
  have hbudget := hgood.budget
  have hroom := h.room
  have hgeneration : m.now.generation = s.generation + won.length := by
    rw [h.generation_eq, hgood.timed.now_covered.generation, Nat.mod_eq_of_lt (by omega),
      hcommitted, List.length_append, Nat.add_assoc]
  unfold State.settle
  rw [hsucceeded]
  cases hlast : won.getLast? with
  | none =>
    have hnil : won = [] := List.getLast?_eq_none_iff.mp hlast
    subst hnil
    refine ⟨⟨hgood, hearned, ?_⟩, hnext ▸ h.room, h.queried⟩
    change s.ctx.Placed m.now.generation s.receiver
    rw [hgeneration]
    exact h.placed
  | some id =>
    have hpos : 0 < won.length := by
      cases won with
      | nil => cases hlast
      | cons _ _ => exact Nat.succ_pos _
    refine ⟨⟨hgood, hearned, ?_⟩, hnext ▸ h.room, h.queried⟩
    exact h.placed.advance (by change s.generation < m.now.generation; omega)

/-- A call other than a begin keeps the machine placed. -/
theorem State.Ready.layer (h : s.Ready n) {call : Call} (hc : call ≠ .begin) :
    Wp (layer call) s fun _ s' => s'.Ready n := by
  obtain ⟨gone, won, hout, -⟩ := call_outcome h.good hc
  exact h.settle hout.good (h.earned.apply call) hout.nextRequest hout.committed

/-- A request asked for a frequency, and landed there if it was committed. -/
def State.Lands (id : ℕ) (freq : ℤ) (s : State) : Prop :=
  s.asked id = freq ∧ (id ∈ s.tuning.now.committed → s.receiver = freq)

variable {id : ℕ} {freq : ℤ}

theorem State.Lands.settle (h : s.Lands id freq) {m : Machine} {gone : ℕ → Prop} {won : List ℕ}
    (hout : s.tuning.Outcome m gone won) (hwon : won = [] ∨ won = [id]) :
    (s.settle m).Lands id freq := by
  have hsucceeded : succeeded s.tuning m = won := succeeded_of_outcome hout
  have hcommitted := hout.committed
  unfold State.settle
  rw [hsucceeded]
  rcases hwon with rfl | rfl
  · rw [List.append_nil] at hcommitted
    refine ⟨h.1, fun hid => ?_⟩
    change id ∈ m.now.committed at hid
    exact h.2 (hcommitted ▸ hid)
  · exact ⟨h.1, fun _ => h.1⟩

/-- The calls a tune makes on its own request. -/
inductive OwnCall (id : ℕ) : Call → Prop where
  | publish (result : TuneResult) (t : ℕ) : OwnCall id (.publish id result t)
  | markReady : OwnCall id (.markReady id)
  | complete (result : TuneResult) (t : ℕ) : OwnCall id (.complete id result t)

theorem OwnCall.outcome {call : Call} (h : OwnCall id call) {m : Machine} (hg : m.Good) :
    ∃ gone won, m.Outcome (call.apply m) gone won ∧ (won = [] ∨ won = [id]) := by
  cases h with
  | publish result t =>
    rcases outcome_publish hg id result t with ⟨hout, -⟩ | ⟨hout, -⟩
    · exact ⟨_, _, hout, .inr rfl⟩
    · exact ⟨_, _, hout, .inl rfl⟩
  | markReady =>
    rcases outcome_markReady hg id with hout | hout
    · exact ⟨_, _, hout, .inr rfl⟩
    · exact ⟨_, _, hout, .inl rfl⟩
  | complete result t =>
    rcases outcome_complete hg id result t with ⟨hout, -⟩ | ⟨hout, -⟩
    · exact ⟨_, _, hout, .inr rfl⟩
    · exact ⟨_, _, hout, .inl rfl⟩

theorem settle_ctx (s : State) (m : Machine) : (s.settle m).ctx = s.ctx := by
  unfold State.settle
  split
  · rfl
  · rfl

/-- A tune in progress: its request lands where it asked. -/
structure InFlight (n : ℕ) (c : Ctx) (id : ℕ) (freq : ℤ) (s : State) : Prop where
  ready : s.Ready n
  ctx : s.ctx = c
  lands : s.Lands id freq

theorem InFlight.layer (h : InFlight n c id freq s) {call : Call} (hcall : OwnCall id call) :
    Wp (layer call) s fun _ s' => InFlight n c id freq s' := by
  obtain ⟨gone, won, hout, hwon⟩ := hcall.outcome h.ready.good
  have hready := h.ready.settle hout.good
    (h.ready.earned.apply call) hout.nextRequest hout.committed
  exact ⟨hready, (settle_ctx _ _).trans h.ctx, h.lands.settle hout hwon⟩

theorem InFlight.of_quiet {s' : State} (h : InFlight n c id freq s) (hq : Quiet s s')
    (hctx : s'.ctx = s.ctx) : InFlight n c id freq s' := by
  have htune : s'.tuning = s.tuning := congrArg (·.2.1.1) hq
  have hasked : s'.asked = s.asked := congrArg (·.2.1.2.1) hq
  have hreceiver : s'.receiver = s.receiver := congrArg (·.2.1.2.2) hq
  refine ⟨h.ready.of_quiet hq, hctx.trans h.ctx, ?_⟩
  unfold State.Lands
  rw [htune, hasked, hreceiver]
  exact h.lands

theorem State.Ready.requestBegin (h : s.Ready (n + 1)) (freq : ℤ) :
    Wp (requestBegin freq) s fun id s' =>
      s'.Ready n ∧ s'.ctx = s.ctx ∧ (id ≠ 0 → InFlight n s.ctx id freq s') := by
  have hroom := h.room
  obtain ⟨hgood, hnext, hcommitted, -⟩ := begin_spec h.good (by omega)
  have hbudget := hgood.budget
  have hgeneration : (Tuning.requestBegin s.tuning).2.now.generation = s.generation := by
    rw [h.generation_eq, hgood.timed.now_covered.generation, hcommitted, Nat.mod_eq_of_lt]
    rw [hcommitted] at hbudget
    omega
  have hready : ({ s with
      tuning := (Tuning.requestBegin s.tuning).2
      asked := Function.update s.asked (Tuning.requestBegin s.tuning).1 freq } : State).Ready
        n := by
    refine ⟨⟨hgood, h.earned.begin, ?_⟩, by rw [hnext]; omega, h.queried⟩
    rw [State.generation, hgeneration]
    exact h.placed
  refine ⟨hready, rfl, fun hid => ⟨hready, rfl, Function.update_self _ _ _, fun hmem => ?_⟩⟩
  have hle := h.good.committed_le _ (hcommitted ▸ hmem)
  have hfresh : (Tuning.requestBegin s.tuning).1 = s.tuning.now.nextRequest + 1 := by
    have htake : takeId s.tuning.now.nextRequest = s.tuning.now.nextRequest + 1 := by
      unfold takeId
      rw [Nat.mod_eq_of_lt (by omega), if_neg (Nat.succ_ne_zero _)]
    change (Tuning.requestBegin s.tuning).1 ≠ 0 at hid
    unfold Tuning.requestBegin at hid ⊢
    dsimp only at hid ⊢
    split at hid
    · exact absurd rfl hid
    · exact htake
  change (Tuning.requestBegin s.tuning).1 ≤ s.tuning.now.nextRequest at hle
  omega

theorem InFlight.noteResult (h : InFlight n c id freq s) (result : TuneResult) (nowNs : ℕ) :
    Wp (noteResult id result nowNs) s fun _ s' => InFlight n c id freq s' := by
  refine wp_ite (fun _ => ?_) fun _ => ?_
  · exact wp_bind ((h.layer .markReady).mono fun _ _ h' => wp_bind (wp_get h'))
  · exact wp_bind ((h.layer (.complete result nowNs)).mono fun _ _ h' => wp_bind (wp_get h'))

theorem InFlight.publishEarly (h : InFlight n c id freq s) (published : Option TuneResult)
    (nowNs : ℕ) : Wp (publishEarly id published nowNs) s fun _ s' => InFlight n c id freq s' := by
  cases published with
  | none => exact h
  | some result => exact h.layer (.publish result nowNs)

/-- What a tune through the hooks comes to. -/
structure Tuned (n : ℕ) (c : Ctx) (freq : ℤ) (out : TuneResult × ℕ) (s : State) : Prop where
  ready : s.Ready n
  ctx : s.ctx = c
  lands : isOk out.1 = true → out.2 ≠ 0 ∧ (s.status out.2 = .ok → s.receiver = freq)

theorem State.Ready.hookTune (h : s.Ready (n + 1)) (freq : ℤ) {accepted : Prog Unit}
    (hq : Keeps Quiet accepted) (hctx : Keeps (Same State.ctx) accepted) :
    Wp (hookTune freq accepted) s fun out s' => Tuned n s.ctx freq out s' := by
  refine wp_bind ((h.requestBegin freq).mono ?_)
  rintro id s₁ ⟨hready₁, hctx₁, hfly₁⟩
  refine wp_ite (fun _ => ?_) fun hid => ?_
  · exact ⟨hready₁, hctx₁, nofun⟩
  · refine wp_bind (wp_ask ?_)
    have hfly₂ := (hfly₁ hid).of_quiet (quiet_ask s₁) rfl
    refine wp_bind ((hfly₂.publishEarly _ _).mono fun _ s₃ hfly₃ => ?_)
    refine wp_bind ((((keeps_onlyIf hq).and (keeps_onlyIf hctx)).wp s₃).mono fun _ s₄ hk => ?_)
    have hfly₄ := hfly₃.of_quiet hk.1 hk.2
    refine wp_bind ((hfly₄.noteResult _ _).mono fun result s₅ hfly₅ => ?_)
    refine ⟨hfly₅.ready, hfly₅.ctx, fun _ => ⟨hid, fun hst => ?_⟩⟩
    exact hfly₅.lands.2 (committed_of_status hfly₅.ready.earned hst)

end DsdNeo.DmrTrunk
