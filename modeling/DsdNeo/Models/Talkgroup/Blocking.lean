import DsdNeo.Models.Talkgroup.Decisions
import Mathlib.Algebra.Order.Ring.Rat

/-!
# What blocks a call

Session avoids, call skips and holds, and what setting one does to the decisions on all calls: no
flag comes back, but for a skip that a full ledger of skips gives up.
-/

namespace DsdNeo.TgPolicy

open CallSkipsOf TuneState Closing List

section Evaluate

variable {T : Type} [OfNat T 0] [Sub T] [LE T] [DecidableLE T] [OfScientific T]

/-- What a decision starts from. -/
def front (kind : CallKind) (opts : Option TuneOpts) (state : TuneState T)
    (target source : BitVec 32) (encrypted dataCall : Bool) : CallDecision :=
  match kind with
  | .group => groupFront opts state target source encrypted dataCall
  | .privateCall => privateFront opts state source target encrypted dataCall false
  | .privateGrant => privateFront opts state source target encrypted dataCall true

/-- What ends a decision. -/
def closing (kind : CallKind) (state : TuneState T) (target source : BitVec 32) : Closing :=
  match kind with
  | .group => groupClosing state target
  | .privateCall => privateClosing state source target
  | .privateGrant => privateClosing state source target

theorem evaluate_eq (kind : CallKind) (opts : Option TuneOpts) (state : TuneState T)
    (target source : BitVec 32) (encrypted dataCall : Bool) :
    evaluate kind opts state target source encrypted dataCall =
      (closing kind state target source).apply
        (front kind opts state target source encrypted dataCall) := by
  cases kind with
  | group => exact evaluateGroupCall_eq opts state target source encrypted dataCall
  | privateCall => exact evaluatePrivate_eq opts state source target encrypted dataCall false
  | privateGrant => exact evaluatePrivate_eq opts state source target encrypted dataCall true

theorem agrees_evaluate (kind : CallKind) (opts : Option TuneOpts) (state : TuneState T)
    (target source : BitVec 32) (encrypted dataCall : Bool) :
    Agrees (evaluate kind opts state target source encrypted dataCall) := by
  rw [evaluate_eq]
  refine agrees _ ?_
  cases kind with
  | group => exact agrees_groupFront opts state target source encrypted dataCall
  | privateCall => exact agrees_privateFront opts state source target encrypted dataCall false
  | privateGrant => exact agrees_privateFront opts state source target encrypted dataCall true

theorem groupApplyLookup_silent (rows : List Entry) (tg : BitVec 32) (d d' : CallDecision)
    (hd : d.audioAllowed = true) (hmode : (groupApplyLookup rows tg d').2.modeBlocking = false)
    (haudio : (groupApplyLookup rows tg d).1.audioAllowed = false) :
    (groupApplyLookup rows tg d').2.explicitAudioBlock = true := by
  rw [groupApplyLookup] at haudio hmode ⊢
  dsimp only at haudio hmode ⊢
  split at haudio
  case isTrue hnone => exact absurd (haudio.symm.trans hd) (by decide)
  case isFalse hsome =>
    rw [if_neg hsome] at hmode ⊢
    dsimp only at hmode ⊢
    rw [hmode]
    simpa [decisionApplyEntry] using haudio

/-- A row without audio takes it back. -/
theorem silent_closing (kind : CallKind) (opts : Option TuneOpts) (state : TuneState T)
    (target source : BitVec 32) (encrypted dataCall : Bool)
    (hmode : (closing kind state target source).mode = false)
    (haudio : (front kind opts state target source encrypted dataCall).audioAllowed = false) :
    (closing kind state target source).audio = true := by
  have hprivate : ∀ allowUnlisted,
      (privateFront opts state source target encrypted dataCall allowUnlisted).audioAllowed =
        false →
      (privateClosing state source target).audio = true := by
    intro allowUnlisted haudio
    simp only [privateFront, applyEncLockoutBlock, applyPrivateTuneBlocks, privateSetHoldState,
      audio_blockTune] at haudio
    rw [privateClosing]
    cases hchosen : privateChosen state source target with
    | none =>
      rw [hchosen] at haudio
      exact absurd haudio (by simp [privateApplyEntry, initDecision])
    | some e =>
      rw [hchosen] at haudio
      simpa [privateApplyEntry, decisionApplyEntry] using haudio
  cases kind with
  | group =>
    simp only [front, groupFront, applyEncLockoutBlock, applyGroupTuneBlocks, groupSetHoldState,
      audio_blockTune, matched_blockTune] at haudio
    exact groupApplyLookup_silent state.rows target _ _ rfl hmode haudio
  | privateCall => exact hprivate false haudio
  | privateGrant => exact hprivate true haudio

theorem held_group (tgHold tg : BitVec 32) (d : CallDecision) :
    (groupSetHoldState tgHold tg d).2 = true ↔ tgHold ≠ 0 ∧ tgHold ∉ [tg] := by
  simp only [groupSetHoldState, Bool.and_eq_true, Bool.not_eq_true', Bool.and_eq_false_iff,
    decide_eq_true_eq, decide_eq_false_iff_not, mem_singleton]
  tauto

theorem held_private (tgHold src dst : BitVec 32) (d : CallDecision) :
    (privateSetHoldState tgHold src dst d).2 = true ↔ tgHold ≠ 0 ∧ tgHold ∉ [src, dst] := by
  simp only [privateSetHoldState, Bool.and_eq_true, Bool.not_eq_true', Bool.and_eq_false_iff,
    Bool.or_eq_false_iff, decide_eq_true_eq, decide_eq_false_iff_not, mem_cons,
    not_mem_nil, or_false]
  tauto

theorem Closing.blocked_mono {c c' : Closing} (havoided : c.avoided = true → c'.avoided = true)
    (hskipped : c.skipped = true → c'.skipped = true) (hmode : c'.mode = c.mode)
    (hheld : c.held = true → c'.held = true) (h : c.blocked = true) : c'.blocked = true := by
  simp only [blocked, Bool.or_eq_true, hmode] at h ⊢
  rcases h with ((h | h) | h) | h
  · exact Or.inl (Or.inl (Or.inl (havoided h)))
  · exact Or.inl (Or.inl (Or.inr (hskipped h)))
  · exact Or.inl (Or.inr h)
  · exact Or.inr (hheld h)

theorem noMore_evaluate {state state' : TuneState T} (hgrounds : SameGrounds state state')
    (hclock : state'.clock = state.clock) (kind : CallKind) (opts : Option TuneOpts)
    (target source : BitVec 32) (encrypted dataCall : Bool)
    (havoided : ∀ id ∈ kind.ids target source, sessionAvoidContains state id = true →
      sessionAvoidContains state' id = true)
    (hskipped : ∀ id ∈ kind.ids target source, ∀ now, callSkipBlocking state id now = true →
      callSkipBlocking state' id now = true)
    (hheld : state.tgHold ≠ 0 ∧ state.tgHold ∉ kind.ids target source →
      state'.tgHold ≠ 0 ∧ state'.tgHold ∉ kind.ids target source) :
    NoMore (evaluate kind opts state target source encrypted dataCall)
      (evaluate kind opts state' target source encrypted dataCall) := by
  rw [evaluate_eq, evaluate_eq]
  have hprivate : ∀ allowUnlisted, kind.ids target source = [source, target] →
      NoMore ((privateClosing state source target).apply
          (privateFront opts state source target encrypted dataCall allowUnlisted))
        ((privateClosing state' source target).apply
          (privateFront opts state' source target encrypted dataCall allowUnlisted)) := by
    intro allowUnlisted hids
    rw [hids] at havoided hskipped hheld
    have hchosen : privateChosen state' source target = privateChosen state source target := by
      rw [privateChosen, privateChosen, hgrounds.rows]
    refine noMore (noMore_privateFront hgrounds opts source target encrypted dataCall _)
      (blocked_mono (fun h => ?_) (fun h => ?_) ?_ fun h => ?_)
      (by simp only [privateClosing, hchosen]) (by simp only [privateClosing, hchosen])
      (by simp only [privateClosing, hchosen])
    · simp only [privateClosing, Bool.or_eq_true] at h ⊢
      exact h.imp (havoided _ (by simp)) (havoided _ (by simp))
    · simp only [privateClosing, Bool.or_eq_true, hclock] at h ⊢
      exact h.imp (hskipped _ (by simp) _) (hskipped _ (by simp) _)
    · simp only [privateClosing, hgrounds.rows]
    · have hheld' := hheld ((held_private _ _ _ (initDecision target source false false)).mp h)
      exact (held_private _ _ _ (initDecision target source false false)).mpr hheld'
  cases kind with
  | group =>
    have hblocks : (groupClosing state' target).audio = (groupClosing state target).audio ∧
        (groupClosing state' target).record = (groupClosing state target).record ∧
        (groupClosing state' target).stream = (groupClosing state target).stream ∧
        (groupClosing state' target).mode = (groupClosing state target).mode := by
      rw [groupClosing, groupClosing, hgrounds.rows]
      exact ⟨rfl, rfl, rfl, rfl⟩
    refine noMore (noMore_groupFront hgrounds opts target source encrypted dataCall)
      (blocked_mono (fun h => ?_) (fun h => ?_) hblocks.2.2.2 fun h => ?_) hblocks.1
      hblocks.2.1 hblocks.2.2.1
    · exact havoided target (mem_singleton_self target) h
    · have hnow := hskipped target (mem_singleton_self target) _ h
      rw [← hclock] at hnow
      exact hnow
    · have hheld' := hheld ((held_group _ _ (initDecision target 0 false false)).mp h)
      exact (held_group _ _ (initDecision target 0 false false)).mpr hheld'
  | privateCall => exact hprivate false rfl
  | privateGrant => exact hprivate true rfl

end Evaluate

section Skips

variable {T : Type} [OfNat T 0]

theorem callSkipFind_eq_some {skips : CallSkipsOf T} {id : BitVec 32} {i : ℕ} :
    callSkipFind skips id = some i ↔
      i < skips.count ∧ (skips.get i).id = id ∧ ∀ j < i, (skips.get j).id ≠ id := by
  rw [callSkipFind, find?_range_eq_some]
  simp only [decide_eq_true_eq, mem_range, Bool.not_eq_true', decide_eq_false_iff_not]
  exact ⟨fun ⟨hid, hlt, hfirst⟩ => ⟨hlt, hid, hfirst⟩, fun ⟨hlt, hid, hfirst⟩ => ⟨hid, hlt, hfirst⟩⟩

/-- Skips beyond the ledger have no identifier. -/
theorem CallSkipsOf.get_of_le {skips : CallSkipsOf T} {i : ℕ} (hi : 8 ≤ i) :
    (skips.get i).id = 0 := by
  rw [CallSkipsOf.get, getD_eq_getElem?_getD, getElem?_eq_none (by simpa using hi)]
  rfl

theorem CallSkipsOf.get_set (skips : CallSkipsOf T) (count p : ℕ) (skip : CallSkipOf T) (i : ℕ) :
    CallSkipsOf.get ⟨skips.entries.setIfInBounds p skip, count⟩ i =
      if i = p ∧ i < 8 then skip else skips.get i := by
  rw [CallSkipsOf.get, CallSkipsOf.get, Vector.toList_setIfInBounds, getD_eq_getElem?_getD,
    getD_eq_getElem?_getD, getElem?_set]
  by_cases hp : p = i
  · subst hp
    by_cases hlt : p < 8
    · simp [hlt]
    · simp [hlt]
  · rw [if_neg hp, if_neg fun h => hp h.1.symm]

section Arm

variable [LT T] [DecidableLT T]

theorem armLoop_first (skips : CallSkipsOf T) (id : BitVec 32) (left index stalest : ℕ) :
    index ≤ (armLoop skips id left index stalest).1 ∧
      (armLoop skips id left index stalest).1 ≤ index + left ∧
      (∀ j, index ≤ j → j < (armLoop skips id left index stalest).1 → (skips.get j).id ≠ id) ∧
      ((armLoop skips id left index stalest).1 < index + left →
        (skips.get (armLoop skips id left index stalest).1).id = id) := by
  induction left generalizing index stalest with
  | zero =>
    rw [armLoop]
    exact ⟨le_rfl, le_rfl, fun j _ _ => by omega, fun h => absurd h (Nat.lt_irrefl _)⟩
  | succ left ih =>
    rw [armLoop]
    split
    case isTrue hid =>
      exact ⟨le_rfl, Nat.le_add_right _ _, fun j _ _ => by omega, fun _ => hid⟩
    case isFalse hid =>
      obtain ⟨hge, hle, hfirst, hfound⟩ := ih (index + 1) _
      refine ⟨by omega, by omega, fun j hj hlt => ?_, fun hlt => hfound (by omega)⟩
      by_cases hji : j = index
      · exact hji ▸ hid
      · exact hfirst j (by omega) hlt

/-- Where a skip is armed: its own place, a new one, or that of the stalest of a full ledger. -/
def armPlace (skips : CallSkipsOf T) (id : BitVec 32) : ℕ :=
  let (index, stalest) := armLoop skips id skips.count 0 0
  if index = skips.count ∧ index = callSkipMax then stalest else index

theorem callSkipArmed_get (skips : CallSkipsOf T) (id src : BitVec 32) (fallback : ℤ) (now : T)
    (i : ℕ) : (callSkipArmed skips id src fallback now).get i =
      if i = armPlace skips id ∧ i < 8 then ⟨id, src, now, now, if fallback ≠ 0 then 1 else 0⟩
      else skips.get i := get_set ..

theorem le_count_callSkipArmed (skips : CallSkipsOf T) (id src : BitVec 32) (fallback : ℤ)
    (now : T) : skips.count ≤ (callSkipArmed skips id src fallback now).count := by
  rw [callSkipArmed]
  dsimp only
  split
  · exact Nat.le_succ _
  · exact le_rfl

/-- The skip a full ledger gives up for another. -/
def callSkipEvicted (skips : CallSkipsOf T) (id : BitVec 32) : Option (CallSkipOf T) :=
  let (index, stalest) := armLoop skips id skips.count 0 0
  if index = skips.count ∧ index = callSkipMax then some (skips.get stalest) else none

end Arm

section Oldest

variable [LinearOrder T]

/-- The skip passed that was seen least recently. -/
theorem armLoop_stalest (skips : CallSkipsOf T) (id : BitVec 32) {left index stalest : ℕ}
    (h : ∀ j < index, (skips.get stalest).lastSeenM ≤ (skips.get j).lastSeenM) :
    ∀ j < (armLoop skips id left index stalest).1,
      (skips.get (armLoop skips id left index stalest).2).lastSeenM ≤ (skips.get j).lastSeenM := by
  induction left generalizing index stalest with
  | zero => exact h
  | succ left ih =>
    rw [armLoop]
    split
    case isTrue => exact h
    case isFalse =>
      refine ih fun j hj => ?_
      rcases Nat.lt_succ_iff_lt_or_eq.mp hj with hlt | rfl
      · split
        case isTrue hless => exact hless.le.trans (h j hlt)
        case isFalse => exact h j hlt
      · split
        case isTrue => exact le_rfl
        case isFalse hless => exact not_lt.mp hless

/-- A full ledger gives up the skip seen least recently. -/
theorem callSkipEvicted_oldest {skips : CallSkipsOf T} {id : BitVec 32} {e : CallSkipOf T}
    (h : callSkipEvicted skips id = some e) : skips.count = callSkipMax ∧
      ∀ j < skips.count, e.lastSeenM ≤ (skips.get j).lastSeenM := by
  have hstart : ∀ j < 0, (skips.get 0).lastSeenM ≤ (skips.get j).lastSeenM :=
    fun j hj => absurd hj (Nat.not_lt_zero j)
  have holdest : ∀ j < (armLoop skips id skips.count 0 0).1,
      (skips.get (armLoop skips id skips.count 0 0).2).lastSeenM ≤ (skips.get j).lastSeenM :=
    armLoop_stalest skips id hstart
  rw [callSkipEvicted] at h
  dsimp only at h
  split at h
  case isTrue hfull =>
    obtain rfl := Option.some.inj h
    refine ⟨hfull.1.symm.trans hfull.2, fun j hj => holdest j ?_⟩
    rw [hfull.1]
    exact hj
  case isFalse => exact absurd h (by simp)

end Oldest

section Arm

variable [LT T] [DecidableLT T]

theorem callSkipFind_armed_self {skips : CallSkipsOf T} {id : BitVec 32} {i : ℕ}
    (h : callSkipFind skips id = some i) (hi : i < 8) (src : BitVec 32) (fallback : ℤ) (now : T) :
    callSkipFind (callSkipArmed skips id src fallback now) id = some i ∧
      (callSkipArmed skips id src fallback now).get i =
        ⟨id, src, now, now, if fallback ≠ 0 then 1 else 0⟩ := by
  obtain ⟨hlt, hid, hfirst⟩ := callSkipFind_eq_some.mp h
  obtain ⟨-, -, hpassed, hfound⟩ := armLoop_first skips id skips.count 0 0
  rw [Nat.zero_add] at hfound
  have hindex : (armLoop skips id skips.count 0 0).1 = i := by
    rcases Nat.lt_trichotomy (armLoop skips id skips.count 0 0).1 i with hb | hb | hb
    · exact absurd (hfound (by omega)) (hfirst _ hb)
    · exact hb
    · exact absurd hid (hpassed i (Nat.zero_le i) hb)
  have hplace : armPlace skips id = i := by
    rw [armPlace]
    dsimp only
    rw [hindex, if_neg (by omega)]
  have harmed := callSkipArmed_get skips id src fallback now i
  rw [if_pos ⟨hplace.symm, hi⟩] at harmed
  refine ⟨callSkipFind_eq_some.mpr ⟨?_, by rw [harmed], fun j hj => ?_⟩, harmed⟩
  · exact hlt.trans_le (le_count_callSkipArmed skips id src fallback now)
  · rw [callSkipArmed_get, if_neg (by omega)]
    exact hfirst j hj

theorem callSkipFind_armed_other {skips : CallSkipsOf T} {id other : BitVec 32} {i : ℕ}
    (h : callSkipFind skips other = some i) (hne : other ≠ id)
    (hevicted : ∀ e, callSkipEvicted skips id = some e → e.id ≠ other) (src : BitVec 32)
    (fallback : ℤ) (now : T) :
    callSkipFind (callSkipArmed skips id src fallback now) other = some i ∧
      (callSkipArmed skips id src fallback now).get i = skips.get i := by
  obtain ⟨hlt, hid, hfirst⟩ := callSkipFind_eq_some.mp h
  obtain ⟨-, hle, -, hfound⟩ := armLoop_first skips id skips.count 0 0
  rw [Nat.zero_add] at hle hfound
  -- the place belongs to the skip armed, to the one given up, or lies behind
  have hplace : ∀ j ≤ i, j = armPlace skips id → (skips.get j).id ≠ other := by
    intro j hj hplace
    rw [armPlace] at hplace
    dsimp only at hplace
    split at hplace
    case isTrue hfull =>
      subst hplace
      exact hevicted _ (if_pos hfull)
    case isFalse =>
      have hown := hfound (by omega)
      rw [← hplace] at hown
      rw [hown]
      exact hne.symm
  have hkept : ∀ j ≤ i, ((callSkipArmed skips id src fallback now).get j).id = other ↔
      (skips.get j).id = other := by
    intro j hj
    rw [callSkipArmed_get]
    split
    case isTrue hat =>
      exact ⟨fun heq => absurd heq.symm hne, fun heq => absurd heq (hplace j hj hat.1)⟩
    case isFalse => exact Iff.rfl
  refine ⟨callSkipFind_eq_some.mpr ⟨?_, (hkept i le_rfl).mpr hid, fun j hj => ?_⟩, ?_⟩
  · exact hlt.trans_le (le_count_callSkipArmed skips id src fallback now)
  · exact fun heq => hfirst j hj ((hkept j hj.le).mp heq)
  · rw [callSkipArmed_get, if_neg]
    exact fun hat => hplace i le_rfl hat.1 hid

end Arm

end Skips

section Fresh

variable {T : Type} [LinearOrder T] [Sub T] [OfScientific T]

theorem callSkipFresh_armed (hsub : ∀ t a b : T, a ≤ b → t - b ≤ t - a) {skip : CallSkipOf T}
    {id src : BitVec 32} {fallback : BitVec 8} {now t : T} (harmed : skip.armedM ≤ now)
    (hseen : skip.lastSeenM ≤ now) (h : callSkipFresh skip t = true) :
    callSkipFresh ⟨id, src, now, now, fallback⟩ t = true := by
  simp only [callSkipFresh, Bool.and_eq_true, decide_eq_true_eq, ite_self] at h ⊢
  obtain ⟨hage, hquiet⟩ := h
  refine ⟨(hsub t _ _ harmed).trans hage, le_trans (hsub t _ _ ?_) hquiet⟩
  split
  · exact harmed
  · exact hseen

theorem callSkipActive_armed [OfNat T 0] (hsub : ∀ t a b : T, a ≤ b → t - b ≤ t - a)
    {skips : CallSkipsOf T} {id src other : BitVec 32} {fallback : ℤ} {now t : T}
    (hclock : ∀ i < skips.count, (skips.get i).id = id →
      (skips.get i).armedM ≤ now ∧ (skips.get i).lastSeenM ≤ now)
    (hevicted : ∀ e, callSkipEvicted skips id = some e → e.id ≠ other)
    (h : callSkipActive skips other t = true) :
    callSkipActive (callSkipArmed skips id src fallback now) other t = true := by
  rw [callSkipActive] at h ⊢
  by_cases hother : other = 0
  · rw [if_pos hother] at h
    exact absurd h (by simp)
  · rw [if_neg hother] at h ⊢
    cases hfind : callSkipFind skips other with
    | none =>
      rw [hfind] at h
      exact absurd h (by simp)
    | some i =>
      rw [hfind] at h
      obtain ⟨hlt, hid, -⟩ := callSkipFind_eq_some.mp hfind
      have hi : i < 8 := by
        by_contra hge
        exact hother (hid.symm.trans (get_of_le (by omega)))
      by_cases hsame : other = id
      · subst hsame
        obtain ⟨hfind', harmed⟩ := callSkipFind_armed_self hfind hi src fallback now
        obtain ⟨ha, hs⟩ := hclock i hlt hid
        rw [hfind']
        dsimp only
        rw [harmed]
        exact callSkipFresh_armed hsub ha hs h
      · obtain ⟨hfind', hstays⟩ := callSkipFind_armed_other hfind hsame hevicted src fallback now
        rw [hfind']
        dsimp only
        rw [hstays]
        exact h

end Fresh

section Set

variable {T : Type} [OfNat T 0]

/-- What a new store shows. -/
def PolicyView.empty : PolicyView T := ⟨[], [], CallSkipsOf.zero, ordered_nil⟩

/-- The store of a state, or a new one. -/
def TuneState.view (state : TuneState T) : PolicyView T := state.policy.getD PolicyView.empty

/-- A session avoid added. -/
def PolicyView.avoidAdded (ctx : PolicyView T) (id : BitVec 32) : PolicyView T :=
  if h : id ≠ 0 ∧ id ∉ ctx.sessionAvoids then
    { ctx with
      sessionAvoids := inserted ctx.sessionAvoids id
      ordered := ctx.ordered.inserted h.1 h.2 }
  else ctx

/-- A state with a session avoid added. -/
def TuneState.avoidAdded (state : TuneState T) (id : BitVec 32) : TuneState T :=
  { state with policy := some (state.view.avoidAdded id) }

/-- A state with a call skip armed. -/
def TuneState.callSkipArmed [LT T] [DecidableLT T] (state : TuneState T) (id src : BitVec 32)
    (fallback : ℤ) (now : T) : TuneState T :=
  { state with
    policy := some { state.view with
      callSkips := TgPolicy.callSkipArmed state.view.callSkips id src fallback now } }

theorem sessionAvoidContains_iff (state : TuneState T) (id : BitVec 32) :
    sessionAvoidContains state id = true ↔ id ∈ state.view.sessionAvoids := by
  rw [sessionAvoidContains, view]
  cases state.policy with
  | none => simp [PolicyView.empty]
  | some ctx => exact ctx.ordered.contains_iff id

theorem TuneState.view_rows (state : TuneState T) : state.view.rows = state.rows := by
  rw [view, rows]
  cases state.policy <;> rfl

theorem callSkipBlocking_eq [Sub T] [LE T] [DecidableLE T] [OfScientific T] (state : TuneState T)
    (id : BitVec 32) (now : T) :
    callSkipBlocking state id now = callSkipActive state.view.callSkips id now := by
  have hempty : ∀ skips : CallSkipsOf T, skips.count = 0 → callSkipActive skips id now = false := by
    intro skips hcount
    rw [callSkipActive, callSkipFind, hcount]
    simp
  rw [callSkipBlocking, view]
  cases state.policy with
  | none => exact (hempty _ rfl).symm
  | some ctx =>
    dsimp only [Option.getD_some]
    split
    case isTrue hcount => exact (hempty _ hcount).symm
    case isFalse => rfl

end Set

section Monotone

variable {T : Type} [OfNat T 0] [LinearOrder T] [Sub T] [OfScientific T]

theorem noMore_avoidAdded (kind : CallKind) (opts : Option TuneOpts) (state : TuneState T)
    (target source : BitVec 32) (encrypted dataCall : Bool) (id : BitVec 32) :
    NoMore (evaluate kind opts state target source encrypted dataCall)
      (evaluate kind opts (state.avoidAdded id) target source encrypted dataCall) := by
  have hview : (state.avoidAdded id).view = state.view.avoidAdded id := rfl
  have hrows : (state.view.avoidAdded id).rows = state.view.rows := by
    rw [PolicyView.avoidAdded]
    split <;> rfl
  have hskips : (state.view.avoidAdded id).callSkips = state.view.callSkips := by
    rw [PolicyView.avoidAdded]
    split <;> rfl
  have hgrounds : SameGrounds state (state.avoidAdded id) :=
    ⟨by rw [← view_rows, ← view_rows, hview, hrows], rfl, rfl⟩
  refine noMore_evaluate hgrounds rfl kind opts target source encrypted dataCall
    (fun x _ h => ?_) (fun x _ now h => ?_) fun h => h
  · rw [sessionAvoidContains_iff] at h ⊢
    rw [hview, PolicyView.avoidAdded]
    split
    · exact mem_inserted.mpr (Or.inr h)
    · exact h
  · rwa [callSkipBlocking_eq, hview, hskips, ← callSkipBlocking_eq]

theorem noMore_callSkipArmed (hsub : ∀ t a b : T, a ≤ b → t - b ≤ t - a) (kind : CallKind)
    (opts : Option TuneOpts) (state : TuneState T) (target source : BitVec 32)
    (encrypted dataCall : Bool) (id src : BitVec 32) (fallback : ℤ) (now : T)
    (hclock : ∀ i < state.view.callSkips.count, (state.view.callSkips.get i).id = id →
      (state.view.callSkips.get i).armedM ≤ now ∧ (state.view.callSkips.get i).lastSeenM ≤ now)
    (hevicted : ∀ e, callSkipEvicted state.view.callSkips id = some e →
      e.id ∉ kind.ids target source) :
    NoMore (evaluate kind opts state target source encrypted dataCall)
      (evaluate kind opts (state.callSkipArmed id src fallback now) target source encrypted
        dataCall) := by
  have hgrounds : SameGrounds state (state.callSkipArmed id src fallback now) :=
    ⟨state.view_rows, rfl, rfl⟩
  refine noMore_evaluate hgrounds rfl kind opts target source encrypted dataCall
    (fun x _ h => ?_) (fun x hx t h => ?_) fun h => h
  · rw [sessionAvoidContains_iff] at h ⊢
    exact h
  · rw [callSkipBlocking_eq] at h ⊢
    exact callSkipActive_armed hsub hclock (fun e he heq => hevicted e he (heq ▸ hx)) h

theorem noMore_held (kind : CallKind) (opts : Option TuneOpts) (state : TuneState T)
    (target source : BitVec 32) (encrypted dataCall : Bool) {hold : BitVec 32} (hhold : hold ≠ 0)
    (hother : hold ∉ kind.ids target source) :
    NoMore (evaluate kind opts state target source encrypted dataCall)
      (evaluate kind opts { state with tgHold := hold } target source encrypted dataCall) := by
  have hgrounds : SameGrounds state { state with tgHold := hold } := ⟨rfl, rfl, rfl⟩
  exact noMore_evaluate hgrounds rfl kind opts target source encrypted dataCall (fun _ _ h => h)
    (fun _ _ _ h => h) fun _ => ⟨hhold, hother⟩

theorem noMore_applyOtaFinalBlocks (opts : Option TuneOpts) (state : TuneState T)
    (otaTarget policyTarget src : BitVec 32) (d : CallDecision) :
    NoMore d (applyOtaFinalBlocks opts state otaTarget policyTarget src d).2 := by
  rw [applyOtaFinalBlocks]
  split
  case isTrue => exact NoMore.refl d
  case isFalse =>
    dsimp only
    split
    case isTrue => exact NoMore.refl d
    case isFalse =>
      split
      case isTrue => exact ⟨by simp [blockDecisionTune], by simp, by simp, by simp⟩
      case isFalse => exact ⟨by simp [blockDecisionTune], id, id, id⟩

/-- Flags and reasons of every decision agree, and no block that is set gives a flag back: not a
session avoid, not a call skip armed by a clock that does not run back, unless a full ledger gives
up a skip on the call for it, not a hold on another identifier, not the blocks of a supergroup. -/
theorem decisions_consistent (hsub : ∀ t a b : T, a ≤ b → t - b ≤ t - a) (kind : CallKind)
    (opts : Option TuneOpts) (state : TuneState T) (target source : BitVec 32)
    (encrypted dataCall : Bool) :
    let d := evaluate kind opts state target source encrypted dataCall
    (d.tuneAllowed = true ↔ d.blockReasons &&&
    ~~~(blockAudio ||| blockRecord ||| blockStream) = 0) ∧
    (d.blockReasons &&& (blockHold ||| blockMode ||| blockSessionAvoid ||| blockCallSkip) ≠ 0 →
      d.audioAllowed = false ∧ d.recordAllowed = false ∧ d.streamAllowed = false) ∧
    (d.audioAllowed = false → d.recordAllowed = false ∧ d.streamAllowed = false) ∧
    (∀ id, NoMore d (evaluate kind opts (state.avoidAdded id) target source encrypted dataCall)) ∧
    (∀ id src fallback now,
      (∀ i < state.view.callSkips.count, (state.view.callSkips.get i).id = id →
        (state.view.callSkips.get i).armedM ≤ now ∧ (state.view.callSkips.get i).lastSeenM ≤ now) →
      (∀ e, callSkipEvicted state.view.callSkips id = some e → e.id ∉ kind.ids target source) →
      NoMore d (evaluate kind opts (state.callSkipArmed id src fallback now) target source encrypted
        dataCall)) ∧
    (∀ id e, callSkipEvicted state.view.callSkips id = some e →
      state.view.callSkips.count = callSkipMax ∧
        ∀ j < state.view.callSkips.count, e.lastSeenM ≤ (state.view.callSkips.get j).lastSeenM) ∧
    (∀ hold, hold ≠ 0 → hold ∉ kind.ids target source →
      NoMore d (evaluate kind opts { state with tgHold := hold } target source encrypted
        dataCall)) ∧
    ∀ otaTarget policyTarget src,
      NoMore d (applyOtaFinalBlocks opts state otaTarget policyTarget src d).2 := by
  have hagrees := agrees_evaluate kind opts state target source encrypted dataCall
  refine ⟨hagrees.tune, hagrees.silenced, fun haudio => ?_, fun id => ?_,
    fun id src fallback now => ?_, fun id e => callSkipEvicted_oldest, fun hold => ?_,
    fun otaTarget policyTarget src => ?_⟩
  · rw [evaluate_eq] at haudio ⊢
    exact silent _ (silent_closing kind opts state target source encrypted dataCall) haudio
  · exact noMore_avoidAdded kind opts state target source encrypted dataCall id
  · exact noMore_callSkipArmed hsub kind opts state target source encrypted dataCall id src fallback
      now
  · exact noMore_held kind opts state target source encrypted dataCall
  · exact noMore_applyOtaFinalBlocks opts state otaTarget policyTarget src _

end Monotone

/-- A ledger full of skips, the first on group 1. -/
def fullLedger : CallSkipsOf ℚ :=
  ⟨#v[⟨1, 0, 1, 1, 0⟩, ⟨2, 0, 2, 2, 0⟩, ⟨3, 0, 3, 3, 0⟩, ⟨4, 0, 4, 4, 0⟩, ⟨5, 0, 5, 5, 0⟩,
    ⟨6, 0, 6, 6, 0⟩, ⟨7, 0, 7, 7, 0⟩, ⟨8, 0, 8, 8, 0⟩], 8⟩

/-- A state without rows, avoids, hold and lockouts, with a ledger of skips. -/
def skippingState (skips : CallSkipsOf ℚ) : TuneState ℚ :=
  ⟨some ⟨[], [], skips, ordered_nil⟩, 0, Vector.replicate 128 ⟨0, 0, 0, 0⟩, 0, fun _ => 9⟩

/-- Arming a ninth skip leaves group 2 as it was. -/
theorem decisions_consistent_full :
    NoMore (evaluate .group none (skippingState fullLedger) 2 100 false false)
      (evaluate .group none ((skippingState fullLedger).callSkipArmed 9 0 0 9) 2 100 false
        false) := by
  have hevicted : (callSkipEvicted (skippingState fullLedger).view.callSkips 9).all
      (fun e => e.id ∉ CallKind.group.ids 2 100) = true := by decide
  refine (decisions_consistent (fun t a b h => sub_le_sub_left h t) .group none
    (skippingState fullLedger) 2 100 false false).2.2.2.2.1 9 0 0 9 (by decide) fun e he => ?_
  rw [he] at hevicted
  simpa using hevicted

/-- Arming a ninth skip tunes group 1 again, whose skip was seen least recently. -/
theorem callSkipArmed_tunes :
    (evaluate .group none (skippingState fullLedger) 1 100 false false).tuneAllowed = false ∧
    (evaluate .group none ((skippingState fullLedger).callSkipArmed 9 0 0 9) 1 100 false
      false).tuneAllowed = true := by
  decide +kernel

end DsdNeo.TgPolicy
