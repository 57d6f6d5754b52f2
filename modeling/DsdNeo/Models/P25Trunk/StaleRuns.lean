import DsdNeo.Models.P25Trunk.StaleRegrant

/-!
# Runs after a call ended

While nothing shows a new call, the guard of a slot is a quarantine of the ended call: its state
is the time of the END, the last admitted update and whether one was tried, and every admitted
update of the call is answered as the quarantine answers it.
-/

namespace DsdNeo.P25Trunk

open Quarantine Op Ctx List

variable {ρ : Type} {ctx : Ctx ρ} {slot : Bool} {guard g : RecentCallEnd} {now t e : ℚ}
  {op : Op ρ} {run : List (ℚ × Op ρ)}

/-- An END that is accepted arms the guard of its slot anew. -/
def Ctx.arms (ctx : Ctx ρ) (slot : Bool) (tg src : ℤ) (now : ℚ) : Bool :=
  let slotCtx := voiceEndRecord (ctx.receiver.slots slot) now tg src
  staleRegrantGuardSlotEligible slotCtx slotCtx.endTarget &&
    !staleRegrantGuardSameEpoch (ctx.recentCallEnds slot) slotCtx slot slotCtx.endTarget

/-- The guard such an END leaves. -/
def Ctx.armed (ctx : Ctx ρ) (slot : Bool) (tg src : ℤ) (now : ℚ) : RecentCallEnd :=
  .ofEnd (voiceEndRecord (ctx.receiver.slots slot) now tg src) slot now

/-- A grant of the frequency, slot, target and kind of an ended call. -/
def Op.names (guard : RecentCallEnd) : Op ρ → Bool
  | .grant ev adm _ => staleRegrantIdentityMatches guard ev adm.freq (ev.logicalSlot adm.tdma)
  | _ => false

/-- A grant that is no assignment, of an ended call's identity and of voice. -/
def Op.updatesVoice (guard : RecentCallEnd) (op : Op ρ) : Bool :=
  op.names guard && match op with
    | .grant ev _ _ => !ev.dataCall && ev.grantProvenance != .assignment
    | _ => false

/-- A grant that the checks before the guard let through. -/
def Op.admitted : Op ρ → Bool
  | .grant _ adm _ => adm.reachesGuard
  | _ => false

/-- What ends the quarantine of a slot: an assignment or another known source for the call,
activity or another END on the slot, and a retune from outside. -/
def Op.endsQuarantine (guard : RecentCallEnd) (slot : Bool) (op : Op ρ) : Bool :=
  match op with
  | .grant ev _ _ => op.names guard && staleRegrantNewEpoch guard ev
  | .ended s _ _ _ _ => s == slot
  | .activity s _ => s == slot
  | .retuned _ => true
  | .other _ => false

/-- A grant that reaches the guard of its slot and is not held by it. -/
def Op.passes (ctx : Ctx ρ) (now : ℚ) : Op ρ → Bool
  | .grant ev adm _ => adm.reachesGuard && (ctx.staleVerdict ev adm now).1 != .held
  | _ => false

/-- When admitted updates of a call come. -/
def offerTimes (guard : RecentCallEnd) (run : List (ℚ × Op ρ)) : List ℚ :=
  run.filterMap fun (now, op) => if op.updatesVoice guard && op.admitted then some now else none

/-- When updates of a call pass. -/
def Ctx.passTimes (guard : RecentCallEnd) (ctx : Ctx ρ) : List (ℚ × Op ρ) → List ℚ
  | [] => []
  | (now, op) :: run =>
    let later := (ctx.step now op).passTimes guard run
    if op.updatesVoice guard && op.passes ctx now then now :: later else later

/-- The quarantine a guard is. -/
def RecentCallEnd.quarantine (guard : RecentCallEnd) : Quarantine ℚ :=
  ⟨guard.endM, if 0 < guard.lastMatchM then some guard.lastMatchM else none,
    guard.probeAttempted⟩

/-- An update noted by a guard. -/
def RecentCallEnd.noted (guard : RecentCallEnd) (now : ℚ) (probed : Bool) : RecentCallEnd :=
  { guard with lastMatchM := now, probeAttempted := probed }

variable {probed : Bool}

@[simp] theorem valid_noted : (guard.noted now probed).valid = guard.valid := rfl

@[simp] theorem endM_noted : (guard.noted now probed).endM = guard.endM := rfl

@[simp] theorem matches_noted :
    staleRegrantIdentityMatches (guard.noted now probed) = staleRegrantIdentityMatches guard := rfl

@[simp] theorem newEpoch_noted :
    staleRegrantNewEpoch (guard.noted now probed) = staleRegrantNewEpoch guard := rfl

/-- A guard is the one armed, apart from the updates noted since. -/
structure RecentCallEnd.Tracks (guard g : RecentCallEnd) (now : ℚ) : Prop where
  same : g = guard.noted g.lastMatchM g.probeAttempted
  armed : guard.valid = true
  endM : 0 < guard.endM ∧ guard.endM ≤ now
  lastMatch : g.lastMatchM = 0 ∨ guard.endM ≤ g.lastMatchM ∧ g.lastMatchM ≤ now

theorem RecentCallEnd.Tracks.later (h : guard.Tracks g now) (hle : now ≤ t) : guard.Tracks g t :=
  ⟨h.same, h.armed, ⟨h.endM.1, h.endM.2.trans hle⟩,
    h.lastMatch.imp_right fun hlast => ⟨hlast.1, hlast.2.trans hle⟩⟩

theorem RecentCallEnd.Tracks.noted (h : guard.Tracks g now) (probed : Bool) :
    guard.Tracks (g.noted now probed) now := by
  refine ⟨?_, h.armed, h.endM, Or.inr ⟨h.endM.2, le_refl now⟩⟩
  rw [h.same]
  rfl

theorem RecentCallEnd.Tracks.lastOffer (h : guard.Tracks g now) :
    ∀ last ∈ g.quarantine.lastOffer, guard.endM ≤ last ∧ last ≤ now := by
  intro last hlast
  rcases h.lastMatch with hzero | hsince
  · simp [quarantine, hzero] at hlast
  · have hpos : 0 < g.lastMatchM := h.endM.1.trans_le hsince.1
    rw [quarantine, if_pos hpos] at hlast
    obtain rfl : g.lastMatchM = last := Option.some.inj hlast
    exact hsince

theorem staleRegrantUpdateBlocked_eq (hlast : g.lastMatchM ≤ now) :
    staleRegrantUpdateBlocked g now = match g.quarantine.answer staleRegrant now with
      | .lifted => (.passed false, staleRegrantGuardClear)
      | .probe => (.passed true, g.noted now true)
      | .held => (.held, g.noted now g.probeAttempted) := by
  have hquiet : ¬ now - g.lastMatchM < 0 := not_lt.2 (sub_nonneg.2 hlast)
  by_cases hmatch : 0 < g.lastMatchM <;> by_cases hage : staleRegrant.maxAge ≤ now - g.endM <;>
    by_cases hgap : staleRegrant.quiet ≤ now - g.lastMatchM <;>
    by_cases hprobe : staleRegrant.delay ≤ now - g.endM ∧ g.probeAttempted = false <;>
    simp [staleRegrantUpdateBlocked, answer, RecentCallEnd.quarantine,
      RecentCallEnd.noted, hmatch, hage, hgap, hprobe, hquiet,
      show ¬ staleRegrant.quiet ≤ 0 by decide]

section Step

variable {ev : GrantEvent} {adm : Admission ρ} {followed : Followed ρ}

theorem logicalSlot_of_matches (hslot : guard.slot = slotNumber slot)
    (h : staleRegrantIdentityMatches guard ev adm.freq (ev.logicalSlot adm.tdma) = true) :
    ev.logicalSlot adm.tdma = slot := by
  simp only [staleRegrantIdentityMatches, Bool.and_eq_true, beq_iff_eq, hslot] at h
  revert h
  cases ev.logicalSlot adm.tdma <;> cases slot <;> simp [slotNumber]

theorem RecentCallEnd.Tracks.blocked (h : guard.Tracks g now) {freq : ℤ} {dataCall : Bool} :
    grantStaleRegrantBlocked g ev freq slot dataCall now =
      if dataCall || !staleRegrantIdentityMatches guard ev freq slot then (.passed false, g)
      else if staleRegrantNewEpoch guard ev then (.passed false, staleRegrantGuardClear)
      else staleRegrantUpdateBlocked g now := by
  have hendM : ¬ (guard.endM ≤ 0 ∨ now - guard.endM < 0) := by
    rintro (hle | hlt)
    · exact absurd h.endM.1 (not_lt.2 hle)
    · exact absurd h.endM.2 (not_le.2 (sub_neg.1 hlt))
  rw [h.same, grantStaleRegrantBlocked, valid_noted, endM_noted, matches_noted, newEpoch_noted,
    if_neg hendM, h.armed]
  cases dataCall <;> cases staleRegrantIdentityMatches guard ev freq slot <;> simp

theorem recentCallEnds_handleGrant (hreach : adm.reachesGuard = true) :
    (handleGrant ctx ev adm followed now).recentCallEnds = Function.update ctx.recentCallEnds
      (ev.logicalSlot adm.tdma) (ctx.staleVerdict ev adm now).2 := by
  simp only [handleGrant, hreach, Bool.true_eq_false, if_false]
  split <;> rfl

/-- A grant that does not pass the guard moves neither the carrier nor a slot. -/
theorem receiver_handleGrant (h : (grant ev adm followed).passes ctx now = false) :
    (handleGrant ctx ev adm followed now).receiver = { ctx.receiver with rest := adm.noted } := by
  rcases hreach : adm.reachesGuard with _ | _
  · simp [handleGrant, hreach]
  · have hheld : (ctx.staleVerdict ev adm now).1 = .held := by simpa [passes, hreach] using h
    simp [handleGrant, hreach, hheld]

end Step

theorem recentCallEnds_step (h : guard.Tracks (ctx.recentCallEnds slot) now)
    (hends : op.endsQuarantine guard slot = false)
    (hother : (op.updatesVoice guard && op.admitted) = false) :
    (ctx.step now op).recentCallEnds slot = ctx.recentCallEnds slot := by
  cases op with
  | grant ev adm followed =>
    rcases hreach : adm.reachesGuard with _ | _
    · simp [Ctx.step, handleGrant, hreach]
    by_cases hlogical : ev.logicalSlot adm.tdma = slot
    · have hsame : (ctx.staleVerdict ev adm now).2 = ctx.recentCallEnds slot := by
        rw [staleVerdict, hlogical, h.blocked]
        simp only [updatesVoice, names, endsQuarantine, admitted, hlogical, hreach,
          staleRegrantNewEpoch] at hends hother ⊢
        grind
      rw [Ctx.step, recentCallEnds_handleGrant hreach, hlogical, hsame, Function.update_self]
    · rw [Ctx.step, recentCallEnds_handleGrant hreach, Function.update_of_ne (Ne.symm hlogical)]
  | ended s tg src vc rest =>
    have hne : slot ≠ s := by rintro rfl; simp [endsQuarantine] at hends
    simp [Ctx.step, handleVoiceEnd, hne]
  | activity s receiver =>
    have hne : slot ≠ s := by rintro rfl; simp [endsQuarantine] at hends
    simp only [Ctx.step, voiceStartClearActivityGuards]
    split <;> simp [hne]
  | retuned receiver => simp [endsQuarantine] at hends
  | other receiver => rfl

theorem staleVerdict_of_updatesVoice {ev : GrantEvent} {adm : Admission ρ} {followed : Followed ρ}
    (hslot : guard.slot = slotNumber slot) (h : guard.Tracks (ctx.recentCallEnds slot) now)
    (hends : (grant ev adm followed).endsQuarantine guard slot = false)
    (hupdate : (grant ev adm followed).updatesVoice guard = true) :
    ev.logicalSlot adm.tdma = slot ∧
      ctx.staleVerdict ev adm now = staleRegrantUpdateBlocked (ctx.recentCallEnds slot) now := by
  simp only [updatesVoice, names, Bool.and_eq_true] at hupdate
  obtain ⟨hmatch, hvoice, -⟩ := hupdate
  have hlogical := logicalSlot_of_matches hslot hmatch
  rw [hlogical] at hmatch
  simp only [endsQuarantine, names, hlogical, hmatch, Bool.true_and] at hends
  refine ⟨hlogical, ?_⟩
  have hdata : ev.dataCall = false := by simpa using hvoice
  simp [staleVerdict, hlogical, h.blocked, hmatch, hends, hdata]

theorem RecentCallEnd.Tracks.step (hslot : guard.slot = slotNumber slot)
    (h : guard.Tracks (ctx.recentCallEnds slot) now) (hends : op.endsQuarantine guard slot = false)
    (hupdate : op.updatesVoice guard = true) (hadmitted : op.admitted = true)
    (hanswer : (ctx.recentCallEnds slot).quarantine.answer staleRegrant now ≠ .lifted) :
    guard.Tracks ((ctx.step now op).recentCallEnds slot) now ∧
      (ctx.recentCallEnds slot).quarantine.offered staleRegrant now =
        some ((ctx.step now op).recentCallEnds slot).quarantine ∧
      (op.passes ctx now = true ↔
        (ctx.recentCallEnds slot).quarantine.answer staleRegrant now ≠ .held) := by
  cases op with
  | grant ev adm followed =>
    obtain ⟨hlogical, hverdict⟩ := staleVerdict_of_updatesVoice hslot h hends hupdate
    have hreach : adm.reachesGuard = true := hadmitted
    have hpos : 0 < now := h.endM.1.trans_le h.endM.2
    have hlast : (ctx.recentCallEnds slot).lastMatchM ≤ now := by
      rcases h.lastMatch with hzero | hsince
      · exact hzero ▸ hpos.le
      · exact hsince.2
    rw [Ctx.step, recentCallEnds_handleGrant hreach, hlogical, Function.update_self, passes,
      hreach, hverdict, staleRegrantUpdateBlocked_eq hlast, offered]
    cases hcase : (ctx.recentCallEnds slot).quarantine.answer staleRegrant now with
    | lifted => exact absurd hcase hanswer
    | probe =>
      refine ⟨h.noted true, ?_, by simp⟩
      simp [RecentCallEnd.quarantine, RecentCallEnd.noted, hpos]
    | held =>
      refine ⟨h.noted _, ?_, by simp⟩
      simp [RecentCallEnd.quarantine, RecentCallEnd.noted, hpos]
  | _ => simp [admitted] at hadmitted

theorem RecentCallEnd.Tracks.answer_early (h : guard.Tracks g now)
    (hnow : now < guard.endM + staleRegrant.delay) :
    g.quarantine.answer staleRegrant now = .held := by
  have hsince : g.quarantine.since = guard.endM := by rw [h.same]; rfl
  refine answer_of_early ?_ (by decide) (by decide) ?_
  · rw [hsince]
    linarith
  · rw [hsince]
    exact fun last hlast => (h.lastOffer last hlast).1

/-- The guard is still there after a run in which the probe is not yet due. -/
theorem RecentCallEnd.Tracks.run_early (hslot : guard.slot = slotNumber slot)
    (h : guard.Tracks (ctx.recentCallEnds slot) t)
    (htimes : (t :: run.map Prod.fst ++ [now]).Pairwise (· ≤ ·))
    (hnow : now < guard.endM + staleRegrant.delay)
    (hends : ∀ x ∈ run, x.2.endsQuarantine guard slot = false) :
    guard.Tracks ((ctx.run run).recentCallEnds slot) now := by
  induction run generalizing ctx t with
  | nil => exact h.later (rel_of_pairwise_cons htimes (mem_singleton_self now))
  | cons x run ih =>
    obtain ⟨s, op⟩ := x
    have hs : guard.Tracks (ctx.recentCallEnds slot) s :=
      h.later (rel_of_pairwise_cons htimes (by simp))
    have hop := hends (s, op) mem_cons_self
    have hle : s ≤ now := rel_of_pairwise_cons htimes.of_cons (by simp)
    refine ih ?_ htimes.of_cons fun x hx => hends x (mem_cons_of_mem _ hx)
    by_cases hoffer : (op.updatesVoice guard && op.admitted) = true
    · obtain ⟨hupdate, hadmitted⟩ := (Bool.and_eq_true _ _).mp hoffer
      refine (hs.step hslot hop hupdate hadmitted ?_).1
      simp [hs.answer_early (hle.trans_lt hnow)]
    · rwa [recentCallEnds_step hs hop (by simpa using hoffer)]

theorem RecentCallEnd.Tracks.since (h : guard.Tracks g now) : g.quarantine.since = guard.endM := by
  rw [h.same]
  rfl

theorem offerTimes_cons : offerTimes guard ((now, op) :: run) =
    if op.updatesVoice guard && op.admitted then now :: offerTimes guard run
    else offerTimes guard run := by
  simp only [offerTimes, filterMap_cons]
  split <;> simp_all

theorem mem_of_mem_offerTimes (h : now ∈ offerTimes guard run) : ∃ x ∈ run, x.1 = now := by
  obtain ⟨x, hx, hsome⟩ := mem_filterMap.mp h
  refine ⟨x, hx, ?_⟩
  simpa using (Option.ite_none_right_eq_some.mp hsome).2

theorem passes_le_admitted (h : op.passes ctx now = true) : op.admitted = true := by
  cases op with
  | grant ev adm followed => exact ((Bool.and_eq_true _ _).mp h).1
  | _ => exact absurd h (by simp [passes])

theorem RecentCallEnd.Tracks.length_passTimes (hslot : guard.slot = slotNumber slot)
    (h : guard.Tracks (ctx.recentCallEnds slot) t)
    (htimes : (t :: run.map Prod.fst).Pairwise (· ≤ ·))
    (hage : ∀ x ∈ run, x.1 < guard.endM + staleRegrant.maxAge)
    (hgap : ((ctx.recentCallEnds slot).quarantine.lastOffer.toList ++ offerTimes guard run).IsChain
      fun last now => now - last < staleRegrant.quiet)
    (hends : ∀ x ∈ run, x.2.endsQuarantine guard slot = false) :
    (ctx.passTimes guard run).length = letThrough staleRegrant
      (some (ctx.recentCallEnds slot).quarantine) (offerTimes guard run) := by
  induction run generalizing ctx t with
  | nil => rfl
  | cons x run ih =>
    obtain ⟨s, op⟩ := x
    have hs : guard.Tracks (ctx.recentCallEnds slot) s :=
      h.later (rel_of_pairwise_cons htimes (by simp))
    have hop := hends (s, op) mem_cons_self
    have hlater := fun x hx => hends x (mem_cons_of_mem _ hx)
    have hyoung := fun x hx => hage x (mem_cons_of_mem _ hx)
    by_cases hoffer : (op.updatesVoice guard && op.admitted) = true
    · obtain ⟨hupdate, hadmitted⟩ := (Bool.and_eq_true _ _).mp hoffer
      rw [offerTimes_cons, if_pos hoffer] at hgap ⊢
      have hrecent : s - (ctx.recentCallEnds slot).quarantine.since < staleRegrant.maxAge := by
        rw [hs.since]
        have := hage (s, op) mem_cons_self
        linarith
      have hnear : ∀ last ∈ (ctx.recentCallEnds slot).quarantine.lastOffer,
          s - last < staleRegrant.quiet := by
        intro last hlast
        rw [Option.mem_def.1 hlast] at hgap
        exact (isChain_cons_cons.1 hgap).1
      have hanswer : (ctx.recentCallEnds slot).quarantine.answer staleRegrant s ≠ .lifted := by
        rw [answer_of_recent hrecent hnear]
        split <;> decide
      obtain ⟨htracks, hoffered, hpasses⟩ := hs.step hslot hop hupdate hadmitted hanswer
      have hlast : ((ctx.step s op).recentCallEnds slot).quarantine.lastOffer = some s := by
        rw [offered_of_recent hrecent hnear] at hoffered
        rw [← Option.some.inj hoffered]
      have htail := ih htracks htimes.of_cons hyoung
        (by rw [hlast]; exact hgap.suffix (suffix_append _ _)) hlater
      rw [letThrough_cons, hoffered, ← htail, passTimes, hupdate]
      by_cases hpass : op.passes ctx s = true
      · simp [hpass, hpasses.1 hpass]
      · have hheld := not_not.1 (mt hpasses.2 hpass)
        simp [hpass, hheld]
    · rw [offerTimes_cons, if_neg hoffer] at hgap ⊢
      have hkept := recentCallEnds_step hs hop (by simpa using hoffer)
      have hpass : ¬ (op.updatesVoice guard && op.passes ctx s) = true := by
        intro h
        obtain ⟨hupdate, hpass⟩ := (Bool.and_eq_true _ _).mp h
        exact hoffer ((Bool.and_eq_true _ _).mpr ⟨hupdate, passes_le_admitted hpass⟩)
      have hthere : guard.Tracks ((ctx.step s op).recentCallEnds slot) s := hkept.symm ▸ hs
      have htail := ih hthere htimes.of_cons hyoung (hkept.symm ▸ hgap) hlater
      rw [passTimes, if_neg hpass, htail, hkept]

/-- The carrier was not tuned and no slot was written. -/
def Receiver.Untouched (before after : Receiver ρ) : Prop :=
  after.vc = before.vc ∧ after.slots = before.slots

theorem recentCallEnds_handleVoiceEnd {tg src : ℤ} {vc : VoiceChannel} {rest : ρ}
    (h : ctx.arms slot tg src e = true) :
    (handleVoiceEnd ctx slot tg src vc rest e).recentCallEnds slot = ctx.armed slot tg src e := by
  simp only [arms, Bool.and_eq_true, Bool.not_eq_true'] at h
  simp [handleVoiceEnd, staleRegrantGuardArm, armed, h.1, h.2]

theorem tracks_armed {tg src : ℤ} {vc : VoiceChannel} {rest : ρ}
    (h : ctx.arms slot tg src e = true) :
    (ctx.armed slot tg src e).Tracks
      ((handleVoiceEnd ctx slot tg src vc rest e).recentCallEnds slot) e := by
  have hpos : 0 < e := by
    simp only [arms, staleRegrantGuardSlotEligible, voiceEndRecord, Bool.and_eq_true] at h
    exact of_decide_eq_true h.1.1.1.2
  rw [recentCallEnds_handleVoiceEnd h]
  exact ⟨rfl, rfl, ⟨hpos, le_refl e⟩, Or.inl rfl⟩

/-- An update of a call before its probe is due moves nothing. -/
theorem RecentCallEnd.Tracks.untouched (hslot : guard.slot = slotNumber slot)
    (h : guard.Tracks (ctx.recentCallEnds slot) now) (hends : op.endsQuarantine guard slot = false)
    (hupdate : op.updatesVoice guard = true) (hnow : now < guard.endM + staleRegrant.delay) :
    ctx.receiver.Untouched (ctx.step now op).receiver := by
  have hheld := h.answer_early hnow
  have hpasses : op.passes ctx now = false := by
    rw [Bool.eq_false_iff]
    intro hpass
    have hstep := h.step hslot hends hupdate (passes_le_admitted hpass) (by simp [hheld])
    exact hstep.2.2.mp hpass hheld
  cases op with
  | grant ev adm followed =>
    rw [Ctx.step, receiver_handleGrant hpasses]
    exact ⟨rfl, rfl⟩
  | _ => simp [updatesVoice, names] at hupdate

/-- A call that ended is held for two seconds and then costs at most one tune: until its
quarantine ends, a voice update of it moves nothing before the probe is due, and before the age
limit at most one of the updates that reach the guard, with no quiet gap between them, passes it.
An assignment is never held. -/
theorem staleUpdates_cost_oneTune {tg src : ℤ} {vc : VoiceChannel} {rest : ρ}
    (harms : ctx.arms slot tg src e = true)
    (htimes : (e :: run.map Prod.fst).Pairwise (· ≤ ·))
    (hends : ∀ x ∈ run, x.2.endsQuarantine (ctx.armed slot tg src e) slot = false) :
    (∀ before now op after, run = before ++ (now, op) :: after →
      op.updatesVoice (ctx.armed slot tg src e) = true → now < e + 2 →
        ((handleVoiceEnd ctx slot tg src vc rest e).run before).receiver.Untouched
          (((handleVoiceEnd ctx slot tg src vc rest e).run before).step now op).receiver) ∧
    ((∀ x ∈ run, x.1 < e + 10) →
      (offerTimes (ctx.armed slot tg src e) run).IsChain (fun last now => now - last < 2) →
        ((handleVoiceEnd ctx slot tg src vc rest e).passTimes (ctx.armed slot tg src e)
          run).length ≤ 1) ∧
    ∀ (other : Ctx ρ) (ev : GrantEvent) (adm : Admission ρ) (followed : Followed ρ) (now : ℚ),
      ev.grantProvenance = .assignment → adm.reachesGuard = true →
        (grant ev adm followed).passes other now = true := by
  have htracks : (ctx.armed slot tg src e).Tracks
      ((handleVoiceEnd ctx slot tg src vc rest e).recentCallEnds slot) e := tracks_armed harms
  refine ⟨?_, ?_, ?_⟩
  · rintro before now op after rfl hupdate hnow
    have hbefore : (e :: before.map Prod.fst ++ [now]).Pairwise (· ≤ ·) :=
      htimes.sublist (by simp)
    have hthere := htracks.run_early rfl hbefore hnow fun x hx =>
      hends x (mem_append_left _ hx)
    exact hthere.untouched rfl (hends (now, op) (by simp)) hupdate hnow
  · intro hage hgap
    have hfirst : (handleVoiceEnd ctx slot tg src vc rest e).recentCallEnds slot =
        ctx.armed slot tg src e := recentCallEnds_handleVoiceEnd harms
    rw [htracks.length_passTimes rfl htimes hage (by rw [hfirst]; exact hgap) hends, hfirst]
    refine letThrough_le (fun now hnow => ?_) hgap
    obtain ⟨x, hx, rfl⟩ := mem_of_mem_offerTimes hnow
    exact sub_lt_iff_lt_add'.mpr (hage x hx)
  · intro other ev adm followed now hassignment hreach
    have hpass : (other.staleVerdict ev adm now).1 ≠ .held := by
      rw [staleVerdict, grantStaleRegrantBlocked, staleRegrantNewEpoch, hassignment]
      split_ifs <;> simp_all
    simpa [passes, hreach] using hpass

/-- A group call of talkgroup 100 that is up on the first slot of a carrier. -/
def groupCall : Ctx Unit :=
  ⟨fun _ => .zero, fun _ => ⟨851000000, 0, true, false, 0, 0, 0⟩,
    ⟨true, 851000000, 1, false, none⟩, ()⟩

/-- An update for it with service options, which tunes the carrier when it is followed. -/
def groupUpdate (svcBits : ℤ) (allowed : Bool) : Op Unit :=
  .grant ⟨0x1000, 100, 0, 0, svcBits, true, .update, 0⟩ ⟨allowed, (), 851000000, true, true⟩
    ⟨⟨groupCall.receiver.slots, ⟨true, 851000000, 2, false, none⟩, ()⟩, true⟩

/-- The call ends at ten: an update at eleven is held, and of three at most one is tried. -/
theorem staleUpdates_cost_oneTune_probed :
    (handleVoiceEnd groupCall false 100 7 groupCall.receiver.vc () 10).receiver.Untouched
      ((handleVoiceEnd groupCall false 100 7 groupCall.receiver.vc () 10).step 11
        (groupUpdate 0 true)).receiver ∧
    ((handleVoiceEnd groupCall false 100 7 groupCall.receiver.vc () 10).passTimes
      (groupCall.armed false 100 7 10)
      [(11, groupUpdate 0 true), (12, groupUpdate 0 true), (13, groupUpdate 0 true)]).length ≤ 1 :=
  have h := @staleUpdates_cost_oneTune Unit groupCall false 10
    [(11, groupUpdate 0 true), (12, groupUpdate 0 true), (13, groupUpdate 0 true)] 100 7
    groupCall.receiver.vc () (by decide +kernel) (by decide +kernel) (by decide +kernel)
  ⟨h.1 [] 11 _ _ rfl (by decide +kernel) (by decide +kernel),
    h.2.1 (by decide +kernel) (by decide +kernel)⟩

/-- The call ends at ten. An update flagged as data tunes at eleven; and with an update denied at
twelve, two others pass although no two of them are two seconds apart. -/
theorem staleUpdates_cost_moreTunes :
    groupCall.arms false 100 7 10 = true ∧
    ((groupUpdate 0x10 true).endsQuarantine (groupCall.armed false 100 7 10) false = false ∧
      (groupUpdate 0x10 true).names (groupCall.armed false 100 7 10) = true ∧
      (((handleVoiceEnd groupCall false 100 7 groupCall.receiver.vc () 10).step 11
        (groupUpdate 0x10 true)).receiver.vc.tuneCount = 2)) ∧
    (∀ op ∈ [groupUpdate 0 true, groupUpdate 0 false],
      op.endsQuarantine (groupCall.armed false 100 7 10) false = false ∧
        op.updatesVoice (groupCall.armed false 100 7 10) = true) ∧
    (handleVoiceEnd groupCall false 100 7 groupCall.receiver.vc () 10).passTimes
      (groupCall.armed false 100 7 10) [(11, groupUpdate 0 true), (12, groupUpdate 0 false),
        (13, groupUpdate 0 true), (14, groupUpdate 0 true)] = [13, 14] := by
  decide +kernel

end DsdNeo.P25Trunk
