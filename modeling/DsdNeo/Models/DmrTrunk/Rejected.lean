import DsdNeo.Models.DmrTrunk.Runs

/-!
# Voice channels whose code is rejected

A machine remembers the code last verified on each voice channel, and follows no grant to one
whose code the policy rejects. The memory is part of the context, which an accepted return to
control starts over: so it is gone when the next grant comes.
-/

namespace DsdNeo.DmrTrunk

open Program Tuning

variable {s s' : State} {f : ℤ} {code : Receive.FilterKind × BitVec 16}

/-- How often a return to control was accepted. -/
def State.returns (s : State) : ℕ :=
  s.log.countP fun source => match source with
    | .returned _ => true
    | .noted _ _ => false

/-- A code noted for a channel. -/
def noteVerified (carriers : Receive.Carriers) (entry : Verified) : Receive.Carriers :=
  carriers.note entry.1 entry.2

/-- The policy stays, and the codes noted are added to the memory until a return is accepted. -/
structure Remembers (s s' : State) : Prop where
  policy : s'.rest.receive = s.rest.receive
  returns : s.returns ≤ s'.returns
  noted : ∃ notes : List Verified, s'.verified = notes.reverse ++ s.verified ∧
    (s'.returns = s.returns →
      s'.ctx.receiveCarriers = notes.foldl noteVerified s.ctx.receiveCarriers)

instance : IsPreorder State Remembers where
  refl _ := ⟨rfl, le_refl _, [], rfl, fun _ => rfl⟩
  trans s s' s'' h h' := by
    obtain ⟨notes, hverified, hmemory⟩ := h.noted
    obtain ⟨notes', hverified', hmemory'⟩ := h'.noted
    have hle := h.returns
    have hle' := h'.returns
    refine ⟨h'.policy.trans h.policy, hle.trans hle', notes ++ notes', ?_, fun hsame => ?_⟩
    · rw [hverified', hverified, List.reverse_append, List.append_assoc]
    · rw [hmemory' (by omega), hmemory (by omega), List.foldl_append]

theorem remembers_of_unnamed (h : Unnamed s s') : Remembers s s' := by
  have hlog : s'.log = s.log := congrArg (·.2.1) h
  have hcarriers : s'.ctx.receiveCarriers = s.ctx.receiveCarriers := congrArg (·.2.2.1.2) h
  have hpolicy : s'.rest.receive = s.rest.receive := congrArg (·.2.2.2.1) h
  have hverified : s'.verified = s.verified := congrArg (·.2.2.2.2) h
  refine ⟨hpolicy, ?_, [], hverified, fun _ => hcarriers⟩
  rw [State.returns, State.returns, hlog]

/-- A program that leaves the control channels and the memory alone. -/
theorem remembers_quiet {α : Type} {m : Prog α} (h : Keeps Unnamed m) : Keeps Remembers m :=
  h.mono fun _ _ => remembers_of_unnamed

theorem remembers_noteReceiveCarrier (freq : ℤ) : Keeps Remembers (noteReceiveCarrier freq) := by
  intro s
  simp only [noteReceiveCarrier, modify, modifyGet, MonadStateOf.modifyGet, StateT.modifyGet]
  cases s.rest.verifiedCode freq with
  | none => exact refl_of Remembers s
  | some code => exact ⟨rfl, le_refl _, [(freq, code)], rfl, fun _ => rfl⟩

theorem returned_beginCcAcquisition (freq : ℤ) (requestId : ℕ) (s : State) :
    Wp (beginCcAcquisition freq requestId) s fun _ s' => s'.log = s.log ∧ s'.judged = s.judged := by
  refine wp_bind (wp_get (wp_ite (fun _ => ⟨rfl, rfl⟩) fun _ => wp_bind (wp_ask (wp_bind
    (wp_modifyCtx ?_)))))
  refine wp_bind (((unnamed_ccResolvePending _).wp _).mono fun _ s₁ h₁ => wp_pure ?_)
  exact ⟨congrArg (·.2.1) h₁, congrArg (·.2.2.2) h₁⟩

theorem remembers_returnToCc (freq : ℤ) : Keeps Remembers (returnToCc freq) := by
  intro s
  change Wp _ s fun _ s' => Remembers s s'
  refine wp_bind (wp_get (wp_ite (fun _ => refl_of Remembers s) fun _ =>
    wp_bind (wp_modify (wp_bind (wp_modify (wp_bind ?_))))))
  refine (own_hookReturnToCc.wp _).mono ?_
  rintro ⟨result, requestId⟩ s₁ (h₁ : s₁.own = s.own)
  have hlog : s₁.log = s.log := congrArg (·.1) h₁
  have hcarriers : s₁.ctx.receiveCarriers = s.ctx.receiveCarriers := congrArg (·.2.1.2) h₁
  have hjudged : s₁.judged = s.judged := congrArg (·.2.2) h₁
  refine wp_ite (fun _ => wp_bind (wp_modify (wp_bind (wp_modify (wp_pure ?_))))) fun _ => ?_
  · refine ⟨congrArg Prod.fst hjudged, ?_, [], congrArg Prod.snd hjudged, fun _ => hcarriers⟩
    exact le_of_eq (congrArg (List.countP _) hlog.symm)
  · refine wp_bind (wp_modify (wp_bind (wp_modifyCtx (wp_bind ?_))))
    refine (returned_beginCcAcquisition freq requestId _).mono fun _ s₂ h₂ => wp_pure ?_
    have hjudged₂ : s₂.judged = s.judged := h₂.2.trans hjudged
    have hreturns : s₂.returns = s.returns + 1 := by
      rw [State.returns, h₂.1, State.returns, ← hlog]
      exact List.countP_cons_of_pos rfl
    refine ⟨congrArg Prod.fst hjudged₂, by omega, [], congrArg Prod.snd hjudged₂, fun hsame => ?_⟩
    omega

theorem remembers_of_noted (source : Source) (hsource : ∀ freq, source ≠ .returned freq)
    (hlog : s'.log = source :: s.log) (hcarriers : s'.ctx.receiveCarriers = s.ctx.receiveCarriers)
    (hjudged : s'.judged = s.judged) : Remembers s s' := by
  have hreturns : s'.returns = s.returns := by
    rw [State.returns, hlog, State.returns]
    cases source with
    | noted _ _ => exact List.countP_cons_of_neg Bool.false_ne_true
    | returned freq => exact absurd rfl (hsource freq)
  exact ⟨congrArg Prod.fst hjudged, hreturns.ge, [], congrArg Prod.snd hjudged, fun _ => hcarriers⟩

theorem receiveCarriers_setState (c : Ctx) (state : SmState) :
    (c.setState state).receiveCarriers = c.receiveCarriers :=
  congrArg Prod.snd (c.kept_setState state)

theorem remembers_ccNoteActivityCtx (freq : ℤ) : Keeps Remembers (ccNoteActivityCtx freq) := by
  refine keeps_bind (remembers_quiet unnamed_ccCurrentFrequency) fun current => keeps_bind keeps_get
    fun s₁ => keeps_bind (remembers_quiet unnamed_ask) fun a => keeps_ite (keeps_pure _) ?_
  intro s
  refine remembers_of_noted (.noted current s₁.receiver) nofun rfl ?_ rfl
  exact receiveCarriers_setState _ .onCc

theorem remembers_ccNoteMonitorFrequency (freq : ℤ) :
    Keeps Remembers (ccNoteMonitorFrequency freq) := by
  refine keeps_bind ?_ fun current => keeps_bind keeps_get fun s₁ => keeps_onlyIf fun s => ?_
  · exact remembers_quiet (keeps_bind keeps_get fun _ => keeps_bind unnamed_ask fun _ =>
      keeps_ite (keeps_pure _) (keeps_ite (keeps_pure _) (keeps_pure _)))
  · exact remembers_of_noted (.noted current s₁.receiver) nofun rfl rfl rfl

theorem remembers_noteCcActivity (freq : ℤ) : Keeps Remembers (noteCcActivity freq) :=
  keeps_bind keeps_get fun _ => keeps_ite (remembers_ccNoteMonitorFrequency freq)
    (keeps_bind (remembers_quiet unnamed_ccActivityContext) fun _ =>
      keeps_ite (remembers_ccNoteActivityCtx freq) (keeps_pure _))

theorem remembers_noteXptSite : Keeps Remembers noteXptSite := by
  refine keeps_bind (remembers_quiet (unnamed_modifyCtx fun _ => rfl)) fun _ =>
    keeps_bind (remembers_quiet (unnamed_modifyRest fun _ => rfl)) fun _ => keeps_bind keeps_get
      fun _ => keeps_ite (keeps_bind (remembers_quiet unnamed_ccCurrentFrequency) fun freq =>
        keeps_bind keeps_get fun s₁ => keeps_onlyIf fun s => ?_) (keeps_pure _)
  exact remembers_of_noted (.noted freq s₁.receiver) nofun rfl rfl rfl

theorem remembers_handleGrant (ev : Grant) : Keeps Remembers (handleGrant ev) := by
  refine keeps_bind (remembers_quiet (unnamed_modifyRest fun _ => rfl)) fun _ =>
    keeps_bind keeps_get fun _ => ?_
  split
  · exact keeps_pure _
  · exact keeps_bind (keeps_onlyIf (remembers_ccNoteActivityCtx _)) fun _ =>
      remembers_quiet (unnamed_grantTune _)

theorem remembers_smEvent (ev : Event) : Keeps Remembers (smEvent ev) := by
  cases ev with
  | grant ev => exact remembers_handleGrant ev
  | voiceSync slot => exact remembers_quiet (unnamed_handleVoiceSync slot)
  | dataSync slot => exact remembers_quiet (unnamed_handleDataSync slot)
  | release slot =>
    exact keeps_handleRelease (fun _ _ => remembers_of_unnamed) remembers_returnToCc slot
  | ccSync => exact remembers_quiet unnamed_ccNoteHeartbeatCtx
  | syncLost => exact keeps_pure _

theorem remembers_delivered {generation : ℕ} {m : Prog Unit} (h : Keeps Remembers m) :
    Keeps Remembers (delivered generation m) := keeps_bind keeps_get fun _ => keeps_onlyIf h

/-- The rest of the decoder goes on under the same receive policy. -/
def Op.KeepsPolicy (policy : Receive.Policy) : Op → Prop
  | .outside rest => rest.receive = policy
  | _ => True

theorem Remembers.step {op : Op} (h : op.KeepsPolicy s.rest.receive) :
    Remembers s (op.apply s) := by
  change Wp op.program s fun _ s' => Remembers s s'
  cases op with
  | tick =>
    exact keeps_tickCtx (fun _ _ => remembers_of_unnamed) remembers_returnToCc
      remembers_noteReceiveCarrier s
  | event ev => exact remembers_smEvent ev s
  | noteCcActivity generation freq => exact remembers_delivered (remembers_noteCcActivity freq) s
  | noteCcHeartbeat generation =>
    exact remembers_delivered (remembers_quiet unnamed_noteCcHeartbeat) s
  | noteXptSite generation => exact remembers_delivered remembers_noteXptSite s
  | noteStatusFollow freq => exact remembers_quiet (unnamed_noteStatusFollow freq) s
  | returnToCc freq => exact keeps_bind (remembers_returnToCc freq) (fun _ => keeps_pure _) s
  | abandonCarrier => exact remembers_quiet unnamed_abandonCarrier s
  | otherTune freq staged =>
    refine keeps_bind (keeps_hookTune (fun _ _ => remembers_of_unnamed) freq ?_)
      (fun _ => keeps_pure _) s
    cases staged with
    | none => exact keeps_pure _
    | some freq => exact fun _ => ⟨rfl, le_refl _, [], rfl, fun _ => rfl⟩
  | answer call => exact keeps_onlyIf (remembers_quiet (unnamed_layer call)) s
  | operatorMove freq =>
    have hmove : Keeps Remembers (modify fun s : State => { s with receiver := freq }) :=
      fun _ => remembers_of_unnamed rfl
    exact keeps_bind hmove (fun _ => remembers_quiet unnamed_coldStartNoteRetune) s
  | outside rest => exact ⟨h, le_refl _, [], rfl, fun _ => rfl⟩

theorem Remembers.run {ops : List Op} (h : ∀ op ∈ ops, op.KeepsPolicy s.rest.receive) :
    Remembers s (run s ops) := by
  induction ops using List.reverseRecOn with
  | nil => exact refl_of Remembers s
  | append_singleton ops op ih =>
    have hpre := ih fun one hone => h one (List.mem_append_left _ hone)
    have hop : op.KeepsPolicy (DmrTrunk.run s ops).rest.receive :=
      hpre.policy ▸ h op (by simp)
    rw [run_concat]
    exact trans_of Remembers hpre (Remembers.step hop)

/-- The frequency a grant is for. -/
def State.granted (s : State) (ev : Grant) : ℤ := resolveFreq s.rest ev.freqHz ev.lpcn

/-- A grant to a channel whose remembered code the policy rejects changes nothing but whose the
recovery is, and asks for no tune. -/
theorem handleGrant_rejected {ev : Grant} (hf : s.granted ev = f)
    (hreject : Receive.carriersReject s.ctx.receiveCarriers s.rest.receive f = true) :
    (Op.event (.grant ev)).apply s =
    { s with rest := { s.rest with recoveryProtocol := .dmr } } := by
  have hnone : resolveTunableGrant { s with rest := { s.rest with recoveryProtocol := .dmr } } ev =
      none := by
    have hfreq : resolveFreq { s.rest with recoveryProtocol := .dmr } ev.freqHz ev.lpcn = f := hf
    unfold resolveTunableGrant
    simp only [hfreq, hreject, if_true]
    split_ifs <;> rfl
  have hstep : Wp (handleGrant ev) s fun _ s' =>
      s' = { s with rest := { s.rest with recoveryProtocol := .dmr } } := by
    refine wp_bind (wp_modify (wp_bind (wp_get ?_)))
    rw [hnone]
    exact wp_pure rfl
  exact hstep

/-- No grant to a channel asks for a tune. -/
def State.Unfollowed (s : State) (f : ℤ) : Prop :=
  ∀ ev, s.granted ev = f → ((Op.event (.grant ev)).apply s).tuning = s.tuning

/-- A tick notes on a channel a code that the policy rejects. From then on, while no return to
control is accepted, the code of that channel is not another and its place in the memory is
spared, no grant to the channel asks for a tune. -/
theorem rejected_channel_not_followed {s₁ : State} {ops : List Op}
    (code : Receive.FilterKind × BitVec 16) (notes : List Verified)
    (hnote : (Op.tick.apply s₁).verified = (f, code) :: s₁.verified) (hpos : 0 < f)
    (hreject : Receive.policyMatch s₁.rest.receive (Receive.rememberedIdentity code) = .rejected)
    (hpolicy : ∀ op ∈ ops, op.KeepsPolicy s₁.rest.receive)
    (hreturns : (run s₁ (.tick :: ops)).returns = s₁.returns)
    (hnotes : (run s₁ (.tick :: ops)).verified = notes.reverse ++ (f, code) :: s₁.verified)
    (hcode : ∀ entry ∈ notes, entry.1 = f → entry.2 = code)
    (hspares : Carousel.Spares f notes (Op.tick.apply s₁).ctx.receiveCarriers) :
    (run s₁ (.tick :: ops)).Unfollowed f := by
  intro ev hev
  have htick : Remembers s₁ (Op.tick.apply s₁) := Remembers.step trivial
  have hrest : Remembers (Op.tick.apply s₁) (run s₁ (.tick :: ops)) :=
    Remembers.run fun op hop => htick.policy ▸ hpolicy op hop
  have hle := htick.returns
  have hle' := hrest.returns
  obtain ⟨first, hfirst, hmemory⟩ := htick.noted
  obtain ⟨later, hlater, hmemory'⟩ := hrest.noted
  have hheld : (Op.tick.apply s₁).ctx.receiveCarriers.lookup f = some code := by
    have hone : first = [(f, code)] := by
      have heq : first.reverse = [(f, code)] :=
        List.append_cancel_right (hfirst.symm.trans hnote)
      exact List.reverse_eq_iff.mp heq
    rw [hmemory (by omega), hone]
    exact Carousel.lookup_note_self _ _ _
  have hsame : later = notes := by
    rw [hnote, hnotes] at hlater
    exact List.reverse_injective (List.append_cancel_right hlater).symm
  have hkept : (run s₁ (.tick :: ops)).ctx.receiveCarriers.lookup f = some code := by
    rw [hmemory' (by omega), hsame]
    exact Carousel.lookup_foldl_note hheld hspares hcode
  have hpolicy' : (run s₁ (.tick :: ops)).rest.receive = s₁.rest.receive :=
    hrest.policy.trans htick.policy
  rw [handleGrant_rejected hev]
  rw [Receive.carriersReject, if_neg (not_le.mpr hpos), hkept, hpolicy']
  exact decide_eq_true hreject

/-- A policy that blocks one colour code. -/
def blockingPolicy (code : BitVec 4096) : Receive.Policy := fun kind =>
  if kind = .dcc then ⟨0, 1 <<< code.toNat, true⟩ else ⟨0, 0, false⟩

/-- A decoder that blocks colour code 7. -/
def Rest.blocking : Rest := { Rest.plain with receive := blockingPolicy 7 }

/-- The decoder on a voice channel where it received colour code 7. -/
def Rest.hearingBlocked : Rest :=
  { Rest.blocking with
    trunkIsTuned := true
    trunkVcFreq := 200
    dmrColorCode := 7
    receiveCodesFreshFreq := 200 }

/-- A machine on its control channel, its clock going on by five seconds. -/
def blockingStart : State where
  ctx := Ctx.init .blocking 100 (.plain .ok)
  rest := .blocking
  trunkCcFreq := 100
  tuning := start
  asked _ := 0
  receiver := 100
  answers k := { Answer.plain .ok with nowM := 7000000000 + k * 5000000000 }
  log := []
  verified := []

/-- The machine on the voice channel of a grant, whose code has just been received. -/
def blockedChannel : State :=
  run blockingStart [.event (.grant ⟨200, 0, none⟩), .outside .hearingBlocked]

/-- The decoder on another voice channel, where it received a colour code that is not blocked. -/
def Rest.hearingAllowed : Rest :=
  { Rest.hearingBlocked with trunkVcFreq := 300, dmrColorCode := 3, receiveCodesFreshFreq := 300 }

/-- The machine on the voice channel of a grant, its clock going on by a tenth of a second. -/
def steadyChannel : State :=
  run { blockingStart with
      answers := fun k => { Answer.plain .ok with nowM := 7000000000 + k * 100000000 } }
    [.event (.grant ⟨200, 0, none⟩), .outside .hearingBlocked]

/-- A grant to another channel is followed, and the code received there noted. -/
def elsewhere : List Op := [.event (.grant ⟨300, 0, none⟩), .outside .hearingAllowed, .tick]

set_option maxRecDepth 40000 in
/-- After a grant followed to another channel, none is to the one whose code was rejected. -/
theorem rejected_channel_not_followed_moved :
    (run steadyChannel (.tick :: elsewhere)).Unfollowed 200 :=
  rejected_channel_not_followed (.dcc, 7) [(300, .dcc, 3)]
    (by decide +kernel) (by decide) (by decide +kernel)
    (fun op hop => by
      simp only [elsewhere, List.mem_cons, List.not_mem_nil, or_false] at hop
      rcases hop with rfl | rfl | rfl
      · trivial
      · rfl
      · trivial)
    (by decide +kernel) (by decide +kernel) (by decide) ⟨fun _ => by decide +kernel, trivial⟩

set_option maxRecDepth 40000 in
/-- The window of the channel closes, control is returned to, and the next grant is followed. -/
theorem rejected_channel_followed :
    blockedChannel.ctx.state = .tuned ∧
      (Op.tick.apply blockedChannel).verified = [(200, .dcc, 7)] ∧
      Receive.policyMatch blockedChannel.rest.receive (Receive.rememberedIdentity (.dcc, 7)) =
        .rejected ∧
      (run blockedChannel [.tick, .tick]).rest.receive = blockedChannel.rest.receive ∧
      (run blockedChannel [.tick, .tick]).verified = [(200, .dcc, 7), (200, .dcc, 7)] ∧
      ¬ (run blockedChannel [.tick, .tick]).Unfollowed 200 := by
  have hpolicy : ∀ op ∈ [Op.tick, .tick], op.KeepsPolicy blockedChannel.rest.receive := by
    simp [Op.KeepsPolicy]
  refine ⟨by decide, by decide +kernel, by decide +kernel, (Remembers.run hpolicy).policy,
    by decide +kernel, fun h => ?_⟩
  have hgrant : ((Op.event (.grant ⟨200, 0, none⟩)).apply
      (run blockedChannel [.tick, .tick])).tuning.now.nextRequest = 3 := by decide +kernel
  have hbefore : (run blockedChannel [.tick, .tick]).tuning.now.nextRequest = 2 := by
    decide +kernel
  rw [h ⟨200, 0, none⟩ rfl, hbefore] at hgrant
  exact absurd hgrant (by decide)

end DsdNeo.DmrTrunk
