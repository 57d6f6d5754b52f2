import DsdNeo.Models.Search.Passes

/-!
# The hits a search publishes

The hits handed to the observer form one block for each hit, which ends when the search
leaves its visit. What a hit shows of a call is one call record's.
-/

namespace DsdNeo.SignalSearch

open Program Text Still List

variable {s s' : State} {i : Issue} {b b' b'' : Bill} {n : ℕ}

/-- A hit published right after another: the same one while it lasts, a later one once it has
ended. -/
def Hit.Follows (p q : Hit) : Prop :=
  p.hitId = q.hitId ∧ q.ended = false ∨ q.hitId < p.hitId ∧ q.ended = true

/-- A hit published before the last one's block had its end published. -/
theorem ended_of_chain {p q : Hit} {rest : List Hit} (h : (q :: rest).IsChain Hit.Follows)
    (hp : p ∈ q :: rest) :
    p.hitId = q.hitId ∨ p.hitId < q.hitId ∧ ∃ e ∈ rest, e.hitId = p.hitId ∧ e.ended = true := by
  induction rest generalizing q with
  | nil => exact .inl (congrArg _ (mem_singleton.mp hp))
  | cons r rest ih =>
    obtain ⟨hfollows, hrest⟩ := isChain_cons_cons.mp h
    rcases mem_cons.mp hp with rfl | hp
    · exact .inl rfl
    rcases ih hrest hp, hfollows with ⟨hsame | ⟨hlt, e, he, hended⟩, ⟨heq, -⟩ | ⟨hnew, hr⟩⟩
    · exact .inl (hsame.trans heq.symm)
    · exact .inr ⟨hsame ▸ hnew, r, mem_cons_self, hsame.symm, hr⟩
    · exact .inr ⟨heq ▸ hlt, e, mem_cons_of_mem _ he, hended⟩
    · exact .inr ⟨BitVec.lt_trans hlt hnew, e, mem_cons_of_mem _ he, hended⟩

/-- A hit is published ended only once. -/
theorem unended_of_chain {e q : Hit} {rest : List Hit} (h : (q :: rest).IsChain Hit.Follows)
    (he : e ∈ rest) (hid : e.hitId = q.hitId) : e.ended = false := by
  induction rest generalizing q with
  | nil => cases he
  | cons r rest ih =>
    obtain ⟨⟨heq, hr⟩ | ⟨hlt, -⟩, hrest⟩ := isChain_cons_cons.mp h
    · rcases mem_cons.mp he with rfl | he
      · exact hr
      · exact ih hrest he (hid.trans heq)
    · rw [← hid] at hlt
      rcases ended_of_chain hrest he with hsame | ⟨hless, -⟩
      · exact absurd (hsame ▸ hlt) (BitVec.lt_irrefl _)
      · exact absurd (BitVec.lt_trans hlt hless) (BitVec.lt_irrefl _)

/-- No hit, or one that has ended. -/
def Hit.Over (hit : Hit) : Prop := hit.hitId = 0 ∨ hit.ended = true

/-- A hit that lasts. -/
def Hit.Lasts (hit : Hit) : Prop := hit.hitId ≠ 0 ∧ hit.ended = false

instance (hit : Hit) : Decidable hit.Lasts := inferInstanceAs (Decidable (_ ∧ _))

/-- The hit shows the tuple that belongs to its protocol. -/
def Issue.Shows (i : Issue) : Prop :=
  belongs i.call.protocol i.hit.protocol = true → i.hit.Shows i.call

/-- The publications are in order, and the last one is of the hit as far as it has ended. -/
structure Billed (n : ℕ) (i : Issue) : Prop where
  chain : i.published.IsChain Hit.Follows
  last : i.hit.hitId = 0 ∧ i.published = [] ∨ i.hit.hitId ≠ 0 ∧
    ∃ q rest, i.published = q :: rest ∧ q.hitId = i.hit.hitId ∧ q.ended = i.hit.ended ∧
      (q.ended = true → q = i.hit)
  hit_id : i.hit.hitId = i.nextHit
  few : i.nextHit.toNat ≤ n
  shows : i.Shows

/-- The issue with its hit published. -/
def Issue.hand (i : Issue) : Issue := { i with published := i.hit :: i.published }

theorem billed_hand (hchain : i.published.IsChain Hit.Follows)
    (hfollows : ∀ q ∈ i.published.head?, i.hit.Follows q) (hid : i.hit.hitId ≠ 0)
    (hnext : i.hit.hitId = i.nextHit) (hfew : i.nextHit.toNat ≤ n) (hshows : i.Shows) :
    Billed n i.hand where
  chain := isChain_cons.mpr ⟨hfollows, hchain⟩
  last := .inr ⟨hid, i.hit, i.published, rfl, rfl, rfl, fun _ => rfl⟩
  hit_id := hnext
  few := hfew
  shows := hshows

theorem Billed.relay (h : Billed n i) (hlasts : i.hit.Lasts) (hit : Hit) (call : SearchCall)
    (hid : hit.hitId = i.hit.hitId) (hshows : Issue.Shows { i with hit := hit, call := call }) :
    Billed n (Issue.hand { i with hit := hit, call := call }) := by
  refine billed_hand h.chain (fun q hq => .inl ?_) (hid ▸ hlasts.1)
    (hid.trans h.hit_id) h.few hshows
  rcases h.last with ⟨hzero, -⟩ | ⟨-, q', rest, hpublished, hid', hended, -⟩
  · exact absurd hzero hlasts.1
  · change q ∈ i.published.head? at hq
    rw [hpublished, head?_cons, Option.mem_some_iff] at hq
    exact ⟨hid.trans (hq ▸ hid'.symm), hq ▸ hended.trans hlasts.2⟩

/-- A new hit is published once the one before is over. -/
theorem Billed.detect (h : Billed n i) (hover : i.hit.Over) (hn : n + 1 < 2 ^ 64) (hit : Hit)
    (hid : hit.hitId = i.nextHit + 1) :
    Billed (n + 1) (Issue.hand { i with nextHit := i.nextHit + 1, hit := hit, call := .none }) := by
  have hnat : (i.nextHit + 1).toNat = i.nextHit.toNat + 1 := by
    have hfew := h.few
    rw [BitVec.toNat_add]
    exact Nat.mod_eq_of_lt (show i.nextHit.toNat + 1 < 2 ^ 64 by omega)
  have hnew : i.nextHit < i.nextHit + 1 := BitVec.lt_def.mpr (by omega)
  refine billed_hand h.chain (fun q hq => .inr ?_) ?_ hid (hnat ▸ Nat.succ_le_succ h.few) nofun
  · rcases h.last with ⟨-, hnone⟩ | ⟨hne, q', rest, hpublished, hid', hended, -⟩
    · exact absurd (hnone ▸ hq) nofun
    · change q ∈ i.published.head? at hq
      rw [hpublished, head?_cons, Option.mem_some_iff] at hq
      rw [← hq, hid', h.hit_id, hid, hended]
      exact ⟨hnew, hover.resolve_left hne⟩
  · exact fun hz => absurd (hid.symm.trans hz ▸ hnew) BitVec.not_lt_zero

/-- The issue with its hit ended at this time. -/
def Issue.endHit (i : Issue) (t : BitVec 64) : Issue :=
  if i.hit.Lasts then Issue.hand { i with hit := { i.hit with ended := true, endedMs := t } } else i

theorem Issue.endHit_frame (i : Issue) (t : BitVec 64) :
    (i.endHit t).call = i.call ∧ (i.endHit t).hit.hitId = i.hit.hitId := by
  unfold Issue.endHit
  split_ifs
  · exact ⟨rfl, rfl⟩
  · exact ⟨rfl, rfl⟩

theorem Billed.endHit (h : Billed n i) (t : BitVec 64) :
    Billed n (i.endHit t) ∧ (i.endHit t).hit.Over := by
  unfold Issue.endHit
  split_ifs with hlasts
  · exact ⟨h.relay hlasts { i.hit with ended := true, endedMs := t } i.call rfl h.shows, .inr rfl⟩
  · refine ⟨h, ?_⟩
    rcases eq_or_ne i.hit.hitId 0 with hz | hz
    · exact .inl hz
    · exact .inr (Bool.eq_true_of_not_eq_false fun he => hlasts ⟨hz, he⟩)

/-- A phase without a visit. -/
def Phase.Off (p : Phase) : Prop := p = .stopped ∨ p = .paused ∨ p = .error

instance : DecidablePred Phase.Off := fun _ => inferInstanceAs (Decidable (_ ∨ _ ∨ _))

/-- The search has left the visit of its hit. -/
def Bill.Left (b : Bill) : Prop := b.visit = false ∨ b.phase.Off

/-- Between two calls, a visit's hit lasts and has been published, and one that was left has
ended. -/
structure Kept (n : ℕ) (b : Bill) : Prop where
  billed : Billed n b.issue
  of_visit : b.visit = true → b.issue.hit.hitId ≠ 0
  spanned : b.needSpan = true → b.visit = false
  searching : b.phase = .searching → b.visit = false
  live : b.visit = true → b.stopping = false → ¬b.phase.Off → b.issue.hit.ended = false
  left : b.Left → b.issue.hit.Over

theorem Kept.mono (h : Kept n b) : Kept (n + 1) b :=
  ⟨⟨h.billed.chain, h.billed.last, h.billed.hit_id, Nat.le_succ_of_le h.billed.few, h.billed.shows⟩,
    h.of_visit, h.spanned, h.searching, h.live, h.left⟩

theorem Kept.lasts (h : Kept n b) (hv : b.visit = true) (hs : b.stopping = false)
    (hon : ¬b.phase.Off) : b.issue.hit.Lasts := ⟨h.of_visit hv, h.live hv hs hon⟩

theorem kept_of_over (h : Billed n b.issue) (hover : b.issue.hit.Over) (hv : b.visit = false) :
    Kept n b :=
  ⟨h, fun hon => absurd (hv.symm.trans hon) nofun, fun _ => hv, fun _ => hv,
    fun hon => absurd (hv.symm.trans hon) nofun, fun _ => hover⟩

theorem kept_of_lasts (h : Billed n b.issue) (hlasts : b.issue.hit.Lasts) (hv : b.visit = true)
    (hneed : b.needSpan = false) (hp : b.phase ≠ .searching) (hon : ¬b.phase.Off) : Kept n b where
  billed := h
  of_visit _ := hlasts.1
  spanned hs := absurd (hneed.symm.trans hs) nofun
  searching hs := absurd hs hp
  live _ _ _ := hlasts.2
  left hleft := hleft.elim (fun hno => absurd (hv.symm.trans hno) nofun) fun hoff => absurd hoff hon

theorem Kept.needSpan (h : Kept n b) (hv : b.visit = true) : b.needSpan = false :=
  Bool.eq_false_iff.mpr fun hn => absurd (hv.symm.trans (h.spanned hn)) nofun

theorem Kept.leave (h : Kept n b) (t : BitVec 64) {visit stopping restoring : Bool} {phase : Phase}
    (hoff : phase.Off) (hv : visit = true → b.visit = true) :
    Kept n ⟨b.issue.endHit t, visit, b.needSpan, stopping, restoring, phase⟩ := by
  obtain ⟨hbilled, hover⟩ := h.billed.endHit t
  refine ⟨hbilled, fun hon => ?_, fun hs => ?_, fun hp => ?_, fun _ _ hon => absurd hoff hon,
    fun _ => hover⟩
  · exact (b.issue.endHit_frame t).2 ▸ h.of_visit (hv hon)
  · exact Bool.eq_false_iff.mpr fun hon => absurd ((hv hon).symm.trans (h.spanned hs)) nofun
  · rcases hoff with hoff | hoff | hoff <;> exact absurd (hoff.symm.trans hp) nofun

/-- The tuple stays with its hit, or there is none. -/
def Retains (i i' : Issue) : Prop :=
  i'.call = i.call ∧ i'.hit.hitId = i.hit.hitId ∨ i'.call = .none

theorem Retains.trans {i i' i'' : Issue} (h : Retains i i') (h' : Retains i' i'') :
    Retains i i'' := by
  rcases h' with ⟨hcall, hid⟩ | hnone
  · exact h.imp (fun ⟨hcall', hid'⟩ => ⟨hcall.trans hcall', hid.trans hid'⟩) hcall.trans
  · exact .inr hnone

theorem retains_endHit (i : Issue) (t : BitVec 64) : Retains i (i.endHit t) :=
    .inl (i.endHit_frame t)

/-- What holds between two calls holds again. The tuple is retained, no stop is asked for, and no
tune back to the session is queued. -/
structure Arrives (n : ℕ) (b b' : Bill) : Prop where
  kept : Kept n b'
  retains : Retains b.issue b'.issue
  stopping : b.stopping = false → b'.stopping = false
  restoring : b'.restoreQueued = true → b.restoreQueued = true

theorem Kept.arrives (h : Kept n b) : Arrives n b b := ⟨h, .inl ⟨rfl, rfl⟩, id, id⟩

theorem Arrives.trans (h : Arrives n b b') (h' : Arrives n b' b'') : Arrives n b b'' :=
  ⟨h'.kept, h.retains.trans h'.retains, fun hs => h'.stopping (h.stopping hs),
    fun hr => h.restoring (h'.restoring hr)⟩

theorem Arrives.mono (h : Arrives n b b') : Arrives (n + 1) b b' :=
  ⟨h.kept.mono, h.retains, h.stopping, h.restoring⟩

/-- A part is run where that holds, and leaves it so. -/
def Goes (n : ℕ) (s s' : State) : Prop := Kept n s.c.bill → Arrives n s.c.bill s'.c.bill

instance : IsPreorder State (Goes n) where
  refl _ h := h.arrives
  trans _ _ _ h h' hk := (h hk).trans (h' (h hk).kept)

/-- A part arrives from a bill. -/
abbrev Arriving {α : Type} (n : ℕ) (b : Bill) (m : Prog α) (s : State) : Prop :=
  Wp m s fun _ s' => Arrives n b s'.c.bill

/-- A part that goes on from where another arrived. -/
theorem wp_goes {α : Type} {m : Prog α} {post : α → State → Prop} (hm : Keeps (Goes n) m)
    (h : Arrives n b s.c.bill) (hpost : ∀ a s', Arrives n b s'.c.bill → post a s') : Wp m s post :=
  hpost _ _ (h.trans (hm s h.kept))

/-- The bill stays. -/
abbrev Calm : State → State → Prop := Same fun s : State => s.c.bill

theorem Calm.goes {α : Type} {m : Prog α} (h : Keeps Calm m) : Keeps (Goes n) m := fun s hk => by
  rw [show (m s).2.c.bill = s.c.bill from h s]
  exact hk.arrives

section Calm

theorem wp_ask {post : Answer → State → Prop}
    (h : post (s.answers 0) { s with answers := fun k => s.answers (k + 1) }) : Wp ask s post := h

theorem calm_ask : Keeps Calm ask := fun _ => rfl

theorem calm_modifyC {f : Coord → Coord} (h : ∀ c, (f c).bill = c.bill) : Keeps Calm (modifyC f) :=
  fun s => h s.c

theorem calm_searchPublish : Keeps Calm (searchPublish false) := fun _ => rfl

theorem calm_of_inert {α : Type} {m : Prog α} (h : Keeps Inert m) : Keeps Calm m :=
  h.mono fun _ _ hi => congrArg Coord.bill hi.c

theorem Still.calm {α : Type} {m : Prog α} (h : Keeps Still m) : Keeps Calm m :=
  h.mono fun s s' hs => (congrArg Prod.snd hs : s'.c.bill = s.c.bill)

theorem calm_searchRestore : Keeps Calm searchRestore :=
  keeps_bind keeps_get fun _ => keeps_onlyIf <|
    keeps_bind (calm_of_inert inert_scanModeLeave) fun _ =>
      keeps_bind (calm_of_inert (inert_settingsRestore _)) fun _ =>
        keeps_bind (fun _ => rfl) fun _ => calm_modifyC fun _ => rfl

end Calm

section Tunes

theorem wp_searchEndHit (s : State) : Wp searchEndHit s fun _ s' =>
    ∃ t, s'.c.bill = { s.c.bill with issue := s.c.bill.issue.endHit t } := by
  refine wp_bind (wp_get (wp_onlyIf (fun hlasts => ?_) fun hover => ?_))
  · refine ⟨(s.answers 0).realtimeMs, ?_⟩
    rw [Issue.endHit, if_pos (show s.c.bill.issue.hit.Lasts from hlasts)]
    rfl
  · refine ⟨0, ?_⟩
    rw [Issue.endHit, if_neg (show ¬s.c.bill.issue.hit.Lasts from hover)]

theorem wp_searchError (message : String) (s : State) : Wp (searchError message) s fun _ s' =>
    ∃ t, s'.c.bill =
      ⟨s.c.bill.issue.endHit t, s.c.visit, s.c.needSpan, false, s.c.restoreQueued, .error⟩ := by
  refine wp_bind ((wp_searchEndHit s).mono fun _ s₁ ⟨t, h₁⟩ => ⟨t, ?_⟩)
  show { s₁.c.bill with stopping := false, phase := .error } = _
  rw [h₁]
  rfl

theorem goes_searchError (message : String) : Keeps (Goes n) (searchError message) := by
  intro s h
  obtain ⟨t, ht⟩ := wp_searchError message s
  rw [ht]
  exact ⟨h.leave t (.inr (.inr rfl)) id, retains_endHit _ t, fun _ => rfl, id⟩

theorem goes_searchShutdown : Keeps (Goes n) searchShutdown := by
  intro s h
  suffices hwp : Arriving n s.c.bill searchShutdown s from hwp
  refine wp_bind (wp_get (wp_onlyIf (fun _ => ?_) fun _ => h.arrives))
  refine wp_bind ((wp_searchEndHit s).mono fun _ s₁ ⟨t, h₁⟩ => wp_bind (wp_modify (wp_bind ?_)))
  refine (calm_searchRestore.wp _).mono fun _ s₂ h₂ => wp_bind (wp_modify (wp_bind ?_))
  show Arrives n s.c.bill { s₂.c.bill with phase := .stopped }
  rw [show s₂.c.bill = s₁.c.bill from h₂, h₁]
  exact ⟨h.leave t (.inl rfl) id, retains_endHit _ t, id, id⟩

theorem goes_searchPause : Keeps (Goes n) searchPause := by
  intro s h
  suffices hwp : Arriving n s.c.bill searchPause s from hwp
  refine wp_bind ((wp_searchEndHit s).mono fun _ s₁ ⟨t, h₁⟩ => ?_)
  show Arrives n s.c.bill { s₁.c.bill with visit := false, phase := .paused }
  rw [h₁]
  exact ⟨h.leave t (.inr (.inl rfl)) nofun, retains_endHit _ t, id, id⟩

/-- A tune to where what holds between two calls will hold. -/
theorem arriving_searchQueueTune (target : BitVec 32) {visit : Bool} (analog : Bool)
    (h : Kept n { s.c.bill with visit := visit, phase := .tuning }) :
    Arriving n s.c.bill (searchQueueTune target visit analog) s := by
  refine wp_bind (wp_modify (wp_bind (wp_ask (wp_bind (wp_modify (wp_bind ?_))))))
  refine ((inert_searchPrepareProfile analog).wp _).mono fun rc s₁ h₁ => ?_
  have hbill : s₁.c.bill = { s.c.bill with visit := visit } := congrArg Coord.bill h₁.c
  have herror (message : String) {s₂ : State} (h₂ : s₂.c.bill = s₁.c.bill) :
      Arriving n s.c.bill (searchError message) s₂ := by
    refine (wp_searchError message s₂).mono fun _ s₃ ⟨t, h₃⟩ => ?_
    have hs₂ := h₂.trans hbill
    rw [h₃, hs₂, show s₂.c.visit = visit from congrArg Bill.visit hs₂,
      show s₂.c.needSpan = s.c.needSpan from congrArg Bill.needSpan hs₂,
      show s₂.c.restoreQueued = s.c.restoreQueued from congrArg Bill.restoreQueued hs₂]
    exact ⟨h.leave t (.inr (.inr rfl)) id, retains_endHit _ t, fun _ => rfl, id⟩
  refine wp_ite (fun _ => herror _ rfl) fun _ => wp_bind (wp_ask (wp_bind (wp_modify ?_)))
  refine wp_ite (fun _ => herror _ rfl) fun _ => wp_bind (wp_modify ?_)
  show Arrives n s.c.bill { s₁.c.bill with phase := .tuning }
  rw [hbill]
  exact ⟨h, .inl ⟨rfl, rfl⟩, id, id⟩

theorem goes_searchReturnToSpan : Keeps (Goes n) searchReturnToSpan := by
  intro s h
  suffices hwp : Arriving n s.c.bill searchReturnToSpan s from hwp
  refine wp_bind ((wp_searchEndHit s).mono fun _ s₁ ⟨t, h₁⟩ =>
    wp_bind (wp_modify (wp_bind (wp_get ?_))))
  obtain ⟨hbilled, hover⟩ := h.billed.endHit t
  have hspan : Kept n { s₁.c.bill with visit := false, phase := .tuning } := by
    rw [h₁]
    exact kept_of_over hbilled hover rfl
  refine (arriving_searchQueueTune
    (s := { s₁ with c := { s₁.c with hold := false, skip := false } })
    _ false hspan).mono fun _ s₂ h₂ => ?_
  change Arrives n s₁.c.bill s₂.c.bill at h₂
  rw [h₁] at h₂
  exact ⟨h₂.kept, (retains_endHit _ t).trans h₂.retains, h₂.stopping, h₂.restoring⟩

theorem goes_searchBeginMeasurement : Keeps (Goes n) searchBeginMeasurement := by
  refine keeps_bind (Calm.goes (calm_modifyC fun _ => by simp only [Coord.bill])) fun _ =>
    keeps_bind (Calm.goes calm_ask) fun _ => keeps_ite (goes_searchError _) ?_
  exact keeps_bind (Calm.goes fun _ => rfl) fun _ => Calm.goes (calm_modifyC fun _ => rfl)

/-- What a call leaves: a tune back to the session is queued only once the hit is over. -/
structure Leaves (n : ℕ) (b b' : Bill) : Prop where
  kept : Kept n b'
  retains : Retains b.issue b'.issue
  queued : b'.restoreQueued = true → b.restoreQueued = true ∨ b'.issue.hit.Over

theorem Arrives.leaves (h : Arrives n b b') : Leaves n b b' :=
  ⟨h.kept, h.retains, fun hr => .inl (h.restoring hr)⟩

/-- A part leaves a bill as a call does. -/
abbrev Leaving {α : Type} (n : ℕ) (b : Bill) (m : Prog α) (s : State) : Prop :=
  Wp m s fun _ s' => Leaves n b s'.c.bill

theorem leaving_searchRestoreTune (h : Kept n s.c.bill) (hs : s.c.stopping = true) :
    Leaving n s.c.bill searchRestoreTune s := by
  refine wp_bind ((wp_searchEndHit s).mono fun _ s₁ ⟨t, h₁⟩ => wp_bind (wp_modify (wp_bind ?_)))
  refine (calm_searchRestore.wp _).mono fun _ s₂ h₂ => wp_bind (wp_bind (wp_ask ?_))
  have hbill : s₂.c.bill = { s.c.bill with issue := s.c.bill.issue.endHit t } := Eq.trans h₂ h₁
  obtain ⟨hbilled, hover⟩ := h.billed.endHit t
  have hend : Arrives n s.c.bill s₂.c.bill := by
    rw [hbill]
    refine ⟨⟨hbilled, fun hv => ?_, h.spanned, h.searching, fun _ hno => ?_, fun _ => hover⟩,
      retains_endHit _ t, id, id⟩
    · exact (s.c.bill.issue.endHit_frame t).2 ▸ h.of_visit hv
    · exact absurd (hs.symm.trans hno) nofun
  have hover₂ : s₂.c.bill.issue.hit.Over := hbill ▸ hover
  refine wp_bind (wp_modify
    (wp_bind (wp_get (wp_ite (fun _ => ?_) fun _ => wp_ite (fun _ => ?_) fun _ =>
    wp_onlyIf (fun _ => ?_) fun _ => hend.leaves))))
  · exact wp_goes (goes_searchError _) hend fun _ _ h₃ => h₃.leaves
  · refine wp_modify ⟨?_, hend.retains, fun _ => .inr hover₂⟩
    exact ⟨hend.kept.billed, hend.kept.of_visit, hend.kept.spanned, hend.kept.searching,
      hend.kept.live, hend.kept.left⟩
  · exact wp_goes (goes_searchError _) hend fun _ _ h₃ => h₃.leaves

theorem leaving_searchStopTick (h : Kept n s.c.bill) (hs : s.c.stopping = true) :
    Leaving n s.c.bill searchStopTick s := by
  refine wp_bind (wp_get (wp_bind (wp_ask (wp_ite (fun _ => wp_bind ?_) fun _ => ?_))))
  · exact wp_onlyIf (fun _ => wp_goes (goes_searchError _) h.arrives fun _ _ h₁ => h₁.leaves)
      fun _ => h.arrives.leaves
  refine wp_bind (wp_modify (wp_bind (wp_get (wp_ite (fun _ => ?_) fun _ => ?_))))
  · exact leaving_searchRestoreTune h hs
  have hkept : Kept n { s.c.bill with restoreQueued := false } :=
    ⟨h.billed, h.of_visit, h.spanned, h.searching, h.live, h.left⟩
  have hleaves (b' : Bill) (h' : Arrives n { s.c.bill with restoreQueued := false } b') :
      Leaves n s.c.bill b' := ⟨h'.kept, h'.retains, fun hr => absurd (h'.restoring hr) nofun⟩
  refine wp_bind (wp_modify (wp_ite (fun _ => wp_bind ?_) fun _ =>
    wp_bind (wp_modify (wp_bind ?_))))
  · exact wp_goes (goes_searchError _) hkept.arrives fun _ _ => hleaves _
  · exact wp_goes goes_searchShutdown hkept.arrives fun _ _ => hleaves _

theorem goes_searchInputLost : Keeps (Goes n) searchInputLost :=
  keeps_bind keeps_get fun _ =>
    keeps_ite (keeps_bind goes_searchShutdown fun _ => keeps_pure _)
      (keeps_bind (keeps_onlyIf (goes_searchError _)) fun _ => keeps_pure _)

end Tunes

section Tick

/-- A part that lets the tick go on left the bill alone. -/
def Passing (n : ℕ) (s : State) (on : Prop) (s' : State) : Prop :=
  Arrives n s.c.bill s'.c.bill ∧ (on → s'.c.bill = s.c.bill)

theorem passing_searchPreviousTuneReady (h : Kept n s.c.bill) :
    Wp searchPreviousTuneReady s fun ready s' => Passing n s (ready = true) s' := by
  refine wp_bind (wp_get (wp_ite (fun _ => wp_pure ⟨h.arrives, fun _ => rfl⟩) fun _ => wp_bind ?_))
  refine wp_ask (wp_ite (fun _ => wp_bind ?_) fun _ =>
    wp_bind (wp_modify ⟨h.arrives, fun _ => rfl⟩))
  exact wp_onlyIf (fun _ => wp_goes (goes_searchError _) h.arrives fun _ _ h₁ => ⟨h₁, nofun⟩)
    fun _ => ⟨h.arrives, nofun⟩

theorem passing_searchCaptureReady (h : Kept n s.c.bill) :
    Wp searchCaptureReady s fun capture s' => Passing n s (capture.isSome = true) s' := by
  refine wp_bind (wp_get (wp_bind (wp_ask ?_)))
  split
  · exact wp_bind (wp_onlyIf (fun _ => wp_goes (goes_searchError _) h.arrives
      fun _ _ h₁ => ⟨h₁, nofun⟩) fun _ => ⟨h.arrives, nofun⟩)
  · refine wp_ite (fun _ => wp_bind ?_) fun _ => wp_bind (wp_modify ⟨h.arrives, fun _ => rfl⟩)
    exact wp_goes (goes_searchError _) h.arrives fun _ _ h₁ => ⟨h₁, nofun⟩

/-- An edit that leaves the bill alone. -/
theorem wp_calm {f : State → State} {post : Unit → State → Prop} (hf : (f s).c.bill = s.c.bill)
    (h : ∀ s', s'.c.bill = s.c.bill → post () s') : Wp (modify f : Prog Unit) s post := h _ hf

theorem arriving_searchPlanSpan (k : Capture) (h : Kept n s.c.bill) (hvisit : s.c.visit = false) :
    Arriving n s.c.bill (searchPlanSpan k) s := by
  have hover := h.left (.inl hvisit)
  refine wp_bind (wp_get (wp_bind (wp_calm rfl fun s₁ h₁ => ?_)))
  rw [← h₁] at h hover ⊢
  refine wp_ite (fun _ => wp_goes (goes_searchError _) h.arrives fun _ _ => id) fun _ => ?_
  refine wp_bind (wp_calm rfl fun s₂ h₂ => wp_bind (wp_edit fun s₃ h₃ => ?_))
  have hbill : s₃.c.bill = { s₁.c.bill with needSpan := false } := by
    rw [← h₂, h₃]
    rfl
  have hspan : Kept n { s₃.c.bill with visit := false, phase := .tuning } := by
    rw [hbill]
    exact kept_of_over h.billed hover rfl
  refine (arriving_searchQueueTune _ false hspan).mono fun _ s₄ h₄ => ?_
  rw [hbill] at h₄
  exact ⟨h₄.kept, h₄.retains, h₄.stopping, h₄.restoring⟩

theorem arriving_searchNextSpan (k : Capture) (h : Kept n s.c.bill) (hneed : s.c.needSpan = true) :
    Arriving n s.c.bill (searchNextSpan k) s := by
  have hvisit : s.c.bill.visit = false := h.spanned hneed
  refine wp_bind (((calm still_searchSelectRange).wp s).mono fun selected s₁ h₁ => wp_bind ?_)
  change s₁.c.bill = s.c.bill at h₁
  rw [← h₁] at h hvisit ⊢
  have hplan : Arriving n s₁.c.bill (onlyIf (selected = true) (searchPlanSpan k)) s₁ :=
    wp_onlyIf (fun _ => arriving_searchPlanSpan k h hvisit) fun _ => h.arrives
  refine hplan.mono fun _ s₂ h₂ => wp_bind ?_
  exact wp_onlyIf (fun _ => wp_goes (goes_searchError _) h₂ fun _ _ => id) fun _ => h₂

theorem wp_searchPublish (hitChanged : Bool) (s : State) :
    Wp (searchPublish hitChanged) s fun _ s' => s'.c.bill =
      { s.c.bill with issue := if hitChanged then s.c.bill.issue.hand else s.c.bill.issue } := by
  cases hitChanged with
  | false => exact rfl
  | true => exact rfl

theorem receptionPhase_on (c : Coord) : ¬(receptionPhase c).Off := by
  unfold receptionPhase Phase.Off
  split_ifs <;> decide

/-- A search that has landed may measure or listen. -/
def Lands (n : ℕ) (b b' : Bill) : Prop :=
  Arrives n b b' ∧ ¬b'.phase.Off ∧ b'.needSpan = b.needSpan

theorem lands_searchLand (now : BitVec 64) (h : Kept n s.c.bill) (hs : s.c.stopping = false)
    (hp : s.c.phase = .tuning) : Wp (searchLand now) s fun _ s' => Lands n s.c.bill s'.c.bill := by
  refine wp_bind (wp_modify (wp_bind (wp_edit fun s₁ hs₁ => wp_bind (wp_get ?_))))
  refine (wp_searchPublish _ s₁).mono fun _ s₂ h₂ => ?_
  cases hvisit : s.c.visit with
  | true =>
    have hon : ¬s.c.phase.Off := by
      rw [hp]
      decide
    have hlasts : s.c.bill.issue.hit.Lasts := h.lasts hvisit hs hon
    have h₁ : s₁.c.bill = { s.c.bill with phase := receptionPhase s.c } := by
      rw [hs₁]
      simp only [Coord.bill, hvisit, if_true]
      rfl
    rw [h₁, show s₁.c.visit = true from (congrArg Bill.visit h₁).trans hvisit, if_pos rfl] at h₂
    rw [h₂]
    refine ⟨⟨?_, .inl ⟨rfl, rfl⟩, id, id⟩, receptionPhase_on _, rfl⟩
    exact kept_of_lasts (h.billed.relay hlasts _ _ rfl h.billed.shows) hlasts hvisit
      (h.needSpan hvisit) (receptionPhase_ne_searching _) (receptionPhase_on _)
  | false =>
    have h₁ : s₁.c.bill = { s.c.bill with phase := .searching } := by
      rw [hs₁]
      simp only [Coord.bill, hvisit]
      rfl
    rw [h₁, show s₁.c.visit = false from (congrArg Bill.visit h₁).trans hvisit,
      if_neg Bool.false_ne_true] at h₂
    rw [h₂]
    refine ⟨⟨?_, .inl ⟨rfl, rfl⟩, id, id⟩, (by decide : ¬Phase.Off .searching), rfl⟩
    exact kept_of_over h.billed (h.left (.inl hvisit)) hvisit

theorem wp_searchWaitTune (k : Capture) (h : Kept n s.c.bill) (hs : s.c.stopping = false)
    (hp : s.c.phase = .tuning) : Wp (searchWaitTune k) s fun waiting s' =>
      Arrives n s.c.bill s'.c.bill ∧ (waiting = false → Lands n s.c.bill s'.c.bill) := by
  have hawait (now : BitVec 64) {s₁ : State} (h₁ : s₁.c.bill = s.c.bill) :
      Wp (searchAwait k now) s₁ fun waiting s' =>
        Arrives n s.c.bill s'.c.bill ∧ (waiting = false → Lands n s.c.bill s'.c.bill) := by
    have hs₁ : s₁.c.bill.stopping = false := h₁ ▸ hs
    have hp₁ : s₁.c.bill.phase = .tuning := h₁ ▸ hp
    rw [← h₁] at h ⊢
    refine wp_bind (wp_get (wp_bind (wp_ask (wp_ite (fun _ => wp_bind ?_) fun _ =>
      wp_ite (fun _ => wp_bind ?_) fun _ => wp_bind ?_))))
    · exact wp_goes (goes_searchError _) h.arrives fun _ _ h₂ => ⟨h₂, nofun⟩
    · exact wp_onlyIf (fun _ => wp_goes (goes_searchError _) h.arrives fun _ _ h₂ => ⟨h₂, nofun⟩)
        fun _ => ⟨h.arrives, nofun⟩
    · exact (lands_searchLand (s := (ask s₁).2) now h hs₁ hp₁).mono fun _ _ h₂ =>
        ⟨h₂.1, fun _ => h₂⟩
  refine wp_bind (wp_get (wp_bind (wp_ask (wp_ite (fun _ => ?_) fun _ => hawait _ rfl))))
  refine wp_bind (wp_calm rfl fun s₂ h₂ => wp_ite (fun _ => wp_bind ?_) fun _ => hawait _ h₂)
  have harrives : Arrives n s.c.bill s₂.c.bill := h₂ ▸ h.arrives
  exact wp_goes (goes_searchError _) harrives fun _ _ h₃ => ⟨h₃, nofun⟩

theorem arriving_searchVisitCandidate (found : Candidate) (hn : n + 1 < 2 ^ 64)
    (h : Kept n s.c.bill) (hvisit : s.c.visit = false) (hspan : s.c.needSpan = false) :
    Arriving (n + 1) s.c.bill (searchVisitCandidate found) s := by
  refine wp_bind (wp_get (wp_bind (wp_edit fun s₁ h₁ => wp_bind (wp_modify (wp_bind ?_)))))
  refine ((calm (still_searchSuppress _)).wp _).mono fun _ s₂ h₂ => wp_bind ?_
  refine (wp_searchPublish true s₂).mono fun _ s₃ h₃ => wp_bind (wp_calm rfl fun s₄ h₄ => ?_)
  let hit := (s.c.detected s.opts (s.answers 0) found).hit
  have hbill : s₂.c.bill = { s.c.bill with
      issue := ⟨s.c.published, hit, .none, s.c.nextHit + 1⟩ } := by
    refine Eq.trans h₂ ?_
    rw [h₁]
    simp only [Coord.bill, Coord.detected]
    rfl
  have hbilled := h.billed.detect (h.left (.inl hvisit)) hn hit rfl
  rw [hbill] at h₃
  have hfinal := h₄.trans h₃
  have hkept : Kept (n + 1) { s₄.c.bill with visit := true, phase := .tuning } := by
    rw [hfinal]
    refine kept_of_lasts hbilled ⟨?_, rfl⟩ rfl hspan (by decide : Phase.tuning ≠ .searching)
      (by decide : ¬Phase.Off .tuning)
    rcases hbilled.last with ⟨-, hnone⟩ | ⟨hid, -⟩
    · exact absurd hnone (cons_ne_nil _ _)
    · exact hid
  refine (arriving_searchQueueTune _ _ hkept).mono fun _ s₅ h₅ => ?_
  rw [hfinal] at h₅
  exact ⟨h₅.kept, Retains.trans (.inr rfl) h₅.retains, h₅.stopping, h₅.restoring⟩

theorem arriving_searchTakeReport (report : List Candidate) (hn : n + 1 < 2 ^ 64)
    (h : Kept n s.c.bill) (hvisit : s.c.visit = false) (hspan : s.c.needSpan = false) :
    Arriving (n + 1) s.c.bill (searchTakeReport report) s := by
  refine wp_bind (wp_modify (wp_bind (wp_get ?_)))
  split
  · exact wp_goes (goes_searchError _) h.arrives fun _ _ h₁ => h₁.mono
  · refine wp_bind (wp_modify (wp_bind (wp_edit fun s₁ h₁ => ?_)))
    refine (calm_searchPublish.wp s₁).mono fun _ s₂ h₂ => ?_
    have hbill : s₂.c.bill = { s.c.bill with needSpan := true } := by
      rw [show s₂.c.bill = s₁.c.bill from h₂, h₁]
      rfl
    rw [hbill]
    exact ⟨kept_of_over h.mono.billed (h.left (.inl hvisit)) hvisit, .inl ⟨rfl, rfl⟩, id, id⟩
  · exact arriving_searchVisitCandidate _ hn h hvisit hspan

theorem arriving_searchMeasure (k : Capture) (hn : n + 1 < 2 ^ 64) (h : Kept n s.c.bill)
    (hvisit : s.c.visit = false) (hspan : s.c.needSpan = false) :
    Arriving (n + 1) s.c.bill (searchMeasure k) s := by
  have hgoes {m : Prog Unit} (hm : Keeps (Goes n) m) {s₁ : State} (h₁ : s₁.c.bill = s.c.bill) :
      Arriving (n + 1) s.c.bill m s₁ :=
    wp_goes hm (h₁ ▸ h.arrives) fun _ _ h₂ => h₂.mono
  refine wp_bind (wp_get (wp_bind (wp_ask ?_)))
  refine wp_ite (fun _ => hgoes (goes_searchError _) rfl) fun _ =>
    wp_ite (fun _ => hgoes goes_searchBeginMeasurement rfl) fun _ =>
    wp_ite (fun _ => hgoes (Calm.goes (calm_modifyC fun _ => rfl)) rfl) fun _ =>
    wp_ite (fun _ => h.arrives.mono) fun _ => wp_bind (wp_calm rfl fun s₁ h₁ => ?_)
  change s₁.c.bill = s.c.bill at h₁
  rw [← h₁] at h ⊢
  exact wp_ite (fun _ => h.arrives.mono) fun _ => arriving_searchTakeReport _ hn h
    ((congrArg Bill.visit h₁).trans hvisit) ((congrArg Bill.needSpan h₁).trans hspan)

theorem arriving_searchVisitTick (h : Kept n s.c.bill) (hvisit : s.c.visit = true)
    (hs : s.c.stopping = false) (hon : ¬s.c.phase.Off) : Arriving n s.c.bill searchVisitTick s := by
  have hlasts : s.c.bill.issue.hit.Lasts := h.lasts hvisit hs hon
  have hneed := h.needSpan hvisit
  refine wp_bind (wp_ask (wp_bind ?_))
  refine ((calm (still_searchNoteActivity _)).wp _).mono fun _ s₁ h₁ => wp_bind (wp_get ?_)
  change s₁.c.bill = s.c.bill at h₁
  rw [← h₁] at h hlasts hneed ⊢
  have hreturn {m : Prog Bool} (hm : Keeps (Goes n) m) : Arriving n s₁.c.bill m s₁ :=
    wp_goes hm h.arrives fun _ _ => id
  refine wp_ite (fun _ => hreturn (keeps_bind goes_searchReturnToSpan fun _ => keeps_pure _))
    fun _ =>
    wp_ite (fun _ => wp_bind (arriving_searchQueueTune _ true ?_)) fun _ =>
    wp_ite (fun _ => hreturn (keeps_bind goes_searchReturnToSpan fun _ => keeps_pure _)) fun _ =>
    hreturn (keeps_bind (Calm.goes ?_) fun _ => keeps_pure _)
  · exact kept_of_lasts h.billed hlasts rfl hneed nofun (by decide : ¬Phase.Off .tuning)
  · exact keeps_bind (calm still_searchLiveStrength) fun _ => keeps_bind keeps_get fun _ =>
      keeps_bind calm_ask fun _ => keeps_onlyIf calm_searchPublish

theorem arriving_searchOnAir (k : Capture) (hn : n + 1 < 2 ^ 64) (h : Kept n s.c.bill)
    (hspan : s.c.needSpan = false) (hs : s.c.stopping = false) (hon : ¬s.c.phase.Off) :
    Arriving (n + 1) s.c.bill (searchOnAir k) s := by
  refine wp_bind (wp_get (wp_ite (fun hp => wp_bind ?_) fun _ =>
    wp_ite (fun hvisit => ?_) fun _ => ?_))
  · exact arriving_searchMeasure k hn h (h.searching hp) hspan
  · exact (arriving_searchVisitTick h hvisit hs hon).mono fun _ _ h₁ => h₁.mono
  · exact h.arrives.mono

theorem arriving_searchAdvance (hn : n + 1 < 2 ^ 64) (h : Kept n s.c.bill)
    (hs : s.c.stopping = false) (hon : ¬s.c.phase.Off) :
    Arriving (n + 1) s.c.bill searchAdvance s := by
  refine wp_bind ((passing_searchPreviousTuneReady h).mono fun ready s₁ ⟨h₁, hready⟩ => ?_)
  refine wp_ite (fun _ => h₁.mono) fun hgo => wp_bind ?_
  refine (passing_searchCaptureReady h₁.kept).mono fun capture s₂ ⟨h₂, hcapture⟩ => ?_
  split
  · exact (h₁.trans h₂).mono
  have hcalm : s₂.c.bill = s.c.bill :=
    (hcapture rfl).trans (hready (Bool.eq_true_of_not_eq_false hgo))
  have hs₂ : s₂.c.bill.stopping = false := hcalm ▸ hs
  have hon₂ : ¬s₂.c.bill.phase.Off := hcalm ▸ hon
  rw [← hcalm] at h ⊢
  refine wp_bind (wp_get (wp_ite (fun hneed => ?_) fun hneed =>
    wp_ite (fun hp => wp_bind ?_) fun _ => ?_))
  · exact (arriving_searchNextSpan _ h hneed).mono fun _ _ h₃ => h₃.mono
  · refine (wp_searchWaitTune _ h hs₂ hp).mono fun waiting s₃ ⟨h₃, hlands⟩ => ?_
    refine wp_ite (fun _ => h₃.mono) fun hwaiting => ?_
    obtain ⟨-, hon₃, hspan₃⟩ := hlands (Bool.eq_false_of_not_eq_true hwaiting)
    have hspan : s₃.c.needSpan = false := hspan₃.trans (Bool.eq_false_of_not_eq_true hneed)
    exact (arriving_searchOnAir _ hn h₃.kept hspan (h₃.stopping hs₂) hon₃).mono fun _ _ h₄ =>
      h₃.mono.trans h₄
  · exact arriving_searchOnAir _ hn h (Bool.eq_false_of_not_eq_true hneed) hs₂ hon₂

/-- A tick keeps what holds between two calls. -/
theorem leaving_searchTick (hn : n + 1 < 2 ^ 64) (h : Kept n s.c.bill) :
    Leaving (n + 1) s.c.bill searchTick s := by
  refine wp_bind (wp_get (wp_ite (fun _ => h.arrives.mono.leaves) fun hstopped => wp_bind ?_))
  suffices hbody : Leaving (n + 1) s.c.bill searchTickBody s from
    hbody.mono fun _ _ h₁ => wp_bind (wp_get (wp_bind (wp_onlyIf (fun _ => h₁) fun _ => h₁)))
  refine wp_bind (wp_get
    (wp_bind (wp_ask (wp_ite (fun _ => ?_) fun _ => wp_ite (fun hs => ?_) fun hs =>
    wp_ite (fun _ => h.arrives.mono.leaves) fun hp => ?_))))
  · exact wp_goes goes_searchInputLost h.arrives fun _ _ h₁ => h₁.mono.leaves
  · exact (leaving_searchStopTick (s := (ask s).2) h hs).mono fun _ _ h₁ =>
      ⟨h₁.kept.mono, h₁.retains, h₁.queued⟩
  · exact (arriving_searchAdvance (s := (ask s).2) hn h (Bool.eq_false_of_not_eq_true hs)
      (not_or.mpr ⟨hstopped, hp⟩)).mono fun _ _ h₁ => h₁.leaves

end Tick

section Control

theorem Kept.resume (h : Kept n b) (hp : b.phase = .paused) :
    Leaves n b { b with needSpan := true, visit := false, phase := .searching } :=
  ⟨kept_of_over h.billed (h.left (.inr (.inr (.inl hp)))) rfl, .inl ⟨rfl, rfl⟩, .inl⟩

theorem leaving_searchApplyAction (h : Kept n s.c.bill) {action : Control}
    (hvalid : validAction s.c action = true) : Leaving n s.c.bill (searchApplyAction action) s := by
  have hcalm {m : Prog Bool} (hm : Keeps Calm m) : Leaving n s.c.bill m s :=
    wp_goes (Calm.goes hm) h.arrives fun _ _ h₁ => h₁.leaves
  obtain ⟨session, hitId, action, frequency⟩ := action
  refine wp_bind (wp_get ?_)
  cases action with
  | stop =>
    refine wp_bind (wp_ask (wp_bind (wp_modify ⟨?_, .inl ⟨rfl, rfl⟩, .inl⟩)))
    exact ⟨h.billed, h.of_visit, h.spanned, h.searching, nofun, h.left⟩
  | pause => exact wp_bind (wp_goes goes_searchPause h.arrives fun _ _ h₁ => h₁.leaves)
  | resume =>
    refine wp_bind (wp_get (wp_ite (fun _ => h.arrives.leaves) fun hp => wp_bind (wp_modify ?_)))
    exact h.resume (not_not.mp hp)
  | hold =>
    unfold validAction at hvalid
    split_ifs at hvalid with hsession
    simp only [Bool.and_eq_true, Bool.not_eq_true'] at hvalid
    refine wp_bind (wp_edit fun s₁ h₁ => ?_)
    by_cases hp : s.c.phase = .tuning
    · have hbill : s₁.c.bill = s.c.bill := by
        rw [h₁]
        simp only [Coord.bill, hp, ne_eq, not_true, if_false]
      show Leaves n s.c.bill s₁.c.bill
      rw [hbill]
      exact h.arrives.leaves
    · have hbill : s₁.c.bill =
          { s.c.bill with phase := receptionPhase { s.c with hold := !s.c.hold } } := by
        rw [h₁]
        simp only [if_pos hp]
        rfl
      show Leaves n s.c.bill s₁.c.bill
      rw [hbill]
      refine ⟨kept_of_lasts h.billed ⟨h.of_visit hvalid.1.1, hvalid.2⟩ hvalid.1.1
        (h.needSpan hvalid.1.1) (receptionPhase_ne_searching _) (receptionPhase_on _),
        .inl ⟨rfl, rfl⟩, .inl⟩
  | avoid => exact hcalm (calm (still_searchAvoidAction _))
  | avoidPermanent => exact hcalm (calm (still_searchAvoidAction _))
  | avoidFrequency => exact hcalm (calm (still_searchAvoidAction _))
  | skip => exact wp_bind h.arrives.leaves
  | unavoid => exact hcalm (keeps_bind (calm (still_searchUnavoid _)) fun _ => keeps_pure _)
  | unknown => exact h.arrives.leaves

theorem leaving_searchControl (h : Kept n s.c.bill) (action : Control) :
    Leaving n s.c.bill (searchControl action) s := by
  refine wp_bind (wp_get (wp_ite (fun _ => h.arrives.leaves) fun hvalid => wp_bind ?_))
  refine (leaving_searchApplyAction h (Bool.eq_true_of_not_eq_false hvalid)).mono fun _ s₁ h₁ => ?_
  exact wp_ite (fun _ => h₁) fun _ => wp_bind (wp_modify (wp_bind h₁))

/-- A new session has published nothing. -/
theorem kept_fresh (config : Config) (saved : ScanSettings) (frequency : BitVec 32)
    (airspy : AirspyConfig) (now : BitVec 64) :
    Kept n (Coord.fresh config saved frequency airspy now).bill :=
  kept_of_over ⟨.nil, .inl ⟨rfl, rfl⟩, rfl, Nat.zero_le n, nofun⟩ (.inl rfl) rfl

/-- A start that is taken is of a new session, or resumes a paused one. -/
theorem wp_searchStart_bill (config : Config) (s : State) :
    Wp (searchStart config) s fun rc s' => Calm s s' ∧ rc ≠ 0 ∨
      (∃ saved frequency airspy now,
        s'.c.bill = (Coord.fresh config saved frequency airspy now).bill) ∨
      s.c.phase = .paused ∧
        s'.c.bill = { s.c.bill with needSpan := true, visit := false, phase := .searching } := by
  have hrefused : (-1 : ℤ) ≠ 0 := by decide
  refine wp_bind (wp_get (wp_bind (wp_ask ?_)))
  split
  · exact .inl ⟨rfl, hrefused⟩
  refine wp_ite (fun hp => ?_) fun _ => ?_
  · refine wp_bind (wp_bind (wp_modify (wp_bind (wp_modify (wp_bind ?_)))))
    refine ((calm still_searchSelectRange).wp _).mono fun _ s₁ h₁ => ?_
    exact .inr (.inr ⟨hp, h₁⟩)
  refine wp_bind (wp_get (wp_bind (wp_ask (wp_ite (fun _ => .inl ⟨rfl, hrefused⟩) fun _ => ?_))))
  refine wp_bind (wp_modify (wp_bind ?_))
  refine ((calm_of_inert inert_scanModeBegin).wp _).mono fun rc s₁ h₁ => wp_bind (wp_ask ?_)
  refine wp_ite (fun _ => wp_bind ?_) fun _ => wp_bind (wp_modify (wp_bind ?_))
  · refine ((calm_of_inert inert_scanModeLeave).wp _).mono fun _ s₂ h₂ => wp_bind ?_
    refine ((calm_of_inert (inert_settingsRestore _)).wp s₂).mono fun _ s₃ h₃ => ?_
    exact .inl ⟨Eq.trans h₃ (Eq.trans h₂ h₁), hrefused⟩
  · exact ((calm still_searchSelectRange).wp _).mono fun _ s₂ h₂ => .inr (.inl ⟨_, _, _, _, h₂⟩)

theorem leaving_searchStart (h : Kept n s.c.bill) (config : Config) :
    Leaving n s.c.bill (searchStart config) s := by
  refine (wp_searchStart_bill config s).mono fun rc s₁ h₁ => ?_
  rcases h₁ with ⟨hcalm, -⟩ | ⟨saved, frequency, airspy, now, hfresh⟩ | ⟨hp, hresumed⟩
  · rw [show s₁.c.bill = s.c.bill from hcalm]
    exact h.arrives.leaves
  · rw [hfresh]
    exact ⟨kept_fresh config saved frequency airspy now, .inr rfl, nofun⟩
  · rw [hresumed]
    exact h.resume hp

end Control

end DsdNeo.SignalSearch
