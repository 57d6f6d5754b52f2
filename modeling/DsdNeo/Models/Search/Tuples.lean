import DsdNeo.Models.Search.Published

/-!
# What the hits of a search show

Decoders note evidence, sites and calls on a visit between any two ticks. A run of a search
publishes its hits whole and once, whichever notes come in which order.
-/

namespace DsdNeo.SignalSearch

open Program Text Csv List

variable {s s' s₁ : State} {b : Bill} {v v' v'' : Visit} {n : ℕ} {a : Answer} {ops : List Op}

/-- A visit stays one of its hit, and its tuple stays or goes. -/
structure Visit.Lasts (v v' : Visit) : Prop where
  hit_id : v'.hit.hitId = v.hit.hitId
  ended : v'.hit.ended = v.hit.ended
  call : v'.call = v.call ∨ v'.call = .none

theorem Visit.Lasts.trans (h : v.Lasts v') (h' : v'.Lasts v'') : v.Lasts v'' :=
  ⟨h'.hit_id.trans h.hit_id, h'.ended.trans h.ended,
    h'.call.elim (fun hcall => h.call.imp hcall.trans hcall.trans) .inr⟩

/-- The hit of a visit shows the tuple of its protocol. -/
def Visit.Shows (v : Visit) : Prop := callIs v v.hit.protocol = true → v.hit.Shows v.call

theorem lasts_refreshSite (v : Visit) : v.Lasts (refreshSite v).1 := by
  unfold refreshSite
  split_ifs
  · exact ⟨rfl, rfl, .inl rfl⟩
  · exact ⟨rfl, rfl, .inl rfl⟩

theorem shows_refreshSite (h : v.Shows) : (refreshSite v).1.Shows := by
  unfold refreshSite
  split_ifs
  · exact h
  · exact h

theorem hit_refreshSite (h : (refreshSite v).2 = false) : (refreshSite v).1.hit = v.hit := by
  unfold refreshSite at h ⊢
  split_ifs at h ⊢
  rfl

theorem lasts_refreshCall (v : Visit) : v.Lasts (refreshCall v).1 := by
  unfold refreshCall
  split_ifs
  · exact ⟨rfl, rfl, .inl rfl⟩
  · exact ⟨rfl, rfl, .inl rfl⟩
  · exact ⟨rfl, rfl, .inl rfl⟩

theorem call_refreshCall (v : Visit) : (refreshCall v).1.call = v.call := by
  unfold refreshCall
  split_ifs
  · rfl
  · rfl
  · rfl

theorem hit_refreshCall (h : (refreshCall v).2 = false) : (refreshCall v).1.hit = v.hit := by
  unfold refreshCall at h ⊢
  split_ifs at h ⊢
  · rfl
  · rfl

theorem shows_refreshCall (v : Visit) : (refreshCall v).1.Shows := by
  unfold refreshCall
  split_ifs with hother hshows
  · exact fun hcall => absurd (hother.symm.trans hcall) nofun
  · exact fun _ => hshows
  · exact fun _ => ⟨rfl, rfl, rfl, rfl, rfl, rfl⟩

theorem lasts_identifiedProtocol (v : Visit) (identified : Bytes) :
    v.Lasts (identifiedProtocol v identified) := by
  have hidentified : v.Lasts
    (if v.hit.protocol ≠ identified then v.reidentified identified else v) := by
    split_ifs
    · exact ⟨rfl, rfl, (ite_eq_or_eq _ _ _).symm⟩
    · exact ⟨rfl, rfl, .inl rfl⟩
  refine hidentified.trans
    (Visit.Lasts.trans ?_ ((lasts_refreshSite _).trans (lasts_refreshCall _)))
  exact ⟨rfl, rfl, .inl rfl⟩

/-- Identifiers of plain evidence leave a tuple that is shown alone. -/
theorem shows_standIn (h : v.Shows) (target source : BitVec 32) (access : Bytes) :
    (v.standIn target source access).Shows := by
  intro hcall
  have hstands : callIs v v.hit.protocol = true := hcall
  obtain ⟨htarget, hsource, hrest⟩ := h hstands
  refine ⟨?_, ?_, hrest⟩
  · simp only [Visit.standIn, hstands, Bool.true_eq_false, false_and, if_false, htarget]
  · simp only [Visit.standIn, hstands, Bool.true_eq_false, false_and, if_false, hsource]

theorem of_receiving {c : Coord} (h : receiving c a = true) :
    c.visit = true ∧ c.hit.ended = false ∧ c.phase ≠ .searching ∧ ¬c.phase.Off := by
  simp only [receiving, Bool.and_eq_true, Bool.or_eq_true, beq_iff_eq, Bool.not_eq_true'] at h
  obtain ⟨⟨⟨hvisit, hended⟩, -⟩, hphase⟩ := h
  refine ⟨hvisit, hended, ?_⟩
  rcases hphase with (hphase | hphase) | hphase <;> rw [hphase] <;> decide

theorem Kept.note (h : Kept n b) (hlasts : b.issue.hit.Lasts) (hvisit : b.visit = true)
    (hid : v.hit.hitId = b.issue.hit.hitId) (hended : v.hit.ended = false) (hshows : v.Shows)
    {phase : Phase} (hp : phase ≠ .searching) (hon : ¬phase.Off) :
    Kept n { b with
      issue := Issue.hand { b.issue with hit := v.hit, call := v.call }, phase := phase } :=
  kept_of_lasts (h.billed.relay hlasts v.hit v.call hid hshows) ⟨hid ▸ hlasts.1, hended⟩ hvisit
    (h.needSpan hvisit) hp hon

theorem leaving_searchEvidence (h : Kept n s.c.bill) (protocol : Bytes) (target source : BitVec 32)
    (access : Bytes) : Leaving n s.c.bill (searchEvidence protocol target source access) s := by
  refine wp_bind (wp_get (wp_bind (wp_ask (wp_onlyIf (fun hnote => ?_) fun _ => h.arrives.leaves))))
  obtain ⟨hvisit, hended, hp, hon⟩ := of_receiving (Bool.and_eq_true_iff.mp hnote).1
  let seen : Visit := ⟨{ s.c.hit with confirmed := true, unresolved := false }, s.c.site, s.c.call⟩
  let v := identifiedProtocol seen (identified (s.answers 0).nxdn48 protocol)
  have hv : seen.Lasts v := lasts_identifiedProtocol _ _
  have hkept : Kept n { s.c.bill with
      issue := Issue.hand ⟨s.c.published, (v.standIn target source access).hit, v.call, s.c.nextHit⟩
      phase := if s.c.hold then s.c.phase else .listening } := by
    refine h.note (v := v.standIn target source access) ⟨h.of_visit hvisit, hended⟩ hvisit hv.hit_id
      (hv.ended.trans hended) (shows_standIn (shows_refreshCall _) _ _ _) ?_ ?_
    · split_ifs
      · exact hp
      · nofun
    · split_ifs
      · exact hon
      · decide
  refine wp_bind (wp_modify (wp_bind (wp_modify (wp_bind (wp_modify (wp_bind (wp_modify ?_)))))))
  exact ⟨hkept, hv.call.imp (fun hcall => ⟨hcall, hv.hit_id⟩) id, .inl⟩

theorem wp_searchRefreshed (h : Kept n s.c.bill) (hr : receiving s.c a = true) {r : Visit × Bool}
    (hid : r.1.hit.hitId = s.c.hit.hitId) (hended : r.1.hit.ended = s.c.hit.ended)
    (hshows : r.1.Shows) (hsame : r.2 = false → r.1.hit = s.c.hit) :
    Wp (searchRefreshed r) s fun _ s' => Kept n s'.c.bill ∧ s'.c.call = r.1.call ∧
      s'.c.hit.hitId = s.c.hit.hitId ∧ s'.c.restoreQueued = s.c.restoreQueued := by
  obtain ⟨hvisit, hlives, hp, hon⟩ := of_receiving hr
  refine wp_bind (wp_modify (wp_onlyIf (fun _ => ⟨?_, rfl, hid, rfl⟩) fun hno =>
    ⟨?_, rfl, hid, rfl⟩))
  · exact h.note ⟨h.of_visit hvisit, hlives⟩ hvisit hid (hended.trans hlives) hshows hp hon
  · have hhit : r.1.hit = s.c.hit := hsame (Bool.eq_false_of_not_eq_true hno)
    rw [Visit.Shows, callIs, hhit] at hshows
    have hkept : Kept n { s.c.bill with issue := { s.c.bill.issue with call := r.1.call } } :=
      ⟨⟨h.billed.chain, h.billed.last, h.billed.hit_id, h.billed.few, hshows⟩, h.of_visit,
        h.spanned, h.searching, h.live, h.left⟩
    show Kept n { s.c.bill with issue := { s.c.bill.issue with hit := r.1.hit, call := r.1.call } }
    rw [hhit]
    exact hkept

theorem leaving_searchSite (h : Kept n s.c.bill) (note : SiteNote) :
    Leaving n s.c.bill (searchSite note) s := by
  refine wp_bind (wp_get (wp_bind (wp_ask ?_)))
  split
  · exact h.arrives.leaves
  · rename_i site hsite
    split_ifs at hsite with hr
    let seen : Visit := { s.c.visited with site := site }
    have hseen := lasts_refreshSite seen
    refine (wp_searchRefreshed (s := (ask s).2) h hr hseen.hit_id hseen.ended
      (shows_refreshSite (v := seen) h.billed.shows) hit_refreshSite).mono fun _ s₂ h₂ => ?_
    obtain ⟨hkept, hcall, hid, hqueued⟩ := h₂
    refine ⟨hkept, .inl ⟨hcall.trans ?_, hid⟩, fun hq => .inl (hqueued.symm.trans hq)⟩
    unfold refreshSite
    split_ifs
    · rfl
    · rfl

/-- A call record a note brings, of a protocol's slot. -/
structure CallNote where
  slot : ℕ
  record : CallState.Record
  protocol : Bytes

/-- The tuple of a noted record. -/
def CallNote.tuple (note : CallNote) : SearchCall :=
  searchCallFromRecord note.record note.protocol note.slot

/-- The record a call on the search takes notice of. -/
def noted (s : State) : Op → Option CallNote
  | .call slot record => (callNoted s.c (s.answers 0) slot record).map fun p => ⟨slot, p.1, p.2⟩
  | _ => none

/-- The tuple is of the noted call already. -/
def CallNote.Same (note : CallNote) (t : SearchCall) : Prop :=
  t.recordSlot = note.slot ∧ t.epoch = note.record.epoch

/-- A note leaves a later call's tuple or its own call's, and else gives its record's. -/
def CallNote.Renews (note : CallNote) (t t' : SearchCall) : Prop :=
  t' = t ∧ t.protocol = note.protocol ∧ (note.record.startedM < t.startedM ∨ note.Same t) ∨
    t' = note.tuple ∧ (t.protocol = note.protocol → note.Same t ∨ t.startedM ≤ note.record.startedM)

theorem copied_of_searchCallProtocol {sync : ℤ} {protocol : Bytes}
    (h : searchCallProtocol sync = some protocol) :
    copied 8 protocol = protocol ∧ protocol ≠ [] := by
  unfold searchCallProtocol at h
  split_ifs at h <;> cases h <;> decide

theorem of_callNoted {c : Coord} {slot : ℕ} {record : Option CallState.Record}
    {p : CallState.Record × Bytes} (h : callNoted c a slot record = some p) :
    receiving c a = true ∧ record = some p.1 ∧ searchCallProtocol p.1.protocol = some p.2 := by
  unfold callNoted callAdmit at h
  split_ifs at h with hr
  refine ⟨hr.1, ?_⟩
  split at h
  · cases h
  split_ifs at h
  split at h
  · cases h
  split_ifs at h
  cases h
  exact ⟨rfl, ‹_›⟩

variable {note : CallNote} {op : Op}

theorem of_noted (h : noted s op = some note) :
    op = .call note.slot (some note.record) ∧ note.tuple.protocol = note.protocol ∧
      note.protocol ≠ [] := by
  unfold noted at h
  split at h
  · obtain ⟨p, hp, rfl⟩ := Option.map_eq_some_iff.mp h
    obtain ⟨-, hrecord, hprotocol⟩ := of_callNoted hp
    exact ⟨hrecord ▸ rfl, copied_of_searchCallProtocol hprotocol⟩
  · cases h

/-- What a call on the search leaves of the tuple. -/
def Carries (s : State) (op : Op) (t : SearchCall) : Prop :=
  match noted s op with
  | some note => note.Renews s.c.call t
  | none => t = s.c.call ∨ t = .none

/-- What a call on the search leaves. -/
structure Steps (n : ℕ) (s : State) (op : Op) (s' : State) : Prop where
  kept : Kept n s'.c.bill
  hit_id : s'.c.call = .none ∨ s'.c.hit.hitId = s.c.hit.hitId
  carries : Carries s op s'.c.call
  queued : s'.c.restoreQueued = true → s.c.restoreQueued = true ∨ s'.c.hit.Over

theorem Leaves.steps (h : Leaves n s.c.bill s'.c.bill) (hop : noted s op = none) :
    Steps n s op s' := by
  refine ⟨h.kept, h.retains.symm.imp_right And.right, ?_, h.queued⟩
  rw [Carries, hop]
  exact h.retains.imp_left And.left

theorem steps_searchCall (h : Kept n s.c.bill) (slot : ℕ) (record : Option CallState.Record) :
    Wp (searchCall slot record) s fun _ s' => Steps n s (.call slot record) s' := by
  have hstill {t : State} (ht : t.c = s.c) (hcarries : Carries s (.call slot record) s.c.call) :
      Steps n s (.call slot record) t := by
    refine ⟨?_, .inr ?_, ?_, ?_⟩ <;> rw [ht]
    · exact h
    · exact hcarries
    · exact .inl
  refine wp_bind (wp_get (wp_bind (wp_ask ?_)))
  split
  · rename_i hnone
    refine hstill rfl ?_
    rw [Carries, noted, hnone]
    exact .inl rfl
  · rename_i record' protocol hsome
    obtain ⟨hr, -, hprotocol⟩ := of_callNoted hsome
    let note : CallNote := ⟨slot, record', protocol⟩
    have hcarries {t : SearchCall} (ht : note.Renews s.c.call t) : Carries s
      (.call slot record) t := by
      rw [Carries, noted, hsome]
      exact ht
    refine wp_ite (fun hsuperseded => hstill rfl (hcarries (.inl ⟨rfl, ?_⟩))) fun hnew =>
      wp_ite (fun hequal => hstill rfl (hcarries (.inl ⟨rfl, ?_⟩))) fun _ => ?_
    · unfold callSuperseded at hsuperseded
      split_ifs at hsuperseded with hother
      exact ⟨not_not.mp (not_or.mp hother).2, .inl (of_decide_eq_true hsuperseded).2⟩
    · have hsame := of_decide_eq_true hequal
      refine ⟨?_, .inr ⟨?_, ?_⟩⟩
      · exact (congrArg SearchCall.protocol hsame).symm.trans
          (copied_of_searchCallProtocol hprotocol).1
      · exact (congrArg SearchCall.recordSlot hsame).symm
      · exact (congrArg SearchCall.epoch hsame).symm
    let seen : Visit := { s.c.visited with call := note.tuple }
    have hseen := lasts_refreshCall seen
    refine (wp_searchRefreshed (s := (ask s).2) h hr hseen.hit_id hseen.ended
      (shows_refreshCall seen)
      hit_refreshCall).mono fun _ s₂ h₂ => ?_
    obtain ⟨hkept, hcall, hid, hqueued⟩ := h₂
    refine ⟨hkept, .inr hid, ?_, fun hq => .inl (hqueued.symm.trans hq)⟩
    refine hcarries (.inr ⟨hcall.trans (call_refreshCall _), fun heq => ?_⟩)
    have hne : s.c.call.protocol ≠ [] := heq ▸ (copied_of_searchCallProtocol hprotocol).2
    have hdecide : ¬(¬note.Same s.c.call ∧ record'.startedM < s.c.call.startedM) := by
      intro hlater
      refine hnew ?_
      unfold callSuperseded
      rw [if_neg (not_or.mpr ⟨hne, not_not.mpr heq⟩)]
      exact decide_eq_true hlater
    by_cases hsame : note.Same s.c.call
    · exact .inl hsame
    · exact .inr (not_lt.mp fun hlt => hdecide ⟨hsame, hlt⟩)

/-- A call on the search keeps what holds between two calls. -/
theorem steps_perform (hn : n + 1 < 2 ^ 64) (h : Kept n s.c.bill) (op : Op) :
    Steps (n + 1) s op (perform op s).2 := by
  have hgoes {m : Prog Unit} (hm : Keeps (Goes (n + 1)) m) {op : Op} (hop : noted s op = none) :
      Wp m s fun _ s' => Steps (n + 1) s op s' :=
    wp_goes hm h.mono.arrives fun _ _ h₁ => h₁.leaves.steps hop
  suffices hwp : Wp (perform op) s fun _ s' => Steps (n + 1) s op s' from hwp
  cases op with
  | start config =>
    exact wp_bind ((leaving_searchStart h.mono config).mono fun _ _ h₁ => h₁.steps rfl)
  | control action =>
    exact wp_bind ((leaving_searchControl h.mono action).mono fun _ _ h₁ => h₁.steps rfl)
  | tick => exact wp_bind ((leaving_searchTick hn h).mono fun _ _ h₁ => h₁.steps rfl)
  | shouldYield =>
    exact hgoes (keeps_bind (Calm.goes (Still.calm still_searchShouldYield)) fun _ =>
      keeps_pure _) rfl
  | evidence protocol target source access =>
    exact (leaving_searchEvidence h.mono protocol target source access).mono
      fun _ _ h₁ => h₁.steps rfl
  | site note => exact (leaving_searchSite h.mono note).mono fun _ _ h₁ => h₁.steps rfl
  | call slot record => exact steps_searchCall h.mono slot record
  | notice session message =>
    refine hgoes (Calm.goes (keeps_bind keeps_get fun _ => keeps_onlyIf ?_)) rfl
    exact keeps_bind (calm_modifyC fun _ => rfl) fun _ => calm_searchPublish
  | shutdown => exact hgoes goes_searchShutdown rfl

/-- A run noted the record of a tuple on this hit. -/
def Tells (s₁ : State) (ops : List Op) (hitId : BitVec 64) (t : SearchCall) : Prop :=
  ∃ pre op post note, ops = pre ++ op :: post ∧ noted (run s₁ pre) op = some note ∧
    t = note.tuple ∧ (run s₁ pre).c.hit.hitId = hitId

theorem run_concat (s₁ : State) (ops : List Op) (op : Op) :
    run s₁ (ops ++ [op]) = (perform op (run s₁ ops)).2 := foldl_append

theorem kept_run (h : Kept 0 s₁.c.bill) (hcall : s₁.c.call = .none) (ops : List Op)
    (hfew : ops.length < 2 ^ 64) : Kept ops.length (run s₁ ops).c.bill ∧
      ((run s₁ ops).c.call = .none ∨
        Tells s₁ ops (run s₁ ops).c.hit.hitId (run s₁ ops).c.call) := by
  induction ops using List.reverseRecOn with
  | nil => exact ⟨h, .inl hcall⟩
  | append_singleton ops op ih =>
    rw [length_append, length_singleton] at hfew ⊢
    obtain ⟨hkept, htells⟩ := ih (Nat.lt_of_succ_lt hfew)
    have hstep := steps_perform hfew hkept op
    rw [run_concat]
    refine ⟨hstep.kept, ?_⟩
    rcases hstep.hit_id with hnone | hid
    · exact .inl hnone
    have hcarries := hstep.carries
    have hstays (heq : (perform op (run s₁ ops)).2.c.call = (run s₁ ops).c.call) :
        (perform op (run s₁ ops)).2.c.call = .none ∨ Tells s₁ (ops ++ [op])
          (perform op (run s₁ ops)).2.c.hit.hitId (perform op (run s₁ ops)).2.c.call := by
      rw [heq, hid]
      refine htells.imp_right fun ⟨pre, op', post, note, hops, hrest⟩ => ?_
      exact ⟨pre, op', post ++ [op], note, by rw [hops, append_assoc, cons_append], hrest⟩
    unfold Carries at hcarries
    split at hcarries
    · rename_i note hnote
      rcases hcarries with ⟨hsame, -⟩ | ⟨hnew, -⟩
      · exact hstays hsame
      · exact .inr ⟨ops, op, [], note, rfl, hnote, hnew, hid.symm⟩
    · exact hcarries.elim hstays .inl

/-- The records of one slot and epoch started once. -/
def OneStart (ops : List Op) : Prop :=
  ∀ (slot : ℕ) (r r' : CallState.Record), .call slot (some r) ∈ ops → .call slot (some r') ∈ ops →
    r.epoch = r'.epoch → r.startedM = r'.startedM

theorem startedM_le_concat (h : Kept 0 s₁.c.bill) (hcall : s₁.c.call = .none)
    (hfew : (ops ++ [op]).length < 2 ^ 64) (hone : OneStart (ops ++ [op]))
    (hnote : noted (run s₁ ops) op = some note) :
    (run s₁ (ops ++ [op])).c.call.protocol = note.protocol ∧
      note.record.startedM ≤ (run s₁ (ops ++ [op])).c.call.startedM ∧
      ((run s₁ ops).c.call.protocol = note.protocol →
        (run s₁ ops).c.call.startedM ≤ (run s₁ (ops ++ [op])).c.call.startedM) := by
  rw [length_append, length_singleton] at hfew
  obtain ⟨hkept, htells⟩ := kept_run h hcall ops (Nat.lt_of_succ_lt hfew)
  obtain ⟨hop, hprotocol, hne⟩ := of_noted hnote
  have hstart (hp : (run s₁ ops).c.call.protocol = note.protocol)
      (hsame : note.Same (run s₁ ops).c.call) :
      (run s₁ ops).c.call.startedM = note.record.startedM := by
    rcases htells with hnone | ⟨pre, op', post, note', hops, hnote', htuple, -⟩
    · exact absurd (hp.symm.trans (congrArg SearchCall.protocol hnone)) hne
    have hop' := (of_noted hnote').1
    rw [CallNote.Same, htuple] at hsame
    rw [htuple]
    refine hone note.slot note'.record note.record ?_ ?_ hsame.2
    · rw [← hsame.1, hops]
      exact mem_append_left _ (mem_append_right _ (hop' ▸ mem_cons_self))
    · exact mem_append_right _ (hop ▸ mem_cons_self)
  have hrenews := (steps_perform hfew hkept op).carries
  rw [Carries, hnote, ← run_concat] at hrenews
  rcases hrenews with ⟨heq, hp, hlater⟩ | ⟨hnew, hle⟩
  · rw [heq]
    exact ⟨hp, hlater.elim le_of_lt fun hsame => (hstart hp hsame).ge, fun _ => le_rfl⟩
  · rw [hnew]
    exact ⟨hprotocol, le_rfl, fun hp => (hle hp).elim (fun hsame => (hstart hp hsame).le) id⟩

theorem startedM_le_run (h : Kept 0 s₁.c.bill) (hcall : s₁.c.call = .none) {pre : List Op}
    (hnote : noted (run s₁ pre) op = some note) (post : List Op)
    (hfew : (pre ++ op :: post).length < 2 ^ 64) (hone : OneStart (pre ++ op :: post))
    (hsince : ∀ mid, mid <+: post →
      (run s₁ (pre ++ op :: mid)).c.call.protocol = note.protocol) :
    note.record.startedM ≤ (run s₁ (pre ++ op :: post)).c.call.startedM := by
  induction post using List.reverseRecOn with
  | nil => exact (startedM_le_concat h hcall hfew hone hnote).2.1
  | append_singleton post op' ih =>
    have happend : pre ++ op :: (post ++ [op']) = (pre ++ op :: post) ++ [op'] := by
      rw [append_assoc, cons_append]
    rw [happend] at hfew hone ⊢
    have hfew' := hfew
    rw [length_append, length_singleton] at hfew'
    have hle : note.record.startedM ≤ (run s₁ (pre ++ op :: post)).c.call.startedM := by
      refine ih (Nat.lt_of_succ_lt hfew') (fun slot r r' hr hr' => ?_) fun mid hmid => ?_
      · exact hone slot r r' (mem_append_left _ hr) (mem_append_left _ hr')
      · exact hsince mid (hmid.trans (prefix_append post [op']))
    refine hle.trans ?_
    have hbefore := hsince post (prefix_append post [op'])
    have hafter := hsince (post ++ [op']) prefix_rfl
    rw [happend] at hafter
    obtain ⟨hkept, -⟩ := kept_run h hcall (pre ++ op :: post) (Nat.lt_of_succ_lt hfew')
    have hcarries := (steps_perform hfew' hkept op').carries
    rw [← run_concat] at hcarries
    unfold Carries at hcarries
    split at hcarries
    · rename_i note' hnote'
      obtain ⟨hp, -, hmono⟩ := startedM_le_concat h hcall hfew hone hnote'
      exact hmono (hbefore.trans (hafter.symm.trans hp))
    · rcases hcarries with heq | hnone
      · rw [heq]
      · exact absurd (hafter.symm.trans (congrArg SearchCall.protocol hnone)) (of_noted hnote).2.2

/-- The hits a search has published are whole: they stand in blocks, which end once. -/
structure Coord.Whole (c : Coord) : Prop where
  blocks : c.published.IsChain Hit.Follows
  ended : ∀ p ∈ c.published, p.hitId ≠ c.hit.hitId ∨ c.hit.Over →
    ∃ e ∈ c.published, e.hitId = p.hitId ∧ e.ended = true
  left : c.bill.Left → c.hit.Over
  final : ∀ e ∈ c.published, e.hitId = c.hit.hitId → e.ended = true → e = c.hit
  shows : belongs c.call.protocol c.hit.protocol = true → c.hit.Shows c.call

theorem Kept.whole {c : Coord} (h : Kept n c.bill) : c.Whole := by
  refine ⟨h.billed.chain, fun p hp hover => ?_, h.left, fun e he hid hended => ?_, h.billed.shows⟩
  all_goals rcases h.billed.last with ⟨-, hnone⟩ | ⟨hne, q, rest, hpublished, hq, hlast, hfinal⟩
  · exact absurd ((show c.published = [] from hnone) ▸ hp) not_mem_nil
  · have hchain := h.billed.chain
    change c.published = q :: rest at hpublished
    rw [hpublished] at hp ⊢
    rcases ended_of_chain (hpublished ▸ hchain) hp with hsame | ⟨-, e, he, hrest⟩
    · have hcurrent : p.hitId = c.hit.hitId := hsame.trans hq
      refine ⟨q, mem_cons_self, hsame.symm, hlast.trans ?_⟩
      exact (hover.resolve_left (not_not.mpr hcurrent)).resolve_left hne
    · exact ⟨e, mem_cons_of_mem _ he, hrest⟩
  · exact absurd ((show c.published = [] from hnone) ▸ he) not_mem_nil
  · have hchain := h.billed.chain
    change c.published = q :: rest at hpublished
    rw [hpublished] at he
    rcases mem_cons.mp he with rfl | he
    · exact hfinal hended
    · have hopen := unended_of_chain (hpublished ▸ hchain) he (hid.trans hq.symm)
      exact absurd (hopen.symm.trans hended) nofun

/-- In a run of a search session the published hits are whole. A tune back to the session is
queued only once the hit has ended. The tuple is of a record noted on the hit, the latest noted
since it has been of its protocol. -/
theorem hits_published_whole (s₀ : State) (hidle : s₀.c.phase = .stopped) (config : Config)
    (hstart : (searchStart config s₀).1 = 0) (ops : List Op) (hfew : ops.length < 2 ^ 64) :
    let s₁ := (searchStart config s₀).2
    let s := run s₁ ops
    s.c.Whole ∧
    (∀ pre op post, ops = pre ++ op :: post → (run s₁ pre).c.restoreQueued = false →
      (run s₁ (pre ++ [op])).c.restoreQueued = true → (run s₁ (pre ++ [op])).c.hit.Over) ∧
    (s.c.call = .none ∨ Tells s₁ ops s.c.hit.hitId s.c.call) ∧
    (OneStart ops → ∀ pre op post note, ops = pre ++ op :: post →
      noted (run s₁ pre) op = some note →
      (∀ mid, mid <+: post → (run s₁ (pre ++ op :: mid)).c.call.protocol = note.protocol) →
      note.record.startedM ≤ s.c.call.startedM) := by
  intro s₁ s
  obtain ⟨h₁, hcall⟩ : Kept 0 s₁.c.bill ∧ s₁.c.call = .none := by
    rcases wp_searchStart_bill config s₀ with
      ⟨-, hrc⟩ | ⟨saved, frequency, airspy, now, hfresh⟩ | ⟨hp, -⟩
    · exact absurd hstart hrc
    · rw [show s₁.c.bill = _ from hfresh]
      exact ⟨kept_fresh config saved frequency airspy now, congrArg (·.issue.call) hfresh⟩
    · exact absurd (hidle.symm.trans hp) nofun
  obtain ⟨hkept, htells⟩ := kept_run h₁ hcall ops hfew
  refine ⟨hkept.whole, fun pre op post hops hno hyes =>
    ?_, htells, fun hone pre op post note hops => ?_⟩
  · have hlength : pre.length + 1 < 2 ^ 64 := by
      rw [hops, length_append, length_cons] at hfew
      omega
    rw [run_concat] at hyes ⊢
    obtain ⟨hbefore, -⟩ := kept_run h₁ hcall pre (Nat.lt_of_succ_lt hlength)
    refine ((steps_perform hlength hbefore op).queued hyes).resolve_left fun hqueued => ?_
    exact absurd (hno.symm.trans hqueued) nofun
  · intro hnote hsince
    subst hops
    exact startedM_le_run h₁ hcall hnote post hfew hone hsince

/-- The answers of a radio whose first channel is tuned to, measured and tuned to again. -/
def channelAnswer (n : ℕ) : Answer :=
  let idle : Answer := { radioAnswer 0 with allowed := true }
  if n < 15 then idle
  else if n < 34 then
    { idle with
      outputGeneration := 2
      captureGet := some ⟨2400000, 450896000, 2, 0⟩
      measureGet := 1
      reportSession := 1
      reportRequest := 1
      reportGeneration := 2
      verdict := fun i => ⟨-20, -80, i = 0, true⟩ }
  else { idle with outputGeneration := 3, captureGet := some ⟨2400000, 450000000, 3, 0⟩ }

/-- A decoder with no search on that radio. -/
def channelDecoder : State := { idleDecoder 0 with answers := channelAnswer }

/-- Evidence with no identifier. -/
def evidenceOf (protocol : String) : Op := .evidence (ascii protocol) 0 0 []

/-- A note of an active DMR call. -/
def dmrCall (slot : ℕ) (startedM : ℚ) : Op :=
  .call slot (some { CallState.Record.cleared with
    epoch := 1, phase := .active, protocol := 10, startedM := startedM })

/-- A visit on which P25 is identified between two DMR calls. -/
def mistakenVisit : List Op :=
  [.tick, .tick, .tick, .tick, evidenceOf "DMR", dmrCall 0 10, evidenceOf "P25", evidenceOf "DMR",
    dmrCall 1 5]

theorem oneStart_mistakenVisit : OneStart mistakenVisit := by
  intro slot r r' hr hr' _
  simp only [mistakenVisit, evidenceOf, dmrCall, mem_cons, reduceCtorEq, Op.call.injEq,
    Option.some.injEq, not_mem_nil, false_or, or_false] at hr hr'
  rcases hr, hr' with ⟨⟨rfl, rfl⟩ | ⟨rfl, rfl⟩, ⟨hslot, rfl⟩ | ⟨hslot, rfl⟩⟩
  · rfl
  · exact nomatch hslot
  · exact nomatch hslot
  · rfl

set_option maxRecDepth 20000 in
/-- The hits of that visit are whole. -/
theorem hits_published_whole_mistaken :
    (run (searchStart twoChannelConfig channelDecoder).2 mistakenVisit).c.Whole :=
  (hits_published_whole channelDecoder rfl twoChannelConfig (by decide) mistakenVisit (by decide)).1

set_option maxRecDepth 20000 in
/-- A visit takes the tuple of an older call once another protocol was identified in between. -/
theorem older_call_shown :
    ¬ ∀ (s₀ : State) (config : Config) (pre : List Op) (op : Op) (post : List Op) (note : CallNote),
      s₀.c.phase = .stopped → (searchStart config s₀).1 = 0 → OneStart (pre ++ op :: post) →
      let s₁ := (searchStart config s₀).2
      let c := (run s₁ (pre ++ op :: post)).c
      noted (run s₁ pre) op = some note → (run s₁ pre).c.hit.hitId = c.hit.hitId →
      c.visit = true → note.protocol = c.call.protocol →
      belongs c.call.protocol c.hit.protocol = true →
      note.record.startedM ≤ c.call.startedM := by
  intro h
  have hle := h channelDecoder twoChannelConfig (mistakenVisit.take 5) (dmrCall 0 10)
    (mistakenVisit.drop 6) ⟨0, _, ascii "DMR"⟩ rfl (by decide) oneStart_mistakenVisit rfl
      (by decide)
    (by decide) (by decide) (by decide)
  exact absurd hle (by decide)

end DsdNeo.SignalSearch
