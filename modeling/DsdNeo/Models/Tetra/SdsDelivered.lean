import DsdNeo.Models.Tetra.SdsKept

/-!
# Every message is delivered

While no more messages are open than there are contexts, each open message has its own
context with all of its parts so far. So the last part that was missing delivers it.
-/

namespace DsdNeo.Tetra.Sds

open List

/-- A message as its sender cut it. -/
structure Sent where
  total : ℕ
  data : ℕ → List Bool
  pid : ℕ

/-- A part of what was sent under its key. -/
structure Part.Of (p : Part) (sent : Key → Sent) : Prop where
  total : p.total = (sent p.key).total
  data : p.data = (sent p.key).data p.sequence
  pid : p.sequence = 1 → p.payloadPid = some (sent p.key).pid

/-- Parts with their times, in the order they arrive. -/
abbrev Mail := List (BitVec 64 × Part)

/-- The run of a mail, with memory for every part. -/
def Mail.steps (mail : Mail) : List Step := mail.map fun a => .submit {} a.1 a.2

/-- The parts of a message in a mail. -/
def heard (key : Key) (mail : Mail) : Mail := mail.filter fun a => a.2.key = key

/-- Every part of the message has arrived. -/
def Complete (sent : Key → Sent) (mail : Mail) (key : Key) : Prop :=
  Whole (sent key).total ((heard key mail).map Prod.snd)

instance (sent : Key → Sent) (mail : Mail) (key : Key) : Decidable (Complete sent mail key) :=
  inferInstanceAs (Decidable (Whole _ _))

/-- Some parts of the message have arrived, and not all. -/
def Incomplete (sent : Key → Sent) (mail : Mail) (key : Key) : Prop :=
  heard key mail ≠ [] ∧ ¬ Complete sent mail key

/-- Whole messages under distinct keys, interleaved: their parts in any order, repeated at
most until the last missing part, no more of them open than there are contexts. -/
structure Interleaving (sent : Key → Sent) (mail : Mail) : Prop where
  of : ∀ a ∈ mail, a.2.Of sent
  whole : ∀ a ∈ mail, Complete sent mail a.2.key
  repeats : ∀ before a after, mail = before ++ a :: after → ¬ Complete sent before a.2.key
  room : ∀ before after, mail = before ++ after → ∀ keys : List Key, keys.Nodup →
    (∀ k ∈ keys, Incomplete sent before k) → keys.length ≤ 4
  spaced : ∀ key, (heard key mail).IsChain Near
  steady : mail.Pairwise fun a b => a.1.toNat ≤ b.1.toNat

/-- What a part delivers after a mail. -/
def delivers (before : Mail) (a : BitVec 64 × Part) : Option Message :=
  ((Step.submit {} a.1 a.2).apply (run before.steps)).2

/-- The message as it was sent. -/
def Sent.message (s : Sent) : Message := ⟨s.pid, joined s.total s.data⟩

theorem heard_append (key : Key) (a b : Mail) : heard key (a ++ b) = heard key a ++ heard key b :=
  filter_append ..

variable {a : BitVec 64 × Part} {key : Key}

theorem heard_mine (h : a.2.key = key) (mail : Mail) :
    heard key (mail ++ [a]) = heard key mail ++ [a] := by
  rw [heard_append]
  simp [heard, h]

theorem heard_other (h : a.2.key ≠ key) (mail : Mail) :
    heard key (mail ++ [a]) = heard key mail := by
  rw [heard_append]
  simp [heard, h]

variable {mail : Mail}

theorem mem_heard : a ∈ heard key mail ↔ a ∈ mail ∧ a.2.key = key := by
  simp [heard]

variable {sent : Key → Sent}

/-- Parts that have arrived stay arrived. -/
theorem Complete.append (h : Complete sent mail key) (more : Mail) :
    Complete sent (mail ++ more) key := by
  intro n hn
  obtain ⟨p, hp, hseq⟩ := mem_sequences.mp (h hn)
  refine mem_sequences.mpr ⟨p, ?_, hseq⟩
  rw [heard_append, map_append]
  exact mem_append_left _ hp

/-- A part of another message changes nothing for this one. -/
theorem incomplete_other (h : a.2.key ≠ key) :
    Incomplete sent (mail ++ [a]) key ↔ Incomplete sent mail key := by
  unfold Incomplete Complete
  rw [heard_other h]

theorem not_whole_singleton (p : Part) : ¬ Whole p.total [p] := by
  intro whole
  have two := p.wellFormed.two_le
  have first : (1 : ℕ) ∈ sequences [p] := whole (Finset.mem_Icc.mpr ⟨Nat.le_refl 1, by omega⟩)
  have second : (2 : ℕ) ∈ sequences [p] := whole (Finset.mem_Icc.mpr ⟨by decide, two⟩)
  simp only [sequences, map_cons, map_nil, toFinset_cons, toFinset_nil,
    insert_empty_eq, Finset.mem_singleton] at first second
  omega

/-- A context holds all parts heard of a message that is open. -/
structure Serves (sent : Key → Sent) (mail : Mail) (c : Ctx) : Prop where
  only : Incomplete sent mail c.key
  holds : c.Holds ((heard c.key mail).map Prod.snd)
  total : c.total = (sent c.key).total
  last : ∀ a ∈ (heard c.key mail).getLast?, a.1 = c.updatedMs

/-- Each context in use serves an open message; each open message has one. -/
structure Exact (sent : Key → Sent) (mail : Mail) (store : Store) : Prop where
  has : ∀ key, Incomplete sent mail key → ∃ i, (store i).valid = true ∧ (store i).key = key
  serves : ∀ i, (store i).valid = true → Serves sent mail (store i)
  apart : ∀ i j, (store i).valid = true → (store j).valid = true →
    (store i).key = (store j).key → i = j

theorem exact_empty (sent : Key → Sent) : Exact sent [] emptyStore where
  has := fun _ h => absurd rfl h.1
  serves := fun _ h => (nomatch h)
  apart := fun _ _ h => (nomatch h)

section Part

variable {sent : Key → Sent} {mail before after : Mail} {a : BitVec 64 × Part} {store : Store}

theorem Exact.not_idle (exact : Exact sent before store) (inter : Interleaving sent mail)
    (split : mail = before ++ a :: after) (i : Fin 4) : ¬ (store i).Idle a.1 := by
  rintro ⟨valid, long⟩
  have opened := (exact.serves i valid).only
  have last := (exact.serves i valid).last
  generalize (store i).key = key at opened last
  -- the message is whole in the end, so a part of it is still to come
  have coming : heard key (a :: after) ≠ [] := by
    intro none
    obtain ⟨b, hb⟩ := exists_mem_of_ne_nil _ opened.1
    obtain ⟨inMail, same⟩ := mem_heard.mp hb
    have whole := inter.whole b (by rw [split]; exact mem_append_left _ inMail)
    rw [same] at whole
    refine opened.2 ?_
    unfold Complete at whole ⊢
    rwa [split, heard_append, none, append_nil] at whole
  obtain ⟨b, rest, hb⟩ := exists_cons_of_ne_nil coming
  obtain ⟨c, hc⟩ := Option.isSome_iff_exists.mp (getLast?_isSome.mpr opened.1)
  have spaced := inter.spaced key
  rw [split, heard_append, hb] at spaced
  have near : Near c b := (isChain_append.mp spaced).2.2 c hc b rfl
  have steady := inter.steady
  rw [split] at steady
  have inBefore := (mem_heard.mp (mem_of_getLast? hc)).1
  have le : c.1.toNat ≤ a.1.toNat :=
    (pairwise_append.mp steady).2.2 c inBefore a mem_cons_self
  have soon : a.1.toNat ≤ b.1.toNat := by
    have hb' : b ∈ a :: after := (mem_heard.mp (hb ▸ mem_cons_self : b ∈ heard key _)).1
    rcases mem_cons.mp hb' with rfl | hb'
    · exact Nat.le_refl _
    · exact (pairwise_cons.mp (pairwise_append.mp steady).2.1).1 b hb'
  rw [← last c hc, BitVec.toNat_sub_of_le (by exact le)] at long
  have := near
  unfold Near at this
  omega

/-- A message not open has not been heard of. -/
theorem Interleaving.heard_nil (inter : Interleaving sent mail)
    (split : mail = before ++ a :: after) (closed : ¬ Incomplete sent before a.2.key) :
    heard a.2.key before = [] := by
  by_contra some
  exact closed ⟨some, inter.repeats before a after split⟩

theorem Exact.free (exact : Exact sent before store) (inter : Interleaving sent mail)
    (split : mail = before ++ a :: after) (closed : ¬ Incomplete sent before a.2.key) :
    ∃ i, (store i).valid = false := by
  by_contra none
  have full (i : Fin 4) : (store i).valid = true := by
    by_contra h
    exact none ⟨i, by simpa using h⟩
  have other (i : Fin 4) : a.2.key ≠ (store i).key := fun same =>
    closed (same ▸ (exact.serves i (full i)).only)
  have begins : Incomplete sent (before ++ [a]) a.2.key := by
    have empty := inter.heard_nil split closed
    have mine := (inter.of a (by rw [split]; simp)).total
    unfold Incomplete Complete
    rw [heard_mine rfl, empty, ← mine]
    exact ⟨cons_ne_nil _ _, not_whole_singleton a.2⟩
  have five := inter.room (before ++ [a]) after (by rw [split, append_assoc]; rfl)
    (a.2.key :: (List.finRange 4).map fun i => (store i).key) ?_ ?_
  · simp at five
  · refine nodup_cons.mpr ⟨fun mem => ?_, ?_⟩
    · obtain ⟨i, _, same⟩ := mem_map.mp mem
      exact other i same.symm
    · refine (nodup_finRange 4).map_on fun i _ j _ same => ?_
      exact exact.apart i j (full i) (full j) same
  · intro key hkey
    rcases mem_cons.mp hkey with rfl | mem
    · exact begins
    · obtain ⟨i, _, rfl⟩ := mem_map.mp mem
      exact (incomplete_other (other i)).mpr (exact.serves i (full i)).only

theorem Exact.slot (exact : Exact sent before store) (inter : Interleaving sent mail)
    (split : mail = before ++ a :: after) :
    let r := sdsConcatFind a.2 a.1 store
    (r.1 r.2).Holds ((heard a.2.key before).map Prod.snd) ∧ (r.1 r.2).key = a.2.key ∧
      (r.1 r.2).total = (sent a.2.key).total ∧ (∀ j ≠ r.2, r.1 j = store j) ∧
      ∀ j, (store j).valid = true → (store j).key = a.2.key → j = r.2 := by
  intro r
  have found : Found a.2 a.1 store r := sdsConcatFind_spec a.2 a.1 store
  have busy := exact.not_idle inter split
  have others (j : Fin 4) (hj : j ≠ r.2) : r.1 j = store j := by
    rcases found.others j hj with h | h
    · exact h
    · rw [h, kept_of_not_idle (busy j)]
  rcases found.slot with ⟨_, valid, key, same⟩ | ⟨fresh, miss, _, _⟩
  · rw [same, key]
    have holds := (exact.serves r.2 valid).holds
    have total := (exact.serves r.2 valid).total
    rw [key] at holds total
    exact ⟨holds, rfl, total, others, fun j vj kj => exact.apart j r.2 vj valid (by rw [kj, key])⟩
  · have closed : ¬ Incomplete sent before a.2.key := by
      intro opened
      obtain ⟨i, valid, key⟩ := exact.has a.2.key opened
      exact miss i (by rw [kept_of_not_idle (busy i)]; exact valid) key
    rw [fresh, inter.heard_nil split closed]
    refine ⟨holds_opened a.2, rfl, (inter.of a (by rw [split]; simp)).total, others,
      fun j vj kj => ?_⟩
    exact absurd (kj ▸ (exact.serves j vj).only) closed

/-- What was used in a slot that a message takes was its own. -/
theorem Exact.slot_free (exact : Exact sent before store) (inter : Interleaving sent mail)
    (split : mail = before ++ a :: after)
    (valid : (store (sdsConcatFind a.2 a.1 store).2).valid = true) :
    (store (sdsConcatFind a.2 a.1 store).2).key = a.2.key := by
  have found := sdsConcatFind_spec a.2 a.1 store
  have busy := exact.not_idle inter split
  generalize sdsConcatFind a.2 a.1 store = r at found valid ⊢
  rcases found.slot with ⟨_, _, key, _⟩ | ⟨_, miss, _, free⟩
  · exact key
  · have closed : ¬ Incomplete sent before a.2.key := by
      intro opened
      obtain ⟨i, valid, key⟩ := exact.has a.2.key opened
      exact miss i (by rw [kept_of_not_idle (busy i)]; exact valid) key
    obtain ⟨i, invalid⟩ := exact.free inter split closed
    have empty := free ⟨i, by rw [kept_of_not_idle (busy i)]; exact invalid⟩
    rw [kept_of_not_idle (busy r.2), valid] at empty
    cases empty

/-- What was heard of the message, and the part, were sent under its key. -/
theorem Interleaving.sentPart (inter : Interleaving sent mail)
    (split : mail = before ++ a :: after) :
    ∀ q ∈ (heard a.2.key before).map Prod.snd ++ [a.2], q.Of sent ∧ q.key = a.2.key := by
  intro q hq
  rcases mem_append.mp hq with hq | hq
  · obtain ⟨b, hb, rfl⟩ := mem_map.mp hq
    obtain ⟨inBefore, same⟩ := mem_heard.mp hb
    exact ⟨inter.of b (by rw [split]; exact mem_append_left _ inBefore), same⟩
  · cases mem_singleton.mp hq
    exact ⟨inter.of a (by rw [split]; simp), rfl⟩

variable {c : Ctx}

/-- The part suits what was heard of its message. -/
theorem Interleaving.suits (inter : Interleaving sent mail) (split : mail = before ++ a :: after)
    (total : c.total = (sent a.2.key).total) :
    c.Suits ((heard a.2.key before).map Prod.snd) a.2 := by
  have mine := (inter.sentPart split a.2 (by simp)).1
  refine ⟨mine.total.trans total.symm, fun q hq same => ?_⟩
  obtain ⟨of, sameKey⟩ := inter.sentPart split q (mem_append_left _ hq)
  rw [of.data, mine.data, sameKey, same]

theorem heard_snd : (heard a.2.key (before ++ [a])).map Prod.snd =
    (heard a.2.key before).map Prod.snd ++ [a.2] := by
  rw [heard_mine rfl, map_append]
  rfl

theorem complete_append (total : c.total = (sent a.2.key).total) :
    Complete sent (before ++ [a]) a.2.key ↔
      Whole c.total ((heard a.2.key before).map Prod.snd ++ [a.2]) := by
  unfold Complete
  rw [heard_snd, total]

/-- A message that a turn assembles is the one sent. -/
theorem Interleaving.message (inter : Interleaving sent mail) (split : mail = before ++ a :: after)
    {r : Ctx × Result × Option Message} (total : c.total = (sent a.2.key).total)
    (turned : Turned c ((heard a.2.key before).map Prod.snd) true a.1 a.2 r) {m : Message}
    (hm : r.2.2 = some m) : m = (sent a.2.key).message := by
  obtain ⟨_, _, bits, q, hq, one, pid⟩ := turned.message m hm
  have data := bits (sent a.2.key).data fun q hq => by
    obtain ⟨of, same⟩ := inter.sentPart split q hq
    rw [of.data, same]
  obtain ⟨of, same⟩ := inter.sentPart split q hq
  have named := of.pid one
  rw [pid, same] at named
  cases m
  unfold Sent.message
  rw [← total]
  exact congrArg₂ Message.mk (Option.some.inj named) data

/-- A turn empties the context with the last part, and otherwise tells of one more. -/
theorem Interleaving.turn (inter : Interleaving sent mail) (split : mail = before ++ a :: after)
    {r : Ctx × Result × Option Message} (total : c.total = (sent a.2.key).total)
    (turned : Turned c ((heard a.2.key before).map Prod.snd) true a.1 a.2 r) :
    (Complete sent (before ++ [a]) a.2.key → r.1 = {} ∧ r.2.2 = some (sent a.2.key).message) ∧
      (¬ Complete sent (before ++ [a]) a.2.key → r.1.valid = true ∧ r.2.2 = none) := by
  have suits := inter.suits split total
  by_cases fresh : a.2.sequence ∈ sequences ((heard a.2.key before).map Prod.snd)
  · have same := turned.repeated suits fresh
    refine ⟨fun complete => ?_, fun _ => same⟩
    refine absurd ?_ (inter.repeats before a after split)
    unfold Complete Whole at complete ⊢
    rw [heard_snd, sequences_append, Finset.insert_eq_of_mem fresh] at complete
    exact complete
  · have outcome := turned.suits suits fresh rfl
    refine ⟨fun complete => ?_, fun open' => ?_⟩
    · rw [if_pos ((complete_append total).mp complete)] at outcome
      obtain ⟨m, hm⟩ := Option.isSome_iff_exists.mp outcome.2
      exact ⟨outcome.1, by rw [hm, inter.message split total turned hm]⟩
    · rw [if_neg fun whole => open' ((complete_append total).mpr whole)] at outcome
      exact outcome

/-- A context still in use after a turn serves the message of the part. -/
theorem Interleaving.serves (inter : Interleaving sent mail) (split : mail = before ++ a :: after)
    {r : Ctx × Result × Option Message} (key : c.key = a.2.key)
    (total : c.total = (sent a.2.key).total)
    (turned : Turned c ((heard a.2.key before).map Prod.snd) true a.1 a.2 r)
    (valid : r.1.valid = true) : r.1.key = a.2.key ∧ Serves sent (before ++ [a]) r.1 := by
  obtain ⟨-, holds, sameKey, sameTotal, time⟩ := turned.ctx valid
  have same : r.1.key = a.2.key := sameKey.trans key
  refine ⟨same, ?_, ?_, ?_, ?_⟩
  · rw [same]
    refine ⟨by rw [heard_mine rfl]; simp, fun complete => ?_⟩
    rw [((inter.turn split total turned).1 complete).1] at valid
    cases valid
  · rw [same, heard_snd]
    exact holds
  · rw [same, sameTotal, total]
  · rw [same, heard_mine rfl, getLast?_append, getLast?_singleton]
    intro b hb
    cases hb
    exact time.symm

/-- A context of another message serves it still. -/
theorem Serves.other (h : Serves sent before c) (hkey : a.2.key ≠ c.key) :
    Serves sent (before ++ [a]) c where
  only := (incomplete_other hkey).mpr h.only
  holds := by
    rw [heard_other hkey]
    exact h.holds
  total := h.total
  last := by
    rw [heard_other hkey]
    exact h.last

/-- The context of the part's message is put in its slot. -/
theorem Exact.place (exact : Exact sent before store) {slot : Fin 4} {store' : Store}
    (others : ∀ j ≠ slot, store' j = store j)
    (only : ∀ j, (store j).valid = true → (store j).key = a.2.key → j = slot)
    (free : (store slot).valid = true → (store slot).key = a.2.key)
    (mine : (store' slot).valid = true →
      (store' slot).key = a.2.key ∧ Serves sent (before ++ [a]) (store' slot))
    (opened : Incomplete sent (before ++ [a]) a.2.key → (store' slot).valid = true) :
    Exact sent (before ++ [a]) store' where
  has key open' := by
    by_cases same : a.2.key = key
    · subst same
      exact ⟨slot, opened open', (mine (opened open')).1⟩
    · obtain ⟨i, valid, hkey⟩ := exact.has key ((incomplete_other same).mp open')
      have hi : i ≠ slot := by
        rintro rfl
        exact same ((free valid).symm.trans hkey)
      rw [← others i hi] at valid hkey
      exact ⟨i, valid, hkey⟩
  serves j valid := by
    by_cases hj : j = slot
    · subst hj
      exact (mine valid).2
    · rw [others j hj] at valid ⊢
      exact (exact.serves j valid).other fun same => hj (only j valid same.symm)
  apart i j vi vj same := by
    have away {k : Fin 4} (hk : k ≠ slot) (vk : (store' k).valid = true) :
        (store' k).key ≠ a.2.key := by
      rw [others k hk] at vk ⊢
      exact fun hkey => hk (only k vk hkey)
    by_cases hi : i = slot <;> by_cases hj : j = slot
    · rw [hi, hj]
    · subst hi
      exact absurd (same.symm.trans (mine vi).1) (away hj vj)
    · subst hj
      exact absurd (same.trans (mine vj).1) (away hi vi)
    · rw [others i hi] at vi same
      rw [others j hj] at vj same
      exact exact.apart i j vi vj same

/-- A part delivers its message where it completes it, and the contexts serve the open messages. -/
theorem Exact.submit (exact : Exact sent before store) (inter : Interleaving sent mail)
    (split : mail = before ++ a :: after) :
    Exact sent (before ++ [a]) (store.submit true a.1 a.2).1 ∧
      (store.submit true a.1 a.2).2.2 =
        if Complete sent (before ++ [a]) a.2.key then some (sent a.2.key).message else none := by
  obtain ⟨holds, key, total, others, only⟩ := exact.slot inter split
  have slotFree := exact.slot_free inter split
  unfold Store.submit
  generalize sdsConcatFind a.2 a.1 store = r at holds key total others only slotFree
  have turned := holds.submit key.symm true a.1
  have turn := inter.turn split total turned
  have at_slot : Function.update r.1 r.2 ((r.1 r.2).submit true a.1 a.2).1 r.2 =
      ((r.1 r.2).submit true a.1 a.2).1 := Function.update_self ..
  refine ⟨exact.place (fun j hj => ?_) only slotFree (fun valid => ?_) fun open' => ?_, ?_⟩
  · exact (Function.update_of_ne hj _ _).trans (others j hj)
  · dsimp only at valid ⊢
    rw [at_slot] at valid ⊢
    exact inter.serves split key total turned valid
  · dsimp only
    rw [at_slot]
    exact (turn.2 open'.2).1
  · dsimp only
    split
    · rename_i complete
      exact (turn.1 complete).2
    · rename_i open'
      exact (turn.2 open').2

end Part

/-- With memory, a part goes to the contexts, allocated or not. -/
theorem apply_submit (nowMs : BitVec 64) (p : Part) (ts : Option Store) :
    (Step.submit {} nowMs p).apply ts =
      (some ((contents ts).submit true nowMs p).1, ((contents ts).submit true nowMs p).2.2) := by
  cases ts <;> rfl

/-- Through a mail the contexts are those of the open messages. -/
theorem exact_run (inter : Interleaving sent mail) (before after : Mail)
    (split : mail = before ++ after) : Exact sent before (contents (run before.steps)) := by
  induction before using List.reverseRecOn generalizing after with
  | nil => exact exact_empty sent
  | append_singleton before a ih =>
    have split' : mail = before ++ a :: after := by rw [split, append_assoc]; rfl
    have steps : Mail.steps (before ++ [a]) = Mail.steps before ++ [.submit {} a.1 a.2] :=
      map_append
    rw [steps, run_append_singleton, apply_submit]
    exact ((ih (a :: after) split').submit inter split').1

theorem delivers_eq (inter : Interleaving sent mail) {before after : Mail}
    (split : mail = before ++ a :: after) :
    delivers before a =
      if Complete sent (before ++ [a]) a.2.key then some (sent a.2.key).message else none := by
  have exact' := exact_run inter before (a :: after) split
  unfold delivers
  rw [apply_submit]
  exact (exact'.submit inter split).2

/-- A whole mail has a part with which a message of it becomes complete. -/
theorem exists_last (mail : Mail) (total : 1 ≤ (sent key).total)
    (complete : Complete sent mail key) :
    ∃ before a after, mail = before ++ a :: after ∧ a.2.key = key ∧
      ¬ Complete sent before key ∧ Complete sent (before ++ [a]) key := by
  induction mail using List.reverseRecOn with
  | nil =>
    have one := complete (Finset.mem_Icc.mpr ⟨Nat.le_refl 1, total⟩)
    simp [sequences, heard] at one
  | append_singleton mail a ih =>
    by_cases earlier : Complete sent mail key
    · obtain ⟨before, b, after, rfl, rest⟩ := ih earlier
      exact ⟨before, b, after ++ [a], by rw [append_assoc]; rfl, rest⟩
    · refine ⟨mail, a, [], rfl, ?_, earlier, complete⟩
      by_contra other
      refine earlier ?_
      unfold Complete at complete ⊢
      rwa [heard_other other] at complete

theorem each_message_delivered_once (inter : Interleaving sent mail)
    (mailed : heard key mail ≠ []) :
    ∃ before a after, mail = before ++ a :: after ∧ a.2.key = key ∧
      ¬ Complete sent before key ∧ Complete sent (before ++ [a]) key ∧
      delivers before a = some (sent key).message ∧
      ∀ before' a' after', mail = before' ++ a' :: after' → a'.2.key = key →
        delivers before' a' ≠ none → before' = before := by
  obtain ⟨b, hb⟩ := exists_mem_of_ne_nil _ mailed
  obtain ⟨inMail, rfl⟩ := mem_heard.mp hb
  have total : 1 ≤ (sent b.2.key).total := by
    rw [← (inter.of b inMail).total]
    have := b.2.wellFormed.two_le
    omega
  obtain ⟨before, a, after, split, same, open', complete⟩ :=
    exists_last mail total (inter.whole b inMail)
  refine ⟨before, a, after, split, same, open', complete, ?_,
    fun before' a' after' split' same' gives => ?_⟩
  · rw [delivers_eq inter split, same, if_pos complete]
  · have complete' : Complete sent (before' ++ [a']) b.2.key := by
      by_contra h
      rw [delivers_eq inter split', same', if_neg h] at gives
      exact gives rfl
    -- after a message is whole no part of it comes again
    have late {x y : Mail} {c d : BitVec 64 × Part} {rest rest' : Mail}
        (hx : mail = x ++ c :: rest) (hy : mail = y ++ d :: rest')
        (whole : Complete sent (x ++ [c]) b.2.key) (key : d.2.key = b.2.key) :
        y.length ≤ x.length := by
      by_contra longer
      have reach : x ++ [c] <+: y := by
        have first : x ++ [c] <+: mail := ⟨rest, by rw [hx]; simp⟩
        refine prefix_of_prefix_length_le first ⟨d :: rest', hy.symm⟩ ?_
        rw [length_append, length_singleton]
        omega
      obtain ⟨more, rfl⟩ := reach
      refine inter.repeats _ d rest' hy ?_
      rw [key]
      exact whole.append more
    have le := late split split' complete same'
    have ge := late split' split complete' same
    have both : before' <+: before :=
      prefix_of_prefix_length_le ⟨a' :: after', split'.symm⟩ ⟨a :: after, split.symm⟩ le
    exact both.eq_of_length (by omega)

/-- Reassembly neither mixes nor loses messages: what a step of any run assembles is made of
the parts of one message in one stretch of it, and of an interleaving of whole messages each
is delivered once, with its last missing part. -/
theorem reassembly_mixes_and_loses_nothing :
    (∀ (steps : List Step) (memory : Memory) (nowMs : BitVec 64) (p : Part) (m : Message),
      Steady (steps ++ [.submit memory nowMs p]) →
      ((Step.submit memory nowMs p).apply (run steps)).2 = some m →
      ∃ before collected, steps ++ [.submit memory nowMs p] = before ++ collected ∧
        Delivered collected p m) ∧
    ∀ (sent : Key → Sent) (mail : Mail), Interleaving sent mail → ∀ key, heard key mail ≠ [] →
      ∃ before a after, mail = before ++ a :: after ∧ a.2.key = key ∧
        ¬ Complete sent before key ∧ Complete sent (before ++ [a]) key ∧
        delivers before a = some (sent key).message ∧
        ∀ before' a' after', mail = before' ++ a' :: after' → a'.2.key = key →
          delivers before' a' ≠ none → before' = before :=
  ⟨fun steps memory nowMs p m steady gives =>
      message_of_one_stretch steps memory nowMs p steady m gives,
    fun _ _ inter _ mailed => each_message_delivered_once inter mailed⟩

/-- The key of one of two messages of a sender. -/
def referenceKey (reference : ℕ) : Key := ⟨⟨1001, 0, 1⟩, reference, true⟩

/-- A message of four bits in two parts, which tell the reference. -/
def twoPartMessage (key : Key) : Sent := ⟨2, fun i => [i = 1, key.reference = 5], 130⟩

/-- Its parts. -/
def messagePart (reference sequence : ℕ) (one : 1 ≤ sequence) (two : sequence ≤ 2) : Part where
  src := ⟨1001, 0, 1⟩
  reference := reference
  withTransport := true
  total := 2
  sequence := sequence
  payloadPid := if sequence = 1 then some 130 else none
  data := [sequence = 1, reference = 5]
  wellFormed := ⟨by decide, by decide, one, two, by simp, by
    by_cases h : sequence = 1
    · simp [h]
    · simp [h]⟩

/-- Two messages by turns, the second part of each first. -/
def mixedMail : Mail :=
  [(0, messagePart 5 2 (by decide) (by decide)), (500, messagePart 6 2 (by decide) (by decide)),
    (1000, messagePart 5 1 (by decide) (by decide)),
      (1500, messagePart 6 1 (by decide) (by decide))]

/-- Every part of it is of one of the two messages. -/
theorem key_of_mem_mixedMail (h : a ∈ mixedMail) :
    a.2.key = referenceKey 5 ∨ a.2.key = referenceKey 6 := by
  simp only [mixedMail, mem_cons, not_mem_nil, or_false] at h
  rcases h with rfl | rfl | rfl | rfl
  · exact .inl rfl
  · exact .inr rfl
  · exact .inl rfl
  · exact .inr rfl

theorem interleaving_mixedMail : Interleaving twoPartMessage mixedMail where
  of := by
    intro a ha
    simp only [mixedMail, mem_cons, not_mem_nil, or_false] at ha
    rcases ha with rfl | rfl | rfl | rfl <;> exact ⟨rfl, rfl, by decide⟩
  whole := by
    intro a ha
    rcases key_of_mem_mixedMail ha with key | key
    · rw [key]
      decide
    · rw [key]
      decide
  repeats := by
    intro before a after split
    rcases before with _ | ⟨x, _ | ⟨y, _ | ⟨z, _ | ⟨u, rest⟩⟩⟩⟩
    all_goals simp only [mixedMail, cons_append, nil_append, List.cons.injEq] at split
    · obtain ⟨rfl, -⟩ := split
      decide
    · obtain ⟨rfl, rfl, -⟩ := split
      decide
    · obtain ⟨rfl, rfl, rfl, -⟩ := split
      decide
    · obtain ⟨rfl, rfl, rfl, rfl, -⟩ := split
      decide
    · simp at split
  room := by
    intro before after split keys nodup open'
    have two : keys ⊆ [referenceKey 5, referenceKey 6] := by
      intro key hkey
      obtain ⟨b, hb⟩ := exists_mem_of_ne_nil _ (open' key hkey).1
      obtain ⟨inBefore, same⟩ := mem_heard.mp hb
      have mine := key_of_mem_mixedMail (by rw [split]; exact mem_append_left _ inBefore)
      rw [same] at mine
      simpa using mine
    have few := (subperm_of_subset nodup two).length_le
    simp only [length_cons, length_nil] at few
    omega
  spaced := by
    intro key
    by_cases five : key = referenceKey 5
    · subst five
      exact .cons_cons (by show (1000 : ℕ) ≤ 0 + 300000; decide) (.singleton _)
    by_cases six : key = referenceKey 6
    · subst six
      exact .cons_cons (by show (1500 : ℕ) ≤ 500 + 300000; decide) (.singleton _)
    have none : heard key mixedMail = [] := by
      refine eq_nil_iff_forall_not_mem.mpr fun a ha => ?_
      obtain ⟨inMail, same⟩ := mem_heard.mp ha
      rcases key_of_mem_mixedMail inMail with mine | mine
      · exact five (same.symm.trans mine)
      · exact six (same.symm.trans mine)
    rw [none]
    exact .nil
  steady := by simp [mixedMail]

/-- The parts of the second message deliver it, between those of the first. -/
theorem mixedMail_delivered :
    ∃ before a after, mixedMail = before ++ a :: after ∧ a.2.key = referenceKey 6 ∧
      ¬ Complete twoPartMessage before (referenceKey 6) ∧
      Complete twoPartMessage (before ++ [a]) (referenceKey 6) ∧
      delivers before a = some (twoPartMessage (referenceKey 6)).message ∧
      ∀ before' a' after', mixedMail = before' ++ a' :: after' →
        a'.2.key = referenceKey 6 → delivers before' a' ≠ none → before' = before :=
  reassembly_mixes_and_loses_nothing.2 twoPartMessage mixedMail interleaving_mixedMail
    (referenceKey 6) (by decide)

end DsdNeo.Tetra.Sds
