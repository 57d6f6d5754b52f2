import DsdNeo.Models.Tetra.Reassembly

/-!
# Whole TM-SDUs

What a log that ends in a TM-SDU under way looks like from its start, and so what every
TM-SDU delivered in a run was put together from.
-/

namespace DsdNeo.Tetra.Mac

open List

/-- The bits a piece of this timeslot adds. -/
def Entry.content (lane : ℕ) : Entry → List Bool
  | .pdu l _ (.piece _ (some c)) => if l = lane then c else []
  | _ => []

/-- What stands between the start and the end of a TM-SDU: pieces of its timeslot and colour
code, nothing that breaks it up, and never four slots without a piece, of the gaps between blocks
those that are counted. -/
structure Unbroken (counted : ℕ → Bool) (lane : ℕ) (cc : BitVec 6) (mid : List Entry) : Prop where
  continues : ∀ e ∈ mid, e.Harmless lane ∨ ∃ c, e = .pdu lane cc (.piece false (some c))
  steady : ∀ pre between post, mid = pre ++ between ++ post → (∀ e ∈ between, e.Harmless lane) →
    (between.map (Entry.idle counted lane)).sum < 8

/-- Harmless entries add no bits. -/
theorem Entry.Harmless.content_eq_nil {lane : ℕ} {e : Entry} (h : e.Harmless lane) :
    e.content lane = [] := by
  unfold Entry.content
  split
  · rename_i l cc last c
    split
    · rename_i hlane
      cases h hlane
    · rfl
  · rfl

theorem not_harmless_piece (lane : ℕ) (cc : BitVec 6) (last : Bool) (c : Option (List Bool)) :
    ¬ Entry.Harmless lane (.pdu lane cc (.piece last c)) :=
  fun h => nomatch h rfl

/-- A stretch at the end of a longer list ends with its last entry or is within the shorter. -/
theorem append_singleton_eq_append_append {α : Type} {mid : List α} {e : α}
    {pre between post : List α}
    (h : mid ++ [e] = pre ++ between ++ post) :
    between = [] ∨ (∃ init, between = init ++ [e] ∧ post = [] ∧ mid = pre ++ init) ∨
      ∃ init, mid = pre ++ between ++ init := by
  rcases eq_nil_or_concat post with rfl | ⟨init, x, rfl⟩
  · rcases eq_nil_or_concat between with rfl | ⟨init, x, rfl⟩
    · exact .inl rfl
    · rw [append_nil, concat_eq_append, ← append_assoc] at h
      obtain ⟨rfl, hlast⟩ := append_inj' h rfl
      obtain rfl := singleton_inj.mp hlast
      exact .inr (.inl ⟨init, concat_eq_append, rfl, rfl⟩)
  · rw [concat_eq_append, ← append_assoc] at h
    obtain ⟨rfl, -⟩ := append_inj' h rfl
    exact .inr (.inr ⟨init, rfl⟩)

variable {bits : List Bool}

/-- A TM-SDU under way is its start and the pieces since, unbroken; `idle` counts the half
slots of the last stretch. -/
theorem Assembly.unbroken {lane : ℕ} {cc : BitVec 6} {log : List Entry} {idle : ℕ}
    (h : Assembly lane cc log bits idle) :
    ∃ before first mid, log = before ++ .pdu lane cc (.start false first) :: mid ∧
      bits = first ++ mid.flatMap (Entry.content lane) ∧ Unbroken near lane cc mid ∧
      ∀ pre between, mid = pre ++ between → (∀ e ∈ between, e.Harmless lane) →
        (between.map (Entry.idle near lane)).sum ≤ idle := by
  induction h with
  | start log first =>
    refine ⟨log, first, [], rfl, (append_nil _).symm, ⟨nofun, ?_⟩, ?_⟩
    · intro pre between post hsplit _
      obtain ⟨hnil, -⟩ := append_eq_nil_iff.mp hsplit.symm
      obtain ⟨-, rfl⟩ := append_eq_nil_iff.mp hnil
      exact Nat.succ_pos 7
    · intro pre between hsplit _
      obtain ⟨-, rfl⟩ := append_eq_nil_iff.mp hsplit.symm
      exact Nat.le_refl 0
  | @harmless log bits idle e _ he hidle ih =>
    obtain ⟨before, first, mid, rfl, rfl, hunbroken, htail⟩ := ih
    have htail' : ∀ pre between, mid ++ [e] = pre ++ between → (∀ x ∈ between, x.Harmless lane) →
        (between.map (Entry.idle near lane)).sum ≤ idle + e.idle near lane := by
      intro pre between hsplit hharmless
      rcases eq_nil_or_concat between with rfl | ⟨init, x, rfl⟩
      · exact Nat.zero_le _
      · rw [concat_eq_append] at hsplit hharmless ⊢
        rw [← append_assoc] at hsplit
        obtain ⟨hinit, hlast⟩ := append_inj' hsplit rfl
        obtain rfl := singleton_inj.mp hlast
        have hle := htail pre init hinit fun x hx => hharmless x (mem_append_left _ hx)
        rw [map_append, sum_append, map_singleton, sum_singleton]
        exact Nat.add_le_add_right hle _
    refine ⟨before, first, mid ++ [e], ?_, ?_, ⟨?_, ?_⟩, htail'⟩
    · rw [append_assoc, cons_append]
    · rw [flatMap_append, flatMap_singleton, he.content_eq_nil, append_nil]
    · intro x hx
      rcases mem_append.mp hx with hx | hx
      · exact hunbroken.continues x hx
      · exact .inl (mem_singleton.mp hx ▸ he)
    · intro pre between post hsplit hharmless
      rcases append_singleton_eq_append_append hsplit with rfl | ⟨init, rfl, rfl, rfl⟩ | ⟨init, rfl⟩
      · exact Nat.succ_pos 7
      · rw [append_nil] at hsplit
        exact Nat.lt_of_le_of_lt (htail' pre _ hsplit hharmless) hidle
      · exact hunbroken.steady pre between init rfl hharmless
  | @piece log bits idle c _ ih =>
    obtain ⟨before, first, mid, rfl, rfl, hunbroken, htail⟩ := ih
    refine ⟨before, first, mid ++ [.pdu lane cc (.piece false (some c))], ?_, ?_, ⟨?_, ?_⟩, ?_⟩
    · rw [append_assoc, cons_append]
    · rw [flatMap_append, flatMap_singleton, ← append_assoc]
      simp only [Entry.content, if_pos]
    · intro x hx
      rcases mem_append.mp hx with hx | hx
      · exact hunbroken.continues x hx
      · exact .inr ⟨c, mem_singleton.mp hx⟩
    · intro pre between post hsplit hharmless
      rcases append_singleton_eq_append_append hsplit with rfl | ⟨init, rfl, rfl, rfl⟩ | ⟨init, rfl⟩
      · exact Nat.succ_pos 7
      · exact absurd (hharmless _ (mem_append_right _ (mem_singleton_self _)))
          (not_harmless_piece _ _ _ _)
      · exact hunbroken.steady pre between init rfl hharmless
    · intro pre between hsplit hharmless
      rcases eq_nil_or_concat between with rfl | ⟨init, x, rfl⟩
      · exact Nat.le_refl 0
      · rw [concat_eq_append] at hsplit hharmless
        rw [← append_assoc] at hsplit
        obtain ⟨-, hlast⟩ := append_inj' hsplit rfl
        obtain rfl := singleton_inj.mp hlast
        exact absurd (hharmless _ (mem_append_right _ (mem_singleton_self _)))
          (not_harmless_piece _ _ _ _)

/-- The PDU is encrypted: a MAC-RESOURCE or a MAC-D-BLCK that says so. -/
inductive Encrypted (bits : List Bool) : Prop where
  | resource {h : Resource} : (pduType bits).1 = macTypeResource → resourceDecode bits = some h →
      h.encMode ≠ encModeNone → Encrypted bits
  | supplementary {encMode eventLabel : ℕ} {sdu : List Bool} : (pduType bits).1 = 3 →
      dBlckDecode bits = some (encMode, eventLabel, sdu) → encMode ≠ encModeNone → Encrypted bits

theorem classifyResource_encrypted {h : Resource} (hdecode : resourceDecode bits = some h)
    (hencrypted : h.encMode ≠ encModeNone) :
    classifyResource bits = .start true [] ∨ classifyResource bits = .other := by
  unfold classifyResource
  generalize resourceDecode bits = decoded at hdecode ⊢
  subst hdecode
  dsimp only
  rw [if_pos hencrypted]
  by_cases hstart : h.lengthInd = macLiFragmentStart
  · exact .inl (if_pos hstart)
  · exact .inr (if_neg hstart)

/-- An encrypted PDU gives no bits to any TM-SDU. -/
theorem classify_encrypted (h : Encrypted bits) (blockBits : ℕ) :
    classify blockBits bits = .start true [] ∨ classify blockBits bits = .other := by
  unfold classify
  cases h with
  | resource htype hdecode hencrypted =>
    dsimp only
    rw [if_pos htype]
    exact classifyResource_encrypted hdecode hencrypted
  | supplementary htype hdecode hencrypted =>
    refine .inr ?_
    dsimp only
    rw [if_neg (by rw [htype]; decide), if_neg (by rw [htype]; decide),
      if_neg (by rw [htype]; decide), classifySupplementary, hdecode]
    dsimp only
    rw [if_neg hencrypted]
    split <;> rfl

/-- Every rebuilt TM-SDU is one start, the pieces of its timeslot and colour code in order, and
one end, unbroken but for gaps of 2^31 symbols or more; every TM-SDU of one PDU was just heard in
the clear; no encrypted PDU adds a bit to either; and the slots between blocks are counted from
block to block. -/
theorem deliveries_whole (steps : List Step) :
    (∀ pre lane bits post, (run steps).log = pre ++ .rebuilt lane bits :: post →
      ∃ before cc first mid last,
        pre = before ++ .pdu lane cc (.start false first) :: mid ++
          [.pdu lane cc (.piece true (some last))] ∧
        Unbroken near lane cc mid ∧ bits = first ++ mid.flatMap (Entry.content lane) ++ last ∧
        bits.length ≤ macTmSduMaxBits) ∧
    (∀ pre bits post, (run steps).log = pre ++ .delivered bits :: post →
      ∃ before lane cc after, pre = before ++ .pdu lane cc (.whole bits) :: after ∧
        ∀ e ∈ after, e = .forget) ∧
    (∀ blockBits bits, Encrypted bits →
      classify blockBits bits = .start true [] ∨ classify blockBits bits = .other) ∧
    Chained (run steps).log := by
  refine ⟨?_, ?_, fun blockBits bits h => classify_encrypted h blockBits, (run_paced steps).chained⟩
  · intro pre lane bits post hsplit
    obtain ⟨cc, log, so_far, idle, last, rfl, hassembly, rfl, hlength⟩ :=
      (run_good steps).faithful pre _ post hsplit
    obtain ⟨before, first, mid, rfl, rfl, hunbroken, -⟩ := hassembly.unbroken
    exact ⟨before, cc, first, mid, last, rfl, hunbroken, rfl, hlength⟩
  · intro pre bits post hsplit
    exact (run_good steps).faithful pre _ post hsplit

/-- A clear MAC-RESOURCE that starts a TM-SDU of three bits. -/
def startPdu : List Bool :=
  List.replicate 7 false ++ List.replicate 6 true ++ [false, false, true] ++
    List.replicate 27 false ++ [true, false, true]

/-- A MAC-END with the last three bits. -/
def endPdu : List Bool :=
  [false, true, true] ++ List.replicate 6 false ++ [true] ++ List.replicate 3 false ++
    [true, true, false]

/-- A start and an end in two blocks. -/
theorem deliveries_whole_two_blocks :
    ∃ before cc first mid last,
      ([.block 1 none 0, .pdu 1 5 (.start false [true, false, true]), .block 1 (some 0) 1020,
        .pdu 1 5 (.piece true (some [true, true, false]))] : List Entry) =
        before ++ .pdu 1 cc (.start false first) :: mid ++ [.pdu 1 cc (.piece true (some last))] ∧
      Unbroken near 1 cc mid ∧
      [true, false, true, true, true, false] =
        first ++ mid.flatMap (Entry.content 1) ++ last ∧
      [true, false, true, true, true, false].length ≤ macTmSduMaxBits :=
  (deliveries_whole [.block startPdu 5 false ⟨true, 1, 0⟩ true [],
    .block endPdu 5 false ⟨true, 1, 1020⟩ true []]).1 _ 1 _ [] rfl

/-- A start, and a block that lies 2^31 symbols and a frame after it. -/
def farStart : List Entry :=
  [.block 1 none 0, .pdu 1 5 (.start false [true, false, true]),
    .block 1 (some 0) (2 ^ 31 + 1020)]

/-- Two million slots of the timeslot may go by without a fragment where the count wraps. -/
theorem far_gap_rebuilt :
    ¬ ∀ steps pre lane bits post, (run steps).log = pre ++ .rebuilt lane bits :: post →
      ∃ before cc first mid last,
        pre = before ++ .pdu lane cc (.start false first) :: mid ++
          [.pdu lane cc (.piece true (some last))] ∧ Unbroken (fun _ => true) lane cc mid := by
  intro h
  obtain ⟨before, cc, first, mid, last, hpre, hunbroken⟩ :=
    h [.block startPdu 5 false ⟨true, 1, 0⟩ true [],
      .block endPdu 5 false ⟨true, 1, 2 ^ 31 + 1020⟩ true []]
      (farStart ++ [.pdu 1 5 (.piece true (some [true, true, false]))]) 1
      [true, false, true, true, true, false] [] rfl
  obtain ⟨hinit, -⟩ := append_inj' hpre rfl
  obtain ⟨rfl, hbefore⟩ | ⟨before, rfl, hbefore⟩ := cons_eq_append_iff.mp hinit
  · cases hbefore
  obtain ⟨rfl, hstart⟩ | ⟨before, rfl, hstart⟩ := cons_eq_append_iff.mp hbefore
  · obtain ⟨-, rfl⟩ := cons_eq_cons.mp hstart
    have hfew := hunbroken.steady [] [.block 1 (some 0) (2 ^ 31 + 1020)] [] rfl (by
      intro e he
      obtain rfl := mem_singleton.mp he
      exact trivial)
    exact absurd hfew (by decide)
  · obtain ⟨rfl, hend⟩ | ⟨before, rfl, hend⟩ := cons_eq_append_iff.mp hstart
    · cases hend
    · cases append_eq_nil_iff.mp hend.symm |>.2

end DsdNeo.Tetra.Mac
