import DsdNeo.Models.Tetra.Cmce

/-!
# Call PDUs over growing prefixes

Each parser is a program of reads, so it rejects prefixes up to one length and raises one
event from that length on. The chain of type-3/4 elements is a loop that moves at every
pass, so it stops, and how many passes it was allowed does not show.
-/

namespace DsdNeo.Tetra.Cmce

theorem prefixed_bitsRead64 (width : ℕ) : Prefixed (bitsRead64 width) :=
  Prefixed.ite (Prefixed.fail.bind fun _ => Prefixed.pure 0) (Prefixed.read width)

theorem prefixed_bitsRead (width : ℕ) : Prefixed (bitsRead width) :=
  Prefixed.ite (Prefixed.fail.bind fun _ => Prefixed.pure 0) (prefixed_bitsRead64 width)

theorem prefixed_bitsSkip (width : ℕ) : Prefixed (bitsSkip width) := Prefixed.skip width

theorem prefixed_bitsOk : Prefixed bitsOk := Prefixed.ok

theorem prefixed_bitsPresent : Prefixed bitsPresent :=
  (prefixed_bitsRead 1).bind fun _ => prefixed_bitsOk.bind fun _ => Prefixed.pure _

theorem prefixed_skipElement : Prefixed skipElement :=
  (prefixed_bitsRead 4).bind fun _ => (prefixed_bitsRead 11).bind fun length =>
    prefixed_bitsOk.bind fun _ => Prefixed.ite (Prefixed.pure false) (prefixed_bitsSkip length)

theorem prefixed_skipType34Loop (passes : ℕ) : Prefixed (skipType34Loop passes) := by
  induction passes with
  | zero => exact Prefixed.pure none
  | succ passes ih =>
    refine (prefixed_bitsRead 1).bind fun more => Prefixed.ite (prefixed_bitsOk.map some) ?_
    refine prefixed_skipElement.bind fun skipped => Prefixed.ite ih ?_
    exact Prefixed.fail.bind fun _ => Prefixed.pure (some false)

variable {r : Tape}

theorem bitsRead_one_ne_zero (h : (bitsRead 1 r).1 ≠ 0) :
    r.failed = false ∧ r.pos + 1 ≤ r.nbits ∧ (bitsRead 1 r).2.pos = r.pos + 1 := by
  have unfolded : bitsRead 1 r = Tape.read 1 r := rfl
  rw [unfolded] at h ⊢
  unfold Tape.read at h ⊢
  by_cases hf : r.failed ∨ 1 > r.nbits - r.pos
  · rw [if_pos hf] at h
    exact absurd rfl h
  · rw [if_neg hf]
    refine ⟨by simpa using fun hr => hf (Or.inl hr), ?_, rfl⟩
    have : ¬ 1 > r.nbits - r.pos := fun hw => hf (Or.inr hw)
    omega

theorem skipElement_live (h : (skipElement r).1 = true) : (skipElement r).2.failed = false := by
  have cases : ∀ (fitted : Bool) (length : ℕ) (t : Tape),
      ((if !fitted || length == 0 then return false else bitsSkip length : StateM Tape Bool) t).1 =
        true →
      ((if !fitted || length == 0 then return false else bitsSkip length : StateM Tape Bool)
        t).2.failed = false := by
    intro fitted length t h
    split at h
    · cases h
    · rename_i hc
      rw [if_neg hc]
      unfold bitsSkip Tape.skip at h ⊢
      by_cases hf : t.failed ∨ length > t.nbits - t.pos
      · rw [if_pos hf] at h; cases h
      · rw [if_neg hf]
        simpa using fun hr => hf (Or.inl hr)
  exact cases _ _ _ h

variable {passes : ℕ}

theorem skipType34Loop_ends (enough : r.nbits - r.pos < passes) :
    (skipType34Loop passes r).1 ≠ none := by
  induction passes generalizing r with
  | zero => omega
  | succ passes ih =>
    show ((if (bitsRead 1 r).1 = 0 then some <$> bitsOk else _ : StateM Tape _)
      (bitsRead 1 r).2).1 ≠ none
    split
    · exact Option.some_ne_none _
    · rename_i hbit
      obtain ⟨_, room, moved⟩ := bitsRead_one_ne_zero hbit
      show ((if (skipElement (bitsRead 1 r).2).1 = true then skipType34Loop passes else _ :
        StateM Tape _) (skipElement (bitsRead 1 r).2).2).1 ≠ none
      split
      · rename_i hskip
        have sound : (bitsRead 1 r).2.Sound := fun _ => by
          rw [moved, (prefixed_bitsRead 1).nbits]
          exact room
        have inside := prefixed_skipElement.inside _ sound (skipElement_live hskip)
        have nbits := prefixed_skipElement.nbits (bitsRead 1 r).2
        rw [(prefixed_bitsRead 1).nbits] at nbits
        refine ih ?_
        rw [nbits]
        omega
      · exact Option.some_ne_none _

theorem skipType34Loop_more (h : (skipType34Loop passes r).1 ≠ none) (more : ℕ) :
    skipType34Loop (passes + more) r = skipType34Loop passes r := by
  induction passes generalizing r with
  | zero => exact absurd rfl h
  | succ passes ih =>
    rw [Nat.add_right_comm]
    show (if (bitsRead 1 r).1 = 0 then some <$> bitsOk else _ : StateM Tape _)
      (bitsRead 1 r).2 = (if (bitsRead 1 r).1 = 0 then some <$> bitsOk else _ : StateM Tape _)
      (bitsRead 1 r).2
    split
    · rfl
    · rename_i hbit
      show (if (skipElement (bitsRead 1 r).2).1 = true then skipType34Loop (passes + more) else _ :
          StateM Tape _) (skipElement (bitsRead 1 r).2).2 =
        (if (skipElement (bitsRead 1 r).2).1 = true then skipType34Loop passes else _ :
          StateM Tape _) (skipElement (bitsRead 1 r).2).2
      split
      · rename_i hskip
        refine ih fun hn => h ?_
        show ((if (bitsRead 1 r).1 = 0 then some <$> bitsOk else _ : StateM Tape _)
          (bitsRead 1 r).2).1 = none
        rw [if_neg hbit]
        show ((if (skipElement (bitsRead 1 r).2).1 = true then skipType34Loop passes else _ :
          StateM Tape _) (skipElement (bitsRead 1 r).2).2).1 = none
        rw [if_pos hskip]
        exact hn
      · rfl

/-- The chain, with any number of passes that suffices. -/
theorem bitsSkipType34_eq (enough : r.nbits - r.pos < passes) :
    bitsSkipType34 r = ((skipType34Loop passes r).1.getD false, (skipType34Loop passes r).2) := by
  have ends := skipType34Loop_ends (Nat.lt_succ_self (r.nbits - r.pos))
  obtain ⟨more, rfl⟩ := Nat.exists_eq_add_of_lt enough
  have same := skipType34Loop_more ends more
  have sum : r.nbits - r.pos + more + 1 = passesLeft r + more := by
    unfold passesLeft
    omega
  rw [sum]
  show _ = ((skipType34Loop (passesLeft r + more) r).1.getD false, _)
  rw [show skipType34Loop (passesLeft r + more) r = skipType34Loop (passesLeft r) r from same]
  rfl

theorem prefixed_bitsSkipType34 : Prefixed bitsSkipType34 where
  sticky := fun r h => (prefixed_skipType34Loop _).sticky r h
  cells := fun r => (prefixed_skipType34Loop _).cells r
  nbits := fun r => (prefixed_skipType34Loop _).nbits r
  inside := fun r hs hl => (prefixed_skipType34Loop (passesLeft r)).inside r hs hl
  seen := fun r hs => (prefixed_skipType34Loop (passesLeft r)).seen r hs
  same := fun r r' hs hl ha => by
    -- enough passes for both tapes, so that one loop runs over each
    have left : r.nbits - r.pos < r.nbits + r'.nbits + 1 := by omega
    have right : r'.nbits - r'.pos < r.nbits + r'.nbits + 1 := by omega
    rw [bitsSkipType34_eq left] at hl ha ⊢
    rw [bitsSkipType34_eq right]
    obtain ⟨value, rest⟩ := (prefixed_skipType34Loop _).same r r' hs hl ha
    exact ⟨congrArg (·.getD false) value, rest⟩

theorem prefixed_readType2Elements (widths : List ℕ) : Prefixed (readType2Elements widths) := by
  induction widths with
  | nil => exact Prefixed.pure []
  | cons width widths ih =>
    refine prefixed_bitsPresent.bind fun present => ?_
    refine (Prefixed.ite ((prefixed_bitsRead width).map some) (Prefixed.pure none)).bind ?_
    exact fun value => ih.bind fun values => Prefixed.pure (value :: values)

theorem prefixed_readOptional (widths : List ℕ) : Prefixed (readOptional widths) :=
  prefixed_bitsPresent.bind fun _ => Prefixed.ite
    ((prefixed_readType2Elements widths).bind fun values =>
      prefixed_bitsSkipType34.bind fun _ => Prefixed.pure values)
    (Prefixed.pure [])

theorem prefixed_cmceReadPartyAddress (party : Party) : Prefixed (cmceReadPartyAddress party) :=
  (Prefixed.ite ((prefixed_bitsRead 24).map _) (Prefixed.pure party)).bind fun withSsi =>
    Prefixed.ite ((prefixed_bitsRead 24).map _) (Prefixed.pure withSsi)

theorem prefixed_cmceReadPartyType2 (party : Party) : Prefixed (cmceReadPartyType2 party) :=
  prefixed_bitsPresent.bind fun _ => Prefixed.ite
    ((prefixed_bitsRead 2).bind fun _ => prefixed_cmceReadPartyAddress _)
    (Prefixed.pure party)

theorem prefixed_cmceReadSetup : Prefixed cmceReadSetup := by
  refine (prefixed_bitsRead 14).bind fun _ => (prefixed_bitsRead 4).bind fun _ =>
    (prefixed_bitsSkip 2).bind fun _ => (prefixed_bitsRead 8).bind fun _ =>
    (prefixed_bitsRead 2).bind fun _ => (prefixed_bitsRead 1).bind fun _ =>
    (prefixed_bitsRead 4).bind fun _ => ?_
  have optional : Prefixed (do
      let optional ← bitsPresent
      if optional then do
        let _ ← readType2Elements [6, 24]
        let calling ← cmceReadPartyType2 {}
        let _ ← bitsSkipType34
        return calling
      else return {} : StateM Tape Party) :=
    prefixed_bitsPresent.bind fun _ => Prefixed.ite
      ((prefixed_readType2Elements _).bind fun _ => (prefixed_cmceReadPartyType2 _).bind fun _ =>
        prefixed_bitsSkipType34.bind fun _ => Prefixed.pure _)
      (Prefixed.pure _)
  exact optional.bind fun _ => Prefixed.pure _

theorem prefixed_cmceReadGrantFields (f : Floor) : Prefixed (cmceReadGrantFields f) :=
  (prefixed_bitsRead 2).bind fun _ => (prefixed_bitsRead 1).bind fun _ =>
    (prefixed_bitsRead 1).bind fun _ => (prefixed_bitsRead 1).bind fun _ => Prefixed.pure _

theorem prefixed_cmceReadFloorOptional (withParty : Bool) (f : Floor) :
    Prefixed (cmceReadFloorOptional withParty f) :=
  prefixed_bitsPresent.bind fun _ => Prefixed.ite
    ((prefixed_readType2Elements _).bind fun _ =>
      (Prefixed.ite (prefixed_cmceReadPartyType2 _) (Prefixed.pure _)).bind fun _ =>
        prefixed_bitsSkipType34.bind fun _ => Prefixed.pure _)
    (Prefixed.pure f)

theorem prefixed_cmceReadTxFields (pdu : TxPdu) (f : Floor) :
    Prefixed (cmceReadTxFields pdu f) := by
  cases pdu with
  | txContinue =>
    exact (prefixed_bitsRead 1).bind fun _ => (prefixed_bitsRead 1).bind fun _ => Prefixed.pure _
  | txInterrupt => exact prefixed_cmceReadGrantFields f
  | txWait => exact (prefixed_bitsRead 1).bind fun _ => Prefixed.pure _

theorem publish_fst {α : Type} (snapshot : StateM Tape α) (event : α → PduEvent) (r : Tape) :
    (publish snapshot event r).1 =
      if (snapshot r).2.failed then cmceReject else ⟨true, [event (snapshot r).1]⟩ := by
  show (if (!(snapshot r).2.failed) = true then _ else _) = _
  cases (snapshot r).2.failed <;> rfl

theorem publish_snd {α : Type} (snapshot : StateM Tape α) (event : α → PduEvent) (r : Tape) :
    (publish snapshot event r).2 = (snapshot r).2 := rfl

theorem CallPdu.parser_publishes (pdu : CallPdu) :
    ∃ (α : Type) (snapshot : StateM Tape α) (event : α → PduEvent),
      Prefixed snapshot ∧ pdu.parser = publish snapshot event := by
  have release : Prefixed (do
      let callId ← bitsRead 14
      let _ ← bitsRead 5
      let _ ← readOptional [6]
      return callId) :=
    (prefixed_bitsRead 14).bind fun _ => (prefixed_bitsRead 5).bind fun _ =>
      (prefixed_readOptional _).bind fun _ => Prefixed.pure _
  have tx (pdu : TxPdu) : Prefixed (do
      let callId ← bitsRead 14
      let f ← cmceReadTxFields pdu { callId := callId }
      cmceReadFloorOptional (pdu = .txInterrupt) f) :=
    (prefixed_bitsRead 14).bind fun _ => (prefixed_cmceReadTxFields _ _).bind fun _ =>
      prefixed_cmceReadFloorOptional _ _
  cases pdu with
  | dAlert =>
    exact ⟨_, _, _, (prefixed_bitsRead 14).bind fun _ => (prefixed_bitsRead 3).bind fun _ =>
      (prefixed_bitsSkip 2).bind fun _ => (prefixed_bitsRead 1).bind fun _ =>
      (prefixed_readOptional _).bind fun _ => Prefixed.pure _, rfl⟩
  | dCallProceeding =>
    exact ⟨_, _, _, (prefixed_bitsRead 14).bind fun _ => (prefixed_bitsRead 3).bind fun _ =>
      (prefixed_bitsSkip 2).bind fun _ => (prefixed_readOptional _).bind fun _ =>
      Prefixed.pure _, rfl⟩
  | dConnect =>
    exact ⟨_, _, _, (prefixed_bitsRead 14).bind fun _ => (prefixed_bitsRead 4).bind fun _ =>
      (prefixed_bitsSkip 2).bind fun _ => (prefixed_bitsRead 2).bind fun _ =>
      (prefixed_bitsRead 1).bind fun _ => (prefixed_bitsSkip 1).bind fun _ =>
      (prefixed_readOptional _).bind fun _ => Prefixed.pure _, rfl⟩
  | dConnectAck =>
    exact ⟨_, _, _, (prefixed_bitsRead 14).bind fun _ => (prefixed_bitsRead 4).bind fun _ =>
      (prefixed_bitsRead 2).bind fun _ => (prefixed_bitsSkip 1).bind fun _ =>
      (prefixed_readOptional _).bind fun _ => Prefixed.pure _, rfl⟩
  | dDisconnect => exact ⟨_, _, _, release, rfl⟩
  | dInfo =>
    exact ⟨_, _, _, (prefixed_bitsRead 14).bind fun _ => (prefixed_bitsRead 1).bind fun _ =>
      (prefixed_bitsRead 1).bind fun _ => (prefixed_readOptional _).bind fun _ =>
      Prefixed.pure _, rfl⟩
  | dRelease => exact ⟨_, _, _, release, rfl⟩
  | dSetup => exact ⟨_, _, _, prefixed_cmceReadSetup, rfl⟩
  | dTxCeased =>
    exact ⟨_, _, _, (prefixed_bitsRead 14).bind fun _ => (prefixed_bitsRead 1).bind fun _ =>
      prefixed_cmceReadFloorOptional _ _, rfl⟩
  | dTxContinue => exact ⟨_, _, _, tx .txContinue, rfl⟩
  | dTxGranted =>
    exact ⟨_, _, _, (prefixed_bitsRead 14).bind fun _ =>
      (prefixed_cmceReadGrantFields _).bind fun _ => prefixed_cmceReadFloorOptional _ _, rfl⟩
  | dTxWait => exact ⟨_, _, _, tx .txWait, rfl⟩
  | dTxInterrupt => exact ⟨_, _, _, tx .txInterrupt, rfl⟩
  | dCallRestore =>
    exact ⟨_, _, _, (prefixed_bitsRead 14).bind fun _ => (prefixed_bitsRead 2).bind fun _ =>
      (prefixed_bitsRead 1).bind fun _ => (prefixed_bitsRead 1).bind fun _ =>
      (prefixed_readOptional _).bind fun _ => Prefixed.pure _, rfl⟩

/-- Over the prefixes of a bit sequence a call PDU is rejected until it fits, and from one
length on raises one event that no later bit changes; every bit looked at lies in the
prefix, and the loop over type-3/4 elements ends. -/
theorem call_pdu_prefix_determined (pdu : CallPdu) (bits : ℕ → Bool) (len start : ℕ) :
    ((∀ n ≤ len, (pdu.parser (Tape.ofCells bits n start)).1 = cmceReject) ∨
      ∃ k ≤ len, ∃ event : PduEvent,
        (∀ n < k, (pdu.parser (Tape.ofCells bits n start)).1 = cmceReject) ∧
        ∀ n, k ≤ n → n ≤ len →
          (pdu.parser (Tape.ofCells bits n start)).1 = ⟨true, [event]⟩) ∧
    (∀ n, ∀ i ∈ (pdu.parser (Tape.ofCells bits n start)).2.seen, i < n) ∧
    ∀ r : Tape, ∀ passes > r.nbits - r.pos, (skipType34Loop passes r).1 ≠ none := by
  obtain ⟨α, snapshot, event, reads, parser⟩ := pdu.parser_publishes
  rw [parser]
  refine ⟨?_, ?_, fun r passes => skipType34Loop_ends⟩
  · cases reads.threshold bits start with
    | inl never => exact Or.inl fun n _ => by rw [publish_fst, if_pos (never n)]
    | inr fits =>
      obtain ⟨k, a, before, after⟩ := fits
      have rejects : ∀ n < k, (publish snapshot event (Tape.ofCells bits n start)).1 = cmceReject :=
        fun n hn => by rw [publish_fst, if_pos (before n hn)]
      by_cases hk : k ≤ len
      · refine Or.inr ⟨k, hk, event a, rejects, fun n hn _ => ?_⟩
        obtain ⟨live, value⟩ := after n hn
        rw [publish_fst, live, value]
        rfl
      · exact Or.inl fun n hn => rejects n (by omega)
  · intro n i hi
    rw [publish_snd] at hi
    cases reads.seen _ (Tape.sound_ofCells bits n start) i hi with
    | inl h => cases h
    | inr h => exact h

/-- A D-RELEASE of call 5 fits at its twentieth bit. -/
example : (CallPdu.dRelease.parser (Tape.ofCells (fun i => i = 11 || i = 13) 20 0)).1 =
    ⟨true, [{ kind := .release, callId := 5 }]⟩ := by decide

end DsdNeo.Tetra.Cmce
