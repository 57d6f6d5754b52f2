import DsdNeo.Models.Tetra.Mac

/-!
# The slots since the last block

A context remembers the slot of the last block of its timeslot, whatever the block
carried. So the receiver counts what went by before a block from the block before.
-/

namespace DsdNeo.Tetra.Mac

open Bits Entry World List Function

/-- The entry is no block. -/
def Entry.InBlock (e : Entry) : Prop := ∀ lane, e.blockSymbol lane = none

/-- A block's decoding: no context loses its slot, and no block is logged. -/
structure World.Paced (w w' : World) : Prop where
  slotStart : ∀ l, (w'.frags l).slotStart = (w.frags l).slotStart
  log : ∃ added, w'.log = w.log ++ added ∧ ∀ e ∈ added, e.InBlock

open World.Paced

namespace World.Paced

theorem refl (w : World) : w.Paced w := ⟨fun _ => rfl, [], (append_nil _).symm, nofun⟩

theorem trans {a b c : World} (h : a.Paced b) (h' : b.Paced c) : a.Paced c := by
  obtain ⟨added, hlog, hadded⟩ := h.log
  obtain ⟨more, hlog', hmore⟩ := h'.log
  refine ⟨fun l => (h'.slotStart l).trans (h.slotStart l), added ++ more, ?_, ?_⟩
  · rw [hlog', hlog, append_assoc]
  · intro e he
    rcases mem_append.mp he with he | he
    · exact hadded e he
    · exact hmore e he

theorem note (w : World) {e : Entry} (he : e.InBlock) : w.Paced (w.note e) :=
  ⟨fun _ => rfl, [e], rfl, fun _ hx => mem_singleton.mp hx ▸ he⟩

theorem react (w : World) : w.Paced w.react := by
  unfold World.react
  cases w.reactions with
  | nil => exact World.Paced.refl w
  | cons r reactions =>
    cases hforgets : r.forgets with
    | false => exact ⟨fun _ => by simp [hforgets], [], by simp [hforgets], nofun⟩
    | true =>
      refine ⟨fun _ => by simp [hforgets, discardFragment], [.forget], by simp [hforgets], ?_⟩
      intro e he
      obtain rfl := mem_singleton.mp he
      exact fun _ => rfl

/-- A context put back with the slot it had. -/
theorem setFrag (w : World) {lane : ℕ} {f : Fragment}
    (hf : f.slotStart = (w.frags lane).slotStart) : w.Paced (w.setFrag lane f) := by
  refine ⟨?_, [], (append_nil _).symm, nofun⟩
  intro l
  by_cases hl : l = lane
  · rw [hl, setFrag_self, hf]
  · rw [w.setFrag_of_ne _ hl]

theorem see (w : World) : w.Paced { w with fragmentSeen := true } :=
  ⟨fun _ => rfl, [], (append_nil _).symm, nofun⟩

end World.Paced

open World.Paced (setFrag)

variable {f : Fragment} {bits : List Bool}

theorem fragmentAppend_slotStart {g : Fragment} (h : fragmentAppend f bits = some g) :
    g.slotStart = f.slotStart := by
  unfold fragmentAppend at h
  split_ifs at h
  cases h
  rfl

theorem startFragment_paced (b : Block) (addr : Address) (encMode : ℕ) (sdu : List Bool)
    (w : World) : w.Paced (startFragment b addr encMode sdu w) := by
  have hsee := World.Paced.see w
  unfold startFragment
  dsimp only
  split
  · exact hsee.trans (setFrag _ rfl)
  · split
    · rename_i g hg
      have hslot := fragmentAppend_slotStart hg
      exact hsee.trans (setFrag _ hslot)
    · exact hsee.trans (setFrag _ rfl)

theorem fragmentContinues_paced (b : Block) (w : World) : w.Paced (fragmentContinues b w).2 := by
  unfold fragmentContinues
  dsimp only
  split
  · exact World.Paced.refl w
  · split
    · exact setFrag w rfl
    · exact (World.Paced.see w).trans (setFrag _ rfl)

theorem deliverTmSdu_paced (sdu : List Bool) (w : World) : w.Paced (deliverTmSdu sdu w) := by
  unfold deliverTmSdu
  split
  · exact (World.Paced.note w (e := .delivered sdu) fun _ => rfl).trans (World.Paced.react _)
  · exact World.Paced.react w

theorem parseMacResource_paced (b : Block) (bits : List Bool) (w : World) :
    w.Paced (parseMacResource b bits w).2 := by
  have hreact := World.Paced.react w
  unfold parseMacResource
  split
  · exact World.Paced.refl w
  · split
    · unfold resourceEncrypted
      dsimp only
      split
      · exact hreact.trans (startFragment_paced _ _ _ _ _)
      · exact hreact.trans (World.Paced.react _)
    · split
      · exact World.Paced.refl w
      · split
        · exact hreact.trans (startFragment_paced _ _ _ _ _)
        · exact hreact.trans (deliverTmSdu_paced _ _)

theorem parseMacFrag_paced (b : Block) (bits : List Bool) (w : World) :
    w.Paced (parseMacFrag b bits w).2 := by
  have hcontinues := fragmentContinues_paced b w
  unfold parseMacFrag
  split
  · exact World.Paced.refl w
  · dsimp only
    split
    · exact hcontinues
    · split
      · exact hcontinues
      · split
        · exact hcontinues.trans (setFrag _ rfl)
        · rename_i g hg
          obtain ⟨c, -, happend⟩ := Option.bind_eq_some_iff.mp hg
          exact hcontinues.trans (setFrag _ (fragmentAppend_slotStart happend))

theorem completeFragment_paced (b : Block) (w : World) : w.Paced (completeFragment b w) := by
  have hreact := World.Paced.react w
  unfold completeFragment
  dsimp only
  split
  · exact ((hreact.trans (World.Paced.note _ (e := .rebuilt b.lane _) fun _ => rfl)).trans
      (World.Paced.react _)).trans (setFrag _ rfl)
  · exact (hreact.trans (World.Paced.react _)).trans (setFrag _ rfl)

theorem finishFragment_paced (b : Block) (bits : List Bool) (e : MacEnd) (w : World) :
    w.Paced (finishFragment b bits e w) := by
  unfold finishFragment
  dsimp only
  split
  · split
    · exact ((World.Paced.react w).trans (World.Paced.react _)).trans (setFrag _ rfl)
    · exact (World.Paced.react w).trans (setFrag _ rfl)
  · split
    · exact setFrag w rfl
    · rename_i g hg
      obtain ⟨c, -, happend⟩ := Option.bind_eq_some_iff.mp hg
      exact (setFrag w (fragmentAppend_slotStart happend)).trans (completeFragment_paced _ _)

theorem parseMacEnd_paced (b : Block) (bits : List Bool) (w : World) :
    w.Paced (parseMacEnd b bits w).2 := by
  have hcontinues := fragmentContinues_paced b w
  unfold parseMacEnd
  split
  · exact World.Paced.refl w
  · dsimp only
    split
    · exact hcontinues.trans (finishFragment_paced _ _ _ _)
    · exact hcontinues

theorem parseBroadcast_paced (first : Bool) (bits : List Bool) (w : World) :
    w.Paced (parseBroadcast first bits w).2 := by
  unfold parseBroadcast
  dsimp only
  split_ifs
  · exact World.Paced.refl w
  · split <;> exact World.Paced.refl w
  · exact World.Paced.react w
  · exact World.Paced.refl w
  · exact World.Paced.refl w

theorem parseSupplementary_paced (b : Block) (bits : List Bool) (w : World) :
    w.Paced (parseSupplementary b bits w).2 := by
  unfold parseSupplementary
  split
  · exact World.Paced.refl w
  · split
    · exact World.Paced.refl w
    · dsimp only
      split
      · exact (World.Paced.note w (e := .delivered _) fun _ => rfl).trans (World.Paced.react _)
      · exact World.Paced.refl w

theorem parsePdu_paced (b : Block) (first : Bool) (bits : List Bool) (w : World) :
    w.Paced (parsePdu b first bits w).2 := by
  unfold parsePdu
  dsimp only
  split_ifs
  · exact parseMacResource_paced b bits w
  · exact parseMacEnd_paced b bits w
  · exact parseMacFrag_paced b bits w
  · exact parseBroadcast_paced first bits w
  · exact parseSupplementary_paced b bits w

theorem parseLoop_paced (b : Block) (fuel : ℕ) (first : Bool) (bits : List Bool) (w : World) :
    w.Paced (parseLoop b fuel first bits w) := by
  induction fuel generalizing first bits w with
  | zero => exact World.Paced.refl w
  | succ fuel ih =>
    have hpdu := (World.Paced.note w (e := .pdu b.lane b.cc (classify b.blockBits bits))
      fun _ => rfl).trans (parsePdu_paced b first bits _)
    rw [parseLoop]
    by_cases hshort : bits.length < (if first then 2 else macNullPduBits)
    · rw [if_pos hshort]
      exact World.Paced.refl w
    · rw [if_neg hshort]
      dsimp only
      split
      · exact hpdu
      · exact hpdu.trans (ih _ _ _)

theorem ageFragment_paced (b : Block) (w : World) : w.Paced (ageFragment b w) := by
  unfold ageFragment expireIfIdle
  dsimp only
  split
  · exact World.Paced.refl w
  · split <;> exact setFrag w rfl

@[simp] theorem lastBlock_append_singleton (lane : ℕ) (log : List Entry) (e : Entry) :
    lastBlock lane (log ++ [e]) = (e.blockSymbol lane).or (lastBlock lane log) := by
  simp [lastBlock]

variable {added log L : List Entry}

theorem lastBlock_append_inBlock (lane : ℕ) (log : List Entry) (h : ∀ e ∈ added, e.InBlock) :
    lastBlock lane (log ++ added) = lastBlock lane log := by
  induction added using List.reverseRecOn with
  | nil => rw [append_nil]
  | append_singleton added e ih =>
    rw [← append_assoc, lastBlock_append_singleton,
      h e (mem_append_right _ (mem_singleton_self e)) lane, Option.none_or]
    exact ih fun x hx => h x (mem_append_left _ hx)

/-- Every block is counted from the block of its timeslot before it. -/
def Chained (log : List Entry) : Prop :=
  ∀ pre lane last now post, log = pre ++ .block lane last now :: post → last = lastBlock lane pre

variable {e : Entry}

theorem Chained.snoc (h : Chained log)
    (he : ∀ lane last now, e = .block lane last now → last = lastBlock lane log) :
    Chained (log ++ [e]) := by
  intro pre lane last now post hsplit
  rcases eq_nil_or_concat post with rfl | ⟨init, x, rfl⟩
  · obtain ⟨rfl, hlast⟩ := append_inj' hsplit rfl
    exact he lane last now (singleton_inj.mp hlast)
  · rw [concat_eq_append, ← cons_append, ← append_assoc] at hsplit
    obtain ⟨rfl, -⟩ := append_inj' hsplit rfl
    exact h pre lane last now init rfl

theorem Chained.append_inBlock (h : Chained log) (hadded : ∀ e ∈ added, e.InBlock) :
    Chained (log ++ added) := by
  induction added using List.reverseRecOn with
  | nil => rwa [append_nil]
  | append_singleton added e ih =>
    rw [← append_assoc]
    refine (ih fun x hx => hadded x (mem_append_left _ hx)).snoc ?_
    rintro lane last now rfl
    have hnone := hadded _ (mem_append_right _ (mem_singleton_self _)) lane
    simp [blockSymbol] at hnone

/-- The contexts remember the last blocks, and the log is counted from block to block. -/
structure State.Paced (s : State) : Prop where
  slotStart : ∀ lane now, lastBlock lane s.log = some now →
    (s.frags lane).slotStart = BitVec.ofNat 32 now
  chained : Chained s.log

variable {s : State}

theorem State.Paced.append (h : s.Paced) (frags : ℕ → Fragment)
    (hfrags : ∀ l, (frags l).slotStart = (s.frags l).slotStart) (hadded : ∀ e ∈ added, e.InBlock) :
    State.Paced ⟨frags, s.log ++ added⟩ := by
  refine ⟨?_, h.chained.append_inBlock hadded⟩
  intro lane now hlast
  rw [lastBlock_append_inBlock lane _ hadded] at hlast
  exact (hfrags lane).trans (h.slotStart lane now hlast)

theorem catchUpFragment_slotStart {clock : Clock} (h : fragmentTimeslot clock ≠ 0) (f : Fragment) :
    (catchUpFragment clock f).slotStart = clock.slotStart := by
  unfold catchUpFragment expireIfIdle
  rw [if_neg h]
  dsimp only
  split
  · rfl
  · split <;> rfl

theorem entered_paced (h : s.Paced) (clock : Clock) :
    State.Paced ⟨update s.frags (fragmentTimeslot clock)
        (catchUpFragment clock (s.frags (fragmentTimeslot clock))),
      s.log ++ if fragmentTimeslot clock = 0 then [] else [.block (fragmentTimeslot clock)
        (lastBlock (fragmentTimeslot clock) s.log) clock.slotSymbol]⟩ := by
  by_cases hstopped : fragmentTimeslot clock = 0
  · have hsame : catchUpFragment clock (s.frags 0) = s.frags 0 := if_pos hstopped
    rw [hstopped, hsame, update_eq_self, if_pos rfl, append_nil]
    exact h
  · rw [if_neg hstopped]
    constructor
    · intro lane now hlast
      dsimp only at hlast ⊢
      rw [lastBlock_append_singleton] at hlast
      by_cases hlane : lane = fragmentTimeslot clock
      · subst hlane
        rw [update_self, catchUpFragment_slotStart hstopped, Clock.slotStart]
        have hnow : clock.slotSymbol = now := by simpa [blockSymbol] using hlast
        rw [hnow]
      · rw [update_of_ne hlane]
        simp only [blockSymbol, if_neg (Ne.symm hlane), Option.none_or] at hlast
        exact h.slotStart lane now hlast
    · refine h.chained.snoc ?_
      rintro lane last now ⟨⟩
      rfl

variable {b : Block} {w : World}

theorem read_paced {w' : World} (h : State.Paced ⟨w.frags, L ++ w.log⟩) (hread : w.Paced w') :
    State.Paced
      { frags := w'.frags
        log := L ++ if w'.log.any (isFragment b.lane) then w'.log
          else w'.log ++ [.quiet b.lane b.blockBits] } := by
  obtain ⟨added, hlog, hadded⟩ := hread.log
  rw [hlog]
  split
  · rw [← append_assoc]
    exact h.append _ hread.slotStart hadded
  · rw [append_assoc, ← append_assoc]
    refine h.append _ hread.slotStart ?_
    intro e he
    rcases mem_append.mp he with he | he
    · exact hadded e he
    · obtain rfl := mem_singleton.mp he
      exact fun _ => rfl

theorem take_paced (h : s.Paced) (step : Step) : (step.take s).Paced := by
  cases step with
  | block bits cc uplink clock current reactions =>
    change (macParseSchd s bits cc uplink clock current reactions).Paced
    unfold macParseSchd
    split
    · exact h
    · exact read_paced (entered_paced h clock) ((parseLoop_paced ⟨cc, bits.length, _⟩ bits.length
        true bits _).trans (ageFragment_paced _ _))
  | blockFailed uplink clock =>
    change (macBlockFailed s uplink clock).Paced
    unfold macBlockFailed
    dsimp only
    split
    · exact h
    · refine h.append _ ?_ ?_
      · intro l
        by_cases hl : l = fragmentTimeslot clock
        · rw [hl, update_self]
          rfl
        · rw [update_of_ne hl]
      · intro e he
        obtain rfl := mem_singleton.mp he
        exact fun _ => rfl
  | forgetFragments =>
    refine h.append (fun lane => discardFragment (s.frags lane)) (fun _ => rfl) ?_
    intro e he
    obtain rfl := mem_singleton.mp he
    exact fun _ => rfl

theorem start_paced : State.start.Paced := by
  refine ⟨nofun, ?_⟩
  intro pre lane last now post hsplit
  exact absurd hsplit.symm (append_ne_nil_of_right_ne_nil _ (cons_ne_nil _ _))

/-- Every run counts its blocks from the blocks before them. -/
theorem run_paced (steps : List Step) : (run steps).Paced := by
  unfold run
  have hstart := start_paced
  generalize State.start = s at hstart ⊢
  induction steps generalizing s with
  | nil => exact hstart
  | cons step steps ih => exact ih _ (take_paced hstart step)

/-!
# Only whole TM-SDUs, and none mixed

The log of a run says which fragments a rebuilt TM-SDU was put together from: one start,
then pieces of the same timeslot and colour code, nothing in between that would break it
up, and never four slots of the timeslot without a fragment, as far as the gaps between
blocks can be told in 32 bits.
-/

/-- Slots of a timeslot that went by whole between two of its blocks, given the symbols of the air
their slots start at: the timeslot comes round every 1020 symbols, half a slot early at most. -/
def slotsGone (last now : ℕ) : ℕ := (now - last + 127) / 1020 - 1

/-- Half slots of this timeslot that go by without a fragment; of the gaps between blocks those
that are counted. -/
def Entry.idle (counted : ℕ → Bool) (lane : ℕ) : Entry → ℕ
  | .block l (some last) now =>
    if l = lane ∧ counted (now - last) then 2 * slotsGone last now else 0
  | .quiet l blockBits => if l = lane then if 124 < blockBits then 2 else 1 else 0
  | _ => 0

/-- Gaps below half the range of the receiver's count. -/
def near (gap : ℕ) : Bool := gap < 2 ^ 31

/-- Of a gap that is counted the receiver counts every slot. -/
theorem idle_block_le {last : Option ℕ}
    (hf : ∀ before, last = some before → f.slotStart = BitVec.ofNat 32 before) (lane now : ℕ) :
    Entry.idle near lane (.block lane last now) ≤
      2 * slotsBetween f.slotStart (BitVec.ofNat 32 now) := by
  cases last with
  | none => exact Nat.zero_le _
  | some before =>
    rw [Entry.idle, hf before rfl]
    split
    · rename_i hnear
      have hgap : now - before < 2 ^ 31 := of_decide_eq_true hnear.2
      rcases Nat.le_total before now with hle | hback
      · obtain ⟨gap, rfl⟩ := Nat.exists_eq_add_of_le hle
        rw [Nat.add_sub_cancel_left] at hgap
        have hsymbols : (BitVec.ofNat 32 (before + gap) - BitVec.ofNat 32 before).toNat = gap := by
          simp only [BitVec.toNat_sub, BitVec.toNat_ofNat]
          omega
        rw [slotsBetween, hsymbols]
        rw [if_neg (by omega), slotsGone, Nat.add_sub_cancel_left]
        exact Nat.le_refl _
      · rw [slotsGone, Nat.sub_eq_zero_of_le hback]
        exact Nat.zero_le _
    · exact Nat.zero_le _

/-- The entry neither continues nor breaks up a TM-SDU of this timeslot. -/
def Entry.Harmless (lane : ℕ) : Entry → Prop
  | .pdu l _ p => l = lane → p.isFragment = false
  | .failed l => l ≠ lane
  | .forget => False
  | _ => True

/-- A log ends in a clear TM-SDU of this timeslot and colour code under way: the bits so far,
and the half slots since the last fragment. -/
inductive Assembly (lane : ℕ) (cc : BitVec 6) : List Entry → List Bool → ℕ → Prop where
  | start (log : List Entry) (content : List Bool) :
      Assembly lane cc (log ++ [.pdu lane cc (.start false content)]) content 0
  | harmless {log : List Entry} {bits : List Bool} {idle : ℕ} {e : Entry} :
      Assembly lane cc log bits idle → e.Harmless lane →
        idle + e.idle near lane < macN203HalfSlots →
      Assembly lane cc (log ++ [e]) bits (idle + e.idle near lane)
  | piece {log : List Entry} {bits : List Bool} {idle : ℕ} (content : List Bool) :
      Assembly lane cc log bits idle →
      Assembly lane cc (log ++ [.pdu lane cc (.piece false (some content))]) (bits ++ content) 0

/-- A context holds what the log ends in. -/
def Held (lane : ℕ) (f : Fragment) (log : List Entry) : Prop :=
  f.active = true → f.bits.length ≤ macTmSduMaxBits ∧ f.idleHalfSlots < macN203HalfSlots ∧
    (f.encMode = encModeNone → ∃ idle ≤ f.idleHalfSlots, Assembly lane f.cc log f.bits idle)

/-- What the log must be when a TM-SDU is delivered. -/
def Justified (log : List Entry) : Entry → Prop
  | .rebuilt lane bits => ∃ cc before so_far idle last,
      log = before ++ [.pdu lane cc (.piece true (some last))] ∧
      Assembly lane cc before so_far idle ∧ bits = so_far ++ last ∧ bits.length ≤ macTmSduMaxBits
  | .delivered bits => ∃ before lane cc after,
      log = before ++ .pdu lane cc (.whole bits) :: after ∧ ∀ e ∈ after, e = .forget
  | _ => True

/-- Every TM-SDU the log delivers is justified by what stands before it. -/
def Faithful (log : List Entry) : Prop :=
  ∀ pre e post, log = pre ++ e :: post → Justified pre e

theorem Faithful.snoc (h : Faithful log) (he : Justified log e) : Faithful (log ++ [e]) := by
  intro pre x post hsplit
  rcases eq_nil_or_concat post with rfl | ⟨init, last, rfl⟩
  · obtain ⟨rfl, hlast⟩ := append_inj' hsplit rfl
    obtain rfl := singleton_inj.mp hlast
    exact he
  · rw [concat_eq_append, ← cons_append, ← append_assoc] at hsplit
    obtain ⟨rfl, -⟩ := append_inj' hsplit rfl
    exact h pre x init rfl

/-- A context discarded holds nothing. -/
theorem held_discardFragment (lane : ℕ) (f : Fragment) (log : List Entry) :
    Held lane (discardFragment f) log := by
  intro hactive
  cases hactive

variable {lane : ℕ}

/-- A harmless entry that takes no time changes nothing. -/
theorem Held.harmless (h : Held lane f log) (he : e.Harmless lane) (hidle : e.idle near lane = 0) :
    Held lane f (log ++ [e]) := by
  intro hactive
  obtain ⟨hlength, hwaits, hassembly⟩ := h hactive
  refine ⟨hlength, hwaits, ?_⟩
  intro hclear
  obtain ⟨idle, hle, hassembly⟩ := hassembly hclear
  refine ⟨idle, hle, ?_⟩
  have hafter := hassembly.harmless he (by omega)
  rwa [hidle, Nat.add_zero] at hafter

theorem Held.wait (h : Held lane f log) (he : e.Harmless lane) {waited : ℕ}
    (hwaited : min (f.idleHalfSlots + e.idle near lane) macN203HalfSlots ≤ waited) :
    Held lane (expireIfIdle { f with idleHalfSlots := waited }) (log ++ [e]) := by
  unfold expireIfIdle
  dsimp only
  split
  · exact held_discardFragment _ _ _
  · rename_i hlive
    intro hactive
    obtain ⟨hlength, -, hassembly⟩ := h hactive
    refine ⟨hlength, Nat.not_le.mp hlive, ?_⟩
    intro hclear
    obtain ⟨idle, hle, hassembly⟩ := hassembly hclear
    refine ⟨idle + e.idle near lane, ?_, hassembly.harmless he ?_⟩
    · dsimp only
      omega
    · omega

/-- The world of a block, after the log `L`: every context but perhaps that of the block's
timeslot holds what the log ends in, and the log is faithful. -/
structure World.Open (w : World) (L : List Entry) (lane : ℕ) : Prop where
  held : ∀ l ≠ lane, Held l (w.frags l) (L ++ w.log)
  faithful : Faithful (L ++ w.log)
  seen : w.fragmentSeen = true → w.log.any (isFragment lane) = true

/-- The context of the block's timeslot holds what the log ends in too. -/
structure World.Good (w : World) (L : List Entry) (lane : ℕ) :
    Prop extends World.Open w L lane where
  own : Held lane (w.frags lane) (L ++ w.log)

theorem react_cases (w : World) :
    (w.react.frags = w.frags ∧ w.react.log = w.log ∧ w.react.fragmentSeen = w.fragmentSeen) ∨
    ((∀ l, w.react.frags l = discardFragment (w.frags l)) ∧ w.react.log = w.log ++ [.forget] ∧
      w.react.fragmentSeen = w.fragmentSeen ∧ w.react.clock.valid = false) := by
  unfold World.react
  cases w.reactions with
  | nil => exact .inl ⟨rfl, rfl, rfl⟩
  | cons r reactions =>
    cases hforgets : r.forgets with
    | false => exact .inl ⟨by simp [hforgets], by simp [hforgets], rfl⟩
    | true =>
      exact .inr ⟨fun _ => by simp [hforgets], by simp [hforgets], rfl, by simp [hforgets]⟩

namespace World.Open

variable {w : World} {L : List Entry} {lane : ℕ}

theorem react (h : w.Open L lane) : w.react.Open L lane := by
  rcases react_cases w with ⟨hfrags, hlog, hseen⟩ | ⟨hfrags, hlog, hseen, -⟩
  · constructor
    · rw [hfrags, hlog]
      exact h.held
    · rw [hlog]
      exact h.faithful
    · rw [hseen, hlog]
      exact h.seen
  · constructor
    · intro l _
      rw [hfrags]
      exact held_discardFragment _ _ _
    · rw [hlog, ← append_assoc]
      exact h.faithful.snoc trivial
    · rw [hseen, hlog, any_append]
      intro hs
      rw [h.seen hs]
      rfl

/-- Whatever is put in the block's timeslot, the others are as they were. -/
theorem put (h : w.Open L lane) (f : Fragment) : (w.setFrag lane f).Open L lane where
  held := by
    intro l hl
    rw [w.setFrag_of_ne _ hl]
    exact h.held l hl
  faithful := h.faithful
  seen := h.seen

/-- A context put in the block's timeslot settles it where it holds what the log ends in. -/
theorem setFrag (h : w.Open L lane) {f : Fragment} (hf : Held lane f (L ++ w.log)) :
    (w.setFrag lane f).Good L lane where
  toOpen := h.put f
  own := by
    rw [setFrag_self]
    exact hf

/-- Discarding the context of the block's timeslot settles it. -/
theorem discard (h : w.Open L lane) (f : Fragment) :
    (w.setFrag lane (discardFragment f)).Good L lane :=
  h.setFrag (held_discardFragment _ _ _)

/-- An entry that is harmless to every timeslot. -/
theorem note (h : w.Open L lane) {e : Entry} (he : ∀ l, e.Harmless l ∧ e.idle near l = 0)
    (hjustified : Justified (L ++ w.log) e) : (w.note e).Open L lane where
  held := by
    intro l hl
    rw [World.note, ← append_assoc]
    exact (h.held l hl).harmless (he l).1 (he l).2
  faithful := by
    rw [World.note, ← append_assoc]
    exact h.faithful.snoc hjustified
  seen := by
    intro hs
    rw [World.note, any_append, h.seen hs]
    rfl

theorem see (h : w.Open L lane) (hlog : w.log.any (isFragment lane) = true) :
    World.Open { w with fragmentSeen := true } L lane :=
  ⟨h.held, h.faithful, fun _ => hlog⟩

end World.Open

namespace World.Good

variable {w : World} {L : List Entry} {lane : ℕ}

theorem react (h : w.Good L lane) : w.react.Good L lane := by
  refine ⟨h.toOpen.react, ?_⟩
  rcases react_cases w with ⟨hfrags, hlog, -⟩ | ⟨hfrags, -⟩
  · rw [hfrags, hlog]
    exact h.own
  · rw [hfrags]
    exact held_discardFragment _ _ _

/-- An entry that is harmless to every timeslot. -/
theorem note (h : w.Good L lane) {e : Entry} (he : ∀ l, e.Harmless l ∧ e.idle near l = 0)
    (hjustified : Justified (L ++ w.log) e) : (w.note e).Good L lane where
  toOpen := h.toOpen.note he hjustified
  own := by
    rw [World.note, ← append_assoc]
    exact h.own.harmless (he lane).1 (he lane).2

/-- A PDU of the block may concern the block's own timeslot alone. -/
theorem hear (h : w.Good L lane) (cc : BitVec 6) (p : Pdu) :
    (w.note (.pdu lane cc p)).Open L lane where
  held := by
    intro l hl
    rw [World.note, ← append_assoc]
    exact (h.held l hl).harmless (fun heq => absurd heq.symm hl) rfl
  faithful := by
    rw [World.note, ← append_assoc]
    exact h.faithful.snoc trivial
  seen := by
    intro hs
    rw [World.note, any_append, h.seen hs]
    rfl

/-- A PDU that is no fragment concerns none. -/
theorem hearOther (h : w.Good L lane) (cc : BitVec 6) {p : Pdu} (hp : p.isFragment = false) :
    (w.note (.pdu lane cc p)).Good L lane :=
  h.note (fun _ => ⟨fun _ => hp, rfl⟩) trivial

end World.Good

theorem deliverTmSdu_good (h : w.Good L lane) {sdu : List Bool}
    (hjustified : Justified (L ++ w.log) (.delivered sdu)) : (deliverTmSdu sdu w).Good L lane := by
  unfold deliverTmSdu
  split
  · exact (h.note (e := .delivered sdu) (fun _ => ⟨trivial, rfl⟩) hjustified).react
  · exact h.react

theorem startFragment_good (h : w.Open L b.lane) (hlog : w.log.any (isFragment b.lane) = true)
    (addr : Address) {encMode : ℕ} {sdu : List Bool}
    (hstart : fragmentTimeslot w.clock ≠ 0 → encMode % 4 = encModeNone →
      ∃ log, L ++ w.log = log ++ [.pdu b.lane b.cc (.start false sdu)]) :
    (startFragment b addr encMode sdu w).Good L b.lane := by
  have hsee := h.see hlog
  unfold startFragment
  dsimp only
  split
  · exact hsee.discard _
  · rename_i hrunning
    unfold fragmentAppend
    split
    · rename_i f hf
      split_ifs at hf with hlength
      cases hf
      refine hsee.setFrag ?_
      intro _
      refine ⟨?_, by simp [discardFragment, macN203HalfSlots], ?_⟩
      · simpa [discardFragment] using hlength
      · intro hclear
        obtain ⟨log, hlast⟩ := hstart hrunning hclear
        refine ⟨0, Nat.zero_le _, ?_⟩
        rw [show L ++ World.log { w with fragmentSeen := true } = L ++ w.log from rfl, hlast]
        exact .start log sdu
    · exact hsee.discard _

/-- A piece continues the TM-SDU of its timeslot and colour code, or settles the context. -/
theorem fragmentContinues_cases (h : w.Good L b.lane) (p : Pdu) :
    let heard := w.note (.pdu b.lane b.cc p)
    let f := w.frags b.lane
    ((fragmentContinues b heard).1 = false ∧ (fragmentContinues b heard).2.Good L b.lane) ∨
    (f.active = true ∧ f.cc = b.cc ∧ fragmentContinues b heard =
      (true, { heard with fragmentSeen := true }.setFrag b.lane
        { f with idleHalfSlots := 0 })) := by
  have hopen := h.hear b.cc p
  intro heard f
  by_cases hactive : f.active = true
  · by_cases hcc : f.cc = b.cc
    · refine .inr ⟨hactive, hcc, ?_⟩
      unfold fragmentContinues
      exact (if_neg (not_not_intro hactive)).trans (if_neg (not_not_intro hcc))
    · refine .inl ?_
      have hcontinues : fragmentContinues b heard =
          (false, heard.setFrag b.lane (discardFragment f)) := by
        unfold fragmentContinues
        exact (if_neg (not_not_intro hactive)).trans (if_pos hcc)
      rw [hcontinues]
      exact ⟨rfl, hopen.discard f⟩
  · refine .inl ?_
    have hcontinues : fragmentContinues b heard = (false, heard) := by
      unfold fragmentContinues
      exact if_pos hactive
    rw [hcontinues]
    exact ⟨rfl, hopen, fun hheld => absurd hheld hactive⟩

theorem fragmentAppend_eq_some {g : Fragment} (h : fragmentAppend f bits = some g)
    (hlength : f.bits.length ≤ macTmSduMaxBits) :
    g = { f with bits := f.bits ++ bits } ∧ (f.bits ++ bits).length ≤ macTmSduMaxBits := by
  unfold fragmentAppend at h
  split_ifs at h with hfits
  cases h
  refine ⟨rfl, ?_⟩
  rw [length_append]
  omega

theorem parseMacFrag_good (h : w.Good L b.lane) {sdu : Option (List Bool)}
    (hdecode : fragDecode bits = some sdu) :
    (parseMacFrag b bits (w.note (.pdu b.lane b.cc (.piece false sdu)))).2.Good L b.lane := by
  have hopen := h.hear b.cc (.piece false sdu)
  have hany : (w.note (.pdu b.lane b.cc (.piece false sdu))).log.any (isFragment b.lane) := by
    simp [World.note, isFragment, Pdu.isFragment]
  unfold parseMacFrag
  rw [hdecode]
  rcases fragmentContinues_cases h (.piece false sdu) with
    ⟨hstops, hgood⟩ | ⟨hactive, hcc, hcontinues⟩
  · dsimp only
    rw [hstops]
    exact hgood
  · have hsee := hopen.see hany
    obtain ⟨hlength, hwaits, hassembly⟩ := h.own hactive
    rw [hcontinues]
    dsimp only
    rw [if_neg (by simp), setFrag_self]
    split_ifs with hencrypted
    · refine hsee.setFrag ?_
      intro _
      exact ⟨hlength, by simp [macN203HalfSlots], fun hclear => absurd hclear hencrypted⟩
    · obtain ⟨idle, -, hassembly⟩ := hassembly (not_not.mp hencrypted)
      have hput := hsee.put { w.frags b.lane with idleHalfSlots := 0 }
      split
      · exact hput.discard _
      · rename_i g hg
        obtain ⟨c, rfl, happend⟩ := Option.bind_eq_some_iff.mp hg
        obtain ⟨rfl, hfits⟩ := fragmentAppend_eq_some happend hlength
        refine hput.setFrag ?_
        intro _
        refine ⟨hfits, by simp [macN203HalfSlots], ?_⟩
        intro _
        refine ⟨0, Nat.zero_le _, ?_⟩
        dsimp only [setFrag_log, World.note]
        rw [hcc] at hassembly ⊢
        rw [← append_assoc]
        exact hassembly.piece c

/-- A rebuilt TM-SDU is delivered, unless the fragments were forgotten on the way. -/
theorem completeFragment_good (h : w.Open L b.lane)
    (hjustified : Justified (L ++ w.log) (.rebuilt b.lane (w.frags b.lane).bits)) :
    (completeFragment b w).Good L b.lane := by
  have hreacted := h.react
  unfold completeFragment
  dsimp only
  split
  · rename_i hbits
    rcases react_cases w with ⟨hfrags, hlog, -⟩ | ⟨hfrags, -⟩
    · rw [← hlog, ← hfrags] at hjustified
      have hnoted := hreacted.note (e := .rebuilt b.lane _) (fun _ => ⟨trivial, rfl⟩) hjustified
      exact hnoted.react.discard _
    · rw [hfrags] at hbits
      exact absurd rfl hbits
  · exact hreacted.react.discard _

/-- A MAC-END completes the TM-SDU, or settles the context. -/
theorem parseMacEnd_good (h : w.Good L b.lane) {last : MacEnd}
    (hdecode : endDecode bits = some last) :
    (parseMacEnd b bits (w.note
      (.pdu b.lane b.cc (.piece true ((last.contents bits).map Prod.snd))))).2.Good L b.lane := by
  have hopen := h.hear b.cc (.piece true ((last.contents bits).map Prod.snd))
  have hany : (w.note (.pdu b.lane b.cc (.piece true
      ((last.contents bits).map Prod.snd)))).log.any (isFragment b.lane) := by
    simp [World.note, isFragment, Pdu.isFragment]
  unfold parseMacEnd
  rw [hdecode]
  rcases fragmentContinues_cases h (.piece true ((last.contents bits).map Prod.snd)) with
    ⟨hstops, hgood⟩ | ⟨hactive, hcc, hcontinues⟩
  · dsimp only
    rw [hstops]
    exact hgood
  · have hput := (hopen.see hany).put { w.frags b.lane with idleHalfSlots := 0 }
    obtain ⟨hlength, hwaits, hassembly⟩ := h.own hactive
    rw [hcontinues]
    dsimp only
    rw [if_pos rfl, finishFragment, setFrag_self]
    dsimp only
    split_ifs with hencrypted
    · exact hput.react.react.discard _
    · exact hput.react.discard _
    · obtain ⟨idle, -, hassembly⟩ := hassembly (not_not.mp hencrypted)
      split
      · exact hput.discard _
      · rename_i g hg
        obtain ⟨c, hc, happend⟩ := Option.bind_eq_some_iff.mp hg
        obtain ⟨rfl, hfits⟩ := fragmentAppend_eq_some happend hlength
        refine completeFragment_good (hput.put _) ?_
        rw [setFrag_self]
        refine ⟨b.cc, L ++ w.log, (w.frags b.lane).bits, idle, c.2, ?_, ?_, rfl, hfits⟩
        · dsimp only [setFrag_log, World.note]
          rw [hc, append_assoc]
          rfl
        · rw [hcc] at hassembly
          exact hassembly

theorem resourceDecode_encMode_lt {h : Resource} (hdecode : resourceDecode bits = some h) :
    h.encMode < 4 := by
  have hlt : (readResourceFront (Reader.over bits bits.length 0)).1.2.2.2.1 < 4 := read_lt 2 _
  simp only [resourceDecode] at hdecode
  split at hdecode
  rename_i heq
  rw [heq] at hlt
  split_ifs at hdecode
  split at hdecode
  · cases hdecode
  · split at hdecode
    split_ifs at hdecode
    cases hdecode
    exact hlt

/-- What a PDU was to its block is still in the log when the layers above are done. -/
theorem any_react {p : Entry → Bool} (h : w.log.any p = true) : w.react.log.any p = true := by
  rcases react_cases w with ⟨-, hlog, -⟩ | ⟨-, hlog, -⟩
  · rw [hlog]
    exact h
  · rw [hlog, any_append, h]
    rfl

/-- A start just heard is the last of the log for as long as it can be kept. -/
theorem start_after_react (w : World) (L : List Entry) (b : Block) (sdu : List Bool)
    (hrunning : fragmentTimeslot (w.note (.pdu b.lane b.cc (.start false sdu))).react.clock ≠ 0) :
    L ++ (w.note (.pdu b.lane b.cc (.start false sdu))).react.log =
      (L ++ w.log) ++ [.pdu b.lane b.cc (.start false sdu)] := by
  rcases react_cases (w.note (.pdu b.lane b.cc (.start false sdu))) with
    ⟨-, hlog, -⟩ | ⟨-, -, -, hstopped⟩
  · rw [hlog, World.note, append_assoc]
  · refine absurd ?_ hrunning
    simp [fragmentTimeslot, hstopped]

theorem justified_after_react (w : World) (L : List Entry) (lane : ℕ) (cc : BitVec 6)
    (sdu : List Bool) :
    Justified (L ++ (w.note (.pdu lane cc (.whole sdu))).react.log) (.delivered sdu) := by
  rcases react_cases (w.note (.pdu lane cc (.whole sdu))) with ⟨-, hlog, -⟩ | ⟨-, hlog, -⟩
  · refine ⟨L ++ w.log, lane, cc, [], ?_, nofun⟩
    rw [hlog, World.note, append_assoc]
  · refine ⟨L ++ w.log, lane, cc, [.forget], ?_, fun e he => mem_singleton.mp he⟩
    rw [hlog, World.note]
    simp

theorem resourceEncrypted_good (h : w.Good L b.lane) {r : Resource}
    (hencrypted : r.encMode % 4 ≠ encModeNone) :
    (resourceEncrypted b r (w.note (.pdu b.lane b.cc
      (if r.lengthInd = macLiFragmentStart then .start true [] else .other)))).Good L b.lane := by
  unfold resourceEncrypted
  dsimp only
  split_ifs
  · refine startFragment_good (h.hear b.cc _).react (any_react ?_) _ ?_
    · simp [World.note, isFragment, Pdu.isFragment]
    · intro _ hclear
      exact absurd hclear hencrypted
  · exact (h.hearOther b.cc rfl).react.react

theorem resourceClear_good (h : w.Good L b.lane) (r : Resource) (sdu : List Bool) :
    (if r.lengthInd = macLiFragmentStart then
        (r.pduBits, startFragment b r.addr encModeNone sdu
          (w.note (.pdu b.lane b.cc (if r.lengthInd = macLiFragmentStart then .start false sdu
            else .whole sdu))).react)
      else
        (r.pduBits, deliverTmSdu sdu
          (w.note (.pdu b.lane b.cc (if r.lengthInd = macLiFragmentStart then .start false sdu
            else .whole sdu))).react)).2.Good L b.lane := by
  split_ifs
  · refine startFragment_good (h.hear b.cc _).react (any_react ?_) _ ?_
    · simp [World.note, isFragment, Pdu.isFragment]
    · intro hrunning _
      exact ⟨_, start_after_react w L b sdu hrunning⟩
  · exact deliverTmSdu_good (h.hearOther b.cc rfl).react
      (justified_after_react w L b.lane b.cc sdu)

/-- A MAC-RESOURCE starts a TM-SDU, delivers its own, or concerns none. -/
theorem parseMacResource_good (h : w.Good L b.lane) (bits : List Bool) :
    (parseMacResource b bits (w.note (.pdu b.lane b.cc (classifyResource bits)))).2.Good L
    b.lane := by
  unfold parseMacResource classifyResource
  cases hdecode : resourceDecode bits with
  | none => exact h.hearOther b.cc rfl
  | some r =>
    dsimp only
    by_cases hencrypted : r.encMode ≠ encModeNone
    · rw [if_pos hencrypted, if_pos hencrypted]
      refine resourceEncrypted_good h ?_
      rwa [Nat.mod_eq_of_lt (resourceDecode_encMode_lt hdecode)]
    · rw [if_neg hencrypted, if_neg hencrypted]
      cases r.contents bits with
      | none => exact h.hearOther b.cc rfl
      | some c => exact resourceClear_good h r c.2

/-- A MAC-D-BLCK delivers its own TM-SDU, or concerns none. -/
theorem parseSupplementary_good (h : w.Good L b.lane) (bits : List Bool) :
    (parseSupplementary b bits
      (w.note (.pdu b.lane b.cc (classifySupplementary b.blockBits bits)))).2.Good L b.lane := by
  unfold parseSupplementary classifySupplementary
  split_ifs
  · exact h.hearOther b.cc rfl
  · cases dBlckDecode bits with
    | none => exact h.hearOther b.cc rfl
    | some c =>
      obtain ⟨encMode, eventLabel, sdu⟩ := c
      dsimp only
      split_ifs with hdelivers hclear hclear
      · refine ((h.hearOther b.cc rfl).note (e := .delivered sdu) (fun _ =>
          ⟨trivial, rfl⟩) ?_).react
        refine ⟨L ++ w.log, b.lane, b.cc, [], ?_, nofun⟩
        rw [World.note, append_assoc]
      · exact absurd hdelivers.1 hclear
      · exact h.hearOther b.cc rfl
      · exact h.hearOther b.cc rfl

/-- Every PDU keeps the contexts and the log in step. -/
theorem parsePdu_good (h : w.Good L b.lane) (first : Bool) (bits : List Bool) :
    (parsePdu b first bits
      (w.note (.pdu b.lane b.cc (classify b.blockBits bits)))).2.Good L b.lane := by
  unfold parsePdu classify
  dsimp only
  generalize pduType bits = kind
  obtain ⟨type, subtype⟩ := kind
  dsimp only
  by_cases hresource : type = macTypeResource
  · simp only [if_pos hresource]
    exact parseMacResource_good h bits
  · by_cases hfragEnd : type = macTypeFragEnd
    · by_cases hend : subtype = macFrageEnd
      · simp only [if_neg hresource, if_pos hfragEnd, if_pos hend]
        cases hdecode : endDecode bits with
        | none =>
          simp only [parseMacEnd, hdecode]
          exact h.hearOther b.cc rfl
        | some last => exact parseMacEnd_good h hdecode
      · simp only [if_neg hresource, if_pos hfragEnd, if_neg hend]
        cases hdecode : fragDecode bits with
        | none =>
          simp only [parseMacFrag, hdecode]
          exact h.hearOther b.cc rfl
        | some sdu => exact parseMacFrag_good h hdecode
    · by_cases hbroadcast : type = macTypeBroadcast
      · simp only [if_neg hresource, if_neg hfragEnd, if_pos hbroadcast, parseBroadcast]
        have hheard := h.hearOther b.cc (p := .other) rfl
        split_ifs
        · exact hheard
        · split
          · exact hheard
          · exact hheard
        · exact hheard.react
        · exact hheard
        · exact hheard
      · simp only [if_neg hresource, if_neg hfragEnd, if_neg hbroadcast]
        exact parseSupplementary_good h bits

/-- The PDUs of a block keep the contexts and the log in step. -/
theorem parseLoop_good (fuel : ℕ) (h : w.Good L b.lane) (first : Bool) (bits : List Bool) :
    (parseLoop b fuel first bits w).Good L b.lane := by
  induction fuel generalizing first bits w with
  | zero => exact h
  | succ fuel ih =>
    have hpdu := parsePdu_good h first bits
    rw [parseLoop]
    by_cases hshort : bits.length < (if first then 2 else macNullPduBits)
    · rw [if_pos hshort]
      exact h
    · rw [if_neg hshort]
      dsimp only
      split
      · exact hpdu
      · exact ih hpdu false _

theorem Held.age (h : Held lane f log) {waited : ℕ} (hwaited : f.idleHalfSlots ≤ waited) :
    Held lane (expireIfIdle { f with idleHalfSlots := waited }) log := by
  unfold expireIfIdle
  dsimp only
  split
  · exact held_discardFragment _ _ _
  · rename_i hlive
    intro hactive
    obtain ⟨hlength, -, hassembly⟩ := h hactive
    refine ⟨hlength, Nat.not_le.mp hlive, ?_⟩
    intro hclear
    obtain ⟨idle, hle, hassembly⟩ := hassembly hclear
    exact ⟨idle, Nat.le_trans hle hwaited, hassembly⟩

/-- The contexts of a run hold what its log ends in, and the log is faithful. -/
structure State.Good (s : State) : Prop where
  held : ∀ l, Held l (s.frags l) s.log
  faithful : Faithful s.log

/-- The slots that went by undecoded are counted before a block is read. -/
theorem catchUpFragment_held {clock : Clock} {last : Option ℕ}
    (hrunning : fragmentTimeslot clock ≠ 0)
    (hf : ∀ before, last = some before → f.slotStart = BitVec.ofNat 32 before)
    (h : Held (fragmentTimeslot clock) f log) :
    Held (fragmentTimeslot clock) (catchUpFragment clock f)
      (log ++ [.block (fragmentTimeslot clock) last clock.slotSymbol]) := by
  have hsame : Held (fragmentTimeslot clock) { f with slotStart := clock.slotStart } log := h
  have hcounted := idle_block_le hf (fragmentTimeslot clock) clock.slotSymbol
  rw [← Clock.slotStart] at hcounted
  unfold catchUpFragment
  rw [if_neg hrunning]
  dsimp only
  split
  · rename_i hstill
    rcases hstill with hinactive | hnone
    · exact fun hactive => absurd hactive hinactive
    · refine hsame.harmless trivial ?_
      rw [hnone] at hcounted
      exact Nat.eq_zero_of_le_zero hcounted
  · refine hsame.wait (e := .block _ last clock.slotSymbol) trivial ?_
    dsimp only
    omega

theorem entered_good (h : s.Good) (hpaced : s.Paced) (clock : Clock) (current : Bool)
    (reactions : List Reaction) :
    World.Good
      { frags := update s.frags (fragmentTimeslot clock)
          (catchUpFragment clock (s.frags (fragmentTimeslot clock)))
        clock := clock
        current := current
        fragmentSeen := false
        reactions := reactions
        log :=
          if fragmentTimeslot clock = 0 then [] else [.block (fragmentTimeslot clock)
            (lastBlock (fragmentTimeslot clock) s.log) clock.slotSymbol] }
      s.log (fragmentTimeslot clock) := by
  by_cases hstopped : fragmentTimeslot clock = 0
  · have hsame : catchUpFragment clock (s.frags 0) = s.frags 0 := if_pos hstopped
    rw [hstopped, hsame, update_eq_self, if_pos rfl]
    refine ⟨⟨?_, ?_, nofun⟩, ?_⟩
    · intro l _
      rw [append_nil]
      exact h.held l
    · rw [append_nil]
      exact h.faithful
    · rw [append_nil]
      exact h.held 0
  · rw [if_neg hstopped]
    refine ⟨⟨?_, h.faithful.snoc trivial, nofun⟩, ?_⟩
    · intro l hl
      dsimp only
      rw [update_of_ne hl]
      refine (h.held l).harmless trivial ?_
      cases lastBlock (fragmentTimeslot clock) s.log with
      | none => rfl
      | some last => exact if_neg fun heq => hl heq.1.symm
    · dsimp only
      rw [update_self]
      exact catchUpFragment_held hstopped (hpaced.slotStart _) (h.held _)

/-- A block that is read leaves the contexts and the log in step. -/
theorem aged_good (h : w.Good L b.lane) :
    State.Good
      { frags := (ageFragment b w).frags
        log := L ++
          if (ageFragment b w).log.any (isFragment b.lane) then (ageFragment b w).log
          else (ageFragment b w).log ++ [.quiet b.lane b.blockBits] } := by
  have hlog : (ageFragment b w).log = w.log := by
    unfold ageFragment
    dsimp only
    split <;> rfl
  have hothers : ∀ l ≠ b.lane, (ageFragment b w).frags l = w.frags l := by
    intro l hl
    unfold ageFragment
    dsimp only
    split
    · rfl
    · exact w.setFrag_of_ne _ hl
  have hidle : ∀ l ≠ b.lane, Entry.idle near l (.quiet b.lane b.blockBits) = 0 :=
    fun l hl => if_neg (fun heq => hl heq.symm)
  rw [hlog]
  by_cases hany : w.log.any (isFragment b.lane) = true
  · rw [if_pos hany]
    refine ⟨?_, h.faithful⟩
    intro l
    by_cases hl : l = b.lane
    · rw [hl]
      unfold ageFragment
      dsimp only
      split
      · exact h.own
      · rw [setFrag_self]
        exact h.own.age (Nat.le_add_right _ _)
    · dsimp only
      rw [hothers l hl]
      exact h.held l hl
  · rw [if_neg hany, ← append_assoc]
    refine ⟨?_, h.faithful.snoc trivial⟩
    intro l
    by_cases hl : l = b.lane
    · rw [hl]
      have hunseen : ¬ w.fragmentSeen = true := fun hseen => hany (h.seen hseen)
      unfold ageFragment
      dsimp only
      split
      · rename_i hstill
        rcases hstill with hinactive | hseen
        · exact fun hactive => absurd hactive hinactive
        · exact absurd hseen hunseen
      · rw [setFrag_self]
        refine h.own.wait (e := .quiet b.lane b.blockBits) trivial ?_
        simp only [Entry.idle, if_pos]
        exact Nat.min_le_left _ _
    · dsimp only
      rw [hothers l hl]
      exact (h.held l hl).harmless trivial (hidle l hl)

/-- Every step keeps the contexts and the log in step. -/
theorem take_good (h : s.Good) (hpaced : s.Paced) (step : Step) : (step.take s).Good := by
  cases step with
  | block bits cc uplink clock current reactions =>
    change (macParseSchd s bits cc uplink clock current reactions).Good
    unfold macParseSchd
    split
    · exact h
    · have hentered := entered_good h hpaced clock current reactions
      exact aged_good (b := ⟨cc, bits.length, fragmentTimeslot clock⟩)
        (parseLoop_good _ hentered true bits)
  | blockFailed uplink clock =>
    change (macBlockFailed s uplink clock).Good
    unfold macBlockFailed
    dsimp only
    split
    · exact h
    · refine ⟨?_, h.faithful.snoc trivial⟩
      intro l
      by_cases hl : l = fragmentTimeslot clock
      · rw [hl]
        dsimp only
        rw [update_self]
        exact held_discardFragment _ _ _
      · dsimp only
        rw [update_of_ne hl]
        exact (h.held l).harmless (fun heq => hl heq.symm) rfl
  | forgetFragments =>
    exact ⟨fun l => held_discardFragment _ _ _, h.faithful.snoc trivial⟩

/-- Every run keeps the contexts and the log in step. -/
theorem run_good (steps : List Step) : (run steps).Good := by
  unfold run
  have hstart : State.start.Good := by
    refine ⟨fun l => held_discardFragment l Fragment.start [], ?_⟩
    intro pre e post hsplit
    exact absurd hsplit.symm (append_ne_nil_of_right_ne_nil _ (cons_ne_nil _ _))
  have hpaced := start_paced
  generalize State.start = s at hstart hpaced ⊢
  induction steps generalizing s with
  | nil => exact hstart
  | cons step steps ih => exact ih _ (take_good hstart hpaced step) (take_paced hpaced step)

end DsdNeo.Tetra.Mac
