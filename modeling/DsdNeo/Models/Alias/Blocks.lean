import DsdNeo.Models.Alias.Descramble
import DsdNeo.Models.Dmr.Aggregates

/-!
# Blocks of a talker alias

An alias is sent as a header, which says how many blocks follow, and the blocks in order. They
are stored one after the other, and once the last is there the length of the record is told from
what is stored: it goes on up to the first word of sixteen zeros.
-/

namespace DsdNeo.Alias

open Tape (numberAt)

/-- The bits of a link control word, and of the row they are stored in, by place. -/
abbrev Cells := ℕ → Bool

/-- The size of `dmr_pdu_sf` of a slot. -/
def rowBits : ℕ := 24 * 128

/-- `p25_apx_alias_rx_state_t`. -/
structure Rx where
  valid : Bool
  sequence : ℕ
  blockCount : ℕ
  nextBlock : ℕ
  deriving DecidableEq, Repr

/-- `apx_alias_state_reset`. -/
def Rx.reset : Rx := ⟨false, 0, 0, 0⟩

/-- `apx_alias_state_begin`. -/
def Rx.begin (sequence blockCount : ℕ) : Rx := ⟨decide (blockCount ≠ 0), sequence, blockCount, 1⟩

/-- The tests of `apx_alias_state_accept_block`. -/
def Rx.accepts (rx : Rx) (sequence blockNum : ℕ) : Bool :=
  rx.valid && blockNum != 0 && decide (blockNum ≤ rx.blockCount) && sequence == rx.sequence &&
    blockNum == rx.nextBlock

/-- `apx_alias_state_accept_block`, of a block that is accepted. -/
def Rx.accepted (rx : Rx) (blockNum : ℕ) : Rx :=
  if blockNum < rx.blockCount then { rx with nextBlock := blockNum + 1 } else .reset

/-- What is kept for a slot: the row, and how far an alias got. -/
structure Store where
  row : Cells
  rx : Rx

/-- Nothing stored. -/
def Store.reset : Store := ⟨fun _ => false, .reset⟩

/-- `APX_ALIAS_MAX_OCTETS`. -/
def aliasMaxOctets : ℕ := 200

/-- What `apx_embedded_alias_decode` ends with. -/
inductive Outcome
  | lengthError
  | crcError
  /-- The check is right: the identity in front of the alias, and the octets of the alias. -/
  | decoded (wacn sys rid : ℕ) (octets : Option (List (BitVec 8)))
  deriving DecidableEq, Repr

/-- The buffer `encoded` of `apx_embedded_alias_decode`. -/
def encodedOctets (input : Cells) (numBytes : ℕ) : List (BitVec 8) :=
  (List.range numBytes).map (fun i => BitVec.ofNat 8 (numberAt input (128 + 8 * i) 8)) ++
    List.replicate (aliasMaxOctets - numBytes) 0

/-- `apx_embedded_alias_decode`. -/
def apxEmbeddedAliasDecode (numBits : ℕ) (input : Cells) : Outcome :=
  if numBits < 72 ∨ numBits / 8 < 9 then .lengthError
  else if aliasMaxOctets < numBits / 8 - 9 then .lengthError
  else
    let numBytes := numBits / 8 - 9
    let crcExt := numberAt input (72 + numBits - 16) 16
    let crcCmp := Dmr.DataBlocks.crcCcitt16Bits
      ((List.range (numBits - 16)).map fun k => input (72 + k))
    if crcExt ≠ crcCmp.toNat then .crcError
    else
      .decoded (numberAt input 72 20) (numberAt input 92 12) (numberAt input 104 24)
        ((apxEmbeddedAliasUnscramble 127 (encodedOctets input numBytes) (BitVec.ofNat 16 numBytes)
          (List.replicate aliasMaxOctets 0)).map fun octets => octets.take numBytes)

/-- `apx_embedded_alias_header_phase1`. -/
def apxEmbeddedAliasHeaderPhase1 (lcBits : Cells) : Store where
  row := fun k => decide (k < 72) && lcBits k
  rx := .begin (numberAt lcBits 56 4) (numberAt lcBits 32 8)

/-- The words a record has after its identity, as far as they are not zero. -/
def aliasWords (row : Cells) : ℕ :=
  ((List.range 184).takeWhile fun i => numberAt row (72 + 56 + i * 16) 16 ≠ 0).length

/-- A call of the decoder of a record. -/
structure Call where
  numBits : ℕ
  outcome : Outcome

/-- `apx_alias_store_block`, of the data of a block. -/
def storeBlock (row : Cells) (offset : ℕ) (lcBits : Cells) : Cells := fun k =>
  if offset ≤ k ∧ k < offset + 44 then lcBits (28 + (k - offset)) else row k

/-- `apx_embedded_alias_blocks_phase1`. -/
def apxEmbeddedAliasBlocksPhase1 (s : Store) (lcBits : Cells) : Option Call × Store :=
  let bn := numberAt lcBits 16 8
  let sn := numberAt lcBits 24 4
  let taLen := numberAt s.row 32 8
  let header := numberAt s.row 0 16
  if taLen = 0 ∨ header ≠ 0x1590 then (none, .reset)
  else if s.rx.accepts sn bn = false then (none, .reset)
  else
    let offset := (bn - 1) * 44 + 72
    if rowBits < offset + 44 then (none, .reset)
    else
      let stored : Store := ⟨storeBlock s.row offset lcBits, s.rx.accepted bn⟩
      if taLen ≠ bn then (none, stored)
      else
        let numBits := 56 + 16 * aliasWords stored.row
        (some ⟨numBits, apxEmbeddedAliasDecode numBits stored.row⟩,
          { stored with row := fun _ => false })

/-- What is done to the store of a slot on a Phase 1 carrier. -/
inductive Op
  | header (lcBits : Cells)
  | block (lcBits : Cells)
  /-- The end of a talker, which clears the row. -/
  | talkerEot

/-- One message. -/
def Store.step (s : Store) : Op → Store
  | .header lcBits => apxEmbeddedAliasHeaderPhase1 lcBits
  | .block lcBits => (apxEmbeddedAliasBlocksPhase1 s lcBits).2
  | .talkerEot => { s with row := fun _ => false }

/-- Messages in turn. -/
def Store.run (s : Store) (ops : List Op) : Store := ops.foldl Store.step s

/-- Blocks that follow a header: numbered in order, with its sequence number. -/
def InOrder (header : Cells) (blocks : List Cells) : Prop :=
  ∀ i (h : i < blocks.length),
    numberAt blocks[i] 16 8 = i + 1 ∧ numberAt blocks[i] 24 4 = numberAt header 56 4

/-- A header and blocks in order after it, fewer than it announces, end the messages. -/
structure Partial (ops : List Op) (header : Cells) (blocks : List Cells) : Prop where
  ends : ∃ before, ops = before ++ .header header :: blocks.map .block
  inOrder : InOrder header blocks
  fewer : blocks.length < numberAt header 32 8

/-- What the store holds after messages: nothing a block is accepted by, or the header and the
blocks that are there. -/
def Follows (ops : List Op) (s : Store) : Prop :=
  numberAt s.row 32 8 = 0 ∨ numberAt s.row 0 16 ≠ 0x1590 ∨ s.rx.valid = false ∨
    ∃ header blocks, Partial ops header blocks ∧
      (∀ k < 72, s.row k = header k) ∧
      s.rx = ⟨true, numberAt header 56 4, numberAt header 32 8, blocks.length + 1⟩

variable {s : Store} {ops : List Op} {lc header : Cells} {blocks : List Cells} {call : Call}

/-- A row without a header is told by nothing. -/
theorem Follows.nothing (h : s.row = fun _ => false) : Follows ops s := by
  left
  rw [h]
  decide

/-- A field of the row is the header's, where the row is the header's. -/
theorem stored_field {row : Cells} {pos width : ℕ} (h : ∀ k < 72, row k = header k)
    (hfits : pos + width ≤ 72) : numberAt row pos width = numberAt header pos width :=
  Tape.numberAt_congr hfits h

/-- Blocks in order, and the next one after them. -/
theorem InOrder.snoc (h : InOrder header blocks) (hbn : numberAt lc 16 8 = blocks.length + 1)
    (hsn : numberAt lc 24 4 = numberAt header 56 4) : InOrder header (blocks ++ [lc]) := by
  intro i hi
  rw [List.length_append, List.length_singleton] at hi
  rcases Nat.lt_or_ge i blocks.length with hlt | hge
  · rw [List.getElem_append_left hlt]
    exact h i hlt
  · obtain rfl : i = blocks.length := by omega
    rw [List.getElem_append_right hge]
    simpa using ⟨hbn, hsn⟩

/-- A block accepted is the next one of the header last received. -/
theorem Follows.accepts (h : Follows ops s) (htaLen : numberAt s.row 32 8 ≠ 0)
    (hheader : numberAt s.row 0 16 = 0x1590)
    (haccepts : s.rx.accepts (numberAt lc 24 4) (numberAt lc 16 8) = true) :
    ∃ header blocks, Partial ops header blocks ∧ (∀ k < 72, s.row k = header k) ∧
      InOrder header (blocks ++ [lc]) ∧ numberAt lc 16 8 = blocks.length + 1 ∧
      s.rx = ⟨true, numberAt header 56 4, numberAt header 32 8, blocks.length + 1⟩ := by
  rcases h with hzero | hother | hvalid | ⟨header, blocks, hpartial, hrow, hrx⟩
  · exact absurd hzero htaLen
  · exact absurd hheader hother
  · simp [Rx.accepts, hvalid] at haccepts
  · simp only [Rx.accepts, hrx, Bool.and_eq_true, beq_iff_eq] at haccepts
    obtain ⟨⟨-, hsn⟩, hbn⟩ := haccepts
    exact ⟨header, blocks, hpartial, hrow, hpartial.inOrder.snoc hbn hsn, hbn, hrx⟩

/-- A call is decoded from a header and all its blocks, each received in order. -/
theorem Follows.decoded (h : Follows ops s)
    (hcall : (apxEmbeddedAliasBlocksPhase1 s lc).1 = some call) :
    ∃ before header blocks, ops = before ++ .header header :: blocks.map .block ∧
      numberAt header 0 16 = 0x1590 ∧ InOrder header (blocks ++ [lc]) ∧
      (blocks ++ [lc]).length = numberAt header 32 8 := by
  simp only [apxEmbeddedAliasBlocksPhase1] at hcall
  split_ifs at hcall with hmissing haccepts hroom hmore
  rw [not_or, not_not] at hmissing
  obtain ⟨header, blocks, hpartial, hrow, hinOrder, hbn, -⟩ :=
    h.accepts hmissing.1 hmissing.2 (by simpa using haccepts)
  obtain ⟨before, hops⟩ := hpartial.ends
  refine ⟨before, header, blocks, hops, ?_, hinOrder, ?_⟩
  · rw [← stored_field hrow (by decide), hmissing.2]
  · rw [← stored_field hrow (by decide), not_not.mp hmore, hbn, List.length_append,
      List.length_singleton]

/-- One operation keeps the row to the run. -/
theorem Follows.step (h : Follows ops s) (op : Op) : Follows (ops ++ [op]) (s.step op) := by
  cases op with
  | talkerEot => exact .nothing rfl
  | header lc =>
    have hfirst : ∀ k < 72, (apxEmbeddedAliasHeaderPhase1 lc).row k = lc k := by
      intro k hk
      simp [apxEmbeddedAliasHeaderPhase1, hk]
    by_cases hcount : numberAt lc 32 8 = 0
    · left
      exact (stored_field hfirst (by decide)).trans hcount
    · refine .inr (.inr (.inr ⟨lc, [], ⟨⟨ops, rfl⟩, nofun, Nat.pos_of_ne_zero hcount⟩, hfirst, ?_⟩))
      simp [Store.step, apxEmbeddedAliasHeaderPhase1, Rx.begin, hcount]
  | block lc =>
    simp only [Store.step, apxEmbeddedAliasBlocksPhase1]
    split_ifs with hmissing haccepts hroom hmore
    · exact .nothing rfl
    · exact .nothing rfl
    · exact .nothing rfl
    · rw [not_or, not_not] at hmissing
      obtain ⟨header, blocks, hpartial, hrow, hinOrder, hbn, hrx⟩ :=
        h.accepts hmissing.1 hmissing.2 (by simpa using haccepts)
      have hlast : numberAt lc 16 8 ≠ numberAt header 32 8 := by
        rw [← stored_field hrow (by decide)]
        exact Ne.symm hmore
      have hle : numberAt lc 16 8 ≤ numberAt header 32 8 := by
        rw [hbn]
        exact hpartial.fewer
      have hmore' : blocks.length + 1 < numberAt header 32 8 := hbn ▸ hle.lt_of_ne hlast
      obtain ⟨before, hops⟩ := hpartial.ends
      refine .inr (.inr (.inr ⟨header, blocks ++ [lc], ⟨⟨before, by simp [hops]⟩, hinOrder, ?_⟩,
        ?_, ?_⟩))
      · simpa using hmore'
      · intro k hk
        rw [← hrow k hk]
        exact if_neg (by omega)
      · simp [Rx.accepted, hrx, hbn, hmore']
    · exact .nothing rfl

/-- After any run the row tells the last header and its blocks. -/
theorem follows_run (ops : List Op) : Follows ops (Store.reset.run ops) := by
  induction ops using List.reverseRecOn with
  | nil => exact .nothing rfl
  | append_singleton ops op ih =>
    rw [Store.run, List.foldl_append]
    exact ih.step op

end DsdNeo.Alias
