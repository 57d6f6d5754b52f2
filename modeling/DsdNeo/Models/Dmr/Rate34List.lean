import DsdNeo.Core.Trellis.Ranked
import DsdNeo.Models.Dmr.Rate34Soft

/-!
# The list decoder of the rate 3/4 trellis

`dmr_r34_viterbi_decode_list`. For each state the decoder keeps 32 slots in the order of their
metrics. A slot holds its metric and the state and rank it was reached from, which the source has
in three arrays that are shifted together.
-/

namespace DsdNeo.Dmr.Rate34

open Trellis Trellis34 List

/-- One entry of `metric_curr`, `back_state_t` and `back_rank_t`. -/
structure Slot where
  metric : ℕ
  state : Fin 8
  rank : ℕ
  deriving DecidableEq, Repr

/-- A slot that is not in use. -/
def Slot.free : Slot := ⟨inf, 0, 0⟩

/-- `r34_unweighted_list_cost`. -/
def unweightedListCost (expectNib obsNib : ℕ) : ℕ :=
  let x := expectNib ^^^ obsNib
  let bitcnt := (x >>> 0 &&& 1) + (x >>> 1 &&& 1) + (x >>> 2 &&& 1) + (x >>> 3 &&& 1)
  if x ≠ 0 then 256 + bitcnt else 0

/-- Cost of an edge at step `t`, weighted or not. -/
def listCost (nibs : List ℕ) (weights : List ℕ × List ℕ) (weighted : Bool) (t : ℕ)
    (ps ns : Fin 8) : ℕ :=
  if weighted then softCost nibs weights t ps ns
  else unweightedListCost (edgeNibble ps ns) (nibs.getD t 0)

/-- The shift of `r34_insert_topk` from slot `rr + n` down to slot `rr + 1`. -/
def shiftUp (rr : ℕ) : ℕ → List Slot → List Slot
  | 0, slots => slots
  | n + 1, slots => shiftUp rr n (slots.set (rr + n + 1) (slots.getD (rr + n) Slot.free))

/-- `r34_insert_topk` on the slots of one state. -/
def insertTopk (slots : List Slot) (new : Slot) : List Slot :=
  match (List.range 32).find? fun rr => decide (new.metric ≤ (slots.getD rr Slot.free).metric) with
  | none => slots
  | some rr => (shiftUp rr (31 - rr) slots).set rr new

/-- The slots of every state. -/
abbrev Slots := List.Vector (List Slot) 8

/-- `r34_viterbi_step_list` from slots that are not in use. -/
def viterbiStepList (cost : Fin 8 → Fin 8 → ℕ) (metricPrev : List.Vector (List ℕ) 8) : Slots :=
  (List.finRange 8).foldl
    (fun curr ps => (List.range 32).foldl
      (fun curr pr =>
        let m0 := (metricPrev.get ps).getD pr inf
        if inf ≤ m0 then curr
        else (List.finRange 8).foldl
          (fun curr ns => curr.set ns (insertTopk (curr.get ns) ⟨m0 + cost ps ns, ps, pr⟩)) curr)
      curr)
    (List.Vector.replicate 8 (List.replicate 32 Slot.free))

/-- `metric_prev`, and `back_state` with `back_rank`. -/
structure Ranked where
  metric : List.Vector (List ℕ) 8
  back : ℕ → Fin 8 → ℕ → Fin 8 × ℕ

/-- `r34_metric_init_2d`, with pointers not yet written. -/
def Ranked.init : Ranked :=
  ⟨List.Vector.ofFn fun s => (List.replicate 32 inf).set 0 (if s = 0 then 0 else inf),
    fun _ _ _ => (0, 0)⟩

/-- One turn of the loop of `r34_run_viterbi_list`. -/
def Ranked.step (cost : ℕ → Fin 8 → Fin 8 → ℕ) (t : ℕ) (v : Ranked) : Ranked :=
  let slots := viterbiStepList (cost t) v.metric
  ⟨slots.map fun row => row.map Slot.metric,
    Function.update v.back t fun s r =>
      let slot := (slots.get s).getD r Slot.free
      (slot.state, slot.rank)⟩

/-- `r34_run_viterbi_list`, its first `n` steps. -/
def runViterbiList (cost : ℕ → Fin 8 → Fin 8 → ℕ) : ℕ → Ranked
  | 0 => Ranked.init
  | n + 1 => (runViterbiList cost n).step cost n

/-- `r34_cand_idx`. -/
structure CandIdx where
  metric : ℕ
  state : Fin 8
  rank : ℕ
  deriving DecidableEq, Repr

/-- `r34_collect_final_indices`. -/
def collectFinalIndices (metricPrev : List.Vector (List ℕ) 8) : List CandIdx :=
  ((List.range 32).filter fun r => decide ((metricPrev.get 0).getD r inf < inf)).map fun r =>
    ⟨(metricPrev.get 0).getD r inf, 0, r⟩

/-- The inner loop of `r34_sort_indices_by_metric`, on the sorted part from its end. -/
def insertFromEnd (key : CandIdx) : List CandIdx → List CandIdx
  | [] => [key]
  | x :: xs => if x.metric > key.metric then x :: insertFromEnd key xs else key :: x :: xs

/-- `r34_sort_indices_by_metric`. -/
def sortIndicesByMetric (idx : List CandIdx) : List CandIdx :=
  (idx.foldl (fun done key => insertFromEnd key done) []).reverse

/-- `r34_traceback_state_rank`. -/
def tracebackStateRank (back : ℕ → Fin 8 → ℕ → Fin 8 × ℕ) : ℕ → Fin 8 → ℕ → List (Fin 8) →
    List (Fin 8)
  | 0, _, _, states => states
  | t + 1, s, r, states => tracebackStateRank back t (back t s r).1 (back t s r).2 (s :: states)

/-- `dmr_r34_candidate`. -/
structure Candidate where
  metric : ℕ
  bytes18 : Fin 18 → UInt8
  deriving DecidableEq

/-- `r34_write_list_candidates`. -/
def writeListCandidates (back : ℕ → Fin 8 → ℕ → Fin 8 × ℕ) (idx : List CandIdx)
    (maxCandidates : ℕ) : List Candidate :=
  (idx.take maxCandidates).map fun c =>
    ⟨c.metric, packStatesToBytes (tracebackStateRank back 49 c.state c.rank [])⟩

/-- `dmr_r34_viterbi_decode_list`: the candidates, or nothing where it refuses. -/
def decodeList (dibits98 : Fin 98 → UInt8) (reliab98 : Option (Fin 98 → UInt8))
    (maxCandidates : ℤ) : Option (List Candidate) :=
  if maxCandidates ≤ 0 then none
  else
    let nibs := prepareNibbles dibits98
    let weights := prepareReliabilityWeights reliab98
    let v := runViterbiList (listCost nibs weights reliab98.isSome) 49
    let idx := sortIndicesByMetric (collectFinalIndices v.metric)
    some (writeListCandidates v.back idx maxCandidates.toNat)

/-- Each slot above `rr` holds what the one below it held. -/
theorem getElem?_shiftUp {rr n : ℕ} {slots : List Slot} (hn : rr + n < slots.length) (j : ℕ) :
    (shiftUp rr n slots)[j]? = if rr < j ∧ j ≤ rr + n then slots[j - 1]? else slots[j]? := by
  induction n generalizing slots with
  | zero =>
    have hnot : ¬ (rr < j ∧ j ≤ rr + 0) := by omega
    rw [shiftUp, if_neg hnot]
  | succ n ih =>
    have hprev : slots[rr + n]? = some (slots.getD (rr + n) Slot.free) := by
      rw [getD_eq_getElem _ _ (by omega), getElem?_eq_getElem (by omega)]
    rw [shiftUp, ih (by rw [length_set]; omega)]
    by_cases hin : rr < j ∧ j ≤ rr + n
    · rw [if_pos hin, if_pos (by omega), getElem?_set_ne (by omega)]
    · rw [if_neg hin]
      by_cases htop : j = rr + n + 1
      · subst j
        rw [if_pos (by omega), getElem?_set_self (by omega), Nat.add_sub_cancel, hprev]
      · rw [if_neg (by omega), getElem?_set_ne (by omega)]

theorem set_shiftUp {before after : List Slot} (d new : Slot)
    (hlen : (before ++ d :: after).length = 32) :
    (shiftUp before.length (31 - before.length) (before ++ d :: after)).set before.length new =
      (before ++ new :: d :: after).take 32 := by
  have hroom : before.length + after.length + 1 = 32 := by
    rw [length_append, length_cons] at hlen
    omega
  have hin : before.length < (shiftUp before.length (31 - before.length)
      (before ++ d :: after)).length := by
    have hsome := @getElem?_shiftUp before.length (31 - before.length) (before ++ d :: after)
      (by rw [hlen]; omega) before.length
    rw [if_neg (by omega), getElem?_append_right le_rfl, Nat.sub_self] at hsome
    exact (List.getElem?_eq_some_iff.mp hsome).1
  apply ext_getElem?
  intro j
  rw [getElem?_set, getElem?_shiftUp (by rw [hlen]; omega), getElem?_take]
  rcases Nat.lt_trichotomy j before.length with hlt | heq | hgt
  · rw [if_neg (by omega), if_neg (by omega), if_pos (by omega), getElem?_append_left hlt,
      getElem?_append_left hlt]
  · subst j
    rw [if_pos rfl, if_pos hin, if_pos (by omega), getElem?_append_right le_rfl, Nat.sub_self]
    rfl
  · rw [if_neg (by omega)]
    obtain ⟨k, rfl⟩ : ∃ k, j = before.length + k + 1 := ⟨j - before.length - 1, by omega⟩
    have hnew : (before ++ new :: d :: after)[before.length + k + 1]? = (d :: after)[k]? := by
      rw [getElem?_append_right (by omega),
        show before.length + k + 1 - before.length = k + 1 by omega, getElem?_cons_succ]
    have hold : (before ++ d :: after)[before.length + k]? = (d :: after)[k]? := by
      rw [getElem?_append_right (by omega), Nat.add_sub_cancel_left]
    rw [hnew]
    by_cases hk : before.length + k + 1 < 32
    · rw [if_pos (by omega), Nat.add_sub_cancel, hold, if_pos hk]
    · rw [if_neg (by omega), if_neg hk]
      exact getElem?_eq_none (by omega)

theorem find?_slot {before : List Slot} {new d : Slot} {after : List Slot}
    (hlen : (before ++ d :: after).length = 32) (hbefore : ∀ x, x ∈ before → x.metric < new.metric)
    (hd : ¬ d.metric < new.metric) :
    ((List.range 32).find? fun rr =>
      decide (new.metric ≤ ((before ++ d :: after).getD rr Slot.free).metric)) =
        some before.length := by
  rw [length_append, length_cons] at hlen
  rw [find?_range_eq_some]
  refine ⟨?_, mem_range.mpr (by omega), ?_⟩
  · rw [getD_append_right _ _ _ _ le_rfl, Nat.sub_self, getD_cons_zero]
    simpa using hd
  · intro j hj
    rw [getD_append _ _ _ _ hj, getD_eq_getElem _ _ hj]
    simpa using hbefore _ (getElem_mem hj)

variable {slots : List Slot}

/-- Insertion into a full row of slots. -/
theorem insertTopk_eq (hlen : slots.length = 32) (new : Slot) :
    insertTopk slots new = insertRanked 32 Slot.metric slots new := by
  have hbefore : ∀ x, x ∈ slots.takeWhile (Slot.metric · < new.metric) → x.metric < new.metric :=
    fun x hx => lt_of_mem_takeWhile hx
  have hsplit := takeWhile_append_dropWhile (p := (Slot.metric · < new.metric)) (l := slots)
  have hhead := head?_dropWhile_not (Slot.metric · < new.metric) slots
  rw [insertRanked, insertBefore]
  generalize slots.takeWhile (Slot.metric · < new.metric) = before at hbefore hsplit ⊢
  generalize slots.dropWhile (Slot.metric · < new.metric) = rest at hsplit hhead ⊢
  subst hsplit
  cases rest with
  | nil =>
    rw [append_nil] at hlen ⊢
    have hnone : (List.range 32).find?
        (fun rr => decide (new.metric ≤ (before.getD rr Slot.free).metric)) = none := by
      rw [find?_eq_none]
      intro rr hrr
      have hlt : rr < before.length := by rw [hlen]; exact mem_range.mp hrr
      rw [getD_eq_getElem _ _ hlt]
      simpa using hbefore _ (getElem_mem hlt)
    rw [insertTopk, hnone, take_append_of_le_length (by omega), take_of_length_le (by omega)]
  | cons d after =>
    have hd : ¬ d.metric < new.metric := by simpa using hhead
    rw [insertTopk, find?_slot hlen hbefore hd]
    exact set_shiftUp d new hlen

/-- Slots in use, and the rest of the row. -/
def padded (slots : List Slot) : List Slot := slots ++ List.replicate (32 - slots.length) Slot.free

theorem length_padded (h : slots.length ≤ 32) : (padded slots).length = 32 := by
  rw [padded, length_append, length_replicate]
  omega

theorem insertBefore_append {free : List Slot} {new : Slot}
    (hfree : ∀ x, x ∈ free → ¬ x.metric < new.metric) :
    insertBefore Slot.metric new (slots ++ free) = insertBefore Slot.metric new slots ++ free := by
  induction slots with
  | nil =>
    cases free with
    | nil => rfl
    | cons x free =>
      have hx := hfree x mem_cons_self
      simp [insertBefore, hx]
  | cons x slots ih =>
    by_cases hx : x.metric < new.metric
    · simpa [insertBefore, hx] using ih
    · simp [insertBefore, hx]

/-- Insertion uses up the slots that are not in use before it drops one that is. -/
theorem insertTopk_padded {new : Slot} (hlen : slots.length ≤ 32) (hnew : new.metric < inf) :
    insertTopk (padded slots) new = padded (insertRanked 32 Slot.metric slots new) := by
  have hfree : ∀ x, x ∈ List.replicate (32 - slots.length) Slot.free → ¬ x.metric < new.metric := by
    intro x hx
    rw [eq_of_mem_replicate hx]
    exact hnew.not_gt
  rw [insertTopk_eq (length_padded hlen), insertRanked, padded, insertBefore_append hfree,
    take_append, length_insertBefore, take_replicate, padded, insertRanked,
    length_take, length_insertBefore]
  congr 2
  omega

/-- Offers in turn to a row. -/
theorem foldl_insertTopk {news : List Slot} (hnews : ∀ new, new ∈ news → new.metric < inf)
    (hlen : slots.length ≤ 32) :
    news.foldl insertTopk (padded slots) =
      padded (news.foldl (insertRanked 32 Slot.metric) slots) := by
  induction news generalizing slots with
  | nil => rfl
  | cons new news ih =>
    obtain ⟨hnew, hnews⟩ := forall_mem_cons.mp hnews
    rw [foldl_cons, foldl_cons, insertTopk_padded hlen hnew, ih hnews]
    rw [insertRanked, length_take]
    omega

/-- Slots offered to a state, in the order of the loops. -/
def offers (cost : Fin 8 → Fin 8 → ℕ) (metricPrev : List.Vector (List ℕ) 8) (ns : Fin 8) :
    List Slot :=
  (List.finRange 8).flatMap fun ps =>
    ((List.range 32).filter fun pr => decide ((metricPrev.get ps).getD pr inf < inf)).map fun pr =>
      ⟨(metricPrev.get ps).getD pr inf + cost ps ns, ps, pr⟩

/-- A store into every row of one slot each. -/
theorem get_foldl_insertTopk (new : Fin 8 → Slot) {rows : List (Fin 8)} (hn : rows.Nodup)
    (curr : Slots) (s : Fin 8) :
    (rows.foldl (fun curr ns => curr.set ns (insertTopk (curr.get ns) (new ns))) curr).get s =
      if s ∈ rows then insertTopk (curr.get s) (new s) else curr.get s := by
  induction rows generalizing curr with
  | nil => simp
  | cons ns rows ih =>
    obtain ⟨hnot, hn⟩ := nodup_cons.mp hn
    rw [foldl_cons, ih hn]
    by_cases hs : s = ns
    · subst ns
      simp [hnot, List.Vector.get_set_same]
    · simp [hs, List.Vector.get_set_of_ne (Ne.symm hs)]

/-- The loops over the predecessors and their ranks are offers in turn to each state. -/
theorem get_viterbiStepList (cost : Fin 8 → Fin 8 → ℕ) (metricPrev : List.Vector (List ℕ) 8)
    (s : Fin 8) :
    (viterbiStepList cost metricPrev).get s =
      (offers cost metricPrev s).foldl insertTopk (padded []) := by
  have hstart : padded [] = (List.Vector.replicate 8 (List.replicate 32 Slot.free)).get s := by
    rw [List.Vector.get_replicate]
    rfl
  rw [viterbiStepList, offers, foldl_flatMap, hstart]
  refine (foldl_hom (fun curr : Slots => curr.get s) fun curr ps => ?_).symm
  rw [foldl_map, foldl_filter]
  refine foldl_hom (fun curr : Slots => curr.get s) fun curr pr => ?_
  generalize (metricPrev.get ps).getD pr inf = m0
  by_cases hdead : inf ≤ m0
  · rw [if_pos hdead, if_neg (by simpa using hdead)]
  · rw [if_neg hdead, if_pos (by simpa using hdead),
      get_foldl_insertTopk (fun ns => ⟨m0 + cost ps ns, ps, pr⟩) (nodup_finRange 8),
      if_pos (mem_finRange s)]

end DsdNeo.Dmr.Rate34
