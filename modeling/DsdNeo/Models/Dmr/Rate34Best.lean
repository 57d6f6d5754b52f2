import DsdNeo.Models.Dmr.Rate34List

/-!
# The list decoder returns the best words

A walk is the list of the states passed from state zero, the latest first. After every step the row
of a state names the best walks into it, and its metrics are their costs: one step offers each
state the extensions of the walks kept by its predecessors, and those they left out are beaten by a
full row of them.
-/

namespace DsdNeo.Dmr.Rate34

open Trellis Trellis34 Slot List

/-- Walks of `t` steps that end in a state. -/
def walks (t : ℕ) (s : Fin 8) : Set (List (Fin 8)) := {p | p.length = t ∧ p.headD 0 = s}

/-- Cost of a walk. -/
def walkCost (cost : ℕ → Fin 8 → Fin 8 → ℕ) : List (Fin 8) → ℕ
  | [] => 0
  | s :: p => walkCost cost p + cost p.length (p.headD 0) s

/-- The walk that a slot names. -/
def walkAt (back : ℕ → Fin 8 → ℕ → Fin 8 × ℕ) : ℕ → Fin 8 → ℕ → List (Fin 8)
  | 0, _, _ => []
  | t + 1, s, r => s :: walkAt back t (back t s r).1 (back t s r).2

/-- The walks named by the first `n` slots of a state. -/
def namedWalks (back : ℕ → Fin 8 → ℕ → Fin 8 × ℕ) (t : ℕ) (s : Fin 8) (n : ℕ) :
    List (List (Fin 8)) := (List.range n).map (walkAt back t s)

/-- Rows that name the best walks into their states, with their costs. -/
def Rows (cost : ℕ → Fin 8 → Fin 8 → ℕ) (t : ℕ) (v : Ranked) : Prop :=
  ∀ s, ∃ n, Best 32 (walkCost cost) (walks t s) (namedWalks v.back t s n) ∧
    v.metric.get s =
      (namedWalks v.back t s n).map (walkCost cost) ++ List.replicate (32 - n) inf

theorem walks_succ (t : ℕ) (s : Fin 8) :
    walks (t + 1) s = {q | ∃ r p, p ∈ walks t r ∧ q = s :: p} := by
  ext q
  constructor
  · rintro ⟨hlen, hhead⟩
    cases q with
    | nil => cases hlen
    | cons s' p =>
      obtain rfl : s' = s := hhead
      exact ⟨p.headD 0, p, ⟨by simpa using hlen, rfl⟩, rfl⟩
  · rintro ⟨r, p, ⟨hlen, -⟩, rfl⟩
    exact ⟨by simpa using hlen, rfl⟩

theorem walkCost_le {cost : ℕ → Fin 8 → Fin 8 → ℕ} {n : ℕ}
    (hcost : ∀ t, t < n → ∀ r s, cost t r s < 20000000) {p : List (Fin 8)} (hp : p.length ≤ n) :
    walkCost cost p ≤ p.length * 20000000 := by
  induction p with
  | nil => exact Nat.zero_le _
  | cons s p ih =>
    have hlast := hcost p.length hp (p.headD 0) s
    have hprev := ih (by rw [length_cons] at hp; omega)
    rw [walkCost, length_cons]
    omega

/-- Later steps leave the walks of the slots of this one. -/
theorem walkAt_congr {back back' : ℕ → Fin 8 → ℕ → Fin 8 × ℕ} {t : ℕ}
    (h : ∀ i, i < t → back i = back' i) (s : Fin 8) (r : ℕ) :
    walkAt back t s r = walkAt back' t s r := by
  induction t generalizing s r with
  | zero => rfl
  | succ t ih => rw [walkAt, walkAt, h t (by omega), ih fun i hi => h i (by omega)]

theorem rows_init (cost : ℕ → Fin 8 → Fin 8 → ℕ) : Rows cost 0 Ranked.init := by
  intro s
  have hmetric : Ranked.init.metric.get s =
      (List.replicate 32 inf).set 0 (if s = 0 then 0 else inf) :=
    List.Vector.get_ofFn _ s
  by_cases hs : s = 0
  · subst s
    refine ⟨1, ?_, ?_⟩
    · have hwalks : walks 0 0 = {[]} := by
        ext p
        simp only [walks, Set.mem_ofPred_eq, length_eq_zero_iff, Set.mem_singleton_iff]
        exact ⟨fun h => h.1, fun h => ⟨h, by rw [h]; rfl⟩⟩
      have hnew := (Best.nil 32 (walkCost cost)).insert (Set.notMem_empty ([] : List (Fin 8)))
      rw [hwalks, ← insert_empty_eq]
      exact hnew
    · rw [hmetric]
      rfl
  · refine ⟨0, ?_, ?_⟩
    · have hwalks : walks 0 s = ∅ := by
        ext p
        simp only [walks, Set.mem_ofPred_eq, length_eq_zero_iff, Set.mem_empty_iff_false,
          iff_false, not_and]
        rintro rfl hhead
        exact hs hhead.symm
      rw [hwalks]
      exact Best.nil 32 _
    · rw [hmetric, if_neg hs]
      rfl

section Step

variable {cost : ℕ → Fin 8 → Fin 8 → ℕ} {t : ℕ} {v : Ranked}

theorem getD_padded {row : List ℕ} {n : ℕ} (r : ℕ) :
    (row ++ List.replicate n inf).getD r inf = row.getD r inf := by
  by_cases hr : r < row.length
  · rw [getD_append _ _ _ _ hr]
  · rw [getD_append_right _ _ _ _ (by omega), getD_eq_default row _ (by omega),
      getD_eq_getElem?_getD, getElem?_replicate]
    split <;> rfl

/-- The slots offered to a state, when the rows of its predecessors are known. -/
def offered (cost : ℕ → Fin 8 → Fin 8 → ℕ) (back : ℕ → Fin 8 → ℕ → Fin 8 × ℕ) (t : ℕ)
    (n : Fin 8 → ℕ) (s : Fin 8) : List Slot :=
  (List.finRange 8).flatMap fun ps => (List.range (n ps)).map fun pr =>
    ⟨walkCost cost (walkAt back t ps pr) + cost t ps s, ps, pr⟩

/-- What a state is offered: the slots in use of its predecessors, one edge on. -/
theorem offers_eq {n : Fin 8 → ℕ} (hroom : ∀ r, n r ≤ 32)
    (hmetric : ∀ r, v.metric.get r =
      (namedWalks v.back t r (n r)).map (walkCost cost) ++ List.replicate (32 - n r) inf)
    (hbelow : ∀ r i, i < n r → walkCost cost (walkAt v.back t r i) < inf) (s : Fin 8) :
    offers (cost t) v.metric s = offered cost v.back t n s := by
  refine flatMap_congr fun ps _ => ?_
  have hentry : ∀ pr, pr < n ps →
      (v.metric.get ps).getD pr inf = walkCost cost (walkAt v.back t ps pr) := by
    intro pr hpr
    rw [hmetric, getD_padded, namedWalks, map_map, getD_range_map _ hpr]
    rfl
  have hfree : ∀ pr, n ps ≤ pr → (v.metric.get ps).getD pr inf = inf := by
    intro pr hpr
    rw [hmetric, getD_padded]
    exact getD_eq_default _ _ (by simpa [namedWalks] using hpr)
  have huse : (List.range 32).filter (fun pr => decide ((v.metric.get ps).getD pr inf < inf)) =
      List.range (n ps) := by
    rw [show 32 = n ps + (32 - n ps) by have := hroom ps; omega, range_add, filter_append]
    have hin : (List.range (n ps)).filter
        (fun pr => decide ((v.metric.get ps).getD pr inf < inf)) = List.range (n ps) := by
      rw [filter_eq_self]
      intro pr hpr
      rw [hentry pr (mem_range.mp hpr)]
      simpa using hbelow ps pr (mem_range.mp hpr)
    have hout : ((List.range (32 - n ps)).map (n ps + ·)).filter
        (fun pr => decide ((v.metric.get ps).getD pr inf < inf)) = [] := by
      rw [filter_eq_nil_iff]
      intro pr hpr
      obtain ⟨i, -, rfl⟩ := mem_map.mp hpr
      rw [hfree _ (Nat.le_add_right _ _)]
      simp
    rw [hin, hout, append_nil]
  rw [huse]
  refine map_congr_left fun pr hpr => ?_
  rw [hentry pr (mem_range.mp hpr)]

theorem mem_offered {back : ℕ → Fin 8 → ℕ → Fin 8 × ℕ} {n : Fin 8 → ℕ} {s : Fin 8} {x : Slot} :
    x ∈ offered cost back t n s ↔ x.rank < n x.state ∧
      x.metric = walkCost cost (walkAt back t x.state x.rank) + cost t x.state s := by
  simp only [offered, mem_flatMap, mem_finRange, mem_map, mem_range, true_and]
  constructor
  · rintro ⟨ps, pr, hpr, rfl⟩
    exact ⟨hpr, rfl⟩
  · rintro ⟨hrank, hmetric⟩
    exact ⟨x.state, x.rank, hrank, by rw [← hmetric]⟩

theorem nodup_offered (back : ℕ → Fin 8 → ℕ → Fin 8 × ℕ) (n : Fin 8 → ℕ) (s : Fin 8) :
    (offered cost back t n s).Nodup := by
  refine nodup_flatMap.mpr ⟨fun ps _ => ?_, ?_⟩
  · refine nodup_range.map ?_
    intro i j h
    exact congrArg Slot.rank h
  · refine (nodup_finRange 8).imp fun {ps ps'} hne => ?_
    intro x hx hx'
    obtain ⟨i, -, rfl⟩ := mem_map.mp hx
    obtain ⟨j, -, heq⟩ := mem_map.mp hx'
    exact hne (congrArg state heq).symm

/-- Walk of an offered slot: the walk of the slot it was reached from, one step on. -/
def extension (back : ℕ → Fin 8 → ℕ → Fin 8 × ℕ) (t : ℕ) (s : Fin 8) (x : Slot) : List (Fin 8) :=
  s :: walkAt back t x.state x.rank

theorem image_extension (n : Fin 8 → ℕ) (s : Fin 8) :
    extension v.back t s '' {x | x ∈ offered cost v.back t n s} =
      {q | ∃ r p, p ∈ namedWalks v.back t r (n r) ∧ q = s :: p} := by
  ext q
  constructor
  · rintro ⟨x, hx, rfl⟩
    exact ⟨x.state, _, mem_map_of_mem (mem_range.mpr (mem_offered.mp hx).1), rfl⟩
  · rintro ⟨r, p, hp, rfl⟩
    obtain ⟨i, hi, rfl⟩ := mem_map.mp hp
    exact ⟨⟨walkCost cost (walkAt v.back t r i) + cost t r s, r, i⟩,
      mem_offered.mpr ⟨mem_range.mp hi, rfl⟩, rfl⟩

section Extension

variable {n : Fin 8 → ℕ}
  (hbest : ∀ r, Best 32 (walkCost cost) (walks t r) (namedWalks v.back t r (n r)))

include hbest

theorem walkAt_mem {r : Fin 8} {i : ℕ} (hi : i < n r) : walkAt v.back t r i ∈ walks t r :=
  (hbest r).mem _ (mem_map_of_mem (mem_range.mpr hi))

/-- Different slots are offered for different walks. -/
theorem extension_injOn (s : Fin 8) :
    Set.InjOn (extension v.back t s) {x | x ∈ offered cost v.back t n s} := by
  intro x hx y hy h
  obtain ⟨hxr, hxm⟩ := mem_offered.mp hx
  obtain ⟨hyr, hym⟩ := mem_offered.mp hy
  have hwalk : walkAt v.back t x.state x.rank = walkAt v.back t y.state y.rank :=
    (List.cons.inj h).2
  have hstate : x.state = y.state := by
    rw [← (walkAt_mem hbest hxr).2, ← (walkAt_mem hbest hyr).2, hwalk]
  have hrank : x.rank = y.rank := by
    rw [hstate] at hxr hwalk
    exact inj_on_of_nodup_map (hbest y.state).nodup (mem_range.mpr hxr)
      (mem_range.mpr hyr) hwalk
  cases x
  cases y
  simp only at hstate hrank hxm hym hwalk
  subst hstate hrank
  rw [hxm, hym]

theorem walkCost_extension {s : Fin 8} {x : Slot} (hx : x ∈ offered cost v.back t n s) :
    walkCost cost (extension v.back t s x) = x.metric := by
  obtain ⟨hrank, hmetric⟩ := mem_offered.mp hx
  obtain ⟨hlen, hhead⟩ := walkAt_mem hbest hrank
  rw [extension, walkCost, hlen, hhead, hmetric]

theorem best_extensions (s : Fin 8) :
    Best 32 (walkCost cost) (walks (t + 1) s)
      (((offered cost v.back t n s).foldl (insertRanked 32 metric) []).map
        (extension v.back t s)) := by
  have hslots := best_foldl 32 metric (@nodup_offered cost t v.back n s)
  have hwalks : Best 32 (walkCost cost)
      (extension v.back t s '' {x | x ∈ offered cost v.back t n s})
      (((offered cost v.back t n s).foldl (insertRanked 32 metric) []).map
        (extension v.back t s)) :=
    hslots.map (extension_injOn hbest s) fun x hx => walkCost_extension hbest hx
  rw [image_extension] at hwalks
  rw [walks_succ]
  refine @Best.extend _ _ _ _ _ _ _ _ hbest _ (cons_injective (a := s))
    (fun r => cost t r s) ?_ _ hwalks
  rintro r p ⟨hlen, hhead⟩
  rw [walkCost, hlen, hhead]

end Extension

theorem Rows.step (h : Rows cost t v) (ht : t < 49)
    (hcost : ∀ t, t < 49 → ∀ r s, cost t r s < 20000000) : Rows cost (t + 1) (v.step cost t) := by
  have hinf : inf = 1000000000 := rfl
  choose n hbest hmetric using h
  have hroom : ∀ r, n r ≤ 32 := fun r => by
    simpa [namedWalks] using (hbest r).length_le
  have hdear : ∀ r i, i < n r → walkCost cost (walkAt v.back t r i) ≤ t * 20000000 := by
    intro r i hi
    have hlen := (walkAt_mem hbest hi).1
    have hle := walkCost_le (p := walkAt v.back t r i) hcost (by omega)
    rwa [hlen] at hle
  intro s
  have hbelow : ∀ x, x ∈ offered cost v.back t n s → x.metric < inf := by
    intro x hx
    obtain ⟨hrank, hxm⟩ := mem_offered.mp hx
    have hprev := hdear _ _ hrank
    have hlast := hcost t ht x.state s
    rw [hxm]
    omega
  have hranked := best_extensions hbest s
  generalize hkept : (offered cost v.back t n s).foldl (insertRanked 32 metric) [] = kept
    at hranked
  have hslots : (viterbiStepList (cost t) v.metric).get s = padded kept := by
    rw [get_viterbiStepList,
      offers_eq hroom hmetric fun r i hi => (hdear r i hi).trans_lt (by omega),
      foldl_insertTopk hbelow (by simp), hkept]
  have hlater : ∀ i, i < t → (v.step cost t).back i = v.back i := by
    intro i hi
    exact Function.update_of_ne (by omega) _ _
  have hnamed : namedWalks (v.step cost t).back (t + 1) s kept.length =
      kept.map (extension v.back t s) := by
    apply ext_getElem
    · simp [namedWalks]
    · intro i hi _
      have hi' : i < kept.length := by simpa [namedWalks] using hi
      have hback : (v.step cost t).back t s i = (kept[i].state, kept[i].rank) := by
        simp only [Ranked.step, Function.update_self, hslots, padded]
        rw [getD_append _ _ _ _ hi', getD_eq_getElem _ _ hi']
      rw [getElem_map, extension]
      simp only [namedWalks, getElem_map, getElem_range, walkAt, hback]
      rw [walkAt_congr hlater]
  refine ⟨kept.length, by rw [hnamed]; exact hranked, ?_⟩
  have hcosts : kept.map (fun x => walkCost cost (extension v.back t s x)) =
      kept.map metric := by
    refine map_congr_left fun x hx => ?_
    have hslot := best_foldl 32 metric (@nodup_offered cost t v.back n s)
    rw [hkept] at hslot
    exact walkCost_extension hbest (hslot.mem x hx)
  rw [hnamed, map_map, Function.comp_def, hcosts]
  simp only [Ranked.step, List.Vector.get_map, hslots, padded, map_append, map_replicate]
  rfl

/-- The rows after every step. -/
theorem rows_run (hcost : ∀ t, t < 49 → ∀ r s, cost t r s < 20000000) {t : ℕ} (ht : t ≤ 49) :
    Rows cost t (runViterbiList cost t) := by
  induction t with
  | zero => exact rows_init cost
  | succ t ih => exact (ih (by omega)).step (by omega) hcost

end Step

theorem tracebackStateRank_eq (back : ℕ → Fin 8 → ℕ → Fin 8 × ℕ) (t : ℕ) (s : Fin 8) (r : ℕ)
    (states : List (Fin 8)) :
    tracebackStateRank back t s r states = (walkAt back t s r).reverse ++ states := by
  induction t generalizing s r states with
  | zero => rfl
  | succ t ih => simp [tracebackStateRank, walkAt, ih]

/-- Indices that are in order stay as they are. -/
theorem sortIndicesByMetric_eq {idx : List CandIdx}
    (h : idx.Pairwise fun x y => x.metric ≤ y.metric) : sortIndicesByMetric idx = idx := by
  have hrun : ∀ (rest done : List CandIdx),
      (done.reverse ++ rest).Pairwise (fun x y => x.metric ≤ y.metric) →
        rest.foldl (fun done key => insertFromEnd key done) done = rest.reverse ++ done := by
    intro rest
    induction rest with
    | nil => intro done _; rfl
    | cons key rest ih =>
      intro done hsorted
      have hplace : insertFromEnd key done = key :: done := by
        cases done with
        | nil => rfl
        | cons x done =>
          have hle : x.metric ≤ key.metric := by
            refine (pairwise_append.mp hsorted).2.2 x ?_ key mem_cons_self
            simp
          rw [insertFromEnd, if_neg (by omega)]
      rw [foldl_cons, hplace, ih _ (by simpa using hsorted), reverse_cons,
        append_assoc, singleton_append]
  rw [sortIndicesByMetric, hrun idx [] (by simpa using h), append_nil, reverse_reverse]

/-- Walk of a word. -/
def walkOf (bytes18 : Fin 18 → UInt8) : List (Fin 8) := (candidateStates bytes18).reverse

/-- Word of a walk. -/
def wordOf (p : List (Fin 8)) : Fin 18 → UInt8 := packStatesToBytes p.reverse

@[simp] theorem length_candidateStates (bytes18 : Fin 18 → UInt8) :
    (candidateStates bytes18).length = 49 := by
  simp [candidateStates]

theorem walkOf_mem (bytes18 : Fin 18 → UInt8) : walkOf bytes18 ∈ walks 49 0 := by
  refine ⟨by simp [walkOf], ?_⟩
  rw [walkOf, candidateStates, reverse_append]
  rfl

theorem wordOf_walkOf (bytes18 : Fin 18 → UInt8) : wordOf (walkOf bytes18) = bytes18 := by
  rw [wordOf, walkOf, reverse_reverse, packStatesToBytes_candidateStates]

theorem walkOf_wordOf {p : List (Fin 8)} (hp : p ∈ walks 49 0) : walkOf (wordOf p) = p := by
  obtain ⟨hlen, hhead⟩ := hp
  have hstates : candidateStates (packStatesToBytes p.reverse) = p.reverse := by
    apply ext_getElem
    · simp [hlen]
    · intro k hk hk'
      rw [← getD_eq_getElem _ 0 hk, ← getD_eq_getElem _ 0 hk']
      by_cases hlast : k = 48
      · subst k
        cases p with
        | nil => cases hlen
        | cons s p =>
          obtain rfl : s = 0 := hhead
          have hpos : p.length = 48 := by simpa using hlen
          rw [getD_candidateStates_last, reverse_cons,
            getD_append_right _ _ _ _ (by simp [hpos]), length_reverse, hpos]
          rfl
      · rw [length_candidateStates] at hk
        exact getD_candidateStates_pack _ (by omega)
  rw [walkOf, wordOf, hstates, reverse_reverse]

/-- States that a walk passes, from state zero. -/
def walkPath (p : List (Fin 8)) : ℕ → Fin 8
  | 0 => 0
  | t + 1 => p.reverse.getD t 0

theorem walkPath_cons (s : Fin 8) (p : List (Fin 8)) {t : ℕ} (ht : t ≤ p.length) :
    walkPath (s :: p) t = walkPath p t := by
  cases t with
  | zero => rfl
  | succ t =>
    rw [walkPath, walkPath, reverse_cons, getD_append _ _ _ _ (by rw [length_reverse]; omega)]

theorem walkPath_length (p : List (Fin 8)) : walkPath p p.length = p.headD 0 := by
  cases p with
  | nil => rfl
  | cons s p =>
    rw [length_cons, walkPath, reverse_cons, getD_append_right _ _ _ _ (by simp)]
    simp

theorem walkCost_eq_pathCost (cost : ℕ → Fin 8 → Fin 8 → ℕ) (p : List (Fin 8)) :
    walkCost cost p = pathCost cost p.length (walkPath p) := by
  induction p with
  | nil => simp [walkCost]
  | cons s p ih =>
    have hlast : walkPath (s :: p) (p.length + 1) = s := walkPath_length (s :: p)
    rw [length_cons, pathCost_succ, pathCost_congr cost fun t ht => walkPath_cons s p ht,
      walkPath_cons s p le_rfl, walkPath_length, hlast, ← ih, walkCost]

theorem candidateMetric_eq_walkCost (dibits98 : Fin 98 → UInt8)
    (reliab98 : Option (Fin 98 → UInt8)) (bytes18 : Fin 18 → UInt8) :
    candidateMetric dibits98 reliab98 bytes18 =
      walkCost (softCost (prepareNibbles dibits98) (prepareReliabilityWeights reliab98))
        (walkOf bytes18) := by
  rw [candidateMetric_eq_pathCost, walkCost_eq_pathCost, walkOf, length_reverse,
    length_candidateStates]
  refine pathCost_congr _ fun t _ => ?_
  cases t with
  | zero => rfl
  | succ t => rw [candidatePath, walkPath, reverse_reverse]

section Decode

variable (dibits98 reliab98 : Fin 98 → UInt8)

/-- The words that the row of state zero names at the end, in its order. -/
def rankedWords : List (Fin 18 → UInt8) :=
  (namedWalks (runViterbiList (softCost (prepareNibbles dibits98)
    (prepareReliabilityWeights (some reliab98))) 49).back 49 0 32).map wordOf

theorem best_rankedWords :
    Best 32 (candidateMetric dibits98 (some reliab98)) Set.univ (rankedWords dibits98 reliab98) ∧
    (runViterbiList (softCost (prepareNibbles dibits98)
      (prepareReliabilityWeights (some reliab98))) 49).metric.get 0 =
        (rankedWords dibits98 reliab98).map (candidateMetric dibits98 (some reliab98)) := by
  obtain ⟨n, hwalks, hmetric⟩ := rows_run
    (fun t ht r s => softCost_lt (prepareNibbles dibits98) reliab98 ht r s) le_rfl 0
  have hcost : ∀ p, p ∈ walks 49 0 → candidateMetric dibits98 (some reliab98) (wordOf p) =
      walkCost (softCost (prepareNibbles dibits98)
        (prepareReliabilityWeights (some reliab98))) p := by
    intro p hp
    rw [candidateMetric_eq_walkCost, walkOf_wordOf hp]
  have hinj : Set.InjOn wordOf (walks 49 0) := by
    intro p hp q hq h
    rw [← walkOf_wordOf hp, h, walkOf_wordOf hq]
  have hall : wordOf '' walks 49 0 = Set.univ :=
    Set.eq_univ_of_forall fun word => ⟨walkOf word, walkOf_mem word, wordOf_walkOf word⟩
  have hwords := hwalks.map hinj hcost
  rw [hall] at hwords
  have hmany : ((List.range 32).map fun i => fun _ : Fin 18 => UInt8.ofNat i).Nodup := by
    refine nodup_range.map_on fun i hi j hj h => ?_
    have hi := mem_range.mp hi
    have hj := mem_range.mp hj
    have hbyte := congrArg UInt8.toNat (congrFun h 0)
    rw [UInt8.toNat_ofNat', UInt8.toNat_ofNat'] at hbyte
    omega
  have hfull := hwords.length_eq hmany (fun w _ => Set.mem_univ w) (by simp)
  obtain rfl : n = 32 := by simpa [namedWalks] using hfull
  refine ⟨hwords, ?_⟩
  rw [hmetric, rankedWords, map_map, Nat.sub_self, replicate_zero, append_nil]
  exact map_congr_left fun p hp => (hcost p (hwalks.mem p hp)).symm

theorem candidateMetric_lt (bytes18 : Fin 18 → UInt8) :
    candidateMetric dibits98 (some reliab98) bytes18 < inf := by
  have hinf : inf = 1000000000 := rfl
  have hlen : (walkOf bytes18).length = 49 := (walkOf_mem bytes18).1
  have hle := walkCost_le (p := walkOf bytes18)
    (fun t ht r s => softCost_lt (prepareNibbles dibits98) reliab98 ht r s) hlen.le
  rw [candidateMetric_eq_walkCost]
  omega

theorem length_rankedWords : (rankedWords dibits98 reliab98).length = 32 := by
  simp [rankedWords, namedWalks]

theorem collectFinalIndices_eq :
    collectFinalIndices (runViterbiList (softCost (prepareNibbles dibits98)
      (prepareReliabilityWeights (some reliab98))) 49).metric =
        (rankedWords dibits98 reliab98).mapIdx fun r word =>
          ⟨candidateMetric dibits98 (some reliab98) word, 0, r⟩ := by
  have hlen := length_rankedWords dibits98 reliab98
  have hentry : ∀ r (hr : r < (rankedWords dibits98 reliab98).length),
      ((rankedWords dibits98 reliab98).map (candidateMetric dibits98 (some reliab98))).getD r inf =
        candidateMetric dibits98 (some reliab98) ((rankedWords dibits98 reliab98).get ⟨r, hr⟩) := by
    intro r hr
    rw [getD_eq_getElem _ _ (by rwa [length_map]), getElem_map]
    rfl
  rw [collectFinalIndices, (best_rankedWords dibits98 reliab98).2, filter_eq_self.mpr]
  · apply ext_getElem
    · simp [hlen]
    · intro r hr hr'
      rw [length_mapIdx] at hr'
      rw [getElem_map, getElem_range, getElem_mapIdx, hentry r hr']
      rfl
  · intro r hr
    rw [hentry r (by rw [hlen]; exact mem_range.mp hr)]
    simpa using candidateMetric_lt dibits98 reliab98 _

theorem traceback_rankedWords :
    ((rankedWords dibits98 reliab98).mapIdx fun r word =>
      (⟨candidateMetric dibits98 (some reliab98) word, 0, r⟩ : CandIdx)).map
        (fun c => (⟨c.metric, packStatesToBytes (tracebackStateRank
          (runViterbiList (softCost (prepareNibbles dibits98)
            (prepareReliabilityWeights (some reliab98))) 49).back 49 c.state c.rank [])⟩ :
              Candidate)) =
      (rankedWords dibits98 reliab98).map fun word =>
        ⟨candidateMetric dibits98 (some reliab98) word, word⟩ := by
  apply ext_getElem
  · simp
  · intro r hr hr'
    have hr'' : r < (rankedWords dibits98 reliab98).length := by
      rwa [length_map] at hr'
    have hword : (rankedWords dibits98 reliab98).get ⟨r, hr''⟩ =
        wordOf (walkAt (runViterbiList (softCost (prepareNibbles dibits98)
          (prepareReliabilityWeights (some reliab98))) 49).back 49 0 r) := by
      simp only [rankedWords, namedWalks, get_eq_getElem, getElem_map, getElem_range]
    rw [get_eq_getElem] at hword
    rw [getElem_map, getElem_mapIdx, getElem_map, hword]
    simp only [tracebackStateRank_eq, append_nil, wordOf]

theorem decodeList_eq {maxCandidates : ℤ} (hmax : 1 ≤ maxCandidates) :
    decodeList dibits98 (some reliab98) maxCandidates =
      some (((rankedWords dibits98 reliab98).take maxCandidates.toNat).map fun word =>
        ⟨candidateMetric dibits98 (some reliab98) word, word⟩) := by
  have hsorted : ((rankedWords dibits98 reliab98).mapIdx fun r word =>
      (⟨candidateMetric dibits98 (some reliab98) word, 0, r⟩ : CandIdx)).Pairwise
        fun x y => x.metric ≤ y.metric := by
    have hmetrics : ((rankedWords dibits98 reliab98).mapIdx fun r word =>
        (⟨candidateMetric dibits98 (some reliab98) word, 0, r⟩ : CandIdx)).map CandIdx.metric =
          (rankedWords dibits98 reliab98).map (candidateMetric dibits98 (some reliab98)) := by
      apply ext_getElem <;> simp
    have hwords := pairwise_map.mpr (best_rankedWords dibits98 reliab98).1.sorted
    rw [← hmetrics] at hwords
    exact pairwise_map.mp hwords
  have hcost : listCost (prepareNibbles dibits98) (prepareReliabilityWeights (some reliab98))
      (some reliab98).isSome =
        softCost (prepareNibbles dibits98) (prepareReliabilityWeights (some reliab98)) := rfl
  rw [decodeList, if_neg (by omega)]
  simp only [hcost, collectFinalIndices_eq, sortIndicesByMetric_eq hsorted]
  rw [writeListCandidates, map_take, map_take, traceback_rankedWords]

/-- List decoding returns the true best words: as many as it may, all different, in the order
of their metrics, each with its own metric, and no word left out is better than any of them. -/
theorem decodeList_best {maxCandidates : ℤ} (hmax : 1 ≤ maxCandidates) :
    ∃ out, decodeList dibits98 (some reliab98) maxCandidates = some out ∧
      out.length = min 32 maxCandidates.toNat ∧
      (out.map Candidate.bytes18).Nodup ∧
      out.Pairwise (fun a b => a.metric ≤ b.metric) ∧
      (∀ c, c ∈ out → c.metric = candidateMetric dibits98 (some reliab98) c.bytes18) ∧
      ∀ word, word ∉ out.map Candidate.bytes18 → ∀ c, c ∈ out →
        c.metric ≤ candidateMetric dibits98 (some reliab98) word := by
  have hbest := (best_rankedWords dibits98 reliab98).1
  have hbytes : ((((rankedWords dibits98 reliab98).take maxCandidates.toNat).map fun word =>
      (⟨candidateMetric dibits98 (some reliab98) word, word⟩ : Candidate)).map
        Candidate.bytes18) = (rankedWords dibits98 reliab98).take maxCandidates.toNat := by
    rw [map_map]
    exact map_id _
  refine ⟨_, decodeList_eq dibits98 reliab98 hmax, ?_, ?_, ?_, ?_, ?_⟩
  · rw [length_map, length_take, length_rankedWords, Nat.min_comm]
  · rw [hbytes]
    exact hbest.nodup.sublist (take_sublist _ _)
  · exact pairwise_map.mpr (hbest.sorted.sublist (take_sublist _ _))
  · intro c hc
    obtain ⟨word, -, rfl⟩ := mem_map.mp hc
    rfl
  · intro word hout c hc
    rw [hbytes] at hout
    obtain ⟨kept, hkept, rfl⟩ := mem_map.mp hc
    by_cases hin : word ∈ rankedWords dibits98 reliab98
    · exact (le_of_dropped hbest.sorted hin hout).2 kept hkept
    · exact (hbest.outside word (Set.mem_univ word) hin).2 kept (mem_of_mem_take hkept)

end Decode

/-- Four candidates for silence received with full confidence. -/
theorem decodeList_best_silence :
    ∃ out, decodeList (fun _ => 0) (some fun _ => 255) 4 = some out ∧ out.length = 4 := by
  obtain ⟨out, hout, hlen, -⟩ := decodeList_best (fun _ => 0) (fun _ => 255)
    (by decide : (1 : ℤ) ≤ 4)
  exact ⟨out, hout, hlen⟩

end DsdNeo.Dmr.Rate34
