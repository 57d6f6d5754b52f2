import Mathlib.Algebra.Order.BigOperators.Group.Finset
import Mathlib.Tactic.Linarith
import DsdNeo.Core.Bits.Reorder
import DsdNeo.Core.Trellis.Survivor

/-!
# Separation of the words of a punctured linear code

Two runs of a linear convolutional code differ by a run of the same code. Each coded position is
given a pair of charges, for agreement and for difference, that bounds from below what a wrong bit
there costs against the right one: the charge for difference is the larger where the bit was sent,
and the smaller where the decoder stands in a guess for a punctured one. The least total charge of
a difference run is found by one relaxed pass over the difference states, each marked with whether
an input has differed so far, so that one computed number decides whether every wrong word costs
more than the right one.
-/

namespace DsdNeo.Trellis

/-- A binary convolutional code on `N` states whose transitions and outputs are
linear with respect to a difference of states. -/
structure LinearCode (N : ℕ) where
  /-- Successor state under one input bit. -/
  next : Fin N → Bool → Fin N
  /-- Coded bits of one step, in lane order. -/
  out : Fin N → Bool → List Bool
  /-- Difference of two states. -/
  diff : Fin N → Fin N → Fin N
  /-- The difference of equal states. -/
  zero : Fin N
  /-- The edges into each state: predecessor, input and coded bits. -/
  table : List (List (ℕ × Bool × List Bool))
  mem_table : ∀ s b, (s.val, b, out s b) ∈ table.getD (next s b).val []
  length_table : table.length = N
  diff_self : ∀ s, diff s s = zero
  next_diff : ∀ r s a b, next (diff r s) (a ^^ b) = diff (next r a) (next s b)
  out_diff : ∀ r s a b, out (diff r s) (a ^^ b) = List.zipWith xor (out r a) (out s b)

namespace LinearCode

variable {N : ℕ} (code : LinearCode N)

/-- States visited under the input sequence `u` from the state `s`. -/
def states (s : Fin N) (u : ℕ → Bool) : ℕ → Fin N
  | 0 => s
  | t + 1 => code.next (states s u t) (u t)

@[simp] theorem states_zero (s : Fin N) (u : ℕ → Bool) : code.states s u 0 = s := rfl

@[simp] theorem states_succ (s : Fin N) (u : ℕ → Bool) (t : ℕ) :
    code.states s u (t + 1) = code.next (code.states s u t) (u t) := rfl

/-- A run from the second step on. -/
theorem states_shift (s : Fin N) (u : ℕ → Bool) (t : ℕ) :
    code.states s u (t + 1) = code.states (code.next s (u 0)) (fun i => u (i + 1)) t := by
  induction t with
  | zero => rfl
  | succ t ih => rw [states_succ, ih, states_succ]

/-- The difference of two runs is the run of the differing inputs. -/
theorem states_diff (r s : Fin N) (u v : ℕ → Bool) (t : ℕ) :
    code.states (code.diff r s) (fun i => u i ^^ v i) t =
      code.diff (code.states r u t) (code.states s v t) := by
  induction t with
  | zero => rfl
  | succ t ih => rw [states_succ, ih, code.next_diff, states_succ, states_succ]

end LinearCode

/-- Cost of the coded bits `o` when each lane prices a zero and a one. -/
def laneCost (c : List (ℕ × ℕ)) (o : List Bool) : ℕ :=
  (List.zipWith (fun p b => bif b then p.2 else p.1) c o).sum

/-- The prices `p` charge a bit other than `b` at least the charge for
difference over the one for agreement more than `b` itself. -/
def PricesFrom (w p : ℕ × ℕ) (b : Bool) : Prop :=
  (bif b then p.2 else p.1) + w.2 ≤ (bif b then p.1 else p.2) + w.1

/-- Charge of a word that differs nowhere from the right one. -/
def agreement (w : List (ℕ × ℕ)) : ℕ := (w.map Prod.fst).sum

theorem laneCost_add_le {w c : List (ℕ × ℕ)} {right : List Bool} (wrong : List Bool)
    (h : ∀ (i : ℕ) x p b, w[i]? = some x → (c)[i]? = some p → right[i]? = some b →
      PricesFrom x p b)
    (hw : w.length = c.length) (hr : right.length = c.length) (hl : right.length = wrong.length) :
    laneCost c right + laneCost w (List.zipWith xor right wrong) ≤
      laneCost c wrong + agreement w := by
  induction c generalizing w right wrong with
  | nil =>
    have hnil : w = [] := List.length_eq_zero_iff.mp hw
    subst hnil
    simp [laneCost, agreement]
  | cons p c ih =>
    obtain _ | ⟨x, w⟩ := w
    · simp at hw
    obtain _ | ⟨b, right⟩ := right
    · simp at hr
    obtain _ | ⟨b', wrong⟩ := wrong
    · simp at hl
    have hhead : PricesFrom x p b := h 0 x p b rfl rfl rfl
    have htail := ih (w := w) wrong
      (fun i x p b hx hp hb => h (i + 1) x p b hx hp hb)
      (by simpa using hw) (by simpa using hr) (by simpa using hl)
    simp only [laneCost, agreement, List.zipWith_cons_cons, List.sum_cons, List.map_cons,
      PricesFrom] at hhead htail ⊢
    cases b <;> cases b' <;> simp only [Bool.xor_false, Bool.xor_true, Bool.not_true,
      Bool.not_false, cond_true, cond_false] at hhead ⊢ <;> omega

/-- The smaller of two naturals, by the comparison the kernel computes. -/
def least (a b : ℕ) : ℕ := bif Nat.ble a b then a else b

theorem least_le_left (a b : ℕ) : least a b ≤ a := by
  unfold least
  cases h : Nat.ble a b
  · have hn : ¬ a ≤ b := by
      intro hle
      rw [Nat.ble_eq_true_of_le hle] at h
      exact Bool.noConfusion h
    simp only [cond_false]
    omega
  · exact le_rfl

theorem least_le_right (a b : ℕ) : least a b ≤ b := by
  unfold least
  cases h : Nat.ble a b
  · exact le_rfl
  · exact Nat.le_of_ble_eq_true h

/-- A row holds a value for each state without and with a differing input. -/
structure Row where
  plain : List ℕ
  marked : List ℕ

namespace Row

/-- Row value of a marked difference state. -/
def value (row : Row) (s : ℕ) (f : Bool) : ℕ :=
  bif f then row.marked.getD s 0 else row.plain.getD s 0

/-- Least value an unmarked state is offered: only zero inputs keep it unmarked. -/
def offerPlain (ceiling : ℕ) (w : List (ℕ × ℕ)) (row : Row) :
    List (ℕ × Bool × List Bool) → ℕ
  | [] => ceiling
  | (s, b, o) :: es => bif b then offerPlain ceiling w row es
    else least (row.plain.getD s 0 + laneCost w o) (offerPlain ceiling w row es)

/-- Least value a marked state is offered. -/
def offerMarked (ceiling : ℕ) (w : List (ℕ × ℕ)) (row : Row) :
    List (ℕ × Bool × List Bool) → ℕ
  | [] => ceiling
  | (s, b, o) :: es =>
    least ((bif b then least (row.plain.getD s 0) (row.marked.getD s 0)
      else row.marked.getD s 0) + laneCost w o) (offerMarked ceiling w row es)

theorem offerPlain_le (ceiling : ℕ) (w : List (ℕ × ℕ)) (row : Row) {s : ℕ} {o : List Bool}
    {es : List (ℕ × Bool × List Bool)} (h : (s, false, o) ∈ es) :
    offerPlain ceiling w row es ≤ row.value s false + laneCost w o := by
  induction es with
  | nil => simp at h
  | cons e es ih =>
    obtain ⟨r, b, o'⟩ := e
    rcases List.mem_cons.mp h with he | hes
    · obtain ⟨rfl, rfl, rfl⟩ : s = r ∧ false = b ∧ o = o' := by simpa using he
      exact least_le_left _ _
    · cases b
      · exact (least_le_right _ _).trans (ih hes)
      · exact ih hes

theorem offerMarked_le (ceiling : ℕ) (w : List (ℕ × ℕ)) (row : Row) {s : ℕ} {f b : Bool}
    {o : List Bool} {es : List (ℕ × Bool × List Bool)} (h : (s, b, o) ∈ es)
    (hfb : (f || b) = true) : offerMarked ceiling w row es ≤ row.value s f + laneCost w o := by
  induction es with
  | nil => simp at h
  | cons e es ih =>
    obtain ⟨r, b', o'⟩ := e
    rcases List.mem_cons.mp h with he | hes
    · obtain ⟨rfl, rfl, rfl⟩ : s = r ∧ b = b' ∧ o = o' := by simpa using he
      refine (least_le_left _ _).trans (Nat.add_le_add_right ?_ _)
      cases b <;> cases f
      · simp at hfb
      · exact le_rfl
      · exact least_le_left _ _
      · exact least_le_right _ _
    · exact (least_le_right _ _).trans (ih hes)

end Row

namespace LinearCode

variable {N : ℕ} (code : LinearCode N)

/-- One relaxation of every marked difference state. -/
def relax (ceiling : ℕ) (w : List (ℕ × ℕ)) (row : Row) : Row :=
  ⟨code.table.map (row.offerPlain ceiling w), code.table.map (row.offerMarked ceiling w)⟩

/-- The row after all charges have been relaxed in order. -/
def relaxAll (ceiling : ℕ) : List (List (ℕ × ℕ)) → Row → Row
  | [], row => row
  | w :: ws, row => relaxAll ceiling ws (code.relax ceiling w row)

theorem relaxAll_concat (ceiling : ℕ) (ws : List (List (ℕ × ℕ))) (w : List (ℕ × ℕ)) (row : Row) :
    code.relaxAll ceiling (ws ++ [w]) row =
      code.relax ceiling w (code.relaxAll ceiling ws row) := by
  induction ws generalizing row with
  | nil => rfl
  | cons v ws ih => exact ih _

/-- The starting row: each admitted start difference at zero, no marked state yet. -/
def startRow (ceiling : ℕ) (starts : Fin N → Bool) : Row :=
  ⟨(List.finRange N).map fun s => bif starts s then 0 else ceiling,
    List.replicate N ceiling⟩

/-- The computed bound on every difference run that has a differing input and
ends with equal states. -/
def leastCharge (ceiling : ℕ) (starts : Fin N → Bool) (ws : List (List (ℕ × ℕ))) : ℕ :=
  (code.relaxAll ceiling ws (startRow ceiling starts)).value code.zero.val true

/-- One relaxation follows any single edge. -/
theorem relax_le (ceiling : ℕ) (w : List (ℕ × ℕ)) (row : Row) (d : Fin N) (f b : Bool) :
    (code.relax ceiling w row).value (code.next d b).val (f || b) ≤
      row.value d.val f + laneCost w (code.out d b) := by
  have hmem := code.mem_table d b
  have hlt : (code.next d b).val < code.table.length := by
    rw [code.length_table]
    exact (code.next d b).isLt
  rw [List.getD_eq_getElem?_getD, List.getElem?_eq_getElem hlt, Option.getD_some] at hmem
  cases hfb : (f || b) with
  | false =>
    obtain ⟨rfl, rfl⟩ : f = false ∧ b = false := by simpa using hfb
    simp only [Row.value, relax, cond_false, List.getD_eq_getElem?_getD, List.getElem?_map,
      List.getElem?_eq_getElem hlt, Option.map_some, Option.getD_some]
    exact row.offerPlain_le ceiling w hmem
  | true =>
    simp only [Row.value, relax, cond_true, List.getD_eq_getElem?_getD, List.getElem?_map,
      List.getElem?_eq_getElem hlt, Option.map_some, Option.getD_some]
    exact row.offerMarked_le ceiling w hmem hfb

/-- Whether one of the first `n` inputs is set. -/
def marked (u : ℕ → Bool) (n : ℕ) : Bool := (List.range n).any u

theorem marked_succ (u : ℕ → Bool) (n : ℕ) : marked u (n + 1) = (marked u n || u n) := by
  simp [marked, List.range_succ]

/-- Cost of a run when step `t` prices its lanes by `c t`. -/
def runCost (c : ℕ → List (ℕ × ℕ)) (s : Fin N) (u : ℕ → Bool) (n : ℕ) : ℕ :=
  ∑ t ∈ Finset.range n, laneCost (c t) (code.out (code.states s u t) (u t))

theorem relaxAll_le (ceiling : ℕ) (ws : List (List (ℕ × ℕ))) (row : Row) (s : Fin N)
    (u : ℕ → Bool) {n : ℕ} (hn : n ≤ ws.length) :
    (code.relaxAll ceiling (ws.take n) row).value (code.states s u n).val (marked u n) ≤
      row.value s.val false + code.runCost (ws.getD · []) s u n := by
  induction n with
  | zero => simp [relaxAll, runCost, marked]
  | succ n ih =>
    have htake : ws.take (n + 1) = ws.take n ++ [ws.getD n []] := by
      have hlt : n < ws.length := by omega
      rw [List.take_add_one, List.getD_eq_getElem?_getD, List.getElem?_eq_getElem hlt]
      rfl
    rw [htake, relaxAll_concat, marked_succ, states_succ]
    refine (code.relax_le ceiling _ _ _ _ _).trans ?_
    rw [runCost, Finset.sum_range_succ, ← add_assoc]
    exact add_le_add (ih (by omega)) le_rfl

theorem leastCharge_le (ceiling : ℕ) (starts : Fin N → Bool) (ws : List (List (ℕ × ℕ)))
    {s : Fin N} {u : ℕ → Bool} (hs : starts s = true)
    (hend : code.states s u ws.length = code.zero) (hu : marked u ws.length = true) :
    code.leastCharge ceiling starts ws ≤ code.runCost (ws.getD · []) s u ws.length := by
  have h := code.relaxAll_le ceiling ws (startRow ceiling starts) s u le_rfl
  have hstart : (startRow ceiling starts).value s.val false = 0 := by
    simp [Row.value, startRow, hs]
  rw [List.take_length, hend, hu, hstart, zero_add] at h
  exact h

/-- Prices that charge every wrong bit of the word sent at least the given charges. -/
def Prices (ws : List (List (ℕ × ℕ))) (c : ℕ → List (ℕ × ℕ)) (s : Fin N) (u : ℕ → Bool) : Prop :=
  ∀ t, t < ws.length →
    (ws.getD t []).length = (c t).length ∧
    (code.out (code.states s u t) (u t)).length = (c t).length ∧
    ∀ (i : ℕ) x p b, (ws.getD t [])[i]? = some x → (c t)[i]? = some p →
      (code.out (code.states s u t) (u t))[i]? = some b → PricesFrom x p b

/-- Charge of a run that differs nowhere. -/
def agreements (ws : List (List (ℕ × ℕ))) : ℕ := (ws.map agreement).sum

theorem agreements_eq (ws : List (List (ℕ × ℕ))) :
    agreements ws = ∑ t ∈ Finset.range ws.length, agreement (ws.getD t []) := by
  induction ws with
  | nil => simp [agreements]
  | cons w ws ih =>
    rw [List.length_cons, Finset.sum_range_succ']
    simp only [agreements, List.map_cons, List.sum_cons, List.getD_cons_succ,
      List.getD_cons_zero] at ih ⊢
    omega

variable {code}

/-- The wrong run costs at least the charge of its difference over the right one. -/
theorem runCost_add_le {ws : List (List (ℕ × ℕ))} {c : ℕ → List (ℕ × ℕ)} {s r : Fin N}
    {u v : ℕ → Bool} (hc : code.Prices ws c s u)
    (hl : ∀ d b, (code.out d b).length = (code.out code.zero false).length) :
    code.runCost c s u ws.length +
        code.runCost (ws.getD · []) (code.diff s r) (fun t => u t ^^ v t) ws.length ≤
      code.runCost c r v ws.length + agreements ws := by
  simp only [runCost, agreements_eq, ← Finset.sum_add_distrib]
  refine Finset.sum_le_sum fun t ht => ?_
  obtain ⟨hlen, hout, hprice⟩ := hc t (Finset.mem_range.mp ht)
  rw [code.states_diff, code.out_diff]
  exact laneCost_add_le _ hprice hlen hout ((hl _ _).trans (hl _ _).symm)

theorem eq_of_runCost_le {ceiling : ℕ} {starts : Fin N → Bool} {ws : List (List (ℕ × ℕ))}
    {c : ℕ → List (ℕ × ℕ)} {s r : Fin N} {u v : ℕ → Bool}
    (hpos : agreements ws < code.leastCharge ceiling starts ws) (hc : code.Prices ws c s u)
    (hl : ∀ d b, (code.out d b).length = (code.out code.zero false).length)
    (hs : starts (code.diff s r) = true)
    (hend : code.states s u ws.length = code.states r v ws.length)
    (hle : code.runCost c r v ws.length ≤ code.runCost c s u ws.length) :
    ∀ t, t < ws.length → v t = u t := by
  intro t ht
  by_contra hne
  have hmark : marked (fun i => u i ^^ v i) ws.length = true :=
    List.any_eq_true.mpr ⟨t, List.mem_range.mpr ht, by
      cases hu : u t <;> cases hv : v t <;> simp_all⟩
  have hzero : code.states (code.diff s r) (fun i => u i ^^ v i) ws.length = code.zero := by
    rw [code.states_diff, hend, code.diff_self]
  have hbound := code.leastCharge_le ceiling starts ws hs hzero hmark
  have hsum := runCost_add_le (r := r) (v := v) hc hl
  omega

end LinearCode

end DsdNeo.Trellis

/-!
# Decoding a linear code by its survivors

An add-compare-select decoder whose steps are relaxed and traced returns a path
of least cost into the state it starts its traceback from. Where the separation
bound of the code is met, that path has the inputs that were sent: the decoder's
tie rule, its unknown start and the guesses it stands in for punctured bits have
no influence.
-/

namespace DsdNeo.Trellis.LinearCode

variable {N : ℕ} (code : LinearCode N) (input : Fin N → Bool)

/-- Edges of the code, the input being recorded in the successor state. -/
def Edge (r s : Fin N) : Prop := s = code.next r (input s)

instance (r s : Fin N) : Decidable (code.Edge input r s) :=
  inferInstanceAs (Decidable (s = code.next r (input s)))

/-- Branch cost when the lanes are priced by `c`. -/
def branch (c : List (ℕ × ℕ)) (r s : Fin N) : ℕ := laneCost c (code.out r (input s))

variable {code input}

theorem states_eq_of_isPath {n : ℕ} {p : ℕ → Fin N} (hp : IsPath (code.Edge input) n p)
    {t : ℕ} (ht : t ≤ n) : code.states (p 0) (fun i => input (p (i + 1))) t = p t := by
  induction t with
  | zero => rfl
  | succ t ih => rw [states_succ, ih (by omega), ← hp t (by omega)]

theorem isPath_states (hin : ∀ r b, input (code.next r b) = b) (s : Fin N) (u : ℕ → Bool)
    (n : ℕ) : IsPath (code.Edge input) n (code.states s u) := by
  intro t _
  rw [Edge, states_succ, hin]

theorem pathCost_eq_runCost {n : ℕ} {p : ℕ → Fin N} (hp : IsPath (code.Edge input) n p)
    (c : ℕ → List (ℕ × ℕ)) :
    pathCost (fun t => code.branch input (c t)) n p =
      code.runCost c (p 0) (fun i => input (p (i + 1))) n := by
  refine Finset.sum_congr rfl fun t ht => ?_
  rw [states_eq_of_isPath hp (Finset.mem_range.mp ht).le]
  rfl

theorem runCost_eq_pathCost (hin : ∀ r b, input (code.next r b) = b) (c : ℕ → List (ℕ × ℕ))
    (s : Fin N) (u : ℕ → Bool) (n : ℕ) :
    code.runCost c s u n = pathCost (fun t => code.branch input (c t)) n (code.states s u) := by
  refine Finset.sum_congr rfl fun t _ => ?_
  simp only [branch, states_succ, hin]

theorem traceback_records {ceiling cap : ℕ} {starts : Fin N → Bool} {ws : List (List (ℕ × ℕ))}
    {c : ℕ → List (ℕ × ℕ)} {metric : ℕ → Fin N → ℕ} {pred : ℕ → Fin N → Fin N} {s f : Fin N}
    {u : ℕ → Bool} (hin : ∀ r b, input (code.next r b) = b)
    (hl : ∀ d b, (code.out d b).length = (code.out code.zero false).length)
    (hrel : ∀ t, t < ws.length →
      Relaxed (code.Edge input) (code.branch input (c t)) (metric t) (metric (t + 1)))
    (htr : ∀ t, t < ws.length → Traced cap (code.Edge input) (code.branch input (c t))
      (metric t) (metric (t + 1)) (pred t))
    (hstart : ∀ r, metric 0 r < cap → metric 0 s ≤ metric 0 r ∧ starts (code.diff s r) = true)
    (hend : code.states s u ws.length = f) (hcap : metric ws.length f < cap)
    (hpos : agreements ws < code.leastCharge ceiling starts ws) (hc : code.Prices ws c s u) :
    IsPath (code.Edge input) ws.length (traceback pred ws.length f) ∧
      ∀ t, t < ws.length → input (traceback pred ws.length f (t + 1)) = u t := by
  obtain ⟨hpath, hbelow, hcost⟩ := traceback_spec htr (fun _ _ _ => Nat.zero_le _) hcap
  obtain ⟨hzero, hadmitted⟩ := hstart _ hbelow
  have hsent := metric_le_pathCost hrel (isPath_states hin s u ws.length)
  rw [hend, states_zero, ← runCost_eq_pathCost hin] at hsent
  rw [pathCost_eq_runCost hpath] at hcost
  refine ⟨hpath, eq_of_runCost_le (v := fun i => input (traceback pred ws.length f (i + 1)))
    hpos hc hl hadmitted ?_ ?_⟩
  · rw [hend, states_eq_of_isPath hpath le_rfl, traceback_self]
  · omega

end DsdNeo.Trellis.LinearCode

/-!
# What is received for a punctured word

A word of a linear code is sent without its punctured bits, and the receiver
stands in one value for each of them. Every coded bit is priced by the value `s`
received for it: `s` against a zero, `full - s` against a one. The charges of the
separation bound follow from the puncturing alone: a wrong bit that was sent costs
`full` more than the right one, and a stand-in favours a wrong bit by no more than
its distance from the middle.
-/

namespace DsdNeo.Trellis

/-- Received values of a punctured word: `full` for a one, and `fill` where the bit
was not sent. -/
def received (full fill : ℕ) (mask coded : List Bool) : List ℕ :=
  Reorder.masked fill mask (coded.map fun b => bif b then full else 0)

/-- Prices of received values, `full` being the farthest from a zero. -/
def lanePrices (full : ℕ) (values : List ℕ) : List (ℕ × ℕ) := values.map fun s => (s, full - s)

/-- The elements of step `t`. -/
def stepOf {α : Type*} (lanes t : ℕ) (xs : List α) : List α := (xs.drop (lanes * t)).take lanes

theorem getElem?_stepOf {α : Type*} {lanes i : ℕ} (hi : i < lanes) (t : ℕ) (xs : List α) :
    (stepOf lanes t xs)[i]? = xs[lanes * t + i]? := by
  rw [stepOf, List.getElem?_take_of_lt hi, List.getElem?_drop]

theorem length_stepOf {α : Type*} {lanes t n : ℕ} {xs : List α} (hlen : xs.length = lanes * n)
    (ht : t < n) : (stepOf lanes t xs).length = lanes := by
  have hmul : lanes * (t + 1) ≤ lanes * n := Nat.mul_le_mul_left _ ht
  rw [Nat.mul_succ] at hmul
  rw [stepOf, List.length_take, List.length_drop]
  omega

/-- Charges of one position: what a wrong bit costs where it was sent, and what the
stand-in may favour it by where it was not. -/
def charge (full doubt : ℕ) (m : Bool) : ℕ × ℕ := bif m then (0, full) else (doubt, 0)

/-- Charges of each of `n` steps of a punctured word. -/
def charges (full doubt lanes : ℕ) : ℕ → List Bool → List (List (ℕ × ℕ))
  | 0, _ => []
  | n + 1, mask =>
    (mask.take lanes).map (charge full doubt) :: charges full doubt lanes n (mask.drop lanes)

@[simp] theorem length_charges (full doubt lanes n : ℕ) (mask : List Bool) :
    (charges full doubt lanes n mask).length = n := by
  induction n generalizing mask with
  | zero => rfl
  | succ n ih => rw [charges, List.length_cons, ih]

theorem getElem?_charges (full doubt lanes : ℕ) {n t : ℕ} (ht : t < n) (mask : List Bool) :
    (charges full doubt lanes n mask)[t]? =
    some ((stepOf lanes t mask).map (charge full doubt)) := by
  induction n generalizing mask t with
  | zero => omega
  | succ n ih =>
    cases t with
    | zero => rfl
    | succ t =>
      rw [charges, List.getElem?_cons_succ, ih (by omega), stepOf, stepOf, List.drop_drop,
        Nat.mul_succ, Nat.add_comm lanes]

theorem getElem?_received (full fill : ℕ) {mask coded : List Bool} {k : ℕ} {m b : Bool}
    (hm : mask[k]? = some m) (hb : coded[k]? = some b) :
    (received full fill mask coded)[k]? = some (bif m then bif b then full else 0 else fill) := by
  simp [received, Reorder.masked, List.getElem?_zipWith, hm, hb]

@[simp] theorem length_received (full fill : ℕ) {mask coded : List Bool}
    (h : mask.length = coded.length) : (received full fill mask coded).length = coded.length := by
  simp [received, Reorder.masked, h]

theorem received_le {full fill : ℕ} (h : fill ≤ full) (mask coded : List Bool) (k : ℕ) :
    (received full fill mask coded).getD k 0 ≤ full := by
  rw [List.getD_eq_getElem?_getD, received, Reorder.masked, List.getElem?_zipWith,
    List.getElem?_map]
  rcases mask[k]? with _ | m <;> rcases coded[k]? with _ | b
  · simp
  · simp
  · simp
  · cases m <;> cases b <;> simp [h]

/-- One lane: a stand-in within `doubt` of the middle bears out the charges. -/
theorem pricesFrom_received {full fill doubt : ℕ} (hlow : full ≤ 2 * fill + doubt)
    (hhigh : 2 * fill ≤ full + doubt) (hfill : fill ≤ full) (m b : Bool) :
    PricesFrom (charge full doubt m)
      (bif m then bif b then full else 0 else fill,
        full - bif m then bif b then full else 0 else fill) b := by
  cases m <;> cases b <;> simp only [PricesFrom, charge, cond_true, cond_false] <;> omega

namespace LinearCode

variable {N lanes : ℕ} (code : LinearCode N)

/-- Coded bits of an input sequence from state `s`. -/
def codedStream (s : Fin N) : List Bool → List Bool
  | [] => []
  | b :: input => code.out s b ++ codedStream (code.next s b) input

variable {code} (hout : ∀ s b, (code.out s b).length = lanes)

include hout

theorem length_codedStream (s : Fin N) (input : List Bool) :
    (code.codedStream s input).length = lanes * input.length := by
  induction input generalizing s with
  | nil => rfl
  | cons b input ih =>
    rw [codedStream, List.length_append, ih, List.length_cons, hout, Nat.mul_succ, Nat.add_comm]

theorem getElem?_codedStream (s : Fin N) {input : List Bool} {t i : ℕ} (ht : t < input.length)
    (hi : i < lanes) :
    (code.codedStream s input)[lanes * t + i]? =
      (code.out (code.states s (input.getD · false) t) (input.getD t false))[i]? := by
  induction input generalizing s t with
  | nil => simp at ht
  | cons b input ih =>
    cases t with
    | zero =>
      rw [codedStream, Nat.mul_zero, Nat.zero_add,
        List.getElem?_append_left (by rw [hout]; exact hi)]
      rfl
    | succ t =>
      rw [codedStream, Nat.mul_succ, List.getElem?_append_right (by rw [hout]; omega), hout,
        show lanes * t + lanes + i - lanes = lanes * t + i by omega, ih _ (by simpa using ht),
        states_shift]
      rfl

/-- The values received for a punctured word separate it as charged. -/
theorem prices_received {full fill doubt : ℕ} (hlow : full ≤ 2 * fill + doubt)
    (hhigh : 2 * fill ≤ full + doubt) (hfill : fill ≤ full) {mask input : List Bool}
    (hmask : mask.length = lanes * input.length) (s : Fin N) :
    code.Prices (charges full doubt lanes input.length mask)
      (fun t => lanePrices full (stepOf lanes t
        (received full fill mask (code.codedStream s input)))) s (input.getD · false) := by
  intro t ht
  beta_reduce
  have ht' : t < input.length := by simpa using ht
  have hcoded := length_codedStream hout s input
  have hlen : (received full fill mask (code.codedStream s input)).length =
      lanes * input.length := by rw [length_received _ _ (hmask.trans hcoded.symm), hcoded]
  rw [List.getD_eq_getElem?_getD, getElem?_charges full doubt lanes ht', Option.getD_some]
  refine ⟨?_, ?_, ?_⟩
  · rw [List.length_map, length_stepOf hmask ht', lanePrices, List.length_map,
      length_stepOf hlen ht']
  · rw [hout, lanePrices, List.length_map, length_stepOf hlen ht']
  · intro i w p c hw hp hc
    have hi : i < lanes := by
      have := (List.getElem?_eq_some_iff.mp hc).1
      rwa [hout] at this
    rw [← getElem?_codedStream hout s ht' hi] at hc
    rw [List.getElem?_map, getElem?_stepOf hi] at hw
    obtain ⟨m, hm, rfl⟩ := Option.map_eq_some_iff.mp hw
    rw [lanePrices, List.getElem?_map, getElem?_stepOf hi, getElem?_received full fill hm hc] at hp
    rw [← Option.some.inj hp]
    exact pricesFrom_received hlow hhigh hfill m c

end LinearCode

end DsdNeo.Trellis
