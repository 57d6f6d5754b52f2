import Mathlib.Algebra.Order.Group.Defs
import Mathlib.Data.List.Chain

/-!
# A quarantine with one probe

Something that ended is offered again, and the offer may be old news. For a while every offer is
held, each one noted; a quiet gap between two of them, or the age of the quarantine, lifts it.
Once it has some age, one offer is let through as a probe, and the quarantine goes on.
-/

namespace DsdNeo

/-- The three spans of a quarantine. -/
structure Quarantine.Limits (K : Type) where
  quiet : K
  delay : K
  maxAge : K

/-- What an offer is answered. -/
inductive Quarantine.Answer
  | held | probe | lifted
  deriving DecidableEq, Repr

/-- A quarantine: since when, the offer noted last, and whether one was let through. -/
structure Quarantine (K : Type) where
  since : K
  lastOffer : Option K
  probed : Bool
  deriving DecidableEq, Repr

namespace Quarantine

variable {K : Type} [AddCommGroup K] [LinearOrder K]
variable (limits : Limits K)

/-- The answer to an offer at a time. -/
def answer (q : Quarantine K) (now : K) : Answer :=
  if limits.maxAge ≤ now - q.since then .lifted
  else if q.lastOffer.any fun last => limits.quiet ≤ now - last then .lifted
  else if limits.delay ≤ now - q.since ∧ q.probed = false then .probe
  else .held

/-- The quarantine after an offer, unless it is lifted. -/
def offered (q : Quarantine K) (now : K) : Option (Quarantine K) :=
  match q.answer limits now with
  | .lifted => none
  | .probe => some { q with lastOffer := some now, probed := true }
  | .held => some { q with lastOffer := some now }

/-- The answers to offers in turn; without a quarantine nothing is held. -/
def answers : Option (Quarantine K) → List K → List Answer
  | _, [] => []
  | none, _ :: offers => .lifted :: answers none offers
  | some q, now :: offers => q.answer limits now :: answers (q.offered limits now) offers

/-- How many of the answers let an offer through. -/
def letThrough (q : Option (Quarantine K)) (offers : List K) : ℕ :=
  (answers limits q offers).countP (· ≠ .held)

variable {limits} {q : Quarantine K} {now : K} {offers : List K}

theorem letThrough_cons : letThrough limits (some q) (now :: offers) =
    letThrough limits (q.offered limits now) offers +
      if q.answer limits now = .held then 0 else 1 := by
  rw [letThrough, answers, List.countP_cons]
  simp [letThrough]

theorem answer_of_recent (hage : now - q.since < limits.maxAge)
    (hgap : ∀ last ∈ q.lastOffer, now - last < limits.quiet) :
    q.answer limits now =
      if limits.delay ≤ now - q.since ∧ q.probed = false then .probe else .held := by
  have hquiet : ¬ (q.lastOffer.any fun last => decide (limits.quiet ≤ now - last)) = true := by
    rw [Option.any_eq_true]
    rintro ⟨last, hlast, hle⟩
    exact absurd (hgap last hlast) (not_lt.2 (of_decide_eq_true hle))
  rw [answer, if_neg (not_le.2 hage), if_neg hquiet]

/-- While every offer so far is younger than the delay, the next is held too. -/
theorem answer_of_early [IsOrderedAddMonoid K] (hdelay : now - q.since < limits.delay)
    (hquiet : limits.delay ≤ limits.quiet) (hage : limits.delay ≤ limits.maxAge)
    (hlast : ∀ last ∈ q.lastOffer, q.since ≤ last) : q.answer limits now = .held := by
  rw [answer_of_recent (hdelay.trans_le hage), if_neg fun h => absurd h.1 (not_le.2 hdelay)]
  intro last hmem
  calc now - last ≤ now - q.since := sub_le_sub_left (hlast last hmem) now
    _ < limits.delay := hdelay
    _ ≤ limits.quiet := hquiet

/-- What an offer that does not lift the quarantine leaves. -/
theorem offered_of_recent (hage : now - q.since < limits.maxAge)
    (hgap : ∀ last ∈ q.lastOffer, now - last < limits.quiet) :
    q.offered limits now = some
      { q with
        lastOffer := some now
        probed := q.probed || decide (limits.delay ≤ now - q.since) } := by
  rw [offered, answer_of_recent hage hgap]
  obtain ⟨since, lastOffer, probed⟩ := q
  by_cases hdelay : limits.delay ≤ now - since <;> cases probed <;> simp [hdelay]

theorem letThrough_le (hage : ∀ now ∈ offers, now - q.since < limits.maxAge)
    (hgap : (q.lastOffer.toList ++ offers).IsChain fun last now => now - last < limits.quiet) :
    letThrough limits (some q) offers ≤ if q.probed then 0 else 1 := by
  induction offers generalizing q with
  | nil => simp [letThrough, answers]
  | cons now offers ih =>
    have hage' := hage now List.mem_cons_self
    have hrecent : ∀ last ∈ q.lastOffer, now - last < limits.quiet := by
      intro last hlast
      rw [Option.mem_def.1 hlast] at hgap
      exact (List.isChain_cons_cons.1 hgap).1
    have hrest : (now :: offers).IsChain fun last now => now - last < limits.quiet :=
      hgap.suffix (List.suffix_append _ _)
    have htail := ih (q := { q with
        lastOffer := some now
        probed := q.probed || decide (limits.delay ≤ now - q.since) })
      (fun later hmem => hage later (List.mem_cons_of_mem _ hmem)) hrest
    rw [letThrough_cons, offered_of_recent hage' hrecent, answer_of_recent hage' hrecent]
    by_cases hdelay : limits.delay ≤ now - q.since <;> rcases hprobed : q.probed with _ | _ <;>
      simp only [hdelay, hprobed] at htail ⊢ <;> simpa using htail

end Quarantine

end DsdNeo
