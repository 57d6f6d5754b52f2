import DsdNeo.Core.Register.Sticky
import DsdNeo.Models.Calls.Lifecycle

/-!
# What the air carried

A history follows the call on the slot: the crypto updates it took and the times its values were
forgotten, across the epochs that take it up again. The received algorithm and key of the record
are those of the last update that received them and that nothing since withdrew.
-/

namespace DsdNeo.CallState

open DsdNeo.Register CryptoUpdate

/-- What touches the crypto of a call. -/
inductive Entry where
  | update (update : CryptoUpdate)
  | forget

/-- The update received the field of this bit. -/
def Entry.Receives (bit : BitVec 8) : Entry → Prop
  | .update u => u.received &&& bit ≠ 0
  | .forget => False

/-- The field of this bit is contradicted without being received, by an update that is not
carried, or it is forgotten. -/
def Entry.Removes (bit : BitVec 8) : Entry → Prop
  | .update u => u.carried = false ∧ u.contradicted &&& bit ≠ 0 ∧ u.received &&& bit = 0
  | .forget => True

/-- The update received the field of this bit with this value. -/
def Entry.Brings {α : Type} (bit : BitVec 8) (value : CryptoUpdate → α) (v : α) : Entry → Prop
  | .update u => u.received &&& bit ≠ 0 ∧ value u = v
  | .forget => False

/-- The update published these values of its own. -/
def Entry.Publishes (algid : BitVec 8) (kid : BitVec 16) (mi : BitVec 64) : Entry → Prop
  | .update u => u.carried = false ∧ u.algid = algid ∧ u.kid = kid ∧ u.mi = mi
  | .forget => False

/-- A carried update. -/
def Entry.IsCarried : Entry → Prop
  | .update u => u.carried = true
  | .forget => False

/-- What an entry does to the field of a bit. -/
def Entry.effect {α : Type} (bit : BitVec 8) (value : CryptoUpdate → α) : Entry → Effect α
  | .update u =>
    if u.carried then .keep
    else if u.received &&& bit ≠ 0 then .receive (value u)
    else if u.contradicted &&& bit ≠ 0 then .withdraw
    else .keep
  | .forget => .withdraw

/-- The history of the call on the slot, and whether its epoch took another one up. -/
structure History where
  entries : List Entry
  reacquired : Bool

open History

/-- No call yet. -/
def History.start : History := ⟨[], false⟩

/-- The history after a call on the slot `w`. -/
def History.after (w : Slot) (h : History) : Op → History
  | .observe observation boundary rx =>
    let r := callStateObserve w observation boundary rx
    if ¬ r.beginsEpoch then h
    else if r.healed.isSome then { h with reacquired := true }
    else History.start
  | .updateCrypto update includeEnded crcInvalid clock =>
    if (callStateUpdateCrypto w update includeEnded crcInvalid clock).1 then
      { h with entries := h.entries ++ [.update update] }
    else h
  | .forgetCryptoValues =>
    if w.record.epoch ≠ 0 ∧ w.record.phase = .active then
      { h with entries := h.entries ++ [.forget] }
    else h
  | _ => h

/-- A slot and the contexts saved of it, each record with its history. -/
structure Process where
  slot : Slot
  history : History
  saved : ℕ → Option (Record × BitVec 64 × History)

/-- A call on the slot, or a context saved or brought back. -/
inductive Call where
  | on (op : Op)
  | save (id : ℕ)
  | contextRestore (id : ℕ)
  | restore (id : ℕ)

/-- The process after a call. -/
def Process.take (p : Process) : Call → Process
  | .on op => { p with slot := perform p.slot op, history := p.history.after p.slot op }
  | .save id =>
    { p with
      saved := Function.update p.saved id (some (p.slot.record, p.slot.revision, p.history)) }
  | .contextRestore id =>
    match p.saved id with
    | none => p
    | some (record, revision, history) =>
      { p with slot := callContextRestoreSnapshot p.slot record revision, history := history }
  | .restore id =>
    match p.saved id with
    | none => p
    | some (record, revision, history) =>
      { p with slot := callStateRestoreSnapshot p.slot record revision, history := history }

/-- Nothing has happened, and nothing is saved. -/
def Process.start : Process := ⟨Slot.start, History.start, fun _ => none⟩

/-- The process after calls made from the start. -/
def Process.run (calls : List Call) : Process := calls.foldl Process.take Process.start

/-- No update is both carried and received. -/
def Call.Clean : Call → Prop
  | .on (.updateCrypto update _ _ _) => update.carried = true → update.received = 0
  | _ => True

/-- The field of a bit, as a record holds it. -/
def heldField {α : Type} (bit received : BitVec 8) (value : α) : Option α :=
  if received &&& bit ≠ 0 then some value else none

/-- The algorithm a record holds as received. -/
def CryptoView.receivedAlg (v : CryptoView) : Option (BitVec 8) :=
  heldField callCryptoRxAlg v.cryptoReceived v.receivedAlgid

/-- The key a record holds as received. -/
def CryptoView.receivedKey (v : CryptoView) : Option (BitVec 16) :=
  heldField callCryptoRxKid v.cryptoReceived v.receivedKid

/-- The bit stands at this place, among the two that updates receive. -/
structure IsField (bit : BitVec 8) (i : ℕ) : Prop where
  bit : ∀ x : BitVec 8, x &&& bit ≠ 0 ↔ x.getLsbD i = true
  received : ∀ x : BitVec 8, (x &&& 3).getLsbD i = x.getLsbD i
  lt : i < 8

theorem isField_alg : IsField callCryptoRxAlg 0 where
  bit := by decide
  received := by decide
  lt := by decide

theorem isField_kid : IsField callCryptoRxKid 1 where
  bit := by decide
  received := by decide
  lt := by decide

theorem callStateApplyReceivedCrypto_cryptoReceived (r : Record) (u : CryptoUpdate) :
    (callStateApplyReceivedCrypto r u).cryptoReceived =
      r.cryptoReceived &&& ~~~callStateCryptoWithdraws r u ||| (u.received &&& 3) := by
  have hbits : u.received &&& 3 =
      (if u.received &&& callCryptoRxAlg ≠ 0 then callCryptoRxAlg else 0) |||
      (if u.received &&& callCryptoRxKid ≠ 0 then callCryptoRxKid else 0) := by
    generalize u.received = x
    revert x
    decide
  rw [hbits]
  unfold callStateApplyReceivedCrypto
  dsimp only
  split_ifs <;> simp [BitVec.or_assoc]

theorem callStateApplyReceivedCrypto_receivedAlgid (r : Record) (u : CryptoUpdate) :
    (callStateApplyReceivedCrypto r u).receivedAlgid =
      if u.received &&& callCryptoRxAlg ≠ 0 then u.algid
      else if callStateCryptoWithdraws r u &&& callCryptoRxAlg ≠ 0 then 0 else r.receivedAlgid := by
  unfold callStateApplyReceivedCrypto
  dsimp only
  split_ifs <;> rfl

theorem callStateApplyReceivedCrypto_receivedKid (r : Record) (u : CryptoUpdate) :
    (callStateApplyReceivedCrypto r u).receivedKid =
      if u.received &&& callCryptoRxKid ≠ 0 then u.kid
      else if callStateCryptoWithdraws r u &&& callCryptoRxKid ≠ 0 then 0 else r.receivedKid := by
  unfold callStateApplyReceivedCrypto
  dsimp only
  split_ifs <;> rfl

variable {u : CryptoUpdate} {r : Record} {α : Type}

theorem heldField_callStateApplyReceivedCrypto {bit : BitVec 8} {i : ℕ} (hfield : IsField bit i)
    (hcarried : u.carried = false) {value : CryptoUpdate → α} {old new zero : α}
    (hnew : new = if u.received &&& bit ≠ 0 then value u
      else if callStateCryptoWithdraws r u &&& bit ≠ 0 then zero else old) :
    heldField bit (callStateApplyReceivedCrypto r u).cryptoReceived new =
      (Entry.effect bit value (.update u)).apply (heldField bit r.cryptoReceived old) := by
  have hafter : (callStateApplyReceivedCrypto r u).cryptoReceived &&& bit ≠ 0 ↔
      (u.received.getLsbD i || r.cryptoReceived.getLsbD i && !u.contradicted.getLsbD i) = true := by
    rw [hfield.bit, callStateApplyReceivedCrypto_cryptoReceived]
    simp only [callStateCryptoWithdraws, BitVec.getLsbD_or, BitVec.getLsbD_and, BitVec.getLsbD_not,
      hfield.received, hfield.lt, decide_true]
    cases u.received.getLsbD i <;> cases r.cryptoReceived.getLsbD i <;>
      cases u.contradicted.getLsbD i <;> rfl
  have hwithdraws : callStateCryptoWithdraws r u &&& bit ≠ 0 ↔
      (u.contradicted.getLsbD i && !u.received.getLsbD i && r.cryptoReceived.getLsbD i) = true := by
    rw [hfield.bit]
    simp only [callStateCryptoWithdraws, BitVec.getLsbD_and, BitVec.getLsbD_not, hfield.lt,
      decide_true, Bool.true_and]
  simp only [heldField, Entry.effect, hnew, hafter, hwithdraws, hfield.bit, hcarried]
  cases u.received.getLsbD i <;> cases r.cryptoReceived.getLsbD i <;>
    cases u.contradicted.getLsbD i <;> simp [Effect.apply]

/-- An update the change test passes over acts on no field. -/
theorem heldField_of_not_differs {bit : BitVec 8} {value : CryptoUpdate → α} {old : α}
    (hreceives : ¬ (u.received &&& bit ≠ 0 ∧ (r.cryptoReceived &&& bit = 0 ∨ old ≠ value u)))
    (hwithdraws : callStateCryptoWithdraws r u &&& bit = 0) {i : ℕ} (hfield : IsField bit i) :
    (Entry.effect bit value (.update u)).apply (heldField bit r.cryptoReceived old) =
      heldField bit r.cryptoReceived old := by
  have hbits : (u.contradicted.getLsbD i && !u.received.getLsbD i &&
      r.cryptoReceived.getLsbD i) = false := by
    have hnone : ¬ (callStateCryptoWithdraws r u).getLsbD i = true := by
      rw [← hfield.bit, not_not]
      exact hwithdraws
    simpa only [callStateCryptoWithdraws, BitVec.getLsbD_and, BitVec.getLsbD_not, hfield.lt,
      decide_true, Bool.true_and, Bool.not_eq_true] using hnone
  have hsame : u.received.getLsbD i = true → r.cryptoReceived.getLsbD i = true ∧ old = value u := by
    intro hreceived
    rw [← hfield.bit] at hreceived
    have hheld := fun h => hreceives ⟨hreceived, h⟩
    rw [imp_false, not_or, not_not] at hheld
    exact ⟨(hfield.bit _).mp hheld.1, hheld.2⟩
  simp only [heldField, Entry.effect, hfield.bit]
  cases hcarried : u.carried with
  | true => rfl
  | false =>
    cases hreceived : u.received.getLsbD i with
    | true =>
      obtain ⟨hheld, hvalue⟩ := hsame hreceived
      simp [Effect.apply, hheld, hvalue]
    | false =>
      rw [hreceived] at hbits
      cases hcontradicted : u.contradicted.getLsbD i with
      | false => simp [Effect.apply]
      | true =>
        rw [hcontradicted] at hbits
        simp only [Bool.not_false, Bool.and_self, Bool.true_and] at hbits
        simp [Effect.apply, hbits]

/-- The crypto of a record is what its history says. -/
structure Tells (v : CryptoView) (h : History) : Prop where
  alg : v.receivedAlg = held (Entry.effect callCryptoRxAlg algid) h.entries
  key : v.receivedKey = held (Entry.effect callCryptoRxKid kid) h.entries
  own : h.reacquired = false → v.cryptoRestored = false ∧
    ((v.algid = 0 ∧ v.kid = 0 ∧ v.mi = 0) ∨
      Since (Entry.Publishes v.algid v.kid v.mi) Entry.IsCarried h.entries)

theorem Tells.start (v : CryptoView) (hv : v = Record.cleared.cryptoView) :
    Tells v History.start := by
  subst hv
  exact ⟨rfl, rfl, fun _ => ⟨rfl, .inl ⟨rfl, rfl, rfl⟩⟩⟩

theorem cryptoPublished_of_not_owns (h : callStateCryptoUpdateOwnsValues r u = false) :
    (cryptoPublished r u).cryptoView = r.cryptoView := by
  have howns : callStateCryptoUpdateOwnsValues { r with crypto := u.classification } u = false := h
  simp only [cryptoPublished, howns, Bool.false_eq_true, if_false]
  rfl

theorem cryptoPublished_of_owns (h : callStateCryptoUpdateOwnsValues r u = true) :
    (cryptoPublished r u).cryptoView =
      { r.cryptoView with
        algid := u.algid, kid := u.kid, mi := u.mi, cryptoRestored := false } := by
  have howns : callStateCryptoUpdateOwnsValues { r with crypto := u.classification } u = true := h
  simp only [cryptoPublished, howns, if_true]
  rfl

theorem cryptoPublished_received (r : Record) (u : CryptoUpdate) :
    (cryptoPublished r u).cryptoReceived = r.cryptoReceived ∧
      (cryptoPublished r u).receivedAlgid = r.receivedAlgid ∧
      (cryptoPublished r u).receivedKid = r.receivedKid := by
  unfold cryptoPublished
  dsimp only
  split_ifs <;> exact ⟨rfl, rfl, rfl⟩

theorem callStateApplyReceivedCrypto_values (r : Record) (u : CryptoUpdate) :
    (callStateApplyReceivedCrypto r u).algid = r.algid ∧
      (callStateApplyReceivedCrypto r u).kid = r.kid ∧
      (callStateApplyReceivedCrypto r u).mi = r.mi ∧
      (callStateApplyReceivedCrypto r u).cryptoRestored = r.cryptoRestored := by
  unfold callStateApplyReceivedCrypto
  dsimp only
  split_ifs <;> exact ⟨rfl, rfl, rfl, rfl⟩

variable {h : History}

theorem Tells.updated (htells : Tells r.cryptoView h) (u : CryptoUpdate) (crcInvalid : BitVec 8)
    (clock : ℚ) :
    Tells (cryptoUpdated r u crcInvalid clock).cryptoView
      { h with entries := h.entries ++ [.update u] } := by
  obtain ⟨hreceived, halgid, hkid⟩ := cryptoPublished_received r u
  rw [cryptoUpdated_cryptoView]
  cases hcarried : u.carried with
  | true =>
    have howns : callStateCryptoUpdateOwnsValues r u = false := by
      simp [callStateCryptoUpdateOwnsValues, hcarried]
    rw [if_pos rfl, cryptoPublished_of_not_owns howns]
    refine ⟨?_, ?_, ?_⟩
    · rw [held_append_singleton, ← htells.alg]
      simp [Entry.effect, hcarried, Effect.apply]
    · rw [held_append_singleton, ← htells.key]
      simp [Entry.effect, hcarried, Effect.apply]
    · intro hown
      obtain ⟨hrestored, hvalues⟩ := htells.own hown
      refine ⟨hrestored, hvalues.imp_right ?_⟩
      intro hsince
      exact since_append_singleton.mpr (.inr ⟨hcarried, hsince⟩)
  | false =>
    rw [if_neg Bool.false_ne_true]
    refine ⟨?_, ?_, ?_⟩
    · rw [held_append_singleton, ← htells.alg]
      have hfield := heldField_callStateApplyReceivedCrypto isField_alg hcarried
        (callStateApplyReceivedCrypto_receivedAlgid (cryptoPublished r u) u)
      rw [hreceived, halgid] at hfield
      exact hfield
    · rw [held_append_singleton, ← htells.key]
      have hfield := heldField_callStateApplyReceivedCrypto isField_kid hcarried
        (callStateApplyReceivedCrypto_receivedKid (cryptoPublished r u) u)
      rw [hreceived, hkid] at hfield
      exact hfield
    · intro hown
      obtain ⟨hrestored, -⟩ := htells.own hown
      have howns : callStateCryptoUpdateOwnsValues r u = true := by
        have hunrestored : r.cryptoRestored = false := hrestored
        simp [callStateCryptoUpdateOwnsValues, hcarried, hunrestored]
      have hview := cryptoPublished_of_owns howns
      obtain ⟨ha, hk, hm, hr⟩ := callStateApplyReceivedCrypto_values (cryptoPublished r u) u
      refine ⟨hr.trans (congrArg CryptoView.cryptoRestored hview), .inr ?_⟩
      refine since_append_singleton.mpr (.inl ⟨hcarried, ?_, ?_, ?_⟩)
      · exact (ha.trans (congrArg CryptoView.algid hview)).symm
      · exact (hk.trans (congrArg CryptoView.kid hview)).symm
      · exact (hm.trans (congrArg CryptoView.mi hview)).symm

/-- An update that changes nothing tells of itself all the same. -/
theorem Tells.unchanged (htells : Tells r.cryptoView h)
    (hdiffers : callStateCryptoDiffers r u = false) :
    Tells r.cryptoView { h with entries := h.entries ++ [.update u] } := by
  simp only [callStateCryptoDiffers, callStateCryptoReceivesNew, Bool.or_eq_false_iff,
    decide_eq_false_iff_not, not_not] at hdiffers
  obtain ⟨⟨⟨⟨⟨-, hvalues⟩, -⟩, halg, hkid⟩, hwithdraws⟩, -⟩ := hdiffers
  refine ⟨?_, ?_, ?_⟩
  · rw [held_append_singleton, ← htells.alg]
    exact (heldField_of_not_differs halg (by rw [hwithdraws]; rfl) isField_alg).symm
  · rw [held_append_singleton, ← htells.key]
    exact (heldField_of_not_differs hkid (by rw [hwithdraws]; rfl) isField_kid).symm
  · intro hown
    obtain ⟨hrestored, hpublished⟩ := htells.own hown
    refine ⟨hrestored, ?_⟩
    cases hcarried : u.carried with
    | true =>
      refine hpublished.imp_right ?_
      intro hsince
      exact since_append_singleton.mpr (.inr ⟨hcarried, hsince⟩)
    | false =>
      have howns : callStateCryptoUpdateOwnsValues r u = true := by
        have hunrestored : r.cryptoRestored = false := hrestored
        simp [callStateCryptoUpdateOwnsValues, hcarried, hunrestored]
      rw [howns, Bool.true_and, decide_eq_false_iff_not] at hvalues
      simp only [ne_eq, not_or, not_not] at hvalues
      obtain ⟨ha, hk, hm⟩ := hvalues
      exact .inr (since_append_singleton.mpr (.inl ⟨hcarried, ha.symm, hk.symm, hm.symm⟩))

theorem Tells.forgotten {v : CryptoView} (hv : v = Record.cleared.cryptoView) :
    Tells v { h with entries := h.entries ++ [.forget] } := by
  subst hv
  refine ⟨?_, ?_, ?_⟩
  · rw [held_append_singleton]
    rfl
  · rw [held_append_singleton]
    rfl
  · intro _
    exact ⟨rfl, .inl ⟨rfl, rfl, rfl⟩⟩

/-- An epoch taken up keeps what was received, and need not hold values of its own. -/
theorem Tells.reacquired {v v' : CryptoView} (htells : Tells v h)
    (hreceived : v'.receivedAlg = v.receivedAlg ∧ v'.receivedKey = v.receivedKey) :
    Tells v' { h with reacquired := true } where
  alg := hreceived.1.trans htells.alg
  key := hreceived.2.trans htells.key
  own := nofun

theorem Tells.perform {w : Slot} (htells : Tells w.record.cryptoView h) (op : Op) :
    Tells (perform w op).record.cryptoView (h.after w op) := by
  cases op with
  | observe observation boundary rx =>
    unfold CallState.perform after
    dsimp only
    rcases callStateObserve_cases w observation boundary rx _ rfl with
      ⟨-, -, hobserve⟩ | ⟨-, hobserve⟩ | ⟨-, -, hobserve⟩
    · simp only [hobserve]
      exact htells.reacquired ⟨rfl, rfl⟩
    · simp only [hobserve]
      exact Tells.start _ rfl
    · simp only [hobserve]
      exact htells
  | endEx observedM clock reason =>
    have hview := cryptoView_endEx w observedM clock reason
    exact hview ▸ htells
  | updateCrypto update includeEnded crcInvalid clock =>
    unfold CallState.perform after
    dsimp only
    rcases callStateUpdateCrypto_cases w update includeEnded crcInvalid clock with
      hcase | ⟨hdiffers, hcase⟩ | hcase
    · simp only [hcase, Bool.false_eq_true, if_false]
      exact htells
    · simp only [hcase, if_true]
      exact htells.unchanged hdiffers
    · simp only [hcase, if_true]
      exact htells.updated update crcInvalid clock
  | updateMedia mediaActive observedM clock =>
    have hview := cryptoView_updateMedia w mediaActive observedM clock
    exact hview ▸ htells
  | enrichText epoch sourceText targetText route0 route1 observedM clock =>
    have hview := cryptoView_enrichText w epoch sourceText targetText route0 route1 observedM clock
    exact hview ▸ htells
  | forgetCryptoValues =>
    unfold CallState.perform after callStateForgetCryptoValues
    dsimp only
    by_cases hactive : w.record.epoch ≠ 0 ∧ w.record.phase = .active
    · rw [if_pos hactive]
      split_ifs with hnothing
      · obtain ⟨ha, hk, hm, hc, hra, hrk, hr, -⟩ :=
          (hnothing.resolve_left hactive.1).resolve_left (not_not_intro hactive.2)
        refine Tells.forgotten ?_
        simp only [Record.cryptoView, ha, hk, hm, hc, hra, hrk, hr]
        rfl
      · exact Tells.forgotten rfl
    · rw [if_neg hactive, if_pos]
      · exact htells
      · rw [not_and_or, not_not] at hactive
        exact hactive.imp_right .inl
  | noteKeySelection epoch selection =>
    have hview := cryptoView_noteKeySelection w epoch selection
    exact hview ▸ htells
  | refreshReceive identity verdict label clock =>
    unfold CallState.perform after
    dsimp only
    rcases callStateRefreshReceive_cases w identity verdict label clock with
      ⟨-, hrefresh⟩ | ⟨-, -, hview⟩
    · rw [hrefresh, cryptoView_endEx]
      exact htells
    · rw [hview]
      exact htells

/-- The update is not both carried and received. -/
def Entry.Clean : Entry → Prop
  | .update u => u.carried = true → u.received = 0
  | .forget => True

theorem History.clean_after {w : Slot} (hclean : ∀ e ∈ h.entries, e.Clean) {op : Op}
    (hop : (Call.on op).Clean) : ∀ e ∈ (h.after w op).entries, e.Clean := by
  have hadd : ∀ entry : Entry, entry.Clean → ∀ e ∈ h.entries ++ [entry], e.Clean := by
    intro entry hentry e he
    rcases List.mem_append.mp he with he | he
    · exact hclean e he
    · rwa [List.mem_singleton.mp he]
  cases op with
  | observe observation boundary rx =>
    unfold after
    dsimp only
    split_ifs
    · exact hclean
    · intro e he
      cases he
    · exact hclean
  | updateCrypto update includeEnded crcInvalid clock =>
    unfold after
    dsimp only
    split_ifs
    · exact hadd _ hop
    · exact hclean
  | forgetCryptoValues =>
    unfold after
    dsimp only
    split_ifs
    · exact hadd _ trivial
    · exact hclean
  | endEx => exact hclean
  | updateMedia => exact hclean
  | enrichText => exact hclean
  | noteKeySelection => exact hclean
  | refreshReceive => exact hclean

/-- The record on the slot and every record saved are what their histories say, and no update
of a history is both carried and received. -/
def Process.Tells (p : Process) : Prop :=
  (CallState.Tells p.slot.record.cryptoView p.history ∧ ∀ e ∈ p.history.entries, e.Clean) ∧
    ∀ id record revision history, p.saved id = some (record, revision, history) →
      CallState.Tells record.cryptoView history ∧ ∀ e ∈ history.entries, e.Clean

/-- A context brought back holds the crypto it was saved with. -/
theorem callContextRestoreSnapshot_cryptoView (w : Slot) (record : Record) (revision : BitVec 64) :
    (callContextRestoreSnapshot w record revision).record.cryptoView = record.cryptoView := by
  unfold callContextRestoreSnapshot
  dsimp only
  split <;> rfl

/-- Every call keeps the records in step with their histories. -/
theorem Process.Tells.take {p : Process} (h : p.Tells) {call : Call} (hcall : call.Clean) :
    (p.take call).Tells := by
  obtain ⟨⟨htells, hclean⟩, hsaved⟩ := h
  cases call with
  | on op => exact ⟨⟨htells.perform op, clean_after hclean hcall⟩, hsaved⟩
  | save id =>
    refine ⟨⟨htells, hclean⟩, ?_⟩
    intro id' record revision history hget
    change Function.update p.saved id _ id' = _ at hget
    by_cases hid : id' = id
    · rw [hid, Function.update_self] at hget
      cases hget
      exact ⟨htells, hclean⟩
    · rw [Function.update_of_ne hid] at hget
      exact hsaved id' record revision history hget
  | contextRestore id =>
    unfold Process.take
    dsimp only
    split
    · exact ⟨⟨htells, hclean⟩, hsaved⟩
    · rename_i record revision history hget
      refine ⟨?_, hsaved⟩
      dsimp only
      rw [callContextRestoreSnapshot_cryptoView]
      exact hsaved id record revision history hget
  | restore id =>
    unfold Process.take
    dsimp only
    split
    · exact ⟨⟨htells, hclean⟩, hsaved⟩
    · rename_i record revision history hget
      exact ⟨hsaved id record revision history hget, hsaved⟩

/-- Every clean run keeps the records in step with their histories. -/
theorem tells_run {calls : List Call} (hclean : ∀ call ∈ calls, call.Clean) :
    (Process.run calls).Tells := by
  induction calls using List.reverseRecOn with
  | nil =>
    refine ⟨⟨Tells.start _ rfl, ?_⟩, ?_⟩
    · intro e he
      cases he
    · intro id record revision history hget
      cases hget
  | append_singleton calls call ih =>
    rw [Process.run, List.foldl_append]
    have hinit := ih fun c hc => hclean c (List.mem_append_left _ hc)
    exact hinit.take (hclean call (by simp))

/-- A field holds what the air carried: some update of the history received it, and nothing
since removed it; and the value is that of the last update that received it. -/
def CarriedByAir {α : Type} (bit : BitVec 8) (value : CryptoUpdate → α) (received : BitVec 8)
    (v : α) (entries : List Entry) : Prop :=
  (received &&& bit ≠ 0 ↔ Since (Entry.Receives bit) (fun e => ¬ e.Removes bit) entries) ∧
  (received &&& bit ≠ 0 →
    Since (Entry.Brings bit value v) (fun e => ¬ e.Receives bit ∧ ¬ e.Removes bit) entries)

theorem Entry.effect_spec (bit : BitVec 8) (value : CryptoUpdate → α) {e : Entry}
    (hclean : e.Clean) :
    ((∃ v, e.effect bit value = .receive v) ↔ e.Receives bit) ∧
    (e.effect bit value ≠ .withdraw ↔ ¬ e.Removes bit) ∧
    (∀ v, e.effect bit value = .receive v ↔ e.Brings bit value v) ∧
    (e.effect bit value = .keep ↔ ¬ e.Receives bit ∧ ¬ e.Removes bit) := by
  cases e with
  | forget => simp [Entry.effect, Entry.Receives, Entry.Removes, Entry.Brings]
  | update u =>
    simp only [Entry.effect, Entry.Receives, Entry.Removes, Entry.Brings]
    cases hcarried : u.carried with
    | true =>
      have hreceived : u.received = 0 := hclean hcarried
      simp [hreceived]
    | false =>
      by_cases hreceived : u.received &&& bit = 0#8
      · by_cases hcontradicted : u.contradicted &&& bit = 0#8
        · simp [hreceived, hcontradicted]
        · simp [hreceived, hcontradicted]
      · simp [hreceived]

theorem carriedByAir_of_held {bit received : BitVec 8} {value : CryptoUpdate → α} {v : α}
    {entries : List Entry} (hclean : ∀ e ∈ entries, e.Clean)
    (hheld : heldField bit received v = held (Entry.effect bit value) entries) :
    CarriedByAir bit value received v entries := by
  have hset : received &&& bit ≠ 0 ↔ (heldField bit received v).isSome := by
    unfold heldField
    by_cases hbit : received &&& bit ≠ 0
    · rw [if_pos hbit]
      exact iff_of_true hbit rfl
    · rw [if_neg hbit]
      exact iff_of_false hbit Bool.false_ne_true
  constructor
  · rw [hset, hheld, held_isSome_iff]
    apply since_congr
    · intro e he
      exact (Entry.effect_spec bit value (hclean e he)).1
    · intro e he
      exact (Entry.effect_spec bit value (hclean e he)).2.1
  · intro hbit
    have hvalue : held (Entry.effect bit value) entries = some v := by
      rw [← hheld, heldField, if_pos hbit]
    rw [held_eq_some_iff] at hvalue
    refine (since_congr ?_ ?_).mp hvalue
    · intro e he
      exact (Entry.effect_spec bit value (hclean e he)).2.2.1 v
    · intro e he
      exact (Entry.effect_spec bit value (hclean e he)).2.2.2

/-- In every clean run, the algorithm and the key received are what the air carried, and the
values of an epoch that took none up are zero or those of its last update of its own. -/
theorem crypto_received_is_carried_by_air {calls : List Call}
    (hclean : ∀ call ∈ calls, call.Clean) {r : Record} {h : History}
    (hrecord : (Process.run calls).slot.record = r) (hhistory : (Process.run calls).history = h) :
    CarriedByAir callCryptoRxAlg algid r.cryptoReceived r.receivedAlgid h.entries ∧
    CarriedByAir callCryptoRxKid kid r.cryptoReceived r.receivedKid h.entries ∧
    (h.reacquired = false → (r.algid = 0 ∧ r.kid = 0 ∧ r.mi = 0) ∨
      Since (Entry.Publishes r.algid r.kid r.mi) Entry.IsCarried h.entries) := by
  subst hrecord hhistory
  obtain ⟨⟨htells, hentries⟩, -⟩ := tells_run hclean
  refine ⟨carriedByAir_of_held hentries htells.alg, carriedByAir_of_held hentries htells.key, ?_⟩
  intro hown
  exact (htells.own hown).2

/-- An update that receives an algorithm. -/
def receivesAlg (algid : BitVec 8) : CryptoUpdate :=
  ⟨.encrypted, algid, 0, 0, false, 10, callCryptoRxAlg, 0, 0, false⟩

/-- A call receives an algorithm and ends, and then its values are to be forgotten. -/
def forgottenTooLate : List Call :=
  [.on (.observe (groupCall 100 9) .begin plainReception),
    .on (.updateCrypto (receivesAlg 0x24) false 0 10), .on (.endEx 11 11 .explicit),
    .on .forgetCryptoValues]

theorem clean_forgottenTooLate : ∀ call ∈ forgottenTooLate, call.Clean := by
  simp [forgottenTooLate, Call.Clean, receivesAlg]

/-- The value forgotten is still the one the air carried. -/
theorem crypto_received_is_carried_by_air_forgottenTooLate :
    CarriedByAir callCryptoRxAlg algid callCryptoRxAlg 0x24 [.update (receivesAlg 0x24)] :=
  (crypto_received_is_carried_by_air clean_forgottenTooLate rfl rfl).1

/-- The call made receives an algorithm. -/
def Call.ReceivesAlg : Call → Prop
  | .on (.updateCrypto update _ _ _) => update.received &&& callCryptoRxAlg ≠ 0
  | _ => False

/-- A call to forget the values of a call that has ended leaves them. -/
theorem ended_call_forgets_nothing :
    ¬ ∀ calls : List Call, (∀ call ∈ calls, call.Clean) →
      (Process.run calls).slot.record.cryptoReceived &&& callCryptoRxAlg ≠ 0 →
      Since Call.ReceivesAlg (· ≠ .on .forgetCryptoValues) calls := by
  intro hclaim
  have hsince := hclaim forgottenTooLate clean_forgottenTooLate (by decide)
  have hsplit : forgottenTooLate = forgottenTooLate.take 3 ++ [.on .forgetCryptoValues] := rfl
  rw [hsplit, since_append_singleton] at hsince
  rcases hsince with hreceives | ⟨hforgets, -⟩
  · exact hreceives
  · exact hforgets rfl

end DsdNeo.CallState
