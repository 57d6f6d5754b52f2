import DsdNeo.Models.ChannelScan.InForce
import DsdNeo.Models.ChannelScan.Machine
import DsdNeo.Models.Keys.Swap

/-!
# What is installed for a row

The committed row has its class and its options in the scope, over the configured settings as
they are, its keys in the ring, its talkgroups in the decoder and its key map in effect. Every
edit made beside the row keeps that.
-/

namespace DsdNeo.ChannelScan

open SignalSearch ScanScope Overlay
open Keys (KeySet Change)

/-- The keys in effect are those of a row, unless keys were typed over them; a row without keys
leaves the operator's. -/
def KeysOf (keys : Keys.State) (typed : Bool) (rowKeys : Option KeySet) : Prop :=
  match rowKeys.filter KeySet.present with
  | some set =>
    keys.activeSet = true ∧ keys.active = set ∧ (typed = false → keys.live = Keys.installed set)
  | none => keys.activeSet = false

/-- A row's class and options are in the scope. -/
def Scope.Holds (scope : Scope) (plan : Plan) (edits : ℕ → Option RowEdit) (row : ℕ) : Prop :=
  scope.mode = (plan.row row).mode ∧
    scope.options = (rowValues plan edits row).getD OptionValues.zero

/-- What the decoder has installed, of the committed row where there is one. -/
structure Fitted (plan : Plan) (s : State) (row : Option ℕ) (edits : ℕ → Option RowEdit) :
    Prop where
  scope : ∀ scope, s.scope = some scope →
    scope.suspended = false ∧ scope.InForce plan.power s.live
  options : ∀ r, row = some r → ∃ scope, s.scope = some scope ∧ scope.Holds plan edits r
  keys : ∀ r, row = some r → KeysOf s.keys s.typed (plan.row r).keys
  groups : ∃ d, Parks s.groups (s.world.slots decoder) d ∧ d.Settled ∧
    ∀ r, row = some r → d.row = (plan.row r).profile.bind RowProfile.groupStore
  maps : ∃ d, Shows s.maps s.liveMap d ∧ d.Settled ∧
    ∀ r, row = some r → d.row = (plan.row r).profile.bind RowProfile.keyMap

variable {plan : Plan} {s : State} {row : Option ℕ} {edits : ℕ → Option RowEdit}

/-- Only what is installed counts. -/
theorem Fitted.congr (h : Fitted plan s row edits) {s' : State} (hscope : s'.scope = s.scope)
    (hlive : s'.live = s.live) (hkeys : s'.keys = s.keys) (htyped : s'.typed = s.typed)
    (hgroups : s'.groups = s.groups) (hworld : s'.world = s.world) (hmaps : s'.maps = s.maps)
    (hmap : s'.liveMap = s.liveMap) : Fitted plan s' row edits := by
  constructor
  · rw [hscope, hlive]
    exact h.scope
  · rw [hscope]
    exact h.options
  · rw [hkeys, htyped]
    exact h.keys
  · rw [hgroups, hworld]
    exact h.groups
  · rw [hmaps, hmap]
    exact h.maps

theorem Fitted.withScope (h : Fitted plan s row edits) (scope : Option Scope) (live : ScanSettings)
    (hforce : ∀ sc, scope = some sc → sc.suspended = false ∧ sc.InForce plan.power live)
    (hholds : ∀ sc, s.scope = some sc → ∃ sc', scope = some sc' ∧ sc'.mode = sc.mode ∧
      sc'.options = sc.options) :
    Fitted plan { s with scope := scope, live := live } row edits := by
  refine ⟨hforce, fun r hr => ?_, h.keys, h.groups, h.maps⟩
  obtain ⟨sc, hsc, hmode, hoptions⟩ := h.options r hr
  obtain ⟨sc', hsc', hmode', hoptions'⟩ := hholds sc hsc
  exact ⟨sc', hsc', hmode'.trans hmode, hoptions'.trans hoptions⟩

/-- Other keys that are still those of the row. -/
theorem Fitted.withKeys (h : Fitted plan s row edits) {keys : Keys.State} {typed : Bool}
    (hkeys : ∀ rowKeys, KeysOf s.keys s.typed rowKeys → KeysOf keys typed rowKeys) :
    Fitted plan { s with keys := keys, typed := typed } row edits :=
  ⟨h.scope, h.options, fun r hr => hkeys _ (h.keys r hr), h.groups, h.maps⟩

theorem KeysOf.congr {keys keys' : Keys.State} {typed typed' : Bool} {rowKeys : Option KeySet}
    (h : KeysOf keys typed rowKeys) (hset : keys'.activeSet = keys.activeSet)
    (hactive : keys.activeSet = true → keys'.active = keys.active)
    (hlive : keys.activeSet = true → typed' = false →
      keys'.live = Keys.installed keys.active ∨ (typed = false ∧ keys'.live = keys.live)) :
    KeysOf keys' typed' rowKeys := by
  rw [KeysOf] at h ⊢
  cases hrow : rowKeys.filter KeySet.present with
  | none =>
    rw [hrow] at h
    exact hset.trans h
  | some set =>
    rw [hrow] at h
    obtain ⟨hon, hact, hring⟩ := h
    refine ⟨hset.trans hon, (hactive hon).trans hact, fun htyped => ?_⟩
    rcases hlive hon htyped with hinstalled | ⟨hbefore, hsame⟩
    · rw [hinstalled, hact]
    · exact hsame.trans (hring hbefore)

/-- A prepared change carries a row's keys. -/
def Carries (change : Change) (rowKeys : Option KeySet) : Prop :=
  change.prepared = true ∧
    match rowKeys.filter KeySet.present with
    | some set => change.keyed = true ∧ change.captureBaseline = true ∧ change.active = set
    | none => change.keyed = false

theorem carries_prepare (keys : Keys.State) (rowKeys : Option KeySet) (captures copies : Bool)
    (h : (Keys.scanKeyChangePrepare keys rowKeys captures copies).1 = true) :
    Carries (Keys.scanKeyChangePrepare keys rowKeys captures copies).2 rowKeys := by
  rw [Carries]
  rw [Keys.scanKeyChangePrepare] at h ⊢
  cases hrow : rowKeys.filter KeySet.present with
  | none => exact ⟨rfl, rfl⟩
  | some set =>
    rw [hrow] at h
    dsimp only at h ⊢
    cases hbase : if keys.activeSet then Keys.copy keys.baseline captures
      else Keys.capture keys.live captures with
    | none =>
      rw [hbase] at h
      cases h
    | some baseline =>
      rw [hbase] at h
      dsimp only at h ⊢
      cases hcopy : Keys.copy set copies with
      | none =>
        rw [hcopy] at h
        cases h
      | some active =>
        exact ⟨rfl, rfl, rfl, Keys.copy_eq_some hcopy⟩

theorem keysOf_commit (keys : Keys.State) {change : Change} {rowKeys : Option KeySet}
    (h : Carries change rowKeys) (epoch : BitVec 64) :
    KeysOf { (Keys.scanKeyChangeCommit keys change).2 with keyEpoch := epoch } false rowKeys := by
  obtain ⟨hprepared, hrow⟩ := h
  rw [KeysOf, Keys.scanKeyChangeCommit, if_neg (by rw [hprepared]; exact Bool.noConfusion)]
  cases hset : rowKeys.filter KeySet.present with
  | none =>
    rw [hset] at hrow
    have hkeyed : change.keyed = false := hrow
    rw [if_pos hkeyed]
    change (Keys.scanKeysLeave keys).activeSet = false
    rw [Keys.scanKeysLeave]
    split
    · exact ‹_›
    · rfl
  | some set =>
    rw [hset] at hrow
    obtain ⟨hkeyed, hbase, hactive⟩ : change.keyed = true ∧ change.captureBaseline = true ∧
      change.active = set := hrow
    rw [if_neg (by rw [hkeyed]; exact Bool.noConfusion), if_pos hbase]
    exact ⟨rfl, hactive, fun _ => congrArg Keys.installed hactive⟩

theorem Fitted.editKeyring (h : Fitted plan s row edits) (f : Keys.Keyring → Keys.Keyring)
    (captures succeeded : Bool) : Fitted plan (editKeyring f captures succeeded s) row edits := by
  refine h.withKeys fun rowKeys hk => ?_
  cases hon : s.keys.activeSet with
  | true =>
    have hsuspend : Keys.scanKeysSuspend s.keys = Keys.install s.keys s.keys.baseline := by
      rw [Keys.scanKeysSuspend, if_neg (by rw [hon]; exact Bool.noConfusion)]
    have hresume : ∀ t : Keys.State, t.activeSet = true →
        (Keys.scanKeysResume t captures).activeSet = true ∧
          (Keys.scanKeysResume t captures).active = t.active ∧
          (Keys.scanKeysResume t captures).live = Keys.installed t.active := by
      intro t ht
      rw [Keys.scanKeysResume, if_neg (by rw [ht]; exact Bool.noConfusion)]
      cases Keys.capture t.live captures with
      | none => exact ⟨ht, rfl, rfl⟩
      | some fresh => exact ⟨ht, rfl, rfl⟩
    have hr := hresume { Keys.install s.keys s.keys.baseline with
      live := f (Keys.install s.keys s.keys.baseline).live } hon
    rw [hsuspend]
    cases succeeded with
    | true => exact hk.congr (hr.1.trans hon.symm) (fun _ => hr.2.1) fun _ _ => .inl hr.2.2
    | false => exact hk.congr (hr.1.trans hon.symm) (fun _ => hr.2.1) fun _ _ => .inl hr.2.2
  | false =>
    have hsuspend : Keys.scanKeysSuspend s.keys = s.keys := by
      rw [Keys.scanKeysSuspend, if_pos hon]
    have hresume : ∀ t : Keys.State, t.activeSet = false →
        Keys.scanKeysResume t captures = t := by
      intro t ht
      rw [Keys.scanKeysResume, if_pos ht]
    rw [hsuspend, hresume { s.keys with live := f s.keys.live } hon]
    have hoff : ∀ {P : Prop}, s.keys.activeSet = true → P := by
      intro P hset
      rw [hon] at hset
      cases hset
    cases succeeded with
    | true => exact hk.congr rfl hoff hoff
    | false => exact hk.congr rfl hoff hoff

theorem Fitted.replaceKeys (h : Fitted plan s row edits) (set : KeySet) :
    Fitted plan (replaceKeys set s) row edits := by
  refine h.withKeys fun rowKeys hk => ?_
  cases hon : s.keys.activeSet with
  | true => exact hk.congr rfl (fun _ => rfl) fun _ htyped => .inr ⟨htyped, rfl⟩
  | false =>
    have hoff : ∀ {P : Prop}, s.keys.activeSet = true → P := by
      intro P hset
      rw [hon] at hset
      cases hset
    exact hk.congr rfl hoff hoff

theorem Fitted.applyKeyText (h : Fitted plan s row edits) (type : Keys.KeyType)
    (text : Option Text.Bytes) : Fitted plan (applyKeyText type text s) row edits := by
  have hdirect : (Keys.scanKeysApplyDirect s.keys type text).2.activeSet = s.keys.activeSet ∧
      (Keys.scanKeysApplyDirect s.keys type text).2.active = s.keys.active ∧
      (s.keys.activeSet = true →
        (Keys.scanKeysApplyDirect s.keys type text).2.live = s.keys.live) := by
    rw [Keys.scanKeysApplyDirect]
    split
    · rw [Keys.applyDirect]
      cases Keys.parseTypedDirect type text with
      | error e => exact ⟨rfl, rfl, fun _ => rfl⟩
      | ok parsed =>
        dsimp only
        cases Keys.overlaid s.keys.live.scalars parsed type with
        | error e => exact ⟨rfl, rfl, fun _ => rfl⟩
        | ok scalars =>
          refine ⟨rfl, rfl, fun hon => ?_⟩
          rw [‹s.keys.activeSet = false›] at hon
          cases hon
    · cases Keys.parseTypedDirect type text with
      | error e => exact ⟨rfl, rfl, fun _ => rfl⟩
      | ok parsed => exact ⟨rfl, rfl, fun _ => rfl⟩
  obtain ⟨hset, hactive, hlive⟩ := hdirect
  rw [ChannelScan.applyKeyText]
  generalize Keys.scanKeysApplyDirect s.keys type text = r at hset hactive hlive
  obtain ⟨result, keys⟩ := r
  cases result with
  | none =>
    exact h.withKeys fun rowKeys hk => hk.congr hset (fun _ => hactive)
      fun hon htyped => .inr ⟨htyped, hlive hon⟩
  | some e =>
    exact h.withKeys fun rowKeys hk => hk.congr hset (fun _ => hactive)
      fun hon htyped => .inr ⟨htyped, hlive hon⟩

theorem Fitted.typeKey (h : Fitted plan s row edits) (f : Keys.Keyring → Keys.Keyring) :
    Fitted plan (typeKey f s) row edits :=
  h.withKeys fun _ hk => hk.congr rfl (fun _ => rfl) fun _ htyped => by cases htyped

/-- The reference count elsewhere that a store in use always has. -/
def heldElsewhere (_ : ℕ) : ℕ := 1

theorem Fitted.editGroups (h : Fitted plan s row edits) {edit : TgPolicy.World → TgPolicy.World}
    (hedit : ∀ m w (d : Desk (Option ℕ) (Option ℕ)), Parks m (w.slots decoder) d → d.Editable →
      Parks m ((edit w).slots decoder) (d.edit fun _ => (edit w).slots decoder)) :
    Fitted plan (editGroups edit s) row edits := by
  refine ⟨h.scope, h.options, h.keys, ?_, h.maps⟩
  obtain ⟨d, hparks, hsettled, hrow⟩ := h.groups
  have hsuspended := (follows_suspend heldElsewhere hparks).parks
  have hedited := hedit _ _ _ hsuspended (Desk.editable_suspend hsettled)
  have hresumed := (follows_resume heldElsewhere hedited).parks
  obtain ⟨hs, hr⟩ := Desk.settled_suspend_resume hsettled
    fun _ => (edit (groupsSuspend s.groups s.world).2).slots decoder
  exact ⟨_, hresumed, hs, fun r hr' => hr.trans (hrow r hr')⟩

theorem Fitted.replaceMap (h : Fitted plan s row edits) (m : OperatorMap) :
    Fitted plan (replaceMap m s) row edits := by
  refine ⟨h.scope, h.options, fun r hr => ?_, h.groups, ?_⟩
  · exact (h.keys r hr).congr rfl (fun _ => rfl) fun _ htyped => .inr ⟨htyped, rfl⟩
  · obtain ⟨d, hshows, hsettled, hrow⟩ := h.maps
    have hsuspended := shows_suspend hshows
    have hedited := shows_edit hsuspended (Desk.editable_suspend hsettled) m
    have hresumed := shows_resume hedited
    obtain ⟨hs, hr⟩ := Desk.settled_suspend_resume hsettled fun _ => m
    exact ⟨_, hresumed, hs, fun r hr' => hr.trans (hrow r hr')⟩

theorem Fitted.configure (h : Fitted plan s row edits) (edit : ScanSettings → ScanSettings)
    (retime : Option ℤ) (sps : ℤ) : Fitted plan (configure plan edit retime sps s) row edits := by
  rw [ChannelScan.configure]
  cases hscope : s.scope with
  | none =>
    refine h.withScope none (edit s.live) (fun sc hsc => by cases hsc) fun sc hsc => ?_
    rw [hscope] at hsc
    cases hsc
  | some scope =>
    dsimp only
    have hsuspended : (scanModeSuspend scope s.live).1.suspended = true ∧
        (scanModeSuspend scope s.live).1.mode = scope.mode ∧
        (scanModeSuspend scope s.live).1.options = scope.options := by
      rw [scanModeSuspend]
      split
      · exact ⟨‹_›, rfl, rfl⟩
      · exact ⟨rfl, rfl, rfl⟩
    cases hsuspend : scanModeSuspend scope s.live with
    | mk scope' live =>
      rw [hsuspend] at hsuspended
      obtain ⟨hs, hmode, hoptions⟩ := hsuspended
      have hforce : (scanModeResume plan.power scope' (edit live) retime sps).1.InForce
          plan.power (scanModeResume plan.power scope' (edit live) retime sps).2 :=
        inForce_resume hs (edit live) retime sps
      have hresumed : (scanModeResume plan.power scope' (edit live) retime sps).1.suspended =
          false ∧
          (scanModeResume plan.power scope' (edit live) retime sps).1.mode = scope'.mode ∧
          (scanModeResume plan.power scope' (edit live) retime sps).1.options =
            scope'.options := by
        rw [scanModeResume, if_neg (by rw [hs]; exact Bool.noConfusion)]
        exact ⟨rfl, rfl, rfl⟩
      dsimp only
      generalize scanModeResume plan.power scope' (edit live) retime sps = r at hforce hresumed
      refine h.withScope (some r.1) r.2 (fun sc hsc => ?_) fun sc hsc => ?_
      · cases hsc
        exact ⟨hresumed.1, hforce⟩
      · rw [hscope] at hsc
        cases hsc
        exact ⟨_, rfl, hresumed.2.1.trans hmode, hresumed.2.2.trans hoptions⟩

theorem Fitted.setConfigured (h : Fitted plan s row edits) {store : ScanSettings → ScanSettings}
    {shadowed : OptionValues → Bool} (hstore : RowStore plan.power store shadowed) :
    Fitted plan { s with
      scope := (setConfigured s.scope s.live store shadowed).1
      live := (setConfigured s.scope s.live store shadowed).2 } row edits := by
  unfold ChannelScan.setConfigured
  cases hscope : s.scope with
  | none =>
    refine h.withScope none (store s.live) (fun sc hsc => by cases hsc) fun sc hsc => ?_
    rw [hscope] at hsc
    cases hsc
  | some scope =>
    obtain ⟨hsuspended, hforce⟩ := h.scope scope hscope
    simp only [hsuspended, Bool.false_eq_true, if_false]
    refine h.withScope _ _ (fun sc hsc => ?_) fun sc hsc => ?_
    · cases hsc
      exact ⟨rfl, inForce_setConfigured hstore hforce⟩
    · rw [hscope] at hsc
      cases hsc
      exact ⟨_, rfl, rfl, rfl⟩

end DsdNeo.ChannelScan
