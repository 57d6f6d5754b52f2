import DsdNeo.Models.Scan.Groups
import DsdNeo.Models.Scan.Maps

/-!
# The operator's talkgroups and key map over a whole scan

Rows with and without a group list or a key map come and go, both scopes are suspended
and resumed in any order, and the operator edits what shows. Leaving gives back what the
operator last left, unless a row was entered while its scope was suspended: the row
then shows in the place of the operator's, and a leave does not put it right.
-/

namespace DsdNeo.ScanScope

open DsdNeo.TgPolicy DsdNeo.Overlay

/-- What a row profile says of groups and key map: an option present, with its value. -/
structure Profile where
  groups : Option (Option ℕ)
  dmrMap : Option DmrKeyMap

/-- The decoder's store and map, with both scopes. -/
structure State where
  world : World
  groups : GroupScope
  live : LiveMap
  maps : MapScope

/-- One step of a scan. -/
inductive Op where
  | groupsEnter (profile : Option Profile)
  | groupsLeave
  | groupsSuspend
  | groupsResume
  | mapsEnter (profile : Option Profile)
  | mapsLeave
  | mapsSuspend
  | mapsResume
  | editStore (f : Store → Store)
  | replaceStore (store : Option Store)
  | editMap (m : OperatorMap)

/-- A state after a call on the group scope. -/
def State.withGroups (s : State) (r : GroupScope × World) : State :=
  { s with groups := r.1, world := r.2 }

/-- A state after a call on the map scope. -/
def State.withMaps (s : State) (r : MapScope × LiveMap) : State :=
  { s with maps := r.1, live := r.2 }

/-- The state after a step. -/
def perform (s : State) : Op → State
  | .groupsEnter profile =>
    s.withGroups (groupsEnter s.groups (profile.bind Profile.groups) s.world)
  | .groupsLeave => s.withGroups (groupsLeave s.groups s.world)
  | .groupsSuspend => s.withGroups (groupsSuspend s.groups s.world)
  | .groupsResume => s.withGroups (groupsResume s.groups s.world)
  | .mapsEnter profile => s.withMaps (mapsEnter s.maps s.live (profile.bind Profile.dmrMap)).2
  | .mapsLeave => s.withMaps (mapsLeave s.maps s.live)
  | .mapsSuspend => s.withMaps (mapsSuspend s.maps s.live)
  | .mapsResume => s.withMaps (mapsResume s.maps s.live)
  | .editStore f => { s with world := editStore f s.world }
  | .replaceStore store => { s with world := replaceStore store s.world }
  | .editMap m => { s with live := editMap m }

/-- What the operator last left: the store, what all stores keep, and the key map. -/
structure Left where
  store : Option ℕ
  contents : List Store
  map : DmrKeyMap

/-- What a state shows. -/
def State.shown (s : State) : Left := ⟨s.world.slots decoder, contents s.world, s.live.map⟩

/-- An edit is what the operator last left; nothing else is. -/
def Left.note (l : Left) (after : State) : Op → Left
  | .editStore _ => { l with store := after.shown.store, contents := after.shown.contents }
  | .replaceStore _ => { l with store := after.shown.store, contents := after.shown.contents }
  | .editMap _ => { l with map := after.shown.map }
  | _ => l

/-- A run, with what the operator last left. -/
def run (s : State) (l : Left) : List Op → State × Left
  | [] => (s, l)
  | op :: ops => run (perform s op) (l.note (perform s op) op) ops

/-- Whether the operator's store, or key map, shows. -/
def Op.editsShown (s : State) : Op → Prop
  | .editStore _ => s.groups.active = true → s.groups.suspended = true
  | .replaceStore _ => s.groups.active = true → s.groups.suspended = true
  | .editMap _ => s.maps.active = true → s.maps.suspended = true
  | _ => True

/-- A profile holds the store it has. -/
def Op.profileHolds (rest : ℕ → ℕ) : Op → Prop
  | .groupsEnter profile => ∀ a, profile.bind Profile.groups = some (some a) → rest a ≠ 0
  | _ => True

/-- Steps of a scan: the operator edits what shows, and profiles hold their stores. -/
def Usable (rest : ℕ → ℕ) (s : State) : List Op → Prop
  | [] => True
  | op :: ops => op.editsShown s ∧ op.profileHolds rest ∧ Usable rest (perform s op) ops

/-- A step that enters no row where its scope is suspended. -/
def Op.entersResumed (s : State) : Op → Prop
  | .groupsEnter profile => (profile.bind Profile.groups).isSome → s.groups.suspended = false
  | .mapsEnter profile =>
    ∀ row, profile.bind Profile.dmrMap = some row → mapValid row = true → s.maps.suspended = false
  | _ => True

/-- No row enters while its scope is suspended. -/
def EntersResumed (s : State) : List Op → Prop
  | [] => True
  | op :: ops => op.entersResumed s ∧ EntersResumed (perform s op) ops

/-- A state in step with two desks whose kept values the operator last left. -/
structure InStep (rest : ℕ → ℕ) (s : State) (l : Left) : Prop where
  store : ∃ d, Parks s.groups (s.world.slots decoder) d ∧ d.leave.own = l.store
  map : ∃ d, Shows s.maps s.live d ∧ d.leave.own.map = l.map
  contents : contents s.world = l.contents
  tally : Tallied s.world (holders rest s.world s.groups)

theorem Parks.editable {m : GroupScope} {slot : Option ℕ} {d : Desk (Option ℕ) (Option ℕ)}
    (h : Parks m slot d) (hshown : m.active = true → m.suspended = true) : d.Editable := by
  cases d with
  | covered own row =>
    rw [h.1] at hshown
    cases hshown rfl
  | _ => trivial

theorem Parks.settled {m : GroupScope} {slot : Option ℕ} {d : Desk (Option ℕ) (Option ℕ)}
    (h : Parks m slot d) (hresumed : m.suspended = false) : d.Settled := by
  cases d with
  | aside own row draft =>
    rw [h.1] at hresumed
    cases hresumed
  | _ => trivial

theorem Shows.editable {m : MapScope} {live : LiveMap} {d : Desk OperatorMap DmrKeyMap}
    (h : Shows m live d) (hshown : m.active = true → m.suspended = true) : d.Editable := by
  cases d with
  | covered own row =>
    have hsuspended := hshown h.1
    rw [h.2.1] at hsuspended
    cases hsuspended
  | _ => trivial

theorem Shows.settled {m : MapScope} {live : LiveMap} {d : Desk OperatorMap DmrKeyMap}
    (h : Shows m live d) (hresumed : m.suspended = false) : d.Settled := by
  cases d with
  | aside own row draft =>
    have hsuspended := h.2.1
    rw [hresumed] at hsuspended
    cases hsuspended
  | _ => trivial

section Steps

variable {rest : ℕ → ℕ} {s : State} {l : Left}

theorem InStep.withGroups (h : InStep rest s l) {r : GroupScope × World}
    (hr : ∀ d, Parks s.groups (s.world.slots decoder) d →
      ∃ d', Follows rest s.groups s.world r d' ∧ d'.leave.own = d.leave.own) :
    InStep rest (s.withGroups r) l := by
  obtain ⟨d, hparks, hown⟩ := h.store
  obtain ⟨d', hfollows, hkept⟩ := hr d hparks
  exact ⟨⟨d', hfollows.parks, hkept.trans hown⟩, h.map, hfollows.contents.trans h.contents,
    hfollows.tally h.tally⟩

theorem InStep.withMaps (h : InStep rest s l) {r : MapScope × LiveMap}
    (hr : ∀ d, Shows s.maps s.live d →
      ∃ d' : Desk OperatorMap DmrKeyMap, Shows r.1 r.2 d' ∧ d'.leave.own = d.leave.own) :
    InStep rest (s.withMaps r) l := by
  obtain ⟨d, hshows, hown⟩ := h.map
  obtain ⟨d', hshows', hkept⟩ := hr d hshows
  exact ⟨h.store, ⟨d', hshows', (congrArg OperatorMap.map hkept).trans hown⟩, h.contents, h.tally⟩

theorem InStep.editGroups (h : InStep rest s l) {w' : World}
    (hr : ∀ d, Parks s.groups (s.world.slots decoder) d →
      Edits rest s.groups s.world w' d ∧ d.Editable) :
    InStep rest { s with world := w' }
      { l with store := w'.slots decoder, contents := ScanScope.contents w' } := by
  obtain ⟨d, hparks, -⟩ := h.store
  obtain ⟨hedits, heditable⟩ := hr d hparks
  exact ⟨⟨_, hedits.parks, Desk.own_leave_edit heditable _⟩, h.map, rfl, hedits.tally h.tally⟩

theorem InStep.perform (h : InStep rest s l) {op : Op} (hedits : op.editsShown s)
    (hprofile : op.profileHolds rest) (henters : op.entersResumed s) :
    InStep rest (perform s op) (l.note (perform s op) op) := by
  cases op with
  | groupsEnter profile =>
    refine h.withGroups fun d hparks => ?_
    cases hgroups : profile.bind Profile.groups with
    | none => exact ⟨d.leave, follows_leave rest hparks, d.own_leave_leave⟩
    | some store =>
      have hsettled := hparks.settled (henters (by rw [hgroups]; rfl))
      refine ⟨d.enter store, follows_enter rest hparks hsettled fun a ha => ?_,
        d.own_leave_enter store⟩
      exact hprofile a (by rw [hgroups, ha])
  | groupsLeave =>
    exact h.withGroups fun d hparks => ⟨d.leave, follows_leave rest hparks, d.own_leave_leave⟩
  | groupsSuspend =>
    exact h.withGroups fun d hparks =>
      ⟨d.suspend, follows_suspend rest hparks, d.own_leave_suspend⟩
  | groupsResume =>
    exact h.withGroups fun d hparks =>
      ⟨d.resume true, follows_resume rest hparks, d.own_leave_resume⟩
  | mapsEnter profile =>
    refine h.withMaps fun d hshows => ?_
    cases hmap : profile.bind Profile.dmrMap with
    | none => exact ⟨d.leave, shows_leave hshows, d.own_leave_leave⟩
    | some row =>
      cases hvalid : mapValid row with
      | false =>
        rw [mapsEnter_of_not_valid _ _ hvalid]
        exact ⟨d, hshows, rfl⟩
      | true =>
        have hsettled := hshows.settled (henters row hmap hvalid)
        exact ⟨d.enter row, shows_enter hshows hsettled hvalid, d.own_leave_enter row⟩
  | mapsLeave =>
    exact h.withMaps fun d hshows => ⟨d.leave, shows_leave hshows, d.own_leave_leave⟩
  | mapsSuspend =>
    exact h.withMaps fun d hshows => ⟨d.suspend, shows_suspend hshows, d.own_leave_suspend⟩
  | mapsResume =>
    exact h.withMaps fun d hshows => ⟨d.resume true, shows_resume hshows, d.own_leave_resume⟩
  | editStore f =>
    refine h.editGroups fun d hparks => ?_
    have heditable := hparks.editable hedits
    exact ⟨edits_editStore rest hparks heditable f, heditable⟩
  | replaceStore store =>
    refine h.editGroups fun d hparks => ?_
    have heditable := hparks.editable hedits
    exact ⟨edits_replaceStore rest hparks heditable store, heditable⟩
  | editMap m =>
    obtain ⟨d, hshows, -⟩ := h.map
    have heditable := hshows.editable hedits
    refine ⟨h.store, ⟨_, shows_edit hshows heditable m, ?_⟩, h.contents, h.tally⟩
    exact congrArg OperatorMap.map (Desk.own_leave_edit heditable m)

theorem InStep.run {ops : List Op} (h : InStep rest s l) (husable : Usable rest s ops)
    (hresumed : EntersResumed s ops) : InStep rest (run s l ops).1 (run s l ops).2 := by
  induction ops generalizing s l with
  | nil => exact h
  | cons op ops ih => exact ih (h.perform husable.1 husable.2.1 hresumed.1) husable.2.2 hresumed.2

end Steps

/-- No row, the operator's store and map, and every store counted. -/
structure Idle (rest : ℕ → ℕ) (s : State) : Prop where
  groups : s.groups = GroupScope.idle
  maps : s.maps = MapScope.idle
  map : ∃ m : OperatorMap, s.live.map = m.map
  tally : Tallied s.world (holders rest s.world s.groups)

theorem Idle.inStep {rest : ℕ → ℕ} {s : State} (h : Idle rest s) : InStep rest s s.shown := by
  obtain ⟨m, hm⟩ := h.map
  refine ⟨⟨.bare (s.world.slots decoder), ⟨h.groups, rfl⟩, rfl⟩, ⟨.bare m, ?_, hm.symm⟩, rfl,
    h.tally⟩
  rw [h.maps]
  exact ⟨rfl, rfl, hm⟩

/-- What both scopes left show. -/
def State.left (s : State) : State := perform (perform s .groupsLeave) .mapsLeave

/-- Where no row enters while its scope is suspended, leaving gives back the operator's store
and key map as last edited, and every store counts its holders throughout. -/
theorem scan_keeps_operator_groups {rest : ℕ → ℕ} {s : State} (h : Idle rest s) (ops : List Op)
    (husable : Usable rest s ops) (hresumed : EntersResumed s ops) :
    (run s s.shown ops).1.left.shown = (run s s.shown ops).2 ∧
      Tallied (run s s.shown ops).1.world
        (holders rest (run s s.shown ops).1.world (run s s.shown ops).1.groups) := by
  have hend := h.inStep.run husable hresumed
  refine ⟨?_, hend.tally⟩
  obtain ⟨d, hparks, hown⟩ := hend.store
  obtain ⟨e, hshows, hmap⟩ := hend.map
  have hgroups := follows_leave rest hparks
  have hmaps := shows_leave hshows
  have hslot : (groupsLeave (run s s.shown ops).1.groups (run s s.shown ops).1.world).2.slots
      decoder = d.leave.own := by
    have hleft := hgroups.parks
    cases d <;> exact hleft.2
  have hlive : (mapsLeave (run s s.shown ops).1.maps (run s s.shown ops).1.live).2.map =
      e.leave.own.map := by
    cases e <;> exact hmaps.2.2
  generalize (run s s.shown ops).2 = l at *
  cases l
  simp only [State.left, State.shown, perform, State.withGroups, State.withMaps, Left.mk.injEq]
  exact ⟨hslot.trans hown, hgroups.contents.trans hend.contents, hlive.trans hmap⟩

/-- An operator's store and a row's, each held once. -/
def startWorld : World where
  heap := [Store.fresh 1, Store.fresh 2]
  nextContextId := 3
  slots := fun s => if s = decoder then some 0 else none
  handles := []
  tape := []

/-- Nothing but the profile of the row holds a store beside the decoder. -/
def profileRefs (a : ℕ) : ℕ := if a = 1 then 1 else 0

/-- A profile with a group list. -/
def groupProfile : Profile := ⟨some (some 1), none⟩

/-- No row, and an empty key map. -/
def startState : State where
  world := startWorld
  groups := GroupScope.idle
  live := ⟨DmrKeyMap.zero, Vector.replicate 2 0, Vector.replicate 2 0⟩
  maps := MapScope.idle

theorem trimmed_zero : trimmed DmrKeyMap.zero = DmrKeyMap.zero := by
  rw [trimmed, DmrKeyMap.zero, DmrKeyMap.mk.injEq]
  refine ⟨rfl, ?_, ?_⟩ <;> ext i hi <;> simp

theorem idle_startState : Idle profileRefs startState where
  groups := rfl
  maps := rfl
  map := ⟨⟨DmrKeyMap.zero, by decide, trimmed_zero⟩, rfl⟩
  tally a := by
    match a with
    | 0 => rfl
    | 1 => rfl
    | a + 2 => simp [startState, startWorld, holders, holds, profileRefs, GroupScope.idle]

theorem groupProfile_held (a : ℕ) (h : (some groupProfile).bind Profile.groups = some (some a)) :
    profileRefs a ≠ 0 := by
  cases h
  decide

/-- The operator's store is edited beside a row, and shows after it. -/
theorem scan_keeps_operator_groups_edit :
    (run startState startState.shown
      [.groupsEnter (some groupProfile), .groupsSuspend, .editStore id,
        .groupsResume]).1.left.shown =
    (run startState startState.shown
      [.groupsEnter (some groupProfile), .groupsSuspend, .editStore id, .groupsResume]).2 :=
  (scan_keeps_operator_groups idle_startState
    [.groupsEnter (some groupProfile), .groupsSuspend, .editStore id, .groupsResume]
    ⟨trivial, groupProfile_held, trivial, trivial, fun _ => rfl, trivial, trivial, trivial, trivial⟩
    ⟨fun _ => rfl, trivial, trivial, trivial, trivial⟩).1

/-- A row entered while its scope is suspended shows after the leave. -/
theorem enter_suspended_loses_groups :
    ¬ ∀ (rest : ℕ → ℕ) (s : State) (ops : List Op), Idle rest s → Usable rest s ops →
      (run s s.shown ops).1.left.shown = (run s s.shown ops).2 ∧
        Tallied (run s s.shown ops).1.world
          (holders rest (run s s.shown ops).1.world (run s s.shown ops).1.groups) := by
  intro h
  have hshown := (h profileRefs startState
    [.groupsEnter (some groupProfile), .groupsSuspend, .groupsEnter (some groupProfile)]
    idle_startState ⟨trivial, groupProfile_held, trivial, trivial, trivial, groupProfile_held,
      trivial⟩).1
  have hstore := congrArg Left.store hshown
  revert hstore
  decide

end DsdNeo.ScanScope
