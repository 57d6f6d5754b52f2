import DsdNeo.Core.Cache.Carousel

/-!
# The receive policy and what a trunking machine remembers of it

Filters by slot, colour code, RAN and NAC: what an identity meets under them, and the memory of
the code last verified on each voice channel.
-/

namespace DsdNeo.Receive

/-- The kinds there is a filter for. -/
inductive FilterKind where
  | slot
  | dcc
  | ran
  | nac
  deriving DecidableEq

/-- `dsd_receive_kind`. -/
inductive Kind where
  | filter (kind : FilterKind)
  | ctcss
  | dcs
  | none
  deriving DecidableEq

/-- `dsd_receive_verdict`. -/
inductive Verdict where
  | off
  | checking
  | allowed
  | rejected
  deriving DecidableEq

/-- `dsd_receive_set`. -/
abbrev ReceiveSet := BitVec 4096

/-- `dsd_receive_set_contains`. -/
def ReceiveSet.contains (set : ReceiveSet) (value : ℕ) : Bool := set.getLsbD value

/-- `dsd_receive_filter`. -/
structure Filter where
  allow : ReceiveSet
  block : ReceiveSet
  enabled : Bool
  deriving DecidableEq

/-- The filters of `dsd_receive_policy`. -/
abbrev Policy := FilterKind → Filter

/-- `dsd_receive_identity`, a slot being 1 or 2 and 0 where there is none. -/
structure Identity where
  value : BitVec 16
  kind : Kind
  known : Bool
  slot : BitVec 8
  slotPending : Bool

/-- `receive_filter_match`. -/
def filterMatch (filter : Filter) (known : Bool) (value : ℕ) : Verdict :=
  if filter.enabled = false then .off
  else if known = false then .checking
  else if filter.block.contains value = true ∨
      (filter.allow ≠ 0 ∧ filter.allow.contains value = false) then .rejected
  else .allowed

/-- The filter a code of an identity meets. -/
def Kind.codeFilter : Kind → Option FilterKind
  | .filter .slot => Option.none
  | .filter kind => some kind
  | _ => Option.none

/-- `dsd_receive_policy_match`. -/
def policyMatch (policy : Policy) (identity : Identity) : Verdict :=
  let slot :=
    if identity.slot ≠ 0 then filterMatch (policy .slot) true identity.slot.toNat
    else if identity.slotPending then filterMatch (policy .slot) false 0
    else .off
  let code :=
    match identity.kind.codeFilter with
    | some kind => filterMatch (policy kind) identity.known identity.value.toNat
    | none => .off
  if slot = .rejected ∨ code = .rejected then .rejected
  else if code = .checking ∨ slot = .checking then .checking
  else if slot = .allowed ∨ code = .allowed then .allowed
  else .off

/-- `dsd_receive_policy_filters_enabled`. -/
def Policy.filtersEnabled (policy : Policy) : Bool :=
  [FilterKind.slot, .dcc, .ran, .nac].any fun kind => (policy kind).enabled

/-- `dsd_receive_allows`, of the identity that is current. -/
def Policy.allows (policy : Policy) (identity : Identity) : Bool :=
  if policy.filtersEnabled = false then true
  else policyMatch policy identity = .off || policyMatch policy identity = .allowed

/-- `dsd_receive_grant_allows`, for a protocol of two slots: a slot, or either. -/
def Policy.grantAllows (policy : Policy) (slot : Option Bool) : Bool :=
  let one := fun second : Bool =>
    policyMatch policy ⟨0, .none, false, if second then 2 else 1, false⟩ ≠ .rejected
  match slot with
  | some second => one second
  | none => one false || one true

/-- `dsd_receive_carriers`. -/
abbrev Carriers := Carousel 16 ℤ (FilterKind × BitVec 16)

/-- The code `dsd_receive_carriers_note` keeps, of the identity that is current. -/
def carrierCode (identity : Identity) (freqHz : ℤ) : Option (FilterKind × BitVec 16) :=
  if freqHz ≤ 0 ∨ identity.known = false then none
  else identity.kind.codeFilter.map fun kind => (kind, identity.value)

/-- The identity a remembered code is judged as, without a slot. -/
def rememberedIdentity (code : FilterKind × BitVec 16) : Identity :=
  ⟨code.2, .filter code.1, true, 0, false⟩

/-- `dsd_receive_carriers_rejects`. -/
def carriersReject (carriers : Carriers) (policy : Policy) (freqHz : ℤ) : Bool :=
  if freqHz ≤ 0 then false
  else
    match carriers.lookup freqHz with
    | none => false
    | some code => policyMatch policy (rememberedIdentity code) = .rejected

end DsdNeo.Receive
