import OpenFiat.SnapshotIndex
import OpenFiat.RecordStores
import Mathlib.Data.List.DropRight
import Mathlib.Data.String.Basic

/-!
# The service registry

A provider registers a service under an id, reports its health and withdraws it, each time with a
signed payload that anybody may deliver. A registration carries the provider's key; the other
payloads are checked against the key on file. The registry remembers nothing of a service that
was withdrawn, and a sweep deletes the services whose last sign of life is too old.
-/
namespace OpenFiat.ServiceRegistry
open GuardedResult NodePayloads RecordStores
open SnapshotIndex (ServiceType)

structure ServiceId where
  id : String
deriving DecidableEq, Repr

inductive HealthState where
  | online
  | maintenance
  | degraded
  | offline
deriving DecidableEq, Repr

inductive BillingUnit where
  | request
  | trade
  | month
deriving DecidableEq, Repr

structure ServicePricing where
  tokenMint : String
  amount : Amount
  unit : BillingUnit
deriving DecidableEq, Repr

structure ServiceBranding where
  name : Option String
  description : Option String
  logo : Option String
  website : Option String
deriving DecidableEq, Repr

structure Registration where
  serviceId : ServiceId
  serviceType : ServiceType
  provider : PeerId
  providerPublicKey : PublicKey
  endpoints : List String
  supportedOfs : List UInt16
  region : Option String
  capabilities : List String
  branding : Option ServiceBranding
  pricing : Option ServicePricing
  payoutWallet : Option String
  timestamp : Timestamp
deriving DecidableEq

structure HealthUpdate where
  serviceId : ServiceId
  provider : PeerId
  state : HealthState
  timestamp : Timestamp
deriving DecidableEq

structure Withdrawal where
  serviceId : ServiceId
  provider : PeerId
  timestamp : Timestamp
deriving DecidableEq

structure ServiceRecord where
  serviceId : ServiceId
  serviceType : ServiceType
  provider : PeerId
  providerPublicKey : PublicKey
  endpoints : List String
  supportedOfs : List UInt16
  region : Option String
  capabilities : List String
  branding : Option ServiceBranding
  pricing : Option ServicePricing
  payoutWallet : Option String
  health : HealthState
  registeredAt : Timestamp
  lastHealthUpdate : Timestamp
deriving DecidableEq

inductive ServiceStatement where
  | registration (registration : Registration)
  | healthUpdate (update : HealthUpdate)
  | withdrawal (withdrawal : Withdrawal)
deriving DecidableEq

inductive RegistryError where
  | invalidSignature
  | unauthorizedUpdate
  | duplicateServiceId
  | malformedRegistration
  | serviceNotFound
  | pricingWithoutPayoutWallet
  | unresolvableEndpoint
  | malformedBranding
deriving DecidableEq, Repr

structure ServicePlatform extends SignatureScheme ServiceStatement where
  /-- Whether a string parses as a content id. -/
  isCid : String → Bool

def unresolvableSuffixes : List String := [".test", ".invalid", ".example"]

/-- The text before the first occurrence of a separator, and the text after it. -/
def breakAt (separator : List Char) : List Char → Option (List Char × List Char)
  | [] => none
  | c :: rest =>
    if separator.isPrefixOf (c :: rest) then some ([], (c :: rest).drop separator.length)
    else (breakAt separator rest).map fun parts => (c :: parts.1, parts.2)

/-- The second of the parts between the occurrences of the separator, if there are two. -/
def secondPart (separator text : List Char) : Option (List Char) :=
  (breakAt separator text).map fun parts =>
    ((breakAt separator parts.2).map Prod.fst).getD parts.2

/-- The host that an endpoint names: without scheme, path, credentials, port and final dots. -/
def hostOf (endpoint : List Char) : List Char :=
  let afterScheme := (secondPart "://".toList endpoint).getD endpoint
  let authority := afterScheme.takeWhile fun c => c ∉ ['/', '?', '#']
  let host := authority.rtakeWhile (· ≠ '@')
  (host.takeWhile (· ≠ ':')).rdropWhile (· = '.')

/-- Whether an endpoint names a host that can never be reached. -/
def isUnresolvable (endpoint : String) : Bool :=
  let host := (hostOf endpoint.toList).map Char.toLower
  unresolvableSuffixes.any fun suffix => suffix.toList.isSuffixOf host

def maxNameChars : ℕ := 64

def maxDescriptionChars : ℕ := 280

def maxWebsiteChars : ℕ := 256

/-- Control characters and the marks that turn the direction of a text. -/
def isDisplayHostile (c : Char) : Bool :=
  c.toNat < 0x20 || (0x7f ≤ c.toNat && c.toNat < 0xa0) || c.toNat = 0x200e || c.toNat = 0x200f ||
    (0x202a ≤ c.toNat && c.toNat ≤ 0x202e) || (0x2066 ≤ c.toNat && c.toNat ≤ 0x2069)

def checkText (value : Option String) (maxChars : ℕ) : Except RegistryError Unit :=
  match value with
  | none => return ()
  | some value => do
    require (¬ (value.toList = [] ∨ maxChars < value.toList.length)) .malformedBranding
    require (value.toList.any isDisplayHostile = false) .malformedBranding

def checkWebsite (value : Option String) : Except RegistryError Unit :=
  match value with
  | none => return ()
  | some value => do
    checkText (some value) maxWebsiteChars
    let lower := value.toList.map Char.toLower
    require ("https://".toList.isPrefixOf lower = true ∨ "http://".toList.isPrefixOf lower = true)
      .malformedBranding
    require (isUnresolvable value = false) .malformedBranding

def ServiceBranding.validate (P : ServicePlatform) (branding : ServiceBranding) :
    Except RegistryError Unit := do
  checkText branding.name maxNameChars
  checkText branding.description maxDescriptionChars
  checkWebsite branding.website
  require (branding.logo.all P.isCid = true) .malformedBranding

def ServiceBranding.isEmpty (branding : ServiceBranding) : Bool :=
  branding.name.isNone && branding.description.isNone && branding.logo.isNone &&
    branding.website.isNone

def validateBranding (P : ServicePlatform) :
    Option ServiceBranding → Except RegistryError Unit
  | none => return ()
  | some branding => branding.validate P

def verifyRegistration (P : ServicePlatform) (signed : Signed Registration) :
    Except RegistryError Unit := do
  let registration := signed.payload
  require (¬ (registration.pricing.isSome ∧ registration.payoutWallet.isNone))
    .pricingWithoutPayoutWallet
  validateBranding P registration.branding
  require (registration.endpoints.any isUnresolvable = false) .unresolvableEndpoint
  P.verifyAuthor registration.providerPublicKey registration.provider (.registration registration)
    signed.signature .unauthorizedUpdate .invalidSignature

def intoRecord (registration : Registration) : ServiceRecord where
  __ := registration
  branding := registration.branding.filter fun branding => !branding.isEmpty
  health := .online
  registeredAt := registration.timestamp
  lastHealthUpdate := registration.timestamp

abbrev Registry := RecordStore ServiceRecord.serviceId

theorem serviceId_injective : Function.Injective ServiceId.id := by
  rintro ⟨_⟩ ⟨_⟩ h
  exact congrArg _ h

def all (r : Registry) : List ServiceRecord := r.all ServiceId.id serviceId_injective

section Handlers
variable (P : ServicePlatform)

def applyRegistration (r : Registry) (signed : Signed Registration) :
    Except RegistryError Registry := do
  verifyRegistration P signed
  require ((r.get signed.payload.serviceId).all (·.provider = signed.payload.provider) = true)
    .duplicateServiceId
  return r.put (intoRecord signed.payload)

/-- The checks against the provider on file. -/
def authorize (r : Registry) (id : ServiceId) (provider : PeerId)
    (statement : ServiceStatement) (signature : Signature) :
    Except RegistryError ServiceRecord := do
  let record ← load (r.get id) .serviceNotFound
  require (record.provider = provider) .unauthorizedUpdate
  require (P.verify record.providerPublicKey statement signature = true) .invalidSignature
  return record

def applyHealthUpdate (r : Registry) (signed : Signed HealthUpdate) :
    Except RegistryError Registry := do
  let update := signed.payload
  let record ← authorize P r update.serviceId update.provider (.healthUpdate update)
    signed.signature
  return r.put { record with health := update.state, lastHealthUpdate := update.timestamp }

def applyWithdrawal (r : Registry) (signed : Signed Withdrawal) :
    Except RegistryError Registry := do
  let withdrawal := signed.payload
  let _ ← authorize P r withdrawal.serviceId withdrawal.provider (.withdrawal withdrawal)
    signed.signature
  return r.erase withdrawal.serviceId

/-- The time before which the last sign of life counts as stale; the threshold is a word. -/
def cutoff (now : Timestamp) (threshold : ℕ) : Timestamp := now - threshold % 2 ^ 64

/-- One sweep, with the number of services that it deleted. -/
def expireStale (now : Timestamp) (threshold : ℕ) (r : Registry) : Registry × ℕ :=
  r.prune ServiceId.id serviceId_injective fun record =>
    record.lastHealthUpdate < cutoff now threshold

inductive Action where
  | registered (signed : Signed Registration)
  | updated (signed : Signed HealthUpdate)
  | unregistered (signed : Signed Withdrawal)
  | expireStale (threshold : ℕ)

structure Delivery where
  time : Timestamp
  action : Action

def step (r : Registry) (d : Delivery) : Except RegistryError Registry :=
  match d.action with
  | .registered signed => applyRegistration P r signed
  | .updated signed => applyHealthUpdate P r signed
  | .unregistered signed => applyWithdrawal P r signed
  | .expireStale threshold => .ok (expireStale d.time threshold r).1

end Handlers

variable {P : ServicePlatform} {r r' : Registry} {d : Delivery}

/-- The payload of a delivery is about the service of the record and passes the checks against
its provider. -/
def SignedBy (P : ServicePlatform) (record : ServiceRecord) : Action → Prop
  | .registered signed => signed.payload.serviceId = record.serviceId ∧
      signed.payload.provider = record.provider ∧ verifyRegistration P signed = .ok ()
  | .updated signed => signed.payload.serviceId = record.serviceId ∧
      signed.payload.provider = record.provider ∧
      P.verify record.providerPublicKey (.healthUpdate signed.payload) signed.signature = true
  | .unregistered signed => signed.payload.serviceId = record.serviceId ∧
      signed.payload.provider = record.provider ∧
      P.verify record.providerPublicKey (.withdrawal signed.payload) signed.signature = true
  | .expireStale _ => False

def subject : Action → Option ServiceId
  | .registered signed => some signed.payload.serviceId
  | .updated signed => some signed.payload.serviceId
  | .unregistered signed => some signed.payload.serviceId
  | .expireStale _ => none

/-- The ways in which the record of a service can change. -/
inductive Change (d : Delivery) (id : ServiceId) :
    Option ServiceRecord → Option ServiceRecord → Prop
  | same (record : Option ServiceRecord) : subject d.action ≠ some id → Change d id record record
  | registered (signed : Signed Registration) (old : Option ServiceRecord) :
      d.action = .registered signed → signed.payload.serviceId = id →
      Change d id old (some (intoRecord signed.payload))
  | updated (signed : Signed HealthUpdate) (record : ServiceRecord) :
      d.action = .updated signed → signed.payload.serviceId = id →
      Change d id (some record) (some { record with
        health := signed.payload.state
        lastHealthUpdate := signed.payload.timestamp })
  | withdrawn (signed : Signed Withdrawal) (record : ServiceRecord) :
      d.action = .unregistered signed → signed.payload.serviceId = id →
      Change d id (some record) none
  | expired (threshold : ℕ) (record : ServiceRecord) : d.action = .expireStale threshold →
      record.lastHealthUpdate < cutoff d.time threshold → Change d id (some record) none

theorem authorize_ok {id : ServiceId} {provider : PeerId} {statement : ServiceStatement}
    {signature : Signature} {record : ServiceRecord} :
    authorize P r id provider statement signature = .ok record ↔ r.get id = some record ∧
      record.provider = provider ∧
        P.verify record.providerPublicKey statement signature = true := by
  simp only [authorize, bind_ok, load_ok, require_ok, pure_ok, exists_const]
  constructor
  · rintro ⟨_, hget, hprovider, hverify, rfl⟩
    exact ⟨hget, hprovider, hverify⟩
  · rintro ⟨hget, hprovider, hverify⟩
    exact ⟨record, hget, hprovider, hverify, rfl⟩

theorem get_expireStale (time : Timestamp) (threshold : ℕ) (id : ServiceId) :
    (expireStale time threshold r).1.get id =
      (r.get id).filter fun record => !decide (record.lastHealthUpdate < cutoff time threshold) :=
  RecordStore.get_prune _ r id

theorem step_change (h : step P r d = .ok r') (id : ServiceId) :
    Change d id (r.get id) (r'.get id) := by
  obtain ⟨time, action⟩ := d
  cases action with
  | registered signed =>
    simp only [step, applyRegistration, bind_ok, require_ok, pure_ok] at h
    obtain ⟨-, -, -, -, rfl⟩ := h
    rw [RecordStore.get_put]
    split_ifs with hid
    · exact .registered signed _ rfl hid.symm
    · exact .same _ fun heq => hid (Option.some.inj heq).symm
  | updated signed =>
    simp only [step, applyHealthUpdate, bind_ok, authorize_ok, pure_ok] at h
    obtain ⟨record, ⟨hget, -, -⟩, rfl⟩ := h
    have hkey : record.serviceId = signed.payload.serviceId := RecordStore.idOf_get hget
    rw [RecordStore.get_put]
    split_ifs with hid
    · obtain rfl : id = signed.payload.serviceId := hid.trans hkey
      rw [hget]
      exact .updated signed record rfl rfl
    · exact .same _ fun heq => hid ((Option.some.inj heq).symm.trans hkey.symm)
  | unregistered signed =>
    simp only [step, applyWithdrawal, bind_ok, authorize_ok, pure_ok] at h
    obtain ⟨record, ⟨hget, -, -⟩, rfl⟩ := h
    rw [RecordStore.get_erase]
    split_ifs with hid
    · rw [hid, hget]
      exact .withdrawn signed record rfl rfl
    · exact .same _ fun heq => hid (Option.some.inj heq).symm
  | expireStale threshold =>
    obtain rfl : (expireStale time threshold r).1 = r' := Except.ok.inj h
    have hsubject : subject (.expireStale threshold) ≠ some id := fun heq => by cases heq
    rw [get_expireStale]
    cases hget : r.get id with
    | none => exact .same none hsubject
    | some record =>
      rw [Option.filter_some]
      by_cases hstale : record.lastHealthUpdate < cutoff time threshold
      · rw [decide_eq_true hstale]
        exact .expired threshold record rfl hstale
      · rw [decide_eq_false hstale]
        exact .same _ hsubject

/-- A payload that the provider of a listed service signed is accepted. -/
theorem step_ok_of_signedBy {record : ServiceRecord} (hget : r.get record.serviceId = some record)
    (h : SignedBy P record d.action) : ∃ r', step P r d = .ok r' := by
  obtain ⟨time, action⟩ := d
  cases action with
  | registered signed =>
    obtain ⟨hid, hprovider, hverify⟩ := h
    refine ⟨r.put (intoRecord signed.payload), ?_⟩
    simp only [step, applyRegistration, bind_ok, require_ok, pure_ok]
    refine ⟨(), hverify, (), ?_, trivial⟩
    rw [hid, hget]
    exact decide_eq_true hprovider.symm
  | updated | unregistered =>
    obtain ⟨hid, hprovider, hverify⟩ := h
    rw [← hid] at hget
    refine ⟨_, bind_ok _ _ _ |>.mpr ⟨record, authorize_ok.mpr ⟨hget, hprovider.symm, hverify⟩, rfl⟩⟩
  | expireStale => exact h.elim

end OpenFiat.ServiceRegistry
