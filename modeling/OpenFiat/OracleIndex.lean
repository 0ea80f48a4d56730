import OpenFiat.ServiceRegistry

/-!
# The oracle index

A registered provider of market data publishes records under ids of its own choice. A record takes
the place of an older version with the same id, whoever published that one, and a sweep deletes
what has been expired for a week. The rate of a pair is the median of the unexpired records that
quote it. It counts records and not providers, so it stays within an interval exactly if the
records on either side of it are few enough.
-/
namespace OpenFiat.OracleIndex
open GuardedResult NodePayloads RecordStores TransactionRuns
open SnapshotIndex (ServiceType)

structure OracleId where
  id : String
deriving DecidableEq, Repr

inductive OracleData (R : Type) where
  | exchangeRate (base quote : String) (rate : R)
  | stablecoinMetadata (symbol name : String) (decimals : UInt8) (blockchain : String)
      (mintAddress website : Option String) (status : String)
  | paymentInfrastructure (rail : String) (available : Bool) (note : Option String)
  | regionalMetadata (country : String) (supportedFiat paymentMethods : List String)
deriving DecidableEq

structure OraclePublish (R : Type) where
  id : OracleId
  provider : PeerId
  providerPublicKey : PublicKey
  data : OracleData R
  version : ℕ
  timestamp : Timestamp
  expiresAt : Timestamp
deriving DecidableEq

structure OracleRecord (R : Type) where
  id : OracleId
  provider : PeerId
  providerPublicKey : PublicKey
  data : OracleData R
  version : ℕ
  publishedAt : Timestamp
  expiresAt : Timestamp
deriving DecidableEq

inductive OracleError where
  | invalidSignature
  | unauthorized
  | alreadyExpired
  | staleVersion
deriving DecidableEq, Repr

inductive ExchangeRateLookup (R : Type) where
  | current (rate : R) (expiresAt : Timestamp)
  | stale
  | noData
deriving DecidableEq

abbrev Index (R : Type) := RecordStore (OracleRecord.id (R := R))

variable {R : Type}

theorem oracleId_injective : Function.Injective OracleId.id := by
  rintro ⟨_⟩ ⟨_⟩ h
  exact congrArg _ h

def all (r : Index R) : List (OracleRecord R) := r.all OracleId.id oracleId_injective

def verify (S : SignatureScheme (OraclePublish R)) (signed : Signed (OraclePublish R)) :
    Except OracleError Unit :=
  S.verifyAuthor signed.payload.providerPublicKey signed.payload.provider signed.payload
    signed.signature .unauthorized .invalidSignature

def isMarketData : ServiceType → Bool
  | .marketData _ => true
  | _ => false

def newRecord (publish : OraclePublish R) : OracleRecord R where
  __ := publish
  publishedAt := publish.timestamp

def applyPublish (S : SignatureScheme (OraclePublish R)) (services : ServiceRegistry.Registry)
    (r : Index R) (signed : Signed (OraclePublish R)) : Except OracleError (Index R) := do
  let publish := signed.payload
  verify S signed
  require ((ServiceRegistry.all services).any (fun service =>
    service.provider = publish.provider && isMarketData service.serviceType) = true) .unauthorized
  require (publish.timestamp < publish.expiresAt) .alreadyExpired
  require ((r.get publish.id).all (·.version < publish.version) = true) .staleVersion
  return r.put (newRecord publish)

/-- How long an expired record is kept, in milliseconds. -/
def expiredGrace : ℕ := 7 * 24 * 60 * 60 * 1000

/-- One sweep, with the number of records that it deleted. -/
def pruneExpired (now : Timestamp) (r : Index R) : Index R × ℕ :=
  r.prune OracleId.id oracleId_injective fun record => record.expiresAt < now - expiredGrace

/-- A publication comes with the services that the node knows when it arrives. -/
inductive Event (R : Type) where
  | publish (services : ServiceRegistry.Registry) (signed : Signed (OraclePublish R))
  | prune (now : Timestamp)

def step (S : SignatureScheme (OraclePublish R)) (r : Index R) :
    Event R → Except OracleError (Index R)
  | .publish services signed => applyPublish S services r signed
  | .prune now => .ok (pruneExpired now r).1

variable {S : SignatureScheme (OraclePublish R)} {r r' : Index R} {e : Event R}

theorem applyPublish_ok {services : ServiceRegistry.Registry} {signed : Signed (OraclePublish R)}
    (h : applyPublish S services r signed = .ok r') : verify S signed = .ok () ∧
    (∀ old, r.get signed.payload.id = some old → old.version < signed.payload.version) ∧
    r' = r.put (newRecord signed.payload) := by
  simp only [applyPublish, bind_ok, require_ok, pure_ok] at h
  obtain ⟨_, hverify, _, -, _, -, _, hversion, rfl⟩ := h
  refine ⟨hverify, fun old hold => ?_, rfl⟩
  rw [hold] at hversion
  exact of_decide_eq_true hversion

/-- A record stays, its own provider's newer one takes its place, or it has long expired when a
sweep deletes it. -/
inductive Keeps (S : SignatureScheme (OraclePublish R)) (old : OracleRecord R) :
    Event R → Option (OracleRecord R) → Prop
  | same (e : Event R) : Keeps S old e (some old)
  | replaced (services : ServiceRegistry.Registry) (signed : Signed (OraclePublish R)) :
      verify S signed = .ok () → signed.payload.provider = old.provider →
      old.version < signed.payload.version →
      Keeps S old (.publish services signed) (some (newRecord signed.payload))
  | swept (now : Timestamp) : old.expiresAt < now - expiredGrace → Keeps S old (.prune now) none

/-- A publication finds no other provider's record under its id. -/
def OnOwn (r : Index R) : Event R → Prop
  | .publish _ signed => ∀ old, r.get signed.payload.id = some old →
      old.provider = signed.payload.provider
  | .prune _ => True

theorem step_keeps_iff (h : step S r e = .ok r') :
    (∀ id old, r.get id = some old → Keeps S old e (r'.get id)) ↔ OnOwn r e := by
  cases e with
  | publish services signed =>
    obtain ⟨hverify, hversion, rfl⟩ := applyPublish_ok h
    simp only [RecordStore.get_put]
    constructor
    · intro h old hold
      have hkeeps := h _ old hold
      rw [if_pos (by rfl)] at hkeeps
      cases hkeeps with
      | same => rfl
      | replaced _ _ _ hprovider => exact hprovider.symm
    · intro h id old hold
      split_ifs with hid
      · subst hid
        exact .replaced services signed hverify (h old hold).symm (hversion old hold)
      · exact hold ▸ .same _
  | prune now =>
    obtain rfl : (pruneExpired now r).1 = r' := Except.ok.inj h
    refine ⟨fun _ => trivial, fun _ id old hold => ?_⟩
    rw [pruneExpired, RecordStore.get_prune, hold, Option.filter_some]
    by_cases hexpired : old.expiresAt < now - expiredGrace
    · simpa [hexpired] using Keeps.swept now hexpired
    · simpa [hexpired] using Keeps.same _

/-- The publications under an id that verify are all by its owner. -/
def SignedByOwner (S : SignatureScheme (OraclePublish R)) (owner : OracleId → PeerId) :
    Event R → Prop
  | .publish _ signed => verify S signed = .ok () →
      signed.payload.provider = owner signed.payload.id
  | .prune _ => True

def Owned (owner : OracleId → PeerId) (r : Index R) : Prop :=
  ∀ id old, r.get id = some old → old.provider = owner id

theorem step_owned {owner : OracleId → PeerId} (h : Owned owner r) (hstep : step S r e = .ok r')
    (hsigned : SignedByOwner S owner e) : Owned owner r' ∧ OnOwn r e := by
  cases e with
  | publish services signed =>
    obtain ⟨hverify, -, rfl⟩ := applyPublish_ok hstep
    refine ⟨fun id old hold => ?_, fun old hold => (h _ old hold).trans (hsigned hverify).symm⟩
    rw [RecordStore.get_put] at hold
    split_ifs at hold with hid
    · obtain rfl := Option.some.inj hold
      exact hid ▸ hsigned hverify
    · exact h id old hold
  | prune now =>
    obtain rfl : (pruneExpired now r).1 = r' := Except.ok.inj hstep
    refine ⟨fun id old hold => ?_, trivial⟩
    rw [pruneExpired, RecordStore.get_prune] at hold
    exact h id old (Option.filter_eq_some_iff.mp hold).1

/-- Along a run every record stays with its provider until it has long expired exactly if no
accepted publication finds another provider's record under its id. That is so where the
publications under each id are signed by one provider. -/
theorem records_stay_with_provider_iff (S : SignatureScheme (OraclePublish R)) (r : Index R)
    (events : List (Event R)) :
    ((∀ t ∈ transitions (step S) r events, ∀ id old, t.before.get id = some old →
      Keeps S old t.label (t.after.get id)) ↔
      ∀ t ∈ transitions (step S) r events, OnOwn t.before t.label) ∧
    ∀ owner, Owned owner r → (∀ e ∈ events, SignedByOwner S owner e) →
      ∀ t ∈ transitions (step S) r events, OnOwn t.before t.label := by
  refine ⟨forall_congr' fun t => forall_congr' fun ht => step_keeps_iff (step_of_mem ht), ?_⟩
  intro owner howned hsigned t ht
  obtain ⟨hbefore, hstep⟩ := invariant_of_mem (G := fun t => SignedByOwner S owner t.label)
    (fun _ _ _ h hstep hsigned => (step_owned h hstep hsigned).1) howned
    (fun t ht => hsigned t.label (label_mem_of_mem ht)) ht
  exact (step_owned hbefore hstep (hsigned t.label (label_mem_of_mem ht))).2

section Median
variable [LinearOrder R]

/-- The rate of the pair, if the record quotes it. -/
def quoted (base quote : String) (record : OracleRecord R) : Option R :=
  match record.data with
  | .exchangeRate b q rate => if b = base ∧ q = quote then some rate else none
  | _ => none

def exchangeRate (r : Index R) (base quote : String) (now : Timestamp) : ExchangeRateLookup R :=
  let matching := (all r).filterMap fun record =>
    (quoted base quote record).map fun rate => (rate, record.expiresAt)
  if matching.isEmpty then .noData else
    match matching.filter fun entry => now < entry.2 with
    | [] => .stale
    | first :: others =>
      let current := first :: others
      let sorted := current.insertionSort fun a b => a.1 ≤ b.1
      .current (sorted.getD (current.length / 2) first).1
        ((others.map Prod.snd).foldl min first.2)

def medianExchangeRate (r : Index R) (base quote : String) (now : Timestamp) : Option R :=
  match exchangeRate r base quote now with
  | .current rate _ => some rate
  | _ => none

/-- The unexpired records that quote the pair, each with its provider and its rate. -/
def quotes (r : Index R) (base quote : String) (now : Timestamp) : List (PeerId × R) :=
  (all r).filterMap fun record =>
    if now < record.expiresAt then (quoted base quote record).map (record.provider, ·) else none

/-- A predicate that passes down an ordered list holds in the first places, as many as it
counts. -/
theorem getD_iff_lt_countP {α : Type*} {p : α → Bool} {l : List α}
    (hl : l.Pairwise fun a b => p b = true → p a = true) {i : ℕ} (hi : i < l.length) (default : α) :
    p (l.getD i default) = true ↔ i < l.countP p := by
  induction l generalizing i with
  | nil => exact absurd hi (Nat.not_lt_zero i)
  | cons a l ih =>
    obtain ⟨ha, hl⟩ := List.pairwise_cons.mp hl
    have hnone (hpa : ¬ p a = true) : l.countP p = 0 :=
      List.countP_eq_zero.mpr fun b hb hpb => hpa (ha b hb hpb)
    rw [List.countP_cons]
    cases i with
    | zero =>
      split_ifs with hpa
      · exact iff_of_true hpa (Nat.succ_pos _)
      · exact iff_of_false hpa (by simp [hnone hpa])
    | succ =>
      rw [List.getD_cons_succ, ih hl (Nat.lt_of_succ_lt_succ hi)]
      split_ifs with hpa
      · exact Nat.succ_lt_succ_iff.symm
      · simp [hnone hpa]

theorem median_iff {l : List (R × Timestamp)} (hl : 0 < l.length) (first : R × Timestamp)
    {p : R → Bool} (hp : ∀ a b, a ≤ b → p b = true → p a = true) :
    p ((l.insertionSort fun a b => a.1 ≤ b.1).getD (l.length / 2) first).1 = true ↔
      l.length / 2 < (l.map Prod.fst).countP p := by
  have hsorted : (l.insertionSort fun a b => a.1 ≤ b.1).Pairwise fun a b => a.1 ≤ b.1 :=
    List.pairwise_insertionSort _ l
  have hperm := List.perm_insertionSort (fun a b : R × Timestamp => a.1 ≤ b.1) l
  rw [List.countP_map, ← hperm.countP_eq]
  refine getD_iff_lt_countP (p := p ∘ Prod.fst) (hsorted.imp (hp _ _)) ?_ first
  rw [hperm.length_eq]
  omega

/-- The median has a property that passes down the rates exactly if more than half of the quotes
have it. -/
theorem exchangeRate_eq_current {r : Index R} {base quote : String} {now : Timestamp}
    (hquotes : quotes r base quote now ≠ []) :
    ∃ rate expires, exchangeRate r base quote now = .current rate expires ∧
      ∀ p : R → Bool, (∀ a b, a ≤ b → p b = true → p a = true) →
        (p rate = true ↔ (quotes r base quote now).length / 2 <
          (quotes r base quote now).countP fun entry => p entry.2) := by
  have hrates : (((all r).filterMap fun record => (quoted base quote record).map fun rate =>
      (rate, record.expiresAt)).filter fun entry => now < entry.2).map Prod.fst =
        (quotes r base quote now).map Prod.snd := by
    simp only [quotes, List.filter_filterMap, List.map_filterMap]
    refine List.filterMap_congr fun record _ => ?_
    cases quoted base quote record <;> by_cases hnow : now < record.expiresAt <;>
      simp [hnow, le_of_not_gt]
  dsimp only [exchangeRate]
  split
  next hempty =>
    rw [List.isEmpty_iff.mp hempty] at hrates
    exact absurd (List.map_eq_nil_iff.mp hrates.symm) hquotes
  next =>
    split
    next hnil =>
      rw [hnil] at hrates
      exact absurd (List.map_eq_nil_iff.mp hrates.symm) hquotes
    next first others hcons =>
      rw [hcons] at hrates
      refine ⟨_, _, rfl, fun p hp => ?_⟩
      rw [median_iff (List.length_pos_of_mem List.mem_cons_self) first hp, hrates, List.countP_map]
      have hlength := congrArg List.length hrates
      rw [List.length_map, List.length_map] at hlength
      rw [hlength]
      rfl

/-- The providers with a quote. -/
def providers (entries : List (PeerId × R)) : Finset PeerId := (entries.map Prod.fst).toFinset

/-- All quotes of the provider are inside the interval. -/
def Within (lo hi : R) (entries : List (PeerId × R)) (provider : PeerId) : Prop :=
  ∀ entry ∈ entries, entry.1 = provider → lo ≤ entry.2 ∧ entry.2 ≤ hi
deriving Decidable

def Majority (lo hi : R) (entries : List (PeerId × R)) : Prop :=
  (providers entries).card < 2 * ((providers entries).filter (Within lo hi entries)).card
deriving Decidable

/-- At most half of the quotes are below the interval and fewer than half are above it. -/
def Bounded (lo hi : R) (entries : List (PeerId × R)) : Prop :=
  2 * entries.countP (fun entry => entry.2 < lo) ≤ entries.length ∧
    2 * entries.countP (fun entry => hi < entry.2) < entries.length

variable {lo hi : R} {entries : List (PeerId × R)}

theorem Majority.ne_nil (h : Majority lo hi entries) : entries ≠ [] := by
  rintro rfl
  exact absurd h (Nat.not_lt_zero _)

/-- A majority of the providers bounds the rate if no provider has two quotes. -/
theorem Majority.bounded (h : Majority lo hi entries) (hone : (entries.map Prod.fst).Nodup) :
    Bounded lo hi entries := by
  let outside (entry : PeerId × R) : Bool := !decide (lo ≤ entry.2 ∧ entry.2 ≤ hi)
  have hcount : entries.countP outside ≤
      ((providers entries).filter fun provider => ¬ Within lo hi entries provider).card := by
    have hsub : ((entries.filter outside).map Prod.fst).Nodup :=
      hone.sublist (List.filter_sublist.map Prod.fst)
    rw [List.countP_eq_length_filter, ← List.length_map (f := Prod.fst),
      ← List.toFinset_card_of_nodup hsub]
    refine Finset.card_le_card fun provider hprovider => ?_
    obtain ⟨entry, hentry, rfl⟩ := List.mem_map.mp (List.mem_toFinset.mp hprovider)
    obtain ⟨hmem, hout⟩ := List.mem_filter.mp hentry
    refine Finset.mem_filter.mpr ⟨List.mem_toFinset.mpr (List.mem_map_of_mem hmem), fun hin => ?_⟩
    simp [outside, hin entry hmem rfl] at hout
  have hbelow : entries.countP (fun entry => entry.2 < lo) ≤ entries.countP outside :=
    List.countP_mono_left fun entry _ hlo => by
      simp only [decide_eq_true_eq] at hlo
      simp [outside, hlo.not_ge]
  have habove : entries.countP (fun entry => hi < entry.2) ≤ entries.countP outside :=
    List.countP_mono_left fun entry _ hhi => by
      simp only [decide_eq_true_eq] at hhi
      simp [outside, hhi]
  have hsplit := Finset.card_filter_add_card_filter_not (s := providers entries)
    (Within lo hi entries)
  have htotal : (providers entries).card = entries.length :=
    (List.toFinset_card_of_nodup hone).trans (List.length_map _)
  unfold Majority at h
  constructor <;> omega

/-- A majority of the providers bounds the rate exactly if its quotes are not outnumbered, and
they are not where no provider has two. -/
theorem majority_bounds_rate_iff (r : Index R) (base quote : String) (now : Timestamp) (lo hi : R) :
    ((Majority lo hi (quotes r base quote now) →
      ∃ rate, medianExchangeRate r base quote now = some rate ∧ lo ≤ rate ∧ rate ≤ hi) ↔
      (Majority lo hi (quotes r base quote now) → Bounded lo hi (quotes r base quote now))) ∧
    (((quotes r base quote now).map Prod.fst).Nodup → Majority lo hi (quotes r base quote now) →
      Bounded lo hi (quotes r base quote now)) := by
  refine ⟨imp_congr_right fun hmajority => ?_, fun hone h => Majority.bounded h hone⟩
  obtain ⟨rate, expires, hrate, hmedian⟩ := exchangeRate_eq_current hmajority.ne_nil
  have hlo := hmedian (fun a => a < lo) fun a b hle hb => by
    simpa using hle.trans_lt (of_decide_eq_true hb)
  have hhi := hmedian (fun a => a ≤ hi) fun a b hle hb => by
    simpa using hle.trans (of_decide_eq_true hb)
  have hcount := List.length_eq_countP_add_countP (fun entry : PeerId × R => entry.2 ≤ hi)
    (l := quotes r base quote now)
  simp only [decide_eq_true_eq, not_le] at hlo hhi hcount
  have hbelow : lo ≤ rate ↔ _ := not_lt.symm.trans (not_congr hlo)
  constructor
  · rintro ⟨rate', hsome, hge, hle⟩
    rw [medianExchangeRate, hrate, Option.some.injEq] at hsome
    subst hsome
    have hlo := hbelow.mp hge
    have hhi := hhi.mp hle
    constructor <;> omega
  · rintro ⟨hlow, hhigh⟩
    refine ⟨rate, by rw [medianExchangeRate, hrate], hbelow.mpr ?_, hhi.mpr ?_⟩ <;> omega

end Median

namespace Oracles

/-- Each key signs its own publications. -/
def scheme : SignatureScheme (OraclePublish ℕ) where
  verify key publish _ := decide (key = publish.providerPublicKey)
  peerIdFromPublicKey key := some ⟨key.bytes⟩

def service (id : String) (n : UInt8) : ServiceRegistry.ServiceRecord :=
  ServiceRegistry.intoRecord ⟨⟨id⟩, .marketData .fxOracle, peer n, .filled n, [], [], none, [],
    none, none, none, 0⟩

def services : ServiceRegistry.Registry :=
  ((RecordStore.empty.put (service "a" 1)).put (service "b" 2)).put (service "c" 3)

def publication (id : String) (n : UInt8) (version rate : ℕ) : Event ℕ :=
  .publish services
    ⟨⟨⟨id⟩, peer n, .filled n, .exchangeRate "USDC" "KES" rate, version, 10, 100⟩, ⟨[]⟩⟩

def index (events : List (Event ℕ)) : Index ℕ := run (step scheme) .empty events

/-- Two providers with one record each, and one with three. -/
def flooded : Index ℕ :=
  index [publication "a1" 1 1 129, publication "b1" 2 1 130, publication "c1" 3 1 1000,
    publication "c2" 3 1 1000, publication "c3" 3 1 1000]

end Oracles

open Oracles in
/-- The second provider takes the first one's record over with a higher version. -/
theorem record_overwritten :
    ((index [publication "usdc-kes" 1 1 129]).get ⟨"usdc-kes"⟩).map OracleRecord.provider =
        some (peer 1) ∧
      ((index [publication "usdc-kes" 1 1 129, publication "usdc-kes" 2 2 1000]).get
        ⟨"usdc-kes"⟩).map OracleRecord.provider = some (peer 2) := by
  decide +kernel

open Oracles in
/-- Three records of one provider outvote the two other providers. -/
theorem minority_sets_rate : Majority 129 130 (quotes flooded "USDC" "KES" 50) ∧
    medianExchangeRate flooded "USDC" "KES" 50 = some 1000 := by
  decide +kernel

end OpenFiat.OracleIndex
