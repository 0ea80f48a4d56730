import OpenFiat.BudgetedPrefix
import OpenFiat.FiniteTable
import OpenFiat.GossipEvents

/-!
# The gossip service of a node

A node stores every valid event once, under its id, and passes it on to its neighbours with
one hop less to go. A neighbour that connects may ask for the stored events of its
subscription and gets as much of the log as one response holds, oldest first.

The token bucket that meters a neighbour works on wall-clock floats; its decision is an input.
`π` is the type of transport peers.
-/
namespace OpenFiat.GossipNode
open GuardedResult FiniteTable BudgetedPrefix ProgramAddress NodePayloads GossipEvents

/-- The largest hop budget that is honoured on a received event. -/
def maxTtl : UInt8 := 16

def maxClockSkewMillis : ℕ := 5 * 60 * 1000

def recoveryResponseBudgetBytes : ℕ := 768 * 1024

inductive GossipError where
  | invalidSignature
  | protocolVersionMismatch
  | malformedPayload
  | eventIdMismatch
  | timestampTooFarAhead
  | identityInUseElsewhere
  | relayCreditExhausted
deriving DecidableEq, Repr

theorem digest_bytes_injective : Function.Injective fun d : Digest => d.bytes.map UInt8.toNat := by
  intro d d' h
  have hbytes : d.bytes = d'.bytes :=
    List.map_injective_iff.mpr (fun _ _ hb => UInt8.toNat_inj.mp hb) h
  cases d
  cases hbytes
  rfl

abbrev EventStore := Table Digest EventEnvelope

/-- The stored events in ascending order of their ids. -/
def EventStore.all (store : EventStore) : List EventEnvelope :=
  (Table.ascending (fun d : Digest => d.bytes.map UInt8.toNat) digest_bytes_injective
    store.keys).filterMap store.lookup

def EventStore.allForSubscription (store : EventStore) (subscription : Subscription) :
    List EventEnvelope :=
  (EventStore.all store).filter fun e => subscription.accepts (channelForOfsSpec e.ofsSpec)

structure GossipService (π : Type) where
  selfPeerId : PeerId
  /-- Keys supplied out of band, for peer ids that carry none. -/
  peerKeys : PeerId → Option PublicKey
  connected : List π
  /-- The peers that had their recovery response on the current connection. -/
  recoveryServed : List π
  startedAt : UInt64
  identityConflicts : ℕ
  forwardFilters : List (EventEnvelope → Bool)
  store : EventStore

def GossipService.new {π : Type} (now : UInt64) (selfPeerId : PeerId) (store : EventStore) :
    GossipService π where
  selfPeerId := selfPeerId
  peerKeys _ := none
  connected := []
  recoveryServed := []
  startedAt := now
  identityConflicts := 0
  forwardFilters := []
  store := store

inductive ReceiveOutcome where
  | stored
  | duplicate
  | rejected (err : GossipError)
deriving DecidableEq, Repr

section Service
variable {π : Type}

abbrev Sends (π : Type) := List (π × EventEnvelope)

def originKey (P : GossipPlatform) (g : GossipService π) (origin : PeerId) : Option PublicKey :=
  (P.publicKeyFromPeerId origin).or (g.peerKeys origin)

def validate (P : GossipPlatform) (now : UInt64) (g : GossipService π) (e : EventEnvelope) :
    Except GossipError Unit := do
  require (e.version = 1) .protocolVersionMismatch
  require (e.timestamp.toNat ≤ min (now.toNat + maxClockSkewMillis) (2 ^ 64 - 1))
    .timestampTooFarAhead
  let key ← load (originKey P g e.origin) .invalidSignature
  require (verify P key e.signable e.signature = true) .invalidSignature
  require (e.idMatches P) .eventIdMismatch

/-- An event under the node's own name, stamped after its start, that it did not emit. -/
def isImpostor (g : GossipService π) (e : EventEnvelope) : Prop :=
  e.origin = g.selfPeerId ∧ g.startedAt < e.timestamp

instance (g : GossipService π) (e : EventEnvelope) : Decidable (isImpostor g e) :=
  inferInstanceAs (Decidable (_ ∧ _))

section Transport
variable [DecidableEq π]

def broadcast (g : GossipService π) (e : EventEnvelope) (exclude : Option π) : Sends π :=
  (g.connected.filter fun peer => some peer ≠ exclude).map fun peer => (peer, e)

/-- Pass a received event on with one hop less, unless that leaves none. -/
def forward (g : GossipService π) (source : Option π) (e : EventEnvelope) : Sends π :=
  if 1 < e.ttl then broadcast g { e with ttl := e.ttl - 1 } source else []

def clampTtl (e : EventEnvelope) : EventEnvelope :=
  { e with ttl := if e.ttl ≤ maxTtl then e.ttl else maxTtl }

/-- The answer to an offered event, the service after it and what is sent on. `credit` is the
decision of the token bucket of the peer that handed the event over. -/
def receiveEvent (P : GossipPlatform) (now : UInt64) (credit : Bool) (g : GossipService π)
    (source : Option π) (e : EventEnvelope) :
    ReceiveOutcome × GossipService π × Sends π :=
  if (g.store.lookup e.id).isSome then (.duplicate, g, [])
  else if source.isSome ∧ credit = false then (.rejected .relayCreditExhausted, g, [])
  else
    match validate P now g e with
    | .error err => (.rejected err, g, [])
    | .ok _ =>
      if isImpostor g e then
        (.rejected .identityInUseElsewhere,
          { g with identityConflicts := g.identityConflicts + 1 }, [])
      else
        let e := clampTtl e
        (.stored, { g with store := g.store.insert e.id e },
          if g.forwardFilters.all (· e) then forward g source e else [])

/-- Events from the front as long as they fit; the first that does not ends the response. -/
def fillBudget : ℕ → List EventEnvelope → List EventEnvelope :=
  takeWithin EventEnvelope.wireSize

def notLater (e e' : EventEnvelope) : Prop := e.timestamp.toNat ≤ e'.timestamp.toNat

instance : DecidableRel notLater := fun e e' => Nat.decLe e.timestamp.toNat e'.timestamp.toNat

instance : Std.Total notLater := ⟨fun e e' => le_total e.timestamp.toNat e'.timestamp.toNat⟩

instance : IsTrans EventEnvelope notLater := ⟨fun _ _ _ => le_trans⟩

def recoveryQueue (store : EventStore) (subscription : Subscription) : List EventEnvelope :=
  (EventStore.allForSubscription store subscription).insertionSort notLater

def recoverableFor (store : EventStore) (subscription : Subscription) : List EventEnvelope :=
  fillBudget recoveryResponseBudgetBytes (recoveryQueue store subscription)

/-- The answer to a decoded recovery request, once for each connection. -/
def answerRecovery (g : GossipService π) (peer : π) (subscription : Subscription) :
    List EventEnvelope × GossipService π :=
  if peer ∈ g.recoveryServed then ([], g)
  else (recoverableFor g.store subscription, { g with recoveryServed := peer :: g.recoveryServed })

end Transport

variable {P : GossipPlatform} {now : UInt64} {g : GossipService π} {e : EventEnvelope}

theorem validate_ok {u : Unit} : validate P now g e = .ok u ↔ e.version = 1 ∧
    e.timestamp.toNat ≤ min (now.toNat + maxClockSkewMillis) (2 ^ 64 - 1) ∧
    ∃ key, originKey P g e.origin = some key ∧ verify P key e.signable e.signature = true ∧
      e.idMatches P := by
  simp [validate]

/-- What can come of an offered event. -/
inductive Received (P : GossipPlatform) (now : UInt64) (credit : Bool) (g : GossipService π)
    (source : Option π) (e : EventEnvelope) [DecidableEq π] :
    ReceiveOutcome × GossipService π × Sends π → Prop
  | duplicate {e₀ : EventEnvelope} : g.store.lookup e.id = some e₀ →
      Received P now credit g source e (.duplicate, g, [])
  | rejected {err : GossipError} {conflicts : ℕ} : g.store.lookup e.id = none →
      (source.isSome ∧ credit = false) ∨ validate P now g e ≠ .ok () ∨ isImpostor g e →
      Received P now credit g source e
        (.rejected err, { g with identityConflicts := conflicts }, [])
  | stored : g.store.lookup e.id = none → validate P now g e = .ok () → ¬ isImpostor g e →
      Received P now credit g source e
        (.stored, { g with store := g.store.insert e.id (clampTtl e) },
          if g.forwardFilters.all (· (clampTtl e)) then forward g source (clampTtl e) else [])

theorem receiveEvent_received [DecidableEq π] (P : GossipPlatform) (now : UInt64) (credit : Bool)
    (g : GossipService π) (source : Option π) (e : EventEnvelope) :
    Received P now credit g source e (receiveEvent P now credit g source e) := by
  unfold receiveEvent
  by_cases hknown : (g.store.lookup e.id).isSome
  · rw [if_pos hknown]
    obtain ⟨e₀, he₀⟩ := Option.isSome_iff_exists.mp hknown
    exact .duplicate he₀
  rw [if_neg hknown]
  have hnew := Option.not_isSome_iff_eq_none.mp hknown
  by_cases hcredit : source.isSome ∧ credit = false
  · rw [if_pos hcredit]
    exact .rejected hnew (.inl hcredit)
  rw [if_neg hcredit]
  cases hvalid : validate P now g e with
  | error => exact .rejected hnew (.inr (.inl (by rw [hvalid]; simp)))
  | ok =>
    by_cases himpostor : isImpostor g e
    · simp only [if_pos himpostor]
      exact .rejected hnew (.inr (.inr himpostor))
    · simp only [if_neg himpostor]
      exact .stored hnew hvalid himpostor

end Service

end OpenFiat.GossipNode
