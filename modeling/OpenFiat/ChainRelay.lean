import OpenFiat.FrozenSettlements
import OpenFiat.OnchainDispute

/-!
# The transaction relay of a connected node

Anybody may hand a node a signed transaction together with a correlation tag, by
`sendTransaction` or as a relay request over gossip. A tick of `pollChain` submits what is
queued, asks for the status of every signature that awaits confirmation and acts on the tag of
each one that succeeded: `settlement:<id>` records a release of the escrow, and
`dispute:<id>:<case address>` records an execution together with the outcome that the account
at that address shows.

The client of the chain is an argument of the tick: its answers may differ from call to call,
and every call has its number. `ledger` stands for the transactions that succeeded on the
chain.

`trace` lists what a run does to the registries of the node. `trading_run` says that it does
nothing else, and `trace_sourced` that each confirmation on it goes back to a request.
-/
namespace OpenFiat.ChainRelay
open GuardedResult TransactionRuns NodePayloads TradingNode OnchainDispute NodeSteps
open SettlementRegistry (applyEscrowReleased)
open DisputeRegistry (applyOnchainExecution)

structure Invocation where
  program : String
  data : List UInt8
deriving DecidableEq, Repr

/-- A signed transaction of the chain, by what it invokes. -/
structure ChainTransaction where
  signature : String
  invocations : List Invocation
deriving DecidableEq, Repr

/-- The first eight bytes of `sha256("global:release_escrow")`. -/
def releaseEscrowDiscriminator : List UInt8 := [146, 253, 129, 233, 20, 145, 181, 206]

/-- The first eight bytes of `sha256("global:execute_dispute_outcome")`. -/
def executeDisputeOutcomeDiscriminator : List UInt8 := [158, 56, 238, 187, 219, 223, 212, 99]

/-- The transaction calls the escrow program with the given instruction. -/
def ChainTransaction.Invokes (tx : ChainTransaction) (discriminator : List UInt8) : Prop :=
  ∃ i ∈ tx.invocations, i.program = escrowProgramId ∧ i.data.take 8 = discriminator

instance (tx : ChainTransaction) (discriminator : List UInt8) :
    Decidable (tx.Invokes discriminator) :=
  inferInstanceAs (Decidable (∃ i ∈ tx.invocations, _))

structure RelayPlatform extends NodePlatform where
  /-- Base64, with the reason of a failure. -/
  decodeBytes : String → Except String (List UInt8)
  decodeTransaction : List UInt8 → Option ChainTransaction

inductive ChainError where
  | chainUnavailable
  | blockhashExpired
  | malformedTransaction
  | transactionSubmissionFailed
deriving DecidableEq, Repr

inductive SignatureStatus where
  | success
  | failed
deriving DecidableEq, Repr

/-- The answers that one tick gets, by the number of the call in its loop. -/
structure ChainClient where
  sendTransaction : ℕ → List UInt8 → Except ChainError String
  getSignatureStatus : ℕ → String → Except ChainError (Option SignatureStatus)
  /-- The owner and the data of an account. -/
  getAccount : ℕ → String → Except ChainError (Option (String × List UInt8))

structure PendingRelay where
  txBytes : List UInt8
  correlation : Option String
deriving DecidableEq, Repr

structure AwaitingConfirmation where
  signature : String
  slotSubmitted : ℕ
  correlation : Option String
deriving DecidableEq, Repr

structure ChainState where
  pendingRelay : List PendingRelay
  awaitingConfirmation : List AwaitingConfirmation
deriving DecidableEq, Repr

namespace ChainState

def new : ChainState := ⟨[], []⟩

def enqueueRelay (P : RelayPlatform) (c : ChainState) (txBytes : List UInt8)
    (correlation : Option String) : Except ChainError ChainState := do
  require ((P.decodeTransaction txBytes).isSome) .malformedTransaction
  return { c with pendingRelay := c.pendingRelay ++ [⟨txBytes, correlation⟩] }

def trackAwaitingConfirmation (c : ChainState) (signature : String) (slotSubmitted : ℕ)
    (correlation : Option String) : ChainState :=
  { c with
    awaitingConfirmation := c.awaitingConfirmation ++ [⟨signature, slotSubmitted, correlation⟩] }

/-- Remove the first entry with this signature. -/
def resolveConfirmation (c : ChainState) (signature : String) : ChainState :=
  { c with awaitingConfirmation := c.awaitingConfirmation.eraseP (·.signature = signature) }

end ChainState

def splitOnce (separator : Char) (text : String) : Option (String × String) :=
  match text.toList.span (· ≠ separator) with
  | (_, []) => none
  | (front, _ :: back) => some (String.ofList front, String.ofList back)

inductive Subject where
  | settlement (id : SettlementId)
  | dispute (id : DisputeId) (caseAccount : Option String)
deriving DecidableEq, Repr

def subject (correlation : Option String) : Option Subject :=
  match correlation.bind (splitOnce ':') with
  | none => none
  | some (domain, tail) =>
    if domain = "settlement" then some (.settlement ⟨tail⟩)
    else if domain = "dispute" then
      match splitOnce ':' tail with
      | some (id, account) => some (.dispute ⟨id⟩ (some account))
      | none => some (.dispute ⟨tail⟩ none)
    else none

/-- Both parties are told that the escrow was released; the source is the signature of the
transaction. -/
structure ReleaseNotice where
  source : String
  recipients : List PeerId
deriving DecidableEq, Repr

structure RelayNode where
  trading : Node
  chain : ChainState
  notices : List ReleaseNotice

/-- The node's own records of what it saw on the chain. Nobody delivers these. -/
def observed : Event → Bool
  | .escrowReleased _ _ | .disputeResolved _ _ _ | .onchainExecution _ _ _ => true
  | _ => false

/-- A payload that was delivered, or a sweep. -/
structure TradeInput where
  input : Input
  delivered : observed input.event = false

def observeEscrowRelease (w : Node) (id : SettlementId) (signature : String) :
    List ReleaseNotice :=
  match w.settlements.lookup id with
  | none => []
  | some s => [⟨signature, [s.buyer, s.seller]⟩]

def readDisputeOutcome (client : ChainClient) (call : ℕ) (caseAccount : String) :
    Option Resolution :=
  match client.getAccount call caseAccount with
  | .ok (some (owner, data)) =>
    match decodeOutcome owner data with
    | .ok outcome => outcome
    | .error _ => none
  | _ => none

/-- Act on the tag of a transaction that succeeded. -/
def observe (now : Timestamp) (read : String → Option Resolution) (n : RelayNode)
    (a : AwaitingConfirmation) : RelayNode :=
  match subject a.correlation with
  | some (.settlement id) =>
    let trading := attempt n.trading (applyEscrowReleased now n.trading id a.signature)
    { n with
      trading
      notices := n.notices ++ observeEscrowRelease trading id a.signature }
  | some (.dispute id caseAccount) =>
    { n with
      trading := attempt n.trading
        (applyOnchainExecution now n.trading id a.signature (caseAccount.bind read)) }
  | none => n

def resolve (n : RelayNode) (signature : String) : RelayNode :=
  { n with chain := n.chain.resolveConfirmation signature }

/-- One round of the loop over the signatures that await confirmation. -/
def confirm (now : Timestamp) (client : ChainClient) (n : RelayNode)
    (entry : AwaitingConfirmation × ℕ) : RelayNode :=
  match client.getSignatureStatus entry.2 entry.1.signature with
  | .ok (some .success) =>
    observe now (readDisputeOutcome client entry.2) (resolve n entry.1.signature) entry.1
  | .ok (some .failed) => resolve n entry.1.signature
  | _ => n

def submit (slot : ℕ) (client : ChainClient) (c : ChainState) (entry : PendingRelay × ℕ) :
    ChainState :=
  match client.sendTransaction entry.2 entry.1.txBytes with
  | .ok signature => c.trackAwaitingConfirmation signature slot entry.1.correlation
  | .error _ => c

def submitted (slot : ℕ) (client : ChainClient) (c : ChainState) : ChainState :=
  c.pendingRelay.zipIdx.foldl (submit slot client) { c with pendingRelay := [] }

/-- One tick. `slot` is the one of the blockhash that the node holds. -/
def pollChain (now : Timestamp) (slot : ℕ) (client : ChainClient) (n : RelayNode) : RelayNode :=
  let chain := submitted slot client n.chain
  chain.awaitingConfirmation.zipIdx.foldl (confirm now client) { n with chain }

inductive Action where
  | sendTransaction (data : String) (correlation : Option String)
  | relayRequested (txBytes : List UInt8) (correlation : Option String)
  | trade (input : TradeInput)
  | pollChain (now : Timestamp) (slot : ℕ) (client : ChainClient)

inductive RelayError where
  | invalidParams (reason : String)
  | chain (e : ChainError)
  | node (e : NodeSteps.NodeError)
deriving DecidableEq, Repr

section Steps
variable (P : RelayPlatform)

def enqueue (n : RelayNode) (txBytes : List UInt8) (correlation : Option String) :
    Except RelayError RelayNode := do
  let chain ← (n.chain.enqueueRelay P txBytes correlation).mapError .chain
  return { n with chain }

def step (n : RelayNode) : Action → Except RelayError RelayNode
  | .sendTransaction data correlation => do
    let txBytes ← (P.decodeBytes data).mapError fun e => .invalidParams ("invalid base64: " ++ e)
    enqueue P n txBytes correlation
  | .relayRequested txBytes correlation => enqueue P n txBytes correlation
  | .trade input => do
    let trading ← (NodeSteps.step P.toNodePlatform n.trading input.input).mapError .node
    return { n with trading }
  | .pollChain now slot client => .ok (pollChain now slot client n)

def request : Action → Option PendingRelay
  | .sendTransaction data correlation =>
    match P.decodeBytes data with
    | .ok txBytes => some ⟨txBytes, correlation⟩
    | .error _ => none
  | .relayRequested txBytes correlation => some ⟨txBytes, correlation⟩
  | _ => none

def requests (actions : List Action) : List PendingRelay := actions.filterMap (request P)

/-- A step of the registries: a delivered payload, or the confirmation of a transaction. -/
inductive TradeStep where
  | handled (input : TradeInput)
  | confirmed (now : Timestamp) (entry : AwaitingConfirmation) (read : String → Option Resolution)

def tradeStep (w : Node) : TradeStep → Except NodeSteps.NodeError Node
  | .handled input => NodeSteps.step P.toNodePlatform w input.input
  | .confirmed now a read =>
    match subject a.correlation with
    | some (.settlement id) =>
      NodeSteps.step P.toNodePlatform w ⟨now, .escrowReleased id a.signature⟩
    | some (.dispute id caseAccount) =>
      NodeSteps.step P.toNodePlatform w
        ⟨now, .onchainExecution id a.signature (caseAccount.bind read)⟩
    | none => .ok w

def confirmation (now : Timestamp) (client : ChainClient) (entry : AwaitingConfirmation × ℕ) :
    Option TradeStep :=
  match client.getSignatureStatus entry.2 entry.1.signature with
  | .ok (some .success) => some (.confirmed now entry.1 (readDisputeOutcome client entry.2))
  | _ => none

def tradeSteps (n : RelayNode) : Action → List TradeStep
  | .trade input => [.handled input]
  | .pollChain now slot client =>
    (submitted slot client n.chain).awaitingConfirmation.zipIdx.filterMap (confirmation now client)
  | _ => []

def trace (n : RelayNode) : List Action → List TradeStep
  | [] => []
  | action :: actions => tradeSteps n action ++ trace (apply (step P) n action) actions

end Steps

variable {a : AwaitingConfirmation} {now : Timestamp} {read : String → Option Resolution}

section Runs
variable {P : RelayPlatform} {n : RelayNode} {actions : List Action}

theorem apply_eq_attempt {ε : Type} {w : Node} {x : Except ε Node} {e : TradeStep}
    {f : ε → NodeSteps.NodeError} (h : tradeStep P w e = x.mapError f) :
    apply (tradeStep P) w e = attempt w x := by
  rw [apply, h]
  cases x <;> rfl

theorem observe_trading (now : Timestamp) (read : String → Option Resolution) (n : RelayNode)
    (a : AwaitingConfirmation) :
    (observe now read n a).trading = apply (tradeStep P) n.trading (.confirmed now a read) := by
  unfold observe
  cases hsubject : subject a.correlation with
  | none =>
    have hstep : tradeStep P n.trading (.confirmed now a read) = .ok n.trading := by
      simp only [tradeStep, hsubject]
    exact (apply_ok hstep).symm
  | some s =>
    cases s with
    | settlement =>
      refine (apply_eq_attempt (f := .settlement) ?_).symm
      simp only [tradeStep, hsubject, NodeSteps.step]
    | dispute =>
      refine (apply_eq_attempt (f := .dispute) ?_).symm
      simp only [tradeStep, hsubject, NodeSteps.step]

theorem foldl_confirm_trading (now : Timestamp) (client : ChainClient)
    (entries : List (AwaitingConfirmation × ℕ)) (n : RelayNode) :
    (entries.foldl (confirm now client) n).trading =
      run (tradeStep P) n.trading (entries.filterMap (confirmation now client)) := by
  induction entries generalizing n with
  | nil => rfl
  | cons entry entries ih =>
    rw [List.foldl_cons, ih, List.filterMap_cons, confirm, confirmation]
    cases hstatus : client.getSignatureStatus entry.2 entry.1.signature with
    | error => rfl
    | ok status =>
      cases status with
      | none => rfl
      | some status =>
        cases status with
        | failed => rfl
        | success =>
          rw [observe_trading]
          rfl

/-- What an action does to the node: a request is queued or refused, a payload goes to the
registries, and a tick polls the chain. -/
inductive Stepped (P : RelayPlatform) (n : RelayNode) : Action → RelayNode → Prop
  | queued (action : Action) (r : PendingRelay) (hrequest : request P action = some r)
      (hsteps : tradeSteps n action = []) :
      Stepped P n action
        { n with chain := { n.chain with pendingRelay := n.chain.pendingRelay ++ [r] } }
  | refused (action : Action) (hsteps : tradeSteps n action = []) : Stepped P n action n
  | traded (input : TradeInput) :
      Stepped P n (.trade input)
        { n with trading := apply (tradeStep P) n.trading (.handled input) }
  | polled (now : Timestamp) (slot : ℕ) (client : ChainClient) :
      Stepped P n (.pollChain now slot client) (pollChain now slot client n)

theorem enqueue_ok {n' : RelayNode} {txBytes : List UInt8} {correlation : Option String}
    (h : enqueue P n txBytes correlation = .ok n') :
    n' = { n with
      chain :=
        { n.chain with pendingRelay := n.chain.pendingRelay ++ [⟨txBytes, correlation⟩] } } := by
  simp only [enqueue, ChainState.enqueueRelay, bind_ok, mapError_ok, require_ok, pure_ok,
    exists_const] at h
  obtain ⟨_, ⟨-, rfl⟩, rfl⟩ := h
  rfl

theorem step_stepped (n : RelayNode) (action : Action) :
    Stepped P n action (apply (step P) n action) := by
  cases action with
  | sendTransaction data correlation =>
    unfold apply
    split
    next n' h =>
      simp only [step, bind_ok, mapError_ok] at h
      obtain ⟨txBytes, hdecode, h⟩ := h
      rw [enqueue_ok h]
      refine .queued _ ⟨txBytes, correlation⟩ ?_ rfl
      simp only [request, hdecode]
    next => exact .refused _ rfl
  | relayRequested =>
    unfold apply
    split
    next n' h =>
      rw [enqueue_ok h]
      exact .queued _ _ rfl rfl
    next => exact .refused _ rfl
  | trade input =>
    have hstep : apply (step P) n (.trade input) =
        { n with trading := apply (tradeStep P) n.trading (.handled input) } := by
      unfold apply
      simp only [step, tradeStep]
      cases NodeSteps.step P.toNodePlatform n.trading input.input <;> rfl
    rw [hstep]
    exact .traded input
  | pollChain now slot client => exact .polled now slot client

theorem step_trading (n : RelayNode) (action : Action) :
    (apply (step P) n action).trading = run (tradeStep P) n.trading (tradeSteps n action) := by
  have hstepped := step_stepped (P := P) n action
  generalize apply (step P) n action = n' at hstepped
  cases hstepped with
  | queued _ r hrequest hsteps | refused _ hsteps => rw [hsteps, run_nil]
  | traded => rfl
  | polled now slot client => exact foldl_confirm_trading now client _ _

theorem trading_run (n : RelayNode) (actions : List Action) :
    (run (step P) n actions).trading = run (tradeStep P) n.trading (trace P n actions) := by
  induction actions generalizing n with
  | nil => rfl
  | cons action actions ih =>
    change (run (step P) (apply (step P) n action) actions).trading = _
    rw [ih, step_trading, trace, run_append]

/-- The event that a step takes: the two that only a confirmation brings come from one under the
tag of what they are about. -/
structure Takes (P : RelayPlatform) (w : Node) (e : TradeStep) (now : Timestamp) (event : Event)
    (w' : Node) : Prop where
  step : NodeSteps.step P.toNodePlatform w ⟨now, event⟩ = .ok w'
  direct : ¬ FrozenSettlements.Bypasses event
  released : ∀ id signature, event = .escrowReleased id signature → ∃ now a read,
    e = .confirmed now a read ∧ subject a.correlation = some (.settlement id) ∧
      a.signature = signature
  executed : ∀ id signature outcome, event = .onchainExecution id signature outcome →
    ∃ now a read account, e = .confirmed now a read ∧
      subject a.correlation = some (.dispute id account) ∧ a.signature = signature ∧
      account.bind read = outcome

theorem takes_of_tradeStep {w w' : Node} {e : TradeStep} (h : tradeStep P w e = .ok w') :
    w' = w ∨ ∃ now event, Takes P w e now event w' := by
  cases e with
  | handled input =>
    obtain ⟨⟨now, event⟩, hdelivered⟩ := input
    refine .inr ⟨now, event, h, fun hbypass => ?_, ?_, ?_⟩
    · cases event <;> first | exact hbypass | cases hdelivered
    · rintro id signature rfl
      cases hdelivered
    · rintro id signature outcome rfl
      cases hdelivered
  | confirmed now a read =>
    simp only [tradeStep] at h
    split at h
    next id hsubject =>
      refine .inr ⟨now, _, h, fun hbypass => hbypass, ?_, ?_⟩
      · rintro _ _ ⟨⟩
        exact ⟨now, a, read, rfl, hsubject, rfl⟩
      · rintro _ _ _ ⟨⟩
    next id account hsubject =>
      refine .inr ⟨now, _, h, fun hbypass => hbypass, ?_, ?_⟩
      · rintro _ _ ⟨⟩
      · rintro _ _ _ ⟨⟩
        exact ⟨now, a, read, account, rfl, hsubject, rfl, rfl⟩
    next => exact .inl (Except.ok.inj h).symm

/-- The same terms, and further along the table of states. -/
def Advances (s s' : Settlement) : Prop :=
  SameTerms s s' ∧ Relation.ReflTransGen (fun a b => b ∈ nextStates a) s.state s'.state

def SettlementsAdvance (w w' : Node) : Prop := ∀ id s, w.settlements.lookup id = some s →
  ∃ s', w'.settlements.lookup id = some s' ∧ Advances s s'

/-- Whatever callers, peers and the chain do, no settlement is lost, changes its terms or leaves
the table of states. -/
theorem settlements_advance (P : RelayPlatform) (n : RelayNode) (actions : List Action) :
    SettlementsAdvance n.trading (run (step P) n actions).trading := by
  intro id s hs
  rw [trading_run]
  refine run_invariant_always (I := fun w : Node => ∃ s', w.settlements.lookup id = some s' ∧
    Advances s s') ?_ ⟨s, hs, .refl s, .refl⟩ _
  rintro w e w' ⟨s₁, hs₁, hterms, hpath⟩ hstep
  rcases takes_of_tradeStep hstep with rfl | ⟨now, event, htakes⟩
  · exact ⟨s₁, hs₁, hterms, hpath⟩
  cases (step_change htakes.step).settlement id with
  | same hsame => exact ⟨s₁, hsame.trans hs₁, hterms, hpath⟩
  | initiated _ _ _ _ _ hfresh =>
    rw [hfresh] at hs₁
    cases hs₁
  | moved _ _ s₂ hmove hnew =>
    obtain rfl := Option.mem_unique hmove.found hs₁
    exact ⟨s₂, hnew, hterms.trans hmove.sameTerms, hpath.tail hmove.next⟩

/-- The step that a notice goes back to. -/
def Announces (m : ReleaseNotice) : TradeStep → Prop
  | .handled _ => False
  | .confirmed _ a _ => (∃ id, subject a.correlation = some (.settlement id)) ∧
      m.source = a.signature

variable {m : ReleaseNotice}

theorem observe_notices (hm : m ∈ (observe now read n a).notices) :
    m ∈ n.notices ∨ Announces m (.confirmed now a read) := by
  unfold observe at hm
  cases hsubject : subject a.correlation with
  | none =>
    rw [hsubject] at hm
    exact .inl hm
  | some s =>
    rw [hsubject] at hm
    cases s with
    | dispute => exact .inl hm
    | settlement id =>
      refine (List.mem_append.mp hm).imp_right fun hnew => ⟨⟨id, hsubject⟩, ?_⟩
      unfold observeEscrowRelease at hnew
      split at hnew
      · cases hnew
      · rw [List.mem_singleton.mp hnew]

theorem foldl_confirm_notices {client : ChainClient} (entries : List (AwaitingConfirmation × ℕ))
    {n : RelayNode} (hm : m ∈ (entries.foldl (confirm now client) n).notices) :
    m ∈ n.notices ∨ ∃ e ∈ entries.filterMap (confirmation now client), Announces m e := by
  induction entries generalizing n with
  | nil => exact .inl hm
  | cons entry entries ih =>
    rcases ih hm with hm | ⟨e, he, hannounces⟩
    · unfold confirm at hm
      split at hm
      next hstatus =>
        refine (observe_notices hm).imp_right fun hannounces => ⟨_, ?_, hannounces⟩
        refine List.mem_filterMap.mpr ⟨entry, List.mem_cons_self, ?_⟩
        simp only [confirmation, hstatus]
      next => exact .inl hm
      next => exact .inl hm
    · refine .inr ⟨e, ?_, hannounces⟩
      obtain ⟨entry', hentry', hconfirmation⟩ := List.mem_filterMap.mp he
      exact List.mem_filterMap.mpr ⟨entry', List.mem_cons_of_mem _ hentry', hconfirmation⟩

theorem step_notices {action : Action} (hm : m ∈ (apply (step P) n action).notices) :
    m ∈ n.notices ∨ ∃ e ∈ tradeSteps n action, Announces m e := by
  have hstepped := step_stepped (P := P) n action
  generalize apply (step P) n action = n' at hstepped hm
  cases hstepped with
  | queued | refused | traded => exact .inl hm
  | polled now slot client =>
    exact foldl_confirm_notices (n := { n with chain := submitted slot client n.chain }) _ hm

theorem notices_run (hm : m ∈ (run (step P) n actions).notices) :
    m ∈ n.notices ∨ ∃ e ∈ trace P n actions, Announces m e := by
  induction actions generalizing n with
  | nil => exact .inl hm
  | cons action actions ih =>
    rcases ih hm with hm | ⟨e, he, hannounces⟩
    · refine (step_notices hm).imp_right ?_
      rintro ⟨e, he, hannounces⟩
      exact ⟨e, List.mem_append_left _ he, hannounces⟩
    · exact .inr ⟨e, List.mem_append_right _ he, hannounces⟩

end Runs

section Provenance
variable (P : RelayPlatform) (ledger : List ChainTransaction)

/-- The client tells the truth. A transaction that an endpoint accepts is signed, so no other
transaction has its signature; and success is reported of transactions that succeeded. -/
structure Reports (client : ChainClient) : Prop where
  sent : ∀ call txBytes signature, client.sendTransaction call txBytes = .ok signature →
    ∃ tx, P.decodeTransaction txBytes = some tx ∧ tx.signature = signature ∧
      ∀ t ∈ ledger, t.signature = signature → t = tx
  succeeded : ∀ call signature,
    client.getSignatureStatus call signature = .ok (some .success) →
      ∃ t ∈ ledger, t.signature = signature

/-- A request with this tag carried the transaction that has this signature. -/
def Submitted (requested : List PendingRelay) (a : AwaitingConfirmation) : Prop :=
  ∃ r ∈ requested, r.correlation = a.correlation ∧ ∃ tx, P.decodeTransaction r.txBytes = some tx ∧
    tx.signature = a.signature ∧ ∀ t ∈ ledger, t.signature = a.signature → t = tx

/-- Both queues hold what was requested. -/
structure Queued (requested : List PendingRelay) (c : ChainState) : Prop where
  pending : ∀ r ∈ c.pendingRelay, r ∈ requested
  awaiting : ∀ a ∈ c.awaitingConfirmation, Submitted P ledger requested a

/-- Where a step of the registries comes from: a confirmation goes back to a request whose
transaction succeeded, and reads accounts through a client of the run. -/
def Sourced (requested : List PendingRelay) (clients : ChainClient → Prop) : TradeStep → Prop
  | .handled _ => True
  | .confirmed _ a read =>
    Submitted P ledger requested a ∧ (∃ t ∈ ledger, t.signature = a.signature) ∧
      ∃ client call, clients client ∧ read = readDisputeOutcome client call

variable {P ledger} {requested : List PendingRelay} {c : ChainState} {client : ChainClient}
  {n : RelayNode} {action : Action}

theorem queued_new : Queued P ledger requested ChainState.new := by
  constructor
  · intro r hr
    cases hr
  · intro a ha
    cases ha

theorem foldl_submit_queued (hclient : Reports P ledger client) (slot : ℕ)
    (entries : List (PendingRelay × ℕ)) (hentries : ∀ e ∈ entries, e.1 ∈ requested)
    (h : Queued P ledger requested c) :
    Queued P ledger requested (entries.foldl (submit slot client) c) := by
  induction entries generalizing c with
  | nil => exact h
  | cons entry entries ih =>
    refine ih (fun e he => hentries e (List.mem_cons_of_mem _ he)) ?_
    unfold submit
    split
    next signature hsent =>
      obtain ⟨tx, hdecode, hsignature, hunique⟩ := hclient.sent _ _ _ hsent
      refine ⟨h.pending, List.forall_mem_append.mpr
        ⟨h.awaiting, List.forall_mem_singleton.mpr ⟨entry.1, ?_, rfl, tx, ?_⟩⟩⟩
      · exact hentries entry List.mem_cons_self
      · exact ⟨hdecode, hsignature, hunique⟩
    next => exact h

theorem submitted_queued (hclient : Reports P ledger client) (slot : ℕ)
    (h : Queued P ledger requested c) : Queued P ledger requested (submitted slot client c) := by
  refine foldl_submit_queued hclient slot _ (fun e he => ?_) ⟨fun r hr => ?_, h.awaiting⟩
  · exact h.pending e.1 (List.fst_mem_of_mem_zipIdx he)
  · cases hr

theorem resolve_queued (h : Queued P ledger requested n.chain) (signature : String) :
    Queued P ledger requested (resolve n signature).chain :=
  ⟨h.pending, fun a ha => h.awaiting a (List.mem_of_mem_eraseP ha)⟩

theorem foldl_confirm_queued (now : Timestamp) (client : ChainClient)
    (entries : List (AwaitingConfirmation × ℕ)) (h : Queued P ledger requested n.chain) :
    Queued P ledger requested (entries.foldl (confirm now client) n).chain := by
  induction entries generalizing n with
  | nil => exact h
  | cons entry entries ih =>
    refine ih ?_
    unfold confirm
    split
    · unfold observe
      split <;> exact resolve_queued h _
    · exact resolve_queued h _
    · exact h

theorem step_queued (hrequest : ∀ r, request P action = some r → r ∈ requested)
    (htrue : ∀ now slot client, action = .pollChain now slot client → Reports P ledger client)
    (h : Queued P ledger requested n.chain) :
    Queued P ledger requested (apply (step P) n action).chain := by
  have hstepped := step_stepped (P := P) n action
  generalize apply (step P) n action = n' at hstepped
  cases hstepped with
  | queued _ r hr =>
    exact ⟨List.forall_mem_append.mpr
      ⟨h.pending, List.forall_mem_singleton.mpr (hrequest r hr)⟩, h.awaiting⟩
  | refused | traded => exact h
  | polled now slot client =>
    exact foldl_confirm_queued now client _ (submitted_queued (htrue _ _ _ rfl) slot h)

variable {clients : ChainClient → Prop}

theorem tradeSteps_sourced {e : TradeStep}
    (htrue : ∀ now slot client, action = .pollChain now slot client →
      Reports P ledger client ∧ clients client) (h : Queued P ledger requested n.chain)
    (he : e ∈ tradeSteps n action) : Sourced P ledger requested clients e := by
  cases action with
  | sendTransaction | relayRequested => cases he
  | trade =>
    rw [List.mem_singleton.mp he]
    trivial
  | pollChain now slot client =>
    obtain ⟨hclient, hmem⟩ := htrue now slot client rfl
    obtain ⟨entry, hentry, hconfirmation⟩ := List.mem_filterMap.mp he
    have hsubmitted := (submitted_queued hclient slot h).awaiting entry.1
      (List.fst_mem_of_mem_zipIdx hentry)
    unfold confirmation at hconfirmation
    split at hconfirmation
    next hstatus =>
      rw [← Option.some.inj hconfirmation]
      exact ⟨hsubmitted, hclient.succeeded _ _ hstatus, client, entry.2, hmem, rfl⟩
    next => cases hconfirmation

/-- Every step on the trace of a run is sourced, if the clients of the run tell the truth. -/
theorem trace_sourced {actions : List Action} (hrequests : ∀ r ∈ requests P actions, r ∈ requested)
    (htrue : ∀ now slot client, .pollChain now slot client ∈ actions →
      Reports P ledger client ∧ clients client) (h : Queued P ledger requested n.chain) :
    ∀ e ∈ trace P n actions, Sourced P ledger requested clients e := by
  induction actions generalizing n with
  | nil =>
    intro e he
    cases he
  | cons action actions ih =>
    intro e he
    have hhead (now : Timestamp) (slot : ℕ) (client : ChainClient)
        (haction : action = .pollChain now slot client) :
        Reports P ledger client ∧ clients client :=
      htrue now slot client (haction ▸ List.mem_cons_self)
    rcases List.mem_append.mp he with he | he
    · exact tradeSteps_sourced hhead h he
    · refine ih (fun r hr => ?_) (fun now slot client hmem => ?_) ?_ e he
      · obtain ⟨action', haction', hr⟩ := List.mem_filterMap.mp hr
        exact hrequests r (List.mem_filterMap.mpr ⟨action', List.mem_cons_of_mem _ haction', hr⟩)
      · exact htrue now slot client (List.mem_cons_of_mem _ hmem)
      · refine step_queued (fun r hr => ?_) (fun now slot client haction => ?_) h
        · exact hrequests r (List.mem_filterMap.mpr ⟨action, List.mem_cons_self, hr⟩)
        · exact (hhead now slot client haction).1

/-- The one transaction of the chain behind a confirmation, and the request that carried it. -/
theorem transaction_of_sourced (h : Sourced P ledger requested clients (.confirmed now a read)) :
    ∃ tx ∈ ledger, tx.signature = a.signature ∧ (∀ t ∈ ledger, t.signature = a.signature → t = tx) ∧
      ∃ r ∈ requested, r.correlation = a.correlation ∧ P.decodeTransaction r.txBytes = some tx := by
  obtain ⟨⟨r, hr, hcorrelation, tx, hdecode, -, hunique⟩, ⟨t, ht, hsignature⟩, -⟩ := h
  obtain rfl := hunique t ht hsignature
  exact ⟨t, ht, hsignature, hunique, r, hr, hcorrelation, hdecode⟩

end Provenance

/-- The transactions that are known by their bytes, and the texts that stand for bytes. -/
def sampleRelay (p : NodePlatform) (texts : List (String × List UInt8))
    (table : List (List UInt8 × ChainTransaction)) : RelayPlatform where
  toNodePlatform := p
  decodeBytes text :=
    match texts.lookup text with
    | some bytes => .ok bytes
    | none => .error "Invalid padding"
  decodeTransaction bytes := table.lookup bytes

/-- A client of a chain on which every transaction of the table succeeded. -/
def sampleClient (table : List (List UInt8 × ChainTransaction))
    (accounts : List (String × String × List UInt8)) : ChainClient where
  sendTransaction _ bytes :=
    match table.lookup bytes with
    | some tx => .ok tx.signature
    | none => .error .malformedTransaction
  getSignatureStatus _ signature :=
    .ok (if ∃ tx ∈ table.map Prod.snd, tx.signature = signature then some .success else none)
  getAccount _ address := .ok (accounts.lookup address)

def transfer : ChainTransaction :=
  ⟨"transfer", [⟨"11111111111111111111111111111111", [2, 0, 0, 0]⟩]⟩

def otherInitiate : SettlementInitiate :=
  { SettlementAuthority.tradeInitiate (.filled 3) with id := ⟨"settle-2"⟩ }

def otherPaid : PaymentSubmitted :=
  { SettlementAuthority.tradePaid with settlementId := ⟨"settle-2"⟩ }

def paidTrade : List Action :=
  [.trade ⟨⟨1000, .settlementInitiated
      ⟨SettlementAuthority.tradeInitiate (.filled 3), ⟨[]⟩⟩⟩, rfl⟩,
    .trade ⟨⟨2000, .paymentSubmitted ⟨SettlementAuthority.tradePaid, ⟨[]⟩⟩⟩, rfl⟩]

def otherPaidTrade : List Action :=
  [.trade ⟨⟨1000, .settlementInitiated ⟨otherInitiate, ⟨[]⟩⟩⟩, rfl⟩,
    .trade ⟨⟨2000, .paymentSubmitted ⟨otherPaid, ⟨[]⟩⟩⟩, rfl⟩]

theorem sampleClient_reports {p : NodePlatform} {texts : List (String × List UInt8)}
    {table : List (List UInt8 × ChainTransaction)} (accounts : List (String × String × List UInt8))
    (hdistinct : ∀ tx ∈ table.map Prod.snd, ∀ tx' ∈ table.map Prod.snd,
      tx.signature = tx'.signature → tx = tx') :
    Reports (sampleRelay p texts table) (table.map Prod.snd) (sampleClient table accounts) := by
  constructor
  · intro call txBytes signature h
    simp only [sampleClient] at h
    cases hlookup : table.lookup txBytes with
    | none =>
      rw [hlookup] at h
      cases h
    | some tx =>
      rw [hlookup] at h
      obtain rfl := Except.ok.inj h
      have hmem : tx ∈ table.map Prod.snd :=
        List.mem_map_of_mem (f := Prod.snd) (FrozenSettlements.mem_of_lookup hlookup)
      exact ⟨tx, hlookup, rfl, fun t ht hsame => hdistinct t ht tx hmem hsame⟩
  · intro call signature h
    simp only [sampleClient, Except.ok.injEq] at h
    split_ifs at h with hexecuted
    exact hexecuted

end OpenFiat.ChainRelay
