import OpenFiat.SettlementRegistry

/-!
# The dispute registry

Opening a dispute copies the parties from the settlement and freezes it. Arbitrators join
until the case is locked, commit to their votes and reveal them; the parties may agree to
settle. None of this decides the case: the only operation that records a resolution is the
one that observed the chain execute it, and it moves the settlement out of the frozen state.
-/
namespace OpenFiat.DisputeRegistry
open GuardedResult ProgramAddress NodePayloads TradingNode SettlementRegistry

section Handlers
variable (p : NodePlatform)

def verifyOpen (signed : Signed DisputeOpen) : Except DisputeError Unit :=
  p.verifyAuthor signed.payload.openerPublicKey signed.payload.opener
    (.disputeOpen signed.payload) signed.signature .unauthorized .invalidSignature

def verifyJoin (signed : Signed ArbitratorJoin) : Except DisputeError Unit :=
  p.verifyAuthor signed.payload.arbitratorPublicKey signed.payload.arbitrator
    (.arbitratorJoin signed.payload) signed.signature .unauthorized .invalidSignature

def newDispute (opening : DisputeOpen) (s : Settlement) : Dispute where
  __ := opening
  __ := s
  status := .opened
  requiredArbitrators := requiredArbitrators
  arbitrators := []
  arbitratorKeys := []
  commitments := []
  reveals := []
  resolution := none
  buyerAgreedMutualSettlement := false
  sellerAgreedMutualSettlement := false
  onchainExecutionSignature := none
  openedAt := opening.timestamp
  updatedAt := opening.timestamp

def putDispute (w : Node) (id : DisputeId) (d : Dispute) : Node :=
  { w with disputes := w.disputes.insert id d }

def applyOpen (w : Node) (signed : Signed DisputeOpen) : Except DisputeError Node := do
  let opening := signed.payload
  verifyOpen p signed
  require (w.disputes.lookup opening.id = none) .duplicateDisputeId
  let s ← load (w.settlements.lookup opening.settlementId) .settlementNotFound
  require (¬ (opening.opener ≠ s.buyer ∧ opening.opener ≠ s.seller)) .notAParty
  let w ← (applyDisputeOpened w opening.settlementId opening.timestamp).mapError
    fun _ => .invalidStateTransition
  return putDispute w opening.id (newDispute opening s)

def seatArbitrator (d : Dispute) (join : ArbitratorJoin) : Dispute :=
  let arbitrators := d.arbitrators ++ [join.arbitrator]
  { d with
    arbitrators
    arbitratorKeys := d.arbitratorKeys ++ [(join.arbitrator, join.arbitratorPublicKey)]
    status := if arbitrators.length = d.requiredArbitrators then .caseLocked else d.status
    updatedAt := join.timestamp }

def applyArbitratorJoin (w : Node) (signed : Signed ArbitratorJoin) : Except DisputeError Node := do
  let join := signed.payload
  verifyJoin p signed
  let d ← load (w.disputes.lookup join.disputeId) .disputeNotFound
  require (d.status = .opened) .invalidStateTransition
  if join.arbitrator ∈ d.arbitrators then
    return w
  else
    require (d.arbitrators.length < d.requiredArbitrators) .arbitrationFull
    return putDispute w join.disputeId (seatArbitrator d join)

def recordCommitment (d : Dispute) (commit : VoteCommit) : Dispute :=
  let commitments := d.commitments ++ [(commit.arbitrator, commit.commitment)]
  { d with
    commitments
    status := if commitments.length = d.requiredArbitrators then .revealPhase else d.status
    updatedAt := commit.timestamp }

def applyVoteCommit (w : Node) (signed : Signed VoteCommit) : Except DisputeError Node := do
  let commit := signed.payload
  let d ← load (w.disputes.lookup commit.disputeId) .disputeNotFound
  require (d.status = .caseLocked) .invalidStateTransition
  let key ← load (d.arbitratorKey commit.arbitrator) .notAnArbitrator
  require (p.verify key (.voteCommit commit) signed.signature = true) .invalidSignature
  if d.commitments.any (fun c => c.1 == commit.arbitrator) then
    return w
  else
    return putDispute w commit.disputeId (recordCommitment d commit)

def voteByte : Vote → UInt8
  | .buyerWins => 0
  | .merchantWins => 1
  | .invalid => 2

/-- The commitment to a vote under a secret. -/
def compute (vote : Vote) (secret : List UInt8) : Digest :=
  p.sha256 (voteByte vote :: secret)

/-- Reveals are recorded, not tallied. -/
def recordReveal (d : Dispute) (reveal : VoteReveal) : Dispute :=
  let reveals := d.reveals ++ [(reveal.arbitrator, reveal.vote)]
  { d with
    reveals
    status := if reveals.length = d.requiredArbitrators then .awaitingChainExecution else d.status
    updatedAt := reveal.timestamp }

def applyVoteReveal (w : Node) (signed : Signed VoteReveal) : Except DisputeError Node := do
  let reveal := signed.payload
  let d ← load (w.disputes.lookup reveal.disputeId) .disputeNotFound
  require (d.status = .revealPhase) .invalidStateTransition
  let key ← load (d.arbitratorKey reveal.arbitrator) .notAnArbitrator
  require (p.verify key (.voteReveal reveal) signed.signature = true) .invalidSignature
  let committed ← load (d.commitments.lookup reveal.arbitrator) .notAnArbitrator
  require (compute p reveal.vote reveal.secret = committed) .commitmentMismatch
  if d.reveals.any (fun r => r.1 == reveal.arbitrator) then
    return w
  else
    return putDispute w reveal.disputeId (recordReveal d reveal)

/-- The dispute after one party's agreement; with both, it waits for the chain. -/
def recordAgreement (d : Dispute) (byBuyer : Bool) (timestamp : Timestamp) : Dispute :=
  let buyerAgreed := d.buyerAgreedMutualSettlement || byBuyer
  let sellerAgreed := d.sellerAgreedMutualSettlement || !byBuyer
  { d with
    buyerAgreedMutualSettlement := buyerAgreed
    sellerAgreedMutualSettlement := sellerAgreed
    status := if buyerAgreed && sellerAgreed then .awaitingChainExecution else d.status
    updatedAt := timestamp }

def applyMutualSettlementAgree (w : Node)
    (signed : Signed MutualSettlementAgree) : Except DisputeError Node := do
  let agree := signed.payload
  let d ← load (w.disputes.lookup agree.disputeId) .disputeNotFound
  require (d.status ≠ .resolved) .invalidStateTransition
  if agree.party = d.buyer then
    require (p.verify d.buyerPublicKey (.mutualSettlementAgree agree) signed.signature = true)
      .invalidSignature
    return putDispute w agree.disputeId (recordAgreement d true agree.timestamp)
  else if agree.party = d.seller then
    require (p.verify d.sellerPublicKey (.mutualSettlementAgree agree) signed.signature = true)
      .invalidSignature
    return putDispute w agree.disputeId (recordAgreement d false agree.timestamp)
  else
    .error .notAParty

end Handlers

/-- The outcome is absent when the node saw the execution but could not read the verdict; the
dispute then stays unresolved. -/
def applyOnchainExecution (now : Timestamp) (w : Node) (id : DisputeId) (signature : String)
    (outcome : Option Resolution) : Except DisputeError Node := do
  let d ← load (w.disputes.lookup id) .disputeNotFound
  require (d.status ≠ .resolved) .invalidStateTransition
  let d := { d with onchainExecutionSignature := some signature }
  match outcome with
  | none => return putDispute w id d
  | some outcome =>
    let w := attempt w
      (applyDisputeResolved now w d.settlementId outcome.escrowVerdict signature)
    return putDispute w id { d with resolution := some outcome, status := .resolved }

variable {p : NodePlatform} {now : Timestamp} {w w' : Node}

theorem applyOpen_ok {signed : Signed DisputeOpen} (h : applyOpen p w signed = .ok w') :
    p.peerIdFromPublicKey signed.payload.openerPublicKey = some signed.payload.opener ∧
      w.disputes.lookup signed.payload.id = none ∧
      ∃ s, w.settlements.lookup signed.payload.settlementId = some s ∧
        (signed.payload.opener = s.buyer ∨ signed.payload.opener = s.seller) ∧
        s.state ≠ .cancelled ∧ s.state ≠ .disputed ∧
        w' = putDispute (putSettlement w signed.payload.settlementId
          (markDisputed s signed.payload.timestamp)) signed.payload.id
          (newDispute signed.payload s) := by
  simp only [applyOpen, verifyOpen, bind_ok, SignatureScheme.verifyAuthor_ok, require_ok, load_ok,
    pure_ok, mapError_ok, applyDisputeOpened_ok] at h
  obtain ⟨-, ⟨hkey, -⟩, -, hfresh, s, hs, -, hparty, w₁, ⟨s₀, hs₀, ⟨hcancelled, hdisputed⟩, rfl⟩,
    rfl⟩ := h
  obtain rfl : s = s₀ := Option.mem_unique hs hs₀
  refine ⟨hkey, hfresh, s, hs, ?_, hcancelled, hdisputed, rfl⟩
  by_contra hneither
  exact hparty (not_or.mp hneither)

/-- The dispute table may change and nothing else. -/
def OnlyDisputes (w w' : Node) : Prop := ∃ disputes, w' = { w with disputes }

theorem onlyDisputes_refl (w : Node) : OnlyDisputes w w := ⟨w.disputes, rfl⟩

theorem onlyDisputes_put (w : Node) (id : DisputeId) (d : Dispute) :
    OnlyDisputes w (putDispute w id d) := ⟨_, rfl⟩

theorem applyArbitratorJoin_spec {signed : Signed ArbitratorJoin}
    (h : applyArbitratorJoin p w signed = .ok w') :
    ∃ d, w.disputes.lookup signed.payload.disputeId = some d ∧ d.status = .opened ∧
      ((signed.payload.arbitrator ∈ d.arbitrators ∧ w' = w) ∨
        (signed.payload.arbitrator ∉ d.arbitrators ∧
          d.arbitrators.length < d.requiredArbitrators ∧
          w' = putDispute w signed.payload.disputeId (seatArbitrator d signed.payload))) := by
  simp only [applyArbitratorJoin, bind_ok, load_ok, require_ok] at h
  obtain ⟨-, -, d, hd, -, hstatus, h⟩ := h
  refine ⟨d, hd, hstatus, ?_⟩
  split_ifs at h with hseated
  · rw [pure_ok] at h
    exact .inl ⟨hseated, h.symm⟩
  · simp only [bind_ok, require_ok, pure_ok] at h
    obtain ⟨-, hroom, rfl⟩ := h
    exact .inr ⟨hseated, hroom, rfl⟩

theorem applyVoteCommit_spec {signed : Signed VoteCommit}
    (h : applyVoteCommit p w signed = .ok w') :
    ∃ d key, w.disputes.lookup signed.payload.disputeId = some d ∧ d.status = .caseLocked ∧
      d.arbitratorKey signed.payload.arbitrator = some key ∧
      (((d.commitments.any fun c => c.1 == signed.payload.arbitrator) = true ∧ w' = w) ∨
        (¬ (d.commitments.any fun c => c.1 == signed.payload.arbitrator) = true ∧
          w' = putDispute w signed.payload.disputeId (recordCommitment d signed.payload))) := by
  simp only [applyVoteCommit, bind_ok, load_ok, require_ok] at h
  obtain ⟨d, hd, -, hstatus, key, hkey, -, -, h⟩ := h
  refine ⟨d, key, hd, hstatus, hkey, ?_⟩
  split_ifs at h with hcommitted <;> rw [pure_ok] at h
  · exact .inl ⟨hcommitted, h.symm⟩
  · exact .inr ⟨hcommitted, h.symm⟩

theorem applyVoteReveal_spec {signed : Signed VoteReveal}
    (h : applyVoteReveal p w signed = .ok w') :
    ∃ d, w.disputes.lookup signed.payload.disputeId = some d ∧ d.status = .revealPhase ∧
      d.commitments.lookup signed.payload.arbitrator =
        some (compute p signed.payload.vote signed.payload.secret) ∧
      (((d.reveals.any fun r => r.1 == signed.payload.arbitrator) = true ∧ w' = w) ∨
        (¬ (d.reveals.any fun r => r.1 == signed.payload.arbitrator) = true ∧
          w' = putDispute w signed.payload.disputeId (recordReveal d signed.payload))) := by
  simp only [applyVoteReveal, bind_ok, load_ok, require_ok] at h
  obtain ⟨d, hd, -, hstatus, key, -, -, -, committed, hcommitted, -, rfl, h⟩ := h
  refine ⟨d, hd, hstatus, hcommitted, ?_⟩
  split_ifs at h with hrevealed <;> rw [pure_ok] at h
  · exact .inl ⟨hrevealed, h.symm⟩
  · exact .inr ⟨hrevealed, h.symm⟩

def agreeingParty (d : Dispute) (party : PeerId) : Option (PublicKey × Bool) :=
  if party = d.buyer then some (d.buyerPublicKey, true)
  else if party = d.seller then some (d.sellerPublicKey, false)
  else none

theorem applyMutualSettlementAgree_iff {signed : Signed MutualSettlementAgree} :
    applyMutualSettlementAgree p w signed = .ok w' ↔
      ∃ d, w.disputes.lookup signed.payload.disputeId = some d ∧ d.status ≠ .resolved ∧
        ∃ key byBuyer, agreeingParty d signed.payload.party = some (key, byBuyer) ∧
          p.verify key (.mutualSettlementAgree signed.payload) signed.signature = true ∧
          putDispute w signed.payload.disputeId
            (recordAgreement d byBuyer signed.payload.timestamp) = w' := by
  simp only [applyMutualSettlementAgree, bind_ok, load_ok, require_ok, exists_const]
  refine exists_congr fun d => and_congr_right fun _ => and_congr_right fun _ => ?_
  unfold agreeingParty
  split_ifs
  · simp only [bind_ok, require_ok, pure_ok, exists_const, Option.some.injEq, Prod.mk.injEq,
      and_assoc, exists_eq_left', exists_and_left]
  · simp only [bind_ok, require_ok, pure_ok, exists_const, Option.some.injEq, Prod.mk.injEq,
      and_assoc, exists_eq_left', exists_and_left]
  · simp

theorem applyArbitratorJoin_ok {signed : Signed ArbitratorJoin}
    (h : applyArbitratorJoin p w signed = .ok w') : OnlyDisputes w w' := by
  obtain ⟨d, -, -, ⟨-, rfl⟩ | ⟨-, -, rfl⟩⟩ := applyArbitratorJoin_spec h
  · exact onlyDisputes_refl w'
  · exact onlyDisputes_put w _ _

theorem applyVoteCommit_ok {signed : Signed VoteCommit}
    (h : applyVoteCommit p w signed = .ok w') : OnlyDisputes w w' := by
  obtain ⟨d, _, -, -, -, ⟨-, rfl⟩ | ⟨-, rfl⟩⟩ := applyVoteCommit_spec h
  · exact onlyDisputes_refl w'
  · exact onlyDisputes_put w _ _

theorem applyVoteReveal_ok {signed : Signed VoteReveal}
    (h : applyVoteReveal p w signed = .ok w') : OnlyDisputes w w' := by
  obtain ⟨d, -, -, -, ⟨-, rfl⟩ | ⟨-, rfl⟩⟩ := applyVoteReveal_spec h
  · exact onlyDisputes_refl w'
  · exact onlyDisputes_put w _ _

def recordExecution (d : Dispute) (signature : String) : Option Resolution → Dispute
  | none => { d with onchainExecutionSignature := some signature }
  | some outcome =>
    { d with
      onchainExecutionSignature := some signature
      resolution := some outcome
      status := .resolved }

theorem applyOnchainExecution_iff {id : DisputeId} {signature : String}
    {outcome : Option Resolution} :
    applyOnchainExecution now w id signature outcome = .ok w' ↔
      ∃ d, w.disputes.lookup id = some d ∧ d.status ≠ .resolved ∧
        putDispute (outcome.elim w fun o => attempt w
          (applyDisputeResolved now w d.settlementId o.escrowVerdict signature)) id
          (recordExecution d signature outcome) = w' := by
  simp only [applyOnchainExecution, bind_ok, load_ok, require_ok, exists_const]
  refine exists_congr fun d => and_congr_right fun _ => and_congr_right fun _ => ?_
  cases outcome with
  | none | some => exact pure_ok _ _

end OpenFiat.DisputeRegistry
