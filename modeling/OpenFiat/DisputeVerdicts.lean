import OpenFiat.CaseRecognition
import OpenFiat.ChainRelay

/-!
# Verdicts of a dispute's own case

The account of a case does not say which dispute of the trading network it belongs to; the tag
of a relay request does, and the node believes it. As long as every request under the tag of a
dispute carries an execution and names the account of the dispute's own case, the node records
what the escrow program decided in that case, and nothing else: a decided case keeps its outcome,
so the resolution depends on the history of the chain and on the settlement only.

`address` gives the address of the account of a case, and `caseFor` the case about a settlement, if
it has one.
-/
namespace OpenFiat.DisputeVerdicts
open GuardedResult FiniteTable TransactionRuns ProgramAddress EscrowAccounts ChainWorld
open NodePayloads TradingNode DisputeRegistry SettlementRegistry ChainRelay OnchainDispute
open FrozenSettlements CaseRecognition DisputeSteps ChainSteps

section Chain
variable {Q : Platform} {w₀ : World} {txs : List Instruction} {id : ℕ} {c : DisputeCase}

/-- The resolution that an outcome reads as, if it is a ruling. -/
def ruling (outcome : Option DisputeOutcome) : Option Resolution :=
  match reading outcome with
  | .ok resolution => resolution
  | .error _ => none

/-- What a case was decided as, at the end of a history of the chain. -/
def chainVerdict (Q : Platform) (w₀ : World) (txs : List ChainSteps.Instruction) (id : ℕ) :
    Option Resolution :=
  ((run (ChainSteps.step Q) w₀ txs).disputeCases.lookup id).bind fun c => ruling c.outcome

def OutcomeKept (c c' : DisputeCase) : Prop :=
  Docketed c → Docketed c' ∧ ∀ o, c.outcome = some o → c'.outcome = some o

theorem CaseStep.outcomeKept {w w' : World} {ix : Instruction} {c' : DisputeCase}
    (h : CaseStep Q w ix w' id c c') : OutcomeKept c c' := by
  intro hc
  refine ⟨CaseRecognition.CaseStep.docketed h hc, fun o ho => ?_⟩
  cases h with
  | toppedUp | committed | revealed | claimed => exact ho
  | executed _ _ _ _ hopen =>
    rw [hc.undecided hopen] at ho
    cases ho

theorem outcome_final (hg : Genesis w₀) {pre : List Instruction}
    (hpre : pre <+: txs) (hc : (run (step Q) w₀ pre).disputeCases.lookup id = some c)
    {o : DisputeOutcome} (ho : c.outcome = some o) :
    ∃ c', (run (step Q) w₀ txs).disputeCases.lookup id = some c' ∧
      c'.outcome = some o := by
  obtain ⟨rest, rfl⟩ := hpre
  rw [run_append]
  have hrefl (c : DisputeCase) : OutcomeKept c c := fun hc => ⟨hc, fun _ ho => ho⟩
  have htrans (c c' c'' : DisputeCase) (h : OutcomeKept c c') (h' : OutcomeKept c' c'') :
      OutcomeKept c c'' := by
    intro hc
    obtain ⟨hc', hkept⟩ := h hc
    obtain ⟨hc'', hkept'⟩ := h' hc'
    exact ⟨hc'', fun o ho => hkept' o (hkept o ho)⟩
  obtain ⟨c', hc', hkept⟩ := run_case_relation hrefl htrans
    (fun _ _ _ _ _ _ => CaseStep.outcomeKept) (LedgerCustody.run_custodial hg pre) rest hc
  exact ⟨c', hc', (hkept (run_docketed hg pre hc)).2 o ho⟩

end Chain

/-- The client tells the truth about accounts: under the escrow program and the discriminator of
a case stands, as it was at some moment of the history, the case of that address. -/
def ReadsTruly (Q : Platform) (w₀ : World) (txs : List ChainSteps.Instruction)
    (address : ℕ → String) (client : ChainClient) : Prop :=
  ∀ call account owner data, client.getAccount call account = .ok (some (owner, data)) →
    owner = escrowProgramId → data.take 8 = disputeCaseDiscriminator →
    ∃ pre, pre <+: txs ∧ ∃ id c, address id = account ∧
      (run (ChainSteps.step Q) w₀ pre).disputeCases.lookup id = some c ∧
      ∃ bump trailing, data = caseBytes Q bump c ++ trailing

section Reading
variable {Q : Platform} {w₀ : World} {txs : List Instruction} {address : ℕ → String}
  {client : ChainClient}

/-- A verdict that the node reads at an address is what the chain decided in the case there. -/
theorem verdict_of_read (hkeys : ∀ k, (Q.keyBytes k).length = 32) (hg : Genesis w₀)
    (hclient : ReadsTruly Q w₀ txs address client) {call : ℕ} {account : String} {r : Resolution}
    (h : readDisputeOutcome client call account = some r) :
    ∃ id, address id = account ∧ chainVerdict Q w₀ txs id = some r := by
  unfold readDisputeOutcome at h
  split at h
  next owner data haccount =>
    split at h
    next outcome hdecode =>
      subst h
      have hdecoded := hdecode
      simp only [decodeOutcome, OnchainDispute.take, bind_ok, require_ok, pure_ok, exists_const,
        List.splitAt_eq] at hdecoded
      obtain ⟨howner, _, ⟨-, rfl⟩, hdiscriminator, -⟩ := hdecoded
      obtain ⟨pre, hpre, id, c, haddress, hc, bump, trailing, hdata⟩ :=
        hclient call account owner data haccount howner hdiscriminator
      have hreading : reading c.outcome = .ok (some r) := by
        rw [← decodeOutcome_caseBytes hkeys bump (run_docketed hg pre hc).listsFit trailing,
          ← hdata, ← howner]
        exact hdecode
      obtain ⟨o, ho⟩ : ∃ o, c.outcome = some o := by
        cases houtcome : c.outcome with
        | none =>
          rw [houtcome] at hreading
          cases hreading
        | some o => exact ⟨o, rfl⟩
      obtain ⟨c', hc', ho'⟩ := outcome_final hg hpre hc ho
      refine ⟨id, haddress, ?_⟩
      rw [ho] at hreading
      rw [chainVerdict, hc', Option.bind_some, ruling, ho', hreading]
    next => cases h
  next => cases h

end Reading

def Executed (ledger : List ChainTransaction) (signature : String) : Prop :=
  ∃ tx ∈ ledger, tx.signature = signature ∧ tx.Invokes executeDisputeOutcomeDiscriminator

def CarryExecutions (P : RelayPlatform) (requested : List PendingRelay) : Prop :=
  ∀ r ∈ requested, ∀ id account, subject r.correlation = some (.dispute id account) →
    ∀ tx, P.decodeTransaction r.txBytes = some tx → tx.Invokes executeDisputeOutcomeDiscriminator

/-- The tag that is acted on names the account of the case about the dispute's settlement. -/
def NamesOwnCase (address : ℕ → String) (caseFor : SettlementId → Option ℕ)
    (t : Transition Node TradeStep) : Prop :=
  ∀ now a read id account d, t.label = .confirmed now a read →
    subject a.correlation = some (.dispute id (some account)) →
    t.before.disputes.lookup id = some d →
      ∃ k, caseFor d.settlementId = some k ∧ address k = account

/-- The step records for the dispute a resolution that it read from the account. -/
def Records (t : Transition Node TradeStep) (id : DisputeId) (account : String) : Prop :=
  ∃ r, resolutionOf t.before id ≠ some r ∧ resolutionOf t.after id = some r ∧
    ∃ now a read, t.label = .confirmed now a read ∧
      subject a.correlation = some (.dispute id (some account)) ∧ read account = some r

/-- The execution signatures on record belong to executions. -/
def RecordsExecutions (ledger : List ChainTransaction) (w : Node) : Prop :=
  ∀ id d signature, w.disputes.lookup id = some d →
    d.onchainExecutionSignature = some signature → Executed ledger signature

section Steps
variable {ledger : List ChainTransaction} {now : Timestamp} {w w' : Node} {e : Event}

theorem recordsExecutions_of_change {p : NodePlatform} (hchange : CaseChange p now w w' e)
    (hexecuted : ∀ id signature outcome, e = .onchainExecution id signature outcome →
      Executed ledger signature)
    (h : RecordsExecutions ledger w) : RecordsExecutions ledger w' := by
  have hput {u : Node} {id : DisputeId} {d : Dispute} (hu : u.disputes = w.disputes)
      (hd : ∀ signature, d.onchainExecutionSignature = some signature →
        Executed ledger signature) : RecordsExecutions ledger (putDispute u id d) := by
    intro id' d' signature hd'
    rw [putDispute, hu] at hd'
    exact Table.forall_insert (Q := fun _ d => ∀ signature,
      d.onchainExecutionSignature = some signature → Executed ledger signature)
      (fun id d hd signature => h id d signature hd) hd id' d' hd' signature
  cases hchange with
  | apart hdisputes =>
    intro id d signature hd
    exact h id d signature (hdisputes ▸ hd)
  | progressed id d d' hd hstep hw =>
    rw [hw]
    refine hput rfl fun signature hd' => ?_
    cases hstep with
    | unread _ he =>
      rw [← Option.some.inj hd']
      exact hexecuted id _ none he
    | _ => exact h id d signature hd hd'
  | opened signed s _ _ _ _ hw =>
    rw [hw]
    exact hput rfl fun signature hd' => by cases hd'
  | executed id signature outcome d he hd _ hw =>
    rw [hw]
    refine hput (attempt_resolved_disputes now w _ _ _) fun signature' hd' => ?_
    rw [← Option.some.inj hd']
    exact hexecuted id signature (some outcome) he

/-- A verdict moves the settlement that it is about, to where the verdict leads, or none. -/
theorem settlements_of_resolved (now : Timestamp) (w : Node) (id : SettlementId)
    (verdict : DisputeVerdict) (signature : String) (id' : SettlementId) :
    (attempt w (applyDisputeResolved now w id verdict signature)).settlements.lookup id' =
        w.settlements.lookup id' ∨
      id' = id ∧ ∃ s,
        (attempt w (applyDisputeResolved now w id verdict signature)).settlements.lookup id' =
          some s ∧ s.state = settledAs verdict := by
  cases h : applyDisputeResolved now w id verdict signature with
  | error => exact .inl rfl
  | ok =>
    obtain ⟨s, -, -, rfl⟩ := applyDisputeResolved_ok.mp h
    rw [NodeSteps.resolveReservation_effect]
    have hsettlements := NodeSteps.effect_settlements now w s.reservationId
      (NodeSteps.effectOf verdict)
    by_cases hid : id' = id
    · refine .inr ⟨hid, markResolved now s signature verdict, ?_, ?_⟩
      · rw [hid]
        exact Finmap.lookup_insert _
      · cases verdict <;> rfl
    · refine .inl ((Finmap.lookup_insert_of_ne _ hid).trans ?_)
      rw [hsettlements]

end Steps

section Trades
variable {P : RelayPlatform} {ledger : List ChainTransaction} {requested : List PendingRelay}
  {clients : ChainClient → Prop} {w w' : Node} {e : TradeStep}

theorem tradeStep_recordsExecutions (hcarry : CarryExecutions P requested)
    (hsourced : Sourced P ledger requested clients e) (h : RecordsExecutions ledger w)
    (hstep : tradeStep P w e = .ok w') : RecordsExecutions ledger w' := by
  obtain rfl | ⟨now, event, htakes⟩ := takes_of_tradeStep hstep
  · exact h
  refine recordsExecutions_of_change (step_case htakes.step htakes.direct) ?_ h
  intro id signature outcome hevent
  obtain ⟨now, a, read, account, rfl, hsubject, rfl, -⟩ :=
    htakes.executed id signature outcome hevent
  obtain ⟨tx, htx, hsignature, -, r, hr, hcorrelation, hdecode⟩ := transaction_of_sourced hsourced
  exact ⟨tx, htx, hsignature, hcarry r hr id account (hcorrelation ▸ hsubject) tx hdecode⟩

/-- A resolution is recorded by a confirmation under the tag of the dispute: it was read from the
account that the tag names, and it moves the dispute's settlement or none. -/
theorem recorded_of_step (hstep : tradeStep P w e = .ok w') {id : DisputeId} {r : Resolution}
    (hbefore : resolutionOf w id ≠ some r) (hafter : resolutionOf w' id = some r) :
    ∃ d account, w.disputes.lookup id = some d ∧
      (∃ now a read, e = .confirmed now a read ∧
        subject a.correlation = some (.dispute id (some account)) ∧ read account = some r) ∧
      ∀ id', w'.settlements.lookup id' = w.settlements.lookup id' ∨
        id' = d.settlementId ∧ ∃ s, w'.settlements.lookup id' = some s ∧
          s.state = settledAs r.escrowVerdict := by
  obtain rfl | ⟨now, event, htakes⟩ := takes_of_tradeStep hstep
  · exact absurd hafter hbefore
  obtain ⟨signature, d, hevent, hd, -, hw⟩ :=
    (step_case htakes.step htakes.direct).executes hbefore hafter
  obtain ⟨now', a, read, account, he, hsubject, -, hread⟩ :=
    htakes.executed id signature (some r) hevent
  obtain ⟨account, rfl, hread⟩ := Option.bind_eq_some_iff.mp hread
  refine ⟨d, account, hd, ⟨now', a, read, he, hsubject, hread⟩, fun id' => ?_⟩
  rw [hw]
  exact settlements_of_resolved now w d.settlementId r.escrowVerdict signature id'

end Trades

/-- A node with empty queues takes any sequence of calls of `sendTransaction`, gossiped relay
requests, delivered payloads and ticks; the clients of the ticks tell the truth about
transactions and accounts. Suppose that each request under the tag of a dispute carries a
transaction that invokes `execute_dispute_outcome`, and that each confirmation under such a tag
names the account of the case about the dispute's settlement. Then disputes whose resolutions
were read from one account are over one settlement; every recorded execution signature belongs
to an execution; and a resolution that a step records for a dispute is what the chain decided in
the case about its settlement, whoever asked for the relay, and moves no other settlement. -/
theorem verdicts_of_own_case (P : RelayPlatform) (ledger : List ChainTransaction) (Q : Platform)
    (hkeys : ∀ k, (Q.keyBytes k).length = 32) (w₀ : World) (hg : ChainSteps.Genesis w₀)
    (txs : List ChainSteps.Instruction) (address : ℕ → String)
    (haddress : Function.Injective address) (caseFor : SettlementId → Option ℕ)
    (hcases : ∀ s s' k, caseFor s = some k → caseFor s' = some k → s = s') (n : RelayNode)
    (hchain : n.chain = .new) (hrecorded : RecordsExecutions ledger n.trading)
    (actions : List Action)
    (htrue : ∀ now slot client, .pollChain now slot client ∈ actions →
      Reports P ledger client ∧ ReadsTruly Q w₀ txs address client)
    (hcarry : CarryExecutions P (requests P actions))
    (hown : ∀ t ∈ transitions (tradeStep P) n.trading (trace P n actions),
      NamesOwnCase address caseFor t) :
    (run (step P) n actions).trading = run (tradeStep P) n.trading (trace P n actions) ∧
    (∀ t ∈ transitions (tradeStep P) n.trading (trace P n actions),
      ∀ t' ∈ transitions (tradeStep P) n.trading (trace P n actions), ∀ id id' account d d',
        Records t id account → Records t' id' account → t.before.disputes.lookup id = some d →
        t'.before.disputes.lookup id' = some d' → d.settlementId = d'.settlementId) ∧
    RecordsExecutions ledger (run (step P) n actions).trading ∧
    ∀ t ∈ transitions (tradeStep P) n.trading (trace P n actions), ∀ id r,
      resolutionOf t.before id ≠ some r → resolutionOf t.after id = some r →
        ∃ d k, t.before.disputes.lookup id = some d ∧ caseFor d.settlementId = some k ∧
          Records t id (address k) ∧ chainVerdict Q w₀ txs k = some r ∧
          ∀ id', t.after.settlements.lookup id' = t.before.settlements.lookup id' ∨
            id' = d.settlementId ∧ ∃ s, t.after.settlements.lookup id' = some s ∧
              s.state = settledAs r.escrowVerdict := by
  have hsourced : ∀ e ∈ trace P n actions,
      Sourced P ledger (requests P actions) (ReadsTruly Q w₀ txs address) e :=
    trace_sourced (fun r hr => hr) htrue (hchain ▸ queued_new)
  refine ⟨trading_run n actions, ?_, ?_, ?_⟩
  · intro t ht t' ht' id id' account d d' hrecords hrecords' hd hd'
    obtain ⟨r, -, -, now, a, read, hlabel, hsubject, -⟩ := hrecords
    obtain ⟨r', -, -, now', a', read', hlabel', hsubject', -⟩ := hrecords'
    obtain ⟨k, hk, haccount⟩ := hown t ht now a read id account d hlabel hsubject hd
    obtain ⟨k', hk', haccount'⟩ := hown t' ht' now' a' read' id' account d' hlabel' hsubject' hd'
    obtain rfl : k = k' := haddress (haccount.trans haccount'.symm)
    exact hcases _ _ k hk hk'
  · rw [trading_run]
    refine run_invariant (G := fun t =>
      Sourced P ledger (requests P actions) (ReadsTruly Q w₀ txs address) t.label) ?_ hrecorded _
      fun t ht => hsourced t.label (label_mem_of_mem ht)
    intro w e w' h hstep hentry
    exact tradeStep_recordsExecutions hcarry hentry h hstep
  · intro t ht id r hbefore hafter
    obtain ⟨d, account, hd, ⟨now, a, read, hlabel, hsubject, hread⟩, hsettlements⟩ :=
      recorded_of_step (step_of_mem ht) hbefore hafter
    obtain ⟨k, hk, haccount⟩ := hown t ht now a read id account d hlabel hsubject hd
    have hentry := hsourced t.label (label_mem_of_mem ht)
    rw [hlabel] at hentry
    obtain ⟨-, -, client, call, hclient, hclientRead⟩ := hentry
    rw [hclientRead] at hread
    obtain ⟨k', haccount', hverdict⟩ := verdict_of_read hkeys hg hclient hread
    obtain rfl : k = k' := haddress (haccount.trans haccount'.symm)
    refine ⟨d, k, hd, hk, ⟨r, hbefore, hafter, now, a, read, hlabel, ?_, ?_⟩, hverdict,
      hsettlements⟩
    · rw [haccount]
      exact hsubject
    · rw [haccount, hclientRead]
      exact hread

namespace Tagged
open SettlementAuthority

def caseAddress (k : ℕ) : String := String.ofList (List.replicate k 'c')

theorem caseAddress_injective : Function.Injective caseAddress := by
  intro k k' h
  have hlength := congrArg List.length (String.ofList_injective h)
  simpa using hlength

def history : List ChainSteps.Instruction := ChainSteps.buyerVerdict [30, 31, 32]

/-- The account of case 7, which the first settlement is about. -/
def caseAccounts : List (String × String × List UInt8) :=
  ((run (ChainSteps.step accountPlatform) ChainSteps.emptyChain history).disputeCases.lookup
    7).toList.map fun c => (caseAddress 7, escrowProgramId, caseBytes accountPlatform 255 c)

def caseForSale (id : SettlementId) : Option ℕ := if id = ⟨"settle-1"⟩ then some 7 else none

def execution : ChainTransaction :=
  ⟨"execution", [⟨escrowProgramId, executeDisputeOutcomeDiscriminator⟩]⟩

def table : List (List UInt8 × ChainTransaction) := [([1], transfer), ([3], execution)]

def otherDispute : DisputeOpen :=
  { saleDispute with id := ⟨"dispute-2"⟩, settlementId := ⟨"settle-2"⟩ }

def platform : RelayPlatform :=
  sampleRelay (NodeSteps.signedPlatform (tradeSignatures (.filled 3) ++
      [(.filled 2, .settlementInitiate otherInitiate),
        (.filled 2, .paymentSubmitted otherPaid),
        (.filled 3, .disputeOpen saleDispute),
        (.filled 3, .disputeOpen otherDispute)]))
    [("AQ==", [1]), ("Aw==", [3])] table

def client : ChainClient := sampleClient table caseAccounts

def node : RelayNode := ⟨emptyNode, .new, []⟩

def tick : Action := .pollChain 5000 7 client

def disputedTrade : List Action :=
  paidTrade ++ [.trade ⟨⟨4000, .disputeOpened ⟨saleDispute, ⟨[]⟩⟩⟩, rfl⟩]

def otherDisputedTrade : List Action :=
  otherPaidTrade ++ [.trade ⟨⟨4000, .disputeOpened ⟨otherDispute, ⟨[]⟩⟩⟩, rfl⟩]

/-- Somebody sends a transfer twice, under the tags of both disputes and the address of case 7. -/
def transferSent : List Action :=
  disputedTrade ++ otherDisputedTrade ++
    [.sendTransaction "AQ==" (some "dispute:dispute-1:ccccccc"),
      .sendTransaction "AQ==" (some "dispute:dispute-2:ccccccc"), tick]

def executionSent : List Action :=
  disputedTrade ++ [.sendTransaction "Aw==" (some "dispute:dispute-1:ccccccc"), tick]

def recorded (actions : List Action) (id : String) : Option (Option Resolution × Option String) :=
  ((run (step platform) node actions).trading.disputes.lookup ⟨id⟩).map fun d =>
    (d.resolution, d.onchainExecutionSignature)

def settlementState (actions : List Action) (id : String) : Option SettlementState :=
  ((run (step platform) node actions).trading.settlements.lookup ⟨id⟩).map Settlement.state

theorem client_reports : Reports platform (table.map Prod.snd) client :=
  sampleClient_reports caseAccounts (by decide)

theorem client_readsTruly :
    ReadsTruly accountPlatform emptyChain history caseAddress client := by
  intro call account owner data haccount _ _
  have hmem := mem_of_lookup (Except.ok.inj haccount)
  obtain ⟨c, hc, haccount⟩ := List.mem_map.mp hmem
  cases haccount
  exact ⟨history, List.prefix_rfl, 7, c, rfl, Option.mem_toList.mp hc, 255, [],
    (List.append_nil _).symm⟩

theorem caseForSale_injective (s s' : SettlementId) (k : ℕ) (h : caseForSale s = some k)
    (h' : caseForSale s' = some k) : s = s' := by
  unfold caseForSale at h h'
  split_ifs at h h' with hs hs'
  rw [hs, hs']

theorem requests_executionSent :
    requests platform executionSent = [⟨[3], some "dispute:dispute-1:ccccccc"⟩] := rfl

theorem executionSent_true (now : Timestamp) (slot : ℕ) (client' : ChainClient)
    (h : .pollChain now slot client' ∈ executionSent) :
    Reports platform (table.map Prod.snd) client' ∧
      ReadsTruly accountPlatform emptyChain history caseAddress client' := by
  simp only [executionSent, disputedTrade, paidTrade, tick, List.cons_append, List.nil_append,
    List.mem_cons, Action.pollChain.injEq, reduceCtorEq, List.not_mem_nil, or_false, false_or] at h
  rw [h.2.2]
  exact ⟨client_reports, client_readsTruly⟩

theorem executionSent_carries : CarryExecutions platform (requests platform executionSent) := by
  intro r hr id account _ tx hdecode
  rw [List.mem_singleton.mp hr] at hdecode
  rw [← Option.some.inj hdecode]
  decide

theorem executionSent_namesOwnCase : ∀ t ∈ transitions (tradeStep platform) node.trading
    (trace platform node executionSent), NamesOwnCase caseAddress caseForSale t := by
  intro t ht now a read id account d hlabel hsubject hd
  have hsourced : ∀ e ∈ trace platform node executionSent,
      Sourced platform (table.map Prod.snd) (requests platform executionSent)
        (ReadsTruly accountPlatform emptyChain history caseAddress) e :=
    trace_sourced (fun r hr => hr) executionSent_true queued_new
  have hentry := hsourced t.label (label_mem_of_mem ht)
  rw [hlabel] at hentry
  obtain ⟨⟨r, hr, hcorrelation, -⟩, -⟩ := hentry
  rw [requests_executionSent, List.mem_singleton] at hr
  have htag : subject a.correlation = some (.dispute ⟨"dispute-1"⟩ (some (caseAddress 7))) := by
    rw [← hcorrelation, hr]
    decide +kernel
  have hpair := hsubject.symm.trans htag
  obtain ⟨rfl, rfl⟩ := hpair
  have hsettlements : ∀ t ∈ transitions (tradeStep platform) node.trading
      (trace platform node executionSent), ∀ d ∈ t.before.disputes.lookup ⟨"dispute-1"⟩,
        d.settlementId = ⟨"settle-1"⟩ := by
    decide +kernel
  refine ⟨7, ?_, rfl⟩
  rw [hsettlements t ht d hd]
  rfl

end Tagged

open Tagged

/-- A confirmed transfer decides two disputes by the case of one of them. -/
theorem foreign_case_believed :
    Reports platform (table.map Prod.snd) client ∧
    ReadsTruly accountPlatform ChainSteps.emptyChain history caseAddress client ∧
    ¬ transfer.Invokes executeDisputeOutcomeDiscriminator ∧
    recorded (disputedTrade ++ otherDisputedTrade) "dispute-2" = some (none, none) ∧
    recorded transferSent "dispute-1" = some (some .buyerWins, some "transfer") ∧
    recorded transferSent "dispute-2" = some (some .buyerWins, some "transfer") ∧
    settlementState (disputedTrade ++ otherDisputedTrade) "settle-2" = some .disputed ∧
    settlementState transferSent "settle-2" = some .completed := by
  exact ⟨client_reports, client_readsTruly, by decide, by decide +kernel, by decide +kernel,
    by decide +kernel, by decide +kernel, by decide +kernel⟩

/-- An execution under the tag of its dispute and the address of the dispute's own case. -/
theorem verdicts_of_own_case_executed :
    CarryExecutions platform (requests platform executionSent) ∧
    (∀ t ∈ transitions (tradeStep platform) node.trading (trace platform node executionSent),
      NamesOwnCase caseAddress caseForSale t) ∧
    recorded executionSent "dispute-1" = some (some .buyerWins, some "execution") ∧
    RecordsExecutions (table.map Prod.snd) (run (step platform) node executionSent).trading := by
  have hrecorded : RecordsExecutions (table.map Prod.snd) node.trading := by
    intro id d signature hd
    cases hd
  obtain ⟨-, -, hexecutions, -⟩ := verdicts_of_own_case platform (table.map Prod.snd)
    accountPlatform length_keyBytes_accountPlatform ChainSteps.emptyChain
    ChainSteps.genesis_emptyChain history caseAddress caseAddress_injective caseForSale
    caseForSale_injective node rfl hrecorded executionSent executionSent_true
    executionSent_carries executionSent_namesOwnCase
  exact ⟨executionSent_carries, executionSent_namesOwnCase, by decide +kernel, hexecutions⟩

end OpenFiat.DisputeVerdicts
