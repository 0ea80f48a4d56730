import OpenFiat.ChainRelay

/-!
# Releases that complete a settlement

The relay takes the tag of a request at its word: whatever transaction is confirmed under
`settlement:<id>` completes that settlement, and the same transaction completes another one if
it was queued under another tag as well. So what the node records is a release exactly as far as
the tags are honest. `settlements_released` assumes that of every request and derives it for
every settlement that the node completes and for every notice that it plans.
-/
namespace OpenFiat.SettlementReleases
open TransactionRuns NodePayloads TradingNode ChainRelay
open NodeSteps FrozenSettlements

def target : Subject → SettlementId ⊕ DisputeId
  | .settlement id => .inl id
  | .dispute id _ => .inr id

def Released (ledger : List ChainTransaction) (signature : String) : Prop :=
  ∃ tx ∈ ledger, tx.signature = signature ∧ tx.Invokes releaseEscrowDiscriminator

def CarryReleases (P : RelayPlatform) (requested : List PendingRelay) : Prop :=
  ∀ r ∈ requested, ∀ id, subject r.correlation = some (.settlement id) →
    ∀ tx, P.decodeTransaction r.txBytes = some tx → tx.Invokes releaseEscrowDiscriminator

/-- No transaction is requested under the tags of two settlements or disputes. -/
def SingleUse (P : RelayPlatform) (requested : List PendingRelay) : Prop :=
  ∀ r ∈ requested, ∀ r' ∈ requested, ∀ tx, P.decodeTransaction r.txBytes = some tx →
    P.decodeTransaction r'.txBytes = some tx → ∀ s s', subject r.correlation = some s →
      subject r'.correlation = some s' → target s = target s'

/-- The confirmation of the transaction takes the settlement to its end. -/
def Completes (t : Transition Node TradeStep) (id : SettlementId) (signature : String) : Prop :=
  (∀ s, t.before.settlements.lookup id = some s → s.state ≠ .completed) ∧
  (∃ s, t.after.settlements.lookup id = some s ∧ s.state = .completed) ∧
  ∃ now a read, t.label = .confirmed now a read ∧ a.signature = signature

section Steps
variable {p : NodePlatform} {now : Timestamp} {w w' : Node} {e : Event} {id : SettlementId}
  {s' : Settlement}

theorem completed_of_change (h : Change p now w e w')
    (hbefore : ∀ s, w.settlements.lookup id = some s → s.state ≠ .completed)
    (hs' : w'.settlements.lookup id = some s') (hcompleted : s'.state = .completed) :
    (∃ signature, e = .escrowReleased id signature ∧
      s'.escrowReleaseSignature = some signature) ∨
    (∃ s, w.settlements.lookup id = some s ∧ s.state = .disputed) ∧
      verdictOn w e = some (id, .escrowReleased) := by
  cases h.settlement id with
  | same hsame =>
    rw [hs'] at hsame
    exact absurd hcompleted (hbefore s' hsame.symm)
  | initiated signed he hid hkey hverify hfresh hnew =>
    rw [hs'] at hnew
    rw [Option.some.inj hnew] at hcompleted
    cases hcompleted
  | moved s effect s₁ hmove hnew =>
    obtain rfl : s₁ = s' := Option.mem_unique hnew hs'
    cases hmove with
    | released signature => exact .inl ⟨signature, rfl, rfl⟩
    | resolved _ verdict signature hs hdisputed hverdict =>
      cases verdict with
      | escrowReleased => exact .inr ⟨⟨s, hs, hdisputed⟩, hverdict⟩
      | escrowReturned => cases hcompleted
    | _ => cases hcompleted

def SameSettlement (d d' : Dispute) : Prop := d'.settlementId = d.settlementId

end Steps

variable {signature : String} {t : Transition Node TradeStep}

section Trades
variable {P : RelayPlatform} {w w' : Node} {e : TradeStep} {id : SettlementId} {now : Timestamp}
  {a : AwaitingConfirmation} {read : String → Option Resolution}

theorem evolves_trans {w₁ w₂ w₃ : Node} (h : Evolves SameSettlement w₁ w₂)
    (h' : Evolves SameSettlement w₂ w₃) : Evolves SameSettlement w₁ w₃ := by
  intro did d hd
  obtain ⟨d', hd', hsame⟩ := h did d hd
  obtain ⟨d'', hd'', hsame'⟩ := h' did d' hd'
  exact ⟨d'', hd'', hsame'.trans hsame⟩

theorem tradeStep_evolves (h : tradeStep P w e = .ok w') : Evolves SameSettlement w w' := by
  obtain rfl | ⟨now, event, htakes⟩ := takes_of_tradeStep h
  · exact fun did d hd => ⟨d, hd, rfl⟩
  · exact (step_case htakes.step htakes.direct).evolves (fun _ => rfl)
      (fun _ _ hd => hd.later.settlementId) fun _ _ _ _ _ _ => rfl

/-- Only a confirmation completes a settlement: one under its own tag, whose signature is then on
record, or one under the tag of a dispute over it. -/
theorem confirmed_of_completed {s' : Settlement} (h : tradeStep P w e = .ok w')
    (hbefore : ∀ s, w.settlements.lookup id = some s → s.state ≠ .completed)
    (hs' : w'.settlements.lookup id = some s') (hcompleted : s'.state = .completed) :
    ∃ now a read, e = .confirmed now a read ∧
      (subject a.correlation = some (.settlement id) ∧
          s'.escrowReleaseSignature = some a.signature ∨
        (∃ s, w.settlements.lookup id = some s ∧ s.state = .disputed) ∧
          ∃ did caseAccount d, subject a.correlation = some (.dispute did caseAccount) ∧
            w.disputes.lookup did = some d ∧ d.settlementId = id) := by
  obtain rfl | ⟨now, event, htakes⟩ := takes_of_tradeStep h
  · exact absurd hcompleted (hbefore s' hs')
  rcases completed_of_change (step_change htakes.step) hbefore hs' hcompleted with
    ⟨signature, hevent, hrecorded⟩ | ⟨hdisputed, hverdict⟩
  · obtain ⟨now, a, read, he, hsubject, rfl⟩ := htakes.released id signature hevent
    exact ⟨now, a, read, he, .inl ⟨hsubject, hrecorded⟩⟩
  · cases event with
    | disputeResolved => exact absurd trivial htakes.direct
    | onchainExecution did signature outcome =>
      cases outcome with
      | none => cases hverdict
      | some outcome =>
        obtain ⟨d, hd, hpair⟩ := Option.map_eq_some_iff.mp hverdict
        obtain ⟨now, a, read, account, he, hsubject, -⟩ := htakes.executed did signature outcome rfl
        exact ⟨now, a, read, he,
          .inr ⟨hdisputed, did, account, d, hsubject, hd, (Prod.mk.inj hpair).1⟩⟩
    | _ => cases hverdict

theorem subject_of_completes (hstep : tradeStep P t.before t.label = .ok t.after)
    (h : Completes t id signature) :
    ∃ now a read, t.label = .confirmed now a read ∧ a.signature = signature ∧
      (subject a.correlation = some (.settlement id) ∨
        ∃ did caseAccount d, subject a.correlation = some (.dispute did caseAccount) ∧
          t.before.disputes.lookup did = some d ∧ d.settlementId = id) := by
  obtain ⟨hbefore, ⟨s, hs, hcompleted⟩, now, a, read, hlabel, hsignature⟩ := h
  obtain ⟨now', a', read', hlabel', hcase⟩ := confirmed_of_completed hstep hbefore hs hcompleted
  rw [hlabel] at hlabel'
  obtain ⟨rfl, rfl, rfl⟩ := TradeStep.confirmed.inj hlabel'
  exact ⟨now, a, read, hlabel, hsignature, hcase.imp And.left And.right⟩

theorem settlement_of_mem {steps : List TradeStep} {did : DisputeId} {d : Dispute}
    (ht : t ∈ transitions (tradeStep P) w steps) (hd : t.before.disputes.lookup did = some d) :
    ∃ d', (run (tradeStep P) w steps).disputes.lookup did = some d' ∧
      d'.settlementId = d.settlementId := by
  obtain ⟨d₁, hd₁, hsame⟩ := tradeStep_evolves (step_of_mem ht) did d hd
  have hend : Evolves SameSettlement t.after (run (tradeStep P) w steps) :=
    relation_of_mem (R := Evolves SameSettlement) (fun _ _ d hd => ⟨d, hd, rfl⟩)
      (fun _ _ _ => evolves_trans) (fun _ _ _ => tradeStep_evolves) ht
  obtain ⟨d₂, hd₂, hsame'⟩ := hend did d₁ hd₁
  exact ⟨d₂, hd₂, hsame'.trans hsame⟩

end Trades

section Sourced
variable {P : RelayPlatform} {ledger : List ChainTransaction} {requested : List PendingRelay}
  {clients : ChainClient → Prop} {now now' : Timestamp} {a a' : AwaitingConfirmation}
  {read read' : String → Option Resolution}

variable {id : SettlementId}

theorem released_of_sourced (hcarry : CarryReleases P requested)
    (h : Sourced P ledger requested clients (.confirmed now a read))
    (hsubject : subject a.correlation = some (.settlement id)) : Released ledger a.signature := by
  obtain ⟨tx, htx, hsignature, -, r, hr, hcorrelation, hdecode⟩ := transaction_of_sourced h
  exact ⟨tx, htx, hsignature, hcarry r hr id (hcorrelation ▸ hsubject) tx hdecode⟩

theorem target_of_sourced (hsingle : SingleUse P requested)
    (h : Sourced P ledger requested clients (.confirmed now a read))
    (h' : Sourced P ledger requested clients (.confirmed now' a' read'))
    (hsame : a.signature = a'.signature) {s s' : Subject} (hs : subject a.correlation = some s)
    (hs' : subject a'.correlation = some s') : target s = target s' := by
  obtain ⟨tx, htx, hsignature, -, r, hr, hcorrelation, hdecode⟩ := transaction_of_sourced h
  obtain ⟨tx', -, -, hunique, r', hr', hcorrelation', hdecode'⟩ := transaction_of_sourced h'
  obtain rfl : tx = tx' := hunique tx htx (hsignature.trans hsame)
  exact hsingle r hr r' hr' tx hdecode hdecode' s s' (hcorrelation ▸ hs) (hcorrelation' ▸ hs')

variable {w : Node} {steps : List TradeStep}

theorem released_of_completed (hcarry : CarryReleases P requested)
    (hsourced : ∀ e ∈ steps, Sourced P ledger requested clients e)
    (ht : t ∈ transitions (tradeStep P) w steps) {s s' : Settlement}
    (hs : t.before.settlements.lookup id = some s) (happroved : s.state = .approved)
    (hs' : t.after.settlements.lookup id = some s') (hcompleted : s'.state = .completed) :
    ∃ signature, s'.escrowReleaseSignature = some signature ∧ Released ledger signature := by
  have hbefore : ∀ s₀, t.before.settlements.lookup id = some s₀ → s₀.state ≠ .completed := by
    intro s₀ hs₀
    rw [hs] at hs₀
    rw [← Option.some.inj hs₀, happroved]
    decide
  obtain ⟨now, a, read, hlabel, ⟨hsubject, hrecorded⟩ | ⟨⟨s₀, hs₀, hdisputed⟩, -⟩⟩ :=
    confirmed_of_completed (step_of_mem ht) hbefore hs' hcompleted
  · have hentry := hsourced t.label (label_mem_of_mem ht)
    rw [hlabel] at hentry
    exact ⟨a.signature, hrecorded, released_of_sourced hcarry hentry hsubject⟩
  · rw [hs] at hs₀
    rw [← Option.some.inj hs₀, happroved] at hdisputed
    cases hdisputed

theorem eq_of_completes (hsingle : SingleUse P requested)
    (hsourced : ∀ e ∈ steps, Sourced P ledger requested clients e) {t' : Transition Node TradeStep}
    (ht : t ∈ transitions (tradeStep P) w steps) (ht' : t' ∈ transitions (tradeStep P) w steps)
    {id' : SettlementId} (h : Completes t id signature) (h' : Completes t' id' signature) :
    id = id' := by
  obtain ⟨now, a, read, hlabel, hsignature, hcase⟩ := subject_of_completes (step_of_mem ht) h
  obtain ⟨now', a', read', hlabel', hsignature', hcase'⟩ :=
    subject_of_completes (step_of_mem ht') h'
  have hentry := hsourced t.label (label_mem_of_mem ht)
  have hentry' := hsourced t'.label (label_mem_of_mem ht')
  rw [hlabel] at hentry
  rw [hlabel'] at hentry'
  have htarget {s s' : Subject} (hs : subject a.correlation = some s)
      (hs' : subject a'.correlation = some s') : target s = target s' :=
    target_of_sourced hsingle hentry hentry' (hsignature.trans hsignature'.symm) hs hs'
  rcases hcase with hs | ⟨did, caseAccount, d, hs, hd, hid⟩
  · rcases hcase' with hs' | ⟨did', caseAccount', d', hs', hd', hid'⟩
    · exact Sum.inl.inj (htarget hs hs')
    · cases htarget hs hs'
  · rcases hcase' with hs' | ⟨did', caseAccount', d', hs', hd', hid'⟩
    · cases htarget hs hs'
    · -- Both confirmations are about one dispute, which is over one settlement throughout.
      obtain rfl : did = did' := Sum.inr.inj (htarget hs hs')
      obtain ⟨d₁, hd₁, hsame⟩ := settlement_of_mem ht hd
      obtain ⟨d₂, hd₂, hsame'⟩ := settlement_of_mem ht' hd'
      obtain rfl : d₁ = d₂ := Option.mem_unique hd₁ hd₂
      exact hid.symm.trans (hsame.symm.trans (hsame'.trans hid'))

end Sourced

/-- A node with empty queues and no notices takes any sequence of calls of `sendTransaction`,
gossiped relay requests, delivered payloads and ticks; the clients of the ticks tell the truth.
Suppose that each request under the tag of a settlement carries a transaction that invokes
`release_escrow`, and that no transaction is requested under the tags of two settlements or
disputes. Then every approved settlement that a step of the node completes has the signature of
a release on record, every notice that an escrow was released has the signature of a release as
its source, and no transaction completes two settlements. -/
theorem settlements_released (P : RelayPlatform) (ledger : List ChainTransaction) (n : RelayNode)
    (hchain : n.chain = .new) (hnotices : n.notices = []) (actions : List Action)
    (htrue : ∀ now slot client, .pollChain now slot client ∈ actions → Reports P ledger client)
    (hcarry : CarryReleases P (requests P actions)) (hsingle : SingleUse P (requests P actions)) :
    (run (step P) n actions).trading = run (tradeStep P) n.trading (trace P n actions) ∧
    (∀ t ∈ transitions (tradeStep P) n.trading (trace P n actions), ∀ id s s',
      t.before.settlements.lookup id = some s → s.state = .approved →
      t.after.settlements.lookup id = some s' → s'.state = .completed →
        ∃ signature, s'.escrowReleaseSignature = some signature ∧ Released ledger signature) ∧
    (∀ m ∈ (run (step P) n actions).notices, Released ledger m.source) ∧
    ∀ t ∈ transitions (tradeStep P) n.trading (trace P n actions),
      ∀ t' ∈ transitions (tradeStep P) n.trading (trace P n actions), ∀ id id' signature,
        Completes t id signature → Completes t' id' signature → id = id' := by
  have hsourced : ∀ e ∈ trace P n actions,
      Sourced P ledger (requests P actions) (fun _ => True) e :=
    trace_sourced (fun r hr => hr) (fun now slot client h => ⟨htrue now slot client h, trivial⟩)
      (hchain ▸ queued_new)
  refine ⟨trading_run n actions, ?_, ?_, ?_⟩
  · intro t ht id s s'
    exact released_of_completed hcarry hsourced ht
  · intro m hm
    rcases notices_run hm with hm | ⟨e, he, hannounces⟩
    · rw [hnotices] at hm
      cases hm
    · cases e with
      | handled => exact hannounces.elim
      | confirmed =>
        obtain ⟨⟨id, hsubject⟩, hsource⟩ := hannounces
        rw [hsource]
        exact released_of_sourced hcarry (hsourced _ he) hsubject
  · intro t ht t' ht' id id' signature
    exact eq_of_completes hsingle hsourced ht ht'

namespace Tagged
open SettlementAuthority

def release : ChainTransaction :=
  ⟨"release", [⟨OnchainDispute.escrowProgramId, releaseEscrowDiscriminator⟩]⟩

def table : List (List UInt8 × ChainTransaction) := [([1], transfer), ([2], release)]

def otherApproval : SettlementApproved := { tradeApproval with settlementId := ⟨"settle-2"⟩ }

def platform : RelayPlatform :=
  sampleRelay (signedPlatform (tradeSignatures (.filled 3) ++
      [(.filled 2, .settlementInitiate otherInitiate), (.filled 2, .paymentSubmitted otherPaid),
        (.filled 3, .settlementApproved otherApproval)]))
    [("AQ==", [1]), ("Ag==", [2])] table

def node : RelayNode := ⟨emptyNode, .new, []⟩

def tick : Action := .pollChain 5000 7 (sampleClient table [])

def approvedTrade : List Action :=
  paidTrade ++ [.trade ⟨⟨3000, .settlementApproved ⟨tradeApproval, ⟨[]⟩⟩⟩, rfl⟩]

def otherTrade : List Action :=
  otherPaidTrade ++ [.trade ⟨⟨3000, .settlementApproved ⟨otherApproval, ⟨[]⟩⟩⟩, rfl⟩]

def transferSent : List Action :=
  approvedTrade ++ [.sendTransaction "AQ==" (some "settlement:settle-1"), tick]

def releaseSentTwice : List Action :=
  approvedTrade ++ otherTrade ++
    [.relayRequested [2] (some "settlement:settle-1"),
      .relayRequested [2] (some "settlement:settle-2"), tick]

def releaseSent : List Action :=
  approvedTrade ++ [.sendTransaction "Ag==" (some "settlement:settle-1"), tick]

def outcome (actions : List Action) (id : String) : Option (SettlementState × Option String) :=
  ((run (step platform) node actions).trading.settlements.lookup ⟨id⟩).map fun s =>
    (s.state, s.escrowReleaseSignature)

theorem client_reports : Reports platform (table.map Prod.snd) (sampleClient table []) :=
  sampleClient_reports [] (by decide)

end Tagged

open Tagged

/-- A confirmed transfer completes the settlement that it is tagged with, and both parties are
told of a release; and one release completes two settlements. -/
theorem tagged_transfer_completes :
    Reports platform (table.map Prod.snd) (sampleClient table []) ∧
    ¬ transfer.Invokes releaseEscrowDiscriminator ∧
    outcome approvedTrade "settle-1" = some (.approved, none) ∧
    outcome transferSent "settle-1" = some (.completed, some "transfer") ∧
    ((run (step platform) node transferSent).notices.map ReleaseNotice.source) = ["transfer"] ∧
    outcome releaseSentTwice "settle-1" = some (.completed, some "release") ∧
    outcome releaseSentTwice "settle-2" = some (.completed, some "release") := by
  exact ⟨client_reports, by decide, by decide +kernel, by decide +kernel, by decide +kernel,
    by decide +kernel, by decide +kernel⟩

/-- A release under the tag of its settlement. -/
theorem settlements_released_tagged :
    CarryReleases platform (requests platform releaseSent) ∧
    SingleUse platform (requests platform releaseSent) ∧
    outcome releaseSent "settle-1" = some (.completed, some "release") ∧
    ∀ m ∈ (run (step platform) node releaseSent).notices,
      Released (table.map Prod.snd) m.source := by
  have htrue : ∀ now slot client, .pollChain now slot client ∈ releaseSent →
      Reports platform (table.map Prod.snd) client := by
    intro now slot client h
    simp only [releaseSent, approvedTrade, paidTrade, tick, List.cons_append, List.nil_append,
      List.mem_cons, Action.pollChain.injEq, reduceCtorEq, List.not_mem_nil, or_false,
      false_or] at h
    rw [h.2.2]
    exact client_reports
  have hcarry : CarryReleases platform (requests platform releaseSent) := by
    intro r hr id _ tx hdecode
    rw [List.mem_singleton.mp hr] at hdecode
    rw [← Option.some.inj hdecode]
    decide
  have hsingle : SingleUse platform (requests platform releaseSent) := by
    intro r hr r' hr' tx _ _ s s' hs hs'
    rw [List.mem_singleton.mp hr] at hs
    rw [List.mem_singleton.mp hr', hs] at hs'
    rw [Option.some.inj hs']
  have hresult := settlements_released platform (table.map Prod.snd) node rfl rfl releaseSent htrue
    hcarry hsingle
  exact ⟨hcarry, hsingle, by decide +kernel, hresult.2.2.1⟩

end OpenFiat.SettlementReleases
