import OpenFiat.FrozenSettlements
import OpenFiat.SettlementReplay

/-!
# The bench of a dispute

`Bench` collects what the dispute registry keeps about the seats, the commitments and the
reveals of a dispute, and the status that follows from them. Every step keeps it. That the bench
is impartial is not part of it: the registry seats whoever signs a join while there is room, the
parties of the dispute included.
-/
namespace OpenFiat.ArbitrationBench
open GuardedResult FiniteTable NodePayloads TradingNode DisputeRegistry
open NodeSteps TransactionRuns FrozenSettlements SettlementReplay SettlementAuthority

/-- The status as a function of the three counts, the parties' agreement and the resolution. -/
def statusFrom (seats commitments reveals : ℕ) (buyerAgreed sellerAgreed : Bool)
    (resolution : Option Resolution) : DisputeStatus :=
  if resolution.isSome then .resolved
  else if buyerAgreed && sellerAgreed then .awaitingChainExecution
  else if reveals = requiredArbitrators then .awaitingChainExecution
  else if commitments = requiredArbitrators then .revealPhase
  else if seats = requiredArbitrators then .caseLocked
  else .opened

def expectedStatus (d : Dispute) : DisputeStatus :=
  statusFrom d.arbitrators.length d.commitments.length d.reveals.length
    d.buyerAgreedMutualSettlement d.sellerAgreedMutualSettlement d.resolution

structure Bench (p : NodePlatform) (d : Dispute) : Prop where
  required : d.requiredArbitrators = requiredArbitrators
  keys : d.arbitratorKeys.map Prod.fst = d.arbitrators
  distinct : d.arbitrators.Nodup
  room : d.arbitrators.length ≤ d.requiredArbitrators
  committedOnce : (d.commitments.map Prod.fst).Nodup
  committed : ∀ c ∈ d.commitments, c.1 ∈ d.arbitrators
  revealedOnce : (d.reveals.map Prod.fst).Nodup
  revealed : ∀ r ∈ d.reveals, ∃ secret, (r.1, compute p r.2 secret) ∈ d.commitments
  status : d.status = expectedStatus d

/-- The settlement is on file with the parties of the dispute. -/
def PartiesOnFile (w : Node) (d : Dispute) : Prop :=
  ∃ s, w.settlements.lookup d.settlementId = some s ∧ s.buyer = d.buyer ∧ s.seller = d.seller

/-- No arbitrator is a party of the disputed settlement. -/
def Impartial (w : Node) (d : Dispute) : Prop :=
  ∀ s, w.settlements.lookup d.settlementId = some s →
    ∀ a ∈ d.arbitrators, a ≠ s.buyer ∧ a ≠ s.seller

variable {p : NodePlatform} {w w' : Node} {d d' : Dispute} {id : DisputeId} {e : Event}

theorem nodup_map_concat {α β : Type} [BEq α] [LawfulBEq α] {l : List (α × β)} {a : α} {b : β}
    (h : (l.map Prod.fst).Nodup) (hnew : ¬ (l.any fun c => c.1 == a) = true) :
    ((l ++ [(a, b)]).map Prod.fst).Nodup := by
  rw [List.map_append]
  refine List.concat_eq_append ▸ h.concat fun hmem => ?_
  obtain ⟨c, hc, rfl⟩ := List.mem_map.mp hmem
  exact hnew (List.any_eq_true.mpr ⟨c, hc, beq_self_eq_true c.1⟩)

section Phases
variable {seats commitments reveals : ℕ} {buyerAgreed sellerAgreed : Bool}
  {resolution : Option Resolution}

theorem statusFrom_agreed {buyerAgreed' sellerAgreed' : Bool}
    (h : statusFrom seats commitments reveals buyerAgreed sellerAgreed resolution ≠ .resolved)
    (hbuyer : buyerAgreed = true → buyerAgreed' = true)
    (hseller : sellerAgreed = true → sellerAgreed' = true) :
    statusFrom seats commitments reveals buyerAgreed' sellerAgreed' resolution =
      if buyerAgreed' && sellerAgreed' then .awaitingChainExecution
      else statusFrom seats commitments reveals buyerAgreed sellerAgreed resolution := by
  have hresolution : ¬ resolution.isSome = true := fun hsome => h (if_pos hsome)
  by_cases hboth : (buyerAgreed' && sellerAgreed') = true
  · rw [if_pos hboth, statusFrom, if_neg hresolution, if_pos hboth]
  · have hbefore : ¬ (buyerAgreed && sellerAgreed) = true := by
      rw [Bool.and_eq_true_iff] at hboth ⊢
      exact fun hagreed => hboth ⟨hbuyer hagreed.1, hseller hagreed.2⟩
    rw [if_neg hboth, statusFrom, statusFrom, if_neg hresolution, if_neg hboth,
      if_neg hresolution, if_neg hbefore]

end Phases

inductive Becomes (p : NodePlatform) (e : Event) (id : DisputeId) (d : Dispute) : Dispute → Prop
  | kept : Becomes p e id d d
  | stepped {d' : Dispute} (hstep : CaseStep p e id d d') : Becomes p e id d d'
  | executed (signature : String) (outcome : Resolution) :
      Becomes p e id d (recordExecution d signature (some outcome))

theorem becomes_of_put {u : Node} {id₀ : DisputeId} {d₀ d₁ : Dispute}
    (hu : u.disputes = w.disputes) (hd₀ : w.disputes.lookup id₀ = some d₀)
    (hstep : Becomes p e id₀ d₀ d₁) (hd' : (putDispute u id₀ d₁).disputes.lookup id = some d') :
    ∃ d, w.disputes.lookup id = some d ∧ Becomes p e id d d' := by
  rw [putDispute, hu, Table.lookup_insert_eq] at hd'
  split_ifs at hd' with hid
  · subst hid
    cases hd'
    exact ⟨d₀, hd₀, hstep⟩
  · exact ⟨d', hd', .kept⟩

theorem becomes_of_step {input : Input} (h : step p w input = .ok w')
    (hd' : w'.disputes.lookup id = some d') :
    (∃ d, w.disputes.lookup id = some d ∧ Becomes p input.event id d d') ∨
      w.disputes.lookup id = none ∧ ∃ opening s,
        w.settlements.lookup opening.settlementId = some s ∧ d' = newDispute opening s := by
  by_cases hbypass : Bypasses input.event
  · rw [step_disputes_of_bypass h hbypass] at hd'
    exact .inl ⟨d', hd', .kept⟩
  cases step_case h hbypass with
  | apart hdisputes => exact .inl ⟨d', hdisputes ▸ hd', .kept⟩
  | progressed id₀ d₀ d₁ hd₀ hstep hw =>
    exact .inl (becomes_of_put rfl hd₀ (.stepped hstep) (hw ▸ hd'))
  | opened signed s _ hfresh hs _ hw =>
    rw [hw, putDispute, Table.lookup_insert_eq] at hd'
    split_ifs at hd' with hid
    · cases hd'
      exact .inr ⟨hid ▸ hfresh, signed.payload, s, hs, rfl⟩
    · exact .inl ⟨d', hd', .kept⟩
  | executed id₀ signature outcome d₀ _ hd₀ _ hw =>
    exact .inl (becomes_of_put (attempt_resolved_disputes _ w _ _ _) hd₀
      (.executed signature outcome) (hw ▸ hd'))

namespace Bench

theorem opened (opening : DisputeOpen) (s : Settlement) : Bench p (newDispute opening s) where
  required := rfl
  keys := rfl
  distinct := List.nodup_nil
  room := Nat.zero_le _
  committedOnce := List.nodup_nil
  committed := List.forall_mem_nil _
  revealedOnce := List.nodup_nil
  revealed := List.forall_mem_nil _
  status := rfl

theorem seat (h : Bench p d) {join : ArbitratorJoin} (hstatus : d.status = .opened)
    (hnew : join.arbitrator ∉ d.arbitrators)
    (hroom : d.arbitrators.length < d.requiredArbitrators) : Bench p (seatArbitrator d join) where
  __ := h
  keys := by
    change (d.arbitratorKeys ++ [_]).map Prod.fst = d.arbitrators ++ [_]
    rw [List.map_append, h.keys]
    rfl
  distinct := by
    have hconcat := h.distinct.concat hnew
    rw [List.concat_eq_append] at hconcat
    exact hconcat
  room := by
    change (d.arbitrators ++ [join.arbitrator]).length ≤ d.requiredArbitrators
    rw [List.length_append]
    exact hroom
  committed := fun c hc => List.mem_append_left _ (h.committed c hc)
  status := by
    have hphase := h.status.symm.trans hstatus
    rw [expectedStatus, statusFrom] at hphase
    split_ifs at hphase with hresolution hagreed hreveals hcommitments
    refine Eq.trans ?_ ((if_neg hresolution).trans ((if_neg hagreed).trans
      ((if_neg hreveals).trans (if_neg hcommitments)))).symm
    rw [← h.required, ← hstatus]
    rfl

theorem commit (h : Bench p d) {commit : VoteCommit} {key : PublicKey}
    (hstatus : d.status = .caseLocked) (hkey : d.arbitratorKey commit.arbitrator = some key)
    (hnew : ¬ (d.commitments.any fun c => c.1 == commit.arbitrator) = true) :
    Bench p (recordCommitment d commit) where
  __ := h
  committedOnce := nodup_map_concat h.committedOnce hnew
  committed := List.forall_mem_append.mpr
    ⟨h.committed, List.forall_mem_singleton.mpr
      (h.keys ▸ List.mem_map.mpr ⟨(_, key), mem_of_lookup hkey, rfl⟩)⟩
  revealed := by
    intro r hr
    obtain ⟨secret, hsecret⟩ := h.revealed r hr
    exact ⟨secret, List.mem_append_left _ hsecret⟩
  status := by
    have hphase := h.status.symm.trans hstatus
    rw [expectedStatus, statusFrom] at hphase
    split_ifs at hphase with hresolution hagreed hreveals hcommitments hseats
    refine Eq.trans ?_ ((if_neg hresolution).trans ((if_neg hagreed).trans
      ((if_neg hreveals).trans (if_congr Iff.rfl rfl (if_pos hseats))))).symm
    rw [← h.required, ← hstatus]
    rfl

theorem reveal (h : Bench p d) {reveal : VoteReveal} (hstatus : d.status = .revealPhase)
    (hcommitted : d.commitments.lookup reveal.arbitrator =
      some (compute p reveal.vote reveal.secret))
    (hnew : ¬ (d.reveals.any fun r => r.1 == reveal.arbitrator) = true) :
    Bench p (recordReveal d reveal) where
  __ := h
  revealedOnce := nodup_map_concat h.revealedOnce hnew
  revealed := List.forall_mem_append.mpr
    ⟨h.revealed, List.forall_mem_singleton.mpr ⟨reveal.secret, mem_of_lookup hcommitted⟩⟩
  status := by
    have hphase := h.status.symm.trans hstatus
    rw [expectedStatus, statusFrom] at hphase
    split_ifs at hphase with hresolution hagreed hreveals hcommitments
    refine Eq.trans ?_ ((if_neg hresolution).trans ((if_neg hagreed).trans
      (if_congr Iff.rfl rfl (if_pos hcommitments)))).symm
    rw [← h.required, ← hstatus]
    rfl

theorem agree (h : Bench p d) (hstatus : d.status ≠ .resolved) (byBuyer : Bool)
    (timestamp : Timestamp) : Bench p (recordAgreement d byBuyer timestamp) where
  __ := h
  status := by
    have hbuyer (hagreed : d.buyerAgreedMutualSettlement = true) :
        (d.buyerAgreedMutualSettlement || byBuyer) = true := by rw [hagreed, Bool.true_or]
    have hseller (hagreed : d.sellerAgreedMutualSettlement = true) :
        (d.sellerAgreedMutualSettlement || !byBuyer) = true := by rw [hagreed, Bool.true_or]
    have hopen : expectedStatus d ≠ .resolved := h.status ▸ hstatus
    refine Eq.trans ?_ (statusFrom_agreed hopen hbuyer hseller).symm
    change (if _ then _ else d.status) = _
    rw [h.status]
    rfl

end Bench

theorem Becomes.bench (hbecomes : Becomes p e id d d') (h : Bench p d) : Bench p d' := by
  cases hbecomes with
  | kept => exact h
  | executed => exact { h with status := rfl }
  | stepped hstep =>
    cases hstep with
    | joined signed _ _ hstatus hnew hroom => exact h.seat hstatus hnew hroom
    | committed commit key hstatus hkey hnew => exact h.commit hstatus hkey hnew
    | revealed reveal hstatus hcommitted hnew => exact h.reveal hstatus hcommitted hnew
    | agreed byBuyer timestamp hstatus => exact h.agree hstatus byBuyer timestamp
    | unread => exact { h with }

theorem Becomes.parties (hbecomes : Becomes p e id d d') :
    d'.settlementId = d.settlementId ∧ d'.buyer = d.buyer ∧ d'.seller = d.seller := by
  cases hbecomes with
  | stepped hstep =>
    have hlater := hstep.progress.later
    exact ⟨hlater.settlementId, hlater.buyer, hlater.seller⟩
  | _ => exact ⟨rfl, rfl, rfl⟩

/-- Every dispute has its bench and its settlement. -/
def Staffed (p : NodePlatform) (w : Node) : Prop :=
  ∀ id d, w.disputes.lookup id = some d → Bench p d ∧ PartiesOnFile w d

theorem staffed_empty : Staffed p emptyNode := fun _ _ h => by cases h

theorem PartiesOnFile.persists (h : PartiesOnFile w d) (hpersists : Persists w w')
    (hterms : d'.settlementId = d.settlementId ∧ d'.buyer = d.buyer ∧ d'.seller = d.seller) :
    PartiesOnFile w' d' := by
  obtain ⟨s, hs, hbuyer, hseller⟩ := h
  obtain ⟨s', hs', hsame, -⟩ := hpersists _ s hs
  refine ⟨s', hterms.1 ▸ hs', ?_, ?_⟩
  · rw [hsame.buyer, hbuyer, hterms.2.1]
  · rw [hsame.seller, hseller, hterms.2.2]

theorem step_staffed (w : Node) (input : Input) (w' : Node) (h : Staffed p w)
    (hstep : step p w input = .ok w') : Staffed p w' := by
  intro id d' hd'
  have hpersists := step_persists w input w' hstep
  rcases becomes_of_step hstep hd' with ⟨d, hd, hbecomes⟩ | ⟨-, opening, s, hs, rfl⟩
  · obtain ⟨hbench, hparties⟩ := h id d hd
    exact ⟨hbecomes.bench hbench, hparties.persists hpersists hbecomes.parties⟩
  · have hparties : PartiesOnFile w (newDispute opening s) := ⟨s, hs, rfl, rfl⟩
    exact ⟨.opened opening s, hparties.persists hpersists ⟨rfl, rfl, rfl⟩⟩

theorem run_staffed (p : NodePlatform) (inputs : List Input) :
    Staffed p (run (step p) emptyNode inputs) :=
  run_invariant_always step_staffed staffed_empty inputs

/-- The node's disputes have their benches, and no party sits on one. -/
def BenchInvariant (p : NodePlatform) (w : Node) : Prop :=
  ∀ id d, w.disputes.lookup id = some d → Bench p d ∧ Impartial w d

/-- If an arbitrator joins, then not one of the parties of the dispute. -/
def JoinsAsOutsider (t : Transition Node Input) : Prop :=
  ∀ signed, t.label.event = .arbitratorJoined signed →
    ∀ d, t.before.disputes.lookup signed.payload.disputeId = some d →
      signed.payload.arbitrator ≠ d.buyer ∧ signed.payload.arbitrator ≠ d.seller

/-- No arbitrator has the name of a party that the dispute records. -/
def Outsiders (w : Node) : Prop :=
  ∀ id d, w.disputes.lookup id = some d → ∀ a ∈ d.arbitrators, a ≠ d.buyer ∧ a ≠ d.seller

theorem Becomes.outsiders {input : Input} (hbecomes : Becomes p input.event id d d')
    (hd : w.disputes.lookup id = some d) (hjoin : JoinsAsOutsider ⟨w, input, w'⟩)
    (h : ∀ a ∈ d.arbitrators, a ≠ d.buyer ∧ a ≠ d.seller) :
    ∀ a ∈ d'.arbitrators, a ≠ d'.buyer ∧ a ≠ d'.seller := by
  cases hbecomes with
  | stepped hstep =>
    cases hstep with
    | joined signed he hid =>
      refine List.forall_mem_append.mpr ⟨h, List.forall_mem_singleton.mpr ?_⟩
      exact hjoin signed he d (hid ▸ hd)
    | _ => exact h
  | _ => exact h

theorem step_outsiders (w : Node) (input : Input) (w' : Node) (h : Outsiders w)
    (hstep : step p w input = .ok w') (hjoin : JoinsAsOutsider ⟨w, input, w'⟩) :
    Outsiders w' := by
  intro id d' hd'
  rcases becomes_of_step hstep hd' with ⟨d, hd, hbecomes⟩ | ⟨-, opening, s, -, rfl⟩
  · exact hbecomes.outsiders hd hjoin (h id d hd)
  · exact List.forall_mem_nil _

theorem seated_of_join {input : Input} {signed : Signed ArbitratorJoin}
    (hstep : step p w input = .ok w') (hevent : input.event = .arbitratorJoined signed)
    (hd : w.disputes.lookup signed.payload.disputeId = some d) :
    ∃ d', w'.disputes.lookup signed.payload.disputeId = some d' ∧
      signed.payload.arbitrator ∈ d'.arbitrators ∧ d'.buyer = d.buyer ∧ d'.seller = d.seller := by
  simp only [step, hevent, mapError_ok] at hstep
  obtain ⟨d₀, hd₀, -, ⟨hseated, rfl⟩ | ⟨-, -, rfl⟩⟩ := applyArbitratorJoin_spec hstep
  · obtain rfl : d = d₀ := Option.mem_unique hd hd₀
    exact ⟨d, hd, hseated, rfl, rfl⟩
  · obtain rfl : d = d₀ := Option.mem_unique hd hd₀
    exact ⟨_, Finmap.lookup_insert _, List.mem_append_right _ List.mem_cons_self, rfl, rfl⟩

/-- In every run the seats, commitments, reveals and statuses of the disputes fit together, and
the benches stay impartial exactly if no party joins as an arbitrator. -/
theorem arbitration_bench_iff (p : NodePlatform) (inputs : List Input) :
    Throughout (step p) (BenchInvariant p) emptyNode inputs ↔
      ∀ t ∈ transitions (step p) emptyNode inputs, JoinsAsOutsider t := by
  constructor
  · rintro h t ht signed hevent d hd
    obtain ⟨pre, post, rfl, hpre, hstep⟩ := exists_run_of_mem ht
    have hafter : run (step p) emptyNode (pre ++ [t.label]) = t.after := by
      rw [run_concat, hpre, apply_ok hstep]
    have hmid : pre ++ [t.label] <+: pre ++ t.label :: post := ⟨post, by simp⟩
    obtain ⟨d', hd', hseated, hbuyer, hseller⟩ := seated_of_join hstep hevent hd
    rw [← hafter] at hd'
    obtain ⟨-, himpartial⟩ := h _ hmid _ d' hd'
    obtain ⟨-, s, hs, hsbuyer, hsseller⟩ := run_staffed p _ _ d' hd'
    have hout := himpartial s hs _ hseated
    rwa [hsbuyer, hsseller, hbuyer, hseller] at hout
  · intro h mid hmid
    obtain ⟨post, rfl⟩ := hmid
    rw [transitions_append] at h
    have houtsiders : Outsiders (run (step p) emptyNode mid) :=
      run_invariant step_outsiders (fun _ _ hd => by cases hd) mid
        fun t ht => h t (List.mem_append_left _ ht)
    intro id d hd
    obtain ⟨hbench, s, hs, hbuyer, hseller⟩ := run_staffed p mid id d hd
    refine ⟨hbench, fun s' hs' a ha => ?_⟩
    obtain rfl : s = s' := Option.mem_unique hs hs'
    rw [hbuyer, hseller]
    exact houtsiders id d hd a ha

def partisanJoin : ArbitratorJoin := ⟨⟨"dispute-1"⟩, peer 2, .filled 2, 4800⟩

def partisanPlatform : NodePlatform :=
  signedPlatform ([(.filled 3, .disputeOpen saleDispute),
    (.filled 2, .arbitratorJoin partisanJoin)] ++ tradeSignatures (.filled 3))

def partisanSale : List Input :=
  paidInputs (.filled 3) ++ [⟨4000, .disputeOpened ⟨saleDispute, ⟨[]⟩⟩⟩,
    ⟨4800, .arbitratorJoined ⟨partisanJoin, ⟨[]⟩⟩⟩]

/-- The buyer of a disputed settlement takes a seat on its bench. -/
theorem party_joins_bench :
    ((run (step partisanPlatform) emptyNode partisanSale).disputes.lookup ⟨"dispute-1"⟩).map
        (fun d => (d.settlementId, d.arbitrators)) =
      some (⟨"settle-1"⟩, [peer 2]) ∧
    ((run (step partisanPlatform) emptyNode partisanSale).settlements.lookup
        ⟨"settle-1"⟩).map (·.buyer) = some (peer 2) := by
  decide +kernel

end OpenFiat.ArbitrationBench
