import OpenFiat.LiquidityConservation
import OpenFiat.SettlementAuthority
import OpenFiat.TradeLimits

/-!
# Disputes and frozen settlements

Opening a dispute writes to two registries: the dispute is recorded and its settlement is
frozen. Recording the verdict writes to both again. `CaseChange` says what a step does to the
two together, and `InStep` is the invariant it keeps: the frozen settlements are exactly the
ones that an unresolved dispute names, and no two unresolved disputes name the same one.

A dispute event that is delivered again finds its work done and changes nothing. The
exception is a party's agreement to settle, which is stamped anew each time.
-/
namespace OpenFiat.FrozenSettlements
open GuardedResult FiniteTable NodePayloads TradingNode AdvertisementRegistry
open ReservationRegistry SettlementRegistry DisputeRegistry NodeSteps TransactionRuns

/-- The two parties agreed, and the case waits for the chain or is over. -/
def AgreementKept (d : Dispute) : Prop :=
  d.buyerAgreedMutualSettlement = true → d.sellerAgreedMutualSettlement = true →
    d.status = .awaitingChainExecution ∨ d.status = .resolved

/-- What was handed in stays. -/
structure Grown (d d' : Dispute) : Prop where
  arbitrators : d.arbitrators ⊆ d'.arbitrators
  commitments : d.commitments ⊆ d'.commitments
  reveals : d.reveals ⊆ d'.reveals
  buyerAgreed : d.buyerAgreedMutualSettlement = true → d'.buyerAgreedMutualSettlement = true
  sellerAgreed : d.sellerAgreedMutualSettlement = true → d'.sellerAgreedMutualSettlement = true

/-- What stays of a dispute as the case goes on. -/
structure Later (d d' : Dispute) : Prop extends Grown d d' where
  settlementId : d'.settlementId = d.settlementId
  buyer : d'.buyer = d.buyer
  buyerPublicKey : d'.buyerPublicKey = d.buyerPublicKey
  seller : d'.seller = d.seller
  sellerPublicKey : d'.sellerPublicKey = d.sellerPublicKey
  resolution : ∀ r, d.resolution = some r → d'.resolution = some r

theorem Grown.refl (d : Dispute) : Grown d d :=
  ⟨List.Subset.refl _, List.Subset.refl _, List.Subset.refl _, fun h => h, fun h => h⟩

theorem Grown.trans {d₁ d₂ d₃ : Dispute} (h : Grown d₁ d₂) (h' : Grown d₂ d₃) : Grown d₁ d₃ where
  arbitrators := List.Subset.trans h.arbitrators h'.arbitrators
  commitments := List.Subset.trans h.commitments h'.commitments
  reveals := List.Subset.trans h.reveals h'.reveals
  buyerAgreed := fun hd => h'.buyerAgreed (h.buyerAgreed hd)
  sellerAgreed := fun hd => h'.sellerAgreed (h.sellerAgreed hd)

theorem Later.refl (d : Dispute) : Later d d := ⟨.refl d, rfl, rfl, rfl, rfl, rfl, fun _ h => h⟩

theorem Later.trans {d₁ d₂ d₃ : Dispute} (h : Later d₁ d₂) (h' : Later d₂ d₃) : Later d₁ d₃ where
  toGrown := h.toGrown.trans h'.toGrown
  settlementId := h'.settlementId.trans h.settlementId
  buyer := h'.buyer.trans h.buyer
  buyerPublicKey := h'.buyerPublicKey.trans h.buyerPublicKey
  seller := h'.seller.trans h.seller
  sellerPublicKey := h'.sellerPublicKey.trans h.sellerPublicKey
  resolution := fun r hr => h'.resolution r (h.resolution r hr)

/-- A step of a case that is not decided by it. -/
structure Progress (d d' : Dispute) : Prop where
  unresolved : d.status ≠ .resolved
  still : d'.status ≠ .resolved
  resolution : d'.resolution = d.resolution
  agreement : AgreementKept d → AgreementKept d'
  later : Later d d'

/-- What a step that does not decide it does to one dispute. -/
inductive CaseStep (p : NodePlatform) (e : Event) (id : DisputeId) (d : Dispute) : Dispute → Prop
  | joined (signed : Signed ArbitratorJoin) (he : e = .arbitratorJoined signed)
      (hid : signed.payload.disputeId = id) (hstatus : d.status = .opened)
      (hnew : signed.payload.arbitrator ∉ d.arbitrators)
      (hroom : d.arbitrators.length < d.requiredArbitrators) :
      CaseStep p e id d (seatArbitrator d signed.payload)
  | committed (commit : VoteCommit) (key : PublicKey) (hstatus : d.status = .caseLocked)
      (hkey : d.arbitratorKey commit.arbitrator = some key)
      (hnew : ¬ (d.commitments.any fun c => c.1 == commit.arbitrator) = true) :
      CaseStep p e id d (recordCommitment d commit)
  | revealed (reveal : VoteReveal) (hstatus : d.status = .revealPhase)
      (hcommitted : d.commitments.lookup reveal.arbitrator =
        some (compute p reveal.vote reveal.secret))
      (hnew : ¬ (d.reveals.any fun r => r.1 == reveal.arbitrator) = true) :
      CaseStep p e id d (recordReveal d reveal)
  | agreed (byBuyer : Bool) (timestamp : Timestamp) (hstatus : d.status ≠ .resolved) :
      CaseStep p e id d (recordAgreement d byBuyer timestamp)
  | unread (signature : String) (he : e = .onchainExecution id signature none)
      (hstatus : d.status ≠ .resolved) : CaseStep p e id d (recordExecution d signature none)

variable {d d' : Dispute} {input : Input} {did : DisputeId}

/-- Before the chain's turn the parties have not both agreed. -/
theorem progress_of_phase (hwaiting : d.status ≠ .awaitingChainExecution)
    (hresolved : d.status ≠ .resolved) (hstill : d'.status ≠ .resolved)
    (hresolution : d'.resolution = d.resolution)
    (hbuyer : d'.buyerAgreedMutualSettlement = d.buyerAgreedMutualSettlement)
    (hseller : d'.sellerAgreedMutualSettlement = d.sellerAgreedMutualSettlement)
    (hlater : Later d d') : Progress d d' where
  unresolved := hresolved
  still := hstill
  resolution := hresolution
  agreement h hb hs := ((h (hbuyer ▸ hb) (hseller ▸ hs)).elim hwaiting hresolved).elim
  later := hlater

theorem CaseStep.progress {p : NodePlatform} {e : Event} {id : DisputeId}
    (h : CaseStep p e id d d') : Progress d d' := by
  have hlater := Later.refl d
  cases h with
  | joined _ _ _ hstatus =>
    refine progress_of_phase (by simp [hstatus]) (by simp [hstatus]) ?_ rfl rfl rfl
      { hlater with arbitrators := List.subset_append_left _ _ }
    simp only [seatArbitrator, hstatus]
    split_ifs <;> decide
  | committed _ _ hstatus =>
    refine progress_of_phase (by simp [hstatus]) (by simp [hstatus]) ?_ rfl rfl rfl
      { hlater with commitments := List.subset_append_left _ _ }
    simp only [recordCommitment, hstatus]
    split_ifs <;> decide
  | revealed _ hstatus =>
    refine progress_of_phase (by simp [hstatus]) (by simp [hstatus]) ?_ rfl rfl rfl
      { hlater with reveals := List.subset_append_left _ _ }
    simp only [recordReveal, hstatus]
    split_ifs <;> decide
  | agreed byBuyer timestamp hstatus =>
    refine ⟨hstatus, ?_, rfl, fun _ hbuyer hseller => ?_, { hlater with
      buyerAgreed := fun h => by simp [recordAgreement, h]
      sellerAgreed := fun h => by simp [recordAgreement, h] }⟩
    · simp only [recordAgreement]
      split_ifs
      · decide
      · exact hstatus
    · exact .inl (if_pos (Bool.and_eq_true_iff.mpr ⟨hbuyer, hseller⟩))
  | unread _ _ hstatus => exact ⟨hstatus, hstatus, rfl, fun h => h, { hlater with }⟩

def Frozen (w : Node) (id : SettlementId) : Prop :=
  ∃ s ∈ w.settlements.lookup id, s.state = .disputed

instance (w : Node) (id : SettlementId) : Decidable (Frozen w id) :=
  inferInstanceAs (Decidable (∃ s ∈ w.settlements.lookup id, _))

/-- The settlement registry is told of a verdict without the dispute registry. No code does
this: the only caller is the operation that records the chain's execution. -/
def Bypasses : Event → Prop
  | .disputeResolved _ _ _ => True
  | _ => False

/-- What a step does to the disputes, and which settlements it freezes or frees. -/
inductive CaseChange (p : NodePlatform) (now : Timestamp) (w w' : Node) (e : Event) : Prop where
  | apart (hdisputes : w'.disputes = w.disputes) (hfrozen : ∀ id, Frozen w' id ↔ Frozen w id)
  | progressed (id : DisputeId) (d d' : Dispute) (hd : w.disputes.lookup id = some d)
      (hstep : CaseStep p e id d d') (hw : w' = putDispute w id d')
  | opened (signed : Signed DisputeOpen) (s : Settlement) (he : e = .disputeOpened signed)
      (hfresh : w.disputes.lookup signed.payload.id = none)
      (hs : w.settlements.lookup signed.payload.settlementId = some s)
      (hstate : s.state ≠ .disputed)
      (hw : w' = putDispute (putSettlement w signed.payload.settlementId
        (markDisputed s signed.payload.timestamp)) signed.payload.id (newDispute signed.payload s))
  | executed (id : DisputeId) (signature : String) (outcome : Resolution) (d : Dispute)
      (he : e = .onchainExecution id signature (some outcome))
      (hd : w.disputes.lookup id = some d) (hstatus : d.status ≠ .resolved)
      (hw : w' = putDispute (attempt w
          (applyDisputeResolved now w d.settlementId outcome.escrowVerdict signature)) id
        (recordExecution d signature (some outcome)))

variable {p : NodePlatform} {now : Timestamp} {w w' : Node} {e : Event}

theorem frozen_iff_of_change (h : Change p now w e w')
    (hopen : ∀ signed, e ≠ .disputeOpened signed) (hverdict : verdictOn w e = none)
    (id : SettlementId) : Frozen w' id ↔ Frozen w id := by
  cases h.settlement id with
  | same hsame => rw [Frozen, Frozen, hsame]
  | initiated signed _ _ _ _ hfresh hnew =>
    simp [Frozen, hfresh, hnew, newSettlement]
  | moved s effect s' hmove hnew =>
    have hs := hmove.found
    suffices hboth : s.state ≠ .disputed ∧ s'.state ≠ .disputed by
      simp [Frozen, hs, hnew, hboth.1, hboth.2]
    cases hmove with
    | submitted signed hid hacts => simp [hacts.state, markSubmitted]
    | reversed signed hid hacts => simp [hacts.state, markReversed]
    | approved signed hid hacts => simp [hacts.state, markApproved]
    | rejected signed hid hacts => simp [hacts.state, markRejected]
    | cancelled signed hid hacts => simp [hacts.state, markCancelled]
    | released signature hs hstate => simp [hstate, markReleased]
    | disputed signed => exact absurd rfl (hopen signed)
    | resolved _ verdict signature hs hstate hon =>
      rw [hverdict] at hon
      cases hon

theorem expireStale_disputes (now : Timestamp) (w : Node) (window : ℕ) :
    (expireStale now window w).1.disputes = w.disputes := by
  refine expireStale_rule (P := fun w' => w'.disputes = w.disputes) ?_ rfl
  rintro w₀ w₁ id r h - - - hrelease
  obtain ⟨_, _, -, rfl, -⟩ := releaseLiquidity_ok hrelease
  exact h

theorem step_disputes (h : step p w input = .ok w')
    (hopen : ∀ signed, input.event ≠ .disputeOpened signed)
    (harbitration : ¬ IsArbitration input.event) : w'.disputes = w.disputes := by
  obtain ⟨now, event⟩ := input
  cases step_change h with
  | withdrawn signed r =>
    cases hrelease : releaseLiquidity now w r.advertisementId r.amount with
    | error => rfl
    | ok =>
      obtain ⟨_, _, -, rfl, -⟩ := releaseLiquidity_ok hrelease
      rfl
  | initiated => exact attempt_transition_disputes now w _ _ _
  | moved _ _ _ _ _ _ _ hdisputes =>
    obtain hsame | ⟨signed, he⟩ | he := hdisputes
    · exact hsame
    · exact absurd he (hopen signed)
    · exact absurd he harbitration
  | arbitrated _ _ he => exact absurd he harbitration
  | swept window => exact expireStale_disputes now w window
  | _ => rfl

theorem step_disputes_of_bypass (h : step p w input = .ok w') (hbypass : Bypasses input.event) :
    w'.disputes = w.disputes := by
  obtain ⟨now, event⟩ := input
  cases event <;> try exact absurd hbypass not_false
  exact step_disputes h (fun _ hne => by cases hne) not_false

theorem verdictOn_eq_none (w : Node) (harbitration : ¬ IsArbitration e) (hdirect : ¬ Bypasses e) :
    verdictOn w e = none := by
  cases e <;> first | rfl | exact absurd trivial hdirect | exact absurd trivial harbitration

theorem step_case (h : step p w input = .ok w') (hdirect : ¬ Bypasses input.event) :
    CaseChange p input.now w w' input.event := by
  by_cases hopen : ∃ signed, input.event = .disputeOpened signed
  · obtain ⟨signed, hsigned⟩ := hopen
    simp only [step, hsigned, mapError_ok] at h
    obtain ⟨-, hfresh, s, hs, -, -, hstate, rfl⟩ := applyOpen_ok h
    exact .opened signed s hsigned hfresh hs hstate rfl
  by_cases harbitration : IsArbitration input.event
  · obtain ⟨now, event⟩ := input
    cases event <;> simp only [step, mapError_ok] at h
    case arbitratorJoined signed =>
      obtain ⟨d, hd, hstatus, ⟨-, rfl⟩ | ⟨hnew, hroom, rfl⟩⟩ := applyArbitratorJoin_spec h
      · exact .apart rfl fun _ => Iff.rfl
      · exact .progressed _ d _ hd (.joined signed rfl rfl hstatus hnew hroom) rfl
    case voteCommitted signed =>
      obtain ⟨d, key, hd, hstatus, hkey, ⟨-, rfl⟩ | ⟨hnew, rfl⟩⟩ := applyVoteCommit_spec h
      · exact .apart rfl fun _ => Iff.rfl
      · exact .progressed _ d _ hd (.committed _ key hstatus hkey hnew) rfl
    case voteRevealed signed =>
      obtain ⟨d, hd, hstatus, hcommitted, ⟨-, rfl⟩ | ⟨hnew, rfl⟩⟩ := applyVoteReveal_spec h
      · exact .apart rfl fun _ => Iff.rfl
      · exact .progressed _ d _ hd (.revealed _ hstatus hcommitted hnew) rfl
    case mutualSettlementAgreed signed =>
      obtain ⟨d, hd, hstatus, _, byBuyer, -, -, rfl⟩ := applyMutualSettlementAgree_iff.mp h
      exact .progressed _ d _ hd (.agreed byBuyer _ hstatus) rfl
    case onchainExecution id signature outcome =>
      obtain ⟨d, hd, hstatus, rfl⟩ := applyOnchainExecution_iff.mp h
      cases outcome with
      | none => exact .progressed id d _ hd (.unread signature rfl hstatus) rfl
      | some o => exact .executed id signature o d rfl hd hstatus rfl
    all_goals exact absurd harbitration not_false
  · have hnot : ∀ signed, input.event ≠ .disputeOpened signed := not_exists.mp hopen
    exact .apart (step_disputes h hnot harbitration)
      (frozen_iff_of_change (step_change h) hnot (verdictOn_eq_none w harbitration hdirect))

def Pending (w : Node) (did : DisputeId) (id : SettlementId) : Prop :=
  ∃ d ∈ w.disputes.lookup did, d.settlementId = id ∧ d.resolution = none

/-- A dispute has a resolution exactly when its status says so. -/
structure Sound (d : Dispute) : Prop where
  resolved_iff : d.status = .resolved ↔ d.resolution ≠ none
  agreement : AgreementKept d

structure InStep (w : Node) : Prop where
  sound : ∀ did d, w.disputes.lookup did = some d → Sound d
  frozen_iff : ∀ id, Frozen w id ↔ ∃ did, Pending w did id
  unique : ∀ id did did', Pending w did id → Pending w did' id → did = did'

theorem Sound.unresolved (h : Sound d) (hstatus : d.status ≠ .resolved) : d.resolution = none := by
  by_contra hresolution
  exact hstatus (h.resolved_iff.mpr hresolution)

theorem Progress.sound (h : Progress d d') (hd : Sound d) : Sound d' where
  resolved_iff := by
    rw [h.resolution, hd.unresolved h.unresolved]
    exact ⟨fun hstatus => absurd hstatus h.still, fun hne => absurd rfl hne⟩
  agreement := h.agreement hd.agreement

section Writes
variable {did : DisputeId} {id : SettlementId} {d : Dispute} {s : Settlement}

theorem pending_put {did' : DisputeId} :
    Pending (putDispute w did d) did' id ↔
      (did' = did ∧ d.settlementId = id ∧ d.resolution = none) ∨
        (did' ≠ did ∧ Pending w did' id) := by
  by_cases hdid : did' = did
  · subst hdid
    simp [Pending, putDispute, Finmap.lookup_insert]
  · simp [Pending, putDispute, Finmap.lookup_insert_of_ne _ hdid, hdid]

theorem frozen_put (w : Node) (id : SettlementId) (s : Settlement) (id' : SettlementId) :
    Frozen (putSettlement w id s) id' ↔
      (id' = id ∧ s.state = .disputed) ∨ (id' ≠ id ∧ Frozen w id') := by
  by_cases hid : id' = id
  · subst hid
    simp [Frozen, putSettlement, Finmap.lookup_insert]
  · simp [Frozen, putSettlement, Finmap.lookup_insert_of_ne _ hid, hid]

theorem attempt_resolved (now : Timestamp) (verdict : DisputeVerdict) (signature : String)
    (hs : w.settlements.lookup id = some s) (hstate : s.state = .disputed) :
    ∃ reservations, attempt w (applyDisputeResolved now w id verdict signature) =
      { putSettlement w id (markResolved now s signature verdict) with reservations } := by
  have hok : applyDisputeResolved now w id verdict signature = .ok _ :=
    applyDisputeResolved_ok.mpr ⟨s, hs, hstate, rfl⟩
  rw [hok, resolveReservation_effect]
  obtain ⟨reservations, hframe⟩ := effect_frame now w s.reservationId (effectOf verdict)
  refine ⟨reservations, ?_⟩
  rw [hframe]
  rfl

end Writes

theorem inStep_empty : InStep emptyNode where
  sound := fun did d h => by cases h
  frozen_iff := by
    intro id
    constructor
    · rintro ⟨s, hs, -⟩
      cases hs
    · rintro ⟨did, d, hd, -⟩
      cases hd
  unique := by
    rintro id did did' ⟨d, hd, -⟩
    cases hd

theorem InStep.frozen (h : InStep w) (hd : w.disputes.lookup did = some d)
    (hstatus : d.status ≠ .resolved) : Frozen w d.settlementId :=
  (h.frozen_iff _).mpr ⟨did, d, hd, rfl, (h.sound did d hd).unresolved hstatus⟩

theorem pending_functional {id id' : SettlementId} (h : Pending w did id) (h' : Pending w did id') :
    id = id' := by
  obtain ⟨d, hd, rfl, -⟩ := h
  obtain ⟨d', hd', rfl, -⟩ := h'
  rw [Option.mem_unique hd hd']

/-! A change of the two registries keeps the invariant if the same pairs of a dispute and a
settlement are pending, if one pair is added whose settlement was free, or if one is removed. -/

section Pairs
variable {did₀ : DisputeId} {id₀ : SettlementId} (h : InStep w)
  (hsound : ∀ did d, w'.disputes.lookup did = some d → Sound d)
include h hsound

theorem InStep.of_same
    (hfrozen : ∀ id, Frozen w' id ↔ Frozen w id)
    (hpending : ∀ did id, Pending w' did id ↔ Pending w did id) : InStep w' where
  sound := hsound
  frozen_iff := by
    intro id
    simp only [hfrozen, hpending, h.frozen_iff]
  unique := by
    intro id did did'
    simp only [hpending]
    exact h.unique id did did'

theorem InStep.of_added (did₀ : DisputeId) (hfree : ¬ Frozen w id₀)
    (hfrozen : ∀ id, Frozen w' id ↔ id = id₀ ∨ Frozen w id)
    (hpending : ∀ did id, Pending w' did id ↔ (did = did₀ ∧ id = id₀) ∨ Pending w did id) :
    InStep w' where
  sound := hsound
  frozen_iff := by
    intro id
    rw [hfrozen, h.frozen_iff]
    simp only [hpending, exists_or]
    simp
  unique := by
    have hnew (did : DisputeId) : ¬ Pending w did id₀ :=
      fun hcase => hfree ((h.frozen_iff id₀).mpr ⟨did, hcase⟩)
    intro id did₁ did₂
    rw [hpending, hpending]
    rintro (⟨rfl, rfl⟩ | h₁) (⟨rfl, hid⟩ | h₂)
    · rfl
    · exact absurd h₂ (hnew did₂)
    · exact absurd (hid ▸ h₁) (hnew did₁)
    · exact h.unique id did₁ did₂ h₁ h₂

theorem InStep.of_removed (hcase : Pending w did₀ id₀)
    (hfrozen : ∀ id, Frozen w' id ↔ id ≠ id₀ ∧ Frozen w id)
    (hpending : ∀ did id, Pending w' did id ↔ did ≠ did₀ ∧ Pending w did id) : InStep w' where
  sound := hsound
  frozen_iff := by
    intro id
    rw [hfrozen, h.frozen_iff]
    simp only [hpending]
    constructor
    · rintro ⟨hid, did, hother⟩
      refine ⟨did, ?_, hother⟩
      rintro rfl
      exact hid (pending_functional hother hcase)
    · rintro ⟨did, hdid, hother⟩
      refine ⟨?_, did, hother⟩
      rintro rfl
      exact hdid (h.unique id did did₀ hother hcase)
  unique := by
    intro id did₁ did₂
    rw [hpending, hpending]
    rintro ⟨-, h₁⟩ ⟨-, h₂⟩
    exact h.unique id did₁ did₂ h₁ h₂

end Pairs

theorem CaseChange.inStep (hchange : CaseChange p now w w' e) (h : InStep w) : InStep w' := by
  cases hchange with
  | apart hdisputes hfrozen =>
    refine h.of_same (fun did d hd => h.sound did d (hdisputes ▸ hd)) hfrozen fun did id => ?_
    rw [Pending, Pending, hdisputes]
  | progressed did d d' hd hstep hw =>
    have hprogress := hstep.progress
    have hsound := hprogress.sound (h.sound did d hd)
    subst hw
    refine h.of_same (Table.forall_insert h.sound hsound) (fun _ => Iff.rfl) fun did' id => ?_
    rw [pending_put, hprogress.later.settlementId, hprogress.resolution]
    by_cases hdid : did' = did
    · subst hdid
      simp [Pending, hd]
    · simp [hdid]
  | opened signed s he hfresh hs hstate hw =>
    have hfree : ¬ Frozen w signed.payload.settlementId := by
      rintro ⟨s₀, hs₀, hdisputed⟩
      rw [Option.mem_def, hs, Option.some.injEq] at hs₀
      exact hstate (hs₀ ▸ hdisputed)
    have hunused (id : SettlementId) : ¬ Pending w signed.payload.id id := by
      rintro ⟨d, hd, -⟩
      rw [hfresh] at hd
      cases hd
    subst hw
    refine h.of_added
      (Table.forall_insert h.sound ⟨by simp [newDispute], by simp [AgreementKept, newDispute]⟩)
      signed.payload.id hfree (fun id => ?_) fun did id => ?_
    · have hdisputed : (markDisputed s signed.payload.timestamp).state = .disputed := rfl
      refine (frozen_put w _ (markDisputed s signed.payload.timestamp) id).trans ?_
      by_cases hid : id = signed.payload.settlementId <;> simp [hid, hdisputed]
    · rw [pending_put]
      change (_ ∧ signed.payload.settlementId = id ∧ none = none) ∨ _ ∧ Pending w did id ↔ _
      by_cases hdid : did = signed.payload.id
      · subst hdid
        simp [hunused, eq_comm]
      · simp [hdid]
  | executed did signature outcome d he hd hstatus hw =>
    obtain ⟨s, hs, hstate⟩ := h.frozen hd hstatus
    have hcase : Pending w did d.settlementId :=
      ⟨d, hd, rfl, (h.sound did d hd).unresolved hstatus⟩
    obtain ⟨reservations, hresolved⟩ := attempt_resolved now outcome.escrowVerdict signature hs
      hstate
    rw [hresolved] at hw
    subst hw
    refine h.of_removed
      (Table.forall_insert h.sound ⟨by simp [recordExecution], fun _ _ => .inr rfl⟩) hcase
      (fun id => ?_) fun did' id => ?_
    · refine (frozen_put w d.settlementId
        (markResolved now s signature outcome.escrowVerdict) id).trans ?_
      cases outcome.escrowVerdict <;> simp [markResolved]
    · rw [pending_put]
      change (_ ∧ _ ∧ some outcome = none) ∨ _ ∧ Pending w did' id ↔ _
      simp

/-- Disputes stay, and each is related to what becomes of it. -/
def Evolves (R : Dispute → Dispute → Prop) (w w' : Node) : Prop :=
  ∀ did d, w.disputes.lookup did = some d → ∃ d', w'.disputes.lookup did = some d' ∧ R d d'

theorem evolves_put {R : Dispute → Dispute → Prop} (hrefl : ∀ d, R d d)
    (hd : w.disputes.lookup did = some d) (h : R d d')
    (hdisputes : w'.disputes = w.disputes.insert did d') : Evolves R w w' := by
  intro did' d₀ hd₀
  rw [hdisputes]
  by_cases hdid : did' = did
  · subst hdid
    obtain rfl : d = d₀ := Option.mem_unique hd hd₀
    exact ⟨d', Finmap.lookup_insert _, h⟩
  · exact ⟨d₀, (Finmap.lookup_insert_of_ne _ hdid).trans hd₀, hrefl d₀⟩

theorem attempt_resolved_disputes (now : Timestamp) (w : Node) (id : SettlementId)
    (verdict : DisputeVerdict) (signature : String) :
    (attempt w (applyDisputeResolved now w id verdict signature)).disputes = w.disputes := by
  cases h : applyDisputeResolved now w id verdict signature with
  | error => rfl
  | ok =>
    obtain ⟨s, -, -, rfl⟩ := applyDisputeResolved_ok.mp h
    rw [resolveReservation_effect]
    exact effect_disputes now w s.reservationId (effectOf verdict)

/-- What a dispute keeps when its case goes on and when it is decided, it keeps in every step. -/
theorem CaseChange.evolves {R : Dispute → Dispute → Prop} (hrefl : ∀ d, R d d)
    (hprogress : ∀ d d', Progress d d' → R d d')
    (hexecuted : ∀ did d signature outcome, w.disputes.lookup did = some d →
      d.status ≠ .resolved → R d (recordExecution d signature (some outcome)))
    (hchange : CaseChange p now w w' e) : Evolves R w w' := by
  cases hchange with
  | apart hdisputes => exact fun did d hd => ⟨d, hdisputes ▸ hd, hrefl d⟩
  | progressed did d d' hd hstep hw =>
    exact evolves_put hrefl hd (hprogress d d' hstep.progress) (congrArg Node.disputes hw)
  | opened signed s he hfresh hs hstate hw =>
    intro did d hd
    have hne : did ≠ signed.payload.id := Table.ne_of_lookup hd hfresh
    refine ⟨d, ?_, hrefl d⟩
    rw [hw]
    exact (Finmap.lookup_insert_of_ne _ hne).trans hd
  | executed did signature outcome d he hd hstatus hw =>
    refine evolves_put hrefl hd (hexecuted did d signature outcome hd hstatus) ?_
    rw [hw, putDispute, attempt_resolved_disputes]

theorem CaseChange.continues (hchange : CaseChange p now w w' e) (h : InStep w) :
    Evolves Later w w' := by
  refine hchange.evolves Later.refl (fun _ _ => Progress.later) ?_
  intro did d signature outcome hd hstatus
  refine { Later.refl d with resolution := fun r hr => ?_ }
  rw [(h.sound did d hd).unresolved hstatus] at hr
  cases hr

def resolutionOf (w : Node) (did : DisputeId) : Option Resolution :=
  (w.disputes.lookup did).bind Dispute.resolution

def settledAs : DisputeVerdict → SettlementState
  | .escrowReleased => .completed
  | .escrowReturned => .cancelled

/-- The step from `w` to `w'` takes the settlement of the dispute from the frozen state to
the one that the resolution stands for. -/
def Settles (w w' : Node) (did : DisputeId) (r : Resolution) : Prop :=
  ∃ d s s', w'.disputes.lookup did = some d ∧ w.settlements.lookup d.settlementId = some s ∧
    w'.settlements.lookup d.settlementId = some s' ∧ s.state = .disputed ∧
    s'.state = settledAs r.escrowVerdict

/-- A resolution is recorded by the chain's execution. -/
theorem CaseChange.executes (hchange : CaseChange p now w w' e) {r : Resolution}
    (hbefore : resolutionOf w did ≠ some r) (hafter : resolutionOf w' did = some r) :
    ∃ signature d, e = .onchainExecution did signature (some r) ∧
      w.disputes.lookup did = some d ∧ d.status ≠ .resolved ∧
      w' = putDispute (attempt w
          (applyDisputeResolved now w d.settlementId r.escrowVerdict signature)) did
        (recordExecution d signature (some r)) := by
  cases hchange with
  | apart hdisputes =>
    rw [resolutionOf, hdisputes] at hafter
    exact absurd hafter hbefore
  | progressed did₀ d d' hd hstep hw =>
    refine absurd ?_ hbefore
    rw [hw] at hafter
    by_cases hdid : did = did₀
    · subst hdid
      simpa [resolutionOf, putDispute, hd, hstep.progress.resolution] using hafter
    · simpa only [resolutionOf, putDispute, Finmap.lookup_insert_of_ne _ hdid] using hafter
  | opened signed s he hfresh hs hstate hw =>
    refine absurd ?_ hbefore
    rw [hw] at hafter
    by_cases hdid : did = signed.payload.id
    · subst hdid
      simp [resolutionOf, putDispute, newDispute] at hafter
    · simpa [resolutionOf, putDispute, putSettlement,
        Finmap.lookup_insert_of_ne _ hdid] using hafter
  | executed did₀ signature outcome d he hd hstatus hw =>
    by_cases hdid : did = did₀
    · subst hdid
      rw [hw] at hafter
      simp only [resolutionOf, putDispute, Finmap.lookup_insert, Option.bind_some,
        recordExecution, Option.some.injEq] at hafter
      subst hafter
      exact ⟨signature, d, he, hd, hstatus, hw⟩
    · refine absurd ?_ hbefore
      rw [hw] at hafter
      simpa [resolutionOf, putDispute, Finmap.lookup_insert_of_ne _ hdid,
        attempt_resolved_disputes] using hafter

theorem CaseChange.settles (hchange : CaseChange p now w w' e) (h : InStep w) {r : Resolution}
    (hbefore : resolutionOf w did ≠ some r) (hafter : resolutionOf w' did = some r) :
    Settles w w' did r := by
  obtain ⟨signature, d, -, hd, hstatus, hw⟩ := hchange.executes hbefore hafter
  obtain ⟨s, hs, hstate⟩ := h.frozen hd hstatus
  obtain ⟨reservations, hresolved⟩ := attempt_resolved now r.escrowVerdict signature hs hstate
  rw [hresolved] at hw
  refine ⟨recordExecution d signature (some r), s,
    markResolved now s signature r.escrowVerdict, ?_, hs, ?_, hstate, ?_⟩
  · rw [hw]
    exact Finmap.lookup_insert _
  · rw [hw]
    exact Finmap.lookup_insert _
  · cases r.escrowVerdict <;> rfl

def IsDisputeEvent : Event → Prop
  | .disputeOpened _ | .arbitratorJoined _ | .voteCommitted _ | .voteRevealed _
  | .mutualSettlementAgreed _ => True
  | _ => False

def Same (w w' : Node) : Prop := w'.settlements = w.settlements ∧ w'.disputes = w.disputes

/-- An agreement on a case that is not over and was last stamped with another time. -/
def Restamps (w : Node) : Event → Prop
  | .mutualSettlementAgreed signed => ∃ d ∈ w.disputes.lookup signed.payload.disputeId,
    d.status ≠ .resolved ∧ d.updatedAt ≠ signed.payload.timestamp
  | _ => False

def disputeOf : Event → Option DisputeId
  | .disputeOpened signed => some signed.payload.id
  | .arbitratorJoined signed => some signed.payload.disputeId
  | .voteCommitted signed => some signed.payload.disputeId
  | .voteRevealed signed => some signed.payload.disputeId
  | .mutualSettlementAgreed signed => some signed.payload.disputeId
  | _ => none

/-- What an accepted dispute event leaves in the record. -/
def Marks (p : NodePlatform) (d : Dispute) : Event → Prop
  | .arbitratorJoined signed => signed.payload.arbitrator ∈ d.arbitrators
  | .voteCommitted signed =>
    (d.commitments.any fun c => c.1 == signed.payload.arbitrator) = true
  | .voteRevealed signed => (d.reveals.any fun r => r.1 == signed.payload.arbitrator) = true
  | .mutualSettlementAgreed signed =>
    ∃ key byBuyer, agreeingParty d signed.payload.party = some (key, byBuyer) ∧
      p.verify key (.mutualSettlementAgree signed.payload) signed.signature = true ∧
      (byBuyer = true → d.buyerAgreedMutualSettlement = true) ∧
      (byBuyer = false → d.sellerAgreedMutualSettlement = true)
  | _ => True

def Marked (p : NodePlatform) (w : Node) (e : Event) : Prop :=
  ∃ id ∈ disputeOf e, ∃ d, w.disputes.lookup id = some d ∧ Marks p d e

theorem marked_of_step (hevent : IsDisputeEvent e) (h : step p w ⟨now, e⟩ = .ok w') :
    Marked p w' e := by
  cases e <;> simp only [step, mapError_ok] at h
  case disputeOpened signed =>
    obtain ⟨-, -, s, -, -, -, -, rfl⟩ := applyOpen_ok h
    exact ⟨_, rfl, _, Finmap.lookup_insert _, trivial⟩
  case arbitratorJoined signed =>
    obtain ⟨d, hd, -, ⟨hseated, rfl⟩ | ⟨-, -, rfl⟩⟩ := applyArbitratorJoin_spec h
    · exact ⟨_, rfl, d, hd, hseated⟩
    · exact ⟨_, rfl, _, Finmap.lookup_insert _, by simp [Marks, seatArbitrator]⟩
  case voteCommitted signed =>
    obtain ⟨d, _, hd, -, -, ⟨hcommitted, rfl⟩ | ⟨-, rfl⟩⟩ := applyVoteCommit_spec h
    · exact ⟨_, rfl, d, hd, hcommitted⟩
    · exact ⟨_, rfl, _, Finmap.lookup_insert _, by simp [Marks, recordCommitment]⟩
  case voteRevealed signed =>
    obtain ⟨d, hd, -, -, ⟨hrevealed, rfl⟩ | ⟨-, rfl⟩⟩ := applyVoteReveal_spec h
    · exact ⟨_, rfl, d, hd, hrevealed⟩
    · exact ⟨_, rfl, _, Finmap.lookup_insert _, by simp [Marks, recordReveal]⟩
  case mutualSettlementAgreed signed =>
    obtain ⟨d, hd, hstatus, key, byBuyer, hparty, hverify, rfl⟩ :=
      applyMutualSettlementAgree_iff.mp h
    refine ⟨_, rfl, _, Finmap.lookup_insert _, key, byBuyer, hparty, hverify, ?_, ?_⟩
    · rintro rfl
      simp [recordAgreement]
    · rintro rfl
      simp [recordAgreement]
  all_goals exact hevent.elim

theorem mem_of_lookup {α β : Type} [BEq α] [LawfulBEq α] {l : List (α × β)} {a : α} {b : β}
    (h : l.lookup a = some b) : (a, b) ∈ l := by
  obtain ⟨l₁, l₂, rfl, -⟩ := List.lookup_eq_some_iff.mp h
  exact List.mem_append_right _ List.mem_cons_self

theorem any_of_subset {α : Type} {l l' : List α} {q : α → Bool} (h : l ⊆ l')
    (hany : l.any q = true) : l'.any q = true := by
  obtain ⟨a, ha, hq⟩ := List.any_eq_true.mp hany
  exact List.any_eq_true.mpr ⟨a, h ha, hq⟩

theorem Marked.mono (h : Marked p w e) (hcontinues : Evolves Later w w') : Marked p w' e := by
  obtain ⟨id, hid, d, hd, hmarks⟩ := h
  obtain ⟨d', hd', hlater⟩ := hcontinues id d hd
  refine ⟨id, hid, d', hd', ?_⟩
  cases e with
  | arbitratorJoined => exact hlater.arbitrators hmarks
  | voteCommitted => exact any_of_subset hlater.commitments hmarks
  | voteRevealed => exact any_of_subset hlater.reveals hmarks
  | mutualSettlementAgreed =>
    obtain ⟨key, byBuyer, hparty, hverify, hbuyer, hseller⟩ := hmarks
    simp only [agreeingParty, ← hlater.buyer, ← hlater.buyerPublicKey, ← hlater.seller,
      ← hlater.sellerPublicKey] at hparty
    exact ⟨key, byBuyer, hparty, hverify,
      fun hb => hlater.buyerAgreed (hbuyer hb), fun hs => hlater.sellerAgreed (hseller hs)⟩
  | _ => trivial

theorem recordAgreement_again {byBuyer : Bool} (hagreement : AgreementKept d)
    (hstatus : d.status ≠ .resolved)
    (hbuyer : byBuyer = true → d.buyerAgreedMutualSettlement = true)
    (hseller : byBuyer = false → d.sellerAgreedMutualSettlement = true) (timestamp : Timestamp) :
    recordAgreement d byBuyer timestamp = { d with updatedAt := timestamp } := by
  have hb : (d.buyerAgreedMutualSettlement || byBuyer) = d.buyerAgreedMutualSettlement := by
    cases byBuyer with
    | true => simp [hbuyer rfl]
    | false => simp
  have hs : (d.sellerAgreedMutualSettlement || !byBuyer) = d.sellerAgreedMutualSettlement := by
    cases byBuyer with
    | true => simp
    | false => simp [hseller rfl]
  have hwaits : (if (d.buyerAgreedMutualSettlement && d.sellerAgreedMutualSettlement) = true
      then DisputeStatus.awaitingChainExecution else d.status) = d.status := by
    split_ifs with hboth
    · obtain ⟨hfirst, hsecond⟩ := Bool.and_eq_true_iff.mp hboth
      rcases hagreement hfirst hsecond with hwaiting | hresolved
      · exact hwaiting.symm
      · exact absurd hresolved hstatus
    · rfl
  simp only [recordAgreement, hb, hs, hwaits]

theorem same_of_unchanged (h : ∀ w', step p w input = .ok w' → w' = w) :
    Same w (apply (step p) w input) := by
  cases hstep : step p w input with
  | error =>
    rw [apply_error hstep]
    exact ⟨rfl, rfl⟩
  | ok w' =>
    rw [apply_ok hstep, h w' hstep]
    exact ⟨rfl, rfl⟩

/-- Apart from agreements, an event whose mark is in the record does nothing. -/
theorem Marked.unchanged (h : Marked p w e) (hagree : ∀ signed, e ≠ .mutualSettlementAgreed signed)
    (hok : step p w ⟨now, e⟩ = .ok w') : w' = w := by
  obtain ⟨id, hid, d, hd, hmarks⟩ := h
  have hfound {d' : Dispute} (hd' : w.disputes.lookup id = some d') : d = d' :=
    Option.mem_unique hd hd'
  cases e <;> cases hid <;> simp only [step, mapError_ok] at hok
  case disputeOpened signed =>
    obtain ⟨-, hfresh, -⟩ := applyOpen_ok hok
    rw [hfresh] at hd
    cases hd
  case arbitratorJoined signed =>
    obtain ⟨d', hd', -, ⟨-, hsame⟩ | ⟨hnew, -⟩⟩ := applyArbitratorJoin_spec hok
    · exact hsame
    · exact absurd (hfound hd' ▸ hmarks) hnew
  case voteCommitted signed =>
    obtain ⟨d', _, hd', -, -, ⟨-, hsame⟩ | ⟨hnew, -⟩⟩ := applyVoteCommit_spec hok
    · exact hsame
    · exact absurd (hfound hd' ▸ hmarks) hnew
  case voteRevealed signed =>
    obtain ⟨d', hd', -, -, ⟨-, hsame⟩ | ⟨hnew, -⟩⟩ := applyVoteReveal_spec hok
    · exact hsame
    · exact absurd (hfound hd' ▸ hmarks) hnew
  case mutualSettlementAgreed signed => exact absurd rfl (hagree signed)

/-- A dispute event whose mark is in the record changes nothing, unless it is stamped anew. -/
theorem Marked.same_iff (h : Marked p w e) (hstep : InStep w) (now : Timestamp) :
    Same w (apply (step p) w ⟨now, e⟩) ↔ ¬ Restamps w e := by
  by_cases hagree : ∃ signed, e = .mutualSettlementAgreed signed
  · obtain ⟨signed, rfl⟩ := hagree
    obtain ⟨_, ⟨⟩, d, hd, key, byBuyer, hparty, hverify, hbuyer, hseller⟩ := h
    have hrestamps : Restamps w (.mutualSettlementAgreed signed) ↔
        d.status ≠ .resolved ∧ d.updatedAt ≠ signed.payload.timestamp := by
      simp [Restamps, hd]
    by_cases hstatus : d.status = .resolved
    · refine ⟨fun _ h => (hrestamps.mp h).1 hstatus, fun _ => same_of_unchanged fun w' hok => ?_⟩
      simp only [step, mapError_ok] at hok
      obtain ⟨d', hd', hunresolved, -⟩ := applyMutualSettlementAgree_iff.mp hok
      rw [← Option.mem_unique hd hd'] at hunresolved
      exact absurd hstatus hunresolved
    · have hok : step p w ⟨now, .mutualSettlementAgreed signed⟩ = .ok _ :=
        (mapError_ok ..).mpr (applyMutualSettlementAgree_iff.mpr
          ⟨d, hd, hstatus, key, byBuyer, hparty, hverify, rfl⟩)
      have hagain := recordAgreement_again (hstep.sound _ d hd).agreement hstatus hbuyer hseller
        signed.payload.timestamp
      rw [apply_ok hok, hrestamps, hagain]
      constructor
      · rintro ⟨-, hdisputes⟩ ⟨-, hne⟩
        have hsame := congrArg (·.lookup signed.payload.disputeId) hdisputes
        simp only [putDispute, Finmap.lookup_insert, hd, Option.some.injEq] at hsame
        exact hne (congrArg Dispute.updatedAt hsame).symm
      · intro hnot
        have heq : d.updatedAt = signed.payload.timestamp := by
          by_contra hne
          exact hnot ⟨hstatus, hne⟩
        refine ⟨rfl, ?_⟩
        rw [← heq]
        exact Table.insert_lookup hd
  · have hnot := not_exists.mp hagree
    refine iff_of_true (same_of_unchanged fun w' => h.unchanged hnot) fun hrestamps => ?_
    cases e <;> first | exact hrestamps | exact hnot _ rfl

section Runs
variable {inputs : List Input} (hdirect : ∀ input ∈ inputs, ¬ Bypasses input.event)
include hdirect

variable {t : Transition Node Input} {w : Node}

theorem not_bypasses (ht : t ∈ transitions (step p) w inputs) : ¬ Bypasses t.label.event :=
  hdirect t.label (label_mem_of_mem ht)

theorem run_inStep (h : InStep w) : InStep (run (step p) w inputs) :=
  run_invariant (G := fun t => ¬ Bypasses t.label.event)
    (fun _ _ _ h hstep hG => (step_case hstep hG).inStep h) h inputs
    fun _ ht => not_bypasses hdirect ht

theorem run_continues (h : InStep w) : Evolves Later w (run (step p) w inputs) := by
  refine (run_invariant (G := fun t => ¬ Bypasses t.label.event)
    (I := fun w' => InStep w' ∧ Evolves Later w w') ?_ ⟨h, fun _ d hd => ⟨d, hd, Later.refl d⟩⟩
    inputs fun _ ht => not_bypasses hdirect ht).2
  rintro w₁ input w₂ ⟨h₁, hcontinues⟩ hstep hG
  have hcase := step_case hstep hG
  refine ⟨hcase.inStep h₁, fun did d hd => ?_⟩
  obtain ⟨d₁, hd₁, hlater₁⟩ := hcontinues did d hd
  obtain ⟨d₂, hd₂, hlater₂⟩ := hcase.continues h₁ did d₁ hd₁
  exact ⟨d₂, hd₂, hlater₁.trans hlater₂⟩

theorem transition_inStep (ht : t ∈ transitions (step p) emptyNode inputs) :
    InStep t.before ∧ CaseChange p t.label.now t.before t.after t.label.event := by
  obtain ⟨hbefore, hstep⟩ := invariant_of_mem (G := fun t => ¬ Bypasses t.label.event)
    (fun _ _ _ h hstep hG => (step_case hstep hG).inStep h) inStep_empty
    (fun _ ht => not_bypasses hdirect ht) ht
  exact ⟨hbefore, step_case hstep (not_bypasses hdirect ht)⟩

theorem run_marked (ht : t ∈ transitions (step p) emptyNode inputs)
    (hevent : IsDisputeEvent t.label.event) :
    Marked p (run (step p) emptyNode inputs) t.label.event := by
  obtain ⟨hbefore, hcase⟩ := transition_inStep hdirect ht
  obtain ⟨pre, post, rfl, hpre, hstep⟩ := exists_run_of_mem ht
  have hpost : ∀ input ∈ post, ¬ Bypasses input.event := fun input hinput =>
    hdirect input (List.mem_append_right _ (List.mem_cons_of_mem _ hinput))
  have hrest := run_continues (p := p) hpost (hcase.inStep hbefore)
  rw [run_append, hpre, run_cons_ok hstep]
  exact (marked_of_step hevent hstep).mono hrest

end Runs

/-- In every run in which verdicts reach the settlements through the dispute registry: the
frozen settlements are the ones that exactly one unresolved dispute names, no settlement is
named by two, a resolution stays, recording it settles the settlement, and a refused event
changes neither registry. An accepted dispute event that is delivered again changes neither
registry either, except exactly when it is an agreement to settle on an open case whose last
time stamp is another one. -/
theorem disputes_in_step (p : NodePlatform) (inputs : List Input)
    (hdirect : ∀ input ∈ inputs, ¬ Bypasses input.event) :
    (∀ id, Frozen (run (step p) emptyNode inputs) id ↔
      ∃! did, Pending (run (step p) emptyNode inputs) did id) ∧
    (∀ id did did', Pending (run (step p) emptyNode inputs) did id →
      Pending (run (step p) emptyNode inputs) did' id → did = did') ∧
    (∀ t ∈ transitions (step p) emptyNode inputs,
      (∀ did r, resolutionOf t.before did = some r → resolutionOf t.after did = some r) ∧
      (∀ did r, resolutionOf t.before did ≠ some r → resolutionOf t.after did = some r →
        Settles t.before t.after did r) ∧
      (IsDisputeEvent t.label.event → ∀ now,
        (Same (run (step p) emptyNode inputs)
            (apply (step p) (run (step p) emptyNode inputs) ⟨now, t.label.event⟩) ↔
          ¬ Restamps (run (step p) emptyNode inputs) t.label.event))) ∧
    ∀ input err, step p (run (step p) emptyNode inputs) input = .error err →
      Same (run (step p) emptyNode inputs)
        (apply (step p) (run (step p) emptyNode inputs) input) := by
  have hend := run_inStep (p := p) hdirect inStep_empty
  refine ⟨fun id => ?_, hend.unique, fun t ht => ?_, fun input err hrefused => ?_⟩
  · rw [hend.frozen_iff]
    constructor
    · rintro ⟨did, hpending⟩
      exact ⟨did, hpending, fun did' hpending' => hend.unique id did' did hpending' hpending⟩
    · rintro ⟨did, hpending, -⟩
      exact ⟨did, hpending⟩
  · obtain ⟨hbefore, hcase⟩ := transition_inStep hdirect ht
    refine ⟨fun did r hr => ?_, fun did r => hcase.settles hbefore, fun hevent now => ?_⟩
    · obtain ⟨d, hd, hresolution⟩ := Option.bind_eq_some_iff.mp hr
      obtain ⟨d', hd', hlater⟩ := hcase.continues hbefore did d hd
      exact Option.bind_eq_some_iff.mpr ⟨d', hd', hlater.resolution r hresolution⟩
    · exact (run_marked hdirect ht hevent).same_iff hend now
  · rw [apply_error hrefused]
    exact ⟨rfl, rfl⟩

/-! A sale is disputed by the seller, the buyer agrees to settle, and an arbitrator joins. -/

section Trade
open SettlementAuthority

def saleAgreement : MutualSettlementAgree := ⟨⟨"dispute-1"⟩, peer 2, 4500⟩

def saleJoin : ArbitratorJoin := ⟨⟨"dispute-1"⟩, peer 5, .filled 5, 4800⟩

def disputePlatform : NodePlatform :=
  signedPlatform ([(.filled 3, .disputeOpen saleDispute),
    (.filled 2, .mutualSettlementAgree saleAgreement),
    (.filled 5, .arbitratorJoin saleJoin)] ++ tradeSignatures (.filled 3))

def agreementInput : Input := ⟨4500, .mutualSettlementAgreed ⟨saleAgreement, ⟨[]⟩⟩⟩

def agreedSale : List Input :=
  paidInputs (.filled 3) ++ [⟨4000, .disputeOpened ⟨saleDispute, ⟨[]⟩⟩⟩] ++ [agreementInput]

def joinInput : Input := ⟨4800, .arbitratorJoined ⟨saleJoin, ⟨[]⟩⟩⟩

def arbitratedSale : List Input := agreedSale ++ [joinInput]

def decidedSale : List Input :=
  arbitratedSale ++ [⟨6000, .onchainExecution ⟨"dispute-1"⟩ "execution" (some .buyerWins)⟩]

theorem disputes_in_step_sale :
    (∃! did, Pending (run (step disputePlatform) emptyNode arbitratedSale) did ⟨"settle-1"⟩) ∧
    ¬ (∃ did, Pending (run (step disputePlatform) emptyNode decidedSale) did ⟨"settle-1"⟩) ∧
    Same (run (step disputePlatform) emptyNode arbitratedSale)
      (apply (step disputePlatform) (run (step disputePlatform) emptyNode arbitratedSale)
        ⟨7000, joinInput.event⟩) := by
  have hdirect : ∀ input ∈ arbitratedSale, ¬ Bypasses input.event := by
    simp [arbitratedSale, agreedSale, paidInputs, agreementInput, joinInput, Bypasses]
  have hdirect' : ∀ input ∈ decidedSale, ¬ Bypasses input.event := by
    simp [decidedSale, arbitratedSale, agreedSale, paidInputs, agreementInput, joinInput, Bypasses]
  obtain ⟨hfrozen, -, hsteps, -⟩ := disputes_in_step disputePlatform arbitratedSale hdirect
  obtain ⟨hfrozen', hunique', -⟩ := disputes_in_step disputePlatform decidedSale hdirect'
  refine ⟨(hfrozen ⟨"settle-1"⟩).mp (by decide +kernel), ?_, ?_⟩
  · rintro ⟨did, hpending⟩
    have hthaws : ¬ Frozen (run (step disputePlatform) emptyNode decidedSale) ⟨"settle-1"⟩ := by
      decide +kernel
    exact hthaws ((hfrozen' _).mpr ⟨did, hpending, fun did' h => hunique' _ did' did h hpending⟩)
  · exact ((hsteps _ (last_mem_transitions (by decide +kernel))).2.2 trivial 7000).mpr fun h => h

/-- The buyer's agreement, delivered once more after the arbitrator joined, changes the
dispute. -/
theorem agreement_stamped_again :
    ∃ t ∈ transitions (step disputePlatform) emptyNode arbitratedSale,
      t.label = agreementInput ∧
      ¬ Same (run (step disputePlatform) emptyNode arbitratedSale)
        (apply (step disputePlatform) (run (step disputePlatform) emptyNode arbitratedSale)
          ⟨7000, t.label.event⟩) := by
  have hmem : _ ∈ transitions (step disputePlatform) emptyNode agreedSale :=
    last_mem_transitions (by decide +kernel)
  have hlater := List.mem_append_left (transitions (step disputePlatform)
    (run (step disputePlatform) emptyNode agreedSale) [joinInput]) hmem
  refine ⟨_, hlater, rfl, fun hsame => ?_⟩
  have hstamp := congrArg (fun disputes =>
    (disputes.lookup ⟨"dispute-1"⟩).map Dispute.updatedAt) hsame.2
  revert hstamp
  decide +kernel

end Trade

end OpenFiat.FrozenSettlements
