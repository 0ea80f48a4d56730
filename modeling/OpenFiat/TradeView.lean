import OpenFiat.TradeLimits
import OpenFiat.RecordStores

/-!
# The trade view

A trade is a join made when it is read: a reservation, with the first settlement in the order of
the ids that names it. Whoever initiates a settlement chooses its id and the reservation that it
names, and is not compared with the requester. The module says exactly which settlement events
leave a trade as it is shown: those about settlements that name other reservations, and those that
stay behind an earlier settlement and find the reservation in a state that they do not move.
-/
namespace OpenFiat.TradeView
open RecordStores NodePayloads TradingNode ReservationRegistry
open SettlementRegistry NodeSteps TransactionRuns

inductive TradeStatus where
  | escrowLocked
  | awaitingPayment
  | paymentSubmitted
  | completed
  | rejected
  | cancelled
  | disputed
deriving DecidableEq, Repr

structure Trade where
  reservation : Reservation
  settlement : Option (SettlementId × Settlement)
deriving DecidableEq, Repr

/-- The settlement wins whenever there is one. -/
def Trade.status (trade : Trade) : TradeStatus :=
  match trade.settlement with
  | some (_, settlement) =>
    match settlement.state with
    | .awaitingPayment => .awaitingPayment
    | .paymentSubmitted => .paymentSubmitted
    | .approved | .completed => .completed
    | .rejected => .rejected
    | .cancelled => .cancelled
    | .disputed => .disputed
  | none =>
    match trade.reservation.state with
    | .escrowLocked | .settling => .escrowLocked
    | .settled => .completed
    | .cancelled | .expired => .cancelled

theorem settlementId_injective : Function.Injective SettlementId.id := by
  rintro ⟨_⟩ ⟨_⟩ h
  exact congrArg _ h

def allSettlements (w : Node) : List (SettlementId × Settlement) :=
  w.settlements.inOrder SettlementId.id settlementId_injective

def settlementFor (w : Node) (id : ReservationId) : Option (SettlementId × Settlement) :=
  (allSettlements w).find? fun entry => entry.2.reservationId = id

def get (w : Node) (id : ReservationId) : Option Trade :=
  (w.reservations.lookup id).map fun reservation => ⟨reservation, settlementFor w id⟩

/-- Every trade of the node, each beside the id of its reservation. -/
def allTrades (w : Node) : List (ReservationId × Trade) :=
  (all w).map fun entry => (entry.1, ⟨entry.2, settlementFor w entry.1⟩)

theorem allTrades_filter (w : Node) (id : ReservationId) :
    (allTrades w).filter (fun entry => entry.1 = id) =
      ((get w id).map fun t => (id, t)).toList := by
  rw [allTrades, List.filter_map]
  have hrows : (all w).filter ((fun entry => decide (entry.1 = id)) ∘ fun entry =>
      (entry.1, (⟨entry.2, settlementFor w entry.1⟩ : Trade))) =
      ((w.reservations.lookup id).map fun r => (id, r)).toList := inOrder_filter_key _ id
  rw [hrows, get]
  cases w.reservations.lookup id <;> rfl

def Undisturbed (id : ReservationId) (w w' : Node) : Prop :=
  get w' id = get w id ∧
    (allTrades w').filter (fun entry => entry.1 = id) =
      (allTrades w).filter fun entry => entry.1 = id

theorem undisturbed_iff {id : ReservationId} {w w' : Node} :
    Undisturbed id w w' ↔ get w' id = get w id := by
  refine ⟨fun h => h.1, fun h => ⟨h, ?_⟩⟩
  rw [allTrades_filter, allTrades_filter, h]

def settlementOf : Event → Option SettlementId
  | .disputeOpened signed => some signed.payload.settlementId
  | .escrowReleased id _ => some id
  | .disputeResolved id _ _ => some id
  | e => signedFor e

def recordOf (w : Node) : Event → Option Settlement
  | .settlementInitiated signed => some (newSettlement signed.payload)
  | e => (settlementOf e).bind w.settlements.lookup

/-- A settlement event whose initiating buyer is somebody else. -/
def ForeignTo (requester : PeerId) (w : Node) (e : Event) : Prop :=
  (settlementOf e).isSome = true ∧ ∀ s, recordOf w e = some s → s.buyer ≠ requester

instance (requester : PeerId) (w : Node) (e : Event) : Decidable (ForeignTo requester w e) :=
  inferInstanceAs (Decidable (_ ∧ ∀ s ∈ recordOf w e, s.buyer ≠ requester))

/-- The states from which an event moves the reservation that its settlement names. -/
def startsFrom : Event → List ReservationState
  | .settlementInitiated _ => [.escrowLocked]
  | .settlementApproved _ => [.settling]
  | .settlementRejected _ | .settlementCancelled _ => [.settling, .settled]
  | .disputeResolved _ .escrowReleased _ => [.settling]
  | .disputeResolved _ .escrowReturned _ => [.settling, .settled]
  | _ => []

/-- The event is about a settlement of another reservation, or it stays behind an earlier
settlement and does not move the reservation. -/
def Harmless (id : ReservationId) (w : Node) (e : Event) : Prop :=
  ∀ sid s, settlementOf e = some sid → recordOf w e = some s → s.reservationId = id →
    (∃ sid₀ s₀, w.settlements.lookup sid₀ = some s₀ ∧ s₀.reservationId = id ∧ sid₀.id < sid.id) ∧
      ∀ r, w.reservations.lookup id = some r → r.state ∉ startsFrom e

/-- What an accepted settlement event writes. -/
structure Writes (now : Timestamp) (w : Node) (e : Event) (sid : SettlementId) (s s' : Settlement)
    (w' : Node) : Prop where
  record : recordOf w e = some s
  before : ∀ s₀, w.settlements.lookup sid = some s₀ → s₀ = s
  reservationId : s'.reservationId = s.reservationId
  news : w.settlements.lookup sid ≠ some s'
  settlements : w'.settlements = w.settlements.insert sid s'
  reservations : ∃ target, target ∉ startsFrom e ∧ ∀ id, w'.reservations.lookup id =
    if id = s.reservationId then (w.reservations.lookup id).map (shift now (startsFrom e) target)
    else w.reservations.lookup id

section Steps
variable {p : NodePlatform} {now : Timestamp} {w w' : Node} {e : Event} {sid sid₀ : SettlementId}
  {s s' : Settlement} {effect : Effect}

theorem Move.state_ne (h : Move p now w sid s e effect s') : s'.state ≠ s.state := by
  intro hsame
  have hnext := h.next
  rw [hsame] at hnext
  revert hnext
  cases s.state <;> decide

/-- The states in which an effect applies, and the one it leads to. -/
def effectStart : Effect → List ReservationState
  | .keep => []
  | .complete => [.settling]
  | .abandon => [.settling, .settled]

def effectTarget : Effect → ReservationState
  | .keep | .complete => .settled
  | .abandon => .escrowLocked

/-- A move that a settlement event makes is of its settlement, with the effect of the event. -/
theorem Move.about (h : Move p now w sid₀ s e effect s') (hsid : settlementOf e = some sid) :
    sid₀ = sid ∧ recordOf w e = w.settlements.lookup sid ∧ startsFrom e = effectStart effect := by
  cases h with
  | submitted signed hid | reversed signed hid | approved signed hid | rejected signed hid
  | cancelled signed hid | disputed signed hid =>
    exact ⟨hid.symm.trans (Option.some.inj hsid), by cases hsid; rfl, rfl⟩
  | released => exact ⟨Option.some.inj hsid, by cases hsid; rfl, rfl⟩
  | resolved _ verdict signature hs hstate hverdict =>
    cases e with
    | disputeResolved =>
      cases hverdict
      cases hsid
      cases verdict <;> exact ⟨rfl, rfl, rfl⟩
    | onchainExecution => cases hsid
    | _ => cases hverdict

theorem effectTarget_notMem (effect : Effect) : effectTarget effect ∉ effectStart effect := by
  cases effect <;> decide

theorem writes_of_step {input : Input} (hstep : step p w input = .ok w')
    (hsid : settlementOf input.event = some sid) :
    ∃ s s', Writes input.now w input.event sid s s' w' := by
  obtain ⟨now, event⟩ := input
  cases step_change hstep with
  | initiated signed hkey hverify hfresh =>
    cases hsid
    refine ⟨newSettlement signed.payload, _, rfl, fun s₀ hs₀ => ?_, rfl, fun h => ?_, ?_,
      .settling, (by decide : ReservationState.settling ∉ [ReservationState.escrowLocked]),
      fun id => ?_⟩
    · rw [hfresh] at hs₀
      cases hs₀
    · rw [hfresh] at h
      cases h
    · rw [putSettlement, settlementStarted, attempt_transition_settlements]
    · exact attempt_transition_lookup now w signed.payload.reservationId
        [.escrowLocked] .settling id
  | moved _ sid₀ s s' effect disputes hmove =>
    obtain ⟨rfl, hrecord, hstarts⟩ := Move.about hmove hsid
    have hterms := hmove.sameTerms
    refine ⟨s, s', hrecord.trans hmove.found, fun s₀ hs₀ => ?_, hterms.reservationId,
      fun h => ?_, ?_, effectTarget effect, ?_, fun id => ?_⟩
    · exact Option.mem_unique hs₀ hmove.found
    · have hsame := Option.mem_unique hmove.found h
      exact Move.state_ne hmove (congrArg Settlement.state hsame.symm)
    · change (effect.apply now w s.reservationId).settlements.insert sid₀ s' = _
      rw [effect_settlements]
    · rw [hstarts]
      exact effectTarget_notMem effect
    · rw [hstarts]
      cases effect with
      | keep =>
        change _ = if id = s.reservationId then (w.reservations.lookup id).map (fun r => r) else _
        rw [Option.map_id', ite_self]
        rfl
      | complete | abandon => exact attempt_transition_lookup now w s.reservationId _ _ id
  | edited _ _ _ _ he | arbitrated _ _ he =>
    cases event <;> first | cases hsid; done | exact absurd he not_false
  | _ => cases hsid

end Steps

section Views
variable {now : Timestamp} {w w' : Node} {e : Event} {sid : SettlementId} {s s' : Settlement}
  {id : ReservationId}

theorem settlementFor_eq_first (w : Node) (id : ReservationId) :
    settlementFor w id = first SettlementId.id settlementId_injective
      (fun s => decide (s.reservationId = id)) w.settlements := rfl

theorem shift_eq_self_iff {starts : List ReservationState} {target : ReservationState}
    (htarget : target ∉ starts) (r : Reservation) :
    shift now starts target r = r ↔ r.state ∉ starts := by
  rw [shift]
  split_ifs with hstate
  · refine iff_of_false (fun h => htarget ?_) (not_not.mpr hstate)
    rw [← congrArg Reservation.state h] at hstate
    exact hstate
  · exact iff_of_true rfl hstate

variable (h : Writes now w e sid s s' w')
include h

theorem Writes.get_of_ne (hne : s.reservationId ≠ id) :
    get w' id = get w id := by
  obtain ⟨target, -, hreservations⟩ := h.reservations
  have hfor : settlementFor w' id = settlementFor w id := by
    rw [settlementFor_eq_first, h.settlements]
    refine first_insert_of_fails (fun s₀ hs₀ => ?_) ?_
    · rw [h.before s₀ hs₀]
      exact decide_eq_false hne
    · rw [h.reservationId]
      exact decide_eq_false hne
  rw [get, get, hfor, hreservations, if_neg (Ne.symm hne)]

/-- A settlement that names the reservation is shown when it is written, unless an earlier one
hides it. -/
theorem Writes.settlementFor_eq_iff (hid : s.reservationId = id) :
    settlementFor w' id = settlementFor w id ↔
      ∃ sid₀ s₀, w.settlements.lookup sid₀ = some s₀ ∧ s₀.reservationId = id ∧
        sid₀.id < sid.id := by
  rw [settlementFor_eq_first, settlementFor_eq_first, h.settlements]
  constructor
  · intro heq
    by_contra hnone
    push Not at hnone
    have hshown : first SettlementId.id settlementId_injective
        (fun s => decide (s.reservationId = id)) (w.settlements.insert sid s') =
          some (sid, s') := by
      refine first_insert_of_least (decide_eq_true (h.reservationId.trans hid)) ?_
      intro sid₀ s₀ hs₀ hnames
      exact hnone sid₀ s₀ hs₀ (of_decide_eq_true hnames)
    rw [hshown] at heq
    exact h.news (first_spec heq.symm).1
  · rintro ⟨sid₀, s₀, hs₀, hnames, hlt⟩
    exact first_insert_of_earlier hs₀ (decide_eq_true hnames) hlt

/-- An accepted settlement event leaves the trade as it is exactly if it is harmless. -/
theorem Writes.get_eq_iff (hsid : settlementOf e = some sid)
    {r : Reservation} (hr : w.reservations.lookup id = some r) :
    get w' id = get w id ↔ Harmless id w e := by
  by_cases hid : s.reservationId = id
  · obtain ⟨target, htarget, hreservations⟩ := h.reservations
    have hget : get w' id = get w id ↔
        shift now (startsFrom e) target r = r ∧ settlementFor w' id = settlementFor w id := by
      rw [get, get, hreservations, if_pos hid.symm, hr, Option.map_some, Option.map_some,
        Option.map_some, Option.some.injEq, Trade.mk.injEq]
    rw [hget, shift_eq_self_iff htarget, h.settlementFor_eq_iff hid]
    constructor
    · rintro ⟨hstate, hearlier⟩ sid₁ s₁ hsid₁ - -
      obtain rfl := Option.mem_unique hsid hsid₁
      refine ⟨hearlier, fun r₁ hr₁ => ?_⟩
      rw [Option.mem_unique hr₁ hr]
      exact hstate
    · intro hharmless
      obtain ⟨hearlier, hstate⟩ := hharmless sid s hsid h.record hid
      exact ⟨hstate r hr, hearlier⟩
  · refine iff_of_true (h.get_of_ne hid) fun sid₁ s₁ _ hs₁ hid₁ => absurd ?_ hid
    rw [Option.mem_unique h.record hs₁]
    exact hid₁

theorem Writes.exists_reservation {r : Reservation}
    (hr : w.reservations.lookup id = some r) : ∃ r', w'.reservations.lookup id = some r' := by
  obtain ⟨target, -, hreservations⟩ := h.reservations
  rw [hreservations, hr]
  split_ifs
  · exact ⟨_, rfl⟩
  · exact ⟨r, rfl⟩

end Views

/-- A trade stays as it is under settlement events of others than its requester exactly if every
accepted one is harmless. -/
theorem trade_undisturbed_iff (p : NodePlatform) (w : Node) (id : ReservationId) (r : Reservation)
    (hr : w.reservations.lookup id = some r) (inputs : List Input)
    (hforeign : InContext (step p) (fun _ t => ForeignTo r.requester t.before t.label.event) w
      inputs) :
    (∀ mid, mid <+: inputs → Undisturbed id w (run (step p) w mid)) ↔
      InContext (step p) (fun _ t => Harmless id t.before t.label.event) w inputs := by
  have hpresent (mid : List Input) (hmid : mid <+: inputs) :
      ∃ r, (run (step p) w mid).reservations.lookup id = some r := by
    refine run_context_rule (J := fun _ w => ∃ r, w.reservations.lookup id = some r)
      (fun H w input w' hJ hstep hG => ?_) ⟨r, hr⟩ (hforeign.of_initial hmid)
    obtain ⟨sid, hsid⟩ := Option.isSome_iff_exists.mp hG.1
    obtain ⟨s, s', hwrites⟩ := writes_of_step hstep hsid
    exact hwrites.exists_reservation hJ.choose_spec
  simp only [undisturbed_iff]
  rw [view_constant_iff (fun w => get w id)]
  refine forall₃_congr fun mid input w' => forall₂_congr fun hmid hstep => ?_
  obtain ⟨r₁, hr₁⟩ := hpresent mid ((List.prefix_append mid [input]).trans hmid)
  obtain ⟨sid, hsid⟩ := Option.isSome_iff_exists.mp (hforeign mid input w' hmid hstep).1
  obtain ⟨s, s', hwrites⟩ := writes_of_step hstep hsid
  exact hwrites.get_eq_iff hsid hr₁

/-! ## A stranger's settlement

The requester has reserved and initiated a settlement with the merchant. -/

def ownInitiate : SettlementInitiate where
  id := ⟨"settle-2"⟩
  reservationId := ⟨"res-1"⟩
  buyer := peer 2
  buyerPublicKey := .filled 2
  seller := peer 1
  sellerPublicKey := .filled 1
  amount := .new 500 6
  timestamp := 3000

/-- Somebody else initiates a settlement, chooses an earlier id for it and names a reservation. -/
def strangerInitiate (reservation : String) : SettlementInitiate where
  id := ⟨"settle-1"⟩
  reservationId := ⟨reservation⟩
  buyer := peer 4
  buyerPublicKey := .filled 4
  seller := peer 4
  sellerPublicKey := .filled 4
  amount := .new 1 6
  timestamp := 4000

def strangerCancel : SettlementCancelled := ⟨⟨"settle-1"⟩, peer 4, 5000⟩

def viewPlatform : NodePlatform :=
  signedPlatform [(.filled 1, .advertisementCreate (TradeLimits.limitedAd TradeLimits.sixPlaces)),
    (.filled 2, .reservationRequest TradeLimits.smallRequest),
    (.filled 2, .settlementInitiate ownInitiate),
    (.filled 4, .settlementInitiate (strangerInitiate "res-1")),
    (.filled 4, .settlementInitiate (strangerInitiate "res-9")),
    (.filled 4, .settlementCancelled strangerCancel)]

def traded : Node :=
  run (step viewPlatform) emptyNode [TradeLimits.creationInput TradeLimits.sixPlaces,
    TradeLimits.requestInput, ⟨3000, .settlementInitiated ⟨ownInitiate, ⟨[]⟩⟩⟩]

def strangerInput (reservation : String) : Input :=
  ⟨4000, .settlementInitiated ⟨strangerInitiate reservation, ⟨[]⟩⟩⟩

def strangerCancelInput : Input := ⟨5000, .settlementCancelled ⟨strangerCancel, ⟨[]⟩⟩⟩

/-- About another reservation the stranger does no harm. -/
theorem trade_undisturbed_iff_elsewhere :
    (traded.reservations.lookup ⟨"res-1"⟩).isSome = true ∧
      Undisturbed ⟨"res-1"⟩ traded (run (step viewPlatform) traded [strangerInput "res-9"]) := by
  have hpresent : (traded.reservations.lookup ⟨"res-1"⟩).map (·.requester) =
      some (peer 2) := by decide +kernel
  obtain ⟨r, hr, hrequester⟩ := Option.map_eq_some_iff.mp hpresent
  refine ⟨by rw [hr]; rfl, (trade_undisturbed_iff viewPlatform traded ⟨"res-1"⟩ r hr
    [strangerInput "res-9"] ?_).mpr ?_ _ (List.prefix_refl _)⟩
  · refine InContext.of_forall fun input hinput H w w' => ?_
    rw [List.mem_singleton.mp hinput, hrequester]
    exact ⟨rfl, fun s hs => Option.some.inj hs ▸ by decide⟩
  · refine InContext.of_forall fun input hinput H w w' sid s _ hs hid => ?_
    rw [List.mem_singleton.mp hinput] at hs
    rw [← Option.some.inj hs] at hid
    exact absurd hid (by decide)

/-- Two events of a stranger replace the settlement of the trade and show it as cancelled. -/
theorem stranger_cancels_trade :
    ForeignTo (peer 2) traded (strangerInput "res-1").event ∧
    ForeignTo (peer 2)
      (run (step viewPlatform) traded [strangerInput "res-1"]) strangerCancelInput.event ∧
    (get traded ⟨"res-1"⟩).map (fun t => (t.reservation.requester, t.status,
      t.settlement.map Prod.fst)) =
        some (peer 2, .awaitingPayment, some ⟨"settle-2"⟩) ∧
    (get (run (step viewPlatform) traded [strangerInput "res-1", strangerCancelInput])
      ⟨"res-1"⟩).map (fun t => (t.reservation.requester, t.status, t.settlement.map Prod.fst)) =
        some (peer 2, .cancelled, some ⟨"settle-1"⟩) := by
  decide +kernel

end OpenFiat.TradeView
