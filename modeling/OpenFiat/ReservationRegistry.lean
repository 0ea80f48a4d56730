import OpenFiat.AdvertisementRegistry
import Mathlib.Data.String.Basic

/-!
# The reservation registry

A request that passes every check takes its amount from the advertisement and is stored as
locked. Two operations give the amount back, a cancellation by the requester and the expiry
sweep, and both start from the locked state. The settlement registry moves a reservation
between locked, settling and settled; these moves touch no liquidity.
-/
namespace OpenFiat.ReservationRegistry
open GuardedResult FiniteTable NodePayloads TradingNode AdvertisementRegistry

def verifyRequest (p : NodePlatform) (signed : Signed ReservationRequest) :
    Except ReservationError Unit :=
  p.verifyAuthor signed.payload.requesterPublicKey signed.payload.requester
    (.reservationRequest signed.payload) signed.signature .unauthorizedUpdate .invalidSignature

def newReservation (request : ReservationRequest) : Reservation where
  __ := request
  state := .escrowLocked
  requestedAt := request.timestamp
  updatedAt := request.timestamp
  expiresAt := request.timestamp + validationWindow

def putReservation (w : Node) (id : ReservationId) (r : Reservation) : Node :=
  { w with reservations := w.reservations.insert id r }

def applyRequest (p : NodePlatform) (now : Timestamp) (w : Node)
    (signed : Signed ReservationRequest) : Except ReservationError Node := do
  let request := signed.payload
  verifyRequest p signed
  require (w.reservations.lookup request.id = none) .duplicateReservationId
  require (request.amount.baseUnits ≠ 0) .invalidAmount
  require (request.timestamp ≤ now + maxClockSkew) .timestampTooFarAhead
  let ad ← load (w.advertisements.lookup request.advertisementId) .advertisementNotFound
  require (ad.status = .active) .advertisementNotFound
  require (¬ (request.amount.baseUnits < ad.minTrade.baseUnits ∨
    ad.maxTrade.baseUnits < request.amount.baseUnits)) .invalidAmount
  require (ad.pricing.agreesWith p.double request.agreedPrice request.agreedMid = true)
    .priceDisagreement
  let w ← (reserveLiquidity now w request.advertisementId request.amount).mapError
    fun _ => .insufficientLiquidity
  return putReservation w request.id (newReservation request)

def applyCancel (p : NodePlatform) (now : Timestamp) (w : Node)
    (signed : Signed ReservationCancel) : Except ReservationError Node := do
  let cancel := signed.payload
  let r ← load (w.reservations.lookup cancel.id) .reservationNotFound
  require (r.requester = cancel.requester) .unauthorizedUpdate
  require (p.verify r.requesterPublicKey (.reservationCancel cancel) signed.signature = true)
    .invalidSignature
  require (r.state ≠ .settling) .settlementInFlight
  require (r.state = .escrowLocked) .invalidReservationState
  -- the result of the release is ignored
  let w := attempt w (releaseLiquidity now w r.advertisementId r.amount)
  return putReservation w cancel.id { r with state := .cancelled, updatedAt := cancel.timestamp }

/-- The shared body of the three moves that settlements cause. -/
def transition (now : Timestamp) (w : Node) (id : ReservationId) (start : List ReservationState)
    (target : ReservationState) : Except ReservationError Node := do
  let r ← load (w.reservations.lookup id) .reservationNotFound
  require (r.state ∈ start) .invalidReservationState
  return putReservation w id { r with state := target, updatedAt := now }

def settlementStarted (now : Timestamp) (w : Node) (id : ReservationId) :
    Except ReservationError Node :=
  transition now w id [.escrowLocked] .settling

def settlementCompleted (now : Timestamp) (w : Node) (id : ReservationId) :
    Except ReservationError Node :=
  transition now w id [.settling] .settled

def settlementAbandoned (now : Timestamp) (w : Node) (id : ReservationId) :
    Except ReservationError Node :=
  transition now w id [.settling, .settled] .escrowLocked

structure ExpirySweep where
  expired : ℕ
  deferred : ℕ
deriving DecidableEq, Repr

theorem reservationId_injective : Function.Injective ReservationId.id := by
  rintro ⟨_⟩ ⟨_⟩ h
  exact congrArg _ h

def all (w : Node) : List (ReservationId × Reservation) :=
  w.reservations.inOrder ReservationId.id reservationId_injective

def expireOne (now cutoff : Timestamp) (acc : Node × ExpirySweep)
    (entry : ReservationId × Reservation) : Node × ExpirySweep :=
  if entry.2.state ≠ .escrowLocked ∨ cutoff ≤ entry.2.requestedAt then acc
  else
    match releaseLiquidity now acc.1 entry.2.advertisementId entry.2.amount with
    | .error _ => (acc.1, { acc.2 with deferred := acc.2.deferred + 1 })
    | .ok w =>
      (putReservation w entry.1 { entry.2 with state := .expired, updatedAt := now },
        { acc.2 with expired := acc.2.expired + 1 })

def expireStale (now : Timestamp) (window : ℕ) (w : Node) : Node × ExpirySweep :=
  (all w).foldl (expireOne now (now - window)) (w, ⟨0, 0⟩)

variable {p : NodePlatform} {now cutoff : Timestamp} {w w' : Node} {id : ReservationId}

/-- A request is accepted with the advertisement active, the amount inside its limits and no
larger than its liquidity; the advertisement gives up the amount. -/
structure Accepts (now : Timestamp) (w : Node) (request : ReservationRequest)
    (ad ad' : Advertisement) : Prop where
  fresh : w.reservations.lookup request.id = none
  found : w.advertisements.lookup request.advertisementId = some ad
  active : ad.status = .active
  positive : request.amount.baseUnits ≠ 0
  punctual : request.timestamp ≤ now + maxClockSkew
  minTrade : ad.minTrade.baseUnits ≤ request.amount.baseUnits
  maxTrade : request.amount.baseUnits ≤ ad.maxTrade.baseUnits
  decimals : request.amount.decimals = ad.availableLiquidity.decimals
  adjusted : Adjusted ad ad'
  taken : ad.availableLiquidity.baseUnits =
    ad'.availableLiquidity.baseUnits + request.amount.baseUnits

theorem applyRequest_ok {signed : Signed ReservationRequest}
    (h : applyRequest p now w signed = .ok w') :
    p.peerIdFromPublicKey signed.payload.requesterPublicKey = some signed.payload.requester ∧
      p.verify signed.payload.requesterPublicKey (.reservationRequest signed.payload)
        signed.signature = true ∧
      ∃ ad ad', Accepts now w signed.payload ad ad' ∧
        w' = putReservation (putAdvertisement w signed.payload.advertisementId ad')
          signed.payload.id (newReservation signed.payload) := by
  simp only [applyRequest, verifyRequest, bind_ok, SignatureScheme.verifyAuthor_ok, require_ok,
    load_ok, pure_ok, mapError_ok] at h
  obtain ⟨-, ⟨hkey, hverify⟩, -, hfresh, -, hpos, -, hpunctual, ad, had, -, hactive, -, hlimits,
    -, -, w₁, hreserve, rfl⟩ := h
  obtain ⟨ad₀, ad', had₀, rfl, hadjusted, hdec, htaken⟩ := reserveLiquidity_ok hreserve
  obtain rfl : ad = ad₀ := Option.mem_unique had had₀
  obtain ⟨hmin, hmax⟩ := not_or.mp hlimits
  exact ⟨hkey, hverify, ad, ad', ⟨hfresh, had, hactive, hpos, hpunctual, not_lt.mp hmin,
    not_lt.mp hmax, hdec, hadjusted, htaken⟩, rfl⟩

theorem applyCancel_ok {signed : Signed ReservationCancel} :
    applyCancel p now w signed = .ok w' ↔ ∃ r,
      w.reservations.lookup signed.payload.id = some r ∧ r.requester = signed.payload.requester ∧
      p.verify r.requesterPublicKey (.reservationCancel signed.payload) signed.signature = true ∧
      r.state = .escrowLocked ∧
      w' = putReservation (attempt w (releaseLiquidity now w r.advertisementId r.amount))
        signed.payload.id { r with
          state := .cancelled, updatedAt := signed.payload.timestamp } := by
  simp only [applyCancel, bind_ok, load_ok, require_ok, pure_ok]
  constructor
  · rintro ⟨r, hr, -, howner, -, hverify, -, -, -, hstate, rfl⟩
    exact ⟨r, hr, howner, hverify, hstate, rfl⟩
  · rintro ⟨r, hr, howner, hverify, hstate, rfl⟩
    exact ⟨r, hr, (), howner, (), hverify, (), fun h => (by cases hstate.symm.trans h), (), hstate,
      rfl⟩

theorem transition_ok {start : List ReservationState} {target : ReservationState} :
    transition now w id start target = .ok w' ↔ ∃ r, w.reservations.lookup id = some r ∧
      r.state ∈ start ∧ w' = putReservation w id { r with state := target, updatedAt := now } := by
  simp only [transition, bind_ok, load_ok, require_ok, pure_ok]
  constructor
  · rintro ⟨r, hr, -, hstate, rfl⟩
    exact ⟨r, hr, hstate, rfl⟩
  · rintro ⟨r, hr, hstate, rfl⟩
    exact ⟨r, hr, (), hstate, rfl⟩

/-- What a settlement's move makes of a reservation: those in another state stay as they
are. -/
def shift (now : Timestamp) (start : List ReservationState) (target : ReservationState)
    (r : Reservation) : Reservation :=
  if r.state ∈ start then { r with state := target, updatedAt := now } else r

theorem attempt_transition_lookup (now : Timestamp) (w : Node) (id : ReservationId)
    (start : List ReservationState) (target : ReservationState) (j : ReservationId) :
    (attempt w (transition now w id start target)).reservations.lookup j =
      if j = id then (w.reservations.lookup j).map (shift now start target)
      else w.reservations.lookup j := by
  cases hshift : transition now w id start target with
  | ok =>
    obtain ⟨r, hr, hstate, rfl⟩ := transition_ok.mp hshift
    rw [attempt, putReservation, Table.lookup_insert_eq]
    split_ifs with hj
    · rw [hj, hr, Option.map_some, shift, if_pos hstate]
    · rfl
  | error =>
    rw [attempt]
    split_ifs with hj
    · subst hj
      cases hr : w.reservations.lookup j with
      | none => rfl
      | some r =>
        have hstate : r.state ∉ start := fun hstate => by
          rw [transition_ok.mpr ⟨r, hr, hstate, rfl⟩] at hshift
          cases hshift
        rw [Option.map_some, shift, if_neg hstate]
    · rfl

/-- A round of the sweep leaves the node alone or expires one stale reservation, after its
amount has gone back. -/
theorem expireOne_cases (now cutoff : Timestamp) (acc : Node × ExpirySweep)
    (entry : ReservationId × Reservation) :
    (expireOne now cutoff acc entry).1 = acc.1 ∨
      entry.2.state = .escrowLocked ∧ entry.2.requestedAt < cutoff ∧
      ∃ w₁, releaseLiquidity now acc.1 entry.2.advertisementId entry.2.amount = .ok w₁ ∧
        (expireOne now cutoff acc entry).1 =
          putReservation w₁ entry.1 { entry.2 with state := .expired, updatedAt := now } := by
  unfold expireOne
  split_ifs with hskip
  · exact .inl rfl
  · obtain ⟨hstate, hstale⟩ := not_or.mp hskip
    cases hrelease : releaseLiquidity now acc.1 entry.2.advertisementId entry.2.amount with
    | error => exact .inl rfl
    | ok w₁ => exact .inr ⟨not_not.mp hstate, not_le.mp hstale, w₁, rfl, rfl⟩

theorem expireOne_lookup (acc : Node × ExpirySweep) (entry : ReservationId × Reservation)
    (j : ReservationId) (hj : j ≠ entry.1) :
    (expireOne now cutoff acc entry).1.reservations.lookup j = acc.1.reservations.lookup j := by
  rcases expireOne_cases now cutoff acc entry with h | ⟨-, -, w₁, hrelease, h⟩
  · rw [h]
  · obtain ⟨_, _, -, rfl, -⟩ := releaseLiquidity_ok hrelease
    rw [h, putReservation, Finmap.lookup_insert_of_ne _ hj, putAdvertisement]

/-- What every expiry of a locked reservation preserves, the sweep preserves. -/
theorem expireStale_rule {window : ℕ} {P : Node → Prop}
    (hexpire : ∀ w w₁ id r, P w → w.reservations.lookup id = some r → r.state = .escrowLocked →
      r.requestedAt < now - window →
      releaseLiquidity now w r.advertisementId r.amount = .ok w₁ →
      P (putReservation w₁ id { r with state := .expired, updatedAt := now })) (hw : P w) :
    P (expireStale now window w).1 := by
  refine Table.foldl_inOrder_rule (fun acc : Node × ExpirySweep => acc.1.reservations)
    (P := fun acc => P acc.1) (s := (w, ⟨0, 0⟩)) (fun acc e j hj => expireOne_lookup acc e j hj)
    ?_ hw
  intro acc id r hacc hr
  rcases expireOne_cases now (now - window) acc (id, r) with h | ⟨hstate, hstale, w₁, hrelease, h⟩
  · rw [h]
    exact hacc
  · rw [h]
    exact hexpire acc.1 w₁ id r hacc hr hstate hstale hrelease

end OpenFiat.ReservationRegistry
