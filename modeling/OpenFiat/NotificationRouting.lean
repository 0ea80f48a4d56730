import OpenFiat.PeerSpelling
import OpenFiat.ServiceRegistry

/-!
# Notification routing

A wallet subscribes to triggers and binds destinations at registered gateways. When a trigger
fires the node plans one delivery for each destination that it can reach, writes down that the
delivery is queued, hands it to the gateway and later takes the gateway's signed report. The
dispatch and the receipt are stored under the id of the notification, which all deliveries of one
plan share: each gateway is served exactly if the plan has no two of them.
-/
namespace OpenFiat.NotificationRouting
open GuardedResult NodePayloads WireBytes RecordStores.RecordStore
open GossipEvents (utf8)
open PeerSpelling (hexDigits)
open RecordStores (RecordStore)
open ServiceRegistry (HealthState Registry ServiceId)
open SnapshotIndex (NotificationChannel ServiceType)

inductive NotificationCategory where
  | trading
  | marketplace
  | disputes
  | governance
  | infrastructure
deriving DecidableEq, Repr

inductive NotificationTrigger where
  | reservationCreated
  | reservationExpiring
  | paymentSubmitted
  | settlementApproved
  | escrowReleased
  | tradeCompleted
  | advertisementDisabled
  | reputationUpdated
  | evidenceRequested
  | resolutionIssued
  | proposalPublished
  | votingStarted
  | proposalActivated
  | snapshotAvailable
  | nodeMaintenance
  | providerOffline
deriving DecidableEq, Repr

def NotificationTrigger.name : NotificationTrigger → String
  | .reservationCreated => "ReservationCreated"
  | .reservationExpiring => "ReservationExpiring"
  | .paymentSubmitted => "PaymentSubmitted"
  | .settlementApproved => "SettlementApproved"
  | .escrowReleased => "EscrowReleased"
  | .tradeCompleted => "TradeCompleted"
  | .advertisementDisabled => "AdvertisementDisabled"
  | .reputationUpdated => "ReputationUpdated"
  | .evidenceRequested => "EvidenceRequested"
  | .resolutionIssued => "ResolutionIssued"
  | .proposalPublished => "ProposalPublished"
  | .votingStarted => "VotingStarted"
  | .proposalActivated => "ProposalActivated"
  | .snapshotAvailable => "SnapshotAvailable"
  | .nodeMaintenance => "NodeMaintenance"
  | .providerOffline => "ProviderOffline"

def NotificationTrigger.category : NotificationTrigger → NotificationCategory
  | .reservationCreated | .reservationExpiring | .paymentSubmitted | .settlementApproved
  | .escrowReleased | .tradeCompleted => .trading
  | .advertisementDisabled | .reputationUpdated => .marketplace
  | .evidenceRequested | .resolutionIssued => .disputes
  | .proposalPublished | .votingStarted | .proposalActivated => .governance
  | .snapshotAvailable | .nodeMaintenance | .providerOffline => .infrastructure

/-- Subject and body. -/
def compose (trigger : NotificationTrigger) : String × String :=
  let text : String × String := match trigger with
    | .reservationCreated =>
      ("Reservation created", "A reservation involving your wallet has been created.")
    | .reservationExpiring =>
      ("Reservation expiring", "A reservation involving your wallet is about to expire.")
    | .paymentSubmitted =>
      ("Payment submitted", "A buyer has declared payment sent on one of your settlements.")
    | .settlementApproved =>
      ("Settlement approved", "A settlement involving your wallet has been approved.")
    | .escrowReleased =>
      ("Escrow released", "Escrow has been released on a settlement involving your wallet.")
    | .tradeCompleted => ("Trade completed", "A trade involving your wallet has completed.")
    | .advertisementDisabled =>
      ("Advertisement disabled", "One of your advertisements has been disabled.")
    | .reputationUpdated => ("Reputation updated", "Your marketplace reputation has changed.")
    | .evidenceRequested =>
      ("Evidence requested", "A dispute involving your wallet needs your evidence.")
    | .resolutionIssued => ("Dispute resolved",
        "A dispute involving your wallet has been resolved.")
    | .proposalPublished =>
      ("Governance proposal published", "A new governance proposal is open for review.")
    | .votingStarted => ("Voting started", "Voting has opened on a governance proposal.")
    | .proposalActivated =>
      ("Governance proposal activated", "A governance proposal has been activated.")
    | .snapshotAvailable => ("Snapshot available", "A new network snapshot is available.")
    | .nodeMaintenance => ("Node maintenance", "A node you rely on has entered maintenance.")
    | .providerOffline => ("Provider offline", "A service provider you rely on has gone offline.")
  (text.1, text.2 ++ " Open your OpenFiat client for the details.")

structure NotificationId where
  id : String
deriving DecidableEq, Repr

def NotificationId.derive (sha256 : List UInt8 → List UInt8) (trigger : NotificationTrigger)
    (sourceEvent : List UInt8) (recipient : PeerId) : NotificationId :=
  let fields := [utf8 "openfiat/notification-id/v1", utf8 trigger.name, sourceEvent,
    recipient.bytes]
  let transcript := fields.flatMap fun field => littleEndian 4 field.length ++ field
  ⟨String.ofList (hexDigits (sha256 transcript))⟩

structure SubscriptionDestination where
  serviceId : ServiceId
  channel : NotificationChannel
  sealed : SealedBox
deriving DecidableEq

structure Subscription where
  wallet : PeerId
  walletPublicKey : PublicKey
  enabledCategories : List NotificationCategory
  destinations : List SubscriptionDestination
  updatedAt : Timestamp

def Subscription.wants (subscription : Subscription) (trigger : NotificationTrigger) : Bool :=
  subscription.enabledCategories.contains trigger.category

inductive DeliveryStatus where
  | queued
  | sent
  | delivered
  | read
  | failed
  | retried
  | expired
deriving DecidableEq, Repr

structure NotificationPayload where
  notificationId : NotificationId
  trigger : NotificationTrigger
  recipientWallet : PeerId
  serviceId : ServiceId
  channel : NotificationChannel
  sealedDestination : SealedBox
  subject : String
  body : String
deriving DecidableEq

structure PlannedDelivery where
  endpoint : String
  payload : NotificationPayload
deriving DecidableEq

inductive SkipReason where
  | gatewayUnknown
  | notANotificationGateway
  | channelMismatch
  | unhealthy
  | noEndpoint
deriving DecidableEq, Repr

structure SkippedDestination where
  serviceId : ServiceId
  reason : SkipReason
deriving DecidableEq

structure RoutingPlan where
  deliveries : List PlannedDelivery
  skipped : List SkippedDestination
deriving DecidableEq

structure DispatchRecord where
  notificationId : NotificationId
  serviceId : ServiceId
  recipientWallet : PeerId
  trigger : NotificationTrigger
  channel : NotificationChannel
  status : DeliveryStatus
  updatedAt : Timestamp
deriving DecidableEq

structure DeliveryReport where
  notificationId : NotificationId
  serviceId : ServiceId
  provider : PeerId
  providerPublicKey : PublicKey
  recipientWallet : PeerId
  trigger : NotificationTrigger
  status : DeliveryStatus
  timestamp : Timestamp
deriving DecidableEq

structure DeliveryReceipt where
  notificationId : NotificationId
  serviceId : ServiceId
  recipientWallet : PeerId
  trigger : NotificationTrigger
  status : DeliveryStatus
  updatedAt : Timestamp
deriving DecidableEq

inductive NotificationError where
  | invalidSignature
  | unauthorized
  | serviceNotFound
  | unknownNotification
deriving DecidableEq, Repr

structure NotificationRegistry where
  dispatches : RecordStore DispatchRecord.notificationId
  receipts : RecordStore DeliveryReceipt.notificationId

def isDeliverable (health : HealthState) : Bool := health = .online || health = .maintenance

def channelOf : ServiceType → Option NotificationChannel
  | .notifications channel => some channel
  | _ => none

section Routing
variable (sha256 : List UInt8 → List UInt8) (services : Registry) (subscription : Subscription)
  (trigger : NotificationTrigger) (sourceEvent : List UInt8)

/-- What becomes of one destination. -/
def route (destination : SubscriptionDestination) : Except SkipReason PlannedDelivery := do
  let service ← load (services.get destination.serviceId) .gatewayUnknown
  let registered ← load (channelOf service.serviceType) .notANotificationGateway
  require (registered = destination.channel) .channelMismatch
  require (isDeliverable service.health = true) .unhealthy
  let endpoint ← load service.endpoints.head? .noEndpoint
  return ⟨endpoint, ⟨.derive sha256 trigger sourceEvent subscription.wallet, trigger,
    subscription.wallet, destination.serviceId, destination.channel, destination.sealed,
    (compose trigger).1, (compose trigger).2⟩⟩

def planOne (plan : RoutingPlan) (destination : SubscriptionDestination) : RoutingPlan :=
  match route sha256 services subscription trigger sourceEvent destination with
  | .ok delivery => { plan with deliveries := plan.deliveries ++ [delivery] }
  | .error reason => { plan with skipped := plan.skipped ++ [⟨destination.serviceId, reason⟩] }

def plan : RoutingPlan :=
  if !subscription.wants trigger then ⟨[], []⟩
  else subscription.destinations.foldl (planOne sha256 services subscription trigger sourceEvent)
    ⟨[], []⟩

end Routing

def queuedRecord (now : Timestamp) (delivery : PlannedDelivery) : DispatchRecord where
  notificationId := delivery.payload.notificationId
  serviceId := delivery.payload.serviceId
  recipientWallet := delivery.payload.recipientWallet
  trigger := delivery.payload.trigger
  channel := delivery.payload.channel
  status := .queued
  updatedAt := now

def recordQueued (r : NotificationRegistry) (now : Timestamp) (delivery : PlannedDelivery) :
    NotificationRegistry :=
  { r with dispatches := r.dispatches.put (queuedRecord now delivery) }

def recordHandoff (r : NotificationRegistry) (now : Timestamp) (id : NotificationId)
    (accepted : Bool) : NotificationRegistry :=
  match r.dispatches.get id with
  | none => r
  | some record =>
    { r with dispatches := r.dispatches.put { record with
        status := if accepted then .sent else .failed, updatedAt := now } }

section Reports
variable (S : SignatureScheme DeliveryReport)

def verify (signed : Signed DeliveryReport) : Except NotificationError Unit :=
  S.verifyAuthor signed.payload.providerPublicKey signed.payload.provider signed.payload
    signed.signature .unauthorized .invalidSignature

/-- The checks of a report read the services and the dispatches alone. -/
def checkReport (services : Registry)
    (dispatches : RecordStore DispatchRecord.notificationId) (signed : Signed DeliveryReport) :
    Except NotificationError Unit := do
  let report := signed.payload
  verify S signed
  let service ← load (services.get report.serviceId) .serviceNotFound
  require (service.provider = report.provider) .unauthorized
  let dispatched ← load (dispatches.get report.notificationId) .unknownNotification
  require (dispatched.serviceId = report.serviceId ∧
    dispatched.recipientWallet = report.recipientWallet ∧ dispatched.trigger = report.trigger)
    .unauthorized

def receiptOf (report : DeliveryReport) : DeliveryReceipt :=
  ⟨report.notificationId, report.serviceId, report.recipientWallet, report.trigger, report.status,
    report.timestamp⟩

def applyDeliveryReport (services : Registry)
    (r : NotificationRegistry) (signed : Signed DeliveryReport) :
    Except NotificationError NotificationRegistry := do
  checkReport S services r.dispatches signed
  return { r with receipts := r.receipts.put (receiptOf signed.payload) }

/-- Planned deliveries are queued one after the other, each at its time. -/
def queueAll (r : NotificationRegistry) (queue : List (Timestamp × PlannedDelivery)) :
    NotificationRegistry :=
  queue.foldl (fun r entry => recordQueued r entry.1 entry.2) r

/-- A report on the delivery, signed by the provider of its gateway. -/
structure ReportsOn (services : Registry)
    (delivery : PlannedDelivery) (signed : Signed DeliveryReport) : Prop where
  verified : verify S signed = .ok ()
  provider : (services.get delivery.payload.serviceId).map (·.provider) =
    some signed.payload.provider
  notificationId : signed.payload.notificationId = delivery.payload.notificationId
  serviceId : signed.payload.serviceId = delivery.payload.serviceId
  recipientWallet : signed.payload.recipientWallet = delivery.payload.recipientWallet
  trigger : signed.payload.trigger = delivery.payload.trigger

/-- Each delivery is reported and handed off on its own. -/
structure TracksEach (services : Registry)
    (deliveries : List PlannedDelivery) (r : NotificationRegistry) : Prop where
  reports : ∀ delivery ∈ deliveries, ∀ signed, ReportsOn S services delivery signed →
    ∃ r', applyDeliveryReport S services r signed = .ok r'
  handoffs : ∀ delivery ∈ deliveries, ∀ now accepted,
    let r' := recordHandoff r now delivery.payload.notificationId accepted
    r'.receipts = r.receipts ∧
      (∀ id ≠ delivery.payload.notificationId, r'.dispatches.get id = r.dispatches.get id) ∧
      ∀ other ∈ deliveries, other ≠ delivery →
        r'.dispatches.get other.payload.notificationId =
          r.dispatches.get other.payload.notificationId
  receipts : ∀ delivery ∈ deliveries, ∀ other ∈ deliveries,
    delivery.payload.serviceId ≠ other.payload.serviceId → ∀ signed signed' r₁ r₂,
      ReportsOn S services delivery signed → ReportsOn S services other signed' →
      applyDeliveryReport S services r signed = .ok r₁ →
      applyDeliveryReport S services r₁ signed' = .ok r₂ →
      r₂.receipts.get signed.payload.notificationId = r₁.receipts.get signed.payload.notificationId

end Reports

/-- The gateway is registered for the channel, healthy and has an endpoint. -/
def Routable (services : Registry) (destination : SubscriptionDestination) : Prop :=
  ∃ service, services.get destination.serviceId = some service ∧
    service.serviceType = .notifications destination.channel ∧
    isDeliverable service.health = true ∧ service.endpoints ≠ []

section Plans
variable {sha256 : List UInt8 → List UInt8} {services : Registry} {subscription : Subscription}
  {trigger : NotificationTrigger} {sourceEvent : List UInt8} {destination : SubscriptionDestination}
  {delivery : PlannedDelivery} {S : SignatureScheme DeliveryReport}

theorem mem_plan :
    delivery ∈ (plan sha256 services subscription trigger sourceEvent).deliveries ↔
      subscription.wants trigger = true ∧ ∃ destination ∈ subscription.destinations,
        route sha256 services subscription trigger sourceEvent destination = .ok delivery := by
  have hfold (l : List SubscriptionDestination) (start : RoutingPlan) : delivery ∈
      (l.foldl (planOne sha256 services subscription trigger sourceEvent) start).deliveries ↔
        delivery ∈ start.deliveries ∨ ∃ destination ∈ l,
          route sha256 services subscription trigger sourceEvent destination = .ok delivery := by
    induction l generalizing start with
    | nil => simp
    | cons destination l ih =>
      rw [List.foldl_cons, ih, planOne]
      cases hroute : route sha256 services subscription trigger sourceEvent destination with
      | error => simp [hroute]
      | ok => simp [hroute, or_assoc, eq_comm]
  unfold plan
  cases subscription.wants trigger <;> simp [hfold]

theorem channelOf_eq_some {serviceType : ServiceType} {channel : NotificationChannel} :
    channelOf serviceType = some channel ↔ serviceType = .notifications channel := by
  cases serviceType <;> simp [channelOf]

theorem route_ok (h : route sha256 services subscription trigger sourceEvent destination =
    .ok delivery) : Routable services destination ∧
      delivery.payload.notificationId = .derive sha256 trigger sourceEvent subscription.wallet ∧
      destination = ⟨delivery.payload.serviceId, delivery.payload.channel,
        delivery.payload.sealedDestination⟩ := by
  simp only [route, bind_ok, load_ok, require_ok, pure_ok] at h
  obtain ⟨service, hservice, _, hchannel, _, rfl, _, hhealth, endpoint, hendpoint, rfl⟩ := h
  refine ⟨⟨service, hservice, channelOf_eq_some.mp hchannel, hhealth, ?_⟩, rfl, rfl⟩
  rintro hnil
  rw [hnil] at hendpoint
  cases hendpoint

theorem exists_route (h : Routable services destination) : ∃ delivery,
    route sha256 services subscription trigger sourceEvent destination = .ok delivery := by
  obtain ⟨service, hservice, htype, hhealth, hendpoints⟩ := h
  simp only [route, bind_ok, load_ok, require_ok, pure_ok]
  exact ⟨_, service, hservice, _, channelOf_eq_some.mpr htype, (), rfl, (), hhealth, _,
    List.head?_eq_some_head hendpoints, rfl⟩

variable {r : NotificationRegistry} {queue : List (Timestamp × PlannedDelivery)}

variable {id : NotificationId} {now : Timestamp}

/-- Deliveries that share an id leave the record of one of them. -/
theorem exists_get_queueAll {deliveries : List PlannedDelivery}
    (hperm : (queue.map Prod.snd).Perm deliveries) (hmem : delivery ∈ deliveries)
    (hid : ∀ other ∈ deliveries, other.payload.notificationId = id) : ∃ now, ∃ other ∈ deliveries,
      (queueAll r queue).dispatches.get id = some (queuedRecord now other) := by
  rcases queue.eq_nil_or_concat' with rfl | ⟨queue, ⟨now, other⟩, rfl⟩
  · rw [hperm.nil_eq.symm] at hmem
    cases hmem
  · have hother : other ∈ deliveries := hperm.mem_iff.mp (by simp)
    rw [← hid other hother]
    rw [queueAll, List.foldl_concat]
    exact ⟨now, other, hother, (get_put _ _ _).trans (if_pos rfl)⟩

theorem get_recordHandoff {accepted : Bool} {record : DispatchRecord}
    (h : r.dispatches.get id = some record) :
    (recordHandoff r now id accepted).dispatches.get id =
      some { record with status := if accepted then .sent else .failed, updatedAt := now } := by
  rw [recordHandoff, h]
  exact (get_put _ _ _).trans (if_pos (idOf_get h).symm)

theorem get_recordHandoff_ne {id' : NotificationId} {accepted : Bool} (h : id' ≠ id) :
    (recordHandoff r now id accepted).dispatches.get id' = r.dispatches.get id' := by
  rw [recordHandoff]
  split
  · rfl
  · next record hrecord =>
    have hid : record.notificationId = id := idOf_get hrecord
    exact (get_put _ _ _).trans (if_neg fun heq => h (heq.trans hid))

theorem applyDeliveryReport_of_queued {signed : Signed DeliveryReport}
    (hreport : ReportsOn S services delivery signed)
    (hget : r.dispatches.get delivery.payload.notificationId = some (queuedRecord now delivery)) :
    ∃ r', applyDeliveryReport S services r signed = .ok r' := by
  obtain ⟨service, hservice, hprovider⟩ := Option.map_eq_some_iff.mp hreport.provider
  have hcheck : checkReport S services r.dispatches signed = .ok () := by
    simp only [checkReport, bind_ok, load_ok, require_ok]
    rw [hreport.serviceId, hreport.notificationId]
    exact ⟨(), hreport.verified, service, hservice, (), hprovider, _, hget, rfl,
      hreport.recipientWallet.symm, hreport.trigger.symm⟩
  rw [applyDeliveryReport, hcheck]
  exact ⟨_, rfl⟩

theorem tracksEach_iff {deliveries : List PlannedDelivery}
    (hid : ∀ other ∈ deliveries, other.payload.notificationId = id) :
    (∀ queue : List (Timestamp × PlannedDelivery), (queue.map Prod.snd).Perm deliveries →
      TracksEach S services deliveries (queueAll r queue)) ↔
      ∀ delivery ∈ deliveries, ∀ other ∈ deliveries, delivery = other := by
  constructor
  · intro h delivery hdelivery other hother
    by_contra hne
    -- the handoff of one delivery marks the record that they share
    have hperm : ((deliveries.map fun d => ((0 : Timestamp), d)).map Prod.snd).Perm deliveries := by
      simp [Function.comp_def]
    obtain ⟨now, last, -, hget⟩ := exists_get_queueAll hperm hdelivery hid
    have hsame := ((h _ hperm).handoffs delivery hdelivery 0 true).2.2 other hother (Ne.symm hne)
    rw [hid delivery hdelivery, hid other hother, get_recordHandoff hget, hget] at hsame
    have hstatus : DeliveryStatus.sent = .queued :=
      congrArg DispatchRecord.status (Option.some.inj hsame)
    exact absurd hstatus (by decide)
  · intro h queue hperm
    refine ⟨fun delivery hdelivery signed hreport => ?_, fun delivery hdelivery now accepted => ?_,
      fun delivery hdelivery other hother hne => ?_⟩
    · obtain ⟨now, last, hlast, hget⟩ := exists_get_queueAll hperm hdelivery hid
      rw [h last hlast delivery hdelivery, ← hid delivery hdelivery] at hget
      exact applyDeliveryReport_of_queued hreport hget
    · refine ⟨?_, fun id => get_recordHandoff_ne, fun other hother hne => ?_⟩
      · rw [recordHandoff]
        split <;> rfl
      · exact absurd (h other hother delivery hdelivery) hne
    · exact absurd (congrArg (·.payload.serviceId) (h delivery hdelivery other hother)) hne

end Plans

/-- Each planned delivery is tracked on its own, however the deliveries are queued, exactly if no
two different destinations can be reached. -/
theorem every_gateway_reports_iff (S : SignatureScheme DeliveryReport)
    (sha256 : List UInt8 → List UInt8) (services : Registry) (subscription : Subscription)
    (trigger : NotificationTrigger) (sourceEvent : List UInt8) (r : NotificationRegistry) :
    (∀ queue : List (Timestamp × PlannedDelivery),
      (queue.map Prod.snd).Perm (plan sha256 services subscription trigger sourceEvent).deliveries →
        TracksEach S services (plan sha256 services subscription trigger sourceEvent).deliveries
          (queueAll r queue)) ↔
      (subscription.wants trigger = true → ∀ a ∈ subscription.destinations,
        ∀ b ∈ subscription.destinations, Routable services a → Routable services b → a = b) := by
  have hid : ∀ other ∈ (plan sha256 services subscription trigger sourceEvent).deliveries,
      other.payload.notificationId = .derive sha256 trigger sourceEvent subscription.wallet := by
    intro other hother
    obtain ⟨-, destination, -, hroute⟩ := mem_plan.mp hother
    exact (route_ok hroute).2.1
  rw [tracksEach_iff hid]
  constructor
  · intro h hwants a ha b hb hroutable hroutable'
    obtain ⟨delivery, hdelivery⟩ := exists_route hroutable
    obtain ⟨other, hother⟩ := exists_route hroutable'
    have heq := h delivery (mem_plan.mpr ⟨hwants, a, ha, hdelivery⟩) other
      (mem_plan.mpr ⟨hwants, b, hb, hother⟩)
    rw [(route_ok hdelivery).2.2, (route_ok hother).2.2, heq]
  · intro h delivery hdelivery other hother
    obtain ⟨hwants, a, ha, hdelivery⟩ := mem_plan.mp hdelivery
    obtain ⟨-, b, hb, hother⟩ := mem_plan.mp hother
    obtain rfl := h hwants a ha b hb (route_ok hdelivery).1 (route_ok hother).1
    exact Except.ok.inj (hdelivery.symm.trans hother)

namespace TwoGateways

def scheme : SignatureScheme DeliveryReport where
  verify key report _ := decide (key = report.providerPublicKey)
  peerIdFromPublicKey key := some ⟨key.bytes⟩

def gateway (id : String) (channel : NotificationChannel) (k : UInt8) :
    ServiceRegistry.ServiceRecord :=
  ServiceRegistry.intoRecord ⟨⟨id⟩, .notifications channel, peer k, .filled k, ["https"], [6000],
    none, [], none, none, none, 0⟩

def services : Registry :=
  (RecordStore.empty.put (gateway "sms" .sms 1)).put (gateway "email" .email 2)

def subscription : Subscription :=
  ⟨peer 3, .filled 3, [.trading], [⟨⟨"sms"⟩, .sms, ⟨[], [], []⟩⟩,
    ⟨⟨"email"⟩, .email, ⟨[], [], []⟩⟩], 0⟩

def planned : RoutingPlan := plan List.reverse services subscription .tradeCompleted [7]

/-- Both deliveries are queued as planned. -/
def queued : NotificationRegistry :=
  queueAll ⟨.empty, .empty⟩ (planned.deliveries.map fun delivery => (1, delivery))

def id : NotificationId := .derive List.reverse .tradeCompleted [7] (peer 3)

def report (service : String) (k : UInt8) : Signed DeliveryReport :=
  ⟨⟨id, ⟨service⟩, peer k, .filled k, peer 3, .tradeCompleted, .delivered, 5⟩, ⟨[]⟩⟩

end TwoGateways

open TwoGateways in
/-- Two deliveries are planned; the first gateway's report is refused, and the handoff of the first
delivery marks the record of the second. -/
theorem first_gateway_refused :
    planned.deliveries.map (·.payload.serviceId) = [⟨"sms"⟩, ⟨"email"⟩] ∧
      (applyDeliveryReport scheme services queued (report "sms" 1)).map (fun _ => ()) =
        .error .unauthorized ∧
      (applyDeliveryReport scheme services queued (report "email" 2)).isOk = true ∧
      ((recordHandoff queued 2 id true).dispatches.get id).map
        (fun record => (record.serviceId, record.status)) = some (⟨"email"⟩, .sent) := by
  decide +kernel

end OpenFiat.NotificationRouting
