import OpenFiat.DeliveredRecords
import OpenFiat.NotificationRouting

/-!
# Subscription updates

A wallet signs each change of its subscription in full, and a gateway each status of a delivery.
Both overwrite what is on file, in the order in which a node happens to receive them: the time they
carry is stored and not looked at. The newest one stands on every node exactly if there is only
one.
-/
namespace OpenFiat.SubscriptionUpdates
open DeliveredRecords NodePayloads NotificationRouting TransactionRuns
open RecordStores (RecordStore)
open ServiceRegistry (Registry)

structure SubscriptionUpdate where
  wallet : PeerId
  walletPublicKey : PublicKey
  enabledCategories : List NotificationCategory
  destinations : List SubscriptionDestination
  timestamp : Timestamp

def verifyUpdate (S : SignatureScheme SubscriptionUpdate) (signed : Signed SubscriptionUpdate) :
    Except NotificationError Unit :=
  S.verifyAuthor signed.payload.walletPublicKey signed.payload.wallet signed.payload
    signed.signature .unauthorized .invalidSignature

def SubscriptionUpdate.subscription (update : SubscriptionUpdate) : Subscription :=
  ⟨update.wallet, update.walletPublicKey, update.enabledCategories, update.destinations,
    update.timestamp⟩

def applySubscriptionUpdate (S : SignatureScheme SubscriptionUpdate)
    (r : RecordStore Subscription.wallet) (signed : Signed SubscriptionUpdate) :
    Except NotificationError (RecordStore Subscription.wallet) := do
  verifyUpdate S signed
  return r.put signed.payload.subscription

/-- Reports arrive at a node that has dispatched what it has dispatched. -/
def applyReport (S : SignatureScheme DeliveryReport) (services : Registry)
    (dispatches : RecordStore DispatchRecord.notificationId)
    (receipts : RecordStore DeliveryReceipt.notificationId) (signed : Signed DeliveryReport) :
    Except NotificationError (RecordStore DeliveryReceipt.notificationId) :=
  (applyDeliveryReport S services ⟨dispatches, receipts⟩ signed).map (·.receipts)

variable (T : SignatureScheme SubscriptionUpdate) (S : SignatureScheme DeliveryReport)
  (services : Registry) (dispatches : RecordStore DispatchRecord.notificationId)

def offerSubscription (signed : Signed SubscriptionUpdate) : Option Subscription :=
  if (verifyUpdate T signed).isOk then some signed.payload.subscription else none

def offerReceipt (signed : Signed DeliveryReport) : Option DeliveryReceipt :=
  if (checkReport S services dispatches signed).isOk then some (receiptOf signed.payload) else none

theorem follows_applySubscriptionUpdate :
    Follows (applySubscriptionUpdate T) id (offerSubscription T) last := by
  intro r signed
  unfold offerSubscription
  cases hverify : verifyUpdate T signed with
  | error => exact apply_error (by rw [applySubscriptionUpdate, hverify]; rfl)
  | ok => exact apply_ok (by rw [applySubscriptionUpdate, hverify]; rfl)

theorem applyReport_eq (receipts : RecordStore DeliveryReceipt.notificationId)
    (signed : Signed DeliveryReport) : applyReport S services dispatches receipts signed =
      (checkReport S services dispatches signed).map
        fun _ => receipts.put (receiptOf signed.payload) := by
  rw [applyReport, applyDeliveryReport]
  cases checkReport S services dispatches signed <;> rfl

theorem follows_applyReport :
    Follows (applyReport S services dispatches) id (offerReceipt S services dispatches) last := by
  intro receipts signed
  have hstep := applyReport_eq S services dispatches receipts signed
  unfold offerReceipt
  cases hcheck : checkReport S services dispatches signed with
  | error => exact apply_error (by rw [hstep, hcheck]; rfl)
  | ok => exact apply_ok (by rw [hstep, hcheck]; rfl)

/-- However often and in whatever order they arrive, the newest update of each wallet and the newest
report on each notification stand exactly if no two different ones are accepted. -/
theorem newest_stands_iff (updates : List (Signed SubscriptionUpdate))
    (reports : List (Signed DeliveryReport)) :
    ((∃ newest : PeerId → Option Subscription, ∀ wallet,
        Greatest Subscription.updatedAt
          (offered Subscription.wallet (offerSubscription T) wallet updates) (newest wallet) ∧
        ∀ deliveries, (∀ d, d ∈ deliveries ↔ d ∈ updates) →
          (run (applySubscriptionUpdate T) .empty deliveries).get wallet = newest wallet) ↔
      Unequivocal Subscription.wallet (offerSubscription T) updates) ∧
    ((∃ newest : NotificationId → Option DeliveryReceipt, ∀ id,
        Greatest DeliveryReceipt.updatedAt (offered DeliveryReceipt.notificationId
          (offerReceipt S services dispatches) id reports) (newest id) ∧
        ∀ deliveries, (∀ d, d ∈ deliveries ↔ d ∈ reports) →
          (run (applyReport S services dispatches) .empty deliveries).get id = newest id) ↔
      Unequivocal DeliveryReceipt.notificationId (offerReceipt S services dispatches) reports) :=
  ⟨(follows_applySubscriptionUpdate T).newest_iff rfl _,
    (follows_applyReport S services dispatches).newest_iff rfl _⟩

namespace Replayed

def scheme : SignatureScheme SubscriptionUpdate where
  verify _ _ _ := true
  peerIdFromPublicKey key := some ⟨key.bytes⟩

def update (categories : List NotificationCategory) (time : Timestamp) :
    Signed SubscriptionUpdate :=
  ⟨⟨peer 1, .filled 1, categories, [], time⟩, ⟨[]⟩⟩

end Replayed

open Replayed in
/-- A wallet switches a category on and off again; whoever replays the first update switches it
on. -/
theorem replay_reenables :
    ((run (applySubscriptionUpdate scheme) .empty
        [update [.trading] 1, update [] 2, update [.trading] 1]).get (peer 1)).map
      (fun s => (s.enabledCategories, s.updatedAt)) = some ([.trading], 1) := by
  decide +kernel

end OpenFiat.SubscriptionUpdates
