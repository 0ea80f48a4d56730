import OpenFiat.ContentIds
import OpenFiat.DeliveredRecords
import OpenFiat.NodePayloads
import Mathlib.Data.Prod.Lex
import Mathlib.Data.String.Basic

/-!
# The attachment registry

A party to a trade publishes evidence under an id of its own choice. Anybody may sign an
attachment that names any settlement, so the registry stores what passes the checks that need no
state, and only the listing for a settlement drops what is not by one of its parties. The ids
form one space, and the first attachment under an id stays: evidence is safe from the order of
arrival exactly if nobody else uses its id.
-/
namespace OpenFiat.AttachmentRegistry
open DeliveredRecords GuardedResult NodePayloads RecordStores TransactionRuns
open ContentIds (Cid)

structure AttachmentId where
  id : String
deriving DecidableEq, Repr

inductive AttachmentSubject where
  | settlement (id : SettlementId)
deriving DecidableEq, Repr

inductive MediaType where
  | png
  | jpeg
  | webp
  | pdf
deriving DecidableEq, Repr

structure Attachment where
  id : AttachmentId
  subject : AttachmentSubject
  author : PeerId
  authorPublicKey : PublicKey
  cid : Cid
  mediaType : MediaType
  sizeBytes : ℕ
  caption : String
  createdAt : Timestamp
deriving DecidableEq

inductive ContentError where
  | tooLarge
  | invalidSignature
  | notAParty
  | duplicateAttachmentId
  | malformedAttachment
deriving DecidableEq, Repr

def maxAttachmentBytes : ℕ := 10 * 1024 * 1024

def maxCaptionChars : ℕ := 200

abbrev Registry := RecordStore Attachment.id

def Attachment.validate (attachment : Attachment) : Except ContentError Unit := do
  require (¬ (attachment.sizeBytes = 0 ∨ maxAttachmentBytes < attachment.sizeBytes)) .tooLarge
  require (attachment.caption.toList.length ≤ maxCaptionChars) .malformedAttachment
  require (attachment.id.id ≠ "") .malformedAttachment

section Publication
variable (S : SignatureScheme Attachment)

def verify (signed : Signed Attachment) : Except ContentError Unit :=
  S.verifyAuthor signed.payload.authorPublicKey signed.payload.author signed.payload
    signed.signature .notAParty .invalidSignature

/-- The checks that need no state. -/
def check (signed : Signed Attachment) : Except ContentError Attachment := do
  verify S signed
  signed.payload.validate
  return signed.payload

def applyPublish (r : Registry) (signed : Signed Attachment) : Except ContentError Registry := do
  let attachment ← check S signed
  require ((r.get attachment.id).isNone = true) .duplicateAttachmentId
  return r.put attachment

end Publication

theorem attachmentId_injective : Function.Injective AttachmentId.id := by
  rintro ⟨_⟩ ⟨_⟩ h
  exact congrArg _ h

/-- Oldest first, then by id. -/
def Attachment.rank (attachment : Attachment) : Timestamp ×ₗ String :=
  toLex (attachment.createdAt, attachment.id.id)

def concerns (settlement : SettlementId) (parties : List PeerId) (attachment : Attachment) : Bool :=
  attachment.subject = .settlement settlement && attachment.author ∈ parties

def findBySettlement (r : Registry) (settlement : SettlementId) (parties : List PeerId) :
    List Attachment :=
  ((r.all AttachmentId.id attachmentId_injective).filter
    (concerns settlement parties)).insertionSort (·.rank ≤ ·.rank)

variable {S : SignatureScheme Attachment} {settlement : SettlementId} {parties : List PeerId}
  {ds : List (Signed Attachment)} {d : Signed Attachment} {a : Attachment}

/-- The attachment of a delivery that passes the checks. -/
def offer (S : SignatureScheme Attachment) (signed : Signed Attachment) : Option Attachment :=
  (check S signed).toOption

theorem offer_eq_some : offer S d = some a ↔
    verify S d = .ok () ∧ d.payload.validate = .ok () ∧ d.payload = a := by
  simp only [offer, toOption_eq_some, check, bind_ok, pure_ok]
  constructor
  · rintro ⟨_, hverify, _, hvalidate, heq⟩
    exact ⟨hverify, hvalidate, heq⟩
  · rintro ⟨hverify, hvalidate, heq⟩
    exact ⟨(), hverify, (), hvalidate, heq⟩

theorem follows_applyPublish : Follows (applyPublish S) id (offer S) first :=
  fun _ _ => apply_check rfl

/-- What stands under an id after a run is the first attachment that was offered for it. -/
theorem get_run (S : SignatureScheme Attachment) (ds : List (Signed Attachment))
    (k : AttachmentId) : (run (applyPublish S) .empty ds).get k =
      (offered Attachment.id (offer S) k ds).foldl (settle first) none :=
  follows_applyPublish.get_run .empty ds

theorem mem_findBySettlement {r : Registry} : a ∈ findBySettlement r settlement parties ↔
    r.get a.id = some a ∧ concerns settlement parties a = true := by
  rw [findBySettlement, List.mem_insertionSort, List.mem_filter, RecordStore.mem_all]

/-- The evidence that passes the checks is the only attachment to do so under its id. -/
def Unshared (S : SignatureScheme Attachment) (ds : List (Signed Attachment))
    (settlement : SettlementId) (parties : List PeerId) : Prop :=
  ∀ d ∈ ds, ∀ d' ∈ ds, ∀ a b, offer S d = some a → offer S d' = some b → a.id = b.id →
    concerns settlement parties a = true → a = b

theorem get_run_of_unshared {ds' : List (Signed Attachment)} (hds : ds'.Perm ds)
    (h : Unshared S ds settlement parties) (hconcerns : concerns settlement parties a = true) :
    (run (applyPublish S) .empty ds').get a.id = some a ↔ ∃ d ∈ ds, offer S d = some a := by
  rw [get_run]
  constructor
  · intro hget
    rw [foldl_first] at hget
    obtain ⟨⟨d, hd, ha⟩, -⟩ := mem_offered.mp (List.mem_of_mem_head? hget)
    exact ⟨d, hds.mem_iff.mp hd, ha⟩
  · rintro ⟨d, hd, ha⟩
    refine foldl_of_forall_eq (.inl rfl)
      (mem_offered.mpr ⟨⟨d, hds.mem_iff.mpr hd, ha⟩, rfl⟩) fun b hb => ?_
    obtain ⟨⟨d', hd', hb⟩, hid⟩ := mem_offered.mp hb
    exact (h d hd d' (hds.mem_iff.mp hd') a b ha hb hid.symm hconcerns).symm

theorem findBySettlement_eq {r r' : Registry} (h : ∀ a, concerns settlement parties a = true →
      (r.get a.id = some a ↔ r'.get a.id = some a)) :
    findBySettlement r settlement parties = findBySettlement r' settlement parties := by
  have hsorted (r : Registry) : (findBySettlement r settlement parties).Pairwise
      fun a b => a.rank < b.rank :=
    pairwise_lt_insertionSort (((RecordStore.pairwise_all r).filter _).imp fun hne hrank =>
      hne (attachmentId_injective (Prod.mk.inj (toLex.injective hrank)).2))
  refine FiniteTable.Table.eq_of_ascending _ (hsorted r) (hsorted r') fun a => ?_
  rw [mem_findBySettlement, mem_findBySettlement]
  exact and_congr_left (h a)

/-- The deliveries by one author under one id all carry the same attachment. -/
def UsedOnce (S : SignatureScheme Attachment) (ds : List (Signed Attachment)) (a : Attachment) :
    Prop :=
  ∀ d ∈ ds, verify S d = .ok () → d.payload.author = a.author → d.payload.id = a.id →
    d.payload = a

/-- Every two orders of the deliveries list the same evidence, with all that a party signed for
the settlement under an id that it used once, exactly if all of that passes the checks and no
evidence shares its id with another attachment. -/
theorem evidence_order_independent_iff (S : SignatureScheme Attachment)
    (ds : List (Signed Attachment)) (settlement : SettlementId) (buyer seller : PeerId) :
    (∀ ds₁ ds₂ : List (Signed Attachment), ds₁.Perm ds → ds₂.Perm ds →
      findBySettlement (run (applyPublish S) .empty ds₁) settlement [buyer, seller] =
        findBySettlement (run (applyPublish S) .empty ds₂) settlement [buyer, seller] ∧
      ∀ d ∈ ds, verify S d = .ok () → concerns settlement [buyer, seller] d.payload = true →
        UsedOnce S ds d.payload → d.payload ∈
          findBySettlement (run (applyPublish S) .empty ds₁) settlement [buyer, seller]) ↔
      (∀ d ∈ ds, verify S d = .ok () → concerns settlement [buyer, seller] d.payload = true →
        UsedOnce S ds d.payload → d.payload.validate = .ok ()) ∧
      Unshared S ds settlement [buyer, seller] := by
  constructor
  · intro h
    refine ⟨fun d hd hverify hconcerns honce => ?_, fun d hd d' hd' a b ha hb hid hconcerns => ?_⟩
    · have hget := (mem_findBySettlement.mp
        ((h ds ds (.refl ds) (.refl ds)).2 d hd hverify hconcerns honce)).1
      rw [get_run, foldl_first, Option.none_or] at hget
      obtain ⟨⟨d', -, ha⟩, -⟩ := mem_offered.mp (List.mem_of_mem_head? hget)
      obtain ⟨-, hvalidate, heq⟩ := offer_eq_some.mp ha
      exact heq ▸ hvalidate
    · -- one order puts `a` under the id, another one `b`
      have hoffered : a ∈ offered Attachment.id (offer S) a.id ds :=
        mem_offered.mpr ⟨⟨d, hd, ha⟩, rfl⟩
      have hoffered' : b ∈ offered Attachment.id (offer S) a.id ds :=
        mem_offered.mpr ⟨⟨d', hd', hb⟩, hid.symm⟩
      obtain ⟨ds₁, hperm₁, hstands₁⟩ := exists_perm_stands (.inl rfl) hoffered
      obtain ⟨ds₂, hperm₂, hstands₂⟩ := exists_perm_stands (.inl rfl) hoffered'
      have hmem := mem_findBySettlement.mpr ⟨(get_run S ds₁ a.id).trans hstands₁, hconcerns⟩
      rw [(h ds₁ ds₂ hperm₁ hperm₂).1, mem_findBySettlement, get_run, hstands₂] at hmem
      exact (Option.some.inj hmem.1).symm
  · rintro ⟨hvalid, hunshared⟩ ds₁ ds₂ hperm₁ hperm₂
    refine ⟨findBySettlement_eq fun a hconcerns => ?_, fun d hd hverify hconcerns honce => ?_⟩
    · rw [get_run_of_unshared hperm₁ hunshared hconcerns,
        get_run_of_unshared hperm₂ hunshared hconcerns]
    · refine mem_findBySettlement.mpr ⟨?_, hconcerns⟩
      refine (get_run_of_unshared hperm₁ hunshared hconcerns).mpr ⟨d, hd, ?_⟩
      exact offer_eq_some.mpr ⟨hverify, hvalid d hd hverify hconcerns honce, rfl⟩

namespace Displaced

def scheme : SignatureScheme Attachment where
  verify _ _ _ := true
  peerIdFromPublicKey key := some ⟨key.bytes⟩

def cid : Cid := ⟨ContentIds.plainText, by decide +kernel⟩

def attachment (n : UInt8) (settlement : String) : Signed Attachment :=
  ⟨⟨⟨"receipt"⟩, .settlement ⟨settlement⟩, peer n, .filled n, cid, .png, 4096, "", 0⟩, ⟨[]⟩⟩

def evidence (ds : List (Signed Attachment)) : List Attachment :=
  findBySettlement (run (applyPublish scheme) .empty ds) ⟨"s"⟩ [peer 1, peer 2]

end Displaced

open Displaced in
/-- A stranger's attachment to another trade, under the id of the buyer's receipt, keeps the
receipt out wherever it arrives first. -/
theorem evidence_displaced :
    evidence [attachment 1 "s", attachment 3 "t"] = [(attachment 1 "s").payload] ∧
      evidence [attachment 3 "t", attachment 1 "s"] = [] := by
  decide +kernel

end OpenFiat.AttachmentRegistry
