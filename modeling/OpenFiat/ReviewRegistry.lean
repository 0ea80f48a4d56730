import OpenFiat.DeliveredRecords
import OpenFiat.NodeSteps
import OpenFiat.PeerSpelling
import OpenFiat.SnapshotIndex
import OpenFiat.WireReaders

/-!
# The review registry

After a trade each party may review the other one. A review is stored under an id that is made of
its settlement and its author, and a later review by the same author of the same trade takes its
place; ties are broken by the encoded records. Whether the author was a party at all is asked when
the reviews of a settlement are listed: the settlement decides who reviews whom.
-/
namespace OpenFiat.ReviewRegistry
open DeliveredRecords GuardedResult NodePayloads PeerSpelling RecordStores TradingNode
  TransactionRuns WireReaders
open GossipEvents (utf8 utf8_injective)
open SnapshotIndex (keyOrder keyOrder_injective)

structure ReviewId where
  text : String
deriving DecidableEq, Repr

def ReviewId.of (B : Base58) (settlement : SettlementId) (author : PeerId) : ReviewId :=
  ⟨settlement.id ++ ":" ++ B.encode author.bytes⟩

inductive Rating where
  | one
  | two
  | three
  | four
  | five
deriving DecidableEq, Repr

def Rating.stars : Rating → UInt8
  | .one => 1
  | .two => 2
  | .three => 3
  | .four => 4
  | .five => 5

structure Review where
  settlement : SettlementId
  author : PeerId
  authorPublicKey : PublicKey
  rating : Rating
  comment : String
  createdAt : Timestamp
deriving DecidableEq

inductive ReviewError where
  | invalidSignature
  | alreadyReviewed
  | malformedReview
deriving DecidableEq, Repr

def maxCommentChars : ℕ := 500

/-- Control characters and the marks that turn the direction of a text; a line break is none. -/
def isDisplayHazard (c : Char) : Bool :=
  c ≠ '\n' && (c.toNat < 0x20 || (0x7f ≤ c.toNat && c.toNat < 0xa0) ||
    (0x202a ≤ c.toNat && c.toNat ≤ 0x202e) || (0x2066 ≤ c.toNat && c.toNat ≤ 0x2069))

def Review.id (B : Base58) (review : Review) : ReviewId :=
  .of B review.settlement review.author

def Review.validate (review : Review) : Except ReviewError Unit := do
  require (review.comment.toList.length ≤ maxCommentChars) .malformedReview
  require (review.comment.toList.any isDisplayHazard = false) .malformedReview

/-- The fields in order, as the wire format writes them. -/
def Review.toBytes (review : Review) : List UInt8 :=
  frame (utf8 review.settlement.id) ++ (frame review.author.bytes ++
    (review.authorPublicKey.bytes ++ (review.rating.stars :: (frame (utf8 review.comment) ++
      fullVarint review.createdAt))))

abbrev Registry (B : Base58) := RecordStore (Review.id B)

def verify (S : SignatureScheme Review) (signed : Signed Review) : Except ReviewError Unit :=
  S.verifyAuthor signed.payload.authorPublicKey signed.payload.author signed.payload
    signed.signature .invalidSignature .invalidSignature

/-- The checks that need no state. -/
def check (S : SignatureScheme Review) (signed : Signed Review) : Except ReviewError Review := do
  verify S signed
  signed.payload.validate
  return signed.payload

def Review.rank (review : Review) : Timestamp ×ₗ List ℕ :=
  toLex (review.createdAt, keyOrder review.toBytes)

def supersedes (incoming existing : Review) : Bool := existing.rank < incoming.rank

def applyPublish (S : SignatureScheme Review) (B : Base58) (r : Registry B)
    (signed : Signed Review) : Except ReviewError (Registry B) := do
  let review ← check S signed
  require ((r.get (review.id B)).all (supersedes review) = true) .alreadyReviewed
  return r.put review

structure PublishedReview where
  id : ReviewId
  settlement : SettlementId
  author : PeerId
  about : PeerId
  rating : Rating
  comment : String
  createdAt : Timestamp
deriving DecidableEq

def PublishedReview.new (B : Base58) (review : Review) (about : PeerId) : PublishedReview where
  id := review.id B
  __ := review
  about := about

def isSettled (state : SettlementState) : Bool := state = .approved || state = .completed

/-- Who the author may review on a settlement, if anyone. -/
def subjectOf (settlement : Settlement) (author : PeerId) : Option PeerId :=
  if !isSettled settlement.state then none
  else if author = settlement.buyer then some settlement.seller
  else if author = settlement.seller then some settlement.buyer
  else none

/-- Oldest first, then by id. -/
def PublishedReview.rank (review : PublishedReview) : Timestamp ×ₗ String :=
  toLex (review.createdAt, review.id.text)

/-- The review that one party has on file, if it may review the trade. -/
def reviewBy (B : Base58) (r : Registry B) (id : SettlementId) (settlement : Settlement)
    (party : PeerId) : Option PublishedReview := do
  let review ← r.get (.of B id party)
  let about ← subjectOf settlement review.author
  return .new B review about

def findForSettlement (B : Base58) (r : Registry B) (id : SettlementId) (settlement : Settlement) :
    List PublishedReview :=
  ([settlement.buyer, settlement.seller].filterMap (reviewBy B r id settlement)).insertionSort
    (·.rank ≤ ·.rank)

variable {S : SignatureScheme Review} {B : Base58} {r : Registry B} {id : SettlementId}
  {settlement : Settlement} {d : Signed Review} {review : Review}

variable {author : PeerId}

theorem of_inj {id id' : SettlementId} {author' : PeerId} :
    ReviewId.of B id author = .of B id' author' ↔ id = id' ∧ author = author' := by
  obtain ⟨id⟩ := id
  obtain ⟨bytes⟩ := author
  rw [SettlementId.mk.injEq, PeerId.mk.injEq]
  refine ⟨fun h => B.append_colon_inj (congrArg ReviewId.text h), ?_⟩
  rintro ⟨rfl, rfl⟩
  rfl

theorem parties_of_get (h : r.get (.of B id author) = some review) :
    review.settlement = id ∧ review.author = author := by
  have hid : review.id B = .of B id author := RecordStore.idOf_get h
  exact of_inj.mp hid

theorem stars_injective : Function.Injective Rating.stars := by
  intro a b h
  cases a <;> cases b <;> first | rfl | cases h

theorem toBytes_injective : Function.Injective Review.toBytes := by
  intro a b h
  obtain ⟨⟨id⟩, ⟨author⟩, key, rating, comment, time⟩ := a
  obtain ⟨⟨id'⟩, ⟨author'⟩, key', rating', comment', time'⟩ := b
  obtain ⟨hid, h⟩ := reads_frame.append_inj h
  obtain ⟨hauthor, h⟩ := reads_frame.append_inj h
  obtain ⟨hkey, h⟩ := List.append_inj h (key.length_eq.trans key'.length_eq.symm)
  obtain ⟨hrating, h⟩ := List.cons.inj h
  obtain ⟨hcomment, h⟩ := reads_frame.append_inj h
  have htime := reads_fullVarint.injective h
  obtain rfl := utf8_injective hid
  obtain rfl : author = author' := hauthor
  obtain rfl := PublicKey.ext hkey
  obtain rfl := utf8_injective hcomment
  obtain rfl : time = time' := htime
  obtain rfl := stars_injective hrating
  rfl

theorem rank_injective : Function.Injective Review.rank :=
  fun _ _ h => toBytes_injective (keyOrder_injective (Prod.mk.inj (toLex.injective h)).2)

/-- The review of a delivery that passes the checks. -/
def offer (S : SignatureScheme Review) (signed : Signed Review) : Option Review :=
  (check S signed).toOption

theorem follows_applyPublish :
    Follows (applyPublish S B) (fun r => r) (offer S) (greatest Review.rank) :=
  fun _ _ => apply_check rfl

/-- A delivered review of a settlement by an author that passes the checks. -/
def Delivered (S : SignatureScheme Review) (ds : List (Signed Review)) (id : SettlementId)
    (author : PeerId) (review : Review) : Prop :=
  (∃ d ∈ ds, d.payload = review ∧ verify S d = .ok () ∧ review.validate = .ok ()) ∧
    review.settlement = id ∧ review.author = author

theorem mem_offered_iff {ds : List (Signed Review)} :
    review ∈ offered (Review.id B) (offer S) (.of B id author) ds ↔
      Delivered S ds id author review := by
  rw [mem_offered, Review.id, of_inj]
  refine and_congr_left fun _ => exists_congr fun d => and_congr_right fun _ => ?_
  simp only [offer, toOption_eq_some, check, bind_ok, pure_ok]
  constructor
  · rintro ⟨_, hverify, _, hvalidate, rfl⟩
    exact ⟨rfl, hverify, hvalidate⟩
  · rintro ⟨rfl, hverify, hvalidate⟩
    exact ⟨(), hverify, (), hvalidate, rfl⟩

theorem get_run_eq_some {ds : List (Signed Review)} :
    (run (applyPublish S B) .empty ds).get (.of B id author) = some review ↔
      Delivered S ds id author review ∧
        ∀ other, Delivered S ds id author other → other.rank ≤ review.rank := by
  have hrun : (run (applyPublish S B) .empty ds).get (.of B id author) = _ :=
    follows_applyPublish.get_run .empty ds
  rw [hrun]
  refine ((greatest_foldl Review.rank _).eq_some_iff rank_injective).trans ?_
  simp only [mem_offered_iff]

/-- After any deliveries a settlement and an author have on file the greatest of the author's
well-formed reviews of it, however the deliveries were ordered or repeated, and no other key
holds it. -/
theorem reviews_converge (S : SignatureScheme Review) (B : Base58) (ds : List (Signed Review)) :
    (∀ id author review, (run (applyPublish S B) .empty ds).get (.of B id author) = some review ↔
      Delivered S ds id author review ∧
        ∀ other, Delivered S ds id author other → other.rank ≤ review.rank) ∧
    (∀ ds', (∀ d, d ∈ ds' ↔ d ∈ ds) → ∀ id author,
      (run (applyPublish S B) .empty ds').get (.of B id author) =
        (run (applyPublish S B) .empty ds).get (.of B id author)) ∧
    ∀ key review, (run (applyPublish S B) .empty ds).get key = some review →
      ∀ id author, .of B id author = key → review.settlement = id ∧ review.author = author := by
  refine ⟨fun id author review => get_run_eq_some, fun ds' hds id author => ?_, ?_⟩
  · refine Option.ext fun review => ?_
    rw [get_run_eq_some, get_run_eq_some]
    simp only [Delivered, hds]
  · rintro key review hget id author rfl
    exact parties_of_get hget

theorem reviewBy_eq_some {party : PeerId} {shown : PublishedReview} :
    reviewBy B r id settlement party = some shown ↔ ∃ review about,
      r.get (.of B id party) = some review ∧ review.author = party ∧
        subjectOf settlement party = some about ∧ shown = .new B review about := by
  simp only [reviewBy, Option.bind_eq_bind, Option.bind_eq_some_iff, Option.pure_def,
    Option.some.injEq]
  constructor
  · rintro ⟨review, hget, about, habout, rfl⟩
    have hauthor : review.author = party := (parties_of_get hget).2
    exact ⟨review, about, hget, hauthor, hauthor ▸ habout, rfl⟩
  · rintro ⟨review, about, hget, rfl, habout, rfl⟩
    exact ⟨review, hget, about, habout, rfl⟩

theorem mem_findForSettlement {shown : PublishedReview} :
    shown ∈ findForSettlement B r id settlement ↔
      ∃ party, (party = settlement.buyer ∨ party = settlement.seller) ∧
        reviewBy B r id settlement party = some shown := by
  simp [findForSettlement, List.mem_insertionSort, List.mem_filterMap]

theorem subjectOf_eq_some {about : PeerId} (h : subjectOf settlement author = some about) :
    isSettled settlement.state = true ∧
      (author = settlement.buyer ∧ about = settlement.seller ∨
        author = settlement.seller ∧ about = settlement.buyer) := by
  unfold subjectOf at h
  split_ifs at h with hsettled hbuyer hseller
  · exact ⟨by simpa using hsettled, .inl ⟨hbuyer, (Option.some.inj h).symm⟩⟩
  · exact ⟨by simpa using hsettled, .inr ⟨hseller, (Option.some.inj h).symm⟩⟩

/-- The reviews shown for a trade are by its parties, one each, about the other party, exactly
if the parties are two, or the trade is not settled, or its only party has no review on file. -/
theorem shown_reviews_about_other_iff (B : Base58) (r : Registry B) (id : SettlementId)
    (settlement : Settlement) :
    ((findForSettlement B r id settlement).Pairwise fun a b => a.author ≠ b.author) ∧
      (∀ shown ∈ findForSettlement B r id settlement, isSettled settlement.state = true ∧
        shown.about ≠ shown.author ∧
          (shown.author = settlement.buyer ∧ shown.about = settlement.seller ∨
            shown.author = settlement.seller ∧ shown.about = settlement.buyer)) ↔
      (settlement.buyer = settlement.seller → isSettled settlement.state = true →
        r.get (.of B id settlement.buyer) = none) := by
  constructor
  · rintro ⟨-, hshown⟩ hsame hsettled
    by_contra hsome
    obtain ⟨review, hget⟩ := Option.ne_none_iff_exists'.mp hsome
    have hauthor : review.author = settlement.buyer := (parties_of_get hget).2
    have hsubject : subjectOf settlement settlement.buyer = some settlement.seller := by
      rw [subjectOf, hsettled, if_neg (by decide), if_pos rfl]
    have hmem := mem_findForSettlement.mpr ⟨_, .inl rfl,
      reviewBy_eq_some.mpr ⟨review, _, hget, hauthor, hsubject, rfl⟩⟩
    exact (hshown _ hmem).2.1 (hsame.symm.trans hauthor.symm)
  · intro h
    have hne {party : PeerId} {shown : PublishedReview}
        (hparty : party = settlement.buyer ∨ party = settlement.seller)
        (hby : reviewBy B r id settlement party = some shown) :
        settlement.buyer ≠ settlement.seller := by
      intro hsame
      obtain ⟨review, about, hget, -, habout, -⟩ := reviewBy_eq_some.mp hby
      have hbuyer : party = settlement.buyer := hparty.elim (fun h => h) (·.trans hsame.symm)
      rw [hbuyer, h hsame (subjectOf_eq_some habout).1] at hget
      cases hget
    refine ⟨?_, fun shown hmem => ?_⟩
    · refine ((List.perm_insertionSort _ _).pairwise_iff fun h => Ne.symm h).mpr ?_
      refine List.Pairwise.filterMap (R := fun a a' => a = settlement.buyer ∧
        a' = settlement.seller)
        _ ?_ (by simp)
      rintro _ _ ⟨rfl, rfl⟩ shown hby shown' hby'
      have hdiff := hne (.inl rfl) hby
      obtain ⟨_, _, -, hauthor, -, rfl⟩ := reviewBy_eq_some.mp hby
      obtain ⟨_, _, -, hauthor', -, rfl⟩ := reviewBy_eq_some.mp hby'
      exact fun heq => hdiff (hauthor.symm.trans (heq.trans hauthor'))
    · obtain ⟨party, hparty, hby⟩ := mem_findForSettlement.mp hmem
      have hdiff := hne hparty hby
      obtain ⟨review, about, hget, rfl, habout, rfl⟩ := reviewBy_eq_some.mp hby
      obtain ⟨hsettled, hcases⟩ := subjectOf_eq_some habout
      refine ⟨hsettled, ?_, hcases⟩
      rcases hcases with ⟨hauthor, habout⟩ | ⟨hauthor, habout⟩
      · exact fun heq => hdiff (hauthor.symm.trans (heq.symm.trans habout))
      · exact fun heq => hdiff (habout.symm.trans (heq.trans hauthor))

namespace Samples

def scheme : SignatureScheme Review where
  verify _ _ _ := true
  peerIdFromPublicKey key := some ⟨key.bytes.take 1⟩

def wallet : PeerId := ⟨[1]⟩

def published (comment : String) : Signed Review :=
  ⟨⟨⟨"s"⟩, wallet, .filled 1, .five, comment, 0⟩, ⟨[]⟩⟩

def registry (comment : String) : Registry .unary :=
  run (applyPublish scheme .unary) .empty [published comment]

def platform : NodePlatform :=
  { NodeSteps.signedPlatform [] with
    verify := fun _ _ _ => true
    peerIdFromPublicKey := fun key => some ⟨key.bytes.take 1⟩ }

/-- A trade in which one wallet is buyer and seller, up to its approval. -/
def settled : Except SettlementError Node := do
  let w ← SettlementRegistry.applyInitiate platform 0 emptyNode
    ⟨⟨⟨"s"⟩, ⟨"r"⟩, wallet, .filled 1, wallet, .filled 1, .new 1 0, 0⟩, ⟨[]⟩⟩
  let w ← SettlementRegistry.applyPaymentSubmitted platform w ⟨⟨⟨"s"⟩, wallet, none, 0⟩, ⟨[]⟩⟩
  SettlementRegistry.applyApproved platform 0 w ⟨⟨⟨"s"⟩, wallet, 0⟩, ⟨[]⟩⟩

end Samples

open Samples in
/-- A validly signed review with a carriage return is not stored. -/
theorem malformed_review_not_stored :
    verify scheme (published "\r") = .ok () ∧
      (registry "\r").get (.of .unary ⟨"s"⟩ wallet) = none := by
  decide +kernel

open Samples in
/-- The wallet's review of the trade is shown twice, both times about the wallet itself. -/
theorem wallet_reviews_itself :
    (settled.toOption.bind fun w => w.settlements.lookup ⟨"s"⟩).map (fun settlement =>
      (findForSettlement .unary (registry "") ⟨"s"⟩ settlement).map fun shown =>
        (shown.author, shown.about)) = some [(wallet, wallet), (wallet, wallet)] := by
  decide +kernel

end OpenFiat.ReviewRegistry
