import OpenFiat.IdentityClaims

/-!
# What pruning does to the identity registry

A sweep is meant to be invisible: it reclaims claims that can no longer be live, so every later
reading of the registry is the same with it and without it. Two things stand in the way. The
sweep counts the claims of all wallets as replacements, while a live claim can only be replaced
by its own wallet. And it measures the age of each claim by itself, so a claim can go before the
claim that it replaced.
-/
namespace OpenFiat.ClaimPruning
open GuardedResult NodePayloads RecordStores IdentityClaims

def publishAll (P : IdentityPlatform) (r : IdentityRegistry)
    (claims : List (Timestamp × Signed ClaimPublish)) : Except IdentityError IdentityRegistry :=
  claims.foldlM (fun r e => applyPublish P e.1 r e.2) r

/-- Nobody outside the wallet has a say about an old claim, and a young claim that the wallet
has replaced keeps a replacement. -/
structure Secured (now : Timestamp) (r : IdentityRegistry) : Prop where
  old : ∀ c ∈ all r, c.isValid now = true → c.updatedAt ≤ cutoff now →
    ∀ d ∈ all r, d.supersedes = some c.id → d.wallet ≠ c.wallet →
      ∃ e ∈ all r, e.wallet = c.wallet ∧ e.supersedes = some c.id
  young : ∀ c ∈ all r, c.isValid now = true → cutoff now < c.updatedAt →
    ∀ d ∈ all r, d.wallet = c.wallet → d.supersedes = some c.id →
      ∃ e ∈ all r, e.wallet = c.wallet ∧ e.supersedes = some c.id ∧
        (cutoff now < e.updatedAt ∨ e.isValid now = true ∧ ∀ f ∈ all r, f.supersedes ≠ some e.id)

variable {r : IdentityRegistry} {now : Timestamp} {wallet : PeerId} {c d : Claim}

theorem reclaimable_iff : reclaimable (all r) now c = true ↔
    (c.isValid now = true → ∃ d ∈ all r, d.supersedes = some c.id) ∧ c.updatedAt ≤ cutoff now := by
  have hrevoked : c.revoked = true → c.isValid now = false := by
    intro h
    rw [Claim.isValid, h]
    rfl
  rw [reclaimable, Bool.and_eq_true, Bool.or_eq_true, decide_eq_true_eq, mem_superseded]
  cases hvalid : c.isValid now with
  | true =>
    have hlive : c.revoked ≠ true := fun h => by
      rw [hrevoked h] at hvalid
      cases hvalid
    simp [hlive]
  | false => simp

theorem keeps_iff : (!reclaimable (all r) now c) = true ↔
    cutoff now < c.updatedAt ∨ c.isValid now = true ∧ ∀ d ∈ all r, d.supersedes ≠ some c.id := by
  rw [Bool.not_eq_true', Bool.eq_false_iff, Ne, reclaimable_iff, not_and_or, or_comm]
  simp

theorem replaces_iff : d.replaces c = true ↔ d.supersedes = some c.id := by
  rw [Claim.replaces, decide_eq_true_eq]

theorem mem_claimsInForce : c ∈ claimsInForce (findByWallet r wallet) now ↔
    (c ∈ all r ∧ c.wallet = wallet) ∧ c.isValid now = true ∧
      ∀ d ∈ all r, d.wallet = wallet → d.supersedes ≠ some c.id := by
  rw [claimsInForce, mem_inForce, mem_findByWallet]
  refine and_congr_right' (and_congr_right' ?_)
  constructor
  · intro h d hd hwallet hd'
    exact Bool.eq_false_iff.mp (h d (mem_findByWallet.mpr ⟨hd, hwallet⟩)) (replaces_iff.mpr hd')
  · intro h d hd
    obtain ⟨hd, hwallet⟩ := mem_findByWallet.mp hd
    exact Bool.eq_false_iff.mpr fun hr => h d hd hwallet (replaces_iff.mp hr)

/-- The sweep takes no claim in force exactly if old claims are replaced by their own wallets. -/
theorem keeps_inForce_iff :
    (∀ wallet, ∀ c ∈ claimsInForce (findByWallet r wallet) now,
      (!reclaimable (all r) now c) = true) ↔
    ∀ c ∈ all r, c.isValid now = true → c.updatedAt ≤ cutoff now →
      ∀ d ∈ all r, d.supersedes = some c.id → d.wallet ≠ c.wallet →
        ∃ e ∈ all r, e.wallet = c.wallet ∧ e.supersedes = some c.id := by
  constructor
  · intro h c hc hvalid hold d hd hsupersedes _
    by_contra hnone
    have hforce : c ∈ claimsInForce (findByWallet r c.wallet) now :=
      mem_claimsInForce.mpr ⟨⟨hc, rfl⟩, hvalid, fun e he hwallet h' => hnone ⟨e, he, hwallet, h'⟩⟩
    rcases keeps_iff.mp (h c.wallet c hforce) with hyoung | ⟨-, hunnamed⟩
    · exact absurd hold (not_le.mpr hyoung)
    · exact hunnamed d hd hsupersedes
  · intro h wallet c hforce
    obtain ⟨⟨hc, rfl⟩, hvalid, hown⟩ := mem_claimsInForce.mp hforce
    rw [keeps_iff]
    rcases lt_or_ge (cutoff now) c.updatedAt with hyoung | hold
    · exact .inl hyoung
    · refine .inr ⟨hvalid, fun d hd hsupersedes => ?_⟩
      have hforeign : d.wallet ≠ c.wallet := fun hwallet => hown d hd hwallet hsupersedes
      obtain ⟨e, he, hwallet, he'⟩ := h c hc hvalid hold d hd hsupersedes hforeign
      exact hown e he hwallet he'

/-- No claim comes back into force exactly if young claims keep a replacement. -/
theorem keeps_replaced_iff :
    (∀ wallet, ∀ c ∈ findByWallet r wallet, (!reclaimable (all r) now c) = true →
      c.isValid now = true → ∀ d ∈ findByWallet r wallet, d.replaces c = true →
        ∃ e ∈ findByWallet r wallet, (!reclaimable (all r) now e) = true ∧ e.replaces c = true) ↔
    ∀ c ∈ all r, c.isValid now = true → cutoff now < c.updatedAt →
      ∀ d ∈ all r, d.wallet = c.wallet → d.supersedes = some c.id →
        ∃ e ∈ all r, e.wallet = c.wallet ∧ e.supersedes = some c.id ∧
          (cutoff now < e.updatedAt ∨
            e.isValid now = true ∧ ∀ f ∈ all r, f.supersedes ≠ some e.id) := by
  constructor
  · intro h c hc hvalid hyoung d hd hwallet hsupersedes
    obtain ⟨e, he, hkeep, hreplaces⟩ := h c.wallet c (mem_findByWallet.mpr ⟨hc, rfl⟩)
      (keeps_iff.mpr (.inl hyoung)) hvalid d (mem_findByWallet.mpr ⟨hd, hwallet⟩)
      (replaces_iff.mpr hsupersedes)
    obtain ⟨he, hwallet'⟩ := mem_findByWallet.mp he
    exact ⟨e, he, hwallet', replaces_iff.mp hreplaces, keeps_iff.mp hkeep⟩
  · intro h wallet c hc hkeep hvalid d hd hreplaces
    obtain ⟨hall, rfl⟩ := mem_findByWallet.mp hc
    obtain ⟨hd, hwallet⟩ := mem_findByWallet.mp hd
    have hsupersedes : d.supersedes = some c.id := replaces_iff.mp hreplaces
    -- a claim that is replaced stays only because it is young
    rcases keeps_iff.mp hkeep with hyoung | ⟨-, hunnamed⟩
    · obtain ⟨e, he, hwallet', he', hkeep'⟩ := h c hall hvalid hyoung d hd hwallet hsupersedes
      exact ⟨e, mem_findByWallet.mpr ⟨he, hwallet'⟩, keeps_iff.mpr hkeep', replaces_iff.mpr he'⟩
    · exact absurd hsupersedes (hunnamed d hd)

/-- The claims in force stay the same for every wallet exactly in a secured registry. -/
theorem claimsInForce_prune_iff :
    (∀ wallet, claimsInForce (findByWallet (prune now r).1 wallet) now =
      claimsInForce (findByWallet r wallet) now) ↔ Secured now r := by
  have hsplit (wallet : PeerId) :
      inForce Claim.replaces (Claim.isValid · now)
          ((findByWallet r wallet).filter fun c => !reclaimable (all r) now c) =
        inForce Claim.replaces (Claim.isValid · now) (findByWallet r wallet) ↔ _ :=
    inForce_filter_eq_iff
  simp only [claimsInForce, findByWallet_prune, hsplit, forall_and]
  constructor
  · rintro ⟨hforce, hreplaced⟩
    exact ⟨keeps_inForce_iff.mp hforce, keeps_replaced_iff.mp hreplaced⟩
  · rintro ⟨hold, hyoung⟩
    exact ⟨keeps_inForce_iff.mpr hold, keeps_replaced_iff.mpr hyoung⟩

/-- Reading the registry at no time at or after the sweep tells whether it took place, and the
sweep removes no live claim. -/
def Invisible (P : IdentityPlatform) (now : Timestamp) (r : IdentityRegistry) : Prop :=
  (∀ c ∈ all r, c.id ∈ liveClaimIds r c.wallet now → (prune now r).1.get c.id = some c) ∧
  ∀ wallet t, now ≤ t →
    liveClaimIds (prune now r).1 wallet t = liveClaimIds r wallet t ∧
    encryptionKey P (prune now r).1 wallet t = encryptionKey P r wallet t

theorem mem_all_of_mem_all_prune (h : c ∈ all (prune now r).1) : c ∈ all r := by
  rw [all_prune] at h
  exact (List.mem_filter.mp h).1

theorem claimsInForce_eq_of_liveClaimIds_eq
    (h : liveClaimIds (prune now r).1 wallet now = liveClaimIds r wallet now) :
    claimsInForce (findByWallet (prune now r).1 wallet) now =
      claimsInForce (findByWallet r wallet) now := by
  rw [findByWallet_prune]
  refine inForce_filter_ext fun c => ?_
  rw [← findByWallet_prune]
  constructor
  · intro hc
    have hmem : c ∈ all (prune now r).1 := (mem_claimsInForce.mp hc).1.1
    rw [← claimsInForce, ← mem_liveClaimIds hmem, h] at hc
    exact (mem_liveClaimIds (mem_all_of_mem_all_prune hmem)).mp hc
  · intro hc
    have hmem : c ∈ all r := (mem_claimsInForce.mp hc).1.1
    rw [← claimsInForce, ← mem_liveClaimIds hmem, ← h, liveClaimIds_eq, List.mem_toFinset] at hc
    -- the id stands for the same claim before and after
    obtain ⟨e, he, hid⟩ := List.mem_map.mp hc
    have hmem' : e ∈ all (prune now r).1 := (mem_claimsInForce.mp he).1.1
    rw [← RecordStore.eq_of_id_eq (mem_all_of_mem_all_prune hmem') hmem hid]
    exact he

/-- Later readings, once the claims in force at the time of the sweep are the same. -/
theorem readings_prune {t : Timestamp} (P : IdentityPlatform) (ht : now ≤ t)
    (h : claimsInForce (findByWallet (prune now r).1 wallet) now =
      claimsInForce (findByWallet r wallet) now) :
    liveClaimIds (prune now r).1 wallet t = liveClaimIds r wallet t ∧
      encryptionKey P (prune now r).1 wallet t = encryptionKey P r wallet t := by
  have hforce : claimsInForce (findByWallet (prune now r).1 wallet) t =
      claimsInForce (findByWallet r wallet) t := by
    rw [findByWallet_prune] at h ⊢
    exact inForce_filter_eq_of_sound h fun c _ => isValid_of_le ht
  constructor
  · rw [liveClaimIds_eq, liveClaimIds_eq, hforce]
  · rw [encryptionKey, encryptionKey, currentEncryptionKey_eq, currentEncryptionKey_eq, hforce]

theorem prune_invisible_iff (P : IdentityPlatform) (now : Timestamp) (r : IdentityRegistry) :
    Invisible P now r ↔ Secured now r := by
  rw [← claimsInForce_prune_iff]
  constructor
  · intro h wallet
    exact claimsInForce_eq_of_liveClaimIds_eq (h.2 wallet now le_rfl).1
  · intro h
    refine ⟨fun c hc hlive => ?_, fun wallet t ht => readings_prune P ht (h wallet)⟩
    rw [mem_liveClaimIds hc, ← h c.wallet] at hlive
    exact RecordStore.mem_all.mp (mem_claimsInForce.mp hlive).1.1

namespace Visible

def platform : IdentityPlatform where
  verify _ _ _ := true
  peerIdFromPublicKey key := some ⟨key.bytes⟩
  isCid _ := true
  parseEncryptionKey value := some ⟨[if value = "first" then 1 else 2]⟩

def day : ℕ := 24 * 60 * 60 * 1000

def claimBy (b : UInt8) (id : String) (claimType : ClaimType) (supersedes : Option ClaimId)
    (expiresAt : Option Timestamp) (timestamp : Timestamp) : Signed ClaimPublish :=
  ⟨⟨⟨id⟩, peer b, .filled b, claimType, id, false, supersedes, expiresAt, timestamp⟩, ⟨[]⟩⟩

def foreignWord : List (Timestamp × Signed ClaimPublish) :=
  [(0, claimBy 1 "mail" .email none none 0),
    (0, claimBy 2 "other" .email (some ⟨"mail"⟩) none 0)]

/-- An encryption key that is stamped in the future, and its replacement, which expires. -/
def shortLived : List (Timestamp × Signed ClaimPublish) :=
  [(0, claimBy 1 "first" .encryptionKey none none (8 * day)),
    (day, claimBy 1 "second" .encryptionKey (some ⟨"first"⟩) (some (2 * day)) day)]

def registryOf (claims : List (Timestamp × Signed ClaimPublish)) : IdentityRegistry :=
  attempt .empty (publishAll platform .empty claims)

end Visible

open Visible in
/-- On the ninth day a sweep removes a live claim that another wallet named, and it lets a
superseded encryption key become current again. -/
theorem prune_visible :
    ((publishAll platform .empty foreignWord).isOk = true ∧
      (⟨"mail"⟩ : ClaimId) ∈ liveClaimIds (registryOf foreignWord) (peer 1) (9 * day) ∧
      (prune (9 * day) (registryOf foreignWord)).1.get ⟨"mail"⟩ = none) ∧
    (publishAll platform .empty shortLived).isOk = true ∧
      encryptionKey platform (registryOf shortLived) (peer 1) (9 * day) = none ∧
      encryptionKey platform (prune (9 * day) (registryOf shortLived)).1 (peer 1) (9 * day) =
        some ⟨[1]⟩ := by
  decide +kernel

end OpenFiat.ClaimPruning
