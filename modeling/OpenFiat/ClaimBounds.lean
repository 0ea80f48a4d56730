import OpenFiat.ClaimPruning
import OpenFiat.TransactionRuns

/-!
# How many claims a wallet can store

The cap of the identity registry counts live claims when a claim is published, and a sweep
reclaims dead claims by their stamps. Neither bounds what is stored: a claim that is dead when it
is published is never counted, and it stays until the stamp that its author gave it is old. And a
sweep that takes a claim before the claim that it superseded puts the older one back, past the
cap.

Where no claim is stamped before the one that it supersedes, the cap holds at every moment, and a
sweep leaves no more than the live claims and those stamped inside the retention time.
-/
namespace OpenFiat.ClaimBounds
open GuardedResult NodePayloads RecordStores IdentityClaims ClaimPruning
open TransactionRuns

inductive Action where
  | publish (signed : Signed ClaimPublish)
  | prune
deriving DecidableEq

structure Call where
  time : Timestamp
  action : Action
deriving DecidableEq

def step (P : IdentityPlatform) (r : IdentityRegistry) (c : Call) :
    Except IdentityError IdentityRegistry :=
  match c.action with
  | .publish signed => applyPublish P c.time r signed
  | .prune => .ok (prune c.time r).1

def registryAfter (P : IdentityPlatform) (calls : List Call) : IdentityRegistry :=
  run (step P) .empty calls

/-- The claims of the wallet that were published with a stamp after the given time. -/
def recent (H : List (Transition IdentityRegistry Call)) (wallet : PeerId) (time : Timestamp) :
    List ClaimPublish :=
  H.filterMap fun t =>
    match t.label.action with
    | .publish signed =>
      if signed.payload.wallet = wallet ∧ time < signed.payload.timestamp then some signed.payload
      else none
    | .prune => none

/-- What is asked of the calls: the clock does not run backwards, no claim is stamped before one
of its wallet that it supersedes, and when a sweep comes, no wallet has published more than `K`
claims with a stamp inside the retention time. -/
structure Restrained (K : ℕ) (H : List (Transition IdentityRegistry Call))
    (t : Transition IdentityRegistry Call) : Prop where
  clock : ∀ t₀ ∈ H, t₀.label.time ≤ t.label.time
  stamps : ∀ signed, t.label.action = .publish signed →
    ∀ c ∈ findByWallet t.before signed.payload.wallet,
      (signed.payload.supersedes = some c.id → c.updatedAt ≤ signed.payload.timestamp) ∧
      (c.supersedes = some signed.payload.id → signed.payload.timestamp ≤ c.updatedAt)
  rate : t.label.action = .prune → ∀ wallet, (recent H wallet (cutoff t.label.time)).length ≤ K

section Reading
variable {P : IdentityPlatform} {r : IdentityRegistry} {now : Timestamp} {wallet : PeerId}
  {c new : Claim} {id : ClaimId}

theorem mem_all_put (hfresh : r.get new.id = none) : c ∈ all (r.put new) ↔ c = new ∨ c ∈ all r := by
  rw [all, all, RecordStore.mem_all, RecordStore.mem_all, RecordStore.get_put]
  split_ifs with hid
  · rw [hid, hfresh, Option.some.injEq]
    constructor
    · exact fun h => .inl h.symm
    · rintro (rfl | h)
      · rfl
      · cases h
  · exact ⟨.inr, fun h => h.resolve_left fun hc => hid (congrArg Claim.id hc)⟩

theorem mem_live : id ∈ liveClaimIds r wallet now ↔ ∃ c ∈ all r, c.id = id ∧ c.wallet = wallet ∧
    c.isValid now = true ∧ ∀ d ∈ all r, d.wallet = wallet → d.supersedes ≠ some id := by
  rw [liveClaimIds_eq, List.mem_toFinset, List.mem_map]
  constructor
  · rintro ⟨c, hc, rfl⟩
    obtain ⟨⟨hmem, hwallet⟩, hvalid, hunnamed⟩ := mem_claimsInForce.mp hc
    exact ⟨c, hmem, rfl, hwallet, hvalid, hunnamed⟩
  · rintro ⟨c, hmem, rfl, hwallet, hvalid, hunnamed⟩
    exact ⟨c, mem_claimsInForce.mpr ⟨⟨hmem, hwallet⟩, hvalid, hunnamed⟩, rfl⟩

theorem mem_all_prune : c ∈ all (prune now r).1 ↔ c ∈ all r ∧ (cutoff now < c.updatedAt ∨
    c.isValid now = true ∧ ∀ d ∈ all r, d.supersedes ≠ some c.id) := by
  rw [all_prune, List.mem_filter, keeps_iff]

theorem live_subset_of_le {t : Timestamp} (h : now ≤ t) :
    liveClaimIds r wallet t ⊆ liveClaimIds r wallet now := by
  intro id hid
  obtain ⟨c, hc, heq, hwallet, hvalid, hunnamed⟩ := mem_live.mp hid
  exact mem_live.mpr ⟨c, hc, heq, hwallet, isValid_of_le h hvalid, hunnamed⟩

end Reading

section Steps
variable {P : IdentityPlatform} {r r' : IdentityRegistry} {now : Timestamp} {wallet : PeerId}
  {signed : Signed ClaimPublish}

def Chained (r : IdentityRegistry) : Prop :=
  ∀ c ∈ all r, ∀ d ∈ all r, d.wallet = c.wallet → d.supersedes = some c.id →
    c.updatedAt ≤ d.updatedAt

theorem applyPublish_ok (h : applyPublish P now r signed = .ok r') :
    r.get signed.payload.id = none ∧
      ((∃ target ∈ liveClaimIds r signed.payload.wallet now,
          signed.payload.supersedes = some target) ∨
        (liveClaimIds r signed.payload.wallet now).card < maxClaimsPerWallet) ∧
      r' = r.put (newClaim signed.payload) := by
  simp only [applyPublish, bind_ok, require_ok, pure_ok, exists_const] at h
  obtain ⟨-, -, hfresh, -, hroom, rfl⟩ := h
  refine ⟨hfresh, hroom.imp_left fun hgenuine => ?_, rfl⟩
  obtain ⟨target, htarget, hlive⟩ := (Option.any_eq_true _ _).mp hgenuine
  exact ⟨target, of_decide_eq_true hlive, htarget⟩

theorem Chained.publish (h : Chained r) (hfresh : r.get signed.payload.id = none)
    (hstamps : ∀ c ∈ findByWallet r signed.payload.wallet,
      (signed.payload.supersedes = some c.id → c.updatedAt ≤ signed.payload.timestamp) ∧
      (c.supersedes = some signed.payload.id → signed.payload.timestamp ≤ c.updatedAt)) :
    Chained (r.put (newClaim signed.payload)) := by
  intro c hc d hd hwallet hsupersedes
  rcases (mem_all_put hfresh).mp hc with rfl | hc <;>
    rcases (mem_all_put hfresh).mp hd with rfl | hd
  · exact le_rfl
  · exact (hstamps d (mem_findByWallet.mpr ⟨hd, hwallet⟩)).2 hsupersedes
  · exact (hstamps c (mem_findByWallet.mpr ⟨hc, hwallet.symm⟩)).1 hsupersedes
  · exact h c hc d hd hwallet hsupersedes

theorem Chained.prune (h : Chained r) : Chained (prune now r).1 :=
  fun c hc d hd => h c (mem_all_prune.mp hc).1 d (mem_all_prune.mp hd).1

/-- A claim that is published is at most one more live claim of its wallet, and the one that it
supersedes is live no more. -/
theorem live_publish_subset (hfresh : r.get signed.payload.id = none) :
    liveClaimIds (r.put (newClaim signed.payload)) wallet now ⊆
      if signed.payload.wallet = wallet then
        insert signed.payload.id ((liveClaimIds r wallet now).filter fun id =>
          signed.payload.supersedes ≠ some id)
      else liveClaimIds r wallet now := by
  intro id hid
  obtain ⟨c, hc, rfl, hwallet, hvalid, hunnamed⟩ := mem_live.mp hid
  have hold {d : Claim} (hd : d ∈ all r) : d ∈ all (r.put (newClaim signed.payload)) :=
    (mem_all_put hfresh).mpr (.inr hd)
  have hnew : newClaim signed.payload ∈ all (r.put (newClaim signed.payload)) :=
    (mem_all_put hfresh).mpr (.inl rfl)
  rcases (mem_all_put hfresh).mp hc with rfl | hc
  · rw [if_pos (show signed.payload.wallet = wallet from hwallet)]
    exact Finset.mem_insert_self _ _
  · have hlive : c.id ∈ liveClaimIds r wallet now :=
      mem_live.mpr ⟨c, hc, rfl, hwallet, hvalid, fun d hd => hunnamed d (hold hd)⟩
    split_ifs with hown
    · exact Finset.mem_insert_of_mem (Finset.mem_filter.mpr ⟨hlive, hunnamed _ hnew hown⟩)
    · exact hlive

theorem card_live_publish (hcard : (liveClaimIds r wallet now).card ≤ maxClaimsPerWallet)
    (h : applyPublish P now r signed = .ok r') :
    (liveClaimIds r' wallet now).card ≤ maxClaimsPerWallet := by
  obtain ⟨hfresh, hroom, rfl⟩ := applyPublish_ok h
  refine (Finset.card_le_card (live_publish_subset hfresh)).trans ?_
  split_ifs with hown
  · subst hown
    refine (Finset.card_insert_le _ _).trans ?_
    rcases hroom with ⟨target, hlive, htarget⟩ | hroom
    · -- the superseded claim makes room
      have hlt : ((liveClaimIds r signed.payload.wallet now).filter fun id =>
          signed.payload.supersedes ≠ some id).card <
          (liveClaimIds r signed.payload.wallet now).card := by
        refine Finset.card_lt_card (Finset.filter_ssubset.mpr ⟨target, hlive, ?_⟩)
        exact not_not.mpr htarget
      exact hlt.trans_le hcard
    · exact (Nat.succ_le_succ (Finset.card_filter_le _ _)).trans hroom
  · exact hcard

theorem live_prune_subset (h : Chained r) :
    liveClaimIds (prune now r).1 wallet now ⊆ liveClaimIds r wallet now := by
  intro id hid
  obtain ⟨c, hc, rfl, hwallet, hvalid, hunnamed⟩ := mem_live.mp hid
  obtain ⟨hmem, hkept⟩ := mem_all_prune.mp hc
  refine mem_live.mpr ⟨c, hmem, rfl, hwallet, hvalid, fun d hd hown hsupersedes => ?_⟩
  -- a claim that supersedes `c` has gone, so it is old, and `c` is not younger
  have hgone : ¬ (cutoff now < d.updatedAt) := fun hyoung =>
    hunnamed d (mem_all_prune.mpr ⟨hd, .inl hyoung⟩) hown hsupersedes
  have hstamp := h c hmem d hd (hown.trans hwallet.symm) hsupersedes
  rcases hkept with hyoung | ⟨-, hfree⟩
  · exact hgone (hyoung.trans_le hstamp)
  · exact hfree d hd hsupersedes

end Steps

section Runs
variable {P : IdentityPlatform} {K : ℕ} {r r' : IdentityRegistry} {wallet : PeerId}
  {H : List (Transition IdentityRegistry Call)} {call : Call}

/-- The registry holds published claims, chained by their stamps, and respects the cap from the
last call on. -/
structure Bounded (H : List (Transition IdentityRegistry Call)) (r : IdentityRegistry) : Prop where
  chained : Chained r
  published : ∀ c ∈ all r, ∃ t ∈ H, ∃ signed, t.label.action = .publish signed ∧
    newClaim signed.payload = c
  capped : ∀ now, (∀ t ∈ H, t.label.time ≤ now) → ∀ wallet,
    (liveClaimIds r wallet now).card ≤ maxClaimsPerWallet

theorem bounded_empty : Bounded [] .empty where
  chained c hc := by
    cases hc
  published c hc := by
    cases hc
  capped now _ wallet := by
    exact Nat.zero_le _

theorem Bounded.step (h : Bounded H r) (hstep : step P r call = .ok r')
    (hrestrained : Restrained K H ⟨r, call, r'⟩) : Bounded (H ++ [⟨r, call, r'⟩]) r' := by
  have hbefore := h.capped call.time hrestrained.clock
  have hlater {now : Timestamp} (hnow : ∀ t ∈ H ++ [⟨r, call, r'⟩], t.label.time ≤ now) :
      call.time ≤ now := hnow _ (List.mem_append_right _ List.mem_cons_self)
  have hkeep {c : Claim} (hc : c ∈ all r) : ∃ t ∈ H ++ [⟨r, call, r'⟩], ∃ signed,
      t.label.action = .publish signed ∧ newClaim signed.payload = c := by
    obtain ⟨t, ht, hsource⟩ := h.published c hc
    exact ⟨t, List.mem_append_left _ ht, hsource⟩
  obtain ⟨time, action⟩ := call
  cases action with
  | publish signed =>
    have hcap (wallet : PeerId) := card_live_publish (hbefore wallet) hstep
    obtain ⟨hfresh, -, rfl⟩ := applyPublish_ok hstep
    refine ⟨h.chained.publish hfresh (hrestrained.stamps signed rfl), fun c hc => ?_,
      fun now hnow wallet => ?_⟩
    · rcases (mem_all_put hfresh).mp hc with rfl | hc
      · exact ⟨_, List.mem_append_right _ List.mem_cons_self, signed, rfl, rfl⟩
      · exact hkeep hc
    · exact (Finset.card_le_card (live_subset_of_le (hlater hnow))).trans (hcap wallet)
  | prune =>
    obtain rfl : (prune time r).1 = r' := Except.ok.inj hstep
    refine ⟨h.chained.prune, fun c hc => hkeep (mem_all_prune.mp hc).1, fun now hnow wallet => ?_⟩
    have hsubset : liveClaimIds (prune time r).1 wallet now ⊆ liveClaimIds r wallet time :=
      (live_subset_of_le (hlater hnow)).trans (live_prune_subset h.chained)
    exact (Finset.card_le_card hsubset).trans (hbefore wallet)

theorem bounded_run {calls : List Call}
    (h : InContext (step P) (Restrained K) .empty calls) :
    Bounded (transitions (ClaimBounds.step P) .empty calls) (registryAfter P calls) :=
  run_context_rule (J := Bounded) (fun _ _ _ _ hJ hstep hG => hJ.step hstep hG) bounded_empty h

theorem pairwise_findByWallet (r : IdentityRegistry) (wallet : PeerId) :
    (findByWallet r wallet).Pairwise fun c d => c.id ≠ d.id :=
  (RecordStore.pairwise_all r).filter _

theorem Bounded.length_prune (h : Bounded H r) {now : Timestamp}
    (hclock : ∀ t ∈ H, t.label.time ≤ now)
    (hrate : (recent H wallet (cutoff now)).length ≤ K) :
    (findByWallet (prune now r).1 wallet).length ≤ maxClaimsPerWallet + K := by
  have hids := pairwise_findByWallet (prune now r).1 wallet
  have hmem {c : Claim} (hc : c ∈ findByWallet (prune now r).1 wallet) :
      c ∈ all r ∧ c.wallet = wallet ∧ (cutoff now < c.updatedAt ∨
        c.isValid now = true ∧ ∀ d ∈ all r, d.supersedes ≠ some c.id) := by
    obtain ⟨hall, hwallet⟩ := mem_findByWallet.mp hc
    exact ⟨(mem_all_prune.mp hall).1, hwallet, (mem_all_prune.mp hall).2⟩
  have hyoung : ((findByWallet (prune now r).1 wallet).filter fun c =>
      cutoff now < c.updatedAt).length ≤ K := by
    have hnodup := (hids.imp fun hne heq => hne (congrArg Claim.id heq)).filter
      fun c => cutoff now < c.updatedAt
    refine (List.subperm_of_subset hnodup fun c hc => ?_).length_le.trans
      ((List.length_map newClaim).trans_le hrate)
    obtain ⟨hc, hstamp⟩ := List.mem_filter.mp hc
    obtain ⟨hall, hwallet, -⟩ := hmem hc
    obtain ⟨t, ht, signed, haction, rfl⟩ := h.published c hall
    refine List.mem_map.mpr ⟨signed.payload, List.mem_filterMap.mpr ⟨t, ht, ?_⟩, rfl⟩
    simp only [haction]
    exact if_pos ⟨hwallet, of_decide_eq_true hstamp⟩
  have hlive : ((findByWallet (prune now r).1 wallet).filter fun c =>
      ¬ cutoff now < c.updatedAt).length ≤ maxClaimsPerWallet := by
    have hnodup := List.pairwise_map.mpr (hids.filter fun c => ¬ cutoff now < c.updatedAt)
    rw [← List.length_map Claim.id, ← List.toFinset_card_of_nodup hnodup]
    refine (Finset.card_le_card fun id hid => ?_).trans (h.capped now hclock wallet)
    obtain ⟨c, hc, rfl⟩ := List.mem_map.mp (List.mem_toFinset.mp hid)
    obtain ⟨hc, hstamp⟩ := List.mem_filter.mp hc
    obtain ⟨hall, hwallet, hkept⟩ := hmem hc
    obtain ⟨hvalid, hunnamed⟩ := hkept.resolve_left (of_decide_eq_true hstamp)
    exact mem_live.mpr ⟨c, hall, rfl, hwallet, hvalid, fun d hd _ => hunnamed d hd⟩
  have hsplit := List.length_eq_length_filter_add (l := findByWallet (prune now r).1 wallet)
    fun c => decide (cutoff now < c.updatedAt)
  simp only [decide_not] at hlive
  omega

end Runs

/-- Under restrained publishing a wallet never has more live claims than the cap allows, and no
more than `K` further ones are left by a sweep. -/
theorem identity_storage_bounded (P : IdentityPlatform) (K : ℕ) (calls : List Call)
    (hrestrained : InContext (step P) (Restrained K) .empty calls) :
    (∀ mid, mid <+: calls → ∀ now,
      (∀ t ∈ transitions (step P) .empty mid, t.label.time ≤ now) → ∀ wallet,
        (liveClaimIds (registryAfter P mid) wallet now).card ≤ maxClaimsPerWallet) ∧
    ∀ mid time, mid ++ [⟨time, .prune⟩] <+: calls → ∀ wallet,
      (findByWallet (registryAfter P (mid ++ [⟨time, .prune⟩])) wallet).length ≤
        maxClaimsPerWallet + K := by
  constructor
  · intro mid hmid
    exact (bounded_run (hrestrained.of_initial hmid)).capped
  · intro mid time hmid wallet
    have hmid' := (List.prefix_append mid [⟨time, .prune⟩]).trans hmid
    have hlast := hrestrained mid ⟨time, .prune⟩ _ hmid rfl
    have hafter : registryAfter P (mid ++ [⟨time, .prune⟩]) =
        (prune time (registryAfter P mid)).1 := run_concat _ _ mid _
    rw [hafter]
    exact (bounded_run (hrestrained.of_initial hmid')).length_prune hlast.clock
      (hlast.rate rfl wallet)

def identityPlatform : IdentityPlatform where
  verify _ _ _ := true
  peerIdFromPublicKey key := some ⟨key.bytes⟩
  isCid _ := true
  parseEncryptionKey _ := none

def spam (id : String) (expiresAt : Option Timestamp) (timestamp : Timestamp) : ClaimPublish where
  id := ⟨id⟩
  wallet := peer 1
  walletPublicKey := .filled 1
  claimType := .email
  value := "x"
  verified := false
  supersedes := none
  expiresAt := expiresAt
  timestamp := timestamp

def numeral (i : ℕ) : String := String.ofList (List.replicate i 'x')

theorem numeral_injective : Function.Injective numeral := by
  intro i j h
  have hlength := congrArg (fun text : String => text.toList.length) h
  simpa [numeral] using hlength

def dead (i : ℕ) : ClaimPublish := spam (numeral i) (some 0) 1000

def expired (N : ℕ) : List Call :=
  (List.range N).map fun i => ⟨1000, .publish ⟨dead i, ⟨[]⟩⟩⟩

/-- None of them is ever live, so all are accepted. -/
theorem mem_expired (N : ℕ) (c : Claim) : c ∈ all (registryAfter identityPlatform (expired N)) ↔
    ∃ i < N, c = newClaim (dead i) := by
  induction N generalizing c with
  | zero =>
    constructor
    · intro hc
      cases RecordStore.mem_all.mp hc
    · rintro ⟨i, hi, -⟩
      exact absurd hi (Nat.not_lt_zero i)
  | succ N ih =>
    set r := registryAfter identityPlatform (expired N) with hr
    have hnew : r.get ⟨numeral N⟩ = none := by
      refine Option.eq_none_iff_forall_ne_some.mpr fun c hget => ?_
      have hkey : c.id = ⟨numeral N⟩ := RecordStore.idOf_get hget
      obtain ⟨i, hi, rfl⟩ := (ih c).mp (RecordStore.mem_all.mpr (hkey.symm ▸ hget))
      exact hi.ne (numeral_injective (ClaimId.mk.inj hkey))
    have hdead : liveClaimIds r (peer 1) 1000 = ∅ := by
      refine Finset.eq_empty_of_forall_notMem fun id hid => ?_
      obtain ⟨c, hc, -, -, hvalid, -⟩ := mem_live.mp hid
      obtain ⟨i, -, rfl⟩ := (ih c).mp hc
      cases hvalid
    have hstep : step identityPlatform r ⟨1000, .publish ⟨dead N, ⟨[]⟩⟩⟩ =
        .ok (r.put (newClaim (dead N))) := by
      simp only [step, applyPublish, bind_ok, require_ok, pure_ok]
      exact ⟨(), SignatureScheme.verifyAuthor_ok.mpr ⟨rfl, rfl⟩, (), hnew, (), rfl, (),
        .inr ((congrArg Finset.card hdead).trans_lt (by decide)), trivial⟩
    have hafter : registryAfter identityPlatform (expired (N + 1)) =
        r.put (newClaim (dead N)) := by
      rw [expired, List.range_succ, List.map_append, List.map_singleton, registryAfter,
        run_concat]
      exact apply_ok hstep
    rw [hafter, mem_all_put hnew, ih c]
    simp only [Nat.lt_succ_iff_lt_or_eq, or_and_right, exists_or, exists_eq_left, or_comm]

/-- Claims that are dead when they are published pile up, however many they are: a sweep leaves
every one whose stamp is not old. -/
theorem length_findByWallet_expired (N : ℕ) : (findByWallet
    (registryAfter identityPlatform (expired N ++ [⟨2000, .prune⟩])) (peer 1)).length = N := by
  have hafter : registryAfter identityPlatform (expired N ++ [⟨2000, .prune⟩]) =
      (prune 2000 (registryAfter identityPlatform (expired N))).1 := run_concat _ _ _ _
  have hmem (c : Claim) : c ∈ findByWallet (prune 2000 (registryAfter identityPlatform
      (expired N))).1 (peer 1) ↔
        c ∈ (List.range N).map fun i => newClaim (dead i) := by
    rw [mem_findByWallet, mem_all_prune, mem_expired N c, List.mem_map]
    constructor
    · rintro ⟨⟨⟨i, hi, rfl⟩, -⟩, -⟩
      exact ⟨i, List.mem_range.mpr hi, rfl⟩
    · rintro ⟨i, hi, rfl⟩
      exact ⟨⟨⟨i, List.mem_range.mp hi, rfl⟩, .inl (show cutoff 2000 < 1000 by decide)⟩, rfl⟩
  have hnodup := (pairwise_findByWallet (prune 2000 (registryAfter identityPlatform
    (expired N))).1 (peer 1)).imp fun hne heq => hne (congrArg Claim.id heq)
  have hclaims : ((List.range N).map fun i => newClaim (dead i)).Nodup :=
    List.nodup_range.map fun i j h => numeral_injective (ClaimId.mk.inj (congrArg Claim.id h))
  rw [hafter, ((List.perm_ext_iff_of_nodup hnodup hclaims).mpr hmem).length_eq, List.length_map,
    List.length_range]

theorem claims_past_the_bounds : ¬ ∃ bound, ∀ calls, (findByWallet
    (registryAfter identityPlatform (calls ++ [⟨2000, .prune⟩])) (peer 1)).length ≤ bound := by
  rintro ⟨bound, hbound⟩
  have hmore := hbound (expired (bound + 1))
  rw [length_findByWallet_expired] at hmore
  exact Nat.not_succ_le_self bound hmore

def day : ℕ := 24 * 60 * 60 * 1000

def renewal : ClaimPublish := { spam "new" none 5 with supersedes := some ⟨"old"⟩ }

def renewed : List Call :=
  [⟨0, .publish ⟨spam "old" none 0, ⟨[]⟩⟩⟩] ++ [⟨5, .publish ⟨renewal, ⟨[]⟩⟩⟩]

/-- A sweep takes the claim that is superseded and leaves the one that is old but not dead. -/
theorem identity_storage_bounded_renewed :
    (findByWallet (registryAfter identityPlatform renewed) (peer 1)).length = 2 ∧
    findByWallet (registryAfter identityPlatform (renewed ++ [⟨9 * day, .prune⟩])) (peer 1) =
      [newClaim renewal] ∧
    (findByWallet (registryAfter identityPlatform (renewed ++ [⟨9 * day, .prune⟩]))
      (peer 1)).length ≤ maxClaimsPerWallet + 0 := by
  have hfirst : InContext (step identityPlatform) (Restrained 0) .empty
      [⟨0, .publish ⟨spam "old" none 0, ⟨[]⟩⟩⟩] := by
    refine inContext_nil.concat fun r' _ => ⟨?_, fun signed _ c hc => ?_, fun h => ?_⟩
    · exact fun t ht => absurd ht List.not_mem_nil
    · cases RecordStore.mem_all.mp (mem_findByWallet.mp hc).1
    · cases h
  have hrenewed : InContext (step identityPlatform) (Restrained 0) .empty renewed := by
    refine hfirst.concat fun r' _ => ⟨fun t ht => ?_, fun signed h => ?_, fun h => ?_⟩
    · rw [List.mem_singleton.mp (label_mem_of_mem ht)]
      exact Nat.zero_le _
    · obtain rfl := Action.publish.inj h
      dsimp only
      decide +kernel
    · cases h
  have hlabel {t : Transition IdentityRegistry Call}
      (ht : t ∈ transitions (step identityPlatform) .empty renewed) :
      t.label = ⟨0, .publish ⟨spam "old" none 0, ⟨[]⟩⟩⟩ ∨
        t.label = ⟨5, .publish ⟨renewal, ⟨[]⟩⟩⟩ := by
    simpa [renewed] using label_mem_of_mem ht
  have hswept : InContext (step identityPlatform) (Restrained 0) .empty
      (renewed ++ [⟨9 * day, .prune⟩]) := by
    refine hrenewed.concat fun r' _ => ⟨fun t ht => ?_, fun signed h => ?_, fun _ wallet => ?_⟩
    · rcases hlabel ht with h | h <;> rw [h] <;> dsimp only <;> decide
    · cases h
    · refine le_of_eq (List.length_eq_zero_iff.mpr (List.filterMap_eq_nil_iff.mpr fun t ht => ?_))
      have hold : ¬ cutoff (9 * day) < 5 := by decide
      rcases hlabel ht with h | h <;> rw [h] <;>
        exact if_neg fun hlate => hold (hlate.2.trans_le (by decide))
  exact ⟨by decide +kernel, by decide +kernel,
    (identity_storage_bounded identityPlatform 0 _ hswept).2 _ _ (List.prefix_refl _) (peer 1)⟩

end OpenFiat.ClaimBounds
