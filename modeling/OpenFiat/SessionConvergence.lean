import OpenFiat.SessionRegistry
import Mathlib.Data.Finset.Max

/-!
# Replicas of a session

Renewals and migrations write different fields of a session but move one version forward. A
replica that hears of the higher version first refuses the lower one, and with it the field that
only the lower one wrote; a replica that hears of the revocation first refuses both. So two
replicas agree whatever the order exactly if nothing that may be refused would have changed a
field.
-/
namespace OpenFiat.SessionConvergence
open GuardedResult NodePayloads RecordStores TransactionRuns SessionRegistry

def isRevocation : Action → Bool
  | .revoke _ => true
  | _ => false

def version : Action → ℕ
  | .renew signed => signed.payload.version
  | .migrate signed => signed.payload.version
  | _ => 0

/-- What an update writes if it is accepted. -/
def write (session : Session) : Action → Session
  | .renew signed => { session with
      expiresAt := signed.payload.newExpiresAt
      version := signed.payload.version }
  | .migrate signed => { session with
      hostNode := signed.payload.newHostNode
      version := signed.payload.version }
  | .revoke _ => { session with revoked := true }
  | _ => session

def revises (session : Session) (a : Action) : Bool :=
  !session.revoked && (isRevocation a || session.version < version a)

def revise (session : Session) (d : Delivery) : Session :=
  if revises session d.action then write session d.action else session

/-- A payload for a session, signed by the wallet that opened it. -/
def SignedBy (S : SignatureScheme SessionStatement) (create : SessionCreate) (id : SessionId)
    (wallet : PeerId) (statement : SessionStatement) (signature : Signature) : Prop :=
  id = create.id ∧ wallet = create.wallet ∧
    S.verify create.walletPublicKey statement signature = true

/-- An update of a session that its wallet has signed. -/
def Genuine (S : SignatureScheme SessionStatement) (create : SessionCreate) : Action → Prop
  | .renew ⟨renew, signature⟩ =>
    SignedBy S create renew.sessionId renew.wallet (.sessionRenew renew) signature
  | .migrate ⟨migrate, signature⟩ =>
    SignedBy S create migrate.sessionId migrate.wallet (.sessionMigrate migrate) signature
  | .revoke ⟨revoke, signature⟩ =>
    SignedBy S create revoke.sessionId revoke.wallet (.sessionRevoke revoke) signature
  | _ => False

/-- The fields that no update writes. -/
def Opened (create : SessionCreate) (session : Session) : Prop :=
  session.id = create.id ∧ session.wallet = create.wallet ∧
    session.walletPublicKey = create.walletPublicKey

variable {S : SignatureScheme SessionStatement} {create : SessionCreate} {r : Registry}
  {session : Session} {d top : Delivery} {ds : List Delivery}

theorem get_apply_update {id : SessionId} {wallet : PeerId} {statement : SessionStatement}
    {signature : Signature} {version : Option ℕ} {change : Session → Session}
    (hstep : step S r d = update S r id wallet statement signature version change)
    (hsigned : SignedBy S create id wallet statement signature) (hopened : Opened create session)
    (hget : r.get create.id = some session) (hid : (change session).id = session.id) :
    (apply (step S) r d).get create.id = some
      (if !session.revoked && version.all (session.version < ·) then change session
        else session) := by
  obtain ⟨rfl, rfl, hverify⟩ := hsigned
  obtain ⟨hkey, hwallet, hpublic⟩ := hopened
  by_cases hrevises : (!session.revoked && version.all (session.version < ·)) = true
  · have hok : step S r d = .ok (r.put (change session)) := by
      rw [Bool.and_eq_true, Bool.not_eq_true'] at hrevises
      simp only [hstep, update, bind_ok, load_ok, require_ok, pure_ok]
      exact ⟨session, hget, (), hwallet, (), hpublic ▸ hverify, (), hrevises.1, (), hrevises.2,
        rfl⟩
    rw [apply_ok hok, RecordStore.get_put, if_pos (hid.trans hkey).symm, if_pos hrevises]
  · have hkept : apply (step S) r d = r := by
      cases h : step S r d with
      | error => exact apply_error h
      | ok =>
        obtain ⟨session', hget', -, -, hrevoked, hversion, -⟩ := update_ok (hstep.symm.trans h)
        obtain rfl : session = session' := Option.mem_unique hget hget'
        rw [hrevoked, hversion] at hrevises
        exact absurd rfl hrevises
    rw [hkept, hget, if_neg hrevises]

theorem opened_revise (h : Opened create session) : Opened create (revise session d) := by
  unfold revise write
  split_ifs
  · split <;> exact h
  · exact h

theorem get_apply (hopened : Opened create session) (hget : r.get create.id = some session)
    (hd : Genuine S create d.action) :
    (apply (step S) r d).get create.id = some (revise session d) := by
  obtain ⟨time, action⟩ := d
  cases action with
  | renew | migrate | revoke => exact (get_apply_update rfl hd hopened hget rfl).trans rfl
  | create | pruneExpired => exact hd.elim

theorem get_run (hopened : Opened create session) (hget : r.get create.id = some session)
    (hds : ∀ d ∈ ds, Genuine S create d.action) :
    (run (step S) r ds).get create.id = some (ds.foldl revise session) := by
  induction ds generalizing r session with
  | nil => exact hget
  | cons d ds ih =>
    rw [List.forall_mem_cons] at hds
    exact ih (opened_revise hopened) (get_apply hopened hget hds.1) hds.2

theorem version_write {a : Action} (h : 0 < version a) : (write session a).version = version a := by
  cases a <;> first | rfl | cases h

theorem revoked_write {a : Action} (h : 0 < version a) :
    (write session a).revoked = session.revoked := by
  cases a <;> first | rfl | cases h

theorem isRevocation_eq_false {a : Action} (h : 0 < version a) : isRevocation a = false := by
  cases a <;> first | rfl | cases h

theorem revise_of_lt (hrevoked : session.revoked = false) (h : session.version < version d.action) :
    revise session d = write session d.action := by
  rw [revise, revises, hrevoked, decide_eq_true h, Bool.or_true]
  rfl

theorem revise_of_le (hrevocation : isRevocation d.action = false)
    (h : version d.action ≤ session.version) : revise session d = session := by
  rw [revise, revises, hrevocation, decide_eq_false (not_lt.mpr h), Bool.or_self, Bool.and_false]
  rfl

theorem revise_revocation (hrevocation : isRevocation d.action = true)
    (h : session.revoked = false) : revise session d = { session with revoked := true } := by
  rw [revise, revises, h]
  obtain ⟨time, action⟩ := d
  cases action <;> first | rfl | cases hrevocation

theorem foldl_revoked (h : session.revoked = true) : ds.foldl revise session = session := by
  induction ds with
  | nil => rfl
  | cons d ds ih =>
    rw [List.foldl_cons, revise, revises, h]
    exact ih

theorem foldl_stale
    (h : ∀ d ∈ ds, isRevocation d.action = false ∧ version d.action ≤ session.version) :
    ds.foldl revise session = session := by
  induction ds with
  | nil => rfl
  | cons d ds ih =>
    rw [List.forall_mem_cons] at h
    rw [List.foldl_cons, revise_of_le h.1.1 h.1.2]
    exact ih h.2

/-- What the second update writes is written again by the first one or was there before. -/
def Absorbs (create : SessionCreate) (top a : Action) : Prop :=
  write (write (newSession create) a) top = write (newSession create) top

theorem write_write_congr {a b : Action} {session' : Session} (ha : 0 < version a)
    (hb : 0 < version b) (h : write session a = write session' a) :
    write (write session b) a = write (write session' b) a := by
  cases a with
  | renew =>
    cases b with
    | renew => exact h
    | migrate signed' =>
      exact congrArg (fun s : Session => { s with hostNode := signed'.payload.newHostNode }) h
    | _ => cases hb
  | migrate =>
    cases b with
    | migrate => exact h
    | renew signed' =>
      exact congrArg (fun s : Session => { s with expiresAt := signed'.payload.newExpiresAt }) h
    | _ => cases hb
  | _ => cases ha

/-- The highest version has been accepted, or would still lead to the final record. -/
def Stage (create : SessionCreate) (top : Action) (session : Session) : Prop :=
  session = write (newSession create) top ∨ session.revoked = false ∧
    session.version < version top ∧ write session top = write (newSession create) top

theorem revise_top (htop : 0 < version top.action) (h : Stage create top.action session) :
    revise session top = write (newSession create) top.action := by
  rcases h with rfl | ⟨hrevoked, hversion, hwrite⟩
  · exact revise_of_le (isRevocation_eq_false htop) (version_write htop).ge
  · rw [revise_of_lt hrevoked hversion, hwrite]

theorem stage_revise (hd : isRevocation d.action = false)
    (hversion : version d.action < version top.action)
    (habsorbs : 0 < version d.action → Absorbs create top.action d.action)
    (h : Stage create top.action session) : Stage create top.action (revise session d) := by
  have htop := (Nat.zero_le _).trans_lt hversion
  rcases lt_or_ge session.version (version d.action) with hlt | hle
  · have hpos := (Nat.zero_le _).trans_lt hlt
    rcases h with rfl | ⟨hrevoked, -, hwrite⟩
    · exact absurd (hlt.trans hversion) (version_write htop).ge.not_gt
    · rw [revise_of_lt hrevoked hlt]
      refine .inr ⟨(revoked_write hpos).trans hrevoked, (version_write hpos).trans_lt hversion, ?_⟩
      exact (write_write_congr htop hpos hwrite).trans (habsorbs hpos)
  · rw [revise_of_le hd hle]
    exact h

/-- What the deliveries beside the one with the highest version have to satisfy. -/
def Below (create : SessionCreate) (top d : Delivery) : Prop :=
  isRevocation d.action = false ∧ (version d.action < version top.action ∨ d = top) ∧
    (0 < version d.action → Absorbs create top.action d.action)

theorem stage_foldl (htop : 0 < version top.action) (h : ∀ d ∈ ds, Below create top d)
    (hs : Stage create top.action session) : Stage create top.action (ds.foldl revise session) := by
  induction ds generalizing session with
  | nil => exact hs
  | cons d ds ih =>
    rw [List.forall_mem_cons] at h
    obtain ⟨⟨hrevocation, hd, habsorbs⟩, hds⟩ := h
    refine ih hds ?_
    rcases hd with hlt | rfl
    · exact stage_revise hrevocation hlt habsorbs hs
    · exact .inl (revise_top htop hs)

theorem foldl_top (htop : 0 < version top.action) (hmem : top ∈ ds)
    (h : ∀ d ∈ ds, Below create top d) :
    ds.foldl revise (newSession create) = write (newSession create) top.action := by
  obtain ⟨before, after, rfl⟩ := List.append_of_mem hmem
  have hbefore := stage_foldl htop (fun d hd => h d (List.mem_append_left _ hd))
    (.inr ⟨rfl, htop, rfl⟩ : Stage create top.action (newSession create))
  rw [List.foldl_append, List.foldl_cons, revise_top htop hbefore]
  refine foldl_stale fun d hd => ?_
  obtain ⟨hrevocation, hversion, -⟩ := h d (List.mem_append_right _ (List.mem_cons_of_mem _ hd))
  rw [version_write htop]
  exact ⟨hrevocation, hversion.elim le_of_lt fun heq => heq ▸ le_rfl⟩

theorem foldl_unversioned (h : ∀ d ∈ ds, version d.action = 0) :
    ds.foldl revise (newSession create) =
      { newSession create with revoked := ds.any (isRevocation ·.action) } := by
  induction ds with
  | nil => rfl
  | cons d ds ih =>
    rw [List.forall_mem_cons] at h
    rw [List.foldl_cons, List.any_cons]
    cases hd : isRevocation d.action with
    | false =>
      rw [revise_of_le hd h.1.le, ih h.2, Bool.false_or]
    | true =>
      rw [revise_revocation hd rfl, foldl_revoked rfl]
      rfl

theorem exists_perm_cons_cons {d' : Delivery} (hd : d ∈ ds) (hd' : d' ∈ ds) (hne : d ≠ d') :
    ∃ rest, (d :: d' :: rest).Perm ds := by
  classical
  have hmem : d' ∈ ds.erase d := (List.mem_erase_of_ne (Ne.symm hne)).mpr hd'
  exact ⟨(ds.erase d).erase d', (((List.perm_cons_erase hmem).symm.cons d).trans
    (List.perm_cons_erase hd).symm)⟩

/-- Every order leads to one record. -/
def Agree (create : SessionCreate) (ds : List Delivery) : Prop :=
  ∀ ds₁ ds₂ : List Delivery, ds₁.Perm ds → ds₂.Perm ds →
    ds₁.foldl revise (newSession create) = ds₂.foldl revise (newSession create)

theorem Agree.unversioned (h : Agree create ds) (hd : d ∈ ds) (hrevocation : isRevocation d.action)
    {d' : Delivery} (hd' : d' ∈ ds) : version d'.action = 0 := by
  by_contra hversion
  have hpos := Nat.pos_of_ne_zero hversion
  have hne : d ≠ d' := by
    rintro rfl
    rw [isRevocation_eq_false hpos] at hrevocation
    cases hrevocation
  obtain ⟨rest, hperm⟩ := exists_perm_cons_cons hd hd' hne
  have hfolds := h _ _ hperm ((List.Perm.swap d d' rest).trans hperm)
  have hwritten : revise (newSession create) d' = write (newSession create) d'.action :=
    revise_of_lt rfl hpos
  rw [List.foldl_cons, revise_revocation hrevocation rfl, foldl_revoked rfl, List.foldl_cons,
    hwritten, List.foldl_cons, revise_revocation hrevocation (revoked_write hpos),
    foldl_revoked rfl] at hfolds
  exact hversion ((congrArg Session.version hfolds).trans (version_write hpos)).symm

theorem Agree.absorbs (h : Agree create ds)
    (hunique : ∀ d ∈ ds, ∀ d' ∈ ds, 0 < version d.action →
      version d.action = version d'.action → d = d')
    (htop : top ∈ ds) (hhighest : ∀ d ∈ ds, version d.action ≤ version top.action) (hd : d ∈ ds)
    (hpos : 0 < version d.action) : Absorbs create top.action d.action := by
  have hpos' := hpos.trans_le (hhighest d hd)
  by_cases heq : d = top
  · rw [heq]
    cases top.action <;> rfl
  · have hlt := (hhighest d hd).lt_of_ne fun h => heq (hunique d hd top htop hpos h)
    obtain ⟨rest, hperm⟩ := exists_perm_cons_cons hd htop heq
    have hstale (d' : Delivery) (hd' : d' ∈ ds) :
        isRevocation d'.action = false ∧ version d'.action ≤ version top.action := by
      refine ⟨Bool.eq_false_iff.mpr fun hrevocation => hpos'.ne' ?_, hhighest d' hd'⟩
      exact h.unversioned hd' hrevocation htop
    have hrest {session : Session} (hversion : session.version = version top.action)
        {l : List Delivery} (hl : l ⊆ d :: top :: rest) : l.foldl revise session = session :=
      foldl_stale fun d' hd' => hversion ▸ hstale d' (hperm.subset (hl hd'))
    have hsubset : rest ⊆ d :: top :: rest :=
      List.subset_cons_of_subset _ (List.subset_cons_self top rest)
    have hfolds := h _ _ hperm ((List.Perm.swap d top rest).trans hperm)
    have hwritten {d : Delivery} (h : 0 < version d.action) :
        revise (newSession create) d = write (newSession create) d.action := revise_of_lt rfl h
    rw [List.foldl_cons, List.foldl_cons, hwritten hpos,
      revise_of_lt (revoked_write hpos) ((version_write hpos).trans_lt hlt),
      hrest (version_write hpos') hsubset, List.foldl_cons, hwritten hpos',
      hrest (version_write hpos') (List.cons_subset.mpr ⟨List.mem_cons_self, hsubset⟩)] at hfolds
    exact hfolds

theorem agree_of_absorbs
    (hunique : ∀ d ∈ ds, ∀ d' ∈ ds, 0 < version d.action →
      version d.action = version d'.action → d = d')
    (hrevoked : ∀ d ∈ ds, isRevocation d.action = true → ∀ d' ∈ ds, version d'.action = 0)
    (habsorbs : ∀ top ∈ ds, (∀ d ∈ ds, version d.action ≤ version top.action) →
      ∀ d ∈ ds, 0 < version d.action → Absorbs create top.action d.action) : Agree create ds := by
  intro ds₁ ds₂ hperm₁ hperm₂
  by_cases hversions : ∀ d ∈ ds, version d.action = 0
  · have hany : ds₁.any (isRevocation ·.action) = ds₂.any (isRevocation ·.action) :=
      (hperm₁.trans hperm₂.symm).any_eq
    rw [foldl_unversioned fun d hd => hversions d (hperm₁.subset hd),
      foldl_unversioned fun d hd => hversions d (hperm₂.subset hd), hany]
  · classical
    push Not at hversions
    obtain ⟨d₀, hd₀, hversion₀⟩ := hversions
    obtain ⟨top, htop, hhighest⟩ := ds.toFinset.exists_max_image (version ·.action)
      ⟨d₀, List.mem_toFinset.mpr hd₀⟩
    simp only [List.mem_toFinset] at htop hhighest
    have hpos := (Nat.pos_of_ne_zero hversion₀).trans_le (hhighest d₀ hd₀)
    have hbelow (d : Delivery) (hd : d ∈ ds) : Below create top d := by
      refine ⟨Bool.eq_false_iff.mpr fun h => hversion₀ (hrevoked d hd h d₀ hd₀), ?_,
        habsorbs top htop hhighest d hd⟩
      exact (hhighest d hd).lt_or_eq.imp_right fun h => (hunique top htop d hd hpos h.symm).symm
    rw [foldl_top hpos (hperm₁.mem_iff.mpr htop) fun d hd => hbelow d (hperm₁.subset hd),
      foldl_top hpos (hperm₂.mem_iff.mpr htop) fun d hd => hbelow d (hperm₂.subset hd)]

/-- After the creation of a session, the wallet's updates lead every replica to the same record
exactly if a revocation meets no renewal or migration of a version above zero, and the one with
the highest version absorbs all the others. -/
theorem session_replicas_converge_iff (S : SignatureScheme SessionStatement) (r : Registry)
    (t : Timestamp) (create : Signed SessionCreate) (ds : List Delivery)
    (hcreate : (step S r ⟨t, .create create⟩).isOk = true)
    (hds : ∀ d ∈ ds, Genuine S create.payload d.action)
    (hdistinct : (ds.filter fun d => !isRevocation d.action).Pairwise fun d d' =>
      version d.action ≠ version d'.action) :
    (∀ ds₁ ds₂ : List Delivery, ds₁.Perm ds → ds₂.Perm ds →
      (run (step S) r (⟨t, .create create⟩ :: ds₁)).get create.payload.id =
        (run (step S) r (⟨t, .create create⟩ :: ds₂)).get create.payload.id) ↔
      (∀ d ∈ ds, isRevocation d.action = true → ∀ d' ∈ ds, version d'.action = 0) ∧
      ∀ top ∈ ds, (∀ d ∈ ds, version d.action ≤ version top.action) →
        ∀ d ∈ ds, 0 < version d.action → Absorbs create.payload top.action d.action := by
  have hrun {ds' : List Delivery} (hperm : ds'.Perm ds) :
      (run (step S) r (⟨t, .create create⟩ :: ds')).get create.payload.id =
        some (ds'.foldl revise (newSession create.payload)) := by
    have hok := step_eq_apply hcreate
    simp only [step, applyCreate, bind_ok, require_ok, pure_ok] at hok
    obtain ⟨-, -, -, -, hput⟩ := hok
    refine get_run ⟨rfl, rfl, rfl⟩ ?_ fun d hd => hds d (hperm.subset hd)
    rw [← hput, RecordStore.get_put]
    exact if_pos rfl
  have hunique (d : Delivery) (hd : d ∈ ds) (d' : Delivery) (hd' : d' ∈ ds)
      (hpos : 0 < version d.action) (heq : version d.action = version d'.action) : d = d' := by
    by_contra hne
    have hmem {d : Delivery} (hd : d ∈ ds) (hpos : 0 < version d.action) :
        d ∈ ds.filter fun d => !isRevocation d.action :=
      List.mem_filter.mpr ⟨hd, by rw [isRevocation_eq_false hpos]; rfl⟩
    have hsymm : Std.Symm fun d d' : Delivery => version d.action ≠ version d'.action :=
      ⟨fun _ _ h => h.symm⟩
    exact hdistinct.forall (hmem hd hpos) (hmem hd' (heq ▸ hpos)) hne heq
  have hagree : (∀ ds₁ ds₂ : List Delivery, ds₁.Perm ds → ds₂.Perm ds →
      (run (step S) r (⟨t, .create create⟩ :: ds₁)).get create.payload.id =
        (run (step S) r (⟨t, .create create⟩ :: ds₂)).get create.payload.id) ↔
      Agree create.payload ds := by
    refine forall_congr' fun ds₁ => forall_congr' fun ds₂ => forall_congr' fun hperm₁ =>
      forall_congr' fun hperm₂ => ?_
    rw [hrun hperm₁, hrun hperm₂, Option.some.injEq]
  rw [hagree]
  refine ⟨fun h => ⟨fun d hd hrevocation d' hd' => h.unversioned hd hrevocation hd',
    fun top htop hhighest d hd hpos => h.absorbs hunique htop hhighest hd hpos⟩, fun h => ?_⟩
  exact agree_of_absorbs hunique h.1 h.2

namespace Samples

def scheme : SignatureScheme SessionStatement where
  verify _ _ _ := true
  peerIdFromPublicKey key := some ⟨key.bytes⟩

def opening : Signed SessionCreate :=
  ⟨⟨⟨"s"⟩, peer 1, .filled 1, "web", ⟨[1]⟩, [], 0, 10⟩, ⟨[]⟩⟩

def renewal (version : ℕ) : Delivery :=
  ⟨1, .renew ⟨⟨⟨"s"⟩, peer 1, 10 + version, version, 1⟩, ⟨[]⟩⟩⟩

def migration : Delivery := ⟨1, .migrate ⟨⟨⟨"s"⟩, peer 1, ⟨[2]⟩, 2, 1⟩, ⟨[]⟩⟩⟩

def record (ds : List Delivery) : Option Session :=
  (run (step scheme) .empty (⟨0, .create opening⟩ :: ds)).get ⟨"s"⟩

end Samples

open Samples in
theorem renewals_converge :
    record [renewal 1, renewal 2] = record [renewal 2, renewal 1] := by
  refine (session_replicas_converge_iff scheme .empty 0 opening [renewal 1, renewal 2]
    (by decide +kernel) ?_ (by decide +kernel)).mpr ⟨by decide +kernel, ?_⟩ _ _ (.refl _)
    (.swap _ _ _)
  · simp only [List.forall_mem_cons]
    exact ⟨⟨rfl, rfl, rfl⟩, ⟨rfl, rfl, rfl⟩, List.forall_mem_nil _⟩
  · simp only [List.forall_mem_cons]
    exact ⟨fun _ => ⟨fun _ => rfl, fun _ => rfl, List.forall_mem_nil _⟩,
      fun _ => ⟨fun _ => rfl, fun _ => rfl, List.forall_mem_nil _⟩, List.forall_mem_nil _⟩

open Samples in
/-- The replica that hears of the migration first never learns of the renewal. -/
theorem renewal_lost_to_migration :
    (record [renewal 1, migration]).map (fun s => (s.expiresAt, s.hostNode, s.version)) =
        some (11, ⟨[2]⟩, 2) ∧
      (record [migration, renewal 1]).map (fun s => (s.expiresAt, s.hostNode, s.version)) =
        some (10, ⟨[2]⟩, 2) := by
  decide +kernel

end OpenFiat.SessionConvergence
