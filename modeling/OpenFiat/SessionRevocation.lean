import OpenFiat.SessionRegistry

/-!
# Revoked sessions

Revocation is meant to be permanent. The registry remembers it in the record of the session,
and a revoked record refuses every payload. But the sweep deletes the record some time after the
session has expired, and from then on the payloads that once opened and extended the session
are as good as new ones. A revoked session stays inactive as long as no payload that still
reaches into the future meets a registry that has forgotten the revocation.
-/
namespace OpenFiat.SessionRevocation
open NodePayloads RecordStores TransactionRuns SessionRegistry

def grants (id : SessionId) (d : Delivery) : Option Timestamp :=
  match d.action with
  | .create signed => if signed.payload.id = id then some signed.payload.expiresAt else none
  | .renew signed =>
    if signed.payload.sessionId = id then some signed.payload.newExpiresAt else none
  | .revoke _ => none
  | .migrate _ => none
  | .pruneExpired => none

/-- A delivery that would extend the session beyond the present finds its revoked record. -/
def remembered (id : SessionId) (r : Registry) (d : Delivery) : Bool :=
  (grants id d).all fun expiry => expiry ≤ d.time || (r.get id).any Session.revoked

/-- The session is over by time `now`: nothing of it is left, or it is revoked, or expired. -/
def Over (id : SessionId) (now : Timestamp) (r : Registry) : Prop :=
  ∀ session, r.get id = some session → session.revoked = true ∨ session.expiresAt ≤ now

variable {S : SignatureScheme SessionStatement} {r r' : Registry} {d : Delivery} {id : SessionId}
  {now : Timestamp}

theorem not_isActive_of_over (h : Over id now r) : isActive r id now = false := by
  unfold isActive
  cases hget : r.get id with
  | none => rfl
  | some session =>
    rw [Option.any_some, Session.isCurrent]
    rcases h session hget with hrevoked | hexpired
    · rw [hrevoked]
      rfl
    · rw [decide_eq_false (not_lt.mpr hexpired), Bool.and_false]

theorem expired_of_remembered {expiry : Timestamp} (h : remembered id r d = true)
    (hgrants : grants id d = some expiry)
    (hforgotten : ∀ session, r.get id = some session → session.revoked = false) :
    expiry ≤ d.time := by
  rw [remembered, hgrants, Option.all_some, Bool.or_eq_true, decide_eq_true_eq] at h
  rcases h with hexpired | hrevoked
  · exact hexpired
  · cases hget : r.get id with
    | none =>
      rw [hget] at hrevoked
      cases hrevoked
    | some session =>
      rw [hget, Option.any_some, hforgotten session hget] at hrevoked
      cases hrevoked

theorem step_over (hover : Over id now r) (h : step S r d = .ok r')
    (hremembered : remembered id r d = true) (htime : d.time ≤ now) : Over id now r' := by
  intro session hsession
  have hchange := step_change h id
  rw [hsession] at hchange
  generalize hbefore : r.get id = before at hchange
  cases hchange with
  | same => exact hover session hbefore
  | created signed haction hid =>
    have hgrants : grants id d = some signed.payload.expiresAt := by
      rw [grants, haction]
      exact if_pos hid
    refine .inr ((expired_of_remembered hremembered hgrants ?_).trans htime)
    intro session' hget
    rw [hbefore] at hget
    cases hget
  | renewed signed old haction hid hrevoked =>
    have hgrants : grants id d = some signed.payload.newExpiresAt := by
      rw [grants, haction]
      exact if_pos hid
    refine .inr ((expired_of_remembered hremembered hgrants ?_).trans htime)
    intro session' hget
    rw [hbefore] at hget
    exact Option.some.inj hget ▸ hrevoked
  | revoked => exact .inl rfl
  | migrated signed old haction hid hrevoked =>
    -- the expiry is the old one
    rcases hover old hbefore with h' | h'
    · rw [hrevoked] at h'
      cases h'
    · exact .inr h'

theorem revoke_over {t : Timestamp} {signed : Signed SessionRevoke}
    (h : step S r ⟨t, .revoke signed⟩ = .ok r') : Over signed.payload.sessionId now r' := by
  intro session hsession
  obtain ⟨old, hget, -, -, -, -, rfl⟩ := update_ok h
  have hid : signed.payload.sessionId = old.id := (RecordStore.idOf_get hget).symm
  rw [RecordStore.get_put, if_pos hid] at hsession
  exact .inl (Option.some.inj hsession ▸ rfl)

/-- Once a session is revoked, it is not reported active after any further deliveries up to the
time of the report, if each of them finds the revocation remembered. -/
theorem revoked_session_inactive (S : SignatureScheme SessionStatement) (r : Registry)
    (t : Timestamp) (signed : Signed SessionRevoke) (ds : List Delivery) (now : Timestamp)
    (hrevoke : (step S r ⟨t, .revoke signed⟩).isOk = true)
    (htimes : ∀ d ∈ ds, d.time ≤ now)
    (hremembered : ∀ tr ∈ transitions (step S) (apply (step S) r ⟨t, .revoke signed⟩) ds,
      remembered signed.payload.sessionId tr.before tr.label = true) :
    isActive (run (step S) r (⟨t, .revoke signed⟩ :: ds)) signed.payload.sessionId now = false := by
  have hover : Over signed.payload.sessionId now (apply (step S) r ⟨t, .revoke signed⟩) :=
    revoke_over (step_eq_apply hrevoke)
  have hstep (r : Registry) (d : Delivery) (r' : Registry)
      (hr : Over signed.payload.sessionId now r) (h : step S r d = .ok r')
      (hG : remembered signed.payload.sessionId r d = true ∧ d.time ≤ now) :
      Over signed.payload.sessionId now r' :=
    step_over hr h hG.1 hG.2
  have hrun := run_invariant (G := fun tr =>
    remembered signed.payload.sessionId tr.before tr.label = true ∧ tr.label.time ≤ now)
    hstep hover ds fun tr htr => ⟨hremembered tr htr, ?_⟩
  · exact not_isActive_of_over hrun
  · exact htimes tr.label (label_mem_of_mem htr)

namespace Forgotten

def scheme : SignatureScheme SessionStatement where
  verify _ _ _ := true
  peerIdFromPublicKey key := some ⟨key.bytes⟩

def hour : ℕ := 60 * 60 * 1000

def day : ℕ := 24 * hour

def opening : Action :=
  .create ⟨⟨⟨"s"⟩, peer 1, .filled 1, "web", ⟨[]⟩, [], 0, hour⟩, ⟨[]⟩⟩

def revocation : Signed SessionRevoke := ⟨⟨⟨"s"⟩, peer 1, 1⟩, ⟨[]⟩⟩

def renewal : Action := .renew ⟨⟨⟨"s"⟩, peer 1, 30 * day, 1, 0⟩, ⟨[]⟩⟩

def opened : Registry := run (step scheme) .empty [⟨0, opening⟩]

end Forgotten

open Forgotten in
theorem revoked_session_inactive_replayed :
    isActive (run (step scheme) opened (⟨1, .revoke revocation⟩ ::
      [⟨2, renewal⟩, ⟨8 * day, .pruneExpired⟩, ⟨8 * day, opening⟩])) ⟨"s"⟩ (8 * day) = false :=
  revoked_session_inactive scheme opened 1 revocation _ (8 * day) (by decide +kernel)
    (by decide +kernel) (by decide +kernel)

open Forgotten in
/-- The renewal comes too late and is refused. A week after the session's expiry its record is
deleted, and the opening and the renewal bring the session back. -/
theorem revoked_session_returns :
    (step scheme opened ⟨1, .revoke revocation⟩).isOk = true ∧
      isActive (run (step scheme) opened (⟨1, .revoke revocation⟩ ::
        [⟨2, renewal⟩, ⟨8 * day, .pruneExpired⟩, ⟨8 * day, opening⟩, ⟨8 * day, renewal⟩]))
        ⟨"s"⟩ (8 * day) = true := by
  decide +kernel

end OpenFiat.SessionRevocation
