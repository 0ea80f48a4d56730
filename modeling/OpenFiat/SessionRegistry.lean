import OpenFiat.NodePayloads
import OpenFiat.RecordStores
import OpenFiat.TransactionRuns
import Mathlib.Data.String.Basic

/-!
# The session registry

A wallet opens a session with a signed payload, and renews, migrates or revokes it with further
ones. Anybody may deliver a payload, at any time and any number of times. Renewals and
migrations carry a version that has to move forward; a revoked session accepts nothing more.
A sweep deletes sessions that expired longer ago than the grace period, revoked or not.
-/
namespace OpenFiat.SessionRegistry
open GuardedResult NodePayloads RecordStores

structure SessionId where
  id : String
deriving DecidableEq, Repr

structure Session where
  id : SessionId
  wallet : PeerId
  walletPublicKey : PublicKey
  authenticatedAt : Timestamp
  expiresAt : Timestamp
  client : String
  hostNode : PeerId
  permissions : List String
  version : ℕ
  revoked : Bool
deriving DecidableEq

/-- Neither revoked nor expired: the answer to whether a session is active. -/
def Session.isCurrent (session : Session) (now : Timestamp) : Bool :=
  !session.revoked && now < session.expiresAt

structure SessionCreate where
  id : SessionId
  wallet : PeerId
  walletPublicKey : PublicKey
  client : String
  hostNode : PeerId
  permissions : List String
  timestamp : Timestamp
  expiresAt : Timestamp
deriving DecidableEq

structure SessionRenew where
  sessionId : SessionId
  wallet : PeerId
  newExpiresAt : Timestamp
  version : ℕ
  timestamp : Timestamp
deriving DecidableEq

structure SessionRevoke where
  sessionId : SessionId
  wallet : PeerId
  timestamp : Timestamp
deriving DecidableEq

structure SessionMigrate where
  sessionId : SessionId
  wallet : PeerId
  newHostNode : PeerId
  version : ℕ
  timestamp : Timestamp
deriving DecidableEq

inductive SessionStatement where
  | sessionCreate (create : SessionCreate)
  | sessionRenew (renew : SessionRenew)
  | sessionRevoke (revoke : SessionRevoke)
  | sessionMigrate (migrate : SessionMigrate)
deriving DecidableEq

inductive SessionError where
  | invalidSignature
  | unauthorized
  | malformedSession
  | duplicateSessionId
  | sessionNotFound
  | alreadyRevoked
  | staleVersion
deriving DecidableEq, Repr

/-- How long an expired session is kept, in milliseconds. -/
def expiredGrace : ℕ := 7 * 24 * 60 * 60 * 1000

abbrev Registry := RecordStore Session.id

def newSession (create : SessionCreate) : Session where
  __ := create
  authenticatedAt := create.timestamp
  version := 0
  revoked := false

section Handlers
variable (S : SignatureScheme SessionStatement) (r : Registry)

def applyCreate (signed : Signed SessionCreate) : Except SessionError Registry := do
  let create := signed.payload
  S.verifyAuthor create.walletPublicKey create.wallet (.sessionCreate create) signed.signature
    .unauthorized .invalidSignature
  require (r.get create.id = none) .duplicateSessionId
  return r.put (newSession create)

/-- The shared body of the operations on a session that exists. A payload with a version has to
be newer than the session. -/
def update (id : SessionId) (wallet : PeerId)
    (statement : SessionStatement) (signature : Signature) (version : Option ℕ)
    (change : Session → Session) : Except SessionError Registry := do
  let session ← load (r.get id) .sessionNotFound
  require (session.wallet = wallet) .unauthorized
  require (S.verify session.walletPublicKey statement signature = true) .invalidSignature
  require (session.revoked = false) .alreadyRevoked
  require (version.all (session.version < ·) = true) .staleVersion
  return r.put (change session)

def applyRenew (signed : Signed SessionRenew) : Except SessionError Registry :=
  let renew := signed.payload
  update S r renew.sessionId renew.wallet (.sessionRenew renew) signed.signature
    (some renew.version) fun session => { session with
      expiresAt := renew.newExpiresAt
      version := renew.version }

def applyRevoke (signed : Signed SessionRevoke) : Except SessionError Registry :=
  let revoke := signed.payload
  update S r revoke.sessionId revoke.wallet (.sessionRevoke revoke) signed.signature none
    fun session => { session with revoked := true }

def applyMigrate (signed : Signed SessionMigrate) : Except SessionError Registry :=
  let migrate := signed.payload
  update S r migrate.sessionId migrate.wallet (.sessionMigrate migrate) signed.signature
    (some migrate.version) fun session => { session with
      hostNode := migrate.newHostNode
      version := migrate.version }

end Handlers

theorem sessionId_injective : Function.Injective SessionId.id := by
  rintro ⟨_⟩ ⟨_⟩ h
  exact congrArg _ h

/-- One sweep, with the number of sessions that it deleted. -/
def pruneExpired (now : Timestamp) (r : Registry) : Registry × ℕ :=
  r.prune SessionId.id sessionId_injective fun session => session.expiresAt < now - expiredGrace

inductive Action where
  | create (signed : Signed SessionCreate)
  | renew (signed : Signed SessionRenew)
  | revoke (signed : Signed SessionRevoke)
  | migrate (signed : Signed SessionMigrate)
  | pruneExpired

structure Delivery where
  time : Timestamp
  action : Action

def step (S : SignatureScheme SessionStatement) (r : Registry) (d : Delivery) :
    Except SessionError Registry :=
  match d.action with
  | .create signed => applyCreate S r signed
  | .renew signed => applyRenew S r signed
  | .revoke signed => applyRevoke S r signed
  | .migrate signed => applyMigrate S r signed
  | .pruneExpired => .ok (pruneExpired d.time r).1

def isActive (r : Registry) (id : SessionId) (now : Timestamp) : Bool :=
  (r.get id).any (Session.isCurrent · now)

variable {S : SignatureScheme SessionStatement} {r r' : Registry} {d : Delivery}

/-- The ways in which the record of a session can change. -/
inductive Change (d : Delivery) (id : SessionId) : Option Session → Option Session → Prop
  | same (record : Option Session) : Change d id record record
  | created (signed : Signed SessionCreate) : d.action = .create signed → signed.payload.id = id →
      Change d id none (some (newSession signed.payload))
  | renewed (signed : Signed SessionRenew) (session : Session) : d.action = .renew signed →
      signed.payload.sessionId = id → session.revoked = false →
      session.version < signed.payload.version →
      Change d id (some session) (some { session with
        expiresAt := signed.payload.newExpiresAt
        version := signed.payload.version })
  | revoked (signed : Signed SessionRevoke) (session : Session) : d.action = .revoke signed →
      signed.payload.sessionId = id → session.revoked = false →
      Change d id (some session) (some { session with revoked := true })
  | migrated (signed : Signed SessionMigrate) (session : Session) : d.action = .migrate signed →
      signed.payload.sessionId = id → session.revoked = false →
      session.version < signed.payload.version →
      Change d id (some session) (some { session with
        hostNode := signed.payload.newHostNode
        version := signed.payload.version })
  | pruned (session : Session) : d.action = .pruneExpired →
      session.expiresAt < d.time - expiredGrace → Change d id (some session) none

theorem update_ok {id : SessionId} {wallet : PeerId} {statement : SessionStatement}
    {signature : Signature} {version : Option ℕ} {change : Session → Session}
    (h : update S r id wallet statement signature version change = .ok r') :
    ∃ session, r.get id = some session ∧ session.wallet = wallet ∧
      S.verify session.walletPublicKey statement signature = true ∧ session.revoked = false ∧
      version.all (session.version < ·) = true ∧ r' = r.put (change session) := by
  simp only [update, bind_ok, load_ok, require_ok, pure_ok, exists_const] at h
  obtain ⟨session, hget, hwallet, hverify, hrevoked, hversion, hput⟩ := h
  exact ⟨session, hget, hwallet, hverify, hrevoked, hversion, hput.symm⟩

theorem change_put {id : SessionId} {session new : Session} (hget : r.get id = some session)
    (hid : new.id = session.id) (h : Change d id (some session) (some new)) (k : SessionId) :
    Change d k (r.get k) ((r.put new).get k) :=
  RecordStore.rel_put_back (fun _ o => .same o) hget hid h k

theorem step_change (h : step S r d = .ok r') (k : SessionId) :
    Change d k (r.get k) (r'.get k) := by
  obtain ⟨time, action⟩ := d
  cases action with
  | create signed =>
    simp only [step, applyCreate, bind_ok, require_ok, pure_ok, exists_const] at h
    obtain ⟨-, -, hfree, rfl⟩ := h
    refine RecordStore.rel_put (fun _ o => .same o) ?_ k
    change Change _ signed.payload.id (r.get signed.payload.id) _
    rw [hfree]
    exact .created signed rfl rfl
  | renew signed | migrate signed =>
    obtain ⟨session, hget, -, -, hrevoked, hversion, rfl⟩ := update_ok h
    refine change_put hget ?_ ?_ k
    · rfl
    · constructor
      exacts [rfl, rfl, hrevoked, by simpa using hversion]
  | revoke signed =>
    obtain ⟨session, hget, -, -, hrevoked, -, rfl⟩ := update_ok h
    refine change_put hget ?_ ?_ k
    · rfl
    · exact .revoked signed session rfl rfl hrevoked
  | pruneExpired =>
    obtain rfl : (pruneExpired time r).1 = r' := Except.ok.inj h
    rw [pruneExpired, RecordStore.get_prune]
    cases hget : r.get k with
    | none => exact .same none
    | some session =>
      rw [Option.filter_some]
      by_cases hexpired : session.expiresAt < time - expiredGrace
      · rw [decide_eq_true hexpired]
        exact .pruned session rfl hexpired
      · rw [decide_eq_false hexpired]
        exact .same _

end OpenFiat.SessionRegistry
