import OpenFiat.DisputeRegistry
import OpenFiat.EscrowAccounts
import OpenFiat.WireBytes

/-!
# Reading the chain's verdict off a case account

A node does not share types with the escrow program: it walks over the bytes of the
`DisputeCase` account up to the optional outcome and translates that. `caseBytes` is the
account as the program writes it, and `decodeOutcome_caseBytes` says what the walk returns on
it, whatever follows it in the account.
-/
namespace OpenFiat.OnchainDispute
open GuardedResult ProgramAddress EscrowAccounts TradingNode WireBytes

/-- The first eight bytes of `sha256("account:DisputeCase")`. -/
def disputeCaseDiscriminator : List UInt8 := [164, 200, 54, 239, 94, 76, 51, 130]

/-- The owner that the node expects: the deployed escrow program. -/
def escrowProgramId : String := "CYdn27x69hQ8WBxBeWRGpr9c8B4dcKj8GvyBn6Sdma9s"

def outcomeByte : DisputeOutcome → List UInt8
  | .buyerWins => [0]
  | .merchantWins => [1]
  | .mutualSettlement => [2]
  | .invalidDispute => [3]

def terminalReasonByte : TerminalSplitReason → List UInt8
  | .noConsensus => [0]
  | .quorumNotReached => [1]
  | .roundUnstaffed => [2]
  | .poolExhausted => [3]

/-- The fields before the first list, in declaration order. -/
def prefixBytes (P : Platform) (c : DisputeCase) : List UInt8 :=
  littleEndian 8 c.reservationId ++ P.keyBytes c.tradeEscrow ++ signedLittleEndian 8 c.openedAt ++
    signedLittleEndian 8 c.commitDeadline ++ signedLittleEndian 8 c.revealDeadline ++
    boolByte c.resolved ++ littleEndian 1 c.round ++ signedLittleEndian 8 c.commitWindowSecs ++
    signedLittleEndian 8 c.revealWindowSecs ++ c.caseSeed.bytes ++
    signedLittleEndian 8 c.roundOpenedAt

def depositBytes (P : Platform) (c : DisputeCase) : List UInt8 :=
  P.keyBytes c.depositVault ++ P.keyBytes c.depositMint ++ littleEndian 8 c.deposit ++
    littleEndian 8 c.depositShortfall

def suffixBytes (bump : UInt8) (c : DisputeCase) : List UInt8 :=
  littleEndian 8 c.winningWeight ++ littleEndian 8 c.rewardPool ++
    littleEndian 8 c.rewardRemaining ++ boolByte c.depositSettled ++ [bump] ++
    littleEndian 4 c.seatsTakenTotal ++ option terminalReasonByte c.terminalReason

/-- The account as the escrow program writes it. -/
def caseBytes (P : Platform) (bump : UInt8) (c : DisputeCase) : List UInt8 :=
  disputeCaseDiscriminator ++ prefixBytes P c ++ vec P.keyBytes c.arbitrators ++
    vec Digest.bytes c.commitments ++ vec (option outcomeByte) c.revealedOutcomes ++
    vec (littleEndian 8) c.weights ++ vec boolByte c.rewardClaimed ++ vec P.keyBytes c.barred ++
    depositBytes P c ++ option outcomeByte c.outcome ++ suffixBytes bump c

inductive RpcError where
  | invalidParams (reason : String)
deriving DecidableEq, Repr

def fixedPrefix : ℕ := 8 + 32 + 8 + 8 + 8 + 1 + 1 + 8 + 8 + 32 + 8

def take (count : ℕ) (data : List UInt8) : Except RpcError (List UInt8 × List UInt8) := do
  require (count ≤ data.length)
    (.invalidParams "dispute case account is shorter than its own layout")
  return data.splitAt count

def takeByte (data : List UInt8) : Except RpcError (UInt8 × List UInt8) := do
  let r ← take 1 data
  return (r.1.headD 0, r.2)

def skipVec (itemSize : ℕ) (data : List UInt8) : Except RpcError (List UInt8) := do
  let r ← take 4 data
  let bytes := ofLittleEndian r.1 * itemSize
  require (bytes < 2 ^ 64) (.invalidParams "implausible vector length")
  let r ← take bytes r.2
  return r.2

/-- One optional one-byte value after the other, `len` of them. -/
def skipOptions : ℕ → List UInt8 → Except RpcError (List UInt8)
  | 0, data => .ok data
  | len + 1, data => do
    let tag ← takeByte data
    if tag.1 = 1 then
      let value ← take 1 tag.2
      skipOptions len value.2
    else skipOptions len tag.2

def skipOptionVec (data : List UInt8) : Except RpcError (List UInt8) := do
  let r ← take 4 data
  skipOptions (ofLittleEndian r.1) r.2

/-- The program's outcome as a resolution of the node. An agreement of the parties is not a
ruling, and reported as an error. -/
def resolutionFromDiscriminant (raw : UInt8) : Except RpcError Resolution :=
  if raw = 0 then .ok .buyerWins
  else if raw = 1 then .ok .merchantWins
  else if raw = 2 then .error (.invalidParams
    "the chain settled this case by mutual agreement, which is not an arbitrator ruling")
  else if raw = 3 then .ok .invalid
  else .error (.invalidParams "unknown DisputeOutcome discriminant")

/-- What the chain decided, if it has decided. -/
def decodeOutcome (owner : String) (data : List UInt8) :
    Except RpcError (Option Resolution) := do
  require (owner = escrowProgramId)
    (.invalidParams "dispute case account is not owned by the escrow program")
  let r ← take 8 data
  require (r.1 = disputeCaseDiscriminator) (.invalidParams "account is not a DisputeCase")
  let r ← take fixedPrefix r.2
  let data ← skipVec 32 r.2 -- arbitrators
  let data ← skipVec 32 data -- commitments
  let data ← skipOptionVec data -- revealed outcomes
  let data ← skipVec 8 data -- weights
  let data ← skipVec 1 data -- reward claims
  let data ← skipVec 32 data -- barred seats
  let r ← take (32 + 32 + 8 + 8) data
  let tag ← takeByte r.2
  if tag.1 = 0 then return none
  else if tag.1 = 1 then
    let raw ← takeByte tag.2
    let resolution ← resolutionFromDiscriminant raw.1
    return some resolution
  else .error (.invalidParams "outcome is neither present nor absent")

section Walk
variable {β : Type} {l rest : List UInt8}

theorem require_bind {p : Prop} [Decidable p] {e : RpcError} (h : p)
    (f : Unit → Except RpcError β) : (require p e >>= f) = f () := by
  rw [require, if_pos h]
  rfl

theorem take_bind {n : ℕ} (h : l.length = n) (f : List UInt8 × List UInt8 → Except RpcError β) :
    (take n (l ++ rest) >>= f) = f (l, rest) := by
  subst h
  have hlen : l.length ≤ (l ++ rest).length := by
    rw [List.length_append]
    exact Nat.le_add_right _ _
  have htake : take l.length (l ++ rest) = .ok (l, rest) := by
    rw [take, require_bind hlen, List.splitAt_eq, List.take_left, List.drop_left]
    rfl
  rw [htake]
  rfl

theorem takeByte_bind (b : UInt8) (f : UInt8 × List UInt8 → Except RpcError β) :
    (takeByte (b :: rest) >>= f) = f (b, rest) := by
  have htake : takeByte (b :: rest) = .ok (b, rest) := by
    rw [takeByte, ← List.singleton_append, take_bind (List.length_singleton)]
    rfl
  rw [htake]
  rfl

theorem skipVec_bind {α : Type} {encode : α → List UInt8} {size : ℕ} {xs : List α}
    (hsize : ∀ a, (encode a).length = size) (hlen : xs.length < 2 ^ 32) (hsmall : size ≤ 2 ^ 32)
    (f : List UInt8 → Except RpcError β) :
    (skipVec size (vec encode xs ++ rest) >>= f) = f rest := by
  have hcount : ofLittleEndian (littleEndian 4 xs.length) = xs.length :=
    ofLittleEndian_littleEndian hlen
  have hbytes : xs.length * size < 2 ^ 64 := by
    calc xs.length * size ≤ xs.length * 2 ^ 32 := Nat.mul_le_mul_left _ hsmall
      _ < 2 ^ 32 * 2 ^ 32 := Nat.mul_lt_mul_of_pos_right hlen (by decide)
  have hskip : skipVec size (vec encode xs ++ rest) = .ok rest := by
    rw [skipVec, vec, List.append_assoc, take_bind (length_littleEndian 4 _)]
    simp only [hcount]
    rw [require_bind hbytes, take_bind (length_flatMap_of_fixed hsize xs)]
    rfl
  rw [hskip]
  rfl

theorem skipOptions_flatMap {α : Type} {encode : α → List UInt8}
    (hsize : ∀ a, (encode a).length = 1) (xs : List (Option α)) :
    skipOptions xs.length (xs.flatMap (option encode) ++ rest) = .ok rest := by
  induction xs with
  | nil => rfl
  | cons o xs ih =>
    rw [List.length_cons, skipOptions, List.flatMap_cons, List.append_assoc]
    cases o with
    | none =>
      rw [option, List.singleton_append, takeByte_bind]
      exact ih
    | some a =>
      rw [option, List.cons_append, takeByte_bind]
      rw [take_bind (hsize a)]
      exact ih

theorem skipOptionVec_bind {α : Type} {encode : α → List UInt8} {xs : List (Option α)}
    (hsize : ∀ a, (encode a).length = 1) (hlen : xs.length < 2 ^ 32)
    (f : List UInt8 → Except RpcError β) :
    (skipOptionVec (vec (option encode) xs ++ rest) >>= f) = f rest := by
  have hcount : ofLittleEndian (littleEndian 4 xs.length) = xs.length :=
    ofLittleEndian_littleEndian hlen
  have hskip : skipOptionVec (vec (option encode) xs ++ rest) = .ok rest := by
    rw [skipOptionVec, vec, List.append_assoc, take_bind (length_littleEndian 4 _)]
    simp only [hcount]
    exact skipOptions_flatMap hsize xs
  rw [hskip]
  rfl

end Walk

/-- The lists of the case have lengths that fit their length words. -/
structure ListsFit (c : DisputeCase) : Prop where
  arbitrators : c.arbitrators.length < 2 ^ 32
  commitments : c.commitments.length < 2 ^ 32
  revealedOutcomes : c.revealedOutcomes.length < 2 ^ 32
  weights : c.weights.length < 2 ^ 32
  rewardClaimed : c.rewardClaimed.length < 2 ^ 32
  barred : c.barred.length < 2 ^ 32

def reading : Option DisputeOutcome → Except RpcError (Option Resolution)
  | none => .ok none
  | some .buyerWins => .ok (some .buyerWins)
  | some .merchantWins => .ok (some .merchantWins)
  | some .mutualSettlement => .error (.invalidParams
    "the chain settled this case by mutual agreement, which is not an arbitrator ruling")
  | some .invalidDispute => .ok (some .invalid)

theorem length_prefixBytes {P : Platform} (hkeys : ∀ k, (P.keyBytes k).length = 32)
    (c : DisputeCase) : (prefixBytes P c).length = fixedPrefix := by
  simp [prefixBytes, hkeys, c.caseSeed.length_eq, boolByte, fixedPrefix]

theorem length_depositBytes {P : Platform} (hkeys : ∀ k, (P.keyBytes k).length = 32)
    (c : DisputeCase) : (depositBytes P c).length = 32 + 32 + 8 + 8 := by
  simp [depositBytes, hkeys]

theorem length_outcomeByte (o : DisputeOutcome) : (outcomeByte o).length = 1 := by
  cases o <;> rfl

theorem decodeOutcome_caseBytes {P : Platform} (hkeys : ∀ k, (P.keyBytes k).length = 32)
    (bump : UInt8) {c : DisputeCase} (hc : ListsFit c) (trailing : List UInt8) :
    decodeOutcome escrowProgramId (caseBytes P bump c ++ trailing) = reading c.outcome := by
  have hdisc : disputeCaseDiscriminator.length = 8 := rfl
  have hword : ∀ n, (littleEndian 8 n).length = 8 := length_littleEndian 8
  have hbool : ∀ b, (boolByte b).length = 1 := fun _ => rfl
  rw [decodeOutcome, caseBytes]
  simp only [List.append_assoc]
  rw [take_bind hdisc, take_bind (length_prefixBytes hkeys c),
    skipVec_bind hkeys hc.arbitrators (by decide),
    skipVec_bind Digest.length_eq hc.commitments (by decide),
    skipOptionVec_bind length_outcomeByte hc.revealedOutcomes,
    skipVec_bind hword hc.weights (by decide), skipVec_bind hbool hc.rewardClaimed (by decide),
    skipVec_bind hkeys hc.barred (by decide), take_bind (length_depositBytes hkeys c)]
  rcases c.outcome with _ | o
  · rfl
  · cases o <;> rfl

end OpenFiat.OnchainDispute
