import OpenFiat.EscrowAccounts
import OpenFiat.GuardedResult
import OpenFiat.WireBytes

/-!
# The arbitrator draw

A case seed is latched from the slot-hashes sysvar when a round opens, and a
stake account may take a seat when its ticket, a hash of the seed and its
address, falls below a threshold that widens over the commit window.
-/
namespace OpenFiat.Sortition
open ProgramAddress EscrowAccounts GuardedResult WireBytes

def sortitionBpsDenominator : ℕ := 10000
def sortitionWideningSteps : ℕ := 8

def sortitionDomain : List UInt8 := "openfiat-arbitrator-sortition".toUTF8.toList
def caseSeedDomain : List UInt8 := "openfiat-dispute-case-seed".toUTF8.toList

def latchCaseSeed (P : Platform) (slotHashes : List UInt8) (reservationId : ℕ)
    (tradeEscrow : Pubkey) : Except EscrowError Digest := do
  require (8 + 40 ≤ slotHashes.length) .slotHashesUnavailable
  require (0 < ofLittleEndian (slotHashes.take 8)) .slotHashesUnavailable
  return P.sha256 (caseSeedDomain ++ (slotHashes.drop 8).take 40 ++ littleEndian 8 reservationId ++
    P.keyBytes tradeEscrow)

def sortitionTicketBps (P : Platform) (caseSeed : Digest) (stakeAccount : Pubkey) : ℕ :=
  let digest := P.sha256 (sortitionDomain ++ caseSeed.bytes ++ P.keyBytes stakeAccount)
  ofLittleEndian (digest.bytes.take 8) % sortitionBpsDenominator

def sortitionThresholdBps (initial : ℕ) (windowStart windowEnd now : ℤ) : ℕ :=
  if initial = 0 ∨ sortitionBpsDenominator ≤ initial then sortitionBpsDenominator
  else
    let window := windowEnd - windowStart
    if ¬ InI64 window ∨ window ≤ 0 then sortitionBpsDenominator
    else
      let elapsed := max 0 (min window (saturatingSubI64 now windowStart))
      let step := min (elapsed * sortitionWideningSteps / window).toNat (sortitionWideningSteps - 1)
      if step = sortitionWideningSteps - 1 then sortitionBpsDenominator
      else min (initial * 2 ^ step) sortitionBpsDenominator

def qualifiesForSeat (P : Platform) (caseSeed : Digest) (stakeAccount : Pubkey) (initialBps : ℕ)
    (windowStart windowEnd now : ℤ) : Prop :=
  initialBps = 0 ∨ sortitionTicketBps P caseSeed stakeAccount <
    sortitionThresholdBps initialBps windowStart windowEnd now

instance (P : Platform) (caseSeed : Digest) (stakeAccount : Pubkey) (initialBps : ℕ)
    (windowStart windowEnd now : ℤ) :
    Decidable (qualifiesForSeat P caseSeed stakeAccount initialBps windowStart windowEnd now) :=
  inferInstanceAs (Decidable (_ ∨ _))

end OpenFiat.Sortition
