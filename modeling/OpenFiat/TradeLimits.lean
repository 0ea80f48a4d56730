import OpenFiat.NodeSteps
import Mathlib.Tactic.Positivity

/-!
# Trade limits as quantities

A request is compared with the limits of its advertisement by base units. The request has
the decimals of the liquidity, which reserving checks; the two limits have one precision,
which the terms check; but nothing relates the two. The module says exactly which accepted
requests are inside the limits as quantities.
-/
namespace OpenFiat.TradeLimits
open GuardedResult FiniteTable NodePayloads TradingNode AdvertisementRegistry
open ReservationRegistry NodeSteps TransactionRuns

def value (a : Amount) : ℚ := a.baseUnits / 10 ^ a.decimals

/-- The amount is inside the limits of the advertisement, as a quantity. -/
def Within (ad : Advertisement) (amount : Amount) : Prop :=
  value ad.minTrade ≤ value amount ∧ value amount ≤ value ad.maxTrade

/-- The amount is written in the decimals of the limits, or it stays inside after being
brought to them: a finer one against the floor, a coarser one against the ceiling. -/
def Commensurate (ad : Advertisement) (amount : Amount) : Prop :=
  amount.decimals = ad.minTrade.decimals ∨
    ad.minTrade.decimals < amount.decimals ∧
      ad.minTrade.baseUnits * 10 ^ (amount.decimals - ad.minTrade.decimals) ≤ amount.baseUnits ∨
    amount.decimals < ad.minTrade.decimals ∧
      amount.baseUnits * 10 ^ (ad.minTrade.decimals - amount.decimals) ≤ ad.maxTrade.baseUnits

instance (ad : Advertisement) (amount : Amount) : Decidable (Commensurate ad amount) :=
  inferInstanceAs (Decidable (_ ∨ _ ∧ _ ∨ _ ∧ _))

theorem value_le_value {a b : Amount} :
    value a ≤ value b ↔ a.baseUnits * 10 ^ b.decimals ≤ b.baseUnits * 10 ^ a.decimals := by
  have ha : (0 : ℚ) < 10 ^ a.decimals := by positivity
  have hb : (0 : ℚ) < 10 ^ b.decimals := by positivity
  rw [value, value, div_le_div_iff₀ ha hb]
  exact_mod_cast Iff.rfl

theorem value_le_coarser {a b : Amount} {k : ℕ} (h : b.decimals = a.decimals + k) :
    value a ≤ value b ↔ a.baseUnits * 10 ^ k ≤ b.baseUnits := by
  have hpos : 0 < 10 ^ a.decimals := by positivity
  rw [value_le_value, h, pow_add, mul_comm (10 ^ a.decimals), ← mul_assoc]
  exact Nat.mul_le_mul_right_iff hpos

theorem value_ge_coarser {a b : Amount} {k : ℕ} (h : b.decimals = a.decimals + k) :
    value b ≤ value a ↔ b.baseUnits ≤ a.baseUnits * 10 ^ k := by
  have hpos : 0 < 10 ^ a.decimals := by positivity
  rw [value_le_value, h, pow_add, mul_comm (10 ^ a.decimals), ← mul_assoc]
  exact Nat.mul_le_mul_right_iff hpos

/-- For an amount whose base units are inside the limits, the exact condition. -/
theorem within_iff {ad : Advertisement} {amount : Amount} (hlimits : Limits ad)
    (hmin : ad.minTrade.baseUnits ≤ amount.baseUnits)
    (hmax : amount.baseUnits ≤ ad.maxTrade.baseUnits) :
    Within ad amount ↔ Commensurate ad amount := by
  have hdec := hlimits.1
  rcases lt_trichotomy amount.decimals ad.minTrade.decimals with hlt | heq | hgt
  · -- a coarser amount is worth more than its base units say, so only the ceiling matters
    obtain ⟨k, hk⟩ := Nat.exists_eq_add_of_lt hlt
    have hfloor : value ad.minTrade ≤ value amount := by
      rw [value_ge_coarser (k := k + 1) hk]
      exact hmin.trans (Nat.le_mul_of_pos_right _ (by positivity))
    have hceiling := value_le_coarser (a := amount) (b := ad.maxTrade) (k := k + 1)
      (hdec ▸ hk)
    have hsub : ad.minTrade.decimals - amount.decimals = k + 1 := by omega
    simp [Within, Commensurate, hfloor, hceiling, hsub, hlt, hlt.ne, hlt.not_gt]
  · have hfloor := value_le_coarser (a := ad.minTrade) (b := amount) (k := 0) heq
    have hceiling := value_le_coarser (a := amount) (b := ad.maxTrade) (k := 0)
      (hdec ▸ heq.symm)
    simp only [pow_zero, mul_one] at hfloor hceiling
    simp [Within, Commensurate, hfloor, hceiling, hmin, hmax, heq]
  · -- a finer amount is worth less than its base units say, so only the floor matters
    obtain ⟨k, hk⟩ := Nat.exists_eq_add_of_lt hgt
    have hceiling : value amount ≤ value ad.maxTrade := by
      rw [value_ge_coarser (k := k + 1) (hdec ▸ hk)]
      exact hmax.trans (Nat.le_mul_of_pos_right _ (by positivity))
    have hfloor := value_le_coarser (a := ad.minTrade) (b := amount) (k := k + 1) hk
    have hsub : amount.decimals - ad.minTrade.decimals = k + 1 := by omega
    simp [Within, Commensurate, hceiling, hfloor, hsub, hgt, hgt.ne', hgt.not_gt]

variable {p : NodePlatform} {now : Timestamp} {w w' : Node}

def LimitsKept (ads : Table AdvertisementId Advertisement) : Prop :=
  ∀ id ad, ads.lookup id = some ad → Limits ad

theorem limitsKept_adjusted {ads : Table AdvertisementId Advertisement} (h : LimitsKept ads)
    {id : AdvertisementId} {ad ad' : Advertisement} (had : ads.lookup id = some ad)
    (hadjusted : Adjusted ad ad') : LimitsKept (ads.insert id ad') := by
  refine Table.forall_insert (Q := fun _ ad => Limits ad) h ?_
  rw [Limits, hadjusted.minTrade, hadjusted.maxTrade]
  exact h id ad had

theorem limitsKept_release (h : LimitsKept w.advertisements) {id : AdvertisementId}
    {amount : Amount} (hrelease : releaseLiquidity now w id amount = .ok w') :
    LimitsKept w'.advertisements := by
  obtain ⟨ad, ad', had, rfl, hadjusted, -⟩ := releaseLiquidity_ok hrelease
  exact limitsKept_adjusted h had hadjusted

theorem Change.limitsKept {e : Event} (hchange : Change p now w e w')
    (h : LimitsKept w.advertisements) : LimitsKept w'.advertisements := by
  cases hchange with
  | created signed _ hlimits => exact Table.forall_insert (Q := fun _ ad => Limits ad) h hlimits
  | edited _ id ad ad' _ had hedit =>
    exact Table.forall_insert (Q := fun _ ad => Limits ad) h (hedit.limits (h id ad had))
  | requested signed ad ad' haccepts =>
    exact limitsKept_adjusted h haccepts.found haccepts.adjusted
  | withdrawn signed r =>
    cases hrelease : releaseLiquidity now w r.advertisementId r.amount with
    | error => exact h
    | ok =>
      have hw₁ := limitsKept_release h hrelease
      exact hw₁
  | initiated =>
    change LimitsKept (attempt w (transition now w _ _ _)).advertisements
    rw [attempt_transition_advertisements]
    exact h
  | moved _ id s s' effect =>
    change LimitsKept (effect.apply now w s.reservationId).advertisements
    rw [effect_advertisements]
    exact h
  | arbitrated => exact h
  | swept =>
    refine expireStale_rule (P := fun w => LimitsKept w.advertisements) ?_ h
    rintro w w₁ id r hw - - - hrelease
    have hw₁ := limitsKept_release hw hrelease
    exact hw₁

/-- In every run, an accepted request is inside the limits of its advertisement as a quantity
exactly when its base units are commensurate with them. -/
theorem trade_limits_respected_iff (p : NodePlatform) (inputs : List Input) :
    ∀ t ∈ transitions (step p) emptyNode inputs, ∀ signed,
      t.label.event = .reservationRequested signed → ∃ ad,
        t.before.advertisements.lookup signed.payload.advertisementId = some ad ∧
          (Within ad signed.payload.amount ↔ Commensurate ad signed.payload.amount) := by
  intro t ht signed hsigned
  have hempty : LimitsKept emptyNode.advertisements := fun id ad had => by cases had
  obtain ⟨hkept, hstep⟩ := invariant_of_mem (I := fun w => LimitsKept w.advertisements)
    (G := fun _ => True)
    (fun w input w' h hstep _ => Change.limitsKept (step_change hstep) h) hempty
      (fun _ _ => trivial) ht
  simp only [step, hsigned, mapError_ok] at hstep
  obtain ⟨-, -, ad, ad', haccepts, -⟩ := applyRequest_ok hstep
  exact ⟨ad, haccepts.found,
    within_iff (hkept _ ad haccepts.found) haccepts.minTrade haccepts.maxTrade⟩

/-! A floor of one whole unit, written in cents, lets five ten-thousandths of a unit through
when the liquidity is kept in millionths. Written in millionths, the limits hold. -/

def sixPlaces : Fin (2 ^ 8) := ⟨6, by decide⟩

def limitedAd (decimals : Fin (2 ^ 8)) : AdvertisementCreate where
  id := ⟨"ad-1"⟩
  merchant := peer 1
  merchantPublicKey := .filled 1
  assetMint := ⟨"So11111111111111111111111111111111111111112"⟩
  direction := .sell
  fiatCurrency := ⟨"KES"⟩
  minTrade := .new 100 (UInt8.ofFin decimals)
  maxTrade := .new 1000 (UInt8.ofFin decimals)
  initialLiquidity := .new 1000000000 6
  pricing := .fixed (.new 12950 2)
  paymentMethods := [.builtin "mpesa-kenya"]
  timestamp := 1000

def smallRequest : ReservationRequest where
  id := ⟨"res-1"⟩
  advertisementId := ⟨"ad-1"⟩
  requester := peer 2
  requesterPublicKey := .filled 2
  amount := .new 500 6
  agreedPrice := .new 12950 2
  agreedMid := none
  timestamp := 2000

def limitsPlatform (decimals : Fin (2 ^ 8)) : NodePlatform :=
  signedPlatform [(.filled 1, .advertisementCreate (limitedAd decimals)),
    (.filled 2, .reservationRequest smallRequest)]

def creationInput (decimals : Fin (2 ^ 8)) : Input :=
  ⟨1000, .advertisementCreated ⟨limitedAd decimals, ⟨[]⟩⟩⟩

def requestInput : Input := ⟨2000, .reservationRequested ⟨smallRequest, ⟨[]⟩⟩⟩

theorem trade_limits_respected_iff_millionths :
    ∃ ad, (run (step (limitsPlatform 6)) emptyNode [creationInput 6]).advertisements.lookup
        smallRequest.advertisementId = some ad ∧ Within ad smallRequest.amount := by
  obtain ⟨ad, had, hiff⟩ := trade_limits_respected_iff (limitsPlatform 6)
    ([creationInput 6] ++ [requestInput]) _ (last_mem_transitions (by decide +kernel)) _ rfl
  have hnew : (run (step (limitsPlatform 6)) emptyNode [creationInput 6]).advertisements.lookup
      smallRequest.advertisementId = some (newAdvertisement (limitedAd 6)) := by decide +kernel
  obtain rfl : newAdvertisement (limitedAd 6) = ad := Option.mem_unique hnew had
  exact ⟨_, had, hiff.mpr (by decide)⟩

theorem small_request_below_floor :
    ∃ t ∈ transitions (step (limitsPlatform 2)) emptyNode ([creationInput 2] ++ [requestInput]),
      t.label.event = .reservationRequested ⟨smallRequest, ⟨[]⟩⟩ ∧
        t.before.advertisements.lookup smallRequest.advertisementId =
          some (newAdvertisement (limitedAd 2)) ∧
        ¬ Within (newAdvertisement (limitedAd 2)) smallRequest.amount := by
  rw [within_iff (by decide) (by decide) (by decide)]
  decide

end OpenFiat.TradeLimits
