import OpenFiat.TradingNode

/-!
# The advertisement registry

A merchant creates an advertisement once and edits its status, terms and price by signed
updates. The available liquidity is not edited: reserving takes from it, releasing gives
back, and both compare decimals.
-/
namespace OpenFiat.AdvertisementRegistry
open GuardedResult NodePayloads TradingNode

def verifyCreate (p : NodePlatform) (signed : Signed AdvertisementCreate) :
    Except AdvertisementError Unit :=
  p.verifyAuthor signed.payload.merchantPublicKey signed.payload.merchant
    (.advertisementCreate signed.payload) signed.signature .unauthorizedUpdate .invalidSignature

def checkTerms (p : NodePlatform) (minTrade maxTrade : Amount)
    (paymentMethods : List PaymentMethodRef) (merchant : PeerId) :
    Except AdvertisementError Unit := do
  require (paymentMethods ≠ []) .unusableTerms
  require (paymentMethods.all (PaymentMethodRef.isSelectableBy p merchant) = true) .unusableTerms
  require (minTrade.decimals = maxTrade.decimals ∧ minTrade.baseUnits ≤ maxTrade.baseUnits)
    .unusableTerms

def newAdvertisement (create : AdvertisementCreate) : Advertisement where
  __ := create
  availableLiquidity := create.initialLiquidity
  status := .active
  createdAt := create.timestamp
  updatedAt := create.timestamp

def putAdvertisement (w : Node) (id : AdvertisementId) (ad : Advertisement) : Node :=
  { w with advertisements := w.advertisements.insert id ad }

def applyCreate (p : NodePlatform) (w : Node) (signed : Signed AdvertisementCreate) :
    Except AdvertisementError Node := do
  verifyCreate p signed
  require (w.advertisements.lookup signed.payload.id = none) .duplicateAdvertisementId
  checkTerms p signed.payload.minTrade signed.payload.maxTrade signed.payload.paymentMethods
    signed.payload.merchant
  return putAdvertisement w signed.payload.id (newAdvertisement signed.payload)

/-- The checks that every signed edit of an advertisement shares. -/
def authorize (p : NodePlatform) (w : Node) (id : AdvertisementId) (merchant : PeerId)
    (statement : Statement) (signature : Signature) : Except AdvertisementError Advertisement := do
  let ad ← load (w.advertisements.lookup id) .advertisementNotFound
  require (p.verify ad.merchantPublicKey statement signature = true) .invalidSignature
  require (ad.merchant = merchant) .unauthorizedUpdate
  require (ad.status ≠ .deleted) .advertisementDeleted
  return ad

def applyStatusSet (p : NodePlatform) (w : Node) (signed : Signed AdvertisementStatusSet) :
    Except AdvertisementError Node := do
  let set := signed.payload
  let ad ← authorize p w set.id set.merchant (.advertisementStatusSet set) signed.signature
  require (¬ (set.status = .active ∧ ad.availableLiquidity.baseUnits = 0)) .insufficientLiquidity
  return putAdvertisement w set.id { ad with status := set.status, updatedAt := set.timestamp }

def applyTermsUpdate (p : NodePlatform) (w : Node) (signed : Signed AdvertisementTermsUpdate) :
    Except AdvertisementError Node := do
  let update := signed.payload
  let ad ← authorize p w update.id update.merchant (.advertisementTermsUpdate update)
    signed.signature
  checkTerms p update.minTrade update.maxTrade update.paymentMethods update.merchant
  return putAdvertisement w update.id { ad with
    minTrade := update.minTrade
    maxTrade := update.maxTrade
    paymentMethods := update.paymentMethods
    updatedAt := update.timestamp }

def applyPricingUpdate (p : NodePlatform) (w : Node) (signed : Signed AdvertisementPriceUpdate) :
    Except AdvertisementError Node := do
  let update := signed.payload
  let ad ← authorize p w update.id update.merchant (.advertisementPriceUpdate update)
    signed.signature
  return putAdvertisement w update.id
    { ad with pricing := update.pricing, updatedAt := update.timestamp }

/-- An advertisement whose liquidity is exhausted is taken down. -/
def reserveLiquidity (now : Timestamp) (w : Node) (id : AdvertisementId) (amount : Amount) :
    Except AdvertisementError Node := do
  let ad ← load (w.advertisements.lookup id) .advertisementNotFound
  let remaining ← load (ad.availableLiquidity.checkedSub amount) .insufficientLiquidity
  return putAdvertisement w id { ad with
    availableLiquidity := remaining
    status := if remaining.baseUnits = 0 then .disabled else ad.status
    updatedAt := now }

def releaseLiquidity (now : Timestamp) (w : Node) (id : AdvertisementId) (amount : Amount) :
    Except AdvertisementError Node := do
  let ad ← load (w.advertisements.lookup id) .advertisementNotFound
  let available ← load (ad.availableLiquidity.checkedAdd amount) .malformedAdvertisement
  return putAdvertisement w id { ad with availableLiquidity := available, updatedAt := now }

variable {p : NodePlatform} {now : Timestamp} {w w' : Node} {id : AdvertisementId}

def Limits (ad : Advertisement) : Prop :=
  ad.minTrade.decimals = ad.maxTrade.decimals ∧ ad.minTrade.baseUnits ≤ ad.maxTrade.baseUnits

instance (ad : Advertisement) : Decidable (Limits ad) := inferInstanceAs (Decidable (_ ∧ _))

variable {merchant : PeerId} {amount : Amount}

theorem checkTerms_ok {minTrade maxTrade : Amount} {methods : List PaymentMethodRef} {u : Unit} :
    checkTerms p minTrade maxTrade methods merchant = .ok u ↔
      methods ≠ [] ∧ methods.all (PaymentMethodRef.isSelectableBy p merchant) = true ∧
        minTrade.decimals = maxTrade.decimals ∧ minTrade.baseUnits ≤ maxTrade.baseUnits := by
  simp [checkTerms]

theorem checkTerms_limits {minTrade maxTrade : Amount} {methods : List PaymentMethodRef} {u : Unit}
    (h : checkTerms p minTrade maxTrade methods merchant = .ok u) :
    minTrade.decimals = maxTrade.decimals ∧ minTrade.baseUnits ≤ maxTrade.baseUnits :=
  (checkTerms_ok.mp h).2.2

theorem applyCreate_ok {signed : Signed AdvertisementCreate} (h : applyCreate p w signed = .ok w') :
    p.peerIdFromPublicKey signed.payload.merchantPublicKey = some signed.payload.merchant ∧
      w.advertisements.lookup signed.payload.id = none ∧
      Limits (newAdvertisement signed.payload) ∧
      w' = putAdvertisement w signed.payload.id (newAdvertisement signed.payload) := by
  simp only [applyCreate, verifyCreate, bind_ok, SignatureScheme.verifyAuthor_ok, require_ok,
    pure_ok] at h
  obtain ⟨-, ⟨hkey, -⟩, -, hfresh, u, hterms, rfl⟩ := h
  exact ⟨hkey, hfresh, checkTerms_limits hterms, rfl⟩

theorem authorize_ok {statement : Statement} {signature : Signature} {ad : Advertisement} :
    authorize p w id merchant statement signature = .ok ad ↔
      w.advertisements.lookup id = some ad ∧
        p.verify ad.merchantPublicKey statement signature = true ∧ ad.merchant = merchant ∧
        ad.status ≠ .deleted := by
  simp only [authorize, bind_ok, load_ok, require_ok, pure_ok]
  constructor
  · rintro ⟨_, had, -, hverify, -, hmerchant, -, hstatus, rfl⟩
    exact ⟨had, hverify, hmerchant, hstatus⟩
  · rintro ⟨had, hverify, hmerchant, hstatus⟩
    exact ⟨ad, had, (), hverify, (), hmerchant, (), hstatus, rfl⟩

/-- An edit by the merchant: the parties, the asset and the liquidity stay. -/
structure Edit (ad ad' : Advertisement) : Prop where
  merchant : ad'.merchant = ad.merchant
  merchantPublicKey : ad'.merchantPublicKey = ad.merchantPublicKey
  assetMint : ad'.assetMint = ad.assetMint
  availableLiquidity : ad'.availableLiquidity = ad.availableLiquidity
  limits : Limits ad → Limits ad'

def Edits (w : Node) (id : AdvertisementId) (w' : Node) : Prop :=
  ∃ ad ad', w.advertisements.lookup id = some ad ∧ w' = putAdvertisement w id ad' ∧ Edit ad ad'

theorem applyStatusSet_ok {signed : Signed AdvertisementStatusSet}
    (h : applyStatusSet p w signed = .ok w') : Edits w signed.payload.id w' := by
  simp only [applyStatusSet, bind_ok, authorize_ok, require_ok, pure_ok] at h
  obtain ⟨ad, ⟨had, -⟩, -, -, rfl⟩ := h
  exact ⟨ad, _, had, rfl, rfl, rfl, rfl, rfl, fun h => h⟩

theorem applyTermsUpdate_ok {signed : Signed AdvertisementTermsUpdate}
    (h : applyTermsUpdate p w signed = .ok w') : Edits w signed.payload.id w' := by
  simp only [applyTermsUpdate, bind_ok, authorize_ok, pure_ok] at h
  obtain ⟨ad, ⟨had, -⟩, u, hterms, rfl⟩ := h
  exact ⟨ad, _, had, rfl, rfl, rfl, rfl, rfl, fun _ => checkTerms_limits hterms⟩

theorem applyPricingUpdate_ok {signed : Signed AdvertisementPriceUpdate}
    (h : applyPricingUpdate p w signed = .ok w') : Edits w signed.payload.id w' := by
  simp only [applyPricingUpdate, bind_ok, authorize_ok, pure_ok] at h
  obtain ⟨ad, ⟨had, -⟩, rfl⟩ := h
  exact ⟨ad, _, had, rfl, rfl, rfl, rfl, rfl, fun h => h⟩

/-- Changes of an advertisement that reservations cause: only the liquidity, the status and
the time of the update move. -/
structure Adjusted (ad ad' : Advertisement) : Prop where
  merchant : ad'.merchant = ad.merchant
  merchantPublicKey : ad'.merchantPublicKey = ad.merchantPublicKey
  assetMint : ad'.assetMint = ad.assetMint
  minTrade : ad'.minTrade = ad.minTrade
  maxTrade : ad'.maxTrade = ad.maxTrade
  decimals : ad'.availableLiquidity.decimals = ad.availableLiquidity.decimals

theorem reserveLiquidity_ok (h : reserveLiquidity now w id amount = .ok w') :
    ∃ ad ad', w.advertisements.lookup id = some ad ∧ w' = putAdvertisement w id ad' ∧
      Adjusted ad ad' ∧ amount.decimals = ad.availableLiquidity.decimals ∧
      ad.availableLiquidity.baseUnits =
        ad'.availableLiquidity.baseUnits + amount.baseUnits := by
  simp only [reserveLiquidity, bind_ok, load_ok, pure_ok, Amount.checkedSub_eq_some] at h
  obtain ⟨ad, had, remaining, ⟨hdec, hle, hdec', hunits⟩, rfl⟩ := h
  refine ⟨ad, _, had, rfl, ⟨rfl, rfl, rfl, rfl, rfl, hdec'⟩, hdec.symm, ?_⟩
  simp only [hunits]
  omega

theorem releaseLiquidity_ok (h : releaseLiquidity now w id amount = .ok w') :
    ∃ ad ad', w.advertisements.lookup id = some ad ∧ w' = putAdvertisement w id ad' ∧
      Adjusted ad ad' ∧ amount.decimals = ad.availableLiquidity.decimals ∧
      ad'.availableLiquidity.baseUnits =
        ad.availableLiquidity.baseUnits + amount.baseUnits := by
  simp only [releaseLiquidity, bind_ok, load_ok, pure_ok, Amount.checkedAdd_eq_some] at h
  obtain ⟨ad, had, available, ⟨hdec, hdec', hunits⟩, rfl⟩ := h
  exact ⟨ad, _, had, rfl, ⟨rfl, rfl, rfl, rfl, rfl, hdec'⟩, hdec.symm, hunits⟩

/-- A release fails only when the advertisement is missing, the decimals differ or the sum
leaves the word. -/
theorem releaseLiquidity_succeeds {ad : Advertisement} (had : w.advertisements.lookup id = some ad)
    (hdec : amount.decimals = ad.availableLiquidity.decimals)
    (hlt : ad.availableLiquidity.baseUnits + amount.baseUnits < 2 ^ 64) :
    ∃ w', releaseLiquidity now w id amount = .ok w' := by
  have hsum : ad.availableLiquidity.checkedAdd amount =
      some ⟨_, ad.availableLiquidity.decimals, hlt, ad.availableLiquidity.decimals_lt⟩ :=
    Amount.checkedAdd_eq_some.mpr ⟨hdec.symm, rfl, rfl⟩
  simp only [releaseLiquidity, bind_ok, load_ok, pure_ok]
  exact ⟨_, ad, had, _, hsum, rfl⟩

end OpenFiat.AdvertisementRegistry
