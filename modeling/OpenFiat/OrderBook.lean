import OpenFiat.LiquidityConservation
import OpenFiat.MerchantEdits

/-!
# The order book

Creation, terms updates, status changes and reservations each check a part of what makes an
advertisement tradeable. The parts they check stay together in every run. Two are checked by
nobody: that there is liquidity when the advertisement is created, and that its limits are
written in the decimals of the liquidity and start below it. With sensible creations and terms
updates the whole book is well formed, and the definitions of payment methods, which live in a
registry of their own, do not matter for it.
-/
namespace OpenFiat.OrderBook
open GuardedResult FiniteTable NodePayloads TradingNode AdvertisementRegistry
open ReservationRegistry NodeSteps TransactionRuns TradeLimits MerchantEdits
open LiquidityConservation (initialLiquidity initialLiquidity_append creation creation_eq_none)

theorem advertisementId_injective : Function.Injective AdvertisementId.id := by
  rintro ⟨_⟩ ⟨_⟩ h
  exact congrArg _ h

def allAdvertisements (w : Node) : List (AdvertisementId × Advertisement) :=
  w.advertisements.inOrder AdvertisementId.id advertisementId_injective

def findActive (w : Node) (direction : Direction) : List (AdvertisementId × Advertisement) :=
  (allAdvertisements w).filter fun entry =>
    entry.2.direction = direction ∧ entry.2.status = .active

structure WellFormed (p : NodePlatform) (initial : Amount) (ad : Advertisement) : Prop where
  active : ad.status = .active
  liquid : 0 < ad.availableLiquidity.baseUnits
  limits : Limits ad
  decimals : ad.minTrade.decimals = ad.availableLiquidity.decimals
  affordable : value ad.minTrade ≤ value initial
  methods : ad.paymentMethods ≠ []
  selectable : ∀ method ∈ ad.paymentMethods, method.isSelectableBy p ad.merchant = true

def BookWellFormed (p : NodePlatform) (H : List (Transition Node Input)) (w : Node) : Prop :=
  ∀ direction, ∀ entry ∈ findActive w direction, ∃ initial,
    initialLiquidity H entry.1 = some initial ∧ WellFormed p initial entry.2

/-- The floor is written in the decimals of the liquidity and not above it. -/
def Affordable (initial minTrade : Amount) : Prop :=
  minTrade.decimals = initial.decimals ∧ minTrade.baseUnits ≤ initial.baseUnits

instance (initial minTrade : Amount) : Decidable (Affordable initial minTrade) :=
  inferInstanceAs (Decidable (_ ∧ _))

/-- A creation comes with liquidity, and neither it nor a terms update sets a floor that the
liquidity cannot pay. -/
def Sensible (H : List (Transition Node Input)) (t : Transition Node Input) : Prop :=
  match t.label.event with
  | .advertisementCreated signed =>
    0 < signed.payload.initialLiquidity.baseUnits ∧
      Affordable signed.payload.initialLiquidity signed.payload.minTrade
  | .advertisementTermsUpdated signed =>
    ∀ initial, initialLiquidity H signed.payload.id = some initial →
      Affordable initial signed.payload.minTrade
  | _ => True

/-- An advertisement that may be put on offer, as far as its liquidity allows. -/
structure Tradeable (p : NodePlatform) (initial : Amount) (ad : Advertisement) : Prop where
  liquid : ad.status = .active → 0 < ad.availableLiquidity.baseUnits
  limits : Limits ad
  decimals : ad.availableLiquidity.decimals = initial.decimals
  affordable : Affordable initial ad.minTrade
  methods : ad.paymentMethods ≠ []
  selectable : ad.paymentMethods.all (PaymentMethodRef.isSelectableBy p ad.merchant) = true

theorem Tradeable.wellFormed {p : NodePlatform} {initial : Amount} {ad : Advertisement}
    (h : Tradeable p initial ad) (hactive : ad.status = .active) : WellFormed p initial ad where
  active := hactive
  liquid := h.liquid hactive
  limits := h.limits
  decimals := h.affordable.1.trans h.decimals.symm
  affordable := by
    rw [value_le_coarser (k := 0) h.affordable.1.symm, pow_zero, mul_one]
    exact h.affordable.2
  methods := h.methods
  selectable := List.all_eq_true.mp h.selectable

def Stocked (p : NodePlatform) (initially : AdvertisementId → Option Amount)
    (ads : Table AdvertisementId Advertisement) : Prop :=
  ∀ id, Option.Rel (Tradeable p) (initially id) (ads.lookup id)

section Steps
variable {p : NodePlatform} {now : Timestamp} {w w' : Node} {e : Event}
  {initially : AdvertisementId → Option Amount} {ads : Table AdvertisementId Advertisement}
  {id : AdvertisementId} {ad ad' : Advertisement}

theorem Stocked.found (h : Stocked p initially ads) (had : ads.lookup id = some ad) :
    ∃ initial, initially id = some initial ∧ Tradeable p initial ad := by
  have hid := h id
  rw [had] at hid
  cases hinitial : initially id with
  | none =>
    rw [hinitial] at hid
    cases hid
  | some initial =>
    rw [hinitial] at hid
    cases hid with
    | some htradeable => exact ⟨initial, rfl, htradeable⟩

theorem Stocked.replace (h : Stocked p initially ads) (had : ads.lookup id = some ad)
    (hnew : ∀ initial, initially id = some initial → Tradeable p initial ad →
      Tradeable p initial ad') : Stocked p initially (ads.insert id ad') := by
  intro j
  rw [Table.lookup_insert_eq]
  split_ifs with hj
  · obtain ⟨initial, hinitial, htradeable⟩ := h.found had
    rw [hj, hinitial]
    exact .some (hnew initial hinitial htradeable)
  · exact h j

variable (h : Stocked p initially w.advertisements)
include h

/-- What is left after a reservation is positive, or the advertisement is taken down. -/
theorem Stocked.reserve {amount : Amount}
    (hreserve : reserveLiquidity now w id amount = .ok w') :
    Stocked p initially w'.advertisements := by
  simp only [reserveLiquidity, bind_ok, load_ok, pure_ok, Amount.checkedSub_eq_some] at hreserve
  obtain ⟨ad, had, remaining, ⟨-, -, hdec, -⟩, rfl⟩ := hreserve
  refine h.replace had fun initial _ htradeable => { htradeable with
    liquid := fun hactive => ?_
    decimals := hdec.trans htradeable.decimals }
  change (if remaining.baseUnits = 0 then AdvertisementStatus.disabled else ad.status) = _
    at hactive
  split_ifs at hactive with hzero
  exact Nat.pos_of_ne_zero hzero

theorem Stocked.release {amount : Amount}
    (hrelease : releaseLiquidity now w id amount = .ok w') :
    Stocked p initially w'.advertisements := by
  simp only [releaseLiquidity, bind_ok, load_ok, pure_ok, Amount.checkedAdd_eq_some] at hrelease
  obtain ⟨ad, had, available, ⟨-, hdec, hunits⟩, rfl⟩ := hrelease
  refine h.replace had fun initial _ htradeable => { htradeable with
    liquid := fun hactive => ?_
    decimals := hdec.trans htradeable.decimals }
  have hpositive := htradeable.liquid hactive
  change 0 < available.baseUnits
  omega

theorem Stocked.rewrites (hrewrites : Rewrites p w e w')
    (hterms : ∀ signed, e = .advertisementTermsUpdated signed → ∀ initial,
      initially signed.payload.id = some initial → Affordable initial signed.payload.minTrade) :
    Stocked p initially w'.advertisements := by
  cases hrewrites with
  | status signed ad had hliquid =>
    refine h.replace had fun initial _ htradeable => { htradeable with liquid := fun hactive => ?_ }
    exact Nat.pos_of_ne_zero fun hzero => hliquid ⟨hactive, hzero⟩
  | terms signed ad had hmerchant hchecked =>
    obtain ⟨hmethods, hselectable, hlimits⟩ := checkTerms_ok.mp hchecked
    refine h.replace had fun initial hinitial htradeable => ⟨htradeable.liquid, hlimits,
      htradeable.decimals, hterms signed rfl initial hinitial, hmethods, ?_⟩
    rw [← hmerchant] at hselectable
    exact hselectable
  | pricing signed ad had =>
    exact h.replace had fun initial _ htradeable => { htradeable with }

theorem Stocked.change (hchange : Change p now w e w')
    (hcreated : ∀ signed, e ≠ .advertisementCreated signed) (hedit : ¬ IsEdit e)
    (hrequested : ∀ signed, e ≠ .reservationRequested signed) :
    Stocked p initially w'.advertisements := by
  cases hchange with
  | created signed => exact absurd rfl (hcreated signed)
  | edited _ _ _ _ he => exact absurd he hedit
  | requested signed => exact absurd rfl (hrequested signed)
  | withdrawn signed r =>
    cases hrelease : releaseLiquidity now w r.advertisementId r.amount with
    | error => exact h
    | ok =>
      have hw₁ := h.release hrelease
      exact hw₁
  | initiated =>
    change Stocked p initially (attempt w (transition now w _ _ _)).advertisements
    rw [attempt_transition_advertisements]
    exact h
  | moved _ id s s' effect =>
    change Stocked p initially (effect.apply now w s.reservationId).advertisements
    rw [effect_advertisements]
    exact h
  | arbitrated => exact h
  | swept =>
    refine expireStale_rule (P := fun w => Stocked p initially w.advertisements) ?_ h
    rintro w w₁ id r hw - - - hrelease
    have hw₁ := Stocked.release hw hrelease
    exact hw₁

theorem Stocked.create {signed : Signed AdvertisementCreate}
    (hcreate : applyCreate p w signed = .ok w')
    (hpositive : 0 < signed.payload.initialLiquidity.baseUnits)
    (haffordable : Affordable signed.payload.initialLiquidity signed.payload.minTrade) :
    Stocked p (fun id => (initially id).or (creation id (.advertisementCreated signed)))
      w'.advertisements := by
  obtain ⟨-, hfresh, hlimits, rfl⟩ := applyCreate_ok hcreate
  simp only [applyCreate, bind_ok] at hcreate
  obtain ⟨-, -, -, -, _, hterms, -⟩ := hcreate
  obtain ⟨hmethods, hselectable, -⟩ := checkTerms_ok.mp hterms
  intro id
  rw [putAdvertisement, Table.lookup_insert_eq]
  simp only [creation]
  by_cases hid : id = signed.payload.id
  · subst hid
    have hnone := h signed.payload.id
    rw [hfresh] at hnone
    have hunknown : initially signed.payload.id = none := by
      cases hinitial : initially signed.payload.id with
      | none => rfl
      | some =>
        rw [hinitial] at hnone
        cases hnone
    rw [if_pos rfl, hunknown, if_pos rfl]
    exact .some ⟨fun _ => hpositive, hlimits, rfl, haffordable, hmethods, hselectable⟩
  · rw [if_neg hid, if_neg (Ne.symm hid), Option.or_none]
    exact h id

end Steps

section Runs
variable {p : NodePlatform} {w w' : Node} {input : Input} {H : List (Transition Node Input)}

theorem stocked_step (h : Stocked p (initialLiquidity H) w.advertisements)
    (hstep : step p w input = .ok w') (hsensible : Sensible H ⟨w, input, w'⟩) :
    Stocked p (initialLiquidity (H ++ [⟨w, input, w'⟩])) w'.advertisements := by
  rw [funext (initialLiquidity_append H ⟨w, input, w'⟩)]
  by_cases hcreated : ∃ signed, input.event = .advertisementCreated signed
  · obtain ⟨signed, hevent⟩ := hcreated
    simp only [Sensible, hevent] at hsensible ⊢
    simp only [step, hevent, mapError_ok] at hstep
    exact h.create hstep hsensible.1 hsensible.2
  · push Not at hcreated
    simp only [creation_eq_none hcreated, Option.or_none]
    by_cases hedit : IsEdit input.event
    · refine h.rewrites (rewrites_of_step hstep hedit) fun signed hevent => ?_
      simpa only [Sensible, hevent] using hsensible
    · by_cases hrequested : ∃ signed, input.event = .reservationRequested signed
      · obtain ⟨signed, hevent⟩ := hrequested
        simp only [step, hevent, mapError_ok] at hstep
        simp only [applyRequest, bind_ok, pure_ok, mapError_ok] at hstep
        obtain ⟨-, -, -, -, -, -, -, -, ad, -, -, -, -, -, -, -, w₁, hreserve, rfl⟩ := hstep
        have hw₁ := h.reserve hreserve
        exact hw₁
      · push Not at hrequested
        exact h.change (step_change hstep) hcreated hedit hrequested

theorem bookWellFormed_of_stocked (h : Stocked p (initialLiquidity H) w.advertisements) :
    BookWellFormed p H w := by
  rintro direction ⟨id, ad⟩ hentry
  obtain ⟨hmem, hactive⟩ := List.mem_filter.mp hentry
  obtain ⟨initial, hinitial, htradeable⟩ := h.found (Table.lookup_of_mem_inOrder hmem)
  exact ⟨initial, hinitial, htradeable.wellFormed (of_decide_eq_true hactive).2⟩

theorem bookWellFormed_run {inputs : List Input}
    (h : InContext (step p) Sensible emptyNode inputs) :
    BookWellFormed p (transitions (step p) emptyNode inputs) (run (step p) emptyNode inputs) := by
  refine bookWellFormed_of_stocked ?_
  exact run_context_rule (J := fun H w => Stocked p (initialLiquidity H) w.advertisements)
    (fun H w input w' hJ hstep hsensible => stocked_step hJ hstep hsensible) (fun _ => .none) h

end Runs

/-- The order book beside a registry of method definitions, which takes its own events: if the
creations and the terms updates are sensible, the book is well formed after every event. -/
theorem order_book_well_formed {M D E : Type} (define : M → D → Except E M) (methods : M)
    (p : NodePlatform) (events : List (Input ⊕ D))
    (hsensible : InContext (step p) Sensible emptyNode (events.filterMap Sum.getLeft?)) :
    ∀ mid, mid <+: events →
      BookWellFormed p (transitions (step p) emptyNode (mid.filterMap Sum.getLeft?))
        (run (beside (step p) define) (emptyNode, methods) mid).1 := by
  intro mid hmid
  rw [run_beside_fst]
  exact bookWellFormed_run (hsensible.of_initial (hmid.filterMap _))

/-- A creation with liquidity, a definition of a method and a partial fill. -/
theorem order_book_well_formed_filled :
    (findActive (run (step (limitsPlatform 6)) emptyNode [creationInput 6, requestInput])
      .sell).map (fun entry => entry.2.availableLiquidity.baseUnits) = [999999500] ∧
    BookWellFormed (limitsPlatform 6)
      (transitions (step (limitsPlatform 6)) emptyNode [creationInput 6, requestInput])
      (run (beside (step (limitsPlatform 6))
        fun (names : List String) name => (.ok (name :: names) : Except Unit (List String)))
        (emptyNode, []) [.inl (creationInput 6), .inr "Acme Pay", .inl requestInput]).1 := by
  have hsensible : InContext (step (limitsPlatform 6)) Sensible emptyNode
      [creationInput 6, requestInput] := by
    refine InContext.of_forall fun input hinput H w w' => ?_
    simp only [List.mem_cons, List.not_mem_nil, or_false] at hinput
    rcases hinput with rfl | rfl
    · exact ⟨by decide, by decide, by decide⟩
    · exact trivial
  exact ⟨by decide +kernel, order_book_well_formed _ [] (limitsPlatform 6)
    [.inl (creationInput 6), .inr "Acme Pay", .inl requestInput] hsensible _ (List.prefix_refl _)⟩

def emptyHanded : AdvertisementCreate := { limitedAd sixPlaces with initialLiquidity := .new 0 6 }

def emptyHandedPlatform : NodePlatform :=
  signedPlatform [(.filled 1, .advertisementCreate emptyHanded)]

def emptyHandedInput : Input := ⟨1000, .advertisementCreated ⟨emptyHanded, ⟨[]⟩⟩⟩

/-- A creation without liquidity is on offer, and so is one whose limits are written in other
decimals than its liquidity. -/
theorem unfit_advertisements_listed :
    (emptyHandedInput.event = .advertisementCreated ⟨emptyHanded, ⟨[]⟩⟩ ∧
      findActive (run (step emptyHandedPlatform) emptyNode [emptyHandedInput]) .sell =
        [(⟨"ad-1"⟩, newAdvertisement emptyHanded)] ∧
      (newAdvertisement emptyHanded).availableLiquidity.baseUnits = 0) ∧
    findActive (run (step (limitsPlatform 2)) emptyNode [creationInput 2]) .sell =
        [(⟨"ad-1"⟩, newAdvertisement (limitedAd 2))] ∧
      (newAdvertisement (limitedAd 2)).minTrade.decimals = 2 ∧
      (newAdvertisement (limitedAd 2)).availableLiquidity.decimals = 6 := by
  decide +kernel

end OpenFiat.OrderBook
