import OpenFiat.NodeSteps

/-!
# Conservation of advertised liquidity

The liquidity an advertisement was created with is at all times divided between what is
still available and what its live reservations hold: the locked ones, those a settlement has
taken over and those that were sold. The counter and the reservations live in different
registries, and each operation writes both or neither.

It follows that giving liquidity back never fails: the sum fits the word because it is a
part of the initial amount, and the decimals agree because they did when it was taken.
-/
namespace OpenFiat.LiquidityConservation
open GuardedResult FiniteTable NodePayloads TradingNode AdvertisementRegistry
open ReservationRegistry NodeSteps TransactionRuns FiniteTable.Table

/-- A reservation holds its amount until it is cancelled or expires. -/
def Holds (r : Reservation) : Prop :=
  r.state = .escrowLocked ∨ r.state = .settling ∨ r.state = .settled

instance (r : Reservation) : Decidable (Holds r) := inferInstanceAs (Decidable (_ ∨ _))

def share (id : AdvertisementId) (_ : ReservationId) (r : Reservation) : ℕ :=
  if r.advertisementId = id ∧ Holds r then r.amount.baseUnits else 0

def held (reservations : Table ReservationId Reservation) (id : AdvertisementId) : ℕ :=
  Table.total (share id) reservations

structure Conserved (initial : AdvertisementId → Option Amount)
    (ads : Table AdvertisementId Advertisement) (reservations : Table ReservationId Reservation) :
    Prop where
  unknown : ∀ id, ads.lookup id = none → initial id = none
  backed : ∀ rid r, reservations.lookup rid = some r → ∃ ad,
    ads.lookup r.advertisementId = some ad ∧ r.amount.decimals = ad.availableLiquidity.decimals
  balanced : ∀ id ad, ads.lookup id = some ad → ∃ liquidity, initial id = some liquidity ∧
    liquidity.decimals = ad.availableLiquidity.decimals ∧
    liquidity.baseUnits = ad.availableLiquidity.baseUnits + held reservations id

variable {initial : AdvertisementId → Option Amount} {ads : Table AdvertisementId Advertisement}
  {reservations : Table ReservationId Reservation}

theorem conserved_empty : Conserved (fun _ => none) ∅ ∅ where
  unknown _ _ := rfl
  backed rid r h := by cases h
  balanced id ad h := by cases h

variable {id : AdvertisementId} {ad : Advertisement} {r : Reservation} {rid : ReservationId}

section
variable (h : Conserved initial ads reservations)
include h

theorem Conserved.held_unknown
    (hid : ads.lookup id = none) : held reservations id = 0 := by
  refine total_eq_zero fun rid r hr => ?_
  obtain ⟨ad, had, -⟩ := h.backed rid r hr
  have hne : r.advertisementId ≠ id := ne_of_lookup had hid
  rw [share, if_neg fun hshare => hne hshare.1]

theorem Conserved.create (hid : ads.lookup id = none)
    {initial' : AdvertisementId → Option Amount} (hnew : initial' id = some ad.availableLiquidity)
    (hold : ∀ j, j ≠ id → initial' j = initial j) :
    Conserved initial' (ads.insert id ad) reservations where
  unknown j hj := by
    rw [lookup_insert_eq] at hj
    split_ifs at hj with hji
    rw [hold j hji]
    exact h.unknown j hj
  backed rid r hr := by
    obtain ⟨ad₀, had₀, hdec⟩ := h.backed rid r hr
    have hne : r.advertisementId ≠ id := ne_of_lookup had₀ hid
    exact ⟨ad₀, by rw [Finmap.lookup_insert_of_ne _ hne, had₀], hdec⟩
  balanced j b hj := by
    rw [lookup_insert_eq] at hj
    split_ifs at hj with hji
    · obtain rfl := Option.some.inj hj
      rw [hji, hnew, h.held_unknown hid]
      exact ⟨_, rfl, rfl, rfl⟩
    · rw [hold j hji]
      exact h.balanced j b hj

/-- One advertisement and one of its reservations are rewritten: what the advertisement has
available and what the reservation holds change by opposite amounts. -/
theorem Conserved.exchange {ad' : Advertisement}
    (had : ads.lookup r.advertisementId = some ad)
    (hdec : ad'.availableLiquidity.decimals = ad.availableLiquidity.decimals)
    (hamount : r.amount.decimals = ad.availableLiquidity.decimals)
    (hsame : ∀ old, reservations.lookup rid = some old → old.advertisementId = r.advertisementId)
    (hunits : ad'.availableLiquidity.baseUnits + share r.advertisementId rid r =
      ad.availableLiquidity.baseUnits +
        weight (share r.advertisementId) rid (reservations.lookup rid)) :
    Conserved initial (ads.insert r.advertisementId ad') (reservations.insert rid r) where
  unknown j hj := by
    rw [lookup_insert_eq] at hj
    split_ifs at hj
    exact h.unknown j hj
  backed := by
    refine forall_insert (fun rid' r' hr' => ?_) ⟨ad', Finmap.lookup_insert _, ?_⟩
    · obtain ⟨ad₀, had₀, hdec₀⟩ := h.backed rid' r' hr'
      rw [lookup_insert_eq]
      split_ifs with hr
      · rw [hr] at had₀
        obtain rfl : ad = ad₀ := Option.mem_unique had had₀
        exact ⟨ad', rfl, hdec₀.trans hdec.symm⟩
      · exact ⟨ad₀, had₀, hdec₀⟩
    · exact hamount.trans hdec.symm
  balanced j b hj := by
    have hheld := total_insert (share j) reservations rid r
    rw [lookup_insert_eq] at hj
    split_ifs at hj with hjr
    · obtain rfl := Option.some.inj hj
      subst hjr
      obtain ⟨liquidity, hinitial, hdec₀, hunits₀⟩ := h.balanced _ ad had
      refine ⟨liquidity, hinitial, hdec₀.trans hdec.symm, ?_⟩
      unfold held at hunits₀ ⊢
      omega
    · obtain ⟨liquidity, hinitial, hdec₀, hunits₀⟩ := h.balanced j b hj
      refine ⟨liquidity, hinitial, hdec₀, ?_⟩
      have hnew : share j rid r = 0 := if_neg fun hshare => hjr hshare.1.symm
      have hold : weight (share j) rid (reservations.lookup rid) = 0 := by
        cases hlookup : reservations.lookup rid with
        | none => rfl
        | some old => exact if_neg fun hshare => hjr (hshare.1.symm.trans (hsame old hlookup))
      unfold held at hunits₀ ⊢
      omega

theorem Conserved.edit {ad' : Advertisement}
    (had : ads.lookup id = some ad) (hliquidity : ad'.availableLiquidity = ad.availableLiquidity) :
    Conserved initial (ads.insert id ad') reservations where
  unknown j hj := by
    rw [lookup_insert_eq] at hj
    split_ifs at hj
    exact h.unknown j hj
  backed rid r hr := by
    obtain ⟨ad₀, had₀, hdec⟩ := h.backed rid r hr
    rw [lookup_insert_eq]
    split_ifs with hid
    · rw [hid] at had₀
      obtain rfl : ad = ad₀ := Option.mem_unique had had₀
      exact ⟨ad', rfl, hliquidity ▸ hdec⟩
    · exact ⟨ad₀, had₀, hdec⟩
  balanced := by
    refine forall_insert h.balanced ?_
    rw [hliquidity]
    exact h.balanced id ad had

end

theorem Conserved.release_succeeds {w : Node}
    (h : Conserved initial w.advertisements w.reservations)
    (hr : w.reservations.lookup rid = some r) (hholds : Holds r) (now : Timestamp) :
    ∃ w', releaseLiquidity now w r.advertisementId r.amount = .ok w' := by
  obtain ⟨ad, had, hdec⟩ := h.backed rid r hr
  obtain ⟨liquidity, -, -, hunits⟩ := h.balanced _ ad had
  refine releaseLiquidity_succeeds had hdec ?_
  have hshare : share r.advertisementId rid r = r.amount.baseUnits := if_pos ⟨rfl, hholds⟩
  have hle : share r.advertisementId rid r ≤ held w.reservations r.advertisementId :=
    le_total (share r.advertisementId) hr
  have hlt := liquidity.baseUnits_lt
  omega

theorem Conserved.release {w w' : Node} (h : Conserved initial w.advertisements w.reservations)
    {now : Timestamp} {r' : Reservation} (hr : w.reservations.lookup rid = some r)
    (hholds : Holds r) (hrelease : releaseLiquidity now w r.advertisementId r.amount = .ok w')
    (hid : r'.advertisementId = r.advertisementId) (hamount : r'.amount = r.amount)
    (hends : ¬ Holds r') : Conserved initial w'.advertisements (w'.reservations.insert rid r') := by
  obtain ⟨ad, ad', had, rfl, hadjusted, hdec, hunits⟩ := releaseLiquidity_ok hrelease
  rw [← hid] at had ⊢
  refine h.exchange had hadjusted.decimals (hamount ▸ hdec) (fun old hold => ?_) ?_
  · rw [hid, Option.mem_unique hold hr]
  · have hnew : share r'.advertisementId rid r' = 0 := if_neg fun hshare => hends hshare.2
    have hold : share r'.advertisementId rid r = r.amount.baseUnits := if_pos ⟨hid.symm, hholds⟩
    rw [hr, weight_some, hold, hunits]
    omega

theorem Conserved.shift (h : Conserved initial ads reservations) {r' : Reservation}
    (hr : reservations.lookup rid = some r) (hholds : Holds r)
    (hid : r'.advertisementId = r.advertisementId) (hamount : r'.amount = r.amount)
    (hlive : Holds r') : Conserved initial ads (reservations.insert rid r') := by
  obtain ⟨ad, had, hdec⟩ := h.backed rid r hr
  rw [← hid] at had
  rw [← insert_lookup had]
  refine h.exchange had rfl (hamount ▸ hdec) (fun old hold => ?_) ?_
  · rw [hid, Option.mem_unique hold hr]
  · have hnew : share r'.advertisementId rid r' = r'.amount.baseUnits := if_pos ⟨rfl, hlive⟩
    have hold : share r'.advertisementId rid r = r.amount.baseUnits := if_pos ⟨hid.symm, hholds⟩
    rw [hr, weight_some, hnew, hold, hamount]

variable {p : NodePlatform} {now : Timestamp} {w w' : Node}

section
variable (h : Conserved initial w.advertisements w.reservations)
include h

theorem Conserved.transition
    (id : ReservationId) {start : List ReservationState} {target : ReservationState}
    (hstart : ∀ state ∈ start, state = .escrowLocked ∨ state = .settling ∨ state = .settled)
    (htarget : target = .escrowLocked ∨ target = .settling ∨ target = .settled) :
    Conserved initial (attempt w (transition now w id start target)).advertisements
      (attempt w (transition now w id start target)).reservations := by
  cases hshift : ReservationRegistry.transition now w id start target with
  | error => exact h
  | ok =>
    obtain ⟨r, hr, hstate, rfl⟩ := transition_ok.mp hshift
    exact h.shift hr (hstart r.state hstate) rfl rfl htarget

theorem Conserved.effect
    (id : ReservationId) (effect : Effect) :
    Conserved initial (effect.apply now w id).advertisements
      (effect.apply now w id).reservations := by
  cases effect with
  | keep => exact h
  | complete | abandon => exact h.transition id (by decide) (by decide)

theorem Conserved.sweep (window : ℕ) :
    Conserved initial (expireStale now window w).1.advertisements
      (expireStale now window w).1.reservations := by
  refine expireStale_rule (P := fun w => Conserved initial w.advertisements w.reservations) ?_ h
  rintro w w₁ id r hw hr hstate - hrelease
  exact hw.release hr (.inl hstate) hrelease rfl rfl (by simp [Holds])

end

def creation (id : AdvertisementId) : Event → Option Amount
  | .advertisementCreated signed =>
    if signed.payload.id = id then some signed.payload.initialLiquidity else none
  | _ => none

/-- The liquidity an advertisement was created with, from the events a node accepted. -/
def initialLiquidity (H : List (Transition Node Input)) (id : AdvertisementId) : Option Amount :=
  H.findSome? fun t => creation id t.label.event

theorem initialLiquidity_append (H : List (Transition Node Input)) (t : Transition Node Input)
    (id : AdvertisementId) : initialLiquidity (H ++ [t]) id =
      (initialLiquidity H id).or (creation id t.label.event) := by
  rw [initialLiquidity, List.findSome?_append, List.findSome?_singleton]
  rfl

theorem creation_eq_none {e : Event} (h : ∀ signed, e ≠ .advertisementCreated signed)
    (id : AdvertisementId) : creation id e = none := by
  cases e with
  | advertisementCreated signed => exact absurd rfl (h signed)
  | _ => rfl

theorem Change.conserved {e : Event} (hchange : Change p now w e w')
    (he : ∀ signed, e ≠ .advertisementCreated signed)
    (h : Conserved initial w.advertisements w.reservations) :
    Conserved initial w'.advertisements w'.reservations := by
  cases hchange with
  | created signed => exact absurd rfl (he signed)
  | edited _ id ad ad' _ had hedit => exact h.edit had hedit.availableLiquidity
  | requested signed ad ad' haccepts =>
    refine h.exchange (r := newReservation signed.payload) haccepts.found
      haccepts.adjusted.decimals haccepts.decimals ?_ ?_
    · intro old hold
      rw [haccepts.fresh] at hold
      cases hold
    · have hnew : share signed.payload.advertisementId signed.payload.id
          (newReservation signed.payload) = signed.payload.amount.baseUnits :=
        if_pos ⟨rfl, .inl rfl⟩
      rw [haccepts.fresh, haccepts.taken]
      exact congrArg _ hnew
  | withdrawn signed r hr hstate =>
    obtain ⟨w₁, hrelease⟩ := h.release_succeeds hr (.inl hstate) now
    rw [hrelease]
    exact h.release hr (.inl hstate) hrelease rfl rfl (by simp [Holds])
  | initiated => exact h.transition _ (by decide) (by decide)
  | moved _ id s s' effect => exact h.effect s.reservationId effect
  | arbitrated => exact h
  | swept window => exact h.sweep window

theorem run_conserved (p : NodePlatform) (inputs : List Input) :
    Conserved (initialLiquidity (transitions (step p) emptyNode inputs))
      (run (step p) emptyNode inputs).advertisements
      (run (step p) emptyNode inputs).reservations := by
  refine run_history_rule (G := fun _ => True)
    (J := fun H w => Conserved (initialLiquidity H) w.advertisements w.reservations)
    ?_ (H := []) (s := emptyNode) conserved_empty inputs fun _ _ => trivial
  rintro H w input w' h hstep -
  by_cases hcreated : ∃ signed, input.event = .advertisementCreated signed
  · obtain ⟨signed, hevent⟩ := hcreated
    simp only [step, hevent, mapError_ok] at hstep
    obtain ⟨-, hfresh, -, rfl⟩ := applyCreate_ok hstep
    refine h.create hfresh ?_ fun j hj => ?_
    · rw [initialLiquidity_append, h.unknown _ hfresh, hevent, creation, if_pos rfl]
      rfl
    · rw [initialLiquidity_append, hevent, creation, if_neg (Ne.symm hj), Option.or_none]
  · have he (signed : Signed AdvertisementCreate) : input.event ≠ .advertisementCreated signed :=
      fun hevent => hcreated ⟨signed, hevent⟩
    have hinitial : initialLiquidity (H ++ [⟨w, input, w'⟩]) = initialLiquidity H := by
      funext id
      rw [initialLiquidity_append, creation_eq_none he, Option.or_none]
    rw [hinitial]
    exact Change.conserved (step_change hstep) he h

/-- In every state a node reaches, each advertisement's initial liquidity is what it has
available plus what its live reservations hold, all in one precision; and every accepted
request took no more than what was available. -/
theorem advertised_liquidity_conserved (p : NodePlatform) (inputs : List Input) :
    (∀ id ad, (run (step p) emptyNode inputs).advertisements.lookup id = some ad →
      ∃ liquidity, initialLiquidity (transitions (step p) emptyNode inputs) id = some liquidity ∧
        liquidity.baseUnits = ad.availableLiquidity.baseUnits +
          held (run (step p) emptyNode inputs).reservations id ∧
        ad.availableLiquidity.baseUnits ≤ liquidity.baseUnits ∧
        ad.availableLiquidity.decimals = liquidity.decimals ∧
        ∀ rid r, (run (step p) emptyNode inputs).reservations.lookup rid = some r →
          r.advertisementId = id → r.amount.decimals = liquidity.decimals) ∧
    ∀ t ∈ transitions (step p) emptyNode inputs, ∀ signed,
      t.label.event = .reservationRequested signed → ∃ ad,
        t.before.advertisements.lookup signed.payload.advertisementId = some ad ∧
          signed.payload.amount.decimals = ad.availableLiquidity.decimals ∧
          signed.payload.amount.baseUnits ≤ ad.availableLiquidity.baseUnits := by
  have hrun := run_conserved p inputs
  refine ⟨fun id ad had => ?_, fun t ht signed hsigned => ?_⟩
  · obtain ⟨liquidity, hinitial, hdec, hunits⟩ := hrun.balanced id ad had
    refine ⟨liquidity, hinitial, hunits, by omega, hdec.symm, fun rid r hr hid => ?_⟩
    obtain ⟨ad₀, had₀, hdec₀⟩ := hrun.backed rid r hr
    rw [hid, had] at had₀
    rw [hdec₀, ← Option.some.inj had₀, hdec]
  · have hstep := step_of_mem ht
    simp only [step, hsigned, mapError_ok] at hstep
    obtain ⟨-, -, ad, ad', haccepts, -⟩ := applyRequest_ok hstep
    refine ⟨ad, haccepts.found, haccepts.decimals, ?_⟩
    rw [haccepts.taken]
    exact Nat.le_add_left _ _

end OpenFiat.LiquidityConservation
