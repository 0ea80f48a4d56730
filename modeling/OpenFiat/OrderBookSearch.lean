import OpenFiat.OrderBook

/-!
# Searching the order book

A search keeps the advertisements that match a filter, sorts them by id and returns what comes
after a cursor, a page at a time. A reader who follows the cursors misses nothing that is in
the book throughout, however the book changes between the pages. The amount filter asks for the
decimals of the limits where a reservation asks for those of the liquidity.
-/
namespace OpenFiat.OrderBookSearch
open GuardedResult FiniteTable NodePayloads TradingNode AdvertisementRegistry
open ReservationRegistry NodeSteps TransactionRuns TradeLimits OrderBook

structure AdvertisementFilter where
  assetMint : Option MintAddress := none
  fiatCurrency : Option FiatCurrency := none
  direction : Option Direction := none
  paymentMethod : Option PaymentMethodRef := none
  amount : Option Amount := none
  merchant : Option PeerId := none
  statuses : Option (List AdvertisementStatus) := none

/-- The units are inside the limits and the liquidity, whatever the decimals. -/
def InRange (ad : Advertisement) (amount : Amount) : Prop :=
  ad.minTrade.baseUnits ≤ amount.baseUnits ∧ amount.baseUnits ≤ ad.maxTrade.baseUnits ∧
    amount.baseUnits ≤ ad.availableLiquidity.baseUnits

instance (ad : Advertisement) (amount : Amount) : Decidable (InRange ad amount) :=
  inferInstanceAs (Decidable (_ ∧ _ ∧ _))

def AdvertisementFilter.matchesAd (filter : AdvertisementFilter) (ad : Advertisement) : Bool :=
  -- without a list of states only active advertisements count
  filter.statuses.elim (ad.status = .active) (fun wanted => ad.status ∈ wanted) &&
  filter.merchant.all (· = ad.merchant) && filter.assetMint.all (· = ad.assetMint) &&
  filter.fiatCurrency.all (· = ad.fiatCurrency) && filter.direction.all (· = ad.direction) &&
  filter.paymentMethod.all (· ∈ ad.paymentMethods) &&
  filter.amount.all fun amount => amount.decimals = ad.minTrade.decimals ∧ InRange ad amount

abbrev Entry := AdvertisementId × Advertisement

structure Page where
  after : Option AdvertisementId
  limit : Option ℕ

def maxPage : ℕ := 100
def defaultPage : ℕ := 25

def Page.size (page : Page) : ℕ := max 1 (min (page.limit.getD defaultPage) maxPage)

structure AdvertisementPage where
  advertisements : List Entry
  nextCursor : Option AdvertisementId

/-- What matches the filter, sorted by id. -/
def matching (all : List Entry) (filter : AdvertisementFilter) : List Entry :=
  (all.filter fun e => filter.matchesAd e.2).insertionSort
    (Order.Preimage (fun e => e.1.id) (· ≤ ·))

def remaining (all : List Entry) (filter : AdvertisementFilter) :
    Option AdvertisementId → List Entry
  | some cursor => (matching all filter).dropWhile fun e => e.1.id ≤ cursor.id
  | none => matching all filter

def page (all : List Entry) (filter : AdvertisementFilter) (page : Page) : AdvertisementPage :=
  let advertisements := (remaining all filter page.after).take page.size
  ⟨advertisements,
    if advertisements.length = page.size then advertisements.getLast?.map Prod.fst else none⟩

/-- The advertisements of a node, in any order. -/
structure Book where
  rows : List Entry
  unique : rows.Pairwise fun e e' => e.1 ≠ e'.1

def Above (after : Option AdvertisementId) (id : AdvertisementId) : Prop :=
  ∀ cursor ∈ after, cursor.id < id.id

section OnePage
variable {book : Book} {filter : AdvertisementFilter} {after : Option AdvertisementId}
  {e : Entry} {request : Page}

theorem mem_dropWhile {c : String} {l : List Entry} (h : l.Pairwise fun e e' => e.1.id < e'.1.id) :
    e ∈ l.dropWhile (fun e => e.1.id ≤ c) ↔ e ∈ l ∧ c < e.1.id := by
  induction l with
  | nil => simp
  | cons a l ih =>
    obtain ⟨hfirst, hrest⟩ := List.pairwise_cons.mp h
    by_cases ha : a.1.id ≤ c
    · rw [List.dropWhile_cons_of_pos (by simpa using ha), ih hrest, List.mem_cons, or_and_right]
      refine (or_iff_right ?_).symm
      rintro ⟨rfl, hlt⟩
      exact ha.not_gt hlt
    · rw [List.dropWhile_cons_of_neg (by simpa using ha)]
      refine (and_iff_left_of_imp fun he => (not_le.mp ha).trans_le ?_).symm
      exact (List.mem_cons.mp he).elim (fun heq => heq ▸ le_rfl) fun he => (hfirst e he).le

theorem perm_matching :
    (matching book.rows filter).Perm (book.rows.filter fun e => filter.matchesAd e.2) :=
  List.perm_insertionSort _ _

theorem pairwise_matching :
    (matching book.rows filter).Pairwise fun e e' => e.1.id < e'.1.id := by
  have hunique : (matching book.rows filter).Pairwise fun e e' => e.1 ≠ e'.1 :=
    perm_matching.symm.pairwise (book.unique.filter _) fun h => Ne.symm h
  refine ((Table.pairwise_sorted _ _).and hunique).imp fun ⟨hle, hne⟩ => ?_
  exact lt_of_le_of_ne hle fun heq => hne (advertisementId_injective heq)

theorem pairwise_remaining (book : Book) (filter : AdvertisementFilter)
    (after : Option AdvertisementId) :
    (remaining book.rows filter after).Pairwise fun e e' => e.1.id < e'.1.id := by
  cases after with
  | none => exact pairwise_matching
  | some => exact pairwise_matching.sublist (List.dropWhile_sublist _)

theorem mem_remaining : e ∈ remaining book.rows filter after ↔
    (e ∈ book.rows ∧ filter.matchesAd e.2 = true) ∧ Above after e.1 := by
  rw [← List.mem_filter (p := fun e : Entry => filter.matchesAd e.2), ← perm_matching.mem_iff]
  cases after with
  | none => simp [Above, remaining]
  | some => simp [Above, remaining, mem_dropWhile pairwise_matching]

theorem pairwise_page (book : Book) (filter : AdvertisementFilter) (request : Page) :
    (page book.rows filter request).advertisements.Pairwise fun e e' => e.1.id < e'.1.id :=
  (pairwise_remaining book filter _).sublist (List.take_sublist _ _)

/-- The next cursor is the id of the last row. -/
theorem page_next {c : AdvertisementId}
    (h : (page book.rows filter request).nextCursor = some c) :
    (∃ ad, (c, ad) ∈ remaining book.rows filter request.after) ∧
      ∀ e ∈ (page book.rows filter request).advertisements, e.1.id ≤ c.id := by
  obtain ⟨last, hlast, rfl⟩ := Option.map_eq_some_iff.mp (Option.ite_none_right_eq_some.mp h).2
  obtain ⟨earlier, hrows⟩ := List.getLast?_eq_some_iff.mp hlast
  have hsorted := pairwise_page book filter request
  refine ⟨⟨last.2, List.mem_of_mem_take (List.mem_of_getLast? hlast)⟩, fun e he => ?_⟩
  rw [page, hrows] at he hsorted
  rcases List.mem_append.mp he with he | he
  · exact ((List.pairwise_append.mp hsorted).2.2 e he last List.mem_cons_self).le
  · rw [List.mem_singleton.mp he]

/-- What a page leaves out comes after its cursor. -/
theorem mem_page (request : Page) (he : e ∈ remaining book.rows filter request.after) :
    e ∈ (page book.rows filter request).advertisements ∨
      ∃ c, (page book.rows filter request).nextCursor = some c ∧ c.id < e.1.id := by
  have hsorted := pairwise_remaining book filter request.after
  rw [← List.take_append_drop request.size (remaining _ _ _)] at he hsorted
  refine (List.mem_append.mp he).imp_right fun hdropped => ?_
  have hmore := List.length_pos_of_mem hdropped
  rw [List.length_drop] at hmore
  have hlength := List.length_take_of_le (Nat.sub_pos_iff_lt.mp hmore).le
  obtain hnil | ⟨earlier, last, hlast⟩ := List.eq_nil_or_concat
    ((remaining book.rows filter request.after).take request.size)
  · rw [hnil] at hlength
    exact absurd hlength (lt_max_of_lt_left one_pos).ne
  · refine ⟨last.1, (if_pos hlength).trans (by simp [hlast]), ?_⟩
    exact (List.pairwise_append.mp hsorted).2.2 last (by simp [hlast]) e hdropped

end OnePage

section Reading
variable (filter : AdvertisementFilter) (limit : Option ℕ)

/-- What a reader sees who asks for at most so many pages, one from each book, and whether the
last of them had no cursor. -/
def read (books : ℕ → Book) (after : Option AdvertisementId) : ℕ → List Entry × Bool
  | 0 => ([], false)
  | pages + 1 =>
    let first := page (books 0).rows filter ⟨after, limit⟩
    match first.nextCursor with
    | none => (first.advertisements, true)
    | some cursor =>
      let rest := read (fun n => books (n + 1)) (some cursor) pages
      (first.advertisements ++ rest.1, rest.2)

/-- The advertisement matches the filter in each of the books. -/
def Stays (books : ℕ → Book) (id : AdvertisementId) : Prop :=
  ∀ n, ∃ ad, (id, ad) ∈ (books n).rows ∧ filter.matchesAd ad = true

variable {filter limit} {books : ℕ → Book} {after : Option AdvertisementId}

theorem read_spec (pages : ℕ) :
    (∀ e ∈ (read filter limit books after pages).1, Above after e.1) ∧
    (read filter limit books after pages).1.Pairwise (fun e e' => e.1.id < e'.1.id) ∧
    ((read filter limit books after pages).2 = true → ∀ id, Above after id →
      Stays filter books id → ∃ ad, (id, ad) ∈ (read filter limit books after pages).1) := by
  induction pages generalizing books after with
  | zero => simp [read]
  | succ pages ih =>
    have habove {e : Entry} (he : e ∈ (page (books 0).rows filter ⟨after, limit⟩).advertisements) :
        Above after e.1 := (mem_remaining.mp (List.mem_of_mem_take he)).2
    have hpage {id : AdvertisementId} (hid : Above after id) (h : Stays filter books id) :=
      mem_page ⟨after, limit⟩ (mem_remaining.mpr ⟨(h 0).choose_spec, hid⟩)
    cases hc : (page (books 0).rows filter ⟨after, limit⟩).nextCursor with
    | none =>
      simp only [read, hc]
      refine ⟨fun e => habove, pairwise_page _ _ _, fun _ id hid h => ?_⟩
      exact ⟨_, (hpage hid h).resolve_right (by simp [hc])⟩
    | some c =>
      simp only [read, hc]
      obtain ⟨hrest, hsorted, hcomplete⟩ := @ih (fun n => books (n + 1)) (some c)
      obtain ⟨⟨ad, hrow⟩, hlast⟩ := page_next hc
      refine ⟨List.forall_mem_append.mpr ⟨fun e => habove, fun e he cursor hcursor => ?_⟩,
        List.pairwise_append.mpr ⟨pairwise_page _ _ _, hsorted, fun e he e' he' => ?_⟩,
        fun hend id hid h => ?_⟩
      · exact ((mem_remaining.mp hrow).2 cursor hcursor).trans (hrest e he c rfl)
      · exact (hlast e he).trans_lt (hrest e' he' c rfl)
      · rcases hpage hid h with hmem | ⟨c', hc', hlt⟩
        · exact ⟨_, List.mem_append_left _ hmem⟩
        · rw [hc] at hc'
          obtain rfl := Option.some.inj hc'
          obtain ⟨ad, had⟩ := hcomplete hend id (fun cursor hcursor =>
            Option.some.inj hcursor ▸ hlt) fun n => h (n + 1)
          exact ⟨ad, List.mem_append_right _ had⟩

/-- A full page leaves fewer rows above its cursor. -/
theorem remaining_lt {book : Book} {request : Page} {c : AdvertisementId}
    (h : (page book.rows filter request).nextCursor = some c) :
    (remaining book.rows filter (some c)).length <
      (remaining book.rows filter request.after).length := by
  obtain ⟨⟨ad, hmem⟩, -⟩ := page_next h
  have hnodup : ((c, ad) :: remaining book.rows filter (some c)).Nodup := by
    refine List.nodup_cons.mpr ⟨fun hc => ?_, (pairwise_remaining _ _ _).imp fun hlt heq => ?_⟩
    · exact lt_irrefl _ ((mem_remaining.mp hc).2 c rfl)
    · exact hlt.ne (congrArg (fun e : Entry => e.1.id) heq)
  refine (hnodup.subperm (List.cons_subset.mpr ⟨hmem, fun e he => ?_⟩)).length_le
  obtain ⟨hrow, hlt⟩ := mem_remaining.mp he
  exact mem_remaining.mpr ⟨hrow, fun cursor hcursor =>
    ((mem_remaining.mp hmem).2 cursor hcursor).trans (hlt c rfl)⟩

theorem read_ends_of (h : ∀ c, (page (books 0).rows filter ⟨after, limit⟩).nextCursor = some c →
      ∃ pages, (read filter limit (fun n => books (n + 1)) (some c) pages).2 = true) :
    ∃ pages, (read filter limit books after pages).2 = true := by
  cases hc : (page (books 0).rows filter ⟨after, limit⟩).nextCursor with
  | none => exact ⟨1, by simp [read, hc]⟩
  | some c =>
    obtain ⟨pages, hend⟩ := h c hc
    exact ⟨pages + 1, by simp [read, hc, hend]⟩

theorem read_ends (N : ℕ) (hstill : ∀ n, N ≤ n → books n = books N) :
    ∃ pages, (read filter limit books after pages).2 = true := by
  induction N generalizing books after with
  | zero =>
    -- by induction on the number of rows above the cursor
    induction hrows : (remaining (books 0).rows filter after).length using
      Nat.strong_induction_on generalizing books after with
    | h m ih =>
      refine read_ends_of fun c hc => ih _ (hrows ▸ remaining_lt hc) (fun n _ => ?_) ?_
      · exact (hstill _ n.succ.zero_le).trans (hstill 1 (Nat.zero_le 1)).symm
      · rw [hstill 1 (Nat.zero_le 1)]
  | succ N ih => exact read_ends_of fun c _ => ih fun n hn => hstill (n + 1) (Nat.succ_le_succ hn)

end Reading

/-- What is promised to a reader of a book that changes between the pages. -/
structure MissesNothing (books : ℕ → Book) (filter : AdvertisementFilter) (limit : Option ℕ) :
    Prop where
  short : ∀ n after, (page (books n).rows filter ⟨after, limit⟩).advertisements.length ≤ maxPage
  sound : ∀ n after, ∀ e ∈ (page (books n).rows filter ⟨after, limit⟩).advertisements,
    e ∈ (books n).rows ∧ filter.matchesAd e.2 = true
  increasing : ∀ pages,
    (read filter limit books none pages).1.Pairwise fun e e' => e.1.id < e'.1.id
  complete : ∀ pages, (read filter limit books none pages).2 = true → ∀ id,
    Stays filter books id → ∃ ad, (id, ad) ∈ (read filter limit books none pages).1
  ends : ∀ N, (∀ n, N ≤ n → books n = books N) →
    ∃ pages, (read filter limit books none pages).2 = true

theorem reading_misses_nothing (books : ℕ → Book) (filter : AdvertisementFilter)
    (limit : Option ℕ) : MissesNothing books filter limit where
  short n after := (List.length_take_le _ _).trans (by simp [Page.size, maxPage])
  sound n after e he := (mem_remaining.mp (List.mem_of_mem_take he)).1
  increasing pages := (read_spec pages).2.1
  complete pages hend id h := (read_spec pages).2.2 hend id (fun _ hc => by cases hc) h
  ends N hstill := read_ends N hstill

/-- A request that is refused, if it is, for what the advertisement offers. -/
structure Serious (p : NodePlatform) (now : Timestamp) (w : Node)
    (signed : Signed ReservationRequest) (ad : Advertisement) : Prop where
  signature : verifyRequest p signed = .ok ()
  fresh : w.reservations.lookup signed.payload.id = none
  positive : signed.payload.amount.baseUnits ≠ 0
  punctual : signed.payload.timestamp ≤ now + maxClockSkew
  found : w.advertisements.lookup signed.payload.advertisementId = some ad
  price : ad.pricing.agreesWith p.double signed.payload.agreedPrice signed.payload.agreedMid = true

/-- In every state the filter shows what can be reserved exactly if the decimals of the limits
and of the liquidity give one answer for the amount. -/
theorem amount_filter_exact_iff (p : NodePlatform) (now : Timestamp) (w : Node)
    (signed : Signed ReservationRequest) (ad : Advertisement) (h : Serious p now w signed ad) :
    (({ amount := some signed.payload.amount } : AdvertisementFilter).matchesAd ad = true ↔
        ∃ w', applyRequest p now w signed = .ok w') ↔
      (ad.status = .active ∧ InRange ad signed.payload.amount →
        (signed.payload.amount.decimals = ad.minTrade.decimals ↔
          signed.payload.amount.decimals = ad.availableLiquidity.decimals)) := by
  have haccepted : (∃ w', applyRequest p now w signed = .ok w') ↔ ad.status = .active ∧
      signed.payload.amount.decimals = ad.availableLiquidity.decimals ∧
        InRange ad signed.payload.amount := by
    simp only [applyRequest, bind_ok, require_ok, load_ok, pure_ok, mapError_ok, exists_const,
      h.signature, h.fresh, h.found, reserveLiquidity, Amount.checkedSub,
      Option.ite_none_right_eq_some, Option.some.injEq, InRange]
    simp [h.positive, h.punctual, h.price, eq_comm (a := ad.availableLiquidity.decimals)]
    tauto
  rw [haccepted]
  simp only [AdvertisementFilter.matchesAd, Option.elim_none, Option.all_none, Option.all_some,
    Bool.and_true, Bool.and_eq_true, decide_eq_true_eq]
  tauto

def centsRequest : ReservationRequest := { smallRequest with amount := .new 500 2 }

def centsPlatform : NodePlatform :=
  signedPlatform [(.filled 1, .advertisementCreate (limitedAd 2)),
    (.filled 2, .reservationRequest centsRequest)]

theorem amount_filter_exact_iff_millionths :
    ({ amount := some smallRequest.amount } : AdvertisementFilter).matchesAd
      (newAdvertisement (limitedAd 6)) = true ∧
    ∃ w', applyRequest (limitsPlatform 6) 2000
      (run (step (limitsPlatform 6)) emptyNode [creationInput 6]) ⟨smallRequest, ⟨[]⟩⟩ = .ok w' :=
  ⟨by decide +kernel, ((amount_filter_exact_iff _ _ _ _ (newAdvertisement (limitedAd 6))
    ⟨by decide +kernel, by decide +kernel, by decide, by decide, by decide +kernel,
      by decide +kernel⟩).mpr fun _ => by decide).mp (by decide +kernel)⟩

/-- An advertisement with limits in cents and liquidity in millionths is shown to a buyer of five
units, whose reservation is then refused. -/
theorem shown_but_refused :
    (run (step centsPlatform) emptyNode [creationInput 2]).advertisements.lookup
        centsRequest.advertisementId = some (newAdvertisement (limitedAd 2)) ∧
      ({ amount := some centsRequest.amount } : AdvertisementFilter).matchesAd
        (newAdvertisement (limitedAd 2)) = true ∧
      (applyRequest centsPlatform 2000 (run (step centsPlatform) emptyNode [creationInput 2])
        ⟨centsRequest, ⟨[]⟩⟩).isOk = false := by
  decide +kernel

end OpenFiat.OrderBookSearch
