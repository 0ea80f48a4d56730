import OpenFiat.TradeLimits

/-!
# Edits of an advertisement

A merchant edits three facets of an advertisement by signed updates: its status, its terms and
its price. Every update carries a time, which is stored but not compared with anything. So the
last update that is delivered wins, and it is the newest one exactly if the updates of each
facet are accepted in the order of their times, apart from those that find the advertisement
just as they would leave it.
-/
namespace OpenFiat.MerchantEdits
open GuardedResult FiniteTable NodePayloads TradingNode AdvertisementRegistry NodeSteps
open TransactionRuns TradeLimits

section Histories
variable {V : Type} {H : List (Timestamp × V)} {initial value : V} {time : Timestamp}

/-- The value comes from an entry than which none is newer, or is the initial one. -/
def Latest (H : List (Timestamp × V)) (initial value : V) : Prop :=
  (H = [] ∧ value = initial) ∨ ∃ time, (time, value) ∈ H ∧ ∀ entry ∈ H, entry.1 ≤ time

theorem latest_concat_newest (h : ∀ entry ∈ H, entry.1 ≤ time) :
    Latest (H ++ [(time, value)]) initial value := by
  exact .inr ⟨time, List.mem_append_right _ List.mem_cons_self,
    List.forall_mem_append.mpr ⟨h, List.forall_mem_singleton.mpr le_rfl⟩⟩

theorem Latest.concat_older (h : Latest H initial value) (hnewer : ∃ entry ∈ H, time < entry.1) :
    Latest (H ++ [(time, value)]) initial value := by
  obtain ⟨newer, hmem, hlt⟩ := hnewer
  rcases h with ⟨rfl, -⟩ | ⟨newest, hnewest, hmax⟩
  · cases hmem
  · exact .inr ⟨newest, List.mem_append_left _ hnewest, List.forall_mem_append.mpr
      ⟨hmax, List.forall_mem_singleton.mpr (hlt.le.trans (hmax newer hmem))⟩⟩

end Histories

/-- A part of an advertisement that one kind of update rewrites, together with the time of the
last update. -/
structure Facet (V : Type) where
  read : Advertisement → V
  write : Timestamp → V → Advertisement → Advertisement
  edit : Event → Option (AdvertisementId × Timestamp × V)
  read_write : ∀ time value ad, read (write time value ad) = value
  updatedAt_write : ∀ time value ad, (write time value ad).updatedAt = time
  write_read : ∀ ad, write ad.updatedAt (read ad) ad = ad

def statusFacet : Facet AdvertisementStatus where
  read ad := ad.status
  write time value ad := { ad with status := value, updatedAt := time }
  edit
    | .advertisementStatusSet ⟨set, _⟩ => some (set.id, set.timestamp, set.status)
    | _ => none
  read_write _ _ _ := rfl
  updatedAt_write _ _ _ := rfl
  write_read _ := rfl

structure Terms where
  minTrade : Amount
  maxTrade : Amount
  paymentMethods : List PaymentMethodRef

def termsFacet : Facet Terms where
  read ad := ⟨ad.minTrade, ad.maxTrade, ad.paymentMethods⟩
  write time value ad := { ad with
    minTrade := value.minTrade
    maxTrade := value.maxTrade
    paymentMethods := value.paymentMethods
    updatedAt := time }
  edit
    | .advertisementTermsUpdated ⟨update, _⟩ =>
      some (update.id, update.timestamp, ⟨update.minTrade, update.maxTrade, update.paymentMethods⟩)
    | _ => none
  read_write _ _ _ := rfl
  updatedAt_write _ _ _ := rfl
  write_read _ := rfl

def pricingFacet : Facet PricingModel where
  read ad := ad.pricing
  write time value ad := { ad with pricing := value, updatedAt := time }
  edit
    | .advertisementPriceUpdated ⟨update, _⟩ => some (update.id, update.timestamp, update.pricing)
    | _ => none
  read_write _ _ _ := rfl
  updatedAt_write _ _ _ := rfl
  write_read _ := rfl

variable {V : Type} {F : Facet V} {p : NodePlatform} {w w' : Node} {input : Input}
  {id : AdvertisementId} {time : Timestamp} {value : V} {ad : Advertisement}

inductive Rewrites (p : NodePlatform) (w : Node) : Event → Node → Prop
  | status (signed : Signed AdvertisementStatusSet) (ad : Advertisement)
      (had : w.advertisements.lookup signed.payload.id = some ad)
      (hliquid : ¬ (signed.payload.status = .active ∧ ad.availableLiquidity.baseUnits = 0)) :
      Rewrites p w (.advertisementStatusSet signed) (putAdvertisement w signed.payload.id
        (statusFacet.write signed.payload.timestamp signed.payload.status ad))
  | terms (signed : Signed AdvertisementTermsUpdate) (ad : Advertisement)
      (had : w.advertisements.lookup signed.payload.id = some ad)
      (hmerchant : ad.merchant = signed.payload.merchant)
      (hterms : checkTerms p signed.payload.minTrade signed.payload.maxTrade
        signed.payload.paymentMethods signed.payload.merchant = .ok ()) :
      Rewrites p w (.advertisementTermsUpdated signed) (putAdvertisement w signed.payload.id
        (termsFacet.write signed.payload.timestamp
          ⟨signed.payload.minTrade, signed.payload.maxTrade, signed.payload.paymentMethods⟩ ad))
  | pricing (signed : Signed AdvertisementPriceUpdate) (ad : Advertisement)
      (had : w.advertisements.lookup signed.payload.id = some ad) :
      Rewrites p w (.advertisementPriceUpdated signed) (putAdvertisement w signed.payload.id
        (pricingFacet.write signed.payload.timestamp signed.payload.pricing ad))

theorem rewrites_of_step (hstep : step p w input = .ok w') (hedit : IsEdit input.event) :
    Rewrites p w input.event w' := by
  obtain ⟨now, event⟩ := input
  cases event <;> simp only [step, mapError_ok] at hstep
  case advertisementStatusSet signed =>
    simp only [applyStatusSet, bind_ok, authorize_ok, require_ok, pure_ok] at hstep
    obtain ⟨ad, ⟨had, -⟩, -, hliquid, rfl⟩ := hstep
    exact .status signed ad had hliquid
  case advertisementTermsUpdated signed =>
    simp only [applyTermsUpdate, bind_ok, authorize_ok, pure_ok] at hstep
    obtain ⟨ad, ⟨had, -, hmerchant, -⟩, _, hterms, rfl⟩ := hstep
    exact .terms signed ad had hmerchant hterms
  case advertisementPriceUpdated signed =>
    simp only [applyPricingUpdate, bind_ok, authorize_ok, pure_ok] at hstep
    obtain ⟨ad, ⟨had, -⟩, rfl⟩ := hstep
    exact .pricing signed ad had
  all_goals exact absurd hedit not_false

/-- An accepted edit rewrites the facet if it is of its kind, and otherwise leaves it as it is in
every advertisement. -/
structure Facet.Governs (F : Facet V) : Prop where
  rewrites : ∀ {p w event w' id time value}, Rewrites p w event w' →
    F.edit event = some (id, time, value) →
      ∃ ad, w.advertisements.lookup id = some ad ∧
        w' = putAdvertisement w id (F.write time value ad)
  spares : ∀ {p w event w'}, Rewrites p w event w' → F.edit event = none →
    ∀ id ad', w'.advertisements.lookup id = some ad' →
      ∃ ad, w.advertisements.lookup id = some ad ∧ F.read ad' = F.read ad

theorem spares_of_put {id' : AdvertisementId} {ad' ad'' : Advertisement}
    (had : w.advertisements.lookup id = some ad)
    (h : (putAdvertisement w id ad').advertisements.lookup id' = some ad'')
    (hread : F.read ad' = F.read ad) :
    ∃ ad, w.advertisements.lookup id' = some ad ∧ F.read ad'' = F.read ad := by
  rw [putAdvertisement, Table.lookup_insert_eq] at h
  split_ifs at h with hid
  · subst hid
    cases h
    exact ⟨ad, had, hread⟩
  · exact ⟨ad'', h, rfl⟩

theorem statusFacet_governs : statusFacet.Governs where
  rewrites h hedit := by
    cases h with
    | status signed ad had =>
      cases hedit
      exact ⟨ad, had, rfl⟩
    | terms | pricing => cases hedit
  spares h hedit id ad' had' := by
    cases h with
    | status => cases hedit
    | terms signed ad had | pricing signed ad had => exact spares_of_put had had' rfl

theorem termsFacet_governs : termsFacet.Governs where
  rewrites h hedit := by
    cases h with
    | status | pricing => cases hedit
    | terms signed ad had =>
      cases hedit
      exact ⟨ad, had, rfl⟩
  spares h hedit id ad' had' := by
    cases h with
    | status signed ad had | pricing signed ad had => exact spares_of_put had had' rfl
    | terms => cases hedit

theorem pricingFacet_governs : pricingFacet.Governs where
  rewrites h hedit := by
    cases h with
    | status | terms => cases hedit
    | pricing signed ad had =>
      cases hedit
      exact ⟨ad, had, rfl⟩
  spares h hedit id ad' had' := by
    cases h with
    | status signed ad had | terms signed ad had => exact spares_of_put had had' rfl
    | pricing => cases hedit

def Facet.editOf (F : Facet V) (id : AdvertisementId) (event : Event) : Option (Timestamp × V) :=
  (F.edit event).bind fun e => if e.1 = id then some e.2 else none

/-- The accepted edits of a facet of one advertisement, oldest delivery first. -/
def Facet.accepted (F : Facet V) (id : AdvertisementId) (H : List (Transition Node Input)) :
    List (Timestamp × V) :=
  H.filterMap fun t => F.editOf id t.label.event

/-- The event carries an edit of the facet that is older than an accepted one. -/
def Facet.Outdated (F : Facet V) (id : AdvertisementId) (H : List (Transition Node Input))
    (event : Event) : Prop :=
  ∃ time value, F.editOf id event = some (time, value) ∧ ∃ entry ∈ F.accepted id H, time < entry.1

/-- After every delivery the facet is the one of the newest accepted edit, and accepting an older
edit changes nothing. -/
structure NeverRegresses (F : Facet V) (p : NodePlatform) (w : Node) (inputs : List Input)
    (id : AdvertisementId) (initial : Advertisement) : Prop where
  latest : ∀ mid, mid <+: inputs → ∀ ad,
    (run (step p) w mid).advertisements.lookup id = some ad →
      Latest (F.accepted id (transitions (step p) w mid)) (F.read initial) (F.read ad)
  older : InContext (step p)
    (fun H t => F.Outdated id H t.label.event → t.after = t.before) w inputs

/-- An edit of the facet is at least as new as the accepted ones before it, or finds the
advertisement with its value and its time. -/
def Facet.Orderly (F : Facet V) (id : AdvertisementId) (H : List (Transition Node Input))
    (t : Transition Node Input) : Prop :=
  ∀ time value, F.editOf id t.label.event = some (time, value) →
    (∀ entry ∈ F.accepted id H, entry.1 ≤ time) ∨
      ∀ ad, t.before.advertisements.lookup id = some ad → F.read ad = value ∧ ad.updatedAt = time

def InOrder (F : Facet V) (p : NodePlatform) (w : Node) (inputs : List Input)
    (id : AdvertisementId) : Prop :=
  InContext (step p) (F.Orderly id) w inputs

section Steps

theorem edit_of_editOf {event : Event} (h : F.editOf id event = some (time, value)) :
    F.edit event = some (id, time, value) := by
  obtain ⟨⟨id', e⟩, hedit, hid⟩ := Option.bind_eq_some_iff.mp h
  split_ifs at hid with heq
  rw [hedit, ← Option.some.inj hid, ← heq]

theorem Facet.Governs.keeps (hF : F.Governs) {event : Event} (h : Rewrites p w event w')
    (hnone : F.editOf id event = none) {ad' : Advertisement}
    (had' : w'.advertisements.lookup id = some ad') :
    ∃ ad, w.advertisements.lookup id = some ad ∧ F.read ad' = F.read ad := by
  cases hedit : F.edit event with
  | none => exact hF.spares h hedit id ad' had'
  | some e =>
    obtain ⟨id', time, value⟩ := e
    obtain ⟨ad, had, rfl⟩ := hF.rewrites h hedit
    have hne : id ≠ id' := by
      rintro rfl
      rw [Facet.editOf, hedit, Option.bind_some, if_pos rfl] at hnone
      cases hnone
    exact ⟨ad', (Finmap.lookup_insert_of_ne _ hne).symm.trans had', rfl⟩

theorem accepted_concat (H : List (Transition Node Input)) (t : Transition Node Input) :
    F.accepted id (H ++ [t]) = F.accepted id H ++ (F.editOf id t.label.event).toList := by
  rw [Facet.accepted, List.filterMap_append, List.filterMap_cons]
  cases F.editOf id t.label.event <;> rfl

theorem write_eq_self_iff :
    F.write time value ad = ad ↔ F.read ad = value ∧ ad.updatedAt = time := by
  constructor
  · intro h
    exact ⟨h ▸ F.read_write time value ad, h ▸ F.updatedAt_write time value ad⟩
  · rintro ⟨rfl, rfl⟩
    exact F.write_read ad

end Steps

def Facet.UpToDate (F : Facet V) (id : AdvertisementId) (initial : Advertisement)
    (H : List (Transition Node Input)) (w : Node) : Prop :=
  ∀ ad, w.advertisements.lookup id = some ad →
    Latest (F.accepted id H) (F.read initial) (F.read ad)

theorem Facet.UpToDate.step (hF : F.Governs) {initial : Advertisement}
    {H : List (Transition Node Input)} (h : F.UpToDate id initial H w)
    (hrewrites : Rewrites p w input.event w') (horderly : F.Orderly id H ⟨w, input, w'⟩) :
    F.UpToDate id initial (H ++ [⟨w, input, w'⟩]) w' := by
  intro ad had
  rw [accepted_concat]
  cases hedit : F.editOf id input.event with
  | none =>
    obtain ⟨ad₀, had₀, hread⟩ := hF.keeps hrewrites hedit had
    rw [hread, Option.toList_none, List.append_nil]
    exact h ad₀ had₀
  | some e =>
    obtain ⟨time, value⟩ := e
    obtain ⟨ad₀, had₀, rfl⟩ := hF.rewrites hrewrites (edit_of_editOf hedit)
    obtain rfl : F.write time value ad₀ = ad :=
      Option.some.inj ((Finmap.lookup_insert _).symm.trans had)
    rw [F.read_write]
    by_cases hnewest : ∀ entry ∈ F.accepted id H, entry.1 ≤ time
    · exact latest_concat_newest hnewest
    · have hrestated := (horderly time value hedit).resolve_left hnewest
      have hlatest := h ad₀ had₀
      rw [(hrestated ad₀ had₀).1] at hlatest
      push Not at hnewest
      exact hlatest.concat_older hnewest

theorem Facet.Governs.orderly_iff (hF : F.Governs) {H : List (Transition Node Input)}
    (hrewrites : Rewrites p w input.event w') :
    F.Orderly id H ⟨w, input, w'⟩ ↔ (F.Outdated id H input.event → w' = w) := by
  constructor
  · rintro h ⟨time, value, hedit, entry, hentry, hlt⟩
    obtain ⟨ad, had, rfl⟩ := hF.rewrites hrewrites (edit_of_editOf hedit)
    rcases h time value hedit with hnewest | hrestated
    · exact absurd (hnewest entry hentry) (Nat.not_le.mpr hlt)
    · rw [write_eq_self_iff.mpr (hrestated ad had), putAdvertisement, Table.insert_lookup had]
  · intro h time value hedit
    by_cases hnewest : ∀ entry ∈ F.accepted id H, entry.1 ≤ time
    · exact .inl hnewest
    · push Not at hnewest
      have hsame := h ⟨time, value, hedit, hnewest⟩
      refine .inr fun ad had => write_eq_self_iff.mp ?_
      obtain ⟨ad₀, had₀, hw'⟩ := hF.rewrites hrewrites (edit_of_editOf hedit)
      obtain rfl : ad₀ = ad := Option.mem_unique had₀ had
      have hlookup : w'.advertisements.lookup id = some (F.write time value ad₀) := by
        rw [hw']
        exact Finmap.lookup_insert _
      rw [hsame, had₀, Option.some.injEq] at hlookup
      exact hlookup.symm

theorem neverRegresses_iff (hF : F.Governs) {inputs : List Input}
    (hedits : ∀ input ∈ inputs, IsEdit input.event) {initial : Advertisement}
    (hinitial : w.advertisements.lookup id = some initial) :
    NeverRegresses F p w inputs id initial ↔ InOrder F p w inputs id := by
  have hrewrites {mid : List Input} {input : Input} {w' : Node} (hmid : mid ++ [input] <+: inputs)
      (hstep : step p (run (step p) w mid) input = .ok w') :
      Rewrites p (run (step p) w mid) input.event w' :=
    rewrites_of_step hstep (hedits input
      (hmid.subset (List.mem_append_right _ List.mem_cons_self)))
  constructor
  · intro h mid input w' hmid hstep
    exact (hF.orderly_iff (hrewrites hmid hstep)).mpr (h.older mid input w' hmid hstep)
  · intro h
    refine ⟨fun mid hmid => ?_, fun mid input w' hmid hstep => ?_⟩
    · refine run_context_rule (J := F.UpToDate id initial)
        (G := fun H t => Rewrites p t.before t.label.event t.after ∧ F.Orderly id H t)
        (fun H w input w' hJ _ hG => hJ.step hF hG.1 hG.2) (fun ad had => ?_)
        fun mid' input w' hmid' hstep => ?_
      · obtain rfl : initial = ad := Option.mem_unique hinitial had
        exact .inl ⟨rfl, rfl⟩
      · exact ⟨hrewrites (hmid'.trans hmid) hstep, h mid' input w' (hmid'.trans hmid) hstep⟩
    · exact (hF.orderly_iff (hrewrites hmid hstep)).mp (h mid input w' hmid hstep)

/-- The facets of an advertisement never regress exactly if the edits of each are accepted in the
order of their times, apart from those that change nothing. -/
theorem merchant_edits_iff (p : NodePlatform) (w : Node) (inputs : List Input)
    (hedits : ∀ input ∈ inputs, IsEdit input.event) (id : AdvertisementId)
    (initial : Advertisement) (hinitial : w.advertisements.lookup id = some initial) :
    (NeverRegresses statusFacet p w inputs id initial ∧
      NeverRegresses termsFacet p w inputs id initial ∧
      NeverRegresses pricingFacet p w inputs id initial) ↔
    InOrder statusFacet p w inputs id ∧ InOrder termsFacet p w inputs id ∧
      InOrder pricingFacet p w inputs id := by
  rw [neverRegresses_iff statusFacet_governs hedits hinitial,
    neverRegresses_iff termsFacet_governs hedits hinitial,
    neverRegresses_iff pricingFacet_governs hedits hinitial]

theorem inOrder_of_pairwise {inputs : List Input}
    (h : (inputs.filterMap fun input => F.editOf id input.event).Pairwise fun e e' => e.1 ≤ e'.1) :
    InOrder F p w inputs id := by
  rintro mid input w' ⟨rest, rfl⟩ - time value hedit
  refine .inl fun entry hentry => ?_
  obtain ⟨t, ht, htedit⟩ := List.mem_filterMap.mp hentry
  have hearlier : entry ∈ mid.filterMap fun input => F.editOf id input.event :=
    List.mem_filterMap.mpr ⟨t.label, label_mem_of_mem ht, htedit⟩
  have hlast : (time, value) ∈ [input].filterMap fun input => F.editOf id input.event :=
    List.mem_filterMap.mpr ⟨input, List.mem_cons_self, hedit⟩
  rw [List.filterMap_append, List.filterMap_append] at h
  have hpair := (List.pairwise_append.mp (List.pairwise_append.mp h).1).2.2
  exact hpair entry hearlier (time, value) hlast

def editedAd : AdvertisementId := ⟨"ad-1"⟩

def activation : AdvertisementStatusSet := ⟨editedAd, peer 1, .active, 1500⟩

def pause : AdvertisementStatusSet := ⟨editedAd, peer 1, .vacation, 2000⟩

def merchantPlatform : NodePlatform :=
  signedPlatform [(.filled 1, .advertisementCreate (limitedAd sixPlaces)),
    (.filled 1, .advertisementStatusSet activation),
    (.filled 1, .advertisementStatusSet pause)]

def advertised : Node := run (step merchantPlatform) emptyNode [creationInput sixPlaces]

def activationInput : Input := ⟨1500, .advertisementStatusSet ⟨activation, ⟨[]⟩⟩⟩

def pauseInput : Input := ⟨2000, .advertisementStatusSet ⟨pause, ⟨[]⟩⟩⟩

/-- The advertisement is paused, and an earlier activation that anybody delivers again reopens
it. -/
theorem replayed_activation_reopens :
    statusFacet.accepted editedAd (transitions (step merchantPlatform) advertised
        [activationInput, pauseInput, activationInput]) =
      [(1500, .active), (2000, .vacation), (1500, .active)] ∧
    ((run (step merchantPlatform) advertised
        [activationInput, pauseInput]).advertisements.lookup editedAd).map (·.status) =
      some .vacation ∧
    ((run (step merchantPlatform) advertised
        [activationInput, pauseInput, activationInput]).advertisements.lookup editedAd).map
      (·.status) = some .active := by
  decide +kernel

theorem merchant_edits_iff_paused :
    ((run (step merchantPlatform) advertised
        [activationInput, pauseInput]).advertisements.lookup editedAd).map (·.status) =
      some .vacation ∧
    NeverRegresses statusFacet merchantPlatform advertised [activationInput, pauseInput] editedAd
      (newAdvertisement (limitedAd 6)) := by
  have hedits : ∀ input ∈ [activationInput, pauseInput], IsEdit input.event := by
    simp [activationInput, pauseInput, IsEdit]
  have hinitial : advertised.advertisements.lookup editedAd =
      some (newAdvertisement (limitedAd 6)) := by
    decide +kernel
  have hstatus : InOrder statusFacet merchantPlatform advertised [activationInput, pauseInput]
      editedAd := inOrder_of_pairwise (by decide +kernel)
  have hterms : InOrder termsFacet merchantPlatform advertised [activationInput, pauseInput]
      editedAd := inOrder_of_pairwise List.Pairwise.nil
  have hpricing : InOrder pricingFacet merchantPlatform advertised [activationInput, pauseInput]
      editedAd := inOrder_of_pairwise List.Pairwise.nil
  exact ⟨by decide +kernel, ((merchant_edits_iff merchantPlatform advertised
    [activationInput, pauseInput] hedits editedAd _ hinitial).mpr ⟨hstatus, hterms, hpricing⟩).1⟩

end OpenFiat.MerchantEdits
