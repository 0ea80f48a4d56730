import OpenFiat.ServiceRegistry

/-!
# Replaying signed service payloads

Nothing compares the times of the payloads that a service receives. An old registration that is
delivered again lists a service that was withdrawn, an old health update takes the last sign of
life back, and the sweep then deletes a service that is alive. If every registration and every
health update that is accepted is at least as new as what came before it, and a registration later
than the withdrawals before it, the registry is safe.
-/
namespace OpenFiat.ServiceReplay
open NodePayloads RecordStores TransactionRuns ServiceRegistry

def aliveAt : Action → Option (ServiceId × Timestamp)
  | .registered signed => some (signed.payload.serviceId, signed.payload.timestamp)
  | .updated signed => some (signed.payload.serviceId, signed.payload.timestamp)
  | _ => none

def withdrawalOf : Action → Option Withdrawal
  | .unregistered signed => some signed.payload
  | _ => none

section Histories
variable (P : ServicePlatform)

def Accepted (t : Transition Registry Delivery) : Prop := (step P t.before t.label).isOk = true

/-- The delivery was accepted, or it carries a payload that the provider of the record signed. -/
def Counts (record : ServiceRecord) (t : Transition Registry Delivery) : Prop :=
  Accepted P t ∨ SignedBy P record t.label.action

/-- Every sign of life in the history is at most as new as the given time. -/
def NoLater (H : List (Transition Registry Delivery)) (record : ServiceRecord) (id : ServiceId)
    (time : Timestamp) : Prop :=
  ∀ t ∈ H, Counts P record t → ∀ earlier, aliveAt t.label.action = some (id, earlier) →
    earlier ≤ time

/-- Every withdrawal of the service in the history is by the provider, and older than the given
time. -/
def WithdrawnBefore (H : List (Transition Registry Delivery)) (record : ServiceRecord)
    (id : ServiceId) (time : Timestamp) : Prop :=
  ∀ t ∈ H, Counts P record t → ∀ w, withdrawalOf t.label.action = some w → w.serviceId = id →
    w.provider = record.provider ∧ w.timestamp < time

/-- What is asked of a delivery that is accepted: nothing that came before it is newer. -/
def InOrder (H : List (Transition Registry Delivery)) (t : Transition Registry Delivery) : Prop :=
  Accepted P t →
  match t.label.action with
  | .registered signed =>
    NoLater P H (intoRecord signed.payload) signed.payload.serviceId signed.payload.timestamp ∧
      WithdrawnBefore P H (intoRecord signed.payload) signed.payload.serviceId
        signed.payload.timestamp
  | .updated signed => ∀ record, t.before.get signed.payload.serviceId = some record →
      NoLater P H record signed.payload.serviceId signed.payload.timestamp
  | _ => True

def delivered (deliveries : List Delivery) : List (Transition Registry Delivery) :=
  transitions (deliver (step P)) .empty deliveries

def registryAfter (deliveries : List Delivery) : Registry := run (step P) .empty deliveries

/-- A listed service is not withdrawn by a payload that its registration does not postdate, its
last sign of life never moves backwards, and the sweep spares a service with a sign of life inside
the window. -/
structure ReplaySafe (deliveries : List Delivery) : Prop where
  withdrawn : ∀ mid, mid <+: deliveries → ∀ id record, (registryAfter P mid).get id = some record →
    WithdrawnBefore P (delivered P mid) record id record.registeredAt
  forwards : ∀ mid later, mid <+: later → later <+: deliveries → ∀ id record record',
    (registryAfter P mid).get id = some record → (registryAfter P later).get id = some record' →
      record.lastHealthUpdate ≤ record'.lastHealthUpdate
  spared : ∀ mid d threshold, mid ++ [d] <+: deliveries → d.action = .expireStale threshold →
    ∀ id record, (registryAfter P mid).get id = some record → ∀ t ∈ delivered P mid,
      Counts P record t → ∀ time, aliveAt t.label.action = some (id, time) →
        cutoff d.time threshold ≤ time → (registryAfter P (mid ++ [d])).get id = some record

end Histories

section Invariant
variable {P : ServicePlatform} {H : List (Transition Registry Delivery)} {r r' : Registry}
  {d : Delivery} {record : ServiceRecord} {id : ServiceId}

/-- A listed service is up to date with the history. -/
structure UpToDate (P : ServicePlatform) (H : List (Transition Registry Delivery))
    (id : ServiceId) (record : ServiceRecord) : Prop where
  newest : NoLater P H record id record.lastHealthUpdate
  withdrawn : WithdrawnBefore P H record id record.registeredAt
  source : ∃ t ∈ H, Accepted P t ∧ aliveAt t.label.action = some (id, record.lastHealthUpdate)

variable {action : Action} {time : Timestamp} {t : Transition Registry Delivery}

theorem aliveAt_subject (h : aliveAt action = some (id, time)) : subject action = some id := by
  cases action with
  | registered | updated =>
    cases h
    rfl
  | _ => cases h

theorem withdrawalOf_subject {w : Withdrawal} (h : withdrawalOf action = some w) :
    subject action = some w.serviceId := by
  cases action with
  | unregistered =>
    cases h
    rfl
  | _ => cases h

theorem withdrawalOf_eq_none (h : aliveAt action = some (id, time)) :
    withdrawalOf action = none := by
  cases action with
  | unregistered => cases h
  | _ => rfl

theorem Counts.of_provider {record' : ServiceRecord} (h : Counts P record' t)
    (hid : record'.serviceId = record.serviceId) (hprovider : record'.provider = record.provider)
    (hkey : record'.providerPublicKey = record.providerPublicKey) : Counts P record t := by
  refine h.imp_right fun hsigned => ?_
  cases haction : t.label.action with
  | expireStale =>
    rw [haction] at hsigned
    exact hsigned
  | _ =>
    simp only [haction, SignedBy, hid, hprovider, hkey] at hsigned ⊢
    exact hsigned

theorem UpToDate.other (h : UpToDate P H id record)
    (hother : Counts P record t → subject t.label.action ≠ some id) :
    UpToDate P (H ++ [t]) id record where
  newest t' ht' hcounts time halive := by
    rcases List.mem_append.mp ht' with ht' | ht'
    · exact h.newest t' ht' hcounts time halive
    · obtain rfl := List.mem_singleton.mp ht'
      exact absurd (aliveAt_subject halive) (hother hcounts)
  withdrawn t' ht' hcounts w hw hid := by
    rcases List.mem_append.mp ht' with ht' | ht'
    · exact h.withdrawn t' ht' hcounts w hw hid
    · obtain rfl := List.mem_singleton.mp ht'
      exact absurd (hid ▸ withdrawalOf_subject hw) (hother hcounts)
  source := by
    obtain ⟨t', ht', hsource⟩ := h.source
    exact ⟨t', List.mem_append_left _ ht', hsource⟩

theorem UpToDate.of_alive (haccepted : Accepted P t)
    (halive : aliveAt t.label.action = some (id, time)) (hrecord : record.lastHealthUpdate = time)
    (hnewest : NoLater P H record id time)
    (hwithdrawn : WithdrawnBefore P H record id record.registeredAt) :
    UpToDate P (H ++ [t]) id record where
  newest t' ht' hcounts earlier hearlier := by
    rw [hrecord]
    rcases List.mem_append.mp ht' with ht' | ht'
    · exact hnewest t' ht' hcounts earlier hearlier
    · obtain rfl := List.mem_singleton.mp ht'
      exact le_of_eq (Prod.mk.inj (Option.mem_unique hearlier halive)).2
  withdrawn t' ht' hcounts w hw hid := by
    rcases List.mem_append.mp ht' with ht' | ht'
    · exact hwithdrawn t' ht' hcounts w hw hid
    · obtain rfl := List.mem_singleton.mp ht'
      rw [withdrawalOf_eq_none halive] at hw
      cases hw
  source := ⟨t, List.mem_append_right _ List.mem_cons_self, haccepted, hrecord ▸ halive⟩

theorem upToDate_step (hJ : ∀ id record, r.get id = some record → UpToDate P H id record)
    (horder : InOrder P H ⟨r, d, apply (step P) r d⟩)
    (hget : (apply (step P) r d).get id = some record) :
    UpToDate P (H ++ [⟨r, d, apply (step P) r d⟩]) id record := by
  cases hstep : step P r d with
  | error =>
    rw [apply_error hstep] at hget ⊢
    refine (hJ id record hget).other fun hcounts hsubject => ?_
    have hkey : record.serviceId = id := RecordStore.idOf_get hget
    rcases hcounts with haccepted | hsigned
    · rw [Accepted, hstep] at haccepted
      cases haccepted
    · obtain ⟨r', hr'⟩ := step_ok_of_signedBy (hkey.symm ▸ hget) hsigned
      rw [hstep] at hr'
      cases hr'
  | ok r' =>
    have haccepted (s' : Registry) : Accepted P ⟨r, d, s'⟩ := by
      rw [Accepted, hstep]
      rfl
    have hfresh := horder (haccepted _)
    rw [apply_ok hstep] at hget hfresh ⊢
    have hchange := step_change hstep id
    rw [hget] at hchange
    generalize hold : r.get id = old at hchange
    cases hchange with
    | same _ hother => exact (hJ id record hold).other fun _ => hother
    | registered signed _ haction hid =>
      subst hid
      simp only [haction] at hfresh
      exact .of_alive (haccepted r') (by rw [haction]; rfl) rfl hfresh.1 hfresh.2
    | updated signed record₀ haction hid =>
      subst hid
      simp only [haction] at hfresh
      have hprior := hJ _ record₀ hold
      refine .of_alive (haccepted r') (by rw [haction]; rfl) rfl ?_ ?_
      · exact fun t ht hcounts => hfresh record₀ hold t ht (hcounts.of_provider rfl rfl rfl)
      · exact fun t ht hcounts => hprior.withdrawn t ht (hcounts.of_provider rfl rfl rfl)

theorem upToDate_run {deliveries : List Delivery}
    (h : InContext (deliver (step P)) (InOrder P) .empty deliveries)
    (hget : (registryAfter P deliveries).get id = some record) :
    UpToDate P (delivered P deliveries) id record := by
  refine run_context_rule
    (J := fun H r => ∀ id record, r.get id = some record → UpToDate P H id record)
    (fun H r d r' hJ hstep horder id record hget => ?_) (fun id record hget => by cases hget) h id
    record hget
  obtain rfl : apply (step P) r d = r' := Except.ok.inj hstep
  exact upToDate_step hJ horder hget

theorem delivered_subset {mid later : List Delivery} (h : mid <+: later) :
    delivered P mid ⊆ delivered P later := by
  obtain ⟨rest, rfl⟩ := h
  rw [delivered, delivered, transitions_append]
  exact List.subset_append_left _ _

end Invariant

/-- If the deliveries are accepted in the order of their times, replays do no harm. -/
theorem service_registry_replay_safe (P : ServicePlatform) (deliveries : List Delivery)
    (hinorder : InContext (deliver (step P)) (InOrder P) .empty deliveries) :
    ReplaySafe P deliveries where
  withdrawn mid hmid id record hget := (upToDate_run (hinorder.of_initial hmid) hget).withdrawn
  forwards mid later hmid hlater id record record' hget hget' := by
    obtain ⟨t, ht, haccepted, halive⟩ :=
      (upToDate_run (hinorder.of_initial (hmid.trans hlater)) hget).source
    exact (upToDate_run (hinorder.of_initial hlater) hget').newest t (delivered_subset hmid ht)
      (.inl haccepted) _ halive
  spared mid d threshold hmid haction id record hget t ht hcounts time halive hwindow := by
    have hmid' := (List.prefix_append mid [d]).trans hmid
    have hnewest := (upToDate_run (hinorder.of_initial hmid') hget).newest t ht hcounts time halive
    have hstep : step P (registryAfter P mid) d =
        .ok (expireStale d.time threshold (registryAfter P mid)).1 := by
      rw [step, haction]
    have hafter : registryAfter P (mid ++ [d]) =
        (expireStale d.time threshold (registryAfter P mid)).1 := by
      rw [registryAfter, run_concat]
      exact apply_ok hstep
    rw [hafter, get_expireStale, hget, Option.filter_some,
      decide_eq_false (Nat.not_lt.mpr (hwindow.trans hnewest))]
    rfl

/-- Signs of life that are delivered in the order of their times, and after all older withdrawals
of the provider, are in order. -/
theorem inOrder_of_pairwise {P : ServicePlatform} {deliveries : List Delivery}
    (halive : (deliveries.filterMap fun d => aliveAt d.action).Pairwise fun e e' => e.2 ≤ e'.2)
    (hwithdrawals : deliveries.Pairwise fun d d' => ∀ signed signed',
      d.action = .unregistered signed → d'.action = .registered signed' →
        signed.payload.provider = signed'.payload.provider ∧
          signed.payload.timestamp < signed'.payload.timestamp) :
    InContext (deliver (step P)) (InOrder P) .empty deliveries := by
  rintro mid d r' hmid - -
  have hlabel {t : Transition Registry Delivery} (ht : t ∈ delivered P mid) : t.label ∈ mid :=
    label_mem_of_mem ht
  obtain ⟨rest, rfl⟩ := hmid
  have hnoLater {record : ServiceRecord} {id : ServiceId} {time : Timestamp}
      (htime : aliveAt d.action = some (id, time)) :
        NoLater P (delivered P mid) record id time := by
    intro t ht _ earlier hearlier
    rw [List.filterMap_append, List.filterMap_append] at halive
    have hpair := (List.pairwise_append.mp (List.pairwise_append.mp halive).1).2.2
    exact hpair (id, earlier) (List.mem_filterMap.mpr ⟨t.label, hlabel ht, hearlier⟩) (id, time)
      (List.mem_filterMap.mpr ⟨d, List.mem_cons_self, htime⟩)
  have hpair := (List.pairwise_append.mp (List.pairwise_append.mp hwithdrawals).1).2.2
  obtain ⟨time, action⟩ := d
  cases action with
  | registered signed =>
    refine ⟨hnoLater rfl, fun t ht _ w hw _ => ?_⟩
    have hlater := hpair t.label (hlabel ht) _ List.mem_cons_self
    cases haction : t.label.action with
    | unregistered =>
      rw [haction] at hw
      cases hw
      exact hlater _ signed haction rfl
    | _ =>
      rw [haction] at hw
      cases hw
  | updated => exact fun record _ => hnoLater rfl
  | _ => exact trivial

def registration : Registration where
  serviceId := ⟨"svc-1"⟩
  serviceType := .infrastructure .snapshotProvider
  provider := peer 1
  providerPublicKey := .filled 1
  endpoints := ["/ip4/127.0.0.1/udp/4001/quic-v1"]
  supportedOfs := [1300]
  region := none
  capabilities := []
  branding := none
  pricing := none
  payoutWallet := none
  timestamp := 1000

def healthUpdate (time : Timestamp) : HealthUpdate := ⟨⟨"svc-1"⟩, peer 1, .online, time⟩

def withdrawal : Withdrawal := ⟨⟨"svc-1"⟩, peer 1, 3000⟩

/-- The provider has signed one registration, two health updates and the withdrawal. -/
def servicePlatform : ServicePlatform where
  verify key statement _ := decide (key = .filled 1 ∧ statement ∈ [.registration registration,
    .healthUpdate (healthUpdate 1500), .healthUpdate (healthUpdate 9000), .withdrawal withdrawal])
  peerIdFromPublicKey key := some ⟨key.bytes⟩
  isCid _ := true

def registering (time : Timestamp) : Delivery := ⟨time, .registered ⟨registration, ⟨[]⟩⟩⟩

def reporting (signedAt time : Timestamp) : Delivery :=
  ⟨time, .updated ⟨healthUpdate signedAt, ⟨[]⟩⟩⟩

def withdrawing : Delivery := ⟨3000, .unregistered ⟨withdrawal, ⟨[]⟩⟩⟩

def sweeping (time : Timestamp) (threshold : ℕ) : Delivery := ⟨time, .expireStale threshold⟩

def inOrderDeliveries : List Delivery :=
  [registering 1000, reporting 1500 1500, withdrawing, reporting 9000 9000, sweeping 10000 5000]

/-- Delivered in the order of their times, the same payloads leave the service withdrawn. -/
theorem service_registry_replay_safe_withdrawn :
    ((registryAfter servicePlatform (inOrderDeliveries.take 2)).get ⟨"svc-1"⟩).map
        (·.lastHealthUpdate) = some 1500 ∧
      (registryAfter servicePlatform inOrderDeliveries).get ⟨"svc-1"⟩ = none ∧
      ReplaySafe servicePlatform inOrderDeliveries := by
  have hwithdrawals : inOrderDeliveries.Pairwise fun d d' => ∀ signed signed',
      d.action = .unregistered signed → d'.action = .registered signed' →
        signed.payload.provider = signed'.payload.provider ∧
          signed.payload.timestamp < signed'.payload.timestamp := by
    simp [inOrderDeliveries, registering, reporting, withdrawing, sweeping]
  exact ⟨by decide +kernel, by decide +kernel, service_registry_replay_safe servicePlatform _
    (inOrder_of_pairwise (by decide +kernel) hwithdrawals)⟩

/-- A withdrawn service is listed again by its old registration; an old health update takes the
last sign of life back, and the sweep deletes the service although its provider has reported
inside the window. -/
theorem old_payloads_applied_again :
    ((registryAfter servicePlatform [registering 1000, withdrawing]).get ⟨"svc-1"⟩ = none ∧
      ((registryAfter servicePlatform [registering 1000, withdrawing, registering 4000]).get
        ⟨"svc-1"⟩).map (·.registeredAt) = some 1000) ∧
    ((registryAfter servicePlatform [registering 1000, reporting 1500 1500,
        reporting 9000 9000]).get ⟨"svc-1"⟩).map (·.lastHealthUpdate) = some 9000 ∧
      ((registryAfter servicePlatform [registering 1000, reporting 1500 1500, reporting 9000 9000,
        reporting 1500 9500]).get ⟨"svc-1"⟩).map (·.lastHealthUpdate) = some 1500 ∧
      (registryAfter servicePlatform [registering 1000, reporting 1500 1500, reporting 9000 9000,
        reporting 1500 9500, sweeping 10000 5000]).get ⟨"svc-1"⟩ = none ∧
      cutoff 10000 5000 ≤ 9000 := by
  decide +kernel

end OpenFiat.ServiceReplay
