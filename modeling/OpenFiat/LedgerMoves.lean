import OpenFiat.TokenLedger

/-!
# Moves of outsiders on a token ledger

A program keeps some authorities to itself: no one else can sign for them. It also
keeps the addresses at which it opens accounts of its own. A `Move` is what anyone else
can do to the ledger, in a transaction of their own or while the program waits for a
call that it made. `Spends R ms L L'` says that, of all transfers between `L` and `L'`,
exactly `ms` came out of accounts under reserved authorities; outsiders spend nothing.
-/
namespace OpenFiat.LedgerMoves
open GuardedResult TokenLedger TokenLedger.Ledger

/-- The authorities and addresses that only the program itself can use, and the owners
under which it opens accounts at those addresses. -/
structure Reserved (K : Type) where
  authority : K → Bool
  address : K → Bool
  owner : K → K → Bool

inductive Move (K : Type) where
  | pay (source mint target authority : K) (amount : ℕ)
  | issue (account : K) (amount : ℕ)
  | openAccount (address mint owner : K)
deriving DecidableEq, Repr

section
variable {K : Type} [DecidableEq K]

def act (R : Reserved K) (L : Ledger K) : Move K → Except (TransferError K) (Ledger K)
  | .pay source mint target authority n => do
    require (R.authority authority = false) .ownerMismatch
    L.transfer source mint target authority n
  | .issue account n => .ok (L.credit account n)
  | .openAccount address mint owner => do
    require (R.address address = false) (.accountInUse address)
    L.createAccount address mint owner

/-- An account that only the program can spend from, or an address where only the program
can open one. -/
def Held (R : Reserved K) (L : Ledger K) (k : K) : Prop :=
  match L.header k with
  | some (_, owner) => R.authority owner = true
  | none => R.address k = true

/-- Between `L` and `L'` the reserved authorities sign for the transfers `ms` only. -/
structure Spends (R : Reserved K) (ms : List (Transfer K)) (L L' : Ledger K) : Prop where
  balance : ∀ k, Held R L k → L.balance k ≤ L'.balance k + Ledger.outflow k ms
  paid : ∀ k, Held R L k →
    L'.paidBy k = L.paidBy k ++ ms.filter fun m => m.source = k
  header : ∀ k h, L.header k = some h → L'.header k = some h
  held : ∀ k, Held R L k → Held R L' k
  opened : ∀ k h, L.header k = none → L'.header k = some h → R.address k = true →
    R.owner k h.2 = true

variable {R : Reserved K} {L L' L'' : Ledger K} {ms ns : List (Transfer K)}

variable {authority k mint src : K}

theorem Spends.refl (L : Ledger K) : Spends R [] L L where
  balance _ _ := le_rfl
  paid k _ := by rw [List.filter_nil, List.append_nil]
  header _ _ h := h
  held _ h := h
  opened k h hnone hsome _ := by
    rw [hnone] at hsome
    cases hsome

theorem held_congr (h : L'.header k = L.header k) : Held R L' k ↔ Held R L k := by
  unfold Held
  rw [h]

theorem outsider_source_ne (hsrc : L.header src = some (mint, authority))
    (ha : R.authority authority = false) (hk : Held R L k) : src ≠ k := by
  rintro rfl
  have howner : R.authority authority = true := by simpa only [Held, hsrc] using hk
  rw [ha] at howner
  cases howner

theorem opened_of_header {a : K × K} {p : Prop} (h : L'.header k = L.header k)
    (hnone : L.header k = none) (hsome : L'.header k = some a) : p := by
  rw [h, hnone] at hsome
  cases hsome

theorem spends_of_outsider {dst : K} {n : ℕ} (h : L.transfer src mint dst authority n = .ok L')
    (ha : R.authority authority = false) : Spends R [] L L' := by
  have hmoved := moved_transfer h
  have hsource (k : K) (hk : Held R L k) : src ≠ k :=
    outsider_source_ne (transfer_ok.mp h).2.1 ha hk
  refine ⟨fun k hk => ?_, fun k hk => ?_, fun k a hk => ?_, fun k hk => ?_,
    fun k a hnone hsome _ => opened_of_header (hmoved.header k) hnone hsome⟩
  · have hbalance := hmoved.balance k
    rw [outflow_cons, if_neg (hsource k hk)] at hbalance
    omega
  · rw [paidBy_of_history hmoved.history, List.filter_cons_of_neg]
    simpa using hsource k hk
  · rw [hmoved.header, hk]
  · exact (held_congr (hmoved.header k)).mpr hk

theorem spends_transfer {dst : K} {n : ℕ} (h : L.transfer src mint dst authority n = .ok L') :
    Spends R [⟨src, dst, n⟩] L L' := by
  have hmoved := moved_transfer h
  refine ⟨fun k _ => ?_, fun k _ => ?_, fun k a hk => ?_, fun k hk => ?_,
    fun k a hnone hsome _ => opened_of_header (hmoved.header k) hnone hsome⟩
  · have hbalance := hmoved.balance k
    omega
  · exact paidBy_of_history hmoved.history k
  · rw [hmoved.header, hk]
  · exact (held_congr (hmoved.header k)).mpr hk

theorem spends_credit (k : K) (n : ℕ) : Spends R [] L (L.credit k n) where
  balance j _ := by
    exact balance_le_credit L k j n
  paid j _ := by
    rw [List.filter_nil, List.append_nil, paidBy, history_credit]
    rfl
  header j a ha := by rwa [header_credit]
  held j hj := (held_congr (header_credit L k j n)).mpr hj
  opened j a hnone hsome _ := opened_of_header (header_credit L k j n) hnone hsome

/-- Opening an account spends nothing, if a reserved address goes to the owner who is meant
for it. -/
theorem spends_createAccount {owner : K} (h : L.createAccount k mint owner = .ok L')
    (hk : R.address k = true → R.authority owner = true ∧ R.owner k owner = true) :
    Spends R [] L L' := by
  have hheader := header_createAccount h
  obtain ⟨hnone, hL⟩ := createAccount_ok.mp h
  refine ⟨fun j _ => ?_, fun j _ => ?_, fun j a ha => ?_, fun j hj => ?_,
    fun j a hj ha hreserved => ?_⟩
  · exact (balance_createAccount h j).ge
  · rw [List.filter_nil, List.append_nil, hL]
    rfl
  · rw [hheader, if_neg, ha]
    rintro rfl
    rw [hnone] at ha
    cases ha
  · by_cases hjk : j = k
    · subst hjk
      rw [Held, hnone] at hj
      rw [Held, hheader, if_pos rfl]
      exact (hk hj).1
    · exact (held_congr (by rw [hheader, if_neg hjk])).mpr hj
  · rw [hheader] at ha
    split_ifs at ha with hjk
    · subst hjk
      rw [← Option.some.inj ha]
      exact (hk hreserved).2
    · rw [hj] at ha
      cases ha

/-- The transfers out of a held account are among those that the program signs. -/
theorem Spends.paidSince (h : Spends R ms L L') (hk : Held R L k) :
    Ledger.paidSince k L L' = ms.filter fun m => m.source = k := by
  rw [Ledger.paidSince, h.paid k hk, List.drop_left]

theorem act_spends {m : Move K} (h : act R L m = .ok L') : Spends R [] L L' := by
  cases m with
  | pay =>
    simp only [act, bind_ok, require_ok, exists_const] at h
    exact spends_of_outsider h.2 h.1
  | issue account n =>
    rw [← Except.ok.inj h]
    exact spends_credit account n
  | openAccount =>
    simp only [act, bind_ok, require_ok, exists_const] at h
    refine spends_createAccount h.2 fun hreserved => ?_
    rw [h.1] at hreserved
    cases hreserved

end

end OpenFiat.LedgerMoves
