import OpenFiat.GuardedResult
import OpenFiat.FiniteTable

/-!
# A ledger of token accounts

Accounts are named by an arbitrary address type. A transfer needs an existing
source and target of the stated mint, the source's owner as authority, and
enough balance; it then moves exactly the stated amount, and moves nothing when
source and target coincide. The ledger also keeps the list of executed
transfers, oldest first.

`Moved ms L L'` says that the transfers `ms`, in order, lead from `L` to `L'`;
it determines every balance, so later arguments count inflow and outflow of a
list and never unfold a transfer. Creating an account leaves every balance
unchanged. Supplies, delegates and frozen accounts are not modelled.
-/
namespace OpenFiat.TokenLedger
open GuardedResult FiniteTable

structure TokenAccount (K : Type) where
  mint : K
  owner : K
  amount : ℕ
deriving DecidableEq, Repr

structure Transfer (K : Type) where
  source : K
  target : K
  amount : ℕ
deriving DecidableEq, Repr

inductive TransferError (K : Type) where
  | missingAccount (k : K)
  | accountInUse (k : K)
  | insufficientFunds (source : K)
  | mintMismatch
  | ownerMismatch
deriving DecidableEq, Repr

structure Ledger (K : Type) where
  accounts : Table K (TokenAccount K)
  history : List (Transfer K)

namespace Ledger

variable {K : Type} [DecidableEq K]

def balance (L : Ledger K) (k : K) : ℕ := (L.accounts.lookup k).elim 0 (·.amount)

/-- The mint and owner of an account; they never change once it exists. -/
def header (L : Ledger K) (k : K) : Option (K × K) :=
  (L.accounts.lookup k).map fun a => (a.mint, a.owner)

def adjust (L : Ledger K) (k : K) (g : ℕ → ℕ) : Ledger K :=
  match L.accounts.lookup k with
  | some a => { L with accounts := L.accounts.insert k { a with amount := g a.amount } }
  | none => L

/-- Tokens that reach an account from outside the modelled programs. -/
def credit (L : Ledger K) (k : K) (n : ℕ) : Ledger K := L.adjust k (· + n)

def move (L : Ledger K) (src dst : K) (n : ℕ) : Ledger K :=
  { (L.adjust src (· - n)).adjust dst (· + n) with history := L.history ++ [⟨src, dst, n⟩] }

def transfer (L : Ledger K) (src mint dst authority : K) (n : ℕ) :
    Except (TransferError K) (Ledger K) := do
  let a ← load (L.accounts.lookup src) (.missingAccount src)
  let b ← load (L.accounts.lookup dst) (.missingAccount dst)
  require (n ≤ a.amount) (.insufficientFunds src)
  require (a.mint = b.mint) .mintMismatch
  require (a.mint = mint) .mintMismatch
  require (a.owner = authority) .ownerMismatch
  return L.move src dst n

/-- Pay the listed amounts out of one account, skipping the zero ones. -/
def payEach (L : Ledger K) (src mint authority : K) :
    List (K × ℕ) → Except (TransferError K) (Ledger K)
  | [] => .ok L
  | (dst, n) :: rest =>
    if n = 0 then payEach L src mint authority rest
    else do
      let L' ← L.transfer src mint dst authority n
      payEach L' src mint authority rest

def createAccount (L : Ledger K) (k mint owner : K) : Except (TransferError K) (Ledger K) := do
  require (L.accounts.lookup k = none) (.accountInUse k)
  return { L with accounts := L.accounts.insert k ⟨mint, owner, 0⟩ }

theorem lookup_adjust (L : Ledger K) (k k' : K) (g : ℕ → ℕ) :
    (L.adjust k g).accounts.lookup k' = if k' = k
      then (L.accounts.lookup k).map fun a => { a with amount := g a.amount }
      else L.accounts.lookup k' := by
  unfold adjust
  cases h : L.accounts.lookup k with
  | none =>
    split_ifs with hk
    · rw [hk, h, Option.map_none]
    · rfl
  | some => simp [Table.lookup_insert_eq]

theorem balance_adjust (L : Ledger K) (k k' : K) (g : ℕ → ℕ) :
    (L.adjust k g).balance k' = if k' = k ∧ (L.header k).isSome
      then g (L.balance k) else L.balance k' := by
  unfold balance header
  rw [lookup_adjust]
  by_cases hk : k' = k
  · subst hk
    cases h : L.accounts.lookup k' <;> simp
  · simp [hk]

@[simp] theorem header_adjust (L : Ledger K) (k k' : K) (g : ℕ → ℕ) :
    (L.adjust k g).header k' = L.header k' := by
  unfold header
  rw [lookup_adjust]
  split_ifs with hk
  · subst hk
    cases h : L.accounts.lookup k' <;> simp
  · rfl

@[simp] theorem header_credit (L : Ledger K) (k k' : K) (n : ℕ) :
    (L.credit k n).header k' = L.header k' := header_adjust L k k' _

@[simp] theorem history_credit (L : Ledger K) (k : K) (n : ℕ) :
    (L.credit k n).history = L.history := by
  unfold credit adjust
  split <;> rfl

theorem balance_le_credit (L : Ledger K) (k k' : K) (n : ℕ) :
    L.balance k' ≤ (L.credit k n).balance k' := by
  rw [credit, balance_adjust]
  split_ifs with h
  · rw [h.1]
    exact Nat.le_add_right _ n
  · exact le_rfl

variable {L L' : Ledger K} {authority dst k mint owner src : K} {ms : List (Transfer K)} {n : ℕ}
  {shares : List (K × ℕ)}

theorem header_of_lookup {a : TokenAccount K} (h : L.accounts.lookup k = some a) :
    L.header k = some (a.mint, a.owner) := by
  rw [header, h, Option.map_some]

theorem balance_of_lookup {a : TokenAccount K} (h : L.accounts.lookup k = some a) :
    L.balance k = a.amount := by
  rw [balance, h, Option.elim_some]

def outflow (k : K) (ms : List (Transfer K)) : ℕ :=
  (ms.map fun m => if m.source = k then m.amount else 0).sum

def inflow (k : K) (ms : List (Transfer K)) : ℕ :=
  (ms.map fun m => if m.target = k then m.amount else 0).sum

@[simp] theorem outflow_nil (k : K) : outflow k [] = 0 := rfl

@[simp] theorem outflow_cons (k : K) (m : Transfer K) (ms : List (Transfer K)) :
    outflow k (m :: ms) = (if m.source = k then m.amount else 0) + outflow k ms := by
  simp [outflow]

@[simp] theorem outflow_append (k : K) (ms ns : List (Transfer K)) :
    outflow k (ms ++ ns) = outflow k ms + outflow k ns := by
  simp [outflow]

@[simp] theorem inflow_nil (k : K) : inflow k [] = 0 := rfl

@[simp] theorem inflow_cons (k : K) (m : Transfer K) (ms : List (Transfer K)) :
    inflow k (m :: ms) = (if m.target = k then m.amount else 0) + inflow k ms := by
  simp [inflow]

@[simp] theorem inflow_append (k : K) (ms ns : List (Transfer K)) :
    inflow k (ms ++ ns) = inflow k ms + inflow k ns := by
  simp [inflow]

/-- The transfers `ms`, executed in order, lead from `L` to `L'`. -/
structure Moved (ms : List (Transfer K)) (L L' : Ledger K) : Prop where
  history : L'.history = L.history ++ ms
  balance : ∀ k, L'.balance k + outflow k ms = L.balance k + inflow k ms
  header : ∀ k, L'.header k = L.header k

theorem Moved.refl (L : Ledger K) : Moved [] L L :=
  ⟨(List.append_nil _).symm, fun _ => rfl, fun _ => rfl⟩

theorem Moved.trans {ns : List (Transfer K)} {L'' : Ledger K} (h : Moved ms L L')
    (h' : Moved ns L' L'') : Moved (ms ++ ns) L L'' := by
  refine ⟨by rw [h'.history, h.history, List.append_assoc], fun k => ?_, fun k => ?_⟩
  · have h₁ := h.balance k
    have h₂ := h'.balance k
    simp only [outflow_append, inflow_append]
    omega
  · rw [h'.header, h.header]

theorem moved_move (hsrc : (L.header src).isSome) (hdst : (L.header dst).isSome)
    (hn : n ≤ L.balance src) : Moved [⟨src, dst, n⟩] L (L.move src dst n) := by
  refine ⟨rfl, fun k => ?_, fun k => ?_⟩
  · change ((L.adjust src (· - n)).adjust dst (· + n)).balance k + _ = _
    simp only [balance_adjust, header_adjust, hsrc, hdst, and_true, outflow_cons, outflow_nil,
      inflow_cons, inflow_nil, eq_comm (a := k)]
    by_cases hs : src = k
    · subst hs
      by_cases hd : dst = src
      · simp only [hd, if_true]
        omega
      · simp only [hd, if_true, if_false]
        omega
    · by_cases hd : dst = k
      · subst hd
        simp only [hs, Ne.symm hs, if_true, if_false]
        omega
      · simp [hs, hd]
  · change ((L.adjust src (· - n)).adjust dst (· + n)).header k = _
    simp

theorem transfer_ok :
    L.transfer src mint dst authority n = .ok L' ↔
      n ≤ L.balance src ∧ L.header src = some (mint, authority) ∧
        (∃ owner, L.header dst = some (mint, owner)) ∧ L' = L.move src dst n := by
  simp only [transfer, bind_ok, load_ok, require_ok, pure_ok]
  constructor
  · rintro ⟨a, ha, b, hb, -, hn, -, hab, -, hm, -, ho, rfl⟩
    refine ⟨balance_of_lookup ha ▸ hn, ?_, ⟨b.owner, ?_⟩, rfl⟩
    · rw [header_of_lookup ha, hm, ho]
    · rw [header_of_lookup hb, ← hab, hm]
  · rintro ⟨hn, hs, ⟨owner, hd⟩, rfl⟩
    obtain ⟨a, ha, hs⟩ := Option.map_eq_some_iff.mp hs
    obtain ⟨b, hb, hd⟩ := Option.map_eq_some_iff.mp hd
    obtain ⟨rfl, rfl⟩ := Prod.mk.inj hs
    obtain ⟨hab, -⟩ := Prod.mk.inj hd
    rw [balance_of_lookup ha] at hn
    exact ⟨a, ha, b, hb, (), hn, (), hab.symm, (), rfl, (), rfl, rfl⟩

theorem moved_transfer (h : L.transfer src mint dst authority n = .ok L') :
    Moved [⟨src, dst, n⟩] L L' := by
  obtain ⟨hn, hs, ⟨_, hd⟩, rfl⟩ := transfer_ok.mp h
  exact moved_move (Option.isSome_of_eq_some hs) (Option.isSome_of_eq_some hd) hn

/-- Only the account that pays can be reported as short of funds, and then it is. -/
theorem transfer_insufficient
    (h : L.transfer src mint dst authority n = .error (.insufficientFunds k)) :
    k = src ∧ L.balance src < n := by
  simp only [transfer, bind_error, load_error, load_ok, require_error, require_ok, pure_error,
    reduceCtorEq, and_false, false_or, or_false, exists_false] at h
  obtain ⟨a, ha, b, hb, hlt, hk⟩ := h
  cases hk
  rw [balance_of_lookup ha]
  exact ⟨rfl, not_le.mp hlt⟩

def payments (src : K) (shares : List (K × ℕ)) : List (Transfer K) :=
  (shares.filter fun p => p.2 ≠ 0).map fun p => ⟨src, p.1, p.2⟩

omit [DecidableEq K] in
theorem payments_cons_zero (src dst : K) (rest : List (K × ℕ)) :
    payments src ((dst, 0) :: rest) = payments src rest := by
  simp [payments]

omit [DecidableEq K] in
theorem payments_cons_pos (src dst : K) (hn : n ≠ 0) (rest : List (K × ℕ)) :
    payments src ((dst, n) :: rest) = ⟨src, dst, n⟩ :: payments src rest := by
  simp [payments, hn]

theorem le_inflow_payments (h : (dst, n) ∈ shares) : n ≤ inflow dst (payments src shares) := by
  induction shares with
  | nil => cases h
  | cons p rest ih =>
    obtain ⟨d, m⟩ := p
    by_cases hm : m = 0
    · subst hm
      rcases List.mem_cons.mp h with h | h
      · rw [(Prod.mk.inj h).2]
        exact Nat.zero_le _
      · exact ih h
    · rw [payments_cons_pos src d hm, inflow_cons]
      rcases List.mem_cons.mp h with h | h
      · rw [(Prod.mk.inj h).1, (Prod.mk.inj h).2, if_pos rfl]
        exact Nat.le_add_right _ _
      · exact (ih h).trans (Nat.le_add_left _ _)

omit [DecidableEq K] in
theorem sum_payments (src : K) (shares : List (K × ℕ)) :
    ((payments src shares).map (·.amount)).sum = (shares.map Prod.snd).sum := by
  induction shares with
  | nil => rfl
  | cons p rest ih =>
    obtain ⟨dst, n⟩ := p
    by_cases hn : n = 0
    · subst hn
      simp [payments_cons_zero, ih]
    · simp [payments_cons_pos src dst hn, ih]

omit [DecidableEq K] in
theorem source_of_mem_payments {m : Transfer K} (h : m ∈ payments src shares) : m.source = src := by
  simp only [payments, List.mem_map] at h
  obtain ⟨_, _, rfl⟩ := h
  rfl

/-- Transfers out of one account take their whole sum from it and nothing from others. -/
theorem outflow_of_source (h : ∀ m ∈ ms, m.source = src) (k : K) :
    outflow k ms = if k = src then (ms.map (·.amount)).sum else 0 := by
  induction ms with
  | nil => simp
  | cons m ms ih =>
    have hm := h m (List.mem_cons_self ..)
    rw [outflow_cons, ih fun m hm => h m (List.mem_cons_of_mem _ hm), hm]
    by_cases hk : k = src
    · simp [hk]
    · simp [hk, Ne.symm hk]

theorem outflow_payments (src : K) (shares : List (K × ℕ)) (k : K) :
    outflow k (payments src shares) = if k = src then (shares.map Prod.snd).sum else 0 := by
  rw [outflow_of_source (fun m hm => source_of_mem_payments hm), sum_payments]

theorem moved_payEach (h : L.payEach src mint authority shares = .ok L') :
    Moved (payments src shares) L L' := by
  induction shares generalizing L with
  | nil =>
    rw [← Except.ok.inj h]
    exact Moved.refl L
  | cons p rest ih =>
    obtain ⟨dst, n⟩ := p
    by_cases hn : n = 0
    · subst hn
      exact ih (by simpa [payEach] using h)
    · simp only [payEach, if_neg hn, bind_ok] at h
      obtain ⟨L₁, h₁, h₂⟩ := h
      rw [payments_cons_pos src dst hn]
      exact (moved_transfer h₁).trans (ih h₂)

theorem payEach_insufficient
    (h : L.payEach src mint authority shares = .error (.insufficientFunds k)) :
    k = src ∧ L.balance src < (shares.map Prod.snd).sum := by
  induction shares generalizing L with
  | nil => cases h
  | cons p rest ih =>
    obtain ⟨dst, n⟩ := p
    rw [List.map_cons, List.sum_cons]
    by_cases hn : n = 0
    · rw [payEach, if_pos hn] at h
      exact (ih h).imp_right (by omega)
    · rw [payEach, if_neg hn] at h
      rcases (bind_error _ _ _).mp h with h | ⟨L₁, h₁, h₂⟩
      · exact (transfer_insufficient h).imp_right (by omega)
      · obtain ⟨hk, hlt⟩ := ih h₂
        have hb := (moved_transfer h₁).balance src
        simp only [outflow_cons, outflow_nil, inflow_cons, inflow_nil, if_true] at hb
        exact ⟨hk, by omega⟩

theorem createAccount_ok :
    L.createAccount k mint owner = .ok L' ↔ L.header k = none ∧
      L' = { L with accounts := L.accounts.insert k ⟨mint, owner, 0⟩ } := by
  simp only [createAccount, bind_ok, require_ok, pure_ok, exists_const, header,
    Option.map_eq_none_iff, eq_comm (a := L')]

theorem balance_createAccount (h : L.createAccount k mint owner = .ok L') (k' : K) :
    L'.balance k' = L.balance k' := by
  obtain ⟨hnone, rfl⟩ := createAccount_ok.mp h
  simp only [balance, Table.lookup_insert_eq]
  split_ifs with hk
  · rw [hk, Option.map_eq_none_iff.mp hnone]
    rfl
  · rfl

theorem header_createAccount (h : L.createAccount k mint owner = .ok L') (k' : K) :
    L'.header k' = if k' = k then some (mint, owner) else L.header k' := by
  obtain ⟨-, rfl⟩ := createAccount_ok.mp h
  simp only [header, Table.lookup_insert_eq]
  split_ifs <;> rfl

/-- No account of `held` pays anything between `L` and `L'`. -/
structure Kept (held : K → Prop) (L L' : Ledger K) : Prop where
  balance : ∀ k, held k → L.balance k ≤ L'.balance k
  history : ∃ ms, L'.history = L.history ++ ms ∧ ∀ m ∈ ms, ¬ held m.source

section Kept
variable {held : K → Prop} {L L' : Ledger K}

theorem Kept.refl (L : Ledger K) : Kept held L L :=
  ⟨fun _ _ => le_rfl, [], (List.append_nil _).symm, fun _ h => by cases h⟩

theorem outflow_eq_zero (h : ∀ m ∈ ms, m.source ≠ k) : outflow k ms = 0 := by
  induction ms with
  | nil => rfl
  | cons m ms ih =>
    rw [outflow_cons, if_neg (h m (List.mem_cons_self ..)), zero_add]
    exact ih fun m hm => h m (List.mem_cons_of_mem _ hm)

theorem Moved.kept (h : Moved ms L L') (hms : ∀ m ∈ ms, ¬ held m.source) : Kept held L L' := by
  refine ⟨fun k hk => ?_, ms, h.history, hms⟩
  have hout : outflow k ms = 0 := outflow_eq_zero fun m hm he => hms m hm (he ▸ hk)
  have hb := h.balance k
  omega

theorem kept_createAccount (h : L.createAccount k mint owner = .ok L') : Kept held L L' := by
  refine ⟨fun j _ => (balance_createAccount h j).ge, [], ?_, fun _ h => by cases h⟩
  obtain ⟨-, rfl⟩ := createAccount_ok.mp h
  exact (List.append_nil _).symm

theorem kept_credit (L : Ledger K) (k : K) (n : ℕ) : Kept held L (L.credit k n) :=
  ⟨fun j _ => balance_le_credit L k j n, [], by rw [history_credit, List.append_nil],
    fun _ h => by cases h⟩

theorem Kept.trans {L'' : Ledger K} (h : Kept held L L') (h' : Kept held L' L'') :
    Kept held L L'' := by
  obtain ⟨ms, hms, hsrc⟩ := h.history
  obtain ⟨ns, hns, hsrc'⟩ := h'.history
  refine ⟨fun k hk => (h.balance k hk).trans (h'.balance k hk), ms ++ ns, ?_, fun m hm => ?_⟩
  · rw [hns, hms, List.append_assoc]
  · exact (List.mem_append.mp hm).elim (hsrc m) (hsrc' m)

end Kept

def paidBy (L : Ledger K) (src : K) : List (Transfer K) :=
  L.history.filter fun m => m.source = src

/-- The transfers out of `src` by which `L'` extends the record of `L`. -/
def paidSince (src : K) (L L' : Ledger K) : List (Transfer K) :=
  (L'.paidBy src).drop (L.paidBy src).length

theorem paidBy_of_history (h : L'.history = L.history ++ ms) (src : K) :
    L'.paidBy src = L.paidBy src ++ ms.filter fun m => m.source = src := by
  rw [paidBy, h, List.filter_append, paidBy]

theorem paidBy_own (h : L'.history = L.history ++ ms) (hms : ∀ m ∈ ms, m.source = src) :
    L'.paidBy src = L.paidBy src ++ ms := by
  rw [paidBy_of_history h, List.filter_eq_self.mpr fun m hm => decide_eq_true (hms m hm)]

/-- Of transfers out of other accounts followed by transfers out of `src`, only the
latter are payments of `src`. -/
theorem paidBy_append {ns : List (Transfer K)} (h : L'.history = L.history ++ (ms ++ ns))
    (hms : ∀ m ∈ ms, m.source ≠ src) (hns : ∀ m ∈ ns, m.source = src) :
    L'.paidBy src = L.paidBy src ++ ns := by
  have hother : (ms.filter fun m => m.source = src) = [] :=
    List.filter_eq_nil_iff.mpr fun m hm h => hms m hm (of_decide_eq_true h)
  have hown : (ns.filter fun m => m.source = src) = ns :=
    List.filter_eq_self.mpr fun m hm => decide_eq_true (hns m hm)
  rw [paidBy_of_history h, List.filter_append, hother, hown, List.nil_append]

theorem Kept.paidBy {held : K → Prop} (h : Kept held L L') (hk : held k) :
    L'.paidBy k = L.paidBy k := by
  obtain ⟨ms, hms, hsrc⟩ := h.history
  have hnone : ∀ m ∈ ms, m.source ≠ k := fun m hm hm' => hsrc m hm (hm' ▸ hk)
  rw [← List.append_nil ms] at hms
  rw [paidBy_append hms hnone (fun m hm => by cases hm), List.append_nil]

theorem Kept.paidSince {held : K → Prop} (h : Kept held L L') (hk : held k) :
    paidSince k L L' = [] := by
  rw [Ledger.paidSince, h.paidBy hk, List.drop_length]

end Ledger

end OpenFiat.TokenLedger
