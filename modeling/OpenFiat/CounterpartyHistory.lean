import OpenFiat.CheckedFolds
import OpenFiat.DeliveredRecords
import OpenFiat.PeerDiscovery
import OpenFiat.TradeView
import Mathlib.Data.Prod.Lex

/-!
# Counterparty history

Whom a wallet has dealt with, folded from the settlements that a node holds. One fold groups all of
a wallet's settlements by the other party, another one goes over the settlements of a single pair.
Both count in 32 bits, so the history is exact as long as no two wallets have settled too often.
-/
namespace OpenFiat.CounterpartyHistory
open CheckedFolds FiniteTable NodePayloads RecordStores TradingNode
open PeerDiscovery (peerId_bytes_injective)
open TradeView (settlementId_injective)

structure CounterpartySummary where
  counterparty : PeerId
  trades : ℕ
  inProgress : ℕ
  abandoned : ℕ
  disputed : ℕ
  lastTradedAt : Option Timestamp
deriving DecidableEq

namespace CounterpartySummary

def empty (counterparty : PeerId) : CounterpartySummary := ⟨counterparty, 0, 0, 0, 0, none⟩

/-- One more settlement, in numbers without a bound. -/
def add (s : CounterpartySummary) (settlement : Settlement) : CounterpartySummary :=
  let s := match settlement.state with
    | .approved | .completed =>
      let concludedAt := settlement.merchantRespondedAt.getD settlement.updatedAt
      { s with
        trades := s.trades + 1
        lastTradedAt := some (s.lastTradedAt.elim concludedAt (max · concludedAt)) }
    | .awaitingPayment | .paymentSubmitted | .disputed => { s with inProgress := s.inProgress + 1 }
    | .rejected | .cancelled => { s with abandoned := s.abandoned + 1 }
  if settlement.disputedAt.isSome then { s with disputed := s.disputed + 1 } else s

/-- Every count fits its 32 bits. -/
def Fits (s : CounterpartySummary) : Prop :=
  s.trades < 2 ^ 32 ∧ s.inProgress < 2 ^ 32 ∧ s.abandoned < 2 ^ 32 ∧ s.disputed < 2 ^ 32

instance (s : CounterpartySummary) : Decidable s.Fits := inferInstanceAs (Decidable (_ ∧ _))

/-- A count that overflows aborts the call. -/
def record (s : CounterpartySummary) (settlement : Settlement) : Option CounterpartySummary :=
  checked Fits add s settlement

/-- Most trades first, then the most recent, then by the bytes of the other party. -/
def rank (s : CounterpartySummary) : (ℕ ×ₗ ℕ)ᵒᵈ ×ₗ List ℕ :=
  toLex (OrderDual.toDual (toLex (s.trades, s.lastTradedAt.getD 0)),
    s.counterparty.bytes.map UInt8.toNat)

end CounterpartySummary

open CounterpartySummary (empty)

abbrev Settlements := Table SettlementId Settlement

def all (r : Settlements) : List Settlement :=
  (r.inOrder SettlementId.id settlementId_injective).map Prod.snd

def counterpartyOf (settlement : Settlement) (wallet : PeerId) : Option PeerId :=
  if settlement.buyer = settlement.seller then none
  else if settlement.buyer = wallet then some settlement.seller
  else if settlement.seller = wallet then some settlement.buyer
  else none

def group (wallet : PeerId) (t : Table PeerId CounterpartySummary) (settlement : Settlement) :
    Option (Table PeerId CounterpartySummary) :=
  match counterpartyOf settlement wallet with
  | none => some t
  | some c => (((t.lookup c).getD (empty c)).record settlement).map (t.insert c)

def forWallet (r : Settlements) (wallet : PeerId) : Option (List CounterpartySummary) := do
  let t ← (all r).foldlM (group wallet) ∅
  return ((t.inOrder _ peerId_bytes_injective).map Prod.snd).insertionSort (·.rank ≤ ·.rank)

def pair (r : Settlements) (wallet counterparty : PeerId) : Option CounterpartySummary :=
  if wallet = counterparty then some (empty counterparty)
  else (all r).foldlM (fun s settlement =>
    if counterpartyOf settlement wallet = some counterparty then s.record settlement else some s)
    (empty counterparty)

/-- The settlements of two different wallets with each other. -/
def Between (w c : PeerId) (s : Settlement) : Prop :=
  w ≠ c ∧ (s.buyer = w ∧ s.seller = c ∨ s.buyer = c ∧ s.seller = w)

instance (w c : PeerId) (s : Settlement) : Decidable (Between w c s) :=
  inferInstanceAs (Decidable (_ ∧ _))

def between (w c : PeerId) (l : List Settlement) : List Settlement := l.filter (Between w c ·)

def summary (w c : PeerId) (l : List Settlement) : CounterpartySummary :=
  (between w c l).foldl CounterpartySummary.add (empty c)

section Counting
variable {s : CounterpartySummary} {x : Settlement} {l : List Settlement} {w c : PeerId}

theorem counterpartyOf_eq_some : counterpartyOf x w = some c ↔ Between w c x := by
  unfold counterpartyOf Between
  split_ifs with hself hbuyer hseller
  · grind
  · grind
  · grind
  · grind

theorem counterparty_add : (s.add x).counterparty = s.counterparty := by
  simp only [CounterpartySummary.add]
  split_ifs <;> cases x.state <;> rfl

/-- Each settlement falls in exactly one of the three buckets. -/
theorem buckets_add : (s.add x).trades + (s.add x).inProgress + (s.add x).abandoned =
    s.trades + s.inProgress + s.abandoned + 1 := by
  simp only [CounterpartySummary.add]
  split_ifs <;> cases x.state <;> simp only <;> omega

theorem le_add : s.trades ≤ (s.add x).trades ∧ s.inProgress ≤ (s.add x).inProgress ∧
    s.abandoned ≤ (s.add x).abandoned ∧ s.disputed ≤ (s.add x).disputed ∧
      (s.add x).disputed ≤ s.disputed + 1 := by
  simp only [CounterpartySummary.add]
  split_ifs <;> cases x.state <;> simp

theorem fits_of_add (h : (s.add x).Fits) : s.Fits := by
  obtain ⟨htrades, hprogress, habandoned, hdisputed, -⟩ : _ := le_add (s := s) (x := x)
  exact ⟨htrades.trans_lt h.1, hprogress.trans_lt h.2.1, habandoned.trans_lt h.2.2.1,
    hdisputed.trans_lt h.2.2.2⟩

theorem foldl_add (l : List Settlement) (s : CounterpartySummary) :
    let t := l.foldl CounterpartySummary.add s
    t.counterparty = s.counterparty ∧
      t.trades + t.inProgress + t.abandoned = s.trades + s.inProgress + s.abandoned + l.length ∧
      t.disputed ≤ s.disputed + l.length := by
  induction l generalizing s with
  | nil => simp
  | cons x l ih =>
    obtain ⟨hcounterparty, hbuckets, hdisputed⟩ := ih (s.add x)
    rw [buckets_add] at hbuckets
    have hle := (le_add (s := s) (x := x)).2.2.2.2
    refine ⟨hcounterparty.trans counterparty_add, ?_, ?_⟩ <;>
      simp only [List.foldl_cons, List.length_cons] <;> omega

theorem fits_empty (c : PeerId) : (empty c).Fits := by
  simp [CounterpartySummary.Fits, empty]

theorem pair_eq (r : Settlements) (w c : PeerId) : pair r w c =
    if (summary w c (all r)).Fits then some (summary w c (all r)) else none := by
  rw [pair, summary, ← foldlM_checked (fun _ _ => fits_of_add) (fits_empty c), between]
  by_cases hself : w = c
  · simp [hself, Between]
  · rw [if_neg hself]
    refine foldlM_eq_filter (fun s x => ?_) _ _
    simp only [counterpartyOf_eq_some, decide_eq_true_eq]
    rfl

theorem between_concat : between w c (l ++ [x]) =
    if Between w c x then between w c l ++ [x] else between w c l := by
  by_cases hx : Between w c x <;> simp [between, hx]

/-- The wallets that a fold over the settlements has grouped, each with its own summary. -/
theorem foldlM_group (h : ∀ c, (summary w c l).Fits) : ∃ t, l.foldlM (group w) ∅ = some t ∧
    ∀ c, t.lookup c = if between w c l = [] then none else some (summary w c l) := by
  induction l using List.reverseRecOn with
  | nil => exact ⟨∅, rfl, fun c => by simp [between]⟩
  | append_singleton l x ih =>
    have hsummary (c : PeerId) : summary w c (l ++ [x]) =
        if Between w c x then (summary w c l).add x else summary w c l := by
      rw [summary, between_concat]
      split_ifs
      · rw [List.foldl_concat, summary]
      · rfl
    obtain ⟨t, hfold, hlookup⟩ := ih fun c => by
      have hfits := h c
      rw [hsummary] at hfits
      split_ifs at hfits
      · exact fits_of_add hfits
      · exact hfits
    rw [List.foldlM_append, hfold]
    simp only [Option.bind_eq_bind, Option.bind_some, List.foldlM_cons, List.foldlM_nil, group]
    cases hparty : counterpartyOf x w with
    | none =>
      have hno (c : PeerId) : ¬ Between w c x := by
        rw [← counterpartyOf_eq_some, hparty]
        exact Option.some_ne_none c ∘ Eq.symm
      exact ⟨t, rfl, fun c => by
        rw [hsummary, between_concat, if_neg (hno c), if_neg (hno c), hlookup]⟩
    | some d =>
      have hd : Between w d x := counterpartyOf_eq_some.mp hparty
      have hold : (t.lookup d).getD (empty d) = summary w d l := by
        rw [hlookup]
        split_ifs with hempty
        · rw [summary, hempty]
          rfl
        · rfl
      have hfits := h d
      rw [hsummary, if_pos hd] at hfits
      refine ⟨t.insert d ((summary w d l).add x), ?_, fun c => ?_⟩
      · simp [hold, CounterpartySummary.record, checked, hfits]
      · rw [Table.lookup_insert_eq, hsummary, between_concat]
        by_cases hc : c = d
        · simp [hc, hd]
        · have hno : ¬ Between w c x := by
            rw [← counterpartyOf_eq_some, hparty]
            exact fun heq => hc (Option.some.inj heq).symm
          rw [if_neg hc, if_neg hno, if_neg hno, hlookup]

theorem summary_symm (w c : PeerId) (l : List Settlement) :
    summary c w l = { summary w c l with counterparty := w } := by
  have hsame : between c w l = between w c l := by
    refine List.filter_congr fun x _ => decide_eq_decide.mpr ?_
    unfold Between
    grind
  have hadd (l : List Settlement) (s : CounterpartySummary) (d : PeerId) :
      l.foldl CounterpartySummary.add { s with counterparty := d } =
        { l.foldl CounterpartySummary.add s with counterparty := d } := by
    induction l generalizing s with
    | nil => rfl
    | cons x l ih =>
      rw [List.foldl_cons, List.foldl_cons, ← ih]
      simp only [CounterpartySummary.add]
      split_ifs <;> cases x.state <;> rfl
  rw [summary, hsame, summary, ← hadd]
  rfl

theorem fits_summary (h : (between w c l).length < 2 ^ 32) : (summary w c l).Fits := by
  obtain ⟨-, hbuckets, hdisputed⟩ := foldl_add (between w c l) (empty c)
  unfold CounterpartySummary.Fits summary
  simp only [empty] at hbuckets hdisputed ⊢
  omega

end Counting

/-- The two registries have the same settlements of the wallet. -/
def AgreeOn (w : PeerId) (r r' : Settlements) : Prop :=
  ∀ id s, s.buyer = w ∨ s.seller = w → (r.lookup id = some s ↔ r'.lookup id = some s)

theorem filter_all_eq {w : PeerId} {r r' : Settlements} (h : AgreeOn w r r') :
    (all r).filter (fun x => (counterpartyOf x w).isSome) =
      (all r').filter fun x => (counterpartyOf x w).isSome := by
  let p : SettlementId × Settlement → Bool := fun e => (counterpartyOf e.2 w).isSome
  have hsorted (r : Settlements) : ((r.inOrder _ settlementId_injective).filter p).Pairwise
      fun e e' => e.1.id < e'.1.id := by
    refine (((pairwise_le_inOrder r).and (Table.pairwise_inOrder r)).imp fun he => ?_).filter p
    exact lt_of_le_of_ne he.1 fun heq => he.2 (settlementId_injective heq)
  have hparty {x : Settlement} (hx : (counterpartyOf x w).isSome = true) :
      x.buyer = w ∨ x.seller = w := by
    obtain ⟨c, hc⟩ := Option.isSome_iff_exists.mp hx
    rcases (counterpartyOf_eq_some.mp hc).2 with h | h
    · exact .inl h.1
    · exact .inr h.2
  have hlisting (r : Settlements) (e : SettlementId × Settlement) :
      e ∈ r.inOrder _ settlementId_injective ↔ r.lookup e.1 = some e.2 :=
    ⟨Table.lookup_of_mem_inOrder, Table.mem_inOrder⟩
  have hrows := Table.eq_of_ascending _ (hsorted r) (hsorted r') fun e => by
    rw [List.mem_filter, List.mem_filter, hlisting, hlisting]
    exact and_congr_left fun he => h e.1 e.2 (hparty he)
  simp only [all, List.filter_map]
  exact congrArg _ hrows

/-- As long as a wallet has settled fewer than 2³² times with each other one, its history lists
every counterparty once, with the summary of the pair; the summary counts the settlements of the
pair, is the same from both sides, and no settlement of others has a part in it. -/
theorem history_exact (r : Settlements) (w : PeerId)
    (hsmall : ∀ c, (between w c (all r)).length < 2 ^ 32) :
    (∃ summaries, forWallet r w = some summaries ∧ (summaries.map (·.counterparty)).Nodup ∧
      (∀ c, c ∈ summaries.map (·.counterparty) ↔ between w c (all r) ≠ []) ∧
      ∀ s ∈ summaries, pair r w s.counterparty = some s) ∧
    (∀ c, ∃ p, pair r w c = some p ∧ p.counterparty = c ∧
      p.trades + p.inProgress + p.abandoned = (between w c (all r)).length ∧
      pair r c w = some { p with counterparty := w }) ∧
    ∀ r', AgreeOn w r r' → forWallet r' w = forWallet r w := by
  have hfits (c : PeerId) : (summary w c (all r)).Fits := fits_summary (hsmall c)
  have hpair (c : PeerId) : pair r w c = some (summary w c (all r)) := by
    rw [pair_eq, if_pos (hfits c)]
  have hname (c : PeerId) : (summary w c (all r)).counterparty = c := (foldl_add _ (empty c)).1
  refine ⟨?_, fun c => ⟨_, hpair c, hname c, ?_, ?_⟩, fun r' hagree => ?_⟩
  · obtain ⟨t, hfold, hlookup⟩ := foldlM_group hfits
    have hrow (e : PeerId × CounterpartySummary) : e ∈ t.inOrder _ peerId_bytes_injective ↔
        between w e.1 (all r) ≠ [] ∧ e.2 = summary w e.1 (all r) := by
      rw [show e ∈ t.inOrder _ peerId_bytes_injective ↔ t.lookup e.1 = some e.2 from
        ⟨Table.lookup_of_mem_inOrder, Table.mem_inOrder⟩, hlookup]
      split_ifs with hnone <;> simp [hnone, eq_comm]
    have hperm := List.perm_insertionSort (fun a b : CounterpartySummary => a.rank ≤ b.rank)
      ((t.inOrder _ peerId_bytes_injective).map Prod.snd)
    have hnames : (((t.inOrder _ peerId_bytes_injective).map Prod.snd).insertionSort
        (·.rank ≤ ·.rank) |>.map (·.counterparty)).Perm
          ((t.inOrder _ peerId_bytes_injective).map Prod.fst) := by
      refine (hperm.map _).trans (List.Perm.of_eq ?_)
      rw [List.map_map]
      refine List.map_congr_left fun e he => ?_
      rw [Function.comp_apply, ((hrow e).mp he).2, hname]
    refine ⟨_, by rw [forWallet, hfold]; rfl, ?_, fun c => ?_, fun s hs => ?_⟩
    · rw [hnames.nodup_iff]
      exact List.pairwise_map.mpr (Table.pairwise_inOrder t)
    · rw [hnames.mem_iff, List.mem_map]
      constructor
      · rintro ⟨e, he, rfl⟩
        exact ((hrow e).mp he).1
      · intro hc
        exact ⟨(c, summary w c (all r)), (hrow _).mpr ⟨hc, rfl⟩, rfl⟩
    · obtain ⟨e, he, rfl⟩ := List.mem_map.mp (hperm.mem_iff.mp hs)
      rw [((hrow e).mp he).2, hname, hpair]
  · exact (foldl_add _ (empty c)).2.1.trans (by simp [empty])
  · have hfits' := hfits c
    rw [pair_eq, summary_symm, if_pos]
    exact hfits'
  · have hfold (r : Settlements) : (all r).foldlM (group w) ∅ =
        ((all r).filter fun x => (counterpartyOf x w).isSome).foldlM (group w) ∅ := by
      refine foldlM_eq_filter (fun t x => ?_) _ _
      cases hx : counterpartyOf x w with
      | none => simp [group, hx]
      | some => simp
    rw [forWallet, forWallet, hfold r, hfold r', filter_all_eq hagree]

namespace Flooded

def trade : Settlement :=
  SettlementRegistry.newSettlement
    ⟨⟨""⟩, ⟨"reservation"⟩, peer 1, .filled 1, peer 2, .filled 2, .new 1 6, 0⟩

def tradeId (i : ℕ) : SettlementId := ⟨String.ofList (List.replicate i 'x')⟩

theorem tradeId_injective : Function.Injective tradeId := by
  intro i j h
  have hlength := congrArg (fun id : SettlementId => id.id.toList.length) h
  simpa [tradeId] using hlength

def flooded (N : ℕ) : Settlements :=
  (List.range N).foldl (fun r i => r.insert (tradeId i) trade) ∅

theorem lookup_flooded {N i : ℕ} (hi : i < N) : (flooded N).lookup (tradeId i) = some trade := by
  induction N with
  | zero => omega
  | succ N ih =>
    rw [flooded, List.range_succ, List.foldl_concat, Table.lookup_insert_eq]
    split_ifs with heq
    · rfl
    · exact ih (Nat.lt_of_le_of_ne (Nat.le_of_lt_succ hi) fun h => heq (h ▸ rfl))

theorem length_between_flooded (N : ℕ) :
    N ≤ (between (peer 1) (peer 2) (all (flooded N))).length := by
  have hparties : Between (peer 1) (peer 2) trade := by decide
  have hnodup : ((List.range N).map fun i => (tradeId i, trade)).Nodup :=
    List.nodup_range.map fun i j h => tradeId_injective (Prod.mk.inj h).1
  have hsub : ((List.range N).map fun i => (tradeId i, trade)) ⊆
      ((flooded N).inOrder _ settlementId_injective).filter
        (fun e => Between (peer 1) (peer 2) e.2) := by
    intro e he
    obtain ⟨i, hi, rfl⟩ := List.mem_map.mp he
    exact List.mem_filter.mpr
      ⟨Table.mem_inOrder (lookup_flooded (List.mem_range.mp hi)), decide_eq_true hparties⟩
  have hle := (List.subperm_of_subset hnodup hsub).length_le
  rw [List.length_map, List.length_range] at hle
  rw [between, all, List.filter_map, List.length_map]
  exact hle

theorem pair_flooded {N : ℕ} (hN : 3 * 2 ^ 32 ≤ N) :
    pair (flooded N) (peer 1) (peer 2) = none := by
  have hlength := length_between_flooded N
  obtain ⟨-, hbuckets, -⟩ :=
    foldl_add (between (peer 1) (peer 2) (all (flooded N))) (empty (peer 2))
  rw [pair_eq, if_neg]
  rintro ⟨htrades, hprogress, habandoned, -⟩
  rw [summary] at htrades hprogress habandoned
  omega

end Flooded

open Flooded in
/-- Among three times 2³² settlements of two wallets one of the counts overflows, and their history
cannot be computed. -/
theorem history_overflows : pair (flooded (3 * 2 ^ 32)) (peer 1) (peer 2) = none :=
  pair_flooded le_rfl

open Flooded in
/-- Two settlements with one wallet and one with another. -/
def mixed : Settlements := (flooded 2).insert (tradeId 2) { trade with seller := peer 3 }

theorem history_exact_mixed : ∃ summaries, forWallet mixed (peer 1) = some summaries ∧
    (summaries.map (·.counterparty)).Nodup ∧ summaries.length = 2 := by
  have hsmall (c : PeerId) : (between (peer 1) c (all mixed)).length < 2 ^ 32 :=
    (List.length_filter_le _ _).trans_lt (by decide +kernel)
  obtain ⟨⟨summaries, hsummaries, hnodup, -⟩, -⟩ := history_exact mixed (peer 1) hsmall
  have hlength : (forWallet mixed (peer 1)).map List.length = some 2 := by decide +kernel
  rw [hsummaries, Option.map_some, Option.some.injEq] at hlength
  exact ⟨summaries, hsummaries, hnodup, hlength⟩

end OpenFiat.CounterpartyHistory
