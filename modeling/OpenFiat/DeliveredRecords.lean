import OpenFiat.RecordStores
import OpenFiat.TransactionRuns

/-!
# Records that arrive in any order

A store keeps one record under each key. A delivery offers it at most one record, and the store
accepts that record or keeps the one it has. What a replica holds is then a fold over the records
offered for the key, in the order of their arrival: the first one, the last one, or the greatest
one. Only the last of the three does not depend on that order.
-/
namespace OpenFiat.DeliveredRecords
open GuardedResult RecordStores TransactionRuns

section Rules
variable {S L E κ α ι : Type} [DecidableEq κ] [LinearOrder ι] {key : α → κ}

/-- The record on file after one more was offered. -/
def settle (accepts : Option α → α → Bool) (o : Option α) (a : α) : Option α :=
  if accepts o a then some a else o

def first (o : Option α) (_ : α) : Bool := o.isNone

def last (_ : Option α) (_ : α) : Bool := true

def greatest (rank : α → ι) (o : Option α) (a : α) : Bool := o.all fun b => rank b < rank a

/-- A delivery changes nothing but the record under the key of what it offers. -/
def Follows (step : S → L → Except E S) (store : S → RecordStore key) (offer : L → Option α)
    (accepts : Option α → α → Bool) : Prop :=
  ∀ s l, store (apply step s l) = (offer l).elim (store s) fun a =>
    if accepts ((store s).get (key a)) a then (store s).put a else store s

/-- What the deliveries offer for one key, in order. -/
def offered (key : α → κ) (offer : L → Option α) (k : κ) (ls : List L) : List α :=
  ls.filterMap fun l => (offer l).filter (key · = k)

/-- A transaction that checks its input first and then asks whether the store accepts it. -/
theorem apply_check {step : S → L → Except E S} {check : Except E α} {accepted : α → Bool} {e : E}
    {next : α → S} {s : S} {l : L} (h : step s l = do
      let a ← check
      require (accepted a = true) e
      return next a) :
    apply step s l = check.toOption.elim s fun a => if accepted a then next a else s := by
  cases check with
  | error => exact apply_error h
  | ok a =>
    by_cases ha : accepted a = true
    · rw [apply_ok (h.trans ((bind_ok _ _ _).mpr ⟨a, rfl, (bind_ok _ _ _).mpr ⟨(), ?_, rfl⟩⟩))]
      · exact (if_pos ha).symm
      · exact (require_ok _ _ _).mpr ha
    · rw [apply_error (h.trans ((bind_error _ _ _).mpr (.inr ⟨a, rfl, (bind_error _ _ _).mpr
        (.inl ((require_error _ _ _).mpr ⟨ha, rfl⟩))⟩)))]
      exact (if_neg ha).symm

theorem toOption_eq_some {x : Except E α} {a : α} : x.toOption = some a ↔ x = .ok a := by
  cases x <;> simp [Except.toOption]

variable {step : S → L → Except E S} {store : S → RecordStore key} {offer : L → Option α}
  {accepts : Option α → α → Bool} {k : κ} {ls : List L} {a : α}

theorem mem_offered : a ∈ offered key offer k ls ↔ (∃ l ∈ ls, offer l = some a) ∧ key a = k := by
  simp only [offered, List.mem_filterMap, Option.filter_eq_some_iff, decide_eq_true_eq]
  constructor
  · rintro ⟨l, hl, ha, hk⟩
    exact ⟨⟨l, hl, ha⟩, hk⟩
  · rintro ⟨⟨l, hl, ha⟩, hk⟩
    exact ⟨l, hl, ha, hk⟩

theorem Follows.get_apply (h : Follows step store offer accepts) (s : S) (l : L) (k : κ) :
    (store (apply step s l)).get k = ((offer l).filter (key · = k)).elim ((store s).get k)
      (settle accepts ((store s).get k)) := by
  rw [h s l]
  cases offer l with
  | none => rfl
  | some a =>
    rw [Option.elim_some, Option.filter_some]
    by_cases hk : key a = k
    · subst hk
      rw [decide_eq_true rfl, if_pos rfl, Option.elim_some, settle]
      split_ifs
      · rw [RecordStore.get_put, if_pos rfl]
      · rfl
    · rw [decide_eq_false hk, if_neg Bool.false_ne_true, Option.elim_none]
      split_ifs
      · rw [RecordStore.get_put, if_neg (Ne.symm hk)]
      · rfl

theorem Follows.get_run (h : Follows step store offer accepts) (s : S) (ls : List L) :
    (store (run step s ls)).get k =
      (offered key offer k ls).foldl (settle accepts) ((store s).get k) := by
  induction ls generalizing s with
  | nil => rfl
  | cons l ls ih =>
    have hrest := ih (apply step s l)
    rw [h.get_apply] at hrest
    rw [offered, List.filterMap_cons]
    cases hl : (offer l).filter (key · = k) with
    | none | some =>
      rw [hl] at hrest
      exact hrest

theorem foldl_first (l : List α) (o : Option α) : l.foldl (settle first) o = o.or l.head? := by
  induction l generalizing o with
  | nil => rw [List.foldl_nil, List.head?_nil, Option.or_none]
  | cons a l ih =>
    rw [List.foldl_cons, ih]
    cases o <;> rfl

theorem foldl_last (l : List α) (o : Option α) : l.foldl (settle last) o = l.getLast?.or o := by
  induction l using List.reverseRecOn with
  | nil => rfl
  | append_singleton =>
    rw [List.foldl_concat, List.getLast?_concat]
    rfl

/-- The result is the greatest of the records, if there is any. -/
def Greatest (rank : α → ι) (l : List α) (o : Option α) : Prop :=
  o.elim (l = []) fun m => m ∈ l ∧ ∀ b ∈ l, rank b ≤ rank m

theorem greatest_foldl (rank : α → ι) (l : List α) :
    Greatest rank l (l.foldl (settle (greatest rank)) none) := by
  induction l using List.reverseRecOn with
  | nil => rfl
  | append_singleton l a ih =>
    rw [List.foldl_concat]
    generalize l.foldl (settle (greatest rank)) none = o at ih
    cases o with
    | none =>
      obtain rfl : l = [] := ih
      exact ⟨List.mem_singleton_self a, fun b hb => (List.mem_singleton.mp hb ▸ le_refl _)⟩
    | some m =>
      obtain ⟨hm, hmax⟩ := ih
      by_cases hlt : rank m < rank a
      · rw [settle, greatest, Option.all_some, if_pos (decide_eq_true hlt)]
        exact ⟨List.mem_concat_self, List.forall_mem_append.mpr
          ⟨fun b hb => (hmax b hb).trans hlt.le, List.forall_mem_singleton.mpr le_rfl⟩⟩
      · rw [settle, greatest, Option.all_some, decide_eq_false hlt]
        exact ⟨List.mem_append_left _ hm, List.forall_mem_append.mpr
          ⟨hmax, List.forall_mem_singleton.mpr (not_lt.mp hlt)⟩⟩

theorem Greatest.eq_some_iff {rank : α → ι} (hrank : Function.Injective rank) {l : List α}
    {o : Option α} (h : Greatest rank l o) :
    o = some a ↔ a ∈ l ∧ ∀ b ∈ l, rank b ≤ rank a := by
  constructor
  · rintro rfl
    exact h
  · rintro ⟨ha, hmax⟩
    cases o with
    | none =>
      rw [show l = [] from h] at ha
      cases ha
    | some m => rw [hrank (le_antisymm (hmax m h.1) (h.2 a ha))]

/-- Each record that is offered stands in some order. -/
theorem exists_perm_stands (haccepts : accepts = first ∨ accepts = last)
    (ha : a ∈ offered key offer k ls) :
    ∃ ls', ls'.Perm ls ∧ (offered key offer k ls').foldl (settle accepts) none = some a := by
  obtain ⟨l, hl, hoffer⟩ := List.mem_filterMap.mp ha
  obtain ⟨before, after, rfl⟩ := List.append_of_mem hl
  rcases haccepts with rfl | rfl
  · refine ⟨l :: (before ++ after), List.perm_middle.symm, ?_⟩
    rw [foldl_first, offered, List.filterMap_cons, hoffer]
    rfl
  · refine ⟨before ++ after ++ [l], ?_, ?_⟩
    · exact (List.perm_append_singleton l _).trans List.perm_middle.symm
    · rw [foldl_last, offered, List.filterMap_append, List.filterMap_cons, hoffer,
        List.filterMap_nil, List.getLast?_concat]
      rfl

theorem foldl_of_forall_eq (haccepts : accepts = first ∨ accepts = last) {l : List α} (ha : a ∈ l)
    (hsame : ∀ b ∈ l, b = a) : l.foldl (settle accepts) none = some a := by
  rcases haccepts with rfl | rfl
  · rw [foldl_first, Option.none_or, List.head?_eq_some_head (List.ne_nil_of_mem ha),
      hsame _ (List.head_mem _)]
  · rw [foldl_last, Option.or_none, List.getLast?_eq_some_getLast (List.ne_nil_of_mem ha),
      hsame _ (List.getLast_mem _)]

/-- Nothing different is offered for one key. -/
def Unequivocal (key : α → κ) (offer : L → Option α) (ls : List L) : Prop :=
  ∀ l ∈ ls, ∀ l' ∈ ls, ∀ a b, offer l = some a → offer l' = some b → key a = key b → a = b

theorem store_ext {r r' : RecordStore key} (h : ∀ k : κ, r.get k = r'.get k) : r = r' := by
  obtain ⟨records, _⟩ := r
  obtain ⟨records', _⟩ := r'
  obtain rfl : records = records' := Finmap.ext_lookup h
  rfl

/-- All orders leave the same store exactly if nothing different is offered for one key. -/
theorem Follows.order_independent_iff (h : Follows step store offer accepts)
    (haccepts : accepts = first ∨ accepts = last) {s : S} (hs : store s = .empty) :
    (∀ ls₁ ls₂, ls₁.Perm ls → ls₂.Perm ls → store (run step s ls₁) = store (run step s ls₂)) ↔
      Unequivocal key offer ls := by
  have hget (ls : List L) (k : κ) : (store (run step s ls)).get k =
      (offered key offer k ls).foldl (settle accepts) none := by
    rw [h.get_run, hs]
    rfl
  constructor
  · intro hsame l hl l' hl' a b ha hb hkey
    have ha : a ∈ offered key offer (key a) ls := mem_offered.mpr ⟨⟨l, hl, ha⟩, rfl⟩
    have hb : b ∈ offered key offer (key a) ls := mem_offered.mpr ⟨⟨l', hl', hb⟩, hkey.symm⟩
    obtain ⟨ls₁, hperm₁, hstands₁⟩ := exists_perm_stands haccepts ha
    obtain ⟨ls₂, hperm₂, hstands₂⟩ := exists_perm_stands haccepts hb
    rw [← hget, hsame ls₁ ls₂ hperm₁ hperm₂, hget, hstands₂] at hstands₁
    exact (Option.some.inj hstands₁).symm
  · intro hsame ls₁ ls₂ hperm₁ hperm₂
    refine store_ext fun k => ?_
    rw [hget ls₁, hget ls₂]
    have hperm : (offered key offer k ls₁).Perm (offered key offer k ls₂) :=
      (hperm₁.trans hperm₂.symm).filterMap _
    cases hls : offered key offer k ls₁ with
    | nil =>
      rw [hls] at hperm
      rw [← hperm.nil_eq]
    | cons a =>
      have ha : a ∈ offered key offer k ls₁ := hls ▸ List.mem_cons_self
      have heq : ∀ b ∈ offered key offer k ls₁, b = a := by
        intro b hb
        obtain ⟨⟨d, hd, hoffer⟩, rfl⟩ := mem_offered.mp hb
        obtain ⟨⟨d', hd', hoffer'⟩, hkey⟩ := mem_offered.mp ha
        exact hsame d (hperm₁.mem_iff.mp hd) d' (hperm₁.mem_iff.mp hd') b a hoffer hoffer' hkey.symm
      rw [← hls, foldl_of_forall_eq haccepts ha heq, foldl_of_forall_eq haccepts
        (hperm.mem_iff.mp ha) fun b hb => heq b (hperm.mem_iff.mpr hb)]

/-- Where the last record stands, every delivery of the same records leaves the greatest one exactly
if nothing different is offered for one key. -/
theorem Follows.newest_iff (h : Follows step store offer last) {s : S} (hs : store s = .empty)
    (rank : α → ι) :
    (∃ newest : κ → Option α, ∀ k, Greatest rank (offered key offer k ls) (newest k) ∧
      ∀ ls' : List L, (∀ l, l ∈ ls' ↔ l ∈ ls) → (store (run step s ls')).get k = newest k) ↔
      Unequivocal key offer ls := by
  constructor
  · rintro ⟨newest, hnewest⟩
    refine (h.order_independent_iff (.inr rfl) hs).mp fun ls₁ ls₂ hperm₁ hperm₂ => ?_
    refine store_ext fun k => ?_
    rw [(hnewest k).2 ls₁ fun _ => hperm₁.mem_iff, (hnewest k).2 ls₂ fun _ => hperm₂.mem_iff]
  · intro hsame
    have hstands {k : κ} {ls' : List L} (hls' : ∀ l, l ∈ ls' ↔ l ∈ ls) {a : α}
        (ha : a ∈ offered key offer k ls) : (store (run step s ls')).get k = some a := by
      obtain ⟨⟨l, hl, hoffer⟩, hkey⟩ := mem_offered.mp ha
      rw [h.get_run, hs]
      refine foldl_of_forall_eq (.inr rfl)
        (mem_offered.mpr ⟨⟨l, (hls' l).mpr hl, hoffer⟩, hkey⟩) fun b hb => ?_
      obtain ⟨⟨l', hl', hoffer'⟩, hkey'⟩ := mem_offered.mp hb
      exact hsame l' ((hls' l').mp hl') l hl b a hoffer' hoffer (hkey'.trans hkey.symm)
    refine ⟨fun k => (offered key offer k ls).head?, fun k => ?_⟩
    beta_reduce
    cases hoffered : offered key offer k ls with
    | nil =>
      refine ⟨rfl, fun ls' hls' => ?_⟩
      have hempty : offered key offer k ls' = [] := by
        refine List.eq_nil_iff_forall_not_mem.mpr fun b hb => ?_
        obtain ⟨⟨l, hl, hoffer⟩, hkey⟩ := mem_offered.mp hb
        exact List.ne_nil_of_mem (mem_offered.mpr ⟨⟨l, (hls' l).mp hl, hoffer⟩, hkey⟩) hoffered
      rw [h.get_run, hs, hempty]
      rfl
    | cons a =>
      have ha : a ∈ offered key offer k ls := hoffered ▸ List.mem_cons_self
      refine ⟨⟨List.mem_cons_self, fun b hb => ?_⟩, fun ls' hls' => hstands hls' ha⟩
      have hb := hstands (fun _ => .rfl) (hoffered ▸ hb)
      rw [hstands (fun _ => .rfl) ha] at hb
      rw [Option.some.inj hb]

end Rules

section Listings
variable {α ι : Type} [LinearOrder ι] {rank : α → ι} {l : List α}

theorem pairwise_lt_insertionSort (h : l.Pairwise fun a b => rank a ≠ rank b) :
    (l.insertionSort (rank · ≤ rank ·)).Pairwise fun a b => rank a < rank b := by
  have hne : (l.insertionSort (rank · ≤ rank ·)).Pairwise fun a b => rank a ≠ rank b :=
    ((List.perm_insertionSort _ l).pairwise_iff Ne.symm).mpr h
  exact ((List.pairwise_insertionSort _ l).and hne).imp fun h => lt_of_le_of_ne h.1 h.2

end Listings

section Shelves
variable {ι : Type} [LinearOrder ι] {n : ℕ} {s kept kept' : Finset ι} {a m : ι}

/-- The `n` smallest, if there are as many: what is left out lies above a full shelf. -/
structure Smallest (n : ℕ) (s kept : Finset ι) : Prop where
  subset : kept ⊆ s
  card_le : kept.card ≤ n
  left_out : ∀ b ∈ s, b ∉ kept → kept.card = n ∧ ∀ a ∈ kept, a < b

theorem smallest_empty : Smallest n (∅ : Finset ι) ∅ :=
  ⟨subset_rfl, Nat.zero_le n, fun _ hb => absurd hb (Finset.notMem_empty _)⟩

variable (h : Smallest n s kept)
include h

theorem Smallest.unique (h' : Smallest n s kept') : kept = kept' := by
  have hsub {kept kept' : Finset ι} (h : Smallest n s kept) (h' : Smallest n s kept') :
      kept ⊆ kept' := by
    intro b hb
    by_contra hb'
    obtain ⟨hcard, hbelow⟩ := h'.left_out b (h.subset hb) hb'
    -- the other shelf is full without `b`, so it has something that this one left out
    obtain ⟨c, hc, hc'⟩ : ∃ c ∈ kept', c ∉ kept := by
      by_contra hall
      push Not at hall
      have hproper : kept' ⊂ kept := Finset.ssubset_iff_subset_ne.mpr
        ⟨hall, fun heq => hb' (heq ▸ hb)⟩
      have hlt := Finset.card_lt_card hproper
      have hle := h.card_le
      omega
    have hbc := (h.left_out c (h'.subset hc) hc').2 b hb
    exact absurd (hbelow c hc) hbc.not_gt
  exact (hsub h h').antisymm (hsub h' h)

/-! One more arrives: it was there, it finds room, it is above a full shelf, or it takes the place
of the largest. -/

theorem Smallest.same (ha : a ∈ kept) : Smallest n (insert a s) kept :=
  ⟨h.subset.trans (Finset.subset_insert a s), h.card_le, fun b hb hb' =>
    h.left_out b (Finset.mem_of_mem_insert_of_ne hb fun heq => hb' (heq ▸ ha)) hb'⟩

theorem Smallest.room (ha : a ∉ kept) (hroom : kept.card < n) :
    Smallest n (insert a s) (insert a kept) := by
  refine ⟨Finset.insert_subset_insert a h.subset, ?_, fun b hb hb' => ?_⟩
  · rw [Finset.card_insert_of_notMem ha]
    exact hroom
  · obtain ⟨hne, hb'⟩ := not_or.mp (mt Finset.mem_insert.mpr hb')
    exact absurd (h.left_out b (Finset.mem_of_mem_insert_of_ne hb hne) hb').1 hroom.ne

theorem Smallest.refused (hfull : kept.card = n)
    (habove : ∀ b ∈ kept, b < a) : Smallest n (insert a s) kept := by
  refine ⟨h.subset.trans (Finset.subset_insert a s), h.card_le, fun b hb hb' => ?_⟩
  rcases Finset.mem_insert.mp hb with rfl | hb
  · exact ⟨hfull, habove⟩
  · exact h.left_out b hb hb'

theorem Smallest.displaced (ha : a ∉ kept) (hfull : kept.card = n)
    (hm : m ∈ kept) (hmax : ∀ b ∈ kept, b ≤ m) (hlt : a < m) :
    Smallest n (insert a s) (insert a (kept.erase m)) := by
  have hcard : (insert a (kept.erase m)).card = n := by
    rw [Finset.card_insert_of_notMem fun h => ha (Finset.mem_of_mem_erase h),
      Finset.card_erase_add_one hm, hfull]
  refine ⟨Finset.insert_subset_insert a ((Finset.erase_subset m kept).trans h.subset), hcard.le,
    fun b hb hb' => ⟨hcard, fun c hc => ?_⟩⟩
  obtain ⟨hne, hb'⟩ := not_or.mp (mt Finset.mem_insert.mpr hb')
  have hmb : m ≤ b := by
    by_contra hlt
    have hb' : b ∉ kept := fun hkept =>
      hb' (Finset.mem_erase.mpr ⟨(not_le.mp hlt).ne, hkept⟩)
    exact hlt ((h.left_out b (Finset.mem_of_mem_insert_of_ne hb hne) hb').2 m hm).le
  rcases Finset.mem_insert.mp hc with rfl | hc
  · exact hlt.trans_le hmb
  · obtain ⟨hcm, hc⟩ := Finset.mem_erase.mp hc
    exact ((hmax c hc).lt_of_ne hcm).trans_le hmb

end Shelves

end OpenFiat.DeliveredRecords
