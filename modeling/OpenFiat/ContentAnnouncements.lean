import OpenFiat.BlockDag
import OpenFiat.BoundedWalk

/-!
# What the DHT is told

A node announces the roots that it wants and holds completely, and withdraws what it announced
before and holds no longer. It takes a root for complete if a walk over the blocks that it holds
finds none missing. The walk ends after `maxDagBlocks` blocks, and a node whose links cannot be
read has none for it, so only of roots within these bounds the announcement is true.

The node compares identifiers, while the DHT files providers under multihashes: withdrawing one
identifier also withdraws the others with its multihash.
-/
namespace OpenFiat.ContentAnnouncements
open BitswapMessages BlockDag BoundedWalk ContentIds WireFields

section Blocks
variable (held : Cid → Option Bytes)

/-- The links of a block as far as it is held, chunked and readable. -/
def children (cid : Cid) : List Cid :=
  match held cid with
  | none => []
  | some block => if isChunked cid then (links block).getD [] else []

/-- The walk remembers the texts of identifiers, and an identifier is its text. -/
def missingBlocks (root : Cid) : List Cid :=
  (walk (children held) maxDagBlocks [root] [root]).filter fun cid => (held cid).isNone

/-- Whether a block is held and, if it is chunked, lists its links. -/
def Readable (cid : Cid) : Prop :=
  ∃ block, held cid = some block ∧ (isChunked cid = true → (links block).isSome = true)

/-- All blocks under a root are held. -/
def Complete (root : Cid) : Prop := ∀ cid, Reaches (children held) root cid → Readable held cid

/-- As far as it is held, the dag has no more blocks than a walk visits, and its links can be
read. -/
structure Walkable (root : Cid) : Prop where
  bounded : ∃ bound : Finset Cid, bound.card ≤ maxDagBlocks ∧
    ∀ cid, Reaches (children held) root cid → cid ∈ bound
  readable : ∀ cid, Reaches (children held) root cid → held cid ≠ none → Readable held cid

variable {held} {root : Cid}

theorem missingBlocks_eq_nil_iff (h : Walkable held root) :
    missingBlocks held root = [] ↔ Complete held root := by
  obtain ⟨bound, hcard, hbound⟩ := h.bounded
  simp only [missingBlocks, List.filter_eq_nil_iff, mem_walk_iff hcard hbound,
    Option.isNone_iff_eq_none]
  constructor
  · intro hheld cid hcid
    exact h.readable cid hcid (hheld cid hcid)
  · rintro hcomplete cid hcid hnone
    obtain ⟨block, hblock, -⟩ := hcomplete cid hcid
    cases hnone.symm.trans hblock

end Blocks

/-- What follows the version and the codec. -/
def multihash (cid : Cid) : List UInt8 :=
  (((readVarint 9 cid.toBinary).bind fun r => readVarint 9 r.2).map Prod.snd).getD []

/-- The identifiers that the node has announced, and the keys that the DHT has from it. -/
structure Announcer where
  contentProvided : Finset Cid
  dht : Finset (List UInt8)

/-- What the node holds and wants when it announces. -/
structure Call where
  held : Cid → Option Bytes
  wanted : List Cid

def Call.complete (c : Call) : Finset Cid :=
  (c.wanted.filter fun cid => (missingBlocks c.held cid).isEmpty).toFinset

/-- The state after a call, how many records were announced and how many withdrawn. -/
def announceHeldContent (s : Announcer) (c : Call) : Announcer × ℕ × ℕ :=
  if c.complete = s.contentProvided then (s, 0, 0)
  else
    let announced := c.complete \ s.contentProvided
    let withdrawn := s.contentProvided \ c.complete
    (⟨c.complete, (s.dht ∪ announced.image multihash) \ withdrawn.image multihash⟩,
      announced.card, withdrawn.card)

/-- The state after a sequence of calls, the latest of which comes first. -/
def stateAfter : List Call → Announcer
  | [] => ⟨∅, ∅⟩
  | c :: earlier => (announceHeldContent (stateAfter earlier) c).1

/-- What can be served: a wanted root of which every block is held. -/
def Call.Serves (c : Call) (cid : Cid) : Prop := cid ∈ c.wanted ∧ Complete c.held cid

/-- After every call the DHT has the keys of what can be served. -/
def Exact : List Call → Prop
  | [] => True
  | c :: earlier => Exact earlier ∧ ∀ key,
    key ∈ (stateAfter (c :: earlier)).dht ↔ ∃ cid, c.Serves cid ∧ multihash cid = key

/-- From one call to the next, no root ceases to be served that shares its multihash with one that
is served. -/
def Apart : List Call → Prop
  | [] => True
  | [_] => True
  | c :: previous :: earlier => Apart (previous :: earlier) ∧ ∀ gone cid, previous.Serves gone →
    ¬ c.Serves gone → c.Serves cid → multihash gone ≠ multihash cid

section Calls
variable {s : Announcer} {c : Call}

theorem mem_complete (h : ∀ root ∈ c.wanted, Walkable c.held root) {cid : Cid} :
    cid ∈ c.complete ↔ c.Serves cid := by
  simp only [Call.complete, Call.Serves, List.mem_toFinset, List.mem_filter, List.isEmpty_iff]
  exact and_congr_right fun hcid => missingBlocks_eq_nil_iff (h cid hcid)

theorem contentProvided_announce (s : Announcer) (c : Call) :
    (announceHeldContent s c).1.contentProvided = c.complete := by
  unfold announceHeldContent
  split_ifs with hsame
  · exact hsame.symm
  · rfl

theorem dht_announce (h : s.dht = s.contentProvided.image multihash) (c : Call) :
    (announceHeldContent s c).1.dht =
      c.complete.image multihash \ (s.contentProvided \ c.complete).image multihash := by
  unfold announceHeldContent
  split_ifs with hsame
  · rw [h, hsame, Finset.sdiff_self, Finset.image_empty, Finset.sdiff_empty]
  · simp only [h, ← Finset.image_union, Finset.union_sdiff_self_eq_union]
    rw [Finset.union_comm, ← Finset.union_sdiff_self_eq_union, Finset.image_union,
      Finset.union_sdiff_right]

theorem forall_key_iff (h : ∀ root ∈ c.wanted, Walkable c.held root) {keys : Finset (List UInt8)} :
    (∀ key, key ∈ keys ↔ ∃ cid, c.Serves cid ∧ multihash cid = key) ↔
      keys = c.complete.image multihash := by
  simp only [Finset.ext_iff, Finset.mem_image, mem_complete h]

theorem disjoint_withdrawn_iff {previous : Call} (h : ∀ root ∈ c.wanted, Walkable c.held root)
    (h' : ∀ root ∈ previous.wanted, Walkable previous.held root) :
    Disjoint (c.complete.image multihash)
        ((previous.complete \ c.complete).image multihash) ↔
      ∀ gone cid, previous.Serves gone → ¬ c.Serves gone → c.Serves cid →
        multihash gone ≠ multihash cid := by
  simp only [Finset.disjoint_left, Finset.mem_image, Finset.mem_sdiff, mem_complete h,
    mem_complete h', not_exists, not_and, and_imp]
  constructor
  · intro hdisjoint gone cid hgone hended hcid
    exact hdisjoint ⟨cid, hcid, rfl⟩ gone hgone hended
  · rintro hapart _ ⟨cid, hcid, rfl⟩ gone hgone hended
    exact hapart gone cid hgone hended hcid

end Calls

/-- Where every wanted root can be walked over, the DHT is told exactly what can be served if and
only if no root is withdrawn that shares its multihash with one that is served. -/
theorem dht_exact_iff (calls : List Call)
    (h : ∀ c ∈ calls, ∀ root ∈ c.wanted, Walkable c.held root) : Exact calls ↔ Apart calls := by
  induction calls with
  | nil => exact Iff.rfl
  | cons c earlier ih =>
    have hc := h c List.mem_cons_self
    have hearlier := fun c' hc' => h c' (List.mem_cons_of_mem _ hc')
    rw [Exact, forall_key_iff hc, ih hearlier, stateAfter]
    cases earlier with
    | nil =>
      rw [dht_announce rfl]
      simp [stateAfter, Apart]
    | cons previous earlier =>
      rw [Apart]
      refine and_congr_right fun hapart => ?_
      have hprevious := hearlier previous List.mem_cons_self
      have hexact := (forall_key_iff hprevious).mp ((ih hearlier).mpr hapart).2
      rw [← contentProvided_announce (stateAfter earlier) previous] at hexact
      rw [dht_announce hexact, sdiff_eq_left, stateAfter, contentProvided_announce]
      exact disjoint_withdrawn_iff hc hprevious

namespace EmptyBlock

def raw : Cid := ⟨"bafkreihdwdcefgh4dqkjv67uzcmw7ojee6xedzdetojuzjevtenxquvyku", by decide +kernel⟩

def dagPb : Cid :=
  ⟨"bafybeihdwdcefgh4dqkjv67uzcmw7ojee6xedzdetojuzjevtenxquvyku", by decide +kernel⟩

def held (cid : Cid) : Option Bytes := if cid = raw ∨ cid = dagPb then some [] else none

theorem children_held (cid : Cid) : children held cid = [] := by
  unfold children held
  split_ifs <;> rfl

theorem eq_of_reaches {root cid : Cid} (h : Reaches (children held) root cid) : cid = root := by
  induction h with
  | refl => rfl
  | tail _ hchild =>
    rw [children_held] at hchild
    cases hchild

theorem walkable (root : Cid) : Walkable held root := by
  refine ⟨⟨{root}, by simp [maxDagBlocks], fun cid hcid => ?_⟩, fun cid _ hheld => ?_⟩
  · rw [eq_of_reaches hcid, Finset.mem_singleton]
  · unfold held at hheld
    split_ifs at hheld with hcid
    · exact ⟨[], if_pos hcid, fun _ => rfl⟩
    · exact absurd rfl hheld

theorem complete_raw : Complete held raw := by
  intro cid hcid
  rw [eq_of_reaches hcid]
  exact ⟨[], if_pos (.inl rfl), fun _ => rfl⟩

end EmptyBlock

open EmptyBlock in
/-- Two roots of one digest are announced, and after one of them is withdrawn the DHT has nothing
of the other, which is still served. -/
theorem shared_multihash_withdrawn :
    (stateAfter [⟨held, [raw]⟩, ⟨held, [raw, dagPb]⟩]).dht = ∅ ∧ Call.Serves ⟨held, [raw]⟩ raw :=
  ⟨by decide +kernel, List.mem_singleton_self _, complete_raw⟩

open EmptyBlock in
/-- One root is announced, and nothing is withdrawn. -/
theorem dht_exact_iff_raw : Exact [⟨held, [raw]⟩, ⟨held, [raw]⟩] ∧
    (stateAfter [⟨held, [raw]⟩, ⟨held, [raw]⟩]).dht = {multihash raw} := by
  refine ⟨(dht_exact_iff _ fun c hc root _ => ?_).mpr ⟨trivial, ?_⟩, by decide +kernel⟩
  · rw [List.mem_pair.mp hc |>.elim id id]
    exact walkable root
  · exact fun gone cid hgone hended => absurd hgone hended

end OpenFiat.ContentAnnouncements
