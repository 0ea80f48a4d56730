import OpenFiat.GossipNode
import OpenFiat.TransactionRuns

/-!
# Nodes that gossip

The services of finitely many peers, and events on their way between them, which arrive in any
order. A service sends an event on only when it stores it, once for each id until it prunes its
log: gossip dies out, whatever hop budgets strangers wrote.
-/
namespace OpenFiat.GossipNetwork
open GuardedResult ProgramAddress GossipEvents GossipNode TransactionRuns

structure Message (π : Type) where
  source : π
  target : π
  event : EventEnvelope

structure Network (π : Type) where
  node : π → GossipService π
  inFlight : List (Message π)

variable {π : Type}

def Network.ids (net : Network π) : Finset Digest :=
  (net.inFlight.map fun m => m.event.id).toFinset

/-- Which message arrives, its receiver's clock and the verdict of the token bucket. -/
structure Delivery where
  index : ℕ
  now : UInt64
  credit : Bool

variable [DecidableEq π]

def step (P : GossipPlatform) (net : Network π) (d : Delivery) : Except Unit (Network π) := do
  let m ← load net.inFlight[d.index]? ()
  let r := receiveEvent P d.now d.credit (net.node m.target) (some m.source) m.event
  return {
    node := Function.update net.node m.target r.2.1
    inFlight := net.inFlight.eraseIdx d.index ++ r.2.2.map fun s => ⟨m.target, s.1, s.2⟩ }

def unheard (ids : Finset Digest) (g : GossipService π) : Finset Digest :=
  ids.filter fun id => g.store.lookup id = none

/-- The messages that a service may still send about the events with these ids. -/
def owed (ids : Finset Digest) (g : GossipService π) : ℕ :=
  (unheard ids g).card * g.connected.length

def left [Fintype π] (ids : Finset Digest) (net : Network π) : ℕ :=
  net.inFlight.length + ∑ peer, owed ids (net.node peer)

def About (ids : Finset Digest) (net : Network π) : Prop := ∀ m ∈ net.inFlight, m.event.id ∈ ids

variable {P : GossipPlatform} {ids : Finset Digest} {net net' : Network π} {d : Delivery}
  {g : GossipService π} {source : Option π} {e : EventEnvelope}

theorem forward_spec : (forward g source e).length ≤ g.connected.length ∧
    ∀ s ∈ forward g source e, s.2.id = e.id := by
  unfold forward broadcast
  split_ifs
  · refine ⟨by simp [List.length_filter_le], fun s hs => ?_⟩
    obtain ⟨peer, -, rfl⟩ := List.mem_map.mp hs
    rfl
  · simp

/-- A service pays for what it sends with the id that it stores. -/
theorem received_owed {now credit r} (h : Received P now credit g source e r) (he : e.id ∈ ids) :
    r.2.2.length + owed ids r.2.1 ≤ owed ids g ∧ ∀ s ∈ r.2.2, s.2.id = e.id := by
  cases h with
  | duplicate | rejected => exact ⟨(Nat.zero_add _).le, by simp⟩
  | stored hnew =>
    have hsent := @forward_spec _ _ g source (clampTtl e)
    have hrest : unheard ids { g with store := g.store.insert e.id (clampTtl e) } =
        (unheard ids g).erase e.id := by
      ext id
      by_cases hid : id = e.id <;> simp [unheard, hid, FiniteTable.Table.lookup_insert_eq]
    have hmem : e.id ∈ unheard ids g := Finset.mem_filter.mpr ⟨he, hnew⟩
    rw [owed, owed, hrest, ← Finset.card_erase_add_one hmem, Nat.succ_mul]
    split_ifs
    · exact ⟨by dsimp only; omega, hsent.2⟩
    · simp

variable [Fintype π]

theorem step_left (hids : About ids net) (h : step P net d = .ok net') :
    left ids net' < left ids net ∧ About ids net' := by
  simp only [step, bind_ok, load_ok, pure_ok] at h
  obtain ⟨m, hm, rfl⟩ := h
  have hid := hids m (List.mem_of_getElem? hm)
  obtain ⟨howed, hsent⟩ := received_owed
    (receiveEvent_received P d.now d.credit (net.node m.target) (some m.source) m.event) hid
  constructor
  · -- the other services owe what they owed
    obtain ⟨hindex, -⟩ := List.getElem?_eq_some_iff.mp hm
    have hothers {g} : ∑ peer ∈ Finset.univ.erase m.target,
        owed ids (Function.update net.node m.target g peer) =
          ∑ peer ∈ Finset.univ.erase m.target, owed ids (net.node peer) :=
      Finset.sum_congr rfl fun peer hpeer => by
        rw [Function.update_of_ne (Finset.ne_of_mem_erase hpeer)]
    simp only [left, ← Finset.add_sum_erase _ _ (Finset.mem_univ m.target), hothers,
      Function.update_self, List.length_append, List.length_map, List.length_eraseIdx_of_lt hindex]
    omega
  · intro m' hm'
    rcases List.mem_append.mp hm' with hold | hnew
    · exact hids m' (List.mem_of_mem_eraseIdx hold)
    · obtain ⟨s, hs, rfl⟩ := List.mem_map.mp hnew
      exact hsent s hs ▸ hid

/-- In whatever order the events arrive, there are no more deliveries than events on their way
and, for each service and each of their ids that it has not stored, one for each neighbour. -/
theorem gossip_dies_out (P : GossipPlatform) (net : Network π) (ds : List Delivery) :
    (transitions (step P) net ds).length ≤ left net.ids net := by
  have hids : About net.ids net := fun m hm => List.mem_toFinset.mpr (List.mem_map_of_mem hm)
  generalize net.ids = ids at hids
  refine (Nat.le_add_right _ _).trans (run_history_rule (G := fun _ => True)
    (J := fun H s => H.length + left ids s ≤ left ids net ∧ About ids s)
    ?_ (H := []) ⟨(Nat.zero_add _).le, hids⟩ ds fun _ _ => trivial).1
  intro H s d s' hJ hs _
  obtain ⟨hleft, hnext⟩ := step_left hJ.2 hs
  rw [List.length_append, List.length_singleton]
  exact ⟨by omega, hnext⟩

end OpenFiat.GossipNetwork
