import OpenFiat.BitswapMessages
import Mathlib.Data.List.Nodup

/-!
# Chunked files

A file above the size of one block is a dag of blocks: raw leaves under nodes that list links. A
walk over the dag of a stranger takes its caps with it. `fetch` collects the blocks that a node
must hold, each once and from a server that may answer as it likes; `assemble` concatenates the
leaves in the order of the links, from the blocks that the node holds.
-/
namespace OpenFiat.BlockDag
open BitswapMessages ContentIds ProgramAddress WireFields

def maxDagBytes : ℕ := 10 * 1024 * 1024

def maxDagBlocks : ℕ := 512

def maxLinksPerNode : ℕ := 1024

inductive PinError where
  | unavailable (detail : String)
  | tooLarge
  | contentMismatch
deriving DecidableEq, Repr

def hashField (hash : Option Cid) : Field → Option (Option Cid)
  | (1, .bytes b) => (Cid.fromBinary b).map some
  | _ => some hash

def linkHash (input : Bytes) : Option Cid := do
  ← (← fields input).foldlM hashField none

def linkField (links : List Cid) : Field → Option (List Cid)
  | (2, .bytes b) =>
    if links.length = maxLinksPerNode then none else do return links ++ [← linkHash b]
  | _ => some links

def links (block : Bytes) : Option (List Cid) := do
  (← fields block).foldlM linkField []

def isChunked (cid : Cid) : Bool := !cid.isVerifiable

variable (sha256 : Bytes → Digest)

section Fetching

structure Walk where
  blocks : List (Cid × Bytes)
  pending : List Cid
  seen : List String
  total : ℕ

def Walk.offer (w : Walk) (child : Cid) : Walk :=
  if child.text ∈ w.seen then w
  else { w with seen := child.text :: w.seen, pending := w.pending ++ [child] }

/-- The total is a machine word and saturates. -/
def Walk.keep (w : Walk) (cid : Cid) (block : Bytes) : Except PinError Walk :=
  let total := min (w.total + block.length) (2 ^ 64 - 1)
  let kept : Walk := { w with blocks := w.blocks ++ [(cid, block)], total := total }
  if cid.matchesContent sha256 block = false then .error .contentMismatch
  else if maxDagBytes < total then .error .tooLarge
  else if isChunked cid then match links block with
    | none => .error .contentMismatch
    | some children => .ok (children.foldl Walk.offer kept)
  else .ok kept

variable {σ : Type} (block : Cid → σ → Except PinError Bytes × σ)

/-- The room is how many blocks may still be kept. -/
def fetchLoop : ℕ → Walk → σ → Except PinError (List (Cid × Bytes)) × σ
  | _, ⟨blocks, [], _, _⟩, s => (.ok blocks, s)
  | 0, ⟨_, _ :: _, _, _⟩, s => (.error .tooLarge, s)
  | room + 1, ⟨blocks, cid :: pending, seen, total⟩, s => match block cid s with
    | (.error e, s) => (.error e, s)
    | (.ok bytes, s) => match (⟨blocks, pending, seen, total⟩ : Walk).keep sha256 cid bytes with
      | .error e => (.error e, s)
      | .ok w => fetchLoop room w s

def fetch (root : Cid) (s : σ) : Except PinError (List (Cid × Bytes)) × σ :=
  fetchLoop sha256 block maxDagBlocks ⟨[], [root], [root.text], 0⟩ s

/-! ### The invariant of the walk -/

/-- What was kept and what is still to be kept. -/
def Walk.order (w : Walk) : List Cid := w.blocks.map Prod.fst ++ w.pending

/-- A block that hashes to its identifier, all of whose links are in a list. -/
def ClosedIn (order : List Cid) (b : Cid × Bytes) : Prop :=
  b.1.matchesContent sha256 b.2 = true ∧
    (isChunked b.1 = true → ∃ children, links b.2 = some children ∧ ∀ c ∈ children, c ∈ order)

structure Walk.Sound (root : Cid) (w : Walk) : Prop where
  starts : ∃ rest, w.order = root :: rest
  nodup : w.order.Nodup
  seen_iff : ∀ cid : Cid, cid.text ∈ w.seen ↔ cid ∈ w.order
  total_eq : w.total = (w.blocks.map (·.2.length)).sum
  bounded : w.total ≤ maxDagBytes
  closed : ∀ b ∈ w.blocks, ClosedIn sha256 w.order b

variable {sha256} {block} {root cid : Cid} {w w' : Walk} {bytes : Bytes}

theorem ClosedIn.mono {order order' : List Cid} {b : Cid × Bytes} (h : ClosedIn sha256 order b)
    (hsub : order ⊆ order') : ClosedIn sha256 order' b :=
  ⟨h.1, fun hchunked => (h.2 hchunked).imp fun _ ⟨hlinks, hin⟩ =>
    ⟨hlinks, fun c hc => hsub (hin c hc)⟩⟩

theorem Walk.Sound.offer (h : w.Sound sha256 root) (child : Cid) :
    (w.offer child).Sound sha256 root ∧ child ∈ (w.offer child).order ∧
      w.order ⊆ (w.offer child).order := by
  unfold Walk.offer
  split_ifs with hseen
  · exact ⟨h, (h.seen_iff child).mp hseen, List.Subset.refl _⟩
  · have hnew : child ∉ w.order := fun hin => hseen ((h.seen_iff child).mpr hin)
    have horder :
        Walk.order { w with seen := child.text :: w.seen, pending := w.pending ++ [child] } =
          w.order ++ [child] := (List.append_assoc _ _ _).symm
    have hsub : w.order ⊆ w.order ++ [child] := List.subset_append_left _ _
    refine ⟨⟨?_, ?_, fun cid => ?_, h.total_eq, h.bounded, ?_⟩, ?_, ?_⟩ <;> rw [horder]
    · obtain ⟨rest, hrest⟩ := h.starts
      exact ⟨rest ++ [child], by rw [hrest, List.cons_append]⟩
    · rw [← List.concat_eq_append]
      exact h.nodup.concat hnew
    · rw [List.mem_append, List.mem_singleton, List.mem_cons, h.seen_iff, or_comm]
      exact or_congr_right ⟨Cid.text_injective, congrArg Cid.text⟩
    · exact fun b hb => (h.closed b hb).mono hsub
    · exact List.mem_append_right _ (List.mem_singleton_self _)
    · exact hsub

theorem Walk.Sound.foldl_offer (children : List Cid) (h : w.Sound sha256 root) :
    (children.foldl Walk.offer w).Sound sha256 root ∧
      (∀ c ∈ children, c ∈ (children.foldl Walk.offer w).order) ∧
      w.order ⊆ (children.foldl Walk.offer w).order := by
  induction children generalizing w with
  | nil => exact ⟨h, by simp, List.Subset.refl _⟩
  | cons child children ih =>
    obtain ⟨hsound, hin, hsub⟩ := h.offer child
    obtain ⟨hsound', hin', hsub'⟩ := ih hsound
    refine ⟨hsound', fun c hc => ?_, List.Subset.trans hsub hsub'⟩
    rcases List.mem_cons.mp hc with rfl | hc
    · exact hsub' hin
    · exact hin' c hc

/-- Which children are new depends on what was seen alone. -/
theorem foldl_offer_eq (children : List Cid) (seen : List String) : ∃ seen' new,
    ∀ blocks pending total, children.foldl Walk.offer ⟨blocks, pending, seen, total⟩ =
      ⟨blocks, pending ++ new, seen', total⟩ := by
  induction children generalizing seen with
  | nil => exact ⟨seen, [], by simp⟩
  | cons child children ih =>
    by_cases hseen : child.text ∈ seen
    · obtain ⟨seen', new, hnew⟩ := ih seen
      exact ⟨seen', new, by simpa [Walk.offer, hseen] using hnew⟩
    · obtain ⟨seen', new, hnew⟩ := ih (child.text :: seen)
      exact ⟨seen', child :: new, by simp [Walk.offer, hseen, hnew]⟩

section Moving
variable {blocks : List (Cid × Bytes)} {pending : List Cid} {seen : List String} {total : ℕ}

theorem Walk.Sound.move (h : (⟨blocks, cid :: pending, seen, total⟩ : Walk).Sound sha256 root)
    (hclosed : ClosedIn sha256 (blocks.map Prod.fst ++ cid :: pending) (cid, bytes))
    (hbound : total + bytes.length ≤ maxDagBytes) :
    (⟨blocks ++ [(cid, bytes)], pending, seen, total + bytes.length⟩ : Walk).Sound sha256 root := by
  have horder : Walk.order ⟨blocks ++ [(cid, bytes)], pending, seen, total + bytes.length⟩ =
      Walk.order ⟨blocks, cid :: pending, seen, total⟩ := by simp [Walk.order]
  have htotal : total = _ := h.total_eq
  refine ⟨horder ▸ h.starts, horder ▸ h.nodup, horder ▸ h.seen_iff, ?_, hbound, ?_⟩
  · simp only [List.map_append, List.sum_append, ← htotal]
    simp
  · rw [horder]
    exact List.forall_mem_append.mpr ⟨h.closed, List.forall_mem_singleton.mpr hclosed⟩

/-- One block is kept: its children are offered while it still counts as pending, and then it moves
to the blocks. -/
theorem Walk.Sound.keep (h : (⟨blocks, cid :: pending, seen, total⟩ : Walk).Sound sha256 root)
    (hkeep : (⟨blocks, pending, seen, total⟩ : Walk).keep sha256 cid bytes = .ok w') :
    w'.Sound sha256 root ∧ w'.blocks = blocks ++ [(cid, bytes)] := by
  simp only [Walk.keep] at hkeep
  split_ifs at hkeep with hhash hlarge hchunked
  all_goals
    have hfit : total + bytes.length ≤ maxDagBytes := by
      simp only [maxDagBytes] at hlarge ⊢
      omega
    have htotal : min (total + bytes.length) (2 ^ 64 - 1) = total + bytes.length :=
      min_eq_left (hfit.trans (by decide))
    rw [Bool.not_eq_false] at hhash
    rw [htotal] at hkeep
  · cases hlinks : links bytes with
    | none => simp [hlinks] at hkeep
    | some children =>
      simp only [hlinks, Except.ok.injEq] at hkeep
      obtain ⟨seen', new, hnew⟩ := foldl_offer_eq children seen
      obtain ⟨hsound, hin, -⟩ := h.foldl_offer children
      rw [hnew, List.cons_append] at hsound
      rw [hnew] at hkeep
      subst hkeep
      refine ⟨hsound.move ⟨hhash, fun _ => ⟨children, hlinks, ?_⟩⟩ hfit, rfl⟩
      simpa only [hnew, Walk.order, List.cons_append] using hin
  · cases hkeep
    exact ⟨h.move ⟨hhash, fun hcontra => absurd hcontra hchunked⟩ hfit, rfl⟩

end Moving

theorem fetchLoop_sound {room : ℕ} {s : σ} {blocks : List (Cid × Bytes)} (h : w.Sound sha256 root)
    (hok : (fetchLoop sha256 block room w s).1 = .ok blocks) : ∃ w' : Walk, w'.Sound sha256 root ∧
      w'.pending = [] ∧ w'.blocks = blocks ∧ blocks.length ≤ w.blocks.length + room := by
  induction room generalizing w s with
  | zero =>
    obtain ⟨kept, pending, seen, total⟩ := w
    cases pending with
    | nil =>
      obtain rfl : kept = blocks := by simpa [fetchLoop] using hok
      exact ⟨_, h, rfl, rfl, le_rfl⟩
    | cons => simp [fetchLoop] at hok
  | succ room ih =>
    obtain ⟨kept, pending, seen, total⟩ := w
    cases pending with
    | nil =>
      obtain rfl : kept = blocks := by simpa [fetchLoop] using hok
      exact ⟨_, h, rfl, rfl, Nat.le_add_right _ _⟩
    | cons cid pending =>
      rw [fetchLoop] at hok
      rcases hanswer : block cid s with ⟨e | bytes, s'⟩ <;> simp only [hanswer] at hok
      · cases hok
      · cases hkeep : (⟨kept, pending, seen, total⟩ : Walk).keep sha256 cid bytes with
        | error =>
          simp only [hkeep] at hok
          cases hok
        | ok =>
          simp only [hkeep] at hok
          obtain ⟨hsound, hblocks⟩ := h.keep hkeep
          obtain ⟨w'', hfinal, hpending, hresult, hlength⟩ := ih hsound hok
          refine ⟨w'', hfinal, hpending, hresult, ?_⟩
          rw [hblocks, List.length_append, List.length_singleton] at hlength
          simp only
          omega

theorem sound_start (root : Cid) : (⟨[], [root], [root.text], 0⟩ : Walk).Sound sha256 root where
  starts := ⟨[], rfl⟩
  nodup := List.nodup_singleton root
  seen_iff cid := by
    rw [List.mem_singleton]
    exact ⟨fun h => List.mem_singleton.mpr (Cid.text_injective h),
      fun h => congrArg Cid.text (List.mem_singleton.mp h)⟩
  total_eq := rfl
  bounded := Nat.zero_le _
  closed b hb := by cases hb

end Fetching

/-- The same server, which counts how often it is asked. -/
def counted {σ α : Type} (block : Cid → σ → α × σ) (cid : Cid) (s : ℕ × σ) : α × (ℕ × σ) :=
  let answer := block cid s.2
  (answer.1, (s.1 + 1, answer.2))

theorem fetchLoop_counted {σ : Type} (block : Cid → σ → Except PinError Bytes × σ) (room : ℕ)
    (w : Walk) (n : ℕ) (s : σ) : ∃ calls ≤ room, fetchLoop sha256 (counted block) room w (n, s) =
      ((fetchLoop sha256 block room w s).1, (n + calls, (fetchLoop sha256 block room w s).2)) := by
  induction room generalizing w n s with
  | zero =>
    obtain ⟨kept, pending, seen, total⟩ := w
    cases pending <;> simp [fetchLoop]
  | succ room ih =>
    obtain ⟨kept, pending, seen, total⟩ := w
    cases pending with
    | nil => exact ⟨0, Nat.zero_le _, by simp [fetchLoop]⟩
    | cons cid pending =>
      simp only [fetchLoop, counted]
      rcases block cid s with ⟨e | bytes, s'⟩
      · exact ⟨1, by omega, rfl⟩
      · simp only
        cases (⟨kept, pending, seen, total⟩ : Walk).keep sha256 cid bytes with
        | error => exact ⟨1, by omega, rfl⟩
        | ok w' =>
          obtain ⟨calls, hcalls, hrest⟩ := ih w' (n + 1) s'
          refine ⟨calls + 1, by omega, ?_⟩
          simp only [hrest, Nat.add_assoc, Nat.add_comm 1]

/-- Whatever a server answers, it is asked at most 512 times, and what is returned is the root,
closed under links, without duplicates, within both caps and made of blocks that hash to their
identifiers. -/
theorem fetch_sound {σ : Type} (block : Cid → σ → Except PinError Bytes × σ) (root : Cid) (s : σ) :
    (∃ calls ≤ 512, fetch sha256 (counted block) root (0, s) =
      ((fetch sha256 block root s).1, (calls, (fetch sha256 block root s).2))) ∧
    ∀ blocks, (fetch sha256 block root s).1 = .ok blocks →
      (∃ rest, blocks.map Prod.fst = root :: rest) ∧ (blocks.map Prod.fst).Nodup ∧
      blocks.length ≤ 512 ∧ (blocks.map (·.2.length)).sum ≤ maxDagBytes ∧
      ∀ b ∈ blocks, b.1.matchesContent sha256 b.2 = true ∧
        (isChunked b.1 = true → ∃ children, links b.2 = some children ∧
          ∀ c ∈ children, c ∈ blocks.map Prod.fst) := by
  constructor
  · obtain ⟨calls, hcalls, hrun⟩ := fetchLoop_counted sha256 block maxDagBlocks
      ⟨[], [root], [root.text], 0⟩ 0 s
    rw [Nat.zero_add] at hrun
    exact ⟨calls, hcalls, hrun⟩
  · intro blocks hok
    obtain ⟨w, hsound, hpending, rfl, hlength⟩ := fetchLoop_sound (sound_start root) hok
    have horder : w.order = w.blocks.map Prod.fst := by rw [Walk.order, hpending, List.append_nil]
    refine ⟨horder ▸ hsound.starts, horder ▸ hsound.nodup, hlength, ?_, fun b hb => ?_⟩
    · rw [← hsound.total_eq]
      exact hsound.bounded
    · exact horder ▸ hsound.closed b hb

section Assembling

/-- The blocks to visit are listed from the top of the stack, and the room is how many may still be
visited. -/
def assembleLoop {σ : Type} (block : Cid → σ → Option Bytes × σ) :
    ℕ → List Cid → Bytes → σ → Except PinError Bytes × σ
  | _, [], file, s => (.ok file, s)
  | 0, _ :: _, _, s => (.error .tooLarge, s)
  | room + 1, cid :: pending, file, s => match block cid s with
    | (none, s) => (.error (.unavailable ("this node does not hold " ++ cid.text)), s)
    | (some bytes, s) =>
      if cid.matchesContent sha256 bytes = false then (.error .contentMismatch, s)
      else if isChunked cid then match links bytes with
        | none => (.error .contentMismatch, s)
        | some [] => (.error (.unavailable
            "a dag-pb leaf carries its bytes in unixfs framing this protocol does not read"), s)
        | some children => assembleLoop block room (children ++ pending) file s
      else if maxDagBytes < min (file.length + bytes.length) (2 ^ 64 - 1) then (.error .tooLarge, s)
      else assembleLoop block room pending (file ++ bytes) s

/-- A lookup answers the same way every time. -/
def assembleFrom (block : Cid → Option Bytes) (room : ℕ) (pending : List Cid) (file : Bytes) :
    Except PinError Bytes :=
  (assembleLoop sha256 (fun cid s => (block cid, s)) room pending file ()).1

def assemble (block : Cid → Option Bytes) (root : Cid) : Except PinError Bytes :=
  assembleFrom sha256 block maxDagBlocks [root] []

theorem assembleLoop_counted (block : Cid → Option Bytes) (room : ℕ) (pending : List Cid)
    (file : Bytes) (n : ℕ) : ∃ calls ≤ room,
      assembleLoop sha256 (fun cid n => (block cid, n + 1)) room pending file n =
        (assembleFrom sha256 block room pending file, n + calls) := by
  unfold assembleFrom
  induction room generalizing pending file n with
  | zero => cases pending <;> exact ⟨0, le_rfl, by simp [assembleLoop]⟩
  | succ room ih =>
    cases pending with
    | nil => exact ⟨0, Nat.zero_le _, by simp [assembleLoop]⟩
    | cons cid pending =>
      have hrest (pending : List Cid) (file : Bytes) : ∃ calls ≤ room + 1,
          assembleLoop sha256 (fun cid n => (block cid, n + 1)) room pending file (n + 1) =
            ((assembleLoop sha256 (fun cid s => (block cid, s)) room pending file ()).1,
              n + calls) := by
        obtain ⟨calls, hcalls, hrun⟩ := ih pending file (n + 1)
        exact ⟨calls + 1, by omega, by rw [hrun, Nat.add_assoc, Nat.add_comm 1]⟩
      have hstop : 1 ≤ room + 1 := Nat.le_add_left 1 room
      simp only [assembleLoop]
      cases block cid with
      | none => exact ⟨1, hstop, rfl⟩
      | some =>
        simp only
        split_ifs
        · exact ⟨1, hstop, rfl⟩
        · split
          · exact ⟨1, hstop, rfl⟩
          · exact ⟨1, hstop, rfl⟩
          · exact hrest _ _
        · exact ⟨1, hstop, rfl⟩
        · exact hrest _ _

/-! ### What a dag spells -/

/-- The content of a list of blocks, in order, with the number of nodes of their unfolded trees: a
raw block has its bytes, a node with links what its links have, and a node without links or that is
malformed has none. -/
inductive Spells (block : Cid → Option Bytes) : List Cid → ℕ → Bytes → Prop
  | nil : Spells block [] 0 []
  | raw {cid rest bytes n b} : isChunked cid = false → block cid = some bytes →
      Spells block rest n b → Spells block (cid :: rest) (n + 1) (bytes ++ b)
  | node {cid rest bytes children n b n' b'} : isChunked cid = true → block cid = some bytes →
      links bytes = some children → children ≠ [] → Spells block children n b →
      Spells block rest n' b' → Spells block (cid :: rest) (n + 1 + n') (b ++ b')

def LinksTo (block : Cid → Option Bytes) (cid child : Cid) : Prop :=
  isChunked cid = true ∧ ∃ bytes children, block cid = some bytes ∧ links bytes = some children ∧
    child ∈ children

/-- The blocks that are present and hash to their identifiers. -/
def verified (block : Cid → Option Bytes) (cid : Cid) : Option Bytes :=
  (block cid).filter (cid.matchesContent sha256)

variable {sha256} {block : Cid → Option Bytes} {cid : Cid} {pending rest : List Cid}
  {b bytes file : Bytes} {n : ℕ}

theorem Spells.append {n' : ℕ} {b' : Bytes} (h : Spells block pending n b)
    (h' : Spells block rest n' b') : Spells block (pending ++ rest) (n + n') (b ++ b') := by
  induction h with
  | nil => simpa using h'
  | raw hraw hheld _ ih =>
    rw [List.append_assoc, Nat.add_right_comm]
    exact .raw hraw hheld ih
  | node hnode hheld hlinks hsome hchildren _ _ ih =>
    rw [List.append_assoc, Nat.add_assoc]
    exact .node hnode hheld hlinks hsome hchildren ih

theorem spells_append : Spells block (pending ++ rest) n b ↔ ∃ n₁ n₂ b₁ b₂,
    Spells block pending n₁ b₁ ∧ Spells block rest n₂ b₂ ∧ n = n₁ + n₂ ∧ b = b₁ ++ b₂ := by
  constructor
  · induction pending generalizing n b with
    | nil => exact fun h => ⟨0, n, [], b, .nil, h, (Nat.zero_add n).symm, rfl⟩
    | cons cid pending ih =>
      intro h
      cases h with
      | raw hraw hheld hrest =>
        obtain ⟨n₁, n₂, b₁, b₂, h₁, h₂, rfl, rfl⟩ := ih hrest
        exact ⟨n₁ + 1, n₂, _, b₂, .raw hraw hheld h₁, h₂, Nat.add_right_comm _ _ _,
          (List.append_assoc _ _ _).symm⟩
      | node hnode hheld hlinks hsome hchildren hrest =>
        obtain ⟨n₁, n₂, b₁, b₂, h₁, h₂, rfl, rfl⟩ := ih hrest
        exact ⟨_, n₂, _, b₂, .node hnode hheld hlinks hsome hchildren h₁, h₂,
          (Nat.add_assoc _ _ _).symm, (List.append_assoc _ _ _).symm⟩
  · rintro ⟨n₁, n₂, b₁, b₂, h₁, h₂, rfl, rfl⟩
    exact h₁.append h₂

/-- A node spells what its children spell in its place. -/
theorem spells_cons : Spells block (cid :: rest) n b ↔ ∃ bytes, block cid = some bytes ∧
    (isChunked cid = false ∧ (∃ n' b', Spells block rest n' b' ∧ n = n' + 1 ∧ b = bytes ++ b') ∨
      isChunked cid = true ∧ ∃ children, links bytes = some children ∧ children ≠ [] ∧
        ∃ n', Spells block (children ++ rest) n' b ∧ n = n' + 1) := by
  constructor
  · intro h
    cases h with
    | raw hraw hheld hrest => exact ⟨_, hheld, .inl ⟨hraw, _, _, hrest, rfl, rfl⟩⟩
    | node hnode hheld hlinks hsome hchildren hrest =>
      exact ⟨_, hheld, .inr ⟨hnode, _, hlinks, hsome, _, hchildren.append hrest,
        Nat.add_right_comm _ _ _⟩⟩
  · rintro ⟨bytes, hheld, ⟨hraw, n', b', hrest, rfl, rfl⟩ |
      ⟨hnode, children, hlinks, hsome, n', h, rfl⟩⟩
    · exact .raw hraw hheld hrest
    · obtain ⟨n₁, n₂, b₁, b₂, h₁, h₂, rfl, rfl⟩ := spells_append.mp h
      rw [Nat.add_right_comm]
      exact .node hnode hheld hlinks hsome h₁ h₂

theorem verified_eq_some : verified sha256 block cid = some bytes ↔
    block cid = some bytes ∧ cid.matchesContent sha256 bytes = true := by
  rw [verified, Option.filter_eq_some_iff]

theorem assembleFrom_cons {room : ℕ} {out : Bytes} :
    assembleFrom sha256 block (room + 1) (cid :: pending) file = .ok out ↔
      ∃ bytes, verified sha256 block cid = some bytes ∧
        (isChunked cid = false ∧ file.length + bytes.length ≤ maxDagBytes ∧
            assembleFrom sha256 block room pending (file ++ bytes) = .ok out ∨
          isChunked cid = true ∧ ∃ children, links bytes = some children ∧ children ≠ [] ∧
            assembleFrom sha256 block room (children ++ pending) file = .ok out) := by
  simp only [verified_eq_some, assembleFrom, assembleLoop]
  cases hheld : block cid with
  | none => simp
  | some bytes =>
    simp only [Option.some.injEq, and_assoc, exists_eq_left']
    cases hhash : cid.matchesContent sha256 bytes with
    | false => simp
    | true =>
      cases hkind : isChunked cid with
      | true =>
        cases hlinks : links bytes with
        | none => simp
        | some children => cases children <;> simp
      | false =>
        have hlarge : maxDagBytes < min (file.length + bytes.length) (2 ^ 64 - 1) ↔
            ¬ file.length + bytes.length ≤ maxDagBytes := by
          rw [lt_min_iff, not_le, and_iff_left (by decide)]
        simp only [hlarge]
        by_cases hfit : file.length + bytes.length ≤ maxDagBytes <;> simp [hfit]

theorem assembleFrom_nil {room : ℕ} {out : Bytes} (hfile : file.length ≤ maxDagBytes) :
    assembleFrom sha256 block room [] file = .ok out ↔ ∃ n b,
      Spells (verified sha256 block) [] n b ∧ n ≤ room ∧ out = file ++ b ∧
        out.length ≤ maxDagBytes := by
  rw [assembleFrom, assembleLoop, Except.ok.injEq]
  constructor
  · rintro rfl
    exact ⟨0, [], .nil, Nat.zero_le _, (List.append_nil _).symm, hfile⟩
  · rintro ⟨n, b, hspells, -, rfl, -⟩
    cases hspells
    exact (List.append_nil _).symm

/-- The loop returns what the blocks on its stack spell, if that stays within both caps. -/
theorem assembleFrom_eq_ok {room : ℕ} {out : Bytes} (hfile : file.length ≤ maxDagBytes) :
    assembleFrom sha256 block room pending file = .ok out ↔ ∃ n b,
      Spells (verified sha256 block) pending n b ∧ n ≤ room ∧ out = file ++ b ∧
        out.length ≤ maxDagBytes := by
  induction room generalizing pending file with
  | zero =>
    cases pending with
    | nil => exact assembleFrom_nil hfile
    | cons =>
      refine iff_of_false (by simp [assembleFrom, assembleLoop]) ?_
      rintro ⟨n, b, hspells, hn, -⟩
      obtain ⟨_, -, ⟨-, n', -, -, rfl, -⟩ | ⟨-, _, -, -, n', -, rfl⟩⟩ := spells_cons.mp hspells <;>
        omega
  | succ room ih =>
    cases pending with
    | nil => exact assembleFrom_nil hfile
    | cons =>
      rw [assembleFrom_cons]
      constructor
      · rintro ⟨bytes, hheld, ⟨hraw, hfit, hrest⟩ | ⟨hnode, children, hlinks, hsome, hrest⟩⟩
        · rw [ih (by rwa [List.length_append])] at hrest
          obtain ⟨n, b, hspells, hn, rfl, hout⟩ := hrest
          exact ⟨n + 1, bytes ++ b, .raw hraw hheld hspells, by omega, List.append_assoc _ _ _,
            hout⟩
        · obtain ⟨n, b, hspells, hn, hout⟩ := (ih hfile).mp hrest
          exact ⟨n + 1, b, spells_cons.mpr ⟨bytes, hheld, .inr ⟨hnode, children, hlinks, hsome, n,
            hspells, rfl⟩⟩, by omega, hout⟩
      · rintro ⟨n, b, hspells, hn, rfl, hout⟩
        obtain ⟨bytes, hheld, ⟨hraw, n', b', hrest, rfl, rfl⟩ |
          ⟨hnode, children, hlinks, hsome, n', hrest, rfl⟩⟩ := spells_cons.mp hspells
        · have hfit : (file ++ bytes).length ≤ maxDagBytes := by
            simp only [List.length_append] at hout ⊢
            omega
          refine ⟨bytes, hheld, .inl ⟨hraw, by rwa [List.length_append] at hfit, (ih hfit).mpr ?_⟩⟩
          exact ⟨n', b', hrest, by omega, (List.append_assoc _ _ _).symm, hout⟩
        · exact ⟨bytes, hheld, .inr ⟨hnode, children, hlinks, hsome,
            (ih hfile).mpr ⟨n', b, hrest, by omega, rfl, hout⟩⟩⟩

/-- A verified dag is one that is spelled by the blocks that are held, each of which was checked. -/
theorem spells_verified : Spells (verified sha256 block) pending n b ↔ Spells block pending n b ∧
    ∀ root ∈ pending, ∀ cid, Relation.ReflTransGen (LinksTo block) root cid →
      ∃ bytes, verified sha256 block cid = some bytes := by
  constructor
  · intro h
    induction h with
    | nil => exact ⟨.nil, by simp⟩
    | raw hraw hheld _ ih =>
      refine ⟨.raw hraw (verified_eq_some.mp hheld).1 ih.1, fun root hroot cid hpath => ?_⟩
      rcases List.mem_cons.mp hroot with rfl | hroot
      · rcases hpath.cases_head with rfl | ⟨child, hstep, -⟩
        · exact ⟨_, hheld⟩
        · rw [hstep.1] at hraw
          cases hraw
      · exact ih.2 root hroot cid hpath
    | node hnode hheld hlinks hsome _ _ ihchildren ihrest =>
      have hblock := (verified_eq_some.mp hheld).1
      refine ⟨.node hnode hblock hlinks hsome ihchildren.1 ihrest.1, fun root hroot cid hpath => ?_⟩
      rcases List.mem_cons.mp hroot with rfl | hroot
      · rcases hpath.cases_head with
          rfl | ⟨child, ⟨-, bytes', children', hblock', hlinks', hin⟩, hpath⟩
        · exact ⟨_, hheld⟩
        · obtain rfl := Option.some.inj (hblock.symm.trans hblock')
          obtain rfl := Option.some.inj (hlinks.symm.trans hlinks')
          exact ihchildren.2 child hin cid hpath
      · exact ihrest.2 root hroot cid hpath
  · rintro ⟨h, hall⟩
    have hhere {cid : Cid} {bytes : Bytes} (hblock : block cid = some bytes)
        (h : ∃ bytes, verified sha256 block cid = some bytes) :
        verified sha256 block cid = some bytes := by
      obtain ⟨bytes', hheld⟩ := h
      rwa [Option.some.inj (hblock.symm.trans (verified_eq_some.mp hheld).1)]
    induction h with
    | nil => exact .nil
    | raw hraw hblock _ ih =>
      exact .raw hraw (hhere hblock (hall _ List.mem_cons_self _ .refl))
        (ih fun root hroot => hall root (List.mem_cons_of_mem _ hroot))
    | node hnode hblock hlinks hsome _ _ ihchildren ihrest =>
      refine .node hnode (hhere hblock (hall _ List.mem_cons_self _ .refl)) hlinks hsome
        (ihchildren fun child hin cid hpath => ?_)
        (ihrest fun root hroot => hall root (List.mem_cons_of_mem _ hroot))
      exact hall _ List.mem_cons_self cid
        (.head ⟨hnode, _, _, hblock, hlinks, hin⟩ hpath)

theorem assemble_eq_ok {root : Cid} : assemble sha256 block root = .ok b ↔
    (∀ cid, Relation.ReflTransGen (LinksTo block) root cid →
      ∃ bytes, block cid = some bytes ∧ cid.matchesContent sha256 bytes = true) ∧
    ∃ nodes, Spells block [root] nodes b ∧ nodes ≤ maxDagBlocks ∧ b.length ≤ maxDagBytes := by
  rw [assemble, assembleFrom_eq_ok (Nat.zero_le _)]
  simp only [spells_verified, List.mem_singleton, forall_eq, verified_eq_some, List.nil_append]
  constructor
  · rintro ⟨n, _, ⟨hspells, hheld⟩, hn, rfl, hb⟩
    exact ⟨hheld, n, hspells, hn, hb⟩
  · rintro ⟨hheld, n, hspells, hn, hb⟩
    exact ⟨n, b, ⟨hspells, hheld⟩, hn, rfl, hb⟩

/-- A file is assembled exactly if every block under its root is held and hashes to its identifier,
the blocks spell it and both caps are kept; no more blocks are looked up than may be visited. -/
theorem assemble_eq_ok_iff (block : Cid → Option Bytes) (root : Cid) :
    (∀ b, assemble sha256 block root = .ok b ↔
      (∀ cid, Relation.ReflTransGen (LinksTo block) root cid →
        ∃ bytes, block cid = some bytes ∧ cid.matchesContent sha256 bytes = true) ∧
      ∃ nodes, Spells block [root] nodes b ∧ nodes ≤ maxDagBlocks ∧ b.length ≤ maxDagBytes) ∧
    ∃ lookups ≤ maxDagBlocks,
      assembleLoop sha256 (fun cid n => (block cid, n + 1)) maxDagBlocks [root] [] 0 =
        (assemble sha256 block root, lookups) := by
  constructor
  · exact fun b => assemble_eq_ok
  · obtain ⟨lookups, hle, hrun⟩ := assembleLoop_counted sha256 block maxDagBlocks [root] [] 0
    rw [Nat.zero_add] at hrun
    exact ⟨lookups, hle, hrun⟩

end Assembling

end OpenFiat.BlockDag
