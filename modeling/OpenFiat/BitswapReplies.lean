import OpenFiat.BitswapMessages
import Mathlib.Algebra.Order.BigOperators.Group.List
import Mathlib.Data.List.Nodup

/-!
# Bitswap replies

What a node answers to a wantlist, and the stream that carries the answer. The blocks of a reply are
held to a budget that counts their bytes alone; the receiver bounds the whole encoded message by the
same number.
-/
namespace OpenFiat.BitswapReplies
open BitswapMessages ContentIds ProgramAddress WireBytes WireFields

def maxBlockBytes : ℕ := 262144

variable (sha256 : Bytes → Digest) (source : Cid → Option Bytes)

structure Reply where
  message : Message
  budget : ℕ

def Reply.presence (s : Reply) (cid : Cid) (kind : Presence) : Reply :=
  { s with message.presences := s.message.presences ++ [(cid, kind)] }

/-- The bytes of the block that a want asks for, if the source has it. -/
def payload (want : Want) : ℕ :=
  if want.cancel then 0
  else match source want.cid, want.wantType with
    | some block, .block => block.length
    | _, _ => 0

/-- The bytes that a block takes in a message: a tag and a length around each part. -/
def blockSize (cid : Cid) (length : ℕ) : ℕ :=
  fieldSize (fieldSize (cid.toBinary.length - 32) + fieldSize length)

def presenceSize (cid : Cid) (kind : Presence) : ℕ :=
  fieldSize (fieldSize cid.toBinary.length + if kind = .dontHave then 2 else 0)

/-- The bytes that the answer to a want takes, if no block is held back. -/
def answerSize (want : Want) : ℕ :=
  if want.cancel then 0
  else match source want.cid, want.wantType with
    | some block, .block => blockSize want.cid block.length
    | some _, .held => presenceSize want.cid .held
    | none, _ => if want.sendDontHave then presenceSize want.cid .dontHave else 0

def AsksFor (cid : Cid) (data : Bytes) (want : Want) : Prop :=
  want.cancel = false ∧ want.wantType = .block ∧ want.cid = cid ∧ source cid = some data

variable {source}

/-- What the answers to wants add to a reply that has room for their blocks. -/
structure Adds (source : Cid → Option Bytes) (wants : List Want) (s s' : Reply) : Prop where
  budget : s'.budget + (wants.map (payload source)).sum = s.budget
  unasked : s'.message.wants = s.message.wants
  size : s'.message.encode.length = s.message.encode.length + (wants.map (answerSize source)).sum
  blocks : ∀ cid data, (cid, data) ∈ s'.message.blocks ↔ (cid, data) ∈ s.message.blocks ∨
    ∃ want ∈ wants, AsksFor source cid data want

section Adding
variable {s : Reply} {want : Want} {wants : List Want}

theorem Adds.cons {s' s'' : Reply} (h : Adds source [want] s s') (h' : Adds source wants s' s'') :
    Adds source (want :: wants) s s'' := by
  have hbudget := h.budget
  have hsize := h.size
  simp only [List.map_cons, List.map_nil, List.sum_cons, List.sum_nil, Nat.add_zero]
    at hbudget hsize
  refine ⟨?_, h'.unasked.trans h.unasked, ?_, fun cid data => ?_⟩
  · rw [List.map_cons, List.sum_cons, ← hbudget, ← h'.budget]
    omega
  · rw [h'.size, hsize, List.map_cons, List.sum_cons, add_assoc]
  · rw [h'.blocks, h.blocks, or_assoc]
    simp

end Adding

end OpenFiat.BitswapReplies
