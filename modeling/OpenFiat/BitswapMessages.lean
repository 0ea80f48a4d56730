import OpenFiat.ContentIds

/-!
# Bitswap messages

A node asks for blocks by a wantlist and answers with blocks and presences, in one protobuf message.
A block travels with the part of its identifier that precedes the digest; the receiver hashes the
bytes and rebuilds the identifier, so whatever arrives is filed under the content that it is.
-/
namespace OpenFiat.BitswapMessages
open ContentIds ProgramAddress WireFields

abbrev Bytes := List UInt8

def maxWantlistEntries : ℕ := 1024

/-- The block itself, or only whether the peer has it. -/
inductive WantType where
  | block
  | held
deriving DecidableEq, Repr

structure Want where
  cid : Cid
  wantType : WantType
  cancel : Bool
  sendDontHave : Bool
deriving DecidableEq

inductive Presence where
  | held
  | dontHave
deriving DecidableEq, Repr

structure Message where
  wants : List Want
  blocks : List (Cid × Bytes)
  presences : List (Cid × Presence)
deriving DecidableEq

def Message.empty : Message := ⟨[], [], []⟩

def encodeFlag (number : ℕ) (flag : Bool) : Bytes := if flag then writeVarintField number 1 else []

def encodeWant (want : Want) : Bytes :=
  writeBytes 1 want.cid.toBinary ++ encodeFlag 3 want.cancel ++
    encodeFlag 4 (want.wantType = .held) ++ encodeFlag 5 want.sendDontHave

def encodeBlock (block : Cid × Bytes) : Bytes :=
  writeBytes 1 block.1.blockPrefix ++ writeBytes 2 block.2

def encodePresence (entry : Cid × Presence) : Bytes :=
  writeBytes 1 entry.1.toBinary ++ encodeFlag 2 (entry.2 = .dontHave)

def encodeWantlist (wants : List Want) : Bytes :=
  if wants.isEmpty then []
  else writeBytes 1 (wants.flatMap fun want => writeBytes 1 (encodeWant want))

def Message.encode (m : Message) : Bytes :=
  encodeWantlist m.wants ++ (m.blocks.flatMap fun block => writeBytes 3 (encodeBlock block)) ++
    m.presences.flatMap fun entry => writeBytes 4 (encodePresence entry)

/-! ## Decoding

Each case reads what the wire type of the field says, so the fields of a message are read first. -/

structure PartialWant where
  cid : Option Cid
  wantType : WantType
  cancel : Bool
  sendDontHave : Bool

def wantField (s : PartialWant) : Field → PartialWant
  | (1, .bytes b) => { s with cid := Cid.fromBinary b }
  | (3, .varint n) => { s with cancel := n ≠ 0 }
  | (4, .varint n) => { s with wantType := if n = 1 then .held else .block }
  | (5, .varint n) => { s with sendDontHave := n ≠ 0 }
  | _ => s

def decodeWant (input : Bytes) : Option Want := do
  let s := (← fields input).foldl wantField ⟨none, .block, false, false⟩
  return ⟨← s.cid, s.wantType, s.cancel, s.sendDontHave⟩

/-- An entry beyond the limit or without a usable identifier is dropped. -/
def wantlistField (wants : List Want) : Field → List Want
  | (1, .bytes entry) =>
    if wants.length < maxWantlistEntries then wants ++ (decodeWant entry).toList else wants
  | _ => wants

def decodeWantlist (input : Bytes) (m : Message) : Option Message := do
  return { m with wants := (← fields input).foldl wantlistField m.wants }

/-- The last field with this number that holds bytes. -/
def bytesField (number : ℕ) (fs : List Field) : Option Bytes :=
  fs.foldl (fun found field => match field with
    | (n, .bytes b) => if n = number then some b else found
    | _ => found) none

variable (sha256 : Bytes → Digest)

def decodeBlock (input : Bytes) (m : Message) : Option Message := do
  let fs ← fields input
  match bytesField 1 fs, bytesField 2 fs with
  | some blockPrefix, some data =>
    match Cid.fromBinary (blockPrefix ++ (sha256 data).bytes) with
    | some cid => return { m with blocks := m.blocks ++ [(cid, data)] }
    | none => return m
  | _, _ => return m

def presenceField (s : Option Cid × Presence) : Field → Option Cid × Presence
  | (1, .bytes b) => (Cid.fromBinary b, s.2)
  | (2, .varint n) => (s.1, if n = 1 then .dontHave else .held)
  | _ => s

def decodePresence (input : Bytes) (m : Message) : Option Message := do
  let s := (← fields input).foldl presenceField (none, .held)
  return { m with presences := m.presences ++ (s.1.map fun cid => (cid, s.2)).toList }

def messageField (m : Message) : Field → Option Message
  | (1, .bytes b) => decodeWantlist b m
  | (3, .bytes b) => decodeBlock sha256 b m
  | (4, .bytes b) => decodePresence b m
  | _ => some m

def decode (input : Bytes) : Option Message := do
  (← fields input).foldlM (messageField sha256) .empty

section Entries
variable {number : ℕ} {rest : Bytes}

theorem fields_encodeFlag (hnumber : number < 2 ^ 61) (flag : Bool) (rest : Bytes) :
    fields (encodeFlag number flag ++ rest) =
      (fields rest).map ((if flag then [(number, .varint 1)] else []) ++ ·) := by
  cases flag with
  | false => simp [encodeFlag]
  | true =>
    simpa [encodeFlag] using
      fields_of_readField (readField_writeVarintField hnumber (by decide) rest)

theorem decodeWant_encodeWant (want : Want) (h : (encodeWant want).length < 2 ^ 64) :
    decodeWant (encodeWant want) = some want := by
  have hcid : want.cid.toBinary.length < 2 ^ 64 := by
    have hle := length_le_writeBytes 1 want.cid.toBinary
    simp only [encodeWant, List.length_append] at h
    omega
  have hfields : fields (encodeWant want) = some ([(1, .bytes want.cid.toBinary)] ++
      (if want.cancel then [(3, .varint 1)] else []) ++
      (if want.wantType = .held then [(4, .varint 1)] else []) ++
      (if want.sendDontHave then [(5, .varint 1)] else [])) := by
    have hflags := fields_encodeFlag (by decide : 5 < 2 ^ 61) want.sendDontHave []
    rw [List.append_nil] at hflags
    simp only [encodeWant, List.append_assoc, fields_writeBytes (by decide : 1 < 2 ^ 61) hcid,
      fields_encodeFlag (by decide : 3 < 2 ^ 61), fields_encodeFlag (by decide : 4 < 2 ^ 61),
      hflags]
    simp
  obtain ⟨cid, wantType, cancel, sendDontHave⟩ := want
  have hread : Cid.fromBinary cid.toBinary = some cid := Cid.fromBinary_eq_some.mpr rfl
  rw [decodeWant, hfields]
  cases wantType <;> cases cancel <;> cases sendDontHave <;> simp [wantField, hread]

theorem foldl_wantlistField (wants before : List Want)
    (h : (wants.flatMap fun want => writeBytes 1 (encodeWant want)).length < 2 ^ 64)
    (hroom : before.length + wants.length ≤ maxWantlistEntries) :
    (wants.map fun want => ((1, .bytes (encodeWant want)) : Field)).foldl wantlistField before =
      before ++ wants := by
  induction wants generalizing before with
  | nil => simp
  | cons want wants ih =>
    have hle := length_le_writeBytes 1 (encodeWant want)
    simp only [List.flatMap_cons, List.length_append, List.length_cons] at h hroom
    have hread := decodeWant_encodeWant want (by omega)
    rw [List.map_cons, List.foldl_cons, wantlistField, if_pos (by omega), hread, Option.toList_some,
      ih (before ++ [want]) (by omega)
        (by simp only [List.length_append, List.length_singleton]; omega)]
    simp

theorem decodeWantlist_encode (wants : List Want) (m : Message)
    (h : (wants.flatMap fun want => writeBytes 1 (encodeWant want)).length < 2 ^ 64)
    (hroom : m.wants.length + wants.length ≤ maxWantlistEntries) :
    decodeWantlist (wants.flatMap fun want => writeBytes 1 (encodeWant want)) m =
      some { m with wants := m.wants ++ wants } := by
  have hfields := fields_flatMap (by decide : 1 < 2 ^ 61) encodeWant wants h []
  rw [List.append_nil] at hfields
  simp [decodeWantlist, hfields, foldl_wantlistField wants m.wants h hroom]

theorem decodeBlock_encodeBlock {cid : Cid} {data : Bytes} (m : Message)
    (hmatches : cid.matchesContent sha256 data = true)
    (h : (encodeBlock (cid, data)).length < 2 ^ 64) :
    decodeBlock sha256 (encodeBlock (cid, data)) m =
      some { m with blocks := m.blocks ++ [(cid, data)] } := by
  have hhead := length_le_writeBytes 1 cid.blockPrefix
  have hdata := length_le_writeBytes 2 data
  simp only [encodeBlock, List.length_append] at h
  have hfields : fields (encodeBlock (cid, data)) =
      some [(1, .bytes cid.blockPrefix), (2, .bytes data)] := by
    have hlast := fields_writeBytes (by decide : 2 < 2 ^ 61) (by omega : data.length < 2 ^ 64) []
    rw [List.append_nil] at hlast
    simp only [encodeBlock, hlast,
      fields_writeBytes (by decide : 1 < 2 ^ 61) (by omega : cid.blockPrefix.length < 2 ^ 64)]
    rfl
  have hrebuilt : Cid.fromBinary (cid.blockPrefix ++ (sha256 data).bytes) = some cid := by
    rw [← of_decide_eq_true hmatches, ← Cid.toBinary_eq]
    exact Cid.fromBinary_eq_some.mpr rfl
  simp [decodeBlock, hfields, bytesField, hrebuilt]

theorem decodePresence_encodePresence (entry : Cid × Presence) (m : Message)
    (h : (encodePresence entry).length < 2 ^ 64) :
    decodePresence (encodePresence entry) m =
      some { m with presences := m.presences ++ [entry] } := by
  obtain ⟨cid, presence⟩ := entry
  have hcid := length_le_writeBytes 1 cid.toBinary
  simp only [encodePresence, List.length_append] at h
  have hflag := fields_encodeFlag (by decide : 2 < 2 ^ 61) (presence = .dontHave) []
  rw [List.append_nil] at hflag
  have hread : Cid.fromBinary cid.toBinary = some cid := Cid.fromBinary_eq_some.mpr rfl
  simp only [decodePresence, encodePresence, hflag,
    fields_writeBytes (by decide : 1 < 2 ^ 61) (by omega : cid.toBinary.length < 2 ^ 64)]
  cases presence <;> simp [presenceField, hread]

end Entries

section Messages
variable {sha256} {m m' : Message} {input : Bytes}

theorem foldlM_blocks (blocks : List (Cid × Bytes)) (m : Message)
    (hmatches : ∀ b ∈ blocks, b.1.matchesContent sha256 b.2 = true)
    (h : (blocks.flatMap fun block => writeBytes 3 (encodeBlock block)).length < 2 ^ 64) :
    (blocks.map fun block => ((3, .bytes (encodeBlock block)) : Field)).foldlM
      (messageField sha256) m = some { m with blocks := m.blocks ++ blocks } := by
  induction blocks generalizing m with
  | nil => simp
  | cons block blocks ih =>
    have hle := length_le_writeBytes 3 (encodeBlock block)
    rw [List.flatMap_cons, List.length_append] at h
    obtain ⟨hblock, hblocks⟩ := List.forall_mem_cons.mp hmatches
    rw [List.map_cons, List.foldlM_cons, messageField,
      decodeBlock_encodeBlock sha256 m hblock (show (encodeBlock block).length < _ by omega)]
    refine (ih _ hblocks (by omega)).trans ?_
    simp

theorem foldlM_presences (presences : List (Cid × Presence)) (m : Message)
    (h : (presences.flatMap fun entry => writeBytes 4 (encodePresence entry)).length < 2 ^ 64) :
    (presences.map fun entry => ((4, .bytes (encodePresence entry)) : Field)).foldlM
      (messageField sha256) m = some { m with presences := m.presences ++ presences } := by
  induction presences generalizing m with
  | nil => simp
  | cons entry presences ih =>
    have hle := length_le_writeBytes 4 (encodePresence entry)
    rw [List.flatMap_cons, List.length_append] at h
    rw [List.map_cons, List.foldlM_cons, messageField,
      decodePresence_encodePresence entry m (by omega)]
    refine (ih _ (by omega)).trans ?_
    simp

variable (sha256) in
theorem decode_encodeWantlist (wants : List Want) (hwants : wants.length ≤ maxWantlistEntries)
    (h : (encodeWantlist wants).length < 2 ^ 64) : ∃ fs, fields (encodeWantlist wants) = some fs ∧
      fs.foldlM (messageField sha256) .empty = some ⟨wants, [], []⟩ := by
  unfold encodeWantlist at h ⊢
  split_ifs at h ⊢ with hempty
  · exact ⟨[], rfl, by rw [List.isEmpty_iff.mp hempty]; rfl⟩
  · have hle := length_le_writeBytes 1 (wants.flatMap fun want => writeBytes 1 (encodeWant want))
    have hfields := fields_writeBytes (by decide : 1 < 2 ^ 61) (hle.trans_lt h) []
    rw [List.append_nil, fields_nil] at hfields
    have hwantlist := decodeWantlist_encode wants .empty (hle.trans_lt h)
      (by simpa [Message.empty] using hwants)
    refine ⟨_, hfields, ?_⟩
    simp only [List.foldlM_cons, List.foldlM_nil, messageField, hwantlist]
    rfl

theorem decode_encode_message (m : Message) (hwants : m.wants.length ≤ maxWantlistEntries)
    (hblocks : ∀ b ∈ m.blocks, b.1.matchesContent sha256 b.2 = true)
    (h : m.encode.length < 2 ^ 64) : decode sha256 m.encode = some m := by
  simp only [Message.encode, List.length_append] at h
  obtain ⟨fs, hfs, hwantlist⟩ := decode_encodeWantlist sha256 m.wants hwants (by omega)
  have hpresences :=
    fields_flatMap (by decide : 4 < 2 ^ 61) encodePresence m.presences (by omega) []
  rw [List.append_nil] at hpresences
  rw [decode, Message.encode, List.append_assoc, fields_append hfs,
    fields_flatMap (by decide) encodeBlock m.blocks (by omega), hpresences]
  simp only [fields_nil, Option.map_some, List.append_nil, Option.bind_eq_bind, Option.bind_some,
    List.foldlM_append, hwantlist, foldlM_blocks m.blocks _ hblocks (by omega),
    foldlM_presences m.presences _ (by omega)]
  rfl

theorem messageField_blocks {field : Field} (h : messageField sha256 m field = some m') :
    m'.blocks = m.blocks ∨ ∃ cid data, m'.blocks = m.blocks ++ [(cid, data)] ∧
      cid.matchesContent sha256 data = true := by
  unfold messageField at h
  split at h
  · simp only [decodeWantlist, Option.bind_eq_bind, Option.bind_eq_some_iff] at h
    obtain ⟨fs, -, h⟩ := h
    exact .inl (by rw [← Option.some.inj h])
  · simp only [decodeBlock, Option.bind_eq_bind, Option.bind_eq_some_iff] at h
    obtain ⟨fs, -, h⟩ := h
    split at h
    · next blockPrefix data _ _ =>
      cases hcid : Cid.fromBinary (blockPrefix ++ (sha256 data).bytes) with
      | none =>
        rw [hcid] at h
        exact .inl (by rw [← Option.some.inj h])
      | some cid =>
        rw [hcid] at h
        have hdigest : cid.digest = sha256 data :=
          Cid.digest_of_append (Cid.fromBinary_eq_some.mp hcid)
        exact .inr ⟨cid, data, by rw [← Option.some.inj h], decide_eq_true hdigest⟩
    · exact .inl (by rw [← Option.some.inj h])
  · simp only [decodePresence, Option.bind_eq_bind, Option.bind_eq_some_iff] at h
    obtain ⟨fs, -, h⟩ := h
    exact .inl (by rw [← Option.some.inj h])
  · exact .inl (by rw [← Option.some.inj h])

theorem matches_of_decode (h : decode sha256 input = some m) :
    ∀ b ∈ m.blocks, b.1.matchesContent sha256 b.2 = true := by
  simp only [decode, Option.bind_eq_bind, Option.bind_eq_some_iff] at h
  obtain ⟨fs, -, hfold⟩ := h
  have hstart : ∀ b ∈ Message.empty.blocks, b.1.matchesContent sha256 b.2 = true := by
    simp [Message.empty]
  generalize Message.empty = start at hfold hstart
  induction fs generalizing start with
  | nil =>
    obtain rfl : start = m := by simpa using hfold
    exact hstart
  | cons field fs ih =>
    simp only [List.foldlM_cons, Option.bind_eq_bind, Option.bind_eq_some_iff] at hfold
    obtain ⟨next, hfield, hfold⟩ := hfold
    refine ih next hfold ?_
    rcases messageField_blocks hfield with hsame | ⟨cid, data, hnew, hmatches⟩
    · rwa [hsame]
    · rw [hnew]
      simpa [or_imp, forall_and, hmatches] using hstart

/-- A field of a number that is not known makes no difference where it stands between two
others. -/
def SkipsUnknown {β : Type} (known : List ℕ) (read : Bytes → Option β) : Prop :=
  ∀ (a b f : Bytes) (number : ℕ) (payload : Payload), (fields a).isSome = true →
    readField f = some ((number, payload), []) → number ∉ known → read (a ++ f ++ b) = read (a ++ b)

theorem skipsUnknown_bind {β : Type} {known : List ℕ} {g : List Field → Option β}
    (h : ∀ number, number ∉ known → ∀ (payload : Payload) (fs gs : List Field),
      g (fs ++ (number, payload) :: gs) = g (fs ++ gs)) :
    SkipsUnknown known fun input => fields input >>= g := by
  intro a b f number payload ha hf hnumber
  obtain ⟨fs, hfs⟩ := Option.isSome_iff_exists.mp ha
  have hfield : fields f = some [(number, payload)] := by
    rw [fields_of_readField hf]
    rfl
  simp only [List.append_assoc, fields_append hfs, fields_append hfield]
  cases fields b with
  | none => rfl
  | some gs => exact h number hnumber payload fs gs

theorem decode_skipsUnknown : SkipsUnknown [1, 3, 4] (decode sha256) := by
  refine skipsUnknown_bind fun number hnumber payload fs gs => ?_
  have hskip (m : Message) : messageField sha256 m (number, payload) = some m := by
    unfold messageField
    split <;> simp_all
  simp [List.foldlM_append, hskip]

theorem decodeWant_skipsUnknown : SkipsUnknown [1, 3, 4, 5] decodeWant := by
  refine skipsUnknown_bind fun number hnumber payload fs gs => ?_
  have hskip (s : PartialWant) : wantField s (number, payload) = s := by
    unfold wantField
    split <;> simp_all
  simp [hskip]

theorem decodeWantlist_skipsUnknown (m : Message) : SkipsUnknown [1] (decodeWantlist · m) := by
  refine skipsUnknown_bind fun number hnumber payload fs gs => ?_
  have hskip (wants : List Want) : wantlistField wants (number, payload) = wants := by
    unfold wantlistField
    split <;> simp_all
  simp [hskip]

theorem decodeBlock_skipsUnknown (m : Message) : SkipsUnknown [1, 2] (decodeBlock sha256 · m) := by
  refine skipsUnknown_bind fun number hnumber payload fs gs => ?_
  have hskip (n : ℕ) (hn : n ∈ [1, 2]) :
      bytesField n (fs ++ (number, payload) :: gs) = bytesField n (fs ++ gs) := by
    have hne : number ≠ n := fun heq => hnumber (heq ▸ hn)
    cases payload <;> simp [bytesField, hne]
  rw [hskip 1 (by decide), hskip 2 (by decide)]

theorem decodePresence_skipsUnknown (m : Message) :
    SkipsUnknown [1, 2] (decodePresence · m) := by
  refine skipsUnknown_bind fun number hnumber payload fs gs => ?_
  have hskip (s : Option Cid × Presence) : presenceField s (number, payload) = s := by
    unfold presenceField
    split <;> simp_all
  simp [hskip]

end Messages

/-- Messages survive the wire, hostile ones are filed under the content that they carry, and
unknown fields are stepped over at every level. No byte vector of the source reaches `2 ^ 64`. -/
theorem bitswap_wire (sha256 : Bytes → Digest) :
    (∀ m : Message, m.wants.length ≤ maxWantlistEntries →
      (∀ b ∈ m.blocks, b.1.matchesContent sha256 b.2 = true) → m.encode.length < 2 ^ 64 →
        decode sha256 m.encode = some m) ∧
    (∀ (cid : Cid) (b : Bytes), Cid.fromBinary b = some cid ↔ cid.toBinary = b) ∧
    (∀ (input : Bytes) (m : Message), decode sha256 input = some m →
      ∀ b ∈ m.blocks, b.1.matchesContent sha256 b.2 = true) ∧
    SkipsUnknown [1, 3, 4] (decode sha256) ∧ SkipsUnknown [1, 3, 4, 5] decodeWant ∧
    ∀ m : Message, SkipsUnknown [1] (decodeWantlist · m) ∧
      SkipsUnknown [1, 2] (decodeBlock sha256 · m) ∧ SkipsUnknown [1, 2] (decodePresence · m) :=
  ⟨decode_encode_message, fun _ _ => Cid.fromBinary_eq_some, fun _ _ => matches_of_decode,
    decode_skipsUnknown, decodeWant_skipsUnknown, fun m => ⟨decodeWantlist_skipsUnknown m,
      decodeBlock_skipsUnknown m, decodePresence_skipsUnknown m⟩⟩

theorem bitswap_wire_plain : ∃ c : Cid, c.toBinary = plainBytes ∧
    let m : Message := ⟨[⟨c, .block, false, true⟩], [(c, [1, 2])], [(c, .dontHave)]⟩
    decode (fun _ => .filled 7) m.encode = some m := by
  obtain ⟨c, -, hplain, -, hdigest⟩ := Cid.exists_fromBinary readHeader_plain
  refine ⟨c, hplain, (bitswap_wire _).1 _ (Nat.le_of_ble_eq_true rfl) ?_ ?_⟩
  · simp [Cid.matchesContent, hdigest]
  · simp only [Message.encode, encodeWantlist, encodeWant, encodeBlock, encodePresence,
      Cid.blockPrefix, List.flatMap_cons, List.flatMap_nil, List.isEmpty_cons, hplain, decide_true,
      reduceCtorEq, decide_false]
    decide +kernel

end OpenFiat.BitswapMessages
