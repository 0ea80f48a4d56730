import OpenFiat.DeliveredRecords
import OpenFiat.SettlementRegistry
import OpenFiat.SnapshotIndex

/-!
# Trade channels

The parties of a settlement write sealed entries into its channel and grant the channel key to
those who may read it. Everything is stored under keys that start with the settlement's id, and a
channel is what a scan for that start finds. Of two entries in one slot the first to arrive stands,
of two grants the last one.
-/
namespace OpenFiat.TradeChannels
open DeliveredRecords GuardedResult NodePayloads TradingNode TransactionRuns WireBytes
open RecordStores (RecordStore)
open SettlementRegistry (newSettlement putSettlement)
open GossipEvents (utf8 utf8_injective)
open SnapshotIndex (keyOrder keyOrder_injective)

structure ChannelCiphertext where
  keyId : List UInt8
  nonce : List UInt8
  ciphertext : List UInt8
deriving DecidableEq

inductive EntryKind where
  | paymentDetails
  | message
deriving DecidableEq, Repr

inductive GrantRole where
  | party
  | arbitrator
deriving DecidableEq, Repr

structure TradeChannelKeyGrant where
  settlementId : SettlementId
  granter : PeerId
  recipient : PeerId
  keyId : List UInt8
  sealedKey : SealedBox
  timestamp : Timestamp
deriving DecidableEq

structure TradeChannelEntryPost where
  settlementId : SettlementId
  author : PeerId
  sequence : UInt64
  kind : EntryKind
  payload : ChannelCiphertext
  timestamp : Timestamp
deriving DecidableEq

structure KeyGrant where
  settlementId : SettlementId
  granter : PeerId
  recipient : PeerId
  role : GrantRole
  keyId : List UInt8
  sealedKey : SealedBox
  grantedAt : Timestamp
deriving DecidableEq

structure ChannelEntry where
  settlementId : SettlementId
  author : PeerId
  sequence : UInt64
  kind : EntryKind
  payload : ChannelCiphertext
  postedAt : Timestamp
deriving DecidableEq

structure TradeChannel where
  settlementId : SettlementId
  grants : List KeyGrant
  entries : List ChannelEntry
deriving DecidableEq

inductive ChannelStatement where
  | keyGrant (grant : TradeChannelKeyGrant)
  | entryPost (post : TradeChannelEntryPost)
deriving DecidableEq

inductive TradeChannelError where
  | invalidSignature
  | settlementNotFound
  | notAParty
  | recipientNotPermitted
  | entryTooLarge
  | sequenceReused
deriving DecidableEq, Repr

def maxEntryCiphertext : ℕ := 4352 + 16

def lengthPrefixed (field : List UInt8) : List UInt8 := bigEndian 4 field.length ++ field

def channelPrefix (settlement : SettlementId) : List UInt8 := lengthPrefixed (utf8 settlement.id)

/-- What a peer stores in a settlement's channel. -/
def slotKey (settlement : SettlementId) (peer : PeerId) (rest : List UInt8) : List UInt8 :=
  channelPrefix settlement ++ (lengthPrefixed peer.bytes ++ rest)

def entryKey (settlement : SettlementId) (author : PeerId) (sequence : UInt64) : List UInt8 :=
  slotKey settlement author (bigEndian 8 sequence.toNat)

def grantKey (settlement : SettlementId) (recipient granter : PeerId) : List UInt8 :=
  slotKey settlement recipient granter.bytes

def ChannelEntry.key (entry : ChannelEntry) : List UInt8 :=
  entryKey entry.settlementId entry.author entry.sequence

def KeyGrant.key (grant : KeyGrant) : List UInt8 :=
  grantKey grant.settlementId grant.recipient grant.granter

structure Channels where
  grants : RecordStore KeyGrant.key
  entries : RecordStore ChannelEntry.key

def Channels.empty : Channels := ⟨.empty, .empty⟩

/-- What is stored under the keys with the given start, by rank. -/
def scan {α ι : Type} [LinearOrder ι] {key : α → List UInt8} (rank : α → ι)
    (store : RecordStore key) (start : List UInt8) : List α :=
  ((store.all keyOrder keyOrder_injective).filter fun a => start.isPrefixOf (key a)).insertionSort
    (rank · ≤ rank ·)

def KeyGrant.rank (grant : KeyGrant) : List ℕ ×ₗ List ℕ :=
  toLex (keyOrder grant.recipient.bytes, keyOrder grant.granter.bytes)

/-- By the time that the author claims, then by author and sequence number. -/
def ChannelEntry.rank (entry : ChannelEntry) : Timestamp ×ₗ List ℕ ×ₗ ℕ :=
  toLex (entry.postedAt, toLex (keyOrder entry.author.bytes, entry.sequence.toNat))

def channel (c : Channels) (settlement : SettlementId) : TradeChannel where
  settlementId := settlement
  grants := scan KeyGrant.rank c.grants (channelPrefix settlement)
  entries := scan ChannelEntry.rank c.entries (channelPrefix settlement)

def partyKey (settlement : Settlement) (peer : PeerId) : Except TradeChannelError PublicKey :=
  if peer = settlement.buyer then .ok settlement.buyerPublicKey
  else if peer = settlement.seller then .ok settlement.sellerPublicKey
  else .error .notAParty

section Operations
variable (S : SignatureScheme ChannelStatement) (n : Node)

def roleOf (id : SettlementId) (settlement : Settlement) (recipient : PeerId) :
    Except TradeChannelError GrantRole :=
  if recipient = settlement.buyer ∨ recipient = settlement.seller then .ok .party
  else if ∃ dispute ∈ n.disputes.keys, (n.disputes.lookup dispute).any fun d =>
      d.settlementId = id && d.arbitrators.contains recipient then .ok .arbitrator
  else .error .recipientNotPermitted

/-- The checks of a grant, and the record it makes. -/
def checkKeyGrant (signed : Signed TradeChannelKeyGrant) : Except TradeChannelError KeyGrant := do
  let grant := signed.payload
  let settlement ← load (n.settlements.lookup grant.settlementId) .settlementNotFound
  let granterKey ← partyKey settlement grant.granter
  require (S.verify granterKey (.keyGrant grant) signed.signature = true) .invalidSignature
  let role ← roleOf n grant.settlementId settlement grant.recipient
  return ⟨grant.settlementId, grant.granter, grant.recipient, role, grant.keyId, grant.sealedKey,
    grant.timestamp⟩

def applyKeyGrant (c : Channels) (signed : Signed TradeChannelKeyGrant) :
    Except TradeChannelError Channels := do
  let grant ← checkKeyGrant S n signed
  return ⟨c.grants.put grant, c.entries⟩

/-- The checks of an entry that do not look at the channel, and the record it makes. -/
def checkEntry (signed : Signed TradeChannelEntryPost) : Except TradeChannelError ChannelEntry := do
  let post := signed.payload
  let settlement ← load (n.settlements.lookup post.settlementId) .settlementNotFound
  let authorKey ← partyKey settlement post.author
  require (S.verify authorKey (.entryPost post) signed.signature = true) .invalidSignature
  require (post.payload.ciphertext.length ≤ maxEntryCiphertext) .entryTooLarge
  return ⟨post.settlementId, post.author, post.sequence, post.kind, post.payload, post.timestamp⟩

/-- An entry takes a free slot; in its own slot it changes nothing. -/
def place (c : Channels) (entry : ChannelEntry) : Except TradeChannelError Channels :=
  match c.entries.get entry.key with
  | some existing => if existing = entry then .ok c else .error .sequenceReused
  | none => .ok ⟨c.grants, c.entries.put entry⟩

def applyEntry (c : Channels) (signed : Signed TradeChannelEntryPost) :
    Except TradeChannelError Channels := do
  let entry ← checkEntry S n signed
  place c entry

inductive Delivery where
  | keyGranted (signed : Signed TradeChannelKeyGrant)
  | entryPosted (signed : Signed TradeChannelEntryPost)

def step (c : Channels) : Delivery → Except TradeChannelError Channels
  | .keyGranted signed => applyKeyGrant S n c signed
  | .entryPosted signed => applyEntry S n c signed

def replica (ds : List Delivery) : Channels := run (step S n) .empty ds

def grantOf : Delivery → Option KeyGrant
  | .keyGranted signed => (checkKeyGrant S n signed).toOption
  | .entryPosted _ => none

def entryOf : Delivery → Option ChannelEntry
  | .keyGranted _ => none
  | .entryPosted signed => (checkEntry S n signed).toOption

end Operations

variable {S : SignatureScheme ChannelStatement} {n : Node}

theorem place_ok {c c' : Channels} {entry : ChannelEntry} (h : place c entry = .ok c') :
    c.entries.get entry.key = none ∧ c' = ⟨c.grants, c.entries.put entry⟩ ∨
      c.entries.get entry.key = some entry ∧ c' = c := by
  cases hget : c.entries.get entry.key with
  | none =>
    simp only [place, hget, Except.ok.injEq] at h
    exact .inl ⟨rfl, h.symm⟩
  | some =>
    simp only [place, hget] at h
    split_ifs at h with heq
    exact .inr ⟨congrArg some heq, (Except.ok.inj h).symm⟩

theorem apply_step (c : Channels) (d : Delivery) : apply (step S n) c d =
    ⟨(grantOf S n d).elim c.grants c.grants.put, (entryOf S n d).elim c.entries fun entry =>
      if first (c.entries.get entry.key) entry then c.entries.put entry else c.entries⟩ := by
  cases d with
  | keyGranted signed =>
    simp only [apply, step, applyKeyGrant, grantOf]
    cases checkKeyGrant S n signed <;> rfl
  | entryPosted signed =>
    cases hcheck : checkEntry S n signed with
    | error e =>
      have hstep : step S n c (.entryPosted signed) = .error e :=
        (bind_error _ _ _).mpr (.inl hcheck)
      rw [apply_error hstep, entryOf, hcheck]
      rfl
    | ok entry =>
      have hstep : step S n c (.entryPosted signed) = place c entry := by
        rw [step, applyEntry, hcheck]
        rfl
      rw [entryOf, hcheck, grantOf, Except.toOption, Option.elim_some]
      cases hplace : place c entry with
      | error =>
        rw [apply_error (hstep.trans hplace)]
        cases hget : c.entries.get entry.key with
        | none =>
          rw [place, hget] at hplace
          cases hplace
        | some => rfl
      | ok =>
        rw [apply_ok (hstep.trans hplace)]
        rcases place_ok hplace with ⟨hget, rfl⟩ | ⟨hget, rfl⟩ <;> rw [hget] <;> rfl

theorem follows_grants : Follows (step S n) Channels.grants (grantOf S n) last := by
  intro c d
  rw [apply_step]
  rfl

theorem follows_entries : Follows (step S n) Channels.entries (entryOf S n) first := by
  intro c d
  rw [apply_step]

section Scan
variable {α ι : Type} [LinearOrder ι] {key : α → List UInt8} {rank : α → ι}
  {store : RecordStore key}
  {start : List UInt8}

theorem mem_scan {a : α} :
    a ∈ scan rank store start ↔ store.get (key a) = some a ∧ start <+: key a := by
  rw [scan, List.mem_insertionSort, List.mem_filter, RecordStore.mem_all,
    List.isPrefixOf_iff_prefix]

/-- A scan is the only listing of what it finds in strict order of rank. -/
theorem eq_scan_iff {l : List α}
    (hrank : ∀ a ∈ scan rank store start, ∀ b ∈ scan rank store start, rank a = rank b → a = b) :
    ((∀ a, a ∈ l ↔ a ∈ scan rank store start) ∧ l.Pairwise fun a b => rank a < rank b) ↔
      l = scan rank store start := by
  have hfound : ((store.all keyOrder keyOrder_injective).filter fun a =>
      start.isPrefixOf (key a)).Pairwise fun a b => rank a ≠ rank b := by
    refine ((RecordStore.pairwise_all store).filter _).imp_of_mem fun {a b} ha hb hne heq => ?_
    exact hne (congrArg key (hrank a ((List.mem_insertionSort _).mpr ha) b
      ((List.mem_insertionSort _).mpr hb) heq))
  have hstrict := pairwise_lt_insertionSort hfound
  constructor
  · rintro ⟨hmem, hsorted⟩
    exact FiniteTable.Table.eq_of_ascending _ hsorted hstrict hmem
  · rintro rfl
    exact ⟨fun _ => Iff.rfl, hstrict⟩

/-- Everything on file is found by the scan for its own settlement. -/
theorem store_eq_of_scan {store' : RecordStore key} {settlementOf : α → SettlementId}
    (hstart : ∀ a, channelPrefix (settlementOf a) <+: key a)
    (h : ∀ id, scan rank store (channelPrefix id) = scan rank store' (channelPrefix id)) :
    store = store' := by
  have hmem (a : α) : store.get (key a) = some a ↔ store'.get (key a) = some a := by
    have hscan := congrArg (a ∈ ·) (h (settlementOf a))
    simp only [mem_scan, hstart a, and_true] at hscan
    exact iff_of_eq hscan
  refine store_ext fun k => Option.ext fun a => ⟨fun ha => ?_, fun ha => ?_⟩
  · obtain rfl := RecordStore.idOf_get ha
    exact (hmem a).mp ha
  · obtain rfl := RecordStore.idOf_get ha
    exact (hmem a).mpr ha

end Scan

theorem channelPrefix_slotKey (id : SettlementId) (peer : PeerId) (rest : List UInt8) :
    channelPrefix id <+: slotKey id peer rest :=
  List.prefix_append _ _

theorem channel_ext {c c' : Channels} (h : ∀ id, channel c id = channel c' id) : c = c' := by
  obtain ⟨grants, entries⟩ := c
  obtain ⟨grants', entries'⟩ := c'
  obtain rfl : grants = grants' :=
    store_eq_of_scan (fun _ => channelPrefix_slotKey _ _ _) fun id =>
      congrArg TradeChannel.grants (h id)
  obtain rfl : entries = entries' :=
    store_eq_of_scan (fun _ => channelPrefix_slotKey _ _ _) fun id =>
      congrArg TradeChannel.entries (h id)
  rfl

/-- Replicas agree whatever the order of arrival exactly if nobody signs two different entries for
one slot and nobody grants the key to one recipient in two ways. -/
theorem channel_replicas_converge_iff (S : SignatureScheme ChannelStatement) (n : Node)
    (ds : List Delivery) :
    (∀ ds₁ ds₂, ds₁.Perm ds → ds₂.Perm ds → ∀ id,
      channel (replica S n ds₁) id = channel (replica S n ds₂) id) ↔
      Unequivocal ChannelEntry.key (entryOf S n) ds ∧
        Unequivocal KeyGrant.key (grantOf S n) ds := by
  rw [← follows_entries.order_independent_iff (.inl rfl) (s := .empty) rfl,
    ← follows_grants.order_independent_iff (.inr rfl) (s := .empty) rfl]
  constructor
  · intro h
    have heq (ds₁ ds₂ : List Delivery) (hperm₁ : ds₁.Perm ds) (hperm₂ : ds₂.Perm ds) :
        replica S n ds₁ = replica S n ds₂ :=
      channel_ext (h ds₁ ds₂ hperm₁ hperm₂)
    exact ⟨fun ds₁ ds₂ hperm₁ hperm₂ => congrArg Channels.entries (heq ds₁ ds₂ hperm₁ hperm₂),
      fun ds₁ ds₂ hperm₁ hperm₂ => congrArg Channels.grants (heq ds₁ ds₂ hperm₁ hperm₂)⟩
  · rintro ⟨hentries, hgrants⟩ ds₁ ds₂ hperm₁ hperm₂ id
    unfold channel
    rw [show (replica S n ds₁).entries = _ from hentries ds₁ ds₂ hperm₁ hperm₂,
      show (replica S n ds₁).grants = _ from hgrants ds₁ ds₂ hperm₁ hperm₂]
    rfl

/-- Ids that are shorter than what a length prefix can say. -/
def Short (id : SettlementId) (peer : PeerId) : Prop :=
  (utf8 id.id).length < 2 ^ 32 ∧ peer.bytes.length < 2 ^ 32
deriving Decidable

theorem lengthPrefixed_append_inj {a b x y : List UInt8} (ha : a.length < 2 ^ 32)
    (hb : b.length < 2 ^ 32) (h : lengthPrefixed a ++ x = lengthPrefixed b ++ y) :
    a = b ∧ x = y := by
  unfold lengthPrefixed at h
  rw [List.append_assoc, List.append_assoc] at h
  obtain ⟨hlength, hrest⟩ := List.append_inj h (by rw [length_bigEndian, length_bigEndian])
  exact List.append_inj hrest (bigEndian_injOn ha hb hlength)

theorem channelPrefix_append_inj {id id' : SettlementId} {x y : List UInt8}
    (hid : (utf8 id.id).length < 2 ^ 32) (hid' : (utf8 id'.id).length < 2 ^ 32)
    (h : channelPrefix id ++ x = channelPrefix id' ++ y) : id = id' ∧ x = y := by
  obtain ⟨hutf8, hrest⟩ := lengthPrefixed_append_inj hid hid' h
  exact ⟨congrArg SettlementId.mk (utf8_injective hutf8), hrest⟩

/-- Keys determine what they are made of, and the scan for a settlement finds no key of another
one. -/
structure KeysApart {α : Type} (key : SettlementId → PeerId → α → List UInt8) : Prop where
  injective : ∀ id id' peer peer' a a', Short id peer → Short id' peer' →
    key id peer a = key id' peer' a' → id = id' ∧ peer = peer' ∧ a = a'
  scanned : ∀ id id' peer a, (utf8 id.id).length < 2 ^ 32 → Short id' peer →
    (channelPrefix id <+: key id' peer a ↔ id' = id)

theorem keysApart_slotKey {α : Type} {tail : α → List UInt8} (htail : Function.Injective tail) :
    KeysApart fun id peer a => slotKey id peer (tail a) := by
  refine ⟨fun id id' peer peer' a a' hshort hshort' h => ?_, fun id id' peer a hid hshort => ?_⟩
  · obtain ⟨rfl, hrest⟩ := channelPrefix_append_inj hshort.1 hshort'.1 h
    obtain ⟨hpeer, hrest⟩ := lengthPrefixed_append_inj hshort.2 hshort'.2 hrest
    exact ⟨rfl, congrArg PeerId.mk hpeer, htail hrest⟩
  · constructor
    · rintro ⟨rest, h⟩
      exact (channelPrefix_append_inj hid hshort.1 h).1.symm
    · rintro rfl
      exact channelPrefix_slotKey _ _ _

theorem keysApart_entryKey : KeysApart entryKey :=
  keysApart_slotKey fun sequence sequence' h =>
    UInt64.toNat_inj.mp (bigEndian_injOn sequence.toNat_lt sequence'.toNat_lt h)

theorem keysApart_grantKey : KeysApart grantKey :=
  keysApart_slotKey fun _ _ h => congrArg PeerId.mk h

def Delivery.settlementId : Delivery → SettlementId
  | .keyGranted signed => signed.payload.settlementId
  | .entryPosted signed => signed.payload.settlementId

/-- The peer whose slot it is. -/
def Delivery.peer : Delivery → PeerId
  | .keyGranted signed => signed.payload.recipient
  | .entryPosted signed => signed.payload.author

def Delivery.Short (d : Delivery) : Prop := TradeChannels.Short d.settlementId d.peer
deriving Decidable

def ChannelEntry.slot (entry : ChannelEntry) : SettlementId × PeerId × UInt64 :=
  (entry.settlementId, entry.author, entry.sequence)

def KeyGrant.slot (grant : KeyGrant) : SettlementId × PeerId × PeerId :=
  (grant.settlementId, grant.recipient, grant.granter)

theorem short_of_entryOf {d : Delivery} {entry : ChannelEntry} (h : entryOf S n d = some entry) :
    (d.Short ↔ Short entry.settlementId entry.author) ∧ entry.settlementId = d.settlementId := by
  cases d with
  | keyGranted => cases h
  | entryPosted =>
    have h := toOption_eq_some.mp h
    simp only [checkEntry, bind_ok, pure_ok] at h
    obtain ⟨_, -, _, -, _, -, _, -, rfl⟩ := h
    exact ⟨Iff.rfl, rfl⟩

theorem short_of_grantOf {d : Delivery} {grant : KeyGrant} (h : grantOf S n d = some grant) :
    (d.Short ↔ Short grant.settlementId grant.recipient) ∧
      grant.settlementId = d.settlementId := by
  cases d with
  | keyGranted =>
    have h := toOption_eq_some.mp h
    simp only [checkKeyGrant, bind_ok, pure_ok] at h
    obtain ⟨_, -, _, -, _, -, _, -, rfl⟩ := h
    exact ⟨Iff.rfl, rfl⟩
  | entryPosted => cases h

/-- In order of rank, the record that is picked of those delivered for each slot of the
settlement. -/
def Stands {α β ι : Type} [DecidableEq β] [LinearOrder ι] (pick : List α → Option α)
    (slot : α → SettlementId × PeerId × β) (rank : α → ι) (id : SettlementId) (delivered : List α)
    (shown : List α) : Prop :=
  (∀ a, a ∈ shown ↔ pick (delivered.filter (slot · = slot a)) = some a ∧ (slot a).1 = id) ∧
    shown.Pairwise fun a b => rank a < rank b

/-- The channel has, of the entries delivered for one slot, the first one, and of the grants the
last one. -/
structure Shows (S : SignatureScheme ChannelStatement) (n : Node) (ds : List Delivery)
    (id : SettlementId) (shown : TradeChannel) : Prop where
  settlement : shown.settlementId = id
  entries : Stands List.head? ChannelEntry.slot ChannelEntry.rank id (ds.filterMap (entryOf S n))
    shown.entries
  grants : Stands List.getLast? KeyGrant.slot KeyGrant.rank id (ds.filterMap (grantOf S n))
    shown.grants

section Slots
variable {α β ι : Type} [DecidableEq β] [LinearOrder ι]
  {key : SettlementId → PeerId → β → List UInt8}
  {slot : α → SettlementId × PeerId × β} {id : SettlementId} {l : List α}

section Scanned
variable {keyOf : α → List UInt8} {store : RecordStore keyOf} {rank : α → ι} (h : KeysApart key)
  (hkeyOf : ∀ a, keyOf a = key (slot a).1 (slot a).2.1 (slot a).2.2)
  (hid : (utf8 id.id).length < 2 ^ 32) (hshort : ∀ a ∈ l, Short (slot a).1 (slot a).2.1)
  {pick : List α → Option α} (hpick : ∀ l a, pick l = some a → a ∈ l)
  (hfile : ∀ k, store.get k = pick (l.filter (keyOf · = k)))
include h hkeyOf hid hshort hpick hfile

theorem mem_scan_iff (a : α) : a ∈ scan rank store (channelPrefix id) ↔
    pick (l.filter (slot · = slot a)) = some a ∧ (slot a).1 = id := by
  have hslot (ha : a ∈ l) : l.filter (keyOf · = keyOf a) = l.filter (slot · = slot a) := by
    refine List.filter_congr fun b hb => decide_eq_decide.mpr ⟨fun hkey => ?_, fun heq => ?_⟩
    · rw [hkeyOf, hkeyOf] at hkey
      obtain ⟨hid, hpeer, hrest⟩ := h.injective _ _ _ _ _ _ (hshort b hb) (hshort a ha) hkey
      exact Prod.ext hid (Prod.ext hpeer hrest)
    · rw [hkeyOf, hkeyOf, heq]
  have hstart (ha : a ∈ l) : channelPrefix id <+: keyOf a ↔ (slot a).1 = id := by
    rw [hkeyOf]
    exact h.scanned _ _ _ _ hid (hshort a ha)
  rw [mem_scan, hfile]
  constructor
  · rintro ⟨hstands, hfound⟩
    have ha := List.mem_of_mem_filter (hpick _ _ hstands)
    exact ⟨hslot ha ▸ hstands, (hstart ha).mp hfound⟩
  · rintro ⟨hstands, hown⟩
    have ha := List.mem_of_mem_filter (hpick _ _ hstands)
    exact ⟨(hslot ha).symm ▸ hstands, (hstart ha).mpr hown⟩

theorem stands_iff (hrank : ∀ a b, (slot a).1 = (slot b).1 → rank a = rank b → slot a = slot b)
    {shown : List α} :
    Stands pick slot rank id l shown ↔ shown = scan rank store (channelPrefix id) := by
  have hmem (a : α) : a ∈ scan rank store (channelPrefix id) ↔ _ :=
    mem_scan_iff h hkeyOf hid hshort hpick hfile a
  rw [Stands, ← eq_scan_iff fun a ha b hb heq => ?_]
  · simp only [hmem]
  · obtain ⟨ha, hida⟩ := (hmem a).mp ha
    obtain ⟨hb, hidb⟩ := (hmem b).mp hb
    rw [hrank a b (hida.trans hidb.symm) heq, hb] at ha
    exact (Option.some.inj ha).symm

end Scanned

/-- Deliveries for another settlement fill none of its slots. -/
theorem Stands.concat {offer : Delivery → Option α} {ds : List Delivery} {d : Delivery}
    {pick : List α → Option α} {rank : α → ι} {shown : List α}
    (h : Stands pick slot rank id (ds.filterMap offer) shown)
    (hd : ∀ b, offer d = some b → (slot b).1 ≠ id) :
    Stands pick slot rank id ((ds ++ [d]).filterMap offer) shown := by
  refine ⟨fun a => (h.1 a).trans (and_congr_left fun ha => ?_), h.2⟩
  have hnil : ([d].filterMap offer).filter (slot · = slot a) = [] := by
    refine List.filter_eq_nil_iff.mpr fun b hb heq => ?_
    obtain ⟨d', hd', hoffer⟩ := List.mem_filterMap.mp hb
    obtain rfl := List.mem_singleton.mp hd'
    exact hd b hoffer ((congrArg Prod.fst (of_decide_eq_true heq)).trans ha)
  rw [List.filterMap_append, List.filter_append, hnil, List.append_nil]

end Slots

theorem ChannelEntry.key_eq (entry : ChannelEntry) :
    entry.key = entryKey entry.slot.1 entry.slot.2.1 entry.slot.2.2 := rfl

theorem KeyGrant.key_eq (grant : KeyGrant) :
    grant.key = grantKey grant.slot.1 grant.slot.2.1 grant.slot.2.2 := rfl

theorem ChannelEntry.slot_eq_of_rank {entry entry' : ChannelEntry}
    (hid : entry.settlementId = entry'.settlementId) (h : entry.rank = entry'.rank) :
    entry.slot = entry'.slot := by
  have h := (Prod.mk.inj (toLex.injective h)).2
  obtain ⟨hauthor, hsequence⟩ := Prod.mk.inj (toLex.injective h)
  exact Prod.ext hid (Prod.ext (congrArg PeerId.mk (keyOrder_injective hauthor))
    (UInt64.toNat_inj.mp hsequence))

theorem KeyGrant.slot_eq_of_rank {grant grant' : KeyGrant}
    (hid : grant.settlementId = grant'.settlementId) (h : grant.rank = grant'.rank) :
    grant.slot = grant'.slot := by
  obtain ⟨hrecipient, hgranter⟩ := Prod.mk.inj (toLex.injective h)
  exact Prod.ext hid (Prod.ext (congrArg PeerId.mk (keyOrder_injective hrecipient))
    (congrArg PeerId.mk (keyOrder_injective hgranter)))

section Shown
variable {ds : List Delivery} {id : SettlementId}

theorem entries_stand_iff (hds : ∀ d ∈ ds, d.Short) (hid : (utf8 id.id).length < 2 ^ 32)
    {shown : List ChannelEntry} : Stands List.head? ChannelEntry.slot ChannelEntry.rank id
      (ds.filterMap (entryOf S n)) shown ↔
        shown = scan ChannelEntry.rank (replica S n ds).entries (channelPrefix id) := by
  refine stands_iff keysApart_entryKey ChannelEntry.key_eq hid (fun entry hentry => ?_)
    (fun _ _ => List.mem_of_mem_head?) (fun k => ?_) fun _ _ => ChannelEntry.slot_eq_of_rank
  · obtain ⟨d, hd, hentry⟩ := List.mem_filterMap.mp hentry
    exact (short_of_entryOf hentry).1.mp (hds d hd)
  · rw [replica, follows_entries.get_run, foldl_first, List.filter_filterMap]
    rfl

theorem grants_stand_iff (hds : ∀ d ∈ ds, d.Short) (hid : (utf8 id.id).length < 2 ^ 32)
    {shown : List KeyGrant} : Stands List.getLast? KeyGrant.slot KeyGrant.rank id
      (ds.filterMap (grantOf S n)) shown ↔
        shown = scan KeyGrant.rank (replica S n ds).grants (channelPrefix id) := by
  refine stands_iff keysApart_grantKey KeyGrant.key_eq hid (fun grant hgrant => ?_)
    (fun _ _ => List.mem_of_getLast?) (fun k => ?_) fun _ _ => KeyGrant.slot_eq_of_rank
  · obtain ⟨d, hd, hgrant⟩ := List.mem_filterMap.mp hgrant
    exact (short_of_grantOf hgrant).1.mp (hds d hd)
  · rw [replica, follows_grants.get_run, foldl_last, List.filter_filterMap]
    exact Option.or_none

theorem shows_iff (hds : ∀ d ∈ ds, d.Short) (hid : (utf8 id.id).length < 2 ^ 32)
    (shown : TradeChannel) : Shows S n ds id shown ↔ shown = channel (replica S n ds) id := by
  constructor
  · rintro ⟨rfl, hentries, hgrants⟩
    rw [channel, ← (entries_stand_iff hds hid).mp hentries,
      ← (grants_stand_iff hds hid).mp hgrants]
  · rintro rfl
    exact ⟨rfl, (entries_stand_iff hds hid).mpr rfl, (grants_stand_iff hds hid).mpr rfl⟩

end Shown

/-- Short ids keep the keys of different settlements apart. A channel is the one listing, by time,
author and sequence number, of the first entries delivered for its slots and, by recipient and
granter, of the last grants; what is delivered for another settlement changes nothing in it. -/
theorem channels_isolated (S : SignatureScheme ChannelStatement) (n : Node) (ds : List Delivery)
    (hds : ∀ d ∈ ds, d.Short) (id : SettlementId) (hid : (utf8 id.id).length < 2 ^ 32) :
    KeysApart entryKey ∧ KeysApart grantKey ∧
      (∀ shown, Shows S n ds id shown ↔ shown = channel (replica S n ds) id) ∧
      ∀ d, d.Short → d.settlementId ≠ id →
        channel (replica S n (ds ++ [d])) id = channel (replica S n ds) id := by
  refine ⟨keysApart_entryKey, keysApart_grantKey, shows_iff hds hid, fun d hshort hd => ?_⟩
  have hshows : Shows S n (ds ++ [d]) id (channel (replica S n ds) id) :=
    ⟨rfl, ((entries_stand_iff hds hid).mpr rfl).concat fun entry h heq =>
        hd ((short_of_entryOf h).2.symm.trans heq),
      ((grants_stand_iff hds hid).mpr rfl).concat fun grant h heq =>
        hd ((short_of_grantOf h).2.symm.trans heq)⟩
  have hdelivered := List.forall_mem_append.mpr ⟨hds, List.forall_mem_singleton.mpr hshort⟩
  exact ((shows_iff hdelivered hid _).mp hshows).symm

namespace OneTrade

def node : Node :=
  putSettlement emptyNode ⟨"s"⟩
    (newSettlement ⟨⟨"s"⟩, ⟨"r"⟩, peer 1, .filled 1, peer 2, .filled 2, .new 1 0, 0⟩)

def scheme : SignatureScheme ChannelStatement where
  verify key statement _ := match statement with
    | .keyGrant grant => decide (grant.granter = ⟨key.bytes⟩)
    | .entryPost post => decide (post.author = ⟨key.bytes⟩)
  peerIdFromPublicKey key := some ⟨key.bytes⟩

/-- The buyer writes. -/
def entry (sequence : UInt64) (time : Timestamp) : Delivery :=
  .entryPosted ⟨⟨⟨"s"⟩, peer 1, sequence, .message, ⟨[], [], []⟩, time⟩, ⟨[]⟩⟩

/-- The seller hands the key to the buyer. -/
def grant (time : Timestamp) : Delivery :=
  .keyGranted ⟨⟨⟨"s"⟩, peer 2, peer 1, [], ⟨[], [], []⟩, time⟩, ⟨[]⟩⟩

def conversation : List Delivery := [grant 3, grant 4, entry 0 2, entry 1 1]

/-- A second trade of the same parties. -/
def twoTrades : Node :=
  putSettlement node ⟨"t"⟩
    (newSettlement ⟨⟨"t"⟩, ⟨"r"⟩, peer 1, .filled 1, peer 2, .filled 2, .new 1 0, 0⟩)

def aside : Delivery :=
  .entryPosted ⟨⟨⟨"t"⟩, peer 1, 0, .message, ⟨[], [], []⟩, 5⟩, ⟨[]⟩⟩

/-- The times of what the channel shows. -/
def shownTimes (ds : List Delivery) : List Timestamp × List Timestamp :=
  let shown := channel (replica scheme node ds) ⟨"s"⟩
  (shown.entries.map ChannelEntry.postedAt, shown.grants.map KeyGrant.grantedAt)

end OneTrade

open OneTrade in
/-- Of two entries for one sequence number, and of two grants, each replica keeps the one that its
order of arrival prefers. -/
theorem channel_replicas_differ :
    shownTimes [entry 0 1, entry 0 2, grant 3, grant 4] = ([1], [4]) ∧
      shownTimes [entry 0 2, entry 0 1, grant 4, grant 3] = ([2], [3]) := by
  decide +kernel

open OneTrade in
/-- Both grants are applied and one of them is shown; the second entry claims an earlier time and
is shown first. -/
theorem channel_drops_grant_reorders_entries :
    (transitions (step scheme node) .empty conversation).length = 4 ∧
      shownTimes conversation = ([1, 2], [4]) ∧
      (channel (replica scheme node conversation) ⟨"s"⟩).entries.map ChannelEntry.sequence =
        [1, 0] := by
  decide +kernel

open OneTrade in
/-- What is posted in one of two trades is shown there and not in the other. -/
theorem channels_isolated_aside :
    (channel (replica scheme twoTrades (conversation ++ [aside])) ⟨"t"⟩).entries.length = 1 ∧
      channel (replica scheme twoTrades (conversation ++ [aside])) ⟨"s"⟩ =
        channel (replica scheme twoTrades conversation) ⟨"s"⟩ ∧
      ∀ shown, Shows scheme twoTrades conversation ⟨"s"⟩ shown ↔
        shown = channel (replica scheme twoTrades conversation) ⟨"s"⟩ := by
  obtain ⟨-, -, hshows, hothers⟩ := channels_isolated scheme twoTrades conversation
    (by decide +kernel) ⟨"s"⟩ (by decide +kernel)
  exact ⟨by decide +kernel, hothers aside (by decide +kernel) (by decide), hshows⟩

end OpenFiat.TradeChannels
