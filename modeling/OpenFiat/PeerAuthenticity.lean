import OpenFiat.PeerDiscovery

/-!
# Records that their peers signed

A record is genuine if its peer id is the id of its key and the holder of that key signed an
advertisement with its content. The loop over a received batch writes every advert into the
cache as it comes: the adverts of an exchange carry no signature, and
`SignedAdvertisement.verify` is not called. So a cache holds genuine records and placeholders as
long as the adverts about other peers that the node receives repeat advertisements that pass
`verify`, and one announcement of somebody else's making, with an address or without, is enough to
replace what is known about a peer.
-/
namespace OpenFiat.PeerAuthenticity
open TransactionRuns NodePayloads RecordStores PeerDiscovery

section
variable (P : DiscoveryPlatform) (signedBy : PublicKey → Advertisement → Prop)

/-- A signature that verifies is one that the holder of the key made. -/
def Unforgeable : Prop := ∀ key advertisement bytes signature,
  P.encodeAdvertisement advertisement = some bytes → P.verify key bytes signature = true →
    signedBy key advertisement

def KeyedIds : Prop := ∀ key key' id,
  P.peerIdFromPublicKey key = some id → P.peerIdFromPublicKey key' = some id → key = key'

structure Genuine (advert : PeerAdvert) : Prop where
  derived : P.peerIdFromPublicKey advert.publicKey = some advert.peerId
  signed : ∃ advertisement, signedBy advert.publicKey advertisement ∧
    advertisement.content = advert

/-- All that is cached is genuine, apart from the placeholders. -/
def Authentic (d : DiscoveryService) : Prop :=
  ∀ id r, d.cache.get id = some r → r.IsPlaceholder ∨ Genuine P signedBy r.advert

/-- The adverts about other peers that an event delivers are the contents of signed
advertisements that pass the check. -/
def Vouched (self : PeerId) (i : Input) : Prop :=
  ∀ advert ∈ i.event.adverts P, advert.peerId ≠ self →
    ∃ s : SignedAdvertisement, s.verify P = .ok () ∧ s.advertisement.content = advert

end

variable {P : DiscoveryPlatform} {signedBy : PublicKey → Advertisement → Prop}

variable {d : DiscoveryService}

theorem authentic_empty (h : d.cache = RecordStore.empty) : Authentic P signedBy d := by
  intro id r hr
  rw [h] at hr
  cases hr

section
variable (hunforgeable : Unforgeable P signedBy)
include hunforgeable

theorem genuine_of_verify {s : SignedAdvertisement}
    (h : s.verify P = .ok ()) : Genuine P signedBy s.advertisement.content := by
  obtain ⟨hkey, bytes, hbytes, hsignature⟩ := SignedAdvertisement.verify_ok.mp h
  exact ⟨hkey, s.advertisement, hunforgeable _ _ bytes s.signature hbytes hsignature, rfl⟩

theorem Vouched.genuine {self : PeerId} {i : Input} (h : Vouched P self i) {advert : PeerAdvert}
    (hmem : advert ∈ i.event.adverts P) (hne : advert.peerId ≠ self) :
    Genuine P signedBy advert := by
  obtain ⟨s, hverify, rfl⟩ := h advert hmem hne
  exact genuine_of_verify hunforgeable hverify

/-- A record after an event that delivers signed adverts only. -/
theorem Vouched.cached {i : Input} (h : Vouched P d.selfPeerId i) {id : PeerId} {r : PeerRecord}
    (hr : (handle P d i).1.cache.get id = some r) :
    (∃ r₀, d.cache.get id = some r₀ ∧ r₀.advert = r.advert) ∨ Genuine P signedBy r.advert ∨
      d.cache.get id = none ∧ r.IsPlaceholder := by
  rcases (handle_handled d i).fed id r hr with (hbefore | ⟨hmem, hself⟩) | hplaceholder
  · exact .inl hbefore
  · have hother : r.peerId ≠ d.selfPeerId := (RecordStore.idOf_get hr).symm ▸ hself
    exact .inr (.inl (h.genuine hunforgeable hmem hother))
  · exact .inr (.inr hplaceholder)

theorem handle_authentic {i : Input}
    (h : Authentic P signedBy d) (hvouched : Vouched P d.selfPeerId i) :
    Authentic P signedBy (handle P d i).1 := by
  intro id r hr
  rcases hvouched.cached hunforgeable hr with ⟨r₀, hr₀, hadvert⟩ | hgenuine | hplaceholder
  · have hid : r₀.peerId = r.peerId := congrArg PeerAdvert.peerId hadvert
    rw [PeerRecord.IsPlaceholder, ← hadvert, ← hid]
    exact h id r₀ hr₀
  · exact .inr hgenuine
  · exact .inl hplaceholder.2

theorem run_authentic (h : Authentic P signedBy d)
    {inputs : List Input} (hvouched : ∀ i ∈ inputs, Vouched P d.selfPeerId i) :
    (run (step P) d inputs).selfPeerId = d.selfPeerId ∧
      Authentic P signedBy (run (step P) d inputs) := by
  have hstep (s : DiscoveryService) (i : Input) (s' : DiscoveryService)
      (hs : s.selfPeerId = d.selfPeerId ∧ Authentic P signedBy s) (hok : step P s i = .ok s')
      (hi : Vouched P d.selfPeerId i) :
      s'.selfPeerId = d.selfPeerId ∧ Authentic P signedBy s' := by
    rw [← Except.ok.inj hok]
    exact ⟨(handle_handled s i).self.trans hs.1,
      handle_authentic hunforgeable hs.2 (hs.1.symm ▸ hi)⟩
  exact run_invariant (G := fun t => Vouched P d.selfPeerId t.label) hstep ⟨rfl, h⟩ inputs
    fun t ht => hvouched t.label (label_mem_of_mem ht)

end

theorem genuine_of_mem_advertBatch (h : Authentic P signedBy d) {exclude : PeerId}
    {advert : PeerAdvert} (hmem : advert ∈ advertBatch P d exclude) :
    advert = selfAdvert P d ∨ Genuine P signedBy advert := by
  refine (List.mem_cons.mp hmem).imp_right fun hcached => ?_
  obtain ⟨r, hr, rfl⟩ := List.mem_map.mp hcached
  obtain ⟨hr, hkept⟩ := List.mem_filter.mp hr
  simp only [Bool.and_eq_true, Bool.not_eq_true', List.isEmpty_eq_false_iff] at hkept
  have hall := (List.mem_insertionSort _).mp (List.mem_of_mem_take hr)
  refine (h r.peerId r (RecordStore.mem_all.mp hall)).resolve_left fun hplaceholder => ?_
  exact hkept.2 (congrArg PeerAdvert.addresses hplaceholder)

/-- A node with a genuine cache takes any sequence of events in which the adverts about other
peers are vouched for. In every state that it reaches, each record is filed under its own id, and
it is a placeholder or is genuine and has the only key with that id; what the node tells others
about third parties is genuine. On the way, what is known about a peer changes only to something
that the peer signed, and every address that is dialled was signed by the peer that it stands
for. -/
theorem cached_records_signed (P : DiscoveryPlatform)
    (signedBy : PublicKey → Advertisement → Prop) (hunforgeable : Unforgeable P signedBy)
    (hkeyed : KeyedIds P) (d : DiscoveryService) (hd : Authentic P signedBy d)
    (inputs : List Input) (hvouched : ∀ i ∈ inputs, Vouched P d.selfPeerId i) :
    (∀ id r, (run (step P) d inputs).cache.get id = some r →
      r.peerId = id ∧ (r.IsPlaceholder ∨ Genuine P signedBy r.advert ∧
        ∀ key, P.peerIdFromPublicKey key = some id → r.publicKey = key)) ∧
    (∀ exclude, ∀ advert ∈ advertBatch P (run (step P) d inputs) exclude,
      advert = selfAdvert P (run (step P) d inputs) ∨ Genuine P signedBy advert) ∧
    ∀ before i after, inputs = before ++ i :: after →
      (∀ id r r', (run (step P) d before).cache.get id = some r →
        (handle P (run (step P) d before) i).1.cache.get id = some r' →
          r'.advert = r.advert ∨ Genuine P signedBy r'.advert) ∧
      ∀ address, Command.dial address ∈ (handle P (run (step P) d before) i).2 →
        ∃ advert, advert.peerId ≠ d.selfPeerId ∧ Genuine P signedBy advert ∧
          ∃ text, advert.addresses.head? = some text ∧ P.parseMultiaddr text = some address := by
  have hrun := run_authentic hunforgeable hd hvouched
  refine ⟨fun id r hr => ?_, fun exclude advert => genuine_of_mem_advertBatch hrun.2, ?_⟩
  · have hid : r.peerId = id := RecordStore.idOf_get hr
    refine ⟨hid, (hrun.2 id r hr).imp_right fun hgenuine => ⟨hgenuine, fun key hkey => ?_⟩⟩
    exact hkeyed r.publicKey key id (hid ▸ hgenuine.derived) hkey
  · rintro before i after rfl
    have hself := (run_authentic hunforgeable hd fun j hj =>
      hvouched j (List.mem_append_left _ hj)).1
    have hi := hvouched i (List.mem_append_right _ List.mem_cons_self)
    rw [← hself] at hi ⊢
    refine ⟨fun id r r' hr hr' => ?_, fun address hdial => ?_⟩
    · rcases hi.cached hunforgeable hr' with ⟨r₀, hr₀, hadvert⟩ | hgenuine | ⟨hnone, -⟩
      · exact .inl (Option.some.inj (hr₀.symm.trans hr) ▸ hadvert.symm)
      · exact .inr hgenuine
      · cases hnone.symm.trans hr
    · obtain ⟨advert, hmem, hne, htext⟩ := (handle_handled _ i).dialed address hdial
      exact ⟨advert, hne, hi.genuine hunforgeable hmem hne, htext⟩

namespace Poisoned

def selfKey : PublicKey := PublicKey.filled 1

def victimKey : PublicKey := PublicKey.filled 2

def victimId : PeerId := ⟨victimKey.bytes⟩

def signed : SignedAdvertisement where
  advertisement :=
    { peerId := victimId
      publicKey := victimKey
      addresses := ["/ip4/10.0.0.2/udp/4001/quic-v1"]
      roles := [.fullNode]
      nodeVersion := "1.0.0"
      supportedOfs := [1000, 1100]
      timestamp := 1 }
  signature := ⟨victimKey.bytes⟩

def forged : PeerAdvert :=
  { signed.advertisement.content with addresses := ["/ip4/10.0.0.66/udp/4001/quic-v1"] }

/-- Two messages have a meaning on this wire, and one advertisement has a signature. -/
def platform : DiscoveryPlatform where
  verify key bytes signature := key == victimKey && bytes == [7] && signature == signed.signature
  peerIdFromPublicKey key := some ⟨key.bytes⟩
  Multiaddr := String
  parseMultiaddr text := some text
  multiaddrToString text := text
  encodeAdvertisement a := some (if a = signed.advertisement then [7] else [8])
  encodeRequest _ := []
  encodeResponse adverts :=
    if adverts = [signed.advertisement.content] then [1]
    else if adverts = [forged] then [2]
    else [0]
  decodeResponse bytes :=
    if bytes = [1] then some [signed.advertisement.content]
    else if bytes = [2] then some [forged]
    else none

def victimSigned (key : PublicKey) (a : Advertisement) : Prop :=
  key = victimKey ∧ a = signed.advertisement

theorem unforgeable : Unforgeable platform victimSigned := by
  intro key a bytes signature hbytes hverify
  simp only [platform, Bool.and_eq_true, beq_iff_eq] at hbytes hverify
  obtain ⟨⟨hkey, rfl⟩, -⟩ := hverify
  refine ⟨hkey, ?_⟩
  by_contra hne
  rw [if_neg hne] at hbytes
  cases hbytes

theorem keyedIds : KeyedIds platform := by
  intro key key' id h h'
  have hbytes : key.bytes = key'.bytes := by
    have hid := Option.some.inj (h.trans h'.symm)
    exact congrArg PeerId.bytes hid
  exact PublicKey.ext hbytes

def node : DiscoveryService :=
  DiscoveryService.new ⟨selfKey.bytes⟩ RecordStore.empty selfKey "1.0.0" [1000, 1100]
    [.fullNode] 10

def announcement (now : Timestamp) (payload : List UInt8) : Input where
  now := now
  event := .request ⟨[9]⟩ (Envelope.new now discoveryOfsSpec messageTypeAnnouncement 1 payload)

theorem forged_not_genuine : ¬ Genuine platform victimSigned forged := by
  rintro ⟨-, a, ⟨-, rfl⟩, hcontent⟩
  exact absurd hcontent (by decide)

end Poisoned

open Poisoned

/-- The victim signed one address and the node has it on record. A third peer announces another
address under the victim's name and key, which nobody signed: the node takes it for the
victim's. A node that does not know the victim even dials it. -/
theorem hostile_announcement_believed :
    Unforgeable platform victimSigned ∧ KeyedIds platform ∧
    (run (step platform) node [announcement 1 [1]]).cache.get victimId =
      some (signed.advertisement.content.record 1) ∧
    (run (step platform) node [announcement 1 [1], announcement 2 [2]]).cache.get victimId =
      some (forged.record 2) ∧
    ¬ Genuine platform victimSigned (forged.record 2).advert ∧
    (run (step platform) node [announcement 2 [2]]).cache.get victimId = some (forged.record 2) ∧
    Command.dial "/ip4/10.0.0.66/udp/4001/quic-v1" ∈
      (handle platform node (announcement 2 [2])).2 := by
  have hdialed : (learnPeers platform 2 node [forged]).dialed =
      ["/ip4/10.0.0.66/udp/4001/quic-v1"] := rfl
  refine ⟨unforgeable, keyedIds, by decide, by decide, forged_not_genuine, by decide, ?_⟩
  refine List.mem_append_left _ (List.mem_append_left _ (List.mem_map_of_mem ?_))
  exact hdialed ▸ List.mem_singleton_self _

/-- An announcement of the victim's own advertisement is vouched for. -/
theorem cached_records_signed_vouched :
    Unforgeable platform victimSigned ∧ KeyedIds platform ∧ Authentic platform victimSigned node ∧
    (run (step platform) node [announcement 1 [1]]).cache.get victimId =
      some (signed.advertisement.content.record 1) ∧
    Genuine platform victimSigned signed.advertisement.content := by
  have hvouched : ∀ i ∈ [announcement 1 [1]], Vouched platform node.selfPeerId i := by
    intro i hi advert hadvert _
    rw [List.mem_singleton.mp hi] at hadvert
    exact ⟨signed, by decide, (List.mem_singleton.mp hadvert).symm⟩
  have hnode : Authentic platform victimSigned node := authentic_empty rfl
  have hcached : (run (step platform) node [announcement 1 [1]]).cache.get victimId =
      some (signed.advertisement.content.record 1) := by decide
  have hresult := (cached_records_signed platform victimSigned unforgeable keyedIds node hnode
    [announcement 1 [1]] hvouched).1 victimId _ hcached
  exact ⟨unforgeable, keyedIds, hnode, hcached, (hresult.2.resolve_left (by decide)).1⟩

end OpenFiat.PeerAuthenticity
