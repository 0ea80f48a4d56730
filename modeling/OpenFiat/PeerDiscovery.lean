import OpenFiat.NodePayloads
import OpenFiat.RecordStores
import OpenFiat.TransactionRuns

/-!
# Peer discovery

A node caches what it hears about its peers. Peers answer exchange requests with adverts, they
push announcements of adverts unasked, and a connection leaves a placeholder without an
address until something better is known. Each advert replaces the record of the peer that it
names, the first address of a peer that was not known is dialled, and news is announced to
everybody who is connected.

An `Advertisement` is what a peer says about itself, and `SignedAdvertisement.verify` checks
that the key is the peer's and that the signature is the key's. An advert of the exchange has
the same content and no signature.

The wire encoding, the multiaddress syntax and signatures are the platform's.
-/
namespace OpenFiat.PeerDiscovery
open GuardedResult RecordStores NodePayloads

inductive NodeRole where
  | fullNode
  | bootstrapNode
  | snapshotProvider
  | notificationGateway
  | oracleProvider
  | riskIntelligenceProvider
  | merchantGateway
  | publicApiNode
deriving DecidableEq, Repr

/-- What a peer states about itself. -/
structure Advertisement where
  peerId : PeerId
  publicKey : PublicKey
  addresses : List String
  roles : List NodeRole
  nodeVersion : String
  supportedOfs : List UInt16
  timestamp : Timestamp
deriving DecidableEq, Repr

structure SignedAdvertisement where
  advertisement : Advertisement
  signature : Signature
deriving DecidableEq, Repr

/-- What a peer exchange says about one node. -/
structure PeerAdvert where
  peerId : PeerId
  publicKey : PublicKey
  addresses : List String
  roles : List NodeRole
  nodeVersion : String
  supportedOfs : List UInt16
deriving DecidableEq, Repr

def Advertisement.content (a : Advertisement) : PeerAdvert where
  __ := a

inductive DiscoveryError where
  | malformedAdvertisement
  | invalidPublicKey
  | peerIdMismatch
  | invalidSignature
deriving DecidableEq, Repr

structure DiscoveryPlatform extends SignatureScheme (List UInt8) where
  Multiaddr : Type
  parseMultiaddr : String → Option Multiaddr
  multiaddrToString : Multiaddr → String
  encodeAdvertisement : Advertisement → Option (List UInt8)
  encodeRequest : UInt32 → List UInt8
  encodeResponse : List PeerAdvert → List UInt8
  decodeResponse : List UInt8 → Option (List PeerAdvert)

def SignedAdvertisement.verify (P : DiscoveryPlatform) (s : SignedAdvertisement) :
    Except DiscoveryError Unit := do
  let expectedPeerId ← load (P.peerIdFromPublicKey s.advertisement.publicKey) .invalidPublicKey
  require (expectedPeerId = s.advertisement.peerId) .peerIdMismatch
  let bytes ← load (P.encodeAdvertisement s.advertisement) .malformedAdvertisement
  require (P.verify s.advertisement.publicKey bytes s.signature = true) .invalidSignature

theorem SignedAdvertisement.verify_ok {P : DiscoveryPlatform} {s : SignedAdvertisement} {u : Unit} :
    s.verify P = .ok u ↔
      P.peerIdFromPublicKey s.advertisement.publicKey = some s.advertisement.peerId ∧
      ∃ bytes, P.encodeAdvertisement s.advertisement = some bytes ∧
        P.verify s.advertisement.publicKey bytes s.signature = true := by
  simp only [SignedAdvertisement.verify, bind_ok, load_ok, require_ok, exists_const]
  constructor
  · rintro ⟨expected, hkey, rfl, hbytes⟩
    exact ⟨hkey, hbytes⟩
  · rintro ⟨hkey, hbytes⟩
    exact ⟨_, hkey, rfl, hbytes⟩

/-- What one node knows about one peer. -/
structure PeerRecord where
  peerId : PeerId
  publicKey : PublicKey
  addresses : List String
  nodeVersion : String
  supportedOfs : List UInt16
  roles : List NodeRole
  lastSeen : Timestamp
  latencyMs : Option UInt32
  successes : UInt32
  failures : UInt32
deriving DecidableEq, Repr

def PeerRecord.new (now : Timestamp) (peerId : PeerId) (publicKey : PublicKey)
    (addresses : List String) (nodeVersion : String) (supportedOfs : List UInt16)
    (roles : List NodeRole) : PeerRecord where
  peerId := peerId
  publicKey := publicKey
  addresses := addresses
  nodeVersion := nodeVersion
  supportedOfs := supportedOfs
  roles := roles
  lastSeen := now
  latencyMs := none
  successes := 0
  failures := 0

def PeerRecord.advert (r : PeerRecord) : PeerAdvert where
  __ := r

def PeerAdvert.record (now : Timestamp) (a : PeerAdvert) : PeerRecord :=
  PeerRecord.new now a.peerId a.publicKey a.addresses a.nodeVersion a.supportedOfs a.roles

/-- What is known of a peer that is connected and has not been heard of. -/
def PeerRecord.placeholder (now : Timestamp) (peerId : PeerId) : PeerRecord :=
  PeerRecord.new now peerId (PublicKey.filled 0) [] "" [] []

def PeerRecord.IsPlaceholder (r : PeerRecord) : Prop :=
  r.advert = (placeholder r.lastSeen r.peerId).advert

instance (r : PeerRecord) : Decidable r.IsPlaceholder := inferInstanceAs (Decidable (_ = _))

theorem peerId_bytes_injective :
    Function.Injective fun id : PeerId => id.bytes.map UInt8.toNat := by
  rintro ⟨bytes⟩ ⟨bytes'⟩ h
  exact congrArg PeerId.mk (List.map_injective_iff.mpr (fun _ _ hb => UInt8.toNat_inj.mp hb) h)

abbrev PeerCache := RecordStore PeerRecord.peerId

namespace PeerCache

def all (cache : PeerCache) : List PeerRecord :=
  RecordStore.all (fun id => id.bytes.map UInt8.toNat) peerId_bytes_injective cache

/-- Remove the peers that were not seen for `maxAge`; the second component counts them. -/
def expireStale (now : Timestamp) (maxAge : ℕ) (cache : PeerCache) : PeerCache × ℕ :=
  RecordStore.prune (fun id => id.bytes.map UInt8.toNat) peerId_bytes_injective
    (fun r => r.lastSeen < now - maxAge) cache

/-- Fewer failures first, then more successes, then the lower latency; an unknown latency is the
highest. -/
def NotWorse (a b : PeerRecord) : Prop :=
  a.failures < b.failures ∨ a.failures = b.failures ∧
    (b.successes < a.successes ∨ a.successes = b.successes ∧
      a.latencyMs.getD 4294967295 ≤ b.latencyMs.getD 4294967295)

instance : DecidableRel NotWorse := fun _ _ => inferInstanceAs (Decidable (_ ∨ _ ∧ (_ ∨ _ ∧ _)))

/-- Up to `limit` peers, the healthiest first; the sort is stable. -/
def healthiest (limit : ℕ) (cache : PeerCache) : List PeerRecord :=
  (cache.all.insertionSort NotWorse).take limit

end PeerCache

/-- A transport peer, by the bytes of its id. -/
structure Libp2pPeerId where
  bytes : List UInt8
deriving DecidableEq, Repr

def fromLibp2pPeerId (id : Libp2pPeerId) : PeerId := ⟨id.bytes⟩

structure Header where
  protocolVersion : UInt16
  ofsSpec : UInt16
  messageType : String
  sequence : UInt64
  timestamp : Timestamp
  payloadLength : UInt32
  compressed : Bool
  authenticated : Bool
deriving DecidableEq, Repr

structure Envelope where
  header : Header
  payload : List UInt8
  authentication : Option Signature
deriving DecidableEq, Repr

def Envelope.new (now : Timestamp) (ofsSpec : UInt16) (messageType : String) (sequence : UInt64)
    (payload : List UInt8) : Envelope where
  header :=
    { protocolVersion := 1
      ofsSpec := ofsSpec
      messageType := messageType
      sequence := sequence
      timestamp := now
      payloadLength := payload.length.toUInt32
      compressed := false
      authenticated := false }
  payload := payload
  authentication := none

def discoveryOfsSpec : UInt16 := 1100

def messageTypeRequest : String := "PeerExchangeRequest"

def messageTypeResponse : String := "PeerExchangeResponse"

def messageTypeAnnouncement : String := "PeerAnnouncement"

def defaultMaxExchangePeers : UInt32 := 20

/-- What the service asks of the swarm. -/
inductive Command (A : Type) where
  | dial (address : A)
  | sendEnvelope (peer : Libp2pPeerId) (envelope : Envelope)
  | sendResponse (envelope : Envelope)
deriving DecidableEq, Repr

structure DiscoveryService where
  cache : PeerCache
  selfPeerId : PeerId
  selfPublicKey : PublicKey
  selfNodeVersion : String
  selfSupportedOfs : List UInt16
  selfRoles : List NodeRole
  /-- The addresses that the transport is bound to. -/
  selfAddresses : List String
  /-- The addresses that the operator declared. -/
  externalAddresses : List String
  connected : List Libp2pPeerId
  targetPeers : ℕ

def DiscoveryService.new (selfPeerId : PeerId) (cache : PeerCache) (selfPublicKey : PublicKey)
    (selfNodeVersion : String) (selfSupportedOfs : List UInt16) (selfRoles : List NodeRole)
    (targetPeers : ℕ) : DiscoveryService where
  cache := cache
  selfPeerId := selfPeerId
  selfPublicKey := selfPublicKey
  selfNodeVersion := selfNodeVersion
  selfSupportedOfs := selfSupportedOfs
  selfRoles := selfRoles
  selfAddresses := []
  externalAddresses := []
  connected := []
  targetPeers := targetPeers

section Service
variable (P : DiscoveryPlatform)

def isDialable (address : P.Multiaddr) : Bool :=
  let text := P.multiaddrToString address
  !List.any ["/ip4/0.0.0.0/", "/ip6/::/"] fun wildcard => text.startsWith wildcard

def isAnnounceable (address : String) : Bool := (P.parseMultiaddr address).any (isDialable P)

def addExternalAddress (d : DiscoveryService) (address : String) : DiscoveryService :=
  if address ∈ d.externalAddresses then d
  else { d with externalAddresses := d.externalAddresses ++ [address] }

def announcedAddresses (d : DiscoveryService) : List String :=
  (d.externalAddresses ++ d.selfAddresses).filter (isAnnounceable P)

/-- What the node says about itself. -/
def selfAdvert (d : DiscoveryService) : PeerAdvert where
  peerId := d.selfPeerId
  publicKey := d.selfPublicKey
  addresses := announcedAddresses P d
  roles := d.selfRoles
  nodeVersion := d.selfNodeVersion
  supportedOfs := d.selfSupportedOfs

/-- The node itself and the cached peers with an address, except `exclude`. -/
def advertBatch (d : DiscoveryService) (exclude : PeerId) : List PeerAdvert :=
  selfAdvert P d ::
    ((d.cache.healthiest defaultMaxExchangePeers.toNat).filter fun r =>
      r.peerId ≠ exclude && !r.addresses.isEmpty).map PeerRecord.advert

/-- The state of the loop over a batch of adverts. -/
structure Learned where
  service : DiscoveryService
  newlyLearned : List PeerId
  dialed : List P.Multiaddr

variable (now : Timestamp)

variable {P} in
def learnPeer (l : Learned P) (advert : PeerAdvert) : Learned P :=
  if advert.peerId = l.service.selfPeerId then l
  else
    let alreadyKnown := (l.service.cache.get advert.peerId).any fun r => !r.addresses.isEmpty
    let service := { l.service with cache := l.service.cache.put (advert.record now) }
    if alreadyKnown then { l with service := service }
    else
      { service := service
        newlyLearned := l.newlyLearned ++ [advert.peerId]
        dialed :=
          if service.cache.all.length ≤ service.targetPeers then
            l.dialed ++ (advert.addresses.head?.bind P.parseMultiaddr).toList
          else l.dialed }

variable (d : DiscoveryService)

/-- Cache each advert of a batch and dial the peers that are new. -/
def learnPeers (adverts : List PeerAdvert) : Learned P :=
  adverts.foldl (learnPeer now) ⟨d, [], []⟩

/-- Announce what is known to everybody who is connected, except `exclude`. -/
def broadcastAnnouncement (exclude : Libp2pPeerId) : List (Command P.Multiaddr) :=
  let payload := P.encodeResponse (advertBatch P d (fromLibp2pPeerId exclude))
  (d.connected.filter (· ≠ exclude)).map fun peer =>
    .sendEnvelope peer (Envelope.new now discoveryOfsSpec messageTypeAnnouncement 1 payload)

/-- Absorb a batch that came from `peer`, and pass news on. -/
def absorb (peer : Libp2pPeerId) (adverts : List PeerAdvert) :
    DiscoveryService × List (Command P.Multiaddr) :=
  let learned := learnPeers P now d adverts
  (learned.service, learned.dialed.map .dial ++
    if learned.newlyLearned.isEmpty then [] else broadcastAnnouncement P now learned.service peer)

def onConnected (peer : Libp2pPeerId) : DiscoveryService × List (Command P.Multiaddr) :=
  let peerId := fromLibp2pPeerId peer
  let d := { d with connected := d.connected.insert peer }
  let d := if (d.cache.get peerId).isNone then
      { d with cache := d.cache.put (PeerRecord.placeholder now peerId) }
    else d
  (d, [.sendEnvelope peer (Envelope.new now discoveryOfsSpec messageTypeRequest 1
    (P.encodeRequest defaultMaxExchangePeers))])

def acknowledge : Command P.Multiaddr :=
  .sendResponse (Envelope.new now discoveryOfsSpec messageTypeAnnouncement 1 [])

def onRequest (peer : Libp2pPeerId) (envelope : Envelope) :
    DiscoveryService × List (Command P.Multiaddr) :=
  if envelope.header.messageType = messageTypeAnnouncement then
    match P.decodeResponse envelope.payload with
    | none => (d, [acknowledge P now])
    | some adverts =>
      let absorbed := absorb P now d peer adverts
      (absorbed.1, absorbed.2 ++ [acknowledge P now])
  else if envelope.header.messageType ≠ messageTypeRequest then (d, [])
  else
    let payload := P.encodeResponse (advertBatch P d (fromLibp2pPeerId peer))
    (d, [.sendResponse (Envelope.new now discoveryOfsSpec messageTypeResponse 1 payload)])

def onResponse (peer : Libp2pPeerId) (envelope : Envelope) :
    DiscoveryService × List (Command P.Multiaddr) :=
  if envelope.header.messageType ≠ messageTypeResponse then (d, [])
  else
    match P.decodeResponse envelope.payload with
    | none => (d, [])
    | some adverts => absorb P now d peer adverts

def touch (cache : PeerCache) (peer : Libp2pPeerId) : PeerCache :=
  match cache.get (fromLibp2pPeerId peer) with
  | none => cache
  | some r => cache.put { r with lastSeen := now }

def sweepPeers (maxAge : ℕ) (d : DiscoveryService) : DiscoveryService :=
  { d with cache := ((d.connected.foldl (touch now) d.cache).expireStale now maxAge).1 }

end Service

/-- Whether an envelope of the shared protocol is for discovery. -/
def owns (envelope : Envelope) : Bool := envelope.header.ofsSpec == discoveryOfsSpec

/-- What reaches the service: events of the swarm, the sweep of the actor and addresses that the
operator declares. -/
inductive Event where
  | newListenAddr (address : String)
  | connectionEstablished (peer : Libp2pPeerId)
  | connectionClosed (peer : Libp2pPeerId)
  | request (peer : Libp2pPeerId) (envelope : Envelope)
  | response (peer : Libp2pPeerId) (envelope : Envelope)
  | sweepPeers (maxAge : ℕ)
  | addExternalAddress (address : String)
deriving DecidableEq, Repr

structure Input where
  now : Timestamp
  event : Event
deriving DecidableEq, Repr

section Handling
variable (P : DiscoveryPlatform)

def handle (d : DiscoveryService) (i : Input) :
    DiscoveryService × List (Command P.Multiaddr) :=
  match i.event with
  | .newListenAddr address => ({ d with selfAddresses := d.selfAddresses ++ [address] }, [])
  | .connectionEstablished peer => onConnected P i.now d peer
  | .connectionClosed peer => ({ d with connected := d.connected.erase peer }, [])
  | .request peer envelope => if owns envelope then onRequest P i.now d peer envelope else (d, [])
  | .response peer envelope => if owns envelope then onResponse P i.now d peer envelope else (d, [])
  | .sweepPeers maxAge => (sweepPeers i.now maxAge d, [])
  | .addExternalAddress address => (addExternalAddress d address, [])

def step (d : DiscoveryService) (i : Input) : Except Empty DiscoveryService := .ok (handle P d i).1

/-- The adverts that an event delivers: an announcement comes as a request. -/
def Event.adverts : Event → List PeerAdvert
  | .request _ envelope =>
    if owns envelope ∧ envelope.header.messageType = messageTypeAnnouncement then
      (P.decodeResponse envelope.payload).getD []
    else []
  | .response _ envelope =>
    if owns envelope ∧ envelope.header.messageType = messageTypeResponse then
      (P.decodeResponse envelope.payload).getD []
    else []
  | _ => []

end Handling

section Steps
variable {P : DiscoveryPlatform} {now : Timestamp} {d : DiscoveryService} {i : Input}

/-- Where a record of the cache comes from: it was there, up to the time it was last seen, or it
repeats an advert of the batch about another peer. -/
def FedAt (self : PeerId) (adverts : List PeerAdvert) (before : PeerCache) (id : PeerId)
    (r : PeerRecord) : Prop :=
  (∃ r₀, before.get id = some r₀ ∧ r₀.advert = r.advert) ∨ r.advert ∈ adverts ∧ id ≠ self

/-- How the cache may change while the adverts of a batch are delivered. -/
def Fed (self : PeerId) (adverts : List PeerAdvert) (before after : PeerCache) : Prop :=
  ∀ id r, after.get id = some r → FedAt self adverts before id r

theorem Fed.refl (self : PeerId) (adverts : List PeerAdvert) (cache : PeerCache) :
    Fed self adverts cache cache :=
  fun _ r h => .inl ⟨r, h, rfl⟩

variable {adverts : List PeerAdvert} {self : PeerId}

theorem Fed.trans {c₁ c₂ c₃ : PeerCache} (h : Fed self adverts c₁ c₂)
    (h' : Fed self adverts c₂ c₃) : Fed self adverts c₁ c₃ := by
  intro id r hr
  rcases h' id r hr with ⟨r₀, hr₀, hadvert⟩ | hnew
  · rw [FedAt, ← hadvert]
    exact h id r₀ hr₀
  · exact .inr hnew

theorem Fed.mono {adverts' : List PeerAdvert} {c c' : PeerCache} (h : Fed self adverts c c')
    (hsub : adverts ⊆ adverts') : Fed self adverts' c c' :=
  fun id r hr => (h id r hr).imp_right fun hnew => ⟨hsub hnew.1, hnew.2⟩

theorem fed_put {cache : PeerCache} {new : PeerRecord}
    (hnew : FedAt self adverts cache new.peerId new) : Fed self adverts cache (cache.put new) := by
  intro id r hr
  rw [RecordStore.get_put] at hr
  split_ifs at hr with hid
  · obtain rfl := Option.some.inj hr
    rw [hid]
    exact hnew
  · exact .inl ⟨r, hr, rfl⟩

/-- One round of the loop over a batch. -/
structure Learns (adverts : List PeerAdvert) (l l' : Learned P) : Prop where
  self : l'.service.selfPeerId = l.service.selfPeerId
  fed : Fed l.service.selfPeerId adverts l.service.cache l'.service.cache
  dialed : ∀ a ∈ l'.dialed, a ∈ l.dialed ∨ ∃ advert ∈ adverts,
    advert.peerId ≠ l.service.selfPeerId ∧
      ∃ text, advert.addresses.head? = some text ∧ P.parseMultiaddr text = some a

theorem learnPeer_learns (now : Timestamp) (l : Learned P) (advert : PeerAdvert) :
    Learns [advert] l (learnPeer now l advert) := by
  unfold learnPeer
  by_cases hself : advert.peerId = l.service.selfPeerId
  · rw [if_pos hself]
    exact ⟨rfl, Fed.refl _ _ _, fun a ha => .inl ha⟩
  have hput : Fed l.service.selfPeerId [advert] l.service.cache
      (l.service.cache.put (advert.record now)) :=
    fed_put (.inr ⟨List.mem_singleton_self advert, hself⟩)
  dsimp only
  split_ifs with hknown htarget
  · exact ⟨rfl, hput, fun a ha => .inl ha⟩
  · refine ⟨rfl, hput, fun a ha => (List.mem_append.mp ha).imp_right fun hnew => ?_⟩
    obtain ⟨text, htext, hparse⟩ := Option.bind_eq_some_iff.mp (Option.mem_toList.mp hnew)
    exact ⟨advert, List.mem_singleton_self advert, hself, text, htext, hparse⟩
  · exact ⟨rfl, hput, fun a ha => .inl ha⟩

theorem foldl_learnPeer_learns (now : Timestamp) (adverts : List PeerAdvert) (l : Learned P) :
    Learns adverts l (adverts.foldl (learnPeer now) l) := by
  induction adverts generalizing l with
  | nil => exact ⟨rfl, Fed.refl _ _ _, fun a ha => .inl ha⟩
  | cons advert adverts ih =>
    have hhead := learnPeer_learns now l advert
    have htail := ih (learnPeer now l advert)
    refine ⟨htail.self.trans hhead.self, ?_, fun a ha => ?_⟩
    · have hfed := htail.fed
      rw [hhead.self] at hfed
      exact (hhead.fed.mono (by simp)).trans (hfed.mono (List.subset_cons_self _ _))
    · rcases htail.dialed a ha with ha | ⟨b, hb, hne, htext⟩
      · refine (hhead.dialed a ha).imp_right ?_
        rintro ⟨b, hb, hrest⟩
        exact ⟨b, List.mem_cons.mpr (.inl (List.mem_singleton.mp hb)), hrest⟩
      · rw [hhead.self] at hne
        exact .inr ⟨b, List.mem_cons_of_mem _ hb, hne, htext⟩

/-- What an event does: it keeps the node's own id, feeds the cache with the adverts it delivers,
or with a placeholder where there was nothing, and dials the first address of some of them. -/
structure Handled (P : DiscoveryPlatform) (adverts : List PeerAdvert) (d : DiscoveryService)
    (result : DiscoveryService × List (Command P.Multiaddr)) : Prop where
  self : result.1.selfPeerId = d.selfPeerId
  fed : ∀ id r, result.1.cache.get id = some r → FedAt d.selfPeerId adverts d.cache id r ∨
    d.cache.get id = none ∧ r.IsPlaceholder
  dialed : ∀ a, Command.dial a ∈ result.2 → ∃ advert ∈ adverts, advert.peerId ≠ d.selfPeerId ∧
    ∃ text, advert.addresses.head? = some text ∧ P.parseMultiaddr text = some a

theorem handled_of_quiet {result : DiscoveryService × List (Command P.Multiaddr)}
    (hself : result.1.selfPeerId = d.selfPeerId) (hcache : result.1.cache = d.cache)
    (hquiet : ∀ a, Command.dial a ∉ result.2) : Handled P adverts d result :=
  ⟨hself, fun id r hr => .inl (Fed.refl _ _ _ id r (hcache ▸ hr)), fun a ha => absurd ha (hquiet a)⟩

theorem absorb_handled (peer : Libp2pPeerId) (adverts : List PeerAdvert) :
    Handled P adverts d (absorb P now d peer adverts) := by
  have hlearns := foldl_learnPeer_learns (P := P) now adverts ⟨d, [], []⟩
  refine ⟨hlearns.self, fun id r hr => .inl (hlearns.fed id r hr), fun a ha => ?_⟩
  have hdialed : a ∈ (learnPeers P now d adverts).dialed := by
    rcases List.mem_append.mp ha with ha | ha
    · obtain ⟨b, hb, heq⟩ := List.mem_map.mp ha
      exact Command.dial.inj heq ▸ hb
    · split_ifs at ha
      · cases ha
      · simp [broadcastAnnouncement] at ha
  exact (hlearns.dialed a hdialed).resolve_left List.not_mem_nil

theorem onConnected_handled (peer : Libp2pPeerId) :
    Handled P [] d (onConnected P now d peer) := by
  unfold onConnected
  refine ⟨?_, fun id r hr => ?_, fun a ha => ?_⟩
  · dsimp only
    split_ifs <;> rfl
  · dsimp only at hr
    split_ifs at hr with hunknown
    · rw [RecordStore.get_put] at hr
      split_ifs at hr with hid
      · rw [hid, ← Option.some.inj hr]
        exact .inr ⟨Option.isNone_iff_eq_none.mp hunknown, rfl⟩
      · exact .inl (.inl ⟨r, hr, rfl⟩)
    · exact .inl (.inl ⟨r, hr, rfl⟩)
  · cases List.mem_singleton.mp ha

theorem onRequest_handled (peer : Libp2pPeerId) (envelope : Envelope) :
    Handled P (if envelope.header.messageType = messageTypeAnnouncement then
      (P.decodeResponse envelope.payload).getD [] else []) d (onRequest P now d peer envelope) := by
  unfold onRequest
  by_cases hannounce : envelope.header.messageType = messageTypeAnnouncement
  · rw [if_pos hannounce, if_pos hannounce]
    cases hdecode : P.decodeResponse envelope.payload with
    | none => exact handled_of_quiet rfl rfl (by simp [acknowledge])
    | some adverts =>
      have habsorb : Handled P adverts d (absorb P now d peer adverts) :=
        absorb_handled peer adverts
      refine ⟨habsorb.self, habsorb.fed, fun a ha => habsorb.dialed a ?_⟩
      simpa [acknowledge] using ha
  · rw [if_neg hannounce, if_neg hannounce]
    by_cases hrequest : envelope.header.messageType = messageTypeRequest
    · rw [if_neg (not_not.mpr hrequest)]
      exact handled_of_quiet rfl rfl (by simp)
    · rw [if_pos hrequest]
      exact handled_of_quiet rfl rfl (by simp)

theorem onResponse_handled (peer : Libp2pPeerId) (envelope : Envelope) :
    Handled P (if envelope.header.messageType = messageTypeResponse then
      (P.decodeResponse envelope.payload).getD [] else []) d
      (onResponse P now d peer envelope) := by
  unfold onResponse
  by_cases hresponse : envelope.header.messageType = messageTypeResponse
  · rw [if_pos hresponse, if_neg (not_not.mpr hresponse)]
    cases hdecode : P.decodeResponse envelope.payload with
    | none => exact handled_of_quiet rfl rfl (by simp)
    | some adverts => exact absorb_handled peer adverts
  · rw [if_pos hresponse]
    exact handled_of_quiet rfl rfl (by simp)

theorem touch_fed (cache : PeerCache) (peer : Libp2pPeerId) :
    Fed self [] cache (touch now cache peer) := by
  unfold touch
  cases hget : cache.get (fromLibp2pPeerId peer) with
  | none => exact Fed.refl _ _ _
  | some r =>
    refine fed_put (.inl ⟨r, ?_, rfl⟩)
    exact (RecordStore.idOf_get hget).symm ▸ hget

theorem sweepPeers_handled (maxAge : ℕ) : Handled P [] d (sweepPeers now maxAge d, []) := by
  refine ⟨rfl, fun id r hr => .inl ?_, fun a ha => absurd ha List.not_mem_nil⟩
  have htouched (l : List Libp2pPeerId) (cache : PeerCache) :
      Fed d.selfPeerId [] cache (l.foldl (touch now) cache) := by
    induction l generalizing cache with
    | nil => exact Fed.refl _ _ _
    | cons peer l ih => exact (touch_fed cache peer).trans (ih _)
  change (PeerCache.expireStale now maxAge (d.connected.foldl (touch now) d.cache)).1.get id =
    some r at hr
  rw [PeerCache.expireStale, RecordStore.get_prune] at hr
  exact htouched d.connected d.cache id r (Option.filter_eq_some_iff.mp hr).1

theorem handle_handled (d : DiscoveryService) (i : Input) :
    Handled P (i.event.adverts P) d (handle P d i) := by
  obtain ⟨now, event⟩ := i
  cases event with
  | newListenAddr | connectionClosed => exact handled_of_quiet rfl rfl (by simp [handle])
  | connectionEstablished peer => exact onConnected_handled peer
  | request peer envelope | response peer envelope =>
    simp only [handle, Event.adverts]
    by_cases howns : owns envelope = true
    · simp only [howns, if_true, true_and]
      first
      | exact onRequest_handled peer envelope
      | exact onResponse_handled peer envelope
    · rw [if_neg howns]
      exact handled_of_quiet rfl rfl (by simp)
  | sweepPeers maxAge => exact sweepPeers_handled maxAge
  | addExternalAddress =>
    refine handled_of_quiet ?_ ?_ (by simp [handle])
    all_goals
      simp only [handle, addExternalAddress]
      split_ifs <;> rfl

end Steps

end OpenFiat.PeerDiscovery
