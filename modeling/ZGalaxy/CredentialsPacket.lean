/-
ZGalaxy/CredentialsPacket.lean

What a `NETWORK_CREDENTIALS` packet adds.

The packet is a row of certificates of membership up to a zero byte, and then four counted rows of
capabilities, tags, revocations and certificates of ownership.  Reading it does not depend on what
is done with a credential, so the model reads first (`credentialsOf`), keeping what was read before
an exception, and then adds one credential after another to the network it names, until one of them
must wait for the identity of its signer (`addAll`).  The first row is read in as many turns as the
packet has bytes, and more of them change nothing (`readComs_enough`).

Each attempt passes the rate gate of the peer first, also one that is made because an earlier one
had to wait.
-/
import ZGalaxy.CredentialReaders
import ZGalaxy.MulticastLike
import ZGalaxy.Newest

namespace ZGalaxy

open ByteList
open ZGalaxy.Membership

/-! ### Reading -/

/-- A credential of the packet. -/
inductive PacketCredential
  | com (com : CertificateOfMembership)
  | capability (cap : Capability)
  | tag (tag : Tag)
  | revocation (rev : Revocation)
  | coo (coo : CertificateOfOwnership)
deriving DecidableEq

namespace PacketCredential

variable (ecc : Ecc) (known : KnownIdentities)

/-- The network of a credential. -/
def networkId : PacketCredential → NetworkId
  | com c => c.networkId
  | capability cap => cap.nwid
  | tag t => t.networkId
  | revocation rev => rev.networkId
  | coo c => c.networkId

/-- The member a credential is filed under. -/
def member : PacketCredential → Address
  | com c => c.issuedTo
  | capability cap => cap.issuedTo
  | tag t => t.issuedTo
  | revocation rev => rev.target
  | coo c => c.issuedTo

/-- `verify`. -/
def verify : PacketCredential → VerifyResult
  | com c => c.verify ecc known
  | capability cap => cap.verify ecc known
  | tag t => t.verify ecc known
  | revocation rev => rev.verify ecc known
  | coo c => c.verify ecc known

/-- The call `addCredential` of a network. -/
def event (sentFrom : Address) : PacketCredential → Network.Event
  | com c => .addCom known c
  | capability cap => .addCapability known cap
  | tag t => .addTag known t
  | revocation rev => .addRevocation known sentFrom rev
  | coo c => .addCoo known c

/-- What `addCredential` of a network answers. -/
def result (n : Network) : PacketCredential → AddCredentialResult
  | com c => (n.addCom ecc known c).1
  | capability cap => (n.addCapability ecc known cap).1
  | tag t => (n.addTag ecc known t).1
  | revocation rev => (n.addRevocation ecc known rev).1
  | coo c => (n.addCoo ecc known c).1

end PacketCredential

/-- How reading a packet ends: at the end of the last row, where an older version ends its packets,
or in an exception. -/
inductive Ending
  | whole
  | short
  | malformed
deriving DecidableEq

/-- The certificates of membership at the beginning, and the position after them unless there was an
exception.  Certificates without qualifiers are passed over. -/
def readComs (b : Bytes) : ℕ → ℕ → List PacketCredential × Option ℕ
  | 0, pos => ([], some pos)
  | n + 1, pos =>
      if pos < b.length ∧ byteAt b pos ≠ 0 then
        match CertificateOfMembership.deserialize b pos with
        | .error _ => ([], none)
        | .ok (com, next) =>
            let rest := readComs b n next
            (if com.isSet then .com com :: rest.1 else rest.1, rest.2)
      else ([], some pos)

/-- The position after what was read. -/
theorem Buffer.end_of_map {α β : Type} {x : Except ZTException α} {f : α → β} {p q : ℕ} {v : β}
    (h : x.map (fun a => (f a, p)) = .ok (v, q)) : q = p := by
  rcases x with e | a
  · cases h
  · cases h
    rfl

/-- Reading a certificate of membership goes on in the packet. -/
theorem CertificateOfMembership.deserialize_lt {b : Bytes} {p q : ℕ} {com : CertificateOfMembership}
    (h : CertificateOfMembership.deserialize b p = .ok (com, q)) : p < q := by
  have hqualifiers : ∀ n count lastId p q qs,
      CertificateOfMembership.readQualifiers n count lastId b p = .ok (qs, q) → p ≤ q := by
    intro n
    induction n with
    | zero =>
        intro count lastId p q qs hqs
        obtain ⟨-, rfl⟩ := Prod.mk.inj (Reader.pure_ok.mp hqs)
        exact le_refl _
    | succ n ih =>
        intro count lastId p q qs hqs
        obtain ⟨qid, p₁, h₁, hqs⟩ := Reader.bind_ok.mp hqs
        split_ifs at hqs with hsorted hmax
        · cases hqs
        · cases hqs
        · obtain ⟨value, p₂, h₂, hqs⟩ := Reader.bind_ok.mp hqs
          obtain ⟨maxDelta, p₃, h₃, hqs⟩ := Reader.bind_ok.mp hqs
          obtain ⟨rest, p₄, h₄, hqs⟩ := Reader.bind_ok.mp hqs
          obtain ⟨-, rfl⟩ := Prod.mk.inj (Reader.pure_ok.mp hqs)
          have := ih _ _ _ _ _ h₄
          have := Buffer.end_of_map h₁
          have := Buffer.end_of_map h₂
          have := Buffer.end_of_map h₃
          omega
  obtain ⟨type, p₁, h₁, h⟩ := Reader.bind_ok.mp h
  have htype := Buffer.end_of_map h₁
  split_ifs at h with hone
  · cases h
  · obtain ⟨numq, p₂, h₂, h⟩ := Reader.bind_ok.mp h
    obtain ⟨qualifiers, p₃, h₃, h⟩ := Reader.bind_ok.mp h
    obtain ⟨signedBy, p₄, h₄, h⟩ := Reader.bind_ok.mp h
    obtain ⟨bits, p₅, h₅, h₄⟩ := Reader.bind_ok.mp h₄
    obtain ⟨-, rfl⟩ := Prod.mk.inj (Reader.pure_ok.mp h₄)
    have hnumq := Buffer.end_of_map h₂
    have hquals := hqualifiers _ _ _ _ _ _ h₃
    have hsigner := Buffer.end_of_map h₅
    split_ifs at h with hset
    · obtain ⟨signature, p₆, h₆, h⟩ := Reader.bind_ok.mp h
      obtain ⟨-, rfl⟩ := Prod.mk.inj (Reader.pure_ok.mp h)
      have := Buffer.end_of_map h₆
      omega
    · obtain ⟨-, rfl⟩ := Prod.mk.inj (Reader.pure_ok.mp h)
      omega

/-- The loop comes to its end in as many turns as there are bytes. -/
theorem readComs_enough {b : Bytes} {n m pos : ℕ} (hn : b.length ≤ pos + n)
    (hm : b.length ≤ pos + m) :
    readComs b n pos = readComs b m pos := by
  have hend : ∀ k pos, b.length ≤ pos → readComs b k pos = ([], some pos) := by
    intro k pos hpos
    cases k with
    | zero => rfl
    | succ k => exact if_neg fun h => absurd h.1 (not_lt.mpr hpos)
  -- on the turns: every certificate that is read takes up bytes
  induction n generalizing m pos with
  | zero => rw [hend 0 pos hn, hend m pos hn]
  | succ n ih =>
      cases m with
      | zero => rw [hend _ pos hm, hend 0 pos hm]
      | succ m =>
          rw [readComs, readComs]
          by_cases hmore : pos < b.length ∧ byteAt b pos ≠ 0
          · rw [if_pos hmore, if_pos hmore]
            rcases hcom : CertificateOfMembership.deserialize b pos with e | ⟨com, next⟩
            · rfl
            · have hnext := CertificateOfMembership.deserialize_lt hcom
              dsimp only
              rw [ih (m := m) (by omega) (by omega)]
          · rw [if_neg hmore, if_neg hmore]

/-- `n` credentials of one kind, and the position after them unless there was an exception. -/
def readRow (read : Reader ZTException PacketCredential) (b : Bytes) :
    ℕ → ℕ → List PacketCredential × Option ℕ
  | 0, pos => ([], some pos)
  | n + 1, pos =>
      match read b pos with
      | .error _ => ([], none)
      | .ok (c, next) =>
          let rest := readRow read b n next
          (c :: rest.1, rest.2)

/-- The counted rows.  The packet may end before each but the first. -/
def readRows (b : Bytes) : List (Reader ZTException PacketCredential) → ℕ →
    List PacketCredential × Ending
  | [], _ => ([], .whole)
  | read :: reads, pos =>
      match Buffer.uintAt 2 b pos with
      | .error _ => ([], .malformed)
      | .ok count =>
          let row := readRow read b count (pos + 2)
          match row.2 with
          | none => (row.1, .malformed)
          | some next =>
              if reads ≠ [] ∧ b.length ≤ next then (row.1, .short)
              else
                let rest := readRows b reads next
                (row.1 ++ rest.1, rest.2)

/-- The kinds of credentials that are counted, in their order. -/
def rowReaders : List (Reader ZTException PacketCredential) :=
  [(do let cap ← Capability.deserialize
       pure (.capability cap)),
   (do let tag ← Tag.deserialize
       pure (.tag tag)),
   (do let rev ← Revocation.deserialize
       pure (.revocation rev)),
   (do let coo ← CertificateOfOwnership.deserialize
       pure (.coo coo))]

/-- What is read from a packet, up to an exception. -/
def readCredentials (b : Bytes) : List PacketCredential × Ending :=
  let coms := readComs b b.length protoMinPacketLength
  match coms.2 with
  | none => (coms.1, .malformed)
  | some pos =>
      if pos + 1 < b.length then
        let rows := readRows b rowReaders (pos + 1)
        (coms.1 ++ rows.1, rows.2)
      else (coms.1, .whole)

/-- The credentials of a packet. -/
def credentialsOf (b : Bytes) : List PacketCredential := (readCredentials b).1

/-- Certificates of membership are read at the beginning. -/
theorem mem_readComs {b : Bytes} {n pos : ℕ} {c : PacketCredential}
    (hc : c ∈ (readComs b n pos).1) : ∃ com, c = .com com := by
  induction n generalizing pos with
  | zero => exact absurd hc List.not_mem_nil
  | succ n ih =>
      rw [readComs] at hc
      split_ifs at hc with hmore
      · rcases hcom : CertificateOfMembership.deserialize b pos with e | ⟨com, next⟩
        · rw [hcom] at hc
          exact absurd hc List.not_mem_nil
        · rw [hcom] at hc
          dsimp only at hc
          split_ifs at hc with hset
          · rcases List.mem_cons.mp hc with rfl | hc
            · exact ⟨com, rfl⟩
            · exact ih hc
          · exact ih hc
      · exact absurd hc List.not_mem_nil

/-- What is in a row was read by its reader. -/
theorem mem_readRow {read : Reader ZTException PacketCredential} {b : Bytes} {n pos : ℕ}
    {c : PacketCredential} (hc : c ∈ (readRow read b n pos).1) : ∃ p q, read b p = .ok (c, q) := by
  induction n generalizing pos with
  | zero => exact absurd hc List.not_mem_nil
  | succ n ih =>
      rw [readRow] at hc
      rcases hr : read b pos with e | ⟨d, next⟩
      · rw [hr] at hc
        exact absurd hc List.not_mem_nil
      · rw [hr] at hc
        rcases List.mem_cons.mp hc with rfl | hc
        · exact ⟨pos, next, hr⟩
        · exact ih hc

/-- What is in the rows was read by the reader of one of them. -/
theorem mem_readRows {b : Bytes} {reads : List (Reader ZTException PacketCredential)} {pos : ℕ}
    {c : PacketCredential} (hc : c ∈ (readRows b reads pos).1) :
    ∃ read ∈ reads, ∃ p q, read b p = .ok (c, q) := by
  induction reads generalizing pos with
  | nil => exact absurd hc List.not_mem_nil
  | cons read reads ih =>
      have hfirst : ∀ {count p}, c ∈ (readRow read b count p).1 →
          ∃ r ∈ read :: reads, ∃ p q, r b p = .ok (c, q) :=
        fun h => ⟨read, List.mem_cons_self, mem_readRow h⟩
      rw [readRows] at hc
      rcases hcount : Buffer.uintAt 2 b pos with e | count
      · rw [hcount] at hc
        exact absurd hc List.not_mem_nil
      · rw [hcount] at hc
        dsimp only at hc
        -- the row may be the last one: cut short by an exception, or by the end of the packet
        rcases hnext : (readRow read b count (pos + 2)).2 with - | next
        · rw [hnext] at hc
          exact hfirst hc
        · rw [hnext] at hc
          dsimp only at hc
          split_ifs at hc with hshort
          · exact hfirst hc
          · rcases List.mem_append.mp hc with hc | hc
            · exact hfirst hc
            · obtain ⟨r, hr, h⟩ := ih hc
              exact ⟨r, List.mem_cons_of_mem read hr, h⟩

/-- Certificates of membership are not counted. -/
theorem ne_com_of_mem_rowReaders {read : Reader ZTException PacketCredential}
    (hread : read ∈ rowReaders) {b : Bytes} {p q : ℕ} {c : PacketCredential}
    (h : read b p = .ok (c, q)) (com : CertificateOfMembership) : c ≠ .com com := by
  have hwrapped : ∀ {α : Type} (r : Reader ZTException α) (wrap : α → PacketCredential),
      (r >>= fun v => pure (wrap v)) b p = .ok (c, q) → ∃ v, c = wrap v := by
    intro α r wrap h
    obtain ⟨v, p', -, h⟩ := Reader.bind_ok.mp h
    exact ⟨v, (Prod.mk.inj (Reader.pure_ok.mp h)).1⟩
  unfold rowReaders at hread
  rcases List.mem_cons.mp hread with rfl | hread
  · obtain ⟨cap, rfl⟩ := hwrapped _ _ h
    exact nofun
  rcases List.mem_cons.mp hread with rfl | hread
  · obtain ⟨tag, rfl⟩ := hwrapped _ _ h
    exact nofun
  rcases List.mem_cons.mp hread with rfl | hread
  · obtain ⟨rev, rfl⟩ := hwrapped _ _ h
    exact nofun
  obtain rfl := List.mem_singleton.mp hread
  obtain ⟨coo, rfl⟩ := hwrapped _ _ h
  exact nofun

/-! ### Adding -/

/-- The networks of a node, each under its own id. -/
structure JoinedNetworks where
  table : Hashtable NetworkId Network
  filed : ∀ nwid n, table.get nwid = some n → n.id = nwid

namespace JoinedNetworks

/-- `Node::network`. -/
def get (networks : JoinedNetworks) (nwid : NetworkId) : Option Network := networks.table.get nwid

/-- The networks with one of them changed. -/
def set (networks : JoinedNetworks) (n : Network) : JoinedNetworks where
  table := networks.table.set n.id n
  filed := by
    intro nwid m hm
    rw [Hashtable.get_set] at hm
    split_ifs at hm with h
    · cases hm
      exact h.symm
    · exact networks.filed nwid m hm

theorem get_set (networks : JoinedNetworks) (n : Network) (nwid : NetworkId) :
    (networks.set n).get nwid = if nwid = n.id then some n else networks.get nwid :=
  Hashtable.get_set networks.table n.id n nwid

/-- The membership of a node in a joined network. -/
def membership (networks : JoinedNetworks) (nwid : NetworkId) (a : Address) : Option Membership :=
  (networks.get nwid).map (·.membership a)

end JoinedNetworks

/-- What the handler calls. -/
inductive CredentialsCall
  /-- a credential is passed to its network, with what that answers and sends -/
  | passed (c : PacketCredential) (result : AddCredentialResult) (sent : List Network.Output)
  /-- `Peer::received` -/
  | received (trustEstablished : Bool) (nwid : NetworkId)

/-- The variables of the handler, the networks of the node and what was called. -/
structure CredentialsLoop where
  trustEstablished : Bool
  network : NetworkId
  networks : JoinedNetworks
  calls : List CredentialsCall

/-- What the handler uses of the node and the sender of the packet. -/
structure CredentialsEnvironment where
  ecc : Ecc
  ownAddress : Address
  sentFrom : Address

namespace CredentialsLoop

variable (RR : CredentialsEnvironment) (known : KnownIdentities)

/-- One credential, and whether it does not have to wait.  The variable `network` is null, here
zero, when the node has not joined the network. -/
def add (s : CredentialsLoop) (c : PacketCredential) : CredentialsLoop × Bool :=
  match s.networks.get c.networkId with
  | none => ({ s with network := 0 }, true)
  | some n =>
      let r := c.result RR.ecc known n
      let after := (Network.machine RR.ecc RR.ownAddress).step n (c.event known RR.sentFrom)
      ({ trustEstablished := s.trustEstablished || r == .acceptedNew || r == .acceptedRedundant
         network := c.networkId
         networks := s.networks.set after.1
         calls := s.calls ++ [.passed c r after.2] }, r != .deferredForWhois)

/-- The credentials one after another, and whether none had to wait. -/
def addAll : List PacketCredential → CredentialsLoop → CredentialsLoop × Bool
  | [], s => (s, true)
  | c :: cs, s =>
      let r := s.add RR known c
      if r.2 then addAll cs r.1 else r

end CredentialsLoop

/-- What a node keeps that the handler reads and writes. -/
structure CredentialsState where
  lastCredentialsReceived : Int64
  networks : JoinedNetworks

/-- The end of an attempt: what it leaves and calls, and what it returns unless it throws. -/
structure CredentialsAttempt where
  state : CredentialsState
  calls : List CredentialsCall
  answer : Option Bool

/-- `ZT_PEER_CREDENTIALS_RATE_LIMIT`. -/
def peerCredentialsRateLimit : Int64 := 1000

/-- `Peer::rateGateCredentialsReceived`. -/
def rateGateCredentialsReceived (last now : Int64) : Bool := peerCredentialsRateLimit ≤ now - last

/-- `IncomingPacket::_doNETWORK_CREDENTIALS`. -/
def doNetworkCredentials (RR : CredentialsEnvironment) (known : KnownIdentities) (now : Int64)
    (s : CredentialsState) (b : Bytes) : CredentialsAttempt :=
  if !rateGateCredentialsReceived s.lastCredentialsReceived now then ⟨s, [], some true⟩
  else
    let read := readCredentials b
    let added := CredentialsLoop.addAll RR known read.1 ⟨false, 0, s.networks, []⟩
    let state : CredentialsState := ⟨now, added.1.networks⟩
    if added.2 then
      match read.2 with
      | .whole =>
          ⟨state, added.1.calls ++ [.received added.1.trustEstablished added.1.network], some true⟩
      | .short => ⟨state, added.1.calls, some true⟩
      | .malformed => ⟨state, added.1.calls, none⟩
    else ⟨state, added.1.calls, some false⟩

end ZGalaxy
