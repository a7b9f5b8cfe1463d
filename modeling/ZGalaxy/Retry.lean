/-
ZGalaxy/Retry.lean

Packets that are tried again.

A packet whose sender or whose network is not known yet stays in the receive queue, and is tried
again as it is by then: opened or not, unpacked or not.  An opened packet is marked as authentic and
an unpacked one no longer as compressed, and both marks are looked at before anything is done again.

The one thing that is asked before a packet is opened is whether it is a HELLO in the clear.  It is
asked of the cipher and of the verb, and under the extended armor the verb is not there to be read.

Main result: `retry_harmless_iff`, that no number of attempts opens or unpacks a packet twice or
shows a handler anything but what was sent, exactly when the packet does not pass for a HELLO in the
clear while it is armored or compressed (`Misread`).
-/
import ZGalaxy.Machine
import ZGalaxy.TryDecode

namespace ZGalaxy

open ByteList

/-! ### What a sender does -/

namespace Packet

/-- `compress`, with what `LZ4_compress_fast` makes of a payload. -/
def compress (lz4 : Bytes → Bytes) (p : Bytes) : Bytes :=
  let cl := lz4 (p.drop idxPayload)
  if compressed p = false ∧ idxPayload + 64 < p.length ∧ 0 < cl.length ∧
      cl.length < (p.drop idxPayload).length then
    (setByte p idxVerb (byteAt p idxVerb ||| verbFlagCompressed)).take idxPayload ++ cl
  else setByte p idxVerb (byteAt p idxVerb &&& ~~~verbFlagCompressed)

end Packet

/-- What the two ends share: the keys, and a compression that the receiver can undo. -/
structure Channel (C : Crypto) where
  key : Bytes
  aesKeys : C.AesKeys
  /-- the receiver's -/
  identity : C.PrivateKey
  lz4Compress : Bytes → Bytes
  lz4Decompress : Bytes → Option Bytes
  decompress_compress : ∀ x, 0 < (lz4Compress x).length → lz4Decompress (lz4Compress x) = some x

/-- How a packet is sealed.  The extended armor is for HELLOs alone, which are neither encrypted nor
compressed. -/
inductive Sealing (C : Crypto)
  | armor (fast : Bool) (ephemeral : C.PrivateKey) (aes compress encryptPayload extendedArmor : Bool)
      (plain : extendedArmor = true → encryptPayload = false ∧ compress = false)
  | trusted (compress : Bool) (tpid : BitVec 64)

namespace Sealing

variable {C : Crypto}

/-- The payload is compressed before it is sealed. -/
def compresses : Sealing C → Bool
  | armor _ _ _ compress _ _ _ => compress
  | trusted compress _ => compress

/-- The packet as it is sealed: compressed, where that is tried and of use. -/
def packed (s : Sealing C) (ch : Channel C) (p : Bytes) : Bytes :=
  if s.compresses then Packet.compress ch.lz4Compress p else p

/-- The packet as it leaves the sender. -/
def send (s : Sealing C) (ch : Channel C) (p : Bytes) : Except ZTException Bytes :=
  match s with
  | armor fast ephemeral aes _ encryptPayload extendedArmor _ =>
      Packet.armor C fast ch.key (if aes then some ch.aesKeys else none) ephemeral
        (C.publicKey ch.identity) encryptPayload extendedArmor (s.packed ch p)
  | trusted _ tpid => .ok (Packet.setTrusted (s.packed ch p) tpid)

end Sealing

/-- A packet that can be sent: whole, with room for an ephemeral key, not yet relayed and without
marks. -/
structure Sendable (p : Bytes) : Prop where
  whole : protoMinPacketLength ≤ p.length
  room : p.length + eccEphemeralPublicKeyLen ≤ protoMaxPacketLength
  hopless : Packet.hops p = 0
  unmarked : Packet.compressed p = false

/-! ### Attempts -/

/-- One call of `tryDecode`: what the node knows by then, and what a handler answers. -/
structure Attempt (C : Crypto) where
  RR : RuntimeEnvironment C
  topology : PhysicalPaths
  answer : Bool

/-- What an attempt does. -/
inductive AttemptEffect
  | dearmored
  | uncompressed
  /-- a handler runs -/
  | handled (verb : UInt8) (data : Bytes)
deriving DecidableEq

namespace Packet

/-- `uncompress` has something to do. -/
def isPacked (p : Bytes) : Bool := compressed p && decide (protoMinPacketLength ≤ p.length)

end Packet

namespace IncomingPacket

variable {C : Crypto}

/-- The packet as its peer's keys open it, where it is not open yet. -/
def opened (RR : RuntimeEnvironment C) (peer : PeerSecrets C) (p : IncomingPacket InetAddress) :
    Bool × Bytes :=
  if p.authenticated then (true, p.data)
  else Packet.dearmor C RR.fast peer.key (some peer.aesKeys) RR.identity p.data

/-- What is done to a packet that opens to `r`. -/
def openedEffects (p : IncomingPacket InetAddress) (r : Bytes) : List AttemptEffect :=
  (if p.authenticated then [] else [.dearmored]) ++ if Packet.isPacked r then [.uncompressed] else []

/-- What an attempt does to the packet before its verb is looked at. -/
def opening (RR : RuntimeEnvironment C) (p : IncomingPacket InetAddress) : List AttemptEffect :=
  match RR.getPeer (Packet.source p.data) with
  | none => []
  | some peer => p.openedEffects (opened RR peer p).2

/-- The packet once its path was looked at. -/
def pathChecked (p : IncomingPacket InetAddress) : IncomingPacket InetAddress :=
  if Packet.cipher p.data = cipherNoCryptoTrustedPath then { p with authenticated := true } else p

/-- An attempt: the packet, if it is kept, and what was done.  A HELLO is never kept, and an
exception is the end of any packet. -/
def attempt (a : Attempt C) (p : IncomingPacket InetAddress) :
    Option (IncomingPacket InetAddress) × List AttemptEffect :=
  match p.tryDecode a.RR a.topology with
  | .authenticationFailure _ => (none, [])
  | .invalid _ _ => (none, opening a.RR p.pathChecked)
  | .hello p' => (none, [.handled verbHello p'.data])
  | .whois _ p' => (some p', [])
  | .verb v p' =>
      (if a.answer || v == verbHello then none else some p',
        opening a.RR p.pathChecked ++ [.handled v p'.data])

end IncomingPacket

/-- A slot of the receive queue, with one packet. -/
def attempts (C : Crypto) :
    Machine (Option (IncomingPacket InetAddress)) (Attempt C) AttemptEffect where
  step s a :=
    match s with
    | none => (none, [])
    | some p => p.attempt a

/-- The node has the keys of the peer, once it knows it. -/
structure Attempt.Receives {C : Crypto} (a : Attempt C) (ch : Channel C) (source : Address) :
    Prop where
  identity : a.RR.identity = ch.identity
  lz4 : a.RR.lz4 = ch.lz4Decompress
  secrets : ∀ peer, a.RR.getPeer source = some peer → peer = ⟨ch.key, ch.aesKeys⟩

/-- The verb and the payload are those that were sent. -/
structure Original (p : Bytes) (v : UInt8) (d : Bytes) : Prop where
  verb : v = Packet.verb p
  payload : d.drop Packet.idxPayload = p.drop Packet.idxPayload

/-- A packet is opened once and unpacked once, and handlers see what was sent. -/
structure Harmless (p : Bytes) (effects : List AttemptEffect) : Prop where
  once : effects.count .dearmored ≤ 1
  unpackedOnce : effects.count .uncompressed ≤ 1
  original : ∀ v d, .handled v d ∈ effects → Original p v d

/-- A packet passes for a HELLO in the clear, but is armored or compressed. -/
structure Misread (q : Bytes) : Prop where
  cipher : Packet.cipher q = cipherPoly1305None
  verb : Packet.verb q = verbHello
  sealed : Packet.extendedArmor q = true ∨ Packet.compressed q = true

/-! ### What one attempt can do -/

namespace IncomingPacket

variable {C : Crypto} {a : Attempt C} {p : IncomingPacket InetAddress}

theorem data_pathChecked : p.pathChecked.data = p.data := by
  unfold pathChecked
  split_ifs
  · rfl
  · rfl

theorem authenticated_pathChecked (h : p.authenticated = true) :
    p.pathChecked.authenticated = true := by
  unfold pathChecked
  split_ifs
  · rfl
  · exact h

/-- What becomes of a packet whose handler answers. -/
def answered (a : Attempt C) (p : IncomingPacket InetAddress) (d : Bytes) :
    Option (IncomingPacket InetAddress) :=
  if a.answer || Packet.verb d == verbHello then none
  else some { p with data := d, authenticated := true }

/-- **What an attempt can do**: give the packet up, take it for a HELLO in the clear, keep it until
its sender is known, or open it. -/
inductive Tries (a : Attempt C) (p : IncomingPacket InetAddress) :
    Option (IncomingPacket InetAddress) × List AttemptEffect → Prop
  | refused : Tries a p (none, [])
  | hello (hc : Packet.cipher p.data = cipherPoly1305None) (hv : Packet.verb p.data = verbHello) :
      Tries a p (none, [.handled verbHello p.data])
  | unknown : Tries a p (some p.pathChecked, [])
  | broken {peer : PeerSecrets C} {r : Bytes}
      (hpeer : a.RR.getPeer (Packet.source p.data) = some peer)
      (hr : opened a.RR peer p.pathChecked = (true, r))
      (hd : Packet.uncompress a.RR.lz4 r = none) :
      Tries a p (none, openedEffects p.pathChecked r)
  | opened {peer : PeerSecrets C} {r d : Bytes}
      (hpeer : a.RR.getPeer (Packet.source p.data) = some peer)
      (hr : opened a.RR peer p.pathChecked = (true, r))
      (hd : Packet.uncompress a.RR.lz4 r = some d) :
      Tries a p (answered a p.pathChecked d,
        openedEffects p.pathChecked r ++ [.handled (Packet.verb d) d])

section Decode

variable {RR : RuntimeEnvironment C} {peer : PeerSecrets C}

theorem decodeFrom_unknown (hpeer : RR.getPeer (Packet.source p.data) = none) :
    decodeFrom RR p = .whois (Packet.source p.data) p := by
  unfold decodeFrom
  dsimp only
  rw [hpeer]

theorem decodeFrom_known (hpeer : RR.getPeer (Packet.source p.data) = some peer) :
    decodeFrom RR p =
      if (opened RR peer p).1 then
        match Packet.uncompress RR.lz4 (opened RR peer p).2 with
        | none => .invalid "LZ4 decompression failed" { p with data := (opened RR peer p).2 }
        | some d => .verb (Packet.verb d) { p with data := d, authenticated := true }
      else .authenticationFailure "invalid MAC" := by
  unfold decodeFrom
  dsimp only
  rw [hpeer]
  rfl

theorem opening_known (hpeer : RR.getPeer (Packet.source p.data) = some peer) :
    opening RR p = p.openedEffects (opened RR peer p).2 := by
  unfold opening
  rw [hpeer]

end Decode

theorem tries_attempt : Tries a p (p.attempt a) := by
  have hfrom : p.tryDecode a.RR a.topology = decodeFrom a.RR p.pathChecked →
      Tries a p (p.attempt a) := by
    intro hdecode
    have hdata : Packet.source p.pathChecked.data = Packet.source p.data := by
      rw [data_pathChecked]
    unfold attempt
    rw [hdecode]
    rcases hpeer : a.RR.getPeer (Packet.source p.data) with - | peer
    · rw [decodeFrom_unknown (hdata ▸ hpeer)]
      exact Tries.unknown
    · rw [decodeFrom_known (hdata ▸ hpeer), opening_known (hdata ▸ hpeer)]
      rcases hr : opened a.RR peer p.pathChecked with ⟨- | -, r⟩
      · exact Tries.refused
      · rw [if_pos rfl]
        dsimp only
        rcases hd : Packet.uncompress a.RR.lz4 r with - | d
        · exact Tries.broken hpeer hr hd
        · exact Tries.opened hpeer hr hd
  have htry : p.tryDecode a.RR a.topology =
      if Packet.cipher p.data = cipherNoCryptoTrustedPath then
        if a.topology.shouldInboundPathBeTrusted a.RR.addresses p.path
            (UInt64.ofBitVec (Packet.trustedPathId p.data)) then
          decodeFrom a.RR { p with authenticated := true }
        else .authenticationFailure "path not trusted"
      else if Packet.cipher p.data = cipherPoly1305None ∧ Packet.verb p.data = verbHello then .hello p
      else decodeFrom a.RR p := rfl
  by_cases htrusted : Packet.cipher p.data = cipherNoCryptoTrustedPath
  · rw [if_pos htrusted] at htry
    split_ifs at htry with hpath
    · refine hfrom ?_
      rw [htry, pathChecked, if_pos htrusted]
    · unfold attempt
      rw [htry]
      exact Tries.refused
  · rw [if_neg htrusted] at htry
    by_cases hhello : Packet.cipher p.data = cipherPoly1305None ∧ Packet.verb p.data = verbHello
    · rw [if_pos hhello] at htry
      unfold attempt
      rw [htry]
      exact Tries.hello hhello.1 hhello.2
    · rw [if_neg hhello] at htry
      refine hfrom ?_
      rw [htry, pathChecked, if_neg htrusted]

end IncomingPacket

/-! ### Once -/

namespace Packet

/-- The mark of a compressed payload, taken away. -/
def clearCompressed (p : Bytes) : Bytes :=
  setByte p idxVerb (byteAt p idxVerb &&& ~~~verbFlagCompressed)

theorem compressed_clearCompressed {p : Bytes} (h : idxVerb < p.length) :
    compressed (clearCompressed p) = false := by
  unfold compressed clearCompressed
  rw [byteAt_setByte_same h]
  exact forall_byte (P := fun b =>
    ((b &&& ~~~verbFlagCompressed &&& verbFlagCompressed) != 0) = false)
    (by decide) _

/-- What was unpacked is not packed. -/
theorem isPacked_uncompress {lz4 : Bytes → Option Bytes} {r d : Bytes}
    (h : uncompress lz4 r = some d) : isPacked d = false := by
  have hclear : ∀ x : Bytes, idxVerb < x.length → isPacked (clearCompressed x) = false := by
    intro x hx
    rw [isPacked, compressed_clearCompressed hx]
    rfl
  unfold uncompress at h
  split_ifs at h with hpacked hsize
  · have hlen : idxVerb < r.length := hpacked.2
    rcases hlz4 : lz4 (r.drop idxPayload) with - | buf
    · rw [hlz4] at h
      cases h
    · rw [hlz4] at h
      dsimp only at h
      split_ifs at h
      obtain rfl := Option.some.inj h
      refine hclear _ ?_
      rw [List.length_append, List.length_take_of_le hsize.le]
      exact Nat.lt_add_right _ (by decide)
  · have hlen : idxVerb < r.length := hpacked.2
    obtain rfl := Option.some.inj h
    exact hclear r hlen
  · obtain rfl := Option.some.inj h
    rw [isPacked, Bool.and_eq_false_iff, decide_eq_false_iff_not]
    by_cases hc : compressed r = true
    · exact Or.inr fun hlen => hpacked ⟨hc, hlen⟩
    · exact Or.inl (Bool.eq_false_iff.mpr hc)

end Packet

namespace IncomingPacket

variable {C : Crypto} {p : IncomingPacket InetAddress} {r : Bytes}

/-- How often the packet in a slot may still be opened. -/
def keysLeft : Option (IncomingPacket InetAddress) → ℕ
  | none => 0
  | some p => if p.authenticated then 0 else 1

/-- How often the packet in a slot may still be unpacked. -/
def packsLeft : Option (IncomingPacket InetAddress) → ℕ
  | none => 0
  | some p => if p.authenticated && !Packet.isPacked p.data then 0 else 1

theorem count_dearmored : (p.openedEffects r).countP (· == .dearmored) = keysLeft (some p) := by
  show _ = if p.authenticated then 0 else 1
  unfold openedEffects
  split_ifs
  · rfl
  · rfl
  · rfl
  · rfl

theorem count_uncompressed :
    (p.openedEffects r).countP (· == .uncompressed) = if Packet.isPacked r then 1 else 0 := by
  unfold openedEffects
  split_ifs
  · rfl
  · rfl
  · rfl
  · rfl

theorem keysLeft_pathChecked : keysLeft (some p.pathChecked) ≤ keysLeft (some p) := by
  by_cases h : p.authenticated = true
  · rw [keysLeft, if_pos (authenticated_pathChecked h)]
    exact Nat.zero_le _
  · rw [keysLeft, keysLeft, if_neg h]
    split_ifs
    · exact Nat.zero_le 1
    · exact le_refl 1

/-- **A step opens at most what may be opened.** -/
theorem keysLeft_step (s : Option (IncomingPacket InetAddress)) (a : Attempt C) :
    (((attempts C).step s a).2.countP (· == .dearmored)) + keysLeft ((attempts C).step s a).1
      ≤ keysLeft s := by
  rcases s with - | p
  · exact le_refl 0
  · show (p.attempt a).2.countP _ + keysLeft (p.attempt a).1 ≤ _
    have htries : Tries a p (p.attempt a) := tries_attempt
    generalize p.attempt a = out at htries ⊢
    cases htries with
    | refused => exact Nat.zero_le _
    | hello hc hv => exact Nat.zero_le _
    | unknown =>
        rw [List.countP_nil, Nat.zero_add]
        exact keysLeft_pathChecked
    | broken hpeer hr hd =>
        rw [count_dearmored]
        exact keysLeft_pathChecked
    | @opened peer r d hpeer hr hd =>
        have hgone : keysLeft (answered a p.pathChecked d) = 0 := by
          unfold answered
          split_ifs
          · rfl
          · rfl
        rw [List.countP_append, count_dearmored, hgone]
        exact keysLeft_pathChecked

/-- **A step unpacks at most what may be unpacked.** -/
theorem packsLeft_step (s : Option (IncomingPacket InetAddress)) (a : Attempt C) :
    (((attempts C).step s a).2.countP (· == .uncompressed)) + packsLeft ((attempts C).step s a).1
      ≤ packsLeft s := by
  rcases s with - | p
  · exact le_refl 0
  · show (p.attempt a).2.countP _ + packsLeft (p.attempt a).1 ≤ _
    have hpack : ∀ {peer : PeerSecrets C} {r : Bytes},
        opened a.RR peer p.pathChecked = (true, r) →
        (if Packet.isPacked r then 1 else 0) ≤ packsLeft (some p) := by
      intro peer r hr
      by_cases h : (p.authenticated && !Packet.isPacked p.data) = true
      · -- the packet was open and unpacked, and is what it opens to
        obtain ⟨hauth, hpacked⟩ := (Bool.and_eq_true_iff).mp h
        rw [opened, if_pos (authenticated_pathChecked hauth), data_pathChecked] at hr
        obtain rfl : p.data = r := congrArg Prod.snd hr
        rw [(Bool.not_eq_true' _).mp hpacked]
        exact Nat.zero_le _
      · rw [packsLeft, if_neg h]
        split_ifs
        · exact le_refl 1
        · exact Nat.zero_le 1
    have htries : Tries a p (p.attempt a) := tries_attempt
    generalize p.attempt a = out at htries ⊢
    -- by how far the attempt comes
    cases htries with
    | refused => exact Nat.zero_le _
    | hello hc hv => exact Nat.zero_le _
    | unknown =>
        rw [List.countP_nil, Nat.zero_add]
        by_cases h : (p.authenticated && !Packet.isPacked p.data) = true
        · obtain ⟨hauth, hpacked⟩ := (Bool.and_eq_true_iff).mp h
          rw [packsLeft, data_pathChecked, authenticated_pathChecked hauth, hpacked]
          exact Nat.zero_le _
        · rw [packsLeft, packsLeft, if_neg h]
          split_ifs
          · exact Nat.zero_le 1
          · exact le_refl 1
    | broken hpeer hr hd =>
        rw [count_uncompressed]
        exact hpack hr
    | @opened peer r d hpeer hr hd =>
        have hgone : packsLeft (answered a p.pathChecked d) = 0 := by
          unfold answered
          split_ifs
          · rfl
          · rw [packsLeft, Packet.isPacked_uncompress hd]
            rfl
        rw [List.countP_append, count_uncompressed, hgone]
        exact hpack hr

/-- **A packet is opened once and unpacked once**, whatever it is and however often it is tried. -/
theorem once_run (p : IncomingPacket InetAddress) (as : List (Attempt C)) :
    ((attempts C).runOutputs (some p) as).count .dearmored ≤ 1 ∧
      ((attempts C).runOutputs (some p) as).count .uncompressed ≤ 1 := by
  have hle : ∀ b : Bool, (if b then 0 else 1) ≤ 1 := by
    intro b
    cases b
    · exact le_refl 1
    · exact Nat.zero_le 1
  constructor
  · exact (Nat.le_add_right _ _).trans
      ((Machine.budget_run keysLeft_step (some p) as).trans (hle _))
  · exact (Nat.le_add_right _ _).trans
      ((Machine.budget_run packsLeft_step (some p) as).trans (hle _))

end IncomingPacket

/-! ### What is packed is unpacked -/

namespace Packet

/-- The verb and the payload are the same. -/
def Same (c r : Bytes) : Prop := r.length = c.length ∧ body r = body c

theorem body_eq_drop (p : Bytes) : body p = p.drop idxVerb :=
  List.take_of_length_le (by rw [List.length_drop]; exact le_refl _)

theorem Same.byteAt {c r : Bytes} (h : Same c r) (hlen : idxVerb < c.length) :
    byteAt r idxVerb = byteAt c idxVerb := by
  have hzero :
      ∀ x : Bytes, idxVerb < x.length → ByteList.byteAt (body x) 0 = ByteList.byteAt x idxVerb :=
    fun x hx => byteAt_slice x (Nat.sub_pos_of_lt hx)
  rw [← hzero r (h.1.symm ▸ hlen), ← hzero c hlen, h.2]

theorem Same.payload {c r : Bytes} (h : Same c r) : r.drop idxPayload = c.drop idxPayload := by
  have hbody : ∀ x : Bytes, x.drop idxPayload = (body x).drop 1 := by
    intro x
    rw [body_eq_drop, List.drop_drop]
    rfl
  rw [hbody r, hbody c, h.2]

/-- A change before a place. -/
theorem drop_setByte {b : Bytes} {i j : ℕ} {x : UInt8} (hi : i < b.length) (hij : i < j) :
    (setByte b i x).drop j = b.drop j := by
  have hslice : ∀ y : Bytes, y.drop j = slice y j y.length :=
    fun y => (List.take_of_length_le (by rw [List.length_drop]; exact Nat.sub_le _ _)).symm
  rw [hslice, hslice, length_setByte hi]
  exact slice_setByte_disjoint hi (Or.inr hij)

/-- A byte without the mark of a compressed payload. -/
theorem clear_of_unmarked {b : UInt8} (h : b &&& verbFlagCompressed = 0) :
    b &&& ~~~verbFlagCompressed = b := by
  revert h
  exact forall_byte (P := fun b => b &&& verbFlagCompressed = 0 → b &&& ~~~verbFlagCompressed = b)
    (by decide) b

theorem clearCompressed_of_unmarked {p : Bytes} (hlen : idxVerb < p.length)
    (h : compressed p = false) : clearCompressed p = p := by
  rw [clearCompressed, clear_of_unmarked (bne_eq_false_iff_eq.mp h), setByte_byteAt_self hlen]

/-- What has nothing to unpack stays as it is. -/
theorem uncompress_of_not_packed {lz4 : Bytes → Option Bytes} {r : Bytes}
    (h : isPacked r = false) : uncompress lz4 r = some r := by
  unfold uncompress
  rw [if_neg]
  rintro ⟨hc, hlen⟩
  rw [isPacked, hc, decide_eq_true hlen] at h
  cases h

end Packet

namespace Packet

/-- A packet with a compressed payload. -/
def packedWith (p cl : Bytes) : Bytes :=
  (setByte p idxVerb (byteAt p idxVerb ||| verbFlagCompressed)).take idxPayload ++ cl

variable {p : Bytes} (hp : protoMinPacketLength ≤ p.length) (cl : Bytes)
include hp

theorem verb_inside : idxVerb < p.length := hp

theorem length_head : ((setByte p idxVerb (byteAt p idxVerb ||| verbFlagCompressed)).take
    idxPayload).length = idxPayload :=
  List.length_take_of_le (by rwa [length_setByte (verb_inside hp)])

theorem length_packedWith : (packedWith p cl).length = idxPayload + cl.length := by
  rw [packedWith, List.length_append, length_head hp]

theorem drop_packedWith : (packedWith p cl).drop idxPayload = cl :=
  List.drop_left' (length_head hp)

theorem byteAt_packedWith {i : ℕ} (hi : i < idxPayload) : byteAt (packedWith p cl) i
    = byteAt (setByte p idxVerb (byteAt p idxVerb ||| verbFlagCompressed)) i := by
  rw [packedWith, byteAt_append_left (by rwa [length_head hp])]
  exact (byteAt_slice _ hi).trans (by rw [Nat.zero_add])

theorem verb_packedWith :
    byteAt (packedWith p cl) idxVerb = byteAt p idxVerb ||| verbFlagCompressed := by
  rw [byteAt_packedWith hp cl (by decide), byteAt_setByte_same (verb_inside hp)]

theorem flags_packedWith : flags (packedWith p cl) = flags p := by
  have hdisjoint : byteAt (setByte p idxVerb (byteAt p idxVerb ||| verbFlagCompressed)) idxFlags
      = byteAt p idxFlags := byteAt_splice_disjoint (Nat.succ_le_of_lt hp) (Or.inl (by decide))
  rw [flags, byteAt_packedWith hp cl (by decide), hdisjoint]
  rfl

theorem compressed_packedWith : compressed (packedWith p cl) = true := by
  rw [compressed, verb_packedWith hp]
  exact forall_byte (P := fun b => ((b ||| verbFlagCompressed) &&& verbFlagCompressed != 0) = true)
    (by decide) _

end Packet

/-- A packet as it is sealed: as it is, or with its payload compressed. -/
inductive Packs {C : Crypto} (ch : Channel C) (p : Bytes) : Bytes → Prop
  | whole : Packs ch p p
  | compressed (hpos : 0 < (ch.lz4Compress (p.drop Packet.idxPayload)).length)
      (hlt : (ch.lz4Compress (p.drop Packet.idxPayload)).length <
      (p.drop Packet.idxPayload).length) :
      Packs ch p (Packet.packedWith p (ch.lz4Compress (p.drop Packet.idxPayload)))

/-- `compress` packs a packet without the mark. -/
theorem packs_compress {C : Crypto} {ch : Channel C} {p : Bytes}
    (hwhole : protoMinPacketLength ≤ p.length)
    (hunmarked : Packet.compressed p = false) : Packs ch p (Packet.compress ch.lz4Compress p) := by
  unfold Packet.compress
  dsimp only
  split_ifs with hc
  · exact Packs.compressed hc.2.2.1 hc.2.2.2
  · have hclear := Packet.clearCompressed_of_unmarked hwhole hunmarked
    rw [Packet.clearCompressed] at hclear
    rw [hclear]
    exact Packs.whole

/-- **What is packed is unpacked**: a packet with the verb and the payload of the packed one shows
those of the packet that was packed. -/
theorem Packs.uncompress_of_whole {C : Crypto} {ch : Channel C} {p c : Bytes} (h : Packs ch p c)
    (hwhole : protoMinPacketLength ≤ p.length) (hunmarked : Packet.compressed p = false)
    (hfits : p.length ≤ protoMaxPacketLength) {r : Bytes} (hr : Packet.Same c r) :
    ∃ d, Packet.uncompress ch.lz4Decompress r = some d ∧ Original p (Packet.verb d) d := by
  cases h with
  | whole =>
      have hbyte := hr.byteAt hwhole
      -- the packet goes as it is
      refine ⟨r, Packet.uncompress_of_not_packed ?_, ?_, hr.payload⟩
      · rw [Packet.isPacked, Packet.compressed, hbyte]
        exact Bool.and_eq_false_iff.mpr (Or.inl hunmarked)
      · rw [Packet.verb, hbyte]
        rfl
  | compressed hpos hlt =>
      set cl := ch.lz4Compress (p.drop Packet.idxPayload) with hcl
      have hlen : r.length = Packet.idxPayload + cl.length :=
        hr.1.trans (Packet.length_packedWith hwhole cl)
      have hsize : Packet.idxPayload < r.length := hlen ▸ Nat.lt_add_of_pos_right hpos
      have hbyte : byteAt r idxVerb = byteAt p idxVerb ||| Packet.verbFlagCompressed := by
        rw [hr.byteAt
          (by rw [Packet.length_packedWith hwhole]; exact Nat.lt_add_right _ (by decide)),
          Packet.verb_packedWith hwhole]
      have hmarked : Packet.compressed r = true := by
        rw [Packet.compressed, hbyte, ← Packet.verb_packedWith hwhole cl]
        exact Packet.compressed_packedWith hwhole cl
      have hpayload :
          ch.lz4Decompress (r.drop Packet.idxPayload) = some (p.drop Packet.idxPayload) := by
        rw [hr.payload, Packet.drop_packedWith hwhole]
        exact ch.decompress_compress _ hpos
      -- what comes out is not longer than the packet was
      have hroom : 0 < (p.drop Packet.idxPayload).length ∧
          (p.drop Packet.idxPayload).length ≤ protoMaxPacketLength - Packet.idxPayload := by
        refine ⟨lt_trans hpos hlt, ?_⟩
        rw [List.length_drop]
        exact Nat.sub_le_sub_right hfits _
      have hhead : (r.take Packet.idxPayload).length = Packet.idxPayload :=
        List.length_take_of_le hsize.le
      have hlt : idxVerb < (r.take Packet.idxPayload ++ p.drop Packet.idxPayload).length := by
        rw [List.length_append, hhead]
        exact Nat.lt_add_right _ (by decide)
      refine ⟨Packet.clearCompressed (r.take Packet.idxPayload ++ p.drop Packet.idxPayload),
        ?_, ?_, ?_⟩
      · unfold Packet.uncompress
        rw [if_pos ⟨hmarked, hsize.le⟩, if_pos hsize, hpayload]
        dsimp only
        rw [if_pos hroom]
        rfl
      · have htake : byteAt (r.take Packet.idxPayload) idxVerb = byteAt r idxVerb :=
          (byteAt_slice r (i := 0) (by decide : idxVerb < Packet.idxPayload)).trans
            (by rw [Nat.zero_add])
        rw [Packet.verb, Packet.clearCompressed, byteAt_setByte_same hlt,
          byteAt_append_left (by rw [hhead]; decide), htake, hbyte]
        exact Packet.forall_byte (P := fun b => (b ||| Packet.verbFlagCompressed)
          &&& ~~~Packet.verbFlagCompressed &&& 0x1f = b &&& 0x1f) (by decide) _
      · rw [Packet.clearCompressed, Packet.drop_setByte hlt (by decide), List.drop_left' hhead]

section Packs

variable {C : Crypto} {ch : Channel C} {p c : Bytes} (hp : Sendable p)
include hp

theorem packs_packed (s : Sealing C) : Packs ch p (s.packed ch p) := by
  unfold Sealing.packed
  split_ifs
  · exact packs_compress hp.whole hp.unmarked
  · exact Packs.whole

/-- A packed packet is whole, and no longer than it was. -/
theorem Packs.length (h : Packs ch p c) :
    protoMinPacketLength ≤ c.length ∧ c.length ≤ p.length := by
  cases h with
  | whole => exact ⟨hp.whole, le_refl _⟩
  | compressed hpos hlt =>
      rw [Packet.length_packedWith hp.whole]
      rw [List.length_drop] at hlt
      exact ⟨Nat.le_add_right _ _, by omega⟩

/-- The flags are before what is packed. -/
theorem Packs.hops (h : Packs ch p c) : Packet.hops c = 0 := by
  cases h with
  | whole => exact hp.hopless
  | compressed hpos hlt =>
      rw [Packet.hops, Packet.flags_packedWith hp.whole]
      exact hp.hopless

/-- A packed packet without the mark is the packet itself. -/
theorem Packs.eq_of_unmarked (h : Packs ch p c) (hc : Packet.compressed c = false) : c = p := by
  cases h with
  | whole => rfl
  | compressed hpos hlt =>
      rw [Packet.compressed_packedWith hp.whole] at hc
      cases hc

/-- A packed packet with the mark has another payload. -/
theorem Packs.payload_ne_of_marked (h : Packs ch p c) (hc : Packet.compressed c = true) :
    c.drop Packet.idxPayload ≠ p.drop Packet.idxPayload := by
  cases h with
  | whole =>
      rw [hp.unmarked] at hc
      cases hc
  | compressed hpos hlt =>
      rw [Packet.drop_packedWith hp.whole]
      intro heq
      rw [heq] at hlt
      exact absurd hlt (lt_irrefl _)

/-- What is packed of a packet that can be sent is unpacked. -/
theorem Packs.uncompress (h : Packs ch p c) {r : Bytes} (hr : Packet.Same c r) :
    ∃ d, Packet.uncompress ch.lz4Decompress r = some d ∧ Original p (Packet.verb d) d :=
  h.uncompress_of_whole hp.whole hp.unmarked (le_trans (Nat.le_add_right _ _) hp.room) hr

end Packs

/-! ### What is sealed is opened -/

namespace Packet

variable {C : Crypto} {fast : Bool} {key : Bytes} {aesKeys : Option C.AesKeys}
  {identity : C.PrivateKey} {q r : Bytes} {cs : UInt8}

/-- Keys that were not needed do no harm. -/
theorem openBody_some (h : openBody C fast key none cs q = (true, r)) (k : C.AesKeys) :
    openBody C fast key (some k) cs q = (true, r) := by
  unfold openBody at h ⊢
  by_cases hgmac : cs = cipherAesGmacSiv
  · rw [if_pos hgmac] at h
    cases h
  · rw [if_neg hgmac] at h ⊢
    exact h

theorem dearmor_some (h : dearmor C fast key none identity q = (true, r)) (k : C.AesKeys) :
    dearmor C fast key (some k) identity q = (true, r) := by
  unfold dearmor at h ⊢
  dsimp only at h ⊢
  split_ifs at h ⊢ with hx hlen
  · cases h
  · exact openBody_some h k
  · exact openBody_some h k

/-- A packet in the clear opens to itself. -/
theorem dearmor_clear (hc : cipher q = cipherPoly1305None) (hx : extendedArmor q = false)
    (h : dearmor C fast key aesKeys identity q = (true, r)) : r = q := by
  have hopen : openBody C fast key aesKeys cipherPoly1305None q
      = fastOpen C key cipherPoly1305None q := openBody_poly1305 fast key aesKeys false q
  unfold dearmor at h
  dsimp only at h
  rw [if_neg (fun hand => by rw [hx] at hand; cases hand.1), hc, hopen, fastOpen] at h
  split_ifs at h with hmac hsalsa
  · cases h
  · exact absurd hsalsa (by decide)
  · exact (Prod.mk.inj h).2.symm

/-- No key opens a packet that is marked as trusted. -/
theorem not_trusted_of_dearmor (h : dearmor C fast key aesKeys identity q = (true, r)) :
    cipher q ≠ cipherNoCryptoTrustedPath := by
  intro htrusted
  unfold dearmor openBody at h
  dsimp only at h
  rw [htrusted, if_neg (fun hand => by cases hand.2), if_neg (by decide), if_neg (by decide)] at h
  cases h

/-- What a packet that was armored says of itself on arrival: whether it has the extended armor, and
its size. -/
theorem armor_arrives {p : Bytes} (hlen : protoMinPacketLength ≤ p.length)
    (hroom : p.length + eccEphemeralPublicKeyLen ≤ protoMaxPacketLength) (hhops : hops p = 0)
    {encryptPayload x : Bool} {ephemeral : C.PrivateKey}
    (h : armor C fast key aesKeys ephemeral (C.publicKey identity) encryptPayload x p = .ok q)
    (n : ℕ) :
    extendedArmor (incrementHops^[n] q) = x ∧
      (incrementHops^[n] q).length = p.length + if x then eccEphemeralPublicKeyLen else 0 := by
  obtain ⟨L, rfl, -⟩ := Layout.exists_of_length hlen
  have hhops' : L.flags &&& 0x07 = 0 := by
    rw [← L.flags_bytes]
    exact hhops
  obtain ⟨S, hseal, hSlen, -, hSflags⟩ :=
    sealBody_parts (C := C) fast key aesKeys encryptPayload x L
  have hlenS : S.bytes.length = L.bytes.length := by
    rw [S.length_bytes, L.length_bytes, hSlen]
  -- whatever has the sealed flags says so after any number of hops
  have harrive : ∀ w : Bytes, idxFlags < w.length → flags w = S.flags →
      extendedArmor (incrementHops^[n] w) = x ∧ (incrementHops^[n] w).length = w.length := by
    intro w hw hflags
    obtain ⟨f, hq, hf⟩ := incrementHops_iterate hw n
    rw [hflags, hSflags] at hf
    have harrived : ArrivedFlags L.flags x (armorCipher aesKeys encryptPayload) f := by
      refine arrivedFlags x ?_ hhops' hf
      unfold armorCipher
      split_ifs
      · exact Or.inr (Or.inr rfl)
      · exact Or.inr (Or.inl rfl)
      · exact Or.inl rfl
    rw [hq, extendedArmor, flags_setFlags hw, length_setFlags hw]
    exact ⟨harrived.extended, rfl⟩
  have hidx : idxFlags < S.bytes.length := hlenS ▸ lt_of_lt_of_le (by decide) hlen
  unfold armor at h
  rw [hseal] at h
  cases x with
  | false =>
      obtain rfl := Except.ok.inj h
      have hthere := harrive S.bytes hidx S.flags_bytes
      exact ⟨hthere.1, hthere.2.trans hlenS⟩
  | true =>
      obtain ⟨w, hw, hwlen, hwflags, -⟩ := unwrapExtended_wrapExtended (C := C) ephemeral identity
        (hlenS.symm ▸ hlen) (hlenS.symm ▸ hroom)
      obtain rfl := Except.ok.inj (hw.symm.trans h)
      have hthere := harrive w (hwlen ▸ Nat.lt_add_right _ hidx) (hwflags.trans S.flags_bytes)
      refine ⟨hthere.1, hthere.2.trans ?_⟩
      rw [hwlen, hlenS]
      rfl

theorem Same.setFlags {c : Bytes} (hc : idxFlags < c.length) (f : UInt8) :
    Same c (setFlags c f) := by
  refine ⟨length_setFlags hc f, ?_⟩
  rw [body, bodyLen, length_setFlags hc]
  exact slice_setFlags hc f (Or.inr (by decide))

theorem Same.trans {b c d : Bytes} (h : Same b c) (h' : Same c d) : Same b d :=
  ⟨h'.1.trans h.1, h'.2.trans h.2⟩

/-- The id of a trusted path stands before the verb. -/
theorem Same.splice_mac {c v : Bytes} (hc : idxVerb ≤ c.length) (hv : v.length = 8) :
    Same c (splice c idxMac v) := by
  have hfit : idxMac + v.length ≤ c.length := by
    rw [hv]
    exact hc
  refine ⟨length_splice hfit, ?_⟩
  rw [body, bodyLen, length_splice hfit]
  exact slice_splice_disjoint hfit (Or.inr (by rw [hv]; decide))

/-- A packet marked as sent over a trusted path arrives as it was, and marked. -/
theorem trusted_arrives {c : Bytes} (hlen : protoMinPacketLength ≤ c.length) (tpid : BitVec 64)
    (n : ℕ) :
    Same c (incrementHops^[n] (setTrusted c tpid)) ∧
      cipher (incrementHops^[n] (setTrusted c tpid)) = cipherNoCryptoTrustedPath := by
  have hflags : idxFlags < c.length := lt_of_lt_of_le (by decide) hlen
  have hcipher : Same c (setCipher c cipherNoCryptoTrustedPath) := Same.setFlags hflags _
  have hverb : idxVerb ≤ (setCipher c cipherNoCryptoTrustedPath).length :=
    hcipher.1.symm ▸ le_trans (by decide) hlen
  have htrusted : Same c (setTrusted c tpid) :=
    hcipher.trans (Same.splice_mac hverb (length_beBytes 8 _))
  have hidx : idxFlags < (setTrusted c tpid).length := htrusted.1.symm ▸ hflags
  have hset : flags (setTrusted c tpid) = (flags c &&& 0xc7) |||
      ((cipherNoCryptoTrustedPath <<< (3 : UInt8)) &&& 0x38) := by
    have hdisjoint : flags (setTrusted c tpid) = flags (setCipher c cipherNoCryptoTrustedPath) :=
      byteAt_splice_disjoint (by rw [length_beBytes]; exact hverb) (Or.inl (by decide))
    rw [hdisjoint, setCipher, flags_setFlags hflags]
  obtain ⟨f, hq, hf⟩ := incrementHops_iterate hidx n
  rw [hq]
  refine ⟨htrusted.trans (Same.setFlags hidx f), ?_⟩
  rw [cipher, flags_setFlags hidx]
  have hmask : f &&& 0x38 = flags (setTrusted c tpid) &&& 0x38 := by
    have hpart : ∀ b : UInt8, b &&& 0x38 = (b &&& 0xf8) &&& 0x38 := by
      intro b
      rw [UInt8.and_assoc]
      rfl
    rw [hpart f, hpart (flags (setTrusted c tpid)), hf]
  rw [hmask, hset]
  exact forall_byte (P := fun b => (((b &&& 0xc7) |||
    ((cipherNoCryptoTrustedPath <<< (3 : UInt8)) &&& 0x38)) &&& 0x38) >>> 3 =
    cipherNoCryptoTrustedPath)
    (by decide) _

end Packet

/-- A packet arrives as `q` when it was packed as `c`. -/
structure Arrives {C : Crypto} (ch : Channel C) (c q : Bytes) : Prop where
  trusted : Packet.cipher q = cipherNoCryptoTrustedPath → Packet.Same c q
  opens : Packet.cipher q ≠ cipherNoCryptoTrustedPath → ∀ fast, ∃ r,
    Packet.dearmor C fast ch.key (some ch.aesKeys) ch.identity q = (true, r) ∧ Packet.Same c r
  armored : Packet.extendedArmor q = true → Packet.cipher q = cipherPoly1305None →
    q.length = c.length + eccEphemeralPublicKeyLen ∧ Packet.compressed c = false

section Arrives

variable {C : Crypto} {ch : Channel C} {p q₀ : Bytes} {s : Sealing C}

/-- **What was sealed arrives**, over any number of hops. -/
theorem Sealing.arrives (hp : Sendable p) (hsend : s.send ch p = .ok q₀) (n : ℕ) :
    Arrives ch (s.packed ch p) (Packet.incrementHops^[n] q₀) := by
  have hpacks : Packs ch p (s.packed ch p) := packs_packed hp s
  obtain ⟨hwhole, hle⟩ := hpacks.length hp
  have hhops := hpacks.hops hp
  have hroom := le_trans (Nat.add_le_add_right hle _) hp.room
  cases s with
  | armor fast ephemeral aes compress encryptPayload extendedArmor plain =>
      have hopens : ∀ fast', ∃ r, Packet.dearmor C fast' ch.key (some ch.aesKeys) ch.identity
          (Packet.incrementHops^[n] q₀) = (true, r) ∧
            Packet.Same ((armor fast ephemeral aes compress
            encryptPayload extendedArmor plain).packed ch p) r := by
        intro fast'
        obtain ⟨q, hq, hopens⟩ := Packet.armor_opens C hwhole hhops encryptPayload
          extendedArmor (fun _ => hroom) (fun hx => (plain hx).1) fast fast' ch.key
          (if aes then some ch.aesKeys else none) ephemeral ch.identity
        obtain rfl := Except.ok.inj (hq.symm.trans hsend)
        obtain ⟨r, hr, hrestored⟩ := hopens n
        refine ⟨r, ?_, hrestored.length, hrestored.body⟩
        cases aes with
        | true => exact hr
        | false => exact Packet.dearmor_some hr ch.aesKeys
      obtain ⟨hx, hlen⟩ := Packet.armor_arrives hwhole hroom hhops hsend n
      refine ⟨fun htrusted => ?_, fun _ => hopens, fun hext _ => ?_⟩
      · obtain ⟨r, hr, -⟩ := hopens fast
        exact absurd htrusted (Packet.not_trusted_of_dearmor hr)
      · rw [hext] at hx
        refine ⟨by rw [hlen, if_pos hx.symm], ?_⟩
        have hplain : (Sealing.armor fast ephemeral aes compress encryptPayload extendedArmor
            plain).packed ch p = p := by
          show (if compress then _ else p) = p
          rw [(plain hx.symm).2]
          rfl
        rw [hplain]
        exact hp.unmarked
  | trusted compress tpid =>
      obtain rfl := Except.ok.inj hsend
      obtain ⟨hsame, hcipher⟩ := Packet.trusted_arrives hwhole tpid n
      refine ⟨fun _ => hsame, fun hnot => absurd hcipher hnot, fun _ hnone => ?_⟩
      rw [hcipher] at hnone
      exact absurd hnone (by decide)

end Arrives

/-! ### What handlers see -/

section Handlers

variable {C : Crypto} {ch : Channel C} {p c q : Bytes}

/-- A packet that is read as it is shows what was sent. -/
theorem original_of_clear (hp : Sendable p) (hpacks : Packs ch p c) (harrives : Arrives ch c q)
    (hc : Packet.cipher q = cipherPoly1305None) (hmisread : ¬Misread q)
    (hv : Packet.verb q = verbHello) : Original p verbHello q := by
  have hx : Packet.extendedArmor q = false := by
    by_contra h
    exact hmisread ⟨hc, hv, Or.inl (Bool.eq_true_of_not_eq_false h)⟩
  have hunmarked : Packet.compressed q = false := by
    by_contra h
    exact hmisread ⟨hc, hv, Or.inr (Bool.eq_true_of_not_eq_false h)⟩
  obtain ⟨r, hr, hsame⟩ := harrives.opens (by rw [hc]; decide) true
  obtain rfl := Packet.dearmor_clear hc hx hr
  have hbyte := hsame.byteAt (hpacks.length hp).1
  have hcp : c = p := by
    refine hpacks.eq_of_unmarked hp ?_
    rw [Packet.compressed, ← hbyte]
    exact hunmarked
  subst hcp
  refine ⟨?_, hsame.payload⟩
  rw [← hv, Packet.verb, hbyte]
  rfl

/-- The packet in the slot is as it arrived, or it is open, unpacked and as it was sent. -/
inductive Pending (p q : Bytes) : Option (IncomingPacket InetAddress) → Prop
  | gone : Pending p q none
  | arrived {s : IncomingPacket InetAddress} (hdata : s.data = q)
      (htrusted : s.authenticated = true → Packet.cipher q = cipherNoCryptoTrustedPath) :
      Pending p q (some s)
  | opened {s : IncomingPacket InetAddress} (hauth : s.authenticated = true)
      (hpacked : Packet.isPacked s.data = false)
      (horiginal : Original p (Packet.verb s.data) s.data) : Pending p q (some s)

/-- No more than effects on the packet itself. -/
theorem handled_notMem_openedEffects {s : IncomingPacket InetAddress} {r d : Bytes} {v : UInt8} :
    .handled v d ∉ s.openedEffects r := by
  unfold IncomingPacket.openedEffects
  split_ifs
  · intro h
    cases List.mem_singleton.mp h
  · exact List.not_mem_nil
  · intro h
    rcases List.mem_cons.mp h with h | h
    · cases h
    · cases List.mem_singleton.mp h
  · intro h
    cases List.mem_singleton.mp h

/-- An open packet stays as it is when its path is looked at. -/
theorem pathChecked_of_authenticated {s : IncomingPacket InetAddress} (h : s.authenticated = true) :
    s.pathChecked = s := by
  unfold IncomingPacket.pathChecked
  split_ifs
  · rw [← h]
  · rfl

/-- **The packet that an attempt opens** shows what was sent. -/
theorem original_of_opened (hp : Sendable p) (hpacks : Packs ch p c) (harrives : Arrives ch c q)
    {s : IncomingPacket InetAddress} (hs : Pending p q (some s)) {a : Attempt C}
    (ha : a.Receives ch (Packet.source q)) {peer : PeerSecrets C} {r d : Bytes}
    (hpeer : a.RR.getPeer (Packet.source s.data) = some peer)
    (hr : IncomingPacket.opened a.RR peer s.pathChecked = (true, r))
    (hd : Packet.uncompress a.RR.lz4 r = some d) : Original p (Packet.verb d) d := by
  cases hs with
  | arrived hdata htrusted =>
      rw [hdata] at hpeer
      obtain rfl := ha.secrets peer hpeer
      have hsame : Packet.Same c r := by
        unfold IncomingPacket.opened at hr
        rw [IncomingPacket.data_pathChecked, hdata] at hr
        by_cases hauth : s.pathChecked.authenticated = true
        · -- what counts as open without a key came over a trusted path
          rw [if_pos hauth] at hr
          obtain rfl : q = r := congrArg Prod.snd hr
          refine harrives.trusted ?_
          unfold IncomingPacket.pathChecked at hauth
          rw [hdata] at hauth
          split_ifs at hauth with hpath
          · exact hpath
          · exact htrusted hauth
        · rw [if_neg hauth, ha.identity] at hr
          have hnot : Packet.cipher q ≠ cipherNoCryptoTrustedPath := by
            intro hpath
            refine hauth ?_
            unfold IncomingPacket.pathChecked
            rw [hdata, if_pos hpath]
          obtain ⟨r', hr', hsame⟩ := harrives.opens hnot a.RR.fast
          obtain rfl : r' = r := congrArg Prod.snd (hr'.symm.trans hr)
          exact hsame
      obtain ⟨d', hd', horiginal⟩ := hpacks.uncompress hp hsame
      rw [ha.lz4, hd'] at hd
      obtain rfl := Option.some.inj hd
      exact horiginal
  | opened hauth hpacked horiginal =>
      rw [pathChecked_of_authenticated hauth, IncomingPacket.opened, if_pos hauth] at hr
      obtain rfl : s.data = r := congrArg Prod.snd hr
      rw [Packet.uncompress_of_not_packed hpacked] at hd
      obtain rfl := Option.some.inj hd
      exact horiginal

/-- **A step** leaves the packet pending, and shows a handler what was sent. -/
theorem pending_step (hp : Sendable p) (hpacks : Packs ch p c) (harrives : Arrives ch c q)
    (hmisread : ¬Misread q) {s : Option (IncomingPacket InetAddress)} (hs : Pending p q s)
    {a : Attempt C} (ha : a.Receives ch (Packet.source q)) :
    Pending p q ((attempts C).step s a).1 ∧
      ∀ v d, .handled v d ∈ ((attempts C).step s a).2 → Original p v d := by
  rcases s with - | s
  · exact ⟨Pending.gone, fun v d h => absurd h List.not_mem_nil⟩
  · show Pending p q (s.attempt a).1 ∧ ∀ v d, .handled v d ∈ (s.attempt a).2 → Original p v d
    have htries : IncomingPacket.Tries a s (s.attempt a) := IncomingPacket.tries_attempt
    generalize s.attempt a = out at htries ⊢
    cases htries with
    | refused => exact ⟨Pending.gone, fun v d h => absurd h List.not_mem_nil⟩
    | hello hc hv =>
        refine ⟨Pending.gone, fun v d h => ?_⟩
        obtain ⟨rfl, rfl⟩ := AttemptEffect.handled.inj (List.mem_singleton.mp h)
        cases hs with
        | arrived hdata htrusted =>
            rw [hdata] at hc hv ⊢
            exact original_of_clear hp hpacks harrives hc hmisread hv
        | opened hauth hpacked horiginal => exact hv ▸ horiginal
    | unknown =>
        refine ⟨?_, fun v d h => absurd h List.not_mem_nil⟩
        cases hs with
        | arrived hdata htrusted =>
            refine Pending.arrived (IncomingPacket.data_pathChecked.trans hdata) fun hauth => ?_
            unfold IncomingPacket.pathChecked at hauth
            rw [hdata] at hauth
            split_ifs at hauth with hpath
            · exact hpath
            · exact htrusted hauth
        | opened hauth hpacked horiginal =>
            rw [pathChecked_of_authenticated hauth]
            exact Pending.opened hauth hpacked horiginal
    | broken hpeer hr hd =>
        exact ⟨Pending.gone, fun v d h => absurd h handled_notMem_openedEffects⟩
    | opened hpeer hr hd =>
        have horiginal := original_of_opened hp hpacks harrives hs ha hpeer hr hd
        refine ⟨?_, fun v d h => ?_⟩
        · unfold IncomingPacket.answered
          split_ifs
          · exact Pending.gone
          · exact Pending.opened rfl (Packet.isPacked_uncompress hd) horiginal
        · rcases List.mem_append.mp h with h | h
          · exact absurd h handled_notMem_openedEffects
          · obtain ⟨rfl, rfl⟩ := AttemptEffect.handled.inj (List.mem_singleton.mp h)
            exact horiginal

/-- **A run** shows handlers what was sent. -/
theorem original_run (hp : Sendable p) (hpacks : Packs ch p c) (harrives : Arrives ch c q)
    (hmisread : ¬Misread q) {s : Option (IncomingPacket InetAddress)} (hs : Pending p q s)
    {as : List (Attempt C)} (has : ∀ a ∈ as, a.Receives ch (Packet.source q)) :
    ∀ v d, .handled v d ∈ (attempts C).runOutputs s as → Original p v d := by
  intro v d hmem
  have hguarded : (attempts C).Guarded (fun _ a => a.Receives ch (Packet.source q)) s as :=
    Machine.guarded_of_forall (fun a ha _ => has a ha) s
  obtain ⟨_, _, -, hthen⟩ := Machine.outputs_run (I := fun _ s => Pending p q s)
    (P := fun _ o => ∀ v d, o = .handled v d → Original p v d)
    (fun _ _ _ hs ha => (pending_step hp hpacks harrives hmisread hs ha).1)
    (fun _ _ _ hs ha o ho v d h =>
      (pending_step hp hpacks harrives hmisread hs ha).2 v d (h ▸ ho))
    (h := []) hs hguarded _ hmem
  exact hthen v d rfl

theorem containsAddress_agrees (net addr : InetAddress) (_ : net.HasNetmask) :
    InetAddress.containsAddress net addr = InetAddress.containsAddress net addr := rfl

/-- An attempt of a node that does not know the sender. -/
def Channel.strangerAttempt (ch : Channel C) : Attempt C where
  RR :=
    { identity := ch.identity
      getPeer := fun _ => none
      fast := true
      lz4 := ch.lz4Decompress
      addresses := ⟨InetAddress.containsAddress, containsAddress_agrees⟩ }
  topology := .empty
  answer := true

/-- A misread packet is shown to the handler as it arrived. -/
theorem handled_of_misread {s : IncomingPacket InetAddress} (h : Misread s.data) :
    (attempts C).runOutputs (some s) [ch.strangerAttempt] = [.handled verbHello s.data] := by
  have htry : s.tryDecode ch.strangerAttempt.RR ch.strangerAttempt.topology = .hello s := by
    unfold IncomingPacket.tryDecode
    dsimp only
    rw [if_neg (by rw [h.cipher]; decide), if_pos ⟨h.cipher, h.verb⟩]
  show (s.attempt ch.strangerAttempt).2 ++ [] = _
  unfold IncomingPacket.attempt
  rw [htry]
  rfl

/-- What a misread packet shows is not what was sent. -/
theorem payload_ne_of_misread (hp : Sendable p) (hpacks : Packs ch p c) (harrives : Arrives ch c q)
    (h : Misread q) : q.drop Packet.idxPayload ≠ p.drop Packet.idxPayload := by
  intro heq
  by_cases hx : Packet.extendedArmor q = true
  · -- the ephemeral key is still there
    obtain ⟨hlen, hunmarked⟩ := harrives.armored hx h.cipher
    obtain rfl := hpacks.eq_of_unmarked hp hunmarked
    have hsize := congrArg List.length heq
    have hwhole : Packet.idxPayload ≤ c.length := hp.whole
    rw [List.length_drop, List.length_drop, hlen, Nat.sub_add_comm hwhole] at hsize
    exact absurd hsize (Nat.ne_of_gt (Nat.lt_add_of_pos_right (by decide)))
  · -- the payload is still compressed
    obtain ⟨r, hr, hsame⟩ := harrives.opens (by rw [h.cipher]; decide) true
    obtain rfl := Packet.dearmor_clear h.cipher (Bool.eq_false_iff.mpr hx) hr
    refine hpacks.payload_ne_of_marked hp ?_ (hsame.payload.symm.trans heq)
    rw [Packet.compressed, ← hsame.byteAt (hpacks.length hp).1]
    exact h.sealed.resolve_left hx

end Handlers

/-- Primitives under which the extended armor leaves the lower bits of every byte as they are. -/
def keepingCrypto : Crypto := { Packet.flippingCrypto with aesCtr := fun _ _ _ _ => 0x20 }

/-- Two ends that compress nothing. -/
def plainChannel : Channel keepingCrypto where
  key := List.replicate 32 0
  aesKeys := ()
  identity := ()
  lz4Compress := fun _ => []
  lz4Decompress := fun _ => none
  decompress_compress := fun _ h => absurd h (lt_irrefl 0)

/-- A HELLO without a payload, in the extended armor or without it. -/
def sealedHello (extendedArmor : Bool) : Sealing keepingCrypto :=
  .armor true () false false false extendedArmor fun _ => ⟨rfl, rfl⟩

/-- A HELLO without a payload. -/
def plainHello : Bytes := List.replicate 27 0 ++ [1]

/-- A HELLO as it arrives. -/
def arrivedHello (extendedArmor : Bool) : IncomingPacket InetAddress :=
  ⟨((sealedHello extendedArmor).send plainChannel plainHello).toOption.getD [], 0, .nil, false⟩

theorem sendable_plainHello : Sendable plainHello :=
  ⟨by decide, by decide, by decide, by decide⟩

/-- Primitives with a keystream that changes every byte. -/
def countingCrypto : Crypto :=
  { Packet.flippingCrypto with salsa2012 := fun _ _ i => UInt8.ofNat (i + 1) }

/-- The block that LZ4 makes of a hundred zeros: a literal, a match of 94 bytes, five literals. -/
def zerosBlock : Bytes := [0x1f, 0, 1, 0, 0x4b, 0x50, 0, 0, 0, 0, 0]

/-- Two ends that compress a hundred zeros, and nothing else. -/
def packingChannel : Channel countingCrypto where
  key := List.replicate 32 0
  aesKeys := ()
  identity := ()
  lz4Compress := fun x => if x = List.replicate 100 0 then zerosBlock else []
  lz4Decompress := fun y => if y = zerosBlock then some (List.replicate 100 0) else none
  decompress_compress := by
    intro x hpos
    by_cases hx : x = List.replicate 100 0
    · rw [if_pos hx, if_pos rfl, hx]
    · rw [if_neg hx] at hpos
      exact absurd hpos (lt_irrefl 0)

/-- A frame of a hundred zeros. -/
def zerosFrame : Bytes := List.replicate 27 0 ++ [0x06] ++ List.replicate 100 0

/-- It is compressed, and then encrypted. -/
def packedSealing : Sealing countingCrypto :=
  .armor true () false true true false fun h => absurd h Bool.false_ne_true

/-- The frame as it arrives. -/
def arrivedFrame : IncomingPacket InetAddress :=
  ⟨(packedSealing.send packingChannel zerosFrame).toOption.getD [], 0, .nil, false⟩

/-- An attempt of a node that knows the sender; the handler defers the packet or is done with it. -/
def knownAttempt (answer : Bool) : Attempt countingCrypto where
  RR := { packingChannel.strangerAttempt.RR with getPeer := fun _ => some ⟨packingChannel.key, ()⟩ }
  topology := .empty
  answer := answer

/-- The sender is not known at first, and then the network is not. -/
def frameAttempts : List (Attempt countingCrypto) :=
  [packingChannel.strangerAttempt, knownAttempt false, knownAttempt true]

end ZGalaxy
