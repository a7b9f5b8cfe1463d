/-
ZGalaxy/Reassembly.lean

Fragmentation and reassembly agree, or not.

The sender cuts a packet `p` longer than the physical MTU into a head and
fragments (`part p 0`, `part p 1`, …, `emit_default`).  At the receiver the parts
come in any order, with duplicates, between datagrams of other packets.  As long
as these allocate no entry, the entry of `p` is described by the set of the parts
received (`Holding`): the bits of `haveFragments` are that set, and the stored
parts are those of the packet.  The last part to come completes the set, the count
of the bits reaches the total and the parts are joined back into `p`
(`last_step`, `flatMap_payload_part`).

Two things stand in the way.  A packet that needs more than seven datagrams is sent
all the same, although the receiver ignores fragments that name such a total: the
buffer holds seven times the MTU, but the fragments spend sixteen bytes each on
their header.  And a slot that is not in use still carries the id of the packet it
last held: if it is the next one of the ring and that id is the packet's own, the
first part is filed there as if the entry were in use, and is lost.  Main result:
`reassembles_iff`, these are the only two.
-/
import ZGalaxy.Fragmenting
import Mathlib.Data.Finset.Range

namespace ZGalaxy

open ByteList

variable {Path Peer : Type*}

/-! ### What the sender emits -/

/-- The bytes of a packet in each fragment at the default MTU. -/
def fragSize : ℕ := defaultPhysMtu - protoMinFragmentLength

/-- How many datagrams a packet takes at the default MTU. -/
def partCount (p : Bytes) : ℕ := (p.length - defaultPhysMtu + (fragSize - 1)) / fragSize + 1

/-- The size of the largest packet that takes no more datagrams than the receiver
accepts. -/
def maxReassembled : ℕ := defaultPhysMtu + (maxPacketFragments - 1) * fragSize

/-- Fragment `no` of the packet. -/
def fragmentPart (p : Bytes) (no : ℕ) : Bytes :=
  slice p idxIv 13 ++ [addressReservedPrefix,
    (UInt8.ofNat (partCount p % 16) <<< 4) ||| UInt8.ofNat (no % 16), 0] ++
    slice p (defaultPhysMtu + (no - 1) * fragSize) fragSize

/-- The head and the fragments of the packet. -/
def part (p : Bytes) : ℕ → Bytes
  | 0 => p.take defaultPhysMtu
  | no + 1 => fragmentPart p (no + 1)

theorem part_eq_datagramAt (p : Bytes) (no : ℕ) : part p no = datagramAt defaultPhysMtu p no := by
  cases no <;> rfl

/-- **What the sender emits** at the default MTU: the parts of the packet, in
order. -/
theorem emit_default {p : Bytes} (hmax : p.length ≤ protoMaxPacketLength) :
    emit defaultPhysMtu true p = ((List.range (partCount p)).map (part p), none) := by
  have hparts : part p = datagramAt defaultPhysMtu p := funext (part_eq_datagramAt p)
  rw [hparts]
  exact emit_datagrams (by decide) hmax

/-! ### What the parts are to the receiver -/

/-- A finished packet on its way to a node: of a legal size, from another
node, whose address is not a reserved one, and flagged as fragmented exactly when
it is sent in parts. -/
structure InTransit (node : Address) (p : Bytes) : Prop where
  min : protoMinPacketLength ≤ p.length
  max : p.length ≤ protoMaxPacketLength
  destination : Packet.destination p = node
  source : Packet.source p ≠ node
  unreserved : Address.isReserved (Packet.source p) = false
  fragmented : Packet.fragmented p = decide (defaultPhysMtu < p.length)

theorem InTransit.transitAt {self : Address} {p : Bytes} (h : InTransit self p) :
    TransitAt defaultPhysMtu self p :=
  ⟨h.min, h.max, h.destination, h.source, h.unreserved, h.fragmented⟩

section Parts

variable {self : Address} {p : Bytes}

theorem partCount_eq (p : Bytes) : partCount p = (p.length - 1432 + 1415) / 1416 + 1 := rfl

/-- A packet takes one datagram exactly when it fits in one. -/
theorem partCount_eq_one_iff : partCount p = 1 ↔ p.length ≤ defaultPhysMtu :=
  datagramCount_eq_one_iff (by decide)

/-- The receiver accepts the total that the fragments of a packet name exactly up
to the size `maxReassembled`. -/
theorem partCount_le_iff : partCount p ≤ maxPacketFragments ↔ p.length ≤ maxReassembled := by
  have hmax : maxReassembled = 9928 := rfl
  rw [partCount_eq, maxPacketFragments, hmax]
  omega

theorem partCount_lt_sixteen (hmax : p.length ≤ protoMaxPacketLength) : partCount p < 16 := by
  have hcap : protoMaxPacketLength = 10024 := rfl
  rw [partCount_eq]
  omega

/-- **Joining the parts gives the packet back.** -/
theorem flatMap_payload_part (hmin : protoMinPacketLength ≤ p.length) :
    part p 0 ++ (List.range' 1 (partCount p - 1)).flatMap
      (fun no => Fragment.payload (part p no)) = p := by
  have hparts : part p = datagramAt defaultPhysMtu p := funext (part_eq_datagramAt p)
  rw [hparts]
  exact flatMap_payload_datagramAt (by decide) hmin

/-! ### How the receiver sees the parts -/

/-- The head of a packet in parts is a head; a packet in one part is whole. -/
theorem datagramKind_part_zero (h : InTransit self p) :
    datagramKind self (part p 0) = if partCount p = 1 then .whole else .head := by
  rw [part, datagramKind_head h.transitAt (by decide)]
  simp only [partCount_eq_one_iff]

/-- What a fragment says of itself. -/
theorem fragment_part (h : InTransit self p) {no : ℕ} (hpos : 1 ≤ no) (hno : no < partCount p) :
    Fragment.packetId (part p no) = Packet.packetId p ∧
      Fragment.fragmentNumber (part p no) = no ∧
      Fragment.totalFragments (part p no) = partCount p ∧
      datagramKind self (part p no)
        = if partCount p ≤ maxPacketFragments then .fragment else .ignored := by
  rw [part_eq_datagramAt]
  exact fragmentAt_spec h.transitAt (by decide) hpos hno (partCount_lt_sixteen h.max)

theorem fragment_part_fields (h : InTransit self p) {no : ℕ} (hpos : 1 ≤ no)
    (hno : no < partCount p) :
    Fragment.totalFragments (part p no) = partCount p ∧ Fragment.fragmentNumber (part p no) = no :=
  ⟨(fragment_part h hpos hno).2.2.1, (fragment_part h hpos hno).2.1⟩

/-- The fragments of a packet are accepted up to the size `maxReassembled`, and
ignored beyond it. -/
theorem datagramKind_fragment (h : InTransit self p) {no : ℕ} (hpos : 1 ≤ no)
    (hno : no < partCount p) :
    datagramKind self (part p no)
      = if partCount p ≤ maxPacketFragments then .fragment else .ignored :=
  (fragment_part h hpos hno).2.2.2

/-- Every part carries the packet's id. -/
theorem packetId_part (hmin : protoMinPacketLength ≤ p.length) (no : ℕ) :
    Packet.packetId (part p no) = Packet.packetId p := by
  rw [part_eq_datagramAt]
  exact packetId_datagramAt hmin (by decide) no

end Parts

/-! ### Deliveries -/

/-- What reaches the receiver: a part of the packet in question, or anything else
that happens to the switch. -/
inductive Delivery (Path Peer : Type*)
  | own (no : ℕ) (a : Arrival Path Peer)
  | other (e : SwitchEvent Path Peer)

/-- The receiver, with the buffers that the parts of the packet make it decode. -/
def receiver (Path Peer : Type*) (self : Address) :
    Machine (Switch Path) (Delivery Path Peer) Bytes where
  step s
    | .own _ a => ((s.onRemotePacket a self).1, (s.onRemotePacket a self).2.filterMap decodedData)
    | .other e => (((switchMachine Path Peer self).step s e).1, [])

/-- The parts are the datagrams that were sent, at times the clock can show, and
nothing else is a datagram of the packet or allocates an entry. -/
def Undisturbed (self : Address) (id : BitVec 64) (datagrams : List Bytes) (s : Switch Path) :
    Delivery Path Peer → Prop
  | .own no a => datagrams[no]? = some a.data ∧ a.now ≠ 0
  | .other e =>
      (∀ a, e = .remotePacket a → Packet.packetId a.data ≠ id) ∧
        ((switchMachine Path Peer self).step s e).1.rxQueuePtr = s.rxQueuePtr

/-- The part numbers of the deliveries, in order. -/
def partNumbers (ds : List (Delivery Path Peer)) : List ℕ :=
  ds.filterMap fun d => match d with
    | .own no _ => some no
    | .other _ => none

/-- All `n` parts arrive, and the last one to arrive has not arrived before. -/
def AllArrive (n : ℕ) (nos : List ℕ) : Prop :=
  (∀ no < n, no ∈ nos) ∧ (∀ no ∈ nos, no < n) ∧
    ∃ before last, nos = before ++ [last] ∧ last ∉ before

/-- Whatever the order in which the datagrams arrive, and whatever arrives
between them, the receiver decodes once, and what it decodes is the packet. -/
def Reassembles (Peer : Type*) (self : Address) (s : Switch Path) (p : Bytes)
    (datagrams : List Bytes) : Prop :=
  ∀ ds : List (Delivery Path Peer),
    (receiver Path Peer self).Guarded (Undisturbed self (Packet.packetId p) datagrams) s ds →
    AllArrive datagrams.length (partNumbers ds) →
    (receiver Path Peer self).runOutputs s ds = [p]

/-- Two switches with the same ring, as far as finding an entry goes: the contents
of the slots may differ. -/
structure SameRing (s t : Switch Path) : Prop where
  ptr : t.rxQueuePtr = s.rxQueuePtr
  packetId : ∀ i, (t.rxQueue i).packetId = (s.rxQueue i).packetId
  timestamp : ∀ i, (t.rxQueue i).timestamp = (s.rxQueue i).timestamp

/-! ### The entry of the packet -/

/-- What an entry holds: of the packet `p`, the parts in `S` and no others. -/
structure Parts (p : Bytes) (S : Finset ℕ) (rq : RXQueueEntry Path) : Prop where
  incomplete : rq.complete = false
  bits : ∀ f, rq.haveFragments.getLsbD f = decide (f ∈ S)
  total : (∃ no ∈ S, 1 ≤ no) → rq.totalFragments = partCount p
  head : 0 ∈ S → rq.frag0.data = part p 0
  frags : ∀ no ∈ S, 1 ≤ no → rq.frags (no - 1) = part p no

/-- What a part of a packet in parts does to the entry found for it. -/
def receivePart (no : ℕ) (a : Arrival Path Peer) (rq : RXQueueEntry Path) :
    RXQueueEntry Path × Option (IncomingPacket Path) :=
  if no = 0 then rq.receiveHead a else rq.receiveFragment a

/-- The entry with a part it did not have. -/
def addPart (no : ℕ) (a : Arrival Path Peer) (rq : RXQueueEntry Path) : RXQueueEntry Path :=
  if no = 0 then rq.addHead a else rq.addFragment a

section Entry

variable {self : Address} {p : Bytes} {a : Arrival Path Peer} {rq : RXQueueEntry Path}
  {S : Finset ℕ} {no : ℕ}

/-- A part in the receiver's reach. -/
theorem onRemotePacket_part (h : InTransit self p) (hmany : partCount p ≠ 1)
    (hfew : partCount p ≤ maxPacketFragments) (hno : no < partCount p)
    (hdata : a.data = part p no) (s : Switch Path) :
    s.onRemotePacket a self
      = s.updateRXQueueEntry (Packet.packetId p) fun rq => receivePart no a rq := by
  have hid : Packet.packetId a.data = Packet.packetId p := by
    rw [hdata, packetId_part h.min]
  rw [Switch.onRemotePacket_eq, hid, hdata]
  rcases Nat.eq_zero_or_pos no with rfl | hpos
  · rw [datagramKind_part_zero h, if_neg hmany]
    rfl
  · rw [datagramKind_fragment h hpos hno, if_pos hfew]
    have hne : no ≠ 0 := by omega
    simp only [receivePart, if_neg hne]

/-- The fields of a part on arrival. -/
theorem part_fields (h : InTransit self p) (hno : no < partCount p) (hdata : a.data = part p no) :
    Packet.packetId a.data = Packet.packetId p ∧
      (no = 0 → a.data.length ≤ protoMaxPacketLength) ∧
      (no ≠ 0 → Fragment.totalFragments a.data = partCount p ∧
        Fragment.fragmentNumber a.data = no) := by
  refine ⟨by rw [hdata, packetId_part h.min], fun h0 => ?_, fun hne => ?_⟩
  · subst h0
    have hmax := h.max
    rw [hdata, part, List.length_take]
    omega
  · rw [hdata]
    exact fragment_part_fields h (by omega) hno

/-- The first part to arrive. -/
theorem receivePart_start (h : InTransit self p) (hfew : partCount p ≤ maxPacketFragments)
    (hno : no < partCount p) (hdata : a.data = part p no)
    (hne : rq.packetId ≠ Packet.packetId p) :
    Parts p {no} (receivePart no a rq).1 ∧ (receivePart no a rq).1.timestamp = a.now ∧
      (receivePart no a rq).1.packetId = Packet.packetId p ∧ (receivePart no a rq).2 = none := by
  obtain ⟨hid, hfits, hfields⟩ := part_fields h hno hdata
  have hmax : maxPacketFragments = 7 := rfl
  rw [← hid] at hne
  unfold receivePart
  by_cases h0 : no = 0
  · subst h0
    rw [if_pos rfl, RXQueueEntry.receiveHead_eq _ (hfits rfl), if_pos hne]
    refine ⟨⟨rfl, fun f => ?_, ?_, fun _ => hdata, ?_⟩, rfl, hid, rfl⟩
    · show (RXQueueEntry.bit 0).getLsbD f = _
      by_cases hf : f < 32
      · rw [RXQueueEntry.getLsbD_bit 0 hf]
        simp [eq_comm]
      · rw [BitVec.getLsbD_of_ge _ _ (by omega), decide_eq_false (by simp; omega)]
    · rintro ⟨no, hmem, hpos⟩
      rw [Finset.mem_singleton] at hmem
      omega
    · intro no hmem hpos
      rw [Finset.mem_singleton] at hmem
      omega
  · obtain ⟨htotal, hnumber⟩ := hfields h0
    rw [if_neg h0, RXQueueEntry.receiveFragment_eq _ _ (by omega), if_pos hne]
    refine ⟨⟨rfl, fun f => ?_, fun _ => htotal, ?_, ?_⟩, rfl, hid, rfl⟩
    · show (RXQueueEntry.bit (Fragment.fragmentNumber a.data)).getLsbD f = _
      rw [hnumber]
      by_cases hf : f < 32
      · rw [RXQueueEntry.getLsbD_bit no hf]
        simp [eq_comm]
      · rw [BitVec.getLsbD_of_ge _ _ (by omega), decide_eq_false (by simp; omega)]
    · intro hmem
      rw [Finset.mem_singleton] at hmem
      omega
    · intro no' hmem _
      rw [Finset.mem_singleton] at hmem
      subst hmem
      show Function.update rq.frags (Fragment.fragmentNumber a.data - 1) a.data (no' - 1) = _
      rw [hnumber, Function.update_self, hdata]

/-- A part the entry did not have joins it. -/
theorem addPart_parts (h : InTransit self p) (hfew : partCount p ≤ maxPacketFragments)
    (hno : no < partCount p) (hdata : a.data = part p no) (hparts : Parts p S rq) (hnew : no ∉ S) :
    Parts p (insert no S) (addPart no a rq) := by
  obtain ⟨hid, hfits, hfields⟩ := part_fields h hno hdata
  have hmax : maxPacketFragments = 7 := rfl
  -- the bits are those of the numbers
  have hbits : ∀ f, (rq.haveFragments ||| RXQueueEntry.bit no).getLsbD f
      = decide (f ∈ insert no S) := by
    intro f
    by_cases hf : f < 32
    · rw [RXQueueEntry.getLsbD_or_bit _ _ hf, hparts.bits f]
      by_cases hfn : no = f
      · simp [hfn]
      · simp [hfn, Ne.symm hfn, Finset.mem_insert]
    · have hmem : f ∉ insert no S := by
        intro hmem
        rcases Finset.mem_insert.mp hmem with rfl | hS
        · omega
        · have hset := hparts.bits f
          rw [decide_eq_true hS, BitVec.getLsbD_of_ge _ _ (by omega)] at hset
          exact absurd hset (by decide)
      rw [BitVec.getLsbD_of_ge _ _ (by omega), decide_eq_false hmem]
  unfold addPart
  by_cases h0 : no = 0
  · subst h0
    rw [if_pos rfl]
    refine ⟨hparts.incomplete, hbits, ?_, fun _ => hdata, ?_⟩
    · rintro ⟨no, hmem, hpos⟩
      exact hparts.total ⟨no, (Finset.mem_insert.mp hmem).resolve_left (by omega), hpos⟩
    · intro no hmem hpos
      exact hparts.frags no ((Finset.mem_insert.mp hmem).resolve_left (by omega)) hpos
  · obtain ⟨htotal, hnumber⟩ := hfields h0
    rw [if_neg h0]
    refine ⟨hparts.incomplete, ?_, fun _ => htotal, ?_, ?_⟩
    · rw [← hnumber] at hbits
      rw [← hnumber]
      exact hbits
    · intro hmem
      exact hparts.head ((Finset.mem_insert.mp hmem).resolve_left (Ne.symm h0))
    · intro no' hmem hpos
      simp only [RXQueueEntry.addFragment, hnumber]
      rcases Finset.mem_insert.mp hmem with rfl | hS
      · rw [Function.update_self, hdata]
      · have hne : no' - 1 ≠ no - 1 := by
          have : no' ≠ no := fun he => hnew (he ▸ hS)
          omega
        rw [Function.update_of_ne hne]
        exact hparts.frags no' hS hpos

/-- The count of the parts reaches the total exactly when all parts are there. -/
theorem count_iff (hfew : partCount p ≤ maxPacketFragments) (hparts : Parts p S rq)
    (hsub : S ⊆ Finset.range (partCount p)) :
    countBits rq.haveFragments = BitVec.ofNat 32 (partCount p) ↔
      S = Finset.range (partCount p) := by
  rw [RXQueueEntry.countBits_eq_iff hfew fun f hf => by
    rw [hparts.bits f, decide_eq_false_iff_not]
    intro hmem
    have := Finset.mem_range.mp (hsub hmem)
    omega]
  constructor
  · intro hall
    refine Finset.Subset.antisymm hsub fun f hf => ?_
    have := hall f (Finset.mem_range.mp hf)
    rwa [hparts.bits f, decide_eq_true_eq] at this
  · intro heq f hf
    rw [hparts.bits f, heq, decide_eq_true_eq, Finset.mem_range]
    exact hf

/-- What a part does to an entry that already has some. -/
theorem receivePart_eq (h : InTransit self p) (hmany : partCount p ≠ 1)
    (hfew : partCount p ≤ maxPacketFragments)
    (hno : no < partCount p) (hdata : a.data = part p no) (hid : rq.packetId = Packet.packetId p)
    (hparts : Parts p S rq) (hS : S.Nonempty) :
    receivePart no a rq =
      if no ∈ S then (rq, none)
      else if countBits (addPart no a rq).haveFragments = BitVec.ofNat 32 (partCount p) then
        (addPart no a rq).assemble (partCount p) a.tryDecode
      else (addPart no a rq, none) := by
  obtain ⟨hid', hfits, hfields⟩ := part_fields h hno hdata
  have hmax : maxPacketFragments = 7 := rfl
  have hne : ¬ rq.packetId ≠ Packet.packetId a.data := by
    rw [hid', hid]
    exact not_not.mpr rfl
  unfold receivePart addPart
  by_cases h0 : no = 0
  · subst h0
    rw [if_pos rfl, if_pos rfl, RXQueueEntry.receiveHead_eq _ (hfits rfl), if_neg hne,
      hparts.bits 0]
    by_cases hmem : 0 ∈ S
    · rw [if_pos hmem, if_neg (by simpa using hmem)]
    · -- some fragment came before, and named the total
      have htotal : rq.totalFragments = partCount p := by
        obtain ⟨k, hk⟩ := hS
        refine hparts.total ⟨k, hk, Nat.pos_of_ne_zero ?_⟩
        rintro rfl
        exact hmem hk
      have hone : 1 < rq.totalFragments := by
        rw [htotal]
        omega
      rw [if_neg hmem, if_pos (by simpa using hmem), if_pos hone, htotal]
  · obtain ⟨htotal, hnumber⟩ := hfields h0
    rw [if_neg h0, if_neg h0, RXQueueEntry.receiveFragment_eq _ _ (by omega), if_neg hne, hnumber,
      hparts.bits no, htotal]
    by_cases hmem : no ∈ S
    · rw [if_pos hmem, if_neg (by simpa using hmem)]
    · rw [if_neg hmem, if_pos (by simpa using hmem)]

/-- Assembling an entry with all parts decodes the packet. -/
theorem assemble_all (h : InTransit self p)
    (hparts : Parts p (Finset.range (partCount p)) rq)
    (tryDecode : IncomingPacket Path → Bool × IncomingPacket Path) :
    ∃ packet, (rq.assemble (partCount p) tryDecode).2 = some packet ∧ packet.data = p := by
  have hbuf : rq.frag0.data ++ (List.range' 1 (partCount p - 1)).flatMap
      (fun f => Fragment.payload (rq.frags (f - 1))) = p := by
    have hflat : (List.range' 1 (partCount p - 1)).flatMap
        (fun f => Fragment.payload (rq.frags (f - 1)))
        = (List.range' 1 (partCount p - 1)).flatMap fun f => Fragment.payload (part p f) := by
      refine List.flatMap_congr fun f hf => ?_
      obtain ⟨h₁, h₂⟩ := List.mem_range'_1.mp hf
      rw [hparts.frags f (Finset.mem_range.mpr (by omega)) h₁]
    rw [hparts.head (Finset.mem_range.mpr (Nat.succ_pos _)), hflat,
      flatMap_payload_part h.min]
  unfold RXQueueEntry.assemble
  rw [RXQueueEntry.appendPayloads_ok _ _ _ (by rw [hbuf]; exact h.max)]
  dsimp only
  split_ifs <;> exact ⟨_, rfl, hbuf⟩

end Entry

/-! ### The receiver -/

/-- The entry of the packet `p` is in slot `i`, and holds the parts in `S`. -/
structure Holding (p : Bytes) (i : Fin rxQueueSize) (S : Finset ℕ) (s : Switch Path) : Prop where
  live : s.Live (Packet.packetId p) i
  unique : ∀ j, s.Live (Packet.packetId p) j → j = i
  parts : Parts p S (s.rxQueue i)

section Receiver

variable {self : Address} {p : Bytes} {s : Switch Path} {i : Fin rxQueueSize} {S : Finset ℕ}

/-- Events that bring no part of the packet keep its entry. -/
theorem Holding.kept {t : Switch Path} (h : Holding p i S s)
    (hkept : KeptFor (Packet.packetId p) s t) : Holding p i S t := by
  have hentry : t.rxQueue i = s.rxQueue i := hkept.entry i h.live.1 h.parts.incomplete
  refine ⟨?_, fun j hj => h.unique j ?_, ?_⟩
  · rw [Switch.Live, hentry]
    exact h.live
  · have hid := (hkept.packetId j).symm.trans hj.1
    exact ⟨hid, hkept.live j hid hj.2⟩
  · rw [hentry]
    exact h.parts

/-- The first part to arrive makes the entry, in the next slot of the ring, if that
does not carry the packet's id already. -/
theorem first_step (h : InTransit self p) (hmany : partCount p ≠ 1)
    (hfew : partCount p ≤ maxPacketFragments) {no : ℕ} (hno : no < partCount p)
    {a : Arrival Path Peer} (hdata : a.data = part p no) (hnow : a.now ≠ 0)
    (hnone : ∀ i, ¬ s.Live (Packet.packetId p) i)
    (hfresh : (s.rxQueue (slot s.rxQueuePtr)).packetId ≠ Packet.packetId p) :
    Holding p (slot s.rxQueuePtr) {no} (s.onRemotePacket a self).1 ∧
      (s.onRemotePacket a self).2 = [] := by
  obtain ⟨hparts, htime, hid, hdec⟩ := receivePart_start h hfew hno hdata hfresh
  rw [onRemotePacket_part h hmany hfew hno hdata]
  simp only [Switch.updateRXQueueEntry, s.findRXQueueEntry_of_none hnone, hdec, Option.map_none,
    Option.toList_none, and_true]
  refine ⟨⟨?_, ?_⟩, fun j hj => ?_, ?_⟩
  · rw [Switch.setEntry_same, hid]
  · rw [Switch.setEntry_same, htime]
    exact hnow
  · by_contra hne
    rw [Switch.Live, Switch.setEntry_ne _ hne] at hj
    exact hnone j hj
  · rw [Switch.setEntry_same]
    exact hparts

/-- A part that does not complete the packet. -/
theorem middle_step (h : InTransit self p) (hmany : partCount p ≠ 1)
    (hfew : partCount p ≤ maxPacketFragments) {no : ℕ} (hno : no < partCount p)
    {a : Arrival Path Peer} (hdata : a.data = part p no) (hS : S.Nonempty)
    (hsub : S ⊆ Finset.range (partCount p)) (hheld : Holding p i S s)
    (hrest : insert no S ≠ Finset.range (partCount p)) :
    Holding p i (insert no S) (s.onRemotePacket a self).1 ∧ (s.onRemotePacket a self).2 = [] := by
  rw [onRemotePacket_part h hmany hfew hno hdata]
  simp only [Switch.updateRXQueueEntry, s.findRXQueueEntry_of_unique hheld.live hheld.unique]
  rw [receivePart_eq h hmany hfew hno hdata hheld.live.1 hheld.parts hS]
  have hset : ∀ rq : RXQueueEntry Path, rq.packetId = (s.rxQueue i).packetId →
      rq.timestamp = (s.rxQueue i).timestamp → Parts p (insert no S) rq →
      Holding p i (insert no S) (s.setEntry i rq) := by
    intro rq hid htime hparts
    refine ⟨?_, fun j hj => ?_, ?_⟩
    · rw [Switch.Live, Switch.setEntry_same, hid, htime]
      exact hheld.live
    · by_contra hne
      rw [Switch.Live, Switch.setEntry_ne _ hne] at hj
      exact hne (hheld.unique j hj)
    · rwa [Switch.setEntry_same]
  by_cases hmem : no ∈ S
  · -- a duplicate
    rw [if_pos hmem]
    exact ⟨hset _ rfl rfl (by rw [Finset.insert_eq_self.mpr hmem]; exact hheld.parts), rfl⟩
  · rw [if_neg hmem]
    have hparts := addPart_parts h hfew hno hdata hheld.parts hmem
    have hsub' : insert no S ⊆ Finset.range (partCount p) :=
      Finset.insert_subset (Finset.mem_range.mpr hno) hsub
    rw [if_neg (mt (count_iff hfew hparts hsub').mp hrest)]
    refine ⟨hset _ ?_ ?_ hparts, rfl⟩
    · unfold addPart
      split_ifs <;> rfl
    · unfold addPart
      split_ifs <;> rfl

/-- The part that completes the packet. -/
theorem last_step (h : InTransit self p) (hmany : partCount p ≠ 1)
    (hfew : partCount p ≤ maxPacketFragments) {no : ℕ} (hno : no < partCount p)
    {a : Arrival Path Peer} (hdata : a.data = part p no) (hS : S.Nonempty)
    (hheld : Holding p i S s) (hnew : no ∉ S)
    (hall : insert no S = Finset.range (partCount p)) :
    (s.onRemotePacket a self).2.filterMap decodedData = [p] := by
  rw [onRemotePacket_part h hmany hfew hno hdata]
  simp only [Switch.updateRXQueueEntry, s.findRXQueueEntry_of_unique hheld.live hheld.unique]
  rw [receivePart_eq h hmany hfew hno hdata hheld.live.1 hheld.parts hS, if_neg hnew]
  have hparts := addPart_parts h hfew hno hdata hheld.parts hnew
  rw [if_pos ((count_iff hfew hparts hall.subset).mpr hall)]
  rw [hall] at hparts
  obtain ⟨packet, hdec, hpacket⟩ := assemble_all h hparts a.tryDecode
  simp only [hdec, Option.map_some, Option.toList_some, List.filterMap_cons, List.filterMap_nil,
    decodedData, hpacket]

/-- Deliveries without a part of the packet decode nothing of it. -/
theorem runOutputs_of_noPart {ds : List (Delivery Path Peer)} (h : partNumbers ds = []) :
    (receiver Path Peer self).runOutputs s ds = [] := by
  induction ds generalizing s with
  | nil => rfl
  | cons d ds ih =>
      cases d with
      | own no a => simp [partNumbers] at h
      | other e =>
          rw [Machine.runOutputs_cons]
          exact ih h

/-- The datagram of a delivered part. -/
theorem data_of_part {datagrams : List Bytes} {no : ℕ} {d : Bytes}
    (hds : datagrams = (List.range (partCount p)).map (part p)) (hget : datagrams[no]? = some d) :
    no < partCount p ∧ d = part p no := by
  subst hds
  rw [List.getElem?_map, Option.map_eq_some_iff] at hget
  obtain ⟨k, hk, rfl⟩ := hget
  obtain ⟨hlt, rfl⟩ := List.getElem?_eq_some_iff.mp hk
  rw [List.length_range] at hlt
  exact ⟨hlt, by rw [List.getElem_range]⟩

/-- **Once the entry exists**, the parts still missing complete the packet when the
last of them arrives. -/
theorem run_holding (h : InTransit self p) (hmany : partCount p ≠ 1)
    (hfew : partCount p ≤ maxPacketFragments) {datagrams : List Bytes}
    (hds : datagrams = (List.range (partCount p)).map (part p))
    {ds : List (Delivery Path Peer)} (hS : S.Nonempty) (hsub : S ⊆ Finset.range (partCount p))
    (hheld : Holding p i S s)
    (hguard : (receiver Path Peer self).Guarded
      (Undisturbed self (Packet.packetId p) datagrams) s ds)
    (hcover : S ∪ (partNumbers ds).toFinset = Finset.range (partCount p))
    {before : List ℕ} {last : ℕ} (hsplit : partNumbers ds = before ++ [last])
    (hlast : last ∉ before) (hnew : last ∉ S) :
    (receiver Path Peer self).runOutputs s ds = [p] := by
  -- on the deliveries: the entry holds the parts of `S`, which grows up to the last
  induction ds generalizing s S before with
  | nil => simp [partNumbers] at hsplit
  | cons d ds ih =>
      obtain ⟨hd, hguard⟩ := hguard
      cases d with
      | other e =>
          rw [Machine.runOutputs_cons]
          exact ih hS hsub (hheld.kept (step_keptFor hd.1 hd.2)) hguard hcover hsplit hlast hnew
      | own no a =>
          obtain ⟨hno, hdata⟩ := data_of_part hds hd.1
          have hnos : partNumbers (Delivery.own no a :: ds) = no :: partNumbers ds := rfl
          rw [hnos] at hsplit hcover
          rw [List.toFinset_cons, Finset.union_insert, ← Finset.insert_union] at hcover
          rw [Machine.runOutputs_cons]
          rcases before with - | ⟨no', before⟩
          · -- the last part
            rw [List.nil_append, List.cons.injEq] at hsplit
            obtain ⟨rfl, hnil⟩ := hsplit
            rw [hnil, List.toFinset_nil, Finset.union_empty] at hcover
            have hout := last_step h hmany hfew hno hdata hS hheld hnew hcover
            rw [runOutputs_of_noPart hnil, List.append_nil]
            exact hout
          · rw [List.cons_append, List.cons.injEq] at hsplit
            obtain ⟨rfl, hsplit⟩ := hsplit
            rw [List.mem_cons, not_or] at hlast
            have hnew' : last ∉ insert no S := by
              rw [Finset.mem_insert, not_or]
              exact ⟨hlast.1, hnew⟩
            have hlt : last ∈ Finset.range (partCount p) := by
              rw [← hcover, hsplit]
              simp
            obtain ⟨hheld', hout⟩ := middle_step h hmany hfew hno hdata hS hsub hheld
              fun heq => hnew' (heq ▸ hlt)
            have hrest := ih (Finset.insert_nonempty _ _)
              (Finset.insert_subset (Finset.mem_range.mpr hno) hsub) hheld' hguard hcover hsplit
              hlast.2 hnew'
            show (s.onRemotePacket a self).2.filterMap decodedData ++ _ = [p]
            rw [hout]
            exact hrest

/-- **Fragmentation and reassembly agree** for a packet in several datagrams, none
more than the receiver accepts, when the next slot of the ring does not carry the
packet's id. -/
theorem reassembles_parts (h : InTransit self p) (hmany : partCount p ≠ 1)
    (hfew : partCount p ≤ maxPacketFragments) {datagrams : List Bytes}
    (hds : datagrams = (List.range (partCount p)).map (part p))
    (hnone : ∀ i, ¬ s.Live (Packet.packetId p) i)
    (hfresh : (s.rxQueue (slot s.rxQueuePtr)).packetId ≠ Packet.packetId p) :
    Reassembles Peer self s p datagrams := by
  intro ds hguard ⟨hcover, hlt, before, last, hsplit, hlast⟩
  have hlen : datagrams.length = partCount p := by
    rw [hds, List.length_map, List.length_range]
  rw [hlen] at hcover hlt
  -- on the deliveries before the first part, which leave the next slot as it is
  induction ds generalizing s with
  | nil => simp [partNumbers] at hsplit
  | cons d ds ih =>
      obtain ⟨hd, hguard⟩ := hguard
      rw [Machine.runOutputs_cons]
      cases d with
      | other e =>
          have hkept := step_keptFor hd.1 hd.2
          refine ih (fun i hi => hnone i ?_) ?_ hguard hcover hlt hsplit
          · have hid := (hkept.packetId i).symm.trans hi.1
            exact ⟨hid, hkept.live i hid hi.2⟩
          · show (((switchMachine Path Peer self).step s e).1.rxQueue
              (slot ((switchMachine Path Peer self).step s e).1.rxQueuePtr)).packetId ≠ _
            rw [hd.2, hkept.packetId]
            exact hfresh
      | own no a =>
          obtain ⟨hno, hdata⟩ := data_of_part hds hd.1
          have hnos : partNumbers (Delivery.own no a :: ds) = no :: partNumbers ds := rfl
          rw [hnos] at hsplit hcover hlt
          obtain ⟨hheld, hout⟩ := first_step h hmany hfew hno hdata hd.2 hnone hfresh
          rcases before with - | ⟨no', before⟩
          · -- a single part cannot be all of them
            rw [List.nil_append, List.cons.injEq] at hsplit
            obtain ⟨rfl, hnil⟩ := hsplit
            have h0 := hcover 0 (Nat.succ_pos _)
            have h1 := hcover 1 (by have := Nat.succ_pos (partCount p - 1); omega)
            rw [hnil, List.mem_singleton] at h0 h1
            omega
          · rw [List.cons_append, List.cons.injEq] at hsplit
            obtain ⟨rfl, hsplit⟩ := hsplit
            rw [List.mem_cons, not_or] at hlast
            show (s.onRemotePacket a self).2.filterMap decodedData ++ _ = [p]
            rw [hout]
            refine run_holding h hmany hfew hds (Finset.singleton_nonempty no)
              (Finset.singleton_subset_iff.mpr (Finset.mem_range.mpr hno)) hheld hguard ?_ hsplit
              hlast.2 (by rw [Finset.mem_singleton]; exact hlast.1)
            ext k
            simp only [Finset.mem_union, Finset.mem_singleton, List.mem_toFinset, Finset.mem_range]
            rw [← List.mem_cons]
            exact ⟨hlt k, hcover k⟩

/-- A packet in one datagram is decoded when it arrives. -/
theorem reassembles_whole (h : InTransit self p) (hone : partCount p = 1) {datagrams : List Bytes}
    (hds : datagrams = (List.range (partCount p)).map (part p)) :
    Reassembles Peer self s p datagrams := by
  intro ds hguard ⟨hcover, hlt, before, last, hsplit, hlast⟩
  have hlen : datagrams.length = 1 := by
    rw [hds, List.length_map, List.length_range, hone]
  rw [hlen] at hcover hlt
  have hpart : part p 0 = p := by
    rw [part, List.take_of_length_le (partCount_eq_one_iff.mp hone)]
  induction ds generalizing s with
  | nil => simp [partNumbers] at hsplit
  | cons d ds ih =>
      obtain ⟨hd, hguard⟩ := hguard
      rw [Machine.runOutputs_cons]
      cases d with
      | other e => exact ih hguard hcover hlt hsplit
      | own no a =>
          obtain ⟨hno, hdata⟩ := data_of_part hds hd.1
          have hnos : partNumbers (Delivery.own no a :: ds) = no :: partNumbers ds := rfl
          rw [hnos] at hsplit hlt
          have hzero : ∀ k ∈ no :: partNumbers ds, k = 0 := fun k hk => by
            have := hlt k hk
            omega
          -- the only part number is 0, and it does not come twice
          rcases before with - | ⟨no', before⟩
          · rw [List.nil_append, List.cons.injEq] at hsplit
            have h0 := hzero no List.mem_cons_self
            subst h0
            rw [runOutputs_of_noPart hsplit.2, List.append_nil]
            show (s.onRemotePacket a self).2.filterMap decodedData = [p]
            rw [Switch.onRemotePacket_eq, hdata, datagramKind_part_zero h, if_pos hone, hpart]
            dsimp only
            unfold Switch.receiveWhole
            rw [hdata, hpart, if_neg (not_lt.mpr h.max)]
            dsimp only
            split_ifs <;> rfl
          · rw [hsplit] at hzero
            have hl := hzero last (by simp)
            have hf := hzero no' (by simp)
            rw [hl, hf] at hlast
            exact absurd List.mem_cons_self hlast

end Receiver

/-! ### What is lost -/

/-- The switch with every slot's bits all set, so that no part joins what a slot
still holds. -/
def fullBits (s : Switch Path) : Switch Path :=
  { s with
    rxQueue := fun i =>
      { s.rxQueue i with haveFragments := BitVec.allOnes 32 } }

theorem fullBits_sameRing (s : Switch Path) : SameRing s (fullBits s) :=
  ⟨rfl, fun _ => rfl, fun _ => rfl⟩

section Lost

variable {self : Address} {p : Bytes} {s : Switch Path}

/-- No part joins the entry if it is not in use, and if it is, it has only
fragments. -/
def HeadlessEntry (p : Bytes) (rq : RXQueueEntry Path) : Prop :=
  (rq.timestamp = 0 ∧ rq.haveFragments = BitVec.allOnes 32) ∨
    (rq.timestamp ≠ 0 ∧ ∃ S : Finset ℕ, S.Nonempty ∧ 0 ∉ S ∧
      S ⊆ Finset.range (partCount p) ∧ Parts p S rq)

/-- All entries that carry the packet's id are such. -/
def Headless (p : Bytes) (s : Switch Path) : Prop :=
  ∀ i, (s.rxQueue i).packetId = Packet.packetId p → HeadlessEntry p (s.rxQueue i)

theorem Headless.setEntry {t : Switch Path} (hs : Headless p s) (ht : t.rxQueue = s.rxQueue)
    {rq : RXQueueEntry Path} (hrq : rq.packetId = Packet.packetId p → HeadlessEntry p rq)
    (i : Fin rxQueueSize) : Headless p (t.setEntry i rq) := by
  intro j
  by_cases hj : j = i
  · subst hj
    rw [Switch.setEntry_same]
    exact hrq
  · rw [Switch.setEntry_ne _ hj, ht]
    exact hs j

/-- All parts, in order. -/
def inOrder (path : Path) (p : Bytes) : List (Delivery Path Peer) :=
  (List.range (partCount p)).map fun no => .own no (loneArrival path (part p no))

theorem partNumbers_inOrder (path : Path) (p : Bytes) :
    partNumbers (inOrder path p : List (Delivery Path Peer)) = List.range (partCount p) := by
  simp [partNumbers, inOrder, List.filterMap_map]

theorem inOrder_allArrive (path : Path) (p : Bytes) :
    AllArrive (partCount p) (partNumbers (inOrder path p : List (Delivery Path Peer))) := by
  rw [partNumbers_inOrder]
  refine ⟨fun no hno => List.mem_range.mpr hno, fun no hno => List.mem_range.mp hno,
    List.range (partCount p - 1), partCount p - 1, ?_, List.not_mem_range_self⟩
  rw [← List.range_succ]
  rfl

theorem inOrder_guarded (path : Path) (p : Bytes) (s : Switch Path) :
    (receiver Path Peer self).Guarded
      (Undisturbed self (Packet.packetId p) ((List.range (partCount p)).map (part p))) s
      (inOrder path p) := by
  refine Machine.guarded_of_forall (fun d hd t => ?_) s
  obtain ⟨no, hno, rfl⟩ := List.mem_map.mp hd
  refine ⟨?_, (one_ne_zero : (1 : ℤ) ≠ 0)⟩
  rw [List.getElem?_map, List.getElem?_range (List.mem_range.mp hno)]
  rfl

/-- The head, when no entry is in use and dead entries let no part join. -/
theorem head_lost (h : InTransit self p) (hmany : partCount p ≠ 1)
    (hnone : ∀ i, ¬ s.Live (Packet.packetId p) i)
    (hfull : ∀ i, (s.rxQueue i).packetId = Packet.packetId p →
      (s.rxQueue i).haveFragments = BitVec.allOnes 32)
    {a : Arrival Path Peer} (hdata : a.data = part p 0) :
    (s.onRemotePacket a self).2 = [] ∧
      ((s.rxQueue (slot s.rxQueuePtr)).packetId = Packet.packetId p →
        (s.onRemotePacket a self).1.rxQueue = s.rxQueue) := by
  have hid : Packet.packetId a.data = Packet.packetId p := by
    rw [hdata, packetId_part h.min]
  have hfits : a.data.length ≤ protoMaxPacketLength := by
    have hmax := h.max
    rw [hdata, part, List.length_take]
    omega
  have hkind : datagramKind self a.data = .head := by
    rw [hdata, datagramKind_part_zero h, if_neg hmany]
  rw [Switch.onRemotePacket_eq, hkind]
  simp only [Switch.updateRXQueueEntry, hid, s.findRXQueueEntry_of_none hnone]
  rw [RXQueueEntry.receiveHead_eq _ hfits, hid]
  by_cases hp : (s.rxQueue (slot s.rxQueuePtr)).packetId ≠ Packet.packetId p
  · rw [if_pos hp]
    exact ⟨rfl, fun he => absurd he hp⟩
  · rw [if_neg hp, if_neg (by rw [hfull _ (not_not.mp hp)]; decide)]
    refine ⟨rfl, fun _ => ?_⟩
    exact Function.update_eq_self _ _

/-- A fragment without the head does not complete the packet. -/
theorem headless_step (h : InTransit self p) (hmany : partCount p ≠ 1)
    (hfew : partCount p ≤ maxPacketFragments) (hs : Headless p s) {no : ℕ} (hpos : 1 ≤ no)
    (hno : no < partCount p) {a : Arrival Path Peer} (hdata : a.data = part p no)
    (hnow : a.now ≠ 0) :
    Headless p (s.onRemotePacket a self).1 ∧ (s.onRemotePacket a self).2 = [] := by
  have hmax : maxPacketFragments = 7 := rfl
  rw [onRemotePacket_part h hmany hfew hno hdata]
  rcases s.findRXQueueEntry_cases (Packet.packetId p) with ⟨i, hlive, heq⟩ | ⟨hnone, heq⟩ <;>
    simp only [Switch.updateRXQueueEntry, heq]
  · -- the fragment joins others
    rcases hs i hlive.1 with hdead | ⟨-, S, hS, hzero, hsub, hparts⟩
    · exact absurd hdead.1 hlive.2
    rw [receivePart_eq h hmany hfew hno hdata hlive.1 hparts hS]
    by_cases hmem : no ∈ S
    · rw [if_pos hmem]
      exact ⟨hs.setEntry rfl (fun hid => hs i hid) i, rfl⟩
    · have hparts' := addPart_parts h hfew hno hdata hparts hmem
      have hsub' : insert no S ⊆ Finset.range (partCount p) :=
        Finset.insert_subset (Finset.mem_range.mpr hno) hsub
      have hzero' : 0 ∉ insert no S := by
        rw [Finset.mem_insert, not_or]
        exact ⟨by omega, hzero⟩
      have hrest : insert no S ≠ Finset.range (partCount p) := fun he =>
        hzero' (he ▸ Finset.mem_range.mpr (by omega))
      rw [if_neg hmem, if_neg (mt (count_iff hfew hparts' hsub').mp hrest)]
      refine ⟨hs.setEntry rfl (fun _ => Or.inr ⟨?_, _, Finset.insert_nonempty _ _, hzero', hsub',
        hparts'⟩) i, rfl⟩
      unfold addPart
      split_ifs <;> exact hlive.2
  · by_cases hid : (s.rxQueue (slot s.rxQueuePtr)).packetId = Packet.packetId p
    · -- an entry not in use takes it for a duplicate
      have hbits : (s.rxQueue (slot s.rxQueuePtr)).haveFragments = BitVec.allOnes 32 := by
        rcases hs _ hid with hdead | hlive
        · exact hdead.2
        · exact absurd ⟨hid, hlive.1⟩ (hnone _)
      obtain ⟨hid', -, hfields⟩ := part_fields h hno hdata
      obtain ⟨-, hnumber⟩ := hfields (by omega)
      have hlost : receivePart no a (s.rxQueue (slot s.rxQueuePtr))
          = (s.rxQueue (slot s.rxQueuePtr), none) := by
        rw [receivePart, if_neg (by omega), RXQueueEntry.receiveFragment_eq _ _ (by omega), hid',
          if_neg (not_not.mpr hid), hbits, BitVec.getLsbD_allOnes, hnumber,
          decide_eq_true (by omega), if_neg (by decide)]
      rw [hlost]
      exact ⟨hs.setEntry rfl (fun hid => hs _ hid) _, rfl⟩
    · -- it starts an entry
      obtain ⟨hparts, htime, -, hdec⟩ := receivePart_start h hfew hno hdata hid
      rw [hdec]
      refine ⟨hs.setEntry rfl (fun _ => Or.inr ⟨by rw [htime]; exact hnow, {no},
        Finset.singleton_nonempty no, ?_, ?_, hparts⟩) _, rfl⟩
      · rw [Finset.mem_singleton]
        omega
      · exact Finset.singleton_subset_iff.mpr (Finset.mem_range.mpr hno)

/-- The fragments alone do not complete the packet. -/
theorem runOutputs_fragments (h : InTransit self p) (hmany : partCount p ≠ 1) (path : Path)
    (hs : partCount p ≤ maxPacketFragments → Headless p s) {nos : List ℕ}
    (hnos : ∀ no ∈ nos, 1 ≤ no ∧ no < partCount p) :
    (receiver Path Peer self).runOutputs s
      (nos.map fun no => .own no (loneArrival path (part p no))) = [] := by
  induction nos generalizing s with
  | nil => rfl
  | cons no nos ih =>
      obtain ⟨hpos, hno⟩ := hnos no List.mem_cons_self
      rw [List.map_cons, Machine.runOutputs_cons]
      show (s.onRemotePacket (loneArrival path (part p no)) self).2.filterMap decodedData ++ _ = []
      by_cases hfew : partCount p ≤ maxPacketFragments
      · obtain ⟨hnext, hout⟩ := headless_step h hmany hfew (hs hfew) hpos hno
          (a := (loneArrival path (part p no) : Arrival Path Peer)) rfl (one_ne_zero : (1 : ℤ) ≠ 0)
        rw [hout]
        exact ih (fun _ => hnext) fun k hk => hnos k (List.mem_cons_of_mem _ hk)
      · -- the receiver ignores a fragment of so many
        have hkind := datagramKind_fragment h hpos hno
        rw [if_neg hfew] at hkind
        have hstep : s.onRemotePacket (loneArrival path (part p no) : Arrival Path Peer) self
            = (s, []) := by
          rw [Switch.onRemotePacket_eq]
          exact hkind ▸ rfl
        show _ ++ (receiver Path Peer self).runOutputs
          (s.onRemotePacket (loneArrival path (part p no)) self).1 _ = []
        rw [hstep]
        exact ih hs fun k hk => hnos k (List.mem_cons_of_mem _ hk)

/-- **Fragmentation and reassembly disagree** when the packet needs more datagrams
than the receiver accepts, or when the next slot of the ring carries its id: with
the bits of such slots all set, the parts arrive in order and nothing is decoded. -/
theorem not_reassembles (h : InTransit self p) (hmany : partCount p ≠ 1)
    (hnone : ∀ i, ¬ s.Live (Packet.packetId p) i)
    (hlost : partCount p ≤ maxPacketFragments →
      (s.rxQueue (slot s.rxQueuePtr)).packetId = Packet.packetId p)
    (hfull : ∀ i, (s.rxQueue i).packetId = Packet.packetId p →
      (s.rxQueue i).haveFragments = BitVec.allOnes 32) :
    ¬ Reassembles Peer self s p ((List.range (partCount p)).map (part p)) := by
  intro hre
  set path := (s.rxQueue (slot 0)).frag0.path
  have hlen : ((List.range (partCount p)).map (part p)).length = partCount p := by
    rw [List.length_map, List.length_range]
  have hout := hre (inOrder path p) (inOrder_guarded path p _)
    (by rw [hlen]; exact inOrder_allArrive path p)
  have hsucc : partCount p = partCount p - 1 + 1 := rfl
  rw [inOrder, hsucc, List.range_succ_eq_map, List.map_cons, Machine.runOutputs_cons] at hout
  -- the head
  obtain ⟨hhead, hqueue⟩ := head_lost h hmany hnone hfull
    (a := (loneArrival path (part p 0) : Arrival Path Peer)) rfl
  have hstep :
      ((receiver Path Peer self).step s (.own 0 (loneArrival path (part p 0)))).2 = [] := by
    show (s.onRemotePacket (loneArrival path (part p 0)) self).2.filterMap _ = []
    rw [hhead]
    rfl
  -- the fragments
  rw [hstep, List.nil_append] at hout
  refine absurd (hout.symm.trans (runOutputs_fragments h hmany path (fun hfew i hi => ?_)
    fun no hno => ?_)) (List.cons_ne_nil _ _)
  · have hq : ((receiver Path Peer self).step s
        (.own 0 (loneArrival path (part p 0)))).1.rxQueue = s.rxQueue := hqueue (hlost hfew)
    rw [hq] at hi ⊢
    refine Or.inl ⟨?_, hfull i hi⟩
    by_contra htime
    exact hnone i ⟨hi, htime⟩
  · obtain ⟨k, hk, rfl⟩ := List.mem_map.mp hno
    have := List.mem_range.mp hk
    omega

end Lost

/-! ### The two ends -/

/-- What `_sendViaSpecificPath` sends over the default path: the parts of the
finished packet, which is as long as it was and flagged as fragmented if it takes
more than one. -/
theorem sendViaSpecificPath_default {C : Crypto} {fast encrypt : Bool} {keys : PeerKeys C}
    {packet p : Bytes} {datagrams : List Bytes} {err : Option ZTException}
    (hsend : sendViaSpecificPath C fast keys OutboundPath.default true encrypt packet
      = .ok (p, datagrams, err))
    (hmin : protoMinPacketLength ≤ packet.length) (hmax : packet.length ≤ protoMaxPacketLength) :
    p.length = packet.length ∧
      Packet.fragmented p = decide (defaultPhysMtu < p.length) ∧
      datagrams = (List.range (partCount p)).map (part p) := by
  have hidx : idxFlags < packet.length := lt_of_lt_of_le (by decide) hmin
  have hmtu : decide (min packet.length defaultPhysMtu < packet.length)
      = decide (defaultPhysMtu < packet.length) := by
    rw [decide_eq_decide]
    omega
  set flagged := Packet.setFragmented packet (decide (defaultPhysMtu < packet.length)) with hflagged
  have hlen : flagged.length = packet.length := Packet.length_setFlags hidx _
  have hflag : Packet.fragmented flagged = decide (defaultPhysMtu < packet.length) :=
    Packet.fragmented_setFragmented hidx _
  obtain ⟨q, hq, hqp⟩ : ∃ q : Bytes, (q.length = packet.length ∧
      Packet.fragmented q = decide (defaultPhysMtu < packet.length)) ∧
      (q, emit defaultPhysMtu true q) = (p, datagrams, err) := by
    simp only [sendViaSpecificPath, OutboundPath.default, lt_irrefl, if_false, ne_eq,
      not_true_eq_false, hmtu, ← hflagged] at hsend
    by_cases henc : Packet.isEncrypted flagged = true
    · rw [if_pos henc] at hsend
      exact ⟨flagged, ⟨hlen, hflag⟩, Except.ok.inj hsend⟩
    · rw [if_neg henc] at hsend
      rcases harm : Packet.armor C fast keys.key keys.aesKeysIfSupported keys.ephemeral
        keys.identity encrypt false flagged with e | q
      · rw [harm] at hsend
        cases hsend
      · rw [harm] at hsend
        obtain ⟨hql, hqf⟩ := Packet.armor_fragmented (by rw [hlen]; exact hmin) harm
        exact ⟨q, ⟨hql.trans hlen, hqf.trans hflag⟩, Except.ok.inj hsend⟩
  obtain ⟨rfl, hemit⟩ := Prod.mk.inj hqp
  refine ⟨hq.1, by rw [hq.1]; exact hq.2, ?_⟩
  rw [emit_default (by rw [hq.1]; exact hmax)] at hemit
  exact (Prod.mk.inj hemit).1.symm

/-- A packet that is encrypted already is sent as it is, but for the flag. -/
theorem sendViaSpecificPath_encrypted {C : Crypto} {fast sent encrypt : Bool} {keys : PeerKeys C}
    {packet p : Bytes} (hp : Packet.setFragmented packet
      (decide (min packet.length defaultPhysMtu < packet.length)) = p)
    (henc : Packet.isEncrypted p = true) :
    sendViaSpecificPath C fast keys OutboundPath.default sent encrypt packet
      = .ok (p, (emit defaultPhysMtu sent p).1, (emit defaultPhysMtu sent p).2) := by
  simp only [sendViaSpecificPath, OutboundPath.default, lt_irrefl, if_false, ne_eq,
    not_true_eq_false, hp, if_pos henc]
  rfl

/-- **Exactly when the two ends agree**: a packet sent over the default path to a
receiver without an entry in use for it is decoded, whatever the slots of the ring
still hold and whatever the order of its datagrams, if and only if it fits in one
datagram, or it fits in as many as the receiver accepts and the next slot of the
ring does not carry its id. -/
theorem reassembles_iff {C : Crypto} {fast encrypt : Bool} {keys : PeerKeys C}
    {packet p : Bytes} {datagrams : List Bytes} {err : Option ZTException} {self : Address}
    {s : Switch Path}
    (hsend : sendViaSpecificPath C fast keys OutboundPath.default true encrypt packet
      = .ok (p, datagrams, err))
    (hmin : protoMinPacketLength ≤ packet.length) (hmax : packet.length ≤ protoMaxPacketLength)
    (hdestination : Packet.destination p = self) (hsource : Packet.source p ≠ self)
    (hunreserved : Address.isReserved (Packet.source p) = false)
    (hnone : ∀ i, ¬ s.Live (Packet.packetId p) i) :
    (∀ t, SameRing s t → Reassembles Peer self t p datagrams) ↔
      p.length ≤ defaultPhysMtu ∨ (p.length ≤ maxReassembled ∧
        (s.rxQueue (slot s.rxQueuePtr)).packetId ≠ Packet.packetId p) := by
  obtain ⟨hlen, hflag, hds⟩ := sendViaSpecificPath_default hsend hmin hmax
  have h : InTransit self p :=
    ⟨by rw [hlen]; exact hmin, by rw [hlen]; exact hmax, hdestination, hsource, hunreserved, hflag⟩
  rw [← partCount_eq_one_iff, ← partCount_le_iff]
  by_cases hone : partCount p = 1
  · exact ⟨fun _ => Or.inl hone, fun _ t _ => reassembles_whole h hone hds⟩
  constructor
  · intro hall
    by_contra hcon
    obtain ⟨-, hcon⟩ := not_or.mp hcon
    refine not_reassembles (s := fullBits s) h hone hnone (fun hfew => ?_) (fun _ _ => rfl)
      (hds ▸ hall _ (fullBits_sameRing s))
    by_contra hid
    exact hcon ⟨hfew, hid⟩
  · rintro (h1 | ⟨hfew, hfresh⟩) t ht
    · exact absurd h1 hone
    · refine reassembles_parts h hone hfew hds (fun i hi => hnone i ?_) ?_
      · rwa [Switch.Live, ht.packetId, ht.timestamp] at hi
      · rwa [ht.ptr, ht.packetId]

/-! ### Packets that are and are not reassembled -/

/-- The header of the packet 1 for the node 2, from the node 3, encrypted. -/
def sealedHeader : Bytes :=
  [0, 0, 0, 0, 0, 0, 0, 1, 0, 0, 0, 0, 2, 0, 0, 0, 0, 3, 0x08] ++ List.replicate 9 0

/-- The packet with `n` more bytes of payload. -/
def sealedPacket (n : ℕ) : Bytes := sealedHeader ++ List.replicate n 0

/-- The packet as it is sent. -/
def flaggedPacket (n : ℕ) : Bytes :=
  Packet.setFragmented (sealedPacket n)
    (decide (min (sealedPacket n).length defaultPhysMtu < (sealedPacket n).length))

theorem length_sealedPacket (n : ℕ) : (sealedPacket n).length = protoMinPacketLength + n := by
  rw [sealedPacket, List.length_append, List.length_replicate]
  rfl

/-- The fields of the packet as it is sent. -/
theorem flaggedPacket_fields (n : ℕ) :
    (flaggedPacket n).length = protoMinPacketLength + n ∧ Packet.packetId (flaggedPacket n) = 1 ∧
      Packet.destination (flaggedPacket n) = 2 ∧ Packet.source (flaggedPacket n) = 3 := by
  have hlen := length_sealedPacket n
  have hidx : idxFlags < (sealedPacket n).length := by
    rw [hlen]
    exact Nat.lt_add_right n (by decide)
  have hslice : ∀ i m, i + m ≤ idxFlags →
      slice (flaggedPacket n) i m = slice sealedHeader i m := by
    intro i m him
    rw [flaggedPacket, Packet.setFragmented, Packet.slice_setFlags hidx _ (Or.inl him),
      sealedPacket,
      slice_append_left (le_trans him (by decide))]
  refine ⟨(Packet.length_setFlags hidx _).trans hlen, ?_, ?_, ?_⟩
  · rw [Packet.packetId, hslice _ _ (by decide)]
    decide
  · rw [Packet.destination, hslice _ _ (by decide)]
    decide
  · rw [Packet.source, hslice _ _ (by decide)]
    decide

/-- An encrypted packet is sent as it is. -/
theorem send_sealedPacket {C : Crypto} (keys : PeerKeys C) (n : ℕ) :
    sendViaSpecificPath C true keys OutboundPath.default true true (sealedPacket n)
      = .ok (flaggedPacket n, (emit defaultPhysMtu true (flaggedPacket n)).1,
        (emit defaultPhysMtu true (flaggedPacket n)).2) := by
  have hidx : idxFlags < (sealedPacket n).length := by
    rw [length_sealedPacket]
    exact Nat.lt_add_right n (by decide)
  have hflags : Packet.flags (sealedPacket n) = 0x08 := byteAt_append_left (by decide)
  have henc : Packet.isEncrypted (flaggedPacket n) = true := by
    rw [Packet.isEncrypted, Packet.cipher, flaggedPacket, Packet.setFragmented,
      Packet.flags_setFlags hidx, hflags]
    split_ifs <;> decide
  exact sendViaSpecificPath_encrypted rfl henc

/-- Keys that nothing is armored with. -/
def noKeys : PeerKeys Packet.flippingCrypto := ⟨[], none, (), []⟩

/-- No slot of a switch just started is for the packet. -/
theorem startedSwitch_fresh (n : ℕ) (i : Fin rxQueueSize) :
    (startedSwitch.rxQueue i).packetId ≠ Packet.packetId (flaggedPacket n) := by
  rw [(flaggedPacket_fields n).2.1]
  show (0 : BitVec 64) ≠ 1
  decide

/-- A packet of two datagrams is put together again. -/
theorem reassembles_two :
    Reassembles Unit 2 startedSwitch (flaggedPacket 1405)
      (emit defaultPhysMtu true (flaggedPacket 1405)).1 := by
  obtain ⟨hlen, -, hdestination, hsource⟩ := flaggedPacket_fields 1405
  refine (reassembles_iff (send_sealedPacket noKeys 1405) ?_ ?_ hdestination ?_ ?_
    fun i hi => startedSwitch_fresh _ i hi.1).mpr (Or.inr ⟨?_, startedSwitch_fresh _ _⟩) _
    ⟨rfl, fun _ => rfl, fun _ => rfl⟩
  · rw [length_sealedPacket]
    decide
  · rw [length_sealedPacket]
    decide
  · rw [hsource]
    decide
  · rw [hsource]
    decide
  · rw [hlen]
    decide

/-- A packet of 9929 bytes is sent in eight datagrams, and no receiver puts it
together. -/
theorem not_reassembles_eight :
    sendViaSpecificPath Packet.flippingCrypto true noKeys OutboundPath.default true true
        (sealedPacket 9901) = .ok (flaggedPacket 9901,
          (emit defaultPhysMtu true (flaggedPacket 9901)).1,
          (emit defaultPhysMtu true (flaggedPacket 9901)).2) ∧
      (flaggedPacket 9901).length = 9929 ∧
      (∀ i, ¬ startedSwitch.Live (Packet.packetId (flaggedPacket 9901)) i) ∧
      ¬ Reassembles Unit 2 startedSwitch (flaggedPacket 9901)
        (emit defaultPhysMtu true (flaggedPacket 9901)).1 := by
  have hsend := send_sealedPacket noKeys 9901
  obtain ⟨hlen, -, hdestination, hsource⟩ := flaggedPacket_fields 9901
  have hfresh := startedSwitch_fresh 9901
  refine ⟨hsend, hlen, fun i hi => hfresh i hi.1, ?_⟩
  obtain ⟨-, hflag, hds⟩ := sendViaSpecificPath_default hsend
    (by rw [length_sealedPacket]; decide) (by rw [length_sealedPacket]; decide)
  have h : InTransit 2 (flaggedPacket 9901) :=
    ⟨by rw [hlen]; decide, by rw [hlen]; decide, hdestination, by rw [hsource]; decide,
      by rw [hsource]; decide, hflag⟩
  rw [hds]
  refine not_reassembles h ?_ (fun i hi => hfresh i hi.1) (fun hfew => ?_)
    fun i hi => absurd hi (hfresh i)
  · rw [Ne, partCount_eq_one_iff, hlen]
    decide
  · rw [partCount_le_iff, hlen] at hfew
    exact absurd hfew (by decide)

end ZGalaxy
