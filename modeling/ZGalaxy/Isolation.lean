/-
ZGalaxy/Isolation.lean

Reassembly isolation: what a packet assembled in the receive queue is made of.

A slot's contents outlive their use, so what keeps the parts of one packet out of
another is only that the bits of `haveFragments` were set since the slot was
initialised for the packet.  `receivedSince` keeps, for each slot, the datagrams
filed there since then, and `SlotInv` relates the bits to that log: in an entry in
use and not complete, a set bit means that the part was received since.

Nothing ties the count of the bits to the parts that are appended, however.  The
total is the one the last fragment named, so three bits can be the wrong three;
the bits of an entry not in use are stale; a complete entry has lost its head to the
decoding; and a head too long for the buffer leaves the old bits in place.  A step
is `Sound` when none of this happens in it.  Runs of sound steps are isolated
(`isolated_of_sound`); other runs need not be (`not_isolated_swapped`).
-/
import ZGalaxy.Switch

namespace ZGalaxy

open ByteList

variable {Path Peer : Type*}

/-! ### The log of a slot -/

/-- The slots' logs after one more event: a datagram that is filed in a slot joins
the slot's log, and starts it over when it initialises the slot for its packet. -/
def logStep (self : Address) (s : Switch Path) (log : Fin rxQueueSize → List Bytes) :
    SwitchEvent Path Peer → Fin rxQueueSize → List Bytes
  | .retryQueue _ _ => log
  | .remotePacket a =>
      match datagramKind self a.data with
      | .fragment | .head =>
          let id := Packet.packetId a.data
          let i := (s.findRXQueueEntry id).1
          Function.update log i
            (if (s.rxQueue i).packetId ≠ id then [a.data] else log i ++ [a.data])
      | .whole =>
          if (a.tryDecode ⟨a.data, a.now, a.path, false⟩).1 then log
          else Function.update log (slot s.rxQueuePtr) [a.data]
      | _ => log

/-- The datagrams filed in each slot since it was last initialised, in a run from
`s`. -/
def receivedSince (self : Address) (s : Switch Path) (log : Fin rxQueueSize → List Bytes) :
    List (SwitchEvent Path Peer) → Fin rxQueueSize → List Bytes
  | [] => log
  | e :: es =>
      receivedSince self ((switchMachine Path Peer self).step s e).1 (logStep self s log e) es

theorem receivedSince_append (self : Address) (s : Switch Path)
    (log : Fin rxQueueSize → List Bytes) (es : List (SwitchEvent Path Peer))
    (e : SwitchEvent Path Peer) :
    receivedSince self s log (es ++ [e]) =
      logStep self ((switchMachine Path Peer self).runState s es)
        (receivedSince self s log es) e := by
  induction es generalizing s log with
  | nil => rfl
  | cons e' es ih => exact ih _ _

/-! ### Isolation -/

/-- The head of a fragmented packet `id`. -/
def IsHead (id : BitVec 64) (d : Bytes) : Prop :=
  byteAt d idxFragmentIndicator ≠ addressReservedPrefix ∧ Packet.fragmented d = true ∧
    Packet.packetId d = id

/-- Fragment number `no` of the packet `id`. -/
def IsFragment (id : BitVec 64) (no : ℕ) (d : Bytes) : Prop :=
  byteAt d idxFragmentIndicator = addressReservedPrefix ∧ Packet.packetId d = id ∧
    Fragment.fragmentNumber d = no

/-- The buffer `b` is one head and the payloads of fragments 1 to `n - 1` of one
packet, all of them in the log. -/
def AssembledFrom (log : List Bytes) (b : Bytes) : Prop :=
  ∃ id head n, ∃ frags : ℕ → Bytes, head ∈ log ∧ IsHead id head ∧
    (∀ no, 1 ≤ no → no < n → frags no ∈ log ∧ IsFragment id no (frags no)) ∧
    b = head ++ (List.range' 1 (n - 1)).flatMap fun no => Fragment.payload (frags no)

/-- The slot that a datagram is filed in, and decoded from. -/
def filingSlot (s : Switch Path) : SwitchEvent Path Peer → Option (Fin rxQueueSize)
  | .retryQueue _ _ => none
  | .remotePacket a => some (s.findRXQueueEntry (Packet.packetId a.data)).1

/-- Every buffer that the multi-fragment branches decode in the run is assembled
from what the slot that is decoded received since it was last initialised. -/
def Isolated (self : Address) (s : Switch Path) (es : List (SwitchEvent Path Peer)) : Prop :=
  ∀ es₁ e es₂, es = es₁ ++ e :: es₂ →
    ∀ packet, Effect.decodeAssembled packet ∈
        ((switchMachine Path Peer self).step ((switchMachine Path Peer self).runState s es₁) e).2 →
      ∃ i, filingSlot ((switchMachine Path Peer self).runState s es₁) e = some i ∧
        AssembledFrom (receivedSince self s (fun _ => []) (es₁ ++ [e]) i) packet.data

/-! ### Sound steps -/

/-- An entry in use whose parts are the ones that will be appended. -/
structure Ready (rq : RXQueueEntry Path) (total : ℕ) : Prop where
  inUse : rq.timestamp ≠ 0
  notComplete : rq.complete = false
  all : ∀ no < total, rq.haveFragments.getLsbD no = true
  room : (rq.frag0.data ++ (List.range' 1 (total - 1)).flatMap
    fun f => Fragment.payload (rq.frags (f - 1))).length ≤ protoMaxPacketLength

/-- The step is one the reassembly is meant for: a head fits in the buffer, and a
datagram that makes the count of the parts reach the total completes the packet
that the entry is in use for. -/
def Sound (self : Address) (s : Switch Path) : SwitchEvent Path Peer → Prop
  | .retryQueue _ _ => True
  | .remotePacket a =>
      let rq := s.rxQueue (s.findRXQueueEntry (Packet.packetId a.data)).1
      match datagramKind self a.data with
      | .fragment =>
          rq.packetId = Packet.packetId a.data →
            rq.haveFragments.getLsbD (Fragment.fragmentNumber a.data) = false →
            countBits (rq.addFragment a).haveFragments
              = BitVec.ofNat 32 (Fragment.totalFragments a.data) →
            Ready (rq.addFragment a) (Fragment.totalFragments a.data)
      | .head =>
          a.data.length ≤ protoMaxPacketLength ∧
            (rq.packetId = Packet.packetId a.data → rq.haveFragments.getLsbD 0 = false →
              1 < rq.totalFragments →
              countBits (rq.addHead a).haveFragments = BitVec.ofNat 32 rq.totalFragments →
              Ready (rq.addHead a) rq.totalFragments)
      | _ => True

/-! ### The invariant -/

/-- In an entry in use and not complete, every part whose bit is set was received
since the entry was initialised. -/
def SlotInv (rq : RXQueueEntry Path) (log : List Bytes) : Prop :=
  rq.timestamp ≠ 0 → rq.complete = false →
    (rq.haveFragments.getLsbD 0 = true → rq.frag0.data ∈ log ∧ IsHead rq.packetId rq.frag0.data) ∧
    ∀ no, 1 ≤ no → rq.haveFragments.getLsbD no = true →
      rq.frags (no - 1) ∈ log ∧ IsFragment rq.packetId no (rq.frags (no - 1))

namespace SlotInv

variable {rq : RXQueueEntry Path} {log : List Bytes}

/-- A longer log is as good. -/
theorem append (h : SlotInv rq log) (d : Bytes) : SlotInv rq (log ++ [d]) := by
  intro ht hc
  obtain ⟨h₀, hf⟩ := h ht hc
  refine ⟨fun hb => ?_, fun no h₁ hb => ?_⟩
  · exact ⟨List.mem_append_left _ (h₀ hb).1, (h₀ hb).2⟩
  · exact ⟨List.mem_append_left _ (hf no h₁ hb).1, (hf no h₁ hb).2⟩

/-- An entry not in use says nothing. -/
theorem of_timestamp_eq_zero (h : rq.timestamp = 0) : SlotInv rq log :=
  fun ht => absurd h ht

/-- Neither does a complete one. -/
theorem of_complete (h : rq.complete = true) : SlotInv rq log :=
  fun _ hc => by rw [h] at hc; exact absurd hc (by decide)

end SlotInv

/-! ### Parts of the datagram filed -/

theorem isFragment_of_kind {self : Address} {data : Bytes}
    (h : datagramKind self data = .fragment) :
    IsFragment (Packet.packetId data) (Fragment.fragmentNumber data) data ∧ saneFragment data := by
  unfold datagramKind at h
  split_ifs at h with h₁ h₂ h₃ h₄ h₅
  exact ⟨⟨h₂, rfl, rfl⟩, h₅⟩

theorem isHead_of_kind {self : Address} {data : Bytes} (h : datagramKind self data = .head) :
    IsHead (Packet.packetId data) data := by
  unfold datagramKind at h
  split_ifs at h with h₁ h₂ h₃ h₄ h₅ h₆ h₇ h₈ h₉
  exact ⟨h₂, h₉, rfl⟩

/-- The log of the slot that a datagram for the packet `id` was filed in. -/
def filedLog (rq : RXQueueEntry Path) (id : BitVec 64) (log : List Bytes) (d : Bytes) :
    List Bytes :=
  if rq.packetId ≠ id then [d] else log ++ [d]

/-! ### What filing a datagram keeps -/

/-- Assembling a ready entry decodes its head and fragments, and the entry is no
longer both in use and incomplete. -/
theorem assemble_spec {rq : RXQueueEntry Path} {total : ℕ}
    (tryDecode : IncomingPacket Path → Bool × IncomingPacket Path)
    (hroom : (rq.frag0.data ++ (List.range' 1 (total - 1)).flatMap
      fun f => Fragment.payload (rq.frags (f - 1))).length ≤ protoMaxPacketLength) :
    (∀ log, SlotInv (rq.assemble total tryDecode).1 log) ∧
      (rq.assemble total tryDecode).2 = some { rq.frag0 with
        data := rq.frag0.data ++ (List.range' 1 (total - 1)).flatMap
          fun f => Fragment.payload (rq.frags (f - 1)) } := by
  unfold RXQueueEntry.assemble
  rw [RXQueueEntry.appendPayloads_ok _ _ _ hroom]
  dsimp only
  split_ifs with hdone
  · exact ⟨fun _ => SlotInv.of_timestamp_eq_zero rfl, rfl⟩
  · exact ⟨fun _ => SlotInv.of_complete rfl, rfl⟩

/-- What is appended of an entry whose parts were all received is assembled from
the log. -/
theorem assembledFrom_of_parts {log : List Bytes} {id : BitVec 64} {head : Bytes} {total : ℕ}
    {frags : ℕ → Bytes} (hh : head ∈ log ∧ IsHead id head)
    (hf : ∀ no, 1 ≤ no → no < total →
      frags (no - 1) ∈ log ∧ IsFragment id no (frags (no - 1))) :
    AssembledFrom log (head ++ (List.range' 1 (total - 1)).flatMap
      fun f => Fragment.payload (frags (f - 1))) :=
  ⟨id, head, total, fun no => frags (no - 1), hh.1, hh.2, hf, rfl⟩

section Filing

variable {self : Address} {a : Arrival Path Peer} {rq : RXQueueEntry Path} {log : List Bytes}

theorem mem_append_self (log : List Bytes) (d : Bytes) : d ∈ log ++ [d] :=
  List.mem_append_right _ (List.mem_singleton.mpr rfl)

theorem startFragment_inv (hkind : datagramKind self a.data = .fragment) :
    SlotInv (rq.startFragment a) [a.data] := by
  obtain ⟨hfrag, -, -, hpos, -⟩ := isFragment_of_kind hkind
  refine fun _ _ => ⟨fun hb => ?_, fun f h₁ hb => ?_⟩
  · have hno : (RXQueueEntry.bit (Fragment.fragmentNumber a.data)).getLsbD 0 = true := hb
    rw [RXQueueEntry.getLsbD_bit _ (by decide), decide_eq_true_eq] at hno
    omega
  · have hno : (RXQueueEntry.bit (Fragment.fragmentNumber a.data)).getLsbD f = true := hb
    rw [RXQueueEntry.getLsbD_bit _ (BitVec.lt_of_getLsbD hb), decide_eq_true_eq] at hno
    subst hno
    simp only [RXQueueEntry.startFragment, Function.update_self]
    exact ⟨List.mem_singleton.mpr rfl, hfrag⟩

theorem addFragment_inv (hkind : datagramKind self a.data = .fragment)
    (hid : rq.packetId = Packet.packetId a.data) (hinv : SlotInv rq log) :
    SlotInv (rq.addFragment a) (log ++ [a.data]) := by
  obtain ⟨hfrag, -, -, hpos, -⟩ := isFragment_of_kind hkind
  intro ht hc
  obtain ⟨h₀, hf⟩ := hinv.append a.data ht hc
  refine ⟨fun hb => h₀ ?_, fun f h₁ hb => ?_⟩
  · have hno : (rq.haveFragments ||| RXQueueEntry.bit (Fragment.fragmentNumber a.data)).getLsbD 0
        = true := hb
    rw [RXQueueEntry.getLsbD_or_bit _ _ (by decide), Bool.or_eq_true, decide_eq_true_eq] at hno
    exact hno.resolve_right (by omega)
  · have hno : (rq.haveFragments ||| RXQueueEntry.bit (Fragment.fragmentNumber a.data)).getLsbD f
        = true := hb
    rw [RXQueueEntry.getLsbD_or_bit _ _ (BitVec.lt_of_getLsbD hb), Bool.or_eq_true,
      decide_eq_true_eq] at hno
    by_cases hfn : f = Fragment.fragmentNumber a.data
    · -- the new part
      subst hfn
      simp only [RXQueueEntry.addFragment, Function.update_self]
      refine ⟨mem_append_self _ _, ?_⟩
      rwa [hid]
    · have hne : f - 1 ≠ Fragment.fragmentNumber a.data - 1 := by omega
      simp only [RXQueueEntry.addFragment, Function.update_of_ne hne]
      exact hf f h₁ (hno.resolve_right (Ne.symm hfn))

theorem startHead_inv (hkind : datagramKind self a.data = .head) :
    SlotInv (rq.startHead a) [a.data] := by
  refine fun _ _ => ⟨fun _ => ⟨List.mem_singleton.mpr rfl, isHead_of_kind hkind⟩,
    fun f h₁ hb => ?_⟩
  have hno : (RXQueueEntry.bit 0).getLsbD f = true := hb
  rw [RXQueueEntry.getLsbD_bit _ (BitVec.lt_of_getLsbD hb), decide_eq_true_eq] at hno
  omega

theorem keepHead_inv (hkind : datagramKind self a.data = .head)
    (hid : rq.packetId = Packet.packetId a.data) (hinv : SlotInv rq log) :
    SlotInv (rq.keepHead a) (log ++ [a.data]) := by
  intro ht hc
  obtain ⟨-, hf⟩ := hinv.append a.data ht hc
  refine ⟨fun _ => ⟨mem_append_self _ _, ?_⟩, hf⟩
  have hhead := isHead_of_kind hkind
  rwa [← hid] at hhead

theorem addHead_inv (hkind : datagramKind self a.data = .head)
    (hid : rq.packetId = Packet.packetId a.data) (hinv : SlotInv rq log) :
    SlotInv (rq.addHead a) (log ++ [a.data]) := by
  intro ht hc
  obtain ⟨-, hf⟩ := hinv.append a.data ht hc
  have hhead := isHead_of_kind hkind
  rw [← hid] at hhead
  refine ⟨fun _ => ⟨mem_append_self _ _, hhead⟩, fun f h₁ hb => hf f h₁ ?_⟩
  have hno : (rq.haveFragments ||| RXQueueEntry.bit 0).getLsbD f = true := hb
  rw [RXQueueEntry.getLsbD_or_bit _ _ (BitVec.lt_of_getLsbD hb), Bool.or_eq_true,
    decide_eq_true_eq] at hno
  exact hno.resolve_right (by omega)

/-- Assembling an entry that satisfies the invariant and is ready decodes a packet
from the log. -/
theorem assemble_inv {total : ℕ} (hmany : 1 < total)
    {tryDecode : IncomingPacket Path → Bool × IncomingPacket Path} (hinv : SlotInv rq log)
    (hready : Ready rq total) :
    SlotInv (rq.assemble total tryDecode).1 log ∧
      ∀ packet, (rq.assemble total tryDecode).2 = some packet → AssembledFrom log packet.data := by
  obtain ⟨hkeep, hdec⟩ := assemble_spec tryDecode hready.room
  obtain ⟨h₀, hf⟩ := hinv hready.inUse hready.notComplete
  refine ⟨hkeep _, fun packet hpk => ?_⟩
  rw [hdec, Option.some.injEq] at hpk
  subst hpk
  exact assembledFrom_of_parts (h₀ (hready.all 0 (by omega)))
    fun f h₁ hft => hf f h₁ (hready.all f hft)

/-- A fragment filed keeps the invariant, and completes a packet only from the log. -/
theorem receiveFragment_inv (hkind : datagramKind self a.data = .fragment)
    (hinv : SlotInv rq log)
    (hsound : rq.packetId = Packet.packetId a.data →
      rq.haveFragments.getLsbD (Fragment.fragmentNumber a.data) = false →
      countBits (rq.addFragment a).haveFragments
        = BitVec.ofNat 32 (Fragment.totalFragments a.data) →
      Ready (rq.addFragment a) (Fragment.totalFragments a.data)) :
    SlotInv (rq.receiveFragment a).1 (filedLog rq (Packet.packetId a.data) log a.data) ∧
      ∀ packet, (rq.receiveFragment a).2 = some packet →
        AssembledFrom (filedLog rq (Packet.packetId a.data) log a.data) packet.data := by
  obtain ⟨-, -, hno, -, hmany⟩ := isFragment_of_kind hkind
  have hno32 : Fragment.fragmentNumber a.data < 32 := by
    simp only [maxPacketFragments] at hno
    omega
  rw [RXQueueEntry.receiveFragment_eq _ _ hno32, filedLog]
  by_cases hp : rq.packetId ≠ Packet.packetId a.data
  · rw [if_pos hp, if_pos hp]
    exact ⟨startFragment_inv hkind, fun packet hpk => by cases hpk⟩
  · rw [if_neg hp, if_neg hp]
    have hp' := not_not.mp hp
    by_cases hb : rq.haveFragments.getLsbD (Fragment.fragmentNumber a.data) = false
    · -- a part the entry did not have
      rw [if_pos hb]
      have hinv' := addFragment_inv hkind hp' hinv
      by_cases hcount : countBits (rq.addFragment a).haveFragments
          = BitVec.ofNat 32 (Fragment.totalFragments a.data)
      · rw [if_pos hcount]
        exact assemble_inv hmany hinv' (hsound hp' hb hcount)
      · rw [if_neg hcount]
        exact ⟨hinv', fun packet hpk => by cases hpk⟩
    · rw [if_neg hb]
      exact ⟨hinv.append _, fun packet hpk => by cases hpk⟩

/-- Likewise a head. -/
theorem receiveHead_inv (hkind : datagramKind self a.data = .head)
    (hinv : SlotInv rq log) (hfits : a.data.length ≤ protoMaxPacketLength)
    (hsound : rq.packetId = Packet.packetId a.data → rq.haveFragments.getLsbD 0 = false →
      1 < rq.totalFragments →
      countBits (rq.addHead a).haveFragments = BitVec.ofNat 32 rq.totalFragments →
      Ready (rq.addHead a) rq.totalFragments) :
    SlotInv (rq.receiveHead a).1 (filedLog rq (Packet.packetId a.data) log a.data) ∧
      ∀ packet, (rq.receiveHead a).2 = some packet →
        AssembledFrom (filedLog rq (Packet.packetId a.data) log a.data) packet.data := by
  rw [RXQueueEntry.receiveHead_eq _ hfits, filedLog]
  by_cases hp : rq.packetId ≠ Packet.packetId a.data
  · rw [if_pos hp, if_pos hp]
    exact ⟨startHead_inv hkind, fun packet hpk => by cases hpk⟩
  · rw [if_neg hp, if_neg hp]
    have hp' := not_not.mp hp
    by_cases hb : rq.haveFragments.getLsbD 0 = false
    · rw [if_pos hb]
      by_cases hmany : 1 < rq.totalFragments
      · -- the fragments came first
        rw [if_pos hmany]
        have hinv' := addHead_inv hkind hp' hinv
        by_cases hcount : countBits (rq.addHead a).haveFragments
            = BitVec.ofNat 32 rq.totalFragments
        · rw [if_pos hcount]
          exact assemble_inv hmany hinv' (hsound hp' hb hmany hcount)
        · rw [if_neg hcount]
          exact ⟨hinv', fun packet hpk => by cases hpk⟩
      · rw [if_neg hmany]
        exact ⟨keepHead_inv hkind hp' hinv, fun packet hpk => by cases hpk⟩
    · rw [if_neg hb]
      exact ⟨hinv.append _, fun packet hpk => by cases hpk⟩

end Filing

/-- Trying an entry again keeps the invariant: only complete entries are tried. -/
theorem retry_inv {rq : RXQueueEntry Path} {log : List Bytes} (hinv : SlotInv rq log) (now : ℤ)
    (tryDecode : IncomingPacket Path → Bool × IncomingPacket Path) :
    SlotInv (rq.retry now tryDecode).1 log := by
  unfold RXQueueEntry.retry
  dsimp only
  split_ifs with h hdone
  · exact SlotInv.of_timestamp_eq_zero rfl
  · exact SlotInv.of_complete h.2
  · exact hinv

/-! ### Runs -/

/-- The invariant of the whole queue. -/
def QueueInv (s : Switch Path) (log : Fin rxQueueSize → List Bytes) : Prop :=
  ∀ i, SlotInv (s.rxQueue i) (log i)

/-- Filing a datagram in the slot found for it keeps the invariant of the queue,
when it keeps that of the slot. -/
theorem updateRXQueueEntry_inv {s : Switch Path} {log : Fin rxQueueSize → List Bytes}
    (hinv : QueueInv s log) (id : BitVec 64) (d : Bytes)
    {f : RXQueueEntry Path → RXQueueEntry Path × Option (IncomingPacket Path)}
    (hf : let rq := s.rxQueue (s.findRXQueueEntry id).1
      let log := filedLog rq id (log (s.findRXQueueEntry id).1) d
      SlotInv (f rq).1 log ∧ ∀ packet, (f rq).2 = some packet → AssembledFrom log packet.data) :
    let log' := Function.update log (s.findRXQueueEntry id).1
      (filedLog (s.rxQueue (s.findRXQueueEntry id).1) id (log (s.findRXQueueEntry id).1) d)
    QueueInv (s.updateRXQueueEntry id f : Switch Path × List (Effect Path Peer)).1 log' ∧
      ∀ packet, Effect.decodeAssembled packet ∈
          (s.updateRXQueueEntry id f : Switch Path × List (Effect Path Peer)).2 →
        AssembledFrom (log' (s.findRXQueueEntry id).1) packet.data := by
  obtain ⟨hslot, hdec⟩ := hf
  refine ⟨fun j => ?_, fun packet hpk => ?_⟩
  · by_cases hj : j = (s.findRXQueueEntry id).1
    · subst hj
      simpa [Switch.updateRXQueueEntry] using hslot
    · simp only [Switch.updateRXQueueEntry, Switch.setEntry_ne _ hj, Function.update_of_ne hj,
        Switch.findRXQueueEntry_rxQueue]
      exact hinv j
  · rw [Function.update_self]
    simp only [Switch.updateRXQueueEntry, Switch.findRXQueueEntry_rxQueue, Option.mem_toList,
      Option.map_eq_some_iff, Effect.decodeAssembled.injEq] at hpk
    obtain ⟨p, hp, rfl⟩ := hpk
    exact hdec _ hp

/-- An unfragmented packet that has to wait takes a slot as a complete entry. -/
theorem receiveWhole_inv {s : Switch Path} {log : Fin rxQueueSize → List Bytes}
    (hinv : QueueInv s log) {a : Arrival Path Peer}
    (hfits : a.data.length ≤ protoMaxPacketLength) :
    let log' := if (a.tryDecode ⟨a.data, a.now, a.path, false⟩).1 then log
      else Function.update log (slot s.rxQueuePtr) [a.data]
    QueueInv (s.receiveWhole a).1 log' ∧
      ∀ packet, Effect.decodeAssembled packet ∉ (s.receiveWhole a).2 := by
  unfold Switch.receiveWhole
  rw [if_neg (not_lt.mpr hfits)]
  dsimp only
  split_ifs with hdone
  · exact ⟨hinv, fun packet hpk => by simp at hpk⟩
  · refine ⟨fun j => ?_, fun packet hpk => by simp at hpk⟩
    by_cases hj : j = slot s.rxQueuePtr
    · subst hj
      rw [Switch.setEntry_same]
      exact SlotInv.of_complete rfl
    · rw [Switch.setEntry_ne _ hj, Function.update_of_ne hj]
      exact hinv j

/-- **One sound step** keeps the invariant of the queue, and what it decodes is
assembled from the log of the slot that it is decoded from. -/
theorem step_inv {self : Address} {s : Switch Path} {log : Fin rxQueueSize → List Bytes}
    (hinv : QueueInv s log) (e : SwitchEvent Path Peer) (hsound : Sound self s e) :
    QueueInv ((switchMachine Path Peer self).step s e).1 (logStep self s log e) ∧
      ∀ packet, Effect.decodeAssembled packet ∈ ((switchMachine Path Peer self).step s e).2 →
        ∃ i, filingSlot s e = some i ∧ AssembledFrom (logStep self s log e i) packet.data := by
  cases e with
  | retryQueue now tryDecode =>
      refine ⟨fun i => retry_inv (hinv i) now tryDecode, fun packet hpk => ?_⟩
      simp [switchMachine, Switch.retryQueue] at hpk
  | remotePacket a =>
      have hstep : (switchMachine Path Peer self).step s (.remotePacket a)
          = s.onRemotePacket a self := rfl
      rw [hstep, Switch.onRemotePacket_eq]
      simp only [Sound] at hsound
      simp only [logStep]
      rcases hk : datagramKind self a.data with - | - | - | - | - | - <;> rw [hk] at hsound <;>
        dsimp only
      · -- ignored
        exact ⟨hinv, fun packet hpk => by cases hpk⟩
      · -- relayFragment
        exact ⟨hinv, fun packet hpk => absurd hpk (Switch.decode_notMem_relayFragment a packet).1⟩
      · -- fragment
        obtain ⟨hqueue, hdec⟩ := updateRXQueueEntry_inv (f := (·.receiveFragment a)) hinv
          (Packet.packetId a.data) a.data (receiveFragment_inv hk (hinv _) hsound)
        exact ⟨hqueue, fun packet hpk => ⟨_, rfl, hdec packet hpk⟩⟩
      · -- relayHead
        refine ⟨fun i => ?_, fun packet hpk =>
          absurd hpk (Switch.decode_notMem_relayHead s a packet).1⟩
        rw [Switch.relayHead_rxQueue]
        exact hinv i
      · -- head
        obtain ⟨hqueue, hdec⟩ := updateRXQueueEntry_inv (f := (·.receiveHead a)) hinv
          (Packet.packetId a.data) a.data (receiveHead_inv hk (hinv _) hsound.1 hsound.2)
        exact ⟨hqueue, fun packet hpk => ⟨_, rfl, hdec packet hpk⟩⟩
      · -- whole
        obtain ⟨hqueue, hnone⟩ := receiveWhole_inv hinv (Switch.fits_of_whole hk)
        exact ⟨hqueue, fun packet hpk => absurd hpk (hnone packet)⟩

/-- **Reassembly isolation**: in a run of sound steps from a switch whose slots are
not in use, every packet assembled is one head and the payloads of fragments of
that packet, all received since their slot was initialised for it. -/
theorem isolated_of_sound {self : Address} {s : Switch Path}
    (hfresh : ∀ i, (s.rxQueue i).timestamp = 0) {es : List (SwitchEvent Path Peer)}
    (hsound : (switchMachine Path Peer self).Guarded (Sound self) s es) : Isolated self s es := by
  intro es₁ e es₂ hes packet hpk
  subst hes
  have hinv : QueueInv s (fun _ => []) := fun i => SlotInv.of_timestamp_eq_zero (hfresh i)
  obtain ⟨hpre, he, -⟩ := Machine.guarded_append_cons.mp hsound
  have hrun := Machine.invariant_run
    (I := fun h s' => s' = (switchMachine Path Peer self).runState s h ∧
      QueueInv s' (receivedSince self s (fun _ => []) h))
    (fun h s' e ⟨hs', hq⟩ hs => ⟨by rw [Machine.runState_concat, hs'], by
      rw [receivedSince_append, ← hs']
      exact (step_inv hq e hs).1⟩)
    (h := []) ⟨rfl, hinv⟩ hpre
  rw [List.nil_append] at hrun
  obtain ⟨i, hslot, hfrom⟩ := (step_inv hrun.2 e he).2 packet hpk
  refine ⟨i, hslot, ?_⟩
  rwa [receivedSince_append]

/-! ### Runs of the receive queue that are and are not isolated -/

/-- A datagram reaches a node without peers. -/
def arrives (data : Bytes) : SwitchEvent Unit Unit := .remotePacket (loneArrival () data)

/-- A fragment of the packet 1 for the node 2 with the given number and total. -/
def smallFragment (no total : UInt8) : Bytes :=
  [0, 0, 0, 0, 0, 0, 0, 1, 0, 0, 0, 0, 2, 0xff, (total <<< (4 : UInt8)) ||| no, 0, 7]

/-- The head of the packet 1 for the node 2, from the node 3. -/
def smallHead : Bytes :=
  [0, 0, 0, 0, 0, 0, 0, 1, 0, 0, 0, 0, 2, 0, 0, 0, 0, 3, 0x40] ++ List.replicate 9 0

/-- A head and its only fragment. -/
theorem isolated_head_fragment :
    Isolated 2 startedSwitch [arrives smallHead, arrives (smallFragment 1 2)] :=
  isolated_of_sound (fun _ => rfl) ⟨⟨by decide, fun h => absurd h (by decide)⟩,
    fun _ _ _ => ⟨by decide, by decide, by decide, by decide⟩, trivial⟩

/-- Fragments 2 and 3 of a packet of two fragments: the count of the bits reaches
the total, and what is decoded is the packet that the slot was constructed with. -/
theorem not_isolated_swapped :
    ¬ Isolated 2 startedSwitch [arrives (smallFragment 2 2), arrives (smallFragment 3 2)] := by
  intro h
  obtain ⟨i, -, id, head, n, frags, hmem, hhead, -, -⟩ :=
    h [arrives (smallFragment 2 2)] (arrives (smallFragment 3 2)) [] rfl blankPacket
      (List.mem_singleton.mpr rfl)
  -- all that any slot received are fragments
  have hall : ∀ i, ∀ d ∈ receivedSince 2 startedSwitch (fun _ => [])
      [arrives (smallFragment 2 2), arrives (smallFragment 3 2)] i,
      byteAt d idxFragmentIndicator = addressReservedPrefix := by
    decide
  exact hhead.1 (hall i head hmem)

end ZGalaxy
