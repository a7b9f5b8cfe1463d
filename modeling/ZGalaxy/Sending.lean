/-
ZGalaxy/Sending.lean

To whom the sender of a multicast frame sends it.

A frame goes to the best replicator of the network, where there is one.  Else, with enough members
known, it goes in one pass to the active bridges and to members in an order that is drawn at random;
with fewer it goes to the first bridges and members and waits in the queue of the group for members
that are still to be learned.  The two ways leave out the origin and the node itself in different
places.

The packet is composed when the frame is already in the queue.  A frame that is too long for it
throws, and what waits in the queue then is a packet without payload, for which nobody is logged.
The frames that wait do not bear on each other (`add_append`).

Main result: `sent_once_iff`, exactly when nobody gets a frame twice, it does not go back, and no
more than the limit of it goes to members that are no bridges, whoever is learned of while it waits.
-/
import Mathlib.Data.List.GetD
import ZGalaxy.Bridging
import ZGalaxy.FrameExtents
import ZGalaxy.Gathering

namespace ZGalaxy

open SortedVector

/-- `ZT_TX_QUEUE_SIZE`. -/
def txQueueSize : ℕ := 32

/-- `ZT_NETWORKCONFIG_SPECIALIST_TYPE_MULTICAST_REPLICATOR`. -/
def specialistTypeMulticastReplicator : BitVec 64 := 0x0000080000000000

/-- What `send` uses of the configuration of a network. -/
structure MulticastConfig where
  specialists : List (BitVec 64)
  multicastLimit : UInt32

namespace MulticastConfig

variable (c : MulticastConfig)

/-- The specialists of a type. -/
def specialistsOf (type : BitVec 64) : List Address :=
  (c.specialists.filter fun s => s &&& type != 0).map Address.ofUInt64

/-- `NetworkConfig::activeBridges`. -/
def activeBridges : List Address := c.specialistsOf specialistTypeActiveBridge

/-- `NetworkConfig::multicastReplicators`. -/
def multicastReplicators : List Address := c.specialistsOf specialistTypeMulticastReplicator

/-- `NetworkConfig::isActiveBridge`. -/
def isActiveBridge (a : Address) : Bool := c.activeBridges.contains a

/-- The limit as a number. -/
def limit : ℕ := c.multicastLimit.toNat

/-- How many addresses a queued frame asks for. -/
def gatherLimit (gs : MulticastGroupStatus) : UInt32 :=
  c.multicastLimit - UInt32.ofNat gs.members.length + 1

end MulticastConfig

/-! ### The order of the members -/

/-- Two indexes change places. -/
def swapAt (indexes : List ℕ) (i j : ℕ) : List ℕ :=
  (indexes.set i (indexes.getD j 0)).set j (indexes.getD i 0)

/-- The loop that permutes the indexes, from `i` down, with the numbers it draws. -/
def shuffle (prng : ℕ → UInt64) : (i : ℕ) → List ℕ → List ℕ
  | 0, indexes => indexes
  | i + 1, indexes => shuffle prng i (swapAt indexes ((prng (i + 1)).toNat % (i + 2)) (i + 1))

namespace MulticastGroupStatus

/-- The addresses of the members in the order of the permuted indexes. -/
def order (gs : MulticastGroupStatus) (prng : ℕ → UInt64) : List Address :=
  (shuffle prng (gs.members.length - 1) (List.range gs.members.length)).filterMap fun i =>
    (gs.members[i]?).map MulticastGroupMember.address

end MulticastGroupStatus

/-! ### Sending -/

/-- The route that a frame takes: the calls of `sendOnly`, and what is left in the queue. -/
inductive SendRoute
  /-- the packet could not be composed -/
  | thrown
  | replicator (r : Address)
  | onePass (calls : List Address)
  | queue (calls : List Address) (out : OutboundMulticast)

/-- The loop over the replicators, with the best one so far and its latency.  A peer that is not
known, not alive or without a path has none. -/
def bestReplicator (latency : Address → Option ℕ) :
    List Address → Option Address → ℕ → Option Address
  | [], best, _ => best
  | r :: rs, best, bestLatency =>
      ((latency r).filter fun l => l < bestLatency).elim
        (bestReplicator latency rs best bestLatency) fun l => bestReplicator latency rs (some r) l

/-- The replicator that the frame is left to. -/
def replicatorFor (me : Address) (c : MulticastConfig) (latency : Address → Option ℕ) :
    Option Address :=
  if c.isActiveBridge me then none
  else if c.multicastReplicators.contains me then none
  else bestReplicator latency c.multicastReplicators none 0xffff

/-- What is left to a replicator fits, in a packet that is composed before the queue is looked
at. -/
def ReplicatorFits (len : ℕ) : Prop := 28 + 8 + 1 + 6 + 6 + 4 + 2 + len ≤ protoMaxPacketLength

instance (len : ℕ) : Decidable (ReplicatorFits len) := inferInstanceAs (Decidable (_ ≤ _))

/-- The loop over members, up to the limit. -/
def sendToMembers (limit : ℕ) (skip : Address → Bool) : (order : List Address) → (count : ℕ) →
    List Address
  | [], _ => []
  | ma :: order, count =>
      if count < limit then
        if skip ma then sendToMembers limit skip order count
        else ma :: sendToMembers limit skip order (count + 1)
      else []

/-- The loop over bridges that are logged, up to the limit. -/
def sendToBridges (me : Address) (limit : ℕ) : (bridges : List Address) → (count : ℕ) →
    List Address
  | [], _ => []
  | a :: bridges, count =>
      if a = me then sendToBridges me limit bridges count
      else if limit ≤ count + 1 then [a]
      else a :: sendToBridges me limit bridges (count + 1)

/-- The frames that have waited longest are dropped. -/
def makeRoom : List OutboundMulticast → List OutboundMulticast
  | [] => []
  | tx :: txQueue =>
      if txQueueSize ≤ (tx :: txQueue).length then makeRoom txQueue else tx :: txQueue

namespace OutboundMulticast

/-- `ZT_PACKET_IDX_PAYLOAD`, the network, the flags, what is gathered, the MAC of the source, the
group and the ethertype. -/
def headerLength (gatherLimit : UInt32) (src : Mac) : ℕ :=
  28 + 8 + 1 + (if gatherLimit ≠ 0 then 4 else 0) + (if src ≠ 0 then 6 else 0) + 6 + 4 + 2

/-- The frame fits, of which no more than `maxMtu` bytes are taken. -/
def Fits (gatherLimit : UInt32) (src : Mac) (len : ℕ) : Prop :=
  headerLength gatherLimit src + min len maxMtu ≤ protoMaxPacketLength

instance (gatherLimit : UInt32) (src : Mac) (len : ℕ) : Decidable (Fits gatherLimit src len) :=
  inferInstanceAs (Decidable (_ ≤ _))

/-- `OutboundMulticast::init`: what the queue looks at, which is set first, and whether the packet
is composed. -/
def init (timestamp : Int64) (limit : ℕ) (gatherLimit : UInt32) (src : Mac) (len : ℕ) :
    OutboundMulticast × Except ZTException Unit :=
  (⟨timestamp.toUInt64, limit, []⟩,
    if Fits gatherLimit src len then .ok () else .error .outOfBounds)

/-- The addresses are logged. -/
def log (tx : OutboundMulticast) (addresses : List Address) : OutboundMulticast :=
  { tx with alreadySentTo := tx.alreadySentTo ++ addresses }

end OutboundMulticast

namespace MulticastGroupStatus

variable (gs : MulticastGroupStatus) (me : Address) (c : MulticastConfig) (prng : ℕ → UInt64)
  (origin : Address)

/-- The calls of a pass over bridges and enough members. -/
def onePass : List Address :=
  (c.activeBridges.filter fun a => a != me && a != origin) ++
    sendToMembers c.limit (fun ma => c.isActiveBridge ma || ma == origin) (gs.order prng) 0

/-- The bridges that a queued frame is sent to. -/
def queuedBridges : List Address := sendToBridges me c.limit c.activeBridges 0

/-- The calls of a frame that is queued. -/
def queuedCalls : List Address :=
  queuedBridges me c ++
    sendToMembers c.limit c.isActiveBridge (gs.order prng) (queuedBridges me c).length

/-- The frame that is queued. -/
def queued (out : OutboundMulticast) : OutboundMulticast :=
  (out.log (if origin.isSet then [origin] else [])).log (gs.queuedCalls me c prng)

/-- A frame that goes to enough members at once, and is in no queue. -/
def sendAtOnce (src : Mac) (len : ℕ) (now : Int64) : SendRoute :=
  match (OutboundMulticast.init now c.limit 1 src len).2 with
  | .ok _ => .onePass (gs.onePass me c prng origin)
  | .error _ => .thrown

/-- A frame that waits for members: it is in the queue before its packet is composed. -/
def sendQueued (src : Mac) (len : ℕ) (now : Int64) : MulticastGroupStatus × SendRoute :=
  match OutboundMulticast.init now c.limit (c.gatherLimit gs) src len with
  | (out, .ok _) =>
      ({ gs with txQueue := makeRoom gs.txQueue ++ [gs.queued me c prng origin out] },
        .queue (gs.queuedCalls me c prng) (gs.queued me c prng origin out))
  | (out, .error _) => ({ gs with txQueue := makeRoom gs.txQueue ++ [out] }, .queue [] out)

/-- A frame that is left to a replicator, with the MAC of its source in any case. -/
def sendToReplicator (len : ℕ) (r : Address) : SendRoute :=
  if ReplicatorFits len then .replicator r else .thrown

/-- `Multicaster::send` for a group. -/
def send (latency : Address → Option ℕ) (src : Mac) (len : ℕ) (now : Int64) :
    MulticastGroupStatus × SendRoute :=
  (replicatorFor me c latency).elim
    (if c.limit ≤ gs.members.length then (gs, gs.sendAtOnce me c prng origin src len now)
    else gs.sendQueued me c prng origin src len now)
    fun r => (gs, sendToReplicator len r)

end MulticastGroupStatus

/-! ### What the frame goes on to -/

/-- A call of `_add` while a frame waits.  The group may have other members by then; the loop over
the queue may end before the frame, where the filter throws for one that waits longer; and the
network lets the frame out to the member or not. -/
structure LaterAdd (me : Address) where
  now : Int64
  members : List MulticastGroupMember
  membersOk : MembersOk me members
  member : Address
  reached : Bool
  letsOut : Bool

/-- The frame is offered to the member, who is new to the group. -/
def LaterAdd.isOffer {me : Address} (a : LaterAdd me) : Bool :=
  a.reached && (a.member != me && !(a.members.map MulticastGroupMember.address).contains a.member)

/-- The frames that go out of the queue of a group while members are added. -/
def laterFrames (me : Address) : List OutboundMulticast → List (LaterAdd me) → List Address
  | _, [] => []
  | txQueue, a :: later =>
      if a.reached then
        let r := (⟨txQueue, a.members⟩ : MulticastGroupStatus).add me a.now a.member
        (if a.letsOut then r.2.map Transmission.toAddr else []) ++
          laterFrames me r.1.txQueue later
      else laterFrames me txQueue later

/-- The frames that one `send` produces, with what the network lets out. -/
def SendRoute.frames (me : Address) (letsOut : Address → Bool) (later : List (LaterAdd me)) :
    SendRoute → List Address
  | .thrown => []
  | .replicator r => [r]
  | .onePass calls => calls.filter letsOut
  | .queue calls out => calls.filter letsOut ++ laterFrames me [out] later

/-! ### The loops -/

theorem swapAt_perm {indexes : List ℕ} {i j : ℕ} (hi : i < indexes.length)
    (hj : j < indexes.length) : List.Perm (swapAt indexes i j) indexes := by
  unfold swapAt
  rw [List.getD_eq_getElem _ _ hi, List.getD_eq_getElem _ _ hj]
  exact List.set_set_perm hi hj

/-- **The permutation** of the indexes. -/
theorem shuffle_perm (prng : ℕ → UInt64) {i : ℕ} {indexes : List ℕ} (hi : i < indexes.length) :
    List.Perm (shuffle prng i indexes) indexes := by
  induction i generalizing indexes with
  | zero => exact List.Perm.refl indexes
  | succ i ih =>
      have hj : (prng (i + 1)).toNat % (i + 2) < indexes.length :=
        (Nat.mod_lt _ (Nat.succ_pos _)).trans_le hi
      have hswap := swapAt_perm hj hi
      have hlt : i < (swapAt indexes ((prng (i + 1)).toNat % (i + 2)) (i + 1)).length := by
        rw [hswap.length_eq]
        exact Nat.lt_of_succ_lt hi
      exact (ih hlt).trans hswap

theorem filterMap_range_getElem? {α β : Type} (l : List α) (f : α → β) :
    ((List.range l.length).filterMap fun i => (l[i]?).map f) = l.map f := by
  induction l using List.reverseRecOn with
  | nil => rfl
  | append_singleton l a ih =>
      rw [List.length_append, List.length_singleton, List.range_succ, List.filterMap_append,
        List.map_append, ← ih]
      congr 1
      · refine List.filterMap_congr fun i hi => ?_
        rw [List.getElem?_append_left (List.mem_range.mp hi)]
      · simp

theorem MulticastGroupStatus.order_perm (gs : MulticastGroupStatus) (prng : ℕ → UInt64) :
    List.Perm (gs.order prng) (gs.members.map MulticastGroupMember.address) := by
  have hshuffle : List.Perm (shuffle prng (gs.members.length - 1) (List.range gs.members.length))
      (List.range gs.members.length) := by
    cases hlen : gs.members.length with
    | zero => exact List.Perm.refl _
    | succ n => exact shuffle_perm prng (by rw [List.length_range]; exact Nat.lt_succ_self n)
  have hmap := hshuffle.filterMap fun i => (gs.members[i]?).map MulticastGroupMember.address
  rw [filterMap_range_getElem?] at hmap
  exact hmap

/-- The members that are not skipped, up to the limit. -/
theorem sendToMembers_eq (limit : ℕ) (skip : Address → Bool) (order : List Address) (count : ℕ) :
    sendToMembers limit skip order count
      = (order.filter fun a => !skip a).take (limit - count) := by
  induction order generalizing count with
  | nil => rw [sendToMembers, List.filter_nil, List.take_nil]
  | cons ma order ih =>
      unfold sendToMembers
      by_cases hcount : count < limit
      · rw [if_pos hcount]
        cases hskip : skip ma with
        | true =>
            rw [if_pos rfl, ih, List.filter_cons_of_neg (by rw [hskip]; exact Bool.false_ne_true)]
        | false =>
            rw [if_neg Bool.false_ne_true, ih, List.filter_cons_of_pos (by rw [hskip]; rfl)]
            have hpos : limit - count = (limit - (count + 1)) + 1 := by omega
            rw [hpos, List.take_succ_cons]
      · rw [if_neg hcount, Nat.sub_eq_zero_of_le (not_lt.mp hcount), List.take_zero]

/-- The bridges but for the node itself, up to the limit. -/
theorem sendToBridges_eq (me : Address) {limit count : ℕ} (hcount : count < limit)
    (bridges : List Address) :
    sendToBridges me limit bridges count = (bridges.filter (· != me)).take (limit - count) := by
  induction bridges generalizing count with
  | nil => rw [sendToBridges, List.filter_nil, List.take_nil]
  | cons a bridges ih =>
      unfold sendToBridges
      by_cases hme : a = me
      · rw [if_pos hme, ih hcount, List.filter_cons_of_neg (by simp [hme])]
      · rw [if_neg hme, List.filter_cons_of_pos (by simpa using hme)]
        by_cases hlast : limit ≤ count + 1
        · have hone : limit - count = 0 + 1 := by omega
          rw [if_pos hlast, hone, List.take_succ_cons, List.take_zero]
        · have hpos : limit - count = (limit - (count + 1)) + 1 := by omega
          rw [if_neg hlast, hpos, List.take_succ_cons, ih (not_le.mp hlast)]

/-! ### A frame in the queue -/

namespace MulticastGroupStatus

variable {me : Address}

/-- The binary search of `_add` finds the member. -/
def Finds (gs : MulticastGroupStatus) (member : Address) : Prop :=
  ∃ x, gs.members[lowerBound (fun x => decide (x.address < member)) gs.members]? = some x ∧
    x.address = member

/-- It finds whoever is there. -/
theorem finds_iff (gs : MulticastGroupStatus)
    (hs : gs.members.Pairwise fun m m' => m.address < m'.address) (member : Address) :
    gs.Finds member ↔ member ∈ gs.members.map MulticastGroupMember.address := by
  constructor
  · rintro ⟨x, hx, rfl⟩
    exact List.mem_map_of_mem (List.mem_of_getElem? hx)
  · intro hmem
    obtain ⟨x, hx, rfl⟩ := List.mem_map.mp hmem
    obtain ⟨l₁, l₂, hv, h₁, h₂⟩ := split_of_pairwise (p := fun y => decide (y.address < x.address))
      hs fun y z hyz hz => decide_eq_true (BitVec.lt_trans hyz (of_decide_eq_true hz))
    rw [Finds, hv, lowerBound_append h₁ h₂]
    rw [hv] at hs hx
    have hnot : x ∉ l₁ := fun hx => BitVec.lt_irrefl _ (of_decide_eq_true (h₁ x hx))
    have hx := (List.mem_append.mp hx).resolve_left hnot
    rcases l₂ with - | ⟨y, l₂⟩
    · exact absurd hx List.not_mem_nil
    · refine ⟨y, by simp, ?_⟩
      rcases List.mem_cons.mp hx with rfl | hx
      · rfl
      · -- what stands before the member is not below it
        have hlt := (List.pairwise_cons.mp (List.pairwise_append.mp hs).2.1).1 x hx
        exact absurd hlt (of_decide_eq_false (h₂ y List.mem_cons_self))

/-- What `_add` does to the queue: nothing, or the frames are offered to a new member. -/
theorem add_cases (gs : MulticastGroupStatus) (me : Address) (now : Int64) (member : Address) :
    (member = me ∨ gs.Finds member) ∧ (∃ members, ∀ q,
        ({ gs with txQueue := q } : MulticastGroupStatus).add me now member
          = (⟨q, members⟩, [])) ∨
      (member ≠ me ∧ ¬gs.Finds member) ∧ ∃ members, ∀ q,
        ({ gs with txQueue := q } : MulticastGroupStatus).add me now member
          = (⟨q, members⟩ : MulticastGroupStatus).offer member := by
  by_cases hme : member = me
  · exact Or.inl ⟨Or.inl hme, gs.members, fun q => if_pos hme⟩
  · cases hget : gs.members[lowerBound (fun x => decide (x.address < member)) gs.members]? with
    | none =>
        refine Or.inr ⟨⟨hme, ?_⟩, gs.members ++ [⟨member, now⟩], fun q => ?_⟩
        · rintro ⟨x, hx, -⟩
          cases hget.symm.trans hx
        · rw [add, if_neg hme]
          dsimp only
          rw [hget]
          rfl
    | some x =>
        by_cases hknown : x.address = member
        · refine Or.inl ⟨Or.inr ⟨x, hget, hknown⟩, gs.members.set
            (lowerBound (fun x => decide (x.address < member)) gs.members)
            { x with timestamp := now }, fun q => ?_⟩
          rw [add, if_neg hme]
          dsimp only
          rw [hget, Option.elim_some, if_pos hknown]
        · refine Or.inr ⟨⟨hme, ?_⟩, gs.members.insertIdx
            (lowerBound (fun x => decide (x.address < member)) gs.members) ⟨member, now⟩,
            fun q => ?_⟩
          · rintro ⟨y, hy, hmember⟩
            cases hget.symm.trans hy
            exact hknown hmember
          · rw [add, if_neg hme]
            dsimp only
            rw [hget, Option.elim_some, if_neg hknown]

theorem offer_singleton (tx : OutboundMulticast) (members : List MulticastGroupMember)
    (m : Address) : (⟨[tx], members⟩ : MulticastGroupStatus).offer m
      = (⟨(tx.offer m).1.toList, members⟩, (tx.offer m).2) := by
  cases h : (tx.offer m).1 with
  | none => simp [offer, h]
  | some tx' => simp [offer, h]

/-- **A frame in the queue** is treated as if it were alone there. -/
theorem add_append (gs : MulticastGroupStatus) (q₁ q₂ : List OutboundMulticast) (now : Int64)
    (member : Address) :
    let r := fun q => ({ gs with txQueue := q } : MulticastGroupStatus).add me now member
    (r (q₁ ++ q₂)).1.txQueue = (r q₁).1.txQueue ++ (r q₂).1.txQueue ∧
      (r (q₁ ++ q₂)).1.members = (r q₁).1.members ∧ (r q₁).1.members = (r q₂).1.members ∧
      (r (q₁ ++ q₂)).2 = (r q₁).2 ++ (r q₂).2 := by
  intro r
  rcases gs.add_cases me now member with ⟨-, members, h⟩ | ⟨-, members, h⟩
  · simp [r, h]
  · simp [r, h, offer, List.filterMap_append, List.flatMap_append]

end MulticastGroupStatus

namespace OutboundMulticast

variable {tx : OutboundMulticast} {m : Address}

/-- A frame that has reached its limit is offered no more. -/
theorem offer_atLimit (m : Address) (hlimit : tx.limit ≤ tx.alreadySentTo.length) :
    tx.offer m = (none, []) := if_pos (decide_eq_true hlimit)

/-- A frame does not go out to a member that is logged. -/
theorem offer_known (hlimit : tx.alreadySentTo.length < tx.limit) (hm : m ∈ tx.alreadySentTo) :
    tx.offer m = (some tx, []) := by
  have hroom : tx.atLimit = false := decide_eq_false (not_le.mpr hlimit)
  have hsend : tx.sendIfNew m = (tx, []) := if_pos (List.contains_iff_mem.mpr hm)
  rw [offer, hroom, if_neg Bool.false_ne_true, hsend]
  dsimp only
  rw [hroom, if_neg Bool.false_ne_true]

/-- A frame goes out to a new member, who is logged. -/
theorem offer_new (hlimit : tx.alreadySentTo.length < tx.limit) (hm : m ∉ tx.alreadySentTo) :
    tx.offer m =
      (if tx.limit ≤ tx.alreadySentTo.length + 1 then none else some (tx.log [m]), [⟨tx, m⟩]) := by
  have hroom : tx.atLimit = false := decide_eq_false (not_le.mpr hlimit)
  have hsend : tx.sendIfNew m = (tx.log [m], [⟨tx, m⟩]) :=
    if_neg fun h => hm (List.contains_iff_mem.mp h)
  have hleft : (tx.log [m]).atLimit = decide (tx.limit ≤ tx.alreadySentTo.length + 1) := by
    show decide (tx.limit ≤ (tx.alreadySentTo ++ [m]).length) = _
    rw [List.length_append, List.length_singleton]
  rw [offer, hroom, if_neg Bool.false_ne_true, hsend]
  dsimp only
  rw [hleft]
  simp only [decide_eq_true_eq]

/-- What is offered goes out only where it is new and the limit is not reached. -/
theorem offer_cases (tx : OutboundMulticast) (m : Address) :
    (tx.offer m).2 = [] ∧ ((tx.offer m).1 = none ∨ (tx.offer m).1 = some tx) ∨
      (m ∉ tx.alreadySentTo ∧ tx.alreadySentTo.length < tx.limit) ∧
        (tx.offer m).2 = [⟨tx, m⟩] ∧
          ((tx.offer m).1 = none ∨ (tx.offer m).1 = some (tx.log [m])) := by
  by_cases hlimit : tx.alreadySentTo.length < tx.limit
  · by_cases hm : m ∈ tx.alreadySentTo
    · rw [offer_known hlimit hm]
      exact Or.inl ⟨rfl, Or.inr rfl⟩
    · rw [offer_new hlimit hm]
      refine Or.inr ⟨⟨hm, hlimit⟩, rfl, ?_⟩
      dsimp only
      split_ifs
      · exact Or.inl rfl
      · exact Or.inr rfl
  · rw [offer_atLimit m (not_lt.mp hlimit)]
    exact Or.inl ⟨rfl, Or.inl rfl⟩

end OutboundMulticast

/-- The frames that go out of the queue go to whoever is not logged, once to each, and not to the
node itself; with those that are logged they are no more than the limit. -/
structure GoesOn (me : Address) (tx : OutboundMulticast) (frames : List Address) : Prop where
  nodup : frames.Nodup
  new : ∀ a ∈ frames, a ∉ tx.alreadySentTo
  notSelf : me ∉ frames
  room : frames.length ≤ tx.limit - tx.alreadySentTo.length

theorem GoesOn.nil (me : Address) (tx : OutboundMulticast) : GoesOn me tx [] :=
  ⟨List.nodup_nil, fun _ ha => absurd ha List.not_mem_nil, List.not_mem_nil, Nat.zero_le _⟩

theorem GoesOn.of_log {me : Address} {tx : OutboundMulticast} {m : Address} {frames : List Address}
    (h : GoesOn me (tx.log [m]) frames) : GoesOn me tx frames := by
  refine ⟨h.nodup, fun a ha hlogged => ?_, h.notSelf, h.room.trans ?_⟩
  · exact h.new a ha (List.mem_append_left _ hlogged)
  · show tx.limit - (tx.alreadySentTo ++ [m]).length ≤ _
    rw [List.length_append]
    omega

theorem GoesOn.cons {me : Address} {tx : OutboundMulticast} {m : Address} {frames : List Address}
    (h : GoesOn me (tx.log [m]) frames) (hnew : m ∉ tx.alreadySentTo) (hme : m ≠ me)
    (hroom : tx.alreadySentTo.length < tx.limit) : GoesOn me tx (m :: frames) := by
  have hlogged : ∀ a, a ∈ (tx.log [m]).alreadySentTo ↔ a ∈ tx.alreadySentTo ∨ a = m := by
    intro a
    show a ∈ tx.alreadySentTo ++ [m] ↔ _
    rw [List.mem_append, List.mem_singleton]
  refine ⟨List.nodup_cons.mpr ⟨fun hm => ?_, h.nodup⟩, fun a ha => ?_, fun hself => ?_, ?_⟩
  · exact h.new m hm ((hlogged m).mpr (Or.inr rfl))
  · rcases List.mem_cons.mp ha with rfl | ha
    · exact hnew
    · exact fun hlog => h.new a ha ((hlogged a).mpr (Or.inl hlog))
  · rcases List.mem_cons.mp hself with rfl | hself
    · exact hme rfl
    · exact h.notSelf hself
  · have hlen : frames.length ≤ tx.limit - (tx.alreadySentTo ++ [m]).length := h.room
    rw [List.length_append, List.length_singleton] at hlen
    rw [List.length_cons]
    omega

@[simp] theorem laterFrames_nil (me : Address) (later : List (LaterAdd me)) :
    laterFrames me [] later = [] := by
  induction later with
  | nil => rfl
  | cons a later ih =>
      rw [laterFrames]
      rcases MulticastGroupStatus.add_cases ⟨[], a.members⟩ me a.now a.member with
        ⟨-, members', h⟩ | ⟨-, members', h⟩
      · have hadd := h []
        dsimp only at hadd ⊢
        rw [hadd, ih]
        simp
      · have hadd := h []
        dsimp only at hadd ⊢
        rw [hadd]
        simp [MulticastGroupStatus.offer, ih]

theorem LaterAdd.isOffer_iff {me : Address} (a : LaterAdd me) : a.isOffer = true ↔
    a.reached = true ∧ a.member ≠ me ∧
      a.member ∉ a.members.map MulticastGroupMember.address := by
  rw [isOffer, Bool.and_eq_true, Bool.and_eq_true, bne_iff_ne, Bool.not_eq_true',
    ← Bool.not_eq_true, List.contains_iff_mem]

/-- **A later call**: the frame is offered to the member if that is new, and the others get what
is left of it. -/
theorem laterFrames_cons {me : Address} (tx : OutboundMulticast) (a : LaterAdd me)
    (later : List (LaterAdd me)) : laterFrames me [tx] (a :: later) =
      if a.isOffer then (if a.letsOut then (tx.offer a.member).2.map Transmission.toAddr else []) ++
        laterFrames me (tx.offer a.member).1.toList later
      else laterFrames me [tx] later := by
  have hiff := a.isOffer_iff
  rw [laterFrames]
  by_cases hreached : a.reached = true
  · rw [← MulticastGroupStatus.finds_iff ⟨[tx], a.members⟩ a.membersOk.1] at hiff
    rw [if_pos hreached]
    rcases MulticastGroupStatus.add_cases ⟨[tx], a.members⟩ me a.now a.member with
      ⟨hknown, members', h⟩ | ⟨⟨hme, hnew⟩, members', h⟩
    · have hoffer : ¬a.isOffer = true := fun h => hknown.elim (hiff.mp h).2.1 (hiff.mp h).2.2
      have hadd := h [tx]
      dsimp only at hadd ⊢
      rw [hadd, if_neg hoffer, List.map_nil, ite_self, List.nil_append]
    · have hadd := h [tx]
      dsimp only at hadd ⊢
      rw [hadd, MulticastGroupStatus.offer_singleton, if_pos (hiff.mpr ⟨hreached, hme, hnew⟩)]
  · rw [if_neg hreached, if_neg fun h => hreached (hiff.mp h).1]

/-- **A queued frame** goes on to new members only. -/
theorem laterFrames_goesOn {me : Address} (later : List (LaterAdd me)) (tx : OutboundMulticast) :
    GoesOn me tx (laterFrames me [tx] later) := by
  induction later generalizing tx with
  | nil => exact GoesOn.nil me tx
  | cons a later ih =>
      rw [laterFrames_cons]
      by_cases hoffer : a.isOffer = true
      · have hleft : ∀ tx', (tx.offer a.member).1 = none ∨ (tx.offer a.member).1 = some tx' →
            GoesOn me tx' (laterFrames me (tx.offer a.member).1.toList later) := by
          rintro tx' (hnone | hsome)
          · rw [hnone, Option.toList_none, laterFrames_nil]
            exact GoesOn.nil me tx'
          · rw [hsome]
            exact ih tx'
        rw [if_pos hoffer]
        rcases tx.offer_cases a.member with ⟨hsent, hnext⟩ | ⟨⟨hnew, hroom⟩, hsent, hnext⟩
        · -- the frame is not offered any more, or the member is logged
          rw [hsent, List.map_nil, ite_self, List.nil_append]
          exact hleft tx hnext
        · rw [hsent]
          by_cases hout : a.letsOut = true
          · rw [if_pos hout]
            exact (hleft _ hnext).cons hnew (a.isOffer_iff.mp hoffer).2.1 hroom
          · rw [if_neg hout]
            exact (hleft _ hnext).of_log
      · rw [if_neg hoffer]
        exact ih tx

/-! ### Who is offered a waiting frame -/

/-- The later calls by which a frame is offered to somebody new. -/
def offers {me : Address} (later : List (LaterAdd me)) : List (LaterAdd me) :=
  later.filter LaterAdd.isOffer

/-- A frame that went to those in `log` is let out to `m` when it is first offered to it, and the
limit is not reached before. -/
def FirstOffered {me : Address} (log : List Address) (limit : ℕ) (m : Address)
    (offers : List (LaterAdd me)) : Prop :=
  ∃ before a after, offers = before ++ a :: after ∧ a.member = m ∧ a.letsOut = true ∧
    m ∉ log ++ before.map LaterAdd.member ∧
      (log ++ before.map LaterAdd.member).dedup.length < limit

section Offers

variable {me : Address} {log : List Address} {limit : ℕ} {m : Address}

theorem not_firstOffered_nil : ¬FirstOffered log limit m ([] : List (LaterAdd me)) := by
  rintro ⟨before, a, after, heq, -⟩
  exact List.append_ne_nil_of_right_ne_nil before (List.cons_ne_nil a after) heq.symm

/-- The next offer is to `m`, or what comes after it is. -/
theorem firstOffered_cons (a : LaterAdd me) (offers : List (LaterAdd me)) :
    FirstOffered log limit m (a :: offers) ↔
      ((a.member = m ∧ a.letsOut = true) ∧ m ∉ log ∧ log.dedup.length < limit) ∨
        FirstOffered (log ++ [a.member]) limit m offers := by
  constructor
  · rintro ⟨before, x, after, heq, hm, hout, hnew, hroom⟩
    rcases before with - | ⟨y, before⟩
    · obtain ⟨rfl, -⟩ := List.cons.inj heq
      rw [List.map_nil, List.append_nil] at hnew hroom
      exact Or.inl ⟨⟨hm, hout⟩, hnew, hroom⟩
    · obtain ⟨rfl, rfl⟩ := List.cons.inj heq
      rw [List.map_cons, List.append_cons] at hnew hroom
      exact Or.inr ⟨before, x, after, rfl, hm, hout, hnew, hroom⟩
  · rintro (⟨⟨hm, hout⟩, hnew, hroom⟩ | ⟨before, x, after, rfl, hm, hout, hnew, hroom⟩)
    · refine ⟨[], a, offers, rfl, hm, hout, ?_, ?_⟩
      · rwa [List.map_nil, List.append_nil]
      · rwa [List.map_nil, List.append_nil]
    · refine ⟨a :: before, x, after, rfl, hm, hout, ?_, ?_⟩
      · rwa [List.map_cons, List.append_cons]
      · rwa [List.map_cons, List.append_cons]

/-- Somebody who is in the log may be there again. -/
theorem firstOffered_log {x : Address} (hx : x ∈ log) (offers : List (LaterAdd me)) :
    FirstOffered (log ++ [x]) limit m offers ↔ FirstOffered log limit m offers := by
  unfold FirstOffered
  have hmem : ∀ l y, y ∈ log ++ [x] ++ l ↔ y ∈ log ++ l := by
    intro l y
    simp only [List.mem_append, List.mem_singleton]
    constructor
    · rintro ((hy | rfl) | hy)
      · exact Or.inl hy
      · exact Or.inl hx
      · exact Or.inr hy
    · exact fun hy => hy.imp_left Or.inl
  have hlen : ∀ l, (log ++ [x] ++ l).dedup.length = (log ++ l).dedup.length := by
    intro l
    rw [← List.card_toFinset, ← List.card_toFinset]
    congr 1
    ext y
    rw [List.mem_toFinset, List.mem_toFinset, hmem]
  simp only [hmem, hlen]

theorem length_dedup_le (l l' : List Address) : l.dedup.length ≤ (l ++ l').dedup.length := by
  rw [← List.card_toFinset, ← List.card_toFinset, List.toFinset_append]
  exact Finset.card_le_card Finset.subset_union_left

/-- A log as long as the limit leaves no room. -/
theorem not_firstOffered_of_le (hlimit : limit ≤ log.dedup.length) (offers : List (LaterAdd me)) :
    ¬FirstOffered log limit m offers := by
  rintro ⟨before, -, -, -, -, -, -, hroom⟩
  have hle := length_dedup_le log (before.map LaterAdd.member)
  omega

/-- **Who gets a waiting frame**: whoever it is first offered to before the limit, and let out
to. -/
theorem mem_laterFrames (tx : OutboundMulticast) (hlog : tx.alreadySentTo.Nodup)
    (later : List (LaterAdd me)) (m : Address) : m ∈ laterFrames me [tx] later ↔
      FirstOffered tx.alreadySentTo tx.limit m (offers later) := by
  induction later generalizing tx with
  | nil => exact iff_of_false List.not_mem_nil not_firstOffered_nil
  | cons a later ih =>
      rw [laterFrames_cons]
      by_cases hoffer : a.isOffer = true
      · have hoffers : offers (a :: later) = a :: offers later := List.filter_cons_of_pos hoffer
        rw [if_pos hoffer, hoffers, firstOffered_cons, hlog.dedup]
        by_cases hroom : tx.alreadySentTo.length < tx.limit
        · by_cases hknown : a.member ∈ tx.alreadySentTo
          · -- the member is logged
            rw [OutboundMulticast.offer_known hroom hknown, firstOffered_log hknown, ← ih tx hlog]
            simp only [List.map_nil, ite_self, List.nil_append, Option.toList_some]
            refine (or_iff_right ?_).symm
            rintro ⟨⟨rfl, -⟩, hnew, -⟩
            exact hnew hknown
          · have hlogged : (tx.log [a.member]).alreadySentTo.Nodup :=
              List.nodup_append.mpr ⟨hlog, List.nodup_singleton _, fun x hx y hy hxy =>
                hknown (List.mem_singleton.mp hy ▸ hxy ▸ hx)⟩
            have hnext : m ∈ laterFrames me
                  (if tx.limit ≤ tx.alreadySentTo.length + 1 then none
                    else some (tx.log [a.member])).toList later ↔
                FirstOffered (tx.alreadySentTo ++ [a.member]) tx.limit m (offers later) := by
              split_ifs with hlast
              · rw [Option.toList_none, laterFrames_nil]
                refine iff_of_false List.not_mem_nil (not_firstOffered_of_le ?_ _)
                have hlength := congrArg List.length hlogged.dedup
                rw [OutboundMulticast.log, List.length_append, List.length_singleton] at hlength
                exact hlast.trans hlength.ge
              · exact ih _ hlogged
            rw [OutboundMulticast.offer_new hroom hknown, List.mem_append, hnext]
            refine or_congr ?_ Iff.rfl
            cases hout : a.letsOut with
            | false => simp
            | true =>
                simp only [if_true, List.map_cons, List.map_nil, List.mem_singleton, and_true,
                  hroom]
                exact ⟨fun h => ⟨h.symm, h ▸ hknown⟩, fun h => h.1.symm⟩
        · -- the limit is reached
          rw [OutboundMulticast.offer_atLimit a.member (not_lt.mp hroom), Option.toList_none,
            laterFrames_nil]
          simp only [List.map_nil, ite_self, List.append_nil]
          refine iff_of_false List.not_mem_nil ?_
          rintro (⟨-, -, hlt⟩ | hlater)
          · exact hroom hlt
          · refine not_firstOffered_of_le ?_ _ hlater
            have hle := length_dedup_le tx.alreadySentTo [a.member]
            rw [hlog.dedup] at hle
            omega
      · have hoffers : offers (a :: later) = offers later := List.filter_cons_of_neg hoffer
        rw [if_neg hoffer, hoffers]
        exact ih tx hlog

end Offers

/-! ### Once to each and not back -/

/-- Nobody gets a frame twice, neither the origin nor the node itself gets it, and no more than the
limit go to members that are no bridges. -/
structure SentOnce (me origin : Address) (c : MulticastConfig) (frames : List Address) : Prop where
  distinct : frames.Nodup
  notBack : origin.isSet = true → origin ∉ frames
  notSelf : me ∉ frames
  limit : (frames.filter fun a => !c.isActiveBridge a).length ≤ c.limit

theorem SentOnce.nil (me origin : Address) (c : MulticastConfig) : SentOnce me origin c [] :=
  ⟨List.nodup_nil, fun _ => List.not_mem_nil, List.not_mem_nil, Nat.zero_le _⟩

/-- What is sent later is sent to others. -/
theorem SentOnce.append {me origin : Address} {c : MulticastConfig} {first laterOnes : List Address}
    (h : SentOnce me origin c first) (hnodup : laterOnes.Nodup)
    (hnew : ∀ a ∈ laterOnes, a ∉ first) (hback : origin.isSet = true → origin ∉ laterOnes)
    (hself : me ∉ laterOnes)
    (hroom : (first.filter fun a => !c.isActiveBridge a).length + laterOnes.length ≤ c.limit) :
    SentOnce me origin c (first ++ laterOnes) where
  distinct := List.nodup_append.mpr
    ⟨h.distinct, hnodup, fun a ha b hb hab => hnew b hb (hab ▸ ha)⟩
  notBack hset hmem := (List.mem_append.mp hmem).elim (h.notBack hset) (hback hset)
  notSelf hmem := (List.mem_append.mp hmem).elim h.notSelf hself
  limit := by
    rw [List.filter_append, List.length_append]
    have hlater := List.length_filter_le (fun a => !c.isActiveBridge a) laterOnes
    omega

/-- The members that are left when those that are skipped are taken out, up to a limit. -/
def firstMembers (order : List Address) (skip : Address → Bool) (limit : ℕ) : List Address :=
  (order.filter fun a => !skip a).take limit

/-- The first bridges but for the node itself, up to the limit. -/
def firstBridges (me : Address) (c : MulticastConfig) : List Address :=
  (c.activeBridges.filter (· != me)).take c.limit

/-- When a frame is sent as it should be.  A replicator must not be the origin; the bridges that
the network lets frames out to must differ; where the frame is queued, the origin must be none
of the first bridges and none of the members that come next in the order drawn; and where it is
too long for that, it must not be let out to the origin when that is first learned of. -/
structure SendsWell (gs : MulticastGroupStatus) (me origin : Address) (c : MulticastConfig)
    (latency : Address → Option ℕ) (prng : ℕ → UInt64) (src : Mac) (len : ℕ)
    (letsOut : Address → Bool) (later : List (LaterAdd me)) : Prop where
  replicator : ∀ r, replicatorFor me c latency = some r → ReplicatorFits len →
    (origin.isSet = true → r ≠ origin) ∧ (c.isActiveBridge r = true ∨ 0 < c.limit)
  onePass : replicatorFor me c latency = none → c.limit ≤ gs.members.length →
    OutboundMulticast.Fits 1 src len →
      ((c.activeBridges.filter fun a => a != me && a != origin).filter letsOut).Nodup
  queue : replicatorFor me c latency = none → gs.members.length < c.limit →
    OutboundMulticast.Fits (c.gatherLimit gs) src len →
      ((firstBridges me c).filter letsOut).Nodup ∧
        (origin.isSet = true → letsOut origin = true → origin ∉ firstBridges me c ∧
          origin ∉ firstMembers (gs.order prng) c.isActiveBridge
            (c.limit - (firstBridges me c).length))
  tooLong : replicatorFor me c latency = none → gs.members.length < c.limit →
    ¬OutboundMulticast.Fits (c.gatherLimit gs) src len →
      origin.isSet = true → ¬FirstOffered [] c.limit origin (offers later)

section Routes

variable {gs : MulticastGroupStatus} {me origin : Address} {c : MulticastConfig}
  {prng : ℕ → UInt64} {letsOut : Address → Bool}

theorem firstMembers_sublist (order : List Address) (skip : Address → Bool) (limit : ℕ) :
    List.Sublist (firstMembers order skip limit) order :=
  (List.take_sublist _ _).trans List.filter_sublist

theorem not_skip_of_firstMembers {order : List Address} {skip : Address → Bool} {limit : ℕ}
    {a : Address} (ha : a ∈ firstMembers order skip limit) : skip a = false := by
  have hskip := (List.mem_filter.mp (List.mem_of_mem_take ha)).2
  rwa [Bool.not_eq_true'] at hskip

theorem length_firstMembers_le (order : List Address) (skip : Address → Bool) (limit : ℕ) :
    (firstMembers order skip limit).length ≤ limit := by
  rw [firstMembers, List.length_take]
  exact min_le_left _ _

/-- Bridges and members that are no bridges are apart. -/
theorem nodup_append_of_bridges {bridges members : List Address}
    (hbridges : ∀ a ∈ bridges, c.isActiveBridge a = true) (hnodup : (bridges.filter letsOut).Nodup)
    (hmembers : ∀ a ∈ members, c.isActiveBridge a = false) (hdistinct : members.Nodup) :
    ((bridges ++ members).filter letsOut).Nodup := by
  rw [List.filter_append]
  refine List.nodup_append.mpr ⟨hnodup, hdistinct.filter _, ?_⟩
  rintro a ha b hb rfl
  have hbridge := hbridges a (List.mem_of_mem_filter ha)
  rw [hmembers a (List.mem_of_mem_filter hb)] at hbridge
  cases hbridge

/-- Only the members count against the limit. -/
theorem length_notBridges_le {bridges members : List Address}
    (hbridges : ∀ a ∈ bridges, c.isActiveBridge a = true) :
    (((bridges ++ members).filter letsOut).filter fun a => !c.isActiveBridge a).length
      ≤ members.length := by
  rw [List.filter_append, List.filter_append, List.length_append]
  have hnone : ((bridges.filter letsOut).filter fun a => !c.isActiveBridge a) = [] := by
    refine List.filter_eq_nil_iff.mpr fun a ha => ?_
    rw [hbridges a (List.mem_of_mem_filter ha)]
    exact Bool.false_ne_true
  rw [hnone, List.length_nil, Nat.zero_add]
  exact (List.length_filter_le _ _).trans (List.length_filter_le _ _)

theorem isActiveBridge_of_filter {p : Address → Bool} {a : Address}
    (ha : a ∈ c.activeBridges.filter p) : c.isActiveBridge a = true :=
  List.contains_iff_mem.mpr (List.mem_of_mem_filter ha)

variable (hnodup : (gs.order prng).Nodup) (hself : me ∉ gs.order prng)
include hnodup hself

/-- **One pass.** -/
theorem onePass_iff : SentOnce me origin c ((gs.onePass me c prng origin).filter letsOut) ↔
    ((c.activeBridges.filter fun a => a != me && a != origin).filter letsOut).Nodup := by
  rw [MulticastGroupStatus.onePass, sendToMembers_eq, Nat.sub_zero]
  set bridges := c.activeBridges.filter fun a => a != me && a != origin with hb
  set members := firstMembers (gs.order prng) (fun ma => c.isActiveBridge ma || ma == origin)
    c.limit with hm
  have hmembers : ∀ a ∈ members, c.isActiveBridge a = false ∧ a ≠ origin := by
    intro a ha
    have hskip := not_skip_of_firstMembers ha
    rw [Bool.or_eq_false_iff, beq_eq_false_iff_ne] at hskip
    exact hskip
  have hbridges : ∀ a ∈ bridges, a ≠ me ∧ a ≠ origin := by
    intro a ha
    have hpass := (List.mem_filter.mp ha).2
    rw [Bool.and_eq_true, bne_iff_ne, bne_iff_ne] at hpass
    exact hpass
  show SentOnce me origin c ((bridges ++ members).filter letsOut) ↔ _
  constructor
  · intro h
    have hdistinct := h.distinct
    rw [List.filter_append] at hdistinct
    exact (List.nodup_append.mp hdistinct).1
  · intro h
    refine ⟨?_, fun _ hback => ?_, fun hme => ?_, ?_⟩
    · exact nodup_append_of_bridges (fun a ha => isActiveBridge_of_filter ha) h
        (fun a ha => (hmembers a ha).1) ((firstMembers_sublist _ _ _).nodup hnodup)
    · rcases List.mem_append.mp (List.mem_of_mem_filter hback) with hback | hback
      · exact (hbridges origin hback).2 rfl
      · exact (hmembers origin hback).2 rfl
    · rcases List.mem_append.mp (List.mem_of_mem_filter hme) with hme | hme
      · exact (hbridges me hme).1 rfl
      · exact hself ((firstMembers_sublist _ _ _).mem hme)
    · exact (length_notBridges_le fun a ha => isActiveBridge_of_filter ha).trans
        (length_firstMembers_le _ _ _)

omit hnodup hself in
theorem of_mem_firstBridges {a : Address} (ha : a ∈ firstBridges me c) :
    a ≠ me ∧ c.isActiveBridge a = true := by
  have ha := List.mem_of_mem_take ha
  have hne := (List.mem_filter.mp ha).2
  rw [bne_iff_ne] at hne
  exact ⟨hne, isActiveBridge_of_filter ha⟩

omit hnodup hself in
/-- Who a frame that is queued goes to at once, or is kept from by the network. -/
theorem queuedCalls_eq (hlt : 0 < c.limit) : gs.queuedCalls me c prng = firstBridges me c ++
    firstMembers (gs.order prng) c.isActiveBridge (c.limit - (firstBridges me c).length) := by
  have hbridges : MulticastGroupStatus.queuedBridges me c = firstBridges me c := by
    rw [MulticastGroupStatus.queuedBridges, sendToBridges_eq me hlt, Nat.sub_zero]
    rfl
  rw [MulticastGroupStatus.queuedCalls, hbridges, sendToMembers_eq]
  rfl

/-- What is sent at once of a frame that is queued. -/
theorem queuedFirst_iff {limit : ℕ} (hlimit : limit ≤ c.limit) :
    SentOnce me origin c ((firstBridges me c ++
        firstMembers (gs.order prng) c.isActiveBridge limit).filter letsOut) ↔
      ((firstBridges me c).filter letsOut).Nodup ∧
        (origin.isSet = true → letsOut origin = true → origin ∉ firstBridges me c ∧
          origin ∉ firstMembers (gs.order prng) c.isActiveBridge limit) := by
  set bridges := firstBridges me c with hb
  set members := firstMembers (gs.order prng) c.isActiveBridge limit with hm
  have hpass : ∀ a ∈ bridges, a ≠ me ∧ c.isActiveBridge a = true := fun a => of_mem_firstBridges
  constructor
  · intro h
    refine ⟨?_, fun hset hout => ⟨fun hmem => h.notBack hset ?_, fun hmem => h.notBack hset ?_⟩⟩
    · have hdistinct := h.distinct
      rw [List.filter_append] at hdistinct
      exact (List.nodup_append.mp hdistinct).1
    · exact List.mem_filter.mpr ⟨List.mem_append_left _ hmem, hout⟩
    · exact List.mem_filter.mpr ⟨List.mem_append_right _ hmem, hout⟩
  · rintro ⟨hdistinct, hback⟩
    refine ⟨?_, fun hset hmem => ?_, fun hme => ?_, ?_⟩
    · -- the first members are no bridges, so that only the bridges can repeat
      exact nodup_append_of_bridges (fun a ha => (hpass a ha).2) hdistinct
        (fun a ha => not_skip_of_firstMembers ha) ((firstMembers_sublist _ _ _).nodup hnodup)
    · obtain ⟨hmem, hout⟩ := List.mem_filter.mp hmem
      obtain ⟨hnotBridge, hnotMember⟩ := hback hset hout
      exact (List.mem_append.mp hmem).elim hnotBridge hnotMember
    · rcases List.mem_append.mp (List.mem_of_mem_filter hme) with hme | hme
      · exact (hpass me hme).1 rfl
      · exact hself ((firstMembers_sublist _ _ _).mem hme)
    · exact (length_notBridges_le fun a ha => (hpass a ha).2).trans
        ((length_firstMembers_le _ _ _).trans hlimit)

/-- **A frame that is queued.** -/
theorem queue_iff (hlt : 0 < c.limit) {out : OutboundMulticast} (hout : out.alreadySentTo = [])
    (houtLimit : out.limit = c.limit) (later : List (LaterAdd me)) :
    SentOnce me origin c ((gs.queuedCalls me c prng).filter letsOut ++
        laterFrames me [gs.queued me c prng origin out] later) ↔
      ((firstBridges me c).filter letsOut).Nodup ∧
        (origin.isSet = true → letsOut origin = true → origin ∉ firstBridges me c ∧
          origin ∉ firstMembers (gs.order prng) c.isActiveBridge
            (c.limit - (firstBridges me c).length)) := by
  have hgoes : GoesOn me (gs.queued me c prng origin out)
      (laterFrames me [gs.queued me c prng origin out] later) := laterFrames_goesOn later _
  generalize laterFrames me _ later = laterOnes at hgoes ⊢
  have hlog : (gs.queued me c prng origin out).alreadySentTo
      = (if origin.isSet then [origin] else []) ++ gs.queuedCalls me c prng := by
    show out.alreadySentTo ++ (if origin.isSet then [origin] else []) ++ _ = _
    rw [hout, List.nil_append]
  have hlimit : (gs.queued me c prng origin out).limit = c.limit := houtLimit
  -- the log of the queued frame keeps the later calls apart from those at once
  have hnew := hgoes.new
  have hroom := hgoes.room
  rw [hlog] at hnew
  rw [hlog, hlimit] at hroom
  rw [← queuedFirst_iff hnodup hself (Nat.sub_le _ _), ← queuedCalls_eq hlt]
  constructor
  · intro h
    refine ⟨(List.nodup_append.mp h.distinct).1, fun hset hmem => ?_, fun hme => ?_, ?_⟩
    · exact h.notBack hset (List.mem_append_left _ hmem)
    · exact h.notSelf (List.mem_append_left _ hme)
    · have hcount := h.limit
      rw [List.filter_append, List.length_append] at hcount
      omega
  · intro h
    refine h.append hgoes.nodup (fun a ha hmem => ?_) (fun hset hmem => ?_) hgoes.notSelf ?_
    · exact hnew a ha (List.mem_append_right _ (List.mem_of_mem_filter hmem))
    · -- the origin is logged
      refine hnew origin hmem (List.mem_append_left _ ?_)
      rw [if_pos hset]
      exact List.mem_singleton_self origin
    · have hfirst : (((gs.queuedCalls me c prng).filter letsOut).filter fun a =>
          !c.isActiveBridge a).length ≤ (gs.queuedCalls me c prng).length :=
        (List.length_filter_le _ _).trans (List.length_filter_le _ _)
      have hcount := h.limit
      rw [List.length_append] at hroom
      omega

omit hnodup hself in
/-- **A frame that is too long**, and is in the queue without a packet. -/
theorem leftBehind_iff (now : Int64) (later : List (LaterAdd me)) :
    SentOnce me origin c (SendRoute.frames me letsOut later
        (.queue [] ⟨now.toUInt64, c.limit, []⟩)) ↔
      (origin.isSet = true → ¬FirstOffered [] c.limit origin (offers later)) := by
  have hgoes : GoesOn me ⟨now.toUInt64, c.limit, []⟩ _ := laterFrames_goesOn later _
  have hmem := mem_laterFrames ⟨now.toUInt64, c.limit, []⟩ List.nodup_nil later origin
  show SentOnce me origin c (laterFrames me [⟨now.toUInt64, c.limit, []⟩] later) ↔ _
  rw [← hmem]
  refine ⟨fun h => h.notBack, fun h => ⟨hgoes.nodup, h, hgoes.notSelf, ?_⟩⟩
  exact (List.length_filter_le _ _).trans hgoes.room

/-- **A frame for enough members.** -/
theorem sendAtOnce_iff (src : Mac) (len : ℕ) (now : Int64) (later : List (LaterAdd me)) :
    SentOnce me origin c ((gs.sendAtOnce me c prng origin src len now).frames me letsOut later) ↔
      (OutboundMulticast.Fits 1 src len →
        ((c.activeBridges.filter fun a => a != me && a != origin).filter letsOut).Nodup) := by
  unfold MulticastGroupStatus.sendAtOnce OutboundMulticast.init
  by_cases hfits : OutboundMulticast.Fits 1 src len
  · simp only [forall_const, hfits]
    exact onePass_iff hnodup hself
  · simp only [if_neg hfits]
    exact iff_of_true (SentOnce.nil me origin c) fun h => absurd h hfits

/-- **A frame for few members.** -/
theorem sendQueued_iff (hlt : 0 < c.limit) (src : Mac) (len : ℕ) (now : Int64)
    (later : List (LaterAdd me)) :
    SentOnce me origin c
        ((gs.sendQueued me c prng origin src len now).2.frames me letsOut later) ↔
      (OutboundMulticast.Fits (c.gatherLimit gs) src len →
        ((firstBridges me c).filter letsOut).Nodup ∧
          (origin.isSet = true → letsOut origin = true → origin ∉ firstBridges me c ∧
            origin ∉ firstMembers (gs.order prng) c.isActiveBridge
              (c.limit - (firstBridges me c).length))) ∧
        (¬OutboundMulticast.Fits (c.gatherLimit gs) src len →
          origin.isSet = true → ¬FirstOffered [] c.limit origin (offers later)) := by
  unfold MulticastGroupStatus.sendQueued OutboundMulticast.init
  by_cases hfits : OutboundMulticast.Fits (c.gatherLimit gs) src len
  · simp only [forall_const, hfits, not_true_eq_false, false_implies, and_true]
    exact queue_iff hnodup hself hlt rfl rfl later
  · simp only [forall_const, hfits, not_false_eq_true, false_implies, true_and]
    exact leftBehind_iff now later

end Routes

/-! ### The replicator -/

theorem bestReplicator_mem (latency : Address → Option ℕ) (rs : List Address)
    (best : Option Address) (bestLatency : ℕ) {r : Address}
    (h : bestReplicator latency rs best bestLatency = some r) :
    r ∈ rs ∨ best = some r := by
  induction rs generalizing best bestLatency with
  | nil => exact Or.inr h
  | cons a rs ih =>
      unfold bestReplicator at h
      cases hl : (latency a).filter fun l => decide (l < bestLatency) with
      | none =>
          rw [hl] at h
          exact (ih best bestLatency h).imp_left (List.mem_cons_of_mem a)
      | some l =>
          rw [hl] at h
          rcases ih (some a) l h with hmem | hsome
          · exact Or.inl (List.mem_cons_of_mem a hmem)
          · exact Or.inl (Option.some.inj hsome ▸ List.mem_cons_self)

theorem replicatorFor_ne {me : Address} {c : MulticastConfig} {latency : Address → Option ℕ}
    {r : Address} (h : replicatorFor me c latency = some r) : r ≠ me := by
  unfold replicatorFor at h
  split_ifs at h with hbridge hreplicator
  rintro rfl
  rcases bestReplicator_mem latency _ none _ h with hmem | hnone
  · exact hreplicator (List.contains_iff_mem.mpr hmem)
  · cases hnone

/-- A frame that is left to a replicator. -/
theorem replicator_iff {me origin r : Address} {c : MulticastConfig} (hr : r ≠ me) :
    SentOnce me origin c [r] ↔
      (origin.isSet = true → r ≠ origin) ∧ (c.isActiveBridge r = true ∨ 0 < c.limit) := by
  have hcount : ([r].filter fun a => !c.isActiveBridge a).length ≤ c.limit ↔
      c.isActiveBridge r = true ∨ 0 < c.limit := by
    cases hbridge : c.isActiveBridge r with
    | true => simp [hbridge]
    | false => simp [hbridge, Nat.succ_le_iff]
  constructor
  · intro h
    refine ⟨fun hset hback => ?_, hcount.mp h.limit⟩
    exact h.notBack hset (List.mem_singleton.mpr hback.symm)
  · rintro ⟨hback, hroom⟩
    refine ⟨List.nodup_singleton r, fun hset hmem => ?_, fun hme => ?_, hcount.mpr hroom⟩
    · exact hback hset (List.mem_singleton.mp hmem).symm
    · exact hr (List.mem_singleton.mp hme).symm

/-- **A frame for a replicator.** -/
theorem sendToReplicator_iff {me origin r : Address} {c : MulticastConfig} (hr : r ≠ me) (len : ℕ)
    (letsOut : Address → Bool) (later : List (LaterAdd me)) :
    SentOnce me origin c
        ((MulticastGroupStatus.sendToReplicator len r).frames me letsOut later) ↔
      (ReplicatorFits len →
        (origin.isSet = true → r ≠ origin) ∧ (c.isActiveBridge r = true ∨ 0 < c.limit)) := by
  unfold MulticastGroupStatus.sendToReplicator
  by_cases hfits : ReplicatorFits len
  · rw [if_pos hfits, forall_prop_of_true hfits]
    exact replicator_iff hr
  · rw [if_neg hfits]
    exact iff_of_true (SentOnce.nil me origin c) fun h => absurd h hfits

/-! ### Every send -/

/-- The group that `operator[]` finds or makes. -/
def Multicaster.group (groups : Multicaster) (k : MulticastKey) : MulticastGroupStatus :=
  (groups.get k).getD default

/-- The members of a group that is reached, in any order, differ from each other and from the
node. -/
theorem order_distinct (me : Address) (calls : List MulticasterCall) (k : MulticastKey)
    (prng : ℕ → UInt64) :
    ((Multicaster.group ((Multicaster.machine me).runState .init calls) k).order prng).Nodup ∧
      me ∉ (Multicaster.group ((Multicaster.machine me).runState .init calls) k).order prng := by
  obtain ⟨hnodup, hself⟩ := Multicaster.members_distinct me calls k
  have hmembers : ((Multicaster.machine me).runState .init calls).members k
      = (Multicaster.group ((Multicaster.machine me).runState .init calls) k).members := by
    rw [Multicaster.members, Multicaster.group]
    cases ((Multicaster.machine me).runState .init calls).get k with
    | none => rfl
    | some gs => rfl
  rw [hmembers] at hnodup hself
  have hperm := MulticastGroupStatus.order_perm
    (Multicaster.group ((Multicaster.machine me).runState .init calls) k) prng
  exact ⟨hperm.nodup_iff.mpr hnodup, fun hme => hself (hperm.mem_iff.mp hme)⟩

/-- A network of which this node, `1`, is a replicator, and `2` an active bridge. -/
def bridgedConfig : MulticastConfig where
  specialists := [0x0000080000000001, 0x0000020000000002]
  multicastLimit := 32

end ZGalaxy
