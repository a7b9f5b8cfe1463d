/-
ZGalaxy/Subscriptions.lean

What a `MULTICAST_LIKE` packet subscribes its sender to.

Asking a gate leaves every gate as it was (`admits_gate`), so a turn of the loop decides by what the
networks said in the beginning (`decided_authorize`), and the loop keeps the whole tuples that a
carried decision keeps (`added_turns`).  A last tuple that is cut short subscribes to nothing.

Main result: `subscriptions_iff`.
-/
import ZGalaxy.MulticastLike

namespace ZGalaxy

open ByteList

/-! ### The gate -/

theorem Membership.isAllowedOnNetwork_gate (ecc : Ecc) (m : Membership) (nconf : NetworkConfig)
    (now : Int64) (other : Identity) :
    (m.multicastLikeGate now).2.isAllowedOnNetwork ecc nconf other
      = m.isAllowedOnNetwork ecc nconf other := by
  unfold Membership.multicastLikeGate
  split_ifs
  · rfl
  · rfl

/-- **Asking the gate** changes nothing it looks at. -/
theorem Network.admits_gate (ecc : Ecc) (n : Network) (now : Int64) (peer : Identity) :
    (n.gate ecc now peer).2.1.admits ecc peer = n.admits ecc peer := by
  unfold Network.gate
  split_ifs with hadmits
  · rw [hadmits]
    show (n.config.isSet && (n.config.isPublic || _)) = true
    unfold Network.admits at hadmits
    obtain ⟨hset, hallowed⟩ := Bool.and_eq_true_iff.mp hadmits
    rw [hset, Bool.true_and]
    rcases Bool.or_eq_true_iff.mp hallowed with hpublic | hmember
    · rw [hpublic, Bool.true_or]
    · rcases hget : n.memberships.get peer.address with - | m
      · rw [hget] at hmember
        cases hmember
      · rw [hget] at hmember
        rw [Bool.or_eq_true]
        refine Or.inr ?_
        show ((n.memberships.set _ _).get _).any _ = true
        rw [Hashtable.get_set, if_pos rfl, Network.membership, hget]
        exact (Membership.isAllowedOnNetwork_gate ecc m n.config now peer).trans hmember
  · rfl

theorem Network.gate_fst (ecc : Ecc) (n : Network) (now : Int64) (peer : Identity) :
    (n.gate ecc now peer).1 = n.admits ecc peer := by
  unfold Network.gate
  split_ifs with hadmits
  · exact hadmits.symm
  · exact (Bool.eq_false_iff.mpr hadmits).symm

/-! ### Reading a tuple -/

theorem uintAt_of_le {n i : ℕ} {p : Bytes} (h : i + n ≤ p.length) :
    Buffer.uintAt n p i = .ok (beNat (slice p i n)) := by
  rw [Buffer.uintAt, Buffer.field_ok.mpr ⟨h, rfl⟩]
  rfl

/-- The group of a whole tuple. -/
def groupOf (p : Bytes) (ptr : ℕ) : MulticastGroup where
  mac := BitVec.ofNat 48 (beNat (slice p (ptr + 8) 6))
  adi := UInt32.ofNat (beNat (slice p (ptr + 14) 4))

/-- What a whole tuple asks for. -/
def subscriptionAt (peer : Identity) (p : Bytes) (ptr : ℕ) : Subscription :=
  (nwidAt p ptr, groupOf p ptr, peer.address)

theorem groupAt_of_le {p : Bytes} {ptr : ℕ} (h : ptr + 18 ≤ p.length) :
    groupAt p ptr = .ok (groupOf p ptr) := by
  have hmac : Buffer.field p (ptr + 8) 6 = .ok (slice p (ptr + 8) 6) :=
    Buffer.field_ok.mpr ⟨by omega, rfl⟩
  unfold groupAt
  rw [hmac, uintAt_of_le (show ptr + 14 + 4 ≤ p.length by omega)]
  rfl

theorem groupAt_of_lt {p : Bytes} {ptr : ℕ} (h : p.length < ptr + 18) :
    ∃ e, groupAt p ptr = .error e := by
  have hadi : Buffer.uintAt 4 p (ptr + 14) = .error .outOfBounds := by
    rw [Buffer.uintAt, Buffer.field, if_pos (show p.length < ptr + 14 + 4 by omega)]
    rfl
  unfold groupAt
  rw [hadi]
  rcases Buffer.field p (ptr + 8) 6 with e | mac
  · exact ⟨e, rfl⟩
  · exact ⟨_, rfl⟩

section Loop

variable (RR : LikeEnvironment) (networks : Hashtable NetworkId Network) (peer : Identity)

/-- What decides about a network: the gate where the node has joined it, and the node itself. -/
def authority : Carried NetworkId where
  look nwid := (networks.get nwid).map (·.admits RR.ecc peer)
  other nwid := RR.amUpstream || RR.localControllerHasAuthorized nwid peer.address

variable {RR networks peer}

theorem allowed_authority_iff {nwid : NetworkId} :
    (authority RR networks peer).Allowed nwid ↔ Authorized RR networks peer nwid := by
  show (networks.get nwid).map (·.admits RR.ecc peer) = some true ∨ (_ || _) = true ↔ _
  rw [Bool.or_eq_true, Option.map_eq_some_iff, or_comm, or_assoc]
  refine or_congr_right (or_congr_right (exists_congr fun network => ?_))
  rw [Network.gate_fst]

theorem separate_authority_iff {m n : NetworkId} :
    (authority RR networks peer).Separate 0 m n ↔ OwnAuthority RR networks peer m n := by
  have hlook : (authority RR networks peer).look n ≠ none ↔ networks.get n ≠ none :=
    not_congr Option.map_eq_none_iff
  unfold Carried.Separate OwnAuthority
  rw [allowed_authority_iff, allowed_authority_iff, hlook]

/-! ### One turn -/

namespace LikeLoop

/-- The gates say what those of `networks` say. -/
def SameGates (RR : LikeEnvironment) (networks : Hashtable NetworkId Network) (peer : Identity)
    (s : LikeLoop) : Prop :=
  ∀ nwid, (s.networks.get nwid).map (·.admits RR.ecc peer)
    = (networks.get nwid).map (·.admits RR.ecc peer)

/-- The loop `s` with the decision `d`, up to what the networks send and remember. -/
structure Decided (RR : LikeEnvironment) (networks : Hashtable NetworkId Network) (peer : Identity)
    (s : LikeLoop) (d : Bool) (s' : LikeLoop) : Prop where
  authorized : s'.authorized = d
  lastNwid : s'.lastNwid = s.lastNwid
  added : s'.added = s.added
  gates : s'.SameGates RR networks peer

variable {s : LikeLoop}

theorem decided_askGate (h : s.SameGates RR networks peer) (nwid : NetworkId) :
    Decided RR networks peer s (((authority RR networks peer).look nwid).getD s.authorized)
      (s.askGate RR peer nwid) := by
  have hlook : (authority RR networks peer).look nwid
      = (s.networks.get nwid).map (·.admits RR.ecc peer) := (h nwid).symm
  unfold askGate
  rw [hlook]
  rcases hget : s.networks.get nwid with - | network
  · exact ⟨rfl, rfl, rfl, h⟩
  · refine ⟨Network.gate_fst RR.ecc network RR.now peer, rfl, ?_, fun nwid' => ?_⟩
    · -- a network sends, but it adds to no group
      show (s.calls ++ _).filterMap LikeCall.subscription = s.calls.filterMap _
      rw [List.filterMap_append, List.filterMap_map]
      refine (congrArg _ (List.filterMap_eq_nil_iff.mpr fun _ _ => ?_)).trans (List.append_nil _)
      rfl
    · show ((s.networks.set nwid _).get nwid').map _ = _
      rw [Hashtable.get_set, ← h nwid']
      split_ifs with heq
      · rw [heq, hget]
        exact congrArg some (network.admits_gate RR.ecc RR.now peer)
      · rfl

/-- **The decision about a network** is the carried one. -/
theorem decided_authorize (h : s.SameGates RR networks peer) (nwid : NetworkId) :
    Decided RR networks peer { s with lastNwid := nwid }
      ((authority RR networks peer).next s.lastNwid s.authorized nwid)
      (s.authorize RR peer nwid) := by
  unfold authorize
  split_ifs with hne
  · rw [Carried.next_of_ne hne]
    have hgate := decided_askGate (s := { s with lastNwid := nwid }) h nwid
    dsimp only at hgate ⊢
    split_ifs with hdenied
    · rw [hgate.authorized, Bool.not_eq_true'] at hdenied
      rw [hdenied]
      exact ⟨rfl, hgate.lastNwid, hgate.added, hgate.gates⟩
    · rw [hgate.authorized, Bool.not_eq_true', Bool.not_eq_false] at hdenied
      rw [hdenied, Bool.true_or]
      exact ⟨hgate.authorized.trans hdenied, hgate.lastNwid, hgate.added, hgate.gates⟩
  · obtain rfl := not_not.mp hne
    rw [Carried.next_self]
    exact ⟨rfl, rfl, rfl, h⟩

/-! ### The loop -/

/-- A turn at a whole tuple. -/
structure Turned (RR : LikeEnvironment) (networks : Hashtable NetworkId Network) (peer : Identity)
    (s : LikeLoop) (x : Subscription) (r : LikeLoop × Bool) : Prop where
  ok : r.2 = true
  authorized : r.1.authorized = (authority RR networks peer).next s.lastNwid s.authorized x.1
  lastNwid : r.1.lastNwid = x.1
  added : r.1.added = s.added ++
    if (authority RR networks peer).next s.lastNwid s.authorized x.1 then [x] else []
  gates : r.1.SameGates RR networks peer

/-- **A whole tuple** is added where the carried decision allows its network. -/
theorem turned_whole (h : s.SameGates RR networks peer) {p : Bytes} {ptr : ℕ}
    (hwhole : ptr + 18 ≤ p.length) :
    Turned RR networks peer s (subscriptionAt peer p ptr) (s.turn RR peer p ptr) := by
  have hd := decided_authorize h (nwidAt p ptr)
  unfold turn
  rw [uintAt_of_le (show ptr + 8 ≤ p.length by omega)]
  dsimp only
  rw [groupAt_of_le hwhole]
  split_ifs with hgranted
  · have hnext : (authority RR networks peer).next s.lastNwid s.authorized
        (subscriptionAt peer p ptr).1 = true := hd.authorized.symm.trans hgranted
    refine ⟨rfl, hd.authorized, hd.lastNwid, ?_, hd.gates⟩
    rw [if_pos hnext, ← show (s.authorize RR peer (nwidAt p ptr)).added = s.added from hd.added]
    exact List.filterMap_append
  · have hnext : (authority RR networks peer).next s.lastNwid s.authorized
        (subscriptionAt peer p ptr).1 = false :=
      hd.authorized.symm.trans (Bool.eq_false_iff.mpr hgranted)
    refine ⟨rfl, hd.authorized, hd.lastNwid, ?_, hd.gates⟩
    rw [if_neg (Bool.eq_false_iff.mp hnext), List.append_nil]
    exact hd.added

/-- A tuple that is cut short adds to no group. -/
theorem added_turn_cut (h : s.SameGates RR networks peer) {p : Bytes} {ptr : ℕ}
    (hcut : p.length < ptr + 18) : (s.turn RR peer p ptr).1.added = s.added := by
  unfold turn
  rcases Buffer.uintAt 8 p ptr with e | nwid
  · rfl
  · obtain ⟨e, he⟩ := groupAt_of_lt hcut
    have hadded := (decided_authorize h (BitVec.ofNat 64 nwid)).added
    dsimp only
    rw [he]
    split_ifs
    · exact hadded
    · exact hadded

/-- **The loop** keeps the whole tuples that the carried decision keeps. -/
theorem added_turns {p : Bytes} {ptrs : List ℕ} (h : s.SameGates RR networks peer)
    (hapart : ptrs.Pairwise fun a b => a + 18 ≤ b) (hsize : ∀ ptr ∈ ptrs, ptr < p.length) :
    (turns RR peer p ptrs s).1.added = s.added ++
      (authority RR networks peer).carried s.lastNwid s.authorized
        ((ptrs.filter fun ptr => ptr + 18 ≤ p.length).map (subscriptionAt peer p)) := by
  induction ptrs generalizing s with
  | nil => exact (List.append_nil _).symm
  | cons ptr ptrs ih =>
      obtain ⟨hnext, hrest⟩ := List.pairwise_cons.mp hapart
      rw [turns]
      by_cases hwhole : ptr + 18 ≤ p.length
      · have hturn := turned_whole h hwhole
        have hsub : ∀ x ∈ ptrs, x < p.length := fun x hx => hsize x (List.mem_cons_of_mem ptr hx)
        rw [if_pos hturn.ok, ih hturn.gates hrest hsub, hturn.added, hturn.authorized,
          hturn.lastNwid,
          List.filter_cons_of_pos (p := fun ptr : ℕ => ptr + 18 ≤ p.length) (decide_eq_true hwhole),
          List.map_cons, Carried.carried_cons, List.append_assoc]
      · -- nothing comes after a tuple that is cut short
        obtain rfl : ptrs = [] := by
          refine List.eq_nil_iff_forall_not_mem.mpr fun x hx => hwhole ?_
          exact (hnext x hx).trans (hsize x (List.mem_cons_of_mem ptr hx)).le
        rw [List.filter_cons_of_neg (p := fun ptr : ℕ => ptr + 18 ≤ p.length)
          (fun htrue => hwhole (of_decide_eq_true htrue))]
        have hcut := added_turn_cut h (not_le.mp hwhole)
        have hsame : (if (s.turn RR peer p ptr).2 = true then
            turns RR peer p [] (s.turn RR peer p ptr).1 else s.turn RR peer p ptr).1
              = (s.turn RR peer p ptr).1 := by
          split_ifs
          · rfl
          · rfl
        rw [hsame, hcut]
        exact (List.append_nil _).symm

end LikeLoop

/-! ### The tuples of a packet -/

theorem mem_tuplePtrs {size ptr : ℕ} :
    ptr ∈ tuplePtrs size ↔ ∃ i, ptr = protoMinPacketLength + i * 18 ∧ ptr < size := by
  unfold tuplePtrs
  rw [List.mem_map]
  constructor
  · rintro ⟨i, hi, rfl⟩
    have := List.mem_range.mp hi
    exact ⟨i, rfl, by omega⟩
  · rintro ⟨i, rfl, hlt⟩
    exact ⟨i, List.mem_range.mpr (by omega), rfl⟩

theorem pairwise_tuplePtrs (size : ℕ) : (tuplePtrs size).Pairwise fun a b => a + 18 ≤ b := by
  unfold tuplePtrs
  rw [List.pairwise_map]
  exact List.pairwise_lt_range.imp fun hlt => by omega

/-- The loop goes over the whole tuples with the carried decision. -/
theorem subscribed_eq (RR : LikeEnvironment) (networks : Hashtable NetworkId Network)
    (peer : Identity) (p : Bytes) :
    subscribed RR networks peer p
      = (authority RR networks peer).carried 0 false ((wholePtrs p).map (subscriptionAt peer p)) :=
  LikeLoop.added_turns (s := ⟨false, 0, networks, []⟩) (fun _ => rfl)
    (pairwise_tuplePtrs p.length) fun _ hptr => (mem_tuplePtrs.mp hptr).choose_spec.2

/-! ### A tuple alone -/

/-- A field of a tuple is the same in the packet that has only this tuple. -/
theorem slice_alone {p : Bytes} {ptr i n : ℕ} (h : i + n ≤ 18)
    (hlen : protoMinPacketLength ≤ p.length) :
    slice (p.take protoMinPacketLength ++ slice p ptr 18) (protoMinPacketLength + i) n
      = slice p (ptr + i) n := by
  have hhead : (p.take protoMinPacketLength).length = protoMinPacketLength :=
    List.length_take_of_le hlen
  rw [← slice_slice p ptr 18 i n h, slice, List.drop_append, hhead, Nat.add_sub_cancel_left,
    List.drop_eq_nil_of_le (by omega), List.nil_append]
  rfl

theorem subscriptionAt_alone (peer : Identity) {p : Bytes} (ptr : ℕ)
    (hlen : protoMinPacketLength ≤ p.length) :
    subscriptionAt peer (p.take protoMinPacketLength ++ slice p ptr 18) protoMinPacketLength
      = subscriptionAt peer p ptr := by
  unfold subscriptionAt nwidAt groupOf
  rw [slice_alone (by decide) hlen, slice_alone (by decide) hlen]
  have hnwid : slice (p.take protoMinPacketLength ++ slice p ptr 18) protoMinPacketLength 8
      = slice p ptr 8 := slice_alone (by decide : 0 + 8 ≤ 18) hlen
  rw [hnwid]

/-- Of a packet with one tuple the loop sees that tuple, when it is whole. -/
theorem wholePtrs_alone {p : Bytes} {ptr : ℕ} (h : ptr ∈ tuplePtrs p.length) :
    wholePtrs (p.take protoMinPacketLength ++ slice p ptr 18)
      = if ptr + 18 ≤ p.length then [protoMinPacketLength] else [] := by
  obtain ⟨i, rfl, hlt⟩ := mem_tuplePtrs.mp h
  have hlen : (p.take protoMinPacketLength ++ slice p (protoMinPacketLength + i * 18) 18).length
      = protoMinPacketLength + min 18 (p.length - (protoMinPacketLength + i * 18)) := by
    rw [List.length_append, slice, List.length_take, List.length_take, List.length_drop]
    omega
  have hone : tuplePtrs (protoMinPacketLength
      + min 18 (p.length - (protoMinPacketLength + i * 18))) = [protoMinPacketLength] := by
    unfold tuplePtrs
    rw [show ∀ n, 0 < n → n ≤ 18 →
      (protoMinPacketLength + n - protoMinPacketLength + 17) / 18 = 1 by
      omega]
    · rfl
    · omega
    · omega
  unfold wholePtrs
  rw [hlen, hone, List.filter_singleton]
  by_cases hwhole : protoMinPacketLength + i * 18 + 18 ≤ p.length
  · rw [if_pos hwhole, decide_eq_true (by omega)]
    rfl
  · rw [if_neg hwhole, decide_eq_false (by omega)]
    rfl

theorem flatMap_filter {α β : Type*} (P : α → Bool) (f : α → List β) (l : List α) :
    (l.filter P).flatMap f = l.flatMap fun x => if P x then f x else [] := by
  induction l with
  | nil => rfl
  | cons x l ih =>
      rw [List.filter_cons, List.flatMap_cons, ← ih]
      split_ifs
      · rfl
      · rfl

/-- **A tuple alone** is kept when its network is allowed in the beginning. -/
theorem subscribed_alone (RR : LikeEnvironment) (networks : Hashtable NetworkId Network)
    (peer : Identity) (p : Bytes) :
    ((tuples p).flatMap fun t =>
        subscribed RR networks peer (p.take protoMinPacketLength ++ t))
      = (authority RR networks peer).kept 0 ((wholePtrs p).map (subscriptionAt peer p)) := by
  rw [Carried.kept_eq_flatMap, List.flatMap_map, wholePtrs, flatMap_filter, tuples,
    List.flatMap_map]
  refine List.flatMap_congr fun ptr hptr => ?_
  have hlen : protoMinPacketLength ≤ p.length := by
    obtain ⟨i, rfl, hlt⟩ := mem_tuplePtrs.mp hptr
    omega
  rw [subscribed_eq, wholePtrs_alone hptr]
  by_cases hwhole : ptr + 18 ≤ p.length
  · rw [if_pos hwhole, if_pos (decide_eq_true hwhole), List.map_singleton,
      subscriptionAt_alone peer ptr hlen]
  · rw [if_neg hwhole, if_neg (fun htrue => hwhole (of_decide_eq_true htrue))]
    rfl

end Loop

/-! ### When no tuple depends on another -/

/-- **Subscriptions for each network**: the peer subscribes only where it is authorized, and as if
every tuple were alone in the packet, exactly when no tuple takes over the decision of the one
before it. -/
theorem subscriptions_iff (RR : LikeEnvironment) (networks : Hashtable NetworkId Network)
    (peer : Identity) (p : Bytes) :
    ((∀ x ∈ subscribed RR networks peer p,
        x.2.2 = peer.address ∧ Authorized RR networks peer x.1) ∧
      subscribed RR networks peer p = (tuples p).flatMap fun t =>
        subscribed RR networks peer (p.take protoMinPacketLength ++ t)) ↔
    ((wholePtrs p).map (nwidAt p)).IsChain (OwnAuthority RR networks peer) := by
  have hchain : ((wholePtrs p).map (nwidAt p)).IsChain (OwnAuthority RR networks peer) ↔
      (authority RR networks peer).carried 0 false ((wholePtrs p).map (subscriptionAt peer p))
        = (authority RR networks peer).kept 0 ((wholePtrs p).map (subscriptionAt peer p)) := by
    rw [Carried.carried_eq_kept_iff, List.map_map]
    exact List.IsChain.iff fun _ _ => separate_authority_iff.symm
  rw [subscribed_alone, hchain, subscribed_eq]
  refine ⟨And.right, fun heq => ⟨fun x hx => ?_, heq⟩⟩
  rw [heq] at hx
  obtain ⟨hmem, halone⟩ := List.mem_filter.mp hx
  obtain ⟨ptr, -, rfl⟩ := List.mem_map.mp hmem
  exact ⟨rfl, allowed_authority_iff.mp (Carried.alone_iff.mp halone).2⟩

/-- A node that is no upstream and no controller. -/
def plainNode : LikeEnvironment :=
  ⟨Network.trustingEcc, 1000, false, Hashtable.empty 64 Hashtable.buckets_pos⟩

/-- It has joined one network, a public one. -/
def joinedPublic : Hashtable NetworkId Network :=
  (Hashtable.empty 64 Hashtable.buckets_pos).set 1 { Network.initial 1 with
    config := { NetworkConfig.none with networkId := 1, type := 1 } }

/-- **Subscribed to a network that was never joined**: the tuple before it was of the public one. -/
theorem subscribed_elsewhere : ¬ ∀ (RR : LikeEnvironment) (networks : Hashtable NetworkId Network)
    (peer : Identity) (p : Bytes),
    (∀ x ∈ subscribed RR networks peer p,
      x.2.2 = peer.address ∧ Authorized RR networks peer x.1) ∧
    subscribed RR networks peer p = (tuples p).flatMap fun t =>
      subscribed RR networks peer (p.take protoMinPacketLength ++ t) := by
  intro h
  have hadded : ((2, ⟨0, 0⟩, 5) : Subscription) ∈ subscribed plainNode joinedPublic ⟨5, []⟩
      (List.replicate 28 0 ++ beBytes 8 1 ++ List.replicate 10 0 ++ beBytes 8 2 ++
        List.replicate 10 0) := by
    decide +kernel
  rcases ((h _ _ _ _).1 _ hadded).2 with hupstream | hcontroller | ⟨network, hget, -⟩
  · cases hupstream
  · cases hcontroller
  · have hnone : joinedPublic.get 2 = none := by
      unfold joinedPublic
      rw [Hashtable.get_set, if_neg (by decide), Hashtable.get_empty]
    cases hnone.symm.trans hget

end ZGalaxy
