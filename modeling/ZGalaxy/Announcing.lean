/-
ZGalaxy/Announcing.lean

Announcing the multicast groups of a network to a peer.

The groups go out as tuples of 18 bytes, each a network and a group, in as many `MULTICAST_LIKE`
packets as it takes: a packet with no room for 24 bytes more is sent before the next tuple, and the
last one is sent if it has any tuple.  The receiver walks the payload in strides of the same length.

Main result: `announcement`, that the packets that are sent fit their buffers and arrive with the
groups in their order, each once, none of them cut short and no packet without one.
-/
import ZGalaxy.Composing
import ZGalaxy.Subscriptions

namespace ZGalaxy

open ByteList

/-- `Packet::VERB_MULTICAST_LIKE`. -/
def verbMulticastLike : UInt8 := 0x09

/-- `_announceMulticastGroupsTo`, between two groups. -/
structure Announcing where
  outp : Bytes
  sent : List Bytes

section Announce

-- what compresses, the packet ids and what is left of the MACs, and who announces to whom
variable (lz4 : Bytes → Bytes) (iv mac : ℕ → BitVec 64) (me peer : Address) (id : NetworkId)

/-- The packet that is filled after `n` others. -/
def likePacket (n : ℕ) : Bytes := Packet.reset (iv n) (mac n) peer me verbMulticastLike

namespace Announcing

/-- The packet is sent, and used again. -/
def flush (s : Announcing) : Announcing where
  outp := likePacket iv mac me peer (s.sent.length + 1)
  sent := s.sent ++ [Packet.compress lz4 s.outp]

/-- One turn of the loop. -/
def turn (s : Announcing) (mg : MulticastGroup) : Except ZTException Announcing := do
  let s := if protoMaxPacketLength ≤ s.outp.length + 24 then s.flush lz4 iv mac me peer else s
  let outp ← Packet.append s.outp (beBytes 8 id.toNat)
  let outp ← Packet.append outp (beBytes 6 mg.mac.toNat)
  let outp ← Packet.append outp (beBytes 4 mg.adi.toNat)
  pure { s with outp := outp }

/-- The loop. -/
def turns : Announcing → List MulticastGroup → Except ZTException Announcing
  | s, [] => pure s
  | s, mg :: mgs => do
      let s ← s.turn lz4 iv mac me peer id mg
      turns s mgs

end Announcing

/-- `Network::_announceMulticastGroupsTo`: the packets that are sent. -/
def announceMulticastGroupsTo (allMulticastGroups : List MulticastGroup) :
    Except ZTException (List Bytes) := do
  let s ← Announcing.turns lz4 iv mac me peer id ⟨likePacket iv mac me peer 0,
    []⟩ allMulticastGroups
  pure (if protoMinPacketLength < s.outp.length then s.sent ++ [Packet.compress lz4 s.outp]
    else s.sent)

end Announce

/-- The tuple of a group. -/
def likeTuple (id : NetworkId) (mg : MulticastGroup) : Bytes :=
  beBytes 8 id.toNat ++ (beBytes 6 mg.mac.toNat ++ beBytes 4 mg.adi.toNat)

/-- The packet `d` has the groups `row` of a network, each in a tuple of its own. -/
structure Carries (id : NetworkId) (row : List MulticastGroup) (d : Bytes) : Prop where
  verb : Packet.verb d = verbMulticastLike
  tuples : tuples d = row.map (likeTuple id)
  /-- the loop of the receiver comes to its end -/
  walked : ∀ RR networks sender, (doMulticastLike RR networks sender d).2 = true
  /-- a sender that is allowed to is added to these groups, and to no others -/
  subscribed : ∀ RR networks sender, id ≠ 0 → Authorized RR networks sender id →
    subscribed RR networks sender d = row.map fun mg => (id, mg, sender.address)

/-- A packet announces the groups `row`: it fits, has at least one of them, and however it arrives
it is unpacked to a packet that has them. -/
structure Announces {C : Crypto} (ch : Channel C) (id : NetworkId) (row : List MulticastGroup)
    (q : Bytes) : Prop where
  fits : q.length ≤ protoMaxPacketLength
  nonempty : row ≠ []
  arrives : ∀ r, Packet.Same q r →
    ∃ d, Packet.uncompress ch.lz4Decompress r = some d ∧ Carries id row d

/-! ### Reading the tuples -/

section Reading

variable {id : NetworkId} {row : List MulticastGroup} {d : Bytes}

@[simp] theorem length_likeTuple (id : NetworkId) (mg : MulticastGroup) :
    (likeTuple id mg).length = 18 := by
  unfold likeTuple
  simp only [List.length_append, length_beBytes]

theorem length_likeTuples (id : NetworkId) (row : List MulticastGroup) :
    (row.flatMap (likeTuple id)).length = row.length * 18 := by
  induction row with
  | nil => rfl
  | cons mg row ih =>
      rw [List.flatMap_cons, List.length_append, ih, length_likeTuple, List.length_cons]
      omega

/-- The tuples of a payload of whole ones are found at their places. -/
theorem slice_likeTuples
    (hpayload : d.drop protoMinPacketLength = row.flatMap (likeTuple id)) {i : ℕ}
    (hi : i < row.length) :
    slice d (protoMinPacketLength + i * 18) 18 = likeTuple id row[i] := by
  have hslice : slice d (protoMinPacketLength + i * 18) 18 =
      ((d.drop protoMinPacketLength).drop (i * 18)).take 18 := by
    rw [List.drop_drop]
    rfl
  have hsplit : row.flatMap (likeTuple id) = (row.take i).flatMap (likeTuple id) ++
      (likeTuple id row[i] ++ (row.drop (i + 1)).flatMap (likeTuple id)) := by
    rw [← List.flatMap_cons, ← List.drop_eq_getElem_cons hi, ← List.flatMap_append,
      List.take_append_drop]
  have hlength : ((row.take i).flatMap (likeTuple id)).length = i * 18 := by
    rw [length_likeTuples, List.length_take_of_le hi.le]
  rw [hslice, hpayload, hsplit, List.drop_left' hlength]
  exact List.take_left' (length_likeTuple id _)

/-- What the fields of a tuple say. -/
theorem subscriptionAt_likeTuple {sender : Identity} {ptr : ℕ} {mg : MulticastGroup}
    (h : slice d ptr 18 = likeTuple id mg) :
    subscriptionAt sender d ptr = (id, mg, sender.address) := by
  have hnwid : slice d ptr 8 = beBytes 8 id.toNat := by
    have hinner := slice_slice d ptr 18 0 8 (by omega)
    rw [h] at hinner
    exact hinner.symm.trans (slice_middle (a := []) rfl (length_beBytes 8 _))
  have hmac : slice d (ptr + 8) 6 = beBytes 6 mg.mac.toNat := by
    have hinner := slice_slice d ptr 18 8 6 (by omega)
    rw [h] at hinner
    exact hinner.symm.trans (slice_middle (length_beBytes 8 _) (length_beBytes 6 _))
  have hadi : slice d (ptr + 14) 4 = beBytes 4 mg.adi.toNat := by
    have hinner := slice_slice d ptr 18 14 4 (by omega)
    rw [h] at hinner
    refine hinner.symm.trans ?_
    have hsplit : likeTuple id mg = (beBytes 8 id.toNat ++ beBytes 6 mg.mac.toNat) ++
        (beBytes 4 mg.adi.toNat ++ []) := by
      rw [likeTuple, List.append_nil, List.append_assoc]
    rw [hsplit]
    refine slice_middle ?_ (length_beBytes 4 _)
    simp
  have hid := id.isLt
  have hm := mg.mac.isLt
  have ha := mg.adi.toNat_lt
  have hidBack : BitVec.ofNat 64 (id.toNat % 256 ^ 8) = id := by
    rw [Nat.mod_eq_of_lt (by omega), BitVec.ofNat_toNat, BitVec.setWidth_eq]
  have hmacBack : BitVec.ofNat 48 (mg.mac.toNat % 256 ^ 6) = mg.mac := by
    rw [Nat.mod_eq_of_lt (by omega), BitVec.ofNat_toNat, BitVec.setWidth_eq]
  have hadiBack : UInt32.ofNat (mg.adi.toNat % 256 ^ 4) = mg.adi := by
    rw [Nat.mod_eq_of_lt (by omega), UInt32.ofNat_toNat]
  unfold subscriptionAt nwidAt groupOf
  rw [hnwid, hmac, hadi, beNat_beBytes, beNat_beBytes, beNat_beBytes, hidBack, hmacBack, hadiBack]

/-- The places of whole tuples. -/
theorem tuplePtrs_whole (n : ℕ) : tuplePtrs (protoMinPacketLength + n * 18) =
    (List.range n).map fun i => protoMinPacketLength + i * 18 := by
  unfold tuplePtrs
  rw [show (protoMinPacketLength + n * 18 - protoMinPacketLength + 17) / 18 = n by omega]

/-- A loop over places where the tuples are whole comes to its end. -/
theorem LikeLoop.turns_whole {RR : LikeEnvironment} {networks : Hashtable NetworkId Network}
    {sender : Identity} {s : LikeLoop} (h : s.SameGates RR networks sender) {ptrs : List ℕ}
    (hwhole : ∀ ptr ∈ ptrs, ptr + 18 ≤ d.length) :
    (LikeLoop.turns RR sender d ptrs s).2 = true := by
  induction ptrs generalizing s with
  | nil => rfl
  | cons ptr ptrs ih =>
      have hturn := LikeLoop.turned_whole h (hwhole ptr List.mem_cons_self)
      rw [LikeLoop.turns, if_pos hturn.ok]
      exact ih hturn.gates fun x hx => hwhole x (List.mem_cons_of_mem ptr hx)

/-- A decision for the first of values with one key is the decision for all of them. -/
theorem Carried.carried_same {K V : Type*} [DecidableEq K] {R : Carried K} {k₀ k : K}
    (h : R.alone k₀ k = true) {xs : List (K × V)} (hxs : ∀ x ∈ xs, x.1 = k) :
    R.carried k₀ false xs = xs := by
  have hafter : ∀ {xs : List (K × V)}, (∀ x ∈ xs, x.1 = k) → R.carried k true xs = xs := by
    intro xs hxs
    induction xs with
    | nil => rfl
    | cons x xs ih =>
        have hx := hxs x List.mem_cons_self
        rw [Carried.carried, hx, Carried.next_self, if_pos rfl,
          ih fun y hy => hxs y (List.mem_cons_of_mem x hy)]
  rcases xs with - | ⟨x, xs⟩
  · rfl
  · have hx := hxs x List.mem_cons_self
    have hnext : R.next k₀ false k = true := h
    rw [Carried.carried, hx, hnext, if_pos rfl,
      hafter fun y hy => hxs y (List.mem_cons_of_mem x hy)]

/-- **A payload of whole tuples** is walked tuple by tuple. -/
theorem carries_of_payload (hverb : Packet.verb d = verbMulticastLike)
    (hlength : protoMinPacketLength ≤ d.length)
    (hpayload : d.drop protoMinPacketLength = row.flatMap (likeTuple id)) : Carries id row d := by
  have hsize : d.length = protoMinPacketLength + row.length * 18 := by
    have hdrop := congrArg List.length hpayload
    rw [List.length_drop, length_likeTuples] at hdrop
    omega
  have hptrs : tuplePtrs d.length =
      (List.range row.length).map fun i => protoMinPacketLength + i * 18 := by
    rw [hsize, tuplePtrs_whole]
  have hwhole : ∀ ptr ∈ tuplePtrs d.length, ptr + 18 ≤ d.length := by
    intro ptr hptr
    rw [hptrs] at hptr
    obtain ⟨i, hi, rfl⟩ := List.mem_map.mp hptr
    have := List.mem_range.mp hi
    omega
  -- a function of the places is a function of the groups
  have hmap : ∀ {β : Type} (f : ℕ → β) (g : MulticastGroup → β),
      (∀ ptr mg, slice d ptr 18 = likeTuple id mg → f ptr = g mg) →
        (tuplePtrs d.length).map f = row.map g := by
    intro β f g hfg
    rw [hptrs, List.map_map]
    refine List.ext_getElem (by simp) fun i hi hi' => ?_
    rw [List.getElem_map, List.getElem_map, List.getElem_range]
    exact hfg _ _ (slice_likeTuples hpayload (by simpa using hi'))
  refine ⟨hverb, hmap _ _ fun ptr mg h => h, ?_, ?_⟩
  · intro RR networks sender
    exact LikeLoop.turns_whole (s := ⟨false, 0, networks, []⟩) (fun _ => rfl) hwhole
  · intro RR networks sender hid hauthorized
    have halone : (authority RR networks sender).alone 0 id = true :=
      Carried.alone_iff.mpr ⟨hid, allowed_authority_iff.mpr hauthorized⟩
    have hall : wholePtrs d = tuplePtrs d.length := by
      refine List.filter_eq_self.mpr fun ptr hptr => decide_eq_true (hwhole ptr hptr)
    rw [subscribed_eq, hall, hmap (subscriptionAt sender d) (fun mg => (id, mg, sender.address))
      fun ptr mg h => subscriptionAt_likeTuple h]
    refine Carried.carried_same halone fun x hx => ?_
    obtain ⟨mg, -, rfl⟩ := List.mem_map.mp hx
    rfl

end Reading

/-! ### Filling the packets -/

section Filling

variable (lz4 : Bytes → Bytes) {iv mac : ℕ → BitVec 64} {me peer : Address} {id : NetworkId}

/-- A packet with the tuples of `row`. -/
def FilledWith (iv mac : ℕ → BitVec 64) (me peer : Address) (id : NetworkId)
    (row : List MulticastGroup) (p : Bytes) : Prop :=
  (∃ n, p = likePacket iv mac me peer n ++ row.flatMap (likeTuple id)) ∧
    p.length + 24 ≤ protoMaxPacketLength

/-- A packet that was sent had the tuples of `row`, at least one. -/
def SentWith (lz4 : Bytes → Bytes) (iv mac : ℕ → BitVec 64) (me peer : Address) (id : NetworkId)
    (q : Bytes) (row : List MulticastGroup) : Prop :=
  row ≠ [] ∧ ∃ p, q = Packet.compress lz4 p ∧ FilledWith iv mac me peer id row p

theorem FilledWith.length {row : List MulticastGroup} {p : Bytes}
    (h : FilledWith iv mac me peer id row p) :
    p.length = protoMinPacketLength + row.length * 18 := by
  obtain ⟨⟨n, rfl⟩, -⟩ := h
  rw [List.length_append, length_likeTuples, likePacket, Packet.length_reset]

theorem filledWith_nil (id : NetworkId) (n : ℕ) :
    FilledWith iv mac me peer id [] (likePacket iv mac me peer n) := by
  refine ⟨⟨n, (List.append_nil _).symm⟩, ?_⟩
  rw [likePacket, Packet.length_reset]
  decide

/-- **One tuple more** fits a packet that is not due to be sent. -/
theorem FilledWith.append {row : List MulticastGroup} {p : Bytes}
    (h : FilledWith iv mac me peer id row p) (hroom : p.length + 24 < protoMaxPacketLength)
    (mg : MulticastGroup) :
    FilledWith iv mac me peer id (row ++ [mg]) (p ++ likeTuple id mg) := by
  have hlength := h.length
  obtain ⟨⟨n, rfl⟩, -⟩ := h
  refine ⟨⟨n, ?_⟩, ?_⟩
  · rw [List.flatMap_append, List.flatMap_singleton, List.append_assoc]
  · -- a packet is due when it has 10000 bytes, which a packet of whole tuples does not overstep
    have hmin : protoMinPacketLength = 28 := rfl
    have hmax : protoMaxPacketLength = 10024 := rfl
    have hmore := length_likeTuple id mg
    refine (Nat.add_right_cancel_iff.mpr List.length_append).le.trans ?_
    omega

/-- What a turn appends. -/
theorem append_likeTuple (id : NetworkId) {p : Bytes} (h : p.length + 24 < protoMaxPacketLength)
    (mg : MulticastGroup) :
    (do let outp ← Packet.append p (beBytes 8 id.toNat)
        let outp ← Packet.append outp (beBytes 6 mg.mac.toNat)
        Packet.append outp (beBytes 4 mg.adi.toNat)) = .ok (p ++ likeTuple id mg) := by
  refine Buffer.bind_ok.mpr ⟨_, Packet.append_of_le ?_, Buffer.bind_ok.mpr
    ⟨_, Packet.append_of_le ?_, (Packet.append_of_le ?_).trans ?_⟩⟩
  · rw [length_beBytes]
    omega
  · rw [List.length_append, length_beBytes, length_beBytes]
    omega
  · rw [List.length_append, List.length_append, length_beBytes, length_beBytes, length_beBytes]
    omega
  · rw [likeTuple, List.append_assoc, List.append_assoc]

/-- **One turn** of the loop: the packet has one tuple more, or it was sent and the next has the
tuple. -/
theorem Announcing.turn_ok {s : Announcing} {row : List MulticastGroup}
    (h : FilledWith iv mac me peer id row s.outp) (mg : MulticastGroup) :
    ∃ s' : Announcing, s.turn lz4 iv mac me peer id mg = .ok s' ∧
      (FilledWith iv mac me peer id (row ++ [mg]) s'.outp ∧ s'.sent = s.sent ∨
        FilledWith iv mac me peer id [mg] s'.outp ∧
          ∃ q, s'.sent = s.sent ++ [q] ∧ SentWith lz4 iv mac me peer id q row) := by
  have hturn : ∀ t : Announcing, t.outp.length + 24 < protoMaxPacketLength →
      (if protoMaxPacketLength ≤ s.outp.length + 24 then s.flush lz4 iv mac me peer else s) = t →
        s.turn lz4 iv mac me peer id mg = .ok { t with outp := t.outp ++ likeTuple id mg } := by
    intro t hroom ht
    rw [Announcing.turn, ht]
    obtain ⟨p, hp, happend⟩ := Buffer.bind_ok.mp (append_likeTuple id hroom mg)
    obtain ⟨p', hp', happend⟩ := Buffer.bind_ok.mp happend
    exact Buffer.bind_ok.mpr ⟨p, hp, Buffer.bind_ok.mpr ⟨p', hp', Buffer.bind_ok.mpr
      ⟨_, happend, rfl⟩⟩⟩
  by_cases hdue : protoMaxPacketLength ≤ s.outp.length + 24
  · refine ⟨_, hturn _ ?_ (if_pos hdue), Or.inr ⟨?_, _, rfl, ?_, s.outp, rfl, h⟩⟩
    · show (likePacket iv mac me peer (s.sent.length + 1)).length + 24 < _
      rw [likePacket, Packet.length_reset]
      decide
    · refine (filledWith_nil id (s.sent.length + 1)).append ?_ mg
      rw [likePacket, Packet.length_reset]
      decide
    · rintro rfl
      have hlength := h.length
      rw [hlength] at hdue
      exact absurd hdue (by decide)
  · exact ⟨_, hturn s (not_le.mp hdue) (if_neg hdue), Or.inl ⟨h.append (not_le.mp hdue) mg, rfl⟩⟩

/-- **The loop** sends the groups in their order, and keeps the last ones in the packet. -/
theorem Announcing.turns_ok {s : Announcing} {row : List MulticastGroup}
    (h : FilledWith iv mac me peer id row s.outp) (mgs : List MulticastGroup) :
    ∃ (s' : Announcing) (row' : List MulticastGroup) (qs : List Bytes)
      (rows : List (List MulticastGroup)), s.turns lz4 iv mac me peer id mgs = .ok s' ∧
        FilledWith iv mac me peer id row' s'.outp ∧ s'.sent = s.sent ++ qs ∧
          List.Forall₂ (SentWith lz4 iv mac me peer id) qs rows ∧
            rows.flatten ++ row' = row ++ mgs := by
  induction mgs generalizing s row with
  | nil => exact ⟨s, row, [], [], rfl, h, (List.append_nil _).symm, List.Forall₂.nil,
      (List.append_nil _).symm⟩
  | cons mg mgs ih =>
      obtain ⟨t, hturn, ⟨hfilled, hsent⟩ | ⟨hfilled, q, hsent, hq⟩⟩ := s.turn_ok lz4 h mg
      · obtain ⟨s', row', qs, rows, hturns, hfilled', hsent', hrows, hflat⟩ := ih hfilled
        refine ⟨s', row', qs, rows, Buffer.bind_ok.mpr ⟨t, hturn, hturns⟩, hfilled', ?_, hrows, ?_⟩
        · rw [hsent', hsent]
        · rw [hflat, List.append_assoc, List.singleton_append]
      · obtain ⟨s', row', qs, rows, hturns, hfilled', hsent', hrows, hflat⟩ := ih hfilled
        refine ⟨s', row', q :: qs, row :: rows, Buffer.bind_ok.mpr ⟨t, hturn, hturns⟩, hfilled', ?_,
          List.Forall₂.cons hq hrows, ?_⟩
        · rw [hsent', hsent, List.append_assoc, List.singleton_append]
        · rw [List.flatten_cons, List.append_assoc, hflat, List.singleton_append]

end Filling

/-- A packet that was sent announces its row. -/
theorem SentWith.announces {C : Crypto} {ch : Channel C} {iv mac : ℕ → BitVec 64}
    {me peer : Address}
    {id : NetworkId} {q : Bytes} {row : List MulticastGroup}
    (h : SentWith ch.lz4Compress iv mac me peer id q row) : Announces ch id row q := by
  obtain ⟨hne, p, rfl, hfilled⟩ := h
  have hlength := hfilled.length
  obtain ⟨⟨n, rfl⟩, hfits⟩ := hfilled
  have hmark : verbMulticastLike &&& Packet.verbFlagCompressed = 0 := by decide
  obtain ⟨hq, harrives⟩ := composed_arrives ch (iv n) (mac n) peer me hmark
    (row.flatMap (likeTuple id)) (by rw [length_likeTuples]; omega)
  refine ⟨hq, hne, fun r hr => ?_⟩
  obtain ⟨d, hd, hverb, hpayload⟩ := harrives r hr
  refine ⟨d, hd, carries_of_payload hverb ?_ hpayload⟩
  -- a payload that is not empty follows a whole header
  by_contra hshort
  replace hpayload : d.drop protoMinPacketLength = row.flatMap (likeTuple id) := hpayload
  have hempty := congrArg List.length hpayload
  rw [length_likeTuples, List.drop_eq_nil_of_le (not_le.mp hshort).le] at hempty
  exact hne (List.length_eq_zero_iff.mp (by simpa using hempty.symm))

/-- **Announcing the groups**, however many: no packet overflows, and the packets that are sent
carry the groups in their order, each once. -/
theorem announcement {C : Crypto} (ch : Channel C) (iv mac : ℕ → BitVec 64) (me peer : Address)
    (id : NetworkId) (allMulticastGroups : List MulticastGroup) :
    ∃ (sent : List Bytes) (rows : List (List MulticastGroup)),
      announceMulticastGroupsTo ch.lz4Compress iv mac me peer id allMulticastGroups = .ok sent ∧
        rows.flatten = allMulticastGroups ∧
          List.Forall₂ (fun q row => Announces ch id row q) sent rows := by
  obtain ⟨s, row, qs, rows, hturns, hfilled, hsent, hrows, hflat⟩ :=
    Announcing.turns_ok ch.lz4Compress (s := ⟨likePacket iv mac me peer 0, []⟩)
      (filledWith_nil id 0) allMulticastGroups
  have hqs : s.sent = qs := hsent
  have hannounced := hrows.imp fun q row h => SentWith.announces h
  have hlength := hfilled.length
  by_cases hlast : protoMinPacketLength < s.outp.length
  · have hne : row ≠ [] := by
      rintro rfl
      rw [hlength] at hlast
      exact absurd hlast (by decide)
    have hsentLast : SentWith ch.lz4Compress iv mac me peer id
        (Packet.compress ch.lz4Compress s.outp) row := ⟨hne, s.outp, rfl, hfilled⟩
    refine ⟨qs ++ [Packet.compress ch.lz4Compress s.outp], rows ++ [row], ?_, ?_, ?_⟩
    · refine Buffer.bind_ok.mpr ⟨s, hturns, ?_⟩
      rw [if_pos hlast, hqs]
      rfl
    · rw [List.flatten_append, List.flatten_singleton, hflat, List.nil_append]
    · exact List.rel_append hannounced (List.Forall₂.cons hsentLast.announces List.Forall₂.nil)
  · have hnil : row = [] := List.length_eq_zero_iff.mp (by omega)
    refine ⟨qs, rows, Buffer.bind_ok.mpr ⟨s, hturns, ?_⟩, ?_, hannounced⟩
    · rw [if_neg hlast, hqs]
      rfl
    · rw [hnil, List.append_nil] at hflat
      exact hflat

end ZGalaxy
