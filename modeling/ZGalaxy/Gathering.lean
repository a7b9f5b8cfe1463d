/-
ZGalaxy/Gathering.lean

Telling others who listens to a multicast group.

A reply to a query lists members in random order.  Each turn draws a number, starts at that place
of the member list and goes on, place by place and around, until it meets a member that was not
picked before.  The peer that asks is picked like any other but not listed.  The counter that walks
around has 32 bits, and so has the number of members it is taken modulo.

A scan may go on for ever, so it is given a number of steps to make: `none` stands for a scan that
is not done after them, for a division by zero, and for a write behind the end of the array of the
members that were picked.

Main result: `gather_lists`.
-/
import ZGalaxy.Composing
import ZGalaxy.Multicaster

namespace Picking

variable {α : Type*} [DecidableEq α]

/-- How many values a 32-bit counter has. -/
def counterSize : ℕ := 4294967296

/-- The first element that is not picked, from place `rptr` on and around; nothing if there is none
after `n` places. -/
def scan (v picked : List α) : (n rptr : ℕ) → Option α
  | 0, _ => none
  | n + 1, rptr =>
      if v.length % counterSize = 0 then none
      else
        (v[rptr % (v.length % counterSize)]?).bind fun a =>
          if picked.contains a then scan v picked n ((rptr + 1) % counterSize) else some a

variable {v picked : List α}

/-- What a scan comes to, however long it goes on. -/
def Finds (v picked : List α) (steps rptr : ℕ) (a : α) : Prop :=
  ∀ n, steps < n → scan v picked n rptr = some a

section Places

variable (hv : 0 < v.length) (hsize : v.length < counterSize) {rptr : ℕ} {a b : α}
include hv hsize

omit [DecidableEq α] hsize in
/-- There is an element at every place. -/
theorem exists_place (rptr : ℕ) : ∃ a ∈ v, v[rptr % v.length]? = some a :=
  ⟨_, List.getElem_mem _, List.getElem?_eq_getElem (Nat.mod_lt rptr hv)⟩

theorem scan_succ (ha : v[rptr % v.length]? = some a) (n : ℕ) :
    scan v picked (n + 1) rptr =
      if picked.contains a then scan v picked n ((rptr + 1) % counterSize) else some a := by
  rw [scan, Nat.mod_eq_of_lt hsize, if_neg hv.ne', ha, Option.bind_some]

/-- The scan stops at an element that is not picked. -/
theorem Finds.here (ha : v[rptr % v.length]? = some a) (hfree : a ∉ picked) (d : ℕ) :
    Finds v picked d rptr a := by
  intro n hn
  obtain ⟨m, rfl⟩ := Nat.exists_eq_add_of_lt hn
  rw [scan_succ hv hsize ha, if_neg (by simpa using hfree)]

/-- The scan goes on from an element that is picked. -/
theorem Finds.next (ha : v[rptr % v.length]? = some a) (hpicked : a ∈ picked) {d : ℕ}
    (h : Finds v picked d ((rptr + 1) % counterSize) b) : Finds v picked (d + 1) rptr b := by
  intro n hn
  obtain ⟨m, rfl⟩ := Nat.exists_eq_add_of_lt hn
  rw [scan_succ hv hsize ha, if_pos (by simpa using hpicked)]
  exact h _ (by omega)

/-- **A scan from `rptr`** finds something if it meets something before the counter overflows. -/
theorem finds_of_ahead {d : ℕ} (hd : rptr + d < counterSize) {x : α}
    (hx : v[(rptr + d) % v.length]? = some x) (hfree : x ∉ picked) :
    ∃ a ∈ v, a ∉ picked ∧ Finds v picked d rptr a := by
  induction d generalizing rptr with
  | zero => exact ⟨x, List.mem_of_getElem? hx, hfree, Finds.here hv hsize hx hfree 0⟩
  | succ d ih =>
      obtain ⟨a, ha, hat⟩ := exists_place hv rptr
      by_cases hpicked : a ∈ picked
      · have hnext : (rptr + 1) % counterSize = rptr + 1 := Nat.mod_eq_of_lt (by omega)
        rw [Nat.add_comm d 1, ← Nat.add_assoc] at hd hx
        obtain ⟨b, hb, hbfree, hfinds⟩ := ih hd hx
        rw [← hnext] at hfinds
        exact ⟨b, hb, hbfree, Finds.next hv hsize hat hpicked hfinds⟩
      · exact ⟨a, ha, hpicked, Finds.here hv hsize hat hpicked _⟩

end Places

/-- **A scan ends**: it finds something that is not picked, if there is anything.  After the counter
overflows it starts at the first place. -/
theorem scan_ends (hsize : v.length < counterSize) {x : α} (hx : x ∈ v) (hfree : x ∉ picked)
    {rptr : ℕ} (hrptr : rptr < counterSize) :
    ∃ a ∈ v, a ∉ picked ∧ Finds v picked (counterSize + v.length) rptr a := by
  have hv : 0 < v.length := List.length_pos_of_mem hx
  obtain ⟨j, hj, rfl⟩ := List.getElem_of_mem hx
  have hstart : ∃ a ∈ v, a ∉ picked ∧ Finds v picked j 0 a := by
    refine finds_of_ahead hv hsize (by omega) ?_ hfree
    rw [Nat.zero_add, Nat.mod_eq_of_lt hj]
    exact List.getElem?_eq_getElem hj
  -- by how far the counter is from its end
  have hrun : ∀ e rptr, rptr < counterSize → counterSize - rptr = e →
      ∃ a ∈ v, a ∉ picked ∧ Finds v picked (e + j) rptr a := by
    intro e
    induction e with
    | zero =>
        intro rptr hlt he
        omega
    | succ e ih =>
        intro rptr hlt he
        obtain ⟨a, ha, hat⟩ := exists_place hv rptr
        by_cases hpicked : a ∈ picked
        · have hnext : ∃ b ∈ v, b ∉ picked ∧
              Finds v picked (e + j) ((rptr + 1) % counterSize) b := by
            by_cases hlast : rptr + 1 = counterSize
            · obtain ⟨b, hb, hbfree, hfinds⟩ := hstart
              rw [hlast, Nat.mod_self]
              exact ⟨b, hb, hbfree, fun n hn => hfinds n (by omega)⟩
            · rw [Nat.mod_eq_of_lt (by omega)]
              exact ih (rptr + 1) (by omega) (by omega)
          obtain ⟨b, hb, hbfree, hfinds⟩ := hnext
          refine ⟨b, hb, hbfree, ?_⟩
          rw [Nat.add_right_comm]
          exact Finds.next hv hsize hat hpicked hfinds
        · exact ⟨a, ha, hpicked, Finds.here hv hsize hat hpicked _⟩
  obtain ⟨a, ha, hafree, hfinds⟩ := hrun (counterSize - rptr) rptr hrptr rfl
  exact ⟨a, ha, hafree, fun n hn => hfinds n (by omega)⟩

end Picking

namespace ZGalaxy

open ByteList Picking

/-- The length of the array `picked` of `Multicaster::gather`. -/
def pickedSize : ℕ := protoMaxPacketLength / 5 + 2

/-- `Buffer::setAt`, for an unsigned integer of `n` bytes. -/
def Buffer.setAt (n : ℕ) (b : Bytes) (i v : ℕ) : Except ZTException Bytes :=
  if b.length < i + n then .error .outOfBounds else .ok (splice b i (beBytes n v))

/-- What `gather` has written, picked and counted so far. -/
structure GatherState where
  appendTo : Bytes
  picked : List Address
  added : ℕ

namespace Multicaster

/-- The fields before the members, and the node itself if it is subscribed.  What `addSize` leaves
in the new space is written later. -/
def gatherHeader (me : Address) (subscribed : Bool) (appendTo : Bytes) :
    Except ZTException GatherState := do
  let b ← Packet.append appendTo (List.replicate 4 0)
  let b ← Packet.append b (List.replicate 2 0)
  if subscribed then
    (Packet.append b me.toBytes).map fun b => ⟨b, [], 1⟩
  else pure ⟨b, [], 0⟩

/-- The loop of `gather`, of which `turns` are made at most; the scan of each makes `n` steps. -/
def gatherLoop (members : List Address) (queryingPeer : Address) (limit : ℕ)
    (prng : ℕ → UInt64) (n : ℕ) :
    (turns : ℕ) → GatherState → Option (Except ZTException GatherState)
  | 0, _ => none
  | turns + 1, s =>
      if s.added < limit ∧ s.picked.length < members.length ∧
          s.appendTo.length + addressLength ≤ protoMaxPacketLength then
        (scan members s.picked n ((prng s.picked.length).toNat % counterSize)).bind fun a =>
          if pickedSize ≤ s.picked.length then none
          else if queryingPeer = a then
            gatherLoop members queryingPeer limit prng n turns
              { s with picked := s.picked ++ [a] }
          else
            match Packet.append s.appendTo a.toBytes with
            | .error e => some (.error e)
            | .ok b =>
                gatherLoop members queryingPeer limit prng n turns
                  ⟨b, s.picked ++ [a], s.added + 1⟩
      else some (.ok s)

/-- The fields before the members get their values. -/
def gatherFinish (totalAt totalKnown : ℕ) (s : GatherState) : Except ZTException (Bytes × ℕ) := do
  let b ← Buffer.setAt 4 s.appendTo totalAt totalKnown
  let b ← Buffer.setAt 2 b (totalAt + 4) s.added
  pure (b, s.added)

/-- `Multicaster::gather` on the node with address `me`: the buffer, and how many were added.
`subscribed` tells whether the node has joined the network and is subscribed to the group there,
and `prng` has the random numbers. -/
def gather (groups : Multicaster) (me queryingPeer : Address) (k : MulticastKey)
    (subscribed : Bool) (prng : ℕ → UInt64) (n : ℕ) (appendTo : Bytes) (limit : ℕ) :
    Option (Except ZTException (Bytes × ℕ)) :=
  if limit = 0 then some (.ok (appendTo, 0))
  else
    match gatherHeader me subscribed appendTo with
    | .error e => some (.error e)
    | .ok s =>
        let members := (groups.members k).map MulticastGroupMember.address
        let totalKnown := (s.added + members.length % counterSize) % counterSize
        (gatherLoop members queryingPeer (min limit 0xffff) prng n n s).map fun r =>
          r.bind (gatherFinish appendTo.length totalKnown)

end Multicaster

/-- The addresses that are listed: the node itself if it is subscribed, and members. -/
def listing (me : Address) (subscribed : Bool) (listed : List Address) : List Address :=
  (if subscribed then [me] else []) ++ listed

/-- What a reply is to be: `out` is the buffer and the number of addresses that `b` and 0 become,
and `listed` the members in it. -/
structure Reply (me queryingPeer : Address) (members : List Address) (subscribed : Bool)
    (limit : ℕ) (b : Bytes) (listed : List Address) (out : Bytes × ℕ) : Prop where
  bytes : out.1 = b ++ (beBytes 4 (members.length + if subscribed then 1 else 0) ++
    (beBytes 2 out.2 ++ (listing me subscribed listed).flatMap Address.toBytes))
  added : out.2 = (listing me subscribed listed).length
  distinct : (listing me subscribed listed).Nodup
  member : ∀ a ∈ listed, a ∈ members
  notPeer : queryingPeer ∉ listed
  within : out.2 ≤ min limit 0xffff
  fits : out.1.length ≤ protoMaxPacketLength
  /-- it stops short of the limit and of the space only when all are listed -/
  complete : out.2 < min limit 0xffff → out.1.length + addressLength ≤ protoMaxPacketLength →
    ∀ a ∈ members, a = queryingPeer ∨ a ∈ listed

/-! ### The loop -/

section Loop

/-- The members among those picked that are listed. -/
def listedOf (queryingPeer : Address) (picked : List Address) : List Address :=
  picked.filter fun a => queryingPeer != a

variable {members : List Address} {queryingPeer : Address} {limit : ℕ} {prng : ℕ → UInt64}

/-- What holds before each turn of the loop, which starts with `head` in the buffer and `own`
addresses. -/
structure LoopOk (members : List Address) (queryingPeer : Address) (limit : ℕ) (head : Bytes)
    (own : ℕ) (s : GatherState) : Prop where
  nodup : s.picked.Nodup
  sub : s.picked ⊆ members
  bytes : s.appendTo = head ++ (listedOf queryingPeer s.picked).flatMap Address.toBytes
  added : s.added = own + (listedOf queryingPeer s.picked).length
  le : s.added ≤ limit
  fits : s.appendTo.length ≤ protoMaxPacketLength

theorem length_flatMap_toBytes (l : List Address) :
    (l.flatMap Address.toBytes).length = addressLength * l.length := by
  rw [List.length_flatMap]
  simp [Nat.mul_comm]

variable (queryingPeer) in
/-- All that are picked are listed but for the peer that asks. -/
theorem length_listedOf {picked : List Address} (h : picked.Nodup) :
    picked.length ≤ (listedOf queryingPeer picked).length + 1 := by
  rw [listedOf]
  have hsplit := List.length_eq_length_filter_add (l := picked) fun a => queryingPeer != a
  have hone : (picked.filter fun a => !(queryingPeer != a)).length ≤ 1 := by
    have hsub : (picked.filter fun a => !(queryingPeer != a)) ⊆ [queryingPeer] := by
      intro a ha
      have heq := (List.mem_filter.mp ha).2
      rw [Bool.not_eq_true', bne_eq_false_iff_eq] at heq
      exact List.mem_singleton.mpr heq.symm
    exact (List.subperm_of_subset (h.filter _) hsub).length_le
  omega

/-- The array is long enough for what is picked while there is space in the buffer. -/
theorem LoopOk.inside {head : Bytes} {own : ℕ} {s : GatherState}
    (h : LoopOk members queryingPeer limit head own s)
    (hroom : s.appendTo.length + addressLength ≤ protoMaxPacketLength) :
    s.picked.length < pickedSize := by
  have hlength := congrArg List.length h.bytes
  have hpicked := length_listedOf queryingPeer h.nodup
  rw [List.length_append, length_flatMap_toBytes] at hlength
  rw [pickedSize]
  have hfive : addressLength = 5 := rfl
  rw [hfive] at hlength hroom
  omega

/-- The peer that asks is picked. -/
theorem LoopOk.skip {head : Bytes} {own : ℕ} {s : GatherState}
    (h : LoopOk members queryingPeer limit head own s) (hmem : queryingPeer ∈ members)
    (hfree : queryingPeer ∉ s.picked) :
    LoopOk members queryingPeer limit head own { s with picked := s.picked ++ [queryingPeer] } := by
  have hlisted : listedOf queryingPeer (s.picked ++ [queryingPeer])
      = listedOf queryingPeer s.picked := by
    rw [listedOf, List.filter_append, List.filter_cons, bne_self_eq_false,
      if_neg Bool.false_ne_true]
    exact List.append_nil _
  refine ⟨?_, ?_, ?_, ?_, h.le, h.fits⟩
  · exact h.nodup.append (List.nodup_singleton _) (List.disjoint_singleton.mpr hfree)
  · exact List.append_subset.mpr ⟨h.sub, List.cons_subset.mpr ⟨hmem, List.nil_subset _⟩⟩
  · rw [hlisted]
    exact h.bytes
  · rw [hlisted]
    exact h.added

/-- Another member is picked, and listed. -/
theorem LoopOk.list {head : Bytes} {own : ℕ} {s : GatherState}
    (h : LoopOk members queryingPeer limit head own s) {a : Address} (hmem : a ∈ members)
    (hfree : a ∉ s.picked) (hne : queryingPeer ≠ a) (hlimit : s.added < limit)
    (hroom : s.appendTo.length + addressLength ≤ protoMaxPacketLength) :
    LoopOk members queryingPeer limit head own
      ⟨s.appendTo ++ a.toBytes, s.picked ++ [a], s.added + 1⟩ := by
  have hlisted :
      listedOf queryingPeer (s.picked ++ [a]) = listedOf queryingPeer s.picked ++ [a] := by
    rw [listedOf, List.filter_append, List.filter_cons, bne_iff_ne.mpr hne, if_pos rfl]
    rfl
  refine ⟨?_, ?_, ?_, ?_, hlimit, ?_⟩
  · exact h.nodup.append (List.nodup_singleton _) (List.disjoint_singleton.mpr hfree)
  · exact List.append_subset.mpr ⟨h.sub, List.cons_subset.mpr ⟨hmem, List.nil_subset _⟩⟩
  · rw [hlisted, List.flatMap_append, ← List.append_assoc, ← h.bytes, List.flatMap_singleton]
  · rw [hlisted, List.length_append, ← Nat.add_assoc, ← h.added]
    rfl
  · rw [List.length_append, Address.length_toBytes]
    exact hroom

variable (prng) in
/-- **The loop ends**, and what it leaves is as it should be. -/
theorem gatherLoop_ends (hdistinct : members.Nodup) (hsize : members.length < counterSize)
    {head : Bytes} {own : ℕ} {s : GatherState} (h : LoopOk members queryingPeer limit head own s) :
    ∃ s', LoopOk members queryingPeer limit head own s' ∧
      (s'.added < limit → s'.appendTo.length + addressLength ≤ protoMaxPacketLength →
        members ⊆ s'.picked) ∧
      ∀ n, counterSize + members.length < n → ∀ turns, members.length - s.picked.length < turns →
        Multicaster.gatherLoop members queryingPeer limit prng n turns s = some (.ok s') := by
  -- on how many members are not picked yet
  induction hleft : members.length - s.picked.length generalizing s with
  | zero =>
      have hall : ¬s.picked.length < members.length := by omega
      refine ⟨s, h, fun _ _ => ?_, fun n hn turns hturns => ?_⟩
      · have hperm := (List.subperm_of_subset h.nodup h.sub).perm_of_length_le (by omega)
        exact hperm.symm.subset
      · obtain ⟨t, rfl⟩ := Nat.exists_eq_add_of_lt hturns
        rw [Multicaster.gatherLoop, if_neg fun hgo => hall hgo.2.1]
  | succ left ih =>
      by_cases hgo : s.added < limit ∧ s.picked.length < members.length ∧
          s.appendTo.length + addressLength ≤ protoMaxPacketLength
      · obtain ⟨hlimit, hpicked, hroom⟩ := hgo
        -- somebody is left
        obtain ⟨x, hx, hxfree⟩ : ∃ x ∈ members, x ∉ s.picked := by
          by_contra hnone
          push Not at hnone
          exact absurd (List.subperm_of_subset hdistinct hnone).length_le (not_le.mpr hpicked)
        have hstart : (prng s.picked.length).toNat % counterSize < counterSize :=
          Nat.mod_lt _ (Nat.succ_pos _)
        obtain ⟨a, ha, hafree, hfinds⟩ := scan_ends hsize hx hxfree hstart
        by_cases hpeer : queryingPeer = a
        · subst hpeer
          have hnext := h.skip ha hafree
          obtain ⟨s', hs', hcomplete, hrun⟩ := ih hnext (by
            rw [List.length_append, List.length_singleton]
            omega)
          refine ⟨s', hs', hcomplete, fun n hn turns hturns => ?_⟩
          obtain ⟨t, rfl⟩ := Nat.exists_eq_add_of_lt hturns
          rw [Multicaster.gatherLoop, if_pos ⟨hlimit, hpicked, hroom⟩, hfinds n hn,
            Option.bind_some, if_neg (not_le.mpr (h.inside hroom)), if_pos rfl]
          exact hrun n hn _ (by omega)
        · have hnext := h.list ha hafree hpeer hlimit hroom
          obtain ⟨s', hs', hcomplete, hrun⟩ := ih hnext (by
            rw [List.length_append, List.length_singleton]
            omega)
          refine ⟨s', hs', hcomplete, fun n hn turns hturns => ?_⟩
          obtain ⟨t, rfl⟩ := Nat.exists_eq_add_of_lt hturns
          have happend : Packet.append s.appendTo a.toBytes = .ok (s.appendTo ++ a.toBytes) := by
            refine Packet.append_of_le ?_
            rw [Address.length_toBytes]
            exact hroom
          rw [Multicaster.gatherLoop, if_pos ⟨hlimit, hpicked, hroom⟩, hfinds n hn,
            Option.bind_some, if_neg (not_le.mpr (h.inside hroom)), if_neg hpeer, happend]
          exact hrun n hn _ (by omega)
      · refine ⟨s, h, fun hlimit hroom => ?_, fun n hn turns hturns => ?_⟩
        · exact absurd ⟨hlimit, by omega, hroom⟩ hgo
        · obtain ⟨t, rfl⟩ := Nat.exists_eq_add_of_lt hturns
          rw [Multicaster.gatherLoop, if_neg hgo]

end Loop

/-! ### The whole reply -/

namespace Multicaster

/-- Zeros are appended where there is room for them. -/
theorem append_zeros {b : Bytes} {n : ℕ} (hroom : b.length + n ≤ protoMaxPacketLength) :
    Packet.append b (List.replicate n 0) = .ok (b ++ List.replicate n 0) := by
  refine Packet.append_of_le ?_
  rwa [List.length_replicate]

/-- What the buffer begins with when there is room for it. -/
theorem gatherHeader_ok {me : Address} {subscribed : Bool} {b : Bytes}
    (hroom : b.length + 6 + (if subscribed then addressLength else 0) ≤ protoMaxPacketLength) :
    gatherHeader me subscribed b = .ok ⟨b ++ (List.replicate 4 0 ++ (List.replicate 2 0 ++
      (listing me subscribed []).flatMap Address.toBytes)), [],
        (listing me subscribed []).length⟩ := by
  have hfirst : Packet.append b (List.replicate 4 0) = .ok (b ++ List.replicate 4 0) :=
    append_zeros (by omega)
  have hsecond : Packet.append (b ++ List.replicate 4 0) (List.replicate 2 0)
      = .ok (b ++ List.replicate 4 0 ++ List.replicate 2 0) := by
    refine append_zeros ?_
    rw [List.length_append, List.length_replicate]
    omega
  rw [gatherHeader, hfirst]
  show (Packet.append (b ++ List.replicate 4 0) (List.replicate 2 0) >>= _) = _
  rw [hsecond]
  cases subscribed with
  | true =>
      have hown : Packet.append (b ++ List.replicate 4 0 ++ List.replicate 2 0) me.toBytes
          = .ok (b ++ List.replicate 4 0 ++ List.replicate 2 0 ++ me.toBytes) := by
        refine Packet.append_of_le ?_
        rw [List.length_append, List.length_append, List.length_replicate, List.length_replicate,
          Address.length_toBytes]
        rw [if_pos rfl] at hroom
        omega
      show Except.map _ (Packet.append _ _) = _
      rw [hown]
      simp [listing, Except.map]
  | false =>
      show Except.ok _ = Except.ok _
      simp [listing]

/-- **The fields before the members** get their values. -/
theorem gatherFinish_eq (b v : Bytes) (totalKnown : ℕ) (picked : List Address) (added : ℕ) :
    gatherFinish b.length totalKnown ⟨b ++ (List.replicate 4 0 ++ (List.replicate 2 0 ++ v)),
      picked, added⟩ = .ok (b ++ (beBytes 4 totalKnown ++ (beBytes 2 added ++ v)), added) := by
  have hfirst : Buffer.setAt 4 (b ++ (List.replicate 4 0 ++ (List.replicate 2 0 ++ v))) b.length
      totalKnown = .ok (b ++ (beBytes 4 totalKnown ++ (List.replicate 2 0 ++ v))) := by
    rw [Buffer.setAt, if_neg (by simp), splice_middle rfl (by simp)]
  have hsecond : Buffer.setAt 2 (b ++ (beBytes 4 totalKnown ++ (List.replicate 2 0 ++ v)))
      (b.length + 4) added = .ok (b ++ (beBytes 4 totalKnown ++ (beBytes 2 added ++ v))) := by
    have hplace : ¬(b ++ (beBytes 4 totalKnown ++ (List.replicate 2 0 ++ v))).length
        < b.length + 4 + 2 := by
      simp only [List.length_append, length_beBytes, List.length_replicate]
      omega
    rw [Buffer.setAt, if_neg hplace, ← List.append_assoc b, splice_middle (by simp) (by simp),
      List.append_assoc]
  rw [gatherFinish, hfirst]
  show (Buffer.setAt 2 _ (b.length + 4) added >>= _) = _
  rw [hsecond]
  rfl

/-- The members of a group that is reached: their addresses differ, and none is the node's own. -/
theorem members_distinct (me : Address) (calls : List MulticasterCall) (k : MulticastKey) :
    ((((machine me).runState .init calls).members k).map MulticastGroupMember.address).Nodup ∧
      me ∉ (((machine me).runState .init calls).members k).map MulticastGroupMember.address := by
  obtain ⟨hsorted, hself⟩ := (members_run me calls k).1
  refine ⟨List.pairwise_map.mpr (hsorted.imp address_ne_of_lt), fun hme => ?_⟩
  obtain ⟨m, hm, haddress⟩ := List.mem_map.mp hme
  exact hself m hm haddress

/-- The reply for a group of members that differ from each other and from the node. -/
theorem gather_reply {groups : Multicaster} {me : Address} {k : MulticastKey}
    {members : List Address}
    (hmembers : (groups.members k).map MulticastGroupMember.address = members)
    (hdistinct : members.Nodup) (hself : me ∉ members) (queryingPeer : Address) {subscribed : Bool}
    (prng : ℕ → UInt64) {limit : ℕ} (hlimit : 0 < limit) {b : Bytes}
    (hroom : b.length + 6 + (if subscribed then addressLength else 0) ≤ protoMaxPacketLength)
    (hcount : members.length + (if subscribed then 1 else 0) < counterSize) :
    ∃ listed out, Reply me queryingPeer members subscribed limit b listed out ∧
      ∃ steps, ∀ n, steps < n →
        gather groups me queryingPeer k subscribed prng n b limit = some (.ok out) := by
  have hown : (listing me subscribed []).length = if subscribed then 1 else 0 := by
    cases subscribed <;> rfl
  have hsize : members.length < counterSize := by omega
  have hstart : LoopOk members queryingPeer (min limit 0xffff)
      (b ++ (List.replicate 4 0 ++ (List.replicate 2 0 ++
        (listing me subscribed []).flatMap Address.toBytes)))
      (listing me subscribed []).length
      ⟨b ++ (List.replicate 4 0 ++ (List.replicate 2 0 ++
        (listing me subscribed []).flatMap Address.toBytes)), [],
        (listing me subscribed []).length⟩ := by
    refine ⟨List.nodup_nil, List.nil_subset _, (List.append_nil _).symm, rfl, ?_, ?_⟩
    · show (listing me subscribed []).length ≤ _
      rw [hown]
      split_ifs <;> omega
    · simp only [List.length_append, List.length_replicate, length_flatMap_toBytes, hown]
      have hfive : addressLength = 5 := rfl
      rw [hfive] at hroom ⊢
      split_ifs at hroom ⊢ <;> omega
  obtain ⟨s, hs, hcomplete, hrun⟩ := gatherLoop_ends prng hdistinct hsize hstart
  -- the members that are listed
  have hlisting : listing me subscribed [] ++ listedOf queryingPeer s.picked
      = listing me subscribed (listedOf queryingPeer s.picked) := by
    rw [listing, listing, List.append_nil]
  have hadded : s.added = (listing me subscribed (listedOf queryingPeer s.picked)).length := by
    rw [hs.added, ← hlisting, List.length_append]
  have hbytes : s.appendTo = b ++ (List.replicate 4 0 ++ (List.replicate 2 0 ++
      (listing me subscribed (listedOf queryingPeer s.picked)).flatMap Address.toBytes)) := by
    rw [hs.bytes, ← hlisting, List.flatMap_append]
    simp only [List.append_assoc]
  have hlength : s.appendTo.length = (b ++ (beBytes 4 (members.length +
      if subscribed then 1 else 0) ++ (beBytes 2 s.added ++
        (listing me subscribed
      (listedOf queryingPeer s.picked)).flatMap Address.toBytes))).length := by
    rw [hbytes]
    simp only [List.length_append, length_beBytes, List.length_replicate]
  refine ⟨listedOf queryingPeer s.picked, (b ++ (beBytes 4 (members.length +
    if subscribed then 1 else 0) ++ (beBytes 2 s.added ++
      (listing me subscribed (listedOf queryingPeer s.picked)).flatMap Address.toBytes)), s.added),
    ⟨rfl, hadded, ?_, ?_, ?_, hs.le, ?_, ?_⟩, counterSize + members.length, fun n hn => ?_⟩
  · have hlisted : (listedOf queryingPeer s.picked).Nodup := hs.nodup.filter _
    rw [listing]
    split_ifs
    · refine (List.nodup_singleton me).append hlisted (List.singleton_disjoint.mpr fun hme => ?_)
      exact hself (hs.sub (List.mem_of_mem_filter hme))
    · exact hlisted
  · intro a ha
    exact hs.sub (List.mem_of_mem_filter ha)
  · intro hpeer
    exact bne_iff_ne.mp (List.mem_filter.mp hpeer).2 rfl
  · exact hlength.ge.trans hs.fits
  · intro hshort hspace a ha
    have hroom' : s.appendTo.length + addressLength ≤ protoMaxPacketLength := by
      rw [hlength]
      exact hspace
    by_cases hpeer : a = queryingPeer
    · exact Or.inl hpeer
    · refine Or.inr (List.mem_filter.mpr ⟨hcomplete hshort hroom' ha, ?_⟩)
      exact bne_iff_ne.mpr fun heq => hpeer heq.symm
  · have htotal : ((listing me subscribed []).length + members.length % counterSize) % counterSize
        = members.length + if subscribed then 1 else 0 := by
      rw [Nat.mod_eq_of_lt hsize, hown, Nat.add_comm, Nat.mod_eq_of_lt hcount]
    simp only [gather, if_neg hlimit.ne', gatherHeader_ok hroom, hmembers, htotal]
    rw [hrun n hn n (by rw [List.length_nil]; omega), Option.map_some]
    refine congrArg some ?_
    show gatherFinish b.length _ ⟨s.appendTo, s.picked, s.added⟩ = _
    rw [hbytes]
    exact gatherFinish_eq b _ _ s.picked s.added

/-- **What `gather` comes to**: for every group that is reached, every peer that asks, every limit
but 0, all random numbers and every buffer with room for the fields before the members, it ends with
a reply as it should be. -/
theorem gather_lists (me : Address) (calls : List MulticasterCall) (k : MulticastKey)
    (queryingPeer : Address) (subscribed : Bool) (prng : ℕ → UInt64) {limit : ℕ}
    (hlimit : 0 < limit) {b : Bytes}
    (hroom : b.length + 6 + (if subscribed then addressLength else 0) ≤ protoMaxPacketLength)
    (hcount : (((machine me).runState .init calls).members k).length
      + (if subscribed then 1 else 0) < counterSize) :
    ∃ listed out, Reply me queryingPeer
        ((((machine me).runState .init calls).members k).map MulticastGroupMember.address)
        subscribed limit b listed out ∧
      ∃ steps, ∀ n, steps < n →
        gather ((machine me).runState .init calls) me queryingPeer k subscribed prng n b limit
          = some (.ok out) := by
  obtain ⟨hdistinct, hself⟩ := members_distinct me calls k
  refine gather_reply rfl hdistinct hself queryingPeer prng hlimit hroom ?_
  rw [List.length_map]
  exact hcount

/-! ### Without room, and with too many members -/

/-- Without room for the node itself, `gather` throws. -/
theorem gather_noRoom (groups : Multicaster) (me queryingPeer : Address) (k : MulticastKey)
    (prng : ℕ → UInt64) (n : ℕ) {b : Bytes} (hroom : b.length + 6 ≤ protoMaxPacketLength)
    (hshort : protoMaxPacketLength < b.length + 6 + addressLength) {limit : ℕ}
    (hlimit : 0 < limit) :
    gather groups me queryingPeer k true prng n b limit = some (.error .outOfBounds) := by
  have hfirst : Packet.append b (List.replicate 4 0) = .ok (b ++ List.replicate 4 0) :=
    append_zeros (by omega)
  have hsecond : Packet.append (b ++ List.replicate 4 0) (List.replicate 2 0)
      = .ok (b ++ List.replicate 4 0 ++ List.replicate 2 0) := by
    refine append_zeros ?_
    rw [List.length_append, List.length_replicate]
    omega
  have hown : Packet.append (b ++ List.replicate 4 0 ++ List.replicate 2 0) me.toBytes
      = .error .outOfBounds := by
    refine if_pos ?_
    rw [List.length_append, List.length_append, List.length_replicate, List.length_replicate,
      Address.length_toBytes]
    omega
  have hheader : gatherHeader me true b = .error .outOfBounds := by
    rw [gatherHeader, hfirst]
    show (Packet.append (b ++ List.replicate 4 0) (List.replicate 2 0) >>= _) = _
    rw [hsecond]
    show Except.map _ (Packet.append _ _) = _
    rw [hown]
    rfl
  simp only [gather, if_neg hlimit.ne', hheader]

/-- Addresses that are added one after the other. -/
theorem mem_adds {me : Address} (k : MulticastKey) {l : List Address} (hme : me ∉ l) (a : Address)
    (r : Int64) :
    ⟨a, r⟩ ∈ ((machine me).runState .init (l.map (.add 0 k))).members k ↔ a ∈ l ∧ r = 0 := by
  -- on the members, the last one added to what came of the others
  induction l using List.reverseRecOn with
  | nil =>
      have hinit : Multicaster.init.members k = [] := by
        rw [members, init, Hashtable.get_empty]
        rfl
      rw [List.map_nil, Machine.runState_nil, hinit]
      simp
  | append_singleton l x ih =>
      have hl : me ∉ l := fun h => hme (List.mem_append_left _ h)
      have hx : x ≠ me := fun h => hme (h ▸ List.mem_append_right _ (List.mem_singleton.mpr rfl))
      have hok := fun k' => (members_run me (l.map (.add 0 k)) k').1
      rw [List.map_append, List.map_singleton, Machine.runState_concat]
      refine ((mem_call hok (.add 0 k x) k).2 a r).trans ?_
      rw [ih hl, List.mem_append, List.mem_singleton]
      constructor
      · rintro (⟨-, -, rfl, rfl⟩ | ⟨-, ha, hr⟩)
        · exact ⟨Or.inr rfl, rfl⟩
        · exact ⟨Or.inl ha, hr⟩
      · rintro ⟨ha, rfl⟩
        by_cases hax : a = x
        · exact Or.inl ⟨hax ▸ hx, rfl, rfl, hax.symm⟩
        · refine Or.inr ⟨⟨fun r' hr => hax hr.2.2.symm, id, id⟩, ?_, rfl⟩
          exact ha.resolve_right hax

/-- **A group may have any number of members** that there are addresses for. -/
theorem exists_members (me : Address) (k : MulticastKey) {l : List Address} (hme : me ∉ l)
    (hnodup : l.Nodup) :
    (((machine me).runState .init (l.map (.add 0 k))).members k).length = l.length := by
  obtain ⟨hdistinct, -⟩ := members_distinct me (l.map (.add 0 k)) k
  refine (List.length_map MulticastGroupMember.address).symm.trans ?_
  refine ((List.perm_ext_iff_of_nodup hdistinct hnodup).mpr fun a => ?_).length_eq
  rw [List.mem_map]
  constructor
  · rintro ⟨m, hm, rfl⟩
    exact ((mem_adds k hme m.address m.timestamp).mp hm).1
  · intro ha
    exact ⟨⟨a, 0⟩, (mem_adds k hme a 0).mpr ⟨ha, rfl⟩, rfl⟩

/-- The first addresses that are not null. -/
def someAddresses (c : ℕ) : List Address := (List.range c).map fun i => BitVec.ofNat 40 (i + 1)

theorem someAddresses_nodup {c : ℕ} (hc : c < 1099511627776) :
    (0 : Address) ∉ someAddresses c ∧ (someAddresses c).Nodup := by
  have hinj : ∀ i < c, ∀ j, j < 1099511627776 → BitVec.ofNat 40 (i + 1) = BitVec.ofNat 40 j →
      i + 1 = j := by
    intro i hi j hj heq
    have hnat := congrArg BitVec.toNat heq
    rw [BitVec.toNat_ofNat, BitVec.toNat_ofNat, Nat.mod_eq_of_lt (by omega),
      Nat.mod_eq_of_lt (by omega)] at hnat
    exact hnat
  constructor
  · intro hmem
    obtain ⟨i, hi, heq⟩ := List.mem_map.mp hmem
    exact absurd (hinj i (List.mem_range.mp hi) 0 (by omega) heq) (Nat.succ_ne_zero i)
  · refine (List.nodup_map_iff_inj_on List.nodup_range).mpr ?_
    intro i hi j hj heq
    have hj' := List.mem_range.mp hj
    exact Nat.succ.inj (hinj i (List.mem_range.mp hi) (j + 1) (by omega) heq)

/-- Of as many members as a 32-bit counter has values, none is found. -/
theorem gather_never {groups : Multicaster} {me queryingPeer : Address} {k : MulticastKey}
    (hcount : (groups.members k).length = counterSize) (prng : ℕ → UInt64) (n : ℕ) {b : Bytes}
    (hroom : b.length + 6 + addressLength ≤ protoMaxPacketLength) {limit : ℕ} (hlimit : 0 < limit) :
    gather groups me queryingPeer k false prng n b limit = none := by
  have hscan : ∀ m picked rptr,
      scan ((groups.members k).map MulticastGroupMember.address) picked m rptr = none := by
    intro m picked rptr
    cases m with
    | zero => rfl
    | succ m =>
        rw [scan, List.length_map, hcount, Nat.mod_self, if_pos rfl]
  have hspace : b.length + 6 + (if false then addressLength else 0) ≤ protoMaxPacketLength := by
    rw [if_neg Bool.false_ne_true]
    omega
  have hheader : gatherHeader me false b = .ok _ := gatherHeader_ok hspace
  simp only [gather, if_neg hlimit.ne', hheader]
  cases n with
  | zero => rfl
  | succ n =>
      rw [gatherLoop, if_pos, hscan]
      · rfl
      · refine ⟨lt_min hlimit (Nat.succ_pos _), ?_, ?_⟩
        · rw [List.length_map, hcount]
          exact Nat.succ_pos _
        · simp only [List.length_append, List.length_replicate, length_flatMap_toBytes]
          show b.length + (4 + (2 + addressLength * 0)) + addressLength ≤ _
          omega

/-- The group of all nodes of a network. -/
def broadcastGroup : MulticastKey := ⟨1, ⟨0xffffffffffff, 0⟩⟩

/-- **Without room for the node itself** `gather` throws, and of 2 ^ 32 members it finds none. -/
theorem gather_fails :
    (∀ prng n, gather .init 1 2 broadcastGroup true prng n (List.replicate 10018 0) 1
      = some (.error .outOfBounds)) ∧
    ∃ calls, (((machine 0).runState .init calls).members broadcastGroup).length = counterSize ∧
      ∀ prng n, gather ((machine 0).runState .init calls) 0 2 broadcastGroup false prng n [] 1
        = none := by
  have hmax : protoMaxPacketLength = 10024 := rfl
  have hfive : addressLength = 5 := rfl
  have hc : counterSize < 1099511627776 := Nat.lt_of_sub_pos (Nat.succ_pos _)
  obtain ⟨hzero, hnodup⟩ := someAddresses_nodup hc
  have hlength := exists_members 0 broadcastGroup hzero hnodup
  rw [someAddresses, List.length_map, List.length_range] at hlength
  refine ⟨fun prng n => ?_, _, hlength, fun prng n => ?_⟩
  · refine gather_noRoom _ _ _ _ _ _ ?_ ?_ Nat.one_pos
    · rw [List.length_replicate]
      omega
    · rw [List.length_replicate]
      omega
  · refine gather_never hlength _ _ ?_ Nat.one_pos
    rw [List.length_nil]
    omega

/-- A group of two members, asked for by one of them. -/
theorem gather_lists_two : ∃ listed out, Reply 1 2
    ((((machine 1).runState .init [.add 0 broadcastGroup 2, .add 0 broadcastGroup 3]).members
      broadcastGroup).map MulticastGroupMember.address) true 32 [] listed out ∧
    ∃ steps, ∀ n, steps < n →
      gather ((machine 1).runState .init [.add 0 broadcastGroup 2, .add 0 broadcastGroup 3]) 1 2
        broadcastGroup true (fun _ => 0) n [] 32 = some (.ok out) := by
  have hlength := exists_members 1 broadcastGroup (l := [2, 3]) (by decide) (by decide)
  refine gather_lists 1 [.add 0 broadcastGroup 2, .add 0 broadcastGroup 3] broadcastGroup 2 true
    (fun _ => 0) (by decide) (by decide) ?_
  rw [List.map_cons, List.map_singleton] at hlength
  rw [hlength]
  exact Nat.lt_of_sub_pos (Nat.succ_pos _)

end Multicaster

end ZGalaxy
