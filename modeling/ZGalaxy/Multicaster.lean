/-
ZGalaxy/Multicaster.lean

Who is known to listen to a multicast group.

A group has its members, sorted by address, each with the time it was last heard of, and a queue of
frames that still look for members.  A new member is inserted where a binary search says, a known
one gets a new time.  Cleaning moves the members that are not too old to the front of the vector
and cuts off the rest, and erases a group that has nothing left.  The age of a member is the
difference of two clock values as integers: one that does not fit 64 bits is undefined in C++.

The queue is also filled by `Multicaster::send`, so a run may at any time give a group whatever
queue it likes.

Main result: `membershipInvariant`, that after every run the members of every group are strictly
sorted and do not contain the node itself, and that a member is there, with the time of its last
refresh, exactly if it was neither removed since nor cleaned when it was too old.
-/
import ZGalaxy.Machine
import ZGalaxy.MulticastLike
import ZGalaxy.SortedVector

namespace ZGalaxy

open ByteList SortedVector

/-- `ZT_MULTICAST_LIKE_EXPIRE`. -/
def multicastLikeExpire : ℤ := 600000

/-- `ZT_MULTICAST_TRANSMIT_TIMEOUT`. -/
def multicastTransmitTimeout : UInt64 := 5000

/-- `Multicaster::Key`. -/
structure MulticastKey where
  nwid : NetworkId
  mg : MulticastGroup
deriving DecidableEq

instance : HashCode MulticastKey :=
  ⟨fun k => k.mg.mac.toNat ^^^ k.mg.adi.toNat ^^^ (k.nwid ^^^ (k.nwid >>> 32)).toNat⟩

/-- `Multicaster::MulticastGroupMember`. -/
structure MulticastGroupMember where
  address : Address
  /-- time of last notification -/
  timestamp : Int64
deriving DecidableEq

/-- What the queue looks at in an `OutboundMulticast`. -/
structure OutboundMulticast where
  timestamp : UInt64
  limit : ℕ
  alreadySentTo : List Address

/-- `Multicaster::MulticastGroupStatus`. -/
structure MulticastGroupStatus where
  /-- pending outbound multicasts -/
  txQueue : List OutboundMulticast := []
  /-- members of this group -/
  members : List MulticastGroupMember := []

instance : Inhabited MulticastGroupStatus := ⟨{}⟩

/-- A pending frame that is sent to a member. -/
structure Transmission where
  out : OutboundMulticast
  toAddr : Address

namespace OutboundMulticast

/-- `OutboundMulticast::expired`, where the difference is unsigned. -/
def expired (tx : OutboundMulticast) (now : Int64) : Bool :=
  multicastTransmitTimeout ≤ now.toUInt64 - tx.timestamp

/-- `OutboundMulticast::atLimit`. -/
def atLimit (tx : OutboundMulticast) : Bool := tx.limit ≤ tx.alreadySentTo.length

/-- `OutboundMulticast::sendIfNew`. -/
def sendIfNew (tx : OutboundMulticast) (toAddr : Address) :
    OutboundMulticast × List Transmission :=
  if tx.alreadySentTo.contains toAddr then (tx, [])
  else ({ tx with alreadySentTo := tx.alreadySentTo ++ [toAddr] }, [⟨tx, toAddr⟩])

/-- One turn of the loop of `_add` over the queue: what stays of a frame, and what is sent. -/
def offer (tx : OutboundMulticast) (member : Address) :
    Option OutboundMulticast × List Transmission :=
  if tx.atLimit then (none, [])
  else
    let r := tx.sendIfNew member
    (if r.1.atLimit then none else some r.1, r.2)

end OutboundMulticast

namespace MulticastGroupStatus

/-- The loop of `_add` over the queue. -/
def offer (gs : MulticastGroupStatus) (member : Address) :
    MulticastGroupStatus × List Transmission :=
  ({ gs with txQueue := gs.txQueue.filterMap fun tx => (tx.offer member).1 },
    gs.txQueue.flatMap fun tx => (tx.offer member).2)

/-- `Multicaster::_add`, on the node with address `me`. -/
def add (me : Address) (now : Int64) (gs : MulticastGroupStatus) (member : Address) :
    MulticastGroupStatus × List Transmission :=
  if member = me then (gs, [])
  else
    let m := lowerBound (fun x => decide (x.address < member)) gs.members
    (gs.members[m]?).elim
      (({ gs with members := gs.members ++ [⟨member, now⟩] } : MulticastGroupStatus).offer member)
      fun x =>
        if x.address = member then
          ({ gs with members := gs.members.set m { x with timestamp := now } }, [])
        else
          ({ gs with members := gs.members.insertIdx m ⟨member, now⟩ } :
            MulticastGroupStatus).offer member

/-- The loop of `addMultiple`. -/
def addAll (me : Address) (now : Int64) :
    MulticastGroupStatus → List Address → MulticastGroupStatus × List Transmission
  | gs, [] => (gs, [])
  | gs, member :: members =>
      let r := gs.add me now member
      let r' := r.1.addAll me now members
      (r'.1, r.2 ++ r'.2)

/-- The first member with the address is erased. -/
def remove (gs : MulticastGroupStatus) (member : Address) : MulticastGroupStatus :=
  { gs with members := gs.members.eraseP fun m => m.address = member }

/-- One turn of the loop of `clean`: what stays of a group. -/
def clean (now : Int64) (gs : MulticastGroupStatus) : Option MulticastGroupStatus :=
  let txQueue := gs.txQueue.filter fun tx => !(tx.expired now || tx.atLimit)
  let r :=
    compact (fun m => decide (now.toInt - m.timestamp.toInt < multicastLikeExpire)) gs.members
  if r.2 ≠ 0 then some ⟨txQueue, r.1.take r.2⟩
  else if txQueue.isEmpty then none
  else some ⟨txQueue, []⟩

end MulticastGroupStatus

/-- The groups of a `Multicaster`. -/
abbrev Multicaster := Hashtable MulticastKey MulticastGroupStatus

/-- What a `Multicaster` is called with. -/
inductive MulticasterCall
  /-- `Multicaster::add` -/
  | add (now : Int64) (k : MulticastKey) (member : Address)
  /-- `Multicaster::addMultiple`, with 5-byte addresses -/
  | addMultiple (now : Int64) (k : MulticastKey) (addresses : Bytes) (count : ℕ)
  /-- `Multicaster::remove` -/
  | remove (k : MulticastKey) (member : Address)
  /-- `Multicaster::clean` -/
  | clean (now : Int64)
  /-- what `Multicaster::send` leaves in the queue of a group, which it makes if there is none -/
  | send (k : MulticastKey) (txQueue : List OutboundMulticast)

/-- The addresses in an array of 5-byte fields. -/
def addressFields (addresses : Bytes) (count : ℕ) : List Address :=
  (List.range count).map fun i => Address.ofBytes (slice addresses (5 * i) 5)

namespace Multicaster

/-- `Multicaster::Multicaster`. -/
def init : Multicaster := Hashtable.empty 32 (Nat.succ_pos 31)

/-- The group that `operator[]` finds or makes gets the addresses. -/
def addAll (me : Address) (now : Int64) (groups : Multicaster) (k : MulticastKey)
    (members : List Address) : Multicaster × List Transmission :=
  (groups.modify k fun gs => (gs.addAll me now members).1,
    (((groups.get k).getD default).addAll me now members).2)

/-- What a call does. -/
def call (me : Address) (groups : Multicaster) : MulticasterCall → Multicaster × List Transmission
  | .add now k member => groups.addAll me now k [member]
  | .addMultiple now k addresses count => groups.addAll me now k (addressFields addresses count)
  | .remove k member =>
      ((groups.get k).elim groups fun gs => groups.set k (gs.remove member), [])
  | .clean now => (groups.sweep fun _ => MulticastGroupStatus.clean now, [])
  | .send k txQueue => (groups.modify k fun gs => { gs with txQueue := txQueue }, [])

/-- The multicaster of the node with address `me`. -/
def machine (me : Address) : Machine Multicaster MulticasterCall Transmission := ⟨call me⟩

/-- The members of a group. -/
def members (groups : Multicaster) (k : MulticastKey) : List MulticastGroupMember :=
  (groups.get k).elim [] MulticastGroupStatus.members

end Multicaster

/-! ### What a call says about a member -/

namespace MulticasterCall

/-- The call adds or refreshes member `a` of group `k` at time `r`. -/
def Refreshes (k : MulticastKey) (a : Address) (r : Int64) : MulticasterCall → Prop
  | .add now k' member => k' = k ∧ now = r ∧ member = a
  | .addMultiple now k' addresses count => k' = k ∧ now = r ∧ a ∈ addressFields addresses count
  | _ => False

/-- The call removes member `a` of group `k`. -/
def Removes (k : MulticastKey) (a : Address) : MulticasterCall → Prop
  | .remove k' member => k' = k ∧ member = a
  | _ => False

/-- The call cleans at a time when a member last refreshed at `r` is too old. -/
def Expires (r : Int64) : MulticasterCall → Prop
  | .clean now => multicastLikeExpire ≤ now.toInt - r.toInt
  | _ => False

end MulticasterCall

/-- The last of `calls` that refreshes member `a` of group `k` does so at time `r`, and `since` are
the calls after it. -/
def LastRefresh (calls : List MulticasterCall) (k : MulticastKey) (a : Address) (r : Int64)
    (since : List MulticasterCall) : Prop :=
  ∃ before e, calls = before ++ e :: since ∧ e.Refreshes k a r ∧
    ∀ f ∈ since, ∀ r', ¬f.Refreshes k a r'

/-- A member of group `k` last refreshed at time `r` was not lost. -/
def StaysMember (calls : List MulticasterCall) (k : MulticastKey) (a : Address) (r : Int64) :
    Prop :=
  ∃ since, LastRefresh calls k a r since ∧ ∀ f ∈ since, ¬f.Removes k a ∧ ¬f.Expires r

/-- What holds of the groups of the node with address `me` after `calls`. -/
structure MembershipInvariant (me : Address) (calls : List MulticasterCall) (groups : Multicaster) :
    Prop where
  sorted : ∀ k, (groups.members k).Pairwise fun m m' => m.address < m'.address
  notSelf : ∀ k, ∀ m ∈ groups.members k, m.address ≠ me
  /-- who is there, and since when -/
  mem_iff : ∀ k a r, ⟨a, r⟩ ∈ groups.members k ↔ a ≠ me ∧ StaysMember calls k a r
  /-- a refresh is recent if no cleaning since comes after `now` and `now` is not too late for it -/
  recent : ∀ k a r since now, a ≠ me → LastRefresh calls k a r since →
    (∀ f ∈ since, ¬f.Removes k a) → (∀ t, .clean t ∈ since → t ≤ now) →
      now.toInt - r.toInt < multicastLikeExpire → ⟨a, r⟩ ∈ groups.members k
  /-- when the last call cleaned, whoever is too old is gone -/
  cleaned : ∀ before now, calls = before ++ [.clean now] → ∀ k a r since,
    LastRefresh calls k a r since → multicastLikeExpire ≤ now.toInt - r.toInt →
      ∀ m ∈ groups.members k, m.address ≠ a

/-! ### The members of one group -/

section Members

/-- The members of a group are sorted and do not contain the node itself. -/
def MembersOk (me : Address) (members : List MulticastGroupMember) : Prop :=
  members.Pairwise (fun m m' => m.address < m'.address) ∧ ∀ m ∈ members, m.address ≠ me

variable {me : Address} (now : Int64) {gs : MulticastGroupStatus}

theorem address_ne_of_lt {a b : Address} (h : a < b) : a ≠ b := by
  rintro rfl
  exact BitVec.lt_irrefl a h

theorem MembersOk.filter {members : List MulticastGroupMember} (h : MembersOk me members)
    (p : MulticastGroupMember → Bool) : MembersOk me (members.filter p) :=
  ⟨h.1.filter p, fun m hm => h.2 m (List.mem_of_mem_filter hm)⟩

/-- **A new or refreshed member stands at its place**, between those below it and those above. -/
theorem MulticastGroupStatus.add_split
    (hs : gs.members.Pairwise fun m m' => m.address < m'.address) {member : Address}
    (hme : member ≠ me) :
    ∃ l₁ known l₂, gs.members = l₁ ++ known ++ l₂ ∧ (∀ x ∈ l₁, x.address < member) ∧
      (∀ x ∈ known, x.address = member) ∧ (∀ x ∈ l₂, member < x.address) ∧
      (gs.add me now member).1.members = l₁ ++ ⟨member, now⟩ :: l₂ := by
  obtain ⟨l₁, l₂, hv, h₁, h₂⟩ := split_of_pairwise (p := fun x => decide (x.address < member)) hs
    fun x y hxy hy => decide_eq_true (BitVec.lt_trans hxy (of_decide_eq_true hy))
  have hplace : lowerBound (fun x => decide (x.address < member)) gs.members = l₁.length := by
    rw [hv]
    exact lowerBound_append h₁ h₂
  have hbelow : ∀ x ∈ l₁, x.address < member := fun x hx => of_decide_eq_true (h₁ x hx)
  have habove : ∀ x ∈ l₂, member ≤ x.address :=
    fun x hx => BitVec.not_lt.mp (of_decide_eq_false (h₂ x hx))
  rw [MulticastGroupStatus.add, if_neg hme]
  dsimp only
  rw [hplace, hv]
  rw [hv] at hs
  rcases l₂ with - | ⟨y, l₂⟩
  · -- behind all the others
    refine ⟨l₁, [], [], by simp, hbelow, by simp, by simp, ?_⟩
    rw [List.append_nil, List.getElem?_eq_none le_rfl]
    rfl
  · have hget : (l₁ ++ y :: l₂)[l₁.length]? = some y := by simp
    have hy : ∀ x ∈ l₂, y.address < x.address :=
      (List.pairwise_cons.mp (List.pairwise_append.mp hs).2.1).1
    rw [hget, Option.elim_some]
    by_cases hknown : y.address = member
    · refine ⟨l₁, [y], l₂, by simp, hbelow, by simpa using hknown, ?_, ?_⟩
      · intro x hx
        rw [← hknown]
        exact hy x hx
      · rw [if_pos hknown]
        simp [hknown]
    · have hlt : member < y.address := by
        have hle := habove y List.mem_cons_self
        bv_omega
      refine ⟨l₁, [], y :: l₂, by simp, hbelow, by simp, ?_, ?_⟩
      · intro x hx
        rcases List.mem_cons.mp hx with rfl | hx
        · exact hlt
        · exact BitVec.lt_trans hlt (hy x hx)
      · rw [if_neg hknown]
        exact insertIdx_append l₁ (y :: l₂) _

/-- **What `_add` does** to the members. -/
theorem MulticastGroupStatus.mem_add (h : MembersOk me gs.members) (member : Address) :
    MembersOk me (gs.add me now member).1.members ∧
      ∀ x, x ∈ (gs.add me now member).1.members ↔
        member ≠ me ∧ x = ⟨member, now⟩ ∨ x.address ≠ member ∧ x ∈ gs.members := by
  by_cases hme : member = me
  · -- the node does not add itself
    have hadd : gs.add me now member = (gs, []) := if_pos hme
    rw [hadd]
    refine ⟨h, fun x => ⟨fun hx => Or.inr ⟨?_, hx⟩, ?_⟩⟩
    · rw [hme]
      exact h.2 x hx
    · rintro (⟨hne, -⟩ | ⟨-, hx⟩)
      · exact absurd hme hne
      · exact hx
  · obtain ⟨l₁, known, l₂, hv, h₁, hknown, h₂, hadd⟩ := gs.add_split now h.1 hme
    obtain ⟨hs, hself⟩ := h
    rw [hadd]
    rw [hv] at hs hself ⊢
    refine ⟨⟨?_, ?_⟩, ?_⟩
    · have hl₁ := (List.pairwise_append.mp (List.pairwise_append.mp hs).1).1
      have hl₂ := (List.pairwise_append.mp hs).2.1
      refine List.pairwise_append.mpr ⟨hl₁, List.pairwise_cons.mpr ⟨h₂, hl₂⟩, ?_⟩
      intro x hx y hy
      rcases List.mem_cons.mp hy with rfl | hy
      · exact h₁ x hx
      · exact BitVec.lt_trans (h₁ x hx) (h₂ y hy)
    · intro x hx
      rcases List.mem_append.mp hx with hx | hx
      · exact hself x (by simp [hx])
      · rcases List.mem_cons.mp hx with rfl | hx
        · exact hme
        · exact hself x (by simp [hx])
    · intro x
      simp only [List.mem_append, List.mem_cons]
      constructor
      · rintro (hx | rfl | hx)
        · exact Or.inr ⟨address_ne_of_lt (h₁ x hx), Or.inl (Or.inl hx)⟩
        · exact Or.inl ⟨hme, rfl⟩
        · exact Or.inr ⟨(address_ne_of_lt (h₂ x hx)).symm, Or.inr hx⟩
      · rintro (⟨-, rfl⟩ | ⟨hne, (hx | hx) | hx⟩)
        · exact Or.inr (Or.inl rfl)
        · exact Or.inl hx
        · exact absurd (hknown x hx) hne
        · exact Or.inr (Or.inr hx)

/-- **What the loop of `addMultiple` does** to the members. -/
theorem MulticastGroupStatus.mem_addAll (h : MembersOk me gs.members) (members : List Address) :
    MembersOk me (gs.addAll me now members).1.members ∧
      ∀ x, x ∈ (gs.addAll me now members).1.members ↔
        (x.address ∈ members ∧ x.address ≠ me ∧ x.timestamp = now) ∨
          x.address ∉ members ∧ x ∈ gs.members := by
  induction members generalizing gs with
  | nil =>
      refine ⟨h, fun x => ?_⟩
      simp [MulticastGroupStatus.addAll]
  | cons member members ih =>
      obtain ⟨hadd, hmem⟩ := gs.mem_add now h member
      obtain ⟨hok, ih⟩ := ih hadd
      refine ⟨hok, fun x => (ih x).trans ?_⟩
      rw [hmem x, List.mem_cons]
      obtain ⟨a, r⟩ := x
      simp only [MulticastGroupMember.mk.injEq]
      by_cases ha : a = member <;> by_cases ham : a ∈ members <;> grind

/-- **What `clean` leaves** of the members. -/
theorem MulticastGroupStatus.members_clean (now : Int64) (gs : MulticastGroupStatus) :
    (gs.clean now).elim [] MulticastGroupStatus.members =
      gs.members.filter fun m => decide (now.toInt - m.timestamp.toInt < multicastLikeExpire) := by
  obtain ⟨htake, hcount⟩ :=
    compact_eq (fun m => decide (now.toInt - m.timestamp.toInt < multicastLikeExpire)) gs.members
  rw [MulticastGroupStatus.clean]
  split_ifs with hkept hempty
  · exact htake
  · exact (List.length_eq_zero_iff.mp (hcount.symm.trans (not_not.mp hkept))).symm
  · exact (List.length_eq_zero_iff.mp (hcount.symm.trans (not_not.mp hkept))).symm

/-- **What `remove` leaves** of the members. -/
theorem MulticastGroupStatus.mem_remove (h : MembersOk me gs.members) (member : Address) :
    MembersOk me (gs.remove member).members ∧
      ∀ x, x ∈ (gs.remove member).members ↔ x.address ≠ member ∧ x ∈ gs.members := by
  have herase :
      (gs.remove member).members = gs.members.filter fun m => decide (m.address ≠ member) := by
    show gs.members.eraseP (fun m => decide (m.address = member)) = _
    have hs := h.1
    revert hs
    induction gs.members with
    | nil => exact fun _ => rfl
    | cons x members ih =>
        intro hs
        obtain ⟨hx, hrest⟩ := List.pairwise_cons.mp hs
        by_cases hxm : x.address = member
        · -- the others stand above it
          rw [List.eraseP_cons_of_pos (by simpa using hxm),
            List.filter_cons_of_neg (by simpa using hxm), List.filter_eq_self.mpr]
          intro y hy
          rw [decide_eq_true_eq, ← hxm]
          exact (address_ne_of_lt (hx y hy)).symm
        · rw [List.eraseP_cons_of_neg (by simpa using hxm),
            List.filter_cons_of_pos (by simpa using hxm), ih hrest]
  rw [herase]
  refine ⟨h.filter _, fun x => ?_⟩
  rw [List.mem_filter, decide_eq_true_eq, and_comm]

end Members

/-! ### Runs -/

namespace Multicaster

variable {me : Address}

theorem members_modify (groups : Multicaster) (k : MulticastKey)
    (f : MulticastGroupStatus → MulticastGroupStatus) (k' : MulticastKey) :
    members (groups.modify k f) k' =
      if k' = k then (f ((groups.get k).getD default)).members else groups.members k' := by
  rw [members, Hashtable.get_modify]
  split_ifs
  · rfl
  · rfl

theorem members_getD (groups : Multicaster) (k : MulticastKey) :
    ((groups.get k).getD default).members = groups.members k := by
  rw [members]
  rcases groups.get k with - | gs
  · rfl
  · rfl

/-- The group of a key is in order. -/
theorem membersOk_getD {groups : Multicaster} (h : ∀ k, MembersOk me (groups.members k))
    (k : MulticastKey) : MembersOk me ((groups.get k).getD default).members := by
  rw [members_getD]
  exact h k

/-- Members are added to one group. -/
theorem mem_addAll {groups : Multicaster} (h : ∀ k, MembersOk me (groups.members k)) (now : Int64)
    (k' : MulticastKey) (addresses : List Address) (k : MulticastKey) :
    MembersOk me (members (groups.addAll me now k' addresses).1 k) ∧
      ∀ a r, ⟨a, r⟩ ∈ members (groups.addAll me now k' addresses).1 k ↔
        a ≠ me ∧ (k' = k ∧ now = r ∧ a ∈ addresses) ∨
          ¬(k' = k ∧ a ∈ addresses) ∧ ⟨a, r⟩ ∈ groups.members k := by
  have hm : members (groups.addAll me now k' addresses).1 k = _ :=
    members_modify groups k' (fun gs => (gs.addAll me now addresses).1) k
  by_cases hk : k = k'
  · subst hk
    obtain ⟨hok, hmem⟩ := MulticastGroupStatus.mem_addAll now (membersOk_getD h k) addresses
    rw [members_getD] at hmem
    rw [if_pos rfl] at hm
    rw [hm]
    refine ⟨hok, fun a r => (hmem ⟨a, r⟩).trans ?_⟩
    constructor
    · rintro (⟨ha, hme, hr⟩ | ⟨ha, hx⟩)
      · exact Or.inl ⟨hme, rfl, hr.symm, ha⟩
      · exact Or.inr ⟨fun hc => ha hc.2, hx⟩
    · rintro (⟨hme, -, hr, ha⟩ | ⟨ha, hx⟩)
      · exact Or.inl ⟨ha, hme, hr.symm⟩
      · exact Or.inr ⟨fun hc => ha ⟨rfl, hc⟩, hx⟩
  · rw [if_neg hk] at hm
    rw [hm]
    refine ⟨h k, fun a r => ⟨fun hx => Or.inr ⟨fun hc => hk hc.1.symm, hx⟩, ?_⟩⟩
    rintro (⟨-, hc, -⟩ | ⟨-, hx⟩)
    · exact absurd hc.symm hk
    · exact hx

/-- A member is removed from one group. -/
theorem mem_remove {groups : Multicaster} (h : ∀ k, MembersOk me (groups.members k))
    (k' : MulticastKey) (member : Address) (k : MulticastKey) :
    MembersOk me (members (groups.call me (.remove k' member)).1 k) ∧
      ∀ x, x ∈ members (groups.call me (.remove k' member)).1 k ↔
        ¬(k' = k ∧ member = x.address) ∧ x ∈ groups.members k := by
  have hm : members (groups.call me (.remove k' member)).1 k =
      if k = k' then ((groups.get k').getD default |>.remove member).members
      else groups.members k := by
    show members ((groups.get k').elim groups fun gs => groups.set k' (gs.remove member)) k = _
    rcases hget : groups.get k' with - | gs
    · split_ifs with hk
      · rw [hk, Option.elim_none, members, hget]
        rfl
      · rfl
    · rw [Option.elim_some, members, Hashtable.get_set]
      split_ifs
      · rfl
      · rfl
  rw [hm]
  by_cases hk : k = k'
  · subst hk
    obtain ⟨hok, hmem⟩ := MulticastGroupStatus.mem_remove (membersOk_getD h k) member
    rw [members_getD] at hmem
    rw [if_pos rfl]
    refine ⟨hok, fun x => (hmem x).trans (and_congr_left fun _ => ?_)⟩
    exact ⟨fun ha hc => ha hc.2.symm, fun hc ha => hc ⟨rfl, ha.symm⟩⟩
  · rw [if_neg hk]
    exact ⟨h k, fun x => ⟨fun hx => ⟨fun hc => hk hc.1.symm, hx⟩, And.right⟩⟩

/-- The cleaning keeps the members that are not too old. -/
theorem members_clean (groups : Multicaster) (now : Int64) (k : MulticastKey) :
    members (groups.call me (.clean now)).1 k =
      (groups.members k).filter fun m =>
        decide (now.toInt - m.timestamp.toInt < multicastLikeExpire) := by
  show ((Hashtable.sweep groups fun _ => MulticastGroupStatus.clean now).get k).elim [] _ = _
  rw [Hashtable.get_sweep, members]
  rcases groups.get k with - | gs
  · rfl
  · exact MulticastGroupStatus.members_clean now gs

/-- What is left to send is not among the members. -/
theorem members_send (groups : Multicaster) (k' : MulticastKey) (txQueue : List OutboundMulticast)
    (k : MulticastKey) :
    members (groups.call me (.send k' txQueue)).1 k = groups.members k := by
  refine (members_modify groups k' _ k).trans ?_
  split_ifs with hk
  · rw [hk]
    exact members_getD groups k'
  · rfl

/-- **One call**: a member is there afterwards if it was refreshed, or if it was there before and
the call neither refreshed nor removed it, nor was a cleaning that found it too old. -/
theorem mem_call {groups : Multicaster} (h : ∀ k, MembersOk me (groups.members k))
    (e : MulticasterCall) (k : MulticastKey) :
    MembersOk me (members (groups.call me e).1 k) ∧
      ∀ a r, ⟨a, r⟩ ∈ members (groups.call me e).1 k ↔ a ≠ me ∧ e.Refreshes k a r ∨
        ((∀ r', ¬e.Refreshes k a r') ∧ ¬e.Removes k a ∧ ¬e.Expires r) ∧
          ⟨a, r⟩ ∈ groups.members k := by
  cases e with
  | add now k' member =>
      obtain ⟨hok, hmem⟩ := mem_addAll h now k' [member] k
      refine ⟨hok, fun a r => (hmem a r).trans ?_⟩
      rw [List.mem_singleton]
      refine or_congr (and_congr_right fun _ => ?_) (and_congr_left fun _ => ?_)
      · exact ⟨fun hc => ⟨hc.1, hc.2.1, hc.2.2.symm⟩, fun hc => ⟨hc.1, hc.2.1, hc.2.2.symm⟩⟩
      · constructor
        · intro hc
          exact ⟨fun r' hr => hc ⟨hr.1, hr.2.2.symm⟩, id, id⟩
        · rintro ⟨hc, -⟩ ⟨hk, ha⟩
          exact hc now ⟨hk, rfl, ha.symm⟩
  | addMultiple now k' addresses count =>
      obtain ⟨hok, hmem⟩ := mem_addAll h now k' (addressFields addresses count) k
      refine ⟨hok, fun a r => (hmem a r).trans ?_⟩
      refine or_congr Iff.rfl (and_congr_left fun _ => ?_)
      constructor
      · intro hc
        exact ⟨fun r' hr => hc ⟨hr.1, hr.2.2⟩, id, id⟩
      · rintro ⟨hc, -⟩ ⟨hk, ha⟩
        exact hc now ⟨hk, rfl, ha⟩
  | remove k' member =>
      obtain ⟨hok, hmem⟩ := mem_remove h k' member k
      refine ⟨hok, fun a r => (hmem ⟨a, r⟩).trans ?_⟩
      constructor
      · rintro ⟨hc, hx⟩
        exact Or.inr ⟨⟨fun _ => id, hc, id⟩, hx⟩
      · rintro (⟨-, hc⟩ | ⟨⟨-, hc, -⟩, hx⟩)
        · exact hc.elim
        · exact ⟨hc, hx⟩
  | clean now =>
      rw [members_clean]
      refine ⟨(h k).filter _, fun a r => ?_⟩
      rw [List.mem_filter, decide_eq_true_eq]
      constructor
      · rintro ⟨hx, hr⟩
        exact Or.inr ⟨⟨fun _ => id, id, not_le.mpr hr⟩, hx⟩
      · rintro (⟨-, hc⟩ | ⟨⟨-, -, hr⟩, hx⟩)
        · exact hc.elim
        · exact ⟨hx, not_le.mp hr⟩
  | send k' txQueue =>
      rw [members_send]
      refine ⟨h k, fun a r => ⟨fun hx => Or.inr ⟨⟨fun _ => id, id, id⟩, hx⟩, ?_⟩⟩
      rintro (⟨-, hc⟩ | ⟨-, hx⟩)
      · exact hc.elim
      · exact hx

end Multicaster

/-- The last refresh of a member is at one time. -/
theorem LastRefresh.unique {calls : List MulticasterCall} {k : MulticastKey} {a : Address}
    {r r' : Int64} {since since' : List MulticasterCall} (h : LastRefresh calls k a r since)
    (h' : LastRefresh calls k a r' since') : r = r' ∧ since = since' := by
  obtain ⟨before, e, rfl, he, hlast⟩ := h
  obtain ⟨before', e', heq, he', hlast'⟩ := h'
  have hsame : e = e' ∧ since = since' := by
    rcases List.append_eq_append_iff.mp heq with ⟨as, -, has⟩ | ⟨as, -, has⟩
    · rcases as with - | ⟨x, as⟩
      · exact List.cons.inj has
      · -- the other refresh would come after the last
        have hmem : e' ∈ since := by
          rw [(List.cons.inj has).2]
          exact List.mem_append_right as List.mem_cons_self
        exact absurd he' (hlast e' hmem r')
    · rcases as with - | ⟨x, as⟩
      · exact ⟨(List.cons.inj has).1.symm, (List.cons.inj has).2.symm⟩
      · have hmem : e ∈ since' := by
          rw [(List.cons.inj has).2]
          exact List.mem_append_right as List.mem_cons_self
        exact absurd he (hlast' e hmem r)
  obtain ⟨rfl, hsince⟩ := hsame
  refine ⟨?_, hsince⟩
  cases e with
  | add now k' member => exact he.2.1.symm.trans he'.2.1
  | addMultiple now k' addresses count => exact he.2.1.symm.trans he'.2.1
  | remove k' member => exact he.elim
  | clean now => exact he.elim
  | send k' txQueue => exact he.elim

/-- One call more. -/
theorem staysMember_concat {calls : List MulticasterCall} {e : MulticasterCall} {k : MulticastKey}
    {a : Address} {r : Int64} :
    StaysMember (calls ++ [e]) k a r ↔ e.Refreshes k a r ∨
      ((∀ r', ¬e.Refreshes k a r') ∧ ¬e.Removes k a ∧ ¬e.Expires r) ∧ StaysMember calls k a r := by
  constructor
  · rintro ⟨since, ⟨before, e', heq, he', hlast⟩, hkept⟩
    rcases List.eq_nil_or_concat since with rfl | ⟨since, f, rfl⟩
    · obtain ⟨-, he⟩ := List.append_inj' heq rfl
      exact Or.inl ((List.singleton_inj.mp he) ▸ he')
    · have hf : f ∈ since.concat f := by simp
      rw [List.concat_eq_append] at heq hlast hkept hf
      rw [← List.cons_append, ← List.append_assoc] at heq
      obtain ⟨rfl, he⟩ := List.append_inj' heq rfl
      obtain rfl := List.singleton_inj.mp he
      refine Or.inr ⟨⟨hlast e hf, hkept e hf⟩, since, ⟨before, e', rfl, he', ?_⟩, ?_⟩
      · exact fun f hf => hlast f (List.mem_append_left _ hf)
      · exact fun f hf => hkept f (List.mem_append_left _ hf)
  · rintro (he | ⟨⟨hrefresh, hlost⟩, since, ⟨before, e', rfl, he', hlast⟩, hkept⟩)
    · refine ⟨[], ⟨calls, e, rfl, he, ?_⟩, ?_⟩
      · exact fun f hf => absurd hf List.not_mem_nil
      · exact fun f hf => absurd hf List.not_mem_nil
    · refine ⟨since ++ [e], ⟨before, e', by rw [List.append_assoc, List.cons_append], he', ?_⟩, ?_⟩
      · intro f hf
        rcases List.mem_append.mp hf with hf | hf
        · exact hlast f hf
        · rwa [List.mem_singleton.mp hf]
      · intro f hf
        rcases List.mem_append.mp hf with hf | hf
        · exact hkept f hf
        · rwa [List.mem_singleton.mp hf]

/-- **A run of calls**: the members stay sorted without the node itself, and whoever is kept is
there. -/
theorem members_run (me : Address) (calls : List MulticasterCall) :
    ∀ k, MembersOk me (((Multicaster.machine me).runState .init calls).members k) ∧
      ∀ a r, ⟨a, r⟩ ∈ ((Multicaster.machine me).runState .init calls).members k ↔
        a ≠ me ∧ StaysMember calls k a r := by
  refine Machine.invariant_run (M := Multicaster.machine me) (C := fun _ _ => True)
    (I := fun calls groups => ∀ k, MembersOk me (groups.members k) ∧
      ∀ a r, ⟨a, r⟩ ∈ groups.members k ↔ a ≠ me ∧ StaysMember calls k a r)
    ?_ (h := []) ?_ (Machine.guarded_true _ _ calls)
  · intro h groups e hI _ k
    obtain ⟨hok, hmem⟩ := Multicaster.mem_call (fun k => (hI k).1) e k
    refine ⟨hok, fun a r => (hmem a r).trans ?_⟩
    rw [staysMember_concat, (hI k).2 a r]
    constructor
    · rintro (⟨hme, hr⟩ | ⟨hlost, hme, hr⟩)
      · exact ⟨hme, Or.inl hr⟩
      · exact ⟨hme, Or.inr ⟨hlost, hr⟩⟩
    · rintro ⟨hme, hr | ⟨hlost, hr⟩⟩
      · exact Or.inl ⟨hme, hr⟩
      · exact Or.inr ⟨hlost, hme, hr⟩
  · intro k
    have hnil : Multicaster.members Multicaster.init k = [] := by
      rw [Multicaster.members, Multicaster.init, Hashtable.get_empty]
      rfl
    show MembersOk me (Multicaster.members Multicaster.init k) ∧ _
    rw [hnil]
    refine ⟨⟨List.Pairwise.nil, fun m hm => absurd hm List.not_mem_nil⟩, fun a r => ?_⟩
    refine iff_of_false List.not_mem_nil ?_
    rintro ⟨-, since, ⟨before, e, heq, -⟩, -⟩
    exact List.append_ne_nil_of_right_ne_nil before (List.cons_ne_nil e since) heq.symm

/-- **The members of the groups.**  After any calls whatever the members of each group are strictly
sorted and do not contain the node itself; a member is there with the time of its last refresh
exactly if it was neither removed since nor found too old by a cleaning.  So whoever was refreshed
recently is there, and after a cleaning nobody is who was not. -/
theorem membershipInvariant (me : Address) (calls : List MulticasterCall) :
    MembershipInvariant me calls ((Multicaster.machine me).runState .init calls) := by
  have hrun := members_run me calls
  refine ⟨fun k => (hrun k).1.1, fun k => (hrun k).1.2, fun k => (hrun k).2, ?_, ?_⟩
  · intro k a r since now hme hlast hremoved hcleaned hrecent
    refine ((hrun k).2 a r).mpr ⟨hme, since, hlast, fun f hf => ⟨hremoved f hf, ?_⟩⟩
    intro hexpires
    cases f with
    | clean t =>
        have ht := hcleaned t hf
        have ht := Int64.le_iff_toInt_le.mp ht
        have hold : multicastLikeExpire ≤ t.toInt - r.toInt := hexpires
        omega
    | _ => exact hexpires
  · rintro before now hcalls k a r since hlast hold ⟨a', r'⟩ hm rfl
    obtain ⟨-, since', hlast', hkept⟩ := ((hrun k).2 a' r').mp hm
    obtain ⟨rfl, rfl⟩ := hlast.unique hlast'
    obtain ⟨before', e, heq, he, -⟩ := hlast
    -- the cleaning comes after the refresh
    have hmem : MulticasterCall.clean now ∈ since := by
      rw [hcalls] at heq
      rcases List.eq_nil_or_concat since with rfl | ⟨since, f, rfl⟩
      · obtain ⟨-, hlastcall⟩ := List.append_inj' heq rfl
        rw [← List.singleton_inj.mp hlastcall] at he
        exact he.elim
      · rw [List.concat_eq_append] at heq ⊢
        rw [← List.cons_append, ← List.append_assoc] at heq
        obtain ⟨-, hlastcall⟩ := List.append_inj' heq rfl
        rw [List.singleton_inj.mp hlastcall]
        exact List.mem_append_right since List.mem_cons_self
    exact (hkept _ hmem).2 hold

end ZGalaxy
