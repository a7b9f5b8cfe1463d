/-
ZGalaxy/Ownership.lean

Who owns an IP address.

A member owns an address by a certificate of ownership that was accepted for it, is in date
and is not revoked.  Besides, with NDP emulation on, every member owns every address of the
network's 6plane /40 or RFC4193 /88, if this node's own address of that scheme is among its
static IPs: the comparison looks at the part that all members' addresses share, never at the
member.

Main results: `owned_iff`, in every reachable state; `owned_by_another`, an address of one
member that is authenticated in a frame from another.
-/
import ZGalaxy.Gate
import ZGalaxy.Filter

namespace ZGalaxy

open ZGalaxy.Membership

/-! ### Blocks of addresses -/

namespace Membership

/-- **What owning an address by emulation is**: this node's own address of a scheme is among its
static IPs, and the address lies in the block that the scheme gives the network. -/
def Emulated (nconf : NetworkConfig) (ip : InetAddress) : Prop :=
  ip.isV6 = true ∧ nconf.ndpEmulation = true ∧
    ∃ n own, (n, own) ∈ [(5, InetAddress.makeIpv66plane nconf.networkId nconf.issuedTo),
        (11, InetAddress.makeIpv6rfc4193 nconf.networkId nconf.issuedTo)] ∧
      (∃ s ∈ nconf.staticIps, s.ipsEqual own = true) ∧ prefixMatches n ip own = true

theorem isV6NDPEmulated_iff {nconf : NetworkConfig} {ip : InetAddress} :
    isV6NDPEmulated nconf ip = true ↔ Emulated nconf ip := by
  unfold isV6NDPEmulated Emulated
  simp only [Bool.and_eq_true, Bool.or_eq_true, List.any_eq_true, List.mem_cons, Prod.mk.injEq,
    List.not_mem_nil, or_false]
  constructor
  · rintro ⟨⟨hv, hn⟩, h | h⟩
    · exact ⟨hv, hn, 5, _, .inl ⟨rfl, rfl⟩, h⟩
    · exact ⟨hv, hn, 11, _, .inr ⟨rfl, rfl⟩, h⟩
  · rintro ⟨hv, hn, n, own, ⟨rfl, rfl⟩ | ⟨rfl, rfl⟩, h⟩
    · exact ⟨⟨hv, hn⟩, .inl h⟩
    · exact ⟨⟨hv, hn⟩, .inr h⟩

variable {ecc : Ecc} {known : KnownIdentities}

variable (ecc known) in
/-- What adding a certificate of ownership does. -/
theorem addCoo_spec (m : Membership) (coo : CertificateOfOwnership) :
    (m.addCoo ecc known coo).2.remoteCoos = m.remoteCoos ∨
      (m.addCoo ecc known coo).1 = .acceptedNew ∧ coo.verify ecc known = .ok ∧
        (m.addCoo ecc known coo).2.remoteCoos = m.remoteCoos.set coo.id coo := by
  show (addCredImpl ecc known m.remoteCoos m.revocations coo).2 = m.remoteCoos ∨
    (addCredImpl ecc known m.remoteCoos m.revocations coo).1 = .acceptedNew ∧ _ ∧
      (addCredImpl ecc known m.remoteCoos m.revocations coo).2 = m.remoteCoos.set coo.id coo
  unfold addCredImpl
  dsimp only
  split_ifs
  · exact .inl rfl
  · exact .inl rfl
  · exact .inl rfl
  · rcases hv : Credential.verify ecc known coo with - | - | -
    · exact .inr ⟨rfl, hv, rfl⟩
    · exact .inl rfl
    · exact .inl rfl

/-- Revocations leave certificates of ownership stored. -/
theorem addRevocation_remoteCoos (m : Membership) (rev : Revocation) :
    (m.addRevocation ecc known rev).2.remoteCoos = m.remoteCoos := by
  unfold addRevocation
  rcases rev.verify ecc known with - | - | - <;> dsimp only
  · split_ifs <;> rfl

theorem addCom_remoteCoos (m : Membership) (com : CertificateOfMembership) :
    (m.addCom ecc known com).2.remoteCoos = m.remoteCoos := by
  rcases addCom_spec ecc known m com with h | ⟨-, -, h⟩
  all_goals
    rw [h]

theorem multicastLikeGate_remoteCoos (m : Membership) (now : Int64) :
    (m.multicastLikeGate now).2.remoteCoos = m.remoteCoos := by
  unfold multicastLikeGate
  split_ifs <;> rfl

end Membership

namespace Network

variable (ecc : Ecc) (ownAddress : Address)

/-! ### Where stored certificates come from -/

/-- A certificate of ownership was accepted for `a` in network `id`. -/
structure CooAccepted (n₀ : Network) (es : List Event) (id : NetworkId) (a : Address)
    (coo : CertificateOfOwnership) : Prop where
  accepted : ∃ known, Answered ecc ownAddress n₀ es (.addCoo known coo) .acceptedNew ∧
    coo.verify ecc known = .ok
  networkId : coo.networkId = id
  issuedTo : coo.issuedTo = a

/-- Every stored certificate of a member was accepted for it. -/
def CooInv (n₀ : Network) (es : List Event) (n : Network) (a : Address) : Prop :=
  ∀ i coo, (n.membership a).remoteCoos.get i = some coo →
    CooAccepted ecc ownAddress n₀ es n.id a coo

variable {ecc ownAddress}

theorem CooAccepted.concat {n₀ : Network} {es : List Event} {id : NetworkId} {a : Address}
    {coo : CertificateOfOwnership} (h : CooAccepted ecc ownAddress n₀ es id a coo) (e : Event) :
    CooAccepted ecc ownAddress n₀ (es ++ [e]) id a coo := by
  obtain ⟨⟨known, hans, hver⟩, hnet, hto⟩ := h
  exact ⟨⟨known, answered_concat.mpr (.inl hans), hver⟩, hnet, hto⟩

/-- **What an event does to the stored certificates of ownership**: those found afterwards were
there before, or one has just been accepted. -/
theorem memberStep_remoteCoos (n : Network) (a : Address) (m : Membership) (e : Event) {i : UInt32}
    {coo : CertificateOfOwnership} (h : (n.memberStep ecc a m e).remoteCoos.get i = some coo) :
    m.remoteCoos.get i = some coo ∨ ∃ known, e = .addCoo known coo ∧ coo.networkId = n.id ∧
      coo.issuedTo = a ∧ (m.addCoo ecc known coo).1 = .acceptedNew ∧
        coo.verify ecc known = .ok := by
  revert h
  unfold memberStep
  cases e with
  | addCom known com =>
      dsimp only
      split_ifs
      · rw [addCom_remoteCoos]
        exact .inl
      · exact .inl
  | addTag | addCapability =>
      dsimp only
      split_ifs
      · exact .inl
      · exact .inl
  | addCoo known coo' =>
      dsimp only
      split_ifs with hfor
      · rcases addCoo_spec ecc known m coo' with hkept | ⟨hnew, hver, hset⟩
        · rw [hkept]
          exact .inl
        · rw [hset, Hashtable.get_set]
          split_ifs with hi
          · intro h
            obtain rfl := Option.some.inj h
            exact .inr ⟨known, rfl, hfor.1, hfor.2, hnew, hver⟩
          · exact .inl
      · exact .inl
  | addRevocation known sentFrom rev =>
      dsimp only
      split_ifs
      · rw [addRevocation_remoteCoos]
        exact .inl
      · exact .inl
  | setConfiguration nconf => exact .inl
  | gate now peer =>
      dsimp only
      split_ifs
      · rw [multicastLikeGate_remoteCoos]
        exact .inl
      · exact .inl
  | clean cached =>
      dsimp only
      split_ifs
      · exact .inl
      · intro h
        have h' : (m.remoteCoos.retain _).get i = some coo := h
        -- the cleaning only takes away
        rw [Hashtable.get_retain, Option.filter_eq_some_iff] at h'
        exact .inl h'.1
      · intro h
        have h' : (Hashtable.empty 4 (by decide)).get i = some coo := h
        rw [Hashtable.get_empty] at h'
        cases h'

theorem cooInv_step {n₀ : Network} {es : List Event} {a : Address} (e : Event)
    (hinv : CooInv ecc ownAddress n₀ es ((machine ecc ownAddress).runState n₀ es) a) :
    CooInv ecc ownAddress n₀ (es ++ [e]) ((machine ecc ownAddress).runState n₀ (es ++ [e])) a := by
  intro i coo h
  set n := (machine ecc ownAddress).runState n₀ es with hn
  rw [Machine.runState_concat, ← hn, step_id]
  rw [Machine.runState_concat, ← hn, step_membership] at h
  rcases memberStep_remoteCoos n a _ e h with hold | ⟨known, rfl, hnet, hto, hnew, hver⟩
  · exact (hinv i coo hold).concat e
  · refine ⟨⟨known, answered_concat.mpr (.inr ⟨rfl, ?_⟩), hver⟩, hnet, hto⟩
    show some (n.addCoo ecc known coo).1 = some .acceptedNew
    rw [addCoo, addCredential, if_neg (not_not.mpr hnet), hto, hnew]

variable (ecc ownAddress) in
/-- **The invariant holds** after every run. -/
theorem cooInv_run (id : NetworkId) (es : List Event) (a : Address) :
    CooInv ecc ownAddress (initial id) es
      ((machine ecc ownAddress).runState (initial id) es) a := by
  induction es using List.reverseRecOn with
  | nil =>
      intro i coo h
      have h' : (Hashtable.empty 4 (by decide)).get i = some coo := h
      rw [Hashtable.get_empty] at h'
      cases h'
  | append_singleton es e ih => exact cooInv_step e ih

end Network

/-! ### The characteristic of a frame -/

namespace FilterContext

variable (c : FilterContext)

theorem characteristic_getLsbD (flag : BitVec 64) (b : Bool) (i : ℕ) :
    (characteristic flag b).getLsbD i = (b && flag.getLsbD i) := by
  unfold characteristic
  rcases b with - | -
  · simp
  · simp

/-- TCP flags are the low bits. -/
theorem tcpFlagsAt_getLsbD (pos : ℕ) : (c.tcpFlagsAt pos).getLsbD 60 = false := by
  have h : c.frame.byte (pos + 13) < 2 ^ 60 :=
    lt_trans (UInt8.toNat_lt (c.frame.frameData (pos + 13))) (by norm_num)
  have h' : (c.frame.byte (pos + 12) &&& 0x0f) < 2 ^ 52 :=
    lt_of_le_of_lt Nat.and_le_right (by norm_num)
  unfold tcpFlagsAt
  rw [BitVec.getLsbD_or, BitVec.getLsbD_shiftLeft, BitVec.getLsbD_ofNat, BitVec.getLsbD_ofNat,
    Nat.testBit_lt_two_pow h, Nat.testBit_lt_two_pow h']
  rfl

theorem tcpFlags_cases : (∃ pos, c.tcpFlags = c.tcpFlagsAt pos) ∨ c.tcpFlags = 0 := by
  unfold tcpFlags
  dsimp only
  rcases c.frame.ipv6GetPayload with - | ⟨pos, proto⟩ <;> dsimp only <;> split_ifs
  · exact .inl ⟨_, rfl⟩
  · exact .inr rfl
  · exact .inr rfl
  · exact .inl ⟨_, rfl⟩
  · exact .inl ⟨_, rfl⟩
  · exact .inr rfl
  · exact .inr rfl

theorem tcpFlags_getLsbD : c.tcpFlags.getLsbD 60 = false := by
  rcases c.tcpFlags_cases with ⟨pos, h⟩ | h
  · rw [h, tcpFlagsAt_getLsbD]
  · rw [h]
    exact BitVec.getLsbD_zero

/-- **When the sender's address is authenticated.** -/
theorem senderIpAuthenticated_iff :
    c.characteristics &&& senderIpAuthenticated ≠ 0
      ↔ c.isSolicitation = true ∨ c.senderIpOwned = true := by
  have hbit : c.characteristics.getLsbD 60 = (c.isSolicitation || c.senderIpOwned) := by
    unfold characteristics ownershipVerificationMask senderIpAuthenticated
    simp only [BitVec.getLsbD_or, characteristic_getLsbD, tcpFlags_getLsbD, Bool.or_false]
    simp
  have hpow : senderIpAuthenticated = BitVec.twoPow 64 60 := by decide
  rw [hpow, BitVec.and_twoPow, hbit, ← Bool.or_eq_true]
  split_ifs with h
  · exact iff_of_true (by decide) h
  · exact iff_of_false (fun hne => hne rfl) h

end FilterContext

/-! ### Owning an address -/

namespace Network

variable (ecc : Ecc) (ownAddress : Address)

/-- **The two ways to own an address** in a network after a run: a certificate accepted for the
member, in date and not revoked, or the emulation, which does not look at the member. -/
def Owns (id : NetworkId) (es : List Event) (a : Address) (nconf : NetworkConfig)
    (ip : InetAddress) : Prop :=
  (∃ coo ∈ (((machine ecc ownAddress).runState (initial id) es).membership a).validCoos nconf,
      CooAccepted ecc ownAddress (initial id) es id a coo ∧ coo.ownsIp ip = true)
    ∨ Emulated nconf ip

variable {ecc ownAddress}

theorem runState_id (id : NetworkId) (es : List Event) :
    ((machine ecc ownAddress).runState (initial id) es).id = id := by
  induction es using List.reverseRecOn with
  | nil => rfl
  | append_singleton es e ih => rw [Machine.runState_concat, step_id, ih]

theorem hasCertificateOfOwnership_iff (id : NetworkId) (es : List Event) (a : Address)
    (nconf : NetworkConfig) (ip : InetAddress) :
    (((machine ecc ownAddress).runState (initial id) es).membership
        a).hasCertificateOfOwnershipForIp nconf ip = true
      ↔ Owns ecc ownAddress id es a nconf ip := by
  unfold hasCertificateOfOwnershipForIp Owns
  rw [Bool.or_eq_true, isV6NDPEmulated_iff, List.any_eq_true]
  refine or_congr ⟨?_, ?_⟩ Iff.rfl
  · rintro ⟨coo, hmem, hown⟩
    refine ⟨coo, hmem, ?_, hown⟩
    unfold validCoos at hmem
    rw [List.mem_filter, List.mem_map] at hmem
    obtain ⟨⟨⟨i, _⟩, hentry, rfl⟩, -⟩ := hmem
    have hacc := cooInv_run ecc ownAddress id es a i _
      ((Hashtable.mem_entries_iff _).mp hentry)
    rwa [runState_id] at hacc
  · rintro ⟨coo, hmem, -, hown⟩
    exact ⟨coo, hmem, hown⟩

/-- **Who owns an address, and whose frames are authenticated**, in every reachable state: the
sender's address of an incoming frame is authenticated for a neighbor solicitation, or if
the frame has an address that its sender owns. -/
theorem owned_iff (id : NetworkId) (es : List Event) (a : Address) :
    (∀ nconf ip, (((machine ecc ownAddress).runState (initial id) es).membership
        a).hasCertificateOfOwnershipForIp nconf ip = true
      ↔ Owns ecc ownAddress id es a nconf ip) ∧
    ∀ c : FilterContext,
      let c' := { c with
        inbound := true
        membership := some (((machine ecc ownAddress).runState (initial id) es).membership a) }
      c'.characteristics &&& FilterContext.senderIpAuthenticated ≠ 0
        ↔ c.isSolicitation = true ∨
          c.senderAddress.isSet = true ∧ Owns ecc ownAddress id es a c.nconf c.senderAddress := by
  refine ⟨hasCertificateOfOwnership_iff id es a, fun c => ?_⟩
  dsimp only
  rw [FilterContext.senderIpAuthenticated_iff, ← hasCertificateOfOwnership_iff, ← Bool.and_eq_true]
  rfl

/-! ### An address of another member -/

/-- Node 4's configuration with NDP emulation on, its 6plane address the only static IP. -/
def emulatingConfig : NetworkConfig :=
  { NetworkConfig.none with
    networkId := 0x1000001
    issuedTo := 4
    flags := 4
    staticIps := [InetAddress.makeIpv66plane 0x1000001 4] }

/-- The 6plane address of node 6. -/
def anotherIp : BitVec 128 := (InetAddress.makeIpv66plane 0x1000001 6).ip6

/-- An IPv6 frame from node 5, of which nothing is known, with that source address. -/
def spoofedContext : FilterContext where
  ownAddress := 4
  nconf := emulatingConfig
  membership := some ((initial 0x1000001).membership 5)
  inbound := true
  ztSource := 5
  frame := ⟨1, 2, fun i =>
    if 8 ≤ i then (ByteList.beBytes 16 anotherIp.toNat).getD (i - 8) 0 else 0, 40,
    Frame.etherTypeIPv6, 0⟩
  prng := fun _ => 0

/-- **An address of node 6 is taken for one of node 5**, which has no certificate: it is neither in
node 5's /80 nor its RFC4193 address. -/
theorem owned_by_another :
    ((initial 0x1000001).membership 5).hasCertificateOfOwnershipForIp emulatingConfig
        (.v6 anotherIp 0) = true ∧
      ((initial 0x1000001).membership 5).validCoos emulatingConfig = [] ∧
      prefixMatches 10 (.v6 anotherIp 0) (InetAddress.makeIpv66plane 0x1000001 5) = false ∧
      (InetAddress.v6 anotherIp 0).ipsEqual (InetAddress.makeIpv6rfc4193 0x1000001 5) = false ∧
      spoofedContext.isSolicitation = false ∧
      spoofedContext.senderAddress = .v6 anotherIp 0 ∧
      spoofedContext.characteristics &&& FilterContext.senderIpAuthenticated ≠ 0 := by
  refine ⟨?_, ?_, ?_, ?_, ?_, ?_, ?_⟩ <;> decide +kernel

end Network

end ZGalaxy
