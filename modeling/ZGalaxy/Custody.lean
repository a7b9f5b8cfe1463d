/-
ZGalaxy/Custody.lean

What the chain of custody of a capability proves.

A holder signs a capability over to the next one with `Capability::sign`, and the
chain is to be read as: the controller issued it to the first holder, each holder
passed it on to the next.  What is signed is the body of the capability (`SameBody`)
and nothing else, in particular not the receiver, so a signature that was made for one
receiver serves for any other.

Everything here is relative to a `SigningLog`: what was signed at all, and which calls of
`sign` there were, for a signature scheme that cannot be forged.

Main results:

  `sameBody_of_forSign_eq`: what is signed is signed for one body only.
  `authentic_iff`: when every chain that verifies is authentic, which is never so
  for a capability that its controller issued to some of the members only.
-/
import ZGalaxy.Credentials

namespace ZGalaxy

open ByteList

namespace Capability

/-! ### What a signature covers -/

/-- Two capabilities that differ in their custody only, as far as their bytes tell. -/
structure SameBody (c c' : Capability) : Prop where
  nwid : c.nwid = c'.nwid
  ts : c.ts = c'.ts
  id : c.id = c'.id
  rules : c.rules.map Rule.wire = c'.rules.map Rule.wire
  maxCustodyChainLength : c.maxCustodyChainLength = c'.maxCustodyChainLength

theorem SameBody.refl (c : Capability) : SameBody c c := ⟨rfl, rfl, rfl, rfl, rfl⟩

/-- **A signed byte string belongs to one body**: network, timestamp, id, rules as they are
written, and the length of the chain. -/
theorem sameBody_of_forSign_eq {c c' : Capability} (hc : c.maxCustodyChainLength < 256)
    (hc' : c'.maxCustodyChainLength < 256) (h : c.forSign = c'.forSign) : SameBody c c' := by
  have hbe : ∀ {n v w : ℕ}, v < 256 ^ n → w < 256 ^ n → beBytes n v = beBytes n w → v = w := by
    intro n v w hv hw heq
    have hval := congrArg beNat heq
    rwa [beNat_beBytes, beNat_beBytes, Nat.mod_eq_of_lt hv, Nat.mod_eq_of_lt hw] at hval
  -- the fields in front of the rules have fixed widths, as have those behind them
  unfold forSign at h
  have h := List.append_inj_left' h rfl
  have h := List.append_inj_left' h rfl
  obtain ⟨h, hlen⟩ := List.append_inj' h rfl
  simp only [List.append_assoc] at h
  have h := List.append_inj_right h rfl
  obtain ⟨hnwid, h⟩ := List.append_inj h (by simp [networkIdBytes])
  obtain ⟨hts, h⟩ := List.append_inj h (by simp [timestampBytes])
  obtain ⟨hid, h⟩ := List.append_inj h (by simp)
  have hrules := List.append_inj_right h (by simp)
  refine ⟨?_, ?_, ?_, serializeRules_inj hrules, ?_⟩
  · apply BitVec.eq_of_toNat_eq
    exact hbe (by simpa using c.nwid.isLt) (by simpa using c'.nwid.isLt) hnwid
  · have hval := hbe c.ts.toUInt64.toNat_lt c'.ts.toUInt64.toNat_lt hts
    exact congrArg UInt64.toInt64 (UInt64.toNat_inj.mp hval)
  · exact UInt32.toNat_inj.mp (hbe c.id.toNat_lt c'.id.toNat_lt hid)
  · have hval := congrArg UInt8.toNat (List.singleton_inj.mp hlen)
    rwa [UInt8.toNat_ofNat', UInt8.toNat_ofNat', Nat.mod_eq_of_lt hc, Nat.mod_eq_of_lt hc'] at hval

/-! ### Who signed what -/

/-- What was ever signed, for a signature scheme in which a signature that verifies
under a known identity was made by it, and each message it signed has one.  Among
it are the calls of `sign`, by signer, capability and receiver. -/
structure SigningLog (ecc : Ecc) (known : KnownIdentities) where
  signed : Address → Bytes → Prop
  issued : Address → Capability → Address → Prop
  signed_iff : ∀ {a id}, known a = some id → ∀ m,
    (signed a m ↔ ∃ signature, ecc.verify id.publicKey m signature = true)
  signed_of_issued : ∀ {a c to_}, issued a c to_ → signed a c.forSign

variable {ecc : Ecc} {known : KnownIdentities} (log : SigningLog ecc known)

/-- A call in which `a` signed this capability over to `to_`. -/
def SignedOver (a : Address) (c : Capability) (to_ : Address) : Prop :=
  ∃ c', log.issued a c' to_ ∧ SameBody c' c

/-- The receiver of the `i`-th entry that `verify` looks at, null behind the last one. -/
def holder (c : Capability) (i : ℕ) : Address := (c.chain.map Custody.to_).getD i 0

/-- The chain of custody is what happened: the controller signed the capability over to
the first holder, and up to the first gap each holder to the next. -/
structure Authentic (c : Capability) : Prop where
  issued : SignedOver log (Address.controllerFor c.nwid) c (c.holder 0)
  transferred : ∀ i, (∀ j ≤ i + 1, c.holder j ≠ 0) →
    SignedOver log (c.holder i) c (c.holder (i + 1))

/-! ### What `verify` has seen -/

variable {nwid : NetworkId} {data : Bytes}

/-- The first entry of a chain that verifies. -/
theorem verifyChain_none_ok {c : Custody} {chain : List Custody}
    (h : verifyChain ecc known nwid data none (c :: chain) = .ok) :
    c.to_ ≠ 0 ∧ Address.controllerFor nwid ≠ 0 ∧
      verifySignature ecc known (Address.controllerFor nwid) data c.signature = .ok ∧
      verifyChain ecc known nwid data (some c.to_) chain = .ok := by
  unfold verifyChain at h
  split_ifs at h with hc
  push Not at hc
  obtain ⟨hto, hfrom, heq⟩ := hc
  rw [heq] at h hfrom
  rcases hs : verifySignature ecc known (Address.controllerFor nwid) data c.signature with - | - | -
  · rw [hs] at h
    exact ⟨hto, hfrom, rfl, h⟩
  all_goals
    rw [hs] at h
    cases h

/-- A further entry of a chain that verifies, when it is not the end. -/
theorem verifyChain_some_ok {p : Address} {c : Custody} {chain : List Custody}
    (h : verifyChain ecc known nwid data (some p) (c :: chain) = .ok) (hto : c.to_ ≠ 0) :
    verifySignature ecc known p data c.signature = .ok ∧
      verifyChain ecc known nwid data (some c.to_) chain = .ok := by
  unfold verifyChain at h
  rw [if_neg hto] at h
  split_ifs at h with hc
  push Not at hc
  rw [hc.2] at h
  rcases hs : verifySignature ecc known p data c.signature with - | - | -
  · rw [hs] at h
    exact ⟨rfl, h⟩
  all_goals
    rw [hs] at h
    cases h

/-- Along a chain that verifies, whoever is followed by another holder signed. -/
theorem signed_of_verifyChain {p : Address} {chain : List Custody}
    (h : verifyChain ecc known nwid data (some p) chain = .ok) (i : ℕ)
    (hset : ∀ j ≤ i + 1, (p :: chain.map Custody.to_).getD j 0 ≠ 0) :
    ∃ signature, verifySignature ecc known ((p :: chain.map Custody.to_).getD i 0) data signature
      = .ok := by
  induction chain generalizing p i with
  | nil =>
      refine absurd ?_ (hset (i + 1) le_rfl)
      simp
  | cons c chain ih =>
      have hto : c.to_ ≠ 0 := by simpa using hset 1 (by omega)
      obtain ⟨hs, hrest⟩ := verifyChain_some_ok h hto
      rcases i with - | i
      · exact ⟨_, hs⟩
      · have := ih hrest i fun j hj => by simpa using hset (j + 1) (by omega)
        simpa using this

/-- **What verifying shows**: the controller signed this body, and so did every holder
that is followed by another one. -/
theorem signed_of_verify {c : Capability} (h : c.verify ecc known = .ok) :
    (1 ≤ c.maxCustodyChainLength ∧
        c.maxCustodyChainLength ≤ maxCapabilityCustodyChainLength) ∧
      c.holder 0 ≠ 0 ∧ Address.controllerFor c.nwid ≠ 0 ∧
      (∃ signature, verifySignature ecc known (Address.controllerFor c.nwid) c.forSign signature
        = .ok) ∧
      ∀ i, (∀ j ≤ i + 1, c.holder j ≠ 0) →
        ∃ signature, verifySignature ecc known (c.holder i) c.forSign signature = .ok := by
  unfold verify at h
  split_ifs at h with hlen
  push Not at hlen
  rcases hchain : c.chain with - | ⟨e, chain⟩
  · have := congrArg List.length hchain
    simp only [chain, List.length_take, List.length_ofFn, List.length_nil] at this
    omega
  rw [hchain] at h
  obtain ⟨hto, hctl, hs, hrest⟩ := verifyChain_none_ok h
  have hholder : ∀ i, c.holder i = (e.to_ :: chain.map Custody.to_).getD i 0 := by
    intro i
    rw [holder, hchain, List.map_cons]
  refine ⟨⟨hlen.1, hlen.2⟩, ?_, hctl, ⟨_, hs⟩, fun i hset => ?_⟩
  · rw [hholder]
    exact hto
  · simp only [hholder] at hset ⊢
    exact signed_of_verifyChain hrest i hset

/-- A signature that verifies was made. -/
theorem SigningLog.signed_of_ok {a : Address} {m : Bytes}
    (h : ∃ signature, verifySignature ecc known a m signature = .ok) :
    known a ≠ none ∧ log.signed a m := by
  obtain ⟨signature, hs⟩ := h
  obtain ⟨id, hid, hv⟩ := verifySignature_ok.mp hs
  refine ⟨?_, (log.signed_iff hid m).mpr ⟨signature, hv⟩⟩
  rw [hid]
  exact Option.some_ne_none id

/-- What a known identity signed has a signature that verifies. -/
theorem SigningLog.ok_of_signed {a : Address} {m : Bytes} (hk : known a ≠ none)
    (h : log.signed a m) : ∃ signature, verifySignature ecc known a m signature = .ok := by
  obtain ⟨id, hid⟩ := Option.ne_none_iff_exists'.mp hk
  obtain ⟨signature, hv⟩ := (log.signed_iff hid m).mp h
  exact ⟨signature, verifySignature_ok.mpr ⟨id, hid, hv⟩⟩

/-! ### Chains made from signatures -/

/-- The custody with the given first entries and no others. -/
def custodyOf (entries : List Custody) : Fin maxCapabilityCustodyChainLength → Custody :=
  fun i => entries.getD i ⟨0, 0, []⟩

/-- Behind a holder, a chain that ends is fine. -/
theorem verifyChain_end (p : Address) (n : ℕ) (chain : List Custody) :
    verifyChain ecc known nwid data (some p) ((⟨0, 0, []⟩ :: chain).take n) = .ok := by
  rcases n with - | n
  · rfl
  · rw [List.take_succ_cons, verifyChain, if_pos rfl]

variable {c : Capability}

/-- The controller's signature verifies whoever is named as receiver. -/
theorem verify_one (hlen : 1 ≤ c.maxCustodyChainLength)
    (hlen' : c.maxCustodyChainLength ≤ maxCapabilityCustodyChainLength) {to_ : Address}
    (hto : to_ ≠ 0) (hctl : Address.controllerFor c.nwid ≠ 0) {s : Bytes}
    (hs : verifySignature ecc known (Address.controllerFor c.nwid) c.forSign s = .ok) :
    verify ecc known { c with custody := custodyOf [⟨to_, Address.controllerFor c.nwid, s⟩] }
      = .ok := by
  obtain ⟨n, hn⟩ : ∃ n, c.maxCustodyChainLength = n + 1 := ⟨_, (Nat.sub_add_cancel hlen).symm⟩
  rw [verify, if_neg (by push Not; exact ⟨hlen, hlen'⟩)]
  show verifyChain ecc known c.nwid c.forSign none
    ((List.ofFn (custodyOf [⟨to_, Address.controllerFor c.nwid, s⟩])).take
      c.maxCustodyChainLength) = .ok
  rw [hn]
  show verifyChain ecc known c.nwid c.forSign none
    (⟨to_, Address.controllerFor c.nwid, s⟩ :: List.take n (⟨0, 0, []⟩ :: _)) = .ok
  rw [verifyChain, if_neg (by push Not; exact ⟨hto, hctl, rfl⟩)]
  dsimp only
  rw [hs]
  exact verifyChain_end _ _ _

/-- A holder's signature verifies whoever is named as receiver. -/
theorem verify_two (hlen : 2 ≤ c.maxCustodyChainLength)
    (hlen' : c.maxCustodyChainLength ≤ maxCapabilityCustodyChainLength) {a to_ : Address}
    (ha : a ≠ 0) (hto : to_ ≠ 0) (hctl : Address.controllerFor c.nwid ≠ 0) {s s' : Bytes}
    (hs : verifySignature ecc known (Address.controllerFor c.nwid) c.forSign s = .ok)
    (hs' : verifySignature ecc known a c.forSign s' = .ok) :
    verify ecc known
      { c with custody := custodyOf [⟨a, Address.controllerFor c.nwid, s⟩, ⟨to_, a, s'⟩] }
      = .ok := by
  obtain ⟨n, hn⟩ : ∃ n, c.maxCustodyChainLength = n + 2 := ⟨_, (Nat.sub_add_cancel hlen).symm⟩
  rw [verify, if_neg (by push Not; exact ⟨le_trans one_le_two hlen, hlen'⟩)]
  show verifyChain ecc known c.nwid c.forSign none
    ((List.ofFn (custodyOf [⟨a, Address.controllerFor c.nwid, s⟩, ⟨to_, a, s'⟩])).take
      c.maxCustodyChainLength) = .ok
  rw [hn]
  show verifyChain ecc known c.nwid c.forSign none
    (⟨a, Address.controllerFor c.nwid, s⟩ :: ⟨to_, a, s'⟩ :: List.take n (⟨0, 0, []⟩ :: _)) = .ok
  rw [verifyChain, if_neg (by push Not; exact ⟨ha, hctl, rfl⟩)]
  dsimp only
  rw [hs]
  dsimp only
  rw [verifyChain, if_neg hto, if_neg (by push Not; exact ⟨ha, rfl⟩)]
  dsimp only
  rw [hs']
  exact verifyChain_end _ _ _

/-! ### When chains are authentic -/

/-- Every chain of custody with which the capability verifies is what happened. -/
def CustodyAuthentic (c : Capability) : Prop :=
  ∀ custody, verify ecc known { c with custody } = .ok → Authentic log { c with custody }

/-- The capability was signed over to every address. -/
def SignedOverToAll (a : Address) (c : Capability) : Prop :=
  ∀ to_, to_ ≠ 0 → SignedOver log a c to_

/-- If the controller signed the body at all, it signed it over to every address, and so
did every node that signed it, where a capability may be passed on. -/
def TransfersComplete (c : Capability) : Prop :=
  1 ≤ c.maxCustodyChainLength → c.maxCustodyChainLength ≤ maxCapabilityCustodyChainLength →
  Address.controllerFor c.nwid ≠ 0 → known (Address.controllerFor c.nwid) ≠ none →
  log.signed (Address.controllerFor c.nwid) c.forSign →
    SignedOverToAll log (Address.controllerFor c.nwid) c ∧
      (2 ≤ c.maxCustodyChainLength → ∀ a, a ≠ 0 → known a ≠ none → log.signed a c.forSign →
        SignedOverToAll log a c)

theorem SignedOver.withCustody {a to_ : Address} {custody}
    (h : SignedOver log a { c with custody } to_) : SignedOver log a c to_ := by
  obtain ⟨c', hc', hb⟩ := h
  exact ⟨c', hc', ⟨hb.nwid, hb.ts, hb.id, hb.rules, hb.maxCustodyChainLength⟩⟩

theorem SignedOver.ofBody {a to_ : Address} (custody) (h : SignedOver log a c to_) :
    SignedOver log a { c with custody } to_ := by
  obtain ⟨c', hc', hb⟩ := h
  exact ⟨c', hc', ⟨hb.nwid, hb.ts, hb.id, hb.rules, hb.maxCustodyChainLength⟩⟩

/-- The second holder there can be sits within the chain. -/
theorem two_le_of_holder {i : ℕ} (h : c.holder (i + 1) ≠ 0) : 2 ≤ c.maxCustodyChainLength := by
  by_contra hlen
  apply h
  rw [holder, List.getD_eq_getElem?_getD, List.getElem?_eq_none]
  · rfl
  · simp only [Capability.chain, List.length_map, List.length_take, List.length_ofFn]
    omega

/-- **When custody is authenticated**: exactly if no signature on the body can be
redirected, since whoever signed it signed it over to everyone. -/
theorem authentic_iff (c : Capability) : CustodyAuthentic log c ↔ TransfersComplete log c := by
  constructor
  · intro h hlen hlen' hctl hknown hsigned
    obtain ⟨s, hs⟩ := log.ok_of_signed hknown hsigned
    refine ⟨fun to_ hto => ?_, fun htwo a ha hka hsa to_ hto => ?_⟩
    · -- the controller's signature with another receiver
      have hauth := (h _ (verify_one hlen hlen' hto hctl hs)).issued
      obtain ⟨n, hn⟩ : ∃ n, c.maxCustodyChainLength = n + 1 := ⟨_, (Nat.sub_add_cancel hlen).symm⟩
      have hholder : holder { c with
          custody := custodyOf [⟨to_, Address.controllerFor c.nwid, s⟩] } 0 = to_ := by
        simp only [holder, chain, hn]
        rfl
      rw [hholder] at hauth
      exact hauth.withCustody
    · -- the signature of a holder with another receiver
      obtain ⟨s', hs'⟩ := log.ok_of_signed hka hsa
      obtain ⟨n, hn⟩ : ∃ n, c.maxCustodyChainLength = n + 2 := ⟨_, (Nat.sub_add_cancel htwo).symm⟩
      have hholder : holder { c with
            custody := custodyOf [⟨a, Address.controllerFor c.nwid, s⟩, ⟨to_, a, s'⟩] } 0 = a ∧
          holder { c with
            custody := custodyOf [⟨a, Address.controllerFor c.nwid, s⟩, ⟨to_, a, s'⟩] } 1
              = to_ := by
        simp only [holder, chain, hn]
        exact ⟨rfl, rfl⟩
      have hauth := (h _ (verify_two htwo hlen' ha hto hctl hs hs')).transferred 0 (by
        intro j hj
        obtain rfl | rfl : j = 0 ∨ j = 1 := by omega
        · rw [hholder.1]
          exact ha
        · rw [hholder.2]
          exact hto)
      rw [hholder.1, hholder.2] at hauth
      exact hauth.withCustody
  · intro h custody hv
    obtain ⟨⟨hlen, hlen'⟩, hfirst, hctl, hs, hlinks⟩ := signed_of_verify hv
    obtain ⟨hknown, hsigned⟩ := log.signed_of_ok hs
    obtain ⟨hall, htrans⟩ := h hlen hlen' hctl hknown hsigned
    refine ⟨(hall _ hfirst).ofBody log custody, fun i hset => ?_⟩
    obtain ⟨hka, hsa⟩ := log.signed_of_ok (hlinks i hset)
    have hnext := hset (i + 1) le_rfl
    have htwo := two_le_of_holder (c := { c with custody }) hnext
    exact (htrans htwo _ (hset i (by omega)) hka hsa _ hnext).ofBody log custody

/-! ### A redirected capability -/

/-- A capability of a network of controller 1, not yet issued. -/
def blankCapability : Capability where
  nwid := 0x1000001
  ts := 1
  id := 1
  maxCustodyChainLength := 1
  rules := []
  custody := custodyOf []
  rules_le := by decide

/-- The identity of the controller and no other. -/
def controllerOnly : KnownIdentities := fun a => if a = 1 then some ⟨1, [1]⟩ else none

/-- The controller has one signature to its name, on the blank capability. -/
def oneSignature : Ecc where
  verify := fun publicKey data signature =>
    publicKey == [1] && data == blankCapability.forSign && signature == [1]
  sha384 := fun _ => []

/-- It made it to issue the capability to node 5. -/
def issuedToFive : SigningLog oneSignature controllerOnly where
  signed := fun a m => a = 1 ∧ m = blankCapability.forSign
  issued := fun a c to_ => a = 1 ∧ c = blankCapability ∧ to_ = 5
  signed_iff := by
    intro a id hid m
    unfold controllerOnly at hid
    split_ifs at hid with ha
    obtain rfl := Option.some.inj hid
    simp [oneSignature, ha]
  signed_of_issued := by
    rintro a c to_ ⟨ha, rfl, -⟩
    exact ⟨ha, rfl⟩

/-- **A capability can be redirected**: issued to node 5, it verifies as node 6's. -/
theorem not_authentic_redirected :
    (blankCapability.sign 1 (fun _ => [1]) 5).map
        (fun c => (c.issuedTo, c.verify oneSignature controllerOnly)) = some (5, .ok) ∧
      verify oneSignature controllerOnly
        { blankCapability with custody := custodyOf [⟨6, 1, [1]⟩] } = .ok ∧
      ¬ Authentic issuedToFive { blankCapability with custody := custodyOf [⟨6, 1, [1]⟩] } := by
  refine ⟨by decide +kernel, by decide +kernel, fun h => ?_⟩
  obtain ⟨c', ⟨-, -, hto⟩, -⟩ := h.issued
  revert hto
  decide +kernel

end Capability

end ZGalaxy
