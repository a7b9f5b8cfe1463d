/-
ZGalaxy/Network.lean

A network that a node has joined: its configuration and its memberships.

Credentials are filed under the member they were issued to, a revocation under its
target; each is checked to name this network first.  A membership comes into being when
it is first written to.  `clean` drops the memberships of members whose peer the
topology no longer has, together with all that was known to be revoked.

`Network.machine` runs the operations in any order.  What an operation does to one
membership is said once for all of them (`step_membership`): each is the membership
operation of the event, or nothing.
-/
import ZGalaxy.Membership
import ZGalaxy.Machine

namespace ZGalaxy

open ZGalaxy.Membership

/-- `Network`. -/
structure Network where
  id : NetworkId
  config : NetworkConfig
  memberships : Hashtable Address Membership
  destroyed : Bool

namespace Network

/-- A network just joined. -/
def initial (id : NetworkId) : Network where
  id := id
  config := NetworkConfig.none
  memberships := Hashtable.empty 64 (by decide)
  destroyed := false

/-- What `Network::_membership` refers to. -/
def membership (n : Network) (a : Address) : Membership := (n.memberships.get a).getD default

/-- The network with a membership replaced. -/
def setMembership (n : Network) (a : Address) (m : Membership) : Network :=
  { n with memberships := n.memberships.set a m }

@[simp] theorem config_setMembership (n : Network) (a : Address) (m : Membership) :
    (n.setMembership a m).config = n.config := rfl

@[simp] theorem id_setMembership (n : Network) (a : Address) (m : Membership) :
    (n.setMembership a m).id = n.id := rfl

theorem membership_setMembership (n : Network) (a b : Address) (m : Membership) :
    (n.setMembership a m).membership b = if b = a then m else n.membership b := by
  show ((n.memberships.set a m).get b).getD default = _
  rw [Hashtable.get_set]
  split_ifs with h
  · rfl
  · rfl

/-! ### Operations -/

/-- What the operations answer and send. -/
inductive Output
  | added (result : AddCredentialResult)
  | configured (result : ℕ)
  | gated (admitted : Bool)
  | sendRevocation (to_ : Address) (rev : Revocation)
  | announceMulticastGroups (to_ : Address)

variable (ecc : Ecc) (ownAddress : Address)

/-- Adds a credential of network `nwid` to the membership of `a`. -/
def addCredential (n : Network) (nwid : NetworkId) (a : Address)
    (add : Membership → AddCredentialResult × Membership) : AddCredentialResult × Network :=
  if nwid ≠ n.id then (.rejected, n)
  else ((add (n.membership a)).1, n.setMembership a (add (n.membership a)).2)

/-- `Network::addCredential`, of a certificate of membership. -/
def addCom (n : Network) (known : KnownIdentities) (com : CertificateOfMembership) :
    AddCredentialResult × Network :=
  n.addCredential com.networkId com.issuedTo fun m => m.addCom ecc known com

/-- `Network::addCredential`, of a tag. -/
def addTag (n : Network) (known : KnownIdentities) (tag : Tag) : AddCredentialResult × Network :=
  n.addCredential tag.networkId tag.issuedTo fun m => m.addTag ecc known tag

/-- `Network::addCredential`, of a capability. -/
def addCapability (n : Network) (known : KnownIdentities) (cap : Capability) :
    AddCredentialResult × Network :=
  n.addCredential cap.nwid cap.issuedTo fun m => m.addCapability ecc known cap

/-- `Network::addCredential`, of a certificate of ownership. -/
def addCoo (n : Network) (known : KnownIdentities) (coo : CertificateOfOwnership) :
    AddCredentialResult × Network :=
  n.addCredential coo.networkId coo.issuedTo fun m => m.addCoo ecc known coo

/-- `Network::addCredential`, of a revocation. -/
def addRevocation (n : Network) (known : KnownIdentities) (rev : Revocation) :
    AddCredentialResult × Network :=
  n.addCredential rev.networkId rev.target fun m => m.addRevocation ecc known rev

/-- Where a revocation is passed on to: all members but its sender and its signer. -/
def revocationRecipients (n : Network) (sentFrom : Address) (rev : Revocation) : List Address :=
  (n.memberships.entries.map Prod.fst).filter fun a => a ≠ sentFrom ∧ a ≠ rev.signedBy

/-- `Network::setConfiguration`. -/
def setConfiguration (n : Network) (nconf : NetworkConfig) : ℕ × Network :=
  if n.destroyed then (0, n)
  else if nconf.issuedTo ≠ ownAddress ∨ nconf.networkId ≠ n.id then (0, n)
  else if n.config = nconf then (1, n)
  else (2, { n with config := nconf })

/-- `Network::gate`'s decision. -/
def admits (n : Network) (peer : Identity) : Bool :=
  n.config.isSet && (n.config.isPublic
    || (n.memberships.get peer.address).any (·.isAllowedOnNetwork ecc n.config peer))

/-- `Network::gate`. -/
def gate (n : Network) (now : Int64) (peer : Identity) : Bool × Network × List Output :=
  if n.admits ecc peer then
    let g := (n.membership peer.address).multicastLikeGate now
    (true, n.setMembership peer.address g.2,
      if g.1 then [.announceMulticastGroups peer.address] else [])
  else (false, n, [])

/-- `Network::clean`, with the addresses of the peers that the topology has. -/
def clean (n : Network) (cached : Address → Bool) : Network :=
  if n.destroyed then n
  else
    { n with memberships := n.memberships.sweep fun a m =>
        if cached a then some (m.clean n.config) else none }

/-! ### Runs -/

/-- The calls on a network, with the identities known or the peers cached at the time. -/
inductive Event
  | addCom (known : KnownIdentities) (com : CertificateOfMembership)
  | addTag (known : KnownIdentities) (tag : Tag)
  | addCapability (known : KnownIdentities) (cap : Capability)
  | addCoo (known : KnownIdentities) (coo : CertificateOfOwnership)
  | addRevocation (known : KnownIdentities) (sentFrom : Address) (rev : Revocation)
  | setConfiguration (nconf : NetworkConfig)
  | gate (now : Int64) (peer : Identity)
  | clean (cached : Address → Bool)

/-- The answer to an event that adds a credential. -/
def addResult (n : Network) : Event → Option AddCredentialResult
  | .addCom known com => (n.addCom ecc known com).1
  | .addTag known tag => (n.addTag ecc known tag).1
  | .addCapability known cap => (n.addCapability ecc known cap).1
  | .addCoo known coo => (n.addCoo ecc known coo).1
  | .addRevocation known _ rev => (n.addRevocation ecc known rev).1
  | _ => none

/-- The calls in any order. -/
def machine : Machine Network Event Output where
  step n
    | .addCom known com => ((n.addCom ecc known com).2, [.added (n.addCom ecc known com).1])
    | .addTag known tag => ((n.addTag ecc known tag).2, [.added (n.addTag ecc known tag).1])
    | .addCapability known cap =>
        ((n.addCapability ecc known cap).2, [.added (n.addCapability ecc known cap).1])
    | .addCoo known coo => ((n.addCoo ecc known coo).2, [.added (n.addCoo ecc known coo).1])
    | .addRevocation known sentFrom rev =>
        let r := n.addRevocation ecc known rev
        (r.2, .added r.1 :: if r.1 = .acceptedNew ∧ rev.flags &&& 1 ≠ 0 then
          (r.2.revocationRecipients sentFrom rev).map (.sendRevocation · rev) else [])
    | .setConfiguration nconf =>
        ((n.setConfiguration ownAddress nconf).2,
      [.configured (n.setConfiguration ownAddress nconf).1])
    | .gate now peer => ((n.gate ecc now peer).2.1, .gated (n.gate ecc now peer).1 ::
        (n.gate ecc now peer).2.2)
    | .clean cached => (n.clean cached, [])

/-! ### What a step does to a membership -/

/-- What an event does to the membership of `a` in a network `n`. -/
def memberStep (n : Network) (a : Address) (m : Membership) : Event → Membership
  | .addCom known com =>
      if com.networkId = n.id ∧ com.issuedTo = a then (m.addCom ecc known com).2 else m
  | .addTag known tag =>
      if tag.networkId = n.id ∧ tag.issuedTo = a then (m.addTag ecc known tag).2 else m
  | .addCapability known cap =>
      if cap.nwid = n.id ∧ cap.issuedTo = a then (m.addCapability ecc known cap).2 else m
  | .addCoo known coo =>
      if coo.networkId = n.id ∧ coo.issuedTo = a then (m.addCoo ecc known coo).2 else m
  | .addRevocation known _ rev =>
      if rev.networkId = n.id ∧ rev.target = a then (m.addRevocation ecc known rev).2 else m
  | .setConfiguration _ => m
  | .gate now peer =>
      if n.admits ecc peer ∧ peer.address = a then (m.multicastLikeGate now).2 else m
  | .clean cached =>
      if n.destroyed then m else if cached a then m.clean n.config else default

theorem membership_addCredential (n : Network) (nwid : NetworkId) (a b : Address)
    (add : Membership → AddCredentialResult × Membership) :
    (n.addCredential nwid a add).2.membership b =
      if nwid = n.id ∧ a = b then (add (n.membership b)).2 else n.membership b := by
  unfold addCredential
  by_cases hn : nwid = n.id
  · rw [if_neg (not_not.mpr hn)]
    by_cases hb : a = b
    · subst hb
      rw [membership_setMembership, if_pos rfl, if_pos ⟨hn, rfl⟩]
    · rw [membership_setMembership, if_neg (Ne.symm hb), if_neg fun h => hb h.2]
  · rw [if_pos hn, if_neg fun h => hn h.1]

/-- A clean membership that never was is new. -/
theorem clean_default (nconf : NetworkConfig) : (default : Membership).clean nconf = default := rfl

/-- **What a step does to each membership.** -/
theorem step_membership (n : Network) (e : Event) (a : Address) :
    (((machine ecc ownAddress).step n e).1).membership a
      = n.memberStep ecc a (n.membership a) e := by
  cases e with
  | addCom known com => exact membership_addCredential _ _ _ _ _
  | addTag known tag => exact membership_addCredential _ _ _ _ _
  | addCapability known cap => exact membership_addCredential _ _ _ _ _
  | addCoo known coo => exact membership_addCredential _ _ _ _ _
  | addRevocation known sentFrom rev => exact membership_addCredential _ _ _ _ _
  | setConfiguration nconf =>
      show (n.setConfiguration ownAddress nconf).2.membership a = n.membership a
      unfold setConfiguration
      split_ifs <;> rfl
  | gate now peer =>
      show (n.gate ecc now peer).2.1.membership a = if n.admits ecc peer ∧ peer.address = a then
        ((n.membership a).multicastLikeGate now).2 else n.membership a
      unfold gate
      by_cases had : n.admits ecc peer = true
      · rw [if_pos had]
        show (n.setMembership _ _).membership a = _
        rw [membership_setMembership]
        by_cases ha : peer.address = a
        · subst ha
          rw [if_pos rfl, if_pos ⟨had, rfl⟩]
        · rw [if_neg (Ne.symm ha), if_neg fun h => ha h.2]
      · rw [if_neg had, if_neg fun h => had h.1]
  | clean cached =>
      show (n.clean cached).membership a = if n.destroyed then n.membership a
        else if cached a then (n.membership a).clean n.config else default
      unfold clean
      by_cases hd : n.destroyed = true
      · rw [if_pos hd, if_pos hd]
      · rw [if_neg hd, if_neg hd]
        show ((n.memberships.sweep _).get a).getD default = _
        rw [Hashtable.get_sweep, membership]
        rcases n.memberships.get a with - | m
        · rw [Option.getD_none, clean_default, ite_self]
          rfl
        · rw [Option.bind_some, Option.getD_some]
          split_ifs <;> rfl

/-- The network keeps its id. -/
theorem step_id (n : Network) (e : Event) : (((machine ecc ownAddress).step n e).1).id = n.id := by
  have hadd : ∀ nwid a add, (n.addCredential nwid a add).2.id = n.id := by
    intro nwid a add
    unfold addCredential
    split_ifs <;> rfl
  cases e with
  | addCom | addTag | addCapability | addCoo | addRevocation => exact hadd _ _ _
  | setConfiguration nconf =>
      show (n.setConfiguration ownAddress nconf).2.id = n.id
      unfold setConfiguration
      split_ifs <;> rfl
  | gate now peer =>
      show (n.gate ecc now peer).2.1.id = n.id
      unfold gate
      split_ifs <;> rfl
  | clean cached =>
      show (n.clean cached).id = n.id
      unfold clean
      split_ifs <;> rfl

/-- The answer to a credential for a member is its membership's. -/
theorem addCredential_fst {n : Network} {nwid : NetworkId} {a : Address}
    {add : Membership → AddCredentialResult × Membership} {r : AddCredentialResult}
    (hr : r ≠ .rejected) (h : (n.addCredential nwid a add).1 = r) :
    nwid = n.id ∧ (add (n.membership a)).1 = r := by
  unfold addCredential at h
  split_ifs at h with hn
  · exact absurd h.symm hr
  · exact ⟨not_not.mp hn, h⟩

end Network

end ZGalaxy
