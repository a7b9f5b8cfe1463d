/-
ZGalaxy/ArrayBounds.lean

The arrays of a configuration that is read from a dictionary.

Each loop is one of `Filling`, so it stays within its array if it asks for room.  The capabilities
and the tags are read without asking: they are written behind their arrays when a blob has more of
them that can be read than there is room for, unless something before them ends the reading.

Main result: `fromDictionary_iff`, that reading a dictionary stays within the arrays and returns
exactly when neither of these two blobs has too many entries.
-/
import ZGalaxy.ConfigDictionary
import ZGalaxy.CredentialWriters
import ZGalaxy.CredentialsPacket
import ZGalaxy.OwnershipObject

namespace ZGalaxy

open ByteList Filling

/-! ### Readers go on -/

section Advance

open Buffer

theorem advances_nextUInt {n : ℕ} (hn : 0 < n) : (nextUInt n).Advances := by
  intro b p v q h
  have hq := Buffer.end_of_map h
  omega

theorem advances_nextByte : nextByte.Advances := by
  intro b p v q h
  have hq := Buffer.end_of_map h
  omega

theorem forward_nextUInt (n : ℕ) : (nextUInt n).Forward := (local_nextUInt n).forward

theorem forward_many {α : Type} {read : Reader ZTException α} (h : read.Forward) (n : ℕ) :
    (Reader.many read n).Forward := by
  induction n with
  | zero => exact Reader.Forward.pure []
  | succ n ih => exact h.bind fun v => ih.bind fun vs => Reader.Forward.pure (v :: vs)

theorem forward_skip (n : ℕ) : (Reader.skip n : Reader ZTException Unit).Forward :=
  (Reader.Local.skip n).forward

/-- What ends every credential. -/
theorem forward_signed {α : Type} (f : Address → Address → Bytes → α) :
    (do let issuedTo ← nextAddress
        let signedBy ← nextAddress
        let signature ← nextSignature
        skipFields
        pure (f issuedTo signedBy signature) : Reader ZTException α).Forward :=
  local_nextAddress.forward.bind fun _ => local_nextAddress.forward.bind fun _ =>
    local_nextSignature.forward.bind fun _ => local_skipFields.forward.bind fun _ =>
      Reader.Forward.pure _

theorem Tag.advances_deserialize : Tag.deserialize.Advances :=
  (advances_nextUInt (by decide)).bind fun _ => (forward_nextUInt 8).bind fun _ =>
    (forward_nextUInt 4).bind fun _ => (forward_nextUInt 4).bind fun _ => forward_signed _

theorem CertificateOfOwnership.advances_deserialize :
    CertificateOfOwnership.deserialize.Advances :=
  (advances_nextUInt (by decide)).bind fun _ => (forward_nextUInt 8).bind fun _ =>
    (forward_nextUInt 8).bind fun _ => (forward_nextUInt 4).bind fun _ =>
      (forward_nextUInt 2).bind fun _ =>
        (forward_many Object.local_readThing.forward _).bind fun _ => forward_signed _

theorem advances_readRule : readRule.Advances := by
  refine advances_nextByte.bind fun t => (local_nextByte.forward).bind fun fieldLen => ?_
  intro b p rule q h
  -- what follows begins where the size says
  rcases hv : readValues (fieldWidths (t.toNat % 64)) b p with e | ⟨values, m⟩
  · simp only [hv, reduceCtorEq] at h
  · rcases hr : Rule.ofValues t values with - | rule'
    · simp only [hv, hr, reduceCtorEq] at h
    · simp only [hv, hr, Except.ok.injEq, Prod.mk.injEq] at h
      exact h.2 ▸ Nat.le_add_right p _

theorem forward_deserializeRules (n : ℕ) : (deserializeRules n).Forward := by
  induction n with
  | zero => exact Reader.Forward.pure _
  | succ n ih =>
      intro b p rules q h
      rw [deserializeRules] at h
      dsimp only at h
      split_ifs at h with hend
      · obtain ⟨-, rfl⟩ := Prod.mk.inj (Except.ok.inj h)
        exact le_rfl
      · exact (advances_readRule.forward.bind fun rule => ih.bind fun rules =>
          Reader.Forward.pure _) b p rules q h

theorem forward_readCustody (n : ℕ) : (readCustody n).Forward := by
  induction n with
  | zero =>
      refine local_nextAddress.forward.bind fun to_ => ?_
      split_ifs
      · exact Reader.Forward.fail _
      · exact Reader.Forward.pure _
  | succ n ih =>
      refine local_nextAddress.forward.bind fun to_ => ?_
      split_ifs
      · exact local_nextAddress.forward.bind fun _ => local_nextSignature.forward.bind fun _ =>
          ih.bind fun _ => Reader.Forward.pure _
      · exact Reader.Forward.pure _

theorem Capability.advances_deserialize : Capability.deserialize.Advances := by
  refine (advances_nextUInt (by decide)).bind fun nwid => (forward_nextUInt 8).bind fun ts =>
    (forward_nextUInt 4).bind fun id => (forward_nextUInt 2).bind fun rc => ?_
  split_ifs with hrc
  · exact Reader.Forward.fail _
  · refine (forward_deserializeRules rc).bind fun rules => local_nextByte.forward.bind fun len => ?_
    split_ifs
    · exact Reader.Forward.fail _
    · exact (forward_readCustody _).bind fun _ => local_skipFields.forward.bind fun _ =>
        Reader.Forward.pure _

theorem InetAddress.advances_deserialize : InetAddress.deserialize.Advances := by
  refine advances_nextByte.bind fun type => ?_
  rw [deserializeTyped]
  split_ifs
  · exact Reader.Forward.pure _
  · exact (forward_skip 6).bind fun _ => Reader.Forward.pure _
  · exact (forward_nextUInt 2).bind fun n => (forward_skip n).bind fun _ => Reader.Forward.pure _
  · exact (forward_nextUInt 4).bind fun _ => (forward_nextUInt 2).bind fun _ =>
      Reader.Forward.pure _
  · exact (forward_nextUInt 16).bind fun _ => (forward_nextUInt 2).bind fun _ =>
      Reader.Forward.pure _
  · exact Reader.Forward.fail _

theorem ConfigFields.advances_readRoute : readRoute.Advances :=
  InetAddress.advances_deserialize.bind fun _ =>
    InetAddress.advances_deserialize.forward.bind fun _ => (forward_nextUInt 2).bind fun _ =>
      (forward_nextUInt 2).bind fun _ => Reader.Forward.pure _

end Advance

namespace ConfigFields

open Dictionary

/-! ### Counts -/

/-- How many entries the arrays have. -/
structure Counts where
  capabilities : ℕ
  tags : ℕ
  certificatesOfOwnership : ℕ
  specialists : ℕ
  routes : ℕ
  staticIps : ℕ
  rules : ℕ
  servers : ℕ

def counts (nc : ConfigFields) : Counts where
  capabilities := nc.capabilities.length
  tags := nc.tags.length
  certificatesOfOwnership := nc.certificatesOfOwnership.length
  specialists := nc.specialists.length
  routes := nc.routes.length
  staticIps := nc.staticIps.length
  rules := nc.rules.length
  servers := nc.dns.servers.length

/-- No count is above the length of its array. -/
structure Counts.Within (k : Counts) : Prop where
  capabilities : k.capabilities ≤ maxNetworkCapabilities
  tags : k.tags ≤ maxNetworkTags
  certificatesOfOwnership : k.certificatesOfOwnership ≤ maxCertificatesOfOwnership
  specialists : k.specialists ≤ maxNetworkSpecialists
  routes : k.routes ≤ maxNetworkRoutes
  staticIps : k.staticIps ≤ maxAssignedAddresses
  rules : k.rules ≤ maxNetworkRules
  servers : k.servers ≤ maxDnsServers

/-- Reading stays within the arrays, whether it goes on or not. -/
def Fine : Except Stop ConfigFields → Prop
  | .ok nc => nc.counts.Within
  | .error (.rejected nc) => nc.counts.Within
  | .error (.thrown nc) => nc.counts.Within
  | .error _ => False

theorem Fine.bind {x : Except Stop ConfigFields} {f : ConfigFields → Except Stop ConfigFields}
    (hx : Fine x) (hf : ∀ nc, nc.counts.Within → Fine (f nc)) : Fine (x >>= f) := by
  rcases x with stop | nc
  · exact hx
  · exact hf nc hx

/-! ### Looking up -/

section Lookups

variable {C : ℕ} {d : Bytes} (h : Terminated C d)
include h

theorem get_ok (key : Bytes) (destlen : ℕ) : ∃ r, get C d key destlen = .ok r :=
  ⟨_, (h.get_eq key destlen).1⟩

theorem getUI_ok (key : String) (dfl : UInt64) : ∃ v, getUI C d key dfl = .ok v := by
  obtain ⟨r, hr⟩ := get_ok h (keyBytes key) 128
  exact ⟨_, by rw [getUI, hr]; rfl⟩

theorem getI_ok (key : String) (dfl : Int64) : ∃ v, getI C d key dfl = .ok v := by
  obtain ⟨r, hr⟩ := get_ok h (keyBytes key) 128
  exact ⟨_, by rw [getI, hr]; rfl⟩

theorem getB_ok (key : String) (dfl : Bool) : ∃ v, getB C d key dfl = .ok v := by
  obtain ⟨r, hr⟩ := get_ok h (keyBytes key) 4
  exact ⟨_, by rw [getB, hr]; rfl⟩

theorem getBlob_ok (key : String) : ∃ v, getBlob C d key = .ok v := by
  obtain ⟨r, hr⟩ := get_ok h (keyBytes key) C
  exact ⟨_, by rw [getBlob, hr]; rfl⟩

theorem getText_ok (key : String) (size : ℕ) : ∃ v, getText C d key size = .ok v := by
  obtain ⟨r, hr⟩ := get_ok h (keyBytes key) size
  exact ⟨_, by rw [getText, hr]; rfl⟩

end Lookups

theorem lookedUp_bind {α : Type} {x : Except Dictionary.Fault α} {v : α} (h : x = .ok v)
    (f : α → Except Stop ConfigFields) : (lookedUp x >>= f) = f v := by
  rw [h]
  rfl

/-- What is looked up is there. -/
theorem fine_lookedUp {α : Type} {x : Except Dictionary.Fault α} (h : ∃ v, x = .ok v)
    {f : α → Except Stop ConfigFields} (hf : ∀ v, Fine (f v)) : Fine (lookedUp x >>= f) := by
  obtain ⟨v, hv⟩ := h
  rw [lookedUp_bind hv]
  exact hf v

section Stages

variable {C : ℕ} {d : Bytes} (h : Terminated C d) {nc : ConfigFields}
include h

theorem fine_withBlob (key : String) (hnc : nc.counts.Within)
    {set : Bytes → Except Stop ConfigFields} (hset : ∀ b, Fine (set b)) :
    Fine (withBlob C d key nc set) := by
  refine fine_lookedUp (getBlob_ok h key) fun blob => ?_
  rcases blob with - | b
  · exact hnc
  · exact hset b

omit h in
/-- A loop that stays within its array. -/
theorem fine_filled {α : Type} {max : ℕ} {set : List α → ConfigFields} {x : Filled α}
    (hx : Within max x) (hset : ∀ xs, xs.length ≤ max → (set xs).counts.Within) :
    Fine (filled set x) := by
  cases x with
  | all xs => exact hset xs hx
  | thrown xs => exact hset xs hx
  | overrun => exact hx
  | endless => exact hx

theorem fine_readCoos (hnc : nc.counts.Within) : Fine (readCoos C d nc) :=
  fine_withBlob h "COO" hnc fun _ => fine_filled
    (within_discarding CertificateOfOwnership.advances_deserialize (Nat.lt_succ_self _)
      hnc.certificatesOfOwnership)
    fun _ hxs => ⟨hnc.1, hnc.2, hxs, hnc.4, hnc.5, hnc.6, hnc.7, hnc.8⟩

theorem fine_readSpecialists (hnc : nc.counts.Within) : Fine (readSpecialists C d nc) :=
  fine_withBlob h "S" hnc fun _ => fine_filled
    (within_strides (by decide) (Nat.lt_succ_self _) hnc.specialists)
    fun _ hxs => ⟨hnc.1, hnc.2, hnc.3, hxs, hnc.5, hnc.6, hnc.7, hnc.8⟩

theorem fine_readRoutes (hnc : nc.counts.Within) : Fine (readRoutes C d nc) :=
  fine_withBlob h "RT" hnc fun _ => fine_filled
    (within_stopping advances_readRoute (Nat.lt_succ_self _) hnc.routes)
    fun _ hxs => ⟨hnc.1, hnc.2, hnc.3, hnc.4, hxs, hnc.6, hnc.7, hnc.8⟩

theorem fine_readStaticIps (hnc : nc.counts.Within) : Fine (readStaticIps C d nc) :=
  fine_withBlob h "I" hnc fun _ => fine_filled
    (within_stopping InetAddress.advances_deserialize (Nat.lt_succ_self _) hnc.staticIps)
    fun _ hxs => ⟨hnc.1, hnc.2, hnc.3, hnc.4, hnc.5, hxs, hnc.7, hnc.8⟩

omit h in
theorem length_rulesBefore (b : Bytes) (n p : ℕ) : (rulesBefore b n p).length ≤ n := by
  induction n generalizing p with
  | zero => exact le_rfl
  | succ n ih =>
      rw [rulesBefore]
      split_ifs
      · exact Nat.zero_le _
      · rcases readRule b p with e | r
        · exact Nat.zero_le _
        · exact Nat.succ_le_succ (ih r.2)

theorem fine_readRules (hnc : nc.counts.Within) : Fine (readRules C d nc) := by
  refine fine_withBlob h "R" hnc fun b => ?_
  rcases deserializeRules maxNetworkRules b 0 with e | r
  · exact ⟨hnc.1, hnc.2, hnc.3, hnc.4, hnc.5, hnc.6, length_rulesBefore b _ 0, hnc.8⟩
  · exact ⟨hnc.1, hnc.2, hnc.3, hnc.4, hnc.5, hnc.6, r.1.property, hnc.8⟩

omit h in
theorem within_readServers {b : Bytes} {n p : ℕ} {xs : List InetAddress}
    (hxs : xs.length + n ≤ maxDnsServers) : Within maxDnsServers (readServers b n p xs) := by
  induction n generalizing p xs with
  | zero => exact hxs
  | succ n ih =>
      have hroom : xs.length < maxDnsServers := by omega
      rw [readServers, place, if_pos hroom]
      rcases InetAddress.deserialize b p with e | r
      · exact length_append_le hroom _
      · refine ih ?_
        rw [List.length_append, List.length_singleton]
        omega

theorem fine_readDns (hnc : nc.counts.Within) : Fine (readDns C d nc) :=
  fine_withBlob h "DNS" hnc fun _ => fine_filled (within_readServers le_rfl)
    fun _ hxs => ⟨hnc.1, hnc.2, hnc.3, hnc.4, hnc.5, hnc.6, hnc.7, hxs⟩

theorem fine_readSso (hnc : nc.counts.Within) : Fine (readSso C d nc) := by
  refine fine_lookedUp (getUI_ok h _ _) fun ssoVersion =>
    fine_lookedUp (getB_ok h _ _) fun enabled => ?_
  dsimp only
  split_ifs
  · exact fine_lookedUp (getText_ok h _ _) fun _ => fine_lookedUp (getI_ok h _ _) fun _ => hnc
  · exact hnc
  · exact fine_lookedUp (getText_ok h _ _) fun _ => fine_lookedUp (getText_ok h _ _) fun _ =>
      fine_lookedUp (getText_ok h _ _) fun _ => fine_lookedUp (getText_ok h _ _) fun _ =>
        fine_lookedUp (getText_ok h _ _) fun _ => fine_lookedUp (getText_ok h _ _) fun _ =>
          fine_lookedUp (getText_ok h _ _) fun _ => hnc
  · exact hnc
  · exact hnc

/-- **What is read after the tags** stays within the arrays. -/
theorem fine_readRest (hnc : nc.counts.Within) : Fine (readRest C d nc) :=
  (fine_readCoos h hnc).bind fun _ hnc => (fine_readSpecialists h hnc).bind fun _ hnc =>
    (fine_readRoutes h hnc).bind fun _ hnc => (fine_readStaticIps h hnc).bind fun _ hnc =>
      (fine_readRules h hnc).bind fun _ hnc => (fine_readDns h hnc).bind fun _ hnc =>
        fine_readSso h hnc

end Stages

/-! ### What comes before the lists -/

/-- Reading goes on exactly if `ok`; either way no array has been written. -/
def GoesOn (ok : Prop) (nc : ConfigFields) (x : Except Stop ConfigFields) : Prop :=
  ok ∧ (∃ nc', x = .ok nc' ∧ nc'.counts = nc.counts) ∨
    ¬ok ∧ ∃ nc', (x = .error (.rejected nc') ∨ x = .error (.thrown nc')) ∧ nc'.counts = nc.counts

theorem GoesOn.bind {ok ok' : Prop} {nc : ConfigFields} {x : Except Stop ConfigFields}
    {f : ConfigFields → Except Stop ConfigFields} (hx : GoesOn ok nc x)
    (hf : ∀ nc', GoesOn ok' nc' (f nc')) : GoesOn (ok ∧ ok') nc (x >>= f) := by
  rcases hx with ⟨hok, nc', rfl, hcounts⟩ | ⟨hok, nc', rfl | rfl, hcounts⟩
  · rcases hf nc' with ⟨hok', nc'', hf, hcounts'⟩ | ⟨hok', nc'', hf, hcounts'⟩
    · exact Or.inl ⟨⟨hok, hok'⟩, nc'', hf, hcounts'.trans hcounts⟩
    · exact Or.inr ⟨fun h => hok' h.2, nc'', hf, hcounts'.trans hcounts⟩
  · exact Or.inr ⟨fun h => hok h.1, nc', Or.inl rfl, hcounts⟩
  · exact Or.inr ⟨fun h => hok h.1, nc', Or.inr rfl, hcounts⟩

/-- The network and the member are there. -/
def HasIds (C : ℕ) (d : Bytes) : Prop :=
  (∀ v, getUI C d "nwid" 0 = .ok v → v ≠ 0) ∧
    ∀ v, getUI C d "id" 0 = .ok v → (Address.ofUInt64 v.toBitVec).isSet = true

/-- The version is not too old. -/
def IsNew (C : ℕ) (d : Bytes) : Prop := ∀ v, getUI C d "v" 0 = .ok v → ¬v < 6

/-- A certificate of membership, if there is one, can be read. -/
def HasReadableCom (C : ℕ) (d : Bytes) : Prop :=
  ∀ b, getBlob C d "C" = .ok (some b) → ∃ r, CertificateOfMembership.deserialize b 0 = .ok r

/-- Reading comes to the lists. -/
def ReachesLists (C : ℕ) (d : Bytes) : Prop := HasIds C d ∧ IsNew C d ∧ HasReadableCom C d

section Front

variable {C : ℕ} {d : Bytes} (h : Terminated C d) (nc : ConfigFields)
include h

theorem goesOn_readIds : GoesOn (HasIds C d) nc (readIds C d nc) := by
  obtain ⟨networkId, hnetwork⟩ := getUI_ok h "nwid" 0
  obtain ⟨timestamp, htimestamp⟩ := getUI_ok h "ts" 0
  obtain ⟨delta, hdelta⟩ := getUI_ok h "ctmd" 0
  obtain ⟨revision, hrevision⟩ := getUI_ok h "r" 0
  obtain ⟨issuedTo, hissued⟩ := getUI_ok h "id" 0
  have hids : HasIds C d ↔
      networkId ≠ 0 ∧ (Address.ofUInt64 issuedTo.toBitVec).isSet = true := by
    refine and_congr ⟨fun hall => hall _ hnetwork, fun hne v hv => ?_⟩
      ⟨fun hall => hall _ hissued, fun hset v hv => ?_⟩
    · rwa [← Except.ok.inj (hnetwork.symm.trans hv)]
    · rwa [← Except.ok.inj (hissued.symm.trans hv)]
  rw [readIds, lookedUp_bind hnetwork]
  by_cases hzero : networkId = 0
  · refine Or.inr ⟨fun hall => (hids.mp hall).1 hzero, _, Or.inl (if_pos hzero), rfl⟩
  · rw [if_neg hzero, lookedUp_bind htimestamp, lookedUp_bind hdelta, lookedUp_bind hrevision,
      lookedUp_bind hissued]
    dsimp only
    by_cases hset : (Address.ofUInt64 issuedTo.toBitVec).isSet = true
    · rw [if_pos hset]
      exact Or.inl ⟨hids.mpr ⟨hzero, hset⟩, _, rfl, rfl⟩
    · rw [if_neg hset]
      exact Or.inr ⟨fun hall => hset (hids.mp hall).2, _, Or.inl rfl, rfl⟩

theorem goesOn_readScalars : GoesOn (IsNew C d) nc (readScalars C d nc) := by
  obtain ⟨target, htarget⟩ := getUI_ok h "tt" 0
  obtain ⟨level, hlevel⟩ := getUI_ok h "tl" 0
  obtain ⟨limit, hlimit⟩ := getUI_ok h "ml" 0
  obtain ⟨name, hname⟩ := getText_ok h "n" 128
  obtain ⟨mtu, hmtu⟩ := getUI_ok h "mtu" 2800
  obtain ⟨version, hversion⟩ := getUI_ok h "v" 0
  obtain ⟨flags, hflags⟩ := getUI_ok h "f" 0
  obtain ⟨type, htype⟩ := getUI_ok h "t" 0
  have hnew : IsNew C d ↔ ¬version < 6 := by
    refine ⟨fun hall => hall _ hversion, fun hle v hv => ?_⟩
    rwa [← Except.ok.inj (hversion.symm.trans hv)]
  rw [readScalars, lookedUp_bind htarget, lookedUp_bind hlevel, lookedUp_bind hlimit,
    lookedUp_bind hname, lookedUp_bind hmtu]
  dsimp only
  rw [lookedUp_bind hversion]
  by_cases hold : version < 6
  · exact Or.inr ⟨fun hall => hnew.mp hall hold, _, Or.inl (if_pos hold), rfl⟩
  · rw [if_neg hold, lookedUp_bind hflags, lookedUp_bind htype]
    exact Or.inl ⟨hnew.mpr hold, _, rfl, rfl⟩

theorem goesOn_readCom : GoesOn (HasReadableCom C d) nc (readCom C d nc) := by
  obtain ⟨blob, hblob⟩ := getBlob_ok h "C"
  have hsame : ∀ {b : Bytes}, getBlob C d "C" = .ok (some b) → some b = blob :=
    fun hb => Except.ok.inj (hb.symm.trans hblob)
  rw [readCom, withBlob, lookedUp_bind hblob]
  rcases blob with - | b
  · exact Or.inl ⟨fun b hb => (by cases hsame hb), nc, rfl, rfl⟩
  · dsimp only
    rcases hcom : CertificateOfMembership.deserialize b 0 with e | r
    · refine Or.inr ⟨fun hall => ?_, nc, Or.inr rfl, rfl⟩
      obtain ⟨r, hr⟩ := hall b hblob
      rw [hcom] at hr
      cases hr
    · refine Or.inl ⟨fun b' hb' => ?_, _, rfl, rfl⟩
      obtain rfl := Option.some.inj (hsame hb')
      exact ⟨r, hcom⟩

theorem goesOn_readFront : GoesOn (ReachesLists C d) nil (readFront C d) :=
  (goesOn_readIds h nil).bind fun nc => (goesOn_readScalars h nc).bind (goesOn_readCom h)

end Front

/-! ### The lists that are not asked for room -/

/-- The blob under a key has no more than `max` entries that can be read one after another. -/
def FewEnough {α : Type} (C : ℕ) (d : Bytes) (key : String) (read : Reader ZTException α)
    (max : ℕ) : Prop :=
  ∀ b, getBlob C d key = .ok (some b) → (entries read b (b.length + 1) 0).length ≤ max

/-- **A list that is read without asking**: the entries are set if there are few enough, and else
they are written behind the array. -/
theorem withBlob_caught {C : ℕ} {d : Bytes} (h : Terminated C d) {α : Type}
    {read : Reader ZTException α} (hread : read.Advances) (key : String) (max : ℕ)
    (set : List α → ConfigFields) (nc : ConfigFields) :
    FewEnough C d key read max ∧ (∃ nc', (nc' = nc ∨ ∃ xs, xs.length ≤ max ∧ nc' = set xs) ∧
        withBlob C d key nc (fun b => filled set (caught max read b (b.length + 1) 0 [])) =
          .ok nc') ∨
      ¬FewEnough C d key read max ∧
        withBlob C d key nc (fun b => filled set (caught max read b (b.length + 1) 0 [])) =
          .error .overrun := by
  obtain ⟨blob, hblob⟩ := getBlob_ok h key
  have hsame : ∀ {b : Bytes}, getBlob C d key = .ok (some b) → some b = blob :=
    fun hb => Except.ok.inj (hb.symm.trans hblob)
  rw [withBlob, lookedUp_bind hblob]
  rcases blob with - | b
  · exact Or.inl ⟨fun b hb => (by cases hsame hb), nc, Or.inl rfl, rfl⟩
  · have hfew : FewEnough C d key read max ↔ (entries read b (b.length + 1) 0).length ≤ max := by
      refine ⟨fun hall => hall b hblob, fun hle b' hb' => ?_⟩
      rwa [Option.some.inj (hsame hb')]
    have hcaught : caught max read b (b.length + 1) 0 [] = _ :=
      caught_eq hread (show b.length - 0 < b.length + 1 from Nat.lt_succ_self _) (Nat.zero_le _)
    dsimp only
    rw [hcaught, List.length_nil, Nat.zero_add, List.nil_append]
    by_cases hle : (entries read b (b.length + 1) 0).length ≤ max
    · rw [if_pos hle]
      exact Or.inl ⟨hfew.mpr hle, _, Or.inr ⟨_, hle, rfl⟩, rfl⟩
    · rw [if_neg hle]
      exact Or.inr ⟨fun hall => hle (hfew.mp hall), rfl⟩

/-- Reading a dictionary writes within the arrays only, and returns, with no count above the length
of its array. -/
def StaysWithin (C : ℕ) (d : Bytes) : Prop :=
  ∃ returned nc, fromDictionary C d = .ok (returned, nc) ∧ nc.counts.Within

theorem staysWithin_iff_fine {C : ℕ} {d : Bytes} : StaysWithin C d ↔ Fine (readAll C d) := by
  rw [StaysWithin, fromDictionary]
  rcases readAll C d with (nc | nc | - | - | f) | nc
  · exact ⟨fun ⟨_, _, heq, hnc⟩ => (Prod.mk.inj (Except.ok.inj heq)).2 ▸ hnc,
      fun hnc => ⟨false, nc, rfl, hnc⟩⟩
  · exact ⟨fun ⟨_, _, heq, hnc⟩ => (Prod.mk.inj (Except.ok.inj heq)).2 ▸ hnc,
      fun hnc => ⟨false, nc, rfl, hnc⟩⟩
  · refine iff_of_false ?_ id
    rintro ⟨_, _, heq, -⟩
    cases heq
  · refine iff_of_false ?_ id
    rintro ⟨_, _, heq, -⟩
    cases heq
  · refine iff_of_false ?_ id
    rintro ⟨_, _, heq, -⟩
    cases heq
  · exact ⟨fun ⟨_, _, heq, hnc⟩ => (Prod.mk.inj (Except.ok.inj heq)).2 ▸ hnc,
      fun hnc => ⟨true, nc, rfl, hnc⟩⟩

/-- If reading comes to the lists, there are no more capabilities and tags than there is room for.
-/
def ListsFit (C : ℕ) (d : Bytes) : Prop :=
  ReachesLists C d → FewEnough C d "CAP" Capability.deserialize maxNetworkCapabilities ∧
    FewEnough C d "TAG" Tag.deserialize maxNetworkTags

theorem fine_readAll_iff {C : ℕ} {d : Bytes} (h : Terminated C d) :
    Fine (readAll C d) ↔ ListsFit C d := by
  rw [readAll]
  rcases goesOn_readFront h with ⟨hreaches, nc, hfront, hcounts⟩ | ⟨hstops, nc, hfront, hcounts⟩
  · have hwithin : nc.counts.Within := by
      rw [hcounts]
      constructor <;> exact Nat.zero_le _
    -- the first list starts empty
    have hcaps : nc.capabilities = [] :=
      List.length_eq_zero_iff.mp (congrArg Counts.capabilities hcounts)
    have htags : nc.tags = [] := List.length_eq_zero_iff.mp (congrArg Counts.tags hcounts)
    have hiff : ListsFit C d ↔ FewEnough C d "CAP" Capability.deserialize maxNetworkCapabilities ∧
        FewEnough C d "TAG" Tag.deserialize maxNetworkTags :=
      ⟨fun hfit => hfit hreaches, fun hfit _ => hfit⟩
    rw [hiff, hfront]
    show Fine (readCapabilities C d nc >>= fun nc =>
      readTags C d nc >>= fun nc => readRest C d nc) ↔ _
    rw [readCapabilities, hcaps]
    rcases withBlob_caught h Capability.advances_deserialize "CAP" maxNetworkCapabilities
      (fun xs => { nc with capabilities := xs.mergeSort fun x y => x.id ≤ y.id }) nc with
      ⟨hfew, nc', hnc', hset⟩ | ⟨hmany, hoverrun⟩
    · -- the capabilities fit, and the tags are next
      have hwithin' : nc'.counts.Within ∧ nc'.tags = [] := by
        rcases hnc' with rfl | ⟨xs, hxs, rfl⟩
        · exact ⟨hwithin, htags⟩
        · exact ⟨⟨(List.length_mergeSort xs).trans_le hxs, hwithin.2, hwithin.3, hwithin.4,
            hwithin.5, hwithin.6, hwithin.7, hwithin.8⟩, htags⟩
      rw [hset]
      show Fine (readTags C d nc' >>= fun nc => readRest C d nc) ↔ _
      rw [readTags, hwithin'.2]
      rcases withBlob_caught h Tag.advances_deserialize "TAG" maxNetworkTags
        (fun xs => { nc' with tags := xs.mergeSort fun x y => x.id ≤ y.id }) nc' with
        ⟨hfew', nc'', hnc'', hset'⟩ | ⟨hmany, hoverrun⟩
      · refine iff_of_true ?_ ⟨hfew, hfew'⟩
        rw [hset']
        refine fine_readRest h ?_
        rcases hnc'' with rfl | ⟨xs, hxs, rfl⟩
        · exact hwithin'.1
        · exact ⟨hwithin'.1.1, (List.length_mergeSort xs).trans_le hxs, hwithin'.1.3, hwithin'.1.4,
            hwithin'.1.5, hwithin'.1.6, hwithin'.1.7, hwithin'.1.8⟩
      · rw [hoverrun]
        exact iff_of_false id fun hall => hmany hall.2
    · rw [hoverrun]
      exact iff_of_false id fun hall => hmany hall.1
  · -- the lists are not reached
    refine iff_of_true ?_ fun hreaches => absurd hreaches hstops
    have hwithin : nc.counts.Within := by
      rw [hcounts]
      constructor <;> exact Nat.zero_le _
    rcases hfront with hfront | hfront
    · rw [hfront]
      exact hwithin
    · rw [hfront]
      exact hwithin

/-- **Reading a dictionary** stays within the arrays and returns, whatever it says, exactly if it
has no more capabilities and no more tags that can be read than there is room for, or does not come
to them. -/
theorem fromDictionary_iff (C : ℕ) (d : Bytes) (h : Terminated C d) :
    StaysWithin C d ↔ ListsFit C d := staysWithin_iff_fine.trans (fine_readAll_iff h)

/-- A capability without rules. -/
def plainCapability : Capability :=
  ⟨1, 0, 7, 1, [], fun _ => Capability.noCustody, Nat.zero_le _⟩

/-- The entries of a configuration with so many capabilities. -/
def capableEntries (n : ℕ) : List (Bytes × Bytes) :=
  [(keyBytes "v", [55]), (keyBytes "nwid", [49]), (keyBytes "id", [49]),
    (keyBytes "CAP", (List.replicate n plainCapability).flatMap Capability.serialize)]

/-- A dictionary with so many capabilities. -/
def capableDictionary (n : ℕ) : Bytes :=
  content (capableEntries n) ++
    0 :: List.replicate (networkConfigDictCapacity - 1 - (content (capableEntries n)).length) 0

/-- The capabilities are few bytes. -/
theorem length_plainBlob (n : ℕ) :
    ((List.replicate n plainCapability).flatMap Capability.serialize).length ≤ 30 * n := by
  have hserialize : plainCapability.serialize.length = 30 := rfl
  have hle := length_flatMap_le (f := Capability.serialize) (n := 30)
    (l := List.replicate n plainCapability) fun cap hcap => by
      rw [List.eq_of_mem_replicate hcap, hserialize]
  rwa [List.length_replicate] at hle

theorem length_escape_le (c : UInt8) : (escape c).length ≤ 2 := by
  rw [escape]
  split_ifs
  · exact le_rfl
  · exact le_rfl
  · exact le_rfl
  · exact le_rfl
  · exact le_rfl
  · exact Nat.le_succ 1

/-- They fit the dictionary. -/
theorem length_content_capableEntries {n : ℕ} (hn : n ≤ 129) :
    (content (capableEntries n)).length < 10000 := by
  have hblob := length_plainBlob n
  have hescaped := length_flatMap_le (f := escape) (n := 2)
    (l := (List.replicate n plainCapability).flatMap Capability.serialize)
    fun c _ => length_escape_le c
  have happend : content (capableEntries n) = _ :=
    content_append [(keyBytes "v", [55]), (keyBytes "nwid", [49]), (keyBytes "id", [49])]
      (keyBytes "CAP", (List.replicate n plainCapability).flatMap Capability.serialize)
  have hfirst : (content [(keyBytes "v", [55]), (keyBytes "nwid", [49]),
    (keyBytes "id", [49])]).length = 15 := rfl
  have hkey : (keyBytes "CAP").length = 3 := rfl
  rw [happend, appended, if_neg (by decide)]
  simp only [List.length_append, List.length_cons, List.length_nil, hfirst, hkey]
  omega

theorem capacity_pos : 0 < networkConfigDictCapacity := Nat.succ_pos 486567

theorem legal_capableEntries (n : ℕ) : ∀ e ∈ capableEntries n, Legal e.1 := by
  have hlegal : ∀ key ∈ ["v", "nwid", "id", "CAP"], ∀ c ∈ keyBytes key,
      ends c = false ∧ c ≠ equals ∧ c ≠ backslash := by decide +kernel
  intro e he
  rcases List.mem_cons.mp he with rfl | he
  · exact hlegal "v" (by decide)
  rcases List.mem_cons.mp he with rfl | he
  · exact hlegal "nwid" (by decide)
  rcases List.mem_cons.mp he with rfl | he
  · exact hlegal "id" (by decide)
  · obtain rfl := List.mem_singleton.mp he
    exact hlegal "CAP" (by decide)

section Capable

variable {n : ℕ} (hn : n ≤ 129)
include hn

theorem length_capableDictionary : (capableDictionary n).length = networkConfigDictCapacity := by
  have hlt := length_content_capableEntries hn
  have hcapacity : networkConfigDictCapacity = 486568 := rfl
  rw [capableDictionary, List.length_append, List.length_cons, List.length_replicate]
  omega

theorem terminated_capableDictionary :
    Terminated networkConfigDictCapacity (capableDictionary n) :=
  terminated_append (length_capableDictionary hn)

theorem get_capableDictionary {key : String} (hkey : Legal (keyBytes key)) {destlen : ℕ}
    (hdest : 0 < destlen) :
    get networkConfigDictCapacity (capableDictionary n) (keyBytes key) destlen =
      .ok (delivered destlen
        (((capableEntries n).find? fun e => e.1 = keyBytes key).map Prod.snd)) :=
  get_content (legal_capableEntries n) (length_capableDictionary hn) hkey hdest

/-- The capabilities of the dictionary. -/
theorem getBlob_capableDictionary :
    getBlob networkConfigDictCapacity (capableDictionary n) "CAP" =
      .ok (some ((List.replicate n plainCapability).flatMap Capability.serialize)) := by
  have hkey : Legal (keyBytes "CAP") := legal_capableEntries n _ (List.mem_of_getElem? (i := 3) rfl)
  have hget := get_capableDictionary hn hkey capacity_pos
  have hfind : ((capableEntries n).find? fun e => e.1 = keyBytes "CAP").map Prod.snd =
      some ((List.replicate n plainCapability).flatMap Capability.serialize) := rfl
  have hshort : ((List.replicate n plainCapability).flatMap Capability.serialize).length ≤
      networkConfigDictCapacity - 1 := by
    have hcapacity : networkConfigDictCapacity = 486568 := rfl
    have hblob := length_plainBlob n
    omega
  rw [hfind, delivered, List.take_of_length_le hshort] at hget
  rw [getBlob, hget]
  show Except.ok (if (0 : ℤ) ≤ (_ : ℕ) then _ else _) = _
  rw [if_pos (Int.natCast_nonneg _), Int.toNat_natCast, List.take_left' rfl]

/-- A number of one digit in the dictionary. -/
theorem getUI_capableDictionary {key : String} (hkey : Legal (keyBytes key)) {c : UInt8}
    {v : UInt64}
    (hfind : ((capableEntries n).find? fun e => e.1 = keyBytes key).map Prod.snd = some [c])
    (hc : CString.strtoull 16 (characters (text [c, 0])) = v) (dfl : UInt64) :
    getUI networkConfigDictCapacity (capableDictionary n) key dfl = .ok v := by
  have hget := get_capableDictionary hn hkey (show 0 < 128 by decide)
  have hdelivered : delivered 128 (some [c]) = (1, [c, 0]) := rfl
  rw [hfind, hdelivered] at hget
  rw [getUI, hget, ← hc]
  rfl

theorem reachesLists_capableDictionary :
    ReachesLists networkConfigDictCapacity (capableDictionary n) := by
  have hlegal := legal_capableEntries n
  have hversion : getUI networkConfigDictCapacity (capableDictionary n) "v" 0 = .ok 7 :=
    getUI_capableDictionary hn (hlegal _ (List.mem_of_getElem? (i := 0) rfl)) rfl (by decide) 0
  have hnetwork : getUI networkConfigDictCapacity (capableDictionary n) "nwid" 0 = .ok 1 :=
    getUI_capableDictionary hn (hlegal _ (List.mem_of_getElem? (i := 1) rfl)) rfl (by decide) 0
  have hmember : getUI networkConfigDictCapacity (capableDictionary n) "id" 0 = .ok 1 :=
    getUI_capableDictionary hn (hlegal _ (List.mem_of_getElem? (i := 2) rfl)) rfl (by decide) 0
  refine ⟨⟨fun v h => ?_, fun v h => ?_⟩, fun v h => ?_, fun b h => ?_⟩
  · obtain rfl := Except.ok.inj (hnetwork.symm.trans h)
    decide
  · obtain rfl := Except.ok.inj (hmember.symm.trans h)
    decide
  · obtain rfl := Except.ok.inj (hversion.symm.trans h)
    decide
  · -- there is no certificate of membership
    have hkey : Legal (keyBytes "C") := by
      show ∀ c ∈ keyBytes "C", ends c = false ∧ c ≠ equals ∧ c ≠ backslash
      decide +kernel
    have hget := get_capableDictionary hn hkey capacity_pos
    have hfind : ((capableEntries n).find? fun e => e.1 = keyBytes "C").map Prod.snd =
        Option.none := rfl
    rw [hfind] at hget
    rw [getBlob, hget] at h
    cases Except.ok.inj h

/-- The capabilities of the dictionary can be read. -/
theorem fewEnough_capableDictionary_iff :
    FewEnough networkConfigDictCapacity (capableDictionary n) "CAP" Capability.deserialize
      maxNetworkCapabilities ↔ n ≤ maxNetworkCapabilities := by
  have hblob := getBlob_capableDictionary hn
  have hwell : plainCapability.WellFormed :=
    ⟨le_rfl, by decide, fun _ => rfl, fun c hc => absurd hc List.not_mem_nil⟩
  have hserialize : plainCapability.serialize.length = 29 + 1 := rfl
  have hread : ∀ cap ∈ List.replicate n plainCapability,
      Capability.deserialize.ReadsBack cap cap.serialize ∧ cap.serialize ≠ [] := by
    intro cap hcap
    obtain rfl := List.eq_of_mem_replicate hcap
    exact ⟨Capability.readsBack_deserialize hwell, List.ne_nil_of_length_eq_add_one hserialize⟩
  have hentries : entries Capability.deserialize
      ((List.replicate n plainCapability).flatMap Capability.serialize) _ 0 =
        List.replicate n plainCapability := entries_readsBack hread [] (Nat.lt_succ_self _)
  constructor
  · intro hfew
    have hle := hfew _ hblob
    rwa [hentries, List.length_replicate] at hle
  · intro hle b hb
    obtain rfl := Option.some.inj (Except.ok.inj (hblob.symm.trans hb))
    rwa [hentries, List.length_replicate]

end Capable

/-- Two capabilities are read. -/
theorem fromDictionary_two : StaysWithin networkConfigDictCapacity (capableDictionary 2) := by
  have htwo : 2 ≤ 129 := by decide
  refine (fromDictionary_iff _ _ (terminated_capableDictionary htwo)).mpr fun _ => ⟨?_, ?_⟩
  · exact (fewEnough_capableDictionary_iff htwo).mpr (by decide)
  · -- there are no tags
    intro b h
    have hkey : Legal (keyBytes "TAG") := by
      show ∀ c ∈ keyBytes "TAG", ends c = false ∧ c ≠ equals ∧ c ≠ backslash
      decide +kernel
    have hget := get_capableDictionary htwo hkey capacity_pos
    have hfind : ((capableEntries 2).find? fun e => e.1 = keyBytes "TAG").map Prod.snd =
        Option.none := rfl
    rw [hfind] at hget
    rw [getBlob, hget] at h
    cases Except.ok.inj h

/-- **Too many capabilities** are written behind their array. -/
theorem fromDictionary_overrun : ¬ ∀ (C : ℕ) (d : Bytes), Terminated C d → StaysWithin C d := by
  have hmany : ∀ n, n ≤ 129 → maxNetworkCapabilities < n →
      ¬StaysWithin networkConfigDictCapacity (capableDictionary n) := by
    intro n hn hlt hstays
    have hfit := (fine_readAll_iff (terminated_capableDictionary hn)).mp
      (staysWithin_iff_fine.mp hstays)
    have hfew := (hfit (reachesLists_capableDictionary hn)).1
    exact absurd ((fewEnough_capableDictionary_iff hn).mp hfew) (not_le.mpr hlt)
  intro h
  exact hmany 129 le_rfl (by decide) (h _ _ (terminated_capableDictionary le_rfl))

end ConfigFields

end ZGalaxy
