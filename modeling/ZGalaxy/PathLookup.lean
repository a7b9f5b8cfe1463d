/-
ZGalaxy/PathLookup.lean

Looking paths up: `Topology::getPath` over its table, with the periodic clean-up.

The table is keyed by `Path::HashKey`, 192 bits that are packed from the local socket and the
endpoint.  The socket is a pointer, and for IPv6 the port is XORed onto its upper half; an IPv4
endpoint is packed into the bits of an IPv6 address.  So different pairs can have one key
(`Collides`), and `hashKey_eq_iff` says which.

Main result: `lookups_faithful_iff`, the pairs with which every run of lookups gets the path it asks
for, and no path twice for different pairs, are exactly those of which no two collide.
-/
import ZGalaxy.PeerPaths
import ZGalaxy.Hashtable

namespace ZGalaxy

namespace PeerPaths

/-! ### Bytes in network order -/

section Append

variable {v w : ℕ}

/-- A vector is its upper and its lower bits. -/
theorem exists_append (x : BitVec (v + w)) : ∃ (a : BitVec v) (b : BitVec w), a ++ b = x :=
  ⟨_, _, BitVec.extractLsb'_append_extractLsb'⟩

theorem append_inj {a a' : BitVec v} {b b' : BitVec w} :
    a ++ b = a' ++ b' ↔ a = a' ∧ b = b' := by
  constructor
  · intro h
    constructor
    · have hleft := congrArg (BitVec.extractLsb' w v) h
      rwa [BitVec.extractLsb'_append_eq_left, BitVec.extractLsb'_append_eq_left] at hleft
    · have hright := congrArg (BitVec.extractLsb' 0 w) h
      rwa [BitVec.extractLsb'_append_eq_right, BitVec.extractLsb'_append_eq_right] at hright
  · rintro ⟨rfl, rfl⟩
    rfl

end Append

theorem swap16_append (a b : BitVec 8) : swap16 (a ++ b) = b ++ a := by
  unfold swap16
  rw [BitVec.extractLsb'_append_eq_right, BitVec.extractLsb'_append_eq_left]

theorem swap32_append (a b : BitVec 16) : swap32 (a ++ b) = swap16 b ++ swap16 a := by
  unfold swap32
  rw [BitVec.extractLsb'_append_eq_right, BitVec.extractLsb'_append_eq_left]

theorem swap64_append (a b : BitVec 32) : swap64 (a ++ b) = swap32 b ++ swap32 a := by
  unfold swap64
  rw [BitVec.extractLsb'_append_eq_right, BitVec.extractLsb'_append_eq_left]

theorem swap16_swap16 (x : BitVec 16) : swap16 (swap16 x) = x := by
  obtain ⟨a, b, rfl⟩ := exists_append (v := 8) (w := 8) x
  rw [swap16_append, swap16_append]

theorem swap32_swap32 (x : BitVec 32) : swap32 (swap32 x) = x := by
  obtain ⟨a, b, rfl⟩ := exists_append (v := 16) (w := 16) x
  rw [swap32_append, swap32_append, swap16_swap16, swap16_swap16]

theorem swap64_swap64 (x : BitVec 64) : swap64 (swap64 x) = x := by
  obtain ⟨a, b, rfl⟩ := exists_append (v := 32) (w := 32) x
  rw [swap64_append, swap64_append, swap32_swap32, swap32_swap32]

theorem swap64_injective : Function.Injective swap64 :=
  Function.LeftInverse.injective swap64_swap64

/-- Four bytes in a word of eight: the others are those that come last. -/
theorem setWidth_swap32 (ip : BitVec 32) : (swap32 ip).setWidth 64 = swap64 (ip ++ 0#32) := by
  rw [swap64_append]
  exact BitVec.setWidth_eq_append (by decide)

/-- Two bytes in a word of eight. -/
theorem setWidth_swap16 (port : BitVec 16) :
    (swap16 port).setWidth 64 = swap64 ((port ++ 0#16) ++ 0#32) := by
  have hinner : (swap16 port).setWidth 32 = swap32 (port ++ 0#16) := by
    rw [swap32_append]
    exact BitVec.setWidth_eq_append (by decide)
  rw [swap64_append, ← hinner]
  have houter : ((swap16 port).setWidth 32).setWidth 64 = 0#32 ++ (swap16 port).setWidth 32 :=
    BitVec.setWidth_eq_append (by decide)
  have hwide : ((swap16 port).setWidth 32).setWidth 64 = (swap16 port).setWidth 64 := by
    apply BitVec.eq_of_toNat_eq
    have hlt := (swap16 port).isLt
    simp only [BitVec.toNat_setWidth]
    omega
  rw [hwide] at houter
  exact houter

/-! ### Keys -/

/-- An IPv4 endpoint in the place of an IPv6 address. -/
def embedded (ip : BitVec 32) (port : UInt16) : BitVec 128 :=
  (ip ++ 0#32) ++ ((port.toBitVec ++ 0#16) ++ 0#32)

/-- What a port adds to the socket: its two bytes, as they are in memory, from bit 32 on. -/
def portBits (port : UInt16) : BitVec 64 := (swap16 port.toBitVec).setWidth 64 <<< 32

/-- **Different pairs with one key**: one IPv6 address, with ports that differ as the sockets do; or
an IPv4 endpoint and the IPv6 address that its bytes make, at sockets that differ as the port of the
IPv6 endpoint does. -/
def Collides : BitVec 64 × InetAddress → BitVec 64 × InetAddress → Prop
  | (l, .v6 ip port), (l', .v6 ip' port') =>
      ip = ip' ∧ port ≠ port' ∧ l ^^^ l' = portBits port ^^^ portBits port'
  | (l, .v4 ip port), (l', .v6 ip' port') => ip' = embedded ip port ∧ l ^^^ l' = portBits port'
  | (l, .v6 ip port), (l', .v4 ip' port') => ip = embedded ip' port' ∧ l ^^^ l' = portBits port
  | _, _ => False

theorem xor_eq_xor_iff {w : ℕ} {a b l l' : BitVec w} :
    a ^^^ l = b ^^^ l' ↔ l ^^^ l' = a ^^^ b := by
  constructor
  · intro h
    calc l ^^^ l' = (a ^^^ a) ^^^ (l ^^^ l') := by rw [BitVec.xor_self, BitVec.zero_xor]
      _ = a ^^^ ((a ^^^ l) ^^^ l') := by ac_rfl
      _ = a ^^^ (b ^^^ (l' ^^^ l')) := by rw [h, BitVec.xor_assoc]
      _ = a ^^^ b := by rw [BitVec.xor_self, BitVec.xor_zero]
  · intro h
    calc a ^^^ l = a ^^^ ((l ^^^ l') ^^^ l') := by
          rw [BitVec.xor_assoc, BitVec.xor_self, BitVec.xor_zero]
      _ = (a ^^^ a) ^^^ (b ^^^ l') := by rw [h]; ac_rfl
      _ = b ^^^ l' := by rw [BitVec.xor_self, BitVec.zero_xor]

/-- The two words that an IPv6 address is packed into. -/
theorem words_v6_iff {ip ip' : BitVec 128} :
    swap64 (ip.extractLsb' 64 64) = swap64 (ip'.extractLsb' 64 64) ∧
      swap64 (ip.extractLsb' 0 64) = swap64 (ip'.extractLsb' 0 64) ↔ ip = ip' := by
  rw [swap64_injective.eq_iff, swap64_injective.eq_iff]
  obtain ⟨a, b, rfl⟩ := exists_append (v := 64) (w := 64) ip
  obtain ⟨a', b', rfl⟩ := exists_append (v := 64) (w := 64) ip'
  rw [BitVec.extractLsb'_append_eq_left, BitVec.extractLsb'_append_eq_left,
    BitVec.extractLsb'_append_eq_right, BitVec.extractLsb'_append_eq_right, append_inj]

/-- The two words of an IPv4 endpoint are those of the address that its bytes make. -/
theorem words_v4 (ip : BitVec 32) (port : UInt16) :
    swap64 ((embedded ip port).extractLsb' 64 64) = (swap32 ip).setWidth 64 ∧
      swap64 ((embedded ip port).extractLsb' 0 64) = (swap16 port.toBitVec).setWidth 64 := by
  rw [setWidth_swap32, setWidth_swap16]
  unfold embedded
  rw [BitVec.extractLsb'_append_eq_left, BitVec.extractLsb'_append_eq_right]
  exact ⟨rfl, rfl⟩

theorem hashKey_v6_iff {l l' : BitVec 64} {ip ip' : BitVec 128} {port port' : UInt16} :
    hashKey l (.v6 ip port) = hashKey l' (.v6 ip' port') ↔
      ip = ip' ∧ l ^^^ l' = portBits port ^^^ portBits port' := by
  unfold hashKey
  rw [Prod.mk.injEq, Prod.mk.injEq, ← and_assoc, words_v6_iff, xor_eq_xor_iff]
  rfl

theorem hashKey_v4_v6_iff {l l' : BitVec 64} {ip : BitVec 32} {ip' : BitVec 128}
    {port port' : UInt16} :
    hashKey l (.v4 ip port) = hashKey l' (.v6 ip' port') ↔
      ip' = embedded ip port ∧ l ^^^ l' = portBits port' := by
  unfold hashKey
  rw [Prod.mk.injEq, Prod.mk.injEq, ← and_assoc, ← (words_v4 ip port).1, ← (words_v4 ip port).2,
    words_v6_iff]
  refine and_congr eq_comm ?_
  rw [← BitVec.zero_xor (x := l), xor_eq_xor_iff, BitVec.zero_xor, BitVec.zero_xor]
  rfl

theorem hashKey_v4_iff {l l' : BitVec 64} {ip ip' : BitVec 32} {port port' : UInt16} :
    hashKey l (.v4 ip port) = hashKey l' (.v4 ip' port') ↔
      l = l' ∧ InetAddress.v4 ip port = .v4 ip' port' := by
  have hip : (swap32 ip).setWidth 64 = (swap32 ip').setWidth 64 ↔ ip = ip' := by
    rw [setWidth_swap32, setWidth_swap32, swap64_injective.eq_iff, append_inj]
    exact and_iff_left rfl
  have hport : (swap16 port.toBitVec).setWidth 64 = (swap16 port'.toBitVec).setWidth 64 ↔
      port = port' := by
    rw [setWidth_swap16, setWidth_swap16, swap64_injective.eq_iff, append_inj, append_inj,
      UInt16.toBitVec_inj]
    exact (and_iff_left rfl).trans (and_iff_left rfl)
  unfold hashKey
  rw [Prod.mk.injEq, Prod.mk.injEq, hip, hport, InetAddress.v4.injEq]
  exact and_assoc.symm.trans and_comm

/-- **When two pairs have one key**: they are the same, or they collide. -/
theorem hashKey_eq_iff {l l' : BitVec 64} {r r' : InetAddress} (hr : r.isSet = true)
    (hr' : r'.isSet = true) :
    hashKey l r = hashKey l' r' ↔ (l, r) = (l', r') ∨ Collides (l, r) (l', r') := by
  rcases r with - | ⟨ip, port⟩ | ⟨ip, port⟩
  · cases hr
  · rcases r' with - | ⟨ip', port'⟩ | ⟨ip', port'⟩
    · cases hr'
    · rw [hashKey_v4_iff, Prod.mk.injEq]
      exact (or_iff_left id).symm
    · rw [hashKey_v4_v6_iff]
      refine (or_iff_right fun h => ?_).symm
      cases (Prod.mk.inj h).2
  · rcases r' with - | ⟨ip', port'⟩ | ⟨ip', port'⟩
    · cases hr'
    · rw [eq_comm, hashKey_v4_v6_iff, BitVec.xor_comm]
      refine (or_iff_right fun h => ?_).symm
      cases (Prod.mk.inj h).2
    · rw [hashKey_v6_iff, Prod.mk.injEq, InetAddress.v6.injEq]
      constructor
      · rintro ⟨rfl, hxor⟩
        by_cases hport : port = port'
        · -- with one port the sockets are the same
          subst hport
          rw [BitVec.xor_self, BitVec.xor_eq_zero_iff] at hxor
          exact .inl ⟨hxor, rfl, rfl⟩
        · exact .inr ⟨rfl, hport, hxor⟩
      · rintro (⟨rfl, rfl, rfl⟩ | ⟨rfl, -, hxor⟩)
        · exact ⟨rfl, by rw [BitVec.xor_self, BitVec.xor_self]⟩
        · exact ⟨rfl, hxor⟩

/-- What collides is not the same. -/
theorem Collides.ne {x y : BitVec 64 × InetAddress} (h : Collides x y) : x ≠ y := by
  rintro rfl
  obtain ⟨l, r⟩ := x
  rcases r with - | ⟨ip, port⟩ | ⟨ip, port⟩
  · exact h
  · exact h
  · exact h.2.1 rfl

/-! ### Lookups -/

instance : HashCode HashKey := ⟨fun k => (k.1 + k.2.1 + k.2.2).toNat⟩

/-- `Topology::_paths`, and the serial of the next path made. -/
structure Lookups where
  paths : Hashtable HashKey Path
  nextSerial : ℕ

/-- A path that was returned, and what it was asked for with. -/
structure Returned where
  localSocket : BitVec 64
  address : InetAddress
  path : Path
deriving DecidableEq

/-- The calls. -/
inductive LookupEvent
  | getPath (l : BitVec 64) (r : InetAddress)
  | doPeriodicTasks (references : Path → ℕ)

namespace Lookups

/-- `Topology::getPath` -/
def getPath (s : Lookups) (l : BitVec 64) (r : InetAddress) : Path × Lookups :=
  match s.paths.get (hashKey l r) with
  | some p => (p, s)
  | none =>
      let p : Path := ⟨s.nextSerial, l, r⟩
      (p, ⟨s.paths.set (hashKey l r) p, s.nextSerial + 1⟩)

/-- `Topology::doPeriodicTasks`, as far as it is about paths: those that only the table refers to
are erased. -/
def doPeriodicTasks (s : Lookups) (references : Path → ℕ) : Lookups :=
  { s with paths := s.paths.retain fun _ p => !decide (references p ≤ 1) }

/-- No path has been looked up. -/
def start : Lookups := ⟨.empty 64 Hashtable.buckets_pos, 0⟩

end Lookups

/-- The table taking calls. -/
def lookups : Machine Lookups LookupEvent Returned where
  step s
    | .getPath l r => ((s.getPath l r).2, [⟨l, r, (s.getPath l r).1⟩])
    | .doPeriodicTasks references => (s.doPeriodicTasks references, [])

namespace Lookups

variable {s : Lookups} {S : Set (BitVec 64 × InetAddress)}

/-- **What a lookup can do**: it finds a path under the key, or makes the one asked for. -/
theorem getPath_cases (s : Lookups) (l : BitVec 64) (r : InetAddress) :
    (∃ p, s.paths.get (hashKey l r) = some p ∧ s.getPath l r = (p, s)) ∨
    (s.paths.get (hashKey l r) = none ∧ s.getPath l r = (⟨s.nextSerial, l, r⟩,
      ⟨s.paths.set (hashKey l r) ⟨s.nextSerial, l, r⟩, s.nextSerial + 1⟩)) := by
  unfold getPath
  rcases s.paths.get (hashKey l r) with - | p
  · exact .inr ⟨rfl, rfl⟩
  · exact .inl ⟨p, rfl, rfl⟩

/-- What the clean-up leaves was there. -/
theorem get_of_doPeriodicTasks {references : Path → ℕ} {k : HashKey} {p : Path}
    (h : (s.doPeriodicTasks references).paths.get k = some p) : s.paths.get k = some p := by
  unfold doPeriodicTasks at h
  rw [Hashtable.get_retain] at h
  exact (Option.filter_eq_some_iff.mp h).1

/-! ### Serials -/

/-- The paths known so far, in the table or returned, were made before now, and each serial once. -/
structure Made (s : Lookups) (returned : List Path) : Prop where
  old : ∀ p, (p ∈ returned ∨ ∃ k, s.paths.get k = some p) → p.serial < s.nextSerial
  once : ∀ p q, (p ∈ returned ∨ ∃ k, s.paths.get k = some p) →
    (q ∈ returned ∨ ∃ k, s.paths.get k = some q) → p.serial = q.serial → p = q

theorem made_start : Made start [] := by
  have hnone : ∀ p : Path, ¬ (p ∈ ([] : List Path) ∨ ∃ k, start.paths.get k = some p) := by
    rintro p (hp | ⟨k, hk⟩)
    · exact List.not_mem_nil hp
    · have hempty : start.paths.get k = none := Hashtable.get_empty _ _ _
      rw [hempty] at hk
      cases hk
  exact ⟨fun p hp => absurd hp (hnone p), fun p _ hp => absurd hp (hnone p)⟩

/-- What is known stays so when fewer paths are. -/
theorem Made.mono {s' : Lookups} {returned returned' : List Path} (h : Made s returned)
    (hserial : s'.nextSerial = s.nextSerial)
    (hsub : ∀ p, (p ∈ returned' ∨ ∃ k, s'.paths.get k = some p) →
      p ∈ returned ∨ ∃ k, s.paths.get k = some p) : Made s' returned' :=
  ⟨fun p hp => hserial ▸ h.old p (hsub p hp),
    fun p q hp hq => h.once p q (hsub p hp) (hsub q hq)⟩

theorem Made.getPath {returned : List Path} (h : Made s returned) (l : BitVec 64)
    (r : InetAddress) : Made (s.getPath l r).2 (returned ++ [(s.getPath l r).1]) := by
  rcases getPath_cases s l r with ⟨p, hget, heq⟩ | ⟨-, heq⟩
  · rw [heq]
    refine h.mono rfl ?_
    rintro q (hq | hq)
    · rcases List.mem_append.mp hq with hq | hq
      · exact .inl hq
      · rw [List.mem_singleton.mp hq]
        exact .inr ⟨_, hget⟩
    · exact .inr hq
  · -- the new path, and those known before
    rw [heq]
    have hcases : ∀ q, (q ∈ returned ++ [⟨s.nextSerial, l, r⟩] ∨
        ∃ k, (s.paths.set (hashKey l r) ⟨s.nextSerial, l, r⟩).get k = some q) →
        q = ⟨s.nextSerial, l, r⟩ ∨ q ∈ returned ∨ ∃ k, s.paths.get k = some q := by
      rintro q (hq | ⟨k, hk⟩)
      · rcases List.mem_append.mp hq with hq | hq
        · exact .inr (.inl hq)
        · exact .inl (List.mem_singleton.mp hq)
      · rw [Hashtable.get_set] at hk
        split_ifs at hk
        · exact .inl (Option.some.inj hk).symm
        · exact .inr (.inr ⟨k, hk⟩)
    refine ⟨fun q hq => ?_, fun q q' hq hq' hserial => ?_⟩
    · rcases hcases q hq with rfl | hq
      · exact Nat.lt_succ_self _
      · exact Nat.lt_succ_of_lt (h.old q hq)
    · rcases hcases q hq with rfl | hq
      · rcases hcases q' hq' with rfl | hq'
        · rfl
        · exact absurd hserial (h.old q' hq').ne'
      · rcases hcases q' hq' with rfl | hq'
        · exact absurd hserial (h.old q hq).ne
        · exact h.once q q' hq hq' hserial

theorem Made.run {returned : List Path} (h : Made s returned) (es : List LookupEvent) :
    Made (lookups.runState s es) (returned ++ (lookups.runOutputs s es).map Returned.path) := by
  induction es generalizing s returned with
  | nil =>
      rw [Machine.runOutputs_nil, List.map_nil, List.append_nil]
      exact h
  | cons e es ih =>
      rw [Machine.runState_cons, Machine.runOutputs_cons, List.map_append, ← List.append_assoc]
      refine ih ?_
      rcases e with ⟨l, r⟩ | references
      · exact h.getPath l r
      · refine h.mono rfl ?_
        rintro p (hp | ⟨k, hk⟩)
        · exact .inl (by simpa [lookups] using hp)
        · exact .inr ⟨k, get_of_doPeriodicTasks hk⟩

/-! ### Faithful lookups -/

/-- Each path has what it was asked for with, and no path was returned for different pairs. -/
def Faithful (returned : List Returned) : Prop :=
  (∀ o ∈ returned, o.path.localSocket = o.localSocket ∧ o.path.address = o.address) ∧
  ∀ o ∈ returned, ∀ o' ∈ returned, o.path.serial = o'.path.serial →
    (o.localSocket, o.address) = (o'.localSocket, o'.address)

/-- The pairs that paths are looked up with are of `S`, and IP endpoints. -/
def With (S : Set (BitVec 64 × InetAddress)) (e : LookupEvent) : Prop :=
  ∀ l r, e = .getPath l r → r.isSet = true ∧ (l, r) ∈ S

/-- Every path is under its own key. -/
def Keyed (S : Set (BitVec 64 × InetAddress)) (s : Lookups) : Prop :=
  ∀ k p, s.paths.get k = some p →
    hashKey p.localSocket p.address = k ∧ p.address.isSet = true ∧ (p.localSocket, p.address) ∈ S

theorem keyed_start : Keyed S start := by
  intro k p hp
  have hempty : start.paths.get k = none := Hashtable.get_empty _ _ _
  rw [hempty] at hp
  cases hp

theorem Keyed.step (h : Keyed S s) {e : LookupEvent} (he : With S e) :
    Keyed S (lookups.step s e).1 := by
  rcases e with ⟨l, r⟩ | references
  · show Keyed S (s.getPath l r).2
    obtain ⟨hr, hmem⟩ := he l r rfl
    rcases getPath_cases s l r with ⟨p, -, heq⟩ | ⟨-, heq⟩
    · rw [heq]
      exact h
    · rw [heq]
      intro k p hp
      rw [Hashtable.get_set] at hp
      split_ifs at hp with hk
      · obtain rfl := Option.some.inj hp
        exact ⟨hk.symm, hr, hmem⟩
      · exact h k p hp
  · intro k p hp
    exact h k p (get_of_doPeriodicTasks hp)

/-- **The step lemma**: among pairs of which no two collide, a lookup gets what it asks for. -/
theorem Keyed.faithful (h : Keyed S s) (hS : ∀ x ∈ S, ∀ y ∈ S, ¬ Collides x y) {e : LookupEvent}
    (he : With S e) :
    ∀ o ∈ (lookups.step s e).2, o.path.localSocket = o.localSocket ∧
      o.path.address = o.address := by
  rcases e with ⟨l, r⟩ | references
  · intro o ho
    obtain rfl := List.mem_singleton.mp ho
    obtain ⟨hr, hmem⟩ := he l r rfl
    rcases getPath_cases s l r with ⟨p, hget, heq⟩ | ⟨-, heq⟩
    · obtain ⟨hkey, hset, hp⟩ := h _ p hget
      rw [heq]
      rcases (hashKey_eq_iff hset hr).mp hkey with hsame | hcollide
      · exact Prod.mk.inj hsame
      · exact absurd hcollide (hS _ hp _ hmem)
    · rw [heq]
      exact ⟨rfl, rfl⟩
  · intro o ho
    exact absurd ho List.not_mem_nil

/-- What is returned in a run, if no pairs collide. -/
theorem faithful_run (hS : ∀ x ∈ S, ∀ y ∈ S, ¬ Collides x y) {es : List LookupEvent}
    (hes : ∀ e ∈ es, With S e) : Faithful (lookups.runOutputs start es) := by
  have hmatch : ∀ o ∈ lookups.runOutputs start es,
      o.path.localSocket = o.localSocket ∧ o.path.address = o.address := by
    intro o ho
    obtain ⟨_, _, -, hP⟩ := Machine.outputs_run (I := fun _ s => Keyed S s)
      (P := fun _ o => o.path.localSocket = o.localSocket ∧ o.path.address = o.address)
      (fun _ _ _ hI he => hI.step he) (fun _ _ _ hI he => hI.faithful hS he) (h := [])
      keyed_start (Machine.guarded_of_forall (fun e he _ => hes e he) _) o ho
    exact hP
  refine ⟨hmatch, fun o ho o' ho' hserial => ?_⟩
  have hmade := made_start.run es
  have hpath := hmade.once o.path o'.path
    (.inl (List.mem_append_right _ (List.mem_map_of_mem ho)))
    (.inl (List.mem_append_right _ (List.mem_map_of_mem ho'))) hserial
  rw [← (hmatch o ho).1, ← (hmatch o ho).2, ← (hmatch o' ho').1, ← (hmatch o' ho').2, hpath]

/-- Two lookups of one key get one path. -/
theorem shared_of_hashKey_eq {l l' : BitVec 64} {r r' : InetAddress}
    (hkey : hashKey l r = hashKey l' r') :
    lookups.runOutputs start [.getPath l r, .getPath l' r'] =
      [⟨l, r, ⟨0, l, r⟩⟩, ⟨l', r', ⟨0, l, r⟩⟩] := by
  have hfirst : start.getPath l r =
      (⟨0, l, r⟩, ⟨start.paths.set (hashKey l r) ⟨0, l, r⟩, 1⟩) := by
    rcases getPath_cases start l r with ⟨p, hget, -⟩ | ⟨-, heq⟩
    · have hempty : start.paths.get (hashKey l r) = none := Hashtable.get_empty _ _ _
      rw [hempty] at hget
      cases hget
    · exact heq
  have hsecond : (start.getPath l r).2.getPath l' r' = (⟨0, l, r⟩, (start.getPath l r).2) := by
    rcases getPath_cases (start.getPath l r).2 l' r' with ⟨p, hget, heq⟩ | ⟨hget, -⟩
    · rw [hfirst] at hget
      rw [Hashtable.get_set, if_pos hkey.symm] at hget
      rw [heq, ← Option.some.inj hget]
    · rw [hfirst] at hget
      rw [Hashtable.get_set, if_pos hkey.symm] at hget
      cases hget
  show [Returned.mk l r (start.getPath l r).1] ++
    ([Returned.mk l' r' ((start.getPath l r).2.getPath l' r').1] ++ []) = _
  rw [hsecond, hfirst]
  rfl

/-- **Exactly when lookups are faithful**: of the pairs that paths are looked up with no two
collide. -/
theorem lookups_faithful_iff (S : Set (BitVec 64 × InetAddress)) :
    (∀ es : List LookupEvent, (∀ e ∈ es, With S e) →
      Faithful (lookups.runOutputs start es)) ↔
      ∀ x ∈ S, ∀ y ∈ S, ¬ Collides x y := by
  constructor
  · rintro h ⟨l, r⟩ hx ⟨l', r'⟩ hy hcollide
    have hset : r.isSet = true ∧ r'.isSet = true := by
      rcases r with - | ⟨ip, port⟩ | ⟨ip, port⟩
      · exact absurd hcollide id
      · rcases r' with - | ⟨ip', port'⟩ | ⟨ip', port'⟩
        · exact absurd hcollide id
        · exact ⟨rfl, rfl⟩
        · exact ⟨rfl, rfl⟩
      · rcases r' with - | ⟨ip', port'⟩ | ⟨ip', port'⟩
        · exact absurd hcollide id
        · exact ⟨rfl, rfl⟩
        · exact ⟨rfl, rfl⟩
    have hwith : ∀ e ∈ [LookupEvent.getPath l r, .getPath l' r'], With S e := by
      intro e he l₁ r₁ heq
      rcases List.mem_cons.mp he with rfl | he
      · obtain ⟨rfl, rfl⟩ := LookupEvent.getPath.inj heq
        exact ⟨hset.1, hx⟩
      · obtain rfl := List.mem_singleton.mp he
        obtain ⟨rfl, rfl⟩ := LookupEvent.getPath.inj heq
        exact ⟨hset.2, hy⟩
    have hfaithful := h _ hwith
    rw [shared_of_hashKey_eq ((hashKey_eq_iff hset.1 hset.2).mpr (.inr hcollide))] at hfaithful
    have hsame := hfaithful.1 _ (List.mem_cons_of_mem _ (List.mem_singleton_self _))
    exact hcollide.ne (Prod.ext hsame.1 hsame.2)
  · intro hS es hes
    exact faithful_run hS hes

/-- Two endpoints of one host, on sockets that differ as their ports do, get one path. -/
theorem sockets_alias :
    ¬ ∀ es : List LookupEvent, (∀ e ∈ es, With {x | x.2.isSet = true} e) →
      Faithful (lookups.runOutputs start es) := by
  intro h
  have hkey : hashKey 0 (.v6 1 1) = hashKey 0x0000030000000000 (.v6 1 2) := by decide
  have hfaithful := h [.getPath 0 (.v6 1 1), .getPath 0x0000030000000000 (.v6 1 2)] (by
    intro e he l r heq
    subst heq
    rcases List.mem_cons.mp he with heq | he
    · obtain ⟨rfl, rfl⟩ := LookupEvent.getPath.inj heq
      exact ⟨rfl, rfl⟩
    · obtain ⟨rfl, rfl⟩ := LookupEvent.getPath.inj (List.mem_singleton.mp he)
      exact ⟨rfl, rfl⟩)
  rw [shared_of_hashKey_eq hkey] at hfaithful
  have hsame := (hfaithful.1 _ (List.mem_cons_of_mem _ (List.mem_singleton_self _))).1
  exact absurd hsame (by decide)

end Lookups

end PeerPaths

end ZGalaxy
