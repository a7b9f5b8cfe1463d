/-
ZGalaxy/PeerPaths.lean

The physical paths of a peer.

A peer has a table of `maxPeerNetworkPaths` slots, and everything that reads it stops at the first
slot without a path.  So the paths have to stand in front, and none of them twice (`PathsOk`).
Four operations write the table: `received` under two separate locks, `doPingAndKeepalive`, which
closes the gaps that expired paths leave, `clusterRedirect` and `resetWithinScope`.

A path is an object; the topology has one for each `HashKey`, which is not the same as one for each
endpoint: the key of an IPv4 endpoint is also that of an IPv6 endpoint without a port.

Main result: `pathsOk_run`, the table is well formed in every run, with the two sections of
`received` interleaved with anything, as long as no step stores a path that is stored (`Fresh`):
the second section of `received` one that came into the table since the first, or a redirect one
that the redirect keeps.
-/
import ZGalaxy.InetAddress
import ZGalaxy.Machine
import Mathlib.Logic.Function.Basic
import Mathlib.Order.Basic

namespace ZGalaxy

namespace PeerPaths

/-! ### Paths -/

/-- `Path`: an object, told apart from others by when it was made, with what never changes of it. -/
structure Path where
  serial : ℕ
  localSocket : BitVec 64
  address : InetAddress
  deriving DecidableEq

/-- `InetAddress::ipsEqual2`: of IPv6 addresses only the first 64 bits. -/
def ipsEqual2 : InetAddress → InetAddress → Bool
  | .v4 ip _, .v4 ip' _ => ip == ip'
  | .v6 ip _, .v6 ip' _ => ip.extractLsb' 64 64 == ip'.extractLsb' 64 64
  | .nil, .nil => true
  | _, _ => false

theorem ipsEqual2_self (a : InetAddress) : ipsEqual2 a a = true := by
  cases a with
  | nil => rfl
  | v4 ip port => exact beq_self_eq_true ip
  | v6 ip port => exact beq_self_eq_true (ip.extractLsb' 64 64)

/-- Two bytes in network order, as a little-endian host reads them. -/
def swap16 (x : BitVec 16) : BitVec 16 := x.extractLsb' 0 8 ++ x.extractLsb' 8 8

def swap32 (x : BitVec 32) : BitVec 32 :=
  swap16 (x.extractLsb' 0 16) ++ swap16 (x.extractLsb' 16 16)

def swap64 (x : BitVec 64) : BitVec 64 :=
  swap32 (x.extractLsb' 0 32) ++ swap32 (x.extractLsb' 32 32)

/-- `Path::HashKey`. -/
abbrev HashKey := BitVec 64 × BitVec 64 × BitVec 64

/-- The constructor of `Path::HashKey`. -/
def hashKey (l : BitVec 64) : InetAddress → HashKey
  | .v4 ip port => ((swap32 ip).setWidth 64, (swap16 port.toBitVec).setWidth 64, l)
  | .v6 ip port =>
      (swap64 (ip.extractLsb' 64 64), swap64 (ip.extractLsb' 0 64),
        ((swap16 port.toBitVec).setWidth 64 <<< 32) ^^^ l)
  | .nil => (0, 0, l)

/-! ### The table -/

/-- `ZT_MAX_PEER_NETWORK_PATHS`. -/
def maxPeerNetworkPaths : ℕ := 64

/-- `ZT_PEER_PATH_EXPIRATION`. -/
def peerPathExpiration : ℤ := 243000

/-- `ZT_PATH_HEARTBEAT_PERIOD`. -/
def pathHeartbeatPeriod : ℤ := 14000

/-- `Peer::_PeerPath`. -/
structure PeerPath where
  /-- time of last valid packet -/
  lr : ℤ := 0
  p : Option Path := none
  priority : ℤ := 1
  deriving DecidableEq

/-- `Peer::_paths`: the first `maxPeerNetworkPaths` slots. -/
abbrev PathTable := ℕ → PeerPath

/-- What is asked of paths and of the node at one moment. -/
structure Moment where
  now : ℤ
  lastIn : Path → ℤ
  /-- whether the peer has a bond -/
  bonded : Bool

/-- `Path::alive`. -/
def Moment.alive (m : Moment) (q : Path) : Bool :=
  decide (m.now - m.lastIn q < pathHeartbeatPeriod + 5000)

/-- `Path::age`, as an `unsigned int`. -/
def Moment.age (m : Moment) (q : Path) : ℕ := (BitVec.ofInt 32 (m.now - m.lastIn q)).toNat

namespace PathTable

variable (t : PathTable)

/-- The slots that a loop sees which stops at the first one without a path. -/
def untilNull : List PeerPath :=
  ((List.range maxPeerNetworkPaths).map t).takeWhile fun e => e.p.isSome

/-! ### Peer::received -/

/-- The same address on the same interface. -/
def sameEndpoint (q path : Path) : Bool :=
  q.address.ipsEqual path.address && q.localSocket == path.localSocket

/-- The first loop of `received`, over `n` slots from `i` on: whether the path need not be learned.
-/
def refresh (m : Moment) (path : Path) : ℕ → ℕ → Bool × PathTable
  | 0, _ => (false, t)
  | n + 1, i =>
      match (t i).p with
      | none => (false, t)
      | some q =>
          if q = path then (true, Function.update t i { t i with lr := m.now })
          -- If same address on same interface then don't learn unless existing path isn't alive
          else if sameEndpoint q path = true ∧ m.alive q = true ∧ m.bonded = false then (true, t)
          else refresh m path n (i + 1)

/-- The second loop of `received`: the slot to write, `maxPeerNetworkPaths` if none, and until then
the oldest path with its age. -/
def findReplacement (m : Moment) (path : Path) : ℕ → ℕ → ℕ × ℕ → ℕ
  | 0, _, oldest => oldest.1
  | n + 1, i, oldest =>
      match (t i).p with
      | none => i
      | some q =>
          -- Keep track of oldest path as a last resort option
          let oldest := if oldest.2 < m.age q then (i, m.age q) else oldest
          if sameEndpoint q path = true ∧ m.alive q = false then i
          else findReplacement m path n (i + 1) oldest

/-- The slot that `received` writes a new path to. -/
def replacePath (m : Moment) (path : Path) : ℕ :=
  t.findReplacement m path maxPeerNetworkPaths 0 (maxPeerNetworkPaths, 0)

/-- The second section of `received`. -/
def learn (m : Moment) (path : Path) : PathTable :=
  let r := t.replacePath m path
  if r ≠ maxPeerNetworkPaths then Function.update t r ⟨m.now, some path, 1⟩ else t

/-! ### Peer::doPingAndKeepalive -/

/-- The highest priority. -/
def maxPriority : ℤ := t.untilNull.foldl (fun highest e => max e.priority highest) 0

/-- The inner loop: the first path from slot `j` on, except in slot `i`. -/
def nextStored (i : ℕ) : Option ℕ :=
  (List.range' i (maxPeerNetworkPaths - i)).find? fun j => (t j).p.isSome && i != j

/-- Close the gap at slot `i`. -/
def closeGap (i : ℕ) : PathTable :=
  match t.nextStored i with
  | some j => Function.update (Function.update t i (t j)) j {}
  | none => t

/-- A path that stays: neither expired nor of reduced priority. -/
def Current (m : Moment) (highest : ℤ) (e : PeerPath) : Prop :=
  m.now - e.lr < peerPathExpiration ∧ e.priority = highest

instance (m : Moment) (highest : ℤ) (e : PeerPath) : Decidable (Current m highest e) := by
  unfold Current
  infer_instance

/-- One round of the loop over the slots. -/
def pingSlot (m : Moment) (highest : ℤ) (t : PathTable) (i : ℕ) : PathTable :=
  match (t i).p with
  | some _ =>
      if Current m highest (t i) then t else closeGap (Function.update t i {}) i
  | none => closeGap t i

/-- `doPingAndKeepalive`. -/
def doPingAndKeepalive (m : Moment) : PathTable :=
  (List.range maxPeerNetworkPaths).foldl (pingSlot m t.maxPriority) t

/-! ### Peer::clusterRedirect and Peer::resetWithinScope -/

/-- The priority of the redirect target: higher than that of the originating path, if known. -/
def newPriority (originatingPath : Path) : ℤ :=
  ((t.untilNull.find? fun e => e.p == some originatingPath).elim 1 PeerPath.priority) + 2

/-- A path that a redirect to `remoteAddress` leaves in the table. -/
def Kept (priority : ℤ) (remoteAddress : InetAddress) (e : PeerPath) : Prop :=
  ∃ q, e.p = some q ∧ priority ≤ e.priority ∧ ipsEqual2 q.address remoteAddress = false

instance (least : ℤ) (remoteAddress : InetAddress) (e : PeerPath) :
    Decidable (Kept least remoteAddress e) := by
  unfold Kept
  rcases e.p with - | q
  · exact isFalse (by simp)
  · exact decidable_of_iff (least ≤ e.priority ∧ ipsEqual2 q.address remoteAddress = false)
      (by simp)

/-- One round of the loop that moves the paths to keep to the front; `j` of them were found. -/
def keepSlot (priority : ℤ) (remoteAddress : InetAddress) (s : PathTable × ℕ) (i : ℕ) :
    PathTable × ℕ :=
  if Kept priority remoteAddress (s.1 i) then
    (if i ≠ s.2 then Function.update s.1 s.2 (s.1 i) else s.1, s.2 + 1)
  else s

/-- The table after that loop, and how many paths were kept. -/
def keepSlots (priority : ℤ) (remoteAddress : InetAddress) : PathTable × ℕ :=
  (List.range maxPeerNetworkPaths).foldl (keepSlot priority remoteAddress) (t, 0)

/-- Store `np` behind the paths that were kept, if there is room, and clear the rest. -/
def storeBehind (m : Moment) (np : Path) (priority : ℤ) (s : PathTable × ℕ) : PathTable :=
  if s.2 < maxPeerNetworkPaths then
    fun k => if k < s.2 then s.1 k else if k = s.2 then ⟨m.now, some np, priority⟩ else {}
  else s.1

/-- `clusterRedirect` from the originating path to the path `np` at `remoteAddress`. -/
def clusterRedirect (m : Moment) (originatingPath np : Path) (remoteAddress : InetAddress) :
    PathTable :=
  storeBehind m np (t.newPriority originatingPath)
    (t.keepSlots (t.newPriority originatingPath) remoteAddress)

/-- The loop of `resetWithinScope`, over `n` slots from `i` on. -/
def resetWithinScope (inScope : InetAddress → Bool) : ℕ → ℕ → PathTable → PathTable
  | 0, _, t => t
  | n + 1, i, t =>
      match (t i).p with
      | none => t
      | some q =>
          resetWithinScope inScope n (i + 1)
            (if inScope q.address then Function.update t i { t i with lr := 0 } else t)

/-! ### Readers -/

/-- `Peer::paths`. -/
def paths : List Path := t.untilNull.filterMap PeerPath.p

/-- `Peer::hasAlivePath`. -/
def hasAlivePath (m : Moment) : Bool :=
  t.untilNull.any fun e => e.p.any m.alive

/-- The number of paths that `serializeForCache` writes, and their addresses. -/
def serializedPaths : ℕ × List InetAddress :=
  (t.untilNull.length, t.untilNull.filterMap fun e => e.p.map Path.address)

/-- One entry, in the loop of `getAppropriatePath` after the best quality so far and its path. -/
def better (m : Moment) (quality : PeerPath → ℤ) (includeExpired : Bool) (best : ℤ × Option Path)
    (e : PeerPath) : ℤ × Option Path :=
  if (includeExpired = true ∨ m.now - e.lr < peerPathExpiration) ∧ quality e ≤ best.1 then
    (quality e, e.p)
  else best

/-- `Peer::getAppropriatePath` without a bond, for paths of the given quality. -/
def getAppropriatePath (m : Moment) (quality : PeerPath → ℤ) (includeExpired : Bool) :
    Option Path :=
  (t.untilNull.foldl (better m quality includeExpired) (2147483647, none)).2

/-! ### Paths in front, none twice -/

/-- Nothing is stored behind a slot without a path, up to slot `m`. -/
def FrontUpTo (m : ℕ) : Prop :=
  ∀ i, i < m → (t i).p = none → ∀ j, i < j → j < maxPeerNetworkPaths → (t j).p = none

/-- No path is stored twice. -/
def Distinct : Prop :=
  ∀ i j q, i < maxPeerNetworkPaths → j < maxPeerNetworkPaths →
    (t i).p = some q → (t j).p = some q → i = j

/-- The table is well formed. -/
structure PathsOk : Prop where
  front : t.FrontUpTo maxPeerNetworkPaths
  distinct : t.Distinct

variable {t}

/-- Only the paths of the slots matter. -/
theorem PathsOk.congr {t' : PathTable} (h : ∀ i, (t' i).p = (t i).p) (ok : t.PathsOk) :
    t'.PathsOk := by
  constructor
  · intro i hi h0 j hij hj
    rw [h] at h0 ⊢
    exact ok.front i hi h0 j hij hj
  · intro i j q hi hj hq hq'
    rw [h] at hq hq'
    exact ok.distinct i j q hi hj hq hq'

/-! #### received -/

/-- The first section changes no path. -/
@[simp] theorem refresh_p (m : Moment) (path : Path) (n i k : ℕ) :
    ((t.refresh m path n i).2 k).p = (t k).p := by
  induction n generalizing i with
  | zero => rfl
  | succ n ih =>
      unfold refresh
      split
      · rfl
      · split_ifs
        · show (Function.update t i _ k).p = _
          rcases eq_or_ne k i with rfl | hki
          · rw [Function.update_self]
          · rw [Function.update_of_ne hki]
        · rfl
        · exact ih (i + 1)

/-- What the first section asks for, where nothing else comes between: it finds the path, if the
path is stored in a table without gaps. -/
theorem refresh_finds {m : Moment} {path : Path} {n i : ℕ}
    (front : t.FrontUpTo maxPeerNetworkPaths) {k : ℕ} (hik : i ≤ k) (hk : k < i + n)
    (hkp : k < maxPeerNetworkPaths) (hp : (t k).p = some path) :
    (t.refresh m path n i).1 = true := by
  -- on the slots still to be looked at, none of which is empty before the path
  induction n generalizing i with
  | zero => omega
  | succ n ih =>
      unfold refresh
      split
      · rename_i h0
        rcases hik.eq_or_lt with rfl | hlt
        · rw [hp] at h0
          cases h0
        · have := front i (by omega) h0 k hlt hkp
          rw [hp] at this
          cases this
      · rename_i q hq
        split_ifs with hqp
        · rfl
        · rfl
        · refine ih ?_ (by omega)
          rcases hik.eq_or_lt with rfl | hlt
          · rw [hp] at hq
            exact absurd (Option.some.inj hq).symm hqp
          · exact hlt

/-- The slot to write is one of the table with a path in every slot before it, or there is none. -/
theorem findReplacement_spec {m : Moment} {path : Path} {n i : ℕ} {oldest : ℕ × ℕ}
    (hn : i + n = maxPeerNetworkPaths) (hi : ∀ k < i, (t k).p ≠ none)
    (ho : oldest.1 = maxPeerNetworkPaths ∨ oldest.1 < i) :
    t.findReplacement m path n i oldest = maxPeerNetworkPaths ∨
      t.findReplacement m path n i oldest < maxPeerNetworkPaths ∧
        ∀ k < t.findReplacement m path n i oldest, (t k).p ≠ none := by
  -- on the slots still to be looked at: the ones before hold paths
  induction n generalizing i oldest with
  | zero =>
      unfold findReplacement
      rcases ho with ho | ho
      · exact Or.inl ho
      · exact Or.inr ⟨by omega, fun k hk => hi k (by omega)⟩
  | succ n ih =>
      unfold findReplacement
      split
      · exact Or.inr ⟨by omega, hi⟩
      · rename_i q hq
        have hi' : ∀ k < i + 1, (t k).p ≠ none := by
          intro k hk
          rcases (Nat.lt_succ_iff.mp hk).eq_or_lt with rfl | hlt
          · rw [hq]
            exact Option.some_ne_none q
          · exact hi k hlt
        extract_lets oldest'
        have ho' : oldest'.1 = maxPeerNetworkPaths ∨ oldest'.1 < i + 1 := by
          show (if _ then _ else _ : ℕ × ℕ).1 = _ ∨ (if _ then _ else _ : ℕ × ℕ).1 < _
          split_ifs
          · exact Or.inr (Nat.lt_succ_self i)
          · exact ho.imp_right fun h => h.trans (Nat.lt_succ_self i)
        split_ifs
        · exact Or.inr ⟨by omega, hi⟩
        · exact ih (by omega) hi' ho'

theorem replacePath_spec (m : Moment) (path : Path) :
    t.replacePath m path = maxPeerNetworkPaths ∨
      t.replacePath m path < maxPeerNetworkPaths ∧ ∀ k < t.replacePath m path, (t k).p ≠ none :=
  findReplacement_spec (Nat.zero_add _) (fun _ hk => absurd hk (Nat.not_lt_zero _)) (Or.inl rfl)

/-- **The second section keeps the table well formed exactly if** it writes nothing or its path
stands in no slot but the one that is written. -/
theorem learn_pathsOk_iff (ok : t.PathsOk) (m : Moment) (path : Path) :
    (t.learn m path).PathsOk ↔
      t.replacePath m path = maxPeerNetworkPaths ∨
        ∀ i < maxPeerNetworkPaths, (t i).p = some path → i = t.replacePath m path := by
  unfold learn
  extract_lets r
  rcases (t.replacePath_spec m path : r = _ ∨ r < _ ∧ _) with hr | ⟨hr, hfull⟩
  · rw [if_neg (not_not.mpr hr)]
    exact ⟨fun _ => Or.inl hr, fun _ => ok⟩
  · have hne : r ≠ maxPeerNetworkPaths := Nat.ne_of_lt hr
    rw [if_pos hne]
    constructor
    · intro h
      right
      intro i hi hp
      by_contra hir
      refine hir (h.distinct i r path hi hr ?_ ?_)
      · rw [Function.update_of_ne hir]
        exact hp
      · rw [Function.update_self]
    · intro h
      have hnew := h.resolve_left hne
      constructor
      · intro i hi h0 j hij hj
        have hir : i ≠ r := by
          rintro rfl
          rw [Function.update_self] at h0
          cases h0
        rw [Function.update_of_ne hir] at h0
        have hjr : j ≠ r := by
          rintro rfl
          exact hfull i hij h0
        rw [Function.update_of_ne hjr]
        exact ok.front i hi h0 j hij hj
      · intro i j q hi hj hq hq'
        -- the written slot holds the new path, the others what they held
        rcases eq_or_ne i r with rfl | hir <;> rcases eq_or_ne j r with hjr | hjr
        · exact hjr.symm
        · rw [Function.update_self] at hq
          rw [Function.update_of_ne hjr] at hq'
          rw [← Option.some.inj hq] at hq'
          exact (hnew j hj hq').symm
        · subst hjr
          rw [Function.update_of_ne hir] at hq
          rw [Function.update_self] at hq'
          rw [← Option.some.inj hq'] at hq
          exact hnew i hi hq
        · rw [Function.update_of_ne hir] at hq
          rw [Function.update_of_ne hjr] at hq'
          exact ok.distinct i j q hi hj hq hq'

/-! #### doPingAndKeepalive -/

theorem FrontUpTo.mono {m m' : ℕ} (h : t.FrontUpTo m) (hm : m' ≤ m) : t.FrontUpTo m' :=
  fun i hi => h i (hi.trans_le hm)

/-- Emptying slot `i` leaves the slots before it in order, and no path twice. -/
theorem clear_keeps {i : ℕ} (front : t.FrontUpTo i) (distinct : t.Distinct) :
    FrontUpTo (Function.update t i {}) i ∧ Distinct (Function.update t i {}) := by
  constructor
  · intro k hk h0 j hkj hj
    rw [Function.update_of_ne (Nat.ne_of_lt hk)] at h0
    rcases eq_or_ne j i with rfl | hji
    · rw [Function.update_self]
    · rw [Function.update_of_ne hji]
      exact front k hk h0 j hkj hj
  · intro j k q hj hk hq hq'
    rcases eq_or_ne j i with rfl | hji
    · rw [Function.update_self] at hq
      cases hq
    · rcases eq_or_ne k i with rfl | hki
      · rw [Function.update_self] at hq'
        cases hq'
      · rw [Function.update_of_ne hji] at hq
        rw [Function.update_of_ne hki] at hq'
        exact distinct j k q hj hk hq hq'

/-- The inner loop finds a slot behind `i` with a path, if there is one. -/
theorem nextStored_eq_some {i j : ℕ} (h : t.nextStored i = some j) :
    i < j ∧ j < maxPeerNetworkPaths ∧ ∃ q, (t j).p = some q := by
  have hj := List.find?_some h
  have hmem := List.mem_of_find?_eq_some h
  rw [Bool.and_eq_true, bne_iff_ne, Option.isSome_iff_exists] at hj
  rw [List.mem_range'_1] at hmem
  exact ⟨lt_of_le_of_ne hmem.1 hj.2, by omega, hj.1⟩

theorem nextStored_eq_none {i j : ℕ} (h : t.nextStored i = none) (hij : i < j)
    (hj : j < maxPeerNetworkPaths) : (t j).p = none := by
  have := List.find?_eq_none.mp h j (List.mem_range'_1.mpr ⟨hij.le, by omega⟩)
  rw [Bool.and_eq_true, bne_iff_ne, not_and, not_not, Option.isSome_iff_ne_none] at this
  by_contra hp
  exact absurd (this hp) (Nat.ne_of_lt hij)

/-- Closing the gap at slot `i` puts that slot in order too. -/
theorem closeGap_keeps {i : ℕ} (hi : i < maxPeerNetworkPaths) (gap : (t i).p = none)
    (front : t.FrontUpTo i) (distinct : t.Distinct) :
    FrontUpTo (t.closeGap i) (i + 1) ∧ Distinct (t.closeGap i) := by
  unfold closeGap
  split
  · rename_i j hj
    obtain ⟨hij, hj64, q, hq⟩ := nextStored_eq_some hj
    have hne : i ≠ j := Nat.ne_of_lt hij
    have hmoved : (Function.update (Function.update t i (t j)) j {} : PathTable) i = t j := by
      rw [Function.update_of_ne hne, Function.update_self]
    have hother : ∀ k, k ≠ i → k ≠ j →
        (Function.update (Function.update t i (t j)) j {} : PathTable) k = t k := by
      intro k hki hkj
      rw [Function.update_of_ne hkj, Function.update_of_ne hki]
    have hcleared : (Function.update (Function.update t i (t j)) j {} : PathTable) j = {} :=
      Function.update_self ..
    constructor
    · -- a slot before `i` has a path, for slot `j` behind it has one; slot `i` has that one now
      intro k hk h0
      rcases (Nat.lt_succ_iff.mp hk).eq_or_lt with rfl | hki
      · rw [hmoved, hq] at h0
        cases h0
      · rw [hother k (Nat.ne_of_lt hki) (Nat.ne_of_lt (hki.trans hij))] at h0
        rw [front k hki h0 j (hki.trans hij) hj64] at hq
        cases hq
    · -- slots `i` and `j` are exchanged
      have hslot : ∀ k, k < maxPeerNetworkPaths → ∀ q',
          ((Function.update (Function.update t i (t j)) j {} : PathTable) k).p = some q' →
            k ≠ j ∧ (t (if k = i then j else k)).p = some q' := by
        intro k _ q' hk
        have hkj : k ≠ j := by
          rintro rfl
          rw [hcleared] at hk
          cases hk
        refine ⟨hkj, ?_⟩
        split_ifs with hki
        · rwa [hki, hmoved] at hk
        · rwa [hother k hki hkj] at hk
      intro k l q' hk hl hkq hlq
      obtain ⟨hkj, hk'⟩ := hslot k hk q' hkq
      obtain ⟨hlj, hl'⟩ := hslot l hl q' hlq
      have := distinct _ _ q' (by split_ifs <;> omega) (by split_ifs <;> omega) hk' hl'
      split_ifs at this <;> omega
  · rename_i hnone
    refine ⟨?_, distinct⟩
    intro k hk h0 j hkj hj
    rcases (Nat.lt_succ_iff.mp hk).eq_or_lt with rfl | hki
    · exact nextStored_eq_none hnone hkj hj
    · exact front k hki h0 j hkj hj

/-- One round puts one more slot in order. -/
theorem pingSlot_keeps (m : Moment) (highest : ℤ) {i : ℕ} (hi : i < maxPeerNetworkPaths)
    (front : t.FrontUpTo i) (distinct : t.Distinct) :
    FrontUpTo (pingSlot m highest t i) (i + 1) ∧ Distinct (pingSlot m highest t i) := by
  unfold pingSlot
  split
  · rename_i q hq
    split_ifs
    · refine ⟨?_, distinct⟩
      intro k hk h0
      rcases (Nat.lt_succ_iff.mp hk).eq_or_lt with rfl | hki
      · rw [hq] at h0
        cases h0
      · exact front k hki h0
    · obtain ⟨front', distinct'⟩ := clear_keeps front distinct
      refine closeGap_keeps hi ?_ front' distinct'
      rw [Function.update_self]
  · rename_i h0
    exact closeGap_keeps hi h0 front distinct

/-- **Closing the gaps** puts the paths in front, in whatever order they stood, and none comes in
twice. -/
theorem doPingAndKeepalive_pathsOk (m : Moment) (distinct : t.Distinct) :
    (t.doPingAndKeepalive m).PathsOk := by
  have rounds : ∀ n ≤ maxPeerNetworkPaths,
      FrontUpTo ((List.range n).foldl (pingSlot m t.maxPriority) t) n ∧
        Distinct ((List.range n).foldl (pingSlot m t.maxPriority) t) := by
    intro n hn
    induction n with
    | zero => exact ⟨fun i hi => absurd hi (Nat.not_lt_zero i), distinct⟩
    | succ n ih =>
        obtain ⟨front, distinct⟩ := ih (by omega)
        rw [List.range_succ, List.foldl_append]
        exact pingSlot_keeps m _ (by omega) front distinct
  obtain ⟨front, distinct⟩ := rounds maxPeerNetworkPaths le_rfl
  exact ⟨front, distinct⟩

/-! #### clusterRedirect -/

variable (t) in
/-- The slots that a redirect keeps, of the first `n`. -/
def keptSlots (priority : ℤ) (remoteAddress : InetAddress) (n : ℕ) : List ℕ :=
  (List.range n).filter fun i => decide (Kept priority remoteAddress (t i))

theorem mem_keptSlots {priority : ℤ} {remoteAddress : InetAddress} {n i : ℕ} :
    i ∈ t.keptSlots priority remoteAddress n ↔ i < n ∧ Kept priority remoteAddress (t i) := by
  unfold keptSlots
  rw [List.mem_filter, List.mem_range, decide_eq_true_iff]

theorem keptSlots_length_le (priority : ℤ) (remoteAddress : InetAddress) (n : ℕ) :
    (t.keptSlots priority remoteAddress n).length ≤ n :=
  (List.length_filter_le _ _).trans_eq List.length_range

theorem keptSlots_nodup (priority : ℤ) (remoteAddress : InetAddress) (n : ℕ) :
    (t.keptSlots priority remoteAddress n).Nodup :=
  List.nodup_range.filter _

/-- All slots are kept exactly if each one is. -/
theorem keptSlots_length_eq_iff (priority : ℤ) (remoteAddress : InetAddress) (n : ℕ) :
    (t.keptSlots priority remoteAddress n).length = n ↔
      ∀ i < n, Kept priority remoteAddress (t i) := by
  have h := List.length_filter_eq_length_iff (l := List.range n)
    (p := fun i => decide (Kept priority remoteAddress (t i)))
  rw [List.length_range] at h
  refine h.trans ?_
  simp only [List.mem_range, decide_eq_true_eq]

theorem keptSlots_succ (priority : ℤ) (remoteAddress : InetAddress) (n : ℕ) :
    t.keptSlots priority remoteAddress (n + 1) =
      t.keptSlots priority remoteAddress n ++
        if Kept priority remoteAddress (t n) then [n] else [] := by
  unfold keptSlots
  rw [List.range_succ, List.filter_append, List.filter_singleton]
  by_cases hk : Kept priority remoteAddress (t n) <;> simp [hk]

/-- The loop after `n` rounds: the kept slots stand in front in order, the slots from `n` on are as
they were. -/
theorem keepSlots_rounds (priority : ℤ) (remoteAddress : InetAddress) (n : ℕ) :
    ((List.range n).foldl (keepSlot priority remoteAddress) (t, 0)).2 =
        (t.keptSlots priority remoteAddress n).length ∧
      (∀ k i, (t.keptSlots priority remoteAddress n)[k]? = some i →
        ((List.range n).foldl (keepSlot priority remoteAddress) (t, 0)).1 k = t i) ∧
      ∀ k, n ≤ k → ((List.range n).foldl (keepSlot priority remoteAddress) (t, 0)).1 k = t k := by
  induction n with
  | zero => exact ⟨rfl, fun k i h => absurd h (by simp [keptSlots]), fun _ _ => rfl⟩
  | succ n ih =>
      obtain ⟨hlen, hfront, hrest⟩ := ih
      have hle := t.keptSlots_length_le priority remoteAddress n
      rw [List.range_succ, List.foldl_append, List.foldl_cons, List.foldl_nil, keptSlots_succ]
      generalize (List.range n).foldl (keepSlot priority remoteAddress) (t, 0) = s at *
      by_cases hk : Kept priority remoteAddress (t n)
      · rw [if_pos hk, keepSlot, hrest n le_rfl, if_pos hk]
        refine ⟨?_, ?_, ?_⟩
        · rw [List.length_append, List.length_singleton]
          exact congrArg (· + 1) hlen
        · intro k i hki
          rw [List.getElem?_append] at hki
          -- the slot is one of those kept before, or the one that this round adds
          split_ifs at hki with hkl
          · rw [← hfront k i hki]
            show (if n ≠ s.2 then Function.update s.1 s.2 (t n) else s.1) k = s.1 k
            split_ifs
            · rw [Function.update_of_ne (by omega)]
            · rfl
          · rw [List.getElem?_singleton] at hki
            split_ifs at hki with hk0
            obtain rfl := Option.some.inj hki
            have hks : k = s.2 := by omega
            subst hks
            show (if n ≠ s.2 then Function.update s.1 s.2 (t n) else s.1) s.2 = t n
            split_ifs with hns
            · rw [Function.update_self]
            · rw [← not_not.mp hns]
              exact hrest n le_rfl
        · intro k hk
          show (if n ≠ s.2 then Function.update s.1 s.2 (t n) else s.1) k = t k
          split_ifs
          · rw [Function.update_of_ne (by omega)]
            exact hrest k (by omega)
          · exact hrest k (by omega)
      · rw [if_neg hk, keepSlot, hrest n le_rfl, if_neg hk, List.append_nil]
        exact ⟨hlen, hfront, fun k hk => hrest k (by omega)⟩

/-- The kept slots stand in front in order. -/
theorem keepSlots_spec (priority : ℤ) (remoteAddress : InetAddress) :
    (t.keepSlots priority remoteAddress).2 =
        (t.keptSlots priority remoteAddress maxPeerNetworkPaths).length ∧
      ∀ k i, (t.keptSlots priority remoteAddress maxPeerNetworkPaths)[k]? = some i →
        (t.keepSlots priority remoteAddress).1 k = t i := by
  obtain ⟨hlen, hfront, -⟩ := t.keepSlots_rounds priority remoteAddress maxPeerNetworkPaths
  unfold keepSlots
  exact ⟨hlen, hfront⟩

section

variable {m : Moment} {np : Path} {priority : ℤ} {s : PathTable × ℕ}

theorem storeBehind_of_lt {k : ℕ} (hk : k < s.2) : storeBehind m np priority s k = s.1 k := by
  unfold storeBehind
  split_ifs
  · exact if_pos hk
  · rfl

theorem storeBehind_at (hs : s.2 < maxPeerNetworkPaths) :
    storeBehind m np priority s s.2 = ⟨m.now, some np, priority⟩ := by
  unfold storeBehind
  rw [if_pos hs]
  show (if s.2 < s.2 then _ else _) = _
  rw [if_neg (Nat.lt_irrefl _), if_pos rfl]

theorem storeBehind_of_gt {k : ℕ} (hs : s.2 < maxPeerNetworkPaths) (hk : s.2 < k) :
    storeBehind m np priority s k = {} := by
  unfold storeBehind
  rw [if_pos hs]
  show (if k < s.2 then _ else _) = _
  rw [if_neg (Nat.lt_asymm hk), if_neg (Nat.ne_of_gt hk)]

/-- Behind different paths a path can be stored exactly if it is none of them, or there is no room.
-/
theorem storeBehind_pathsOk_iff (hs : s.2 ≤ maxPeerNetworkPaths)
    (hsome : ∀ k < s.2, (s.1 k).p ≠ none)
    (hinj : ∀ k l q, k < s.2 → l < s.2 → (s.1 k).p = some q → (s.1 l).p = some q → k = l) :
    (storeBehind m np priority s).PathsOk ↔
      s.2 = maxPeerNetworkPaths ∨ ∀ k < s.2, (s.1 k).p ≠ some np := by
  rcases hs.eq_or_lt with hfull | hlt
  · refine iff_of_true ⟨?_, ?_⟩ (Or.inl hfull)
    · intro i hi h0
      rw [storeBehind_of_lt (by omega)] at h0
      exact absurd h0 (hsome i (by omega))
    · intro i j q hi hj hq hq'
      rw [storeBehind_of_lt (by omega)] at hq hq'
      exact hinj i j q (by omega) (by omega) hq hq'
  · rw [or_iff_right (Nat.ne_of_lt hlt)]
    constructor
    · -- stored behind itself it would be there twice
      intro h k hk hp
      refine Nat.ne_of_lt hk (h.distinct k s.2 np (by omega) hlt ?_ ?_)
      · rwa [storeBehind_of_lt hk]
      · rw [storeBehind_at hlt]
    · intro hnew
      constructor
      · intro i hi h0 j hij hj
        rcases lt_trichotomy i s.2 with his | rfl | his
        · rw [storeBehind_of_lt his] at h0
          exact absurd h0 (hsome i his)
        · rw [storeBehind_at hlt] at h0
          cases h0
        · rw [storeBehind_of_gt hlt (his.trans hij)]
      · -- the slots in front hold what was kept, the one behind them the new path
        have hcases : ∀ i q, (storeBehind m np priority s i).p = some q →
            i < s.2 ∧ (s.1 i).p = some q ∨ i = s.2 ∧ np = q := by
          intro i q hq
          rcases lt_trichotomy i s.2 with his | rfl | his
          · rw [storeBehind_of_lt his] at hq
            exact Or.inl ⟨his, hq⟩
          · rw [storeBehind_at hlt] at hq
            exact Or.inr ⟨rfl, Option.some.inj hq⟩
          · rw [storeBehind_of_gt hlt his] at hq
            cases hq
        intro i j q hi hj hq hq'
        rcases hcases i q hq with ⟨his, hiq⟩ | ⟨his, rfl⟩ <;>
          rcases hcases j _ hq' with ⟨hjs, hjq⟩ | ⟨hjs, hjq⟩
        · exact hinj i j q his hjs hiq hjq
        · subst hjq
          exact absurd hiq (hnew i his)
        · exact absurd hjq (hnew j hjs)
        · exact his.trans hjs.symm

end

variable (t) in
/-- A redirect stores nothing, since every slot is kept, or no slot it keeps holds the path it
stores. -/
def Redirectable (originatingPath np : Path) (remoteAddress : InetAddress) : Prop :=
  (∀ i < maxPeerNetworkPaths, Kept (t.newPriority originatingPath) remoteAddress (t i)) ∨
    ∀ i < maxPeerNetworkPaths, Kept (t.newPriority originatingPath) remoteAddress (t i) →
      (t i).p ≠ some np

/-- **A redirect keeps the table well formed exactly if** it stores no path that it keeps. -/
theorem clusterRedirect_pathsOk_iff (ok : t.PathsOk) (m : Moment) (originatingPath np : Path)
    (remoteAddress : InetAddress) :
    (t.clusterRedirect m originatingPath np remoteAddress).PathsOk ↔
      t.Redirectable originatingPath np remoteAddress := by
  unfold clusterRedirect Redirectable
  generalize t.newPriority originatingPath = priority
  obtain ⟨hlen, hfront⟩ := t.keepSlots_spec priority remoteAddress
  have hall := t.keptSlots_length_eq_iff priority remoteAddress maxPeerNetworkPaths
  have hle := t.keptSlots_length_le priority remoteAddress maxPeerNetworkPaths
  have hnodup := t.keptSlots_nodup priority remoteAddress maxPeerNetworkPaths
  have hmem : ∀ {i}, i ∈ t.keptSlots priority remoteAddress maxPeerNetworkPaths ↔ _ :=
    mem_keptSlots
  generalize t.keepSlots priority remoteAddress = s at *
  generalize t.keptSlots priority remoteAddress maxPeerNetworkPaths = kept at *
  -- what stands in one of the first `s.2` slots
  have hslot : ∀ k < s.2, ∃ i, kept[k]? = some i ∧ s.1 k = t i ∧ i < maxPeerNetworkPaths ∧
      Kept priority remoteAddress (t i) := by
    intro k hk
    have hk' : k < kept.length := by omega
    have hki := List.getElem?_eq_getElem hk'
    exact ⟨kept[k], hki, hfront k _ hki, hmem.mp (List.getElem_mem hk')⟩
  rw [storeBehind_pathsOk_iff (by omega)]
  · rw [hlen, hall]
    refine or_congr_right ⟨?_, ?_⟩
    · intro h i hi hk
      obtain ⟨k, hk', hki⟩ := List.getElem_of_mem (hmem.mpr ⟨hi, hk⟩)
      rw [← hfront k i (by rw [List.getElem?_eq_getElem hk', hki])]
      exact h k hk'
    · intro h k hk
      obtain ⟨i, -, hti, hi, hkept⟩ := hslot k (by omega)
      rw [hti]
      exact h i hi hkept
  · intro k hk
    obtain ⟨i, -, hti, -, q, hq, -⟩ := hslot k hk
    rw [hti, hq]
    exact Option.some_ne_none q
  · intro k l q hk hl hkq hlq
    obtain ⟨i, hki, hti, hi, -⟩ := hslot k hk
    obtain ⟨j, hlj, htj, hj, -⟩ := hslot l hl
    rw [hti] at hkq
    rw [htj] at hlq
    have hij := ok.distinct i j q hi hj hkq hlq
    subst hij
    exact (List.getElem?_inj (by omega) hnodup).mp (hki.trans hlj.symm)

/-! #### resetWithinScope -/

/-- Paths are only marked. -/
@[simp] theorem resetWithinScope_p (inScope : InetAddress → Bool) (n i : ℕ) (t : PathTable)
    (k : ℕ) :
    ((resetWithinScope inScope n i t) k).p = (t k).p := by
  induction n generalizing i t with
  | zero => rfl
  | succ n ih =>
      unfold resetWithinScope
      rcases (t i).p with - | q
      · rfl
      · refine (ih (i + 1) _).trans ?_
        split_ifs
        · rcases eq_or_ne k i with rfl | hki
          · rw [Function.update_self]
          · rw [Function.update_of_ne hki]
        · rfl

/-! ### What the readers see -/

variable (t) in
/-- The paths of all slots. -/
def stored : List Path :=
  (List.range maxPeerNetworkPaths).filterMap fun i => (t i).p

theorem mem_stored {q : Path} :
    q ∈ t.stored ↔ ∃ i, i < maxPeerNetworkPaths ∧ (t i).p = some q := by
  unfold stored
  rw [List.mem_filterMap]
  simp only [List.mem_range]

/-- A loop that stops at the first entry without a path sees every entry with one, if those are in
front. -/
theorem takeWhile_of_front (l : List PeerPath)
    (front : l.Pairwise fun e e' => e.p = none → e'.p = none) :
    l.takeWhile (fun e => e.p.isSome) = l.filter fun e => e.p.isSome := by
  induction l with
  | nil => rfl
  | cons e l ih =>
      rw [List.pairwise_cons] at front
      by_cases he : e.p.isSome = true
      · rw [List.takeWhile_cons, List.filter_cons, if_pos he, if_pos he, ih front.2]
      · rw [List.takeWhile_cons, List.filter_cons, if_neg he, if_neg he]
        symm
        rw [List.filter_eq_nil_iff]
        intro e' he' h
        rw [front.1 e' he' (Option.not_isSome_iff_eq_none.mp he)] at h
        cases h

theorem PathsOk.untilNull_eq (ok : t.PathsOk) :
    t.untilNull = ((List.range maxPeerNetworkPaths).map t).filter fun e => e.p.isSome := by
  refine takeWhile_of_front _ ?_
  rw [List.pairwise_map]
  refine List.pairwise_lt_range.imp_of_mem ?_
  intro i j hi hj hij h0
  exact ok.front i (List.mem_range.mp hi) h0 j hij (List.mem_range.mp hj)

theorem PathsOk.mem_untilNull (ok : t.PathsOk) {e : PeerPath} :
    e ∈ t.untilNull ↔ ∃ i, i < maxPeerNetworkPaths ∧ t i = e ∧ ∃ q, e.p = some q := by
  rw [ok.untilNull_eq, List.mem_filter, List.mem_map, Option.isSome_iff_exists]
  simp only [List.mem_range]
  constructor
  · rintro ⟨⟨i, hi, hti⟩, hq⟩
    exact ⟨i, hi, hti, hq⟩
  · rintro ⟨i, hi, hti, hq⟩
    exact ⟨⟨i, hi, hti⟩, hq⟩

theorem PathsOk.paths_eq (ok : t.PathsOk) : t.paths = t.stored := by
  unfold paths stored
  rw [ok.untilNull_eq, List.filterMap_filter, List.filterMap_map]
  refine List.filterMap_congr fun i _ => ?_
  show (if (t i).p.isSome = true then (t i).p else none) = (t i).p
  split_ifs with h
  · rfl
  · exact (Option.not_isSome_iff_eq_none.mp h).symm

theorem untilNull_length : t.untilNull.length = t.paths.length := by
  unfold paths
  have hsome : ∀ e ∈ t.untilNull, e.p.isSome = true := fun e he =>
    List.all_eq_true.mp List.all_takeWhile e he
  generalize t.untilNull = l at hsome
  induction l with
  | nil => rfl
  | cons e l ih =>
      obtain ⟨q, hq⟩ := Option.isSome_iff_exists.mp (hsome e List.mem_cons_self)
      rw [List.filterMap_cons_some hq, List.length_cons, List.length_cons,
        ih fun e' he' => hsome e' (List.mem_cons_of_mem _ he')]

/-- A path that `getAppropriatePath` may choose. -/
def Eligible (m : Moment) (includeExpired : Bool) (e : PeerPath) : Prop :=
  includeExpired = true ∨ m.now - e.lr < peerPathExpiration

/-- The choice over a list of entries: nothing eligible was in reach, or a best one. -/
theorem better_spec (m : Moment) (quality : PeerPath → ℤ) (includeExpired : Bool)
    (l : List PeerPath) :
    (l.foldl (better m quality includeExpired) (2147483647, none) = (2147483647, none) ∧
        (∀ e ∈ l, Eligible m includeExpired e → 2147483647 < quality e)) ∨
      ∃ e ∈ l, Eligible m includeExpired e ∧
        l.foldl (better m quality includeExpired) (2147483647, none) = (quality e, e.p) ∧
        quality e ≤ 2147483647 ∧ ∀ e' ∈ l, Eligible m includeExpired e' →
          quality e ≤ quality e' := by
  -- on the paths, the last one compared with the best of the others
  induction l using List.reverseRecOn with
  | nil => exact Or.inl ⟨rfl, fun e he => absurd he List.not_mem_nil⟩
  | append_singleton l e ih =>
      rw [List.foldl_append, List.foldl_cons, List.foldl_nil]
      rcases ih with ⟨heq, hnone⟩ | ⟨b, hb, hbe, heq, hmax, hbest⟩
      · rw [heq, better]
        split_ifs with h
        · refine Or.inr ⟨e, by simp, h.1, rfl, h.2, ?_⟩
          intro e' he' hel
          rcases List.mem_append.mp he' with he' | he'
          · exact h.2.trans (hnone e' he' hel).le
          · rw [List.mem_singleton.mp he']
        · refine Or.inl ⟨rfl, ?_⟩
          intro e' he' hel
          rcases List.mem_append.mp he' with he' | he'
          · exact hnone e' he' hel
          · obtain rfl := List.mem_singleton.mp he'
            exact lt_of_not_ge fun hle => h ⟨hel, hle⟩
      · rw [heq, better]
        split_ifs with h
        · refine Or.inr ⟨e, by simp, h.1, rfl, h.2.trans hmax, ?_⟩
          intro e' he' hel
          rcases List.mem_append.mp he' with he' | he'
          · exact h.2.trans (hbest e' he' hel)
          · rw [List.mem_singleton.mp he']
        · refine Or.inr ⟨b, List.mem_append_left _ hb, hbe, rfl, hmax, ?_⟩
          intro e' he' hel
          rcases List.mem_append.mp he' with he' | he'
          · exact hbest e' he' hel
          · obtain rfl := List.mem_singleton.mp he'
            exact (lt_of_not_ge fun hle => h ⟨hel, hle⟩).le

variable (t) in
/-- The readers, which stop at the first slot without a path, consider every stored path. -/
structure AllConsidered : Prop where
  paths : t.paths = t.stored
  hasAlivePath : ∀ m : Moment, t.hasAlivePath m = true ↔ ∃ q ∈ t.stored, m.alive q = true
  serialized : t.serializedPaths = (t.stored.length, t.stored.map Path.address)
  /-- no path is chosen only if each one is expired or out of range -/
  noPath : ∀ (m : Moment) (quality : PeerPath → ℤ) (includeExpired : Bool),
    t.getAppropriatePath m quality includeExpired = none →
      ∀ i < maxPeerNetworkPaths, (t i).p ≠ none → Eligible m includeExpired (t i) →
        2147483647 < quality (t i)
  /-- the path that is chosen is the best of all -/
  bestPath : ∀ (m : Moment) (quality : PeerPath → ℤ) (includeExpired : Bool) (q : Path),
    t.getAppropriatePath m quality includeExpired = some q →
      ∃ i < maxPeerNetworkPaths, (t i).p = some q ∧ Eligible m includeExpired (t i) ∧
        ∀ j < maxPeerNetworkPaths, (t j).p ≠ none → Eligible m includeExpired (t j) →
          quality (t i) ≤ quality (t j)

/-- **Readers of a well-formed table** consider every stored path. -/
theorem PathsOk.allConsidered (ok : t.PathsOk) : t.AllConsidered := by
  have hmem : ∀ i < maxPeerNetworkPaths, (t i).p ≠ none → t i ∈ t.untilNull := fun i hi hp =>
    ok.mem_untilNull.mpr ⟨i, hi, rfl, Option.ne_none_iff_exists'.mp hp⟩
  refine ⟨ok.paths_eq, ?_, ?_, ?_, ?_⟩
  · intro m
    unfold hasAlivePath
    rw [List.any_eq_true]
    constructor
    · rintro ⟨e, he, halive⟩
      obtain ⟨i, hi, rfl, q, hq⟩ := ok.mem_untilNull.mp he
      rw [hq] at halive
      exact ⟨q, mem_stored.mpr ⟨i, hi, hq⟩, halive⟩
    · rintro ⟨q, hq, halive⟩
      obtain ⟨i, hi, hq⟩ := mem_stored.mp hq
      refine ⟨t i, hmem i hi (by rw [hq]; exact Option.some_ne_none q), ?_⟩
      rw [hq]
      exact halive
  · unfold serializedPaths
    rw [untilNull_length, ok.paths_eq, ← ok.paths_eq, paths, List.map_filterMap]
  · intro m quality includeExpired h i hi hp hel
    rcases better_spec m quality includeExpired t.untilNull with ⟨-, hnone⟩ | ⟨e, he, -, heq, -⟩
    · exact hnone _ (hmem i hi hp) hel
    · obtain ⟨j, -, rfl, q, hq⟩ := ok.mem_untilNull.mp he
      have h' :
          (t.untilNull.foldl (better m quality includeExpired) (2147483647, none)).2 = none := h
      rw [heq, hq] at h'
      cases h'
  · intro m quality includeExpired q h
    replace h :
        (t.untilNull.foldl (better m quality includeExpired) (2147483647, none)).2 = some q := h
    rcases better_spec m quality includeExpired t.untilNull with ⟨heq, -⟩ | ⟨e, he, hel, heq,
      -, hbest⟩
    · rw [heq] at h
      cases h
    · rw [heq] at h
      obtain ⟨i, hi, rfl, -⟩ := ok.mem_untilNull.mp he
      exact ⟨i, hi, h, hel, fun j hj hp => hbest _ (hmem j hj hp)⟩

end PathTable

/-! ### Runs -/

/-- `VERB_OK`. -/
def verbOk : UInt8 := 0x03

structure State where
  paths : PathTable
  /-- `Topology::_paths` -/
  topology : HashKey → Option Path
  /-- the serial of the next path made -/
  nextSerial : ℕ
  /-- the threads in `received` between its two sections: the path, and when the packet came -/
  receiving : ℕ → Option (Path × ℤ)

/-- `Topology::getPath`. -/
def State.getPath (s : State) (l : BitVec 64) (r : InetAddress) : Path × State :=
  match s.topology (hashKey l r) with
  | some q => (q, s)
  | none =>
      (⟨s.nextSerial, l, r⟩,
        { s with
          topology := Function.update s.topology (hashKey l r) (some ⟨s.nextSerial, l, r⟩)
          nextSerial := s.nextSerial + 1 })

/-- What may happen, each under the lock of the table. -/
inductive Event
  | received (thread : ℕ) (path : Path) (hops : ℕ) (verb : UInt8) (usable : Bool) (m : Moment)
  | receivedLearn (thread : ℕ) (lastIn : Path → ℤ)
  | doPingAndKeepalive (m : Moment)
  | clusterRedirect (m : Moment) (originatingPath : Path) (remoteAddress : InetAddress)
  | resetWithinScope (inScope : InetAddress → Bool)
  /-- a path asked for, or forgotten, by others -/
  | getPath (l : BitVec 64) (r : InetAddress)
  | forgetPath (key : HashKey)

/-- `received` up to the end of its first section; `usable` is what
`shouldUsePathForZeroTierTraffic` says. -/
def State.received (s : State) (thread : ℕ) (path : Path) (hops : ℕ) (verb : UInt8) (usable : Bool)
    (m : Moment) : State :=
  -- If this is a direct packet (no hops), update existing paths or learn new ones
  if hops = 0 then
    let r := s.paths.refresh m path maxPeerNetworkPaths 0
    { s with
      paths := r.2
      receiving := Function.update s.receiving thread
        (if r.1 = false ∧ usable = true ∧ verb = verbOk then some (path, m.now) else none) }
  else s

/-- The second section of `received`, with the time that it took at its start. -/
def State.receivedLearn (s : State) (thread : ℕ) (lastIn : Path → ℤ) : State :=
  match s.receiving thread with
  | some r =>
      { s with
        paths := s.paths.learn ⟨r.2, lastIn, false⟩ r.1
        receiving := Function.update s.receiving thread none }
  | none => s

def step (s : State) : Event → State
  | .received thread path hops verb usable m => s.received thread path hops verb usable m
  | .receivedLearn thread lastIn => s.receivedLearn thread lastIn
  | .doPingAndKeepalive m => { s with paths := s.paths.doPingAndKeepalive m }
  | .clusterRedirect m originatingPath remoteAddress =>
      let np := s.getPath originatingPath.localSocket remoteAddress
      { np.2 with paths := s.paths.clusterRedirect m originatingPath np.1 remoteAddress }
  | .resetWithinScope inScope =>
      { s with paths := PathTable.resetWithinScope inScope maxPeerNetworkPaths 0 s.paths }
  | .getPath l r => (s.getPath l r).2
  | .forgetPath key => { s with topology := Function.update s.topology key none }

/-- The peer with all that touches its table, without outputs. -/
def machine : Machine State Event Unit where
  step s e := (step s e, [])

/-- No path is known. -/
def start (topology : HashKey → Option Path) (nextSerial : ℕ) : State :=
  ⟨fun _ => {}, topology, nextSerial, fun _ => none⟩

/-- **The guard**: the second section of `received` finds its path still missing, and a redirect
keeps no slot with the path that the topology returns for its target, if it stores that path at
all. -/
def Fresh (s : State) : Event → Prop
  | .receivedLearn thread _ =>
      ∀ path now, s.receiving thread = some (path, now) →
        ∀ i < maxPeerNetworkPaths, (s.paths i).p ≠ some path
  | .clusterRedirect _ originatingPath remoteAddress =>
      s.paths.Redirectable originatingPath
        (s.getPath originatingPath.localSocket remoteAddress).1 remoteAddress
  | _ => True

/-- A packet received by one thread with nothing in between meets the guard. -/
theorem received_fresh {s : State} (ok : s.paths.PathsOk) (thread : ℕ) (path : Path) (verb : UInt8)
    (usable : Bool) (m : Moment) (lastIn : Path → ℤ) :
    Fresh (step s (.received thread path 0 verb usable m)) (.receivedLearn thread lastIn) := by
  intro path' now h i hi hp
  replace h : Function.update s.receiving thread _ thread = some (path', now) := h
  rw [Function.update_self] at h
  split_ifs at h with hnew
  obtain rfl : path = path' := congrArg Prod.fst (Option.some.inj h)
  replace hp : ((s.paths.refresh m path maxPeerNetworkPaths 0).2 i).p = some path := hp
  rw [PathTable.refresh_p] at hp
  have := PathTable.refresh_finds (m := m) ok.front (Nat.zero_le i) (by rwa [Nat.zero_add]) hi hp
  rw [hnew.1] at this
  cases this

/-- So does a redirect to an address for which the topology has a path to that very address. -/
theorem clusterRedirect_fresh {s : State} (m : Moment) {originatingPath : Path}
    {remoteAddress : InetAddress}
    (h : (s.getPath originatingPath.localSocket remoteAddress).1.address = remoteAddress) :
    Fresh s (.clusterRedirect m originatingPath remoteAddress) := by
  right
  rintro i - ⟨q, hq, -, hne⟩ hp
  rw [hq] at hp
  rw [Option.some.inj hp, h, ipsEqual2_self] at hne
  cases hne

/-- One step keeps the table well formed. -/
theorem pathsOk_step {s : State} {e : Event} (ok : s.paths.PathsOk) (fresh : Fresh s e) :
    (step s e).paths.PathsOk := by
  cases e with
  | received thread path hops verb usable m =>
      show (s.received thread path hops verb usable m).paths.PathsOk
      unfold State.received
      split_ifs
      · exact ok.congr fun i => PathTable.refresh_p m path maxPeerNetworkPaths 0 i
      · exact ok
  | receivedLearn thread lastIn =>
      show (s.receivedLearn thread lastIn).paths.PathsOk
      unfold State.receivedLearn
      split
      · rename_i r hr
        exact (PathTable.learn_pathsOk_iff ok _ r.1).mpr <| Or.inr fun i hi hp =>
          absurd hp (fresh r.1 r.2 hr i hi)
      · exact ok
  | doPingAndKeepalive m => exact PathTable.doPingAndKeepalive_pathsOk m ok.distinct
  | clusterRedirect m originatingPath remoteAddress =>
      simp only [step]
      rw [PathTable.clusterRedirect_pathsOk_iff ok]
      exact fresh
  | resetWithinScope inScope =>
      exact ok.congr (PathTable.resetWithinScope_p inScope maxPeerNetworkPaths 0 s.paths)
  | getPath l r =>
      show (s.getPath l r).2.paths.PathsOk
      unfold State.getPath
      split <;> exact ok
  | forgetPath key => exact ok

theorem pathsOk_start (topology : HashKey → Option Path) (nextSerial : ℕ) :
    (start topology nextSerial).paths.PathsOk :=
  ⟨fun _ _ _ _ _ _ => rfl, fun _ _ _ _ _ h => absurd h (Option.some_ne_none _).symm⟩

/-- **The path table over runs**: in every run whose steps meet the guard, with any topology to
begin with, the paths stand in front, no path twice, and the readers consider every one. -/
theorem pathsOk_run (topology : HashKey → Option Path) (nextSerial : ℕ) (es : List Event)
    (fresh : machine.Guarded Fresh (start topology nextSerial) es) :
    (machine.runState (start topology nextSerial) es).paths.PathsOk ∧
      (machine.runState (start topology nextSerial) es).paths.AllConsidered := by
  have ok := Machine.invariant_run (M := machine) (C := Fresh)
    (I := fun _ s => s.paths.PathsOk) (h := [])
    (fun _ s e ok fresh => pathsOk_step ok fresh) (pathsOk_start topology nextSerial) fresh
  exact ⟨ok, ok.allConsidered⟩

/-! #### Runs that store a path, and store it twice -/

/-- A moment at which every path is alive. -/
def quietMoment : Moment := ⟨1000, fun _ => 1000, false⟩

/-- The path on which packets come. -/
def directPath : Path := ⟨0, 1, .v4 0x0a000001 9993⟩

/-- One packet makes the peer learn a path, then the peer is redirected. -/
def redirectedRun : List Event :=
  [.received 0 directPath 0 verbOk true quietMoment, .receivedLearn 0 fun _ => 1000,
    .clusterRedirect quietMoment directPath (.v4 0x0a000002 9993), .doPingAndKeepalive quietMoment]

theorem redirectedRun_pathsOk :
    machine.Guarded Fresh (start (fun _ => none) 1) redirectedRun ∧
      (machine.runState (start (fun _ => none) 1) redirectedRun).paths.PathsOk ∧
        (machine.runState (start (fun _ => none) 1) redirectedRun).paths.AllConsidered := by
  have fresh : machine.Guarded Fresh (start (fun _ => none) 1) redirectedRun := by
    refine ⟨trivial, received_fresh (pathsOk_start _ 1) 0 directPath verbOk true quietMoment _, ?_,
      trivial, trivial⟩
    exact clusterRedirect_fresh quietMoment rfl
  exact ⟨fresh, pathsOk_run (fun _ => none) 1 redirectedRun fresh⟩

/-- Two threads receive a packet on the same new path: both pass the first section before one
stores the path. -/
def racingRun : List Event :=
  [.received 0 directPath 0 verbOk true quietMoment,
    .received 1 directPath 0 verbOk true quietMoment,
    .receivedLearn 0 fun _ => 1000, .receivedLearn 1 fun _ => 1000]

/-- One message redirects to 32.1.3.4:9993 and to 2001:304:0:0:2709:: without a port, which have one
`HashKey`. -/
def collidingRun : List Event :=
  [.clusterRedirect quietMoment directPath (.v4 0x20010304 9993),
    .clusterRedirect quietMoment directPath (.v6 0x20010304000000002709000000000000 0)]

example :
    hashKey 1 (.v4 0x20010304 9993) = hashKey 1 (.v6 0x20010304000000002709000000000000 0) := by
  decide

theorem paths_storedTwice :
    ¬(machine.runState (start (fun _ => none) 1) racingRun).paths.PathsOk ∧
      ¬(machine.runState (start (fun _ => none) 1) collidingRun).paths.PathsOk := by
  constructor
  · intro ok
    have h := ok.distinct 0 1 directPath (by decide) (by decide)
    exact absurd (h (by decide +kernel) (by decide +kernel)) (by decide)
  · intro ok
    have h := ok.distinct 0 1 ⟨1, 1, .v4 0x20010304 9993⟩ (by decide) (by decide)
    exact absurd (h (by decide +kernel) (by decide +kernel)) (by decide)

end PeerPaths

end ZGalaxy
