/-
ZGalaxy/PathTable.lean

The table of networks as a sorted map, and what reading local settings makes of it.

Networks are compared by family, port and address, the numbers as a little-endian host has them in
network order; each has a rank of its own (`InetAddress.rank`).  `setPhysicalPathConfiguration`
writes the table anew each time and keeps what there is room for.  All in all a reading writes what
it has gathered into the table and cuts off the rest once (`entries_readLocalSettings`).

Main result: `same_table_iff`, when a table that had networks before holds after a reading what
another reading would have put into an empty one.
-/
import ZGalaxy.PhysicalPaths
import ZGalaxy.SortedPrefix

namespace ZGalaxy

open ByteList

/-! ### The order of networks -/

namespace InetAddress

theorem hostOrder_lt (n v : ℕ) : hostOrder n v < 256 ^ n := by
  have h := beNat_lt (beBytes n v).reverse
  rwa [List.length_reverse, length_beBytes] at h

theorem hostOrder_inj {n v w : ℕ} (hv : v < 256 ^ n) (hw : w < 256 ^ n)
    (h : hostOrder n v = hostOrder n w) : v = w := by
  have hlength : (beBytes n v).reverse.length = (beBytes n w).reverse.length := by
    rw [List.length_reverse, List.length_reverse, length_beBytes, length_beBytes]
  have hbytes := congrArg beNat (List.reverse_injective (eq_of_beNat_eq hlength h))
  rwa [beNat_beBytes, beNat_beBytes, Nat.mod_eq_of_lt hv, Nat.mod_eq_of_lt hw] at hbytes

/-- The port of a network as it is compared. -/
def portRank (port : UInt16) : ℕ := hostOrder 2 port.toNat

theorem portRank_lt (port : UInt16) : portRank port < 65536 := hostOrder_lt 2 port.toNat

theorem portRank_inj {port port' : UInt16} (h : portRank port = portRank port') : port = port' :=
  UInt16.toNat_inj.mp (hostOrder_inj port.toNat_lt port'.toNat_lt h)

theorem ipRank_inj {ip ip' : BitVec 32} (h : hostOrder 4 ip.toNat = hostOrder 4 ip'.toNat) :
    ip = ip' := BitVec.eq_of_toNat_eq (hostOrder_inj ip.isLt ip'.isLt h)

/-- The place of an address in the order. -/
def rank : InetAddress → ℕ
  -- none first, then IPv4 and IPv6, and of a family by port before address
  | nil => 0
  | v4 ip port => 1 + (portRank port * 4294967296 + hostOrder 4 ip.toNat)
  | v6 ip port =>
      281474976710657 + (portRank port * 340282366920938463463374607431768211456 + ip.toNat)

theorem rank_injective : Function.Injective rank := by
  intro a b h
  cases a with
  | nil =>
      cases b with
      | nil => rfl
      | v4 ip port => exact absurd h (by simp only [rank]; omega)
      | v6 ip port => exact absurd h (by simp only [rank]; omega)
  | v4 ip port =>
      have hport := portRank_lt port
      have hip := hostOrder_lt 4 ip.toNat
      cases b with
      | nil => exact absurd h (by simp only [rank]; omega)
      | v4 ip' port' =>
          have hip' := hostOrder_lt 4 ip'.toNat
          simp only [rank] at h
          rw [portRank_inj (show portRank port = portRank port' by omega),
            ipRank_inj (show hostOrder 4 ip.toNat = hostOrder 4 ip'.toNat by omega)]
      | v6 ip' port' => exact absurd h (by simp only [rank]; omega)
  | v6 ip port =>
      have hip := ip.isLt
      cases b with
      | nil => exact absurd h (by simp only [rank]; omega)
      | v4 ip' port' =>
          have hport' := portRank_lt port'
          have hip' := hostOrder_lt 4 ip'.toNat
          exact absurd h (by simp only [rank]; omega)
      | v6 ip' port' =>
          have hip' := ip'.isLt
          simp only [rank] at h
          rw [portRank_inj (show portRank port = portRank port' by omega),
            BitVec.eq_of_toNat_eq (show ip.toNat = ip'.toNat by omega)]

theorem lt_iff_rank (a b : InetAddress) : lt a b = true ↔ rank a < rank b := by
  cases a with
  | nil =>
      cases b with
      | nil => exact ⟨fun h => (Bool.false_ne_true h).elim, fun h => absurd h (lt_irrefl _)⟩
      | v4 ip port => exact iff_of_true rfl (by simp only [rank]; omega)
      | v6 ip port => exact iff_of_true rfl (by simp only [rank]; omega)
  | v4 ip port =>
      have hport := portRank_lt port
      have hip := hostOrder_lt 4 ip.toNat
      cases b with
      | nil => exact iff_of_false Bool.false_ne_true (by simp only [rank]; omega)
      | v4 ip' port' =>
          have hip' := hostOrder_lt 4 ip'.toNat
          have heq : (port == port') = true ↔ portRank port = portRank port' :=
            beq_iff_eq.trans ⟨congrArg _, portRank_inj⟩
          simp only [lt, rank]
          rw [Bool.or_eq_true, Bool.and_eq_true, heq, decide_eq_true_iff, decide_eq_true_iff]
          change portRank port < portRank port' ∨ _ ↔ _
          omega
      | v6 ip' port' => exact iff_of_true rfl (by simp only [rank]; omega)
  | v6 ip port =>
      have hip := ip.isLt
      cases b with
      | nil => exact iff_of_false Bool.false_ne_true (by simp only [rank]; omega)
      | v4 ip' port' =>
          have hport' := portRank_lt port'
          have hip' := hostOrder_lt 4 ip'.toNat
          exact iff_of_false Bool.false_ne_true (by simp only [rank]; omega)
      | v6 ip' port' =>
          have hip' := ip'.isLt
          have heq : (port == port') = true ↔ portRank port = portRank port' :=
            beq_iff_eq.trans ⟨congrArg _, portRank_inj⟩
          simp only [lt, rank]
          rw [Bool.or_eq_true, Bool.and_eq_true, heq, decide_eq_true_iff, decide_eq_true_iff]
          change portRank port < portRank port' ∨ _ ↔ _
          omega

/-- **Networks are ordered.** -/
theorem strictTotal_lt : SortedMap.StrictTotal lt :=
  SortedMap.StrictTotal.of_rank rank rank_injective lt_iff_rank

end InetAddress

/-! ### What is gathered -/

variable {pton : InetPton} {net : InetAddress}
  {ppc : List (InetAddress × PhysicalPathConfiguration)}

namespace LocalSettings

variable {conf conf' : LocalSettings}

/-- A line of `trustedpaths` that is taken. -/
def TakesLine (pton : InetPton) (words : List String) : Prop :=
  (trustedPath pton words).1 ≠ 0 ∧ (trustedPath pton words).2.isSet ∧
    0 < (trustedPath pton words).2.port

/-- A member of `physical` that is taken. -/
def TakesMember (pton : InetPton) (phy : String × Json) : Prop :=
  (InetAddress.ofText pton phy.1).isSet ∧ phy.2.isObject

/-- Local settings have something to say of a network. -/
def Configures (pton : InetPton) (conf : LocalSettings) (net : InetAddress) : Prop :=
  (∃ line ∈ conf.trustedPaths, TakesLine pton line ∧ (trustedPath pton line).2 = net) ∨
    ∃ phy ∈ conf.physical.members, TakesMember pton phy ∧ InetAddress.ofText pton phy.1 = net

theorem mem_keys_readTrustedPath (words : List String) :
    net ∈ (readTrustedPath pton ppc words).map Prod.fst ↔
      (TakesLine pton words ∧ (trustedPath pton words).2 = net) ∨ net ∈ ppc.map Prod.fst := by
  unfold readTrustedPath
  dsimp only
  split_ifs with htakes
  · rw [writeAt, SortedMap.mem_keys_modify, eq_comm]
    exact or_congr_left (iff_and_self.mpr fun _ => htakes)
  · exact (or_iff_right fun h => htakes h.1).symm

theorem mem_keys_readPhysical (phy : String × Json) :
    net ∈ (readPhysical pton ppc phy).map Prod.fst ↔
      (TakesMember pton phy ∧ InetAddress.ofText pton phy.1 = net) ∨
        net ∈ ppc.map Prod.fst := by
  unfold readPhysical
  dsimp only
  split_ifs with htakes hid
  · rw [writeAt, writeAt, SortedMap.mem_keys_modify, SortedMap.mem_keys_modify, or_self_left,
      eq_comm]
    exact or_congr_left (iff_and_self.mpr fun _ => htakes)
  · rw [writeAt, SortedMap.mem_keys_modify, eq_comm]
    exact or_congr_left (iff_and_self.mpr fun _ => htakes)
  · exact (or_iff_right fun h => htakes h.1).symm

/-- The keys that a loop gathers, when each turn adds those of its element. -/
theorem mem_keys_foldl {ε : Type*} {read : List (InetAddress × PhysicalPathConfiguration) → ε →
      List (InetAddress × PhysicalPathConfiguration)} {P : ε → Prop}
    (hread : ∀ ppc x, net ∈ (read ppc x).map Prod.fst ↔ P x ∨ net ∈ ppc.map Prod.fst)
    (l : List ε) :
    net ∈ (l.foldl read ppc).map Prod.fst ↔ (∃ x ∈ l, P x) ∨ net ∈ ppc.map Prod.fst := by
  induction l generalizing ppc with
  | nil => exact (or_iff_right fun h => h.elim fun x hx => List.not_mem_nil hx.1).symm
  | cons x l ih =>
      rw [List.foldl_cons, ih, hread, List.exists_mem_cons_iff]
      exact or_left_comm.trans or_assoc.symm

/-- **The networks that are gathered** are those that the settings configure. -/
theorem mem_keys_paths : net ∈ (conf.paths pton).map Prod.fst ↔ Configures pton conf net := by
  unfold paths
  rw [mem_keys_foldl fun _ x => mem_keys_readPhysical x,
    mem_keys_foldl fun _ x => mem_keys_readTrustedPath x, List.map_nil,
    or_iff_left List.not_mem_nil]
  exact or_comm

/-- They are gathered in order. -/
theorem sorted_paths (pton : InetPton) (conf : LocalSettings) :
    SortedMap.Sorted InetAddress.lt (conf.paths pton) := by
  have hwrite : ∀ {ppc : List (InetAddress × PhysicalPathConfiguration)} net f,
      SortedMap.Sorted InetAddress.lt ppc →
      SortedMap.Sorted InetAddress.lt (writeAt net f ppc) := fun net f h =>
    h.modify InetAddress.strictTotal_lt _ net f
  refine List.foldlRecOn _ _ (List.foldlRecOn _ _ List.Pairwise.nil ?_) ?_
  · intro ppc h words _
    unfold readTrustedPath
    dsimp only
    split_ifs
    · exact hwrite _ _ h
    · exact h
  · intro ppc h phy _
    unfold readPhysical
    dsimp only
    split_ifs
    · exact hwrite _ _ (hwrite _ _ h)
    · exact hwrite _ _ h
    · exact h

end LocalSettings

/-! ### The table after a reading -/

namespace PhysicalPaths

variable {T : PhysicalPaths} {conf conf' : LocalSettings}

/-- The networks of a table are in order. -/
def Ordered (T : PhysicalPaths) : Prop := SortedMap.Sorted InetAddress.lt T.entries

/-- Configurations as they are stored. -/
def clamped (ppc : List (InetAddress × PhysicalPathConfiguration)) :
    List (InetAddress × PhysicalPathConfiguration) := ppc.map fun e => (e.1, clampMtu e.2)

theorem keys_clamped (ppc : List (InetAddress × PhysicalPathConfiguration)) :
    (clamped ppc).map Prod.fst = ppc.map Prod.fst := by
  rw [clamped, List.map_map]
  rfl

theorem sorted_clamped (h : SortedMap.Sorted InetAddress.lt ppc) :
    SortedMap.Sorted InetAddress.lt (clamped ppc) := List.pairwise_map.mpr h

theorem before_clamped (ppc : List (InetAddress × PhysicalPathConfiguration))
    (net : InetAddress) :
    SortedMap.before InetAddress.lt (clamped ppc) net = SortedMap.before InetAddress.lt ppc net :=
  List.countP_map

/-- What a map becomes when configurations are written into it. -/
def written (l ppc : List (InetAddress × PhysicalPathConfiguration)) :
    List (InetAddress × PhysicalPathConfiguration) :=
  ppc.foldl (fun l e => SortedMap.set InetAddress.lt e.1 e.2 l) l

theorem entries_setPhysicalPathConfiguration (hT : T.Ordered)
    (pc : PhysicalPathConfiguration) :
    (T.setPhysicalPathConfiguration (some net) (some pc)).entries =
      (SortedMap.set InetAddress.lt net (clampMtu pc) T.entries).take maxConfigurablePaths := by
  have hcopy : T.entries.foldl (fun l e => SortedMap.set InetAddress.lt e.1 e.2 l) [] =
      T.entries := SortedMap.Sorted.foldl_set InetAddress.strictTotal_lt hT
  unfold setPhysicalPathConfiguration
  dsimp only
  rw [hcopy]

theorem Ordered.setPhysicalPathConfiguration (hT : T.Ordered) (net : InetAddress)
    (pc : PhysicalPathConfiguration) :
    (T.setPhysicalPathConfiguration (some net) (some pc)).Ordered := by
  unfold Ordered
  rw [entries_setPhysicalPathConfiguration hT]
  exact List.Pairwise.sublist (List.take_sublist _ _) (SortedMap.Sorted.set
    InetAddress.strictTotal_lt.trans InetAddress.strictTotal_lt.total hT _ _)

theorem entries_foldl (hT : T.Ordered) {l : List (InetAddress × PhysicalPathConfiguration)}
    (hl : T.entries = l.take maxConfigurablePaths) :
    (ppc.foldl (fun T e => T.setPhysicalPathConfiguration (some e.1) (some e.2)) T).entries =
      (written l (clamped ppc)).take maxConfigurablePaths := by
  induction ppc generalizing T l with
  | nil => exact hl
  | cons e ppc ih =>
      -- cutting off now and cutting off at the end leave the same
      refine ih (hT.setPhysicalPathConfiguration e.1 e.2) ?_
      rw [entries_setPhysicalPathConfiguration hT, hl, SortedMap.take_set_take]

/-- **The table after a reading**: what was gathered is written into it, and what there is no room
for is cut off. -/
theorem entries_readLocalSettings (hT : T.Ordered) (conf : LocalSettings) :
    (readLocalSettings pton T conf).entries =
      (written T.entries (clamped (conf.paths pton))).take maxConfigurablePaths :=
  entries_foldl hT (List.take_of_length_le T.numConfigured).symm

theorem Ordered.readLocalSettings (hT : T.Ordered) (conf : LocalSettings) :
    (readLocalSettings pton T conf).Ordered :=
  List.foldlRecOn (motive := Ordered) (conf.paths pton) _ hT
    fun _ h e _ => h.setPhysicalPathConfiguration e.1 e.2

theorem ordered_empty : Ordered empty := List.Pairwise.nil

/-- The table of a node that has read settings and nothing else. -/
theorem entries_fresh (pton : InetPton) (conf : LocalSettings) :
    (ZGalaxy.readLocalSettings pton empty conf).entries =
      (clamped (conf.paths pton)).take maxConfigurablePaths := by
  rw [entries_readLocalSettings ordered_empty]
  refine congrArg (List.take _) ?_
  exact SortedMap.Sorted.foldl_set InetAddress.strictTotal_lt
    (sorted_clamped (LocalSettings.sorted_paths pton conf))

/-- **Two readings leave the same networks**, the one in a table that had some and the other in an
empty one, when the first configures all that the second does: every network that the table had is
configured by the first, and every one that the first configures is configured alike by the second,
except for those that come after as many of the second as there is room for. -/
theorem same_table_iff (hT : T.Ordered)
    (hconf : ∀ net, conf'.Configures pton net → conf.Configures pton net) :
    (∀ e, e ∈ (ZGalaxy.readLocalSettings pton T conf).entries ↔
        e ∈ (ZGalaxy.readLocalSettings pton empty conf').entries) ↔
      (∀ e ∈ T.entries, conf.Configures pton e.1 ∨
        maxConfigurablePaths ≤ SortedMap.before InetAddress.lt (conf'.paths pton) e.1) ∧
      ∀ e ∈ clamped (conf.paths pton), e ∈ clamped (conf'.paths pton) ∨
        maxConfigurablePaths ≤ SortedMap.before InetAddress.lt (conf'.paths pton) e.1 := by
  have hsorted := sorted_clamped (LocalSettings.sorted_paths pton conf)
  have hsorted' := sorted_clamped (LocalSettings.sorted_paths pton conf')
  -- what the first reading would leave if there were room for everything
  have hmem : ∀ e, e ∈ written T.entries (clamped (conf.paths pton)) ↔
      e ∈ clamped (conf.paths pton) ∨ e ∈ T.entries ∧ ¬conf.Configures pton e.1 := by
    intro e
    have hwritten := SortedMap.Sorted.mem_foldl_set_iff (e := e) InetAddress.strictTotal_lt hT
      (hsorted.nodup InetAddress.strictTotal_lt.irrefl)
    rwa [keys_clamped, LocalSettings.mem_keys_paths] at hwritten
  have hkeys : ∀ k ∈ (clamped (conf'.paths pton)).map Prod.fst,
      k ∈ (written T.entries (clamped (conf.paths pton))).map Prod.fst := by
    intro k hk
    rw [keys_clamped, LocalSettings.mem_keys_paths] at hk
    have hk' := LocalSettings.mem_keys_paths.mpr (hconf k hk)
    rw [← keys_clamped] at hk'
    obtain ⟨e, he, rfl⟩ := List.mem_map.mp hk'
    exact List.mem_map_of_mem ((hmem e).mpr (Or.inl he))
  have hprefix := SortedMap.Sorted.same_prefix_iff InetAddress.strictTotal_lt
    (SortedMap.Sorted.foldl_sorted InetAddress.strictTotal_lt hT (clamped (conf.paths pton)))
    hsorted' hkeys maxConfigurablePaths
  rw [entries_readLocalSettings hT, entries_fresh]
  refine hprefix.trans ?_
  simp only [before_clamped]
  constructor
  · intro h
    -- an old network that is not configured again cannot be one of the second reading
    refine ⟨fun e he => ?_, fun e he => h e ((hmem e).mpr (Or.inl he))⟩
    by_cases hconfigures : conf.Configures pton e.1
    · exact Or.inl hconfigures
    · refine (h e ((hmem e).mpr (Or.inr ⟨he, hconfigures⟩))).imp_left fun he' => hconf e.1 ?_
      have hk := List.mem_map_of_mem (f := Prod.fst) he'
      rwa [keys_clamped, LocalSettings.mem_keys_paths] at hk
  · rintro ⟨hold, hnew⟩ e he
    rcases (hmem e).mp he with he | ⟨he, hnot⟩
    · exact hnew e he
    · exact Or.inr ((hold e he).resolve_left hnot)

end PhysicalPaths

end ZGalaxy
