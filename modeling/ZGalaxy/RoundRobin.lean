/-
ZGalaxy/RoundRobin.lean

The stripes of `balance-rr`.

A path is used for `_packetsPerLink` packets that are counted, and for the one that was sent as the
index moved on to it, which is not.  So the stripes are one packet longer than they should be, and
there is no other path to notice this by only if there is no other path.  The counter has 16 bits
and never comes to a number that needs more; and index 63, the last one, is followed by index 0
whatever is there.

Main result: `striped_iff`, for which bonds that a run may come to the packets are striped over the
eligible bonded paths.
-/
import ZGalaxy.BondRuns
import ZGalaxy.Striping

namespace ZGalaxy

open PeerPaths Striping

/-! ### Packets one after the other -/

/-- What a call of `Bond::getAppropriatePath` is given. -/
structure PathCall where
  now : Int64
  flowId : Int32
  freeRandomByte : UInt8
  entropy : Entropy

namespace Bond

/-- The path of one packet. -/
def sendOne (b : Bond) (call : PathCall) : Except BondFault (Bond × Option Path) :=
  b.getAppropriatePath call.now call.flowId call.freeRandomByte call.entropy

/-- The bond and the path of packet `k`, counted from 0, with nothing but packets meanwhile. -/
def sendMany (b : Bond) (calls : ℕ → PathCall) : ℕ → Except BondFault (Bond × Option Path)
  | 0 => b.sendOne (calls 0)
  | k + 1 => do
      let out ← sendMany b calls k
      out.1.sendOne (calls (k + 1))

/-- The path of packet `k`, which may be null. -/
def pathOfPacket (b : Bond) (calls : ℕ → PathCall) (k : ℕ) : Option Path :=
  match b.sendMany calls k with
  | .error _ => none
  | .ok out => out.2

/-- The bonded indices of the paths that are there and eligible, in order. -/
def eligibleIndices (b : Bond) : List ℕ := (List.range b.numBondedPaths).filter b.rrUsable

/-- `_packetsPerLink`, where it is positive. -/
def stripeLength (b : Bond) : ℕ := b.settings.packetsPerLink.toInt.toNat

/-- The packets are striped over the eligible bonded paths. -/
def StripesPackets (b : Bond) (calls : ℕ → PathCall) : Prop :=
  Striped b.stripeLength (b.eligibleIndices.map b.bondedPath) (b.pathOfPacket calls)

variable {b : Bond}

/-! ### The index and the counter -/

/-- The bond after `k` packets. -/
def afterPackets (b : Bond) (k : ℕ) : Bond := rrStep^[k] b

/-- The index after `k` packets. -/
def idxAfter (b : Bond) (k : ℕ) : ℕ := (b.afterPackets k).rrIdx.toNat

/-- The counter after `k` packets. -/
def countAfter (b : Bond) (k : ℕ) : ℕ := (b.afterPackets k).rrPacketsSentOnCurrLink.toNat

/-- The index that the striping goes on with, from an index. -/
def advanceFrom (b : Bond) (i : ℕ) : ℕ :=
  if b.numBondedPaths = 1 ∨ maxPeerNetworkPaths - 1 ≤ i then 0
  else (b.rrSearch (b.numBondedPaths - 1) i).getD i

theorem afterPackets_succ (b : Bond) (k : ℕ) :
    b.afterPackets (k + 1) = (b.afterPackets k).rrStep := Function.iterate_succ_apply' rrStep k b

/-- A bond that sends packets, with its packets per link set. -/
structure Striping (b : Bond) : Prop where
  numbered : Numbered b
  policy : b.settings.policy = .balanceRR
  packets : 0 < b.settings.packetsPerLink.toInt
  num : b.numBondedPaths ≠ 0

/-- What packets leave as it is. -/
structure SamePaths (b b' : Bond) : Prop where
  paths : b'.paths = b.paths
  settings : b'.settings = b.settings
  realIdxMap : b'.realIdxMap = b.realIdxMap
  numBondedPaths : b'.numBondedPaths = b.numBondedPaths

theorem samePaths_afterPackets (b : Bond) (k : ℕ) : SamePaths b (b.afterPackets k) := by
  induction k with
  | zero => exact ⟨rfl, rfl, rfl, rfl⟩
  | succ k ih =>
      rw [afterPackets_succ]
      obtain ⟨hpaths, hsettings, hmap, hnum⟩ := rrStep_paths (b.afterPackets k)
      exact ⟨hpaths.trans ih.paths, hsettings.trans ih.settings, hmap.trans ih.realIdxMap,
        hnum.trans ih.numBondedPaths⟩

theorem SamePaths.realIdx {b b' : Bond} (h : SamePaths b b') (j : ℕ) :
    b'.realIdx j = b.realIdx j := by
  unfold Bond.realIdx
  rw [h.realIdxMap]

theorem SamePaths.rrUsable {b b' : Bond} (h : SamePaths b b') (j : ℕ) :
    b'.rrUsable j = b.rrUsable j := by
  unfold Bond.rrUsable
  rw [h.realIdx, h.paths]

theorem SamePaths.bondedPath {b b' : Bond} (h : SamePaths b b') (j : ℕ) :
    b'.bondedPath j = b.bondedPath j := by
  unfold Bond.bondedPath
  rw [h.realIdx, h.paths]

theorem SamePaths.rrSearch {b b' : Bond} (h : SamePaths b b') (n t : ℕ) :
    b'.rrSearch n t = b.rrSearch n t := by
  have hnext : ∀ t, b'.rrNext t = b.rrNext t := by
    intro t
    unfold Bond.rrNext
    rw [h.numBondedPaths]
  induction n generalizing t with
  | zero => rfl
  | succ n ih =>
      unfold Bond.rrSearch
      rw [hnext, h.rrUsable, ih]

theorem striping_afterPackets (h : Striping b) (k : ℕ) : Striping (b.afterPackets k) := by
  induction k with
  | zero => exact h
  | succ k ih =>
      rw [afterPackets_succ]
      obtain ⟨-, hsettings, -, hnum⟩ := rrStep_paths (b.afterPackets k)
      refine ⟨numbered_rrStep ih.numbered ih.policy ih.num, ?_, ?_, ?_⟩
      · rw [hsettings]
        exact ih.policy
      · rw [hsettings]
        exact ih.packets
      · rw [hnum]
        exact ih.num

/-! ### One packet -/

theorem sendOne_eq (h : Striping b) (call : PathCall) :
    b.sendOne call = .ok (b.rrStep, b.bondedPath b.rrStep.rrIdx.toNat) := by
  have hbackup := BondPolicy.ne_activeBackup h.numbered.balance
  have hnone := h.numbered.has_paths h.num
  have hpackets : b.settings.packetsPerLink ≠ 0 := by
    intro hzero
    have hpos := h.packets
    rw [hzero] at hpos
    exact absurd hpos (by decide)
  have hlt := rrStep_rrIdx_lt h.numbered h.policy h.num
  have hsame : SamePaths b b.rrStep := by
    obtain ⟨hpaths, hsettings, hmap, hnum⟩ := rrStep_paths b
    exact ⟨hpaths, hsettings, hmap, hnum⟩
  have hnumbered := numbered_rrStep h.numbered h.policy h.num
  unfold sendOne getAppropriatePath getPathRR
  rw [if_neg hbackup, if_neg hnone, if_pos h.policy, if_neg hpackets,
    pathAt_eq hnumbered (hsame.numBondedPaths.symm ▸ hlt), hsame.bondedPath]
  rfl

/-- **The path of a packet** is that of the index after it. -/
theorem pathOfPacket_eq (h : Striping b) (calls : ℕ → PathCall) (k : ℕ) :
    b.pathOfPacket calls k = b.bondedPath (b.idxAfter (k + 1)) := by
  have hmany : ∀ k, b.sendMany calls k =
      .ok (b.afterPackets (k + 1), b.bondedPath (b.idxAfter (k + 1))) := by
    intro k
    induction k with
    | zero => exact sendOne_eq h (calls 0)
    | succ k ih =>
        have hone := sendOne_eq (striping_afterPackets h (k + 1)) (calls (k + 1))
        rw [← afterPackets_succ, (samePaths_afterPackets b (k + 1)).bondedPath] at hone
        unfold sendMany
        rw [ih]
        exact hone
  unfold pathOfPacket
  rw [hmany]

/-! ### The stripes -/

theorem rrAdvance_toNat (h : Striping b) : b.rrAdvance.toNat = b.advanceFrom b.rrIdx.toNat := by
  have hle : b.numBondedPaths ≤ 64 := h.numbered.num_le
  have hidx := h.numbered.rrIdx_lt h.policy h.num
  unfold rrAdvance advanceFrom
  split_ifs with hwrap
  · rfl
  · rcases hsearch : b.rrSearch (b.numBondedPaths - 1) b.rrIdx.toNat with - | t
    · rfl
    · have hlt := rrSearch_lt hidx hsearch
      show (UInt8.ofNat t).toNat = t
      rw [UInt8.toNat_ofNat', Nat.mod_eq_of_lt (by omega)]

theorem SamePaths.advanceFrom {b b' : Bond} (h : SamePaths b b') (i : ℕ) :
    b'.advanceFrom i = b.advanceFrom i := by
  unfold Bond.advanceFrom
  rw [h.numBondedPaths, h.rrSearch]

theorem idxAfter_lt (h : Striping b) (k : ℕ) : b.idxAfter k < b.numBondedPaths := by
  have hk := striping_afterPackets h k
  have hlt := hk.numbered.rrIdx_lt hk.policy hk.num
  rwa [(samePaths_afterPackets b k).numBondedPaths] at hlt

theorem stripeLength_pos (h : Striping b) : 0 < b.stripeLength := by
  have hpos := h.packets
  unfold stripeLength
  omega

/-- Whether the counter has come to the length of a stripe. -/
theorem count_lt_iff (h : Striping b) (k : ℕ) :
    (((b.afterPackets k).rrPacketsSentOnCurrLink.toNat : ℤ) <
      (b.afterPackets k).settings.packetsPerLink.toInt) ↔ b.countAfter k < b.stripeLength := by
  have hpos := h.packets
  rw [(samePaths_afterPackets b k).settings]
  unfold countAfter stripeLength
  omega

/-- A packet that is counted. -/
theorem counted (h : Striping b) {k : ℕ} (hlt : b.countAfter k < b.stripeLength) :
    b.idxAfter (k + 1) = b.idxAfter k ∧
      b.countAfter (k + 1) = (b.countAfter k + 1) % 65536 := by
  have hstep : b.afterPackets (k + 1) = (b.afterPackets k).rrCount := by
    rw [afterPackets_succ, rrStep, if_pos ((count_lt_iff h k).mpr hlt)]
  unfold idxAfter countAfter
  rw [hstep]
  refine ⟨rfl, ?_⟩
  show ((b.afterPackets k).rrPacketsSentOnCurrLink + 1).toNat = _
  rw [UInt16.toNat_add]
  rfl

/-- A packet that the index moves on with. -/
theorem switched (h : Striping b) {k : ℕ} (hle : b.stripeLength ≤ b.countAfter k) :
    b.idxAfter (k + 1) = b.advanceFrom (b.idxAfter k) ∧ b.countAfter (k + 1) = 0 := by
  have hnot : ¬b.countAfter k < b.stripeLength := Nat.not_lt.mpr hle
  have hstep : b.afterPackets (k + 1) = (b.afterPackets k).rrSwitch := by
    rw [afterPackets_succ, rrStep, if_neg fun hlt => hnot ((count_lt_iff h k).mp hlt)]
  have hadvance := rrAdvance_toNat (striping_afterPackets h k)
  rw [(samePaths_afterPackets b k).advanceFrom] at hadvance
  unfold idxAfter countAfter
  rw [hstep]
  exact ⟨hadvance, rfl⟩

theorem countAfter_lt (b : Bond) (k : ℕ) : b.countAfter k < 65536 :=
  UInt16.toNat_lt (b.afterPackets k).rrPacketsSentOnCurrLink

/-- The index moves on some time, if the counter can come to the length of a stripe. -/
theorem exists_switch (h : Striping b) (hshort : b.stripeLength < 65536) (m : ℕ) :
    ∃ k ≥ m, b.stripeLength ≤ b.countAfter k := by
  -- on what the counter lacks: short of the length of a stripe it does not wrap around
  induction hd : b.stripeLength - b.countAfter m generalizing m with
  | zero => exact ⟨m, le_refl m, by omega⟩
  | succ d ih =>
      have hcount := (counted h (k := m) (by omega)).2
      rw [Nat.mod_eq_of_lt (by omega)] at hcount
      obtain ⟨k, hk, hle⟩ := ih (m + 1) (by omega)
      exact ⟨k, by omega, hle⟩

/-- A stripe, counted from the packet that the index moved on with. -/
theorem stripe (h : Striping b) (hshort : b.stripeLength < 65536) {k : ℕ}
    (hzero : b.countAfter k = 0) {r : ℕ} (hr : r ≤ b.stripeLength) :
    b.idxAfter (k + r) = b.idxAfter k ∧ b.countAfter (k + r) = r := by
  induction r with
  | zero => exact ⟨rfl, hzero⟩
  | succ r ih =>
      obtain ⟨hidx, hcount⟩ := ih (by omega)
      obtain ⟨hidx', hcount'⟩ := counted h (k := k + r) (by omega)
      rw [Nat.mod_eq_of_lt (by omega)] at hcount'
      refine ⟨hidx'.trans hidx, ?_⟩
      show b.countAfter (k + r + 1) = r + 1
      omega

/-- The index never moves on, if the counter does not come to the length of a stripe. -/
theorem idxAfter_of_long (h : Striping b) (hlong : 65536 ≤ b.stripeLength) (k : ℕ) :
    b.idxAfter k = b.rrIdx.toNat := by
  induction k with
  | zero => rfl
  | succ k ih =>
      have hlt := b.countAfter_lt k
      rw [(counted h (k := k) (by omega)).1, ih]

/-- **The stripes are one packet too long.** -/
theorem windows_pathOfPacket (h : Striping b) (calls : ℕ → PathCall) :
    Windows b.stripeLength (b.pathOfPacket calls) := by
  intro m
  by_cases hlong : 65536 ≤ b.stripeLength
  · -- the counter of 16 bits never gets there, so that all packets are sent on one path
    refine ⟨m, le_refl m, fun r _ => ?_⟩
    rw [pathOfPacket_eq h, pathOfPacket_eq h, idxAfter_of_long h hlong, idxAfter_of_long h hlong]
  · obtain ⟨k, hk, hle⟩ := exists_switch h (by omega) m
    have hzero := (switched h hle).2
    refine ⟨k, hk, fun r hr => ?_⟩
    -- the packet that switches is the first of its stripe and is not counted
    have hplace : k + r + 1 = k + 1 + r := by omega
    rw [pathOfPacket_eq h, pathOfPacket_eq h, hplace, (stripe h (by omega) hzero hr).1]

/-! ### The paths of the indices -/

/-- An eligible path is in one place only. -/
theorem bondedPath_inj (hb : Numbered b) {j k : ℕ} (hj : j < b.numBondedPaths)
    (hk : k < b.numBondedPaths) (hsome : b.bondedPath j ≠ none)
    (heq : b.bondedPath j = b.bondedPath k) : j = k := by
  obtain ⟨path, hpath⟩ := Option.ne_none_iff_exists'.mp hsome
  have hother := heq.symm.trans hpath
  obtain ⟨i, hi, hpi⟩ := Option.bind_eq_some_iff.mp hpath
  obtain ⟨l, hl, hpl⟩ := Option.bind_eq_some_iff.mp hother
  obtain rfl := hb.onePlace i l path hpi hpl
  exact hb.inj j hj k hk (hi.trans hl.symm)

/-- The paths that are there are eligible. -/
theorem rrUsable_iff (hb : Numbered b) {j : ℕ} (hj : j < b.numBondedPaths) :
    b.rrUsable j = true ↔ b.bondedPath j ≠ none := by
  obtain ⟨i, hi⟩ := Option.isSome_iff_exists.mp (hb.isSome j hj)
  unfold rrUsable bondedPath
  rw [hi]
  show ((b.paths i).p.isSome && (b.paths i).eligible) = true ↔ (b.paths i).p ≠ none
  rw [Bool.and_eq_true, ← Option.isSome_iff_ne_none]
  refine and_iff_left_of_imp fun hp => ?_
  exact hb.isEligible i (hb.isBonded j hj i hi hp)

theorem mem_eligibleIndices {j : ℕ} :
    j ∈ b.eligibleIndices ↔ j < b.numBondedPaths ∧ b.rrUsable j = true := by
  unfold eligibleIndices
  rw [List.mem_filter, List.mem_range]

theorem nodup_eligiblePaths (hb : Numbered b) :
    (b.eligibleIndices.map b.bondedPath).Nodup := by
  refine List.Nodup.map_on ?_ (List.nodup_range.filter _)
  intro j hj k hk heq
  obtain ⟨hj, husable⟩ := mem_eligibleIndices.mp hj
  obtain ⟨hk, -⟩ := mem_eligibleIndices.mp hk
  exact bondedPath_inj hb hj hk ((rrUsable_iff hb hj).mp husable) heq

/-! ### One eligible path -/

section OneEligible

variable {e : ℕ}

theorem rrNext_eq {t : ℕ} (ht : t < b.numBondedPaths) :
    b.rrNext t = (t + 1) % b.numBondedPaths := by
  unfold rrNext
  split_ifs with hlast
  · rw [hlast, Nat.mod_self]
  · rw [Nat.mod_eq_of_lt (by omega)]

/-- The search comes to the one eligible path, or it does not go far enough. -/
theorem rrSearch_one (hone : b.eligibleIndices = [e]) {n t : ℕ} (ht : t < b.numBondedPaths) :
    b.rrSearch n t = some e ∨
      b.rrSearch n t = none ∧ ∀ d, 1 ≤ d → d ≤ n → (t + d) % b.numBondedPaths ≠ e := by
  induction n generalizing t with
  | zero => exact Or.inr ⟨rfl, fun d hpos hle => by omega⟩
  | succ n ih =>
      have hlt := rrNext_lt ht
      unfold rrSearch
      by_cases husable : b.rrUsable (b.rrNext t) = true
      · have hmem : b.rrNext t ∈ b.eligibleIndices := mem_eligibleIndices.mpr ⟨hlt, husable⟩
        rw [hone, List.mem_singleton] at hmem
        rw [if_pos husable, hmem]
        exact Or.inl rfl
      · rw [if_neg husable]
        refine (ih hlt).imp_right ?_
        rintro ⟨hnone, hfar⟩
        refine ⟨hnone, fun d hpos hle hd => ?_⟩
        rcases Nat.lt_or_ge 1 d with hd' | hd'
        · refine hfar (d - 1) (by omega) (by omega) ?_
          rw [rrNext_eq ht, Nat.mod_add_mod, Nat.add_assoc, Nat.add_sub_cancel' hpos]
          exact hd
        · -- the next index is not eligible
          obtain rfl : d = 1 := by omega
          have hmem : e ∈ b.eligibleIndices := by
            rw [hone]
            exact List.mem_singleton_self e
          rw [← hd, ← rrNext_eq ht] at hmem
          exact husable (mem_eligibleIndices.mp hmem).2

/-- Where the index goes from an index below the last one. -/
theorem advanceFrom_one (h : Striping b) (hone : b.eligibleIndices = [e]) {i : ℕ}
    (hi : i < b.numBondedPaths) (hlast : i ≠ maxPeerNetworkPaths - 1) : b.advanceFrom i = e := by
  have hle : b.numBondedPaths ≤ 64 := h.numbered.num_le
  have hlast' : i ≠ 63 := hlast
  have hmem : e ∈ b.eligibleIndices := by
    rw [hone]
    exact List.mem_singleton_self e
  have he := (mem_eligibleIndices.mp hmem).1
  unfold advanceFrom
  by_cases hnum : b.numBondedPaths = 1
  · -- the index 0 is the only one
    rw [if_pos (Or.inl hnum)]
    omega
  · have hnot : ¬(b.numBondedPaths = 1 ∨ maxPeerNetworkPaths - 1 ≤ i) := by
      rintro (hnum' | hge)
      · exact hnum hnum'
      · have hge' : 63 ≤ i := hge
        omega
    rw [if_neg hnot]
    rcases rrSearch_one hone hi with hfound | ⟨hnone, hfar⟩
    · rw [hfound]
      rfl
    · rw [hnone]
      show i = e
      -- the way from one index to another one
      by_contra hie
      rcases Nat.lt_or_gt_of_ne hie with hlt | hgt
      · refine hfar (e - i) (by omega) (by omega) ?_
        rw [Nat.add_sub_cancel' (Nat.le_of_lt hlt), Nat.mod_eq_of_lt he]
      · refine hfar (e + b.numBondedPaths - i) (by omega) (by omega) ?_
        have hplace : i + (e + b.numBondedPaths - i) = e + b.numBondedPaths := by omega
        rw [hplace, Nat.add_mod_right, Nat.mod_eq_of_lt he]

theorem advanceFrom_last (b : Bond) : b.advanceFrom (maxPeerNetworkPaths - 1) = 0 := by
  unfold advanceFrom
  rw [if_pos (Or.inr (le_refl _))]

/-- The index comes to the eligible path, if it is not the last index. -/
theorem exists_idxAfter (h : Striping b) (hone : b.eligibleIndices = [e])
    (hshort : b.stripeLength < 65536) : ∃ m, b.idxAfter (m + 1) = e := by
  obtain ⟨k, -, hk⟩ := exists_switch h hshort 0
  by_cases hlast : b.idxAfter k = maxPeerNetworkPaths - 1
  · -- it goes to index 0 first
    obtain ⟨l, hkl, hl⟩ := exists_switch h hshort (k + 1)
    have hzero : b.idxAfter (k + 1) = 0 := by
      rw [(switched h hk).1, hlast, advanceFrom_last]
    have hfirst : ∀ d, b.idxAfter (k + 1 + d) = 0 ∨ ∃ m, b.idxAfter (m + 1) = e := by
      intro d
      induction d with
      | zero => exact Or.inl hzero
      | succ d ih =>
          rcases ih with hidx | hdone
          · by_cases hcount : b.countAfter (k + 1 + d) < b.stripeLength
            · exact Or.inl ((counted h hcount).1.trans hidx)
            · right
              refine ⟨k + 1 + d, ?_⟩
              have hlt := idxAfter_lt h (k + 1 + d)
              rw [(switched h (Nat.le_of_not_lt hcount)).1, hidx]
              exact advanceFrom_one h hone (hidx ▸ hlt) (by decide)
          · exact Or.inr hdone
    rcases hfirst (l - (k + 1)) with hidx | hdone
    · rw [Nat.add_sub_cancel' hkl] at hidx
      have hlt := idxAfter_lt h l
      refine ⟨l, ?_⟩
      rw [(switched h hl).1, hidx]
      exact advanceFrom_one h hone (hidx ▸ hlt) (by decide)
    · exact hdone
  · refine ⟨k, ?_⟩
    rw [(switched h hk).1]
    exact advanceFrom_one h hone (idxAfter_lt h k) hlast

/-- The index stays at the eligible path, if it is not the last index. -/
theorem idxAfter_stays (h : Striping b) (hone : b.eligibleIndices = [e])
    (hlast : e ≠ maxPeerNetworkPaths - 1) {m : ℕ} (hm : b.idxAfter m = e) (d : ℕ) :
    b.idxAfter (m + d) = e := by
  induction d with
  | zero => exact hm
  | succ d ih =>
      show b.idxAfter (m + d + 1) = e
      by_cases hcount : b.countAfter (m + d) < b.stripeLength
      · rw [(counted h hcount).1, ih]
      · have hlt := idxAfter_lt h (m + d)
        rw [(switched h (Nat.le_of_not_lt hcount)).1, ih]
        exact advanceFrom_one h hone (ih ▸ hlt) hlast

/-- **One eligible path**: when all packets after the first stripe are sent on it. -/
theorem striped_one_iff (h : Striping b) (calls : ℕ → PathCall) (hone : b.eligibleIndices = [e]) :
    Striped b.stripeLength [b.bondedPath e] (b.pathOfPacket calls) ↔
      (65536 ≤ b.stripeLength → b.rrIdx.toNat = e) ∧
        (b.stripeLength < 65536 → e ≠ maxPeerNetworkPaths - 1) := by
  have hmem : e ∈ b.eligibleIndices := by
    rw [hone]
    exact List.mem_singleton_self e
  obtain ⟨he, husable⟩ := mem_eligibleIndices.mp hmem
  have hsome := (rrUsable_iff h.numbered he).mp husable
  rw [striped_singleton_iff (stripeLength_pos h)]
  constructor
  · rintro ⟨m, -, hconst⟩
    -- after the first stripe the index is that of the path
    have hidx : ∀ k ≥ m, b.idxAfter (k + 1) = e := by
      intro k hk
      have hpath := hconst k hk
      rw [pathOfPacket_eq h] at hpath
      exact (bondedPath_inj h.numbered he (idxAfter_lt h (k + 1)) hsome hpath.symm).symm
    refine ⟨fun hlong => ?_, fun hshort hlast => ?_⟩
    · exact (idxAfter_of_long h hlong (m + 1)).symm.trans (hidx m (le_refl m))
    · -- the index leaves the last place
      obtain ⟨k, hk, hle⟩ := exists_switch h hshort (m + 1)
      have hbefore := hidx (k - 1) (by omega)
      have hafter := hidx k (by omega)
      rw [Nat.sub_add_cancel (by omega)] at hbefore
      rw [(switched h hle).1, hbefore, hlast, advanceFrom_last] at hafter
      exact absurd hafter (by decide)
  · rintro ⟨hlong, hshort⟩
    by_cases hlength : 65536 ≤ b.stripeLength
    · -- the index never moves on, and is the eligible one from the beginning
      have hall : ∀ k, b.pathOfPacket calls k = b.bondedPath e := by
        intro k
        rw [pathOfPacket_eq h, idxAfter_of_long h hlength, hlong hlength]
      exact ⟨0, fun k _ => (hall k).trans (hall 0).symm, fun k _ => hall k⟩
    · -- the first stripe ends when the index comes to the eligible one, where it stays
      have hexists := exists_idxAfter h hone (by omega)
      classical
      have hfirst := Nat.find_spec hexists
      refine ⟨Nat.find hexists, ?_, ?_⟩
      · -- the indices before hold no path
        have hnull : ∀ k < Nat.find hexists, b.pathOfPacket calls k = none := by
          intro k hk
          have hne := Nat.find_min hexists hk
          have hlt := idxAfter_lt h (k + 1)
          rw [pathOfPacket_eq h]
          by_contra hpath
          have hindex := mem_eligibleIndices.mpr ⟨hlt, (rrUsable_iff h.numbered hlt).mpr hpath⟩
          rw [hone, List.mem_singleton] at hindex
          exact hne hindex
        intro k hk
        exact (hnull k hk).trans (hnull 0 (Nat.zero_lt_of_lt hk)).symm
      · intro k hk
        have hstays := idxAfter_stays h hone (hshort (by omega)) hfirst (k - Nat.find hexists)
        have hplace : Nat.find hexists + 1 + (k - Nat.find hexists) = k + 1 := by omega
        rw [hplace] at hstays
        rw [pathOfPacket_eq h, hstays]

end OneEligible

/-- **The stripes of a bond with its paths numbered.** -/
theorem stripesPackets_iff (h : Striping b) (calls : ℕ → PathCall) :
    b.StripesPackets calls ↔ ∃ e, b.eligibleIndices = [e] ∧
      (65536 ≤ b.stripeLength → b.rrIdx.toNat = e) ∧
        (b.stripeLength < 65536 → e ≠ maxPeerNetworkPaths - 1) := by
  constructor
  · intro hstriped
    have hlength := length_eq_one_of_windows (nodup_eligiblePaths h.numbered) (stripeLength_pos h)
      (windows_pathOfPacket h calls) hstriped
    rw [List.length_map] at hlength
    obtain ⟨e, hone⟩ := List.length_eq_one_iff.mp hlength
    refine ⟨e, hone, (striped_one_iff h calls hone).mp ?_⟩
    unfold StripesPackets at hstriped
    rw [hone] at hstriped
    exact hstriped
  · rintro ⟨e, hone, hcond⟩
    unfold StripesPackets
    rw [hone]
    exact (striped_one_iff h calls hone).mpr hcond

end Bond

/-! ### Runs -/

/-- A bond that a run has come to, with a path in it. -/
theorem striping_of_run {rules : ScoreRules} {sorting : QueueSort} {settings : BondSettings}
    (hpolicy : settings.policy = .balanceRR) (hpackets : 0 < settings.packetsPerLink.toInt)
    {events : List BondEvent} {b : Bond}
    (hrun : (bondMachine rules sorting).runState (.ok (Bond.init settings)) events = .ok b)
    (hnum : b.numBondedPaths ≠ 0) : Bond.Striping b := by
  have hbalance : settings.policy.isBalance = true := by
    rw [hpolicy]
    rfl
  obtain ⟨hb, hsettings⟩ := numbered_of_run hbalance hrun
  refine ⟨hb, ?_, ?_, hnum⟩
  · rw [hsettings]
    exact hpolicy
  · rw [hsettings]
    exact hpackets

/-- **The stripes of a bond** that a run has come to: the packets are striped over the eligible
bonded paths exactly if there is one of them, and it is not at the last index; where the counter
does not come to the length of a stripe, exactly if there is one and the current index is its index.
-/
theorem striped_iff (rules : ScoreRules) (sorting : QueueSort) {settings : BondSettings}
    (hpolicy : settings.policy = .balanceRR) (hpackets : 0 < settings.packetsPerLink.toInt)
    {events : List BondEvent} {b : Bond}
    (hrun : (bondMachine rules sorting).runState (.ok (Bond.init settings)) events = .ok b)
    (calls : ℕ → PathCall) :
    b.StripesPackets calls ↔ ∃ e, b.eligibleIndices = [e] ∧
      (65536 ≤ b.stripeLength → b.rrIdx.toNat = e) ∧
        (b.stripeLength < 65536 → e ≠ maxPeerNetworkPaths - 1) := by
  by_cases hnum : b.numBondedPaths = 0
  · -- there is no path
    have hnil : b.eligibleIndices = [] := by
      unfold Bond.eligibleIndices
      rw [hnum]
      rfl
    unfold Bond.StripesPackets
    rw [hnil]
    refine iff_of_false ?_ ?_
    · rintro ⟨m, e, he, -⟩
      exact Nat.not_lt_zero e he
    · rintro ⟨e, hone, -⟩
      cases hone
  · exact Bond.stripesPackets_iff (striping_of_run hpolicy hpackets hrun hnum) calls

/-! ### Two paths -/

/-- Calls at one time. -/
def plainCalls : ℕ → PathCall := fun _ => ⟨1700000000000, 1, 0, ⟨fun _ => 0, 0⟩⟩

/-- The bond after both paths were nominated. -/
theorem exists_bothNominated : ∃ b, (bondMachine plainRules plainSort).runState
    (.ok (Bond.init (plainSettings .balanceRR))) bothNominated = .ok b ∧
      b.eligibleIndices = [0, 1] := by
  have hindices : (((bondMachine plainRules plainSort).runState
      (.ok (Bond.init (plainSettings .balanceRR))) bothNominated).toOption.map
        Bond.eligibleIndices) = some [0, 1] := by decide +kernel
  exact exists_ok_of_map hindices

/-- The stripes over both paths. -/
theorem striped_bothNominated : ∃ b, (bondMachine plainRules plainSort).runState
    (.ok (Bond.init (plainSettings .balanceRR))) bothNominated = .ok b ∧
      (b.StripesPackets plainCalls ↔ ∃ e, b.eligibleIndices = [e] ∧
        (65536 ≤ b.stripeLength → b.rrIdx.toNat = e) ∧
          (b.stripeLength < 65536 → e ≠ maxPeerNetworkPaths - 1)) := by
  obtain ⟨b, hrun, -⟩ := exists_bothNominated
  exact ⟨b, hrun, striped_iff plainRules plainSort rfl (by decide) hrun plainCalls⟩

theorem not_striped_bothNominated :
    ¬∀ (rules : ScoreRules) (sorting : QueueSort) (settings : BondSettings)
      (events : List BondEvent) (b : Bond) (calls : ℕ → PathCall),
      settings.policy = .balanceRR → 0 < settings.packetsPerLink.toInt →
        (bondMachine rules sorting).runState (.ok (Bond.init settings)) events = .ok b →
          b.eligibleIndices ≠ [] → b.StripesPackets calls := by
  intro h
  obtain ⟨b, hrun, heligible⟩ := exists_bothNominated
  have hne : b.eligibleIndices ≠ [] := by
    rw [heligible]
    exact List.cons_ne_nil _ _
  have hstriped := h plainRules plainSort _ _ b plainCalls rfl (by decide) hrun hne
  have hnum : b.numBondedPaths ≠ 0 := by
    intro hzero
    unfold Bond.eligibleIndices at hne
    rw [hzero] at hne
    exact hne rfl
  have hsending := striping_of_run rfl (by decide) hrun hnum
  have hlength := length_eq_one_of_windows (Bond.nodup_eligiblePaths hsending.numbered)
    (Bond.stripeLength_pos hsending) (Bond.windows_pathOfPacket hsending plainCalls) hstriped
  rw [List.length_map, heligible] at hlength
  exact absurd hlength (by decide)

end ZGalaxy
