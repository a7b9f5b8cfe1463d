/-
ZGalaxy/FrameReads.lean

Which bytes of a frame the rule engine reads.

For each match there is a list of the positions it reads (`matchReads`), branch for branch as it is
evaluated.  What a match comes to is up to the bytes at these positions and no others
(`evaluate_congr`).

All of them are inside the frame but for the TCP flags over IPv4, which are read without looking at
the length (`matchReads_inside_iff`).  The walk over the extension headers of IPv6 ends after as many
turns as the frame has bytes, at most (`walkSteps_eq`).

Main result: `reads_inside_iff`.
-/
import ZGalaxy.Filter

namespace ZGalaxy

open ByteList

namespace Frame

variable (f : Frame)

/-- `n` positions from `i` on. -/
def span (i n : ℕ) : List ℕ := (List.range n).map (i + ·)

/-- What the walk over the extension headers reads. -/
def walkReads (pos proto : ℕ) : List ℕ :=
  if pos ≤ f.frameLen then
    if proto = 0 ∨ proto = 43 ∨ proto = 60 ∨ proto = 135 then
      if f.frameLen < pos + 8 then []
      else pos :: (pos + 1) :: walkReads (pos + (f.byte (pos + 1) * 8 + 8)) (f.byte pos)
    else []
  else []
termination_by f.frameLen + 1 - pos

/-- What `_ipv6GetPayload` reads. -/
def payloadReads : List ℕ := if f.frameLen < 40 then [] else 6 :: f.walkReads 40 (f.byte 6)

/-- The walk over the extension headers, which gives up after `n` turns. -/
def walkSteps : ℕ → ℕ → ℕ → Option (Option (ℕ × ℕ))
  | 0, _, _ => none
  | n + 1, pos, proto =>
      if pos ≤ f.frameLen then
        if proto = 0 ∨ proto = 43 ∨ proto = 60 ∨ proto = 135 then
          if f.frameLen < pos + 8 then some none
          else walkSteps n (pos + (f.byte (pos + 1) * 8 + 8)) (f.byte pos)
        else some (some (pos, proto))
      else some none

/-- The frame with another memory. -/
def withMemory (d : ℕ → UInt8) : Frame := { f with frameData := d }

/-- It is TCP over IPv4, and ends before the byte with the TCP flags or with the one before it. -/
def ShortTcp : Prop := f.isIPv4 = true ∧ f.frameData 9 = 6 ∧ f.frameLen ≤ f.headerLen + 13

end Frame

namespace FilterContext

open ZGalaxy.Frame

variable (c : FilterContext)

/-- What MATCH_IPV4_SOURCE and MATCH_IPV4_DEST read. -/
def readsIPv4 (i : ℕ) : List ℕ := if c.frame.isIPv4 then span i 4 else []

/-- What MATCH_IPV6_SOURCE and MATCH_IPV6_DEST read. -/
def readsIPv6 (i : ℕ) : List ℕ := if c.frame.isIPv6 then span i 16 else []

/-- What MATCH_IP_TOS reads. -/
def readsIpTos : List ℕ :=
  if c.frame.isIPv4 then [1] else if c.frame.isIPv6 then [0, 1] else []

/-- What MATCH_IP_PROTOCOL reads. -/
def readsIpProtocol : List ℕ :=
  if c.frame.isIPv4 then [9]
  else if c.frame.etherType == etherTypeIPv6 then c.frame.payloadReads
  else []

/-- What the comparison with the ICMP header at `pos` reads. -/
def readsIcmpAt (type flags : UInt8) (pos : ℕ) : List ℕ :=
  if type = c.frame.frameData pos ∧ flags &&& 1 ≠ 0 then [pos, pos + 1] else [pos]

/-- What MATCH_ICMP reads. -/
def readsIcmp (type flags : UInt8) : List ℕ :=
  let f := c.frame
  if f.isIPv4 then
    9 :: if f.frameData 9 = 1 then
        0 :: if f.headerLen + 2 ≤ f.frameLen then c.readsIcmpAt type flags f.headerLen else []
      else []
  else if f.etherType == etherTypeIPv6 then
    f.payloadReads ++ match f.ipv6GetPayload with
      | some (pos, proto) =>
          if proto = 0x3a ∧ pos + 2 ≤ f.frameLen then c.readsIcmpAt type flags pos else []
      | none => []
  else []

/-- What MATCH_IP_SOURCE_PORT_RANGE and MATCH_IP_DEST_PORT_RANGE read. -/
def readsPortRange (offset : ℕ) : List ℕ :=
  let f := c.frame
  if f.isIPv4 then
    0 :: 9 :: if Frame.hasPorts (f.byte 9) ∧ f.headerLen + 4 < f.frameLen then
        span (f.headerLen + offset) 2
      else []
  else if f.etherType == etherTypeIPv6 then
    f.payloadReads ++ match f.ipv6GetPayload with
      | some (pos, proto) =>
          if Frame.hasPorts proto ∧ pos + 4 < f.frameLen then span (pos + offset) 2 else []
      | none => []
  else []

/-- What is read to find the address a frame claims to come from. -/
def readsSender : List ℕ :=
  let f := c.frame
  if f.isIPv4 then span 12 4
  else if f.isIPv6 then
    (if 40 + 8 + 16 ≤ f.frameLen then 6 :: if f.frameData 6 = 0x3a then [40] else [] else []) ++
      if c.isNeighborMessage 0x87 then [] else if c.isNeighborMessage 0x88 then span (40 + 8) 16
      else span 8 16
  else if f.etherType == etherTypeArp && 28 ≤ f.frameLen then span 14 4
  else []

/-- What is read to find the TCP flags. -/
def readsTcpFlags : List ℕ :=
  let f := c.frame
  if f.isIPv4 then 9 :: if f.frameData 9 = 6 then [0, f.headerLen + 13, f.headerLen + 12] else []
  else if f.etherType == etherTypeIPv6 then
    f.payloadReads ++ match f.ipv6GetPayload with
      | some (pos, proto) =>
          if proto = 0x06 ∧ pos + 14 < f.frameLen then [pos + 13, pos + 12] else []
      | none => []
  else []

/-- What MATCH_INTEGER_RANGE reads. -/
def readsInteger (idx : UInt16) (format : UInt8) : List ℕ :=
  let bytes := ((format &&& 63).toNat + 1 + 8 - 1) / 8
  let i := if format &&& 0x80 = 0 then idx.toNat + (8 - bytes) else idx.toNat
  if i + bytes ≤ c.frame.frameLen then span i bytes else []

/-- What a match reads. -/
def matchReads : Match → List ℕ
  | .ipv4Source _ _ => c.readsIPv4 12
  | .ipv4Dest _ _ => c.readsIPv4 16
  | .ipv6Source _ _ => c.readsIPv6 8
  | .ipv6Dest _ _ => c.readsIPv6 24
  | .ipTos _ _ _ => c.readsIpTos
  | .ipProtocol _ => c.readsIpProtocol
  | .icmp type _ flags => c.readsIcmp type flags
  | .ipSourcePortRange _ _ => c.readsPortRange 0
  | .ipDestPortRange _ _ => c.readsPortRange 2
  | .characteristics _ => c.readsSender ++ c.readsTcpFlags
  | .integerRange _ _ idx format => c.readsInteger idx format
  | _ => []

/-- The match that one turn of the loop evaluates, if any. -/
def evaluatedBy (r : Rule) (s : FilterState) : List Match :=
  match r.body with
  | .action _ => []
  | .entry m => if !s.thisSetMatches && !r.or then [] else [m]

/-- The matches that the loop evaluates. -/
def evaluatedFrom : ℕ → List Rule → FilterState → List Match
  | _, [], _ => []
  | rn, r :: rules, s =>
      evaluatedBy r s ++
        match c.ruleStep rn r s with
        | (_, some _) => []
        | (s', none) => evaluatedFrom (rn + 1) rules s'

/-- The matches that `_doZtFilter` evaluates. -/
def evaluated (rules : List Rule) (args : FilterArgs) : List Match :=
  c.evaluatedFrom 0 rules
    ⟨false, true, false, args.ztDest, args.cc, args.ccLength, args.ccWatch, args.qosBucket⟩

/-- The positions of `frameData` that `_doZtFilter` reads. -/
def reads (rules : List Rule) (args : FilterArgs) : List ℕ :=
  (c.evaluated rules args).flatMap c.matchReads

end FilterContext

/-! ### Inside the frame -/

namespace Frame

variable {f : Frame}

theorem mem_span {i n j : ℕ} (h : j ∈ span i n) : i ≤ j ∧ j < i + n := by
  obtain ⟨k, hk, rfl⟩ := List.mem_map.mp h
  have hlt := List.mem_range.mp hk
  exact ⟨Nat.le_add_right i k, by omega⟩

theorem isIPv4_le (h : f.isIPv4 = true) : 20 ≤ f.frameLen := by
  unfold isIPv4 at h
  rw [Bool.and_eq_true, decide_eq_true_eq] at h
  exact h.2

theorem isIPv6_le (h : f.isIPv6 = true) : 40 ≤ f.frameLen := by
  unfold isIPv6 at h
  rw [Bool.and_eq_true, decide_eq_true_eq] at h
  exact h.2

theorem walkReads_inside (pos proto : ℕ) : ∀ i ∈ f.walkReads pos proto, i < f.frameLen := by
  fun_induction f.walkReads pos proto with
  | case1 pos proto hpos hext hshort =>
      intro i hi
      cases hi
  | case2 pos proto hpos hext hlong ih =>
      intro i hi
      simp only [List.mem_cons] at hi
      rcases hi with rfl | rfl | hi
      · omega
      · omega
      · exact ih i hi
  | case3 pos proto hpos hext =>
      intro i hi
      cases hi
  | case4 pos proto hpos =>
      intro i hi
      cases hi

theorem payloadReads_inside : ∀ i ∈ f.payloadReads, i < f.frameLen := by
  intro i hi
  unfold payloadReads at hi
  split_ifs at hi with h
  · cases hi
  · rcases List.mem_cons.mp hi with rfl | hi
    · omega
    · exact walkReads_inside _ _ i hi

/-- **The walk ends**: every turn but the last goes on by eight bytes or more. -/
theorem walkSteps_eq {n pos : ℕ} (h : f.frameLen < pos + n) (proto : ℕ) :
    f.walkSteps n pos proto = if n = 0 then none else some (f.ipv6Walk pos proto) := by
  induction n generalizing pos proto with
  | zero => rfl
  | succ n ih =>
      rw [walkSteps, ipv6Walk, if_neg (Nat.succ_ne_zero n)]
      split_ifs with hpos hext hshort
      · rfl
      · rw [ih (by omega), if_neg (by omega)]
      · rfl
      · rfl

end Frame

namespace FilterContext

open ZGalaxy.Frame

variable {c : FilterContext}

theorem readsIPv4_inside {i : ℕ} (h : i + 4 ≤ 20) : ∀ j ∈ c.readsIPv4 i, j < c.frame.frameLen := by
  intro j hj
  unfold readsIPv4 at hj
  split_ifs at hj with hip
  · have hle := isIPv4_le hip
    have hlt := (mem_span hj).2
    omega
  · cases hj

theorem readsIPv6_inside {i : ℕ} (h : i + 16 ≤ 40) : ∀ j ∈ c.readsIPv6 i, j < c.frame.frameLen := by
  intro j hj
  unfold readsIPv6 at hj
  split_ifs at hj with hip
  · have hle := isIPv6_le hip
    have hlt := (mem_span hj).2
    omega
  · cases hj

theorem readsIpTos_inside : ∀ j ∈ c.readsIpTos, j < c.frame.frameLen := by
  intro j hj
  unfold readsIpTos at hj
  split_ifs at hj with h4 h6
  · have hle := isIPv4_le h4
    rw [List.mem_singleton.mp hj]
    omega
  · have hle := isIPv6_le h6
    simp only [List.mem_cons, List.not_mem_nil, or_false] at hj
    omega
  · cases hj

theorem readsIpProtocol_inside : ∀ j ∈ c.readsIpProtocol, j < c.frame.frameLen := by
  intro j hj
  unfold readsIpProtocol at hj
  split_ifs at hj with h4 h6
  · have hle := isIPv4_le h4
    rw [List.mem_singleton.mp hj]
    omega
  · exact payloadReads_inside j hj
  · cases hj

theorem readsIcmpAt_inside {type flags : UInt8} {pos : ℕ} (h : pos + 2 ≤ c.frame.frameLen) :
    ∀ j ∈ c.readsIcmpAt type flags pos, j < c.frame.frameLen := by
  intro j hj
  unfold readsIcmpAt at hj
  split_ifs at hj
  · simp only [List.mem_cons, List.not_mem_nil, or_false] at hj
    omega
  · rw [List.mem_singleton.mp hj]
    omega

theorem readsIcmp_inside (type flags : UInt8) :
    ∀ j ∈ c.readsIcmp type flags, j < c.frame.frameLen := by
  intro j hj
  unfold readsIcmp at hj
  dsimp only at hj
  split_ifs at hj with h4 hicmp hlen h6
  · have hle := isIPv4_le h4
    simp only [List.mem_cons] at hj
    rcases hj with rfl | rfl | hj
    · omega
    · omega
    · exact readsIcmpAt_inside hlen j hj
  · have hle := isIPv4_le h4
    simp only [List.mem_cons, List.not_mem_nil, or_false] at hj
    omega
  · have hle := isIPv4_le h4
    simp only [List.mem_cons, List.not_mem_nil, or_false] at hj
    omega
  · rcases List.mem_append.mp hj with hj | hj
    · exact payloadReads_inside j hj
    · cases hpayload : c.frame.ipv6GetPayload with
      | none =>
          rw [hpayload] at hj
          cases hj
      | some found =>
          rw [hpayload] at hj
          dsimp only at hj
          split_ifs at hj with hlen
          · exact readsIcmpAt_inside hlen.2 j hj
          · cases hj
  · cases hj

theorem readsPortRange_inside {offset : ℕ} (hoffset : offset ≤ 2) :
    ∀ j ∈ c.readsPortRange offset, j < c.frame.frameLen := by
  intro j hj
  unfold readsPortRange at hj
  dsimp only at hj
  split_ifs at hj with h4 hports h6
  · have hle := isIPv4_le h4
    simp only [List.mem_cons] at hj
    rcases hj with rfl | rfl | hj
    · omega
    · omega
    · have hlt := (mem_span hj).2
      omega
  · have hle := isIPv4_le h4
    simp only [List.mem_cons, List.not_mem_nil, or_false] at hj
    omega
  · rcases List.mem_append.mp hj with hj | hj
    · exact payloadReads_inside j hj
    · cases hpayload : c.frame.ipv6GetPayload with
      | none =>
          rw [hpayload] at hj
          cases hj
      | some found =>
          rw [hpayload] at hj
          dsimp only at hj
          split_ifs at hj with hlen
          · have hlt := (mem_span hj).2
            omega
          · cases hj
  · cases hj

theorem readsSender_inside : ∀ j ∈ c.readsSender, j < c.frame.frameLen := by
  intro j hj
  unfold readsSender at hj
  dsimp only at hj
  by_cases h4 : c.frame.isIPv4 = true
  · rw [if_pos h4] at hj
    have hle := isIPv4_le h4
    have hlt := (mem_span hj).2
    omega
  rw [if_neg h4] at hj
  by_cases h6 : c.frame.isIPv6 = true
  · rw [if_pos h6] at hj
    have hle := isIPv6_le h6
    rcases List.mem_append.mp hj with hj | hj
    · split_ifs at hj with hlong hicmp
      · simp only [List.mem_cons, List.not_mem_nil, or_false] at hj
        omega
      · simp only [List.mem_cons, List.not_mem_nil, or_false] at hj
        omega
      · cases hj
    · split_ifs at hj with hsol hadv
      · cases hj
      · have hlong : 40 + 8 + 16 ≤ c.frame.frameLen := by
          unfold isNeighborMessage at hadv
          simp only [Bool.and_eq_true, decide_eq_true_eq] at hadv
          exact hadv.1.1
        have hlt := (mem_span hj).2
        omega
      · have hlt := (mem_span hj).2
        omega
  rw [if_neg h6] at hj
  split_ifs at hj with harp
  · rw [Bool.and_eq_true, decide_eq_true_eq] at harp
    have hlt := (mem_span hj).2
    omega
  · cases hj

/-- **TCP flags** are read inside the frame unless it is too short for them. -/
theorem readsTcpFlags_inside_iff :
    (∀ j ∈ c.readsTcpFlags, j < c.frame.frameLen) ↔ ¬ c.frame.ShortTcp := by
  unfold readsTcpFlags ShortTcp
  dsimp only
  by_cases h4 : c.frame.isIPv4 = true
  · rw [if_pos h4]
    have hle := isIPv4_le h4
    by_cases htcp : c.frame.frameData 9 = 6
    · rw [if_pos htcp]
      simp only [List.forall_mem_cons, List.not_mem_nil, IsEmpty.forall_iff, implies_true, and_true,
        h4, htcp, true_and, Nat.not_le]
      omega
    · rw [if_neg htcp]
      refine iff_of_true (fun j hj => ?_) fun h => htcp h.2.1
      rw [List.mem_singleton.mp hj]
      omega
  · rw [if_neg h4]
    refine iff_of_true (fun j hj => ?_) fun h => h4 h.1
    split_ifs at hj with h6
    · rcases List.mem_append.mp hj with hj | hj
      · exact payloadReads_inside j hj
      · cases hpayload : c.frame.ipv6GetPayload with
        | none =>
            rw [hpayload] at hj
            cases hj
        | some found =>
            rw [hpayload] at hj
            dsimp only at hj
            split_ifs at hj with hlen
            · simp only [List.mem_cons, List.not_mem_nil, or_false] at hj
              omega
            · cases hj
    · cases hj

theorem readsInteger_inside (idx : UInt16) (format : UInt8) :
    ∀ j ∈ c.readsInteger idx format, j < c.frame.frameLen := by
  intro j hj
  unfold readsInteger at hj
  dsimp only at hj
  by_cases h : (if format &&& 0x80 = 0 then idx.toNat + (8 - ((format &&& 63).toNat + 1 + 8 - 1) / 8)
      else idx.toNat) + ((format &&& 63).toNat + 1 + 8 - 1) / 8 ≤ c.frame.frameLen
  · rw [if_pos h] at hj
    exact (mem_span hj).2.trans_le h
  · rw [if_neg h] at hj
    cases hj

/-- **One match** reads inside the frame, unless it is one of the characteristics and the frame is
too short for its TCP flags. -/
theorem matchReads_inside_iff (m : Match) :
    (∀ j ∈ c.matchReads m, j < c.frame.frameLen) ↔
      ¬ (c.frame.ShortTcp ∧ ∃ flags, m = .characteristics flags) := by
  cases m with
  | characteristics flags =>
      show (∀ j ∈ c.readsSender ++ c.readsTcpFlags, j < c.frame.frameLen) ↔ _
      rw [List.forall_mem_append, readsTcpFlags_inside_iff]
      constructor
      · rintro ⟨-, h⟩ ⟨hshort, -⟩
        exact h hshort
      · intro h
        exact ⟨readsSender_inside, fun hshort => h ⟨hshort, flags, rfl⟩⟩
  | ipv4Source _ _ => exact iff_of_true (readsIPv4_inside (by decide)) fun h => nomatch h.2.choose_spec
  | ipv4Dest _ _ => exact iff_of_true (readsIPv4_inside (by decide)) fun h => nomatch h.2.choose_spec
  | ipv6Source _ _ => exact iff_of_true (readsIPv6_inside (by decide)) fun h => nomatch h.2.choose_spec
  | ipv6Dest _ _ => exact iff_of_true (readsIPv6_inside (by decide)) fun h => nomatch h.2.choose_spec
  | ipTos _ _ _ => exact iff_of_true readsIpTos_inside fun h => nomatch h.2.choose_spec
  | ipProtocol _ => exact iff_of_true readsIpProtocol_inside fun h => nomatch h.2.choose_spec
  | icmp type _ flags =>
      exact iff_of_true (readsIcmp_inside type flags) fun h => nomatch h.2.choose_spec
  | ipSourcePortRange _ _ =>
      exact iff_of_true (readsPortRange_inside (by decide)) fun h => nomatch h.2.choose_spec
  | ipDestPortRange _ _ =>
      exact iff_of_true (readsPortRange_inside (by decide)) fun h => nomatch h.2.choose_spec
  | integerRange _ _ idx format =>
      exact iff_of_true (readsInteger_inside idx format) fun h => nomatch h.2.choose_spec
  | _ => exact iff_of_true (fun j hj => nomatch hj) fun h => nomatch h.2.choose_spec

end FilterContext

/-! ### Nothing else is read -/

namespace Frame

variable {f : Frame} {d : ℕ → UInt8}

theorem byte_withMemory {i : ℕ} (h : d i = f.frameData i) : (f.withMemory d).byte i = f.byte i :=
  congrArg UInt8.toNat h

theorem beAt_withMemory {n i : ℕ} (h : ∀ j ∈ span i n, d j = f.frameData j) :
    (f.withMemory d).beAt n i = f.beAt n i := by
  unfold beAt
  apply congrArg beNat
  apply List.map_congr_left
  intro k hk
  exact h (i + k) (List.mem_map.mpr ⟨k, hk, rfl⟩)

theorem walk_withMemory (pos proto : ℕ) (h : ∀ j ∈ f.walkReads pos proto, d j = f.frameData j) :
    (f.withMemory d).ipv6Walk pos proto = f.ipv6Walk pos proto := by
  fun_induction f.walkReads pos proto with
  | case1 pos proto hpos hext hshort =>
      rw [ipv6Walk.eq_def f, ipv6Walk.eq_def (f.withMemory d)]
      show (if pos ≤ f.frameLen then _ else _) = _
      rw [if_pos hpos, if_pos hext, if_pos hpos, if_pos hext]
      show (if f.frameLen < pos + 8 then _ else _) = _
      rw [if_pos hshort, if_pos hshort]
  | case2 pos proto hpos hext hlong ih =>
      have hproto := byte_withMemory (h pos List.mem_cons_self)
      have hsize := byte_withMemory (h (pos + 1) (List.mem_cons_of_mem _ List.mem_cons_self))
      have hnext := ih fun j hj => h j (List.mem_cons_of_mem _ (List.mem_cons_of_mem _ hj))
      rw [ipv6Walk.eq_def f, ipv6Walk.eq_def (f.withMemory d)]
      show (if pos ≤ f.frameLen then _ else _) = _
      rw [if_pos hpos, if_pos hext, if_pos hpos, if_pos hext]
      show (if f.frameLen < pos + 8 then _ else _) = _
      rw [if_neg hlong, if_neg hlong, hproto, hsize]
      exact hnext
  | case3 pos proto hpos hext =>
      rw [ipv6Walk.eq_def f, ipv6Walk.eq_def (f.withMemory d)]
      show (if pos ≤ f.frameLen then _ else _) = _
      rw [if_pos hpos, if_neg hext, if_pos hpos, if_neg hext]
  | case4 pos proto hpos =>
      rw [ipv6Walk.eq_def f, ipv6Walk.eq_def (f.withMemory d)]
      show (if pos ≤ f.frameLen then _ else _) = _
      rw [if_neg hpos, if_neg hpos]

theorem getPayload_withMemory (h : ∀ j ∈ f.payloadReads, d j = f.frameData j) :
    (f.withMemory d).ipv6GetPayload = f.ipv6GetPayload := by
  unfold payloadReads at h
  unfold ipv6GetPayload
  show (if f.frameLen < 40 then none else _) = _
  split_ifs at h ⊢ with hshort
  · rfl
  · rw [byte_withMemory (h 6 List.mem_cons_self)]
    exact walk_withMemory 40 _ fun j hj => h j (List.mem_cons_of_mem 6 hj)

end Frame

namespace FilterContext

open ZGalaxy.Frame

variable {c : FilterContext} {d : ℕ → UInt8}

/-- The same call, with another memory. -/
def withMemory (c : FilterContext) (d : ℕ → UInt8) : FilterContext :=
  { c with frame := c.frame.withMemory d }

theorem matchIPv4_withMemory {i : ℕ} (h : ∀ j ∈ c.readsIPv4 i, d j = c.frame.frameData j)
    (hardNo : Bool) (ip : BitVec 32) (mask : UInt8) :
    (c.withMemory d).matchIPv4 hardNo ip mask i = c.matchIPv4 hardNo ip mask i := by
  unfold readsIPv4 at h
  unfold matchIPv4
  show (if c.frame.isIPv4 then _ else _) = _
  split_ifs at h ⊢
  · unfold ip4At
    show InetAddress.containsAddress _
      (.v4 (BitVec.ofNat 32 ((c.frame.withMemory d).beAt 4 i)) 0) = _
    rw [beAt_withMemory h]
  · rfl

theorem matchIPv6_withMemory {i : ℕ} (h : ∀ j ∈ c.readsIPv6 i, d j = c.frame.frameData j)
    (hardNo : Bool) (ip : BitVec 128) (mask : UInt8) :
    (c.withMemory d).matchIPv6 hardNo ip mask i = c.matchIPv6 hardNo ip mask i := by
  unfold readsIPv6 at h
  unfold matchIPv6
  show (if c.frame.isIPv6 then _ else _) = _
  split_ifs at h ⊢
  · unfold ip6At
    show InetAddress.containsAddress _
      (.v6 (BitVec.ofNat 128 ((c.frame.withMemory d).beAt 16 i)) 0) = _
    rw [beAt_withMemory h]
  · rfl

theorem matchIpTos_withMemory (h : ∀ j ∈ c.readsIpTos, d j = c.frame.frameData j)
    (hardNo : Bool) (mask value₀ value₁ : UInt8) :
    (c.withMemory d).matchIpTos hardNo mask value₀ value₁
      = c.matchIpTos hardNo mask value₀ value₁ := by
  unfold readsIpTos at h
  unfold matchIpTos
  dsimp only
  show (if c.frame.isIPv4 then _ else if c.frame.isIPv6 then _ else _) = _
  split_ifs at h ⊢
  · show (decide (value₀ ≤ d 1 &&& mask) && decide (d 1 &&& mask ≤ value₁)) = _
    rw [h 1 List.mem_cons_self]
  · show (decide
      (value₀ ≤ ((d 0 <<< (4 : UInt8)) &&& 0xf0 ||| (d 1 >>> (4 : UInt8)) &&& 0x0f) &&& mask)
      && decide
        (((d 0 <<< (4 : UInt8)) &&& 0xf0 ||| (d 1 >>> (4 : UInt8)) &&& 0x0f) &&& mask ≤ value₁)) = _
    rw [h 0 List.mem_cons_self, h 1 (List.mem_cons_of_mem 0 List.mem_cons_self)]
  · rfl

theorem matchIpProtocol_withMemory (h : ∀ j ∈ c.readsIpProtocol, d j = c.frame.frameData j)
    (hardNo : Bool) (ipProtocol : UInt8) :
    (c.withMemory d).matchIpProtocol hardNo ipProtocol = c.matchIpProtocol hardNo ipProtocol := by
  unfold readsIpProtocol at h
  unfold matchIpProtocol
  dsimp only
  show (if c.frame.isIPv4 then ipProtocol == d 9
    else if c.frame.etherType == etherTypeIPv6 then
      match (c.frame.withMemory d).ipv6GetPayload with
      | some (_, proto) => ipProtocol == UInt8.ofNat proto
      | none => hardNo
    else hardNo) = _
  split_ifs at h ⊢
  · rw [h 9 List.mem_cons_self]
  · have hpayload := getPayload_withMemory h
    rcases hfound : c.frame.ipv6GetPayload with - | ⟨pos, proto⟩
    · simp only [hpayload, hfound]
    · simp only [hpayload, hfound]
  · rfl

theorem matchIcmpAt_withMemory {type flags : UInt8} {pos : ℕ}
    (h : ∀ j ∈ c.readsIcmpAt type flags pos, d j = c.frame.frameData j) (hardNo hardYes : Bool)
    (code : UInt8) :
    (c.withMemory d).matchIcmpAt hardNo hardYes type code flags pos
      = c.matchIcmpAt hardNo hardYes type code flags pos := by
  have hpos : d pos = c.frame.frameData pos := by
    unfold readsIcmpAt at h
    split_ifs at h
    · exact h pos List.mem_cons_self
    · exact h pos List.mem_cons_self
  unfold matchIcmpAt
  show (if type = d pos then if flags &&& 1 ≠ 0 then d (pos + 1) == code else hardYes else hardNo) = _
  rw [hpos]
  unfold readsIcmpAt at h
  split_ifs with htype hflags
  · rw [if_pos ⟨htype, hflags⟩] at h
    rw [h (pos + 1) (List.mem_cons_of_mem pos List.mem_cons_self)]
  · rfl
  · rfl

theorem headerLen_withMemory (h : d 0 = c.frame.frameData 0) :
    (c.frame.withMemory d).headerLen = c.frame.headerLen := by
  unfold headerLen
  rw [byte_withMemory h]

theorem matchIcmp_withMemory {type flags : UInt8}
    (h : ∀ j ∈ c.readsIcmp type flags, d j = c.frame.frameData j) (hardNo hardYes : Bool)
    (code : UInt8) :
    (c.withMemory d).matchIcmp hardNo hardYes type code flags
      = c.matchIcmp hardNo hardYes type code flags := by
  unfold readsIcmp at h
  unfold matchIcmp
  dsimp only at h ⊢
  show (if c.frame.isIPv4 then
      if d 9 = 1 then
        if (c.frame.withMemory d).headerLen + 2 ≤ c.frame.frameLen then
          (c.withMemory d).matchIcmpAt hardNo hardYes type code flags
            (c.frame.withMemory d).headerLen
        else hardNo
      else hardNo
    else if c.frame.etherType == etherTypeIPv6 then
      match (c.frame.withMemory d).ipv6GetPayload with
      | some (pos, proto) =>
          if proto = 0x3a ∧ pos + 2 ≤ c.frame.frameLen then
            (c.withMemory d).matchIcmpAt hardNo hardYes type code flags pos
          else hardNo
      | none => hardNo
    else hardNo) = _
  by_cases h4 : c.frame.isIPv4 = true
  · rw [if_pos h4] at h ⊢
    rw [if_pos h4, h 9 List.mem_cons_self]
    by_cases hicmp : c.frame.frameData 9 = 1
    · rw [if_pos hicmp] at h ⊢
      rw [if_pos hicmp, headerLen_withMemory (h 0 (by simp))]
      split_ifs at h ⊢
      · exact matchIcmpAt_withMemory (fun j hj => h j (by simp [hj])) hardNo hardYes code
      · rfl
    · rw [if_neg hicmp, if_neg hicmp]
  rw [if_neg h4] at h ⊢
  rw [if_neg h4]
  split_ifs at h ⊢ with h6
  · rw [getPayload_withMemory fun j hj => h j (List.mem_append_left _ hj)]
    cases hpayload : c.frame.ipv6GetPayload with
    | none => rfl
    | some found =>
        rw [hpayload] at h
        dsimp only at h ⊢
        split_ifs at h ⊢
        · exact matchIcmpAt_withMemory (fun j hj => h j (List.mem_append_right _ hj)) hardNo hardYes
            code
        · rfl
  · rfl

theorem matchPortRange_withMemory {offset : ℕ}
    (h : ∀ j ∈ c.readsPortRange offset, d j = c.frame.frameData j) (hardNo : Bool)
    (port₀ port₁ : UInt16) :
    (c.withMemory d).matchPortRange hardNo port₀ port₁ offset
      = c.matchPortRange hardNo port₀ port₁ offset := by
  unfold readsPortRange at h
  unfold matchPortRange
  dsimp only at h ⊢
  show (if c.frame.isIPv4 then
      if hasPorts ((c.frame.withMemory d).byte 9)
          ∧ (c.frame.withMemory d).headerLen + 4 < c.frame.frameLen then
        decide (port₀.toNat ≤
          (c.frame.withMemory d).beAt 2 ((c.frame.withMemory d).headerLen + offset))
          && decide ((c.frame.withMemory d).beAt 2 ((c.frame.withMemory d).headerLen + offset)
            ≤ port₁.toNat)
      else false
    else if c.frame.etherType == etherTypeIPv6 then
      match (c.frame.withMemory d).ipv6GetPayload with
      | some (pos, proto) =>
          if hasPorts proto ∧ pos + 4 < c.frame.frameLen then
            decide (0 < (c.frame.withMemory d).beAt 2 (pos + offset))
              && (decide (port₀.toNat ≤ (c.frame.withMemory d).beAt 2 (pos + offset))
                && decide ((c.frame.withMemory d).beAt 2 (pos + offset) ≤ port₁.toNat))
          else false
      | none => hardNo
    else hardNo) = _
  by_cases h4 : c.frame.isIPv4 = true
  · rw [if_pos h4] at h ⊢
    rw [if_pos h4, headerLen_withMemory (h 0 (by simp)), byte_withMemory (h 9 (by simp))]
    split_ifs at h ⊢
    · rw [beAt_withMemory fun j hj => h j (by simp [hj])]
    · rfl
  rw [if_neg h4] at h ⊢
  rw [if_neg h4]
  split_ifs at h ⊢ with h6
  · rw [getPayload_withMemory fun j hj => h j (List.mem_append_left _ hj)]
    cases hpayload : c.frame.ipv6GetPayload with
    | none => rfl
    | some found =>
        rw [hpayload] at h
        dsimp only at h ⊢
        split_ifs at h ⊢
        · rw [beAt_withMemory fun j hj => h j (List.mem_append_right _ hj)]
        · rfl
  · rfl

theorem senderAddress_withMemory (h : ∀ j ∈ c.readsSender, d j = c.frame.frameData j) :
    (c.withMemory d).senderAddress = c.senderAddress ∧
      (c.withMemory d).isSolicitation = c.isSolicitation := by
  unfold readsSender at h
  unfold senderAddress isSolicitation
  dsimp only at h ⊢
  by_cases h4 : c.frame.isIPv4 = true
  · have h4' : (c.withMemory d).frame.isIPv4 = true := h4
    rw [if_pos h4] at h
    rw [if_pos h4, if_pos h4', h4, h4']
    refine ⟨?_, rfl⟩
    unfold ip4At
    show InetAddress.v4 (BitVec.ofNat 32 ((c.frame.withMemory d).beAt 4 12)) 0 = _
    rw [beAt_withMemory h]
  have h4' : ¬ (c.withMemory d).frame.isIPv4 = true := h4
  rw [if_neg h4] at h
  rw [if_neg h4, if_neg h4', Bool.eq_false_iff.mpr h4, Bool.eq_false_iff.mpr h4']
  by_cases h6 : c.frame.isIPv6 = true
  · have h6' : (c.withMemory d).frame.isIPv6 = true := h6
    rw [if_pos h6] at h
    rw [if_pos h6, if_pos h6', h6, h6']
    -- what kind of neighbor message it is
    have hmessage : ∀ type, (c.withMemory d).isNeighborMessage type = c.isNeighborMessage type := by
      intro type
      unfold isNeighborMessage
      dsimp only
      show (decide (40 + 8 + 16 ≤ c.frame.frameLen) && d 6 == 0x3a && d 40 == type) = _
      by_cases hlong : 40 + 8 + 16 ≤ c.frame.frameLen
      · rw [if_pos hlong] at h
        rw [h 6 (List.mem_append_left _ List.mem_cons_self)]
        by_cases hicmp : c.frame.frameData 6 = 0x3a
        · rw [if_pos hicmp] at h
          rw [h 40 (by simp)]
        · have hne : (c.frame.frameData 6 == 0x3a) = false := beq_eq_false_iff_ne.mpr hicmp
          rw [hne, Bool.and_false, Bool.false_and, Bool.false_and]
      · rw [decide_eq_false hlong, Bool.false_and, Bool.false_and, Bool.false_and, Bool.false_and]
    rw [hmessage, hmessage]
    refine ⟨?_, rfl⟩
    have hright := fun j hj => h j (List.mem_append_right _ hj)
    split_ifs at hright ⊢
    · rfl
    · unfold ip6At
      show InetAddress.v6 (BitVec.ofNat 128 ((c.frame.withMemory d).beAt 16 (40 + 8))) 0 = _
      rw [beAt_withMemory hright]
    · unfold ip6At
      show InetAddress.v6 (BitVec.ofNat 128 ((c.frame.withMemory d).beAt 16 8)) 0 = _
      rw [beAt_withMemory hright]
  have h6' : ¬ (c.withMemory d).frame.isIPv6 = true := h6
  rw [if_neg h6] at h
  rw [if_neg h6, if_neg h6', Bool.eq_false_iff.mpr h6, Bool.eq_false_iff.mpr h6']
  refine ⟨?_, rfl⟩
  show (if c.frame.etherType == etherTypeArp && decide (28 ≤ c.frame.frameLen) then
    (c.frame.withMemory d).ip4At 14 else InetAddress.nil) = _
  split_ifs at h ⊢
  · unfold ip4At
    rw [beAt_withMemory h]
  · rfl

theorem tcpFlags_withMemory (h : ∀ j ∈ c.readsTcpFlags, d j = c.frame.frameData j) :
    (c.withMemory d).tcpFlags = c.tcpFlags := by
  -- two bytes of the header, wherever it begins
  have hat : ∀ pos, d (pos + 13) = c.frame.frameData (pos + 13) →
      d (pos + 12) = c.frame.frameData (pos + 12) →
      (c.withMemory d).tcpFlagsAt pos = c.tcpFlagsAt pos := by
    intro pos h13 h12
    unfold tcpFlagsAt
    show BitVec.ofNat 64 ((c.frame.withMemory d).byte (pos + 13))
      ||| (BitVec.ofNat 64 ((c.frame.withMemory d).byte (pos + 12) &&& 0x0f) <<< 8) = _
    rw [byte_withMemory h13, byte_withMemory h12]
  unfold readsTcpFlags at h
  unfold tcpFlags
  dsimp only at h ⊢
  show (if c.frame.isIPv4 && d 9 == 0x06 then
      (c.withMemory d).tcpFlagsAt (c.frame.withMemory d).headerLen
    else if c.frame.etherType == etherTypeIPv6 then
      match (c.frame.withMemory d).ipv6GetPayload with
      | some (pos, proto) =>
          if proto = 0x06 ∧ pos + 14 < c.frame.frameLen then (c.withMemory d).tcpFlagsAt pos else 0
      | none => 0
    else 0) = _
  by_cases h4 : c.frame.isIPv4 = true
  · rw [if_pos h4] at h
    rw [h4, Bool.true_and, Bool.true_and, h 9 List.mem_cons_self]
    -- a frame is not of both kinds
    have hno : (c.frame.etherType == etherTypeIPv6) = false := by
      unfold isIPv4 at h4
      rw [Bool.and_eq_true, beq_iff_eq] at h4
      rw [h4.1]
      rfl
    rw [hno]
    by_cases htcp : c.frame.frameData 9 = 6
    · rw [if_pos htcp] at h
      rw [if_pos (beq_iff_eq.mpr htcp), if_pos (beq_iff_eq.mpr htcp),
        headerLen_withMemory (h 0 (by simp))]
      exact hat _ (h _ (by simp)) (h _ (by simp))
    · rw [if_neg fun hb => htcp (beq_iff_eq.mp hb), if_neg fun hb => htcp (beq_iff_eq.mp hb)]
      rfl
  rw [if_neg h4] at h
  rw [Bool.eq_false_iff.mpr h4, Bool.false_and, Bool.false_and, if_neg Bool.false_ne_true,
    if_neg Bool.false_ne_true]
  split_ifs at h ⊢ with h6
  · rw [getPayload_withMemory fun j hj => h j (List.mem_append_left _ hj)]
    cases hpayload : c.frame.ipv6GetPayload with
    | none => rfl
    | some found =>
        rw [hpayload] at h
        dsimp only at h ⊢
        split_ifs at h ⊢
        · exact hat _ (h _ (List.mem_append_right _ (by simp)))
            (h _ (List.mem_append_right _ (by simp)))
        · rfl
  · rfl

theorem characteristics_withMemory
    (h : ∀ j ∈ c.readsSender ++ c.readsTcpFlags, d j = c.frame.frameData j) :
    (c.withMemory d).characteristics = c.characteristics := by
  obtain ⟨hsender, hsolicitation⟩ :=
    senderAddress_withMemory fun j hj => h j (List.mem_append_left _ hj)
  have htcp := tcpFlags_withMemory fun j hj => h j (List.mem_append_right _ hj)
  have howned : (c.withMemory d).senderIpOwned = c.senderIpOwned := by
    unfold senderIpOwned
    rw [hsender]
    rfl
  unfold characteristics ownershipVerificationMask
  rw [hsolicitation, howned, htcp]
  rfl

theorem integerAt_withMemory {idx : UInt16} {format : UInt8}
    (h : ∀ j ∈ c.readsInteger idx format, d j = c.frame.frameData j) :
    (c.withMemory d).integerAt idx format = c.integerAt idx format := by
  unfold readsInteger at h
  unfold integerAt
  dsimp only at h ⊢
  by_cases hbig : format &&& 0x80 = 0
  · rw [if_pos hbig] at h
    rw [if_pos hbig, if_pos hbig]
    show (if _ ≤ c.frame.frameLen then UInt64.ofNat ((c.frame.withMemory d).beAt _ _) else 0) &&& _ = _
    split_ifs at h ⊢
    · rw [beAt_withMemory h]
    · rfl
  · rw [if_neg hbig] at h
    rw [if_neg hbig, if_neg hbig]
    show (if _ ≤ c.frame.frameLen then (List.range _).foldl (fun (acc : UInt64) k =>
      (acc >>> 8) ||| ((d (idx.toNat + k)).toUInt64 <<< 56)) 0 else 0) >>> _ = _
    split_ifs at h ⊢
    · refine congrArg (· >>> _) (List.foldl_ext _ _ 0 fun acc k hk => ?_)
      rw [h (idx.toNat + k) (List.mem_map.mpr ⟨k, hk, rfl⟩)]
    · rfl

/-- **What a match comes to** is up to the bytes it reads. -/
theorem evaluate_congr {m : Match} (h : ∀ j ∈ c.matchReads m, d j = c.frame.frameData j)
    (superAccept : Bool) (ztDest : Address) (rn : ℕ) (neg : Bool) :
    (c.withMemory d).evaluate superAccept ztDest rn neg m =
    c.evaluate superAccept ztDest rn neg m := by
  cases m with
  | ipv4Source ip mask => exact congrArg Evaluation.of (matchIPv4_withMemory h neg ip mask)
  | ipv4Dest ip mask => exact congrArg Evaluation.of (matchIPv4_withMemory h neg ip mask)
  | ipv6Source ip mask => exact congrArg Evaluation.of (matchIPv6_withMemory h neg ip mask)
  | ipv6Dest ip mask => exact congrArg Evaluation.of (matchIPv6_withMemory h neg ip mask)
  | ipTos mask v₀ v₁ => exact congrArg Evaluation.of (matchIpTos_withMemory h neg mask v₀ v₁)
  | ipProtocol p => exact congrArg Evaluation.of (matchIpProtocol_withMemory h neg p)
  | icmp type code flags => exact congrArg Evaluation.of (matchIcmp_withMemory h neg (!neg) code)
  | ipSourcePortRange p₀ p₁ => exact congrArg Evaluation.of (matchPortRange_withMemory h neg p₀ p₁)
  | ipDestPortRange p₀ p₁ => exact congrArg Evaluation.of (matchPortRange_withMemory h neg p₀ p₁)
  | characteristics flags =>
      show Evaluation.of ((c.withMemory d).characteristics &&& flags != 0) = _
      rw [characteristics_withMemory h]
      rfl
  | integerRange start end_ idx format =>
      show Evaluation.of (decide (start ≤ (c.withMemory d).integerAt idx format)
        && decide ((c.withMemory d).integerAt idx format ≤ start + end_.toUInt64)) = _
      rw [integerAt_withMemory h]
      rfl
  | _ => rfl

/-! ### The whole list -/

theorem ruleStep_withMemory {rn : ℕ} {r : Rule} {s : FilterState}
    (h : ∀ m ∈ evaluatedBy r s, ∀ j ∈ c.matchReads m, d j = c.frame.frameData j) :
    (c.withMemory d).ruleStep rn r s = c.ruleStep rn r s := by
  unfold evaluatedBy at h
  unfold ruleStep
  cases hbody : r.body with
  | action a => rfl
  | entry m =>
      rw [hbody] at h
      dsimp only at h ⊢
      split_ifs at h ⊢
      · rfl
      · unfold foldEntry
        rw [evaluate_congr (h m List.mem_cons_self)]

theorem runRules_withMemory (rules : List Rule) (rn : ℕ) (s : FilterState)
    (h : ∀ m ∈ c.evaluatedFrom rn rules s, ∀ j ∈ c.matchReads m, d j = c.frame.frameData j) :
    (c.withMemory d).runRules rn rules s = c.runRules rn rules s := by
  induction rules generalizing rn s with
  | nil => rfl
  | cons r rules ih =>
      rw [evaluatedFrom] at h
      have hstep : (c.withMemory d).ruleStep rn r s = c.ruleStep rn r s :=
        ruleStep_withMemory fun m hm => h m (List.mem_append_left _ hm)
      rw [runRules, runRules, hstep]
      rcases hs : c.ruleStep rn r s with ⟨s', result⟩
      rw [hs] at h
      cases result with
      | some result => rfl
      | none => exact ih (rn + 1) s' fun m hm => h m (List.mem_append_right _ hm)

variable (c) in
/-- **Reads are inside the frame**, for every rule list and every frame, unless the frame is a TCP
packet over IPv4 that ends before its flags and an entry on the characteristics is evaluated.
Where they are, nothing behind the frame has any influence.  The walk over extension headers always
ends. -/
theorem reads_inside_iff (rules : List Rule) (args : FilterArgs) :
    ((∀ i ∈ c.reads rules args, i < c.frame.frameLen) ↔
      ¬ (c.frame.ShortTcp ∧ ∃ flags, Match.characteristics flags ∈ c.evaluated rules args)) ∧
    ((∀ i ∈ c.reads rules args, i < c.frame.frameLen) →
      ∀ d : ℕ → UInt8, (∀ i < c.frame.frameLen, d i = c.frame.frameData i) →
        (c.withMemory d).doZtFilter rules args = c.doZtFilter rules args) ∧
    ∀ pos proto, c.frame.walkSteps (c.frame.frameLen + 1) pos proto
      = some (c.frame.ipv6Walk pos proto) := by
  refine ⟨?_, fun hinside d hd => ?_, fun pos proto => ?_⟩
  · have hmem : (∀ i ∈ c.reads rules args, i < c.frame.frameLen) ↔
        ∀ m ∈ c.evaluated rules args, ∀ i ∈ c.matchReads m, i < c.frame.frameLen := by
      unfold reads
      constructor
      · intro h m hm i hi
        exact h i (List.mem_flatMap.mpr ⟨m, hm, hi⟩)
      · intro h i hi
        obtain ⟨m, hm, hi⟩ := List.mem_flatMap.mp hi
        exact h m hm i hi
    rw [hmem]
    constructor
    · rintro h ⟨hshort, flags, hflags⟩
      exact (matchReads_inside_iff _).mp (h _ hflags) ⟨hshort, flags, rfl⟩
    · intro h m hm
      apply (matchReads_inside_iff m).mpr
      rintro ⟨hshort, flags, rfl⟩
      exact h ⟨hshort, flags, hm⟩
  · have hrun : ∀ s, (∀ m ∈ c.evaluatedFrom 0 rules s, m ∈ c.evaluated rules args) →
        (c.withMemory d).runRules 0 rules s = c.runRules 0 rules s := by
      intro s hs
      apply runRules_withMemory
      intro m hm j hj
      exact hd j (hinside j (List.mem_flatMap.mpr ⟨m, hs m hm, hj⟩))
    unfold doZtFilter
    rw [hrun _ fun m hm => hm]
  · rw [walkSteps_eq (by omega), if_neg (Nat.succ_ne_zero _)]

/-- A TCP packet over IPv4 that is cut off after its IP header. -/
def cutOff : FilterContext where
  ownAddress := 4
  nconf := NetworkConfig.none
  membership := none
  inbound := true
  ztSource := 5
  frame := ⟨1, 2, fun i => if i = 0 then 0x45 else if i = 9 then 6 else 0, 20, etherTypeIPv4, 0⟩
  prng := fun _ => 0

/-- **A read behind the frame**: of 20 bytes, the 34th is read for the TCP flags. -/
theorem reads_behind :
    33 ∈ cutOff.reads [⟨false, false, .entry (.characteristics 2)⟩] ⟨4, 0, 0, false, 255⟩ ∧
      cutOff.frame.frameLen = 20 := by
  refine ⟨?_, rfl⟩
  decide +kernel

end FilterContext

end ZGalaxy
