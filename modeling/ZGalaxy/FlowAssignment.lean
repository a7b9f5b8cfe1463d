/-
ZGalaxy/FlowAssignment.lean

Where a flow is assigned to.

Under `balance-xor` the bonded index of a flow is the rest of its id, and all that matters is that
the slot behind it still holds a path.  Under `balance-aware` a loop goes through the bonded indices
for a path of sufficient quality.  It does not go on from a slot without path, so that it may stay
there for ever; and where it comes to its end it settles for the index of the best quality, which is
behind the end of `_realIdxMap` if no quality exceeded 0.  A flow that is assigned again begins at
the slot that it had, taken for a bonded index.

The random byte that a path has to measure up to is 255 at worst (`le_fullCapacity`), and the bytes
of the turns may take the loop to one index again and again (`exists_bytes`).  So what the loop
finds whatever is drawn can be said of the bond alone (`FindsPath`).

Main result: `assignsWell_iff`.
-/
import ZGalaxy.BondRuns

namespace ZGalaxy

open PeerPaths

/-! ### Random link capacities -/

namespace FloatValue

theorem le_of_finite {x y : ℤ} {z : FloatValue} (hxy : x ≤ y) (hyz : (finite y).le z = true) :
    (finite x).le z = true := by
  rcases z with - | negative | z
  · cases hyz
  · exact hyz
  · exact decide_eq_true (hxy.trans (of_decide_eq_true hyz))

end FloatValue

/-- The capacity that a path has to measure up to at worst. -/
def fullCapacity : FloatValue := randomLinkCapacity 255

/-- No other byte asks for more. -/
theorem le_fullCapacity (e : UInt8) : (randomLinkCapacity e).le fullCapacity = true := by
  have hall : ∀ n : Fin 256, (randomLinkCapacity (UInt8.ofNat n.val)).le fullCapacity = true := by
    decide +kernel
  have h := hall ⟨e.toNat, e.toNat_lt⟩
  rwa [UInt8.ofNat_toNat] at h

namespace NominatedPath

/-- A path that measures up to the full capacity measures up to any. -/
theorem isAcceptable_of_full {np : NominatedPath} (h : np.isAcceptable fullCapacity = true)
    (e : UInt8) : np.isAcceptable (randomLinkCapacity e) = true := by
  obtain ⟨havoid, hle⟩ := Bool.and_eq_true_iff.mp h
  refine Bool.and_eq_true_iff.mpr ⟨havoid, ?_⟩
  exact FloatValue.le_of_finite (of_decide_eq_true (le_fullCapacity e)) hle

end NominatedPath

/-! ### What is asked of a bond -/

/-- A call left the flow at a slot that is bonded and holds a path. -/
def Assigned (out : Except BondFault (Option (Bond × Flow))) : Prop :=
  ∃ b flow i, out = .ok (some (b, flow)) ∧ flow.assignedPath = some i ∧
    (b.paths i).p.isSome = true ∧ (b.paths i).bonded = true

namespace Bond

/-- **Flow assignment ends with a usable path**, whatever random bytes are drawn: it comes to an
end, reads nothing behind the end, and leaves the flow at a slot that is bonded and holds a path. -/
def AssignsWell (b : Bond) (flow : Flow) (reassign : Bool) : Prop :=
  ∀ (now : Int64) (bytes : ℕ → UInt8), ∃ turns,
    Assigned (b.assignFlowToBondedPath flow now reassign ⟨bytes, turns⟩)

/-- The path with a bonded index is there and acceptable. -/
def acceptableAt (b : Bond) (capacity : FloatValue) (j : ℕ) : Bool :=
  (b.realIdx j).any fun i => (b.paths i).p.isSome && (b.paths i).isAcceptable capacity

/-- The path with a bonded index is of a quality above 0. -/
def goodAt (b : Bond) (j : ℕ) : Bool :=
  (b.realIdx j).any fun i => (FloatValue.finite 0).lt (b.paths i).relativeQuality

/-- The bonded index at an offset from a place. -/
def indexFrom (b : Bond) (place offset : ℕ) : ℕ := (place + offset) % b.numBondedPaths

/-- Every bonded index has its path. -/
def AllThere (b : Bond) : Prop := ∀ j < b.numBondedPaths, (b.bondedPath j).isSome = true

/-- For a flow that is assigned the first time: every index has its path, and may be settled for. -/
def FindsFirst (b : Bond) : Prop :=
  b.AllThere ∧ ∀ j < b.numBondedPaths, b.goodAt j = true ∨ b.acceptableAt fullCapacity j = true

/-- For a flow that is assigned again: the slot that it had is a bonded index as well, and from
there on an acceptable path comes before a slot without path, or there is no such slot and some path
is of a quality above 0. -/
def FindsAgain (b : Bond) (flow : Flow) : Prop :=
  (b.loggedSlot flow).isSome = true ∧
    ((∃ o < b.numBondedPaths, b.acceptableAt fullCapacity (b.indexFrom flow.pathIndex o) = true ∧
        ∀ o' < o, (b.bondedPath (b.indexFrom flow.pathIndex o')).isSome = true) ∨
      b.AllThere ∧ ∃ j < b.numBondedPaths, b.goodAt j = true)

/-- What a bond has to be like for a flow to be assigned well. -/
def FindsPath (b : Bond) (flow : Flow) (reassign : Bool) : Prop :=
  if b.settings.policy = .balanceXOR then (b.bondedPath (b.xorIdx flow)).isSome = true
  else if reassign then b.FindsAgain flow else b.FindsFirst

variable {b : Bond} {flow : Flow} {capacity : FloatValue} {first : ℕ → ℕ}

/-! ### One turn of the loop -/

theorem indexFrom_lt (hnum : b.numBondedPaths ≠ 0) (place offset : ℕ) :
    b.indexFrom place offset < b.numBondedPaths := Nat.mod_lt _ (Nat.pos_of_ne_zero hnum)

/-- Every index is at some offset. -/
theorem exists_indexFrom {j : ℕ} (hj : j < b.numBondedPaths) (place : ℕ) :
    ∃ o < b.numBondedPaths, b.indexFrom place o = j := by
  have hpos : 0 < b.numBondedPaths := Nat.zero_lt_of_lt hj
  have hrest := Nat.mod_lt place hpos
  refine ⟨(j + (b.numBondedPaths - place % b.numBondedPaths)) % b.numBondedPaths,
    Nat.mod_lt _ hpos, ?_⟩
  unfold indexFrom
  rw [Nat.add_mod_mod, ← Nat.mod_add_mod]
  have hsum : place % b.numBondedPaths + (j + (b.numBondedPaths - place % b.numBondedPaths)) =
      j + b.numBondedPaths := by omega
  rw [hsum, Nat.add_mod_right, Nat.mod_eq_of_lt hj]

theorem bondedPath_of_realIdx {i : PathSlot} {j : ℕ} (h : b.realIdx j = some i) :
    b.bondedPath j = (b.paths i).p := by
  unfold bondedPath
  rw [h]
  rfl

theorem acceptableAt_of_realIdx {i : PathSlot} {j : ℕ} (h : b.realIdx j = some i) :
    b.acceptableAt capacity j = ((b.paths i).p.isSome && (b.paths i).isAcceptable capacity) := by
  unfold acceptableAt
  rw [h]
  rfl

theorem goodAt_of_realIdx {i : PathSlot} {j : ℕ} (h : b.realIdx j = some i) :
    b.goodAt j = (FloatValue.finite 0).lt (b.paths i).relativeQuality := by
  unfold goodAt
  rw [h]
  rfl

/-- An acceptable path is there. -/
theorem isSome_of_acceptableAt {j : ℕ} (h : b.acceptableAt capacity j = true) :
    (b.bondedPath j).isSome = true := by
  rcases hreal : b.realIdx j with - | i
  · unfold acceptableAt at h
    rw [hreal] at h
    cases h
  · rw [acceptableAt_of_realIdx hreal] at h
    rw [bondedPath_of_realIdx hreal]
    exact (Bool.and_eq_true_iff.mp h).1

theorem acceptableAt_of_full {j : ℕ} (h : b.acceptableAt fullCapacity j = true) (e : UInt8) :
    b.acceptableAt (randomLinkCapacity e) j = true := by
  rcases hreal : b.realIdx j with - | i
  · unfold acceptableAt at h
    rw [hreal] at h
    cases h
  · rw [acceptableAt_of_realIdx hreal] at h ⊢
    obtain ⟨hp, hacc⟩ := Bool.and_eq_true_iff.mp h
    exact Bool.and_eq_true_iff.mpr ⟨hp, NominatedPath.isAcceptable_of_full hacc e⟩

section Turns

variable {i : PathSlot} {place : ℕ} {search : Search}
  (hreal : b.realIdx (b.indexFrom place search.offset) = some i)
include hreal

theorem searchTurn_eq : b.searchTurn capacity place search =
    if (b.paths i).p.isNone then .next search
    else if (b.paths i).isAcceptable capacity then .acceptable (b.indexFrom place search.offset)
    else .next (search.advance (b.indexFrom place search.offset) (b.paths i).relativeQuality) := by
  unfold searchTurn
  unfold indexFrom at hreal
  dsimp only
  rw [hreal]
  rfl

/-- At a slot without path the loop stays. -/
theorem searchTurn_missing (h : b.bondedPath (b.indexFrom place search.offset) = none) :
    b.searchTurn capacity place search = .next search := by
  rw [bondedPath_of_realIdx hreal] at h
  rw [searchTurn_eq hreal, h]
  rfl

/-- At an acceptable path it ends. -/
theorem searchTurn_acceptable
    (h : b.acceptableAt capacity (b.indexFrom place search.offset) = true) :
    b.searchTurn capacity place search = .acceptable (b.indexFrom place search.offset) := by
  rw [acceptableAt_of_realIdx hreal] at h
  obtain ⟨hp, hacc⟩ := Bool.and_eq_true_iff.mp h
  have hnone : ¬(b.paths i).p.isNone = true := by
    rw [Option.isNone_iff_eq_none, ← ne_eq, ← Option.isSome_iff_ne_none]
    exact hp
  rw [searchTurn_eq hreal, if_neg hnone, if_pos hacc]

/-- At another path it goes on. -/
theorem searchTurn_other
    (hsome : (b.bondedPath (b.indexFrom place search.offset)).isSome = true)
    (h : b.acceptableAt capacity (b.indexFrom place search.offset) = false) :
    b.searchTurn capacity place search =
      .next (search.advance (b.indexFrom place search.offset) (b.paths i).relativeQuality) := by
  rw [bondedPath_of_realIdx hreal] at hsome
  rw [acceptableAt_of_realIdx hreal, hsome, Bool.true_and] at h
  have hnone : ¬(b.paths i).p.isNone = true := by
    rw [Option.isNone_iff_eq_none, ← ne_eq, ← Option.isSome_iff_ne_none]
    exact hsome
  rw [searchTurn_eq hreal, if_neg hnone, if_neg (Bool.eq_false_iff.mp h)]

end Turns

end Bond

namespace Search

variable {search : Search} {j : ℕ} {quality : FloatValue}

theorem advance_offset (search : Search) (j : ℕ) (quality : FloatValue) :
    (search.advance j quality).offset = search.offset + 1 := by
  unfold advance
  split_ifs
  · rfl
  · rfl

/-- A better path is the next best one. -/
theorem advance_better (h : search.bestQuality.lt quality = true) :
    (search.advance j quality).nextBestQualIdx = j := by
  unfold advance
  rw [if_pos h]

theorem advance_of_not (h : search.bestQuality.lt quality = false) :
    search.advance j quality = { search with offset := search.offset + 1 } := by
  unfold advance
  rw [if_neg (Bool.eq_false_iff.mp h)]

theorem advance_next (search : Search) (j : ℕ) (quality : FloatValue) :
    (search.advance j quality).nextBestQualIdx = j ∨
      (search.advance j quality).nextBestQualIdx = search.nextBestQualIdx := by
  unfold advance
  split_ifs
  · exact Or.inl rfl
  · exact Or.inr rfl

end Search

/-! ### What the loop finds -/

namespace Bond

variable {b : Bond} {capacity : FloatValue} {first : ℕ → ℕ} {k turns j : ℕ}
  {search search' : Search}

theorem searchLoop_next (hlt : search.offset < b.numBondedPaths)
    (hturn : b.searchTurn capacity (first k) search = .next search') :
    b.searchLoop capacity first (turns + 1) k search =
      b.searchLoop capacity first turns (k + 1) search' := by
  rw [searchLoop, if_pos hlt, hturn]

theorem searchLoop_found (hlt : search.offset < b.numBondedPaths)
    (hturn : b.searchTurn capacity (first k) search = .acceptable j) :
    b.searchLoop capacity first (turns + 1) k search = .ok j := by
  rw [searchLoop, if_pos hlt, hturn]

theorem searchLoop_end (hle : ¬search.offset < b.numBondedPaths) :
    b.searchLoop capacity first (turns + 1) k search = .ok search.nextBestQualIdx := by
  rw [searchLoop, if_neg hle]

/-- The loop comes to an end, at the index of a path. -/
def Finds (b : Bond) (capacity : FloatValue) (first : ℕ → ℕ) (k : ℕ) (search : Search) : Prop :=
  ∃ turns j, b.searchLoop capacity first turns k search = .ok j ∧ j < b.numBondedPaths ∧
    (b.bondedPath j).isSome = true

theorem Finds.of_next (hlt : search.offset < b.numBondedPaths)
    (hturn : b.searchTurn capacity (first k) search = .next search')
    (h : b.Finds capacity first (k + 1) search') : b.Finds capacity first k search := by
  obtain ⟨turns, j, hloop, hj⟩ := h
  exact ⟨turns + 1, j, (searchLoop_next hlt hturn).trans hloop, hj⟩

section Loop

variable (hb : Numbered b) (hnum : b.numBondedPaths ≠ 0)
include hb hnum

theorem exists_realIdx (place offset : ℕ) :
    ∃ i, b.realIdx (b.indexFrom place offset) = some i :=
  Option.isSome_iff_exists.mp (hb.isSome _ (indexFrom_lt hnum place offset))

theorem finds_of_acceptable_here (hlt : search.offset < b.numBondedPaths)
    (h : b.acceptableAt capacity (b.indexFrom (first k) search.offset) = true) :
    b.Finds capacity first k search := by
  obtain ⟨i, hreal⟩ := exists_realIdx hb hnum (first k) search.offset
  have hloop : b.searchLoop capacity first 1 k search = .ok _ :=
    searchLoop_found hlt (searchTurn_acceptable hreal h)
  exact ⟨1, _, hloop, indexFrom_lt hnum _ _, isSome_of_acceptableAt h⟩

/-- With a next best path and all paths there, the loop finds one. -/
theorem finds_of_next (hall : b.AllThere) (n : ℕ) (hn : search.offset + n = b.numBondedPaths)
    (hbest : search.nextBestQualIdx < b.numBondedPaths) : b.Finds capacity first k search := by
  induction n generalizing k search with
  | zero =>
      have hloop : b.searchLoop capacity first 1 k search = .ok _ := searchLoop_end (by omega)
      exact ⟨1, _, hloop, hbest, hall _ hbest⟩
  | succ n ih =>
      have hlt : search.offset < b.numBondedPaths := by omega
      rcases hacc : b.acceptableAt capacity (b.indexFrom (first k) search.offset) with - | -
      · obtain ⟨i, hreal⟩ := exists_realIdx hb hnum (first k) search.offset
        have hidx := indexFrom_lt hnum (first k) search.offset
        refine Finds.of_next hlt (searchTurn_other hreal (hall _ hidx) hacc) (ih ?_ ?_)
        · rw [Search.advance_offset]
          omega
        · rcases search.advance_next (b.indexFrom (first k) search.offset)
            (b.paths i).relativeQuality with hnext | hnext
          · rw [hnext]
            exact hidx
          · rw [hnext]
            exact hbest
      · exact finds_of_acceptable_here hb hnum hlt hacc

/-- With all paths there, the loop finds one if it comes to one that it may settle for. -/
theorem finds_of_allThere (hall : b.AllThere) (n : ℕ)
    (hn : search.offset + n = b.numBondedPaths) (hk : search.offset = k)
    (hzero : search.bestQuality = .finite 0) {o : ℕ} (ho : o < b.numBondedPaths)
    (hle : search.offset ≤ o)
    (hok : b.goodAt (b.indexFrom (first o) o) = true ∨
      b.acceptableAt capacity (b.indexFrom (first o) o) = true) :
    b.Finds capacity first k search := by
  induction n generalizing k search with
  | zero => omega
  | succ n ih =>
      have hlt : search.offset < b.numBondedPaths := by omega
      rcases hacc : b.acceptableAt capacity (b.indexFrom (first k) search.offset) with - | -
      · obtain ⟨i, hreal⟩ := exists_realIdx hb hnum (first k) search.offset
        have hidx := indexFrom_lt hnum (first k) search.offset
        have hturn : b.searchTurn capacity (first k) search = .next _ :=
          searchTurn_other hreal (hall _ hidx) hacc
        refine Finds.of_next hlt hturn ?_
        rcases hgood : b.goodAt (b.indexFrom (first k) search.offset) with - | -
        · -- not here, so behind
          have hne : search.offset ≠ o := by
            intro heq
            rw [hk] at heq
            rw [hk, heq] at hgood hacc
            rcases hok with h | h
            · rw [hgood] at h
              cases h
            · rw [hacc] at h
              cases h
          rw [goodAt_of_realIdx hreal, ← hzero] at hgood
          rw [Search.advance_of_not hgood]
          exact ih (by dsimp only; omega) (congrArg (· + 1) hk) hzero (by dsimp only; omega)
        · rw [goodAt_of_realIdx hreal, ← hzero] at hgood
          refine finds_of_next hb hnum hall n ?_ ?_
          · rw [Search.advance_offset]
            omega
          · rw [Search.advance_better hgood]
            exact hidx
      · exact finds_of_acceptable_here hb hnum hlt hacc

/-- The loop finds an acceptable path that comes before a slot without path. -/
theorem finds_of_acceptable (n : ℕ) {o : ℕ} (hn : search.offset + n = o)
    (ho : o < b.numBondedPaths)
    (hacc : ∀ k, b.acceptableAt capacity (b.indexFrom (first k) o) = true)
    (hthere : ∀ k, ∀ o' < o, (b.bondedPath (b.indexFrom (first k) o')).isSome = true) :
    b.Finds capacity first k search := by
  induction n generalizing k search with
  | zero =>
      obtain rfl : search.offset = o := hn
      exact finds_of_acceptable_here hb hnum ho (hacc k)
  | succ n ih =>
      have hlt : search.offset < b.numBondedPaths := by omega
      rcases hhere : b.acceptableAt capacity (b.indexFrom (first k) search.offset) with - | -
      · obtain ⟨i, hreal⟩ := exists_realIdx hb hnum (first k) search.offset
        have hsome := hthere k search.offset (by omega)
        refine Finds.of_next hlt (searchTurn_other hreal hsome hhere) (ih ?_)
        rw [Search.advance_offset]
        omega
      · exact finds_of_acceptable_here hb hnum hlt hhere

/-! ### Where the loop finds nothing -/

/-- The loop never gets past a slot without path. -/
theorem searchLoop_running {o : ℕ} (ho : o < b.numBondedPaths)
    (hmissing : ∀ k, b.bondedPath (b.indexFrom (first k) o) = none)
    (hacc : ∀ k, ∀ o' < o, b.acceptableAt capacity (b.indexFrom (first k) o') = false)
    (turns : ℕ) (hle : search.offset ≤ o) :
    b.searchLoop capacity first turns k search = .error .running := by
  -- on the turns: the offset comes up to that slot, and its turn does not count
  induction turns generalizing k search with
  | zero => rfl
  | succ turns ih =>
      have hlt : search.offset < b.numBondedPaths := by omega
      obtain ⟨i, hreal⟩ := exists_realIdx hb hnum (first k) search.offset
      rcases hpath : b.bondedPath (b.indexFrom (first k) search.offset) with - | path
      · exact (searchLoop_next hlt (searchTurn_missing hreal hpath)).trans (ih hle)
      · have hne : search.offset ≠ o := by
          rintro rfl
          rw [hmissing k] at hpath
          cases hpath
        have hbefore : search.offset < o := by omega
        have hturn : b.searchTurn capacity (first k) search = .next _ :=
          searchTurn_other hreal (Option.isSome_iff_exists.mpr ⟨path, hpath⟩) (hacc k _ hbefore)
        refine (searchLoop_next hlt hturn).trans (ih ?_)
        rw [Search.advance_offset]
        omega

/-- Where no path that the loop comes to may be settled for, no index is set. -/
theorem searchLoop_unset
    (hnot : ∀ m < b.numBondedPaths, (b.bondedPath (b.indexFrom (first m) m)).isSome = true ∧
      b.acceptableAt capacity (b.indexFrom (first m) m) = false ∧
        b.goodAt (b.indexFrom (first m) m) = false) (turns k : ℕ) :
    b.searchLoop capacity first turns k ⟨k, .finite 0, maxPeerNetworkPaths⟩ = .error .running ∨
      b.searchLoop capacity first turns k ⟨k, .finite 0, maxPeerNetworkPaths⟩ =
        .ok maxPeerNetworkPaths := by
  induction turns generalizing k with
  | zero => exact Or.inl rfl
  | succ turns ih =>
      by_cases hlt : k < b.numBondedPaths
      · obtain ⟨hsome, hacc, hgood⟩ := hnot k hlt
        obtain ⟨i, hreal⟩ := exists_realIdx hb hnum (first k) k
        rw [goodAt_of_realIdx hreal] at hgood
        have hturn : b.searchTurn capacity (first k) ⟨k, .finite 0, maxPeerNetworkPaths⟩ =
            .next ⟨k + 1, .finite 0, maxPeerNetworkPaths⟩ := by
          rw [searchTurn_other hreal hsome hacc, Search.advance_of_not hgood]
        rw [searchLoop_next hlt hturn]
        exact ih (k + 1)
      · exact Or.inr (searchLoop_end hlt)

end Loop

/-! ### The call -/

variable {flow : Flow} {now : Int64} {reassign : Bool} {entropy : Entropy} {bytes : ℕ → UInt8}

/-- A flow is assigned to the slot behind a bonded index exactly if there is a path. -/
theorem assigned_assignTo_iff (hb : Numbered b) (hj : j < b.numBondedPaths) :
    Assigned ((b.assignTo flow now (b.realIdx j)).map some) ↔ (b.bondedPath j).isSome = true := by
  obtain ⟨i, hreal⟩ := Option.isSome_iff_exists.mp (hb.isSome j hj)
  obtain ⟨-, -, -, -, huse⟩ := b.sameBonding_countFlow i
  rw [hreal, bondedPath_of_realIdx hreal]
  constructor
  · rintro ⟨b', flow', i', hout, hassigned, hp, -⟩
    obtain ⟨rfl, rfl⟩ := Prod.mk.inj (Option.some.inj (Except.ok.inj hout))
    obtain rfl := Option.some.inj hassigned
    rw [← (huse i).p]
    exact hp
  · intro hp
    refine ⟨b.countFlow i, flow.assignPath (some i) now, i, rfl, rfl, ?_, ?_⟩
    · rw [(huse i).p]
      exact hp
    · rw [(huse i).bonded]
      exact hb.isBonded j hj i hreal hp

theorem not_assigned_error (fault : BondFault) : ¬Assigned (.error fault) := by
  rintro ⟨b', flow', i, hout, -⟩
  cases hout

theorem xorIdx_lt (hnum : b.numBondedPaths ≠ 0) (flow : Flow) :
    b.xorIdx flow < b.numBondedPaths := by
  unfold xorIdx
  rw [Int.natAbs_tmod, Int.natAbs_natCast]
  exact Nat.mod_lt _ (Nat.pos_of_ne_zero hnum)

theorem assign_xor (hnum : b.numBondedPaths ≠ 0) (hpolicy : b.settings.policy = .balanceXOR) :
    b.assignFlowToBondedPath flow now reassign entropy =
      (b.assignTo flow now (b.realIdx (b.xorIdx flow))).map some := by
  unfold assignFlowToBondedPath
  rw [if_neg hnum, hpolicy]

theorem assign_aware (hnum : b.numBondedPaths ≠ 0) (hpolicy : b.settings.policy = .balanceAware) :
    b.assignFlowToBondedPath flow now reassign entropy =
      (b.awareIdx flow reassign entropy >>= fun bondedIdx =>
        (b.assignTo flow now (b.realIdx bondedIdx)).map some) := by
  unfold assignFlowToBondedPath
  rw [if_neg hnum, hpolicy]

/-- The index comes from the loop, where nothing behind the end is logged. -/
theorem awareIdx_eq (h : reassign = true → (b.loggedSlot flow).isSome = true) :
    b.awareIdx flow reassign entropy =
      b.searchLoop (randomLinkCapacity (entropy.bytes 0)) (flow.searchFirst reassign entropy)
        entropy.turns 0 Search.start := by
  have hnot : ¬(reassign && (b.loggedSlot flow).isNone) = true := by
    rw [Bool.and_eq_true]
    rintro ⟨hre, hnone⟩
    have hsome := h hre
    rw [Option.isNone_iff_eq_none.mp hnone] at hsome
    cases hsome
  unfold awareIdx
  rw [if_neg hnot]

section Aware

variable (hb : Numbered b) (hnum : b.numBondedPaths ≠ 0)
  (hpolicy : b.settings.policy = .balanceAware)
include hb hnum hpolicy

theorem assigned_of_finds (hlogged : reassign = true → (b.loggedSlot flow).isSome = true)
    (h : b.Finds (randomLinkCapacity (bytes 0)) (flow.searchFirst reassign ⟨bytes, 0⟩) 0
      Search.start) :
    ∃ turns, Assigned (b.assignFlowToBondedPath flow now reassign ⟨bytes, turns⟩) := by
  obtain ⟨turns, j, hloop, hj, hsome⟩ := h
  have hidx : b.awareIdx flow reassign ⟨bytes, turns⟩ = .ok j := (awareIdx_eq hlogged).trans hloop
  refine ⟨turns, ?_⟩
  rw [assign_aware hnum hpolicy, hidx]
  exact (assigned_assignTo_iff hb hj).mpr hsome

omit hb in
/-- No index, or the one behind the end. -/
theorem not_assigned_of_index (bytes : ℕ → UInt8)
    (h : ∀ turns, b.awareIdx flow reassign ⟨bytes, turns⟩ = .error .running ∨
      b.awareIdx flow reassign ⟨bytes, turns⟩ = .error .invalid ∨
      b.awareIdx flow reassign ⟨bytes, turns⟩ = .ok maxPeerNetworkPaths) :
    ¬b.AssignsWell flow reassign := by
  intro hwell
  obtain ⟨turns, hassigned⟩ := hwell 0 bytes
  rw [assign_aware hnum hpolicy] at hassigned
  rcases h turns with hidx | hidx | hidx
  · rw [hidx] at hassigned
    exact not_assigned_error _ hassigned
  · rw [hidx] at hassigned
    exact not_assigned_error _ hassigned
  · rw [hidx] at hassigned
    exact not_assigned_error _ hassigned

/-! ### The first assignment -/

omit hnum hpolicy in
/-- The bytes of the turns may be any indices. -/
theorem exists_bytes (index : ℕ → ℕ) (hindex : ∀ m, index m < b.numBondedPaths) :
    ∃ bytes : ℕ → UInt8, bytes 0 = 255 ∧ ∀ m, (bytes (m + 1)).toNat = index m := by
  refine ⟨fun n => n.casesOn 255 fun m => UInt8.ofNat (index m), rfl, fun m => ?_⟩
  have hlt := hindex m
  have hle : b.numBondedPaths ≤ 64 := hb.num_le
  show (UInt8.ofNat (index m)).toNat = index m
  rw [UInt8.toNat_ofNat', Nat.mod_eq_of_lt (by omega)]

theorem findsFirst_of_assignsWell (h : b.AssignsWell flow false) : b.FindsFirst := by
  have hlogged : false = true → (b.loggedSlot flow).isSome = true := fun hfalse => by cases hfalse
  have hthere : b.AllThere := by
    intro j hj
    rw [Option.isSome_iff_ne_none]
    intro hmissing
    -- every turn begins at the index without path
    obtain ⟨bytes, -, hbytes⟩ := exists_bytes hb (fun _ => j) fun _ => hj
    have hfirst : ∀ k, b.indexFrom (flow.searchFirst false ⟨bytes, 0⟩ k) 0 = j := by
      intro k
      have hplace : flow.searchFirst false ⟨bytes, 0⟩ k = j := hbytes k
      rw [hplace]
      exact Nat.mod_eq_of_lt hj
    refine not_assigned_of_index hnum hpolicy bytes (fun turns => Or.inl ?_) h
    refine (awareIdx_eq hlogged).trans (searchLoop_running hb hnum (Nat.pos_of_ne_zero hnum)
      (fun k => ?_) (fun k o' ho' => absurd ho' (Nat.not_lt_zero o')) turns (Nat.le_refl 0))
    exact (congrArg b.bondedPath (hfirst k)).trans hmissing
  refine ⟨hthere, fun j hj => ?_⟩
  by_contra hnot
  obtain ⟨hgood, hacc⟩ := not_or.mp hnot
  -- every turn comes to the index that may not be settled for
  choose e he heq using fun m => exists_indexFrom hj m
  obtain ⟨bytes, hcapacity, hbytes⟩ := exists_bytes hb e he
  have hfirst : ∀ turns m, b.indexFrom (flow.searchFirst false ⟨bytes, turns⟩ m) m = j := by
    intro turns m
    have hplace : flow.searchFirst false ⟨bytes, turns⟩ m = e m := hbytes m
    rw [hplace]
    exact (congrArg (· % b.numBondedPaths) (Nat.add_comm (e m) m)).trans (heq m)
  refine not_assigned_of_index hnum hpolicy bytes (fun turns => ?_) h
  rw [awareIdx_eq hlogged]
  refine (searchLoop_unset hb hnum (fun m _ => ?_) turns 0).imp_right Or.inr
  dsimp only
  rw [hfirst turns m, hcapacity]
  exact ⟨hthere j hj, Bool.eq_false_iff.mpr hacc, Bool.eq_false_iff.mpr hgood⟩

theorem assignsWell_of_findsFirst (h : b.FindsFirst) : b.AssignsWell flow false := by
  obtain ⟨hall, hok⟩ := h
  intro now bytes
  refine assigned_of_finds hb hnum hpolicy (fun hfalse => by cases hfalse) ?_
  refine finds_of_allThere hb hnum hall b.numBondedPaths (Nat.zero_add _) rfl rfl
    (Nat.pos_of_ne_zero hnum) (Nat.le_refl 0) ?_
  exact (hok _ (indexFrom_lt hnum _ 0)).imp_right fun hacc => acceptableAt_of_full hacc (bytes 0)

/-! ### The assignment again -/

theorem assignsWell_of_findsAgain (h : b.FindsAgain flow) : b.AssignsWell flow true := by
  obtain ⟨hlogged, hfinds⟩ := h
  intro now bytes
  refine assigned_of_finds hb hnum hpolicy (fun _ => hlogged) ?_
  rcases hfinds with ⟨o, ho, hacc, hthere⟩ | ⟨hall, j, hj, hgood⟩
  · -- the loop ends at an acceptable path, or before
    exact finds_of_acceptable hb hnum o (Nat.zero_add o) ho
      (fun _ => acceptableAt_of_full hacc (bytes 0)) fun _ => hthere
  · obtain ⟨o, ho, rfl⟩ := exists_indexFrom hj flow.pathIndex
    exact finds_of_allThere hb hnum hall b.numBondedPaths (Nat.zero_add _) rfl rfl ho
      (Nat.zero_le o) (Or.inl hgood)

theorem findsAgain_of_assignsWell (h : b.AssignsWell flow true) : b.FindsAgain flow := by
  have hlogged : (b.loggedSlot flow).isSome = true := by
    rw [Option.isSome_iff_ne_none]
    intro hnone
    -- what is logged is read behind the end of the map
    refine not_assigned_of_index hnum hpolicy (fun _ => 255) (fun turns => ?_) h
    refine Or.inr (Or.inl ?_)
    unfold awareIdx
    rw [hnone]
    rfl
  refine ⟨hlogged, ?_⟩
  by_contra hnot
  obtain ⟨hbefore, hnever⟩ := not_or.mp hnot
  refine not_assigned_of_index hnum hpolicy (fun _ => 255) (fun turns => ?_) h
  rw [awareIdx_eq fun _ => hlogged]
  by_cases hall : b.AllThere
  · -- nothing is acceptable, and nothing is of a quality above 0
    refine (searchLoop_unset hb hnum (fun m hm => ?_) turns 0).imp_right Or.inr
    refine ⟨hall _ (indexFrom_lt hnum _ m), ?_, ?_⟩
    · rw [← Bool.not_eq_true]
      exact fun hacc => hbefore ⟨m, hm, hacc, fun o' _ => hall _ (indexFrom_lt hnum _ o')⟩
    · rw [← Bool.not_eq_true]
      exact fun hgood => hnever ⟨hall, _, indexFrom_lt hnum _ m, hgood⟩
  · -- the loop stays at the first slot without path
    unfold AllThere at hall
    push Not at hall
    obtain ⟨j, hj, hmissing⟩ := hall
    obtain ⟨o, ho, rfl⟩ := exists_indexFrom hj flow.pathIndex
    have hexists : ∃ o, (b.bondedPath (b.indexFrom flow.pathIndex o)).isSome ≠ true := ⟨o, hmissing⟩
    classical
    have hmin := Nat.find_min' hexists hmissing
    refine Or.inl (searchLoop_running hb hnum (hmin.trans_lt ho) (fun _ => ?_) (fun _ o' ho' => ?_)
      turns (Nat.zero_le _))
    · have hspec := Nat.find_spec hexists
      rwa [ne_eq, Option.isSome_iff_ne_none, not_not] at hspec
    · have hthere : ∀ o'' < o', (b.bondedPath (b.indexFrom flow.pathIndex o'')).isSome = true :=
        fun o'' ho'' => not_not.mp (Nat.find_min hexists (ho''.trans ho'))
      rw [← Bool.not_eq_true]
      exact fun hacc => hbefore ⟨o', (ho'.trans_le hmin).trans ho, hacc, hthere⟩

end Aware

/-- With its paths numbered, a bond assigns a flow well exactly if it finds a path. -/
theorem assignsWell_iff_findsPath (hb : Numbered b) (hnum : b.numBondedPaths ≠ 0)
    (hpolicy : b.settings.policy = .balanceXOR ∨ b.settings.policy = .balanceAware) (flow : Flow)
    (reassign : Bool) : b.AssignsWell flow reassign ↔ b.FindsPath flow reassign := by
  unfold FindsPath
  rcases hpolicy with hpolicy | hpolicy
  · rw [if_pos hpolicy]
    constructor
    · intro h
      obtain ⟨turns, hassigned⟩ := h 0 fun _ => 0
      rw [assign_xor hnum hpolicy] at hassigned
      exact (assigned_assignTo_iff hb (xorIdx_lt hnum flow)).mp hassigned
    · intro h now bytes
      refine ⟨0, ?_⟩
      rw [assign_xor hnum hpolicy]
      exact (assigned_assignTo_iff hb (xorIdx_lt hnum flow)).mpr h
  · have hnot : b.settings.policy ≠ .balanceXOR := by
      rw [hpolicy]
      decide
    rw [if_neg hnot]
    rcases reassign with - | -
    · exact ⟨findsFirst_of_assignsWell hb hnum hpolicy, assignsWell_of_findsFirst hb hnum hpolicy⟩
    · exact ⟨findsAgain_of_assignsWell hb hnum hpolicy, assignsWell_of_findsAgain hb hnum hpolicy⟩

end Bond

/-! ### Runs -/

/-- **The path of a flow**, first and again, for every bond that a run has come to. -/
theorem assignsWell_iff (rules : ScoreRules) (sorting : QueueSort) {settings : BondSettings}
    (hpolicy : settings.policy = .balanceXOR ∨ settings.policy = .balanceAware)
    {events : List BondEvent} {b : Bond}
    (hrun : (bondMachine rules sorting).runState (.ok (Bond.init settings)) events = .ok b)
    (hnum : b.numBondedPaths ≠ 0) (flow : Flow) (reassign : Bool) :
    b.AssignsWell flow reassign ↔ b.FindsPath flow reassign := by
  obtain ⟨hb, hsettings⟩ := numbered_of_run (BondPolicy.isBalance_of_flows hpolicy) hrun
  refine Bond.assignsWell_iff_findsPath hb hnum ?_ flow reassign
  rw [hsettings]
  exact hpolicy

/-- A flow that is not assigned. -/
def freshFlow : Flow := ⟨1, 1700000000000, 0, none⟩

/-- Two paths of which nothing is known, and their quality and capacity are 0 therefore. -/
theorem exists_unmeasured : ∃ b, (bondMachine plainRules plainSort).runState
    (.ok (Bond.init (plainSettings .balanceAware))) bothNominated = .ok b ∧
      b.numBondedPaths = 2 ∧ b.goodAt 0 = false ∧ b.acceptableAt fullCapacity 0 = false := by
  have hindices : (((bondMachine plainRules plainSort).runState
      (.ok (Bond.init (plainSettings .balanceAware))) bothNominated).toOption.map fun b =>
        (b.numBondedPaths, b.goodAt 0, b.acceptableAt fullCapacity 0)) =
          some (2, false, false) := by decide +kernel
  obtain ⟨b, hrun, hvalues⟩ := exists_ok_of_map hindices
  obtain ⟨hnum, hvalues⟩ := Prod.mk.inj hvalues
  obtain ⟨hgood, hacc⟩ := Prod.mk.inj hvalues
  exact ⟨b, hrun, hnum, hgood, hacc⟩

/-- A first flow over both paths. -/
theorem assignsWell_unmeasured : ∃ b, (bondMachine plainRules plainSort).runState
    (.ok (Bond.init (plainSettings .balanceAware))) bothNominated = .ok b ∧
      (b.AssignsWell freshFlow false ↔ b.FindsPath freshFlow false) := by
  obtain ⟨b, hrun, hnum, -⟩ := exists_unmeasured
  refine ⟨b, hrun, assignsWell_iff plainRules plainSort (Or.inr rfl) hrun ?_ freshFlow false⟩
  rw [hnum]
  decide

theorem not_assignsWell_unmeasured :
    ¬∀ (rules : ScoreRules) (sorting : QueueSort) (settings : BondSettings)
      (events : List BondEvent) (b : Bond) (flow : Flow) (reassign : Bool),
      settings.policy = .balanceXOR ∨ settings.policy = .balanceAware →
        (bondMachine rules sorting).runState (.ok (Bond.init settings)) events = .ok b →
          b.numBondedPaths ≠ 0 → b.AssignsWell flow reassign := by
  intro h
  obtain ⟨b, hrun, hnum, hgood, hacc⟩ := exists_unmeasured
  have hne : b.numBondedPaths ≠ 0 := by
    rw [hnum]
    decide
  have hwell := h plainRules plainSort _ _ b freshFlow false (Or.inr rfl) hrun hne
  obtain ⟨hb, hsettings⟩ := numbered_of_run rfl hrun
  have hpolicy : b.settings.policy = .balanceAware := congrArg BondSettings.policy hsettings
  -- the index 0 is neither good nor acceptable
  obtain ⟨-, hok⟩ := Bond.findsFirst_of_assignsWell hb hne hpolicy hwell
  rcases hok 0 (Nat.pos_of_ne_zero hne) with hgood' | hacc'
  · rw [hgood] at hgood'
    cases hgood'
  · rw [hacc] at hacc'
    cases hacc'

end ZGalaxy
