/-
ZGalaxy/BondedPaths.lean

The paths behind the bonded indices.

A rebuild takes every index to a slot with an eligible path, and marks the slot.  But a path that
leaves its slot asks for no rebuild, so that as long as another bonded path is alive its index goes
on to lead to the slot, which is empty by then (`allThere_curate_iff`).

With all paths there a packet has one, unless its flow was left behind at a slot without a bonded
path, or a new flow under `balance-aware` comes to no path that it may settle for.

Main result: `keepsMap_iff`, for which runs the indices lead to bonded paths after every call of
`Bond::curateBond`, and every packet has a path.
-/
import ZGalaxy.FlowAssignment

namespace ZGalaxy

open PeerPaths

/-! ### What is asked of a run -/

/-- A call returned a path in a slot that is marked bonded. -/
def Returned (out : Except BondFault (Bond × Option Path)) : Prop :=
  ∃ b path i, out = .ok (b, some path) ∧ (b.paths i).p = some path ∧ (b.paths i).bonded = true

namespace Bond

variable (b : Bond)

/-- The bonded indices lead to different slots, each with a path that is marked bonded. -/
def MapsToBonded : Prop :=
  (∀ j < b.numBondedPaths, ∃ i, b.realIdx j = some i ∧ (b.paths i).p.isSome = true ∧
    (b.paths i).bonded = true) ∧
  ∀ j < b.numBondedPaths, ∀ k < b.numBondedPaths, b.realIdx j = b.realIdx k → j = k

/-- **What an event should come to**: after `Bond::curateBond` the indices lead to bonded paths, and
`Bond::getAppropriatePath` returns one if there are any. -/
def KeepsMap : BondEvent → Prop
  | .nominate s now path estimates => (b.nominatePathToBond s now path estimates).MapsToBonded
  | .background s now _ _ _ => (b.curateBond s now false).MapsToBonded
  | .outgoing now flowId freeRandomByte entropy =>
      b.numBondedPaths ≠ 0 → ∃ turns,
        Returned (b.getAppropriatePath now flowId freeRandomByte ⟨entropy.bytes, turns⟩)
  | _ => True

/-- No bonded path leaves its slot, or something else has the indices written anew: a path that
stays asks for it, or no bonded path that stays is alive. -/
def LosesNoPath (s : Surroundings) (now : Int64) : Prop :=
  (∀ i, (b.paths i).bonded = true → (b.paths i).leaves s now = false) ∨
    b.someAsks s now = true ∨
    ∀ i path, (b.paths i).p = some path → (b.paths i).bonded = true →
      (b.paths i).leaves s now = false → NominatedPath.currAlive s b.settings now path = false

/-- One of the indices that the bytes lead to may be settled for. -/
def FindsAmong (bytes : ℕ → UInt8) : Prop :=
  ∃ o < b.numBondedPaths, b.goodAt (b.indexFrom (bytes (o + 1)).toNat o) = true ∨
    b.acceptableAt (randomLinkCapacity (bytes 0)) (b.indexFrom (bytes (o + 1)).toNat o) = true

/-- A packet of a known flow finds a bonded path in its slot; one of a new flow under
`balance-aware` finds a path that it may settle for. -/
def HasPathFor (flowId : Int32) (bytes : ℕ → UInt8) : Prop :=
  b.settings.policy = .balanceRR ∨ flowId = noFlowId ∨
    (∀ flow, SortedMap.get flowId.toInt16 b.flows = some flow →
      ∃ i, flow.assignedPath = some i ∧ (b.paths i).p.isSome = true ∧
        (b.paths i).bonded = true) ∧
    (SortedMap.get flowId.toInt16 b.flows = none →
      b.settings.policy = .balanceXOR ∨ b.FindsAmong bytes)

/-- A round of the background tasks loses no bonded path. -/
def LosesNone : BondEvent → Prop
  | .background s now _ _ _ => b.LosesNoPath s now
  | _ => True

/-- What an event has to be like. -/
def LeavesMap : BondEvent → Prop
  | .background s now _ _ _ => b.LosesNoPath s now
  | .outgoing _ flowId _ entropy => b.numBondedPaths ≠ 0 → b.HasPathFor flowId entropy.bytes
  | _ => True

/-! ### The map -/

variable {b} {s : Surroundings} {now : Int64}

/-- With the paths numbered, all that matters is that they are there. -/
theorem mapsToBonded_iff (hb : Numbered b) : b.MapsToBonded ↔ b.AllThere := by
  constructor
  · rintro ⟨hmap, -⟩ j hj
    obtain ⟨i, hreal, hp, -⟩ := hmap j hj
    rw [bondedPath_of_realIdx hreal]
    exact hp
  · intro hall
    refine ⟨fun j hj => ?_, hb.inj⟩
    obtain ⟨i, hreal⟩ := Option.isSome_iff_exists.mp (hb.isSome j hj)
    have hp := hall j hj
    rw [bondedPath_of_realIdx hreal] at hp
    exact ⟨i, hreal, hp, hb.isBonded j hj i hreal hp⟩

end Bond

theorem SameBonding.bondedPath {b b' : Bond} (h : SameBonding b b') (j : ℕ) :
    b'.bondedPath j = b.bondedPath j := by
  unfold Bond.bondedPath
  rw [h.realIdx]
  rcases b.realIdx j with - | i
  · rfl
  · exact (h.use i).p

theorem SameBonding.allThere {b b' : Bond} (h : SameBonding b b') (hall : b.AllThere) :
    b'.AllThere := by
  intro j hj
  rw [h.bondedPath]
  exact hall j (h.numBondedPaths ▸ hj)

namespace Bond

variable {b : Bond} {s : Surroundings} {now : Int64}

theorem allThere_rrStep (hall : b.AllThere) : b.rrStep.AllThere := by
  obtain ⟨hpaths, -, -, hcount⟩ := rrStep_paths b
  intro j hj
  unfold bondedPath
  rw [rrStep_realIdx, hpaths]
  exact hall j (hcount ▸ hj)

/-- After a rebuild all paths are there. -/
theorem allThere_rebuilt {paths : Slots} {slots : List PathSlot}
    (hlen : slots.length ≤ maxPeerNetworkPaths)
    (husable : ∀ i ∈ slots, Slots.usable paths i = true) : (b.rebuilt paths slots).AllThere := by
  intro j hj
  have hget : slots[j]? = some slots[j] := List.getElem?_eq_getElem hj
  have hreal : (b.rebuilt paths slots).realIdx j = some slots[j] :=
    (realIdx_rebuilt hlen j).trans hget
  rw [bondedPath_of_realIdx hreal]
  exact (Bool.and_eq_true_iff.mp (husable _ (List.getElem_mem hj))).1

theorem allThere_of_rebuilds (hbalance : b.settings.policy.isBalance = true) {rebuildBond : Bool}
    (h : b.rebuilds s now rebuildBond = true) : (b.curateBond s now rebuildBond).AllThere := by
  unfold curateBond
  dsimp only
  rw [if_pos hbalance, if_pos h]
  generalize hslots : (b.curatedPaths s now).toBond s _ = slots
  have hlen : slots.length ≤ maxPeerNetworkPaths := hslots ▸ Slots.length_toBond_le s _ _
  have husable : ∀ i ∈ slots, Slots.usable (b.curatedPaths s now) i = true := by
    intro i hi
    rw [← hslots] at hi
    exact Slots.usable_of_mem_toBond s hi
  split_ifs
  · exact allThere_rebuilt (b := b.resetRR) hlen husable
  · exact allThere_rebuilt hlen husable

/-- A bonded path that stays where no slot asks for a rebuild is alive or not, as it received
something lately or not. -/
theorem alive_curatedPaths {i : PathSlot} {path : Path} (hp : (b.paths i).p = some path)
    (hstays : (b.paths i).leaves s now = false) :
    (b.curatedPaths s now i).alive = NominatedPath.currAlive s b.settings now path := by
  rcases b.curatedPaths_cases s now i with
    ⟨hnone, -⟩ | ⟨path', -, hleaves, -⟩ | ⟨path', hpath, -, hcurated⟩
  · rw [hnone] at hp
    cases hp
  · rw [hstays] at hleaves
    cases hleaves
  · obtain rfl := Option.some.inj (hpath.symm.trans hp)
    rw [hcurated]
    rfl

/-- If no slot asks for a rebuild, a usable primary path is one that was bonded, stays, and is
alive. -/
theorem foundUsable_iff (hasks : b.someAsks s now = false) :
    (b.curatedPaths s now).foundUsablePrimaryPath = true ↔
      ∃ i path, (b.paths i).p = some path ∧ (b.paths i).bonded = true ∧
        (b.paths i).leaves s now = false ∧
          NominatedPath.currAlive s b.settings now path = true := by
  unfold Slots.foundUsablePrimaryPath
  rw [List.any_eq_true]
  constructor
  · rintro ⟨i, -, hi⟩
    obtain ⟨hleft, halive⟩ := Bool.and_eq_true_iff.mp hi
    obtain ⟨hp, hbonded⟩ := Bool.and_eq_true_iff.mp hleft
    obtain ⟨path, hpath⟩ := Option.isSome_iff_exists.mp hp
    rw [curatedPaths_p] at hpath
    rcases hstays : (b.paths i).leaves s now with - | -
    · rw [hstays, if_neg Bool.false_ne_true] at hpath
      rw [alive_curatedPaths hpath hstays] at halive
      exact ⟨i, path, hpath, curatedPaths_bonded b s now i hbonded, hstays, halive⟩
    · rw [hstays, if_pos rfl] at hpath
      cases hpath
  · rintro ⟨i, path, hpath, hbonded, hstays, halive⟩
    have hp : (b.curatedPaths s now i).p.isSome = true := by
      rw [curatedPaths_p, hstays, if_neg Bool.false_ne_true, hpath]
      rfl
    refine ⟨i, List.mem_finRange i, ?_⟩
    rw [hp, bonded_curatedPaths hasks hp hbonded, alive_curatedPaths hpath hstays, halive]
    rfl

/-- The indices are written anew in the background exactly if a slot asks for it, or no bonded path
that stays is alive. -/
theorem rebuilds_iff (hb : Numbered b) : b.rebuilds s now false = true ↔
    b.someAsks s now = true ∨
    ∀ i path, (b.paths i).p = some path → (b.paths i).bonded = true →
      (b.paths i).leaves s now = false → NominatedPath.currAlive s b.settings now path = false := by
  unfold rebuilds
  rw [Bool.false_or]
  rcases hasks : b.someAsks s now with - | -
  · rw [Bool.false_or, Bool.or_eq_true, Bool.not_eq_true', ← Bool.not_eq_true,
      foundUsable_iff hasks]
    constructor
    · rintro (hnone | hzero)
      · refine Or.inr fun i path hpath hbonded hstays => ?_
        rw [← Bool.not_eq_true]
        exact fun halive => hnone ⟨i, path, hpath, hbonded, hstays, halive⟩
      · -- without bonded paths there is no slot to speak of
        refine Or.inr fun i path _ hbonded _ => ?_
        obtain ⟨j, hj, -⟩ := hb.hasNumber i hbonded
        rw [beq_iff_eq.mp hzero] at hj
        exact absurd hj (Nat.not_lt_zero j)
    · rintro (hfalse | hnone)
      · cases hfalse
      · refine Or.inl ?_
        rintro ⟨i, path, hpath, hbonded, hstays, halive⟩
        rw [hnone i path hpath hbonded hstays] at halive
        cases halive
  · exact iff_of_true rfl (Or.inl rfl)

/-- **The paths are there after a call of `Bond::curateBond`** exactly if none of them is lost. -/
theorem allThere_curate_iff (hb : Numbered b) (hall : b.AllThere) :
    (b.curateBond s now false).AllThere ↔ b.LosesNoPath s now := by
  unfold LosesNoPath
  rw [← rebuilds_iff hb]
  rcases hrebuilds : b.rebuilds s now false with - | -
  · -- the indices are kept: each has a path exactly if the path of its slot stays
    have hcurate : b.curateBond s now false = { b with paths := b.curatedPaths s now } := by
      unfold curateBond
      dsimp only
      rw [if_pos hb.balance, hrebuilds, if_neg Bool.false_ne_true]
    have hbonded : ∀ j, (b.curateBond s now false).bondedPath j =
        (b.realIdx j).bind fun i => (b.curatedPaths s now i).p := by
      intro j
      rw [hcurate]
      rfl
    have hcount : (b.curateBond s now false).numBondedPaths = b.numBondedPaths := by
      rw [hcurate]
    constructor
    · intro hthere
      refine Or.inl fun i hi => ?_
      obtain ⟨j, hj, hreal⟩ := hb.hasNumber i hi
      have hsome := hthere j (hcount.symm ▸ hj)
      rw [hbonded, hreal, Option.bind_some, curatedPaths_p] at hsome
      rcases hleaves : (b.paths i).leaves s now with - | -
      · rfl
      · rw [hleaves, if_pos rfl] at hsome
        cases hsome
    · rintro (hstay | hfalse)
      · intro j hj
        have hlt : j < b.numBondedPaths := hcount ▸ hj
        obtain ⟨i, hreal⟩ := Option.isSome_iff_exists.mp (hb.isSome j hlt)
        have hp := hall j hlt
        rw [bondedPath_of_realIdx hreal] at hp
        rw [hbonded, hreal, Option.bind_some, curatedPaths_p,
          hstay i (hb.isBonded j hlt i hreal hp), if_neg Bool.false_ne_true]
        exact hp
      · cases hfalse
  · exact iff_of_true (allThere_of_rebuilds hb.balance hrebuilds) (Or.inr rfl)

/-- A nomination rebuilds the bond, or does nothing. -/
theorem allThere_nominatePathToBond (hb : Numbered b) (hall : b.AllThere) (path : Path)
    (estimates : PathSlot → PathEstimate) :
    (b.nominatePathToBond s now path estimates).AllThere := by
  unfold nominatePathToBond
  dsimp only
  split_ifs
  · -- a path that is nominated asks for a rebuild
    refine (sameBonding_estimate _ estimates).allThere (allThere_of_rebuilds ?_ rfl)
    rw [(b.nominate_frame (s.createLink path.localSocket) now path).1]
    exact hb.balance
  · exact hall

/-! ### The path of a packet -/

variable {bytes : ℕ → UInt8} {entropy : Entropy} {flowId : Int32} {freeRandomByte : UInt8}
  {flow : Flow}

/-- An index in range leads to a bonded path. -/
theorem returned_pathAt (hb : Numbered b) (hall : b.AllThere) {j : ℕ} (hj : j < b.numBondedPaths) :
    Returned ((b.pathAt j).map fun path => (b, path)) := by
  obtain ⟨i, hreal⟩ := Option.isSome_iff_exists.mp (hb.isSome j hj)
  have hp := hall j hj
  rw [bondedPath_of_realIdx hreal] at hp
  obtain ⟨path, hpath⟩ := Option.isSome_iff_exists.mp hp
  refine ⟨b, path, i, ?_, hpath, hb.isBonded j hj i hreal hp⟩
  rw [pathAt_eq hb hj, bondedPath_of_realIdx hreal, hpath]
  rfl

/-- The path of a flow is bonded exactly if its slot is. -/
theorem returned_pathOfFlow_iff (hb : Numbered b) (flow : Flow) (b' : Bond)
    (hpaths : b'.paths = b.paths) :
    Returned ((b.pathOfFlow flow).map fun path => (b', path)) ↔
      ∃ i, flow.assignedPath = some i ∧ (b.paths i).p.isSome = true ∧
        (b.paths i).bonded = true := by
  unfold pathOfFlow
  rcases flow.assignedPath with - | i
  · constructor
    · rintro ⟨b'', path, i, hout, -⟩
      cases hout
    · rintro ⟨i, hi, -⟩
      cases hi
  · constructor
    · rintro ⟨b'', path, i', hout, hp, hbonded⟩
      obtain ⟨rfl, hpath⟩ := Prod.mk.inj (Except.ok.inj hout)
      rw [hpaths] at hp hbonded
      obtain rfl := hb.onePlace i i' path hpath hp
      exact ⟨i, rfl, Option.isSome_iff_exists.mpr ⟨path, hp⟩, hbonded⟩
    · rintro ⟨i', hi, hp, hbonded⟩
      obtain rfl := Option.some.inj hi
      obtain ⟨path, hpath⟩ := Option.isSome_iff_exists.mp hp
      refine ⟨b', path, i, ?_, ?_, ?_⟩
      · show Except.ok (b', (b.paths i).p) = _
        rw [hpath]
      · rw [hpaths]
        exact hpath
      · rw [hpaths]
        exact hbonded

/-- The bond before a flow is put into its table, which may be full. -/
def evicted (b : Bond) (now : Int64) : Bond :=
  if flowMaxCount ≤ b.flows.length then b.forgetFlowsWhenNecessary now 0 true else b

theorem sameBonding_evicted (b : Bond) (now : Int64) : SameBonding b (b.evicted now) := by
  unfold evicted
  split_ifs
  · exact b.sameBonding_forget now 0 true
  · exact SameBonding.refl b

/-- What a flow that is forgotten changes in its slot. -/
theorem evicted_paths (b : Bond) (now : Int64) (i : PathSlot) :
    ∃ count, (b.evicted now).paths i = { b.paths i with assignedFlowCount := count } := by
  have hself : ∃ count, b.paths i = { b.paths i with assignedFlowCount := count } :=
    ⟨(b.paths i).assignedFlowCount, rfl⟩
  unfold evicted forgetFlowsWhenNecessary forgetOldest
  rw [if_neg (not_not.mpr rfl), if_pos rfl]
  split_ifs
  · rcases FlowTable.oldestFlow b.flows now with - | ⟨key, flow⟩
    · exact hself
    · dsimp only
      rcases flow.assignedPath with - | k
      · exact hself
      · by_cases hik : i = k
        · rw [hik]
          exact ⟨(b.paths k).assignedFlowCount - 1, Function.update_self _ _ _⟩
        · exact ⟨(b.paths i).assignedFlowCount, Function.update_of_ne hik _ _⟩
  · exact hself

theorem goodAt_evicted (b : Bond) (now : Int64) (j : ℕ) :
    (b.evicted now).goodAt j = b.goodAt j := by
  unfold goodAt
  rw [(b.sameBonding_evicted now).realIdx]
  rcases b.realIdx j with - | i
  · rfl
  · obtain ⟨count, hslot⟩ := b.evicted_paths now i
    show (FloatValue.finite 0).lt ((b.evicted now).paths i).relativeQuality = _
    rw [hslot]
    rfl

theorem acceptableAt_evicted (b : Bond) (now : Int64) (capacity : FloatValue) (j : ℕ) :
    (b.evicted now).acceptableAt capacity j = b.acceptableAt capacity j := by
  unfold acceptableAt
  rw [(b.sameBonding_evicted now).realIdx]
  rcases b.realIdx j with - | i
  · rfl
  · obtain ⟨count, hslot⟩ := b.evicted_paths now i
    show (((b.evicted now).paths i).p.isSome && ((b.evicted now).paths i).isAcceptable capacity) = _
    rw [hslot]
    rfl

theorem findsAmong_evicted (b : Bond) (now : Int64) (bytes : ℕ → UInt8) :
    (b.evicted now).FindsAmong bytes ↔ b.FindsAmong bytes := by
  unfold FindsAmong indexFrom
  simp only [goodAt_evicted, acceptableAt_evicted, (b.sameBonding_evicted now).numBondedPaths]

/-- A new flow, with all paths there. -/
theorem assigned_first_iff (hb : Numbered b) (hnum : b.numBondedPaths ≠ 0)
    (hpolicy : b.settings.policy = .balanceAware) (hall : b.AllThere) :
    (∃ turns, Assigned (b.assignFlowToBondedPath flow now false ⟨bytes, turns⟩)) ↔
      b.FindsAmong bytes := by
  have hlogged : false = true → (b.loggedSlot flow).isSome = true := fun hfalse => by cases hfalse
  constructor
  · rintro ⟨turns, hassigned⟩
    by_contra hnone
    have hnot : ∀ m < b.numBondedPaths,
        b.goodAt (b.indexFrom (bytes (m + 1)).toNat m) = false ∧
          b.acceptableAt (randomLinkCapacity (bytes 0))
            (b.indexFrom (bytes (m + 1)).toNat m) = false := by
      intro m hm
      rw [← Bool.not_eq_true, ← Bool.not_eq_true]
      exact not_or.mp fun h => hnone ⟨m, hm, h⟩
    rw [assign_aware hnum hpolicy, awareIdx_eq hlogged] at hassigned
    -- no index is good or acceptable, so the search keeps on or ends with the index out of range
    have hloop : b.searchLoop (randomLinkCapacity (bytes 0))
          (flow.searchFirst false ⟨bytes, turns⟩) turns 0 Search.start = .error .running ∨
        b.searchLoop (randomLinkCapacity (bytes 0))
          (flow.searchFirst false ⟨bytes, turns⟩) turns 0 Search.start =
            .ok maxPeerNetworkPaths :=
      searchLoop_unset hb hnum
        (fun m hm => ⟨hall _ (indexFrom_lt hnum _ m), (hnot m hm).2, (hnot m hm).1⟩) turns 0
    rcases hloop with hloop | hloop
    · rw [hloop] at hassigned
      exact not_assigned_error _ hassigned
    · rw [hloop] at hassigned
      exact not_assigned_error _ hassigned
  · rintro ⟨o, ho, hok⟩
    exact assigned_of_finds hb hnum hpolicy hlogged (finds_of_allThere hb hnum hall
      b.numBondedPaths (Nat.zero_add _) rfl rfl ho (Nat.zero_le o) hok)

theorem createFlow_eq (hnum : b.numBondedPaths ≠ 0) :
    b.createFlow now none flowId entropy =
      ((b.evicted now).assignFlowToBondedPath ⟨flowId, now, 0, none⟩ now false entropy).map
        fun out => some (out.elim ((b.evicted now).putFlow flowId.toInt16 ⟨flowId, now, 0, none⟩,
          ⟨flowId, now, 0, none⟩) fun out => (out.1.putFlow flowId.toInt16 out.2, out.2)) := by
  unfold createFlow
  rw [if_neg hnum]
  show (b.evicted now).assignFlowToBondedPath ⟨flowId, now, 0, none⟩ now false entropy >>= _ = _
  rcases (b.evicted now).assignFlowToBondedPath ⟨flowId, now, 0, none⟩ now false entropy
    with fault | - | out
  · rfl
  · rfl
  · rfl

/-- A packet of a new flow has a path exactly if the flow is assigned to one. -/
theorem returned_new_iff (hb : Numbered b) (hnum : b.numBondedPaths ≠ 0)
    (hflow : flowId ≠ noFlowId) (hnew : SortedMap.get flowId.toInt16 b.flows = none) :
    Returned (b.getPathOfFlow now flowId freeRandomByte entropy) ↔
      Assigned
        ((b.evicted now).assignFlowToBondedPath ⟨flowId, now, 0, none⟩ now false entropy) := by
  have hsame := b.sameBonding_evicted now
  have hassign := (b.evicted now).yields_assign now ⟨flowId, now, 0, none⟩ false entropy
  unfold getPathOfFlow
  rw [if_neg hflow, hnew]
  dsimp only
  rw [createFlow_eq hnum]
  rcases hout : (b.evicted now).assignFlowToBondedPath ⟨flowId, now, 0, none⟩ now false entropy
    with fault | - | ⟨b₁, flow₁⟩
  · refine iff_of_false ?_ (not_assigned_error fault)
    rintro ⟨b', path, i, hreturned, -⟩
    cases hreturned
  · -- the flow is put in its table without a path
    refine iff_of_false ?_ ?_
    · rintro ⟨b', path, i, hreturned, -⟩
      cases hreturned
    · rintro ⟨b', flow', i, hassigned, -⟩
      cases hassigned
  · have hb₁ : Numbered b₁ := (hsame.trans (hassign _ hout _ rfl)).numbered hb
    have hput := (b₁.sameBonding_putFlow flowId.toInt16 flow₁).numbered hb₁
    refine (returned_pathOfFlow_iff hput flow₁ _ rfl).trans ?_
    constructor
    · rintro ⟨i, hi, hp, hbonded⟩
      exact ⟨b₁, flow₁, i, rfl, hi, hp, hbonded⟩
    · rintro ⟨b', flow', i, hassigned, hi, hp, hbonded⟩
      obtain ⟨rfl, rfl⟩ := Prod.mk.inj (Option.some.inj (Except.ok.inj hassigned))
      exact ⟨i, hi, hp, hbonded⟩

/-- A new flow is assigned to a path unless it is under `balance-aware` and comes to none that it
may settle for. -/
theorem assigned_new_iff (hb : Numbered b) (hnum : b.numBondedPaths ≠ 0) (hall : b.AllThere)
    (hpolicy : b.settings.policy = .balanceXOR ∨ b.settings.policy = .balanceAware) (flow : Flow)
    (now : Int64) (bytes : ℕ → UInt8) :
    (∃ turns, Assigned (b.assignFlowToBondedPath flow now false ⟨bytes, turns⟩)) ↔
      b.settings.policy = .balanceXOR ∨ b.FindsAmong bytes := by
  rcases hpolicy with hxor | haware
  · refine iff_of_true ⟨0, ?_⟩ (Or.inl hxor)
    rw [assign_xor hnum hxor]
    exact (assigned_assignTo_iff hb (xorIdx_lt hnum flow)).mpr (hall _ (xorIdx_lt hnum flow))
  · have hnot : b.settings.policy ≠ .balanceXOR := by
      rw [haware]
      decide
    rw [or_iff_right hnot]
    exact assigned_first_iff hb hnum haware hall

/-- Under `balance-rr` every packet has a path. -/
theorem returned_getPathRR (hb : Numbered b) (hnum : b.numBondedPaths ≠ 0) (hall : b.AllThere)
    (hrr : b.settings.policy = .balanceRR) : Returned (b.getPathRR freeRandomByte) := by
  unfold getPathRR
  split_ifs
  · exact returned_pathAt hb hall (Nat.mod_lt _ (Nat.pos_of_ne_zero hnum))
  · refine returned_pathAt (numbered_rrStep hb hrr hnum) (allThere_rrStep hall) ?_
    rw [(rrStep_paths b).2.2.2]
    exact rrStep_rrIdx_lt hb hrr hnum

/-- **The path of a packet**, with all paths there. -/
theorem returned_iff (hb : Numbered b) (hnum : b.numBondedPaths ≠ 0) (hall : b.AllThere) :
    (∃ turns, Returned (b.getAppropriatePath now flowId freeRandomByte ⟨bytes, turns⟩)) ↔
      b.HasPathFor flowId bytes := by
  have hbalance := hb.balance
  unfold getAppropriatePath HasPathFor
  simp only [if_neg (BondPolicy.ne_activeBackup hbalance), if_neg (hb.has_paths hnum)]
  by_cases hrr : b.settings.policy = .balanceRR
  · simp only [if_pos hrr]
    exact iff_of_true ⟨0, returned_getPathRR hb hnum hall hrr⟩ (Or.inl hrr)
  · simp only [if_neg hrr]
    have hpolicy := BondPolicy.eq_of_ne_balanceRR hbalance hrr
    rw [or_iff_right hrr]
    by_cases hflow : flowId = noFlowId
    · -- any index will do
      refine iff_of_true ⟨0, ?_⟩ (Or.inl hflow)
      unfold getPathOfFlow
      rw [if_pos hflow]
      exact returned_pathAt hb hall (Nat.mod_lt _ (Nat.pos_of_ne_zero hnum))
    · rw [or_iff_right hflow]
      rcases hget : SortedMap.get flowId.toInt16 b.flows with - | flow
      · -- a new flow
        have hsame := b.sameBonding_evicted now
        have hpolicy' := hsame.settings ▸ hpolicy
        have hassigned := assigned_new_iff (hsame.numbered hb)
          (hsame.numBondedPaths.symm ▸ hnum) (hsame.allThere hall) hpolicy' ⟨flowId, now, 0, none⟩
          now bytes
        rw [findsAmong_evicted, hsame.settings] at hassigned
        simp only [returned_new_iff hb hnum hflow hget]
        refine hassigned.trans ⟨fun h => ⟨fun flow hfalse => ?_, fun _ => h⟩, fun h => h.2 trivial⟩
        cases hfalse
      · -- a flow that is known: its slot may have lost its path
        unfold getPathOfFlow
        simp only [if_neg hflow, hget]
        have hslot := returned_pathOfFlow_iff hb flow
          (b.putFlow flowId.toInt16 (flow.touch now)) rfl
        constructor
        · rintro ⟨-, hreturned⟩
          refine ⟨fun flow' hsome => ?_, fun hfalse => ?_⟩
          · obtain rfl := Option.some.inj hsome
            exact hslot.mp hreturned
          · cases hfalse
        · rintro ⟨hknown, -⟩
          exact ⟨0, hslot.mpr (hknown flow rfl)⟩

/-! ### Events -/

/-- **One event** does what it should exactly if it meets the condition. -/
theorem keepsMap_iff_leavesMap (hb : Numbered b) (hall : b.AllThere) (event : BondEvent) :
    b.KeepsMap event ↔ b.LeavesMap event := by
  -- only the background tasks and the packets that leave are asked for something
  rcases event with ⟨s, now, path, estimates⟩ | ⟨s, now, estimates, dead, avoided⟩ |
    ⟨now, flowId, freeRandomByte, entropy⟩ | ⟨now, path, flowId⟩ | ⟨now, path⟩ | now
  · refine iff_of_true ((mapsToBonded_iff ?_).mpr ?_) trivial
    · exact numbered_nominatePathToBond hb s now path estimates
    · exact allThere_nominatePathToBond hb hall path estimates
  · have hcurate := numbered_curate b s now false hb.balance hb.onePlace hb.rrIdx_zero fun _ => hb
    exact (mapsToBonded_iff hcurate).trans (allThere_curate_iff hb hall)
  · exact forall_congr' fun hnum => returned_iff hb hnum hall
  · exact Iff.rfl
  · exact Iff.rfl
  · exact Iff.rfl

theorem LeavesMap.losesNone {event : BondEvent} (h : b.LeavesMap event) : b.LosesNone event := by
  rcases event with ⟨s, now, path, estimates⟩ | ⟨s, now, estimates, dead, avoided⟩ |
    ⟨now, flowId, freeRandomByte, entropy⟩ | ⟨now, path, flowId⟩ | ⟨now, path⟩ | now
  · trivial
  · exact h
  · trivial
  · trivial
  · trivial
  · trivial

/-- After an event that loses no bonded path all paths are there. -/
theorem yields_allThere (hb : Numbered b) (hall : b.AllThere) (rules : ScoreRules)
    (sorting : QueueSort) {event : BondEvent} (h : b.LosesNone event) :
    Yields (b.handle rules sorting event) fun out => out.1.AllThere := by
  rcases event with ⟨s, now, path, estimates⟩ | ⟨s, now, estimates, dead, avoided⟩ |
    ⟨now, flowId, freeRandomByte, entropy⟩ | ⟨now, path, flowId⟩ | ⟨now, path⟩ | now
  · exact yields_ok (allThere_nominatePathToBond hb hall path estimates)
  · exact Yields.map ((yields_background hb rules sorting s now estimates dead avoided).mono
      fun b' hsame => hsame.allThere ((allThere_curate_iff hb hall).mpr h))
  · refine Yields.map fun out hout => ?_
    unfold getAppropriatePath at hout
    split_ifs at hout with hbackup hnone hrr
    · obtain rfl := Except.ok.inj hout
      exact hall
    · obtain rfl := Except.ok.inj hout
      exact hall
    · revert out
      unfold getPathRR
      split_ifs
      · exact Yields.map fun path _ => hall
      · exact Yields.map fun path _ => allThere_rrStep hall
    · exact (b.yields_getPathOfFlow now flowId freeRandomByte entropy out hout).allThere hall
  · exact Yields.map ((b.yields_recordIncoming now path flowId).mono fun b' h => h.allThere hall)
  · exact yields_ok ((b.sameBonding_receivedQoS now path).allThere hall)
  · refine yields_ok ?_
    show (b.abForciblyRotateLink now).AllThere
    rw [numbered_abForciblyRotateLink hb]
    exact hall

end Bond

/-! ### Runs -/

/-- **The bonded index map over whole runs**, under a balance policy: the indices lead to bonded
paths after every call of `Bond::curateBond`, and every packet has a path, exactly if in every round
of the background tasks no bonded path is lost without a rebuild, and every packet is of no flow, of
one whose slot has a bonded path, or of a new one that finds a path. -/
theorem keepsMap_iff (rules : ScoreRules) (sorting : QueueSort) {settings : BondSettings}
    (hbalance : settings.policy.isBalance = true) (events : List BondEvent) :
    (bondMachine rules sorting).Guarded
        (fun state event => OfBond (fun b => b.KeepsMap event) state) (.ok (Bond.init settings))
        events ↔
      (bondMachine rules sorting).Guarded
        (fun state event => OfBond (fun b => b.LeavesMap event) state) (.ok (Bond.init settings))
        events := by
  have hinit : OfBond (fun b => Numbered b ∧ b.AllThere) (.ok (Bond.init settings)) :=
    ⟨numbered_init hbalance, fun j hj => absurd hj (Nat.not_lt_zero j)⟩
  refine Machine.guarded_iff (I := OfBond fun b => Numbered b ∧ b.AllThere) ?_ ?_ hinit
  · rintro (fault | b) event hstate
    · exact Iff.rfl
    · exact Bond.keepsMap_iff_leavesMap hstate.1 hstate.2 event
  · rintro (fault | b) event hstate hcond
    · trivial
    · refine step_ok fun out hout => ⟨?_, ?_⟩
      · exact Bond.yields_handle hstate.1 rules sorting event out hout
      · exact Bond.yields_allThere hstate.1 hstate.2 rules sorting hcond.losesNone out hout

/-- The link of the first path goes away. -/
def firstLinkGone : BondEvent :=
  .background (twoLinks [2]) 1700000001000 none (fun _ => ⟨fun _ => 0, 0⟩) fun _ => ⟨fun _ => 0, 0⟩

/-- A round of the background tasks after two nominations. -/
theorem keepsMap_firstLinkGone :
    (bondMachine plainRules plainSort).Guarded
        (fun state event => OfBond (fun b => b.KeepsMap event) state)
        (.ok (Bond.init (plainSettings .balanceRR))) (bothNominated ++ [firstLinkGone]) ↔
      (bondMachine plainRules plainSort).Guarded
        (fun state event => OfBond (fun b => b.LeavesMap event) state)
        (.ok (Bond.init (plainSettings .balanceRR))) (bothNominated ++ [firstLinkGone]) :=
  keepsMap_iff plainRules plainSort rfl _

theorem not_keepsMap_firstLinkGone :
    ¬∀ (rules : ScoreRules) (sorting : QueueSort) (settings : BondSettings)
      (events : List BondEvent), settings.policy.isBalance = true →
        (bondMachine rules sorting).Guarded
          (fun state event => OfBond (fun b => b.KeepsMap event) state)
          (.ok (Bond.init settings)) events := by
  intro h
  have hrun := h plainRules plainSort (plainSettings .balanceRR)
    (bothNominated ++ [firstLinkGone]) rfl
  have hkeeps := (Machine.guarded_append_cons.mp hrun).2.1
  have hcurated : (((bondMachine plainRules plainSort).runState
      (.ok (Bond.init (plainSettings .balanceRR))) bothNominated).toOption.map fun b =>
        ((b.curateBond (twoLinks [2]) 1700000001000 false).numBondedPaths,
          ((b.curateBond (twoLinks [2]) 1700000001000 false).bondedPath 0).isSome)) =
            some (2, false) := by decide +kernel
  obtain ⟨b, hb, hvalues⟩ := exists_ok_of_map hcurated
  obtain ⟨hnum, hmissing⟩ := Prod.mk.inj hvalues
  rw [hb] at hkeeps
  have hmap : (b.curateBond (twoLinks [2]) 1700000001000 false).MapsToBonded := hkeeps
  obtain ⟨i, hreal, hp, -⟩ := hmap.1 0 (hnum ▸ Nat.two_pos)
  rw [Bond.bondedPath_of_realIdx hreal, hp] at hmissing
  cases hmissing

end ZGalaxy
