/-
ZGalaxy/FlowAccounting.lean

The flows of a bond, counted slot by slot.

Every slot counts the flows that are assigned to it.  The books are kept (`Ledger`) as long as no
path leaves its slot while flows are assigned to it: such a slot is reset, counter and all, and the
flows go on pointing to it, so that the counter comes below zero as they are forgotten.  Under
`balance-xor` flows are also put to slots without path, where a bonded path left its slot and the
indices were not written anew.

The counter has 16 bits, and a table can hold 65536 flows: that all of them are in one slot is the
one case in which the counter is not their number though the books are kept (`accounted_iff_lt`).

Main result: `flowsAccounted_iff`.
-/
import ZGalaxy.BondedPaths

namespace ZGalaxy

open PeerPaths

/-! ### Counting -/

/-- What a flow counts for in a slot. -/
def slotCount (o : Option PathSlot) (i : PathSlot) : ℕ := if o = some i then 1 else 0

/-- The number of flows that are assigned to a slot. -/
def FlowTable.countOn (flows : FlowTable) (i : PathSlot) : ℕ :=
  flows.countP fun e => decide (e.2.assignedPath = some i)

namespace Bond

variable (b : Bond)

/-- The number of flows that are assigned to a slot. -/
def flowsOn (i : PathSlot) : ℕ := FlowTable.countOn b.flows i

/-- **The flows are accounted for**: every slot with a path counts the flows that are assigned to
it, and every flow is assigned to a slot with a path. -/
def FlowsAccounted : Prop :=
  (∀ i, (b.paths i).p.isSome = true → (b.paths i).assignedFlowCount.toNat = b.flowsOn i) ∧
    ∀ e ∈ b.flows, ∃ i, e.2.assignedPath = some i ∧ (b.paths i).p.isSome = true

/-- No path that flows are assigned to leaves its slot. -/
def KeepsFlowPaths : BondEvent → Prop
  | .nominate s now path _ =>
      (s.createLink path.localSocket).linkAllowed
          ((s.createLink path.localSocket).getLink path) = true →
        ∀ i, b.flowsOn i ≠ 0 →
          ((b.nominate (s.createLink path.localSocket) now path).2.paths i).leaves
            (b.nominate (s.createLink path.localSocket) now path).1 now = false
  | .background s now _ _ _ => ∀ i, b.flowsOn i ≠ 0 → (b.paths i).leaves s now = false
  | _ => True

/-- No path that flows are assigned to leaves its slot, and under `balance-xor` no bonded path does
without a rebuild. -/
def KeepsFlows (event : BondEvent) : Prop :=
  b.KeepsFlowPaths event ∧ (b.settings.policy = .balanceXOR → b.LosesNone event)

/-- The books of a bond: the counters are the numbers of flows, cut off to 16 bits. -/
structure Ledger (b : Bond) : Prop where
  counts : ∀ i, (b.paths i).assignedFlowCount = UInt16.ofNat (b.flowsOn i)
  held : ∀ e ∈ b.flows, ∃ i, e.2.assignedPath = some i ∧ (b.paths i).p.isSome = true
  sorted : SortedMap.Sorted flowLt b.flows

end Bond

/-! ### The counters of the slots -/

namespace Slots

theorem count_addFlow (paths : Slots) (k i : PathSlot) : (paths.addFlow k i).assignedFlowCount =
    (paths i).assignedFlowCount + UInt16.ofNat (slotCount (some k) i) := by
  unfold addFlow slotCount
  by_cases hik : i = k
  · subst hik
    rw [Function.update_self, if_pos rfl]
    rfl
  · rw [Function.update_of_ne hik, if_neg fun heq => hik (Option.some.inj heq).symm]
    exact (UInt16.add_zero _).symm

theorem count_dropFlow (paths : Slots) (o : Option PathSlot) (i : PathSlot) :
    (paths.dropFlow o i).assignedFlowCount + UInt16.ofNat (slotCount o i) =
      (paths i).assignedFlowCount := by
  unfold slotCount
  rcases o with - | k
  · rw [if_neg fun heq => by cases heq]
    exact UInt16.add_zero _
  · by_cases hik : i = k
    · subst hik
      rw [if_pos rfl]
      show (Function.update paths i (paths i).dropFlow i).assignedFlowCount + 1 = _
      rw [Function.update_self]
      exact UInt16.sub_add_cancel _ _
    · rw [if_neg fun heq => hik (Option.some.inj heq).symm]
      show (Function.update paths k (paths k).dropFlow i).assignedFlowCount + 0 = _
      rw [Function.update_of_ne hik]
      exact UInt16.add_zero _

/-- A row of flows that are forgotten. -/
theorem count_foldl_dropFlow (flows : FlowTable) (paths : Slots) (i : PathSlot) :
    (flows.foldl (fun paths e => dropFlow paths e.2.assignedPath) paths i).assignedFlowCount +
      UInt16.ofNat (FlowTable.countOn flows i) = (paths i).assignedFlowCount := by
  induction flows generalizing paths with
  | nil => exact UInt16.add_zero _
  | cons e flows ih =>
      rw [List.foldl_cons, ← count_dropFlow paths e.2.assignedPath i,
        ← ih (dropFlow paths e.2.assignedPath), UInt16.add_assoc, ← UInt16.ofNat_add]
      unfold FlowTable.countOn slotCount
      rw [List.countP_cons]
      simp only [decide_eq_true_eq]

end Slots

namespace FlowTable

theorem flowLt_irrefl (a : Int16) : flowLt a a = false := decide_eq_false Int16.lt_irrefl

theorem flowLt_trans (a b c : Int16) (hab : flowLt a b = true) (hbc : flowLt b c = true) :
    flowLt a c = true :=
  decide_eq_true (Int16.lt_trans (of_decide_eq_true hab) (of_decide_eq_true hbc))

theorem flowLt_total (a b : Int16) (hne : a ≠ b) (h : flowLt a b = false) : flowLt b a = true :=
  decide_eq_true (Int16.lt_of_le_of_ne (Int16.not_lt.mp (of_decide_eq_false h)) (Ne.symm hne))

/-- A flow that is written counts in place of the one that it replaces. -/
theorem countOn_set {flows : FlowTable} (h : SortedMap.Sorted flowLt flows) (key : Int16)
    (flow : Flow) (i : PathSlot) :
    countOn (SortedMap.set flowLt key flow flows) i +
        (SortedMap.get key flows).elim 0 (fun old => slotCount old.assignedPath i) =
      countOn flows i + slotCount flow.assignedPath i := by
  have hcount := SortedMap.countP_set flowLt_irrefl flowLt_trans h
    (fun flow : Flow => decide (flow.assignedPath = some i)) key flow
  simp only [decide_eq_true_eq] at hcount
  exact hcount

theorem sorted_set {flows : FlowTable} (h : SortedMap.Sorted flowLt flows) (key : Int16)
    (flow : Flow) : SortedMap.Sorted flowLt (SortedMap.set flowLt key flow flows) :=
  h.set flowLt_trans flowLt_total key flow

theorem oldestFlow_mem {flows : FlowTable} {now : Int64} {e : Int16 × Flow}
    (h : oldestFlow flows now = some e) : e ∈ flows := by
  unfold oldestFlow at h
  have hscan : ∀ (rest : FlowTable) (scan : Scan), (∀ e ∈ rest, e ∈ flows) →
      (∀ e, scan.2 = some e → e ∈ flows) → ∀ e, (rest.foldl (scanFlow now) scan).2 = some e →
        e ∈ flows := by
    intro rest
    induction rest with
    | nil => exact fun scan _ hscan => hscan
    | cons x rest ih =>
        intro scan hrest hscan
        refine ih (scanFlow now scan x) (fun e he => hrest e (List.mem_cons_of_mem x he)) ?_
        intro e he
        unfold scanFlow at he
        split_ifs at he
        · obtain rfl := Option.some.inj he
          exact hrest _ List.mem_cons_self
        · exact hscan e he
  exact hscan flows (0, none) (fun _ he => he) (fun _ he => by cases he) e h

end FlowTable

/-! ### The books -/

namespace Bond

variable {b b' : Bond} {now : Int64} {key : Int16} {flow old : Flow} {i k : PathSlot}

/-- With the books kept, the counters are right unless there are too many flows for them. -/
theorem accounted_iff_lt (h : Ledger b) :
    b.FlowsAccounted ↔ ∀ i, (b.paths i).p.isSome = true → b.flowsOn i < 65536 := by
  unfold FlowsAccounted
  rw [and_iff_left h.held]
  refine forall_congr' fun i => forall_congr' fun _ => ?_
  rw [h.counts i, UInt16.toNat_ofNat']
  exact Nat.mod_eq_iff_lt (by decide)

theorem ledger_init (settings : BondSettings) : Ledger (Bond.init settings) where
  counts _ := rfl
  held _ he := by cases he
  sorted := List.Pairwise.nil

/-- A path may leave its slot where no flow is assigned. -/
theorem Ledger.of_same (h : Ledger b) (hflows : b'.flows = b.flows)
    (hcount : ∀ i, (b'.paths i).assignedFlowCount = (b.paths i).assignedFlowCount)
    (hp : ∀ i, b.flowsOn i ≠ 0 → (b.paths i).p.isSome = true → (b'.paths i).p.isSome = true) :
    Ledger b' where
  counts i := by
    unfold flowsOn
    rw [hcount, hflows]
    exact h.counts i
  held e he := by
    rw [hflows] at he
    obtain ⟨i, hi, hpath⟩ := h.held e he
    have hpos : 0 < b.flowsOn i := List.countP_pos_iff.mpr ⟨e, he, decide_eq_true hi⟩
    exact ⟨i, hi, hp i (Nat.ne_of_gt hpos) hpath⟩
  sorted := by
    rw [hflows]
    exact h.sorted

/-- Some flows are forgotten, and dropped from their slots. -/
theorem Ledger.forget (h : Ledger b) {kept : FlowTable} (hkept : kept.Sublist b.flows)
    (hp : ∀ i, (b'.paths i).p = (b.paths i).p) (hflows : b'.flows = kept) {dropped : PathSlot → ℕ}
    (hcount : ∀ i, (b'.paths i).assignedFlowCount + UInt16.ofNat (dropped i) =
      (b.paths i).assignedFlowCount)
    (hsum : ∀ i, FlowTable.countOn kept i + dropped i = b.flowsOn i) : Ledger b' where
  counts i := by
    have hboth := hcount i
    rw [h.counts i, ← hsum i, UInt16.ofNat_add] at hboth
    unfold flowsOn
    rw [hflows]
    exact (UInt16.add_left_inj _).mp hboth
  held e he := by
    rw [hflows] at he
    obtain ⟨i, hi, hpath⟩ := h.held e (hkept.mem he)
    exact ⟨i, hi, (hp i).symm ▸ hpath⟩
  sorted := by
    rw [hflows]
    exact h.sorted.sublist hkept

theorem Ledger.forgetOlder (h : Ledger b) (now : Int64) (age : UInt64) :
    Ledger (b.forgetOlder now age) := by
  refine h.forget List.filter_sublist
    (fun i => (Slots.sameUse_foldl_dropFlow _ b.paths i).p) rfl
    (Slots.count_foldl_dropFlow (b.flows.filter (FlowTable.isOlder age now)) b.paths) fun i => ?_
  unfold flowsOn FlowTable.countOn
  rw [List.countP_eq_countP_filter_add b.flows _ (FlowTable.isOlder age now), Nat.add_comm]

theorem Ledger.forgetOldest (h : Ledger b) (now : Int64) : Ledger (b.forgetOldest now) := by
  unfold Bond.forgetOldest
  rcases holdest : FlowTable.oldestFlow b.flows now with - | e
  · exact h
  · have hmem := FlowTable.oldestFlow_mem holdest
    refine h.forget (List.erase_sublist (a := e))
      (fun i => (Slots.sameUse_dropFlow b.paths e.2.assignedPath i).p) rfl
      (Slots.count_dropFlow b.paths e.2.assignedPath) fun i => ?_
    have hperm := (List.perm_cons_erase hmem).countP_eq
      (fun e => decide (e.2.assignedPath = some i))
    rw [List.countP_cons] at hperm
    simp only [decide_eq_true_eq] at hperm
    exact hperm.symm

theorem Ledger.forgetFlows (h : Ledger b) (now : Int64) (age : UInt64) (oldest : Bool) :
    Ledger (b.forgetFlowsWhenNecessary now age oldest) := by
  unfold forgetFlowsWhenNecessary
  split_ifs
  · exact h.forgetOlder now age
  · exact h.forgetOldest now
  · exact h

/-- A flow is written anew in its slot. -/
theorem Ledger.putFlow_same (h : Ledger b) (hget : SortedMap.get key b.flows = some old)
    (hsame : flow.assignedPath = old.assignedPath) : Ledger (b.putFlow key flow) where
  counts i := by
    have hset := FlowTable.countOn_set h.sorted key flow i
    rw [hget, Option.elim_some, hsame] at hset
    refine (h.counts i).trans ?_
    exact congrArg UInt16.ofNat (Nat.add_right_cancel hset).symm
  held e he := by
    rcases SortedMap.mem_set he with he | rfl
    · exact h.held e he
    · obtain ⟨i, hi, hp⟩ := h.held (key, old) (SortedMap.mem_of_get hget)
      exact ⟨i, hsame.trans hi, hp⟩
  sorted := FlowTable.sorted_set h.sorted key flow

/-- A new flow is counted in its slot. -/
theorem Ledger.putFlow_new (h : Ledger b) (hget : SortedMap.get key b.flows = none)
    (hassigned : flow.assignedPath = some k) (hp : (b.paths k).p.isSome = true) :
    Ledger ((b.countFlow k).putFlow key flow) where
  counts i := by
    have hset := FlowTable.countOn_set h.sorted key flow i
    rw [hget, Option.elim_none, hassigned, Nat.add_zero] at hset
    refine (Slots.count_addFlow b.paths k i).trans ?_
    rw [h.counts i, ← UInt16.ofNat_add]
    exact congrArg UInt16.ofNat hset.symm
  held e he := by
    have huse := (b.sameBonding_countFlow k).use
    rcases SortedMap.mem_set he with he | rfl
    · obtain ⟨i, hi, hpath⟩ := h.held e he
      exact ⟨i, hi, (huse i).p.symm ▸ hpath⟩
    · exact ⟨k, hassigned, (huse k).p.symm ▸ hp⟩
  sorted := FlowTable.sorted_set h.sorted key flow

/-- A flow is moved from its slot to another. -/
theorem Ledger.move (h : Ledger b) (hget : SortedMap.get key b.flows = some old)
    (hold : old.assignedPath = some i) (hassigned : flow.assignedPath = some k)
    (hp : (b.paths k).p.isSome = true) :
    Ledger { (b.countFlow k).putFlow key flow with
      paths := Slots.dropFlow (b.countFlow k).paths (some i) } where
  counts j := by
    have hset := FlowTable.countOn_set h.sorted key flow j
    rw [hget, Option.elim_some, hassigned, hold] at hset
    -- the new slot is counted up before the old one is counted down
    have hdrop := Slots.count_dropFlow (b.countFlow k).paths (some i) j
    have hadd : ((b.countFlow k).paths j).assignedFlowCount =
        (b.paths j).assignedFlowCount + UInt16.ofNat (slotCount (some k) j) :=
      Slots.count_addFlow b.paths k j
    rw [hadd, h.counts j, ← UInt16.ofNat_add] at hdrop
    refine (UInt16.add_left_inj (UInt16.ofNat (slotCount (some i) j))).mp (hdrop.trans ?_)
    rw [← UInt16.ofNat_add]
    exact congrArg UInt16.ofNat hset.symm
  held e he := by
    have huse := (b.sameBonding_countFlow k).use
    have hpaths : ∀ j, (Slots.dropFlow (b.countFlow k).paths (some i) j).p = (b.paths j).p :=
      fun j => (Slots.sameUse_dropFlow (b.countFlow k).paths (some i) j).p.trans (huse j).p
    rcases SortedMap.mem_set he with he | rfl
    · obtain ⟨j, hj, hpath⟩ := h.held e he
      exact ⟨j, hj, (hpaths j).symm ▸ hpath⟩
    · exact ⟨k, hassigned, (hpaths k).symm ▸ hp⟩
  sorted := FlowTable.sorted_set h.sorted key flow

/-! ### The slot of an assigned flow -/

/-- There is no index that is next best yet, or its path is there. -/
def NextIsThere (b : Bond) (search : Search) : Prop :=
  search.nextBestQualIdx = maxPeerNetworkPaths ∨
    (b.bondedPath search.nextBestQualIdx).isSome = true

variable {capacity : FloatValue} {search : Search}

/-- What a turn of the loop comes to is not at a slot without path. -/
theorem searchTurn_isThere (hnext : b.NextIsThere search) (capacity : FloatValue) (place : ℕ) :
    (∀ j, b.searchTurn capacity place search = .acceptable j → (b.bondedPath j).isSome = true) ∧
      ∀ search', b.searchTurn capacity place search = .next search' → b.NextIsThere search' := by
  rcases hreal : b.realIdx (b.indexFrom place search.offset) with - | i
  · have hturn : b.searchTurn capacity place search = .invalid := by
      unfold searchTurn
      unfold indexFrom at hreal
      dsimp only
      rw [hreal]
    rw [hturn]
    refine ⟨fun j hj => ?_, fun search' hsearch => ?_⟩
    · cases hj
    · cases hsearch
  · have hsome (hthere : ¬(b.paths i).p.isNone = true) :
        (b.bondedPath (b.indexFrom place search.offset)).isSome = true := by
      rw [bondedPath_of_realIdx hreal, Option.isSome_iff_ne_none]
      exact fun h => hthere (Option.isNone_iff_eq_none.mpr h)
    rw [searchTurn_eq hreal]
    split_ifs with hnone hacc
    · -- a slot without path is passed by
      refine ⟨fun j hj => ?_, fun search' hsearch => ?_⟩
      · cases hj
      · obtain rfl := Turn.next.inj hsearch
        exact hnext
    · refine ⟨fun j hj => ?_, fun search' hsearch => ?_⟩
      · obtain rfl := Turn.acceptable.inj hj
        exact hsome hnone
      · cases hsearch
    · refine ⟨fun j hj => ?_, fun search' hsearch => ?_⟩
      · cases hj
      · obtain rfl := Turn.next.inj hsearch
        unfold NextIsThere
        rcases search.advance_next (b.indexFrom place search.offset) (b.paths i).relativeQuality
          with hidx | hidx
        · rw [hidx]
          exact Or.inr (hsome hnone)
        · rw [hidx]
          exact hnext

/-- The loop never comes to a slot without path. -/
theorem yields_searchLoop {first : ℕ → ℕ} (turns n : ℕ) (hnext : b.NextIsThere search) :
    Yields (b.searchLoop capacity first turns n search) fun j =>
      j = maxPeerNetworkPaths ∨ (b.bondedPath j).isSome = true := by
  -- on the turns: the next best index is written where there is a path only
  induction turns generalizing n search with
  | zero => exact yields_error _
  | succ turns ih =>
      by_cases hlt : search.offset < b.numBondedPaths
      · obtain ⟨hacceptable, hrest⟩ := searchTurn_isThere hnext capacity (first n)
        rw [searchLoop, if_pos hlt]
        rcases hturn : b.searchTurn capacity (first n) search with - | j | search'
        · exact yields_error _
        · exact yields_ok (Or.inr (hacceptable j hturn))
        · exact ih (n + 1) (hrest search' hturn)
      · rw [searchLoop_end hlt]
        exact yields_ok hnext

/-- What is kept of a bond in between: its paths are numbered and its books are kept, and under
`balance-xor` no path is missing. -/
structure Kept (b : Bond) : Prop where
  numbered : Numbered b
  ledger : Ledger b
  policy : b.settings.policy = .balanceXOR ∨ b.settings.policy = .balanceAware
  there : b.settings.policy = .balanceXOR → b.AllThere

theorem Kept.of_same (h : Kept b) (hsame : SameBonding b b') (hledger : Ledger b') : Kept b' where
  numbered := hsame.numbered h.numbered
  ledger := hledger
  policy := hsame.settings.symm ▸ h.policy
  there hpolicy := hsame.allThere (h.there (hsame.settings ▸ hpolicy))

/-- **A flow is assigned** to a slot with a path, and counted there. -/
theorem yields_assign_slot (h : Kept b) (hnum : b.numBondedPaths ≠ 0) (flow : Flow) (now : Int64)
    (reassign : Bool) (entropy : Entropy) :
    Yields (b.assignFlowToBondedPath flow now reassign entropy) fun out =>
      ∃ k, out = some (b.countFlow k, flow.assignPath (some k) now) ∧
        (b.paths k).p.isSome = true := by
  have hslot : ∀ j, (b.bondedPath j).isSome = true →
      Yields ((b.assignTo flow now (b.realIdx j)).map some) fun out =>
        ∃ k, out = some (b.countFlow k, flow.assignPath (some k) now) ∧
          (b.paths k).p.isSome = true := by
    intro j hj
    rcases hreal : b.realIdx j with - | k
    · exact yields_error _
    · rw [bondedPath_of_realIdx hreal] at hj
      exact yields_ok ⟨k, rfl, hj⟩
  rcases h.policy with hpolicy | hpolicy
  · rw [assign_xor hnum hpolicy]
    exact hslot _ (h.there hpolicy _ (xorIdx_lt hnum flow))
  · rw [assign_aware hnum hpolicy]
    have hloop : Yields (b.awareIdx flow reassign entropy) fun j =>
        j = maxPeerNetworkPaths ∨ (b.bondedPath j).isSome = true := by
      unfold awareIdx
      split_ifs
      · exact yields_error _
      · exact yields_searchLoop entropy.turns 0 (Or.inl rfl)
    refine hloop.bind fun j hj => ?_
    rcases hj with rfl | hj
    · -- behind the end
      exact yields_error _
    · exact hslot j hj

/-! ### New flows -/

variable {flowId : Int32} {entropy : Entropy} {freeRandomByte : UInt8} {path : Path}

theorem ledger_evicted (h : Ledger b) (now : Int64) : Ledger (b.evicted now) := by
  unfold evicted
  split_ifs
  · exact h.forgetFlows now 0 true
  · exact h

/-- A key that is not in the table isn't after an eviction either. -/
theorem get_evicted (hget : SortedMap.get key b.flows = none) (now : Int64) :
    SortedMap.get key (b.evicted now).flows = none := by
  have hsublist : (b.evicted now).flows.Sublist b.flows := by
    unfold evicted forgetFlowsWhenNecessary forgetOldest
    rw [if_neg (not_not.mpr rfl), if_pos rfl]
    split_ifs
    · rcases FlowTable.oldestFlow b.flows now with - | e
      · exact List.Sublist.refl _
      · exact List.erase_sublist
    · exact List.Sublist.refl _
  rcases hfound : SortedMap.get key (b.evicted now).flows with - | flow
  · rfl
  · have hmem := hsublist.mem (SortedMap.mem_of_get hfound)
    exact absurd hget (SortedMap.get_ne_none (List.mem_map.mpr ⟨_, hmem, rfl⟩))

theorem kept_evicted (h : Kept b) (now : Int64) : Kept (b.evicted now) :=
  h.of_same (b.sameBonding_evicted now) (ledger_evicted h.ledger now)

/-- A flow of the remote peer is counted in the slot that the peer chose. -/
theorem yields_createFlow_in (h : Kept b) (hget : SortedMap.get flowId.toInt16 b.flows = none)
    (hp : (b.paths i).p.isSome = true) :
    Yields (b.createFlow now (some i) flowId entropy) fun out => ∀ o ∈ out, Kept o.1 := by
  have hsame := b.yields_createFlow now (some i) flowId entropy
  intro out hout o ho
  refine h.of_same (hsame out hout o ho) ?_
  unfold createFlow at hout
  by_cases hnum : b.numBondedPaths = 0
  · rw [if_pos hnum] at hout
    obtain rfl := Except.ok.inj hout
    cases ho
  · rw [if_neg hnum] at hout
    obtain rfl := Except.ok.inj hout
    obtain rfl := Option.some.inj ho
    refine (ledger_evicted h.ledger now).putFlow_new (get_evicted hget now) rfl ?_
    rw [((b.sameBonding_evicted now).use i).p]
    exact hp

/-- A flow of a packet that leaves is counted in the slot that it is assigned to. -/
theorem yields_createFlow_out (h : Kept b) (hnum : b.numBondedPaths ≠ 0)
    (hget : SortedMap.get flowId.toInt16 b.flows = none) :
    Yields (b.createFlow now none flowId entropy) fun out => ∀ o ∈ out, Kept o.1 := by
  have hsame := b.yields_createFlow now none flowId entropy
  have hevicted := kept_evicted h now
  have hnum' : (b.evicted now).numBondedPaths ≠ 0 :=
    (b.sameBonding_evicted now).numBondedPaths.symm ▸ hnum
  intro out hout o ho
  refine h.of_same (hsame out hout o ho) ?_
  rw [createFlow_eq hnum] at hout
  rcases hassign : (b.evicted now).assignFlowToBondedPath ⟨flowId, now, 0, none⟩ now false entropy
    with fault | assigned
  · rw [hassign] at hout
    cases hout
  · obtain ⟨k, rfl, hp⟩ := yields_assign_slot hevicted hnum' _ now false entropy _ hassign
    rw [hassign] at hout
    obtain rfl := Except.ok.inj hout
    obtain rfl := Option.some.inj ho
    exact hevicted.ledger.putFlow_new (get_evicted hget now) rfl hp

/-- A packet that leaves. -/
theorem yields_kept_outgoing (h : Kept b) :
    Yields (b.getAppropriatePath now flowId freeRandomByte entropy) fun out => Kept out.1 := by
  unfold getAppropriatePath
  rw [if_neg (BondPolicy.ne_activeBackup h.numbered.balance),
    if_neg (BondPolicy.ne_balanceRR h.policy)]
  by_cases hnone : b.settings.policy.isBalance = false ∨ b.numBondedPaths = 0
  · rw [if_pos hnone]
    exact yields_ok h
  · rw [if_neg hnone]
    have hnum := (not_or.mp hnone).2
    unfold getPathOfFlow
    by_cases hflow : flowId = noFlowId
    · rw [if_pos hflow]
      exact Yields.map fun path _ => h
    · rw [if_neg hflow]
      rcases hget : SortedMap.get flowId.toInt16 b.flows with - | flow
      · -- a new flow, which is read even if it was not assigned
        refine (yields_createFlow_out h hnum hget).bind fun out hout => ?_
        rcases out with - | o
        · exact yields_error _
        · exact Yields.map fun path _ => hout o rfl
      · refine Yields.map fun path _ => h.of_same (b.sameBonding_putFlow _ _) ?_
        exact h.ledger.putFlow_same hget rfl

/-! ### Packets that come in -/

theorem kept_setSlot (h : Kept b) {np : NominatedPath} (hsame : SameUse (b.paths i) np)
    (hcount : np.assignedFlowCount = (b.paths i).assignedFlowCount) : Kept (b.setSlot i np) := by
  have hbonding := b.sameBonding_setSlot i hsame
  refine h.of_same hbonding (h.ledger.of_same rfl (fun j => ?_) fun j _ hp => ?_)
  · show (Function.update b.paths i np j).assignedFlowCount = _
    by_cases hj : j = i
    · rw [hj, Function.update_self]
      exact hcount
    · rw [Function.update_of_ne hj]
  · rw [(hbonding.use j).p]
    exact hp

theorem kept_noteAlive (h : Kept b) (now : Int64) (i : PathSlot) : Kept (b.noteAlive now i) := by
  unfold noteAlive
  split_ifs
  · exact h
  · exact kept_setSlot h ⟨rfl, rfl, rfl⟩ rfl

theorem kept_receivedQoS (h : Kept b) (now : Int64) (path : Path) :
    Kept (b.receivedQoS now path) := by
  unfold receivedQoS
  rcases b.getNominatedPathIdx path with - | i
  · exact h
  · exact kept_setSlot h ⟨rfl, rfl, rfl⟩ rfl

theorem yields_kept_incoming (h : Kept b) :
    Yields (b.recordIncomingPacket now path flowId) Kept := by
  unfold recordIncomingPacket
  rcases hidx : b.getNominatedPathIdx path with - | i
  · exact yields_ok h
  · have halive := kept_noteAlive h now i
    have hp : ((b.noteAlive now i).paths i).p.isSome = true := by
      have hfound : (b.paths i).p = some path :=
        beq_iff_eq.mp (List.find?_some (p := fun i => (b.paths i).p == some path) hidx)
      rw [((b.sameBonding_noteAlive now i).use i).p, hfound]
      rfl
    show Yields ((b.noteAlive now i).learnFlow now i flowId) Kept
    unfold learnFlow
    split_ifs with hlearn
    · -- the flow is new, and the peer chose the slot
      refine Yields.map ((yields_createFlow_in halive
        (Option.isNone_iff_eq_none.mp hlearn.2.2) hp).mono fun out hout => ?_)
      rcases out with - | o
      · exact halive
      · exact hout o rfl
    · exact yields_ok halive

/-! ### Curating the bond -/

/-- A slot counts what it counted after the first loop, unless its path left it. -/
theorem count_curatedPaths (b : Bond) (s : Surroundings) (now : Int64) (i : PathSlot)
    (hstays : (b.paths i).leaves s now = false) :
    (b.curatedPaths s now i).assignedFlowCount = (b.paths i).assignedFlowCount := by
  rcases b.curatedPaths_cases s now i with
    ⟨-, hcurated⟩ | ⟨path, -, hleaves, -⟩ | ⟨path, -, -, hcurated⟩
  · rw [hcurated]
  · rw [hstays] at hleaves
    cases hleaves
  · rw [hcurated]
    rfl

/-- A path that leaves takes nothing with it but an empty counter. -/
theorem count_curatedPaths_leaves (b : Bond) (s : Surroundings) (now : Int64) (i : PathSlot)
    (hleaves : (b.paths i).leaves s now = true) :
    (b.curatedPaths s now i).assignedFlowCount = 0 := by
  rcases b.curatedPaths_cases s now i with
    ⟨hp, -⟩ | ⟨path, -, -, hcurated⟩ | ⟨path, -, hstays, -⟩
  · unfold NominatedPath.leaves at hleaves
    rw [hp] at hleaves
    cases hleaves
  · rw [hcurated]
    rfl
  · rw [hstays] at hleaves
    cases hleaves

/-- A bond has the paths and the counters that its first loop left. -/
theorem curateBond_slots (b : Bond) (s : Surroundings) (now : Int64) (rebuildBond : Bool)
    (i : PathSlot) :
    ((b.curateBond s now rebuildBond).paths i).assignedFlowCount =
        (b.curatedPaths s now i).assignedFlowCount ∧
      ((b.curateBond s now rebuildBond).paths i).p = (b.curatedPaths s now i).p := by
  unfold curateBond
  dsimp only
  split_ifs
  · exact ⟨rfl, rfl⟩
  · exact ⟨rfl, rfl⟩
  · exact ⟨rfl, rfl⟩
  · exact ⟨rfl, rfl⟩
  · exact ⟨rfl, rfl⟩

theorem flows_curateBond (b : Bond) (s : Surroundings) (now : Int64) (rebuildBond : Bool) :
    (b.curateBond s now rebuildBond).flows = b.flows := by
  unfold curateBond
  dsimp only
  split_ifs
  · rfl
  · rfl
  · rfl
  · rfl
  · rfl

/-- **The books are kept by `Bond::curateBond`** where flows keep their paths. -/
theorem ledger_curateBond (h : Ledger b) (s : Surroundings) (now : Int64) (rebuildBond : Bool)
    (hstay : ∀ i, b.flowsOn i ≠ 0 → (b.paths i).leaves s now = false) :
    Ledger (b.curateBond s now rebuildBond) := by
  refine h.of_same (flows_curateBond b s now rebuildBond) (fun i => ?_) fun i hflows hp => ?_
  · refine (curateBond_slots b s now rebuildBond i).1.trans ?_
    rcases hleaves : (b.paths i).leaves s now with - | -
    · exact count_curatedPaths b s now i hleaves
    · -- no flow is assigned here
      have hzero : b.flowsOn i = 0 := by
        by_contra hne
        rw [hstay i hne] at hleaves
        cases hleaves
      rw [count_curatedPaths_leaves b s now i hleaves, h.counts i, hzero]
      rfl
  · rw [(curateBond_slots b s now rebuildBond i).2, curatedPaths_p, hstay i hflows,
      if_neg Bool.false_ne_true]
    exact hp

theorem ledger_estimate (h : Ledger b) (estimates : PathSlot → PathEstimate) :
    Ledger (b.estimatePathQuality estimates) := h.of_same rfl (fun _ => rfl) fun _ _ hp => hp

/-- A nomination counts no flow. -/
theorem ledger_nominate (h : Ledger b) (s : Surroundings) (now : Int64) (path : Path) :
    Ledger (b.nominate s now path).2 := by
  rcases b.nominate_cases s now path with heq | ⟨f, link, -, -, heq⟩
  · rw [heq]
    exact h
  · rw [heq]
    refine h.of_same rfl (fun i => ?_) fun i _ hp => ?_
    · unfold nominateAt
      dsimp only
      split_ifs
      · rfl
      · rfl
      · rfl
    · rw [nominateAt_p]
      split_ifs
      · rfl
      · exact hp

theorem flowsOn_nominate (b : Bond) (s : Surroundings) (now : Int64) (path : Path) (i : PathSlot) :
    (b.nominate s now path).2.flowsOn i = b.flowsOn i := by
  rcases b.nominate_cases s now path with heq | ⟨f, link, -, -, heq⟩
  · rw [heq]
  · rw [heq]
    rfl

theorem ledger_nominatePathToBond (h : Ledger b) {s : Surroundings}
    {estimates : PathSlot → PathEstimate}
    (hkeeps : b.KeepsFlowPaths (.nominate s now path estimates)) :
    Ledger (b.nominatePathToBond s now path estimates) := by
  unfold nominatePathToBond
  dsimp only
  split_ifs with hallowed
  · refine ledger_estimate (ledger_curateBond (ledger_nominate h _ now path) _ now true ?_)
      estimates
    intro i hi
    rw [flowsOn_nominate] at hi
    exact hkeeps hallowed i hi
  · exact h

/-! ### Moving flows -/

/-- A flow that is assigned again takes its count along. -/
theorem yields_kept_moveFlow (h : Kept b) (hnum : b.numBondedPaths ≠ 0) (now : Int64)
    (entropy : Entropy) {e : Int16 × Flow} (hget : SortedMap.get e.1 b.flows = some e.2)
    (hslot : e.2.assignedPath = some i) :
    Yields (moveFlow now b entropy e i) fun b' => Kept b' ∧
      ∀ key, key ≠ e.1 → SortedMap.get key b'.flows = SortedMap.get key b.flows := by
  have hsame := b.yields_moveFlow now entropy e i
  intro b' hb'
  have hkept := h.of_same (hsame b' hb')
  unfold moveFlow at hb'
  rcases hassign : b.assignFlowToBondedPath e.2 now true entropy with fault | assigned
  · rw [hassign] at hb'
    cases hb'
  · obtain ⟨k, rfl, hp⟩ := yields_assign_slot h hnum e.2 now true entropy _ hassign
    rw [hassign] at hb'
    obtain rfl := Except.ok.inj hb'
    refine ⟨hkept (h.ledger.move hget hslot rfl hp), fun key hkey => ?_⟩
    exact (SortedMap.get_set flowLt e.1 key _ b.flows).trans (if_neg hkey)

/-- The rest of the flows is found as it was. -/
theorem yields_kept_moveFromDead (now : Int64) (entropy : Int16 → Entropy) (flows : FlowTable)
    (b : Bond) (h : Kept b) (hnum : b.numBondedPaths ≠ 0) (hnodup : (flows.map Prod.fst).Nodup)
    (hget : ∀ e ∈ flows, SortedMap.get e.1 b.flows = some e.2) :
    Yields (moveFromDead now entropy flows b) Kept := by
  -- on the flows to come: the one that moves is written under its own key
  induction flows generalizing b with
  | nil => exact yields_ok h
  | cons e flows ih =>
      obtain ⟨hfirst, hrest⟩ := List.nodup_cons.mp hnodup
      have htail : ∀ e' ∈ flows, SortedMap.get e'.1 b.flows = some e'.2 :=
        fun e' he' => hget e' (List.mem_cons_of_mem e he')
      unfold moveFromDead
      rcases hslot : e.2.assignedPath with - | i
      · exact yields_error _
      · dsimp only
        by_cases hdead : NominatedPath.isDead (b.paths i) = true
        · rw [if_pos hdead]
          have hmove := yields_kept_moveFlow h hnum now (entropy e.1)
            (hget e List.mem_cons_self) hslot
          have hsame := b.yields_moveFlow now (entropy e.1) e i
          intro b'' hb''
          rcases hb' : moveFlow now b (entropy e.1) e i with fault | b'
          · rw [hb'] at hb''
            cases hb''
          · rw [hb'] at hb''
            obtain ⟨hkept, hothers⟩ := hmove b' hb'
            have hnum' : b'.numBondedPaths ≠ 0 := (hsame b' hb').numBondedPaths.symm ▸ hnum
            refine ih b' hkept hnum' hrest (fun e' he' => ?_) b'' hb''
            have hne : e'.1 ≠ e.1 := by
              intro heq
              exact hfirst (List.mem_map.mpr ⟨e', he', heq⟩)
            rw [hothers e'.1 hne]
            exact htail e' he'
        · rw [if_neg hdead]
          exact ih b h hnum hrest htail

theorem yields_kept_moveOneAvoided (entropy : Int16 → Entropy) (flows : FlowTable)
    (h : Kept b) (hnum : b.numBondedPaths ≠ 0)
    (hget : ∀ e ∈ flows, SortedMap.get e.1 b.flows = some e.2) :
    Yields (moveOneAvoided now entropy flows b) Kept := by
  induction flows with
  | nil => exact yields_ok h
  | cons e flows ih =>
      unfold moveOneAvoided
      rcases hslot : e.2.assignedPath with - | i
      · exact yields_error _
      · dsimp only
        by_cases havoided : NominatedPath.isAvoided (b.paths i) = true
        · rw [if_pos havoided]
          have hhead := hget e List.mem_cons_self
          exact (yields_kept_moveFlow h hnum now (entropy e.1) hhead hslot).mono fun b' hb' => hb'.1
        · rw [if_neg havoided]
          exact ih fun e' he' => hget e' (List.mem_cons_of_mem e he')

theorem kept_expireFlows (h : Kept b) (now : Int64) : Kept (b.expireFlows now) := by
  refine h.of_same (b.sameBonding_expireFlows now) ?_
  unfold expireFlows
  split_ifs
  · exact (h.ledger.forgetFlows now bondPathExpiration false).of_same rfl (fun _ => rfl)
      fun _ _ hp => hp
  · exact h.ledger

/-- Every flow of the table is found under its key. -/
theorem Ledger.get_eq (h : Ledger b) {e : Int16 × Flow} (he : e ∈ b.flows) :
    SortedMap.get e.1 b.flows = some e.2 :=
  SortedMap.get_of_mem (h.sorted.nodup FlowTable.flowLt_irrefl) he

/-- **A balance pass keeps the books.** -/
theorem yields_kept_balance (h : Kept b) (dead avoided : Int16 → Entropy) :
    Yields (processBalanceTasks now b dead avoided) Kept := by
  unfold processBalanceTasks
  by_cases hnum : b.numBondedPaths = 0
  · rw [if_pos hnum]
    exact yields_ok h
  · rw [if_neg hnum]
    dsimp only
    have hexpired := kept_expireFlows h now
    have hnum' : (b.expireFlows now).numBondedPaths ≠ 0 :=
      (b.sameBonding_expireFlows now).numBondedPaths.symm ▸ hnum
    generalize expireFlows now b = b' at hexpired hnum' ⊢
    have hdead := yields_kept_moveFromDead now dead b'.flows b' hexpired hnum'
      (hexpired.ledger.sorted.nodup FlowTable.flowLt_irrefl) fun e he => hexpired.ledger.get_eq he
    have hsame := yields_moveFromDead now dead b'.flows b'
    rcases hexpired.policy with hpolicy | hpolicy
    · rw [hpolicy]
      exact hdead
    · -- balance-aware: one flow more is moved, from an avoided path
      rw [hpolicy]
      intro b₃ hb₃
      rcases hmoved : moveFromDead now dead b'.flows b' with fault | b''
      · rw [hmoved] at hb₃
        cases hb₃
      · rw [hmoved] at hb₃
        have hkept := hdead b'' hmoved
        have hnum'' : b''.numBondedPaths ≠ 0 := (hsame b'' hmoved).numBondedPaths.symm ▸ hnum'
        exact yields_kept_moveOneAvoided avoided b''.flows hkept hnum''
          (fun e he => hkept.ledger.get_eq he) b₃ hb₃

/-! ### Events -/

variable {rules : ScoreRules} {sorting : QueueSort} {event : BondEvent}

/-- A round of the background tasks. -/
theorem yields_kept_background (h : Kept b) {s : Surroundings}
    {estimates : Option (PathSlot → PathEstimate)} {dead avoided : Int16 → Entropy}
    (hkeeps : b.KeepsFlows (.background s now estimates dead avoided)) :
    Yields (b.processBackgroundBondTasks rules sorting s now estimates dead avoided) Kept := by
  have hb := h.numbered
  have hsettings := settings_curateBond b s now false
  have hcurated : Kept (b.curateBond s now false) := by
    refine ⟨?_, ledger_curateBond h.ledger s now false hkeeps.1, hsettings.symm ▸ h.policy, ?_⟩
    · exact numbered_curate b s now false hb.balance hb.onePlace hb.rrIdx_zero fun _ => hb
    · intro hpolicy
      rw [hsettings] at hpolicy
      exact (allThere_curate_iff hb (h.there hpolicy)).mpr (hkeeps.2 hpolicy)
  unfold processBackgroundBondTasks
  dsimp only
  generalize b.curateBond s now false = b₁ at hcurated ⊢
  have hestimated : Kept (estimates.elim b₁ b₁.estimatePathQuality) := by
    rcases estimates with - | estimates
    · exact hcurated
    · exact hcurated.of_same (b₁.sameBonding_estimate estimates)
        (ledger_estimate hcurated.ledger estimates)
  generalize estimates.elim b₁ b₁.estimatePathQuality = b₂ at hestimated ⊢
  have hbalance := hestimated.numbered.balance
  unfold processPolicyTasks
  rw [if_neg (BondPolicy.ne_activeBackup hbalance), if_pos hbalance]
  exact yields_kept_balance hestimated dead avoided

/-- **One event** that meets the condition keeps the books. -/
theorem yields_kept (h : Kept b) (hkeeps : b.KeepsFlows event) :
    Yields (b.handle rules sorting event) fun out => Kept out.1 := by
  rcases event with ⟨s, now, path, estimates⟩ | ⟨s, now, estimates, dead, avoided⟩ |
    ⟨now, flowId, freeRandomByte, entropy⟩ | ⟨now, path, flowId⟩ | ⟨now, path⟩ | now
  · have hsettings : (b.nominatePathToBond s now path estimates).settings = b.settings :=
      yields_handle_settings h.numbered rules sorting (.nominate s now path estimates) _ rfl
    refine yields_ok ⟨numbered_nominatePathToBond h.numbered s now path estimates,
      ledger_nominatePathToBond h.ledger hkeeps.1, hsettings.symm ▸ h.policy, fun hpolicy => ?_⟩
    exact allThere_nominatePathToBond h.numbered (h.there (hsettings ▸ hpolicy)) path estimates
  · exact Yields.map (yields_kept_background h hkeeps)
  · exact Yields.map (yields_kept_outgoing h)
  · exact Yields.map (yields_kept_incoming h)
  · exact yields_ok (kept_receivedQoS h now path)
  · refine yields_ok ?_
    show Kept (b.abForciblyRotateLink now)
    rw [numbered_abForciblyRotateLink h.numbered]
    exact h

end Bond

/-! ### Runs -/

/-- **Flow accounting over whole runs**, under `balance-xor` and `balance-aware`: where no path that
flows are assigned to leaves its slot, and under `balance-xor` no bonded path does without a
rebuild, the flows are accounted for in every state that is reached, unless there are 65536 of them
in one slot. -/
theorem flowsAccounted_iff (rules : ScoreRules) (sorting : QueueSort) {settings : BondSettings}
    (hpolicy : settings.policy = .balanceXOR ∨ settings.policy = .balanceAware)
    {events : List BondEvent}
    (hkeeps : (bondMachine rules sorting).Guarded
      (fun state event => OfBond (fun b => b.KeepsFlows event) state) (.ok (Bond.init settings))
      events) :
    OfBond (fun b => b.FlowsAccounted ↔
        ∀ i, (b.paths i).p.isSome = true → b.flowsOn i < 65536)
      ((bondMachine rules sorting).runState (.ok (Bond.init settings)) events) := by
  have hinit : OfBond Bond.Kept (.ok (Bond.init settings)) := by
    refine ⟨numbered_init (BondPolicy.isBalance_of_flows hpolicy), Bond.ledger_init settings,
      hpolicy, fun _ j hj => ?_⟩
    exact absurd hj (Nat.not_lt_zero j)
  have hstep : ∀ (before : List BondEvent) (state : BondState) (event : BondEvent),
      OfBond Bond.Kept state → OfBond (fun b => b.KeepsFlows event) state →
        OfBond Bond.Kept ((bondMachine rules sorting).step state event).1 := by
    rintro before (fault | b) event hstate hevent
    · trivial
    · exact step_ok (Bond.yields_kept hstate hevent)
  have hkept := Machine.invariant_run (I := fun _ => OfBond Bond.Kept) hstep (h := []) hinit hkeeps
  generalize (bondMachine rules sorting).runState (.ok (Bond.init settings)) events = state
    at hkept ⊢
  rcases state with fault | b
  · trivial
  · exact Bond.accounted_iff_lt hkept.ledger

/-- A packet of a flow that is assigned to the first slot. -/
def firstPacket : BondEvent := .outgoing 1700000000500 0 0 ⟨fun _ => 0, 0⟩

theorem flows_nominatePathToBond (b : Bond) (s : Surroundings) (now : Int64) (path : Path)
    (estimates : PathSlot → PathEstimate) :
    (b.nominatePathToBond s now path estimates).flows = b.flows := by
  unfold Bond.nominatePathToBond
  dsimp only
  split_ifs
  · show (Bond.curateBond _ _ _ _).flows = b.flows
    rw [Bond.flows_curateBond]
    rcases b.nominate_cases (s.createLink path.localSocket) now path with heq | ⟨f, link, -, -, heq⟩
    · rw [heq]
    · rw [heq]
      rfl
  · rfl

/-- Nominations assign no flow, so that no path can leave its flows behind. -/
theorem keepsFlows_nominate {b : Bond} (hflows : b.flows = []) (s : Surroundings) (now : Int64)
    (path : Path) (estimates : PathSlot → PathEstimate) :
    b.KeepsFlows (.nominate s now path estimates) := by
  refine ⟨fun _ i hi => ?_, fun _ => trivial⟩
  unfold Bond.flowsOn at hi
  rw [hflows] at hi
  exact absurd rfl hi

theorem keepsFlows_firstPacket {b : Bond} (hflows : b.flows = []) :
    (bondMachine plainRules plainSort).Guarded
      (fun state event => OfBond (fun b => b.KeepsFlows event) state) (.ok b)
      (bothNominated ++ [firstPacket]) := by
  have hsecond := (flows_nominatePathToBond b (twoLinks [1, 2]) 1700000000000 (pathOn 1)
    noEstimates).trans hflows
  generalize hb' : b.nominatePathToBond (twoLinks [1, 2]) 1700000000000 (pathOn 1) noEstimates = b'
    at hsecond
  refine ⟨keepsFlows_nominate hflows _ _ _ _, ?_⟩
  show (bondMachine plainRules plainSort).Guarded _
    (.ok (b.nominatePathToBond (twoLinks [1, 2]) 1700000000000 (pathOn 1) noEstimates)) _
  rw [hb']
  exact ⟨keepsFlows_nominate hsecond _ _ _ _, ⟨trivial, fun _ => trivial⟩, trivial⟩

theorem flowsAccounted_firstPacket : ∃ b, (bondMachine plainRules plainSort).runState
    (.ok (Bond.init (plainSettings .balanceXOR))) (bothNominated ++ [firstPacket]) = .ok b ∧
      (b.FlowsAccounted ↔ ∀ i, (b.paths i).p.isSome = true → b.flowsOn i < 65536) := by
  have hcount : (((bondMachine plainRules plainSort).runState
      (.ok (Bond.init (plainSettings .balanceXOR)))
        (bothNominated ++ [firstPacket])).toOption.map fun b => b.numBondedPaths) = some 2 := by
    decide +kernel
  obtain ⟨b, hb, -⟩ := exists_ok_of_map hcount
  have hpolicy : (plainSettings .balanceXOR).policy = .balanceXOR ∨
      (plainSettings .balanceXOR).policy = .balanceAware := Or.inl rfl
  have haccounted := flowsAccounted_iff plainRules plainSort hpolicy (keepsFlows_firstPacket rfl)
  rw [hb] at haccounted
  exact ⟨b, hb, haccounted⟩

/-- The path of the flow leaves its slot, and the flow stays. -/
theorem not_flowsAccounted_firstLinkGone :
    ¬∀ (rules : ScoreRules) (sorting : QueueSort) (settings : BondSettings)
      (events : List BondEvent),
      settings.policy = .balanceXOR ∨ settings.policy = .balanceAware →
        OfBond Bond.FlowsAccounted
          ((bondMachine rules sorting).runState (.ok (Bond.init settings)) events) := by
  intro h
  have haccounted := h plainRules plainSort (plainSettings .balanceXOR)
    (bothNominated ++ [firstPacket, firstLinkGone]) (Or.inl rfl)
  have hstate : (((bondMachine plainRules plainSort).runState
      (.ok (Bond.init (plainSettings .balanceXOR)))
        (bothNominated ++ [firstPacket, firstLinkGone])).toOption.map fun b =>
          (b.flows.map fun e => e.2.assignedPath, (b.paths firstSlot).p)) =
            some ([some firstSlot], none) := by decide +kernel
  obtain ⟨b, hb, hvalues⟩ := exists_ok_of_map hstate
  obtain ⟨hflows, hp⟩ := Prod.mk.inj hvalues
  rw [hb] at haccounted
  obtain ⟨-, hheld⟩ := haccounted
  have hmem : some firstSlot ∈ b.flows.map fun e => e.2.assignedPath := by
    rw [hflows]
    exact List.mem_singleton_self _
  obtain ⟨e, he, hassigned⟩ := List.mem_map.mp hmem
  obtain ⟨i, hi, hpath⟩ := hheld e he
  rw [hassigned] at hi
  obtain rfl := Option.some.inj hi
  rw [hp] at hpath
  cases hpath

end ZGalaxy
