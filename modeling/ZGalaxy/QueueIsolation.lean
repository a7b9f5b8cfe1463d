/-
ZGalaxy/QueueIsolation.lean

Whether the networks leave each other alone in the scheduler of outgoing frames.

A call serves the blocks in the order of their network ids, and returns at the first one that counts
no frame.  What it does for one network (`SameAsAlone`) is then what it would do if there were no
other network, or nothing at all, and the two are the same only for a block that has no work.  So
where networks have quality of service, one is served as if it were alone exactly if no network
before it counts no frame, or it has no work itself (`sameAsAlone_iff`).  In the source none has.

Main result: `isolated_run`, that in every run a network is served as if it were alone, and its
packets leave as they would if there were no calls for other networks.
-/
import ZGalaxy.ManagedQueues

namespace ZGalaxy

/-! ### A block without work -/

namespace NetworkQoSControlBlock

variable {controlLaw : UInt64 → UInt32 → UInt64} {now : UInt64} {b : NetworkQoSControlBlock}

/-- No queue is in the new or the old list. -/
def Idle (b : NetworkQoSControlBlock) : Prop := b.newQueues = [] ∧ b.oldQueues = []

theorem skipNew_nil (h : b.newQueues = []) : skipNew [] b = b := by
  unfold skipNew
  rw [← h]

theorem atNew_of_nil (h : b.newQueues = []) : b.atNew = b := by
  unfold atNew
  rw [h]
  exact skipNew_nil h

theorem atOld_of_nil (h : b.oldQueues = []) : b.atOld = b := by
  unfold atOld skipOld
  rw [h]

theorem examineNew_of_nil (h : b.newQueues = []) : b.examineNew controlLaw now = (b, none) := by
  unfold examineNew
  rw [h]

theorem examineOld_of_nil (h : b.oldQueues = []) : b.examineOld controlLaw now = (b, none) := by
  unfold examineOld
  rw [h]

/-- A block without work stays as it is. -/
theorem Idle.serve_eq (h : b.Idle) : b.serve controlLaw now = (b, []) := by
  unfold serve
  dsimp only
  rw [atNew_of_nil h.1, examineNew_of_nil h.1, atOld_of_nil h.2, examineOld_of_nil h.2]
  rfl

/-- The loop over the new list leaves the end of it. -/
theorem skipNew_suffix (l : List QueueRef) (b : NetworkQoSControlBlock) :
    (skipNew l b).newQueues <:+ l := by
  induction l generalizing b with
  | nil => exact List.suffix_rfl
  | cons r rest ih =>
      unfold skipNew
      by_cases hcredit : (b.queues r).byteCredit < 0
      · rw [if_pos hcredit]
        exact (ih _).trans (List.suffix_cons r rest)
      · rw [if_neg hcredit]

/-- The loop over the old list leaves the new one, and as many old queues. -/
theorem skipOld_lists (n : ℕ) (b : NetworkQoSControlBlock) :
    (skipOld n b).newQueues = b.newQueues ∧
      (skipOld n b).oldQueues.length = b.oldQueues.length := by
  induction n generalizing b with
  | zero => exact ⟨rfl, rfl⟩
  | succ n ih =>
      unfold skipOld
      rcases hold : b.oldQueues with - | ⟨r, rest⟩
      · exact ⟨rfl, by rw [hold]⟩
      · dsimp only
        by_cases hcredit : (b.queues r).byteCredit < 0
        · rw [if_pos hcredit]
          refine ⟨(ih _).1, (ih _).2.trans ?_⟩
          show (rest ++ [r]).length = (r :: rest).length
          rw [List.length_append, List.length_singleton, List.length_cons]
        · rw [if_neg hcredit]
          exact ⟨rfl, by rw [hold]⟩

/-- An examined queue moves nothing between the lists. -/
theorem examine_lists (controlLaw : UInt64 → UInt32 → UInt64) (b : NetworkQoSControlBlock)
    (now : UInt64) (r : QueueRef) :
    (b.examine controlLaw now r).1.newQueues = b.newQueues ∧
      (b.examine controlLaw now r).1.oldQueues = b.oldQueues := by
  unfold examine
  dsimp only
  rcases ((b.queues r).codelDequeue controlLaw now).2 with - | entry
  · exact ⟨rfl, rfl⟩
  · exact ⟨rfl, rfl⟩

theorem examineOld_newQueues (controlLaw : UInt64 → UInt32 → UInt64) (b : NetworkQoSControlBlock)
    (now : UInt64) : (b.examineOld controlLaw now).1.newQueues = b.newQueues := by
  unfold examineOld
  rcases b.oldQueues with - | ⟨r, rest⟩
  · rfl
  · dsimp only
    rcases (b.examine controlLaw now r).2 with - | entry
    · exact (examine_lists controlLaw b now r).1
    · exact (examine_lists controlLaw b now r).1

/-- A new queue that gives out nothing leaves the new list. -/
theorem examineNew_length (h : (b.examineNew controlLaw now).2 = none) :
    (b.examineNew controlLaw now).1.newQueues.length = b.newQueues.length - 1 := by
  unfold examineNew at h ⊢
  rcases hlist : b.newQueues with - | ⟨r, rest⟩
  · show b.newQueues.length = 0
    rw [hlist]
    rfl
  · rw [hlist] at h
    dsimp only at h ⊢
    rcases hentry : (b.examine controlLaw now r).2 with - | entry
    · rfl
    · rw [hentry] at h
      cases h

/-- An old queue that gives out nothing leaves the old list. -/
theorem examineOld_length (h : (b.examineOld controlLaw now).2 = none) :
    (b.examineOld controlLaw now).1.oldQueues.length = b.oldQueues.length - 1 := by
  unfold examineOld at h ⊢
  rcases hlist : b.oldQueues with - | ⟨r, rest⟩
  · show b.oldQueues.length = 0
    rw [hlist]
    rfl
  · rw [hlist] at h
    dsimp only at h ⊢
    rcases hentry : (b.examine controlLaw now r).2 with - | entry
    · rfl
    · rw [hentry] at h
      cases h

/-- **A block with work changes** or gives out a frame. -/
theorem idle_of_serve_eq (h : b.serve controlLaw now = (b, [])) : b.Idle := by
  obtain ⟨hblock, hframes⟩ := Prod.mk.inj h
  obtain ⟨hfirst, hsecond⟩ := List.append_eq_nil_iff.mp hframes
  rw [Option.toList_eq_nil_iff] at hfirst hsecond
  have hnew : b.newQueues = [] := by
    by_contra hne
    have hpos := List.length_pos_of_ne_nil hne
    have hsuffix := (skipNew_suffix b.newQueues b).length_le
    have hlength := examineNew_length hfirst
    have hlast := congrArg (fun b' => b'.newQueues.length) hblock
    rw [examineOld_newQueues, atOld, (skipOld_lists _ _).1, hlength] at hlast
    have hat : b.atNew.newQueues.length ≤ b.newQueues.length := hsuffix
    omega
  refine ⟨hnew, ?_⟩
  by_contra hne
  have hpos := List.length_pos_of_ne_nil hne
  rw [atNew_of_nil hnew, examineNew_of_nil hnew] at hsecond hblock
  have hlength := examineOld_length hsecond
  have hlast := congrArg (fun b' => b'.oldQueues.length) hblock
  dsimp only at hlast hlength
  rw [hlength, atOld, (skipOld_lists _ _).2] at hlast
  omega

end NetworkQoSControlBlock

/-! ### What a call does for one network -/

/-- A packet of the network. -/
def AqmOutput.ofNetwork (n : NetworkId) : AqmOutput → Bool
  | .sent _ _ nwid _ => nwid == n
  | .emitted network _ => network == n
  | .dropped network _ => network == n

/-- What a call does for a network: the frames of it that leave, and its block. -/
def servedFor (n : NetworkId) (out : QueueBlocks × List AqmOutput) :
    Option NetworkQoSControlBlock × List AqmOutput :=
  (SortedMap.get n out.1, out.2.filter (AqmOutput.ofNetwork n))

/-- The network is served as if its block were the only one. -/
def SameAsAlone (controlLaw : UInt64 → UInt32 → UInt64) (clock : NetworkId → UInt64)
    (blocks : QueueBlocks) (n : NetworkId) (b : NetworkQoSControlBlock) : Prop :=
  servedFor n (aqmDequeue controlLaw clock blocks) =
    servedFor n (aqmDequeue controlLaw clock [(n, b)])

/-- No network before `n` counts no frame. -/
def NoEmptyBefore (blocks : QueueBlocks) (n : NetworkId) : Prop :=
  ∀ e ∈ blocks, e.1 < n → e.2.currEnqueuedPackets ≠ 0

/-- The order of `std::map` on network ids. -/
def InOrder (blocks : QueueBlocks) : Prop := blocks.Pairwise fun e e' => e.1 < e'.1

variable {controlLaw : UInt64 → UInt32 → UInt64} {clock : NetworkId → UInt64}
variable {blocks : QueueBlocks} {n : NetworkId} {b : NetworkQoSControlBlock}

theorem filter_emitted_self (n : NetworkId) (entries : List TXQueueEntry) :
    (entries.map (AqmOutput.emitted n)).filter (AqmOutput.ofNetwork n) =
      entries.map (AqmOutput.emitted n) := by
  rw [List.filter_eq_self]
  intro x hx
  obtain ⟨entry, -, rfl⟩ := List.mem_map.mp hx
  exact beq_self_eq_true n

theorem filter_emitted_of_ne {network : NetworkId} (h : network ≠ n)
    (entries : List TXQueueEntry) :
    (entries.map (AqmOutput.emitted network)).filter (AqmOutput.ofNetwork n) = [] := by
  rw [List.filter_eq_nil_iff]
  intro x hx
  obtain ⟨entry, -, rfl⟩ := List.mem_map.mp hx
  exact fun heq => h (beq_iff_eq.mp heq)

/-- No frame leaves of a network without a block. -/
theorem filter_aqmDequeue_of_not_mem (h : ∀ e ∈ blocks, e.1 ≠ n) :
    (aqmDequeue controlLaw clock blocks).2.filter (AqmOutput.ofNetwork n) = [] := by
  induction blocks with
  | nil => rfl
  | cons e blocks ih =>
      obtain ⟨network, c⟩ := e
      unfold aqmDequeue
      by_cases hempty : c.currEnqueuedPackets = 0
      · rw [if_pos hempty]
        rfl
      · rw [if_neg hempty]
        dsimp only
        rw [List.filter_append, filter_emitted_of_ne (h _ List.mem_cons_self),
          ih fun e he => h e (List.mem_cons_of_mem _ he)]
        rfl

/-- A network alone. -/
theorem servedFor_alone (controlLaw : UInt64 → UInt32 → UInt64) (clock : NetworkId → UInt64)
    (n : NetworkId) (b : NetworkQoSControlBlock) :
    servedFor n (aqmDequeue controlLaw clock [(n, b)]) =
      if b.currEnqueuedPackets = 0 then (some b, [])
      else (some (b.serve controlLaw (clock n)).1,
        (b.serve controlLaw (clock n)).2.map (AqmOutput.emitted n)) := by
  unfold servedFor aqmDequeue aqmDequeue
  split_ifs with hempty
  · rw [SortedMap.get_cons, if_pos rfl]
    rfl
  · dsimp only
    rw [SortedMap.get_cons, if_pos rfl, List.append_nil, filter_emitted_self]

theorem get_of_mem (horder : InOrder blocks) (hmem : (n, b) ∈ blocks) :
    SortedMap.get n blocks = some b :=
  SortedMap.get_of_mem (List.pairwise_map.mpr (horder.imp BitVec.ne_of_lt)) hmem

/-- **What is done for a network** of several: what is done for it alone, or nothing. -/
theorem servedFor_aqmDequeue (horder : InOrder blocks) (hmem : (n, b) ∈ blocks) :
    (NoEmptyBefore blocks n → SameAsAlone controlLaw clock blocks n b) ∧
      (¬NoEmptyBefore blocks n →
        servedFor n (aqmDequeue controlLaw clock blocks) = (some b, [])) := by
  -- on the blocks: those before the network are served and left behind
  induction blocks with
  | nil => cases hmem
  | cons e blocks ih =>
      obtain ⟨network, c⟩ := e
      obtain ⟨hfirst, hrest⟩ := List.pairwise_cons.mp horder
      rcases List.mem_cons.mp hmem with heq | hmem
      · -- the block of the network is the first one
        obtain ⟨rfl, rfl⟩ := Prod.mk.inj heq
        have hnone : NoEmptyBefore ((n, b) :: blocks) n := by
          intro e he hlt
          rcases List.mem_cons.mp he with rfl | he
          · exact absurd hlt (BitVec.lt_irrefl n)
          · exact absurd hlt (BitVec.lt_asymm (hfirst e he))
        refine ⟨fun _ => ?_, fun h => absurd hnone h⟩
        unfold SameAsAlone
        rw [servedFor_alone]
        unfold servedFor aqmDequeue
        by_cases hempty : b.currEnqueuedPackets = 0
        · rw [if_pos hempty, if_pos hempty, SortedMap.get_cons, if_pos rfl]
          rfl
        · rw [if_neg hempty, if_neg hempty]
          dsimp only
          rw [SortedMap.get_cons, if_pos rfl, List.filter_append, filter_emitted_self,
            filter_aqmDequeue_of_not_mem fun e he => (BitVec.ne_of_lt (hfirst e he)).symm,
            List.append_nil]
      · have hlt : network < n := hfirst _ hmem
        have hne : network ≠ n := BitVec.ne_of_lt hlt
        by_cases hempty : c.currEnqueuedPackets = 0
        · -- the call returns at the first block
          refine ⟨fun h => absurd hempty (h _ List.mem_cons_self hlt), fun _ => ?_⟩
          unfold servedFor aqmDequeue
          rw [if_pos hempty, get_of_mem horder (List.mem_cons_of_mem _ hmem)]
          rfl
        · -- the block is served, which is nothing to the network
          have hbefore : NoEmptyBefore ((network, c) :: blocks) n ↔ NoEmptyBefore blocks n := by
            refine ⟨fun h e he => h e (List.mem_cons_of_mem _ he), fun h e he hltn => ?_⟩
            rcases List.mem_cons.mp he with rfl | he
            · exact hempty
            · exact h e he hltn
          have hserved : servedFor n (aqmDequeue controlLaw clock ((network, c) :: blocks)) =
              servedFor n (aqmDequeue controlLaw clock blocks) := by
            rw [aqmDequeue, if_neg hempty]
            unfold servedFor
            dsimp only
            rw [SortedMap.get_cons, if_neg hne, List.filter_append, filter_emitted_of_ne hne,
              List.nil_append]
          rw [hbefore]
          unfold SameAsAlone
          rw [hserved]
          exact ih hrest hmem

/-! ### The order of the networks -/

theorem map_fst_aqmDequeue (controlLaw : UInt64 → UInt32 → UInt64) (clock : NetworkId → UInt64)
    (blocks : QueueBlocks) :
    (aqmDequeue controlLaw clock blocks).1.map Prod.fst = blocks.map Prod.fst := by
  induction blocks with
  | nil => rfl
  | cons e blocks ih =>
      obtain ⟨network, b⟩ := e
      unfold aqmDequeue
      by_cases hempty : b.currEnqueuedPackets = 0
      · rw [if_pos hempty]
      · rw [if_neg hempty]
        exact congrArg (List.cons network) ih

theorem inOrder_of_keys {blocks' : QueueBlocks}
    (h : blocks'.map Prod.fst = blocks.map Prod.fst) (horder : InOrder blocks) :
    InOrder blocks' := by
  have hkeys : (blocks.map Prod.fst).Pairwise fun a b => a < b := List.pairwise_map.mpr horder
  rw [← h] at hkeys
  exact List.pairwise_map.mp hkeys

theorem inOrder_iff_sorted : InOrder blocks ↔
    SortedMap.Sorted (fun n n' : NetworkId => decide (n < n')) blocks := by
  unfold InOrder SortedMap.Sorted
  simp only [decide_eq_true_iff]

theorem inOrder_store (horder : InOrder blocks) (e : Enqueue) (b : NetworkQoSControlBlock) :
    InOrder (e.store b blocks) := by
  rw [inOrder_iff_sorted] at horder ⊢
  refine horder.set (fun a b c => ?_) (fun a b hne => ?_) e.network b
  · simp only [decide_eq_true_iff]
    exact BitVec.lt_trans
  · simp only [decide_eq_true_iff, decide_eq_false_iff_not]
    exact fun h => BitVec.lt_of_le_ne (BitVec.not_lt.mp h) hne.symm

/-- **The blocks are in the order of their networks** after every run. -/
theorem inOrder_runState (enabled : NetworkId → Bool) (controlLaw : UInt64 → UInt32 → UInt64)
    (events : List AqmEvent) : InOrder ((scheduler enabled controlLaw).runState [] events) := by
  have hstep : ∀ (h : List AqmEvent) (blocks : QueueBlocks) (event : AqmEvent), InOrder blocks →
      True → InOrder ((scheduler enabled controlLaw).step blocks event).1 := by
    intro h blocks event horder _
    rcases event with ⟨e, clock⟩ | clock
    · have hput : InOrder (e.putIn blocks).1 := by
        unfold Enqueue.putIn
        dsimp only
        rcases ((e.block blocks).selectQueue e.qosBucket).2 with - | r
        · exact inOrder_store horder e _
        · exact inOrder_store horder e _
      show InOrder (aqmEnqueue enabled controlLaw e clock blocks).1
      unfold aqmEnqueue
      dsimp only
      generalize e.putIn blocks = put at hput ⊢
      by_cases hqos : enabled e.network = true
      · rw [if_pos hqos]
        by_cases htaken : put.2.2 = true
        · rw [if_pos htaken]
          exact inOrder_of_keys (map_fst_aqmDequeue controlLaw clock put.1) hput
        · rw [if_neg htaken]
          exact hput
      · rw [if_neg hqos]
        exact horder
    · exact inOrder_of_keys (map_fst_aqmDequeue controlLaw clock blocks) horder
  exact Machine.invariant_run (I := fun _ blocks => InOrder blocks) (C := fun _ _ => True) hstep
    (h := []) List.Pairwise.nil (Machine.guarded_true _ _ _)

/-! ### When a network is served as if it were alone -/

/-- A network of blocks in order: served as alone, or not served. -/
theorem sameAsAlone_iff_of_inOrder (horder : InOrder blocks) (hmem : (n, b) ∈ blocks) :
    SameAsAlone controlLaw clock blocks n b ↔
      (NoEmptyBefore blocks n ∨ b.currEnqueuedPackets = 0 ∨ b.Idle) := by
  obtain ⟨halone, hnothing⟩ : (NoEmptyBefore blocks n → SameAsAlone controlLaw clock blocks n b) ∧
      (¬NoEmptyBefore blocks n →
        servedFor n (aqmDequeue controlLaw clock blocks) = (some b, [])) :=
    servedFor_aqmDequeue horder hmem
  by_cases hbefore : NoEmptyBefore blocks n
  · exact iff_of_true (halone hbefore) (Or.inl hbefore)
  · rw [or_iff_right hbefore]
    unfold SameAsAlone
    rw [hnothing hbefore, servedFor_alone]
    by_cases hempty : b.currEnqueuedPackets = 0
    · rw [if_pos hempty]
      exact iff_of_true rfl (Or.inl hempty)
    · rw [if_neg hempty, or_iff_right hempty]
      constructor
      · -- a block that is left as it is had no work
        intro h
        obtain ⟨hblock, hframes⟩ := Prod.mk.inj h
        refine NetworkQoSControlBlock.idle_of_serve_eq (Prod.ext (Option.some.inj hblock).symm ?_)
        exact List.map_eq_nil_iff.mp hframes.symm
      · intro hidle
        rw [hidle.serve_eq]
        rfl

/-- **The networks in the scheduler**, where some have quality of service: in a reachable state a
call does for a network what it would do if its block were the only one exactly if no network before
it counts no frame, or the block counts none itself or has no queue to look at. -/
theorem sameAsAlone_iff (enabled : NetworkId → Bool) (controlLaw : UInt64 → UInt32 → UInt64)
    (events : List AqmEvent) (clock : NetworkId → UInt64) {n : NetworkId}
    {b : NetworkQoSControlBlock}
    (hmem : (n, b) ∈ (scheduler enabled controlLaw).runState [] events) :
    SameAsAlone controlLaw clock ((scheduler enabled controlLaw).runState [] events) n b ↔
      (NoEmptyBefore ((scheduler enabled controlLaw).runState [] events) n ∨
        b.currEnqueuedPackets = 0 ∨ b.Idle) :=
  sameAsAlone_iff_of_inOrder (inOrder_runState enabled controlLaw events) hmem

/-- A frame of network 1, and one of network 2. -/
def twoNetworks : List AqmEvent :=
  [1, 2].map fun network =>
    AqmEvent.enqueue ⟨network, List.replicate 100 verbFrame, true, 0, network, -1, 1,
      fun _ => ⟨0, 0, 0⟩⟩ fun _ => 1

/-- With quality of service the frame of network 1 is then gone, and that of network 2 waits. -/
example : (((scheduler (fun _ => true) fun t _ => t).runState [] twoNetworks).map fun e =>
      (e.1, e.2.currEnqueuedPackets, e.2.newQueues.length)) = [(1, 0, 1), (2, 1, 1)] := by
  decide +kernel

/-! ### Runs -/

/-- The calls for a network, and those for all. -/
def AqmEvent.ofNetwork (n : NetworkId) : AqmEvent → Bool
  | .enqueue e _ => e.nwid == n
  | .dequeue _ => true

/-- What is sent for a network is what the calls for it send. -/
theorem filter_sent (n : NetworkId) (event : AqmEvent) :
    event.sent.filter (AqmOutput.ofNetwork n) =
      if event.ofNetwork n then event.sent else [] := by
  cases event with
  | enqueue e clock =>
      show [e.sent].filter (AqmOutput.ofNetwork n) = _
      rw [List.filter_singleton, Bool.cond_eq_ite]
      rfl
  | dequeue clock => rfl

/-- What is sent for a network depends on the calls for it. -/
theorem filter_flatMap_sent (n : NetworkId) (events : List AqmEvent) :
    (events.flatMap AqmEvent.sent).filter (AqmOutput.ofNetwork n) =
      (events.filter (AqmEvent.ofNetwork n)).flatMap AqmEvent.sent := by
  induction events with
  | nil => rfl
  | cons event events ih =>
      rw [List.flatMap_cons, List.filter_append, filter_sent, ih]
      by_cases hevent : event.ofNetwork n = true
      · rw [if_pos hevent, List.filter_cons_of_pos hevent, List.flatMap_cons]
      · rw [if_neg hevent, List.filter_cons_of_neg hevent, List.nil_append]

/-- **The networks leave each other alone**: since no network has quality of service, there is no
block that another could keep from being served, and of every run what leaves for a network is what
would leave if there were only the calls for it. -/
theorem isolated_run (controlLaw : UInt64 → UInt32 → UInt64) (events : List AqmEvent)
    (clock : NetworkId → UInt64) (n : NetworkId) :
    (∀ b, (n, b) ∈ (aqmMachine controlLaw).runState [] events →
        SameAsAlone controlLaw clock ((aqmMachine controlLaw).runState [] events) n b) ∧
      ((aqmMachine controlLaw).runOutputs [] events).filter (AqmOutput.ofNetwork n) =
        (aqmMachine controlLaw).runOutputs [] (events.filter (AqmEvent.ofNetwork n)) := by
  constructor
  · intro b hmem
    refine (sameAsAlone_iff qosEnabled controlLaw events clock hmem).mpr (Or.inl fun e he => ?_)
    have hnone : (scheduler qosEnabled controlLaw).runState [] events = [] :=
      runState_aqmMachine controlLaw events
    rw [hnone] at he
    exact absurd he List.not_mem_nil
  · rw [runOutputs_aqmMachine, runOutputs_aqmMachine]
    exact filter_flatMap_sent n events

end ZGalaxy
