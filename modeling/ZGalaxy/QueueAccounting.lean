/-
ZGalaxy/QueueAccounting.lean

The counts of the queues of outgoing frames.

A block counts its frames, and every queue the bytes of its own.  Frames leave a queue in four
places.  Where one is given out, or dropped since there are too many, both counts follow; where an
examined queue drops what waited for too long, neither does.  So the difference between what is
counted and what is there (`drift`) grows with every such drop, and nothing makes up for it.

Where networks have quality of service, the lists hold each queue once and the counts are those of
the frames, after every step of a run, exactly if no examined queue drops a frame (`accounted_iff`).
In the source no network has.

The loops of the source have a number of turns here, which they do not use up (`codelLoop_done`,
`skipOld_front`), and a queue that is to lose its first frame has one (`ne_nil_of_selected`).

Main result: `accounted_run`, that the counts are right in every run, in which all packets are sent
at once.
-/
import ZGalaxy.ManagedQueues
import Mathlib.Algebra.BigOperators.Fin
import Mathlib.Tactic.Ring

namespace ZGalaxy

open ByteList

/-! ### What an examined queue loses -/

namespace ManagedQueue

variable {controlLaw : UInt64 → UInt32 → UInt64} {queue : ManagedQueue} {now : UInt64}

/-- The payload bytes of the frames of a queue. -/
def bytes (queue : ManagedQueue) : ℤ :=
  (queue.q.map fun entry => (Packet.payloadLength entry.packet : ℤ)).sum

/-- The first frame of the queue has waited for too long, as others did for some time. -/
def MayDrop (queue : ManagedQueue) (now : UInt64) : Prop :=
  ∃ p rest, queue.q = p :: rest ∧ aqmTarget ≤ now - p.creationTime ∧
    aqmQuantum < queue.byteLength ∧ queue.firstAboveTime ≠ 0 ∧ queue.firstAboveTime ≤ now

/-- A frame is dropped: the first one may be, and the time for it has come. -/
def Drops (queue : ManagedQueue) (now : UInt64) : Prop :=
  queue.MayDrop now ∧ (queue.dropping = true → queue.dropNext ≤ now)

/-- Two queues with the same frames and the same count of bytes. -/
structure SameFrames (queue queue' : ManagedQueue) : Prop where
  q : queue'.q = queue.q
  byteLength : queue'.byteLength = queue.byteLength

/-- What `dodequeue` leaves of a queue, and what it says of it. -/
structure Looked (queue : ManagedQueue) (now : UInt64) (out : ManagedQueue × Dqr) : Prop where
  frames : SameFrames queue out.1
  dropping : out.1.dropping = queue.dropping
  dropNext : out.1.dropNext = queue.dropNext
  front : out.2.p = queue.q.head?
  may : out.2.okToDrop = true ↔ queue.MayDrop now

theorem dodequeue_spec (queue : ManagedQueue) (now : UInt64) :
    Looked queue now (queue.dodequeue now) := by
  unfold dodequeue
  rcases hq : queue.q with - | ⟨p, rest⟩
  · refine ⟨⟨hq.symm, rfl⟩, rfl, rfl, by rw [hq]; rfl, iff_of_false Bool.false_ne_true ?_⟩
    rintro ⟨p, rest, h, -⟩
    rw [hq] at h
    cases h
  · have hfront : some p = queue.q.head? := by rw [hq]; rfl
    have hmay : queue.MayDrop now ↔ aqmTarget ≤ now - p.creationTime ∧
        aqmQuantum < queue.byteLength ∧ queue.firstAboveTime ≠ 0 ∧ queue.firstAboveTime ≤ now := by
      constructor
      · rintro ⟨p', rest', h, hdue⟩
        rw [hq] at h
        obtain ⟨rfl, -⟩ := List.cons.inj h
        exact hdue
      · exact fun hdue => ⟨p, rest, hq, hdue⟩
    dsimp only
    by_cases hbelow : now - p.creationTime < aqmTarget ∨ queue.byteLength ≤ aqmQuantum
    · rw [if_pos hbelow]
      refine ⟨⟨hq.symm, rfl⟩, rfl, rfl, hfront, iff_of_false Bool.false_ne_true ?_⟩
      rw [hmay]
      rintro ⟨htime, hbytes, -⟩
      rcases hbelow with h | h
      · exact absurd htime (UInt64.not_le.mpr h)
      · omega
    · rw [if_neg hbelow]
      obtain ⟨htime, hbytes⟩ := not_or.mp hbelow
      by_cases hfirst : queue.firstAboveTime = 0
      · rw [if_pos hfirst]
        refine ⟨⟨hq.symm, rfl⟩, rfl, rfl, hfront, iff_of_false Bool.false_ne_true ?_⟩
        rw [hmay]
        exact fun h => h.2.2.1 hfirst
      · rw [if_neg hfirst]
        refine ⟨⟨rfl, rfl⟩, rfl, rfl, hfront, ?_⟩
        rw [hmay, decide_eq_true_iff]
        constructor
        · exact fun h => ⟨UInt64.not_lt.mp htime, not_le.mp hbytes, hfirst, h⟩
        · exact fun h => h.2.2.2

/-- Every frame that may be dropped is a frame. -/
theorem MayDrop.ne_nil (h : queue.MayDrop now) : queue.q ≠ [] := by
  obtain ⟨p, rest, hq, -⟩ := h
  rw [hq]
  exact List.cons_ne_nil p rest

/-- What an examined queue keeps: frames at its end, and its count of bytes. -/
structure Kept (queue : ManagedQueue) (out : ManagedQueue × Option TXQueueEntry) : Prop where
  suffix : out.1.q <:+ queue.q
  byteLength : out.1.byteLength = queue.byteLength
  front : out.2 = out.1.q.head?

/-- One turn of the loop takes the first frame. -/
theorem codelLoop_turn {n : ℕ} {r : Dqr}
    (later : ∀ {next : ManagedQueue} {r : Dqr}, r.p = next.q.head? → Kept next
      ((codelLoop controlLaw now n next r).1, (codelLoop controlLaw now n next r).2.p))
    (hgo : queue.dropNext ≤ now ∧ queue.dropping = true) :
    Kept { queue with q := queue.q.tail }
      ((codelLoop controlLaw now (n + 1) queue r).1,
        (codelLoop controlLaw now (n + 1) queue r).2.p) := by
  unfold codelLoop
  rw [if_pos hgo]
  have hlook := dodequeue_spec { queue with q := queue.q.tail } now
  dsimp only
  generalize dodequeue { queue with q := queue.q.tail } now = out at hlook ⊢
  have hfront : out.2.p = out.1.q.head? := by rw [hlook.front, hlook.frames.q]
  -- both branches go on with the frames behind the first one
  have hback : ∀ {next : ManagedQueue}, next.q = out.1.q → next.byteLength = out.1.byteLength →
      Kept { queue with q := queue.q.tail } ((codelLoop controlLaw now n next out.2).1,
        (codelLoop controlLaw now n next out.2).2.p) := by
    intro next hq hbytes
    have hrest : Kept next ((codelLoop controlLaw now n next out.2).1,
        (codelLoop controlLaw now n next out.2).2.p) := later (hfront.trans (by rw [hq]))
    have hsame : next.q <:+ queue.q.tail := by
      rw [hq, hlook.frames.q]
    exact ⟨hrest.suffix.trans hsame,
      hrest.byteLength.trans (hbytes.trans hlook.frames.byteLength), hrest.front⟩
  by_cases hok : out.2.okToDrop = true
  · rw [if_pos hok]
    exact hback rfl rfl
  · rw [if_neg hok]
    exact hback rfl rfl

/-- The loop keeps frames at the end. -/
theorem codelLoop_kept {n : ℕ} {r : Dqr} (hr : r.p = queue.q.head?) :
    Kept queue ((codelLoop controlLaw now n queue r).1,
      (codelLoop controlLaw now n queue r).2.p) := by
  induction n generalizing queue r with
  | zero => exact ⟨List.suffix_rfl, rfl, hr⟩
  | succ n ih =>
      by_cases hgo : queue.dropNext ≤ now ∧ queue.dropping = true
      · have hturn := codelLoop_turn (r := r) ih hgo
        exact ⟨hturn.suffix.trans (List.tail_suffix queue.q), hturn.byteLength, hturn.front⟩
      · unfold codelLoop
        rw [if_neg hgo]
        exact ⟨List.suffix_rfl, rfl, hr⟩

/-- **The loop ends** before its turns run out: what is over is no reason for another turn. -/
theorem codelLoop_done {n : ℕ} {r : Dqr} (hn : queue.q.length ≤ n)
    (hdrop : queue.dropping = true → queue.q ≠ []) :
    ¬((codelLoop controlLaw now n queue r).1.dropNext ≤ now ∧
      (codelLoop controlLaw now n queue r).1.dropping = true) := by
  -- on the packets of the queue, as each turn takes one of them
  induction n generalizing queue r with
  | zero =>
      rintro ⟨-, h⟩
      exact hdrop h (List.eq_nil_of_length_eq_zero (Nat.le_zero.mp hn))
  | succ n ih =>
      unfold codelLoop
      by_cases hgo : queue.dropNext ≤ now ∧ queue.dropping = true
      · rw [if_pos hgo]
        have hlook := dodequeue_spec { queue with q := queue.q.tail } now
        dsimp only
        generalize dodequeue { queue with q := queue.q.tail } now = out at hlook ⊢
        have hlength : out.1.q.length ≤ n := by
          rw [hlook.frames.q, List.length_tail]
          omega
        by_cases hok : out.2.okToDrop = true
        · rw [if_pos hok]
          refine ih hlength fun _ => ?_
          show out.1.q ≠ []
          rw [hlook.frames.q]
          exact (hlook.may.mp hok).ne_nil
        · rw [if_neg hok]
          exact ih hlength fun h => absurd h Bool.false_ne_true
      · rw [if_neg hgo]
        exact hgo

/-- `CoDelDequeue` keeps frames at the end. -/
theorem codelDequeue_kept (controlLaw : UInt64 → UInt32 → UInt64) (queue : ManagedQueue)
    (now : UInt64) : Kept queue (codelDequeue controlLaw queue now) := by
  unfold codelDequeue
  have hlook := dodequeue_spec queue now
  dsimp only
  generalize dodequeue queue now = out at hlook ⊢
  have hfront : out.2.p = out.1.q.head? := by rw [hlook.front, hlook.frames.q]
  by_cases hdropping : out.1.dropping = true
  · rw [if_pos hdropping]
    have hloop : ∀ {next : ManagedQueue}, next.q = out.1.q → next.byteLength = out.1.byteLength →
        Kept queue ((codelLoop controlLaw now queue.q.length next out.2).1,
          (codelLoop controlLaw now queue.q.length next out.2).2.p) := by
      intro next hq hbytes
      have hkept : Kept next ((codelLoop controlLaw now queue.q.length next out.2).1,
          (codelLoop controlLaw now queue.q.length next out.2).2.p) :=
        codelLoop_kept (hfront.trans (by rw [hq]))
      have hsame : next.q <:+ queue.q := by
        rw [hq, hlook.frames.q]
      exact ⟨hkept.suffix.trans hsame,
        hkept.byteLength.trans (hbytes.trans hlook.frames.byteLength), hkept.front⟩
    by_cases hok : out.2.okToDrop = true
    · rw [if_pos hok]
      exact hloop rfl rfl
    · rw [if_neg hok]
      exact hloop rfl rfl
  · rw [if_neg hdropping]
    by_cases hok : out.2.okToDrop = true
    · rw [if_pos hok]
      have hnext := dodequeue_spec { out.1 with q := out.1.q.tail } now
      refine ⟨?_, hnext.frames.byteLength.trans hlook.frames.byteLength, ?_⟩
      · rw [← hlook.frames.q]
        show (dodequeue { out.1 with q := out.1.q.tail } now).1.q <:+ out.1.q
        rw [hnext.frames.q]
        exact List.tail_suffix out.1.q
      · show (dodequeue { out.1 with q := out.1.q.tail } now).2.p = _
        rw [hnext.front, ← hnext.frames.q]
    · rw [if_neg hok]
      exact ⟨hlook.frames.q ▸ List.suffix_rfl, hlook.frames.byteLength, hfront⟩

/-- Without a drop all frames are kept. -/
theorem codelDequeue_of_not_drops (controlLaw : UInt64 → UInt32 → UInt64)
    (h : ¬queue.Drops now) : (codelDequeue controlLaw queue now).1.q = queue.q := by
  unfold codelDequeue
  have hlook := dodequeue_spec queue now
  dsimp only
  generalize dodequeue queue now = out at hlook ⊢
  by_cases hdropping : out.1.dropping = true
  · rw [if_pos hdropping]
    -- the loop makes no turn: the queue leaves the dropping state, or the time has not come
    have hloop : ∀ {n : ℕ} {next : ManagedQueue},
        ¬(next.dropNext ≤ now ∧ next.dropping = true) →
        (codelLoop controlLaw now n next out.2).1 = next := by
      intro n next hgo
      cases n with
      | zero => rfl
      | succ n =>
          unfold codelLoop
          rw [if_neg hgo]
    by_cases hok : out.2.okToDrop = true
    · rw [if_pos hok, hloop]
      · exact hlook.frames.q
      · rintro ⟨htime, -⟩
        rw [hlook.dropNext] at htime
        exact h ⟨hlook.may.mp hok, fun _ => htime⟩
    · rw [if_neg hok, hloop]
      · exact hlook.frames.q
      · exact fun hgo => Bool.false_ne_true hgo.2
  · rw [if_neg hdropping]
    by_cases hok : out.2.okToDrop = true
    · refine absurd ⟨hlook.may.mp hok, fun hd => ?_⟩ h
      rw [← hlook.dropping] at hd
      exact absurd hd hdropping
    · rw [if_neg hok]
      exact hlook.frames.q

theorem length_tail_lt {l : List TXQueueEntry} (h : l ≠ []) : l.tail.length < l.length := by
  rw [List.length_tail]
  have := List.length_pos_of_ne_nil h
  omega

/-- With a drop there are fewer frames. -/
theorem codelDequeue_of_drops (controlLaw : UInt64 → UInt32 → UInt64) (h : queue.Drops now) :
    (codelDequeue controlLaw queue now).1.q.length < queue.q.length := by
  have hpos := length_tail_lt h.1.ne_nil
  unfold codelDequeue
  have hlook := dodequeue_spec queue now
  dsimp only
  generalize dodequeue queue now = out at hlook ⊢
  have hfront : out.2.p = out.1.q.head? := by rw [hlook.front, hlook.frames.q]
  have hok : out.2.okToDrop = true := hlook.may.mpr h.1
  by_cases hdropping : out.1.dropping = true
  · rw [if_pos hdropping, if_pos hok]
    obtain ⟨n, hn⟩ : ∃ n, queue.q.length = n + 1 :=
      ⟨queue.q.length - 1, by rw [List.length_tail] at hpos; omega⟩
    have hgo : out.1.dropNext ≤ now ∧ out.1.dropping = true := by
      rw [hlook.dropNext]
      exact ⟨h.2 (hlook.dropping ▸ hdropping), hdropping⟩
    have hturn : Kept { out.1 with q := out.1.q.tail }
        ((codelLoop controlLaw now (n + 1) out.1 out.2).1,
          (codelLoop controlLaw now (n + 1) out.1 out.2).2.p) := codelLoop_turn codelLoop_kept hgo
    have hle := hturn.suffix.length_le
    rw [show ({ out.1 with q := out.1.q.tail } : ManagedQueue).q = out.1.q.tail from rfl,
      hlook.frames.q, ← hn] at hle
    exact hle.trans_lt hpos
  · rw [if_neg hdropping, if_pos hok]
    have hnext := dodequeue_spec { out.1 with q := out.1.q.tail } now
    show (dodequeue { out.1 with q := out.1.q.tail } now).1.q.length < _
    rw [hnext.frames.q]
    show out.1.q.tail.length < _
    rw [hlook.frames.q]
    exact hpos

end ManagedQueue

/-! ### The counts of a block -/

namespace NetworkQoSControlBlock

variable {controlLaw : UInt64 → UInt32 → UInt64} {now : UInt64}
variable {b b' : NetworkQoSControlBlock} {r : QueueRef}

/-- The queues in the three lists. -/
def lists (b : NetworkQoSControlBlock) : List QueueRef :=
  b.newQueues ++ (b.oldQueues ++ b.inactiveQueues)

/-- The number of frames in the queues. -/
def packets (b : NetworkQoSControlBlock) : ℤ := ∑ r, ((b.queues r).q.length : ℤ)

/-- The lists hold each queue once, and the counts are those of the frames. -/
structure Accounted (b : NetworkQoSControlBlock) : Prop where
  once : b.lists.Perm (List.finRange aqmNumBuckets)
  bytes : ∀ r, (b.queues r).byteLength = (b.queues r).bytes
  count : b.currEnqueuedPackets = b.packets

/-- How many more frames are counted than there are. -/
def drift (b : NetworkQoSControlBlock) : ℤ := b.currEnqueuedPackets - b.packets

/-- The queues move between the lists, and everything that is counted stays. -/
structure Keeps (b b' : NetworkQoSControlBlock) : Prop where
  lists : b'.lists.Perm b.lists
  queues : ∀ r, ManagedQueue.SameFrames (b.queues r) (b'.queues r)
  count : b'.currEnqueuedPackets = b.currEnqueuedPackets

theorem Keeps.refl (b : NetworkQoSControlBlock) : Keeps b b :=
  ⟨List.Perm.refl _, fun _ => ⟨rfl, rfl⟩, rfl⟩

theorem Keeps.trans {b'' : NetworkQoSControlBlock} (h : Keeps b b') (h' : Keeps b' b'') :
    Keeps b b'' :=
  ⟨h'.lists.trans h.lists, fun r => ⟨(h'.queues r).q.trans (h.queues r).q,
    (h'.queues r).byteLength.trans (h.queues r).byteLength⟩, h'.count.trans h.count⟩

theorem Keeps.packets_eq (h : Keeps b b') : b'.packets = b.packets := by
  unfold packets
  refine Finset.sum_congr rfl fun r _ => ?_
  rw [(h.queues r).q]

theorem Keeps.drift_eq (h : Keeps b b') : b'.drift = b.drift := by
  unfold drift
  rw [h.packets_eq, h.count]

theorem Keeps.accounted (h : Keeps b b') (hb : b.Accounted) : b'.Accounted := by
  refine ⟨h.lists.trans hb.once, fun r => ?_, ?_⟩
  · rw [(h.queues r).byteLength, hb.bytes r]
    unfold ManagedQueue.bytes
    rw [(h.queues r).q]
  · rw [h.count, hb.count, h.packets_eq]

theorem Accounted.drift_eq (hb : b.Accounted) : b.drift = 0 := by
  unfold drift
  rw [hb.count, sub_self]

@[simp] theorem write_self (b : NetworkQoSControlBlock) (r : QueueRef) (queue : ManagedQueue) :
    (b.write r queue).queues r = queue := by
  show Function.update b.queues r queue r = queue
  rw [Function.update_self]

theorem write_of_ne (b : NetworkQoSControlBlock) {r r' : QueueRef} (h : r' ≠ r)
    (queue : ManagedQueue) : (b.write r queue).queues r' = b.queues r' := by
  show Function.update b.queues r queue r' = b.queues r'
  rw [Function.update_of_ne h]

/-- A queue is written with the same frames. -/
theorem write_sameFrames {queue : ManagedQueue}
    (h : ManagedQueue.SameFrames (b.queues r) queue) (r' : QueueRef) :
    ManagedQueue.SameFrames (b.queues r') ((b.write r queue).queues r') := by
  by_cases hr : r' = r
  · rw [hr, write_self]
    exact h
  · rw [write_of_ne b hr]
    exact ⟨rfl, rfl⟩

/-- One queue is written, and the number of frames changes by its frames. -/
theorem packets_write (b : NetworkQoSControlBlock) (r : QueueRef) (queue : ManagedQueue) :
    (b.write r queue).packets = b.packets - (b.queues r).q.length + queue.q.length := by
  have hsum : ∀ queues : QueueRef → ManagedQueue, ∑ r', ((queues r').q.length : ℤ) =
      (queues r).q.length + ∑ r' ∈ Finset.univ.erase r, ((queues r').q.length : ℤ) :=
    fun queues => (Finset.add_sum_erase _ _ (Finset.mem_univ r)).symm
  have hrest : ∑ r' ∈ Finset.univ.erase r, (((b.write r queue).queues r').q.length : ℤ) =
      ∑ r' ∈ Finset.univ.erase r, ((b.queues r').q.length : ℤ) := by
    refine Finset.sum_congr rfl fun r' hr' => ?_
    rw [write_of_ne b (Finset.ne_of_mem_erase hr')]
  unfold packets
  rw [hsum, hsum b.queues, hrest, write_self]
  ring

/-! ### Moving queues -/

theorem skipNew_keeps (l : List QueueRef) (b : NetworkQoSControlBlock) :
    Keeps { b with newQueues := l } (skipNew l b) := by
  induction l generalizing b with
  | nil => exact Keeps.refl _
  | cons r rest ih =>
      unfold skipNew
      by_cases hcredit : (b.queues r).byteCredit < 0
      · rw [if_pos hcredit]
        refine Keeps.trans ?_ (ih _)
        have hsame : ManagedQueue.SameFrames (b.queues r) (b.queues r).giveCredit := ⟨rfl, rfl⟩
        refine ⟨?_, write_sameFrames hsame, rfl⟩
        show (rest ++ (b.oldQueues ++ [r] ++ b.inactiveQueues)).Perm
          (r :: (rest ++ (b.oldQueues ++ b.inactiveQueues)))
        rw [List.append_assoc, List.singleton_append, ← List.append_assoc, ← List.append_assoc]
        exact List.perm_middle
      · rw [if_neg hcredit]
        exact Keeps.refl _

theorem atNew_keeps (b : NetworkQoSControlBlock) : Keeps b b.atNew := skipNew_keeps b.newQueues b

theorem skipOld_keeps (n : ℕ) (b : NetworkQoSControlBlock) : Keeps b (skipOld n b) := by
  induction n generalizing b with
  | zero => exact Keeps.refl b
  | succ n ih =>
      unfold skipOld
      rcases hold : b.oldQueues with - | ⟨r, rest⟩
      · exact Keeps.refl b
      · by_cases hcredit : (b.queues r).byteCredit < 0
        · dsimp only
          rw [if_pos hcredit]
          refine Keeps.trans ?_ (ih _)
          have hsame : ManagedQueue.SameFrames (b.queues r) (b.queues r).giveCredit := ⟨rfl, rfl⟩
          refine ⟨?_, write_sameFrames hsame, rfl⟩
          show (b.newQueues ++ (rest ++ [r] ++ b.inactiveQueues)).Perm
            (b.newQueues ++ (b.oldQueues ++ b.inactiveQueues))
          rw [hold]
          exact List.Perm.append_left _ (List.Perm.append_right _ List.perm_append_comm)
        · dsimp only
          rw [if_neg hcredit]
          exact Keeps.refl b

theorem atOld_keeps (b : NetworkQoSControlBlock) : Keeps b b.atOld := skipOld_keeps _ b

theorem debt_giveCredit_le (b : NetworkQoSControlBlock) (r r' : QueueRef) :
    (-((b.write r (b.queues r).giveCredit).queues r').byteCredit).toNat ≤
      (-(b.queues r').byteCredit).toNat := by
  by_cases hr : r' = r
  · rw [hr, write_self]
    show (-((b.queues r).byteCredit + aqmQuantum)).toNat ≤ _
    unfold aqmQuantum
    omega
  · rw [write_of_ne b hr]

/-- **The loop over the old list ends** at a queue with credit, before its turns run out. -/
theorem skipOld_front {n : ℕ} {b : NetworkQoSControlBlock} (hn : b.debt b.oldQueues < n)
    {r : QueueRef} {rest : List QueueRef} (h : (skipOld n b).oldQueues = r :: rest) :
    0 ≤ ((skipOld n b).queues r).byteCredit := by
  induction n generalizing b with
  | zero => exact absurd hn (Nat.not_lt_zero _)
  | succ n ih =>
      unfold skipOld at h ⊢
      rcases hold : b.oldQueues with - | ⟨r', rest'⟩
      · rw [hold] at h
        rw [hold] at h
        cases h
      · rw [hold] at h
        dsimp only at h ⊢
        by_cases hcredit : (b.queues r').byteCredit < 0
        · rw [if_pos hcredit] at h ⊢
          refine ih ?_ h
          -- the front queue lacks less than before, the others no more
          have hrest : (rest'.map fun q =>
              (-((b.write r' (b.queues r').giveCredit).queues q).byteCredit).toNat).sum ≤
              (rest'.map fun q => (-(b.queues q).byteCredit).toNat).sum :=
            List.sum_le_sum fun q _ => debt_giveCredit_le b r' q
          have hfront : (-((b.write r' (b.queues r').giveCredit).queues r').byteCredit).toNat <
              (-(b.queues r').byteCredit).toNat := by
            rw [write_self]
            show (-((b.queues r').byteCredit + aqmQuantum)).toNat < _
            unfold aqmQuantum
            omega
          show ((rest' ++ [r']).map fun q =>
            (-((b.write r' (b.queues r').giveCredit).queues q).byteCredit).toNat).sum < n
          unfold debt at hn
          rw [hold, List.map_cons, List.sum_cons] at hn
          rw [List.map_append, List.sum_append, List.map_singleton, List.sum_singleton]
          omega
        · rw [if_neg hcredit] at h ⊢
          rw [hold] at h
          obtain ⟨rfl, -⟩ := List.cons.inj h
          exact not_lt.mp hcredit

/-! ### Examining queues -/

/-- What an examined queue loses is counted no longer by its frames, and still by the block. -/
theorem drift_examine (controlLaw : UInt64 → UInt32 → UInt64) (b : NetworkQoSControlBlock)
    (now : UInt64) (r : QueueRef) :
    (b.examine controlLaw now r).1.drift = b.drift + ((b.queues r).q.length -
      ((b.queues r).codelDequeue controlLaw now).1.q.length) := by
  have hkept := ManagedQueue.codelDequeue_kept controlLaw (b.queues r) now
  unfold examine drift
  dsimp only
  generalize (b.queues r).codelDequeue controlLaw now = out at hkept ⊢
  rcases hentry : out.2 with - | entry
  · show b.currEnqueuedPackets - (b.write r out.1).packets = _
    rw [packets_write]
    ring
  · have hfront := hkept.front
    rw [hentry] at hfront
    obtain ⟨rest, hq⟩ : ∃ rest, out.1.q = entry :: rest := by
      rcases hlist : out.1.q with - | ⟨entry', rest⟩
      · rw [hlist] at hfront
        cases hfront
      · rw [hlist] at hfront
        obtain rfl := Option.some.inj hfront
        exact ⟨rest, rfl⟩
    show b.currEnqueuedPackets - 1 - (b.write r _).packets = _
    rw [packets_write]
    show b.currEnqueuedPackets - 1 - (b.packets - _ + (out.1.q.tail.length : ℤ)) = _
    rw [hq, List.tail_cons, List.length_cons]
    push_cast
    ring

/-- No examined queue makes up for a difference. -/
theorem drift_le_examine (controlLaw : UInt64 → UInt32 → UInt64) (b : NetworkQoSControlBlock)
    (now : UInt64) (r : QueueRef) : b.drift ≤ (b.examine controlLaw now r).1.drift := by
  have hle := (ManagedQueue.codelDequeue_kept controlLaw (b.queues r) now).suffix.length_le
  rw [drift_examine]
  omega

/-- The lists are those of before. -/
theorem lists_examine (controlLaw : UInt64 → UInt32 → UInt64) (b : NetworkQoSControlBlock)
    (now : UInt64) (r : QueueRef) :
    (b.examine controlLaw now r).1.newQueues = b.newQueues ∧
      (b.examine controlLaw now r).1.oldQueues = b.oldQueues ∧
      (b.examine controlLaw now r).1.inactiveQueues = b.inactiveQueues := by
  unfold examine
  dsimp only
  rcases ((b.queues r).codelDequeue controlLaw now).2 with - | entry
  · exact ⟨rfl, rfl, rfl⟩
  · exact ⟨rfl, rfl, rfl⟩

/-- **An examined queue that drops nothing** leaves the counts right. -/
theorem bytes_examine (hb : ∀ r, (b.queues r).byteLength = (b.queues r).bytes)
    (hquiet : ¬(b.queues r).Drops now) (r' : QueueRef) :
    ((b.examine controlLaw now r).1.queues r').byteLength =
      ((b.examine controlLaw now r).1.queues r').bytes := by
  have hkept := ManagedQueue.codelDequeue_kept controlLaw (b.queues r) now
  have hq := ManagedQueue.codelDequeue_of_not_drops controlLaw hquiet
  unfold examine
  dsimp only
  generalize (b.queues r).codelDequeue controlLaw now = out at hkept hq ⊢
  have hbytes : out.1.byteLength = out.1.bytes := by
    rw [hkept.byteLength, hb r]
    unfold ManagedQueue.bytes
    rw [hq]
  have hwrite : ∀ queue : ManagedQueue, queue.byteLength = queue.bytes →
      ((b.write r queue).queues r').byteLength = ((b.write r queue).queues r').bytes := by
    intro queue h
    by_cases hr : r' = r
    · rw [hr, write_self, h]
    · rw [write_of_ne b hr, hb r']
  rcases hentry : out.2 with - | entry
  · exact hwrite out.1 hbytes
  · refine hwrite _ ?_
    have hfront := hkept.front
    rw [hentry] at hfront
    show out.1.byteLength - (Packet.payloadLength entry.packet : ℤ) =
      (out.1.q.tail.map fun entry => (Packet.payloadLength entry.packet : ℤ)).sum
    rw [hbytes]
    unfold ManagedQueue.bytes
    rcases hlist : out.1.q with - | ⟨entry', rest⟩
    · rw [hlist] at hfront
      cases hfront
    · rw [hlist] at hfront
      obtain rfl := Option.some.inj hfront
      rw [List.map_cons, List.sum_cons, List.tail_cons]
      ring

theorem lists_examine_eq (controlLaw : UInt64 → UInt32 → UInt64) (b : NetworkQoSControlBlock)
    (now : UInt64) (r : QueueRef) : (b.examine controlLaw now r).1.lists = b.lists := by
  obtain ⟨hnew, hold, hinactive⟩ := lists_examine controlLaw b now r
  unfold lists
  rw [hnew, hold, hinactive]

/-- The counts stay right exactly if nothing is dropped. -/
theorem accounted_examine_iff (hb : b.Accounted) :
    (b.examine controlLaw now r).1.Accounted ↔ ¬(b.queues r).Drops now := by
  have hdrift := drift_examine controlLaw b now r
  rw [hb.drift_eq, zero_add] at hdrift
  constructor
  · intro h hdrops
    have hlost := ManagedQueue.codelDequeue_of_drops controlLaw hdrops
    rw [h.drift_eq] at hdrift
    omega
  · intro hquiet
    rw [ManagedQueue.codelDequeue_of_not_drops controlLaw hquiet, sub_self] at hdrift
    refine ⟨?_, bytes_examine hb.bytes hquiet, sub_eq_zero.mp hdrift⟩
    rw [lists_examine_eq]
    exact hb.once

theorem Keeps.symm (h : Keeps b b') : Keeps b' b :=
  ⟨h.lists.symm, fun r => ⟨(h.queues r).q.symm, (h.queues r).byteLength.symm⟩, h.count.symm⟩

theorem Keeps.accounted_congr (h : Keeps b b') : b'.Accounted ↔ b.Accounted :=
  ⟨h.symm.accounted, h.accounted⟩

/-- Looking at the first queue of the new list does no more than examine it and move it. -/
theorem examineNew_keeps {rest : List QueueRef} (h : b.newQueues = r :: rest) :
    Keeps (b.examine controlLaw now r).1 (b.examineNew controlLaw now).1 := by
  obtain ⟨hnew, hold, hinactive⟩ := lists_examine controlLaw b now r
  unfold examineNew
  rw [h]
  dsimp only
  rcases (b.examine controlLaw now r).2 with - | entry
  · refine ⟨?_, fun _ => ⟨rfl, rfl⟩, rfl⟩
    show (rest ++ ((b.examine controlLaw now r).1.oldQueues ++ [r] ++
      (b.examine controlLaw now r).1.inactiveQueues)).Perm _
    unfold lists
    rw [hnew, hold, hinactive, h, List.append_assoc, List.singleton_append, ← List.append_assoc,
      List.cons_append, ← List.append_assoc]
    exact List.perm_middle
  · exact Keeps.refl _

theorem examineOld_keeps {rest : List QueueRef} (h : b.oldQueues = r :: rest) :
    Keeps (b.examine controlLaw now r).1 (b.examineOld controlLaw now).1 := by
  obtain ⟨hnew, hold, hinactive⟩ := lists_examine controlLaw b now r
  unfold examineOld
  rw [h]
  dsimp only
  rcases (b.examine controlLaw now r).2 with - | entry
  · refine ⟨?_, fun _ => ⟨rfl, rfl⟩, rfl⟩
    show ((b.examine controlLaw now r).1.newQueues ++
      (rest ++ ((b.examine controlLaw now r).1.inactiveQueues ++ [r]))).Perm _
    unfold lists
    rw [hnew, hold, hinactive, h, ← List.append_assoc rest]
    exact List.Perm.append_left _ List.perm_append_comm
  · exact Keeps.refl _

/-- The first queue of a list drops a frame. -/
def FrontDrops (b : NetworkQoSControlBlock) (now : UInt64) (l : List QueueRef) : Prop :=
  ∃ r ∈ l.head?, (b.queues r).Drops now

theorem not_frontDrops_nil : ¬b.FrontDrops now [] := by
  rintro ⟨r, hr, -⟩
  cases hr

theorem frontDrops_cons {rest : List QueueRef} :
    b.FrontDrops now (r :: rest) ↔ (b.queues r).Drops now := by
  constructor
  · rintro ⟨r', hr, h⟩
    obtain rfl := Option.some.inj hr
    exact h
  · exact fun h => ⟨r, rfl, h⟩

theorem accounted_examineNew_iff (hb : b.Accounted) :
    (b.examineNew controlLaw now).1.Accounted ↔ ¬b.FrontDrops now b.newQueues := by
  rcases hnew : b.newQueues with - | ⟨r, rest⟩
  · refine iff_of_true ?_ not_frontDrops_nil
    unfold examineNew
    rw [hnew]
    exact hb
  · rw [(examineNew_keeps hnew).accounted_congr, accounted_examine_iff hb, frontDrops_cons]

theorem accounted_examineOld_iff (hb : b.Accounted) :
    (b.examineOld controlLaw now).1.Accounted ↔ ¬b.FrontDrops now b.oldQueues := by
  rcases hold : b.oldQueues with - | ⟨r, rest⟩
  · refine iff_of_true ?_ not_frontDrops_nil
    unfold examineOld
    rw [hold]
    exact hb
  · rw [(examineOld_keeps hold).accounted_congr, accounted_examine_iff hb, frontDrops_cons]

theorem drift_examineNew_pos (hb : b.Accounted) (h : b.FrontDrops now b.newQueues) :
    0 < (b.examineNew controlLaw now).1.drift := by
  rcases hnew : b.newQueues with - | ⟨r, rest⟩
  · rw [hnew] at h
    exact absurd h not_frontDrops_nil
  · rw [hnew, frontDrops_cons] at h
    have hlost := ManagedQueue.codelDequeue_of_drops controlLaw h
    rw [(examineNew_keeps hnew).drift_eq, drift_examine, hb.drift_eq]
    omega

theorem drift_le_examineOld (controlLaw : UInt64 → UInt32 → UInt64) (b : NetworkQoSControlBlock)
    (now : UInt64) : b.drift ≤ (b.examineOld controlLaw now).1.drift := by
  rcases hold : b.oldQueues with - | ⟨r, rest⟩
  · unfold examineOld
    rw [hold]
  · rw [(examineOld_keeps hold).drift_eq]
    exact drift_le_examine controlLaw b now r

/-! ### Serving a block -/

/-- The queues at which the two loops arrive drop nothing. -/
structure Quiet (controlLaw : UInt64 → UInt32 → UInt64) (b : NetworkQoSControlBlock)
    (now : UInt64) : Prop where
  new : ¬b.atNew.FrontDrops now b.atNew.newQueues
  old : ¬(b.atNew.examineNew controlLaw now).1.atOld.FrontDrops now
    (b.atNew.examineNew controlLaw now).1.atOld.oldQueues

/-- **Serving a block** leaves its counts right exactly if nothing is dropped. -/
theorem accounted_serve_iff (hb : b.Accounted) :
    (b.serve controlLaw now).1.Accounted ↔ Quiet controlLaw b now := by
  have hnew := b.atNew_keeps.accounted hb
  show ((b.atNew.examineNew controlLaw now).1.atOld.examineOld controlLaw now).1.Accounted ↔ _
  by_cases hdrops : b.atNew.FrontDrops now b.atNew.newQueues
  · refine iff_of_false (fun h => ?_) fun h => h.new hdrops
    -- the difference stays until the end
    have hpos : 0 < (b.atNew.examineNew controlLaw now).1.drift := drift_examineNew_pos hnew hdrops
    have hle := drift_le_examineOld controlLaw (b.atNew.examineNew controlLaw now).1.atOld now
    rw [(atOld_keeps _).drift_eq, h.drift_eq] at hle
    omega
  · have hbetween : (b.atNew.examineNew controlLaw now).1.Accounted :=
      (accounted_examineNew_iff hnew).mpr hdrops
    have hafter := (atOld_keeps _).accounted hbetween
    rw [accounted_examineOld_iff hafter]
    exact ⟨fun hold => ⟨hdrops, hold⟩, fun h => h.old⟩

/-! ### Putting a frame in -/

theorem accounted_init (memory : QueueRef → QueueMemory) : (init memory).Accounted :=
  ⟨List.Perm.refl _, fun _ => rfl, Finset.sum_const_zero.symm⟩

/-- Looking for the queue of a bucket moves a queue at most. -/
theorem lookAt_keeps (qosBucket : ℤ) (s : NetworkQoSControlBlock × Option QueueRef) (i : ℕ) :
    Keeps s.1 (lookAt qosBucket s i).1 := by
  unfold lookAt
  dsimp only
  rcases hfound : s.1.foundAt qosBucket i s.1.inactiveQueues with - | r
  · exact Keeps.refl _
  · have hsame : ManagedQueue.SameFrames (s.1.queues r)
        { s.1.queues r with byteCredit := aqmQuantum } := ⟨rfl, rfl⟩
    refine ⟨?_, write_sameFrames hsame, rfl⟩
    show (s.1.newQueues ++ [r] ++ (s.1.oldQueues ++ s.1.inactiveQueues.eraseIdx i)).Perm
      (s.1.newQueues ++ (s.1.oldQueues ++ s.1.inactiveQueues))
    have hat : s.1.inactiveQueues[i]? = some r := (Option.filter_eq_some_iff.mp hfound).1
    obtain ⟨hi, rfl⟩ := List.getElem?_eq_some_iff.mp hat
    rw [List.append_assoc, List.singleton_append]
    refine List.Perm.append_left _ (List.perm_middle.symm.trans ?_)
    exact List.Perm.append_left _ (List.getElem_cons_eraseIdx_perm hi)

theorem selectQueue_keeps (b : NetworkQoSControlBlock) (qosBucket : ℤ) :
    Keeps b (b.selectQueue qosBucket).1 := by
  have hfold : ∀ (is : List ℕ) (s : NetworkQoSControlBlock × Option QueueRef),
      Keeps s.1 (is.foldl (lookAt qosBucket) s).1 := by
    intro is
    induction is with
    | nil => exact fun s => Keeps.refl s.1
    | cons i is ih => exact fun s => (lookAt_keeps qosBucket s i).trans (ih _)
  exact hfold _ (b, none)

theorem accounted_push (hb : b.Accounted) (r : QueueRef) (entry : TXQueueEntry) :
    (b.push r entry).Accounted := by
  refine ⟨hb.once, fun r' => ?_, ?_⟩
  · show ((b.write r _).queues r').byteLength = ((b.write r _).queues r').bytes
    by_cases hr : r' = r
    · rw [hr, write_self]
      show (b.queues r).byteLength + _ = _
      unfold ManagedQueue.bytes
      rw [List.map_append, List.sum_append, List.map_singleton, List.sum_singleton, hb.bytes r]
      rfl
    · rw [write_of_ne b hr, hb.bytes r']
  · show b.currEnqueuedPackets + 1 = (b.write r _).packets
    rw [packets_write, hb.count]
    show b.packets + 1 = b.packets - _ + (((b.queues r).q ++ [entry]).length : ℤ)
    rw [List.length_append, List.length_singleton]
    push_cast
    ring

/-- What is dropped from has bytes. -/
theorem bytes_pos_of_selected (h : b.selectedQueueToDropFrom = some r) :
    0 < (b.queues r).byteLength := by
  have hlonger : ∀ (l : List QueueRef) (s : ℤ × Option QueueRef),
      (0 ≤ s.1 ∧ ∀ r ∈ s.2, 0 < (b.queues r).byteLength) →
      0 ≤ (l.foldl b.longer s).1 ∧ ∀ r ∈ (l.foldl b.longer s).2, 0 < (b.queues r).byteLength := by
    intro l
    induction l with
    | nil => exact fun s hs => hs
    | cons r l ih =>
        intro s hs
        refine ih _ ?_
        unfold longer
        split_ifs with hmore
        · refine ⟨by omega, fun r' hr' => ?_⟩
          obtain rfl := Option.some.inj hr'
          omega
        · exact hs
  have hfold : ∀ (is : List ℕ) (s : ℤ × Option QueueRef),
      (0 ≤ s.1 ∧ ∀ r ∈ s.2, 0 < (b.queues r).byteLength) →
      ∀ r ∈ (is.foldl b.longerAt s).2, 0 < (b.queues r).byteLength := by
    intro is
    induction is with
    | nil => exact fun s hs => hs.2
    | cons i is ih => exact fun s hs => ih _ (hlonger _ s hs)
  refine hfold (List.range aqmNumBuckets) (0, none) ⟨le_refl 0, fun r hr => ?_⟩ r h
  cases hr

theorem accounted_dropExcess (hb : b.Accounted) : b.dropExcess.1.Accounted := by
  unfold dropExcess
  split_ifs with hmany
  · rcases hsel : b.selectedQueueToDropFrom with - | r
    · exact hb
    · dsimp only
      unfold dropFront
      dsimp only
      rcases hq : (b.queues r).q with - | ⟨entry, rest⟩
      · exact hb
      · refine ⟨hb.once, fun r' => ?_, ?_⟩
        · show ((b.write r _).queues r').byteLength = ((b.write r _).queues r').bytes
          by_cases hr : r' = r
          · rw [hr, write_self]
            show (b.queues r).byteLength - _ = (rest.map _).sum
            rw [hb.bytes r]
            unfold ManagedQueue.bytes
            rw [hq, List.map_cons, List.sum_cons]
            ring
          · rw [write_of_ne b hr, hb.bytes r']
        · show b.currEnqueuedPackets - 1 = (b.write r _).packets
          rw [packets_write, hb.count]
          show b.packets - 1 = b.packets - _ + (rest.length : ℤ)
          rw [hq, List.length_cons]
          push_cast
          ring
  · exact hb

/-- The list that a queue is dropped from is not empty while the count of bytes is right. -/
theorem ne_nil_of_selected (hb : b.Accounted) (h : b.selectedQueueToDropFrom = some r) :
    (b.queues r).q ≠ [] := by
  intro hq
  have hpos := bytes_pos_of_selected h
  rw [hb.bytes r] at hpos
  unfold ManagedQueue.bytes at hpos
  rw [hq] at hpos
  exact absurd hpos (lt_irrefl 0)

end NetworkQoSControlBlock

/-! ### Runs -/

/-- The counts of all blocks are right. -/
def AllAccounted (blocks : QueueBlocks) : Prop := ∀ e ∈ blocks, e.2.Accounted

/-- No block that is served drops a frame. -/
def AllQuiet (controlLaw : UInt64 → UInt32 → UInt64) (clock : NetworkId → UInt64) :
    QueueBlocks → Prop
  | [] => True
  | (network, b) :: blocks =>
      b.currEnqueuedPackets = 0 ∨
        (b.Quiet controlLaw (clock network) ∧ AllQuiet controlLaw clock blocks)

/-- No block that is served by the call drops a frame. -/
def AqmEvent.Quiet (enabled : NetworkId → Bool) (controlLaw : UInt64 → UInt32 → UInt64)
    (blocks : QueueBlocks) : AqmEvent → Prop
  | .enqueue e clock =>
      enabled e.network = true → (e.putIn blocks).2.2 = true →
        AllQuiet controlLaw clock (e.putIn blocks).1
  | .dequeue clock => AllQuiet controlLaw clock blocks

variable {enabled : NetworkId → Bool} {controlLaw : UInt64 → UInt32 → UInt64}
  {blocks : QueueBlocks}

theorem allAccounted_cons {e : NetworkId × NetworkQoSControlBlock} :
    AllAccounted (e :: blocks) ↔ e.2.Accounted ∧ AllAccounted blocks := List.forall_mem_cons

/-- Serving the blocks leaves the counts right exactly if nothing is dropped. -/
theorem allAccounted_aqmDequeue_iff (h : AllAccounted blocks) (clock : NetworkId → UInt64) :
    AllAccounted (aqmDequeue controlLaw clock blocks).1 ↔ AllQuiet controlLaw clock blocks := by
  induction blocks with
  | nil => exact iff_of_true h trivial
  | cons e blocks ih =>
      obtain ⟨network, b⟩ := e
      obtain ⟨hb, hblocks⟩ := allAccounted_cons.mp h
      unfold aqmDequeue AllQuiet
      by_cases hempty : b.currEnqueuedPackets = 0
      · rw [if_pos hempty]
        exact iff_of_true h (Or.inl hempty)
      · rw [if_neg hempty, or_iff_right hempty, ← ih hblocks,
          ← NetworkQoSControlBlock.accounted_serve_iff hb]
        exact allAccounted_cons

theorem accounted_block (h : AllAccounted blocks) (e : Enqueue) : (e.block blocks).Accounted := by
  unfold Enqueue.block
  rcases hget : SortedMap.get e.network blocks with - | b
  · exact NetworkQoSControlBlock.accounted_init e.memory
  · exact h _ (SortedMap.mem_of_get hget)

theorem allAccounted_store (h : AllAccounted blocks) (e : Enqueue) {b : NetworkQoSControlBlock}
    (hb : b.Accounted) : AllAccounted (e.store b blocks) := by
  intro x hx
  rcases SortedMap.mem_set hx with hx | rfl
  · exact h x hx
  · exact hb

/-- Putting a frame in leaves the counts right. -/
theorem allAccounted_putIn (h : AllAccounted blocks) (e : Enqueue) :
    AllAccounted (e.putIn blocks).1 := by
  have hselected := (NetworkQoSControlBlock.selectQueue_keeps (e.block blocks)
    e.qosBucket).accounted (accounted_block h e)
  unfold Enqueue.putIn
  dsimp only
  rcases ((e.block blocks).selectQueue e.qosBucket).2 with - | r
  · exact allAccounted_store h e hselected
  · exact allAccounted_store h e (NetworkQoSControlBlock.accounted_dropExcess
      (NetworkQoSControlBlock.accounted_push hselected r e.entry))

/-- A call leaves the counts right exactly if nothing is dropped. -/
theorem allAccounted_step_iff (h : AllAccounted blocks) (event : AqmEvent) :
    AllAccounted ((scheduler enabled controlLaw).step blocks event).1 ↔
      event.Quiet enabled controlLaw blocks := by
  rcases event with ⟨e, clock⟩ | clock
  · show AllAccounted (aqmEnqueue enabled controlLaw e clock blocks).1 ↔ _
    unfold aqmEnqueue AqmEvent.Quiet
    dsimp only
    have hput := allAccounted_putIn h e
    generalize e.putIn blocks = put at hput ⊢
    by_cases hqos : enabled e.network = true
    · rw [if_pos hqos]
      by_cases htaken : put.2.2 = true
      · rw [if_pos htaken]
        refine (allAccounted_aqmDequeue_iff hput clock).trans ?_
        exact ⟨fun hquiet _ _ => hquiet, fun hquiet => hquiet hqos htaken⟩
      · rw [if_neg htaken]
        refine iff_of_true hput fun _ h' => ?_
        exact absurd h' htaken
    · rw [if_neg hqos]
      refine iff_of_true h fun h' => ?_
      exact absurd h' hqos
  · exact allAccounted_aqmDequeue_iff h clock

/-- **The accounting of the queues**, where some networks have quality of service: after every step
of a run the lists of every block hold each of its queues once, and the counts of bytes and of
frames are those of the frames in the queues, exactly if no queue at which a loop of the run arrives
drops a frame. -/
theorem accounted_iff (enabled : NetworkId → Bool) (controlLaw : UInt64 → UInt32 → UInt64)
    (events : List AqmEvent) :
    (∀ before, before <+: events →
        AllAccounted ((scheduler enabled controlLaw).runState [] before)) ↔
      (scheduler enabled controlLaw).Guarded
        (fun blocks event => event.Quiet enabled controlLaw blocks) [] events :=
  Machine.always_iff_guarded (I := AllAccounted) (fun _ event h => allAccounted_step_iff h event)
    fun _ h => absurd h List.not_mem_nil

/-- The calls that put a frame into one of two queues: the second one is left with a frame that it
drops later, at the third frame of its own. -/
def lateFrames : List AqmEvent :=
  [(0, 1), (1, 1), (1, 10), (1, 200)].map fun (call : ℤ × UInt64) =>
    AqmEvent.enqueue ⟨1, List.replicate 1528 verbFrame, true, call.1, 1, -1, call.2,
      fun _ => ⟨0, 0, 0⟩⟩ fun _ => call.2

/-- On a network with quality of service the queue is then empty, and 1500 bytes are counted. -/
example : (((scheduler (fun _ => true) fun t _ => t).runState [] lateFrames).map fun e =>
      (List.finRange aqmNumBuckets).map fun r =>
        ((e.2.queues r).byteLength, (e.2.queues r).q.length)) =
      [[(0, 0), (1500, 0), (0, 0), (0, 0), (0, 0), (0, 0), (0, 0), (0, 0), (0, 0)]] := by
  decide +kernel

/-- A call of the source drops nothing: there is no block. -/
theorem quiet_nil (event : AqmEvent) : event.Quiet qosEnabled controlLaw [] := by
  cases event with
  | enqueue e clock =>
      intro hqos
      cases hqos
  | dequeue clock => trivial

/-- A run of the source drops nothing. -/
theorem guarded_quiet (controlLaw : UInt64 → UInt32 → UInt64) (events : List AqmEvent) :
    (aqmMachine controlLaw).Guarded
      (fun blocks event => event.Quiet qosEnabled controlLaw blocks) [] events := by
  refine Machine.guarded_run (C := fun _ _ => True) (I := fun blocks => blocks = [])
    ?_ ?_ rfl (Machine.guarded_true _ _ events)
  · rintro _ event rfl -
    rw [step_aqmMachine]
  · rintro _ event rfl -
    exact quiet_nil event

/-- **The counts of every run** are right: no frame is ever dropped from a queue, since no network
has quality of service; no packet waits, and all are sent in the order of the calls. -/
theorem accounted_run (controlLaw : UInt64 → UInt32 → UInt64) (events : List AqmEvent) :
    AllAccounted ((aqmMachine controlLaw).runState [] events) ∧
      (∀ e ∈ (aqmMachine controlLaw).runState [] events, e.2.currEnqueuedPackets = 0) ∧
        (aqmMachine controlLaw).runOutputs [] events = events.flatMap AqmEvent.sent := by
  refine ⟨?_, fun e he => ?_, runOutputs_aqmMachine controlLaw events⟩
  · exact (accounted_iff qosEnabled controlLaw events).mpr (guarded_quiet controlLaw events) events
      List.prefix_rfl
  · rw [runState_aqmMachine] at he
    exact absurd he List.not_mem_nil

end ZGalaxy
