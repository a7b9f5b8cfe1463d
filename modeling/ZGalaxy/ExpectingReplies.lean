/-
ZGalaxy/ExpectingReplies.lean

Which replies the node expects: `Node::expectReplyTo` and `Node::expectingReplyTo`.

The upper 32 bits of a packet id are kept in one of 256 buckets of 32 slots, written in turn by an
8-bit counter.  Each bucket is a ring (`bucketRing`), so what it holds is the last 32 calls made for
it (`expectingReplyTo_iff`).  The tables start as zeros, and a slot that was never written is not
told from an expected id whose upper bits are zero; these all belong to bucket 0.
`expects_iff_asked` says exactly when the filter keeps its word all the same.
-/
import ZGalaxy.RingBuffer

namespace ZGalaxy

open RingBuffer

/-- `ZT_EXPECTING_REPLIES_BUCKET_MASK1` -/
def expectingRepliesBucketMask1 : ℕ := 255

/-- `ZT_EXPECTING_REPLIES_BUCKET_MASK2` -/
def expectingRepliesBucketMask2 : ℕ := 31

/-- `_expectingRepliesTo` and `_expectingRepliesToBucketPtr`. -/
structure ExpectingReplies where
  expectingRepliesTo :
    Vector (Vector (BitVec 32) (expectingRepliesBucketMask2 + 1)) (expectingRepliesBucketMask1 + 1)
  bucketPtr : Vector (BitVec 8) (expectingRepliesBucketMask1 + 1)

/-- `(uint32_t)(packetId >> 32)` -/
def upperBits (packetId : BitVec 64) : BitVec 32 := (packetId >>> 32).setWidth 32

/-- `pid2 & ZT_EXPECTING_REPLIES_BUCKET_MASK1` -/
def replyBucket (pid2 : BitVec 32) : ℕ := pid2.toNat &&& expectingRepliesBucketMask1

theorem replyBucket_lt (pid2 : BitVec 32) : replyBucket pid2 < expectingRepliesBucketMask1 + 1 :=
  Nat.lt_succ_of_le Nat.and_le_right

/-- The slot of a bucket that is written next. -/
def nextSlot (ptr : BitVec 8) : ℕ := ptr.toNat &&& expectingRepliesBucketMask2

theorem nextSlot_lt (ptr : BitVec 8) : nextSlot ptr < expectingRepliesBucketMask2 + 1 :=
  Nat.lt_succ_of_le Nat.and_le_right

namespace ExpectingReplies

/-- As the constructor of the node leaves it: both tables are zeroed. -/
def start : ExpectingReplies where
  expectingRepliesTo := Vector.replicate _ (Vector.replicate _ 0)
  bucketPtr := Vector.replicate _ 0

/-- `Node::expectReplyTo` -/
def expectReplyTo (s : ExpectingReplies) (packetId : BitVec 64) : ExpectingReplies :=
  let pid2 := upperBits packetId
  let bucket := replyBucket pid2
  have hb : bucket < expectingRepliesBucketMask1 + 1 := replyBucket_lt pid2
  let ptr := s.bucketPtr[bucket]
  { expectingRepliesTo := s.expectingRepliesTo.set bucket
      (s.expectingRepliesTo[bucket].set (nextSlot ptr) pid2 (nextSlot_lt ptr))
    bucketPtr := s.bucketPtr.set bucket (ptr + 1) }

/-- `Node::expectingReplyTo` -/
def expectingReplyTo (s : ExpectingReplies) (packetId : BitVec 64) : Bool :=
  let pid2 := upperBits packetId
  have hb : replyBucket pid2 < expectingRepliesBucketMask1 + 1 := replyBucket_lt pid2
  s.expectingRepliesTo[replyBucket pid2].toList.any fun slot => slot == pid2

/-- The tables after calls of `expectReplyTo`. -/
def afterCalls (packetIds : List (BitVec 64)) : ExpectingReplies :=
  packetIds.foldl expectReplyTo start

/-! ### Buckets are rings -/

/-- A bucket with its counter. -/
def bucketRing (s : ExpectingReplies) (b : ℕ) (hb : b < expectingRepliesBucketMask1 + 1) :
    Ring (BitVec 32) (expectingRepliesBucketMask2 + 1) 8 :=
  ⟨s.expectingRepliesTo[b], s.bucketPtr[b]⟩

variable {b : ℕ} (hb : b < expectingRepliesBucketMask1 + 1)

/-- The calls made for a bucket, by the bits it keeps of them. -/
def bucketCalls (packetIds : List (BitVec 64)) (b : ℕ) : List (BitVec 32) :=
  (packetIds.map upperBits).filter fun pid2 => replyBucket pid2 = b

theorem nextSlot_eq (ptr : BitVec 8) :
    nextSlot ptr = ptr.toNat % (expectingRepliesBucketMask2 + 1) :=
  Nat.and_two_pow_sub_one_eq_mod ptr.toNat 5

theorem bucketRing_start : bucketRing start b hb = new _ 8 0 := by
  unfold bucketRing start
  simp only [Vector.getElem_replicate]
  rfl

/-- A call writes to its own bucket. -/
theorem bucketRing_expectReplyTo_self (s : ExpectingReplies) (p : BitVec 64)
    (hp : replyBucket (upperBits p) = b) :
    bucketRing (s.expectReplyTo p) b hb = push (bucketRing s b hb) (upperBits p) := by
  subst hp
  unfold bucketRing expectReplyTo push
  simp only [Vector.getElem_set_self, nextSlot_eq]

/-- A call leaves the other buckets alone. -/
theorem bucketRing_expectReplyTo_ne (s : ExpectingReplies) (p : BitVec 64)
    (hp : replyBucket (upperBits p) ≠ b) :
    bucketRing (s.expectReplyTo p) b hb = bucketRing s b hb := by
  unfold bucketRing expectReplyTo
  simp only [Vector.getElem_set_ne _ _ hp]

/-- **A bucket is a ring of the calls made for it.** -/
theorem bucketRing_afterCalls (packetIds : List (BitVec 64)) :
    bucketRing (afterCalls packetIds) b hb = pushes (new _ 8 0) (bucketCalls packetIds b) := by
  induction packetIds using List.reverseRecOn with
  | nil => exact bucketRing_start hb
  | append_singleton ps p ih =>
      unfold afterCalls bucketCalls
      rw [List.foldl_append, List.map_append, List.filter_append]
      show bucketRing ((afterCalls ps).expectReplyTo p) b hb =
        pushes _ (bucketCalls ps b ++ List.filter _ [upperBits p])
      by_cases hp : replyBucket (upperBits p) = b
      · rw [bucketRing_expectReplyTo_self hb _ _ hp, ih,
          List.filter_cons_of_pos (by simpa using hp),
          List.filter_nil, pushes_concat]
      · rw [bucketRing_expectReplyTo_ne hb _ _ hp, ih, List.filter_cons_of_neg (by simpa using hp),
          List.filter_nil, List.append_nil]

/-! ### What is expected -/

variable {packetIds : List (BitVec 64)} {p : BitVec 64}

/-- The calls for the bucket of `p` that are the last 32 of it. -/
def recentCalls (packetIds : List (BitVec 64)) (p : BitVec 64) : List (BitVec 32) :=
  recent (expectingRepliesBucketMask2 + 1) (bucketCalls packetIds (replyBucket (upperBits p)))

/-- **What the filter lets through**: the last calls of the bucket, and zero while there were fewer
calls for bucket 0 than it has slots. -/
theorem expectingReplyTo_iff :
    (afterCalls packetIds).expectingReplyTo p = true ↔
      upperBits p ∈ recentCalls packetIds p ∨
      (upperBits p = 0 ∧ (bucketCalls packetIds 0).length < expectingRepliesBucketMask2 + 1) := by
  have hring := bucketRing_afterCalls (replyBucket_lt (upperBits p)) packetIds
  have hdvd : expectingRepliesBucketMask2 + 1 ∣ 2 ^ 8 := ⟨8, rfl⟩
  have hslots : (afterCalls packetIds).expectingReplyTo p = true ↔
      upperBits p ∈ (bucketRing (afterCalls packetIds) _
        (replyBucket_lt (upperBits p))).slots.toList := by
    unfold expectingReplyTo
    rw [List.any_eq_true]
    constructor
    · rintro ⟨slot, hmem, heq⟩
      obtain rfl := beq_iff_eq.mp heq
      exact hmem
    · intro hmem
      exact ⟨upperBits p, hmem, beq_self_eq_true _⟩
  rw [hslots, hring, mem_slots_pushes hdvd]
  refine or_congr_right (and_congr_right fun hzero => ?_)
  rw [hzero]
  rfl

/-- A call of the bucket is a call. -/
theorem mem_bucketCalls {pid2 : BitVec 32} :
    pid2 ∈ bucketCalls packetIds (replyBucket pid2) ↔ ∃ q ∈ packetIds, upperBits q = pid2 := by
  unfold bucketCalls
  rw [List.mem_filter, List.mem_map]
  exact and_iff_left (by simp)

/-- What is recent was asked for. -/
theorem asked_of_recent (h : upperBits p ∈ recentCalls packetIds p) :
    ∃ q ∈ packetIds, upperBits q = upperBits p :=
  mem_bucketCalls.mp (recent_subset h)

/-- `p` passes only if a call had its upper bits, and passes if such a call is among the last of its
bucket. -/
def KeepsWord (packetIds : List (BitVec 64)) (p : BitVec 64) : Prop :=
  ((afterCalls packetIds).expectingReplyTo p = true →
    ∃ q ∈ packetIds, upperBits q = upperBits p) ∧
  (upperBits p ∈ recentCalls packetIds p → (afterCalls packetIds).expectingReplyTo p = true)

/-- **Exactly when the filter keeps its word**: the upper bits of the id are not zero, or zero was
asked for, or every slot of bucket 0 has been written. -/
theorem expects_iff_asked (packetIds : List (BitVec 64)) (p : BitVec 64) :
    KeepsWord packetIds p ↔
      upperBits p ≠ 0 ∨ (∃ q ∈ packetIds, upperBits q = 0) ∨
      expectingRepliesBucketMask2 + 1 ≤ (bucketCalls packetIds 0).length := by
  unfold KeepsWord
  rw [expectingReplyTo_iff]
  constructor
  · rintro ⟨honly, _⟩
    by_cases hzero : upperBits p = 0
    · by_cases hfew : (bucketCalls packetIds 0).length < expectingRepliesBucketMask2 + 1
      · rw [← hzero]
        exact .inr (.inl (honly (.inr ⟨hzero, hfew⟩)))
      · exact .inr (.inr (Nat.not_lt.mp hfew))
    · exact .inl hzero
  · intro hcond
    refine ⟨?_, .inl⟩
    rintro (hrecent | ⟨hzero, hfew⟩)
    · exact asked_of_recent hrecent
    · -- a slot that was never written
      rcases hcond with hne | hasked | hfull
      · exact absurd hzero hne
      · rwa [hzero]
      · exact absurd hfew (Nat.not_lt.mpr hfull)

/-- Before any call the filter lets an id with zero upper bits through. -/
theorem unasked_expected :
    ¬ ∀ (packetIds : List (BitVec 64)) (p : BitVec 64), KeepsWord packetIds p := by
  intro h
  have hzero : (afterCalls []).expectingReplyTo 5 = true :=
    expectingReplyTo_iff.mpr (.inr ⟨by decide, by decide⟩)
  obtain ⟨q, hq, _⟩ := (h [] 5).1 hzero
  exact List.not_mem_nil hq

end ExpectingReplies

end ZGalaxy
