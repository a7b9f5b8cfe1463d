/-
ZGalaxy/Buffer.lean

Reading a `Buffer` with its bounds checked, in the exception monad of the readers.

The positions and sizes that the readers ask for are sums of a few sixteen-bit
numbers, so the sum of the two that `Buffer::field` checks does not wrap.  A reader
that succeeds has read every part it asked for (`bind_ok`, `field_ok`, `uintAt_lt`).
-/
import ZGalaxy.Packet

namespace ZGalaxy

open ByteList

namespace Buffer

/-- `Buffer::field`. -/
def field (b : Bytes) (i l : ℕ) : Except ZTException Bytes :=
  if b.length < i + l then .error .outOfBounds else .ok (slice b i l)

/-- `Buffer::operator[]`. -/
def byte (b : Bytes) (i : ℕ) : Except ZTException UInt8 :=
  if b.length ≤ i then .error .outOfBounds else .ok (byteAt b i)

/-- `Buffer::at`, for an unsigned integer of `n` bytes. -/
def uintAt (n : ℕ) (b : Bytes) (i : ℕ) : Except ZTException ℕ :=
  (field b i n).map beNat

/-- A step of a reader that succeeds. -/
theorem bind_ok.{u} {α β : Type u} {x : Except ZTException α} {f : α → Except ZTException β}
    {b : β} :
    (x >>= f) = .ok b ↔ ∃ a, x = .ok a ∧ f a = .ok b := by
  cases x with
  | error e =>
      refine ⟨fun h => ?_, fun ⟨a, h, _⟩ => ?_⟩
      · cases h
      · cases h
  | ok a =>
      refine ⟨fun h => ⟨a, rfl, h⟩, fun ⟨a', h, hf⟩ => ?_⟩
      cases h
      exact hf

theorem field_ok {b v : Bytes} {i l : ℕ} :
    field b i l = .ok v ↔ i + l ≤ b.length ∧ slice b i l = v := by
  unfold field
  split_ifs with h
  · exact ⟨fun he => (by cases he), fun hv => absurd hv.1 (not_le.mpr h)⟩
  · rw [Except.ok.injEq]
    exact ⟨fun he => ⟨not_lt.mp h, he⟩, fun hv => hv.2⟩

theorem length_field {b v : Bytes} {i l : ℕ} (h : field b i l = .ok v) : v.length = l := by
  obtain ⟨hl, rfl⟩ := field_ok.mp h
  exact length_slice hl

/-- An integer read from `n` bytes is below `256 ^ n`. -/
theorem uintAt_lt {n v : ℕ} {b : Bytes} {i : ℕ} (h : uintAt n b i = .ok v) : v < 256 ^ n := by
  unfold uintAt at h
  rcases hf : field b i n with e | w
  · rw [hf] at h
    cases h
  · rw [hf] at h
    cases h
    rw [← length_field hf]
    exact beNat_lt w

/-- A field is what was put at its place. -/
theorem field_at {b a v c : Bytes} {i l : ℕ} (hb : b = a ++ (v ++ c)) (hi : a.length = i)
    (hl : v.length = l) : field b i l = .ok v := by
  subst hb
  refine field_ok.mpr ⟨?_, slice_middle hi hl⟩
  simp only [List.length_append]
  omega

theorem byte_at {b a c : Bytes} {x : UInt8} {i : ℕ} (hb : b = a ++ ([x] ++ c))
    (hi : a.length = i) : byte b i = .ok x := by
  subst hb hi
  unfold byte
  rw [if_neg (by simp)]
  congr 1
  simp [byteAt]

theorem uintAt_at {b a c : Bytes} {i n v : ℕ} (hb : b = a ++ (beBytes n v ++ c))
    (hi : a.length = i) (hv : v < 256 ^ n) : uintAt n b i = .ok v := by
  rw [uintAt, field_at hb hi (length_beBytes n v)]
  show Except.ok (beNat (beBytes n v)) = .ok v
  rw [beNat_beBytes, Nat.mod_eq_of_lt hv]

end Buffer

end ZGalaxy
