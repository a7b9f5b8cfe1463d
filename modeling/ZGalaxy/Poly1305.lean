/-
ZGalaxy/Poly1305.lean

Poly1305, the one-time authenticator of packets: what it is and how the source streams into it.

`Poly1305.tag` says what the code is for.  The message is cut into blocks of 16 bytes, each is read
as a number with one more bit set above it, and the polynomial of these coefficients is evaluated at
the clamped first half of the key modulo `2 ^ 130 - 5`; the second half is added modulo `2 ^ 128`.

Both builds of the source share one state and one way to stream a message into it
(`poly1305_update`, and the first part of `poly1305_finish`).  They differ in the limbs that the
state is made of and in the body of the loop over blocks, which is the parameter `body` here.
`Absorbed.update` is about any of them: what was absorbed only depends on the bytes fed in, not on
how they were cut.  From it `accumulated_h` gives the limbs that the last part of `poly1305_finish`
starts from.  A build is correct if its loop body is one step of the evaluation (`Evaluates`), and
then it has evaluated the polynomial (`Evaluates.accumulated`).
-/
import ZGalaxy.Blocks
import ZGalaxy.Words
import Mathlib.Data.Nat.ModEq

namespace ZGalaxy

open ByteList

namespace Poly1305

/-! ### The authenticator -/

/-- The modulus of Poly1305. -/
def prime : ℕ := 2 ^ 130 - 5

/-- The bits of the first half of a key that are used. -/
def clampMask : ℕ := 0x0ffffffc0ffffffc0ffffffc0fffffff

/-- The point that the polynomial of a message is evaluated at. -/
def point (key : Bytes) : ℕ := leValue (slice key 0 16) &&& clampMask

/-- The number added at the end. -/
def pad (key : Bytes) : ℕ := leValue (slice key 16 16)

/-- The coefficient of a block: the bit above it tells its length. -/
def coefficient (b : Bytes) : ℕ := leValue b + 256 ^ b.length

/-- The blocks of a message, the last of them possibly short. -/
def messageBlocks (m : Bytes) : List Bytes :=
  blocks 16 m ++ if rest 16 m = [] then [] else [rest 16 m]

/-- One more coefficient. -/
def horner (r acc : ℕ) (b : Bytes) : ℕ := (acc + coefficient b) * r % prime

/-- The polynomial of a message at `r`. -/
def evaluate (r : ℕ) (m : Bytes) : ℕ := (messageBlocks m).foldl (horner r) 0

/-- Poly1305 of a key of 32 bytes. -/
def tag (key m : Bytes) : Bytes := leDigits 16 (evaluate (point key) m + pad key)

/-! ### The state and how a message is streamed into it -/

/-- `poly1305_state_internal_t`, over the limbs `ρ` and the words `π` of a build. -/
structure State (ρ π : Type) where
  r : ρ
  h : ρ
  pad : π
  leftover : ℕ
  buffer : Bytes
  final : Bool

section Streaming

variable {ρ π : Type} (body : Bool → ρ → ρ → Bytes → ρ)

/-- `poly1305_blocks`: the loop `body` of a build over the whole blocks of `m`. -/
def absorbBlocks (st : State ρ π) (m : Bytes) : State ρ π :=
  { st with h := (blocks 16 m).foldl (body st.final st.r) st.h }

/-- `poly1305_update` past the leftover bytes: full blocks are processed, the rest is stored. -/
def updateBlocks (st : State ρ π) (m : Bytes) : State ρ π :=
  let want := m.length / 16 * 16
  let st := if 16 ≤ m.length then absorbBlocks body st (m.take want) else st
  let m := if 16 ≤ m.length then m.drop want else m
  if m = [] then st
  else
    { st with buffer := splice st.buffer st.leftover m, leftover := st.leftover + m.length }

/-- `poly1305_update`. -/
def update (st : State ρ π) (m : Bytes) : State ρ π :=
  if st.leftover = 0 then updateBlocks body st m
  else
    let want := min (16 - st.leftover) m.length
    let st := { st with
      buffer := splice st.buffer st.leftover (m.take want), leftover := st.leftover + want }
    if st.leftover < 16 then st
    else updateBlocks body { absorbBlocks body st st.buffer with leftover := 0 } (m.drop want)

/-- `poly1305_finish` up to the last block: what is left over is closed with a one and filled up
with zeros. -/
def lastBlock (st : State ρ π) : State ρ π :=
  if st.leftover = 0 then st
  else
    let buffer := splice st.buffer st.leftover (1 :: List.replicate (15 - st.leftover) 0)
    absorbBlocks body { st with buffer := buffer, final := true } buffer

/-- The state `st` comes from `st₀` by absorbing `b`. -/
structure Absorbed (st₀ : State ρ π) (b : Bytes) (st : State ρ π) : Prop where
  r : st.r = st₀.r
  pad : st.pad = st₀.pad
  final : st.final = false
  h : st.h = (blocks 16 b).foldl (body false st₀.r) st₀.h
  length_buffer : st.buffer.length = 16
  leftover : st.leftover = (rest 16 b).length
  buffer : st.buffer.take st.leftover = rest 16 b

variable {body} {st₀ st : State ρ π} {b : Bytes}

theorem Absorbed.leftover_lt (h : Absorbed body st₀ b st) : st.leftover < 16 :=
  h.leftover.trans_lt (length_rest_lt (by decide) b)

/-- With nothing kept back, the blocks of a message are absorbed and the rest is kept. -/
theorem Absorbed.updateBlocks (h : Absorbed body st₀ b st) (hzero : st.leftover = 0) (m : Bytes) :
    Absorbed body st₀ (b ++ m) (updateBlocks body st m) := by
  have hrest : rest 16 b = [] := List.eq_nil_of_length_eq_zero (h.leftover ▸ hzero)
  have hblocks : blocks 16 (b ++ m) = blocks 16 b ++ blocks 16 m := by
    rw [blocks_append (by decide), hrest, List.nil_append]
  have hrest' : rest 16 (b ++ m) = rest 16 m := by
    rw [rest_append (by decide), hrest, List.nil_append]
  -- the loop sees the same blocks whether it is given the message or only its whole blocks
  have htake : blocks 16 (m.take (m.length / 16 * 16)) = blocks 16 m :=
    blocks_take_whole (by decide) m
  have hloop : (if 16 ≤ m.length then absorbBlocks body st (m.take (m.length / 16 * 16)) else st)
      = { st with h := (blocks 16 m).foldl (body false st₀.r) st.h } := by
    split_ifs with hm
    · rw [absorbBlocks, htake, h.final, h.r]
    · rw [blocks_of_lt (by omega), List.foldl_nil]
  have hkept : (if 16 ≤ m.length then m.drop (m.length / 16 * 16) else m) = rest 16 m := by
    split_ifs with hm
    · rfl
    · exact (rest_of_lt (by omega)).symm
  have hstate : (blocks 16 m).foldl (body false st₀.r) st.h
      = (blocks 16 (b ++ m)).foldl (body false st₀.r) st₀.h := by
    rw [hblocks, List.foldl_append, h.h]
  have hshort : (rest 16 m).length ≤ 16 := (length_rest_lt (by decide) m).le
  unfold Poly1305.updateBlocks
  simp only [hloop, hkept, hstate]
  split_ifs with hm
  · refine ⟨h.r, h.pad, h.final, rfl, h.length_buffer, ?_, ?_⟩
    · rw [hrest', hm, hzero, List.length_nil]
    · rw [hrest', hm, hzero, List.take_zero]
  · have hfits : st.leftover + (rest 16 m).length ≤ st.buffer.length := by
      rw [hzero, h.length_buffer]
      omega
    refine ⟨h.r, h.pad, h.final, rfl, ?_, ?_, ?_⟩
    · rw [length_splice hfits, h.length_buffer]
    · rw [hrest', hzero, Nat.zero_add]
    · rw [take_splice hfits, hrest', hzero, List.take_zero, List.nil_append]

/-- **Feeding a message in**: what was absorbed is the message behind what came before it, however
much of a block was kept back. -/
theorem Absorbed.update (h : Absorbed body st₀ b st) (m : Bytes) :
    Absorbed body st₀ (b ++ m) (update body st m) := by
  unfold Poly1305.update
  split_ifs with hzero
  · exact h.updateBlocks hzero m
  · have hlt := h.leftover_lt
    set want := min (16 - st.leftover) m.length with hwant
    have hlen : (m.take want).length = want := List.length_take_of_le (by omega)
    have hfits : st.leftover + (m.take want).length ≤ st.buffer.length := by
      rw [hlen, h.length_buffer]
      omega
    have hbuffer : (splice st.buffer st.leftover (m.take want)).take (st.leftover + want)
        = rest 16 b ++ m.take want := by
      rw [← h.buffer, ← take_splice hfits, hlen]
    dsimp only
    split_ifs with hfull
    · -- all of the message goes into the buffer
      have hall : m.take want = m := List.take_of_length_le (by omega)
      have hshort : (rest 16 b ++ m).length < 16 := by
        rw [List.length_append, ← h.leftover]
        omega
      refine ⟨h.r, h.pad, h.final, ?_, ?_, ?_, ?_⟩
      · rw [blocks_append (by decide), blocks_of_lt hshort, List.append_nil, h.h]
      · rw [length_splice hfits, h.length_buffer]
      · rw [rest_append (by decide), rest_of_lt hshort, List.length_append, ← h.leftover]
        dsimp only
        omega
      · rw [rest_append (by decide), rest_of_lt hshort, hbuffer, hall]
    · -- the buffer is full and is absorbed as one block
      have hblock : (rest 16 b ++ m.take want).length = 16 := by
        rw [List.length_append, ← h.leftover, hlen]
        omega
      have hone : splice st.buffer st.leftover (m.take want) = rest 16 b ++ m.take want := by
        refine (List.take_of_length_le ?_).symm.trans hbuffer
        rw [length_splice hfits, h.length_buffer]
        omega
      have hblocks : blocks 16 (b ++ m.take want)
          = blocks 16 b ++ [rest 16 b ++ m.take want] := by
        rw [blocks_append (by decide), blocks_block (by decide) hblock]
      have hrest : rest 16 (b ++ m.take want) = [] := by
        rw [rest_append (by decide), rest_block (by decide) hblock]
      have hone' : blocks 16 (rest 16 b ++ m.take want) = [rest 16 b ++ m.take want] :=
        blocks_block (by decide) hblock
      have habsorbed : Absorbed body st₀ (b ++ m.take want)
          { absorbBlocks body { st with
              buffer := splice st.buffer st.leftover (m.take want),
              leftover := st.leftover + want } (splice st.buffer st.leftover (m.take want)) with
            leftover := 0 } := by
        refine ⟨h.r, h.pad, h.final, ?_, ?_, ?_, ?_⟩
        · simp only [absorbBlocks, hone, hone', h.final, h.r, h.h, hblocks, List.foldl_append]
        · exact (length_splice hfits).trans h.length_buffer
        · rw [hrest, List.length_nil]
        · rw [hrest, List.take_zero]
      have := habsorbed.updateBlocks rfl (m.drop want)
      rwa [List.append_assoc, List.take_append_drop] at this

/-! ### What a build has to do -/

variable (body)

/-- The state that the last part of `poly1305_finish` starts from. -/
def accumulated (st₀ : State ρ π) (m : Bytes) : State ρ π := lastBlock body (update body st₀ m)

/-- A state as `poly1305_init` leaves it. -/
structure Fresh (st : State ρ π) : Prop where
  leftover : st.leftover = 0
  final : st.final = false
  length_buffer : st.buffer.length = 16

/-- **The loop body of a build is one step of the evaluation**: for limbs within the bounds `Bounded`
it keeps the bounds, and their `value` modulo `prime` becomes that of the next coefficient. -/
structure Evaluates (value : ρ → ℕ) (Bounded : ρ → Prop) (r : ρ) : Prop where
  bounded : ∀ {h m} final, m.length = 16 → Bounded h → Bounded (body final r h m)
  value : ∀ {h m} final, m.length = 16 → Bounded h →
    value (body final r h m)
      ≡ (value h + (leValue m + if final then 0 else 2 ^ 128)) * value r [MOD prime]

variable {body}

theorem Fresh.absorbed (h : Fresh st₀) : Absorbed body st₀ [] st₀ := by
  refine ⟨rfl, rfl, h.final, ?_, h.length_buffer, ?_, ?_⟩
  · rw [blocks_of_lt (by decide), List.foldl_nil]
  · rw [rest_of_lt (by decide), h.leftover, List.length_nil]
  · rw [rest_of_lt (by decide), h.leftover, List.take_zero]

/-- The block that closes a message: its number is the coefficient of the bytes left over. -/
theorem leValue_closed (b : Bytes) (n : ℕ) :
    leValue (b ++ 1 :: List.replicate n 0) = coefficient b := by
  rw [leValue_append, leValue, leValue_replicate_zero, coefficient]
  simp

/-- What the last block is made of. -/
theorem splice_closed {buf m : Bytes} (hbuf : buf.length = 16) {i : ℕ} (hi : i < 16)
    (hm : buf.take i = m) :
    splice buf i (1 :: List.replicate (15 - i) 0) = m ++ 1 :: List.replicate (15 - i) 0 := by
  have hend : i + (1 :: List.replicate (15 - i) (0 : UInt8)).length = buf.length := by
    rw [List.length_cons, List.length_replicate, hbuf]
    omega
  rw [splice, hend, List.drop_length, List.append_nil, hm]

/-- What a message leaves in the limbs: its whole blocks, then the closed one. -/
theorem accumulated_h (h : Fresh st₀) (m : Bytes) :
    (accumulated body st₀ m).h =
      (if rest 16 m = [] then (blocks 16 m).foldl (body false st₀.r) st₀.h
      else body true st₀.r ((blocks 16 m).foldl (body false st₀.r) st₀.h)
        (rest 16 m ++ 1 :: List.replicate (15 - (rest 16 m).length) 0)) := by
  have hm : Absorbed body st₀ m (update body st₀ m) := h.absorbed.update m
  have hnil : (update body st₀ m).leftover = 0 ↔ rest 16 m = [] := by
    rw [hm.leftover, List.length_eq_zero_iff]
  unfold accumulated lastBlock
  by_cases hrest : rest 16 m = []
  · rw [if_pos (hnil.mpr hrest), if_pos hrest, hm.h]
  · rw [if_neg (fun h0 => hrest (hnil.mp h0)), if_neg hrest]
    have hclosed := splice_closed hm.length_buffer hm.leftover_lt hm.buffer
    have hlen : (rest 16 m ++ 1 :: List.replicate (15 - (rest 16 m).length) (0 : UInt8)).length
        = 16 := by
      have := length_rest_lt (n := 16) (by decide) m
      rw [List.length_append, List.length_cons, List.length_replicate]
      omega
    rw [hm.leftover] at hclosed
    simp only [absorbBlocks, hm.leftover, hclosed, blocks_block (by decide) hlen, hm.r, hm.h,
      List.foldl_cons, List.foldl_nil]

theorem accumulated_pad (h : Fresh st₀) (m : Bytes) : (accumulated body st₀ m).pad = st₀.pad := by
  have hm : Absorbed body st₀ m (update body st₀ m) := h.absorbed.update m
  unfold accumulated lastBlock
  split_ifs <;> exact hm.pad

section Correctness

variable {value : ρ → ℕ} {Bounded : ρ → Prop} {r : ρ}

/-- The loop over whole blocks evaluates their coefficients. -/
theorem Evaluates.foldl (E : Evaluates body value Bounded r) {bs : List Bytes}
    (hbs : ∀ b ∈ bs, b.length = 16) {h : ρ} (hh : Bounded h) {acc : ℕ}
    (hacc : value h ≡ acc [MOD prime]) :
    Bounded (bs.foldl (body false r) h) ∧
      value (bs.foldl (body false r) h) ≡ bs.foldl (horner (value r)) acc [MOD prime] := by
  induction bs generalizing h acc with
  | nil => exact ⟨hh, hacc⟩
  | cons b bs ih =>
      have hb : b.length = 16 := hbs b List.mem_cons_self
      refine ih (fun b' hb' => hbs b' (List.mem_cons_of_mem _ hb')) (E.bounded false hb hh) ?_
      have hcoeff : coefficient b = leValue b + 2 ^ 128 := by rw [coefficient, hb]; norm_num
      calc value (body false r h b)
          ≡ (value h + coefficient b) * value r [MOD prime] := hcoeff ▸ E.value false hb hh
        _ ≡ (acc + coefficient b) * value r [MOD prime] := (hacc.add_right _).mul_right _
        _ ≡ horner (value r) acc b [MOD prime] := (Nat.mod_modEq _ _).symm

/-- **A build whose loop body is a step of the evaluation has evaluated the polynomial of the
message** when the last part of `poly1305_finish` starts. -/
theorem Evaluates.accumulated (E : Evaluates body value Bounded st₀.r) (h : Fresh st₀)
    (h₀ : Bounded st₀.h) (hzero : value st₀.h = 0) (m : Bytes) :
    Bounded (accumulated body st₀ m).h ∧
      value (accumulated body st₀ m).h % prime = evaluate (value st₀.r) m := by
  have hstart : value st₀.h ≡ 0 [MOD prime] := by rw [hzero]
  have hloop := E.foldl (fun b => length_of_mem_blocks (n := 16) (b := m)) h₀ hstart
  have hlt : ∀ bs : List Bytes, ∀ acc < prime, bs.foldl (horner (value st₀.r)) acc < prime := by
    intro bs
    induction bs with
    | nil => exact fun acc hacc => hacc
    | cons b bs ih => exact fun acc _ => ih _ (Nat.mod_lt _ (by decide))
  have heval : evaluate (value st₀.r) m < prime := hlt _ 0 (by decide)
  rw [accumulated_h h, ← Nat.mod_eq_of_lt heval]
  by_cases hrest : rest 16 m = []
  · rw [if_pos hrest, evaluate, messageBlocks, if_pos hrest, List.append_nil]
    exact hloop
  · rw [if_neg hrest, evaluate, messageBlocks, if_neg hrest, List.foldl_append, List.foldl_cons,
      List.foldl_nil]
    have hlen : (rest 16 m ++ 1 :: List.replicate (15 - (rest 16 m).length) (0 : UInt8)).length
        = 16 := by
      have := length_rest_lt (n := 16) (by decide) m
      rw [List.length_append, List.length_cons, List.length_replicate]
      omega
    refine ⟨E.bounded true hlen hloop.1, ?_⟩
    have hlast := E.value true hlen hloop.1
    rw [leValue_closed, if_pos rfl, Nat.add_zero] at hlast
    exact (hlast.trans ((hloop.2.add_right _).mul_right _)).trans (Nat.mod_modEq _ _).symm

end Correctness

end Streaming

end Poly1305

end ZGalaxy
