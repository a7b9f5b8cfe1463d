/-
ZGalaxy/ConfigUpdate.lean

Configuration updates: a dictionary cut into signed chunks, and what becomes of them.

An update is its pieces in order, each sent with the place it belongs to and signed by the
controller (`ConfigParts`).  `ConfigUpdate` adds what makes it one that a receiver can take: the
pieces are not empty and fit, and no two chunks have the same id.

A slot that receives an update has filed some of its chunks, each once (`Holds`).  One
more chunk is either a duplicate, which changes nothing (`handle_duplicate`), or is filed; the chunk
that makes the filed ones all of them is the one after which the buffer holds the dictionary and is
parsed (`handle_new`).
-/
import ZGalaxy.ConfigChunks
import Mathlib.Data.List.GetD

namespace ZGalaxy

open ByteList

/-! ### Updates -/

/-- What a controller sends: the pieces of a dictionary. -/
structure ConfigParts where
  nwid : NetworkId
  id : BitVec 64
  pieces : List Bytes
  /-- what the controller signs a message with -/
  sign : Bytes → Bytes

namespace ConfigParts

variable (P : ConfigParts)

/-- The dictionary. -/
def dict : Bytes := P.pieces.flatten

/-- The number of chunks. -/
def count : ℕ := P.pieces.length

/-- What chunk `j` holds. -/
def piece (j : ℕ) : Bytes := P.pieces.getD j []

/-- Where chunk `j` belongs. -/
def offset (j : ℕ) : ℕ := (P.pieces.take j).flatten.length

/-- What the signature of chunk `j` covers. -/
def message (j : ℕ) : Bytes :=
  beBytes 8 P.nwid.toNat ++ beBytes 2 (P.piece j).length ++ P.piece j
    ++ [0] -- no flags
    ++ beBytes 8 P.id.toNat ++ beBytes 4 P.dict.length ++ beBytes 4 (P.offset j)

/-- Chunk `j` as it is sent. -/
def payload (j : ℕ) : Bytes :=
  P.message j ++ [1] ++ beBytes 2 eccSignatureLen ++ P.sign (P.message j)

/-- The id that chunk `j` is told apart by. -/
def chunkId (j : ℕ) : BitVec 64 := ConfigReceiver.chunkIdOf (P.sign (P.message j))

/-- Chunk `j` as it is filed. -/
def chunk (j : ℕ) : ConfigChunk where
  data := P.piece j
  updateId := P.id
  totalLength := P.dict.length
  chunkIndex := P.offset j
  chunkId := P.chunkId j
  signed := true

/-- Chunk `j` as it is read. -/
def signedChunk (j : ℕ) : SignedChunk :=
  { P.chunk j with
    fastPropagate := false
    message := P.message j
    sig := P.sign (P.message j) }

/-- All chunks, as they are filed. -/
def chunks : List ConfigChunk := (List.range P.count).map P.chunk

variable {P}

theorem offset_succ {j : ℕ} (h : j < P.count) :
    P.offset (j + 1) = P.offset j + (P.piece j).length := by
  unfold offset piece
  rw [List.take_add_one, List.getElem?_eq_getElem h, List.flatten_append, List.length_append,
    List.getD_eq_getElem _ _ h]
  simp

theorem offset_count : P.offset P.count = P.dict.length := by
  unfold offset count dict
  rw [List.take_length]

theorem offset_mono {i j : ℕ} (h : i ≤ j) : P.offset i ≤ P.offset j := by
  unfold offset
  obtain ⟨k, rfl⟩ := Nat.exists_eq_add_of_le h
  rw [List.take_add, List.flatten_append, List.length_append]
  exact Nat.le_add_right _ _

/-- A chunk lies inside the dictionary. -/
theorem offset_add_le {j : ℕ} (h : j < P.count) :
    P.offset j + (P.piece j).length ≤ P.dict.length := by
  rw [← offset_succ h, ← offset_count]
  exact offset_mono h

/-- Chunks are apart. -/
theorem apart {i j : ℕ} (hi : i < P.count) (hj : j < P.count) (h : i ≠ j) :
    ConfigReceiver.Apart (P.chunk i) (P.chunk j) := by
  refine Coverage.disjoint_Ico ?_
  rcases Nat.lt_or_gt_of_ne h with hlt | hlt
  · refine Or.inl ?_
    show P.offset i + (P.piece i).length ≤ P.offset j
    rw [← offset_succ hi]
    exact offset_mono hlt
  · refine Or.inr ?_
    show P.offset j + (P.piece j).length ≤ P.offset i
    rw [← offset_succ hj]
    exact offset_mono hlt

/-- The piece is what the dictionary has at its place. -/
theorem slice_dict {j : ℕ} (h : j < P.count) :
    slice P.dict (P.offset j) (P.piece j).length = P.piece j := by
  have hsplit : P.pieces = P.pieces.take j ++ (P.piece j :: P.pieces.drop (j + 1)) := by
    unfold piece
    rw [List.getD_eq_getElem _ _ h, ← List.drop_eq_getElem_cons h, List.take_append_drop]
  have hdict :
      P.dict = (P.pieces.take j).flatten ++ (P.piece j ++ (P.pieces.drop (j + 1)).flatten) := by
    conv_lhs => rw [dict, hsplit]
    rw [List.flatten_append, List.flatten_cons]
  rw [hdict]
  exact slice_middle rfl rfl

/-- The lengths of all chunks add up to that of the dictionary. -/
theorem sum_length_chunks : (P.chunks.map fun c => c.data.length).sum = P.dict.length := by
  have hpieces : (List.range P.count).map P.piece = P.pieces := by
    refine List.ext_getElem (by rw [List.length_map, List.length_range]; rfl) fun j hj hj' => ?_
    rw [List.getElem_map, List.getElem_range, piece, List.getD_eq_getElem _ _ hj']
  rw [dict, List.length_flatten, ← hpieces, chunks, List.map_map, List.map_map]
  rfl

end ConfigParts

/-- **An update that a receiver can take.** -/
structure ConfigUpdate {Identity Config : Type*} (R : ConfigReceiver Identity Config)
    extends ConfigParts where
  id_ne_zero : id ≠ 0
  length_sign : ∀ m, (sign m).length = eccSignatureLen
  piece_ne_nil : ∀ p ∈ pieces, p ≠ []
  length_piece : ∀ p ∈ pieces, p.length < 2 ^ 16
  count_le : toConfigParts.count ≤ R.maxUpdateChunks
  fits : toConfigParts.dict.length < R.capacity
  length_dict : toConfigParts.dict.length < 2 ^ 32
  /-- the dictionary is a string -/
  no_null : ∀ x ∈ toConfigParts.dict, x ≠ 0
  /-- "the signature, which is unique per chunk" -/
  chunkId_inj : ∀ i < toConfigParts.count, ∀ j < toConfigParts.count,
    toConfigParts.chunkId i = toConfigParts.chunkId j → i = j

instance : NeZero maxIncomingUpdates := ⟨by decide⟩

namespace ConfigReceiver

variable {Identity Config : Type*} {R : ConfigReceiver Identity Config}

/-! ### A chunk on its way -/

/-- The call is one with chunk `j`, behind whatever headers, on a node that knows the
controller. -/
structure Delivers (P : ConfigParts) (controller : Identity) (j : ℕ)
    (call : ConfigChunkCall Identity) : Prop where
  carries : ∃ headers, call.chunk = headers ++ P.payload j ∧ call.ptr = headers.length
  alive : call.destroyed = false
  knows : call.controllerIdentity = some controller

/-- The controller's signatures verify under its identity. -/
def Signs (R : ConfigReceiver Identity Config) (P : ConfigParts) (controller : Identity) : Prop :=
  ∀ m, R.verify controller m (P.sign m) = true

variable {U : ConfigUpdate R} {controller : Identity} {j : ℕ} {call : ConfigChunkCall Identity}

theorem length_piece_lt (h : j < U.count) : (U.piece j).length < 2 ^ 16 := by
  unfold ConfigParts.piece
  rw [List.getD_eq_getElem _ _ h]
  exact U.length_piece _ (List.getElem_mem h)

theorem length_piece_pos (h : j < U.count) : 0 < (U.piece j).length := by
  unfold ConfigParts.piece
  rw [List.getD_eq_getElem _ _ h]
  exact List.length_pos_iff.mpr (U.piece_ne_nil _ (List.getElem_mem h))

theorem offset_lt (h : j < U.count) : U.offset j < 2 ^ 32 :=
  lt_of_le_of_lt ((Nat.le_add_right _ _).trans (ConfigParts.offset_add_le h)) U.length_dict

/-- **What is read of a delivered chunk.** -/
theorem readSigned_payload (hw : 32 ≤ R.width) (h : j < U.count) (headers : Bytes) :
    R.readSigned (headers ++ U.payload j) headers.length (headers.length + 10 + (U.piece j).length)
      (U.piece j) = .ok (some (U.signedChunk j)) := by
  set n := (U.piece j).length with hn
  set b := headers ++ U.payload j with hb
  have hpay : b = headers ++ (beBytes 8 U.nwid.toNat ++ (beBytes 2 n ++ (U.piece j ++ ([0] ++
      (beBytes 8 U.id.toNat ++ (beBytes 4 U.dict.length ++ (beBytes 4 (U.offset j) ++ ([1] ++
        (beBytes 2 eccSignatureLen ++ (U.sign (U.message j) ++ [])))))))))) := by
    rw [hb, ConfigParts.payload, ConfigParts.message]
    simp only [List.append_assoc, List.append_nil, hn]
  -- each field stands where it is read
  have hflags : Buffer.byte b (headers.length + 10 + n) = .ok 0 :=
    Buffer.byte_at (a := headers ++ (beBytes 8 U.nwid.toNat ++ (beBytes 2 n ++ U.piece j)))
      (by rw [hpay]; simp only [List.append_assoc]; rfl) (by simp; omega)
  have hid : Buffer.uintAt 8 b (headers.length + 10 + n + 1) = .ok U.id.toNat :=
    Buffer.uintAt_at
      (a := headers ++ (beBytes 8 U.nwid.toNat ++ (beBytes 2 n ++ (U.piece j ++ [0]))))
      (by rw [hpay]; simp only [List.append_assoc]; rfl) (by simp; omega) U.id.isLt
  have htotal : Buffer.uintAt 4 b (headers.length + 10 + n + 9) = .ok U.dict.length :=
    Buffer.uintAt_at
      (a := headers ++ (beBytes 8 U.nwid.toNat ++ (beBytes 2 n ++ (U.piece j ++ ([0] ++
      beBytes 8 U.id.toNat))))) (by rw [hpay]; simp only [List.append_assoc]; rfl) (by simp; omega)
      U.length_dict
  have hindex : Buffer.uintAt 4 b (headers.length + 10 + n + 13) = .ok (U.offset j) :=
    Buffer.uintAt_at
      (a := headers ++ (beBytes 8 U.nwid.toNat ++ (beBytes 2 n ++ (U.piece j ++ ([0] ++
      (beBytes 8 U.id.toNat ++ beBytes 4 U.dict.length))))))
      (by rw [hpay]; simp only [List.append_assoc]; rfl) (by simp; omega) (offset_lt h)
  have hmessage : headers ++ U.message j = headers ++ (beBytes 8 U.nwid.toNat ++ (beBytes 2 n ++
      (U.piece j ++ ([0] ++ (beBytes 8 U.id.toNat ++ (beBytes 4 U.dict.length ++
        beBytes 4 (U.offset j))))))) := by
    rw [ConfigParts.message]
    simp only [List.append_assoc, hn]
  have hlength : (U.message j).length = 10 + n + 17 := by
    rw [ConfigParts.message]
    simp [hn]
    omega
  have hsigned : b = headers ++ (U.message j ++ ([1] ++ (beBytes 2 eccSignatureLen ++
      (U.sign (U.message j) ++ [])))) := by
    rw [hb, ConfigParts.payload]
    simp only [List.append_assoc, List.append_nil]
  have hsigType : Buffer.byte b (headers.length + 10 + n + 17) = .ok 1 :=
    Buffer.byte_at (a := headers ++ U.message j)
      (by rw [hsigned]; simp only [List.append_assoc]; rfl) (by rw [List.length_append]; omega)
  have hsigLen : Buffer.uintAt 2 b (headers.length + 10 + n + 17 + 1) = .ok eccSignatureLen :=
    Buffer.uintAt_at (a := headers ++ (U.message j ++ [1]))
      (by rw [hsigned]; simp only [List.append_assoc]; rfl) (by simp; omega) (by decide)
  have hsig : Buffer.field b (headers.length + 10 + n + 17 + 3) eccSignatureLen
      = .ok (U.sign (U.message j)) :=
    Buffer.field_at (a := headers ++ (U.message j ++ ([1] ++ beBytes 2 eccSignatureLen)))
      (by rw [hsigned]; simp only [List.append_assoc]; rfl) (by simp; omega) (U.length_sign _)
  have hmsg : Buffer.field b headers.length (headers.length + 10 + n + 17 - headers.length)
      = .ok (U.message j) :=
    Buffer.field_at hsigned rfl (by omega)
  -- and the chunk is inside the dictionary, which fits
  have hin := ConfigParts.offset_add_le h
  have hsum : (U.offset j + n) % 2 ^ R.width = U.offset j + n :=
    Nat.mod_eq_of_lt (lt_of_le_of_lt hin
      (lt_of_lt_of_le U.length_dict (Nat.pow_le_pow_right (by decide) hw)))
  have hcheck : ¬(U.dict.length < (U.offset j + n) % 2 ^ R.width ∨ R.capacity ≤ U.dict.length) := by
    have := U.fits
    rw [hsum]
    omega
  unfold readSigned
  refine Buffer.bind_ok.mpr ⟨_, hflags, Buffer.bind_ok.mpr ⟨_, hid, Buffer.bind_ok.mpr
    ⟨_, htotal, Buffer.bind_ok.mpr ⟨_, hindex, ?_⟩⟩⟩⟩
  rw [if_neg hcheck]
  refine Buffer.bind_ok.mpr ⟨_, hsigType, ?_⟩
  rw [if_neg (not_not.mpr rfl)]
  refine Buffer.bind_ok.mpr ⟨_, hsigLen, ?_⟩
  rw [if_neg (not_not.mpr rfl)]
  refine Buffer.bind_ok.mpr ⟨_, hsig, Buffer.bind_ok.mpr ⟨_, hmsg, ?_⟩⟩
  rw [BitVec.ofNat_toNat, BitVec.setWidth_eq]
  rfl

/-! ### The slot of an update -/

section Slots

variable {slots : Fin maxIncomingUpdates → IncomingConfigChunk} {updateId : BitVec 64}

/-- An update that has a slot gets it. -/
theorem updateSlot_existing {is : List (Fin maxIncomingUpdates)}
    {c : Option (Fin maxIncomingUpdates)}
    (h : ∃ i ∈ is, (slots i).updateId = updateId) :
    ∃ i, updateSlot slots updateId is c = some i ∧ (slots i).updateId = updateId := by
  -- on the slots still to be looked at, whatever is the oldest so far
  induction is generalizing c with
  | nil =>
      obtain ⟨i, hi, -⟩ := h
      cases hi
  | cons i is ih =>
      unfold updateSlot
      by_cases hi : (slots i).updateId = updateId
      · rw [if_pos hi]
        exact ⟨i, rfl, hi⟩
      · have hrest : ∃ k ∈ is, (slots k).updateId = updateId := by
          obtain ⟨k, hk, hid⟩ := h
          rcases List.mem_cons.mp hk with rfl | hk
          · exact absurd hid hi
          · exact ⟨k, hk, hid⟩
        rw [if_neg hi]
        rcases c with - | c
        · exact ih hrest
        · exact ih hrest

/-- An update that has none gets the one used least. -/
theorem updateSlot_new {is : List (Fin maxIncomingUpdates)} {c : Option (Fin maxIncomingUpdates)}
    (h : ∀ i ∈ is, (slots i).updateId ≠ updateId) :
    updateSlot slots updateId is c = oldestSlot slots is c := by
  induction is generalizing c with
  | nil => rfl
  | cons i is ih =>
      have hrest := fun k hk => h k (List.mem_cons_of_mem i hk)
      unfold updateSlot oldestSlot
      rw [if_neg (h i List.mem_cons_self)]
      rcases c with - | c
      · exact ih hrest
      · exact ih hrest

variable (slots) in
theorem oldestSlot_some (is : List (Fin maxIncomingUpdates)) (c : Fin maxIncomingUpdates) :
    ∃ i, oldestSlot slots is (some c) = some i := by
  induction is generalizing c with
  | nil => exact ⟨c, rfl⟩
  | cons i is ih => exact ih _

/-- The slot that the loop over all slots finds. -/
def victim (slots : Fin maxIncomingUpdates → IncomingConfigChunk) : Fin maxIncomingUpdates :=
  (oldestSlot slots (List.finRange _) none).getD 0

theorem oldestSlot_eq : oldestSlot slots (List.finRange _) none = some (victim slots) := by
  obtain ⟨i, hi⟩ := oldestSlot_some slots [1, 2] 0
  have hall : oldestSlot slots (List.finRange _) none = some i := hi
  rw [victim, hall]
  rfl

/-- **The slot of an update**: the one it has, or the victim. -/
theorem updateSlot_all (slots : Fin maxIncomingUpdates → IncomingConfigChunk)
    (updateId : BitVec 64) :
    ∃ i, updateSlot slots updateId (List.finRange _) none = some i ∧
      ((slots i).updateId = updateId ∨
        (∀ k, (slots k).updateId ≠ updateId) ∧ i = victim slots) := by
  by_cases h : ∃ i, (slots i).updateId = updateId
  · obtain ⟨i, hi⟩ := h
    obtain ⟨k, hk, hid⟩ := updateSlot_existing (c := none)
      (h := ⟨i, List.mem_finRange i, hi⟩)
    exact ⟨k, hk, Or.inl hid⟩
  · have hnew : ∀ k, (slots k).updateId ≠ updateId := fun k hk => h ⟨k, hk⟩
    exact ⟨victim slots, (updateSlot_new fun k _ => hnew k).trans oldestSlot_eq,
      Or.inr ⟨hnew, rfl⟩⟩

end Slots

/-- **What becomes of a delivered chunk**: it is a duplicate in the slot of its update, or it
is taken. -/
theorem accept_delivers {slots : Fin maxIncomingUpdates → IncomingConfigChunk}
    (hw : 32 ≤ R.width) (hs : R.Signs U.toConfigParts controller)
    (hd : Delivers U.toConfigParts controller j call) (h : j < U.count)
    {i : Fin maxIncomingUpdates}
    (hi : updateSlot slots U.id (List.finRange _) none = some i) :
    R.accept slots call = .ok
      (if (slots i).updateId = U.id ∧ U.chunkId j ∈ (slots i).haveChunkIds then none
        else some (i, U.chunk j, false)) := by
  obtain ⟨headers, hchunk, hptr⟩ := hd.carries
  set n := (U.piece j).length with hn
  have hpay :
      call.chunk = headers ++ (beBytes 8 U.nwid.toNat ++ (beBytes 2 n ++ (U.piece j ++ ([0] ++
      (beBytes 8 U.id.toNat ++ (beBytes 4 U.dict.length ++ (beBytes 4 (U.offset j) ++ ([1] ++
        (beBytes 2 eccSignatureLen ++ (U.sign (U.message j) ++ [])))))))))) := by
    rw [hchunk, ConfigParts.payload, ConfigParts.message]
    simp only [List.append_assoc, List.append_nil, hn]
  have hlen : Buffer.uintAt 2 call.chunk (call.ptr + 8) = .ok n :=
    Buffer.uintAt_at (a := headers ++ beBytes 8 U.nwid.toNat)
      (by rw [hpay]; simp only [List.append_assoc]; rfl) (by simp [hptr]) (length_piece_lt h)
  have hdata : Buffer.field call.chunk (call.ptr + 10) n = .ok (U.piece j) :=
    Buffer.field_at (a := headers ++ (beBytes 8 U.nwid.toNat ++ beBytes 2 n))
      (by rw [hpay]; simp only [List.append_assoc]; rfl) (by simp [hptr]) rfl
  have hmore : call.ptr + 10 + n < call.chunk.length := by
    rw [hpay, hptr]
    simp only [List.length_append, length_beBytes, List.length_singleton]
    omega
  have hread : R.readSigned call.chunk call.ptr (call.ptr + 10 + n) (U.piece j)
      = .ok (some (U.signedChunk j)) := by
    rw [hchunk, hptr]
    exact readSigned_payload hw h headers
  unfold accept
  rw [if_neg (by rw [hd.alive]; exact Bool.false_ne_true)]
  refine Buffer.bind_ok.mpr ⟨_, hlen, Buffer.bind_ok.mpr ⟨_, hdata, ?_⟩⟩
  simp only [if_pos hmore]
  refine Buffer.bind_ok.mpr ⟨_, hread, ?_⟩
  dsimp only
  rw [show (U.signedChunk j).updateId = U.id from rfl, hi]
  dsimp only
  by_cases hdup : (slots i).updateId = U.id ∧ U.chunkId j ∈ (slots i).haveChunkIds
  · rw [if_pos hdup]
    exact if_pos hdup
  · rw [if_neg hdup, if_neg (show ¬(_ ∧ (U.signedChunk j).chunkId ∈ _) from hdup), hd.knows]
    dsimp only
    exact if_pos (hs _)

/-! ### A slot that receives an update -/

/-- **The slot holds some chunks of the update**, each once. -/
structure Holds (U : ConfigUpdate R) (s : IncomingConfigChunk) (filed : Filed Identity) : Prop where
  inv : SlotInv R s filed
  updateId : s.updateId = U.id
  haveChunkIds : s.haveChunkIds = filed.map fun f => f.2.chunkId
  ofUpdate : ∀ f ∈ filed, f.2 ∈ U.chunks
  nodup : (filed.map Prod.snd).Nodup

/-- All chunks of the update are filed. -/
def AllFiled (U : ConfigUpdate R) (filed : Filed Identity) : Prop :=
  ∀ j < U.count, U.chunk j ∈ filed.map Prod.snd

variable {s : IncomingConfigChunk} {filed : Filed Identity}

theorem mem_chunks {c : ConfigChunk} : c ∈ U.chunks ↔ ∃ k < U.count, U.chunk k = c := by
  unfold ConfigParts.chunks
  simp only [List.mem_map, List.mem_range]

theorem chunk_inj {i j : ℕ} (hi : i < U.count) (hj : j < U.count) (h : U.chunk i = U.chunk j) :
    i = j :=
  U.chunkId_inj i hi j hj (congrArg ConfigChunk.chunkId h)

theorem nodup_chunks : U.chunks.Nodup :=
  List.nodup_range.map_on fun _ hi _ hj h => chunk_inj (List.mem_range.mp hi)
    (List.mem_range.mp hj) h

/-- What is not filed yet. -/
theorem Holds.rest (h : Holds U s filed) : ∃ rest, U.chunks.Perm (filed.map Prod.snd ++ rest) := by
  have hsub : filed.map Prod.snd ⊆ U.chunks := by
    intro c hc
    obtain ⟨f, hf, rfl⟩ := List.mem_map.mp hc
    exact h.ofUpdate f hf
  obtain ⟨l, hl, hsub⟩ := List.subperm_of_subset h.nodup hsub
  obtain ⟨rest, hrest⟩ := hsub.exists_perm_append
  exact ⟨rest, hrest.trans (hl.append_right rest)⟩

/-- **The count of bytes reaches the total exactly when all chunks are filed.** -/
theorem Holds.haveBytes (hw : 32 ≤ R.width) (h : Holds U s filed) :
    s.haveBytes = U.dict.length ↔ AllFiled U filed := by
  obtain ⟨rest, hperm⟩ := h.rest
  have hsum := (hperm.map fun c : ConfigChunk => c.data.length).sum_eq
  rw [ConfigParts.sum_length_chunks, List.map_append, List.sum_append, List.map_map] at hsum
  have hcount : s.haveBytes = (filed.map fun f => f.2.data.length).sum := by
    rw [h.inv.count]
    refine Nat.mod_eq_of_lt (lt_of_le_of_lt ?_ (lt_of_lt_of_le U.length_dict
      (Nat.pow_le_pow_right (by decide) hw)))
    rw [hsum]
    exact Nat.le_add_right _ _
  have hnodup : (filed.map Prod.snd ++ rest).Nodup := hperm.nodup_iff.mp nodup_chunks
  constructor
  · intro heq
    have hrest : (rest.map fun c : ConfigChunk => c.data.length).sum = 0 := by
      rw [heq] at hcount
      rw [hcount] at hsum
      exact Nat.left_eq_add.mp hsum
    -- no chunk is empty, so nothing is left
    have hnil : rest = [] := by
      refine List.eq_nil_iff_forall_not_mem.mpr fun c hc => ?_
      obtain ⟨k, hk, rfl⟩ := mem_chunks.mp (hperm.mem_iff.mpr (List.mem_append_right _ hc))
      have hpos : 0 < (U.chunk k).data.length := length_piece_pos hk
      have hle := List.single_le_sum (fun _ _ => Nat.zero_le _) _
        (List.mem_map_of_mem (f := fun c : ConfigChunk => c.data.length) hc)
      omega
    intro j hj
    have hmem := hperm.mem_iff.mp (mem_chunks.mpr ⟨j, hj, rfl⟩)
    rwa [hnil, List.append_nil] at hmem
  · intro hall
    have hnil : rest = [] := by
      refine List.eq_nil_iff_forall_not_mem.mpr fun c hc => ?_
      obtain ⟨k, hk, rfl⟩ := mem_chunks.mp (hperm.mem_iff.mpr (List.mem_append_right _ hc))
      exact List.disjoint_of_nodup_append hnodup (hall k hk) hc
    rw [hcount, hsum, hnil]
    rfl

/-- A chunk of the update is a duplicate exactly when it is filed. -/
theorem Holds.mem_ids (h : Holds U s filed) (hj : j < U.count) :
    U.chunkId j ∈ s.haveChunkIds ↔ U.chunk j ∈ filed.map Prod.snd := by
  rw [h.haveChunkIds, List.mem_map, List.mem_map]
  constructor
  · rintro ⟨f, hf, hid⟩
    obtain ⟨k, hk, hfk⟩ := mem_chunks.mp (h.ofUpdate f hf)
    have hkj : k = j := U.chunkId_inj k hk j hj (by rw [← hid, ← hfk]; rfl)
    exact ⟨f, hf, by rw [← hfk, hkj]⟩
  · rintro ⟨f, hf, hfj⟩
    exact ⟨f, hf, by rw [hfj]; rfl⟩

/-- A slot that lacks a chunk of the update has room for it. -/
theorem Holds.room (h : Holds U s filed) (hj : j < U.count)
    (hnew : U.chunk j ∉ filed.map Prod.snd) : s.haveChunkIds.length < R.maxUpdateChunks := by
  obtain ⟨rest, hperm⟩ := h.rest
  have hmem : U.chunk j ∈ rest :=
    (List.mem_append.mp (hperm.mem_iff.mp (mem_chunks.mpr ⟨j, hj, rfl⟩))).resolve_left hnew
  have hlen := hperm.length_eq
  rw [List.length_append, List.length_map, ConfigParts.chunks, List.length_map,
    List.length_range] at hlen
  have hpos := List.length_pos_of_mem hmem
  have hle := U.count_le
  rw [h.haveChunkIds, List.length_map]
  omega

/-- The slot may take the next chunk: it holds the update, or is to be emptied for it. -/
def Receives (U : ConfigUpdate R) (s : IncomingConfigChunk) (filed : Filed Identity) : Prop :=
  Holds U s filed ∨ s.updateId ≠ U.id ∧ s.data.length = R.capacity ∧ filed = []

theorem Receives.prepare (h : Receives U s filed) (j : ℕ) :
    Holds U (prepare s (U.chunk j)) filed := by
  unfold ConfigReceiver.prepare
  rcases h with h | ⟨hid, hsize, rfl⟩
  · rw [if_neg (show ¬s.updateId ≠ (U.chunk j).updateId from not_not.mpr h.updateId)]
    exact ⟨⟨h.inv.size, h.inv.count, h.inv.update, h.inv.checked, fun hs =>
      ⟨(h.inv.assembled hs).apart, (h.inv.assembled hs).total, (h.inv.assembled hs).inside,
        (h.inv.assembled hs).content⟩⟩, h.updateId, h.haveChunkIds, h.ofUpdate, h.nodup⟩
  · rw [if_pos (show s.updateId ≠ (U.chunk j).updateId from hid)]
    refine ⟨⟨hsize, (Nat.zero_mod _).symm, ?_, ?_, fun _ => ⟨List.Pairwise.nil, ?_, ?_, ?_⟩⟩,
      rfl, rfl, ?_, List.nodup_nil⟩
    all_goals
      intro f hf
      exact absurd hf List.not_mem_nil

/-- One more chunk. -/
theorem Holds.add (hw : 32 ≤ R.width) (h : Holds U s filed) (hj : j < U.count)
    (hc : Checked R call (U.chunk j)) (hnew : U.chunk j ∉ filed.map Prod.snd) :
    Holds U (s.add R.width (U.chunk j)) (filed ++ [(call, U.chunk j)]) := by
  have hsum : U.offset j + (U.piece j).length < 2 ^ R.width :=
    lt_of_le_of_lt (ConfigParts.offset_add_le hj)
      (lt_of_lt_of_le U.length_dict (Nat.pow_le_pow_right (by decide) hw))
  refine ⟨h.inv.add h.updateId hc (fun _ => hsum) fun _ f hf => ?_, h.updateId, ?_, ?_, ?_⟩
  · obtain ⟨k, hk, hfk⟩ := mem_chunks.mp (h.ofUpdate f hf)
    have hkj : k ≠ j := by
      rintro rfl
      exact hnew (List.mem_map.mpr ⟨f, hf, hfk.symm⟩)
    rw [← hfk]
    exact ⟨rfl, rfl, ConfigParts.apart hk hj hkj⟩
  · show s.haveChunkIds ++ [U.chunkId j] = _
    rw [h.haveChunkIds, List.map_append]
    rfl
  · intro f hf
    rcases List.mem_append.mp hf with hf | hf
    · exact h.ofUpdate f hf
    · obtain rfl := List.mem_singleton.mp hf
      exact mem_chunks.mpr ⟨j, hj, rfl⟩
  · rw [List.map_append, List.nodup_append]
    refine ⟨h.nodup, List.nodup_singleton _, fun c hc c' hc' => ?_⟩
    obtain rfl := List.mem_singleton.mp hc'
    rintro rfl
    exact hnew hc

/-- The null after the last byte. -/
theorem Holds.terminate (h : Holds U s filed) (hne : filed ≠ []) :
    Holds U (s.copy U.dict.length [0]) filed := by
  obtain ⟨f, hf⟩ := List.exists_mem_of_ne_nil filed hne
  obtain ⟨k, -, hfk⟩ := mem_chunks.mp (h.ofUpdate f hf)
  have htotal : f.2.totalLength = U.dict.length := by rw [← hfk]; rfl
  have hinv := h.inv.terminate hf
  rw [htotal] at hinv
  exact ⟨hinv, h.updateId, h.haveChunkIds, h.ofUpdate, h.nodup⟩

/-- The string in a buffer. -/
def cString (data : Bytes) : Bytes := data.takeWhile (· ≠ 0)

theorem cString_append_null {v w : Bytes} (hv : ∀ x ∈ v, x ≠ 0) : cString (v ++ (0 :: w)) = v := by
  unfold cString
  rw [List.takeWhile_append_of_pos (by simpa using hv)]
  simp

/-- **A slot with all chunks and a null after them holds the dictionary.** -/
theorem Holds.cString_data (hw : 32 ≤ R.width) (h : Holds U s filed) (hne : filed ≠ [])
    (hall : AllFiled U filed) (hnull : byteAt s.data U.dict.length = 0) :
    cString s.data = U.dict := by
  have hcount := (h.haveBytes hw).mpr hall
  have hsigned : ∀ g ∈ filed, g.2.signed = true := by
    intro g hg
    obtain ⟨k, -, hgk⟩ := mem_chunks.mp (h.ofUpdate g hg)
    rw [← hgk]
    rfl
  obtain ⟨f, hf⟩ := List.exists_mem_of_ne_nil filed hne
  obtain ⟨k₀, -, hfk⟩ := mem_chunks.mp (h.ofUpdate f hf)
  have htotal : f.2.totalLength = U.dict.length := by rw [← hfk]; rfl
  have hbytes : ∀ k < U.dict.length, byteAt s.data k = byteAt U.dict k := by
    intro k hk
    obtain ⟨g, hg, -, -, -, hlo, hhi, hbyte⟩ :=
      h.inv.covered hw hf hsigned (hcount.trans htotal.symm) (htotal.symm ▸ hk)
    obtain ⟨i, hi, hgi⟩ := mem_chunks.mp (h.ofUpdate g hg)
    rw [← hgi] at hlo hhi hbyte
    have hlo' : U.offset i ≤ k := hlo
    have hhi' : k < U.offset i + (U.piece i).length := hhi
    have hpiece : byteAt (U.piece i) (k - U.offset i) = byteAt U.dict k := by
      conv_lhs => rw [← ConfigParts.slice_dict hi]
      rw [byteAt_slice _ (by omega)]
      congr 1
      omega
    exact hbyte.trans hpiece
  have hlt : U.dict.length < s.data.length := by
    rw [h.inv.size]
    exact U.fits
  have htake : s.data.take U.dict.length = U.dict := by
    refine List.ext_getElem (by rw [List.length_take]; omega) fun k hk hk' => ?_
    have := hbytes k hk'
    rw [byteAt, byteAt, List.getD_eq_getElem _ _ (by omega), List.getD_eq_getElem _ _ hk'] at this
    rw [List.getElem_take, this]
  have hdata : s.data = U.dict ++ (0 :: s.data.drop (U.dict.length + 1)) := by
    rw [byteAt, List.getD_eq_getElem _ _ hlt] at hnull
    rw [← hnull, ← List.drop_eq_getElem_cons hlt]
    conv_lhs => rw [← List.take_append_drop U.dict.length s.data, htake]
  rw [hdata]
  exact cString_append_null U.no_null

/-! ### One chunk -/

/-- The buffers that are parsed, each with the update it was completed for. -/
def parses (effects : List (ConfigEffect Config)) : List (BitVec 64 × Bytes) :=
  effects.filterMap fun
    | .parse _ c data => some (c.updateId, data)
    | _ => none

variable {slots : Fin maxIncomingUpdates → IncomingConfigChunk} {i : Fin maxIncomingUpdates}

/-- A duplicate changes nothing. -/
theorem handle_duplicate (hw : 32 ≤ R.width) (hs : R.Signs U.toConfigParts controller)
    (hd : Delivers U.toConfigParts controller j call) (hj : j < U.count)
    (hi : updateSlot slots U.id (List.finRange _) none = some i) (h : Holds U (slots i) filed)
    (hdup : U.chunk j ∈ filed.map Prod.snd) :
    R.handleConfigChunk slots call = .ok (slots, [], 0) := by
  unfold handleConfigChunk
  rw [accept_delivers hw hs hd hj hi, if_pos ⟨h.updateId, (h.mem_ids hj).mpr hdup⟩]
  rfl

/-- **A chunk that is not filed yet is filed**, and the last one completes the update. -/
theorem handle_new (hw : 32 ≤ R.width) (hs : R.Signs U.toConfigParts controller)
    (hd : Delivers U.toConfigParts controller j call) (hj : j < U.count)
    (hi : updateSlot slots U.id (List.finRange _) none = some i)
    (h : Receives U (slots i) filed) (hnew : U.chunk j ∉ filed.map Prod.snd) :
    ∃ t effects id, R.handleConfigChunk slots call = .ok (Function.update slots i t, effects, id) ∧
      Holds U t (filed ++ [(call, U.chunk j)]) ∧
      (¬AllFiled U (filed ++ [(call, U.chunk j)]) → parses effects = [] ∧ id = 0) ∧
      (AllFiled U (filed ++ [(call, U.chunk j)]) →
        ∃ data, cString data = U.dict ∧ parses effects = [(U.id, data)] ∧
          ((R.fromDictionary data).isSome → id = U.id)) := by
  have hnotdup : ¬((slots i).updateId = U.id ∧ U.chunkId j ∈ (slots i).haveChunkIds) := by
    rintro ⟨hid, hmem⟩
    rcases h with h | ⟨hne, -, -⟩
    · exact hnew ((h.mem_ids hj).mp hmem)
    · exact hne hid
  have haccept : R.accept slots call = .ok (some (i, U.chunk j, false)) := by
    rw [accept_delivers hw hs hd hj hi, if_neg hnotdup]
  -- the slot is made ready for the update, and has room for the chunk
  have hprep := h.prepare j
  have hadd := hprep.add hw hj (accept_checked haccept) hnew
  have hroom : ¬R.maxUpdateChunks ≤ (prepare (slots i) (U.chunk j)).haveChunkIds.length :=
    not_le.mpr (hprep.room hj hnew)
  have hhandle : R.handleConfigChunk slots call = .ok (R.file slots i (U.chunk j)) := by
    unfold handleConfigChunk
    rw [haccept]
    rfl
  have hne : filed ++ [(call, U.chunk j)] ≠ [] := by simp
  rw [hhandle]
  unfold file
  dsimp only
  rw [if_neg hroom]
  set t := (prepare (slots i) (U.chunk j)).add R.width (U.chunk j) with ht
  by_cases hall : AllFiled U (filed ++ [(call, U.chunk j)])
  · have hcount : t.haveBytes = U.dict.length := (hadd.haveBytes hw).mpr hall
    have hterm := hadd.terminate hne
    have hlt : U.dict.length < t.data.length := by
      rw [hadd.inv.size]
      exact U.fits
    -- the null byte behind the dictionary is within the buffer
    have hnull : byteAt (t.copy U.dict.length [0]).data U.dict.length = 0 := by
      have hfits : U.dict.length + ([0] : Bytes).length ≤ t.data.length := hlt
      rw [copy_of_fits hfits]
      exact byteAt_setByte_same hlt
    have hdata := hterm.cString_data hw hne hall hnull
    rw [if_pos (show t.haveBytes = (U.chunk j).totalLength from hcount), hcount]
    rcases hparse : R.fromDictionary (t.copy U.dict.length [0]).data with - | config
    · exact ⟨_, _, _, rfl, hterm, fun hn => absurd hall hn, fun _ =>
        ⟨_, hdata, rfl, fun hsome => by rw [hparse] at hsome; cases hsome⟩⟩
    · exact ⟨_, _, _, rfl, hterm, fun hn => absurd hall hn, fun _ => ⟨_, hdata, rfl, fun _ => rfl⟩⟩
  · have hcount : t.haveBytes ≠ U.dict.length := fun hc => hall ((hadd.haveBytes hw).mp hc)
    rw [if_neg (show ¬t.haveBytes = (U.chunk j).totalLength from hcount)]
    exact ⟨_, _, _, rfl, hadd, fun _ => ⟨rfl, rfl⟩, fun ha => absurd ha hall⟩

end ConfigReceiver

end ZGalaxy
