/-
ZGalaxy/ConfigChunks.lean

Receiving a network configuration in chunks.

`handleConfigChunk` files the chunks of an update in one of three slots and parses
the configuration when the bytes it counted reach the length that the last chunk
names.  A chunk is signed by the network's controller and may come from anyone, or
is a whole unsigned configuration and must come from the controller itself.  The
members it is passed on to and the controller's identity, as far as the node knows
them, are part of the call; the signature scheme, the parser of configurations, the
width of `unsigned long` and the size of the dictionary's buffer are parameters.

The claim of the buffer to the parser is that every byte below the total was written
by a signed chunk of the same update and total.  It rests on a count of bytes and a
bound checked in `unsigned long`, so it holds as long as the chunks that share a slot
agree on the total and do not overlap, and chunk index and length have a sum
(`Sound`).  What was filed is recorded beside the slots, which changes no run (`tracked_run`).

Main result: `intact_of_sound`, over all runs of such calls.
-/
import ZGalaxy.Buffer
import ZGalaxy.Coverage
import ZGalaxy.Machine
import Mathlib.Logic.Function.Basic

namespace ZGalaxy

open ByteList

/-! ### The slots -/

/-- `ZT_NETWORK_MAX_INCOMING_UPDATES`. -/
def maxIncomingUpdates : ℕ := 3

/-- `Network::_IncomingConfigChunk`. -/
structure IncomingConfigChunk where
  /-- newer is higher -/
  ts : BitVec 64
  updateId : BitVec 64
  /-- the first `haveChunks` of them -/
  haveChunkIds : List (BitVec 64)
  haveBytes : ℕ
  data : Bytes

/-- A chunk, as far as filing it goes. -/
structure ConfigChunk where
  data : Bytes
  updateId : BitVec 64
  totalLength : ℕ
  chunkIndex : ℕ
  chunkId : BitVec 64
  signed : Bool
  deriving DecidableEq

/-- What a signed chunk also says. -/
structure SignedChunk extends ConfigChunk where
  fastPropagate : Bool
  /-- what the signature covers -/
  message : Bytes
  sig : Bytes

/-- What the slots are filed with. -/
structure ConfigReceiver (Identity Config : Type*) where
  /-- the bits of `unsigned long` -/
  width : ℕ
  /-- `ZT_NETWORKCONFIG_DICT_CAPACITY` -/
  capacity : ℕ
  controller : Address
  /-- `Identity::verify` -/
  verify : Identity → Bytes → Bytes → Bool
  /-- `NetworkConfig::fromDictionary` -/
  fromDictionary : Bytes → Option Config

/-- A call of `handleConfigChunk`, with what the node knows at the time. -/
structure ConfigChunkCall (Identity : Type*) where
  packetId : BitVec 64
  source : Address
  chunk : Bytes
  ptr : ℕ
  destroyed : Bool
  /-- the controller's identity, if it is known -/
  controllerIdentity : Option Identity
  /-- the addresses in `_memberships` -/
  members : List Address

/-- What a call does outside the slots, and to their buffers. -/
inductive ConfigEffect (Config : Type*)
  /-- the chunk is passed on -/
  | send (member : Address) (payload : Bytes)
  /-- bytes are written into a slot's buffer -/
  | write (i : Fin maxIncomingUpdates) (offset : ℕ) (bytes : Bytes)
  /-- a slot's buffer is parsed after `c` completed it -/
  | parse (i : Fin maxIncomingUpdates) (c : ConfigChunk) (data : Bytes)
  | setConfiguration (config : Config)

/-- The slots of a network just created. -/
def initialSlots (capacity : ℕ) : Fin maxIncomingUpdates → IncomingConfigChunk :=
  fun _ => ⟨0, 0, [], 0, List.replicate capacity 0⟩

namespace IncomingConfigChunk

variable (s : IncomingConfigChunk)

/-- The slot used once more. -/
def touch : IncomingConfigChunk := { s with ts := s.ts + 1 }

/-- The slot emptied for another update. -/
def reset (updateId : BitVec 64) : IncomingConfigChunk :=
  { s with updateId := updateId, haveChunkIds := [], haveBytes := 0 }

/-- Bytes copied into the buffer.  What bytes beyond its end hit is not part of the
slot. -/
def copy (offset : ℕ) (bytes : Bytes) : IncomingConfigChunk :=
  { s with
    data := if offset + bytes.length ≤ s.data.length then splice s.data offset bytes else s.data }

/-- The slot with one more chunk, counted in `width` bits. -/
def add (width : ℕ) (c : ConfigChunk) : IncomingConfigChunk :=
  { s.copy c.chunkIndex c.data with
    haveChunkIds := s.haveChunkIds ++ [c.chunkId]
    haveBytes := (s.haveBytes + c.data.length) % 2 ^ width }

end IncomingConfigChunk

/-! ### Finding a slot -/

section Slots

variable (slots : Fin maxIncomingUpdates → IncomingConfigChunk)

/-- The loop over the slots of a list that keeps the one used least. -/
def oldestSlot : List (Fin maxIncomingUpdates) → Option (Fin maxIncomingUpdates) →
    Option (Fin maxIncomingUpdates)
  | [], c => c
  | i :: is, none => oldestSlot is (some i)
  | i :: is, some c => oldestSlot is (some (if (slots i).ts < (slots c).ts then i else c))

/-- Existing or new slot for an update. -/
def updateSlot (updateId : BitVec 64) : List (Fin maxIncomingUpdates) →
    Option (Fin maxIncomingUpdates) → Option (Fin maxIncomingUpdates)
  | [], c => c
  | i :: is, c =>
      if (slots i).updateId = updateId then
        some i
      else
        match c with
        | none => updateSlot updateId is (some i)
        | some c => updateSlot updateId is (some (if (slots i).ts < (slots c).ts then i else c))

end Slots

namespace ConfigReceiver

variable {Identity Config : Type*} (R : ConfigReceiver Identity Config)

/-- `ZT_NETWORK_MAX_UPDATE_CHUNKS`. -/
def maxUpdateChunks : ℕ := R.capacity / 1024 + 1

/-! ### Handling a chunk -/

/-- The id of a chunk: its signature's first bytes. -/
def chunkIdOf (sig : Bytes) : BitVec 64 :=
  BitVec.ofNat 64 (beNat ((List.range 8).reverse.map fun j => byteAt sig j ^^^ byteAt sig (j + 8)))

/-- Read the rest of a signed chunk, from position `ptr`; none if it does not fit.
`start` is where the chunk started and `data` what it holds. -/
def readSigned (chunk : Bytes) (start ptr : ℕ) (data : Bytes) :
    Except ZTException (Option SignedChunk) := do
  let flags ← Buffer.byte chunk ptr
  let updateId ← Buffer.uintAt 8 chunk (ptr + 1)
  let totalLength ← Buffer.uintAt 4 chunk (ptr + 9)
  let chunkIndex ← Buffer.uintAt 4 chunk (ptr + 13)
  let ptr := ptr + 17
  if totalLength < (chunkIndex + data.length) % 2 ^ R.width ∨ R.capacity ≤ totalLength then
    -- >= since we need room for a null at the end
    return none
  let sigType ← Buffer.byte chunk ptr
  if sigType ≠ 1 then
    return none
  let sigLen ← Buffer.uintAt 2 chunk (ptr + 1)
  if sigLen ≠ eccSignatureLen then
    return none
  let sig ← Buffer.field chunk (ptr + 3) eccSignatureLen
  let message ← Buffer.field chunk start (ptr - start)
  return some {
    data := data, updateId := BitVec.ofNat 64 updateId, totalLength := totalLength,
    chunkIndex := chunkIndex, chunkId := chunkIdOf sig, signed := true,
    fastPropagate := (flags &&& 0x01) != 0, message := message, sig := sig }

/-- The members a verified chunk is passed on to. -/
def propagate (call : ConfigChunkCall Identity) : List (ConfigEffect Config) :=
  (call.members.filter fun a => a ≠ call.source ∧ a ≠ R.controller).map fun a =>
    .send a (call.chunk.drop call.ptr)

/-- What `handleConfigChunk` does before it files the chunk: the slot, the chunk and
whether to pass it on, or none if it is not taken. -/
def accept (slots : Fin maxIncomingUpdates → IncomingConfigChunk)
    (call : ConfigChunkCall Identity) :
    Except ZTException (Option (Fin maxIncomingUpdates × ConfigChunk × Bool)) := do
  if call.destroyed then
    return none
  -- skip network ID, which is already obviously known
  let chunkLen ← Buffer.uintAt 2 call.chunk (call.ptr + 8)
  let data ← Buffer.field call.chunk (call.ptr + 10) chunkLen
  let ptr := call.ptr + 10 + chunkLen
  if ptr < call.chunk.length then
    match ← R.readSigned call.chunk call.ptr ptr data with
    | none => return none
    | some c =>
        match updateSlot slots c.updateId (List.finRange _) none with
        | none => return none
        | some i =>
            if (slots i).updateId = c.updateId ∧ c.chunkId ∈ (slots i).haveChunkIds then
              -- a duplicate chunk
              return none
            match call.controllerIdentity with
            | none => return none
            | some identity =>
                if R.verify identity c.message c.sig then
                  -- new properly verified chunks can be flooded "virally" through the network
                  return some (i, c.toConfigChunk, c.fastPropagate)
                else
                  return none
  else if call.source = R.controller ∨ call.source.isSet = false then
    -- Legacy support for OK(NETWORK_CONFIG_REQUEST) from older controllers
    if R.capacity ≤ chunkLen then
      return none
    match oldestSlot slots (List.finRange _) none with
    | none => return none
    | some i =>
        return some (i, {
          data := data, updateId := call.packetId, totalLength := chunkLen, chunkIndex := 0,
          chunkId := call.packetId, signed := false }, false)
  else
    -- Single-chunk unsigned legacy configs are only allowed from the controller itself
    return none

/-- The slot ready for a chunk: emptied unless it is for the same update. -/
def prepare (s : IncomingConfigChunk) (c : ConfigChunk) : IncomingConfigChunk :=
  if s.updateId ≠ c.updateId then s.touch.reset c.updateId else s.touch

/-- What `handleConfigChunk` does with a chunk it takes. -/
def file (slots : Fin maxIncomingUpdates → IncomingConfigChunk) (i : Fin maxIncomingUpdates)
    (c : ConfigChunk) :
    (Fin maxIncomingUpdates → IncomingConfigChunk) × List (ConfigEffect Config) × BitVec 64 :=
  let s := prepare (slots i) c
  if R.maxUpdateChunks ≤ s.haveChunkIds.length then
    (Function.update slots i s, [], 0)
  else
    let s := s.add R.width c
    let written := [ConfigEffect.write i c.chunkIndex c.data]
    if s.haveBytes = c.totalLength then
      -- ensure null terminated
      let written := written ++ [.write i s.haveBytes [0]]
      let s := s.copy s.haveBytes [0]
      let effects := written ++ [.parse i c s.data]
      match R.fromDictionary s.data with
      | some config =>
          (Function.update slots i s, effects ++ [.setConfiguration config], c.updateId)
      | none => (Function.update slots i s, effects, 0)
    else
      (Function.update slots i s, written, 0)

/-- `Network::handleConfigChunk`: the slots afterwards, what it did and what it
returns. -/
def handleConfigChunk (slots : Fin maxIncomingUpdates → IncomingConfigChunk)
    (call : ConfigChunkCall Identity) :
    Except ZTException
      ((Fin maxIncomingUpdates → IncomingConfigChunk) × List (ConfigEffect Config) × BitVec 64) :=
  (R.accept slots call).map fun
    | none => (slots, [], 0)
    | some (i, c, flood) =>
        let (slots, effects, id) := R.file slots i c
        (slots, (if flood then R.propagate call else []) ++ effects, id)

/-! ### What is accepted -/

section Admit

variable {R} {slots : Fin maxIncomingUpdates → IncomingConfigChunk}
  {call : ConfigChunkCall Identity} {i : Fin maxIncomingUpdates} {c : ConfigChunk} {flood : Bool}

variable (R) in
/-- The chunk is one that the call carried and that verified under the controller's
identity. -/
def Verified (call : ConfigChunkCall Identity) (c : ConfigChunk) : Prop :=
  ∃ ptr data identity, ∃ S : SignedChunk,
    R.readSigned call.chunk call.ptr ptr data = .ok (some S) ∧ S.toConfigChunk = c ∧
      call.controllerIdentity = some identity ∧ R.verify identity S.message S.sig = true

/-- What the checks of a chunk guarantee. -/
structure Checked (R : ConfigReceiver Identity Config) (call : ConfigChunkCall Identity)
    (c : ConfigChunk) : Prop where
  fits : c.totalLength < R.capacity
  verified : c.signed = true → R.Verified call c
  bound : c.signed = true → (c.chunkIndex + c.data.length) % 2 ^ R.width ≤ c.totalLength
  total : c.totalLength < 2 ^ 32
  whole : c.signed = false → c.chunkIndex = 0 ∧ c.data.length = c.totalLength

theorem readSigned_spec {chunk : Bytes} {start ptr : ℕ} {data : Bytes} {S : SignedChunk}
    (h : R.readSigned chunk start ptr data = .ok (some S)) :
    S.signed = true ∧ S.totalLength < R.capacity ∧ S.totalLength < 2 ^ 32 ∧
      (S.chunkIndex + S.data.length) % 2 ^ R.width ≤ S.totalLength := by
  unfold readSigned at h
  obtain ⟨flags, -, h⟩ := Buffer.bind_ok.mp h
  obtain ⟨updateId, -, h⟩ := Buffer.bind_ok.mp h
  obtain ⟨totalLength, htotal, h⟩ := Buffer.bind_ok.mp h
  obtain ⟨chunkIndex, -, h⟩ := Buffer.bind_ok.mp h
  have hlt := Buffer.uintAt_lt htotal
  by_cases hbound : totalLength < (chunkIndex + data.length) % 2 ^ R.width ∨
      R.capacity ≤ totalLength
  · rw [if_pos hbound] at h
    cases h
  rw [if_neg hbound] at h
  obtain ⟨sigType, -, h⟩ := Buffer.bind_ok.mp h
  by_cases htype : sigType ≠ 1
  · rw [if_pos htype] at h
    cases h
  rw [if_neg htype] at h
  obtain ⟨sigLen, -, h⟩ := Buffer.bind_ok.mp h
  by_cases hlen : sigLen ≠ eccSignatureLen
  · rw [if_pos hlen] at h
    cases h
  rw [if_neg hlen] at h
  obtain ⟨sig, -, h⟩ := Buffer.bind_ok.mp h
  obtain ⟨message, -, h⟩ := Buffer.bind_ok.mp h
  cases h
  obtain ⟨h₁, h₂⟩ := not_or.mp hbound
  exact ⟨rfl, not_le.mp h₂, hlt, not_lt.mp h₁⟩

/-- **What `accept` lets through** has been checked. -/
theorem accept_checked (h : R.accept slots call = .ok (some (i, c, flood))) : Checked R call c := by
  unfold accept at h
  by_cases hdestroyed : call.destroyed = true
  · rw [if_pos hdestroyed] at h
    cases h
  rw [if_neg hdestroyed] at h
  obtain ⟨chunkLen, hlen, h⟩ := Buffer.bind_ok.mp h
  obtain ⟨data, hdata, h⟩ := Buffer.bind_ok.mp h
  by_cases hrest : call.ptr + 10 + chunkLen < call.chunk.length
  · -- a signed chunk
    simp only [if_pos hrest] at h
    obtain ⟨S, hS, h⟩ := Buffer.bind_ok.mp h
    rcases S with - | S
    · cases h
    obtain ⟨hsigned, hfits, htotal, hbound⟩ := readSigned_spec hS
    dsimp only at h
    split at h
    · cases h
    split at h
    · cases h
    split at h
    · cases h
    next identity hidentity =>
      split at h
      · next hverify =>
          cases h
          exact ⟨hfits, fun _ => ⟨_, _, _, S, hS, rfl, hidentity, hverify⟩, fun _ => hbound, htotal,
            fun hf => absurd (hsigned.symm.trans hf) (by decide)⟩
      · cases h
  · -- a whole configuration from the controller
    simp only [if_neg hrest] at h
    split at h
    · split at h
      · cases h
      next hcap =>
        split at h
        · cases h
        cases h
        refine ⟨not_le.mp hcap, fun hf => absurd hf Bool.false_ne_true,
          fun hf => absurd hf Bool.false_ne_true, ?_, fun _ => ⟨rfl, Buffer.length_field hdata⟩⟩
        exact lt_trans (Buffer.uintAt_lt hlen) (by decide)
    · cases h

end Admit

/-! ### Runs -/

/-- The slots of a network under calls of `handleConfigChunk`; a call that throws
changes nothing. -/
def machine : Machine (Fin maxIncomingUpdates → IncomingConfigChunk) (ConfigChunkCall Identity)
    (ConfigEffect Config) where
  step slots call :=
    match R.handleConfigChunk slots call with
    | .error _ => (slots, [])
    | .ok (slots, effects, _) => (slots, effects)

/-- The chunks filed in a slot, each with its call. -/
abbrev Filed (Identity : Type*) := List (ConfigChunkCall Identity × ConfigChunk)

/-- The slot has room for the chunk, or will have it when it is emptied for it. -/
def Takes (s : IncomingConfigChunk) (c : ConfigChunk) : Prop :=
  s.updateId = c.updateId → s.haveChunkIds.length < R.maxUpdateChunks

instance (s : IncomingConfigChunk) (c : ConfigChunk) : Decidable (R.Takes s c) := by
  unfold Takes
  infer_instance

/-- What is in the slot when the chunk is filed: nothing if it is for another
update. -/
def sinceReset (s : IncomingConfigChunk) (c : ConfigChunk) (filed : Filed Identity) :
    Filed Identity :=
  if s.updateId ≠ c.updateId then [] else filed

/-- The chunks filed in each slot since it was last emptied. -/
def record (filed : Fin maxIncomingUpdates → Filed Identity)
    (slots : Fin maxIncomingUpdates → IncomingConfigChunk) (call : ConfigChunkCall Identity) :
    Fin maxIncomingUpdates → Filed Identity :=
  match R.accept slots call with
  | .ok (some (i, c, _)) =>
      if R.Takes (slots i) c then
        Function.update filed i (sinceReset (slots i) c (filed i) ++ [(call, c)])
      else
        filed
  | _ => filed

/-- The slots together with what was filed in them. -/
def tracked : Machine ((Fin maxIncomingUpdates → IncomingConfigChunk) ×
    (Fin maxIncomingUpdates → Filed Identity)) (ConfigChunkCall Identity) (ConfigEffect Config) :=
  R.machine.withHistory R.record

/-- The slots of a network just created, with nothing filed. -/
def initial : (Fin maxIncomingUpdates → IncomingConfigChunk) ×
    (Fin maxIncomingUpdates → Filed Identity) :=
  (initialSlots R.capacity, fun _ => [])

/-- What is filed is recorded beside the slots and changes nothing. -/
theorem tracked_run (calls : List (ConfigChunkCall Identity)) :
    (R.tracked.runState R.initial calls).1 = R.machine.runState (initialSlots R.capacity) calls ∧
      R.tracked.runOutputs R.initial calls
        = R.machine.runOutputs (initialSlots R.capacity) calls :=
  ⟨Machine.withHistory_runState_fst _ _ _, Machine.withHistory_runOutputs _ _ _⟩

/-! ### What the parser may rely on -/

/-- The byte `k` of the buffer is one that a signed chunk among those filed holds,
of the same update and total as `c`. -/
def Covered (filed : Filed Identity) (c : ConfigChunk) (data : Bytes) (k : ℕ) : Prop :=
  ∃ f ∈ filed, R.Verified f.1 f.2 ∧ f.2.updateId = c.updateId ∧ f.2.totalLength = c.totalLength ∧
    f.2.chunkIndex ≤ k ∧ k < f.2.chunkIndex + f.2.data.length ∧
    byteAt data k = byteAt f.2.data (k - f.2.chunkIndex)

/-- What is written stays in the buffer, and what is parsed after a signed chunk
completed it is covered by signed chunks. -/
def StepIntact (s : (Fin maxIncomingUpdates → IncomingConfigChunk) ×
    (Fin maxIncomingUpdates → Filed Identity)) (call : ConfigChunkCall Identity) : Prop :=
  ∀ o ∈ (R.tracked.step s call).2, match o with
    | .write _ offset bytes => offset + bytes.length ≤ R.capacity
    | .parse i c data => c.signed = true →
        ∀ k < c.totalLength, R.Covered ((R.tracked.step s call).1.2 i) c data k
    | _ => True

/-- Every step of the calls on a network just created is such. -/
def Intact (calls : List (ConfigChunkCall Identity)) : Prop :=
  R.tracked.Guarded R.StepIntact R.initial calls

/-- The bytes of the dictionary that a chunk holds. -/
def extent (c : ConfigChunk) : Finset ℕ := Finset.Ico c.chunkIndex (c.chunkIndex + c.data.length)

/-- Two chunks that do not overlap. -/
def Apart (c d : ConfigChunk) : Prop := Disjoint (extent c) (extent d)

/-- A signed chunk that is filed has its index and length add up, and those filed
before it are signed, name the same total and do not overlap it. -/
def Sound (s : (Fin maxIncomingUpdates → IncomingConfigChunk) ×
    (Fin maxIncomingUpdates → Filed Identity)) (call : ConfigChunkCall Identity) : Prop :=
  ∀ i c flood, R.accept s.1 call = .ok (some (i, c, flood)) → c.signed = true →
    R.Takes (s.1 i) c →
      c.chunkIndex + c.data.length < 2 ^ R.width ∧
        ∀ f ∈ sinceReset (s.1 i) c (s.2 i),
          f.2.signed = true ∧ f.2.totalLength = c.totalLength ∧ Apart f.2 c

/-! ### The invariant -/

/-- The chunks filed in a slot, when all are signed, are apart, agree on the total
and are in the buffer. -/
structure Assembled (s : IncomingConfigChunk) (filed : Filed Identity) : Prop where
  apart : filed.Pairwise fun f g => Apart f.2 g.2
  total : ∀ f ∈ filed, ∀ g ∈ filed, f.2.totalLength = g.2.totalLength
  inside : ∀ f ∈ filed, f.2.chunkIndex + f.2.data.length ≤ f.2.totalLength
  content : ∀ f ∈ filed, slice s.data f.2.chunkIndex f.2.data.length = f.2.data

/-- What a slot counts and holds. -/
structure SlotInv (s : IncomingConfigChunk) (filed : Filed Identity) : Prop where
  size : s.data.length = R.capacity
  count : s.haveBytes = (filed.map fun f => f.2.data.length).sum % 2 ^ R.width
  update : ∀ f ∈ filed, f.2.updateId = s.updateId
  checked : ∀ f ∈ filed, Checked R f.1 f.2
  assembled : (∀ f ∈ filed, f.2.signed = true) → Assembled s filed

section Invariant

variable {R} {s : IncomingConfigChunk} {filed : Filed Identity}
  {call : ConfigChunkCall Identity} {c : ConfigChunk}

/-- A checked chunk whose index and length add up lies below its total. -/
theorem Checked.inside (h : Checked R call c)
    (hsum : c.signed = true → c.chunkIndex + c.data.length < 2 ^ R.width) :
    c.chunkIndex + c.data.length ≤ c.totalLength := by
  rcases hsigned : c.signed with - | -
  · obtain ⟨h₁, h₂⟩ := h.whole hsigned
    omega
  · have hbound := h.bound hsigned
    rwa [Nat.mod_eq_of_lt (hsum hsigned)] at hbound

/-- What is written of a chunk leaves alone what was written of one apart from it. -/
theorem slice_splice_apart {b : Bytes} {c d : ConfigChunk}
    (hfits : c.chunkIndex + c.data.length ≤ b.length) (h : Apart d c) :
    slice (splice b c.chunkIndex c.data) d.chunkIndex d.data.length =
      slice b d.chunkIndex d.data.length := by
  rcases Nat.eq_zero_or_pos d.data.length with hd | hd
  · -- nothing was written of the other
    rw [hd, slice, slice, List.take_zero, List.take_zero]
  rcases Nat.eq_zero_or_pos c.data.length with hc | hc
  · rw [List.length_eq_zero_iff.mp hc, splice, List.append_nil, List.length_nil, Nat.add_zero,
      List.take_append_drop]
  refine slice_splice_disjoint hfits ?_
  by_contra hmeet
  have hboth : max d.chunkIndex c.chunkIndex ∈ extent d ∧
      max d.chunkIndex c.chunkIndex ∈ extent c := by
    unfold extent
    rw [Finset.mem_Ico, Finset.mem_Ico]
    omega
  exact Finset.disjoint_left.mp h hboth.1 hboth.2

theorem copy_of_fits {offset : ℕ} {bytes : Bytes} (h : offset + bytes.length ≤ s.data.length) :
    s.copy offset bytes = { s with data := splice s.data offset bytes } := by
  rw [IncomingConfigChunk.copy, if_pos h]

/-- The slot made ready. -/
theorem SlotInv.prepare (h : SlotInv R s filed) (c : ConfigChunk) :
    SlotInv R (prepare s c) (sinceReset s c filed) ∧ (prepare s c).updateId = c.updateId := by
  unfold ConfigReceiver.prepare sinceReset
  by_cases hid : s.updateId = c.updateId
  · rw [if_neg (not_not.mpr hid), if_neg (not_not.mpr hid)]
    exact ⟨⟨h.size, h.count, h.update, h.checked, fun hs =>
      ⟨(h.assembled hs).apart, (h.assembled hs).total, (h.assembled hs).inside,
        (h.assembled hs).content⟩⟩, hid⟩
  · rw [if_pos hid, if_pos hid]
    refine ⟨⟨h.size, (Nat.zero_mod _).symm, ?_, ?_, fun _ => ⟨List.Pairwise.nil, ?_, ?_, ?_⟩⟩, rfl⟩
    all_goals
      intro f hf
      exact absurd hf List.not_mem_nil

/-- The slot with a chunk that is apart from the others. -/
theorem SlotInv.add (h : SlotInv R s filed) (hid : s.updateId = c.updateId)
    (hc : Checked R call c)
    (hsum : c.signed = true → c.chunkIndex + c.data.length < 2 ^ R.width)
    (happ : c.signed = true → ∀ f ∈ filed,
      f.2.signed = true ∧ f.2.totalLength = c.totalLength ∧ Apart f.2 c) :
    SlotInv R (s.add R.width c) (filed ++ [(call, c)]) := by
  have hin := hc.inside hsum
  have hfits : c.chunkIndex + c.data.length ≤ s.data.length := by
    have := hc.fits
    rw [h.size]
    omega
  -- the copy does not leave the buffer
  have hadd : s.add R.width c =
      { s with
        haveChunkIds := s.haveChunkIds ++ [c.chunkId]
        haveBytes := (s.haveBytes + c.data.length) % 2 ^ R.width
        data := splice s.data c.chunkIndex c.data } := by
    unfold IncomingConfigChunk.add
    rw [copy_of_fits hfits]
  rw [hadd]
  refine ⟨?_, ?_, ?_, ?_, fun hs => ?_⟩
  · exact (length_splice hfits).trans h.size
  · show (s.haveBytes + c.data.length) % 2 ^ R.width = _
    rw [h.count, List.map_append, List.sum_append, Nat.mod_add_mod]
    rfl
  · intro f hf
    rcases List.mem_append.mp hf with hf | hf
    · exact h.update f hf
    · obtain rfl := List.mem_singleton.mp hf
      exact hid.symm
  · intro f hf
    rcases List.mem_append.mp hf with hf | hf
    · exact h.checked f hf
    · obtain rfl := List.mem_singleton.mp hf
      exact hc
  · have hsigned : c.signed = true :=
      hs (call, c) (List.mem_append_right _ (List.mem_singleton.mpr rfl))
    -- what the slot held of signed chunks, and the new one
    have hold := h.assembled fun f hf => hs f (List.mem_append_left _ hf)
    have hothers := happ hsigned
    refine ⟨?_, ?_, ?_, ?_⟩
    · rw [List.pairwise_append]
      refine ⟨hold.apart, List.pairwise_singleton _ _, fun f hf g hg => ?_⟩
      obtain rfl := List.mem_singleton.mp hg
      exact (hothers f hf).2.2
    · intro f hf g hg
      have htotal : ∀ f ∈ filed ++ [(call, c)], f.2.totalLength = c.totalLength := by
        intro f hf
        rcases List.mem_append.mp hf with hf | hf
        · exact (hothers f hf).2.1
        · obtain rfl := List.mem_singleton.mp hf
          rfl
      rw [htotal f hf, htotal g hg]
    · intro f hf
      rcases List.mem_append.mp hf with hf | hf
      · exact hold.inside f hf
      · obtain rfl := List.mem_singleton.mp hf
        exact hin
    · intro f hf
      rcases List.mem_append.mp hf with hf | hf
      · -- the chunk is written beside the others
        show slice (splice s.data c.chunkIndex c.data) _ _ = _
        rw [slice_splice_apart hfits (hothers f hf).2.2]
        exact hold.content f hf
      · obtain rfl := List.mem_singleton.mp hf
        exact slice_splice_same rfl hfits

/-- The null after the last byte disturbs no chunk. -/
theorem SlotInv.terminate (h : SlotInv R s filed) {f : ConfigChunkCall Identity × ConfigChunk}
    (hf : f ∈ filed) : SlotInv R (s.copy f.2.totalLength [0]) filed := by
  have hfits : f.2.totalLength + ([0] : Bytes).length ≤ s.data.length := by
    have := (h.checked f hf).fits
    rw [h.size]
    exact this
  rw [copy_of_fits hfits]
  refine ⟨(length_splice hfits).trans h.size, h.count, h.update, h.checked, fun hs => ?_⟩
  obtain ⟨hapart, htotal, hinside, hcontent⟩ := h.assembled hs
  refine ⟨hapart, htotal, hinside, fun g hg => ?_⟩
  show slice (splice s.data f.2.totalLength [0]) _ _ = _
  rw [slice_splice_disjoint hfits (Or.inl ((hinside g hg).trans (htotal g hg f hf).le))]
  exact hcontent g hg

/-- **A count that reaches the total is coverage** when the chunks filed are all
signed. -/
theorem SlotInv.covered (hw : 32 ≤ R.width) (h : SlotInv R s filed)
    {f : ConfigChunkCall Identity × ConfigChunk} (hf : f ∈ filed)
    (hsigned : ∀ g ∈ filed, g.2.signed = true) (hcount : s.haveBytes = f.2.totalLength) {k : ℕ}
    (hk : k < f.2.totalLength) : R.Covered filed f.2 s.data k := by
  obtain ⟨hapart, htotal, hinside, hcontent⟩ := h.assembled hsigned
  have hsub : ∀ g ∈ filed, extent g.2 ⊆ Finset.range f.2.totalLength := by
    intro g hg k hk
    have := hinside g hg
    rw [htotal g hg f hf] at this
    rw [extent, Finset.mem_Ico] at hk
    rw [Finset.mem_range]
    omega
  have hcard : (filed.map fun g => (extent g.2).card) = filed.map fun g => g.2.data.length := by
    refine List.map_congr_left fun g _ => ?_
    rw [extent, Nat.card_Ico, Nat.add_sub_cancel_left]
  -- the count has not wrapped
  have hle := Coverage.sum_card_le hapart hsub
  rw [hcard, Finset.card_range] at hle
  have hlt : f.2.totalLength < 2 ^ R.width :=
    lt_of_lt_of_le (h.checked f hf).total (Nat.pow_le_pow_right (by decide) hw)
  have hsum : (filed.map fun g => (extent g.2).card).sum = (Finset.range f.2.totalLength).card := by
    have hc := h.count
    rw [hcount, Nat.mod_eq_of_lt (lt_of_le_of_lt hle hlt)] at hc
    rw [hcard, Finset.card_range, ← hc]
  obtain ⟨g, hg, hgk⟩ :=
    Coverage.exists_mem_of_sum_card_eq hapart hsub hsum (Finset.mem_range.mpr hk)
  rw [extent, Finset.mem_Ico] at hgk
  refine ⟨g, hg, (h.checked g hg).verified (hsigned g hg), ?_, htotal g hg f hf, hgk.1, hgk.2, ?_⟩
  · rw [h.update g hg, h.update f hf]
  · rw [← hcontent g hg, byteAt_slice _ (by omega)]
    congr 1
    omega

end Invariant

section Step

variable {R} {s : (Fin maxIncomingUpdates → IncomingConfigChunk) ×
    (Fin maxIncomingUpdates → Filed Identity)} {call : ConfigChunkCall Identity}
  {i : Fin maxIncomingUpdates} {c : ConfigChunk} {flood : Bool}

/-- A call that files a chunk. -/
theorem step_of_accept (h : R.accept s.1 call = .ok (some (i, c, flood))) :
    R.tracked.step s call =
      (((R.file s.1 i c).1,
        if R.Takes (s.1 i) c then
          Function.update s.2 i (sinceReset (s.1 i) c (s.2 i) ++ [(call, c)])
        else s.2),
        (if flood then R.propagate call else []) ++ (R.file s.1 i c).2.1) := by
  have hhandle : R.handleConfigChunk s.1 call = .ok ((R.file s.1 i c).1,
      (if flood then R.propagate call else []) ++ (R.file s.1 i c).2.1, (R.file s.1 i c).2.2) := by
    rw [handleConfigChunk, h]
    rfl
  unfold tracked Machine.withHistory machine record
  dsimp only
  rw [hhandle, h]

/-- A call that files none. -/
theorem step_of_not_accept (h : ∀ x, R.accept s.1 call ≠ .ok (some x)) :
    R.tracked.step s call = (s, []) := by
  unfold tracked Machine.withHistory machine record handleConfigChunk
  dsimp only
  rcases ha : R.accept s.1 call with e | x
  · rfl
  · rcases x with - | x
    · rfl
    · exact absurd ha (h x)

/-- Only the slot of the chunk changes. -/
theorem slotInv_update (hinv : ∀ i, SlotInv R (s.1 i) (s.2 i)) {t : IncomingConfigChunk}
    {filed : Filed Identity} (ht : SlotInv R t filed) :
    ∀ j, SlotInv R (Function.update s.1 i t j) (Function.update s.2 i filed j) := by
  intro j
  by_cases hj : j = i
  · subst hj
    rw [Function.update_self, Function.update_self]
    exact ht
  · rw [Function.update_of_ne hj, Function.update_of_ne hj]
    exact hinv j

/-- The slot is full for the chunk exactly when it does not take it. -/
theorem full_iff {t : IncomingConfigChunk} :
    R.maxUpdateChunks ≤ (prepare t c).haveChunkIds.length ↔ ¬ R.Takes t c := by
  unfold prepare Takes
  by_cases hid : t.updateId = c.updateId
  · rw [if_neg (not_not.mpr hid)]
    simp only [hid, true_implies, not_lt]
    rfl
  · rw [if_pos hid]
    simp only [hid, false_implies, not_true, iff_false, not_le]
    exact Nat.succ_pos _

/-- A chunk that is filed is written. -/
theorem write_mem_file {slots : Fin maxIncomingUpdates → IncomingConfigChunk}
    (htakes : R.Takes (slots i) c) : .write i c.chunkIndex c.data ∈ (R.file slots i c).2.1 := by
  unfold file
  dsimp only
  rw [if_neg (full_iff.not.mpr (not_not.mpr htakes))]
  split_ifs
  · split <;> exact List.mem_cons_self
  · exact List.mem_cons_self

/-- Filing the chunk that makes the count reach the total. -/
theorem file_done {slots : Fin maxIncomingUpdates → IncomingConfigChunk}
    (htakes : R.Takes (slots i) c)
    (hdone : ((prepare (slots i) c).add R.width c).haveBytes = c.totalLength) :
    ∃ more : List (ConfigEffect Config), (∀ o ∈ more, ∃ config, o = .setConfiguration config) ∧
      (R.file slots i c).1 = Function.update slots i
        (((prepare (slots i) c).add R.width c).copy
          ((prepare (slots i) c).add R.width c).haveBytes [0]) ∧
      (R.file slots i c).2.1 =
        [.write i c.chunkIndex c.data,
          .write i ((prepare (slots i) c).add R.width c).haveBytes [0],
          .parse i c (((prepare (slots i) c).add R.width c).copy
            ((prepare (slots i) c).add R.width c).haveBytes [0]).data] ++ more := by
  unfold file
  dsimp only
  rw [if_neg (full_iff.not.mpr (not_not.mpr htakes)), if_pos hdone]
  rcases R.fromDictionary (((prepare (slots i) c).add R.width c).copy
    ((prepare (slots i) c).add R.width c).haveBytes [0]).data with - | config
  · exact ⟨[], by simp, rfl, rfl⟩
  · exact ⟨[.setConfiguration config], by simp, rfl, rfl⟩

/-- Passing a chunk on writes and parses nothing. -/
theorem propagate_send {o : ConfigEffect Config} (h : o ∈ R.propagate call) :
    ∃ a payload, o = .send a payload := by
  obtain ⟨a, -, rfl⟩ := List.mem_map.mp h
  exact ⟨_, _, rfl⟩

/-- **One call**: the slots keep what they count and hold, and what it writes and
parses is as it should be. -/
theorem step_sound (hw : 32 ≤ R.width) (hinv : ∀ i, SlotInv R (s.1 i) (s.2 i))
    (hsound : R.Sound s call) :
    (∀ i, SlotInv R ((R.tracked.step s call).1.1 i) ((R.tracked.step s call).1.2 i)) ∧
      R.StepIntact s call := by
  by_cases haccept : ∃ x, R.accept s.1 call = .ok (some x)
  swap
  · -- nothing is filed
    have hstep := step_of_not_accept fun x hx => haccept ⟨x, hx⟩
    unfold StepIntact
    rw [hstep]
    exact ⟨hinv, fun o ho => absurd ho List.not_mem_nil⟩
  obtain ⟨⟨i, c, flood⟩, haccept⟩ := haccept
  have hstep := step_of_accept haccept
  have hc := accept_checked haccept
  have hflood : ∀ o ∈ (if flood then R.propagate call else []), ∃ a payload,
      o = (ConfigEffect.send a payload : ConfigEffect Config) := by
    intro o ho
    split_ifs at ho
    · exact propagate_send ho
    · exact absurd ho List.not_mem_nil
  obtain ⟨hprep, hid⟩ := (hinv i).prepare c
  unfold StepIntact
  rw [hstep]
  by_cases htakes : R.Takes (s.1 i) c
  swap
  · -- the slot is full: nothing is written
    have hfile : R.file s.1 i c = (Function.update s.1 i (prepare (s.1 i) c), [], 0) :=
      if_pos (full_iff.mpr htakes)
    have hsame : sinceReset (s.1 i) c (s.2 i) = s.2 i := by
      refine if_neg (not_not.mpr ?_)
      by_contra hne
      exact htakes fun he => absurd he hne
    rw [hfile, if_neg htakes, List.append_nil]
    refine ⟨fun j => ?_, fun o ho => ?_⟩
    · have hj := slotInv_update (i := i) hinv (hsame ▸ hprep) j
      rwa [Function.update_eq_self] at hj
    · obtain ⟨a, payload, rfl⟩ := hflood o ho
      trivial
  -- the chunk is filed
  have hsound' := fun hs => hsound i c flood haccept hs htakes
  have hadd : SlotInv R ((prepare (s.1 i) c).add R.width c)
      (sinceReset (s.1 i) c (s.2 i) ++ [(call, c)]) :=
    hprep.add hid hc (fun hs => (hsound' hs).1) fun hs => (hsound' hs).2
  have hin := hc.inside fun hs => (hsound' hs).1
  have hmem : (call, c) ∈ sinceReset (s.1 i) c (s.2 i) ++ [(call, c)] :=
    List.mem_append_right _ (List.mem_singleton.mpr rfl)
  have hfits := hc.fits
  rw [if_pos htakes]
  set t := (prepare (s.1 i) c).add R.width c with ht
  set filed := sinceReset (s.1 i) c (s.2 i) ++ [(call, c)] with hfiled
  have hwrite : c.chunkIndex + c.data.length ≤ R.capacity := by omega
  by_cases hdone : t.haveBytes = c.totalLength
  · -- the count reached the total: the buffer is ended and parsed
    have hcopy : t.copy t.haveBytes [0] = t.copy c.totalLength [0] := by rw [hdone]
    have hterm : SlotInv R (t.copy t.haveBytes [0]) filed := by
      rw [hcopy]
      exact hadd.terminate hmem
    have hcount : (t.copy t.haveBytes [0]).haveBytes = c.totalLength := hdone
    obtain ⟨more, hmore, hslots, heffects⟩ := file_done htakes hdone
    rw [hslots, heffects]
    refine ⟨slotInv_update hinv hterm, fun o ho => ?_⟩
    simp only [List.mem_append, List.mem_cons, List.not_mem_nil, or_false] at ho
    rcases ho with ho | (rfl | rfl | rfl) | ho
    · obtain ⟨a, payload, rfl⟩ := hflood o ho
      trivial
    · exact hwrite
    · show t.haveBytes + 1 ≤ R.capacity
      omega
    · intro hs k hk
      show R.Covered (Function.update s.2 i filed i) c (t.copy t.haveBytes [0]).data k
      rw [Function.update_self]
      refine hterm.covered hw hmem (fun g hg => ?_) hcount hk
      rcases List.mem_append.mp hg with hg | hg
      · exact ((hsound' hs).2 g hg).1
      · obtain rfl := List.mem_singleton.mp hg
        exact hs
    · obtain ⟨config, rfl⟩ := hmore o ho
      trivial
  · have hfile : R.file s.1 i c
        = (Function.update s.1 i t, [.write i c.chunkIndex c.data], 0) := by
      unfold file
      dsimp only
      rw [if_neg (full_iff.not.mpr (not_not.mpr htakes)), ← ht, if_neg hdone]
    rw [hfile]
    refine ⟨slotInv_update hinv hadd, fun o ho => ?_⟩
    rcases List.mem_append.mp ho with ho | ho
    · obtain ⟨a, payload, rfl⟩ := hflood o ho
      trivial
    · obtain rfl := List.mem_singleton.mp ho
      exact hwrite

end Step

theorem initial_inv (i : Fin maxIncomingUpdates) :
    SlotInv R (R.initial.1 i) (R.initial.2 i) := by
  refine ⟨List.length_replicate, (Nat.zero_mod _).symm, ?_, ?_,
    fun _ => ⟨List.Pairwise.nil, ?_, ?_, ?_⟩⟩
  all_goals
    intro f hf
    exact absurd hf List.not_mem_nil

variable {R}

/-- **Configurations are intact** in every run of sound calls: what is written stays in
the buffer, and what is parsed after a signed chunk completed it was written, byte for
byte, by signed chunks of the same update and total. -/
theorem intact_of_sound (hw : R.width = 32 ∨ R.width = 64)
    {calls : List (ConfigChunkCall Identity)} (hsound : R.tracked.Guarded R.Sound R.initial calls) :
    R.Intact calls := by
  have hw' : 32 ≤ R.width := by omega
  exact Machine.guarded_run (I := fun s => ∀ i, SlotInv R (s.1 i) (s.2 i))
    (fun _ _ hinv hs => (step_sound hw' hinv hs).1) (fun _ _ hinv hs => (step_sound hw' hinv hs).2)
    R.initial_inv hsound

/-! ### Calls that are and are not intact -/

/-- A receiver with `width` bits that accepts every signature and parses nothing. -/
def sampleReceiver (width : ℕ) : ConfigReceiver Unit Unit where
  width := width
  capacity := 65536
  controller := 1
  verify := fun _ _ _ => true
  fromDictionary := fun _ => none

/-- A signed chunk from the controller, `mark` being the first byte of its signature. -/
def sampleCall (total index : ℕ) (data : Bytes) (mark : UInt8) : ConfigChunkCall Unit where
  packetId := 9
  source := 1
  chunk := beBytes 8 0x100 ++ beBytes 2 data.length ++ data ++ [0] ++ beBytes 8 7 ++
    beBytes 4 total ++ beBytes 4 index ++ [1] ++ beBytes 2 eccSignatureLen ++
    mark :: List.replicate 95 0
  ptr := 0
  destroyed := false
  controllerIdentity := some ()
  members := []

/-- What the chunk is read as. -/
def sampleRead (total index : ℕ) (data : Bytes) (mark : UInt8) : ConfigChunk where
  data := data
  updateId := 7
  totalLength := total
  chunkIndex := index
  chunkId := BitVec.ofNat 64 mark.toNat
  signed := true

/-- What the chunk is filed as, in the first slot. -/
abbrev sampleAccepted (total index : ℕ) (data : Bytes) (mark : UInt8) :
    Except ZTException (Option (Fin maxIncomingUpdates × ConfigChunk × Bool)) :=
  .ok (some (⟨0, by decide⟩, sampleRead total index data mark, false))

/-- The first of two chunks, once it is filed. -/
abbrev sampleFiled : ConfigChunkCall Unit × ConfigChunk :=
  (sampleCall 4 0 [65, 66] 1, sampleRead 4 0 [65, 66] 1)

/-- A configuration in two chunks, one behind the other. -/
theorem intact_adjacent :
    (sampleReceiver 64).Intact [sampleCall 4 0 [65, 66] 1, sampleCall 4 2 [67, 68] 2] := by
  have hfirst : (sampleReceiver 64).accept (sampleReceiver 64).initial.1
      (sampleCall 4 0 [65, 66] 1) = sampleAccepted 4 0 [65, 66] 1 := by
    decide +kernel
  refine intact_of_sound (Or.inr rfl) ⟨?_, ?_, trivial⟩
  · intro i c flood haccept _ _
    obtain ⟨rfl, rfl, rfl⟩ : _ ∧ _ ∧ _ := by
      simpa using hfirst.symm.trans haccept
    exact ⟨by decide, fun f hf => absurd hf List.not_mem_nil⟩
  · intro i c flood haccept _ _
    set s := ((sampleReceiver 64).tracked.step (sampleReceiver 64).initial
      (sampleCall 4 0 [65, 66] 1)).1 with hs
    have hsecond : (sampleReceiver 64).accept s.1 (sampleCall 4 2 [67, 68] 2)
        = sampleAccepted 4 2 [67, 68] 2 := by
      decide +kernel
    obtain ⟨rfl, rfl, rfl⟩ : _ ∧ _ ∧ _ := by
      simpa using hsecond.symm.trans haccept
    refine ⟨by decide, ?_⟩
    -- the first chunk is what was filed before
    have htakes : (sampleReceiver 64).Takes ((sampleReceiver 64).initial.1 ⟨0, by decide⟩)
        (sampleRead 4 0 [65, 66] 1) := by
      decide +kernel
    have hfiled : s.2 ⟨0, by decide⟩ = [sampleFiled] := by
      rw [hs, step_of_accept hfirst]
      dsimp only
      rw [if_pos htakes, Function.update_self]
      show (if _ then [] else []) ++ [sampleFiled] = [sampleFiled]
      rw [ite_self, List.nil_append]
    have hsame : (s.1 ⟨0, by decide⟩).updateId = (sampleRead 4 2 [67, 68] 2).updateId := by
      decide +kernel
    rw [hfiled, sinceReset, if_neg (not_not.mpr hsame)]
    intro f hf
    obtain rfl := List.mem_singleton.mp hf
    exact ⟨rfl, rfl, Coverage.disjoint_Ico (Or.inl (le_refl 2))⟩

/-- Two ways a configuration is not intact.  With 32 bits the index and the length of
a chunk wrap, and it is written beyond the buffer.  With any width two chunks that
overlap count as two, and what was never written is parsed. -/
theorem not_intact :
    ¬ (sampleReceiver 32).Intact [sampleCall 2 0xffffffff [65] 1] ∧
      ¬ (sampleReceiver 64).Intact [sampleCall 4 0 [65, 66] 1, sampleCall 4 0 [67, 68] 2] := by
  constructor
  · rintro ⟨hstep, -⟩
    have hread : (sampleReceiver 32).accept (sampleReceiver 32).initial.1
        (sampleCall 2 0xffffffff [65] 1) = sampleAccepted 2 0xffffffff [65] 1 := by
      decide +kernel
    have hmem :
        ConfigEffect.write ⟨0, by decide⟩ 0xffffffff [65] ∈ ((sampleReceiver 32).tracked.step
        (sampleReceiver 32).initial (sampleCall 2 0xffffffff [65] 1)).2 := by
      rw [step_of_accept hread]
      refine List.mem_append_right _ (write_mem_file (c := sampleRead 2 0xffffffff [65] 1) ?_)
      decide +kernel
    have hbound : 0xffffffff + 1 ≤ 65536 := hstep _ hmem
    omega
  · rintro ⟨-, hstep, -⟩
    set s := ((sampleReceiver 64).tracked.step (sampleReceiver 64).initial
      (sampleCall 4 0 [65, 66] 1)).1 with hs
    have hread : (sampleReceiver 64).accept s.1 (sampleCall 4 0 [67, 68] 2)
        = sampleAccepted 4 0 [67, 68] 2 := by
      decide +kernel
    have htakes : (sampleReceiver 64).Takes (s.1 ⟨0, by decide⟩) (sampleRead 4 0 [67, 68] 2) := by
      decide +kernel
    have hdone : ((prepare (s.1 ⟨0, by decide⟩) (sampleRead 4 0 [67, 68] 2)).add 64
        (sampleRead 4 0 [67, 68] 2)).haveBytes = 4 := by
      decide +kernel
    obtain ⟨more, -, -, heffects⟩ := file_done htakes hdone
    obtain ⟨f, hf, -, -, -, -, hlast, -⟩ := hstep (.parse _ _ _) (by
      rw [step_of_accept hread]
      refine List.mem_append_right _ ?_
      rw [heffects]
      exact List.mem_append_left _ (List.mem_cons_of_mem _ (List.mem_cons_of_mem _
        (List.mem_singleton.mpr rfl)))) rfl 2 (by decide)
    have hall : ∀ f ∈ ((sampleReceiver 64).tracked.step s (sampleCall 4 0 [67, 68] 2)).1.2
        ⟨0, by decide⟩, f.2.chunkIndex + f.2.data.length ≤ 2 := by
      decide +kernel
    exact absurd hlast (not_lt.mpr (hall f hf))

end ConfigReceiver

end ZGalaxy
