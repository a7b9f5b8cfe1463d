/-
ZGalaxy/ConfigDelivery.lean

A network configuration on its way from the controller to a member.

The controller cuts the dictionary into chunks as long as a packet takes, signs each with its
place and the id of the update, and sends them (`ncSendConfig`).  They arrive in any
order, some of them several times.

While an update arrives, it has one slot or none (`Progress`), and the chunks filed there are
those that have arrived.

Main result: `delivered_once`, the dictionary is parsed once, byte for byte, and the update's id
is what the call that does so returns.
-/
import ZGalaxy.ConfigUpdate

namespace ZGalaxy

open ByteList

/-! ### The controller -/

/-- The longest chunk: `ZT_PROTO_MAX_PACKET_LENGTH - (ZT_PACKET_IDX_PAYLOAD + 256)`. -/
def ncMaxChunkLen : ℕ := protoMaxPacketLength - (28 + 256)

/-- The loop of `Node::ncSendConfig` from a chunk index on: what it signs. -/
def ncMessages (nwid : NetworkId) (configUpdateId : BitVec 64) (dconf : Bytes) (chunkIndex : ℕ) :
    List Bytes :=
  if chunkIndex < dconf.length then
    let chunkLen := min (dconf.length - chunkIndex) ncMaxChunkLen
    (beBytes 8 nwid.toNat ++ beBytes 2 chunkLen ++ slice dconf chunkIndex chunkLen
      ++ [0] -- no flags
      ++ beBytes 8 configUpdateId.toNat ++ beBytes 4 dconf.length ++ beBytes 4 chunkIndex)
      :: ncMessages nwid configUpdateId dconf (chunkIndex + chunkLen)
  else []
termination_by dconf.length - chunkIndex
decreasing_by
  have hlen : ncMaxChunkLen = 9740 := rfl
  omega

/-- What precedes the chunk in an answer to a request: the verb and the packet id of the
request. -/
def ncReplyFields (requestPacketId : BitVec 64) : Bytes :=
  if requestPacketId ≠ 0 then [0x0b] ++ beBytes 8 requestPacketId.toNat else []

/-- `Node::ncSendConfig`, to another node: the payloads of the packets it sends. -/
def ncSendConfig (sign : Bytes → Bytes) (nwid : NetworkId)
    (requestPacketId configUpdateId : BitVec 64)
    (dconf : Bytes) : List Bytes :=
  (ncMessages nwid configUpdateId dconf 0).map fun m =>
    ncReplyFields requestPacketId ++ (m ++ [1] ++ beBytes 2 eccSignatureLen ++ sign m)

/-- The chunks' data, from a chunk index on. -/
def ncPieces (dconf : Bytes) (chunkIndex : ℕ) : List Bytes :=
  if chunkIndex < dconf.length then
    let chunkLen := min (dconf.length - chunkIndex) ncMaxChunkLen
    slice dconf chunkIndex chunkLen :: ncPieces dconf (chunkIndex + chunkLen)
  else []
termination_by dconf.length - chunkIndex
decreasing_by
  have hlen : ncMaxChunkLen = 9740 := rfl
  omega

theorem flatten_ncPieces (dconf : Bytes) (chunkIndex : ℕ) :
    (ncPieces dconf chunkIndex).flatten = dconf.drop chunkIndex := by
  fun_induction ncPieces dconf chunkIndex with
  | case1 chunkIndex h chunkLen ih =>
      rw [List.flatten_cons, ih, slice, ← List.drop_drop, List.take_append_drop]
  | case2 chunkIndex h => rw [List.drop_of_length_le (not_lt.mp h), List.flatten_nil]

theorem length_mem_ncPieces {dconf p : Bytes} {chunkIndex : ℕ} (h : p ∈ ncPieces dconf chunkIndex) :
    0 < p.length ∧ p.length ≤ ncMaxChunkLen := by
  have hmax : ncMaxChunkLen = 9740 := rfl
  fun_induction ncPieces dconf chunkIndex with
  | case1 chunkIndex hlt chunkLen ih =>
      rcases List.mem_cons.mp h with rfl | h
      · rw [length_slice (by omega)]
        omega
      · exact ih h
  | case2 chunkIndex hge => cases h

theorem length_ncPieces (dconf : Bytes) (chunkIndex : ℕ) :
    (ncPieces dconf chunkIndex).length ≤ (dconf.length - chunkIndex + 9739) / 9740 := by
  have hmax : ncMaxChunkLen = 9740 := rfl
  fun_induction ncPieces dconf chunkIndex with
  | case1 chunkIndex hlt chunkLen ih =>
      rw [List.length_cons]
      omega
  | case2 chunkIndex hge => exact Nat.zero_le _

/-- The update that the controller sends. -/
def ncParts (sign : Bytes → Bytes) (nwid : NetworkId) (configUpdateId : BitVec 64) (dconf : Bytes) :
    ConfigParts where
  nwid := nwid
  id := configUpdateId
  pieces := ncPieces dconf 0
  sign := sign

section Sender

variable {sign : Bytes → Bytes} {nwid : NetworkId} {configUpdateId : BitVec 64} {dconf : Bytes}

theorem dict_ncParts : (ncParts sign nwid configUpdateId dconf).dict = dconf :=
  flatten_ncPieces dconf 0

/-- The messages from a chunk index on are those of the pieces that are left. -/
theorem ncMessages_from {chunkIndex : ℕ} (k : ℕ)
    (hk : (ncParts sign nwid configUpdateId dconf).offset k = chunkIndex)
    (hrest : (ncPieces dconf 0).drop k = ncPieces dconf chunkIndex) :
    ncMessages nwid configUpdateId dconf chunkIndex
      = (List.range' k (ncPieces dconf chunkIndex).length).map
          (ncParts sign nwid configUpdateId dconf).message := by
  fun_induction ncMessages nwid configUpdateId dconf chunkIndex generalizing k with
  | case1 chunkIndex hlt chunkLen ih =>
      have hpieces : ncPieces dconf chunkIndex
          = slice dconf chunkIndex chunkLen :: ncPieces dconf (chunkIndex + chunkLen) := by
        rw [ncPieces, if_pos hlt]
      rw [hpieces] at hrest
      have hget : (ncPieces dconf 0)[k]? = some (slice dconf chunkIndex chunkLen) := by
        rw [← List.head?_drop, hrest, List.head?_cons]
      have hlen : (slice dconf chunkIndex chunkLen).length = chunkLen := length_slice (by omega)
      have hpiece : (ncParts sign nwid configUpdateId dconf).piece k
          = slice dconf chunkIndex chunkLen := by
        show (ncPieces dconf 0).getD k [] = _
        rw [List.getD_eq_getElem?_getD, hget, Option.getD_some]
      have hcount : k < (ncParts sign nwid configUpdateId dconf).count := by
        show k < (ncPieces dconf 0).length
        exact (List.getElem?_eq_some_iff.mp hget).1
      rw [hpieces, List.length_cons, List.range'_succ, List.map_cons]
      refine congrArg₂ List.cons ?_ ?_
      · rw [ConfigParts.message, hpiece, hlen, dict_ncParts, hk]
        rfl
      · refine ih (k + 1) ?_ ?_
        · rw [ConfigParts.offset_succ hcount, hk, hpiece, hlen]
        · rw [← List.drop_drop, hrest, List.drop_one, List.tail_cons]
  | case2 chunkIndex hge =>
      rw [ncPieces, if_neg hge]
      rfl

variable (sign) in
theorem ncMessages_eq : ncMessages nwid configUpdateId dconf 0
    = (List.range (ncParts sign nwid configUpdateId dconf).count).map
        (ncParts sign nwid configUpdateId dconf).message := by
  have h : (ncParts sign nwid configUpdateId dconf).offset 0 = 0 := rfl
  rw [ncMessages_from 0 h rfl, List.range_eq_range']
  rfl

/-- **What the controller sends are the chunks of the update.** -/
theorem ncSendConfig_eq (requestPacketId : BitVec 64) :
    ncSendConfig sign nwid requestPacketId configUpdateId dconf
      = (List.range (ncParts sign nwid configUpdateId dconf).count).map fun j =>
          ncReplyFields requestPacketId ++ (ncParts sign nwid configUpdateId dconf).payload j := by
  rw [ncSendConfig, ncMessages_eq sign, List.map_map]
  rfl

end Sender

/-! ### The member -/

namespace ConfigReceiver

variable {Identity Config : Type*} {R : ConfigReceiver Identity Config}

/-- The calls, each with what it does and returns. -/
def answering (R : ConfigReceiver Identity Config) :
    Machine (Fin maxIncomingUpdates → IncomingConfigChunk)
    (ConfigChunkCall Identity) (List (ConfigEffect Config) × BitVec 64) where
  step slots call :=
    match R.handleConfigChunk slots call with
    | .error _ => (slots, [([], 0)])
    | .ok (slots, effects, id) => (slots, [(effects, id)])

/-- The buffers are as long as they were. -/
def Sized (R : ConfigReceiver Identity Config)
    (slots : Fin maxIncomingUpdates → IncomingConfigChunk) : Prop :=
  ∀ i, (slots i).data.length = R.capacity

theorem length_copy (s : IncomingConfigChunk) (offset : ℕ) (bytes : Bytes) :
    (s.copy offset bytes).data.length = s.data.length := by
  unfold IncomingConfigChunk.copy
  dsimp only
  split_ifs with h
  · exact length_splice h
  · rfl

theorem sized_file {slots : Fin maxIncomingUpdates → IncomingConfigChunk} (h : R.Sized slots)
    (i : Fin maxIncomingUpdates) (c : ConfigChunk) : R.Sized (R.file slots i c).1 := by
  have hprep : (prepare (slots i) c).data.length = R.capacity := by
    unfold prepare
    split_ifs
    · exact h i
    · exact h i
  have hupdate : ∀ t : IncomingConfigChunk, t.data.length = R.capacity →
      R.Sized (Function.update slots i t) := by
    intro t ht k
    by_cases hk : k = i
    · subst hk
      rw [Function.update_self]
      exact ht
    · rw [Function.update_of_ne hk]
      exact h k
  have hadd : ((prepare (slots i) c).add R.width c).data.length = R.capacity :=
    (length_copy _ _ _).trans hprep
  unfold file
  dsimp only
  split_ifs
  · exact hupdate _ hprep
  · split
    · exact hupdate _ ((length_copy _ _ _).trans hadd)
    · exact hupdate _ ((length_copy _ _ _).trans hadd)
  · exact hupdate _ hadd

theorem sized_step {slots : Fin maxIncomingUpdates → IncomingConfigChunk} (h : R.Sized slots)
    (call : ConfigChunkCall Identity) : R.Sized (R.answering.step slots call).1 := by
  unfold answering handleConfigChunk
  dsimp only
  rcases R.accept slots call with e | - | ⟨i, c, flood⟩
  · exact h
  · exact h
  · exact sized_file h i c

theorem sized_run {slots : Fin maxIncomingUpdates → IncomingConfigChunk} (h : R.Sized slots)
    (calls : List (ConfigChunkCall Identity)) : R.Sized (R.answering.runState slots calls) := by
  induction calls generalizing slots with
  | nil => exact h
  | cons call calls ih => exact ih (sized_step h call)

theorem sized_initial : R.Sized (initialSlots R.capacity) := fun _ => List.length_replicate

/-! ### An update that arrives -/

/-- **Where an update stands**: in one slot, with some of its chunks, or in none. -/
structure Progress (U : ConfigUpdate R) (slots : Fin maxIncomingUpdates → IncomingConfigChunk)
    (filed : Filed Identity) : Prop where
  slot : (∃ i, Holds U (slots i) filed ∧ ∀ k, k ≠ i → (slots k).updateId ≠ U.id) ∨
    filed = [] ∧ ∀ k, (slots k).updateId ≠ U.id

variable {U : ConfigUpdate R} {controller : Identity} {j : ℕ} {call : ConfigChunkCall Identity}
  {slots : Fin maxIncomingUpdates → IncomingConfigChunk} {filed : Filed Identity}

/-- The slot that gets the next chunk: the one the update has, or the victim. -/
theorem Progress.receives (h : Progress U slots filed) (hsized : R.Sized slots) :
    ∃ i, updateSlot slots U.id (List.finRange _) none = some i ∧ Receives U (slots i) filed ∧
      (∀ k, k ≠ i → (slots k).updateId ≠ U.id) ∧
      ((slots i).updateId ≠ U.id → (∀ k, (slots k).updateId ≠ U.id) ∧ i = victim slots) := by
  obtain ⟨i, hi, hslot⟩ := updateSlot_all slots U.id
  rcases h.slot with ⟨k, hk, hothers⟩ | ⟨rfl, hnone⟩
  · have hik : i = k := by
      by_contra hne
      rcases hslot with hid | ⟨hnone, -⟩
      · exact hothers i hne hid
      · exact hnone k hk.updateId
    subst hik
    exact ⟨i, hi, Or.inl hk, hothers, fun hne => absurd hk.updateId hne⟩
  · rcases hslot with hid | ⟨-, hvictim⟩
    · exact absurd hid (hnone i)
    · exact ⟨i, hi, Or.inr ⟨hnone i, hsized i, rfl⟩, fun k _ => hnone k, fun _ => ⟨hnone, hvictim⟩⟩

/-- The slot of the update after one more chunk. -/
theorem Progress.update {i : Fin maxIncomingUpdates} {t : IncomingConfigChunk}
    {filed' : Filed Identity} (ht : Holds U t filed')
    (hothers : ∀ k, k ≠ i → (slots k).updateId ≠ U.id) :
    Progress U (Function.update slots i t) filed' := by
  refine ⟨Or.inl ⟨i, by rwa [Function.update_self], fun k hk => ?_⟩⟩
  rw [Function.update_of_ne hk]
  exact hothers k hk

/-- **One chunk of an update that arrives**: a duplicate does nothing; any other is filed, and
the last one has the dictionary parsed. -/
theorem answering_step (hw : 32 ≤ R.width) (hs : R.Signs U.toConfigParts controller)
    (hd : Delivers U.toConfigParts controller j call) (hj : j < U.count)
    (h : Progress U slots filed) (hsized : R.Sized slots) :
    (U.chunk j ∈ filed.map Prod.snd ∧ R.answering.step slots call = (slots, [([], 0)])) ∨
      U.chunk j ∉ filed.map Prod.snd ∧ ∃ i t effects id,
        R.answering.step slots call = (Function.update slots i t, [(effects, id)]) ∧
        Holds U t (filed ++ [(call, U.chunk j)]) ∧
        (∀ k, k ≠ i → (slots k).updateId ≠ U.id) ∧
        ((slots i).updateId ≠ U.id → (∀ k, (slots k).updateId ≠ U.id) ∧ i = victim slots) ∧
        (¬AllFiled U (filed ++ [(call, U.chunk j)]) → parses effects = [] ∧ id = 0) ∧
        (AllFiled U (filed ++ [(call, U.chunk j)]) →
          ∃ data, cString data = U.dict ∧ parses effects = [(U.id, data)] ∧
            ((R.fromDictionary data).isSome → id = U.id)) := by
  obtain ⟨i, hi, hreceives, hothers, hvictim⟩ := h.receives hsized
  by_cases hdup : U.chunk j ∈ filed.map Prod.snd
  · have hholds : Holds U (slots i) filed := by
      rcases hreceives with hholds | ⟨-, -, rfl⟩
      · exact hholds
      · cases hdup
    refine Or.inl ⟨hdup, ?_⟩
    unfold answering
    dsimp only
    rw [handle_duplicate hw hs hd hj hi hholds hdup]
  · obtain ⟨t, effects, id, hhandle, ht, hmore, hlast⟩ := handle_new hw hs hd hj hi hreceives hdup
    refine Or.inr ⟨hdup, i, t, effects, id, ?_, ht, hothers, hvictim, hmore, hlast⟩
    unfold answering
    dsimp only
    rw [hhandle]

/-- A call delivers one chunk. -/
theorem Delivers.chunk_eq {V : ConfigUpdate R} {k : ℕ} (hw : 32 ≤ R.width)
    (hs : R.Signs U.toConfigParts controller) (hs' : R.Signs V.toConfigParts controller)
    (hj : j < U.count) (hk : k < V.count) (hd : Delivers U.toConfigParts controller j call)
    (hd' : Delivers V.toConfigParts controller k call) : U.chunk j = V.chunk k := by
  -- what it is read as, by a receiver that has nothing
  have hnew : ∀ W : ConfigUpdate R, ∀ i, (initialSlots R.capacity i).updateId ≠ W.id :=
    fun W i h => W.id_ne_zero h.symm
  have hslot :
      ∀ W : ConfigUpdate R, updateSlot (initialSlots R.capacity) W.id (List.finRange _) none
      = some (victim (initialSlots R.capacity)) :=
    fun W => (updateSlot_new fun i _ => hnew W i).trans oldestSlot_eq
  have h := accept_delivers hw hs hd hj (hslot U)
  rw [accept_delivers hw hs' hd' hk (hslot V), if_neg (fun hl => hnew V _ hl.1),
    if_neg (fun hl => hnew U _ hl.1)] at h
  exact (Prod.mk.inj (Prod.mk.inj (Option.some.inj (Except.ok.inj h))).2).1.symm

theorem Delivers.unique {k : ℕ} (hw : 32 ≤ R.width) (hs : R.Signs U.toConfigParts controller)
    (hj : j < U.count) (hk : k < U.count) (hd : Delivers U.toConfigParts controller j call)
    (hd' : Delivers U.toConfigParts controller k call) : j = k :=
  chunk_inj hj hk (hd.chunk_eq hw hs hs hj hk hd')

/-- What the calls of a run parse, and the ids they return. -/
structure Answers (outs : List (List (ConfigEffect Config) × BitVec 64))
    (parsed : List (BitVec 64 × Bytes))
    (ids : List (BitVec 64)) : Prop where
  parsed : (outs.flatMap fun o => parses o.1) = parsed
  ids : (outs.map Prod.snd).filter (· ≠ 0) = ids

theorem Answers.cons {outs : List (List (ConfigEffect Config) × BitVec 64)}
    {parsed : List (BitVec 64 × Bytes)} {ids : List (BitVec 64)} (h : Answers outs parsed ids)
    {effects : List (ConfigEffect Config)} (hp : parses effects = []) :
    Answers ((effects, 0) :: outs) parsed ids := by
  refine ⟨?_, ?_⟩
  · rw [List.flatMap_cons, hp, List.nil_append, h.parsed]
  · rw [List.map_cons, List.filter_cons_of_neg (by simp), h.ids]

variable {calls : List (ConfigChunkCall Identity)}

/-- An update that is complete stays so. -/
theorem answers_complete (hw : 32 ≤ R.width) (hs : R.Signs U.toConfigParts controller)
    (hcalls : ∀ call ∈ calls, ∃ j < U.count, Delivers U.toConfigParts controller j call)
    (h : Progress U slots filed) (hsized : R.Sized slots) (hall : AllFiled U filed) :
    Answers (R.answering.runOutputs slots calls) [] [] := by
  induction calls with
  | nil => exact ⟨rfl, rfl⟩
  | cons call calls ih =>
      obtain ⟨j, hj, hd⟩ := hcalls call List.mem_cons_self
      rcases answering_step hw hs hd hj h hsized with ⟨-, hstep⟩ | ⟨hnew, -⟩
      · rw [Machine.runOutputs_cons, hstep]
        exact (ih fun call' hc => hcalls call' (List.mem_cons_of_mem call hc)).cons rfl
      · exact absurd (hall j hj) hnew

/-- **An update that is not complete is parsed once**, when all its chunks have arrived. -/
theorem answers_incomplete (hw : 32 ≤ R.width) (hs : R.Signs U.toConfigParts controller)
    (hcalls : ∀ call ∈ calls, ∃ j < U.count, Delivers U.toConfigParts controller j call)
    (h : Progress U slots filed) (hsized : R.Sized slots) (hsome : ¬AllFiled U filed)
    (hall : ∀ j < U.count, U.chunk j ∈ filed.map Prod.snd ∨
      ∃ call ∈ calls, Delivers U.toConfigParts controller j call) :
    ∃ data ids, cString data = U.dict ∧
      Answers (R.answering.runOutputs slots calls) [(U.id, data)] ids ∧
      ((R.fromDictionary data).isSome → ids = [U.id]) := by
  -- on the calls: what is filed grows, and one of them completes it
  induction calls generalizing slots filed with
  | nil =>
      -- with no call left all chunks are filed already
      refine absurd (fun j hj => ?_) hsome
      rcases hall j hj with hfiled | ⟨call, hcall, -⟩
      · exact hfiled
      · cases hcall
  | cons call calls ih =>
      have hrest : ∀ call ∈ calls, ∃ j < U.count, Delivers U.toConfigParts controller j call :=
        fun call' hc => hcalls call' (List.mem_cons_of_mem call hc)
      obtain ⟨j, hj, hd⟩ := hcalls call List.mem_cons_self
      have hsized' := sized_step hsized call
      rw [Machine.runOutputs_cons]
      rcases answering_step hw hs hd hj h hsized with
        ⟨hdup, hstep⟩ | ⟨-, i, t, effects, id, hstep, ht, hothers, -, hmore, hlast⟩
      · -- a duplicate
        rw [hstep]
        obtain ⟨data, ids, hdata, hans, hids⟩ := ih hrest h hsized hsome fun k hk => by
          rcases hall k hk with hfiled | ⟨call', hcall', hd'⟩
          · exact Or.inl hfiled
          · rcases List.mem_cons.mp hcall' with rfl | hcall'
            · obtain rfl := hd.unique hw hs hj hk hd'
              exact Or.inl hdup
            · exact Or.inr ⟨call', hcall', hd'⟩
        exact ⟨data, ids, hdata, hans.cons rfl, hids⟩
      · rw [hstep] at hsized' ⊢
        have hprogress := Progress.update ht hothers
        by_cases hdone : AllFiled U (filed ++ [(call, U.chunk j)])
        · -- the last chunk
          obtain ⟨data, hdata, hparses, hid⟩ := hlast hdone
          have hans := answers_complete hw hs hrest hprogress hsized' hdone
          refine ⟨data, [id].filter (· ≠ 0), hdata, ⟨?_, ?_⟩, fun hp => ?_⟩
          · rw [List.singleton_append, List.flatMap_cons, hparses, hans.parsed, List.append_nil]
          · rw [List.singleton_append, List.map_cons, ← List.singleton_append, List.filter_append,
              hans.ids, List.append_nil]
          · rw [hid hp]
            exact List.filter_cons_of_pos (by simpa using U.id_ne_zero)
        · -- one more
          obtain ⟨hparses, rfl⟩ := hmore hdone
          obtain ⟨data, ids, hdata, hans, hids⟩ := ih hrest hprogress hsized' hdone fun k hk => by
            rcases hall k hk with hfiled | ⟨call', hcall', hd'⟩
            · refine Or.inl ?_
              rw [List.map_append]
              exact List.mem_append_left _ hfiled
            · rcases List.mem_cons.mp hcall' with rfl | hcall'
              · obtain rfl := hd.unique hw hs hj hk hd'
                refine Or.inl ?_
                rw [List.map_append]
                exact List.mem_append_right _ (List.mem_singleton.mpr rfl)
              · exact Or.inr ⟨call', hcall', hd'⟩
          exact ⟨data, ids, hdata, hans.cons hparses, hids⟩

/-! ### From the controller to the member -/

section Delivery

variable {sign : Bytes → Bytes} {nwid : NetworkId} {requestPacketId configUpdateId : BitVec 64}
  {dconf : Bytes}

/-- A packet of the controller arrives behind its header, at a member that knows the
controller. -/
structure Arrives (requestPacketId : BitVec 64) (controller : Identity) (packet : Bytes)
    (call : ConfigChunkCall Identity) : Prop where
  carries : ∃ header, call.chunk = header ++ packet ∧
    call.ptr = header.length + (ncReplyFields requestPacketId).length
  alive : call.destroyed = false
  knows : call.controllerIdentity = some controller

theorem Arrives.delivers (h : Arrives requestPacketId controller
    (ncReplyFields requestPacketId ++ (ncParts sign nwid configUpdateId dconf).payload j) call) :
    Delivers (ncParts sign nwid configUpdateId dconf) controller j call := by
  obtain ⟨header, hchunk, hptr⟩ := h.carries
  refine ⟨⟨header ++ ncReplyFields requestPacketId, ?_, ?_⟩, h.alive, h.knows⟩
  · rw [hchunk, List.append_assoc]
  · rw [hptr, List.length_append]

/-- What the controller sends can be received. -/
def ncUpdate (R : ConfigReceiver Identity Config) (sign : Bytes → Bytes)
    (length_sign : ∀ m, (sign m).length = eccSignatureLen) (nwid : NetworkId)
    (configUpdateId : BitVec 64) (id_ne_zero : configUpdateId ≠ 0) (dconf : Bytes)
    (fits : dconf.length < R.capacity) (capacity : R.capacity ≤ 2 ^ 32)
    (no_null : ∀ x ∈ dconf, x ≠ 0)
    (unique : ((ncMessages nwid configUpdateId dconf 0).map fun m => chunkIdOf (sign m)).Nodup) :
    ConfigUpdate R where
  toConfigParts := ncParts sign nwid configUpdateId dconf
  id_ne_zero := id_ne_zero
  length_sign := length_sign
  piece_ne_nil := fun p hp => List.length_pos_iff.mp (length_mem_ncPieces hp).1
  length_piece := fun p hp => lt_of_le_of_lt (length_mem_ncPieces hp).2 (by decide)
  count_le := by
    have h : (ncParts sign nwid configUpdateId dconf).count
        ≤ (dconf.length - 0 + 9739) / 9740 := length_ncPieces dconf 0
    unfold maxUpdateChunks
    omega
  fits := by rwa [dict_ncParts]
  length_dict := by
    rw [dict_ncParts]
    omega
  no_null := by rwa [dict_ncParts]
  chunkId_inj := by
    intro i hi j hj h
    rw [ncMessages_eq sign, List.map_map] at unique
    exact List.inj_on_of_nodup_map unique (List.mem_range.mpr hi) (List.mem_range.mpr hj) h

variable (controller sign nwid requestPacketId) in
/-- **A configuration is delivered once.**  When every packet that the controller sends arrives,
in any order and any number of times, the member parses one dictionary, the controller's, and
the calls return the update's id once. -/
theorem delivered_once (hwidth : R.width = 32 ∨ R.width = 64) (hcapacity : R.capacity ≤ 2 ^ 32)
    (hlength : ∀ m, (sign m).length = eccSignatureLen)
    (hverify : ∀ m, R.verify controller m (sign m) = true)
    (hunique : ((ncMessages nwid configUpdateId dconf 0).map fun m => chunkIdOf (sign m)).Nodup)
    (haccept : ∀ data, cString data = dconf → (R.fromDictionary data).isSome)
    (hid : configUpdateId ≠ 0) (hne : dconf ≠ []) (hnull : ∀ x ∈ dconf, x ≠ 0)
    (hfits : dconf.length < R.capacity) (history : List (ConfigChunkCall Identity))
    (hfresh : ∀ i, (R.answering.runState (initialSlots R.capacity) history i).updateId
      ≠ configUpdateId)
    (hcalls : ∀ call ∈ calls,
      ∃ packet ∈ ncSendConfig sign nwid requestPacketId configUpdateId dconf,
      Arrives requestPacketId controller packet call)
    (hall : ∀ packet ∈ ncSendConfig sign nwid requestPacketId configUpdateId dconf,
      ∃ call ∈ calls, Arrives requestPacketId controller packet call) :
    ∃ data, cString data = dconf ∧
      Answers (R.answering.runOutputs
        (R.answering.runState (initialSlots R.capacity) history) calls)
        [(configUpdateId, data)] [configUpdateId] := by
  have hw : 32 ≤ R.width := by omega
  let U := ncUpdate R sign hlength nwid configUpdateId hid dconf hfits hcapacity hnull hunique
  have hpackets : ∀ packet, packet ∈ ncSendConfig sign nwid requestPacketId configUpdateId dconf ↔
      ∃ j < U.count, ncReplyFields requestPacketId ++ U.payload j = packet := by
    intro packet
    rw [ncSendConfig_eq, List.mem_map]
    simp only [List.mem_range]
    rfl
  have hdelivers : ∀ call ∈ calls, ∃ j < U.count, Delivers U.toConfigParts controller j call := by
    intro call hcall
    obtain ⟨packet, hpacket, harrives⟩ := hcalls call hcall
    obtain ⟨j, hj, rfl⟩ := (hpackets packet).mp hpacket
    exact ⟨j, hj, harrives.delivers⟩
  have harrived : ∀ j < U.count, U.chunk j ∈ ([] : Filed Identity).map Prod.snd ∨
      ∃ call ∈ calls, Delivers U.toConfigParts controller j call := by
    intro j hj
    obtain ⟨call, hcall, harrives⟩ := hall _ ((hpackets _).mpr ⟨j, hj, rfl⟩)
    exact Or.inr ⟨call, hcall, harrives.delivers⟩
  -- there is a first chunk, and it is not there yet
  have hcount : 0 < U.count := by
    refine List.length_pos_iff.mpr fun hnil => hne ?_
    have hdict : U.dict = dconf := dict_ncParts
    rw [← hdict, ConfigParts.dict, show U.pieces = [] from hnil, List.flatten_nil]
  have hsome : ¬AllFiled U ([] : Filed Identity) := fun h => by cases h 0 hcount
  obtain ⟨data, ids, hdata, hans, hids⟩ :=
    answers_incomplete (U := U) hw (fun m => hverify m) hdelivers
    ⟨Or.inr ⟨rfl, hfresh⟩⟩ (sized_run sized_initial history) hsome harrived
  have hdict : cString data = dconf := hdata.trans dict_ncParts
  rw [hids (haccept data hdict)] at hans
  exact ⟨data, hdict, hans⟩

/-- Pieces as long as a packet takes, and a last one, are what the controller cuts a dictionary
into. -/
theorem ncPieces_flatten {ps : List Bytes} {last : Bytes}
    (hps : ∀ p ∈ ps, p.length = ncMaxChunkLen) (hpos : 0 < last.length)
    (hlast : last.length ≤ ncMaxChunkLen) (sent : Bytes) :
    ncPieces (sent ++ (ps.flatten ++ last)) sent.length = ps ++ [last] := by
  have hmax : ncMaxChunkLen = 9740 := rfl
  -- on the pieces before the last, each of which is then sent
  induction ps generalizing sent with
  | nil =>
      rw [List.flatten_nil, List.nil_append, List.nil_append, ncPieces, List.length_append,
        Nat.add_sub_cancel_left, if_pos (by omega)]
      dsimp only
      rw [min_eq_left hlast, slice, List.drop_left, List.take_length, ncPieces,
        if_neg (by rw [List.length_append]; omega)]
  | cons p ps ih =>
      have hp := hps p List.mem_cons_self
      have hrest := ih (fun q hq => hps q (List.mem_cons_of_mem p hq)) (sent ++ p)
      have hlength : (sent ++ ((p :: ps).flatten ++ last)).length - sent.length =
          p.length + (ps.flatten ++ last).length := by
        rw [List.length_append, Nat.add_sub_cancel_left, List.flatten_cons, List.append_assoc,
          List.length_append]
      rw [ncPieces, if_pos (by omega)]
      dsimp only
      rw [hlength, min_eq_right (by omega), ← hp, List.flatten_cons, List.append_assoc, slice,
        List.drop_left, List.take_left, ← List.length_append, ← List.append_assoc, hrest,
        List.cons_append]

/-- A controller that signs with the end of the message, last byte first. -/
def sampleSign (m : Bytes) : Bytes := (m.reverse ++ List.replicate 96 0).take 96

theorem length_sampleSign (m : Bytes) : (sampleSign m).length = 96 := by
  unfold sampleSign
  rw [List.length_take, List.length_append, List.length_replicate]
  omega

/-- What chunks are told apart by is in the last sixteen bytes. -/
theorem chunkIdOf_sampleSign (m : Bytes) {b : Bytes} (hb : b.length = 16) :
    chunkIdOf (sampleSign (m ++ b)) = chunkIdOf b.reverse := by
  have hbyte : ∀ j, j < 16 → byteAt (sampleSign (m ++ b)) j = byteAt b.reverse j := by
    intro j hj
    have hslice : sampleSign (m ++ b) =
        slice (b.reverse ++ (m.reverse ++ List.replicate 96 0)) 0 96 := by
      unfold sampleSign slice
      rw [List.reverse_append, List.append_assoc, List.drop_zero]
    rw [hslice, byteAt_slice _ (by omega), Nat.zero_add,
      byteAt_append_left (by rw [List.length_reverse]; omega)]
  unfold chunkIdOf
  congr 2
  refine List.map_congr_left fun j hj => ?_
  have hlt : j < 8 := List.mem_range.mp (List.mem_reverse.mp hj)
  rw [hbyte j (by omega), hbyte (j + 8) (by omega)]

/-- A piece as long as a packet takes. -/
def samplePiece (x : UInt8) : Bytes := List.replicate ncMaxChunkLen x

theorem length_samplePiece (x : UInt8) : (samplePiece x).length = 9740 := List.length_replicate

/-- A configuration that takes three packets. -/
def sampleDict : Bytes := [samplePiece 65, samplePiece 66].flatten ++ [67]

/-- A receiver that checks the signatures and knows the configuration. -/
def parsingReceiver : ConfigReceiver Unit Unit :=
  { sampleReceiver 64 with
    verify := fun _ m sig => sig == sampleSign m
    fromDictionary := fun data => if cString data = sampleDict then some () else none }

/-- The configuration in chunks. -/
def sampleParts : ConfigParts := ncParts sampleSign 0x100 7 sampleDict

theorem pieces_sampleParts : sampleParts.pieces = [samplePiece 65, samplePiece 66, [67]] := by
  have hfull : ∀ p ∈ [samplePiece 65, samplePiece 66], p.length = ncMaxChunkLen := by
    intro p hp
    rcases List.mem_cons.mp hp with rfl | hp
    · exact length_samplePiece 65
    · rw [List.mem_singleton.mp hp]
      exact length_samplePiece 66
  have hlast : ([67] : Bytes).length ≤ ncMaxChunkLen := by decide
  have hpos : 0 < ([67] : Bytes).length := Nat.one_pos
  exact ncPieces_flatten hfull hpos hlast []

theorem count_sampleParts : sampleParts.count = 3 := congrArg List.length pieces_sampleParts

theorem length_sampleDict : sampleDict.length = 19481 := by
  simp [sampleDict, length_samplePiece]

theorem chunkId_sampleParts (j : ℕ) : sampleParts.chunkId j =
    chunkIdOf (beBytes 8 7 ++ (beBytes 4 19481 ++ beBytes 4 (sampleParts.offset j))).reverse := by
  have hdict : sampleParts.dict.length = 19481 := by
    rw [← length_sampleDict]
    exact congrArg List.length dict_ncParts
  have hid : sampleParts.id.toNat = 7 := rfl
  unfold ConfigParts.chunkId ConfigParts.message
  rw [hdict, hid, List.append_assoc, List.append_assoc]
  exact chunkIdOf_sampleSign _ (by simp only [List.length_append, length_beBytes])

/-- A packet, as it arrives. -/
def sampleArrival (j : ℕ) : ConfigChunkCall Unit where
  packetId := 9
  source := 1
  chunk := List.replicate 28 0 ++ sampleParts.payload j
  ptr := 28
  destroyed := false
  controllerIdentity := some ()
  members := []

theorem offset_sampleParts : sampleParts.offset 0 = 0 ∧ sampleParts.offset 1 = 9740 ∧
    sampleParts.offset 2 = 19480 := by
  unfold ConfigParts.offset
  rw [pieces_sampleParts]
  refine ⟨rfl, ?_, ?_⟩
  · simp [length_samplePiece]
  · simp [length_samplePiece]

/-- The chunks are told apart. -/
theorem nodup_sampleParts :
    ((ncMessages 0x100 7 sampleDict 0).map fun m => chunkIdOf (sampleSign m)).Nodup := by
  obtain ⟨hoffset₀, hoffset₁, hoffset₂⟩ := offset_sampleParts
  have hids : ((ncMessages 0x100 7 sampleDict 0).map fun m => chunkIdOf (sampleSign m)) =
      (List.range 3).map sampleParts.chunkId := by
    rw [ncMessages_eq sampleSign, List.map_map, ← count_sampleParts]
    rfl
  have hthree : (List.range 3).map sampleParts.chunkId =
      [sampleParts.chunkId 0, sampleParts.chunkId 1, sampleParts.chunkId 2] := rfl
  rw [hids, hthree, chunkId_sampleParts, chunkId_sampleParts, chunkId_sampleParts, hoffset₀,
    hoffset₁, hoffset₂]
  decide +kernel

theorem ncSendConfig_sampleDict : ncSendConfig sampleSign 0x100 0 7 sampleDict =
    (List.range 3).map sampleParts.payload := by
  have hfields : ncReplyFields 0 = [] := rfl
  rw [ncSendConfig_eq, hfields, ← count_sampleParts]
  exact List.map_congr_left fun j _ => List.nil_append _

/-- The last packet arrives first, and one of them twice. -/
theorem delivered_once_disordered : ∃ data, cString data = sampleDict ∧
    Answers (parsingReceiver.answering.runOutputs (parsingReceiver.answering.runState
      (initialSlots parsingReceiver.capacity) [])
        [sampleArrival 2, sampleArrival 0, sampleArrival 0, sampleArrival 1])
      [(7, data)] [7] := by
  have hcapacity : parsingReceiver.capacity ≤ 2 ^ 32 := show 65536 ≤ 2 ^ 32 by norm_num
  have hnull : ∀ x ∈ sampleDict, x ≠ 0 := by
    intro x hx
    simp only [sampleDict, samplePiece, List.flatten_cons, List.flatten_nil, List.append_nil,
      List.mem_append, List.mem_replicate, List.mem_singleton] at hx
    rcases hx with (⟨-, rfl⟩ | ⟨-, rfl⟩) | rfl <;> decide
  have hfits : sampleDict.length < parsingReceiver.capacity := by
    rw [length_sampleDict]
    show 19481 < 65536
    norm_num
  have hne : sampleDict ≠ [] := List.ne_nil_of_length_pos (by rw [length_sampleDict]; norm_num)
  have harrives : ∀ j, Arrives 0 () (sampleParts.payload j) (sampleArrival j) :=
    fun j => ⟨⟨List.replicate 28 0, rfl, rfl⟩, rfl, rfl⟩
  refine delivered_once () sampleSign 0x100 0 (Or.inr rfl) hcapacity length_sampleSign
    (fun _ => beq_self_eq_true _) nodup_sampleParts (fun data hdata => ?_) (by decide) hne hnull
    hfits [] (fun i => ?_) (fun call hcall => ?_) fun packet hpacket => ?_
  · show (if cString data = sampleDict then some () else none).isSome = true
    rw [if_pos hdata]
    rfl
  · show (0 : BitVec 64) ≠ 7
    decide
  · have hsent : ∃ j ∈ List.range 3, call = sampleArrival j := by
      simp only [List.mem_cons, List.not_mem_nil, or_false] at hcall
      rcases hcall with rfl | rfl | rfl | rfl
      · exact ⟨2, by decide, rfl⟩
      · exact ⟨0, by decide, rfl⟩
      · exact ⟨0, by decide, rfl⟩
      · exact ⟨1, by decide, rfl⟩
    obtain ⟨j, hj, rfl⟩ := hsent
    refine ⟨sampleParts.payload j, ?_, harrives j⟩
    rw [ncSendConfig_sampleDict]
    exact List.mem_map_of_mem hj
  · rw [ncSendConfig_sampleDict] at hpacket
    obtain ⟨j, hj, rfl⟩ := List.mem_map.mp hpacket
    have hlt := List.mem_range.mp hj
    refine ⟨sampleArrival j, ?_, harrives j⟩
    interval_cases j
    · exact List.mem_cons_of_mem _ List.mem_cons_self
    · simp
    · exact List.mem_cons_self

end Delivery

end ConfigReceiver

end ZGalaxy
