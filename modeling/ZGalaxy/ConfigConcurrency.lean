/-
ZGalaxy/ConfigConcurrency.lean

Several configuration updates that arrive at the same time.

A network has three slots.  Three updates whose chunks are interleaved in any way find room in
them, as long as a new update is not given the slot of another that is incomplete
(`Concurrent`).  Which slot it is given depends on how many chunks each slot has ever been used
for, and not on what is in it, so this is a condition on the slots when the first chunk of an
update arrives (`Spared`).

Main result: `undisturbed_iff`, the updates leave each other alone, and each is parsed once its
chunks have arrived, exactly in the runs whose steps meet that condition.
-/
import ZGalaxy.ConfigDelivery
import Mathlib.Data.Fintype.EquivFin

namespace ZGalaxy

open ByteList

namespace ConfigReceiver

/-! ### The slot used least -/

section Victim

variable (slots : Fin maxIncomingUpdates → IncomingConfigChunk)

/-- A slot comes before another: it was used for fewer chunks, or as many and is the first. -/
def UsedLess (i k : Fin maxIncomingUpdates) : Prop :=
  (slots i).ts < (slots k).ts ∨ (slots i).ts = (slots k).ts ∧ i < k

variable {slots} {i k l : Fin maxIncomingUpdates}

theorem UsedLess.trans (h : UsedLess slots i k) (h' : UsedLess slots k l) : UsedLess slots i l := by
  rcases h with hlt | ⟨heq, hlt⟩
  · rcases h' with hlt' | ⟨heq', -⟩
    · exact Or.inl (BitVec.lt_trans hlt hlt')
    · exact Or.inl (heq' ▸ hlt)
  · rcases h' with hlt' | ⟨heq', hlt'⟩
    · exact Or.inl (heq.symm ▸ hlt')
    · exact Or.inr ⟨heq.trans heq', lt_trans hlt hlt'⟩

theorem UsedLess.asymm (h : UsedLess slots i k) : ¬UsedLess slots k i := by
  intro h'
  rcases h.trans h' with hlt | ⟨-, hlt⟩
  · exact BitVec.lt_irrefl _ hlt
  · exact lt_irrefl _ hlt

/-- The loop finds what comes before all others. -/
theorem oldestSlot_least {is : List (Fin maxIncomingUpdates)} {c r : Fin maxIncomingUpdates}
    (hsorted : (c :: is).Pairwise (· < ·)) (h : oldestSlot slots is (some c) = some r) :
    ∀ k ∈ c :: is, k = r ∨ UsedLess slots r k := by
  induction is generalizing c with
  | nil =>
      intro k hk
      obtain rfl := Option.some.inj h
      exact Or.inl (List.mem_singleton.mp hk)
  | cons i is ih =>
      obtain ⟨hc, hi⟩ := List.pairwise_cons.mp hsorted
      unfold oldestSlot at h
      by_cases hlt : (slots i).ts < (slots c).ts
      · rw [if_pos hlt] at h
        have hrest := ih hi h
        intro k hk
        rcases List.mem_cons.mp hk with rfl | hk
        · -- what is dropped comes after
          rcases hrest i List.mem_cons_self with rfl | hless
          · exact Or.inr (Or.inl hlt)
          · exact Or.inr (hless.trans (Or.inl hlt))
        · exact hrest k hk
      · rw [if_neg hlt] at h
        have hrest := ih (List.pairwise_cons.mpr ⟨fun k hk => hc k (List.mem_cons_of_mem i hk),
          (List.pairwise_cons.mp hi).2⟩) h
        have hci : UsedLess slots c i := by
          by_cases heq : (slots c).ts = (slots i).ts
          · exact Or.inr ⟨heq, hc i List.mem_cons_self⟩
          · exact Or.inl (BitVec.lt_of_le_ne (BitVec.not_lt.mp hlt) heq)
        intro k hk
        rcases List.mem_cons.mp hk with rfl | hk
        · exact hrest k List.mem_cons_self
        rcases List.mem_cons.mp hk with rfl | hk
        · rcases hrest c List.mem_cons_self with rfl | hless
          · exact Or.inr hci
          · exact Or.inr (hless.trans hci)
        · exact hrest k (List.mem_cons_of_mem c hk)

variable (slots) in
/-- **The victim was used least.** -/
theorem victim_least (k : Fin maxIncomingUpdates) :
    k = victim slots ∨ UsedLess slots (victim slots) k := by
  have hsorted : ((0 : Fin maxIncomingUpdates) :: [1, 2]).Pairwise (· < ·) := by decide
  have hall : (0 : Fin maxIncomingUpdates) :: [1, 2] = List.finRange maxIncomingUpdates := rfl
  have hvictim : oldestSlot slots [1, 2] (some 0) = some (victim slots) := oldestSlot_eq
  exact oldestSlot_least hsorted hvictim k (hall ▸ List.mem_finRange k)

end Victim

/-! ### Updates that leave each other alone -/

variable {Identity Config ι : Type*} {R : ConfigReceiver Identity Config}

/-- The slot holds an update of which chunks are missing. -/
def Incomplete (Us : ι → ConfigUpdate R) (s : IncomingConfigChunk) : Prop :=
  ∃ u, s.updateId = (Us u).id ∧ s.haveBytes ≠ (Us u).dict.length

/-- No incomplete update loses its slot while there is one that holds a completed update or
none. -/
def Kept (Us : ι → ConfigUpdate R) (slots : Fin maxIncomingUpdates → IncomingConfigChunk)
    (call : ConfigChunkCall Identity) : Prop :=
  (∃ i, ¬Incomplete Us (slots i)) → ∀ i, Incomplete Us (slots i) →
    ((R.answering.step slots call).1 i).updateId = (slots i).updateId

/-- When an update arrives that has no slot, one that holds a completed update or none was used
less than all that hold an incomplete one. -/
def Spared (Us : ι → ConfigUpdate R) (controller : Identity)
    (slots : Fin maxIncomingUpdates → IncomingConfigChunk)
    (call : ConfigChunkCall Identity) : Prop :=
  ∀ u, ∀ j < (Us u).count, Delivers (Us u).toConfigParts controller j call →
    (∀ k, (slots k).updateId ≠ (Us u).id) →
      ∃ i, ¬Incomplete Us (slots i) ∧ ∀ k, Incomplete Us (slots k) → UsedLess slots i k

/-- **The updates do not disturb each other.** -/
structure Undisturbed (Us : ι → ConfigUpdate R) (controller : Identity)
    (slots : Fin maxIncomingUpdates → IncomingConfigChunk)
    (calls : List (ConfigChunkCall Identity)) :
    Prop where
  kept : R.answering.Guarded (Kept Us) slots calls
  /-- an update all of whose chunks arrive is parsed -/
  completed :
    ∀ u, (∀ j < (Us u).count, ∃ call ∈ calls, Delivers (Us u).toConfigParts controller j call) →
    ∃ data, cString data = (Us u).dict ∧
      ((Us u).id, data) ∈ (R.answering.runOutputs slots calls).flatMap fun o => parses o.1

/-! ### Where the updates stand -/

/-- Each update stands in one slot or in none. -/
structure Concurrent (Us : ι → ConfigUpdate R)
    (slots : Fin maxIncomingUpdates → IncomingConfigChunk)
    (filed : ι → Filed Identity) : Prop where
  sized : R.Sized slots
  progress : ∀ u, Progress (Us u) slots (filed u)

section Standing

variable {Us : ι → ConfigUpdate R} {controller : Identity}
  {slots : Fin maxIncomingUpdates → IncomingConfigChunk} {filed : ι → Filed Identity}
  {call : ConfigChunkCall Identity} {u : ι} {j : ℕ}

theorem Progress.holds {U : ConfigUpdate R} {filed : Filed Identity} (h : Progress U slots filed)
    {k : Fin maxIncomingUpdates} (hk : (slots k).updateId = U.id) : Holds U (slots k) filed := by
  rcases h.slot with ⟨i, hi, hothers⟩ | ⟨-, hnone⟩
  · have hki : k = i := by
      by_contra hne
      exact hothers k hne hk
    rwa [hki]
  · exact absurd hk (hnone k)

theorem Concurrent.incomplete_iff (hw : 32 ≤ R.width) (h : Concurrent Us slots filed)
    (k : Fin maxIncomingUpdates) :
    Incomplete Us (slots k) ↔ ∃ v, (slots k).updateId = (Us v).id ∧ ¬AllFiled (Us v) (filed v) := by
  refine exists_congr fun v => and_congr_right fun hid => ?_
  rw [ne_eq, ((h.progress v).holds hid).haveBytes hw]

/-- **An update that has no slot finds one** that holds no incomplete update: the others are
too few to fill them. -/
theorem Concurrent.exists_free [Fintype ι] (hcard : Fintype.card ι ≤ maxIncomingUpdates)
    (h : Concurrent Us slots filed) (hnew : ∀ k, (slots k).updateId ≠ (Us u).id) :
    ∃ i, ¬Incomplete Us (slots i) := by
  by_contra hall
  push Not at hall
  choose f hf using hall
  have hinj : Function.Injective f := by
    intro k l hkl
    rcases (h.progress (f k)).slot with ⟨i, -, hothers⟩ | ⟨-, hnone⟩
    · have hi : ∀ m, (slots m).updateId = (Us (f k)).id → m = i := by
        intro m hm
        by_contra hne
        exact hothers m hne hm
      rw [hi k (hf k).1, hi l (hkl ▸ (hf l).1)]
    · exact absurd (hf k).1 (hnone k)
  have hlt : Fintype.card (Fin maxIncomingUpdates) < Fintype.card ι := by
    refine Fintype.card_lt_of_injective_of_notMem f hinj (b := u) ?_
    rintro ⟨k, rfl⟩
    exact hnew k (hf k).1
  rw [Fintype.card_fin] at hlt
  exact absurd hcard (not_le.mpr hlt)

/-- The condition is that the victim holds no incomplete update. -/
theorem spared_iff (hw : 32 ≤ R.width) (hids : Function.Injective fun u => (Us u).id)
    (hs : ∀ u, R.Signs (Us u).toConfigParts controller)
    (hd : Delivers (Us u).toConfigParts controller j call) (hj : j < (Us u).count) :
    Spared Us controller slots call ↔
      ((∀ k, (slots k).updateId ≠ (Us u).id) → ¬Incomplete Us (slots (victim slots))) := by
  constructor
  · intro h hnew hvictim
    obtain ⟨i, hi, hless⟩ := h u j hj hd hnew
    rcases victim_least slots i with rfl | hlt
    · exact hi hvictim
    · exact hlt.asymm (hless _ hvictim)
  · intro h v k hk hd' hnew
    obtain rfl : v = u := hids (congrArg ConfigChunk.updateId
      (hd'.chunk_eq hw (hs v) (hs u) hk hj hd))
    refine ⟨victim slots, h hnew, fun l hl => ?_⟩
    rcases victim_least slots l with rfl | hlt
    · exact absurd hl (h hnew)
    · exact hlt

/-- **One step leaves the incomplete updates alone exactly when the victim, if one is needed,
holds none of them.** -/
theorem kept_iff_spared [Fintype ι] (hcard : Fintype.card ι ≤ maxIncomingUpdates)
    (hw : 32 ≤ R.width) (hids : Function.Injective fun u => (Us u).id)
    (hs : ∀ u, R.Signs (Us u).toConfigParts controller) (h : Concurrent Us slots filed)
    (hd : Delivers (Us u).toConfigParts controller j call) (hj : j < (Us u).count) :
    Kept Us slots call ↔ Spared Us controller slots call := by
  rw [spared_iff hw hids hs hd hj]
  rcases answering_step hw (hs u) hd hj (h.progress u) h.sized with
    ⟨hdup, hstep⟩ | ⟨-, i, t, effects, id, hstep, ht, hothers, hvictim, -, -⟩
  · -- a duplicate: the update has a slot, and nothing changes
    unfold Kept
    rw [hstep]
    refine iff_of_true (fun _ _ _ => rfl) fun hnew => ?_
    rcases (h.progress u).slot with ⟨i, hi, -⟩ | ⟨hnil, -⟩
    · exact absurd hi.updateId (hnew i)
    · rw [hnil] at hdup
      cases hdup
  unfold Kept
  rw [hstep]
  dsimp only
  by_cases hid : (slots i).updateId = (Us u).id
  · -- the update has a slot already
    refine iff_of_true (fun _ k _ => ?_) fun hnew => absurd hid (hnew i)
    by_cases hk : k = i
    · rw [hk, Function.update_self, ht.updateId, hid]
    · rw [Function.update_of_ne hk]
  · -- the update takes the victim
    obtain ⟨hnew, rfl⟩ := hvictim hid
    constructor
    · intro hkept _ hincomplete
      have hlost := hkept (h.exists_free hcard hnew) _ hincomplete
      rw [Function.update_self, ht.updateId] at hlost
      exact hid hlost.symm
    · intro hfree _ k hincomplete
      have hk : k ≠ victim slots := by
        rintro rfl
        exact hfree hnew hincomplete
      rw [Function.update_of_ne hk]

/-- What a slot that another update takes leaves of an update. -/
theorem Progress.of_update {U : ConfigUpdate R} {filed : Filed Identity}
    (h : Progress U slots filed)
    {i : Fin maxIncomingUpdates} {t : IncomingConfigChunk} (ht : t.updateId ≠ U.id) :
    Progress U (Function.update slots i t) (if (slots i).updateId = U.id then [] else filed) := by
  have hupdate : ∀ k, (k ≠ i → (slots k).updateId ≠ U.id) →
      (Function.update slots i t k).updateId ≠ U.id := by
    intro k hk
    by_cases hki : k = i
    · rwa [hki, Function.update_self]
    · rw [Function.update_of_ne hki]
      exact hk hki
  rcases h.slot with ⟨k, hk, hothers⟩ | ⟨rfl, hnone⟩
  · by_cases hki : k = i
    · subst hki
      rw [if_pos hk.updateId]
      exact ⟨Or.inr ⟨rfl, fun l => hupdate l (hothers l)⟩⟩
    · rw [if_neg (hothers i (Ne.symm hki))]
      refine ⟨Or.inl ⟨k, ?_, fun l hl => hupdate l fun _ => hothers l hl⟩⟩
      rwa [Function.update_of_ne hki]
  · rw [ite_self]
    exact ⟨Or.inr ⟨rfl, fun l => hupdate l fun _ => hnone l⟩⟩

/-- **One chunk of one of the updates.**  What it costs another is all or nothing, and nothing when
the condition is met. -/
theorem concurrent_step (hw : 32 ≤ R.width) (hids : Function.Injective fun u => (Us u).id)
    (hs : ∀ u, R.Signs (Us u).toConfigParts controller) (h : Concurrent Us slots filed)
    (hd : Delivers (Us u).toConfigParts controller j call) (hj : j < (Us u).count) :
    ∃ filed', Concurrent Us (R.answering.step slots call).1 filed' ∧
      (Spared Us controller slots call →
        ∀ v, v ≠ u → ¬AllFiled (Us v) (filed v) → filed' v = filed v) ∧
      (∀ k < (Us u).count, (Us u).chunk k ∈ (filed u).map Prod.snd ∨ k = j →
        (Us u).chunk k ∈ (filed' u).map Prod.snd) ∧
      (¬AllFiled (Us u) (filed u) → AllFiled (Us u) (filed' u) →
        ∃ data, cString data = (Us u).dict ∧ ((Us u).id, data) ∈
          (R.answering.step slots call).2.flatMap fun o => parses o.1) := by
  rcases answering_step hw (hs u) hd hj (h.progress u) h.sized with
    ⟨hdup, hstep⟩ | ⟨-, i, t, effects, id, hstep, ht, hothers, hvictim, -, hlast⟩
  · -- a duplicate changes nothing
    rw [hstep]
    refine ⟨filed, h, fun _ _ _ _ => rfl, ?_, fun hsome hall => absurd hall hsome⟩
    rintro k - (hk | rfl)
    · exact hk
    · exact hdup
  have hsized := sized_step h.sized call
  rw [hstep] at hsized ⊢
  classical
  -- the update gets the chunk, and the one that was in its slot loses all of its own
  refine ⟨Function.update (fun v => if (slots i).updateId = (Us v).id then [] else filed v) u
    (filed u ++ [(call, (Us u).chunk j)]), ⟨hsized, fun v => ?_⟩,
    fun hspared v hv hsome => ?_, ?_, ?_⟩
  · by_cases hv : v = u
    · subst hv
      rw [Function.update_self]
      exact Progress.update ht hothers
    · rw [Function.update_of_ne hv]
      refine (h.progress v).of_update ?_
      rw [ht.updateId]
      exact fun heq => hv (hids heq).symm
  · -- no incomplete update was in the slot
    rw [Function.update_of_ne hv]
    refine if_neg fun hid => ?_
    have hne : (slots i).updateId ≠ (Us u).id := fun heq => hv (hids (hid.symm.trans heq))
    obtain ⟨hnew, rfl⟩ := hvictim hne
    exact (spared_iff hw hids hs hd hj).mp hspared hnew
      ((h.incomplete_iff hw _).mpr ⟨v, hid, hsome⟩)
  · rw [Function.update_self, List.map_append]
    rintro k - (hk | rfl)
    · exact List.mem_append_left _ hk
    · exact List.mem_append_right _ (List.mem_singleton.mpr rfl)
  · rw [Function.update_self]
    intro _ hall
    obtain ⟨data, hdata, hparses, -⟩ := hlast hall
    refine ⟨data, hdata, ?_⟩
    rw [List.flatMap_singleton, hparses]
    exact List.mem_singleton_self _

variable {calls : List (ConfigChunkCall Identity)}

/-- In a run that meets the condition, an incomplete update is parsed when its chunks have
arrived. -/
theorem completed_of_spared (hw : 32 ≤ R.width) (hids : Function.Injective fun u => (Us u).id)
    (hs : ∀ u, R.Signs (Us u).toConfigParts controller)
    (hcalls : ∀ call ∈ calls, ∃ u, ∃ j < (Us u).count,
      Delivers (Us u).toConfigParts controller j call)
    (h : Concurrent Us slots filed)
    (hspared : R.answering.Guarded (Spared Us controller) slots calls)
    (hsome : ¬AllFiled (Us u) (filed u))
    (hall : ∀ j < (Us u).count, (Us u).chunk j ∈ (filed u).map Prod.snd ∨
      ∃ call ∈ calls, Delivers (Us u).toConfigParts controller j call) :
    ∃ data, cString data = (Us u).dict ∧
      ((Us u).id, data) ∈ (R.answering.runOutputs slots calls).flatMap fun o => parses o.1 := by
  induction calls generalizing slots filed with
  | nil =>
      refine absurd (fun j hj => ?_) hsome
      rcases hall j hj with hfiled | ⟨call, hcall, -⟩
      · exact hfiled
      · cases hcall
  | cons call calls ih =>
      obtain ⟨v, j, hj, hd⟩ := hcalls call List.mem_cons_self
      obtain ⟨filed', h', hothers, hfiled', hparsed⟩ := concurrent_step hw hids hs h hd hj
      have hothers := hothers hspared.1
      have hrest := fun call' hc => hcalls call' (List.mem_cons_of_mem call hc)
      rw [Machine.runOutputs_cons, List.flatMap_append]
      by_cases hdone : AllFiled (Us u) (filed' u)
      · -- its last chunk
        have huv : u = v := by
          by_contra hne
          exact hsome (hothers u hne hsome ▸ hdone)
        subst huv
        obtain ⟨data, hdata, hmem⟩ := hparsed hsome hdone
        exact ⟨data, hdata, List.mem_append_left _ hmem⟩
      · obtain ⟨data, hdata, hmem⟩ := ih hrest h' hspared.2 hdone fun k hk => by
          rcases hall k hk with hfiled | ⟨call', hcall', hd'⟩
          · by_cases huv : u = v
            · subst huv
              exact Or.inl (hfiled' k hk (Or.inl hfiled))
            · rw [hothers u huv hsome]
              exact Or.inl hfiled
          · rcases List.mem_cons.mp hcall' with rfl | hcall'
            · have hchunk := hd'.chunk_eq hw (hs u) (hs v) hk hj hd
              obtain rfl : u = v := hids (congrArg ConfigChunk.updateId hchunk)
              exact Or.inl (hfiled' k hk (Or.inr (chunk_inj hk hj hchunk)))
            · exact Or.inr ⟨call', hcall', hd'⟩
        exact ⟨data, hdata, List.mem_append_right _ hmem⟩

/-- A run keeps the incomplete updates exactly when it meets the condition. -/
theorem guarded_kept_iff [Fintype ι] (hcard : Fintype.card ι ≤ maxIncomingUpdates)
    (hw : 32 ≤ R.width) (hids : Function.Injective fun u => (Us u).id)
    (hs : ∀ u, R.Signs (Us u).toConfigParts controller)
    (hcalls : ∀ call ∈ calls, ∃ u, ∃ j < (Us u).count,
      Delivers (Us u).toConfigParts controller j call)
    (h : Concurrent Us slots filed) :
    R.answering.Guarded (Kept Us) slots calls ↔
      R.answering.Guarded (Spared Us controller) slots calls := by
  induction calls generalizing slots filed with
  | nil => exact Iff.rfl
  | cons call calls ih =>
      obtain ⟨u, j, hj, hd⟩ := hcalls call List.mem_cons_self
      have hrest := fun call' hc => hcalls call' (List.mem_cons_of_mem call hc)
      have hiff := kept_iff_spared hcard hw hids hs h hd hj
      constructor
      · rintro ⟨hkept, hmore⟩
        obtain ⟨filed', h', -⟩ := concurrent_step hw hids hs h hd hj
        exact ⟨hiff.mp hkept, (ih hrest h').mp hmore⟩
      · rintro ⟨hspared, hmore⟩
        obtain ⟨filed', h', -⟩ := concurrent_step hw hids hs h hd hj
        exact ⟨hiff.mpr hspared, (ih hrest h').mpr hmore⟩

/-- **At most three updates leave each other alone**, and each is parsed once its chunks have
arrived, exactly in the runs that meet the condition. -/
theorem undisturbed_iff [Fintype ι] (hwidth : R.width = 32 ∨ R.width = 64)
    (hcard : Fintype.card ι ≤ maxIncomingUpdates) (hids : Function.Injective fun u => (Us u).id)
    (hne : ∀ u, (Us u).pieces ≠ []) (hs : ∀ u, R.Signs (Us u).toConfigParts controller)
    (history : List (ConfigChunkCall Identity))
    (hnew : ∀ u i, (R.answering.runState (initialSlots R.capacity) history i).updateId ≠ (Us u).id)
    (hcalls : ∀ call ∈ calls, ∃ u, ∃ j < (Us u).count,
      Delivers (Us u).toConfigParts controller j call) :
    Undisturbed Us controller (R.answering.runState (initialSlots R.capacity) history) calls ↔
      R.answering.Guarded (Spared Us controller)
        (R.answering.runState (initialSlots R.capacity) history) calls := by
  have hw : 32 ≤ R.width := by omega
  have hstart : Concurrent Us (R.answering.runState (initialSlots R.capacity) history)
      (fun _ => ([] : Filed Identity)) :=
    ⟨sized_run sized_initial history, fun u => ⟨Or.inr ⟨rfl, hnew u⟩⟩⟩
  have hiff := guarded_kept_iff hcard hw hids hs hcalls hstart
  refine ⟨fun h => hiff.mp h.kept, fun h => ⟨hiff.mpr h, fun u hall => ?_⟩⟩
  have hsome : ¬AllFiled (Us u) ([] : Filed Identity) := by
    intro hfiled
    cases hfiled 0 (List.length_pos_iff.mpr (hne u))
  exact completed_of_spared hw hids hs hcalls hstart h hsome fun j hj => Or.inr (hall j hj)

end Standing

/-! ### Small updates -/

/-- Updates of two bytes, in two chunks.  The chunk index is all that their signatures tell. -/
def samplePair (k : Fin 4) : ConfigParts where
  nwid := 0x100
  id := BitVec.ofNat 64 (k + 1)
  pieces := [[65], [66]]
  sign := fun m => m.getLastD 0 :: List.replicate 95 0

/-- They can be received. -/
def sampleUpdate (k : Fin 4) : ConfigUpdate (sampleReceiver 64) where
  toConfigParts := samplePair k
  id_ne_zero := by
    revert k
    decide
  length_sign := fun _ => rfl
  piece_ne_nil := show ∀ p ∈ ([[65], [66]] : List Bytes), p ≠ [] by decide
  length_piece := show ∀ p ∈ ([[65], [66]] : List Bytes), p.length < 2 ^ 16 by decide
  count_le := show 2 ≤ 65536 / 1024 + 1 by decide
  fits := show 2 < 65536 by norm_num
  length_dict := show 2 < 2 ^ 32 by norm_num
  no_null := show ∀ x ∈ ([65, 66] : Bytes), x ≠ 0 by simp
  chunkId_inj := by
    revert k
    decide +kernel

/-- A chunk arrives. -/
def sampleDelivery (k : Fin 4) (j : ℕ) : ConfigChunkCall Unit where
  packetId := 9
  source := 1
  chunk := (sampleUpdate k).payload j
  ptr := 0
  destroyed := false
  controllerIdentity := some ()
  members := []

theorem sampleDelivery_delivers (k : Fin 4) (j : ℕ) :
    Delivers (sampleUpdate k).toConfigParts () j (sampleDelivery k j) :=
  ⟨⟨[], (List.nil_append _).symm, rfl⟩, rfl, rfl⟩

/-- Two of the updates. -/
def sampleUpdates (u : Fin 2) : ConfigUpdate (sampleReceiver 64) := sampleUpdate (u.natAdd 2)

/-- Their chunks, interleaved. -/
def sampleInterleaved : List (ConfigChunkCall Unit) :=
  [sampleDelivery 2 0, sampleDelivery 3 0, sampleDelivery 2 1, sampleDelivery 3 1]

theorem sampleInterleaved_delivers : ∀ call ∈ sampleInterleaved, ∃ u, ∃ j < (sampleUpdates u).count,
    Delivers (sampleUpdates u).toConfigParts () j call := by
  have hcall : ∀ (u : Fin 2) (j : Fin 2), ∃ u', ∃ j' < (sampleUpdates u').count,
      Delivers (sampleUpdates u').toConfigParts () j' (sampleDelivery (u.natAdd 2) j) :=
    fun u j => ⟨u, j, j.isLt, sampleDelivery_delivers _ _⟩
  simp only [sampleInterleaved, List.forall_mem_cons]
  exact ⟨hcall 0 0, hcall 1 0, hcall 0 1, hcall 1 1, List.forall_mem_nil _⟩

/-- The two updates at a network just created. -/
theorem undisturbed_iff_sample :
    Undisturbed sampleUpdates () ((sampleReceiver 64).answering.runState (initialSlots 65536) [])
        sampleInterleaved ↔
      (sampleReceiver 64).answering.Guarded (Spared sampleUpdates ())
        ((sampleReceiver 64).answering.runState (initialSlots 65536) []) sampleInterleaved := by
  refine undisturbed_iff (Or.inr rfl) (by decide) (by decide) (by decide) (fun _ _ => rfl) [] ?_
    sampleInterleaved_delivers
  intro u i hid
  exact (sampleUpdates u).id_ne_zero hid.symm

/-- The slots of a network that has received two other updates. -/
def sampleSlots : Fin maxIncomingUpdates → IncomingConfigChunk :=
  (sampleReceiver 64).answering.runState (initialSlots 65536)
    [sampleDelivery 0 0, sampleDelivery 0 1, sampleDelivery 1 0, sampleDelivery 1 1]

/-- **Two updates that disturb each other.**  The slots of the others have been used twice and
that of the first one time, when the first chunk of the second arrives and takes it. -/
theorem disturbed : (∀ u i, (sampleSlots i).updateId ≠ (sampleUpdates u).id) ∧
    ¬Undisturbed sampleUpdates () sampleSlots sampleInterleaved := by
  refine ⟨by decide +kernel, fun h => ?_⟩
  have hrun : (sampleReceiver 64).answering.Guarded (Kept sampleUpdates) sampleSlots
      ([sampleDelivery 2 0] ++ sampleDelivery 3 0 :: [sampleDelivery 2 1, sampleDelivery 3 1]) :=
    h.kept
  have hkept := (Machine.guarded_append_cons.mp hrun).2.1
  have hother : ((sampleReceiver 64).answering.runState sampleSlots [sampleDelivery 2 0] 0).updateId
      = 1 := by
    decide +kernel
  have hfirst : ((sampleReceiver 64).answering.runState sampleSlots [sampleDelivery 2 0] 2).updateId
      = (sampleUpdates 0).id := by
    decide +kernel
  have hbytes :
      ((sampleReceiver 64).answering.runState sampleSlots [sampleDelivery 2 0] 2).haveBytes
      ≠ (sampleUpdates 0).dict.length := by
    decide +kernel
  have hlost : (((sampleReceiver 64).answering.step ((sampleReceiver 64).answering.runState
      sampleSlots [sampleDelivery 2 0]) (sampleDelivery 3 0)).1 2).updateId
        = (sampleUpdates 1).id := by
    decide +kernel
  have hfree : ¬Incomplete sampleUpdates
      ((sampleReceiver 64).answering.runState sampleSlots [sampleDelivery 2 0] 0) := by
    rintro ⟨u, hid, -⟩
    rw [hother] at hid
    revert u
    decide
  have hsame := hkept ⟨0, hfree⟩ 2 ⟨0, hfirst, hbytes⟩
  rw [hlost, hfirst] at hsame
  exact absurd hsame (by decide)

end ConfigReceiver

end ZGalaxy
