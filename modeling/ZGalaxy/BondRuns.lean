/-
ZGalaxy/BondRuns.lean

A bond over whole runs.

The events of a bond are a nomination, a round of its background tasks, a packet that leaves and one
that comes in, a measurement that is received, and a rotation that the user asks for.  A call that
returns nothing ends the run: the state is its fault from there on (`bondMachine`).

What is written into `realIdxMap` is a row of different slots (`nodup_toBond`), so that under a
balance policy the numbers of the bonded paths belong to different slots at all times, and every
bonded path has one (`Numbered`).  That the slots still hold a path is not among this.

Main result: `numbered_runState`.
-/
import ZGalaxy.ActiveBackup
import ZGalaxy.Machine
import Mathlib.Data.List.Nodup
import Mathlib.Data.List.Sort

namespace ZGalaxy

open PeerPaths

/-! ### Events -/

/-- What happens to a bond, with what it finds around it and draws at random. -/
inductive BondEvent
  | nominate (s : Surroundings) (now : Int64) (path : Path) (estimates : PathSlot → PathEstimate)
  | background (s : Surroundings) (now : Int64) (estimates : Option (PathSlot → PathEstimate))
      (dead avoided : Int16 → Entropy)
  | outgoing (now : Int64) (flowId : Int32) (freeRandomByte : UInt8) (entropy : Entropy)
  | incoming (now : Int64) (path : Path) (flowId : Int32)
  | qos (now : Int64) (path : Path)
  | rotate (now : Int64)

namespace Bond

variable (rules : ScoreRules) (sorting : QueueSort)

/-- The tasks of a bond that its policy asks for. -/
def processPolicyTasks (b : Bond) (s : Surroundings) (now : Int64)
    (dead avoided : Int16 → Entropy) : Except BondFault Bond :=
  if b.settings.policy = .activeBackup then .ok (b.processActiveBackupTasks rules s now sorting)
  else if b.settings.policy.isBalance then b.processBalanceTasks now dead avoided
  else .ok b

/-- `Bond::processBackgroundBondTasks`, when it is time for it.  The quality is estimated now and
then. -/
def processBackgroundBondTasks (b : Bond) (s : Surroundings) (now : Int64)
    (estimates : Option (PathSlot → PathEstimate)) (dead avoided : Int16 → Entropy) :
    Except BondFault Bond :=
  let b' := b.curateBond s now false
  (estimates.elim b' b'.estimatePathQuality).processPolicyTasks rules sorting s now dead avoided

/-- One event: the bond, and the paths that were given out. -/
def handle (b : Bond) : BondEvent → Except BondFault (Bond × List (Option Path))
  | .nominate s now path estimates => .ok (b.nominatePathToBond s now path estimates, [])
  | .background s now estimates dead avoided =>
      (b.processBackgroundBondTasks rules sorting s now estimates dead avoided).map fun b => (b, [])
  | .outgoing now flowId freeRandomByte entropy =>
      (b.getAppropriatePath now flowId freeRandomByte entropy).map fun out => (out.1, [out.2])
  | .incoming now path flowId => (b.recordIncomingPacket now path flowId).map fun b => (b, [])
  | .qos now path => .ok (b.receivedQoS now path, [])
  | .rotate now => .ok (b.abForciblyRotateLink now, [])

end Bond

/-- What a run has come to: a bond, or the fault of a call. -/
abbrev BondState := Except BondFault Bond

/-- A bond over time. -/
def bondMachine (rules : ScoreRules) (sorting : QueueSort) :
    Machine BondState BondEvent (Option Path) where
  step
    | .error fault, _ => (.error fault, [])
    | .ok b, event =>
        match b.handle rules sorting event with
        | .error fault => (.error fault, [])
        | .ok out => (.ok out.1, out.2)

/-! ### The slots that are added to the bond -/

namespace Slots

variable (s : Surroundings) (paths : Slots)

/-- A slot that is put to its link is one slot more. -/
theorem perm_modify (lt : BondLink → BondLink → Bool) (link : BondLink) (i : PathSlot)
    (m : List (BondLink × List PathSlot)) :
    ((SortedMap.modify lt [] link (fun slots => slots ++ [i]) m).flatMap Prod.snd).Perm
      (i :: m.flatMap Prod.snd) := by
  induction m with
  | nil => exact List.Perm.refl _
  | cons e m ih =>
      unfold SortedMap.modify
      split_ifs with hkey hlt
      · show ((e.2 ++ [i]) ++ m.flatMap Prod.snd).Perm (i :: (e.2 ++ m.flatMap Prod.snd))
        rw [List.append_assoc]
        exact List.perm_middle
      · exact List.Perm.refl _
      · show (e.2 ++ (SortedMap.modify lt [] link _ m).flatMap Prod.snd).Perm
          (i :: (e.2 ++ m.flatMap Prod.snd))
        exact (ih.append_left e.2).trans List.perm_middle

/-- Every slot is put to one link, if any. -/
theorem nodup_foldl_addToLink (slots : List PathSlot) (m : List (BondLink × List PathSlot))
    (hslots : slots.Nodup) (hm : (m.flatMap Prod.snd).Nodup)
    (hdisj : ∀ i ∈ slots, i ∉ m.flatMap Prod.snd) :
    ((slots.foldl (addToLink s paths) m).flatMap Prod.snd).Nodup := by
  induction slots generalizing m with
  | nil => exact hm
  | cons i slots ih =>
      obtain ⟨hi, hrest⟩ := List.nodup_cons.mp hslots
      rw [List.foldl_cons]
      unfold addToLink
      rcases (paths i).p.bind s.getLink with - | link
      · exact ih m hrest hm fun k hk => hdisj k (List.mem_cons_of_mem i hk)
      · have hperm := perm_modify linkLt link i m
        refine ih _ hrest (hperm.nodup_iff.mpr (List.nodup_cons.mpr ⟨?_, hm⟩)) fun k hk hmem => ?_
        · exact hdisj i List.mem_cons_self
        · rcases List.mem_cons.mp (hperm.mem_iff.mp hmem) with rfl | hmem
          · exact hi hk
          · exact hdisj k (List.mem_cons_of_mem i hk) hmem

theorem nodup_linkMap : ((linkMap s paths).flatMap Prod.snd).Nodup :=
  nodup_foldl_addToLink s paths pathSlots [] (List.nodup_finRange _) List.nodup_nil
    fun _ _ => List.not_mem_nil

variable {paths} {needSpares : Bool} {i : PathSlot} {link : BondLink} {slots : List PathSlot}

theorem byPreference_sublist (paths : Slots) (link : BondLink) (slots : List PathSlot) :
    (byPreference paths link slots).Sublist slots := by
  unfold byPreference
  split_ifs
  · exact List.filter_sublist
  · exact List.filter_sublist
  · exact List.filter_sublist.trans List.filter_sublist
  · exact List.nil_sublist slots

/-- A path that is added by preference is eligible, and no spare. -/
theorem of_mem_byPreference (h : i ∈ byPreference paths link slots) :
    usable paths i = true ∧ (paths i).isSpare = false := by
  unfold byPreference at h
  split_ifs at h
  · have hi := (List.mem_filter.mp h).2
    simp only [Bool.and_eq_true, Bool.not_eq_true'] at hi
    exact ⟨hi.1.1, hi.2⟩
  · have hi := (List.mem_filter.mp h).2
    simp only [Bool.and_eq_true, Bool.not_eq_true'] at hi
    exact hi
  · have hi := (List.mem_filter.mp (List.mem_filter.mp h).1).2
    simp only [Bool.and_eq_true, Bool.not_eq_true'] at hi
    exact ⟨hi.1.1, hi.2⟩
  · cases h

theorem of_mem_spares (h : i ∈ spares paths slots) :
    usable paths i = true ∧ (paths i).isSpare = true := by
  have hi := (List.mem_filter.mp h).2
  simp only [Bool.and_eq_true] at hi
  exact ⟨hi.1.1, hi.2⟩

theorem mem_ofLink {e : BondLink × List PathSlot} (h : i ∈ ofLink paths needSpares e) :
    i ∈ e.2 ∧ usable paths i = true := by
  unfold ofLink at h
  rcases List.mem_append.mp h with h | h
  · split_ifs at h
    · exact ⟨List.mem_of_mem_filter h, (of_mem_spares h).1⟩
    · cases h
  · exact ⟨(byPreference_sublist paths e.1 e.2).mem h, (of_mem_byPreference h).1⟩

theorem nodup_ofLink {e : BondLink × List PathSlot} (h : e.2.Nodup) :
    (ofLink paths needSpares e).Nodup := by
  unfold ofLink
  refine List.nodup_append.mpr ⟨?_, (byPreference_sublist paths e.1 e.2).nodup h, ?_⟩
  · split_ifs
    · exact h.filter _
    · exact List.nodup_nil
  · rintro i hi k hk rfl
    split_ifs at hi
    · have hspare := (of_mem_spares hi).2
      rw [(of_mem_byPreference hk).2] at hspare
      cases hspare
    · cases hi

/-- **The slots that are added to the bond are different.** -/
theorem nodup_toBond (paths : Slots) (needSpares : Bool) : (toBond s paths needSpares).Nodup := by
  have hmap := nodup_linkMap s paths
  unfold toBond
  rw [List.nodup_flatMap] at hmap ⊢
  refine ⟨fun e he => nodup_ofLink (hmap.1 e he), hmap.2.imp fun hdisj i hi hk => ?_⟩
  exact hdisj (mem_ofLink hi).1 (mem_ofLink hk).1

/-- What is added to the bond is eligible. -/
theorem usable_of_mem_toBond (h : i ∈ toBond s paths needSpares) : usable paths i = true := by
  obtain ⟨e, -, hi⟩ := List.mem_flatMap.mp h
  exact (mem_ofLink hi).2

theorem length_toBond_le (paths : Slots) (needSpares : Bool) :
    (toBond s paths needSpares).length ≤ maxPeerNetworkPaths := by
  have h := (nodup_toBond s paths needSpares).length_le_card
  rwa [Fintype.card_fin] at h

end Slots

/-! ### What a call returns -/

/-- What a call returns, if it returns, has a property. -/
def Yields {ε α : Type} (x : Except ε α) (P : α → Prop) : Prop := ∀ a, x = .ok a → P a

section Yields

variable {ε α β : Type} {x : Except ε α} {P : α → Prop} {Q : β → Prop}

theorem yields_ok {a : α} (h : P a) : Yields (.ok a : Except ε α) P := by
  intro a' ha'
  obtain rfl := Except.ok.inj ha'
  exact h

theorem yields_error (fault : ε) : Yields (.error fault : Except ε α) P := by
  intro a ha
  cases ha

theorem Yields.bind {f : α → Except ε β} (hx : Yields x P) (hf : ∀ a, P a → Yields (f a) Q) :
    Yields (x >>= f) Q := by
  rcases x with fault | a
  · exact yields_error fault
  · exact hf a (hx a rfl)

theorem Yields.map {f : α → β} (hx : Yields x fun a => Q (f a)) : Yields (x.map f) Q := by
  rcases x with fault | a
  · exact yields_error fault
  · exact yields_ok (hx a rfl)

theorem Yields.mono {P' : α → Prop} (hx : Yields x P) (h : ∀ a, P a → P' a) : Yields x P' :=
  fun a ha => h a (hx a ha)

end Yields

/-! ### What leaves the numbers alone -/

/-- Two slots that hold the same path, in the bond or not. -/
structure SameUse (np np' : NominatedPath) : Prop where
  p : np'.p = np.p
  bonded : np'.bonded = np.bonded
  eligible : np'.eligible = np.eligible

/-- Two bonds with the same paths under the same numbers. -/
structure SameBonding (b b' : Bond) : Prop where
  settings : b'.settings = b.settings
  realIdxMap : b'.realIdxMap = b.realIdxMap
  numBondedPaths : b'.numBondedPaths = b.numBondedPaths
  rrIdx : b'.rrIdx = b.rrIdx
  use : ∀ i, SameUse (b.paths i) (b'.paths i)

theorem SameUse.refl (np : NominatedPath) : SameUse np np := ⟨rfl, rfl, rfl⟩

theorem SameBonding.refl (b : Bond) : SameBonding b b :=
  ⟨rfl, rfl, rfl, rfl, fun i => SameUse.refl (b.paths i)⟩

theorem SameBonding.trans {b b' b'' : Bond} (h : SameBonding b b') (h' : SameBonding b' b'') :
    SameBonding b b'' := by
  refine ⟨h'.settings.trans h.settings, h'.realIdxMap.trans h.realIdxMap,
    h'.numBondedPaths.trans h.numBondedPaths, h'.rrIdx.trans h.rrIdx, fun i => ⟨?_, ?_, ?_⟩⟩
  · exact (h'.use i).p.trans (h.use i).p
  · exact (h'.use i).bonded.trans (h.use i).bonded
  · exact (h'.use i).eligible.trans (h.use i).eligible

namespace Slots

/-- A slot that is written with the same path. -/
theorem sameUse_update {paths : Slots} {i : PathSlot} {np : NominatedPath}
    (h : SameUse (paths i) np) (k : PathSlot) :
    SameUse (paths k) (Function.update paths i np k) := by
  by_cases hk : k = i
  · subst hk
    rw [Function.update_self]
    exact h
  · rw [Function.update_of_ne hk]
    exact SameUse.refl _

theorem sameUse_dropFlow (paths : Slots) (o : Option PathSlot) (k : PathSlot) :
    SameUse (paths k) (paths.dropFlow o k) := by
  rcases o with - | i
  · exact SameUse.refl _
  · have hslot : SameUse (paths i) (paths i).dropFlow := ⟨rfl, rfl, rfl⟩
    exact sameUse_update hslot k

theorem sameUse_foldl_dropFlow (flows : FlowTable) (paths : Slots) (k : PathSlot) :
    SameUse (paths k) (flows.foldl (fun paths e => Slots.dropFlow paths e.2.assignedPath) paths k)
    := by
  induction flows generalizing paths with
  | nil => exact SameUse.refl _
  | cons e flows ih =>
      have hhead := sameUse_dropFlow paths e.2.assignedPath k
      have htail := ih (paths.dropFlow e.2.assignedPath)
      exact ⟨htail.p.trans hhead.p, htail.bonded.trans hhead.bonded,
        htail.eligible.trans hhead.eligible⟩

end Slots

namespace Bond

variable (b : Bond) (now : Int64)

theorem sameBonding_forget (age : UInt64) (oldest : Bool) :
    SameBonding b (b.forgetFlowsWhenNecessary now age oldest) := by
  unfold forgetFlowsWhenNecessary
  split_ifs
  · exact ⟨rfl, rfl, rfl, rfl, Slots.sameUse_foldl_dropFlow _ b.paths⟩
  · unfold forgetOldest
    rcases FlowTable.oldestFlow b.flows now with - | e
    · exact SameBonding.refl b
    · exact ⟨rfl, rfl, rfl, rfl, Slots.sameUse_dropFlow b.paths _⟩
  · exact SameBonding.refl b

theorem sameBonding_countFlow (i : PathSlot) : SameBonding b (b.countFlow i) := by
  have hslot : SameUse (b.paths i) (b.paths i).addFlow := ⟨rfl, rfl, rfl⟩
  exact ⟨rfl, rfl, rfl, rfl, Slots.sameUse_update hslot⟩

theorem sameBonding_putFlow (key : Int16) (flow : Flow) : SameBonding b (b.putFlow key flow) :=
  ⟨rfl, rfl, rfl, rfl, fun i => SameUse.refl (b.paths i)⟩

theorem sameBonding_setSlot (i : PathSlot) {np : NominatedPath} (h : SameUse (b.paths i) np) :
    SameBonding b (b.setSlot i np) := ⟨rfl, rfl, rfl, rfl, Slots.sameUse_update h⟩

theorem sameBonding_estimate (estimates : PathSlot → PathEstimate) :
    SameBonding b (b.estimatePathQuality estimates) :=
  ⟨rfl, rfl, rfl, rfl, fun _ => ⟨rfl, rfl, rfl⟩⟩

theorem sameBonding_expireFlows : SameBonding b (b.expireFlows now) := by
  unfold expireFlows
  split_ifs
  · have h := b.sameBonding_forget now bondPathExpiration false
    exact ⟨h.settings, h.realIdxMap, h.numBondedPaths, h.rrIdx, h.use⟩
  · exact SameBonding.refl b

theorem yields_assignTo (flow : Flow) (o : Option PathSlot) :
    Yields (b.assignTo flow now o) fun out => SameBonding b out.1 := by
  rcases o with - | i
  · exact yields_error _
  · exact yields_ok (b.sameBonding_countFlow i)

theorem yields_assign (flow : Flow) (reassign : Bool) (entropy : Entropy) :
    Yields (b.assignFlowToBondedPath flow now reassign entropy) fun out =>
      ∀ o ∈ out, SameBonding b o.1 := by
  have hsome : ∀ {x : Except BondFault (Bond × Flow)}, Yields x (fun out => SameBonding b out.1) →
      Yields (x.map some) fun out => ∀ o ∈ out, SameBonding b o.1 := by
    intro x hx
    refine Yields.map (hx.mono fun a ha o ho => ?_)
    obtain rfl := Option.some.inj ho
    exact ha
  have hread : ∀ (c : Prop) [Decidable c] (flow' : Flow),
      Yields (if c then .error .invalid else .ok (some (b, flow')) :
        Except BondFault (Option (Bond × Flow))) fun out => ∀ o ∈ out, SameBonding b o.1 := by
    intro c _ flow'
    split_ifs
    · exact yields_error _
    · exact yields_ok fun o ho => Option.some.inj ho ▸ SameBonding.refl b
  unfold assignFlowToBondedPath
  by_cases hnum : b.numBondedPaths = 0
  · rw [if_pos hnum]
    exact yields_ok fun o ho => absurd ho (Option.not_mem_none o)
  · rw [if_neg hnum]
    rcases b.settings.policy with - | - | - | - | - | -
    · exact hread _ flow
    · exact hread _ _
    · exact hread _ flow
    · exact hread _ flow
    · exact hsome (b.yields_assignTo now flow _)
    · have htrue : Yields (b.awareIdx flow reassign entropy) fun _ => True := fun _ _ => trivial
      exact htrue.bind fun a _ => hsome (b.yields_assignTo now flow _)

theorem yields_createFlow (pathIdx : Option PathSlot) (flowId : Int32) (entropy : Entropy) :
    Yields (b.createFlow now pathIdx flowId entropy) fun out =>
      ∀ o ∈ out, SameBonding b o.1 := by
  unfold createFlow
  by_cases hnum : b.numBondedPaths = 0
  · rw [if_pos hnum]
    exact yields_ok fun o ho => absurd ho (Option.not_mem_none o)
  · rw [if_neg hnum]
    dsimp only
    have hevict : SameBonding b
        (if flowMaxCount ≤ b.flows.length then b.forgetFlowsWhenNecessary now 0 true else b) := by
      split_ifs
      · exact b.sameBonding_forget now 0 true
      · exact SameBonding.refl b
    generalize (if flowMaxCount ≤ b.flows.length then b.forgetFlowsWhenNecessary now 0 true else b)
      = b' at hevict ⊢
    rcases pathIdx with - | i
    · refine (b'.yields_assign now _ false entropy).bind fun o ho => ?_
      rcases o with - | out
      · refine yields_ok fun o' ho' => ?_
        obtain rfl := Option.some.inj ho'
        exact hevict.trans (b'.sameBonding_putFlow _ _)
      · refine yields_ok fun o' ho' => ?_
        obtain rfl := Option.some.inj ho'
        exact (hevict.trans (ho out rfl)).trans (out.1.sameBonding_putFlow _ _)
    · refine yields_ok fun o ho => ?_
      obtain rfl := Option.some.inj ho
      exact (hevict.trans (b'.sameBonding_countFlow i)).trans
        ((b'.countFlow i).sameBonding_putFlow _ _)

theorem yields_moveFlow (entropy : Entropy) (e : Int16 × Flow) (i : PathSlot) :
    Yields (moveFlow now b entropy e i) (SameBonding b) := by
  unfold moveFlow
  refine (b.yields_assign now e.2 true entropy).bind fun o ho => ?_
  rcases o with - | out
  · exact yields_ok (SameBonding.refl b)
  · have hdrop : SameBonding (out.1.putFlow e.1 out.2)
        { out.1.putFlow e.1 out.2 with paths := Slots.dropFlow out.1.paths (some i) } :=
      ⟨rfl, rfl, rfl, rfl, Slots.sameUse_dropFlow out.1.paths (some i)⟩
    exact yields_ok (((ho out rfl).trans (out.1.sameBonding_putFlow _ _)).trans hdrop)

theorem yields_moveFromDead (entropy : Int16 → Entropy) (flows : FlowTable) (b : Bond) :
    Yields (moveFromDead now entropy flows b) (SameBonding b) := by
  induction flows generalizing b with
  | nil => exact yields_ok (SameBonding.refl b)
  | cons e flows ih =>
      unfold moveFromDead
      rcases e.2.assignedPath with - | i
      · exact yields_error _
      · dsimp only
        by_cases hdead : NominatedPath.isDead (b.paths i) = true
        · rw [if_pos hdead]
          refine (b.yields_moveFlow now (entropy e.1) e i).bind fun b' hb' => ?_
          exact (ih b').mono fun b'' hb'' => hb'.trans hb''
        · rw [if_neg hdead]
          exact ih b

theorem yields_moveOneAvoided (entropy : Int16 → Entropy) (flows : FlowTable) (b : Bond) :
    Yields (moveOneAvoided now entropy flows b) (SameBonding b) := by
  induction flows with
  | nil => exact yields_ok (SameBonding.refl b)
  | cons e flows ih =>
      unfold moveOneAvoided
      rcases e.2.assignedPath with - | i
      · exact yields_error _
      · dsimp only
        by_cases havoided : NominatedPath.isAvoided (b.paths i) = true
        · rw [if_pos havoided]
          exact b.yields_moveFlow now (entropy e.1) e i
        · rw [if_neg havoided]
          exact ih

theorem yields_processBalanceTasks (dead avoided : Int16 → Entropy) :
    Yields (processBalanceTasks now b dead avoided) (SameBonding b) := by
  unfold processBalanceTasks
  by_cases hnum : b.numBondedPaths = 0
  · rw [if_pos hnum]
    exact yields_ok (SameBonding.refl b)
  · rw [if_neg hnum]
    dsimp only
    have hexpire := b.sameBonding_expireFlows now
    generalize expireFlows now b = b' at hexpire ⊢
    rcases b'.settings.policy with - | - | - | - | - | -
    · exact yields_ok hexpire
    · exact yields_ok hexpire
    · exact yields_ok hexpire
    · exact yields_ok hexpire
    · exact (yields_moveFromDead now dead b'.flows b').mono fun b'' h => hexpire.trans h
    · refine (yields_moveFromDead now dead b'.flows b').bind fun b'' h => ?_
      exact (yields_moveOneAvoided now avoided b''.flows b'').mono fun b₃ h₃ =>
        (hexpire.trans h).trans h₃

theorem sameBonding_noteAlive (i : PathSlot) : SameBonding b (b.noteAlive now i) := by
  unfold noteAlive
  split_ifs
  · exact SameBonding.refl b
  · exact b.sameBonding_setSlot i ⟨rfl, rfl, rfl⟩

theorem yields_learnFlow (i : PathSlot) (flowId : Int32) :
    Yields (b.learnFlow now i flowId) (SameBonding b) := by
  unfold learnFlow
  split_ifs
  · refine Yields.map ((b.yields_createFlow now (some i) flowId _).mono fun o ho => ?_)
    rcases o with - | out
    · exact SameBonding.refl b
    · exact ho out rfl
  · exact yields_ok (SameBonding.refl b)

theorem yields_recordIncoming (path : Path) (flowId : Int32) :
    Yields (b.recordIncomingPacket now path flowId) (SameBonding b) := by
  unfold recordIncomingPacket
  rcases b.getNominatedPathIdx path with - | i
  · exact yields_ok (SameBonding.refl b)
  · exact ((b.noteAlive now i).yields_learnFlow now i flowId).mono fun b' h =>
      (b.sameBonding_noteAlive now i).trans h

theorem sameBonding_receivedQoS (path : Path) : SameBonding b (b.receivedQoS now path) := by
  unfold receivedQoS
  rcases b.getNominatedPathIdx path with - | i
  · exact SameBonding.refl b
  · exact b.sameBonding_setSlot i ⟨rfl, rfl, rfl⟩

theorem yields_getPathOfFlow (flowId : Int32) (freeRandomByte : UInt8) (entropy : Entropy) :
    Yields (b.getPathOfFlow now flowId freeRandomByte entropy) fun out => SameBonding b out.1 := by
  unfold getPathOfFlow
  by_cases hflow : flowId = noFlowId
  · rw [if_pos hflow]
    exact Yields.map fun path _ => SameBonding.refl b
  · rw [if_neg hflow]
    rcases SortedMap.get flowId.toInt16 b.flows with - | flow
    · refine (b.yields_createFlow now none flowId entropy).bind fun o ho => ?_
      rcases o with - | out
      · exact yields_error _
      · exact Yields.map fun path _ => ho out rfl
    · exact Yields.map fun path _ => b.sameBonding_putFlow _ _

end Bond

/-! ### The numbers of the bonded paths -/

/-- The numbers of the paths, under a balance policy: they are of different slots, every bonded path
has one, and a slot that has one holds a bonded path or none; no path is in two slots. -/
structure Numbered (b : Bond) : Prop where
  balance : b.settings.policy.isBalance = true
  num_le : b.numBondedPaths ≤ maxPeerNetworkPaths
  isSome : ∀ j < b.numBondedPaths, (b.realIdx j).isSome = true
  inj : ∀ j < b.numBondedPaths, ∀ k < b.numBondedPaths, b.realIdx j = b.realIdx k → j = k
  hasNumber : ∀ i, (b.paths i).bonded = true → ∃ j < b.numBondedPaths, b.realIdx j = some i
  isBonded : ∀ j < b.numBondedPaths, ∀ i, b.realIdx j = some i →
    (b.paths i).p.isSome = true → (b.paths i).bonded = true
  isEligible : ∀ i, (b.paths i).bonded = true → (b.paths i).eligible = true
  onePlace : ∀ i k path, (b.paths i).p = some path → (b.paths k).p = some path → i = k
  rrIdx_lt : b.settings.policy = .balanceRR → b.numBondedPaths ≠ 0 →
    b.rrIdx.toNat < b.numBondedPaths
  rrIdx_zero : b.settings.policy ≠ .balanceRR → b.rrIdx = 0

/-- The test with which the choice of a path gives up, when there are paths. -/
theorem Numbered.has_paths {b : Bond} (hb : Numbered b) (hnum : b.numBondedPaths ≠ 0) :
    ¬(b.settings.policy.isBalance = false ∨ b.numBondedPaths = 0) := by
  rw [hb.balance]
  exact not_or.mpr ⟨fun heq => Bool.noConfusion heq, hnum⟩

theorem SameBonding.realIdx {b b' : Bond} (h : SameBonding b b') (j : ℕ) :
    b'.realIdx j = b.realIdx j := by
  unfold Bond.realIdx
  rw [h.realIdxMap]

theorem SameBonding.numbered {b b' : Bond} (h : SameBonding b b') (hb : Numbered b) :
    Numbered b' where
  balance := by
    rw [h.settings]
    exact hb.balance
  num_le := by
    rw [h.numBondedPaths]
    exact hb.num_le
  isSome j hj := by
    rw [h.realIdx]
    exact hb.isSome j (h.numBondedPaths ▸ hj)
  inj j hj k hk heq := by
    rw [h.realIdx, h.realIdx] at heq
    exact hb.inj j (h.numBondedPaths ▸ hj) k (h.numBondedPaths ▸ hk) heq
  hasNumber i hi := by
    rw [(h.use i).bonded] at hi
    obtain ⟨j, hj, hreal⟩ := hb.hasNumber i hi
    exact ⟨j, h.numBondedPaths.symm ▸ hj, (h.realIdx j).trans hreal⟩
  isBonded j hj i hreal hp := by
    rw [(h.use i).p] at hp
    rw [(h.use i).bonded]
    exact hb.isBonded j (h.numBondedPaths ▸ hj) i ((h.realIdx j).symm.trans hreal) hp
  isEligible i hi := by
    rw [(h.use i).bonded] at hi
    rw [(h.use i).eligible]
    exact hb.isEligible i hi
  onePlace i k path hi hk := by
    rw [(h.use i).p] at hi
    rw [(h.use k).p] at hk
    exact hb.onePlace i k path hi hk
  rrIdx_lt hpolicy hnum := by
    rw [h.rrIdx, h.numBondedPaths]
    exact hb.rrIdx_lt (h.settings ▸ hpolicy) (h.numBondedPaths ▸ hnum)
  rrIdx_zero hpolicy := by
    rw [h.rrIdx]
    exact hb.rrIdx_zero (h.settings ▸ hpolicy)

namespace Bond

variable {b b' : Bond} {s : Surroundings} {now : Int64} {paths : Slots} {slots : List PathSlot}

/-- The path with an index in range. -/
theorem pathAt_eq (hb : Numbered b) {j : ℕ} (hj : j < b.numBondedPaths) :
    b.pathAt j = .ok (b.bondedPath j) := by
  unfold pathAt bondedPath
  obtain ⟨i, hi⟩ := Option.isSome_iff_exists.mp (hb.isSome j hj)
  rw [hi]
  rfl

/-! ### Round robin keeps the index in range -/

theorem rrNext_lt {t : ℕ} (h : t < b.numBondedPaths) : b.rrNext t < b.numBondedPaths := by
  unfold rrNext
  split_ifs with hlast
  · omega
  · omega

theorem rrSearch_lt {n t t' : ℕ} (ht : t < b.numBondedPaths) (h : b.rrSearch n t = some t') :
    t' < b.numBondedPaths := by
  induction n generalizing t with
  | zero => cases h
  | succ n ih =>
      unfold rrSearch at h
      by_cases husable : b.rrUsable (b.rrNext t) = true
      · rw [if_pos husable] at h
        obtain rfl := Option.some.inj h
        exact rrNext_lt ht
      · rw [if_neg husable] at h
        exact ih (rrNext_lt ht) h

theorem rrAdvance_lt (hb : Numbered b) (hnum : b.numBondedPaths ≠ 0)
    (hidx : b.rrIdx.toNat < b.numBondedPaths) : b.rrAdvance.toNat < b.numBondedPaths := by
  have hle : b.numBondedPaths ≤ 64 := hb.num_le
  unfold rrAdvance
  by_cases hwrap : b.numBondedPaths = 1 ∨ maxPeerNetworkPaths - 1 ≤ b.rrIdx.toNat
  · rw [if_pos hwrap]
    exact Nat.pos_of_ne_zero hnum
  · rw [if_neg hwrap]
    rcases hsearch : b.rrSearch (b.numBondedPaths - 1) b.rrIdx.toNat with - | t
    · exact hidx
    · have hlt := rrSearch_lt hidx hsearch
      show (UInt8.ofNat t).toNat < _
      rw [UInt8.toNat_ofNat', Nat.mod_eq_of_lt (by omega)]
      exact hlt

theorem rrStep_paths (b : Bond) : b.rrStep.paths = b.paths ∧ b.rrStep.settings = b.settings ∧
    b.rrStep.realIdxMap = b.realIdxMap ∧ b.rrStep.numBondedPaths = b.numBondedPaths := by
  unfold rrStep
  split_ifs
  · exact ⟨rfl, rfl, rfl, rfl⟩
  · exact ⟨rfl, rfl, rfl, rfl⟩

theorem rrStep_realIdx (b : Bond) (j : ℕ) : b.rrStep.realIdx j = b.realIdx j := by
  unfold realIdx
  rw [(rrStep_paths b).2.2.1]

theorem rrStep_rrIdx_lt (hb : Numbered b) (hpolicy : b.settings.policy = .balanceRR)
    (hnum : b.numBondedPaths ≠ 0) : b.rrStep.rrIdx.toNat < b.numBondedPaths := by
  have hidx := hb.rrIdx_lt hpolicy hnum
  unfold rrStep
  split_ifs
  · exact hidx
  · exact rrAdvance_lt hb hnum hidx

theorem numbered_rrStep (hb : Numbered b) (hpolicy : b.settings.policy = .balanceRR)
    (hnum : b.numBondedPaths ≠ 0) : Numbered b.rrStep := by
  obtain ⟨hpaths, hsettings, -, hcount⟩ := rrStep_paths b
  have hlt := rrStep_rrIdx_lt hb hpolicy hnum
  refine ⟨?_, ?_, ?_, ?_, ?_, ?_, ?_, ?_, ?_, ?_⟩
  · rw [hsettings]
    exact hb.balance
  · rw [hcount]
    exact hb.num_le
  · intro j hj
    rw [rrStep_realIdx]
    exact hb.isSome j (hcount ▸ hj)
  · intro j hj k hk heq
    rw [rrStep_realIdx, rrStep_realIdx] at heq
    exact hb.inj j (hcount ▸ hj) k (hcount ▸ hk) heq
  · intro i hi
    rw [hpaths] at hi
    obtain ⟨j, hj, hreal⟩ := hb.hasNumber i hi
    exact ⟨j, hcount.symm ▸ hj, (rrStep_realIdx b j).trans hreal⟩
  · intro j hj i hreal hp
    rw [hpaths] at hp ⊢
    rw [rrStep_realIdx] at hreal
    exact hb.isBonded j (hcount ▸ hj) i hreal hp
  · intro i hi
    rw [hpaths] at hi ⊢
    exact hb.isEligible i hi
  · intro i k path hi hk
    rw [hpaths] at hi hk
    exact hb.onePlace i k path hi hk
  · intro _ _
    rw [hcount]
    exact hlt
  · intro hne
    rw [hsettings] at hne
    exact absurd hpolicy hne

theorem yields_getAppropriatePath (hb : Numbered b) (flowId : Int32) (freeRandomByte : UInt8)
    (entropy : Entropy) :
    Yields (b.getAppropriatePath now flowId freeRandomByte entropy) fun out => Numbered out.1 := by
  unfold getAppropriatePath
  by_cases hbackup : b.settings.policy = .activeBackup
  · exact absurd hbackup (BondPolicy.ne_activeBackup hb.balance)
  · rw [if_neg hbackup]
    by_cases hnone : b.settings.policy.isBalance = false ∨ b.numBondedPaths = 0
    · rw [if_pos hnone]
      exact yields_ok hb
    · rw [if_neg hnone]
      obtain ⟨-, hnum⟩ := not_or.mp hnone
      by_cases hrr : b.settings.policy = .balanceRR
      · rw [if_pos hrr]
        unfold getPathRR
        split_ifs
        · exact Yields.map fun path _ => hb
        · exact Yields.map fun path _ => numbered_rrStep hb hrr hnum
      · rw [if_neg hrr]
        exact (b.yields_getPathOfFlow now flowId freeRandomByte entropy).mono fun out h =>
          h.numbered hb

/-! ### Curating the bond keeps the numbers -/

/-- What the numbers are after a rebuild. -/
theorem realIdx_rebuilt (hlen : slots.length ≤ maxPeerNetworkPaths) (j : ℕ) :
    (b.rebuilt paths slots).realIdx j = slots[j]? := by
  unfold realIdx
  by_cases hj : j < maxPeerNetworkPaths
  · rw [dif_pos hj]
    rfl
  · rw [dif_neg hj]
    exact (List.getElem?_eq_none (by omega)).symm

/-- What the first loop makes of a slot: nothing if it is empty; else its path leaves, or stays and
is updated. -/
theorem curatedPaths_cases (b : Bond) (s : Surroundings) (now : Int64) (i : PathSlot) :
    ((b.paths i).p = none ∧ b.curatedPaths s now i = b.paths i) ∨
    (∃ path, (b.paths i).p = some path ∧ (b.paths i).leaves s now = true ∧
      b.curatedPaths s now i = .init) ∨
    ∃ path, (b.paths i).p = some path ∧ (b.paths i).leaves s now = false ∧
      b.curatedPaths s now i = (b.paths i).updated s b.settings now path := by
  unfold curatedPaths NominatedPath.curate
  rcases hp : (b.paths i).p with - | path
  · exact Or.inl ⟨rfl, rfl⟩
  · right
    rcases hleaves : (b.paths i).leaves s now with - | -
    · exact Or.inr ⟨path, rfl, rfl, rfl⟩
    · exact Or.inl ⟨path, rfl, rfl, rfl⟩

/-- The paths after the first loop are those of before, or none. -/
theorem curatedPaths_p (b : Bond) (s : Surroundings) (now : Int64) (i : PathSlot) :
    (b.curatedPaths s now i).p =
      if (b.paths i).leaves s now then none else (b.paths i).p := by
  rcases b.curatedPaths_cases s now i with
    ⟨hp, hcurated⟩ | ⟨path, -, hleaves, hcurated⟩ | ⟨path, -, hleaves, hcurated⟩
  · rw [hcurated, hp, ite_self]
  · rw [hcurated, hleaves, if_pos rfl]
    rfl
  · rw [hcurated, hleaves, if_neg Bool.false_ne_true]
    rfl

/-- **After a rebuild** the numbers are right. -/
theorem numbered_rebuilt (hbalance : b.settings.policy.isBalance = true) (hnodup : slots.Nodup)
    (hlen : slots.length ≤ maxPeerNetworkPaths)
    (hone : ∀ i k path, (paths i).p = some path → (paths k).p = some path → i = k)
    (helig : ∀ i ∈ slots, (paths i).eligible = true) (hrr : b.rrIdx = 0) :
    Numbered (b.rebuilt paths slots) where
  balance := hbalance
  num_le := hlen
  isSome j hj := by
    have hget : slots[j]? = some slots[j] := List.getElem?_eq_getElem hj
    rw [realIdx_rebuilt hlen, hget]
    rfl
  inj j hj k hk heq := by
    rw [realIdx_rebuilt hlen, realIdx_rebuilt hlen] at heq
    exact (List.getElem?_inj hj hnodup).mp heq
  hasNumber i hi := by
    have hmem : i ∈ slots := List.contains_iff_mem.mp hi
    obtain ⟨j, hj, hget⟩ := List.getElem_of_mem hmem
    refine ⟨j, hj, ?_⟩
    rw [realIdx_rebuilt hlen, List.getElem?_eq_getElem hj, hget]
  isBonded j hj i hreal _ := by
    rw [realIdx_rebuilt hlen] at hreal
    exact List.contains_iff_mem.mpr (List.mem_of_getElem? hreal)
  isEligible i hi := helig i (List.contains_iff_mem.mp hi)
  onePlace := hone
  rrIdx_lt _ hnum := by
    show b.rrIdx.toNat < slots.length
    rw [hrr]
    exact Nat.pos_of_ne_zero hnum
  rrIdx_zero _ := hrr

/-- A bonded path that leaves its slot or not, after the first loop. -/
theorem curatedPaths_bonded (b : Bond) (s : Surroundings) (now : Int64) (i : PathSlot)
    (h : (b.curatedPaths s now i).bonded = true) : (b.paths i).bonded = true := by
  rcases b.curatedPaths_cases s now i with
    ⟨-, hcurated⟩ | ⟨path, -, -, hcurated⟩ | ⟨path, -, -, hcurated⟩
  · rwa [hcurated] at h
  · rw [hcurated] at h
    cases h
  · rw [hcurated] at h
    exact (Bool.and_eq_true_iff.mp h).2

/-- If no slot asks for a rebuild, a bonded path that stays is bonded still. -/
theorem bonded_curatedPaths (hasks : b.someAsks s now = false) {i : PathSlot}
    (hp : (b.curatedPaths s now i).p.isSome = true) (hbonded : (b.paths i).bonded = true) :
    (b.curatedPaths s now i).bonded = true := by
  have hnone : ((b.paths i).curate s b.settings now).2 = false := by
    have hall := List.any_eq_false.mp hasks i (List.mem_finRange i)
    exact Bool.eq_false_iff.mpr hall
  rcases b.curatedPaths_cases s now i with
    ⟨hpath, hcurated⟩ | ⟨path, -, -, hcurated⟩ | ⟨path, hpath, hleaves, hcurated⟩
  · rw [hcurated, hpath] at hp
    cases hp
  · rw [hcurated] at hp
    cases hp
  · unfold NominatedPath.curate at hnone
    rw [hpath] at hnone
    dsimp only at hnone
    rw [hleaves, if_neg Bool.false_ne_true] at hnone
    rw [hcurated]
    unfold NominatedPath.asksForRebuild at hnone
    unfold NominatedPath.updated
    dsimp only at hnone ⊢
    rcases helig : (b.paths i).currEligibility s b.settings now path with - | -
    · -- it was not eligible before either, else it would ask for a rebuild
      rw [helig] at hnone
      rw [hbonded] at hnone ⊢
      have hold : (b.paths i).eligible = false := by
        rcases hold : (b.paths i).eligible with - | -
        · rfl
        · rw [hold] at hnone
          cases hnone
      rw [hold]
      rfl
    · rw [hbonded]
      rfl

/-- A path that is bonded still is eligible. -/
theorem eligible_curatedPaths {i : PathSlot} (h : (b.curatedPaths s now i).bonded = true)
    (helig : (b.paths i).eligible = true) : (b.curatedPaths s now i).eligible = true := by
  rcases b.curatedPaths_cases s now i with
    ⟨-, hcurated⟩ | ⟨path, -, -, hcurated⟩ | ⟨path, -, -, hcurated⟩
  · rw [hcurated]
    exact helig
  · rw [hcurated]
    rfl
  · rw [hcurated] at h ⊢
    obtain ⟨havoided, hbonded⟩ := Bool.and_eq_true_iff.mp h
    rw [helig, hbonded, Bool.and_true, Bool.and_true, Bool.not_not] at havoided
    exact havoided

/-- **A curated bond** has its paths numbered. -/
theorem numbered_curate (b : Bond) (s : Surroundings) (now : Int64) (rebuildBond : Bool)
    (hbalance : b.settings.policy.isBalance = true)
    (hone : ∀ i k path, (b.paths i).p = some path → (b.paths k).p = some path → i = k)
    (hrr : b.settings.policy ≠ .balanceRR → b.rrIdx = 0)
    (hkeep : rebuildBond = false → Numbered b) :
    Numbered (b.curateBond s now rebuildBond) := by
  have hone' : ∀ i k path, (b.curatedPaths s now i).p = some path →
      (b.curatedPaths s now k).p = some path → i = k := by
    intro i k path hi hk
    rw [curatedPaths_p] at hi hk
    split_ifs at hi hk
    exact hone i k path hi hk
  unfold curateBond
  dsimp only
  rw [if_pos hbalance]
  -- the bond is rebuilt from the paths of its slots, or keeps its numbers
  by_cases hrebuild : b.rebuilds s now rebuildBond = true
  · rw [if_pos hrebuild]
    generalize hslots : (b.curatedPaths s now).toBond s _ = slots
    have hnodup : slots.Nodup := hslots ▸ Slots.nodup_toBond s _ _
    have hlen : slots.length ≤ maxPeerNetworkPaths := hslots ▸ Slots.length_toBond_le s _ _
    have helig : ∀ i ∈ slots, (b.curatedPaths s now i).eligible = true := by
      intro i hi
      rw [← hslots] at hi
      exact (Bool.and_eq_true_iff.mp (Slots.usable_of_mem_toBond s hi)).2
    by_cases hpolicy : b.settings.policy = .balanceRR
    · rw [if_pos hpolicy]
      exact numbered_rebuilt (b := b.resetRR) hbalance hnodup hlen hone' helig rfl
    · rw [if_neg hpolicy]
      exact numbered_rebuilt hbalance hnodup hlen hone' helig (hrr hpolicy)
  · rw [if_neg hrebuild]
    have hfalse := Bool.eq_false_iff.mpr hrebuild
    unfold rebuilds at hfalse
    simp only [Bool.or_eq_false_iff] at hfalse
    obtain ⟨⟨⟨hnot, hasks⟩, -⟩, -⟩ := hfalse
    have hb := hkeep hnot
    refine ⟨hbalance, hb.num_le, hb.isSome, hb.inj, ?_, ?_, ?_, hone', hb.rrIdx_lt, hrr⟩
    · intro i hi
      exact hb.hasNumber i (curatedPaths_bonded b s now i hi)
    · intro j hj i hreal hp
      -- the path was there before
      have hold : (b.paths i).p.isSome = true := by
        have hp' := hp
        dsimp only at hp'
        rw [curatedPaths_p] at hp'
        split_ifs at hp'
        · cases hp'
        · exact hp'
      exact bonded_curatedPaths hasks hp (hb.isBonded j hj i hreal hold)
    · intro i hi
      exact eligible_curatedPaths hi (hb.isEligible i (curatedPaths_bonded b s now i hi))

/-- What a nomination does: nothing, or the path is put into a free slot. -/
theorem nominate_cases (b : Bond) (s : Surroundings) (now : Int64) (path : Path) :
    b.nominate s now path = (s, b) ∨
      ∃ f link, b.getNominatedPathIdx path = none ∧ b.freeSlot = some f ∧
        b.nominate s now path =
          (b.createLinks s path, b.nominateAt (b.createLinks s path) now f path link) := by
  unfold nominate
  split
  next f link hidx hfree _ => exact Or.inr ⟨f, link, hidx, hfree, rfl⟩
  next => exact Or.inl rfl

theorem nominateAt_p (b : Bond) (s : Surroundings) (now : Int64) (f : PathSlot) (path : Path)
    (link : BondLink) (j : PathSlot) : ((b.nominateAt s now f path link).paths j).p =
      if j = f then some path else (b.paths j).p := by
  unfold nominateAt
  dsimp only
  split_ifs
  · rfl
  · rfl
  · rfl

/-- A nomination puts a path into one slot more, which was free, and no path into two. -/
theorem onePlace_nominate
    (hone : ∀ i k path, (b.paths i).p = some path → (b.paths k).p = some path → i = k)
    (s : Surroundings) (now : Int64) (path : Path) (i k : PathSlot) (path' : Path)
    (hi : ((b.nominate s now path).2.paths i).p = some path')
    (hk : ((b.nominate s now path).2.paths k).p = some path') : i = k := by
  rcases b.nominate_cases s now path with h | ⟨f, link, hidx, -, h⟩
  · rw [h] at hi hk
    exact hone i k path' hi hk
  · rw [h] at hi hk
    -- the path was in no slot
    have habsent : ∀ j, (b.paths j).p ≠ some path := by
      intro j hj
      have hnot := List.find?_eq_none.mp hidx j (List.mem_finRange j)
      exact hnot (beq_iff_eq.mpr hj)
    rw [nominateAt_p] at hi hk
    split_ifs at hi hk with hif hkf hkf
    · exact hif.trans hkf.symm
    · exact absurd (hk.trans hi.symm) (habsent k)
    · exact absurd (hi.trans hk.symm) (habsent i)
    · exact hone i k path' hi hk

theorem nominate_frame (b : Bond) (s : Surroundings) (now : Int64) (path : Path) :
    (b.nominate s now path).2.settings = b.settings ∧
      (b.nominate s now path).2.rrIdx = b.rrIdx := by
  rcases b.nominate_cases s now path with h | ⟨f, link, -, -, h⟩
  · rw [h]
    exact ⟨rfl, rfl⟩
  · rw [h]
    exact ⟨rfl, rfl⟩

theorem numbered_nominatePathToBond (hb : Numbered b) (s : Surroundings) (now : Int64)
    (path : Path) (estimates : PathSlot → PathEstimate) :
    Numbered (b.nominatePathToBond s now path estimates) := by
  unfold nominatePathToBond
  dsimp only
  split_ifs
  · obtain ⟨hsettings, hrrIdx⟩ := b.nominate_frame (s.createLink path.localSocket) now path
    refine (sameBonding_estimate _ estimates).numbered (numbered_curate _ _ now true ?_ ?_ ?_ ?_)
    · rw [hsettings]
      exact hb.balance
    · exact onePlace_nominate hb.onePlace _ now path
    · intro hpolicy
      rw [hsettings] at hpolicy
      rw [hrrIdx]
      exact hb.rrIdx_zero hpolicy
    · intro h
      cases h
  · exact hb

theorem yields_background (hb : Numbered b) (rules : ScoreRules) (sorting : QueueSort)
    (s : Surroundings) (now : Int64) (estimates : Option (PathSlot → PathEstimate))
    (dead avoided : Int16 → Entropy) :
    Yields (b.processBackgroundBondTasks rules sorting s now estimates dead avoided) fun b' =>
      SameBonding (b.curateBond s now false) b' := by
  have hcurate := numbered_curate b s now false hb.balance hb.onePlace hb.rrIdx_zero fun _ => hb
  unfold processBackgroundBondTasks
  dsimp only
  have hsame : SameBonding (b.curateBond s now false)
      (estimates.elim (b.curateBond s now false)
        (b.curateBond s now false).estimatePathQuality) := by
    rcases estimates with - | estimates
    · exact SameBonding.refl _
    · exact sameBonding_estimate _ estimates
  generalize b.curateBond s now false = b₁ at hcurate hsame ⊢
  generalize estimates.elim b₁ b₁.estimatePathQuality = b₂ at hsame ⊢
  have hbalance : b₂.settings.policy.isBalance = true := (hsame.numbered hcurate).balance
  unfold processPolicyTasks
  rw [if_neg (BondPolicy.ne_activeBackup hbalance), if_pos hbalance]
  exact (b₂.yields_processBalanceTasks now dead avoided).mono fun b' h => hsame.trans h

theorem numbered_abForciblyRotateLink (hb : Numbered b) (now : Int64) :
    b.abForciblyRotateLink now = b := by
  unfold abForciblyRotateLink
  rw [if_neg (BondPolicy.ne_activeBackup hb.balance)]

/-- **Every event keeps the numbers.** -/
theorem yields_handle (hb : Numbered b) (rules : ScoreRules) (sorting : QueueSort)
    (event : BondEvent) :
    Yields (b.handle rules sorting event) fun out => Numbered out.1 := by
  rcases event with ⟨s, now, path, estimates⟩ | ⟨s, now, estimates, dead, avoided⟩ |
    ⟨now, flowId, freeRandomByte, entropy⟩ | ⟨now, path, flowId⟩ | ⟨now, path⟩ | now
  · exact yields_ok (numbered_nominatePathToBond hb s now path estimates)
  · have hcurate := numbered_curate b s now false hb.balance hb.onePlace hb.rrIdx_zero fun _ => hb
    exact Yields.map ((yields_background hb rules sorting s now estimates dead avoided).mono
      fun b' h => h.numbered hcurate)
  · exact Yields.map (yields_getAppropriatePath hb flowId freeRandomByte entropy)
  · exact Yields.map ((b.yields_recordIncoming now path flowId).mono fun b' h => h.numbered hb)
  · exact yields_ok ((b.sameBonding_receivedQoS now path).numbered hb)
  · refine yields_ok ?_
    show Numbered (b.abForciblyRotateLink now)
    rw [numbered_abForciblyRotateLink hb]
    exact hb

theorem settings_curateBond (b : Bond) (s : Surroundings) (now : Int64) (rebuildBond : Bool) :
    (b.curateBond s now rebuildBond).settings = b.settings := by
  unfold curateBond
  dsimp only
  split_ifs
  · rfl
  · rfl
  · rfl
  · rfl
  · rfl

/-- No event changes the settings. -/
theorem yields_handle_settings (hb : Numbered b) (rules : ScoreRules) (sorting : QueueSort)
    (event : BondEvent) :
    Yields (b.handle rules sorting event) fun out => out.1.settings = b.settings := by
  rcases event with ⟨s, now, path, estimates⟩ | ⟨s, now, estimates, dead, avoided⟩ |
    ⟨now, flowId, freeRandomByte, entropy⟩ | ⟨now, path, flowId⟩ | ⟨now, path⟩ | now
  · refine yields_ok ?_
    show (b.nominatePathToBond s now path estimates).settings = b.settings
    unfold nominatePathToBond
    dsimp only
    split_ifs
    · exact (settings_curateBond _ _ now true).trans (b.nominate_frame _ now path).1
    · rfl
  · refine Yields.map ((yields_background hb rules sorting s now estimates dead avoided).mono ?_)
    intro b' h
    exact h.settings.trans (settings_curateBond b s now false)
  · refine Yields.map fun out hout => ?_
    unfold getAppropriatePath at hout
    split_ifs at hout with hbackup hnone hrr
    · exact congrArg (fun out => out.1.settings) (Except.ok.inj hout).symm
    · exact congrArg (fun out => out.1.settings) (Except.ok.inj hout).symm
    · revert out
      unfold getPathRR
      split_ifs
      · exact Yields.map fun path _ => rfl
      · exact Yields.map fun path _ => (rrStep_paths b).2.1
    · exact (b.yields_getPathOfFlow now flowId freeRandomByte entropy out hout).settings
  · exact Yields.map ((b.yields_recordIncoming now path flowId).mono fun b' h => h.settings)
  · exact yields_ok (b.sameBonding_receivedQoS now path).settings
  · refine yields_ok ?_
    show (b.abForciblyRotateLink now).settings = b.settings
    rw [numbered_abForciblyRotateLink hb]

end Bond

/-! ### Runs -/

/-- A property of the bond, while there is one. -/
def OfBond (P : Bond → Prop) : BondState → Prop
  | .error _ => True
  | .ok b => P b

theorem step_ok {rules : ScoreRules} {sorting : QueueSort} {b : Bond} {event : BondEvent}
    {P : Bond → Prop} (h : Yields (b.handle rules sorting event) fun out => P out.1) :
    OfBond P ((bondMachine rules sorting).step (.ok b) event).1 := by
  unfold bondMachine
  dsimp only
  rcases hout : b.handle rules sorting event with fault | out
  · trivial
  · exact h out hout

/-- A new bond under a balance policy. -/
theorem numbered_init {settings : BondSettings} (h : settings.policy.isBalance = true) :
    Numbered (Bond.init settings) where
  balance := h
  num_le := Nat.zero_le _
  isSome j hj := absurd hj (Nat.not_lt_zero j)
  inj j hj := absurd hj (Nat.not_lt_zero j)
  hasNumber i hi := by cases hi
  isBonded j hj := absurd hj (Nat.not_lt_zero j)
  isEligible i hi := by cases hi
  onePlace i k path hi := by cases hi
  rrIdx_lt _ hnum := absurd rfl hnum
  rrIdx_zero _ := rfl

/-- **The paths are numbered in every run** of a bond under a balance policy. -/
theorem numbered_runState (rules : ScoreRules) (sorting : QueueSort) {settings : BondSettings}
    (h : settings.policy.isBalance = true) (events : List BondEvent) :
    OfBond (fun b => Numbered b ∧ b.settings = settings)
      ((bondMachine rules sorting).runState (.ok (Bond.init settings)) events) := by
  have hstep : ∀ (before : List BondEvent) (state : BondState) (event : BondEvent),
      OfBond (fun b => Numbered b ∧ b.settings = settings) state → True →
        OfBond (fun b => Numbered b ∧ b.settings = settings)
          ((bondMachine rules sorting).step state event).1 := by
    intro before state event hstate _
    rcases state with fault | b
    · trivial
    · obtain ⟨hb, hsettings⟩ := hstate
      refine step_ok fun out hout => ⟨Bond.yields_handle hb rules sorting event out hout, ?_⟩
      exact (Bond.yields_handle_settings hb rules sorting event out hout).trans hsettings
  have hinit : OfBond (fun b => Numbered b ∧ b.settings = settings) (.ok (Bond.init settings)) :=
    ⟨numbered_init h, rfl⟩
  exact Machine.invariant_run
    (I := fun _ state => OfBond (fun b => Numbered b ∧ b.settings = settings) state)
    (C := fun _ _ => True) hstep (h := []) hinit (Machine.guarded_true _ _ _)

/-- The paths of a bond that a run has come to are numbered, and its settings are those of the
start. -/
theorem numbered_of_run {rules : ScoreRules} {sorting : QueueSort} {settings : BondSettings}
    (hbalance : settings.policy.isBalance = true) {events : List BondEvent} {b : Bond}
    (hrun : (bondMachine rules sorting).runState (.ok (Bond.init settings)) events = .ok b) :
    Numbered b ∧ b.settings = settings := by
  have hreach := numbered_runState rules sorting hbalance events
  rwa [hrun] at hreach

/-- What a computed run has come to. -/
theorem exists_ok_of_map {ε α β : Type} {x : Except ε α} {f : α → β} {y : β}
    (h : x.toOption.map f = some y) : ∃ a, x = .ok a ∧ f a = y := by
  rcases x with fault | a
  · cases h
  · exact ⟨a, rfl, Option.some.inj h⟩

/-! ### Two links -/

section TwoLinks

/-- Two interfaces with a link each, and a socket on each of them.  A socket that is not opened is
on no interface. -/
def twoLinks (opened : List (BitVec 64)) : Surroundings where
  ifname socket :=
    if opened.contains socket then if socket = 1 then "eth0" else "eth1" else ""
  links name :=
    if name = "eth0" then some ⟨1, "eth0", 0, .primary, ""⟩
    else if name = "eth1" then some ⟨2, "eth1", 0, .primary, ""⟩ else none
  linkDefinitions := []
  freshPtr := 3
  lastIn _ := 1700000000000

/-- A path on each link. -/
def pathOn (socket : BitVec 64) : Path := ⟨socket.toNat, socket, .v4 0x0a000001 9993⟩

/-- Nothing is known about the quality of the paths.  No link has a capacity, so that the relative
one is zero divided by zero. -/
def noEstimates : PathSlot → PathEstimate := fun _ => ⟨none, some .nan, false⟩

/-- The settings of a bond that the user says nothing about. -/
def plainSettings (policy : BondPolicy) : BondSettings :=
  ⟨policy, true, 0, 0, 5000, 64, .always, false, false, false⟩

/-- The paths of both links are nominated. -/
def bothNominated : List BondEvent :=
  [.nominate (twoLinks [1, 2]) 1700000000000 (pathOn 1) noEstimates,
    .nominate (twoLinks [1, 2]) 1700000000000 (pathOn 2) noEstimates]

/-- Rules by which the quality does not matter. -/
def plainRules : ScoreRules := ⟨fun _ => 0, fun _ handicap => handicap, fun _ => 0⟩

/-- A sort of the queue by insertion. -/
def plainSort : QueueSort where
  sort score queue := queue.insertionSort fun i j => score j ≤ score i
  perm score queue := List.perm_insertionSort _ queue
  sorted score queue := by
    have htotal : Std.Total fun i j : PathSlot => score j ≤ score i :=
      ⟨fun i j => UInt32.le_total (score j) (score i)⟩
    have htrans : IsTrans PathSlot fun i j => score j ≤ score i :=
      ⟨fun i j k hij hjk => UInt32.le_trans hjk hij⟩
    exact List.pairwise_insertionSort _ queue

end TwoLinks

end ZGalaxy
