/-
ZGalaxy/FailoverChoice.lean

The path that `active-backup` uses.

Whatever is in the failover queue is eligible, and every live path but the active one is in it
(`Prepared`).  So a path that fails is replaced by a live one, and the front of the queue is one of
the highest score.  Under the re-selection policy `always` a primary link regains its status at
once, so that the path behind the front may be the one that is used in the end.

No path is active yet, or it has been removed: then one is selected, and where the user said which
link is a primary one no other will do (`WaitsForPrimary`).

Main results: `picksLive_picksBest`, `not_picksLive_spareOnly`.
-/
import ZGalaxy.BondRuns

namespace ZGalaxy

open PeerPaths

/-! ### What is asked of a round -/

namespace Bond

/-- The bond that the tasks of its policy find, curated and with its quality estimated or not. -/
def curated (b : Bond) (s : Surroundings) (now : Int64)
    (estimates : Option (PathSlot → PathEstimate)) : Bond :=
  estimates.elim (b.curateBond s now false) (b.curateBond s now false).estimatePathQuality

/-- The path in a slot is eligible, allowed, and has a valid link. -/
def IsLive (b : Bond) (s : Surroundings) (i : PathSlot) : Prop :=
  (b.paths i).isUsable = true ∧ (b.paths i).allowed = true ∧ (b.linkAt s i).isSome = true

section Asked

variable (b : Bond) (rules : ScoreRules) (sorting : QueueSort) (s : Surroundings) (now : Int64)

/-- **Active-backup picks a live link**: if there is one, the active index refers to one. -/
def PicksLive : Prop :=
  (∃ i, b.IsLive s i) → ∃ i, (b.processActiveBackupTasks rules s now sorting).abPathIdx = some i ∧
    (b.processActiveBackupTasks rules s now sorting).IsLive s i

/-- The score of a slot, with the queue prepared. -/
def queuedScore (active i : PathSlot) : UInt32 :=
  ((b.preparedQueue rules s sorting active).paths i).failoverScore

/-- The failover queue, prepared. -/
def queuedSlots (active : PathSlot) : List PathSlot :=
  (b.preparedQueue rules s sorting active).abFailoverQueue

/-- **The replacement of a path that is not eligible** is one of the highest score in the queue. -/
def PicksBest : Prop :=
  ∀ active, b.presentActive = some active → (b.paths active).eligible = false →
    b.queuedSlots rules sorting s active ≠ [] →
      ∃ i ∈ b.queuedSlots rules sorting s active,
        (b.processActiveBackupTasks rules s now sorting).abPathIdx = some i ∧
          ∀ j ∈ b.queuedSlots rules sorting s active,
            b.queuedScore rules sorting s active j ≤ b.queuedScore rules sorting s active i

/-- No path is active, and the user's primary links have no eligible one. -/
def WaitsForPrimary : Prop :=
  b.presentActive = none ∧ b.settings.userHasSpecifiedLinks = true ∧
    b.settings.userHasSpecifiedPrimaryLink = true ∧ ∀ i, b.onPrimaryLink s i = false

/-- The replacement is one of the highest score, or, under `always`, the highest of the others: that
one is on a primary link, and the highest is not. -/
def PicksBestOrPrimary : Prop :=
  ∀ active, b.presentActive = some active → (b.paths active).eligible = false →
    b.queuedSlots rules sorting s active ≠ [] →
      ∃ front rest, b.queuedSlots rules sorting s active = front :: rest ∧
        (∀ j ∈ rest,
          b.queuedScore rules sorting s active j ≤ b.queuedScore rules sorting s active front) ∧
        ((b.processActiveBackupTasks rules s now sorting).abPathIdx = some front ∨
          b.settings.abLinkSelectMethod = .always ∧ b.linkIs s false front = true ∧
            ∃ next rest', rest = next :: rest' ∧ b.linkIs s true next = true ∧
              (b.processActiveBackupTasks rules s now sorting).abPathIdx = some next ∧
                ∀ j ∈ rest', b.queuedScore rules sorting s active j ≤
                  b.queuedScore rules sorting s active next)

end Asked

end Bond

/-! ### What a round leaves alone -/

/-- Two slots with the same path, eligible and allowed or not. -/
structure SameLife (np np' : NominatedPath) : Prop where
  p : np'.p = np.p
  eligible : np'.eligible = np.eligible
  ipvPref : np'.ipvPref = np.ipvPref
  negotiated : np'.negotiated = np.negotiated

theorem SameLife.refl (np : NominatedPath) : SameLife np np := ⟨rfl, rfl, rfl, rfl⟩

theorem SameLife.trans {np np' np'' : NominatedPath} (h : SameLife np np')
    (h' : SameLife np' np'') : SameLife np np'' :=
  ⟨h'.p.trans h.p, h'.eligible.trans h.eligible, h'.ipvPref.trans h.ipvPref,
    h'.negotiated.trans h.negotiated⟩

theorem SameLife.isUsable {np np' : NominatedPath} (h : SameLife np np') :
    np'.isUsable = np.isUsable := by
  unfold NominatedPath.isUsable
  rw [h.p, h.eligible]

theorem SameLife.allowed {np np' : NominatedPath} (h : SameLife np np') :
    np'.allowed = np.allowed := by
  unfold NominatedPath.allowed NominatedPath.addr
  rw [h.p, h.ipvPref]

/-- Two bonds with the same settings and paths. -/
structure SameLives (b b' : Bond) : Prop where
  settings : b'.settings = b.settings
  life : ∀ i, SameLife (b.paths i) (b'.paths i)

theorem SameLives.refl (b : Bond) : SameLives b b := ⟨rfl, fun _ => SameLife.refl _⟩

theorem SameLives.trans {b b' b'' : Bond} (h : SameLives b b') (h' : SameLives b' b'') :
    SameLives b b'' :=
  ⟨h'.settings.trans h.settings, fun i => (h.life i).trans (h'.life i)⟩

theorem SameLives.linkAt {b b' : Bond} (h : SameLives b b') (s : Surroundings) (i : PathSlot) :
    b'.linkAt s i = b.linkAt s i := by
  unfold Bond.linkAt
  rw [(h.life i).p]

theorem SameLives.isLive {b b' : Bond} (h : SameLives b b') (s : Surroundings) (i : PathSlot) :
    b'.IsLive s i ↔ b.IsLive s i := by
  unfold Bond.IsLive
  rw [(h.life i).isUsable, (h.life i).allowed, h.linkAt]

namespace Bond

variable (b : Bond) (rules : ScoreRules) (s : Surroundings) (now : Int64)

/-- A slot that is written with the same path. -/
theorem sameLife_update (paths : Slots) {i : PathSlot} {np : NominatedPath}
    (h : SameLife (paths i) np) (j : PathSlot) :
    SameLife (paths j) (Function.update paths i np j) := by
  by_cases hj : j = i
  · subst hj
    rw [Function.update_self]
    exact h
  · rw [Function.update_of_ne hj]
    exact SameLife.refl _

theorem sameLives_scoreSlot (i : PathSlot) (score : UInt32) : SameLives b (b.scoreSlot i score) :=
  ⟨rfl, sameLife_update b.paths ⟨rfl, rfl, rfl, rfl⟩⟩

theorem sameLives_clearScores : SameLives b b.clearScores := by
  refine ⟨rfl, fun i => ?_⟩
  unfold clearScores
  dsimp only
  split_ifs
  · exact ⟨rfl, rfl, rfl, rfl⟩
  · exact SameLife.refl _

theorem sameLives_inheritScores (failover : Option BondLink) (handicap : UInt32) :
    SameLives b (b.inheritScores s failover handicap) := by
  unfold inheritScores
  rcases failover with - | link
  · exact SameLives.refl b
  · refine ⟨rfl, fun j => ?_⟩
    dsimp only
    split_ifs
    · exact ⟨rfl, rfl, rfl, rfl⟩
    · exact SameLife.refl _

theorem sameLives_enqueuePath (active i : PathSlot) : SameLives b (b.enqueuePath active i) := by
  unfold enqueuePath
  split_ifs
  · exact SameLives.refl b
  · exact ⟨rfl, sameLife_update b.paths ⟨rfl, rfl, rfl, rfl⟩⟩

/-! ### The failover queue -/

/-- One turn of a loop that builds the queue: a usable path is put at its end, or none, and a live
path that is not the active one is in it then, so that it is not empty. -/
structure QueueTurn (s : Surroundings) (active : PathSlot) (b : Bond) (i : PathSlot) (b' : Bond) :
    Prop where
  lives : SameLives b b'
  abPathIdx : b'.abPathIdx = b.abPathIdx
  grows : b'.abFailoverQueue = b.abFailoverQueue ∨
    b'.abFailoverQueue = b.abFailoverQueue ++ [i] ∧ (b.paths i).isUsable = true
  queues : b.IsLive s i → (b.paths i).p ≠ (b.paths active).p → b'.abFailoverQueue ≠ []

/-- The turn of a path that may not be used. -/
theorem queueTurn_refl (active i : PathSlot) (h : ¬b.IsLive s i) : QueueTurn s active b i b :=
  ⟨SameLives.refl b, rfl, Or.inl rfl, fun hlive => absurd hlive h⟩

/-- A path is enqueued, with new scores. -/
theorem queueTurn_enqueuePath {b b' : Bond} {s : Surroundings} (active i : PathSlot)
    (hlives : SameLives b b') (hactive : b'.abPathIdx = b.abPathIdx)
    (hqueue : b'.abFailoverQueue = b.abFailoverQueue) (husable : (b.paths i).isUsable = true) :
    QueueTurn s active b i (b'.enqueuePath active i) := by
  refine ⟨hlives.trans (b'.sameLives_enqueuePath active i), ?_, ?_, fun _ hne => ?_⟩
  · unfold enqueuePath
    split_ifs
    · exact hactive
    · exact hactive
  · unfold enqueuePath
    split_ifs
    · exact Or.inl hqueue
    · exact Or.inr ⟨congrArg (· ++ [i]) hqueue, husable⟩
  · -- another path than the active one: it is in the queue already, or it is put there
    have hother : ((b'.paths i).p == (b'.paths active).p) = false := by
      rw [(hlives.life i).p, (hlives.life active).p]
      exact beq_eq_false_iff_ne.mpr hne
    unfold enqueuePath
    rw [hother, Bool.false_or]
    by_cases hqueued : b'.isQueued i = true
    · rw [if_pos hqueued]
      obtain ⟨j, hj, -⟩ := List.any_eq_true.mp hqueued
      exact List.ne_nil_of_mem hj
    · rw [if_neg hqueued]
      exact List.append_ne_nil_of_right_ne_nil _ (List.cons_ne_nil i [])

/-- A path with a link that is a candidate is live, and only such a path. -/
theorem isLive_iff {link : BondLink} {i : PathSlot} (hlink : b.linkAt s i = some link) :
    b.IsLive s i ↔ b.isCandidate i = true := by
  unfold IsLive isCandidate
  rw [hlink, Bool.and_eq_true]
  exact ⟨fun h => ⟨h.1, h.2.1⟩, fun h => ⟨h.1, h.2, rfl⟩⟩

theorem not_isLive_of_linkAt {i : PathSlot} (hlink : b.linkAt s i = none) : ¬b.IsLive s i := by
  rintro ⟨-, -, hsome⟩
  rw [hlink] at hsome
  cases hsome

theorem queueTurn_followInstructions (active i : PathSlot) :
    QueueTurn s active b i (followInstructions rules s active b i) := by
  unfold followInstructions
  rcases hlink : b.linkAt s i with - | link
  · exact b.queueTurn_refl s active i (b.not_isLive_of_linkAt s hlink)
  · dsimp only
    split_ifs with hcandidate
    · generalize b.instructedHandicap link i = handicap
      generalize b.ownScore rules i handicap = score
      have hscored := b.sameLives_scoreSlot i score
      refine queueTurn_enqueuePath active i (hscored.trans
        ((b.scoreSlot i score).sameLives_inheritScores s (failoverLink s link) handicap)) ?_ ?_
          (Bool.and_eq_true_iff.mp hcandidate).1
      · unfold inheritScores
        rcases failoverLink s link with - | failover
        · rfl
        · rfl
      · unfold inheritScores
        rcases failoverLink s link with - | failover
        · rfl
        · rfl
    · exact b.queueTurn_refl s active i fun hlive => hcandidate ((b.isLive_iff s hlink).mp hlive)

theorem queueTurn_followPerformance (active i : PathSlot) :
    QueueTurn s active b i (followPerformance rules s active b i) := by
  unfold followPerformance
  rcases hlink : b.linkAt s i with - | link
  · exact b.queueTurn_refl s active i (b.not_isLive_of_linkAt s hlink)
  · dsimp only
    split_ifs with hcandidate
    · generalize rules.withHandicap (b.paths i).relativeQuality
        (b.performanceHandicap link i) = score
      exact queueTurn_enqueuePath active i (b.sameLives_scoreSlot i score) rfl rfl
        (Bool.and_eq_true_iff.mp hcandidate).1
    · exact b.queueTurn_refl s active i fun hlive => hcandidate ((b.isLive_iff s hlink).mp hlive)

/-- What a row of turns comes to: what is queued is usable, and the queue is not empty if there is a
live path that is not the active one. -/
structure QueueRow (s : Surroundings) (active : PathSlot) (b : Bond) (slots : List PathSlot)
    (b' : Bond) : Prop where
  lives : SameLives b b'
  abPathIdx : b'.abPathIdx = b.abPathIdx
  usable : ∀ j ∈ b'.abFailoverQueue, j ∈ b.abFailoverQueue ∨ (b.paths j).isUsable = true
  keeps : b.abFailoverQueue ≠ [] → b'.abFailoverQueue ≠ []
  queues : ∀ i ∈ slots, b.IsLive s i → (b.paths i).p ≠ (b.paths active).p →
    b'.abFailoverQueue ≠ []

theorem queueRow_foldl {s : Surroundings} {active : PathSlot} {turn : Bond → PathSlot → Bond}
    (hturn : ∀ b i, QueueTurn s active b i (turn b i)) (slots : List PathSlot) (b : Bond) :
    QueueRow s active b slots (slots.foldl turn b) := by
  -- on the slots: a turn adds to the queue or leaves it, so that what is queued stays
  induction slots generalizing b with
  | nil =>
      exact ⟨SameLives.refl b, rfl, fun j hj => Or.inl hj, fun h => h, fun i hi => by cases hi⟩
  | cons i slots ih =>
      have hhead := hturn b i
      have htail := ih (turn b i)
      have hkeeps : b.abFailoverQueue ≠ [] → (turn b i).abFailoverQueue ≠ [] := by
        intro hne
        rcases hhead.grows with hqueue | ⟨hqueue, -⟩
        · rw [hqueue]
          exact hne
        · rw [hqueue]
          exact List.append_ne_nil_of_right_ne_nil _ (List.cons_ne_nil i [])
      rw [List.foldl_cons]
      refine ⟨hhead.lives.trans htail.lives, htail.abPathIdx.trans hhead.abPathIdx, ?_,
        fun hne => htail.keeps (hkeeps hne), ?_⟩
      · intro j hj
        rcases htail.usable j hj with hj | husable
        · rcases hhead.grows with hqueue | ⟨hqueue, husable⟩
          · rw [hqueue] at hj
            exact Or.inl hj
          · rw [hqueue] at hj
            rcases List.mem_append.mp hj with hj | hj
            · exact Or.inl hj
            · rw [List.mem_singleton.mp hj]
              exact Or.inr husable
        · rw [(hhead.lives.life j).isUsable] at husable
          exact Or.inr husable
      · intro k hk hlive hne
        rcases List.mem_cons.mp hk with rfl | hk
        · exact htail.keeps (hhead.queues hlive hne)
        · refine htail.queues k hk ((hhead.lives.isLive s k).mpr hlive) ?_
          rw [(hhead.lives.life k).p, (hhead.lives.life active).p]
          exact hne

/-- The queue once it is prepared: it is in order, what is in it is usable, and it is not empty if
there is a live path that is not the active one. -/
structure Prepared (s : Surroundings) (active : PathSlot) (b b' : Bond) : Prop where
  lives : SameLives b b'
  abPathIdx : b'.abPathIdx = some active
  usable : ∀ j ∈ b'.abFailoverQueue, (b.paths j).isUsable = true
  queues : ∀ i, b.IsLive s i → (b.paths i).p ≠ (b.paths active).p → b'.abFailoverQueue ≠ []
  ordered : b'.abFailoverQueue.Pairwise fun i j =>
    (b'.paths j).failoverScore ≤ (b'.paths i).failoverScore

theorem prepared_of_row {active : PathSlot} {b b₁ b₂ : Bond} {s : Surroundings}
    (sorting : QueueSort) (hlives : SameLives b b₁) (hactive : b₁.abPathIdx = some active)
    (husable : ∀ j ∈ b₁.abFailoverQueue, (b.paths j).isUsable = true)
    (hrow : QueueRow s active b₁ pathSlots b₂) : Prepared s active b (b₂.sortQueue sorting) := by
  have hperm := sorting.perm (fun i => (b₂.paths i).failoverScore) b₂.abFailoverQueue
  refine ⟨⟨?_, fun i => ?_⟩, hrow.abPathIdx.trans hactive, fun j hj => ?_,
    fun i hlive hne => ?_, ?_⟩
  · exact hrow.lives.settings.trans hlives.settings
  · exact (hlives.life i).trans (hrow.lives.life i)
  · rcases hrow.usable j (hperm.mem_iff.mp hj) with hj | husable'
    · exact husable j hj
    · rw [← (hlives.life j).isUsable]
      exact husable'
  · have hqueue : b₂.abFailoverQueue ≠ [] := by
      refine hrow.queues i (List.mem_finRange i) ((hlives.isLive s i).mpr hlive) ?_
      rw [(hlives.life i).p, (hlives.life active).p]
      exact hne
    intro hnil
    refine hqueue (List.eq_nil_of_length_eq_zero ?_)
    rw [← hperm.length_eq]
    exact congrArg List.length hnil
  · exact sorting.sorted _ _

theorem prepared_preparedQueue (sorting : QueueSort) (active : PathSlot) :
    Prepared s active b (b.preparedQueue rules s sorting active) := by
  have hlives : SameLives b ((b.setActive (some active)).pruneQueue) :=
    ⟨rfl, fun _ => SameLife.refl _⟩
  have husable : ∀ j ∈ ((b.setActive (some active)).pruneQueue).abFailoverQueue,
      (b.paths j).isUsable = true := fun j hj => (List.mem_filter.mp hj).2
  unfold preparedQueue buildQueue
  split_ifs
  · have hcleared := ((b.setActive (some active)).pruneQueue).sameLives_clearScores
    exact prepared_of_row sorting (hlives.trans hcleared) rfl husable
      (queueRow_foldl (fun b i => b.queueTurn_followInstructions rules s active i) pathSlots _)
  · exact prepared_of_row sorting hlives rfl husable
      (queueRow_foldl (fun b i => b.queueTurn_followPerformance rules s active i) pathSlots _)

/-! ### The active path -/

theorem sameLives_dequeue : SameLives b (b.dequeueNextActiveBackupPath now) := by
  unfold dequeueNextActiveBackupPath
  rcases b.abFailoverQueue with - | ⟨i, rest⟩
  · exact SameLives.refl b
  · exact ⟨rfl, fun _ => SameLife.refl _⟩

theorem sameLives_noteChange (prev : Option PathSlot) : SameLives b (b.noteChange now prev) := by
  unfold noteChange
  split_ifs
  · exact ⟨rfl, fun _ => SameLife.refl _⟩
  · exact SameLives.refl b

theorem sameLives_reselect : SameLives b (b.reselect rules s now) := by
  unfold reselect
  split
  next =>
    split_ifs
    · exact b.sameLives_dequeue now
    · exact SameLives.refl b
  next => exact SameLives.refl b

theorem sameLives_failOver (active : PathSlot) : SameLives b (b.failOver now active) := by
  unfold failOver
  split_ifs
  · exact SameLives.refl b
  · exact b.sameLives_dequeue now

/-- **The paths are not changed** by the tasks of `active-backup`. -/
theorem sameLives_processActiveBackupTasks (sorting : QueueSort) :
    SameLives b (b.processActiveBackupTasks rules s now sorting) := by
  unfold processActiveBackupTasks
  rcases b.activeOrInitial s with - | active
  · exact ⟨rfl, fun _ => SameLife.refl _⟩
  · have hprepared := (b.prepared_preparedQueue rules s sorting active).lives
    dsimp only
    generalize b.preparedQueue rules s sorting active = b' at hprepared ⊢
    split_ifs
    · exact hprepared
    · exact ((hprepared.trans (b'.sameLives_failOver now active)).trans
        (sameLives_noteChange _ now b.abPathIdx)).trans (sameLives_reselect _ rules s now)

/-- The re-selection leaves the active path, or takes the front of the queue. -/
theorem reselect_cases {active : PathSlot} (h : b.abPathIdx = some active) :
    (b.reselect rules s now).abPathIdx = some active ∨
      ∃ front rest, b.abFailoverQueue = front :: rest ∧
        b.reselects rules s now front active = true ∧
          (b.reselect rules s now).abPathIdx = some front := by
  unfold reselect
  rw [h]
  rcases hqueue : b.abFailoverQueue with - | ⟨front, rest⟩
  · exact Or.inl h
  · dsimp only
    split_ifs with hreselects
    · refine Or.inr ⟨front, rest, rfl, hreselects, ?_⟩
      unfold dequeueNextActiveBackupPath
      rw [hqueue]
    · exact Or.inl h

theorem noteChange_eq (prev : Option PathSlot) :
    (b.noteChange now prev).abPathIdx = b.abPathIdx ∧
      (b.noteChange now prev).abFailoverQueue = b.abFailoverQueue ∧
      (b.noteChange now prev).paths = b.paths ∧
      (b.noteChange now prev).settings = b.settings := by
  unfold noteChange
  split_ifs
  · exact ⟨rfl, rfl, rfl, rfl⟩
  · exact ⟨rfl, rfl, rfl, rfl⟩

/-! ### Picking a live path -/

variable {b s now}

theorem onPrimaryLink_false (h : b.primaryPath s = none) (i : PathSlot) :
    b.onPrimaryLink s i = false := by
  obtain ⟨hpreferred, hothers⟩ := Option.or_eq_none_iff.mp h
  have hnot := List.find?_eq_none.mp hpreferred i (List.mem_finRange i)
  have hnone := List.filter_eq_nil_iff.mp (List.getLast?_eq_none_iff.mp hothers) i
    (List.mem_finRange i)
  rcases hprimary : b.onPrimaryLink s i with - | -
  · rfl
  · rw [hprimary, Bool.true_and] at hnot hnone
    rw [Bool.not_eq_true', Bool.not_eq_false] at hnone
    exact absurd hnone hnot

/-- A path that is selected is usable. -/
theorem isUsable_of_selectInitial {i : PathSlot} (h : b.selectInitial s = some i) :
    (b.paths i).isUsable = true := by
  unfold selectInitial at h
  split_ifs at h
  · rcases Option.or_eq_some_iff.mp h with hpreferred | ⟨-, hother⟩
    · have hi := List.find?_some hpreferred
      exact (Bool.and_eq_true_iff.mp (Bool.and_eq_true_iff.mp hi).1).1
    · have hi := (List.mem_filter.mp (List.mem_of_getLast? hother)).2
      exact (Bool.and_eq_true_iff.mp (Bool.and_eq_true_iff.mp hi).1).1
  · exact List.find?_some (p := fun i => (b.paths i).isUsable) h
  · have hi := List.find?_some (p := fun i => (b.paths i).isUsable && (b.linkAt s i).isSome) h
    exact (Bool.and_eq_true_iff.mp hi).1

/-- Where a path is live, one is selected unless the user's primary links are waited for. -/
theorem exists_activeOrInitial (hwait : ¬b.WaitsForPrimary s) {i : PathSlot}
    (hlive : b.IsLive s i) : ∃ active, b.activeOrInitial s = some active := by
  by_contra hnone
  have hnone' : b.activeOrInitial s = none := by
    rcases hactive : b.activeOrInitial s with - | active
    · rfl
    · exact absurd ⟨active, hactive⟩ hnone
  obtain ⟨hpresent, hselect⟩ := Option.or_eq_none_iff.mp hnone'
  unfold selectInitial at hselect
  split_ifs at hselect with hlinks hprimary
  · exact hwait ⟨hpresent, hlinks, hprimary, onPrimaryLink_false hselect⟩
  · exact List.find?_eq_none.mp hselect i (List.mem_finRange i) hlive.1
  · refine List.find?_eq_none.mp hselect i (List.mem_finRange i) ?_
    rw [hlive.1, hlive.2.2]
    rfl

/-- The active path is there. -/
theorem isSome_of_activeOrInitial {active : PathSlot} (h : b.activeOrInitial s = some active) :
    (b.paths active).p.isSome = true := by
  rcases Option.or_eq_some_iff.mp h with hpresent | ⟨-, hselect⟩
  · exact (Option.filter_eq_some_iff.mp hpresent).2
  · exact (Bool.and_eq_true_iff.mp (isUsable_of_selectInitial hselect)).1

variable (hone : ∀ i k path, (b.paths i).p = some path → (b.paths k).p = some path → i = k)
include hone

/-- A path that is not eligible leaves something in the queue if another one is live. -/
theorem queue_ne_nil {b' : Bond} {active i : PathSlot} (h : Prepared s active b b')
    (hnot : (b.paths active).isUsable = false) (hlive : b.IsLive s i) :
    b'.abFailoverQueue ≠ [] := by
  refine h.queues i hlive fun heq => ?_
  obtain ⟨hp, -⟩ := Bool.and_eq_true_iff.mp hlive.1
  obtain ⟨path, hpath⟩ := Option.isSome_iff_exists.mp hp
  obtain rfl := hone i active path hpath (heq.symm.trans hpath)
  rw [hlive.1] at hnot
  cases hnot

/-- **A live path is picked**, where every usable path is live. -/
theorem picksLive (rules : ScoreRules) (sorting : QueueSort)
    (huse : ∀ i, (b.paths i).isUsable = true → b.IsLive s i) (hwait : ¬b.WaitsForPrimary s) :
    b.PicksLive rules sorting s now := by
  rintro ⟨i, hlive⟩
  obtain ⟨active, hactive⟩ := exists_activeOrInitial hwait hlive
  have hp := isSome_of_activeOrInitial hactive
  have hlives := b.sameLives_processActiveBackupTasks rules s now sorting
  suffices hpicked : ∃ k, (b.processActiveBackupTasks rules s now sorting).abPathIdx = some k ∧
      (b.paths k).isUsable = true by
    obtain ⟨k, hk, husable⟩ := hpicked
    exact ⟨k, hk, (hlives.isLive s k).mpr (huse k husable)⟩
  have hprepared := b.prepared_preparedQueue rules s sorting active
  unfold processActiveBackupTasks
  rw [hactive]
  dsimp only
  generalize b.preparedQueue rules s sorting active = b' at hprepared ⊢
  split_ifs with hempty
  · -- nothing is queued: the active path is the live one
    refine ⟨active, hprepared.abPathIdx, ?_⟩
    rcases husable : (b.paths active).isUsable with - | -
    · exact absurd (List.isEmpty_iff.mp hempty) (queue_ne_nil hone hprepared husable hlive)
    · rfl
  · -- what is active now, and what is queued behind it
    have hfailed : ∃ k, (b'.failOver now active).abPathIdx = some k ∧
        (b.paths k).isUsable = true ∧
        ∀ j ∈ (b'.failOver now active).abFailoverQueue, (b.paths j).isUsable = true := by
      unfold failOver
      split_ifs with heligible
      · refine ⟨active, hprepared.abPathIdx, ?_, hprepared.usable⟩
        rw [(hprepared.lives.life active).eligible] at heligible
        exact Bool.and_eq_true_iff.mpr ⟨hp, heligible⟩
      · have hqueued := hprepared.usable
        unfold dequeueNextActiveBackupPath
        rcases hqueue : b'.abFailoverQueue with - | ⟨front, rest⟩
        · rw [hqueue] at hempty
          exact absurd rfl hempty
        · rw [hqueue] at hqueued
          exact ⟨front, rfl, hqueued front List.mem_cons_self,
            fun j hj => hqueued j (List.mem_cons_of_mem front hj)⟩
    obtain ⟨k, hk, husable, hrest⟩ := hfailed
    obtain ⟨hidx, hqueue, -, -⟩ := (b'.failOver now active).noteChange_eq now b.abPathIdx
    rcases reselect_cases _ rules s now (hidx.trans hk) with hsame | ⟨front, rest, hcons, -, hfront⟩
    · exact ⟨k, hsame, husable⟩
    · rw [hqueue] at hcons
      refine ⟨front, hfront, hrest front ?_⟩
      rw [hcons]
      exact List.mem_cons_self

/-! ### Replacing the active path -/

omit hone in
/-- A path that is not eligible gives way to the front of the queue. -/
theorem failOver_eq {active front : PathSlot} {rest : List PathSlot}
    (helig : (b.paths active).eligible = false) (hqueue : b.abFailoverQueue = front :: rest) :
    b.failOver now active =
      { b with
        abPathIdx := some front
        abFailoverQueue := rest
        lastActiveBackupPathChange := now.toUInt64 } := by
  unfold failOver dequeueNextActiveBackupPath
  rw [helig, if_neg Bool.false_ne_true, hqueue]

omit hone in
/-- Right after a change only `always` selects again, for a primary link. -/
theorem always_of_reselects {front active : PathSlot}
    (hscore : (b.paths front).failoverScore ≤ (b.paths active).failoverScore)
    (hnegotiated : (b.paths front).negotiated = false)
    (hchange : b.lastActiveBackupPathChange = now.toUInt64)
    (h : b.reselects rules s now front active = true) :
    b.settings.abLinkSelectMethod = .always ∧ b.linkIs s false active = true ∧
      b.linkIs s true front = true := by
  unfold reselects at h
  rcases hmethod : b.settings.abLinkSelectMethod with - | - | - | -
  · rw [hmethod] at h
    obtain ⟨hactive, hfront⟩ := Bool.and_eq_true_iff.mp h
    exact ⟨rfl, hactive, hfront⟩
  · -- better: the front has no higher score
    rw [hmethod] at h
    obtain ⟨-, hboth⟩ := Bool.and_eq_true_iff.mp h
    have hlt := of_decide_eq_true (Bool.and_eq_true_iff.mp hboth).2
    exact absurd hlt (UInt32.not_lt.mpr hscore)
  · rw [hmethod] at h
    cases h
  · -- optimize: no time has passed since the change
    rw [hmethod] at h
    dsimp only at h
    rw [hnegotiated, hchange, Bool.false_or, UInt64.sub_self] at h
    have hlt := of_decide_eq_true (Bool.and_eq_true_iff.mp h).1
    exact absurd hlt (by decide)

omit hone in
/-- **The replacement** of a path that is not eligible, where no path is negotiated. -/
theorem picksBestOrPrimary (rules : ScoreRules) (sorting : QueueSort)
    (hnegotiated : ∀ i, (b.paths i).negotiated = false) :
    b.PicksBestOrPrimary rules sorting s now := by
  intro active hpresent helig hne
  have hprepared := b.prepared_preparedQueue rules s sorting active
  have hactive : b.activeOrInitial s = some active := Option.or_eq_some_iff.mpr (Or.inl hpresent)
  unfold queuedSlots at hne ⊢
  unfold queuedScore processActiveBackupTasks
  rw [hactive]
  dsimp only
  generalize b.preparedQueue rules s sorting active = b' at hprepared hne ⊢
  rcases hqueue : b'.abFailoverQueue with - | ⟨front, rest⟩
  · exact absurd hqueue hne
  · have hordered := hprepared.ordered
    rw [hqueue] at hordered
    obtain ⟨hbest, hrest⟩ := List.pairwise_cons.mp hordered
    refine ⟨front, rest, rfl, hbest, ?_⟩
    rw [List.isEmpty_cons, if_neg Bool.false_ne_true,
      failOver_eq ((hprepared.lives.life active).eligible.trans helig) hqueue]
    -- the bond after the failover
    generalize hfailed : ({ b' with
      abPathIdx := some front
      abFailoverQueue := rest
      lastActiveBackupPathChange := now.toUInt64 } : Bond) = b₁
    have hidx₁ : b₁.abPathIdx = some front := by rw [← hfailed]
    have hqueue₁ : b₁.abFailoverQueue = rest := by rw [← hfailed]
    have hpaths₁ : b₁.paths = b'.paths := by rw [← hfailed]
    have hsettings₁ : b₁.settings = b'.settings := by rw [← hfailed]
    have hchange₁ : b₁.lastActiveBackupPathChange = now.toUInt64 := by rw [← hfailed]
    have hlives : SameLives b (b₁.noteChange now b.abPathIdx) := by
      refine hprepared.lives.trans (SameLives.trans ⟨hsettings₁, fun i => ?_⟩
        (b₁.sameLives_noteChange now b.abPathIdx))
      rw [hpaths₁]
      exact SameLife.refl _
    have hchange : (b₁.noteChange now b.abPathIdx).lastActiveBackupPathChange = now.toUInt64 := by
      unfold noteChange
      split_ifs
      · rfl
      · exact hchange₁
    obtain ⟨hidx, hqueue₂, hpaths, -⟩ := b₁.noteChange_eq now b.abPathIdx
    generalize b₁.noteChange now b.abPathIdx = b₂ at hlives hchange hidx hqueue₂ hpaths ⊢
    rcases reselect_cases b₂ rules s now (hidx.trans hidx₁) with
      hsame | ⟨next, rest', hcons, hreselects, hnext⟩
    · exact Or.inl hsame
    · -- selected once more, from what is left of the queue
      rw [hqueue₂, hqueue₁] at hcons
      obtain ⟨hhighest, -⟩ := List.pairwise_cons.mp (hcons ▸ hrest)
      have hscore : (b₂.paths next).failoverScore ≤ (b₂.paths front).failoverScore := by
        rw [hpaths, hpaths₁]
        refine hbest next ?_
        rw [hcons]
        exact List.mem_cons_self
      have hnot : (b₂.paths next).negotiated = false :=
        (hlives.life next).negotiated.trans (hnegotiated next)
      obtain ⟨halways, hfront, hprimary⟩ := always_of_reselects rules hscore hnot hchange hreselects
      have hlink : ∀ primary i, b₂.linkIs s primary i = b.linkIs s primary i := by
        intro primary i
        unfold linkIs
        rw [hlives.linkAt]
      rw [hlives.settings] at halways
      rw [hlink] at hfront hprimary
      exact Or.inr ⟨halways, hfront, next, rest', hcons, hprimary, hnext, hhighest⟩

end Bond

/-! ### What is known of a bond in between -/

/-- Two bonds with the same settings, where paths may have gone. -/
structure Fades (b b' : Bond) : Prop where
  settings : b'.settings = b.settings
  p : ∀ i, (b'.paths i).p = (b.paths i).p ∨ (b'.paths i).p = none
  negotiated : ∀ i, (b.paths i).negotiated = false → (b'.paths i).negotiated = false

theorem SameLives.fades {b b' : Bond} (h : SameLives b b') : Fades b b' :=
  ⟨h.settings, fun i => Or.inl (h.life i).p, fun i hi => (h.life i).negotiated.trans hi⟩

/-- A bond under `active-backup`: no path is in two slots, and none is negotiated. -/
structure BackupBond (b : Bond) : Prop where
  policy : b.settings.policy = .activeBackup
  onePlace : ∀ i k path, (b.paths i).p = some path → (b.paths k).p = some path → i = k
  negotiated : ∀ i, (b.paths i).negotiated = false

theorem BackupBond.of_fades {b b' : Bond} (hb : BackupBond b) (h : Fades b b') : BackupBond b' where
  policy := h.settings.symm ▸ hb.policy
  onePlace i k path hi hk := by
    rcases h.p i with hpi | hpi
    · rcases h.p k with hpk | hpk
      · exact hb.onePlace i k path (hpi.symm.trans hi) (hpk.symm.trans hk)
      · rw [hpk] at hk
        cases hk
    · rw [hpi] at hi
      cases hi
  negotiated i := h.negotiated i (hb.negotiated i)

namespace Bond

variable {b : Bond} {s : Surroundings} {now : Int64}

theorem curateBond_activeBackup (hpolicy : b.settings.policy = .activeBackup) (rebuildBond : Bool) :
    b.curateBond s now rebuildBond =
      { b with
        paths := b.curatedPaths s now
        numBondedPaths := pathSlots.countP fun i =>
          (b.curatedPaths s now i).p.isSome && (b.curatedPaths s now i).bonded } := by
  have hbalance : ¬b.settings.policy.isBalance = true := by
    rw [hpolicy]
    decide
  unfold curateBond
  dsimp only
  rw [if_neg hbalance, if_pos hpolicy]

theorem fades_curateBond (hpolicy : b.settings.policy = .activeBackup) (rebuildBond : Bool) :
    Fades b (b.curateBond s now rebuildBond) := by
  rw [curateBond_activeBackup hpolicy]
  refine ⟨rfl, fun i => ?_, fun i hi => ?_⟩
  · show (b.curatedPaths s now i).p = _ ∨ (b.curatedPaths s now i).p = none
    rw [curatedPaths_p]
    split_ifs
    · exact Or.inr rfl
    · exact Or.inl rfl
  · show (b.curatedPaths s now i).negotiated = false
    rcases b.curatedPaths_cases s now i with
      ⟨-, hcurated⟩ | ⟨path, -, -, hcurated⟩ | ⟨path, -, -, hcurated⟩
    · rw [hcurated]
      exact hi
    · rw [hcurated]
      rfl
    · rw [hcurated]
      exact hi

theorem sameLives_estimate (b : Bond) (estimates : PathSlot → PathEstimate) :
    SameLives b (b.estimatePathQuality estimates) := ⟨rfl, fun _ => ⟨rfl, rfl, rfl, rfl⟩⟩

theorem sameLives_curated (b : Bond) (s : Surroundings) (now : Int64)
    (estimates : Option (PathSlot → PathEstimate)) :
    SameLives (b.curateBond s now false) (b.curated s now estimates) := by
  rcases estimates with - | estimates
  · exact SameLives.refl _
  · exact sameLives_estimate _ estimates

theorem backupBond_curated (hb : BackupBond b) (s : Surroundings) (now : Int64)
    (estimates : Option (PathSlot → PathEstimate)) : BackupBond (b.curated s now estimates) :=
  (hb.of_fades (fades_curateBond hb.policy false)).of_fades
    (b.sameLives_curated s now estimates).fades

/-- **A curated path that is usable is live.** -/
theorem isLive_curated (hpolicy : b.settings.policy = .activeBackup)
    (estimates : Option (PathSlot → PathEstimate)) {i : PathSlot}
    (h : ((b.curated s now estimates).paths i).isUsable = true) :
    (b.curated s now estimates).IsLive s i := by
  have hlives := b.sameLives_curated s now estimates
  rw [(hlives.life i).isUsable] at h
  rw [hlives.isLive]
  rw [curateBond_activeBackup hpolicy] at h ⊢
  refine ⟨h, ?_⟩
  have husable : (b.curatedPaths s now i).isUsable = true := h
  obtain ⟨hp, helig⟩ := Bool.and_eq_true_iff.mp husable
  show (b.curatedPaths s now i).allowed = true ∧
    ((b.curatedPaths s now i).p.bind s.getLink).isSome = true
  rcases b.curatedPaths_cases s now i with
    ⟨hnone, hcurated⟩ | ⟨path, -, -, hcurated⟩ | ⟨path, hpath, hstays, hcurated⟩
  · rw [hcurated, hnone] at hp
    cases hp
  · rw [hcurated] at hp
    cases hp
  · rw [hcurated] at helig ⊢
    refine ⟨(Bool.and_eq_true_iff.mp helig).1, ?_⟩
    -- a path without a link leaves
    unfold NominatedPath.leaves at hstays
    rw [hpath] at hstays
    have hlink := (Bool.or_eq_false_iff.mp hstays).1
    show ((b.paths i).p.bind s.getLink).isSome = true
    rw [hpath]
    exact Option.isNone_eq_false_iff.mp hlink

/-! ### Events -/

theorem backupBond_nominatePathToBond (hb : BackupBond b) (path : Path)
    (estimates : PathSlot → PathEstimate) :
    BackupBond (b.nominatePathToBond s now path estimates) := by
  unfold nominatePathToBond
  dsimp only
  split_ifs
  · have hsettings := (b.nominate_frame (s.createLink path.localSocket) now path).1
    have hnominated : BackupBond (b.nominate (s.createLink path.localSocket) now path).2 := by
      refine ⟨hsettings.symm ▸ hb.policy, onePlace_nominate hb.onePlace _ now path, fun i => ?_⟩
      rcases b.nominate_cases (s.createLink path.localSocket) now path with h | ⟨f, link, -, -, h⟩
      · rw [h]
        exact hb.negotiated i
      · rw [h]
        unfold nominateAt
        dsimp only
        split_ifs
        · exact hb.negotiated i
        · exact hb.negotiated i
        · exact hb.negotiated i
    exact (hnominated.of_fades (fades_curateBond hnominated.policy true)).of_fades
      (sameLives_estimate _ estimates).fades
  · exact hb

theorem backupBond_setSlot (hb : BackupBond b) {i : PathSlot} {np : NominatedPath}
    (h : SameLife (b.paths i) np) : BackupBond (b.setSlot i np) := by
  have hlives : SameLives b (b.setSlot i np) := ⟨rfl, sameLife_update b.paths h⟩
  exact hb.of_fades hlives.fades

theorem yields_backupBond_incoming (hb : BackupBond b) (path : Path) (flowId : Int32) :
    Yields (b.recordIncomingPacket now path flowId) BackupBond := by
  unfold recordIncomingPacket
  rcases b.getNominatedPathIdx path with - | i
  · exact yields_ok hb
  · have halive : BackupBond (b.noteAlive now i) := by
      unfold noteAlive
      split_ifs
      · exact hb
      · exact backupBond_setSlot hb ⟨rfl, rfl, rfl, rfl⟩
    show Yields ((b.noteAlive now i).learnFlow now i flowId) BackupBond
    -- flows are learned under the balance policies only
    have hnot : ¬(flowId ≠ noFlowId ∧ (b.noteAlive now i).settings.policy.isBalance = true ∧
        (SortedMap.get flowId.toInt16 (b.noteAlive now i).flows).isNone) := by
      rintro ⟨-, hbalance, -⟩
      rw [halive.policy] at hbalance
      cases hbalance
    unfold learnFlow
    rw [if_neg hnot]
    exact yields_ok halive

theorem backupBond_receivedQoS (hb : BackupBond b) (path : Path) :
    BackupBond (b.receivedQoS now path) := by
  unfold receivedQoS
  rcases b.getNominatedPathIdx path with - | i
  · exact hb
  · exact backupBond_setSlot hb ⟨rfl, rfl, rfl, rfl⟩

theorem backupBond_abForciblyRotateLink (hb : BackupBond b) :
    BackupBond (b.abForciblyRotateLink now) := by
  unfold abForciblyRotateLink
  rw [if_pos hb.policy]
  exact hb.of_fades (b.sameLives_dequeue now).fades

/-- **Every event** leaves the paths in one slot each, and negotiates none. -/
theorem yields_backupBond (hb : BackupBond b) (rules : ScoreRules) (sorting : QueueSort)
    (event : BondEvent) : Yields (b.handle rules sorting event) fun out => BackupBond out.1 := by
  rcases event with ⟨s, now, path, estimates⟩ | ⟨s, now, estimates, dead, avoided⟩ |
    ⟨now, flowId, freeRandomByte, entropy⟩ | ⟨now, path, flowId⟩ | ⟨now, path⟩ | now
  · exact yields_ok (backupBond_nominatePathToBond hb path estimates)
  · -- background: curated, estimated, and then the tasks of the policy
    have hcurated := backupBond_curated hb s now estimates
    refine Yields.map ?_
    show Yields ((b.curated s now estimates).processPolicyTasks rules sorting s now dead avoided) _
    unfold processPolicyTasks
    rw [if_pos hcurated.policy]
    have hlives :=
      (b.curated s now estimates).sameLives_processActiveBackupTasks rules s now sorting
    exact yields_ok (hcurated.of_fades hlives.fades)
  · refine Yields.map ?_
    unfold getAppropriatePath
    rw [if_pos hb.policy]
    exact yields_ok hb
  · exact Yields.map (yields_backupBond_incoming hb path flowId)
  · exact yields_ok (backupBond_receivedQoS hb path)
  · exact yields_ok (backupBond_abForciblyRotateLink hb)

end Bond

/-! ### Runs -/

theorem backupBond_of_run {rules : ScoreRules} {sorting : QueueSort} {settings : BondSettings}
    (hpolicy : settings.policy = .activeBackup) {events : List BondEvent} {b : Bond}
    (hrun : (bondMachine rules sorting).runState (.ok (Bond.init settings)) events = .ok b) :
    BackupBond b := by
  have hstep : ∀ (before : List BondEvent) (state : BondState) (event : BondEvent),
      OfBond BackupBond state → True →
        OfBond BackupBond ((bondMachine rules sorting).step state event).1 := by
    rintro before (fault | b) event hstate -
    · trivial
    · exact step_ok (Bond.yields_backupBond hstate rules sorting event)
  have hinit : OfBond BackupBond (.ok (Bond.init settings)) :=
    ⟨hpolicy, (fun i k path hi => by cases hi), fun i => rfl⟩
  have hreach := Machine.invariant_run (I := fun _ => OfBond BackupBond) (C := fun _ _ => True)
    hstep (h := []) hinit (Machine.guarded_true (bondMachine rules sorting) _ events)
  rwa [hrun] at hreach

/-- **The path of `active-backup`**, in a round of the background tasks of any bond that a run has
come to: if a path is live, one is active in the end, unless none was and the user's primary links
have no eligible one; and a path that is not eligible is replaced by one of the highest score in the
queue, or under `always` by the next one if that is on a primary link and the first is not. -/
theorem picksLive_picksBest (rules : ScoreRules) (sorting : QueueSort) {settings : BondSettings}
    (hpolicy : settings.policy = .activeBackup) {events : List BondEvent} {b : Bond}
    (hrun : (bondMachine rules sorting).runState (.ok (Bond.init settings)) events = .ok b)
    (s : Surroundings) (now : Int64) (estimates : Option (PathSlot → PathEstimate)) :
    (¬(b.curated s now estimates).WaitsForPrimary s →
        (b.curated s now estimates).PicksLive rules sorting s now) ∧
      (b.curated s now estimates).PicksBestOrPrimary rules sorting s now := by
  have hb := backupBond_of_run hpolicy hrun
  have hcurated := Bond.backupBond_curated hb s now estimates
  refine ⟨fun hwait => ?_, Bond.picksBestOrPrimary rules sorting hcurated.negotiated⟩
  exact Bond.picksLive hcurated.onePlace rules sorting
    (fun i hi => Bond.isLive_curated hb.policy estimates hi) hwait

/-! ### Four links -/

section FourLinks

/-- Three primary links, of which one fails over to the next and that one to the spare link.  On the
first link nothing is received any more, or on all of them something was. -/
def fourLinks (late : Bool) : Surroundings where
  ifname socket :=
    if socket = 1 then "eth0" else if socket = 2 then "eth1" else if socket = 3 then "eth2"
    else "eth3"
  links name :=
    if name = "eth0" then some ⟨1, "eth0", 0, .primary, ""⟩
    else if name = "eth1" then some ⟨2, "eth1", 0, .primary, "eth2"⟩
    else if name = "eth2" then some ⟨3, "eth2", 0, .primary, "eth3"⟩
    else if name = "eth3" then some ⟨4, "eth3", 0, .spare, ""⟩ else none
  linkDefinitions := ["eth0", "eth1", "eth2", "eth3"]
  freshPtr := 5
  lastIn path := if late && path.localSocket != 1 then 1700000020000 else 1700000000000

/-- The user has specified links, primary ones and failover instructions. -/
def manualSettings : BondSettings :=
  ⟨.activeBackup, true, 0, 0, 5000, 64, .always, true, true, true⟩

/-- A path on a link is nominated. -/
def nominateOn (socket : BitVec 64) : BondEvent :=
  .nominate (fourLinks false) 1700000000000 (pathOn socket) noEstimates

/-- The first path is active. -/
def fourNominated : List BondEvent :=
  [nominateOn 1, nominateOn 2, nominateOn 3, nominateOn 4,
    .background (fourLinks false) 1700000001000 none (fun _ => ⟨fun _ => 0, 0⟩)
      fun _ => ⟨fun _ => 0, 0⟩]

/-- A round in which the path on the first of four links fails. -/
theorem picksLive_fourLinks : ∃ b, (bondMachine plainRules plainSort).runState
    (.ok (Bond.init manualSettings)) fourNominated = .ok b ∧
      (¬(b.curated (fourLinks true) 1700000020000 none).WaitsForPrimary (fourLinks true) →
        (b.curated (fourLinks true) 1700000020000 none).PicksLive plainRules plainSort
          (fourLinks true) 1700000020000) ∧
      (b.curated (fourLinks true) 1700000020000 none).PicksBestOrPrimary plainRules plainSort
        (fourLinks true) 1700000020000 := by
  have hactive : (((bondMachine plainRules plainSort).runState
      (.ok (Bond.init manualSettings)) fourNominated).toOption.map fun b => b.abPathIdx) =
        some (some firstSlot) := by decide +kernel
  obtain ⟨b, hb, -⟩ := exists_ok_of_map hactive
  exact ⟨b, hb, picksLive_picksBest plainRules plainSort rfl hb (fourLinks true) 1700000020000 none⟩

/-- Only the path on the spare link is there, and it waits for one on a primary link; and where the
path on the first of four links fails, the one with the highest score is on the spare link. -/
theorem not_picksLive_spareOnly :
    (¬∀ (rules : ScoreRules) (sorting : QueueSort) (settings : BondSettings)
      (events : List BondEvent) (b : Bond) (s : Surroundings) (now : Int64)
      (estimates : Option (PathSlot → PathEstimate)), settings.policy = .activeBackup →
        (bondMachine rules sorting).runState (.ok (Bond.init settings)) events = .ok b →
          (b.curated s now estimates).PicksLive rules sorting s now) ∧
    ¬∀ (rules : ScoreRules) (sorting : QueueSort) (settings : BondSettings)
      (events : List BondEvent) (b : Bond) (s : Surroundings) (now : Int64)
      (estimates : Option (PathSlot → PathEstimate)), settings.policy = .activeBackup →
        (bondMachine rules sorting).runState (.ok (Bond.init settings)) events = .ok b →
          (b.curated s now estimates).PicksBest rules sorting s now := by
  constructor
  · -- the path on the spare link is live, and none is active
    intro h
    have hvalues : (((bondMachine plainRules plainSort).runState
        (.ok (Bond.init manualSettings)) [nominateOn 4]).toOption.map fun b =>
          (((b.curated (fourLinks false) 1700000001000 none).processActiveBackupTasks plainRules
              (fourLinks false) 1700000001000 plainSort).abPathIdx,
            ((b.curated (fourLinks false) 1700000001000 none).paths firstSlot).isUsable,
            ((b.curated (fourLinks false) 1700000001000 none).paths firstSlot).allowed,
            ((b.curated (fourLinks false) 1700000001000 none).linkAt (fourLinks false)
              firstSlot).isSome)) = some (none, true, true, true) := by decide +kernel
    obtain ⟨b, hb, hvalues⟩ := exists_ok_of_map hvalues
    obtain ⟨hnone, hvalues⟩ := Prod.mk.inj hvalues
    obtain ⟨husable, hvalues⟩ := Prod.mk.inj hvalues
    obtain ⟨hallowed, hlink⟩ := Prod.mk.inj hvalues
    obtain ⟨i, hi, -⟩ := h plainRules plainSort _ _ b (fourLinks false) 1700000001000 none rfl hb
      ⟨firstSlot, husable, hallowed, hlink⟩
    rw [hnone] at hi
    cases hi
  · -- the path that is picked has a score of 1500, the one on the spare link 2980
    intro h
    have hvalues : (((bondMachine plainRules plainSort).runState
        (.ok (Bond.init manualSettings)) fourNominated).toOption.map fun b =>
          ((b.curated (fourLinks true) 1700000020000 none).presentActive,
            ((b.curated (fourLinks true) 1700000020000 none).paths firstSlot).eligible,
            ((b.curated (fourLinks true) 1700000020000 none).processActiveBackupTasks plainRules
              (fourLinks true) 1700000020000 plainSort).abPathIdx.map Fin.val,
            ((b.curated (fourLinks true) 1700000020000 none).queuedSlots plainRules plainSort
              (fourLinks true) firstSlot).map fun i =>
                (i.val, (b.curated (fourLinks true) 1700000020000 none).queuedScore plainRules
                  plainSort (fourLinks true) firstSlot i))) =
            some (some firstSlot, false, some 1, [(3, 2980), (1, 1500), (2, 1490)]) := by
      decide +kernel
    obtain ⟨b, hb, hvalues⟩ := exists_ok_of_map hvalues
    obtain ⟨hpresent, hvalues⟩ := Prod.mk.inj hvalues
    obtain ⟨helig, hvalues⟩ := Prod.mk.inj hvalues
    obtain ⟨hpicked, hqueue⟩ := Prod.mk.inj hvalues
    have hbest := h plainRules plainSort _ _ b (fourLinks true) 1700000020000 none rfl hb
    generalize b.curated (fourLinks true) 1700000020000 none = c
      at hpresent helig hpicked hqueue hbest
    have hspare : ((3 : ℕ), (2980 : UInt32)) ∈ (c.queuedSlots plainRules plainSort (fourLinks true)
        firstSlot).map fun i =>
          (i.val, c.queuedScore plainRules plainSort (fourLinks true) firstSlot i) := by
      rw [hqueue]
      exact List.mem_cons_self
    obtain ⟨j, hj, hspare⟩ := List.mem_map.mp hspare
    obtain ⟨i, hi, hidx, hmax⟩ := hbest firstSlot hpresent helig (List.ne_nil_of_mem hj)
    have hscored := List.mem_map_of_mem
      (f := fun i => (i.val, c.queuedScore plainRules plainSort (fourLinks true) firstSlot i)) hi
    rw [hqueue] at hscored
    rw [hidx] at hpicked
    have hone : i.val = 1 := Option.some.inj hpicked
    have hle := hmax j hj
    rw [(Prod.mk.inj hspare).2] at hle
    rw [hone] at hscored
    generalize c.queuedScore plainRules plainSort (fourLinks true) firstSlot i = score
      at hscored hle
    have hscore : score = 1500 := by
      rcases List.mem_cons.mp hscored with heq | hscored
      · cases (Prod.mk.inj heq).1
      · rcases List.mem_cons.mp hscored with heq | hscored
        · exact (Prod.mk.inj heq).2
        · cases (Prod.mk.inj (List.mem_singleton.mp hscored)).1
    rw [hscore] at hle
    exact absurd hle (by decide)

end FourLinks

end ZGalaxy
