/-
ZGalaxy/Newest.lean

A register that holds the newest of what it was shown.

Every entry has a time.  A register takes an entry that is admitted and not older than the one it
holds (`keep`), so of several entries of one time the last one stays.  `Newest` says what a
register holds after a row of entries, whatever it held before; it is built up entry by entry
(`newest_concat`) and still holds when from some time on fewer entries are admitted
(`Newest.restrict`).

Main result: `foldl_keep_eq_iff`, that showing a register a row of entries leaves it as it is
exactly when it holds the newest of them.
-/
import Mathlib.Data.List.Induction
import Mathlib.Order.Lattice

variable {α τ : Type*} [LinearOrder τ]

/-- The register after an entry. -/
def keep (ts : α → τ) (admits : α → Bool) (w : Option α) (c : α) : Option α :=
  if admits c && w.all (ts · ≤ ts c) then some c else w

/-- The admitted entries that are as old as what the register holds. -/
def asOld (ts : α → τ) (admits : α → Bool) (l : List α) (w : Option α) : List α :=
  l.filter fun c => admits c && w.map ts == some (ts c)

/-- The register holds the newest admitted entry, and the last one of that time. -/
structure Newest (ts : α → τ) (admits : α → Bool) (l : List α) (w : Option α) : Prop where
  upTo : ∀ c ∈ l, admits c = true → ∃ x, w = some x ∧ ts c ≤ ts x
  last : ∀ c, (asOld ts admits l w).getLast? = some c → w = some c

variable {ts : α → τ} {admits : α → Bool} {l : List α} {w : Option α}

/-- An entry is taken, or it is not admitted or older. -/
theorem keep_spec (ts : α → τ) (admits : α → Bool) (w : Option α) (c : α) :
    (keep ts admits w c = some c ∧ admits c = true ∧ ∀ x, w = some x → ts x ≤ ts c) ∨
      (keep ts admits w c = w ∧ (admits c = true → ∃ x, w = some x ∧ ts c < ts x)) := by
  unfold keep
  by_cases h : (admits c && w.all (ts · ≤ ts c)) = true
  · rw [if_pos h]
    obtain ⟨hc, hall⟩ := Bool.and_eq_true_iff.mp h
    refine Or.inl ⟨rfl, hc, ?_⟩
    rintro x rfl
    exact of_decide_eq_true hall
  · rw [if_neg h]
    refine Or.inr ⟨rfl, fun hc => ?_⟩
    rw [hc, Bool.true_and] at h
    rcases w with - | x
    · exact absurd rfl h
    · exact ⟨x, rfl, not_le.mp fun hle => h (decide_eq_true hle)⟩

theorem newest_nil (ts : α → τ) (admits : α → Bool) (w : Option α) : Newest ts admits [] w where
  upTo := fun _ hc => absurd hc List.not_mem_nil
  last := fun _ hc => by cases hc

/-- **One more entry.** -/
theorem newest_concat (h : Newest ts admits l w) (c : α) :
    Newest ts admits (l ++ [c]) (keep ts admits w c) := by
  rcases keep_spec ts admits w c with ⟨hkeep, hadm, hnew⟩ | ⟨hkeep, hold⟩
  · rw [hkeep]
    refine ⟨fun d hd hdadm => ?_, fun d hd => ?_⟩
    · rcases List.mem_append.mp hd with hd | hd
      · obtain ⟨x, rfl, hle⟩ := h.upTo d hd hdadm
        exact ⟨c, rfl, hle.trans (hnew x rfl)⟩
      · obtain rfl := List.mem_singleton.mp hd
        exact ⟨d, rfl, le_refl _⟩
    · -- the entry itself comes last
      have hlast : asOld ts admits [c] (some c) = [c] := by
        simp [asOld, hadm]
      unfold asOld at hd hlast
      rw [List.filter_append, hlast, List.getLast?_concat] at hd
      exact hd
  · rw [hkeep]
    refine ⟨fun d hd hdadm => ?_, fun d hd => ?_⟩
    · rcases List.mem_append.mp hd with hd | hd
      · exact h.upTo d hd hdadm
      · obtain rfl := List.mem_singleton.mp hd
        obtain ⟨x, hx, hlt⟩ := hold hdadm
        exact ⟨x, hx, hlt.le⟩
    · have hnone : asOld ts admits [c] w = [] := by
        refine List.filter_eq_nil_iff.mpr fun d hd => ?_
        obtain rfl := List.mem_singleton.mp hd
        intro hboth
        obtain ⟨hdadm, heq⟩ := Bool.and_eq_true_iff.mp hboth
        obtain ⟨x, rfl, hlt⟩ := hold hdadm
        exact absurd (Option.some.inj (eq_of_beq heq)) hlt.ne'
      unfold asOld at hd hnone
      rw [List.filter_append, hnone, List.append_nil] at hd
      exact h.last d hd

/-- After a row of entries the register holds the newest. -/
theorem newest_foldl (ts : α → τ) (admits : α → Bool) (l : List α) (w : Option α) :
    Newest ts admits l (l.foldl (keep ts admits) w) := by
  induction l using List.reverseRecOn with
  | nil => exact newest_nil ts admits w
  | append_singleton l c ih =>
      rw [List.foldl_append]
      exact newest_concat ih c

/-- What the register holds is what it held, or an admitted entry that is no older. -/
theorem foldl_keep_cases (ts : α → τ) (admits : α → Bool) (l : List α) (w : Option α) :
    l.foldl (keep ts admits) w = w ∨
      ∃ c ∈ l, admits c = true ∧ (∀ x, w = some x → ts x ≤ ts c) ∧
        l.foldl (keep ts admits) w = some c := by
  induction l using List.reverseRecOn with
  | nil => exact Or.inl rfl
  | append_singleton l c ih =>
      rw [List.foldl_append]
      show keep ts admits (l.foldl (keep ts admits) w) c = w ∨ _
      rcases keep_spec ts admits (l.foldl (keep ts admits) w) c with
        ⟨hkeep, hadm, hnew⟩ | ⟨hkeep, -⟩
      · refine Or.inr ⟨c, List.mem_append_right l List.mem_cons_self, hadm, fun x hx => ?_, hkeep⟩
        rcases ih with hsame | ⟨d, -, -, hle, hd⟩
        · exact hnew x (hsame.trans hx)
        · exact (hle x hx).trans (hnew d hd)
      · rw [List.foldl_cons, List.foldl_nil, hkeep]
        rcases ih with hsame | ⟨d, hd, hadm, hle, heq⟩
        · exact Or.inl hsame
        · exact Or.inr ⟨d, List.mem_append_left _ hd, hadm, hle, heq⟩

/-- **Showing the entries again** leaves the register as it is when it holds the newest of them, and
only then. -/
theorem foldl_keep_eq_iff : l.foldl (keep ts admits) w = w ↔ Newest ts admits l w := by
  constructor
  · intro h
    have hnew := newest_foldl ts admits l w
    rwa [h] at hnew
  · intro h
    rcases foldl_keep_cases ts admits l w with hsame | ⟨c, hc, hadm, hle, heq⟩
    · exact hsame
    · obtain ⟨x, rfl, hcx⟩ := h.upTo c hc hadm
      have hts : ts x = ts c := le_antisymm (hle x rfl) hcx
      have hnew := newest_foldl ts admits l (some x)
      rw [heq] at hnew
      -- both registers are judged by the same entries
      have hasOld : asOld ts admits l (some c) = asOld ts admits l (some x) := by
        unfold asOld
        rw [Option.map_some, Option.map_some, hts]
      have hmem : c ∈ asOld ts admits l (some x) :=
        List.mem_filter.mpr ⟨hc, by simp [hadm, hts]⟩
      obtain ⟨d, hd⟩ : ∃ d, (asOld ts admits l (some x)).getLast? = some d :=
        Option.ne_none_iff_exists'.mp fun hnone =>
          List.ne_nil_of_mem hmem (List.getLast?_eq_none_iff.mp hnone)
      have hcd := hnew.last d (by rw [hasOld]; exact hd)
      rw [heq, hcd, h.last d hd]

/-- Admitting fewer entries, where those of one time stay together. -/
theorem Newest.restrict {admits' : α → Bool} (h : Newest ts admits l w)
    (hsub : ∀ c ∈ l, admits' c = true → admits c = true)
    (htime : ∀ c ∈ l, ∀ d ∈ l, ts c = ts d → admits' c = true → admits d = true →
      admits' d = true) : Newest ts admits' l w where
  upTo := fun c hc hadm => h.upTo c hc (hsub c hc hadm)
  last := by
    intro c hlast
    have hc := List.mem_filter.mp (List.mem_of_getLast? hlast)
    obtain ⟨hadm, hts⟩ := Bool.and_eq_true_iff.mp hc.2
    refine h.last c ?_
    rw [← hlast]
    refine congrArg List.getLast? (List.filter_congr fun d hd => ?_)
    by_cases hdts : (w.map ts == some (ts d)) = true
    · rw [hdts, Bool.and_true, Bool.and_true]
      have hcd : ts c = ts d :=
        Option.some.inj ((eq_of_beq hts).symm.trans (eq_of_beq hdts))
      exact Bool.eq_iff_iff.mpr ⟨fun hd' => htime c hc.1 d hd hcd hadm hd', hsub d hd⟩
    · rw [Bool.eq_false_iff.mpr hdts, Bool.and_false, Bool.and_false]
