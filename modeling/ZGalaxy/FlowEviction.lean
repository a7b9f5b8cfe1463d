/-
ZGalaxy/FlowEviction.lean

Which flows a bond forgets.

Flows older than some age are removed as one would think.  The scan for the oldest flow, however,
sets `maxAge` to what is left of the time when the age of the flow is taken off, which is when the
flow was last active, and compares the next age with that.  So it is a `MarkedScan`, with the time
of the last activity for a mark, and a flow that was last active before the time 0 is an early
element.

Main result: `forgetsAsMeant_iff`, for which flow tables a flow of greatest age is removed.
-/
import ZGalaxy.BondFlows
import ZGalaxy.MarkedScan
import Mathlib.Data.List.Find
import Mathlib.Data.Multiset.AddSub

namespace ZGalaxy

/-! ### Ages and marks -/

namespace FlowTable

/-- The age of a flow, as it is compared. -/
def ageOf (now : Int64) (e : Int16 × Flow) : ℕ := (e.2.age now).toUInt64.toNat

/-- What `maxAge` becomes with a flow. -/
def markOf (now : Int64) (e : Int16 × Flow) : ℕ := (now - e.2.age now).toUInt64.toNat

/-- The flow was last active after the time 0. -/
def Late (e : Int16 × Flow) : Prop := 0 ≤ e.2.lastActivity.toInt

/-- The time is not earlier than the last activity of any flow, and the ages are in the range of
their type. -/
def NotEarlier (flows : FlowTable) (now : Int64) : Prop :=
  ∀ e ∈ flows, e.2.lastActivity.toInt ≤ now.toInt ∧
    now.toInt - e.2.lastActivity.toInt < 9223372036854775808

theorem foldl_scanFlow (now : Int64) (flows : FlowTable) (scan : Scan) :
    flows.foldl (MarkedScan.step (ageOf now) (markOf now)) (scan.1.toNat, scan.2) =
      ((flows.foldl (scanFlow now) scan).1.toNat, (flows.foldl (scanFlow now) scan).2) := by
  induction flows generalizing scan with
  | nil => rfl
  | cons e flows ih =>
      rw [List.foldl_cons, List.foldl_cons, ← ih]
      congr 1
      unfold MarkedScan.step scanFlow ageOf
      by_cases h : scan.1 < (e.2.age now).toUInt64
      · rw [if_pos h, if_pos (UInt64.lt_iff_toNat_lt.mp h)]
        rfl
      · rw [if_neg h, if_neg fun h' => h (UInt64.lt_iff_toNat_lt.mpr h')]

/-- The scan is one with marks. -/
theorem oldestFlow_eq (flows : FlowTable) (now : Int64) :
    oldestFlow flows now = (MarkedScan.scan (ageOf now) (markOf now) flows).2 := by
  have h := foldl_scanFlow now flows (0, none)
  exact (congrArg Prod.snd h).symm

/-- A number of 64 bits with a sign, read without. -/
theorem toNat_toUInt64 (x : Int64) : (x.toUInt64.toNat : ℤ) =
    if 0 ≤ x.toInt then x.toInt else x.toInt + 18446744073709551616 := by
  have h := BitVec.toInt_eq_toNat_cond x.toBitVec
  have hint : x.toInt = x.toBitVec.toInt := rfl
  have hnat : x.toUInt64.toNat = x.toBitVec.toNat := rfl
  rw [hint, hnat]
  split_ifs at * <;> omega

variable {flows : FlowTable} {now : Int64} {e : Int16 × Flow}

/-- An age is the time since the last activity. -/
theorem NotEarlier.toInt_age (h : NotEarlier flows now) (he : e ∈ flows) :
    (e.2.age now).toInt = now.toInt - e.2.lastActivity.toInt := by
  obtain ⟨hle, hrange⟩ := h e he
  unfold Flow.age
  rw [Int64.toInt_sub]
  exact Int.bmod_eq_of_le (by omega) (by omega)

theorem NotEarlier.ageOf_eq (h : NotEarlier flows now) (he : e ∈ flows) :
    (ageOf now e : ℤ) = now.toInt - e.2.lastActivity.toInt := by
  have hle := (h e he).1
  unfold ageOf
  rw [toNat_toUInt64, h.toInt_age he, if_pos (by omega)]

theorem markOf_eq (now : Int64) (e : Int16 × Flow) :
    markOf now e = e.2.lastActivity.toUInt64.toNat := by
  unfold markOf Flow.age
  congr 2
  grind

/-- The marks of the scan. -/
theorem NotEarlier.marks (h : NotEarlier flows now) :
    MarkedScan.Marks (ageOf now) (markOf now) Late now.toInt.toNat flows := by
  constructor
  · intro e he hlate
    have hage := h.ageOf_eq he
    have hmark := toNat_toUInt64 e.2.lastActivity
    have hlate' : 0 ≤ e.2.lastActivity.toInt := hlate
    rw [if_pos hlate', ← markOf_eq now] at hmark
    have hle := (h e he).1
    omega
  · -- before the time 0 the mark is so great that no age exceeds it
    intro e he hearly
    have hage := h.ageOf_eq he
    have hmark := toNat_toUInt64 e.2.lastActivity
    have hearly' : ¬0 ≤ e.2.lastActivity.toInt := hearly
    rw [if_neg hearly', ← markOf_eq now] at hmark
    have hrange := e.2.lastActivity.le_toInt
    refine ⟨by omega, fun e' he' => ?_⟩
    have hage' := h.ageOf_eq he'
    have hrange' := (h e' he').2
    omega

end FlowTable

/-! ### What is removed -/

namespace Bond

open FlowTable

variable (b : Bond) (now : Int64)

/-- Without an age, one flow of greatest age is removed if some flow has a positive age, and no
other is changed. -/
def EvictsOldest : Prop :=
  (∃ e ∈ b.flows, 0 < (e.2.age now).toInt) →
    ∃ before e after, b.flows = before ++ e :: after ∧
      (∀ e' ∈ b.flows, (e'.2.age now).toInt ≤ (e.2.age now).toInt) ∧
      (b.forgetFlowsWhenNecessary now 0 true).flows = before ++ after

/-- With an age, the flows that are older are removed. -/
def EvictsOlder : Prop :=
  ∀ age : UInt64, 0 < age → (b.forgetFlowsWhenNecessary now age false).flows =
    b.flows.filter fun e => decide ((e.2.age now).toInt ≤ (age.toNat : ℤ))

/-- A flow of greatest age is where the scan finds it.  No flow behind it is older than the time of
its last activity, the flows of positive age before it were last active after the time 0, and the
first of them at a time that is less than the greatest age. -/
def OldestIsFound : Prop :=
  (∃ e ∈ b.flows, 0 < (e.2.age now).toInt) →
    ∃ before e after, b.flows = before ++ e :: after ∧
      (∀ e' ∈ b.flows, (e'.2.age now).toInt ≤ (e.2.age now).toInt) ∧
      (∀ e' ∈ after, (e'.2.age now).toUInt64 ≤ e.2.lastActivity.toUInt64) ∧
      (∀ e' ∈ before, 0 < (e'.2.age now).toInt → 0 ≤ e'.2.lastActivity.toInt) ∧
      ∀ first, (before.find? fun e' => decide (0 < (e'.2.age now).toInt)) = some first →
        first.2.lastActivity.toUInt64 < (e.2.age now).toUInt64

variable {b now}

theorem flows_forgetOldest (b : Bond) (now : Int64) :
    (b.forgetFlowsWhenNecessary now 0 true).flows =
      (oldestFlow b.flows now).elim b.flows b.flows.erase := by
  show (b.forgetOldest now).flows = _
  unfold forgetOldest
  rcases oldestFlow b.flows now with - | e
  · rfl
  · rfl

/-- Flows that leave the same row are the same. -/
theorem eq_of_erase_eq {c e : Int16 × Flow} {flows before after : FlowTable} (hc : c ∈ flows)
    (hsplit : flows = before ++ e :: after) (herase : flows.erase c = before ++ after) : c = e := by
  have hperm : (c :: (before ++ after)).Perm (e :: (before ++ after)) := by
    rw [← herase]
    refine (List.perm_cons_erase hc).symm.trans ?_
    rw [herase, hsplit]
    exact List.perm_middle
  have hcons : c ::ₘ ((before ++ after : FlowTable) : Multiset (Int16 × Flow)) =
      e ::ₘ ((before ++ after : FlowTable) : Multiset (Int16 × Flow)) :=
    Multiset.coe_eq_coe.mpr hperm
  exact (Multiset.cons_inj_left _).mp hcons

/-- The greatest of the ages. -/
theorem exists_max {flows : FlowTable} (now : Int64) (h : flows ≠ []) :
    ∃ e ∈ flows, ∀ e' ∈ flows, ageOf now e' ≤ ageOf now e := by
  induction flows with
  | nil => exact absurd rfl h
  | cons x flows ih =>
      by_cases hnil : flows = []
      · subst hnil
        refine ⟨x, List.mem_cons_self, fun e' he' => ?_⟩
        rw [List.mem_singleton.mp he']
      · obtain ⟨e, he, hmax⟩ := ih hnil
        rcases Nat.le_total (ageOf now e) (ageOf now x) with hle | hle
        · refine ⟨x, List.mem_cons_self, fun e' he' => ?_⟩
          rcases List.mem_cons.mp he' with rfl | he'
          · exact Nat.le_refl _
          · exact (hmax e' he').trans hle
        · refine ⟨e, List.mem_cons_of_mem x he, fun e' he' => ?_⟩
          rcases List.mem_cons.mp he' with rfl | he'
          · exact hle
          · exact hmax e' he'

/-- The ages of a table, as they are compared and as they are. -/
theorem ageOf_cast {e : Int16 × Flow} (h : NotEarlier b.flows now) (he : e ∈ b.flows) :
    (ageOf now e : ℤ) = (e.2.age now).toInt := by
  rw [h.ageOf_eq he, h.toInt_age he]

/-- What is removed is the flow that the scan finds. -/
theorem evicts_iff_scan {A : ℕ} (h : NotEarlier b.flows now)
    (hmax : ∃ m ∈ b.flows, ageOf now m = A ∧ ∀ e ∈ b.flows, ageOf now e ≤ A) :
    (∃ before e after, b.flows = before ++ e :: after ∧
      (∀ e' ∈ b.flows, (e'.2.age now).toInt ≤ (e.2.age now).toInt) ∧
      (b.forgetFlowsWhenNecessary now 0 true).flows = before ++ after) ↔
    ∃ c, (MarkedScan.scan (ageOf now) (markOf now) b.flows).2 = some c ∧ ageOf now c = A := by
  obtain ⟨m, hm, hmA, hle⟩ := hmax
  rw [flows_forgetOldest, oldestFlow_eq]
  constructor
  · rintro ⟨before, e, after, hsplit, hall, hleft⟩
    have he : e ∈ b.flows := by
      rw [hsplit]
      exact List.mem_append_right _ List.mem_cons_self
    rcases MarkedScan.scan_cases h.marks b.flows fun x hx => hx with
      ⟨hscan, -⟩ | ⟨b₁, c, a₁, hsplit', hscan, -⟩
    · -- nothing was found, and nothing is removed
      rw [hscan] at hleft
      have hlength := congrArg List.length (hsplit.symm.trans hleft)
      rw [List.length_append, List.length_append, List.length_cons] at hlength
      omega
    · rw [hscan] at hleft ⊢
      have hc : c ∈ b.flows := by
        rw [hsplit']
        exact List.mem_append_right _ List.mem_cons_self
      obtain rfl := eq_of_erase_eq hc hsplit hleft
      refine ⟨c, rfl, Nat.le_antisymm (hle c hc) ?_⟩
      have hcm := hall m hm
      rw [← ageOf_cast h hm, ← ageOf_cast h hc] at hcm
      omega
  · -- the flow that is erased is split off where it first occurs
    rintro ⟨c, hc, hcA⟩
    rcases MarkedScan.scan_cases h.marks b.flows fun x hx => hx with
      ⟨hscan, -⟩ | ⟨b₁, c', a₁, hsplit', hscan, -⟩
    · rw [hscan] at hc
      cases hc
    · rw [hscan] at hc ⊢
      obtain rfl := Option.some.inj hc
      have hmem : c' ∈ b.flows := by
        rw [hsplit']
        exact List.mem_append_right _ List.mem_cons_self
      obtain ⟨before, after, -, hsplit, herase⟩ := List.exists_erase_eq hmem
      refine ⟨before, c', after, hsplit, fun e' he' => ?_, herase⟩
      rw [← ageOf_cast h he', ← ageOf_cast h hmem]
      have hle' := hle e' he'
      omega

/-- The condition of the scan, in the terms of the flows. -/
theorem found_iff {before after : FlowTable} {e : Int16 × Flow} (h : NotEarlier b.flows now)
    (hsplit : b.flows = before ++ e :: after) :
    MarkedScan.Found (ageOf now) (markOf now) Late before e after ↔
      (∀ e' ∈ after, (e'.2.age now).toUInt64 ≤ e.2.lastActivity.toUInt64) ∧
      (∀ e' ∈ before, 0 < (e'.2.age now).toInt → 0 ≤ e'.2.lastActivity.toInt) ∧
      ∀ first, (before.find? fun e' => decide (0 < (e'.2.age now).toInt)) = some first →
        first.2.lastActivity.toUInt64 < (e.2.age now).toUInt64 := by
  have hpos : ∀ e' ∈ before, (0 < ageOf now e' ↔ 0 < (e'.2.age now).toInt) := by
    intro e' he'
    have hmem : e' ∈ b.flows := by
      rw [hsplit]
      exact List.mem_append_left _ he'
    rw [← ageOf_cast h hmem]
    omega
  have hfirst : MarkedScan.firstAged (ageOf now) before =
      before.find? fun e' => decide (0 < (e'.2.age now).toInt) := by
    unfold MarkedScan.firstAged
    refine List.find?_congr fun e' he' => ?_
    rw [decide_eq_decide]
    exact hpos e' he'
  constructor
  · rintro ⟨hkept, hlate, hmark⟩
    refine ⟨fun e' he' => ?_, fun e' he' hage => ?_, fun first hf => ?_⟩
    · have hle := hkept e' he'
      rw [markOf_eq] at hle
      exact UInt64.le_iff_toNat_le.mpr hle
    · exact hlate e' he' ((hpos e' he').mpr hage)
    · have hlt := hmark first (hfirst.trans hf)
      rw [markOf_eq] at hlt
      exact UInt64.lt_iff_toNat_lt.mpr hlt
  · rintro ⟨hkept, hlate, hmark⟩
    refine ⟨fun e' he' => ?_, fun e' he' hage => ?_, fun first hf => ?_⟩
    · rw [markOf_eq]
      exact UInt64.le_iff_toNat_le.mp (hkept e' he')
    · exact hlate e' he' ((hpos e' he').mp hage)
    · rw [markOf_eq]
      exact UInt64.lt_iff_toNat_lt.mp (hmark first (hfirst.symm.trans hf))

/-- **When a flow of greatest age is removed.** -/
theorem evictsOldest_iff_found (h : NotEarlier b.flows now) :
    b.EvictsOldest now ↔ b.OldestIsFound now := by
  unfold EvictsOldest OldestIsFound
  refine imp_congr_right fun hpos => ?_
  obtain ⟨p, hp, hppos⟩ := hpos
  obtain ⟨m, hm, hmax⟩ := exists_max now (List.ne_nil_of_mem hp)
  have hApos : 0 < ageOf now m := by
    have hpm := hmax p hp
    rw [← ageOf_cast h hp] at hppos
    omega
  rw [evicts_iff_scan h ⟨m, hm, rfl, hmax⟩, MarkedScan.chosen_max_iff h.marks hmax hApos]
  constructor
  · rintro ⟨before, e, after, hsplit, hage, hfound⟩
    have he : e ∈ b.flows := by
      rw [hsplit]
      exact List.mem_append_right _ List.mem_cons_self
    refine ⟨before, e, after, hsplit, fun e' he' => ?_, (found_iff h hsplit).mp hfound⟩
    rw [← ageOf_cast h he', ← ageOf_cast h he, hage]
    exact Int.ofNat_le.mpr (hmax e' he')
  · rintro ⟨before, e, after, hsplit, hall, hcond⟩
    have he : e ∈ b.flows := by
      rw [hsplit]
      exact List.mem_append_right _ List.mem_cons_self
    have hfound := (found_iff h hsplit).mpr hcond
    refine ⟨before, e, after, hsplit, Nat.le_antisymm (hmax e he) ?_, hfound⟩
    have hme := hall m hm
    rw [← ageOf_cast h hm, ← ageOf_cast h he] at hme
    omega

/-- **The flows that are older than an age** are removed, and no others. -/
theorem evictsOlder (h : NotEarlier b.flows now) : b.EvictsOlder now := by
  intro age hage
  unfold forgetFlowsWhenNecessary
  rw [if_pos (UInt64.pos_iff_ne_zero.mp hage)]
  refine List.filter_congr fun e he => ?_
  unfold isOlder
  rw [← ageOf_cast h he, ← decide_not, decide_eq_decide, UInt64.lt_iff_toNat_lt]
  unfold ageOf
  omega

end Bond

/-! ### When the bond forgets as it should -/

open FlowTable

/-- **What a bond forgets**: at a time that is not earlier than the last activity of any flow, one
flow of greatest age without an age, and the older ones with one, exactly if the scan finds a flow
of greatest age. -/
theorem forgetsAsMeant_iff {b : Bond} {now : Int64} (h : NotEarlier b.flows now) :
    (b.EvictsOldest now ∧ b.EvictsOlder now) ↔ b.OldestIsFound now := by
  rw [Bond.evictsOldest_iff_found h, and_iff_left (Bond.evictsOlder h)]

/-! ### Two flows -/

/-- A time in milliseconds. -/
def evictionTime : Int64 := 1700000000000

/-- A bond with two flows, one that was last active a second ago and one five seconds ago. -/
def twoFlows : Bond :=
  { Bond.init ⟨.balanceXOR, true, 0, 0, 5000, 64, .always, false, false, false⟩ with
    flows := [(1, ⟨1, evictionTime - 1000, 0, some firstSlot⟩),
      (2, ⟨2, evictionTime - 5000, 0, some firstSlot⟩)] }

theorem notEarlier_twoFlows : NotEarlier twoFlows.flows evictionTime := by
  intro e he
  rcases List.mem_cons.mp he with rfl | he
  · decide
  · obtain rfl := List.mem_singleton.mp he
    decide

/-- Whether the older one is removed. -/
theorem forgetsAsMeant_twoFlows : (twoFlows.EvictsOldest evictionTime ∧
    twoFlows.EvictsOlder evictionTime) ↔ twoFlows.OldestIsFound evictionTime :=
  forgetsAsMeant_iff notEarlier_twoFlows

/-- The one that was active a second ago is removed. -/
theorem flows_forget_twoFlows : (twoFlows.forgetFlowsWhenNecessary evictionTime 0 true).flows =
    [(2, ⟨2, evictionTime - 5000, 0, some firstSlot⟩)] := by
  rw [Bond.flows_forgetOldest]
  decide +kernel

theorem not_forgetsAsMeant_twoFlows :
    ¬∀ (b : Bond) (now : Int64), NotEarlier b.flows now →
      b.EvictsOldest now ∧ b.EvictsOlder now := by
  intro h
  have hevicts := (h twoFlows evictionTime notEarlier_twoFlows).1
  obtain ⟨before, e, after, hsplit, hmax, hleft⟩ :=
    hevicts ⟨(1, ⟨1, evictionTime - 1000, 0, some firstSlot⟩), List.mem_cons_self, by decide⟩
  rw [flows_forget_twoFlows] at hleft
  have hsecond := hmax (2, ⟨2, evictionTime - 5000, 0, some firstSlot⟩)
    (List.mem_cons_of_mem _ List.mem_cons_self)
  rcases before with - | ⟨x, before⟩
  · -- the removed flow is the first one, which is not the oldest
    obtain ⟨rfl, -⟩ := List.cons.inj hsplit
    exact absurd hsecond (by decide)
  · obtain ⟨rfl, -⟩ := List.cons.inj hsplit
    have hkey := congrArg Prod.fst (List.cons.inj hleft).1
    exact absurd hkey (by decide)

end ZGalaxy
