/-
ZGalaxy/Wakeups.lean

Which requests of the main loop the resolver hears.

The resolver waits without a condition, so a notification counts only where it is waiting already.
A request that comes on time, when the resolver waits or has not yet begun the pass it was woken
for, is followed by a pass, unless `_zgalaxyDnsRun` is cleared before the resolver has looked at it
(`requests_heard`).  A request that comes earlier, as the first one can at the start of the service,
may be lost for good (`request_lost`).

The proof follows the resolver from its wait to its pass by the rule for what must happen, twice.
-/
import Mathlib.Tactic.IntervalCases
import ZGalaxy.DnsService

namespace ZGalaxy

/-- The main thread has not started the resolver. -/
def MainThread.early : MainThread → Bool
  | .booting => true
  | .seeded => true
  | _ => false

/-- The main thread has started the resolver and has not told it to end. -/
def MainThread.inside : MainThread → Bool
  | .booting => false
  | .seeded => false
  | .cleared => false
  | .joining => false
  | .ended => false
  | _ => true

/-- The resolver has something to do, where it does not wait. -/
def Resolver.busy : Resolver → Bool
  | .unborn => false
  | .waiting => false
  | .ended => false
  | _ => true

namespace Service

variable {ecc : Ecc} {s s' : Service}

/-! ### The invariant -/

/-- The resolver runs as long as the main loop does. -/
structure Together (s : Service) : Prop where
  early : s.main.early = true → s.resolver = .unborn
  inside : s.main.inside = true → s.run = true

theorem Booting.together (h : s.Booting) : s.Together := by
  refine ⟨fun _ => h.resolver, fun hinside => ?_⟩
  rw [h.main] at hinside
  cases hinside

/-- The main thread goes on where it is not told apart. -/
theorem Together.moves (h : s.Together) {main : MainThread} (hmain : main.early = false)
    (hrun : main.inside = true → s.main.inside = true) {r : Resolver} {dns : DnsState}
    {requests : Requests} :
    Together { s with main := main, resolver := r, dns := dns, requests := requests } := by
  refine ⟨fun hearly => ?_, fun hinside => h.inside (hrun hinside)⟩
  rw [hmain] at hearly
  cases hearly

/-- The resolver goes on. -/
theorem Together.goes (h : s.Together) (hr : s.resolver ≠ .unborn) {r : Resolver} {dns : DnsState}
    {requests : Requests} :
    Together { s with resolver := r, dns := dns, requests := requests } :=
  ⟨fun hearly => absurd (h.early hearly) hr, h.inside⟩

theorem Together.step {a : ServiceAction} (h : s.Together) (hstep : s.step ecc a = some s') :
    s'.Together := by
  cases step_does hstep with
  | seeds hmain =>
      refine ⟨fun _ => h.early ?_, fun hinside => absurd hinside Bool.false_ne_true⟩
      rw [hmain]
      rfl
  | launches => exact ⟨fun hearly => absurd hearly Bool.false_ne_true, fun _ => rfl⟩
  | requests hmain =>
      refine h.moves rfl fun _ => ?_
      rcases hmain with hmain | hmain <;> rw [hmain] <;> rfl
  | passes hmain =>
      refine h.moves rfl fun _ => ?_
      rcases hmain with hmain | hmain <;> rw [hmain] <;> rfl
  | copies hmain => exact h.moves rfl fun _ => hmain ▸ rfl
  | judges now hasAlivePath c hmain => exact h.moves rfl fun _ => hmain ▸ rfl
  | quits hmain => exact h.moves rfl fun _ => hmain ▸ rfl
  | clears =>
      exact ⟨fun hearly => absurd hearly Bool.false_ne_true,
        fun hinside => absurd hinside Bool.false_ne_true⟩
  | parts =>
      refine h.moves rfl fun hinside => ?_
      cases hinside
  | joins =>
      refine h.moves rfl fun hinside => ?_
      cases hinside
  | configures _ a d hd => exact ⟨h.early, h.inside⟩
  | node e => exact ⟨h.early, h.inside⟩
  | looks hr => exact h.goes fun hunborn => by cases hr.symm.trans hunborn
  | waits hr => exact h.goes fun hunborn => by cases hr.symm.trans hunborn
  | wakes hr => exact h.goes fun hunborn => by cases hr.symm.trans hunborn
  | checks hr => exact h.goes fun hunborn => by cases hr.symm.trans hunborn
  | begins now hr => exact h.goes fun hunborn => by cases hr.symm.trans hunborn
  | records r d hrecords =>
      refine h.goes fun hunborn => ?_
      rw [hunborn] at hrecords
      cases hrecords

/-! ### From the wait to the pass -/

/-- The action comes at a time when no request is lost by it. -/
def OnTime (s : Service) : ServiceAction → Prop
  | .request => s.resolver = .waiting ∨ s.resolver = .woken ∨ s.resolver = .starting
  | .clear => s.resolver = .woken → s.requests.owed = false
  | _ => True

/-- The resolver has been woken for a request. -/
structure Roused (s : Service) : Prop where
  resolver : s.resolver = .woken
  run : s.run = true
  owed : s.requests.owed = true

/-- What a request makes of a resolver that hears it. -/
theorem roused_of_request (h : s.Together) (hontime : s.OnTime .request)
    (hstep : s.step ecc .request = some s') : s'.Roused ∨ s'.resolver = .starting := by
  cases step_does hstep with
  | configures _ _ _ hd => cases hd
  | requests hmain =>
      have hrun : s.run = true := by
        refine h.inside ?_
        rcases hmain with hmain | hmain <;> rw [hmain] <;> rfl
      rcases hontime with hr | hr | hr
      · refine Or.inl ⟨?_, hrun, rfl⟩
        show s.resolver.notified = .woken
        rw [hr]
        rfl
      · refine Or.inl ⟨?_, hrun, rfl⟩
        show s.resolver.notified = .woken
        rw [hr]
        rfl
      · refine Or.inr ?_
        show s.resolver.notified = .starting
        rw [hr]
        rfl

theorem starting_of_check (hrun : s.run = true) (hstep : s.step ecc .check = some s') :
    s'.resolver = .starting := by
  cases step_does hstep with
  | configures _ _ _ hd => cases hd
  | checks =>
      show (if s.run = true then Resolver.starting else .ended) = .starting
      rw [if_pos hrun]

/-- It stays woken until it looks at `_zgalaxyDnsRun`. -/
theorem Roused.step {a : ServiceAction} (hroused : s.Roused) (h : s.Together)
    (hontime : s.OnTime a) (hstep : s.step ecc a = some s') :
    s'.resolver = .starting ∨ s'.Roused := by
  obtain ⟨hr, hrun, howed⟩ := hroused
  have hborn : s.main.early = false := by
    rw [← Bool.not_eq_true]
    intro hearly
    cases (h.early hearly).symm.trans hr
  cases step_does hstep with
  | seeds => exact Or.inr ⟨hr, hrun, howed⟩
  | launches hmain =>
      rw [hmain] at hborn
      cases hborn
  | requests =>
      refine Or.inr ⟨?_, hrun, rfl⟩
      show s.resolver.notified = .woken
      rw [hr]
      rfl
  | passes => exact Or.inr ⟨hr, hrun, howed⟩
  | copies => exact Or.inr ⟨hr, hrun, howed⟩
  | judges => exact Or.inr ⟨hr, hrun, howed⟩
  | quits => exact Or.inr ⟨hr, hrun, howed⟩
  | clears => cases (hontime hr).symm.trans howed
  | parts =>
      refine Or.inr ⟨?_, hrun, howed⟩
      show s.resolver.notified = .woken
      rw [hr]
      rfl
  | joins => exact Or.inr ⟨hr, hrun, howed⟩
  | configures => exact Or.inr ⟨hr, hrun, howed⟩
  | node => exact Or.inr ⟨hr, hrun, howed⟩
  | looks hat => cases hr.symm.trans hat
  | waits hat => cases hr.symm.trans hat
  | wakes hat => cases hr.symm.trans hat
  | begins now hat => cases hr.symm.trans hat
  | checks =>
      refine Or.inl ?_
      show (if s.run = true then Resolver.starting else .ended) = .starting
      rw [if_pos hrun]
  | records r d hrecords =>
      rw [hr] at hrecords
      cases hrecords

/-- It begins a pass. -/
def Begins (a : ServiceAction) : Prop := ∃ now, a = .begin now

/-- A resolver that has seen that it is to go on stays so until it begins a pass. -/
theorem starting_step {a : ServiceAction} (hr : s.resolver = .starting) (h : s.Together)
    (hstep : s.step ecc a = some s') : Begins a ∨ s'.resolver = .starting := by
  cases step_does hstep with
  | launches hmain =>
      have hunborn : s.resolver = .unborn := h.early (hmain ▸ rfl)
      cases hunborn.symm.trans hr
  | requests =>
      refine Or.inr ?_
      show s.resolver.notified = .starting
      rw [hr]
      rfl
  | parts =>
      refine Or.inr ?_
      show s.resolver.notified = .starting
      rw [hr]
      rfl
  | looks hat => cases hr.symm.trans hat
  | waits hat => cases hr.symm.trans hat
  | wakes hat => cases hr.symm.trans hat
  | checks hat => cases hr.symm.trans hat
  | begins now => exact Or.inl ⟨now, rfl⟩
  | records r d hrecords =>
      rw [hr] at hrecords
      cases hrecords
  | _ => exact Or.inr hr

/-! ### Behaviours -/

/-- The resolver has something to do. -/
def Busy (s : Service) : Prop := s.resolver.busy = true

/-- What the resolver does by itself. -/
def ByResolver (a : ServiceAction) : Prop :=
  a = .look ∨ a = .wait ∨ a = .check ∨ (∃ now, a = .begin now) ∨ a = .record

/-- Where the resolver is tells what it does next. -/
theorem at_of_byResolver {a : ServiceAction} (ha : ByResolver a)
    (hstep : s.step ecc a = some s') :
    a = .look ∧ s.resolver = .atTop ∨ a = .wait ∧ s.resolver = .entering ∨
      a = .check ∧ s.resolver = .woken ∨ Begins a ∧ s.resolver = .starting ∨
      a = .record ∧ ∃ attempt planet moons, s.resolver = .resolving attempt planet moons := by
  have hdoes := step_does hstep
  rcases ha with rfl | rfl | rfl | ⟨now, rfl⟩ | rfl
  · cases hdoes with
    | configures _ _ _ hd => cases hd
    | looks hat => exact Or.inl ⟨rfl, hat⟩
  · cases hdoes with
    | configures _ _ _ hd => cases hd
    | waits hat => exact Or.inr (Or.inl ⟨rfl, hat⟩)
  · cases hdoes with
    | configures _ _ _ hd => cases hd
    | checks hat => exact Or.inr (Or.inr (Or.inl ⟨rfl, hat⟩))
  · cases hdoes with
    | configures _ _ _ hd => cases hd
    | begins _ hat => exact Or.inr (Or.inr (Or.inr (Or.inl ⟨⟨now, rfl⟩, hat⟩)))
  · cases hdoes with
    | configures _ _ _ hd => cases hd
    | records r d hrecords =>
        refine Or.inr (Or.inr (Or.inr (Or.inr ⟨rfl, ?_⟩)))
        generalize s.resolver = from_ at hrecords ⊢
        cases hrecords with
        | planet attempt moons => exact ⟨attempt, true, moons, rfl⟩
        | moon attempt id moons => exact ⟨attempt, false, id :: moons, rfl⟩
        | ended attempt => exact ⟨attempt, false, [], rfl⟩

/-- A behaviour of the service from its start, in which the resolver goes on as long as it has
something to do, and so every attempt to resolve a name comes to an end. -/
structure Running (b : Behaviour (step ecc)) : Prop where
  booting : (b.state 0).Booting
  fair : b.Fair Busy ByResolver

/-- Every request is followed by a pass that begins after it. -/
def AllHeard (b : Behaviour (step ecc)) : Prop :=
  ∀ i, b.action i = some .request → ∃ j, i < j ∧ ∃ a, b.action j = some a ∧ Begins a

/-- All actions come on time. -/
def AllOnTime (b : Behaviour (step ecc)) : Prop :=
  ∀ i a, b.action i = some a → (b.state i).OnTime a

variable {b : Behaviour (step ecc)}

theorem Running.together (h : Running b) (i : ℕ) : (b.state i).Together :=
  b.always h.booting.together (fun _ _ _ => Together.step) i

/-- **The pass comes**, once the resolver has seen that it is to go on. -/
theorem begins_of_starting (h : Running b) {i : ℕ} (hstarting : (b.state i).resolver = .starting) :
    ∃ j, i ≤ j ∧ ∃ a, b.action j = some a ∧ Begins a := by
  refine b.eventually_of_fair (P := fun j => (b.state j).resolver = .starting) h.fair hstarting
    ?_ ?_ ?_
  · intro j _ hj
    rcases b.stays_or_steps j with ⟨-, hstays⟩ | ⟨a, haction, hstep⟩
    · rw [hstays]
      exact Or.inr hj
    · exact (starting_step hj (h.together j) hstep).imp_left fun hbegins => ⟨a, haction, hbegins⟩
  · intro j hj
    rw [Busy, hj]
    rfl
  · intro j a hj haction ha
    have hstep := b.steps haction
    refine ⟨a, haction, ?_⟩
    rcases at_of_byResolver ha hstep with ⟨-, h⟩ | ⟨-, h⟩ | ⟨-, h⟩ | ⟨hbegins, -⟩ |
      ⟨-, _, _, _, h⟩
    · cases hj.symm.trans h
    · cases hj.symm.trans h
    · cases hj.symm.trans h
    · exact hbegins
    · cases hj.symm.trans h

/-- **A resolver that is woken for a request** gets to see that it is to go on. -/
theorem starting_of_roused (h : Running b) (hontime : AllOnTime b) {i : ℕ}
    (hroused : (b.state i).Roused) : ∃ j, i ≤ j ∧ (b.state (j + 1)).resolver = .starting := by
  refine b.eventually_of_fair (P := fun j => (b.state j).Roused) h.fair hroused ?_ ?_ ?_
  · intro j _ hj
    rcases b.stays_or_steps j with ⟨-, hstays⟩ | ⟨a, haction, hstep⟩
    · rw [hstays]
      exact Or.inr hj
    · exact hj.step (h.together j) (hontime j a haction) hstep
  · intro j hj
    rw [Busy, hj.resolver]
    rfl
  · intro j a hj haction ha
    have hstep := b.steps haction
    have hr := hj.resolver
    rcases at_of_byResolver ha hstep with ⟨-, h⟩ | ⟨-, h⟩ | ⟨rfl, -⟩ | ⟨-, h⟩ | ⟨-, _, _, _, h⟩
    · cases hr.symm.trans h
    · cases hr.symm.trans h
    · exact starting_of_check hj.run hstep
    · cases hr.symm.trans h
    · cases hr.symm.trans h

/-- **Requests that come on time are heard.**  In every behaviour in which each request is made
while the resolver waits, or has been woken and has not yet begun its pass, and in which
`_zgalaxyDnsRun` is not cleared while a resolver that was woken for a request has yet to look at
it, every request is followed by a pass that begins after it. -/
theorem requests_heard (h : Running b) (hontime : AllOnTime b) : AllHeard b := by
  intro i hrequest
  have hstep := b.steps hrequest
  have hheard := roused_of_request (h.together i) (hontime i _ hrequest) hstep
  have hstarting : ∃ j, i < j ∧ (b.state j).resolver = .starting := by
    rcases hheard with hroused | hstarting
    · obtain ⟨j, hj, hstarting⟩ := starting_of_roused h hontime hroused
      exact ⟨j + 1, Nat.lt_of_lt_of_le (Nat.lt_succ_self i) (Nat.le_succ_of_le hj), hstarting⟩
    · exact ⟨i + 1, Nat.lt_succ_self i, hstarting⟩
  obtain ⟨j, hij, hstarting⟩ := hstarting
  obtain ⟨k, hjk, hbegins⟩ := begins_of_starting h hstarting
  exact ⟨k, Nat.lt_of_lt_of_le hij hjk, hbegins⟩

/-! ### Runs that come to rest -/

/-- A run after which the resolver waits is a behaviour of the service. -/
theorem running_ofList {as : List ServiceAction} (hs : s.Booting)
    (hsome : (execute (step ecc) s as).isSome)
    (hrest : (execute (step ecc) s as).map Service.resolver = some .waiting) :
    Running (Behaviour.ofList s as hsome) := by
  refine ⟨?_, fun i hbusy => ?_⟩
  · exact hs
  · obtain ⟨s', hs'⟩ := Option.isSome_iff_exists.mp hsome
    rw [hs'] at hrest
    have hrests : (Behaviour.ofList s as hsome).state (i + as.length) = s' :=
      Behaviour.ofList_rests hsome hs' (Nat.le_add_left _ i)
    have hnever := hbusy (i + as.length) (Nat.le_add_right i _)
    rw [Busy, hrests, Option.some.inj hrest] at hnever
    cases hnever

/-- A service with a planet domain, before its start. -/
def withDomain : Service where
  main := .booting
  resolver := .unborn
  run := false
  dns := ⟨"planet.example", [], 0, 0, 0, 0⟩
  topology := Topology.new (Topology.eccOf true) ⟨0x0102030405, []⟩ []
  requests := ⟨false, none, fun _ => none⟩

/-- The resolver waits before the first request is made. -/
def lateRequest : List ServiceAction :=
  [.seed, .launch, .look, .wait, .request, .check, .begin 1000, .record, .record, .look, .wait]

theorem isSome_lateRequest :
    (execute (step (Topology.eccOf true)) withDomain lateRequest).isSome := by
  decide +kernel

/-- A first request that is heard. -/
theorem requests_heard_late :
    ∃ j, 4 < j ∧ ∃ a, (Behaviour.ofList withDomain lateRequest isSome_lateRequest).action j = some a
      ∧ Begins a := by
  have hrunning : Running (Behaviour.ofList withDomain lateRequest isSome_lateRequest) :=
    running_ofList ⟨rfl, rfl, rfl⟩ isSome_lateRequest (by decide +kernel)
  have hontime : AllOnTime (Behaviour.ofList withDomain lateRequest isSome_lateRequest) := by
    intro i a haction
    have hi : i < 11 := (List.getElem?_eq_some_iff.mp haction).1
    by_cases hfour : i = 4
    · subst hfour
      cases haction
      refine Or.inl ?_
      decide +kernel
    · interval_cases i
      all_goals first
        | exact absurd rfl hfour
        | cases haction; exact trivial
  exact requests_heard hrunning hontime 4 rfl

/-- The main loop asks for a pass before the resolver has begun to wait, and never again. -/
def firstRequest : List ServiceAction := [.seed, .launch, .request, .look, .wait]

theorem isSome_firstRequest :
    (execute (step (Topology.eccOf true)) withDomain firstRequest).isSome := by
  decide +kernel

/-- **A request that comes too early** is lost. -/
theorem request_lost : ¬ ∀ (ecc : Ecc) (b : Behaviour (step ecc)), Running b → AllHeard b := by
  intro h
  have hrunning : Running (Behaviour.ofList withDomain firstRequest isSome_firstRequest) :=
    running_ofList ⟨rfl, rfl, rfl⟩ isSome_firstRequest (by decide +kernel)
  obtain ⟨j, hj, a, haction, now, rfl⟩ := h _ _ hrunning 2 rfl
  have hmem : ServiceAction.begin now ∈ firstRequest := List.mem_of_getElem? haction
  simp [firstRequest] at hmem

end Service

end ZGalaxy
