/-
ZGalaxy/Leniency.lean

Which DROP an unknown tag excuses.

A tag entry that is taken for a match because the remote tag is missing, or because this node is
the target of a TEE or REDIRECT, has the next DROP skipped.  The flag for it is not reset with the
group, so that it is not the DROP of the same group if that one does not match or is another
action.

`passed` is the row of groups that the loop goes through, each with whether it has such an entry and
whether it ends in a DROP that matches; `excused` has for every DROP that is skipped whether its own
group has such an entry.

Main result: `confined_iff`.
-/
import ZGalaxy.FilterSemantics

namespace ZGalaxy

/-- A group that the loop of the rule engine went through. -/
structure PassedGroup where
  /-- A tag entry of it was taken for a match, and a DROP is to be skipped for it. -/
  lenient : Bool
  /-- It matches and ends in a DROP. -/
  drop : Bool
deriving DecidableEq

namespace FilterContext

variable (c : FilterContext)

/-- A rule is a tag entry that is evaluated and asks for a DROP to be skipped. -/
def asksToSkip (rn : ℕ) (r : Rule) (s : FilterState) : Bool :=
  match r.body with
  | .action _ => false
  | .entry m =>
      !(!s.thisSetMatches && !r.or) && (c.evaluate s.superAccept s.ztDest rn r.not m).skipDrop

/-- A rule is a DROP whose group matches. -/
def isMatchingDrop (r : Rule) (s : FilterState) : Bool :=
  s.thisSetMatches && r.body == .action .drop

/-- The groups that the loop goes through, where the first of them has begun and is lenient already
or not. -/
def passedFrom : ℕ → List Rule → FilterState → Bool → List PassedGroup
  | _, [], _, _ => []
  | rn, r :: rules, s, lenient =>
      match r.body, c.ruleStep rn r s with
      | .action _, (_, some _) => [⟨lenient, isMatchingDrop r s⟩]
      | .action _, (s', none) => ⟨lenient, isMatchingDrop r s⟩ :: passedFrom (rn + 1) rules s' false
      | .entry _, (s', _) => passedFrom (rn + 1) rules s' (lenient || c.asksToSkip rn r s)

/-- For every matching DROP that the loop skips, whether its own group is lenient. -/
def excusedFrom : ℕ → List Rule → FilterState → Bool → List Bool
  | _, [], _, _ => []
  | rn, r :: rules, s, lenient =>
      match r.body, c.ruleStep rn r s with
      | .action _, (_, some _) => []
      | .action _, (s', none) =>
          (if isMatchingDrop r s then [lenient] else []) ++ excusedFrom (rn + 1) rules s' false
      | .entry _, (s', _) => excusedFrom (rn + 1) rules s' (lenient || c.asksToSkip rn r s)

/-- The state that `_doZtFilter` begins with. -/
def startState (args : FilterArgs) : FilterState :=
  ⟨false, true, false, args.ztDest, args.cc, args.ccLength, args.ccWatch, args.qosBucket⟩

/-- The groups that `_doZtFilter` goes through. -/
def passed (rules : List Rule) (args : FilterArgs) : List PassedGroup :=
  c.passedFrom 0 rules (startState args) false

/-- For every matching DROP that `_doZtFilter` skips, whether its own group is lenient. -/
def excused (rules : List Rule) (args : FilterArgs) : List Bool :=
  c.excusedFrom 0 rules (startState args) false

end FilterContext

/-! ### Leaks -/

/-- After groups that end in no matching DROP there is a matching one that has no lenient entry. -/
def StrictDropNext (gs : List PassedGroup) : Prop :=
  ∃ mid g post, gs = mid ++ g :: post ∧ (∀ k ∈ mid, k.drop = false) ∧ g.drop = true ∧
    g.lenient = false

/-- A lenient group that ends in no matching DROP has a matching one after it that is not lenient.
-/
def Leaks (gs : List PassedGroup) : Prop :=
  ∃ pre g post, gs = pre ++ g :: post ∧ g.lenient = true ∧ g.drop = false ∧ StrictDropNext post

/-- The flag leaks, where it is set at the beginning or not. -/
def leak : Bool → List PassedGroup → Bool
  | _, [] => false
  | pending, g :: gs =>
      (g.drop && pending && !g.lenient) || leak (!g.drop && (pending || g.lenient)) gs

theorem strictDropNext_cons (g : PassedGroup) (gs : List PassedGroup) :
    StrictDropNext (g :: gs) ↔
      g.drop = true ∧ g.lenient = false ∨ g.drop = false ∧ StrictDropNext gs := by
  constructor
  · rintro ⟨mid, h, post, heq, hmid, hdrop, hlenient⟩
    cases mid with
    | nil =>
        obtain ⟨rfl, rfl⟩ := List.cons.inj heq
        exact .inl ⟨hdrop, hlenient⟩
    | cons k mid =>
        obtain ⟨rfl, rfl⟩ := List.cons.inj heq
        refine .inr ⟨hmid g List.mem_cons_self, mid, h, post, rfl, fun k' hk' => ?_, hdrop,
          hlenient⟩
        exact hmid k' (List.mem_cons_of_mem g hk')
  · rintro (⟨hdrop, hlenient⟩ | ⟨hno, mid, h, post, rfl, hmid, hdrop, hlenient⟩)
    · exact ⟨[], g, gs, rfl, fun k hk => absurd hk List.not_mem_nil, hdrop, hlenient⟩
    · refine ⟨g :: mid, h, post, rfl, ?_, hdrop, hlenient⟩
      exact List.forall_mem_cons.mpr ⟨hno, hmid⟩

theorem leaks_cons (g : PassedGroup) (gs : List PassedGroup) :
    Leaks (g :: gs) ↔ (g.lenient = true ∧ g.drop = false ∧ StrictDropNext gs) ∨ Leaks gs := by
  constructor
  · rintro ⟨pre, h, post, heq, hlenient, hdrop, hnext⟩
    cases pre with
    | nil =>
        obtain ⟨rfl, rfl⟩ := List.cons.inj heq
        exact .inl ⟨hlenient, hdrop, hnext⟩
    | cons k pre =>
        obtain ⟨rfl, rfl⟩ := List.cons.inj heq
        exact .inr ⟨pre, h, post, rfl, hlenient, hdrop, hnext⟩
  · rintro (h | ⟨pre, h, post, rfl, hlenient, hdrop, hnext⟩)
    · exact ⟨[], g, gs, rfl, h⟩
    · exact ⟨g :: pre, h, post, rfl, hlenient, hdrop, hnext⟩

theorem not_strictDropNext_nil : ¬ StrictDropNext [] := by
  rintro ⟨mid, g, post, heq, -⟩
  cases mid <;> cases heq

theorem not_leaks_nil : ¬ Leaks [] := by
  rintro ⟨pre, g, post, heq, -⟩
  cases pre <;> cases heq

theorem leak_iff (pending : Bool) (gs : List PassedGroup) :
    leak pending gs = true ↔ (pending = true ∧ StrictDropNext gs) ∨ Leaks gs := by
  induction gs generalizing pending with
  | nil =>
      refine iff_of_false Bool.false_ne_true ?_
      rintro (⟨-, h⟩ | h)
      · exact not_strictDropNext_nil h
      · exact not_leaks_nil h
  | cons g gs ih =>
      rw [leak, Bool.or_eq_true, ih, strictDropNext_cons, leaks_cons]
      obtain ⟨lenient, drop⟩ := g
      cases pending <;> cases lenient <;> cases drop <;> simp

/-! ### The loop -/

namespace FilterContext

variable {c : FilterContext}

/-- What an entry does to the flag. -/
theorem ruleStep_entry_skipDrop {r : Rule} {m : Match} (hbody : r.body = .entry m) (rn : ℕ)
    (s : FilterState) :
    (c.ruleStep rn r s).2 = none ∧
      (c.ruleStep rn r s).1.skipDrop = (s.skipDrop || c.asksToSkip rn r s) := by
  unfold ruleStep asksToSkip
  rw [hbody]
  dsimp only
  by_cases hskip : (!s.thisSetMatches && !r.or) = true
  · rw [if_pos hskip, hskip]
    exact ⟨rfl, (Bool.or_false _).symm⟩
  · rw [if_neg hskip, Bool.eq_false_iff.mpr hskip]
    exact ⟨rfl, rfl⟩

theorem forward_skipDrop {s s' : FilterState} {fwd : Fwd}
    {action : FilterState → Address → FilterState × Option FilterResult}
    (haction : ∀ fwdAddr, (action s fwdAddr).1.skipDrop = s.skipDrop) {result : Option FilterResult}
    (h : c.forward s fwd action = (s', result)) : s'.skipDrop = s.skipDrop := by
  have hs := congrArg (fun x : FilterState × Option FilterResult => x.1.skipDrop) h
  rw [← hs]
  unfold forward
  dsimp only
  by_cases hsource : Address.ofUInt64 fwd.address = c.ztSource
  · rw [if_pos hsource]
  rw [if_neg hsource]
  by_cases hown : Address.ofUInt64 fwd.address = c.ownAddress
  · rw [if_pos hown]
  rw [if_neg hown]
  by_cases hdest : Address.ofUInt64 fwd.address = s.ztDest
  · rw [if_pos hdest]
  · rw [if_neg hdest]
    exact haction _

/-- What an action does to the flag. -/
theorem ruleStep_action_skipDrop {r : Rule} {a : Action} (hbody : r.body = .action a) {rn : ℕ}
    {s s' : FilterState} {result : Option FilterResult} (h : c.ruleStep rn r s = (s', result)) :
    s'.skipDrop = (!isMatchingDrop r s && s.skipDrop) ∧
      (isMatchingDrop r s = true → (result = none ↔ s.skipDrop = true)) := by
  unfold ruleStep at h
  unfold isMatchingDrop
  rw [hbody] at h ⊢
  dsimp only at h
  cases hset : s.thisSetMatches with
  | false =>
      rw [hset, if_neg Bool.false_ne_true] at h
      rw [Bool.false_and, Bool.not_false, Bool.true_and]
      refine ⟨?_, fun hf => absurd hf Bool.false_ne_true⟩
      exact congrArg (fun x : FilterState × Option FilterResult => x.1.skipDrop) h.symm
  | true =>
      rw [hset, if_pos rfl] at h
      rw [Bool.true_and]
      by_cases hdrop : a = .drop
      · subst hdrop
        unfold takeAction at h
        have hbeq : (Body.action Action.drop == Body.action Action.drop) = true :=
          beq_self_eq_true _
        rw [hbeq, Bool.not_true, Bool.false_and]
        cases hskip : s.skipDrop with
        | false =>
            rw [hskip, if_neg Bool.false_ne_true] at h
            cases h
            exact ⟨hskip, fun _ => iff_of_false (fun h => nomatch h) Bool.false_ne_true⟩
        | true =>
            rw [hskip, if_pos rfl] at h
            cases h
            exact ⟨rfl, fun _ => iff_of_true rfl rfl⟩
      · have hbeq : (Body.action a == Body.action Action.drop) = false := by
          apply beq_eq_false_iff_ne.mpr
          intro heq
          exact hdrop (Body.action.inj heq)
        rw [hbeq, Bool.not_false, Bool.true_and]
        refine ⟨?_, fun hf => absurd hf Bool.false_ne_true⟩
        unfold takeAction at h
        cases a with
        | drop => exact absurd rfl hdrop
        | tee fwd => exact forward_skipDrop (fun _ => rfl) h
        | watch fwd => exact forward_skipDrop (fun _ => rfl) h
        | redirect fwd => exact forward_skipDrop (fun _ => rfl) h
        | _ => exact congrArg (fun x : FilterState × Option FilterResult => x.1.skipDrop) h.symm

/-- The flag at the beginning of a group is `pending`, and what the group adds is `lenient`. -/
theorem excused_iff_leak (rules : List Rule) (rn : ℕ) (s : FilterState) (pending lenient : Bool)
    (hflag : s.skipDrop = (pending || lenient)) :
    (∃ b ∈ c.excusedFrom rn rules s lenient, b = false) ↔
      leak pending (c.passedFrom rn rules s lenient) = true := by
  -- on the rules: an entry may add to what is lenient, an action begins a group anew
  induction rules generalizing rn s pending lenient with
  | nil => exact iff_of_false (fun h => nomatch h.choose_spec.1) Bool.false_ne_true
  | cons r rules ih =>
      rw [excusedFrom, passedFrom]
      rcases hs : c.ruleStep rn r s with ⟨s', result⟩
      cases hbody : r.body with
      | entry m =>
          have hstep := (ruleStep_entry_skipDrop (c := c) hbody rn s).2
          rw [hs, hflag, Bool.or_assoc] at hstep
          exact ih (rn + 1) s' pending _ hstep
      | action a =>
          obtain ⟨hkept, hdrop⟩ := ruleStep_action_skipDrop hbody hs
          cases result with
          -- the loop returns here: the action is no drop that was excused
          | some result =>
              refine iff_of_false (fun h => nomatch h.choose_spec.1) ?_
              show ((isMatchingDrop r s && pending && !lenient) || false) ≠ true
              cases hd : isMatchingDrop r s with
              | false => simp
              | true =>
                  have hno : s.skipDrop ≠ true := fun h => nomatch (hdrop hd).mpr h
                  rw [hflag] at hno
                  cases pending with
                  | false => simp
                  | true => exact absurd rfl hno
          | none =>
              rw [hflag] at hkept
              have hrest := ih (rn + 1) s' (!isMatchingDrop r s && (pending || lenient)) false
                (by rw [hkept, Bool.or_false])
              show (∃ b ∈ (if isMatchingDrop r s then [lenient] else [])
                ++ c.excusedFrom (rn + 1) rules s' false, b = false) ↔
                ((isMatchingDrop r s && pending && !lenient)
                  || leak (!isMatchingDrop r s && (pending || lenient))
                    (c.passedFrom (rn + 1) rules s' false)) = true
              rw [Bool.or_eq_true, ← hrest]
              cases hd : isMatchingDrop r s with
              | false => simp
              | true =>
                  have hset := (hdrop hd).mp rfl
                  rw [hflag] at hset
                  cases lenient with
                  | false =>
                      rw [Bool.or_false] at hset
                      rw [hset]
                      simp
                  | true => simp

variable (c) in
/-- **Leniency is confined**, for every rule list, frame and direction: each DROP that is skipped
has a lenient entry in its own group, unless a lenient group that ends in no matching DROP is
followed by a matching DROP of a group that is not lenient, with no matching DROP in between. -/
theorem confined_iff (rules : List Rule) (args : FilterArgs) :
    (∀ b ∈ c.excused rules args, b = true) ↔ ¬ Leaks (c.passed rules args) := by
  have h := excused_iff_leak (c := c) rules 0 (startState args) false false rfl
  rw [leak_iff] at h
  constructor
  · intro hall hleaks
    obtain ⟨b, hb, hfalse⟩ := h.mpr (.inr hleaks)
    rw [hall b hb] at hfalse
    cases hfalse
  · intro hno b hb
    cases b with
    | true => rfl
    | false =>
        rcases h.mp ⟨false, hb, rfl⟩ with ⟨hpending, -⟩ | hleaks
        · cases hpending
        · exact absurd hleaks hno

/-! ### A DROP that is not its own -/

/-- A frame on its way to node 4, of which no tag is known. -/
def outboundContext : FilterContext where
  ownAddress := 5
  nconf := NetworkConfig.none
  membership := none
  inbound := false
  ztSource := 5
  frame := ⟨1, 2, fun _ => 0, 64, 0x0800, 0⟩
  prng := fun _ => 0

/-- What has tag 7 of the receiver and MAC 9 is accepted, everything else is dropped; if it is not,
it is accepted. -/
def leakingRules : List Rule :=
  [⟨false, false, .entry (.tagReceiver 7 1)⟩, ⟨false, false, .entry (.macSource 9)⟩,
    ⟨false, false, .action .accept⟩, ⟨false, false, .action .drop⟩, ⟨false, false, .action .accept⟩]

/-- **An unconditional DROP is skipped** for a tag entry of another group, which did not even
match. -/
theorem unconditional_drop_skipped :
    outboundContext.excused leakingRules ⟨4, 0, 0, false, 255⟩ = [false] ∧
      (outboundContext.doZtFilter leakingRules ⟨4, 0, 0, false, 255⟩).1 = .accept := by
  refine ⟨by decide +kernel, by decide +kernel⟩

end FilterContext

end ZGalaxy
