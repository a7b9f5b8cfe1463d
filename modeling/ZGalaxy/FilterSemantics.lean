/-
ZGalaxy/FilterSemantics.lean

What a rule list means.

A rule list is read as groups: a run of match entries, followed by one action.  A group
matches when the fold of its entries does (`setMatches`); nothing is skipped there.  The
verdict of a list is that of the first matching group with a terminal action, together with the
last copy that a matching group before it orders (`verdict`).

Main result: `doZtFilter_eq_verdict`, the loop returns the verdict.  It carries the fold
in one flag; the invariant is that the flag is the fold over the entries read since the
last action.
-/
import ZGalaxy.Filter

namespace ZGalaxy

/-! ### Groups -/

/-- A match entry with its bits. -/
structure Entry where
  not : Bool
  or : Bool
  body : Match
deriving DecidableEq

/-- A run of match entries and the action that ends it. -/
structure Group where
  entries : List Entry
  action : Action
deriving DecidableEq

/-- The groups of a rule list, when `entries` have been read since the last action. -/
def groupsFrom : List Entry → List Rule → List Group
  | _, [] => []
  | entries, r :: rules =>
      match r.body with
      | .action a => ⟨entries, a⟩ :: groupsFrom [] rules
      | .entry m => groupsFrom (entries ++ [⟨r.not, r.or, m⟩]) rules

/-- The groups of a rule list. -/
def groups (rules : List Rule) : List Group := groupsFrom [] rules

/-- What a TEE or WATCH orders. -/
structure Copy where
  cc : Address
  ccLength : ℕ
  ccWatch : Bool
deriving DecidableEq

/-- The arguments, after a copy that replaces the one ordered before. -/
def FilterArgs.withCopy (args : FilterArgs) (copy : Copy) : FilterArgs :=
  { args with cc := copy.cc, ccLength := copy.ccLength, ccWatch := copy.ccWatch }

/-- The arguments as a state has them. -/
def FilterState.args (s : FilterState) : FilterArgs :=
  ⟨s.ztDest, s.cc, s.ccLength, s.ccWatch, s.qosBucket⟩

namespace FilterContext

variable (c : FilterContext) (ztDest : Address)

/-! ### The verdict -/

/-- The value of an entry, not yet negated. -/
def entryValue (e : Entry) : Bool := (c.evaluate false ztDest 0 e.not e.body).thisRuleMatches

/-- AND, or OR when the bit is set, of the value negated when the other bit is set. -/
def combine (acc : Bool) (e : Entry) : Bool :=
  if e.or then acc || (c.entryValue ztDest e ^^ e.not) else acc && (c.entryValue ztDest e ^^ e.not)

/-- The fold of the entries of a group, from true on. -/
def setMatches (entries : List Entry) : Bool := entries.foldl (c.combine ztDest) true

/-- The destination is neither source, destination nor this node. -/
def Effective (fwd : Fwd) : Prop :=
  Address.ofUInt64 fwd.address ≠ c.ztSource ∧ Address.ofUInt64 fwd.address ≠ c.ownAddress
    ∧ Address.ofUInt64 fwd.address ≠ ztDest

instance (fwd : Fwd) : Decidable (c.Effective ztDest fwd) := by
  unfold Effective; infer_instance

/-- The result of a terminal action. -/
def terminal : Action → Option FilterResult
  | .drop => some .drop
  | .accept | .priority _ => some .accept
  | .breakOut => some .noMatch
  | .redirect fwd => if c.Effective ztDest fwd then some .redirect else none
  | .tee _ | .watch _ | .reserved _ => none

/-- The copy that an action orders. -/
def copyOf : Action → Option Copy
  | .tee fwd =>
      if c.Effective ztDest fwd then
        some ⟨Address.ofUInt64 fwd.address, c.teeLength fwd.length, false⟩
      else none
  | .watch fwd =>
      if c.Effective ztDest fwd then
        some ⟨Address.ofUInt64 fwd.address, c.teeLength fwd.length, true⟩
      else none
  | _ => none

/-- The arguments after a terminal action: the new destination, or the bucket. -/
def afterTerminal (args : FilterArgs) : Action → FilterArgs
  | .redirect fwd => { args with ztDest := Address.ofUInt64 fwd.address }
  | .priority qosBucket => { args with qosBucket := if qosBucket ≤ 8 then qosBucket else 4 }
  | _ => args

/-- The group matches and its action is terminal. -/
def decides (g : Group) : Bool :=
  c.setMatches ztDest g.entries && (c.terminal ztDest g.action).isSome

/-- The copy that a group orders, if it matches. -/
def groupCopy (g : Group) : Option Copy :=
  if c.setMatches ztDest g.entries then c.copyOf ztDest g.action else none

/-- The last copy ordered before the group that decides. -/
def lastCopy (gs : List Group) : Option Copy :=
  ((gs.takeWhile fun g => !c.decides ztDest g).filterMap (c.groupCopy ztDest)).getLast?

/-- **The meaning of a rule list**, given its groups. -/
def verdict (gs : List Group) (args : FilterArgs) : FilterResult × FilterArgs :=
  let args' := ((c.lastCopy args.ztDest gs).map args.withCopy).getD args
  match gs.find? (c.decides args.ztDest) with
  | some g => ((c.terminal args.ztDest g.action).getD .noMatch, afterTerminal args' g.action)
  | none => (.noMatch, args')

/-! ### Reading the verdict group by group -/

variable {c} {args : FilterArgs} {g : Group} {gs : List Group}

/-- A group that decides ends the verdict. -/
theorem verdict_decides {result : FilterResult} (hm : c.setMatches args.ztDest g.entries = true)
    (ht : c.terminal args.ztDest g.action = some result) :
    c.verdict (g :: gs) args = (result, afterTerminal args g.action) := by
  have hd : c.decides args.ztDest g = true := by rw [decides, hm, ht]; rfl
  unfold verdict lastCopy
  rw [List.find?_cons_of_pos hd, List.takeWhile_cons_of_neg (by rw [hd]; exact nofun)]
  dsimp only
  rw [ht]
  rfl

/-- A group that neither decides nor orders a copy does not count. -/
theorem verdict_skip (hd : c.decides args.ztDest g = false)
    (hc : c.groupCopy args.ztDest g = none) : c.verdict (g :: gs) args = c.verdict gs args := by
  unfold verdict lastCopy
  rw [List.find?_cons_of_neg (by rw [hd]; exact nofun),
    List.takeWhile_cons_of_pos (by rw [hd]; rfl), List.filterMap_cons_none hc]

/-- The last copy is the one that counts. -/
theorem getLast?_cons_withCopy (copy : Copy) (copies : List Copy) :
    ((copy :: copies).getLast?.map args.withCopy).getD args
      = (copies.getLast?.map (args.withCopy copy).withCopy).getD (args.withCopy copy) := by
  rw [List.getLast?_cons]
  rcases copies.getLast? with - | last
  · rfl
  · rfl

/-- A group that orders a copy changes the arguments for the groups after it. -/
theorem verdict_copy {copy : Copy} (hd : c.decides args.ztDest g = false)
    (hc : c.groupCopy args.ztDest g = some copy) :
    c.verdict (g :: gs) args = c.verdict gs (args.withCopy copy) := by
  have hlast : ((c.lastCopy args.ztDest (g :: gs)).map args.withCopy).getD args
      = ((c.lastCopy args.ztDest gs).map (args.withCopy copy).withCopy).getD
        (args.withCopy copy) := by
    unfold lastCopy
    rw [List.takeWhile_cons_of_pos (by rw [hd]; rfl), List.filterMap_cons_some hc,
      getLast?_cons_withCopy]
  unfold verdict
  rw [List.find?_cons_of_neg (by rw [hd]; exact nofun), hlast]
  rfl

/-! ### What a run consults -/

variable (c)

/-- The remote tag that the value of a match depends on. -/
def remoteTagOf : Match → Option UInt32
  | .tags _ id _ => if (c.localTag id).isSome then some id else none
  | .tagSender id _ => if c.inbound then some id else none
  | .tagReceiver id _ => if c.inbound then none else some id
  | _ => none

/-- The remote tag that one turn of the loop consults: none if the entry is skipped. -/
def consultedBy (r : Rule) (s : FilterState) : Option UInt32 :=
  match r.body with
  | .action _ => none
  | .entry m => if !s.thisSetMatches && !r.or then none else c.remoteTagOf m

/-- The remote tags that the loop consults, from rule `rn` on. -/
def consultedTags : ℕ → List Rule → FilterState → List UInt32
  | _, [], _ => []
  | rn, r :: rules, s =>
      (c.consultedBy r s).toList ++
        match c.ruleStep rn r s with
        | (_, some _) => []
        | (s', none) => consultedTags (rn + 1) rules s'

/-- The state after the entries read since the last action. -/
def stateAt (entries : List Entry) (args : FilterArgs) : FilterState where
  superAccept := false
  thisSetMatches := c.setMatches args.ztDest entries
  skipDrop := false
  ztDest := args.ztDest
  cc := args.cc
  ccLength := args.ccLength
  ccWatch := args.ccWatch
  qosBucket := args.qosBucket

/-- A rule list as the verdict is about: nothing random, and nothing that names this node. -/
structure Plain (rules : List Rule) : Prop where
  notRandom : ∀ r ∈ rules, ∀ p, r.body ≠ .entry (.random p)
  namesOther : ∀ r ∈ rules, ∀ a, r.body = .action a → ∀ fwd ∈ a.fwd,
    Address.ofUInt64 fwd.address ≠ c.ownAddress

variable {c}

theorem Plain.tail {r : Rule} {rules : List Rule} (h : c.Plain (r :: rules)) : c.Plain rules where
  notRandom r' hr' := h.notRandom r' (List.mem_cons_of_mem r hr')
  namesOther r' hr' := h.namesOther r' (List.mem_cons_of_mem r hr')

/-! ### One turn of the loop -/

variable {rn : ℕ} {entries : List Entry}

/-- A tag comparison whose remote tag is there is not lenient. -/
theorem matchTags_skipDrop {hardNo hardYes superAccept : Bool} {op : TagsOp} {id value : UInt32}
    (h : (c.localTag id).isSome → (c.remoteTag id).isSome) :
    (c.matchTags hardNo hardYes superAccept op id value).skipDrop = false := by
  unfold matchTags
  rcases hl : c.localTag id with - | tag
  · rfl
  · obtain ⟨remote, hr⟩ := Option.isSome_iff_exists.mp (h (by rw [hl]; rfl))
    rw [hr]
    rfl

theorem matchTag_skipDrop {hardNo hardYes receiver : Bool} {id value : UInt32}
    (h : receiver ≠ c.inbound → (c.remoteTag id).isSome) :
    (c.matchTag hardNo hardYes false receiver id value).skipDrop = false := by
  unfold matchTag
  rw [if_neg Bool.false_ne_true]
  by_cases hi : (receiver != c.inbound) = true
  · obtain ⟨remote, hr⟩ := Option.isSome_iff_exists.mp (h (by simpa using hi))
    rw [if_pos hi, hr]
    rfl
  · rw [if_neg hi]
    rcases c.localTag id with - | tag
    · rfl
    · rfl

variable (rn) in
/-- An entry that is not random and has its remote tag has a value of its own, wherever it
stands, and skips no DROP. -/
theorem evaluate_eq {e : Entry} (hr : ∀ p, e.body ≠ .random p)
    (ht : ∀ id ∈ c.remoteTagOf e.body, (c.remoteTag id).isSome) :
    c.evaluate false ztDest rn e.not e.body = .of (c.entryValue ztDest e) := by
  obtain ⟨neg, or, m⟩ := e
  have hskip : ∀ ev : Evaluation, ev.skipDrop = false → ev = .of ev.thisRuleMatches := by
    rintro ⟨b, d⟩ rfl
    rfl
  cases m with
  | random p => exact absurd rfl (hr p)
  | tags op id value =>
      refine hskip _ (matchTags_skipDrop fun hl => ht id ?_)
      show id ∈ if (c.localTag id).isSome then some id else none
      rw [if_pos hl]
      rfl
  | tagSender id value =>
      refine hskip _ (matchTag_skipDrop fun hi => ht id ?_)
      show id ∈ if c.inbound then some id else none
      rw [if_pos (by simpa using hi.symm)]
      rfl
  | tagReceiver id value =>
      refine hskip _ (matchTag_skipDrop fun hi => ht id ?_)
      show id ∈ if c.inbound then none else some id
      rw [if_neg (by simpa using hi.symm)]
      rfl
  | _ => rfl

theorem setMatches_concat (e : Entry) :
    c.setMatches ztDest (entries ++ [e]) = c.combine ztDest (c.setMatches ztDest entries) e := by
  rw [setMatches, List.foldl_append]
  rfl

theorem consultedBy_of_not_skipped {r : Rule} {m : Match} {s : FilterState}
    (hb : r.body = .entry m) (hskip : ¬(!s.thisSetMatches && !r.or) = true) :
    c.consultedBy r s = c.remoteTagOf m := by
  unfold consultedBy
  rw [hb]
  exact if_neg hskip

variable (rn) in
/-- **An entry is folded, or may as well have been.** -/
theorem ruleStep_entry {r : Rule} {m : Match} (hb : r.body = .entry m) (hr : ∀ p, m ≠ .random p)
    (ht : ∀ id ∈ c.consultedBy r (c.stateAt entries args), (c.remoteTag id).isSome) :
    c.ruleStep rn r (c.stateAt entries args)
      = (c.stateAt (entries ++ [⟨r.not, r.or, m⟩]) args, none) := by
  unfold ruleStep
  rw [hb]
  dsimp only
  by_cases hskip : (!(c.stateAt entries args).thisSetMatches && !r.or) = true
  · -- the circuit breaker: false AND anything is false
    rw [if_pos hskip]
    obtain ⟨hf, ho⟩ := Bool.and_eq_true_iff.mp hskip
    have hf' : c.setMatches args.ztDest entries = false := (Bool.not_eq_true' _).mp hf
    unfold stateAt
    rw [setMatches_concat, combine, if_neg (by simpa using ho), hf', Bool.false_and]
  · rw [if_neg hskip]
    rw [consultedBy_of_not_skipped hb hskip] at ht
    have he := evaluate_eq args.ztDest rn (e := ⟨r.not, r.or, m⟩) hr ht
    unfold foldEntry stateAt
    dsimp only at he ⊢
    rw [he, setMatches_concat]
    rfl

variable {s : FilterState} {fwd : Fwd}
  {action : FilterState → Address → FilterState × Option FilterResult}

/-- A packet is forwarded to an effective destination. -/
theorem forward_effective (h : c.Effective s.ztDest fwd) :
    c.forward s fwd action = action s (Address.ofUInt64 fwd.address) := by
  unfold forward
  dsimp only
  rw [if_neg h.1, if_neg h.2.1, if_neg h.2.2]

/-- It is not to any other, this node apart. -/
theorem forward_other (hn : Address.ofUInt64 fwd.address ≠ c.ownAddress)
    (h : ¬c.Effective s.ztDest fwd) : c.forward s fwd action = (s, none) := by
  unfold forward
  dsimp only
  by_cases h₁ : Address.ofUInt64 fwd.address = c.ztSource
  · exact if_pos h₁
  · rw [if_neg h₁, if_neg hn]
    by_cases h₂ : Address.ofUInt64 fwd.address = s.ztDest
    · exact if_pos h₂
    · exact absurd ⟨h₁, hn, h₂⟩ h

/-- A terminal action, when its set matches. -/
theorem takeAction_terminal {a : Action} {result : FilterResult}
    (h : c.terminal args.ztDest a = some result) :
    c.takeAction (c.stateAt [] args) a = (c.stateAt [] (afterTerminal args a), some result) := by
  cases a with
  | redirect fwd =>
      unfold terminal at h
      dsimp only at h
      split_ifs at h with he
      cases h
      exact forward_effective he
  | _ =>
      cases h
      try rfl

/-- An action that orders a copy, when its set matches. -/
theorem takeAction_copy {a : Action} {copy : Copy}
    (h : c.copyOf args.ztDest a = some copy) :
    c.takeAction (c.stateAt [] args) a = (c.stateAt [] (args.withCopy copy), none) := by
  cases a with
  | tee fwd =>
      unfold copyOf at h
      dsimp only at h
      split_ifs at h with he
      cases h
      exact forward_effective he
  | watch fwd =>
      unfold copyOf at h
      dsimp only at h
      split_ifs at h with he
      cases h
      exact forward_effective he
  | _ => cases h

/-- Any other action does nothing, when its set matches. -/
theorem takeAction_none {a : Action}
    (hn : ∀ fwd ∈ a.fwd, Address.ofUInt64 fwd.address ≠ c.ownAddress)
    (ht : c.terminal args.ztDest a = none) (hc : c.copyOf args.ztDest a = none) :
    c.takeAction (c.stateAt [] args) a = (c.stateAt [] args, none) := by
  cases a with
  | tee fwd =>
      unfold copyOf at hc
      dsimp only at hc
      split_ifs at hc with he
      exact forward_other (hn fwd rfl) he
  | watch fwd =>
      unfold copyOf at hc
      dsimp only at hc
      split_ifs at hc with he
      exact forward_other (hn fwd rfl) he
  | redirect fwd =>
      unfold terminal at ht
      dsimp only at ht
      split_ifs at ht with he
      exact forward_other (hn fwd rfl) he
  | reserved id => rfl
  | _ => cases ht

/-- An action resets the flag, whether it is taken or passed over. -/
theorem ruleStep_passed {r : Rule} {a : Action} (hb : r.body = .action a)
    (hn : ∀ fwd ∈ a.fwd, Address.ofUInt64 fwd.address ≠ c.ownAddress)
    (hm : c.setMatches args.ztDest entries = false) :
    c.ruleStep rn r (c.stateAt entries args) = (c.stateAt [] args, none) := by
  have hf : (c.stateAt entries args).thisSetMatches = false := hm
  have hown : (a.fwd.any fun fwd => Address.ofUInt64 fwd.address = c.ownAddress) = false := by
    rw [Option.any_eq_false_iff_get]
    intro h
    rw [decide_eq_false_iff_not]
    exact hn _ (Option.get_mem h)
  unfold ruleStep
  rw [hb]
  dsimp only
  rw [if_neg (by rw [hf]; exact nofun)]
  unfold passAction
  rw [hown, Bool.and_false]
  rfl

theorem ruleStep_taken {r : Rule} {a : Action} (hb : r.body = .action a)
    (hm : c.setMatches args.ztDest entries = true) :
    c.ruleStep rn r (c.stateAt entries args) = c.takeAction (c.stateAt [] args) a := by
  have hs : c.stateAt entries args = c.stateAt [] args := by unfold stateAt; rw [hm]; rfl
  unfold ruleStep
  rw [hb, hs]
  rfl

/-! ### The run -/

/-- What a run from the state after some entries on gives. -/
def resume (c : FilterContext) (rn : ℕ) (rules : List Rule) (entries : List Entry)
    (args : FilterArgs) : FilterResult × FilterArgs :=
  let r := c.runRules rn rules (c.stateAt entries args)
  (r.1, r.2.args)

theorem resume_continue {r : Rule} {rules : List Rule} {entries' : List Entry} {args' : FilterArgs}
    (h : c.ruleStep rn r (c.stateAt entries args) = (c.stateAt entries' args', none)) :
    c.resume rn (r :: rules) entries args = c.resume (rn + 1) rules entries' args' := by
  unfold resume
  rw [runRules, h]

theorem resume_return {r : Rule} {rules : List Rule} {entries' : List Entry} {args' : FilterArgs}
    {result : FilterResult}
    (h : c.ruleStep rn r (c.stateAt entries args) = (c.stateAt entries' args', some result)) :
    c.resume rn (r :: rules) entries args = (result, args') := by
  unfold resume
  rw [runRules, h]
  rfl

theorem mem_consultedTags_continue {r : Rule} {rules : List Rule} {s s' : FilterState}
    (h : c.ruleStep rn r s = (s', none)) (id : UInt32) :
    id ∈ c.consultedTags rn (r :: rules) s
      ↔ id ∈ c.consultedBy r s ∨ id ∈ c.consultedTags (rn + 1) rules s' := by
  rw [consultedTags, h, List.mem_append, Option.mem_toList]
  rfl

/-- **The loop gives the verdict of the groups that begin with the entries already read.** -/
theorem resume_eq_verdict (rules : List Rule) : ∀ (rn : ℕ) (entries : List Entry)
    (args : FilterArgs), c.Plain rules →
    (∀ id ∈ c.consultedTags rn rules (c.stateAt entries args), (c.remoteTag id).isSome) →
    c.resume rn rules entries args = c.verdict (groupsFrom entries rules) args := by
  induction rules with
  | nil => exact fun rn entries args _ _ => rfl
  | cons r rules ih =>
      intro rn entries args hp ht
      rcases hb : r.body with a | m
      · -- an action ends the group
        have hg : groupsFrom entries (r :: rules) = ⟨entries, a⟩ :: groupsFrom [] rules := by
          rw [groupsFrom, hb]
        have hn := hp.namesOther r List.mem_cons_self a hb
        -- a group that does not end the loop leaves the rest to the others
        have hgo : ∀ args', c.ruleStep rn r (c.stateAt entries args) = (c.stateAt [] args', none) →
            c.resume rn (r :: rules) entries args = c.verdict (groupsFrom [] rules) args' := by
          intro args' hs
          rw [resume_continue hs]
          exact ih (rn + 1) [] args' hp.tail fun id hid =>
            ht id ((mem_consultedTags_continue hs id).mpr (Or.inr hid))
        rw [hg]
        by_cases hm : c.setMatches args.ztDest entries = true
        · rcases hterm : c.terminal args.ztDest a with - | result
          · have hd : c.decides args.ztDest ⟨entries, a⟩ = false := by
              rw [decides, hterm, Option.isSome_none, Bool.and_false]
            rcases hcopy : c.copyOf args.ztDest a with - | copy
            · rw [verdict_skip hd (by rw [groupCopy, if_pos hm, hcopy])]
              exact hgo args ((ruleStep_taken hb hm).trans (takeAction_none hn hterm hcopy))
            · rw [verdict_copy hd (by rw [groupCopy, if_pos hm, hcopy])]
              exact hgo _ ((ruleStep_taken hb hm).trans (takeAction_copy hcopy))
          · -- the group decides
            rw [verdict_decides hm hterm]
            exact resume_return ((ruleStep_taken hb hm).trans (takeAction_terminal hterm))
        · have hd : c.decides args.ztDest ⟨entries, a⟩ = false := by
            rw [decides, Bool.eq_false_iff.mpr hm, Bool.false_and]
          rw [verdict_skip hd (by rw [groupCopy, if_neg hm])]
          exact hgo args (ruleStep_passed hb hn (Bool.eq_false_iff.mpr hm))
      · -- an entry is one more of the group
        have hg : groupsFrom entries (r :: rules)
            = groupsFrom (entries ++ [⟨r.not, r.or, m⟩]) rules := by
          rw [groupsFrom, hb]
        have hnr : ∀ p, m ≠ .random p := by
          rintro p rfl
          exact hp.notRandom r List.mem_cons_self p hb
        have hc : ∀ id ∈ c.consultedBy r (c.stateAt entries args), (c.remoteTag id).isSome :=
          fun id hid => ht id (by
            rw [consultedTags, List.mem_append, Option.mem_toList]
            exact Or.inl hid)
        have hs := ruleStep_entry rn hb hnr hc
        rw [hg, resume_continue hs]
        exact ih (rn + 1) _ args hp.tail fun id hid =>
          ht id ((mem_consultedTags_continue hs id).mpr (Or.inr hid))

/-- **`_doZtFilter` returns the verdict of its groups.**  No rule is random, none names this node,
and no remote tag that the loop consults is missing. -/
theorem doZtFilter_eq_verdict (c : FilterContext) (rules : List Rule) (args : FilterArgs)
    (hp : c.Plain rules)
    (ht : ∀ id ∈ c.consultedTags 0 rules (c.stateAt [] args), (c.remoteTag id).isSome) :
    c.doZtFilter rules args = c.verdict (groups rules) args :=
  resume_eq_verdict rules 0 [] args hp ht

/-- A tag of the sender. -/
def senderTag : Tag where
  id := 7
  value := 1
  networkId := 0x1000001
  ts := 0
  issuedTo := 5
  signedBy := 1
  signature := []

/-- An IPv4 frame from node 5, whose tag is known, to node 4. -/
def sampleContext : FilterContext where
  ownAddress := 4
  nconf := NetworkConfig.none
  membership := some { Membership.new with remoteTags := Membership.new.remoteTags.set 7 senderTag }
  inbound := true
  ztSource := 5
  frame := ⟨1, 2, fun _ => 0, 64, Frame.etherTypeIPv4, 0⟩
  prng := fun _ => 0

/-- A copy to node 9 of what the tagged sender sends, then what is IPv4 is accepted. -/
def sampleRules : List Rule :=
  [⟨false, false, .entry (.macSource 3)⟩, ⟨false, false, .entry (.vlanId 1)⟩,
    ⟨false, true, .entry (.tagSender 7 1)⟩, ⟨false, false, .action (.tee ⟨9, 0, 20⟩)⟩,
    ⟨true, false, .entry (.etherType 0x0800)⟩, ⟨false, false, .action .drop⟩,
    ⟨false, false, .action (.priority 2)⟩]

theorem doZtFilter_eq_verdict_sample :
    sampleContext.doZtFilter sampleRules ⟨4, 0, 0, false, 255⟩
      = sampleContext.verdict (groups sampleRules) ⟨4, 0, 0, false, 255⟩ := by
  have hplain : sampleContext.Plain sampleRules :=
    ⟨by simp [sampleRules], by simp [sampleRules, Action.fwd, sampleContext, Address.ofUInt64]⟩
  -- as a loop over the list: the tag ids themselves are too many to try
  have htags : (sampleContext.consultedTags 0 sampleRules
      (sampleContext.stateAt [] ⟨4, 0, 0, false, 255⟩)).all
        (fun id => (sampleContext.remoteTag id).isSome) = true := by
    decide +kernel
  exact doZtFilter_eq_verdict sampleContext sampleRules ⟨4, 0, 0, false, 255⟩ hplain
    (List.all_eq_true.mp htags)

end FilterContext

end ZGalaxy
