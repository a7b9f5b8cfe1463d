/-
ZGalaxy/CapabilityFilter.lean

Rules and capabilities together.

A frame first goes through the rules of the network.  What they leave undecided goes through
capabilities, one after the other, until one lets it through: this node's own ones for
an outgoing frame, for an incoming one those of the sender that are valid.  Both directions are
one function (`filterPacket`), with other capabilities and other flags in what is sent on.

Nothing that one capability leaves behind reaches the next: of the arguments that the loop
hands on only the bucket is read again, and nothing but the bucket depends on it
(`doZtFilter_bucket`).  But what is sent on goes into a packet with a longer header than the frame
itself has, and composing one that is too long throws, which ends the filter and loses the frame.

Main result: `capabilities_only_widen_iff`, capabilities decide exactly what the rules leave
undecided, and more of them let no fewer frames through, exactly if what is ordered fits.
-/
import ZGalaxy.Filter
import ZGalaxy.Network
import ZGalaxy.Packet

namespace ZGalaxy

open ByteList

/-! ### What is sent on -/

/-- A frame as VERB_EXT_FRAME sends it to another node. -/
structure ExtFrame where
  dest : Address
  nwid : NetworkId
  flags : UInt8
  macDest : Mac
  macSource : Mac
  etherType : UInt16
  frameData : Bytes
deriving DecidableEq

namespace ExtFrame

/-- `ZT_PACKET_IDX_PAYLOAD`, the network, the flags, two MACs and the ethertype. -/
def headerLength : ℕ := 28 + 8 + 1 + 6 + 6 + 2

/-- So many bytes of a frame fit. -/
def Fits (length : ℕ) : Prop := headerLength + length ≤ protoMaxPacketLength

instance (length : ℕ) : Decidable (Fits length) := inferInstanceAs (Decidable (_ ≤ _))

end ExtFrame

/-- What a filter answers, zero if the frame is not delivered, unless an exception ends it; and what
it has sent. -/
structure Filtered where
  answer : Except ZTException ℕ
  qosBucket : UInt8
  sends : List ExtFrame

namespace FilterResult

/-- The frame is let through. -/
def lets : FilterResult → Bool
  | redirect | accept | superAccept => true
  | noMatch | drop => false

/-- The value of the variable `accept`. -/
def acceptValue : FilterResult → ℕ
  | redirect | accept => 1
  | superAccept => 2
  | noMatch | drop => 0

end FilterResult

/-- What distinguishes the directions: the flags that tell why a frame was sent on, whether
copies are left out, and the value that a result is answered with. -/
structure Direction where
  tee : UInt8
  watch : UInt8
  redirect : UInt8
  noTee : Bool
  value : FilterResult → ℕ
  value_ne_zero : ∀ r, value r ≠ 0 ↔ r.lets = true
  copy_ne : tee ≠ redirect ∧ watch ≠ redirect

/-- Outgoing frames: the answer is a `bool`. -/
def Direction.outgoing (noTee : Bool) : Direction where
  tee := 0x02
  watch := 0x16
  redirect := 0x04
  noTee := noTee
  value r := r.lets.toNat
  value_ne_zero r := by cases r <;> decide
  copy_ne := by decide

/-- Incoming frames. -/
def Direction.incoming : Direction where
  tee := 0x08
  watch := 0x1c
  redirect := 0x0a
  noTee := false
  value := FilterResult.acceptValue
  value_ne_zero r := by cases r <;> decide
  copy_ne := by decide

/-! ### One direction -/

namespace FilterContext

variable (c : FilterContext) (nwid : NetworkId) (d : Direction)

/-- A packet with the first bytes of the frame, of which `Buffer::append` takes only so many. -/
def extFrame (dest : Address) (flags : UInt8) (length : ℕ) : Except ZTException ExtFrame :=
  if ExtFrame.Fits length then
    .ok {
      dest := dest
      nwid := nwid
      flags := flags
      macDest := c.frame.macDest
      macSource := c.frame.macSource
      etherType := UInt16.ofNat c.frame.etherType
      frameData := (List.range length).map c.frame.frameData }
  else .error .outOfBounds

/-- The copy that a TEE or WATCH has ordered. -/
def sendCopy (args : FilterArgs) : Except ZTException (List ExtFrame) :=
  if !d.noTee && args.cc != 0 then
    (c.extFrame nwid args.cc (if args.ccWatch then d.watch else d.tee) args.ccLength).map ([·])
  else .ok []

/-- What is done with a frame let through: the copy the rules have ordered is sent, then
the frame is redirected or delivered. -/
def passOn (ztDest : Address) (base : FilterArgs) (result : FilterResult) (args : FilterArgs)
    (copies : List ExtFrame) : Filtered :=
  match c.sendCopy nwid d base with
  | .error e => ⟨.error e, args.qosBucket, copies⟩
  | .ok copy =>
      if ztDest ≠ args.ztDest ∧ args.ztDest ≠ 0 then
        match c.extFrame nwid args.ztDest d.redirect c.frame.frameLen with
        | .error e => ⟨.error e, args.qosBucket, copies ++ copy⟩
        | .ok f => ⟨.ok 0, args.qosBucket, copies ++ copy ++ [f]⟩
      else ⟨.ok (d.value result), args.qosBucket, copies ++ copy⟩

/-- The loop over capabilities: the first that lets the frame through ends it.  The generator
is at another point in each evaluation. -/
def runCapabilities (prngs : ℕ → ℕ → UInt64) (ztDest : Address) :
    ℕ → List Capability → FilterArgs → FilterResult × FilterArgs
  | _, [], args => (.noMatch, args)
  | i, cap :: caps, args =>
      let r := { c with prng := prngs i }.doZtFilter cap.rules ⟨ztDest, 0, 0, false, args.qosBucket⟩
      if r.1.lets then r else runCapabilities prngs ztDest (i + 1) caps r.2

/-- What the rules of the network say. -/
def runBase (prngs : ℕ → ℕ → UInt64) (ztDest : Address) (qosBucket : UInt8) :
    FilterResult × FilterArgs :=
  { c with prng := prngs 0 }.doZtFilter c.nconf.rules ⟨ztDest, 0, 0, false, qosBucket⟩

/-- What `filterOutgoingPacket` and `filterIncomingPacket` have in common. -/
def filterPacket (prngs : ℕ → ℕ → UInt64) (caps : List Capability) (ztDest : Address)
    (qosBucket : UInt8) : Filtered :=
  let base := c.runBase prngs ztDest qosBucket
  match base.1 with
  | .noMatch =>
      let r := c.runCapabilities prngs ztDest 1 caps base.2
      if r.1.lets then
        match c.sendCopy nwid d r.2 with
        | .error e => ⟨.error e, r.2.qosBucket, []⟩
        | .ok copies => c.passOn nwid d ztDest base.2 r.1 r.2 copies
      else ⟨.ok 0, r.2.qosBucket, []⟩
  | .drop => ⟨.ok 0, base.2.qosBucket, []⟩
  | .redirect => c.passOn nwid d ztDest base.2 .redirect base.2 []
  | .accept => c.passOn nwid d ztDest base.2 .accept base.2 []
  | .superAccept => c.passOn nwid d ztDest base.2 .superAccept base.2 []

end FilterContext

/-! ### The two directions -/

namespace Network

variable (n : Network) (ownAddress : Address)

/-- The context of an outgoing frame, whose generator `filterPacket` sets. -/
def outgoingContext (ztSource ztDest : Address) (frame : Frame) : FilterContext where
  ownAddress := ownAddress
  nconf := n.config
  membership := if ztDest ≠ 0 then n.memberships.get ztDest else none
  inbound := false
  ztSource := ztSource
  frame := frame
  prng := fun _ => 0

/-- The context of an incoming frame. -/
def incomingContext (sourcePeer : Address) (frame : Frame) : FilterContext where
  ownAddress := ownAddress
  nconf := n.config
  membership := some (n.membership sourcePeer)
  inbound := true
  ztSource := sourcePeer
  frame := frame
  prng := fun _ => 0

/-- `Network::filterOutgoingPacket`: whether the frame is to be sent, the bucket, and what
is sent instead or besides. -/
def filterOutgoingPacket (prngs : ℕ → ℕ → UInt64) (noTee : Bool) (ztSource ztDest : Address)
    (frame : Frame) (qosBucket : UInt8) : Filtered :=
  (n.outgoingContext ownAddress ztSource ztDest frame).filterPacket n.id
    (.outgoing noTee) prngs n.config.capabilities ztDest qosBucket

/-- `Network::filterIncomingPacket`.  The sender has a membership from now on. -/
def filterIncomingPacket (prngs : ℕ → ℕ → UInt64) (sourcePeer ztDest : Address) (frame : Frame) :
    Filtered × Network :=
  ((n.incomingContext ownAddress sourcePeer frame).filterPacket n.id .incoming prngs
      ((n.membership sourcePeer).validCapabilities n.config) ztDest 255,
    n.setMembership sourcePeer (n.membership sourcePeer))

end Network

/-! ### What a result depends on -/

/-- No entry draws a random number. -/
def NotRandom (rules : List Rule) : Prop := ∀ r ∈ rules, ∀ p, r.body ≠ .entry (.random p)

namespace FilterContext

variable {c c' : FilterContext} {rules : List Rule} {s s' : FilterState}

/-- Contexts that evaluate the entries alike. -/
structure Alike (c c' : FilterContext) (rules : List Rule) : Prop where
  ownAddress : c'.ownAddress = c.ownAddress
  inbound : c'.inbound = c.inbound
  ztSource : c'.ztSource = c.ztSource
  frame : c'.frame = c.frame
  evaluate : ∀ r ∈ rules, ∀ m, r.body = .entry m → ∀ superAccept ztDest rn,
    c'.evaluate superAccept ztDest rn r.not m = c.evaluate superAccept ztDest rn r.not m

theorem forward_alike (h : Alike c c' rules) : c'.forward s = c.forward s := by
  funext fwd action
  unfold forward
  rw [h.ztSource, h.ownAddress, h.inbound]

theorem takeAction_alike (h : Alike c c' rules) (a : Action) :
    c'.takeAction s a = c.takeAction s a := by
  have htee : c'.tee = c.tee := by
    funext watch fwd s fwdAddr
    unfold tee teeLength
    rw [h.frame]
  cases a with
  | tee | watch | redirect =>
      unfold takeAction
      dsimp only
      rw [forward_alike h]
      try rw [htee]
  | _ => rfl

theorem ruleStep_alike (h : Alike c c' rules) {r : Rule} (hr : r ∈ rules) (rn : ℕ) :
    c'.ruleStep rn r s = c.ruleStep rn r s := by
  unfold ruleStep
  rcases hb : r.body with a | m <;> dsimp only
  · unfold passAction
    rw [takeAction_alike h, h.inbound, h.ownAddress]
  · unfold foldEntry
    rw [h.evaluate r hr m hb]

/-- **Alike contexts filter alike.** -/
theorem doZtFilter_alike (h : Alike c c' rules) (args : FilterArgs) :
    c'.doZtFilter rules args = c.doZtFilter rules args := by
  have hrun : ∀ rest ⊆ rules, ∀ rn s, c'.runRules rn rest s = c.runRules rn rest s := by
    intro rest hsub
    induction rest with
    | nil => exact fun rn s => rfl
    | cons r rest ih =>
        intro rn s
        rw [runRules, runRules, ruleStep_alike h (hsub List.mem_cons_self)]
        rcases c.ruleStep rn r s with ⟨s₁, - | result⟩
        · exact ih (fun r' hr' => hsub (List.mem_cons_of_mem r hr')) (rn + 1) s₁
        · rfl
  unfold doZtFilter
  rw [hrun rules (List.Subset.refl rules)]

/-- Without random entries the generator does not matter. -/
theorem alike_prng (h : NotRandom rules) (prng : ℕ → UInt64) :
    Alike c { c with prng := prng } rules where
  ownAddress := rfl
  inbound := rfl
  ztSource := rfl
  frame := rfl
  evaluate r hr m hb superAccept ztDest rn := by
    cases m with
    | random p => exact absurd hb (h r hr p)
    | _ => rfl

/-- States that differ in their bucket at most. -/
def SameButBucket (s s' : FilterState) : Prop := ∃ b, s' = { s with qosBucket := b }

/-- A step that returns the same and leaves states that differ in their bucket at most. -/
def SameStep (o o' : FilterState × Option FilterResult) : Prop :=
  o'.2 = o.2 ∧ SameButBucket o.1 o'.1

theorem forward_same (hs : SameButBucket s s') (fwd : Fwd)
    {action : FilterState → Address → FilterState × Option FilterResult}
    (ha : ∀ a, SameStep (action s a) (action s' a)) :
    SameStep (c.forward s fwd action) (c.forward s' fwd action) := by
  have hdest : s'.ztDest = s.ztDest := by
    obtain ⟨b, rfl⟩ := hs
    rfl
  unfold forward
  dsimp only
  rw [hdest]
  split_ifs
  · exact ⟨rfl, hs⟩
  · exact ⟨rfl, hs⟩
  · exact ⟨rfl, hs⟩
  · exact ⟨rfl, hs⟩
  · exact ha _

theorem takeAction_same (hs : SameButBucket s s') (a : Action) :
    SameStep (c.takeAction s a) (c.takeAction s' a) := by
  obtain ⟨b, rfl⟩ := hs
  cases a with
  | drop =>
      unfold takeAction
      dsimp only
      split_ifs
      · exact ⟨rfl, b, rfl⟩
      · exact ⟨rfl, b, rfl⟩
  | tee fwd => exact forward_same ⟨b, rfl⟩ fwd fun _ => ⟨rfl, b, rfl⟩
  | watch fwd => exact forward_same ⟨b, rfl⟩ fwd fun _ => ⟨rfl, b, rfl⟩
  | redirect fwd => exact forward_same ⟨b, rfl⟩ fwd fun _ => ⟨rfl, b, rfl⟩
  | accept => exact ⟨rfl, b, rfl⟩
  | breakOut => exact ⟨rfl, b, rfl⟩
  | priority qosBucket => exact ⟨rfl, _, rfl⟩
  | reserved id => exact ⟨rfl, b, rfl⟩

theorem ruleStep_same (hs : SameButBucket s s') (rn : ℕ) (r : Rule) :
    SameStep (c.ruleStep rn r s) (c.ruleStep rn r s') := by
  have hmatches : s'.thisSetMatches = s.thisSetMatches := by
    obtain ⟨b, rfl⟩ := hs
    rfl
  unfold ruleStep
  rcases r.body with a | m <;> dsimp only <;> rw [hmatches] <;> split_ifs
  · exact takeAction_same hs a
  · obtain ⟨b, rfl⟩ := hs
    exact ⟨rfl, b, rfl⟩
  · exact ⟨rfl, hs⟩
  · obtain ⟨b, rfl⟩ := hs
    exact ⟨rfl, b, rfl⟩

/-- **Nothing but the bucket depends on the bucket.** -/
theorem doZtFilter_bucket (rules : List Rule) (args : FilterArgs) (qosBucket : UInt8) :
    ∃ b, c.doZtFilter rules { args with qosBucket := qosBucket } =
      ((c.doZtFilter rules args).1, { (c.doZtFilter rules args).2 with qosBucket := b }) := by
  have hrun : ∀ rules rn s s', SameButBucket s s' →
      (c.runRules rn rules s').1 = (c.runRules rn rules s).1 ∧
        SameButBucket (c.runRules rn rules s).2 (c.runRules rn rules s').2 := by
    intro rules
    induction rules with
    | nil => exact fun rn s s' hs => ⟨rfl, hs⟩
    | cons r rules ih =>
        intro rn s s' hs
        obtain ⟨hres, hsame⟩ := ruleStep_same (c := c) hs rn r
        rw [runRules, runRules]
        rcases hstep : c.ruleStep rn r s with ⟨s₁, res⟩
        rcases hstep' : c.ruleStep rn r s' with ⟨s₁', res'⟩
        rw [hstep, hstep'] at hres hsame
        obtain rfl : res' = res := hres
        rcases res' with - | result
        · exact ih (rn + 1) s₁ s₁' hsame
        · exact ⟨rfl, hsame⟩
  obtain ⟨hres, b, hstate⟩ := hrun rules 0
    ⟨false, true, false, args.ztDest, args.cc, args.ccLength, args.ccWatch, args.qosBucket⟩
    ⟨false, true, false, args.ztDest, args.cc, args.ccLength, args.ccWatch, qosBucket⟩ ⟨_, rfl⟩
  refine ⟨b, ?_⟩
  unfold doZtFilter
  dsimp only
  rw [hres, hstate]

/-! ### Capabilities one after the other -/

/-- What a capability does with a frame by itself. -/
def capability (c : FilterContext) (ztDest : Address) (cap : Capability) :
    FilterResult × FilterArgs := c.doZtFilter cap.rules ⟨ztDest, 0, 0, false, 0⟩

/-- What it says of the frame. -/
def capabilityResult (c : FilterContext) (ztDest : Address) (cap : Capability) : FilterResult :=
  (c.capability ztDest cap).1

/-- The first capability that lets the frame through. -/
def letting (c : FilterContext) (ztDest : Address) (caps : List Capability) : Option Capability :=
  caps.find? fun cap => (c.capabilityResult ztDest cap).lets

variable {prngs : ℕ → ℕ → UInt64} {ztDest : Address} {caps : List Capability}

theorem letting_isSome_iff :
    (c.letting ztDest caps).isSome = true ↔
      ∃ cap ∈ caps, (c.capabilityResult ztDest cap).lets = true := List.find?_isSome

variable (c prngs ztDest) in
theorem capability_eq {cap : Capability} (hr : NotRandom cap.rules) (i : ℕ) (qosBucket : UInt8) :
    ∃ b, { c with prng := prngs i }.doZtFilter cap.rules ⟨ztDest, 0, 0, false, qosBucket⟩ =
      (c.capabilityResult ztDest cap, { (c.capability ztDest cap).2 with qosBucket := b }) := by
  rw [doZtFilter_alike (alike_prng hr (prngs i))]
  exact doZtFilter_bucket cap.rules ⟨ztDest, 0, 0, false, 0⟩ qosBucket

variable (prngs) in
/-- **The loop does what the first capability does by itself** that lets the frame through. -/
theorem runCapabilities_some (hr : ∀ cap ∈ caps, NotRandom cap.rules) {cap : Capability}
    (h : c.letting ztDest caps = some cap) (i : ℕ) (args : FilterArgs) :
    ∃ b, c.runCapabilities prngs ztDest i caps args =
      (c.capabilityResult ztDest cap, { (c.capability ztDest cap).2 with qosBucket := b }) := by
  induction caps generalizing i args with
  | nil => cases h
  | cons first caps ih =>
      obtain ⟨b, heq⟩ := capability_eq c prngs ztDest (hr first List.mem_cons_self) i args.qosBucket
      rw [runCapabilities, heq]
      rw [letting, List.find?_cons] at h
      dsimp only
      split at h
      · obtain rfl := Option.some.inj h
        rw [if_pos ‹_›]
        exact ⟨b, rfl⟩
      · rw [if_neg (Bool.eq_false_iff.mp ‹_›)]
        exact ih (fun cap' hcap' => hr cap' (List.mem_cons_of_mem first hcap')) h (i + 1) _

variable (prngs) in
/-- If there is none, it lets nothing through. -/
theorem runCapabilities_none (hr : ∀ cap ∈ caps, NotRandom cap.rules)
    (h : c.letting ztDest caps = none) (i : ℕ) (args : FilterArgs) :
    (c.runCapabilities prngs ztDest i caps args).1 = .noMatch := by
  induction caps generalizing i args with
  | nil => rfl
  | cons first caps ih =>
      obtain ⟨b, heq⟩ := capability_eq c prngs ztDest (hr first List.mem_cons_self) i args.qosBucket
      rw [runCapabilities, heq]
      rw [letting, List.find?_cons] at h
      dsimp only
      split at h
      · cases h
      · rw [if_neg (Bool.eq_false_iff.mp ‹_›)]
        exact ih (fun cap' hcap' => hr cap' (List.mem_cons_of_mem first hcap')) h (i + 1) _

/-! ### What fits -/

variable {nwid : NetworkId} {d : Direction} {qosBucket : UInt8}

/-- The copy that is ordered, if any, fits into a packet. -/
def CopyFits (d : Direction) (args : FilterArgs) : Prop :=
  d.noTee = false → args.cc ≠ 0 → ExtFrame.Fits args.ccLength

/-- What a frame that is let through is sent on as fits: the copies that the rules and the
capability have ordered, and the frame, if it is redirected. -/
structure Sendable (c : FilterContext) (d : Direction) (ztDest : Address)
    (base args : FilterArgs) : Prop where
  copy : CopyFits d args
  baseCopy : CopyFits d base
  redirected : ztDest ≠ args.ztDest → args.ztDest ≠ 0 → ExtFrame.Fits c.frame.frameLen

/-- What the first capability orders that lets the frame through, and the rules before it. -/
def AllSendable (c : FilterContext) (d : Direction) (ztDest : Address) (base : FilterArgs)
    (caps : List Capability) : Prop :=
  ∀ cap, c.letting ztDest caps = some cap → c.Sendable d ztDest base (c.capability ztDest cap).2

variable (c nwid) in
theorem extFrame_isOk_iff (dest : Address) (flags : UInt8) (length : ℕ) :
    (∃ f, c.extFrame nwid dest flags length = .ok f) ↔ ExtFrame.Fits length := by
  unfold extFrame
  by_cases hfits : ExtFrame.Fits length
  · rw [if_pos hfits]
    exact iff_of_true ⟨_, rfl⟩ hfits
  · rw [if_neg hfits]
    refine iff_of_false ?_ hfits
    rintro ⟨f, h⟩
    cases h

theorem flags_extFrame {dest : Address} {flags : UInt8} {length : ℕ} {f : ExtFrame}
    (h : c.extFrame nwid dest flags length = .ok f) : f.flags = flags := by
  unfold extFrame at h
  split_ifs at h
  obtain rfl := Except.ok.inj h
  rfl

variable (c nwid) in
theorem sendCopy_isOk_iff (args : FilterArgs) :
    (∃ copies, c.sendCopy nwid d args = .ok copies) ↔ CopyFits d args := by
  unfold sendCopy
  by_cases hcopy : (!d.noTee && args.cc != 0) = true
  · rw [if_pos hcopy]
    rw [Bool.and_eq_true, Bool.not_eq_true', bne_iff_ne] at hcopy
    have hiff : CopyFits d args ↔ ExtFrame.Fits args.ccLength :=
      ⟨fun h => h hcopy.1 hcopy.2, fun h _ _ => h⟩
    rw [hiff, ← extFrame_isOk_iff c nwid args.cc (if args.ccWatch then d.watch else d.tee)]
    rcases c.extFrame nwid args.cc (if args.ccWatch then d.watch else d.tee) args.ccLength
      with e | f
    · exact iff_of_false nofun nofun
    · exact iff_of_true ⟨[f], rfl⟩ ⟨f, rfl⟩
  · rw [if_neg hcopy]
    refine iff_of_true ⟨[], rfl⟩ fun hno hcc => absurd ?_ hcopy
    rw [Bool.and_eq_true, Bool.not_eq_true', bne_iff_ne]
    exact ⟨hno, hcc⟩

/-- The copies are not told from a frame that is redirected. -/
theorem flags_sendCopy {args : FilterArgs} {copies : List ExtFrame}
    (h : c.sendCopy nwid d args = .ok copies) : ∀ f ∈ copies, f.flags ≠ d.redirect := by
  unfold sendCopy at h
  by_cases hcopy : (!d.noTee && args.cc != 0) = true
  · rw [if_pos hcopy] at h
    rcases hf : c.extFrame nwid args.cc (if args.ccWatch then d.watch else d.tee) args.ccLength
      with e | f
    · rw [hf] at h
      cases h
    · rw [hf] at h
      obtain rfl := Except.ok.inj h
      refine List.forall_mem_singleton.mpr ?_
      rw [flags_extFrame hf]
      split_ifs
      · exact d.copy_ne.2
      · exact d.copy_ne.1
  · rw [if_neg hcopy] at h
    obtain rfl := Except.ok.inj h
    exact fun f hf => absurd hf List.not_mem_nil

/-- The frame is delivered, or sent to another destination. -/
def Passes (d : Direction) (r : Filtered) : Prop :=
  (∃ accept, r.answer = .ok accept ∧ accept ≠ 0) ∨ ∃ f ∈ r.sends, f.flags = d.redirect

theorem not_passes_error {e : ZTException} {sends : List ExtFrame}
    (h : ∀ f ∈ sends, f.flags ≠ d.redirect) :
    ¬Passes d ⟨.error e, qosBucket, sends⟩ := by
  rintro (⟨accept, hanswer, -⟩ | ⟨f, hf, hflags⟩)
  · cases hanswer
  · exact h f hf hflags

/-- **A frame that is let through passes** exactly if what is sent fits. -/
theorem passes_passOn_iff {base args : FilterArgs} {result : FilterResult}
    {copies : List ExtFrame} (hlets : result.lets = true)
    (hcopies : ∀ f ∈ copies, f.flags ≠ d.redirect) :
    Passes d (c.passOn nwid d ztDest base result args copies) ↔
      CopyFits d base ∧ (ztDest ≠ args.ztDest → args.ztDest ≠ 0 →
        ExtFrame.Fits c.frame.frameLen) := by
  unfold passOn
  rcases hcopy : c.sendCopy nwid d base with e | copy
  · refine iff_of_false (not_passes_error hcopies) fun h => ?_
    obtain ⟨copy, hok⟩ := (sendCopy_isOk_iff c nwid _).mpr h.1
    cases hcopy.symm.trans hok
  · rw [and_iff_right ((sendCopy_isOk_iff c nwid _).mp ⟨copy, hcopy⟩)]
    have hsent : ∀ f ∈ copies ++ copy, f.flags ≠ d.redirect :=
      List.forall_mem_append.mpr ⟨hcopies, flags_sendCopy hcopy⟩
    dsimp only
    by_cases hredirected : ztDest ≠ args.ztDest ∧ args.ztDest ≠ 0
    · have hiff : (ztDest ≠ args.ztDest → args.ztDest ≠ 0 → ExtFrame.Fits c.frame.frameLen) ↔
          ExtFrame.Fits c.frame.frameLen :=
        ⟨fun h => h hredirected.1 hredirected.2, fun h _ _ => h⟩
      rw [if_pos hredirected, hiff, ← extFrame_isOk_iff c nwid args.ztDest d.redirect]
      rcases hf : c.extFrame nwid args.ztDest d.redirect c.frame.frameLen with e | f
      · exact iff_of_false (not_passes_error hsent) nofun
      · refine iff_of_true (.inr ⟨f, ?_, flags_extFrame hf⟩) ⟨f, rfl⟩
        exact List.mem_append_right _ List.mem_cons_self
    · rw [if_neg hredirected]
      refine iff_of_true (.inl ⟨_, rfl, (d.value_ne_zero result).mpr hlets⟩) fun h₁ h₂ => ?_
      exact absurd ⟨h₁, h₂⟩ hredirected

/-- So does a frame that a capability lets through. -/
theorem passes_capability_iff {base args : FilterArgs} {result : FilterResult}
    (hlets : result.lets = true) :
    Passes d (match c.sendCopy nwid d args with
      | .error e => ⟨.error e, args.qosBucket, []⟩
      | .ok copies => c.passOn nwid d ztDest base result args copies) ↔
      c.Sendable d ztDest base args := by
  have hiff : c.Sendable d ztDest base args ↔ CopyFits d args ∧ CopyFits d base ∧
      (ztDest ≠ args.ztDest → args.ztDest ≠ 0 → ExtFrame.Fits c.frame.frameLen) :=
    ⟨fun h => ⟨h.1, h.2, h.3⟩, fun h => ⟨h.1, h.2.1, h.2.2⟩⟩
  rw [hiff]
  rcases hcopy : c.sendCopy nwid d args with e | copies
  · refine iff_of_false (not_passes_error fun f hf => absurd hf List.not_mem_nil) fun h => ?_
    obtain ⟨copies, hok⟩ := (sendCopy_isOk_iff c nwid _).mpr h.1
    cases hcopy.symm.trans hok
  · rw [and_iff_right ((sendCopy_isOk_iff c nwid _).mp ⟨copies, hcopy⟩)]
    exact passes_passOn_iff hlets (flags_sendCopy hcopy)

theorem teeLength_le (length : UInt16) : c.teeLength length ≤ c.frame.frameLen := by
  unfold teeLength
  split_ifs
  · exact min_le_left _ _
  · exact le_rfl

theorem ccLength_forward_le {s : FilterState} (fwd : Fwd)
    {action : FilterState → Address → FilterState × Option FilterResult}
    (h : s.ccLength ≤ c.frame.frameLen) (haction : ∀ a, (action s a).1.ccLength ≤ c.frame.frameLen) :
    (c.forward s fwd action).1.ccLength ≤ c.frame.frameLen := by
  unfold forward
  dsimp only
  split_ifs
  · exact h
  · exact h
  · exact h
  · exact h
  · exact haction _

/-- A rule orders no more of a frame than there is. -/
theorem ccLength_ruleStep_le {s : FilterState} (h : s.ccLength ≤ c.frame.frameLen) (rn : ℕ)
    (r : Rule) : (c.ruleStep rn r s).1.ccLength ≤ c.frame.frameLen := by
  unfold ruleStep
  rcases r.body with a | m
  · dsimp only
    split_ifs
    · cases a with
      | tee fwd => exact ccLength_forward_le fwd h fun _ => teeLength_le fwd.length
      | watch fwd => exact ccLength_forward_le fwd h fun _ => teeLength_le fwd.length
      | redirect fwd => exact ccLength_forward_le fwd h fun _ => h
      | drop =>
          unfold takeAction
          dsimp only
          split_ifs
          · exact h
          · exact h
      | _ => exact h
    · exact h
  · dsimp only
    split_ifs
    · exact h
    · exact h

theorem ccLength_runRules_le (rules : List Rule) (rn : ℕ) {s : FilterState}
    (h : s.ccLength ≤ c.frame.frameLen) :
    (c.runRules rn rules s).2.ccLength ≤ c.frame.frameLen := by
  induction rules generalizing rn s with
  | nil => exact h
  | cons r rules ih =>
      have hnext := ccLength_ruleStep_le h rn r
      rw [runRules]
      rcases hone : c.ruleStep rn r s with ⟨s₁, - | result⟩
      · rw [hone] at hnext
        exact ih (rn + 1) hnext
      · rw [hone] at hnext
        exact hnext

/-- No more of a frame is copied than there is. -/
theorem ccLength_le (rules : List Rule) (args : FilterArgs)
    (h : args.ccLength ≤ c.frame.frameLen) :
    (c.doZtFilter rules args).2.ccLength ≤ c.frame.frameLen :=
  ccLength_runRules_le rules 0 h

variable (c) in
/-- **A frame that fits** is sendable, whatever is ordered. -/
theorem allSendable_of_fits (h : ExtFrame.Fits c.frame.frameLen) :
    c.AllSendable d ztDest (c.doZtFilter c.nconf.rules ⟨ztDest, 0, 0, false, qosBucket⟩).2
      caps := by
  have hcopy : ∀ rules bucket,
      CopyFits d (c.doZtFilter rules ⟨ztDest, 0, 0, false, bucket⟩).2 :=
    fun rules bucket _ _ => (Nat.add_le_add_left (ccLength_le rules _ (Nat.zero_le _)) _).trans h
  exact fun cap _ => ⟨hcopy _ _, hcopy _ _, fun _ _ => h⟩

/-! ### One direction as a whole -/

/-- What the rules drop is neither delivered nor sent. -/
theorem filterPacket_drop (h : (c.runBase prngs ztDest qosBucket).1 = .drop) :
    (c.filterPacket nwid d prngs caps ztDest qosBucket).answer = .ok 0 ∧
      (c.filterPacket nwid d prngs caps ztDest qosBucket).sends = [] := by
  unfold filterPacket
  dsimp only
  rw [h]
  exact ⟨rfl, rfl⟩

/-- What the rules let through they let through without capabilities. -/
theorem filterPacket_lets (h : (c.runBase prngs ztDest qosBucket).1.lets = true) :
    c.filterPacket nwid d prngs caps ztDest qosBucket
      = c.passOn nwid d ztDest (c.runBase prngs ztDest qosBucket).2
          (c.runBase prngs ztDest qosBucket).1 (c.runBase prngs ztDest qosBucket).2 [] := by
  unfold filterPacket
  dsimp only
  rcases hres : (c.runBase prngs ztDest qosBucket).1 with - | - | - | - | -
  · rw [hres] at h
    cases h
  · rw [hres] at h
    cases h
  · rfl
  · rfl
  · rfl

/-- What the rules leave undecided is up to the capabilities, and to what fits. -/
theorem filterPacket_noMatch (h : (c.runBase prngs ztDest qosBucket).1 = .noMatch)
    (hr : ∀ cap ∈ caps, NotRandom cap.rules) :
    Passes d (c.filterPacket nwid d prngs caps ztDest qosBucket)
      ↔ ∃ cap, c.letting ztDest caps = some cap ∧
        c.Sendable d ztDest (c.runBase prngs ztDest qosBucket).2 (c.capability ztDest cap).2 := by
  unfold filterPacket
  dsimp only
  rw [h]
  dsimp only
  rcases hletting : c.letting ztDest caps with - | cap
  · rw [runCapabilities_none prngs hr hletting]
    refine iff_of_false ?_ nofun
    rintro (⟨accept, hanswer, hne⟩ | ⟨f, hf, -⟩)
    · exact hne (Except.ok.inj hanswer).symm
    · cases hf
  · obtain ⟨b, heq⟩ := runCapabilities_some prngs hr hletting 1 (c.runBase prngs ztDest qosBucket).2
    have hlets : (c.capabilityResult ztDest cap).lets = true :=
      List.find?_some (p := fun cap => (c.capabilityResult ztDest cap).lets) hletting
    rw [heq]
    dsimp only
    rw [if_pos hlets, passes_capability_iff hlets]
    constructor
    · exact fun hs => ⟨cap, rfl, hs.copy, hs.baseCopy, hs.redirected⟩
    · rintro ⟨cap', hcap', hs⟩
      obtain rfl := Option.some.inj hcap'
      exact ⟨hs.copy, hs.baseCopy, hs.redirected⟩

/-! ### Contexts that filter alike -/

/-- The rules of the network do not tell contexts apart that are alike. -/
theorem runBase_of_alike (h : Alike c c' c.nconf.rules) (hbase : NotRandom c.nconf.rules)
    (hrules : c'.nconf.rules = c.nconf.rules) :
    c'.runBase prngs ztDest qosBucket
      = c.doZtFilter c.nconf.rules ⟨ztDest, 0, 0, false, qosBucket⟩ := by
  unfold runBase
  rw [hrules, doZtFilter_alike (alike_prng hbase (prngs 0)), doZtFilter_alike h]

/-- Neither do those of a capability. -/
theorem capability_of_alike (halike : ∀ rules, Alike c c' rules) :
    c'.capability ztDest = c.capability ztDest := by
  funext cap
  exact doZtFilter_alike (halike cap.rules) _

theorem letting_of_alike (halike : ∀ rules, Alike c c' rules) :
    c'.letting ztDest caps = c.letting ztDest caps := by
  unfold letting capabilityResult
  rw [capability_of_alike halike]

theorem passOn_of_alike (halike : ∀ rules, Alike c c' rules) :
    c'.passOn nwid d ztDest = c.passOn nwid d ztDest := by
  funext base result args copies
  unfold passOn sendCopy extFrame
  rw [(halike []).frame]

theorem sendable_of_alike (halike : ∀ rules, Alike c c' rules) (base args : FilterArgs) :
    c'.Sendable d ztDest base args ↔ c.Sendable d ztDest base args := by
  have hframe : c'.frame = c.frame := (halike []).frame
  constructor
  · exact fun hs => ⟨hs.copy, hs.baseCopy, hframe ▸ hs.redirected⟩
  · exact fun hs => ⟨hs.copy, hs.baseCopy, hframe.symm ▸ hs.redirected⟩

end FilterContext

/-! ### Capabilities only widen -/

namespace Network

/-- **What capabilities do in one direction.**  `filtered` is the filter as a function of where
the capabilities come from, `caps` are the ones found there, and `x` is where they come from. -/
structure OnlyWiden {σ : Type*} (d : Direction) (base : FilterResult)
    (evaluate : Capability → FilterResult) (caps : σ → List Capability)
    (filtered : (ℕ → ℕ → UInt64) → σ → Filtered) (x : σ) : Prop where
  dropped : base = .drop → ∀ prngs,
    (filtered prngs x).answer = .ok 0 ∧ (filtered prngs x).sends = []
  decided : base.lets = true → ∀ prngs prngs' x', filtered prngs x = filtered prngs' x'
  undecided : base = .noMatch → ∀ prngs,
    (FilterContext.Passes d (filtered prngs x) ↔ ∃ cap ∈ caps x, (evaluate cap).lets = true)
  widen : ∀ prngs prngs' x', caps x' ⊆ caps x →
    FilterContext.Passes d (filtered prngs' x') → FilterContext.Passes d (filtered prngs x)

/-- A family of contexts that differ in capabilities only. -/
theorem onlyWiden_iff_of_alike {σ : Type*} {d : Direction} {caps : σ → List Capability}
    {ztDest : Address} {qosBucket : UInt8} {filtered : (ℕ → ℕ → UInt64) → σ → Filtered}
    (nwid : NetworkId) (ctx : σ → FilterContext) (c : FilterContext)
    (hbase : NotRandom c.nconf.rules) (hrules : ∀ x, (ctx x).nconf.rules = c.nconf.rules)
    (halike : ∀ x rules, FilterContext.Alike c (ctx x) rules)
    (hf : ∀ prngs x, filtered prngs x
      = (ctx x).filterPacket nwid d prngs (caps x) ztDest qosBucket)
    {x : σ} (hr : ∀ cap ∈ caps x, NotRandom cap.rules) :
    OnlyWiden d (c.doZtFilter c.nconf.rules ⟨ztDest, 0, 0, false, qosBucket⟩).1
      (c.capabilityResult ztDest) caps filtered x ↔
      ((c.doZtFilter c.nconf.rules ⟨ztDest, 0, 0, false, qosBucket⟩).1 = .noMatch →
        c.AllSendable d ztDest
          (c.doZtFilter c.nconf.rules ⟨ztDest, 0, 0, false, qosBucket⟩).2 (caps x)) := by
  set base := c.doZtFilter c.nconf.rules ⟨ztDest, 0, 0, false, qosBucket⟩ with hdef
  have hrun : ∀ prngs x, (ctx x).runBase prngs ztDest qosBucket = base := fun prngs x =>
    FilterContext.runBase_of_alike (halike x _) hbase (hrules x)
  -- by what the rules of the network say
  have hdropped : base.1 = .drop → ∀ prngs x,
      (filtered prngs x).answer = .ok 0 ∧ (filtered prngs x).sends = [] := by
    intro h prngs x
    rw [hf]
    exact FilterContext.filterPacket_drop (by rw [hrun]; exact h)
  have hdecided : base.1.lets = true → ∀ prngs x,
      filtered prngs x = c.passOn nwid d ztDest base.2 base.1 base.2 [] := by
    intro h prngs x
    rw [hf, FilterContext.filterPacket_lets (by rw [hrun]; exact h), hrun,
      FilterContext.passOn_of_alike (halike x)]
  have hundecided : base.1 = .noMatch → ∀ prngs x, (∀ cap ∈ caps x, NotRandom cap.rules) →
      (FilterContext.Passes d (filtered prngs x) ↔ ∃ cap, c.letting ztDest (caps x) = some cap ∧
        c.Sendable d ztDest base.2 (c.capability ztDest cap).2) := by
    intro h prngs x hr
    rw [hf, FilterContext.filterPacket_noMatch (by rw [hrun]; exact h) hr,
      FilterContext.letting_of_alike (halike x), hrun, FilterContext.capability_of_alike (halike x)]
    exact exists_congr fun cap => and_congr_right fun _ =>
      FilterContext.sendable_of_alike (halike x) _ _
  constructor
  · intro h hres cap hletting'
    have hlets : ∃ cap ∈ caps x, (c.capabilityResult ztDest cap).lets = true :=
      FilterContext.letting_isSome_iff.mp (hletting' ▸ rfl)
    obtain ⟨cap', hcap', hs⟩ := (hundecided hres (fun _ _ => 0) x hr).mp
      ((h.undecided hres fun _ _ => 0).mpr hlets)
    obtain rfl := Option.some.inj (hletting'.symm.trans hcap')
    exact hs
  · intro h
    have hpasses : base.1 = .noMatch → ∀ prngs, (FilterContext.Passes d (filtered prngs x) ↔
        ∃ cap ∈ caps x, (c.capabilityResult ztDest cap).lets = true) := by
      intro hres prngs
      rw [hundecided hres prngs x hr, ← FilterContext.letting_isSome_iff,
        Option.isSome_iff_exists]
      exact exists_congr fun cap => and_iff_left_of_imp fun hcap => h hres cap hcap
    refine ⟨fun hres prngs => hdropped hres prngs x, fun hres prngs prngs' x' => ?_, hpasses,
      fun prngs prngs' x' hsub hpasses' => ?_⟩
    · rw [hdecided hres prngs x, hdecided hres prngs' x']
    · rcases hres : base.1
      case noMatch =>
        obtain ⟨cap, hcap, -⟩ :=
          (hundecided hres prngs' x' fun cap hcap' => hr cap (hsub hcap')).mp hpasses'
        have hsome : (c.letting ztDest (caps x')).isSome = true := hcap ▸ rfl
        obtain ⟨cap, hmem, hlets⟩ := FilterContext.letting_isSome_iff.mp hsome
        exact (hpasses hres prngs).mpr ⟨cap, hsub hmem, hlets⟩
      case drop =>
        obtain ⟨hanswer, hsends⟩ := hdropped hres prngs' x'
        rcases hpasses' with ⟨accept, haccept, hne⟩ | ⟨f, hmem, -⟩
        · exact absurd (Except.ok.inj (hanswer.symm.trans haccept)).symm hne
        · rw [hsends] at hmem
          cases hmem
      all_goals
        have hlets : base.1.lets = true := by
          rw [hres]
          rfl
        rw [hdecided hlets prngs x, ← hdecided hlets prngs' x']
        exact hpasses'

/-- A network that differs, as far as outgoing frames to `ztDest` go, in its configuration's
capabilities only. -/
structure OutgoingVariant (n : Network) (ztDest : Address) (n' : Network) : Prop where
  id : n'.id = n.id
  config : n'.config = { n.config with capabilities := n'.config.capabilities }
  membership : n'.memberships.get ztDest = n.memberships.get ztDest

/-- A network that differs, as far as incoming frames from `sourcePeer` go, in the capabilities
that it has from the sender only. -/
structure IncomingVariant (n : Network) (sourcePeer : Address) (n' : Network) : Prop where
  id : n'.id = n.id
  config : n'.config = n.config
  membership : n'.membership sourcePeer
    = { n.membership sourcePeer with remoteCaps := (n'.membership sourcePeer).remoteCaps }

/-- Entries are evaluated without looking at capabilities. -/
theorem alike_capabilities (c : FilterContext) (capabilities : List Capability)
    (rules : List Rule) :
    FilterContext.Alike c
      { c with nconf := { c.nconf with capabilities := capabilities } } rules where
  ownAddress := rfl
  inbound := rfl
  ztSource := rfl
  frame := rfl
  evaluate r _ m _ superAccept ztDest rn := by cases m <;> rfl

theorem alike_remoteCaps (c : FilterContext) (m : Membership)
    (remoteCaps : Hashtable UInt32 Capability) (rules : List Rule) :
    FilterContext.Alike { c with membership := some m }
      { c with membership := some { m with remoteCaps := remoteCaps } } rules where
  ownAddress := rfl
  inbound := rfl
  ztSource := rfl
  frame := rfl
  evaluate r _ m _ superAccept ztDest rn := by cases m <;> rfl

/-- **Capabilities only widen what the rules leave undecided**, in both directions: the rules'
DROP is final, what they let through is not up to capabilities, what they leave undecided
passes iff some capability lets it through by itself, and more capabilities let no fewer
frames pass.  This is so exactly if, where the rules leave the frame undecided, what is sent besides
or instead fits into a packet, and so for every frame that fits. -/
theorem capabilities_only_widen_iff (n : Network) (ownAddress : Address)
    (hbase : NotRandom n.config.rules) (ztDest : Address) (frame : Frame) :
    (∀ noTee ztSource qosBucket (x : {n' // n.OutgoingVariant ztDest n'}),
      (∀ cap ∈ x.1.config.capabilities, NotRandom cap.rules) →
      let c := n.outgoingContext ownAddress ztSource ztDest frame
      let base := c.doZtFilter n.config.rules ⟨ztDest, 0, 0, false, qosBucket⟩
      (OnlyWiden (.outgoing noTee) base.1 (c.capabilityResult ztDest)
        (fun n' : {n' // n.OutgoingVariant ztDest n'} => n'.1.config.capabilities)
        (fun prngs n' =>
          n'.1.filterOutgoingPacket ownAddress prngs noTee ztSource ztDest frame qosBucket) x ↔
        (base.1 = .noMatch →
          c.AllSendable (.outgoing noTee) ztDest base.2 x.1.config.capabilities)) ∧
      (ExtFrame.Fits frame.frameLen →
        c.AllSendable (.outgoing noTee) ztDest base.2 x.1.config.capabilities)) ∧
    ∀ sourcePeer (x : {n' // n.IncomingVariant sourcePeer n'}),
      (∀ cap ∈ (x.1.membership sourcePeer).validCapabilities x.1.config, NotRandom cap.rules) →
      let c := n.incomingContext ownAddress sourcePeer frame
      let base := c.doZtFilter n.config.rules ⟨ztDest, 0, 0, false, 255⟩
      (OnlyWiden .incoming base.1 (c.capabilityResult ztDest)
        (fun n' : {n' // n.IncomingVariant sourcePeer n'} =>
          (n'.1.membership sourcePeer).validCapabilities n'.1.config)
        (fun prngs n' => (n'.1.filterIncomingPacket ownAddress prngs sourcePeer ztDest frame).1)
        x ↔
        (base.1 = .noMatch → c.AllSendable .incoming ztDest base.2
          ((x.1.membership sourcePeer).validCapabilities x.1.config))) ∧
      (ExtFrame.Fits frame.frameLen → c.AllSendable .incoming ztDest base.2
        ((x.1.membership sourcePeer).validCapabilities x.1.config)) := by
  refine ⟨fun noTee ztSource qosBucket x hr => ⟨?_, fun hfits =>
      FilterContext.allSendable_of_fits (n.outgoingContext ownAddress ztSource ztDest frame) hfits⟩,
    fun sourcePeer x hr => ⟨?_, fun hfits =>
      FilterContext.allSendable_of_fits (n.incomingContext ownAddress sourcePeer frame) hfits⟩⟩
  · refine onlyWiden_iff_of_alike n.id
      (fun n' => n'.1.outgoingContext ownAddress ztSource ztDest frame) _ hbase ?_ ?_ ?_ hr
    · rintro ⟨n', hn'⟩
      show n'.config.rules = n.config.rules
      rw [hn'.config]
    · rintro ⟨n', hn'⟩ rules
      unfold outgoingContext
      rw [hn'.config, hn'.membership]
      exact alike_capabilities (n.outgoingContext ownAddress ztSource ztDest frame) _ rules
    · rintro prngs ⟨n', hn'⟩
      rw [filterOutgoingPacket, hn'.id]
  · refine onlyWiden_iff_of_alike n.id
      (fun n' => n'.1.incomingContext ownAddress sourcePeer frame) _ hbase ?_ ?_ ?_ hr
    · rintro ⟨n', hn'⟩
      exact congrArg NetworkConfig.rules hn'.config
    · rintro ⟨n', hn'⟩ rules
      unfold incomingContext
      rw [hn'.config, hn'.membership]
      exact alike_remoteCaps (n.incomingContext ownAddress sourcePeer frame) _ _ rules
    · rintro prngs ⟨n', hn'⟩
      rw [filterIncomingPacket, hn'.id]

/-! ### A copy that does not fit -/

/-- A capability with some actions. -/
def actionCapability (id : UInt32) (actions : List Action) (h : actions.length ≤ 64) :
    Capability where
  nwid := 0x1000001
  ts := 0
  id := id
  maxCustodyChainLength := 1
  rules := actions.map fun a => ⟨false, false, .action a⟩
  custody := fun _ => ⟨0, 0, []⟩
  rules_le := by rwa [List.length_map]

/-- A network whose rules drop ARP and leave all else to two capabilities, of which the first
drops everything and the second accepts it, and has a copy sent to another node. -/
def undecidedNetwork : Network :=
  { initial 0x1000001 with config := { NetworkConfig.none with
      networkId := 0x1000001
      issuedTo := 4
      rules := [⟨false, false, .entry (.etherType 0x0806)⟩, ⟨false, false, .action .drop⟩]
      capabilities := [actionCapability 1 [.drop] (by decide),
        actionCapability 2 [.tee ⟨6, 0, 0⟩, .accept] (by decide)] } }

theorem notRandom_undecided : NotRandom undecidedNetwork.config.rules ∧
    ∀ cap ∈ undecidedNetwork.config.capabilities, NotRandom cap.rules := by
  simp [NotRandom, undecidedNetwork, actionCapability]

/-- An IPv4 frame passes there. -/
theorem undecidedNetwork_passes :
    FilterContext.Passes (.outgoing false)
      (undecidedNetwork.filterOutgoingPacket 4 (fun _ _ => 0) false 4 5
        ⟨1, 2, fun _ => 0, 64, Frame.etherTypeIPv4, 0⟩ 255) := by
  obtain ⟨hiff, hsendable⟩ := (capabilities_only_widen_iff undecidedNetwork 4
    notRandom_undecided.1 5 ⟨1, 2, fun _ => 0, 64, Frame.etherTypeIPv4, 0⟩).1 false 4 255
    ⟨undecidedNetwork, rfl, rfl, rfl⟩ notRandom_undecided.2
  refine ((hiff.mpr fun _ => hsendable (by decide)).undecided (by decide +kernel) _).mpr ?_
  exact ⟨_, List.mem_cons_of_mem _ List.mem_cons_self, by decide +kernel⟩

/-- **A frame of 9974 bytes does not pass**: the copy is longer than a packet may be. -/
theorem not_widen_copied : ¬ ∀ (n : Network) (ownAddress : Address),
    NotRandom n.config.rules → (∀ cap ∈ n.config.capabilities, NotRandom cap.rules) →
    ∀ (ztSource ztDest : Address) (frame : Frame) (qosBucket : UInt8) (noTee : Bool),
      let c := n.outgoingContext ownAddress ztSource ztDest frame
      OnlyWiden (.outgoing noTee)
        (c.doZtFilter n.config.rules ⟨ztDest, 0, 0, false, qosBucket⟩).1
        (c.capabilityResult ztDest)
        (fun n' : {n' // n.OutgoingVariant ztDest n'} => n'.1.config.capabilities)
        (fun prngs n' =>
          n'.1.filterOutgoingPacket ownAddress prngs noTee ztSource ztDest frame qosBucket)
        ⟨n, rfl, rfl, rfl⟩ := by
  intro h
  have hwiden := h undecidedNetwork 4 notRandom_undecided.1 notRandom_undecided.2 4 5
    ⟨1, 2, fun _ => 0, 9974, Frame.etherTypeIPv4, 0⟩ 255 false
  have hpasses := (hwiden.undecided (by decide +kernel) fun _ _ => 0).mpr
    ⟨_, List.mem_cons_of_mem _ List.mem_cons_self, by decide +kernel⟩
  rcases hpasses with ⟨accept, hanswer, -⟩ | ⟨f, hf, -⟩
  · have hthrows : (undecidedNetwork.filterOutgoingPacket 4 (fun _ _ => 0) false 4 5
        ⟨1, 2, fun _ => 0, 9974, Frame.etherTypeIPv4, 0⟩ 255).answer = .error .outOfBounds := by
      decide +kernel
    cases hthrows.symm.trans hanswer
  · have hnone : (undecidedNetwork.filterOutgoingPacket 4 (fun _ _ => 0) false 4 5
        ⟨1, 2, fun _ => 0, 9974, Frame.etherTypeIPv4, 0⟩ 255).sends = [] := by
      decide +kernel
    rw [hnone] at hf
    cases hf

end Network

end ZGalaxy
