/-
ZGalaxy/ActiveBackup.lean

The active path of a bond under `active-backup`.

One slot is active, and the others wait in a queue.  Where no slot is active one is selected, as the
user's links say (`selectInitial`); then the queue loses what is no longer eligible, every eligible
path gets a score and a place in the queue, and the queue is sorted.  If the active path is not
eligible the front of the queue takes its place, and after that the re-selection policy may put the
new front there once more.

The scores are of 32 bits and wrap around.  The three places where a quality, which is floating
point, becomes part of one are given (`ScoreRules`), and so is the sort of the queue, of which the
order of equal scores is not known (`QueueSort`).
-/
import ZGalaxy.BondFlows

namespace ZGalaxy

open PeerPaths

/-! ### Scores and sorting -/

/-- `ZT_BOND_FAILOVER_HANDICAP_PREFERRED`. -/
def handicapPreferred : UInt32 := 500

/-- `ZT_BOND_FAILOVER_HANDICAP_PRIMARY`. -/
def handicapPrimary : UInt32 := 1000

/-- What a quality becomes: a score of its own, a score with a handicap, and the threshold of the
optimization. -/
structure ScoreRules where
  scaled : FloatValue → UInt32
  withHandicap : FloatValue → UInt32 → UInt32
  threshold : FloatValue → Int32

/-- `std::sort` of the failover queue, the highest score first. -/
structure QueueSort where
  sort : (PathSlot → UInt32) → List PathSlot → List PathSlot
  perm : ∀ score queue, (sort score queue).Perm queue
  sorted : ∀ score queue, (sort score queue).Pairwise fun i j => score j ≤ score i

namespace NominatedPath

/-- The score is written. -/
def setScore (np : NominatedPath) (score : UInt32) : NominatedPath :=
  { np with failoverScore := score }

/-- The path may be used. -/
def isUsable (np : NominatedPath) : Bool := np.p.isSome && np.eligible

end NominatedPath

/-- `Link::primary`. -/
def BondLink.primary (link : BondLink) : Bool := link.mode == .primary

namespace Bond

/-! ### The first active path -/

section Selection

variable (s : Surroundings) (b : Bond)

/-- The link of the path in a slot. -/
def linkAt (i : PathSlot) : Option BondLink := (b.paths i).p.bind s.getLink

/-- A usable path whose link is a primary one. -/
def onPrimaryLink (i : PathSlot) : Bool :=
  (b.paths i).isUsable && (b.linkAt s i).any BondLink.primary

/-- The first preferred path on a primary link, else the last other one. -/
def primaryPath : Option PathSlot :=
  (pathSlots.find? fun i => b.onPrimaryLink s i && (b.paths i).preferred).or
    (pathSlots.filter fun i => b.onPrimaryLink s i && !(b.paths i).preferred).getLast?

/-- Select initial "active" active-backup link. -/
def selectInitial : Option PathSlot :=
  if b.settings.userHasSpecifiedLinks then
    if b.settings.userHasSpecifiedPrimaryLink then b.primaryPath s
    else pathSlots.find? fun i => (b.paths i).isUsable
  else pathSlots.find? fun i => (b.paths i).isUsable && (b.linkAt s i).isSome

/-- The active slot, unless its path has been removed. -/
def presentActive : Option PathSlot := b.abPathIdx.filter fun i => (b.paths i).p.isSome

/-- The active slot, or the one that is selected. -/
def activeOrInitial : Option PathSlot := b.presentActive.or (b.selectInitial s)

end Selection

/-! ### The failover queue -/

section Queue

variable (rules : ScoreRules) (s : Surroundings) (b : Bond)

/-- Remove ineligible paths from the failover link queue. -/
def pruneQueue : Bond :=
  { b with abFailoverQueue := b.abFailoverQueue.filter fun i => (b.paths i).isUsable }

/-- The path is queued already. -/
def isQueued (i : PathSlot) : Bool :=
  b.abFailoverQueue.any fun j => (b.paths j).p.isSome && (b.paths i).p == (b.paths j).p

/-- A path that is not active is put at the end of the queue, and becomes part of the bond. -/
def enqueuePath (active i : PathSlot) : Bond :=
  if (b.paths i).p == (b.paths active).p || b.isQueued i then b
  else
    { b with
      abFailoverQueue := b.abFailoverQueue ++ [i]
      realIdxMap := fun j => if j.val = 0 then some i else b.realIdxMap j
      paths := Function.update b.paths i ((b.paths i).setBonded true) }

/-- The score of a slot is written. -/
def scoreSlot (i : PathSlot) (score : UInt32) : Bond :=
  { b with paths := Function.update b.paths i ((b.paths i).setScore score) }

/-- Clear failover scores. -/
def clearScores : Bond :=
  { b with
    paths := fun i =>
      if (b.paths i).p.isSome then (b.paths i).setScore 0 else b.paths i }

/-- The handicap of a path whose link the user has spoken of. -/
def instructedHandicap (link : BondLink) (i : PathSlot) : UInt32 :=
  (b.paths i).failoverScore + (if (b.paths i).preferred then handicapPreferred else 0) +
    if link.primary then handicapPrimary else 0

/-- If we didn't inherit a failover score from a "parent" that wants to use this path as a
failover. -/
def ownScore (i : PathSlot) (handicap : UInt32) : UInt32 :=
  if (b.paths i).failoverScore = 0 then
    if handicap = 0 then rules.scaled (b.paths i).relativeQuality else handicap
  else (b.paths i).failoverScore

/-- What a path on the failover link inherits. -/
def inheritedScore (j : PathSlot) (handicap : UInt32) : UInt32 :=
  let inherited := handicap - 10
  let score :=
    if inherited < (b.paths j).failoverScore then (b.paths j).failoverScore else inherited
  if (b.paths j).preferred then score else score - 1

/-- The link that the user wants to be used if a link fails. -/
def failoverLink (link : BondLink) : Option BondLink :=
  if link.failoverToLink.isEmpty then none else s.links link.failoverToLink

/-- The paths on the failover link inherit. -/
def inheritScores (failover : Option BondLink) (handicap : UInt32) : Bond :=
  match failover with
  | none => b
  | some link =>
      { b with
        paths := fun j =>
          if b.linkAt s j = some link then
            (b.paths j).setScore (b.inheritedScore j handicap)
          else b.paths j }

/-- The path is allowed and eligible. -/
def isCandidate (i : PathSlot) : Bool := (b.paths i).isUsable && (b.paths i).allowed

/-- One turn of the loop with failover instructions. -/
def followInstructions (active : PathSlot) (b : Bond) (i : PathSlot) : Bond :=
  match b.linkAt s i with
  | none => b
  | some link =>
      if b.isCandidate i then
        let handicap := b.instructedHandicap link i
        let b' := b.scoreSlot i (b.ownScore rules i handicap)
        (b'.inheritScores s (failoverLink s link) handicap).enqueuePath active i
      else b

/-- The handicap of a path without failover instructions. -/
def performanceHandicap (link : BondLink) (i : PathSlot) : UInt32 :=
  -- if using "optimize" primary re-select mode, ignore user link designations
  if link.primary && b.settings.abLinkSelectMethod != .optimize then handicapPrimary
  else if (b.paths i).preferred then handicapPreferred else 0

/-- One turn of the loop without failover instructions. -/
def followPerformance (active : PathSlot) (b : Bond) (i : PathSlot) : Bond :=
  match b.linkAt s i with
  | none => b
  | some link =>
      if b.isCandidate i then
        let score := rules.withHandicap (b.paths i).relativeQuality (b.performanceHandicap link i)
        (b.scoreSlot i score).enqueuePath active i
      else b

/-- The scores, and the queue of the paths that have one. -/
def buildQueue (active : PathSlot) : Bond :=
  if b.settings.userHasSpecifiedFailoverInstructions then
    pathSlots.foldl (followInstructions rules s active) b.clearScores
  else pathSlots.foldl (followPerformance rules s active) b

/-- Sort queue based on performance. -/
def sortQueue (sorting : QueueSort) : Bond :=
  { b with
    abFailoverQueue := sorting.sort (fun i => (b.paths i).failoverScore) b.abFailoverQueue }

end Queue

/-! ### Changing the active path -/

section Switching

variable (rules : ScoreRules) (s : Surroundings) (now : Int64) (b : Bond)

/-- A slot becomes the active one. -/
def setActive (active : Option PathSlot) : Bond := { b with abPathIdx := active }

/-- `Bond::dequeueNextActiveBackupPath`. -/
def dequeueNextActiveBackupPath : Bond :=
  match b.abFailoverQueue with
  | [] => b
  | i :: rest =>
      { b with
        abPathIdx := some i
        abFailoverQueue := rest
        lastActiveBackupPathChange := now.toUInt64 }

/-- `Bond::abForciblyRotateLink`. -/
def abForciblyRotateLink : Bond :=
  if b.settings.policy = .activeBackup then b.dequeueNextActiveBackupPath now else b

/-- The active path has failed: select one from the failover queue. -/
def failOver (active : PathSlot) : Bond :=
  if (b.paths active).eligible then b else b.dequeueNextActiveBackupPath now

/-- Detect change to prevent flopping during later optimization step. -/
def noteChange (prev : Option PathSlot) : Bond :=
  if prev ≠ b.abPathIdx then { b with lastActiveBackupPathChange := now.toUInt64 } else b

/-- The link of a slot is there, and is a primary one or not. -/
def linkIs (primary : Bool) (i : PathSlot) : Bool :=
  (b.linkAt s i).any fun link => link.primary == primary

/-- The difference of two scores, as `int`. -/
def scoreDifference (front active : PathSlot) : Int32 :=
  ((b.paths front).failoverScore - (b.paths active).failoverScore).toInt32

/-- The front of the queue is better than the active path, for the optimization. -/
def isBetter (front active : PathSlot) : Bool :=
  decide (0 < b.scoreDifference front active) &&
    decide (rules.threshold (b.paths active).relativeQuality < b.scoreDifference front active)

/-- The re-selection policy asks for the front of the queue. -/
def reselects (front active : PathSlot) : Bool :=
  match b.settings.abLinkSelectMethod with
  | .always => b.linkIs s false active && b.linkIs s true front
  | .better =>
      b.linkIs s false active && (b.linkIs s true front &&
        decide ((b.paths active).failoverScore < (b.paths front).failoverScore))
  | .failure => false
  | .optimize =>
      (b.paths front).negotiated ||
        decide (bondOptimizeInterval < now.toUInt64 - b.lastActiveBackupPathChange) &&
          b.isBetter rules front active

/-- Fulfill primary re-select obligations. -/
def reselect : Bond :=
  match b.abPathIdx, b.abFailoverQueue with
  | some active, front :: _ =>
      if b.reselects rules s now front active then b.dequeueNextActiveBackupPath now else b
  | _, _ => b

/-- The queue, once a slot is active. -/
def preparedQueue (sorting : QueueSort) (active : PathSlot) : Bond :=
  (((b.setActive (some active)).pruneQueue).buildQueue rules s active).sortQueue sorting

/-- `Bond::processActiveBackupTasks`. -/
def processActiveBackupTasks (sorting : QueueSort) : Bond :=
  match b.activeOrInitial s with
  | none => b.setActive none
  | some active =>
      let queued := b.preparedQueue rules s sorting active
      -- short-circuit if we have no queued paths
      if queued.abFailoverQueue.isEmpty then queued
      else
        let b' := (queued.failOver now active).noteChange now b.abPathIdx
        b'.reselect rules s now

end Switching

end Bond

end ZGalaxy
