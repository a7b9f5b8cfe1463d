/-
ZGalaxy/ComThreshold.lean

The threshold of the certificate of membership, over runs of `addCredential`.

It should be the largest threshold of the revocations of type COM that were accepted
(`comThreshold`), and revocations of other types should leave it alone.  The code assigns the
threshold of every such revocation that is news to it as well, so that a run keeps to this as long
as those thresholds happen to be the one that is there (`Harmless`), and no longer.

Main result: `threshold_kept_iff`.
-/
import ZGalaxy.CredentialsAgain
import ZGalaxy.Machine
import ZGalaxy.Revoked

namespace ZGalaxy

namespace Membership

/-- What `addCredential` is called with, and the identities that are known then. -/
inductive Presented
  | com (known : KnownIdentities) (com : CertificateOfMembership)
  | tag (known : KnownIdentities) (tag : Tag)
  | capability (known : KnownIdentities) (cap : Capability)
  | coo (known : KnownIdentities) (coo : CertificateOfOwnership)
  | revocation (known : KnownIdentities) (rev : Revocation)

variable (ecc : Ecc)

/-- `Membership::addCredential`. -/
def addCredential (m : Membership) : Presented → AddCredentialResult × Membership
  | .com known com => m.addCom ecc known com
  | .tag known tag => m.addTag ecc known tag
  | .capability known cap => m.addCapability ecc known cap
  | .coo known coo => m.addCoo ecc known coo
  | .revocation known rev => m.addRevocation ecc known rev

/-- `addCredential` again and again. -/
def credentials : Machine Membership Presented AddCredentialResult where
  step m e := ((m.addCredential ecc e).2, [(m.addCredential ecc e).1])

/-- The threshold of an accepted revocation of type COM. -/
def comThresholdOf : Presented → Option Int64
  | .revocation known rev =>
      if rev.verify ecc known = .ok ∧ rev.type = CredentialType.com then some rev.threshold else none
  | _ => none

/-- The largest threshold of the accepted revocations of type COM, at least 0. -/
def comThreshold (es : List Presented) : Int64 := (es.filterMap (comThresholdOf ecc)).foldl max 0

/-- A revocation of a tag, a capability or a certificate of ownership. -/
def OtherRevocation : Presented → Prop
  | .revocation _ rev => keptById rev.type = true
  | _ => False

/-- As far as certificates of membership go, two memberships do the same. -/
structure SameForCom (m m' : Membership) : Prop where
  accepted : ∀ known com, (m'.addCom ecc known com).1 = (m.addCom ecc known com).1
  allowed :
    ∀ nconf other, m'.isAllowedOnNetwork ecc nconf other = m.isAllowedOnNetwork ecc nconf other

/-- A run keeps the threshold of the certificate of membership as it should be. -/
structure ThresholdKept (es : List Presented) : Prop where
  threshold : ∀ done rest, es = done ++ rest →
    ((credentials ecc).runState new done).comRevocationThreshold = comThreshold ecc done
  mono : ∀ done more rest, es = done ++ more ++ rest →
    ((credentials ecc).runState new done).comRevocationThreshold
      ≤ ((credentials ecc).runState new (done ++ more)).comRevocationThreshold
  other : ∀ done more rest, es = done ++ more ++ rest → (∀ e ∈ more, OtherRevocation e) →
    SameForCom ecc ((credentials ecc).runState new done)
      ((credentials ecc).runState new (done ++ more))

/-- Where a revocation of another type is news, its threshold is the one that is there already. -/
def Harmless (m : Membership) : Presented → Prop
  | .revocation known rev =>
      rev.verify ecc known = .ok → keptById rev.type = true →
        (m.revocations.get (credentialKey rev.type rev.credentialId)).getD 0 < rev.threshold →
        rev.threshold = m.comRevocationThreshold
  | _ => True

/-! ### One credential -/

variable {ecc}

theorem le_max (t threshold : Int64) : t ≤ max t threshold := by
  show t ≤ if t ≤ threshold then threshold else t
  split_ifs with h
  · exact h
  · exact Int64.le_refl t

theorem max_eq (t threshold : Int64) : max t threshold = if t < threshold then threshold else t := by
  show (if t ≤ threshold then threshold else t) = _
  split_ifs with h h' h'
  · rfl
  · exact Int64.le_antisymm (Int64.not_lt.mp h') h
  · exact absurd (Int64.le_of_lt h') h
  · rfl

theorem comThreshold_concat (es : List Presented) (e : Presented) :
    comThreshold ecc (es ++ [e]) = (comThresholdOf ecc e).elim (comThreshold ecc es)
      (max (comThreshold ecc es)) := by
  unfold comThreshold
  rw [List.filterMap_append, List.foldl_append]
  cases h : comThresholdOf ecc e with
  | none => simp [h]
  | some threshold => simp [h]

theorem comThreshold_le (es fs : List Presented) :
    comThreshold ecc es ≤ comThreshold ecc (es ++ fs) := by
  induction fs using List.reverseRecOn with
  | nil =>
      rw [List.append_nil]
      exact Int64.le_refl _
  | append_singleton fs e ih =>
      rw [← List.append_assoc, comThreshold_concat]
      cases comThresholdOf ecc e with
      | none => exact ih
      | some threshold => exact Int64.le_trans ih (le_max _ _)

/-- Revocations of other types do not count. -/
theorem comThreshold_other {es fs : List Presented} (h : ∀ e ∈ fs, OtherRevocation e) :
    comThreshold ecc (es ++ fs) = comThreshold ecc es := by
  have hnone : fs.filterMap (comThresholdOf ecc) = [] := by
    rw [List.filterMap_eq_nil_iff]
    intro e he
    have hother := h e he
    cases e with
    | revocation known rev =>
        apply if_neg
        rintro ⟨-, htype⟩
        rw [OtherRevocation, htype] at hother
        exact absurd hother (by decide)
    | _ => exact absurd hother id
  rw [comThreshold, List.filterMap_append, hnone, List.append_nil, comThreshold]

/-- What a credential does to the threshold, where it is as it should be. -/
theorem threshold_step_iff {m : Membership} {es : List Presented}
    (h : m.comRevocationThreshold = comThreshold ecc es) (e : Presented) :
    (m.addCredential ecc e).2.comRevocationThreshold = comThreshold ecc (es ++ [e])
      ↔ Harmless ecc m e := by
  rw [comThreshold_concat, ← h]
  cases e with
  | com known com =>
      refine iff_of_true ?_ trivial
      show (m.addCom ecc known com).2.comRevocationThreshold = m.comRevocationThreshold
      rcases addCom_spec ecc known m com with hm | ⟨-, -, hm⟩
      · rw [hm]
      · rw [hm]
  | tag known tag => exact iff_of_true rfl trivial
  | capability known cap => exact iff_of_true rfl trivial
  | coo known coo => exact iff_of_true rfl trivial
  | revocation known rev =>
      have hcom : keptById CredentialType.com = false := by decide
      have hother :
          keptById rev.type = true → comThresholdOf ecc (.revocation known rev) = none := by
        intro hkept
        apply if_neg
        rintro ⟨-, htype⟩
        rw [htype, hcom] at hkept
        cases hkept
      show (m.addRevocation ecc known rev).2.comRevocationThreshold = _ ↔ _
      rcases addRevocation_cases ecc known m rev with
        ⟨hok, htype, hm⟩ | ⟨hok, hkept, hlt, hm⟩ | ⟨hok, hkept, hlt, hm⟩ | ⟨hno, hm⟩
      · have hof : comThresholdOf ecc (.revocation known rev) = some rev.threshold :=
          if_pos ⟨hok, htype⟩
        rw [hm, hof]
        refine iff_of_true (max_eq _ _).symm fun _ hkept => ?_
        rw [htype, hcom] at hkept
        cases hkept
      · rw [hm, hother hkept]
        exact ⟨fun heq _ _ _ => heq, fun hharmless => hharmless hok hkept hlt⟩
      · rw [hm, hother hkept]
        exact iff_of_true rfl fun _ _ hlt' => absurd hlt' hlt
      · have hof : comThresholdOf ecc (.revocation known rev) = none :=
          if_neg fun hc => hno ⟨hc.1, .inl hc.2⟩
        rw [hm, hof]
        exact iff_of_true rfl fun hok hkept => absurd ⟨hok, .inr hkept⟩ hno

/-- Revocations leave the certificate alone. -/
theorem com_of_other {es : List Presented} (h : ∀ e ∈ es, OtherRevocation e) (m : Membership) :
    ((credentials ecc).runState m es).com = m.com := by
  induction es generalizing m with
  | nil => rfl
  | cons e es ih =>
      have hother := h e List.mem_cons_self
      rw [Machine.runState_cons, ih fun e' he' => h e' (List.mem_cons_of_mem e he')]
      cases e with
      | revocation known rev =>
          show (m.addRevocation ecc known rev).2.com = m.com
          rcases addRevocation_cases ecc known m rev with
            ⟨-, -, hm⟩ | ⟨-, -, -, hm⟩ | ⟨-, -, -, hm⟩ | ⟨-, hm⟩
          all_goals rw [hm]
      | _ => exact absurd hother id

/-- The certificate and its threshold are all that counts for certificates of membership. -/
theorem sameForCom_of_eq {m m' : Membership} (hcom : m'.com = m.com)
    (hthreshold : m'.comRevocationThreshold = m.comRevocationThreshold) : SameForCom ecc m m' where
  accepted known com := by
    unfold addCom
    rw [hcom, hthreshold]
    split_ifs
    · rfl
    · rfl
    · rfl
    · cases com.verify ecc known <;> rfl
  allowed nconf other := by
    unfold isAllowedOnNetwork
    rw [hcom, hthreshold]

/-! ### Runs -/

theorem guarded_of_threshold {es : List Presented}
    (h : ∀ done rest, es = done ++ rest →
      ((credentials ecc).runState new done).comRevocationThreshold = comThreshold ecc done) :
    (credentials ecc).Guarded (Harmless ecc) new es := by
  induction es using List.reverseRecOn with
  | nil => trivial
  | append_singleton es e ih =>
      have hes := ih fun done rest heq => h done (rest ++ [e]) (by rw [heq, List.append_assoc])
      have hnow := h es [e] rfl
      have hnext := h (es ++ [e]) [] (List.append_nil _).symm
      rw [Machine.runState_concat] at hnext
      exact Machine.guarded_append_cons.mpr ⟨hes, (threshold_step_iff hnow e).mp hnext, trivial⟩

theorem threshold_of_guarded {es : List Presented}
    (h : (credentials ecc).Guarded (Harmless ecc) new es) :
    ((credentials ecc).runState new es).comRevocationThreshold = comThreshold ecc es :=
  Machine.invariant_run (C := Harmless ecc)
    (I := fun h s => s.comRevocationThreshold = comThreshold ecc h)
    (fun _ _ e hI hC => (threshold_step_iff hI e).mpr hC) (h := []) rfl h

theorem guarded_left {es fs : List Presented} {m : Membership}
    (h : (credentials ecc).Guarded (Harmless ecc) m (es ++ fs)) :
    (credentials ecc).Guarded (Harmless ecc) m es := by
  induction es generalizing m with
  | nil => trivial
  | cons e es ih => exact ⟨h.1, ih h.2⟩

variable (ecc) in
/-- **The threshold is kept** exactly by the runs of which every step is harmless. -/
theorem threshold_kept_iff (es : List Presented) :
    ThresholdKept ecc es ↔ (credentials ecc).Guarded (Harmless ecc) new es := by
  constructor
  · intro h
    exact guarded_of_threshold h.threshold
  · intro h
    have hthreshold : ∀ done rest, es = done ++ rest →
        ((credentials ecc).runState new done).comRevocationThreshold = comThreshold ecc done := by
      rintro done rest rfl
      exact threshold_of_guarded (guarded_left h)
    refine ⟨hthreshold, fun done more rest heq => ?_, fun done more rest heq hother => ?_⟩
    · rw [hthreshold (done ++ more) rest heq,
        hthreshold done (more ++ rest) (by rw [heq, List.append_assoc])]
      exact comThreshold_le done more
    · apply sameForCom_of_eq
      · rw [Machine.runState_append, com_of_other hother]
      · rw [hthreshold (done ++ more) rest heq,
          hthreshold done (more ++ rest) (by rw [heq, List.append_assoc]),
          comThreshold_other hother]

/-! ### A threshold that falls -/

open Network (everybody trustingEcc)

/-- A revocation of certificates of membership up to time 100. -/
def comRevocation : Revocation where
  id := 0
  credentialId := 0
  networkId := 0x1000001
  threshold := 100
  flags := 0
  target := 5
  signedBy := 1
  type := CredentialType.com
  signature := [1]

/-- A revocation of the tag 7 up to time 50. -/
def tagRevocation : Revocation :=
  { comRevocation with credentialId := 7, threshold := 50, type := CredentialType.tag }

/-- **The threshold falls**: after a revocation of the certificate up to time 100, revoking a tag
up to time 50 brings it down. -/
theorem threshold_falls :
    ((credentials trustingEcc).runState new
        [.revocation everybody comRevocation]).comRevocationThreshold = 100 ∧
      ((credentials trustingEcc).runState new [.revocation everybody comRevocation,
        .revocation everybody tagRevocation]).comRevocationThreshold = 50 ∧
      ¬ ThresholdKept trustingEcc
        [.revocation everybody comRevocation, .revocation everybody tagRevocation] := by
  have hfirst : ((credentials trustingEcc).runState new
      [.revocation everybody comRevocation]).comRevocationThreshold = 100 := by decide +kernel
  have hsecond : ((credentials trustingEcc).runState new [.revocation everybody comRevocation,
      .revocation everybody tagRevocation]).comRevocationThreshold = 50 := by decide +kernel
  refine ⟨hfirst, hsecond, fun h => ?_⟩
  have hmono : ((credentials trustingEcc).runState new
      [.revocation everybody comRevocation]).comRevocationThreshold
        ≤ ((credentials trustingEcc).runState new [.revocation everybody comRevocation,
          .revocation everybody tagRevocation]).comRevocationThreshold :=
    h.mono [.revocation everybody comRevocation] [.revocation everybody tagRevocation] [] rfl
  rw [hfirst, hsecond] at hmono
  exact absurd hmono (by decide)

end Membership

end ZGalaxy
