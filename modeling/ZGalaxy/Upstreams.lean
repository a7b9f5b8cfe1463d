/-
ZGalaxy/Upstreams.lean

The gathered upstreams are those of the worlds.

The addresses of the roots are gathered from scratch whenever a world changes, so one gathering
is enough (`memoized_memoizeUpstreams`), and the calls that do not gather leave the worlds alone
and the peers of the upstreams in the table.

Main result: `memoized`, after every run the addresses are the roots' other than the node's own,
sorted and once each, and there is a peer for every one of them.
-/
import ZGalaxy.Topology

namespace ZGalaxy

open ByteList Fresh

namespace Topology

variable {ecc : Ecc} {t t' : Topology}

/-- The roots of the planet and the moons. -/
def roots (t : Topology) : List Root := t.planet.roots ++ t.moons.flatMap World.roots

/-- What was gathered is what the worlds say. -/
structure Memoized (t : Topology) : Prop where
  sorted : t.upstreamAddresses.Pairwise (· < ·)
  mem : ∀ a, a ∈ t.upstreamAddresses ↔
    ∃ r ∈ t.roots, r.identity ≠ t.identity ∧ r.identity.address = a
  amUpstream : t.amUpstream = true ↔ ∃ r ∈ t.roots, r.identity = t.identity
  peers : ∀ a ∈ t.upstreamAddresses, (t.peers.get a).isSome

/-! ### Gathering -/

/-- The addresses that a node gathers from roots: those of the others. -/
def others (me : Identity) (rs : List Root) : List Address :=
  (rs.filter fun r => r.identity != me).map fun r => r.identity.address

theorem others_cons_of_eq {me : Identity} {r : Root} {rs : List Root} (h : r.identity = me) :
    others me (r :: rs) = others me rs := by
  refine congrArg (List.map _) (List.filter_cons_of_neg (p := fun r : Root => r.identity != me) ?_)
  exact fun hne => bne_iff_ne.mp hne h

theorem others_cons_of_ne {me : Identity} {r : Root} {rs : List Root} (h : r.identity ≠ me) :
    others me (r :: rs) = r.identity.address :: others me rs := by
  refine congrArg (List.map _) (List.filter_cons_of_pos (p := fun r : Root => r.identity != me) ?_)
  exact bne_iff_ne.mpr h

theorem mem_others {me : Identity} {rs : List Root} {a : Address} :
    a ∈ others me rs ↔ ∃ r ∈ rs, r.identity ≠ me ∧ r.identity.address = a := by
  unfold others
  rw [List.mem_map]
  constructor
  · rintro ⟨r, hr, ha⟩
    obtain ⟨hr, hne⟩ := List.mem_filter.mp hr
    exact ⟨r, hr, bne_iff_ne.mp hne, ha⟩
  · rintro ⟨r, hr, hne, ha⟩
    exact ⟨r, List.mem_filter.mpr ⟨hr, bne_iff_ne.mpr hne⟩, ha⟩

theorem foldl_memoizeRoot_addresses (me : Identity) (rs : List Root) (u : Upstreams) :
    (rs.foldl (memoizeRoot me) u).addresses = u.addresses ++ fresh u.addresses (others me rs) := by
  rw [← foldl_push]
  induction rs generalizing u with
  | nil => rfl
  | cons r rs ih =>
      rw [List.foldl_cons, ih]
      unfold memoizeRoot
      by_cases hme : r.identity = me
      · rw [if_pos hme, others_cons_of_eq hme]
      · rw [if_neg hme, others_cons_of_ne hme, List.foldl_cons]
        split_ifs
        · rfl
        · rfl

theorem foldl_memoizeRoot_amUpstream (me : Identity) (rs : List Root) (u : Upstreams) :
    (rs.foldl (memoizeRoot me) u).amUpstream = true ↔
      u.amUpstream = true ∨ ∃ r ∈ rs, r.identity = me := by
  induction rs generalizing u with
  | nil => simp
  | cons r rs ih =>
      rw [List.foldl_cons, ih, List.exists_mem_cons_iff]
      unfold memoizeRoot
      by_cases hme : r.identity = me
      · rw [if_pos hme]
        exact iff_of_true (Or.inl rfl) (Or.inr (Or.inl hme))
      · rw [if_neg hme]
        split_ifs
        · exact or_congr_right (or_iff_right hme).symm
        · exact or_congr_right (or_iff_right hme).symm

/-- Every address that was gathered has a peer. -/
theorem foldl_memoizeRoot_peers (me : Identity) (rs : List Root) {u : Upstreams}
    (h : ∀ a ∈ u.addresses, (u.peers.get a).isSome) :
    ∀ a ∈ (rs.foldl (memoizeRoot me) u).addresses,
      ((rs.foldl (memoizeRoot me) u).peers.get a).isSome := by
  induction rs generalizing u with
  | nil => exact h
  | cons r rs ih =>
      refine ih ?_
      unfold memoizeRoot
      split_ifs
      · exact h
      · exact h
      · intro a ha
        show ((fillPeer u.peers r.identity.address ⟨r.identity⟩).get a).isSome
        rcases List.mem_append.mp ha with ha | ha
        · exact isSome_fillPeer _ _ (h a ha)
        · rw [List.mem_singleton.mp ha, get_fillPeer, if_pos rfl]
          rfl

theorem gatherUpstreams_eq (t : Topology) :
    t.gatherUpstreams = t.roots.foldl (memoizeRoot t.identity) ⟨[], false, t.peers⟩ := by
  rw [gatherUpstreams, roots, List.foldl_append, List.foldl_flatMap]

/-- **Gathering** makes it so. -/
theorem memoized_memoizeUpstreams (t : Topology) : Memoized t.memoizeUpstreams := by
  have haddresses := foldl_memoizeRoot_addresses t.identity t.roots ⟨[], false, t.peers⟩
  rw [← gatherUpstreams_eq, List.nil_append] at haddresses
  have hmem : ∀ a, a ∈ t.memoizeUpstreams.upstreamAddresses ↔ a ∈ t.gatherUpstreams.addresses :=
    fun a => List.mem_mergeSort
  refine ⟨?_, fun a => ?_, ?_, fun a ha => ?_⟩
  · -- sorted, and strictly so since nothing was gathered twice
    have hnodup : t.memoizeUpstreams.upstreamAddresses.Nodup := by
      refine (List.mergeSort_perm _ _).nodup_iff.mpr ?_
      rw [haddresses]
      exact nodup_fresh _ _
    have htrans : ∀ a b c : Address, decide (a ≤ b) = true → decide (b ≤ c) = true →
        decide (a ≤ c) = true := by
      intro a b c hab hbc
      exact decide_eq_true (BitVec.le_trans (of_decide_eq_true hab) (of_decide_eq_true hbc))
    have htotal : ∀ a b : Address, (decide (a ≤ b) || decide (b ≤ a)) = true := by
      intro a b
      rcases BitVec.le_total a b with h | h
      · rw [decide_eq_true h, Bool.true_or]
      · rw [decide_eq_true h, Bool.or_true]
    have hsorted : t.memoizeUpstreams.upstreamAddresses.Pairwise (· ≤ ·) :=
      (List.pairwise_mergeSort htrans htotal _).imp of_decide_eq_true
    exact hsorted.imp₂ (fun a b hle hne => BitVec.lt_of_le_ne hle hne) hnodup
  · rw [hmem, haddresses, mem_fresh, mem_others]
    exact and_iff_left List.not_mem_nil
  · have hiff := foldl_memoizeRoot_amUpstream t.identity t.roots ⟨[], false, t.peers⟩
    rw [← gatherUpstreams_eq] at hiff
    exact hiff.trans (or_iff_right Bool.false_ne_true)
  · have hpeers := foldl_memoizeRoot_peers (u := ⟨[], false, t.peers⟩) t.identity t.roots
      fun a ha => absurd ha List.not_mem_nil
    rw [← gatherUpstreams_eq] at hpeers
    exact hpeers a ((hmem a).mp ha)

/-! ### Runs -/

/-- What leaves the worlds and the peers of the upstreams alone leaves it so. -/
theorem Memoized.quiet (h : Memoized t) (hq : Quiet t t') : Memoized t' := by
  have hroots : t'.roots = t.roots := by
    unfold roots
    rw [hq.planet, hq.moons]
  refine ⟨?_, fun a => ?_, ?_, fun a ha => ?_⟩
  · rw [hq.upstreamAddresses]
    exact h.sorted
  · rw [hq.upstreamAddresses, hroots, hq.identity]
    exact h.mem a
  · rw [hq.amUpstream, hroots, hq.identity]
    exact h.amUpstream
  · rw [hq.upstreamAddresses] at ha
    exact hq.peers a ha (h.peers a ha)

theorem Memoized.step {e : TopologyEvent} (h : Memoized t) (hstep : Step ecc t e t') :
    Memoized t' := by
  rcases hstep with same | - | - | - | -
  · exact h.quiet same
  · exact memoized_memoizeUpstreams _
  · exact memoized_memoizeUpstreams _
  · exact memoized_memoizeUpstreams _
  · exact memoized_memoizeUpstreams _

theorem memoized_new (ecc : Ecc) (identity : Identity) (stored : Bytes) :
    Memoized (new ecc identity stored) := by
  have hempty : Memoized ⟨identity, .null, [], [], [], false, .empty 64 (by norm_num)⟩ := by
    refine ⟨List.Pairwise.nil, fun a => ?_, ?_, fun a ha => absurd ha List.not_mem_nil⟩
    · refine iff_of_false List.not_mem_nil ?_
      rintro ⟨r, hr, -⟩
      cases hr
    · refine iff_of_false Bool.false_ne_true ?_
      rintro ⟨r, hr, -⟩
      cases hr
  unfold new
  rcases loadWorld stored with - | w
  · exact hempty
  · dsimp only
    rcases h : addWorld ecc _ w false with err | o
    · exact hempty
    · rcases addWorld_cases h with rfl | ⟨t₁, type, -, rfl⟩
      · exact hempty
      · exact memoized_memoizeUpstreams t₁

/-- **The upstreams are those of the worlds**, after every run: their addresses sorted and once
each, the node one of them when its identity is a root's, and a peer for every address. -/
theorem memoized (ecc : Ecc) (identity : Identity) (stored : Bytes) (es : List TopologyEvent) :
    Memoized ((topology ecc).runState (new ecc identity stored) es) :=
  Machine.invariant_run (C := fun _ _ => True) (I := fun _ t => Memoized t)
    (fun _ t e h _ => h.step (step_cases ecc t e)) (h := []) (memoized_new ecc identity stored)
    (Machine.guarded_true _ _ es)

end Topology

end ZGalaxy
