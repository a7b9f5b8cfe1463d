/-
ZGalaxy/WorldUpdates.lean

Who changes a world.

A world with an id follows the world it replaces when it is newer and signed with the key that
the replaced one names (`Updates`).  A refresh of endpoints carries no signature; it touches the
first root's endpoints and nothing else (`Refreshes`).  A step does one of the two
(`Authentic`), to the planet (`planet_step`) and to every moon that is not removed
(`moon_step`), so over a run the key that must have signed a change is always the one stored
just before it.

A world whose id is zero counts as no world yet and is replaced by any other.

Main result: `worlds_follow`; `goes_unsigned` is a moon with the id zero.
-/
import ZGalaxy.Topology

namespace ZGalaxy

open ByteList

variable {ecc : Ecc}

namespace World

variable {w w' w'' : World}

/-! ### How worlds change -/

/-- A newer world, signed with the key of the world it replaces. -/
structure Updates (ecc : Ecc) (w w' : World) : Prop where
  id : w'.id = w.id
  type : w'.type = w.type
  newer : w.timestamp < w'.timestamp
  signed : ∃ tmp, w'.serialize true = .ok tmp ∧
    ecc.verify w.updatesMustBeSignedBy tmp w'.signature = true

/-- The same world but for the endpoints of its first root. -/
structure Refreshes (w w' : World) : Prop where
  id : w'.id = w.id
  timestamp : w'.timestamp = w.timestamp
  type : w'.type = w.type
  updatesMustBeSignedBy : w'.updatesMustBeSignedBy = w.updatesMustBeSignedBy
  signature : w'.signature = w.signature
  identities : w'.roots.map Root.identity = w.roots.map Root.identity
  otherRoots : w'.roots.tail = w.roots.tail

theorem Refreshes.refl (w : World) : Refreshes w w := ⟨rfl, rfl, rfl, rfl, rfl, rfl, rfl⟩

/-- The same id and type, and not older. -/
structure Follows (w w' : World) : Prop where
  id : w'.id = w.id
  type : w'.type = w.type
  timestamp : w.timestamp ≤ w'.timestamp

theorem Follows.refl (w : World) : Follows w w := ⟨rfl, rfl, UInt64.le_refl _⟩

theorem Follows.trans (h : Follows w w') (h' : Follows w' w'') : Follows w w'' :=
  ⟨h'.id.trans h.id, h'.type.trans h.type, UInt64.le_trans h.timestamp h'.timestamp⟩

/-- **What a check that succeeds has seen**, of a world that is one. -/
theorem updates_of_shouldBeReplacedBy (h : w.shouldBeReplacedBy ecc w' = .ok true)
    (hid : w.id ≠ 0) (htype : w.type ≠ .null) : Updates ecc w w' := by
  unfold shouldBeReplacedBy at h
  rw [if_neg (not_or.mpr ⟨hid, htype⟩)] at h
  split_ifs at h with hcheck
  · rcases htmp : w'.serialize true with e | tmp
    · rw [htmp] at h
      cases h
    · rw [htmp] at h
      exact ⟨hcheck.1.symm, hcheck.2.2.symm, hcheck.2.1, tmp, htmp, Except.ok.inj h⟩
  · cases h

end World

namespace Topology

open World

variable {t t' : Topology} {e : TopologyEvent} {m : World}

/-- A change of a world is a refresh, or an update that the call brings in. -/
def Authentic (ecc : Ecc) (e : TopologyEvent) (w w' : World) : Prop :=
  Refreshes w w' ∨ Brings e w' ∧ Updates ecc w w'

theorem Authentic.follows {w w' : World} (h : Authentic ecc e w w') : Follows w w' := by
  rcases h with h | ⟨-, h⟩
  · exact ⟨h.id, h.type, h.timestamp.symm ▸ UInt64.le_refl _⟩
  · exact ⟨h.id, h.type, UInt64.le_of_lt h.newer⟩

/-- A refresh of endpoints is one. -/
theorem refreshes_of_refresh {w w' : World} {eps : List InetAddress} {a : Address}
    (h : refresh w eps = some (a, w')) : Refreshes w w' := by
  unfold refresh at h
  rcases hroots : w.roots with - | ⟨root, roots⟩
  · rw [hroots] at h
    cases h
  · rw [hroots] at h
    dsimp only at h
    split_ifs at h
    obtain ⟨-, rfl⟩ := Prod.mk.inj (Option.some.inj h)
    refine ⟨rfl, rfl, rfl, rfl, rfl, ?_, ?_⟩
    · rw [setRootStableEndpoints, hroots]
      rfl
    · rw [setRootStableEndpoints, hroots]
      rfl

/-! ### Moons in their places -/

theorem id_of_find? {id : UInt64} {moons : List World}
    (h : moons.find? (·.id == id) = some m) : m.id = id :=
  beq_iff_eq.mp (List.find?_some (p := fun m : World => m.id == id) h)

theorem map_id_replaceMoon {id : UInt64} {w : World} (h : w.id = id) (moons : List World) :
    (replaceMoon id w moons).map World.id = moons.map World.id := by
  induction moons with
  | nil => rfl
  | cons m moons ih =>
      unfold replaceMoon
      split_ifs with hm
      · rw [List.map_cons, List.map_cons, h, hm]
      · rw [List.map_cons, List.map_cons, ih]

/-- The moon that was found is replaced. -/
theorem mem_replaceMoon_self {id : UInt64} {moons : List World}
    (h : moons.find? (·.id == id) = some m) (w : World) : w ∈ replaceMoon id w moons := by
  induction moons with
  | nil => cases h
  | cons x moons ih =>
      unfold replaceMoon
      split_ifs with hx
      · exact List.mem_cons_self
      · rw [List.find?_cons_of_neg (by rwa [beq_iff_eq])] at h
        exact List.mem_cons_of_mem x (ih h)

/-- Moons with other ids stay. -/
theorem mem_replaceMoon_of_ne {id : UInt64} {w : World} {moons : List World} (hm : m ∈ moons)
    (hid : m.id ≠ id) : m ∈ replaceMoon id w moons := by
  induction moons with
  | nil => cases hm
  | cons x moons ih =>
      unfold replaceMoon
      split_ifs with hx
      · rcases List.mem_cons.mp hm with rfl | hm
        · exact absurd hx hid
        · exact List.mem_cons_of_mem w hm
      · rcases List.mem_cons.mp hm with rfl | hm
        · exact List.mem_cons_self
        · exact List.mem_cons_of_mem x (ih hm)

theorem mem_of_mem_replaceMoon {id : UInt64} {w : World} {moons : List World}
    (hm : m ∈ replaceMoon id w moons) : m = w ∨ m ∈ moons := by
  induction moons with
  | nil => cases hm
  | cons x moons ih =>
      unfold replaceMoon at hm
      split_ifs at hm with hx
      · rcases List.mem_cons.mp hm with rfl | hm
        · exact Or.inl rfl
        · exact Or.inr (List.mem_cons_of_mem x hm)
      · rcases List.mem_cons.mp hm with rfl | hm
        · exact Or.inr List.mem_cons_self
        · exact (ih hm).imp_right (List.mem_cons_of_mem x)

/-! ### The invariant -/

/-- A planet without a type has no id either, moons are moons, and no two have the same id. -/
structure Sound (t : Topology) : Prop where
  planet : t.planet.type = .null → t.planet.id = 0
  moons : ∀ m ∈ t.moons, m.type = .moon
  ids : (t.moons.map World.id).Nodup

/-- The moon that is found is the only one with its id. -/
theorem Sound.eq_of_find? (h : Sound t) {id : UInt64} {x : World}
    (hx : t.moons.find? (·.id == id) = some x) (hm : m ∈ t.moons) (hid : m.id = id) : m = x := by
  have hxid : x.id = id := id_of_find? hx
  exact List.inj_on_of_nodup_map h.ids hm (List.mem_of_find?_eq_some hx) (hid.trans hxid.symm)

theorem Sound.accepts {w : World} (h : Sound t) (ha : Accepts ecc t w t') : Sound t' := by
  rcases ha with ⟨htype, -⟩ | ⟨htype, -, -⟩ | ⟨htype, hfind, seeds⟩
  · refine ⟨fun hnull => ?_, h.moons, h.ids⟩
    cases htype.symm.trans hnull
  · refine ⟨h.planet, fun m hm => ?_, ?_⟩
    · rcases mem_of_mem_replaceMoon hm with rfl | hm
      · exact htype
      · exact h.moons m hm
    · show ((replaceMoon w.id w t.moons).map World.id).Nodup
      rw [map_id_replaceMoon rfl]
      exact h.ids
  · refine ⟨h.planet, fun m hm => ?_, ?_⟩
    · rcases List.mem_append.mp hm with hm | hm
      · exact h.moons m hm
      · rw [List.mem_singleton.mp hm]
        exact htype
    · show ((t.moons ++ [w]).map World.id).Nodup
      rw [List.map_append, List.nodup_append]
      refine ⟨h.ids, List.nodup_singleton _, ?_⟩
      rintro a ha b hb rfl
      obtain ⟨m, hm, hid⟩ := List.mem_map.mp ha
      refine List.find?_eq_none.mp hfind m hm (beq_iff_eq.mpr ?_)
      rw [hid]
      exact List.mem_singleton.mp hb

/-- **The invariant is kept.** -/
theorem Sound.step (h : Sound t) (hstep : Step ecc t e t') : Sound t' := by
  rcases hstep with same | ⟨-, accepts⟩ | hrefresh | ⟨hfind, hrefresh⟩ | id
  · refine ⟨?_, ?_, ?_⟩
    · rw [same.planet]
      exact h.planet
    · rw [same.moons]
      exact h.moons
    · rw [same.moons]
      exact h.ids
  · obtain ⟨h₁, h₂, h₃⟩ := h.accepts accepts
    exact ⟨h₁, h₂, h₃⟩
  · have hkept := refreshes_of_refresh hrefresh
    refine ⟨fun hnull => ?_, h.moons, h.ids⟩
    exact hkept.id.trans (h.planet (hkept.type.symm.trans hnull))
  · rename_i worldId _ _ m moon
    have hkept := refreshes_of_refresh hrefresh
    have hid : m.id = worldId := id_of_find? hfind
    refine ⟨h.planet, fun x hx => ?_, ?_⟩
    · rcases mem_of_mem_replaceMoon hx with rfl | hx
      · exact hkept.type.trans (h.moons m (List.mem_of_find?_eq_some hfind))
      · exact h.moons x hx
    · show ((replaceMoon worldId moon t.moons).map World.id).Nodup
      rw [map_id_replaceMoon (hkept.id.trans hid)]
      exact h.ids
  · refine ⟨h.planet, fun m hm => h.moons m (List.mem_of_mem_filter hm), ?_⟩
    exact h.ids.sublist (List.filter_sublist.map World.id)

/-! ### One step -/

/-- **The planet.** -/
theorem planet_step (h : Sound t) (hid : t.planet.id ≠ 0) (hstep : Step ecc t e t') :
    Authentic ecc e t.planet t'.planet := by
  rcases hstep with same | ⟨brings, accepts⟩ | hrefresh | - | -
  · rw [same.planet]
    exact Or.inl (.refl _)
  · rcases accepts with ⟨-, hreplaces⟩ | - | -
    · exact Or.inr ⟨brings, updates_of_shouldBeReplacedBy hreplaces hid fun hnull =>
        hid (h.planet hnull)⟩
    · exact Or.inl (.refl _)
    · exact Or.inl (.refl _)
  · exact Or.inl (refreshes_of_refresh hrefresh)
  · exact Or.inl (.refl _)
  · exact Or.inl (.refl _)

/-- **A moon with an id, that is not removed.** -/
theorem moon_step (h : Sound t) (hm : m ∈ t.moons) (hid : m.id ≠ 0) (he : e ≠ .removeMoon m.id)
    (hstep : Step ecc t e t') : ∃ m' ∈ t'.moons, Authentic ecc e m m' := by
  rcases hstep with same | ⟨brings, accepts⟩ | - | ⟨hfind, hrefresh⟩ | id
  · rw [same.moons]
    exact ⟨m, hm, Or.inl (.refl m)⟩
  · rcases accepts with - | ⟨-, hfind, hreplaces⟩ | -
    · exact ⟨m, hm, Or.inl (.refl m)⟩
    · rename_i w x
      by_cases hmw : m.id = w.id
      · obtain rfl := h.eq_of_find? hfind hm hmw
        refine ⟨w, mem_replaceMoon_self hfind w, Or.inr ⟨brings, ?_⟩⟩
        refine updates_of_shouldBeReplacedBy hreplaces hid fun hnull => ?_
        cases (h.moons m hm).symm.trans hnull
      · exact ⟨m, mem_replaceMoon_of_ne hm hmw, Or.inl (.refl m)⟩
    · exact ⟨m, List.mem_append_left _ hm, Or.inl (.refl m)⟩
  · exact ⟨m, hm, Or.inl (.refl m)⟩
  · rename_i worldId _ _ x moon
    by_cases hmw : m.id = worldId
    · obtain rfl := h.eq_of_find? hfind hm hmw
      exact ⟨moon, mem_replaceMoon_self hfind moon, Or.inl (refreshes_of_refresh hrefresh)⟩
    · exact ⟨m, mem_replaceMoon_of_ne hm hmw, Or.inl (.refl m)⟩
  · refine ⟨m, List.mem_filter.mpr ⟨hm, bne_iff_ne.mpr fun hmid => ?_⟩, Or.inl (.refl m)⟩
    exact he (congrArg _ hmid.symm)

/-! ### Runs -/

/-- A topology that a node can have. -/
def Reachable (ecc : Ecc) (t : Topology) : Prop :=
  ∃ identity stored es, t = (topology ecc).runState (new ecc identity stored) es

theorem sound_new (ecc : Ecc) (identity : Identity) (stored : Bytes) :
    Sound (new ecc identity stored) := by
  have hempty : Sound ⟨identity, .null, [], [], [], false, .empty 64 (by norm_num)⟩ :=
    ⟨fun _ => rfl, fun m hm => absurd hm List.not_mem_nil, List.nodup_nil⟩
  unfold new
  rcases loadWorld stored with - | w
  · exact hempty
  · dsimp only
    rcases h : addWorld ecc _ w false with err | o
    · exact hempty
    · rcases addWorld_cases h with rfl | ⟨t₁, type, haccepts, rfl⟩
      · exact hempty
      · obtain ⟨h₁, h₂, h₃⟩ := hempty.accepts haccepts
        exact ⟨h₁, h₂, h₃⟩

theorem Sound.run (h : Sound t) (es : List TopologyEvent) :
    Sound ((topology ecc).runState t es) :=
  Machine.invariant_run (C := fun _ _ => True) (I := fun _ t => Sound t)
    (fun _ t e h _ => h.step (step_cases ecc t e)) (h := []) h (Machine.guarded_true _ _ es)

theorem Reachable.sound (h : Reachable ecc t) : Sound t := by
  obtain ⟨identity, stored, es, rfl⟩ := h
  exact (sound_new ecc identity stored).run es

theorem planet_run (h : Sound t) (hid : t.planet.id ≠ 0) (es : List TopologyEvent) :
    Follows t.planet ((topology ecc).runState t es).planet := by
  induction es generalizing t with
  | nil => exact .refl _
  | cons e es ih =>
      have hstep := step_cases ecc t e
      have hfollows := (planet_step h hid hstep).follows
      exact hfollows.trans (ih (h.step hstep) (hfollows.id ▸ hid))

theorem moon_run (h : Sound t) (hm : m ∈ t.moons) (hid : m.id ≠ 0) {es : List TopologyEvent}
    (hes : .removeMoon m.id ∉ es) : ∃ m' ∈ ((topology ecc).runState t es).moons, Follows m m' := by
  induction es generalizing t m with
  | nil => exact ⟨m, hm, .refl m⟩
  | cons e es ih =>
      have hstep := step_cases ecc t e
      obtain ⟨he, hes⟩ := not_or.mp (mt List.mem_cons.mpr hes)
      obtain ⟨m₁, hm₁, hauthentic⟩ := moon_step h hm hid (Ne.symm he) hstep
      have hfollows := hauthentic.follows
      rw [← hfollows.id] at hid hes
      obtain ⟨m', hm', hfollows'⟩ := ih (h.step hstep) hm₁ hid hes
      exact ⟨m', hm', hfollows.trans hfollows'⟩

/-- **Worlds are followed by authentic ones.**  Over every run from a planet with an id, the
planet keeps its id and type and is never older, every moon with an id does the same until it is
removed, the ids of the moons are distinct, and every step is authentic. -/
theorem worlds_follow (h : Reachable ecc t) (hid : t.planet.id ≠ 0) (es : List TopologyEvent) :
    (Follows t.planet ((topology ecc).runState t es).planet ∧
      ∀ e, Authentic ecc e ((topology ecc).runState t es).planet
        ((topology ecc).runState t (es ++ [e])).planet) ∧
    ((∀ m ∈ t.moons, m.id ≠ 0 → .removeMoon m.id ∉ es →
        ∃ m' ∈ ((topology ecc).runState t es).moons, Follows m m') ∧
      ∀ e, ∀ m ∈ ((topology ecc).runState t es).moons, m.id ≠ 0 → e ≠ .removeMoon m.id →
        ∃ m' ∈ ((topology ecc).runState t (es ++ [e])).moons, Authentic ecc e m m') ∧
    (((topology ecc).runState t es).moons.map World.id).Nodup := by
  have hsound : Sound ((topology ecc).runState t es) := h.sound.run es
  have hplanet : Follows t.planet ((topology ecc).runState t es).planet := planet_run h.sound hid es
  refine ⟨⟨hplanet, fun e => ?_⟩, ⟨fun m hm hmid hes => ?_, fun e m hm hmid he => ?_⟩, hsound.ids⟩
  · rw [Machine.runState_concat]
    exact planet_step hsound (hplanet.id ▸ hid) (step_cases ecc _ e)
  · exact moon_run h.sound hm hmid hes
  · rw [Machine.runState_concat]
    exact moon_step hsound hm hmid he (step_cases ecc _ e)

/-- A world without roots. -/
def bare (type : WorldType) (id timestamp : UInt64) : World :=
  ⟨id, timestamp, type, List.replicate 64 0, List.replicate 96 0, []⟩

/-- A cryptography in which every check has the same outcome. -/
def eccOf (valid : Bool) : Ecc := ⟨fun _ _ _ => valid, fun data => data⟩

/-- A node with a planet and two moons, one of them with the id zero. -/
def orbited (valid : Bool) : Topology :=
  (topology (eccOf valid)).runState (new (eccOf valid) ⟨0x0102030405, []⟩ [])
    [.addWorld (bare .planet 1 5) false, .addWorld (bare .moon 7 5) true,
      .addWorld (bare .moon 0 5) true]

theorem reachable_orbited (valid : Bool) : Reachable (eccOf valid) (orbited valid) :=
  ⟨⟨0x0102030405, []⟩, [], _, rfl⟩

/-- A planet and a moon that are updated. -/
theorem worlds_follow_orbited :
    Follows (bare .planet 1 5) (bare .planet 1 6) ∧
      (∃ m' ∈ [bare .moon 7 9, bare .moon 0 5], Follows (bare .moon 7 5) m') := by
  have hid : (orbited true).planet.id ≠ 0 := by decide +kernel
  have hrun := worlds_follow (reachable_orbited true) hid
    [.addWorld (bare .planet 1 6) false, .addWorld (bare .moon 7 9) false]
  have hmoon : bare .moon 7 5 ∈ (orbited true).moons := by decide +kernel
  have hremoved : .removeMoon (bare .moon 7 5).id ∉
      [TopologyEvent.addWorld (bare .planet 1 6) false, .addWorld (bare .moon 7 9) false] := by
    simp
  exact ⟨hrun.1.1, hrun.2.1.1 _ hmoon (show (7 : UInt64) ≠ 0 by decide) hremoved⟩

/-- **A moon with the id zero** is replaced by an older one that nobody has signed. -/
theorem goes_unsigned : ¬ ∀ (ecc : Ecc) (t : Topology), Reachable ecc t → t.planet.id ≠ 0 →
    ∀ es, ∀ m ∈ t.moons, .removeMoon m.id ∉ es →
      ∃ m' ∈ ((topology ecc).runState t es).moons, Follows m m' := by
  intro h
  have hid : (orbited false).planet.id ≠ 0 := by decide +kernel
  have hmoon : bare .moon 0 5 ∈ (orbited false).moons := by decide +kernel
  have hremoved : .removeMoon (bare .moon 0 5).id ∉
      [TopologyEvent.addWorld (bare .moon 0 1) false] := by
    simp
  have hmoons : ((topology (eccOf false)).runState (orbited false)
      [.addWorld (bare .moon 0 1) false]).moons = [bare .moon 7 5, bare .moon 0 1] := by
    decide +kernel
  obtain ⟨m', hm', hfollows⟩ := h _ _ (reachable_orbited false) hid _ _ hmoon hremoved
  rw [hmoons] at hm'
  rcases List.mem_cons.mp hm' with rfl | hm'
  · exact absurd hfollows.id (by decide)
  · rw [List.mem_singleton.mp hm'] at hfollows
    exact absurd hfollows.timestamp (by decide)

end Topology

end ZGalaxy
