/-
ZGalaxy/DBIndex.lean

What the database's indexes are worth.

The flags are kept exactly by taking out the old record and putting in the new one, since no other
record has a part in them.  An address is different: other members may have it as well, and then it
must not go with the one that gives it up (`indexed_refile_iff`, `indexed_unfile_iff`).

Main result: `exact_run`, that in every run whose steps take away no address of another member,
leave no members without a network and have the record that is the same as the one that is kept the
indexes are exact, and the records are the ones that were saved and not erased since.
-/
import ZGalaxy.DBEffects
import ZGalaxy.MapIndex

namespace ZGalaxy

open DBNetwork MapIndex

variable {pton : InetPton} {L : Type} {changeListeners : List L}

namespace FileDB

variable {db : FileDB}

/-! ### Exact indexes -/

/-- The indexes of a network tell what its records have. -/
structure Indexed (pton : InetPton) (nw : DBNetwork) : Prop where
  bridges : Flagged isBridge nw.members.get nw.activeBridgeMembers
  authorized : Flagged isAuthorized nw.members.get nw.authorizedMembers
  ips : Contributed (ipsOf pton) nw.members.get nw.allocatedIps

/-- An address of a member that another one has as well is also in the record that takes its place.
-/
def Unshared (pton : InetPton) (nw : DBNetwork) (id : UInt64) (rec : Option Json) : Prop :=
  ∀ ip ∈ contribution (ipsOf pton) (nw.members.get id),
    SharedBy (ipsOf pton) nw.members.get id ip → ip ∈ contribution (ipsOf pton) rec

variable (pton) in
theorem members_refile (nw : DBNetwork) (id : UInt64) (rec : Json) :
    (refile pton nw id rec).members.get = Function.update nw.members.get id (some rec) := by
  funext i
  have hmembers : (refile pton nw id rec).members = nw.members.set id rec := by
    unfold refile
    cases nw.members.get id <;> rfl
  rw [hmembers, Hashtable.get_set, Function.update_apply]

theorem members_unfile (nw : DBNetwork) (id : UInt64) (old : Json) :
    (unfile pton nw id old).members.get = Function.update nw.members.get id none := by
  funext i
  rw [unfile, Hashtable.get_erase, Function.update_apply]

theorem indexed_empty : Indexed pton DBNetwork.empty := by
  have hget : DBNetwork.empty.members.get = fun _ => none := funext members_empty
  exact ⟨hget ▸ flagged_empty, hget ▸ flagged_empty, hget ▸ contributed_empty⟩

/-- A record that takes the place of another keeps the indexes just when it keeps what is shared. -/
theorem indexed_refile_iff {nw : DBNetwork} (h : Indexed pton nw) (id : UInt64) (rec : Json) :
    Indexed pton (refile pton nw id rec) ↔ Unshared pton nw id (some rec) := by
  have hbridges : (refile pton nw id rec).activeBridgeMembers
      = reflag isBridge id (nw.members.get id) (some rec) nw.activeBridgeMembers := by
    unfold refile
    cases nw.members.get id <;> rfl
  have hauthorized : (refile pton nw id rec).authorizedMembers
      = reflag isAuthorized id (nw.members.get id) (some rec) nw.authorizedMembers := by
    unfold refile
    cases nw.members.get id <;> rfl
  have hips : (refile pton nw id rec).allocatedIps
      = recontribute (ipsOf pton) (nw.members.get id) (some rec) nw.allocatedIps := by
    unfold refile
    cases nw.members.get id with
    | none => exact congrArg (· ∪ ipsOf pton rec) Finset.sdiff_empty.symm
    | some kept => rfl
  have hiff := contributed_recontribute_iff h.ips id (some rec)
  constructor
  · intro hindexed
    have hcontributed := hindexed.ips
    rw [members_refile, hips] at hcontributed
    exact hiff.mp hcontributed
  · intro hunshared
    refine ⟨?_, ?_, ?_⟩
    · rw [members_refile, hbridges]
      exact h.bridges.reflag id (some rec)
    · rw [members_refile, hauthorized]
      exact h.authorized.reflag id (some rec)
    · rw [members_refile, hips]
      exact hiff.mpr hunshared

/-- A record that goes keeps the indexes just when nothing of it is shared. -/
theorem indexed_unfile_iff {nw : DBNetwork} (h : Indexed pton nw) {id : UInt64} {kept : Json}
    (hkept : nw.members.get id = some kept) :
    Indexed pton (unfile pton nw id kept) ↔ Unshared pton nw id none := by
  have hbridges : (unfile pton nw id kept).activeBridgeMembers
      = reflag isBridge id (nw.members.get id) none nw.activeBridgeMembers := by
    rw [hkept]
    rfl
  have hauthorized : (unfile pton nw id kept).authorizedMembers
      = reflag isAuthorized id (nw.members.get id) none nw.authorizedMembers := by
    rw [hkept]
    rfl
  have hips : (unfile pton nw id kept).allocatedIps
      = recontribute (ipsOf pton) (nw.members.get id) none nw.allocatedIps := by
    rw [hkept]
    exact (Finset.union_empty _).symm
  have hiff := contributed_recontribute_iff h.ips id none
  constructor
  · intro hindexed
    have hcontributed := hindexed.ips
    rw [members_unfile, hips] at hcontributed
    exact hiff.mp hcontributed
  · intro hunshared
    refine ⟨?_, ?_, ?_⟩
    · rw [members_unfile, hbridges]
      exact h.bridges.reflag id none
    · rw [members_unfile, hauthorized]
      exact h.authorized.reflag id none
    · rw [members_unfile, hips]
      exact hiff.mpr hunshared

/-! ### The same record -/

/-- A record that is kept has the fields that were saved, but for its revision. -/
def SameRecord (stored saved : Json) : Prop :=
  ∀ name, name ≠ "revision" →
    Option.Rel (fun a b => b.eqv a = true) (SortedMap.get name stored.members)
      (SortedMap.get name saved.members)

theorem sameRecord_revised (record : Json) : SameRecord (revised record) record := by
  intro name hname
  have hget : SortedMap.get name (revised record).members = SortedMap.get name record.members :=
    (SortedMap.get_set _ _ _ _ _).trans (if_neg hname)
  rw [hget]
  cases SortedMap.get name record.members with
  | none => exact .none
  | some v => exact .some (Json.eqv_refl v)

theorem nameLt_irrefl (a : String) : Json.nameLt a a = false := decide_eq_false (lt_irrefl a)

/-- The names of a record with a revision. -/
theorem sorted_revised (r : JsonRecord) :
    SortedMap.Sorted Json.nameLt (revised r.json).members := by
  refine SortedMap.Sorted.set ?_ ?_ r.sorted _ _
  · intro a b c hab hbc
    exact decide_eq_true ((of_decide_eq_true hab).trans (of_decide_eq_true hbc))
  · intro a b hne hlt
    exact decide_eq_true (lt_of_le_of_ne (not_lt.mp (of_decide_eq_false hlt)) (Ne.symm hne))

theorem compareRecords_objects {l m : List (String × Json)}
    (h : compareRecords (.object l) (.object m) = true) :
    l.length = m.length ∧ ∀ k v, (k, v) ∈ l → k ≠ "revision" →
      ∃ w, SortedMap.get k m = some w ∧ w.eqv v = true := by
  unfold compareRecords at h
  dsimp only at h
  rw [Bool.and_eq_true, beq_iff_eq, List.all_eq_true] at h
  refine ⟨h.1, fun k v hkv hk => ?_⟩
  rcases Bool.or_eq_true_iff.mp (h.2 (k, v) hkv) with hrev | hany
  · exact absurd (beq_iff_eq.mp hrev) hk
  · cases hw : SortedMap.get k m with
    | none =>
        rw [hw] at hany
        cases hany
    | some w =>
        rw [hw] at hany
        exact ⟨w, rfl, hany⟩

/-- **What compares as the same** as a record that is kept is the same, when it has a revision. -/
theorem sameRecord_of_compareRecords {r record : JsonRecord}
    (hsame : compareRecords (revised r.json) record.json = true)
    (hrevision : record.json.contains "revision" = true) :
    SameRecord (revised r.json) record.json := by
  obtain ⟨hlength, hfields⟩ := compareRecords_objects hsame
  have hnodup := (sorted_revised r).nodup nameLt_irrefl
  have hsub : (revised r.json).members.map Prod.fst ⊆ record.members.map Prod.fst := by
    intro name hname
    obtain ⟨⟨k, v⟩, hkv, rfl⟩ := List.mem_map.mp hname
    by_cases hk : k = "revision"
    · obtain ⟨w, hw⟩ := Option.isSome_iff_exists.mp hrevision
      exact List.mem_map.mpr ⟨_, SortedMap.mem_of_get hw, hk.symm⟩
    · obtain ⟨w, hw, -⟩ := hfields k v hkv hk
      exact List.mem_map.mpr ⟨_, SortedMap.mem_of_get hw, rfl⟩
  -- as many names, all of them different, so no other name is left
  have hperm : ((revised r.json).members.map Prod.fst).Perm (record.members.map Prod.fst) := by
    refine (List.subperm_of_subset hnodup hsub).perm_of_length_le ?_
    rw [List.length_map, List.length_map]
    exact hlength.ge
  intro name hname
  cases hget : SortedMap.get name (revised r.json).members with
  | some v =>
      obtain ⟨w, hw, heqv⟩ := hfields name v (SortedMap.mem_of_get hget) hname
      show Option.Rel _ _ (SortedMap.get name record.members)
      rw [hw]
      exact .some heqv
  | none =>
      cases hget' : SortedMap.get name record.json.members with
      | none => exact .none
      | some w =>
          have hmem := hperm.symm.subset (List.mem_map.mpr ⟨_, SortedMap.mem_of_get hget', rfl⟩)
          exact absurd hget (SortedMap.get_ne_none hmem)

/-! ### What was saved -/

/-- The records that were saved and not erased since, when one more thing happens. -/
def entry (led : UInt64 → UInt64 → Option Json) : Event → UInt64 → UInt64 → Option Json
  | .save record _ => fun nwid id =>
      if memberTarget record.json = some (nwid, id) then some record.json else led nwid id
  | .eraseNetwork networkId => fun nwid id => if nwid = networkId then none else led nwid id
  | .eraseMember networkId memberId => fun nwid id =>
      if nwid = networkId ∧ id = memberId then none else led nwid id

/-- The records that were saved and not erased since. -/
def ledger (es : List Event) : UInt64 → UInt64 → Option Json := es.foldl entry fun _ _ => none

theorem ledger_append (es : List Event) (e : Event) : ledger (es ++ [e]) = entry (ledger es) e := by
  unfold ledger
  rw [List.foldl_append]
  rfl

/-- The steps that keep the indexes: none takes away an address that another member has as well,
none erases a network that has members but no configuration, and a record that is the same as the
one that is kept has a revision. -/
def Keeps (pton : InetPton) (db : FileDB) : Event → Prop
  | .save record _ => ∀ nwid id nw kept, memberTarget record.json = some (nwid, id) →
      db.networks.get nwid = some nw → nw.members.get id = some kept →
      (compareRecords kept record.json = true → record.json.contains "revision" = true) ∧
      (compareRecords kept record.json = false → Unshared pton nw id (some record.json))
  | .eraseNetwork networkId => ∀ nw, db.networks.get networkId = some nw →
      nw.config.isObject = true ∨ ∀ id, nw.members.get id = none
  | .eraseMember networkId memberId => ∀ nw, db.networks.get networkId = some nw →
      Unshared pton nw memberId none

/-- The indexes are exact, and the records are those that were saved. -/
structure Exact (pton : InetPton) (es : List Event) (db : FileDB) : Prop where
  indexed : ∀ nwid nw, db.networks.get nwid = some nw → Indexed pton nw
  records : ∀ nwid id, Option.Rel SameRecord (db.record nwid id) (ledger es nwid id)

theorem ipsOf_revised (record : Json) : ipsOf pton (revised record) = ipsOf pton record := by
  unfold ipsOf
  rw [get_revised (by decide)]

theorem Exact.changed {es : List Event} (h : Exact pton es db) {nwid : UInt64}
    {nw : Option DBNetwork}
    {db' : FileDB} (hchanged : Changed db nwid nw db') (e : Event)
    (hindexed : ∀ n, nw = some n → Indexed pton n)
    (hother : ∀ n id, n ≠ nwid → entry (ledger es) e n id = ledger es n id)
    (hrecords : ∀ id, Option.Rel SameRecord (nw.bind (·.members.get id))
      (entry (ledger es) e nwid id)) :
    Exact pton (es ++ [e]) db' where
  indexed := by
    intro n nw' hnw'
    rw [hchanged n] at hnw'
    split_ifs at hnw' with hn
    · exact hindexed nw' hnw'
    · exact h.indexed n nw' hnw'
  records := by
    intro n id
    rw [ledger_append, record_changed hchanged]
    split_ifs with hn
    · exact hn ▸ hrecords id
    · rw [hother n id hn]
      exact h.records n id

/-- A step that leaves the database. -/
theorem Exact.same {es : List Event} (h : Exact pton es db) (e : Event)
    (hrecords : ∀ nwid id, Option.Rel SameRecord (db.record nwid id)
      (entry (ledger es) e nwid id)) :
    Exact pton (es ++ [e]) db where
  indexed := h.indexed
  records := by
    rw [ledger_append]
    exact hrecords

theorem Exact.getD {es : List Event} (h : Exact pton es db) (nwid : UInt64) :
    Indexed pton ((db.networks.get nwid).getD DBNetwork.empty) := by
  cases hnw : db.networks.get nwid with
  | none => exact indexed_empty
  | some nw => exact h.indexed nwid nw hnw

theorem entry_save_of_none {led : UInt64 → UInt64 → Option Json} {record : JsonRecord}
    {notify : Bool}
    (h : memberTarget record.json = none) : entry led (.save record notify) = led := by
  funext nwid id
  show (if memberTarget record.json = some (nwid, id) then _ else _) = _
  rw [h]
  exact if_neg nofun

/-- **A step that keeps the indexes keeps everything exact.** -/
theorem Exact.step {es : List Event} (h : Exact pton es db) (hdb : AllFiled db) {e : Event}
    {db' : FileDB} {calls : List (DBCall L)} (heffect : Effect pton changeListeners db e db' calls)
    (hkeeps : Keeps pton db e) : Exact pton (es ++ [e]) db' := by
  cases heffect with
  | ignored record notify hnone =>
      refine h.same _ fun nwid id => ?_
      rw [entry_save_of_none hnone]
      exact h.records nwid id
  | networkSaved record notify nwid ids _ hnone hids hnwid hnwid0 hdb' =>
      refine h.changed hdb' _ (fun n hn => ?_) (fun n id hn => ?_) fun id => ?_
      · -- the members are those that were there
        cases hn
        have hindexed := h.getD nwid
        exact ⟨hindexed.bridges, hindexed.authorized, hindexed.ips⟩
      · rw [entry_save_of_none hnone]
      · rw [entry_save_of_none hnone, Option.bind_some]
        show Option.Rel SameRecord (((db.networks.get nwid).getD DBNetwork.empty).members.get id) _
        rw [members_getD]
        exact h.records nwid id
  | memberSame record notify nwid id kept htarget hkept hsame =>
      refine h.same _ fun n i => ?_
      show Option.Rel SameRecord _ (if memberTarget record.json = some (n, i) then _ else _)
      split_ifs with hni
      · obtain ⟨nw, hnw, hmem⟩ := record_eq_some hkept
        obtain ⟨r, rfl, -⟩ := (hdb nwid nw hnw).members id kept hmem
        rw [htarget] at hni
        cases hni
        rw [hkept]
        exact .some (sameRecord_of_compareRecords hsame
          ((hkeeps nwid id nw _ htarget hnw hmem).1 hsame))
      · exact h.records n i
  | memberSaved record notify nwid id _ htarget hnew hdb' =>
      refine h.changed hdb' _ (fun n hn => ?_) (fun n i hn => ?_) fun i => ?_
      · -- an address that is taken away is that of no other member
        cases hn
        refine (indexed_refile_iff (h.getD nwid) id _).mpr fun ip hip hshared => ?_
        rw [members_getD] at hip
        cases hkept : db.record nwid id with
        | none =>
            rw [hkept] at hip
            cases Finset.notMem_empty ip hip
        | some kept =>
            obtain ⟨nw, hnw, hmem⟩ := record_eq_some hkept
            rw [hnw] at hshared
            have hip' := (hkeeps nwid id nw kept htarget hnw hmem).2 (hnew kept hkept) ip
              (by rwa [hmem, ← hkept]) hshared
            show ip ∈ ipsOf pton (revised record.json)
            rw [ipsOf_revised]
            exact hip'
      · refine if_neg ?_
        rw [htarget]
        rintro heq
        cases heq
        exact hn rfl
      · show Option.Rel SameRecord ((refile pton _ id _).members.get i)
          (if memberTarget record.json = some (nwid, i) then _ else _)
        rw [members_refile, htarget, Function.update_apply]
        by_cases hi : i = id
        · rw [if_pos hi, if_pos (by rw [hi])]
          exact .some (sameRecord_revised record.json)
        · rw [if_neg hi, if_neg fun heq => hi (by cases heq; rfl), members_getD]
          exact h.records nwid i
  | memberAbsent nwid id hnone =>
      refine h.same _ fun n i => ?_
      show Option.Rel SameRecord _ (if n = nwid ∧ i = id then _ else _)
      split_ifs with hni
      · rw [hni.1, hni.2, hnone]
        exact .none
      · exact h.records n i
  | memberErased nwid id nw kept _ hnw hkept hdb' =>
      refine h.changed hdb' _ (fun n hn => ?_) (fun n i hn => ?_) fun i => ?_
      · cases hn
        exact (indexed_unfile_iff (h.indexed nwid nw hnw) hkept).mpr (hkeeps nw hnw)
      · exact if_neg fun hni => hn hni.1
      · show Option.Rel SameRecord ((unfile pton nw id kept).members.get i)
          (if nwid = nwid ∧ i = id then _ else _)
        rw [members_unfile, Function.update_apply]
        by_cases hi : i = id
        · rw [if_pos hi, if_pos ⟨rfl, hi⟩]
          exact .none
        · rw [if_neg hi, if_neg fun hni => hi hni.2]
          have hrecord := h.records nwid i
          unfold record at hrecord
          rwa [hnw] at hrecord
  | networkLeft nwid hobj =>
      refine h.same _ fun n i => ?_
      show Option.Rel SameRecord _ (if n = nwid then _ else _)
      split_ifs with hn
      · -- nothing is erased, and there was nobody
        have hnone : db.record n i = none := by
          subst hn
          unfold record
          cases hnw : db.networks.get n with
          | none => rfl
          | some nw =>
              rw [getNetwork, hnw] at hobj
              rcases hkeeps nw hnw with hconfig | hmembers
              · rw [show nw.config.isObject = false from hobj] at hconfig
                cases hconfig
              · exact hmembers i
        rw [hnone]
        exact .none
      · exact h.records n i
  | networkErased nwid nw _ hnw hobj hdb' =>
      refine h.changed hdb' _ (fun n hn => by cases hn) (fun n i hn => if_neg hn) fun i => ?_
      show Option.Rel SameRecord none (if nwid = nwid then _ else _)
      rw [if_pos rfl]
      exact .none

theorem exact_empty : Exact pton [] FileDB.empty where
  indexed := by
    intro nwid nw hnw
    rw [networks_empty] at hnw
    cases hnw
  records := by
    intro nwid id
    unfold record
    rw [networks_empty]
    exact .none

/-- **The indexes in a run.**  While the steps keep them, the indexes of every network are exact,
and its members have the records that were saved and not erased since. -/
theorem exact_run {es : List Event}
    (hkeeps : (machine pton changeListeners).Guarded (Keeps pton) FileDB.empty es) :
    Exact pton es ((machine pton changeListeners).runState FileDB.empty es) := by
  refine (Machine.invariant_run (I := fun es db => AllFiled db ∧ Exact pton es db) ?_
    (h := []) ⟨allFiled_empty, exact_empty⟩ hkeeps).2
  rintro es db e ⟨hdb, hexact⟩ hkeeps
  exact ⟨hdb.step (step_effect _ _ hdb e), hexact.step hdb (step_effect _ _ hdb e) hkeeps⟩

/-! ### Two members with one address -/

/-- The address of the members below. -/
def oneAddress : InetPton := ⟨fun _ => 0x0a000001, fun _ => 0⟩

/-- The record of a member of network 7, with the address. -/
def addressed (id : String) : JsonRecord where
  members := [("id", .string id), ("ipAssignments", .array [.string "10.0.0.1"]),
    ("nwid", .string "7"), ("objtype", .string "member")]
  sorted := SortedMap.sorted_of_keys
    (show ["id", "ipAssignments", "nwid", "objtype"].Pairwise fun a b => Json.nameLt a b = true by
      decide)

theorem addressed_target {id : String} {n : UInt64} (h : CString.strtoull 16 id = n) (hn : n ≠ 0) :
    memberTarget (addressed id).json = some (7, n) := by
  refine memberTarget_eq_some.mpr ⟨?_, h, ?_, hn, by decide⟩
  · rfl
  · show CString.strtoull 16 "7" = 7
    decide

theorem address_mem (id : String) :
    .v4 0x0a000001 0 ∈ ipsOf oneAddress (revised (addressed id).json) := by
  have hget : (addressed id).json.get "ipAssignments" = .array [.string "10.0.0.1"] := rfl
  rw [ipsOf_revised, ipsOf, hget]
  decide

theorem saved_first {db' : FileDB}
    (h : db' = ((machine oneAddress [()]).step FileDB.empty (.save (addressed "1") true)).1) :
    AllFiled db' ∧ db'.networks.get 7
      = some (DBNetwork.empty.put oneAddress 1 (revised (addressed "1").json)) := by
  subst h
  refine ⟨allFiled_empty.step (step_effect _ _ allFiled_empty _), ?_⟩
  rw [saved_new _ _ allFiled_empty (addressed_target (by decide) (by decide)) rfl (members_empty 1),
    if_pos rfl,
    networks_empty]
  rfl

/-- A member that joins with an address and leaves. -/
theorem exact_joined :
    Exact oneAddress [.save (addressed "1") true, .eraseMember 7 1]
      ((machine oneAddress [()]).runState FileDB.empty
        [.save (addressed "1") true, .eraseMember 7 1]) := by
  refine exact_run ⟨?_, ?_, trivial⟩
  · intro nwid id nw kept htarget hnw hkept
    rw [networks_empty] at hnw
    cases hnw
  · intro nw hnw ip hip ⟨id, hid, hshared⟩
    rw [(saved_first rfl).2] at hnw
    cases hnw
    -- nobody else is there
    rw [← refile_new (members_empty 1), members_refile, Function.update_of_ne hid, members_empty]
      at hshared
    cases Finset.notMem_empty ip hshared

/-- When one of two members that have the same address leaves, the address counts as free. -/
theorem shared_address_lost :
    ¬ Exact oneAddress [.save (addressed "1") true, .save (addressed "2") true, .eraseMember 7 1]
      ((machine oneAddress [()]).runState FileDB.empty
        [.save (addressed "1") true, .save (addressed "2") true, .eraseMember 7 1]) := by
  intro h
  obtain ⟨hdb1, hnw1⟩ := saved_first rfl
  have hdb2 := hdb1.step (step_effect oneAddress [()] hdb1 (.save (addressed "2") true))
  -- the networks after the second and the third step
  have hnone :
      (DBNetwork.empty.put oneAddress 1 (revised (addressed "1").json)).members.get 2 = none := by
    rw [← refile_new (members_empty 1), members_refile, Function.update_of_ne (by decide),
      members_empty]
  have second : CString.strtoull 16 "2" = 2 := by decide
  have hnw2 := saved_new oneAddress [()] hdb1 (addressed_target second (by decide))
    (congrArg (Option.getD · DBNetwork.empty) hnw1) hnone true 7
  rw [if_pos rfl, Option.getD_some] at hnw2
  have hkept : ((DBNetwork.empty.put oneAddress 1 (revised (addressed "1").json)).put oneAddress 2
      (revised (addressed "2").json)).members.get 1 = some (revised (addressed "1").json) := by
    rw [← refile_new hnone, members_refile, Function.update_of_ne (by decide),
      ← refile_new (members_empty 1), members_refile, Function.update_self]
  have hnw3 := erased_kept oneAddress [()] hdb2 hnw2 hkept 7
  rw [if_pos rfl] at hnw3
  -- the second member still has the address
  have hips := ((h.indexed 7 _ hnw3).ips (.v4 0x0a000001 0)).mpr
    ⟨2, revised (addressed "2").json, ?_, address_mem "2"⟩
  · exact (Finset.mem_sdiff.mp hips).2 (address_mem "1")
  · rw [members_unfile, Function.update_of_ne (by decide), ← refile_new hnone, members_refile,
      Function.update_self]

end FileDB

end ZGalaxy
