/-
ZGalaxy/Deauthorization.lean

Who hears that a member is not authorized any more.

The listeners are told of a member when its record loses the flag, when it is erased, and when its
network is erased (`Announces`).  The last is done with the ids in the records: a record whose id
is a number ends the telling, and the members after it are erased in silence.  A network that was
never saved cannot be erased at all.  `Tells` is the condition on a step under which nothing of
this goes wrong.

The time of the last deauthorization of a network is that of the latest record that was saved
without the flag (`Timed`); a record that counts as the same as the one that is kept is not looked
at.

Main result: `announced_run`, that in every run whose steps meet the condition every
deauthorization is announced, and none but these; and the times are kept.
-/
import ZGalaxy.DBEffects
import ZGalaxy.JsonEquality

namespace ZGalaxy

open DBNetwork

variable {pton : InetPton} {L : Type} {changeListeners : List L}

namespace FileDB

variable {db : FileDB}

/-- A member has an authorized record. -/
def Authorized (db : FileDB) (nwid id : UInt64) : Prop :=
  (db.record nwid id).any isAuthorized = true

/-- When a record says that its member was deauthorized. -/
def lastDeauthorized (record : Json) : Int64 :=
  (jsonInt (record.get "lastDeauthorizedTime") 0).toInt64

/-- What the listeners are told in one step. -/
structure Announces (changeListeners : List L) (db : FileDB) (e : Event) (db' : FileDB)
    (calls : List (DBCall L)) : Prop where
  /-- every member that was authorized and is not any more, or is erased, or its network is -/
  lost : ∀ nwid id, Authorized db nwid id →
    (¬ Authorized db' nwid id ∨ e = .eraseMember nwid id ∨ e = .eraseNetwork nwid) →
    ∀ listener ∈ changeListeners, .onNetworkMemberDeauthorize listener nwid id ∈ calls
  /-- no member that stays authorized -/
  stays : ∀ listener nwid id, .onNetworkMemberDeauthorize listener nwid id ∈ calls →
    ¬ (Authorized db nwid id ∧ Authorized db' nwid id)
  /-- the time of a network does not go back -/
  time : ∀ nwid nw nw', db.networks.get nwid = some nw → db'.networks.get nwid = some nw' →
    nw.mostRecentDeauthTime ≤ nw'.mostRecentDeauthTime

/-- The events of a run that is listened to. -/
def Event.Notifies : Event → Prop
  | .save _ notifyListeners => notifyListeners = true
  | _ => True

/-- The fields that tell when a member was deauthorized. -/
def deauthFields : List String := ["authorized", "lastDeauthorizedTime"]

/-- The steps that tell everything: a network with authorized members is only erased when it has a
configuration and the ids of its records are strings, and a record without the flag that is the
same as the one that is kept says the same of the deauthorization, or says no later time. -/
def Tells (db : FileDB) : Event → Prop
  | .save record _ => ∀ nwid id nw kept, memberTarget record.json = some (nwid, id) →
      db.networks.get nwid = some nw → nw.members.get id = some kept →
      compareRecords kept record.json = true → isAuthorized record.json = false →
      (∀ name ∈ deauthFields, Json.Same (kept.get name) (record.json.get name)) ∨
        lastDeauthorized record.json ≤ nw.mostRecentDeauthTime
  | .eraseNetwork networkId => ∀ nw, db.networks.get networkId = some nw →
      (∀ id, ¬ Authorized db networkId id) ∨
        nw.config.isObject = true ∧
          ∀ id kept, nw.members.get id = some kept → (kept.get "id").text.isSome = true
  | .eraseMember _ _ => True

/-! ### The members of a network that is erased -/

/-- All are announced while the ids are strings. -/
theorem mem_deauthorizeAll {nwid id : UInt64} {members : List Json} {member : Json}
    (htexts : ∀ m ∈ members, (m.get "id").text.isSome = true) (hmem : member ∈ members)
    (hid : jsonIntHex (member.get "id") 0 = id) {listener : L}
    (hlistener : listener ∈ changeListeners) :
    .onNetworkMemberDeauthorize listener nwid id ∈ deauthorizeAll changeListeners nwid members := by
  induction members with
  | nil => cases hmem
  | cons m members ih =>
      obtain ⟨nodeID, hnodeID⟩ := Option.isSome_iff_exists.mp (htexts m List.mem_cons_self)
      simp only [deauthorizeAll, hnodeID]
      rcases List.mem_cons.mp hmem with rfl | hmem
      · refine List.mem_append_left _ (List.mem_map.mpr ⟨listener, hlistener, ?_⟩)
        rw [← hid, jsonIntHex_of_text hnodeID]
      · exact List.mem_append_right _
          (ih (fun m' hm' => htexts m' (List.mem_cons_of_mem _ hm')) hmem)

/-- Only members of the network are announced. -/
theorem of_mem_deauthorizeAll {nwid nwid' id : UInt64} {members : List Json} {listener : L}
    (h : .onNetworkMemberDeauthorize listener nwid' id
      ∈ deauthorizeAll changeListeners nwid members) : nwid' = nwid := by
  induction members with
  | nil => cases h
  | cons m members ih =>
      cases hnodeID : (m.get "id").text with
      | none =>
          simp only [deauthorizeAll, hnodeID] at h
          cases h
      | some nodeID =>
          simp only [deauthorizeAll, hnodeID] at h
          rcases List.mem_append.mp h with h | h
          · obtain ⟨l, -, heq⟩ := List.mem_map.mp h
            cases heq
            rfl
          · exact ih h

/-- A record whose id is a number comes first, and nobody is announced. -/
theorem deauthorizeAll_eq_nil {nwid : UInt64} {members : List Json}
    (h : ∀ m ∈ members, (m.get "id").text = none) :
    deauthorizeAll changeListeners nwid members = [] := by
  cases members with
  | nil => rfl
  | cons m members => simp only [deauthorizeAll, h m List.mem_cons_self]

/-! ### One step -/

theorem authorized_changed {nwid : UInt64} {nw : Option DBNetwork} {db' : FileDB}
    (h : Changed db nwid nw db') (n id : UInt64) :
    Authorized db' n id ↔
      (if n = nwid then nw.bind (·.members.get id) else db.record n id).any isAuthorized = true := by
  unfold Authorized
  rw [record_changed h]

/-- The members of another network, and those of this one whose records stay. -/
theorem authorized_kept {nwid : UInt64} {nw : DBNetwork} {db' : FileDB}
    (h : Changed db nwid (some nw) db') {n i : UInt64}
    (hkept : n = nwid → nw.members.get i = db.record nwid i) :
    Authorized db' n i ↔ Authorized db n i := by
  rw [authorized_changed h]
  by_cases hn : n = nwid
  · rw [if_pos hn, Option.bind_some, hkept hn, hn]
    rfl
  · rw [if_neg hn]
    rfl

/-- The members of the network that was changed. -/
theorem authorized_here {nwid : UInt64} {nw : DBNetwork} {db' : FileDB}
    (h : Changed db nwid (some nw) db') (i : UInt64) :
    Authorized db' nwid i ↔ (nw.members.get i).any isAuthorized = true := by
  rw [authorized_changed h, if_pos rfl]
  rfl

theorem isAuthorized_revised (record : Json) :
    isAuthorized (revised record) = isAuthorized record := by
  unfold isAuthorized
  rw [get_revised (by decide)]

theorem lastDeauthorized_revised (record : Json) :
    lastDeauthorized (revised record) = lastDeauthorized record := by
  unfold lastDeauthorized
  rw [get_revised (by decide)]

/-- The time of a network after a record is filed. -/
theorem time_put (nw : DBNetwork) (id : UInt64) (rec : Json) :
    nw.mostRecentDeauthTime ≤ (nw.put pton id rec).mostRecentDeauthTime ∧
      (isAuthorized rec = false →
        lastDeauthorized rec ≤ (nw.put pton id rec).mostRecentDeauthTime) := by
  have htime : (nw.put pton id rec).mostRecentDeauthTime
      = if !isAuthorized rec ∧ nw.mostRecentDeauthTime < lastDeauthorized rec then
          lastDeauthorized rec
        else nw.mostRecentDeauthTime := rfl
  rw [htime]
  by_cases h : !isAuthorized rec ∧ nw.mostRecentDeauthTime < lastDeauthorized rec
  · rw [if_pos h]
    exact ⟨Int64.le_of_lt h.2, fun _ => Int64.le_refl _⟩
  · rw [if_neg h]
    refine ⟨Int64.le_refl _, fun hauth => ?_⟩
    rw [hauth] at h
    exact Int64.not_lt.mp fun hlt => h ⟨rfl, hlt⟩

variable (pton) in
theorem time_refile (nw : DBNetwork) (id : UInt64) (rec : Json) :
    nw.mostRecentDeauthTime ≤ (refile pton nw id rec).mostRecentDeauthTime ∧
      (isAuthorized rec = false →
        lastDeauthorized rec ≤ (refile pton nw id rec).mostRecentDeauthTime) := by
  unfold refile
  cases nw.members.get id with
  | none => exact time_put nw id rec
  | some kept => exact time_put (nw.subtract pton id kept) id rec

/-- The time of a network does not go back, whatever is done with it. -/
theorem time_changed {nwid : UInt64} {nw' : DBNetwork} {db' : FileDB}
    (h : Changed db nwid (some nw') db')
    (htime : ∀ nw, db.networks.get nwid = some nw →
      nw.mostRecentDeauthTime ≤ nw'.mostRecentDeauthTime)
    {n : UInt64} {a b : DBNetwork} (ha : db.networks.get n = some a)
    (hb : db'.networks.get n = some b) :
    a.mostRecentDeauthTime ≤ b.mostRecentDeauthTime := by
  rw [h n] at hb
  split_ifs at hb with hn
  · cases hb
    exact htime a (hn ▸ ha)
  · rw [ha] at hb
    cases hb
    exact Int64.le_refl _

/-- Nothing happens to anybody. -/
theorem announces_same {e : Event} {calls : List (DBCall L)}
    (hcalls : ∀ listener nwid id, .onNetworkMemberDeauthorize listener nwid id ∉ calls)
    (herase : ∀ nwid id, e = .eraseMember nwid id ∨ e = .eraseNetwork nwid →
      ¬ Authorized db nwid id)
    {db' : FileDB}
    (hsame : ∀ nwid id, Authorized db' nwid id ↔ Authorized db nwid id)
    (htime : ∀ nwid nw nw', db.networks.get nwid = some nw → db'.networks.get nwid = some nw' →
      nw.mostRecentDeauthTime ≤ nw'.mostRecentDeauthTime) :
    Announces changeListeners db e db' calls where
  lost := by
    rintro nwid id hauth (hlost | herased)
    · exact absurd ((hsame nwid id).mpr hauth) hlost
    · exact absurd hauth (herase nwid id herased)
  stays := fun listener nwid id h => absurd h (hcalls listener nwid id)
  time := htime

/-- Something happens to one member. -/
theorem announces_one {e : Event} {calls : List (DBCall L)} (nwid id : UInt64) {db' : FileDB}
    (herase : ∀ n i, e = .eraseMember n i ∨ e = .eraseNetwork n →
      (n = nwid ∧ i = id) ∧ ¬ Authorized db' nwid id)
    (hothers : ∀ n i, ¬ (n = nwid ∧ i = id) → (Authorized db' n i ↔ Authorized db n i))
    (htold : Authorized db nwid id → ¬ Authorized db' nwid id →
      ∀ listener ∈ changeListeners, .onNetworkMemberDeauthorize listener nwid id ∈ calls)
    (honly : ∀ listener n i, .onNetworkMemberDeauthorize listener n i ∈ calls →
      (n = nwid ∧ i = id) ∧ ¬ Authorized db' nwid id)
    (htime : ∀ n nw nw', db.networks.get n = some nw → db'.networks.get n = some nw' →
      nw.mostRecentDeauthTime ≤ nw'.mostRecentDeauthTime) :
    Announces changeListeners db e db' calls where
  lost := by
    intro n i hauth hlost listener hlistener
    by_cases hni : n = nwid ∧ i = id
    · obtain ⟨rfl, rfl⟩ := hni
      have hgone : ¬ Authorized db' n i := hlost.elim (fun h => h) fun h => (herase n i h).2
      exact htold hauth hgone listener hlistener
    · rcases hlost with hlost | herased
      · exact absurd ((hothers n i hni).mpr hauth) hlost
      · exact absurd (herase n i herased).1 hni
  stays := by
    rintro listener n i hmem ⟨-, hstill⟩
    obtain ⟨⟨rfl, rfl⟩, hgone⟩ := honly listener n i hmem
    exact hgone hstill
  time := htime

theorem save_not_erase {record : JsonRecord} {notify : Bool} (nwid id : UInt64)
    (h : Event.save record notify = .eraseMember nwid id ∨
      Event.save record notify = .eraseNetwork nwid) : False := by
  rcases h with h | h
  · cases h
  · cases h

theorem time_same (nwid : UInt64) (nw nw' : DBNetwork) (h : db.networks.get nwid = some nw)
    (h' : db.networks.get nwid = some nw') :
    nw.mostRecentDeauthTime ≤ nw'.mostRecentDeauthTime := by
  cases h.symm.trans h'
  exact Int64.le_refl _

theorem mem_deauthorized {was is : Bool} {nwid id n i : UInt64} {listener : L} :
    .onNetworkMemberDeauthorize listener n i ∈ deauthorized changeListeners was is nwid id ↔
      listener ∈ changeListeners ∧ was = true ∧ is = false ∧ n = nwid ∧ i = id := by
  unfold deauthorized
  cases was <;> cases is <;> simp
  tauto

/-- Whoever is authorized in a network that is erased is announced, when the step tells
everything. -/
theorem erased_announced (hdb : AllFiled db) {nwid i : UInt64} {nw : DBNetwork}
    (hnw : db.networks.get nwid = some nw) (htells : Tells db (.eraseNetwork nwid))
    (hauth : Authorized db nwid i) {listener : L} (hlistener : listener ∈ changeListeners) :
    .onNetworkMemberDeauthorize listener nwid i ∈
      deauthorizeAll changeListeners nwid (nw.members.entries.map Prod.snd) := by
  rcases htells nw hnw with hnobody | ⟨-, htexts⟩
  · exact absurd hauth (hnobody i)
  · cases hkept : nw.members.get i with
    | none =>
        rw [Authorized, FileDB.record, hnw, Option.bind_some, hkept] at hauth
        cases hauth
    | some kept =>
        -- the record of the member is among those that are gone through
        have hid := ((hdb nwid nw hnw).kept hkept).2.1
        refine mem_deauthorizeAll ?_ ?_ hid hlistener
        · intro m hm
          obtain ⟨⟨k, v⟩, hkv, rfl⟩ := List.mem_map.mp hm
          exact htexts k v (nw.members.mem_entries_iff.mp hkv)
        · exact List.mem_map.mpr ⟨(i, kept), nw.members.mem_entries_iff.mpr hkept, rfl⟩

/-- Saving the record of a member announces that the member is no longer authorised. -/
theorem announces_memberSaved {record : JsonRecord} {nwid id : UInt64} {db' : FileDB}
    (hdb' : Changed db nwid (some (refile pton ((db.networks.get nwid).getD DBNetwork.empty) id
      (revised record.json))) db') :
    Announces changeListeners db (.save record true) db'
      (changeListeners.map (.onNetworkMemberUpdate · nwid id (revised record.json))
        ++ deauthorized changeListeners ((db.record nwid id).any isAuthorized)
          (isAuthorized (revised record.json)) nwid id) := by
  have hthis : Authorized db' nwid id ↔ isAuthorized (revised record.json) = true := by
    rw [authorized_here hdb', members_refile, Function.update_self]
    rfl
  refine announces_one nwid id (fun n i h => (save_not_erase n i h).elim) ?_ ?_ ?_
    fun n nw nw' => time_changed hdb' fun nw hnw => ?_
  · -- the record is filed over that of this member
    intro n i hni
    refine authorized_kept hdb' fun hn => ?_
    rw [members_refile, Function.update_of_ne fun hi => hni ⟨hn, hi⟩, members_getD]
  · intro hauth hlost listener hlistener
    refine List.mem_append_right _ (mem_deauthorized.mpr ⟨hlistener, hauth, ?_, rfl, rfl⟩)
    exact Bool.eq_false_iff.mpr fun his => hlost (hthis.mpr his)
  · intro listener n i hmem
    rcases List.mem_append.mp hmem with hmem | hmem
    · obtain ⟨l, -, heq⟩ := List.mem_map.mp hmem
      cases heq
    · obtain ⟨-, -, his, hn, hi⟩ := mem_deauthorized.mp hmem
      refine ⟨⟨hn, hi⟩, fun hstill => ?_⟩
      rw [hthis, his] at hstill
      cases hstill
  · rw [hnw]
    exact (time_refile pton nw id _).1

/-- Erasing a member announces it, if it was authorised. -/
theorem announces_memberErased {nwid id : UInt64} {nw : DBNetwork} {kept : Json} {db' : FileDB}
    (hnw : db.networks.get nwid = some nw) (hkept : nw.members.get id = some kept)
    (hdb' : Changed db nwid (some (unfile pton nw id kept)) db') :
    Announces changeListeners db (.eraseMember nwid id) db'
      (deauthorized changeListeners (isAuthorized kept) false nwid id) := by
  have hrecord : ∀ i, db.record nwid i = nw.members.get i := by
    intro i
    rw [FileDB.record, hnw]
    rfl
  have hthis : ¬ Authorized db' nwid id := by
    rw [authorized_here hdb', members_unfile, Function.update_self]
    exact Bool.false_ne_true
  refine announces_one nwid id ?_ ?_ ?_ ?_ fun n a b => time_changed hdb' fun nw' hnw' => ?_
  · rintro n i (heq | heq)
    · cases heq
      exact ⟨⟨rfl, rfl⟩, hthis⟩
    · cases heq
  · -- no other record is erased
    intro n i hni
    refine authorized_kept hdb' fun hn => ?_
    rw [members_unfile, Function.update_of_ne fun hi => hni ⟨hn, hi⟩, hrecord]
  · intro hauth _ listener hlistener
    rw [Authorized, hrecord, hkept] at hauth
    exact mem_deauthorized.mpr ⟨hlistener, hauth, rfl, rfl, rfl⟩
  · intro listener n i hmem
    obtain ⟨-, -, -, hn, hi⟩ := mem_deauthorized.mp hmem
    exact ⟨⟨hn, hi⟩, hthis⟩
  · cases hnw.symm.trans hnw'
    exact Int64.le_refl _

/-- Erasing a network announces all members that were authorised, when it tells everything. -/
theorem announces_networkErased (hdb : AllFiled db) {nwid : UInt64} {nw : DBNetwork} {db' : FileDB}
    (hnw : db.networks.get nwid = some nw) (htells : Tells db (.eraseNetwork nwid))
    (hdb' : Changed db nwid none db') :
    Announces changeListeners db (.eraseNetwork nwid) db'
      (deauthorizeAll changeListeners nwid (nw.members.entries.map Prod.snd)) := by
  have hgone : ∀ i, ¬ Authorized db' nwid i := by
    intro i
    rw [authorized_changed hdb', if_pos rfl]
    exact Bool.false_ne_true
  refine ⟨?_, ?_, ?_⟩
  · intro n i hauth hlost listener hlistener
    by_cases hn : n = nwid
    · subst hn
      exact erased_announced hdb hnw htells hauth hlistener
    · rcases hlost with hlost | heq | heq
      · refine absurd ?_ hlost
        rw [authorized_changed hdb', if_neg hn]
        exact hauth
      · cases heq
      · cases heq
        exact absurd rfl hn
  · rintro listener n i hmem ⟨-, hstill⟩
    cases of_mem_deauthorizeAll hmem
    exact hgone i hstill
  · intro n a b ha hb
    rw [hdb' n] at hb
    split_ifs at hb
    exact time_same n a b ha hb

/-- **Every step announces** what it takes away, when it tells everything. -/
theorem announces_step (hdb : AllFiled db) {e : Event} {db' : FileDB} {calls : List (DBCall L)}
    (heffect : Effect pton changeListeners db e db' calls) (hnotifies : e.Notifies)
    (htells : Tells db e) : Announces changeListeners db e db' calls := by
  cases heffect with
  | ignored record notify hnone =>
      exact announces_same (fun _ _ _ => List.not_mem_nil)
        (fun n i h => (save_not_erase n i h).elim) (fun _ _ => Iff.rfl) time_same
  | networkSaved record notify nwid ids _ hnone hids hnwid hnwid0 hdb' =>
      refine announces_same ?_ (fun n i h => (save_not_erase n i h).elim)
        (fun n i => ?_) fun _ _ _ =>
        time_changed hdb' fun nw hnw => ?_
      · intro listener n i hmem
        split_ifs at hmem
        · obtain ⟨l, -, heq⟩ := List.mem_map.mp hmem
          cases heq
        · cases hmem
      · exact authorized_kept hdb' fun _ => members_getD nwid i
      · rw [hnw]
        exact Int64.le_refl _
  | memberSame record notify nwid id kept htarget hkept hsame =>
      exact announces_same (fun _ _ _ => List.not_mem_nil)
        (fun n i h => (save_not_erase n i h).elim) (fun _ _ => Iff.rfl) time_same
  | memberSaved record notify nwid id _ htarget hnew hdb' =>
      cases (show notify = true from hnotifies)
      exact announces_memberSaved hdb'
  | memberAbsent nwid id hnone =>
      refine announces_same (fun _ _ _ => List.not_mem_nil) ?_ (fun _ _ => Iff.rfl) time_same
      rintro n i (heq | heq) hauth
      · cases heq
        rw [Authorized, hnone] at hauth
        cases hauth
      · cases heq
  | memberErased nwid id nw kept _ hnw hkept hdb' => exact announces_memberErased hnw hkept hdb'
  | networkLeft nwid hobj =>
      refine announces_same (fun _ _ _ => List.not_mem_nil) ?_ (fun _ _ => Iff.rfl) time_same
      rintro n i (heq | heq) hauth
      · cases heq
      cases heq
      cases hnw : db.networks.get nwid with
      | none =>
          rw [Authorized, FileDB.record, hnw] at hauth
          cases hauth
      | some nw =>
          rcases htells nw hnw with hnobody | ⟨hconfig, -⟩
          · exact hnobody i hauth
          · rw [getNetwork, hnw] at hobj
            rw [show nw.config.isObject = false from hobj] at hconfig
            cases hconfig
  | networkErased nwid nw _ hnw hobj hdb' => exact announces_networkErased hdb hnw htells hdb'

/-! ### The times in a run -/

/-- The times of the records of a network that were saved without the flag, since it was last
erased. -/
def deauthTimes (es : List Event) : UInt64 → List Int64 :=
  es.foldl (fun times e nwid => match e with
    | .save record _ =>
        if (memberTarget record.json).any (·.1 == nwid) && !isAuthorized record.json then
          lastDeauthorized record.json :: times nwid
        else times nwid
    | .eraseNetwork networkId => if nwid = networkId then [] else times nwid
    | .eraseMember _ _ => times nwid) fun _ => []

/-- The time of a network is no earlier than those of its records. -/
structure Timed (es : List Event) (db : FileDB) : Prop where
  kept : ∀ nwid nw id kept, db.networks.get nwid = some nw → nw.members.get id = some kept →
    isAuthorized kept = false → lastDeauthorized kept ≤ nw.mostRecentDeauthTime
  saved : ∀ nwid t, t ∈ deauthTimes es nwid →
    ∃ nw, db.networks.get nwid = some nw ∧ t ≤ nw.mostRecentDeauthTime

theorem deauthTimes_save {es : List Event} {record : JsonRecord} {notify : Bool} {nwid : UInt64}
    {t : Int64} (h : t ∈ deauthTimes (es ++ [.save record notify]) nwid) :
    t ∈ deauthTimes es nwid ∨ ∃ id, memberTarget record.json = some (nwid, id) ∧
      isAuthorized record.json = false ∧ t = lastDeauthorized record.json := by
  unfold deauthTimes at h
  rw [List.foldl_append, List.foldl_cons, List.foldl_nil] at h
  dsimp only at h
  split_ifs at h with hsaved
  · rcases List.mem_cons.mp h with rfl | h
    · obtain ⟨htarget, hauth⟩ := Bool.and_eq_true_iff.mp hsaved
      cases htarget' : memberTarget record.json with
      | none =>
          rw [htarget'] at htarget
          cases htarget
      | some target =>
          rw [htarget'] at htarget
          obtain ⟨n, i⟩ := target
          cases (beq_iff_eq.mp htarget : n = nwid)
          exact .inr ⟨i, rfl, Bool.not_eq_eq_eq_not.mp hauth, rfl⟩
    · exact .inl h
  · exact .inl h

theorem deauthTimes_eraseMember {es : List Event} {nwid id n : UInt64} :
    deauthTimes (es ++ [.eraseMember nwid id]) n = deauthTimes es n := by
  unfold deauthTimes
  rw [List.foldl_append]
  rfl

theorem deauthTimes_eraseNetwork {es : List Event} {nwid n : UInt64} :
    deauthTimes (es ++ [.eraseNetwork nwid]) n = if n = nwid then [] else deauthTimes es n := by
  unfold deauthTimes
  rw [List.foldl_append]
  rfl

/-- One network is changed, and its time goes no way back. -/
theorem Timed.saved_changed {es : List Event} (h : Timed es db) {nwid : UInt64} {nw' : DBNetwork}
    {db' : FileDB} (hdb' : Changed db nwid (some nw') db')
    (htime : ∀ nw, db.networks.get nwid = some nw →
      nw.mostRecentDeauthTime ≤ nw'.mostRecentDeauthTime)
    {n : UInt64} {t : Int64} (ht : t ∈ deauthTimes es n) :
    ∃ nw, db'.networks.get n = some nw ∧ t ≤ nw.mostRecentDeauthTime := by
  obtain ⟨nw, hnw, hle⟩ := h.saved n t ht
  by_cases hn : n = nwid
  · refine ⟨nw', by rw [hdb' n, if_pos hn], ?_⟩
    exact Int64.le_trans hle (htime nw (hn ▸ hnw))
  · exact ⟨nw, by rw [hdb' n, if_neg hn, hnw], hle⟩

theorem Timed.kept_changed {es : List Event} (h : Timed es db) {nwid : UInt64}
    {nw' : Option DBNetwork}
    {db' : FileDB} (hdb' : Changed db nwid nw' db')
    (hkept' : ∀ nw id kept, nw' = some nw → nw.members.get id = some kept →
      isAuthorized kept = false → lastDeauthorized kept ≤ nw.mostRecentDeauthTime)
    (n : UInt64) (nw : DBNetwork) (id : UInt64) (kept : Json) (hnw : db'.networks.get n = some nw)
    (hkept : nw.members.get id = some kept) (hauth : isAuthorized kept = false) :
    lastDeauthorized kept ≤ nw.mostRecentDeauthTime := by
  rw [hdb' n] at hnw
  split_ifs at hnw with hn
  · exact hkept' nw id kept hnw hkept hauth
  · exact h.kept n nw id kept hnw hkept hauth

/-- The times of a network that may not be there yet. -/
theorem Timed.getD {es : List Event} (h : Timed es db) {nwid id : UInt64} {kept : Json}
    (hkept : ((db.networks.get nwid).getD DBNetwork.empty).members.get id = some kept)
    (hauth : isAuthorized kept = false) :
    lastDeauthorized kept ≤ ((db.networks.get nwid).getD DBNetwork.empty).mostRecentDeauthTime := by
  cases hnw : db.networks.get nwid with
  | none =>
      rw [hnw, Option.getD_none, members_empty] at hkept
      cases hkept
  | some nw =>
      rw [hnw] at hkept
      exact h.kept nwid nw id kept hnw hkept hauth

/-- A record that compares as the same says no time that is not kept. -/
theorem Timed.memberSame {es : List Event} (h : Timed es db) {record : JsonRecord} {notify : Bool}
    {nwid id : UInt64} {kept : Json} (htarget : memberTarget record.json = some (nwid, id))
    (hkept : db.record nwid id = some kept) (hsame : compareRecords kept record.json = true)
    (htells : Tells db (.save record notify)) : Timed (es ++ [.save record notify]) db := by
  refine ⟨h.kept, fun n t ht => ?_⟩
  rcases deauthTimes_save ht with ht | ⟨i, htarget', hauth, rfl⟩
  · exact h.saved n t ht
  · rw [htarget] at htarget'
    cases htarget'
    obtain ⟨nw, hnw, hmem⟩ := record_eq_some hkept
    refine ⟨nw, hnw, ?_⟩
    rcases htells nwid id nw kept htarget hnw hmem hsame hauth with hfields | hle
    · -- the record says the time that is already kept
      have hauthorized : isAuthorized kept = isAuthorized record.json :=
        jsonBool_of_same (hfields "authorized" (by decide)) false
      have htime : lastDeauthorized kept = lastDeauthorized record.json :=
        congrArg UInt64.toInt64 (jsonInt_of_same (hfields "lastDeauthorizedTime" (by decide)) 0)
      rw [← htime]
      exact h.kept nwid nw id kept hnw hmem (hauthorized.trans hauth)
    · exact hle

/-- Filing a record keeps its time. -/
theorem Timed.memberSaved {es : List Event} (h : Timed es db) {record : JsonRecord} {notify : Bool}
    {nwid id : UInt64} {db' : FileDB} (htarget : memberTarget record.json = some (nwid, id))
    (hdb' : Changed db nwid (some (refile pton ((db.networks.get nwid).getD DBNetwork.empty) id
      (revised record.json))) db') : Timed (es ++ [.save record notify]) db' := by
  have htime := time_refile pton ((db.networks.get nwid).getD DBNetwork.empty) id
    (revised record.json)
  refine ⟨h.kept_changed hdb' fun nw i kept hnw hkept hauth => ?_, fun n t ht => ?_⟩
  · cases hnw
    rw [members_refile, Function.update_apply] at hkept
    split_ifs at hkept
    · cases hkept
      exact htime.2 hauth
    · exact Int64.le_trans (h.getD hkept hauth) htime.1
  · rcases deauthTimes_save ht with ht | ⟨i, htarget', hauth, rfl⟩
    · refine h.saved_changed hdb' (fun nw hnw => ?_) ht
      rw [hnw]
      exact (time_refile pton nw id _).1
    · rw [htarget] at htarget'
      cases htarget'
      refine ⟨_, by rw [hdb' nwid, if_pos rfl], ?_⟩
      -- the time is that of the record, whatever its revision
      rw [← lastDeauthorized_revised]
      exact htime.2 ((isAuthorized_revised _).trans hauth)

/-- **The times are kept** by every step that tells everything. -/
theorem Timed.step {es : List Event} (h : Timed es db) {e : Event} {db' : FileDB}
    {calls : List (DBCall L)} (heffect : Effect pton changeListeners db e db' calls)
    (htells : Tells db e) : Timed (es ++ [e]) db' := by
  cases heffect with
  | ignored record notify hnone =>
      refine ⟨h.kept, fun n t ht => ?_⟩
      rcases deauthTimes_save ht with ht | ⟨id, htarget, -, -⟩
      · exact h.saved n t ht
      · exact nomatch hnone.symm.trans htarget
  | networkSaved record notify nwid ids _ hnone hids hnwid hnwid0 hdb' =>
      refine ⟨h.kept_changed hdb' fun nw id kept hnw hkept hauth => ?_, fun n t ht => ?_⟩
      · cases hnw
        exact h.getD hkept hauth
      · rcases deauthTimes_save ht with ht | ⟨id, htarget, -, -⟩
        · refine h.saved_changed hdb' (fun nw hnw => ?_) ht
          rw [hnw]
          exact Int64.le_refl _
        · exact nomatch hnone.symm.trans htarget
  | memberSame record notify nwid id kept htarget hkept hsame =>
      exact h.memberSame htarget hkept hsame htells
  | memberSaved record notify nwid id _ htarget hnew hdb' => exact h.memberSaved htarget hdb'
  | memberAbsent nwid id hnone =>
      refine ⟨h.kept, fun n t ht => ?_⟩
      rw [deauthTimes_eraseMember] at ht
      exact h.saved n t ht
  | memberErased nwid id nw kept _ hnw hkept hdb' =>
      refine ⟨h.kept_changed hdb' fun nw' i kept' hnw' hkept' hauth => ?_, fun n t ht => ?_⟩
      · cases hnw'
        rw [members_unfile, Function.update_apply] at hkept'
        split_ifs at hkept'
        exact h.kept nwid nw i kept' hnw hkept' hauth
      · rw [deauthTimes_eraseMember] at ht
        refine h.saved_changed hdb' (fun nw' hnw' => ?_) ht
        cases hnw.symm.trans hnw'
        exact Int64.le_refl _
  | networkLeft nwid hobj =>
      refine ⟨h.kept, fun n t ht => ?_⟩
      rw [deauthTimes_eraseNetwork] at ht
      split_ifs at ht
      · cases ht
      · exact h.saved n t ht
  | networkErased nwid nw _ hnw hobj hdb' =>
      refine ⟨h.kept_changed hdb' (fun _ _ _ hnw' => nomatch hnw'), fun n t ht => ?_⟩
      rw [deauthTimes_eraseNetwork] at ht
      split_ifs at ht with hn
      · cases ht
      · obtain ⟨nw', hnw', hle⟩ := h.saved n t ht
        exact ⟨nw', by rw [hdb' n, if_neg hn, hnw'], hle⟩

theorem timed_empty : Timed [] FileDB.empty where
  kept := by
    intro nwid nw id kept hnw
    rw [networks_empty] at hnw
    cases hnw
  saved := fun nwid t ht => nomatch ht

/-- **Deauthorizations are announced.**  While the steps tell everything, every step announces what
it takes away and nothing that it leaves, and the time of a network is no earlier than those of the
records that were saved without the flag since it was created. -/
theorem announced_run {es : List Event}
    (htells : (machine pton changeListeners).Guarded (fun db e => e.Notifies ∧ Tells db e)
      FileDB.empty es) :
    (machine pton changeListeners).Guarded (fun db e => Announces changeListeners db e
        ((machine pton changeListeners).step db e).1 ((machine pton changeListeners).step db e).2)
      FileDB.empty es ∧
      ∀ nwid t, t ∈ deauthTimes es nwid →
        ∃ nw, ((machine pton changeListeners).runState FileDB.empty es).networks.get nwid =
          some nw ∧
          t ≤ nw.mostRecentDeauthTime := by
  constructor
  · refine Machine.guarded_run (I := AllFiled) ?_ ?_ allFiled_empty htells
    · intro db e hdb _
      exact hdb.step (step_effect _ _ hdb e)
    · rintro db e hdb ⟨hnotifies, htells⟩
      exact announces_step hdb (step_effect _ _ hdb e) hnotifies htells
  · refine (Machine.invariant_run (I := fun es db => AllFiled db ∧ Timed es db) ?_
      (h := []) ⟨allFiled_empty, timed_empty⟩ htells).2.saved
    rintro es db e ⟨hdb, htimed⟩ ⟨-, htells⟩
    exact ⟨hdb.step (step_effect _ _ hdb e), htimed.step (step_effect _ _ hdb e) htells⟩

/-- The record of an authorized member of network 7. -/
def admitted (id : Json) : JsonRecord where
  members := [("authorized", .boolean true), ("id", id), ("nwid", .string "7"),
    ("objtype", .string "member")]
  sorted := SortedMap.sorted_of_keys
    (show ["authorized", "id", "nwid", "objtype"].Pairwise fun a b => Json.nameLt a b = true by
      decide)

/-- A member that joins and is erased. -/
theorem announced_erased :
    (machine oneAddress [()]).Guarded (fun db e => Announces [()] db e
        ((machine oneAddress [()]).step db e).1 ((machine oneAddress [()]).step db e).2)
      FileDB.empty [.save (admitted (.string "1")) true, .eraseMember 7 1] ∧
      ∀ nwid t, t ∈ deauthTimes [.save (admitted (.string "1")) true, .eraseMember 7 1] nwid →
        ∃ nw, ((machine oneAddress [()]).runState FileDB.empty
            [.save (admitted (.string "1")) true, .eraseMember 7 1]).networks.get nwid = some nw ∧
          t ≤ nw.mostRecentDeauthTime := by
  refine announced_run ⟨⟨rfl, ?_⟩, ⟨trivial, trivial⟩, trivial⟩
  intro nwid id nw kept htarget hnw
  rw [networks_empty] at hnw
  cases hnw

/-- The configuration of network 7. -/
def network7 : JsonRecord where
  members := [("id", .string "7"), ("objtype", .string "network")]
  sorted := SortedMap.sorted_of_keys
    (show ["id", "objtype"].Pairwise fun a b => Json.nameLt a b = true by decide)

/-- Network 7 with its configuration and nothing else. -/
def configured : DBNetwork := { DBNetwork.empty with config := revised network7.json }

theorem members_configured (id : UInt64) : configured.members.get id = none := members_empty id

/-- A network that is saved for the first time. -/
theorem saved_network7 :
    ((machine oneAddress [()]).step FileDB.empty (.save network7 true)).1
      = FileDB.empty.setNetwork 7 configured := by
  have htype : (network7.json.get "objtype").text = some "network" := rfl
  have hid : network7.json.get "id" = .string "7" := rfl
  have hseven : jsonIntHex (.string "7") 0 = 7 := by decide
  have hold : FileDB.empty.getNetwork 7 = .null := by
    rw [getNetwork, networks_empty]
    rfl
  have hnull : Json.null.isObject = false := rfl
  have hobj : (revised network7.json).isObject = true := rfl
  have hids : ((revised network7.json).get "id").text = some "7" := by
    rw [get_revised (by decide)]
    rfl
  have hseven' : CString.strtoull 16 "7" = 7 := by decide
  simp [machine, save, htype, hid, hseven, hold, hnull, networkChanged, hobj, hids, hseven',
    configured]

/-- A member whose id is a number is not announced when its network is erased. -/
theorem number_not_announced :
    ¬ (machine oneAddress [()]).Guarded (fun db e => Announces [()] db e
        ((machine oneAddress [()]).step db e).1 ((machine oneAddress [()]).step db e).2)
      FileDB.empty
      [.save network7 true, .save (admitted (.unsigned 1)) true, .eraseNetwork 7] := by
  rintro ⟨-, -, h, -⟩
  rw [saved_network7] at h
  set db1 := FileDB.empty.setNetwork 7 configured with hdb1
  have hfiled1 : AllFiled db1 := by
    rw [hdb1, ← saved_network7]
    exact allFiled_empty.step (step_effect _ _ allFiled_empty _)
  have hnw1 : db1.networks.get 7
      = some configured := by
    rw [hdb1, networks_setNetwork, if_pos rfl]
  have htarget : memberTarget (admitted (.unsigned 1)).json = some (7, 1) :=
    memberTarget_eq_some.mpr ⟨rfl, by decide, by decide, by decide, by decide⟩
  have hnw2 := saved_new oneAddress [()] hfiled1 htarget
    (congrArg (Option.getD · DBNetwork.empty) hnw1) (members_configured 1) true 7
  rw [if_pos rfl, Option.getD_some] at hnw2
  have hfiled2 := hfiled1.step (step_effect oneAddress [()] hfiled1
    (.save (admitted (.unsigned 1)) true))
  generalize ((machine oneAddress [()]).step db1 (.save (admitted (.unsigned 1)) true)).1 = db2
    at h hnw2 hfiled2
  -- member 1 is the only one
  rw [← refile_new (members_configured 1)] at hnw2
  have hmembers := members_refile oneAddress configured 1
    (revised (admitted (.unsigned 1)).json)
  have hauth : Authorized db2 7 1 := by
    rw [Authorized, FileDB.record, hnw2, Option.bind_some, hmembers, Function.update_self]
    rfl
  have heffect := step_effect oneAddress [()] hfiled2 (.eraseNetwork 7)
  have hcall := h.lost 7 1 hauth (.inr (.inr rfl)) () List.mem_cons_self
  revert heffect hcall
  generalize (machine oneAddress [()]).step db2 (.eraseNetwork 7) = r
  obtain ⟨db3, calls⟩ := r
  intro heffect hcall
  cases heffect with
  | networkLeft => cases hcall
  | networkErased _ nw _ hnw =>
      cases hnw2.symm.trans hnw
      rw [deauthorizeAll_eq_nil] at hcall
      · cases hcall
      · intro m hm
        obtain ⟨⟨k, v⟩, hkv, rfl⟩ := List.mem_map.mp hm
        have hkept := (Hashtable.mem_entries_iff _).mp hkv
        rw [hmembers, Function.update_apply] at hkept
        split_ifs at hkept
        · cases hkept
          rfl
        · exact nomatch (members_configured k).symm.trans hkept

end FileDB

end ZGalaxy
