/-
ZGalaxy/DBEffects.lean

What the operations of the database do.

Every operation does one of a few things (`Effect`), and each is said once, together with what it
calls of the listeners (`step_effect`).  The database is only looked at through what it finds
(`Changed`), so that writing a network twice is like writing it once.  The records of the members
always stand under their own ids, and a configuration under the id of its network
(`AllFiled.step`); without that an operation would take out what another member has put in.
-/
import ZGalaxy.FileDB
import ZGalaxy.Machine

namespace ZGalaxy

open DBNetwork

variable {pton : InetPton} {L : Type} {changeListeners : List L}

namespace FileDB

/-- The record of a member. -/
def record (db : FileDB) (nwid id : UInt64) : Option Json :=
  (db.networks.get nwid).bind (·.members.get id)

/-- The network and the member that a valid member record is for. -/
def memberTarget (record : Json) : Option (UInt64 × UInt64) :=
  let nwid := jsonIntHex (record.get "nwid") 0
  let id := jsonIntHex (record.get "id") 0
  if (record.get "objtype").text = some "member" ∧ id ≠ 0 ∧ nwid ≠ 0 then some (nwid, id) else none

/-- A network in which a record takes the place of the one that is kept. -/
def refile (pton : InetPton) (nw : DBNetwork) (id : UInt64) (record : Json) : DBNetwork :=
  ((nw.members.get id).elim nw fun old => nw.subtract pton id old).put pton id record

/-- A network without a member. -/
def unfile (pton : InetPton) (nw : DBNetwork) (id : UInt64) (old : Json) : DBNetwork :=
  { nw.subtract pton id old with members := nw.members.erase id }

/-- What is told when a member is not authorized any more. -/
def deauthorized (changeListeners : List L) (was is : Bool) (nwid id : UInt64) : List (DBCall L) :=
  if was && !is then changeListeners.map (.onNetworkMemberDeauthorize · nwid id) else []

/-! ### Records under their ids -/

/-- Every record of the network was saved as one of its members, and so was its configuration. -/
structure Filed (nwid : UInt64) (nw : DBNetwork) : Prop where
  nwid_ne : nwid ≠ 0
  members : ∀ id rec, nw.members.get id = some rec →
    ∃ r : JsonRecord, rec = revised r.json ∧ memberTarget r.json = some (nwid, id)
  config : nw.config.isObject = true →
    ∃ ids, (nw.config.get "id").text = some ids ∧ CString.strtoull 16 ids = nwid

/-- All networks are filed. -/
def AllFiled (db : FileDB) : Prop := ∀ nwid nw, db.networks.get nwid = some nw → Filed nwid nw

theorem memberTarget_eq_some {record : Json} {nwid id : UInt64} :
    memberTarget record = some (nwid, id) ↔ (record.get "objtype").text = some "member" ∧
      jsonIntHex (record.get "id") 0 = id ∧ jsonIntHex (record.get "nwid") 0 = nwid ∧
      id ≠ 0 ∧ nwid ≠ 0 := by
  unfold memberTarget
  dsimp only
  split_ifs with h
  · constructor
    · intro heq
      cases heq
      exact ⟨h.1, rfl, rfl, h.2.1, h.2.2⟩
    · rintro ⟨-, rfl, rfl, -, -⟩
      rfl
  · constructor
    · intro heq
      cases heq
    · rintro ⟨htype, rfl, rfl, hid, hnwid⟩
      exact absurd ⟨htype, hid, hnwid⟩ h

/-- Counting up the revision leaves the rest of a record. -/
theorem get_revised {record : Json} {name : String} (h : name ≠ "revision") :
    (revised record).get name = record.get name :=
  Json.get_set_of_ne h

theorem memberTarget_revised (record : Json) :
    memberTarget (revised record) = memberTarget record := by
  unfold memberTarget
  rw [get_revised (by decide), get_revised (by decide), get_revised (by decide)]

/-- A record that is kept is an object with the ids it stands under. -/
theorem Filed.kept {nwid id : UInt64} {nw : DBNetwork} (h : Filed nwid nw) {rec : Json}
    (hrec : nw.members.get id = some rec) :
    rec.isObject = true ∧ jsonIntHex (rec.get "id") 0 = id ∧ jsonIntHex (rec.get "nwid") 0 = nwid ∧
      id ≠ 0 := by
  obtain ⟨r, rfl, htarget⟩ := h.members id rec hrec
  rw [← memberTarget_revised] at htarget
  obtain ⟨-, hid, hnwid, hid0, -⟩ := memberTarget_eq_some.mp htarget
  exact ⟨rfl, hid, hnwid, hid0⟩

/-- A network that is not there yet. -/
theorem filed_empty {nwid : UInt64} (h : nwid ≠ 0) : Filed nwid DBNetwork.empty where
  nwid_ne := h
  members := by
    intro id rec hrec
    rw [DBNetwork.empty, Hashtable.get_empty] at hrec
    cases hrec
  config := by
    intro hconfig
    cases hconfig

/-! ### What an operation does -/

/-- A database where one network is another, or is gone. -/
def Changed (db : FileDB) (nwid : UInt64) (nw : Option DBNetwork) (db' : FileDB) : Prop :=
  ∀ n, db'.networks.get n = if n = nwid then nw else db.networks.get n

theorem changed_setNetwork (db : FileDB) (nwid : UInt64) (nw : DBNetwork) :
    Changed db nwid (some nw) (db.setNetwork nwid nw) :=
  fun n => networks_setNetwork db nwid n nw

theorem Changed.setNetwork {db db' : FileDB} {nwid : UInt64} {nw : Option DBNetwork}
    (h : Changed db nwid nw db') (nw' : DBNetwork) :
    Changed db nwid (some nw') (db'.setNetwork nwid nw') := by
  intro n
  rw [networks_setNetwork, h n]
  by_cases hn : n = nwid
  · rw [if_pos hn, if_pos hn]
  · rw [if_neg hn, if_neg hn, if_neg hn]

theorem changed_erase (db : FileDB) (nwid : UInt64) :
    Changed db nwid none ⟨db.networks.erase nwid⟩ :=
  fun _ => Hashtable.get_erase _ _ _

/-- **The effects of the operations.** -/
inductive Effect (pton : InetPton) (changeListeners : List L) (db : FileDB) :
    Event → FileDB → List (DBCall L) → Prop
  /-- the record is invalid, or the same as the one of its network that is kept -/
  | ignored (record : JsonRecord) (notify : Bool) (h : memberTarget record.json = none) :
      Effect pton changeListeners db (.save record notify) db []
  | networkSaved (record : JsonRecord) (notify : Bool) (nwid : UInt64) (ids : String) (db' : FileDB)
      (h : memberTarget record.json = none) (hids : (record.json.get "id").text = some ids)
      (hnwid : CString.strtoull 16 ids = nwid) (hnwid0 : nwid ≠ 0)
      (hdb : Changed db nwid
        (some { (db.networks.get nwid).getD DBNetwork.empty with
          config := revised record.json }) db') :
      Effect pton changeListeners db (.save record notify) db'
        (if notify then
          changeListeners.map (.onNetworkUpdate · nwid (revised record.json)) else [])
  | memberSame (record : JsonRecord) (notify : Bool) (nwid id : UInt64) (kept : Json)
      (h : memberTarget record.json = some (nwid, id)) (hkept : db.record nwid id = some kept)
      (hsame : compareRecords kept record.json = true) :
      Effect pton changeListeners db (.save record notify) db []
  | memberSaved (record : JsonRecord) (notify : Bool) (nwid id : UInt64) (db' : FileDB)
      (h : memberTarget record.json = some (nwid, id))
      (hnew : ∀ kept, db.record nwid id = some kept → compareRecords kept record.json = false)
      (hdb : Changed db nwid (some (refile pton ((db.networks.get nwid).getD DBNetwork.empty) id
          (revised record.json))) db') :
      Effect pton changeListeners db (.save record notify) db'
        (if notify then
          changeListeners.map (.onNetworkMemberUpdate · nwid id (revised record.json))
            ++ deauthorized changeListeners ((db.record nwid id).any isAuthorized)
              (isAuthorized (revised record.json)) nwid id
        else [])
  | memberAbsent (nwid id : UInt64) (h : db.record nwid id = none) :
      Effect pton changeListeners db (.eraseMember nwid id) db []
  | memberErased (nwid id : UInt64) (nw : DBNetwork) (kept : Json) (db' : FileDB)
      (hnw : db.networks.get nwid = some nw) (hkept : nw.members.get id = some kept)
      (hdb : Changed db nwid (some (unfile pton nw id kept)) db') :
      Effect pton changeListeners db (.eraseMember nwid id) db'
        (deauthorized changeListeners (isAuthorized kept) false nwid id)
  /-- there is no configuration that could tell which network this is -/
  | networkLeft (nwid : UInt64) (h : (db.getNetwork nwid).isObject = false) :
      Effect pton changeListeners db (.eraseNetwork nwid) db []
  | networkErased (nwid : UInt64) (nw : DBNetwork) (db' : FileDB)
      (hnw : db.networks.get nwid = some nw) (h : nw.config.isObject = true)
      (hdb : Changed db nwid none db') :
      Effect pton changeListeners db (.eraseNetwork nwid) db'
        (deauthorizeAll changeListeners nwid (nw.members.entries.map Prod.snd))

variable {db : FileDB}

@[simp] theorem networks_empty (nwid : UInt64) : FileDB.empty.networks.get nwid = none :=
  Hashtable.get_empty _ _ _

@[simp] theorem members_empty (id : UInt64) : DBNetwork.empty.members.get id = none :=
  Hashtable.get_empty _ _ _

theorem record_eq_some {nwid id : UInt64} {kept : Json} (h : db.record nwid id = some kept) :
    ∃ nw, db.networks.get nwid = some nw ∧ nw.members.get id = some kept :=
  Option.bind_eq_some_iff.mp h

theorem members_eq_none {nwid id : UInt64} (h : db.record nwid id = none) :
    ((db.networks.get nwid).getD DBNetwork.empty).members.get id = none := by
  unfold record at h
  cases hnw : db.networks.get nwid with
  | none => exact members_empty id
  | some nw =>
      rw [hnw] at h
      exact h

@[simp] theorem members_subtract (nw : DBNetwork) (id : UInt64) (old : Json) :
    (nw.subtract pton id old).members = nw.members := rfl

theorem refile_new {nw : DBNetwork} {id : UInt64} (h : nw.members.get id = none) (rec : Json) :
    refile pton nw id rec = nw.put pton id rec := by
  unfold refile
  rw [h]
  rfl

theorem refile_kept {nw : DBNetwork} {id : UInt64} {kept : Json} (h : nw.members.get id = some kept)
    (rec : Json) : refile pton nw id rec = (nw.subtract pton id kept).put pton id rec := by
  unfold refile
  rw [h]
  rfl

theorem getMember_eq (nwid id : UInt64) :
    db.getMember nwid id = (db.record nwid id).getD .null := rfl

variable (pton changeListeners) in
/-- What `_memberChanged` does with a record that is kept, before it files another one. -/
theorem memberChanged_kept {nwid id : UInt64} {nw : DBNetwork} {kept : Json}
    (hnw : db.networks.get nwid = some nw) (hfiled : Filed nwid nw)
    (hkept : nw.members.get id = some kept) {rec : Json} (hrec : rec.isObject = true)
    (notify : Bool) :
    ∃ db', Changed db nwid (some (refile pton nw id rec)) db' ∧
      memberChanged pton changeListeners db kept rec notify = (db', if notify then
        changeListeners.map (.onNetworkMemberUpdate · nwid id rec)
          ++ deauthorized changeListeners (isAuthorized kept) (isAuthorized rec) nwid id
        else []) := by
  obtain ⟨hobj, hid, hnwid, hid0⟩ := hfiled.kept hkept
  refine ⟨(db.setNetwork nwid (nw.subtract pton id kept)).setNetwork nwid
    ((nw.subtract pton id kept).put pton id rec), ?_, ?_⟩
  · rw [refile_kept hkept]
    exact (changed_setNetwork db nwid _).setNetwork _
  · have hget : (db.setNetwork nwid (nw.subtract pton id kept)).networks.get nwid
        = some (nw.subtract pton id kept) := by
      rw [networks_setNetwork, if_pos rfl]
    simp [memberChanged, hobj, hid, hnwid, hid0, hfiled.nwid_ne, hnw, hrec, hget, deauthorized]

/-- What `_memberChanged` does when no record is kept. -/
theorem memberChanged_new {nwid id : UInt64} {rec : Json}
    (htarget : memberTarget rec = some (nwid, id))
    (hrec : rec.isObject = true) (notify : Bool) :
    memberChanged pton changeListeners db .null rec notify
      = (db.setNetwork nwid (((db.networks.get nwid).getD DBNetwork.empty).put pton id rec),
          if notify then changeListeners.map (.onNetworkMemberUpdate · nwid id rec) else []) := by
  obtain ⟨-, hid, hnwid, hid0, hnwid0⟩ := memberTarget_eq_some.mp htarget
  have hnull : Json.null.isObject = false := rfl
  simp [memberChanged, hnull, hrec, hid, hnwid, hid0, hnwid0]

variable (pton changeListeners) in
/-- What `_memberChanged` does when a record goes. -/
theorem memberChanged_null {nwid id : UInt64} {nw : DBNetwork} {kept : Json}
    (hnw : db.networks.get nwid = some nw) (hfiled : Filed nwid nw)
    (hkept : nw.members.get id = some kept) :
    ∃ db', Changed db nwid (some (unfile pton nw id kept)) db' ∧
      memberChanged pton changeListeners db kept .null true
        = (db', deauthorized changeListeners (isAuthorized kept) false nwid id) := by
  obtain ⟨hobj, hid, hnwid, hid0⟩ := hfiled.kept hkept
  have hnull : Json.null.isObject = false := rfl
  refine ⟨(db.setNetwork nwid (nw.subtract pton id kept)).setNetwork nwid (unfile pton nw id kept),
    (changed_setNetwork db nwid _).setNetwork _, ?_⟩
  have hget : (db.setNetwork nwid (nw.subtract pton id kept)).networks.get nwid
      = some (nw.subtract pton id kept) := by
    rw [networks_setNetwork, if_pos rfl]
  simp [memberChanged, hobj, hid, hnwid, hid0, hfiled.nwid_ne, hnw, hnull, hget,
    deauthorized, unfile]

/-- Saving a record of a network. -/
theorem save_network {record : JsonRecord} {notify : Bool}
    (htype : (record.json.get "objtype").text = some "network") :
    Effect pton changeListeners db (.save record notify)
      (db.save pton changeListeners record.json notify).1.1
      (db.save pton changeListeners record.json notify).1.2 := by
  have hnone : memberTarget record.json = none := by
    unfold memberTarget
    rw [htype]
    exact if_neg fun h => absurd h.1 (by decide)
  have hobj : (revised record.json).isObject = true := rfl
  simp only [save, htype]
  split_ifs with h
  · rw [networkChanged, if_pos hobj, get_revised (by decide)]
    cases hids : (record.json.get "id").text with
    | none => exact .ignored record notify hnone
    | some ids =>
        rw [Option.map_some]
        dsimp only
        by_cases h0 : CString.strtoull 16 ids = 0
        · rw [if_neg (not_not.mpr h0)]
          exact .ignored record notify hnone
        · rw [if_pos h0]
          exact .networkSaved record notify _ ids _ hnone hids rfl h0 (changed_setNetwork db _ _)
  · exact .ignored record notify hnone

/-- Saving a record of a member. -/
theorem save_member (hdb : AllFiled db) {record : JsonRecord} {notify : Bool}
    (htype : (record.json.get "objtype").text = some "member") :
    Effect pton changeListeners db (.save record notify)
      (db.save pton changeListeners record.json notify).1.1
      (db.save pton changeListeners record.json notify).1.2 := by
  have hobj : (revised record.json).isObject = true := rfl
  simp only [save, htype]
  by_cases hids : jsonIntHex (record.json.get "id") 0 ≠ 0 ∧ jsonIntHex (record.json.get "nwid") 0 ≠ 0
  · have htarget : memberTarget record.json = some (_, _) :=
      memberTarget_eq_some.mpr ⟨htype, rfl, rfl, hids.1, hids.2⟩
    generalize jsonIntHex (record.json.get "id") 0 = id at *
    generalize jsonIntHex (record.json.get "nwid") 0 = nwid at *
    rw [getMember_eq]
    cases hkept : db.record nwid id with
    | none =>
        rw [if_pos ⟨hids, .inl rfl⟩, Option.getD_none]
        dsimp only
        rw [memberChanged_new (by rwa [memberTarget_revised]) hobj]
        have heff : Effect pton changeListeners db (.save record notify) _ _ :=
          .memberSaved record notify nwid id _ htarget (fun kept h => nomatch hkept.symm.trans h)
            (changed_setNetwork db nwid _)
        rw [refile_new (members_eq_none hkept), hkept, Option.any_none, deauthorized,
          Bool.false_and,
          if_neg Bool.false_ne_true, List.append_nil] at heff
        exact heff
    | some kept =>
        obtain ⟨nw, hnw, hmem⟩ := record_eq_some hkept
        obtain ⟨hkobj, -⟩ := (hdb nwid nw hnw).kept hmem
        rw [Option.getD_some]
        -- the record is compared with the one that is kept
        by_cases hsame : compareRecords kept record.json = true
        · rw [if_neg]
          · exact .memberSame record notify nwid id kept htarget hkept hsame
          · rintro ⟨-, h | h⟩
            · rw [hkobj] at h
              cases h
            · rw [hsame] at h
              cases h
        · rw [if_pos ⟨hids, .inr (by rw [Bool.eq_false_iff.mpr hsame]; rfl)⟩]
          obtain ⟨db', hdb', heq⟩ :=
            memberChanged_kept pton changeListeners hnw (hdb nwid nw hnw) hmem hobj notify
          dsimp only
          rw [heq]
          have heff : Effect pton changeListeners db (.save record notify) _ _ :=
            .memberSaved record notify nwid id db' htarget (fun kept' h => by
              rw [hkept] at h
              cases h
              exact Bool.eq_false_iff.mpr hsame) (by rw [hnw]; exact hdb')
          rw [hkept] at heff
          exact heff
  · -- a record without both ids is no record of a member
    rw [if_neg fun h => hids h.1]
    refine .ignored record notify ?_
    unfold memberTarget
    exact if_neg fun h => hids h.2

/-- Saving any record. -/
theorem save_effect (hdb : AllFiled db) (record : JsonRecord) (notify : Bool) :
    Effect pton changeListeners db (.save record notify)
      (db.save pton changeListeners record.json notify).1.1
      (db.save pton changeListeners record.json notify).1.2 := by
  by_cases hnetwork : (record.json.get "objtype").text = some "network"
  · exact save_network hnetwork
  · by_cases hmember : (record.json.get "objtype").text = some "member"
    · exact save_member hdb hmember
    · have hsave : db.save pton changeListeners record.json notify = ((db, []), false) := by
        unfold save
        split
        · exact absurd ‹_› hnetwork
        · exact absurd ‹_› hmember
        · rfl
      rw [hsave]
      refine .ignored record notify ?_
      unfold memberTarget
      exact if_neg fun h => hmember h.1

theorem eraseMember_effect (hdb : AllFiled db) (nwid id : UInt64) :
    Effect pton changeListeners db (.eraseMember nwid id)
      (db.eraseMember pton changeListeners nwid id).1
      (db.eraseMember pton changeListeners nwid id).2 := by
  unfold eraseMember
  rw [getMember_eq]
  cases hkept : db.record nwid id with
  | none =>
      rw [Option.getD_none]
      exact .memberAbsent nwid id hkept
  | some kept =>
      obtain ⟨nw, hnw, hmem⟩ := record_eq_some hkept
      obtain ⟨db', hdb', heq⟩ := memberChanged_null pton changeListeners hnw (hdb nwid nw hnw) hmem
      rw [Option.getD_some, heq]
      exact .memberErased nwid id nw kept db' hnw hmem hdb'

theorem eraseNetwork_effect (hdb : AllFiled db) (nwid : UInt64) :
    Effect pton changeListeners db (.eraseNetwork nwid) (db.eraseNetwork changeListeners nwid).1
      (db.eraseNetwork changeListeners nwid).2 := by
  have hnull : Json.null.isObject = false := rfl
  by_cases hobj : (db.getNetwork nwid).isObject = true
  · cases hnw : db.networks.get nwid with
    | none =>
        rw [getNetwork, hnw] at hobj
        cases hobj
    | some nw =>
        have hconfig : db.getNetwork nwid = nw.config := by
          rw [getNetwork, hnw]
          rfl
        rw [hconfig] at hobj
        obtain ⟨ids, hids, rfl⟩ := (hdb nwid nw hnw).config hobj
        have heq : db.eraseNetwork changeListeners (CString.strtoull 16 ids)
            = (⟨db.networks.erase (CString.strtoull 16 ids)⟩,
              deauthorizeAll changeListeners (CString.strtoull 16 ids)
                (nw.members.entries.map Prod.snd)) := by
          simp [eraseNetwork, networkChanged, hconfig, hobj, hids, hnw, hnull,
            (hdb _ nw hnw).nwid_ne]
        rw [heq]
        exact .networkErased _ nw _ hnw hobj (changed_erase db _)
  · have hobj := Bool.eq_false_iff.mpr hobj
    have heq : db.eraseNetwork changeListeners nwid = (db, []) := by
      simp [eraseNetwork, networkChanged, hobj, hnull]
    rw [heq]
    exact .networkLeft nwid hobj

variable (pton changeListeners) in
/-- **Every step has one of the effects.** -/
theorem step_effect (hdb : AllFiled db) (e : Event) :
    Effect pton changeListeners db e ((machine pton changeListeners).step db e).1
      ((machine pton changeListeners).step db e).2 := by
  cases e with
  | save record notify => exact save_effect hdb record notify
  | eraseNetwork nwid => exact eraseNetwork_effect hdb nwid
  | eraseMember nwid id => exact eraseMember_effect hdb nwid id

/-! ### Records stay under their ids -/

theorem Filed.put {nwid id : UInt64} {nw : DBNetwork} (h : Filed nwid nw) {r : JsonRecord}
    (htarget : memberTarget r.json = some (nwid, id)) :
    Filed nwid (nw.put pton id (revised r.json)) where
  nwid_ne := h.nwid_ne
  members := by
    intro id' rec hrec
    rw [DBNetwork.put, Hashtable.get_set] at hrec
    split_ifs at hrec with hid
    · cases hrec
      exact ⟨r, rfl, hid ▸ htarget⟩
    · exact h.members id' rec hrec
  config := h.config

theorem Filed.subtract {nwid : UInt64} {nw : DBNetwork} (h : Filed nwid nw) (id : UInt64)
    (old : Json) :
    Filed nwid (nw.subtract pton id old) := ⟨h.nwid_ne, h.members, h.config⟩

theorem Filed.refile {nwid id : UInt64} {nw : DBNetwork} (h : Filed nwid nw) {r : JsonRecord}
    (htarget : memberTarget r.json = some (nwid, id)) :
    Filed nwid (refile pton nw id (revised r.json)) := by
  cases hkept : nw.members.get id with
  | none =>
      rw [refile_new hkept]
      exact h.put htarget
  | some kept =>
      rw [refile_kept hkept]
      exact (h.subtract id kept).put htarget

theorem Filed.unfile {nwid : UInt64} {nw : DBNetwork} (h : Filed nwid nw) (id : UInt64)
    (old : Json) :
    Filed nwid (unfile pton nw id old) where
  nwid_ne := h.nwid_ne
  members := by
    intro id' rec hrec
    rw [FileDB.unfile, Hashtable.get_erase] at hrec
    split_ifs at hrec
    exact h.members id' rec hrec
  config := h.config

/-- A network that may not be there yet. -/
theorem AllFiled.getD (hdb : AllFiled db) {nwid : UInt64} (h : nwid ≠ 0) :
    Filed nwid ((db.networks.get nwid).getD DBNetwork.empty) := by
  cases hnw : db.networks.get nwid with
  | none => exact filed_empty h
  | some nw => exact hdb nwid nw hnw

theorem AllFiled.changed (hdb : AllFiled db) {nwid : UInt64} {nw : Option DBNetwork} {db' : FileDB}
    (hchanged : Changed db nwid nw db') (h : ∀ n, nw = some n → Filed nwid n) : AllFiled db' := by
  intro nwid' nw' hnw'
  rw [hchanged nwid'] at hnw'
  split_ifs at hnw' with heq
  · exact heq ▸ h nw' hnw'
  · exact hdb nwid' nw' hnw'

/-- **Records stay under their ids.** -/
theorem AllFiled.step (hdb : AllFiled db) {e : Event} {db' : FileDB} {calls : List (DBCall L)}
    (h : Effect pton changeListeners db e db' calls) : AllFiled db' := by
  cases h with
  | ignored => exact hdb
  | networkSaved record notify nwid ids _ hnone hids hnwid hnwid0 hdb' =>
      refine hdb.changed hdb' fun n hn => ?_
      cases hn
      have hfiled := hdb.getD hnwid0
      refine ⟨hnwid0, hfiled.members, fun _ => ⟨ids, ?_, hnwid⟩⟩
      rw [← hids]
      exact congrArg Json.text (get_revised (by decide))
  | memberSame => exact hdb
  | memberSaved record notify nwid id _ htarget hnew hdb' =>
      refine hdb.changed hdb' fun n hn => ?_
      cases hn
      obtain ⟨-, -, -, -, hnwid0⟩ := memberTarget_eq_some.mp htarget
      exact (hdb.getD hnwid0).refile htarget
  | memberAbsent => exact hdb
  | memberErased nwid id nw kept _ hnw hkept hdb' =>
      refine hdb.changed hdb' fun n hn => ?_
      cases hn
      exact (hdb nwid nw hnw).unfile id kept
  | networkLeft => exact hdb
  | networkErased nwid nw _ hnw hobj hdb' => exact hdb.changed hdb' fun n hn => nomatch hn

theorem allFiled_empty : AllFiled FileDB.empty := by
  intro nwid nw hnw
  rw [networks_empty] at hnw
  cases hnw

/-! ### Records -/

/-- The record of a member, in a network that may not be there yet. -/
theorem members_getD (nwid id : UInt64) :
    ((db.networks.get nwid).getD DBNetwork.empty).members.get id = db.record nwid id := by
  unfold record
  cases db.networks.get nwid with
  | none => exact members_empty id
  | some nw => rfl

theorem record_changed {nwid : UInt64} {nw : Option DBNetwork} {db' : FileDB}
    (h : Changed db nwid nw db') (n id : UInt64) :
    db'.record n id = if n = nwid then nw.bind (·.members.get id) else db.record n id := by
  unfold record
  rw [h n]
  split_ifs <;> rfl

variable (pton changeListeners) in
/-- What saving does when the member has no record yet. -/
theorem saved_new (hdb : AllFiled db) {record : JsonRecord} {nwid id : UInt64} {nw : DBNetwork}
    (htarget : memberTarget record.json = some (nwid, id))
    (hnw : (db.networks.get nwid).getD DBNetwork.empty = nw) (hnone : nw.members.get id = none)
    (notify : Bool) :
    Changed db nwid (some (nw.put pton id (revised record.json)))
      ((machine pton changeListeners).step db (.save record notify)).1 := by
  have heffect := step_effect pton changeListeners hdb (.save record notify)
  rw [← refile_new hnone, ← hnw]
  rw [← hnw, members_getD] at hnone
  generalize (machine pton changeListeners).step db (.save record notify) = r at heffect ⊢
  obtain ⟨db', calls⟩ := r
  cases heffect with
  | ignored _ _ h => exact nomatch h.symm.trans htarget
  | networkSaved _ _ _ _ _ h => exact nomatch h.symm.trans htarget
  | memberSame _ _ nwid' id' kept h hkept =>
      rw [htarget] at h
      cases h
      exact nomatch hnone.symm.trans hkept
  | memberSaved _ _ nwid' id' _ h _ hchanged =>
      rw [htarget] at h
      cases h
      exact hchanged

variable (pton changeListeners) in
/-- What erasing a member does. -/
theorem erased_kept (hdb : AllFiled db) {nwid id : UInt64} {nw : DBNetwork} {kept : Json}
    (hnw : db.networks.get nwid = some nw) (hkept : nw.members.get id = some kept) :
    Changed db nwid (some (unfile pton nw id kept))
      ((machine pton changeListeners).step db (.eraseMember nwid id)).1 := by
  have heffect := step_effect pton changeListeners hdb (.eraseMember nwid id)
  generalize (machine pton changeListeners).step db (.eraseMember nwid id) = r at heffect ⊢
  obtain ⟨db', calls⟩ := r
  cases heffect with
  | memberAbsent _ _ h =>
      unfold FileDB.record at h
      rw [hnw] at h
      exact nomatch h.symm.trans hkept
  | memberErased _ _ nw' kept' _ hnw' hkept' hchanged =>
      cases hnw.symm.trans hnw'
      cases hkept.symm.trans hkept'
      exact hchanged

end FileDB

end ZGalaxy
