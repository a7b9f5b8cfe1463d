/-
ZGalaxy/FileDB.lean

The network controller's database.

For every network the database keeps its configuration and the records of its members, all as JSON,
and beside them what can be told from the records: which members are active bridges, which are
authorized, which addresses are given to any of them, and when a member was last deauthorized.  A
change of a member takes what its old record contributed out of these indexes and puts in what the
new one contributes (`memberChanged`); the listeners are told of changes, and of every member that
was authorized and is not any more.

`FileDB.machine` runs the three operations in any order, each as one step.  The files that the
records are written to as well are not part of the model.
-/
import Mathlib.Data.Finset.Basic
import ZGalaxy.JsonRecords
import ZGalaxy.Membership

namespace ZGalaxy

/-- `InetAddress::setPort`. -/
def InetAddress.setPort (port : UInt16) : InetAddress → InetAddress
  | .nil => .nil
  | .v4 ip _ => .v4 ip port
  | .v6 ip _ => .v6 ip port

/-- A JSON object, with its members in order. -/
structure JsonRecord where
  members : List (String × Json)
  sorted : SortedMap.Sorted Json.nameLt members

namespace JsonRecord

/-- The object as a value. -/
def json (r : JsonRecord) : Json := .object r.members

end JsonRecord

/-- `DB::_compareRecords`: the revision does not count. -/
def compareRecords (a b : Json) : Bool :=
  match a, b with
  | .object l, .object m =>
      l.length == m.length && l.all fun ai =>
        ai.1 == "revision" || (SortedMap.get ai.1 m).any fun bi => bi.eqv ai.2
  | .object _, _ => false
  | _, .object _ => false
  | a, b => a.eqv b

/-- `DB::_Network`. -/
structure DBNetwork where
  config : Json
  members : Hashtable UInt64 Json
  activeBridgeMembers : Finset UInt64
  authorizedMembers : Finset UInt64
  allocatedIps : Finset InetAddress
  mostRecentDeauthTime : Int64

/-- What the database calls of its listeners. -/
inductive DBCall (L : Type)
  | onNetworkUpdate (listener : L) (networkId : UInt64) (network : Json)
  | onNetworkMemberUpdate (listener : L) (networkId memberId : UInt64) (member : Json)
  | onNetworkMemberDeauthorize (listener : L) (networkId memberId : UInt64)

/-- `FileDB`: the table `_networks`. -/
structure FileDB where
  networks : Hashtable UInt64 DBNetwork

/-! ### One network -/

namespace DBNetwork

variable (pton : InetPton)

/-- A network that nothing is known of yet. -/
def empty : DBNetwork where
  config := .null
  members := Hashtable.empty 64 Hashtable.buckets_pos
  activeBridgeMembers := ∅
  authorizedMembers := ∅
  allocatedIps := ∅
  mostRecentDeauthTime := 0

/-- The addresses of a member record. -/
def ipsOf (member : Json) : Finset InetAddress :=
  (((member.get "ipAssignments").elements.filterMap Json.text).map fun ips =>
    (InetAddress.ofText pton ips).setPort 0).toFinset

/-- A member record has the member as an active bridge. -/
def isBridge (member : Json) : Bool := jsonBool (member.get "activeBridge") false

/-- A member record has the member authorized. -/
def isAuthorized (member : Json) : Bool := jsonBool (member.get "authorized") false

/-- Takes out what an old record contributes. -/
def subtract (nw : DBNetwork) (memberId : UInt64) (old : Json) : DBNetwork :=
  { nw with
    activeBridgeMembers :=
      if isBridge old then nw.activeBridgeMembers.erase memberId else nw.activeBridgeMembers
    authorizedMembers :=
      if isAuthorized old then nw.authorizedMembers.erase memberId else nw.authorizedMembers
    allocatedIps := nw.allocatedIps \ ipsOf pton old }

/-- Files a record and puts in what it contributes. -/
def put (nw : DBNetwork) (memberId : UInt64) (memberConfig : Json) : DBNetwork :=
  let ldt := (jsonInt (memberConfig.get "lastDeauthorizedTime") 0).toInt64
  { nw with
    members := nw.members.set memberId memberConfig
    activeBridgeMembers :=
      if isBridge memberConfig then insert memberId nw.activeBridgeMembers
      else nw.activeBridgeMembers
    authorizedMembers :=
      if isAuthorized memberConfig then insert memberId nw.authorizedMembers
      else nw.authorizedMembers
    allocatedIps := nw.allocatedIps ∪ ipsOf pton memberConfig
    mostRecentDeauthTime :=
      if !isAuthorized memberConfig ∧ nw.mostRecentDeauthTime < ldt then ldt
      else nw.mostRecentDeauthTime }

end DBNetwork

open DBNetwork

/-! ### The database -/

namespace FileDB

/-- A database without networks. -/
def empty : FileDB := ⟨Hashtable.empty 64 Hashtable.buckets_pos⟩

/-- `DB::get`, the configuration of a network; null when there is no such network. -/
def getNetwork (db : FileDB) (networkId : UInt64) : Json :=
  ((db.networks.get networkId).map (·.config)).getD .null

/-- `DB::get`, the record of a member; null when there is no such member. -/
def getMember (db : FileDB) (networkId memberId : UInt64) : Json :=
  ((db.networks.get networkId).bind (·.members.get memberId)).getD .null

/-- The database with one network changed. -/
def setNetwork (db : FileDB) (networkId : UInt64) (nw : DBNetwork) : FileDB :=
  ⟨db.networks.set networkId nw⟩

theorem networks_setNetwork (db : FileDB) (networkId networkId' : UInt64) (nw : DBNetwork) :
    (db.setNetwork networkId nw).networks.get networkId'
      = if networkId' = networkId then some nw else db.networks.get networkId' :=
  Hashtable.get_set _ _ _ _

variable (pton : InetPton) {L : Type} (changeListeners : List L)

/-- `DB::_memberChanged`. -/
def memberChanged (db : FileDB) (old memberConfig : Json) (notifyListeners : Bool) :
    FileDB × List (DBCall L) :=
  let oldId := if old.isObject then jsonIntHex (old.get "id") 0 else 0
  let oldNetworkId := if old.isObject then jsonIntHex (old.get "nwid") 0 else 0
  let nw := if oldId ≠ 0 ∧ oldNetworkId ≠ 0 then db.networks.get oldNetworkId else none
  let wasAuth := nw.isSome && isAuthorized old
  let db := match nw with
    | some n => db.setNetwork oldNetworkId (n.subtract pton oldId old)
    | none => db
  if memberConfig.isObject then
    let memberId := if nw.isSome then oldId else jsonIntHex (memberConfig.get "id") 0
    let networkId := if nw.isSome then oldNetworkId else jsonIntHex (memberConfig.get "nwid") 0
    if memberId = 0 ∨ networkId = 0 then (db, [])
    else
      -- a network that is not there yet is created
      let n := (db.networks.get networkId).getD DBNetwork.empty
      let isAuth := isAuthorized memberConfig
      (db.setNetwork networkId (n.put pton memberId memberConfig),
        if notifyListeners then
          changeListeners.map (.onNetworkMemberUpdate · networkId memberId memberConfig)
            ++ if wasAuth && !isAuth then
                changeListeners.map (.onNetworkMemberDeauthorize · networkId memberId)
              else []
        else [])
  else if oldId ≠ 0 then
    let db := match nw.bind fun _ => db.networks.get oldNetworkId with
      | some n => db.setNetwork oldNetworkId { n with members := n.members.erase oldId }
      | none => db
    (db, if notifyListeners && wasAuth && oldNetworkId ≠ 0 then
        changeListeners.map (.onNetworkMemberDeauthorize · oldNetworkId oldId)
      else [])
  else (db, [])

/-- The loop that tells the listeners of the members of a network that is erased.  A record whose
id is no string ends it. -/
def deauthorizeAll (networkId : UInt64) : List Json → List (DBCall L)
  | [] => []
  | member :: members =>
      match (member.get "id").text with
      | some nodeID =>
          changeListeners.map
              (.onNetworkMemberDeauthorize · networkId (CString.strtoull 16 nodeID))
            ++ deauthorizeAll networkId members
      | none => []

/-- `DB::_networkChanged`; nothing where it throws, since the id is no string. -/
def networkChanged (db : FileDB) (old networkConfig : Json) (notifyListeners : Bool) :
    Option (FileDB × List (DBCall L)) :=
  if networkConfig.isObject then
    (networkConfig.get "id").text.map fun ids =>
      let networkId := CString.strtoull 16 ids
      if networkId ≠ 0 then
        let n := (db.networks.get networkId).getD DBNetwork.empty
        (db.setNetwork networkId { n with config := networkConfig },
          if notifyListeners then
            changeListeners.map (.onNetworkUpdate · networkId networkConfig)
          else [])
      else (db, [])
  else if old.isObject then
    (old.get "id").text.map fun ids =>
      let networkId := CString.strtoull 16 ids
      if networkId ≠ 0 then
        let members := ((db.networks.get networkId).map fun n =>
          n.members.entries.map Prod.snd).getD []
        (⟨db.networks.erase networkId⟩, deauthorizeAll changeListeners networkId members)
      else (db, [])
  else some (db, [])

/-- The record with its revision counted up. -/
def revised (record : Json) : Json :=
  record.set "revision" (.unsigned (jsonInt (record.get "revision") 0 + 1))

/-- `FileDB::save`, with whether anything was modified.  What throws is caught. -/
def save (db : FileDB) (record : Json) (notifyListeners : Bool) :
    (FileDB × List (DBCall L)) × Bool :=
  match (record.get "objtype").text with
  | some "network" =>
      let nwid := jsonIntHex (record.get "id") 0
      let old := db.getNetwork nwid
      if nwid ≠ 0 ∧ (!old.isObject ∨ !compareRecords old record) then
        match networkChanged changeListeners db old (revised record) notifyListeners with
        | some r => (r, true)
        | none => ((db, []), false)
      else ((db, []), false)
  | some "member" =>
      let id := jsonIntHex (record.get "id") 0
      let nwid := jsonIntHex (record.get "nwid") 0
      let old := db.getMember nwid id
      if (id ≠ 0 ∧ nwid ≠ 0) ∧ (!old.isObject ∨ !compareRecords old record) then
        (memberChanged pton changeListeners db old (revised record) notifyListeners, true)
      else ((db, []), false)
  | _ => ((db, []), false)

/-- `FileDB::eraseNetwork`. -/
def eraseNetwork (db : FileDB) (networkId : UInt64) : FileDB × List (DBCall L) :=
  (networkChanged changeListeners db (db.getNetwork networkId) .null true).getD (db, [])

/-- `FileDB::eraseMember`. -/
def eraseMember (db : FileDB) (networkId memberId : UInt64) : FileDB × List (DBCall L) :=
  memberChanged pton changeListeners db (db.getMember networkId memberId) .null true

/-- The operations of the database. -/
inductive Event
  | save (record : JsonRecord) (notifyListeners : Bool)
  | eraseNetwork (networkId : UInt64)
  | eraseMember (networkId memberId : UInt64)

/-- The operations in any order. -/
def machine : Machine FileDB Event (DBCall L) where
  step db
    | .save record notifyListeners => (db.save pton changeListeners record.json notifyListeners).1
    | .eraseNetwork networkId => db.eraseNetwork changeListeners networkId
    | .eraseMember networkId memberId => db.eraseMember pton changeListeners networkId memberId

end FileDB

end ZGalaxy
