/-
ZGalaxy/MoonsWatcher.lean

The directory `moons.d`, the node that keeps its moons there, and the scan that follows its files.

`_zgalaxyScanMoonsD` compares the files that there are with a set of ids that it remembers.  A new
id is remembered and orbited, whether its file can be loaded or not; an id whose file is gone is
deorbited and forgotten, whatever became of it meanwhile.  The node writes a file when it gets a
moon and deletes it when the user gives the moon up, under a name in small letters.

What a scan does is said by `scan_orbited`, `scan_moonSeeds` and `scan_get`.  Main result:
`converges_iff`, that the scans of a run do what they are for just when each begins `InStep`.

What is kept in `removed` is not in the code.  The names of files are rows of characters, one for
each byte.
-/
import Mathlib.Data.List.Sort
import ZGalaxy.InetText
import ZGalaxy.SortedMap
import ZGalaxy.WorldUpdates

namespace ZGalaxy.MoonsWatcher

open CString ByteList ZGalaxy.Topology

/-! ### Names -/

/-- `std::string::find_last_of`, for one character. -/
def findLastOf (c : Char) (s : List Char) : Option ℕ :=
  (s.reverse.findIdx? (· == c)).map fun i => s.length - 1 - i

/-- A name that ends in `.moon` after 16 characters. -/
def isMoonName (name : List Char) : Bool :=
  findLastOf '.' name == some 16 && name.drop 16 == ['.', 'm', 'o', 'o', 'n']

/-- The id in a name. -/
def idOfName (name : List Char) : UInt64 := strtoull 16 (String.ofList (name.take 16))

/-- The id of a file that `_zgalaxyScanMoonsD` takes. -/
def scanName (name : List Char) : Option UInt64 :=
  if isMoonName name && (name.take 16).all fun c => decide (digit c < 16) then some (idOfName name)
  else none

/-- The file of a moon in `nodeStatePutFunction` and `nodeStateGetFunction`. -/
def moonFile (id : UInt64) : List Char := hexDigits 16 id.toNat ++ ['.', 'm', 'o', 'o', 'n']

/-! ### The service -/

/-- The files in `moons.d`, the moons of the node and the ids that the watcher remembers. -/
structure Watcher where
  files : List (List Char × Bytes)
  topology : Topology
  /-- `_zgalaxyKnownMoons` -/
  known : List UInt64
  /-- the moons whose file was removed since the last scan, but those that were orbited again -/
  removed : List UInt64

/-- `std::set::insert`. -/
def insertId (s : List UInt64) (id : UInt64) : List UInt64 :=
  if id ∈ s then s else s.orderedInsert (· ≤ ·) id

/-- The ids of the files that there are. -/
def present (files : List (List Char × Bytes)) : List UInt64 :=
  (files.filterMap fun f => scanName f.1).foldl insertId []

/-- What stands in the file of a moon. -/
def moonData (files : List (List Char × Bytes)) (id : UInt64) : Bytes :=
  (SortedMap.get (moonFile id) files).getD []

/-- What `stateObjectGet` reads of it. -/
def stored (files : List (List Char × Bytes)) (id : UInt64) : Bytes :=
  (moonData files id).take worldMaxSerializedLength

/-- What becomes of the files when the node puts or deletes a moon.  A new file comes last. -/
def store (files : List (List Char × Bytes)) : TopologyOutput → List (List Char × Bytes)
  | .stateObjectPut .moon id data => SortedMap.set (fun _ _ => false) (moonFile id) data files
  | .stateObjectDelete .moon id => SortedMap.erase (moonFile id) files
  | _ => files

namespace Watcher

variable (ecc : Ecc)

/-- What a call to the node leaves. -/
def call (σ : Watcher) (r : Topology × List TopologyOutput) : Watcher :=
  { σ with topology := r.1, files := r.2.foldl store σ.files }

/-- `Node::orbit`. -/
def orbit (σ : Watcher) (id : UInt64) (seed : Address) : Watcher :=
  σ.call (σ.topology.addMoon ecc id seed (stored σ.files id))

/-- `Node::deorbit`. -/
def deorbit (σ : Watcher) (id : UInt64) : Watcher := σ.call (σ.topology.removeMoon id)

/-! ### The scan -/

/-- A turn of the loop over the files that there are. -/
def orbitNew (σ : Watcher) (id : UInt64) : Watcher :=
  -- the id is remembered before it is known whether the file can be loaded
  if id ∈ σ.known then σ else { σ with known := insertId σ.known id }.orbit ecc id 0

/-- A turn of the loop over the ids that are remembered. -/
def dropGone (present : List UInt64) (σ : Watcher) (k : UInt64) : Watcher :=
  if k ∈ present then σ else { σ.deorbit k with known := σ.known.erase k }

/-- `OneServiceImpl::_zgalaxyScanMoonsD`. -/
def scan (σ : Watcher) : Watcher :=
  -- the directory is listed once, before the node writes or deletes anything in it
  let present := present σ.files
  let added := present.foldl (orbitNew ecc) σ
  { added.known.foldl (dropGone present) added with removed := [] }

/-- The beginning of `run`: the moons that have a file are orbited, and those that the node has
then are remembered. -/
def start (files : List (List Char × Bytes)) (t : Topology) : Watcher :=
  let orbited := ((files.map Prod.fst).filter isMoonName).foldl
    (fun σ name => orbit ecc σ (idOfName name) 0) ⟨files, t, [], []⟩
  { orbited with known := (orbited.topology.moons.map World.id).foldl insertId [] }

/-! ### Steps -/

/-- A user asks for a moon, with a seed or zero. -/
def moonPost (σ : Watcher) (id seed : UInt64) : Watcher :=
  if id ∈ σ.topology.moons.map World.id ∨ seed = 0 then σ
  else
    { σ.orbit ecc id (Address.ofUInt64 seed.toBitVec) with
      removed := σ.removed.filter (· != id) }

/-- What happened to the files is kept in mind. -/
def noting (σ σ' : Watcher) : Watcher :=
  { σ' with removed := σ'.removed ++ (present σ.files).filter (· ∉ present σ'.files) }

end Watcher

/-- What happens. -/
inductive WatchEvent
  /-- a file appears or is replaced -/
  | fileWritten (name : List Char) (data : Bytes)
  | fileRemoved (name : List Char)
  | scan
  /-- `POST /moon/id` -/
  | moonPost (id seed : UInt64)
  /-- `DELETE /moon/id` -/
  | moonDelete (id : UInt64)
  /-- a world arrives from a peer -/
  | received (newWorld : World)
  /-- the domain of a moon was resolved -/
  | endpointsResolved (worldId : UInt64) (eps : List InetAddress)

/-- The service over its life. -/
def watcher (ecc : Ecc) : Machine Watcher WatchEvent Empty where
  step σ
    | .fileWritten name data =>
        ({ σ with files := SortedMap.set (fun _ _ => false) name data σ.files }, [])
    | .fileRemoved name => (σ.noting { σ with files := SortedMap.erase name σ.files }, [])
    | .scan => (σ.scan ecc, [])
    | .moonPost id seed => (σ.moonPost ecc id seed, [])
    | .moonDelete id => (σ.noting (σ.deorbit id), [])
    | .received newWorld =>
        (σ.call ((topology ecc).step σ.topology (.addWorld newWorld false)), [])
    | .endpointsResolved worldId eps =>
        (σ.call ((topology ecc).step σ.topology (.setMoonEndpoints worldId eps)), [])

/-! ### What the scan is for -/

/-- The node has a moon. -/
def Orbited (t : Topology) (id : UInt64) : Prop := id ∈ t.moons.map World.id

instance (t : Topology) (id : UInt64) : Decidable (Orbited t id) :=
  inferInstanceAs (Decidable (id ∈ t.moons.map World.id))

/-- A file holds the moon with an id. -/
def HoldsMoon (id : UInt64) (data : Bytes) : Prop :=
  (loadMoon id (data.take worldMaxSerializedLength)).isSome = true

/-- **What a scan is for**: every file with a valid moon is orbited, no moon stays whose file was
removed, and no request is cancelled that waits for its moon. -/
structure Converges (ecc : Ecc) (σ : Watcher) : Prop where
  orbited : ∀ name data id, SortedMap.get name (σ.scan ecc).files = some data →
    scanName name = some id → HoldsMoon id data → Orbited (σ.scan ecc).topology id
  removed : ∀ id ∈ σ.removed, id ∉ present σ.files → ¬Orbited (σ.scan ecc).topology id
  waiting : ∀ s ∈ σ.topology.moonSeeds, ¬Orbited σ.topology s.1 →
    s ∈ (σ.scan ecc).topology.moonSeeds

/-- **What is remembered is in step** with the files and the node: a file with a valid moon that is
not orbited is new, and the node will find the moon; a moon that has lost its file is remembered; a
request whose id is remembered has a file, or its moon is there already. -/
structure InStep (σ : Watcher) : Prop where
  orbited : ∀ name data id, SortedMap.get name σ.files = some data → scanName name = some id →
    HoldsMoon id data → Orbited σ.topology id ∨ id ∉ σ.known ∧ HoldsMoon id (moonData σ.files id)
  removed : ∀ id ∈ σ.removed, id ∉ present σ.files → Orbited σ.topology id → id ∈ σ.known
  waiting : ∀ s ∈ σ.topology.moonSeeds, s.1 ∈ σ.known →
    s.1 ∈ present σ.files ∨ Orbited σ.topology s.1

variable {ecc : Ecc} {t : Topology} {σ σ' : Watcher} {files : List (List Char × Bytes)}
  {name : List Char} {id : UInt64}

/-! ### Names and ids -/

theorem scanName_moonFile (id : UInt64) : scanName (moonFile id) = some id := by
  have hlength : (hexDigits 16 id.toNat).length = 16 := length_hexDigits 16 id.toNat
  have htake : (moonFile id).take 16 = hexDigits 16 id.toNat := List.take_left' hlength
  have hdrop : (moonFile id).drop 16 = ['.', 'm', 'o', 'o', 'n'] := List.drop_left' hlength
  have hlast : findLastOf '.' (moonFile id) = some 16 := by
    have hreverse : (moonFile id).reverse =
        ['n', 'o', 'o', 'm', '.'] ++ (hexDigits 16 id.toNat).reverse := List.reverse_append
    have htotal : (moonFile id).length = 21 := by
      rw [moonFile, List.length_append, hlength]
      rfl
    unfold findLastOf
    rw [hreverse, htotal]
    rfl
  have hdigits : ((moonFile id).take 16).all fun c => decide (digit c < 16) := by
    rw [htake, List.all_eq_true]
    exact fun c hc => decide_eq_true (allDigits_hexDigits 16 id.toNat c hc)
  have hid : idOfName (moonFile id) = id := by
    unfold idOfName
    rw [htake]
    exact (strtoull_hex le_rfl id.toNat_lt).trans (UInt64.ofNat_toNat)
  unfold scanName isMoonName
  rw [hlast, hdrop, hdigits, hid]
  rfl

theorem moonFile_injective : Function.Injective moonFile := by
  intro a b h
  have hname := scanName_moonFile a
  rw [h, scanName_moonFile b] at hname
  exact (Option.some.inj hname).symm

theorem mem_insertId {s : List UInt64} {x : UInt64} : x ∈ insertId s id ↔ x = id ∨ x ∈ s := by
  unfold insertId
  split_ifs with hid
  · exact (or_iff_right_of_imp fun hx => hx ▸ hid).symm
  · rw [List.mem_orderedInsert]

theorem mem_foldl_insertId {l s : List UInt64} {x : UInt64} :
    x ∈ l.foldl insertId s ↔ x ∈ l ∨ x ∈ s := by
  induction l generalizing s with
  | nil => exact (or_iff_right List.not_mem_nil).symm
  | cons y l ih =>
      rw [List.foldl_cons, ih, mem_insertId, List.mem_cons]
      exact or_left_comm.trans or_assoc.symm

/-- An id is present when some file has it in its name. -/
theorem mem_present : id ∈ present files ↔
    ∃ name data, SortedMap.get name files = some data ∧ scanName name = some id := by
  unfold present
  rw [mem_foldl_insertId, or_iff_left List.not_mem_nil, List.mem_filterMap]
  constructor
  · rintro ⟨f, hf, hid⟩
    rcases hget : SortedMap.get f.1 files with - | data
    · exact absurd hget (SortedMap.get_ne_none (List.mem_map_of_mem hf))
    · exact ⟨f.1, data, hget, hid⟩
  · rintro ⟨name, data, hget, hid⟩
    exact ⟨(name, data), SortedMap.mem_of_get hget, hid⟩

theorem mem_present_of_get {data : Bytes} (h : SortedMap.get (moonFile id) files = some data) :
    id ∈ present files := mem_present.mpr ⟨_, data, h, scanName_moonFile id⟩

/-- A file that holds a moon is there. -/
theorem HoldsMoon.mem_present (h : HoldsMoon id (moonData files id)) : id ∈ present files := by
  rcases hget : SortedMap.get (moonFile id) files with - | data
  · unfold HoldsMoon moonData at h
    rw [hget] at h
    cases h
  · exact mem_present_of_get hget

/-! ### Calls to the node -/

theorem mem_persist {w : World} {o : TopologyOutput} (h : o ∈ persist .moon w) :
    ∃ put, o = .stateObjectPut .moon w.id put := by
  unfold persist at h
  rcases hw : w.serialize false with e | put
  · rw [hw] at h
    cases h
  · rw [hw] at h
    exact ⟨put, List.mem_singleton.mp h⟩

theorem outputs_added (w : World) (t : Topology) :
    (added .moon w t).outputs = persist .moon w := by
  rw [added]

theorem moonSeeds_added (w : World) (t : Topology) :
    (added .moon w t).topology.moonSeeds = t.moonSeeds := rfl

/-- A moon that is always accepted is there afterwards, and no other comes or goes.  An error leaves
the one that was there. -/
theorem addWorld_moon (ecc : Ecc) (t : Topology) {w : World} (htype : w.type = .moon) :
    (∃ e, addWorld ecc t w true = .error e ∧ Orbited t w.id) ∨
      ∃ o, addWorld ecc t w true = .ok o ∧ o.topology.moonSeeds = t.moonSeeds ∧
        (∀ x, Orbited o.topology x ↔ Orbited t x ∨ x = w.id) ∧
        (o.outputs = [] ∨ o.outputs = persist .moon w) := by
  rcases hfind : t.moons.find? fun m => m.id == w.id with - | m
  · have hadd : addWorld ecc t w true =
        .ok (added .moon w { t with moons := t.moons ++ [w] }) := by
      unfold addWorld
      rw [htype]
      dsimp only
      rw [hfind]
      rfl
    refine Or.inr ⟨_, hadd, moonSeeds_added w _, fun x => ?_, Or.inr (outputs_added w _)⟩
    show x ∈ (t.moons ++ [w]).map World.id ↔ _
    rw [List.map_append, List.mem_append, List.map_singleton, List.mem_singleton]
    rfl
  · have hthere : Orbited t w.id :=
      List.mem_map.mpr ⟨m, List.mem_of_find?_eq_some hfind, id_of_find? hfind⟩
    have hold : ∀ x, Orbited t x ↔ Orbited t x ∨ x = w.id := fun x =>
      (or_iff_left_of_imp fun hx => hx ▸ hthere).symm
    have hadd : addWorld ecc t w true = (m.shouldBeReplacedBy ecc w).map fun replaced =>
        if replaced then added .moon w { t with moons := replaceMoon w.id w t.moons }
        else t.unchanged := by
      unfold addWorld
      rw [htype]
      dsimp only
      rw [hfind]
    rcases hreplaced : m.shouldBeReplacedBy ecc w with e | replaced
    · rw [hreplaced] at hadd
      exact Or.inl ⟨e, hadd, hthere⟩
    · rw [hreplaced] at hadd
      refine Or.inr ⟨_, hadd, ?_⟩
      rcases replaced with - | -
      · exact ⟨rfl, hold, Or.inl rfl⟩
      · refine ⟨moonSeeds_added w _, fun x => ?_, Or.inr (outputs_added w _)⟩
        show x ∈ (replaceMoon w.id w t.moons).map World.id ↔ _
        rw [map_id_replaceMoon rfl]
        exact hold x

/-- What `addMoon` does to the moons, the requests and the files, for a moon without a seed. -/
theorem addMoon_spec (ecc : Ecc) (t : Topology) (id : UInt64) (data : Bytes) :
    (∀ x, Orbited (t.addMoon ecc id 0 data).1 x ↔
      Orbited t x ∨ x = id ∧ (loadMoon id data).isSome = true) ∧
    (t.addMoon ecc id 0 data).1.moonSeeds = t.moonSeeds ∧
    ∀ o ∈ (t.addMoon ecc id 0 data).2, (loadMoon id data).isSome = true ∧
      ∃ put, o = .stateObjectPut .moon id put := by
  unfold addMoon
  rcases hload : loadMoon id data with - | w
  · refine ⟨fun x => ?_, rfl, fun o ho => absurd ho List.not_mem_nil⟩
    exact (or_iff_left fun h => Bool.false_ne_true h.2).symm
  · obtain ⟨-, hw⟩ := Option.filter_eq_some_iff.mp hload
    obtain ⟨htype, hid⟩ := Bool.and_eq_true_iff.mp hw
    obtain rfl : w.id = id := beq_iff_eq.mp hid
    have hnew : ∀ x, Orbited t x ∨ x = w.id ∧ (some w).isSome = true ↔
        Orbited t x ∨ x = w.id := fun x => or_congr_right (and_iff_left rfl)
    dsimp only
    rcases addWorld_moon ecc t (beq_iff_eq.mp htype) with
      ⟨e, hadd, hthere⟩ | ⟨o, hadd, hseeds, hids, houtputs⟩
    · rw [hadd]
      refine ⟨fun x => ?_, rfl, fun o ho => absurd ho List.not_mem_nil⟩
      exact ((hnew x).trans (or_iff_left_of_imp fun hx => hx ▸ hthere)).symm
    · rw [hadd]
      refine ⟨fun x => (hids x).trans (hnew x).symm, hseeds, fun o' ho' => ?_⟩
      rcases houtputs with hnone | hput
      · change o' ∈ o.outputs at ho'
        rw [hnone] at ho'
        cases ho'
      · change o' ∈ o.outputs at ho'
        rw [hput] at ho'
        exact ⟨rfl, mem_persist ho'⟩

/-- What `removeMoon` does. -/
theorem orbited_removeMoon (t : Topology) (id x : UInt64) :
    Orbited (t.removeMoon id).1 x ↔ Orbited t x ∧ x ≠ id := by
  show x ∈ (t.moons.filter fun m => m.id != id).map World.id ↔ x ∈ t.moons.map World.id ∧ _
  rw [List.mem_map, List.mem_map]
  constructor
  · rintro ⟨m, hm, rfl⟩
    rw [List.mem_filter, bne_iff_ne] at hm
    exact ⟨⟨m, hm.1, rfl⟩, hm.2⟩
  · rintro ⟨⟨m, hm, rfl⟩, hne⟩
    exact ⟨m, List.mem_filter.mpr ⟨hm, bne_iff_ne.mpr hne⟩, rfl⟩

theorem mem_moonSeeds_removeMoon (t : Topology) (id : UInt64) (s : UInt64 × Address) :
    s ∈ (t.removeMoon id).1.moonSeeds ↔ s ∈ t.moonSeeds ∧ s.1 ≠ id := by
  show s ∈ t.moonSeeds.filter _ ↔ _
  rw [List.mem_filter, bne_iff_ne]

/-- Putting a moon writes its file only. -/
theorem get_store_put {os : List TopologyOutput}
    (hos : ∀ o ∈ os, ∃ put, o = .stateObjectPut .moon id put) (hname : name ≠ moonFile id) :
    SortedMap.get name (os.foldl store files) = SortedMap.get name files := by
  induction os generalizing files with
  | nil => rfl
  | cons o os ih =>
      obtain ⟨⟨put, rfl⟩, hos'⟩ := List.forall_mem_cons.mp hos
      rw [List.foldl_cons, ih hos']
      exact (SortedMap.get_set _ _ _ _ _).trans (if_neg hname)

/-- Deleting a moon that has no file leaves all files. -/
theorem get_store_delete {os : List TopologyOutput}
    (hos : ∀ o ∈ os, o = .stateObjectDelete .moon id)
    (hnone : SortedMap.get (moonFile id) files = none) (name : List Char) :
    SortedMap.get name (os.foldl store files) = SortedMap.get name files := by
  induction os generalizing files with
  | nil => rfl
  | cons o os ih =>
      obtain ⟨rfl, hos'⟩ := List.forall_mem_cons.mp hos
      have herase : ∀ name, SortedMap.get name (SortedMap.erase (moonFile id) files) =
          SortedMap.get name files := by
        intro name
        rw [SortedMap.get_erase]
        split_ifs with hname
        · rw [hname, hnone]
        · rfl
      rw [List.foldl_cons]
      exact (ih hos' ((herase _).trans hnone)).trans (herase name)

theorem moonData_congr {files' : List (List Char × Bytes)}
    (h : SortedMap.get (moonFile id) files' = SortedMap.get (moonFile id) files) :
    moonData files' id = moonData files id := by
  unfold moonData
  rw [h]

/-! ### The loop over the files -/

/-- What orbiting the new ones among some ids does. -/
structure Added (l : List UInt64) (σ σ' : Watcher) : Prop where
  known : ∀ x, x ∈ σ'.known ↔ x ∈ l ∨ x ∈ σ.known
  orbited : ∀ x, Orbited σ'.topology x ↔
    Orbited σ.topology x ∨ x ∈ l ∧ x ∉ σ.known ∧ HoldsMoon x (moonData σ.files x)
  moonSeeds : σ'.topology.moonSeeds = σ.topology.moonSeeds
  files : ∀ name, SortedMap.get name σ'.files = SortedMap.get name σ.files ∨
    ∃ x ∈ l, x ∉ σ.known ∧ name = moonFile x ∧ HoldsMoon x (moonData σ.files x)

theorem Added.nil (σ : Watcher) : Added [] σ σ where
  known _ := (or_iff_right List.not_mem_nil).symm
  orbited _ := (or_iff_left fun h => List.not_mem_nil h.1).symm
  moonSeeds := rfl
  files _ := Or.inl rfl

/-- **One turn of the loop.** -/
theorem added_orbitNew (ecc : Ecc) (σ : Watcher) (id : UInt64) :
    Added [id] σ (σ.orbitNew ecc id) := by
  unfold Watcher.orbitNew
  split_ifs with hknown
  · refine ⟨fun x => ?_, fun x => ?_, rfl, fun _ => Or.inl rfl⟩
    · rw [List.mem_singleton]
      exact (or_iff_right_of_imp fun hx => hx ▸ hknown).symm
    · rw [List.mem_singleton]
      exact (or_iff_left fun h => h.2.1 (h.1 ▸ hknown)).symm
  · obtain ⟨hids, hseeds, houtputs⟩ := addMoon_spec ecc σ.topology id (stored σ.files id)
    refine ⟨fun x => ?_, fun x => (hids x).trans (or_congr_right ?_), hseeds, fun name => ?_⟩
    · rw [List.mem_singleton]
      exact mem_insertId
    · rw [List.mem_singleton]
      constructor
      · rintro ⟨rfl, hload⟩
        exact ⟨rfl, hknown, hload⟩
      · rintro ⟨rfl, -, hload⟩
        exact ⟨rfl, hload⟩
    · by_cases hname : name = moonFile id
      · by_cases hload : HoldsMoon id (moonData σ.files id)
        · exact Or.inr ⟨id, List.mem_singleton_self id, hknown, hname, hload⟩
        · -- a file that holds no moon is not written
          have hnone : (σ.topology.addMoon ecc id 0 (stored σ.files id)).2 = [] :=
            List.eq_nil_iff_forall_not_mem.mpr fun o ho => hload (houtputs o ho).1
          refine Or.inl ?_
          show SortedMap.get name (List.foldl store σ.files
            (σ.topology.addMoon ecc id 0 (stored σ.files id)).2) = _
          rw [hnone]
          rfl
      · exact Or.inl (get_store_put (fun o ho => (houtputs o ho).2) hname)

/-- Turns of the loop follow each other. -/
theorem Added.trans {l m : List UInt64} {σ'' : Watcher} (h : Added l σ σ') (h' : Added m σ' σ'') :
    Added (l ++ m) σ σ'' := by
  -- the file of an id that was not among the first ones is as it was
  have hdata : ∀ x, x ∉ σ'.known → moonData σ'.files x = moonData σ.files x := by
    intro x hx
    refine moonData_congr ((h.files (moonFile x)).resolve_right ?_)
    rintro ⟨y, hy, -, hname, -⟩
    obtain rfl := moonFile_injective hname
    exact hx ((h.known x).mpr (Or.inl hy))
  have hknown : ∀ x, x ∉ σ'.known ↔ x ∉ l ∧ x ∉ σ.known := fun x =>
    (not_congr (h.known x)).trans not_or
  refine ⟨fun x => ?_, fun x => ?_, h'.moonSeeds.trans h.moonSeeds, fun name => ?_⟩
  · rw [h'.known, h.known, List.mem_append]
    exact or_left_comm.trans or_assoc.symm
  · rw [h'.orbited, h.orbited, List.mem_append]
    constructor
    · rintro ((hx | ⟨hl, hx⟩) | ⟨hm, hnew, hload⟩)
      · exact Or.inl hx
      · exact Or.inr ⟨Or.inl hl, hx⟩
      · rw [hdata x hnew] at hload
        exact Or.inr ⟨Or.inr hm, ((hknown x).mp hnew).2, hload⟩
    · rintro (hx | ⟨hlm, hx, hload⟩)
      · exact Or.inl (Or.inl hx)
      · -- an id that is in both was orbited at its first turn
        by_cases hl : x ∈ l
        · exact Or.inl (Or.inr ⟨hl, hx, hload⟩)
        · have hnew := (hknown x).mpr ⟨hl, hx⟩
          rw [← hdata x hnew] at hload
          exact Or.inr ⟨hlm.resolve_left hl, hnew, hload⟩
  · rcases h'.files name with hsame | ⟨x, hm, hnew, hname, hload⟩
    · rw [hsame]
      rcases h.files name with hsame' | ⟨x, hl, hx⟩
      · exact Or.inl hsame'
      · exact Or.inr ⟨x, List.mem_append_left m hl, hx⟩
    · rw [hdata x hnew] at hload
      exact Or.inr ⟨x, List.mem_append_right l hm, ((hknown x).mp hnew).2, hname, hload⟩

/-- **The loop over the files.** -/
theorem added_foldl (ecc : Ecc) (l : List UInt64) (σ : Watcher) :
    Added l σ (l.foldl (Watcher.orbitNew ecc) σ) := by
  induction l generalizing σ with
  | nil => exact .nil σ
  | cons id l ih => exact (added_orbitNew ecc σ id).trans (ih (σ.orbitNew ecc id))

/-! ### The loop over what is remembered -/

variable {ids : List UInt64}

/-- What deorbiting those among some ids does that are not present. -/
structure Dropped (ids l : List UInt64) (σ σ' : Watcher) : Prop where
  orbited : ∀ x, Orbited σ'.topology x ↔ Orbited σ.topology x ∧ ¬(x ∈ l ∧ x ∉ ids)
  moonSeeds : ∀ s, s ∈ σ'.topology.moonSeeds ↔
    s ∈ σ.topology.moonSeeds ∧ ¬(s.1 ∈ l ∧ s.1 ∉ ids)
  files : ∀ name, SortedMap.get name σ'.files = SortedMap.get name σ.files

/-- No id that is not present has a file. -/
def NoFiles (ids : List UInt64) (σ : Watcher) : Prop :=
  ∀ k ∉ ids, SortedMap.get (moonFile k) σ.files = none

/-- **One turn of the loop.** -/
theorem dropped_dropGone (h : NoFiles ids σ) (k : UInt64) :
    Dropped ids [k] σ (σ.dropGone ids k) := by
  unfold Watcher.dropGone
  split_ifs with hk
  · have hnone : ∀ x, ¬(x ∈ [k] ∧ x ∉ ids) := by
      rintro x ⟨hx, hids⟩
      obtain rfl := List.mem_singleton.mp hx
      exact hids hk
    exact ⟨fun x => (and_iff_left (hnone x)).symm, fun s => (and_iff_left (hnone s.1)).symm,
      fun _ => rfl⟩
  · have hone : ∀ x, ¬(x ∈ [k] ∧ x ∉ ids) ↔ x ≠ k := by
      intro x
      rw [List.mem_singleton]
      exact not_congr (and_iff_left_of_imp fun hx => hx ▸ hk)
    refine ⟨fun x => ?_, fun s => ?_, fun name => get_store_delete ?_ (h k hk) name⟩
    · rw [hone]
      exact orbited_removeMoon σ.topology k x
    · rw [hone]
      exact mem_moonSeeds_removeMoon σ.topology k s
    · intro o ho
      obtain ⟨m, -, rfl⟩ := List.mem_map.mp ho
      rfl

/-- **The loop over what is remembered.** -/
theorem dropped_foldl (h : NoFiles ids σ) (l : List UInt64) :
    Dropped ids l σ (l.foldl (Watcher.dropGone ids) σ) := by
  induction l generalizing σ with
  | nil =>
      exact ⟨fun x => (and_iff_left fun h => List.not_mem_nil h.1).symm,
        fun s => (and_iff_left fun h => List.not_mem_nil h.1).symm, fun _ => rfl⟩
  | cons k l ih =>
      have hone := dropped_dropGone h k
      have hrest := ih fun x hx => (hone.files (moonFile x)).trans (h x hx)
      have hboth : ∀ x, (¬(x ∈ [k] ∧ x ∉ ids) ∧ ¬(x ∈ l ∧ x ∉ ids)) ↔
          ¬(x ∈ k :: l ∧ x ∉ ids) := by
        intro x
        have hcons : x ∈ k :: l ↔ x ∈ [k] ∨ x ∈ l := by rw [List.mem_cons, List.mem_singleton]
        rw [hcons, or_and_right, not_or]
      refine ⟨fun x => ?_, fun s => ?_, fun name => (hrest.files name).trans (hone.files name)⟩
      · rw [List.foldl_cons, hrest.orbited, hone.orbited, and_assoc, hboth]
      · rw [List.foldl_cons, hrest.moonSeeds, hone.moonSeeds, and_assoc, hboth]

/-! ### A scan -/

/-- After the first loop an id that is not present has no file. -/
theorem noFiles_added (h : Added (present σ.files) σ σ') : NoFiles (present σ.files) σ' := by
  intro k hk
  rcases h.files (moonFile k) with hsame | ⟨x, hx, -, hname, -⟩
  · rw [hsame]
    rcases hget : SortedMap.get (moonFile k) σ.files with - | data
    · rfl
    · exact absurd (mem_present_of_get hget) hk
  · obtain rfl := moonFile_injective hname
    exact absurd hx hk

/-- The two loops of a scan. -/
theorem scan_loops (ecc : Ecc) (σ : Watcher) : ∃ σ', Added (present σ.files) σ σ' ∧
    Dropped (present σ.files) σ'.known σ' (σ.scan ecc) := by
  have hadded := added_foldl ecc (present σ.files) σ
  have hdropped := dropped_foldl (noFiles_added hadded)
    ((present σ.files).foldl (Watcher.orbitNew ecc) σ).known
  exact ⟨_, hadded, hdropped.orbited, hdropped.moonSeeds, hdropped.files⟩

theorem Added.gone_iff {x : UInt64} (h : Added (present σ.files) σ σ') :
    x ∈ σ'.known ∧ x ∉ present σ.files ↔ x ∈ σ.known ∧ x ∉ present σ.files := by
  rw [h.known]
  exact and_congr_left fun hx => or_iff_right hx

/-- **The moons after a scan**: those of before and the new ones that can be loaded, without those
that are remembered and have no file. -/
theorem scan_orbited (ecc : Ecc) (σ : Watcher) (x : UInt64) :
    Orbited (σ.scan ecc).topology x ↔
      (Orbited σ.topology x ∨
        x ∈ present σ.files ∧ x ∉ σ.known ∧ HoldsMoon x (moonData σ.files x)) ∧
      ¬(x ∈ σ.known ∧ x ∉ present σ.files) := by
  obtain ⟨σ', hadded, hdropped⟩ := scan_loops ecc σ
  rw [hdropped.orbited, hadded.orbited, hadded.gone_iff]

/-- **The requests after a scan.** -/
theorem scan_moonSeeds (ecc : Ecc) (σ : Watcher) (s : UInt64 × Address) :
    s ∈ (σ.scan ecc).topology.moonSeeds ↔
      s ∈ σ.topology.moonSeeds ∧ ¬(s.1 ∈ σ.known ∧ s.1 ∉ present σ.files) := by
  obtain ⟨σ', hadded, hdropped⟩ := scan_loops ecc σ
  rw [hdropped.moonSeeds, hadded.moonSeeds, hadded.gone_iff]

/-- **The files after a scan**: the node may have written those of the new moons. -/
theorem scan_get (ecc : Ecc) (σ : Watcher) (name : List Char) :
    SortedMap.get name (σ.scan ecc).files = SortedMap.get name σ.files ∨
      ∃ x ∈ present σ.files, x ∉ σ.known ∧ name = moonFile x ∧
        HoldsMoon x (moonData σ.files x) := by
  obtain ⟨σ', hadded, hdropped⟩ := scan_loops ecc σ
  rw [hdropped.files]
  exact hadded.files name

/-- The id in the name of a file that a scan has written. -/
theorem eq_of_scanName {x : UInt64} (hname : scanName name = some id) (hfile : name = moonFile x) :
    x = id := by
  rw [hfile, scanName_moonFile] at hname
  exact Option.some.inj hname

theorem Converges.inStep (h : Converges ecc σ) : InStep σ where
  orbited name data id hget hname hholds := by
    rcases scan_get ecc σ name with hsame | ⟨x, hx, hnew, hfile, hload⟩
    · have horbited := h.orbited name data id (hsame.trans hget) hname hholds
      exact ((scan_orbited ecc σ id).mp horbited).1.imp_right And.right
    · obtain rfl := eq_of_scanName hname hfile
      exact Or.inr ⟨hnew, hload⟩
  removed id hid hgone horbited := by
    by_contra hnew
    refine h.removed id hid hgone ((scan_orbited ecc σ id).mpr ⟨Or.inl horbited, ?_⟩)
    exact fun hknown => hnew hknown.1
  waiting s hs hknown := by
    by_contra hnot
    obtain ⟨hgone, hmoon⟩ := not_or.mp hnot
    exact ((scan_moonSeeds ecc σ s).mp (h.waiting s hs hmoon)).2 ⟨hknown, hgone⟩

theorem InStep.converges (ecc : Ecc) (h : InStep σ) : Converges ecc σ where
  orbited name data id hget hname hholds := by
    refine (scan_orbited ecc σ id).mpr ?_
    rcases scan_get ecc σ name with hsame | ⟨x, hx, hnew, hfile, hload⟩
    · rw [hsame] at hget
      have hpresent : id ∈ present σ.files := mem_present.mpr ⟨name, data, hget, hname⟩
      refine ⟨(h.orbited name data id hget hname hholds).imp_right ?_, fun hx => hx.2 hpresent⟩
      exact fun hx => ⟨hpresent, hx⟩
    · obtain rfl := eq_of_scanName hname hfile
      exact ⟨Or.inr ⟨hx, hnew, hload⟩, fun hgone => hgone.2 hx⟩
  removed id hid hgone horbited := by
    obtain ⟨hwas | hnow, hkept⟩ := (scan_orbited ecc σ id).mp horbited
    · exact hkept ⟨h.removed id hid hgone hwas, hgone⟩
    · exact hgone hnow.1
  waiting s hs hmoon := by
    refine (scan_moonSeeds ecc σ s).mpr ⟨hs, ?_⟩
    rintro ⟨hknown, hgone⟩
    exact (h.waiting s hs hknown).elim hgone hmoon

/-- **When a scan does what it is for.** -/
theorem converges_iff_inStep (ecc : Ecc) (σ : Watcher) : Converges ecc σ ↔ InStep σ :=
  ⟨fun h => h.inStep, fun h => h.converges ecc⟩

/-! ### Over the life of the service -/

/-- A file that holds no moon, the request of a user, and the file removed again: the second scan
cancels the request. -/
theorem request_cancelled :
    ¬∀ (ecc : Ecc) (files : List (List Char × Bytes)) (t : Topology) (es : List WatchEvent),
      (watcher ecc).Guarded (fun σ e => e = .scan → Converges ecc σ) (.start ecc files t) es := by
  intro h
  have hscan := (h (eccOf true) [] (new (eccOf true) ⟨0x0102030405, []⟩ [])
    [.fileWritten (moonFile 7) [], .scan, .moonPost 7 1, .fileRemoved (moonFile 7),
      .scan]).2.2.2.2.1 rfl
  have hwaiting := hscan.waiting (7, 1) (by decide +kernel) (by decide +kernel)
  revert hwaiting
  decide +kernel

/-- **Exactly the runs whose scans begin in step** have only scans that do what they are for. -/
theorem converges_iff (ecc : Ecc) (files : List (List Char × Bytes)) (t : Topology)
    (es : List WatchEvent) :
    (watcher ecc).Guarded (fun σ e => e = .scan → Converges ecc σ) (.start ecc files t) es ↔
      (watcher ecc).Guarded (fun σ e => e = .scan → InStep σ) (.start ecc files t) es := by
  have hsame : (fun (σ : Watcher) (e : WatchEvent) => e = .scan → Converges ecc σ) =
      fun σ e => e = .scan → InStep σ := by
    funext σ e
    rw [converges_iff_inStep]
  rw [hsame]

end ZGalaxy.MoonsWatcher
