/-
ZGalaxy/ConfigInstall.lean

Which configuration a network has after updates arrived in any order.

What the last chunk of an update completes is parsed and handed to `setConfiguration`, which
looks at the node and the network it is for and not at its timestamp.  Chunks of an old update
are signed as well as those of a new one, may be passed on by anyone, and are duplicates only
as long as the slot of the update has not been given to another.  So the network goes back to
an older configuration whenever one is complete.

Main result: `never_back_iff`, the timestamp never decreases in exactly the runs in which no
update is completed, and no configuration set, that is older than the one installed.
-/
import ZGalaxy.ConfigConcurrency
import ZGalaxy.Network

namespace ZGalaxy

open ByteList

/-- A network and the slots in which its configurations arrive. -/
structure Configured where
  slots : Fin maxIncomingUpdates → IncomingConfigChunk
  network : Network

/-- What changes the configuration of a network. -/
inductive ConfigEvent (Identity : Type*)
  | chunk (call : ConfigChunkCall Identity)
  | setConfiguration (nconf : NetworkConfig)

namespace ConfigReceiver

variable {Identity ι : Type*} (R : ConfigReceiver Identity NetworkConfig) (ownAddress : Address)

/-! ### What is handed over -/

/-- The configurations among the effects of a call. -/
def configs (effects : List (ConfigEffect NetworkConfig)) : List NetworkConfig :=
  effects.filterMap fun
    | .setConfiguration config => some config
    | _ => none

/-- A network that they are set on. -/
def install (n : Network) (configs : List NetworkConfig) : Network :=
  configs.foldl (fun n nconf => (n.setConfiguration ownAddress nconf).2) n

/-- Chunks and configurations in any order. -/
def installing : Machine Configured (ConfigEvent Identity) (ConfigEffect NetworkConfig) where
  step s
    | .chunk call =>
        match R.handleConfigChunk s.slots call with
        | .error _ => (s, [])
        | .ok (slots, effects, _) =>
            (⟨slots, install ownAddress s.network (configs effects)⟩, effects)
    | .setConfiguration nconf => (⟨s.slots, (s.network.setConfiguration ownAddress nconf).2⟩, [])

/-- A network just joined. -/
def start (id : NetworkId) : Configured := ⟨initialSlots R.capacity, Network.initial id⟩

variable {R}

theorem configs_append (v w : List (ConfigEffect NetworkConfig)) :
    configs (v ++ w) = configs v ++ configs w := List.filterMap_append

theorem parses_append (v w : List (ConfigEffect NetworkConfig)) :
    parses (v ++ w) = parses v ++ parses w := List.filterMap_append

/-- What a call hands over is what it parsed. -/
theorem configs_handleConfigChunk {slots slots' : Fin maxIncomingUpdates → IncomingConfigChunk}
    {call : ConfigChunkCall Identity} {effects : List (ConfigEffect NetworkConfig)} {id : BitVec 64}
    (h : R.handleConfigChunk slots call = .ok (slots', effects, id)) :
    configs effects = (parses effects).filterMap fun p => R.fromDictionary p.2 := by
  have hsend : ∀ flood : Bool, configs (if flood then R.propagate call else []) = [] ∧
      parses (if flood then R.propagate call else []) = [] := by
    intro flood
    unfold propagate configs parses
    split_ifs with hflood
    · rw [List.filterMap_map, List.filterMap_map]
      exact ⟨List.filterMap_eq_nil_iff.mpr fun _ _ => rfl,
        List.filterMap_eq_nil_iff.mpr fun _ _ => rfl⟩
    · exact ⟨rfl, rfl⟩
  have hfile : ∀ i c, configs (R.file slots i c).2.1
      = (parses (R.file slots i c).2.1).filterMap fun p => R.fromDictionary p.2 := by
    intro i c
    unfold file
    dsimp only
    split_ifs with hfull hdone
    · rfl
    · rcases hparse : R.fromDictionary (((prepare (slots i) c).add R.width c).copy
        ((prepare (slots i) c).add R.width c).haveBytes [0]).data with - | config
      · simp only [configs, parses, hparse, List.filterMap_append, List.filterMap_cons,
          List.filterMap_nil, List.nil_append]
      · simp only [configs, parses, hparse, List.filterMap_append, List.filterMap_cons,
          List.filterMap_nil, List.nil_append, List.append_nil]
    · rfl
  unfold handleConfigChunk at h
  rcases haccept : R.accept slots call with e | - | ⟨i, c, flood⟩
  · rw [haccept] at h
    cases h
  · rw [haccept] at h
    cases h
    rfl
  · rw [haccept] at h
    obtain ⟨-, rfl, -⟩ : _ ∧ _ ∧ _ := by
      simpa only [Except.map, Except.ok.injEq, Prod.mk.injEq] using h
    rw [configs_append, parses_append, (hsend flood).1, (hsend flood).2]
    exact hfile i c

/-- A chunk moves the slots as it does without a network, and what is parsed is installed. -/
theorem installing_step_chunk (s : Configured) (call : ConfigChunkCall Identity) :
    ((R.installing ownAddress).step s (.chunk call)).1 =
      ⟨(R.answering.step s.slots call).1, install ownAddress s.network
        (((R.answering.step s.slots call).2.flatMap fun o => parses o.1).filterMap
          fun p => R.fromDictionary p.2)⟩ := by
  unfold installing answering
  dsimp only
  rcases h : R.handleConfigChunk s.slots call with e | ⟨slots, effects, id⟩
  · rfl
  · dsimp only
    rw [configs_handleConfigChunk h, List.flatMap_singleton]

/-- A chunk of an update has at most its dictionary parsed. -/
theorem parses_of_delivers {U : ConfigUpdate R} {controller : Identity} {j : ℕ}
    {call : ConfigChunkCall Identity} {slots : Fin maxIncomingUpdates → IncomingConfigChunk}
    {filed : Filed Identity} (hw : 32 ≤ R.width) (hs : R.Signs U.toConfigParts controller)
    (hd : Delivers U.toConfigParts controller j call) (hj : j < U.count)
    (h : Progress U slots filed) (hsized : R.Sized slots) :
    ((R.answering.step slots call).2.flatMap fun o => parses o.1) = [] ∨
      ∃ data, cString data = U.dict ∧
        ((R.answering.step slots call).2.flatMap fun o => parses o.1) = [(U.id, data)] := by
  rcases answering_step hw hs hd hj h hsized with
    ⟨-, hstep⟩ | ⟨-, i, t, effects, id, hstep, -, -, -, hmore, hlast⟩
  · rw [hstep]
    exact Or.inl rfl
  · rw [hstep, List.flatMap_singleton]
    by_cases hdone : AllFiled U (filed ++ [(call, U.chunk j)])
    · obtain ⟨data, hdata, hparses, -⟩ := hlast hdone
      exact Or.inr ⟨data, hdata, hparses⟩
    · exact Or.inl (hmore hdone).1

/-! ### Going back -/

variable (R) in
/-- The timestamp of the configuration does not decrease. -/
def NeverBack (s : Configured) (e : ConfigEvent Identity) : Prop :=
  s.network.config.timestamp ≤ ((R.installing ownAddress).step s e).1.network.config.timestamp

/-- A configuration for this node and network is not older than the installed one. -/
def NotOlder (n : Network) (nconf : NetworkConfig) : Prop :=
  nconf.issuedTo = ownAddress → nconf.networkId = n.id → n.config.timestamp ≤ nconf.timestamp

/-- The call has a dictionary of the update parsed. -/
def Completes (U : ConfigUpdate R) (slots : Fin maxIncomingUpdates → IncomingConfigChunk)
    (call : ConfigChunkCall Identity) : Prop :=
  ∃ data, (U.id, data) ∈ (R.answering.step slots call).2.flatMap fun o => parses o.1

/-- No older configuration is set, and no update with one is completed. -/
def NoneOlder (parse : Bytes → Option NetworkConfig) (Us : ι → ConfigUpdate R)
    (controller : Identity)
    (s : Configured) : ConfigEvent Identity → Prop
  | .setConfiguration nconf => NotOlder ownAddress s.network nconf
  | .chunk call => ∀ u, ∀ j < (Us u).count, Delivers (Us u).toConfigParts controller j call →
      Completes (Us u) s.slots call → ∀ nconf, parse (Us u).dict = some nconf →
        NotOlder ownAddress s.network nconf

variable {ownAddress}

/-- Setting a configuration takes the timestamp back exactly when it is older. -/
theorem timestamp_setConfiguration {n : Network} (hn : n.destroyed = false)
    (nconf : NetworkConfig) :
    n.config.timestamp ≤ (n.setConfiguration ownAddress nconf).2.config.timestamp ↔
      NotOlder ownAddress n nconf := by
  unfold Network.setConfiguration NotOlder
  rw [if_neg (by rw [hn]; exact Bool.false_ne_true)]
  by_cases hto : nconf.issuedTo ≠ ownAddress ∨ nconf.networkId ≠ n.id
  · rw [if_pos hto]
    refine iff_of_true (Int64.le_refl _) fun h h' => ?_
    rcases hto with hto | hto
    · exact absurd h hto
    · exact absurd h' hto
  · obtain ⟨h, h'⟩ := not_or.mp hto
    rw [if_neg hto]
    split_ifs with hsame
    · rw [← hsame]
      exact iff_of_true (Int64.le_refl _) fun _ _ => Int64.le_refl _
    · exact ⟨fun hle _ _ => hle, fun hle => hle (not_not.mp h) (not_not.mp h')⟩

theorem destroyed_setConfiguration (n : Network) (nconf : NetworkConfig) :
    (n.setConfiguration ownAddress nconf).2.destroyed = n.destroyed := by
  unfold Network.setConfiguration
  split_ifs
  · rfl
  · rfl
  · rfl
  · rfl

theorem destroyed_install (n : Network) (configs : List NetworkConfig) :
    (install ownAddress n configs).destroyed = n.destroyed := by
  induction configs generalizing n with
  | nil => rfl
  | cons nconf configs ih => exact (ih _).trans (destroyed_setConfiguration n nconf)

section Runs

variable {parse : Bytes → Option NetworkConfig} {Us : ι → ConfigUpdate R} {controller : Identity}
  {s : Configured} {filed : ι → Filed Identity} {e : ConfigEvent Identity}

/-- The events are chunks of the updates, and configurations. -/
def OfUpdates (Us : ι → ConfigUpdate R) (controller : Identity) (e : ConfigEvent Identity) : Prop :=
  ∀ call, e = .chunk call → ∃ u, ∃ j < (Us u).count, Delivers (Us u).toConfigParts controller j call

/-- One step goes back exactly when it hands over something older. -/
theorem neverBack_iff_noneOlder (hw : 32 ≤ R.width) (hids : Function.Injective fun u => (Us u).id)
    (hs : ∀ u, R.Signs (Us u).toConfigParts controller)
    (hparse : ∀ data, R.fromDictionary data = parse (cString data)) (he : OfUpdates Us controller e)
    (h : Concurrent Us s.slots filed) (hn : s.network.destroyed = false) :
    NeverBack R ownAddress s e ↔ NoneOlder ownAddress parse Us controller s e := by
  rcases e with call | nconf
  swap
  · exact timestamp_setConfiguration hn nconf
  obtain ⟨u, j, hj, hd⟩ := he call rfl
  unfold NeverBack NoneOlder
  rw [installing_step_chunk]
  dsimp only
  rcases parses_of_delivers hw (hs u) hd hj (h.progress u) h.sized with hnil | ⟨data, hdata, hone⟩
  · -- nothing is parsed
    rw [hnil]
    refine iff_of_true (Int64.le_refl _) fun v k hk hd' hcomplete => ?_
    obtain ⟨data, hmem⟩ := hcomplete
    rw [hnil] at hmem
    cases hmem
  · -- the dictionary of the update is parsed
    have honly : ∀ v, ∀ k < (Us v).count, Delivers (Us v).toConfigParts controller k call → v = u :=
      fun v k hk hd' =>
        hids (congrArg ConfigChunk.updateId (hd'.chunk_eq hw (hs v) (hs u) hk hj hd))
    have hcomplete : Completes (Us u) s.slots call :=
      ⟨data, by rw [hone]; exact List.mem_singleton_self _⟩
    rw [hone, List.filterMap_cons, hparse, hdata]
    rcases hconf : parse (Us u).dict with - | nconf
    · refine iff_of_true (Int64.le_refl _) fun v k hk hd' _ nconf hv => ?_
      rw [honly v k hk hd', hconf] at hv
      cases hv
    · refine (timestamp_setConfiguration hn nconf).trans ⟨fun hle v k hk hd' _ nconf' hv => ?_,
        fun hall => hall u j hj hd hcomplete nconf hconf⟩
      rw [honly v k hk hd', hconf] at hv
      obtain rfl := Option.some.inj hv
      exact hle

/-- What the steps keep. -/
theorem installing_step (hw : 32 ≤ R.width) (hids : Function.Injective fun u => (Us u).id)
    (hs : ∀ u, R.Signs (Us u).toConfigParts controller) (he : OfUpdates Us controller e)
    (h : Concurrent Us s.slots filed) (hn : s.network.destroyed = false) :
    (∃ filed', Concurrent Us ((R.installing ownAddress).step s e).1.slots filed') ∧
      ((R.installing ownAddress).step s e).1.network.destroyed = false := by
  rcases e with call | nconf
  · obtain ⟨u, j, hj, hd⟩ := he call rfl
    obtain ⟨filed', h', -⟩ := concurrent_step hw hids hs h hd hj
    rw [installing_step_chunk]
    exact ⟨⟨filed', h'⟩, (destroyed_install _ _).trans hn⟩
  · exact ⟨⟨filed, h⟩, (destroyed_setConfiguration _ _).trans hn⟩

variable {events : List (ConfigEvent Identity)}

theorem guarded_neverBack_iff (hw : 32 ≤ R.width) (hids : Function.Injective fun u => (Us u).id)
    (hs : ∀ u, R.Signs (Us u).toConfigParts controller)
    (hparse : ∀ data, R.fromDictionary data = parse (cString data))
    (hevents : ∀ e ∈ events, OfUpdates Us controller e) (h : Concurrent Us s.slots filed)
    (hn : s.network.destroyed = false) :
    (R.installing ownAddress).Guarded (NeverBack R ownAddress) s events ↔
      (R.installing ownAddress).Guarded (NoneOlder ownAddress parse Us controller) s events := by
  induction events generalizing s filed with
  | nil => exact Iff.rfl
  | cons e events ih =>
      have he := hevents e List.mem_cons_self
      obtain ⟨⟨filed', h'⟩, hn'⟩ := installing_step hw hids hs he h hn
      exact and_congr (neverBack_iff_noneOlder hw hids hs hparse he h hn)
        (ih (fun e' hm => hevents e' (List.mem_cons_of_mem e hm)) h' hn')

/-- **The configuration goes back in time exactly when an older one is completed or set.**  Chunks
of any signed updates arrive in any order, any number of times and from anyone. -/
theorem never_back_iff (hwidth : R.width = 32 ∨ R.width = 64)
    (hids : Function.Injective fun u => (Us u).id)
    (hs : ∀ u, R.Signs (Us u).toConfigParts controller)
    (hparse : ∀ data, R.fromDictionary data = parse (cString data)) (id : NetworkId)
    (hevents : ∀ e ∈ events, OfUpdates Us controller e) :
    (R.installing ownAddress).Guarded (NeverBack R ownAddress) (R.start id) events ↔
      (R.installing ownAddress).Guarded (NoneOlder ownAddress parse Us controller) (R.start id)
        events := by
  have hw : 32 ≤ R.width := by omega
  have hstart : Concurrent Us (R.start id).slots (fun _ => ([] : Filed Identity)) :=
    ⟨sized_initial, fun u => ⟨Or.inr ⟨rfl, fun _ hid => (Us u).id_ne_zero hid.symm⟩⟩⟩
  exact guarded_neverBack_iff hw hids hs hparse hevents hstart rfl

end Runs

/-! ### An old update after a new one -/

/-- Configurations of network 0x100 for node 4, told apart by their timestamps. -/
def datedParse (dict : Bytes) : Option NetworkConfig :=
  some { NetworkConfig.none with
    networkId := 0x100, issuedTo := 4, timestamp := Int64.ofNat (byteAt dict 0).toNat }

/-- A receiver that parses these. -/
def datedReceiver : ConfigReceiver Unit NetworkConfig where
  width := 64
  capacity := 16
  controller := 1
  verify := fun _ _ _ => true
  fromDictionary := fun data => datedParse (cString data)

/-- Updates in one chunk, the first newer than the second. -/
def datedUpdate (k : Fin 2) : ConfigUpdate datedReceiver where
  nwid := 0x100
  id := BitVec.ofNat 64 (k + 1)
  pieces := [[66 - UInt8.ofNat k]]
  sign := fun _ => List.replicate 96 0
  id_ne_zero := by
    revert k
    decide
  length_sign := fun _ => rfl
  piece_ne_nil := by
    revert k
    decide +kernel
  length_piece := by
    revert k
    decide +kernel
  count_le := show 1 ≤ 16 / 1024 + 1 by decide
  fits := show 1 < 16 by decide
  length_dict := show 1 < 2 ^ 32 by norm_num
  no_null := by
    revert k
    decide +kernel
  chunkId_inj := fun i hi j hj _ => by
    have hi : i < 1 := hi
    have hj : j < 1 := hj
    omega

/-- One of them arrives, from another member. -/
def datedArrival (k : Fin 2) : ConfigChunkCall Unit where
  packetId := 9
  source := 5
  chunk := (datedUpdate k).payload 0
  ptr := 0
  destroyed := false
  controllerIdentity := some ()
  members := []

/-- The newer and then the older. -/
def datedEvents : List (ConfigEvent Unit) := [.chunk (datedArrival 0), .chunk (datedArrival 1)]

theorem datedEvents_ofUpdates : ∀ e ∈ datedEvents, OfUpdates datedUpdate () e := by
  have harrival : ∀ k, OfUpdates datedUpdate () (.chunk (datedArrival k)) := by
    intro k call hcall
    obtain rfl := ConfigEvent.chunk.inj hcall
    exact ⟨k, 0, Nat.one_pos, ⟨[], (List.nil_append _).symm, rfl⟩, rfl, rfl⟩
  intro e he
  rcases List.mem_cons.mp he with rfl | he
  · exact harrival 0
  · obtain rfl := List.mem_singleton.mp he
    exact harrival 1

theorem never_back_iff_dated :
    (datedReceiver.installing 4).Guarded (NeverBack datedReceiver 4) (datedReceiver.start 0x100)
        datedEvents ↔
      (datedReceiver.installing 4).Guarded (NoneOlder 4 datedParse datedUpdate ())
        (datedReceiver.start 0x100) datedEvents :=
  never_back_iff (Or.inr rfl) (by decide) (fun _ _ => rfl)
    (fun _ => rfl) 0x100 datedEvents_ofUpdates

/-- **The older configuration replaces the newer.** -/
theorem goes_back : (∀ e ∈ datedEvents, OfUpdates datedUpdate () e) ∧
    ¬(datedReceiver.installing 4).Guarded (NeverBack datedReceiver 4) (datedReceiver.start 0x100)
      datedEvents := by
  refine ⟨datedEvents_ofUpdates, fun h => ?_⟩
  have hrun : (datedReceiver.installing 4).Guarded (NeverBack datedReceiver 4)
      (datedReceiver.start 0x100) ([.chunk (datedArrival 0)] ++ .chunk (datedArrival 1) :: []) := h
  have hback : NeverBack datedReceiver 4 ((datedReceiver.installing 4).runState
      (datedReceiver.start 0x100) [.chunk (datedArrival 0)]) (.chunk (datedArrival 1)) :=
    (Machine.guarded_append_cons.mp hrun).2.1
  have hnew : ((datedReceiver.installing 4).runState (datedReceiver.start 0x100)
      [.chunk (datedArrival 0)]).network.config.timestamp = 66 := by
    decide +kernel
  have hold : ((datedReceiver.installing 4).step ((datedReceiver.installing 4).runState
      (datedReceiver.start 0x100) [.chunk (datedArrival 0)])
        (.chunk (datedArrival 1))).1.network.config.timestamp = 65 := by
    decide +kernel
  unfold NeverBack at hback
  rw [hnew, hold] at hback
  exact absurd hback (by decide)

end ConfigReceiver

end ZGalaxy
