/-
ZGalaxy/DnsService.lean

The service with its dynamic DNS: the main loop, the thread that resolves, and the node.

The two threads of `OneServiceImpl` that matter here meet in a condition variable, on which the
resolver waits without a condition and which the main loop notifies without the mutex, and in the
DNS state under `_zgalaxyDns_m`.  Every access to this state, every notification and every look at
`_zgalaxyDnsRun` is an action of its own, and between any two of them the other thread may act and
the topology of the node may change.  A wait may end without a notification.

What is kept in `Requests` is not in the code: it is what a reader of the code wants to know of the
past.  Left out are the endpoints that names are resolved to, which only go on to the node.
-/
import ZGalaxy.Behaviours
import ZGalaxy.WorldUpdates

namespace ZGalaxy

/-! ### The state -/

/-- `OneServiceImpl::ZgMoon`. -/
structure ZgMoon where
  worldId : UInt64
  domain : String
  lastResolved : ℤ
deriving DecidableEq

/-- The DNS state of the service. -/
structure DnsState where
  /-- `_zgalaxyDomain` -/
  domain : String
  /-- `_zgalaxyMoons` -/
  moons : List ZgMoon
  /-- `_zgalaxyValidateInterval` -/
  validateInterval : ℤ
  /-- `_lastZgalaxyValidate` -/
  lastValidate : ℤ
  /-- `_zgalaxyPlanetId` -/
  planetId : UInt64
  /-- `_zgalaxyLastDnsCheck` -/
  lastDnsCheck : ℤ

/-- What an iteration of the main loop copies of it. -/
structure DnsCopy where
  planetDomain : String
  lastDnsCheck : ℤ
  /-- the moons, with `moonLastResolved` -/
  moons : List (UInt64 × ℤ)

/-- Where the main thread is. -/
inductive MainThread
  | booting
  /-- it has cached the id of the planet -/
  | seeded
  /-- it has started the resolver -/
  | started
  | looping
  | copied (c : DnsCopy)
  | judged (wantResolve : Bool)
  /-- it has left the loop -/
  | leaving
  /-- it has cleared `_zgalaxyDnsRun` -/
  | cleared
  | joining
  | ended

/-- Where the resolver is. -/
inductive Resolver
  | unborn
  /-- at the condition of its loop -/
  | atTop
  /-- about to wait -/
  | entering
  | waiting
  /-- its wait is over -/
  | woken
  /-- it has seen that it is to go on -/
  | starting
  /-- the planet, if there is one, and the moons that are still to be recorded -/
  | resolving (attempt : ℤ) (planet : Bool) (moons : List UInt64)
  | ended
deriving DecidableEq

/-- What has been asked for and what has been attempted. -/
structure Requests where
  /-- there has been a request since the last pass began -/
  owed : Bool
  /-- when the last pass for the planet began -/
  planetAttempt : Option ℤ
  /-- when the last pass for a moon began -/
  moonAttempt : UInt64 → Option ℤ

/-- The service. -/
structure Service where
  main : MainThread
  resolver : Resolver
  /-- `_zgalaxyDnsRun` -/
  run : Bool
  dns : DnsState
  topology : Topology
  requests : Requests

/-! ### Reachability -/

/-- The root has a peer with a path that is alive. -/
def Topology.rootAlive (t : Topology) (hasAlivePath : Address → Bool) (r : Root) : Bool :=
  (t.peers.get r.identity.address).isSome && hasAlivePath r.identity.address

/-- The world with an id, as `isWorldReachable` looks it up. -/
def Topology.worldOf (t : Topology) (worldId : UInt64) : Option World :=
  if t.planet.id = worldId then some t.planet else t.moons.find? fun m => m.id == worldId

/-- `Topology::isWorldReachable`. -/
def Topology.isWorldReachable (t : Topology) (worldId : UInt64) (hasAlivePath : Address → Bool) :
    Bool :=
  (t.worldOf worldId).any fun w => w.roots.any (t.rootAlive hasAlivePath)

/-! ### An iteration of the main loop -/

/-- `ZT_ZGALAXY_DNS_RETRY_INTERVAL`. -/
def dnsRetryInterval : ℤ := 5000

/-- The cadence of validation is due. -/
def DnsState.validationDue (d : DnsState) (now : ℤ) : Bool :=
  0 < d.validateInterval && d.validateInterval ≤ now - d.lastValidate

/-- The fallback of the planet. -/
def Service.planetFallback (s : Service) (c : DnsCopy) (now : ℤ) (hasAlivePath : Address → Bool) :
    Bool :=
  c.planetDomain != "" && dnsRetryInterval ≤ now - c.lastDnsCheck &&
    !s.topology.isWorldReachable s.dns.planetId hasAlivePath

/-- The fallback of a moon. -/
def Service.moonFallback (s : Service) (now : ℤ) (hasAlivePath : Address → Bool) (m : UInt64 × ℤ) :
    Bool :=
  dnsRetryInterval ≤ now - m.2 && !s.topology.isWorldReachable m.1 hasAlivePath

/-- Something is configured. -/
def DnsCopy.active (c : DnsCopy) : Bool := c.planetDomain != "" || !c.moons.isEmpty

/-- `wantResolve`. -/
def Service.wantResolve (s : Service) (c : DnsCopy) (now : ℤ) (hasAlivePath : Address → Bool) :
    Bool :=
  c.active && (s.dns.validationDue now || s.planetFallback c now hasAlivePath ||
    c.moons.any (s.moonFallback now hasAlivePath))

/-- Validation is noted as done when it is asked for. -/
def DnsState.validated (d : DnsState) (c : DnsCopy) (now : ℤ) : DnsState :=
  if c.active && d.validationDue now then { d with lastValidate := now } else d

/-- What an iteration copies. -/
def DnsState.copy (d : DnsState) : DnsCopy :=
  ⟨d.domain, d.lastDnsCheck, d.moons.map fun m => (m.worldId, m.lastResolved)⟩

/-! ### A pass of the resolver -/

/-- The first moon with the id has been attempted. -/
def touchMoon (worldId : UInt64) (attempt : ℤ) : List ZgMoon → List ZgMoon
  | [] => []
  | m :: moons =>
      if m.worldId = worldId then { m with lastResolved := attempt } :: moons
      else m :: touchMoon worldId attempt moons

/-- A pass begins. -/
def Requests.begun (r : Requests) (d : DnsState) (now : ℤ) : Requests where
  owed := false
  planetAttempt := if d.domain = "" then r.planetAttempt else some now
  moonAttempt id := if id ∈ d.moons.map ZgMoon.worldId then some now else r.moonAttempt id

/-- A request is made. -/
def Requests.asked (r : Requests) : Requests := { r with owed := true }

/-! ### Actions -/

/-- What is done. -/
inductive ServiceAction
  /-- the id of the planet is cached -/
  | seed
  /-- the resolver is started -/
  | launch
  /-- the main thread asks for a pass -/
  | request
  /-- it sees that there is none to ask for -/
  | pass
  | copy
  | judge (now : ℤ) (hasAlivePath : Address → Bool)
  | quit
  /-- `_zgalaxyDnsRun` is cleared -/
  | clear
  /-- the notification at the end -/
  | farewell
  | join
  /-- `readLocalSettings`, one of the fields that it sets -/
  | setDomain (domain : String)
  /-- the times of the moons that it reads are not initialised -/
  | setMoons (moons : List ZgMoon)
  | setValidateInterval (ms : ℤ)
  /-- the topology of the node is called -/
  | node (e : TopologyEvent)
  /-- the resolver looks at `_zgalaxyDnsRun` in the condition of its loop -/
  | look
  | wait
  /-- a wait ends without a notification -/
  | wake
  /-- the resolver looks at `_zgalaxyDnsRun` behind its wait -/
  | check
  /-- a pass begins with copying what there is to resolve -/
  | begin (now : ℤ)
  /-- what has been attempted is recorded -/
  | record

/-- `std::condition_variable::notify_one`. -/
def Resolver.notified : Resolver → Resolver
  | .waiting => .woken
  | r => r

namespace Service

variable (s : Service)

/-- The main thread notifies the resolver. -/
def notify (main : MainThread) : Service :=
  { s with main := main, resolver := s.resolver.notified }

/-- A request for a pass. -/
def request : Option Service :=
  match s.main with
  | .started =>
      if s.dns.domain = "" then none
      else some { s.notify .looping with requests := s.requests.asked }
  | .judged true => some { s.notify .looping with requests := s.requests.asked }
  | _ => none

/-- No request. -/
def pass : Option Service :=
  match s.main with
  | .started => if s.dns.domain = "" then some { s with main := .looping } else none
  | .judged false => some { s with main := .looping }
  | _ => none

/-- The settings are only read where the main thread is at the top of its loop or before it. -/
def configure (dns : DnsState) : Option Service :=
  match s.main with
  | .booting => some { s with dns := dns }
  | .looping => some { s with dns := dns }
  | _ => none

/-- What the main thread does. -/
def mainStep : ServiceAction → Option Service
  | .seed =>
      match s.main with
      | .booting =>
          some { s with main := .seeded, dns := { s.dns with planetId := s.topology.planet.id } }
      | _ => none
  | .launch =>
      match s.main with
      | .seeded => some { s with main := .started, run := true, resolver := .atTop }
      | _ => none
  | .request => s.request
  | .pass => s.pass
  | .copy =>
      match s.main with
      | .looping => some { s with main := .copied s.dns.copy }
      | _ => none
  | .judge now hasAlivePath =>
      match s.main with
      | .copied c =>
          some { s with
            main := .judged (s.wantResolve c now hasAlivePath)
            dns := s.dns.validated c now }
      | _ => none
  | .quit =>
      match s.main with
      | .looping => some { s with main := .leaving }
      | _ => none
  | .clear =>
      match s.main with
      | .leaving => some { s with main := .cleared, run := false }
      | _ => none
  | .farewell =>
      match s.main with
      | .cleared => some (s.notify .joining)
      | _ => none
  | .join =>
      match s.main, s.resolver with
      | .joining, .ended => some { s with main := .ended }
      | _, _ => none
  | .setDomain domain => s.configure { s.dns with domain := domain }
  | .setMoons moons => s.configure { s.dns with moons := moons }
  | .setValidateInterval ms => s.configure { s.dns with validateInterval := ms }
  | _ => none

/-- A step in recording what has been attempted. -/
def record : Option Service :=
  match s.resolver with
  | .resolving attempt true moons =>
      some { s with
        resolver := .resolving attempt false moons
        dns := { s.dns with lastDnsCheck := attempt } }
  | .resolving attempt false (id :: moons) =>
      some { s with
        resolver := .resolving attempt false moons
        dns := { s.dns with moons := touchMoon id attempt s.dns.moons } }
  | .resolving _ false [] => some { s with resolver := .atTop }
  | _ => none

/-- What the resolver does. -/
def resolverStep : ServiceAction → Option Service
  | .look =>
      match s.resolver with
      | .atTop => some { s with resolver := if s.run then .entering else .ended }
      | _ => none
  | .wait =>
      match s.resolver with
      | .entering => some { s with resolver := .waiting }
      | _ => none
  | .wake =>
      match s.resolver with
      | .waiting => some { s with resolver := .woken }
      | _ => none
  | .check =>
      match s.resolver with
      | .woken => some { s with resolver := if s.run then .starting else .ended }
      | _ => none
  | .begin now =>
      match s.resolver with
      | .starting =>
          some { s with
            resolver := .resolving now (s.dns.domain != "") (s.dns.moons.map ZgMoon.worldId)
            requests := s.requests.begun s.dns now }
      | _ => none
  | .record => s.record
  | _ => none

end Service

/-- One action. -/
def Service.step (ecc : Ecc) (s : Service) : ServiceAction → Option Service
  | .node e => some { s with topology := ((ZGalaxy.topology ecc).step s.topology e).1 }
  | a => (s.mainStep a).or (s.resolverStep a)

/-- Before anything has happened. -/
structure Service.Booting (s : Service) : Prop where
  main : s.main = .booting
  resolver : s.resolver = .unborn
  run : s.run = false

/-! ### What a step can do -/

/-- The actions that set a field of the configuration. -/
inductive Configures (d : DnsState) : ServiceAction → DnsState → Prop
  | domain (domain : String) : Configures d (.setDomain domain) { d with domain := domain }
  | moons (moons : List ZgMoon) : Configures d (.setMoons moons) { d with moons := moons }
  | interval (ms : ℤ) : Configures d (.setValidateInterval ms) { d with validateInterval := ms }

/-- The recording of what has been attempted. -/
inductive Records (d : DnsState) : Resolver → Resolver → DnsState → Prop
  | planet (attempt : ℤ) (moons : List UInt64) :
      Records d (.resolving attempt true moons) (.resolving attempt false moons)
        { d with lastDnsCheck := attempt }
  | moon (attempt : ℤ) (id : UInt64) (moons : List UInt64) :
      Records d (.resolving attempt false (id :: moons)) (.resolving attempt false moons)
        { d with moons := touchMoon id attempt d.moons }
  | ended (attempt : ℤ) : Records d (.resolving attempt false []) .atTop d

/-- What an action makes of the service. -/
inductive Does (ecc : Ecc) (s : Service) : ServiceAction → Service → Prop
  | seeds (h : s.main = .booting) : Does ecc s .seed
      { s with main := .seeded, dns := { s.dns with planetId := s.topology.planet.id } }
  | launches (h : s.main = .seeded) : Does ecc s .launch
      { s with main := .started, run := true, resolver := .atTop }
  | requests (h : s.main = .started ∨ s.main = .judged true) : Does ecc s .request
      { s.notify .looping with requests := s.requests.asked }
  | passes (h : s.main = .started ∨ s.main = .judged false) : Does ecc s .pass
      { s with main := .looping }
  | copies (h : s.main = .looping) : Does ecc s .copy { s with main := .copied s.dns.copy }
  | judges (now : ℤ) (hasAlivePath : Address → Bool) (c : DnsCopy) (h : s.main = .copied c) :
      Does ecc s (.judge now hasAlivePath)
        { s with
          main := .judged (s.wantResolve c now hasAlivePath)
          dns := s.dns.validated c now }
  | quits (h : s.main = .looping) : Does ecc s .quit { s with main := .leaving }
  | clears (h : s.main = .leaving) : Does ecc s .clear { s with main := .cleared, run := false }
  | parts (h : s.main = .cleared) : Does ecc s .farewell (s.notify .joining)
  | joins (h : s.main = .joining) : Does ecc s .join { s with main := .ended }
  | configures (h : s.main = .booting ∨ s.main = .looping) (a : ServiceAction) (d : DnsState)
      (hd : Configures s.dns a d) : Does ecc s a { s with dns := d }
  | node (e : TopologyEvent) : Does ecc s (.node e)
      { s with topology := ((topology ecc).step s.topology e).1 }
  | looks (h : s.resolver = .atTop) : Does ecc s .look
      { s with resolver := if s.run then .entering else .ended }
  | waits (h : s.resolver = .entering) : Does ecc s .wait { s with resolver := .waiting }
  | wakes (h : s.resolver = .waiting) : Does ecc s .wake { s with resolver := .woken }
  | checks (h : s.resolver = .woken) : Does ecc s .check
      { s with resolver := if s.run then .starting else .ended }
  | begins (now : ℤ) (h : s.resolver = .starting) : Does ecc s (.begin now)
      { s with
        resolver := .resolving now (s.dns.domain != "") (s.dns.moons.map ZgMoon.worldId)
        requests := s.requests.begun s.dns now }
  | records (r : Resolver) (d : DnsState) (h : Records s.dns s.resolver r d) : Does ecc s .record
      { s with resolver := r, dns := d }

namespace Service

variable {ecc : Ecc} {s s' : Service}

theorem does_request (h : s.request = some s') : Does ecc s .request s' := by
  unfold request at h
  split at h
  · rename_i hmain
    split_ifs at h
    exact Option.some.inj h ▸ .requests (Or.inl hmain)
  · rename_i hmain
    exact Option.some.inj h ▸ .requests (Or.inr hmain)
  · cases h

theorem does_pass (h : s.pass = some s') : Does ecc s .pass s' := by
  unfold pass at h
  split at h
  · rename_i hmain
    split_ifs at h
    exact Option.some.inj h ▸ .passes (Or.inl hmain)
  · rename_i hmain
    exact Option.some.inj h ▸ .passes (Or.inr hmain)
  · cases h

theorem does_configure {a : ServiceAction} {d : DnsState} (hd : Configures s.dns a d)
    (h : s.configure d = some s') : Does ecc s a s' := by
  unfold configure at h
  split at h
  · rename_i hmain
    exact Option.some.inj h ▸ .configures (Or.inl hmain) a d hd
  · rename_i hmain
    exact Option.some.inj h ▸ .configures (Or.inr hmain) a d hd
  · cases h

theorem does_record (h : s.record = some s') : Does ecc s .record s' := by
  unfold record at h
  split at h
  · rename_i attempt moons hresolver
    exact Option.some.inj h ▸ .records _ _ (hresolver ▸ .planet attempt moons)
  · rename_i attempt id moons hresolver
    exact Option.some.inj h ▸ .records _ _ (hresolver ▸ .moon attempt id moons)
  · rename_i attempt hresolver
    exact Option.some.inj h ▸ .records _ _ (hresolver ▸ .ended attempt)
  · cases h

theorem does_main {a : ServiceAction} (h : s.mainStep a = some s') : Does ecc s a s' := by
  unfold mainStep at h
  split at h
  · split at h
    · rename_i hmain
      exact Option.some.inj h ▸ .seeds hmain
    · cases h
  · split at h
    · rename_i hmain
      exact Option.some.inj h ▸ .launches hmain
    · cases h
  · exact does_request h
  · exact does_pass h
  · split at h
    · rename_i hmain
      exact Option.some.inj h ▸ .copies hmain
    · cases h
  · split at h
    · rename_i now hasAlivePath _ c hmain
      exact Option.some.inj h ▸ .judges now hasAlivePath c hmain
    · cases h
  · split at h
    · rename_i hmain
      exact Option.some.inj h ▸ .quits hmain
    · cases h
  · split at h
    · rename_i hmain
      exact Option.some.inj h ▸ .clears hmain
    · cases h
  · split at h
    · rename_i hmain
      exact Option.some.inj h ▸ .parts hmain
    · cases h
  · split at h
    · rename_i hmain _
      exact Option.some.inj h ▸ .joins hmain
    · cases h
  · exact does_configure (.domain _) h
  · exact does_configure (.moons _) h
  · exact does_configure (.interval _) h
  · cases h

theorem does_resolver {a : ServiceAction} (h : s.resolverStep a = some s') : Does ecc s a s' := by
  unfold resolverStep at h
  split at h
  · split at h
    · rename_i hresolver
      exact Option.some.inj h ▸ .looks hresolver
    · cases h
  · split at h
    · rename_i hresolver
      exact Option.some.inj h ▸ .waits hresolver
    · cases h
  · split at h
    · rename_i hresolver
      exact Option.some.inj h ▸ .wakes hresolver
    · cases h
  · split at h
    · rename_i hresolver
      exact Option.some.inj h ▸ .checks hresolver
    · cases h
  · split at h
    · rename_i now _ hresolver
      exact Option.some.inj h ▸ .begins now hresolver
    · cases h
  · exact does_record h
  · cases h

/-- **What a step can do.** -/
theorem step_does {a : ServiceAction} (h : s.step ecc a = some s') : Does ecc s a s' := by
  have hparts : (s.mainStep a).or (s.resolverStep a) = some s' → Does ecc s a s' := by
    intro h
    rcases Option.or_eq_some_iff.mp h with h | ⟨-, h⟩
    · exact does_main h
    · exact does_resolver h
  cases a with
  | node e => exact Option.some.inj h ▸ .node e
  | _ => exact hparts h

end Service

end ZGalaxy
