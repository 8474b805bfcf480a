import Haentgl.Lib.Runs
import Haentgl.Server.Opening

/-! # The start of the proxy

`main` reads the options and the router from the command line and serves clients from then on; a task
beside it tells the pools of the static backends, one after the other. An option that is not known stops
the process, and a pool that cannot be built stops the task.

A client that comes in time finds a pool of the backend that is drawn for it, whoever it says it is, and
one that comes before the backend's pool is told so: `static_serves`. -/

namespace Haentgl.Server.Startup

open Haentgl.Lib.Parse Haentgl.Lib.Program Haentgl.Lib.Runs Haentgl.Protocol.Io Haentgl.Protocol.Packets
open Haentgl.Protocol.Basic Haentgl.Protocol.Handshake Haentgl.Backend.Keys Haentgl.Backend.Manager
open Haentgl.Server.Links Haentgl.Server.Forwarders Haentgl.Server.Proxy Haentgl.Server.Parties Haentgl.Server.Tenants
open Haentgl.Server.Opening

/-! ### The command line -/

inductive BackendConfigArgs
  | backend (backendAddr : String)
  | cluster (namespaceName : String) (clusterName : Option String)
  deriving DecidableEq, Repr

/-- The arguments that the router and the pools depend on. -/
structure ProxyServerArgs where
  router : Option String
  balance : Option String
  cpAddr : Option String
  backend : Option BackendConfigArgs
  deriving DecidableEq, Repr

inductive BackendRouterType
  | static
  | syncWithCp
  deriving DecidableEq, Repr

def BackendRouterType.fromStr : String → Option BackendRouterType
  | "static" => some .static
  | "sync-with-cp" => some .syncWithCp
  | _ => none

def loadBalancerFromStr : String → Option BackendLoadBalancerType
  | "random" => some .random
  | "p2c" => some .p2c
  | _ => none

/-- What the manager is built with; the size of a pool is the one of `BackendPoolConfig::default`. -/
structure BackendManagerOptions where
  staticRouter : Bool
  balanceType : BackendLoadBalancerType
  maxSize : ℕ
  deriving DecidableEq, Repr

namespace ProxyServerArgs

/-- No character but the capitals of ASCII becomes a letter of a balancer's name. -/
def balancerType (args : ProxyServerArgs) : String :=
  match args.balance with
  | some balance => balance.toLower
  | none => "random"

def newBackendOpts (args : ProxyServerArgs) : Except Stop BackendManagerOptions := do
  let staticRouter := match args.router with
    | some router => router.toLower = "static"
    | none => true
  let balanceType ← orStop (loadBalancerFromStr args.balancerType)
  return ⟨staticRouter, balanceType, 50⟩

def routerType (args : ProxyServerArgs) : Except Stop (Option BackendRouterType) :=
  match args.router with
  | some router => do
    let routerType ← orStop (BackendRouterType.fromStr router)
    return some routerType
  | none => return none

/-- `TEST_BACKEND_ADDRS` -/
def testBackendAddrs : List BackendInstance :=
  [⟨⟨"_NONE_", "_NONE_", "_NONE_", "_NONE_"⟩, "127.0.0.1:3315", .ready, ⟨"", ""⟩⟩]

def staticBackendList (args : ProxyServerArgs) : List BackendInstance :=
  match args.backend with
  | some (.backend addrs) => (addrs.toList.splitOn ',').map fun addr =>
    ⟨⟨"", "", "", ""⟩, String.ofList addr, .ready, ⟨"", ""⟩⟩
  | _ => testBackendAddrs

end ProxyServerArgs

/-! ### `main` -/

/-- `new_backend_router`. The discovery starts with the address of the control plane, of which `isUri`
says whether it is a URI, and without tenants. -/
def newBackendRouter (isUri : String → Bool) (args : ProxyServerArgs) : Except Stop Router := do
  match ← args.routerType with
  | some .syncWithCp =>
    let topologySrvAddr ← orStop args.cpAddr
    if isUri topologySrvAddr then return .sync ∅ else .error .panic
  | some .static | none => return .static args.staticBackendList

def isStatic : Router → Bool
  | .static _ => true
  | .sync _ => false

/-- The server as `main` leaves it to its clients, with the variable `PROXY_SYNC_ROUTER`. -/
structure HaentglServer where
  options : BackendManagerOptions
  router : Router
  proxySyncRouter : Option String

/-- `main`; `env` is the variable before. -/
def main (isUri : String → Bool) (env : Option String) (args : ProxyServerArgs) :
    Except Stop HaentglServer := do
  let options ← args.newBackendOpts
  let router ← newBackendRouter isUri args
  return ⟨options, router, if isStatic router then env else some "true"⟩

/-- Whether a client's user is read as a tenant's. -/
def HaentglServer.isNotStatic (srv : HaentglServer) : Bool := srv.proxySyncRouter = some "true"

/-! ### The pools of the static backends -/

/-- `prepare_backend_conn_pool` on a static router: the backends whose pools are not built yet. -/
structure Preparation where
  waiting : List BackendInstance
  mgr : BackendMgr
  panicked : Bool

/-- `build` is what the builder of the next pool returns; an error is unwrapped. -/
def prepare (s : Preparation) (build : Except String Unit) : Option Preparation :=
  match s.panicked, s.waiting with
  | false, be :: waiting =>
    match initBackendPool build be s.mgr with
    | (.ok (), m) => some ⟨waiting, m, false⟩
    | (.error _, m) => some ⟨waiting, m, true⟩
  | _, _ => none

def preparation (backendAddrs : List BackendInstance) : System Preparation (Except String Unit) :=
  ⟨⟨backendAddrs, .new, false⟩, prepare⟩

/-- The backends whose pools are there. -/
def prepared (backendAddrs : List BackendInstance) (builds : List (Except String Unit)) :
    List BackendInstance := backendAddrs.take (builds.countP Except.isOk)

theorem staticBackendList_ne_nil (args : ProxyServerArgs) : args.staticBackendList ≠ [] := by
  unfold ProxyServerArgs.staticBackendList
  split
  · rw [Ne, List.map_eq_nil_iff]
    exact List.splitOnP_ne_nil _ _
  · exact List.cons_ne_nil _ _

theorem status_of_mem_staticBackendList {args : ProxyServerArgs} :
    ∀ be ∈ args.staticBackendList, be.status = .ready := by
  unfold ProxyServerArgs.staticBackendList
  split
  · intro be hbe
    obtain ⟨addr, -, rfl⟩ := List.mem_map.mp hbe
    rfl
  · intro be hbe
    rw [List.mem_singleton.mp hbe]

/-- One more pool is one more backend. -/
theorem prepared_snoc {backendAddrs waiting : List BackendInstance} {builds : List (Except String Unit)}
    {be : BackendInstance} (h : prepared backendAddrs builds ++ be :: waiting = backendAddrs) :
    prepared backendAddrs (builds ++ [.ok ()]) = prepared backendAddrs builds ++ [be] := by
  have hlen : (prepared backendAddrs builds).length = builds.countP Except.isOk := by
    have hall := congrArg List.length h
    rw [List.length_append, List.length_cons] at hall
    rw [prepared, List.length_take] at hall ⊢
    omega
  have hcount : (builds ++ [Except.ok ()]).countP Except.isOk = builds.countP Except.isOk + 1 := by
    rw [List.countP_append]
    rfl
  rw [prepared, hcount, ← hlen]
  generalize prepared backendAddrs builds = done at h ⊢
  subst h
  simp [List.take_append]

theorem prepared_error (backendAddrs : List BackendInstance) (builds : List (Except String Unit))
    (e : String) : prepared backendAddrs (builds ++ [.error e]) = prepared backendAddrs builds := by
  rw [prepared, List.countP_append]
  rfl

/-- The task goes through the backends in turn until a pool cannot be built. -/
theorem preparation_spec {backendAddrs : List BackendInstance}
    (hready : ∀ be ∈ backendAddrs, be.status = .ready) {builds : List (Except String Unit)}
    {s : Preparation} (h : (preparation backendAddrs).run builds = some s) :
    s.mgr = notified (prepared backendAddrs builds) ∧
      (s.panicked = false → prepared backendAddrs builds ++ s.waiting = backendAddrs) := by
  refine System.induction (motive := fun builds s => s.mgr = notified (prepared backendAddrs builds) ∧
    (s.panicked = false → prepared backendAddrs builds ++ s.waiting = backendAddrs)) ⟨rfl, fun _ => rfl⟩ ?_ h
  rintro builds ⟨waiting, m, panicked⟩ build s' - ⟨rfl, hw⟩ hs
  simp only [preparation, prepare] at hs
  split at hs
  · rename_i be waiting
    have hsplit : prepared backendAddrs builds ++ be :: waiting = backendAddrs := hw rfl
    have hbe : be.status = .ready := hready be (hsplit ▸ List.mem_append_right _ List.mem_cons_self)
    cases build with
    | ok u =>
      have hsnoc : prepared backendAddrs (builds ++ [.ok u]) = _ := prepared_snoc hsplit
      rw [hsnoc, notified_append]
      simp only [initBackendPool, hbe] at hs ⊢
      cases hs
      exact ⟨rfl, fun _ => by rw [List.append_assoc]; exact hsplit⟩
    | error e =>
      rw [prepared_error]
      simp only [initBackendPool, hbe] at hs
      cases hs
      exact ⟨rfl, fun hp => by cases hp⟩
  · cases hs

/-! ### The clients -/

/-- The pool of a backend, if it has been built. -/
theorem poolOf_static {backendAddrs done : List BackendInstance} {be : BackendInstance} {draw : ℕ}
    (hbe : backendAddrs[draw % backendAddrs.length]? = some be) (hready : be.status = .ready)
    (lb : BackendLoadBalancerType) (k : TenantKey) :
    (be ∈ done → ∃ pool, poolOf (notified done) (.static backendAddrs) lb draw k = .ok pool ∧
      (notified done).pools[pool]? = some ⟨be, false⟩) ∧
    (be ∉ done → poolOf (notified done) (.static backendAddrs) lb draw k =
      .error (.io ⟨.notConnected, "no backend_addr found"⟩)) := by
  have hne : backendAddrs.length ≠ 0 := by
    intro h0
    rw [List.length_eq_zero_iff.mp h0] at hbe
    cases hbe
  have hsel : (Router.static backendAddrs).selector draw k lb = .ok be := by
    simp only [Router.selector, staticSelector, balance, if_neg hne]
    show orStop backendAddrs[draw % backendAddrs.length]? = _
    rw [hbe]
    rfl
  constructor
  · intro hdone
    have hmem : be ∈ (notified done).beConnPool := (mem_notified done be).mpr ⟨hdone, hready⟩
    obtain ⟨pool, hlookup⟩ := Option.isSome_iff_exists.mp (AList.lookup_isSome.mpr hmem)
    refine ⟨pool, ?_, pool_of_lookup hlookup⟩
    simp only [poolOf, hsel, bind, Except.bind, hlookup]
    rfl
  · intro hdone
    have hnone : (notified done).beConnPool.lookup be = none :=
      AList.lookup_eq_none.mpr fun hmem => hdone ((mem_notified done be).mp hmem).1
    simp only [poolOf, hsel, bind, Except.bind, hnone]

theorem router_of_main {isUri : String → Bool} {env : Option String} {args : ProxyServerArgs}
    {srv : HaentglServer} (h : main isUri env args = .ok srv) (hs : isStatic srv.router = true) :
    srv.router = .static args.staticBackendList ∧ srv.proxySyncRouter = env := by
  obtain ⟨options, -, h⟩ := bind_eq_ok.mp h
  obtain ⟨router, hr, h⟩ := bind_eq_ok.mp h
  cases h
  refine ⟨?_, if_pos hs⟩
  obtain ⟨rt, -, hr⟩ := bind_eq_ok.mp hr
  rcases rt with _ | (_ | _)
  · cases hr
    rfl
  · cases hr
    rfl
  · obtain ⟨addr, -, hr⟩ := bind_eq_ok.mp hr
    split_ifs at hr
    cases hr
    cases hs

/-- **Static backends.** A client that sends a response of any shape, under whatever name, while the pools
are being built gets a pool of the backend that is drawn for it if this has one by then, and otherwise an
error. The backend is one of the command line. -/
theorem static_serves {isUri : String → Bool} {env : Option String} {args : ProxyServerArgs}
    {srv : HaentglServer} (hmain : main isUri env args = .ok srv) (hstatic : isStatic srv.router = true)
    (henv : env ≠ some "true") {builds : List (Except String Unit)} {s : Preparation}
    (hrun : (preparation args.staticBackendList).run builds = some s) {R : Respond} {S : Setup}
    (hS : S.isNotStatic = srv.isNotStatic) {c : Conn World} {msg : Message} {user : Option Bytes}
    (hw : c.net.writesLeft ≠ some 0) (hmsg : c.net.toCome.head? = some msg)
    (hresponse : Response S.mc.known msg.2 user) (draw : ℕ) :
    ∃ be, args.staticBackendList[draw % args.staticBackendList.length]? = some be ∧
      (be ∈ prepared args.staticBackendList builds → ∃ pool,
        ((login (net R) S s.mgr srv.router srv.options.balanceType draw).run c).1 = .ok pool ∧
          s.mgr.pools[pool]? = some ⟨be, false⟩) ∧
      (be ∉ prepared args.staticBackendList builds →
        ((login (net R) S s.mgr srv.router srv.options.balanceType draw).run c).1 =
          .error (.io ⟨.notConnected, "no backend_addr found"⟩)) := by
  obtain ⟨hrouter, hsync⟩ := router_of_main hmain hstatic
  obtain ⟨hmgr, -⟩ := preparation_spec status_of_mem_staticBackendList hrun
  have hlt : draw % args.staticBackendList.length < args.staticBackendList.length :=
    Nat.mod_lt _ (List.length_pos_iff.mpr (staticBackendList_ne_nil args))
  have hbe := List.getElem?_eq_getElem hlt
  have hready := status_of_mem_staticBackendList _ (List.getElem_mem hlt)
  -- nobody names a tenant
  have hnames : Names S user testTenantKey := by
    have hoff : S.isNotStatic = false := by
      rw [hS, HaentglServer.isNotStatic, hsync]
      exact decide_eq_false henv
    rw [Names, if_neg (by simp [hoff])]
  obtain ⟨r, h, hp, rfl, ht⟩ := (clientHandshakeResponse_iff _ _ _).mpr hresponse
  have hlogin : ((login (net R) S s.mgr srv.router srv.options.balanceType draw).run c).1 =
      poolOf s.mgr srv.router srv.options.balanceType draw testTenantKey := by
    rw [run_login hw hmsg, hp]
    simp only
    rw [connectToBackend_eq, (tenantOf_iff ht testTenantKey).mpr hnames]
    rfl
  rw [hlogin, hrouter, hmgr]
  exact ⟨_, hbe, poolOf_static hbe hready _ _⟩

/-- Two backends, drawn at random. -/
def twoBackends : ProxyServerArgs := ⟨none, none, none, some (.backend "10.0.0.1:3306,10.0.0.2:3306")⟩

/-- A client that logs in as `a.b`. -/
def earlyClient : Conn World :=
  ⟨0, 0, ⟨[(1, shopLogin.bytes [0x61, 0x2e, 0x62])], none, none, [], .handshake, 0, [], []⟩⟩

theorem response_earlyClient : Response Setup.plain.mc.known (shopLogin.bytes [0x61, 0x2e, 0x62])
    (some [0x61, 0x2e, 0x62]) := by
  have hread : shopLogin.Readable := by
    refine ⟨fun _ => by decide, fun _ => by decide, fun _ kv hkv => ?_⟩
    obtain rfl := List.mem_singleton.mp hkv
    exact ⟨⟨"_os", by decide⟩, ⟨"Linux", by decide⟩⟩
  have hknown : Defined Setup.plain.mc.known := defined_allOnes
  have hne : ([0x61, 0x2e, 0x62] : Bytes) ≠ [] := by decide
  have hnul : (0 : UInt8) ∉ ([0x61, 0x2e, 0x62] : Bytes) := by decide
  obtain ⟨r, h, hr⟩ := (readable_iff hknown shopLogin hne hnul).mpr hread
  have hn := username_of_bytes hknown shopLogin hne hnul hr
  exact (clientHandshakeResponse_iff _ _ _).mp ⟨r, h, hr, hn, clientHandshakeResponse_tenantKey hr⟩

def firstBackend : BackendInstance := ⟨⟨"", "", "", ""⟩, "10.0.0.1:3306", .ready, ⟨"", ""⟩⟩

def secondBackend : BackendInstance := { firstBackend with addr := "10.0.0.2:3306" }

theorem staticBackendList_twoBackends :
    twoBackends.staticBackendList = [firstBackend, secondBackend] := by decide

/-- With one pool built, the client gets it if the first backend is drawn. -/
theorem static_serves_early : ∃ srv s, main (fun _ => true) none twoBackends = .ok srv ∧
    (preparation twoBackends.staticBackendList).run [.ok ()] = some s ∧
    (∃ pool, ((login (net silent) Setup.plain s.mgr srv.router srv.options.balanceType 4).run
      earlyClient).1 = .ok pool) ∧
    ((login (net silent) Setup.plain s.mgr srv.router srv.options.balanceType 7).run earlyClient).1 =
      .error (.io ⟨.notConnected, "no backend_addr found"⟩) := by
  have hmain : main (fun _ => true) none twoBackends =
      .ok ⟨⟨true, .random, 50⟩, .static twoBackends.staticBackendList, none⟩ := by rfl
  obtain ⟨s, hrun⟩ : ∃ s, (preparation twoBackends.staticBackendList).run [.ok ()] = some s := ⟨_, rfl⟩
  have hw : earlyClient.net.writesLeft ≠ some 0 := by decide
  have hmsg : earlyClient.net.toCome.head? = some (1, shopLogin.bytes [0x61, 0x2e, 0x62]) := rfl
  have hserves := static_serves hmain rfl (by decide) hrun (R := silent) (S := Setup.plain) rfl hw hmsg
    response_earlyClient
  refine ⟨_, s, hmain, hrun, ?_, ?_⟩
  · obtain ⟨be, hbe, hpool, -⟩ := hserves 4
    rw [staticBackendList_twoBackends] at hbe
    obtain rfl : firstBackend = be := Option.some.inj hbe
    have hdone : firstBackend ∈ prepared twoBackends.staticBackendList [.ok ()] := by
      rw [staticBackendList_twoBackends]
      decide
    obtain ⟨pool, hlogin, -⟩ := hpool hdone
    exact ⟨pool, hlogin⟩
  · obtain ⟨be, hbe, -, hnone⟩ := hserves 7
    rw [staticBackendList_twoBackends] at hbe
    obtain rfl : secondBackend = be := Option.some.inj hbe
    refine hnone ?_
    rw [staticBackendList_twoBackends]
    decide

end Haentgl.Server.Startup
