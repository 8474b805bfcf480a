import Haentgl.Backend.Keys
import Haentgl.Protocol.Basic
import Haentgl.Protocol.Io
import Mathlib.Data.List.AList

/-! # The routers and the table of connection pools

`BackendMgr` keeps a pool of connections for every backend it has been told of. The key of its table is
the whole report on the backend, its status included: a report that a backend is ready inserts under a
key with the status `ready`, and a report that it is offline removes the key with the status `offline`.
No pool is ever removed (`mem_notified`), and `follows_iff` says for which reports the table is right
nevertheless.

A pool is a number: its position among the pools built so far. -/

namespace Haentgl.Backend.Manager

open Haentgl.Lib.Parse Haentgl.Lib.Text Haentgl.Protocol.Constants Haentgl.Protocol.Io Haentgl.Protocol.Basic
open Haentgl.Backend.Keys

structure DBLocation where
  region : String
  availableZone : String
  namespaceName : String
  nodeName : String
  deriving DecidableEq, Repr

structure ClusterName where
  namespaceName : String
  clusterName : String
  deriving DecidableEq, Repr

inductive ServiceStatus
  | unKnowStatus
  | notReady
  | ready
  | offline
  deriving DecidableEq, Repr

/-- A report on a backend. -/
structure BackendInstance where
  location : DBLocation
  addr : String
  status : ServiceStatus
  cluster : ClusterName
  deriving DecidableEq, Repr

/-- A pool: the backend its connections go to, and whether it has been closed. -/
structure ConnPool where
  backend : BackendInstance
  closed : Bool
  deriving DecidableEq, Repr

structure BackendMgr where
  beConnPool : AList fun _ : BackendInstance => ℕ
  pools : List ConnPool

/-- A value, or a panic. -/
def orStop {α : Type} : Option α → Except Stop α
  | some a => .ok a
  | none => .error .panic

/-! ### The routers -/

inductive BackendLoadBalancerType
  | random
  | p2c
  deriving DecidableEq, Repr

/-- `RandomBalancer::balance`: `draw` is what the generator holds. An empty range panics. -/
def balance (draw backends : ℕ) : Except Stop ℕ :=
  if backends = 0 then .error .panic else .ok (draw % backends)

/-- The backends of the tenants. -/
abbrev Tenants := AList fun _ : TenantKey => List BackendInstance

/-- A router with the backends it selects from. -/
inductive Router
  | static (backendAddrs : List BackendInstance)
  | sync (tenants : Tenants)

/-- `StaticRouter::selector`. -/
def staticSelector (draw : ℕ) (backendAddrs : List BackendInstance) : Except Stop BackendInstance := do
  let selectedIdx ← balance draw backendAddrs.length
  orStop backendAddrs[selectedIdx]?

/-- `SyncRouter::selector`. -/
def syncSelector (draw : ℕ) (tenants : Tenants) (key : TenantKey) (lb : BackendLoadBalancerType) :
    Except Stop BackendInstance :=
  match tenants.lookup key with
  | some [] => .error (.io ⟨.notFound, "No backends found"⟩)
  | some [be] => .ok be
  | some backends =>
    match lb with
    | .random => do
      let selectedIdx ← balance draw backends.length
      orStop backends[selectedIdx]?
    | .p2c => .error .panic
  | none => .error (.io ⟨.notFound, "Tenant not found"⟩)

def Router.selector (draw : ℕ) (key : TenantKey) (lb : BackendLoadBalancerType) :
    Router → Except Stop BackendInstance
  | .static backendAddrs => staticSelector draw backendAddrs
  | .sync tenants => syncSelector draw tenants key lb

/-! ### `BackendMgr` -/

def BackendMgr.new : BackendMgr := ⟨∅, []⟩

/-- `build` is what the builder of the pool returns. -/
def initBackendPool (build : Except String Unit) (be : BackendInstance) (m : BackendMgr) :
    Except IoError Unit × BackendMgr :=
  match be.status with
  | .ready =>
    match build with
    | .ok () => (.ok (), ⟨m.beConnPool.insert be m.pools.length, m.pools ++ [⟨be, false⟩]⟩)
    | .error e => (.error ⟨.connectionRefused, e⟩, m)
  | .offline =>
    let pools := match m.beConnPool.lookup be with
      | some i => m.pools.modify i fun p => { p with closed := true }
      | none => m.pools
    (.ok (), ⟨m.beConnPool.erase be, pools⟩)
  | .unKnowStatus | .notReady => (.ok (), m)

/-- The tenant a client names; `test_tenant_key` if it names none. -/
def tenantOf (b : Profile) (h : HandshakeResponse) : Except Stop TenantKey :=
  match h.tenantKey with
  | some tenantEncodeKey => do
    let tenantEncodeStr ← orStop (fromUtf8 tenantEncodeKey)
    orStop (decodeTenantKey b tenantEncodeStr)
  | none => .ok testTenantKey

def connectToBackend (b : Profile) (m : BackendMgr) (router : Router) (lb : BackendLoadBalancerType)
    (draw : ℕ) (h : HandshakeResponse) : Except Stop ℕ := do
  let tenant ← tenantOf b h
  let backendAddr ← router.selector draw tenant lb
  match m.beConnPool.lookup backendAddr with
  | some pool => return pool
  | none => .error (.io ⟨.notConnected, "no backend_addr found"⟩)

/-- `beList` are the keys of the table in the order of the iteration. -/
def tenantStatus (beList : List BackendInstance) (tenant : TenantKey) : ServiceStatus :=
  match beList.find? fun be => be.cluster.clusterName = tenant.clusterName ∧
      be.cluster.namespaceName = tenant.namespaceName with
  | some be => be.status
  | none => .unKnowStatus

/-- A client that names the text of a key is a client of its tenant. -/
theorem tenantOf_text {b : Profile} {h : HandshakeResponse} {text : String} {k : TenantKey}
    (hk : h.tenantKey = some (utf8 text.toList)) (hd : decodeTenantKey b text = some k) :
    tenantOf b h = .ok k := by
  have htext : fromUtf8 (utf8 text.toList) = some text := fromUTF8_eq_some.mpr rfl
  simp only [tenantOf, hk, htext, orStop, bind, Except.bind, hd]

/-! ### Reports one after the other -/

/-- The table after some reports, with every pool built. -/
def notified (reports : List BackendInstance) : BackendMgr :=
  reports.foldl (fun m be => (initBackendPool (.ok ()) be m).2) .new

/-- What names a backend: everything in a report but the status. -/
structure Site where
  location : DBLocation
  addr : String
  cluster : ClusterName
  deriving DecidableEq, Repr

def BackendInstance.site (be : BackendInstance) : Site := ⟨be.location, be.addr, be.cluster⟩

/-- The last report on a backend that it is ready or offline. -/
def lastStatus (reports : List BackendInstance) (s : Site) : Option ServiceStatus :=
  (reports.filter fun be => be.site = s ∧ (be.status = .ready ∨ be.status = .offline)).getLast?.map
    BackendInstance.status

/-- Pool `i` is the last one built for a backend. -/
def IsPoolOf (m : BackendMgr) (s : Site) (i : ℕ) : Prop :=
  (∃ p ∈ m.pools[i]?, p.backend.site = s) ∧ ∀ j p, i < j → p ∈ m.pools[j]? → p.backend.site ≠ s

/-- Every backend of a tenant has been reported offline. -/
def AllOffline (reports : List BackendInstance) (tenant : TenantKey) : Prop :=
  ∀ be ∈ reports, be.cluster = ⟨tenant.namespaceName, tenant.clusterName⟩ →
    lastStatus reports be.site = some .offline

/-- The table follows the reports: it has a pool for the backends that are ready, the pools of those
that are offline are closed and gone, and a tenant without a ready backend is not called ready. -/
structure Follows (reports : List BackendInstance) (m : BackendMgr) : Prop where
  holds : ∀ s, (∃ be ∈ m.beConnPool, be.site = s) ↔ lastStatus reports s = some .ready
  gone : ∀ s i, lastStatus reports s = some .offline → IsPoolOf m s i →
    (∃ p ∈ m.pools[i]?, p.closed = true) ∧ ∀ be, m.beConnPool.lookup be ≠ some i
  tenant : ∀ t beList, beList.Perm m.beConnPool.keys → AllOffline reports t →
    tenantStatus beList t ≠ .ready

/-- What one report does to a table without offline keys: a backend that is ready gets a new pool. -/
theorem initBackendPool_eq {m : BackendMgr} (be : BackendInstance)
    (hm : ∀ k ∈ m.beConnPool, k.status = .ready) : (initBackendPool (.ok ()) be m).2 =
      if be.status = .ready then
        ⟨m.beConnPool.insert be m.pools.length, m.pools ++ [⟨be, false⟩]⟩
      else m := by
  cases hs : be.status with
  | ready => simp [initBackendPool, hs]
  | offline =>
    -- the key to be removed is not there
    have hbe : be ∉ m.beConnPool := fun h => by
      rw [hm be h] at hs
      cases hs
    have herase : m.beConnPool.erase be = m.beConnPool := AList.ext (List.kerase_of_notMem_keys hbe)
    simp [initBackendPool, hs, AList.lookup_eq_none.mpr hbe, herase]
  | unKnowStatus => simp [initBackendPool, hs]
  | notReady => simp [initBackendPool, hs]

/-- The keys and the pools after one report. -/
theorem initBackendPool_spec {m : BackendMgr} (be : BackendInstance)
    (hm : ∀ k ∈ m.beConnPool, k.status = .ready) :
    (∀ k, k ∈ (initBackendPool (.ok ()) be m).2.beConnPool ↔
      k ∈ m.beConnPool ∨ k = be ∧ be.status = .ready) ∧
    ∀ p ∈ (initBackendPool (.ok ()) be m).2.pools, p ∈ m.pools ∨ p.backend = be ∧ be.status = .ready := by
  rw [initBackendPool_eq be hm]
  split_ifs with hs
  · refine ⟨fun k => ?_, fun p hp => ?_⟩
    · rw [AList.mem_insert]
      tauto
    · rcases List.mem_append.mp hp with hp | hp
      · exact .inl hp
      · rw [List.mem_singleton.mp hp]
        exact .inr ⟨rfl, hs⟩
  · exact ⟨fun k => by simp [hs], fun p hp => .inl hp⟩

theorem notified_append (reports : List BackendInstance) (be : BackendInstance) :
    notified (reports ++ [be]) = (initBackendPool (.ok ()) be (notified reports)).2 := by
  rw [notified, List.foldl_append]
  rfl

/-- **Nothing is ever removed**: the keys are the reports that a backend is ready. -/
theorem mem_notified (reports : List BackendInstance) (k : BackendInstance) :
    k ∈ (notified reports).beConnPool ↔ k ∈ reports ∧ k.status = .ready := by
  induction reports using List.reverseRecOn generalizing k with
  | nil => simp [notified, BackendMgr.new]
  | append_singleton reports be ih =>
    have hm : ∀ k ∈ (notified reports).beConnPool, k.status = .ready := fun k hk => ((ih k).mp hk).2
    rw [notified_append, (initBackendPool_spec _ hm).1 k, ih k, List.mem_append, List.mem_singleton]
    constructor
    · rintro (⟨hk, hs⟩ | ⟨rfl, hs⟩)
      · exact ⟨.inl hk, hs⟩
      · exact ⟨.inr rfl, hs⟩
    · rintro ⟨hk | rfl, hs⟩
      · exact .inl ⟨hk, hs⟩
      · exact .inr ⟨rfl, hs⟩

theorem ready_of_mem_notified (reports : List BackendInstance) :
    ∀ k ∈ (notified reports).beConnPool, k.status = .ready :=
  fun k hk => ((mem_notified reports k).mp hk).2

/-- Every backend in the table has an open pool of its own. -/
theorem pool_of_lookup {reports : List BackendInstance} : ∀ {k : BackendInstance} {i : ℕ},
    (notified reports).beConnPool.lookup k = some i → (notified reports).pools[i]? = some ⟨k, false⟩ := by
  induction reports using List.reverseRecOn with
  | nil =>
    intro k i h
    simp [notified, BackendMgr.new] at h
  | append_singleton reports be ih =>
    intro k i h
    rw [notified_append, initBackendPool_eq _ (ready_of_mem_notified reports)] at h ⊢
    split_ifs at h ⊢
    · by_cases hk : k = be
      · rw [hk, AList.lookup_insert] at h
        obtain rfl := Option.some.inj h
        simp [hk]
      · rw [AList.lookup_insert_ne hk] at h
        have hpool := ih h
        rw [List.getElem?_append_left (List.getElem?_eq_some_iff.mp hpool).1]
        exact hpool
    · exact ih h

theorem backend_of_mem_pools {reports : List BackendInstance} :
    ∀ p ∈ (notified reports).pools, p.backend ∈ reports ∧ p.backend.status = .ready := by
  induction reports using List.reverseRecOn with
  | nil => simp [notified, BackendMgr.new]
  | append_singleton reports be ih =>
    intro p hp
    rw [notified_append] at hp
    rcases (initBackendPool_spec _ (ready_of_mem_notified reports)).2 p hp with hp | ⟨rfl, hs⟩
    · obtain ⟨hmem, hs⟩ := ih p hp
      exact ⟨by simp [hmem], hs⟩
    · exact ⟨by simp, hs⟩

/-- The last status of a backend that has been reported ready is there. -/
theorem lastStatus_of_ready {reports : List BackendInstance} {be : BackendInstance}
    (h : be ∈ reports) (hs : be.status = .ready) :
    lastStatus reports be.site = some .ready ∨ lastStatus reports be.site = some .offline := by
  unfold lastStatus
  have hne : (reports.filter fun b => b.site = be.site ∧ (b.status = .ready ∨ b.status = .offline)) ≠ [] := by
    intro he
    have := List.filter_eq_nil_iff.mp he be h
    simp [hs] at this
  have hlast := List.getLast_mem hne
  rw [List.getLast?_eq_some_getLast hne]
  simp only [List.mem_filter, decide_eq_true_eq] at hlast
  rcases hlast.2.2 with hr | ho
  · exact .inl (congrArg some hr)
  · exact .inr (congrArg some ho)

theorem exists_of_lastStatus {reports : List BackendInstance} {s : Site} {st : ServiceStatus}
    (h : lastStatus reports s = some st) : ∃ be ∈ reports, be.site = s ∧ be.status = st := by
  obtain ⟨be, hbe, hst⟩ := Option.map_eq_some_iff.mp h
  have hmem := List.mem_of_getLast? hbe
  simp only [List.mem_filter, decide_eq_true_eq] at hmem
  exact ⟨be, hmem.1, hmem.2.1, hst⟩

theorem tenantStatus_eq_ready {beList : List BackendInstance} {t : TenantKey}
    (h : tenantStatus beList t = .ready) :
    ∃ be ∈ beList, be.cluster = ⟨t.namespaceName, t.clusterName⟩ := by
  unfold tenantStatus at h
  split at h
  · rename_i be hbe
    have hp := List.find?_some hbe
    simp only [decide_eq_true_eq] at hp
    refine ⟨be, List.mem_of_find?_eq_some hbe, ?_⟩
    rw [← hp.1, ← hp.2]
  · cases h

/-- No backend that has been reported ready is reported offline last. -/
def StaysUp (reports : List BackendInstance) : Prop :=
  ∀ be ∈ reports, be.status = .ready → lastStatus reports be.site ≠ some .offline

/-- **The table is right** after some reports if and only if no backend has gone offline after it had
been ready. -/
theorem follows_iff (reports : List BackendInstance) :
    Follows reports (notified reports) ↔ StaysUp reports := by
  constructor
  · intro h be hbe hs hoff
    have hready := (h.holds be.site).mp ⟨be, (mem_notified reports be).mpr ⟨hbe, hs⟩, rfl⟩
    rw [hoff] at hready
    cases hready
  · intro h
    have hready : ∀ be ∈ reports, be.status = .ready → lastStatus reports be.site = some .ready :=
      fun be hbe hs => (lastStatus_of_ready hbe hs).resolve_right (h be hbe hs)
    refine ⟨fun s => ⟨?_, ?_⟩, ?_, ?_⟩
    · rintro ⟨be, hbe, rfl⟩
      obtain ⟨hmem, hs⟩ := (mem_notified reports be).mp hbe
      exact hready be hmem hs
    · intro hlast
      obtain ⟨be, hbe, hsite, hs⟩ := exists_of_lastStatus hlast
      exact ⟨be, (mem_notified reports be).mpr ⟨hbe, hs⟩, hsite⟩
    · -- a backend that is offline has never had a pool
      rintro s i hoff ⟨⟨p, hp, rfl⟩, -⟩
      obtain ⟨hmem, hs⟩ := backend_of_mem_pools p (List.mem_of_getElem? hp)
      exact absurd hoff (h _ hmem hs)
    · intro t beList hperm hall hst
      obtain ⟨be, hbe, hc⟩ := tenantStatus_eq_ready hst
      obtain ⟨hmem, hs⟩ := (mem_notified reports be).mp (AList.mem_keys.mpr (hperm.mem_iff.mp hbe))
      exact h be hmem hs (hall be hmem hc)

/-- A backend that becomes ready and goes offline. -/
def upAndDown : List BackendInstance :=
  [⟨⟨"r", "z", "n", ""⟩, "10.0.0.1:4000", .ready, ⟨"n", "c"⟩⟩,
    ⟨⟨"r", "z", "n", ""⟩, "10.0.0.1:4000", .offline, ⟨"n", "c"⟩⟩]

/-- Its pool stays in the table, open, and its tenant is called ready. -/
theorem upAndDown_not_follows : ¬ Follows upAndDown (notified upAndDown) ∧
    (notified upAndDown).pools.map ConnPool.closed = [false] ∧
    AllOffline upAndDown ⟨"r", "z", "n", "c"⟩ ∧
    tenantStatus (notified upAndDown).beConnPool.keys ⟨"r", "z", "n", "c"⟩ = .ready := by
  have hall : AllOffline upAndDown ⟨"r", "z", "n", "c"⟩ := by
    unfold AllOffline upAndDown
    decide
  have hst : tenantStatus (notified upAndDown).beConnPool.keys ⟨"r", "z", "n", "c"⟩ = .ready := by
    decide
  exact ⟨fun h => h.tenant _ _ (List.Perm.refl _) hall hst, by decide, hall, hst⟩

end Haentgl.Backend.Manager
