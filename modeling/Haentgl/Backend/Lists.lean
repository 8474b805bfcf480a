import Haentgl.Lib.Latest
import Haentgl.Backend.Discovery

/-! # The lists of the tenants' backends

`recv_stream` enters every report into the list of its tenant; `load_backends` returns a list or all of
them, and the router selects from a list. A list is the last reports on the addresses of its tenant, in
the order in which they arrived (`recvStream_latest`), whatever their status.

The pools are only those of the backends that are ready, so a client is connected for certain exactly if
all backends in its tenant's list are ready (`connects_iff`). -/

namespace Haentgl.Backend.Lists

open Haentgl.Lib.Latest Haentgl.Lib.Text Haentgl.Protocol.Constants Haentgl.Protocol.Io Haentgl.Protocol.Basic
open Haentgl.Backend.Keys Haentgl.Backend.Manager
open Haentgl.Backend.Discovery (BackendDiscovery DBService Payload RecvError reported listKey enter
  recvResponse recvResponse_reported unsubscribedTenants sqlPort AllEmpty allEmpty_new
  allEmpty_unsubscribedTenants)

/-- `recv_stream` on the responses of a stream. -/
def recvStream (responses : List (Option Payload)) (d : BackendDiscovery) :
    Except RecvError BackendDiscovery :=
  responses.foldlM (fun d payload => recvResponse payload d) d

/-- `SyncRouter::load_backends`; `order` is the order in which the map is iterated. -/
def loadBackends (order : List TenantKey) (tenants : Tenants) :
    Option TenantKey → Except Stop (List BackendInstance)
  | some tenant =>
    match tenants.lookup tenant with
    | some list => .ok list
    | none => .error (.io ⟨.notFound, "No backends found"⟩)
  | none => .ok (order.flatMap fun tenant => (tenants.lookup tenant).getD [])

/-- The responses that carry the services. -/
def events (services : List DBService) : List (Option Payload) :=
  services.map fun service => some (.changeEvent (some service))

/-- The reports in some services. -/
def reports (services : List DBService) : List BackendInstance := services.filterMap reported

/-- The last report on every address of a tenant. -/
def latestOf (tenant : TenantKey) (services : List DBService) : List BackendInstance :=
  latest BackendInstance.addr ((reports services).filter fun be => listKey be = tenant)

/-- The service has what `recv_stream` reads, and its tenant is in the map. -/
def Expected (tenants : Tenants) (service : DBService) : Prop :=
  (∃ e ∈ service.endpoints, e.portName = sqlPort) ∧ ∃ l, service.location = some l ∧
    (⟨"", "", l.namespaceName, service.cluster⟩ : TenantKey) ∈ tenants

/-! ### What the lists hold -/

variable {d d' : BackendDiscovery} {services : List DBService}

theorem exists_reported {tenants : Tenants} {service : DBService} (h : Expected tenants service) :
    ∃ be, reported service = some be ∧ listKey be ∈ tenants := by
  obtain ⟨⟨e, he, hport⟩, l, hl, hmem⟩ := h
  have hfind : (service.endpoints.find? fun e => e.portName = sqlPort).isSome :=
    List.find?_isSome.mpr ⟨e, he, by simpa using hport⟩
  obtain ⟨e', he'⟩ := Option.isSome_iff_exists.mp hfind
  refine ⟨⟨l, e'.address ++ ":" ++ toString e'.port, service.status,
    ⟨l.namespaceName, service.cluster⟩⟩, ?_, hmem⟩
  rw [reported, he', hl]
  rfl

/-- The lists of the map `tenants`, empty at the start, hold the latest reports. -/
def UpToDate (tenants tenants' : Tenants) (services : List DBService) : Prop :=
  ∀ t, tenants'.lookup t = (tenants.lookup t).map fun _ => latestOf t services

theorem reports_append_singleton {service : DBService} {be : BackendInstance}
    (h : reported service = some be) : reports (services ++ [service]) = reports services ++ [be] := by
  simp [reports, List.filterMap_append, h]

/-- A report is entered where `latest` has it. -/
theorem latestOf_append_singleton {service : DBService} {be : BackendInstance}
    (h : reported service = some be) (t : TenantKey) :
    latestOf t (services ++ [service]) =
      if listKey be = t then enter be (latestOf t services) else latestOf t services := by
  unfold latestOf
  rw [reports_append_singleton h, List.filter_append]
  split_ifs with ht
  · have hone : [be].filter (fun be => listKey be = t) = [be] := by simp [ht]
    rw [hone, latest_append_singleton]
    rfl
  · have hnone : [be].filter (fun be => listKey be = t) = [] := by simp [ht]
    rw [hnone, List.append_nil]

/-- One response. -/
theorem upToDate_recvResponse {tenants : Tenants} {service : DBService}
    (h : UpToDate tenants d.tenants services) (hs : Expected tenants service) :
    ∃ d', recvResponse (some (.changeEvent (some service))) d = .ok d' ∧
      UpToDate tenants d'.tenants (services ++ [service]) := by
  obtain ⟨be, hbe, hmem⟩ := exists_reported hs
  obtain ⟨l, hl⟩ := Option.isSome_iff_exists.mp (AList.lookup_isSome.mpr hmem)
  have hlist : d.tenants.lookup (listKey be) = some (latestOf (listKey be) services) := by
    rw [h, hl]
    rfl
  refine ⟨_, recvResponse_reported hbe hlist, fun t => ?_⟩
  rw [latestOf_append_singleton hbe]
  by_cases ht : listKey be = t
  · subst ht
    rw [AList.lookup_insert, if_pos rfl, hl]
    rfl
  · rw [AList.lookup_insert_ne (Ne.symm ht), if_neg ht]
    exact h t

/-- All of them. -/
theorem upToDate_recvStream {tenants : Tenants} : ∀ (next services : List DBService) (d : BackendDiscovery),
    UpToDate tenants d.tenants services → (∀ service ∈ next, Expected tenants service) →
      ∃ d', recvStream (events next) d = .ok d' ∧ UpToDate tenants d'.tenants (services ++ next)
  | [], services, d, h, _ => ⟨d, rfl, by rwa [List.append_nil]⟩
  | service :: next, services, d, h, hs => by
    obtain ⟨d₁, hd₁, h₁⟩ := upToDate_recvResponse h (hs service (by simp))
    obtain ⟨d', hd', h'⟩ := upToDate_recvStream next (services ++ [service]) d₁ h₁
      fun s hmem => hs s (by simp [hmem])
    refine ⟨d', ?_, by rwa [List.append_assoc] at h'⟩
    rw [recvStream, events, List.map_cons, List.foldlM_cons, hd₁]
    exact hd'

theorem exists_recvStream (hempty : AllEmpty d.tenants) (hs : ∀ service ∈ services,
    Expected d.tenants service) :
    ∃ d', recvStream (events services) d = .ok d' ∧ UpToDate d.tenants d'.tenants services := by
  refine upToDate_recvStream services [] d (fun t => ?_) hs
  cases hl : d.tenants.lookup t with
  | none => rfl
  | some l =>
    rw [hempty t l hl]
    rfl

theorem UpToDate.mem_iff {tenants tenants' : Tenants} (h : UpToDate tenants tenants' services)
    (t : TenantKey) : t ∈ tenants' ↔ t ∈ tenants := by
  rw [← AList.lookup_isSome, h t, Option.isSome_map, AList.lookup_isSome]

theorem UpToDate.lookup_eq {tenants tenants' : Tenants} (h : UpToDate tenants tenants' services)
    {t : TenantKey} (ht : t ∈ tenants) : tenants'.lookup t = some (latestOf t services) := by
  obtain ⟨l, hl⟩ := Option.isSome_iff_exists.mp (AList.lookup_isSome.mpr ht)
  rw [h t, hl]
  rfl

/-- The event is on a backend of the tenant. -/
def EventOf (t : TenantKey) (service : DBService) : Prop :=
  service.cluster = t.clusterName ∧ ∃ l, service.location = some l ∧ l.namespaceName = t.namespaceName

theorem eventOf_reported {service : DBService} {be : BackendInstance} (h : reported service = some be) :
    EventOf (listKey be) service := by
  obtain ⟨e, -, h⟩ := Option.bind_eq_some_iff.mp h
  obtain ⟨l, hl, h⟩ := Option.bind_eq_some_iff.mp h
  cases h
  exact ⟨rfl, l, hl, rfl⟩

theorem mem_latestOf {t : TenantKey} {be : BackendInstance} (h : be ∈ latestOf t services) :
    listKey be = t ∧ ∃ service ∈ services, reported service = some be := by
  obtain ⟨hmem, ht⟩ := List.mem_filter.mp (mem_of_mem_latest h)
  exact ⟨by simpa using ht, List.mem_filterMap.mp hmem⟩

/-- All lists one after the other. -/
theorem loadBackends_perm {tenants : Tenants} (h : UpToDate d.tenants tenants services)
    (hs : ∀ service ∈ services, Expected d.tenants service) {order : List TenantKey}
    (horder : order.Perm tenants.keys) :
    ∃ all, loadBackends order tenants none = .ok all ∧
      all.Perm (latest (fun be => (listKey be, be.addr)) (reports services)) := by
  refine ⟨_, rfl, ?_⟩
  have hlists : (order.flatMap fun t => (tenants.lookup t).getD []) = order.flatMap fun t =>
      (latest (fun be => (listKey be, be.addr)) (reports services)).filter fun be => listKey be = t := by
    refine List.flatMap_congr fun t ht => ?_
    have hmem : t ∈ d.tenants := (h.mem_iff t).mp (AList.mem_keys.mpr (horder.mem_iff.mp ht))
    rw [h.lookup_eq hmem, filter_latest_prod]
    rfl
  rw [hlists]
  refine flatMap_filter_perm listKey _ _ (horder.nodup_iff.mpr tenants.nodupKeys) fun be hbe => ?_
  obtain ⟨service, hservice, hreported⟩ := List.mem_filterMap.mp (mem_of_mem_latest hbe)
  obtain ⟨be', hbe', hmem⟩ := exists_reported (hs service hservice)
  obtain rfl : be' = be := Option.some.inj (hbe'.symm.trans hreported)
  exact horder.mem_iff.mpr (AList.mem_keys.mp ((h.mem_iff _).mpr hmem))

/-- **The lists hold the latest reports**: of every tenant the last report on each of its addresses, in
the order of these reports, and nothing from other tenants; together they are all last reports. -/
theorem recvStream_latest (hempty : AllEmpty d.tenants) (hs : ∀ service ∈ services,
    Expected d.tenants service) :
    ∃ d', recvStream (events services) d = .ok d' ∧
      (∀ t ∈ d.tenants, ∃ l, d'.tenants.lookup t = some l ∧ l = latestOf t services ∧
        (l.map BackendInstance.addr).Nodup ∧
        ∀ be ∈ l, ∃ service ∈ services, reported service = some be ∧ EventOf t service) ∧
      ∀ order, order.Perm d'.tenants.keys → ∃ all, loadBackends order d'.tenants none = .ok all ∧
        all.Perm (latest (fun be => (listKey be, be.addr)) (reports services)) := by
  obtain ⟨d', hd', hup⟩ := exists_recvStream hempty hs
  refine ⟨d', hd', fun t ht => ?_, fun order horder => loadBackends_perm hup hs horder⟩
  refine ⟨_, hup.lookup_eq ht, rfl, nodup_latest _ _, fun be hbe => ?_⟩
  obtain ⟨rfl, service, hservice, hreported⟩ := mem_latestOf hbe
  exact ⟨service, hservice, hreported, eventOf_reported hreported⟩

/-- A tenant, and the discovery that knows it. -/
def tenantC : TenantKey := ⟨"", "", "n", "c"⟩

def discoveryC : BackendDiscovery := unsubscribedTenants tenantC .new

/-- A report on the backend at the port. -/
def nodeAt (port : ℤ) (status : ServiceStatus) : DBService :=
  ⟨some ⟨"", "", "n", "node-1"⟩, "c", status, [⟨"10.0.0.1", sqlPort, port⟩]⟩

theorem expected_nodeAt (port : ℤ) (status : ServiceStatus) :
    Expected discoveryC.tenants (nodeAt port status) := by
  have hmem : tenantC ∈ discoveryC.tenants := by decide
  exact ⟨⟨_, List.mem_singleton_self _, rfl⟩, _, rfl, hmem⟩

/-- Two backends come up, the second one first. -/
def comeUp : List DBService := [nodeAt 4000 .notReady, nodeAt 4001 .ready, nodeAt 4000 .ready]

theorem expected_comeUp : ∀ service ∈ comeUp, Expected discoveryC.tenants service := by
  intro service hs
  simp only [comeUp, List.mem_cons, List.not_mem_nil, or_false] at hs
  rcases hs with rfl | rfl | rfl <;> exact expected_nodeAt _ _

theorem recvStream_comeUp : ∃ d', recvStream (events comeUp) discoveryC = .ok d' ∧
    (∀ t ∈ discoveryC.tenants, ∃ l, d'.tenants.lookup t = some l ∧ l = latestOf t comeUp ∧
      (l.map BackendInstance.addr).Nodup ∧
      ∀ be ∈ l, ∃ service ∈ comeUp, reported service = some be ∧ EventOf t service) ∧
    ∀ order, order.Perm d'.tenants.keys → ∃ all, loadBackends order d'.tenants none = .ok all ∧
      all.Perm (latest (fun be => (listKey be, be.addr)) (reports comeUp)) :=
  recvStream_latest (allEmpty_unsubscribedTenants allEmpty_new _) expected_comeUp

/-! ### Who is connected -/

theorem syncSelector_random {tenants : Tenants} {t : TenantKey} {l : List BackendInstance}
    (hl : tenants.lookup t = some l) (hne : l ≠ []) (draw : ℕ) :
    ∃ be, l[draw % l.length]? = some be ∧ syncSelector draw tenants t .random = .ok be := by
  have hpos : 0 < l.length := List.length_pos_iff.mpr hne
  have hlt : draw % l.length < l.length := Nat.mod_lt _ hpos
  refine ⟨l[draw % l.length], List.getElem?_eq_getElem hlt, ?_⟩
  match l with
  | [] => exact absurd rfl hne
  | [be] => simp [syncSelector, hl]
  | be :: be' :: rest =>
    simp only [syncSelector, hl, balance]
    rw [if_neg (by simp)]
    show orStop (be :: be' :: rest)[draw % (be :: be' :: rest).length]? = _
    rw [List.getElem?_eq_getElem hlt]
    rfl

/-- The client gets the open pool of a ready backend from its tenant's list. -/
def Connects (b : Profile) (tenants : Tenants) (services : List DBService) (h : HandshakeResponse)
    (t : TenantKey) (draw : ℕ) : Prop :=
  ∃ i be, connectToBackend b (notified (reports services)) (.sync tenants) .random draw h = .ok i ∧
    (notified (reports services)).pools[i]? = some ⟨be, false⟩ ∧ be ∈ latestOf t services ∧
    be.status = .ready

/-- What the draw selects decides. -/
theorem connectToBackend_eq {b : Profile} {tenants : Tenants} {m : BackendMgr} {h : HandshakeResponse}
    {t : TenantKey} {draw : ℕ} {be : BackendInstance} (ht : tenantOf b h = .ok t)
    (hbe : syncSelector draw tenants t .random = .ok be) :
    connectToBackend b m (.sync tenants) .random draw h = match m.beConnPool.lookup be with
      | some pool => .ok pool
      | none => .error (.io ⟨.notConnected, "no backend_addr found"⟩) := by
  simp only [connectToBackend, ht, Router.selector, hbe, bind, Except.bind]
  rfl

/-- **A tenant with a ready backend** is connected, whatever is drawn, if and only if all backends in
its list are ready. -/
theorem connects_iff (hempty : AllEmpty d.tenants) (hs : ∀ service ∈ services,
    Expected d.tenants service) {b : Profile} {h : HandshakeResponse} {t : TenantKey}
    (ht : tenantOf b h = .ok t) (hready : ∃ be ∈ latestOf t services, be.status = .ready) :
    ∃ d', recvStream (events services) d = .ok d' ∧
      ((∀ draw, Connects b d'.tenants services h t draw) ↔
        ∀ be ∈ latestOf t services, be.status = .ready) := by
  obtain ⟨d', hd', hup⟩ := exists_recvStream hempty hs
  refine ⟨d', hd', ?_⟩
  obtain ⟨be₀, hmem₀, -⟩ := hready
  -- the tenant is in the map, since a report on it was entered
  obtain ⟨rfl, service, hservice, hreported⟩ := mem_latestOf hmem₀
  obtain ⟨be', hbe', hmap⟩ := exists_reported (hs service hservice)
  obtain rfl : be' = be₀ := Option.some.inj (hbe'.symm.trans hreported)
  have hl := hup.lookup_eq hmap
  have hne : latestOf (listKey be') services ≠ [] := List.ne_nil_of_mem hmem₀
  constructor
  · intro hall be hbe
    obtain ⟨j, hj, rfl⟩ := List.getElem_of_mem hbe
    obtain ⟨be, hget, hsel⟩ := syncSelector_random hl hne j
    rw [Nat.mod_eq_of_lt hj, List.getElem?_eq_getElem hj] at hget
    obtain rfl := Option.some.inj hget
    obtain ⟨i, -, hok, -⟩ := hall j
    rw [connectToBackend_eq ht hsel] at hok
    split at hok
    · rename_i pool hpool
      exact ((mem_notified _ _).mp (AList.lookup_isSome.mp (Option.isSome_of_eq_some hpool))).2
    · cases hok
  · intro hall draw
    obtain ⟨be, hget, hsel⟩ := syncSelector_random hl hne draw
    have hbe : be ∈ latestOf (listKey be') services := List.mem_of_getElem? hget
    have hr := hall be hbe
    obtain ⟨-, service', hservice', hreported'⟩ := mem_latestOf hbe
    have hkey : be ∈ (notified (reports services)).beConnPool :=
      (mem_notified _ _).mpr ⟨List.mem_filterMap.mpr ⟨service', hservice', hreported'⟩, hr⟩
    obtain ⟨i, hi⟩ := Option.isSome_iff_exists.mp (AList.lookup_isSome.mpr hkey)
    refine ⟨i, be, ?_, pool_of_lookup hi, hbe, hr⟩
    rw [connectToBackend_eq ht hsel, hi]

/-- A client of the tenant. -/
def clientC : HandshakeResponse := { HandshakeResponse.bare 0 with
  tenantKey := some (utf8 "00000101ds".toList) }

theorem tenantOf_clientC : tenantOf .release clientC = .ok tenantC :=
  tenantOf_text rfl (by decide)

theorem connects_comeUp : ∃ d', recvStream (events comeUp) discoveryC = .ok d' ∧
    ((∀ draw, Connects .release d'.tenants comeUp clientC tenantC draw) ↔
      ∀ be ∈ latestOf tenantC comeUp, be.status = .ready) :=
  connects_iff (allEmpty_unsubscribedTenants allEmpty_new _) expected_comeUp tenantOf_clientC (by decide)

/-- One backend is ready, the other one is not yet. -/
def halfUp : List DBService := [nodeAt 4001 .ready, nodeAt 4000 .notReady]

/-- The draw selects the backend that is not ready and has no pool. -/
theorem halfUp_not_connected : (∀ service ∈ halfUp, Expected discoveryC.tenants service) ∧
    (∃ be ∈ latestOf tenantC halfUp, be.status = .ready) ∧
    ∃ d', recvStream (events halfUp) discoveryC = .ok d' ∧
      connectToBackend .release (notified (reports halfUp)) (.sync d'.tenants) .random 1 clientC =
        .error (.io ⟨.notConnected, "no backend_addr found"⟩) := by
  refine ⟨fun service hs => ?_, by decide, _, rfl, ?_⟩
  · simp only [halfUp, List.mem_cons, List.not_mem_nil, or_false] at hs
    rcases hs with rfl | rfl <;> exact expected_nodeAt _ _
  · rw [connectToBackend_eq tenantOf_clientC rfl]
    rfl

end Haentgl.Backend.Lists
