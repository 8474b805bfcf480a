import Haentgl.Lib.Runs
import Haentgl.Backend.Manager
import Mathlib.Data.List.DropRight

/-! # The discovery of backends

Tenants are subscribed through `subscribe_for`, which puts their keys into a channel; `send_stream` turns
each into a request to the control plane, and `recv_stream` enters the backends that the control plane
reports into the lists of their tenants. When the stream fails, `discover_with_retry` subscribes the
tenants of the map again, on the channel of another control plane.

The map of the tenants is filled by `unsubscribed_tenants`, which nothing calls: it stays empty in every
run (`tenants_eq_empty`), so the first report ends the task with a panic and a retry asks for nothing.
The keys that still wait in the channel go to the new control plane, but for those that the request
stream of an earlier one takes first. `routable_iff` says what is left: the runs without reports whose
retries find every key still waiting, and in which the earlier streams leave these keys alone. -/

namespace Haentgl.Backend.Discovery

open Haentgl.Lib.Runs Haentgl.Backend.Keys Haentgl.Backend.Manager

/-! ### What the control plane sends -/

def sqlPort : String := "sql-port"

structure Endpoint where
  address : String
  portName : String
  port : ℤ
  deriving DecidableEq, Repr

structure DBService where
  location : Option DBLocation
  cluster : String
  status : ServiceStatus
  endpoints : List Endpoint
  deriving DecidableEq, Repr

/-- The payload of a response; the other fields of the messages are not read. -/
inductive Payload
  | serviceList
  | changeEvent (service : Option DBService)
  | noData
  deriving DecidableEq, Repr

structure SubscribeId where
  id : String
  namespaceName : String
  name : String
  deriving DecidableEq, Repr

structure SubscribeNamespaceRequest where
  dbLocation : Option DBLocation
  subscribeId : Option SubscribeId
  force : Bool
  label : List (String × String)
  deriving DecidableEq, Repr

/-! ### `BackendDiscovery` -/

/-- The keys in the channel of `send_stream`, the backends of the tenants, and the channel of reports:
its value and the number of values sent so far. -/
structure BackendDiscovery where
  tenantKeys : List TenantKey
  tenants : Tenants
  dbInstance : BackendInstance
  version : ℕ

/-- `BackendInstance::default`. -/
def defaultInstance : BackendInstance := ⟨⟨"", "", "", ""⟩, "", .unKnowStatus, ⟨"", ""⟩⟩

def BackendDiscovery.new : BackendDiscovery := ⟨[], ∅, defaultInstance, 0⟩

/-- `subscribe_for`: the receiver lives as long as the sender, so sending does not fail. -/
def subscribeFor (key : TenantKey) (d : BackendDiscovery) : BackendDiscovery :=
  { d with tenantKeys := d.tenantKeys ++ [key] }

/-- `unsubscribed_tenants`; the repository does not call it. -/
def unsubscribedTenants (key : TenantKey) (d : BackendDiscovery) : BackendDiscovery :=
  { d with tenants := d.tenants.insert key [] }

/-- The request that `send_stream` makes of a key. -/
def subscribeRequest (nodeId nodeNamespace : String) (key : TenantKey) : SubscribeNamespaceRequest where
  dbLocation := some ⟨key.region, key.availableZone, key.namespaceName, ""⟩
  subscribeId := some ⟨nodeId, nodeNamespace, nodeId⟩
  force := true
  label := []

/-- The backend that a service reports; `none` is a panic. -/
def reported (service : DBService) : Option BackendInstance := do
  let endpoint ← service.endpoints.find? fun e => e.portName = sqlPort
  let location ← service.location
  return ⟨location, endpoint.address ++ ":" ++ toString endpoint.port, service.status,
    ⟨location.namespaceName, service.cluster⟩⟩

/-- The key of the list that a backend is entered into. -/
def listKey (be : BackendInstance) : TenantKey :=
  ⟨"", "", be.cluster.namespaceName, be.cluster.clusterName⟩

/-- A backend takes the place of the one with its address. -/
def enter (be : BackendInstance) (l : List BackendInstance) : List BackendInstance :=
  (l.filter fun e => e.addr ≠ be.addr) ++ [be]

/-- How `recv_stream` leaves its loop. -/
inductive RecvError
  | emptyPayload
  | panic
  deriving DecidableEq, Repr

/-- One round of `recv_stream`. -/
def recvResponse (payload : Option Payload) (d : BackendDiscovery) :
    Except RecvError BackendDiscovery :=
  match payload with
  | some (.changeEvent service) =>
    match service >>= reported with
    | some be =>
      match d.tenants.lookup (listKey be) with
      | some list =>
        .ok { d with
          tenants := d.tenants.insert (listKey be) (enter be list)
          dbInstance := be
          version := d.version + 1 }
      | none => .error .panic
    | none => .error .panic
  | none => .error .emptyPayload
  | some _ => .error .panic

/-- The tenants are subscribed again. -/
def resubscribe (d : BackendDiscovery) : BackendDiscovery :=
  d.tenants.keys.foldl (fun d key => subscribeFor key d) d

/-! ### Runs -/

/-- The discovery, the number of retries so far, the request streams that are still there, named by the
number of retries before them, the one that holds the lock of the channel's receiver, the requests with
the streams they were made on, and whether the task has panicked. -/
structure World where
  discovery : BackendDiscovery
  retries : ℕ
  streams : List ℕ
  locked : Option ℕ
  requests : List (ℕ × SubscribeNamespaceRequest)
  panicked : Bool

inductive Act
  | subscribe (key : TenantKey)
  | lock (stream : ℕ)
  | request
  | dropStream (stream : ℕ)
  | response (payload : Option Payload)
  | streamFailure
  deriving DecidableEq, Repr

/-- `discover_with_retry` after an error. `send_subscribe` makes a request stream for the new control
plane; the one before belongs to the client that has failed, which drops it in its own time. -/
def retry (w : World) : World :=
  { w with
    discovery := resubscribe w.discovery
    retries := w.retries + 1
    streams := w.streams ++ [w.retries + 1] }

section Model
variable (nodeId nodeNamespace : String)

def step (w : World) : Act → Option World
  | .subscribe key => some { w with discovery := subscribeFor key w.discovery }
  | .lock i => if i ∈ w.streams ∧ w.locked = none then some { w with locked := some i } else none
  | .request =>
    -- the lock is held from before `recv` until a key has come
    match w.locked, w.discovery.tenantKeys with
    | some i, key :: keys => some { w with
        discovery := { w.discovery with tenantKeys := keys }
        locked := none
        requests := w.requests ++ [(i, subscribeRequest nodeId nodeNamespace key)] }
    | _, _ => none
  | .dropStream i =>
    if i ∈ w.streams then some { w with
      streams := w.streams.erase i
      locked := if w.locked = some i then none else w.locked }
    else none
  | .response payload =>
    if w.panicked then none
    else
      match recvResponse payload w.discovery with
      | .ok d => some { w with discovery := d }
      | .error .emptyPayload => some (retry w)
      | .error .panic => some { w with panicked := true }
  | .streamFailure => if w.panicked then none else some (retry w)

def system : System World Act := ⟨⟨.new, 0, [0], none, [], false⟩, step nodeId nodeNamespace⟩

end Model

/-- The keys subscribed by some actions. -/
def subscribed (as : List Act) : List TenantKey :=
  as.filterMap fun
    | .subscribe key => some key
    | _ => none

/-- The keys subscribed before the last failure. -/
def owed (as : List Act) : List TenantKey := subscribed (as.rdropWhile (· ≠ .streamFailure))

/-- The requests on the current control plane, with those of the keys in the channel. -/
def requested (nodeId nodeNamespace : String) (w : World) : List SubscribeNamespaceRequest :=
  (w.requests.filter (·.1 = w.retries)).map Prod.snd ++
    w.discovery.tenantKeys.map (subscribeRequest nodeId nodeNamespace)

/-- A report on a backend of the tenant `key`. -/
def ReportOn (key : TenantKey) (service : DBService) : Prop :=
  (∃ e ∈ service.endpoints, e.portName = sqlPort) ∧ ∃ l, service.location = some l ∧
    key = ⟨l.region, l.availableZone, l.namespaceName, service.cluster⟩

/-- The control plane only sends reports, and only on tenants that are subscribed. -/
def Expected (as : List Act) : Prop :=
  ∀ pre p post, as = pre ++ .response p :: post →
    ∃ service, p = some (.changeEvent (some service)) ∧ ∃ key ∈ subscribed pre, ReportOn key service

/-- **Subscribed tenants are routable and stay subscribed.** -/
structure Routable (nodeId nodeNamespace : String) (as : List Act) : Prop where
  /-- A report is entered, and its tenant can be routed to the backend. -/
  report : ∀ pre service post w, as = pre ++ .response (some (.changeEvent (some service))) :: post →
    (system nodeId nodeNamespace).run pre = some w → ∀ key, ReportOn key service →
      ∃ d be draw, recvResponse (some (.changeEvent (some service))) w.discovery = .ok d ∧
        reported service = some be ∧ syncSelector draw d.tenants key .random = .ok be
  /-- After a retry every tenant is requested from the new control plane. -/
  retry : ∀ pre post w, as = pre ++ post → (system nodeId nodeNamespace).run pre = some w →
    ∀ key ∈ owed pre, subscribeRequest nodeId nodeNamespace key ∈ requested nodeId nodeNamespace w

/-! ### One report -/

section Report
variable {d : BackendDiscovery} {service : DBService} {be : BackendInstance}

/-- A report on a tenant of the map is entered into the tenant's list and sent to the receivers. -/
theorem recvResponse_reported (hbe : reported service = some be) {l : List BackendInstance}
    (hl : d.tenants.lookup (listKey be) = some l) :
    recvResponse (some (.changeEvent (some service))) d = .ok { d with
      tenants := d.tenants.insert (listKey be) (enter be l)
      dbInstance := be
      version := d.version + 1 } := by
  simp only [recvResponse, Option.bind_eq_bind, Option.bind_some, hbe, hl]

/-- A report on any other tenant panics. -/
theorem recvResponse_unknown (hbe : reported service = some be)
    (hl : d.tenants.lookup (listKey be) = none) :
    recvResponse (some (.changeEvent (some service))) d = .error .panic := by
  simp only [recvResponse, Option.bind_eq_bind, Option.bind_some, hbe, hl]

/-- No backend has been reported yet. -/
def AllEmpty (tenants : Tenants) : Prop := ∀ t l, tenants.lookup t = some l → l = []

theorem allEmpty_new : AllEmpty BackendDiscovery.new.tenants := by
  intro t l hl
  simp [BackendDiscovery.new] at hl

theorem allEmpty_unsubscribedTenants (h : AllEmpty d.tenants) (key : TenantKey) :
    AllEmpty (unsubscribedTenants key d).tenants := by
  intro t l hl
  rw [unsubscribedTenants] at hl
  by_cases ht : t = key
  · rw [ht, AList.lookup_insert] at hl
    exact (Option.some.inj hl).symm
  · rw [AList.lookup_insert_ne ht] at hl
    exact h t l hl

end Report

/-! ### The map of the tenants -/

section Runs
variable {nodeId nodeNamespace : String} {as : List Act} {w w' : World}

theorem resubscribe_of_empty {d : BackendDiscovery} (h : d.tenants = ∅) : resubscribe d = d := by
  rw [resubscribe, h]
  rfl

theorem recvResponse_of_empty {d : BackendDiscovery} (h : d.tenants = ∅) (service : Option DBService) :
    recvResponse (some (.changeEvent service)) d = .error .panic := by
  unfold recvResponse
  simp only [h, AList.lookup_empty]
  split <;> rfl

/-- A response does not fill the map. -/
theorem tenants_of_recvResponse {payload : Option Payload} {d d' : BackendDiscovery}
    (h : d.tenants = ∅) (hr : recvResponse payload d = .ok d') : d'.tenants = ∅ := by
  match payload with
  | some (.changeEvent service) =>
    rw [recvResponse_of_empty h] at hr
    cases hr
  | none => cases hr
  | some .serviceList => cases hr
  | some .noData => cases hr

/-- What a step does, and where it is possible. -/
inductive Moved (nodeId nodeNamespace : String) (w : World) : Act → World → Prop
  | subscribe {key : TenantKey} : Moved nodeId nodeNamespace w (.subscribe key)
      { w with discovery := subscribeFor key w.discovery }
  | lock {i : ℕ} (hi : i ∈ w.streams) (hfree : w.locked = none) :
    Moved nodeId nodeNamespace w (.lock i) { w with locked := some i }
  | request {i : ℕ} {key : TenantKey} {keys : List TenantKey} (hi : w.locked = some i)
    (hkeys : w.discovery.tenantKeys = key :: keys) : Moved nodeId nodeNamespace w .request { w with
      discovery := { w.discovery with tenantKeys := keys }
      locked := none
      requests := w.requests ++ [(i, subscribeRequest nodeId nodeNamespace key)] }
  | dropStream {i : ℕ} (hi : i ∈ w.streams) : Moved nodeId nodeNamespace w (.dropStream i) { w with
      streams := w.streams.erase i
      locked := if w.locked = some i then none else w.locked }
  | entered {payload : Option Payload} {d : BackendDiscovery} (hlive : w.panicked = false)
    (hd : recvResponse payload w.discovery = .ok d) :
    Moved nodeId nodeNamespace w (.response payload) { w with discovery := d }
  | emptyPayload {payload : Option Payload} (hlive : w.panicked = false)
    (hd : recvResponse payload w.discovery = .error .emptyPayload) :
    Moved nodeId nodeNamespace w (.response payload) (retry w)
  | panic {payload : Option Payload} (hlive : w.panicked = false)
    (hd : recvResponse payload w.discovery = .error .panic) :
    Moved nodeId nodeNamespace w (.response payload) { w with panicked := true }
  | streamFailure (hlive : w.panicked = false) : Moved nodeId nodeNamespace w .streamFailure (retry w)

theorem moved_of_step {a : Act} (hs : step nodeId nodeNamespace w a = some w') :
    Moved nodeId nodeNamespace w a w' := by
  cases a with
  | subscribe key =>
    cases hs
    exact .subscribe
  | lock i =>
    simp only [step] at hs
    split_ifs at hs with hi
    cases hs
    exact .lock hi.1 hi.2
  | request =>
    simp only [step] at hs
    split at hs
    · rename_i i key keys hi hkeys
      cases hs
      exact .request hi hkeys
    · cases hs
  | dropStream i =>
    simp only [step] at hs
    split at hs
    · rename_i hi
      cases hs
      exact .dropStream hi
    · cases hs
  | response payload =>
    simp only [step] at hs
    split_ifs at hs with hp
    have hlive : w.panicked = false := by simpa using hp
    split at hs
    · rename_i d hd
      cases hs
      exact .entered hlive hd
    · rename_i hd
      cases hs
      exact .emptyPayload hlive hd
    · rename_i hd
      cases hs
      exact .panic hlive hd
  | streamFailure =>
    simp only [step] at hs
    split_ifs at hs with hp
    cases hs
    exact .streamFailure (by simpa using hp)

theorem step_tenants {a : Act} (h : w.discovery.tenants = ∅)
    (hs : step nodeId nodeNamespace w a = some w') : w'.discovery.tenants = ∅ := by
  have hretry : (retry w).discovery.tenants = ∅ := by rwa [retry, resubscribe_of_empty h]
  cases moved_of_step hs with
  | subscribe | lock _ _ | request _ _ | dropStream _ | panic _ _ => exact h
  | entered _ hd => exact tenants_of_recvResponse h hd
  | emptyPayload _ _ | streamFailure _ => exact hretry

/-- **The map stays empty** in every run. -/
theorem tenants_eq_empty (h : (system nodeId nodeNamespace).run as = some w) :
    w.discovery.tenants = ∅ :=
  System.invariant (I := fun w => w.discovery.tenants = ∅) rfl (fun _ _ _ => step_tenants) h

/-! ### The request streams -/

/-- No stream is newer than the last retry. -/
structure Dated (w : World) : Prop where
  streams : ∀ i ∈ w.streams, i ≤ w.retries
  locked : ∀ i, w.locked = some i → i ≤ w.retries
  requests : ∀ r ∈ w.requests, r.1 ≤ w.retries

theorem dated_retry (h : Dated w) : Dated (retry w) where
  streams i hi := by
    rcases List.mem_append.mp hi with hi | hi
    · exact Nat.le_succ_of_le (h.streams i hi)
    · exact (List.mem_singleton.mp hi).le
  locked i hi := Nat.le_succ_of_le (h.locked i hi)
  requests r hr := Nat.le_succ_of_le (h.requests r hr)

theorem step_dated {a : Act} (h : Dated w) (hs : step nodeId nodeNamespace w a = some w') : Dated w' := by
  cases moved_of_step hs with
  | subscribe | entered _ _ | panic _ _ => exact ⟨h.streams, h.locked, h.requests⟩
  | @lock i hi _ =>
    refine ⟨h.streams, fun j hj => ?_, h.requests⟩
    cases hj
    exact h.streams i hi
  | @request i key keys hi _ =>
    refine ⟨h.streams, by simp, fun r hr => ?_⟩
    rcases List.mem_append.mp hr with hr | hr
    · exact h.requests r hr
    · rw [List.mem_singleton.mp hr]
      exact h.locked i hi
  | @dropStream i _ =>
    refine ⟨fun j hj => h.streams j (List.mem_of_mem_erase hj), fun j hj => ?_, h.requests⟩
    simp only at hj
    split_ifs at hj
    exact h.locked j hj
  | emptyPayload _ _ | streamFailure _ => exact dated_retry h

theorem dated_run (h : (system nodeId nodeNamespace).run as = some w) : Dated w := by
  refine System.invariant (I := Dated) ⟨?_, ?_, ?_⟩ (fun _ _ _ => step_dated) h <;> simp [system]

/-! ### Which runs are all right -/

/-- Two keys for which `send_stream` makes the same request. -/
def Alike (k key : TenantKey) : Prop :=
  k.region = key.region ∧ k.availableZone = key.availableZone ∧ k.namespaceName = key.namespaceName

/-- Every tenant has a key of its region, zone and namespace in the channel. -/
def Waiting (subs : List TenantKey) (w : World) : Prop :=
  ∀ key ∈ subs, ∃ k ∈ w.discovery.tenantKeys, Alike k key

/-- Every tenant has been requested on the current stream. -/
def Requested (nodeId nodeNamespace : String) (w : World) (key : TenantKey) : Prop :=
  (w.retries, subscribeRequest nodeId nodeNamespace key) ∈ w.requests

/-- The stream with the lock is not an earlier one, or it takes nothing from these tenants: they have been
requested on the current stream or have another key in the channel. -/
def Spares (nodeId nodeNamespace : String) (subs : List TenantKey) (w : World) : Prop :=
  ∀ i k keys, w.locked = some i → i ≠ w.retries → w.discovery.tenantKeys = k :: keys →
    ∀ key ∈ subs, Alike k key → Requested nodeId nodeNamespace w key ∨ ∃ k' ∈ keys, Alike k' key

/-- No report arrives, the stream fails only while every tenant's key is in the channel, and what an
earlier stream takes then was not needed. -/
structure Idle (nodeId nodeNamespace : String) (as : List Act) : Prop where
  silent : ∀ p, Act.response p ∉ as
  waiting : ∀ pre post w, as = pre ++ .streamFailure :: post →
    (system nodeId nodeNamespace).run pre = some w → Waiting (subscribed pre) w
  spares : ∀ pre post w, as = pre ++ .request :: post →
    (system nodeId nodeNamespace).run pre = some w → Spares nodeId nodeNamespace (owed pre) w

theorem subscribeRequest_eq {k key : TenantKey} :
    subscribeRequest nodeId nodeNamespace k = subscribeRequest nodeId nodeNamespace key ↔
      Alike k key := by
  simp [subscribeRequest, Alike]

theorem mem_requested {key : TenantKey} :
    subscribeRequest nodeId nodeNamespace key ∈ requested nodeId nodeNamespace w ↔
      Requested nodeId nodeNamespace w key ∨ ∃ k ∈ w.discovery.tenantKeys, Alike k key := by
  unfold requested Requested
  simp only [List.mem_append, List.mem_map, List.mem_filter, decide_eq_true_eq, Prod.exists,
    exists_eq_right, subscribeRequest_eq]

/-- After a retry only what is in the channel is requested. -/
theorem mem_requested_retry (h : w.discovery.tenants = ∅) (hd : Dated w) (subs : List TenantKey) :
    (∀ key ∈ subs, subscribeRequest nodeId nodeNamespace key ∈
      requested nodeId nodeNamespace (retry w)) ↔ Waiting subs w := by
  refine forall₂_congr fun key _ => ?_
  rw [mem_requested, or_iff_right]
  · unfold retry
    simp only [resubscribe_of_empty h]
  · intro hr
    exact absurd (hd.requests _ hr) (by simp [retry])

/-- A stream takes a key. -/
theorem mem_requested_request {subs : List TenantKey}
    (h : ∀ key ∈ subs, subscribeRequest nodeId nodeNamespace key ∈ requested nodeId nodeNamespace w)
    (hs : step nodeId nodeNamespace w .request = some w') :
    (∀ key ∈ subs, subscribeRequest nodeId nodeNamespace key ∈ requested nodeId nodeNamespace w') ↔
      Spares nodeId nodeNamespace subs w := by
  cases moved_of_step hs with
  | @request i k keys hi hkeys =>
    simp only [mem_requested, Requested, List.mem_append, List.mem_singleton, Prod.mk.injEq,
      subscribeRequest_eq] at h ⊢
    constructor
    · intro hafter j k' keys' hj hne hk key hkey halike
      obtain rfl : i = j := Option.some.inj (hi.symm.trans hj)
      obtain ⟨rfl, rfl⟩ := List.cons.inj (hkeys.symm.trans hk)
      rcases hafter key hkey with (hr | ⟨rfl, -⟩) | hw
      · exact .inl hr
      · exact absurd rfl hne
      · exact .inr hw
    · intro hsp key hkey
      rcases h key hkey with hr | ⟨k', hk', halike⟩
      · exact .inl (.inl hr)
      · rw [hkeys] at hk'
        rcases List.mem_cons.mp hk' with rfl | hk'
        · -- the key that is taken
          by_cases hcur : i = w.retries
          · exact .inl (.inr ⟨hcur.symm, ⟨halike.1.symm, halike.2.1.symm, halike.2.2.symm⟩⟩)
          · exact (hsp i k' keys hi hcur hkeys key hkey halike).imp_left .inl
        · exact .inr ⟨k', hk', halike⟩

@[simp] theorem owed_snoc (as : List Act) (a : Act) :
    owed (as ++ [a]) = if a = .streamFailure then subscribed as else owed as := by
  unfold owed
  rw [List.rdropWhile_concat]
  by_cases ha : a = .streamFailure
  · simp [ha, subscribed]
  · simp [ha]

/-- What is requested stays requested, unless a stream takes a key or fails. -/
theorem mem_requested_step {a : Act} {key : TenantKey} (hreq : a ≠ .request) (hfail : a ≠ .streamFailure)
    (hresp : ∀ p, a ≠ .response p) (hs : step nodeId nodeNamespace w a = some w')
    (h : subscribeRequest nodeId nodeNamespace key ∈ requested nodeId nodeNamespace w) :
    subscribeRequest nodeId nodeNamespace key ∈ requested nodeId nodeNamespace w' := by
  cases moved_of_step hs with
  | subscribe =>
    rw [mem_requested] at h ⊢
    rcases h with h | ⟨k', hk', halike⟩
    · exact .inl h
    · exact .inr ⟨k', by simp [subscribeFor, hk'], halike⟩
  | lock _ _ | dropStream _ => exact h
  | request _ _ => exact absurd rfl hreq
  | entered _ _ | emptyPayload _ _ | panic _ _ => exact absurd rfl (hresp _)
  | streamFailure _ => exact absurd rfl hfail

/-- **Every tenant stays requested** along the runs that leave the keys alone. -/
theorem mem_requested_run (hidle : Idle nodeId nodeNamespace as) :
    ∀ pre post w, as = pre ++ post → (system nodeId nodeNamespace).run pre = some w →
      ∀ key ∈ owed pre, subscribeRequest nodeId nodeNamespace key ∈ requested nodeId nodeNamespace w := by
  intro pre
  induction pre using List.reverseRecOn with
  | nil =>
    intro post w _ _ key hkey
    simp [owed, subscribed] at hkey
  | append_singleton pre a ih =>
    intro post w he hrun
    obtain ⟨v, hv, hs⟩ := System.run_snoc_eq_some.mp hrun
    have he' : as = pre ++ a :: post := by rw [he, List.append_assoc, List.singleton_append]
    by_cases hfail : a = .streamFailure
    · subst hfail
      rw [owed_snoc, if_pos rfl]
      cases moved_of_step (show step nodeId nodeNamespace v .streamFailure = some w from hs)
      exact (mem_requested_retry (tenants_eq_empty hv) (dated_run hv) _).mpr (hidle.waiting _ _ _ he' hv)
    · rw [owed_snoc, if_neg hfail]
      have hbefore := ih _ v he' hv
      by_cases hreq : a = .request
      · subst hreq
        exact (mem_requested_request hbefore hs).mpr (hidle.spares _ _ _ he' hv)
      · refine fun key hkey => mem_requested_step hreq hfail (fun p hp => ?_) hs (hbefore key hkey)
        exact hidle.silent p (by rw [he', hp]; simp)

/-- **Routing.** A run of expected actions keeps the subscribed tenants routable and subscribed if and
only if no report arrives in it, the stream fails only while every key is still in the channel, and no
earlier stream takes a key that is needed. -/
theorem routable_iff (hrun : (system nodeId nodeNamespace).run as = some w) (hexp : Expected as) :
    Routable nodeId nodeNamespace as ↔ Idle nodeId nodeNamespace as := by
  constructor
  · intro h
    refine ⟨fun p hp => ?_, fun pre post v he hv => ?_, fun pre post v he hv => ?_⟩
    · -- the report that arrives finds an empty map
      obtain ⟨pre, post, rfl⟩ := List.append_of_mem hp
      obtain ⟨service, rfl, key, -, hkey⟩ := hexp pre p post rfl
      obtain ⟨v, hv⟩ := System.exists_run_of_append hrun
      obtain ⟨d, be, draw, hok, -⟩ := h.report pre service post v rfl hv key hkey
      rw [recvResponse_of_empty (tenants_eq_empty hv)] at hok
      cases hok
    · obtain ⟨v', hs, hv'⟩ := System.exists_step_of_append (he ▸ hrun) hv
      have hafter := h.retry _ post v' (by simpa using he) hv'
      rw [owed_snoc, if_pos rfl] at hafter
      cases moved_of_step (show step nodeId nodeNamespace v .streamFailure = some v' from hs)
      exact (mem_requested_retry (tenants_eq_empty hv) (dated_run hv) _).mp hafter
    · obtain ⟨v', hs, hv'⟩ := System.exists_step_of_append (he ▸ hrun) hv
      have hafter := h.retry _ post v' (by simpa using he) hv'
      rw [owed_snoc, if_neg (by simp)] at hafter
      exact (mem_requested_request (h.retry pre _ v he hv) hs).mp hafter
  · intro hidle
    refine ⟨fun pre service post v he _ => ?_, mem_requested_run hidle⟩
    exact absurd (by rw [he]; simp) (hidle.silent (some (.changeEvent (some service))))

end Runs

/-- A tenant without region and zone, and a report on a backend of it. -/
def sampleKey : TenantKey := ⟨"", "", "n", "c"⟩

def sampleService : DBService :=
  ⟨some ⟨"", "", "n", "node-1"⟩, "c", .ready, [⟨"10.0.0.1", sqlPort, 4000⟩]⟩

/-- The stream fails before the key of the tenant has been taken from the channel, and is dropped. -/
def waitingRun : List Act :=
  [.lock 0, .subscribe sampleKey, .streamFailure, .dropStream 0, .lock 1, .request]

theorem routable_waiting : Routable "p" "ns" waitingRun := by
  have hrun : ∃ w, (system "p" "ns").run waitingRun = some w := ⟨_, rfl⟩
  obtain ⟨w, hw⟩ := hrun
  have hsilent : ∀ p, Act.response p ∉ waitingRun := by simp [waitingRun]
  refine (routable_iff hw fun pre p post he => ?_).mpr ⟨hsilent, ?_, ?_⟩
  · exact absurd (by rw [he]; simp) (hsilent p)
  · intro pre post v he hv key hkey
    rcases pre with _ | ⟨a, _ | ⟨b, _ | ⟨c, _ | ⟨d, _ | ⟨e, _ | ⟨f, pre⟩⟩⟩⟩⟩⟩ <;>
      simp [waitingRun] at he
    obtain ⟨rfl, rfl, -⟩ := he
    cases hv
    obtain rfl : key = sampleKey := by simpa [subscribed] using hkey
    exact ⟨sampleKey, List.mem_singleton_self _, rfl, rfl, rfl⟩
  · intro pre post v he hv
    rcases pre with _ | ⟨a, _ | ⟨b, _ | ⟨c, _ | ⟨d, _ | ⟨e, _ | ⟨f, pre⟩⟩⟩⟩⟩⟩ <;>
      simp [waitingRun] at he
    obtain ⟨rfl, rfl, rfl, rfl, rfl, -⟩ := he
    cases hv
    intro i k keys hi hne
    cases hi
    exact absurd rfl hne

/-- A subscribed tenant's first report panics. After a failure its key is not requested again if it had
been taken from the channel, nor if the stream that has failed takes it. -/
theorem sampleKey_not_routable :
    (Expected [.lock 0, .subscribe sampleKey, .request,
        .response (some (.changeEvent (some sampleService)))] ∧
      ¬ Routable "p" "ns" [.lock 0, .subscribe sampleKey, .request,
        .response (some (.changeEvent (some sampleService)))]) ∧
    ¬ Routable "p" "ns" [.lock 0, .subscribe sampleKey, .request, .streamFailure] ∧
    ¬ Routable "p" "ns" [.lock 0, .subscribe sampleKey, .streamFailure, .request] := by
  have hkey : ReportOn sampleKey sampleService := ⟨by decide, _, rfl, rfl⟩
  refine ⟨⟨?_, fun h => ?_⟩, fun h => ?_, fun h => ?_⟩
  · intro pre p post he
    rcases pre with _ | ⟨a, _ | ⟨b, _ | ⟨c, _ | ⟨d, pre⟩⟩⟩⟩
    · simp at he
    · simp at he
    · simp at he
    · simp only [List.cons_append, List.nil_append, List.cons.injEq, Act.response.injEq] at he
      obtain ⟨rfl, rfl, rfl, rfl, -⟩ := he
      exact ⟨sampleService, rfl, sampleKey, by decide, hkey⟩
    · simp at he
  · obtain ⟨d, be, draw, hok, -⟩ := h.report [.lock 0, .subscribe sampleKey, .request] sampleService [] _
      rfl rfl sampleKey hkey
    rw [recvResponse_of_empty rfl] at hok
    cases hok
  · have hmem := h.retry [.lock 0, .subscribe sampleKey, .request, .streamFailure] [] _ rfl rfl sampleKey
      (by decide)
    exact absurd hmem (by decide)
  · have hmem := h.retry [.lock 0, .subscribe sampleKey, .streamFailure, .request] [] _ rfl rfl sampleKey
      (by decide)
    exact absurd hmem (by decide)

end Haentgl.Backend.Discovery
