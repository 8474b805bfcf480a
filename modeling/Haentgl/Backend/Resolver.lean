import Haentgl.Lib.Runs
import Mathlib.Data.List.AList

/-! # The control planes and the choice between them

The resolver's task refreshes the members of the control plane: it drops those that are not listed any
more and connects to the listed ones, one after the other. The discovery's task picks a member, marks it
unavailable when the subscription fails, and picks again. Both work on one map of shared channels.

A pick visits the members of the map one by one and collects the channels that are available. Members
that come or go meanwhile may or may not be met; one that is there all the time is. The pick takes an
element of what it has collected, and panics if that is nothing. -/

namespace Haentgl.Backend.Resolver

open Haentgl.Lib.Runs

/-- A member as the control plane lists it; the other fields are not read. -/
structure CpBackend where
  name : String
  generation : ℕ
  serviceAddr : String
  address : String
  deriving DecidableEq, Repr

inductive CpChannelStatus
  | unavailable
  | available
  deriving DecidableEq, Repr

/-- A channel; `channel` is the number of its connection. -/
structure CpChannel where
  status : CpChannelStatus
  generation : ℕ
  channel : ℕ
  backendName : String
  service : String
  endpoint : String
  deriving DecidableEq, Repr

/-- The map gives the place of a member's channel among the shared channels. -/
structure CpResolver where
  cpBackends : AList fun _ : String => ℕ
  channels : List CpChannel
  started : Bool
  pickIndex : ℕ

namespace CpResolver

def new : CpResolver := ⟨∅, [], false, 0⟩

/-- The members that are not listed any more. -/
def removeKeys (newCpBackend : List CpBackend) (r : CpResolver) : List String :=
  r.cpBackends.keys.filter fun name => !newCpBackend.any fun b => b.name = name

def remove (name : String) (r : CpResolver) : CpResolver :=
  { r with cpBackends := r.cpBackends.erase name }

/-- `CpChannel::new` on a connection. -/
def newChannel (b : CpBackend) (connection : ℕ) : CpChannel :=
  ⟨.available, b.generation, connection, b.name, b.serviceAddr, b.address⟩

/-- What a new connection to a member makes of its old channel. -/
def renew (b : CpBackend) (connection : ℕ) (old : CpChannel) : CpChannel :=
  match old.status with
  | .unavailable =>
    { old with status := .available, generation := b.generation, channel := connection }
  | .available =>
    if b.generation > old.generation then
      { old with generation := b.generation, channel := connection }
    else old

/-- One member of `update_backends`; `connection` is the outcome of connecting to it. -/
def update (b : CpBackend) (connection : Option ℕ) (r : CpResolver) : CpResolver :=
  match connection with
  | some c =>
    match r.cpBackends.lookup b.name with
    | some i => { r with channels := r.channels.modify i (renew b c) }
    | none => { r with
        cpBackends := r.cpBackends.insert b.name r.channels.length
        channels := r.channels ++ [newChannel b c] }
  | none => r.remove b.name

def markBackendUnavailable (name : String) (r : CpResolver) : CpResolver :=
  match r.cpBackends.lookup name with
  | some i => { r with channels := r.channels.modify i fun c => { c with status := .unavailable } }
  | none => r

/-- The end of `get_cp_backend`: the index moves on, and starts again behind the last element. -/
def pick {α : Type} (available : List α) (r : CpResolver) : Option α × CpResolver :=
  let index := if r.pickIndex + 1 ≥ available.length then 0 else r.pickIndex + 1
  (available[index]?, { r with pickIndex := index })

end CpResolver

/-! ### The two tasks -/

/-- A visit of a pick: the member, the place of its channel, and the status found there. -/
structure Visit where
  name : String
  place : ℕ
  status : CpChannelStatus
  deriving DecidableEq, Repr

/-- The resolver waits for its ticker, or has members to remove and members to connect to. -/
inductive ResolverTask
  | idle
  | updating (removeKeys : List String) (backends : List CpBackend)
  deriving DecidableEq, Repr

/-- The discovery waits for the first refresh, visits the members (`pending` are those that were there
from the start on and have not been visited), has picked a channel, is subscribed to it, or has failed. -/
inductive DiscoveryTask
  | waiting
  | collecting (pending : List String) (visits : List Visit)
  | picked (visit : Visit)
  | subscribed (channel : CpChannel)
  | failed (backendName : String)
  | panicked
  deriving DecidableEq, Repr

structure State where
  resolver : CpResolver
  refresh : ResolverTask
  discovery : DiscoveryTask

inductive Act
  | refresh (backends : List CpBackend)
  | remove
  | connect (connection : Option ℕ)
  | refreshed
  | start
  | visit (name : String)
  | pick
  | read
  | failure
  | mark
  deriving DecidableEq, Repr

/-- A member that is removed need not be visited. -/
def DiscoveryTask.forget (name : String) : DiscoveryTask → DiscoveryTask
  | .collecting pending visits => .collecting (pending.filter (· ≠ name)) visits
  | t => t

/-- The channels that a pick has collected. -/
def collected (visits : List Visit) : List Visit := visits.filter fun v => v.status = .available

def step (s : State) : Act → Option State
  | .refresh backends =>
    match s.refresh with
    | .idle => some { s with refresh := .updating (s.resolver.removeKeys backends) backends }
    | _ => none
  | .remove =>
    match s.refresh with
    | .updating (name :: names) backends => some
        ⟨s.resolver.remove name, .updating names backends, s.discovery.forget name⟩
    | _ => none
  | .connect connection =>
    match s.refresh with
    | .updating [] (b :: backends) => some
        ⟨s.resolver.update b connection, .updating [] backends,
          if connection = none then s.discovery.forget b.name else s.discovery⟩
    | _ => none
  | .refreshed =>
    match s.refresh with
    | .updating [] [] =>
      let started := s.resolver.started || !s.resolver.cpBackends.keys.isEmpty
      some { s with resolver := { s.resolver with started := started }, refresh := .idle }
    | _ => none
  | .start =>
    if s.resolver.started ∧ s.discovery = .waiting then
      some { s with discovery := .collecting s.resolver.cpBackends.keys [] }
    else none
  | .visit name =>
    match s.discovery, s.resolver.cpBackends.lookup name with
    | .collecting pending visits, some place =>
      match s.resolver.channels[place]? with
      | some c =>
        if ∀ v ∈ visits, v.name ≠ name then some { s with
          discovery := .collecting (pending.filter (· ≠ name)) (visits ++ [⟨name, place, c.status⟩]) }
        else none
      | none => none
    | _, _ => none
  | .pick =>
    match s.discovery with
    | .collecting [] visits =>
      match s.resolver.pick (collected visits) with
      | (some v, r) => some { s with resolver := r, discovery := .picked v }
      | (none, r) => some { s with resolver := r, discovery := .panicked }
    | _ => none
  | .read =>
    match s.discovery with
    | .picked v => s.resolver.channels[v.place]?.map fun c => { s with discovery := .subscribed c }
    | _ => none
  | .failure =>
    match s.discovery with
    | .subscribed c => some { s with discovery := .failed c.backendName }
    | _ => none
  | .mark =>
    match s.discovery with
    | .failed name =>
      let r := s.resolver.markBackendUnavailable name
      some { s with resolver := r, discovery := .collecting r.cpBackends.keys [] }
    | _ => none

def system : System State Act := ⟨⟨.new, .idle, .waiting⟩, step⟩

/-- The only member of a control plane. -/
def onlyMember : CpBackend := ⟨"cp-0", 1, "10.0.0.2:3200", "10.0.0.2:3201"⟩

/-! ### The steps of the resolver -/

theorem length_update (b : CpBackend) (connection : Option ℕ) (r : CpResolver) :
    r.channels.length ≤ (r.update b connection).channels.length := by
  unfold CpResolver.update
  split
  · split
    · simp
    · simp
  · exact le_rfl

/-- The places of a map are places of channels. -/
def Placed (r : CpResolver) : Prop :=
  ∀ name i, r.cpBackends.lookup name = some i → i < r.channels.length

theorem placed_remove {r : CpResolver} (h : Placed r) (name : String) : Placed (r.remove name) := by
  intro n i hi
  by_cases hn : n = name
  · subst hn
    simp [CpResolver.remove] at hi
  · rw [CpResolver.remove, AList.lookup_erase_ne hn] at hi
    exact h n i hi

theorem placed_update {r : CpResolver} (h : Placed r) (b : CpBackend) (connection : Option ℕ) :
    Placed (r.update b connection) := by
  unfold CpResolver.update
  split
  · split
    · intro n i hi
      rw [List.length_modify]
      exact h n i hi
    · intro n i hi
      rw [List.length_append, List.length_singleton]
      by_cases hn : n = b.name
      · subst hn
        rw [AList.lookup_insert] at hi
        cases hi
        omega
      · rw [AList.lookup_insert_ne hn] at hi
        have := h n i hi
        omega
  · exact placed_remove h b.name

theorem placed_markBackendUnavailable {r : CpResolver} (h : Placed r) (name : String) :
    Placed (r.markBackendUnavailable name) := by
  unfold CpResolver.markBackendUnavailable
  split
  · intro n i hi
    rw [List.length_modify]
    exact h n i hi
  · exact h

/-- What a pick returns has been collected. -/
theorem pick_eq_some {α : Type} {available : List α} {r r' : CpResolver} {a : α}
    (h : r.pick available = (some a, r')) :
    a ∈ available ∧ r'.cpBackends = r.cpBackends ∧ r'.channels = r.channels := by
  obtain ⟨h1, h2⟩ := Prod.mk.inj h
  subst h2
  exact ⟨List.mem_of_getElem? h1, rfl, rfl⟩

/-- A pick returns nothing only if nothing was collected. -/
theorem pick_eq_none {α : Type} {available : List α} {r r' : CpResolver}
    (h : r.pick available = (none, r')) : available = [] := by
  obtain ⟨h1, -⟩ := Prod.mk.inj h
  rw [List.getElem?_eq_none_iff] at h1
  rcases available with _ | ⟨a, l⟩
  · rfl
  · simp only [List.length_cons] at h1
    split_ifs at h1 <;> omega

/-! ### The steps of the two tasks -/

theorem collecting_of_forget {t : DiscoveryTask} {name : String} {pending : List String}
    {visits : List Visit} (h : t.forget name = .collecting pending visits) :
    ∃ pending', t = .collecting pending' visits := by
  cases t with
  | collecting p v =>
    cases h
    exact ⟨p, rfl⟩
  | waiting => cases h
  | picked v => cases h
  | subscribed c => cases h
  | failed n => cases h
  | panicked => cases h

theorem forget_of_not_collecting {t : DiscoveryTask} {name : String}
    (h : ∀ pending visits, t ≠ .collecting pending visits) : t.forget name = t := by
  cases t with
  | collecting p v => exact absurd rfl (h p v)
  | waiting => rfl
  | picked v => rfl
  | subscribed c => rfl
  | failed n => rfl
  | panicked => rfl

/-- What a step does, and where it is possible. -/
inductive Moved (t : State) : Act → State → Prop
  | refresh {backends : List CpBackend} (hr : t.refresh = .idle) :
    Moved t (.refresh backends)
      { t with refresh := .updating (t.resolver.removeKeys backends) backends }
  | remove {name : String} {names : List String} {backends : List CpBackend}
    (hr : t.refresh = .updating (name :: names) backends) :
    Moved t .remove ⟨t.resolver.remove name, .updating names backends, t.discovery.forget name⟩
  | connect {b : CpBackend} {backends : List CpBackend} {c : ℕ}
    (hr : t.refresh = .updating [] (b :: backends)) :
    Moved t (.connect (some c)) ⟨t.resolver.update b (some c), .updating [] backends, t.discovery⟩
  | lose {b : CpBackend} {backends : List CpBackend} (hr : t.refresh = .updating [] (b :: backends)) :
    Moved t (.connect none)
      ⟨t.resolver.remove b.name, .updating [] backends, t.discovery.forget b.name⟩
  | refreshed (hr : t.refresh = .updating [] []) :
    Moved t .refreshed { t with
      resolver := { t.resolver with
        started := t.resolver.started || !t.resolver.cpBackends.keys.isEmpty }
      refresh := .idle }
  | start (hs : t.resolver.started = true) (hd : t.discovery = .waiting) :
    Moved t .start { t with discovery := .collecting t.resolver.cpBackends.keys [] }
  | visit {name : String} {pending : List String} {visits : List Visit} {place : ℕ} {c : CpChannel}
    (hd : t.discovery = .collecting pending visits) (hl : t.resolver.cpBackends.lookup name = some place)
    (hc : t.resolver.channels[place]? = some c) (hv : ∀ v ∈ visits, v.name ≠ name) :
    Moved t (.visit name) { t with
      discovery := .collecting (pending.filter (· ≠ name)) (visits ++ [⟨name, place, c.status⟩]) }
  | pick {visits : List Visit} {v : Visit} {r : CpResolver} (hd : t.discovery = .collecting [] visits)
    (hp : t.resolver.pick (collected visits) = (some v, r)) :
    Moved t .pick { t with resolver := r, discovery := .picked v }
  | panic {visits : List Visit} {r : CpResolver} (hd : t.discovery = .collecting [] visits)
    (hp : t.resolver.pick (collected visits) = (none, r)) :
    Moved t .pick { t with resolver := r, discovery := .panicked }
  | read {v : Visit} {c : CpChannel} (hd : t.discovery = .picked v)
    (hc : t.resolver.channels[v.place]? = some c) :
    Moved t .read { t with discovery := .subscribed c }
  | failure {c : CpChannel} (hd : t.discovery = .subscribed c) :
    Moved t .failure { t with discovery := .failed c.backendName }
  | mark {name : String} (hd : t.discovery = .failed name) :
    Moved t .mark { t with
      resolver := t.resolver.markBackendUnavailable name
      discovery := .collecting (t.resolver.markBackendUnavailable name).cpBackends.keys [] }

theorem moved_of_step {t t' : State} {a : Act} (hs : step t a = some t') : Moved t a t' := by
  cases a with
  | refresh backends =>
    simp only [step] at hs
    split at hs
    · rename_i hr
      cases hs
      exact .refresh hr
    · cases hs
  | remove =>
    simp only [step] at hs
    split at hs
    · rename_i hr
      cases hs
      exact .remove hr
    · cases hs
  | connect connection =>
    simp only [step] at hs
    split at hs
    · rename_i hr
      cases hs
      cases connection with
      | some c => exact .connect hr
      | none => exact .lose hr
    · cases hs
  | refreshed =>
    simp only [step] at hs
    split at hs
    · rename_i hr
      cases hs
      exact .refreshed hr
    · cases hs
  | start =>
    simp only [step] at hs
    split_ifs at hs with hstart
    cases hs
    exact .start hstart.1 hstart.2
  | visit name =>
    simp only [step] at hs
    split at hs
    · rename_i pending visits place hd hl
      split at hs
      · rename_i c hc
        split_ifs at hs with hv
        cases hs
        exact .visit hd hl hc hv
      · cases hs
    · cases hs
  | pick =>
    simp only [step] at hs
    split at hs
    · rename_i visits hd
      split at hs
      · rename_i v r hp
        cases hs
        exact .pick hd hp
      · rename_i r hp
        cases hs
        exact .panic hd hp
    · cases hs
  | read =>
    simp only [step] at hs
    split at hs
    · rename_i v hd
      obtain ⟨c, hc, rfl⟩ := Option.map_eq_some_iff.mp hs
      exact .read hd hc
    · cases hs
  | failure =>
    simp only [step] at hs
    split at hs
    · rename_i c hd
      cases hs
      exact .failure hd
    · cases hs
  | mark =>
    simp only [step] at hs
    split at hs
    · rename_i name hd
      cases hs
      exact .mark hd
    · cases hs

end Haentgl.Backend.Resolver
