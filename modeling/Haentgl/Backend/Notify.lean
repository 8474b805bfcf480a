import Haentgl.Backend.Discovery

/-! # Reports on their way to the pools

`recv_stream` passes every report on through a channel that keeps only the latest value. The notifier
of `status_change_notify` waits for a change, takes the value and builds the pool, each in a step of its
own, while `recv_stream` goes on. A report that is sent before the previous one has been taken replaces
it, and no pool is ever built for the one that is gone: `pools_iff` says that nothing is missing in the
end exactly if no report was sent so. -/

namespace Haentgl.Backend.Notify

open Haentgl.Lib.Runs Haentgl.Backend.Keys Haentgl.Backend.Manager
open Haentgl.Backend.Discovery (BackendDiscovery DBService Payload reported listKey enter recvResponse
  recvResponse_reported recvResponse_unknown unsubscribedTenants sqlPort AllEmpty allEmpty_new
  allEmpty_unsubscribedTenants)

/-- Where the notifier is in its loop: it waits for a change, has seen one, or has taken a value. -/
inductive Notifier
  | waiting
  | awake
  | holding (be : BackendInstance)
  deriving DecidableEq, Repr

/-- The event loop, the notifier with the version it has seen, and the pools. -/
structure State where
  discovery : BackendDiscovery
  notifier : Notifier
  seen : ℕ
  mgr : BackendMgr

inductive Act
  | event (service : DBService)
  | changed
  | borrowAndUpdate
  | callback
  deriving DecidableEq, Repr

def step (s : State) : Act → Option State
  | .event service =>
    match recvResponse (some (.changeEvent (some service))) s.discovery with
    | .ok d => some { s with discovery := d }
    | .error _ => none
  | .changed =>
    -- `changed` marks the version it returns for as seen
    if s.notifier = .waiting ∧ s.seen ≠ s.discovery.version then
      some { s with notifier := .awake, seen := s.discovery.version }
    else none
  | .borrowAndUpdate =>
    if s.notifier = .awake then
      some { s with notifier := .holding s.discovery.dbInstance, seen := s.discovery.version }
    else none
  | .callback =>
    match s.notifier with
    | .holding be => some { s with notifier := .waiting, mgr := (initBackendPool (.ok ()) be s.mgr).2 }
    | _ => none

/-- The map has the given tenants, with empty lists. -/
def start (keys : List TenantKey) : State :=
  ⟨keys.foldl (fun d key => unsubscribedTenants key d) .new, .waiting, 0, .new⟩

def system (keys : List TenantKey) : System State Act := ⟨start keys, step⟩

/-- The reports sent by some actions. -/
def sent (as : List Act) : List BackendInstance :=
  as.filterMap fun
    | .event service => reported service
    | _ => none

/-- Every event reports a backend of one of the tenants that is ready, and no two the same address. -/
structure Reports (keys : List TenantKey) (as : List Act) : Prop where
  report : ∀ service, Act.event service ∈ as →
    ∃ be, reported service = some be ∧ be.status = .ready ∧ listKey be ∈ keys
  distinct : ((sent as).map BackendInstance.addr).Nodup

/-- A backend in the list of a tenant. -/
def InLists (d : BackendDiscovery) (be : BackendInstance) : Prop :=
  ∃ k l, d.tenants.lookup k = some l ∧ be ∈ l

/-- The notifier has nothing left to do. -/
def Quiet (s : State) : Prop := s.notifier = .waiting ∧ s.seen = s.discovery.version

/-- The latest value has not been taken. -/
def Untaken (s : State) : Prop := s.notifier = .awake ∨ s.seen ≠ s.discovery.version

instance (s : State) : Decidable (Untaken s) :=
  inferInstanceAs (Decidable (s.notifier = .awake ∨ s.seen ≠ s.discovery.version))

/-- A report is sent only after the previous one has been taken. -/
def Spaced (s : State) : Act → Prop
  | .event _ => ¬ Untaken s
  | _ => True

instance (s : State) : (a : Act) → Decidable (Spaced s a)
  | .event _ => inferInstanceAs (Decidable (¬ Untaken s))
  | .changed | .borrowAndUpdate | .callback => .isTrue trivial

/-! ### Steps -/

variable {keys : List TenantKey} {as : List Act} {s s' : State}

theorem mem_start (keys : List TenantKey) (d : BackendDiscovery) (k : TenantKey) :
    k ∈ (keys.foldl (fun d key => unsubscribedTenants key d) d).tenants ↔ k ∈ keys ∨ k ∈ d.tenants := by
  induction keys generalizing d with
  | nil => simp
  | cons key keys ih =>
    rw [List.foldl_cons, ih, unsubscribedTenants, AList.mem_insert, List.mem_cons]
    tauto

theorem allEmpty_start (keys : List TenantKey) {d : BackendDiscovery} (h : AllEmpty d.tenants) :
    AllEmpty (keys.foldl (fun d key => unsubscribedTenants key d) d).tenants := by
  induction keys generalizing d with
  | nil => exact h
  | cons key keys ih => exact ih (allEmpty_unsubscribedTenants h key)

theorem version_start (keys : List TenantKey) (d : BackendDiscovery) :
    (keys.foldl (fun d key => unsubscribedTenants key d) d).version = d.version := by
  induction keys generalizing d with
  | nil => rfl
  | cons key keys ih =>
    rw [List.foldl_cons, ih]
    rfl

/-- What an event does that reports a backend of a tenant of the map. -/
theorem step_event {service : DBService} {be : BackendInstance} (hr : reported service = some be)
    (h : step s (.event service) = some s') :
    ∃ l, s.discovery.tenants.lookup (listKey be) = some l ∧ s' = { s with discovery := { s.discovery with
      tenants := s.discovery.tenants.insert (listKey be) (enter be l)
      dbInstance := be
      version := s.discovery.version + 1 } } := by
  cases hl : s.discovery.tenants.lookup (listKey be) with
  | none =>
    simp only [step, recvResponse_unknown hr hl] at h
    cases h
  | some l =>
    simp only [step, recvResponse_reported hr hl] at h
    cases h
    exact ⟨l, rfl, rfl⟩

/-- A backend with a new address is added to the lists. -/
theorem inLists_insert {d : BackendDiscovery} {be : BackendInstance} {l : List BackendInstance}
    (hl : d.tenants.lookup (listKey be) = some l) (hnew : ∀ e, InLists d e → e.addr ≠ be.addr)
    (v : ℕ) (e : BackendInstance) :
    InLists ⟨d.tenantKeys, d.tenants.insert (listKey be) (enter be l), be, v⟩ e ↔
      InLists d e ∨ e = be := by
  constructor
  · rintro ⟨k, l', hl', he⟩
    by_cases hk : k = listKey be
    · subst hk
      rw [AList.lookup_insert] at hl'
      cases hl'
      rcases List.mem_append.mp he with he | he
      · exact .inl ⟨_, l, hl, (List.mem_filter.mp he).1⟩
      · exact .inr (List.mem_singleton.mp he)
    · rw [AList.lookup_insert_ne hk] at hl'
      exact .inl ⟨k, l', hl', he⟩
  · rintro (⟨k, l', hl', he⟩ | rfl)
    · by_cases hk : k = listKey be
      · subst hk
        rw [hl] at hl'
        cases hl'
        refine ⟨_, enter be l, AList.lookup_insert _, List.mem_append_left _ ?_⟩
        exact List.mem_filter.mpr ⟨he, by simpa using hnew e ⟨_, l, hl, he⟩⟩
      · exact ⟨k, l', by rw [AList.lookup_insert_ne hk]; exact hl', he⟩
    · exact ⟨_, enter e l, AList.lookup_insert _, by simp [enter]⟩

/-! ### Where a report can be -/

/-- A report has its pool, is held by the notifier, or is the value to be taken next. -/
def Covered (s : State) (be : BackendInstance) : Prop :=
  be ∈ s.mgr.beConnPool ∨ s.notifier = .holding be ∨ Untaken s ∧ be = s.discovery.dbInstance

/-- The lists are the reports sent; what is on its way comes from them, and the value to be taken is
nowhere else; no report is lost exactly if all of them were spaced. -/
structure Inv (keys : List TenantKey) (as : List Act) (s : State) : Prop where
  map : ∀ k ∈ keys, k ∈ s.discovery.tenants
  lists : ∀ be, InLists s.discovery be ↔ be ∈ sent as
  seen : s.seen ≤ s.discovery.version
  ready : ∀ k ∈ s.mgr.beConnPool, k.status = .ready
  pool : ∀ be ∈ s.mgr.beConnPool, be ∈ sent as
  held : ∀ be, s.notifier = .holding be → be ∈ sent as
  untaken : Untaken s → s.discovery.dbInstance ∈ sent as ∧
    s.discovery.dbInstance ∉ s.mgr.beConnPool ∧ s.notifier ≠ .holding s.discovery.dbInstance
  cover : (system keys).Every Spaced as ↔ ∀ be ∈ sent as, Covered s be

theorem sent_append (as bs : List Act) : sent (as ++ bs) = sent as ++ sent bs := List.filterMap_append

/-- An action that sends nothing does not count. -/
theorem sent_snoc {a : Act} (ha : ∀ service, a ≠ .event service) : sent (as ++ [a]) = sent as := by
  rw [sent_append]
  cases a with
  | event service => exact absurd rfl (ha service)
  | changed => simp [sent]
  | borrowAndUpdate => simp [sent]
  | callback => simp [sent]

theorem every_spaced_snoc {a : Act} (ha : ∀ service, a ≠ .event service) :
    (system keys).Every Spaced (as ++ [a]) ↔ (system keys).Every Spaced as := by
  rw [System.every_snoc]
  cases a with
  | event service => exact absurd rfl (ha service)
  | changed => simp [Spaced]
  | borrowAndUpdate => simp [Spaced]
  | callback => simp [Spaced]

theorem Reports.of_snoc {a : Act} (h : Reports keys (as ++ [a])) : Reports keys as := by
  refine ⟨fun service hmem => h.report service (by simp [hmem]), ?_⟩
  have hd := h.distinct
  rw [sent_append, List.map_append] at hd
  exact (List.nodup_append.mp hd).1

theorem inv_start : Inv keys [] (start keys) := by
  have hlists : ∀ be, ¬ InLists (start keys).discovery be := by
    rintro be ⟨k, l, hl, hbe⟩
    have hnil := allEmpty_start keys allEmpty_new k l hl
    rw [hnil] at hbe
    cases hbe
  have hun : ¬ Untaken (start keys) := by
    rintro (h | h)
    · cases h
    · exact h (version_start keys .new).symm
  refine ⟨fun k hk => (mem_start keys .new k).mpr (.inl hk), fun be => ?_, Nat.zero_le _,
    ?_, ?_, ?_, ?_, ?_⟩
  · simp [hlists be, sent]
  · simp [start, BackendMgr.new]
  · simp [start, BackendMgr.new]
  · intro be h
    cases h
  · intro h
    exact absurd h hun
  · constructor
    · intro _ be hbe
      cases hbe
    · rintro - pre a post s he
      cases pre <;> cases he

/-- An event. -/
theorem inv_event {service : DBService} (hinv : Inv keys as s) (hrun : (system keys).run as = some s)
    (hrep : Reports keys (as ++ [.event service])) (h : step s (.event service) = some s') :
    Inv keys (as ++ [.event service]) s' := by
  obtain ⟨be, hbe, hready, -⟩ := hrep.report service (by simp)
  obtain ⟨l, hl, rfl⟩ := step_event hbe h
  have hsent : sent (as ++ [.event service]) = sent as ++ [be] := by
    rw [sent_append]
    simp [sent, hbe]
  -- the address is new
  have hnew : ∀ e ∈ sent as, e.addr ≠ be.addr := by
    have hd := hrep.distinct
    rw [hsent, List.map_append, List.nodup_append] at hd
    intro e he
    exact hd.2.2 _ (List.mem_map_of_mem he) _ (by simp)
  have hne : be ∉ sent as := fun hmem => hnew be hmem rfl
  refine ⟨fun k hk => ?_, fun e => ?_, Nat.le_succ_of_le hinv.seen, hinv.ready, fun e he => ?_,
    fun e he => ?_, fun _ => ?_, ?_⟩
  · exact (AList.mem_insert _).mpr (.inr (hinv.map k hk))
  · rw [inLists_insert hl (fun e he => hnew e ((hinv.lists e).mp he)), hinv.lists, hsent]
    simp
  · rw [hsent]
    exact List.mem_append_left _ (hinv.pool e he)
  · rw [hsent]
    exact List.mem_append_left _ (hinv.held e he)
  · rw [hsent]
    exact ⟨by simp, fun he => hne (hinv.pool be he), fun he => hne (hinv.held be he)⟩
  · rw [System.every_snoc, hinv.cover, hsent]
    constructor
    · -- nothing was left to be taken
      rintro ⟨hcover, hspaced⟩ e he
      have htaken : ¬ Untaken s := hspaced s hrun
      rcases List.mem_append.mp he with he | he
      · rcases hcover e he with hp | hh | ⟨hu, -⟩
        · exact .inl hp
        · exact .inr (.inl hh)
        · exact absurd hu htaken
      · refine .inr (.inr ⟨.inr ?_, List.mem_singleton.mp he⟩)
        have := hinv.seen
        show s.seen ≠ s.discovery.version + 1
        omega
    · intro hcover
      refine ⟨fun e he => ?_, fun t ht hu => ?_⟩
      · rcases hcover e (List.mem_append_left _ he) with hp | hh | ⟨-, rfl⟩
        · exact .inl hp
        · exact .inr (.inl hh)
        · exact absurd he hne
      · -- a value that was to be taken would now be lost
        rw [hrun] at ht
        cases ht
        obtain ⟨hmem, hp, hh⟩ := hinv.untaken hu
        rcases hcover _ (List.mem_append_left _ hmem) with hp' | hh' | ⟨-, he⟩
        · exact hp hp'
        · exact hh hh'
        · have heq : s.discovery.dbInstance = be := he
          exact hne (heq ▸ hmem)

theorem Inv.sent_of_covered (hinv : Inv keys as s) {be : BackendInstance} (h : Covered s be) :
    be ∈ sent as := by
  rcases h with hp | hh | ⟨hu, rfl⟩
  · exact hinv.pool be hp
  · exact hinv.held be hh
  · exact (hinv.untaken hu).1

/-- The notifier's steps send nothing and lose nothing. -/
theorem inv_notifier {a : Act} (hinv : Inv keys as s) (ha : ∀ service, a ≠ .event service)
    (hd : s'.discovery = s.discovery) (hseen : s'.seen ≤ s'.discovery.version)
    (hready : ∀ k ∈ s'.mgr.beConnPool, k.status = .ready) (hcov : ∀ be, Covered s' be ↔ Covered s be)
    (hun : Untaken s' → Untaken s ∧ s.discovery.dbInstance ∉ s'.mgr.beConnPool ∧
      s'.notifier ≠ .holding s.discovery.dbInstance) : Inv keys (as ++ [a]) s' := by
  have hsent : sent (as ++ [a]) = sent as := sent_snoc ha
  refine ⟨?_, fun be => ?_, hseen, hready, fun be hp => ?_, fun be hh => ?_, fun hu => ?_, ?_⟩
  · rw [hd]
    exact hinv.map
  · rw [hd, hsent]
    exact hinv.lists be
  · rw [hsent]
    exact hinv.sent_of_covered ((hcov be).mp (.inl hp))
  · rw [hsent]
    exact hinv.sent_of_covered ((hcov be).mp (.inr (.inl hh)))
  · obtain ⟨hu', hp, hh⟩ := hun hu
    rw [hsent, hd]
    exact ⟨(hinv.untaken hu').1, hp, hh⟩
  · rw [every_spaced_snoc ha, hinv.cover, hsent]
    exact forall₂_congr fun be _ => (hcov be).symm

theorem inv_changed (hinv : Inv keys as s) (h : step s .changed = some s') :
    Inv keys (as ++ [.changed]) s' := by
  simp only [step] at h
  split_ifs at h with hc
  cases h
  have hu : Untaken s := .inr hc.2
  obtain ⟨-, hp, -⟩ := hinv.untaken hu
  refine inv_notifier hinv (by simp) rfl le_rfl hinv.ready (fun be => ?_) (fun _ => ⟨hu, hp, by simp⟩)
  simp [Covered, Untaken, hc.1, hc.2]

theorem inv_borrowAndUpdate (hinv : Inv keys as s) (h : step s .borrowAndUpdate = some s') :
    Inv keys (as ++ [.borrowAndUpdate]) s' := by
  simp only [step] at h
  split_ifs at h with hc
  cases h
  refine inv_notifier hinv (by simp) rfl le_rfl hinv.ready (fun be => ?_) (fun hu => ?_)
  · simp [Covered, Untaken, hc, eq_comm]
  · simp [Untaken] at hu

theorem inv_callback (hinv : Inv keys as s) (hrep : ∀ be ∈ sent as, be.status = .ready)
    (h : step s .callback = some s') : Inv keys (as ++ [.callback]) s' := by
  cases hn : s.notifier with
  | waiting => simp [step, hn] at h
  | awake => simp [step, hn] at h
  | holding be =>
    simp only [step, hn] at h
    cases h
    have hready : be.status = .ready := hrep be (hinv.held be hn)
    have hspec := (initBackendPool_spec be hinv.ready).1
    refine inv_notifier hinv (by simp) rfl hinv.seen (fun k hk => ?_) (fun e => ?_) (fun hu => ?_)
    · rcases (hspec k).mp hk with hk | ⟨rfl, -⟩
      · exact hinv.ready k hk
      · exact hready
    · simp only [Covered, Untaken, hn, hspec, hready, and_true, reduceCtorEq, false_or,
        Notifier.holding.injEq, eq_comm (a := be)]
      tauto
    · have hu' : Untaken s := by simpa [Untaken, hn] using hu
      obtain ⟨-, hp, hh⟩ := hinv.untaken hu'
      refine ⟨hu', fun hmem => ?_, by simp⟩
      rcases (hspec _).mp hmem with hmem | ⟨he, -⟩
      · exact hp hmem
      · exact hh (he ▸ hn)

theorem ready_of_reports (h : Reports keys as) : ∀ be ∈ sent as, be.status = .ready := by
  intro be hbe
  obtain ⟨a, ha, hr⟩ := List.mem_filterMap.mp hbe
  cases a with
  | event service =>
    obtain ⟨e, he, hready, -⟩ := h.report service ha
    have heq : e = be := Option.some.inj (he.symm.trans hr)
    exact heq ▸ hready
  | changed => cases hr
  | borrowAndUpdate => cases hr
  | callback => cases hr

theorem inv_run (hrep : Reports keys as) (h : (system keys).run as = some s) : Inv keys as s := by
  refine System.induction (motive := fun as s => Reports keys as → Inv keys as s) (fun _ => inv_start)
    (fun as s a s' hrun ih hstep hrep => ?_) h hrep
  have hinv := ih hrep.of_snoc
  cases a with
  | event service => exact inv_event hinv hrun hrep hstep
  | changed => exact inv_changed hinv hstep
  | borrowAndUpdate => exact inv_borrowAndUpdate hinv hstep
  | callback => exact inv_callback hinv (ready_of_reports hrep.of_snoc) hstep

/-- An event on a tenant of the map is possible at any time. -/
theorem exists_step_event (hrep : Reports keys as) (h : (system keys).run as = some s)
    {service : DBService} {be : BackendInstance} (hr : reported service = some be)
    (hk : listKey be ∈ keys) : ∃ s', step s (.event service) = some s' := by
  have hmem := (inv_run hrep h).map _ hk
  obtain ⟨l, hl⟩ := Option.isSome_iff_exists.mp (AList.lookup_isSome.mpr hmem)
  simp only [step, recvResponse_reported hr hl]
  exact ⟨_, rfl⟩

/-- **No notification is lost** in a run of reports, once the notifier has nothing left to do, if and
only if every report was sent after the notifier had taken the previous one. -/
theorem pools_iff (hrep : Reports keys as) (h : (system keys).run as = some s) (hq : Quiet s) :
    (∀ be, InLists s.discovery be → be ∈ s.mgr.beConnPool) ↔ (system keys).Every Spaced as := by
  have hinv := inv_run hrep h
  have hun : ¬ Untaken s := by
    rintro (hu | hu)
    · rw [hq.1] at hu
      cases hu
    · exact hu hq.2
  rw [hinv.cover]
  refine forall_congr' fun be => ?_
  rw [hinv.lists]
  simp [Covered, hq.1, hun]

/-- A backend of the tenant `c` at port `port`. -/
def sampleService (port : ℤ) : DBService :=
  ⟨some ⟨"", "", "n", "node-1"⟩, "c", .ready, [⟨"10.0.0.1", sqlPort, port⟩]⟩

def sampleKeys : List TenantKey := [⟨"", "", "n", "c"⟩]

/-- The second report is sent while the callback of the first one runs. -/
def spacedRun : List Act :=
  [.event (sampleService 4000), .changed, .borrowAndUpdate, .event (sampleService 4001), .callback,
    .changed, .borrowAndUpdate, .callback]

theorem reports_sample {as : List Act} (h : ∀ service, Act.event service ∈ as →
      service = sampleService 4000 ∨ service = sampleService 4001)
    (hd : ((sent as).map BackendInstance.addr).Nodup) : Reports sampleKeys as := by
  refine ⟨fun service hs => ?_, hd⟩
  rcases h service hs with rfl | rfl
  · exact ⟨_, rfl, rfl, by decide⟩
  · exact ⟨_, rfl, rfl, by decide⟩

theorem spacedRun_pools : ∃ s, (system sampleKeys).run spacedRun = some s ∧ Reports sampleKeys spacedRun ∧
    Quiet s ∧ ∀ be, InLists s.discovery be → be ∈ s.mgr.beConnPool := by
  have hrep : Reports sampleKeys spacedRun := reports_sample (by simp [spacedRun]) (by decide)
  have hevery : (system sampleKeys).Every Spaced spacedRun := System.every_of_everyFrom (by decide)
  exact ⟨_, rfl, hrep, ⟨rfl, rfl⟩, (pools_iff hrep rfl ⟨rfl, rfl⟩).mpr hevery⟩

/-- The second report is sent between the change and the taking of the first one. -/
def hastyRun : List Act :=
  [.event (sampleService 4000), .changed, .event (sampleService 4001), .borrowAndUpdate, .callback]

/-- The first report has no pool, and nothing will build it. -/
theorem hastyRun_loses : ∃ s, (system sampleKeys).run hastyRun = some s ∧ Reports sampleKeys hastyRun ∧
    Quiet s ∧ ∃ be, InLists s.discovery be ∧ be ∉ s.mgr.beConnPool := by
  have hrep : Reports sampleKeys hastyRun := reports_sample (by simp [hastyRun]) (by decide)
  refine ⟨_, rfl, hrep, ⟨rfl, rfl⟩,
    ⟨⟨"", "", "n", "node-1"⟩, "10.0.0.1:4000", .ready, ⟨"n", "c"⟩⟩, ⟨⟨"", "", "n", "c"⟩, _, rfl, ?_⟩, ?_⟩
  · decide
  · decide

end Haentgl.Backend.Notify
