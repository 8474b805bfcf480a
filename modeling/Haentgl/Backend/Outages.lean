import Haentgl.Backend.Members

/-! # When the resolver has ended

The first request for the members that fails ends the resolver's task, and so does the shutdown. Nobody
is told: the discovery goes on with the members that are there. Each of them that is marked unavailable
stays so, because only a refresh makes a member available again, so the discovery runs out of members
(`outage`). A subscription whose stream ends regularly ends the discovery's task as well. -/

namespace Haentgl.Backend.Outages

open Haentgl.Lib.Runs Haentgl.Backend.Resolver Haentgl.Backend.Members

/-- The two tasks, and whether they have returned. -/
structure State where
  tasks : Resolver.State
  ended : Bool
  returned : Bool

/-- A step of the tasks; the end of `start`, which a failed request or the shutdown brings; the regular
end of a subscription. -/
inductive Act
  | task (a : Resolver.Act)
  | stop
  | finish
  deriving DecidableEq, Repr

/-- The steps of the discovery's task. -/
def ofDiscovery : Resolver.Act → Bool
  | .start | .visit _ | .pick | .read | .failure | .mark => true
  | .refresh _ | .remove | .connect _ | .refreshed => false

/-- A task that has returned takes no further step. -/
def goesOn (s : State) : Resolver.Act → Bool
  | .refresh _ => !s.ended
  | a => !(s.returned && ofDiscovery a)

def step (s : State) : Act → Option State
  | .task a => if goesOn s a then (Resolver.step s.tasks a).map fun t => { s with tasks := t } else none
  | .stop => if s.tasks.refresh = .idle ∧ s.ended = false then some { s with ended := true } else none
  | .finish =>
    match s.tasks.discovery with
    | .subscribed _ => if s.returned then none else some { s with returned := true }
    | _ => none

def system : System State Act := ⟨⟨Resolver.system.init, false, false⟩, step⟩

/-! ### The members that are left -/

/-- How many members are available. -/
def available (r : CpResolver) : ℕ := (r.cpBackends.keys.filter (isAvailable r)).length

/-- The discovery has a channel in its hands. -/
def holding : DiscoveryTask → ℕ
  | .picked _ | .subscribed _ => 1
  | _ => 0

/-- What is in hands but not in the map any more. -/
def spare (r : CpResolver) : DiscoveryTask → ℕ
  | .collecting _ visits => if ∀ v ∈ collected visits, isAvailable r v.name = true then 0 else 1
  | .picked v => if isAvailable r v.name then 0 else 1
  | .subscribed c => if isAvailable r c.backendName then 0 else 1
  | _ => 0

/-- How many subscriptions can still fail. -/
def credit (t : Resolver.State) : ℕ :=
  match t.discovery with
  | .failed name => available (t.resolver.markBackendUnavailable name)
  | d => available t.resolver + spare t.resolver d

section Members
variable {r r' : CpResolver} {name n : String}

theorem available_congr (hmap : r'.cpBackends = r.cpBackends) (hch : r'.channels = r.channels) :
    available r' = available r := by
  rw [available, available, isAvailable_congr hmap hch, hmap]

theorem available_pos (h : WellPlaced r) (hn : isAvailable r n = true) : 1 ≤ available r :=
  List.length_pos_of_mem (List.mem_filter.mpr ⟨mem_of_isAvailable h hn, hn⟩)

/-- A mark costs one available member, if it hits one. -/
theorem available_mark (h : WellPlaced r) (name : String) :
    available (r.markBackendUnavailable name) + (if isAvailable r name then 1 else 0) = available r := by
  have hnodup : (r.cpBackends.keys.filter (isAvailable r)).Nodup := r.cpBackends.keys_nodup.filter _
  have hfilter : r.cpBackends.keys.filter (isAvailable (r.markBackendUnavailable name)) =
      (r.cpBackends.keys.filter (isAvailable r)).erase name := by
    rw [hnodup.erase_eq_filter, List.filter_filter]
    refine List.filter_congr fun n _ => ?_
    rw [isAvailable_mark h]
    by_cases hn : n = name <;> simp [hn]
  rw [available, keys_mark, hfilter, available]
  split_ifs with hn
  · have hmem : name ∈ r.cpBackends.keys.filter (isAvailable r) :=
      List.mem_filter.mpr ⟨mem_of_isAvailable h hn, hn⟩
    have hpos := List.length_pos_of_mem hmem
    rw [List.length_erase_of_mem hmem]
    omega
  · rw [List.erase_of_not_mem fun hmem => hn (List.mem_filter.mp hmem).2]
    rfl

end Members

/-! ### What the tasks know of the members -/

/-- The place of a visit has the channel of its member. -/
def ChannelOf (r : CpResolver) (v : Visit) : Prop :=
  ∃ c, r.channels[v.place]? = some c ∧ c.backendName = v.name

/-- Channels stay where they are, and keep their names. -/
def NamesKept (r r' : CpResolver) : Prop :=
  ∀ (i : ℕ) (c : CpChannel), r.channels[i]? = some c →
    ∃ c' : CpChannel, r'.channels[i]? = some c' ∧ c'.backendName = c.backendName

/-- Every member has a channel of its name, and so has every visit. -/
structure Known (t : Resolver.State) : Prop where
  placed : WellPlaced t.resolver
  named : ∀ n c, entry t.resolver n = some c → c.backendName = n
  visits : ∀ p vs, t.discovery = .collecting p vs → ∀ v ∈ vs, ChannelOf t.resolver v
  picked : ∀ v, t.discovery = .picked v → ChannelOf t.resolver v
  waits : t.resolver.started = false → t.discovery = .waiting

section Known
variable {r r' : CpResolver} {t t' : Resolver.State} {a : Resolver.Act}

theorem ChannelOf.kept {v : Visit} (h : ChannelOf r v) (hr : NamesKept r r') : ChannelOf r' v := by
  obtain ⟨c, hc, hname⟩ := h
  obtain ⟨c', hc', hkept⟩ := hr _ c hc
  exact ⟨c', hc', hkept.trans hname⟩

theorem namesKept_modify {i : ℕ} {f : CpChannel → CpChannel} (hf : ∀ c, (f c).backendName = c.backendName) :
    NamesKept r { r with channels := r.channels.modify i f } := by
  intro j c hc
  simp only [List.getElem?_modify, hc]
  split_ifs
  · exact ⟨_, rfl, hf c⟩
  · exact ⟨_, rfl, rfl⟩

theorem backendName_renew (b : CpBackend) (connection : ℕ) (c : CpChannel) :
    (CpResolver.renew b connection c).backendName = c.backendName := by
  unfold CpResolver.renew
  split
  · rfl
  · split_ifs <;> rfl

theorem namesKept_update (b : CpBackend) (connection : Option ℕ) : NamesKept r (r.update b connection) := by
  unfold CpResolver.update
  split
  · split
    · exact namesKept_modify (backendName_renew b _)
    · intro i c hc
      exact ⟨c, by rw [List.getElem?_append_left (List.getElem?_eq_some_iff.mp hc).1, hc], rfl⟩
  · exact fun i c hc => ⟨c, hc, rfl⟩

theorem named_remove (hn : ∀ n c, entry r n = some c → c.backendName = n) (name n : String) (c : CpChannel)
    (hc : entry (r.remove name) n = some c) : c.backendName = n := by
  rw [entry_remove] at hc
  split_ifs at hc
  exact hn n c hc

theorem named_update (h : WellPlaced r) (hn : ∀ n c, entry r n = some c → c.backendName = n)
    (b : CpBackend) (connection : Option ℕ) (n : String) (c : CpChannel)
    (hc : entry (r.update b connection) n = some c) : c.backendName = n := by
  rw [entry_update h (b, connection)] at hc
  split_ifs at hc with hb
  · subst hb
    obtain ⟨k, -, rfl⟩ := Option.map_eq_some_iff.mp hc
    rcases hold : entry r b.name with _ | old
    · rfl
    · exact (backendName_renew b k old).trans (hn _ _ hold)
  · exact hn n c hc

theorem named_mark (h : WellPlaced r) (hn : ∀ n c, entry r n = some c → c.backendName = n)
    (name n : String) (c : CpChannel) (hc : entry (r.markBackendUnavailable name) n = some c) :
    c.backendName = n := by
  unfold CpResolver.markBackendUnavailable at hc
  split at hc
  · rename_i i hl
    rw [entry_modify h hl] at hc
    split_ifs at hc
    · obtain ⟨old, hold, rfl⟩ := Option.map_eq_some_iff.mp hc
      exact hn n old hold
    · exact hn n c hc
  · exact hn n c hc

/-- A step of the resolver's task: the visits stay true of the channels. -/
theorem known_resolver (h : Known t) (hp : WellPlaced t'.resolver)
    (hn : ∀ n c, entry t'.resolver n = some c → c.backendName = n) (hk : NamesKept t.resolver t'.resolver)
    (hstart : t'.resolver.started = false → t.resolver.started = false)
    (hd : t'.discovery = t.discovery ∨ ∃ name, t'.discovery = t.discovery.forget name) : Known t' := by
  have hforget : ∀ name, t.discovery = .waiting → t.discovery.forget name = .waiting := fun name hw => by
    rw [hw]
    rfl
  refine ⟨hp, hn, fun p vs he v hv => ?_, fun v he => ?_, fun hs => ?_⟩
  · have hbefore : ∃ p', t.discovery = .collecting p' vs := by
      rcases hd with hd | ⟨name, hd⟩
      · exact ⟨p, hd ▸ he⟩
      · exact collecting_of_forget (hd ▸ he)
    obtain ⟨p', hp'⟩ := hbefore
    exact (h.visits p' vs hp' v hv).kept hk
  · have hbefore : t.discovery = .picked v := by
      rcases hd with hd | ⟨name, hd⟩
      · exact hd ▸ he
      · rw [hd] at he
        rw [← he, forget_of_not_collecting]
        intro p vs hc
        rw [hc] at he
        cases he
    exact (h.picked v hbefore).kept hk
  · have hw := h.waits (hstart hs)
    rcases hd with hd | ⟨name, hd⟩
    · exact hd.trans hw
    · exact hd.trans (hforget name hw)

theorem started_markBackendUnavailable (r : CpResolver) (name : String) :
    (r.markBackendUnavailable name).started = r.started := by
  unfold CpResolver.markBackendUnavailable
  split <;> rfl

/-- **Every step** of the two tasks keeps it: a member that is met is the one its channel is of. -/
theorem known_step (h : Known t) (hs : Resolver.step t a = some t') : Known t' := by
  cases moved_of_step hs with
  | refresh hr => exact known_resolver h h.placed h.named (fun i c hc => ⟨c, hc, rfl⟩) id (.inl rfl)
  | remove hr =>
    exact known_resolver h (wellPlaced_remove h.placed _) (named_remove h.named _)
      (fun i c hc => ⟨c, hc, rfl⟩) id (.inr ⟨_, rfl⟩)
  | @connect b backends c hr =>
    have hstarted : (t.resolver.update b (some c)).started = t.resolver.started := by
      unfold CpResolver.update
      split
      · split <;> rfl
      · rfl
    exact known_resolver h (wellPlaced_update h.placed b (some c))
      (named_update h.placed h.named b (some c)) (namesKept_update b (some c)) (fun hf => hstarted ▸ hf)
      (.inl rfl)
  | lose hr =>
    exact known_resolver h (wellPlaced_remove h.placed _) (named_remove h.named _)
      (fun i c hc => ⟨c, hc, rfl⟩) id (.inr ⟨_, rfl⟩)
  | refreshed hr =>
    exact known_resolver h (h.placed.congr rfl rfl) h.named (fun i c hc => ⟨c, hc, rfl⟩)
      (fun hf => (Bool.or_eq_false_iff.mp hf).1) (.inl rfl)
  | start hstart hd =>
    exact ⟨h.placed, h.named, by simp, by simp, fun hf => absurd (hstart.symm.trans hf) (by simp)⟩
  | @visit name pending visits place c hd hl hc _ =>
    refine ⟨h.placed, h.named, fun p vs he v hv => ?_, by simp, fun hf => ?_⟩
    · cases he
      rcases List.mem_append.mp hv with hv | hv
      · exact h.visits pending visits hd v hv
      · rw [List.mem_singleton.mp hv]
        exact ⟨c, hc, h.named name c ((entry_of_lookup hl).trans hc)⟩
    · cases hd.symm.trans (h.waits hf)
  | @pick visits v r hd hp =>
    obtain ⟨hmem, hmap, hch⟩ := pick_eq_some hp
    have hv := h.visits _ visits hd v (List.mem_filter.mp hmem).1
    refine ⟨h.placed.congr hmap (by rw [hch]), fun n c hc => h.named n c ?_, by simp, fun w hw => ?_,
      fun hf => ?_⟩
    · rwa [entry, hmap, hch] at hc
    · cases hw
      exact hv.kept fun i c hc => ⟨c, by rw [hch, hc], rfl⟩
    · obtain ⟨-, rfl⟩ := Prod.mk.inj hp
      cases hd.symm.trans (h.waits hf)
  | @panic visits r hd hp =>
    obtain ⟨-, rfl⟩ := Prod.mk.inj hp
    exact ⟨h.placed.congr rfl rfl, h.named, by simp, by simp,
      fun hf => by cases hd.symm.trans (h.waits hf)⟩
  | read hd _ => exact ⟨h.placed, h.named, by simp, by simp, fun hf => by cases hd.symm.trans (h.waits hf)⟩
  | failure hd => exact ⟨h.placed, h.named, by simp, by simp, fun hf => by cases hd.symm.trans (h.waits hf)⟩
  | @mark name hd =>
    refine ⟨wellPlaced_markBackendUnavailable h.placed name, named_mark h.placed h.named name, by simp,
      by simp, fun hf => ?_⟩
    rw [started_markBackendUnavailable] at hf
    cases hd.symm.trans (h.waits hf)

end Known

/-! ### Runs -/

section Runs
variable {as : List Act} {s s' : State}

/-- What a step of `system` does to the two tasks. -/
theorem step_cases {a : Act} (h : step s a = some s') :
    (∃ b t, a = .task b ∧ goesOn s b = true ∧ Resolver.step s.tasks b = some t ∧
      s' = { s with tasks := t }) ∨
    (a = .stop ∧ s.tasks.refresh = .idle ∧ s' = { s with ended := true }) ∨
    (a = .finish ∧ s' = { s with returned := true }) := by
  cases a with
  | task b =>
    simp only [step] at h
    split_ifs at h with hgo
    obtain ⟨t, ht, rfl⟩ := Option.map_eq_some_iff.mp h
    exact .inl ⟨b, t, rfl, hgo, ht, rfl⟩
  | stop =>
    simp only [step] at h
    split_ifs at h with hidle
    cases h
    exact .inr (.inl ⟨rfl, hidle.1, rfl⟩)
  | finish =>
    simp only [step] at h
    split at h
    · split_ifs at h
      cases h
      exact .inr (.inr ⟨rfl, rfl⟩)
    · cases h

/-- A task that takes no step while the other one is between two refreshes keeps it there. -/
theorem idle_step {t t' : Resolver.State} {b : Resolver.Act} (hidle : t.refresh = .idle)
    (hb : ∀ backends, b ≠ .refresh backends) (h : Resolver.step t b = some t') : t'.refresh = .idle := by
  cases moved_of_step h with
  | refresh _ => exact absurd rfl (hb _)
  | remove hr | connect hr | lose hr | refreshed hr => cases hidle.symm.trans hr
  | start _ _ | visit _ _ _ _ | pick _ _ | panic _ _ | read _ _ | failure _ | mark _ => exact hidle

/-- A resolver that has ended does not refresh. -/
theorem not_refresh {b : Resolver.Act} (h : goesOn s b = true) (hended : s.ended = true)
    (backends : List CpBackend) : b ≠ .refresh backends := by
  rintro rfl
  rw [goesOn, hended] at h
  cases h

/-- What is known of the members in every state, and where the resolver's task has ended. -/
structure Grounded (s : State) : Prop where
  known : Known s.tasks
  idle : s.ended = true → s.tasks.refresh = .idle

theorem grounded_init : Grounded system.init := by
  refine ⟨⟨wellPlaced_new, fun n c hc => ?_, fun p vs he => ?_, fun v he => ?_, fun _ => rfl⟩,
    fun he => ?_⟩
  · cases hc
  · cases he
  · cases he
  · cases he

theorem grounded_step (s : State) (a : Act) (s' : State) (h : Grounded s) (hs : step s a = some s') :
    Grounded s' := by
  obtain ⟨b, t, -, hgo, ht, rfl⟩ | ⟨-, hidle, rfl⟩ | ⟨-, rfl⟩ := step_cases hs
  · refine ⟨known_step h.known ht, fun hended => ?_⟩
    exact idle_step (h.idle hended) (not_refresh hgo hended) ht
  · exact ⟨h.known, fun _ => hidle⟩
  · exact ⟨h.known, h.idle⟩

theorem grounded (h : system.run as = some s) : Grounded s := System.invariant grounded_init grounded_step h

end Runs

/-! ### After the end of the resolver -/

section Over
variable {s s' : State} {t t' : Resolver.State}

theorem credit_eq {t : Resolver.State} (h : ∀ name, t.discovery ≠ .failed name) :
    credit t = available t.resolver + spare t.resolver t.discovery := by
  unfold credit
  split
  · rename_i name hd
    exact absurd hd (h name)
  · rfl

theorem spare_le_one (r : CpResolver) (d : DiscoveryTask) : spare r d ≤ 1 := by
  unfold spare
  split
  · split_ifs <;> omega
  · split_ifs <;> omega
  · split_ifs <;> omega
  · omega

theorem credit_le (h : WellPlaced t.resolver) : credit t ≤ available t.resolver + 1 := by
  unfold credit
  split
  · rename_i name hd
    have := available_mark h name
    omega
  · have := spare_le_one t.resolver t.discovery
    omega

/-- A channel in hands is one that can still fail. -/
theorem holding_le_credit (h : WellPlaced t.resolver) : holding t.discovery ≤ credit t := by
  cases hd : t.discovery with
  | picked v =>
    rw [credit_eq (by simp [hd]), hd, holding, spare]
    split_ifs with hv
    · have := available_pos h hv
      omega
    · omega
  | subscribed c =>
    rw [credit_eq (by simp [hd]), hd, holding, spare]
    split_ifs with hc
    · have := available_pos h hc
      omega
    · omega
  | waiting => exact Nat.zero_le _
  | collecting p vs => exact Nat.zero_le _
  | failed n => exact Nat.zero_le _
  | panicked => exact Nat.zero_le _

theorem spare_start (r : CpResolver) (p : List String) : spare r (.collecting p []) = 0 := by
  simp [spare, collected]

/-- At most one channel is spare, so only the case of none is left to look at. -/
theorem spare_mono {r : CpResolver} {d d' : DiscoveryTask} (h : spare r d = 0 → spare r d' = 0) :
    available r + spare r d' ≤ available r + spare r d := by
  have hle := spare_le_one r d'
  by_cases h0 : spare r d = 0
  · have := h h0
    omega
  · omega

theorem spare_collecting {r : CpResolver} {p : List String} {vs : List Visit} :
    spare r (.collecting p vs) = 0 ↔ ∀ v ∈ collected vs, isAvailable r v.name = true := by
  rw [spare]
  split_ifs with h
  · exact ⟨fun _ => h, fun _ => rfl⟩
  · exact ⟨False.elim, fun hall => absurd hall h⟩

/-- **No step adds to what can still fail**, and a failure takes from it, while the other task is between
two refreshes. -/
theorem credit_step {a : Resolver.Act} (h : Known t) (hidle : t.refresh = .idle)
    (ha : ∀ backends, a ≠ .refresh backends) (hs : Resolver.step t a = some t') :
    credit t' + (if a = .failure then 1 else 0) ≤ credit t := by
  cases moved_of_step hs with
  | refresh _ => exact absurd rfl (ha _)
  | remove hr | connect hr | lose hr | refreshed hr => cases hidle.symm.trans hr
  | start hs hd =>
    rw [credit_eq (by simp), credit_eq (by simp [hd]), spare_start]
    exact Nat.le_add_right _ _
  | @visit name pending visits place c hd hl hc _ =>
    rw [credit_eq (by simp), credit_eq (by simp [hd]), hd]
    refine spare_mono fun h0 => spare_collecting.mpr fun v hv => ?_
    rw [collected, List.filter_append] at hv
    rcases List.mem_append.mp hv with hv | hv
    · exact spare_collecting.mp h0 v hv
    · -- a member that is met and available is available
      obtain ⟨hv, hst⟩ := List.mem_filter.mp hv
      rw [List.mem_singleton.mp hv] at hst ⊢
      rw [isAvailable, entry_of_lookup hl, hc]
      exact hst
  | @pick visits v r hd hp =>
    obtain ⟨hmem, hmap, hch⟩ := pick_eq_some hp
    have hspare : spare r (.picked v) = spare t.resolver (.picked v) := by
      rw [spare, spare, isAvailable_congr hmap hch]
    rw [credit_eq (by simp), credit_eq (by simp [hd]), hd, available_congr hmap hch, hspare]
    refine spare_mono fun h0 => ?_
    rw [spare, if_pos (spare_collecting.mp h0 v hmem)]
  | panic hd hp =>
    obtain ⟨-, rfl⟩ := Prod.mk.inj hp
    rw [credit_eq (by simp), credit_eq (by simp [hd])]
    exact Nat.le_add_right _ _
  | @read v c hd hc =>
    obtain ⟨c', hc', hname⟩ := h.picked v hd
    obtain rfl : c = c' := Option.some.inj (hc.symm.trans hc')
    rw [credit_eq (by simp), credit_eq (by simp [hd]), hd, spare, spare, hname]
    exact le_rfl
  | @failure c hd =>
    have hmark := available_mark h.placed c.backendName
    rw [credit_eq (t := t) (by simp [hd]), hd, spare]
    change available (t.resolver.markBackendUnavailable c.backendName) + 1 ≤ _
    split_ifs at hmark ⊢ <;> omega
  | mark hd =>
    rw [credit_eq (by simp), spare_start, credit, hd]
    exact le_rfl

/-- The first refresh that finds a member sets `started`; the discovery never does. -/
theorem started_of_step {t t' : Resolver.State} {b : Resolver.Act} (hidle : t.refresh = .idle)
    (hwait : t.resolver.started = false → t.discovery = .waiting) (h : Resolver.step t b = some t')
    (hstart : t.resolver.started = false) : t'.resolver.started = false := by
  have hd := hwait hstart
  cases b with
  | refresh backends =>
    simp only [Resolver.step, hidle] at h
    cases h
    exact hstart
  | remove | connect _ | refreshed => simp [Resolver.step, hidle] at h
  | start => simp [Resolver.step, hstart] at h
  | visit _ | pick | read | failure | mark => simp [Resolver.step, hd] at h

/-- The resolver's task has returned. -/
def Over (s : State) : Prop := Grounded s ∧ s.ended = true

theorem over_step {a : Act} (h : Over s) (hs : step s a = some s') :
    Over s' ∧ credit s'.tasks + (if decide (a = .task .failure) then 1 else 0) ≤ credit s.tasks := by
  obtain ⟨hg, hended⟩ := h
  have hg' := grounded_step s a s' hg hs
  obtain ⟨b, t, rfl, hgo, ht, rfl⟩ | ⟨rfl, -, rfl⟩ | ⟨rfl, rfl⟩ := step_cases hs
  · have hle := credit_step hg.known (hg.idle hended) (not_refresh hgo hended) ht
    refine ⟨⟨hg', hended⟩, ?_⟩
    simpa using hle
  · exact ⟨⟨hg', rfl⟩, le_rfl⟩
  · exact ⟨⟨hg', hended⟩, le_rfl⟩

/-- A discovery that waits for the first refresh when the resolver ends waits for ever. -/
theorem waiting_step {a : Act} (h : Over s ∧ s.tasks.resolver.started = false) (hs : step s a = some s') :
    Over s' ∧ s'.tasks.resolver.started = false := by
  obtain ⟨hover, hstart⟩ := h
  refine ⟨(over_step hover hs).1, ?_⟩
  obtain ⟨b, t, -, hgo, ht, rfl⟩ | ⟨-, -, rfl⟩ | ⟨-, rfl⟩ := step_cases hs
  · exact started_of_step (hover.1.idle hover.2) hover.1.known.waits ht hstart
  · exact hstart
  · exact hstart

end Over


/-- **An outage.** When the resolver has ended, every subscription that fails costs a member: there are at
most as many failures as there were available members, and one more for the channel in the discovery's
hands. If no refresh had found a member by then, the discovery never starts. -/
theorem outage {as bs : List Act} {s s' : State} (h : system.run as = some s) (hended : s.ended = true)
    (h' : system.run (as ++ bs) = some s') :
    bs.countP (fun a => decide (a = .task .failure)) + holding s'.tasks.discovery ≤
      available s.tasks.resolver + 1 ∧
    (s.tasks.resolver.started = false → s'.tasks.discovery = .waiting) := by
  rw [System.run_append, h] at h'
  have hover : Over s := ⟨grounded h, hended⟩
  constructor
  · obtain ⟨hover', hle⟩ := System.budget (S := system) (Φ := fun s => credit s.tasks)
      (p := fun a => decide (a = .task .failure)) (fun _ _ _ => over_step) bs hover h'
    have hhold := holding_le_credit hover'.1.known.placed
    have hcredit := credit_le hover.1.known.placed
    omega
  · intro hstart
    obtain ⟨⟨hover', hstart'⟩, -⟩ := System.budget (S := system) (Φ := fun _ => 0) (p := fun _ => false)
      (fun _ _ _ hi hs => ⟨waiting_step hi hs, le_rfl⟩) bs ⟨hover, hstart⟩ h'
    exact hover'.1.known.waits hstart'

/-- Two members are found, and the request of the next refresh fails. -/
def beforeOutage : List Act :=
  [.task (.refresh [onlyMember, otherMember]), .task (.connect (some 0)), .task (.connect (some 1)),
    .task .refreshed, .task .start, .stop]

/-- Both subscriptions fail, and the next pick finds nothing. -/
def inOutage : List Act :=
  [.task (.visit "cp-0"), .task (.visit "cp-1"), .task .pick, .task .read, .task .failure, .task .mark,
    .task (.visit "cp-0"), .task (.visit "cp-1"), .task .pick, .task .read, .task .failure, .task .mark,
    .task (.visit "cp-0"), .task (.visit "cp-1"), .task .pick]

theorem outage_twoMembers : ∃ s s', system.run beforeOutage = some s ∧
    system.run (beforeOutage ++ inOutage) = some s' ∧ available s.tasks.resolver = 2 ∧
    s'.tasks.discovery = .panicked ∧
    inOutage.countP (fun a => decide (a = .task .failure)) + holding s'.tasks.discovery ≤ 2 + 1 := by
  obtain ⟨s, hs, hended, hfound⟩ : ∃ s, system.run beforeOutage = some s ∧ s.ended = true ∧
      available s.tasks.resolver = 2 := ⟨_, rfl, rfl, by decide⟩
  obtain ⟨s', hs', hpanic⟩ : ∃ s', system.run (beforeOutage ++ inOutage) = some s' ∧
      s'.tasks.discovery = .panicked := ⟨_, rfl, by decide⟩
  have hout := (outage hs hended hs').1
  rw [hfound] at hout
  exact ⟨s, s', hs, hs', hfound, hpanic, hout⟩

end Haentgl.Backend.Outages
