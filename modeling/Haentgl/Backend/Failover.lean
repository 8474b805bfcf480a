import Haentgl.Backend.Members

/-! # The failover between the control planes

A member is available as long as it has been connected to since it was last marked, and it is one of the
two tasks that does the one or the other (`available_iff_fresh`). So a pick finds a channel if and only if
it comes to such a member (`Meets`), and panics otherwise: `failover_iff`.

Which members a pick comes to depends on the refreshes that happen meanwhile. It comes to every member
that is there from its beginning to its end, so one of these that is available is enough
(`meets_of_standing`). -/

namespace Haentgl.Backend.Failover

open Haentgl.Lib.Runs Haentgl.Backend.Resolver Haentgl.Backend.Members

/-- The discovery lives, and the channel it has picked is there and was available when it was
collected. -/
def Alive (s : State) : Prop :=
  s.discovery ≠ .panicked ∧ ∀ v, s.discovery = .picked v →
    v.status = .available ∧ v.place < s.resolver.channels.length

/-! ### Marks and connections -/

/-- The step connects to the member. -/
def ConnectsTo (name : String) (s : State) (a : Act) : Prop :=
  ∃ c b backends, a = .connect (some c) ∧ s.refresh = .updating [] (b :: backends) ∧ b.name = name

/-- The step marks the member unavailable. -/
def Marks (name : String) (s : State) (a : Act) : Prop := a = .mark ∧ s.discovery = .failed name

/-- The member has been connected to since it was last marked. -/
inductive Fresh (name : String) : List Act → Prop
  | connected {as : List Act} {a : Act} {s : State} (hrun : system.run as = some s)
    (h : ConnectsTo name s a) : Fresh name (as ++ [a])
  | kept {as : List Act} {a : Act} {s : State} (hrun : system.run as = some s) (h : Fresh name as)
    (ha : ¬ Marks name s a) : Fresh name (as ++ [a])

/-- A call of `get_cp_backend` begins with the step. -/
def begins : Act → Bool
  | .start | .mark => true
  | _ => false

/-- The call that is going on has come to a member that had been connected to since it was last marked. -/
inductive Meets : List Act → Prop
  | visited {name : String} {as : List Act} (h : Fresh name as) : Meets (as ++ [.visit name])
  | kept {as : List Act} {a : Act} (h : Meets as) (ha : begins a = false) : Meets (as ++ [a])

section Snoc
variable {as : List Act} {a : Act} {s s' : State} {n : String}

theorem fresh_snoc (hrun : system.run as = some s) :
    Fresh n (as ++ [a]) ↔ ConnectsTo n s a ∨ Fresh n as ∧ ¬ Marks n s a := by
  constructor
  · intro h
    generalize he : as ++ [a] = bs at h
    cases h with
    | connected hrun' hc =>
      obtain ⟨rfl, ha⟩ := List.append_inj' he rfl
      cases ha
      cases hrun.symm.trans hrun'
      exact .inl hc
    | kept hrun' hf hm =>
      obtain ⟨rfl, ha⟩ := List.append_inj' he rfl
      cases ha
      cases hrun.symm.trans hrun'
      exact .inr ⟨hf, hm⟩
  · rintro (h | ⟨h, hm⟩)
    · exact .connected hrun h
    · exact .kept hrun h hm

theorem meets_snoc :
    Meets (as ++ [a]) ↔ (∃ name, a = .visit name ∧ Fresh name as) ∨ Meets as ∧ begins a = false := by
  constructor
  · intro h
    generalize he : as ++ [a] = bs at h
    cases h with
    | visited hf =>
      obtain ⟨rfl, ha⟩ := List.append_inj' he rfl
      cases ha
      exact .inl ⟨_, rfl, hf⟩
    | kept hm hb =>
      obtain ⟨rfl, ha⟩ := List.append_inj' he rfl
      cases ha
      exact .inr ⟨hm, hb⟩
  · rintro (⟨name, rfl, h⟩ | ⟨h, hb⟩)
    · exact .visited h
    · exact .kept h hb

/-! ### The table -/

theorem isAvailable_remove {r : CpResolver} {name : String} (hn : n ∈ (r.remove name).cpBackends) :
    isAvailable (r.remove name) n = isAvailable r n := by
  have hne : n ≠ name := fun he => by simp [CpResolver.remove, he, AList.mem_erase] at hn
  rw [isAvailable, entry_remove, if_neg hne, isAvailable]

theorem isAvailable_update {r : CpResolver} (h : WellPlaced r) (b : CpBackend) (c : ℕ) (n : String) :
    isAvailable (r.update b (some c)) n = (decide (n = b.name) || isAvailable r n) := by
  rw [isAvailable, entry_update h (b, some c)]
  by_cases hn : n = b.name
  · have hjoined : ∃ k, joined (entry r n) (b, some c) = some k := ⟨_, rfl⟩
    obtain ⟨k, hk⟩ := hjoined
    rw [if_pos hn, hk]
    simp [hn, available_joined hk]
  · simp [hn, isAvailable]

theorem mem_update {r : CpResolver} (h : WellPlaced r) {b : CpBackend} {c : ℕ}
    (hn : n ∈ (r.update b (some c)).cpBackends) : n = b.name ∨ n ∈ r.cpBackends := by
  by_cases he : n = b.name
  · exact .inl he
  · have hsome := (isSome_entry (wellPlaced_update h b (some c)) n).mpr hn
    rw [entry_update h (b, some c), if_neg he] at hsome
    exact .inr ((isSome_entry h n).mp hsome)

/-- **What a step makes of a member** that is in the map behind it. -/
theorem isAvailable_step (h : WellPlaced s.resolver) (hs : step s a = some s')
    (hn : n ∈ s'.resolver.cpBackends) : (ConnectsTo n s a ∨ n ∈ s.resolver.cpBackends) ∧
      (isAvailable s'.resolver n = true ↔
        ConnectsTo n s a ∨ isAvailable s.resolver n = true ∧ ¬ Marks n s a) := by
  -- neither a mark nor a connection
  have hother : (∀ c, a ≠ .connect (some c)) → a ≠ .mark → n ∈ s.resolver.cpBackends →
      isAvailable s'.resolver n = isAvailable s.resolver n →
        (ConnectsTo n s a ∨ n ∈ s.resolver.cpBackends) ∧ (isAvailable s'.resolver n = true ↔
          ConnectsTo n s a ∨ isAvailable s.resolver n = true ∧ ¬ Marks n s a) := by
    intro hc hm hmem heq
    have hno : ¬ ConnectsTo n s a := fun ⟨c, _, _, ha, _⟩ => hc c ha
    have hnm : ¬ Marks n s a := fun ha => hm ha.1
    simp [hno, hnm, hmem, heq]
  cases moved_of_step hs with
  | refresh _ | refreshed _ | start _ _ | visit _ _ _ _ | read _ _ | failure _ =>
    exact hother (by simp) (by simp) hn rfl
  | pick _ hp =>
    obtain ⟨-, hmap, hch⟩ := pick_eq_some hp
    exact hother (by simp) (by simp) (hmap ▸ hn) (by rw [isAvailable_congr hmap hch])
  | panic _ hp =>
    obtain ⟨-, rfl⟩ := Prod.mk.inj hp
    exact hother (by simp) (by simp) hn rfl
  | remove _ | lose _ =>
    exact hother (by simp) (by simp) (AList.mem_erase.mp hn).2 (isAvailable_remove hn)
  | @connect b backends c hr =>
    have hto : ConnectsTo n s (.connect (some c)) ↔ n = b.name := by
      constructor
      · rintro ⟨_, b', backends', -, hr', rfl⟩
        cases hr.symm.trans hr'
        rfl
      · rintro rfl
        exact ⟨c, b, backends, rfl, hr, rfl⟩
    have hnm : ¬ Marks n s (.connect (some c)) := fun ha => nomatch ha.1
    refine ⟨(mem_update h hn).imp_left hto.mpr, ?_⟩
    simp [isAvailable_update h, hto, hnm]
  | @mark name hd =>
    have hno : ¬ ConnectsTo n s .mark := fun ⟨_, _, _, ha, _⟩ => nomatch ha
    have hto : Marks n s .mark ↔ n = name := by
      refine ⟨fun ha => ?_, fun ha => ⟨rfl, ha ▸ hd⟩⟩
      cases hd.symm.trans ha.2
      rfl
    refine ⟨.inr ?_, ?_⟩
    · rwa [← keys_mark s.resolver name]
    · rw [isAvailable_mark h, hto]
      simp [hno, and_comm]

/-- **A member in the map is available** if it has been connected to since it was last marked. -/
theorem available_iff_fresh (h : system.run as = some s) :
    ∀ n ∈ s.resolver.cpBackends, isAvailable s.resolver n = true ↔ Fresh n as := by
  refine System.induction (motive := fun as s => ∀ n ∈ s.resolver.cpBackends,
    isAvailable s.resolver n = true ↔ Fresh n as) ?_ ?_ h
  · intro n hn
    simp [system, CpResolver.new] at hn
  · intro as s a s' hrun ih hs n hn
    obtain ⟨hmem, hiff⟩ := isAvailable_step (wellPlaced_run hrun) hs hn
    rw [hiff, fresh_snoc hrun]
    rcases hmem with hc | hmem
    · simp [hc]
    · rw [ih n hmem]

end Snoc

/-! ### What a call has collected -/

/-- What the discovery knows of the channels is true. -/
structure Sound (s : State) : Prop where
  placed : Placed s.resolver
  visits : ∀ pending visits, s.discovery = .collecting pending visits →
    ∀ v ∈ visits, v.place < s.resolver.channels.length
  picked : ∀ v, s.discovery = .picked v → v.status = .available ∧ v.place < s.resolver.channels.length

section Runs
variable {as : List Act} {a : Act} {s s' : State}

/-- A step of the resolver's task: places stay, and the other task at most forgets a member. -/
theorem sound_resolver (h : Sound s) (hp : Placed s'.resolver)
    (hl : s.resolver.channels.length ≤ s'.resolver.channels.length)
    (hd : s'.discovery = s.discovery ∨ ∃ name, s'.discovery = s.discovery.forget name) : Sound s' := by
  refine ⟨hp, fun pending visits he v hv => ?_, fun v he => ?_⟩
  · have hbefore : ∃ pending', s.discovery = .collecting pending' visits := by
      rcases hd with hd | ⟨name, hd⟩
      · exact ⟨pending, hd ▸ he⟩
      · exact collecting_of_forget (hd ▸ he)
    obtain ⟨pending', hp'⟩ := hbefore
    exact (h.visits pending' visits hp' v hv).trans_le hl
  · have hbefore : s.discovery = .picked v := by
      rcases hd with hd | ⟨name, hd⟩
      · exact hd ▸ he
      · rw [hd] at he
        rw [← he, forget_of_not_collecting]
        intro p vs hc
        rw [hc] at he
        cases he
    obtain ⟨hst, hplace⟩ := h.picked v hbefore
    exact ⟨hst, hplace.trans_le hl⟩

/-- A step of the discovery's task that neither visits nor picks. -/
theorem sound_discovery (hp : Placed s'.resolver)
    (hv : ∀ pending visits, s'.discovery = .collecting pending visits → visits = [])
    (hpick : ∀ v, s'.discovery ≠ .picked v) : Sound s' := by
  refine ⟨hp, fun pending visits he v hmem => ?_, fun v he => absurd he (hpick v)⟩
  rw [hv pending visits he] at hmem
  cases hmem

theorem sound_step (h : Sound s) (hs : step s a = some s') : Sound s' := by
  cases moved_of_step hs with
  | refresh _ | refreshed _ => exact sound_resolver h h.placed le_rfl (.inl rfl)
  | remove _ | lose _ => exact sound_resolver h (placed_remove h.placed _) le_rfl (.inr ⟨_, rfl⟩)
  | @connect b backends c hr =>
    exact sound_resolver h (placed_update h.placed b (some c)) (length_update b (some c) _) (.inl rfl)
  | start _ _ | read _ _ | failure _ => exact sound_discovery h.placed (by simp) (by simp)
  | @visit name pending visits place c hd hl hc _ =>
    refine ⟨h.placed, fun p vs he v hv => ?_, by simp⟩
    cases he
    rcases List.mem_append.mp hv with hv | hv
    · exact h.visits pending visits hd v hv
    · rw [List.mem_singleton.mp hv]
      exact h.placed name place hl
  | @pick visits v r hd hp =>
    obtain ⟨hmem, hmap, hch⟩ := pick_eq_some hp
    obtain ⟨hv, hst⟩ := List.mem_filter.mp hmem
    refine ⟨fun n i hi => ?_, by simp, fun w hw => ?_⟩
    · rw [hch]
      exact h.placed n i (hmap ▸ hi)
    · cases hw
      refine ⟨by simpa using hst, ?_⟩
      rw [hch]
      exact h.visits _ visits hd v hv
  | panic _ hp =>
    obtain ⟨-, rfl⟩ := Prod.mk.inj hp
    exact sound_discovery h.placed (by simp) (by simp)
  | mark _ => exact sound_discovery (placed_markBackendUnavailable h.placed _) (by simp) (by simp)

theorem sound_run (h : system.run as = some s) : Sound s := by
  refine System.invariant (I := Sound) ?_ (fun _ _ _ => sound_step) h
  exact sound_discovery (by simp [Placed, system, CpResolver.new]) (by simp [system]) (by simp [system])

/-- **What a call has collected** is not empty if it has come to such a member. -/
theorem collected_iff_meets (h : system.run as = some s) : ∀ pending visits,
    s.discovery = .collecting pending visits → (collected visits ≠ [] ↔ Meets as) := by
  refine System.induction (motive := fun as s => ∀ pending visits,
    s.discovery = .collecting pending visits → (collected visits ≠ [] ↔ Meets as)) ?_ ?_ h
  · intro pending visits he
    cases he
  · intro as s a s' hrun ih hs pending visits he
    -- a step that visits nothing
    have hsame : (∀ n, a ≠ .visit n) → begins a = false →
        (∃ pending', s.discovery = .collecting pending' visits) →
          (collected visits ≠ [] ↔ Meets (as ++ [a])) := by
      rintro hvisit hb ⟨pending', hp⟩
      rw [meets_snoc, ih pending' visits hp]
      simp [hvisit, hb]
    have hnone : begins a = true → (∀ n, a ≠ .visit n) → visits = [] →
        (collected visits ≠ [] ↔ Meets (as ++ [a])) := by
      rintro hb hvisit rfl
      rw [meets_snoc]
      simp [collected, hvisit, hb]
    cases moved_of_step hs with
    | refresh _ | refreshed _ | connect _ => exact hsame (by simp) rfl ⟨pending, he⟩
    | remove _ | lose _ => exact hsame (by simp) rfl (collecting_of_forget he)
    | start _ _ | mark _ =>
      cases he
      exact hnone rfl (by simp) rfl
    | @visit name pending' visits' place c hd hl hc _ =>
      cases he
      have hmem : name ∈ s.resolver.cpBackends := AList.lookup_isSome.mp (by rw [hl]; rfl)
      have hup : isAvailable s.resolver name = true ↔ c.status = .available := by
        simp [isAvailable, entry_of_lookup hl, hc]
      rw [meets_snoc, ← ih pending' visits' hd, collected, List.filter_append, ne_eq,
        List.append_eq_nil_iff, not_and_or, or_comm]
      refine or_congr ?_ (by simp [begins, collected])
      simp [← available_iff_fresh hrun name hmem, hup]
    | pick _ _ | panic _ _ | read _ _ | failure _ => cases he

/-- A pick that has come to no such member panics. -/
theorem panicked_iff (hrun : system.run as = some s) (hs : step s .pick = some s') :
    s'.discovery = .panicked ↔ ¬ Meets as := by
  cases moved_of_step hs with
  | @pick visits v r hd hp =>
    have hmem := (pick_eq_some hp).1
    simp [← collected_iff_meets hrun _ _ hd, List.ne_nil_of_mem hmem]
  | @panic visits r hd hp =>
    simp [← collected_iff_meets hrun _ _ hd, pick_eq_none hp]

/-- **Failover.** In a run the discovery lives and picks channels that were available, in every state,
if and only if every call of `get_cp_backend` comes to a member that has been connected to since it was
last marked. -/
theorem failover_iff (h : system.run as = some s) :
    (∀ pre post t, as = pre ++ post → system.run pre = some t → Alive t) ↔
      ∀ pre post, as = pre ++ .pick :: post → Meets pre := by
  constructor
  · intro halive pre post he
    obtain ⟨t, ht⟩ := System.exists_run_of_append (he ▸ h)
    obtain ⟨t', hs, ht'⟩ := System.exists_step_of_append (he ▸ h) ht
    by_contra hno
    exact (halive _ post t' (by simpa using he) ht').1 ((panicked_iff ht hs).mpr hno)
  · intro hmeets pre post t he ht
    refine ⟨?_, (sound_run ht).picked⟩
    refine System.induction (motive := fun pre t => ∀ post, as = pre ++ post → t.discovery ≠ .panicked)
      ?_ ?_ ht post he
    · simp [system]
    · intro pre s a s' hrun ih hs post he
      have he' : as = pre ++ a :: post := by rw [he, List.append_assoc, List.singleton_append]
      have hlive := ih (a :: post) he'
      have hforget : ∀ name, s.discovery.forget name ≠ .panicked := by
        intro name hp
        cases hd : s.discovery <;> simp_all [DiscoveryTask.forget]
      cases moved_of_step hs with
      | refresh _ | refreshed _ | connect _ => exact hlive
      | remove _ | lose _ => exact hforget _
      | start _ _ | visit _ _ _ _ | pick _ _ | read _ _ | failure _ | mark _ => simp
      | panic _ _ => exact fun hp => (panicked_iff hrun hs).mp hp (hmeets _ _ he')

/-! ### The members that stay -/

/-- The call has come to the member, or will. -/
def Standing (name : String) (as : List Act) (s : State) : Prop :=
  Fresh name as ∧ ∀ pending visits, s.discovery = .collecting pending visits →
    name ∈ pending ∨ Meets as

theorem standing_step {name : String} (h : Standing name as s) (hrun : system.run as = some s)
    (hb : begins a = false) (hs : step s a = some s') (hmem : name ∈ s'.resolver.cpBackends) :
    Standing name (as ++ [a]) s' := by
  have hfresh : Fresh name (as ++ [a]) := (fresh_snoc hrun).mpr (.inr ⟨h.1, by rintro ⟨rfl, -⟩; cases hb⟩)
  refine ⟨hfresh, fun pending visits he => ?_⟩
  have hkept : Meets as → Meets (as ++ [a]) := fun hm => .kept hm hb
  cases moved_of_step hs with
  | refresh _ | refreshed _ | connect _ => exact (h.2 _ _ he).imp_right hkept
  | remove _ | lose _ =>
    -- it is another member that is forgotten
    have hne := (AList.mem_erase.mp hmem).1
    obtain ⟨pending', hp⟩ := collecting_of_forget he
    rw [hp] at he
    cases he
    refine (h.2 _ _ hp).imp (fun hm => ?_) hkept
    exact List.mem_filter.mpr ⟨hm, by simpa using hne⟩
  | @visit n pending' visits' place c hd hl hc _ =>
    cases he
    by_cases hn : name = n
    · exact .inr (hn ▸ .visited h.1)
    · refine (h.2 _ _ hd).imp (fun hm => ?_) hkept
      exact List.mem_filter.mpr ⟨hm, by simpa using hn⟩
  | start _ _ | mark _ => cases hb
  | pick _ _ | panic _ _ | read _ _ | failure _ => cases he

/-- **A member that stays is come to.** If a member is available when a call begins, and no refresh drops
it before the pick, then the call comes to a member that has been connected to. -/
theorem meets_of_standing {name : String} {call : List Act} (hrun : system.run as = some s)
    (hbegun : s.discovery = .collecting s.resolver.cpBackends.keys [])
    (hup : isAvailable s.resolver name = true) (hcall : ∀ a ∈ call, begins a = false)
    (hstays : ∀ mid rest t, call = mid ++ rest → system.run (as ++ mid) = some t →
      name ∈ t.resolver.cpBackends)
    (hpick : system.run (as ++ call ++ [.pick]) = some s') : Meets (as ++ call) := by
  have hmem : name ∈ s.resolver.cpBackends :=
    AList.mem_keys.mpr (mem_of_isAvailable (wellPlaced_run hrun) hup)
  have hstanding : ∀ mid rest t, call = mid ++ rest → system.run (as ++ mid) = some t →
      Standing name (as ++ mid) t := by
    intro mid
    induction mid using List.reverseRecOn with
    | nil =>
      intro rest t _ ht
      rw [List.append_nil] at ht ⊢
      cases hrun.symm.trans ht
      refine ⟨(available_iff_fresh hrun name hmem).mp hup, fun pending visits he => ?_⟩
      cases hbegun.symm.trans he
      exact .inl (AList.mem_keys.mp hmem)
    | append_singleton mid a ih =>
      intro rest t he ht
      rw [← List.append_assoc] at ht ⊢
      obtain ⟨u, hu, hs⟩ := System.run_snoc_eq_some.mp ht
      have hin := hstays (mid ++ [a]) rest t he (by rw [← List.append_assoc, ht])
      exact standing_step (ih (a :: rest) u (by simpa using he) hu) hu (hcall a (by simp [he])) hs hin
  obtain ⟨t, ht, hs⟩ := System.run_snoc_eq_some.mp hpick
  have hst := hstanding call [] t (by simp) ht
  cases moved_of_step (show step t .pick = some s' from hs) with
  | pick hd _ | panic hd _ => exact (hst.2 _ _ hd).resolve_left (by simp)

end Runs

/-- The subscription is refreshed before the next pick visits the member. -/
def refreshedRun : List Act :=
  [.refresh [onlyMember], .connect (some 0), .refreshed, .start, .visit "cp-0", .pick, .read, .failure,
    .mark, .refresh [onlyMember], .connect (some 1), .refreshed, .visit "cp-0", .pick, .read]

/-- The next pick comes before the refresh. -/
def hurriedRun : List Act :=
  [.refresh [onlyMember], .connect (some 0), .refreshed, .start, .visit "cp-0", .pick, .read, .failure,
    .mark, .visit "cp-0", .pick]

theorem meets_visit {name : String} {as : List Act} (h : ∃ s, system.run as = some s ∧
    name ∈ s.resolver.cpBackends ∧ isAvailable s.resolver name = true) : Meets (as ++ [.visit name]) := by
  obtain ⟨s, hs, hmem, hup⟩ := h
  exact .visited ((available_iff_fresh hs name hmem).mp hup)

theorem refreshedRun_alive : (∃ s, system.run refreshedRun = some s) ∧
    ∀ pre post t, refreshedRun = pre ++ post → system.run pre = some t → Alive t := by
  refine ⟨⟨_, rfl⟩, (failover_iff rfl).mpr fun pre post he => ?_⟩
  have hpre : pre = refreshedRun.take pre.length := by simp [he]
  have hget : refreshedRun[pre.length]? = some .pick := by simp [he]
  have hpicks : ∀ n < 15, refreshedRun[n]? = some .pick → n = 5 ∨ n = 13 := by decide
  have hlen : pre.length < 15 := (List.getElem?_eq_some_iff.mp hget).1
  rw [hpre]
  rcases hpicks _ hlen hget with hn | hn
  · rw [hn]
    exact @meets_visit "cp-0" (refreshedRun.take 4) ⟨_, rfl, by decide, by decide⟩
  · rw [hn]
    exact @meets_visit "cp-0" (refreshedRun.take 12) ⟨_, rfl, by decide, by decide⟩

/-- The pick finds the only member unavailable and takes an element of nothing. -/
theorem hurriedRun_panics : ∃ s, system.run hurriedRun = some s ∧ ¬ Alive s := by
  refine ⟨_, rfl, fun h => h.1 ?_⟩
  decide

end Haentgl.Backend.Failover
