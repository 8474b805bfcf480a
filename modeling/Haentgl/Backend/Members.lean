import Haentgl.Backend.Resolver

/-! # The refresh of the members

`update_backends` drops the members that are not listed any more and then connects to the listed ones in
turn. Their channels are shared and are changed in place; read through the map they are a table of
channels by names (`entry`), and what a refresh makes of a name depends on the connections to the members
of this name alone (`entry_updateBackends`).

So the last of these connections decides whether the name stays, and a channel that was available is
replaced by one of a larger generation or not at all: `updateBackends_spec`. -/

namespace Haentgl.Backend.Members

open Haentgl.Lib.Runs Haentgl.Backend.Resolver

/-- `update_backends`: the members with the outcomes of connecting to them. -/
def updateBackends (members : List (CpBackend × Option ℕ)) (r : CpResolver) : CpResolver :=
  let r := if r.cpBackends.keys.isEmpty then r
    else (r.removeKeys (members.map Prod.fst)).foldl (fun r name => r.remove name) r
  members.foldl (fun r m => r.update m.1 m.2) r

/-- Every member has a channel of its own. -/
structure WellPlaced (r : CpResolver) : Prop where
  placed : Placed r
  own : ∀ {name name' : String} {i : ℕ}, r.cpBackends.lookup name = some i →
    r.cpBackends.lookup name' = some i → name = name'

/-- The channel of a name. -/
def entry (r : CpResolver) (name : String) : Option CpChannel :=
  (r.cpBackends.lookup name).bind fun i => r.channels[i]?

/-! ### The table -/

variable {r : CpResolver}

theorem entry_of_lookup {name : String} {i : ℕ} (h : r.cpBackends.lookup name = some i) :
    entry r name = r.channels[i]? := by
  rw [entry, h]
  rfl

/-- A name is in the map if it has an entry. -/
theorem isSome_entry (h : WellPlaced r) (name : String) :
    (entry r name).isSome ↔ name ∈ r.cpBackends := by
  rw [← AList.lookup_isSome]
  cases hl : r.cpBackends.lookup name with
  | none => simp [entry, hl]
  | some i => simp [entry_of_lookup hl, List.getElem?_eq_getElem (h.placed name i hl)]

theorem entry_remove (name n : String) :
    entry (r.remove name) n = if n = name then none else entry r n := by
  split_ifs with hn
  · subst hn
    simp [entry, CpResolver.remove]
  · simp [entry, CpResolver.remove, AList.lookup_erase_ne hn]

/-- A channel that is changed in place is changed for its member only. -/
theorem entry_modify (h : WellPlaced r) {name : String} {i : ℕ} (hi : r.cpBackends.lookup name = some i)
    (f : CpChannel → CpChannel) (n : String) :
    entry { r with channels := r.channels.modify i f } n =
      if n = name then (entry r n).map f else entry r n := by
  cases hl : r.cpBackends.lookup n with
  | none =>
    have hn : n ≠ name := fun he => by
      rw [he, hi] at hl
      cases hl
    simp [entry, hl, hn]
  | some j =>
    have hj : r.channels[j]? = entry r n := (entry_of_lookup hl).symm
    rw [entry_of_lookup (r := { r with channels := r.channels.modify i f }) hl]
    split_ifs with hn
    · rw [hn, hi] at hl
      cases hl
      rw [← hj, List.getElem?_modify]
      simp
    · have hij : i ≠ j := fun he => hn (h.own hl (he ▸ hi))
      rw [← hj, List.getElem?_modify]
      simp [hij]

/-- A new channel is the last one. -/
theorem entry_insert (h : WellPlaced r) (name : String) (c : CpChannel) (n : String) :
    entry { r with
        cpBackends := r.cpBackends.insert name r.channels.length
        channels := r.channels ++ [c] } n = if n = name then some c else entry r n := by
  split_ifs with hn
  · subst hn
    simp [entry]
  · cases hl : r.cpBackends.lookup n with
    | none => simp [entry, AList.lookup_insert_ne hn, hl]
    | some i =>
      have hi := h.placed n i hl
      simp [entry, AList.lookup_insert_ne hn, hl, List.getElem?_append_left hi]

/-- What the outcome of connecting to a member makes of its entry. -/
def joined (old : Option CpChannel) (m : CpBackend × Option ℕ) : Option CpChannel :=
  m.2.map fun connection =>
    match old with
    | some c => CpResolver.renew m.1 connection c
    | none => CpResolver.newChannel m.1 connection

theorem entry_update (h : WellPlaced r) (m : CpBackend × Option ℕ) (n : String) :
    entry (r.update m.1 m.2) n = if n = m.1.name then joined (entry r n) m else entry r n := by
  obtain ⟨b, connection⟩ := m
  cases connection with
  | none => exact entry_remove b.name n
  | some c =>
    cases hl : r.cpBackends.lookup b.name with
    | some i =>
      have hsome := List.getElem?_eq_getElem (h.placed b.name i hl)
      simp only [CpResolver.update, hl, entry_modify h hl]
      split_ifs with hn
      · rw [hn, entry_of_lookup hl, hsome]
        rfl
      · rfl
    | none =>
      simp only [CpResolver.update, hl, entry_insert h]
      split_ifs with hn
      · rw [hn, entry, hl]
        rfl
      · rfl

/-- The member has a channel, and this is available. -/
def isAvailable (r : CpResolver) (name : String) : Bool :=
  (entry r name).any fun c => c.status = .available

theorem isAvailable_congr {r' : CpResolver} (hmap : r'.cpBackends = r.cpBackends) (hch : r'.channels = r.channels) :
    isAvailable r' = isAvailable r := by
  funext n
  rw [isAvailable, isAvailable, entry, entry, hmap, hch]

theorem mem_of_isAvailable {n : String} (h : WellPlaced r) (hn : isAvailable r n = true) : n ∈ r.cpBackends.keys := by
  obtain ⟨c, hc, -⟩ := (Option.any_eq_true _ _).mp hn
  exact AList.mem_keys.mp ((isSome_entry h n).mp (by rw [hc]; rfl))

theorem isAvailable_mark (h : WellPlaced r) (name n : String) :
    isAvailable (r.markBackendUnavailable name) n = (decide (n ≠ name) && isAvailable r n) := by
  cases hl : r.cpBackends.lookup name with
  | none =>
    have hmark : r.markBackendUnavailable name = r := by simp only [CpResolver.markBackendUnavailable, hl]
    rw [hmark]
    by_cases hn : n = name
    · rw [hn, isAvailable, entry, hl]
      simp
    · simp [hn]
  | some i =>
    have hmark : r.markBackendUnavailable name =
        { r with channels := r.channels.modify i fun c => { c with status := .unavailable } } := by
      simp only [CpResolver.markBackendUnavailable, hl]
    rw [hmark, isAvailable, entry_modify h hl]
    by_cases hn : n = name
    · rw [if_pos hn]
      simp [hn, Option.any_map]
    · rw [if_neg hn]
      simp [hn, isAvailable]

theorem keys_mark (r : CpResolver) (name : String) :
    (r.markBackendUnavailable name).cpBackends = r.cpBackends := by
  unfold CpResolver.markBackendUnavailable
  split <;> rfl

theorem wellPlaced_remove (h : WellPlaced r) (name : String) : WellPlaced (r.remove name) := by
  refine ⟨placed_remove h.placed name, fun {n n' i} hn hn' => ?_⟩
  have hkept : ∀ {k : String}, (r.remove name).cpBackends.lookup k = some i →
      r.cpBackends.lookup k = some i := by
    intro k hk
    by_cases he : k = name
    · subst he
      simp [CpResolver.remove] at hk
    · rwa [CpResolver.remove, AList.lookup_erase_ne he] at hk
  exact h.own (hkept hn) (hkept hn')

/-- A member with a new channel. -/
theorem wellPlaced_insert (h : WellPlaced r) (name : String) (c : CpChannel) : WellPlaced { r with
    cpBackends := r.cpBackends.insert name r.channels.length
    channels := r.channels ++ [c] } := by
  -- the new place is behind all others
  have hplace : ∀ {n : String} {i : ℕ},
      (r.cpBackends.insert name r.channels.length).lookup n = some i →
        n = name ∧ i = r.channels.length ∨ r.cpBackends.lookup n = some i ∧ i < r.channels.length := by
    intro n i hn
    by_cases he : n = name
    · rw [he, AList.lookup_insert] at hn
      exact .inl ⟨he, (Option.some.inj hn).symm⟩
    · rw [AList.lookup_insert_ne he] at hn
      exact .inr ⟨hn, h.placed n i hn⟩
  refine ⟨fun n i hn => ?_, fun {n n' i} hn hn' => ?_⟩
  · rw [List.length_append, List.length_singleton]
    rcases hplace hn with ⟨-, hi⟩ | ⟨-, hi⟩ <;> omega
  · rcases hplace hn with ⟨rfl, hi⟩ | ⟨hl, hi⟩ <;> rcases hplace hn' with ⟨rfl, hi'⟩ | ⟨hl', hi'⟩
    · rfl
    · omega
    · omega
    · exact h.own hl hl'

theorem wellPlaced_new : WellPlaced .new :=
  ⟨by simp [Placed, CpResolver.new], by simp [CpResolver.new]⟩

theorem WellPlaced.congr {r' : CpResolver} (h : WellPlaced r) (hmap : r'.cpBackends = r.cpBackends)
    (hl : r'.channels.length = r.channels.length) : WellPlaced r' := by
  refine ⟨fun n i hi => ?_, fun {n n' i} hn hn' => ?_⟩
  · rw [hmap] at hi
    rw [hl]
    exact h.placed n i hi
  · rw [hmap] at hn hn'
    exact h.own hn hn'

theorem wellPlaced_update (h : WellPlaced r) (b : CpBackend) (connection : Option ℕ) :
    WellPlaced (r.update b connection) := by
  unfold CpResolver.update
  split
  · split
    · exact h.congr rfl (List.length_modify ..)
    · exact wellPlaced_insert h _ _
  · exact wellPlaced_remove h b.name

theorem wellPlaced_markBackendUnavailable (h : WellPlaced r) (name : String) :
    WellPlaced (r.markBackendUnavailable name) := by
  unfold CpResolver.markBackendUnavailable
  split
  · exact h.congr rfl (List.length_modify ..)
  · exact h

/-- Every table of channels is the table of a map. -/
theorem exists_entry_eq (t : AList fun _ : String => CpChannel) :
    ∃ r, WellPlaced r ∧ ∀ n, entry r n = t.lookup n := by
  induction t using AList.insertRec with
  | H0 => exact ⟨.new, wellPlaced_new, fun _ => rfl⟩
  | IH name c t hname ih =>
    obtain ⟨r, hr, ht⟩ := ih
    refine ⟨_, wellPlaced_insert hr name c, fun n => ?_⟩
    rw [entry_insert hr]
    split_ifs with hn
    · rw [hn, AList.lookup_insert]
    · rw [AList.lookup_insert_ne hn, ht]

/-! ### A refresh -/

/-- The members of a name. -/
def named (name : String) (members : List (CpBackend × Option ℕ)) : List (CpBackend × Option ℕ) :=
  members.filter fun m => m.1.name = name

/-- The loop over the members. -/
theorem entry_foldl_update : ∀ {r : CpResolver}, WellPlaced r → ∀ (members : List (CpBackend × Option ℕ))
    (n : String), entry (members.foldl (fun r m => r.update m.1 m.2) r) n =
      (named n members).foldl joined (entry r n)
  | r, _, [], n => rfl
  | r, h, m :: members, n => by
    have ih := entry_foldl_update (wellPlaced_update h m.1 m.2) members n
    rw [List.foldl_cons, ih, entry_update h, named, named]
    by_cases hn : m.1.name = n
    · rw [if_pos hn.symm, List.filter_cons_of_pos (by simp [hn]), List.foldl_cons]
    · rw [if_neg (Ne.symm hn), List.filter_cons_of_neg (by simp [hn])]

theorem wellPlaced_foldl_remove : ∀ (names : List String) {r : CpResolver}, WellPlaced r →
    WellPlaced (names.foldl (fun r name => r.remove name) r)
  | [], _, h => h
  | name :: names, _, h => wellPlaced_foldl_remove names (wellPlaced_remove h name)

theorem entry_foldl_remove : ∀ (names : List String) (r : CpResolver) (n : String),
    entry (names.foldl (fun r name => r.remove name) r) n = if n ∈ names then none else entry r n
  | [], r, n => by simp
  | name :: names, r, n => by
    rw [List.foldl_cons, entry_foldl_remove names, entry_remove]
    by_cases hn : n = name
    · simp [hn]
    · simp [hn]

theorem mem_removeKeys {backends : List CpBackend} {n : String} :
    n ∈ r.removeKeys backends ↔ n ∈ r.cpBackends ∧ ∀ b ∈ backends, b.name ≠ n := by
  simp [CpResolver.removeKeys, AList.mem_keys]

/-- Only what is listed is left by the first pass. -/
def kept (members : List (CpBackend × Option ℕ)) (r : CpResolver) (n : String) : Option CpChannel :=
  if named n members = [] then none else entry r n

theorem named_eq_nil {members : List (CpBackend × Option ℕ)} {n : String} :
    named n members = [] ↔ ∀ m ∈ members, m.1.name ≠ n := by
  simp [named, List.filter_eq_nil_iff]

/-- **What a refresh makes of a name** is decided by the members of this name. -/
theorem entry_updateBackends (h : WellPlaced r) (members : List (CpBackend × Option ℕ)) (n : String) :
    entry (updateBackends members r) n = (named n members).foldl joined (kept members r n) := by
  unfold updateBackends
  split_ifs with hempty
  · have hnone : entry r n = none := by
      have hkeys : r.cpBackends.keys = [] := List.isEmpty_iff.mp hempty
      have hn : n ∉ r.cpBackends := fun hmem => by
        rw [AList.mem_keys, hkeys] at hmem
        cases hmem
      rw [entry, AList.lookup_eq_none.mpr hn]
      rfl
    rw [entry_foldl_update h, kept, hnone, ite_self]
  · have hremoved : ∀ n, entry ((r.removeKeys (members.map Prod.fst)).foldl
        (fun r name => r.remove name) r) n = kept members r n := by
      intro n
      rw [entry_foldl_remove, kept]
      by_cases hn : n ∈ r.cpBackends
      · have hiff : n ∈ r.removeKeys (members.map Prod.fst) ↔ named n members = [] := by
          rw [mem_removeKeys, named_eq_nil]
          simp [hn]
        simp only [hiff]
      · have hnone : entry r n = none := by
          rw [entry, AList.lookup_eq_none.mpr hn]
          rfl
        simp [hnone]
    rw [entry_foldl_update (wellPlaced_foldl_remove _ h), hremoved]

theorem wellPlaced_updateBackends (h : WellPlaced r) (members : List (CpBackend × Option ℕ)) :
    WellPlaced (updateBackends members r) := by
  have hfold : ∀ (ms : List (CpBackend × Option ℕ)) {r : CpResolver}, WellPlaced r →
      WellPlaced (ms.foldl (fun r m => r.update m.1 m.2) r) := by
    intro ms
    induction ms with
    | nil => exact id
    | cons m ms ih => exact fun hr => ih (wellPlaced_update hr m.1 m.2)
  unfold updateBackends
  split_ifs
  · exact hfold members h
  · exact hfold members (wellPlaced_foldl_remove _ h)

/-! ### What is left of a name -/

theorem isSome_joined (old : Option CpChannel) (m : CpBackend × Option ℕ) :
    (joined old m).isSome = m.2.isSome := Option.isSome_map

/-- A connection leaves an available channel. -/
theorem available_joined {old : Option CpChannel} {m : CpBackend × Option ℕ} {c : CpChannel}
    (h : joined old m = some c) : c.status = .available := by
  obtain ⟨connection, -, rfl⟩ := Option.map_eq_some_iff.mp h
  cases old with
  | none => rfl
  | some c =>
    cases hs : c.status with
    | unavailable => simp [CpResolver.renew, hs]
    | available =>
      simp only [CpResolver.renew, hs]
      split_ifs
      · rfl
      · exact hs

/-- An available channel stays or gets a larger generation. -/
theorem joined_available {m : CpBackend × Option ℕ} {c : CpChannel} (hs : c.status = .available)
    (hm : m.2.isSome) : ∃ c', joined (some c) m = some c' ∧ (c' = c ∨ c.generation < c'.generation) := by
  obtain ⟨connection, hconnection⟩ := Option.isSome_iff_exists.mp hm
  refine ⟨CpResolver.renew m.1 connection c, by rw [joined, hconnection]; rfl, ?_⟩
  simp only [CpResolver.renew, hs]
  split_ifs with hg
  · exact .inr hg
  · exact .inl rfl

theorem foldl_joined_available : ∀ (ms : List (CpBackend × Option ℕ)) {c : CpChannel},
    c.status = .available → (∀ m ∈ ms, m.2.isSome) →
      ∃ c', ms.foldl joined (some c) = some c' ∧ (c' = c ∨ c.generation < c'.generation)
  | [], c, _, _ => ⟨c, rfl, .inl rfl⟩
  | m :: ms, c, hs, hms => by
    obtain ⟨c₁, h₁, hc₁⟩ := joined_available (m := m) hs (hms m (by simp))
    obtain ⟨c', h', hc'⟩ := foldl_joined_available ms (available_joined h₁) fun m hm => hms m (by simp [hm])
    refine ⟨c', by rw [List.foldl_cons, h₁, h'], ?_⟩
    rcases hc₁ with rfl | hc₁ <;> rcases hc' with rfl | hc'
    · exact .inl rfl
    · exact .inr hc'
    · exact .inr hc₁
    · exact .inr (hc₁.trans hc')

/-- The last of the members of the name has been connected to. -/
def LastConnected (members : List (CpBackend × Option ℕ)) (name : String) : Prop :=
  ∃ b connection, (named name members).getLast? = some (b, some connection)

theorem isSome_foldl_joined {ms : List (CpBackend × Option ℕ)} (hne : ms ≠ []) (old : Option CpChannel) :
    (ms.foldl joined old).isSome = (ms.getLast hne).2.isSome := by
  conv_lhs => rw [← List.dropLast_append_getLast hne, List.foldl_append]
  exact isSome_joined _ _

theorem available_foldl_joined {ms : List (CpBackend × Option ℕ)} (hne : ms ≠ [])
    {old : Option CpChannel} {c : CpChannel} (h : ms.foldl joined old = some c) :
    c.status = .available := by
  rw [← List.dropLast_append_getLast hne, List.foldl_append] at h
  exact available_joined h

theorem lastConnected_iff {members : List (CpBackend × Option ℕ)} {n : String} :
    LastConnected members n ↔ ∃ hne : named n members ≠ [], ((named n members).getLast hne).2.isSome := by
  constructor
  · rintro ⟨b, connection, hlast⟩
    have hne : named n members ≠ [] := fun he => by
      rw [he] at hlast
      cases hlast
    rw [List.getLast?_eq_some_getLast hne] at hlast
    exact ⟨hne, by rw [Option.some.inj hlast]; rfl⟩
  · rintro ⟨hne, hsome⟩
    obtain ⟨connection, hconnection⟩ := Option.isSome_iff_exists.mp hsome
    refine ⟨((named n members).getLast hne).1, connection, ?_⟩
    rw [List.getLast?_eq_some_getLast hne, ← hconnection]

/-- **A refresh** leaves the names whose last connection has succeeded, all of them available; an
available channel whose connections succeed keeps its generation, and all of itself, or gets a larger
one. -/
theorem updateBackends_spec (h : WellPlaced r) (members : List (CpBackend × Option ℕ)) :
    (∀ n, n ∈ (updateBackends members r).cpBackends ↔ LastConnected members n) ∧
    (∀ n ∈ (updateBackends members r).cpBackends,
      ∃ c, entry (updateBackends members r) n = some c ∧ c.status = .available) ∧
    ∀ n c, entry r n = some c → c.status = .available → (∃ m ∈ members, m.1.name = n) →
      (∀ m ∈ members, m.1.name = n → m.2.isSome) →
        ∃ c', entry (updateBackends members r) n = some c' ∧ c.generation ≤ c'.generation ∧
          (c' ≠ c → c.generation < c'.generation) := by
  have hmem : ∀ n, n ∈ (updateBackends members r).cpBackends ↔ LastConnected members n := by
    intro n
    rw [← isSome_entry (wellPlaced_updateBackends h members), entry_updateBackends h, lastConnected_iff]
    by_cases hne : named n members = []
    · simp [hne, kept]
    · simp [isSome_foldl_joined hne, hne]
  refine ⟨hmem, fun n hn => ?_, fun n c hc hs hlisted hall => ?_⟩
  · obtain ⟨c, hc⟩ := Option.isSome_iff_exists.mp
      ((isSome_entry (wellPlaced_updateBackends h members) n).mpr hn)
    obtain ⟨hne, -⟩ := lastConnected_iff.mp ((hmem n).mp hn)
    refine ⟨c, hc, ?_⟩
    rw [entry_updateBackends h] at hc
    exact available_foldl_joined hne hc
  · have hne : named n members ≠ [] := fun he => by
      obtain ⟨m, hm, hname⟩ := hlisted
      exact named_eq_nil.mp he m hm hname
    have hsome : ∀ m ∈ named n members, m.2.isSome := by
      intro m hm
      obtain ⟨hm, hname⟩ := List.mem_filter.mp hm
      exact hall m hm (by simpa using hname)
    obtain ⟨c', hc', hkept⟩ := foldl_joined_available (named n members) hs hsome
    refine ⟨c', by rw [entry_updateBackends h, kept, if_neg hne, hc, hc'], ?_, fun hnew => ?_⟩
    · rcases hkept with rfl | hlt
      · exact le_rfl
      · exact hlt.le
    · exact hkept.resolve_left hnew

/-- Another member. -/
def otherMember : CpBackend := ⟨"cp-1", 5, "10.0.0.3:3200", "10.0.0.3:3201"⟩

/-- An available member and one that has been marked unavailable. -/
def twoMembers : CpResolver :=
  ((CpResolver.new.update onlyMember (some 0)).update otherMember (some 1)).markBackendUnavailable "cp-1"

/-- The first member has moved on by a generation; the second one is listed twice, and connected to the
second time. -/
def listedTwice : List (CpBackend × Option ℕ) :=
  [(otherMember, none), ({ onlyMember with generation := 2 }, some 2), (otherMember, some 3)]

theorem updateBackends_twoMembers : WellPlaced twoMembers ∧
    (∀ n, n ∈ (updateBackends listedTwice twoMembers).cpBackends ↔ LastConnected listedTwice n) ∧
    ∃ c', entry (updateBackends listedTwice twoMembers) "cp-0" = some c' ∧ 1 ≤ c'.generation ∧
      (c' ≠ CpResolver.newChannel onlyMember 0 → 1 < c'.generation) := by
  have hplaced : WellPlaced twoMembers := wellPlaced_markBackendUnavailable
    (wellPlaced_update (wellPlaced_update wellPlaced_new onlyMember (some 0)) otherMember (some 1)) "cp-1"
  obtain ⟨hnames, -, hkept⟩ := updateBackends_spec hplaced listedTwice
  refine ⟨hplaced, hnames, hkept "cp-0" (CpResolver.newChannel onlyMember 0) ?_ rfl ?_ ?_⟩
  · decide
  · exact ⟨_, List.mem_cons_of_mem _ List.mem_cons_self, rfl⟩
  · decide

/-! ### Refreshes in runs -/

/-- What a step does to the map and the channels. -/
theorem resolver_of_step {s s' : State} {a : Act} (h : step s a = some s') :
    (s'.resolver.cpBackends = s.resolver.cpBackends ∧ s'.resolver.channels = s.resolver.channels) ∨
    (∃ name, s'.resolver = s.resolver.remove name) ∨
    (∃ b connection, s'.resolver = s.resolver.update b connection) ∨
    ∃ name, s'.resolver = s.resolver.markBackendUnavailable name := by
  cases moved_of_step h with
  | remove _ | lose _ => exact .inr (.inl ⟨_, rfl⟩)
  | connect _ => exact .inr (.inr (.inl ⟨_, some _, rfl⟩))
  | pick _ hp =>
    obtain ⟨-, hmap, hch⟩ := pick_eq_some hp
    exact .inl ⟨hmap, hch⟩
  | panic _ hp =>
    obtain ⟨-, rfl⟩ := Prod.mk.inj hp
    exact .inl ⟨rfl, rfl⟩
  | mark _ => exact .inr (.inr (.inr ⟨_, rfl⟩))
  | refresh _ | refreshed _ | start _ _ | visit _ _ _ _ | read _ _ | failure _ => exact .inl ⟨rfl, rfl⟩

/-- **Members have channels of their own** in every run of the two tasks. -/
theorem wellPlaced_run {as : List Act} {s : State} (h : system.run as = some s) :
    WellPlaced s.resolver := by
  refine System.invariant (I := fun s => WellPlaced s.resolver) wellPlaced_new
    (fun s a s' hs hstep => ?_) h
  rcases resolver_of_step hstep with ⟨hmap, hch⟩ | ⟨name, he⟩ | ⟨b, connection, he⟩ | ⟨name, he⟩
  · exact hs.congr hmap (by rw [hch])
  · rw [he]
    exact wellPlaced_remove hs name
  · rw [he]
    exact wellPlaced_update hs b connection
  · rw [he]
    exact wellPlaced_markBackendUnavailable hs name

/-- The steps of a refresh that the other task does not interrupt. -/
def refreshActs (members : List (CpBackend × Option ℕ)) (r : CpResolver) : List Act :=
  .refresh (members.map Prod.fst) ::
    (((r.removeKeys (members.map Prod.fst)).map fun _ => .remove) ++
      members.map (fun m => .connect m.2) ++ [.refreshed])

theorem foldlM_remove : ∀ (names : List String) {backends : List CpBackend} {s : State},
    s.refresh = .updating names backends → ∃ s', (names.map fun _ => Act.remove).foldlM step s = some s' ∧
      s'.refresh = .updating [] backends ∧
      s'.resolver = names.foldl (fun r name => r.remove name) s.resolver
  | [], _, s, h => ⟨s, rfl, h, rfl⟩
  | name :: names, backends, s, h => by
    obtain ⟨s', hs', hrefresh, hr⟩ := foldlM_remove names
      (s := ⟨s.resolver.remove name, .updating names backends, s.discovery.forget name⟩) rfl
    refine ⟨s', ?_, hrefresh, hr⟩
    have hstep : step s .remove =
        some ⟨s.resolver.remove name, .updating names backends, s.discovery.forget name⟩ := by
      simp [step, h]
    rw [List.map_cons, List.foldlM_cons, hstep]
    exact hs'

theorem foldlM_connect : ∀ (members : List (CpBackend × Option ℕ)) {s : State},
    s.refresh = .updating [] (members.map Prod.fst) →
      ∃ s', (members.map fun m => Act.connect m.2).foldlM step s = some s' ∧ s'.refresh = .updating [] [] ∧
        s'.resolver = members.foldl (fun r m => r.update m.1 m.2) s.resolver
  | [], s, h => ⟨s, rfl, h, rfl⟩
  | m :: members, s, h => by
    obtain ⟨s', hs', hrefresh, hr⟩ := foldlM_connect members
      (s := ⟨s.resolver.update m.1 m.2, .updating [] (members.map Prod.fst),
        if m.2 = none then s.discovery.forget m.1.name else s.discovery⟩) rfl
    refine ⟨s', ?_, hrefresh, hr⟩
    have hstep : step s (.connect m.2) =
        some ⟨s.resolver.update m.1 m.2, .updating [] (members.map Prod.fst),
          if m.2 = none then s.discovery.forget m.1.name else s.discovery⟩ := by
      simp [step, h]
    rw [List.map_cons, List.foldlM_cons, hstep]
    exact hs'

/-- **The steps of a refresh are `update_backends`.** -/
theorem foldlM_refreshActs {s : State} (h : s.refresh = .idle) (members : List (CpBackend × Option ℕ)) :
    ∃ s', (refreshActs members s.resolver).foldlM step s = some s' ∧ s'.refresh = .idle ∧
      s'.resolver.cpBackends = (updateBackends members s.resolver).cpBackends ∧
      s'.resolver.channels = (updateBackends members s.resolver).channels := by
  obtain ⟨s₁, h₁, hrefresh₁, hr₁⟩ := foldlM_remove (s.resolver.removeKeys (members.map Prod.fst))
    (s := ⟨s.resolver, .updating (s.resolver.removeKeys (members.map Prod.fst))
      (members.map Prod.fst), s.discovery⟩) rfl
  obtain ⟨s₂, h₂, hrefresh₂, hr₂⟩ := foldlM_connect members hrefresh₁
  -- an empty map has nothing to remove
  have hupdate : s₂.resolver = updateBackends members s.resolver := by
    rw [hr₂, hr₁, updateBackends]
    split_ifs with hempty
    · have hkeys : s.resolver.removeKeys (members.map Prod.fst) = [] := by
        rw [CpResolver.removeKeys, List.isEmpty_iff.mp hempty]
        rfl
      rw [hkeys]
      rfl
    · rfl
  have hstart : step s (.refresh (members.map Prod.fst)) =
      some ⟨s.resolver, .updating (s.resolver.removeKeys (members.map Prod.fst))
        (members.map Prod.fst), s.discovery⟩ := by
    simp [step, h]
  have hend : step s₂ .refreshed = some { s₂ with
      resolver := { s₂.resolver with
        started := s₂.resolver.started || !s₂.resolver.cpBackends.keys.isEmpty }
      refresh := .idle } := by
    simp [step, hrefresh₂]
  refine ⟨⟨{ s₂.resolver with
      started := s₂.resolver.started || !s₂.resolver.cpBackends.keys.isEmpty }, .idle, s₂.discovery⟩,
    ?_, rfl, ?_, ?_⟩
  · simp only [refreshActs, List.foldlM_cons, List.foldlM_append, List.foldlM_nil, hstart, h₁, h₂, hend,
      Option.bind_eq_bind, Option.bind_some]
    rfl
  · show s₂.resolver.cpBackends = _
    rw [hupdate]
  · show s₂.resolver.channels = _
    rw [hupdate]

end Haentgl.Backend.Members
