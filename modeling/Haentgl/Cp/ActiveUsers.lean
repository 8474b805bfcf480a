import Haentgl.Lib.Runs
import Haentgl.Backend.Keys
import Mathlib.Data.List.AList

/-! # The window of active users

The records of what users do are kept in one of two maps. `freeze` makes the other map the active one,
takes a snapshot of the map that was active and clears it. The receiver's task puts records into the
active map meanwhile, and several freezes may run at once. A `put` first reads which map is active and
then inserts; a `freeze` reads the index, exchanges it, takes the snapshot, reads the index again to
find the inactive map, and clears that one. Each of these is a step of its own.

Records get lost or are reported twice when a freeze exchanges the index while another one is between
its exchange and its second reading of it, or when a record goes into a map between the snapshot and
the clearing of that map. In the runs without such steps every record is kept until it is reported, and
reported once: `kept_run`. -/

namespace Haentgl.Cp.ActiveUsers

open Haentgl.Lib.Runs Haentgl.Backend.Keys

structure UserCom where
  cluster : TenantKey
  user : String
  com : UInt8
  comTs : ℕ
  deriving DecidableEq, Repr

/-- A record with the number of the `put` it comes from. -/
structure Record where
  number : ℕ
  userCom : UserCom
  deriving DecidableEq, Repr

/-- A map of records by the hashes of their users. -/
abbrev Table := AList fun _ : UInt64 => Record

/-- The receiver's task waits for a record, or has read the index for one. -/
inductive Receiver
  | waiting
  | loaded (record : Record) (idx : Fin 2)
  deriving DecidableEq, Repr

/-- A call of `freeze` has not begun or is over, has read the index, has exchanged it, has taken the
snapshot, or has found the map to clear. -/
inductive Freeze
  | idle
  | loaded (curr : Fin 2)
  | switched (curr : Fin 2)
  | snapped (curr : Fin 2)
  | cleaning (curr inactive : Fin 2)
  deriving DecidableEq, Repr

/-- The two maps and the tasks; `puts`, `returned` and `overwritten` record what has been inserted,
what the snapshots of the freezes were, and what a later record with the same key has replaced. -/
structure State (T : Type) where
  table : Fin 2 → Table
  activeIdx : Fin 2
  receiver : Receiver
  freeze : T → Freeze
  next : ℕ
  puts : List Record
  returned : List (List Record)
  overwritten : List Record

inductive Act (T : Type)
  | put (userCom : UserCom)
  | insert
  | load (t : T)
  | compareExchange (t : T)
  | snapshot (t : T)
  | loadInactive (t : T)
  | clear (t : T)
  deriving DecidableEq, Repr

def records (m : Table) : List Record := m.entries.map Sigma.snd

section Model
variable {T : Type} [DecidableEq T] (userComHash : UserCom → UInt64)

def State.setFreeze (s : State T) (t : T) (f : Freeze) : State T :=
  { s with freeze := Function.update s.freeze t f }

def step (s : State T) : Act T → Option (State T)
  | .put userCom =>
    match s.receiver with
    | .waiting => some { s with receiver := .loaded ⟨s.next, userCom⟩ s.activeIdx, next := s.next + 1 }
    | .loaded _ _ => none
  | .insert =>
    match s.receiver with
    | .loaded r i =>
      let key := userComHash r.userCom
      some { s with
        table := Function.update s.table i ((s.table i).insert key r)
        receiver := .waiting
        puts := s.puts ++ [r]
        overwritten := s.overwritten ++ ((s.table i).lookup key).toList }
    | .waiting => none
  | .load t =>
    match s.freeze t with
    | .idle => some (s.setFreeze t (.loaded s.activeIdx))
    | _ => none
  | .compareExchange t =>
    match s.freeze t with
    | .loaded curr =>
      if s.activeIdx = curr then
        some { s.setFreeze t (.switched curr) with activeIdx := curr + 1 }
      else some (s.setFreeze t .idle)
    | _ => none
  | .snapshot t =>
    match s.freeze t with
    | .switched curr =>
      some { s.setFreeze t (.snapped curr) with returned := s.returned ++ [records (s.table curr)] }
    | _ => none
  | .loadInactive t =>
    match s.freeze t with
    | .snapped curr => some (s.setFreeze t (.cleaning curr (s.activeIdx + 1)))
    | _ => none
  | .clear t =>
    match s.freeze t with
    | .cleaning _ inactive =>
      some { s.setFreeze t .idle with table := Function.update s.table inactive ∅ }
    | _ => none

def init : State T := ⟨fun _ => ∅, 0, .waiting, fun _ => .idle, 0, [], [], []⟩

def system : System (State T) (Act T) := ⟨init, step userComHash⟩

/-- **No record is lost or reported twice.** -/
structure Kept (s : State T) : Prop where
  /-- No record is in two snapshots. -/
  once : s.returned.Pairwise fun f g => ∀ r ∈ f, r ∉ g
  /-- Every record is in a map, has been reported, or has been replaced. -/
  kept : ∀ r ∈ s.puts, (∃ i, r ∈ records (s.table i)) ∨ (∃ f ∈ s.returned, r ∈ f) ∨ r ∈ s.overwritten
  /-- A freeze clears the map of its own snapshot, and all that is in it has been reported. -/
  clean : ∀ t curr inactive, s.freeze t = .cleaning curr inactive →
    inactive = curr ∧ ∀ r ∈ records (s.table inactive), ∃ f ∈ s.returned, r ∈ f

/-- Between its exchange of the index and its second reading of it. -/
def Freeze.Switching : Freeze → Prop
  | .switched _ | .snapped _ => True
  | _ => False

/-- Between the snapshot of the map `i` and its clearing. -/
def Freeze.Draining (i : Fin 2) : Freeze → Prop
  | .snapped curr => curr = i
  | .cleaning _ inactive => inactive = i
  | _ => False

/-- The steps that do no harm: the index is exchanged while no other freeze is in between its own
exchange and its second reading, and the map to be frozen is not still to be cleared; and no record goes
into a map between the snapshot and the clearing of that map. -/
def Apart (s : State T) : Act T → Prop
  | .compareExchange t => s.freeze t = .loaded s.activeIdx → ∀ u ≠ t,
      ¬ (s.freeze u).Switching ∧ ¬ (s.freeze u).Draining s.activeIdx
  | .insert =>
    match s.receiver with
    | .loaded _ i => ∀ u, ¬ (s.freeze u).Draining i
    | .waiting => True
  | _ => True

instance : (f : Freeze) → Decidable f.Switching
  | .switched _ | .snapped _ => .isTrue trivial
  | .idle | .loaded _ | .cleaning _ _ => .isFalse not_false

instance (i : Fin 2) : (f : Freeze) → Decidable (f.Draining i)
  | .snapped curr => inferInstanceAs (Decidable (curr = i))
  | .cleaning _ inactive => inferInstanceAs (Decidable (inactive = i))
  | .idle | .loaded _ | .switched _ => .isFalse not_false

instance [Fintype T] (s : State T) : (a : Act T) → Decidable (Apart s a)
  | .compareExchange t => inferInstanceAs (Decidable (s.freeze t = .loaded s.activeIdx → ∀ u ≠ t,
      ¬ (s.freeze u).Switching ∧ ¬ (s.freeze u).Draining s.activeIdx))
  | .insert =>
    match hr : s.receiver with
    | .loaded _ i =>
      decidable_of_iff (∀ u, ¬ (s.freeze u).Draining i) (by simp only [Apart, hr])
    | .waiting => .isTrue (by simp only [Apart, hr])
  | .put _ | .load _ | .snapshot _ | .loadInactive _ | .clear _ => .isTrue trivial

end Model

/-! ### Maps -/

theorem mem_records {m : Table} {r : Record} : r ∈ records m ↔ ∃ k, m.lookup k = some r := by
  constructor
  · intro h
    obtain ⟨⟨k, r⟩, hmem, rfl⟩ := List.mem_map.mp h
    exact ⟨k, AList.mem_lookup_iff.mpr hmem⟩
  · rintro ⟨k, hk⟩
    exact List.mem_map.mpr ⟨⟨k, r⟩, AList.mem_lookup_iff.mp hk, rfl⟩

theorem mem_of_mem_insert {m : Table} {key : UInt64} {x r : Record}
    (h : r ∈ records (m.insert key x)) : r = x ∨ r ∈ records m := by
  obtain ⟨k, hk⟩ := mem_records.mp h
  by_cases he : k = key
  · subst he
    rw [AList.lookup_insert] at hk
    exact .inl (Option.some.inj hk).symm
  · rw [AList.lookup_insert_ne he] at hk
    exact .inr (mem_records.mpr ⟨k, hk⟩)

theorem mem_insert_self (m : Table) (key : UInt64) (x : Record) : x ∈ records (m.insert key x) :=
  mem_records.mpr ⟨key, AList.lookup_insert m⟩

/-- What was in the map stays, or has been replaced. -/
theorem mem_insert_or_replaced {m : Table} {r : Record} (key : UInt64) (x : Record)
    (h : r ∈ records m) : r ∈ records (m.insert key x) ∨ m.lookup key = some r := by
  obtain ⟨k, hk⟩ := mem_records.mp h
  by_cases he : k = key
  · subst he
    exact .inr hk
  · exact .inl (mem_records.mpr ⟨k, by rw [AList.lookup_insert_ne he]; exact hk⟩)

/-! ### The invariant -/

section Runs
variable {T : Type}

/-- A record has been reported. -/
def Reported (s : State T) (r : Record) : Prop := ∃ f ∈ s.returned, r ∈ f

/-- A record is in the map `i`. -/
def Held (s : State T) (i : Fin 2) (r : Record) : Prop := r ∈ records (s.table i)

/-- Some freeze is between the snapshot and the clearing of the map `i`. -/
def Drains (s : State T) (i : Fin 2) : Prop := ∃ t, (s.freeze t).Draining i

/-- At most one freeze is switching, and it has made the other map active; a freeze clears its own map;
no two freezes are at the same map, one of them draining it. -/
structure Phases (s : State T) : Prop where
  one : ∀ t u, (s.freeze t).Switching → (s.freeze u).Switching → t = u
  other : ∀ t curr, s.freeze t = .switched curr ∨ s.freeze t = .snapped curr → s.activeIdx = curr + 1
  own : ∀ t curr inactive, s.freeze t = .cleaning curr inactive → inactive = curr
  apart : ∀ t u i, (s.freeze t).Draining i → (s.freeze u).Draining i ∨ s.freeze u = .switched i → t = u

/-- A draining map has been reported, and a reported record is still in a map only if that is being
drained; a record is in one map; the receiver's record is nowhere yet. -/
structure Contents (s : State T) : Prop where
  drained : ∀ i r, Drains s i → Held s i r → Reported s r
  waiting : ∀ i r, Held s i r → Reported s r → Drains s i
  single : ∀ i j r, Held s i r → Held s j r → i = j
  old : ∀ r, (∃ i, Held s i r) ∨ Reported s r → r.number < s.next
  coming : ∀ r i, s.receiver = .loaded r i →
    r.number < s.next ∧ (∀ j, ¬ Held s j r) ∧ ¬ Reported s r
  once : s.returned.Pairwise fun f g => ∀ r ∈ f, r ∉ g
  kept : ∀ r ∈ s.puts, (∃ i, Held s i r) ∨ Reported s r ∨ r ∈ s.overwritten

structure Inv (s : State T) : Prop where
  phases : Phases s
  contents : Contents s

variable {s s' : State T} {t : T}

theorem Inv.kept_state (h : Inv s) : Kept s := by
  refine ⟨h.contents.once, h.contents.kept, fun t curr inactive ht => ?_⟩
  refine ⟨h.phases.own t curr inactive ht, fun r hr => h.contents.drained inactive r ⟨t, ?_⟩ hr⟩
  rw [ht]
  rfl

theorem inv_init : Inv (init : State T) := by
  have hheld : ∀ i r, ¬ Held (init : State T) i r := by
    intro i r h
    cases h
  have hrep : ∀ r, ¬ Reported (init : State T) r := by
    rintro r ⟨f, hf, -⟩
    cases hf
  refine ⟨⟨fun t u h => h.elim, ?_, ?_, fun t u i h => h.elim⟩, ⟨fun i r h => ?_,
    fun i r h => absurd h (hheld i r), fun i j r h => absurd h (hheld i r), ?_, ?_, .nil, ?_⟩⟩
  · rintro t curr (h | h) <;> cases h
  · intro t curr inactive h
    cases h
  · obtain ⟨t, h⟩ := h
    exact h.elim
  · rintro r (⟨i, h⟩ | h)
    · exact absurd h (hheld i r)
    · exact absurd h (hrep r)
  · intro r i h
    cases h
  · intro r h
    cases h

/-! ### New phases -/

section Steps
variable [DecidableEq T]

/-- A freeze enters the phase `f`, and the index becomes `s'.activeIdx`. -/
theorem phases_update (h : Phases s) {f : Freeze} (hf : s'.freeze = Function.update s.freeze t f)
    (hone : f.Switching → ∀ u ≠ t, ¬ (s.freeze u).Switching)
    (hother : ∀ curr, f = .switched curr ∨ f = .snapped curr → s'.activeIdx = curr + 1)
    (hidx : s'.activeIdx = s.activeIdx ∨ ∀ u ≠ t, ¬ (s.freeze u).Switching)
    (hown : ∀ curr inactive, f = .cleaning curr inactive → inactive = curr)
    (hdrain : ∀ i, f.Draining i → ∀ u ≠ t, ¬ (s.freeze u).Draining i ∧ s.freeze u ≠ .switched i)
    (hswitch : ∀ i, f = .switched i → ∀ u ≠ t, ¬ (s.freeze u).Draining i) : Phases s' := by
  have ht : s'.freeze t = f := by rw [hf, Function.update_self]
  have hu : ∀ u ≠ t, s'.freeze u = s.freeze u := fun u hu => by rw [hf, Function.update_of_ne hu]
  refine ⟨fun v u hv hv' => ?_, fun v curr hv => ?_, fun v curr inactive hv => ?_,
    fun v u i hv hv' => ?_⟩
  · rcases eq_or_ne v t with rfl | hvt <;> rcases eq_or_ne u v with huv | huv
    · exact huv.symm
    · rw [ht] at hv
      rw [hu u huv] at hv'
      exact absurd hv' (hone hv u huv)
    · exact huv.symm
    · rcases eq_or_ne u t with rfl | hut
      · rw [ht] at hv'
        rw [hu v hvt] at hv
        exact absurd hv (hone hv' v hvt)
      · rw [hu v hvt] at hv
        rw [hu u hut] at hv'
        exact h.one v u hv hv'
  · rcases eq_or_ne v t with rfl | hvt
    · rw [ht] at hv
      exact hother curr hv
    · rw [hu v hvt] at hv
      rcases hidx with hidx | hidx
      · rw [hidx]
        exact h.other v curr hv
      · refine absurd ?_ (hidx v hvt)
        rcases hv with hv | hv <;> rw [hv] <;> trivial
  · rcases eq_or_ne v t with rfl | hvt
    · rw [ht] at hv
      exact hown curr inactive hv
    · rw [hu v hvt] at hv
      exact h.own v curr inactive hv
  · rcases eq_or_ne v t with rfl | hvt <;> rcases eq_or_ne u v with huv | huv
    · exact huv.symm
    · rw [ht] at hv
      rw [hu u huv] at hv'
      obtain ⟨h1, h2⟩ := hdrain i hv u huv
      exact absurd hv' (by simp [h1, h2])
    · exact huv.symm
    · rw [hu v hvt] at hv
      rcases eq_or_ne u t with rfl | hut
      · rw [ht] at hv'
        rcases hv' with hv' | hv'
        · exact absurd hv (hdrain i hv' v hvt).1
        · exact absurd hv (hswitch i hv' v hvt)
      · rw [hu u hut] at hv'
        exact h.apart v u i hv hv'

/-- Which maps are drained changes only with the phase of the freeze that moves. -/
theorem drains_update {f : Freeze} (hf : s'.freeze = Function.update s.freeze t f)
    (hd : ∀ i, f.Draining i ↔ (s.freeze t).Draining i) (i : Fin 2) : Drains s' i ↔ Drains s i := by
  have hall : ∀ u, (s'.freeze u).Draining i ↔ (s.freeze u).Draining i := by
    intro u
    rcases eq_or_ne u t with rfl | hut
    · rw [hf, Function.update_self, hd]
    · rw [hf, Function.update_of_ne hut]
  exact exists_congr hall

omit [DecidableEq T] in
/-- A step that leaves the records alone and drains what was drained. -/
theorem contents_of_drains (h : Contents s) (htable : s'.table = s.table)
    (hrec : s'.receiver = s.receiver) (hnext : s'.next = s.next) (hputs : s'.puts = s.puts)
    (hret : s'.returned = s.returned) (hover : s'.overwritten = s.overwritten)
    (hd : ∀ i, Drains s' i ↔ Drains s i) : Contents s' := by
  have hheld : ∀ i r, Held s' i r ↔ Held s i r := fun i r => by rw [Held, Held, htable]
  have hrep : ∀ r, Reported s' r ↔ Reported s r := fun r => by rw [Reported, Reported, hret]
  constructor
  · simpa only [hd, hheld, hrep] using h.drained
  · simpa only [hd, hheld, hrep] using h.waiting
  · simpa only [hheld] using h.single
  · simpa only [hheld, hrep, hnext] using h.old
  · simpa only [hheld, hrep, hnext, hrec] using h.coming
  · rw [hret]
    exact h.once
  · simpa only [hheld, hrep, hputs, hover] using h.kept

omit [DecidableEq T] in
/-- Nobody drains a map that a freeze has just taken out of use. -/
theorem not_drains_switched {curr : Fin 2} (h : Phases s) (ht : s.freeze t = .switched curr) :
    ¬ Drains s curr := by
  rintro ⟨u, hu⟩
  have hut : u = t := h.apart u t curr hu (.inr ht)
  rw [hut, ht] at hu
  exact hu

theorem drains_snapped {curr : Fin 2} (ht : s.freeze t = .switched curr)
    (hf : s'.freeze = Function.update s.freeze t (.snapped curr)) (i : Fin 2) :
    Drains s' i ↔ Drains s i ∨ i = curr := by
  constructor
  · rintro ⟨u, hu⟩
    rcases eq_or_ne u t with rfl | hut
    · rw [hf, Function.update_self] at hu
      have hi : curr = i := hu
      exact .inr hi.symm
    · rw [hf, Function.update_of_ne hut] at hu
      exact .inl ⟨u, hu⟩
  · rintro (⟨u, hu⟩ | rfl)
    · have hut : u ≠ t := by
        rintro rfl
        rw [ht] at hu
        exact hu
      exact ⟨u, by rw [hf, Function.update_of_ne hut]; exact hu⟩
    · exact ⟨t, by rw [hf, Function.update_self]; rfl⟩

omit [DecidableEq T] in
/-- A step that reports the map `curr`, which nobody drained, and drains it from then on. -/
theorem contents_of_reported {curr : Fin 2} (h : Contents s) (hnone : ¬ Drains s curr)
    (htable : s'.table = s.table) (hrec : s'.receiver = s.receiver) (hnext : s'.next = s.next)
    (hputs : s'.puts = s.puts) (hover : s'.overwritten = s.overwritten)
    (hret : s'.returned = s.returned ++ [records (s.table curr)])
    (hd : ∀ i, Drains s' i ↔ Drains s i ∨ i = curr) : Contents s' := by
  have hheld : ∀ i r, Held s' i r ↔ Held s i r := fun i r => by rw [Held, Held, htable]
  have hrep : ∀ r, Reported s' r ↔ Reported s r ∨ Held s curr r := by
    intro r
    rw [Reported, hret]
    simp only [List.mem_append, List.mem_singleton, or_and_right, exists_or, exists_eq_left]
    rfl
  constructor
  · intro i r hi hr
    rw [hheld] at hr
    rcases (hd i).mp hi with hi | rfl
    · exact (hrep r).mpr (.inl (h.drained i r hi hr))
    · exact (hrep r).mpr (.inr hr)
  · intro i r hr hr'
    rw [hheld] at hr
    rcases (hrep r).mp hr' with hr' | hr'
    · exact (hd i).mpr (.inl (h.waiting i r hr hr'))
    · exact (hd i).mpr (.inr (h.single i curr r hr hr'))
  · simpa only [hheld] using h.single
  · intro r hr
    simp only [hheld, hrep] at hr
    rw [hnext]
    rcases hr with hr | hr | hr
    · exact h.old r (.inl hr)
    · exact h.old r (.inr hr)
    · exact h.old r (.inl ⟨curr, hr⟩)
  · intro r i hr
    rw [hrec] at hr
    obtain ⟨hnum, hnot, hnew⟩ := h.coming r i hr
    simp only [hheld, hrep, hnext]
    exact ⟨hnum, hnot, fun hr' => hr'.elim hnew (hnot curr)⟩
  · -- a record of the snapshot that was reported before would be in a drained map
    rw [hret]
    refine List.pairwise_append.mpr ⟨h.once, List.pairwise_singleton _ _, ?_⟩
    intro f hf g hg r hr hr'
    rw [List.mem_singleton.mp hg] at hr'
    exact hnone (h.waiting curr r hr' ⟨f, hf, hr⟩)
  · intro r hr
    rw [hputs] at hr
    simp only [hheld, hrep, hover]
    rcases h.kept r hr with hr | hr | hr
    · exact .inl hr
    · exact .inr (.inl (.inl hr))
    · exact .inr (.inr hr)

/-! ### Steps -/

variable {userComHash : UserCom → UInt64}

theorem inv_put {c : UserCom} (h : Inv s) (hs : step userComHash s (.put c) = some s') : Inv s' := by
  simp only [step] at hs
  split at hs
  · cases hs
    obtain ⟨h1, h2⟩ := h
    refine ⟨⟨h1.one, h1.other, h1.own, h1.apart⟩, ⟨h2.drained, h2.waiting, h2.single, ?_, ?_, h2.once,
      h2.kept⟩⟩
    · intro r hr
      exact Nat.lt_succ_of_lt (h2.old r hr)
    · -- the number of the new record has not been used
      intro r i hr
      cases hr
      refine ⟨Nat.lt_succ_self _, fun j hj => ?_, fun hrep => ?_⟩
      · exact absurd (h2.old _ (.inl ⟨j, hj⟩)) (lt_irrefl s.next)
      · exact absurd (h2.old _ (.inr hrep)) (lt_irrefl s.next)
  · cases hs

theorem inv_insert (h : Inv s) (hap : Apart s .insert) (hs : step userComHash s .insert = some s') :
    Inv s' := by
  simp only [step] at hs
  split at hs
  · rename_i r i hr
    cases hs
    obtain ⟨h1, h2⟩ := h
    obtain ⟨hnum, hnot, hnew⟩ := h2.coming r i hr
    rw [Apart, hr] at hap
    have hdrain : ¬ Drains s i := fun ⟨u, hu⟩ => hap u hu
    set s' : State T := ⟨Function.update s.table i ((s.table i).insert (userComHash r.userCom) r),
      s.activeIdx, .waiting, s.freeze, s.next, s.puts ++ [r], s.returned,
      s.overwritten ++ ((s.table i).lookup (userComHash r.userCom)).toList⟩
    have hheld : ∀ j x, Held s' j x → x = r ∧ j = i ∨ Held s j x := by
      intro j x hx
      rcases eq_or_ne j i with rfl | hj
      · rw [Held, show s'.table j = _ from Function.update_self j _ s.table] at hx
        rcases mem_of_mem_insert hx with rfl | hx
        · exact .inl ⟨rfl, rfl⟩
        · exact .inr hx
      · rw [Held, show s'.table j = _ from Function.update_of_ne hj _ s.table] at hx
        exact .inr hx
    refine ⟨⟨h1.one, h1.other, h1.own, h1.apart⟩, ⟨?_, ?_, ?_, ?_, ?_, h2.once, ?_⟩⟩
    · intro j x hd hx
      rcases hheld j x hx with ⟨-, rfl⟩ | hx
      · exact absurd hd hdrain
      · exact h2.drained j x hd hx
    · intro j x hx hrep
      rcases hheld j x hx with ⟨rfl, -⟩ | hx
      · exact absurd hrep hnew
      · exact h2.waiting j x hx hrep
    · intro j k x hj hk
      rcases hheld j x hj with ⟨rfl, rfl⟩ | hj <;> rcases hheld k x hk with ⟨hx, hk'⟩ | hk
      · exact hk'.symm
      · exact absurd hk (hnot k)
      · exact absurd (hx ▸ hj) (hnot j)
      · exact h2.single j k x hj hk
    · rintro x (⟨j, hj⟩ | hrep)
      · rcases hheld j x hj with ⟨rfl, -⟩ | hj
        · exact hnum
        · exact h2.old x (.inl ⟨j, hj⟩)
      · exact h2.old x (.inr hrep)
    · intro x j hx
      cases hx
    · intro x hx
      rcases List.mem_append.mp hx with hx | hx
      · rcases h2.kept x hx with ⟨j, hj⟩ | hrep | hover
        · rcases eq_or_ne j i with rfl | hji
          · rcases mem_insert_or_replaced (userComHash r.userCom) r hj with hj | hrep
            · refine .inl ⟨j, ?_⟩
              rw [Held, show s'.table j = _ from Function.update_self j _ s.table]
              exact hj
            · exact .inr (.inr (List.mem_append_right _ (by simp [hrep])))
          · refine .inl ⟨j, ?_⟩
            rw [Held, show s'.table j = _ from Function.update_of_ne hji _ s.table]
            exact hj
        · exact .inr (.inl hrep)
        · exact .inr (.inr (List.mem_append_left _ hover))
      · rw [List.mem_singleton.mp hx]
        refine .inl ⟨i, ?_⟩
        rw [Held, show s'.table i = _ from Function.update_self i _ s.table]
        exact mem_insert_self _ _ _
  · cases hs

/-- A freeze that has not exchanged the index does no harm. -/
theorem inv_quiet (h : Inv s) {f : Freeze} (hf : f = .idle ∨ ∃ curr, f = .loaded curr)
    (ht : ∀ i, ¬ (s.freeze t).Draining i) : Inv (s.setFreeze t f) := by
  have hdrain : ∀ i, ¬ f.Draining i := by
    rintro i hi
    rcases hf with rfl | ⟨curr, rfl⟩ <;> exact hi
  refine ⟨phases_update h.phases rfl ?_ ?_ (.inl rfl) ?_ ?_ ?_,
    contents_of_drains h.contents rfl rfl rfl rfl rfl rfl (drains_update rfl fun i => ?_)⟩
  · intro hs
    rcases hf with rfl | ⟨curr, rfl⟩ <;> exact hs.elim
  · rcases hf with rfl | ⟨curr, rfl⟩ <;> simp
  · rcases hf with rfl | ⟨curr, rfl⟩ <;> simp
  · exact fun i hi => absurd hi (hdrain i)
  · rcases hf with rfl | ⟨curr, rfl⟩ <;> simp
  · exact iff_of_false (hdrain i) (ht i)

theorem inv_load (h : Inv s) (hs : step userComHash s (.load t) = some s') : Inv s' := by
  simp only [step] at hs
  split at hs
  · rename_i ht
    cases hs
    exact inv_quiet h (.inr ⟨_, rfl⟩) fun i hi => by
      rw [ht] at hi
      exact hi
  · cases hs

theorem inv_compareExchange (h : Inv s) (hap : Apart s (.compareExchange t))
    (hs : step userComHash s (.compareExchange t) = some s') : Inv s' := by
  simp only [step] at hs
  split at hs
  · rename_i curr ht
    split_ifs at hs with hidx
    · -- the exchange succeeds
      subst hidx
      cases hs
      refine ⟨phases_update h.phases rfl ?_ ?_ (.inr ?_) ?_ ?_ ?_,
        contents_of_drains h.contents rfl rfl rfl rfl rfl rfl (drains_update rfl ?_)⟩
      · exact fun _ u hu => (hap ht u hu).1
      · rintro c (hc | hc) <;> cases hc
        rfl
      · exact fun u hu => (hap ht u hu).1
      · simp
      · exact fun i h => h.elim
      · intro i hi u hu
        cases hi
        exact (hap ht u hu).2
      · intro i
        rw [ht]
        rfl
    · cases hs
      exact inv_quiet h (.inl rfl) fun i hi => by
        rw [ht] at hi
        exact hi
  · cases hs

theorem inv_loadInactive (h : Inv s) (hs : step userComHash s (.loadInactive t) = some s') : Inv s' := by
  simp only [step] at hs
  split at hs
  · rename_i curr ht
    cases hs
    -- the index is still the one this freeze has set
    have hidx : s.activeIdx + 1 = curr := by
      rw [h.phases.other t curr (.inr ht)]
      omega
    have hdrain : (s.freeze t).Draining curr := by
      rw [ht]
      rfl
    rw [hidx]
    refine ⟨phases_update h.phases rfl ?_ ?_ (.inl rfl) ?_ ?_ ?_,
      contents_of_drains h.contents rfl rfl rfl rfl rfl rfl (drains_update rfl ?_)⟩
    · exact fun h => h.elim
    · simp
    · rintro c i hc
      cases hc
      rfl
    · rintro i hi u hu
      have hi' : curr = i := hi
      subst hi'
      exact ⟨fun hd => hu (h.phases.apart u t curr hd (.inl hdrain)),
        fun hd => hu (h.phases.apart t u curr hdrain (.inr hd)).symm⟩
    · simp
    · intro i
      rw [ht]
      rfl
  · cases hs

theorem inv_snapshot (h : Inv s) (hs : step userComHash s (.snapshot t) = some s') : Inv s' := by
  simp only [step] at hs
  split at hs
  · rename_i curr ht
    cases hs
    have hnone := not_drains_switched h.phases ht
    refine ⟨phases_update h.phases rfl ?_ ?_ (.inl rfl) ?_ ?_ ?_,
      contents_of_reported h.contents hnone rfl rfl rfl rfl rfl rfl (drains_snapped ht rfl)⟩
    · intro _ u hu hsw
      exact hu (h.phases.one u t hsw (by rw [ht]; trivial))
    · rintro c (hc | hc) <;> cases hc
      exact h.phases.other t curr (.inl ht)
    · simp
    · intro i hi u hu
      have hi' : curr = i := hi
      subst hi'
      refine ⟨fun hd => hnone ⟨u, hd⟩, fun hd => ?_⟩
      exact hu (h.phases.one u t (by rw [hd]; trivial) (by rw [ht]; trivial))
    · simp
  · cases hs

theorem inv_clear (h : Inv s) (hs : step userComHash s (.clear t) = some s') : Inv s' := by
  simp only [step] at hs
  split at hs
  · rename_i curr i ht
    cases hs
    obtain ⟨h1, h2⟩ := h
    have hdrain : (s.freeze t).Draining i := by
      rw [ht]
      rfl
    set s' : State T := { s.setFreeze t .idle with table := Function.update s.table i ∅ }
    -- the other map is as before
    have hheld : ∀ j r, Held s' j r → j ≠ i ∧ Held s j r := by
      intro j r hr
      rcases eq_or_ne j i with rfl | hj
      · rw [Held, show s'.table j = _ from Function.update_self j _ s.table] at hr
        cases hr
      · rw [Held, show s'.table j = _ from Function.update_of_ne hj _ s.table] at hr
        exact ⟨hj, hr⟩
    constructor
    · refine phases_update h1 rfl ?_ ?_ (.inl rfl) ?_ ?_ ?_
      · exact fun h => h.elim
      · simp
      · simp
      · exact fun i h => h.elim
      · simp
    · refine ⟨?_, ?_, ?_, ?_, ?_, h2.once, ?_⟩
      · rintro j r ⟨u, hu⟩ hr
        rcases eq_or_ne u t with rfl | hut
        · rw [show s'.freeze u = _ from Function.update_self u _ s.freeze] at hu
          exact hu.elim
        · rw [show s'.freeze u = _ from Function.update_of_ne hut _ s.freeze] at hu
          exact h2.drained j r ⟨u, hu⟩ (hheld j r hr).2
      · intro j r hr hrep
        obtain ⟨hji, hr⟩ := hheld j r hr
        obtain ⟨u, hu⟩ := h2.waiting j r hr hrep
        have hut : u ≠ t := by
          rintro rfl
          rw [ht] at hu
          have hij : i = j := hu
          exact hji hij.symm
        exact ⟨u, by rw [show s'.freeze u = _ from Function.update_of_ne hut _ s.freeze]; exact hu⟩
      · intro j k r hj hk
        exact h2.single j k r (hheld j r hj).2 (hheld k r hk).2
      · rintro r (⟨j, hr⟩ | hr)
        · exact h2.old r (.inl ⟨j, (hheld j r hr).2⟩)
        · exact h2.old r (.inr hr)
      · intro r j hr
        obtain ⟨hnum, hnot, hnew⟩ := h2.coming r j hr
        exact ⟨hnum, fun k hk => hnot k (hheld k r hk).2, hnew⟩
      · -- what is cleared has been reported
        intro r hr
        rcases h2.kept r hr with ⟨j, hj⟩ | hr | hr
        · rcases eq_or_ne j i with rfl | hji
          · exact .inr (.inl (h2.drained j r ⟨t, hdrain⟩ hj))
          · refine .inl ⟨j, ?_⟩
            rw [Held, show s'.table j = _ from Function.update_of_ne hji _ s.table]
            exact hj
        · exact .inr (.inl hr)
        · exact .inr (.inr hr)
  · cases hs

theorem inv_step {a : Act T} (h : Inv s) (hap : Apart s a) (hs : step userComHash s a = some s') :
    Inv s' := by
  cases a with
  | put c => exact inv_put h hs
  | insert => exact inv_insert h hap hs
  | load t => exact inv_load h hs
  | compareExchange t => exact inv_compareExchange h hap hs
  | snapshot t => exact inv_snapshot h hs
  | loadInactive t => exact inv_loadInactive h hs
  | clear t => exact inv_clear h hs

/-- **The window keeps its records** in every run whose freezes stay apart and whose records do not go
into a map that is being drained. -/
theorem kept_run {as : List (Act T)} (hap : (system userComHash).Every Apart as)
    (h : (system userComHash).run as = some s) : Kept s :=
  (System.invariant_of_every inv_init (fun _ _ _ => inv_step) hap h).kept_state

end Steps

end Runs

/-- The records of one user at two times. -/
def sampleCom (ts : ℕ) : UserCom := ⟨testTenantKey, "u", 3, ts⟩

/-- A hash that tells the times of records apart. -/
def sampleHash (c : UserCom) : UInt64 := UInt64.ofNat c.comTs

/-- Two freezes, one after the other, and a record put during the first. -/
def apartRun : List (Act Bool) :=
  [.put (sampleCom 1), .insert, .load false, .compareExchange false, .put (sampleCom 2),
    .snapshot false, .insert, .loadInactive false, .clear false, .load true, .compareExchange true,
    .snapshot true, .loadInactive true, .clear true]

theorem apartRun_kept : ∃ s, (system sampleHash).run apartRun = some s ∧ Kept s ∧
    s.returned = [[⟨0, sampleCom 1⟩], [⟨1, sampleCom 2⟩]] := by
  have hap : (system sampleHash).Every Apart apartRun := System.every_of_everyFrom (by decide)
  exact ⟨_, rfl, kept_run hap rfl, by decide⟩

/-- A record that is put between the snapshot and the clearing of its map. -/
def lateRun : List (Act Bool) :=
  [.put (sampleCom 1), .load false, .compareExchange false, .snapshot false, .insert,
    .loadInactive false, .clear false]

/-- A freeze that exchanges the index while another one is about to look for the inactive map. -/
def overlappingRun : List (Act Bool) :=
  [.load false, .compareExchange false, .snapshot false, .load true, .compareExchange true,
    .loadInactive false]

/-- The record of the first run is lost; in the second one a freeze clears the map of the other. -/
theorem records_not_kept : (∃ s, (system sampleHash).run lateRun = some s ∧ ¬ Kept s) ∧
    ∃ s, (system sampleHash).run overlappingRun = some s ∧ ¬ Kept s := by
  constructor
  · refine ⟨_, rfl, fun h => ?_⟩
    rcases h.kept ⟨0, sampleCom 1⟩ (by decide) with ⟨i, hi⟩ | ⟨f, hf, hr⟩ | hr
    · revert hi
      decide +revert
    · -- the only snapshot was empty
      have hnone : ∀ f ∈ ([[]] : List (List Record)), (⟨0, sampleCom 1⟩ : Record) ∉ f := by decide
      exact hnone f hf hr
    · exact absurd hr (by decide)
  · refine ⟨_, rfl, fun h => ?_⟩
    have := (h.clean false 0 1 rfl).1
    exact absurd this (by decide)

end Haentgl.Cp.ActiveUsers
