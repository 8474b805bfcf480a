import Haentgl.Lib.Runs
import Haentgl.Server.Session

/-! # The pool of a backend

The pool keeps the connections to one backend. A client is given an idle connection that `recycle` lets
pass; one that it does not let pass is dropped, and the next one is tried. When no idle connection is left
a new one is opened, as long as there are fewer than `max`.

Sessions on different connections run at the same time, and nothing is shared between them: a session has
its connection for itself until it ends. So the whole of it is one step here, the one in which it ends,
and clients come and go in any order between these steps. -/

namespace Haentgl.Server.Pools

open Haentgl.Lib.Program Haentgl.Lib.Runs Haentgl.Protocol.Constants Haentgl.Protocol.Io
open Haentgl.Server.Links Haentgl.Server.Proxy Haentgl.Server.Parties Haentgl.Server.Responses
open Haentgl.Server.Auth Haentgl.Server.Pool Haentgl.Server.Lifecycle Haentgl.Server.Session

/-- A connection, the clients it has served, and the client whose session runs on it. -/
structure Slot where
  conn : Pooled World
  served : List Visit
  client : Option Visit

/-- The pool; `arrived` are the clients that were given a connection, `dropped` the clients of the
connections that were dropped, and `reports` the sessions that have ended, with their client's link. -/
structure State where
  slots : List Slot
  arrived : List Visit
  dropped : List (List Visit)
  reports : List (Visit × List Event)

/-- A client tries the idle connection `k`, or gets a new one with the greeting `g`, whose socket takes `n`
messages after a hang-up; the session on the connection `k` ends. -/
inductive Act
  | get (v : Visit) (k : ℕ)
  | create (v : Visit) (g : Message) (n : ℕ)
  | finish (k fuel : ℕ)
  deriving DecidableEq, Repr

instance decidableEnded (r : Except Stop Unit) : Decidable (Ended r) :=
  match r with
  | .error (.blocked side) => .isFalse fun h => h.1 side rfl
  | .error .outOfRounds => .isFalse fun h => h.2 rfl
  | .error (.io _) => .isTrue ⟨fun _ => by simp, by simp⟩
  | .error .panic => .isTrue ⟨fun _ => by simp, by simp⟩
  | .ok () => .isTrue ⟨fun _ => by simp, by simp⟩

section Model
variable (R : Respond) (S : Setup) (max : ℕ)

/-- `Pool::get` for an idle connection: `recycle` lets it pass or has it dropped. -/
def tryIdle (p : State) (v : Visit) (k : ℕ) (slot : Slot) : Option State :=
  match recycle slot.conn.tag with
  | none => none
  | some (.ok ()) => some { p with
      slots := p.slots.set k { slot with client := some v }, arrived := p.arrived ++ [v] }
  | some (.error _) => some { p with
      slots := p.slots.eraseIdx k, dropped := p.dropped ++ [slot.served] }

/-- The session of `v` on the connection `k` runs to its end. -/
def endSession (p : State) (k fuel : ℕ) (slot : Slot) (v : Visit) : Option State :=
  let (r, s') := (connect (net R) (setupFor S v) fuel).run (seat slot.conn v)
  if Ended r then some { p with
    slots := p.slots.set k ⟨s', slot.served ++ [v], none⟩
    reports := p.reports ++ [(v, s'.conn.net.clientLink)] }
  else none

def step (p : State) : Act → Option State
  | .get v k => do
    let slot ← p.slots[k]?
    if slot.client = none then tryIdle p v k slot else none
  | .create v g n =>
    if (∀ slot ∈ p.slots, slot.client ≠ none) ∧ p.slots.length < max then
      some { p with slots := p.slots ++ [⟨newConn g n, [], some v⟩], arrived := p.arrived ++ [v] }
    else none
  | .finish k fuel => do
    let slot ← p.slots[k]?
    let v ← slot.client
    endSession R S p k fuel slot v

/-- The pool in the beginning: connections are opened on demand. -/
def system : System State Act := ⟨⟨[], [], [], []⟩, step R S max⟩

end Model

/-! ### What a step does -/

theorem exists_split {α : Type} {l : List α} {k : ℕ} {x : α} (h : l[k]? = some x) :
    ∃ pre post, l = pre ++ x :: post ∧ (∀ y, l.set k y = pre ++ y :: post) ∧
      l.eraseIdx k = pre ++ post := by
  obtain ⟨hk, rfl⟩ := List.getElem?_eq_some_iff.mp h
  refine ⟨l.take k, l.drop (k + 1), ?_, fun y => ?_, List.eraseIdx_eq_take_drop_succ l k⟩
  · rw [← List.drop_eq_getElem_cons hk, List.take_append_drop]
  · rw [List.set_eq_take_append_cons_drop, if_pos hk]

/-- The tag of a connection that was not tampered with. -/
def Tagged (t : DbUserConnLifeCycle) : Prop := t = .default ∨ ∃ u ph, t = .newConnLifeCycle u ph

section Steps
variable {R : Respond} {S : Setup} {max : ℕ} {p p' : State} {a : Act}

/-- The step on one connection, in place. -/
inductive Change (R : Respond) (S : Setup) (max : ℕ) (p : State) : Act → State → Prop
  | given {v : Visit} {k : ℕ} {pre post : List Slot} {slot : Slot} (hp : p.slots = pre ++ slot :: post)
    (hk : p.slots[k]? = some slot) (hidle : slot.client = none)
    (hr : recycle slot.conn.tag = some (.ok ())) :
    Change R S max p (.get v k)
      { p with slots := pre ++ { slot with client := some v } :: post, arrived := p.arrived ++ [v] }
  | dropped {v : Visit} {k : ℕ} {pre post : List Slot} {slot : Slot} {e : IoError}
    (hp : p.slots = pre ++ slot :: post) (hk : p.slots[k]? = some slot) (hidle : slot.client = none)
    (hr : recycle slot.conn.tag = some (.error e)) :
    Change R S max p (.get v k) { p with slots := pre ++ post, dropped := p.dropped ++ [slot.served] }
  | created {v : Visit} {g : Message} {n : ℕ} (hbusy : ∀ slot ∈ p.slots, slot.client ≠ none)
    (hroom : p.slots.length < max) :
    Change R S max p (.create v g n)
      { p with slots := p.slots ++ [⟨newConn g n, [], some v⟩], arrived := p.arrived ++ [v] }
  | ended {k fuel : ℕ} {pre post : List Slot} {slot : Slot} {v : Visit} {r : Except Stop Unit}
    {s' : Pooled World} (hp : p.slots = pre ++ slot :: post) (hk : p.slots[k]? = some slot)
    (hv : slot.client = some v)
    (hrun : (connect (net R) (setupFor S v) fuel).run (seat slot.conn v) = (r, s')) (hr : Ended r) :
    Change R S max p (.finish k fuel) { p with
      slots := pre ++ ⟨s', slot.served ++ [v], none⟩ :: post
      reports := p.reports ++ [(v, s'.conn.net.clientLink)] }

theorem change_of_step (h : step R S max p a = some p') : Change R S max p a p' := by
  cases a with
  | get v k =>
    obtain ⟨slot, hk, h⟩ := Option.bind_eq_some_iff.mp h
    split_ifs at h with hidle
    obtain ⟨pre, post, hp, hset, herase⟩ := exists_split hk
    unfold tryIdle at h
    split at h
    · cases h
    · next hr =>
      obtain rfl := Option.some.inj h
      rw [hset]
      exact .given hp hk hidle hr
    · next e hr =>
      obtain rfl := Option.some.inj h
      rw [herase]
      exact .dropped hp hk hidle hr
  | create v g n =>
    simp only [step] at h
    split_ifs at h with hnew
    obtain rfl := Option.some.inj h
    exact .created hnew.1 hnew.2
  | finish k fuel =>
    obtain ⟨slot, hk, h⟩ := Option.bind_eq_some_iff.mp h
    obtain ⟨v, hv, h⟩ := Option.bind_eq_some_iff.mp h
    obtain ⟨pre, post, hp, hset, -⟩ := exists_split hk
    rcases hrun : (connect (net R) (setupFor S v) fuel).run (seat slot.conn v) with ⟨r, s'⟩
    simp only [endSession, hrun] at h
    split_ifs at h with hr
    obtain rfl := Option.some.inj h
    rw [hset]
    exact .ended hp hk hv hrun hr

/-- A session leaves the tag as it was or sets it. -/
theorem tagged_connect {s s' : Pooled World} {fuel : ℕ} {r : Except Stop Unit} (hs : Tagged s.tag)
    (hrun : (connect (net R) S fuel).run s = (r, s')) : Tagged s'.tag := by
  have hauth : Tagged ((authenticate (net R) S).run s).2.tag := by
    rcases hi : (initialHandshake (net R) S).run (s.conn.setSeq .client 0) with ⟨e | x, c1⟩
    · rw [run_authenticate_error hi]
      exact hs
    · rw [run_authenticate hi]
      rcases (authPath (net R) S s.tag x.1 x.2.1 x.2.2).run ⟨0, 0, c1.net⟩ with ⟨e | u, c2⟩
      · cases e with
        | io i => exact Or.inr ⟨_, _, rfl⟩
        | _ => exact hs
      · exact Or.inr ⟨_, _, rfl⟩
  rcases ha : (authenticate (net R) S).run s with ⟨e | o, s1⟩
  · rw [run_connect_error ha] at hrun
    obtain ⟨-, rfl⟩ := Prod.mk.inj hrun
    simpa [ha] using hauth
  · rcases o with _ | h
    · rw [run_connect_none ha] at hrun
      obtain ⟨-, rfl⟩ := Prod.mk.inj hrun
      simpa [ha] using hauth
    · rw [run_connect_some ha, onConn, Proc.run_zoom] at hrun
      obtain ⟨-, rfl⟩ := Prod.mk.inj hrun
      simpa [ha] using hauth

theorem Tagged.recycles {t : DbUserConnLifeCycle} (h : Tagged t) : recycle t ≠ none := by
  rcases h with rfl | ⟨u, ph, rfl⟩
  · decide
  · cases ph <;> simp [recycle, DbUserConnLifeCycle.newConnLifeCycle, DbUserConnLifeCycle.isNone]

/-! ### The invariant -/

/-- The clients of a connection, the one that uses it last. -/
def Slot.clients (slot : Slot) : List Visit := slot.served ++ slot.client.toList

/-- What holds of a connection: it is handed out in a state of `Served`, and between two sessions it is
in such a state unless `recycle` will have it dropped. -/
structure Kept (R : Respond) (S : Setup) (slot : Slot) : Prop where
  tagged : Tagged slot.conn.tag
  served : slot.client ≠ none ∨ recycle slot.conn.tag = some (.ok ()) → Served R S slot.served slot.conn

/-- **The invariant** of the pool. -/
structure Inv (R : Respond) (S : Setup) (max : ℕ) (p : State) : Prop where
  room : p.slots.length ≤ max
  kept : ∀ slot ∈ p.slots, Kept R S slot
  once : p.arrived.Perm (p.slots.flatMap Slot.clients ++ p.dropped.flatten)
  reported : (p.reports.map Prod.fst).Perm (p.slots.flatMap Slot.served ++ p.dropped.flatten)

theorem forall_mem_middle {α : Type} {P : α → Prop} {pre post : List α} {x y : α}
    (h : ∀ z ∈ pre ++ x :: post, P z) (hy : P y) : ∀ z ∈ pre ++ y :: post, P z := by
  intro z hz
  rcases List.mem_append.mp hz with hz | hz
  · exact h z (by simp [hz])
  · rcases List.mem_cons.mp hz with rfl | hz
    · exact hy
    · exact h z (by simp [hz])

theorem Kept.given {slot : Slot} (h : Kept R S slot) (hr : recycle slot.conn.tag = some (.ok ()))
    (v : Visit) : Kept R S { slot with client := some v } :=
  ⟨h.tagged, fun _ => h.served (Or.inr hr)⟩

theorem Kept.ended {slot : Slot} {v : Visit} {fuel : ℕ} {r : Except Stop Unit} {s' : Pooled World}
    (h : Kept R S slot) (hv : slot.client = some v)
    (hrun : (connect (net R) (setupFor S v) fuel).run (seat slot.conn v) = (r, s')) (hr : Ended r) :
    Kept R S ⟨s', slot.served ++ [v], none⟩ := by
  refine ⟨tagged_connect (s := seat slot.conn v) h.tagged hrun, fun hor => ?_⟩
  have hrecycle : recycle s'.tag = some (.ok ()) := by simpa using hor
  exact .again (h.served (Or.inl (by simp [hv]))) ⟨r, hrun, hr, hrecycle⟩

theorem Inv.step (I : Inv R S max p) (h : step R S max p a = some p') : Inv R S max p' := by
  have hchange := change_of_step h
  obtain ⟨hroom, hkept, honce, hreported⟩ := I
  cases hchange with
  | @given v k pre post slot hp hk hidle hr =>
    rw [hp] at hroom hkept honce hreported
    refine ⟨by simpa using hroom, ?_, ?_, by simpa using hreported⟩
    · exact forall_mem_middle hkept ((hkept slot (by simp)).given hr v)
    · -- the new client stands behind those the connection has served
      refine (honce.append_right [v]).trans ?_
      rw [List.perm_iff_count]
      intro w
      simp only [List.flatMap_append, List.flatMap_cons, Slot.clients, hidle, List.count_append,
        Option.toList_none, Option.toList_some, List.count_nil]
      omega
  | @dropped v k pre post slot e hp hk hidle hr =>
    rw [hp] at hroom hkept honce hreported
    refine ⟨by simp at hroom ⊢; omega, fun z hz => hkept z ?_, honce.trans ?_, hreported.trans ?_⟩
    · rcases List.mem_append.mp hz with hz | hz <;> simp [hz]
    · rw [List.perm_iff_count]
      intro w
      simp only [List.flatMap_append, List.flatMap_cons, Slot.clients, hidle, List.count_append,
        Option.toList_none, List.count_nil, List.flatten_append, List.flatten_cons, List.flatten_nil]
      omega
    · rw [List.perm_iff_count]
      intro w
      simp only [List.flatMap_append, List.flatMap_cons, List.count_append, List.count_nil,
        List.flatten_append, List.flatten_cons, List.flatten_nil]
      omega
  | @created v g n hbusy hlt =>
    refine ⟨by simpa using hlt, ?_, ?_, by simpa using hreported⟩
    · intro slot hslot
      rcases List.mem_append.mp hslot with hslot | hslot
      · exact hkept slot hslot
      · obtain rfl := List.mem_singleton.mp hslot
        exact ⟨Or.inl rfl, fun _ => .new g n⟩
    · refine (honce.append_right [v]).trans ?_
      rw [List.perm_iff_count]
      intro w
      simp only [List.flatMap_append, List.flatMap_cons, List.flatMap_nil, Slot.clients, List.count_append,
        Option.toList_some, List.count_nil]
      omega
  | @ended k fuel pre post slot v r s' hp hk hv hrun hr =>
    rw [hp] at hroom hkept honce hreported
    refine ⟨by simpa using hroom, ?_, honce.trans ?_, ?_⟩
    · exact forall_mem_middle hkept ((hkept slot (by simp)).ended hv hrun hr)
    · rw [List.perm_iff_count]
      intro w
      simp only [List.flatMap_append, List.flatMap_cons, Slot.clients, hv, List.count_append,
        Option.toList_none, Option.toList_some, List.count_nil]
      omega
    · rw [List.map_append]
      refine (hreported.append_right _).trans ?_
      rw [List.perm_iff_count]
      intro w
      simp only [List.flatMap_append, List.flatMap_cons, List.count_append, List.map_cons, List.map_nil]
      omega

end Steps

/-! ### Runs -/

section Runs
variable {R : Respond} {S : Setup} {max : ℕ} {as : List Act} {p : State}

/-- **The pool at any interleaving.** In every reachable state there are at most `max` connections, every
client that came is at one connection, once, and each connection for itself has gone through one session
after another: it was handed out in the states of `Served`, so what holds of one pooled connection holds
of all of them, whatever goes on next to it. `recycle` never panics, and the sessions that have ended are
those of the clients that are no longer at a connection. -/
theorem pool_invariant (h : (system R S max).run as = some p) :
    p.slots.length ≤ max ∧ p.arrived.Perm (p.slots.flatMap Slot.clients ++ p.dropped.flatten) ∧
      (p.reports.map Prod.fst).Perm (p.slots.flatMap Slot.served ++ p.dropped.flatten) ∧
      ∀ slot ∈ p.slots, recycle slot.conn.tag ≠ none ∧
        (slot.client ≠ none ∨ recycle slot.conn.tag = some (.ok ()) →
          Served R S slot.served slot.conn) := by
  have hinv : Inv R S max p := System.invariant (S := system R S max)
    ⟨Nat.zero_le _, by simp [system], by simp [system], by simp [system]⟩
    (fun s a s' hs hstep => hs.step hstep) h
  exact ⟨hinv.room, hinv.once, hinv.reported, fun slot hslot =>
    ⟨(hinv.kept slot hslot).tagged.recycles, (hinv.kept slot hslot).served⟩⟩

/-- The session that ends is a regular one. -/
def RegularStep (R : Respond) (S : Setup) (p : State) : Act → Prop
  | .finish k fuel => ∀ slot v, p.slots[k]? = some slot → slot.client = some v →
    Nonempty (Regular R S fuel slot.conn v)
  | _ => True

/-- What the client of a regular session has on its link: its login and the turns of its conversation. -/
def OwnConversation (R : Respond) (S : Setup) (x : Visit × List Event) : Prop :=
  ∃ fuel s, ∃ H : Regular R S fuel s x.1, x.2 = loginEvents H.login ++ H.turns.flatMap Turn.clientSide

/-- What regular sessions keep. -/
structure Isolated (R : Respond) (S : Setup) (p : State) : Prop where
  sound : ∀ slot ∈ p.slots, Sound slot.conn ∧ Tagged slot.conn.tag
  dropped : p.dropped = []
  own : ∀ x ∈ p.reports, OwnConversation R S x

theorem recycle_of_sound {s : Pooled World} (hs : Sound s) (ht : Tagged s.tag) :
    recycle s.tag = some (.ok ()) := by
  rcases hs with ⟨hphase, -⟩ | ⟨hphase, -⟩
  · rcases ht with ht | ⟨u, ph, ht⟩
    · rw [ht]
      decide
    · simp [ht, DbUserConnLifeCycle.newConnLifeCycle] at hphase
  · simp [recycle, DbUserConnLifeCycle.isNone, hphase]

theorem Isolated.step {p' : State} {a : Act} (hmc : ErrAccepted S.mc) (I : Isolated R S p)
    (hok : RegularStep R S p a) (h : step R S max p a = some p') : Isolated R S p' := by
  have hchange := change_of_step h
  obtain ⟨hsound, hdropped, hown⟩ := I
  cases hchange with
  | @given v k pre post slot hp hk hidle hr =>
    rw [hp] at hsound
    exact ⟨forall_mem_middle hsound (hsound slot (by simp)), hdropped, hown⟩
  | @dropped v k pre post slot e hp hk hidle hr =>
    -- a sound connection passes
    obtain ⟨hs, ht⟩ := hsound slot (by simp [hp])
    rw [recycle_of_sound hs ht] at hr
    cases hr
  | @created v g n hbusy hlt =>
    refine ⟨fun slot hslot => ?_, hdropped, hown⟩
    rcases List.mem_append.mp hslot with hslot | hslot
    · exact hsound slot hslot
    · obtain rfl := List.mem_singleton.mp hslot
      exact ⟨Or.inl ⟨rfl, rfl, ⟨g, rfl⟩, rfl⟩, Or.inl rfl⟩
  | @ended k fuel pre post slot v r s' hp hk hv hrun hr =>
    obtain ⟨H⟩ := hok slot v hk hv
    rw [hp] at hsound
    obtain ⟨hs, ht⟩ := hsound slot (by simp)
    obtain ⟨s1, hrun1, hlink, -, hs1, -⟩ := H.run hmc hs
    obtain ⟨-, rfl⟩ := Prod.mk.inj (hrun1.symm.trans hrun)
    refine ⟨forall_mem_middle hsound ⟨hs1, tagged_connect (s := seat slot.conn v) ht hrun⟩, hdropped,
      fun x hx => ?_⟩
    rcases List.mem_append.mp hx with hx | hx
    · exact hown x hx
    · obtain rfl := List.mem_singleton.mp hx
      exact ⟨fuel, slot.conn, H, hlink⟩

/-- **Isolation.** Let every session that ends in a run be a regular one, whatever connection it was
given and whatever went on at the same time. Then every client has seen its own login and its own
conversation and no packet else, every connection in the pool is what its tag says, and none is ever
dropped. -/
theorem pool_isolates (hmc : ErrAccepted S.mc) (hok : (system R S max).Every (RegularStep R S) as)
    (h : (system R S max).run as = some p) :
    (∀ x ∈ p.reports, OwnConversation R S x) ∧ (∀ slot ∈ p.slots, Truthful slot.conn) ∧
      p.dropped = [] := by
  have hinv : Isolated R S p := System.invariant_of_every (S := system R S max) (I := Isolated R S)
    ⟨by simp [system], rfl, by simp [system]⟩ (fun s a s' hs hstep => hs.step hmc hstep) hok h
  exact ⟨hinv.own, fun slot hslot => (hinv.sound slot hslot).1.truthful, hinv.dropped⟩

end Runs

/-! ### Two clients at once -/

/-- Behind its login the brief client quits. -/
theorem conversation_brief (L : Login patient (setupFor Setup.plain (brief eofCaps))
    (seat (newConn (0, [10]) 0) (brief eofCaps))) :
    Conversation patient (setupFor Setup.plain (brief eofCaps)) 3 L.user L.after.conn.net.received 0
      L.after.conn.net.toCome
      [.quit (0, [0x01]) (0, Forwarders.resetConnection) (1, okVerdict.2)] .quit := by
  have hcome : L.after.conn.net.toCome = [(0, [0x01])] := by
    rw [L.toCome_after]
    rfl
  have hlen : L.after.conn.net.received.length = 2 := by
    rw [L.received_after]
    rfl
  rw [hcome]
  refine .quit (m := (0, [0x01])) (by decide) ?_
  simp [patient, hlen]

theorem regular_brief : Nonempty (Regular patient Setup.plain 3 (newConn (0, [10]) 0) (brief eofCaps)) := by
  have hsome : ((authenticate (net patient) (setupFor Setup.plain (brief eofCaps))).run
      (seat (newConn (0, [10]) 0) (brief eofCaps))).1.toOption.join.isSome = true := by decide +kernel
  rcases hr : (authenticate (net patient) (setupFor Setup.plain (brief eofCaps))).run
    (seat (newConn (0, [10]) 0) (brief eofCaps)) with ⟨e | _ | h, s'⟩
  · simp [hr, Except.toOption] at hsome
  · simp [hr, Except.toOption] at hsome
  · obtain ⟨L, -, -⟩ := authenticate_some_iff.mp hr
    exact ⟨⟨L, _, _, peaceful_brief, conversation_brief L, rfl, by decide, by decide⟩⟩

/-- Two clients come, the first one quits, and a third one takes its connection. -/
def threeVisits : List Act :=
  [.create (brief eofCaps) (0, [10]) 0, .create (brief eofCaps) (0, [10]) 0, .finish 0 3,
    .get (brief eofCaps) 0]

theorem every_threeVisits :
    (system patient Setup.plain 2).Every (RegularStep patient Setup.plain) threeVisits := by
  refine System.every_of_everyFrom ⟨trivial, fun s1 h1 => ⟨trivial, fun s2 h2 => ⟨?_, fun s3 _ =>
    ⟨trivial, fun _ _ => trivial⟩⟩⟩⟩
  obtain rfl := Option.some.inj h1
  obtain rfl := Option.some.inj h2
  rintro slot v hk hv
  obtain rfl := Option.some.inj hk
  obtain rfl := Option.some.inj hv
  exact regular_brief

theorem run_threeVisits : ∃ p, (system patient Setup.plain 2).run threeVisits = some p ∧
    p.slots.map (fun slot => slot.served.length) = [1, 0] := by
  have hsome : ((system patient Setup.plain 2).run threeVisits).map
      (fun p => p.slots.map fun slot => slot.served.length) = some [1, 0] := by decide +kernel
  exact Option.map_eq_some_iff.mp hsome

theorem pool_invariant_three : ∃ p, (system patient Setup.plain 2).run threeVisits = some p ∧
    p.arrived.Perm (p.slots.flatMap Slot.clients ++ p.dropped.flatten) ∧
    ∀ slot ∈ p.slots, slot.client ≠ none → Served patient Setup.plain slot.served slot.conn := by
  obtain ⟨p, hp, -⟩ := run_threeVisits
  obtain ⟨-, honce, -, hslots⟩ := pool_invariant hp
  exact ⟨p, hp, honce, fun slot hslot hbusy => (hslots slot hslot).2 (Or.inl hbusy)⟩

theorem pool_isolates_three : ∃ p, (system patient Setup.plain 2).run threeVisits = some p ∧
    p.slots.map (fun slot => slot.served.length) = [1, 0] ∧
    (∀ x ∈ p.reports, OwnConversation patient Setup.plain x) ∧
    (∀ slot ∈ p.slots, Truthful slot.conn) ∧ p.dropped = [] := by
  obtain ⟨p, hp, hserved⟩ := run_threeVisits
  exact ⟨p, hp, hserved, pool_isolates errAccepted_plain every_threeVisits hp⟩

end Haentgl.Server.Pools
