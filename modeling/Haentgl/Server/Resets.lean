import Haentgl.Server.Commands
import Haentgl.Server.Pool

/-! # What one client leaves to the next

A backend keeps a state for its connection: the user, the database, temporary tables, statements, locks.
The pool gives the connection to one client after another, so that state must not come along. What resets
it is the `COM_CHANGE_USER` that opens every session but the first, and the `COM_RESET_CONNECTION` that
the proxy sends in place of the client's `COM_QUIT`.

The backend's state is any machine here that forgets its past at these messages (`Forgets`). Then nothing
of earlier clients is left in any state that a session is in (`session_forgets`), however the earlier ones
ended, and nothing of a session that ends regularly is left at all (`quit_forgets`). A first login that
panics is the exception: its connection goes back to the pool without a tag. -/

namespace Haentgl.Server.Resets

open Haentgl.Lib.Parse Haentgl.Lib.Program Haentgl.Protocol.Constants Haentgl.Protocol.Io
open Haentgl.Protocol.Packets Haentgl.Protocol.Basic Haentgl.Server.Links Haentgl.Server.Forwarders
open Haentgl.Server.Proxy Haentgl.Server.Parties Haentgl.Server.Invariants Haentgl.Server.Auth
open Haentgl.Server.Commands Haentgl.Server.Pool
open Haentgl.Lib.Program.Proc (Keeps Spec Heads)

/-! ### Machines that forget -/

section Machines
variable {State Input : Type} {exec : State → Input → State} {i : Input}

/-- Behind this input the state does not depend on the state before it. -/
def Forgets (exec : State → Input → State) (i : Input) : Prop := ∀ s s', exec s i = exec s' i

theorem Forgets.foldl_cons (h : Forgets exec i) (l : List Input) (s s' : State) :
    (i :: l).foldl exec s = (i :: l).foldl exec s' := by
  rw [List.foldl_cons, List.foldl_cons, h s s']

theorem Forgets.foldl_append (h : Forgets exec i) (before l : List Input) (s s' : State) :
    (before ++ i :: l).foldl exec s = (i :: l).foldl exec s' := by
  rw [List.foldl_append]
  exact h.foldl_cons l _ _

end Machines

/-! ### The message that opens a session -/

/-- The message that opens the authentication of a client, on a connection with the given tag. -/
def Opener (S : Setup) (t : DbUserConnLifeCycle) (m : Message) (h : HandshakeResponse) (o : Message) :
    Prop :=
  (t.connPhase = some .command → o = (0, changeUserData S h)) ∧
    (t.connPhase ≠ some .command → ∃ p, resetHandshakePlugin S.mc m.2 h = .ok p ∧ o = (m.1, p))

/-- It is made of the client's own handshake response. -/
def Own (S : Setup) (t : DbUserConnLifeCycle) (v : Visit) (o : Message) : Prop :=
  ∃ m r h, v.toCome.head? = some m ∧ clientHandshakeResponse S.mc.known m.2 false = .ok (r, h) ∧
    Opener S t m (h.changeTenantIfNeed S.isNotStatic) o

/-- Behind the messages `l` the backend has received none, or one with the property `P` first. -/
def Begun (l : List Message) (P : Message → Prop) (w : World) : Prop :=
  w.received = l ∨ ∃ o, P o ∧ l ++ [o] <+: w.received

theorem Begun.mono {l : List Message} {P Q : Message → Prop} {w : World} (h : Begun l P w)
    (hPQ : ∀ o, P o → Q o) : Begun l Q w :=
  h.imp id fun ⟨o, ho, hpre⟩ => ⟨o, hPQ o ho, hpre⟩

theorem Begun.exists_append {l : List Message} {P : Message → Prop} {w : World} (h : Begun l P w) :
    ∃ own, w.received = l ++ own ∧ ∀ o, own.head? = some o → P o := by
  rcases h with h | ⟨o, ho, t, ht⟩
  · exact ⟨[], by rw [h, List.append_nil], by simp⟩
  · refine ⟨o :: t, by rw [← ht]; simp, fun o' ho' => ?_⟩
    obtain rfl := Option.some.inj ho'
    exact ho

section Sessions
variable {R : Respond} {S : Setup} {vs : List Visit} {s s' : Pooled World} {v : Visit} {rounds : ℕ}
  {l : List Message} {P : Message → Prop}

theorem spec_begun {α : Type} {p : Proc Stop (Conn World) α} (R : Respond) {o : Message} (ho : P o)
    (hp : ∀ I, KeepsOps (net R) I → Keeps I p) :
    Spec (fun c => l ++ [o] <+: c.net.received) p (fun _ c => Begun l P c.net)
      (fun _ c => Begun l P c.net) :=
  (hp _ (keepsWorld_received R (l ++ [o])).ops).spec.mono (fun _ hc => hc)
    (fun _ _ hc => Or.inr ⟨o, ho, hc⟩) fun _ _ hc => Or.inr ⟨o, ho, hc⟩

theorem spec_changeUser {t : DbUserConnLifeCycle} (ht : t.connPhase = some .command) (m : Message)
    (h : HandshakeResponse) :
    Spec (fun c : Conn World => c.net.received = l ∧ c.backendSeq = 0) (continueAuth (net R) S m.1 h)
      (fun _ c => Begun l (Opener S t m h) c.net) (fun _ c => Begun l (Opener S t m h) c.net) := by
  rintro c ⟨hrec, hseq⟩
  by_cases hph : c.net.Reset
  · rw [run_continueAuth_reset hph]
    exact Or.inl hrec
  · rw [run_continueAuth hph, hseq]
    have ho : Opener S t m h (0, changeUserData S h) := ⟨fun _ => rfl, fun hne => absurd ht hne⟩
    refine spec_begun R ho (fun _ K => K.processAuthSwitchPlugin S m.1) _ ?_
    change l ++ [(0, changeUserData S h)] <+: (c.net.receive R (0, changeUserData S h)).received
    rw [World.received_receive, hrec]

theorem spec_handshake {t : DbUserConnLifeCycle} (ht : t.connPhase ≠ some .command) (m : Message)
    (h : HandshakeResponse) :
    Spec (fun c : Conn World => c.net.received = l) (replyHandshakeResponse (net R) S m.1 m.2 h)
      (fun _ c => Begun l (Opener S t m h) c.net) (fun _ c => Begun l (Opener S t m h) c.net) := by
  refine .bind (spec_readBackend (P := fun w => w.received = l) (Q := fun _ w => w.received = l)
    (E := fun _ w => Begun l (Opener S t m h) w) (fun w g _ hw => by rwa [World.received_take])
    fun w _ _ hw => Or.inl hw) fun g => ?_
  split
  · next p hp =>
    have ho : Opener S t m h (m.1, p) := ⟨fun he => absurd he ht, fun _ => ⟨p, hp, rfl⟩⟩
    refine .bind (spec_writeBackend (P := fun w => w.received = l) m.1 p
      (Q := fun w => l ++ [(m.1, p)] <+: w.received) (E := fun _ w => Begun l (Opener S t m h) w)
      (fun w _ hw => by rw [World.received_receive, hw]) fun w hw => Or.inl hw) fun _ => ?_
    exact spec_begun R ho fun _ K => K.processAuthSwitchPlugin S m.1
  · exact .stop fun c hc => Or.inl hc

theorem begun_authPath (t : DbUserConnLifeCycle) (m : Message) (h : HandshakeResponse) {c : Conn World}
    (hrec : c.net.received = l) (hseq : c.backendSeq = 0) :
    Begun l (Opener S t m h) ((authPath (net R) S t m.1 h m.2).run c).2.net := by
  by_cases ht : t.connPhase = some .command
  · rw [authPath_command ht]
    exact (spec_changeUser (R := R) ht m h).final ⟨hrec, hseq⟩
  · rw [authPath_handshake ht]
    exact (spec_handshake (R := R) ht m h).final hrec

theorem begun_authenticate (hrec : s.conn.net.received = l) :
    Begun l (Own S s.tag v) ((authenticate (net R) (setupFor S v)).run (seat s v)).2.conn.net := by
  have hkeep := keeps_initialHandshake (R := R) (S := setupFor S v) (J := fun w => w.received = l)
    (fun _ _ _ _ h => h) (fun _ _ h => h) ((seat s v).conn.setSeq .client 0) hrec
  rcases hi : (initialHandshake (net R) (setupFor S v)).run ((seat s v).conn.setSeq .client 0) with
    ⟨e | x, c1⟩
  · rw [hi] at hkeep
    rw [run_authenticate_error hi]
    exact Or.inl hkeep
  · rw [hi] at hkeep
    obtain ⟨m, r, h, hm, -, hparse, rfl, -⟩ := run_initialHandshake_ok_iff.mp hi
    rw [run_authenticate hi, settle_conn]
    have hbegun : Begun l (Opener S s.tag m (h.changeTenantIfNeed S.isNotStatic))
        ((authPath (net R) (setupFor S v) s.tag m.1 (h.changeTenantIfNeed S.isNotStatic) m.2).run
          ⟨0, 0, c1.net⟩).2.net := begun_authPath (S := setupFor S v) s.tag m _ hkeep rfl
    exact hbegun.mono fun o ho => ⟨m, r, h, hm, hparse, ho⟩

/-- **What a session sends** behind all that was sent before is empty or begins with the message made of
its own client's handshake response. -/
theorem begun_connect (hrec : s.conn.net.received = l) :
    Begun l (Own S s.tag v) ((connect (net R) (setupFor S v) rounds).run (seat s v)).2.conn.net := by
  have hbegun := begun_authenticate (R := R) (S := S) (v := v) hrec
  rcases ha : (authenticate (net R) (setupFor S v)).run (seat s v) with ⟨e | o, s1⟩
  · rw [ha] at hbegun
    rw [run_connect_error ha]
    exact hbegun
  · rw [ha] at hbegun
    rcases o with _ | h
    · rw [run_connect_none ha]
      exact hbegun
    · rw [run_connect_some ha]
      rcases hbegun with hnil | ⟨o, ho, hpre⟩
      · -- a login that goes through has sent two messages
        obtain ⟨L, rfl, rfl⟩ := authenticate_some_iff.mp ha
        have hlen := congrArg List.length (L.received_after.symm.trans hnil)
        rw [show (seat s v).conn.net.received = l from hrec] at hlen
        simp at hlen
      · refine Or.inr ⟨o, ho, ?_⟩
        exact keeps_onConn ((keepsWorld_received R (l ++ [o])).ops.onCom (setupFor S v) rounds h) s1 hpre

/-! ### Every session of a connection -/

/-- The states in which a connection is handed out if no session panics before its login is through. -/
inductive Calm (R : Respond) (S : Setup) : List Visit → Pooled World → Prop
  | new (g : Message) (lingering : ℕ) : Calm R S [] (newConn g lingering)
  | again {vs : List Visit} {s s' : Pooled World} {v : Visit} {rounds : ℕ} (h : Calm R S vs s)
    (hv : GivenBack R S rounds s v s') (hcalm : s'.tag.connPhase = some .command ∨
      ((connect (net R) (setupFor S v) rounds).run (seat s v)).1 ≠ .error .panic) :
    Calm R S (vs ++ [v]) s'

theorem Calm.served (h : Calm R S vs s) : Served R S vs s := by
  induction h with
  | new g n => exact .new g n
  | again _ hv _ ih => exact .again ih hv

/-- A session that has ended without a panic and without a login has left everything as it was. -/
theorem connect_unopened {r : Except Stop Unit}
    (hr : (connect (net R) (setupFor S v) rounds).run (seat s v) = (r, s')) (hend : Ended r)
    (hpanic : r ≠ .error .panic) (hrecycle : recycle s'.tag = some (.ok ()))
    (htag : s'.tag.connPhase ≠ some .command) :
    s'.tag = s.tag ∧ s'.conn.net.received = s.conn.net.received := by
  rcases hi : (initialHandshake (net R) (setupFor S v)).run ((seat s v).conn.setSeq .client 0) with
    ⟨e | x, c1⟩
  · have hkeep := keeps_initialHandshake (R := R) (S := setupFor S v)
      (J := fun w => w.received = s.conn.net.received) (fun _ _ _ _ h => h) (fun _ _ h => h)
      ((seat s v).conn.setSeq .client 0) rfl
    rw [hi] at hkeep
    rw [run_connect_error (run_authenticate_error hi)] at hr
    obtain ⟨-, rfl⟩ := Prod.mk.inj hr
    exact ⟨rfl, hkeep⟩
  · have ha := run_authenticate hi
    rcases hp : (authPath (net R) (setupFor S v) (seat s v).tag x.1 x.2.1 x.2.2).run ⟨0, 0, c1.net⟩ with
      ⟨e | u, c2⟩
    · rw [hp] at ha
      cases e with
      | io e =>
        -- the tag of a failed login is not let pass
        rw [run_connect_none ha] at hr
        obtain ⟨-, rfl⟩ := Prod.mk.inj hr
        simp [recycle, DbUserConnLifeCycle.newConnLifeCycle, DbUserConnLifeCycle.isNone] at hrecycle
      | panic =>
        rw [run_connect_error ha] at hr
        exact absurd (Prod.mk.inj hr).1.symm hpanic
      | blocked side =>
        rw [run_connect_error ha] at hr
        exact absurd (Prod.mk.inj hr).1.symm (hend.1 side)
      | outOfRounds =>
        rw [run_connect_error ha] at hr
        exact absurd (Prod.mk.inj hr).1.symm hend.2
    · rw [hp] at ha
      rw [run_connect_some ha] at hr
      obtain ⟨-, rfl⟩ := Prod.mk.inj hr
      exact absurd rfl htag

theorem Calm.received_eq_nil (h : Calm R S vs s) (htag : s.tag.connPhase ≠ some .command) :
    s.conn.net.received = [] := by
  induction h with
  | new g => rfl
  | @again vs s s' v rounds _ hv hcalm ih =>
    obtain ⟨r, hrun, hend, hrecycle⟩ := hv
    have hpanic : r ≠ .error .panic := by
      have := hcalm.resolve_left htag
      rwa [hrun] at this
    obtain ⟨heq, hrec⟩ := connect_unopened hrun hend hpanic hrecycle htag
    rw [hrec]
    exact ih (by rwa [← heq])

/-- The state of a backend that has received these messages. -/
def stateAfter {State : Type} (exec : State → Packet → State) (init : State) (l : List Message) : State :=
  (l.map Prod.snd).foldl exec init

/-- **Nothing of earlier clients is left.** A connection is handed out to a client after any number of
sessions, which may have ended in any way, but for a panic in a first login. What is sent for this client
begins with a login made of its own handshake response, and at every moment from then on the backend is in
the state in which it would be if it had never received anything else. -/
theorem session_forgets {State : Type} {exec : State → Packet → State}
    (hreset : ∀ u, Forgets exec (S.mc.serializeChangeUser u)) (h : Calm R S vs s) (v : Visit)
    (rounds : ℕ) :
    ∃ own, ((connect (net R) (setupFor S v) rounds).run (seat s v)).2.conn.net.received =
        s.conn.net.received ++ own ∧ (∀ o, own.head? = some o → Own S s.tag v o) ∧
      ∀ l, l <+: own → l ≠ [] → ∀ init,
        stateAfter exec init (s.conn.net.received ++ l) = stateAfter exec init l := by
  have hbegun : Begun s.conn.net.received (Own S s.tag v)
      ((connect (net R) (setupFor S v) rounds).run (seat s v)).2.conn.net := begun_connect rfl
  obtain ⟨own, hown, hhead⟩ := hbegun.exists_append
  refine ⟨own, hown, hhead, fun l hl hne init => ?_⟩
  by_cases htag : s.tag.connPhase = some .command
  · obtain ⟨o, t, rfl⟩ := List.exists_cons_of_ne_nil hne
    obtain ⟨m, r, h0, -, -, hopen, -⟩ := hhead o (singleton_append_iff.mp
      ((List.prefix_append [o] t).trans hl))
    rw [stateAfter, stateAfter, hopen htag, List.map_append, List.map_cons]
    exact (hreset _).foldl_append _ _ _ _
  · rw [h.received_eq_nil htag, List.nil_append]

/-! ### A session that ends regularly -/

theorem keeps_readBackend {P : World → Prop} (hP : ∀ w x, w.inbox.head? = some x → P w → P (w.take x)) :
    Keeps (fun c : Conn World => P c.net) (asyncPacketRead (net R) .backend) :=
  (spec_readBackend (Q := fun _ => P) (E := fun _ => P) hP fun _ _ _ hw => hw).keeps

theorem received_of_comRound_inr {h : HandshakeResponse} {c c' : Conn World}
    (hr : (comRound (net R) S rounds h ()).run c = (.ok (.inr ()), c')) :
    ∃ q, c'.net.received = c.net.received ++ [(q, resetConnection)] := by
  rcases comRound_cases R S rounds h c with ⟨e, c1, hrun, -⟩ | ⟨m, ms, com, hm, -, hrun⟩
  · rw [hrun] at hr
    cases hr
  rw [hrun] at hr
  by_cases hquit : com = .comQuit
  · subst hquit
    by_cases hph : c.net.Reset
    · obtain ⟨c1, herr, -⟩ := run_serve_comQuit_reset R S rounds h
        (c := { c with net := c.net.hear m }) hph m
      rw [herr] at hr
      cases hr
    · refine ⟨c.backendSeq, ?_⟩
      have hread : Keeps (fun d : Conn World => d.net.received =
          c.net.received ++ [(c.backendSeq, resetConnection)])
          (asyncPacketRead (net R) .backend >>= fun _ => (pure none : Proc Stop _ (Option Packet))) :=
        (keeps_readBackend (P := fun w => w.received =
          c.net.received ++ [(c.backendSeq, resetConnection)]) fun w x _ hw => by
            rwa [World.received_take]).bind fun _ => .pure _
      rw [run_serve_comQuit, run_resetConnForward (c := { c with net := c.net.hear m }) hph] at hr
      have hreceived := hread (wrote { c with net := c.net.hear m } .backend
        (c.backendSeq, resetConnection) ((c.net.hear m).receive R (c.backendSeq, resetConnection)))
        (World.received_receive _ _ _)
      rwa [(Prod.mk.inj hr).2] at hreceived
  · -- the loop goes on after any other command
    rw [serve] at hr
    obtain ⟨_, _, _, hr⟩ := Proc.of_run_bind_ok hr
    obtain ⟨_, _, _, hr⟩ := Proc.of_run_bind_ok hr
    rw [if_neg hquit] at hr
    cases hr

theorem tag_of_authenticate_none (h : (authenticate (net R) S).run s = (.ok none, s')) :
    s'.tag.connPhase = some .connection := by
  rcases hi : (initialHandshake (net R) S).run (s.conn.setSeq .client 0) with ⟨e | x, c1⟩
  · rw [run_authenticate_error hi] at h
    cases h
  · rw [run_authenticate hi] at h
    rcases hp : (authPath (net R) S s.tag x.1 x.2.1 x.2.2).run ⟨0, 0, c1.net⟩ with ⟨e | u, c2⟩
    · rw [hp] at h
      cases e with
      | io e =>
        cases h
        rfl
      | panic => cases h
      | blocked side => cases h
      | outOfRounds => cases h
    · rw [hp] at h
      cases h

theorem received_of_onCom_ok {h : HandshakeResponse} {c c' : Conn World}
    (hr : (onCom (net R) S rounds h).run c = (.ok (), c')) :
    ∃ before q, c'.net.received = before ++ [(q, resetConnection)] := by
  rw [run_onCom] at hr
  obtain ⟨u, d, -, hend⟩ :=
    Proc.exists_head .outOfRounds (comRound (net R) S rounds h) rounds () (c.setSeq .backend 0)
  rw [hr] at hend
  rcases hend with hend | ⟨b, d', hround, hend⟩ | ⟨e, d', -, hend⟩
  · cases (Prod.mk.inj hend).1
  · obtain ⟨-, rfl⟩ := Prod.mk.inj hend
    obtain ⟨q, hq⟩ := received_of_comRound_inr hround
    exact ⟨_, q, hq⟩
  · cases (Prod.mk.inj hend).1

/-- **Nothing of a session is left** if it ends regularly: the last message to the backend is a
`COM_RESET_CONNECTION`, behind which the backend is in the same state whatever went before. -/
theorem quit_forgets {State : Type} {exec : State → Packet → State}
    (hreset : Forgets exec resetConnection) (hrun : (connect (net R) S rounds).run s = (.ok (), s'))
    (htag : s'.tag.connPhase = some .command) :
    ∃ before q, s'.conn.net.received = before ++ [(q, resetConnection)] ∧ ∀ init init',
      stateAfter exec init s'.conn.net.received = stateAfter exec init' [(q, resetConnection)] := by
  have hlast : ∃ before q, s'.conn.net.received = before ++ [(q, resetConnection)] := by
    rcases ha : (authenticate (net R) S).run s with ⟨e | o, s1⟩
    · rw [run_connect_error ha] at hrun
      cases (Prod.mk.inj hrun).1
    rcases o with _ | h
    · rw [run_connect_none ha] at hrun
      obtain ⟨-, rfl⟩ := Prod.mk.inj hrun
      rw [tag_of_authenticate_none ha] at htag
      cases htag
    · rw [run_connect_some ha] at hrun
      obtain ⟨c', hcom, rfl⟩ := run_onConn_ok_iff.mp hrun
      exact received_of_onCom_ok hcom
  obtain ⟨before, q, hlast⟩ := hlast
  refine ⟨before, q, hlast, fun init init' => ?_⟩
  rw [hlast, stateAfter, stateAfter, List.map_append, List.map_cons, List.map_nil]
  exact hreset.foldl_append _ _ _ _

end Sessions

/-! ### Two clients -/

/-- A backend that remembers what it has received since the last message of these two kinds. -/
def memory (l : List Packet) (p : Packet) : List Packet :=
  if p.head? = some 0x11 ∨ p.head? = some 0x1f then [p] else l ++ [p]

theorem memory_changeUser (u : ComChangeUser) :
    Forgets memory (Setup.plain.mc.serializeChangeUser u) := fun _ _ => rfl

theorem memory_reset : Forgets memory resetConnection := fun _ _ => rfl

theorem calm_afterOne : Calm patient Setup.plain ([] ++ [brief eofCaps]) afterOne := by
  have hback : GivenBack patient Setup.plain 3 (newConn (0, [10]) 0) (brief eofCaps) afterOne := by
    refine ⟨.ok (), Prod.ext ?_ rfl, ⟨by simp, by simp⟩, ?_⟩
    · decide +kernel
    · decide +kernel
  exact .again (.new (0, [10]) 0) hback (Or.inl (by decide +kernel))

theorem session_forgets_second : ∃ own,
    ((connect (net patient) (setupFor Setup.plain (brief helloCaps)) 3).run
      (seat afterOne (brief helloCaps))).2.conn.net.received = afterOne.conn.net.received ++ own ∧
    ∀ l, l <+: own → l ≠ [] → ∀ init,
      stateAfter memory init (afterOne.conn.net.received ++ l) = stateAfter memory init l := by
  obtain ⟨own, hown, -, hforgets⟩ := session_forgets memory_changeUser calm_afterOne (brief helloCaps) 3
  exact ⟨own, hown, hforgets⟩

theorem quit_forgets_first : ∃ before, afterOne.conn.net.received = before ++ [(0, resetConnection)] ∧
    ∀ init init', stateAfter memory init afterOne.conn.net.received =
      stateAfter memory init' [(0, resetConnection)] := by
  have hrun : ((connect (net patient) (setupFor Setup.plain (brief eofCaps)) 3).run
      (seat (newConn (0, [10]) 0) (brief eofCaps))).1 = .ok () := by decide +kernel
  obtain ⟨before, q, hlast, hforgets⟩ := quit_forgets memory_reset
    (Prod.ext hrun rfl : _ = (_, afterOne)) (by decide +kernel)
  have hnumber : afterOne.conn.net.received.getLast? = some (0, resetConnection) := by decide +kernel
  rw [hlast, List.getLast?_concat] at hnumber
  rw [Option.some.inj hnumber] at hlast hforgets
  exact ⟨before, hlast, hforgets⟩

end Haentgl.Server.Resets
