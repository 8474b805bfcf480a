import Haentgl.Server.Auth

/-! # Sessions on a pooled connection

One connection to the backend serves one client after another. `Served` are the states in which the pool
hands it out: it is new, or a session has ended and `recycle` has let it pass. A session that is blocked
never gives its connection back.

The backend's capabilities are those of the first handshake response it has received. A later session
switches the user only, so the capabilities of its client, by which the forwarders find the end of a
response, are right exactly if they agree with those of that first client (`capabilities_agree_iff`). -/

namespace Haentgl.Server.Pool

open Haentgl.Lib.Parse Haentgl.Lib.Program Haentgl.Protocol.Constants Haentgl.Protocol.Io
open Haentgl.Protocol.Packets Haentgl.Protocol.Basic Haentgl.Server.Links Haentgl.Server.Forwarders
open Haentgl.Server.Proxy Haentgl.Server.Parties Haentgl.Server.Invariants Haentgl.Server.Auth
open Haentgl.Lib.Program.Proc (Keeps Spec Heads)

/-! ### Handing out and giving back -/

/-- A client, and what its session has of its own. -/
structure Visit where
  connId : ℕ
  scramble : Bytes
  toCome : List Message
  clientEnd : Option IoError
  writesLeft : Option ℕ
  deriving DecidableEq, Repr

/-- The setup of a session. -/
def setupFor (S : Setup) (v : Visit) : Setup := { S with connId := v.connId, scramble := v.scramble }

/-- The connection in the hands of a session. -/
def seat (s : Pooled World) (v : Visit) : Pooled World :=
  ⟨s.tag, s.conn.clientSeq, s.conn.backendSeq, v.toCome, v.clientEnd, v.writesLeft, s.conn.net.inbox,
    s.conn.net.phase, s.conn.net.lingering, [], s.conn.net.backendLink⟩

/-- A new connection, with the backend's greeting; its socket takes `lingering` messages after a hang-up. -/
def newConn (g : Message) (lingering : ℕ) : Pooled World :=
  ⟨.default, 0, 0, [], none, none, [g], .handshake, lingering, [], []⟩

/-- A session that has ended: it has returned or panicked. -/
def Ended (r : Except Stop Unit) : Prop :=
  (∀ side, r ≠ .error (.blocked side)) ∧ r ≠ .error .outOfRounds

/-- A session ends and the pool takes the connection back. -/
def GivenBack (R : Respond) (S : Setup) (rounds : ℕ) (s : Pooled World) (v : Visit)
    (s' : Pooled World) : Prop :=
  ∃ r, (connect (net R) (setupFor S v) rounds).run (seat s v) = (r, s') ∧ Ended r ∧
    recycle s'.tag = some (.ok ())

/-- The states in which a connection is handed out, with the clients it has served. -/
inductive Served (R : Respond) (S : Setup) : List Visit → Pooled World → Prop
  | new (g : Message) (lingering : ℕ) : Served R S [] (newConn g lingering)
  | again {vs : List Visit} {s s' : Pooled World} {v : Visit} {rounds : ℕ} (h : Served R S vs s)
    (hv : GivenBack R S rounds s v s') : Served R S (vs ++ [v]) s'

section Runs
variable {R : Respond} {S : Setup} {s s' : Pooled World} {rounds : ℕ} {h : HandshakeResponse}

theorem run_connect_some (ha : (authenticate (net R) S).run s = (.ok (some h), s')) :
    (connect (net R) S rounds).run s = (onConn (onCom (net R) S rounds h)).run s' :=
  Proc.run_bind_ok ha _

theorem run_connect_none (ha : (authenticate (net R) S).run s = (.ok none, s')) :
    (connect (net R) S rounds).run s = (.ok (), s') := Proc.run_bind_ok ha _

theorem run_connect_error {e : Stop} (ha : (authenticate (net R) S).run s = (.error e, s')) :
    (connect (net R) S rounds).run s = (.error e, s') := Proc.run_bind_error ha _

end Runs

/-! ### The first handshake response -/

/-- The capabilities in front of a handshake response. -/
def capsOf (p : Packet) : CapabilityFlags := BitVec.ofNat 32 (leNat (p.take 4))

/-- The two capabilities that decide how a response is read. -/
def Agree (a b : CapabilityFlags) : Prop :=
  a.contains .clientDeprecateEof = b.contains .clientDeprecateEof ∧
    a.contains .clientSessionTrack = b.contains .clientSessionTrack

/-- The capabilities of a connection: the backend takes them from the first message it receives. -/
def negotiated (w : World) : CapabilityFlags := capsOf ((w.received.head?.map Prod.snd).getD [])

/-- What the proxy relies on in the other crate: the two capabilities are read from the first four bytes
of a handshake response and written there. -/
structure CapsKept (mc : MysqlCommon) : Prop where
  deserialize : ∀ p pkt, mc.handshakePacket p = .ok pkt → Agree pkt.capabilities (capsOf p)
  serialize : ∀ n, Agree (capsOf (mc.serializeHandshake n)) n.capabilities

/-- The message `o` that the proxy makes of a client's handshake response. -/
def MadeFrom (S : Setup) (m o : Message) : Prop :=
  ∃ r h p, clientHandshakeResponse S.mc.known m.2 false = .ok (r, h) ∧
    resetHandshakePlugin S.mc m.2 (h.changeTenantIfNeed S.isNotStatic) = .ok p ∧ o = (m.1, p)

/-- The first message to the backend comes from one of these clients. -/
def OpenedBy (S : Setup) (vs : List Visit) (w : World) : Prop :=
  ∃ v ∈ vs, ∃ m o, v.toCome.head? = some m ∧ MadeFrom S m o ∧ w.received.head? = some o

theorem Agree.symm {a b : CapabilityFlags} (h : Agree a b) : Agree b a := ⟨h.1.symm, h.2.symm⟩

theorem Agree.trans {a b d : CapabilityFlags} (h : Agree a b) (h' : Agree b d) : Agree a d :=
  ⟨h.1.trans h'.1, h.2.trans h'.2⟩

theorem MadeFrom.agree {S : Setup} (hmc : CapsKept S.mc) {m o : Message} (h : MadeFrom S m o) :
    Agree (capsOf o.2) (capsOf m.2) := by
  obtain ⟨r, h0, p, _, hp, rfl⟩ := h
  unfold resetHandshakePlugin at hp
  split at hp
  · next pkt hpkt =>
    obtain rfl := Except.ok.inj hp
    exact (hmc.serialize _).trans (hmc.deserialize _ _ hpkt)
  · simp at hp

section Opening
variable {R : Respond} {S : Setup} {vs : List Visit} {s s' : Pooled World} {v : Visit} {w : World}

theorem singleton_append_iff {l : List Message} {o : Message} : [o] <+: l ↔ l.head? = some o := by
  rcases l with _ | ⟨a, l⟩
  · simp
  · simp [List.cons_prefix_cons, eq_comm]

theorem OpenedBy.mono {ws : List Visit} (h : OpenedBy S vs w) (hsub : ∀ v ∈ vs, v ∈ ws) :
    OpenedBy S ws w := by
  obtain ⟨v0, hv0, hrest⟩ := h
  exact ⟨v0, hsub v0 hv0, hrest⟩

/-- Once the backend has received a message its first message stays. -/
theorem keepsWorld_openedBy (R : Respond) (S : Setup) (vs : List Visit) :
    KeepsWorld R (OpenedBy S vs) where
  hear _ _ _ _ h := h
  take w m _ _ := by
    rintro ⟨v, hv, m0, o, hm0, hmade, ho⟩
    exact ⟨v, hv, m0, o, hm0, hmade, by rwa [World.received_take]⟩
  deliver _ _ h := h
  receive w m _ := by
    rintro ⟨v, hv, m0, o, hm0, hmade, ho⟩
    refine ⟨v, hv, m0, o, hm0, hmade, ?_⟩
    rw [World.received_receive, List.head?_append, ho]
    rfl

/-- The greeting of a client does not reach the backend. -/
theorem keeps_initialHandshake {J : World → Prop}
    (hhear : ∀ w m ms, w.toCome = m :: ms → J w → J (w.hear m)) (hdeliver : ∀ w m, J w → J (w.deliver m)) :
    Keeps (fun c : Conn World => J c.net) (initialHandshake (net R) S) := by
  have hnext : Keeps (fun c : Conn World => J c.net) (onNet ((net R).next .client)) :=
    fun c hc => keeps_readClient hhear c.net hc
  have hend : ∀ p, Keeps (fun c : Conn World => J c.net) (endPacket (net R) .client p) := by
    intro p c hc
    rw [run_endPacket]
    exact keeps_sendClient (R := R) hdeliver _ p _ hc
  refine .bind (hend _) fun _ => .bind (fun _ hc => hc) fun _ => .bind hnext fun o => ?_
  split
  · exact .bind (closed_unwrapResult (Keeps.closed _) _) fun _ => .pure _
  · exact .bind (hend _) fun _ => .stop _

/-- On a connection that has received nothing the first message is the client's handshake response. -/
theorem spec_replyHandshakeResponse (seq : UInt8) (h : HandshakeResponse) (pkt : Packet) :
    let J := fun c : Conn World => c.net.received = [] ∨
      ∃ p, resetHandshakePlugin S.mc pkt h = .ok p ∧ c.net.received.head? = some (seq, p)
    Spec (fun c => c.net.received = []) (replyHandshakeResponse (net R) S seq pkt h) (fun _ => J)
      (fun _ => J) := by
  intro J
  refine .bind (spec_readBackend (P := fun w => w.received = []) (Q := fun _ w => w.received = [])
    (E := fun _ w => w.received = [] ∨ ∃ p, resetHandshakePlugin S.mc pkt h = .ok p ∧
      w.received.head? = some (seq, p)) (fun w m _ hw => by rwa [World.received_take])
      fun w _ _ hw => Or.inl hw) fun g => ?_
  split
  · next p hp =>
    refine .bind (spec_writeBackend (P := fun w => w.received = []) seq p
      (Q := fun w => [(seq, p)] <+: w.received) (E := fun _ w => w.received = [] ∨ ∃ p,
        resetHandshakePlugin S.mc pkt h = .ok p ∧ w.received.head? = some (seq, p))
      (fun w _ hw => by rw [World.received_receive, hw]; exact List.prefix_refl _)
      fun w hw => Or.inl hw) fun _ => ?_
    have hkeep := (keepsWorld_received R [(seq, p)]).ops.processAuthSwitchPlugin S seq
    have hJ : ∀ c : Conn World, [(seq, p)] <+: c.net.received → J c := fun c hc =>
      Or.inr ⟨p, hp, singleton_append_iff.mp hc⟩
    exact hkeep.spec.mono (fun _ hc => hc) (fun _ c hc => hJ c hc) fun _ c hc => hJ c hc
  · exact .stop fun c hc => Or.inl hc

/-- What the pool knows of a connection it hands out. -/
def Known (S : Setup) (vs : List Visit) (s : Pooled World) : Prop :=
  (s.conn.net.received = [] ∧ s.tag.connPhase ≠ some .command) ∨ OpenedBy S vs s.conn.net

/-- The first login of a connection leaves the handshake response behind. -/
theorem known_settle {m : Message} {h : HandshakeResponse} {c : Conn World} {t : DbUserConnLifeCycle}
    (ht : t.connPhase ≠ some .command) (hrec : c.net.received = [])
    (hmade : ∀ p, resetHandshakePlugin S.mc m.2 h = .ok p → MadeFrom S m (m.1, p))
    (hm : v.toCome.head? = some m) :
    Known S (vs ++ [v]) (settle t h ((authPath (net R) S t m.1 h m.2).run c)).2 := by
  have hJ := (spec_replyHandshakeResponse (R := R) (S := S) m.1 h m.2).final hrec
  rw [← authPath_handshake (t := t) ht] at hJ
  rcases hJ with hnil | ⟨p, hp, hhead⟩
  · refine Or.inl ⟨by rwa [settle_conn], ?_⟩
    rcases hr : (authPath (net R) S t m.1 h m.2).run c with ⟨e | u, c'⟩
    · cases e <;> simp [settle, DbUserConnLifeCycle.newConnLifeCycle, ht]
    · -- an authentication that goes through has written two messages
      obtain ⟨o, c1, sw, ans, v, -, -, rfl⟩ := run_authPath_ok_iff.mp hr
      rw [hr] at hnil
      simp at hnil
  · exact Or.inr ⟨v, by simp, m, (m.1, p), hm, hmade p hp, by rwa [settle_conn]⟩

theorem known_authenticate (hs : Known S vs s) :
    Known S (vs ++ [v]) ((authenticate (net R) (setupFor S v)).run (seat s v)).2 := by
  rcases hs with ⟨hrec, htag⟩ | hopen
  · have hkeep := keeps_initialHandshake (R := R) (S := setupFor S v) (J := fun w => w.received = [])
      (fun _ _ _ _ h => h) (fun _ _ h => h) ((seat s v).conn.setSeq .client 0) hrec
    rcases hi : (initialHandshake (net R) (setupFor S v)).run ((seat s v).conn.setSeq .client 0) with
      ⟨e | x, c1⟩
    · rw [hi] at hkeep
      rw [run_authenticate_error hi]
      exact Or.inl ⟨hkeep, htag⟩
    · rw [hi] at hkeep
      obtain ⟨m, r, h0, hm, -, hparse, rfl, -⟩ := run_initialHandshake_ok_iff.mp hi
      rw [run_authenticate hi]
      exact known_settle (S := setupFor S v) (c := ⟨0, 0, c1.net⟩) htag hkeep
        (fun p hp => ⟨r, h0, p, hparse, hp, rfl⟩) hm
  · refine Or.inr (((keepsWorld_openedBy R S (vs ++ [v])).ops.authenticate (setupFor S v)) (seat s v) ?_)
    exact hopen.mono fun v' hv' => List.mem_append_left _ hv'

/-- **Every connection that is handed out** has received nothing, or first of all the handshake response
of one of its clients. -/
theorem Served.known (h : Served R S vs s) : Known S vs s := by
  induction h with
  | new g n => exact Or.inl ⟨rfl, by simp [newConn, DbUserConnLifeCycle.default]⟩
  | @again vs s s' v rounds _ hv ih =>
    obtain ⟨r, hrun, -, -⟩ := hv
    have ha := known_authenticate (R := R) (v := v) ih
    rcases hr : (authenticate (net R) (setupFor S v)).run (seat s v) with ⟨e | o, s1⟩
    · rw [run_connect_error hr] at hrun
      rw [hr] at ha
      obtain ⟨-, rfl⟩ := Prod.mk.inj hrun
      exact ha
    · rw [hr] at ha
      rcases o with _ | h
      · rw [run_connect_none hr] at hrun
        obtain ⟨-, rfl⟩ := Prod.mk.inj hrun
        exact ha
      · rw [run_connect_some hr] at hrun
        have hopen : OpenedBy S (vs ++ [v]) s1.conn.net := by
          rcases ha with ⟨-, htag⟩ | hopen
          · obtain ⟨L, rfl, rfl⟩ := authenticate_some_iff.mp hr
            exact absurd rfl htag
          · exact hopen
        have hkeep := keeps_onConn ((keepsWorld_openedBy R S (vs ++ [v])).ops.onCom (setupFor S v) rounds h)
          s1 hopen
        rw [hrun] at hkeep
        exact Or.inr hkeep

/-- **Capabilities across sessions.** Whenever the command loop runs for a client, on a connection that
has served any clients before, the flags by which the forwarders find the end of a response agree with
those of the connection, if and only if they agree with the handshake response `m` of the one client of
the connection whose response the backend has received first. -/
theorem capabilities_agree_iff (hmc : CapsKept S.mc) (hs : Served R S vs s) {h : HandshakeResponse}
    (hlogin : (authenticate (net R) (setupFor S v)).run (seat s v) = (.ok (some h), s')) :
    ∃ v0 ∈ vs ++ [v], ∃ m o, v0.toCome.head? = some m ∧ MadeFrom S m o ∧
      ∀ rounds c', Heads (comRound (net R) (setupFor S v) rounds h) ((), s'.conn.setSeq .backend 0)
          ((), c') →
        c'.net.received.head? = some o ∧
          (Agree h.clientFlag (negotiated c'.net) ↔ Agree h.clientFlag (capsOf m.2)) := by
  have hopen : OpenedBy S (vs ++ [v]) s'.conn.net := by
    have hknown := known_authenticate (R := R) (v := v) hs.known
    rw [hlogin] at hknown
    rcases hknown with ⟨-, htag⟩ | hopen
    · obtain ⟨L, rfl, rfl⟩ := authenticate_some_iff.mp hlogin
      exact absurd rfl htag
    · exact hopen
  obtain ⟨v0, hv0, m, o, hm, hmade, ho⟩ := hopen
  refine ⟨v0, hv0, m, o, hm, hmade, fun rounds c' hh => ?_⟩
  have hhead : c'.net.received.head? = some o := by
    rw [← singleton_append_iff]
    refine hh.invariant (I := fun _ c => [o] <+: c.net.received) (fun _ c _ c1 hc hr => ?_)
      (singleton_append_iff.mpr ho)
    have hkeep := (keepsWorld_received R [o]).ops.comRound (setupFor S v) rounds h () c hc
    rwa [hr] at hkeep
  have hagree : Agree (negotiated c'.net) (capsOf m.2) := by
    rw [negotiated, hhead]
    exact hmade.agree hmc
  exact ⟨hhead, fun ha => ha.trans hagree, fun ha => ha.trans hagree.symm⟩

end Opening

/-! ### Two clients -/

theorem agree_refl (a : CapabilityFlags) : Agree a a := ⟨rfl, rfl⟩

theorem capsKept_plain : CapsKept MysqlCommon.plain where
  deserialize p pkt hp := by
    obtain rfl := Except.ok.inj hp
    exact agree_refl _
  serialize n := by
    have hcaps : capsOf (MysqlCommon.plain.serializeHandshake n) = n.capabilities := by
      have htake : (MysqlCommon.plain.serializeHandshake n).take 4 = leBytes 4 n.capabilities.toNat := by
        simp only [MysqlCommon.plain, List.append_assoc]
        exact List.take_left' (length_leBytes _ _)
      rw [capsOf, htake, leNat_leBytes n.capabilities.isLt]
      simp
    rw [hcaps]
    exact agree_refl _

/-- A client with these capabilities that answers the switch request and quits. -/
def brief (caps : CapabilityFlags) : Visit :=
  ⟨1, List.replicate 20 33, [(1, hello caps), (3, [7]), (0, [0x01])], none, none⟩

/-- A backend that asks every client for a switch, accepts it, and resets the connection. -/
def patient : Respond := fun ms =>
  match ms.length % 3 with
  | 1 => ⟨[(if ms.length = 1 then 2 else 1, [0xfe])], false⟩
  | 2 => ⟨[(if ms.length = 2 then 4 else 3, okVerdict.2)], false⟩
  | _ => ⟨[(1, okVerdict.2)], false⟩

/-- The capabilities of the first client. -/
def eofCaps : CapabilityFlags := helloCaps ||| .clientDeprecateEof

/-- The connection after a first client. -/
def afterOne : Pooled World :=
  ((connect (net patient) (setupFor Setup.plain (brief eofCaps)) 3).run
    (seat (newConn (0, [10]) 0) (brief eofCaps))).2

theorem served_afterOne : Served patient Setup.plain ([] ++ [brief eofCaps]) afterOne := by
  have hback : GivenBack patient Setup.plain 3 (newConn (0, [10]) 0) (brief eofCaps) afterOne := by
    refine ⟨.ok (), Prod.ext ?_ rfl, ⟨by simp, by simp⟩, ?_⟩
    · decide +kernel
    · decide +kernel
  exact .again (.new (0, [10]) 0) hback

theorem login_afterOne (caps : CapabilityFlags)
    (hflag : ((authenticate (net patient) (setupFor Setup.plain (brief caps))).run
      (seat afterOne (brief caps))).1.toOption.join.map (·.clientFlag) = some caps) :
    ∃ h s', (authenticate (net patient) (setupFor Setup.plain (brief caps))).run
      (seat afterOne (brief caps)) = (.ok (some h), s') ∧ h.clientFlag = caps := by
  rcases hr : (authenticate (net patient) (setupFor Setup.plain (brief caps))).run
    (seat afterOne (brief caps)) with ⟨e | _ | h, s'⟩
  · simp [hr, Except.toOption] at hflag
  · simp [hr, Except.toOption] at hflag
  · exact ⟨h, s', rfl, by simpa [hr, Except.toOption] using hflag⟩

/-- A second client with the capabilities of the first. -/
theorem capabilities_agree_same :
    ∃ h s', (authenticate (net patient) (setupFor Setup.plain (brief eofCaps))).run
      (seat afterOne (brief eofCaps)) = (.ok (some h), s') ∧ Agree h.clientFlag (negotiated s'.conn.net) := by
  obtain ⟨h, s', hr, hflag⟩ := login_afterOne eofCaps (by decide +kernel)
  obtain ⟨v0, hv0, m, o, hm, -, hall⟩ := capabilities_agree_iff capsKept_plain served_afterOne hr
  refine ⟨h, s', hr, ((hall 3 _ .refl).2.mpr ?_)⟩
  have hv : v0 = brief eofCaps := by simpa using hv0
  obtain rfl : (1, hello eofCaps) = m := by simpa [hv, brief] using hm
  rw [hflag]
  exact ⟨by decide +kernel, by decide +kernel⟩

/-- A second client without `CLIENT_DEPRECATE_EOF`, on a connection that was opened with it. -/
theorem capabilities_disagree : CapsKept MysqlCommon.plain ∧
    Served patient Setup.plain [brief eofCaps] afterOne ∧
    ∃ h s', (authenticate (net patient) (setupFor Setup.plain (brief helloCaps))).run
        (seat afterOne (brief helloCaps)) = (.ok (some h), s') ∧
      h.clientFlag.contains .clientDeprecateEof = false ∧
      (negotiated s'.conn.net).contains .clientDeprecateEof = true := by
  refine ⟨capsKept_plain, served_afterOne, ?_⟩
  obtain ⟨h, s', hr, hflag⟩ := login_afterOne helloCaps (by decide +kernel)
  refine ⟨h, s', hr, by rw [hflag]; decide, ?_⟩
  have hneg : (negotiated ((authenticate (net patient) (setupFor Setup.plain (brief helloCaps))).run
      (seat afterOne (brief helloCaps))).2.conn.net).contains .clientDeprecateEof = true := by decide +kernel
  rwa [hr] at hneg

end Haentgl.Server.Pool
