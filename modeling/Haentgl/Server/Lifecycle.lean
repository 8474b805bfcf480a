import Haentgl.Server.Commands
import Haentgl.Server.Pool
import Haentgl.Server.Responses

/-! # The tag of a pooled connection

The tag is set once, behind the authentication; whatever happens after that, it says that the backend is
authenticated and idle. This module collects the conditions under which that is so when the connection is
handed out again (`Orderly`) and shows that they suffice (`orderly_truthful`): the authentication takes
the one course the proxy knows, every command is answered as its forwarder expects, and a client that goes
away in the middle of a response misses its last packet at most. -/

namespace Haentgl.Server.Lifecycle

open Haentgl.Lib.Parse Haentgl.Lib.Program Haentgl.Protocol.Constants Haentgl.Protocol.Io
open Haentgl.Protocol.Packets Haentgl.Protocol.Basic Haentgl.Server.Links Haentgl.Server.Forwarders
open Haentgl.Server.Proxy Haentgl.Server.Parties Haentgl.Server.Invariants Haentgl.Server.Responses
open Haentgl.Server.Commands Haentgl.Server.Auth Haentgl.Server.Pool
open Haentgl.Protocol.Writer (seqAfter)
open Haentgl.Lib.Program.Proc (Keeps Spec Heads)

/-! ### A client that goes away -/

/-- The client's socket takes `k` more packets. -/
def limit (k : ℕ) (c : Conn World) : Conn World :=
  { c with net := { c.net with writesLeft := some k } }

/-- How a run on a socket that takes `k` packets ends, where the run on a whole socket relays `j`. -/
structure Cut {α : Type} (p : Proc Stop (Conn World) α) (c : Conn World) (j k : ℕ) : Prop where
  whole : (p.run c).2.net.writesLeft = none
  inbox : (p.run c).2.net.inbox = c.net.inbox.drop j
  phase : (p.run c).2.net.phase = c.net.phase
  same : j ≤ k → p.run (limit k c) = ((p.run c).1, limit (k - j) (p.run c).2)
  broken : k < j → ∃ d, p.run (limit k c) = (.error brokenPipe, d) ∧
    d.net.inbox = c.net.inbox.drop (k + 1) ∧ d.net.phase = c.net.phase

/-- A program that does the same on a broken socket until it breaks. -/
def Cuttable (α : Type) (p : Proc Stop (Conn World) α) : Prop :=
  ∀ c k, c.net.writesLeft = none → ∃ j, Cut p c j k

theorem cuttable_of_still {α : Type} {p : Proc Stop (Conn World) α} {r : Except Stop α}
    (h : ∀ c, p.run c = (r, c)) : Cuttable α p := by
  intro c k hc
  refine ⟨0, by rw [h]; exact hc, by rw [h]; rfl, by rw [h], fun _ => ?_, fun hk => by omega⟩
  rw [h, h]
  rfl

theorem cuttable_bind {α β : Type} {p : Proc Stop (Conn World) α} {f : α → Proc Stop (Conn World) β}
    (hp : Cuttable α p) (hf : ∀ a, Cuttable β (f a)) : Cuttable β (p >>= f) := by
  intro c k hc
  obtain ⟨j, P⟩ := hp c k hc
  rcases hr : p.run c with ⟨e | a, d⟩
  · -- the first part stops
    have hrun : (p >>= f).run c = (.error e, d) := Proc.run_bind_error hr f
    have hd : d = (p.run c).2 := by rw [hr]
    refine ⟨j, by rw [hrun, hd]; exact P.whole, by rw [hrun, hd]; exact P.inbox,
      by rw [hrun, hd]; exact P.phase, fun hk => ?_, fun hk => ?_⟩
    · have hsame := P.same hk
      rw [hr] at hsame
      rw [Proc.run_bind_error hsame, hrun]
    · obtain ⟨d', hbroken, hin⟩ := P.broken hk
      exact ⟨d', Proc.run_bind_error hbroken f, hin⟩
  · have hwhole : d.net.writesLeft = none := by simpa [hr] using P.whole
    obtain ⟨i, F⟩ := hf a d (k - j) hwhole
    have hrun : (p >>= f).run c = (f a).run d := Proc.run_bind_ok hr f
    have hin : d.net.inbox = c.net.inbox.drop j := by simpa [hr] using P.inbox
    have hph : d.net.phase = c.net.phase := by simpa [hr] using P.phase
    refine ⟨j + i, by rw [hrun]; exact F.whole, by rw [hrun, F.inbox, hin, List.drop_drop],
      by rw [hrun, F.phase, hph], fun hk => ?_, fun hk => ?_⟩
    · have hsame := P.same (by omega)
      rw [hr] at hsame
      rw [Proc.run_bind_ok hsame, hrun, F.same (by omega), Nat.sub_sub]
    · by_cases hj : k < j
      · obtain ⟨d', hbroken, hd'⟩ := P.broken hj
        exact ⟨d', Proc.run_bind_error hbroken f, hd'⟩
      · have hsame := P.same (by omega)
        rw [hr] at hsame
        obtain ⟨d', hbroken, hin', hph'⟩ := F.broken (by omega)
        refine ⟨d', (Proc.run_bind_ok hsame f).trans hbroken, ?_, hph'.trans hph⟩
        rw [hin', hin, List.drop_drop]
        congr 1
        omega

theorem cuttable_relay (R : Respond) (isFlush : Bool) :
    Cuttable Packet (forwardOnePacket (net R) .client .backend isFlush) := by
  intro c k hc
  rcases hin : c.net.inbox with _ | ⟨m, ms⟩
  · have hrun := run_forward_nil R hin isFlush
    have hlimit := run_forward_nil R (c := limit k c) hin isFlush
    refine ⟨0, by rw [hrun]; exact hc, by rw [hrun]; rfl, by rw [hrun], fun _ => ?_, fun hk => by omega⟩
    rw [hlimit, hrun]
    rfl
  · have hrun := run_forward_cons R hin (by simp [hc]) isFlush
    refine ⟨1, ?_, ?_, by rw [hrun]; rfl, fun hk => ?_, fun hk => ?_⟩
    · rw [hrun]
      simp [relayOne, World.take, World.deliver, hc]
    · rw [hrun]
      simp [relayOne, World.take, World.deliver]
    · have hk0 : (limit k c).net.writesLeft ≠ some 0 := by
        simp only [limit, ne_eq, Option.some.injEq]
        omega
      rw [hrun, run_forward_cons R (c := limit k c) hin hk0 isFlush]
      rfl
    · obtain rfl : k = 0 := by omega
      refine ⟨_, run_forward_broken R (c := limit 0 c) hin rfl isFlush, ?_, rfl⟩
      simp [limit, World.take]

theorem cuttable_relays (R : Respond) : Relays (net R) Cuttable where
  pure _ := cuttable_of_still fun _ => rfl
  stop _ := cuttable_of_still fun _ => rfl
  bind := cuttable_bind
  relay := cuttable_relay R
  flush := cuttable_of_still fun _ => rfl

/-- All but the last of `n` packets can be delivered. -/
def Room (n : ℕ) (c : Conn World) : Prop := ∀ k, c.net.writesLeft = some k → n ≤ k + 1

/-- **A response that is relayed as a whole** leaves nothing behind, even if its last packet is not
delivered. -/
theorem settled_of_cuttable {α : Type} {p : Proc Stop (Conn World) α} (hp : Cuttable α p)
    {c : Conn World} (hph : c.net.phase = .command) (hroom : Room c.net.inbox.length c)
    (hall : ∀ d : Conn World, d.net.inbox = c.net.inbox → d.net.writesLeft = none →
      (p.run d).2.net.inbox = []) : Settled (p.run c).2.net := by
  rcases hw : c.net.writesLeft with _ | k
  · obtain ⟨j, P⟩ := hp c 0 hw
    exact ⟨hall c rfl hw, P.phase.trans hph⟩
  · let d : Conn World := { c with net := { c.net with writesLeft := none } }
    have hlimit : limit k d = c := by
      rw [show c = ⟨c.clientSeq, c.backendSeq, c.net⟩ from rfl]
      simp [limit, d, ← hw]
    obtain ⟨j, P⟩ := hp d k rfl
    have hnil : (p.run d).2.net.inbox = [] := hall d rfl rfl
    by_cases hj : j ≤ k
    · have hsame := P.same hj
      rw [hlimit] at hsame
      rw [hsame]
      exact ⟨hnil, P.phase.trans hph⟩
    · obtain ⟨d', hbroken, hin, hph'⟩ := P.broken (by omega)
      rw [hlimit] at hbroken
      rw [hbroken]
      refine ⟨?_, hph'.trans hph⟩
      rw [hin]
      exact List.drop_eq_nil_of_le (hroom k hw)

/-! ### The replies that are read to their end -/

/-- The reply to a command, for a client with the given capabilities, that the forwarder of the command
reads to its end. `COM_QUIT` and `COM_CHANGE_USER` are not sent as they came. -/
def Expected (mc : MysqlCommon) (caps : CapabilityFlags) (com : CommandCode) (ps : List Packet) : Prop :=
  match com with
  | .comQuery | .comStmtExecute | .comProcessInfo => IsResponse caps ps ∨ IsCursor mc caps ps
  | .comFieldList | .comStmtFetch => IsTail caps ps
  | .comStmtPrepare => IsPrepared caps ps
  | .comStmtClose => ps = []
  | _ => ps.length ≤ 1

section Forward
variable {R : Respond} {mc : MysqlCommon} {b : Profile} {rounds : ℕ} {h : HandshakeResponse}
  {com : CommandCode} {c : Conn World} {ms : List Message}

theorem cuttable_forward (hquit : com ≠ .comQuit) (huser : com ≠ .comChangeUser) (request : Packet) :
    Cuttable _ (forward (net R) mc b rounds h com request) := by
  have hq : forwarderOf com ≠ .resetConn := by cases com <;> simp_all [forwarderOf]
  have hu : forwarderOf com ≠ .changeUser := by cases com <;> simp_all [forwarderOf]
  exact (cuttable_relays R).forward b rounds h hq hu request

theorem relay_inbox_nil {ms : List Message} (hin : c.net.inbox = ms) : (relay ms c).net.inbox = [] := by
  rw [relay_inbox, hin, List.drop_length]

/-- At most one packet is read by the generic forwarder, and it waits for it. -/
theorem inbox_genericForward (hlen : ms.length ≤ 1) (hin : c.net.inbox = ms) :
    ((genericForward (net R)).run c).2.net.inbox = [] := by
  rw [genericForward, Proc.run_bind_pure]
  rcases ms with _ | ⟨x, ms⟩
  · rw [run_forward_nil R hin]
    exact hin
  · obtain rfl : ms = [] := by simpa using hlen
    obtain ⟨r, c', hrun, -, hin', -⟩ := run_forward_one (R := R) hin true
    rw [hrun]
    exact hin'

/-- On a whole socket an expected reply of several packets is relayed. -/
theorem run_forward_expected (hmc : ErrAccepted mc)
    (hcom : forwarderOf com = .query ∨ com = .comStmtPrepare)
    (hexp : Expected mc h.clientFlag com (ms.map Prod.snd)) (hr : ms.length ≤ rounds)
    (hin : c.net.inbox = ms) (hw : c.net.writesLeft = none) (request : Packet) :
    (forward (net R) mc b rounds h com request).run c = (.ok none, relay ms c) := by
  have hc : Ready ms c := ⟨⟨[], by rw [List.append_nil, hin]⟩, hw⟩
  have hquery : IsResponse h.clientFlag (ms.map Prod.snd) ∨ IsCursor mc h.clientFlag (ms.map Prod.snd) →
      (forwardQuery (net R) mc rounds h).run c = (.ok (), relay ms c) := fun hp =>
    hp.elim (fun hp => run_forwardQuery hmc hp ms rounds c rfl hc hr hr)
      fun hp => run_forwardQuery_cursor hp hc hr hr
  cases com with
  | comQuery | comStmtExecute | comProcessInfo => exact Proc.run_bind_ok (hquery hexp) _
  | comFieldList | comStmtFetch =>
    obtain ⟨st, hrun⟩ := run_forwardUntilResultEnd_tail (R := R) hmc hexp hc hr
    exact Proc.run_bind_ok hrun _
  | comStmtPrepare => exact run_forwardPrepareStmt hmc hexp hc
  | _ => simp [forwarderOf] at hcom

/-- On a whole socket an expected reply is read to its end. -/
theorem inbox_forward (hmc : ErrAccepted mc) (hquit : com ≠ .comQuit) (huser : com ≠ .comChangeUser)
    (hexp : Expected mc h.clientFlag com (ms.map Prod.snd)) (hr : ms.length ≤ rounds)
    (hin : c.net.inbox = ms) (hw : c.net.writesLeft = none) (request : Packet) :
    ((forward (net R) mc b rounds h com request).run c).2.net.inbox = [] := by
  by_cases hcom : forwarderOf com = .query ∨ com = .comStmtPrepare
  · rw [run_forward_expected hmc hcom hexp hr hin hw request]
    exact relay_inbox_nil hin
  cases com with
  | comStmtClose =>
    obtain rfl : ms = [] := List.map_eq_nil_iff.mp hexp
    have hstill : ((forwardCloseStmt request).run c).2 = c := by
      unfold forwardCloseStmt
      split_ifs <;> rfl
    exact (congrArg (fun d : Conn World => d.net.inbox) hstill).trans hin
  | comQuery | comStmtExecute | comProcessInfo | comFieldList | comStmtFetch | comStmtPrepare =>
    simp [forwarderOf] at hcom
  | comQuit => contradiction
  | comChangeUser => contradiction
  | _ => exact inbox_genericForward (by simpa [Expected] using hexp) hin

end Forward

/-! ### A change of the user -/

/-- An exchange behind a `COM_CHANGE_USER` that leads to an OK packet. The backend has received `l`, the
client is to send `cs`, and its socket takes `w` more packets: every packet but the OK packet must reach
the client and be answered. A backend that stays silent keeps the proxy waiting for ever. -/
inductive Switches (R : Respond) : List Message → List Message → Option ℕ → Prop
  | silent {l cs w} : R l = ⟨[], false⟩ → Switches R l cs w
  | done {l cs w x} : R l = ⟨[x], false⟩ → isOkPacket x.2 = true → Switches R l cs w
  | again {l cs w x a} : R l = ⟨[x], false⟩ → isOkPacket x.2 = false → isErrPacket x.2 = false →
      w ≠ some 0 → isErrPacket a.2 = false → Switches R (l ++ [a]) cs (w.map (· - 1)) →
      Switches R l (a :: cs) w

/-- The backend is idle, or the proxy does not get on. -/
def Rests {α : Type} (x : Except Stop α × Conn World) : Prop :=
  x.1 = .error (.blocked .backend) ∨ x.1 = .error .outOfRounds ∨ Settled x.2.net

section ChangeUser
variable {R : Respond} {mc : MysqlCommon} {rounds : ℕ} {h : HandshakeResponse} {c : Conn World}

theorem Switches.hangUp {l cs : List Message} {w : Option ℕ} (H : Switches R l cs w) :
    (R l).hangUp = false := by
  cases H with
  | silent hR => rw [hR]
  | done hR => rw [hR]
  | again hR => rw [hR]

theorem isErrPacket_of_isOkPacket {p : Packet} (hp : isOkPacket p = true) : isErrPacket p = false := by
  have hhead : p.head? = some 0 := by simpa [isOkPacket, hasHeader, HeaderInfo.toU8] using hp
  simp [isErrPacket, hasHeader, hhead, HeaderInfo.toU8]

theorem verdict_ok {x : Message} (hx : isOkPacket x.2 = true) : verdict [x] = .command := by
  simp [verdict, hx]

theorem verdict_other {x : Message} (h1 : isOkPacket x.2 = false) (h2 : isErrPacket x.2 = false) :
    verdict [x] = .auth := by
  simp [verdict, h1, h2]

/-- A backend that stays connected is in the command phase or decides by its last packet. -/
theorem after_cases {ph : Phase} (hph : ph ≠ .closed) {r : Reply} (hr : r.hangUp = false) (m : Packet) :
    ph.after m r = verdict r.packets ∨ ph.after m r = .command := by
  unfold Phase.after
  rw [hr]
  cases ph with
  | handshake | auth => exact Or.inl rfl
  | command =>
    simp only [Bool.false_eq_true, if_false]
    split_ifs
    · exact Or.inl rfl
    · exact Or.inr rfl
  | closed => contradiction

theorem run_answer {a : Message} {as : List Message} (htc : c.net.toCome = a :: as)
    (hph : ¬ c.net.Reset) : (forwardOnePacket (net R) .backend .client true).run c =
      (.ok a.2, wrote { c with net := c.net.hear a } .backend a ((c.net.hear a).receive R a)) := by
  have hread : (asyncPacketRead (net R) .client).run c = (.ok a, { c with net := c.net.hear a }) :=
    run_asyncPacketRead_some (run_readClient_cons htc)
  have hsend : ((net R).send .backend a.1 a.2).run (c.net.hear a) =
      (.ok (), (c.net.hear a).receive R a) :=
    run_writeBackend (w := c.net.hear a) hph a
  exact run_forwardOnePacket hread hsend rfl true

/-- The state after a packet of the backend and the client's answer to it. -/
def exchangedOne (R : Respond) (c : Conn World) (x a : Message) : Conn World :=
  wrote { relayOne c x with net := (relayOne c x).net.hear a } .backend a
    (((relayOne c x).net.hear a).receive R a)

section Fields
variable (R : Respond) (c : Conn World) (x a : Message)

theorem received_relayOne_hear : ((relayOne c x).net.hear a).received = c.net.received := by
  simp [relayOne]

theorem exchangedOne_received : (exchangedOne R c x a).net.received = c.net.received ++ [a] := by
  simp [exchangedOne, wrote, relayOne]

theorem exchangedOne_inbox : (exchangedOne R c x a).net.inbox =
    c.net.inbox.tail ++ c.net.answer R a := by
  have hsame : ((relayOne c x).net.hear a).answer R a = c.net.answer R a :=
    World.answer_congr rfl (received_relayOne_hear c x a)
  rw [← hsame]
  rfl

theorem exchangedOne_phase : (exchangedOne R c x a).net.phase =
    c.net.phase.after a.2 (R (c.net.received ++ [a])) := by
  rw [← received_relayOne_hear c x a]
  rfl

end Fields

variable (R mc h) in
/-- The backend's packet is read and goes to the client. -/
theorem changeUserRound_read {x : Message} {xs : List Message} (hin : c.net.inbox = x :: xs)
    (hw : c.net.writesLeft ≠ some 0) :
    (changeUserRound (net R) mc h ()).run c =
      (if isErrPacket x.2 then parseErrPacket mc h.clientFlag x.2 >>= fun _ =>
        Proc.stop (.io ⟨.permissionDenied, "Error packet from backend"⟩)
      else if isOkPacket x.2 then pure (.inr (some x.2))
      else forwardOnePacket (net R) .backend .client true >>= fun pkt =>
        if isErrPacket pkt then parseErrPacket mc h.clientFlag pkt >>= fun _ =>
          Proc.stop (.io ⟨.permissionDenied, "Error packet from client"⟩)
        else pure (.inl ())).run (relayOne c x) := by
  rw [changeUserRound, Proc.run_bind_ok (run_forward_cons R hin hw true)]

variable (R mc h) in
theorem changeUserRound_answer {x a : Message} {xs as : List Message} (hin : c.net.inbox = x :: xs)
    (hw : c.net.writesLeft ≠ some 0) (hok : isOkPacket x.2 = false) (herr : isErrPacket x.2 = false)
    (htc : c.net.toCome = a :: as) (hph : ¬ c.net.Reset) :
    (changeUserRound (net R) mc h ()).run c =
      (if isErrPacket a.2 then parseErrPacket mc h.clientFlag a.2 >>= fun _ =>
        Proc.stop (.io ⟨.permissionDenied, "Error packet from client"⟩)
      else pure (.inl ())).run (exchangedOne R c x a) := by
  rw [changeUserRound_read R mc h hin hw, hok, herr]
  simp only [Bool.false_eq_true, if_false]
  exact Proc.run_bind_ok (run_answer (c := relayOne c x) htc hph) _

theorem changeUserRound_again {x a : Message} {xs as : List Message} (hin : c.net.inbox = x :: xs)
    (hw : c.net.writesLeft ≠ some 0) (hok : isOkPacket x.2 = false) (herr : isErrPacket x.2 = false)
    (htc : c.net.toCome = a :: as) (ha : isErrPacket a.2 = false) (hph : ¬ c.net.Reset) :
    (changeUserRound (net R) mc h ()).run c = (.ok (.inl ()), exchangedOne R c x a) := by
  rw [changeUserRound_answer R mc h hin hw hok herr htc hph, ha]
  rfl

theorem changeUserRound_done {x : Message} (hin : c.net.inbox = [x]) (hok : isOkPacket x.2 = true)
    (hph : c.net.phase = .command) :
    ∃ r c', (changeUserRound (net R) mc h ()).run c = (r, c') ∧ r ≠ .ok (.inl ()) ∧ Settled c'.net := by
  obtain ⟨r, c', hrun, hr, hin', hph'⟩ := run_forward_one (R := R) hin true
  have hw : Settled c'.net := ⟨hin', hph'.trans hph⟩
  rcases hr with rfl | rfl
  · refine ⟨.ok (.inr (some x.2)), c', ?_, by simp, hw⟩
    rw [changeUserRound, Proc.run_bind_ok hrun, isErrPacket_of_isOkPacket hok, hok]
    rfl
  · exact ⟨_, c', Proc.run_bind_error hrun _, by simp, hw⟩

/-- **The exchange** ends with an idle backend. -/
theorem rests_changeUserForward {l cs : List Message} {w : Option ℕ} (H : Switches R l cs w) :
    ∀ (rounds : ℕ) (c : Conn World), c.net.received = l → c.net.toCome = cs → c.net.writesLeft = w →
      c.net.inbox = (R l).packets → (c.net.phase = verdict (R l).packets ∨ c.net.phase = .command) →
      Rests ((changeUserForward (net R) mc rounds h).run c) := by
  induction H with
  | silent hR =>
    rintro (_ | rounds) c - - - hin hph
    · exact Or.inr (Or.inl rfl)
    rw [hR] at hin hph
    have hopen : c.net.phase ≠ .closed := by rcases hph with hph | hph <;> simp [hph, verdict]
    have hrun := run_forward_nil R hin true
    rw [if_neg hopen] at hrun
    have hround : (changeUserRound (net R) mc h ()).run c = (.error (.blocked .backend), c) :=
      Proc.run_bind_error hrun _
    rw [changeUserForward, Proc.loop_stop hround]
    exact Or.inl rfl
  | done hR hok =>
    rintro (_ | rounds) c - - - hin hph
    · exact Or.inr (Or.inl rfl)
    rw [hR] at hin hph
    rw [verdict_ok hok, or_self] at hph
    obtain ⟨r, c', hround, hr, hw⟩ : ∃ r c', (changeUserRound (net R) mc h ()).run c = (r, c') ∧ _ :=
      changeUserRound_done hin hok hph
    rcases r with e | ⟨⟩ | o
    · rw [changeUserForward, Proc.loop_stop hround]
      exact Or.inr (Or.inr hw)
    · contradiction
    · rw [changeUserForward, Proc.loop_break hround]
      exact Or.inr (Or.inr hw)
  | @again l cs w x a hR hok herr hw0 ha H ih =>
    rintro (_ | rounds) c rfl hcs rfl hin hph
    · exact Or.inr (Or.inl rfl)
    rw [hR] at hin hph
    have hopen : c.net.phase ≠ .closed := by
      rw [verdict_other hok herr] at hph
      rcases hph with hph | hph <;> simp [hph]
    rw [changeUserForward, Proc.loop_again (changeUserRound_again hin hw0 hok herr hcs ha
      (World.not_reset_of_open hopen))]
    refine ih rounds (exchangedOne R c x a) ?_ ?_ rfl ?_ ?_
    · exact exchangedOne_received R c x a
    · exact congrArg List.tail hcs
    · rw [exchangedOne_inbox, hin, World.answer_open hopen]
      rfl
    · rw [exchangedOne_phase]
      exact after_cases hopen H.hangUp a.2

end ChangeUser

/-! ### One round -/

/-- The backend's reply to a command, and the client's part in it, leave an idle backend behind. The
client's packet `m` has been read. -/
def Tidy (R : Respond) (S : Setup) (rounds : ℕ) (h : HandshakeResponse) (com : CommandCode) (m : Message)
    (c : Conn World) : Prop :=
  match com with
  | .comQuit =>
    let r := R (c.net.received ++ [(c.backendSeq, resetConnection)])
    r.hangUp = false ∧ r.packets.length ≤ 1
  | .comChangeUser => ∀ u, S.mc.comChangeUser h.clientFlag m.2 = some u →
    Switches R (c.net.received ++ [(m.1, changeUserPacket S.mc h u)]) c.net.toCome c.net.writesLeft
  | com =>
    let r := R (c.net.received ++ [m])
    r.hangUp = false ∧ r.packets.length ≤ rounds ∧ Room r.packets.length c ∧
      Expected S.mc h.clientFlag com (r.packets.map Prod.snd)

section Serve
variable {R : Respond} {S : Setup} {rounds : ℕ} {h : HandshakeResponse} {com : CommandCode}
  {m : Message} {c : Conn World}

theorem tidy_command (hquit : com ≠ .comQuit) (huser : com ≠ .comChangeUser)
    (H : Tidy R S rounds h com m c) :
    (R (c.net.received ++ [m])).hangUp = false ∧ (R (c.net.received ++ [m])).packets.length ≤ rounds ∧
      Room (R (c.net.received ++ [m])).packets.length c ∧
      Expected S.mc h.clientFlag com ((R (c.net.received ++ [m])).packets.map Prod.snd) := by
  cases com <;> first | contradiction | exact H

theorem serve_tidy_command (hmc : ErrAccepted S.mc) (hw : Settled c.net)
    (hcom : commandOf m.2 = some com) (hquit : com ≠ .comQuit) (huser : com ≠ .comChangeUser)
    (H : Tidy R S rounds h com m c) : Settled ((serve (net R) S rounds h com m).run c).2.net := by
  obtain ⟨hhang, hlen, hroom, hexp⟩ := tidy_command hquit huser H
  have hhead : m.2.head? ≠ some CommandCode.comChangeUser.toU8 := by
    rw [(head_of_commandOf hcom).1]
    exact fun he => huser (CommandCode.toU8_injective (Option.some.inj he))
  obtain ⟨hsend, hphase, hinbox⟩ := receive_settled hw hhang hhead
  have hwrite : (writeToBackend (net R) S.mc m.1 com h m.2).run c =
      (.ok (), wrote c .backend m (c.net.receive R m)) := run_writeToBackend hquit huser h hsend rfl
  rw [serve, Proc.run_bind_ok hwrite]
  simp only [if_neg hquit]
  rw [Proc.run_bind_pure]
  refine settled_of_cuttable (cuttable_forward hquit huser m.2) hphase ?_ fun d hd hwd => ?_
  · exact hinbox.symm ▸ hroom
  · exact inbox_forward hmc hquit huser hexp hlen (hd.trans hinbox) hwd m.2

theorem serve_tidy_comQuit (hw : Settled c.net) (H : Tidy R S rounds h .comQuit m c) :
    Settled ((serve (net R) S rounds h .comQuit m).run c).2.net := by
  obtain ⟨hhang, hlen⟩ := H
  have hhead : resetConnection.head? ≠ some CommandCode.comChangeUser.toU8 := by decide
  obtain ⟨-, hphase, hinbox⟩ := receive_settled (m := (c.backendSeq, resetConnection)) hw hhang hhead
  rw [run_serve_comQuit, run_resetConnForward (World.not_reset_of_open (by rw [hw.2]; simp)),
    Proc.run_bind_pure]
  set c1 := wrote c .backend (c.backendSeq, resetConnection)
    (c.net.receive R (c.backendSeq, resetConnection)) with hc1
  have hin : c1.net.inbox = (R (c.net.received ++ [(c.backendSeq, resetConnection)])).packets := hinbox
  rcases hr : (R (c.net.received ++ [(c.backendSeq, resetConnection)])).packets with _ | ⟨x, xs⟩
  · rw [run_asyncPacketRead_nil (hin.trans hr)]
    exact ⟨hin.trans hr, hphase⟩
  · obtain rfl : xs = [] := by simpa [hr] using hlen
    have hread : (asyncPacketRead (net R) .backend).run c1 = (.ok x, { c1 with net := c1.net.take x }) :=
      run_asyncPacketRead_some (run_readBackend_cons (hin.trans hr))
    rw [hread]
    refine ⟨?_, hphase⟩
    simp [World.take, hin, hr]

theorem Rests.map {α β : Type} {p : Proc Stop (Conn World) α} (hp : Rests (p.run c)) (f : α → β) :
    Rests ((p >>= fun a => pure (f a)).run c) := by
  rw [Proc.run_bind_pure]
  rcases hp with hp | hp | hp
  · exact Or.inl (by rw [hp]; rfl)
  · exact Or.inr (Or.inl (by rw [hp]; rfl))
  · exact Or.inr (Or.inr hp)

theorem rests_serve_comChangeUser (hw : Settled c.net) (H : Tidy R S rounds h .comChangeUser m c) :
    Rests ((serve (net R) S rounds h .comChangeUser m).run c) := by
  have hrun := run_writeToBackend_comChangeUser (R := R) (S := S) (h := h) (c := c) m
  rcases hu : S.mc.comChangeUser h.clientFlag m.2 with _ | u
  · simp only [hu] at hrun
    rw [serve, Proc.run_bind_error hrun]
    exact Or.inr (Or.inr hw)
  · have hswitch := H u hu
    simp only [hu] at hrun
    generalize changeUserPacket S.mc h u = p at hrun hswitch
    have hopen : c.net.phase ≠ .closed := by rw [hw.2]; simp
    have hsend : ((net R).send .backend m.1 p).run c.net = (.ok (), c.net.receive R (m.1, p)) :=
      run_writeBackend (World.not_reset_of_open hopen) (m.1, p)
    have hwrite := hrun.trans (run_writePacket (m := (m.1, p)) hsend rfl)
    have hrests : Rests ((forward (net R) S.mc S.profile rounds h .comChangeUser m.2).run
        (wrote c .backend (m.1, p) (c.net.receive R (m.1, p)))) := by
      refine rests_changeUserForward hswitch rounds _ ?_ rfl rfl ?_ ?_
      · simp [wrote]
      · simp [wrote, World.receive, hw.1, World.answer_open hopen]
      · exact after_cases hopen hswitch.hangUp p
    rw [serve, Proc.run_bind_ok hwrite]
    simp only [reduceCtorEq, if_false]
    exact hrests.map fun _ => (Sum.inl () : Unit ⊕ Unit)

/-- **One command** leaves an idle backend behind. -/
theorem rests_serve (hmc : ErrAccepted S.mc) (hw : Settled c.net) (hcom : commandOf m.2 = some com)
    (H : Tidy R S rounds h com m c) : Rests ((serve (net R) S rounds h com m).run c) := by
  by_cases hquit : com = .comQuit
  · subst hquit
    exact Or.inr (Or.inr (serve_tidy_comQuit hw H))
  by_cases huser : com = .comChangeUser
  · subst huser
    exact rests_serve_comChangeUser hw H
  exact Or.inr (Or.inr (serve_tidy_command hmc hw hcom hquit huser H))

/-- Every command that the loop serves from `c` on is tidy. -/
def TidyFrom (R : Respond) (S : Setup) (rounds : ℕ) (h : HandshakeResponse) (c : Conn World) : Prop :=
  ∀ c', Heads (comRound (net R) S rounds h) ((), c.setSeq .backend 0) ((), c') →
    ∀ m ms com, c'.net.toCome = m :: ms → commandOf m.2 = some com →
      Tidy R S rounds h com m { c' with net := c'.net.hear m }

theorem rests_comRound (hmc : ErrAccepted S.mc) (hw : Settled c.net)
    (H : ∀ m ms com, c.net.toCome = m :: ms → commandOf m.2 = some com →
      Tidy R S rounds h com m { c with net := c.net.hear m }) :
    Rests ((comRound (net R) S rounds h ()).run c) := by
  rcases comRound_cases R S rounds h c with ⟨e, c', hrun, -, hc'⟩ | ⟨m, ms, com, htc, hcom, hrun⟩
  · rw [hrun]
    rcases hc' with rfl | ⟨m, rfl⟩
    · exact Or.inr (Or.inr hw)
    · exact Or.inr (Or.inr hw)
  · rw [hrun]
    exact rests_serve hmc hw hcom (H m ms com htc hcom)

/-- **The command loop** leaves an idle backend behind, however it ends. -/
theorem rests_onCom (hmc : ErrAccepted S.mc) (hw : Settled c.net) (H : TidyFrom R S rounds h c) :
    Rests ((onCom (net R) S rounds h).run c) := by
  have hhead : ∀ c', Heads (comRound (net R) S rounds h) ((), c.setSeq .backend 0) ((), c') →
      Settled c'.net := by
    -- the condition is about reachable heads only, so these are part of the invariant
    let start := ((), c.setSeq .backend 0)
    intro c' hh
    refine (hh.invariant
      (I := fun u d => Heads (comRound (net R) S rounds h) start (u, d) ∧ Settled d.net)
      (fun _ d _ d' hd hr => ?_) ⟨.refl, hw⟩).2
    have hround := rests_comRound hmc hd.2 (H d hd.1)
    rw [hr] at hround
    exact ⟨.tail hd.1 hr, by simpa [Rests] using hround⟩
  obtain ⟨_, c', hh, hend⟩ :=
    Proc.exists_head .outOfRounds (comRound (net R) S rounds h) rounds () (c.setSeq .backend 0)
  have hround := rests_comRound hmc (hhead c' hh) (H c' hh)
  rw [run_onCom]
  rcases hend with hend | ⟨b, c'', hr, hend⟩ | ⟨e, c'', hr, hend⟩
  · rw [hend]
    exact Or.inr (Or.inl rfl)
  · rw [hend]
    rw [hr] at hround
    rcases hround with hround | hround | hround
    · simp at hround
    · simp at hround
    · exact Or.inr (Or.inr hround)
  · rw [hend]
    rw [hr] at hround
    simpa [Rests] using hround

end Serve

/-! ### The authentication -/

/-- The backend asks for a switch of the plugin, or for nothing. -/
def Asks (r : Reply) : Prop :=
  r.packets = [] ∨ ∃ sw, r.packets = [sw] ∧ sw.2.head? = some authSwitchRequest

/-- An ERR packet that can be turned into an error. -/
def Refusal (mc : MysqlCommon) (p : Packet) : Prop :=
  p.head? = some HeaderInfo.errHeader.toU8 ∧ ∃ msg text, mc.errPacket .default p = some msg ∧
    fromUtf8 msg = some text

/-- The verdict is an OK packet and nothing else, or an ERR packet, or it does not come. -/
def Decides (mc : MysqlCommon) (r : Reply) : Prop :=
  r.packets = [] ∨ (∃ v, r = ⟨[v], false⟩ ∧ isOkPacket v.2 = true) ∨
    ∃ v vs, r.packets = v :: vs ∧ Refusal mc v.2

/-- The authentication takes the one course the proxy knows: behind the message `o` that opens it the
backend asks for a switch, the client answers and the backend decides. -/
def Peaceful (R : Respond) (S : Setup) (s : Pooled World) : Prop :=
  ∀ m r h o c, s.conn.net.toCome.head? = some m →
    clientHandshakeResponse S.mc.known m.2 false = .ok (r, h) →
    Opened R S s.tag m.1 (h.changeTenantIfNeed S.isNotStatic) m.2 (greet S s.conn m) o c →
    Asks (R (s.conn.net.received ++ [o])) ∧ (addU8 S.profile m.1 1).isSome ∧
      ∀ sw ans, (R (s.conn.net.received ++ [o])).packets = [sw] →
        s.conn.net.toCome.tail.head? = some ans → (addU8 S.profile sw.1 1).isSome ∧
          Decides S.mc (R (s.conn.net.received ++ [o] ++ [(sw.1 + 1, ans.2)]))

section Exchange
variable {R : Respond} {S : Setup} {seq : UInt8} {l as : List Message}

/-- The reply to the message that opens the exchange has not been read. -/
def AtSwitch (R : Respond) (l as : List Message) (w : World) : Prop :=
  w.inbox = (R l).packets ∧ w.received = l ∧ w.toCome = as

/-- The switch request `sw` has been read. -/
def SwitchRead (R : Respond) (l as : List Message) (sw : Message) (w : World) : Prop :=
  (R l).packets = [sw] ∧ sw.2.head? = some authSwitchRequest ∧ w.inbox = [] ∧ w.received = l ∧
    w.toCome = as

/-- The switch request has been relayed. -/
def AtAnswer (R : Respond) (l as : List Message) (q : UInt8) (w : World) : Prop :=
  ∃ sw, (R l).packets = [sw] ∧ q = sw.1 ∧ w.inbox = [] ∧ w.received = l ∧ w.toCome = as

/-- The client's answer `ans` has been read. -/
def AnswerRead (R : Respond) (l as : List Message) (q : UInt8) (ans : Message) (w : World) : Prop :=
  as.head? = some ans ∧ ∃ sw, (R l).packets = [sw] ∧ q = sw.1 ∧ w.inbox = [] ∧ w.received = l

/-- The answer has been relayed, maybe to a backend that has hung up. -/
def AtVerdict (R : Respond) (l as : List Message) (w : World) : Prop :=
  ∃ sw ans, (R l).packets = [sw] ∧ as.head? = some ans ∧ (w.inbox = [] ∨
    w.inbox = (R (l ++ [(sw.1 + 1, ans.2)])).packets ∧
    ((R (l ++ [(sw.1 + 1, ans.2)])).hangUp = false →
      w.phase = verdict (R (l ++ [(sw.1 + 1, ans.2)])).packets ∨ w.phase = .command))

/-- The verdict has been relayed. -/
def Decided (mc : MysqlCommon) (p : Packet) (w : World) : Prop :=
  isOkPacket p = true ∧ Settled w ∨ Refusal mc p

theorem spec_relaySwitch (hasks : Asks (R l)) (hseq : (addU8 S.profile seq 1).isSome) :
    Spec (fun c => AtSwitch R l as c.net) (relaySwitch (net R) S seq)
      (fun q c => AtAnswer R l as q c.net) fun e _ => e ≠ .panic := by
  refine .bind (spec_readBackend (Q := SwitchRead R l as) (E := fun e _ => e ≠ .panic)
    (fun w m hm hw => ?_) fun _ _ he _ => he) fun m => ?_
  · obtain ⟨hin, hrec, htc⟩ := hw
    rcases hasks with hnil | ⟨sw, hsw, hhead⟩
    · simp [hin, hnil] at hm
    · obtain rfl : sw = m := by simpa [hin, hsw] using hm
      exact ⟨hsw, hhead, by simp [World.take, hin, hsw], by simpa using hrec, htc⟩
  · obtain ⟨q, p⟩ := m
    refine spec_orPanic_bind _ (fun hnone c hc => ?_) fun b hb => ?_
    · simp [SwitchRead, hnone] at hc
    · by_cases hswitch : authSwitchRequest = b
      · rw [if_pos hswitch]
        obtain ⟨q', hq'⟩ := Option.isSome_iff_exists.mp hseq
        rw [hq', orPanic, pure_bind]
        refine .bind (spec_writeClient (P := SwitchRead R l as (q, p)) (Q := AtAnswer R l as q)
          (E := fun e _ => e ≠ .panic) q' p (fun w hw => ?_) fun _ _ => by simp [brokenPipe])
          fun _ => .pure fun _ hc => hc
        obtain ⟨hsw, -, hrest⟩ := hw
        exact ⟨(q, p), hsw, rfl, hrest⟩
      · rw [if_neg hswitch]
        refine .stop fun c hc => ?_
        have hhead := hb.symm.trans hc.2.1
        exact absurd (Option.some.inj hhead).symm hswitch

theorem spec_relayAnswer (q : UInt8)
    (hseq : ∀ sw ans, (R l).packets = [sw] → as.head? = some ans → (addU8 S.profile sw.1 1).isSome) :
    Spec (fun c => AtAnswer R l as q c.net) (relayAnswer (net R) S q)
      (fun _ c => AtVerdict R l as c.net) fun e _ => e ≠ .panic := by
  refine .bind (spec_readClient (Q := AnswerRead R l as q) (E := fun e _ => e ≠ .panic)
    (fun w m hm hw => ?_) fun _ _ he _ => he) fun m => ?_
  · obtain ⟨sw, hsw, hq, hin, hrec, htc⟩ := hw
    exact ⟨htc ▸ hm, sw, hsw, hq, hin, hrec⟩
  · refine spec_orPanic_bind _ (fun hnone c hc => ?_) fun q' hq' => ?_
    · obtain ⟨hans, sw, hsw, rfl, -⟩ := hc
      simpa [hnone] using hseq sw m hsw hans
    · obtain rfl := addU8_eq_some hq'
      refine spec_writeBackend (P := AnswerRead R l as q m) (Q := AtVerdict R l as)
        (E := fun e _ => e ≠ .panic) (q + 1) m.2 (fun w _ hw => ?_) fun _ _ => by simp [brokenPipe]
      obtain ⟨hans, sw, hsw, rfl, hin, rfl⟩ := hw
      refine ⟨sw, m, hsw, hans, ?_⟩
      by_cases hopen : w.phase = .closed
      · exact Or.inl (by simp [World.receive, hin, World.answer_closed hopen])
      · refine Or.inr ⟨?_, fun hhang => after_cases hopen hhang m.2⟩
        simp [World.receive, hin, World.answer_open hopen]

theorem spec_relayVerdict (hdec : ∀ sw ans, (R l).packets = [sw] → as.head? = some ans →
      Decides S.mc (R (l ++ [(sw.1 + 1, ans.2)]))) :
    Spec (fun c => AtVerdict R l as c.net) (relayVerdict (net R))
      (fun p c => Decided S.mc p c.net) fun e _ => e ≠ .panic := by
  refine .bind (spec_readBackend (Q := fun m => Decided S.mc m.2) (E := fun e _ => e ≠ .panic)
    (fun w m hm hw => ?_) fun _ _ he _ => he) fun m => ?_
  · obtain ⟨sw, ans, hsw, hans, hin | ⟨hin, hph⟩⟩ := hw
    · simp [hin] at hm
    rcases hdec sw ans hsw hans with hnil | ⟨v, hv, hok⟩ | ⟨v, vs, hv, href⟩
    · simp [hin, hnil] at hm
    · rw [hv] at hin hph
      obtain rfl : v = m := by simpa [hin] using hm
      have hcommand : w.phase = .command := by simpa [verdict_ok hok] using hph rfl
      exact Or.inl ⟨hok, by simp [World.take, hin], hcommand⟩
    · obtain rfl : v = m := by simpa [hin, hv] using hm
      exact Or.inr href
  · refine .bind (spec_writeClient m.1 m.2 (Q := Decided S.mc m.2) (E := fun e _ => e ≠ .panic)
      (fun w hw => hw) fun _ _ => by simp [brokenPipe]) fun _ => .pure fun _ hc => hc

theorem spec_checkVerdict (p : Packet) : Spec (fun c : Conn World => Decided S.mc p c.net)
    (checkVerdict S p) (fun _ c => Settled c.net) fun e _ => e ≠ .panic := by
  refine spec_orPanic_bind _ (fun hnone c hc => ?_) fun b hb => ?_
  · rcases hc with ⟨hok, -⟩ | ⟨hhead, -⟩
    · simp [isOkPacket, hasHeader, hnone] at hok
    · simp [hnone] at hhead
  · refine .ite (fun herr => ?_) fun hne => .pure fun c hc => ?_
    · intro c hc
      rcases hc with ⟨hok, -⟩ | ⟨-, msg, text, hmsg, htext⟩
      · have hhead : p.head? = some HeaderInfo.okHeader.toU8 := by simpa [isOkPacket, hasHeader] using hok
        rw [hb, herr] at hhead
        simp [HeaderInfo.toU8] at hhead
      · simp only [hmsg, htext, orPanic, pure_bind]
        simp
    · rcases hc with ⟨-, hw⟩ | ⟨hhead, -⟩
      · exact hw
      · exact absurd (Option.some.inj (hb.symm.trans hhead)) hne

/-- **The exchange** never panics, and leaves an idle backend if it goes through. -/
theorem spec_processAuthSwitchPlugin (hasks : Asks (R l)) (hseq : (addU8 S.profile seq 1).isSome)
    (hdec : ∀ sw ans, (R l).packets = [sw] → as.head? = some ans →
      (addU8 S.profile sw.1 1).isSome ∧ Decides S.mc (R (l ++ [(sw.1 + 1, ans.2)]))) :
    Spec (fun c => AtSwitch R l as c.net) (processAuthSwitchPlugin (net R) S seq)
      (fun _ c => Settled c.net) fun e _ => e ≠ .panic :=
  .bind (spec_relaySwitch hasks hseq) fun q =>
    .bind (spec_relayAnswer q fun sw ans hsw hans => (hdec sw ans hsw hans).1) fun _ =>
      .bind (spec_relayVerdict fun sw ans hsw hans => (hdec sw ans hsw hans).2) fun p =>
        spec_checkVerdict p

end Exchange

/-! ### Sessions -/

/-- **What the tag promises** when a connection is handed out. -/
structure Truthful (s : Pooled World) : Prop where
  fresh : s.tag.connPhase = none ∨ s.tag.connPhase = some .none → s.conn.net.taken = []
  idle : s.tag.connPhase = some .command → Settled s.conn.net
  usable : s.tag.connPhase ≠ some .connection

/-- A connection that is new, or authenticated and idle. -/
def Sound (s : Pooled World) : Prop :=
  (s.tag.connPhase = none ∧ s.conn.net.phase = .handshake ∧ (∃ g, s.conn.net.inbox = [g]) ∧
      s.conn.net.backendLink = []) ∨
    s.tag.connPhase = some .command ∧ Settled s.conn.net

theorem Sound.truthful {s : Pooled World} (hs : Sound s) : Truthful s := by
  rcases hs with ⟨htag, -, -, hlink⟩ | ⟨htag, hw⟩
  · refine ⟨fun _ => ?_, by simp [htag], by simp [htag]⟩
    rw [World.taken, hlink]
    rfl
  · exact ⟨by simp [htag], fun _ => hw, by simp [htag]⟩

/-- A session whose authentication takes its course and whose commands are tidy. -/
structure Orderly (R : Respond) (S : Setup) (rounds : ℕ) (s : Pooled World) : Prop where
  peaceful : Peaceful R S s
  tidy : ∀ L : Login R S s, TidyFrom R S rounds L.user L.after.conn

/-- The states in which a connection is handed out after orderly sessions, with the clients. -/
inductive ServedOrderly (R : Respond) (S : Setup) : List Visit → Pooled World → Prop
  | new (g : Message) (lingering : ℕ) : ServedOrderly R S [] (newConn g lingering)
  | again {vs : List Visit} {s s' : Pooled World} {v : Visit} {rounds : ℕ} (h : ServedOrderly R S vs s)
    (ho : Orderly R (setupFor S v) rounds (seat s v)) (hv : GivenBack R S rounds s v s') :
    ServedOrderly R S (vs ++ [v]) s'

section Session
variable {R : Respond} {S : Setup} {s s' : Pooled World} {rounds : ℕ}

theorem atSwitch_of_opened {t : DbUserConnLifeCycle} {seq : UInt8} {h : HandshakeResponse} {pkt : Packet}
    {c c1 : Conn World} {o : Message} (H : Opened R S t seq h pkt c o c1) (hin : stale ⟨t, c⟩ = [])
    (hopen : c.net.phase ≠ .closed) : AtSwitch R (c.net.received ++ [o]) c.net.toCome c1.net := by
  refine ⟨?_, H.received, H.toCome⟩
  rw [H.inbox, World.answer_open hopen]
  exact congrArg (· ++ _) hin

/-- Nothing is left over from an earlier session, and the backend is there. -/
theorem Sound.fresh (hs : Sound s) : stale s = [] ∧ s.conn.net.phase ≠ .closed := by
  unfold stale
  rcases hs with ⟨htag, hph, ⟨g, hg⟩, -⟩ | ⟨htag, hw⟩
  · rw [if_neg (by simp [htag]), hg, hph]
    simp
  · rw [if_pos htag, hw.2]
    exact ⟨hw.1, by simp⟩

theorem Sound.initialHandshake (hs : Sound s) :
    Sound ⟨s.tag, ((initialHandshake (net R) S).run (s.conn.setSeq .client 0)).2⟩ := by
  have hkeep := keeps_initialHandshake (R := R) (S := S) (J := fun w => w.phase = s.conn.net.phase ∧
    w.inbox = s.conn.net.inbox ∧ w.backendLink = s.conn.net.backendLink) (fun _ _ _ _ h => h)
    (fun _ _ h => h) (s.conn.setSeq .client 0) ⟨rfl, rfl, rfl⟩
  obtain ⟨hph, hin, hlink⟩ := hkeep
  simpa only [Sound, Settled, hph, hin, hlink] using hs

/-- **The path of the authentication** does not panic, and leaves an idle backend if it goes through. -/
theorem authPath_peaceful {m : Message} {r : Bytes} {h : HandshakeResponse} (hs : Sound s)
    (hp : Peaceful R S s) (hm : s.conn.net.toCome.head? = some m)
    (hparse : clientHandshakeResponse S.mc.known m.2 false = .ok (r, h)) :
    Spec (fun c => c = greet S s.conn m)
      (authPath (net R) S s.tag m.1 (h.changeTenantIfNeed S.isNotStatic) m.2) (fun _ c => Settled c.net)
      fun e _ => e ≠ .panic := by
  rintro c rfl
  rcases authPath_cases R S (greet S s.conn m) s.tag m.1 (h.changeTenantIfNeed S.isNotStatic) m.2 with
    ⟨o, c1, H⟩ | ⟨e, c1, hrun, he, -⟩
  · obtain ⟨hasks, hseq, hdec⟩ := hp m r h o c1 hm hparse H
    rw [H.run]
    exact spec_processAuthSwitchPlugin hasks hseq hdec c1 (atSwitch_of_opened H hs.fresh.1 hs.fresh.2)
  · rw [hrun]
    exact he

/-- What an orderly session finds after its authentication. -/
theorem authenticate_peaceful (hs : Sound s) (hp : Peaceful R S s) :
    match (authenticate (net R) S).run s with
    | (.ok (some h), s') => ∃ L : Login R S s, h = L.user ∧ s' = L.after ∧ Settled s'.conn.net
    | (.ok none, s') => s'.tag.connPhase = some .connection
    | (.error e, s') => Sound s' ∨ (∃ side, e = .blocked side) ∨ e = .outOfRounds := by
  rcases hi : (initialHandshake (net R) S).run (s.conn.setSeq .client 0) with ⟨e | x, c1⟩
  · rw [run_authenticate_error hi]
    have hsound := hs.initialHandshake (R := R) (S := S)
    rw [hi] at hsound
    exact Or.inl hsound
  · obtain ⟨m, r, h, hm, -, hparse, rfl, rfl⟩ := run_initialHandshake_ok_iff.mp hi
    have hpath := authPath_peaceful hs hp hm hparse (greet S s.conn m) rfl
    have hauth := run_authenticate hi
    simp only at hauth
    rw [show (⟨0, 0, (greet S s.conn m).net⟩ : Conn World) = greet S s.conn m from rfl] at hauth
    rcases hr : (authPath (net R) S s.tag m.1 (h.changeTenantIfNeed S.isNotStatic) m.2).run
      (greet S s.conn m) with ⟨e | u, c⟩
    · rw [hr] at hpath hauth
      rw [hauth]
      cases e with
      | io i => rfl
      | panic => exact absurd rfl hpath
      | blocked side => exact Or.inr (Or.inl ⟨side, rfl⟩)
      | outOfRounds => exact Or.inr (Or.inr rfl)
    · rw [hr] at hpath hauth
      rw [hauth]
      obtain ⟨L, hL, hafter⟩ := authenticate_some_iff.mp hauth
      exact ⟨L, hL, hafter, hpath⟩

/-- **One session** keeps a connection sound. -/
theorem Sound.givenBack {v : Visit} (hmc : ErrAccepted S.mc) (hs : Sound s)
    (ho : Orderly R (setupFor S v) rounds (seat s v)) (hv : GivenBack R S rounds s v s') : Sound s' := by
  obtain ⟨r, hrun, ⟨hblocked, hrounds⟩, hrecycle⟩ := hv
  have hauth := authenticate_peaceful (s := seat s v) hs ho.peaceful
  rcases hr : (authenticate (net R) (setupFor S v)).run (seat s v) with ⟨e | o, s1⟩
  · rw [hr] at hauth
    rw [run_connect_error hr] at hrun
    obtain ⟨rfl, rfl⟩ := Prod.mk.inj hrun
    rcases hauth with hsound | ⟨side, rfl⟩ | rfl
    · exact hsound
    · exact absurd rfl (hblocked side)
    · exact absurd rfl hrounds
  · rw [hr] at hauth
    rcases o with _ | h
    · -- the tag of a failed authentication does not pass
      rw [run_connect_none hr] at hrun
      obtain ⟨rfl, rfl⟩ := Prod.mk.inj hrun
      simp [recycle, DbUserConnLifeCycle.isNone, show s1.tag.connPhase = _ from hauth] at hrecycle
    · obtain ⟨L, rfl, rfl, hw⟩ := hauth
      rw [run_connect_some hr] at hrun
      have hrests := rests_onCom (S := setupFor S v) hmc hw (ho.tidy L)
      have hconn : ((onCom (net R) (setupFor S v) rounds L.user).run L.after.conn) = (r, s'.conn) := by
        rw [← (Prod.mk.inj hrun).1, ← (Prod.mk.inj hrun).2]
        rfl
      have htag : s'.tag.connPhase = some .command := by
        rw [← (Prod.mk.inj hrun).2]
        rfl
      rw [hconn] at hrests
      rcases hrests with hr' | hr' | hsettled
      · exact absurd hr' (hblocked _)
      · exact absurd hr' hrounds
      · exact Or.inr ⟨htag, hsettled⟩

/-- **The tag is truthful at every hand-out** of a run of orderly sessions: without a tag nothing of the
backend has been read, with the tag of the command phase the backend is authenticated and idle and none of
its packets is unread, and a connection with the tag of a failed authentication is not handed out. -/
theorem orderly_truthful {vs : List Visit} (hmc : ErrAccepted S.mc) (h : ServedOrderly R S vs s) :
    Truthful s := by
  have hsound : Sound s := by
    induction h with
    | new g => exact Or.inl ⟨rfl, rfl, ⟨g, rfl⟩, rfl⟩
    | again _ ho hv ih => exact ih.givenBack hmc ho hv
  exact hsound.truthful

end Session

/-! ### A client that quits and one that goes away -/

theorem peaceful_brief : Peaceful patient (setupFor Setup.plain (brief eofCaps))
    (seat (newConn (0, [10]) 0) (brief eofCaps)) := by
  intro m r h o c hm _ _
  obtain rfl : (1, hello eofCaps) = m := by simpa [seat, brief] using hm
  refine ⟨Or.inr ⟨(2, [0xfe]), rfl, rfl⟩, by decide, fun sw ans hsw hans => ?_⟩
  obtain rfl : sw = (2, [0xfe]) := by simpa [patient, seat, newConn, World.received, sent] using hsw.symm
  exact ⟨by decide, Or.inr (Or.inl ⟨(4, okVerdict.2), rfl, by decide⟩)⟩

/-- Behind the authentication there is nothing but the end of the session. -/
theorem tidyFrom_brief (L : Login patient (setupFor Setup.plain (brief eofCaps))
    (seat (newConn (0, [10]) 0) (brief eofCaps))) :
    TidyFrom patient (setupFor Setup.plain (brief eofCaps)) 3 L.user L.after.conn := by
  have hfirst : L.after.conn.net.toCome = [(0, [0x01])] ∧ L.after.conn.net.received.length = 2 := by
    rw [L.toCome_after, L.received_after]
    exact ⟨rfl, rfl⟩
  have hcom : commandOf [0x01] = some .comQuit := by decide
  intro c' hh m ms com hm hcom'
  have hhead := hh.invariant (I := fun _ c => c.net.toCome = [(0, [0x01])] ∧ c.net.received.length = 2)
    (fun _ c _ d hc hr => by
      rw [run_comRound hc.1 hcom, run_serve_comQuit] at hr
      have hne := (Prod.mk.inj hr).1
      rcases hres : ((resetConnForward (net patient)).run { c with net := c.net.hear (0, [0x01]) }).1 with
        e | a <;> simp [hres, Except.map] at hne) hfirst
  obtain ⟨rfl, -⟩ : (0, [0x01]) = m ∧ [] = ms := by simpa using hhead.1.symm.trans hm
  obtain rfl : .comQuit = com := Option.some.inj (hcom.symm.trans hcom')
  have hlen : c'.net.received.length = 2 := hhead.2
  simp [Tidy, patient, hlen]

/-- The first client leaves an idle backend behind. -/
theorem orderly_truthful_brief : Truthful afterOne := by
  have hback : GivenBack patient Setup.plain 3 (newConn (0, [10]) 0) (brief eofCaps) afterOne := by
    refine ⟨.ok (), Prod.ext ?_ rfl, ⟨by simp, by simp⟩, ?_⟩
    · decide +kernel
    · decide +kernel
  exact orderly_truthful (S := Setup.plain) errAccepted_plain
    (.again (.new (0, [10]) 0) ⟨peaceful_brief, tidyFrom_brief⟩ hback)

/-- A client that sends a query and whose socket breaks at the first packet of the response. -/
def gone : Visit :=
  ⟨1, List.replicate 20 33, [(1, hello helloCaps), (3, [7]), (0, [0x03, 0x78])], none, some 3⟩

/-- A backend that answers the query with one row. -/
def oneRow : Respond := fun ms =>
  match ms.length with
  | 1 => ⟨[(2, [0xfe])], false⟩
  | 2 => ⟨[(4, okVerdict.2)], false⟩
  | _ => ⟨[(1, [1]), (2, [3, 0x64, 0x65, 0x66, 0]), (3, [0xfe, 0, 0, 2, 0]), (4, [1, 0x31]),
    (5, [0xfe, 0, 0, 2, 0])], false⟩

/-- The connection after it. -/
def afterGone : Pooled World :=
  ((connect (net oneRow) (setupFor Setup.plain gone) 9).run (seat (newConn (0, [10]) 0) gone)).2

/-- The rest of the response waits for the next client, on a connection that is said to be idle. -/
theorem served_not_truthful : ErrAccepted MysqlCommon.plain ∧
    Served oneRow Setup.plain ([] ++ [gone]) afterGone ∧ ¬ Truthful afterGone ∧
    afterGone.tag.connPhase = some .command ∧ afterGone.conn.net.inbox.length = 4 := by
  have hback : GivenBack oneRow Setup.plain 9 (newConn (0, [10]) 0) gone afterGone := by
    refine ⟨.error brokenPipe, Prod.ext ?_ rfl, ⟨by simp [brokenPipe], by simp [brokenPipe]⟩, ?_⟩
    · decide +kernel
    · decide +kernel
  have htag : afterGone.tag.connPhase = some .command := by decide +kernel
  have hinbox : afterGone.conn.net.inbox.length = 4 := by decide +kernel
  refine ⟨errAccepted_plain, .again (.new (0, [10]) 0) hback, fun ht => ?_, htag, hinbox⟩
  rw [(ht.idle htag).1] at hinbox
  cases hinbox

end Haentgl.Server.Lifecycle
