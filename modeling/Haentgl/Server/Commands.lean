import Haentgl.Server.Invariants
import Haentgl.Server.Parties

/-! # The command loop

Two properties of the rounds of `on_com`.

A read of the backend must be owed: the generic forwarder reads one packet for every command that has no
forwarder of its own, which is right for all of them but `COM_STMT_SEND_LONG_DATA`, which is never
answered, and the dumps, which are answered by a stream (`comRound_owed`).

A command must reach the backend with the number 0. The forwarders set the number that came from the
client; only the `COM_RESET_CONNECTION` in place of a `COM_QUIT` goes out with whatever the counter was
left at by the packet before it (`command_numbers_iff`). -/

namespace Haentgl.Server.Commands

open Haentgl.Lib.Parse Haentgl.Lib.Program Haentgl.Protocol.Constants Haentgl.Protocol.Io
open Haentgl.Protocol.Packets Haentgl.Protocol.Basic Haentgl.Server.Links Haentgl.Server.Forwarders
open Haentgl.Server.Proxy Haentgl.Server.Parties Haentgl.Server.Invariants
open Haentgl.Protocol.Writer (seqAfter length_chunks)
open Haentgl.Lib.Program.Proc (Keeps Spec Heads)

/-- The command of a packet. -/
def commandOf (p : Packet) : Option CommandCode := p.head?.bind CommandCode.fromU8

theorem head_of_commandOf {p : Packet} {com : CommandCode} (h : commandOf p = some com) :
    p.head? = some com.toU8 ∧ CommandCode.fromU8 com.toU8 = some com := by
  obtain ⟨b, hb, hcom⟩ := Option.bind_eq_some_iff.mp h
  obtain rfl := CommandCode.toU8_of_fromU8 hcom
  exact ⟨hb, hcom⟩

section Round
variable {R : Respond} {S : Setup} {rounds : ℕ} {h : HandshakeResponse} {c : Conn World}

/-- What a round does once it knows the command. -/
def serve (N : Net World) (S : Setup) (rounds : ℕ) (h : HandshakeResponse) (com : CommandCode)
    (m : Message) : Proc Stop (Conn World) (Unit ⊕ Unit) := do
  writeToBackend N S.mc m.1 com h m.2
  let _ ← forward N S.mc S.profile rounds h com m.2
  if com = .comQuit then return .inr () else return .inl ()

theorem run_comRound {m : Message} {ms : List Message} {com : CommandCode}
    (hm : c.net.toCome = m :: ms) (hcom : commandOf m.2 = some com) :
    (comRound (net R) S rounds h ()).run c =
      (serve (net R) S rounds h com m).run { c with net := c.net.hear m } := by
  obtain ⟨hhead, hcode⟩ := head_of_commandOf hcom
  have hnext : (onNet ((net R).next .client)).run c = (.ok (some m), { c with net := c.net.hear m }) :=
    run_onNet (run_readClient_cons hm)
  rw [comRound, Proc.run_bind_ok hnext]
  simp only [firstByte, orPanic, hhead, hcode, pure_bind]
  rfl

variable (R S rounds h) in
theorem run_comRound_nil (htc : c.net.toCome = []) :
    ∃ e, (comRound (net R) S rounds h ()).run c = (.error (.io e), c) := by
  have hread := run_readClient_nil htc
  rcases hend : c.net.clientEnd with _ | e
  · rw [hend] at hread
    exact ⟨_, Proc.run_bind_ok (run_onNet (p := (net R).next .client) hread) _⟩
  · rw [hend] at hread
    exact ⟨e, Proc.run_bind_error (run_onNet (p := (net R).next .client) hread) _⟩

theorem run_comRound_unknown {m : Message} {ms : List Message} (htc : c.net.toCome = m :: ms)
    (hnone : commandOf m.2 = none) :
    (comRound (net R) S rounds h ()).run c = (.error .panic, { c with net := c.net.hear m }) := by
  have hnext : (onNet ((net R).next .client)).run c =
      (.ok (some m), { c with net := c.net.hear m }) := run_onNet (run_readClient_cons htc)
  rw [comRound, Proc.run_bind_ok hnext]
  rcases hhead : m.2.head? with _ | b
  · simp only [firstByte, orPanic, hhead]
    rfl
  · rw [commandOf, hhead] at hnone
    simp only [firstByte, orPanic, hhead, pure_bind, show CommandCode.fromU8 b = none from hnone]
    rfl

theorem run_comRound_none (hc : ∀ m ms, c.net.toCome = m :: ms → commandOf m.2 = none) :
    ∃ e c', (comRound (net R) S rounds h ()).run c = (.error e, c') ∧ e ≠ .blocked .backend ∧
      (c' = c ∨ ∃ m, c' = { c with net := c.net.hear m }) := by
  rcases htc : c.net.toCome with _ | ⟨m, ms⟩
  · obtain ⟨e, hrun⟩ := run_comRound_nil R S rounds h htc
    exact ⟨_, c, hrun, by simp, Or.inl rfl⟩
  · exact ⟨.panic, _, run_comRound_unknown htc (hc m ms htc), by simp, Or.inr ⟨m, rfl⟩⟩

variable (R S rounds h c) in
theorem comRound_cases :
    (∃ e c', (comRound (net R) S rounds h ()).run c = (.error e, c') ∧ e ≠ .blocked .backend ∧
      (c' = c ∨ ∃ m, c' = { c with net := c.net.hear m })) ∨
    ∃ m ms com, c.net.toCome = m :: ms ∧ commandOf m.2 = some com ∧
      (comRound (net R) S rounds h ()).run c =
        (serve (net R) S rounds h com m).run { c with net := c.net.hear m } := by
  by_cases hnext : ∃ m ms com, c.net.toCome = m :: ms ∧ commandOf m.2 = some com
  · obtain ⟨m, ms, com, hm, hcom⟩ := hnext
    exact Or.inr ⟨m, ms, com, hm, hcom, run_comRound hm hcom⟩
  · exact Or.inl (run_comRound_none fun m ms hm => Option.eq_none_iff_forall_ne_some.mpr
      fun com hcom => hnext ⟨m, ms, com, hm, hcom⟩)

theorem run_onCom : (onCom (net R) S rounds h).run c =
    (Proc.loop .outOfRounds (comRound (net R) S rounds h) rounds ()).run (c.setSeq .backend 0) := rfl

/-! ### The packets the backend owes -/

/-- The backend is connected, and owes nothing. -/
def Settled (w : World) : Prop := w.inbox = [] ∧ w.phase = .command

/-- The commands of a session without queries, prepared statements and changes of the user. -/
def InScope (com : CommandCode) : Prop :=
  forwarderOf com = .generic ∨ com = .comStmtClose ∨ com = .comQuit

/-- The commands that are answered by a stream. -/
def Dump (com : CommandCode) : Prop :=
  com = .comBinlogDump ∨ com = .comBinlogDumpGtid ∨ com = .comTableDump

/-- The number of packets the protocol prescribes for a command. -/
def Prescribed (com : CommandCode) (n : ℕ) : Prop :=
  if com = .comStmtClose ∨ com = .comStmtSendLongData then n = 0
  else if com = .comBinlogDump ∨ com = .comBinlogDumpGtid ∨ com = .comTableDump then 1 ≤ n
  else n = 1

/-- A backend that answers commands as prescribed and stays connected. -/
structure Answers (R : Respond) : Prop where
  hangUp : ∀ ms, (R ms).hangUp = false
  number : ∀ ms m com, commandOf m.2 = some com → InScope com →
    Prescribed com (R (ms ++ [m])).packets.length

/-- The next packet of the client, if it is a command, is one of the scope that gets one packet if it goes
to the generic forwarder. -/
def Fits (R : Respond) (c : Conn World) : Prop :=
  ∀ m ∈ c.net.toCome.head?, ∀ com, commandOf m.2 = some com → InScope com ∧ com ≠ .comStmtSendLongData ∧
    (Dump com → (R (c.net.received ++ [m])).packets.length = 1)

theorem receive_settled {w : World} {m : Message} (hw : Settled w)
    (hR : (R (w.received ++ [m])).hangUp = false)
    (hm : m.2.head? ≠ some CommandCode.comChangeUser.toU8) :
    (writeBackend R m).run w = (.ok (), w.receive R m) ∧ (w.receive R m).phase = .command ∧
      (w.receive R m).inbox = (R (w.received ++ [m])).packets := by
  have hopen : w.phase ≠ .closed := by rw [hw.2]; simp
  refine ⟨run_writeBackend (World.not_reset_of_open hopen) m, ?_, ?_⟩
  · simp [World.receive, Phase.after, hR, hw.2, hm]
  · rw [← World.answer_open hopen]
    simp [World.receive, hw.1]

/-- The one packet that is owed is read, whether or not it can be delivered. -/
theorem run_forward_one {x : Message} (hin : c.net.inbox = [x]) (isFlush : Bool) :
    ∃ r c', (forwardOnePacket (net R) .client .backend isFlush).run c = (r, c') ∧
      (r = .ok x.2 ∨ r = .error brokenPipe) ∧ c'.net.inbox = [] ∧ c'.net.phase = c.net.phase := by
  by_cases hw : c.net.writesLeft = some 0
  · refine ⟨_, _, run_forward_broken R hin hw isFlush, Or.inr rfl, ?_, rfl⟩
    simp [World.take, hin]
  · refine ⟨_, _, run_forward_cons R hin hw isFlush, Or.inl rfl, ?_, rfl⟩
    simp [relayOne, World.take, World.deliver, hin]

/-- A command with a response of one packet gets one. -/
theorem reply_one (hR : Answers R) {ms : List Message} {m : Message} {com : CommandCode}
    (hcom : commandOf m.2 = some com) (hscope : InScope com) (hlong : com ≠ .comStmtSendLongData)
    (hdump : Dump com → (R (ms ++ [m])).packets.length = 1) (hg : forwarderOf com = .generic) :
    ∃ x, (R (ms ++ [m])).packets = [x] := by
  have hnumber := hR.number ms m com hcom hscope
  have hclose : com ≠ .comStmtClose := by rintro rfl; simp [forwarderOf] at hg
  rw [← List.length_eq_one_iff]
  rw [Prescribed, if_neg (by simp [hclose, hlong])] at hnumber
  split_ifs at hnumber with hd
  · exact hdump hd
  · exact hnumber

/-- What holds of the outcome of a round. -/
def Paid (x : Except Stop (Unit ⊕ Unit) × Conn World) : Prop :=
  x.1 ≠ .error (.blocked .backend) ∧ Settled x.2.net

theorem serve_generic (hR : Answers R) (hw : Settled c.net) {m : Message} {com : CommandCode}
    (hcom : commandOf m.2 = some com) (hlong : com ≠ .comStmtSendLongData)
    (hdump : Dump com → (R (c.net.received ++ [m])).packets.length = 1)
    (hg : forwarderOf com = .generic) : Paid ((serve (net R) S rounds h com m).run c) := by
  have hquit : com ≠ .comQuit := by rintro rfl; simp [forwarderOf] at hg
  have huser : com ≠ .comChangeUser := by rintro rfl; simp [forwarderOf] at hg
  have hhead : m.2.head? ≠ some CommandCode.comChangeUser.toU8 := by
    rw [(head_of_commandOf hcom).1]
    exact fun he => huser (CommandCode.toU8_injective (Option.some.inj he))
  obtain ⟨hsend, hphase, hinbox⟩ := receive_settled hw (hR.hangUp _) hhead
  obtain ⟨x, hx⟩ := reply_one hR hcom (Or.inl hg) hlong hdump hg
  have hwrite : (writeToBackend (net R) S.mc m.1 com h m.2).run c =
      (.ok (), wrote c .backend m (c.net.receive R m)) := run_writeToBackend hquit huser h hsend rfl
  obtain ⟨r, c', hrun, hr, hin', hph'⟩ :=
    run_forward_one (R := R) (c := wrote c .backend m (c.net.receive R m)) (hinbox.trans hx) true
  have hsettled : Settled c'.net := ⟨hin', hph'.trans hphase⟩
  rw [serve, Proc.run_bind_ok hwrite, Proc.run_bind, Forwarders.forward, hg, genericForward,
    Proc.run_bind_pure, hrun]
  rcases hr with rfl | rfl
  · simp only [Except.map, if_neg hquit]
    exact ⟨by simp, hsettled⟩
  · exact ⟨by simp [Except.map, brokenPipe], hsettled⟩

theorem serve_comStmtClose (hR : Answers R) (hw : Settled c.net) {m : Message}
    (hcom : commandOf m.2 = some .comStmtClose) :
    Paid ((serve (net R) S rounds h .comStmtClose m).run c) := by
  have hhead : m.2.head? ≠ some CommandCode.comChangeUser.toU8 := by
    rw [(head_of_commandOf hcom).1]
    decide
  obtain ⟨hsend, hphase, hinbox⟩ := receive_settled hw (hR.hangUp _) hhead
  have hnone : (R (c.net.received ++ [m])).packets = [] :=
    List.length_eq_zero_iff.mp (hR.number c.net.received m _ hcom (Or.inr (Or.inl rfl)))
  have hwrite : (writeToBackend (net R) S.mc m.1 .comStmtClose h m.2).run c =
      (.ok (), wrote c .backend m (c.net.receive R m)) :=
    run_writeToBackend (by decide) (by decide) h hsend rfl
  have hsettled : Settled (wrote c .backend m (c.net.receive R m)).net := ⟨hinbox.trans hnone, hphase⟩
  rw [serve, Proc.run_bind_ok hwrite, Proc.run_bind, Forwarders.forward]
  simp only [forwarderOf, stmtPrepareForward, forwardCloseStmt]
  by_cases hlen : 5 ≤ m.2.length
  · rw [if_pos hlen]
    exact ⟨by simp, hsettled⟩
  · rw [if_neg hlen]
    exact ⟨by simp, hsettled⟩

/-- What goes to the backend for a `COM_QUIT` is a `COM_RESET_CONNECTION`, whatever the client's packet
looked like; one packet is read for it. -/
theorem run_resetConnForward (hph : ¬ c.net.Reset) :
    (resetConnForward (net R)).run c =
      (asyncPacketRead (net R) .backend >>= fun _ => pure none).run (wrote c .backend
        (c.backendSeq, resetConnection) (c.net.receive R (c.backendSeq, resetConnection))) := by
  have hsend : ((net R).send .backend c.backendSeq resetConnection).run c.net =
      (.ok (), c.net.receive R (c.backendSeq, resetConnection)) := run_writeBackend hph _
  have hend : (endPacket (net R) .backend resetConnection).run c = (.ok (), _) :=
    run_endPacket_send (m := (c.backendSeq, resetConnection)) hsend
  rw [resetConnForward, Proc.run_bind_ok hend]
  rfl

theorem serve_comQuit (hR : Answers R) (hw : Settled c.net) (m : Message) :
    Paid ((serve (net R) S rounds h .comQuit m).run c) := by
  have hcom : commandOf resetConnection = some .comResetConnection := by decide
  have hhead : resetConnection.head? ≠ some CommandCode.comChangeUser.toU8 := by decide
  let m' : Message := (c.backendSeq, resetConnection)
  obtain ⟨-, hphase, hinbox⟩ := receive_settled (m := m') hw (hR.hangUp _) hhead
  obtain ⟨x, hx⟩ : ∃ x, (R (c.net.received ++ [m'])).packets = [x] :=
    List.length_eq_one_iff.mp (hR.number _ m' .comResetConnection hcom (Or.inl rfl))
  let c1 := wrote c .backend m' (c.net.receive R m')
  have hread : (asyncPacketRead (net R) .backend).run c1 = (.ok x, { c1 with net := c1.net.take x }) :=
    run_asyncPacketRead_some (run_readBackend_cons (hinbox.trans hx))
  have hopen : ¬ c.net.Reset := World.not_reset_of_open (by rw [hw.2]; simp)
  have hforward : (forward (net R) S.mc S.profile rounds h .comQuit m.2).run c =
      (.ok none, { c1 with net := c1.net.take x }) :=
    (run_resetConnForward hopen).trans (Proc.run_bind_ok hread _)
  have hserve : (serve (net R) S rounds h .comQuit m).run c =
      (.ok (.inr ()), { c1 with net := c1.net.take x }) := Proc.run_bind_ok hforward _
  rw [hserve]
  refine ⟨by simp, ?_, hphase⟩
  simp [c1, wrote, World.take, hinbox, hx]

/-- **One round.** Whatever its outcome, no packet is read that is not owed, and none is owed after. -/
theorem comRound_paid (hR : Answers R) (hw : Settled c.net) (hfits : Fits R c) :
    Paid ((comRound (net R) S rounds h ()).run c) := by
  rcases comRound_cases R S rounds h c with ⟨e, c', hrun, he, hc'⟩ | ⟨m, ms, com, htc, hcom, hrun⟩
  · rw [hrun]
    refine ⟨by simpa using he, ?_⟩
    rcases hc' with rfl | ⟨m, rfl⟩
    · exact hw
    · exact hw
  · obtain ⟨hscope, hlong, hdump⟩ := hfits m (by simp [htc]) com hcom
    have hheard : Settled (c.net.hear m) := hw
    rw [hrun]
    rcases hscope with hg | rfl | rfl
    · exact serve_generic (c := { c with net := c.net.hear m }) hR hheard hcom hlong hdump hg
    · exact serve_comStmtClose (c := { c with net := c.net.hear m }) hR hheard hcom
    · exact serve_comQuit (c := { c with net := c.net.hear m }) hR hheard m

/-- **The command loop reads what it is owed.** Let no packet that the loop comes to be a
`COM_STMT_SEND_LONG_DATA` or a dump of several packets. At every loop head the backend owes nothing, the
next round never waits for a packet that is not owed, and neither does `on_com` as a whole; when it returns
nothing is owed. -/
theorem comRound_owed (hR : Answers R) (hw : Settled c.net)
    (hfits : ∀ c', Heads (comRound (net R) S rounds h) ((), c.setSeq .backend 0) ((), c') → Fits R c') :
    (∀ c', Heads (comRound (net R) S rounds h) ((), c.setSeq .backend 0) ((), c') →
      Settled c'.net ∧ ((comRound (net R) S rounds h ()).run c').1 ≠ .error (.blocked .backend) ∧
        Settled ((comRound (net R) S rounds h ()).run c').2.net) ∧
    ((onCom (net R) S rounds h).run c).1 ≠ .error (.blocked .backend) ∧
    Settled ((onCom (net R) S rounds h).run c).2.net := by
  have hhead : ∀ c', Heads (comRound (net R) S rounds h) ((), c.setSeq .backend 0) ((), c') →
      Settled c'.net := by
    -- the condition is about reachable heads only, so these are part of the invariant
    let start := ((), c.setSeq .backend 0)
    intro c' hh
    refine (hh.invariant
      (I := fun u d => Heads (comRound (net R) S rounds h) start (u, d) ∧ Settled d.net)
      (fun _ d _ d' hd hr => ?_) ⟨.refl, hw⟩).2
    have hpaid : Paid ((comRound (net R) S rounds h ()).run d) := comRound_paid hR hd.2 (hfits d hd.1)
    rw [hr] at hpaid
    exact ⟨.tail hd.1 hr, hpaid.2⟩
  have hround : ∀ c', Heads (comRound (net R) S rounds h) ((), c.setSeq .backend 0) ((), c') →
      Paid ((comRound (net R) S rounds h ()).run c') := fun c' hh =>
    comRound_paid hR (hhead c' hh) (hfits c' hh)
  refine ⟨fun c' hh => ⟨hhead c' hh, (hround c' hh).1, (hround c' hh).2⟩, ?_⟩
  obtain ⟨_, c', hh, hend⟩ :=
    Proc.exists_head .outOfRounds (comRound (net R) S rounds h) rounds () (c.setSeq .backend 0)
  obtain ⟨hblocked, hsettled⟩ := hround c' hh
  rw [run_onCom]
  rcases hend with hend | ⟨b, c'', hr, hend⟩ | ⟨e, c'', hr, hend⟩
  · rw [hend]
    exact ⟨by simp, hhead c' hh⟩
  · rw [hend]
    rw [hr] at hsettled
    exact ⟨by simp, hsettled⟩
  · rw [hend]
    rw [hr] at hblocked hsettled
    exact ⟨by simpa using hblocked, hsettled⟩

end Round

/-- A backend that answers every command with one OK packet, but for the two that have no answer. -/
def oneEach : Respond := fun ms =>
  match ms.getLast? with
  | some m =>
    if commandOf m.2 = some .comStmtClose ∨ commandOf m.2 = some .comStmtSendLongData then ⟨[], false⟩
    else ⟨[(m.1 + 1, [0, 0, 0, 2, 0, 0, 0])], false⟩
  | none => ⟨[], false⟩

theorem answers_oneEach : Answers oneEach where
  hangUp ms := by
    unfold oneEach
    rcases ms.getLast? with _ | m
    · rfl
    · simp only
      split_ifs <;> rfl
  number ms m com hcom _ := by
    simp only [oneEach, List.getLast?_concat, hcom, Option.some.injEq, Prescribed]
    split_ifs <;> simp

/-- A client that has just been authenticated and sends the given packets, all with the number 0. -/
def World.saying (ps : List Packet) : World :=
  ⟨ps.map fun p => (0, p), none, none, [], .command, 0, [], []⟩

/-- A ping, the end of the session, and behind it the data of a long parameter, which is not read. -/
def pingQuit : Conn World := ⟨0, 0, World.saying [[0x0e], [0x01], [0x18, 1, 0, 0, 0, 0, 0, 97]]⟩

/-- The loop head behind the ping. -/
def quitNext : Conn World := ((comRound (net oneEach) Setup.plain 5 (.bare .default) ()).run pingQuit).2

theorem heads_pingQuit {c' : Conn World}
    (hh : Heads (comRound (net oneEach) Setup.plain 5 (.bare .default)) ((), pingQuit) ((), c')) :
    c' = pingQuit ∨ c' = quitNext := by
  rcases hh.cases_head with heq | ⟨⟨_, d⟩, hagain, hrest⟩
  · exact Or.inl (Prod.mk.inj heq).2.symm
  obtain rfl : quitNext = d := congrArg Prod.snd hagain
  rcases hrest.cases_head with heq | ⟨_, hagain', _⟩
  · exact Or.inr (Prod.mk.inj heq).2.symm
  · have hres : ((comRound (net oneEach) Setup.plain 5 (.bare .default) ()).run quitNext).1 =
        .ok (.inr ()) := by decide
    simp [Proc.Again, Prod.ext_iff, hres] at hagain'

theorem fits_of_commandOf {R : Respond} {c : Conn World} {m : Message} {com : CommandCode}
    (hm : c.net.toCome.head? = some m) (hcom : commandOf m.2 = some com) (hscope : InScope com)
    (hlong : com ≠ .comStmtSendLongData) (hdump : ¬ Dump com) : Fits R c := by
  intro m' hm' com' hcom'
  obtain rfl : m = m' := Option.some.inj (hm.symm.trans hm')
  obtain rfl : com = com' := Option.some.inj (hcom.symm.trans hcom')
  exact ⟨hscope, hlong, fun hd => absurd hd hdump⟩

theorem comRound_owed_ping :
    ((onCom (net oneEach) Setup.plain 5 (.bare .default)).run pingQuit).1 ≠ .error (.blocked .backend) ∧
    Settled ((onCom (net oneEach) Setup.plain 5 (.bare .default)).run pingQuit).2.net := by
  refine (comRound_owed answers_oneEach ⟨rfl, rfl⟩ fun c' hh => ?_).2
  rcases heads_pingQuit hh with rfl | rfl
  · have hping : commandOf [0x0e] = some .comPing := rfl
    exact fits_of_commandOf (m := (0, [0x0e])) rfl hping (.inl rfl) (by decide) (by simp [Dump])
  · have hquit : commandOf [0x01] = some .comQuit := rfl
    exact fits_of_commandOf (m := (0, [0x01])) rfl hquit (.inr (.inr rfl)) (by decide) (by simp [Dump])

/-- The long data of a statement is not answered, and the proxy waits for an answer. -/
theorem onCom_comStmtSendLongData :
    Answers oneEach ∧ InScope .comStmtSendLongData ∧
    ((onCom (net oneEach) Setup.plain 5 (.bare .default)).run
      ⟨0, 0, World.saying [[0x18, 1, 0, 0, 0, 0, 0, 97]]⟩).1 = .error (.blocked .backend) :=
  ⟨answers_oneEach, Or.inl rfl, by decide⟩

/-! ### The numbers of the commands -/

section Numbers
variable {R : Respond} {S : Setup} {rounds : ℕ} {h : HandshakeResponse} {c : Conn World}

/-- The counter behind the messages that were written: 0 before the first of them. -/
def counter (ms : List Message) : UInt8 :=
  match ms.getLast? with
  | none => 0
  | some m => seqAfter m.1 m.2

theorem counter_append_singleton (ms : List Message) (m : Message) :
    counter (ms ++ [m]) = seqAfter m.1 m.2 := by simp [counter]

/-- The counter of the writer to the backend is 0 just if the one behind the last packet is that was read of
a client that was to send `ms`. -/
def Counted (ms : List Message) (c : Conn World) : Prop :=
  ∃ pre, ms = pre ++ c.net.toCome ∧ (c.backendSeq = 0 ↔ counter pre = 0)

/-- The packet `m` was the last that was read of this client. -/
def Heard (ms : List Message) (m : Message) (c : Conn World) : Prop := ∃ pre, ms = pre ++ m :: c.net.toCome

/-- The packet is written with its number, as it is or as one with a like number of frames. -/
theorem Heard.endPacket {ms : List Message} {m : Message} (hc : Heard ms m c) {p : Packet}
    (hp : seqAfter m.1 p = 0 ↔ seqAfter m.1 m.2 = 0) :
    Counted ms ((endPacket (net R) .backend p).run (c.setSeq .backend m.1)).2 := by
  obtain ⟨pre, rfl⟩ := hc
  refine ⟨pre ++ [m], ?_⟩
  rw [counter_append_singleton]
  by_cases hr : c.net.Reset
  · have hsend : ((net R).send .backend m.1 p).run c.net = (.error brokenPipe, c.net) :=
      run_writeBackend_reset hr _
    rw [run_endPacket_send (m := (m.1, p)) hsend]
    exact ⟨by simp [wrote], hp⟩
  · have hsend : ((net R).send .backend m.1 p).run c.net = (.ok (), c.net.receive R (m.1, p)) :=
      run_writeBackend hr _
    rw [run_endPacket_send (m := (m.1, p)) hsend]
    exact ⟨by simp [wrote, World.receive], hp⟩

theorem keeps_onNet_counted {α : Type} {ms : List Message} {p : Proc Stop World α}
    (hp : ∀ l, Keeps (fun w => w.toCome = l) p) : Keeps (Counted ms) (onNet p) := by
  intro c hc
  have hl := hp c.net.toCome c.net rfl
  change Counted ms ⟨c.clientSeq, c.backendSeq, (p.run c.net).2⟩
  unfold Counted
  rwa [hl]

theorem keepsForward_counted (R : Respond) (ms : List Message) : KeepsForward (net R) (Counted ms) where
  relay isFlush := by
    have hread : Keeps (Counted ms) (asyncPacketRead (net R) .backend) := by
      refine .bind (keeps_onNet_counted fun l => keeps_readBackend fun w m ms _ hw => hw) fun m => ?_
      rcases m with _ | m
      · exact .stop _
      · exact .pure _
    refine .bind hread fun m => .bind (fun c hc => hc) fun _ => .bind (fun c hc => ?_) fun _ => ?_
    · rw [run_endPacket]
      exact keeps_onNet_counted (fun l => keeps_sendClient (R := R) (fun w m hw => hw) _ _) _ hc
    · exact .ite (.bind (fun c hc => hc) fun _ => .pure _) (.pure _)
  answer isFlush := by
    intro c hc
    rcases htc : c.net.toCome with _ | ⟨m, rest⟩
    · obtain ⟨e, hread⟩ := run_asyncPacketRead_client_nil (R := R) htc
      rw [forwardOnePacket, Proc.run_bind_error hread]
      exact hc
    · have hread : (asyncPacketRead (net R) .client).run c = (.ok m, { c with net := c.net.hear m }) :=
        run_asyncPacketRead_some (run_readClient_cons htc)
      obtain ⟨pre, hms, -⟩ := hc
      have hheard : Heard ms m { c with net := c.net.hear m } :=
        ⟨pre, by rw [hms, htc]; simp [World.hear, htc]⟩
      rw [forwardOnePacket, Proc.run_bind_ok hread]
      simp only
      rw [Proc.run_bind_ok (run_setSeq _ _ _)]
      exact Keeps.bind_after (hheard.endPacket Iff.rfl)
        fun _ => .ite (.bind (fun c hc => hc) fun _ => .pure _) (.pure _)
  flush _ hc := hc

/-- The packet for a backend that is to change the user. -/
def changeUserPacket (mc : MysqlCommon) (h : HandshakeResponse) (u : ComChangeUser) : Packet :=
  mc.serializeChangeUser { u with
    authPluginData := none, moreData := some (h.collation, some unKnowPlugin) }

theorem run_writeToBackend_comChangeUser (m : Message) :
    (writeToBackend (net R) S.mc m.1 .comChangeUser h m.2).run c =
      match S.mc.comChangeUser h.clientFlag m.2 with
      | none => (.error .panic, c)
      | some u => (writePacket (net R) .backend m.1 (changeUserPacket S.mc h u)).run c := by
  rcases hparse : S.mc.comChangeUser h.clientFlag m.2 with _ | u
  · simp only [writeToBackend, backendPacket, hparse, orPanic]
    rfl
  · simp only [writeToBackend, backendPacket, hparse, orPanic, pure_bind, changeUserPacket]

/-- The packet that goes to the backend for a command other than `COM_QUIT`. -/
def GoesOut (mc : MysqlCommon) (h : HandshakeResponse) (m : Message) (p : Packet) : Prop :=
  p = m.2 ∨ ∃ u, mc.comChangeUser h.clientFlag m.2 = some u ∧ p = changeUserPacket mc h u

/-- It starts with the client's number. -/
theorem writeToBackend_cases {com : CommandCode} (hquit : com ≠ .comQuit) (m : Message) :
    (∃ e, (writeToBackend (net R) S.mc m.1 com h m.2).run c = (.error e, c)) ∨
    ∃ p, GoesOut S.mc h m p ∧ (writeToBackend (net R) S.mc m.1 com h m.2).run c =
      (writePacket (net R) .backend m.1 p).run c := by
  by_cases huser : com = .comChangeUser
  · subst huser
    rw [run_writeToBackend_comChangeUser]
    rcases hu : S.mc.comChangeUser h.clientFlag m.2 with _ | u
    · exact Or.inl ⟨.panic, rfl⟩
    · exact Or.inr ⟨changeUserPacket S.mc h u, Or.inr ⟨u, hu, rfl⟩, rfl⟩
  · exact Or.inr ⟨m.2, Or.inl rfl, by rw [writeToBackend, backendPacket_asItIs hquit huser, pure_bind]⟩

variable (R S rounds h c) in
/-- A command other than `COM_QUIT` stops before anything is written, or its packet is received first of
all, with the client's number. -/
theorem serve_cases {com : CommandCode} (hquit : com ≠ .comQuit) (m : Message) :
    (∃ e c', (serve (net R) S rounds h com m).run c = (.error e, c') ∧
      c'.net.received = c.net.received) ∨
    ∃ p, c.net.received ++ [(m.1, p)] <+:
      ((serve (net R) S rounds h com m).run c).2.net.received := by
  rw [serve]
  rcases writeToBackend_cases (R := R) (S := S) (h := h) (c := c) hquit m with ⟨e, hw⟩ | ⟨p, -, hw⟩
  · exact Or.inl ⟨e, c, Proc.run_bind_error hw _, rfl⟩
  by_cases hph : c.net.Reset
  · have hsend : ((net R).send .backend m.1 p).run c.net = (.error brokenPipe, c.net) :=
      run_writeBackend_reset hph _
    have herr := hw.trans (run_writePacket_error (m := (m.1, p)) hsend)
    exact Or.inl ⟨_, _, Proc.run_bind_error herr _, rfl⟩
  · have hsend : ((net R).send .backend m.1 p).run c.net = (.ok (), c.net.receive R (m.1, p)) :=
      run_writeBackend hph _
    have hok := run_writePacket (m := (m.1, p)) hsend rfl
    rw [Proc.run_bind_ok (hw.trans hok)]
    -- whatever the forwarder does, what was received stays
    have hkeep : Keeps (fun c' : Conn World => c.net.received ++ [(m.1, p)] <+: c'.net.received)
        (forward (net R) S.mc S.profile rounds h com m.2) :=
      (keepsWorld_received R _).ops.forward S.profile rounds h com m.2
    refine Or.inr ⟨p, (hkeep.bind fun _ => .ite (.pure _) (.pure _)) _ ?_⟩
    simp [wrote]

/-- What the proxy relies on in the other crate: of a `COM_CHANGE_USER` of one frame it makes one of one
or two frames. -/
def Rebuilds (mc : MysqlCommon) (h : HandshakeResponse) : Prop :=
  ∀ p u, p.length < maxPayloadLen → mc.comChangeUser h.clientFlag p = some u →
    changeUserPacket mc h u ≠ [] ∧ (changeUserPacket mc h u).length < 2 * maxPayloadLen

theorem seqAfter_zero_ne {p : Packet} (hne : p ≠ []) (hlen : p.length < 2 * maxPayloadLen) :
    seqAfter 0 p ≠ 0 := by
  have hpos := List.length_pos_iff.mpr hne
  have hmax : maxPayloadLen = 16777215 := rfl
  have hframes : (chunks maxPayloadLen p).length = 1 ∨ (chunks maxPayloadLen p).length = 2 := by
    rw [hmax] at hlen
    rw [length_chunks, hmax]
    split_ifs <;> omega
  rw [seqAfter]
  rcases hframes with h | h
  · rw [h]; decide
  · rw [h]; decide

/-- Behind a command other than `COM_QUIT` of one frame the counter is not 0, and it stays so until an
answer of the client is written. -/
theorem counted_serve {ms : List Message} {m : Message} {com : CommandCode} {r : Unit ⊕ Unit}
    {c' : Conn World} (hmc : Rebuilds S.mc h) (hquit : com ≠ .comQuit) (hc : Heard ms m c)
    (hcom : commandOf m.2 = some com) (hzero : m.1 = 0) (hlen : m.2.length < maxPayloadLen)
    (hr : (serve (net R) S rounds h com m).run c = (.ok r, c')) : Counted ms c' := by
  obtain ⟨_, c1, hwrite, hrest⟩ := Proc.of_run_bind_ok hr
  have hne : m.2 ≠ [] := by
    intro hnil
    rw [commandOf, hnil] at hcom
    cases hcom
  have hframes : seqAfter m.1 m.2 ≠ 0 := by
    rw [hzero]
    exact seqAfter_zero_ne hne (by omega)
  have hc1 : Counted ms c1 := by
    rcases writeToBackend_cases (R := R) (S := S) (h := h) (c := c) hquit m with ⟨e, hw⟩ | ⟨p, hp, hw⟩
    · rw [hw] at hwrite
      simp at hwrite
    · have hlike : seqAfter m.1 p = 0 ↔ seqAfter m.1 m.2 = 0 := by
        rcases hp with rfl | ⟨u, hu, rfl⟩
        · rfl
        · obtain ⟨hne', hlen'⟩ := hmc m.2 u hlen hu
          refine iff_of_false ?_ hframes
          rw [hzero]
          exact seqAfter_zero_ne hne' hlen'
      have hcounted : Counted ms ((writePacket (net R) .backend m.1 p).run c).2 := by
        rw [writePacket, Proc.run_bind_ok (run_setSeq _ _ _)]
        exact Keeps.bind_after (hc.endPacket hlike) fun _ c hc => hc
      rwa [← hw, hwrite] at hcounted
  have hreset : forwarderOf com ≠ .resetConn := by cases com <;> simp_all [forwarderOf]
  have hforward : Keeps (Counted ms) (forward (net R) S.mc S.profile rounds h com m.2) :=
    (keepsForward_counted R ms).forward S.profile rounds h hreset m.2
  have hkeep := Keeps.bind_after (hforward c1 hc1)
    fun _ => Keeps.ite (c := com = .comQuit) (.pure (Sum.inr () : Unit ⊕ Unit)) (.pure (Sum.inl ()))
  rwa [show (_ >>= _ : Proc Stop (Conn World) (Unit ⊕ Unit)).run c1 = _ from hrest] at hkeep

theorem run_serve_comQuit (m : Message) :
    (serve (net R) S rounds h .comQuit m).run c =
      (((resetConnForward (net R)).run c).1.map fun _ => .inr (), ((resetConnForward (net R)).run c).2) :=
  Proc.run_bind_pure (resetConnForward (net R)) (fun _ => (Sum.inr () : Unit ⊕ Unit)) c

variable (R S rounds h) in
theorem run_serve_comQuit_reset (hph : c.net.Reset) (m : Message) :
    ∃ c', (serve (net R) S rounds h .comQuit m).run c = (.error brokenPipe, c') ∧
      c'.net.received = c.net.received := by
  have hsend : ((net R).send .backend c.backendSeq resetConnection).run c.net =
      (.error brokenPipe, c.net) := run_writeBackend_reset hph _
  have herr : (endPacket (net R) .backend resetConnection).run c = (.error brokenPipe, _) :=
    run_endPacket_send (m := (c.backendSeq, resetConnection)) hsend
  rw [run_serve_comQuit, resetConnForward, Proc.run_bind_error herr]
  exact ⟨_, rfl, rfl⟩

variable (R S rounds h) in
theorem received_serve_comQuit (hph : ¬ c.net.Reset) (m : Message) :
    c.net.received ++ [(c.backendSeq, resetConnection)] <+:
      ((serve (net R) S rounds h .comQuit m).run c).2.net.received := by
  let m' : Message := (c.backendSeq, resetConnection)
  rw [run_serve_comQuit, run_resetConnForward hph]
  have hops := (keepsWorld_received R (c.net.received ++ [m'])).ops
  refine (Keeps.bind (hops.asyncPacketRead _) fun _ => .pure _) _ ?_
  simp [wrote, m']

/-- The first message that a round from `c` writes to the backend, if any, has the number 0. -/
def FirstIsZero (R : Respond) (S : Setup) (rounds : ℕ) (h : HandshakeResponse) (c : Conn World) : Prop :=
  ∀ m ∈ (((comRound (net R) S rounds h ()).run c).2.net.received.drop c.net.received.length).head?,
    m.1 = 0

theorem head_drop_append {l l' : List Message} {m : Message} (h : l ++ [m] <+: l') :
    (l'.drop l.length).head? = some m := by
  obtain ⟨t, rfl⟩ := h
  simp

theorem firstIsZero_of_ne_comQuit {m : Message} {com : CommandCode} (hquit : com ≠ .comQuit)
    (hzero : m.1 = 0) (hrun : (comRound (net R) S rounds h ()).run c =
      (serve (net R) S rounds h com m).run { c with net := c.net.hear m }) :
    FirstIsZero R S rounds h c := by
  rw [FirstIsZero, hrun]
  let d : Conn World := { c with net := c.net.hear m }
  rcases serve_cases R S rounds h d hquit m with ⟨e, c', herr, heq⟩ | ⟨p, hp⟩
  · rw [herr, heq]
    simp [d]
  · have hdrop := head_drop_append hp
    simp only [d] at hdrop
    rw [show c.net.received = (c.net.hear m).received from rfl, hdrop]
    simpa using hzero

theorem firstIsZero_comQuit_iff {m : Message} (hrun : (comRound (net R) S rounds h ()).run c =
      (serve (net R) S rounds h .comQuit m).run { c with net := c.net.hear m }) :
    FirstIsZero R S rounds h c ↔ c.net.Reset ∨ c.backendSeq = 0 := by
  rw [FirstIsZero, hrun]
  by_cases hph : c.net.Reset
  · obtain ⟨c', herr, heq⟩ := run_serve_comQuit_reset R S rounds h
      (c := { c with net := c.net.hear m }) hph m
    rw [herr, heq]
    simp [hph]
  · have hpre : c.net.received ++ [(c.backendSeq, resetConnection)] <+:
        ((serve (net R) S rounds h .comQuit m).run { c with net := c.net.hear m }).2.net.received :=
      received_serve_comQuit R S rounds h (c := { c with net := c.net.hear m }) hph m
    rw [head_drop_append hpre]
    simp [hph]

theorem counted_again {ms : List Message} {c' : Conn World} (hmc : Rebuilds S.mc h) (hc : Counted ms c)
    (hclient : ∀ m ms, c.net.toCome = m :: ms → m.1 = 0 ∧ m.2.length < maxPayloadLen)
    (hr : (comRound (net R) S rounds h ()).run c = (.ok (.inl ()), c')) : Counted ms c' := by
  rcases comRound_cases R S rounds h c with ⟨e, c'', hrun, _⟩ | ⟨m, rest, com, hm, hcom, hrun⟩
  · rw [hrun] at hr
    simp at hr
  · rw [hrun] at hr
    have hquit : com ≠ .comQuit := by
      rintro rfl
      rw [run_serve_comQuit] at hr
      rcases hres : ((resetConnForward (net R)).run { c with net := c.net.hear m }).1 with e | a
      · simp [hres, Except.map] at hr
      · simp [hres, Except.map] at hr
    obtain ⟨pre, hms, -⟩ := hc
    have hheard : Heard ms m { c with net := c.net.hear m } :=
      ⟨pre, by rw [hms]; simp [World.hear, hm]⟩
    obtain ⟨hzero, hlen⟩ := hclient m rest hm
    exact counted_serve hmc hquit hheard hcom hzero hlen hr

/-- **The numbers of the commands.** Every command of a client that numbers its packets from 0 reaches
the backend with the number 0, if and only if each `COM_QUIT` that the loop comes to is the client's first
packet, or comes behind a packet that left the counter at 0, or the backend's socket takes no more. -/
theorem command_numbers_iff (hmc : Rebuilds S.mc h)
    (hclient : ∀ c', Heads (comRound (net R) S rounds h) ((), c.setSeq .backend 0) ((), c') →
      ∀ m ms, c'.net.toCome = m :: ms → m.1 = 0 ∧ m.2.length < maxPayloadLen) :
    (∀ c', Heads (comRound (net R) S rounds h) ((), c.setSeq .backend 0) ((), c') →
      FirstIsZero R S rounds h c') ↔
    ∀ c', Heads (comRound (net R) S rounds h) ((), c.setSeq .backend 0) ((), c') →
      ∀ pre m ms, c.net.toCome = pre ++ m :: ms → c'.net.toCome = m :: ms →
        commandOf m.2 = some .comQuit → c'.net.Reset ∨ counter pre = 0 := by
  have hcount : ∀ c', Heads (comRound (net R) S rounds h) ((), c.setSeq .backend 0) ((), c') →
      Counted c.net.toCome c' := by
    let start := ((), c.setSeq .backend 0)
    intro c' hh
    refine (hh.invariant
      (I := fun u d => Heads (comRound (net R) S rounds h) start (u, d) ∧ Counted c.net.toCome d)
      (fun _ d _ d' hd hr => ⟨.tail hd.1 hr, counted_again hmc hd.2 (hclient d hd.1) hr⟩)
      ⟨.refl, [], ?_⟩).2
    simp [counter, Conn.setSeq]
  constructor
  · intro hfirst c' hh pre m ms hpre hm hcom
    refine ((firstIsZero_comQuit_iff (run_comRound hm hcom)).mp (hfirst c' hh)).imp_right fun hseq => ?_
    obtain ⟨pre', hpre', hiff⟩ := hcount c' hh
    obtain rfl : pre = pre' := List.append_cancel_right (hpre.symm.trans (hpre'.trans (by rw [hm])))
    exact hiff.mp hseq
  · intro hquits c' hh
    rcases comRound_cases R S rounds h c' with ⟨e, c'', hrun, _, hc''⟩ | ⟨m, ms, com, hm, hcom, hrun⟩
    · rw [FirstIsZero, hrun]
      rcases hc'' with rfl | ⟨m, rfl⟩ <;> simp
    · by_cases hquit : com = .comQuit
      · subst hquit
        obtain ⟨pre, hpre, hiff⟩ := hcount c' hh
        rw [hm] at hpre
        exact (firstIsZero_comQuit_iff hrun).mpr
          ((hquits c' hh pre m ms hpre hm hcom).imp_right hiff.mpr)
      · exact firstIsZero_of_ne_comQuit hquit (hclient c' hh m ms hm).1 hrun

theorem rebuilds_plain (h : HandshakeResponse) : Rebuilds .plain h := by
  intro p u hlen hu
  have huser : p.head? = some 0x11 ∧
      u = ⟨some ((p.drop 1).takeWhile (· ≠ 0)), none, none, none⟩ := by
    simp only [MysqlCommon.plain] at hu
    split_ifs at hu with hhead
    exact ⟨hhead, (Option.some.inj hu).symm⟩
  obtain ⟨-, rfl⟩ := huser
  have htake : ((p.drop 1).takeWhile (· ≠ 0)).length ≤ (p.drop 1).length :=
    (List.takeWhile_sublist _).length_le
  rw [List.length_drop] at htake
  refine ⟨by simp [changeUserPacket, MysqlCommon.plain], ?_⟩
  simp only [changeUserPacket, MysqlCommon.plain, List.length_cons, List.length_append, Option.getD_some,
    Option.getD_none, List.length_nil]
  have hmax : maxPayloadLen = 16777215 := rfl
  omega

theorem command_numbers_quit :
    FirstIsZero oneEach Setup.plain 5 (.bare .default) ⟨0, 0, World.saying [[1]]⟩ := by
  have honly : ∀ c', Heads (comRound (net oneEach) Setup.plain 5 (.bare .default))
      ((), ⟨0, 0, World.saying [[1]]⟩) ((), c') → c' = ⟨0, 0, World.saying [[1]]⟩ := by
    intro c' hh
    rcases hh.cases_head with heq | ⟨d, hagain, _⟩
    · exact (Prod.mk.inj heq).2.symm
    · have hres : ((comRound (net oneEach) Setup.plain 5 (.bare .default) ()).run
          ⟨0, 0, World.saying [[1]]⟩).1 = .ok (.inr ()) := by decide
      simp [Proc.Again, Prod.ext_iff, hres] at hagain
  refine (command_numbers_iff (c := ⟨0, 0, World.saying [[1]]⟩) (rebuilds_plain _) ?_).mpr ?_ _ .refl
  · intro c' hh m ms hm
    rw [honly c' hh] at hm
    obtain ⟨rfl, -⟩ := List.cons.inj hm
    exact ⟨rfl, by decide⟩
  · intro c' hh pre m ms hpre hm _
    rw [honly c' hh] at hm
    obtain rfl : pre = [] := List.append_cancel_right (hpre.symm.trans hm)
    exact Or.inr rfl

/-- After a ping the `COM_RESET_CONNECTION` for the `COM_QUIT` has the number 1. -/
theorem onCom_ping_quit :
    ((onCom (net oneEach) Setup.plain 5 (.bare .default)).run
      ⟨0, 0, World.saying [[0x0e], [0x01]]⟩).2.net.received = [(0, [0x0e]), (1, resetConnection)] := by
  decide

end Numbers

end Haentgl.Server.Commands
