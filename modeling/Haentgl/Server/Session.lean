import Haentgl.Server.ChangeUser

/-! # A session as a conversation

Seen without the proxy, a session is a conversation of a client with a backend: the client sends a
command, the backend answers it, and so on until the client quits, goes away or is refused another user.
`Conversation` describes it turn by turn, from the backend and the list of the client's packets alone;
`onCom_relays` says that the command loop plays it. -/

namespace Haentgl.Server.Session

open Haentgl.Lib.Parse Haentgl.Lib.Program Haentgl.Protocol.Constants Haentgl.Protocol.Io
open Haentgl.Protocol.Packets Haentgl.Protocol.Basic Haentgl.Server.Links Haentgl.Server.Forwarders
open Haentgl.Server.Proxy Haentgl.Server.Parties Haentgl.Server.Responses Haentgl.Server.Commands
open Haentgl.Server.Auth (Login)
open Haentgl.Server.Pool (Visit setupFor seat GivenBack Ended run_connect_some)
open Haentgl.Server.Lifecycle Haentgl.Server.ChangeUser Haentgl.Server.Readings
open Haentgl.Protocol.Writer (seqAfter)

/-! ### Turns -/

/-- One turn: a command with the replies to it, a change of the user with the questions before its
outcome, or the end of the session with what the backend gets in its place. -/
inductive Turn
  | command (m : Message) (replies : List Message)
  | changeUser (m sent : Message) (rounds : List Round) (final : Message)
  | quit (m reset answer : Message)
  deriving DecidableEq, Repr

/-- A turn on the client's link. -/
def Turn.clientSide : Turn → List Event
  | .command m replies => ⟨false, m⟩ :: replies.map (Event.mk true)
  | .changeUser m _ rounds final =>
    ⟨false, m⟩ :: rounds.flatMap (fun r => [⟨true, r.1⟩, ⟨false, r.2⟩]) ++ [⟨true, final⟩]
  | .quit m _ _ => [⟨false, m⟩]

/-- A turn on the backend's link. -/
def Turn.backendSide : Turn → List Event
  | .command m replies => ⟨true, m⟩ :: replies.map (Event.mk false)
  | .changeUser _ sent rounds final =>
    ⟨true, sent⟩ :: rounds.flatMap (fun r => [⟨false, r.1⟩, ⟨true, r.2⟩]) ++ [⟨false, final⟩]
  | .quit _ reset answer => [⟨true, reset⟩, ⟨false, answer⟩]

/-- How a conversation ends. -/
inductive Ending
  | quit
  | gone
  | refused
  deriving DecidableEq, Repr

/-- What `on_com` returns, for a client whose packets end with the error `e` or without one. -/
def Ending.result (e : Option IoError) : Ending → Except Stop Unit
  | .quit => .ok ()
  | .gone => .error (.io (e.getD ⟨.invalidData, "Malform packet error"⟩))
  | .refused => .error (.io ⟨.permissionDenied, "Error packet from backend"⟩)

/-! ### Conversations -/

/-- The backend, which has received `l`, asks the client any number of times and then decides. -/
inductive Asking (R : Respond) : List Message → List Message → List Round → Message → Prop
  | final {l cs : List Message} {x : Message} (hR : R l = ⟨[x], false⟩)
    (hx : isOkPacket x.2 = true ∨ isErrPacket x.2 = true) : Asking R l cs [] x
  | again {l cs : List Message} {x a final : Message} {rounds : List Round} (hR : R l = ⟨[x], false⟩)
    (hx : IsSwitch x.2) (ha : isErrPacket a.2 = false) (H : Asking R (l ++ [a]) cs rounds final) :
    Asking R l (a :: cs) ((x, a) :: rounds) final

/-- The replies to a command other than `COM_QUIT` and `COM_CHANGE_USER`: as its forwarder expects them,
and one packet where it waits for one. -/
structure Replies (mc : MysqlCommon) (caps : CapabilityFlags) (com : CommandCode) (request : Packet)
    (ps : List Packet) : Prop where
  notQuit : com ≠ .comQuit
  notUser : com ≠ .comChangeUser
  expected : Expected mc caps com ps
  waits : forwarderOf com = .generic → ps ≠ []
  whole : com = .comStmtClose → 5 ≤ request.length

/-- The number behind the last message to the backend in an exchange that `sent` has opened. -/
def lastNumber (sent : Message) (rounds : List Round) : UInt8 :=
  match rounds.getLast? with
  | some r => seqAfter r.2.1 r.2.2
  | none => seqAfter sent.1 sent.2

/-- **The conversation** of a client that is to send the packets `cs` with a backend that has received
`l`; the last message to the backend left the counter at `q`. What is in it about the proxy is what it
sends for a `COM_QUIT` and a `COM_CHANGE_USER`, the bound `fuel` of its loops, and what it does not cope
with: no answer starts like an ERR packet (`Asking.again`), a `COM_STMT_CLOSE` has its statement
(`Replies.whole`), and a `COM_CHANGE_USER` can be parsed. -/
inductive Conversation (R : Respond) (S : Setup) (fuel : ℕ) (h : HandshakeResponse) :
    List Message → UInt8 → List Message → List Turn → Ending → Prop
  | gone {l : List Message} {q : UInt8} : Conversation R S fuel h l q [] [] .gone
  | quit {l cs : List Message} {q : UInt8} {m x : Message} (hcom : commandOf m.2 = some .comQuit)
    (hR : R (l ++ [(q, resetConnection)]) = ⟨[x], false⟩) :
    Conversation R S fuel h l q (m :: cs) [.quit m (q, resetConnection) x] .quit
  | command {l cs : List Message} {q : UInt8} {m : Message} {com : CommandCode} {rs : List Message}
    {ts : List Turn} {fin : Ending} (hcom : commandOf m.2 = some com) (hR : R (l ++ [m]) = ⟨rs, false⟩)
    (hlen : rs.length ≤ fuel) (hrs : Replies S.mc h.clientFlag com m.2 (rs.map Prod.snd))
    (H : Conversation R S fuel h (l ++ [m]) (seqAfter m.1 m.2) cs ts fin) :
    Conversation R S fuel h l q (m :: cs) (.command m rs :: ts) fin
  | changeUser {l cs : List Message} {q : UInt8} {m sent final : Message} {u : ComChangeUser}
    {rounds : List Round} {ts : List Turn} {fin : Ending} (hcom : commandOf m.2 = some .comChangeUser)
    (hu : S.mc.comChangeUser h.clientFlag m.2 = some u)
    (hsent : sent = (m.1, changeUserPacket S.mc h u)) (hask : Asking R (l ++ [sent]) cs rounds final)
    (hlen : rounds.length < fuel) (hfinal : isOkPacket final.2 = true)
    (H : Conversation R S fuel h (l ++ sent :: rounds.map Prod.snd) (lastNumber sent rounds)
      (cs.drop rounds.length) ts fin) :
    Conversation R S fuel h l q (m :: cs) (.changeUser m sent rounds final :: ts) fin
  | refused {l cs : List Message} {q : UInt8} {m sent final : Message} {u : ComChangeUser}
    {rounds : List Round} (hcom : commandOf m.2 = some .comChangeUser)
    (hu : S.mc.comChangeUser h.clientFlag m.2 = some u)
    (hsent : sent = (m.1, changeUserPacket S.mc h u)) (hask : Asking R (l ++ [sent]) cs rounds final)
    (hlen : rounds.length < fuel) (hfinal : isErrPacket final.2 = true)
    (hread : (S.mc.errPacket h.clientFlag final.2).isSome = true) :
    Conversation R S fuel h l q (m :: cs) [.changeUser m sent rounds final] .refused

/-! ### The loop at a turn -/

/-- The loop is about to read the next of the packets `cs`. -/
structure At (l : List Message) (q : UInt8) (cs : List Message) (c : Conn World) : Prop where
  settled : Settled c.net
  received : c.net.received = l
  number : c.backendSeq = q
  toCome : c.net.toCome = cs
  whole : c.net.writesLeft = none

/-- The turn went over both links. -/
structure Played (t : Turn) (c c' : Conn World) : Prop where
  clientLink : c'.net.clientLink = c.net.clientLink ++ t.clientSide
  backendLink : c'.net.backendLink = c.net.backendLink ++ t.backendSide

section Fields

theorem relay_backendSeq : ∀ (ms : List Message) (c : Conn World),
    (relay ms c).backendSeq = c.backendSeq
  | [], _ => rfl
  | m :: ms, c => relay_backendSeq ms (relayOne c m)

theorem relay_clientEnd : ∀ (ms : List Message) (c : Conn World),
    (relay ms c).net.clientEnd = c.net.clientEnd
  | [], _ => rfl
  | m :: ms, c => relay_clientEnd ms (relayOne c m)

theorem relay_phase : ∀ (ms : List Message) (c : Conn World), (relay ms c).net.phase = c.net.phase
  | [], _ => rfl
  | m :: ms, c => relay_phase ms (relayOne c m)

theorem relay_writesLeft : ∀ (ms : List Message) {c : Conn World}, c.net.writesLeft = none →
    (relay ms c).net.writesLeft = none
  | [], _, hw => hw
  | m :: ms, c, hw => relay_writesLeft ms (by simp [relayOne, World.take, World.deliver, hw])

end Fields

section Turns
variable {R : Respond} {S : Setup} {fuel : ℕ} {h : HandshakeResponse} {l cs : List Message} {q : UInt8}
  {m : Message} {c : Conn World}

/-- The replies to a command are relayed, all of them. -/
theorem run_forward_replies (hmc : ErrAccepted S.mc) {com : CommandCode} {rs : List Message}
    (hrs : Replies S.mc h.clientFlag com m.2 (rs.map Prod.snd)) (hlen : rs.length ≤ fuel)
    (hin : c.net.inbox = rs) (hw : c.net.writesLeft = none) :
    ∃ o, (forward (net R) S.mc S.profile fuel h com m.2).run c = (.ok o, relay rs c) := by
  by_cases hcom : forwarderOf com = .query ∨ com = .comStmtPrepare
  · exact ⟨none, run_forward_expected hmc hcom hrs.expected hlen hin hw m.2⟩
  have hexp := hrs.expected
  have hquit := hrs.notQuit
  have huser := hrs.notUser
  by_cases hclose : com = .comStmtClose
  · subst hclose
    obtain rfl : rs = [] := List.map_eq_nil_iff.mp hexp
    refine ⟨none, ?_⟩
    change (forwardCloseStmt m.2).run c = _
    rw [forwardCloseStmt, if_pos (hrs.whole rfl)]
    rfl
  have hgeneric : forwarderOf com = .generic := by
    cases com <;> simp_all [forwarderOf]
  obtain ⟨x, rfl⟩ : ∃ x, rs = [x] := by
    have hone : (rs.map Prod.snd).length ≤ 1 := by cases com <;> simp_all [Expected, forwarderOf]
    rcases rs with _ | ⟨x, _ | ⟨y, rs⟩⟩
    · exact absurd rfl (hrs.waits hgeneric)
    · exact ⟨x, rfl⟩
    · simp at hone
  have hrun := run_forward_cons R hin (by simp [hw]) true
  refine ⟨some x.2, ?_⟩
  rw [forward, hgeneric]
  exact Proc.run_bind_ok hrun _

/-- **A command** and the replies to it. -/
theorem run_command (hmc : ErrAccepted S.mc) (hc : At l q (m :: cs) c) {com : CommandCode}
    {rs : List Message} (hcom : commandOf m.2 = some com) (hR : R (l ++ [m]) = ⟨rs, false⟩)
    (hlen : rs.length ≤ fuel) (hrs : Replies S.mc h.clientFlag com m.2 (rs.map Prod.snd)) :
    ∃ c', (comRound (net R) S fuel h ()).run c = (.ok (.inl ()), c') ∧
      At (l ++ [m]) (seqAfter m.1 m.2) cs c' ∧ Played (.command m rs) c c' ∧
      c'.net.clientEnd = c.net.clientEnd := by
  set d : Conn World := { c with net := c.net.hear m } with hd
  have hrec : d.net.received = l := hc.received
  have hhead : m.2.head? ≠ some CommandCode.comChangeUser.toU8 := by
    rw [(head_of_commandOf hcom).1]
    exact fun he => hrs.notUser (CommandCode.toU8_injective (Option.some.inj he))
  obtain ⟨hsend, hphase, hinbox⟩ := receive_settled (R := R) (w := d.net) (m := m) hc.settled
    (by rw [hrec, hR]) hhead
  have hwrite : (writeToBackend (net R) S.mc m.1 com h m.2).run d =
      (.ok (), wrote d .backend m (d.net.receive R m)) :=
    run_writeToBackend hrs.notQuit hrs.notUser h hsend rfl
  have hin : (wrote d .backend m (d.net.receive R m)).net.inbox = rs := by
    change (d.net.receive R m).inbox = rs
    rw [hinbox, hrec, hR]
  obtain ⟨o, hforward⟩ := run_forward_replies (R := R) (m := m) hmc hrs hlen hin hc.whole
  refine ⟨relay rs (wrote d .backend m (d.net.receive R m)), ?_, ⟨⟨?_, ?_⟩, ?_, ?_, ?_, ?_⟩, ⟨?_, ?_⟩, ?_⟩
  · rw [run_comRound hc.toCome hcom, serve, Proc.run_bind_ok hwrite, Proc.run_bind_ok hforward,
      if_neg hrs.notQuit]
    rfl
  · exact relay_inbox_nil hin
  · exact (relay_phase _ _).trans hphase
  · rw [relay_received, ← hrec]
    exact World.received_receive R d.net m
  · exact relay_backendSeq _ _
  · rw [relay_toCome]
    exact congrArg List.tail hc.toCome
  · exact relay_writesLeft rs hc.whole
  · rw [relay_clientLink]
    simp [wrote, World.receive, d, World.hear, Turn.clientSide]
  · rw [relay_backendLink]
    simp [wrote, World.receive, d, World.hear, Turn.backendSide]
  · exact relay_clientEnd _ _

/-! ### A change of the user -/

/-- The questions and answers of an exchange that `sent` has opened, and the state behind them. -/
structure Asked (R : Respond) (l cs : List Message) (sent : Message) (rounds : List Round)
    (final : Message) (c : Conn World) : Prop where
  exchange : Exchange R rounds final c.net
  plain : PlainAnswers rounds
  inbox : (ChangeUser.exchanged R rounds c).net.inbox = [final]
  phase : (ChangeUser.exchanged R rounds c).net.phase = verdict [final] ∨
    (ChangeUser.exchanged R rounds c).net.phase = .command
  received : (ChangeUser.exchanged R rounds c).net.received = l ++ rounds.map Prod.snd
  number : (ChangeUser.exchanged R rounds c).backendSeq = lastNumber sent rounds
  toCome : (ChangeUser.exchanged R rounds c).net.toCome = cs.drop rounds.length
  whole : (ChangeUser.exchanged R rounds c).net.writesLeft = none
  clientEnd : (ChangeUser.exchanged R rounds c).net.clientEnd = c.net.clientEnd

theorem lastNumber_cons (sent : Message) (x a : Message) (rounds : List Round) :
    lastNumber sent ((x, a) :: rounds) = lastNumber a rounds := by
  rcases rounds with _ | ⟨r, rounds⟩
  · rfl
  · obtain ⟨y, hy⟩ : ∃ y, (r :: rounds).getLast? = some y := ⟨_, List.getLast?_eq_some_getLast (by simp)⟩
    simp [lastNumber, List.getLast?_cons_cons, hy]

theorem Asking.hangUp {rounds : List Round} {final : Message} (H : Asking R l cs rounds final) :
    (R l).hangUp = false := by
  cases H with
  | final hR => rw [hR]
  | again hR => rw [hR]

/-- **The backend's questions** are answered in their order. -/
theorem asked_of_asking {rounds : List Round} {final : Message} (H : Asking R l cs rounds final) :
    ∀ (sent : Message) (c : Conn World), c.net.received = l → c.net.toCome = cs →
      c.net.writesLeft = none → c.backendSeq = seqAfter sent.1 sent.2 → c.net.inbox = (R l).packets →
      (c.net.phase = verdict (R l).packets ∨ c.net.phase = .command) → Asked R l cs sent rounds final c := by
  induction H with
  | @final l cs x hR hx =>
    intro sent c hl hcs hw hq hin hph
    rw [hR] at hin hph
    exact ⟨⟨by simp [hin], hx⟩, fun _ hr => absurd hr List.not_mem_nil, hin, hph,
      by simpa [ChangeUser.exchanged] using hl, hq, hcs, hw, rfl⟩
  | @again l cs x a final rounds hR hx ha H ih =>
    intro sent c hl hcs hw hq hin hph
    rw [hR] at hin hph
    have hopen : c.net.phase ≠ .closed := by
      rw [verdict_other hx.1 hx.2] at hph
      rcases hph with hph | hph <;> simp [hph]
    -- behind the answer the backend has received one message more
    have hnext := ih a (exchangedOne R c x a) ((exchangedOne_received R c x a).trans (by rw [hl]))
      (congrArg List.tail hcs) (by simp [exchangedOne, wrote, relayOne, World.take, World.deliver,
        World.hear, World.receive, hw]) rfl ?_ ?_
    · refine ⟨⟨by simp [hin], hx, by simp [hcs], World.not_reset_of_open hopen, hnext.exchange⟩, ?_,
        hnext.inbox, hnext.phase, ?_, ?_, ?_, hnext.whole, hnext.clientEnd⟩
      · exact List.forall_mem_cons.mpr ⟨ha, hnext.plain⟩
      · refine hnext.received.trans ?_
        simp
      · exact hnext.number.trans (lastNumber_cons sent x a rounds).symm
      · refine hnext.toCome.trans ?_
        simp
    · rw [exchangedOne_inbox, World.answer_open hopen, hl, hin]
      rfl
    · rw [exchangedOne_phase, hl]
      exact after_cases hopen H.hangUp a.2

/-- **A change of the user** and its outcome. -/
theorem run_changeUser (hc : At l q (m :: cs) c) {sent final : Message} {u : ComChangeUser}
    {rounds : List Round} (hcom : commandOf m.2 = some .comChangeUser)
    (hu : S.mc.comChangeUser h.clientFlag m.2 = some u)
    (hsent : sent = (m.1, changeUserPacket S.mc h u)) (hask : Asking R (l ++ [sent]) cs rounds final)
    (hlen : rounds.length < fuel) (hread : Readable S.mc h.clientFlag final) :
    ∃ d : Conn World, Asked R (l ++ [sent]) cs sent rounds final d ∧
      d.net.clientLink = c.net.clientLink ++ [⟨false, m⟩] ∧
      d.net.backendLink = c.net.backendLink ++ [⟨true, sent⟩] ∧ d.net.clientEnd = c.net.clientEnd ∧
      (comRound (net R) S fuel h ()).run c =
        ((outcome final).map fun _ => .inl (), relayOne (ChangeUser.exchanged R rounds d) final) := by
  set d : Conn World := { c with net := c.net.hear m } with hd
  have hrec : d.net.received = l := hc.received
  have hopen : d.net.phase ≠ .closed := by
    change c.net.phase ≠ .closed
    rw [hc.settled.2]
    simp
  have hsend : ((net R).send .backend sent.1 sent.2).run d.net = (.ok (), d.net.receive R sent) :=
    run_writeBackend (World.not_reset_of_open hopen) sent
  have hwrite : (writeToBackend (net R) S.mc m.1 .comChangeUser h m.2).run d =
      (.ok (), wrote d .backend sent (d.net.receive R sent)) := by
    have hrun := run_writeToBackend_comChangeUser (R := R) (S := S) (h := h) (c := d) m
    simp only [hu] at hrun
    generalize changeUserPacket S.mc h u = p at hrun hsent
    subst hsent
    exact hrun.trans (run_writePacket (m := (m.1, p)) hsend rfl)
  have hasked : Asked R (l ++ [sent]) cs sent rounds final
      (wrote d .backend sent (d.net.receive R sent)) := by
    refine asked_of_asking hask sent _ ?_ ?_ hc.whole rfl ?_ ?_
    · exact (World.received_receive R d.net sent).trans (by rw [hrec])
    · exact congrArg List.tail hc.toCome
    · change c.net.inbox ++ d.net.answer R sent = _
      rw [hc.settled.1, World.answer_open hopen, hrec]
      rfl
    · rw [show (wrote d .backend sent (d.net.receive R sent)).net.phase =
        d.net.phase.after sent.2 (R (d.net.received ++ [sent])) from rfl, hrec]
      exact after_cases hopen hask.hangUp sent.2
  refine ⟨_, hasked, rfl, ?_, rfl, ?_⟩
  · simp [wrote, World.receive, d, World.hear]
  · have hforward := run_exchange S.mc h rounds fuel _ hasked.exchange hc.whole hasked.plain hlen
    rw [if_neg fun hno => by simp [hread hno.1] at hno] at hforward
    rw [run_comRound hc.toCome hcom, serve, Proc.run_bind_ok hwrite]
    change (changeUserForward (net R) S.mc fuel h >>= fun _ => pure (Sum.inl () : Unit ⊕ Unit)).run _ = _
    rw [Proc.run_bind_pure, hforward]

/-- The exchange in the links. -/
theorem played_changeUser {sent final : Message} {rounds : List Round} {d : Conn World}
    (hclient : d.net.clientLink = c.net.clientLink ++ [⟨false, m⟩])
    (hbackend : d.net.backendLink = c.net.backendLink ++ [⟨true, sent⟩]) :
    Played (.changeUser m sent rounds final) c (relayOne (ChangeUser.exchanged R rounds d) final) := by
  obtain ⟨h1, h2⟩ := exchanged_relayOne R rounds final d
  refine ⟨?_, ?_⟩
  · rw [h1, hclient]
    simp [Turn.clientSide]
  · rw [h2, hbackend]
    simp [Turn.backendSide]

/-- The state behind a decision of the backend. -/
theorem Asked.settled {sent final : Message} {rounds : List Round} {d : Conn World}
    (H : Asked R l cs sent rounds final d) (hfinal : isOkPacket final.2 = true) :
    At (l ++ rounds.map Prod.snd) (lastNumber sent rounds) (cs.drop rounds.length)
      (relayOne (ChangeUser.exchanged R rounds d) final) := by
  refine ⟨⟨?_, ?_⟩, ?_, H.number, H.toCome, ?_⟩
  · change (ChangeUser.exchanged R rounds d).net.inbox.tail = []
    rw [H.inbox]
    rfl
  · have hph := H.phase
    rw [verdict_ok hfinal, or_self] at hph
    exact hph
  · rw [← H.received]
    simp [relayOne]
  · change (ChangeUser.exchanged R rounds d).net.writesLeft.map (· - 1) = none
    rw [H.whole]
    rfl

/-- **The end of the session.** -/
theorem run_quit (hc : At l q (m :: cs) c) {x : Message} (hcom : commandOf m.2 = some .comQuit)
    (hR : R (l ++ [(q, resetConnection)]) = ⟨[x], false⟩) :
    ∃ c', (comRound (net R) S fuel h ()).run c = (.ok (.inr ()), c') ∧ Settled c'.net ∧
      Played (.quit m (q, resetConnection) x) c c' := by
  set d : Conn World := { c with net := c.net.hear m } with hd
  have hrec : d.net.received = l := hc.received
  have hq : d.backendSeq = q := hc.number
  have hhead : resetConnection.head? ≠ some CommandCode.comChangeUser.toU8 := by decide
  obtain ⟨-, hphase, hinbox⟩ := receive_settled (R := R) (w := d.net) (m := (q, resetConnection))
    hc.settled (by rw [hrec, hR]) hhead
  rw [hrec, hR] at hinbox
  set c1 := wrote d .backend (q, resetConnection) (d.net.receive R (q, resetConnection)) with hc1
  have hread : (asyncPacketRead (net R) .backend).run c1 = (.ok x, { c1 with net := c1.net.take x }) :=
    run_asyncPacketRead_some (run_readBackend_cons hinbox)
  have hforward : (resetConnForward (net R)).run d = (.ok none, { c1 with net := c1.net.take x }) := by
    have hopen : d.net.phase ≠ .closed := by rw [show d.net.phase = _ from hc.settled.2]; simp
    rw [run_resetConnForward (World.not_reset_of_open hopen), hq]
    exact Proc.run_bind_ok hread _
  refine ⟨{ c1 with net := c1.net.take x }, ?_, ⟨?_, hphase⟩, ⟨rfl, ?_⟩⟩
  · rw [run_comRound hc.toCome hcom, run_serve_comQuit, hforward]
    rfl
  · change (d.net.receive R (q, resetConnection)).inbox.tail = []
    rw [hinbox]
    rfl
  · simp [c1, wrote, World.take, World.receive, d, World.hear, Turn.backendSide]

/-- **The end of the client.** -/
theorem run_gone (hc : At l q [] c) : (comRound (net R) S fuel h ()).run c =
    (.error (.io (c.net.clientEnd.getD ⟨.invalidData, "Malform packet error"⟩)), c) := by
  have hread : (onNet ((net R).next .client)).run c = _ := run_onNet (run_readClient_nil hc.toCome)
  rcases hend : c.net.clientEnd with _ | e
  · rw [hend] at hread
    exact Proc.run_bind_ok hread _
  · rw [hend] at hread
    exact Proc.run_bind_error hread _

end Turns

/-! ### The whole session -/

section Run
variable {R : Respond} {S : Setup} {fuel : ℕ} {h : HandshakeResponse} {l cs : List Message} {q : UInt8}
  {ts : List Turn} {fin : Ending}

/-- All turns went over both links, and nothing of the backend is left unread. -/
structure PlayedAll (ts : List Turn) (fin : Ending) (c c' : Conn World) : Prop where
  clientLink : c'.net.clientLink = c.net.clientLink ++ ts.flatMap Turn.clientSide
  backendLink : c'.net.backendLink = c.net.backendLink ++ ts.flatMap Turn.backendSide
  inbox : c'.net.inbox = []
  settled : fin ≠ .refused → Settled c'.net

theorem Played.cons {t : Turn} {c d c' : Conn World} (H : Played t c d) (h : PlayedAll ts fin d c') :
    PlayedAll (t :: ts) fin c c' := by
  refine ⟨?_, ?_, h.inbox, h.settled⟩
  · rw [h.clientLink, H.clientLink]
    simp
  · rw [h.backendLink, H.backendLink]
    simp

theorem Played.last {t : Turn} {c c' : Conn World} (H : Played t c c') (hin : c'.net.inbox = [])
    (hw : fin ≠ .refused → Settled c'.net) : PlayedAll [t] fin c c' :=
  H.cons ⟨by simp, by simp, hin, hw⟩

/-- **The loop plays the conversation**, turn by turn. -/
theorem run_conversation (hmc : ErrAccepted S.mc) (H : Conversation R S fuel h l q cs ts fin) :
    ∀ (n : ℕ) (c : Conn World), At l q cs c → ts.length < n →
      ∃ c', (Proc.loop .outOfRounds (comRound (net R) S fuel h) n ()).run c =
        (fin.result c.net.clientEnd, c') ∧ PlayedAll ts fin c c' := by
  induction H with
  | gone =>
    rintro (_ | n) c hc hn
    · omega
    · exact ⟨c, Proc.loop_stop (run_gone hc), by simp, by simp, hc.settled.1, fun _ => hc.settled⟩
  | quit hcom hR =>
    rintro (_ | n) c hc hn
    · omega
    · obtain ⟨c', hround, hw, hplayed⟩ := @run_quit R S fuel h _ _ _ _ _ hc _ hcom hR
      exact ⟨c', Proc.loop_break hround, hplayed.last hw.1 fun _ => hw⟩
  | @command l cs q m com rs ts fin hcom hR hlen hrs H ih =>
    rintro (_ | n) c hc hn
    · omega
    · obtain ⟨d, hround, hd, hplayed, hend⟩ := run_command hmc hc hcom hR hlen hrs
      obtain ⟨c', hrun, hrest⟩ := ih n d hd (by simpa using hn)
      rw [Proc.loop_again hround, ← hend]
      exact ⟨c', hrun, hplayed.cons hrest⟩
  | @changeUser l cs q m sent final u rounds ts fin hcom hu hsent hask hlen hfinal H ih =>
    rintro (_ | n) c hc hn
    · omega
    · have herr : isErrPacket final.2 = false := isErrPacket_of_isOkPacket hfinal
      obtain ⟨d, hasked, hclient, hbackend, hend, hround⟩ :=
        run_changeUser hc hcom hu hsent hask hlen fun he => by simp [herr] at he
      have hd := hasked.settled hfinal
      rw [List.append_assoc, List.singleton_append] at hd
      obtain ⟨c', hrun, hrest⟩ := ih n _ hd (by simpa using hn)
      rw [outcome, if_neg (by simp [herr])] at hround
      rw [Proc.loop_again hround, ← hend, ← hasked.clientEnd]
      exact ⟨c', hrun, (played_changeUser hclient hbackend).cons hrest⟩
  | @refused l cs q m sent final u rounds hcom hu hsent hask hlen hfinal hread =>
    rintro (_ | n) c hc hn
    · omega
    · obtain ⟨d, hasked, hclient, hbackend, hend, hround⟩ :=
        run_changeUser hc hcom hu hsent hask hlen fun _ => hread
      rw [outcome, if_pos hfinal] at hround
      refine ⟨_, Proc.loop_stop hround, (played_changeUser hclient hbackend).last ?_ fun hne => ?_⟩
      · change (ChangeUser.exchanged R rounds d).net.inbox.tail = []
        rw [hasked.inbox]
        rfl
      · exact absurd rfl hne

/-- **Transparency of a session.** Let the backend be idle and the client's socket whole, and let the
client's packets and the backend make up a conversation: commands of any kind and number, each answered
as its forwarder expects, changes of the user with any number of questions, and in the end a `COM_QUIT`,
the end of the client or a refused change of the user. Then the command loop relays every turn in order,
and nothing else goes over the links: the client sees the backend's packets as if there were no proxy,
the backend sees the client's but for the two commands that are not sent as they came, and no packet is
left unread. -/
theorem onCom_relays (hmc : ErrAccepted S.mc) {c : Conn World}
    (H : Conversation R S fuel h c.net.received 0 c.net.toCome ts fin) (hw : Settled c.net)
    (hwhole : c.net.writesLeft = none) (hlen : ts.length < fuel) :
    ∃ c', (onCom (net R) S fuel h).run c = (fin.result c.net.clientEnd, c') ∧
      PlayedAll ts fin c c' := by
  obtain ⟨c', hrun, hclient, hbackend, hin, hsettled⟩ :=
    run_conversation hmc H fuel (c.setSeq .backend 0) ⟨hw, rfl, rfl, rfl, hwhole⟩ hlen
  exact ⟨c', hrun, hclient, hbackend, hin, hsettled⟩

end Run

/-- A client that sends a query and a ping, changes the user and quits. -/
def chatty : World :=
  ⟨[(0, [0x03, 0x78]), (0, [0x0e]), (0, [0x11, 0x75, 0]), (2, [7]), (0, [0x01])], none, none, [],
    .command, 0, [], []⟩

/-- A backend that asks once before it changes the user. -/
def obliging : Respond := fun ms =>
  match ms.length with
  | 3 => ⟨[(1, [0xfe, 0x61, 0])], false⟩
  | 4 => ⟨[(3, [0, 0, 0, 2, 0, 0, 0])], false⟩
  | _ => ⟨[(1, [0, 0, 0, 2, 0, 0, 0])], false⟩

theorem onCom_relays_chatty : ∃ c',
    (onCom (net obliging) Setup.plain 5 (.bare .clientProtocol41)).run ⟨0, 0, chatty⟩ = (.ok (), c') ∧
      c'.net.delivered = [(1, [0, 0, 0, 2, 0, 0, 0]), (1, [0, 0, 0, 2, 0, 0, 0]), (1, [0xfe, 0x61, 0]),
        (3, [0, 0, 0, 2, 0, 0, 0])] ∧ c'.net.inbox = [] := by
  have hok : OkBody .clientProtocol41 0 2 [0, 0, 0, 2, 0, 0, 0] :=
    ⟨0, 0, 0, [], by decide, by decide, by decide, fun _ => Or.inl rfl, by decide⟩
  have hquery : Replies .plain .clientProtocol41 .comQuery [0x03, 0x78] [[0, 0, 0, 2, 0, 0, 0]] :=
    ⟨by decide, by decide, Or.inl (.last (.ok hok) rfl), by simp, by simp⟩
  have hping : Replies .plain .clientProtocol41 .comPing [0x0e] [[0, 0, 0, 2, 0, 0, 0]] :=
    ⟨by decide, by decide, le_rfl, by simp, by simp⟩
  obtain ⟨c', hrun, hplayed⟩ := @onCom_relays obliging Setup.plain 5 (.bare .clientProtocol41) _ _
    errAccepted_plain ⟨0, 0, chatty⟩
    (.command (by decide) (show obliging _ = ⟨[(1, [0, 0, 0, 2, 0, 0, 0])], false⟩ from rfl) (by decide)
      hquery
      (.command (by decide) (show obliging _ = ⟨[(1, [0, 0, 0, 2, 0, 0, 0])], false⟩ from rfl) (by decide)
        hping
        (.changeUser (by decide) rfl rfl (.again rfl ⟨rfl, rfl⟩ (by decide) (.final rfl (Or.inl rfl)))
          (by decide) (by decide) (.quit (by decide) rfl)))) ⟨rfl, rfl⟩ rfl (by decide)
  refine ⟨c', hrun, ?_, hplayed.inbox⟩
  rw [World.delivered, hplayed.clientLink]
  rfl

/-! ### A session on a pooled connection -/

/-- **A regular session** of the client `v` on the connection `s`: a login, a conversation, and a client
that reads what it is sent. -/
structure Regular (R : Respond) (S : Setup) (fuel : ℕ) (s : Pooled World) (v : Visit) where
  login : Login R (setupFor S v) (seat s v)
  turns : List Turn
  ending : Ending
  peaceful : Peaceful R (setupFor S v) (seat s v)
  conversation : Conversation R (setupFor S v) fuel login.user login.after.conn.net.received 0
    login.after.conn.net.toCome turns ending
  whole : v.writesLeft = none
  enough : turns.length < fuel
  stays : ending ≠ .refused

section Regular
variable {R : Respond} {S : Setup} {fuel : ℕ} {s : Pooled World} {v : Visit}

/-- The login on the client's link. -/
def loginEvents (L : Login R (setupFor S v) (seat s v)) : List Event :=
  [⟨true, (0, initialHandshakePacket (setupFor S v))⟩, ⟨false, L.response⟩,
    ⟨true, (L.response.1 + 1, L.switch.2)⟩, ⟨false, L.answer⟩, ⟨true, L.verdict⟩]

theorem clientLink_after (L : Login R (setupFor S v) (seat s v)) :
    L.after.conn.net.clientLink = loginEvents L := by
  have hopened : L.opened.net.clientLink =
      [⟨true, (0, initialHandshakePacket (setupFor S v))⟩, ⟨false, L.response⟩] := by
    obtain ⟨⟨⟨m, r, p, o, c, _, _, _, hopen⟩, sw, ans, vd, _⟩, _⟩ := L
    change c.net.clientLink = _
    cases hopen <;> rfl
  change L.opened.net.clientLink ++ [_] ++ [_] ++ [_] = _
  rw [hopened]
  rfl

theorem fields_after (L : Login R (setupFor S v) (seat s v)) (hw : v.writesLeft = none) :
    L.after.conn.net.writesLeft = none ∧ L.after.conn.net.clientEnd = v.clientEnd := by
  have hopened : L.opened.net.writesLeft = none ∧ L.opened.net.clientEnd = v.clientEnd := by
    obtain ⟨⟨⟨m, r, p, o, c, _, _, _, hopen⟩, sw, ans, vd, _⟩, _⟩ := L
    have hnone : v.writesLeft.map (· - 1) = none := by rw [hw]; rfl
    cases hopen <;> exact ⟨hnone, rfl⟩
  refine ⟨?_, hopened.2⟩
  change (L.opened.net.writesLeft.map (· - 1)).map (· - 1) = none
  rw [hopened.1]
  rfl

/-- **A regular session on a sound connection** ends as the conversation does. Its client has got the
login and the turns of its own conversation, and the connection is sound again. -/
theorem Regular.run (hmc : ErrAccepted S.mc) (hs : Sound s) (H : Regular R S fuel s v) :
    ∃ s', (connect (net R) (setupFor S v) fuel).run (seat s v) = (H.ending.result v.clientEnd, s') ∧
      s'.conn.net.clientLink = loginEvents H.login ++ H.turns.flatMap Turn.clientSide ∧
      s'.conn.net.backendLink =
        H.login.after.conn.net.backendLink ++ H.turns.flatMap Turn.backendSide ∧
      Sound s' ∧ GivenBack R S fuel s v s' := by
  have hlogin : (authenticate (net R) (setupFor S v)).run (seat s v) =
      (.ok (some H.login.user), H.login.after) := Auth.authenticate_some_iff.mpr ⟨H.login, rfl, rfl⟩
  have hpeace := authenticate_peaceful (s := seat s v) hs H.peaceful
  rw [hlogin] at hpeace
  obtain ⟨-, -, -, hsettled⟩ := hpeace
  obtain ⟨hwhole, hend⟩ := fields_after H.login H.whole
  obtain ⟨c', hrun, hplayed⟩ := run_conversation (S := setupFor S v) hmc H.conversation fuel
    (H.login.after.conn.setSeq .backend 0) ⟨hsettled, rfl, rfl, rfl, hwhole⟩ H.enough
  rw [← run_onCom, show (H.login.after.conn.setSeq .backend 0).net.clientEnd = _ from hend] at hrun
  have hconnect : (connect (net R) (setupFor S v) fuel).run (seat s v) =
      (H.ending.result v.clientEnd, ⟨H.login.after.tag, c'⟩) := by
    rw [run_connect_some hlogin, onConn, Proc.run_zoom, hrun]
  refine ⟨_, hconnect, ?_, hplayed.backendLink, Or.inr ⟨rfl, hplayed.settled H.stays⟩, _, hconnect, ?_, rfl⟩
  · rw [← clientLink_after]
    exact hplayed.clientLink
  · have hne := H.stays
    rcases H.ending with _ | _ | _ <;> simp_all [Ended, Ending.result]

end Regular

end Haentgl.Server.Session
