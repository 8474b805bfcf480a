import Haentgl.Server.Numbers
import Haentgl.Server.Session
import Haentgl.Server.StaticProxy

/-! # The demo server behind the proxy

The demo server speaks the protocol of a backend, so a client may talk to it through the proxy.
`demo_replies_iff` says to which packets it replies as the proxy's forwarders expect: not to a `COM_STMT_CLOSE`,
which it answers and the proxy takes for unanswered, not to the data of a long parameter, which it leaves
unanswered while the proxy waits, and not to a `COM_STMT_FETCH`.

To all others the proxy adds nothing and takes nothing away: the client gets what it would have got from
the server itself (`proxied_eq_direct`). -/

namespace Haentgl.Server.DemoBackend

open Haentgl.Lib.Parse Haentgl.Lib.Program Haentgl.Protocol.Constants Haentgl.Protocol.Io
open Haentgl.Protocol.Packets Haentgl.Protocol.Basic Haentgl.Protocol.Requests Haentgl.Protocol.Writers
open Haentgl.Server.Links Haentgl.Server.Forwarders Haentgl.Server.Proxy Haentgl.Server.Parties
open Haentgl.Server.Responses Haentgl.Server.Commands Haentgl.Server.Lifecycle Haentgl.Server.Session
open Haentgl.Server.StaticProxy
open Haentgl.Protocol.Writer (seqAfter lastSeq lastSeq_of_short seqAfter_of_short)

/-! ### What the forwarders expect -/

/-- The handler replies as a backend does: to a query or an execution with a response, to a preparation
as to a preparation, to a change of the database with one packet. -/
structure Suits (mc : MysqlCommon) (caps : CapabilityFlags) (H : Handler) : Prop where
  query : ∀ calls q, IsResponse caps (H.answer (calls ++ [.query q])).1 ∨
    IsCursor mc caps (H.answer (calls ++ [.query q])).1
  execute : ∀ calls ps, IsResponse caps (H.answer (calls ++ [.execute ps])).1 ∨
    IsCursor mc caps (H.answer (calls ++ [.execute ps])).1
  prepare : ∀ calls s, IsPrepared caps (H.answer (calls ++ [.prepare s])).1
  init : ∀ calls d, (H.answer (calls ++ [.init d])).1.length = 1

/-- The commands to which the server replies as the proxy expects. -/
def Compatible (caps : CapabilityFlags) (com : CommandCode) (p : Packet) : Prop :=
  match com with
  | .comStmtClose | .comStmtFetch => False
  | .comStmtSendLongData => p.length < 7
  | .comFieldList => caps.contains .clientDeprecateEof = true
  | _ => True

/-- The two packets that the server writes itself. -/
def okBytes (header : UInt8) : Packet := [header, 0, 0, 0, 0, 0, 0, 0]

theorem okPayload_default : okPayload .default okDefault = okBytes 0 := by decide +kernel

theorem okPayload_end : okPayload .default { okDefault with header := 0xfe } = okBytes 0xfe := by
  decide +kernel

theorem okBody_okBytes (caps : CapabilityFlags) (header : UInt8) : OkBody caps header 0 (okBytes header) := by
  refine ⟨⟨0, 0, 0, [0], by decide, by decide, by decide, fun _ => Or.inr ⟨[], [], by decide, by decide, ?_⟩, ?_⟩⟩
  · rfl
  · rfl

theorem isResponse_ok (caps : CapabilityFlags) : IsResponse caps [okBytes 0] :=
  .last (.ok (okBody_okBytes caps 0)) rfl

/-- The OK packet with the header of an OK packet ends no row of definitions or rows. -/
theorem not_rowsEnd_ok (caps : CapabilityFlags) (status : Option StatusFlags) :
    ¬ RowsEnd caps (okBytes 0) status := by
  intro h
  rcases status with _ | status
  · exact absurd (errBody_kind h).1 (by decide)
  · simp only [RowsEnd] at h
    split_ifs at h
    · exact absurd (okBody_kind h.1).1 (by decide)
    · exact absurd (isEof_kind h).1 (by decide)

/-- The one with the header of an EOF packet ends them where such packets are in use. -/
theorem rowsEnd_end (caps : CapabilityFlags) :
    (∃ status, RowsEnd caps (okBytes 0xfe) status) ↔ caps.contains .clientDeprecateEof = true := by
  constructor
  · rintro ⟨_ | status, h⟩
    · exact absurd (errBody_kind h).1 (by decide)
    · simp only [RowsEnd] at h
      split_ifs at h with hc
      · exact hc
      · exact absurd (isEof_kind h).1 (by decide)
  · intro hc
    refine ⟨some 0, ?_⟩
    simp only [RowsEnd, if_pos hc]
    exact ⟨okBody_okBytes caps 0xfe, by decide⟩

theorem isTail_singleton {caps : CapabilityFlags} {p : Packet} (h : IsTail caps [p]) :
    ∃ status, RowsEnd caps p status := by
  obtain ⟨items, q, status, -, hend, he⟩ := h
  obtain ⟨-, hq⟩ := List.append_inj' (show [] ++ [p] = items ++ [q] from he) rfl
  obtain rfl := List.singleton_inj.mp hq
  exact ⟨status, hend⟩

section Reply
variable {H : Handler} {mc : MysqlCommon} {caps : CapabilityFlags} {com : CommandCode} {calls : List Call}
  {i : Packet}

theorem reply_error {e : Failure} {p : Packet} (h : fromPacket p = .error e) :
    (reply H .default calls p).2 = [okBytes 0] := by
  rw [reply, h]
  simp only [okPayload_default]

theorem reply_call {p r : Packet} {cmd : Command} {x : Call} (h : fromPacket p = .ok (r, cmd))
    (hx : callOf cmd = some x) : (reply H .default calls p).2 = (H.answer (calls ++ [x])).1 := by
  rw [reply, h]
  simp only [hx]

theorem reply_own {p r : Packet} {cmd : Command} (h : fromPacket p = .ok (r, cmd))
    (hx : callOf cmd = none) : (reply H .default calls p).2 = ownReply .default cmd := by
  rw [reply, h]
  simp only [hx]

/-- The reply to a packet with a code that the server does not know. -/
theorem reply_foreign (h : bodyParser com = none) :
    (reply H .default calls (com.toU8 :: i)).2 = [okBytes 0] :=
  reply_error (fromPacket_unknown (by rw [CommandCode.fromU8_toU8]; exact h))

theorem reply_comStmtExecute (i : Packet) :
    (reply H .default calls (CommandCode.comStmtExecute.toU8 :: i)).2 =
      if 9 ≤ i.length then (H.answer (calls ++ [.execute (i.drop 9)])).1 else [okBytes 0] := by
  have hp := @fromPacket_known .comStmtExecute _ rfl i
  rw [execute_eq] at hp
  split_ifs at hp ⊢ with h9
  · exact reply_call hp rfl
  · exact reply_error hp

theorem reply_comStmtSendLongData (i : Packet) :
    (reply H .default calls (CommandCode.comStmtSendLongData.toU8 :: i)).2 =
      if 6 ≤ i.length then [] else [okBytes 0] := by
  have hp := @fromPacket_known .comStmtSendLongData _ rfl i
  rw [sendLongData_eq] at hp
  split_ifs at hp ⊢ with h6
  · exact reply_own hp rfl
  · exact reply_error hp

theorem reply_comStmtClose (i : Packet) :
    (reply H .default calls (CommandCode.comStmtClose.toU8 :: i)).2 = [okBytes 0] := by
  have hp := @fromPacket_known .comStmtClose _ rfl i
  rcases @bodyParser_cases .comStmtClose _ rfl i with ⟨-, he⟩ | ⟨-, r, cmd, hr, hb⟩
  · exact reply_error (hp.trans he)
  · cases hb
    exact (reply_own (hp.trans hr) rfl).trans (by rw [ownReply, okPayload_default])

theorem expected_generic (h : forwarderOf com = .generic) (ps : List Packet) :
    Expected mc caps com ps ↔ ps.length ≤ 1 := by
  cases com <;> first | exact Iff.rfl | cases h

/-- A reply to a command of the generic forwarder. -/
theorem replies_generic (h : forwarderOf com = .generic) (p : Packet) (ps : List Packet) :
    Replies mc caps com p ps ↔ ps.length = 1 := by
  constructor
  · intro hr
    have hlen := (expected_generic h ps).mp hr.expected
    have hpos := List.length_pos_iff.mpr (hr.waits h)
    omega
  · intro hlen
    refine ⟨?_, ?_, (expected_generic h ps).mpr (by omega), fun _ => ?_, ?_⟩
    · rintro rfl
      cases h
    · rintro rfl
      cases h
    · exact List.length_pos_iff.mp (by omega)
    · rintro rfl
      cases h

/-- A reply to a command of another forwarder. -/
theorem replies_stream (h : forwarderOf com = .query ∨ com = .comStmtPrepare) (p : Packet)
    (ps : List Packet) : Replies mc caps com p ps ↔ Expected mc caps com ps := by
  refine ⟨fun hr => hr.expected, fun he => ⟨?_, ?_, he, fun hgen => ?_, ?_⟩⟩
  · rintro rfl
    rcases h with h | h <;> cases h
  · rintro rfl
    rcases h with h | h <;> cases h
  · rcases h with h | rfl
    · cases hgen.symm.trans h
    · cases hgen
  · rintro rfl
    rcases h with h | h <;> cases h

/-- To a command that the proxy sends on as it came the server
replies as the command's forwarder expects exactly if the command is compatible, whatever calls the
handler has had. -/
theorem replies_cases (hH : Suits mc caps H) {p : Packet} (hcom : commandOf p = some com)
    (hquit : com ≠ .comQuit) (huser : com ≠ .comChangeUser) (calls : List Call) :
    Replies mc caps com p (reply H .default calls p).2 ↔ Compatible caps com p := by
  obtain ⟨hhead, -⟩ := head_of_commandOf hcom
  obtain ⟨i, rfl⟩ := List.head?_eq_some_iff.mp hhead
  -- the code is known to the server, or the reply is an OK packet
  have hforeign : ∀ {c : CommandCode}, forwarderOf c = .generic → bodyParser c = none →
      Replies mc caps c (c.toU8 :: i) (reply H .default calls (c.toU8 :: i)).2 := by
    intro c hgen hnone
    rw [reply_foreign hnone]
    exact (replies_generic hgen _ _).mpr rfl
  cases com
  case comQuit => exact absurd rfl hquit
  case comChangeUser => exact absurd rfl huser
  case comQuery =>
    rw [replies_stream (Or.inl rfl), reply_call (@fromPacket_known .comQuery _ rfl i) rfl]
    exact iff_of_true (hH.query calls i) trivial
  case comStmtPrepare =>
    rw [replies_stream (Or.inr rfl), reply_call (@fromPacket_known .comStmtPrepare _ rfl i) rfl]
    exact iff_of_true (hH.prepare calls i) trivial
  case comInitDB =>
    rw [replies_generic rfl, reply_call (@fromPacket_known .comInitDB _ rfl i) rfl]
    exact iff_of_true (hH.init calls i) trivial
  case comPing =>
    rw [replies_generic rfl, reply_own (@fromPacket_known .comPing _ rfl i) rfl]
    exact iff_of_true rfl trivial
  case comFieldList =>
    rw [replies_stream (Or.inl rfl), reply_own (@fromPacket_known .comFieldList _ rfl i) rfl, ownReply,
      okPayload_end]
    refine ⟨fun h => (rowsEnd_end caps).mp (isTail_singleton h), fun h => ?_⟩
    obtain ⟨status, hend⟩ := (rowsEnd_end caps).mpr h
    exact ⟨[], _, status, by simp, hend, rfl⟩
  case comStmtExecute =>
    rw [replies_stream (Or.inl rfl), reply_comStmtExecute]
    refine iff_of_true ?_ trivial
    split_ifs
    · exact hH.execute calls _
    · exact Or.inl (isResponse_ok caps)
  case comStmtSendLongData =>
    rw [replies_generic rfl, reply_comStmtSendLongData]
    split_ifs with h6
    · exact iff_of_false (by simp) (by simp [Compatible]; omega)
    · exact iff_of_true rfl (by simp [Compatible]; omega)
  case comStmtClose =>
    rw [reply_comStmtClose]
    exact iff_of_false (fun h => absurd h.expected (by simp [Expected])) id
  case comStmtFetch =>
    rw [replies_stream (Or.inl rfl), reply_foreign rfl]
    refine iff_of_false (fun h => ?_) id
    obtain ⟨status, hend⟩ := isTail_singleton h
    exact not_rowsEnd_ok caps status hend
  case comProcessInfo =>
    rw [replies_stream (Or.inl rfl), reply_foreign rfl]
    exact iff_of_true (Or.inl (isResponse_ok caps)) trivial
  all_goals exact iff_of_true (hforeign rfl rfl) trivial

end Reply

/-! ### The server as a backend -/

/-- The mark of a client that is still there. -/
def waiting : IoError := ⟨.notConnected, ""⟩

/-- The server at the start of its command loop, for a client that sends `ms` and stays. -/
def deskOf (ms : List Message) : Conn Desk := ⟨0, 0, ms, some waiting, none, [], 0, []⟩

def loopOn (H : Handler) (b : Profile) (ms : List Message) : Except Stop Unit × Conn Desk :=
  (onCmd desk (handler H) b (ms.length + 1) .default).run (deskOf ms)

/-- What the server has sent when it has read `ms`. -/
def sentAfter (H : Handler) (b : Profile) (ms : List Message) : List Message := (loopOn H b ms).2.net.sent

/-- A message that is written from a number on, as it is read. -/
def asRead (m : Message) : Message := (lastSeq m.1 m.2, m.2)

/-- The server as a backend whose command phase begins behind `n` messages: its reply to the last message
is what it sends now and did not send before, and it hangs up once its loop has ended. -/
def demo (H : Handler) (b : Profile) (n : ℕ) : Respond := fun ms =>
  let heard := (ms.drop n).map asRead
  ⟨((sentAfter H b heard).drop (sentAfter H b heard.dropLast).length).map asRead,
    (loopOn H b heard).1 != .error (.io waiting)⟩

/-- A message that is read in one frame, with a number behind which there is another, and no `COM_QUIT`. -/
structure Usual (b : Profile) (m : Message) : Prop where
  short : m.2.length < maxPayloadLen
  next : addU8 b m.1 1 ≠ none
  stays : isQuit m.2 = false

section Demo
variable {H : Handler} {b : Profile} {ms : List Message} {m : Message}

theorem course_usual {e : Option IoError} : ∀ {ms : List Message}, (∀ m ∈ ms, Usual b m) →
    course b e ms = (ms, [], match e with | none => .ok () | some e => .error (.io e))
  | [], _ => by rfl
  | m :: ms, h => by
    have hm := h m List.mem_cons_self
    rw [course, if_neg (by simpa [Option.isNone_iff_eq_none] using hm.next), if_neg (by simp [hm.stays]),
      course_usual fun x hx => h x (List.mem_cons_of_mem m hx)]

theorem replies_append (flags : CapabilityFlags) : ∀ (ms : List Message) (calls : List Call) (m : Message),
    (replies H flags calls (ms ++ [m])).2 = (replies H flags calls ms).2 ++
      numbered (m.1 + 1) (reply H flags (replies H flags calls ms).1 m.2).2
  | [], calls, m => by simp [replies]
  | x :: ms, calls, m => by
    simp only [List.cons_append, replies]
    rw [replies_append flags ms, List.append_assoc]

theorem loopOn_usual (hH : H.Willing) (h : ∀ m ∈ ms, Usual b m) :
    (loopOn H b ms).1 = .error (.io waiting) ∧ sentAfter H b ms = (replies H .default [] ms).2 := by
  obtain ⟨c', hrun, hdone⟩ := @run_loop H b .default hH ms (ms.length + 1) (deskOf ms) rfl rfl (by omega)
  have hcourse : course b (deskOf ms).net.clientEnd ms = (ms, [], .error (.io waiting)) := course_usual h
  rw [sentAfter, loopOn, hrun, hcourse]
  refine ⟨rfl, ?_⟩
  rw [hdone.sent, show (deskOf ms).net.toCome = ms from rfl, hcourse]
  rfl

theorem asRead_of_short (h : m.2.length < maxPayloadLen) : asRead m = m := by
  rw [asRead, lastSeq_of_short h]

theorem map_asRead (h : ∀ m ∈ ms, m.2.length < maxPayloadLen) : ms.map asRead = ms :=
  (List.map_congr_left fun m hm => asRead_of_short (h m hm)).trans (List.map_id ms)

/-- **The reply of the server** to a message, behind messages of the command phase. -/
theorem demo_reply (hH : H.Willing) (pre : List Message) (h : ∀ x ∈ ms ++ [m], Usual b x) :
    demo H b pre.length (pre ++ (ms ++ [m])) =
      ⟨(numbered (m.1 + 1) (reply H .default (replies H .default [] ms).1 m.2).2).map asRead, false⟩ := by
  have hms : ∀ x ∈ ms, Usual b x := fun x hx => h x (by simp [hx])
  have hheard : ((pre ++ (ms ++ [m])).drop pre.length).map asRead = ms ++ [m] := by
    rw [List.drop_left]
    exact map_asRead fun x hx => (h x hx).short
  rw [demo, hheard, List.dropLast_concat, (loopOn_usual hH h).1, (loopOn_usual hH h).2,
    (loopOn_usual hH hms).2, replies_append, List.drop_left]
  simp

theorem map_snd_numbered : ∀ (q : UInt8) (ps : List Packet), (numbered q ps).map Prod.snd = ps
  | _, [] => rfl
  | q, p :: ps => by rw [numbered, List.map_cons, map_snd_numbered]

/-- **Which replies the proxy expects.** In its command phase, whatever it has replied to before, the
server replies to a command that the proxy sends on as it came just as the forwarder of the command
expects if the command is compatible, and otherwise not. -/
theorem demo_replies_iff {mc : MysqlCommon} {caps : CapabilityFlags} {com : CommandCode} (hH : H.Willing)
    (hs : Suits mc caps H) (pre : List Message) (h : ∀ x ∈ ms ++ [m], Usual b x) (hcom : commandOf m.2 = some com)
    (huser : com ≠ .comChangeUser) :
    Replies mc caps com m.2 ((demo H b pre.length (pre ++ (ms ++ [m]))).packets.map Prod.snd) ↔
      Compatible caps com m.2 := by
  have hquit : com ≠ .comQuit := by
    rintro rfl
    have hstays := (h m (by simp)).stays
    rw [isQuit, (head_of_commandOf hcom).1] at hstays
    simp at hstays
  have hsnd : ∀ l : List Message, (l.map asRead).map Prod.snd = l.map Prod.snd := fun l => by
    rw [List.map_map]
    rfl
  rw [demo_reply hH pre h, hsnd, map_snd_numbered]
  exact replies_cases hs hcom hquit huser _

end Demo

/-! ### A client at the server, through the proxy -/

/-- A handler that writes its replies without an error, at most `n` packets of one frame. -/
structure Modest (n : ℕ) (H : Handler) : Prop where
  willing : H.Willing
  short : ∀ calls, ∀ p ∈ (H.answer calls).1, p.length < maxPayloadLen
  few : ∀ calls, (H.answer calls).1.length ≤ n

/-- A command that the proxy relays, with its reply. -/
structure Relayed (b : Profile) (caps : CapabilityFlags) (m : Message) : Prop where
  usual : Usual b m
  room : b = .dev → m.1.toNat < 254
  compatible : ∃ com, commandOf m.2 = some com ∧ com ≠ .comChangeUser ∧ Compatible caps com m.2

/-- The turns of a conversation with the server. -/
def turnsOf (H : Handler) : List Call → List Message → List Turn
  | _, [] => []
  | calls, m :: ms =>
    .command m (numbered (m.1 + 1) (reply H .default calls m.2).2) ::
      turnsOf H (reply H .default calls m.2).1 ms

section Proxied
variable {H : Handler} {b : Profile} {S : Setup} {fuel : ℕ} {h : HandshakeResponse} {ms : List Message}

theorem reply_modest (hH : Modest fuel H) (hf : 0 < fuel) (calls : List Call) (p : Packet) :
    (∀ x ∈ (reply H .default calls p).2, x.length < maxPayloadLen) ∧
      (reply H .default calls p).2.length ≤ fuel := by
  have hok : ∀ x, (∀ y ∈ [okBytes x], y.length < maxPayloadLen) ∧ [okBytes x].length ≤ fuel :=
    fun x => ⟨by simp [okBytes, maxPayloadLen], hf⟩
  rcases hp : fromPacket p with e | ⟨r, cmd⟩
  · rw [reply_error hp]
    exact hok 0
  rcases hx : callOf cmd with _ | x
  · rw [reply_own hp hx]
    cases cmd <;> simp only [ownReply, okPayload_default, okPayload_end] <;>
      first | exact hok _ | exact ⟨by simp, Nat.zero_le _⟩
  · rw [reply_call hp hx]
    exact ⟨hH.short _, hH.few _⟩

theorem mem_numbered : ∀ {q : UInt8} {ps : List Packet} {m : Message}, m ∈ numbered q ps → m.2 ∈ ps
  | _, [], _, h => by cases h
  | q, p :: ps, m, h => by
    rcases List.mem_cons.mp h with rfl | h
    · exact List.mem_cons_self
    · exact List.mem_cons_of_mem p (mem_numbered h)

theorem length_numbered (q : UInt8) (ps : List Packet) : (numbered q ps).length = ps.length := by
  rw [← List.length_map Prod.snd, map_snd_numbered]

theorem length_turnsOf : ∀ (calls : List Call) (ms : List Message), (turnsOf H calls ms).length = ms.length
  | _, [] => rfl
  | calls, m :: ms => by rw [turnsOf, List.length_cons, length_turnsOf, List.length_cons]

/-- What the client gets in these turns is what the server sends. -/
theorem sent_turnsOf : ∀ (calls : List Call) (ms : List Message),
    sent true ((turnsOf H calls ms).flatMap Turn.clientSide) = (replies H .default calls ms).2
  | _, [] => rfl
  | calls, m :: ms => by
    have ih := sent_turnsOf (reply H .default calls m.2).1 ms
    simp only [sent] at ih
    simp only [turnsOf, replies, List.flatMap_cons, Turn.clientSide, sent, List.filter_append,
      List.map_append, ih]
    congr 1
    simp [List.filter_map, Function.comp_def]

theorem calls_append (flags : CapabilityFlags) : ∀ (ms : List Message) (calls : List Call) (m : Message),
    (replies H flags calls (ms ++ [m])).1 = (reply H flags (replies H flags calls ms).1 m.2).1
  | [], calls, m => by simp [replies]
  | x :: ms, calls, m => by
    simp only [List.cons_append, replies]
    rw [calls_append flags ms]

/-- The number behind the last message to the server. -/
def behind (q : UInt8) (ms : List Message) : UInt8 := ms.foldl (fun _ m => seqAfter m.1 m.2) q

/-- The commands, and what ends them, make up a conversation. -/
theorem conversation_demo (hH : Modest fuel H) (hs : Suits S.mc h.clientFlag H) (hf : 0 < fuel)
    (pre : List Message) {rest : List Message} {ts : List Turn} {fin : Ending} :
    ∀ (cs ms : List Message) (q : UInt8), (∀ x ∈ ms ++ cs, Relayed b h.clientFlag x) →
      Conversation (demo H b pre.length) S fuel h (pre ++ (ms ++ cs)) (behind q cs) rest ts fin →
      Conversation (demo H b pre.length) S fuel h (pre ++ ms) q (cs ++ rest)
        (turnsOf H (replies H .default [] ms).1 cs ++ ts) fin
  | [], ms, q, _, hend => by simpa [behind, turnsOf] using hend
  | m :: cs, ms, q, hcs, hend => by
    have hm := hcs m (by simp)
    obtain ⟨com, hcom, huser, hcompatible⟩ := hm.compatible
    have husual : ∀ x ∈ ms ++ [m], Usual b x := fun x hx => (hcs x (by
      rcases List.mem_append.mp hx with hx | hx
      · simp [hx]
      · simp [List.mem_singleton.mp hx])).usual
    obtain ⟨hshort, hfew⟩ := reply_modest hH hf (replies H .default [] ms).1 m.2
    have hreply := demo_reply (b := b) hH.willing pre husual
    rw [map_asRead fun x hx => hshort x.2 (mem_numbered hx)] at hreply
    have hquit : com ≠ .comQuit := by
      rintro rfl
      have hstays := hm.usual.stays
      rw [isQuit, (head_of_commandOf hcom).1] at hstays
      simp at hstays
    rw [List.cons_append, turnsOf, List.cons_append]
    refine .command hcom ?_ (by rw [length_numbered]; exact hfew) ?_ ?_
    · rw [List.append_assoc]
      exact hreply
    · rw [map_snd_numbered]
      exact (replies_cases hs hcom hquit huser _).mpr hcompatible
    · have hstep := conversation_demo hH hs hf pre cs (ms ++ [m]) (seqAfter m.1 m.2)
        (fun x hx => hcs x (by simpa using hx)) (by simpa [behind] using hend)
      rw [calls_append] at hstep
      simpa using hstep

/-- The end of a session at the server: the client is gone, or it sends a `COM_QUIT`, for which the
server gets a reset of the connection. -/
theorem exists_ending {pre : List Message} (hH : H.Willing) (hms : ∀ x ∈ ms, Relayed b h.clientFlag x)
    {rest : List Message} (hrest : rest = [] ∨ ∃ m more, rest = m :: more ∧ isQuit m.2 = true) :
    ∃ t fin, Conversation (demo H b pre.length) S fuel h (pre ++ ms) (behind 0 ms) rest t fin ∧
      t.length ≤ 1 ∧ sent true (t.flatMap Turn.clientSide) = [] ∧
        (if rest = [] then fin = .gone else fin = .quit) := by
  rcases hrest with rfl | ⟨m, more, rfl, hquit⟩
  · exact ⟨[], .gone, .gone, Nat.zero_le _, rfl, by simp⟩
  set q := behind 0 ms with hq
  have hcom : commandOf m.2 = some .comQuit := by
    rw [commandOf, beq_iff_eq.mp hquit]
    rfl
  have hroom : b = .dev → q.toNat < 255 := by
    intro hb
    rcases List.eq_nil_or_concat ms with rfl | ⟨front, x, rfl⟩
    · rw [hq]
      decide
    · have hx := hms x (by simp)
      have hne : x.2 ≠ [] := by
        obtain ⟨com, hcom, -, -⟩ := hx.compatible
        intro hnil
        rw [commandOf, hnil] at hcom
        cases hcom
      have hlt := hx.room hb
      have hnum : q = x.1 + 1 := by
        rw [hq, behind, List.concat_eq_append, List.foldl_append]
        exact seqAfter_of_short hne hx.usual.short
      rw [hnum, UInt8.toNat_add, show (1 : UInt8).toNat = 1 from rfl]
      omega
  have hreset : Usual b (q, resetConnection) := by
    refine ⟨show resetConnection.length < maxPayloadLen by decide, ?_,
      show isQuit resetConnection = false by decide⟩
    unfold addU8
    split_ifs with hov
    · have h255 := hroom hov.1
      have hsum : 256 ≤ q.toNat + 1 := hov.2
      omega
    · simp
  have hreply := demo_reply (b := b) (m := (q, resetConnection)) hH pre (fun x hx => by
    rcases List.mem_append.mp hx with hx | hx
    · exact (hms x hx).usual
    · rw [List.mem_singleton.mp hx]
      exact hreset)
  have hforeign : (reply H .default (replies H .default [] ms).1 resetConnection).2 = [okBytes 0] :=
    @reply_foreign H .comResetConnection _ _ rfl
  rw [hforeign, ← List.append_assoc] at hreply
  exact ⟨_, .quit, .quit hcom hreply, by simp, rfl, by simp⟩

/-- **Through the proxy and without it.** A client sends commands that the server and the proxy understand
alike, any number of them, and then goes away or quits. Through the proxy it gets exactly the packets
that the server sends to a client of its own for the same commands, in the same order and with the same
numbers, and the loop ends as the client ended. -/
theorem proxied_eq_direct (hmc : ErrAccepted S.mc) (hH : Modest fuel H) (hs : Suits S.mc h.clientFlag H)
    {c : Conn World} {rest : List Message} (hw : Settled c.net) (hwhole : c.net.writesLeft = none)
    (htc : c.net.toCome = ms ++ rest) (hms : ∀ x ∈ ms, Relayed b h.clientFlag x)
    (hrest : rest = [] ∨ ∃ m more, rest = m :: more ∧ isQuit m.2 = true)
    (hfuel : ms.length + 1 < fuel) :
    ∃ c', (onCom (net (demo H b c.net.received.length)) S fuel h).run c =
        ((if rest = [] then Ending.gone else .quit).result c.net.clientEnd, c') ∧
      c'.net.delivered = c.net.delivered ++ sentAfter H b ms ∧ Settled c'.net := by
  obtain ⟨t, fin, hend, ht, hsent, hfin⟩ :=
    @exists_ending H b S fuel h ms c.net.received hH.willing hms rest hrest
  have hconv := conversation_demo hH hs (by omega) c.net.received ms [] 0 (by simpa using hms)
    (by simpa using hend)
  rw [List.append_nil, ← htc] at hconv
  obtain ⟨c', hrun, hplayed⟩ := run_conversation hmc hconv fuel (c.setSeq .backend 0)
    ⟨hw, rfl, rfl, rfl, hwhole⟩ (by rw [List.length_append, length_turnsOf]; omega)
  have hfin' : fin = if rest = [] then Ending.gone else .quit := by
    split_ifs at hfin ⊢ <;> exact hfin
  refine ⟨c', ?_, ?_, hplayed.settled ?_⟩
  · rw [← hfin']
    exact hrun
  · have hlink := hplayed.clientLink
    rw [List.flatMap_append] at hlink
    rw [World.delivered, hlink, (loopOn_usual hH.willing fun x hx => (hms x hx).usual).2,
      ← sent_turnsOf [] ms]
    simp only [sent, List.filter_append, List.map_append] at hsent ⊢
    rw [hsent, List.append_nil]
    rfl
  · rw [hfin']
    split_ifs <;> simp

end Proxied

/-- A handler that answers every call with the same error. -/
def failing : Handler :=
  ⟨fun _ => .ok true, fun _ => ([[0xff, 1, 0, 0x23, 0x48, 0x59, 0x30, 0x30, 0x30]], .ok ())⟩

theorem errBody_failing : ErrBody [0xff, 1, 0, 0x23, 0x48, 0x59, 0x30, 0x30, 0x30] :=
  ⟨1, [0x48, 0x59, 0x30, 0x30, 0x30], [], by decide, rfl, rfl⟩

theorem suits_failing (mc : MysqlCommon) (caps : CapabilityFlags) : Suits mc caps failing where
  query _ _ := Or.inl (.last (.err errBody_failing) rfl)
  execute _ _ := Or.inl (.last (.err errBody_failing) rfl)
  prepare _ _ := Or.inl ⟨_, errBody_failing, rfl⟩
  init _ _ := rfl

theorem modest_failing : Modest 5 failing where
  willing _ := rfl
  short _ p hp := by
    rw [List.mem_singleton.mp hp]
    decide
  few _ := show 1 ≤ 5 by decide

/-- Short packets with small numbers. -/
theorem relayed_short {caps : CapabilityFlags} {m : Message} {com : CommandCode}
    (hcom : commandOf m.2 = some com) (hquit : com ≠ .comQuit) (huser : com ≠ .comChangeUser)
    (hc : Compatible caps com m.2) (hseq : m.1 = 0) (hlen : m.2.length < maxPayloadLen) :
    Relayed .dev caps m := by
  refine ⟨⟨hlen, by rw [hseq]; decide, ?_⟩, fun _ => by rw [hseq]; decide, com, hcom, huser, hc⟩
  by_contra hq
  have hq' : isQuit m.2 = true := by simpa using hq
  rw [commandOf, beq_iff_eq.mp hq'] at hcom
  exact hquit (Option.some.inj hcom).symm

/-- After a query the server answers the close of a statement, which the proxy does not expect. -/
theorem demo_replies_iff_close :
    ¬ Replies .plain .default .comStmtClose [0x19, 1, 0, 0, 0]
      ((demo failing .dev 0 [(0, [0x03]), (0, [0x19, 1, 0, 0, 0])]).packets.map Prod.snd) := by
  have husual : ∀ x ∈ [(0, [0x03])] ++ [((0 : UInt8), ([0x19, 1, 0, 0, 0] : Packet))], Usual .dev x := by
    intro x hx
    rcases List.mem_append.mp hx with hx | hx
    all_goals
      rw [List.mem_singleton.mp hx]
      exact ⟨by decide, by decide, by decide⟩
  have hiff := @demo_replies_iff failing .dev [(0, [0x03])] (0, [0x19, 1, 0, 0, 0]) .plain .default .comStmtClose
    (fun _ => rfl) (suits_failing .plain .default) [] husual rfl (by decide)
  exact fun h => hiff.mp h

/-- A client that sends a query and a ping and quits. -/
def brief : World :=
  ⟨[(0, [0x03, 0x78]), (0, [0x0e]), (0, [0x01])], none, none, [], .command, 0, [], []⟩

theorem proxied_eq_direct_brief : ∃ c',
    (onCom (net (demo failing .dev 0)) .plain 5 (.bare .clientProtocol41)).run ⟨0, 0, brief⟩ = (.ok (), c') ∧
      c'.net.delivered = sentAfter failing .dev [(0, [0x03, 0x78]), (0, [0x0e])] ∧
      c'.net.delivered.length = 2 := by
  have hms : ∀ x ∈ [((0 : UInt8), ([0x03, 0x78] : Packet)), (0, [0x0e])],
      Relayed .dev CapabilityFlags.clientProtocol41 x := by
    intro x hx
    rcases List.mem_cons.mp hx with rfl | hx
    · exact @relayed_short _ _ .comQuery rfl (by decide) (by decide) trivial rfl (by decide)
    · rw [List.mem_singleton.mp hx]
      exact @relayed_short _ _ .comPing rfl (by decide) (by decide) trivial rfl (by decide)
  obtain ⟨c', hrun, hdelivered, -⟩ := @proxied_eq_direct failing .dev .plain 5 (.bare .clientProtocol41)
    _ errAccepted_plain modest_failing (suits_failing _ _) ⟨0, 0, brief⟩ [(0, [0x01])] ⟨rfl, rfl⟩ rfl rfl hms
    (Or.inr ⟨_, _, rfl, rfl⟩) (by decide)
  refine ⟨c', hrun, hdelivered, ?_⟩
  rw [hdelivered]
  rfl

end Haentgl.Server.DemoBackend
