import Haentgl.Protocol.Sockets
import Haentgl.Server.Levels
import Haentgl.Server.Relay
import Haentgl.Server.Session

/-! # The server on byte streams

The links as they really are, with the two parties at their other ends. The client is its bytes and what
comes behind them. The backend reads the proxy's frames, puts them together to messages and answers every
message with bytes, which go behind those that are not read yet. All bytes are read and written in pieces
of any length.

`Carries` is how the packets of `Haentgl.Server.Parties` lie in these streams, and with it a session on
the streams does what the same session does on the packets (`connect_streams`): nothing depends on the
pieces. What the writer cannot close is excluded by `AllWhole`, see `Haentgl.Protocol.Writer`. -/

namespace Haentgl.Server.Streams

open Haentgl.Lib.Parse Haentgl.Lib.Program Haentgl.Lib.Simulation Haentgl.Protocol.Constants
open Haentgl.Protocol.Io Haentgl.Protocol.Packets Haentgl.Protocol.Basic Haentgl.Protocol.Reader
open Haentgl.Protocol.Sockets Haentgl.Server.Links Haentgl.Server.Forwarders Haentgl.Server.Proxy
open Haentgl.Server.Parties Haentgl.Server.Levels Haentgl.Server.Relay Haentgl.Server.Session
open Haentgl.Server.Responses (ErrAccepted)
open Haentgl.Server.Commands (Settled)
open Haentgl.Server.Auth (hello okVerdict)
open Haentgl.Server.Pool (patient eofCaps)
open Haentgl.Protocol.Writer (written sinkAfter messageFrames Closed packet_messageFrames)
open Haentgl.Protocol.Sockets (Holds holds_new)
open Haentgl.Lib.Program.Proc (Keeps)

/-! ### The two parties -/

/-- What the backend sends for a message. -/
structure Answer where
  bytes : Bytes
  hangUp : Bool
  deriving DecidableEq, Repr

/-- A backend: its answer to the last of the messages it has read. -/
abbrev Answers := List Message → Answer

/-- A message that was written from a number on, as it is read. -/
def arrived (m : Message) : Message := (readSeq m, m.2)

/-- An answer, packet by packet. -/
def Answer.reply (b : Profile) (a : Answer) : Reply := ⟨(whileOk (packet b) a.bytes).1, a.hangUp⟩

/-- The same backend, packet by packet. -/
def respond (b : Profile) (A : Answers) : Respond := fun ms => (A (ms.map arrived)).reply b

/-- What a read behind the last byte of a backend does. -/
def behind (ph : Phase) : Option Stop := if ph = .closed then none else some (.blocked .backend)

/-- The proxy's readers and the sockets under them, the bytes it has written, the phase of the backend, how
many messages its socket still takes once it has hung up, and how many messages it has dealt with. -/
structure Ends where
  readers : Side → PacketReader × Socket
  sinks : Side → Sink
  phase : Phase
  lingering : ℕ
  answered : ℕ

section Model
variable (b : Profile) (A : Answers)

/-- The backend answers the message `m` behind `ms`, unless it has hung up. -/
def Ends.answer (x : Ends) (ms : List Message) (m : Message) : Ends :=
  let a := A (ms ++ [m])
  let bytes := if x.phase = .closed then [] else a.bytes
  let ph := x.phase.after m.2 (a.reply b)
  { x with
    readers := Function.update x.readers .backend
      ((x.readers .backend).1, (x.readers .backend).2.extend bytes (behind ph))
    phase := ph
    lingering := if x.phase = .closed then x.lingering - 1 else x.lingering
    answered := x.answered + 1 }

def Ends.answerAll : List Message → List Message → Ends → Ends
  | _, [], x => x
  | ms, m :: new, x => Ends.answerAll (ms ++ [m]) new (x.answer b A ms m)

/-- The backend reads what has been written to it, and answers what is new. -/
def Ends.serve (x : Ends) : Ends :=
  let ms := (whileOk (packet .release) (x.sinks .backend).out).1
  Ends.answerAll b A (ms.take x.answered) (ms.drop x.answered) x

def onReader {α : Type} (side : Side) (p : Proc Stop (PacketReader × Socket) α) : Proc Stop Ends α :=
  Proc.zoom (fun x => x.readers side)
    (fun r x => { x with readers := Function.update x.readers side r }) p

def onSink {α : Type} (side : Side) (p : Proc Stop Sink α) : Proc Stop Ends α :=
  Proc.zoom (fun x => x.sinks side) (fun k x => { x with sinks := Function.update x.sinks side k }) p

/-- The links, byte by byte. A call of `next_async` gets a round for every byte and one more. -/
def streams : Net Ends where
  next side := do
    let x ← Proc.get
    onReader side (nextAsync b Socket.asyncRead ((x.readers side).2.source.stream.length + 1))
  send
    | .client, q, p => onSink .client (endPacketOn q p)
    | .backend, q, p => do
      let x ← Proc.get
      if x.phase = .closed ∧ x.lingering = 0 then Proc.stop brokenPipe
      else
        onSink .backend (endPacketOn q p)
        Proc.modify (Ends.serve b A)
  flush _ := pure ()

end Model

/-! ### Messages in a stream -/

/-- A reader and its socket hold the messages `ms`, and behind them the bytes `u`. -/
structure Held (b : Profile) (x : PacketReader × Socket) (ms : List Message) (u : Bytes) : Prop where
  holds : ∃ i, Holds x i ∧ whileOk (packet b) i = (ms, u)
  sound : packet b u ≠ .error .panic
  clean : Clean b x.2.last u

section Held
variable {b : Profile} {x : PacketReader × Socket} {ms : List Message} {m : Message} {u : Bytes}

/-- A call takes the first message. -/
theorem Held.next_cons (h : Held b x (m :: ms) u) : ∃ x',
    (nextAsync b Socket.asyncRead (x.2.source.stream.length + 1)).run x = (.ok (some m), x') ∧
      Held b x' ms u ∧ x'.2.last = x.2.last := by
  obtain ⟨i, hi, hms⟩ := h.holds
  obtain ⟨r, hpi, hr⟩ := whileOk_eq_cons (consuming_packet b) hms
  have hclean : Clean b x.2.last i := fun he => by rw [hpi] at he; cases he
  obtain ⟨x', hrun, hx', hlast⟩ := run_nextAsync_socket hi (by rw [hpi]; simp) hclean
  rw [outcome_ok hpi] at hrun
  rw [result, hpi] at hx'
  exact ⟨x', hrun, ⟨⟨r, hx', hr⟩, h.sound, hlast ▸ h.clean⟩, hlast⟩

/-- A call behind the last message. -/
theorem Held.next_nil (h : Held b x [] u) : ∃ x',
    (nextAsync b Socket.asyncRead (x.2.source.stream.length + 1)).run x = (outcome b x.2.last u, x') ∧
      Held b x' [] u ∧ x'.2.last = x.2.last := by
  obtain ⟨i, hi, hms⟩ := h.holds
  obtain ⟨rfl, e, he⟩ := whileOk_eq_nil (consuming_packet b) hms
  obtain ⟨x', hrun, hx', hlast⟩ := run_nextAsync_socket hi h.sound h.clean
  rw [result, he] at hx'
  exact ⟨x', hrun, ⟨⟨_, hx', hms⟩, h.sound, hlast ▸ h.clean⟩, hlast⟩

/-- More messages arrive behind whole ones. -/
theorem Held.extend {pr : PacketReader} {k : Socket} (h : Held b (pr, k) ms []) {i : Bytes}
    (hi : (whileOk (packet b) i).2 = []) (last : Option Stop) :
    Held b (pr, k.extend i last) (ms ++ (whileOk (packet b) i).1) [] := by
  obtain ⟨j, hj, hms⟩ := h.holds
  refine ⟨⟨j ++ i, hj.extend i last, ?_⟩, h.sound, fun _ => Or.inr rfl⟩
  rw [whileOk_append (consuming_packet b) (stable_packet b) j i (by rw [hms]), hms, hi]

end Held

/-- What was written as messages is read as messages. -/
theorem whileOk_stream : ∀ ms : List Message,
    whileOk (packet .release) (stream ms) = (ms.map arrived, [])
  | [] => rfl
  | m :: ms => by
    have hp := packet_messageFrames .release m.1 m.2 (stream ms)
    rw [if_pos (show Protocol.Writer.NoWrap .release m.1 m.2 from fun h => by cases h)] at hp
    have hstream : stream (m :: ms) = wire (messageFrames m.1 m.2) ++ stream ms := by simp [stream]
    rw [hstream, whileOk_ok (consuming_packet _) hp, whileOk_stream ms]
    rfl

theorem stream_append (ms ns : List Message) : stream (ms ++ ns) = stream ms ++ stream ns :=
  List.flatMap_append

/-- A payload that the writer closes, whatever the socket takes of it at first. -/
def Whole (p : Packet) : Prop := p = [] ∨ p.length % maxPayloadLen ≠ 0

instance (p : Packet) : Decidable (Whole p) := inferInstanceAs (Decidable (_ ∨ _))

/-- All messages that the proxy has sent are whole. -/
def AllWhole (w : World) : Prop := ∀ m ∈ w.delivered ++ w.received, Whole m.2

instance (w : World) : Decidable (AllWhole w) :=
  inferInstanceAs (Decidable (∀ m ∈ w.delivered ++ w.received, Whole m.2))

/-- The socket takes a header at once. -/
def TakesHeaders (k : Sink) : Prop := ∀ n, packetHeaderLen ≤ k.accept n packetHeaderLen

theorem Whole.closed {p : Packet} (h : Whole p) {k : Sink} (hk : TakesHeaders k) : Closed k p := by
  unfold Closed
  split_ifs with hp
  · exact hk _
  · exact h.resolve_left hp

/-- What goes out for a whole message. -/
theorem out_sinkAfter {k : Sink} {q : UInt8} {p : Packet} {ms : List Message} (hout : k.out = stream ms)
    (hp : Whole p) (hk : TakesHeaders k) : (sinkAfter k q p).out = stream (ms ++ [(q, p)]) := by
  rw [stream_append, sinkAfter, hout, written_messageFrames (hp.closed hk)]
  simp [stream]

/-! ### The packets in the streams -/

/-- How a world of packets lies in the streams. -/
structure Carries (b : Profile) (x : Ends) (w : World) : Prop where
  client : ∃ u, Held b (x.readers .client) w.toCome u ∧
    outcome b (x.readers .client).2.last u = w.clientEnd.elim (.ok none) fun e => .error (.io e)
  backend : Held b (x.readers .backend) w.inbox []
  last : (x.readers .backend).2.last = behind w.phase
  delivered : (x.sinks .client).out = stream w.delivered
  received : (x.sinks .backend).out = stream w.received
  heads : ∀ side, TakesHeaders (x.sinks side)
  whole : w.writesLeft = none
  phase : x.phase = w.phase
  lingering : x.lingering = w.lingering
  answered : x.answered = w.received.length

section Steps
variable {b : Profile} {A : Answers} {x : Ends} {w : World}

theorem run_onSink (side : Side) (q : UInt8) (p : Packet) (x : Ends) :
    (onSink side (endPacketOn q p)).run x = (.ok (),
      { x with sinks := Function.update x.sinks side (sinkAfter (x.sinks side) q p) }) := by
  have h : (endPacketOn q p).run (x.sinks side) = (.ok (), sinkAfter (x.sinks side) q p) := by
    change (_, _) = _
    rw [Protocol.Writer.run_endPacket]
  simp only [onSink, Proc.run_zoom, h]

theorem run_next {side : Side} {r : Except Stop (Option Message)} {z : PacketReader × Socket}
    (h : (nextAsync b Socket.asyncRead ((x.readers side).2.source.stream.length + 1)).run
      (x.readers side) = (r, z)) :
    ((streams b A).next side).run x = (r, { x with readers := Function.update x.readers side z }) := by
  change (Proc.get >>= fun x => onReader side _).run x = _
  rw [Proc.run_bind_ok (Proc.run_get x), onReader, Proc.run_zoom, h]

theorem stays_next {R : Respond} (side : Side) : Keeps (fun w => ¬ AllWhole w) ((net R).next side) := by
  refine keeps_next (R := R) (fun w m _ _ hw => ?_) (fun w m _ _ hw => ?_) side
  · simpa [AllWhole, World.hear, World.delivered, World.received, sent] using hw
  · simpa [AllWhole, World.take, World.delivered, World.received, sent] using hw

/-- The client's next packet. -/
theorem simulates_readClient : Simulates (Carries b) AllWhole ((streams b A).next .client)
    ((net (respond b A)).next .client) := by
  refine ⟨fun {x w} hC _ => ?_, stays_next .client⟩
  change _ = (readClient.run w).1 ∧ Carries b _ (readClient.run w).2
  obtain ⟨u, hheld, hend⟩ := hC.client
  rcases htc : w.toCome with _ | ⟨m, ms⟩
  · rw [htc] at hheld
    obtain ⟨z, hrun, hz, hlast⟩ := hheld.next_nil
    rw [run_next hrun, run_readClient_nil htc]
    refine ⟨hend, ⟨u, ?_, ?_⟩, hC.backend, hC.last, hC.delivered, hC.received, hC.heads, hC.whole,
      hC.phase, hC.lingering, hC.answered⟩
    · rw [htc]
      exact hz
    · exact (congrArg (fun l => outcome b l u) hlast).trans hend
  · rw [htc] at hheld
    obtain ⟨z, hrun, hz, hlast⟩ := hheld.next_cons
    rw [run_next hrun, run_readClient_cons htc]
    refine ⟨rfl, ⟨u, ?_, ?_⟩, hC.backend, hC.last, ?_, hC.received, hC.heads, hC.whole, hC.phase,
      hC.lingering, hC.answered⟩
    · rw [World.hear, htc]
      exact hz
    · exact (congrArg (fun l => outcome b l u) hlast).trans hend
    · simpa [World.hear, World.delivered, sent] using hC.delivered

/-- The backend's next packet. -/
theorem simulates_readBackend : Simulates (Carries b) AllWhole ((streams b A).next .backend)
    ((net (respond b A)).next .backend) := by
  refine ⟨fun {x w} hC _ => ?_, stays_next .backend⟩
  change _ = (readBackend.run w).1 ∧ Carries b _ (readBackend.run w).2
  have hheld := hC.backend
  rcases hin : w.inbox with _ | ⟨m, ms⟩
  · rw [hin] at hheld
    obtain ⟨z, hrun, hz, hlast⟩ := hheld.next_nil
    rw [run_next hrun, run_readBackend_nil hin]
    refine ⟨?_, hC.client, ?_, hlast.trans hC.last, hC.delivered, hC.received, hC.heads, hC.whole,
      hC.phase, hC.lingering, hC.answered⟩
    · rw [hC.last, behind]
      split_ifs
      · exact outcome_none (packet_nil b)
      · exact outcome_some (packet_nil b)
    · rw [hin]
      exact hz
  · rw [hin] at hheld
    obtain ⟨z, hrun, hz, hlast⟩ := hheld.next_cons
    rw [run_next hrun, run_readBackend_cons hin]
    refine ⟨rfl, hC.client, ?_, hlast.trans hC.last, hC.delivered, ?_, hC.heads, hC.whole, hC.phase,
      hC.lingering, ?_⟩
    · rw [World.take, hin]
      exact hz
    · rw [World.received_take]
      exact hC.received
    · rw [World.received_take]
      exact hC.answered

theorem takesHeaders_update (h : ∀ side, TakesHeaders (x.sinks side)) (side : Side) (q : UInt8)
    (p : Packet) (s : Side) :
    TakesHeaders (Function.update x.sinks side (sinkAfter (x.sinks side) q p) s) := by
  by_cases hs : s = side
  · rw [hs, Function.update_self]
    exact h side
  · rw [Function.update_of_ne hs]
    exact h s

/-- A packet for the client. -/
theorem simulates_writeClient (q : UInt8) (p : Packet) :
    Simulates (Carries b) AllWhole ((streams b A).send .client q p)
      ((net (respond b A)).send .client q p) := by
  refine ⟨fun {x w} hC hG => ?_, keeps_sendClient (R := respond b A) (fun w m hw hG => hw fun n hn => ?_) q p⟩
  · change AllWhole ((writeClient (q, p)).run w).2 at hG
    change _ = ((writeClient (q, p)).run w).1 ∧ Carries b _ ((writeClient (q, p)).run w).2
    rw [run_writeClient (by rw [hC.whole]; simp)] at hG ⊢
    have hdelivered : (w.deliver (q, p)).delivered = w.delivered ++ [(q, p)] := by
      simp [World.delivered, World.deliver, sent]
    have hp : Whole p := hG (q, p) (by rw [hdelivered]; simp)
    change _ = _ ∧ Carries b ((onSink .client (endPacketOn q p)).run x).2 _
    rw [run_onSink]
    refine ⟨congrArg Prod.fst (run_onSink .client q p x), hC.client, hC.backend, hC.last, ?_, hC.received,
      takesHeaders_update hC.heads .client q p, ?_, hC.phase, hC.lingering, hC.answered⟩
    · rw [hdelivered]
      exact out_sinkAfter hC.delivered hp (hC.heads .client)
    · rw [World.deliver, hC.whole]
      rfl
  · refine hG n ?_
    rw [World.received_deliver, List.mem_append] at *
    refine hn.imp_left fun h => ?_
    simpa [World.delivered, World.deliver, sent] using Or.inl h

/-- The backend reads the message that has just been written, and nothing else that is new. -/
theorem serve_eq {ms : List Message} {m : Message} (hout : (x.sinks .backend).out = stream (ms ++ [m]))
    (hans : x.answered = ms.length) : x.serve b A = x.answer b A (ms.map arrived) (arrived m) := by
  have hms : (whileOk (packet .release) (x.sinks .backend).out).1 = ms.map arrived ++ [arrived m] := by
    rw [hout, whileOk_stream, List.map_append]
    rfl
  have hlen : x.answered = (ms.map arrived).length := by rw [List.length_map, hans]
  unfold Ends.serve
  simp only [hms, hlen, List.take_left, List.drop_left]
  rfl

/-- The streams after a packet for the backend, and its answer. -/
theorem Carries.receive (hC : Carries b x w) (hA : ∀ ms, (whileOk (packet b) (A ms).bytes).2 = [])
    (q : UInt8) {p : Packet} (hp : Whole p) : Carries b
      (Ends.serve b A { x with sinks := Function.update x.sinks .backend (sinkAfter (x.sinks .backend) q p) })
      (w.receive (respond b A) (q, p)) := by
  have hout := out_sinkAfter (q := q) hC.received hp (hC.heads .backend)
  rw [@serve_eq b A { x with sinks := Function.update x.sinks .backend (sinkAfter (x.sinks .backend) q p) }
    w.received (q, p) (by simpa using hout) hC.answered]
  have hanswer : A (w.received.map arrived ++ [arrived (q, p)]) =
      A ((w.received ++ [(q, p)]).map arrived) := by
    rw [List.map_append]
    rfl
  have hphase : x.phase.after p ((A (w.received.map arrived ++ [arrived (q, p)])).reply b) =
      w.phase.after p (respond b A (w.received ++ [(q, p)])) := by
    rw [hC.phase, hanswer]
    rfl
  have hbytes : (whileOk (packet b) (if x.phase = .closed then []
      else (A (w.received.map arrived ++ [arrived (q, p)])).bytes)) = (w.answer (respond b A) (q, p), []) := by
    rw [World.answer, hC.phase]
    split_ifs
    · exact whileOk_error (packet_nil b)
    · refine Prod.ext ?_ (hA _)
      rw [hanswer]
      rfl
  have hheld := hC.backend.extend (congrArg Prod.snd hbytes)
    (behind (x.phase.after p ((A (w.received.map arrived ++ [arrived (q, p)])).reply b)))
  rw [hbytes] at hheld
  refine ⟨?_, ?_, ?_, ?_, ?_, takesHeaders_update hC.heads .backend q p, hC.whole, hphase, ?_, ?_⟩
  · simpa [Ends.answer, World.receive] using hC.client
  · simpa [Ends.answer, World.receive, arrived] using hheld
  · rw [World.receive, ← hphase]
    simp [Ends.answer, Socket.extend, arrived]
  · simpa [Ends.answer, World.receive, World.delivered] using hC.delivered
  · rw [World.received_receive]
    simpa [Ends.answer] using hout
  · simp only [Ends.answer, World.receive, hC.phase, hC.lingering]
  · rw [World.received_receive, List.length_append, ← hC.answered]
    rfl

/-- A packet for the backend. -/
theorem simulates_writeBackend (hA : ∀ ms, (whileOk (packet b) (A ms).bytes).2 = []) (q : UInt8)
    (p : Packet) : Simulates (Carries b) AllWhole ((streams b A).send .backend q p)
      ((net (respond b A)).send .backend q p) := by
  refine ⟨fun {x w} hC hG => ?_, keeps_sendBackend (fun w m _ hw hG => hw fun n hn => ?_) q p⟩
  · change AllWhole ((writeBackend (respond b A) (q, p)).run w).2 at hG
    change ((if x.phase = .closed ∧ x.lingering = 0 then Proc.stop brokenPipe
        else do
          onSink .backend (endPacketOn q p)
          Proc.modify (Ends.serve b A) : Proc Stop Ends Unit).run x).1 =
        ((writeBackend (respond b A) (q, p)).run w).1 ∧
      Carries b ((if x.phase = .closed ∧ x.lingering = 0 then Proc.stop brokenPipe
        else do
          onSink .backend (endPacketOn q p)
          Proc.modify (Ends.serve b A) : Proc Stop Ends Unit).run x).2
        ((writeBackend (respond b A) (q, p)).run w).2
    have hiff : (x.phase = .closed ∧ x.lingering = 0) ↔ w.Reset := by
      rw [hC.phase, hC.lingering]
      rfl
    by_cases hreset : w.Reset
    · rw [run_writeBackend_reset hreset, if_pos (hiff.mpr hreset)]
      exact ⟨rfl, hC⟩
    · rw [run_writeBackend hreset] at hG ⊢
      rw [if_neg (fun h => hreset (hiff.mp h)), Proc.run_bind_ok (run_onSink _ _ _ _), Proc.run_modify]
      exact ⟨rfl, hC.receive hA q (hG (q, p) (by rw [World.received_receive]; simp))⟩
  · refine hG n ?_
    rw [World.received_receive]
    exact List.mem_append.mpr ((List.mem_append.mp hn).imp_right (List.mem_append_left _))

/-- **The streams do what the packets do.** -/
theorem simulatesOps (hA : ∀ ms, (whileOk (packet b) (A ms).bytes).2 = []) :
    SimulatesOps (Carries b) AllWhole (streams b A) (net (respond b A)) where
  next
    | .client => simulates_readClient
    | .backend => simulates_readBackend
  send
    | .client, q, p => simulates_writeClient q p
    | .backend, q, p => simulates_writeBackend hA q p
  flush _ := .pure ()

end Steps

/-! ### Sessions on streams -/

/-- **A session on the streams** does what the same session does on the packets: it returns the same, and
the packets it leaves lie in the streams again. -/
theorem connect_streams {A : Answers} {S : Setup} {x : Pooled Ends} {y : Pooled World}
    (hA : ∀ ms, (whileOk (packet S.profile) (A ms).bytes).2 = []) (h : OnPooled (Carries S.profile) x y)
    (rounds : ℕ)
    (hwhole : AllWhole ((connect (net (respond S.profile A)) S rounds).run y).2.conn.net) :
    ((connect (streams S.profile A) S rounds).run x).1 =
        ((connect (net (respond S.profile A)) S rounds).run y).1 ∧
      OnPooled (Carries S.profile) ((connect (streams S.profile A) S rounds).run x).2
        ((connect (net (respond S.profile A)) S rounds).run y).2 :=
  ((simulatesOps hA).connect S rounds).same h hwhole

/-- A client as its socket shows it: its bytes, the error behind them, and the pieces in which its bytes
come and the proxy's bytes are taken. -/
structure Caller where
  bytes : Bytes
  last : Option IoError
  cut : ℕ → ℕ
  accept : ℕ → ℕ → ℕ

/-- The numbers in the client's frames are right, and no error hits it inside a message. -/
structure Caller.Proper (b : Profile) (v : Caller) : Prop where
  sound : packet b (whileOk (packet b) v.bytes).2 ≠ .error .panic
  clean : v.last = none ∨ (whileOk (packet b) v.bytes).2 = []
  heads : TakesHeaders (.new v.accept)

/-- What comes behind the client's last packet. -/
def Caller.clientEnd (b : Profile) (v : Caller) : Option IoError :=
  match v.last with
  | some e => some e
  | none =>
    if (whileOk (packet b) v.bytes).2 = [] then none
    else some ⟨.unexpectedEof, toString (whileOk (packet b) v.bytes).2.length ++ " unhandled bytes"⟩

/-- A client at a new connection, to which the backend has sent the bytes `g`, and whose socket takes `n`
messages once the backend has hung up. -/
def Ends.start (g : Bytes) (n : ℕ) (v : Caller) (cut : ℕ → ℕ) (accept : ℕ → ℕ → ℕ) : Ends where
  readers
    | .client => (.new, .new v.bytes (v.last.map .io) v.cut)
    | .backend => (.new, .new g (behind .handshake) cut)
  sinks
    | .client => .new v.accept
    | .backend => .new accept
  phase := .handshake
  lingering := n
  answered := 0

/-- The same, packet by packet. -/
def packetsOf (b : Profile) (g : Bytes) (n : ℕ) (v : Caller) : World :=
  ⟨(whileOk (packet b) v.bytes).1, v.clientEnd b, none, (whileOk (packet b) g).1, .handshake, n, [],
    []⟩

theorem outcome_clientEnd (b : Profile) (v : Caller) :
    outcome b (v.last.map .io) (whileOk (packet b) v.bytes).2 =
      (v.clientEnd b).elim (.ok none) fun e => .error (.io e) := by
  obtain ⟨e, he⟩ : ∃ e, packet b (whileOk (packet b) v.bytes).2 = .error e := by
    generalize v.bytes = i
    induction i using whileOk_induction (consuming_packet b) with
    | ok i r m hi ih =>
      rw [whileOk_ok (consuming_packet b) hi]
      exact ih
    | error i e hi =>
      rw [whileOk_error hi]
      exact ⟨e, hi⟩
  unfold Caller.clientEnd
  rcases v.last with _ | x
  · rw [Option.map_none, outcome_none he, ending]
    split_ifs <;> rfl
  · rw [Option.map_some, outcome_some he]
    rfl

theorem carries_start {b : Profile} {g : Bytes} {n : ℕ} {v : Caller} {cut : ℕ → ℕ} {accept : ℕ → ℕ → ℕ}
    (hg : (whileOk (packet b) g).2 = []) (hv : v.Proper b) (ha : TakesHeaders (.new accept)) :
    Carries b (.start g n v cut accept) (packetsOf b g n v) where
  client := by
    refine ⟨_, ⟨⟨v.bytes, holds_new _ _ _, rfl⟩, hv.sound, fun _ => ?_⟩, outcome_clientEnd b v⟩
    exact hv.clean.imp_left fun h => by rw [Ends.start, Socket.new, h]; rfl
  backend := ⟨⟨g, holds_new _ _ _, Prod.ext rfl hg⟩, by simp [packet_nil], fun _ => Or.inr rfl⟩
  last := rfl
  delivered := rfl
  received := rfl
  heads side := by
    cases side
    · exact hv.heads
    · exact ha
  whole := rfl
  phase := rfl
  lingering := rfl
  answered := rfl

/-- A client that logs in and quits, whose bytes come in pieces of three at most. -/
def brisk : Caller :=
  ⟨stream [(1, hello eofCaps), (3, [7]), (0, [0x01])], none, fun n => n % 3 + 1, fun _ n => n⟩

/-- The same one, byte by byte, on a socket that takes the headers only. -/
def slow : Caller := { brisk with cut := fun _ => 1, accept := fun _ _ => 4 }

/-- A backend that asks every client for a switch, accepts it, and resets the connection. -/
def obliges : Answers := fun ms => ⟨stream (patient ms).packets, false⟩

theorem obliges_whole (ms : List Message) : (whileOk (packet .release) (obliges ms).bytes).2 = [] := by
  rw [obliges, whileOk_stream]

theorem brisk_proper : brisk.Proper .release :=
  ⟨by rw [brisk, whileOk_stream]; simp [packet_nil], Or.inl rfl, fun _ => le_rfl⟩

theorem connect_streams_brisk : ∃ x', (connect (streams .release obliges) Setup.plain 3).run
      ⟨.default, 0, 0, .start [1, 0, 0, 0, 10] 0 brisk (fun _ => 2) fun _ n => n⟩ = (.ok (), x') ∧
    x'.tag.connPhase = some .command := by
  have hrun : ((connect (net (respond .release obliges)) Setup.plain 3).run
      ⟨.default, 0, 0, packetsOf .release [1, 0, 0, 0, 10] 0 brisk⟩).1 = .ok () := by decide +kernel
  have htag : ((connect (net (respond .release obliges)) Setup.plain 3).run
      ⟨.default, 0, 0, packetsOf .release [1, 0, 0, 0, 10] 0 brisk⟩).2.tag.connPhase = some .command := by
    decide +kernel
  have hC : OnPooled (Carries .release)
      ⟨.default, 0, 0, .start [1, 0, 0, 0, 10] 0 brisk (fun _ => 2) fun _ n => n⟩
      ⟨.default, 0, 0, packetsOf .release [1, 0, 0, 0, 10] 0 brisk⟩ :=
    ⟨rfl, rfl, rfl, carries_start (by decide) brisk_proper fun _ => le_rfl⟩
  obtain ⟨hr, hend⟩ := connect_streams (S := Setup.plain) obliges_whole hC 3 (by decide +kernel)
  rcases hx : (connect (streams .release obliges) Setup.plain 3).run
    ⟨.default, 0, 0, .start [1, 0, 0, 0, 10] 0 brisk (fun _ => 2) fun _ n => n⟩ with ⟨r, x'⟩
  rw [show Setup.plain.profile = .release from rfl, hx] at hr hend
  obtain rfl : r = .ok () := hr.trans hrun
  exact ⟨x', rfl, (congrArg DbUserConnLifeCycle.connPhase hend.tag).trans htag⟩

/-- **The pieces do not matter.** Two clients with the same bytes, in whatever pieces these come and the
proxy's bytes are taken, at two connections to which the backend has sent the same: their sessions return
the same, leave the same tag, and have written the same bytes to both sides. -/
theorem pieces_irrelevant {A : Answers} {S : Setup} {g : Bytes} {n : ℕ} {v v' : Caller} {cut cut' : ℕ → ℕ}
    {accept accept' : ℕ → ℕ → ℕ} (hA : ∀ ms, (whileOk (packet S.profile) (A ms).bytes).2 = [])
    (hg : (whileOk (packet S.profile) g).2 = []) (hbytes : v'.bytes = v.bytes) (hlast : v'.last = v.last)
    (hv : v.Proper S.profile) (hv' : v'.Proper S.profile) (ha : TakesHeaders (.new accept))
    (ha' : TakesHeaders (.new accept')) (rounds : ℕ)
    (hwhole : AllWhole ((connect (net (respond S.profile A)) S rounds).run
      ⟨.default, 0, 0, packetsOf S.profile g n v⟩).2.conn.net) :
    let p := (connect (streams S.profile A) S rounds).run ⟨.default, 0, 0, .start g n v cut accept⟩
    let p' := (connect (streams S.profile A) S rounds).run ⟨.default, 0, 0, .start g n v' cut' accept'⟩
    p'.1 = p.1 ∧ p'.2.tag = p.2.tag ∧
      ∀ side, (p'.2.conn.net.sinks side).out = (p.2.conn.net.sinks side).out := by
  have hsame : packetsOf S.profile g n v' = packetsOf S.profile g n v := by
    rw [packetsOf, packetsOf, Caller.clientEnd, Caller.clientEnd, hbytes, hlast]
  have hp := ((simulatesOps hA).connect S rounds).same
    (s := ⟨.default, 0, 0, .start g n v cut accept⟩) (t := ⟨.default, 0, 0, packetsOf S.profile g n v⟩)
    ⟨rfl, rfl, rfl, carries_start hg hv ha⟩ hwhole
  have hp' := ((simulatesOps hA).connect S rounds).same
    (s := ⟨.default, 0, 0, .start g n v' cut' accept'⟩) (t := ⟨.default, 0, 0, packetsOf S.profile g n v⟩)
    ⟨rfl, rfl, rfl, hsame ▸ carries_start hg hv' ha'⟩ hwhole
  refine ⟨hp'.1.trans hp.1.symm, hp'.2.tag.trans hp.2.tag.symm, fun side => ?_⟩
  have hC := hp.2.conn.net
  have hC' := hp'.2.conn.net
  cases side
  · exact hC'.delivered.trans hC.delivered.symm
  · exact hC'.received.trans hC.received.symm

theorem pieces_irrelevant_slow :
    ((connect (streams .release obliges) Setup.plain 3).run
        ⟨.default, 0, 0, .start [1, 0, 0, 0, 10] 0 slow (fun _ => 1) fun _ _ => 4⟩).1 =
      ((connect (streams .release obliges) Setup.plain 3).run
        ⟨.default, 0, 0, .start [1, 0, 0, 0, 10] 0 brisk (fun _ => 2) fun _ n => n⟩).1 :=
  (@pieces_irrelevant _ Setup.plain _ 0 brisk slow _ _ _ _ obliges_whole (by decide) rfl rfl
    brisk_proper ⟨brisk_proper.sound, Or.inl rfl, fun _ => le_rfl⟩ (fun _ => le_rfl) (fun _ => le_rfl) 3
    (by decide +kernel)).1

theorem sent_append (fromProxy : Bool) (es fs : List Event) :
    sent fromProxy (es ++ fs) = sent fromProxy es ++ sent fromProxy fs := by
  simp [sent]

end Haentgl.Server.Streams
