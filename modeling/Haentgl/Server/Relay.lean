import Haentgl.Protocol.Reader
import Haentgl.Server.Forwarders

/-! # Relaying messages byte by byte

The links as the proxy really has them: a `PacketReader` over a byte stream and a `PacketWriter` over a
socket on each side. A message arrives as frames and leaves as frames. The reader returns the number of
the last frame of a message, and the writer starts with the number it is given, so a message of several
frames leaves with other numbers than it came with; and a message that ends in an empty frame leaves
without it. `Transparent` is what remains, and it is exact (`relayAll_transparent_iff`). -/

namespace Haentgl.Server.Relay

open Haentgl.Lib.Parse Haentgl.Lib.Program Haentgl.Protocol.Constants Haentgl.Protocol.Io
open Haentgl.Protocol.Packets Haentgl.Protocol.Basic Haentgl.Protocol.Reader Haentgl.Server.Links
open Haentgl.Server.Forwarders
open Haentgl.Protocol.Writer (seqAfter written sinkAfter messageFrames closedChunks numberFrom NoWrap
  Closed messageLen length_written_le length_written_eq written_closed frames_eq_messageFrames
  packet_messageFrames length_of_packet)

/-! ### The byte streams of both sides -/

structure Wires where
  readers : Side → PacketReader × Source
  sinks : Side → Sink

/-- `end_packet` of a writer with the buffer `p` and the counter `q`. -/
def endPacketOn (q : UInt8) (p : Packet) : Proc Stop Sink Unit := fun k =>
  (((Protocol.Writer.endPacket Sink.asyncWrite).run (⟨p, q⟩, k)).1,
    ((Protocol.Writer.endPacket Sink.asyncWrite).run (⟨p, q⟩, k)).2.2)

def wires (b : Profile) (rounds : ℕ) : Net Wires where
  next side := Proc.zoom (fun w => w.readers side)
    (fun r w => { w with readers := Function.update w.readers side r })
    (nextAsync b Source.asyncRead rounds)
  send side q p := Proc.zoom (fun w => w.sinks side)
    (fun k w => { w with sinks := Function.update w.sinks side k }) (endPacketOn q p)
  flush _ := pure ()

theorem run_send (b : Profile) (rounds : ℕ) (side : Side) (q : UInt8) (p : Packet) (w : Wires) :
    ((wires b rounds).send side q p).run w = (.ok (),
      { w with sinks := Function.update w.sinks side (sinkAfter (w.sinks side) q p) }) := by
  have h : (endPacketOn q p).run (w.sinks side) = (.ok (), sinkAfter (w.sinks side) q p) := by
    change (_, _) = _
    rw [Protocol.Writer.run_endPacket]
  simp only [wires, Proc.run_zoom, h]

/-! ### The ways a message takes -/

/-- `forward_one_packet`, or the read and `write_to_backend` of the command loop. -/
inductive Route
  | forward (dest src : Side) (isFlush : Bool)
  | command (comCode : CommandCode) (h : HandshakeResponse)

namespace Route

def dest : Route → Side
  | forward d _ _ => d
  | command _ _ => .backend

def src : Route → Side
  | forward _ s _ => s
  | command _ _ => .client

/-- The commands that are relayed as they are. -/
def AsItIs : Route → Prop
  | forward _ _ _ => True
  | command comCode _ => comCode ≠ .comQuit ∧ comCode ≠ .comChangeUser

/-- One message on its way. -/
def step {σ : Type} (N : Net σ) (mc : MysqlCommon) : Route → Proc Stop (Conn σ) Unit
  | forward d s isFlush => do
    let _ ← forwardOnePacket N d s isFlush
  | command comCode h => do
    let (q, p) ← asyncPacketRead N .client
    writeToBackend N mc q comCode h p

end Route

/-- A message for each route. -/
def relayAll {σ : Type} (N : Net σ) (mc : MysqlCommon) : List Route → Proc Stop (Conn σ) Unit
  | [] => pure ()
  | r :: rs => do
    r.step N mc
    relayAll N mc rs

section Step
variable {b : Profile} {rounds : ℕ} (mc : MysqlCommon)

theorem run_next {side : Side} {c : Conn Wires} {i rest : Bytes} {m : UInt8 × Packet}
    (hc : Holds (c.net.readers side) i) (hr : (c.net.readers side).2.stream.length < rounds)
    (hp : packet b i = .ok (rest, m)) : ∃ x, (asyncPacketRead (wires b rounds) side).run c =
        (.ok m, { c with net := ⟨Function.update c.net.readers side x, c.net.sinks⟩ }) ∧
      Holds x rest ∧ x.2.stream.length ≤ (c.net.readers side).2.stream.length := by
  obtain ⟨x, hrun, hx, hle⟩ := run_nextAsync hc hr hp
  refine ⟨x, run_asyncPacketRead_some ?_, hx, hle⟩
  simp only [wires, Proc.run_zoom, hrun]

theorem run_next_panic {side : Side} {c : Conn Wires} {i : Bytes}
    (hc : Holds (c.net.readers side) i) (hr : (c.net.readers side).2.stream.length < rounds)
    (hp : packet b i = .error .panic) : ∃ x, (asyncPacketRead (wires b rounds) side).run c =
      (.error .panic, { c with net := ⟨Function.update c.net.readers side x, c.net.sinks⟩ }) := by
  obtain ⟨x, hrun⟩ := run_nextAsync_panic hc hr hp
  refine ⟨x, Proc.run_bind_error (run_onNet ?_) _⟩
  simp only [wires, Proc.run_zoom, hrun]

/-- The links after a route has taken a message. -/
theorem run_step (r : Route) (hr : r.AsItIs) {c : Conn Wires} {i rest : Bytes} {m : UInt8 × Packet}
    (hc : Holds (c.net.readers r.src) i) (hlen : (c.net.readers r.src).2.stream.length < rounds)
    (hp : packet b i = .ok (rest, m)) : ∃ c', (r.step (wires b rounds) mc).run c = (.ok (), c') ∧
      Holds (c'.net.readers r.src) rest ∧
      (c'.net.readers r.src).2.stream.length ≤ (c.net.readers r.src).2.stream.length ∧
      c'.net.sinks r.dest = sinkAfter (c.net.sinks r.dest) m.1 m.2 := by
  obtain ⟨x, hread, hx, hle⟩ := run_next hc hlen hp
  have hsend := run_send b rounds r.dest m.1 m.2 ⟨Function.update c.net.readers r.src x, c.net.sinks⟩
  refine ⟨wrote ⟨c.clientSeq, c.backendSeq, ⟨Function.update c.net.readers r.src x, c.net.sinks⟩⟩
    r.dest m ⟨Function.update c.net.readers r.src x,
      Function.update c.net.sinks r.dest (sinkAfter (c.net.sinks r.dest) m.1 m.2)⟩, ?_, ?_⟩
  · cases r with
    | forward d s isFlush =>
      exact Proc.run_bind_ok (run_forwardOnePacket hread hsend rfl isFlush) _
    | command comCode h =>
      exact (Proc.run_bind_ok hread _).trans (run_writeToBackend hr.1 hr.2 h hsend rfl)
  · simp [wrote, hx, hle]

/-- A panic of the reader ends the way. -/
theorem run_step_panic (r : Route) {c : Conn Wires} {i : Bytes}
    (hc : Holds (c.net.readers r.src) i) (hlen : (c.net.readers r.src).2.stream.length < rounds)
    (hp : packet b i = .error .panic) : ∃ c', (r.step (wires b rounds) mc).run c = (.error .panic, c') ∧
      c'.net.sinks = c.net.sinks := by
  obtain ⟨x, hread⟩ := run_next_panic hc hlen hp
  refine ⟨⟨c.clientSeq, c.backendSeq, ⟨Function.update c.net.readers r.src x, c.net.sinks⟩⟩, ?_, rfl⟩
  cases r with
  | forward d s isFlush => exact Proc.run_bind_error (Proc.run_bind_error hread _) _
  | command comCode h => exact Proc.run_bind_error hread _

end Step

/-! ### Rows of messages -/

/-- The bytes of messages, each with its payload and the number of its first frame. -/
def stream (ms : List (UInt8 × Packet)) : Bytes := ms.flatMap fun m => wire (messageFrames m.1 m.2)

/-- The number `packet` returns for a message. -/
def readSeq (m : UInt8 × Packet) : UInt8 := m.1 + UInt8.ofNat (m.2.length / maxPayloadLen)

/-- What comes out for messages, up to the first one on which the reader panics. -/
def relayed (b : Profile) : Sink → List (UInt8 × Packet) → Bytes
  | _, [] => []
  | k, m :: ms =>
    if NoWrap b m.1 m.2 then
      written k (readSeq m) m.2 ++ relayed b (sinkAfter k (readSeq m) m.2) ms
    else []

/-- No message makes the reader panic. -/
def AllNoWrap (b : Profile) (ms : List (UInt8 × Packet)) : Prop := ∀ m ∈ ms, NoWrap b m.1 m.2

/-- **A row of messages**, relayed over a row of routes from one side to one side. -/
theorem run_relayAll {b : Profile} {rounds : ℕ} (mc : MysqlCommon) {d s : Side} {rest : Bytes} :
    ∀ (rs : List Route) (ms : List (UInt8 × Packet)) (c : Conn Wires),
    (∀ r ∈ rs, r.AsItIs ∧ r.dest = d ∧ r.src = s) → rs.length = ms.length →
    Holds (c.net.readers s) (stream ms ++ rest) → (c.net.readers s).2.stream.length < rounds →
    ∃ e c', (relayAll (wires b rounds) mc rs).run c = (e, c') ∧
      (c'.net.sinks d).out = (c.net.sinks d).out ++ relayed b (c.net.sinks d) ms ∧
      (e = .ok () ↔ AllNoWrap b ms)
  | [], [], c, _, _, _, _ => ⟨.ok (), c, rfl, by simp [relayed], by simp [AllNoWrap]⟩
  | r :: rs, m :: ms, c, hrs, hlen, hc, hr => by
    obtain ⟨has, rfl, rfl⟩ := hrs r (by simp)
    have hstream : stream (m :: ms) ++ rest =
        wire (messageFrames m.1 m.2) ++ (stream ms ++ rest) := by simp [stream]
    have hpacket := packet_messageFrames b m.1 m.2 (stream ms ++ rest)
    rw [hstream] at hc
    rw [relayAll, relayed]
    split_ifs at hpacket ⊢ with hw
    · obtain ⟨c1, hstep, hc1, hle, hsink⟩ := run_step mc r has hc hr hpacket
      obtain ⟨e, c', hrun, hout, he⟩ := run_relayAll mc rs ms c1
        (fun x hx => hrs x (by simp [hx])) (by simpa using hlen) hc1 (hle.trans_lt hr)
      refine ⟨e, c', by rw [Proc.run_bind_ok hstep, hrun], ?_, ?_⟩
      · rw [hout, hsink, sinkAfter, List.append_assoc]
        rfl
      · simp [he, AllNoWrap, hw]
    · obtain ⟨c1, hstep, hsinks⟩ := run_step_panic mc r hc hr hpacket
      refine ⟨_, c1, Proc.run_bind_error hstep _, by rw [hsinks, List.append_nil], ?_⟩
      simp [AllNoWrap, hw]

/-- What a message must be like to come out as it came in: not ending in a full frame (and taken at
once if it is empty), of a number of full frames that brings the number round to itself, and not
crossing the end of the numbers in a checked build. -/
structure Transparent (b : Profile) (k : Sink) (m : UInt8 × Packet) : Prop where
  closed : Closed k m.2
  round : m.2.length / maxPayloadLen % 256 = 0
  noWrap : NoWrap b m.1 m.2

/-- The same for a row of messages. -/
def TransparentAll (b : Profile) : Sink → List (UInt8 × Packet) → Prop
  | _, [] => True
  | k, m :: ms => Transparent b k m ∧ TransparentAll b (sinkAfter k (readSeq m) m.2) ms

theorem readSeq_eq_iff (m : UInt8 × Packet) :
    readSeq m = m.1 ↔ m.2.length / maxPayloadLen % 256 = 0 := by
  rw [readSeq, ← UInt8.toNat_inj, UInt8.toNat_add, UInt8.toNat_ofNat']
  have := m.1.toNat_lt
  omega

/-- The first number can be read off the bytes. -/
theorem messageFrames_injective {s s' : UInt8} {p x y : Bytes}
    (h : wire (messageFrames s p) ++ x = wire (messageFrames s' p) ++ y) : s = s' := by
  rcases hc : closedChunks p with _ | ⟨c, cs⟩
  · rw [closedChunks] at hc
    split_ifs at hc with h0
    · simp at hc
    · have := Protocol.Writer.length_chunks p
      rw [hc, if_neg h0] at this
      simp at this
  · simp only [messageFrames, hc, numberFrom, wire, List.flatMap_cons, Frame.bytes,
      List.append_assoc] at h
    have h1 := List.append_cancel_left h
    simp only [List.cons_append, List.cons.injEq] at h1
    exact h1.1

theorem length_messageFrames (s : UInt8) (p : Bytes) :
    (wire (messageFrames s p)).length = messageLen p := by
  have h := packet_messageFrames .release s p []
  rw [if_pos (show NoWrap .release s p from fun h => by cases h)] at h
  have := length_of_packet h
  simpa using this

theorem length_relayed_le (b : Profile) : ∀ (ms : List (UInt8 × Packet)) (k : Sink),
    (relayed b k ms).length ≤ (stream ms).length
  | [], _ => le_rfl
  | m :: ms, k => by
    have h1 := length_written_le k (readSeq m) m.2
    have h2 := length_relayed_le b ms (sinkAfter k (readSeq m) m.2)
    have h3 := length_messageFrames m.1 m.2
    rw [relayed]
    simp only [stream, List.flatMap_cons, List.length_append] at h2 ⊢
    split_ifs
    · rw [List.length_append]; omega
    · simp

/-- A closed payload comes out as the message with the number that was read. -/
theorem written_messageFrames {k : Sink} {p : Packet} (h : Closed k p) (q : UInt8) :
    written k q p = wire (messageFrames q p) := by
  obtain ⟨hw, hp⟩ := written_closed h q
  rw [hw, frames_eq_messageFrames q hp]

theorem relayed_eq_iff (b : Profile) : ∀ (ms : List (UInt8 × Packet)) (k : Sink),
    AllNoWrap b ms ∧ relayed b k ms = stream ms ↔ TransparentAll b k ms
  | [], k => by simp [AllNoWrap, relayed, stream, TransparentAll]
  | m :: ms, k => by
    have ih := relayed_eq_iff b ms (sinkAfter k (readSeq m) m.2)
    have hstream : stream (m :: ms) = wire (messageFrames m.1 m.2) ++ stream ms := by simp [stream]
    rw [TransparentAll, ← ih, relayed, hstream]
    constructor
    · rintro ⟨hn, he⟩
      have hw : NoWrap b m.1 m.2 := hn m (by simp)
      rw [if_pos hw] at he
      -- the lengths leave no room for a missing frame
      have hlen := congrArg List.length he
      rw [List.length_append, List.length_append, length_messageFrames] at hlen
      have h1 := length_written_le k (readSeq m) m.2
      have h2 := length_relayed_le b ms (sinkAfter k (readSeq m) m.2)
      have hc : Closed k m.2 := (length_written_eq k (readSeq m) m.2).mp (by omega)
      rw [written_messageFrames hc] at he
      have hq := messageFrames_injective he
      rw [hq] at he
      exact ⟨⟨hc, (readSeq_eq_iff m).mp hq, hw⟩, fun x hx => hn x (by simp [hx]),
        by rw [hq]; exact List.append_cancel_left he⟩
    · rintro ⟨⟨hc, hround, hw⟩, hn, he⟩
      refine ⟨?_, ?_⟩
      · intro x hx
        rcases List.mem_cons.mp hx with rfl | hx
        · exact hw
        · exact hn x hx
      · rw [if_pos hw, he, written_messageFrames hc, (readSeq_eq_iff m).mpr hround]

/-- **Relay transparency**: what comes out of a row of routes is what went in exactly if every message
is transparent. -/
theorem relayAll_transparent_iff (b : Profile) (rounds : ℕ) (mc : MysqlCommon) (d s : Side)
    (rs : List Route) (hrs : ∀ r ∈ rs, r.AsItIs ∧ r.dest = d ∧ r.src = s)
    (ms : List (UInt8 × Packet)) (hlen : rs.length = ms.length) (rest : Bytes) (cut : ℕ → ℕ)
    (accept : ℕ → ℕ → ℕ) (c : Conn Wires)
    (hsrc : c.net.readers s = (.new, .new (stream ms ++ rest) cut))
    (hdest : c.net.sinks d = .new accept) (hr : (stream ms ++ rest).length < rounds) :
    (((relayAll (wires b rounds) mc rs).run c).1 = .ok () ∧
      (((relayAll (wires b rounds) mc rs).run c).2.net.sinks d).out = stream ms) ↔
    TransparentAll b (.new accept) ms := by
  have hc : Holds (c.net.readers s) (stream ms ++ rest) := by rw [hsrc]; exact holds_new _ _
  have hl : (c.net.readers s).2.stream.length < rounds := by rw [hsrc]; exact hr
  obtain ⟨e, c', hrun, hout, he⟩ := run_relayAll (b := b) mc rs ms c hrs hlen hc hl
  rw [hrun, hout, hdest, he, ← relayed_eq_iff]
  simp [Sink.new]

/-- The two sides before anything was read or written. -/
def Wires.start (i : Bytes) : Wires :=
  ⟨fun _ => (.new, .new i fun _ => 4096), fun _ => .new fun _ n => n⟩

/-- A row of two short messages. -/
theorem relayAll_transparent_two :
    (((relayAll (wires .dev 20) .plain [.forward .client .backend false, .forward .client .backend true]).run
        ⟨0, 0, .start (stream [(1, [1]), (2, [0xfe])] ++ [])⟩).1 = .ok () ∧
      (((relayAll (wires .dev 20) .plain
        [.forward .client .backend false, .forward .client .backend true]).run
        ⟨0, 0, .start (stream [(1, [1]), (2, [0xfe])] ++ [])⟩).2.net.sinks .client).out =
        stream [(1, [1]), (2, [0xfe])]) := by
  refine (relayAll_transparent_iff .dev 20 .plain .client .backend _ ?_ [(1, [1]), (2, [0xfe])] rfl []
    (fun _ => 4096) (fun _ n => n) _ rfl rfl (by decide)).mpr ?_
  · simp [Route.AsItIs, Route.dest, Route.src]
  · exact ⟨⟨by decide, by decide, by decide⟩, ⟨by decide, by decide, by decide⟩, trivial⟩

/-- A message of other than a multiple of 256 full frames does not come out as it came in. -/
theorem relayAll_not_round {p : Packet} (hp : p.length / maxPayloadLen % 256 ≠ 0) {rounds : ℕ}
    (hr : (stream [(0, p)] ++ []).length < rounds) :
    ¬ (((relayAll (wires .release rounds) .plain [.forward .client .backend true]).run
        ⟨0, 0, .start (stream [(0, p)] ++ [])⟩).1 = .ok () ∧
      (((relayAll (wires .release rounds) .plain [.forward .client .backend true]).run
        ⟨0, 0, .start (stream [(0, p)] ++ [])⟩).2.net.sinks .client).out = stream [(0, p)]) := by
  obtain ⟨e, c', hrun, hout, he⟩ := run_relayAll (b := .release) (d := .client) (s := .backend) .plain
    [.forward .client .backend true] [(0, p)] ⟨0, 0, .start (stream [(0, p)] ++ [])⟩
    (by simp [Route.AsItIs, Route.dest, Route.src]) rfl (holds_new _ _) hr
  rw [hrun]
  rintro ⟨hok, hsame⟩
  have hall := (relayed_eq_iff .release [(0, p)] (.new fun _ n => n)).mp
    ⟨he.mp hok, hout.symm.trans hsame⟩
  exact hp hall.1.round

/-- A payload of one byte more than a full frame arrives with the numbers 0 and 1 and leaves with 1 and
2. -/
theorem relayAll_two_frames :
    ¬ (((relayAll (wires .release 16777225) .plain [.forward .client .backend true]).run
        ⟨0, 0, .start (stream [(0, List.replicate (maxPayloadLen + 1) 0)] ++ [])⟩).1 = .ok () ∧
      (((relayAll (wires .release 16777225) .plain [.forward .client .backend true]).run
        ⟨0, 0, .start (stream [(0, List.replicate (maxPayloadLen + 1) 0)] ++ [])⟩).2.net.sinks .client).out =
      stream [(0, List.replicate (maxPayloadLen + 1) 0)]) := by
  generalize hp : List.replicate (maxPayloadLen + 1) (0 : UInt8) = p
  have hlen : p.length = maxPayloadLen + 1 := by rw [← hp, List.length_replicate]
  have hstream : (stream [(0, p)] ++ []).length = messageLen p := by
    simp [stream, length_messageFrames]
  have hdiv : (maxPayloadLen + 1) / maxPayloadLen = 1 := by norm_num [maxPayloadLen]
  refine relayAll_not_round ?_ ?_
  · rw [hlen, hdiv]; decide
  · rw [hstream, messageLen, hlen, hdiv]; norm_num [maxPayloadLen, packetHeaderLen]

end Haentgl.Server.Relay
