import Haentgl.Lib.Runs
import Haentgl.Protocol.Reader
import Haentgl.Protocol.Writer

/-! # A writer and a reader at the two ends of a stream

The two halves of the packet layer at work at the same time. The writer ends packets, of which the
network takes any part at first; the reader's call of `next_async` goes on round by round, as long as
there are bytes for it. A reader on a silent stream waits. The network hands the bytes over in pieces of
any length.

The link is a queue of messages (`link_fifo`), and the reader needs nothing but time to empty it
(`link_delivers`). -/

namespace Haentgl.Protocol.Link

open Haentgl.Lib.Parse Haentgl.Lib.Program Haentgl.Lib.Runs Haentgl.Protocol.Constants
open Haentgl.Protocol.Io Haentgl.Protocol.Packets Haentgl.Protocol.Writer Haentgl.Protocol.Reader

/-- The two ends and the bytes between them. `call` is the buffer size of the reader's next round, if a
call is going on; `stopped` is the panic or error that has ended an end of the link. -/
structure State where
  writer : PacketWriter
  wire : Bytes
  reader : PacketReader
  call : Option ℕ
  sent : List (UInt8 × Packet)
  received : List (UInt8 × Packet)
  stopped : Option Stop

/-- The writer sets its counter, or sends a payload, of which each `write_vectored` takes as much as
`accept` says. The reader begins a call, or goes on with it and reads at most `n` bytes. -/
inductive Act
  | setSeq (q : UInt8)
  | send (p : Packet) (accept : ℕ → ℕ → ℕ)
  | call
  | round (n : ℕ)

section Model
variable (b : Profile)

/-- The reader's next round finds no message and nothing to read. -/
def waits (l : State) : Bool :=
  l.wire = [] ∧ ((parseAsync b).run (l.reader, ())).1 = .ok none

/-- The link after `end_packet`. -/
def afterSend (l : State) (p : Packet) : Except Stop Unit × PacketWriter × Sink → State
  | (.ok (), w, k) =>
    { l with writer := w, wire := l.wire ++ k.out, sent := l.sent ++ [(lastSeq l.writer.seq p, p)] }
  | (.error e, _) => { l with stopped := some e }

/-- The link after the first part of a call. -/
def afterStart (l : State) : Except Stop Unit × PacketReader × Unit → State
  | (.ok (), pr, _) => { l with reader := pr, call := some packetBufferSize }
  | (.error e, _) => { l with stopped := some e }

/-- The link after a round. -/
def afterRound (l : State) :
    Except Stop (ℕ ⊕ Option (UInt8 × Packet)) × PacketReader × Source → State
  | (.ok (.inl c), pr, src) => { l with reader := pr, wire := src.stream, call := some c }
  | (.ok (.inr m), pr, src) =>
    { l with reader := pr, wire := src.stream, call := none, received := l.received ++ m.toList }
  | (.error e, _) => { l with stopped := some e }

def step (l : State) : Act → Option State
  | .setSeq q => some { l with writer := l.writer.setSeq q }
  | .send p accept =>
    some (afterSend l p ((endPackets Sink.asyncWrite [p]).run (l.writer, .new accept)))
  | .call => if l.call.isSome then none else some (afterStart l (setStart.run (l.reader, ())))
  | .round n => do
    let c ← l.call
    if waits b l then none
    else some (afterRound l ((roundAsync b Source.asyncRead c).run (l.reader, .new l.wire fun _ => n)))

/-- A new writer and a new reader. -/
def system : System State Act := ⟨⟨.new, [], .new, none, [], [], none⟩, step b⟩

/-- What is sent is understood: the payload is closed and, in a checked build, its numbers do not wrap. -/
def Understood (l : State) : Act → Prop
  | .send p accept => Recoverable b (.new accept) l.writer.seq p
  | _ => True

end Model

/-- A message from its first number on. -/
abbrev Sent := UInt8 × Packet

/-- The message as it is read. -/
def Sent.message (x : Sent) : UInt8 × Packet := (lastSeq x.1 x.2, x.2)

/-- Its bytes. -/
def Sent.bytes (x : Sent) : Bytes := wire (frames x.1 x.2)

/-- `packet` takes it off a stream. -/
def Sent.Readable (b : Profile) (x : Sent) : Prop :=
  ∀ rest, packet b (x.bytes ++ rest) = .ok (rest, x.message)

/-- **The invariant** of the link: between and in its calls the reader holds the bytes `u`, and these
and the wire are the messages `pend` that were sent and not received. -/
structure Inv (b : Profile) (l : State) (pend : List Sent) (u : Bytes) : Prop where
  idle : l.call = none → IdleAsync l.reader u
  head : ∀ c, l.call = some c → HeadAsync c l.reader u
  bytes : u ++ l.wire = pend.flatMap Sent.bytes
  readable : ∀ x ∈ pend, x.Readable b
  sent : l.sent = l.received ++ pend.map Sent.message
  buf : l.writer.buf = []
  stopped : l.stopped = none

section Steps
variable {b : Profile} {l l' : State} {pend : List Sent} {u : Bytes} {a : Act}

theorem readable_of_recoverable {k : Sink} {s : UInt8} {p : Packet} (h : Recoverable b k s p) :
    Sent.Readable b (s, p) ∧ written k s p = Sent.bytes (s, p) := by
  have hw := (written_closed h.1 s).1
  refine ⟨fun rest => ?_, hw⟩
  rw [Sent.bytes, ← hw]
  exact (packet_written_iff b k s p rest).mpr h

/-- The reader's bytes do not make the parser panic. -/
theorem Inv.parse (I : Inv b l pend u) :
    (∃ rest x xs, packet b u = .ok (rest, x.message) ∧ pend = x :: xs ∧
      rest ++ l.wire = xs.flatMap Sent.bytes) ∨ packet b u = .error (.err .backtrack) := by
  rcases hu : packet b u with e | ⟨rest, m⟩
  · rcases packet_eq_error hu with rfl | rfl
    · -- a panic would be there with the whole stream as well
      have hpanic := packet_panic_append hu l.wire
      rw [I.bytes] at hpanic
      rcases pend with _ | ⟨x, xs⟩
      · simp [packet_nil] at hpanic
      · rw [List.flatMap_cons, I.readable x (by simp) _] at hpanic
        cases hpanic
    · exact Or.inr rfl
  · have hall := stable_packet b _ _ _ l.wire hu
    rw [I.bytes] at hall
    rcases pend with _ | ⟨x, xs⟩
    · simp [packet_nil] at hall
    · rw [List.flatMap_cons, I.readable x (by simp) _] at hall
      obtain ⟨hrest, hm⟩ := Prod.mk.inj (Except.ok.inj hall)
      exact Or.inl ⟨rest, x, xs, by rw [hm], rfl, hrest.symm⟩

/-- With a message on its way the reader does not wait. -/
theorem Inv.wire_ne_nil (I : Inv b l pend u) (hp : pend ≠ [])
    (hu : packet b u = .error (.err .backtrack)) : l.wire ≠ [] := by
  intro hw
  obtain ⟨x, xs, rfl⟩ := List.exists_cons_of_ne_nil hp
  have hbytes := I.bytes
  rw [hw, List.append_nil, List.flatMap_cons] at hbytes
  rw [hbytes, I.readable x (by simp)] at hu
  cases hu

theorem waits_iff {c : ℕ} (I : Inv b l pend u) (hc : l.call = some c) :
    waits b l = true ↔ l.wire = [] ∧ packet b u = .error (.err .backtrack) := by
  have hhead := I.head c hc
  rw [waits, decide_eq_true_eq]
  rcases I.parse with ⟨rest, x, xs, hu, -⟩ | hu
  · obtain ⟨pr', hrun, -⟩ := parseAsync_found () hhead hu
    rw [hrun, hu]
    simp
  · rw [parseAsync_more () hhead hu, hu]
    simp

/-- **A round** takes a message off the link, or some bytes off the wire. -/
theorem Inv.round {c : ℕ} (I : Inv b l pend u) (hc : l.call = some c) (hw : waits b l = false)
    (n : ℕ) : ∃ l' pend' u', step b l (.round n) = some l' ∧ Inv b l' pend' u' ∧
      l'.sent = l.sent ∧ l'.writer = l.writer ∧
      ((l'.wire = l.wire ∧ pend'.length + 1 = pend.length ∧ l'.call = none) ∨
        (l'.wire.length < l.wire.length ∧ pend' = pend ∧ l'.call.isSome)) := by
  have hhead := I.head c hc
  have hstep : step b l (.round n) = some (afterRound l
      ((roundAsync b Source.asyncRead c).run (l.reader, .new l.wire fun _ => n))) := by
    simp only [step, hc, Option.bind_eq_bind, Option.bind_some, hw, Bool.false_eq_true, if_false]
  rcases I.parse with ⟨rest, x, xs, hu, rfl, hrest⟩ | hu
  · obtain ⟨pr', hrun, hidle⟩ := (buffers_async b).found (.new l.wire fun _ => n) hhead hu
    rw [hrun] at hstep
    refine ⟨_, xs, rest, hstep, ⟨fun _ => hidle, fun c hc => by simp [afterRound] at hc, hrest,
      fun y hy => I.readable y (by simp [hy]), ?_, I.buf, I.stopped⟩, rfl, rfl,
      Or.inl ⟨rfl, rfl, rfl⟩⟩
    simp [afterRound, I.sent]
  · have hne : l.wire ≠ [] := by
      intro hnil
      rw [(waits_iff I hc).mpr ⟨hnil, hu⟩] at hw
      cases hw
    obtain ⟨k, pr', c', hk, hrun, hnext⟩ :=
      @(buffers_async b).more _ _ _ (.new l.wire fun _ => n) hhead hu hne
    rw [hrun] at hstep
    refine ⟨_, pend, u ++ l.wire.take ((Source.new l.wire fun _ => n).len k), hstep,
      ⟨fun hc => by simp [afterRound] at hc, ?_, ?_, I.readable, I.sent, I.buf, I.stopped⟩, rfl, rfl,
      Or.inr ⟨length_stream_next hk hne, rfl, rfl⟩⟩
    · intro c hc
      obtain rfl := Option.some.inj hc
      exact hnext
    · exact (append_stream_next u _ k).trans I.bytes

theorem Inv.step_setSeq (I : Inv b l pend u) (q : UInt8) :
    Inv b { l with writer := l.writer.setSeq q } pend u :=
  ⟨I.idle, I.head, I.bytes, I.readable, I.sent, I.buf, I.stopped⟩

theorem Inv.send (I : Inv b l pend u) {p : Packet} {accept : ℕ → ℕ → ℕ}
    (h : Recoverable b (.new accept) l.writer.seq p) :
    ∃ l' x, step b l (.send p accept) = some l' ∧ Inv b l' (pend ++ [x]) u := by
  obtain ⟨hread, hw⟩ := readable_of_recoverable h
  have hwriter : l.writer = ⟨[], l.writer.seq⟩ := by
    rw [← I.buf]
  obtain ⟨s', t, hrun⟩ := run_endPackets [p] l.writer.seq (.new accept)
  rw [← hwriter] at hrun
  refine ⟨_, (l.writer.seq, p), congrArg (fun x => some (afterSend l p x)) hrun, ⟨I.idle, I.head, ?_, ?_,
    ?_, rfl, I.stopped⟩⟩
  · have hall : writtenAll (.new accept) l.writer.seq [p] = Sent.bytes (l.writer.seq, p) := by
      simp [writtenAll, hw]
    change u ++ (l.wire ++ ([] ++ writtenAll (.new accept) l.writer.seq [p])) = _
    rw [hall, List.nil_append, ← List.append_assoc, I.bytes, List.flatMap_append]
    simp
  · exact List.forall_mem_append.mpr ⟨I.readable, by simpa using hread⟩
  · simp only [afterSend, I.sent, List.map_append, List.append_assoc]
    rfl

theorem Inv.begin (I : Inv b l pend u) (hc : l.call = none) :
    ∃ l', step b l .call = some l' ∧ Inv b l' pend u ∧ l'.sent = l.sent ∧ l'.wire = l.wire ∧
      l'.call.isSome := by
  obtain ⟨pr', hrun, hhead⟩ := enter_async () (I.idle hc)
  refine ⟨{ l with reader := pr', call := some packetBufferSize }, ?_, ⟨fun hc => by simp at hc, ?_,
    I.bytes, I.readable, I.sent, I.buf, I.stopped⟩, rfl, rfl, rfl⟩
  · simp only [step, hc, Option.isSome_none, Bool.false_eq_true, if_false, hrun, afterStart]
  · intro c hc
    obtain rfl := Option.some.inj hc
    exact hhead

/-- **Every step** of what is understood keeps the invariant. -/
theorem Inv.kept (I : Inv b l pend u) (hok : Understood b l a) (h : step b l a = some l') :
    ∃ pend' u', Inv b l' pend' u' := by
  cases a with
  | setSeq q =>
    obtain rfl := Option.some.inj h
    exact ⟨pend, u, I.step_setSeq q⟩
  | send p accept =>
    obtain ⟨l1, x, hstep, I1⟩ := I.send hok
    obtain rfl := Option.some.inj (hstep.symm.trans h)
    exact ⟨_, u, I1⟩
  | call =>
    rcases hc : l.call with _ | c
    · obtain ⟨l1, hstep, I1, -⟩ := I.begin hc
      obtain rfl := Option.some.inj (hstep.symm.trans h)
      exact ⟨pend, u, I1⟩
    · simp [step, hc] at h
  | round n =>
    rcases hc : l.call with _ | c
    · simp [step, hc] at h
    · rcases hw : waits b l with _ | _
      · obtain ⟨l1, pend1, u1, hstep, I1, -⟩ := I.round hc hw n
        obtain rfl := Option.some.inj (hstep.symm.trans h)
        exact ⟨pend1, u1, I1⟩
      · simp [step, hc, hw] at h

/-- What the reader still has to do: bytes to read, messages to take, a call to begin. -/
def work (l : State) : ℕ :=
  l.wire.length + 2 * (l.sent.length - l.received.length) + if l.call = none then 1 else 0

/-- The reader's part in the link. -/
def Act.OfReader : Act → Prop
  | .call | .round _ => True
  | _ => False

theorem Inv.pending (I : Inv b l pend u) : l.sent.length - l.received.length = pend.length := by
  rw [I.sent]
  simp

/-- **The reader gets on**: every step of its own leaves less to do. -/
theorem Inv.work_lt (I : Inv b l pend u) (ha : a.OfReader) (h : step b l a = some l') :
    (∃ pend' u', Inv b l' pend' u') ∧ work l' < work l ∧ l'.sent = l.sent := by
  cases a with
  | call =>
    rcases hc : l.call with _ | c
    · obtain ⟨l1, hstep, I1, hsent, hwire, hcall⟩ := I.begin hc
      obtain rfl := Option.some.inj (hstep.symm.trans h)
      refine ⟨⟨pend, u, I1⟩, ?_, hsent⟩
      rw [work, work, I.pending, I1.pending, hwire, hc, if_pos rfl, if_neg (Option.isSome_iff_ne_none.mp hcall)]
      omega
    · simp [step, hc] at h
  | round n =>
    rcases hc : l.call with _ | c
    · simp [step, hc] at h
    · rcases hw : waits b l with _ | _
      · obtain ⟨l1, pend1, u1, hstep, I1, hsent, -, hcase⟩ := I.round hc hw n
        obtain rfl := Option.some.inj (hstep.symm.trans h)
        refine ⟨⟨pend1, u1, I1⟩, ?_, hsent⟩
        rw [work, work, I.pending, I1.pending, hc]
        rcases hcase with ⟨hwire, hlen, hcall⟩ | ⟨hwire, rfl, hcall⟩
        · rw [hwire, hcall]
          simp only [if_true, reduceCtorEq, if_false]
          omega
        · rw [if_neg (Option.isSome_iff_ne_none.mp hcall)]
          simp only [reduceCtorEq, if_false]
          omega
      · simp [step, hc, hw] at h
  | setSeq q => exact ha.elim
  | send p accept => exact ha.elim

/-- With a message on its way the reader has a step to take, whatever the network hands over. -/
theorem Inv.exists_step (I : Inv b l pend u) (hp : pend ≠ []) (n : ℕ) :
    (step b l .call).isSome ∨ (step b l (.round n)).isSome := by
  rcases hc : l.call with _ | c
  · obtain ⟨l1, hstep, -⟩ := I.begin hc
    exact Or.inl (by rw [hstep]; rfl)
  · rcases hw : waits b l with _ | _
    · obtain ⟨l1, -, -, hstep, -⟩ := I.round hc hw n
      exact Or.inr (by rw [hstep]; rfl)
    · obtain ⟨hnil, hu⟩ := (waits_iff I hc).mp hw
      exact absurd hnil (I.wire_ne_nil hp hu)

/-- Steps of the reader, one after another. -/
theorem Inv.reader : ∀ {bs : List Act} {l : State} {pend : List Sent} {u : Bytes}, Inv b l pend u →
    (∀ a ∈ bs, a.OfReader) → bs.foldlM (step b) l = some l' →
    (∃ pend' u', Inv b l' pend' u') ∧ work l' + bs.length ≤ work l ∧ l'.sent = l.sent
  | [], l, pend, u, I, _, h => by
    obtain rfl := Option.some.inj h
    exact ⟨⟨pend, u, I⟩, le_rfl, rfl⟩
  | a :: bs, l, pend, u, I, ha, h => by
    rw [List.foldlM_cons] at h
    obtain ⟨l1, h1, hrest⟩ := Option.bind_eq_some_iff.mp h
    obtain ⟨⟨pend1, u1, I1⟩, hlt, hsent⟩ := I.work_lt (ha a (by simp)) h1
    obtain ⟨hI, hle, hsent1⟩ := Inv.reader I1 (fun a' h' => ha a' (by simp [h'])) hrest
    refine ⟨hI, ?_, hsent1.trans hsent⟩
    rw [List.length_cons]
    omega

end Steps

/-! ### Runs -/

section Runs
variable {b : Profile} {as : List Act} {l : State}

theorem exists_inv (hok : (system b).Every (Understood b) as) (h : (system b).run as = some l) :
    ∃ pend u, Inv b l pend u :=
  System.invariant_of_every (S := system b) (I := fun l => ∃ pend u, Inv b l pend u)
    ⟨[], [], fun _ => ⟨rfl, fun h => absurd rfl h⟩, fun c hc => by simp [system] at hc, rfl, by simp, rfl,
      rfl, rfl⟩
    (fun l a l' ⟨_, _, I⟩ ha hstep => I.kept ha hstep) hok h

/-- **The link is a queue.** Let the writer send payloads that are understood, with any numbers and any
short writes, and let the reader call `next_async` again and again, in any interleaving and with any
pieces. What it has received are the first of the messages that were sent, each once and in their order,
with the number of its last frame; neither end ever fails; and everything sent has been received exactly
if there is nothing on the wire and nothing unparsed in the reader. -/
theorem link_fifo (hok : (system b).Every (Understood b) as) (h : (system b).run as = some l) :
    l.received <+: l.sent ∧ l.stopped = none ∧
      (l.received = l.sent ↔ l.wire = [] ∧ l.reader.remaining = 0) := by
  obtain ⟨pend, u, I⟩ := exists_inv hok h
  have hremaining : l.reader.remaining = u.length := by
    rcases hc : l.call with _ | c
    · exact (I.idle hc).1
    · exact (I.head c hc).remaining
  refine ⟨⟨_, I.sent.symm⟩, I.stopped, ?_⟩
  rw [hremaining, List.length_eq_zero_iff, I.sent, eq_comm, List.append_right_eq_self, List.map_eq_nil_iff,
    and_comm, ← List.append_eq_nil_iff, I.bytes]
  constructor
  · rintro rfl
    rfl
  · intro hnil
    by_contra hp
    obtain ⟨x, xs, rfl⟩ := List.exists_cons_of_ne_nil hp
    have hread := I.readable x (by simp) []
    rw [List.flatMap_cons, List.append_eq_nil_iff] at hnil
    rw [List.append_nil, hnil.1, packet_nil] at hread
    cases hread

/-- **The reader empties the link.** From any such state on the steps of the reader are bounded in
number, however small the pieces are, and where it cannot go on it has received everything. -/
theorem link_delivers (hok : (system b).Every (Understood b) as) (h : (system b).run as = some l)
    {bs : List Act} (hbs : ∀ a ∈ bs, a.OfReader) {l' : State} (hrun : bs.foldlM (step b) l = some l') :
    bs.length ≤ work l ∧ l'.sent = l.sent ∧
      ((∃ n, step b l' .call = none ∧ step b l' (.round n) = none) → l'.received = l.sent) := by
  obtain ⟨pend, u, I⟩ := exists_inv hok h
  obtain ⟨⟨pend', u', I'⟩, hle, hsent⟩ := I.reader hbs hrun
  refine ⟨by omega, hsent, fun ⟨n, hcall, hround⟩ => ?_⟩
  by_contra hne
  have hp : pend' ≠ [] := by
    rintro rfl
    refine hne (hsent.symm.trans ?_).symm
    rw [I'.sent]
    simp
  rcases I'.exists_step hp n with hs | hs
  · simp [hcall] at hs
  · simp [hround] at hs

/-- Two payloads are sent, of the second of which the reader has had four bytes when it takes the first. -/
def halfway : List Act :=
  [.send [1] fun _ _ => 2, .send [2, 3] fun n _ => n, .call, .round 9, .round 9]

/-- The reader goes on, and begins another call. -/
def onward : List Act := [.call, .round 9, .round 9, .call]

theorem every_halfway : (system .release).Every (Understood .release) halfway :=
  System.every_of_everyFrom ⟨⟨by decide, by decide⟩, fun _ _ => ⟨⟨by decide, fun hb => by cases hb⟩,
    fun _ _ => ⟨trivial, fun _ _ => ⟨trivial, fun _ _ => ⟨trivial, fun _ _ => trivial⟩⟩⟩⟩⟩

theorem link_fifo_halfway : ∃ l, (system .release).run halfway = some l ∧ l.received = [(0, [1])] ∧
    l.sent = [(0, [1]), (1, [2, 3])] ∧ l.received <+: l.sent ∧ l.stopped = none := by
  have hrun : ((system .release).run halfway).map (fun l => (l.received, l.sent)) =
      some ([(0, [1])], [(0, [1]), (1, [2, 3])]) := by decide +kernel
  obtain ⟨l, hl, heq⟩ := Option.map_eq_some_iff.mp hrun
  obtain ⟨hreceived, hsent⟩ := Prod.mk.inj heq
  obtain ⟨hfifo, hstopped, -⟩ := link_fifo every_halfway hl
  exact ⟨l, hl, hreceived, hsent, hfifo, hstopped⟩

theorem link_delivers_onward : ∃ l l', (system .release).run halfway = some l ∧
    onward.foldlM (step .release) l = some l' ∧ l'.received = l.sent := by
  have hrun : ((system .release).run halfway).bind (fun l => (onward.foldlM (step .release) l).map
      fun l' => ((step .release l' .call).isNone, (step .release l' (.round 9)).isNone)) =
      some (true, true) := by decide +kernel
  obtain ⟨l, hl, hrun⟩ := Option.bind_eq_some_iff.mp hrun
  obtain ⟨l', hl', heq⟩ := Option.map_eq_some_iff.mp hrun
  obtain ⟨hcall, hround⟩ := Prod.mk.inj heq
  have hbs : ∀ a ∈ onward, a.OfReader := by simp [onward, Act.OfReader]
  refine ⟨l, l', hl, hl', (link_delivers every_halfway hl hbs hl').2.2 ⟨9, ?_, ?_⟩⟩
  · simpa using hcall
  · simpa using hround

end Runs

end Haentgl.Protocol.Link
