import Haentgl.Server.Invariants

/-! # A client and a backend around the proxy

The state of both links for one pooled connection, packet by packet. The client is a list of messages
and what comes after them; its socket may break after any number of writes. The backend answers every
message it receives with a list of messages, which may depend on all it has received so far, and it may
hang up. The socket of a backend that has hung up is half-closed at first: it takes any number of messages,
which nobody answers, before a write fails. A read of a backend that is silent and has not hung up never
returns: the proxy is `blocked`.

The links keep the packets that went over them, in both directions. The phase is the backend's own view
of the connection.

Messages arrive whole here. For the frames of a message see `Haentgl.Protocol.Reader` and
`Haentgl.Protocol.Writer`. -/

namespace Haentgl.Server.Parties

open Haentgl.Lib.Parse Haentgl.Lib.Program Haentgl.Protocol.Constants Haentgl.Protocol.Io
open Haentgl.Protocol.Packets Haentgl.Protocol.Basic Haentgl.Server.Links Haentgl.Server.Forwarders
open Haentgl.Server.Invariants
open Haentgl.Protocol.Writer (seqAfter)
open Haentgl.Lib.Program.Proc (Keeps Spec)

/-- A message with a number: that of its last frame if it is read, that of its first frame if it is
written. -/
abbrev Message := UInt8 × Packet

/-- A message on a link. -/
structure Event where
  fromProxy : Bool
  msg : Message
  deriving DecidableEq, Repr

/-- Where the backend is in the life of the connection: before the handshake response, in an
authentication, waiting for or serving commands, gone. -/
inductive Phase
  | handshake
  | auth
  | command
  | closed
  deriving DecidableEq, Repr

/-- What the backend does about a message. -/
structure Reply where
  packets : List Message
  hangUp : Bool
  deriving DecidableEq, Repr

/-- A backend: its reply to the last of the messages it has received. -/
abbrev Respond := List Message → Reply

structure World where
  toCome : List Message
  clientEnd : Option IoError
  writesLeft : Option ℕ
  inbox : List Message
  phase : Phase
  /-- The messages that the socket of a backend still takes once the backend has hung up. -/
  lingering : ℕ
  clientLink : List Event
  backendLink : List Event
  deriving DecidableEq, Repr

/-- The phase at the end of an authentication. -/
def verdict (packets : List Message) : Phase :=
  match packets.getLast? with
  | some (_, p) => if isOkPacket p then .command else if isErrPacket p then .closed else .auth
  | none => .auth

/-- The phase after a message and the reply to it. -/
def Phase.after (ph : Phase) (m : Packet) (r : Reply) : Phase :=
  if r.hangUp then .closed
  else
    match ph with
    | .handshake | .auth => verdict r.packets
    | .command =>
      if m.head? = some CommandCode.comChangeUser.toU8 then verdict r.packets else .command
    | .closed => .closed

/-- The messages of one direction. -/
def sent (fromProxy : Bool) (link : List Event) : List Message :=
  (link.filter fun e => e.fromProxy = fromProxy).map Event.msg

namespace World

/-- What went out to the backend. -/
def received (w : World) : List Message := sent true w.backendLink

/-- What the proxy has read from the backend. -/
def taken (w : World) : List Message := sent false w.backendLink

/-- What the client has received. -/
def delivered (w : World) : List Message := sent true w.clientLink

/-- The backend has hung up and its socket takes no more: the next write fails. -/
def Reset (w : World) : Prop := w.phase = .closed ∧ w.lingering = 0

instance (w : World) : Decidable w.Reset := inferInstanceAs (Decidable (_ ∧ _))

end World

/-- The error of a broken socket. -/
def brokenPipe : Stop := .io ⟨.connectionReset, "connection reset"⟩

/-- The next message of the client is read. -/
def World.hear (w : World) (m : Message) : World :=
  { w with toCome := w.toCome.tail, clientLink := w.clientLink ++ [⟨false, m⟩] }

/-- The next message of the backend is read. -/
def World.take (w : World) (m : Message) : World :=
  { w with inbox := w.inbox.tail, backendLink := w.backendLink ++ [⟨false, m⟩] }

/-- A message goes to the client. -/
def World.deliver (w : World) (m : Message) : World :=
  { w with writesLeft := w.writesLeft.map (· - 1), clientLink := w.clientLink ++ [⟨true, m⟩] }

section Ops
variable (R : Respond)

def readClient : Proc Stop World (Option Message) := do
  let w ← Proc.get
  match w.toCome with
  | m :: _ =>
    Proc.modify fun w => w.hear m
    return some m
  | [] =>
    match w.clientEnd with
    | none => return none
    | some e => Proc.stop (.io e)

def readBackend : Proc Stop World (Option Message) := do
  let w ← Proc.get
  match w.inbox with
  | m :: _ =>
    Proc.modify fun w => w.take m
    return some m
  | [] => if w.phase = .closed then return none else Proc.stop (.blocked .backend)

def writeClient (m : Message) : Proc Stop World Unit := do
  let w ← Proc.get
  if w.writesLeft = some 0 then Proc.stop brokenPipe
  else Proc.modify fun w => w.deliver m

/-- What the backend sends in answer to a message; one that has hung up does not answer. -/
def World.answer (w : World) (m : Message) : List Message :=
  if w.phase = .closed then [] else (R (w.received ++ [m])).packets

/-- The world after a message to the backend. -/
def World.receive (w : World) (m : Message) : World :=
  { w with
    inbox := w.inbox ++ w.answer R m
    phase := w.phase.after m.2 (R (w.received ++ [m]))
    lingering := if w.phase = .closed then w.lingering - 1 else w.lingering
    backendLink := w.backendLink ++ [⟨true, m⟩] }

def writeBackend (m : Message) : Proc Stop World Unit := do
  let w ← Proc.get
  if w.Reset then Proc.stop brokenPipe
  else Proc.modify fun w => w.receive R m

def net : Net World where
  next
    | .client => readClient
    | .backend => readBackend
  send
    | .client, q, p => writeClient (q, p)
    | .backend, q, p => writeBackend R (q, p)
  flush _ := pure ()

end Ops

section Answer
variable {R : Respond} {w : World} {m : Message}

theorem World.answer_open (h : w.phase ≠ .closed) : w.answer R m = (R (w.received ++ [m])).packets :=
  if_neg h

theorem World.answer_closed (h : w.phase = .closed) : w.answer R m = [] := if_pos h

/-- The answer depends on the phase and on what went out before. -/
theorem World.answer_congr {w' : World} (hph : w'.phase = w.phase) (hrec : w'.received = w.received) :
    w'.answer R m = w.answer R m := by
  rw [World.answer, World.answer, hph, hrec]

theorem World.not_reset_of_open (h : w.phase ≠ .closed) : ¬ w.Reset := fun hr => h hr.1

end Answer

@[simp] theorem World.received_hear (w : World) (m : Message) : (w.hear m).received = w.received := rfl

@[simp] theorem World.received_take (w : World) (m : Message) : (w.take m).received = w.received := by
  simp [World.received, World.take, sent]

@[simp] theorem World.received_deliver (w : World) (m : Message) :
    (w.deliver m).received = w.received := rfl

@[simp] theorem World.received_receive (R : Respond) (w : World) (m : Message) :
    (w.receive R m).received = w.received ++ [m] := by
  simp [World.received, World.receive, sent]

@[simp] theorem World.taken_hear (w : World) (m : Message) : (w.hear m).taken = w.taken := rfl

@[simp] theorem World.taken_take (w : World) (m : Message) : (w.take m).taken = w.taken ++ [m] := by
  simp [World.taken, World.take, sent]

@[simp] theorem World.taken_deliver (w : World) (m : Message) : (w.deliver m).taken = w.taken := rfl

@[simp] theorem World.taken_receive (R : Respond) (w : World) (m : Message) :
    (w.receive R m).taken = w.taken := by
  simp [World.taken, World.receive, sent]

@[simp] theorem World.delivered_hear (w : World) (m : Message) : (w.hear m).delivered = w.delivered := by
  simp [World.delivered, World.hear, sent]

@[simp] theorem World.delivered_take (w : World) (m : Message) : (w.take m).delivered = w.delivered := rfl

@[simp] theorem World.delivered_deliver (w : World) (m : Message) :
    (w.deliver m).delivered = w.delivered ++ [m] := by
  simp [World.delivered, World.deliver, sent]

@[simp] theorem World.delivered_receive (R : Respond) (w : World) (m : Message) :
    (w.receive R m).delivered = w.delivered := rfl

/-- A backend in the command phase with the given messages unread, and a client that says no more. -/
def World.idle (inbox : List Message) : World := ⟨[], none, none, inbox, .command, 0, [], []⟩

/-- A backend that never answers. -/
def silent : Respond := fun _ => ⟨[], false⟩

/-! ### The four operations -/

theorem run_readClient_cons {w : World} {m : Message} {ms : List Message} (h : w.toCome = m :: ms) :
    readClient.run w = (.ok (some m), w.hear m) := by
  rw [readClient, Proc.run_bind_ok (Proc.run_get _)]
  simp only [h]
  rfl

theorem run_readClient_nil {w : World} (h : w.toCome = []) :
    readClient.run w = (w.clientEnd.elim (.ok none) fun e => .error (.io e), w) := by
  rw [readClient, Proc.run_bind_ok (Proc.run_get _)]
  simp only [h]
  cases w.clientEnd <;> rfl

theorem run_readBackend_nil {w : World} (h : w.inbox = []) :
    readBackend.run w = (if w.phase = .closed then .ok none else .error (.blocked .backend), w) := by
  rw [readBackend, Proc.run_bind_ok (Proc.run_get _)]
  simp only [h]
  split_ifs <;> rfl

theorem run_readBackend_cons {w : World} {m : Message} {ms : List Message} (h : w.inbox = m :: ms) :
    readBackend.run w = (.ok (some m), w.take m) := by
  rw [readBackend, Proc.run_bind_ok (Proc.run_get _)]
  simp only [h]
  rfl

theorem run_writeClient {w : World} (h : w.writesLeft ≠ some 0) (m : Message) :
    (writeClient m).run w = (.ok (), w.deliver m) := by
  rw [writeClient, Proc.run_bind_ok (Proc.run_get _), if_neg h]
  rfl

theorem run_writeClient_broken {w : World} (h : w.writesLeft = some 0) (m : Message) :
    (writeClient m).run w = (.error brokenPipe, w) := by
  rw [writeClient, Proc.run_bind_ok (Proc.run_get _), if_pos h]
  rfl

theorem run_writeBackend_reset {R : Respond} {w : World} (h : w.Reset) (m : Message) :
    (writeBackend R m).run w = (.error brokenPipe, w) := by
  rw [writeBackend, Proc.run_bind_ok (Proc.run_get _), if_pos h]
  rfl

theorem run_writeBackend {R : Respond} {w : World} (h : ¬ w.Reset) (m : Message) :
    (writeBackend R m).run w = (.ok (), w.receive R m) := by
  rw [writeBackend, Proc.run_bind_ok (Proc.run_get _), if_neg h]
  rfl

/-! ### What every operation keeps -/

section Keep
variable {R : Respond} {J : World → Prop}

theorem keeps_readClient (hhear : ∀ w m ms, w.toCome = m :: ms → J w → J (w.hear m)) :
    Keeps J readClient := by
  intro w hw
  rcases htc : w.toCome with _ | ⟨m, ms⟩
  · rw [run_readClient_nil htc]
    exact hw
  · rw [run_readClient_cons htc]
    exact hhear w m ms htc hw

theorem keeps_readBackend (htake : ∀ w m ms, w.inbox = m :: ms → J w → J (w.take m)) :
    Keeps J readBackend := by
  intro w hw
  rcases hin : w.inbox with _ | ⟨m, ms⟩
  · rw [run_readBackend_nil hin]
    exact hw
  · rw [run_readBackend_cons hin]
    exact htake w m ms hin hw

theorem keeps_next (hhear : ∀ w m ms, w.toCome = m :: ms → J w → J (w.hear m))
    (htake : ∀ w m ms, w.inbox = m :: ms → J w → J (w.take m)) (side : Side) :
    Keeps J ((net R).next side) := by
  cases side with
  | client => exact keeps_readClient hhear
  | backend => exact keeps_readBackend htake

theorem keeps_sendClient (hdeliver : ∀ w m, J w → J (w.deliver m)) (q : UInt8) (p : Packet) :
    Keeps J ((net R).send .client q p) := by
  intro w hw
  change J ((writeClient (q, p)).run w).2
  by_cases h : w.writesLeft = some 0
  · rw [run_writeClient_broken h]
    exact hw
  · rw [run_writeClient h]
    exact hdeliver w _ hw

theorem keeps_sendBackend (hreceive : ∀ w m, ¬ w.Reset → J w → J (w.receive R m)) (q : UInt8)
    (p : Packet) : Keeps J ((net R).send .backend q p) := by
  intro w hw
  change J ((writeBackend R (q, p)).run w).2
  by_cases h : w.Reset
  · rw [run_writeBackend_reset h]
    exact hw
  · rw [run_writeBackend h]
    exact hreceive w _ h hw

end Keep

/-- A property of the links that the four operations keep. -/
structure KeepsWorld (R : Respond) (J : World → Prop) : Prop where
  hear : ∀ w m ms, w.toCome = m :: ms → J w → J (w.hear m)
  take : ∀ w m ms, w.inbox = m :: ms → J w → J (w.take m)
  deliver : ∀ w m, J w → J (w.deliver m)
  receive : ∀ w m, ¬ w.Reset → J w → J (w.receive R m)

theorem KeepsWorld.ops {R : Respond} {J : World → Prop} (K : KeepsWorld R J) :
    KeepsOps (net R) fun c => J c.net where
  next side c hc := keeps_next (R := R) K.hear K.take side c.net hc
  endPacket side p c hc := by
    rw [run_endPacket]
    cases side
    · exact keeps_sendClient (R := R) K.deliver _ p _ hc
    · exact keeps_sendBackend K.receive _ p _ hc
  setSeq side q c hc := by simpa [run_setSeq] using hc
  flush _ _ hc := hc

/-- What was received stays received. -/
theorem keepsWorld_received (R : Respond) (l : List Message) : KeepsWorld R fun w => l <+: w.received where
  hear _ _ _ _ h := h
  take _ _ _ _ h := by simpa using h
  deliver _ _ h := h
  receive w m _ h := by
    rw [World.received_receive]
    exact h.trans (List.prefix_append _ _)

section Rules
variable {R : Respond} {P : World → Prop} {E : Stop → World → Prop}

theorem spec_orPanic_bind {α β : Type} {I : Conn World → Prop} {Q : β → Conn World → Prop}
    {F : Stop → Conn World → Prop} {f : α → Proc Stop (Conn World) β} (o : Option α)
    (hF : o = none → ∀ c, I c → F .panic c) (hf : ∀ a, o = some a → Spec I (f a) Q F) :
    Spec I (orPanic o >>= f) Q F := by
  rcases o with _ | a
  · exact fun c hc => hF rfl c hc
  · exact hf a rfl

/-- A read of a backend that has nothing to say. -/
theorem run_asyncPacketRead_nil {c : Conn World} (h : c.net.inbox = []) :
    (asyncPacketRead (net R) .backend).run c =
      (.error (if c.net.phase = .closed then .io ⟨.connectionAborted, "connection disconnect."⟩
        else .blocked .backend), c) := by
  have hread : (onNet ((net R).next .backend)).run c = _ := run_onNet (run_readBackend_nil h)
  rw [asyncPacketRead]
  by_cases hph : c.net.phase = .closed
  · rw [if_pos hph] at hread
    rw [Proc.run_bind_ok hread, if_pos hph]
    rfl
  · rw [if_neg hph] at hread
    rw [Proc.run_bind_error hread, if_neg hph]

/-- A read of a client that says no more. -/
theorem run_asyncPacketRead_client_nil {c : Conn World} (h : c.net.toCome = []) :
    ∃ e, (asyncPacketRead (net R) .client).run c = (.error (.io e), c) := by
  have hread : (onNet ((net R).next .client)).run c = _ := run_onNet (run_readClient_nil h)
  rw [asyncPacketRead]
  rcases hend : c.net.clientEnd with _ | e
  · rw [hend] at hread
    rw [Proc.run_bind_ok hread]
    exact ⟨_, rfl⟩
  · rw [hend] at hread
    rw [Proc.run_bind_error hread]
    exact ⟨_, rfl⟩

theorem spec_readBackend {Q : Message → World → Prop}
    (hQ : ∀ w m, w.inbox.head? = some m → P w → Q m (w.take m)) (hE : ∀ w e, e ≠ .panic → P w → E e w) :
    Spec (fun c => P c.net) (asyncPacketRead (net R) .backend) (fun m c => Q m c.net)
      (fun e c => E e c.net) := by
  intro c hc
  rcases hin : c.net.inbox with _ | ⟨m, ms⟩
  · rw [run_asyncPacketRead_nil hin]
    refine hE _ _ ?_ hc
    split_ifs <;> simp
  · have hread : (asyncPacketRead (net R) .backend).run c = (.ok m, { c with net := c.net.take m }) :=
      run_asyncPacketRead_some (run_readBackend_cons hin)
    rw [hread]
    exact hQ c.net m (by rw [hin]; rfl) hc

theorem spec_readClient {Q : Message → World → Prop}
    (hQ : ∀ w m, w.toCome.head? = some m → P w → Q m (w.hear m)) (hE : ∀ w e, e ≠ .panic → P w → E e w) :
    Spec (fun c => P c.net) (asyncPacketRead (net R) .client) (fun m c => Q m c.net)
      (fun e c => E e c.net) := by
  intro c hc
  rcases htc : c.net.toCome with _ | ⟨m, ms⟩
  · obtain ⟨e, hread⟩ := run_asyncPacketRead_client_nil (R := R) htc
    rw [hread]
    exact hE _ _ (by simp) hc
  · rw [asyncPacketRead]
    have hread : (onNet ((net R).next .client)).run c = _ := run_onNet (run_readClient_cons htc)
    rw [Proc.run_bind_ok hread]
    exact hQ c.net m (by rw [htc]; rfl) hc

theorem spec_writePacket (side : Side) (q : UInt8) (p : Packet) {Q : World → Prop}
    (hQ : ∀ w w', ((net R).send side q p).run w = (.ok (), w') → P w → Q w')
    (hE : ∀ w w' e, ((net R).send side q p).run w = (.error e, w') → P w → E e w') :
    Spec (fun c => P c.net) (writePacket (net R) side q p) (fun _ c => Q c.net)
      (fun e c => E e c.net) := by
  intro c hc
  rcases hsend : ((net R).send side q p).run c.net with ⟨e | u, w⟩
  · rw [run_writePacket_error (m := (q, p)) hsend]
    exact hE _ _ _ hsend hc
  · rw [run_writePacket (m := (q, p)) hsend rfl]
    exact hQ _ _ hsend hc

theorem spec_writeClient (q : UInt8) (p : Packet) {Q : World → Prop}
    (hQ : ∀ w, P w → Q (w.deliver (q, p))) (hE : ∀ w, P w → E brokenPipe w) :
    Spec (fun c => P c.net) (writePacket (net R) .client q p) (fun _ c => Q c.net)
      (fun e c => E e c.net) := by
  refine spec_writePacket .client q p (fun w w' h hw => ?_) (fun w w' e h hw => ?_)
  · by_cases hb : w.writesLeft = some 0
    · cases (run_writeClient_broken hb (q, p)).symm.trans h
    · cases (run_writeClient hb (q, p)).symm.trans h
      exact hQ w hw
  · by_cases hb : w.writesLeft = some 0
    · cases (run_writeClient_broken hb (q, p)).symm.trans h
      exact hE w hw
    · cases (run_writeClient hb (q, p)).symm.trans h

theorem spec_writeBackend (q : UInt8) (p : Packet) {Q : World → Prop}
    (hQ : ∀ w, ¬ w.Reset → P w → Q (w.receive R (q, p))) (hE : ∀ w, P w → E brokenPipe w) :
    Spec (fun c => P c.net) (writePacket (net R) .backend q p) (fun _ c => Q c.net)
      (fun e c => E e c.net) := by
  refine spec_writePacket .backend q p (fun w w' h hw => ?_) (fun w w' e h hw => ?_)
  · by_cases hb : w.Reset
    · cases (run_writeBackend_reset hb (q, p)).symm.trans h
    · cases (run_writeBackend hb (q, p)).symm.trans h
      exact hQ w hb hw
  · by_cases hb : w.Reset
    · cases (run_writeBackend_reset hb (q, p)).symm.trans h
      exact hE w hw
    · cases (run_writeBackend hb (q, p)).symm.trans h

end Rules

/-! ### Relaying to the client -/

/-- The state after the next message of the backend went to the client. -/
def relayOne (c : Conn World) (m : Message) : Conn World :=
  { c with clientSeq := seqAfter m.1 m.2, net := (c.net.take m).deliver m }

/-- The state after a row of messages. -/
def relay (ms : List Message) (c : Conn World) : Conn World := ms.foldl relayOne c

@[simp] theorem relay_nil (c : Conn World) : relay [] c = c := rfl

@[simp] theorem relay_cons (m : Message) (ms : List Message) (c : Conn World) :
    relay (m :: ms) c = relay ms (relayOne c m) := rfl

theorem relay_append (ms ns : List Message) (c : Conn World) :
    relay (ms ++ ns) c = relay ns (relay ms c) := List.foldl_append

theorem relay_inbox : ∀ (ms : List Message) (c : Conn World),
    (relay ms c).net.inbox = c.net.inbox.drop ms.length
  | [], _ => rfl
  | m :: ms, c => by
    rw [relay_cons, relay_inbox ms]
    simp [relayOne, World.take, World.deliver]

theorem relay_clientLink : ∀ (ms : List Message) (c : Conn World),
    (relay ms c).net.clientLink = c.net.clientLink ++ ms.map (Event.mk true)
  | [], c => by simp
  | m :: ms, c => by
    rw [relay_cons, relay_clientLink ms]
    simp [relayOne, World.take, World.deliver]

theorem relay_backendLink : ∀ (ms : List Message) (c : Conn World),
    (relay ms c).net.backendLink = c.net.backendLink ++ ms.map (Event.mk false)
  | [], c => by simp
  | m :: ms, c => by
    rw [relay_cons, relay_backendLink ms]
    simp [relayOne, World.take, World.deliver]

theorem relay_toCome : ∀ (ms : List Message) (c : Conn World), (relay ms c).net.toCome = c.net.toCome
  | [], _ => rfl
  | m :: ms, c => relay_toCome ms (relayOne c m)

theorem relay_received : ∀ (ms : List Message) (c : Conn World), (relay ms c).net.received = c.net.received
  | [], _ => rfl
  | m :: ms, c => by
    rw [relay_cons, relay_received ms]
    simp [relayOne]

/-- The next messages of the backend are `ms`, and the client's socket is whole. -/
def Ready (ms : List Message) (c : Conn World) : Prop :=
  ms <+: c.net.inbox ∧ c.net.writesLeft = none

theorem Ready.tail {m : Message} {ms : List Message} {c : Conn World} (h : Ready (m :: ms) c) :
    Ready ms (relayOne c m) := by
  obtain ⟨⟨t, ht⟩, hw⟩ := h
  refine ⟨⟨t, ?_⟩, ?_⟩
  · simp [relayOne, World.take, World.deliver, ← ht]
  · simp [relayOne, World.take, World.deliver, hw]

theorem Ready.append_right {ms ns : List Message} : ∀ {c : Conn World}, Ready (ms ++ ns) c →
    Ready ns (relay ms c) := by
  induction ms with
  | nil => exact fun h => h
  | cons m ms ih => exact fun h => ih (Ready.tail h)

theorem Ready.append_left {ms ns : List Message} {c : Conn World} (h : Ready (ms ++ ns) c) :
    Ready ms c :=
  ⟨(List.prefix_append ms ns).trans h.1, h.2⟩

/-- One packet is relayed with its number. -/
theorem run_forward_cons (R : Respond) {m : Message} {ms : List Message} {c : Conn World}
    (h : c.net.inbox = m :: ms) (hw : c.net.writesLeft ≠ some 0) (isFlush : Bool) :
    (forwardOnePacket (net R) .client .backend isFlush).run c = (.ok m.2, relayOne c m) := by
  have hread : (asyncPacketRead (net R) .backend).run c = (.ok m, { c with net := c.net.take m }) :=
    run_asyncPacketRead_some (run_readBackend_cons h)
  have hsend : ((net R).send .client m.1 m.2).run (c.net.take m) =
      (.ok (), (c.net.take m).deliver m) :=
    run_writeClient (by simpa [World.take] using hw) m
  exact run_forwardOnePacket hread hsend rfl isFlush

theorem run_forward (R : Respond) {m : Message} {ms : List Message} {c : Conn World}
    (h : Ready (m :: ms) c) (isFlush : Bool) :
    (forwardOnePacket (net R) .client .backend isFlush).run c = (.ok m.2, relayOne c m) := by
  obtain ⟨⟨t, ht⟩, hw⟩ := h
  exact run_forward_cons R ht.symm (by simp [hw]) isFlush

/-- The backend has nothing for the client. -/
theorem run_forward_nil (R : Respond) {c : Conn World} (h : c.net.inbox = []) (isFlush : Bool) :
    (forwardOnePacket (net R) .client .backend isFlush).run c =
      (.error (if c.net.phase = .closed then .io ⟨.connectionAborted, "connection disconnect."⟩
        else .blocked .backend), c) :=
  Proc.run_bind_error (run_asyncPacketRead_nil h) _

/-- The packet for a client that is gone is read nevertheless. -/
theorem run_forward_broken (R : Respond) {m : Message} {ms : List Message} {c : Conn World}
    (h : c.net.inbox = m :: ms) (hw : c.net.writesLeft = some 0) (isFlush : Bool) :
    (forwardOnePacket (net R) .client .backend isFlush).run c =
      (.error brokenPipe, ⟨seqAfter m.1 m.2, c.backendSeq, c.net.take m⟩) := by
  have hread : (asyncPacketRead (net R) .backend).run c = (.ok m, { c with net := c.net.take m }) :=
    run_asyncPacketRead_some (run_readBackend_cons h)
  have hsend : (writeClient m).run (c.net.take m) = (.error brokenPipe, c.net.take m) :=
    run_writeClient_broken (by simpa [World.take] using hw) m
  rw [forwardOnePacket, Proc.run_bind_ok hread]
  simp only
  rw [Proc.run_bind_ok (run_setSeq _ _ _)]
  exact Proc.run_bind_error (run_endPacket_send (c := { c with net := c.net.take m }) hsend) _

theorem run_flushAll (R : Respond) (side : Side) (c : Conn World) :
    (flushAll (net R) side).run c = (.ok (), c) := rfl

end Haentgl.Server.Parties
