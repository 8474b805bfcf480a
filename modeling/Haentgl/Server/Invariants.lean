import Haentgl.Server.Proxy

/-! # Invariants of the forwarders

The forwarders reach the links through a few operations, so what these keep every forwarder keeps.
`Relays` is about any property of programs that the relaying of one packet has, `KeepsForward` about
invariants in particular; `KeepsOps` is about the single operations, which is more than some invariants
can do but carries them through the authentication as well. -/

namespace Haentgl.Server.Invariants

open Haentgl.Lib.Parse Haentgl.Lib.Program Haentgl.Protocol.Constants Haentgl.Protocol.Io
open Haentgl.Protocol.Packets Haentgl.Protocol.Basic Haentgl.Server.Links Haentgl.Server.Forwarders
open Haentgl.Server.Proxy
open Haentgl.Lib.Program.Proc (Keeps)

section
variable {σ : Type} {N : Net σ} {mc : MysqlCommon} {I : Conn σ → Prop}

theorem keeps_onConn {α : Type} {p : Proc Stop (Conn σ) α} (h : Keeps I p) :
    Keeps (fun s : Pooled σ => I s.conn) (onConn p) := fun s hs => h s.conn hs

theorem keeps_tryIo {α : Type} {p : Proc Stop (Conn σ) α} (h : Keeps I p) : Keeps I (tryIo p) := by
  intro c hc
  have hp := h c hc
  change I (tryIo p c).2
  unfold tryIo
  rcases hr : p.run c with ⟨e | a, c'⟩
  · rw [hr] at hp
    cases e <;> exact hp
  · rw [hr] at hp
    exact hp

/-! ### From the relaying of a packet -/

/-- A property of programs that relaying a packet to the client has. -/
structure Relays (N : Net σ) (P : (α : Type) → Proc Stop (Conn σ) α → Prop) : Prop extends
    Proc.Closed P where
  relay : ∀ isFlush, P _ (forwardOnePacket N .client .backend isFlush)
  flush : P _ (flushAll N .client)

section Relays
variable {P : (α : Type) → Proc Stop (Conn σ) α → Prop}

theorem closed_orPanic (C : Proc.Closed P) {α : Type} (a : Option α) : P α (orPanic a) := by
  cases a
  · exact C.stop _
  · exact C.pure _

theorem closed_readU16 (C : Proc.Closed P) (p : Packet) (pos : ℕ) : P _ (readU16 p pos) :=
  C.ite (C.pure _) (C.stop _)

theorem closed_unwrapResult (C : Proc.Closed P) {α : Type} (r : Except Failure (Bytes × α)) :
    P α (unwrapResult r) := by
  rcases r with _ | ⟨_, _⟩
  · exact C.stop _
  · exact C.pure _

theorem closed_parseErrPacket (C : Proc.Closed P) (caps : CapabilityFlags) (p : Packet) :
    P _ (parseErrPacket mc caps p) := C.bind (closed_orPanic C _) fun _ => C.pure _

namespace Relays

variable (K : Relays N P)
include K

/-- A round of `forward_until_result_end` relays a packet first. -/
theorem resultRound_rest (mc : MysqlCommon) (h : HandshakeResponse) (u : Unit) :
    ∃ f, Forwarders.resultRound N mc h u = forwardOnePacket N .client .backend false >>= f ∧
      ∀ p, P _ (f p) := by
  have C := K.toClosed
  refine ⟨_, rfl, fun p => C.ite ?_ (C.ite (C.ite ?_ (C.pure _)) (C.ite ?_ (C.pure _)))⟩
  · exact C.bind (closed_parseErrPacket C _ _) fun _ => C.bind K.flush fun _ => C.pure _
  · exact C.bind K.flush fun _ => C.bind (closed_unwrapResult C _) fun _ => C.pure _
  · exact C.bind (closed_unwrapResult C _) fun _ => C.bind K.flush fun _ => C.pure _

theorem resultRound (h : HandshakeResponse) (u : Unit) : P _ (resultRound N mc h u) := by
  obtain ⟨f, hf, hP⟩ := K.resultRound_rest mc h u
  rw [hf]
  exact K.bind (K.relay _) hP

theorem forwardUntilResultEnd (rounds : ℕ) (h : HandshakeResponse) :
    P _ (forwardUntilResultEnd N mc rounds h) := K.loop (K.resultRound h) rounds ()

theorem forwardResult (rounds : ℕ) (h : HandshakeResponse) : P _ (forwardResult N mc rounds h) := by
  have C := K.toClosed
  have hend : P _ (Forwarders.forwardUntilResultEnd N mc rounds h) := K.forwardUntilResultEnd rounds h
  have hcolumn : ∀ u, P _ (columnRound N u) := fun u =>
    C.bind (K.relay _) fun p => C.ite (C.pure _) (C.pure _)
  refine C.ite (C.bind (C.loop hcolumn _ _) fun p => C.bind (closed_readU16 C _ _) fun code => ?_) hend
  split
  · exact C.ite (C.bind K.flush fun _ => C.pure _) hend
  · exact hend

theorem queryRound (rounds : ℕ) (h : HandshakeResponse) (u : Unit) :
    P _ (queryRound N mc rounds h u) := by
  have C := K.toClosed
  refine C.bind (K.relay _) fun p => C.bind (C.ite ?_ (C.ite ?_ (C.ite (C.stop _) ?_))) fun st => ?_
  · exact C.bind K.flush fun _ => C.bind (closed_unwrapResult C _) fun _ => C.pure _
  · exact C.bind (closed_parseErrPacket C _ _) fun _ => C.bind K.flush fun _ => C.pure _
  · exact C.bind (K.forwardResult rounds h) fun _ => C.pure _
  · split
    · exact C.pure _
    · exact C.ite (C.pure _) (C.pure _)

theorem queryForward (rounds : ℕ) (h : HandshakeResponse) (comCode : CommandCode) :
    P _ (queryForward N mc rounds h comCode) := by
  have C := K.toClosed
  have hquery : P _ (forwardQuery N mc rounds h) := C.loop (K.queryRound rounds h) rounds ()
  unfold Forwarders.queryForward
  split
  · exact C.bind hquery fun _ => C.pure _
  · exact C.bind hquery fun _ => C.pure _
  · exact C.bind hquery fun _ => C.pure _
  · exact C.bind (K.forwardUntilResultEnd rounds h) fun _ => C.pure _
  · exact C.bind (K.forwardUntilResultEnd rounds h) fun _ => C.pure _
  · exact C.stop _

theorem forwardMany : ∀ n : ℕ, P _ (forwardMany N n)
  | 0 => K.pure _
  | n + 1 => K.bind (K.relay _) fun _ => forwardMany n

theorem stmtPrepareForward (b : Profile) (h : HandshakeResponse) (comCode : CommandCode)
    (request : Packet) : P _ (stmtPrepareForward N mc b h comCode request) := by
  have C := K.toClosed
  unfold Forwarders.stmtPrepareForward
  split
  · refine C.bind (K.relay _) fun p => C.ite ?_ (C.ite ?_ (C.stop _))
    · exact C.bind (closed_parseErrPacket C _ _) fun _ => C.bind K.flush fun _ => C.pure _
    · exact C.bind (closed_readU16 C _ _) fun _ => C.bind (closed_readU16 C _ _) fun _ =>
        C.bind (closed_orPanic C _) fun n => C.bind (K.forwardMany n) fun _ => C.bind K.flush fun _ =>
          C.pure _
  · exact C.ite (C.pure _) (C.stop _)
  · exact C.stop _

/-- The only forwarder that also relays packets to the backend. -/
theorem changeUserForward (hanswer : ∀ isFlush, P _ (forwardOnePacket N .backend .client isFlush))
    (rounds : ℕ) (h : HandshakeResponse) : P _ (changeUserForward N mc rounds h) := by
  have C := K.toClosed
  refine C.loop (fun _ => C.bind (K.relay _) fun p => C.ite ?_ (C.ite (C.pure _) ?_)) rounds ()
  · exact C.bind (closed_parseErrPacket C _ _) fun _ => C.stop _
  · refine C.bind (hanswer _) fun p => C.ite ?_ (C.pure _)
    exact C.bind (closed_parseErrPacket C _ _) fun _ => C.stop _

end Relays

end Relays

/-- **The forwarders that only relay** have what the relaying of a packet has. -/
theorem Relays.forward {P : (α : Type) → Proc Stop (Conn σ) α → Prop} (K : Relays N P) (b : Profile)
    (rounds : ℕ) (h : HandshakeResponse) {comCode : CommandCode}
    (hquit : forwarderOf comCode ≠ .resetConn) (huser : forwarderOf comCode ≠ .changeUser)
    (request : Packet) :
    P _ (forward N mc b rounds h comCode request) := by
  unfold Forwarders.forward
  split
  · exact K.stmtPrepareForward b h comCode request
  · exact K.queryForward rounds h comCode
  · contradiction
  · contradiction
  · exact K.bind (K.relay _) fun _ => K.pure _

/-- What relaying a packet in either direction keeps. -/
structure KeepsForward (N : Net σ) (I : Conn σ → Prop) : Prop where
  relay : ∀ isFlush, Keeps I (forwardOnePacket N .client .backend isFlush)
  answer : ∀ isFlush, Keeps I (forwardOnePacket N .backend .client isFlush)
  flush : Keeps I (flushAll N .client)

theorem KeepsForward.relays (K : KeepsForward N I) : Relays N fun _ p => Keeps I p :=
  ⟨Keeps.closed I, K.relay, K.flush⟩

/-- **Every forwarder but the one for `COM_QUIT`** keeps what the relaying of a packet keeps. -/
theorem KeepsForward.forward (K : KeepsForward N I) (b : Profile) (rounds : ℕ) (h : HandshakeResponse)
    {comCode : CommandCode} (hc : forwarderOf comCode ≠ .resetConn) (request : Packet) :
    Keeps I (forward N mc b rounds h comCode request) := by
  by_cases huser : forwarderOf comCode = .changeUser
  · unfold Forwarders.forward
    rw [huser]
    exact K.relays.changeUserForward K.answer rounds h
  · exact K.relays.forward b rounds h hc huser request

/-! ### From the single operations -/

theorem keeps_orPanic {α : Type} (o : Option α) : Keeps I (orPanic o : Proc Stop (Conn σ) α) :=
  closed_orPanic (Keeps.closed I) o

/-- What reading, writing, flushing and setting a counter keep. -/
structure KeepsOps (N : Net σ) (I : Conn σ → Prop) : Prop where
  next : ∀ side, Keeps I (onNet (N.next side))
  endPacket : ∀ side p, Keeps I (endPacket N side p)
  setSeq : ∀ side q, Keeps I (setSeq side q)
  flush : ∀ side, Keeps I (flushAll N side)

namespace KeepsOps

variable (K : KeepsOps N I)
include K

theorem asyncPacketRead (side : Side) : Keeps I (asyncPacketRead N side) := by
  refine .bind (K.next side) fun m => ?_
  split
  · exact .pure _
  · exact .stop _

theorem forwardOnePacket (dest src : Side) (isFlush : Bool) :
    Keeps I (forwardOnePacket N dest src isFlush) :=
  .bind (K.asyncPacketRead src) fun _ => .bind (K.setSeq _ _) fun _ => .bind (K.endPacket _ _) fun _ =>
    .ite (.bind (K.flush _) fun _ => .pure _) (.pure _)

theorem toForward : KeepsForward N I :=
  ⟨fun _ => K.forwardOnePacket _ _ _, fun _ => K.forwardOnePacket _ _ _, K.flush _⟩

theorem writePacket (side : Side) (q : UInt8) (p : Packet) : Keeps I (writePacket N side q p) :=
  .bind (K.setSeq _ _) fun _ => .bind (K.endPacket _ _) fun _ => K.flush _

theorem writeToBackend (seq : UInt8) (comCode : CommandCode) (h : HandshakeResponse) (p : Packet) :
    Keeps I (writeToBackend N mc seq comCode h p) := by
  refine .bind ?_ fun pkt => ?_
  · unfold backendPacket
    split
    · exact .pure _
    · exact .bind (keeps_orPanic _) fun _ => .pure _
    · exact .pure _
  · split
    · exact K.writePacket _ _ _
    · exact .pure _

theorem resetConnForward : Keeps I (resetConnForward N) :=
  .bind (K.endPacket _ _) fun _ => .bind (K.flush _) fun _ => .bind (K.asyncPacketRead _) fun _ =>
    .pure _

theorem forward (b : Profile) (rounds : ℕ) (h : HandshakeResponse) (comCode : CommandCode)
    (request : Packet) : Keeps I (forward N mc b rounds h comCode request) := by
  by_cases hc : forwarderOf comCode = .resetConn
  · unfold Forwarders.forward
    rw [hc]
    exact K.resetConnForward
  · exact K.toForward.forward b rounds h hc request

theorem comRound (S : Setup) (rounds : ℕ) (h : HandshakeResponse) (u : Unit) :
    Keeps I (comRound N S rounds h u) := by
  refine .bind (K.next _) fun m => ?_
  split
  · exact .stop _
  · exact .bind (keeps_orPanic _) fun _ => .bind (keeps_orPanic _) fun _ =>
      .bind (K.writeToBackend _ _ _ _) fun _ => .bind (K.forward _ _ _ _ _) fun _ =>
        .ite (.pure _) (.pure _)

theorem onCom (S : Setup) (rounds : ℕ) (h : HandshakeResponse) : Keeps I (onCom N S rounds h) :=
  .bind (K.setSeq _ _) fun _ => .loop (K.comRound S rounds h)

theorem processAuthSwitchPlugin (S : Setup) (clientSeq : UInt8) :
    Keeps I (processAuthSwitchPlugin N S clientSeq) := by
  refine .bind ?_ fun _ => .bind ?_ fun _ => .bind ?_ fun _ => ?_
  · exact .bind (K.asyncPacketRead _) fun _ => .bind (keeps_orPanic _) fun _ =>
      .ite (.bind (keeps_orPanic _) fun _ => .bind (K.writePacket _ _ _) fun _ => .pure _) (.stop _)
  · exact .bind (K.asyncPacketRead _) fun _ => .bind (keeps_orPanic _) fun _ => K.writePacket _ _ _
  · exact .bind (K.asyncPacketRead _) fun _ => .bind (K.writePacket _ _ _) fun _ => .pure _
  · exact .bind (keeps_orPanic _) fun _ => .ite (.bind (keeps_orPanic _) fun _ =>
      .bind (keeps_orPanic _) fun _ => .stop _) (.pure _)

theorem authPath (S : Setup) (t : DbUserConnLifeCycle) (seq : UInt8) (h : HandshakeResponse)
    (pkt : Packet) : Keeps I (authPath N S t seq h pkt) := by
  unfold Proxy.authPath
  split
  · exact .bind (K.endPacket _ _) fun _ => .bind (K.flush _) fun _ => K.processAuthSwitchPlugin S _
  · refine .bind (K.asyncPacketRead _) fun _ => ?_
    split
    · exact .bind (K.writePacket _ _ _) fun _ => K.processAuthSwitchPlugin S _
    · exact .stop _

theorem initialHandshake (S : Setup) : Keeps I (initialHandshake N S) := by
  refine .bind (K.endPacket _ _) fun _ => .bind (K.flush _) fun _ => .bind (K.next _) fun m => ?_
  split
  · exact .bind (closed_unwrapResult (Keeps.closed I) _) fun _ => .pure _
  · exact .bind (K.endPacket _ _) fun _ => .stop _

theorem authenticate (S : Setup) : Keeps (fun s : Pooled σ => I s.conn) (authenticate N S) := by
  refine .bind (keeps_onConn (K.setSeq _ _)) fun _ => .bind (keeps_onConn (K.initialHandshake S)) fun x => ?_
  refine .bind .get fun s => .bind (keeps_onConn (K.setSeq _ _)) fun _ =>
    .bind (keeps_onConn (K.setSeq _ _)) fun _ => ?_
  refine .bind (keeps_onConn (keeps_tryIo (K.authPath S s.tag x.1 x.2.1 x.2.2))) fun r => ?_
  split
  · exact .bind (fun _ hs => hs) fun _ => .pure _
  · exact .bind (fun _ hs => hs) fun _ => .pure _

/-- **A session** keeps what the operations on its links keep. -/
theorem connect (S : Setup) (rounds : ℕ) :
    Keeps (fun s : Pooled σ => I s.conn) (connect N S rounds) := by
  refine .bind (K.authenticate S) fun o => ?_
  split
  · exact keeps_onConn (K.onCom S rounds _)
  · exact .pure _

end KeepsOps

end

end Haentgl.Server.Invariants
