import Haentgl.Lib.Simulation
import Haentgl.Server.Proxy

/-! # The server over two nets

The server reaches its links through a `Net` only. If one net does what another does, then every part of
the server does over the one what it does over the other (`SimulatesOps.connect`). -/

namespace Haentgl.Server.Levels

open Haentgl.Lib.Parse Haentgl.Lib.Program Haentgl.Lib.Simulation Haentgl.Protocol.Constants
open Haentgl.Protocol.Io Haentgl.Protocol.Packets Haentgl.Protocol.Basic Haentgl.Server.Links
open Haentgl.Server.Forwarders Haentgl.Server.Proxy

variable {σ τ α : Type}

/-- The same counters, and related links. -/
structure OnConn (R : σ → τ → Prop) (c : Conn σ) (d : Conn τ) : Prop where
  client : c.clientSeq = d.clientSeq
  backend : c.backendSeq = d.backendSeq
  net : R c.net d.net

/-- The same tag, and related connections. -/
structure OnPooled (R : σ → τ → Prop) (x : Pooled σ) (y : Pooled τ) : Prop where
  tag : x.tag = y.tag
  conn : OnConn R x.conn y.conn

/-- What the one net does the other does. -/
structure SimulatesOps (R : σ → τ → Prop) (G : τ → Prop) (N : Net σ) (M : Net τ) : Prop where
  next : ∀ side, Simulates R G (N.next side) (M.next side)
  send : ∀ side q p, Simulates R G (N.send side q p) (M.send side q p)
  flush : ∀ side, Simulates R G (N.flush side) (M.flush side)

/-- The two levels of a program on the connection. -/
abbrev Sim (R : σ → τ → Prop) (G : τ → Prop) (p : Proc Stop (Conn σ) α) (q : Proc Stop (Conn τ) α) :
    Prop := Simulates (OnConn R) (fun d => G d.net) p q

section Ops
variable {R : σ → τ → Prop} {G : τ → Prop}

theorem OnConn.setSeq {c : Conn σ} {d : Conn τ} (h : OnConn R c d) (side : Side) (q : UInt8) :
    OnConn R (c.setSeq side q) (d.setSeq side q) := by
  cases side
  · exact ⟨rfl, h.backend, h.net⟩
  · exact ⟨h.client, rfl, h.net⟩

theorem OnConn.seq {c : Conn σ} {d : Conn τ} (h : OnConn R c d) (side : Side) :
    c.seq side = d.seq side := by
  cases side
  · exact h.client
  · exact h.backend

theorem sim_onNet {p : Proc Stop σ α} {q : Proc Stop τ α} (h : Simulates R G p q) :
    Sim R G (onNet p) (onNet q) :=
  h.zoom (fun h => h.net) (fun h h' => ⟨h.client, h.backend, h'⟩) fun _ _ => rfl

theorem sim_setSeq (side : Side) (q : UInt8) : Sim R G (setSeq side q) (setSeq side q) :=
  .modify (fun h => h.setSeq side q) fun {d} hG => by simpa using hG

theorem sim_orPanic (o : Option α) : Sim R G (orPanic o) (orPanic o) := by
  rcases o with _ | a
  · exact .stop _
  · exact .pure a

theorem sim_unwrapResult (r : Except Failure (Bytes × α)) : Sim R G (unwrapResult r) (unwrapResult r) := by
  rcases r with _ | ⟨_, _⟩
  · exact .stop _
  · exact .pure _

theorem sim_readU16 (p : Packet) (pos : ℕ) : Sim R G (readU16 p pos) (readU16 p pos) :=
  .ite (.pure _) (.stop _)

theorem sim_parseErrPacket (mc : MysqlCommon) (caps : CapabilityFlags) (p : Packet) :
    Sim R G (parseErrPacket mc caps p) (parseErrPacket mc caps p) :=
  (sim_orPanic _).bind fun _ => .pure _

theorem run_tryIo (p : Proc Stop (Conn σ) α) (c : Conn σ) : (tryIo p).run c =
    (match (p.run c).1 with
      | .ok a => .ok (.ok a)
      | .error (.io e) => .ok (.error e)
      | .error s => .error s, (p.run c).2) := by
  change tryIo p c = _
  unfold tryIo
  rcases p.run c with ⟨(e | _ | _ | _) | a, c'⟩ <;> rfl

theorem sim_tryIo {p : Proc Stop (Conn σ) α} {q : Proc Stop (Conn τ) α} (h : Sim R G p q) :
    Sim R G (tryIo p) (tryIo q) := by
  refine ⟨fun {c d} hR hG => ?_, fun d hd hG => ?_⟩
  · rw [run_tryIo] at hG ⊢
    rw [run_tryIo]
    obtain ⟨hr, hR'⟩ := h.same hR hG
    exact ⟨by rw [hr], hR'⟩
  · rw [run_tryIo] at hG
    exact hd (h.within hG)

theorem sim_onConn {p : Proc Stop (Conn σ) α} {q : Proc Stop (Conn τ) α} (h : Sim R G p q) :
    Simulates (OnPooled R) (fun y => G y.conn.net) (onConn p) (onConn q) :=
  h.zoom (fun h => h.conn) (fun h h' => ⟨h.tag, h'⟩) fun _ _ => rfl

end Ops

namespace SimulatesOps

variable {R : σ → τ → Prop} {G : τ → Prop} {N : Net σ} {M : Net τ} {mc : MysqlCommon}
  (K : SimulatesOps R G N M)
include K

/-! ### The operations -/

theorem endPacket (side : Side) (p : Packet) : Sim R G (endPacket N side p) (endPacket M side p) :=
  .bind_get (v := fun c : Conn σ => c.seq side) (w := fun d : Conn τ => d.seq side) (fun h => h.seq side)
    (f := fun q => do
      setSeq side (Protocol.Writer.seqAfter q p)
      onNet (N.send side q p))
    (g := fun q => do
      setSeq side (Protocol.Writer.seqAfter q p)
      onNet (M.send side q p))
    fun q => (sim_setSeq side _).bind fun _ => sim_onNet (K.send side q p)

theorem flushAll (side : Side) : Sim R G (flushAll N side) (flushAll M side) := sim_onNet (K.flush side)

theorem writePacket (side : Side) (q : UInt8) (p : Packet) :
    Sim R G (writePacket N side q p) (writePacket M side q p) :=
  (sim_setSeq side q).bind fun _ => (K.endPacket side p).bind fun _ => K.flushAll side

theorem asyncPacketRead (side : Side) :
    Sim R G (asyncPacketRead N side) (asyncPacketRead M side) := by
  refine (sim_onNet (K.next side)).bind fun o => ?_
  rcases o with _ | m
  · exact .stop _
  · exact .pure m

/-! ### The forwarders -/

theorem forwardOnePacket (dest src : Side) (isFlush : Bool) :
    Sim R G (forwardOnePacket N dest src isFlush) (forwardOnePacket M dest src isFlush) := by
  refine (K.asyncPacketRead src).bind fun m => (sim_setSeq dest m.1).bind fun _ => ?_
  refine (K.endPacket dest m.2).bind fun _ => ?_
  exact .ite ((K.flushAll dest).bind fun _ => .pure _) (.pure _)

theorem writeToBackend (seq : UInt8) (comCode : CommandCode) (h : HandshakeResponse) (p : Packet) :
    Sim R G (writeToBackend N mc seq comCode h p) (writeToBackend M mc seq comCode h p) := by
  refine .bind ?_ fun o => ?_
  · unfold backendPacket
    split
    · exact .pure _
    · exact (sim_orPanic _).bind fun _ => .pure _
    · exact .pure _
  · rcases o with _ | pkt
    · exact .pure _
    · exact K.writePacket _ _ _

theorem resultRound (h : HandshakeResponse) (u : Unit) :
    Sim R G (resultRound N mc h u) (resultRound M mc h u) := by
  refine (K.forwardOnePacket _ _ _).bind fun p => .ite ?_ (.ite (.ite ?_ (.pure _)) (.ite ?_ (.pure _)))
  · exact (sim_parseErrPacket _ _ _).bind fun _ => (K.flushAll _).bind fun _ => .pure _
  · exact (K.flushAll _).bind fun _ => (sim_unwrapResult _).bind fun _ => .pure _
  · exact (sim_unwrapResult _).bind fun _ => (K.flushAll _).bind fun _ => .pure _

theorem forwardUntilResultEnd (rounds : ℕ) (h : HandshakeResponse) :
    Sim R G (forwardUntilResultEnd N mc rounds h) (forwardUntilResultEnd M mc rounds h) :=
  .loop (K.resultRound h) rounds ()

theorem forwardResult (rounds : ℕ) (h : HandshakeResponse) :
    Sim R G (forwardResult N mc rounds h) (forwardResult M mc rounds h) := by
  have hend : Sim R G (Forwarders.forwardUntilResultEnd N mc rounds h) _ :=
    K.forwardUntilResultEnd rounds h
  have hcolumn : ∀ u, Sim R G (columnRound N u) (columnRound M u) := fun u =>
    (K.forwardOnePacket _ _ _).bind fun p => .ite (.pure _) (.pure _)
  refine .ite (.bind (.loop hcolumn rounds ()) fun p => (sim_readU16 p 3).bind fun code => ?_) hend
  rcases StatusFlags.fromBits mc.statusFlags code with _ | status
  · exact hend
  · exact .ite ((K.flushAll _).bind fun _ => .pure _) hend

theorem queryRound (rounds : ℕ) (h : HandshakeResponse) (u : Unit) :
    Sim R G (queryRound N mc rounds h u) (queryRound M mc rounds h u) := by
  refine (K.forwardOnePacket _ _ _).bind fun p =>
    .bind (.ite ?_ (.ite ?_ (.ite (.stop _) ?_))) fun st => ?_
  · exact (K.flushAll _).bind fun _ => (sim_unwrapResult _).bind fun _ => .pure _
  · exact (sim_parseErrPacket _ _ _).bind fun _ => (K.flushAll _).bind fun _ => .pure _
  · exact (K.forwardResult rounds h).bind fun _ => .pure _
  · rcases st with _ | status
    · exact .pure _
    · exact .ite (.pure _) (.pure _)

theorem queryForward (rounds : ℕ) (h : HandshakeResponse) (comCode : CommandCode) :
    Sim R G (queryForward N mc rounds h comCode) (queryForward M mc rounds h comCode) := by
  have hquery : Sim R G (forwardQuery N mc rounds h) (forwardQuery M mc rounds h) :=
    .loop (K.queryRound rounds h) rounds ()
  have hmany : Sim R G (Forwarders.forwardUntilResultEnd N mc rounds h) _ :=
    K.forwardUntilResultEnd rounds h
  cases comCode
  case comQuery | comStmtExecute | comProcessInfo => exact hquery.bind fun _ => .pure _
  case comFieldList | comStmtFetch => exact hmany.bind fun _ => .pure _
  all_goals exact .stop _

theorem forwardMany : ∀ n : ℕ, Sim R G (forwardMany N n) (forwardMany M n)
  | 0 => .pure _
  | n + 1 => (K.forwardOnePacket _ _ _).bind fun _ => forwardMany n

theorem forwardPrepareStmt (b : Profile) (h : HandshakeResponse) :
    Sim R G (forwardPrepareStmt N mc b h) (forwardPrepareStmt M mc b h) := by
  refine (K.forwardOnePacket _ _ _).bind fun p => .ite ?_ (.ite ?_ (.stop _))
  · exact (sim_parseErrPacket _ _ _).bind fun _ => (K.flushAll _).bind fun _ => .pure _
  · refine (sim_readU16 p 5).bind fun _ => (sim_readU16 p 7).bind fun _ => (sim_orPanic _).bind fun n => ?_
    exact (K.forwardMany n).bind fun _ => (K.flushAll _).bind fun _ => .pure _

theorem stmtPrepareForward (b : Profile) (h : HandshakeResponse) (comCode : CommandCode)
    (request : Packet) : Sim R G (stmtPrepareForward N mc b h comCode request)
      (stmtPrepareForward M mc b h comCode request) := by
  have hclose : Sim R G (σ := σ) (τ := τ) (forwardCloseStmt request) (forwardCloseStmt request) :=
    .ite (.pure _) (.stop _)
  cases comCode
  case comStmtPrepare => exact K.forwardPrepareStmt b h
  case comStmtClose => exact hclose
  all_goals exact .stop _

theorem resetConnForward : Sim R G (resetConnForward N) (resetConnForward M) :=
  (K.endPacket _ _).bind fun _ => (K.flushAll _).bind fun _ => (K.asyncPacketRead _).bind fun _ => .pure _

theorem changeUserForward (rounds : ℕ) (h : HandshakeResponse) :
    Sim R G (changeUserForward N mc rounds h) (changeUserForward M mc rounds h) := by
  refine .loop (fun _ => (K.forwardOnePacket _ _ _).bind fun p => .ite ?_ (.ite (.pure _) ?_)) rounds ()
  · exact (sim_parseErrPacket _ _ _).bind fun _ => .stop _
  · refine (K.forwardOnePacket _ _ _).bind fun p => .ite ?_ (.pure _)
    exact (sim_parseErrPacket _ _ _).bind fun _ => .stop _

theorem forward (b : Profile) (rounds : ℕ) (h : HandshakeResponse) (comCode : CommandCode)
    (request : Packet) :
    Sim R G (forward N mc b rounds h comCode request) (forward M mc b rounds h comCode request) := by
  unfold Forwarders.forward
  cases forwarderOf comCode with
  | stmtPrepare => exact K.stmtPrepareForward b h comCode request
  | query => exact K.queryForward rounds h comCode
  | resetConn => exact K.resetConnForward
  | changeUser => exact K.changeUserForward rounds h
  | generic => exact (K.forwardOnePacket _ _ _).bind fun _ => .pure _

/-! ### The command loop -/

theorem comRound (S : Setup) (rounds : ℕ) (h : HandshakeResponse) (u : Unit) :
    Sim R G (comRound N S rounds h u) (comRound M S rounds h u) := by
  refine (sim_onNet (K.next _)).bind fun o => ?_
  rcases o with _ | m
  · exact .stop _
  · refine (sim_orPanic _).bind fun code => (sim_orPanic _).bind fun com => ?_
    refine (K.writeToBackend _ _ _ _).bind fun _ => (K.forward _ _ _ _ _).bind fun _ => ?_
    exact .ite (.pure _) (.pure _)

theorem onCom (S : Setup) (rounds : ℕ) (h : HandshakeResponse) :
    Sim R G (onCom N S rounds h) (onCom M S rounds h) :=
  (sim_setSeq _ _).bind fun _ => .loop (K.comRound S rounds h) rounds ()

/-! ### The authentication -/

theorem processAuthSwitchPlugin (S : Setup) (clientSeq : UInt8) :
    Sim R G (processAuthSwitchPlugin N S clientSeq) (processAuthSwitchPlugin M S clientSeq) := by
  refine .bind ?_ fun _ => .bind ?_ fun _ => .bind ?_ fun verdict => ?_
  · refine (K.asyncPacketRead _).bind fun _ => (sim_orPanic _).bind fun _ => .ite ?_ (.stop _)
    exact (sim_orPanic _).bind fun _ => (K.writePacket _ _ _).bind fun _ => .pure _
  · exact (K.asyncPacketRead _).bind fun _ => (sim_orPanic _).bind fun _ => K.writePacket _ _ _
  · exact (K.asyncPacketRead _).bind fun _ => (K.writePacket _ _ _).bind fun _ => .pure _
  · refine (sim_orPanic _).bind fun _ => .ite ?_ (.pure _)
    exact (sim_orPanic _).bind fun _ => (sim_orPanic _).bind fun _ => .stop _

theorem authPath (S : Setup) (t : DbUserConnLifeCycle) (seq : UInt8) (h : HandshakeResponse)
    (pkt : Packet) : Sim R G (authPath N S t seq h pkt) (authPath M S t seq h pkt) := by
  have hfirst : Sim R G (replyHandshakeResponse N S seq pkt h) (replyHandshakeResponse M S seq pkt h) := by
    refine (K.asyncPacketRead _).bind fun _ => ?_
    cases resetHandshakePlugin S.mc pkt h with
    | ok p => exact (K.writePacket _ _ _).bind fun _ => K.processAuthSwitchPlugin S _
    | error e => exact .stop _
  have hagain : Sim R G (continueAuth N S seq h) (continueAuth M S seq h) :=
    (K.endPacket _ _).bind fun _ => (K.flushAll _).bind fun _ => K.processAuthSwitchPlugin S _
  unfold Proxy.authPath
  rcases t.connPhase with _ | ph
  · exact hfirst
  · cases ph with
    | command => exact hagain
    | connection => exact hfirst
    | none => exact hfirst

theorem initialHandshake (S : Setup) : Sim R G (initialHandshake N S) (initialHandshake M S) := by
  refine (K.endPacket _ _).bind fun _ => (K.flushAll _).bind fun _ => (sim_onNet (K.next _)).bind fun o => ?_
  rcases o with _ | m
  · exact (K.endPacket _ _).bind fun _ => .stop _
  · exact (sim_unwrapResult _).bind fun _ => .pure _

/-- What `authenticate` makes of the end of the authentication. -/
def settle {σ : Type} (h : HandshakeResponse) :
    Except IoError Unit → Proc Stop (Pooled σ) (Option HandshakeResponse)
  | .ok () => do
    setTag (.newConnLifeCycle (dbUserString h) .command)
    return some h
  | .error _ => do
    setTag (.newConnLifeCycle (dbUserString h) .connection)
    return none

theorem authenticate (S : Setup) :
    Simulates (OnPooled R) (fun y => G y.conn.net) (authenticate N S) (authenticate M S) := by
  have htag : ∀ t : DbUserConnLifeCycle, Simulates (OnPooled R) (fun y => G y.conn.net)
      (setTag t : Proc Stop (Pooled σ) Unit) (setTag t) := fun t => .modify (fun h => ⟨rfl, h.conn⟩) id
  refine (sim_onConn (sim_setSeq _ _)).bind fun _ => (sim_onConn (K.initialHandshake S)).bind fun x => ?_
  refine .bind_get (v := fun s : Pooled σ => s.tag) (w := fun s : Pooled τ => s.tag) (fun h => h.tag)
    (f := fun t => do
      onConn (resetSeq .backend)
      onConn (resetSeq .client)
      let r ← onConn (tryIo (Proxy.authPath N S t x.1 x.2.1 x.2.2))
      settle x.2.1 r)
    (g := fun t => do
      onConn (resetSeq .backend)
      onConn (resetSeq .client)
      let r ← onConn (tryIo (Proxy.authPath M S t x.1 x.2.1 x.2.2))
      settle x.2.1 r) fun t => ?_
  refine (sim_onConn (sim_setSeq _ _)).bind fun _ => (sim_onConn (sim_setSeq _ _)).bind fun _ => ?_
  refine (sim_onConn (sim_tryIo (K.authPath S t _ _ _))).bind fun r => ?_
  rcases r with e | u
  · exact (htag _).bind fun _ => .pure _
  · exact (htag _).bind fun _ => .pure _

/-- **A session** does over the one net what it does over the other. -/
theorem connect (S : Setup) (rounds : ℕ) :
    Simulates (OnPooled R) (fun y => G y.conn.net) (connect N S rounds) (connect M S rounds) := by
  refine (K.authenticate S).bind fun o => ?_
  rcases o with _ | h
  · exact .pure _
  · exact sim_onConn (K.onCom S rounds h)

end SimulatesOps

end Haentgl.Server.Levels
