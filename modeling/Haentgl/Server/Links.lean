import Haentgl.Protocol.Basic
import Haentgl.Protocol.Writer

/-! # What the proxy does on its two links

`Net` is the pair of links seen packet by packet: take the next message of a side, send a message to a
side from a given sequence number on, flush. The proxy's own state is a `Conn`: the counters of its two
writers and the state of the links. The writers' buffers are empty between two operations, so they
are not part of it.

`MysqlCommon` collects what the proxy takes from the `mysql_common` crate. -/

namespace Haentgl.Server.Links

open Haentgl.Lib.Parse Haentgl.Lib.Program Haentgl.Protocol.Constants Haentgl.Protocol.Io
open Haentgl.Protocol.Packets Haentgl.Protocol.Basic
open Haentgl.Protocol.Writer (seqAfter)

/-- The two links. -/
structure Net (σ : Type) where
  next : Side → Proc Stop σ (Option (UInt8 × Packet))
  send : Side → UInt8 → Packet → Proc Stop σ Unit
  flush : Side → Proc Stop σ Unit

/-- The counters of the two writers, and the links. -/
structure Conn (σ : Type) where
  clientSeq : UInt8
  backendSeq : UInt8
  net : σ

/-! ### The other crate -/

/-- What `mysql_common` makes of a client's handshake response. -/
structure HandshakePacket where
  scrambleBuf : Bytes
  dbName : Option Bytes
  capabilities : CapabilityFlags
  connectAttributes : Option (List (Bytes × Bytes))
  deriving DecidableEq, Repr

/-- The arguments of its constructor of a handshake response. -/
structure NewHandshake where
  scrambleBuf : Option Bytes
  serverVersion : ℕ × ℕ × ℕ
  user : Option Bytes
  dbName : Option Bytes
  authPlugin : Option Bytes
  capabilities : CapabilityFlags
  connectAttributes : Option (List (Bytes × Bytes))
  maxPacketSize : ℕ
  deriving DecidableEq, Repr

/-- A `COM_CHANGE_USER`; the last field is its collation and its plugin. -/
structure ComChangeUser where
  user : Option Bytes
  authPluginData : Option Bytes
  database : Option Bytes
  moreData : Option (ℕ × Option Bytes)
  deriving DecidableEq, Repr

/-- The bits of the defined capabilities and of the defined status flags, and what the proxy parses and
serialises with the crate. -/
structure MysqlCommon where
  known : CapabilityFlags
  statusFlags : StatusFlags
  /-- The flags `0x0001`, `0x0002` and `0x0008` to `0x4000` are defined; the crate may define more. -/
  statusFlags_defined : statusFlags &&& 0x7ffb = 0x7ffb
  /-- `ErrPacket::deserialize` and the message of its server error. -/
  errPacket : CapabilityFlags → Packet → Option Bytes
  handshakePacket : Packet → Except String HandshakePacket
  serializeHandshake : NewHandshake → Bytes
  comChangeUser : CapabilityFlags → Packet → Option ComChangeUser
  serializeChangeUser : ComChangeUser → Bytes

/-- The crate as far as the examples below need it. -/
def MysqlCommon.plain : MysqlCommon where
  known := BitVec.allOnes 32
  statusFlags := 0xfffb
  statusFlags_defined := by decide
  errPacket _ p := if p.head? = some 0xff ∧ 9 ≤ p.length then some (p.drop 9) else none
  handshakePacket p := .ok ⟨[], none, BitVec.ofNat 32 (leNat (p.take 4)), none⟩
  serializeHandshake n := leBytes 4 n.capabilities.toNat ++ leBytes 4 n.maxPacketSize ++ [45] ++
    List.replicate 23 0 ++ n.user.getD [] ++ [0, 0] ++ n.authPlugin.getD [] ++ [0]
  comChangeUser _ p :=
    if p.head? = some 0x11 then some ⟨some ((p.drop 1).takeWhile (· ≠ 0)), none, none, none⟩ else none
  serializeChangeUser u := 0x11 :: (u.user.getD [] ++ [0, 0] ++ u.database.getD [] ++ [0])

/-- The bytes of the plugin name that no server knows. -/
def unKnowPlugin : Bytes := unKnowPluginName.toUTF8.toList

/-- `reset_handshake_plugin`. -/
def resetHandshakePlugin (mc : MysqlCommon) (packet : Packet) (h : HandshakeResponse) :
    Except IoError Bytes :=
  match mc.handshakePacket packet with
  | .ok pkt => .ok (mc.serializeHandshake ⟨some pkt.scrambleBuf, (8, 0, 36), h.username, pkt.dbName,
      some unKnowPlugin, pkt.capabilities, pkt.connectAttributes, h.maxPacketLen⟩)
  | .error e => .error ⟨.invalidData, e⟩

section Model
variable {σ α : Type} (N : Net σ)

/-- The counter of a side's writer. -/
def Conn.seq (c : Conn σ) : Side → UInt8
  | .client => c.clientSeq
  | .backend => c.backendSeq

def Conn.setSeq (c : Conn σ) : Side → UInt8 → Conn σ
  | .client, q => { c with clientSeq := q }
  | .backend, q => { c with backendSeq := q }

/-- Run on the links. -/
def onNet (p : Proc Stop σ α) : Proc Stop (Conn σ) α :=
  Proc.zoom Conn.net (fun n c => { c with net := n }) p

def setSeq (side : Side) (q : UInt8) : Proc Stop (Conn σ) Unit := Proc.modify fun c => c.setSeq side q

def resetSeq (side : Side) : Proc Stop (Conn σ) Unit := setSeq side 0

/-- `write_all` and `end_packet`. -/
def endPacket (side : Side) (payload : Packet) : Proc Stop (Conn σ) Unit := do
  let c ← Proc.get
  setSeq side (seqAfter (c.seq side) payload)
  onNet (N.send side (c.seq side) payload)

def flushAll (side : Side) : Proc Stop (Conn σ) Unit := onNet (N.flush side)

/-- A packet from a given number on: `set_seq`, `write_all`, `end_packet` and `flush_all`. -/
def writePacket (side : Side) (q : UInt8) (payload : Packet) : Proc Stop (Conn σ) Unit := do
  setSeq side q
  endPacket N side payload
  flushAll N side

/-- `next_async` with an error in place of the end of the stream. -/
def asyncPacketRead (side : Side) : Proc Stop (Conn σ) (UInt8 × Packet) := do
  match ← onNet (N.next side) with
  | some m => return m
  | none => Proc.stop (.io ⟨.connectionAborted, "connection disconnect."⟩)

/-- `p[0]`, which panics on an empty packet. -/
def firstByte (p : Packet) : Proc Stop (Conn σ) UInt8 := orPanic p.head?

/-- `LittleEndian::read_u16(&p[at..])`. -/
def readU16 (p : Packet) (pos : ℕ) : Proc Stop (Conn σ) ℕ :=
  if pos + 2 ≤ p.length then pure (leNat ((p.drop pos).take 2)) else Proc.stop .panic

/-- The result of a parser that must not fail. -/
def unwrapResult {β : Type} : Except Failure (Bytes × β) → Proc Stop (Conn σ) β
  | .ok (_, a) => pure a
  | .error _ => Proc.stop .panic

/-- `parse_err_packet!`: only the panic matters. -/
def parseErrPacket (mc : MysqlCommon) (caps : CapabilityFlags) (p : Packet) :
    Proc Stop (Conn σ) Unit := do
  let _ ← orPanic (mc.errPacket caps p)

/-- An `io::Error` becomes a result; a panic goes on. -/
def tryIo (p : Proc Stop (Conn σ) α) : Proc Stop (Conn σ) (Except IoError α) := fun c =>
  match p.run c with
  | (.ok a, c') => (.ok (.ok a), c')
  | (.error (.io e), c') => (.ok (.error e), c')
  | (.error s, c') => (.error s, c')

end Model

section Runs
variable {σ α : Type} {N : Net σ}

@[simp] theorem Conn.seq_setSeq (c : Conn σ) (side : Side) (q : UInt8) :
    (c.setSeq side q).seq side = q := by
  cases side <;> rfl

@[simp] theorem Conn.net_setSeq (c : Conn σ) (side : Side) (q : UInt8) :
    (c.setSeq side q).net = c.net := by
  cases side <;> rfl

theorem run_setSeq (side : Side) (q : UInt8) (c : Conn σ) :
    (setSeq side q).run c = (.ok (), c.setSeq side q) := rfl

theorem run_onNet {p : Proc Stop σ α} {c : Conn σ} {r : Except Stop α} {n : σ}
    (h : p.run c.net = (r, n)) : (onNet p).run c = (r, { c with net := n }) := by
  simp only [onNet, Proc.run_zoom, h]

theorem run_endPacket (side : Side) (p : Packet) (c : Conn σ) :
    (endPacket N side p).run c = (onNet (N.send side (c.seq side) p)).run
      (c.setSeq side (seqAfter (c.seq side) p)) := rfl

theorem run_asyncPacketRead_some {side : Side} {c : Conn σ} {m : UInt8 × Packet} {n : σ}
    (h : (N.next side).run c.net = (.ok (some m), n)) :
    (asyncPacketRead N side).run c = (.ok m, { c with net := n }) := by
  rw [asyncPacketRead, Proc.run_bind_ok (run_onNet h)]
  rfl

theorem run_tryIo_ok {p : Proc Stop (Conn σ) α} {c c' : Conn σ} {a : α}
    (h : p.run c = (.ok a, c')) : (tryIo p).run c = (.ok (.ok a), c') := by
  change tryIo p c = _
  unfold tryIo
  rw [h]

end Runs

end Haentgl.Server.Links
