import Haentgl.Server.Forwarders

/-! # The authenticator, the command loop and the pool

A session greets its client, takes a connection from the pool, authenticates the client against the
backend, and relays commands until the client quits. The tag of a pooled connection says how far an
earlier session got with it: a connection without a tag is fresh, one in the phase `command` has been
authenticated and is reused with `COM_CHANGE_USER`, and one in the phase `connection` is not handed out
again. -/

namespace Haentgl.Server.Proxy

open Haentgl.Lib.Parse Haentgl.Lib.Program Haentgl.Protocol.Constants Haentgl.Protocol.Io
open Haentgl.Protocol.Packets Haentgl.Protocol.Basic Haentgl.Server.Links
open Haentgl.Server.Forwarders

/-! ### The pool -/

inductive DbConnPhase
  | none
  | connection
  | command
  deriving DecidableEq, Repr

/-- The tag of a pooled connection. The user's name is kept as its bytes. -/
structure DbUserConnLifeCycle where
  dbUser : Option Bytes
  connPhase : Option DbConnPhase
  deriving DecidableEq, Repr

namespace DbUserConnLifeCycle

/-- The tag of a new connection. -/
def default : DbUserConnLifeCycle := ⟨Option.none, Option.none⟩

def isNone (t : DbUserConnLifeCycle) : Bool := t.dbUser.isNone && t.connPhase.isNone

def newConnLifeCycle (dbUser : Bytes) (phase : DbConnPhase) : DbUserConnLifeCycle :=
  ⟨some dbUser, some phase⟩

end DbUserConnLifeCycle

/-- `PooledConnMgr::recycle`; `none` is its panic. -/
def recycle (t : DbUserConnLifeCycle) : Option (Except IoError Unit) :=
  if t.isNone then some (.ok ())
  else
    match t.connPhase with
    | none => none
    | some .connection => some (.error ⟨.permissionDenied, "connection is illegal"⟩)
    | some _ => some (.ok ())

/-- The tag and the connection of a session. -/
structure Pooled (σ : Type) where
  tag : DbUserConnLifeCycle
  conn : Conn σ

/-- What a session depends on besides its links: the build, the other crate, the environment variable
that switches the tenants on, the salt and the number of the connection. -/
structure Setup where
  profile : Profile
  mc : MysqlCommon
  isNotStatic : Bool
  tls : Bool
  connId : ℕ
  scramble : Bytes

/-- The setup of the examples below. -/
def Setup.plain : Setup := ⟨.release, .plain, false, false, 1, List.replicate 20 33⟩

section Model
variable {σ α : Type} (N : Net σ) (S : Setup)

/-! ### `ProxyAuthenticator` -/

def authSwitchRequest : UInt8 := 0xfe

/-- The switch request goes to the client; its number on the backend's link. -/
def relaySwitch (clientSeq : UInt8) : Proc Stop (Conn σ) UInt8 := do
  let (beSeq, pkt) ← asyncPacketRead N .backend
  let first ← firstByte pkt
  if authSwitchRequest = first then
    let q ← orPanic (addU8 S.profile clientSeq 1)
    writePacket N .client q pkt
    return beSeq
  else Proc.stop .panic

/-- The client's answer goes to the backend. -/
def relayAnswer (beSeq : UInt8) : Proc Stop (Conn σ) Unit := do
  let (_, authResponse) ← asyncPacketRead N .client
  let q ← orPanic (addU8 S.profile beSeq 1)
  writePacket N .backend q authResponse

/-- The backend's verdict goes to the client. -/
def relayVerdict : Proc Stop (Conn σ) Packet := do
  let (lSeq, verdict) ← asyncPacketRead N .backend
  writePacket N .client lSeq verdict
  return verdict

/-- Whatever is not an ERR packet is a success. -/
def checkVerdict (verdict : Packet) : Proc Stop (Conn σ) Unit := do
  let first ← firstByte verdict
  if first = HeaderInfo.errHeader.toU8 then
    let msg ← orPanic (S.mc.errPacket .default verdict)
    let text ← orPanic (fromUtf8 msg)
    Proc.stop (.io ⟨.permissionDenied, text⟩)
  else return

/-- Relay the backend's switch request, the client's answer and the backend's verdict. -/
def processAuthSwitchPlugin (clientSeq : UInt8) : Proc Stop (Conn σ) Unit := do
  let beSeq ← relaySwitch N S clientSeq
  relayAnswer N S beSeq
  let verdict ← relayVerdict N
  checkVerdict S verdict

/-- The `COM_CHANGE_USER` for a client. -/
def changeUserData (h : HandshakeResponse) : Bytes :=
  S.mc.serializeChangeUser ⟨h.username, none, h.database, some (45, some unKnowPlugin)⟩

def continueAuth (clientSeq : UInt8) (h : HandshakeResponse) : Proc Stop (Conn σ) Unit := do
  endPacket N .backend (changeUserData S h)
  flushAll N .backend
  processAuthSwitchPlugin N S clientSeq

def replyHandshakeResponse (clientSeq : UInt8) (packetBytes : Packet) (h : HandshakeResponse) :
    Proc Stop (Conn σ) Unit := do
  let _ ← asyncPacketRead N .backend
  match resetHandshakePlugin S.mc packetBytes h with
  | .ok newPacket =>
    writePacket N .backend clientSeq newPacket
    processAuthSwitchPlugin N S clientSeq
  | .error e => Proc.stop (.io e)

/-- The payload of `write_initial_handshake`. -/
def initialHandshakePacket : Packet :=
  let caps : CapabilityFlags := if S.tls then .default ||| .clientSsl else .default
  [10] ++ "11.1.2-MariaDB-1:11.1.2+maria~ubu2204".toUTF8.toList ++ [0] ++ leBytes 4 S.connId ++
    S.scramble.take 8 ++ [0] ++ leBytes 2 caps.toNat ++ [46] ++ leBytes 2 2 ++
    leBytes 2 (caps.toNat / 2 ^ 16) ++ [UInt8.ofNat (S.scramble.length + 1)] ++
    List.replicate 10 0 ++ S.scramble.drop 8 ++ [0] ++ "mysql_native_password".toUTF8.toList ++ [0]

/-- The payload of `write_err_packet` for a client that is gone. -/
def peerTerminated : Packet :=
  [0xff] ++ leBytes 2 1045 ++ "#28000peer terminated connection".toUTF8.toList

def initialHandshake : Proc Stop (Conn σ) (UInt8 × HandshakeResponse × Packet) := do
  endPacket N .client (initialHandshakePacket S)
  flushAll N .client
  match ← onNet (N.next .client) with
  | some (seq, pkt) =>
    let h ← unwrapResult (clientHandshakeResponse S.mc.known pkt false)
    return (seq, h.changeTenantIfNeed S.isNotStatic, pkt)
  | none =>
    endPacket N .client peerTerminated
    Proc.stop (.io ⟨.permissionDenied, "peer terminated connection"⟩)

/-! ### The command loop -/

/-- One round of `on_com`. -/
def comRound (rounds : ℕ) (h : HandshakeResponse) (_ : Unit) :
    Proc Stop (Conn σ) (Unit ⊕ Unit) := do
  match ← onNet (N.next .client) with
  | none => Proc.stop (.io ⟨.invalidData, "Malform packet error"⟩)
  | some (seq, clientPacket) =>
    let code ← firstByte clientPacket
    let comCode ← orPanic (CommandCode.fromU8 code)
    writeToBackend N S.mc seq comCode h clientPacket
    let _ ← forward N S.mc S.profile rounds h comCode clientPacket
    if comCode = .comQuit then return .inr () else return .inl ()

def onCom (rounds : ℕ) (h : HandshakeResponse) : Proc Stop (Conn σ) Unit := do
  resetSeq .backend
  Proc.loop .outOfRounds (comRound N S rounds h) rounds ()

/-! ### A session -/

/-- Run on the connection of a session. -/
def onConn (p : Proc Stop (Conn σ) α) : Proc Stop (Pooled σ) α :=
  Proc.zoom Pooled.conn (fun c s => { s with conn := c }) p

def setTag (t : DbUserConnLifeCycle) : Proc Stop (Pooled σ) Unit :=
  Proc.modify fun s => { s with tag := t }

/-- The path that `connect` takes for a tag. -/
def authPath (t : DbUserConnLifeCycle) (seq : UInt8) (h : HandshakeResponse) (pkt : Packet) :
    Proc Stop (Conn σ) Unit :=
  match t.connPhase with
  | some .command => continueAuth N S seq h
  | _ => replyHandshakeResponse N S seq pkt h

/-- `HandshakeResponse::db_user_string`. -/
def dbUserString (h : HandshakeResponse) : Bytes := h.username.getD "_NONE".toUTF8.toList

/-- `connect` up to the command loop: `none` if the authentication has failed. -/
def authenticate : Proc Stop (Pooled σ) (Option HandshakeResponse) := do
  -- the greeting goes out through a writer of its own
  onConn (resetSeq .client)
  let (seq, h, pkt) ← onConn (initialHandshake N S)
  let s ← Proc.get
  onConn (resetSeq .backend)
  onConn (resetSeq .client)
  match ← onConn (tryIo (authPath N S s.tag seq h pkt)) with
  | .ok () =>
    setTag (.newConnLifeCycle (dbUserString h) .command)
    return some h
  | .error _ =>
    setTag (.newConnLifeCycle (dbUserString h) .connection)
    return none

def connect (rounds : ℕ) : Proc Stop (Pooled σ) Unit := do
  match ← authenticate N S with
  | some h => onConn (onCom N S rounds h)
  | none => return

end Model

end Haentgl.Server.Proxy
