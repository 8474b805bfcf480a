import Haentgl.Server.Links

/-! # The forwarders

A forwarder relays the response to one kind of command. Which one serves a command is decided by
exclusion: whatever is not listed goes to the generic one, which expects a response of one packet.

Every loop of the source has a bound `rounds` here. -/

namespace Haentgl.Server.Forwarders

open Haentgl.Lib.Parse Haentgl.Lib.Program Haentgl.Protocol.Constants Haentgl.Protocol.Io
open Haentgl.Protocol.Packets Haentgl.Protocol.Basic Haentgl.Server.Links
open Haentgl.Protocol.Writer (seqAfter)

/-- `x + y` on `u16`; `none` is the panic of a checked overflow. -/
def addU16 (b : Profile) (x y : ℕ) : Option ℕ :=
  if b = .dev ∧ 2 ^ 16 ≤ x + y then none else some ((x + y) % 2 ^ 16)

section Model
variable {σ : Type} (N : Net σ) (mc : MysqlCommon)

/-! ### `ComForwarder` -/

def forwardOnePacket (dest src : Side) (isFlush : Bool) : Proc Stop (Conn σ) Packet := do
  let (seq, rsp) ← asyncPacketRead N src
  setSeq dest seq
  endPacket N dest rsp
  if isFlush then flushAll N dest
  return rsp

/-- The packet that goes to the backend for a client's packet, if any. -/
def backendPacket (comCode : CommandCode) (h : HandshakeResponse) (clientPacket : Packet) :
    Proc Stop (Conn σ) (Option Packet) :=
  match comCode with
  | .comQuit => pure none
  | .comChangeUser => do
    let com ← orPanic (mc.comChangeUser h.clientFlag clientPacket)
    return some (mc.serializeChangeUser { com with
      authPluginData := none, moreData := some (h.collation, some unKnowPlugin) })
  | _ => pure (some clientPacket)

def writeToBackend (seq : UInt8) (comCode : CommandCode) (h : HandshakeResponse)
    (clientPacket : Packet) : Proc Stop (Conn σ) Unit := do
  match ← backendPacket mc comCode h clientPacket with
  | some pkt => writePacket N .backend seq pkt
  | none => return

/-! ### `QueryForwarder` -/

/-- One round of `forward_until_result_end`. -/
def resultRound (h : HandshakeResponse) (_ : Unit) : Proc Stop (Conn σ) (Unit ⊕ StatusFlags) := do
  let p ← forwardOnePacket N .client .backend false
  if isErrPacket p then
    parseErrPacket mc h.clientFlag p
    flushAll N .client
    return .inr 0
  else if !h.clientFlag.contains .clientDeprecateEof then
    if isEofPacket p then
      flushAll N .client
      let status ← unwrapResult (eofServerStatus mc.statusFlags p)
      return .inr status
    else return .inl ()
  else if isResultSetEofPacket p then
    let ok ← unwrapResult (okPacket p h.clientFlag)
    flushAll N .client
    return .inr ok.statusFlags
  else return .inl ()

def forwardUntilResultEnd (rounds : ℕ) (h : HandshakeResponse) : Proc Stop (Conn σ) StatusFlags :=
  Proc.loop .outOfRounds (resultRound N mc h) rounds ()

/-- One round of the loop over the column definitions. -/
def columnRound (_ : Unit) : Proc Stop (Conn σ) (Unit ⊕ Packet) := do
  let p ← forwardOnePacket N .client .backend false
  if isEofPacket p then return .inr p else return .inl ()

def forwardResult (rounds : ℕ) (h : HandshakeResponse) : Proc Stop (Conn σ) StatusFlags := do
  if !h.clientFlag.contains .clientDeprecateEof then
    let p ← Proc.loop .outOfRounds (columnRound N) rounds ()
    let code ← readU16 p 3
    match StatusFlags.fromBits mc.statusFlags code with
    | some status =>
      if status.contains .serverStatusCursorExists then
        flushAll N .client
        return status
      else forwardUntilResultEnd N mc rounds h
    | none => forwardUntilResultEnd N mc rounds h
  else forwardUntilResultEnd N mc rounds h

/-- The status of the result that starts with `p`; `none` after an ERR packet. -/
def queryStatus (rounds : ℕ) (h : HandshakeResponse) (p : Packet) :
    Proc Stop (Conn σ) (Option StatusFlags) :=
  if isOkPacket p then do
    flushAll N .client
    let ok ← unwrapResult (okPacket p h.clientFlag)
    return some ok.statusFlags
  else if isErrPacket p then do
    parseErrPacket mc h.clientFlag p
    flushAll N .client
    return none
  else if isLocalInFilePacket p then Proc.stop .panic
  else do
    let status ← forwardResult N mc rounds h
    return some status

/-- One round of `forward_query`: one result of the response. -/
def queryRound (rounds : ℕ) (h : HandshakeResponse) (_ : Unit) :
    Proc Stop (Conn σ) (Unit ⊕ Unit) := do
  let p ← forwardOnePacket N .client .backend false
  match ← queryStatus N mc rounds h p with
  | none => return .inr ()
  | some status => if status.contains .serverMoreResultsExists then return .inl () else return .inr ()

def forwardQuery (rounds : ℕ) (h : HandshakeResponse) : Proc Stop (Conn σ) Unit :=
  Proc.loop .outOfRounds (queryRound N mc rounds h) rounds ()

def queryForward (rounds : ℕ) (h : HandshakeResponse) (comCode : CommandCode) :
    Proc Stop (Conn σ) (Option Packet) :=
  match comCode with
  | .comQuery | .comStmtExecute | .comProcessInfo => do
    forwardQuery N mc rounds h
    return none
  | .comFieldList | .comStmtFetch => do
    let _ ← forwardUntilResultEnd N mc rounds h
    return none
  | _ => Proc.stop .panic

/-! ### `StmtPrepareForwarder` -/

/-- `n` packets. -/
def forwardMany : ℕ → Proc Stop (Conn σ) Unit
  | 0 => pure ()
  | n + 1 => do
    let _ ← forwardOnePacket N .client .backend false
    forwardMany n

/-- The number of packets behind the first one. -/
def expectedPackets (b : Profile) (deprecateEof : Bool) (column params : ℕ) : Option ℕ := do
  let n ← addU16 b column params
  if deprecateEof then return n
  let n ← if column > 0 then addU16 b n 1 else some n
  if params > 0 then addU16 b n 1 else some n

def forwardPrepareStmt (b : Profile) (h : HandshakeResponse) :
    Proc Stop (Conn σ) (Option Packet) := do
  let p ← forwardOnePacket N .client .backend false
  if isErrPacket p then
    parseErrPacket mc h.clientFlag p
    flushAll N .client
    return none
  else if isOkPacket p then
    let column ← readU16 p 5
    let params ← readU16 p 7
    let n ← orPanic (expectedPackets b (h.clientFlag.contains .clientDeprecateEof) column params)
    forwardMany N n
    flushAll N .client
    return none
  else Proc.stop .panic

/-- `forward_close_stmt` only reads the request. -/
def forwardCloseStmt (request : Packet) : Proc Stop (Conn σ) (Option Packet) :=
  if 5 ≤ request.length then pure none else Proc.stop .panic

def stmtPrepareForward (b : Profile) (h : HandshakeResponse) (comCode : CommandCode)
    (request : Packet) : Proc Stop (Conn σ) (Option Packet) :=
  match comCode with
  | .comStmtPrepare => forwardPrepareStmt N mc b h
  | .comStmtClose => forwardCloseStmt request
  | _ => Proc.stop .panic

/-! ### `ResetConnForwarder`, `ChangeUserForwarder` and `GenericComForwarder` -/

/-- The payload of `write_reset_connection`: the command and four bytes that nobody asked for. -/
def resetConnection : Packet := CommandCode.comResetConnection.toU8 :: [8, 0, 0, 0]

def resetConnForward : Proc Stop (Conn σ) (Option Packet) := do
  endPacket N .backend resetConnection
  flushAll N .backend
  let _ ← asyncPacketRead N .backend
  return none

/-- One round of the exchange behind `COM_CHANGE_USER`. -/
def changeUserRound (h : HandshakeResponse) (_ : Unit) :
    Proc Stop (Conn σ) (Unit ⊕ Option Packet) := do
  let rsp ← forwardOnePacket N .client .backend true
  if isErrPacket rsp then
    parseErrPacket mc h.clientFlag rsp
    Proc.stop (.io ⟨.permissionDenied, "Error packet from backend"⟩)
  else if isOkPacket rsp then return .inr (some rsp)
  else
    -- the client's answer to the switch request
    let pkt ← forwardOnePacket N .backend .client true
    if isErrPacket pkt then
      parseErrPacket mc h.clientFlag pkt
      Proc.stop (.io ⟨.permissionDenied, "Error packet from client"⟩)
    else return .inl ()

def changeUserForward (rounds : ℕ) (h : HandshakeResponse) : Proc Stop (Conn σ) (Option Packet) :=
  Proc.loop .outOfRounds (changeUserRound N mc h) rounds ()

def genericForward : Proc Stop (Conn σ) (Option Packet) := do
  let p ← forwardOnePacket N .client .backend true
  return some p

/-! ### The choice of the forwarder -/

inductive Forwarder
  | stmtPrepare
  | query
  | resetConn
  | changeUser
  | generic
  deriving DecidableEq, Repr

def forwarderOf : CommandCode → Forwarder
  | .comStmtPrepare | .comStmtClose => .stmtPrepare
  | .comQuery | .comStmtExecute | .comProcessInfo | .comFieldList | .comStmtFetch => .query
  | .comQuit => .resetConn
  | .comChangeUser => .changeUser
  | _ => .generic

def forward (b : Profile) (rounds : ℕ) (h : HandshakeResponse) (comCode : CommandCode)
    (request : Packet) : Proc Stop (Conn σ) (Option Packet) :=
  match forwarderOf comCode with
  | .stmtPrepare => stmtPrepareForward N mc b h comCode request
  | .query => queryForward N mc rounds h comCode
  | .resetConn => resetConnForward N
  | .changeUser => changeUserForward N mc rounds h
  | .generic => genericForward N

end Model

/-! ### Relaying one message -/

section Runs
variable {σ : Type} {N : Net σ} {mc : MysqlCommon}

/-- The state after a message went out on a side. -/
def wrote (c : Conn σ) (side : Side) (m : UInt8 × Packet) (n : σ) : Conn σ :=
  { c.setSeq side (seqAfter m.1 m.2) with net := n }

theorem run_endPacket_send {c : Conn σ} {side : Side} {m : UInt8 × Packet} {r : Except Stop Unit} {n : σ}
    (h : (N.send side m.1 m.2).run c.net = (r, n)) :
    (endPacket N side m.2).run (c.setSeq side m.1) = (r, wrote c side m n) := by
  rw [run_endPacket, Conn.seq_setSeq, run_onNet (r := r) (n := n) (by simpa using h)]
  cases side <;> rfl

theorem run_writePacket {c : Conn σ} {side : Side} {m : UInt8 × Packet} {n : σ}
    (hsend : (N.send side m.1 m.2).run c.net = (.ok (), n))
    (hflush : (N.flush side).run n = (.ok (), n)) :
    (writePacket N side m.1 m.2).run c = (.ok (), wrote c side m n) := by
  rw [writePacket, Proc.run_bind_ok (run_setSeq _ _ _), Proc.run_bind_ok (run_endPacket_send hsend)]
  exact run_onNet hflush

theorem run_writePacket_error {c : Conn σ} {side : Side} {m : UInt8 × Packet} {e : Stop} {n : σ}
    (hsend : (N.send side m.1 m.2).run c.net = (.error e, n)) :
    (writePacket N side m.1 m.2).run c = (.error e, wrote c side m n) := by
  rw [writePacket, Proc.run_bind_ok (run_setSeq _ _ _)]
  exact Proc.run_bind_error (run_endPacket_send hsend) _

theorem run_forwardOnePacket {c c1 : Conn σ} {dest src : Side} {m : UInt8 × Packet} {n : σ}
    (hread : (asyncPacketRead N src).run c = (.ok m, c1))
    (hsend : (N.send dest m.1 m.2).run c1.net = (.ok (), n))
    (hflush : (N.flush dest).run n = (.ok (), n)) (isFlush : Bool) :
    (forwardOnePacket N dest src isFlush).run c = (.ok m.2, wrote c1 dest m n) := by
  rw [forwardOnePacket, Proc.run_bind_ok hread]
  simp only
  rw [Proc.run_bind_ok (run_setSeq _ _ _), Proc.run_bind_ok (run_endPacket_send hsend)]
  have hf : (flushAll N dest).run (wrote c1 dest m n) = (.ok (), wrote c1 dest m n) :=
    run_onNet hflush
  cases isFlush
  · rfl
  · rw [if_pos rfl, Proc.run_bind_ok hf]
    rfl

/-- Commands other than the two are written as they came. -/
theorem backendPacket_asItIs {comCode : CommandCode} (h1 : comCode ≠ .comQuit)
    (h2 : comCode ≠ .comChangeUser) (h : HandshakeResponse) (p : Packet) :
    (backendPacket mc comCode h p : Proc Stop (Conn σ) _) = pure (some p) := by
  cases comCode <;> first | rfl | contradiction

theorem run_writeToBackend {c : Conn σ} {comCode : CommandCode} (h1 : comCode ≠ .comQuit)
    (h2 : comCode ≠ .comChangeUser) (h : HandshakeResponse) {m : UInt8 × Packet} {n : σ}
    (hsend : (N.send .backend m.1 m.2).run c.net = (.ok (), n))
    (hflush : (N.flush .backend).run n = (.ok (), n)) :
    (writeToBackend N mc m.1 comCode h m.2).run c = (.ok (), wrote c .backend m n) := by
  rw [writeToBackend, backendPacket_asItIs h1 h2, pure_bind]
  exact run_writePacket hsend hflush

end Runs

end Haentgl.Server.Forwarders
