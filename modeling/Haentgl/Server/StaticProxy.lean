import Haentgl.Protocol.Requests
import Haentgl.Protocol.Writers
import Haentgl.Server.Parties
import Haentgl.Server.Greeting

/-! # The demo server

`StaticProxyServer` serves a client itself: it greets and authenticates it and then answers its commands,
each through a `CmdHandler` or by an OK packet of its own. The functions are over any link and any
handler; `desk` is the link of a client whose packets are given, with a handler that is a function of the
calls it has had.

* `run_gate`: in every run the handler is asked to authenticate a user that the client has named before
  anything else, it is asked only once, and after a refusal it is not called again.
* `onCmd_answers`: the replies of the command loop, packet by packet. -/

namespace Haentgl.Server.StaticProxy

open Haentgl.Lib.Parse Haentgl.Lib.Program Haentgl.Protocol.Constants Haentgl.Protocol.Io
open Haentgl.Protocol.Packets Haentgl.Protocol.Basic Haentgl.Protocol.Requests Haentgl.Protocol.Writers
open Haentgl.Server.Links Haentgl.Server.Parties Haentgl.Server.Greeting
open Haentgl.Protocol.Writer (seqAfter)

/-! ### The server -/

/-- A storage backend; it writes its replies to the client itself. -/
structure CmdHandler (σ : Type) where
  auth : (plugin user salt data : Bytes) → Proc Stop (Conn σ) Bool
  onInit : Bytes → Proc Stop (Conn σ) Unit
  onPrepare : Bytes → Proc Stop (Conn σ) Unit
  onQuery : Bytes → Proc Stop (Conn σ) Unit
  onExecute : Bytes → Proc Stop (Conn σ) Unit

/-- `OkPacket::default()`. -/
def okDefault : OkPacket := ⟨0, 0, 0, 0, 0, "", ""⟩

/-- `{:?}` of a byte string. -/
def debugBytes (v : Bytes) : String :=
  "[" ++ String.intercalate ", " (v.map fun x => toString x.toNat) ++ "]"

/-- The text for a user who is refused. -/
def authFailed (user : Bytes) : String :=
  "Authenticate failed, user " ++ debugBytes user ++ ", auth_plugin: \"mysql_native_password\""

/-- The payload of `write_err_packet` with `ER_ACCESS_DENIED_NO_PASSWORD_ERROR`. -/
def authFailedPacket (user : Bytes) : Packet :=
  [0xff] ++ leBytes 2 1698 ++ "#28000".toUTF8.toList ++ asBytes (authFailed user)

/-- The payload that asks the client for another method. -/
def authSwitch : Packet := [0xfe] ++ nativePassword ++ [0x00] ++ defaultSalt ++ [0x00]

section Model
variable {σ : Type} (N : Net σ) (C : CmdHandler σ) (b : Profile) (known : CapabilityFlags)
variable (got : Bool → Packet → String) (tls : Bool)

/-- `set_seq(seq + 1)`. -/
def setSeqBehind (seq : UInt8) : Proc Stop (Conn σ) Unit := do
  setSeq .client (← orPanic (addU8 b seq 1))

def writeOk (caps : CapabilityFlags) (ok : OkPacket) : Proc Stop (Conn σ) Unit :=
  endPacket N .client (okPayload caps ok)

/-- One arm of the loop; `inr` leaves it. -/
def onCommand (clientFlags : CapabilityFlags) : Command → Proc Stop (Conn σ) (Unit ⊕ Unit)
  | .query q => do C.onQuery q; return .inl ()
  | .prepare statement => do C.onPrepare statement; return .inl ()
  | .execute _ params => do C.onExecute params; return .inl ()
  | .sendLongData _ _ _ => return .inl ()
  | .close _ => do writeOk N clientFlags okDefault; return .inl ()
  | .listFields _ => do writeOk N clientFlags { okDefault with header := 0xfe }; return .inl ()
  | .init schema => do C.onInit schema; return .inl ()
  | .ping => do writeOk N clientFlags okDefault; return .inl ()
  | .quit => return .inr ()

/-- One round of `on_cmd`. -/
def cmdRound (clientFlags : CapabilityFlags) (_ : Unit) : Proc Stop (Conn σ) (Unit ⊕ Unit) := do
  match ← onNet (N.next .client) with
  | none => return .inr ()
  | some (seq, packet) =>
    setSeqBehind b seq
    match fromPacket packet with
    | .ok (_, cmd) => onCommand N C clientFlags cmd
    | .error _ => do writeOk N clientFlags okDefault; return .inl ()

def onCmd (fuel : ℕ) (clientFlags : CapabilityFlags) : Proc Stop (Conn σ) Unit :=
  Proc.loop .outOfRounds (cmdRound N C b clientFlags) fuel ()

/-- `client_handshake_err!`; the parsers of the response never fail with `Eof`. `got` is the input and the
kind of the error as winnow prints them: `got afterTls packet` is a parameter of the server. -/
def handshakeErr (got : String) :
    Except Failure (Bytes × HandshakeResponse) → Proc Stop (Conn σ) HandshakeResponse
  | .ok (_, h) => pure h
  | .error (.err .incomplete) => Proc.stop (.io ⟨.unexpectedEof, "backend sent incomplete handshake"⟩)
  | .error (.err _) => Proc.stop (.io ⟨.invalidData, "bad backend handshake; got " ++ got⟩)
  | .error .panic => Proc.stop .panic

/-- `auth_pkt_reader!`. -/
def authPktReader (errMsg : String) : Proc Stop (Conn σ) (UInt8 × Packet) := do
  match ← onNet (N.next .client) with
  | some m => return m
  | none => Proc.stop (.io ⟨.connectionAborted, errMsg⟩)

/-- The writer of the greeting is not the writer of the session. -/
def initialHandshake (connId : ℕ) : Proc Stop (Conn σ) (UInt8 × HandshakeResponse) := do
  endPacket N .client (greetingPayload connId defaultSalt defaultBackendVersion false)
  flushAll N .client
  let (seq, pkt) ← authPktReader N "peer terminated connection"
  let h ← handshakeErr (got false pkt) (clientHandshakeResponse known pkt false)
  setSeqBehind b seq
  if !tls && h.clientFlag.contains .clientSsl then
    Proc.stop (.io ⟨.invalidData, "backend requested SSL despite us not advertising support for it"⟩)
  setSeq .client 0
  return (seq, h)

/-- With the `tls` feature a request for encryption is followed by the response itself. -/
def afterTls (h : HandshakeResponse) (seq : UInt8) : Proc Stop (Conn σ) (UInt8 × HandshakeResponse) := do
  if tls && h.clientFlag.contains .clientSsl then
    let (seq, pkt) ← authPktReader N "backend terminated connection"
    let h ← handshakeErr (got true pkt) (clientHandshakeResponse known pkt true)
    setSeqBehind b seq
    return (seq, h)
  else return (seq, h)

/-- The data of the authentication, asked for again if there are none for another plugin. -/
def authData (h : HandshakeResponse) (seq : UInt8) : Proc Stop (Conn σ) (UInt8 × Bytes) := do
  if h.authResponse = [] ∧ h.authPlugin ≠ nativePassword then
    setSeqBehind b seq
    endPacket N .client authSwitch
    flushAll N .client
    authPktReader N "backend terminated connection"
  else return (seq, h.authResponse)

/-- What is done for a response that names a user. -/
def authUser (h : HandshakeResponse) (seq : UInt8) (username : Bytes) : Proc Stop (Conn σ) Unit := do
  let (seq, authRsp) ← authData N b h seq
  setSeqBehind b seq
  let accepted ← C.auth nativePassword username defaultSalt authRsp
  if !accepted then
    endPacket N .client (authFailedPacket username)
    flushAll N .client
    Proc.stop (.io ⟨.permissionDenied, authFailed username⟩)
  match h.database.bind fun db => (fromUtf8 db).map fun _ => db with
  | some currDatabase => C.onInit currDatabase
  | none => writeOk N h.clientFlag okDefault

def respondClientHandshakeRsp (h : HandshakeResponse) (seq : UInt8) : Proc Stop (Conn σ) Unit := do
  let (seq, h) ← afterTls N b known got tls h seq
  if !h.clientFlag.contains .clientProtocol41 then
    Proc.stop (.io ⟨.connectionAborted, "Protocol Incompatibilities. Required: CLIENT_PROTOCOL_41." ++
      "Please upgrade your mysql backend."⟩)
  match h.username with
  | some username => authUser N C b h seq username
  | none => pure ()
  flushAll N .client

/-- `run`, and a round of `on_recv`. -/
def run (fuel connId : ℕ) : Proc Stop (Conn σ) Unit := do
  let (seq, h) ← initialHandshake N b known got tls connId
  respondClientHandshakeRsp N C b known got tls h seq
  onCmd N C b fuel .default

end Model

/-! ### A client and a handler -/

/-- A call of the handler. -/
inductive Call
  | auth (plugin user salt data : Bytes)
  | init (database : Bytes)
  | prepare (statement : Bytes)
  | query (q : Bytes)
  | execute (params : Bytes)
  deriving DecidableEq, Repr

def Call.isAuth : Call → Bool
  | .auth _ _ _ _ => true
  | _ => false

/-- A handler, by what it does at the last of the calls it has had: whether it lets a user in, and the
packets it writes, with the error it returns behind them. -/
structure Handler where
  accept : List Call → Except Stop Bool
  answer : List Call → List Packet × Except Stop Unit

/-- The client's packets and how they end, the number of writes that its socket still takes, and what
the server has done. -/
structure Desk where
  toCome : List Message
  clientEnd : Option IoError
  writesLeft : Option ℕ
  sent : List Message
  flushed : ℕ
  calls : List Call
  deriving DecidableEq, Repr

def readDesk : Proc Stop Desk (Option Message) := do
  let d ← Proc.get
  match d.toCome with
  | m :: ms =>
    Proc.modify fun d => { d with toCome := ms }
    return some m
  | [] =>
    match d.clientEnd with
    | none => return none
    | some e => Proc.stop (.io e)

theorem run_readDesk_cons {d : Desk} {m : Message} {ms : List Message} (h : d.toCome = m :: ms) :
    readDesk.run d = (.ok (some m), { d with toCome := ms }) := by
  rw [readDesk, Proc.run_bind_ok (Proc.run_get _)]
  simp only [h]
  rfl

theorem run_readDesk_nil {d : Desk} (h : d.toCome = []) (he : d.clientEnd = none) :
    readDesk.run d = (.ok none, d) := by
  rw [readDesk, Proc.run_bind_ok (Proc.run_get _)]
  simp only [h, he]
  rfl

theorem run_readDesk_error {d : Desk} {e : IoError} (h : d.toCome = []) (he : d.clientEnd = some e) :
    readDesk.run d = (.error (.io e), d) := by
  rw [readDesk, Proc.run_bind_ok (Proc.run_get _)]
  simp only [h, he]
  rfl

def Desk.deliver (d : Desk) (m : Message) : Desk :=
  { d with writesLeft := d.writesLeft.map (· - 1), sent := d.sent ++ [m] }

def writeDesk (m : Message) : Proc Stop Desk Unit := do
  let d ← Proc.get
  if d.writesLeft = some 0 then Proc.stop brokenPipe
  else Proc.modify fun d => d.deliver m

def desk : Net Desk where
  next _ := readDesk
  send _ q p := writeDesk (q, p)
  flush _ := Proc.modify fun d => { d with flushed := d.sent.length }

/-- The client's packet `m` is read. -/
def hear (c : Conn Desk) : Conn Desk := { c with net := { c.net with toCome := c.net.toCome.tail } }

theorem run_next_cons {c : Conn Desk} {m : Message} {ms : List Message} (h : c.net.toCome = m :: ms) :
    (onNet (desk.next .client)).run c = (.ok (some m), hear c) := by
  have heq : hear c = { c with net := { c.net with toCome := ms } } := by rw [hear, h, List.tail_cons]
  rw [heq]
  exact run_onNet (run_readDesk_cons h)

theorem run_next_nil {c : Conn Desk} (h : c.net.toCome = []) (he : c.net.clientEnd = none) :
    (onNet (desk.next .client)).run c = (.ok none, c) := run_onNet (run_readDesk_nil h he)

theorem run_next_error {c : Conn Desk} {e : IoError} (h : c.net.toCome = [])
    (he : c.net.clientEnd = some e) : (onNet (desk.next .client)).run c = (.error (.io e), c) :=
  run_onNet (run_readDesk_error h he)

/-- A call is put down; the calls up to it. -/
def record (x : Call) : Proc Stop (Conn Desk) (List Call) := do
  onNet (Proc.modify fun d => { d with calls := d.calls ++ [x] })
  return (← Proc.get).net.calls

def sendAll : List Packet → Proc Stop (Conn Desk) Unit
  | [] => pure ()
  | p :: ps => do
    endPacket desk .client p
    sendAll ps

def answerTo (H : Handler) (x : Call) : Proc Stop (Conn Desk) Unit := do
  let calls ← record x
  sendAll (H.answer calls).1
  Proc.lift (H.answer calls).2

def handler (H : Handler) : CmdHandler Desk where
  auth plugin user salt data := do
    let calls ← record (.auth plugin user salt data)
    Proc.lift (H.accept calls)
  onInit database := answerTo H (.init database)
  onPrepare statement := answerTo H (.prepare statement)
  onQuery q := answerTo H (.query q)
  onExecute params := answerTo H (.execute params)

/-! ### The gate -/

section Gate
variable {H : Handler} {known : CapabilityFlags} {l : List Message} {b : Profile} {tls : Bool}
variable {got : Bool → Packet → String}

/-- One of the packets `l` of the client is a response that names the user. -/
def Named (known : CapabilityFlags) (l : List Message) (user : Bytes) : Prop :=
  ∃ m ∈ l, ∃ t r h, clientHandshakeResponse known m.2 t = .ok (r, h) ∧ h.username = some user

/-- The handler has let in a user that the client has named, and has not been asked again. -/
def Admitted (H : Handler) (known : CapabilityFlags) (l : List Message) (calls : List Call) : Prop :=
  ∃ user data rest, calls = .auth nativePassword user defaultSalt data :: rest ∧ Named known l user ∧
    (∀ x ∈ rest, x.isAuth = false) ∧ H.accept [.auth nativePassword user defaultSalt data] = .ok true

/-- The handler has not let in a user that the client has named, and has had no other call. -/
def Refused (H : Handler) (known : CapabilityFlags) (l : List Message) (calls : List Call) : Prop :=
  ∃ user data, calls = [.auth nativePassword user defaultSalt data] ∧ Named known l user ∧
    H.accept calls ≠ .ok true

/-- What holds of the calls, and where the packets to come are from. -/
def Calls (P : List Call → Prop) (l : List Message) (c : Conn Desk) : Prop :=
  P c.net.calls ∧ ∀ m ∈ c.net.toCome, m ∈ l

/-- A response without a user asks for encryption. -/
theorem ssl_of_username {i r : Bytes} {t : Bool} {h : HandshakeResponse}
    (hr : clientHandshakeResponse known i t = .ok (r, h)) (hu : h.username = none) :
    t = false ∧ h.clientFlag.contains .clientSsl = true := by
  obtain ⟨⟨i₁, lower⟩, -, hr₁⟩ := bind_eq_ok.mp hr
  simp only at hr₁
  split_ifs at hr₁ with h41
  · rw [Protocol.Handshake.handshakeResponse41_eq] at hr₁
    obtain ⟨a, -, hr₂⟩ := bind_eq_ok.mp hr₁
    obtain ⟨m, -, hr₃⟩ := bind_eq_ok.mp hr₂
    obtain ⟨c, -, hr₄⟩ := bind_eq_ok.mp hr₃
    obtain ⟨d, -, hr₅⟩ := bind_eq_ok.mp hr₄
    split_ifs at hr₅ with hssl
    · cases hr₅
      simpa using hssl
    · obtain ⟨u, -, hr₆⟩ := bind_eq_ok.mp hr₅
      rw [(Protocol.Handshake.handshakeTail_user hr₆).1] at hu
      cases hu
  · obtain ⟨a, -, hr₂⟩ := bind_eq_ok.mp hr₁
    obtain ⟨d, -, hr₃⟩ := bind_eq_ok.mp hr₂
    obtain ⟨u, -, hr₄⟩ := bind_eq_ok.mp hr₃
    simp only at hr₄
    split_ifs at hr₄
    · obtain ⟨x₁, -, hr₅⟩ := bind_eq_ok.mp hr₄
      obtain ⟨x₂, -, hr₆⟩ := bind_eq_ok.mp hr₅
      obtain ⟨x₃, -, hr₇⟩ := bind_eq_ok.mp hr₆
      obtain ⟨x₄, -, hr₈⟩ := bind_eq_ok.mp hr₇
      cases hr₈
      cases hu
    · cases hr₄
      cases hu

variable {P : List Call → Prop}

theorem keeps_setSeq (q : UInt8) : Proc.Keeps (Calls P l) (setSeq .client q) := fun _ hc => hc

theorem keeps_setSeqBehind (seq : UInt8) : Proc.Keeps (Calls P l) (setSeqBehind b seq) := by
  refine Proc.Keeps.bind ?_ fun q => keeps_setSeq q
  rcases addU8 b seq 1 with _ | q
  · exact Proc.Keeps.stop _
  · exact Proc.Keeps.pure _

theorem keeps_endPacket (p : Packet) : Proc.Keeps (Calls P l) (endPacket desk .client p) := by
  intro c hc
  rw [run_endPacket]
  change Calls P l { c with clientSeq := seqAfter (c.seq .client) p, net := ((writeDesk _).run c.net).2 }
  by_cases hw : c.net.writesLeft = some 0
  · rw [show (writeDesk (c.seq .client, p)).run c.net = (.error brokenPipe, c.net) by
      simp [writeDesk, Proc.run_bind_ok (Proc.run_get _), hw]]
    exact hc
  · rw [show (writeDesk (c.seq .client, p)).run c.net = (.ok (), c.net.deliver (c.seq .client, p)) by
      simp [writeDesk, Proc.run_bind_ok (Proc.run_get _), hw]]
    exact hc

theorem keeps_flushAll : Proc.Keeps (Calls P l) (flushAll desk .client) := fun _ hc => hc

theorem keeps_sendAll : ∀ ps : List Packet, Proc.Keeps (Calls P l) (sendAll ps)
  | [] => Proc.Keeps.pure _
  | p :: ps => (keeps_endPacket p).bind fun _ => keeps_sendAll ps

theorem spec_next : Proc.Spec (Calls P l) (onNet (desk.next .client))
    (fun o c => Calls P l c ∧ ∀ m, o = some m → m ∈ l) (fun _ => Calls P l) := by
  intro c hc
  rcases hin : c.net.toCome with _ | ⟨m, ms⟩
  · rcases he : c.net.clientEnd with _ | e
    · rw [run_next_nil hin he]
      exact ⟨hc, fun m hm => by cases hm⟩
    · rw [run_next_error hin he]
      exact hc
  · rw [run_next_cons hin]
    refine ⟨⟨hc.1, fun x hx => hc.2 x (List.mem_of_mem_tail hx)⟩, fun x hx => hc.2 x ?_⟩
    obtain rfl := Option.some.inj hx
    rw [hin]
    exact List.mem_cons_self

theorem spec_authPktReader (msg : String) : Proc.Spec (Calls P l) (authPktReader desk msg)
    (fun m c => Calls P l c ∧ m ∈ l) (fun _ => Calls P l) := by
  refine Proc.Spec.bind spec_next fun o => ?_
  rcases o with _ | m
  · exact Proc.Spec.stop fun _ hc => hc.1
  · exact Proc.Spec.pure fun _ hc => ⟨hc.1, hc.2 m rfl⟩

theorem spec_handshakeErr (g : String) (r : Except Failure (Bytes × HandshakeResponse)) :
    Proc.Spec (Calls P l) (handshakeErr g r) (fun h c => Calls P l c ∧ ∃ i, r = .ok (i, h))
      (fun _ => Calls P l) := by
  rcases r with (⟨_ | _ | _⟩ | _) | ⟨i, h⟩
  case ok => exact Proc.Spec.pure fun _ hc => ⟨hc, i, rfl⟩
  all_goals exact Proc.Spec.stop fun _ hc => hc

/-- What the server knows of a response: it came from the client, and a user is missing only from a
request for encryption. -/
def Read (known : CapabilityFlags) (l : List Message) (h : HandshakeResponse) : Prop :=
  (∀ user, h.username = some user → Named known l user) ∧
    (h.username = none → h.clientFlag.contains .clientSsl = true)

theorem spec_response (g : String) (t : Bool) {m : Message} (hm : m ∈ l) :
    Proc.Spec (Calls P l) (handshakeErr g (clientHandshakeResponse known m.2 t))
      (fun h c => Calls P l c ∧ Read known l h ∧ (t = true → h.username ≠ none)) (fun _ => Calls P l) := by
  refine (spec_handshakeErr _ _).mono (fun _ hc => hc) ?_ fun _ _ hc => hc
  rintro h c ⟨hc, i, hi⟩
  refine ⟨hc, ⟨fun user hu => ⟨m, hm, t, i, h, hi, hu⟩, fun hu => (ssl_of_username hi hu).2⟩, fun ht hu => ?_⟩
  rw [ht] at hi
  cases (ssl_of_username hi hu).1

/-- What must hold for the next step to begin, beside `Calls`. -/
theorem spec_and {α : Type} {p : Proc Stop (Conn Desk) α} {A : Prop} {Q : α → Conn Desk → Prop}
    {E : Stop → Conn Desk → Prop} {I : Conn Desk → Prop} (h : A → Proc.Spec I p Q E) :
    Proc.Spec (fun c => I c ∧ A) p Q E := fun c hc => h hc.2 c hc.1

theorem spec_initialHandshake (connId : ℕ) :
    Proc.Spec (Calls P l) (initialHandshake desk b known got tls connId)
      (fun x c => Calls P l c ∧ Read known l x.2 ∧ (tls = false → x.2.username ≠ none))
      (fun _ => Calls P l) := by
  refine Proc.Spec.bind (keeps_endPacket _).spec fun _ => Proc.Spec.bind keeps_flushAll.spec fun _ => ?_
  refine Proc.Spec.bind (spec_authPktReader _) fun m => spec_and fun hm => ?_
  refine Proc.Spec.bind (spec_response _ false hm) fun h => spec_and fun hh => ?_
  refine Proc.Spec.bind (keeps_setSeqBehind _).spec fun _ => ?_
  refine Proc.Spec.ite (fun _ _ hc => hc) fun hssl => ?_
  refine Proc.Spec.bind (keeps_setSeq 0).spec fun _ => Proc.Spec.pure fun c hc => ⟨hc, hh.1, ?_⟩
  intro htls hu
  exact hssl (by simp [htls, hh.1.2 hu])

theorem spec_afterTls {h : HandshakeResponse} (hread : Read known l h)
    (hnot : tls = false → h.username ≠ none) (seq : UInt8) :
    Proc.Spec (Calls P l) (afterTls desk b known got tls h seq)
      (fun x c => Calls P l c ∧ Read known l x.2 ∧ x.2.username ≠ none) (fun _ => Calls P l) := by
  refine Proc.Spec.ite (fun _ => ?_) fun hssl => Proc.Spec.pure fun c hc => ⟨hc, hread, fun hu => ?_⟩
  · refine Proc.Spec.bind (spec_authPktReader _) fun m => spec_and fun hm => ?_
    refine Proc.Spec.bind (spec_response _ true hm) fun h' => spec_and fun hh => ?_
    exact Proc.Spec.bind (keeps_setSeqBehind _).spec fun _ =>
      Proc.Spec.pure fun c hc => ⟨hc, hh.1, hh.2 rfl⟩
  · rcases htls : tls with _ | _
    · exact hnot htls hu
    · exact hssl (by simp [htls, hread.2 hu])

theorem spec_authData (h : HandshakeResponse) (seq : UInt8) :
    Proc.Keeps (Calls P l) (authData desk b h seq) := by
  refine Proc.Keeps.ite ?_ (Proc.Keeps.pure _)
  refine (keeps_setSeqBehind _).bind fun _ => (keeps_endPacket _).bind fun _ => keeps_flushAll.bind fun _ => ?_
  exact ((spec_authPktReader _).mono (fun _ hc => hc) (fun _ _ hc => hc.1) fun _ _ hc => hc).keeps

theorem Admitted.append {calls : List Call} {x : Call} (h : Admitted H known l calls)
    (hx : x.isAuth = false) : Admitted H known l (calls ++ [x]) := by
  obtain ⟨user, data, rest, rfl, hnamed, hrest, hacc⟩ := h
  refine ⟨user, data, rest ++ [x], rfl, hnamed, fun y hy => ?_, hacc⟩
  rcases List.mem_append.mp hy with hy | hy
  · exact hrest y hy
  · rw [List.mem_singleton.mp hy]
    exact hx

theorem keeps_lift {α : Type} (r : Except Stop α) : Proc.Keeps (Calls P l) (Proc.lift r) := by
  rcases r with e | a
  · exact Proc.Keeps.stop e
  · exact Proc.Keeps.pure a

/-- The handler's calls are let through once the gate is open. -/
theorem keeps_answerTo {x : Call} (hx : x.isAuth = false) :
    Proc.Keeps (Calls (Admitted H known l) l) (answerTo H x) := by
  have hrecord : Proc.Keeps (Calls (Admitted H known l) l) (record x) :=
    fun c hc => ⟨hc.1.append hx, hc.2⟩
  exact hrecord.bind fun calls => (keeps_sendAll _).bind fun _ => keeps_lift _

theorem keeps_onCommand (flags : CapabilityFlags) (cmd : Command) :
    Proc.Keeps (Calls (Admitted H known l) l) (onCommand desk (handler H) flags cmd) := by
  have hok : ∀ ok, Proc.Keeps (Calls (Admitted H known l) l) (writeOk desk flags ok) :=
    fun _ => keeps_endPacket _
  cases cmd with
  | query q => exact (keeps_answerTo rfl).bind fun _ => Proc.Keeps.pure _
  | prepare s => exact (keeps_answerTo rfl).bind fun _ => Proc.Keeps.pure _
  | execute s params => exact (keeps_answerTo rfl).bind fun _ => Proc.Keeps.pure _
  | init d => exact (keeps_answerTo rfl).bind fun _ => Proc.Keeps.pure _
  | sendLongData s i d => exact Proc.Keeps.pure _
  | close s => exact (hok _).bind fun _ => Proc.Keeps.pure _
  | listFields t => exact (hok _).bind fun _ => Proc.Keeps.pure _
  | ping => exact (hok _).bind fun _ => Proc.Keeps.pure _
  | quit => exact Proc.Keeps.pure _

theorem keeps_onCmd (fuel : ℕ) (flags : CapabilityFlags) :
    Proc.Keeps (Calls (Admitted H known l) l) (onCmd desk (handler H) b fuel flags) := by
  have hnext : Proc.Keeps (Calls (Admitted H known l) l) (onNet (desk.next .client)) :=
    (spec_next.mono (fun _ hc => hc) (fun _ _ hc => hc.1) fun _ _ hc => hc).keeps
  refine Proc.Keeps.loop fun _ => hnext.bind fun o => ?_
  rcases o with _ | ⟨seq, packet⟩
  · exact Proc.Keeps.pure _
  · refine (keeps_setSeqBehind _).bind fun _ => ?_
    rcases hp : fromPacket packet with e | ⟨r, cmd⟩
    · exact (keeps_endPacket _).bind fun _ => Proc.Keeps.pure _
    · exact keeps_onCommand flags cmd

/-- The gate before it is passed: the handler has had no call, or has refused the user. -/
def AtGate (H : Handler) (known : CapabilityFlags) (l : List Message) (calls : List Call) : Prop :=
  calls = [] ∨ Refused H known l calls ∨ Admitted H known l calls

theorem spec_auth {user : Bytes} (hnamed : Named known l user) (data : Bytes) :
    Proc.Spec (Calls (· = []) l) ((handler H).auth nativePassword user defaultSalt data)
      (fun accepted => Calls (if accepted then Admitted H known l else Refused H known l) l)
      (fun _ => Calls (AtGate H known l) l) := by
  rintro c ⟨hcalls, hl⟩
  set x := Call.auth nativePassword user defaultSalt data with hx
  have hrun : ((handler H).auth nativePassword user defaultSalt data).run c =
      (H.accept [x], { c with net := { c.net with calls := [x] } }) := by
    change (Proc.lift (H.accept (c.net.calls ++ [x]))).run
      { c with net := { c.net with calls := c.net.calls ++ [x] } } = _
    rw [hcalls, List.nil_append]
    cases H.accept [x] <;> rfl
  rw [hrun]
  rcases hacc : H.accept [x] with e | _ | _
  · exact ⟨Or.inr (Or.inl ⟨user, data, rfl, hnamed, by simp [hacc]⟩), hl⟩
  · exact ⟨⟨user, data, rfl, hnamed, by simp [hacc]⟩, hl⟩
  · exact ⟨⟨user, data, [], rfl, hnamed, by simp, hacc⟩, hl⟩

/-- The handler is asked, and the server goes on only if it lets the user in. -/
theorem spec_authUser {h : HandshakeResponse} {user : Bytes} (hnamed : Named known l user) (seq : UInt8) :
    Proc.Spec (Calls (· = []) l) (authUser desk (handler H) b h seq user)
      (fun _ => Calls (Admitted H known l) l) (fun _ => Calls (AtGate H known l) l) := by
  refine Proc.Spec.bind (Q := fun _ => Calls (· = []) l) ?_ fun x => ?_
  · exact (spec_authData h seq).spec.mono (fun _ hc => hc) (fun _ _ hc => hc)
      fun _ _ hc => ⟨Or.inl hc.1, hc.2⟩
  refine Proc.Spec.bind (Q := fun _ => Calls (· = []) l) ?_ fun _ => ?_
  · exact (keeps_setSeqBehind _).spec.mono (fun _ hc => hc) (fun _ _ hc => hc)
      fun _ _ hc => ⟨Or.inl hc.1, hc.2⟩
  refine Proc.Spec.bind (spec_auth hnamed x.2) fun accepted => ?_
  rcases accepted with _ | _
  · have hgate : ∀ c, Calls (Refused H known l) l c → Calls (AtGate H known l) l c :=
      fun _ hc => ⟨Or.inr (Or.inl hc.1), hc.2⟩
    refine Proc.Spec.ite (fun _ => ?_) fun hne => absurd rfl hne
    refine Proc.Spec.bind ((keeps_endPacket _).spec.mono (fun _ hc => hc) (fun _ _ hc => hc)
      fun _ c hc => hgate c hc) fun _ => ?_
    exact Proc.Spec.bind (keeps_flushAll.spec.mono (fun _ hc => hc) (fun _ _ hc => hc)
      fun _ c hc => hgate c hc) fun _ c hc => hgate c hc
  · refine Proc.Spec.ite (fun hne => by cases hne) fun _ => ?_
    have hkeeps : ∀ p : Proc Stop (Conn Desk) Unit, Proc.Keeps (Calls (Admitted H known l) l) p →
        Proc.Spec (Calls (Admitted H known l) l) p (fun _ => Calls (Admitted H known l) l)
          (fun _ => Calls (AtGate H known l) l) :=
      fun p hp => hp.spec.mono (fun _ hc => hc) (fun _ _ hc => hc) fun _ _ hc => ⟨Or.inr (Or.inr hc.1), hc.2⟩
    refine hkeeps _ ?_
    rcases h.database.bind fun db => (fromUtf8 db).map fun _ => db with _ | db
    · exact keeps_endPacket _
    · exact keeps_answerTo rfl

theorem spec_respond {h : HandshakeResponse} (hread : Read known l h)
    (hnot : tls = false → h.username ≠ none) (seq : UInt8) :
    Proc.Spec (Calls (· = []) l) (respondClientHandshakeRsp desk (handler H) b known got tls h seq)
      (fun _ => Calls (Admitted H known l) l) (fun _ => Calls (AtGate H known l) l) := by
  have hnone : ∀ c, Calls (· = []) l c → Calls (AtGate H known l) l c := fun _ hc => ⟨Or.inl hc.1, hc.2⟩
  refine Proc.Spec.bind ((spec_afterTls hread hnot seq).mono (fun _ hc => hc) (fun _ _ hc => hc)
    fun _ c hc => hnone c hc) fun x => spec_and fun hx => ?_
  refine Proc.Spec.ite (fun _ c hc => hnone c hc) fun _ => ?_
  rcases hu : x.2.username with _ | user
  · exact absurd hu hx.2
  · refine Proc.Spec.bind (spec_authUser (hx.1.1 user hu) x.1) fun _ => ?_
    exact keeps_flushAll.spec.mono (fun _ hc => hc) (fun _ _ hc => hc)
      fun _ _ hc => ⟨Or.inr (Or.inr hc.1), hc.2⟩

theorem spec_run (fuel connId : ℕ) :
    Proc.Spec (Calls (· = []) l) (run desk (handler H) b known got tls fuel connId)
      (fun _ => Calls (Admitted H known l) l) (fun _ => Calls (AtGate H known l) l) := by
  refine Proc.Spec.bind ((spec_initialHandshake connId).mono (fun _ hc => hc) (fun _ _ hc => hc)
    fun _ _ hc => ⟨Or.inl hc.1, hc.2⟩) fun x => spec_and fun hx => ?_
  refine Proc.Spec.bind (spec_respond hx.1 hx.2 x.1) fun _ => ?_
  exact (keeps_onCmd fuel _).spec.mono (fun _ hc => hc) (fun _ _ hc => hc)
    fun _ _ hc => ⟨Or.inr (Or.inr hc.1), hc.2⟩

/-- **The gate.** Whatever the client sends and the handler does, in every run the handler has had no
call, or its first call was to authenticate a user whom the client has named, against the salt of the
greeting; it is never asked a second time, it has had further calls only if it let that user in, and the
run ends without an error only then. -/
theorem run_gate {fuel connId : ℕ} {c c' : Conn Desk} {r : Except Stop Unit} (hc : c.net.calls = [])
    (h : (run desk (handler H) b known got tls fuel connId).run c = (r, c')) :
    AtGate H known c.net.toCome c'.net.calls ∧
      (r = .ok () → Admitted H known c.net.toCome c'.net.calls) := by
  have hspec := @spec_run H known c.net.toCome b tls got fuel connId c ⟨hc, fun _ hm => hm⟩
  rw [h] at hspec
  rcases r with e | u
  · exact ⟨hspec.1, fun hr => by cases hr⟩
  · exact ⟨Or.inr (Or.inr hspec.1), fun _ => hspec.1⟩

end Gate

/-- A client that names the user `u`, asks one question and quits. -/
def asker : Desk :=
  ⟨[(1, [0, 0x82, 0, 0] ++ leBytes 4 1024 ++ [45] ++ List.replicate 23 0 ++ [0x75, 0, 1, 7]),
    (0, [0x03, 0x78]), (0, [0x01])], none, none, [], 0, []⟩

/-- A handler that lets everybody in and answers everything with one packet. -/
def Handler.kind : Handler := ⟨fun _ => .ok true, fun _ => ([[0, 0, 0, 2, 0, 0, 0]], .ok ())⟩

/-- An error at the end of the input. -/
def atEnd : Bool → Packet → String := fun _ _ => "[] (Slice)"

theorem run_gate_asker : ∃ c', (run desk (handler .kind) .dev (BitVec.allOnes 32) atEnd false 3 0).run
      ⟨0, 0, asker⟩ = (.ok (), c') ∧ Admitted .kind (BitVec.allOnes 32) asker.toCome c'.net.calls ∧
        c'.net.calls.length = 2 := by
  have hrun : ((run desk (handler .kind) .dev (BitVec.allOnes 32) atEnd false 3 0).run ⟨0, 0, asker⟩).1 =
      .ok () := by decide +kernel
  refine ⟨_, Prod.ext hrun rfl, (run_gate rfl (Prod.ext hrun rfl)).2 rfl, by decide +kernel⟩

/-! ### The command loop -/

/-- The call that a command is passed on as. -/
def callOf : Command → Option Call
  | .query q => some (.query q)
  | .prepare statement => some (.prepare statement)
  | .execute _ params => some (.execute params)
  | .init schema => some (.init schema)
  | _ => none

/-- The server's own reply to a command that is not passed on. -/
def ownReply (flags : CapabilityFlags) : Command → List Packet
  | .close _ | .ping => [okPayload flags okDefault]
  | .listFields _ => [okPayload flags { okDefault with header := 0xfe }]
  | _ => []

/-- The calls after a packet, and the replies to it. -/
def reply (H : Handler) (flags : CapabilityFlags) (calls : List Call) (p : Packet) :
    List Call × List Packet :=
  match fromPacket p with
  | .ok (_, cmd) =>
    match callOf cmd with
    | some x => (calls ++ [x], (H.answer (calls ++ [x])).1)
    | none => (calls, ownReply flags cmd)
  | .error _ => (calls, [okPayload flags okDefault])

/-- Packets, one behind the other, from the number `q` on. -/
def numbered (q : UInt8) : List Packet → List Message
  | [] => []
  | p :: ps => (q, p) :: numbered (seqAfter q p) ps

/-- The calls after some packets, and the replies to them. -/
def replies (H : Handler) (flags : CapabilityFlags) : List Call → List Message → List Call × List Message
  | calls, [] => (calls, [])
  | calls, m :: ms =>
    let (calls, ps) := reply H flags calls m.2
    let (calls, later) := replies H flags calls ms
    (calls, numbered (m.1 + 1) ps ++ later)

def isQuit (p : Packet) : Bool := p.head? == some CommandCode.comQuit.toU8

/-- The packets that are answered, those that are not read, and how the loop ends: at a `COM_QUIT`, at a
number behind which there is none, or where the packets end. -/
def course (b : Profile) (e : Option IoError) : List Message → List Message × List Message × Except Stop Unit
  | [] => ([], [], match e with | none => .ok () | some e => .error (.io e))
  | m :: ms =>
    if (addU8 b m.1 1).isNone then ([], ms, .error .panic)
    else if isQuit m.2 then ([], ms, .ok ())
    else (m :: (course b e ms).1, (course b e ms).2)

section Loop
variable {H : Handler} {b : Profile} {flags : CapabilityFlags} {c : Conn Desk}

/-- The handler writes its replies without an error. -/
def Handler.Willing (H : Handler) : Prop := ∀ calls, (H.answer calls).2 = .ok ()

/-- The desk after packets have been sent, the first with the number `q`. -/
def said (q : UInt8) (ps : List Packet) (c : Conn Desk) : Conn Desk :=
  { c with
    clientSeq := ps.foldl seqAfter q
    net := { c.net with sent := c.net.sent ++ numbered q ps } }

theorem run_endPacket_desk (hw : c.net.writesLeft = none) (p : Packet) :
    (endPacket desk .client p).run c = (.ok (), said c.clientSeq [p] c) := by
  rw [run_endPacket]
  refine run_onNet (?_ : (writeDesk (c.clientSeq, p)).run c.net = (.ok (), (said c.clientSeq [p] c).net))
  rw [writeDesk, Proc.run_bind_ok (Proc.run_get _), if_neg (by simp [hw])]
  simp [said, numbered, Desk.deliver, hw]

theorem run_sendAll : ∀ (ps : List Packet) {c : Conn Desk}, c.net.writesLeft = none →
    (sendAll ps).run c = (.ok (), said c.clientSeq ps c)
  | [], c, _ => by simp [sendAll, said, numbered]
  | p :: ps, c, hw => by
    rw [sendAll, Proc.run_bind_ok (run_endPacket_desk hw p), run_sendAll ps (by simpa [said] using hw)]
    simp [said, numbered]

/-- The desk after the client's packet `m` has been read and answered. -/
def answered (H : Handler) (flags : CapabilityFlags) (m : Message) (c : Conn Desk) : Conn Desk :=
  { c with
    clientSeq := (reply H flags c.net.calls m.2).2.foldl seqAfter (m.1 + 1)
    net := { c.net with
      toCome := c.net.toCome.tail
      sent := c.net.sent ++ numbered (m.1 + 1) (reply H flags c.net.calls m.2).2
      calls := (reply H flags c.net.calls m.2).1 } }

theorem run_setSeqBehind {seq : UInt8} (h : addU8 b seq 1 = some (seq + 1)) :
    (setSeqBehind b seq).run c = (.ok (), { c with clientSeq := seq + 1 }) := by
  rw [setSeqBehind, h]
  rfl

theorem run_setSeqBehind_none {seq : UInt8} (h : addU8 b seq 1 = none) :
    (setSeqBehind b seq).run c = (.error .panic, c) := by
  rw [setSeqBehind, h]
  rfl

theorem run_answerTo (hH : H.Willing) (hw : c.net.writesLeft = none) (x : Call) :
    (answerTo H x).run c = (.ok (), said c.clientSeq (H.answer (c.net.calls ++ [x])).1
      { c with net := { c.net with calls := c.net.calls ++ [x] } }) := by
  have hrecord : (record x).run c = (.ok (c.net.calls ++ [x]),
    { c with net := { c.net with calls := c.net.calls ++ [x] } }) := rfl
  rw [answerTo, Proc.run_bind_ok hrecord]
  rw [Proc.run_bind_ok (run_sendAll _ (by exact hw)), hH]
  rfl

theorem run_onCommand (hH : H.Willing) (hw : c.net.writesLeft = none) {m : Message} {r : Bytes}
    {cmd : Command} (hp : fromPacket m.2 = .ok (r, cmd)) (hcmd : cmd ≠ .quit) :
    (onCommand desk (handler H) flags cmd).run { hear c with clientSeq := m.1 + 1 } =
      (.ok (.inl ()), answered H flags m c) := by
  set d : Conn Desk := { hear c with clientSeq := m.1 + 1 } with hd
  have hwd : d.net.writesLeft = none := hw
  have hcall : ∀ x, callOf cmd = some x → (answerTo H x).run d = (.ok (), answered H flags m c) := by
    intro x hx
    rw [run_answerTo hH hwd]
    simp [said, answered, reply, hp, hx, hd, hear]
  have hown : ∀ p, callOf cmd = none → ownReply flags cmd = [p] →
      (endPacket desk .client p).run d = (.ok (), answered H flags m c) := by
    intro p hx hp'
    rw [run_endPacket_desk hwd]
    simp [said, answered, reply, hp, hx, hp', hd, hear]
  cases cmd with
  | query q => exact Proc.run_bind_ok (hcall _ rfl) _
  | prepare s => exact Proc.run_bind_ok (hcall _ rfl) _
  | execute s params => exact Proc.run_bind_ok (hcall _ rfl) _
  | init s => exact Proc.run_bind_ok (hcall _ rfl) _
  | close s => exact Proc.run_bind_ok (hown _ rfl rfl) _
  | listFields t => exact Proc.run_bind_ok (hown _ rfl rfl) _
  | ping => exact Proc.run_bind_ok (hown _ rfl rfl) _
  | quit => exact absurd rfl hcmd
  | sendLongData s i data =>
    change (Except.ok (Sum.inl ()), d) = _
    simp [answered, reply, hp, callOf, ownReply, numbered, hd, hear]

theorem isQuit_iff {p : Packet} : isQuit p = true ↔ ∃ r, fromPacket p = .ok (r, .quit) := by
  rw [isQuit, beq_iff_eq]
  constructor
  · intro h
    obtain ⟨r, rfl⟩ := List.head?_eq_some_iff.mp h
    exact ⟨r, rfl⟩
  · rintro ⟨r, hr⟩
    obtain ⟨com, i, rfl, hb⟩ := shape_of_fromPacket hr
    cases hb
    rfl

theorem run_cmdRound (hH : H.Willing) (hw : c.net.writesLeft = none) {m : Message} {ms : List Message}
    (hm : c.net.toCome = m :: ms) (hseq : addU8 b m.1 1 = some (m.1 + 1)) (hquit : isQuit m.2 = false) :
    (cmdRound desk (handler H) b flags ()).run c = (.ok (.inl ()), answered H flags m c) := by
  rw [cmdRound, Proc.run_bind_ok (run_next_cons hm)]
  simp only
  rw [Proc.run_bind_ok (run_setSeqBehind hseq)]
  rcases hp : fromPacket m.2 with e | ⟨r, cmd⟩
  · simp only
    rw [writeOk, Proc.run_bind_ok (run_endPacket_desk (by exact hw) _)]
    simp [said, answered, reply, hp, hear]
  · refine run_onCommand hH hw hp fun hcmd => ?_
    rw [isQuit_iff.mpr ⟨r, by rw [hp, hcmd]⟩] at hquit
    cases hquit

theorem addU8_cases (b : Profile) (x : UInt8) : addU8 b x 1 = none ∨ addU8 b x 1 = some (x + 1) := by
  unfold addU8
  split_ifs
  · exact Or.inl rfl
  · exact Or.inr rfl

/-- What the loop has done, from `c` to `c'`, once it ends. -/
structure Done (H : Handler) (flags : CapabilityFlags) (b : Profile) (c c' : Conn Desk) : Prop where
  sent : c'.net.sent = c.net.sent ++
    (replies H flags c.net.calls (course b c.net.clientEnd c.net.toCome).1).2
  calls : c'.net.calls = (replies H flags c.net.calls (course b c.net.clientEnd c.net.toCome).1).1
  toCome : c'.net.toCome = (course b c.net.clientEnd c.net.toCome).2.1
  flushed : c'.net.flushed = c.net.flushed

theorem run_loop (hH : H.Willing) : ∀ (ms : List Message) (fuel : ℕ) (c : Conn Desk),
    c.net.toCome = ms → c.net.writesLeft = none → ms.length < fuel → ∃ c',
      (onCmd desk (handler H) b fuel flags).run c = ((course b c.net.clientEnd ms).2.2, c') ∧
        Done H flags b c c'
  | _, 0, _, _, _, hn => absurd hn (by omega)
  | [], fuel + 1, c, hm, hw, _ => by
    rcases he : c.net.clientEnd with _ | e
    · have hround : (cmdRound desk (handler H) b flags ()).run c = (.ok (.inr ()), c) := by
        rw [cmdRound, Proc.run_bind_ok (run_next_nil hm he)]
        rfl
      exact ⟨c, Proc.loop_break hround, by simp [hm, course, replies], by simp [hm, course, replies],
        by simp [hm, course], rfl⟩
    · have hround : (cmdRound desk (handler H) b flags ()).run c = (.error (.io e), c) := by
        rw [cmdRound, Proc.run_bind_error (run_next_error hm he)]
      exact ⟨c, Proc.loop_stop hround, by simp [hm, course, replies], by simp [hm, course, replies],
        by simp [hm, course], rfl⟩
  | m :: ms, fuel + 1, c, hm, hw, hn => by
    rcases addU8_cases b m.1 with hseq | hseq
    · have hcourse : course b c.net.clientEnd (m :: ms) = ([], ms, .error .panic) := by
        rw [course, if_pos (by rw [hseq]; rfl)]
      have hround : (cmdRound desk (handler H) b flags ()).run c = (.error .panic, hear c) := by
        rw [cmdRound, Proc.run_bind_ok (run_next_cons hm)]
        exact Proc.run_bind_error (run_setSeqBehind_none hseq) _
      exact ⟨hear c, by rw [hcourse]; exact Proc.loop_stop hround,
        by simp [hm, hcourse, replies, hear], by simp [hm, hcourse, replies, hear],
        by simp [hm, hcourse, hear], rfl⟩
    by_cases hquit : isQuit m.2 = true
    · have hcourse : course b c.net.clientEnd (m :: ms) = ([], ms, .ok ()) := by
        rw [course, if_neg (by simp [hseq]), if_pos hquit]
      obtain ⟨r, hp⟩ := isQuit_iff.mp hquit
      have hround : (cmdRound desk (handler H) b flags ()).run c =
          (.ok (.inr ()), { hear c with clientSeq := m.1 + 1 }) := by
        rw [cmdRound, Proc.run_bind_ok (run_next_cons hm)]
        simp only
        rw [Proc.run_bind_ok (run_setSeqBehind hseq), hp]
        rfl
      exact ⟨{ hear c with clientSeq := m.1 + 1 }, by rw [hcourse]; exact Proc.loop_break hround,
        by simp [hm, hcourse, replies, hear], by simp [hm, hcourse, replies, hear],
        by simp [hm, hcourse, hear], rfl⟩
    · have hcourse : course b c.net.clientEnd (m :: ms) =
          (m :: (course b c.net.clientEnd ms).1, (course b c.net.clientEnd ms).2) := by
        rw [course, if_neg (by simp [hseq]), if_neg hquit]
      have hround : (cmdRound desk (handler H) b flags ()).run c =
          (.ok (.inl ()), answered H flags m c) := run_cmdRound hH hw hm hseq (by simpa using hquit)
      obtain ⟨c', hrun, hdone⟩ := run_loop hH ms fuel (answered H flags m c) (by simp [answered, hm])
        hw (by simpa using hn)
      refine ⟨c', ?_, ?_, ?_, ?_, hdone.flushed⟩
      · rw [hcourse]
        exact (Proc.loop_again hround).trans hrun
      · rw [hdone.sent, hm, hcourse]
        simp [answered, hm, replies]
      · rw [hdone.calls, hm, hcourse]
        simp [answered, hm, replies]
      · rw [hdone.toCome, hm, hcourse]
        simp [answered, hm]

/-- **The command loop.** For every list of packets, read in one go or one by one, the client gets the
replies to those that `course` says are answered, in their order and each from the number behind its
request on; the handler gets the calls they stand for and no others, nothing is flushed on the way, and
`course` says how the loop ends and what it has not read. -/
theorem onCmd_answers (hH : H.Willing) (hw : c.net.writesLeft = none) {fuel : ℕ}
    (hfuel : c.net.toCome.length < fuel) : ∃ c',
      (onCmd desk (handler H) b fuel flags).run c =
        ((course b c.net.clientEnd c.net.toCome).2.2, c') ∧ Done H flags b c c' :=
  run_loop hH _ fuel c rfl hw hfuel

end Loop

theorem onCmd_answers_asker : ∃ c',
    (onCmd desk (handler .kind) .dev 3 .default).run ⟨0, 0, { asker with toCome := asker.toCome.tail }⟩ =
      (.ok (), c') ∧ c'.net.sent = [(1, [0, 0, 0, 2, 0, 0, 0])] ∧ c'.net.calls = [.query [0x78]] := by
  obtain ⟨c', hrun, hdone⟩ := @onCmd_answers .kind .dev .default
    ⟨0, 0, { asker with toCome := asker.toCome.tail }⟩ (fun _ => rfl) rfl 3 (by decide)
  exact ⟨c', hrun, hdone.sent, hdone.calls⟩

end Haentgl.Server.StaticProxy
