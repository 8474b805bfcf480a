import Haentgl.Protocol.Packets

/-! # Length-encoded numbers, OK packets and the client's handshake response

The parsers of `protocol/mysql/basic.rs`. The bits that `from_bits_truncate` keeps of a word of
capabilities are a constant of the flags' crate; the parser takes them as the argument `known`.

`lenenc` is the encoding of a number that `readLengthEncodedNumber` undoes
(`readLengthEncodedNumber_lenenc`), and `OkBody` describes the OK packets that `okPacket` accepts
(`okPacket_body`). -/

namespace Haentgl.Protocol.Basic

open Haentgl.Lib.Parse Haentgl.Protocol.Constants Haentgl.Protocol.Packets

/-- `std::str::from_utf8`. -/
def fromUtf8 (b : Bytes) : Option String := String.fromUTF8? ⟨b.toArray⟩

/-- Success, or a panic. -/
def unwrap {α : Type} : Option α → Except Failure α
  | some a => .ok a
  | none => .error .panic

structure OkPacket where
  header : UInt8
  affectedRows : ℕ
  lastInsertId : ℕ
  statusFlags : StatusFlags
  warnings : ℕ
  info : String
  sessionStateInfo : String
  deriving DecidableEq, Repr

structure HandshakeResponse where
  clientFlag : CapabilityFlags
  maxPacketLen : ℕ
  collation : ℕ
  tenantKey : Option Bytes
  username : Option Bytes
  authResponse : Bytes
  authPlugin : Bytes
  database : Option Bytes
  connectAttributes : Option (List (String × String))
  deriving DecidableEq, Repr

/-- The part of the user's name in front of its last dot becomes the tenant, unless the routes are
static. -/
def HandshakeResponse.changeTenantIfNeed (isNotStatic : Bool) (h : HandshakeResponse) :
    HandshakeResponse :=
  if isNotStatic then
    match h.username with
    | some connUser =>
      if 0x2e ∈ connUser then
        -- the position of the last dot
        let pos := connUser.length - 1 - connUser.reverse.idxOf 0x2e
        { h with tenantKey := some (connUser.take pos), username := some (connUser.drop (pos + 1)) }
      else h
    | none => h
  else h

/-- A response with the given capabilities and nothing else. -/
def HandshakeResponse.bare (caps : CapabilityFlags) : HandshakeResponse :=
  ⟨caps, 0, 0, none, none, [], [], none, none⟩

/-! ### The parsers -/

def readLengthEncodedNumber (i : Bytes) : Except Failure (Bytes × ℕ) := do
  let (i, b) ← leUint 1 i
  let rSize ← match b with
    | 0xfb => return (i, 0)
    | 0xfc => pure 2
    | 0xfd => pure 3
    | 0xfe => pure 8
    | _ => return (i, b)
  leUint rSize i

def readLengthEncodedString (i : Bytes) : Except Failure (Bytes × Bytes) := do
  let (i, len) ← readLengthEncodedNumber i
  take len i

/-- The defined bits of the status of an EOF packet; `&i[3..]` panics on a packet that is too short for
it. -/
def eofServerStatus (defined : StatusFlags) (i : Bytes) : Except Failure (Bytes × StatusFlags) := do
  if i.length < 3 then .error .panic
  let (i, code) ← leUint 2 (i.drop 3)
  return (i, .fromBitsTruncate defined code)

/-- The two texts at the end of an OK packet. -/
def okTexts (status : StatusFlags) (capabilities : CapabilityFlags) (i : Bytes) :
    Except Failure (String × String) := do
  if i ≠ [] ∧ capabilities.contains .clientSessionTrack then
    let (i, infoSize) ← readLengthEncodedNumber i
    let (i, info) ← take infoSize i
    if status.contains .serverSessionStateChanged then
      let (i, size) ← readLengthEncodedNumber i
      let (_, state) ← take size i
      return ((fromUtf8 info).getD "", (fromUtf8 state).getD "")
    else return ((fromUtf8 info).getD "", "")
  else return ("", "")

def okPacket (i : Bytes) (capabilities : CapabilityFlags) : Except Failure (Bytes × OkPacket) := do
  let (i, header) ← take 1 i
  let (i, affectedRows) ← readLengthEncodedNumber i
  let (i, lastInsertId) ← readLengthEncodedNumber i
  let (i, status) ← leUint 2 i
  let statusFlags := StatusFlags.fromBitsRetain status
  let (i, warnings) ← leUint 2 i
  let (info, sessionStateInfo) ← okTexts statusFlags capabilities i
  return (i, ⟨header.headD 0, affectedRows, lastInsertId, statusFlags, warnings, info,
    sessionStateInfo⟩)

/-- The bytes before a zero, and the zero. -/
def nulString (i : Bytes) : Except Failure (Bytes × Bytes) := do
  let (i, s) ← takeUntil1 0 i
  let (i, _) ← literal [0] i
  return (i, s)

/-- The key-value pairs of the connection attributes; a later value replaces an earlier one. -/
def attributes : ℕ → Bytes → List (String × String) → Except Failure (List (String × String))
  | 0, _, acc => .ok acc
  | n + 1, i, acc => do
    if i = [] then return acc
    let (i, k) ← readLengthEncodedString i
    let (i, v) ← readLengthEncodedString i
    let key ← unwrap (fromUtf8 k)
    let value ← unwrap (fromUtf8 v)
    attributes n i ((key, value) :: acc.filter fun kv => kv.1 ≠ key)

/-- The part of a handshake response behind the fixed fields. -/
def handshakeTail (capabilities : CapabilityFlags) (maxPacketLen collation : ℕ)
    (username : Option Bytes) (i : Bytes) : Except Failure (Bytes × HandshakeResponse) := do
  let (i, authResponse) ←
    if capabilities.contains .clientPluginAuthLenencClientData then do
      let (i, size) ← readLengthEncodedNumber i
      take size i
    else if capabilities.contains .clientSecureConnection then do
      let (i, size) ← leUint 1 i
      take size i
    else takeUntil1 0 i
  let (i, db) ←
    if capabilities.contains .clientConnectWithDb ∧ i ≠ [] then do
      let (i, db) ← nulString i
      pure (i, some db)
    else pure (i, none)
  let (i, authPlugin) ←
    if capabilities.contains .clientPluginAuth ∧ i ≠ [] then nulString i
    else pure (i, [])
  let (i, connectAttributes) ←
    if capabilities.contains .clientConnectAttrs ∧ i ≠ [] then do
      let (i, dataLen) ← readLengthEncodedNumber i
      let (i, data) ← take dataLen i
      let attrs ← attributes data.length data []
      pure (i, some attrs)
    else pure (i, none)
  return (i, ⟨capabilities, maxPacketLen, collation, none, username, authResponse, authPlugin, db,
    connectAttributes⟩)

/-- `HandshakeResponse41`, behind the lower half of the capabilities. -/
def handshakeResponse41 (known : CapabilityFlags) (lower : ℕ) (isAfterTls : Bool) (i : Bytes) :
    Except Failure (Bytes × HandshakeResponse) := do
  let (i, cap2) ← leUint 2 i
  let capabilities : CapabilityFlags := BitVec.ofNat 32 (cap2 * 2 ^ 16 + lower) &&& known
  let (i, maxPacketLen) ← leUint 4 i
  let (i, collation) ← leUint 1 i
  let (i, _) ← take 23 i
  if !isAfterTls && capabilities.contains .clientSsl then
    return (i, ⟨capabilities, maxPacketLen, collation, none, none, [], [], none, none⟩)
  let (i, username) ←
    if isAfterTls || !capabilities.contains .clientSsl then do
      let (i, user) ← nulString i
      pure (i, some user)
    else pure (i, none)
  handshakeTail capabilities maxPacketLen collation username i

/-- `HandshakeResponse320`, behind the capabilities. -/
def handshakeResponse320 (capabilities : CapabilityFlags) (i : Bytes) :
    Except Failure (Bytes × HandshakeResponse) := do
  let (i, len1) ← leUint 2 i
  let (i, len2) ← leUint 1 i
  let maxPacketLen := len2 * 2 ^ 16 + len1
  let (i, username) ← nulString i
  if capabilities.contains .clientConnectWithDb then
    -- the source wants four zeros here
    let (i, authResponse) ← literal [0] i
    let (i, _) ← literal [0] i
    let (i, db) ← literal [0] i
    let (i, _) ← literal [0] i
    return (i, ⟨capabilities, maxPacketLen, 0, none, some username, authResponse, [], some db, none⟩)
  else
    return ([], ⟨capabilities, maxPacketLen, 0, none, some username, i, [], none, none⟩)

def clientHandshakeResponse (known : CapabilityFlags) (i : Bytes) (isAfterTls : Bool) :
    Except Failure (Bytes × HandshakeResponse) := do
  let (i, lower) ← leUint 2 i
  let capabilities : CapabilityFlags := BitVec.ofNat 32 lower &&& known
  if capabilities.contains .clientProtocol41 then handshakeResponse41 known lower isAfterTls i
  else handshakeResponse320 capabilities i

/-! ### Length-encoded numbers -/

/-- The shortest encoding of a number below `2 ^ 64`. -/
def lenenc (n : ℕ) : Bytes :=
  if n < 0xfb then [UInt8.ofNat n]
  else if n < 256 ^ 2 then 0xfc :: leBytes 2 n
  else if n < 256 ^ 3 then 0xfd :: leBytes 3 n
  else 0xfe :: leBytes 8 n

/-- A string with its length in front. -/
def lenencStr (s : Bytes) : Bytes := lenenc s.length ++ s

theorem lenenc_ne_nil (n : ℕ) : lenenc n ≠ [] := by
  unfold lenenc
  split_ifs <;> simp

theorem leUint_one (b : UInt8) (r : Bytes) : leUint 1 (b :: r) = .ok (r, b.toNat) :=
  leUint_eq_ok.mpr ⟨[b], rfl, rfl, by simp [leNat]⟩

theorem readLengthEncodedNumber_lenenc {n : ℕ} (h : n < 256 ^ 8) (r : Bytes) :
    readLengthEncodedNumber (lenenc n ++ r) = .ok (r, n) := by
  unfold lenenc readLengthEncodedNumber
  split_ifs with h1 h2 h3
  · -- one byte below `0xfb` stands for itself
    have hn : (UInt8.ofNat n).toNat = n := UInt8.toNat_ofNat_of_lt (by change n < 256; omega)
    rw [List.singleton_append, leUint_one, hn]
    simp only [bind, Except.bind]
    split <;> first | omega | rfl
  · rw [List.cons_append, leUint_one]
    exact leUint_leBytes r h2
  · rw [List.cons_append, leUint_one]
    exact leUint_leBytes r h3
  · rw [List.cons_append, leUint_one]
    exact leUint_leBytes r h

/-! ### OK packets -/

/-- What may stand behind the fixed part of an OK packet: with session tracking nothing, or the
information and, if the status says so, the changes of the session; anything without. -/
def OkTail (caps : CapabilityFlags) (status : StatusFlags) (tail : Bytes) : Prop :=
  caps.contains .clientSessionTrack → tail = [] ∨ ∃ info state : Bytes,
    info.length < 256 ^ 8 ∧ state.length < 256 ^ 8 ∧
      tail = lenencStr info ++ if status.contains .serverSessionStateChanged then lenencStr state else []

/-- An OK packet with header `header` that is well formed under the capabilities `caps`. -/
structure OkBody (caps : CapabilityFlags) (header : UInt8) (status : StatusFlags) (p : Packet) :
    Prop where
  shape : ∃ rows id warnings tail, rows < 256 ^ 8 ∧ id < 256 ^ 8 ∧ warnings < 256 ^ 2 ∧
    OkTail caps status tail ∧
    p = header :: (lenenc rows ++ (lenenc id ++ (leBytes 2 status.toNat ++
      (leBytes 2 warnings ++ tail))))

theorem okTexts_tail {caps : CapabilityFlags} {status : StatusFlags} {tail : Bytes}
    (h : OkTail caps status tail) : ∃ t, okTexts status caps tail = .ok t := by
  unfold okTexts
  split_ifs with hc hs
  · obtain rfl | ⟨info, state, hi, hst, rfl⟩ := h hc.2
    · exact absurd rfl hc.1
    · rw [if_pos hs, lenencStr, lenencStr, List.append_assoc, readLengthEncodedNumber_lenenc hi]
      simp only [bind, Except.bind, take_append, readLengthEncodedNumber_lenenc hst, take_all]
      exact ⟨_, rfl⟩
  · obtain rfl | ⟨info, state, hi, -, rfl⟩ := h hc.2
    · exact absurd rfl hc.1
    · rw [if_neg hs, lenencStr, List.append_assoc, readLengthEncodedNumber_lenenc hi]
      simp only [bind, Except.bind, take_append]
      exact ⟨_, rfl⟩
  · exact ⟨_, rfl⟩

/-- **A well-formed OK packet is accepted** and its status is read. -/
theorem okPacket_body {caps : CapabilityFlags} {header : UInt8} {status : StatusFlags} {p : Packet}
    (h : OkBody caps header status p) : ∃ r ok, okPacket p caps = .ok (r, ok) ∧
      ok.statusFlags = status := by
  obtain ⟨rows, id, warnings, tail, hr, hi, hw, ht, rfl⟩ := h.shape
  obtain ⟨t, htexts⟩ := okTexts_tail ht
  have hhead : ∀ r, take 1 (header :: r) = .ok (r, [header]) := take_append [header]
  have hst : StatusFlags.fromBitsRetain status.toNat = status := by
    simp [StatusFlags.fromBitsRetain]
  rw [okPacket, hhead]
  simp only [bind, Except.bind, readLengthEncodedNumber_lenenc hr, readLengthEncodedNumber_lenenc hi,
    leUint_leBytes _ (show status.toNat < 256 ^ 2 from status.isLt), leUint_leBytes _ hw, hst, htexts]
  exact ⟨_, _, rfl, rfl⟩

/-- A zero and one number are too short for an OK packet. -/
theorem okPacket_short {n : ℕ} (hn : n < 256 ^ 8) (caps : CapabilityFlags) :
    ∃ e, okPacket (0 :: lenenc n) caps = .error e := by
  have hhead : take 1 (0 :: lenenc n) = .ok (lenenc n, [0]) := take_append [0] (lenenc n)
  have hrows : readLengthEncodedNumber (lenenc n) = .ok ([], n) := by
    simpa using readLengthEncodedNumber_lenenc hn []
  rw [okPacket, hhead]
  simp only [bind, Except.bind, hrows]
  exact ⟨_, rfl⟩

/-- The status of an EOF packet of five bytes. -/
theorem eofServerStatus_five {defined status : StatusFlags} (w : Bytes) (hw : w.length = 2) :
    eofServerStatus defined (0xfe :: (w ++ leBytes 2 status.toNat)) =
      .ok ([], .fromBitsTruncate defined status.toNat) := by
  have hdrop : (0xfe :: (w ++ leBytes 2 status.toNat)).drop 3 = leBytes 2 status.toNat ++ [] := by
    rw [List.append_nil, List.drop_succ_cons, List.drop_left' hw]
  have hlen : ¬ (0xfe :: (w ++ leBytes 2 status.toNat) : Bytes).length < 3 := by
    simp [hw]
  rw [eofServerStatus, if_neg hlen, hdrop]
  simp only [bind, Except.bind, leUint_leBytes [] (show status.toNat < 256 ^ 2 from status.isLt)]
  rfl

end Haentgl.Protocol.Basic
