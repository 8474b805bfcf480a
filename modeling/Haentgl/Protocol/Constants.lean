import Haentgl.Lib.Parse

/-! # Constants of the wire protocol

The sizes, header bytes and command codes of `protocol/mysql/constants.rs`, and the capability and
status flags the proxy tests. A flag set is a bit vector; `contains` is the inclusion of one set in
another.

The arithmetic on `u8` and `u16` depends on how the program was built: a `dev` build checks for
overflow and panics, a `release` build wraps around. `Profile` is a parameter of everything that
adds. -/

namespace Haentgl.Protocol.Constants

open Haentgl.Lib.Parse

/-- The largest payload of one frame. -/
def maxPayloadLen : ℕ := 16777215

/-- Three bytes of length and one of sequence number. -/
def packetHeaderLen : ℕ := 4

theorem maxPayloadLen_pos : 0 < maxPayloadLen := by decide

theorem maxPayloadLen_eq : maxPayloadLen + 1 = 256 ^ 3 := by decide

/-- The header byte that tells the packets of a response apart. -/
inductive HeaderInfo
  | okHeader
  | errHeader
  | eofHeader
  | localInFileHeader
  deriving DecidableEq, Repr

def HeaderInfo.toU8 : HeaderInfo → UInt8
  | .okHeader => 0x00
  | .errHeader => 0xff
  | .eofHeader => 0xfe
  | .localInFileHeader => 0xfb

/-- The commands, in the order of their codes. -/
inductive CommandCode
  | comSleep
  | comQuit
  | comInitDB
  | comQuery
  | comFieldList
  | comCreateDB
  | comDropDB
  | comRefresh
  | comShutdown
  | comStatistics
  | comProcessInfo
  | comConnect
  | comProcessKill
  | comDebug
  | comPing
  | comTime
  | comDelayedInsert
  | comChangeUser
  | comBinlogDump
  | comTableDump
  | comConnectOut
  | comRegisterSlave
  | comStmtPrepare
  | comStmtExecute
  | comStmtSendLongData
  | comStmtClose
  | comStmtReset
  | comSetOption
  | comStmtFetch
  | comDaemon
  | comBinlogDumpGtid
  | comResetConnection
  | comEnd
  deriving DecidableEq, Repr

namespace CommandCode

/-- All commands; the position is the code. -/
def all : List CommandCode :=
  [comSleep, comQuit, comInitDB, comQuery, comFieldList, comCreateDB, comDropDB, comRefresh,
    comShutdown, comStatistics, comProcessInfo, comConnect, comProcessKill, comDebug, comPing,
    comTime, comDelayedInsert, comChangeUser, comBinlogDump, comTableDump, comConnectOut,
    comRegisterSlave, comStmtPrepare, comStmtExecute, comStmtSendLongData, comStmtClose,
    comStmtReset, comSetOption, comStmtFetch, comDaemon, comBinlogDumpGtid, comResetConnection,
    comEnd]

def fromU8 (b : UInt8) : Option CommandCode := all[b.toNat]?

def toU8 (c : CommandCode) : UInt8 := UInt8.ofNat (all.idxOf c)

theorem fromU8_toU8 (c : CommandCode) : fromU8 c.toU8 = some c := by cases c <;> decide

theorem toU8_injective : Function.Injective toU8 := fun a b h => by
  rw [← Option.some.injEq, ← fromU8_toU8 a, h, fromU8_toU8]

theorem toU8_of_fromU8 {b : UInt8} {c : CommandCode} (h : fromU8 b = some c) : b = c.toU8 := by
  obtain ⟨hb, rfl⟩ := List.getElem?_eq_some_iff.mp h
  rw [toU8, List.Nodup.idxOf_getElem (by decide)]
  simp

end CommandCode

/-- The name the proxy sends in place of the client's plugin. -/
def unKnowPluginName : String := "auth_unknown_plugin"

/-! ### Flags -/

/-- Capability flags of a connection. -/
abbrev CapabilityFlags := BitVec 32

namespace CapabilityFlags

def contains (c f : CapabilityFlags) : Bool := c &&& f == f

def clientConnectWithDb : CapabilityFlags := 0x00000008
def clientLocalFiles : CapabilityFlags := 0x00000080
def clientProtocol41 : CapabilityFlags := 0x00000200
def clientSsl : CapabilityFlags := 0x00000800
def clientTransactions : CapabilityFlags := 0x00002000
def clientSecureConnection : CapabilityFlags := 0x00008000
def clientPluginAuth : CapabilityFlags := 0x00080000
def clientConnectAttrs : CapabilityFlags := 0x00100000
def clientPluginAuthLenencClientData : CapabilityFlags := 0x00200000
def clientSessionTrack : CapabilityFlags := 0x00800000
def clientDeprecateEof : CapabilityFlags := 0x01000000
def clientOptionalResultsetMetadata : CapabilityFlags := 0x02000000

/-- What the proxy offers: all bits up to `0x02000000` but compression and TLS, and `0x80000000`. -/
def default : CapabilityFlags := 0x83fff7df

end CapabilityFlags

/-- Status flags of a response. -/
abbrev StatusFlags := BitVec 16

namespace StatusFlags

def contains (s f : StatusFlags) : Bool := s &&& f == f

def serverMoreResultsExists : StatusFlags := 0x0008
def serverStatusCursorExists : StatusFlags := 0x0040
def serverSessionStateChanged : StatusFlags := 0x4000

/-- The flags of a word in which only bits of the defined flags are set. -/
def fromBits (defined : StatusFlags) (bits : ℕ) : Option StatusFlags :=
  if BitVec.ofNat 16 bits &&& ~~~ defined = 0 then some (BitVec.ofNat 16 bits) else none

/-- The bits of a word that are defined. -/
def fromBitsTruncate (defined : StatusFlags) (bits : ℕ) : StatusFlags := BitVec.ofNat 16 bits &&& defined

/-- All bits of a word. -/
def fromBitsRetain (bits : ℕ) : StatusFlags := BitVec.ofNat 16 bits

end StatusFlags

/-! ### Overflow -/

/-- The build profile: `dev` compiles overflow checks in, `release` does not. -/
inductive Profile
  | release
  | dev
  deriving DecidableEq, Repr

/-- `x + y` on `u8`; `none` is the panic of a checked overflow. -/
def addU8 (b : Profile) (x y : UInt8) : Option UInt8 :=
  if b = .dev ∧ 256 ≤ x.toNat + y.toNat then none else some (x + y)

/-- `x - y` on `u8`. -/
def subU8 (b : Profile) (x y : UInt8) : Option UInt8 :=
  if b = .dev ∧ x.toNat < y.toNat then none else some (x - y)

theorem addU8_eq {b : Profile} {x y : UInt8} (h : x.toNat + y.toNat < 256) :
    addU8 b x y = some (x + y) :=
  if_neg fun hb => absurd hb.2 (by omega)

theorem subU8_eq {b : Profile} {x y : UInt8} (h : y.toNat ≤ x.toNat) :
    subU8 b x y = some (x - y) :=
  if_neg fun hb => absurd hb.2 (by omega)

end Haentgl.Protocol.Constants
