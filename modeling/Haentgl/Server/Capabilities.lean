import Haentgl.Server.Readings

/-! # The responses under the capabilities that are offered

What a backend may send depends on the capabilities of the client, and the proxy offers more of them to a
client than it can forward. `Response` describes the responses under any set of capabilities: with
`CLIENT_LOCAL_FILES` a result may be a request for a file, and with `CLIENT_OPTIONAL_RESULTSET_METADATA`
the number of columns has a byte before it, which says whether the definitions follow. `forward_query`
goes by the first byte alone. The request is not implemented; a zero before the number of columns makes
an OK packet of the header, for which it is too short.

`handlesAll_iff` says under which sets this cannot happen, and which responses are relayed under the
others. -/

namespace Haentgl.Server.Capabilities

open Haentgl.Lib.Parse Haentgl.Lib.Program Haentgl.Protocol.Constants Haentgl.Protocol.Io
open Haentgl.Protocol.Packets Haentgl.Protocol.Basic Haentgl.Server.Links Haentgl.Server.Forwarders
open Haentgl.Server.Parties Haentgl.Server.Responses Haentgl.Server.Readings

/-! ### The packets, with and without the protocol of version 4.1 -/

/-- The status and the warnings of an OK packet. -/
def statusFields (caps : CapabilityFlags) (status : StatusFlags) (warnings : ℕ) : Bytes :=
  if caps.contains .clientProtocol41 then leBytes 2 status.toNat ++ leBytes 2 warnings
  else if caps.contains .clientTransactions then leBytes 2 status.toNat
  else []

def IsOk (caps : CapabilityFlags) (b : UInt8) (status : StatusFlags) (p : Packet) : Prop :=
  ∃ rows id warnings tail, rows < 256 ^ 8 ∧ id < 256 ^ 8 ∧ warnings < 256 ^ 2 ∧
    OkTail caps status tail ∧
    p = b :: (lenenc rows ++ (lenenc id ++ (statusFields caps status warnings ++ tail)))

def IsErr (caps : CapabilityFlags) (p : Packet) : Prop :=
  ∃ (code : ℕ) (state msg : Bytes), code < 0xffff ∧ state.length = 5 ∧
    p = 0xff :: (leBytes 2 code ++
      ((if caps.contains .clientProtocol41 then 0x23 :: state else []) ++ msg))

/-- Before version 4.1 an EOF packet is a single byte. -/
def IsEofOf (caps : CapabilityFlags) (status : StatusFlags) (p : Packet) : Prop :=
  if caps.contains .clientProtocol41 then IsEof status p else p = [0xfe]

/-- Before version 4.1 a column definition starts with the name of the table. -/
def IsColumn (caps : CapabilityFlags) (p : Packet) : Prop :=
  if caps.contains .clientProtocol41 then ColumnDef p
  else ∃ table rest, p = lenencStr table ++ rest

/-- What stands between the definitions and the rows. -/
def IsGap (caps : CapabilityFlags) (ps : List Packet) : Prop :=
  if caps.contains .clientDeprecateEof then ps = []
  else ∃ status p, IsEofOf caps status p ∧ ¬ status.contains .serverStatusCursorExists ∧ ps = [p]

/-- The packet that closes the rows. -/
def IsRowsEnd (caps : CapabilityFlags) (p : Packet) : Option StatusFlags → Prop
  | some status =>
    if caps.contains .clientDeprecateEof then IsOk caps 0xfe status p ∧ p.length < 0xffffff
    else IsEofOf caps status p
  | none => IsErr caps p

section Protocol41
variable {caps : CapabilityFlags} {b : UInt8} {status : StatusFlags} {st : Option StatusFlags}
  {p : Packet} {ps : List Packet} (h41 : caps.contains .clientProtocol41 = true)
include h41

theorem IsOk.body (h : IsOk caps b status p) : OkBody caps b status p := by
  obtain ⟨rows, id, warnings, tail, hr, hi, hw, ht, rfl⟩ := h
  refine ⟨rows, id, warnings, tail, hr, hi, hw, ht, ?_⟩
  rw [statusFields, if_pos h41, List.append_assoc]

theorem IsErr.body (h : IsErr caps p) : ErrBody p := by
  obtain ⟨code, state, msg, hc, hs, rfl⟩ := h
  refine ⟨code, state, msg, hc, hs, ?_⟩
  rw [if_pos h41, List.cons_append]

theorem IsEofOf.eof (h : IsEofOf caps status p) : IsEof status p := by
  rwa [IsEofOf, if_pos h41] at h

theorem IsColumn.columnDef (h : IsColumn caps p) : ColumnDef p := by
  rwa [IsColumn, if_pos h41] at h

theorem IsGap.columnsEnd (h : IsGap caps ps) : ColumnsEnd caps ps := by
  unfold IsGap at h
  unfold ColumnsEnd
  split_ifs at h ⊢
  · exact h
  · obtain ⟨status, p, hp, hcur, rfl⟩ := h
    exact ⟨status, p, hp.eof h41, hcur, rfl⟩

theorem IsRowsEnd.rowsEnd (h : IsRowsEnd caps p st) : RowsEnd caps p st := by
  cases st with
  | none => exact IsErr.body h41 h
  | some status =>
    simp only [IsRowsEnd] at h
    simp only [RowsEnd]
    split_ifs at h ⊢
    · exact ⟨h.1.body h41, h.2⟩
    · exact h.eof h41

end Protocol41

/-! ### The responses -/

/-- A result: an OK or an ERR packet, a request for a file of the client, a result set, or what a cursor
leaves of one. A result set says whether its definitions follow, and has a number of columns. -/
inductive Result
  | ok (p : Packet)
  | err (p : Packet)
  | file (name : Bytes)
  | rows (follows : Bool) (n : ℕ) (columns gap data : List Packet) (last : Packet)
  | cursor (follows : Bool) (n : ℕ) (columns : List Packet) (last : Packet)

/-- The first packet of a result set. -/
def header (caps : CapabilityFlags) (follows : Bool) (n : ℕ) : Packet :=
  if caps.contains .clientOptionalResultsetMetadata then (if follows then 1 else 0) :: lenenc n
  else lenenc n

/-- What holds of the definitions: only a client that can do without them has to. -/
structure IsMetadata (caps : CapabilityFlags) (follows : Bool) (n : ℕ) (columns : List Packet) :
    Prop where
  pos : 1 ≤ n
  lt : n < 256 ^ 8
  defs : ∀ d ∈ columns, IsColumn caps d
  skipped : follows = false → caps.contains .clientOptionalResultsetMetadata = true ∧ columns = []

namespace Result

def packets (caps : CapabilityFlags) : Result → List Packet
  | ok p => [p]
  | err p => [p]
  | file name => [HeaderInfo.localInFileHeader.toU8 :: name]
  | rows follows n columns gap data last =>
    header caps follows n :: (columns ++ (gap ++ (data ++ [last])))
  | cursor follows n columns last => header caps follows n :: (columns ++ [last])

/-- The header of a result set. -/
def header? (caps : CapabilityFlags) : Result → Option Packet
  | rows follows n _ _ _ _ => some (header caps follows n)
  | cursor follows n _ _ => some (header caps follows n)
  | _ => none

/-- A result that a backend may send under some capabilities, with its status. Behind the request for a
file the backend waits for the client. -/
def Legal (caps : CapabilityFlags) : Result → Option StatusFlags → Prop
  | ok p, some status => IsOk caps 0 status p
  | err p, none => IsErr caps p
  | file _, none => caps.contains .clientLocalFiles = true
  | rows follows n columns gap data last, st =>
    IsMetadata caps follows n columns ∧ IsGap caps gap ∧ (∀ r ∈ data, Row n r) ∧
      IsRowsEnd caps last st
  | cursor follows n columns last, some status =>
    caps.contains .clientDeprecateEof = false ∧ IsMetadata caps follows n columns ∧
      IsEofOf caps status last ∧ status.contains .serverStatusCursorExists = true ∧
      status.contains .serverMoreResultsExists = false
  | _, _ => False

/-- Neither a request for a file, nor a result set without its definitions. -/
def Understood : Result → Prop
  | file _ => False
  | rows follows _ _ _ _ _ => follows = true
  | cursor follows _ _ _ => follows = true
  | _ => True

end Result

/-- A response: all results but the last announce another one. -/
inductive Response (caps : CapabilityFlags) : List Result → Prop
  | last {r s} : r.Legal caps s → more s = false → Response caps [r]
  | more {r rs s} : r.Legal caps s → more s = true → Response caps rs → Response caps (r :: rs)

def packets (caps : CapabilityFlags) (rs : List Result) : List Packet := rs.flatMap (Result.packets caps)

/-! ### The first packet of a result -/

theorem announces_header {caps : CapabilityFlags} {n : ℕ} (hn : 1 ≤ n) :
    Announces (header caps true n) := by
  unfold header
  split
  · simp [Announces, isOkPacket, isErrPacket, isLocalInFilePacket, hasHeader_cons, HeaderInfo.toU8]
  · exact lenenc_kind hn

theorem header_skipped {caps : CapabilityFlags} {n : ℕ}
    (h : caps.contains .clientOptionalResultsetMetadata = true) :
    header caps false n = 0 :: lenenc n := by
  rw [header, if_pos h]
  rfl

theorem isOkPacket_header_iff {caps : CapabilityFlags} {follows : Bool} {n : ℕ} {columns : List Packet}
    (h : IsMetadata caps follows n columns) :
    isOkPacket (header caps follows n) = false ↔ follows = true := by
  cases follows with
  | true => simp [(announces_header h.pos).1]
  | false =>
    rw [header_skipped (h.skipped rfl).1]
    simp [isOkPacket, hasHeader_cons, HeaderInfo.toU8]

/-! ### One round -/

section Run
variable {R : Respond} {mc : MysqlCommon} {h : HandshakeResponse} {c : Conn World} {r : Result}
  {st : Option StatusFlags} {ms : List Message}

theorem queryRound_not_ok {m : Message} {e : Failure} (hm : isOkPacket m.2 = true)
    (he : okPacket m.2 h.clientFlag = .error e) (hc : Ready (m :: ms) c) (rounds : ℕ) :
    ((queryRound (net R) mc rounds h ()).run c).1 = .error .panic := by
  rw [queryRound, Proc.run_bind_ok (run_forward R hc false), queryStatus, if_pos hm, he]
  rfl

/-- A header without definitions looks like an OK packet, and is too short for one. -/
theorem queryRound_skipped {m : Message} {n : ℕ} (hn : n < 256 ^ 8) (hm : m.2 = 0 :: lenenc n)
    (hc : Ready (m :: ms) c) (rounds : ℕ) :
    ((queryRound (net R) mc rounds h ()).run c).1 = .error .panic := by
  obtain ⟨e, he⟩ := okPacket_short hn h.clientFlag
  rw [← hm] at he
  refine queryRound_not_ok ?_ he hc rounds
  rw [hm]
  simp [isOkPacket, hasHeader_cons, HeaderInfo.toU8]

variable (R mc) in
/-- A result that the proxy does not understand ends the session. -/
theorem queryRound_panics (hr : r.Legal h.clientFlag st) (hu : ¬ r.Understood)
    (hms : ms.map Prod.snd = r.packets h.clientFlag) (hc : Ready ms c) (rounds : ℕ) :
    ((queryRound (net R) mc rounds h ()).run c).1 = .error .panic := by
  cases r with
  | ok p => exact absurd trivial hu
  | err p => exact absurd trivial hu
  | file name =>
    obtain ⟨m, rfl, hm⟩ := List.map_eq_singleton_iff.mp hms
    have hkind : isOkPacket m.2 = false ∧ isErrPacket m.2 = false ∧ isLocalInFilePacket m.2 = true := by
      rw [hm]
      simp [isOkPacket, isErrPacket, isLocalInFilePacket, hasHeader_cons, HeaderInfo.toU8]
    obtain ⟨h1, h2, h3⟩ := hkind
    rw [queryRound, Proc.run_bind_ok (run_forward R hc false), queryStatus, h1, h2, h3]
    rfl
  | rows follows n columns gap data last =>
    obtain ⟨hmeta, -⟩ := hr
    obtain rfl : follows = false := by simpa [Result.Understood] using hu
    obtain ⟨m, ms, rfl, hm, -⟩ := List.map_eq_cons_iff.mp hms
    exact queryRound_skipped hmeta.lt (hm.trans (header_skipped (hmeta.skipped rfl).1)) hc rounds
  | cursor follows n columns last =>
    rcases st with _ | status
    · exact hr.elim
    obtain ⟨-, hmeta, -⟩ := hr
    obtain rfl : follows = false := by simpa [Result.Understood] using hu
    obtain ⟨m, ms, rfl, hm, -⟩ := List.map_eq_cons_iff.mp hms
    exact queryRound_skipped hmeta.lt (hm.trans (header_skipped (hmeta.skipped rfl).1)) hc rounds

theorem run_forwardUntilResultEnd_nil (R : Respond) (mc : MysqlCommon) (h : HandshakeResponse)
    (hin : c.net.inbox = []) (rounds : ℕ) :
    ∃ e, (forwardUntilResultEnd (net R) mc (rounds + 1) h).run c = (.error e, c) ∧ Outside e :=
  ⟨_, Proc.loop_stop (Proc.run_bind_error (run_forward_nil R hin false) _), outside_nil _ _⟩

/-- The status of a cursor is lost if it has an unknown bit; then the rows are waited for. -/
theorem queryRound_cursor_unknown {m e : Message} {columns : List Message} {status : StatusFlags}
    (hd : h.clientFlag.contains .clientDeprecateEof = false) (hm : Announces m.2)
    (hcols : ∀ x ∈ columns, isEofPacket x.2 = false) (heof : IsEof status e.2)
    (hbits : StatusFlags.fromBits mc.statusFlags status.toNat = none)
    (hin : c.net.inbox = m :: (columns ++ [e])) (hw : c.net.writesLeft = none) {rounds : ℕ}
    (hr : columns.length < rounds) :
    ∃ e d, (queryRound (net R) mc rounds h ()).run c = (.error e, d) ∧ Outside e := by
  have hc : Ready (m :: (columns ++ [e])) c := ⟨hin ▸ List.prefix_rfl, hw⟩
  obtain ⟨k, rfl⟩ : ∃ k, rounds = k + 1 := ⟨rounds - 1, by omega⟩
  let d := relay (columns ++ [e]) (relayOne c m)
  have hnil : d.net.inbox = [] := by
    rw [show d = relay (m :: (columns ++ [e])) c from rfl, relay_inbox, hin, List.drop_length]
  obtain ⟨i, hend, hi⟩ := run_forwardUntilResultEnd_nil R mc h hnil k
  refine ⟨i, d, ?_, hi⟩
  rw [queryRound_announced hm hc]
  exact Proc.run_bind_error ((run_forwardResult_unknown hd hcols heof hbits hc.tail hr).trans hend) _

/-- **One round** relays a result that the proxy understands; only behind a cursor it may wait for
more. -/
theorem queryRound_understood (hmc : ErrAccepted mc)
    (h41 : h.clientFlag.contains .clientProtocol41 = true) (hr : r.Legal h.clientFlag st)
    (hu : r.Understood) (hms : ms.map Prod.snd = r.packets h.clientFlag) (hc : Ready ms c)
    (hlast : more st = false → c.net.inbox = ms) {rounds : ℕ} (hlen : ms.length ≤ rounds) :
    (queryRound (net R) mc rounds h ()).run c =
      (.ok (if more st then .inl () else .inr ()), relay ms c) ∨
    more st = false ∧ ∃ e d, (queryRound (net R) mc rounds h ()).run c = (.error e, d) ∧ Outside e := by
  cases r with
  | ok p =>
    rcases st with _ | status
    · exact hr.elim
    obtain ⟨m, rfl, rfl⟩ := List.map_eq_singleton_iff.mp hms
    exact .inl (queryRound_ok (IsOk.body h41 hr) hc rounds)
  | err p =>
    rcases st with _ | status
    · obtain ⟨m, rfl, rfl⟩ := List.map_eq_singleton_iff.mp hms
      exact .inl (queryRound_err hmc (IsErr.body h41 hr) hc rounds)
    · exact hr.elim
  | file name => exact hu.elim
  | rows follows n columns gap data last =>
    obtain ⟨hmeta, hgap, hdata, hend⟩ := hr
    obtain rfl : follows = true := hu
    obtain ⟨m, ms, rfl, hm, hms⟩ := List.map_eq_cons_iff.mp hms
    obtain ⟨cs, ms1, rfl, rfl, hms1⟩ := List.map_eq_append_iff.mp hms
    obtain ⟨gs, ms2, rfl, rfl, hms2⟩ := List.map_eq_append_iff.mp hms1
    obtain ⟨rs, es, rfl, rfl, hes⟩ := List.map_eq_append_iff.mp hms2
    obtain ⟨e, rfl, rfl⟩ := List.map_eq_singleton_iff.mp hes
    have hkind : Announces m.2 := hm ▸ announces_header hmeta.pos
    have hbody : IsBody h.clientFlag cs gs rs e st := by
      refine ⟨fun x hx => ?_, hgap.columnsEnd h41, fun x hx => ?_, hend.rowsEnd h41⟩
      · have hd := (hmeta.defs x.2 (List.mem_map_of_mem hx)).columnDef h41
        exact ⟨plain_column hd _, isEofPacket_columnDef hd⟩
      · exact plain_row hmeta.pos (hdata x.2 (List.mem_map_of_mem hx)) _
    rw [List.length_cons] at hlen
    exact .inl (queryRound_rows hmc hkind hbody hc (by omega))
  | cursor follows n columns last =>
    rcases st with _ | status
    · exact hr.elim
    obtain ⟨hd, hmeta, heof, hcur, hmore⟩ := hr
    obtain rfl : follows = true := hu
    obtain ⟨m, ms, rfl, hm, hms⟩ := List.map_eq_cons_iff.mp hms
    obtain ⟨cs, es, rfl, rfl, hes⟩ := List.map_eq_append_iff.mp hms
    obtain ⟨e, rfl, rfl⟩ := List.map_eq_singleton_iff.mp hes
    have hkind : Announces m.2 := hm ▸ announces_header hmeta.pos
    have hcols : ∀ x ∈ cs, isEofPacket x.2 = false := fun x hx =>
      isEofPacket_columnDef ((hmeta.defs x.2 (List.mem_map_of_mem hx)).columnDef h41)
    simp only [List.length_cons, List.length_append, List.length_nil] at hlen
    rcases hbits : StatusFlags.fromBits mc.statusFlags status.toNat with _ | flags
    · exact .inr ⟨hmore, queryRound_cursor_unknown hd hkind hcols (heof.eof h41) hbits (hlast hmore) hc.2
        (by omega)⟩
    · have hflags : StatusFlags.fromBits mc.statusFlags status.toNat = some status := by
        rw [StatusFlags.fromBits] at hbits ⊢
        split_ifs at hbits ⊢
        simp
      rw [show more (some status) = false from hmore]
      exact .inl (queryRound_cursor hd hkind hcols (heof.eof h41) hflags hcur hmore hc (by omega))

/-! ### A response -/

theorem length_pos (hms : ms.map Prod.snd = r.packets h.clientFlag) : 0 < ms.length := by
  rw [← List.length_map, hms]
  cases r <;> simp [Result.packets]

theorem exists_round (hms : ms.map Prod.snd = r.packets h.clientFlag) {rounds : ℕ}
    (hlen : ms.length ≤ rounds) : ∃ k, rounds = k + 1 := by
  have := length_pos hms
  exact ⟨rounds - 1, by omega⟩

/-- **A whole response**: the session panics if and only if one of its results is not understood. -/
theorem run_response (hmc : ErrAccepted mc) (h41 : h.clientFlag.contains .clientProtocol41 = true)
    {inner : ℕ} {rs : List Result} (hrs : Response h.clientFlag rs) : ∀ (ms : List Message) (rounds : ℕ)
    (c : Conn World), ms.map Prod.snd = packets h.clientFlag rs → c.net.inbox = ms →
    c.net.writesLeft = none → ms.length ≤ rounds → ms.length ≤ inner →
    (((Proc.loop .outOfRounds (queryRound (net R) mc inner h) rounds ()).run c).1 = .error .panic ↔
      ∃ r ∈ rs, ¬ r.Understood) := by
  induction hrs with
  | @last r st hr hmore =>
    intro ms rounds c hms hin hw hlen hinner
    rw [packets, List.flatMap_singleton] at hms
    have hc : Ready ms c := ⟨hin ▸ List.prefix_rfl, hw⟩
    obtain ⟨k, rfl⟩ := exists_round hms hlen
    by_cases hu : r.Understood
    · rcases queryRound_understood hmc h41 hr hu hms hc (fun _ => hin) hinner with
        hrun | ⟨-, e, d, hrun, he⟩
      · rw [hmore] at hrun
        rw [Proc.loop_break hrun]
        simp [hu]
      · rw [Proc.loop_stop hrun]
        simp [hu, he.ne_panic]
    · have hpanic := queryRound_panics R mc hr hu hms hc inner
      rw [Proc.loop_stop (Prod.ext hpanic rfl)]
      simp [hu]
  | @more r rs st hr hmore hrest ih =>
    intro ms rounds c hms hin hw hlen hinner
    rw [packets, List.flatMap_cons] at hms
    obtain ⟨ms1, ms2, rfl, hms1, hms2⟩ := List.map_eq_append_iff.mp hms
    have hc : Ready (ms1 ++ ms2) c := ⟨hin ▸ List.prefix_rfl, hw⟩
    rw [List.length_append] at hlen hinner
    obtain ⟨k, rfl⟩ := exists_round hms1 (show ms1.length ≤ rounds by omega)
    by_cases hu : r.Understood
    · have hround := queryRound_understood (R := R) hmc h41 hr hu hms1 hc.append_left (by simp [hmore])
        (show ms1.length ≤ inner by omega)
      rcases hround with hrun | ⟨hlast, -⟩
      · rw [hmore] at hrun
        rw [Proc.loop_again hrun, ih ms2 k (relay ms1 c) hms2 ?_ hc.append_right.2 ?_ (by omega)]
        · simp [hu]
        · rw [relay_inbox, hin, List.drop_left]
        · have := length_pos hms1
          omega
      · rw [hmore] at hlast
        cases hlast
    · have hpanic := queryRound_panics R mc hr hu hms1 hc.append_left inner
      rw [Proc.loop_stop (Prod.ext hpanic rfl)]
      simp [hu]

/-- On the first part of a response, or with a client that goes away, it does not panic either if it does
not on the whole of it. -/
theorem forwardQuery_ne_panic (hmc : ErrAccepted mc)
    (h41 : h.clientFlag.contains .clientProtocol41 = true) {rs : List Result}
    (hrs : Response h.clientFlag rs) (hu : ∀ r ∈ rs, r.Understood) {rounds : ℕ}
    (hin : c.net.inbox.map Prod.snd <+: packets h.clientFlag rs)
    (hlen : (packets h.clientFlag rs).length ≤ rounds) :
    ((forwardQuery (net R) mc rounds h).run c).1 ≠ .error .panic := by
  obtain ⟨ms, hpre, hms⟩ := exists_messages hin
  let d : Conn World := { c with net := { c.net with inbox := ms, writesLeft := none } }
  have hwhole : ((forwardQuery (net R) mc rounds h).run d).1 ≠ .error .panic := by
    rw [← hms, List.length_map] at hlen
    rw [forwardQuery, ne_eq, run_response hmc h41 hrs ms rounds d hms rfl rfl hlen hlen]
    rintro ⟨r, hr, hnot⟩
    exact hnot (hu r hr)
  intro hpanic
  have hreads : Reads R rounds (forwardQuery (net R) mc rounds h) _ := reads_forwardQuery
  rcases hreads.stops c with ⟨ns, o, htakes, hread, hc⟩ | ⟨e, d', hc, he⟩
  · -- the packets on which it panics are the first ones of the whole response
    have hle : ns.length ≤ rounds := by
      have h1 := (htakes.inbox.trans hpre).length_le
      have h2 := congrArg List.length hms
      rw [List.length_map] at h2
      omega
    have hd : (forwardQuery (net R) mc rounds h).run d = (ended o, relay ns d) :=
      reads_forwardQuery.ends d ns o ⟨htakes.inbox.trans hpre, fun _ hw => by cases hw⟩ hread hle
    rw [hc] at hpanic
    rw [hd] at hwhole
    exact hwhole hpanic
  · rw [hc] at hpanic
    exact he.ne_panic (Except.error.inj hpanic)

end Run

/-! ### The capabilities -/

/-- **What is to be shown**: `forward_query` neither panics on the response nor takes the header of a
result set for an OK packet. -/
def Handled (R : Respond) (mc : MysqlCommon) (rounds : ℕ) (h : HandshakeResponse) (rs : List Result)
    (c : Conn World) : Prop :=
  ((forwardQuery (net R) mc rounds h).run c).1 ≠ .error .panic ∧
    ∀ r ∈ rs, ∀ p ∈ r.header? h.clientFlag, isOkPacket p = false

/-- Every response under some capabilities is handled, also the first part of it, and whatever becomes of
the client. -/
def HandlesAll (R : Respond) (mc : MysqlCommon) (caps : CapabilityFlags) : Prop :=
  ∀ rs, Response caps rs → ∀ (h : HandshakeResponse) (rounds : ℕ) (c : Conn World),
    h.clientFlag = caps → c.net.inbox.map Prod.snd <+: packets caps rs →
    (packets caps rs).length ≤ rounds → Handled R mc rounds h rs c

theorem Response.legal {caps : CapabilityFlags} {rs : List Result} (h : Response caps rs) :
    ∀ r ∈ rs, ∃ st, r.Legal caps st := by
  induction h with
  | last hr => exact fun r hmem => ⟨_, (List.mem_singleton.mp hmem) ▸ hr⟩
  | more hr _ _ ih =>
    intro r hmem
    rcases List.mem_cons.mp hmem with rfl | hmem
    · exact ⟨_, hr⟩
    · exact ih r hmem

theorem isOkPacket_header {caps : CapabilityFlags} {r : Result} {st : Option StatusFlags}
    (hr : r.Legal caps st) (hu : r.Understood) : ∀ p ∈ r.header? caps, isOkPacket p = false := by
  intro p hp
  cases r with
  | rows follows n columns gap data last =>
    obtain rfl : header caps follows n = p := by simpa [Result.header?] using hp
    exact (isOkPacket_header_iff hr.1).mpr hu
  | cursor follows n columns last =>
    rcases st with _ | status
    · exact hr.elim
    · obtain rfl : header caps follows n = p := by simpa [Result.header?] using hp
      exact (isOkPacket_header_iff hr.2.1).mpr hu
  | _ => simp [Result.header?] at hp

theorem understood_of_not {caps : CapabilityFlags} (hfile : caps.contains .clientLocalFiles = false)
    (hmeta : caps.contains .clientOptionalResultsetMetadata = false) {r : Result}
    {st : Option StatusFlags} (hr : r.Legal caps st) : r.Understood := by
  have hfollows : ∀ {follows n columns}, IsMetadata caps follows n columns → follows = true := by
    intro follows n columns hm
    cases follows with
    | true => rfl
    | false => exact absurd (hm.skipped rfl).1 (by simp [hmeta])
  cases r with
  | file name =>
    rcases st with _ | status
    · exact absurd (show caps.contains .clientLocalFiles = true from hr) (by simp [hfile])
    · exact hr.elim
  | rows follows n columns gap data last => exact hfollows hr.1
  | cursor follows n columns last =>
    rcases st with _ | status
    · exact hr.elim
    · exact hfollows hr.2.1
  | _ => trivial

/-- The shortest OK packet. -/
def shortOk (caps : CapabilityFlags) : Packet :=
  0 :: (lenenc 0 ++ (lenenc 0 ++ (statusFields caps 0 0 ++ [])))

theorem isOk_shortOk (caps : CapabilityFlags) : IsOk caps 0 0 (shortOk caps) :=
  ⟨0, 0, 0, [], by decide, by decide, by decide, fun _ => .inl rfl, rfl⟩

/-- Before version 4.1 it is too short for the parser. -/
theorem okPacket_shortOk {caps : CapabilityFlags} (h41 : caps.contains .clientProtocol41 = false) :
    ∃ e, okPacket (shortOk caps) caps = .error e := by
  rw [shortOk, statusFields, h41]
  by_cases ht : caps.contains .clientTransactions = true
  · rw [if_neg (by simp), if_pos ht]
    exact ⟨_, rfl⟩
  · rw [if_neg (by simp), if_neg ht]
    exact ⟨_, rfl⟩

/-- A result set of no rows without its definitions. -/
def noDefinitions (caps : CapabilityFlags) : Result :=
  .rows false 1 [] (if caps.contains .clientDeprecateEof then [] else [[0xfe, 0, 0, 0, 0]]) []
    (0xff :: (leBytes 2 0 ++
      ((if caps.contains .clientProtocol41 then 0x23 :: [0, 0, 0, 0, 0] else []) ++ [])))

theorem legal_noDefinitions {caps : CapabilityFlags} (h41 : caps.contains .clientProtocol41 = true)
    (h : caps.contains .clientOptionalResultsetMetadata = true) :
    (noDefinitions caps).Legal caps none := by
  refine ⟨⟨le_rfl, by decide, by simp, fun _ => ⟨h, rfl⟩⟩, ?_, by simp, ?_⟩
  · unfold IsGap
    split_ifs with hd
    · rfl
    · refine ⟨0, _, ?_, by decide, rfl⟩
      rw [IsEofOf, if_pos h41]
      exact ⟨[0, 0], rfl, rfl⟩
  · exact ⟨0, [0, 0, 0, 0, 0], [], by decide, rfl, rfl⟩

section Main
variable {R : Respond} {mc : MysqlCommon} {caps : CapabilityFlags}

theorem HandlesAll.protocol41 (H : HandlesAll R mc caps) : caps.contains .clientProtocol41 = true := by
  by_contra h41
  have h41' : caps.contains .clientProtocol41 = false := by simpa using h41
  obtain ⟨e, he⟩ := okPacket_shortOk h41'
  let c : Conn World := ⟨0, 0, .idle [(1, shortOk caps)]⟩
  have hc : Ready [(1, shortOk caps)] c := ⟨List.prefix_rfl, rfl⟩
  have hrs : Response caps [.ok (shortOk caps)] := .last (s := some 0) (isOk_shortOk caps) rfl
  have hpanic : ((queryRound (net R) mc 1 (.bare caps) ()).run c).1 = .error .panic :=
    queryRound_not_ok rfl he hc 1
  refine (H _ hrs (.bare caps) 1 c rfl List.prefix_rfl le_rfl).1 ?_
  exact congrArg Prod.fst (Proc.loop_stop (Prod.ext hpanic rfl))

theorem HandlesAll.understood (hmc : ErrAccepted mc) (H : HandlesAll R mc caps) {r : Result}
    (hr : r.Legal caps none) : r.Understood := by
  by_contra hu
  have hrs : Response caps [r] := .last hr rfl
  let ms : List Message := (packets caps [r]).map fun p => (0, p)
  have hms : ms.map Prod.snd = packets caps [r] := by simp [ms]
  let c : Conn World := ⟨0, 0, .idle ms⟩
  have hle : ms.length ≤ (packets caps [r]).length := by simp [ms]
  refine (H _ hrs (.bare caps) (packets caps [r]).length c rfl (hms ▸ List.prefix_rfl) le_rfl).1 ?_
  exact (run_response hmc H.protocol41 hrs ms _ c hms rfl rfl hle hle).mpr ⟨r, by simp, hu⟩

/-- **The responses under a set of capabilities.** All of them are handled if and only if the set has the
protocol of version 4.1 and neither files of the client nor optional definitions; under one that has the
protocol of version 4.1, those are handled that do without a request for a file and without a result set
whose definitions are left out. -/
theorem handlesAll_iff (hmc : ErrAccepted mc) :
    (HandlesAll R mc caps ↔ caps.contains .clientProtocol41 = true ∧
      caps.contains .clientLocalFiles = false ∧
      caps.contains .clientOptionalResultsetMetadata = false) ∧
    (caps.contains .clientProtocol41 = true → ∀ rs, Response caps rs → ∀ (h : HandshakeResponse)
      (rounds : ℕ) (c : Conn World), h.clientFlag = caps → c.net.inbox.map Prod.snd = packets caps rs →
      c.net.writesLeft = none → (packets caps rs).length ≤ rounds →
        (Handled R mc rounds h rs c ↔ ∀ r ∈ rs, r.Understood)) := by
  refine ⟨⟨fun H => ⟨H.protocol41, ?_, ?_⟩, ?_⟩, ?_⟩
  · by_contra hfile
    have hr : caps.contains .clientLocalFiles = true := by simpa using hfile
    exact H.understood (r := .file []) hmc hr
  · by_contra hmeta
    exact Bool.false_ne_true (H.understood hmc (legal_noDefinitions H.protocol41 (by simpa using hmeta)))
  · rintro ⟨h41, hfile, hmeta⟩ rs hrs h rounds c rfl hin hlen
    have hu : ∀ r ∈ rs, r.Understood := fun r hmem =>
      have ⟨_, hr⟩ := hrs.legal r hmem
      understood_of_not hfile hmeta hr
    refine ⟨forwardQuery_ne_panic hmc h41 hrs hu hin hlen, fun r hmem => ?_⟩
    obtain ⟨st, hr⟩ := hrs.legal r hmem
    exact isOkPacket_header hr (hu r hmem)
  · rintro h41 rs hrs h rounds c rfl hin hw hlen
    have hle : c.net.inbox.length ≤ rounds := by rwa [← hin, List.length_map] at hlen
    have hpanic := run_response (R := R) hmc h41 hrs c.net.inbox rounds c hin rfl hw hle hle
    constructor
    · intro H r hmem
      by_contra hu
      exact H.1 (hpanic.mpr ⟨r, hmem, hu⟩)
    · intro hu
      refine ⟨fun hp => ?_, fun r hmem => ?_⟩
      · obtain ⟨r, hmem, hnot⟩ := hpanic.mp hp
        exact hnot (hu r hmem)
      · obtain ⟨st, hr⟩ := hrs.legal r hmem
        exact isOkPacket_header hr (hu r hmem)

end Main

/-- A result set whose header says that its definitions follow, and all responses without the two
capabilities. -/
theorem handlesAll_plain :
    Handled silent .plain 5 (.bare (.clientProtocol41 ||| .clientOptionalResultsetMetadata))
      [.rows true 1 [[3, 0x64, 0x65, 0x66, 0]] [[0xfe, 0, 0, 2, 0]] [[1, 0x31]] [0xfe, 0, 0, 2, 0]]
      ⟨0, 0, .idle [(1, [1, 1]), (2, [3, 0x64, 0x65, 0x66, 0]), (3, [0xfe, 0, 0, 2, 0]), (4, [1, 0x31]),
        (5, [0xfe, 0, 0, 2, 0])]⟩ ∧
    HandlesAll silent .plain (.clientProtocol41 ||| .clientDeprecateEof ||| .clientSessionTrack) := by
  refine ⟨((handlesAll_iff errAccepted_plain).2 (by decide) _ (.last (s := some 2) ?_ (by decide)) _ 5 _
    rfl (by decide) rfl (by decide)).mpr ?_, (handlesAll_iff errAccepted_plain).1.mpr (by decide)⟩
  · have heof : IsEof 2 [0xfe, 0, 0, 2, 0] := ⟨[0, 0], rfl, by decide⟩
    have hrow : TextRow 1 [1, 0x31] := ⟨[some [0x31]], rfl, by simp, by decide⟩
    refine ⟨⟨le_rfl, by decide, ?_, by simp⟩, ⟨2, _, heof, by decide, rfl⟩, ?_, heof⟩
    · exact fun d hd => ⟨[0], (List.mem_singleton.mp hd).symm⟩
    · exact fun r hr => .inl ((List.mem_singleton.mp hr).symm ▸ hrow)
  · rintro r hr
    obtain rfl := List.mem_singleton.mp hr
    rfl

/-- Under all the capabilities that are offered the request for a file `x` panics, and so does a result
set without definitions, whose header is taken for an OK packet. -/
theorem forwardQuery_default_panics :
    Response .default [.file [0x78]] ∧
    ((forwardQuery (net silent) .plain 5 (.bare .default)).run
      ⟨0, 0, .idle [(1, [0xfb, 0x78])]⟩).1 = .error .panic ∧
    Response .default [.rows false 1 [] [] [[1, 0x31]] [0xfe, 0, 0, 2, 0, 0, 0]] ∧
    packets .default [.rows false 1 [] [] [[1, 0x31]] [0xfe, 0, 0, 2, 0, 0, 0]] =
      [[0, 1], [1, 0x31], [0xfe, 0, 0, 2, 0, 0, 0]] ∧
    isOkPacket [0, 1] = true ∧
    ((forwardQuery (net silent) .plain 5 (.bare .default)).run
      ⟨0, 0, .idle [(1, [0, 1]), (2, [1, 0x31]), (3, [0xfe, 0, 0, 2, 0, 0, 0])]⟩).1 = .error .panic := by
  have hfile : CapabilityFlags.default.contains .clientLocalFiles = true := by decide
  have hrow : TextRow 1 [1, 0x31] := ⟨[some [0x31]], rfl, by simp, by decide⟩
  have hok : IsOk .default 0xfe 2 [0xfe, 0, 0, 2, 0, 0, 0] :=
    ⟨0, 0, 0, [], by decide, by decide, by decide, fun _ => .inl rfl, by decide⟩
  refine ⟨.last (s := none) hfile rfl, by decide, .last (s := some 2) ?_ (by decide), by decide,
    by decide, by decide⟩
  refine ⟨⟨le_rfl, by decide, by simp, fun _ => ⟨by decide, rfl⟩⟩, rfl, ?_, hok, by decide⟩
  exact fun r hr => .inl ((List.mem_singleton.mp hr).symm ▸ hrow)

end Haentgl.Server.Capabilities
