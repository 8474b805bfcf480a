import Haentgl.Server.Parties

/-! # The responses to queries

A response is a row of results, of which all but the last say that more follow. A result is an OK
packet, an ERR packet, or a result set: the number of columns, the definitions of the columns, the rows
and a packet that closes them. Whether an EOF packet stands behind the definitions and whether the rows
are closed by an EOF packet or by an OK packet with another header depends on the capabilities.

The forwarder tells the packets of a result set apart by their first byte and their length. No row and
no definition is taken for the end of a result set (`plain_row`, `plain_column`), and so exactly one
response is relayed (`run_forwardQuery`). -/

namespace Haentgl.Server.Responses

open Haentgl.Lib.Parse Haentgl.Lib.Program Haentgl.Protocol.Constants Haentgl.Protocol.Io
open Haentgl.Protocol.Packets Haentgl.Protocol.Basic Haentgl.Server.Links Haentgl.Server.Forwarders
open Haentgl.Server.Parties

/-! ### The language -/

/-- An EOF packet of five bytes. -/
def IsEof (status : StatusFlags) (p : Packet) : Prop :=
  ∃ w : Bytes, w.length = 2 ∧ p = 0xfe :: (w ++ leBytes 2 status.toNat)

/-- An ERR packet: a code, `#` and a state, and a message. -/
def ErrBody (p : Packet) : Prop :=
  ∃ (code : ℕ) (state msg : Bytes), code < 0xffff ∧ state.length = 5 ∧
    p = 0xff :: (leBytes 2 code ++ 0x23 :: (state ++ msg))

/-- A column definition starts with the length-encoded string `def`. -/
def ColumnDef (p : Packet) : Prop := [3, 0x64, 0x65, 0x66] <+: p

/-- A cell of a text row; `none` is `NULL`. -/
def cell : Option Bytes → Bytes
  | none => [0xfb]
  | some s => lenencStr s

/-- A text row of `n` cells. -/
def TextRow (n : ℕ) (p : Packet) : Prop :=
  ∃ cells : List (Option Bytes), cells.length = n ∧ (∀ s, some s ∈ cells → s.length < 256 ^ 8) ∧
    p = cells.flatMap cell

/-- A binary row starts with a zero. -/
def BinaryRow (p : Packet) : Prop := p.head? = some 0

def Row (n : ℕ) (p : Packet) : Prop := TextRow n p ∨ BinaryRow p

/-- The packet that closes the rows; its status, or `none` for an ERR packet. -/
def RowsEnd (caps : CapabilityFlags) (p : Packet) : Option StatusFlags → Prop
  | some status =>
    if caps.contains .clientDeprecateEof then OkBody caps 0xfe status p ∧ p.length < 0xffffff
    else IsEof status p
  | none => ErrBody p

/-- What stands between the definitions and the rows. -/
def ColumnsEnd (caps : CapabilityFlags) (ps : List Packet) : Prop :=
  if caps.contains .clientDeprecateEof then ps = []
  else ∃ status p, IsEof status p ∧ ¬ status.contains .serverStatusCursorExists ∧ ps = [p]

/-- One result. -/
inductive IsResult (caps : CapabilityFlags) : List Packet → Option StatusFlags → Prop
  | ok {p status} : OkBody caps 0 status p → IsResult caps [p] (some status)
  | err {p} : ErrBody p → IsResult caps [p] none
  | rows {n columns gap rows p status} : 1 ≤ n → n < 256 ^ 8 → (∀ d ∈ columns, ColumnDef d) →
      ColumnsEnd caps gap → (∀ r ∈ rows, Row n r) → RowsEnd caps p status →
      IsResult caps (lenenc n :: (columns ++ (gap ++ (rows ++ [p])))) status

/-- A status announces another result. -/
def more : Option StatusFlags → Bool
  | some status => status.contains .serverMoreResultsExists
  | none => false

/-- A response: all results but the last announce another one. -/
inductive IsResponse (caps : CapabilityFlags) : List Packet → Prop
  | last {ps status} : IsResult caps ps status → more status = false → IsResponse caps ps
  | more {ps qs status} : IsResult caps ps status → more status = true → IsResponse caps qs →
      IsResponse caps (ps ++ qs)

/-- The response to `COM_FIELD_LIST` or `COM_STMT_FETCH`: definitions or rows, and their end. -/
def IsTail (caps : CapabilityFlags) (ps : List Packet) : Prop :=
  ∃ items p status, (∀ q ∈ items, ColumnDef q ∨ BinaryRow q) ∧ RowsEnd caps p status ∧
    ps = items ++ [p]

/-- The response to an execution that opens a cursor, for a client without `CLIENT_DEPRECATE_EOF`: the
definitions, and the EOF packet that announces the cursor. -/
def IsCursor (mc : MysqlCommon) (caps : CapabilityFlags) (ps : List Packet) : Prop :=
  caps.contains .clientDeprecateEof = false ∧ ∃ n columns status p, 1 ≤ n ∧
    (∀ d ∈ columns, ColumnDef d) ∧ IsEof status p ∧
    StatusFlags.fromBits mc.statusFlags status.toNat = some status ∧
    status.contains .serverStatusCursorExists = true ∧
    status.contains .serverMoreResultsExists = false ∧ ps = lenenc n :: (columns ++ [p])

/-- The packets behind the first one of a prepared statement: the definitions of its parameters and of
its columns, and what closes them. -/
def definitions (caps : CapabilityFlags) (column params : ℕ) : ℕ :=
  column + params + if caps.contains .clientDeprecateEof then 0
    else (if 0 < column then 1 else 0) + if 0 < params then 1 else 0

/-- The response to `COM_STMT_PREPARE`: an ERR packet, or the number of the statement and the two counts,
followed by the definitions. Their number must fit a `u16`. -/
def IsPrepared (caps : CapabilityFlags) (ps : List Packet) : Prop :=
  (∃ p, ErrBody p ∧ ps = [p]) ∨
    ∃ (id : Bytes) (column params : ℕ) (rest : Bytes) (defs : List Packet), id.length = 4 ∧
      column < 2 ^ 16 ∧ params < 2 ^ 16 ∧
      ps = (0 :: (id ++ (leBytes 2 column ++ (leBytes 2 params ++ rest)))) :: defs ∧
      defs.length = definitions caps column params ∧ defs.length < 2 ^ 16

/-- The other crate understands ERR packets. -/
def ErrAccepted (mc : MysqlCommon) : Prop := ∀ caps p, ErrBody p → (mc.errPacket caps p).isSome

/-! ### Telling the packets apart -/

theorem hasHeader_cons (b : UInt8) (r : Bytes) (h : HeaderInfo) :
    hasHeader (b :: r) h = (b == h.toU8) := by
  simp [hasHeader]

/-- A packet inside a result set: neither an ERR packet nor the end of the rows. -/
def Plain (caps : CapabilityFlags) (p : Packet) : Prop :=
  isErrPacket p = false ∧
    if caps.contains .clientDeprecateEof then isResultSetEofPacket p = false
    else isEofPacket p = false

theorem plain_of_head {b : UInt8} {r : Bytes} (h1 : b ≠ 0xff) (h2 : b ≠ 0xfe)
    (caps : CapabilityFlags) : Plain caps (b :: r) := by
  simp [Plain, isErrPacket, isResultSetEofPacket, isEofPacket, hasHeader_cons, HeaderInfo.toU8, h1, h2]

theorem plain_of_long {r : Bytes} (h : 0xffffff ≤ r.length) (caps : CapabilityFlags) :
    Plain caps (0xfe :: r) := by
  have h1 : ¬ r.length + 1 < 16777215 := by omega
  have h2 : ¬ r.length + 1 ≤ 5 := by omega
  simp [Plain, isErrPacket, isResultSetEofPacket, isEofPacket, hasHeader_cons, HeaderInfo.toU8, h1, h2]

theorem plain_column {p : Packet} (h : ColumnDef p) (caps : CapabilityFlags) : Plain caps p := by
  obtain ⟨t, rfl⟩ := h
  exact plain_of_head (by decide) (by decide) caps

theorem plain_binary {p : Packet} (h : BinaryRow p) (caps : CapabilityFlags) : Plain caps p := by
  rcases p with _ | ⟨b, r⟩
  · cases h
  · obtain rfl : b = 0 := by simpa [BinaryRow] using h
    exact plain_of_head (by decide) (by decide) caps

theorem lenenc_cases (n : ℕ) : (∃ b r, lenenc n = b :: r ∧ b ≠ 0xff ∧ b ≠ 0xfe ∧ b ≠ 0xfb ∧
    (b = 0 → n = 0)) ∨ (256 ^ 3 ≤ n ∧ ∃ r, lenenc n = 0xfe :: r) := by
  unfold lenenc
  split_ifs with h1 h2 h3
  · left
    have hn : (UInt8.ofNat n).toNat = n := UInt8.toNat_ofNat_of_lt (by change n < 256; omega)
    have hne : ∀ b : UInt8, b.toNat ≠ n → UInt8.ofNat n ≠ b := by
      rintro b hb rfl
      exact hb hn
    refine ⟨_, [], rfl, hne _ ?_, hne _ ?_, hne _ ?_, fun h0 => ?_⟩
    · change 255 ≠ n; omega
    · change 254 ≠ n; omega
    · change 251 ≠ n; omega
    · rw [h0] at hn; exact hn.symm
  · exact Or.inl ⟨_, _, rfl, by decide, by decide, by decide, fun h0 => absurd h0 (by decide)⟩
  · exact Or.inl ⟨_, _, rfl, by decide, by decide, by decide, fun h0 => absurd h0 (by decide)⟩
  · exact Or.inr ⟨by omega, _, rfl⟩

/-- A text row of at least one cell is plain: it starts with `0xfe` only if it is very long. -/
theorem plain_text {n : ℕ} (hn : 1 ≤ n) {p : Packet} (h : TextRow n p) (caps : CapabilityFlags) :
    Plain caps p := by
  obtain ⟨cells, rfl, -, rfl⟩ := h
  rcases cells with _ | ⟨x, cells⟩
  · simp at hn
  rw [List.flatMap_cons]
  rcases x with _ | s
  · exact plain_of_head (by decide) (by decide) caps
  · rw [cell, lenencStr, List.append_assoc]
    rcases lenenc_cases s.length with ⟨b, r, hb, h1, h2, -⟩ | ⟨hlong, r, hr⟩
    · rw [hb]; exact plain_of_head h1 h2 caps
    · rw [hr, List.cons_append]
      refine plain_of_long ?_ caps
      rw [List.length_append, List.length_append]
      omega

theorem plain_row {n : ℕ} (hn : 1 ≤ n) {p : Packet} (h : Row n p) (caps : CapabilityFlags) :
    Plain caps p :=
  h.elim (fun h => plain_text hn h caps) (fun h => plain_binary h caps)

/-! ### The end of the rows -/

theorem errBody_kind {p : Packet} (h : ErrBody p) : isErrPacket p = true ∧ isOkPacket p = false := by
  obtain ⟨code, state, msg, -, -, rfl⟩ := h
  simp [isErrPacket, isOkPacket, hasHeader_cons, HeaderInfo.toU8]

theorem okBody_kind {caps : CapabilityFlags} {b : UInt8} {status : StatusFlags} {p : Packet}
    (h : OkBody caps b status p) : p.head? = some b ∧ 7 ≤ p.length := by
  obtain ⟨rows, id, warnings, tail, -, -, -, -, rfl⟩ := h.shape
  have h1 := List.length_pos_iff.mpr (lenenc_ne_nil rows)
  have h2 := List.length_pos_iff.mpr (lenenc_ne_nil id)
  refine ⟨rfl, ?_⟩
  simp only [List.length_cons, List.length_append, length_leBytes]
  omega

theorem isEof_kind {status : StatusFlags} {p : Packet} (h : IsEof status p) :
    isEofPacket p = true ∧ isErrPacket p = false := by
  obtain ⟨w, hw, rfl⟩ := h
  simp [isEofPacket, isErrPacket, hasHeader_cons, HeaderInfo.toU8, hw]

theorem contains_fromBitsTruncate (mc : MysqlCommon) (status f : StatusFlags) (hf : 0x7ffb &&& f = f) :
    (StatusFlags.fromBitsTruncate mc.statusFlags status.toNat).contains f = status.contains f := by
  have hdef : mc.statusFlags &&& f = f := by
    calc mc.statusFlags &&& f = mc.statusFlags &&& (0x7ffb &&& f) := by rw [hf]
      _ = 0x7ffb &&& f := by rw [← BitVec.and_assoc, mc.statusFlags_defined]
      _ = f := hf
  simp only [StatusFlags.contains, StatusFlags.fromBitsTruncate, BitVec.ofNat_toNat,
    BitVec.setWidth_eq, BitVec.and_assoc, hdef]

section Run
variable {R : Respond} {mc : MysqlCommon} {h : HandshakeResponse} {c : Conn World}

theorem resultRound_plain {m : Message} {ms : List Message} (hc : Ready (m :: ms) c)
    (hm : Plain h.clientFlag m.2) :
    (resultRound (net R) mc h ()).run c = (.ok (.inl ()), relayOne c m) := by
  obtain ⟨h1, h2⟩ := hm
  rw [resultRound, Proc.run_bind_ok (run_forward R hc false)]
  simp only [h1, Bool.false_eq_true, if_false]
  by_cases hd : h.clientFlag.contains .clientDeprecateEof
  · rw [if_pos hd] at h2
    simp [hd, h2]
  · rw [if_neg hd] at h2
    simp [hd, h2]

theorem resultRound_end (hmc : ErrAccepted mc) {m : Message} {ms : List Message}
    (hc : Ready (m :: ms) c) {st : Option StatusFlags} (hm : RowsEnd h.clientFlag m.2 st) :
    ∃ s, (resultRound (net R) mc h ()).run c = (.ok (.inr s), relayOne c m) ∧
      s.contains .serverMoreResultsExists = more st := by
  rw [resultRound, Proc.run_bind_ok (run_forward R hc false)]
  rcases st with _ | status
  · -- an ERR packet
    obtain ⟨msg, hmsg⟩ := Option.isSome_iff_exists.mp (hmc h.clientFlag m.2 hm)
    rw [(errBody_kind hm).1, if_pos rfl]
    refine ⟨0, ?_, rfl⟩
    simp only [parseErrPacket, hmsg, orPanic]
    rfl
  · by_cases hd : h.clientFlag.contains .clientDeprecateEof
    · -- an OK packet with the header of an EOF packet
      rw [RowsEnd, if_pos hd] at hm
      obtain ⟨hhead, hlen⟩ := okBody_kind hm.1
      have herr : isErrPacket m.2 = false := by
        simp [isErrPacket, hasHeader, hhead, HeaderInfo.toU8]
      have hend : isResultSetEofPacket m.2 = true := by
        simp [isResultSetEofPacket, hasHeader, hhead, HeaderInfo.toU8, hlen, hm.2]
      obtain ⟨r, ok, hok, hs⟩ := okPacket_body hm.1
      refine ⟨ok.statusFlags, ?_, by rw [hs]; rfl⟩
      simp only [herr, hd, hend, hok, Bool.false_eq_true, Bool.not_true, if_false, if_true]
      rfl
    · -- an EOF packet
      rw [RowsEnd, if_neg hd] at hm
      obtain ⟨hend, herr⟩ := isEof_kind hm
      obtain ⟨w, hw, hp⟩ := hm
      have hst : eofServerStatus mc.statusFlags m.2 =
          .ok ([], .fromBitsTruncate mc.statusFlags status.toNat) := by
        rw [hp]; exact eofServerStatus_five w hw
      refine ⟨.fromBitsTruncate mc.statusFlags status.toNat, ?_,
        contains_fromBitsTruncate mc status _ (by decide)⟩
      simp only [herr, hd, hend, hst, Bool.false_eq_true, Bool.not_false, if_false, if_true]
      rfl

/-- **`forward_until_result_end`** relays the packets up to the end of the rows. -/
theorem run_forwardUntilResultEnd (hmc : ErrAccepted mc) {e : Message} {st : Option StatusFlags}
    (he : RowsEnd h.clientFlag e.2 st) : ∀ (ms : List Message) (rounds : ℕ) (c : Conn World),
    (∀ m ∈ ms, Plain h.clientFlag m.2) → Ready (ms ++ [e]) c → ms.length < rounds →
    ∃ s, (forwardUntilResultEnd (net R) mc rounds h).run c = (.ok s, relay (ms ++ [e]) c) ∧
      s.contains .serverMoreResultsExists = more st
  | [], rounds + 1, c, _, hc, _ => by
    obtain ⟨s, hrun, hs⟩ := resultRound_end (R := R) hmc hc he
    exact ⟨s, Proc.loop_break hrun, hs⟩
  | m :: ms, rounds + 1, c, hms, hc, hr => by
    have hround : (resultRound (net R) mc h ()).run c = _ := resultRound_plain hc (hms m (by simp))
    obtain ⟨s, hrun, hs⟩ := run_forwardUntilResultEnd hmc he ms rounds (relayOne c m)
      (fun x hx => hms x (by simp [hx])) hc.tail (by simpa using hr)
    refine ⟨s, ?_, hs⟩
    rw [forwardUntilResultEnd, Proc.loop_again hround]
    exact hrun

/-! ### One result -/

theorem run_columns {e : Message} (he : isEofPacket e.2 = true) :
    ∀ (ms : List Message) (rounds : ℕ) (c : Conn World),
    (∀ m ∈ ms, isEofPacket m.2 = false) → Ready (ms ++ [e]) c → ms.length < rounds →
    (Proc.loop .outOfRounds (columnRound (net R)) rounds ()).run c = (.ok e.2, relay (ms ++ [e]) c)
  | [], rounds + 1, c, _, hc, _ => by
    refine Proc.loop_break ?_
    rw [columnRound, Proc.run_bind_ok (run_forward R hc false), he, if_pos rfl]
    rfl
  | m :: ms, rounds + 1, c, hms, hc, hr => by
    have hround : (columnRound (net R) ()).run c = (.ok (.inl ()), relayOne c m) := by
      rw [columnRound, Proc.run_bind_ok (run_forward R hc false), hms m (by simp)]
      rfl
    rw [Proc.loop_again hround]
    exact run_columns he ms rounds (relayOne c m) (fun x hx => hms x (by simp [hx])) hc.tail
      (by simpa using hr)

theorem run_readU16 (pre rest : Bytes) {n : ℕ} (hn : n < 256 ^ 2) {p : Bytes}
    (hp : p = pre ++ (leBytes 2 n ++ rest)) (c : Conn World) :
    (readU16 p pre.length).run c = (.ok n, c) := by
  subst hp
  have hlen : pre.length + 2 ≤ (pre ++ (leBytes 2 n ++ rest)).length := by
    simp only [List.length_append, length_leBytes]
    omega
  rw [readU16, if_pos hlen, List.drop_left, List.take_left' (length_leBytes 2 n), leNat_leBytes hn]
  rfl

theorem run_readU16_eof {status : StatusFlags} {p : Packet} (hp : IsEof status p) (c : Conn World) :
    (readU16 p 3).run c = (.ok status.toNat, c) := by
  obtain ⟨w, hw, rfl⟩ := hp
  have hrun := run_readU16 (0xfe :: w) [] (n := status.toNat) status.isLt
    (by rw [List.append_nil, List.cons_append]) c
  rwa [List.length_cons, hw] at hrun

/-- The part of a result set behind the number of columns. -/
structure IsBody (caps : CapabilityFlags) (columns gap rows : List Message) (e : Message)
    (st : Option StatusFlags) : Prop where
  columns : ∀ m ∈ columns, Plain caps m.2 ∧ isEofPacket m.2 = false
  gap : ColumnsEnd caps (gap.map Prod.snd)
  rows : ∀ m ∈ rows, Plain caps m.2
  last : RowsEnd caps e.2 st

/-- **`forward_result`** relays the rest of a result set. -/
theorem run_forwardResult (hmc : ErrAccepted mc) {columns gap rows : List Message} {e : Message}
    {st : Option StatusFlags} (hb : IsBody h.clientFlag columns gap rows e st) {rounds : ℕ}
    (hc : Ready (columns ++ (gap ++ (rows ++ [e]))) c)
    (hr : (columns ++ (gap ++ (rows ++ [e]))).length ≤ rounds) :
    ∃ s, (forwardResult (net R) mc rounds h).run c =
        (.ok s, relay (columns ++ (gap ++ (rows ++ [e]))) c) ∧
      s.contains .serverMoreResultsExists = more st := by
  have hgap := hb.gap
  rw [forwardResult]
  by_cases hd : h.clientFlag.contains .clientDeprecateEof
  · -- the definitions are part of the loop over the rows
    rw [ColumnsEnd, if_pos hd, List.map_eq_nil_iff] at hgap
    subst hgap
    rw [List.nil_append] at hc hr ⊢
    rw [← List.append_assoc] at hc hr ⊢
    rw [hd]
    refine run_forwardUntilResultEnd hmc hb.last (columns ++ rows) rounds c (fun m hm => ?_) hc ?_
    · rcases List.mem_append.mp hm with hm | hm
      · exact (hb.columns m hm).1
      · exact hb.rows m hm
    · rw [List.length_append, List.length_singleton] at hr
      omega
  · rw [ColumnsEnd, if_neg hd] at hgap
    obtain ⟨status, p, hp, hcur, hg⟩ := hgap
    obtain ⟨g, rfl, rfl⟩ := List.map_eq_singleton_iff.mp hg
    rw [← List.append_assoc] at hc hr ⊢
    simp only [List.length_append, List.length_singleton] at hr
    have hcols := run_columns (R := R) (isEof_kind hp).1 columns rounds c
      (fun m hm => (hb.columns m hm).2) hc.append_left (by omega)
    obtain ⟨s, hrun, hs⟩ := run_forwardUntilResultEnd (R := R) hmc hb.last rows rounds
      (relay (columns ++ [g]) c) hb.rows hc.append_right (by omega)
    refine ⟨s, ?_, hs⟩
    simp only [hd, Bool.not_false, if_true]
    rw [Proc.run_bind_ok hcols, Proc.run_bind_ok (run_readU16_eof hp _),
      relay_append (columns ++ [g])]
    -- an unknown bit or not, the cursor is not there
    rcases hbits : StatusFlags.fromBits mc.statusFlags status.toNat with _ | flags
    · exact hrun
    · have hflags : flags = status := by
        rw [StatusFlags.fromBits] at hbits
        split_ifs at hbits
        simpa using hbits.symm
      simp only [hflags, hcur, Bool.false_eq_true, if_false]
      exact hrun

theorem isEofPacket_columnDef {p : Packet} (hp : ColumnDef p) : isEofPacket p = false := by
  obtain ⟨t, rfl⟩ := hp
  simp [isEofPacket, hasHeader, HeaderInfo.toU8]

/-- A packet with which a result set can start. -/
def Announces (p : Packet) : Prop :=
  isOkPacket p = false ∧ isErrPacket p = false ∧ isLocalInFilePacket p = false

theorem lenenc_kind {n : ℕ} (hn : 1 ≤ n) : Announces (lenenc n) := by
  unfold Announces
  rcases lenenc_cases n with ⟨b, r, hb, h1, h2, h3, h4⟩ | ⟨-, r, hb⟩
  · have h0 : b ≠ 0 := fun h0 => by have := h4 h0; omega
    rw [hb]
    simp [isOkPacket, isErrPacket, isLocalInFilePacket, hasHeader_cons, HeaderInfo.toU8, h0, h1, h3]
  · rw [hb]
    simp [isOkPacket, isErrPacket, isLocalInFilePacket, hasHeader_cons, HeaderInfo.toU8]

theorem queryRound_of_status {m : Message} {ms : List Message} (hc : Ready (m :: ms) c) {rounds : ℕ}
    {st : Option StatusFlags} {c' : Conn World}
    (hq : (queryStatus (net R) mc rounds h m.2).run (relayOne c m) = (.ok st, c')) :
    (queryRound (net R) mc rounds h ()).run c =
      (.ok (if more st then .inl () else .inr ()), c') := by
  rw [queryRound, Proc.run_bind_ok (run_forward R hc false), Proc.run_bind_ok hq]
  rcases st with _ | status
  · rfl
  · by_cases hs : status.contains .serverMoreResultsExists <;> simp [more, hs]

theorem queryRound_ok {m : Message} {status : StatusFlags} (hok : OkBody h.clientFlag 0 status m.2)
    (hc : Ready [m] c) (rounds : ℕ) : (queryRound (net R) mc rounds h ()).run c =
      (.ok (if more (some status) then .inl () else .inr ()), relay [m] c) := by
  obtain ⟨hhead, -⟩ := okBody_kind hok
  have hkind : isOkPacket m.2 = true := by simp [isOkPacket, hasHeader, hhead, HeaderInfo.toU8]
  obtain ⟨r, ok, hrun, hs⟩ := okPacket_body hok
  refine queryRound_of_status hc ?_
  rw [queryStatus, if_pos hkind, hrun, ← hs]
  rfl

theorem queryRound_err (hmc : ErrAccepted mc) {m : Message} (herr : ErrBody m.2) (hc : Ready [m] c)
    (rounds : ℕ) : (queryRound (net R) mc rounds h ()).run c = (.ok (.inr ()), relay [m] c) := by
  obtain ⟨hkind, hok⟩ := errBody_kind herr
  obtain ⟨msg, hmsg⟩ := Option.isSome_iff_exists.mp (hmc h.clientFlag m.2 herr)
  have hstatus : (queryStatus (net R) mc rounds h m.2).run (relayOne c m) = (.ok none, relayOne c m) := by
    rw [queryStatus, hok, hkind]
    simp only [parseErrPacket, hmsg, orPanic]
    rfl
  exact queryRound_of_status hc hstatus

theorem queryRound_announced {m : Message} {ms : List Message} (hm : Announces m.2)
    (hc : Ready (m :: ms) c) (rounds : ℕ) : (queryRound (net R) mc rounds h ()).run c =
      (forwardResult (net R) mc rounds h >>= fun status => pure (if more (some status) then .inl ()
        else .inr ())).run (relayOne c m) := by
  obtain ⟨h1, h2, h3⟩ := hm
  rw [queryRound, Proc.run_bind_ok (run_forward R hc false), queryStatus, h1, h2, h3]
  simp only [Bool.false_eq_true, if_false, bind_assoc, pure_bind]
  refine congrArg (Proc.run · _) (bind_congr fun status => ?_)
  by_cases hs : status.contains .serverMoreResultsExists <;> simp [more, hs]

theorem queryRound_rows (hmc : ErrAccepted mc) {m e : Message} {columns gap rows : List Message}
    {st : Option StatusFlags} (hm : Announces m.2) (hb : IsBody h.clientFlag columns gap rows e st)
    (hc : Ready (m :: (columns ++ (gap ++ (rows ++ [e])))) c) {rounds : ℕ}
    (hr : (columns ++ (gap ++ (rows ++ [e]))).length ≤ rounds) :
    (queryRound (net R) mc rounds h ()).run c =
      (.ok (if more st then .inl () else .inr ()),
        relay (m :: (columns ++ (gap ++ (rows ++ [e])))) c) := by
  obtain ⟨s, hrun, hs⟩ := run_forwardResult (R := R) hmc hb hc.tail hr
  have hmore : more st = more (some s) := hs.symm
  rw [queryRound_announced hm hc, Proc.run_bind_ok hrun, hmore]
  rfl

/-- An EOF packet with an unknown bit in its status: the rows are waited for, cursor or not. -/
theorem run_forwardResult_unknown {e : Message} {columns : List Message} {status : StatusFlags}
    (hd : h.clientFlag.contains .clientDeprecateEof = false)
    (hcols : ∀ x ∈ columns, isEofPacket x.2 = false) (heof : IsEof status e.2)
    (hbits : StatusFlags.fromBits mc.statusFlags status.toNat = none) (hc : Ready (columns ++ [e]) c)
    {rounds : ℕ} (hr : columns.length < rounds) : (forwardResult (net R) mc rounds h).run c =
      (forwardUntilResultEnd (net R) mc rounds h).run (relay (columns ++ [e]) c) := by
  have hrun := run_columns (R := R) (isEof_kind heof).1 columns rounds c hcols hc hr
  rw [forwardResult, hd]
  simp only [Bool.not_false, if_true]
  rw [Proc.run_bind_ok hrun, Proc.run_bind_ok (run_readU16_eof heof _)]
  simp only [hbits]

theorem queryRound_cursor {m e : Message} {columns : List Message} {status : StatusFlags}
    (hd : h.clientFlag.contains .clientDeprecateEof = false) (hm : Announces m.2)
    (hcols : ∀ x ∈ columns, isEofPacket x.2 = false) (heof : IsEof status e.2)
    (hbits : StatusFlags.fromBits mc.statusFlags status.toNat = some status)
    (hcur : status.contains .serverStatusCursorExists = true)
    (hmore : status.contains .serverMoreResultsExists = false) (hc : Ready (m :: (columns ++ [e])) c)
    {rounds : ℕ} (hr : columns.length < rounds) : (queryRound (net R) mc rounds h ()).run c =
      (.ok (.inr ()), relay (m :: (columns ++ [e])) c) := by
  have hrun := run_columns (R := R) (isEof_kind heof).1 columns rounds (relayOne c m) hcols hc.tail hr
  have hresult : (forwardResult (net R) mc rounds h).run (relayOne c m) =
      (.ok status, relay (m :: (columns ++ [e])) c) := by
    rw [forwardResult, hd]
    simp only [Bool.not_false, if_true]
    rw [Proc.run_bind_ok hrun, Proc.run_bind_ok (run_readU16_eof heof _)]
    simp only [hbits, hcur, if_true]
    rfl
  rw [queryRound_announced hm hc, Proc.run_bind_ok hresult, more, hmore]
  rfl

/-- One round of `forward_query` relays one result. -/
theorem queryRound_result (hmc : ErrAccepted mc) {ms : List Message} {st : Option StatusFlags}
    (hm : IsResult h.clientFlag (ms.map Prod.snd) st) (hc : Ready ms c) {rounds : ℕ}
    (hr : ms.length ≤ rounds) : (queryRound (net R) mc rounds h ()).run c =
      (.ok (if more st then .inl () else .inr ()), relay ms c) := by
  generalize hps : ms.map Prod.snd = ps at hm
  cases hm with
  | @ok p status hok =>
    obtain ⟨m, rfl, rfl⟩ := List.map_eq_singleton_iff.mp hps
    exact queryRound_ok hok hc rounds
  | @err p herr =>
    obtain ⟨m, rfl, rfl⟩ := List.map_eq_singleton_iff.mp hps
    exact queryRound_err hmc herr hc rounds
  | @rows n columns gap rows p _ hn hlt hcols hgap hrows hend =>
    obtain ⟨m, ms, rfl, hm, hms⟩ := List.map_eq_cons_iff.mp hps
    obtain ⟨cs, ms1, rfl, rfl, hms1⟩ := List.map_eq_append_iff.mp hms
    obtain ⟨gs, ms2, rfl, rfl, hms2⟩ := List.map_eq_append_iff.mp hms1
    obtain ⟨rs, es, rfl, rfl, hes⟩ := List.map_eq_append_iff.mp hms2
    obtain ⟨e, rfl, rfl⟩ := List.map_eq_singleton_iff.mp hes
    have hbody : IsBody h.clientFlag cs gs rs e st := by
      refine ⟨fun x hx => ?_, hgap, fun x hx => ?_, hend⟩
      · have hd := hcols x.2 (List.mem_map_of_mem hx)
        exact ⟨plain_column hd _, isEofPacket_columnDef hd⟩
      · exact plain_row hn (hrows x.2 (List.mem_map_of_mem hx)) _
    have hlen : (cs ++ (gs ++ (rs ++ [e]))).length ≤ rounds := by
      rw [List.length_cons] at hr
      omega
    have hkind : Announces m.2 := by
      rw [hm]
      exact lenenc_kind hn
    exact queryRound_rows hmc hkind hbody hc hlen

theorem IsResponse.ne_nil {caps : CapabilityFlags} {ps : List Packet} {st : Option StatusFlags}
    (hp : IsResult caps ps st) : 0 < ps.length := by
  cases hp <;> simp

/-- **`forward_query`** relays exactly one response. -/
theorem run_forwardQuery (hmc : ErrAccepted mc) {inner : ℕ} {ps : List Packet}
    (hp : IsResponse h.clientFlag ps) : ∀ (ms : List Message) (rounds : ℕ) (c : Conn World),
    ms.map Prod.snd = ps → Ready ms c → ms.length ≤ rounds → ms.length ≤ inner →
    (Proc.loop .outOfRounds (queryRound (net R) mc inner h) rounds ()).run c =
      (.ok (), relay ms c) := by
  induction hp with
  | @last ps st hres hmore =>
    intro ms rounds c hps hc hr hi
    subst hps
    obtain ⟨k, rfl⟩ : ∃ k, rounds = k + 1 := by
      have := IsResponse.ne_nil hres
      rw [List.length_map] at this
      exact ⟨rounds - 1, by omega⟩
    refine Proc.loop_break ?_
    rw [queryRound_result hmc hres hc hi, hmore]
    rfl
  | @more ps qs st hres hmore hrest ih =>
    intro ms rounds c hps hc hr hi
    obtain ⟨ms1, ms2, rfl, rfl, rfl⟩ := List.map_eq_append_iff.mp hps
    have hpos := IsResponse.ne_nil hres
    rw [List.length_map] at hpos
    rw [List.length_append] at hr hi
    obtain ⟨k, rfl⟩ : ∃ k, rounds = k + 1 := ⟨rounds - 1, by omega⟩
    have hle : ms1.length ≤ inner := by omega
    have hround := queryRound_result (R := R) hmc hres hc.append_left hle
    rw [hmore, if_pos rfl] at hround
    rw [Proc.loop_again hround, relay_append]
    exact ih ms2 k (relay ms1 c) rfl hc.append_right (by omega) (by omega)

/-- A cursor ends the response at the definitions. -/
theorem run_forwardQuery_cursor {inner : ℕ} {ms : List Message}
    (hp : IsCursor mc h.clientFlag (ms.map Prod.snd)) (hc : Ready ms c) {rounds : ℕ}
    (hr : ms.length ≤ rounds) (hi : ms.length ≤ inner) :
    (Proc.loop .outOfRounds (queryRound (net R) mc inner h) rounds ()).run c =
      (.ok (), relay ms c) := by
  obtain ⟨hd, n, columns, status, p, hn, hcols, heof, hbits, hcur, hmore, hps⟩ := hp
  obtain ⟨m, ms, rfl, hm, hms⟩ := List.map_eq_cons_iff.mp hps
  obtain ⟨cs, es, rfl, rfl, hes⟩ := List.map_eq_append_iff.mp hms
  obtain ⟨e, rfl, rfl⟩ := List.map_eq_singleton_iff.mp hes
  have hplain : ∀ x ∈ cs, isEofPacket x.2 = false := fun x hx =>
    isEofPacket_columnDef (hcols x.2 (List.mem_map_of_mem hx))
  simp only [List.length_cons, List.length_append, List.length_nil] at hr hi
  have hkind : Announces m.2 := by
    rw [hm]
    exact lenenc_kind hn
  obtain ⟨k, rfl⟩ : ∃ k, rounds = k + 1 := ⟨rounds - 1, by omega⟩
  exact Proc.loop_break (queryRound_cursor hd hkind hplain heof hbits hcur hmore hc (by omega))

theorem run_forwardMany : ∀ (ms : List Message) (c : Conn World), Ready ms c →
    (forwardMany (net R) ms.length).run c = (.ok (), relay ms c)
  | [], _, _ => rfl
  | m :: ms, c, hc => by
    rw [List.length_cons, forwardMany, Proc.run_bind_ok (run_forward R hc false)]
    exact run_forwardMany ms (relayOne c m) hc.tail

/-- The number of definitions is computed right if it fits a `u16`. -/
theorem expectedPackets_eq (b : Profile) (caps : CapabilityFlags) {column params : ℕ}
    (hlt : definitions caps column params < 2 ^ 16) :
    expectedPackets b (caps.contains .clientDeprecateEof) column params =
      some (definitions caps column params) := by
  have hadd : ∀ x y, x + y < 2 ^ 16 → addU16 b x y = some (x + y) := by
    intro x y hxy
    rw [addU16, if_neg (by omega), Nat.mod_eq_of_lt hxy]
  unfold definitions at hlt ⊢
  rw [expectedPackets, hadd column params (by omega), Option.bind_eq_bind, Option.bind_some]
  generalize caps.contains .clientDeprecateEof = deprecateEof at hlt ⊢
  cases deprecateEof
  · simp only [Bool.false_eq_true, if_false] at hlt ⊢
    by_cases hcol : 0 < column <;> by_cases hpar : 0 < params <;>
      simp only [hcol, hpar, if_true, if_false] at hlt ⊢
    · rw [hadd (column + params) 1 (by omega), Option.bind_some]
      exact hadd _ 1 (by omega)
    · rw [hadd (column + params) 1 (by omega), Option.bind_some]
    · rw [Option.bind_some, Nat.zero_add]
      exact hadd _ 1 (by omega)
    · rfl
  · rfl

theorem run_forwardPrepareStmt_counts {b : Profile} {m : Message} {ms : List Message} {id rest : Bytes}
    {column params : ℕ} (hid : id.length = 4) (hcol : column < 2 ^ 16) (hpar : params < 2 ^ 16)
    (hm : m.2 = 0 :: (id ++ (leBytes 2 column ++ (leBytes 2 params ++ rest)))) (hc : Ready (m :: ms) c) :
    (forwardPrepareStmt (net R) mc b h).run c =
      (orPanic (expectedPackets b (h.clientFlag.contains .clientDeprecateEof) column params) >>=
        fun n => forwardMany (net R) n >>= fun _ => pure none).run (relayOne c m) := by
  have hkind : isErrPacket m.2 = false ∧ isOkPacket m.2 = true := by
    rw [hm]
    simp [isErrPacket, isOkPacket, hasHeader_cons, HeaderInfo.toU8]
  have hcolumn := run_readU16 (0 :: id) (leBytes 2 params ++ rest) hcol
    (hm.trans (List.cons_append).symm)
  have hparams := run_readU16 (0 :: (id ++ leBytes 2 column)) rest hpar (p := m.2)
    (by rw [hm, List.cons_append, List.append_assoc])
  simp only [List.length_cons, List.length_append, length_leBytes, hid] at hcolumn hparams
  rw [forwardPrepareStmt, Proc.run_bind_ok (run_forward R hc false), hkind.1, hkind.2]
  simp only [Bool.false_eq_true, if_false, if_true]
  rw [Proc.run_bind_ok (hcolumn _), Proc.run_bind_ok (hparams _)]
  rfl

/-- **`forward_prepare_stmt`** relays exactly one response. -/
theorem run_forwardPrepareStmt (hmc : ErrAccepted mc) {b : Profile} {ms : List Message}
    (hp : IsPrepared h.clientFlag (ms.map Prod.snd)) (hc : Ready ms c) :
    (forwardPrepareStmt (net R) mc b h).run c = (.ok none, relay ms c) := by
  rcases hp with ⟨p, herr, hps⟩ | ⟨id, column, params, rest, defs, hid, hcol, hpar, hps, hlen, hlt⟩
  · obtain ⟨m, rfl, rfl⟩ := List.map_eq_singleton_iff.mp hps
    obtain ⟨msg, hmsg⟩ := Option.isSome_iff_exists.mp (hmc h.clientFlag m.2 herr)
    rw [forwardPrepareStmt, Proc.run_bind_ok (run_forward R hc false), (errBody_kind herr).1]
    simp only [parseErrPacket, hmsg, orPanic]
    rfl
  · obtain ⟨m, ms, rfl, hm, rfl⟩ := List.map_eq_cons_iff.mp hps
    rw [List.length_map] at hlen hlt
    rw [run_forwardPrepareStmt_counts hid hcol hpar hm hc,
      expectedPackets_eq b h.clientFlag (hlen ▸ hlt), orPanic, pure_bind, ← hlen,
      Proc.run_bind_ok (run_forwardMany ms _ hc.tail)]
    rfl

/-- The messages that went to the client, and the ones the backend has sent and nobody has read. -/
structure Relayed (ms rest : List Message) (c c' : Conn World) : Prop where
  delivered : c'.net.clientLink = c.net.clientLink ++ ms.map (Event.mk true)
  read : c'.net.backendLink = c.net.backendLink ++ ms.map (Event.mk false)
  unread : c'.net.inbox = rest

theorem relayed_relay {ms rest : List Message} (hin : c.net.inbox = ms ++ rest) :
    Relayed ms rest c (relay ms c) :=
  ⟨relay_clientLink ms c, relay_backendLink ms c, by rw [relay_inbox, hin, List.drop_left]⟩

theorem plain_tail {caps : CapabilityFlags} {p : Packet} (hp : ColumnDef p ∨ BinaryRow p) :
    Plain caps p :=
  hp.elim (fun h => plain_column h caps) (fun h => plain_binary h caps)

/-- **`forward_until_result_end`** relays exactly one response. -/
theorem run_forwardUntilResultEnd_tail (hmc : ErrAccepted mc) {ms : List Message}
    (hp : IsTail h.clientFlag (ms.map Prod.snd)) (hc : Ready ms c) {rounds : ℕ}
    (hr : ms.length ≤ rounds) :
    ∃ s, (forwardUntilResultEnd (net R) mc rounds h).run c = (.ok s, relay ms c) := by
  obtain ⟨items, p, st, hitems, hend, hps⟩ := hp
  obtain ⟨is, es, rfl, rfl, hes⟩ := List.map_eq_append_iff.mp hps
  obtain ⟨e, rfl, rfl⟩ := List.map_eq_singleton_iff.mp hes
  obtain ⟨s, hrun, -⟩ := run_forwardUntilResultEnd (R := R) hmc hend is rounds c
    (fun m hm => plain_tail (hitems m.2 (List.mem_map_of_mem hm))) hc
    (by rw [List.length_append, List.length_singleton] at hr; omega)
  exact ⟨s, hrun⟩

end Run

/-- **Exactly one response is relayed**, whatever follows it: by `forward_query` for a response to a
query, by `forward_until_result_end` for one to `COM_FIELD_LIST` or `COM_STMT_FETCH`. -/
theorem forward_response (R : Respond) (mc : MysqlCommon) (hmc : ErrAccepted mc)
    (h : HandshakeResponse) (ms rest : List Message) (c : Conn World)
    (hin : c.net.inbox = ms ++ rest) (hw : c.net.writesLeft = none) (rounds : ℕ)
    (hr : ms.length ≤ rounds) :
    (IsResponse h.clientFlag (ms.map Prod.snd) → ∃ c',
      (forwardQuery (net R) mc rounds h).run c = (.ok (), c') ∧ Relayed ms rest c c') ∧
    (IsTail h.clientFlag (ms.map Prod.snd) → ∃ s c',
      (forwardUntilResultEnd (net R) mc rounds h).run c = (.ok s, c') ∧ Relayed ms rest c c') := by
  have hc : Ready ms c := ⟨⟨rest, hin.symm⟩, hw⟩
  refine ⟨fun hp => ?_, fun hp => ?_⟩
  · exact ⟨relay ms c, run_forwardQuery hmc hp ms rounds c rfl hc hr hr, relayed_relay hin⟩
  · obtain ⟨s, hrun⟩ := run_forwardUntilResultEnd_tail (R := R) hmc hp hc hr
    exact ⟨s, _, hrun, relayed_relay hin⟩

theorem errAccepted_plain : ErrAccepted .plain := by
  rintro caps p ⟨code, state, msg, -, hs, rfl⟩
  simp [MysqlCommon.plain, hs]
  omega

/-- A result set of one row and an OK packet, followed by an unrelated packet. -/
theorem forward_response_two_results : ∃ c',
    (forwardQuery (net silent) .plain 6 (.bare .clientProtocol41)).run ⟨0, 0, .idle
      ([(1, [1]), (2, [3, 0x64, 0x65, 0x66, 0]), (3, [0xfe, 0, 0, 0x0a, 0]), (4, [1, 0x31]),
        (5, [0xfe, 0, 0, 0x0a, 0]), (6, [0, 1, 0, 2, 0, 0, 0])] ++ [(0, [0xff])])⟩ = (.ok (), c') ∧
      c'.net.inbox = [(0, [0xff])] := by
  have hbody : OkBody .clientProtocol41 0 2 [0, 1, 0, 2, 0, 0, 0] :=
    ⟨1, 0, 0, [], by decide, by decide, by decide, fun _ => Or.inl rfl, by decide⟩
  have hrow : TextRow 1 [1, 0x31] := ⟨[some [0x31]], rfl, by simp, by decide⟩
  have heof : IsEof 0x0a [0xfe, 0, 0, 0x0a, 0] := ⟨[0, 0], rfl, by decide⟩
  have hset : IsResult .clientProtocol41 [[1], [3, 0x64, 0x65, 0x66, 0], [0xfe, 0, 0, 0x0a, 0],
      [1, 0x31], [0xfe, 0, 0, 0x0a, 0]] (some 0x0a) := by
    refine @IsResult.rows _ 1 [_] [_] [_] _ _ le_rfl (by decide) ?_ ?_ ?_ ?_
    · exact fun d hd => ⟨[0], (List.mem_singleton.mp hd).symm⟩
    · exact ⟨0x0a, _, heof, by decide, rfl⟩
    · exact fun r hr => Or.inl ((List.mem_singleton.mp hr).symm ▸ hrow)
    · exact heof
  obtain ⟨c', hrun, hrel⟩ := (forward_response silent .plain errAccepted_plain (.bare _)
    [(1, [1]), (2, [3, 0x64, 0x65, 0x66, 0]), (3, [0xfe, 0, 0, 0x0a, 0]), (4, [1, 0x31]),
      (5, [0xfe, 0, 0, 0x0a, 0]), (6, [0, 1, 0, 2, 0, 0, 0])] [(0, [0xff])] ⟨0, 0, .idle _⟩ rfl rfl 6
    (by decide)).1 (.more hset rfl (.last (.ok hbody) rfl))
  exact ⟨c', hrun, hrel.unread⟩

end Haentgl.Server.Responses
