import Haentgl.Protocol.Basic

/-! # The commands of the demo server

`from_packet` reads a *partial* input: where a byte is missing a parser fails with `Incomplete`, and
`alt` goes on to its next alternative after a `Backtrack` only. So an empty packet, and a packet cut short
behind a known code, are never taken for another command.

`Shape` lists the packets of the nine commands and what is left of each, and `CutShort` those that lack
bytes; `fromPacket_iff` says that the first are accepted, the second incomplete and all others refused. -/

namespace Haentgl.Protocol.Requests

open Haentgl.Lib.Parse Haentgl.Protocol.Constants

inductive Command
  | query (q : Bytes)
  | listFields (table : Bytes)
  | close (stmt : ℕ)
  | prepare (statement : Bytes)
  | init (schema : Bytes)
  | execute (stmt : ℕ) (params : Bytes)
  | sendLongData (stmt param : ℕ) (data : Bytes)
  | ping
  | quit
  deriving DecidableEq, Repr

/-! ### Parsers of a partial input -/

section Partial
variable {α β : Type}

/-- More bytes are needed. -/
def incomplete : IResult α := .error (.err .incomplete)

/-- The given byte. -/
def literal1 (x : UInt8) : Bytes → IResult Unit
  | [] => incomplete
  | y :: r => if y = x then .ok (r, ()) else .error (.err .backtrack)

/-- The first `n` bytes. -/
def takeMore (n : ℕ) (i : Bytes) : IResult Bytes :=
  if n ≤ i.length then .ok (i.drop n, i.take n) else incomplete

/-- A little-endian number of `k` bytes. -/
def leUintMore (k : ℕ) (i : Bytes) : IResult ℕ :=
  if k ≤ i.length then .ok (i.drop k, leNat (i.take k)) else incomplete

def rest (i : Bytes) : IResult Bytes := .ok ([], i)

/-- The next alternative is tried after a `Backtrack`. -/
def alt : List (Bytes → IResult α) → Bytes → IResult α
  | [], _ => .error (.err .backtrack)
  | p :: ps, i =>
    match p i with
    | .error (.err .backtrack) => alt ps i
    | r => r

/-- `preceded(literal([code]), p)`. -/
def preceded (com : CommandCode) (p : Bytes → IResult α) (i : Bytes) : Except Failure (Bytes × α) := do
  let (i, _) ← literal1 com.toU8 i
  p i

def mapped (f : α → β) (p : Bytes → IResult α) (i : Bytes) :
    Except Failure (Bytes × β) := do
  let (i, a) ← p i
  return (i, f a)

end Partial

/-! ### The commands -/

def sendLongData (i : Bytes) : Except Failure (Bytes × Command) := do
  let (remaining, stmt) ← leUintMore 4 i
  let (remaining, param) ← leUintMore 2 remaining
  return (remaining, .sendLongData stmt param remaining)

def execute (i : Bytes) : Except Failure (Bytes × Command) := do
  let (remaining, stmt) ← leUintMore 4 i
  let (remaining, _flags) ← takeMore 1 remaining
  let (remaining, _iterations) ← leUintMore 4 remaining
  return (remaining, .execute stmt remaining)

def fromPacket : Bytes → IResult Command :=
  alt [
    mapped .query (preceded .comQuery rest),
    mapped .listFields (preceded .comFieldList rest),
    mapped .init (preceded .comInitDB rest),
    mapped .prepare (preceded .comStmtPrepare rest),
    preceded .comStmtExecute execute,
    preceded .comStmtSendLongData sendLongData,
    mapped .close (preceded .comStmtClose (leUintMore 4)),
    mapped (fun _ => .quit) (literal1 CommandCode.comQuit.toU8),
    mapped (fun _ => .ping) (literal1 CommandCode.comPing.toU8)]

/-- What stands behind the code of a command, and what the parser leaves of it. -/
inductive Body : CommandCode → Command → Bytes → Bytes → Prop
  | query (q : Bytes) : Body .comQuery (.query q) q []
  | listFields (table : Bytes) : Body .comFieldList (.listFields table) table []
  | init (schema : Bytes) : Body .comInitDB (.init schema) schema []
  | prepare (statement : Bytes) : Body .comStmtPrepare (.prepare statement) statement []
  | execute (stmt iterations : Bytes) (flags : UInt8) (params : Bytes) (hs : stmt.length = 4)
      (hi : iterations.length = 4) : Body .comStmtExecute (.execute (leNat stmt) params)
        (stmt ++ flags :: (iterations ++ params)) params
  | sendLongData (stmt param data : Bytes) (hs : stmt.length = 4) (hp : param.length = 2) :
      Body .comStmtSendLongData (.sendLongData (leNat stmt) (leNat param) data)
        (stmt ++ (param ++ data)) data
  | close (stmt unread : Bytes) (hs : stmt.length = 4) :
      Body .comStmtClose (.close (leNat stmt)) (stmt ++ unread) unread
  | quit (unread : Bytes) : Body .comQuit .quit unread unread
  | ping (unread : Bytes) : Body .comPing .ping unread unread

/-- The packets of a command. -/
def Shape (cmd : Command) (p r : Bytes) : Prop :=
  ∃ com b, p = CommandCode.toU8 com :: b ∧ Body com cmd b r

/-- How many bytes there must be behind the code. -/
def needed : CommandCode → ℕ
  | .comStmtExecute => 9
  | .comStmtSendLongData => 6
  | .comStmtClose => 4
  | _ => 0

/-- The parser behind the code. -/
def bodyParser : CommandCode → Option (Bytes → IResult Command)
  | .comQuery => some (mapped .query rest)
  | .comFieldList => some (mapped .listFields rest)
  | .comInitDB => some (mapped .init rest)
  | .comStmtPrepare => some (mapped .prepare rest)
  | .comStmtExecute => some execute
  | .comStmtSendLongData => some sendLongData
  | .comStmtClose => some (mapped .close (leUintMore 4))
  | .comQuit => some fun i => .ok (i, .quit)
  | .comPing => some fun i => .ok (i, .ping)
  | _ => none

/-! ### Which packets are accepted -/

section Alt
variable {α : Type} {p : Bytes → IResult α} {ps : List (Bytes → IResult α)} {i : Bytes}

theorem alt_of_ne (h : p i ≠ .error (.err .backtrack)) : alt (p :: ps) i = p i := by
  rw [alt]
  split
  · exact absurd ‹_› h
  · rfl

theorem alt_of_backtrack (h : p i = .error (.err .backtrack)) : alt (p :: ps) i = alt ps i := by
  rw [alt, h]

theorem alt_of_forall : ∀ {ps : List (Bytes → IResult α)}, (∀ p ∈ ps, p i = .error (.err .backtrack)) →
    alt ps i = .error (.err .backtrack)
  | [], _ => rfl
  | p :: ps, h => by
    rw [alt_of_backtrack (h p (by simp))]
    exact alt_of_forall fun q hq => h q (by simp [hq])

end Alt

section Bodies
variable {x : UInt8} {r : Bytes}

theorem leUintMore_short {k : ℕ} {i : Bytes} (h : i.length < k) : leUintMore k i = incomplete :=
  if_neg (by omega)

theorem leUintMore_long {k : ℕ} {i : Bytes} (h : k ≤ i.length) :
    leUintMore k i = .ok (i.drop k, leNat (i.take k)) := if_pos h

/-- `execute` at its three lengths. -/
theorem execute_eq (i : Bytes) : execute i =
    if 9 ≤ i.length then .ok (i.drop 9, .execute (leNat (i.take 4)) (i.drop 9)) else incomplete := by
  unfold execute
  rcases Nat.lt_or_ge i.length 4 with h4 | h4
  · rw [leUintMore_short h4, if_neg (by omega)]
    rfl
  rw [leUintMore_long h4]
  simp only [bind, Except.bind, pure, Except.pure, takeMore, List.length_drop, List.drop_drop]
  rcases Nat.lt_or_ge i.length 5 with h5 | h5
  · rw [if_neg (by omega), if_neg (by omega)]
    rfl
  rw [if_pos (by omega)]
  dsimp only
  have hlen : (i.drop (4 + 1)).length = i.length - 5 := List.length_drop
  rcases Nat.lt_or_ge i.length 9 with h9 | h9
  · rw [leUintMore_short (by omega), if_neg (by omega)]
    rfl
  · rw [leUintMore_long (by omega), if_pos h9, List.drop_drop]

theorem sendLongData_eq (i : Bytes) : sendLongData i =
    if 6 ≤ i.length then
      .ok (i.drop 6, .sendLongData (leNat (i.take 4)) (leNat ((i.drop 4).take 2)) (i.drop 6))
    else incomplete := by
  unfold sendLongData
  rcases Nat.lt_or_ge i.length 4 with h4 | h4
  · rw [leUintMore_short h4, if_neg (by omega)]
    rfl
  rw [leUintMore_long h4]
  have hlen : (i.drop 4).length = i.length - 4 := List.length_drop
  simp only [bind, Except.bind, pure, Except.pure]
  rcases Nat.lt_or_ge i.length 6 with h6 | h6
  · rw [leUintMore_short (by omega), if_neg (by omega)]
    rfl
  · rw [leUintMore_long (by omega), if_pos h6, List.drop_drop]

/-- **What the parser behind a code does**, by the number of bytes. -/
theorem bodyParser_cases {com : CommandCode} {p : Bytes → IResult Command} (h : bodyParser com = some p)
    (i : Bytes) : (i.length < needed com ∧ p i = incomplete) ∨
      (needed com ≤ i.length ∧ ∃ r cmd, p i = .ok (r, cmd) ∧ Body com cmd i r) := by
  cases com <;> simp only [bodyParser, Option.some.injEq, reduceCtorEq] at h <;> subst h
  case comQuery => exact Or.inr ⟨Nat.zero_le _, _, _, rfl, .query i⟩
  case comFieldList => exact Or.inr ⟨Nat.zero_le _, _, _, rfl, .listFields i⟩
  case comInitDB => exact Or.inr ⟨Nat.zero_le _, _, _, rfl, .init i⟩
  case comStmtPrepare => exact Or.inr ⟨Nat.zero_le _, _, _, rfl, .prepare i⟩
  case comQuit => exact Or.inr ⟨Nat.zero_le _, _, _, rfl, .quit i⟩
  case comPing => exact Or.inr ⟨Nat.zero_le _, _, _, rfl, .ping i⟩
  case comStmtExecute =>
    rcases Nat.lt_or_ge i.length 9 with h9 | h9
    · exact Or.inl ⟨h9, by rw [execute_eq, if_neg (by omega)]⟩
    refine Or.inr ⟨h9, _, _, by rw [execute_eq, if_pos h9], ?_⟩
    have hi : i = i.take 4 ++ (i[4] :: ((i.drop 5).take 4 ++ i.drop 9)) := by
      rw [show i.drop 9 = (i.drop 5).drop 4 by simp, List.take_append_drop, List.getElem_cons_drop,
        List.take_append_drop]
    have hbody := Body.execute (i.take 4) ((i.drop 5).take 4) i[4] (i.drop 9)
      (List.length_take_of_le (by omega)) (List.length_take_of_le (by rw [List.length_drop]; omega))
    rwa [← hi] at hbody
  case comStmtSendLongData =>
    rcases Nat.lt_or_ge i.length 6 with h6 | h6
    · exact Or.inl ⟨h6, by rw [sendLongData_eq, if_neg (by omega)]⟩
    refine Or.inr ⟨h6, _, _, by rw [sendLongData_eq, if_pos h6], ?_⟩
    have hi : i = i.take 4 ++ ((i.drop 4).take 2 ++ i.drop 6) := by
      rw [show i.drop 6 = (i.drop 4).drop 2 by simp, List.take_append_drop, List.take_append_drop]
    have hbody := Body.sendLongData (i.take 4) ((i.drop 4).take 2) (i.drop 6)
      (List.length_take_of_le (by omega)) (List.length_take_of_le (by rw [List.length_drop]; omega))
    rwa [← hi] at hbody
  case comStmtClose =>
    rcases Nat.lt_or_ge i.length 4 with h4 | h4
    · exact Or.inl ⟨h4, by rw [mapped, leUintMore_short h4]; rfl⟩
    refine Or.inr ⟨h4, i.drop 4, .close (leNat (i.take 4)), by rw [mapped, leUintMore_long h4]; rfl, ?_⟩
    have hbody := Body.close (i.take 4) (i.drop 4) (List.length_take_of_le h4)
    rwa [List.take_append_drop] at hbody

theorem needed_le_of_body {com : CommandCode} {cmd : Command} {i r : Bytes} (h : Body com cmd i r) :
    needed com ≤ i.length := by
  cases h <;> simp [needed] <;> omega

/-- A body has one reading. -/
theorem bodyParser_of_body {com : CommandCode} {cmd : Command} {i r : Bytes} (h : Body com cmd i r) :
    ∃ p, bodyParser com = some p ∧ p i = .ok (r, cmd) := by
  cases h with
  | execute stmt iterations flags _ hs hi =>
    refine ⟨_, rfl, ?_⟩
    rw [execute_eq, if_pos (by simp; omega)]
    have hdrop : (stmt ++ flags :: (iterations ++ r)).drop 9 = r := by
      rw [show stmt ++ flags :: (iterations ++ r) = (stmt ++ flags :: iterations) ++ r by simp]
      exact List.drop_left' (by simp; omega)
    rw [hdrop, List.take_left' hs]
  | sendLongData stmt param _ hs hp =>
    refine ⟨_, rfl, ?_⟩
    rw [sendLongData_eq, if_pos (by simp; omega)]
    have hdrop : (stmt ++ (param ++ r)).drop 6 = r := by
      rw [← List.append_assoc]
      exact List.drop_left' (by simp; omega)
    rw [hdrop, List.take_left' hs, List.drop_left' hs, List.take_left' hp]
  | close stmt unread hs =>
    refine ⟨_, rfl, ?_⟩
    rw [mapped, leUintMore_long (by simp; omega), List.drop_left' hs, List.take_left' hs]
    rfl
  | query q => exact ⟨_, rfl, rfl⟩
  | listFields table => exact ⟨_, rfl, rfl⟩
  | init schema => exact ⟨_, rfl, rfl⟩
  | prepare statement => exact ⟨_, rfl, rfl⟩
  | quit unread => exact ⟨_, rfl, rfl⟩
  | ping unread => exact ⟨_, rfl, rfl⟩

theorem literal1_of_ne {y : UInt8} (h : x ≠ y) : literal1 y (x :: r) = .error (.err .backtrack) := if_neg h

/-- The code decides which parser runs. -/
theorem fromPacket_known {com : CommandCode} {p : Bytes → IResult Command} (h : bodyParser com = some p)
    (i : Bytes) : fromPacket (com.toU8 :: i) = p i := by
  have hne : p i ≠ .error (.err .backtrack) := by
    rcases bodyParser_cases h i with ⟨-, hp⟩ | ⟨-, r, cmd, hp, -⟩ <;> rw [hp] <;> simp [incomplete]
  cases com <;> simp only [bodyParser, Option.some.injEq, reduceCtorEq] at h <;> subst h
  case comStmtExecute =>
    exact alt_of_ne (p := preceded .comStmtExecute execute) (i := CommandCode.comStmtExecute.toU8 :: i) hne
  case comStmtSendLongData =>
    exact alt_of_ne (p := preceded .comStmtSendLongData sendLongData)
      (i := CommandCode.comStmtSendLongData.toU8 :: i) hne
  case comStmtClose =>
    exact alt_of_ne (p := mapped Command.close (preceded .comStmtClose (leUintMore 4)))
      (i := CommandCode.comStmtClose.toU8 :: i) hne
  all_goals rfl

theorem fromPacket_unknown (h : (CommandCode.fromU8 x).bind bodyParser = none) :
    fromPacket (x :: r) = .error (.err .backtrack) := by
  have hne : ∀ com p, bodyParser com = some p → x ≠ com.toU8 := by
    rintro com p hp rfl
    rw [CommandCode.fromU8_toU8] at h
    simp [hp] at h
  refine alt_of_forall fun q hq => ?_
  simp only [List.mem_cons, List.not_mem_nil, or_false] at hq
  rcases hq with rfl | rfl | rfl | rfl | rfl | rfl | rfl | rfl | rfl
  all_goals
    simp only [mapped, preceded]
    rw [literal1_of_ne (hne _ _ rfl)]
    rfl
/-- A first byte that is the code of none of the nine commands. -/
def Foreign (x : UInt8) : Prop := ∀ com, x = CommandCode.toU8 com → bodyParser com = none

/-- Cut short: nothing at all, or too little behind one of the nine codes. -/
def CutShort (p : Bytes) : Prop :=
  p = [] ∨ ∃ com i, p = CommandCode.toU8 com :: i ∧ bodyParser com ≠ none ∧ i.length < needed com

/-- How a packet fares, by its first byte and its length. -/
theorem fromPacket_cases (p : Bytes) : (CutShort p ∧ fromPacket p = incomplete) ∨
    (∃ x i, p = x :: i ∧ Foreign x ∧ fromPacket p = .error (.err .backtrack)) ∨
      ∃ r cmd, Shape cmd p r ∧ fromPacket p = .ok (r, cmd) := by
  rcases p with _ | ⟨x, i⟩
  · exact Or.inl ⟨Or.inl rfl, rfl⟩
  rcases hp : (CommandCode.fromU8 x).bind bodyParser with _ | p
  · refine Or.inr (Or.inl ⟨x, i, rfl, ?_, fromPacket_unknown hp⟩)
    rintro com rfl
    simpa [CommandCode.fromU8_toU8] using hp
  obtain ⟨com, hcom, hbody⟩ := Option.bind_eq_some_iff.mp hp
  obtain rfl := CommandCode.toU8_of_fromU8 hcom
  rw [fromPacket_known hbody]
  rcases bodyParser_cases hbody i with ⟨hlt, hi⟩ | ⟨-, r, cmd, hi, hb⟩
  · exact Or.inl ⟨Or.inr ⟨com, i, rfl, by simp [hbody], hlt⟩, hi⟩
  · exact Or.inr (Or.inr ⟨r, cmd, ⟨com, i, rfl, hb⟩, hi⟩)

theorem fromPacket_of_shape {p r : Bytes} {cmd : Command} (h : Shape cmd p r) :
    fromPacket p = .ok (r, cmd) := by
  obtain ⟨com, b, rfl, hb⟩ := h
  obtain ⟨q, hq, hok⟩ := bodyParser_of_body hb
  rw [fromPacket_known hq, hok]

theorem shape_of_fromPacket {p r : Bytes} {cmd : Command} (h : fromPacket p = .ok (r, cmd)) :
    Shape cmd p r := by
  rcases fromPacket_cases p with ⟨-, hp⟩ | ⟨x, i, -, -, hp⟩ | ⟨r', cmd', hs, hp⟩
  · cases hp.symm.trans h
  · cases hp.symm.trans h
  · obtain ⟨rfl, rfl⟩ : r' = r ∧ cmd' = cmd := by simpa [hp] using h
    exact hs

/-- A packet that is cut short has no shape. -/
theorem not_shape_of_cutShort {p r : Bytes} {cmd : Command} (h : CutShort p) : ¬ Shape cmd p r := by
  rintro ⟨com, b, rfl, hb⟩
  rcases h with h | ⟨com', i, he, -, hlt⟩
  · cases h
  · obtain ⟨hcode, rfl⟩ := List.cons.inj he
    obtain rfl := CommandCode.toU8_injective hcode
    have := needed_le_of_body hb
    omega

/-- **Every packet has one of three fates.** It is accepted exactly if it has the shape of one of the
nine commands, it is called incomplete exactly if it is cut short, and only a packet with the code of
none of them makes the alternatives fail one after the other. -/
theorem fromPacket_iff (p : Bytes) :
    (∀ r cmd, fromPacket p = .ok (r, cmd) ↔ Shape cmd p r) ∧ (fromPacket p = incomplete ↔ CutShort p) ∧
      (fromPacket p = .error (.err .backtrack) ↔ ∃ x i, p = x :: i ∧ Foreign x) := by
  refine ⟨fun r cmd => ⟨shape_of_fromPacket, fromPacket_of_shape⟩, ?_, ?_⟩
  · refine ⟨fun h => ?_, fun h => ?_⟩
    · rcases fromPacket_cases p with ⟨hc, -⟩ | ⟨x, i, -, -, hp⟩ | ⟨r, cmd, -, hp⟩
      · exact hc
      · cases hp.symm.trans h
      · cases hp.symm.trans h
    · rcases fromPacket_cases p with ⟨-, hp⟩ | ⟨x, i, rfl, hx, -⟩ | ⟨r, cmd, hs, -⟩
      · exact hp
      · rcases h with h | ⟨com, j, he, hne, -⟩
        · cases h
        · exact absurd (hx com (List.cons.inj he).1) hne
      · exact absurd hs (not_shape_of_cutShort h)
  · refine ⟨fun h => ?_, ?_⟩
    · rcases fromPacket_cases p with ⟨-, hp⟩ | ⟨x, i, rfl, hx, -⟩ | ⟨r, cmd, -, hp⟩
      · cases hp.symm.trans h
      · exact ⟨x, i, rfl, hx⟩
      · cases hp.symm.trans h
    · rintro ⟨x, i, rfl, hx⟩
      refine fromPacket_unknown ?_
      rcases hcom : CommandCode.fromU8 x with _ | com
      · rfl
      · exact hx com (CommandCode.toU8_of_fromU8 hcom)

end Bodies

end Haentgl.Protocol.Requests
