import Haentgl.Server.Proxy
import Haentgl.Protocol.Handshake

/-! # The first packet of a session

The server opens a session: its version, the number of the connection, a salt in two parts, its
capabilities and the name of a plugin. `readGreeting` is how a client takes the packet apart, field by
field in the order of the protocol; `readGreeting_greetingPayload` says that it finds what the server
meant, and of the number of the connection the lower 32 bits.

A salt is drawn at random and has no zero and no `$`; a zero would end it early. -/

namespace Haentgl.Server.Greeting

open Haentgl.Lib.Parse Haentgl.Protocol.Constants Haentgl.Protocol.Packets Haentgl.Protocol.Basic
open Haentgl.Protocol.Handshake Haentgl.Server.Proxy

/-! ### Salts -/

def scrambleSize : ℕ := 20

/-- A byte of a salt that stands for none of the two separators. -/
def saltByte (x : UInt8) : UInt8 := if x = 0 ∨ x = 0x24 then x + 1 else x

/-- `gen_user_salt` from what the generator draws. -/
def genUserSalt (draws : List UInt8) : Bytes := draws.map saltByte

def defaultSalt : Bytes := (";X,po_k\x7d>o6^Wz!/kM\x7dN".toUTF8.toList.take scrambleSize).map saltByte

theorem saltByte_ne (x : UInt8) : saltByte x ≠ 0 ∧ saltByte x ≠ 0x24 := by
  unfold saltByte
  split_ifs with h
  · rcases h with rfl | rfl <;> decide
  · exact not_or.mp h

theorem notMem_genUserSalt (draws : List UInt8) : 0 ∉ genUserSalt draws ∧ 0x24 ∉ genUserSalt draws := by
  refine ⟨fun h => ?_, fun h => ?_⟩
  · obtain ⟨x, -, hx⟩ := List.mem_map.mp h
    exact (saltByte_ne x).1 hx
  · obtain ⟨x, -, hx⟩ := List.mem_map.mp h
    exact (saltByte_ne x).2 hx

/-! ### The packet -/

def defaultBackendVersion : Bytes := "11.1.2-MariaDB-1:11.1.2+maria~ubu2204".toUTF8.toList

def nativePassword : Bytes := "mysql_native_password".toUTF8.toList

/-- The payload of `write_initial_handshake`. -/
def greetingPayload (connId : ℕ) (scramble version : Bytes) (tls : Bool) : Packet :=
  let caps : CapabilityFlags := if tls then .default ||| .clientSsl else .default
  [10] ++ version ++ [0] ++ leBytes 4 connId ++ scramble.take 8 ++ [0] ++ leBytes 2 caps.toNat ++ [46] ++
    leBytes 2 2 ++ leBytes 2 (caps.toNat / 2 ^ 16) ++ [UInt8.ofNat (scramble.length + 1)] ++
    List.replicate 10 0 ++ scramble.drop 8 ++ [0] ++ nativePassword ++ [0]

theorem initialHandshakePacket_eq (S : Setup) : initialHandshakePacket S =
    greetingPayload S.connId S.scramble defaultBackendVersion S.tls := rfl

/-- What a client learns from it. -/
structure Offer where
  protocol : ℕ
  serverVersion : Bytes
  connId : ℕ
  scramble : Bytes
  capabilities : CapabilityFlags
  collation : ℕ
  status : ℕ
  plugin : Bytes
  deriving DecidableEq, Repr

/-- How a client reads it; the second part of the salt has the length that is left, at least 13, with
its zero. -/
def readGreeting (i : Bytes) : Except Failure (Bytes × Offer) := do
  let (i, protocol) ← leUint 1 i
  let (i, serverVersion) ← nulString i
  let (i, connId) ← leUint 4 i
  let (i, part1) ← take 8 i
  let (i, _) ← take 1 i
  let (i, lower) ← leUint 2 i
  let (i, collation) ← leUint 1 i
  let (i, status) ← leUint 2 i
  let (i, upper) ← leUint 2 i
  let (i, dataLen) ← leUint 1 i
  let (i, _) ← take 10 i
  let (i, part2) ← take (max 13 (dataLen - 8)) i
  let (i, plugin) ← nulString i
  return (i, ⟨protocol, serverVersion, connId, part1 ++ part2.dropLast,
    BitVec.ofNat 32 (upper * 2 ^ 16 + lower), collation, status, plugin⟩)

/-- The capabilities in two halves. -/
theorem ofNat_halves (caps : CapabilityFlags) :
    BitVec.ofNat 32 (caps.toNat / 2 ^ 16 * 2 ^ 16 + caps.toNat % 2 ^ 16) = caps := by
  rw [Nat.div_add_mod' caps.toNat (2 ^ 16), BitVec.ofNat_toNat, BitVec.setWidth_eq]

/-- The low bytes of a number are those of its remainder. -/
theorem leBytes_mod : ∀ k n : ℕ, leBytes k (n % 256 ^ k) = leBytes k n
  | 0, _ => rfl
  | k + 1, n => by
    have hdvd : 256 ∣ 256 ^ (k + 1) := Dvd.intro_left (256 ^ k) rfl
    have hlow : n % 256 ^ (k + 1) % 256 = n % 256 := Nat.mod_mod_of_dvd n hdvd
    have hhigh : n % 256 ^ (k + 1) / 256 = n / 256 % 256 ^ k := by
      rw [pow_succ', Nat.mod_mul_right_div_self]
    rw [leBytes, leBytes, hhigh, leBytes_mod k (n / 256)]
    refine congrArg (· :: leBytes k (n / 256)) (UInt8.toNat_inj.mp ?_)
    rw [UInt8.toNat_ofNat', UInt8.toNat_ofNat']
    exact hlow

theorem leUint_leBytes_mod (k n : ℕ) (r : Bytes) : leUint k (leBytes k n ++ r) = .ok (r, n % 256 ^ k) := by
  rw [← leBytes_mod]
  exact leUint_leBytes r (Nat.mod_lt _ (by positivity))

/-- **A client finds what the server meant.** -/
theorem readGreeting_greetingPayload {connId : ℕ} {scramble version : Bytes} {tls : Bool}
    (hs : scramble.length = scrambleSize) (hv : version ≠ []) (h0 : 0 ∉ version) (rest : Bytes) :
    readGreeting (greetingPayload connId scramble version tls ++ rest) =
      .ok (rest, ⟨10, version, connId % 2 ^ 32, scramble,
        if tls then .default ||| .clientSsl else .default, 46, 2, nativePassword⟩) := by
  set caps : CapabilityFlags := if tls then .default ||| .clientSsl else .default with hcaps
  have hpart1 : (scramble.take 8).length = 8 := by simp [hs, scrambleSize]
  have hpart2 : (scramble.drop 8 ++ [0]).length = 13 := by simp [hs, scrambleSize]
  have hbytes : greetingPayload connId scramble version tls ++ rest =
      10 :: (version ++ 0 :: (leBytes 4 connId ++ (scramble.take 8 ++ ([0] ++ (leBytes 2 caps.toNat ++
        46 :: (leBytes 2 2 ++ (leBytes 2 (caps.toNat / 2 ^ 16) ++ 21 :: (List.replicate 10 0 ++
          ((scramble.drop 8 ++ [0]) ++ (nativePassword ++ 0 :: rest)))))))))) := by
    simp only [greetingPayload, ← hcaps, hs, List.append_assoc, List.cons_append, List.nil_append]
    rfl
  have hplugin : nativePassword ≠ [] ∧ 0 ∉ nativePassword := by decide +kernel
  rw [hbytes, readGreeting]
  refine bind_eq_ok.mpr ⟨_, leUint_one 10 _, ?_⟩
  refine bind_eq_ok.mpr ⟨_, nulString_eq_ok.mpr ⟨hv, h0, rfl⟩, ?_⟩
  refine bind_eq_ok.mpr ⟨_, leUint_leBytes_mod 4 _ _, ?_⟩
  refine bind_eq_ok.mpr ⟨_, take_eq_ok.mpr ⟨rfl, hpart1⟩, ?_⟩
  refine bind_eq_ok.mpr ⟨_, take_eq_ok.mpr ⟨rfl, rfl⟩, ?_⟩
  refine bind_eq_ok.mpr ⟨_, leUint_leBytes_mod 2 _ _, ?_⟩
  refine bind_eq_ok.mpr ⟨_, leUint_one 46 _, ?_⟩
  refine bind_eq_ok.mpr ⟨_, leUint_leBytes_mod 2 _ _, ?_⟩
  refine bind_eq_ok.mpr ⟨_, leUint_leBytes_mod 2 _ _, ?_⟩
  refine bind_eq_ok.mpr ⟨_, leUint_one 21 _, ?_⟩
  refine bind_eq_ok.mpr ⟨_, take_eq_ok.mpr ⟨rfl, List.length_replicate⟩, ?_⟩
  refine bind_eq_ok.mpr ⟨_, take_eq_ok.mpr ⟨rfl, hpart2⟩, ?_⟩
  refine bind_eq_ok.mpr ⟨_, nulString_eq_ok.mpr ⟨hplugin.1, hplugin.2, rfl⟩, ?_⟩
  have hupper : caps.toNat / 2 ^ 16 % 256 ^ 2 = caps.toNat / 2 ^ 16 := by
    have := caps.isLt
    omega
  rw [hupper, show (256 : ℕ) ^ 2 = 2 ^ 16 by norm_num, ofNat_halves, List.dropLast_concat,
    List.take_append_drop]
  rfl

/-- **The first packet of every session is read back**, whatever was drawn for its salt, and nothing
behind it is touched; the salt has no zero and no `$`. -/
theorem greeting_readBack {S : Setup} {draws : List UInt8} (hS : S.scramble = genUserSalt draws)
    (hlen : draws.length = scrambleSize) (rest : Bytes) :
    readGreeting (initialHandshakePacket S ++ rest) =
        .ok (rest, ⟨10, defaultBackendVersion, S.connId % 2 ^ 32, S.scramble,
          if S.tls then .default ||| .clientSsl else .default, 46, 2, nativePassword⟩) ∧
      0 ∉ S.scramble ∧ 0x24 ∉ S.scramble := by
  have hscramble : S.scramble.length = scrambleSize := by rw [hS, genUserSalt, List.length_map, hlen]
  refine ⟨?_, by rw [hS]; exact (notMem_genUserSalt draws).1, by rw [hS]; exact (notMem_genUserSalt draws).2⟩
  rw [initialHandshakePacket_eq]
  exact readGreeting_greetingPayload hscramble (by decide +kernel) (by decide +kernel) rest

/-- A salt from draws of which two are separators. -/
theorem greeting_readBack_separators :
    genUserSalt (0 :: 0x24 :: List.replicate 18 33) = 1 :: 0x25 :: List.replicate 18 33 ∧
      ∃ r, readGreeting (initialHandshakePacket ⟨.release, .plain, false, true, 2 ^ 32 + 7,
        genUserSalt (0 :: 0x24 :: List.replicate 18 33)⟩ ++ [1]) = .ok ([1], r) ∧ r.connId = 7 ∧
          r.capabilities.contains .clientSsl = true := by
  refine ⟨by decide, _, (greeting_readBack rfl (by decide) [1]).1, rfl, rfl⟩

end Haentgl.Server.Greeting
