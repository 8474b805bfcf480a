import Haentgl.Server.Tenants

/-! # What a client's response says

A `Sent41` is what a client of the protocol 4.1 has to say at its login, a `Sent320` what an older one
has, and `bytes` is how the protocol writes it down: which fields there are and how each of them ends is
in the flags. A text may be empty there.

With a length in front of the data of the authentication and no empty text, every field is read back
and nothing behind the message is touched (`clientHandshakeResponse_sent`). `readBack_iff` says for
every message of both kinds whether the proxy hears what was said: it does not if a text that is there
is empty, if a text stands behind data that end with a zero, or if an old message names a database. -/

namespace Haentgl.Server.Logins

open Haentgl.Lib.Parse Haentgl.Lib.Text Haentgl.Protocol.Constants Haentgl.Protocol.Packets
open Haentgl.Protocol.Basic Haentgl.Protocol.Handshake Haentgl.Server.Tenants

/-! ### Attributes -/

/-- The pairs, one behind the other. -/
def attrsData (l : List (String × String)) : Bytes :=
  l.flatMap fun kv => lenencStr (utf8 kv.1.toList) ++ lenencStr (utf8 kv.2.toList)

/-- A table of the pairs: each key once, with its last value. -/
structure IsTable (m l : List (String × String)) : Prop where
  nodup : (m.map Prod.fst).Nodup
  lookup : ∀ key, m.lookup key = l.reverse.lookup key

theorem IsTable.nil : IsTable [] [] := ⟨List.nodup_nil, fun _ => rfl⟩

theorem lookup_filter_ne {k key : String} (h : key ≠ k) : ∀ m : List (String × String),
    (m.filter fun kv => kv.1 ≠ k).lookup key = m.lookup key
  | [] => rfl
  | (k', v) :: m => by
    have ih := lookup_filter_ne h m
    by_cases hk : k' = k
    · rw [List.filter_cons_of_neg (by simpa using hk), ih, List.lookup_cons, hk,
        beq_eq_false_iff_ne.mpr h]
    · rw [List.filter_cons_of_pos (by simpa using hk), List.lookup_cons, List.lookup_cons, ih]

/-- One more pair. -/
theorem IsTable.insert {m l : List (String × String)} (h : IsTable m l) (kv : String × String) :
    IsTable (kv :: m.filter fun x => x.1 ≠ kv.1) (l ++ [kv]) := by
  obtain ⟨k, v⟩ := kv
  constructor
  · rw [List.map_cons, List.nodup_cons]
    refine ⟨?_, h.nodup.sublist ((List.filter_sublist).map _)⟩
    simp
  · intro key
    rw [List.reverse_append, List.reverse_singleton, List.singleton_append, List.lookup_cons,
      List.lookup_cons]
    by_cases hk : key = k
    · simp [hk]
    · rw [beq_eq_false_iff_ne.mpr hk]
      exact (lookup_filter_ne hk m).trans (h.lookup key)

theorem readLengthEncodedString_lenencStr {s : Bytes} (h : s.length < 256 ^ 8) (r : Bytes) :
    readLengthEncodedString (lenencStr s ++ r) = .ok (r, s) :=
  readLengthEncodedString_eq_ok.mpr ⟨_, number_lenenc h, by rw [lenencStr, List.append_assoc]⟩

/-- The loop over the pairs makes their table. -/
theorem attributes_attrsData : ∀ (l : List (String × String)) (n : ℕ) {m l₀ : List (String × String)},
    (attrsData l).length ≤ n → (attrsData l).length < 256 ^ 8 → IsTable m l₀ →
      ∃ m', attributes n (attrsData l) m = .ok m' ∧ IsTable m' (l₀ ++ l)
  | [], n, m, l₀, _, _, hm => by
    refine ⟨m, ?_, by rwa [List.append_nil]⟩
    cases n <;> rfl
  | (k, v) :: l, n, m, l₀, hn, hlt, hm => by
    have hdata : attrsData ((k, v) :: l) = lenencStr (utf8 k.toList) ++
        (lenencStr (utf8 v.toList) ++ attrsData l) := by
      rw [attrsData, List.flatMap_cons, List.append_assoc]
      rfl
    have hne : attrsData ((k, v) :: l) ≠ [] := by
      rw [hdata, lenencStr]
      simp [lenenc_ne_nil]
    have hpos := List.length_pos_iff.mpr (lenenc_ne_nil (utf8 k.toList).length)
    rw [hdata] at hn hlt
    simp only [List.length_append, lenencStr] at hn hlt
    obtain ⟨n, rfl⟩ := Nat.exists_eq_succ_of_ne_zero (show n ≠ 0 by omega)
    obtain ⟨m', hm', htable⟩ := attributes_attrsData l n (by omega) (by omega) (hm.insert (k, v))
    refine ⟨m', ?_, by rwa [List.append_assoc] at htable⟩
    have hkey := readLengthEncodedString_lenencStr (s := utf8 k.toList) (by omega)
      (lenencStr (utf8 v.toList) ++ attrsData l)
    have hvalue := readLengthEncodedString_lenencStr (s := utf8 v.toList) (by omega) (attrsData l)
    rw [attributes, if_neg hne, hdata]
    refine bind_eq_ok.mpr ⟨_, hkey, ?_⟩
    refine bind_eq_ok.mpr ⟨_, hvalue, ?_⟩
    refine bind_eq_ok.mpr ⟨k, unwrap_fromUtf8.mpr rfl, ?_⟩
    exact bind_eq_ok.mpr ⟨v, unwrap_fromUtf8.mpr rfl, hm'⟩

/-! ### The messages -/

/-- A response of the protocol 4.1: the data of the authentication have their length in front, or hold
no zero and end with one. -/
structure Sent41 where
  caps : CapabilityFlags
  maxPacketLen : ℕ
  collation : UInt8
  filler : Bytes
  user : Bytes
  authResponse : Bytes
  database : Bytes
  authPlugin : Bytes
  attrs : List (String × String)
  protocol41 : caps.contains .clientProtocol41
  maxPacketLen_lt : maxPacketLen < 256 ^ 4
  length_filler : filler.length = 23
  user_nul : 0 ∉ user
  authResponse_fits : if caps.contains .clientPluginAuthLenencClientData then authResponse.length < 256 ^ 8
    else if caps.contains .clientSecureConnection then authResponse.length < 256
    else 0 ∉ authResponse
  database_nul : 0 ∉ database
  authPlugin_nul : 0 ∉ authPlugin
  attrs_fit : (attrsData attrs).length < 256 ^ 8

namespace Sent41
variable (p : Sent41)

/-- There is a length in front of the data of the authentication. -/
def LengthPrefixed : Prop :=
  p.caps.contains .clientPluginAuthLenencClientData ∨ p.caps.contains .clientSecureConnection

instance : Decidable p.LengthPrefixed := inferInstanceAs (Decidable (_ ∨ _))

def authBytes : Bytes :=
  if p.caps.contains .clientPluginAuthLenencClientData then lenencStr p.authResponse
  else if p.caps.contains .clientSecureConnection then
    UInt8.ofNat p.authResponse.length :: p.authResponse
  else p.authResponse ++ [0]

def databaseBytes : Bytes :=
  if p.caps.contains .clientConnectWithDb then p.database ++ [0] else []

def authPluginBytes : Bytes :=
  if p.caps.contains .clientPluginAuth then p.authPlugin ++ [0] else []

def attrsBytes : Bytes :=
  if p.caps.contains .clientConnectAttrs then lenencStr (attrsData p.attrs) else []

/-- The fields behind the user. -/
def tail : Bytes := p.authBytes ++ (p.databaseBytes ++ (p.authPluginBytes ++ p.attrsBytes))

/-- **The message.** -/
def bytes : Packet :=
  leBytes 4 p.caps.toNat ++ (leBytes 4 p.maxPacketLen ++ ([p.collation] ++ (p.filler ++
    (p.user ++ 0 :: p.tail))))

/-- The database, if the flags have one. -/
def sentDatabase : Option Bytes :=
  if p.caps.contains .clientConnectWithDb then some p.database else none

/-- The plugin, empty if the flags have none. -/
def sentPlugin : Bytes := if p.caps.contains .clientPluginAuth then p.authPlugin else []

/-- What should be read: the fields with `m` as the table of the attributes, and no tenant yet. -/
def response (known : CapabilityFlags) (m : List (String × String)) : HandshakeResponse :=
  ⟨p.caps &&& known, p.maxPacketLen, p.collation.toNat, none, some p.user, p.authResponse, p.sentPlugin,
    p.sentDatabase, if p.caps.contains .clientConnectAttrs then some m else none⟩

end Sent41

/-- An old response, of which the lower half of the flags is sent. With a database the data of the
authentication end with a zero, without they are the rest. -/
structure Sent320 where
  caps : CapabilityFlags
  maxPacketLen : ℕ
  user : Bytes
  authResponse : Bytes
  database : Bytes
  protocol320 : ¬ caps.contains .clientProtocol41
  maxPacketLen_lt : maxPacketLen < 256 ^ 3
  user_nul : 0 ∉ user
  authResponse_nul : caps.contains .clientConnectWithDb → 0 ∉ authResponse
  database_nul : 0 ∉ database

namespace Sent320
variable (p : Sent320)

/-- The fields behind the user. -/
def tail : Bytes :=
  if p.caps.contains .clientConnectWithDb then p.authResponse ++ 0 :: (p.database ++ [0])
  else p.authResponse

/-- **The message.** -/
def bytes : Packet :=
  leBytes 2 p.caps.toNat ++ (leBytes 3 p.maxPacketLen ++ (p.user ++ 0 :: p.tail))

/-- The database, if the flags have one. -/
def sentDatabase : Option Bytes :=
  if p.caps.contains .clientConnectWithDb then some p.database else none

end Sent320

/-! ### The fields of a message -/

/-- A text ends with the first zero, and an empty one is refused. -/
theorem nulString_sent {s r r' t : Bytes} (hs : 0 ∉ s) :
    nulString (s ++ 0 :: r) = .ok (r', t) ↔ s ≠ [] ∧ t = s ∧ r' = r := by
  rw [nulString_eq_ok]
  constructor
  · rintro ⟨hne, hnot, he⟩
    obtain ⟨rfl, rfl⟩ := eq_of_append_zero hs hnot he
    exact ⟨hne, rfl, rfl⟩
  · rintro ⟨hne, rfl, rfl⟩
    exact ⟨hne, hs, rfl⟩

section Fields
variable {known : CapabilityFlags} (hk : Defined known) (p : Sent41)
include hk

/-- Data with a length in front are read with nothing left of them. -/
theorem authField_sent (hp : p.LengthPrefixed) (r : Bytes) :
    authField (p.caps &&& known) (p.authBytes ++ r) = .ok (r, p.authResponse) := by
  have hfits := p.authResponse_fits
  rw [authField_eq_ok, contains_and (hk _ (by simp)), contains_and (hk _ (by simp)), Sent41.authBytes]
  split_ifs at hfits ⊢ with h1 h2
  · exact ⟨_, number_lenenc hfits, by rw [lenencStr, List.append_assoc]⟩
  · exact ⟨_, UInt8.toNat_ofNat_of_lt hfits, rfl⟩
  · exact absurd hp (by simp [Sent41.LengthPrefixed, h1, h2])

/-- Data that end with a zero are read unless they are empty, and their zero is left. -/
theorem authField_terminated (hp : ¬ p.LengthPrefixed) {r r' a : Bytes} :
    authField (p.caps &&& known) (p.authBytes ++ r) = .ok (r', a) ↔
      p.authResponse ≠ [] ∧ a = p.authResponse ∧ r' = 0 :: r := by
  obtain ⟨h1, h2⟩ := not_or.mp hp
  have hnul := p.authResponse_fits
  rw [if_neg h1, if_neg h2] at hnul
  rw [authField_eq_ok, contains_and (hk _ (by simp)), contains_and (hk _ (by simp)), Sent41.authBytes,
    if_neg h1, if_neg h2, if_neg h1, if_neg h2, List.append_assoc, List.singleton_append]
  constructor
  · rintro ⟨hne, hnot, ⟨r'', rfl⟩, he⟩
    obtain ⟨rfl, rfl⟩ := eq_of_append_zero hnul hnot he
    exact ⟨hne, rfl, rfl⟩
  · rintro ⟨hne, rfl, rfl⟩
    exact ⟨hne, hnul, ⟨r, rfl⟩, rfl⟩

theorem dbField_sent {r r' : Bytes} {d : Option Bytes} :
    dbField (p.caps &&& known) (p.databaseBytes ++ r) = .ok (r', d) ↔
      (p.caps.contains .clientConnectWithDb → p.database ≠ []) ∧ d = p.sentDatabase ∧ r' = r := by
  rw [dbField, contains_and (hk _ (by simp)), Sent41.databaseBytes, Sent41.sentDatabase]
  by_cases hf : p.caps.contains .clientConnectWithDb
  · have hne : p.database ++ [0] ++ r ≠ [] := by simp
    simp only [hf, if_true, true_and, if_pos hne, forall_true_left]
    rw [List.append_assoc, List.singleton_append, bind_eq_ok]
    constructor
    · rintro ⟨⟨j, s⟩, hs, he⟩
      obtain ⟨hd, rfl, rfl⟩ := (nulString_sent p.database_nul).mp hs
      cases he
      exact ⟨hd, rfl, rfl⟩
    · rintro ⟨hd, rfl, rfl⟩
      exact ⟨_, (nulString_sent p.database_nul).mpr ⟨hd, rfl, rfl⟩, rfl⟩
  · simp [hf, pure, Except.pure, and_comm, eq_comm]

theorem pluginField_sent {r r' s : Bytes} :
    pluginField (p.caps &&& known) (p.authPluginBytes ++ r) = .ok (r', s) ↔
      (p.caps.contains .clientPluginAuth → p.authPlugin ≠ []) ∧ s = p.sentPlugin ∧ r' = r := by
  rw [pluginField, contains_and (hk _ (by simp)), Sent41.authPluginBytes, Sent41.sentPlugin]
  by_cases hf : p.caps.contains .clientPluginAuth
  · have hne : p.authPlugin ++ [0] ++ r ≠ [] := by simp
    simp only [hf, if_true, true_and, if_pos hne, forall_true_left]
    rw [List.append_assoc, List.singleton_append]
    exact nulString_sent p.authPlugin_nul
  · simp [hf, pure, Except.pure, and_comm, eq_comm]

theorem attrsField_sent (r : Bytes) : ∃ m, IsTable m p.attrs ∧
    attrsField (p.caps &&& known) (p.attrsBytes ++ r) =
      .ok (r, if p.caps.contains .clientConnectAttrs then some m else none) := by
  obtain ⟨m, hm, htable⟩ := attributes_attrsData p.attrs _ le_rfl p.attrs_fit .nil
  refine ⟨m, htable, ?_⟩
  rw [attrsField, contains_and (hk _ (by simp)), Sent41.attrsBytes]
  by_cases hf : p.caps.contains .clientConnectAttrs
  · have hne : lenencStr (attrsData p.attrs) ++ r ≠ [] := by simp [lenencStr, lenenc_ne_nil]
    simp only [hf, if_true, true_and, if_pos hne]
    refine bind_eq_ok.mpr ⟨_, readLengthEncodedString_lenencStr p.attrs_fit r, ?_⟩
    exact bind_eq_ok.mpr ⟨m, hm, rfl⟩
  · simp [hf, pure, Except.pure]

end Fields

/-! ### What is read of a message -/

theorem request_iff {p : Sent41} {isAfterTls : Bool} :
    (!isAfterTls && p.caps.contains .clientSsl) = true ↔ ¬ (p.caps.contains .clientSsl → isAfterTls) := by
  cases isAfterTls <;> simp

section Read
variable {known : CapabilityFlags} (hk : Defined known) (p : Sent41)
include hk

/-- The message comes down to its user and its tail, unless it asks for encryption. -/
theorem clientHandshakeResponse_sent41 (rest : Bytes) (isAfterTls : Bool) :
    clientHandshakeResponse known (p.bytes ++ rest) isAfterTls =
      if !isAfterTls && p.caps.contains .clientSsl then
        .ok (p.user ++ 0 :: (p.tail ++ rest), ⟨p.caps &&& known, p.maxPacketLen, p.collation.toNat, none,
          none, [], [], none, none⟩)
      else nulString (p.user ++ 0 :: (p.tail ++ rest)) >>= fun u =>
        handshakeTail (p.caps &&& known) p.maxPacketLen p.collation.toNat (some u.2) u.1 := by
  have hbytes : p.bytes ++ rest = leBytes 4 p.caps.toNat ++ (leBytes 4 p.maxPacketLen ++
      ([p.collation] ++ (p.filler ++ (p.user ++ 0 :: (p.tail ++ rest))))) := by
    simp only [Sent41.bytes, List.append_assoc, List.cons_append]
  have hm : leNat (leBytes 4 p.maxPacketLen) = p.maxPacketLen := leNat_leBytes p.maxPacketLen_lt
  have hc : leNat [p.collation] = p.collation.toNat := by simp [leNat]
  rw [hbytes, clientHandshakeResponse_flags hk p.protocol41,
    handshakeResponse41_fixed known _ (length_leBytes 2 _) (length_leBytes 4 _) rfl p.length_filler,
    flags41_leBytes, contains_and (hk .clientSsl (by simp)), hm, hc]

/-- The tail behind a length in front of the data of the authentication. -/
theorem handshakeTail_sent (hp : p.LengthPrefixed)
    (hdb : p.caps.contains .clientConnectWithDb → p.database ≠ [])
    (hplugin : p.caps.contains .clientPluginAuth → p.authPlugin ≠ []) (rest : Bytes) :
    ∃ m, IsTable m p.attrs ∧ handshakeTail (p.caps &&& known) p.maxPacketLen p.collation.toNat
      (some p.user) (p.tail ++ rest) = .ok (rest, p.response known m) := by
  obtain ⟨m, hm, hattrs⟩ := attrsField_sent hk p rest
  refine ⟨m, hm, ?_⟩
  have htail : p.tail ++ rest =
      p.authBytes ++ (p.databaseBytes ++ (p.authPluginBytes ++ (p.attrsBytes ++ rest))) := by
    simp only [Sent41.tail, List.append_assoc]
  rw [handshakeTail_eq, htail]
  refine bind_eq_ok.mpr ⟨_, authField_sent hk p hp _, ?_⟩
  refine bind_eq_ok.mpr ⟨_, (dbField_sent hk p).mpr ⟨hdb, rfl, rfl⟩, ?_⟩
  refine bind_eq_ok.mpr ⟨_, (pluginField_sent hk p).mpr ⟨hplugin, rfl, rfl⟩, ?_⟩
  exact bind_eq_ok.mpr ⟨_, hattrs, rfl⟩

/-- **Every field is read back**, the last value of a repeated key among the attributes, and what
follows the message is left. -/
theorem clientHandshakeResponse_sent (hp : p.LengthPrefixed) {isAfterTls : Bool}
    (htls : p.caps.contains .clientSsl → isAfterTls) (huser : p.user ≠ [])
    (hdb : p.caps.contains .clientConnectWithDb → p.database ≠ [])
    (hplugin : p.caps.contains .clientPluginAuth → p.authPlugin ≠ []) (rest : Bytes) :
    ∃ m, IsTable m p.attrs ∧
      clientHandshakeResponse known (p.bytes ++ rest) isAfterTls = .ok (rest, p.response known m) := by
  obtain ⟨m, hm, htail⟩ := handshakeTail_sent hk p hp hdb hplugin rest
  refine ⟨m, hm, ?_⟩
  rw [clientHandshakeResponse_sent41 hk p rest, if_neg (mt request_iff.mp (not_not.mpr htls))]
  exact bind_eq_ok.mpr ⟨_, (nulString_sent p.user_nul).mpr ⟨huser, rfl, rfl⟩, htail⟩

end Read

/-- A login behind TLS with all fields, and a key twice among its attributes. -/
def fullLogin : Sent41 where
  caps := 0x00380a08
  maxPacketLen := 2 ^ 24
  collation := 33
  filler := List.replicate 23 0
  user := utf8 "jon".toList
  authResponse := [1, 2, 3, 4]
  database := utf8 "store".toList
  authPlugin := utf8 "caching_sha2_password".toList
  attrs := [("_os", "Linux"), ("_pid", "7"), ("_os", "Plan 9")]
  protocol41 := by decide
  maxPacketLen_lt := by decide
  length_filler := by decide
  user_nul := by decide
  authResponse_fits := by decide
  database_nul := by decide
  authPlugin_nul := by decide
  attrs_fit := by decide

theorem clientHandshakeResponse_sent_full : ∃ m, m.lookup "_os" = some "Plan 9" ∧
    clientHandshakeResponse (BitVec.allOnes 32) (fullLogin.bytes ++ [5]) true =
      .ok ([5], fullLogin.response (BitVec.allOnes 32) m) := by
  obtain ⟨m, hm, h⟩ := clientHandshakeResponse_sent defined_allOnes fullLogin (.inl (by decide))
    (fun _ => rfl) (by decide) (fun _ => by decide) (fun _ => by decide) [5]
  exact ⟨m, by rw [hm.lookup]; decide, h⟩

/-! ### Which messages are read as they were sent -/

/-- A packet is read, with these texts. -/
def ReadBack (known : CapabilityFlags) (isAfterTls : Bool) (pkt : Packet) (user authResponse : Bytes)
    (database : Option Bytes) (authPlugin : Bytes) : Prop :=
  ∃ r h, clientHandshakeResponse known pkt isAfterTls = .ok (r, h) ∧ h.username = some user ∧
    h.authResponse = authResponse ∧ h.database = database ∧ h.authPlugin = authPlugin

/-- **Which messages are read as they were sent**: they ask for no encryption, the user is not empty,
and neither is a text behind data with a length in front; behind data that end with a zero there is
none. -/
structure Sent41.Readable (isAfterTls : Bool) (p : Sent41) : Prop where
  noRequest : p.caps.contains .clientSsl → isAfterTls
  user : p.user ≠ []
  texts : if p.LengthPrefixed then (p.caps.contains .clientConnectWithDb → p.database ≠ []) ∧
      (p.caps.contains .clientPluginAuth → p.authPlugin ≠ [])
    else p.authResponse ≠ [] ∧ ¬ p.caps.contains .clientConnectWithDb ∧
      ¬ p.caps.contains .clientPluginAuth

theorem nulString_zero (r : Bytes) (x : Bytes × Bytes) : nulString (0 :: r) ≠ .ok x := by
  intro h
  obtain ⟨hne, hnot, he⟩ := nulString_eq_ok.mp h
  cases hs : x.2 with
  | nil => exact hne hs
  | cons b s =>
    rw [hs] at hnot he
    obtain ⟨rfl, -⟩ := List.cons.inj he
    exact hnot (by simp)

section Read
variable {known : CapabilityFlags} (hk : Defined known) (p : Sent41)
include hk

/-- Behind data that end with a zero, the zero is what the next field begins with. -/
theorem handshakeTail_terminated (hp : ¬ p.LengthPrefixed) :
    (∃ r h, handshakeTail (p.caps &&& known) p.maxPacketLen p.collation.toNat (some p.user) p.tail =
      .ok (r, h) ∧ h.username = some p.user ∧ h.authResponse = p.authResponse ∧
        h.database = p.sentDatabase ∧ h.authPlugin = p.sentPlugin) ↔
      p.authResponse ≠ [] ∧ ¬ p.caps.contains .clientConnectWithDb ∧
        ¬ p.caps.contains .clientPluginAuth := by
  have hdbFlag : (p.caps &&& known).contains .clientConnectWithDb =
      p.caps.contains .clientConnectWithDb := contains_and (hk _ (by simp))
  have hpluginFlag : (p.caps &&& known).contains .clientPluginAuth =
      p.caps.contains .clientPluginAuth := contains_and (hk _ (by simp))
  rw [handshakeTail_eq, Sent41.tail]
  constructor
  · rintro ⟨r, h, hr, -⟩
    obtain ⟨⟨i, a⟩, ha, hr₁⟩ := bind_eq_ok.mp hr
    obtain ⟨⟨j, d⟩, hd, hr₂⟩ := bind_eq_ok.mp hr₁
    obtain ⟨⟨k, s⟩, hs, -⟩ := bind_eq_ok.mp hr₂
    obtain ⟨hne, rfl, rfl⟩ := (authField_terminated hk p hp).mp ha
    have hnodb : ¬ p.caps.contains .clientConnectWithDb := by
      intro hf
      rw [dbField, hdbFlag, if_pos ⟨hf, by simp⟩] at hd
      obtain ⟨x, hx, -⟩ := bind_eq_ok.mp hd
      exact nulString_zero _ x hx
    rw [dbField, hdbFlag, if_neg (by simp [hnodb])] at hd
    cases hd
    refine ⟨hne, hnodb, fun hf => ?_⟩
    rw [pluginField, hpluginFlag, if_pos ⟨hf, by simp⟩] at hs
    exact nulString_zero _ _ hs
  · rintro ⟨hne, hnodb, hnoplugin⟩
    have hd : ∀ i, dbField (p.caps &&& known) i = .ok (i, none) := fun i => by
      rw [dbField, hdbFlag, if_neg (by simp [hnodb])]
      rfl
    have hs : ∀ i, pluginField (p.caps &&& known) i = .ok (i, []) := fun i => by
      rw [pluginField, hpluginFlag, if_neg (by simp [hnoplugin])]
      rfl
    -- the zero left over is an empty block of attributes
    obtain ⟨x, hx⟩ : ∃ x, attrsField (p.caps &&& known)
        (0 :: (p.databaseBytes ++ (p.authPluginBytes ++ p.attrsBytes))) = .ok x := by
      rw [attrsField_iff]
      exact fun _ => ⟨[0], [], _, .small 0 (by decide), .nil, rfl⟩
    refine ⟨x.1, ⟨p.caps &&& known, p.maxPacketLen, p.collation.toNat, none, some p.user, p.authResponse,
      [], none, x.2⟩, bind_eq_ok.mpr ⟨_, (authField_terminated hk p hp).mpr ⟨hne, rfl, rfl⟩, ?_⟩, rfl,
      rfl, ?_, ?_⟩
    · exact bind_eq_ok.mpr ⟨_, hd _, bind_eq_ok.mpr ⟨_, hs _, bind_eq_ok.mpr ⟨x, hx, rfl⟩⟩⟩
    · rw [Sent41.sentDatabase, if_neg hnodb]
    · rw [Sent41.sentPlugin, if_neg hnoplugin]

/-- The messages of the protocol 4.1. -/
theorem readBack_sent41 (isAfterTls : Bool) :
    ReadBack known isAfterTls p.bytes p.user p.authResponse p.sentDatabase p.sentPlugin ↔
      p.Readable isAfterTls := by
  have hmsg := clientHandshakeResponse_sent41 hk p [] isAfterTls
  rw [List.append_nil, List.append_nil] at hmsg
  rw [ReadBack, hmsg]
  constructor
  · rintro ⟨r, h, hr, hread⟩
    split_ifs at hr with hssl
    · cases hr
      cases hread.1
    obtain ⟨⟨i, u⟩, hu, hr₁⟩ := bind_eq_ok.mp hr
    obtain ⟨huser, rfl, rfl⟩ := (nulString_sent p.user_nul).mp hu
    refine ⟨not_not.mp (mt request_iff.mpr hssl), huser, ?_⟩
    split_ifs with hp
    · rw [handshakeTail_eq, Sent41.tail] at hr₁
      obtain ⟨a, ha, hr₂⟩ := bind_eq_ok.mp hr₁
      rw [authField_sent hk p hp] at ha
      cases ha
      obtain ⟨⟨j, d⟩, hd, hr₃⟩ := bind_eq_ok.mp hr₂
      obtain ⟨hdb, rfl, rfl⟩ := (dbField_sent hk p).mp hd
      obtain ⟨⟨k, s⟩, hs, -⟩ := bind_eq_ok.mp hr₃
      exact ⟨hdb, ((pluginField_sent hk p).mp hs).1⟩
    · exact (handshakeTail_terminated hk p hp).mp ⟨r, h, hr₁, hread⟩
  · rintro ⟨htls, huser, htexts⟩
    have hn := (nulString_sent (r := p.tail) p.user_nul).mpr ⟨huser, rfl, rfl⟩
    rw [if_neg (mt request_iff.mp (not_not.mpr htls))]
    split_ifs at htexts with hp
    · obtain ⟨m, -, htail⟩ := handshakeTail_sent hk p hp htexts.1 htexts.2 []
      rw [List.append_nil] at htail
      exact ⟨[], _, bind_eq_ok.mpr ⟨_, hn, htail⟩, rfl, rfl, rfl, rfl⟩
    · obtain ⟨r, h, htail, hread⟩ := (handshakeTail_terminated hk p hp).mpr htexts
      exact ⟨r, h, bind_eq_ok.mpr ⟨_, hn, htail⟩, hread⟩

end Read

/-- The old messages: a database is expected to be a zero, and so is everything around it. -/
theorem readBack_sent320 {known : CapabilityFlags} (hk : Defined known) (p : Sent320)
    (isAfterTls : Bool) :
    ReadBack known isAfterTls p.bytes p.user p.authResponse p.sentDatabase [] ↔
      p.user ≠ [] ∧ ¬ p.caps.contains .clientConnectWithDb := by
  have h41 : ¬ (flags320 known (leBytes 2 p.caps.toNat)).contains .clientProtocol41 := by
    rw [contains_flags320 (hk .clientProtocol41 (by simp)) (by decide)]
    exact p.protocol320
  obtain ⟨m, he⟩ := handshakeResponse320_append (flags320 known (leBytes 2 p.caps.toNat))
    (length_leBytes 3 p.maxPacketLen) (p.user ++ 0 :: p.tail)
  rw [contains_flags320 (hk .clientConnectWithDb (by simp)) (by decide)] at he
  rw [ReadBack, Sent320.bytes, clientHandshakeResponse_append known (length_leBytes 2 _), if_neg h41, he]
  constructor
  · rintro ⟨r, h, hr, -, hauth, -⟩
    obtain ⟨⟨i, u⟩, hu, hr₁⟩ := bind_eq_ok.mp hr
    refine ⟨((nulString_sent p.user_nul).mp hu).1, fun hdb => ?_⟩
    rw [if_pos hdb] at hr₁
    obtain ⟨⟨i₁, a⟩, ha, hr₂⟩ := bind_eq_ok.mp hr₁
    obtain ⟨x, -, hr₃⟩ := bind_eq_ok.mp hr₂
    obtain ⟨y, -, hr₄⟩ := bind_eq_ok.mp hr₃
    obtain ⟨z, -, hr₅⟩ := bind_eq_ok.mp hr₄
    cases hr₅
    -- a zero is read in the place of the data of the authentication
    obtain ⟨-, rfl⟩ := literal_eq_ok.mp ha
    have hnul := p.authResponse_nul hdb
    rw [← hauth] at hnul
    exact hnul (by simp)
  · rintro ⟨huser, hdb⟩
    refine ⟨[], ⟨flags320 known (leBytes 2 p.caps.toNat), m, 0, none, some p.user, p.authResponse, [],
      none, none⟩, ?_, rfl, rfl, ?_, rfl⟩
    · refine bind_eq_ok.mpr ⟨_, (nulString_sent p.user_nul).mpr ⟨huser, rfl, rfl⟩, ?_⟩
      rw [if_neg hdb, Sent320.tail, if_neg hdb]
      rfl
    · rw [Sent320.sentDatabase, if_neg hdb]

/-- **Which messages are read as they were sent.** -/
theorem readBack_iff {known : CapabilityFlags} (hk : Defined known) (isAfterTls : Bool) :
    (∀ p : Sent41, ReadBack known isAfterTls p.bytes p.user p.authResponse p.sentDatabase p.sentPlugin ↔
      p.Readable isAfterTls) ∧
    (∀ p : Sent320, ReadBack known isAfterTls p.bytes p.user p.authResponse p.sentDatabase [] ↔
      p.user ≠ [] ∧ ¬ p.caps.contains .clientConnectWithDb) :=
  ⟨fun p => readBack_sent41 hk p isAfterTls, fun p => readBack_sent320 hk p isAfterTls⟩

/-- A login with nothing but a user and data that end with a zero. -/
def plainLogin : Sent41 := { fullLogin with
  caps := 0x00000200, protocol41 := by decide, authResponse_fits := by decide }

/-- The same with the database. -/
def storeLogin : Sent41 := { fullLogin with
  caps := 0x00000208, protocol41 := by decide, authResponse_fits := by decide }

/-- A login without a name, with a length in front of its data. -/
def namelessLogin : Sent41 := { fullLogin with
  caps := 0x00008200, user := utf8 "".toList, protocol41 := by decide, user_nul := by decide,
  authResponse_fits := by decide }

/-- An old login with a database. -/
def oldLogin : Sent320 where
  caps := 0x0008
  maxPacketLen := 2 ^ 16
  user := utf8 "jon".toList
  authResponse := [1, 2, 3, 4]
  database := utf8 "store".toList
  protocol320 := by decide
  maxPacketLen_lt := by decide
  user_nul := by decide
  authResponse_nul := by decide
  database_nul := by decide

theorem readBack_plain : ReadBack (BitVec.allOnes 32) false plainLogin.bytes plainLogin.user
    plainLogin.authResponse none [] :=
  ((readBack_iff defined_allOnes false).1 plainLogin).mpr ⟨by decide, by decide, by decide⟩

/-- Each of the other layouts has a message that is not read as it was sent. -/
theorem layouts_not_readBack :
    ¬ ReadBack (BitVec.allOnes 32) false storeLogin.bytes storeLogin.user storeLogin.authResponse
      storeLogin.sentDatabase storeLogin.sentPlugin ∧
    ¬ ReadBack (BitVec.allOnes 32) false oldLogin.bytes oldLogin.user oldLogin.authResponse
      oldLogin.sentDatabase [] ∧
    ¬ ReadBack (BitVec.allOnes 32) false namelessLogin.bytes namelessLogin.user
      namelessLogin.authResponse namelessLogin.sentDatabase namelessLogin.sentPlugin := by
  refine ⟨?_, ?_, ?_⟩
  · rw [readBack_sent41 defined_allOnes]
    intro h
    have htexts := h.texts
    rw [if_neg (by decide)] at htexts
    exact htexts.2.1 (by decide)
  · rw [readBack_sent320 defined_allOnes]
    exact fun h => h.2 (by decide)
  · rw [readBack_sent41 defined_allOnes]
    exact fun h => h.user rfl

end Haentgl.Server.Logins
