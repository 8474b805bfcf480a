import Haentgl.Protocol.Handshake
import Haentgl.Backend.Manager
import Haentgl.Server.Proxy

/-! # The tenant in a user's name

With the tenants switched on, a user's name is the text of a tenant's key, a dot and the name proper.
The text may hold dots itself, so the name is split at its last one (`changeTenantIfNeed_dot`); the part
in front decides about the router, the part behind it is what the backend hears.

A `Login41` is everything in a client's packet but the user: the fields that its capabilities ask for,
one behind the other. Its texts may be empty and its attributes any bytes; `routed_iff` says that the
packets for which this works are those without empty texts and with attributes in UTF-8. -/

namespace Haentgl.Server.Tenants

open Haentgl.Lib.Parse Haentgl.Lib.Text Haentgl.Lib.Program Haentgl.Protocol.Constants
open Haentgl.Protocol.Io Haentgl.Protocol.Packets Haentgl.Protocol.Basic Haentgl.Protocol.Handshake
open Haentgl.Backend.Keys Haentgl.Backend.Manager Haentgl.Server.Links Haentgl.Server.Proxy

/-! ### The split at the last dot -/

/-- The part in front of the last dot is the tenant, the part behind it the user. -/
theorem changeTenantIfNeed_dot {h : HandshakeResponse} {t u : Bytes}
    (hn : h.username = some (t ++ 0x2e :: u)) (hu : 0x2e ∉ u) :
    h.changeTenantIfNeed true = { h with tenantKey := some t, username := some u } := by
  have hmem : (0x2e : UInt8) ∈ t ++ 0x2e :: u := by simp
  have hidx : (t ++ 0x2e :: u).reverse.idxOf 0x2e = u.length := by
    rw [List.reverse_append, List.reverse_cons, List.append_assoc, List.singleton_append,
      List.idxOf_append_of_notMem (by simpa using hu), List.idxOf_cons_self, List.length_reverse]
    rfl
  have hpos : (t ++ 0x2e :: u).length - 1 - u.length = t.length := by
    simp only [List.length_append, List.length_cons]
    omega
  have hdrop : (t ++ 0x2e :: u).drop (t.length + 1) = u := by
    rw [List.drop_append, List.drop_eq_nil_of_le (by omega)]
    simp
  rw [HandshakeResponse.changeTenantIfNeed, if_pos rfl, hn]
  simp only [if_pos hmem, hidx, hpos, List.take_left, hdrop]

theorem changeTenantIfNeed_of_notMem {h : HandshakeResponse} (isNotStatic : Bool)
    (hn : ∀ n ∈ h.username, 0x2e ∉ n) : h.changeTenantIfNeed isNotStatic = h := by
  unfold HandshakeResponse.changeTenantIfNeed
  cases hu : h.username with
  | none => simp
  | some n => simp [hn n hu]

/-- A name with a dot has a last one. -/
theorem exists_last_dot : ∀ {n : Bytes}, 0x2e ∈ n → ∃ t u, n = t ++ 0x2e :: u ∧ 0x2e ∉ u
  | x :: n, h => by
    by_cases hn : 0x2e ∈ n
    · obtain ⟨t, u, rfl, hu⟩ := exists_last_dot hn
      exact ⟨x :: t, u, rfl, hu⟩
    · rcases List.mem_cons.mp h with rfl | hmem
      · exact ⟨[], n, rfl, hn⟩
      · exact absurd hmem hn

/-! ### The packets of a login -/

/-- The other crate defines the flags that say which fields a packet has. -/
def Defined (known : CapabilityFlags) : Prop :=
  ∀ f ∈ [CapabilityFlags.clientProtocol41, .clientSsl, .clientPluginAuthLenencClientData,
    .clientSecureConnection, .clientConnectWithDb, .clientPluginAuth, .clientConnectAttrs],
    known.contains f

theorem defined_allOnes : Defined (BitVec.allOnes 32) := fun f _ => by
  rw [CapabilityFlags.contains, BitVec.allOnes_and, beq_self_eq_true]

/-- A packet of the protocol 4.1 that asks for no encryption and has a length in front of the data of
the authentication: everything but the user. -/
structure Login41 where
  caps : CapabilityFlags
  /-- The largest packet, the collation and the filler. -/
  fixed : Bytes
  authResponse : Bytes
  database : Bytes
  authPlugin : Bytes
  attrs : List (Bytes × Bytes)
  /-- Whatever follows. -/
  rest : Bytes
  protocol41 : caps.contains .clientProtocol41
  noSsl : ¬ caps.contains .clientSsl
  length_fixed : fixed.length = 28
  length_auth : if caps.contains .clientPluginAuthLenencClientData then authResponse.length < 256 ^ 8
    else caps.contains .clientSecureConnection ∧ authResponse.length < 256
  database_nul : 0 ∉ database
  authPlugin_nul : 0 ∉ authPlugin
  length_attrs : ∀ kv ∈ attrs, kv.1.length < 256 ^ 8 ∧ kv.2.length < 256 ^ 8
  length_data : (attrs.flatMap fun kv => lenencStr kv.1 ++ lenencStr kv.2).length < 256 ^ 8

namespace Login41
variable (p : Login41)

def authBytes : Bytes :=
  if p.caps.contains .clientPluginAuthLenencClientData then lenencStr p.authResponse
  else UInt8.ofNat p.authResponse.length :: p.authResponse

def databaseBytes : Bytes :=
  if p.caps.contains .clientConnectWithDb then p.database ++ [0] else []

def authPluginBytes : Bytes :=
  if p.caps.contains .clientPluginAuth then p.authPlugin ++ [0] else []

def attrsData : Bytes := p.attrs.flatMap fun kv => lenencStr kv.1 ++ lenencStr kv.2

def attrsBytes : Bytes :=
  if p.caps.contains .clientConnectAttrs then lenencStr p.attrsData else []

/-- The fields behind the user. -/
def tail : Bytes := p.authBytes ++ (p.databaseBytes ++ (p.authPluginBytes ++ (p.attrsBytes ++ p.rest)))

/-- The packet for a user. -/
def bytes (user : Bytes) : Packet := leBytes 4 p.caps.toNat ++ (p.fixed ++ (user ++ 0 :: p.tail))

/-- What the parser wants: no text that is there is empty, and the attributes are UTF-8. -/
structure Readable : Prop where
  database : p.caps.contains .clientConnectWithDb → p.database ≠ []
  authPlugin : p.caps.contains .clientPluginAuth → p.authPlugin ≠ []
  attrs : p.caps.contains .clientConnectAttrs → ∀ kv ∈ p.attrs, IsText kv.1 ∧ IsText kv.2

end Login41

/-! ### Flags -/

theorem contains_and {caps known f : CapabilityFlags} (h : known.contains f) :
    (caps &&& known).contains f = caps.contains f := by
  have hk : known &&& f = f := by simpa [CapabilityFlags.contains] using h
  rw [CapabilityFlags.contains, CapabilityFlags.contains, BitVec.and_assoc, hk]

theorem leBytes_four (n : ℕ) : leBytes 4 n = leBytes 2 n ++ leBytes 2 (n / 2 ^ 16) := by
  have h1 : n / 256 / 256 = n / 2 ^ 16 := Nat.div_div_eq_div_mul n 256 256
  simp only [leBytes, h1]
  rfl

theorem leNat_leBytes_two (n : ℕ) : leNat (leBytes 2 n) = n % 2 ^ 16 := by
  simp only [leBytes, leNat, UInt8.toNat_ofNat']
  omega

theorem flags41_leBytes (known caps : CapabilityFlags) :
    flags41 known (leBytes 2 caps.toNat) (leBytes 2 (caps.toNat / 2 ^ 16)) = caps &&& known := by
  have hlt := caps.isLt
  have hn : caps.toNat / 2 ^ 16 % 2 ^ 16 * 2 ^ 16 + caps.toNat % 2 ^ 16 = caps.toNat := by omega
  rw [flags41, leNat_leBytes_two, leNat_leBytes_two, hn, BitVec.ofNat_toNat, BitVec.setWidth_eq]

/-- The flags of the lower half of a word do not depend on the upper one. -/
theorem contains_flags320 {known f : CapabilityFlags} (hk : known.contains f)
    (hf : CapabilityFlags.contains 0xffff f) (caps : CapabilityFlags) :
    (flags320 known (leBytes 2 caps.toNat)).contains f = caps.contains f := by
  have hlow : BitVec.ofNat 32 (caps.toNat % 2 ^ 16) = caps &&& 0xffff := by
    apply BitVec.eq_of_toNat_eq
    have hand : (caps &&& 0xffff).toNat = caps.toNat &&& (2 ^ 16 - 1) := BitVec.toNat_and ..
    rw [hand, Nat.and_two_pow_sub_one_eq_mod, BitVec.toNat_ofNat]
    omega
  rw [flags320, leNat_leBytes_two, hlow, contains_and hk, contains_and hf]

/-! ### Which packets of a login are read -/

theorem number_lenenc {n : ℕ} (h : n < 256 ^ 8) : Number (lenenc n) n := by
  obtain ⟨b, hb, he⟩ := readLengthEncodedNumber_eq_ok.mp (readLengthEncodedNumber_lenenc h [])
  rw [List.append_nil, List.append_nil] at he
  rw [he]
  exact hb

theorem lenencStr_eq {t r b s r' : Bytes} (ht : t.length < 256 ^ 8) (hb : Number b s.length)
    (he : lenencStr t ++ r = b ++ (s ++ r')) : s = t ∧ r' = r := by
  have h₁ : readLengthEncodedString (lenencStr t ++ r) = .ok (r', s) :=
    readLengthEncodedString_eq_ok.mpr ⟨b, hb, he⟩
  have h₂ : readLengthEncodedString (lenencStr t ++ r) = .ok (r, t) :=
    readLengthEncodedString_eq_ok.mpr ⟨_, number_lenenc ht, by simp [lenencStr]⟩
  rw [h₁] at h₂
  cases h₂
  exact ⟨rfl, rfl⟩

/-- The first zero ends a text. -/
theorem eq_of_append_zero {s t r r' : Bytes} (hs : 0 ∉ s) (ht : 0 ∉ t)
    (h : s ++ 0 :: r = t ++ 0 :: r') : s = t ∧ r = r' := by
  have hidx := congrArg (List.idxOf 0) h
  rw [List.idxOf_append_of_notMem hs, List.idxOf_append_of_notMem ht, List.idxOf_cons_self,
    List.idxOf_cons_self] at hidx
  obtain ⟨hst, hr⟩ := List.append_inj h hidx
  exact ⟨hst, (List.cons.inj hr).2⟩

/-- A text with a zero behind it, if there is one, is read unless it is empty. -/
theorem nulField_iff {flag : Prop} [Decidable flag] {P : Bytes → Prop} {s r : Bytes} (hs : 0 ∉ s) :
    (if flag ∧ (if flag then s ++ [0] else []) ++ r ≠ [] then
      ∃ t rest, t ≠ [] ∧ 0 ∉ t ∧ (if flag then s ++ [0] else []) ++ r = t ++ 0 :: rest ∧ P rest
    else P ((if flag then s ++ [0] else []) ++ r)) ↔ (flag → s ≠ []) ∧ P r := by
  by_cases hf : flag
  · have hne : s ++ [0] ++ r ≠ [] := by simp
    simp only [hf, if_true, true_and, if_pos hne, forall_true_left]
    constructor
    · rintro ⟨t, rest, ht, hnot, he, hP⟩
      rw [List.append_assoc, List.singleton_append] at he
      obtain ⟨rfl, rfl⟩ := eq_of_append_zero hs hnot he
      exact ⟨ht, hP⟩
    · rintro ⟨hne, hP⟩
      exact ⟨s, r, hne, hs, by simp, hP⟩
  · simp [hf]

/-- Pairs are attributes if their texts are. -/
theorem attributes_flatMap : ∀ {l : List (Bytes × Bytes)},
    (∀ kv ∈ l, kv.1.length < 256 ^ 8 ∧ kv.2.length < 256 ^ 8) →
      (Attributes (l.flatMap fun kv => lenencStr kv.1 ++ lenencStr kv.2) ↔
        ∀ kv ∈ l, IsText kv.1 ∧ IsText kv.2)
  | [], _ => ⟨fun _ => by simp, fun _ => .nil⟩
  | (k, v) :: l, h => by
    obtain ⟨hk, hv⟩ := h (k, v) (by simp)
    have ih := attributes_flatMap (l := l) fun kv hkv => h kv (List.mem_cons_of_mem _ hkv)
    rw [List.flatMap_cons, List.forall_mem_cons, ← ih, List.append_assoc]
    generalize (l.flatMap fun kv => lenencStr kv.1 ++ lenencStr kv.2) = d
    constructor
    · intro ha
      generalize he : lenencStr k ++ (lenencStr v ++ d) = i at ha
      cases ha with
      | nil =>
        have hnil := (List.append_eq_nil_iff.mp (List.append_eq_nil_iff.mp he).1).1
        exact absurd hnil (lenenc_ne_nil _)
      | cons bk k' bv v' rest hbk hbv hkt hvt hrest =>
        obtain ⟨rfl, he'⟩ := lenencStr_eq hk hbk he
        obtain ⟨rfl, rfl⟩ := lenencStr_eq hv hbv he'.symm
        exact ⟨⟨hkt, hvt⟩, hrest⟩
    · rintro ⟨⟨hkt, hvt⟩, hd⟩
      have hbytes : lenencStr k ++ (lenencStr v ++ d) =
          lenenc k.length ++ (k ++ (lenenc v.length ++ (v ++ d))) := by simp [lenencStr]
      rw [hbytes]
      exact .cons _ k _ v d (number_lenenc hk) (number_lenenc hv) hkt hvt hd

section Read
variable {known : CapabilityFlags} (hk : Defined known) (p : Login41)
include hk

theorem authPart_iff (r : Bytes) :
    AuthPart (p.caps &&& known) (p.authBytes ++ r) ↔ DbPart (p.caps &&& known) r := by
  have hlen := p.length_auth
  have hauth : authField (p.caps &&& known) (p.authBytes ++ r) = .ok (r, p.authResponse) := by
    rw [authField_eq_ok, contains_and (hk _ (by simp)), contains_and (hk _ (by simp)),
      Login41.authBytes]
    split_ifs at hlen ⊢ with h1 h2
    · exact ⟨_, number_lenenc hlen, by simp [lenencStr]⟩
    · exact ⟨_, UInt8.toNat_ofNat_of_lt hlen.2, rfl⟩
    · exact absurd hlen.1 h2
  rw [← authField_iff, hauth]
  simp

theorem dbPart_iff (r : Bytes) : DbPart (p.caps &&& known) (p.databaseBytes ++ r) ↔
    (p.caps.contains .clientConnectWithDb → p.database ≠ []) ∧ PluginPart (p.caps &&& known) r := by
  rw [DbPart, contains_and (hk _ (by simp)), Login41.databaseBytes]
  exact nulField_iff p.database_nul

theorem pluginPart_iff (r : Bytes) : PluginPart (p.caps &&& known) (p.authPluginBytes ++ r) ↔
    (p.caps.contains .clientPluginAuth → p.authPlugin ≠ []) ∧ AttrsPart (p.caps &&& known) r := by
  rw [PluginPart, contains_and (hk _ (by simp)), Login41.authPluginBytes]
  exact nulField_iff p.authPlugin_nul

theorem attrsPart_iff : AttrsPart (p.caps &&& known) (p.attrsBytes ++ p.rest) ↔
    (p.caps.contains .clientConnectAttrs → ∀ kv ∈ p.attrs, IsText kv.1 ∧ IsText kv.2) := by
  have hdata := attributes_flatMap p.length_attrs
  rw [AttrsPart, contains_and (hk _ (by simp)), Login41.attrsBytes, ← hdata]
  by_cases hf : p.caps.contains .clientConnectAttrs
  · have hne : lenencStr p.attrsData ++ p.rest ≠ [] := fun h =>
      absurd (List.append_eq_nil_iff.mp (List.append_eq_nil_iff.mp h).1).1 (lenenc_ne_nil _)
    simp only [hf, if_true, true_and, ne_eq, hne, not_false_eq_true, forall_true_left]
    constructor
    · rintro ⟨b, data, rest, hb, ha, he⟩
      obtain ⟨rfl, -⟩ := lenencStr_eq p.length_data hb he
      exact ha
    · intro ha
      exact ⟨_, p.attrsData, p.rest, number_lenenc p.length_data, ha, by simp [lenencStr]⟩
  · simp [hf]

theorem tail_iff : AuthPart (p.caps &&& known) p.tail ↔ p.Readable := by
  rw [Login41.tail, authPart_iff hk, dbPart_iff hk, pluginPart_iff hk, attrsPart_iff hk]
  exact ⟨fun ⟨hd, hp, ha⟩ => ⟨hd, hp, ha⟩, fun h => ⟨h.database, h.authPlugin, h.attrs⟩⟩

/-- The flags of a packet of the protocol 4.1 are taken off in two halves. -/
theorem clientHandshakeResponse_flags {caps : CapabilityFlags} (h41 : caps.contains .clientProtocol41)
    (i : Bytes) (isAfterTls : Bool) :
    clientHandshakeResponse known (leBytes 4 caps.toNat ++ i) isAfterTls =
      handshakeResponse41 known (leNat (leBytes 2 caps.toNat)) isAfterTls
        (leBytes 2 (caps.toNat / 2 ^ 16) ++ i) := by
  rw [leBytes_four, List.append_assoc, clientHandshakeResponse_append known (length_leBytes 2 _),
    contains_flags320 (hk .clientProtocol41 (by simp)) (by decide), if_pos h41]

/-- The packet of a login comes down to its tail. -/
theorem clientHandshakeResponse_bytes {user : Bytes} (hne : user ≠ []) (hnul : 0 ∉ user) :
    ∃ m c, clientHandshakeResponse known (p.bytes user) false =
      handshakeTail (p.caps &&& known) m c (some user) p.tail := by
  have hupper : (leBytes 2 (p.caps.toNat / 2 ^ 16)).length = 2 := length_leBytes 2 _
  have hssl : ¬ (p.caps &&& known).contains .clientSsl := by
    rw [contains_and (hk _ (by simp))]
    exact p.noSsl
  have hn : nulString (user ++ 0 :: p.tail) = .ok (p.tail, user) :=
    nulString_eq_ok.mpr ⟨hne, hnul, rfl⟩
  obtain ⟨m, c, he⟩ := handshakeResponse41_append known (leBytes 2 p.caps.toNat) hupper
    p.length_fixed (user ++ 0 :: p.tail)
  refine ⟨m, c, ?_⟩
  rw [Login41.bytes, clientHandshakeResponse_flags hk p.protocol41, he, flags41_leBytes, if_neg hssl,
    hn]
  rfl

theorem username_of_bytes {user r : Bytes} {h : HandshakeResponse} (hne : user ≠ [])
    (hnul : 0 ∉ user) (hr : clientHandshakeResponse known (p.bytes user) false = .ok (r, h)) :
    h.username = some user := by
  obtain ⟨m, c, he⟩ := clientHandshakeResponse_bytes hk p hne hnul
  rw [he] at hr
  exact (handshakeTail_user hr).1

/-- A packet is read if and only if it is readable. -/
theorem readable_iff {user : Bytes} (hne : user ≠ []) (hnul : 0 ∉ user) :
    (∃ r h, clientHandshakeResponse known (p.bytes user) false = .ok (r, h)) ↔ p.Readable := by
  obtain ⟨m, c, he⟩ := clientHandshakeResponse_bytes hk p hne hnul
  rw [he, ← tail_iff hk]
  exact handshakeTail_iff (p.caps &&& known) m c (some user) p.tail

end Read

/-! ### The login of a tenant's user -/

/-- The pool of the backend that the router selects for a tenant. -/
def poolOf (m : BackendMgr) (router : Router) (lb : BackendLoadBalancerType) (draw : ℕ)
    (tenant : TenantKey) : Except Stop ℕ := do
  let backendAddr ← router.selector draw tenant lb
  match m.beConnPool.lookup backendAddr with
  | some pool => return pool
  | none => .error (.io ⟨.notConnected, "no backend_addr found"⟩)

theorem connectToBackend_eq (b : Profile) (m : BackendMgr) (router : Router)
    (lb : BackendLoadBalancerType) (draw : ℕ) (h : HandshakeResponse) :
    connectToBackend b m router lb draw h = tenantOf b h >>= poolOf m router lb draw := rfl

/-- A packet is read, the router is asked for the tenant `k`, and both ways of naming the user to the
backend name `u`. -/
def Routed (S : Setup) (pkt : Packet) (k : TenantKey) (u : Bytes) : Prop :=
  ∃ r h h', clientHandshakeResponse S.mc.known pkt false = .ok (r, h) ∧
    h' = h.changeTenantIfNeed S.isNotStatic ∧
    (∀ m router lb draw, connectToBackend S.profile m router lb draw h' = poolOf m router lb draw k) ∧
    (∀ hp, S.mc.handshakePacket pkt = .ok hp → resetHandshakePlugin S.mc pkt h' =
      .ok (S.mc.serializeHandshake ⟨some hp.scrambleBuf, (8, 0, 36), some u, hp.dbName,
        some unKnowPlugin, hp.capabilities, hp.connectAttributes, h.maxPacketLen⟩)) ∧
    changeUserData S h' = S.mc.serializeChangeUser ⟨some u, none, h.database, some (45, some unKnowPlugin)⟩

/-- Whoever names the text of a key and a user without a dot, is routed by the key. -/
theorem routed_of_ok {S : Setup} {pkt r : Bytes} {h : HandshakeResponse} {k : TenantKey} {text : String}
    {u : Bytes} (hsync : S.isNotStatic = true) (hk : decodeTenantKey S.profile text = some k)
    (hu : 0x2e ∉ u) (hr : clientHandshakeResponse S.mc.known pkt false = .ok (r, h))
    (hn : h.username = some (utf8 text.toList ++ 0x2e :: u)) : Routed S pkt k u := by
  have hdot := changeTenantIfNeed_dot hn hu
  refine ⟨r, h, _, hr, rfl, ?_, ?_, ?_⟩
  · intro m router lb draw
    have htenant : tenantOf S.profile (h.changeTenantIfNeed S.isNotStatic) = .ok k := by
      rw [hsync, hdot]
      exact tenantOf_text rfl hk
    rw [connectToBackend_eq, htenant]
    rfl
  · intro hp he
    rw [resetHandshakePlugin, he, hsync, hdot]
  · rw [changeUserData, hsync, hdot]

theorem decode_of_encode {b : Profile} {k : TenantKey} {text : String} (hsize : size k ≤ 255)
    (ht : encodeTenantKey b k = some text) : decodeTenantKey b text = some k := by
  unfold size offset at hsize
  have hk : Expressible k := ⟨by omega, by omega, by omega, by omega⟩
  have h := decode_encode (b := b) hk (by unfold offset; omega)
  rw [ht] at h
  exact h

/-- **The login of a tenant's user.** With the tenants switched on, a user behind the text of a key is
routed by the key, and named to the backend without it, if and only if the packet is readable. -/
theorem routed_iff {S : Setup} {p : Login41} {k : TenantKey} {text : String} {u : Bytes}
    (hknown : Defined S.mc.known) (hsync : S.isNotStatic = true) (hz : NulFree k) (hsize : size k ≤ 255)
    (ht : encodeTenantKey S.profile k = some text) (hdot : 0x2e ∉ u) (hnul : 0 ∉ u) :
    Routed S (p.bytes (utf8 text.toList ++ 0x2e :: u)) k u ↔ p.Readable := by
  have hne : utf8 text.toList ++ 0x2e :: u ≠ [] := by simp
  have hfree : 0 ∉ utf8 text.toList ++ 0x2e :: u := by
    simp [hnul, zero_notMem_encode hz ht]
  rw [← readable_iff hknown p hne hfree]
  constructor
  · rintro ⟨r, h, -, hr, -⟩
    exact ⟨r, h, hr⟩
  · rintro ⟨r, h, hr⟩
    have hn := username_of_bytes hknown p hne hfree hr
    exact routed_of_ok hsync (decode_of_encode hsize ht) hdot hr hn

/-- The setup of the examples, with the tenants switched on. -/
def syncSetup : Setup := { Setup.plain with isNotStatic := true }

/-- A login with a database, a plugin and an attribute. -/
def shopLogin : Login41 where
  caps := 0x003fa20f
  fixed := List.replicate 28 33
  authResponse := [1, 2, 3, 4]
  database := utf8 "shop".toList
  authPlugin := utf8 "mysql_native_password".toList
  attrs := [(utf8 "_os".toList, utf8 "Linux".toList)]
  rest := []
  protocol41 := by decide
  noSsl := by decide
  length_fixed := by decide
  length_auth := by decide
  database_nul := by decide
  authPlugin_nul := by decide
  length_attrs := by decide
  length_data := by decide

/-- The same with an empty database. -/
def noShopLogin : Login41 := { shopLogin with database := [], database_nul := by decide }

/-- A key with a dot in its region. -/
def dottedKey : TenantKey := ⟨"eu.1", "z", "n", "c"⟩

theorem shopLogin_routed : encodeTenantKey .release dottedKey = some "04010101uh.1pds" ∧
    Routed syncSetup (shopLogin.bytes (utf8 "04010101uh.1pds".toList ++ 0x2e :: [0x75])) dottedKey
      [0x75] := by
  have ht : encodeTenantKey .release dottedKey = some "04010101uh.1pds" := by decide
  have hz : NulFree dottedKey := ⟨by decide, by decide, by decide, by decide⟩
  have hknown : Defined syncSetup.mc.known := defined_allOnes
  have hread : shopLogin.Readable := by
    refine ⟨fun _ => by decide, fun _ => by decide, fun _ kv hkv => ?_⟩
    obtain rfl := List.mem_singleton.mp hkv
    exact ⟨⟨"_os", by decide⟩, ⟨"Linux", by decide⟩⟩
  exact ⟨ht, (routed_iff hknown rfl hz (by decide) ht (by decide) (by decide)).mpr hread⟩

/-- With an empty database the packet is not read, and the session panics. -/
theorem noShopLogin_not_routed : NulFree dottedKey ∧ size dottedKey ≤ 255 ∧
    encodeTenantKey .release dottedKey = some "04010101uh.1pds" ∧
    ¬ Routed syncSetup (noShopLogin.bytes (utf8 "04010101uh.1pds".toList ++ 0x2e :: [0x75])) dottedKey
      [0x75] := by
  have hknown : Defined syncSetup.mc.known := defined_allOnes
  refine ⟨⟨by decide, by decide, by decide, by decide⟩, by decide, by decide, ?_⟩
  rintro ⟨r, h, -, hr, -⟩
  have hread := (readable_iff hknown noShopLogin (by decide) (by decide)).mp ⟨r, h, hr⟩
  exact hread.database (by decide) rfl

end Haentgl.Server.Tenants
