import Haentgl.Protocol.Basic
import Haentgl.Lib.Text

/-! # The shapes of a client's handshake response

Which byte strings `client_handshake_response` accepts, as a grammar: an old response, a request for
encryption, or a response of the protocol 4.1 with a user, the data of the authentication and, as far as
the flags ask for them and bytes are left, a database, a plugin and the attributes of the connection.
The three texts have at least one byte, and the attributes are UTF-8.

`clientHandshakeResponse_iff` says that the parser accepts exactly the shapes, and with which user. -/

namespace Haentgl.Protocol.Handshake

open Haentgl.Lib.Parse Haentgl.Lib.Text Haentgl.Protocol.Constants Haentgl.Protocol.Basic

/-! ### Numbers, texts and attributes -/

/-- The encodings of a number that are read; `0xfb` stands for nothing. -/
inductive Number : Bytes → ℕ → Prop
  | small (x : UInt8) (h : x ∉ [0xfb, 0xfc, 0xfd, 0xfe]) : Number [x] x.toNat
  | null : Number [0xfb] 0
  | two (w : Bytes) (h : w.length = 2) : Number (0xfc :: w) (leNat w)
  | three (w : Bytes) (h : w.length = 3) : Number (0xfd :: w) (leNat w)
  | eight (w : Bytes) (h : w.length = 8) : Number (0xfe :: w) (leNat w)

/-- The bytes of a text. -/
def IsText (s : Bytes) : Prop := ∃ t : String, s = utf8 t.toList

/-- The pairs of the attributes, one behind the other. -/
inductive Attributes : Bytes → Prop
  | nil : Attributes []
  | cons (bk k bv v rest : Bytes) : Number bk k.length → Number bv v.length → IsText k → IsText v →
      Attributes rest → Attributes (bk ++ (k ++ (bv ++ (v ++ rest))))

theorem Number.ne_nil {b : Bytes} {n : ℕ} (h : Number b n) : b ≠ [] := by
  cases h <;> simp

/-- A number by its first byte. -/
theorem number_cons {x : UInt8} {j r : Bytes} {n : ℕ} :
    (∃ b, Number b n ∧ x :: j = b ++ r) ↔
      (x ∉ [0xfb, 0xfc, 0xfd, 0xfe] ∧ n = x.toNat ∧ j = r) ∨ (x = 0xfb ∧ n = 0 ∧ j = r) ∨
      (x = 0xfc ∧ leUint 2 j = .ok (r, n)) ∨ (x = 0xfd ∧ leUint 3 j = .ok (r, n)) ∨
      (x = 0xfe ∧ leUint 8 j = .ok (r, n)) := by
  simp only [leUint_eq_ok]
  constructor
  · rintro ⟨b, hb, he⟩
    cases hb with
    | small y h =>
      obtain ⟨rfl, rfl⟩ := List.cons.inj he
      exact .inl ⟨h, rfl, rfl⟩
    | null =>
      obtain ⟨rfl, rfl⟩ := List.cons.inj he
      exact .inr (.inl ⟨rfl, rfl, rfl⟩)
    | two w h =>
      obtain ⟨rfl, rfl⟩ := List.cons.inj he
      exact .inr (.inr (.inl ⟨rfl, w, rfl, h, rfl⟩))
    | three w h =>
      obtain ⟨rfl, rfl⟩ := List.cons.inj he
      exact .inr (.inr (.inr (.inl ⟨rfl, w, rfl, h, rfl⟩)))
    | eight w h =>
      obtain ⟨rfl, rfl⟩ := List.cons.inj he
      exact .inr (.inr (.inr (.inr ⟨rfl, w, rfl, h, rfl⟩)))
  · rintro (⟨h, rfl, rfl⟩ | ⟨rfl, rfl, rfl⟩ | ⟨rfl, w, rfl, h, rfl⟩ | ⟨rfl, w, rfl, h, rfl⟩ |
      ⟨rfl, w, rfl, h, rfl⟩)
    · exact ⟨_, .small x h, rfl⟩
    · exact ⟨_, .null, rfl⟩
    · exact ⟨_, .two w h, rfl⟩
    · exact ⟨_, .three w h, rfl⟩
    · exact ⟨_, .eight w h, rfl⟩

theorem readLengthEncodedNumber_eq_ok {i r : Bytes} {n : ℕ} :
    readLengthEncodedNumber i = .ok (r, n) ↔ ∃ b, Number b n ∧ i = b ++ r := by
  rcases i with _ | ⟨x, j⟩
  · constructor
    · intro h
      cases h
    · rintro ⟨b, hb, he⟩
      exact absurd (List.append_eq_nil_iff.mp he.symm).1 hb.ne_nil
  · rw [number_cons, readLengthEncodedNumber, leUint_one]
    simp only [bind, Except.bind]
    have hval : ∀ y : UInt8, x.toNat = y.toNat → x = y := fun y h => UInt8.toNat_inj.mp h
    split
    · rename_i h
      have hx := hval 0xfb h
      subst hx
      simp [pure, Except.pure, and_comm, eq_comm]
    · rename_i h
      have hx := hval 0xfc h
      subst hx
      simp [pure, Except.pure]
    · rename_i h
      have hx := hval 0xfd h
      subst hx
      simp [pure, Except.pure]
    · rename_i h
      have hx := hval 0xfe h
      subst hx
      simp [pure, Except.pure]
    · rename_i h1 h2 h3 h4
      have hne : ∀ y : UInt8, x.toNat ≠ y.toNat → x ≠ y := fun y h he => h (he ▸ rfl)
      have h1' := hne 0xfb h1
      have h2' := hne 0xfc h2
      have h3' := hne 0xfd h3
      have h4' := hne 0xfe h4
      simp [pure, Except.pure, h1', h2', h3', h4', and_comm, eq_comm]

theorem readLengthEncodedString_eq_ok {i r s : Bytes} :
    readLengthEncodedString i = .ok (r, s) ↔ ∃ b, Number b s.length ∧ i = b ++ (s ++ r) := by
  unfold readLengthEncodedString
  rw [bind_eq_ok]
  constructor
  · rintro ⟨⟨j, n⟩, hn, hs⟩
    obtain ⟨b, hb, rfl⟩ := readLengthEncodedNumber_eq_ok.mp hn
    obtain ⟨rfl, rfl⟩ := take_eq_ok.mp hs
    exact ⟨b, hb, rfl⟩
  · rintro ⟨b, hb, rfl⟩
    exact ⟨_, readLengthEncodedNumber_eq_ok.mpr ⟨b, hb, rfl⟩, take_append s r⟩

theorem takeUntil1_eq_ok {x : UInt8} {i r s : Bytes} :
    takeUntil1 x i = .ok (r, s) ↔ s ≠ [] ∧ x ∉ s ∧ ∃ r', r = x :: r' ∧ i = s ++ r := by
  unfold takeUntil1
  constructor
  · intro h
    split_ifs at h with hc
    cases h
    obtain ⟨hmem, hpos⟩ := hc
    have hlt : i.idxOf x < i.length := List.idxOf_lt_length_of_mem hmem
    refine ⟨fun hnil => ?_, ?_, i.drop (i.idxOf x + 1), ?_, (List.take_append_drop _ _).symm⟩
    · rcases List.take_eq_nil_iff.mp hnil with h0 | h0
      · omega
      · rw [h0] at hlt
        exact absurd hlt (by simp)
    · intro hx
      obtain ⟨j, hj, he⟩ := List.mem_take_iff_getElem.mp hx
      have hlt' : j < i.idxOf x := by omega
      have := List.not_of_lt_findIdx hlt'
      simp [he] at this
    · rw [List.drop_eq_getElem_cons hlt, List.getElem_idxOf hlt]
  · rintro ⟨hne, hnot, r', rfl, rfl⟩
    have hidx : (s ++ x :: r').idxOf x = s.length := by
      rw [List.idxOf_append_of_notMem hnot, List.idxOf_cons_self]
      rfl
    have hlen := List.length_pos_iff.mpr hne
    rw [if_pos ⟨by simp, by omega⟩, hidx, List.drop_left, List.take_left]

theorem nulString_eq_ok {i r s : Bytes} :
    nulString i = .ok (r, s) ↔ s ≠ [] ∧ 0 ∉ s ∧ i = s ++ 0 :: r := by
  unfold nulString
  rw [bind_eq_ok]
  constructor
  · rintro ⟨⟨j, t⟩, ht, h⟩
    obtain ⟨⟨j', z⟩, hz, h⟩ := bind_eq_ok.mp h
    obtain ⟨hne, hnot, r', rfl, rfl⟩ := takeUntil1_eq_ok.mp ht
    obtain ⟨he, rfl⟩ := literal_eq_ok.mp hz
    cases h
    exact ⟨hne, hnot, by rw [he]; rfl⟩
  · rintro ⟨hne, hnot, rfl⟩
    refine ⟨(0 :: r, s), takeUntil1_eq_ok.mpr ⟨hne, hnot, r, rfl, rfl⟩, ?_⟩
    exact bind_eq_ok.mpr ⟨(r, [0]), literal_eq_ok.mpr ⟨rfl, rfl⟩, rfl⟩

theorem unwrap_fromUtf8 {s : Bytes} {t : String} : unwrap (fromUtf8 s) = .ok t ↔ s = utf8 t.toList := by
  rw [← fromUTF8_eq_some, fromUtf8]
  cases String.fromUTF8? ⟨s.toArray⟩ with
  | none => simp [unwrap]
  | some u => simp [unwrap]

/-- The loop over the attributes ends and accepts exactly them; the length is enough rounds. -/
theorem attributes_iff : ∀ (n : ℕ) (i : Bytes) (acc : List (String × String)), i.length ≤ n →
    ((∃ l, attributes n i acc = .ok l) ↔ Attributes i)
  | 0, i, acc, h => by
    obtain rfl := List.length_eq_zero_iff.mp (Nat.le_zero.mp h)
    exact ⟨fun _ => .nil, fun _ => ⟨acc, rfl⟩⟩
  | n + 1, i, acc, h => by
    rw [attributes]
    split_ifs with hi
    · subst hi
      exact ⟨fun _ => .nil, fun _ => ⟨acc, rfl⟩⟩
    constructor
    · rintro ⟨l, hl⟩
      obtain ⟨⟨i₁, k⟩, hk, h₁⟩ := bind_eq_ok.mp hl
      obtain ⟨⟨i₂, v⟩, hv, h₂⟩ := bind_eq_ok.mp h₁
      obtain ⟨key, hkey, h₃⟩ := bind_eq_ok.mp h₂
      obtain ⟨value, hvalue, h₄⟩ := bind_eq_ok.mp h₃
      obtain ⟨bk, hbk, rfl⟩ := readLengthEncodedString_eq_ok.mp hk
      obtain ⟨bv, hbv, rfl⟩ := readLengthEncodedString_eq_ok.mp hv
      have hpos := List.length_pos_iff.mpr hbk.ne_nil
      refine .cons bk k bv v i₂ hbk hbv ⟨key, unwrap_fromUtf8.mp hkey⟩
        ⟨value, unwrap_fromUtf8.mp hvalue⟩ ((attributes_iff n i₂ _ ?_).mp ⟨l, h₄⟩)
      simp only [List.length_append] at h
      omega
    · intro ha
      cases ha with
      | nil => exact absurd rfl hi
      | cons bk k bv v rest hbk hbv hk hv hrest =>
        obtain ⟨key, rfl⟩ := hk
        obtain ⟨value, rfl⟩ := hv
        have hpos := List.length_pos_iff.mpr hbk.ne_nil
        obtain ⟨l, hl⟩ := (attributes_iff n rest ((key, value) :: acc.filter fun kv => kv.1 ≠ key)
          (by simp only [List.length_append] at h; omega)).mpr hrest
        refine ⟨l, bind_eq_ok.mpr ⟨_, readLengthEncodedString_eq_ok.mpr ⟨bk, hbk, rfl⟩, ?_⟩⟩
        refine bind_eq_ok.mpr ⟨_, readLengthEncodedString_eq_ok.mpr ⟨bv, hbv, rfl⟩, ?_⟩
        refine bind_eq_ok.mpr ⟨key, unwrap_fromUtf8.mpr rfl, ?_⟩
        exact bind_eq_ok.mpr ⟨value, unwrap_fromUtf8.mpr rfl, hl⟩

/-- Every round reads at least one byte: with as many rounds as bytes the loop has ended, and more of
them change nothing. -/
theorem attributes_rounds : ∀ (n k : ℕ) (i : Bytes) (acc : List (String × String)), i.length ≤ n →
    i.length ≤ k → attributes n i acc = attributes k i acc
  | n, k, [], acc, _, _ => by cases n <;> cases k <;> rfl
  | n + 1, k + 1, x :: i, acc, hn, hk => by
    rw [attributes, attributes, if_neg (by simp), if_neg (by simp)]
    rcases hkey : readLengthEncodedString (x :: i) with e | ⟨i₁, key⟩
    · rfl
    rcases hvalue : readLengthEncodedString i₁ with e | ⟨i₂, value⟩
    · simp only [bind, Except.bind, hvalue]
    obtain ⟨b, hb, he⟩ := readLengthEncodedString_eq_ok.mp hkey
    obtain ⟨b', -, rfl⟩ := readLengthEncodedString_eq_ok.mp hvalue
    have hpos := List.length_pos_iff.mpr hb.ne_nil
    have hlen := congrArg List.length he
    simp only [List.length_append] at hlen
    have ih := fun acc => attributes_rounds n k i₂ acc (by omega) (by omega)
    simp only [bind, Except.bind, hvalue, ih]

/-! ### The parts of a response -/

/-- The attributes, if the flags ask for them and bytes are left. -/
def AttrsPart (caps : CapabilityFlags) (i : Bytes) : Prop :=
  caps.contains .clientConnectAttrs ∧ i ≠ [] →
    ∃ b data rest, Number b data.length ∧ Attributes data ∧ i = b ++ (data ++ rest)

/-- The plugin, if the flags ask for it and bytes are left, and the attributes. -/
def PluginPart (caps : CapabilityFlags) (i : Bytes) : Prop :=
  if caps.contains .clientPluginAuth ∧ i ≠ [] then
    ∃ plugin rest, plugin ≠ [] ∧ 0 ∉ plugin ∧ i = plugin ++ 0 :: rest ∧ AttrsPart caps rest
  else AttrsPart caps i

/-- The database, if the flags ask for it and bytes are left, and what comes behind. -/
def DbPart (caps : CapabilityFlags) (i : Bytes) : Prop :=
  if caps.contains .clientConnectWithDb ∧ i ≠ [] then
    ∃ db rest, db ≠ [] ∧ 0 ∉ db ∧ i = db ++ 0 :: rest ∧ PluginPart caps rest
  else PluginPart caps i

/-- The data of the authentication: with a length in front, or up to a zero that is left. -/
def AuthPart (caps : CapabilityFlags) (i : Bytes) : Prop :=
  ∃ auth rest, DbPart caps rest ∧
    if caps.contains .clientPluginAuthLenencClientData then
      ∃ b, Number b auth.length ∧ i = b ++ (auth ++ rest)
    else if caps.contains .clientSecureConnection then
      ∃ x : UInt8, x.toNat = auth.length ∧ i = x :: (auth ++ rest)
    else auth ≠ [] ∧ 0 ∉ auth ∧ (∃ r, rest = 0 :: r) ∧ i = auth ++ rest

/-! ### The tail of a response, field by field -/

def authField (caps : CapabilityFlags) (i : Bytes) : Except Failure (Bytes × Bytes) :=
  if caps.contains .clientPluginAuthLenencClientData then readLengthEncodedString i
  else if caps.contains .clientSecureConnection then leUint 1 i >>= fun p => take p.2 p.1
  else takeUntil1 0 i

def dbField (caps : CapabilityFlags) (i : Bytes) : Except Failure (Bytes × Option Bytes) :=
  if caps.contains .clientConnectWithDb ∧ i ≠ [] then
    nulString i >>= fun p => pure (p.1, some p.2)
  else pure (i, none)

def pluginField (caps : CapabilityFlags) (i : Bytes) : Except Failure (Bytes × Bytes) :=
  if caps.contains .clientPluginAuth ∧ i ≠ [] then nulString i else pure (i, [])

def attrsField (caps : CapabilityFlags) (i : Bytes) :
    Except Failure (Bytes × Option (List (String × String))) :=
  if caps.contains .clientConnectAttrs ∧ i ≠ [] then
    readLengthEncodedString i >>= fun p =>
      attributes p.2.length p.2 [] >>= fun attrs => pure (p.1, some attrs)
  else pure (i, none)

theorem handshakeTail_eq (caps : CapabilityFlags) (m c : ℕ) (user : Option Bytes) (i : Bytes) :
    handshakeTail caps m c user i = authField caps i >>= fun a => dbField caps a.1 >>= fun d =>
      pluginField caps d.1 >>= fun p => attrsField caps p.1 >>= fun t =>
        pure (t.1, ⟨caps, m, c, none, user, a.2, p.2, d.2, t.2⟩) := by
  have hattrs : ∀ (i : Bytes) {β : Type} (f : Bytes × Option (List (String × String)) → Except Failure β),
      (if caps.contains .clientConnectAttrs ∧ i ≠ [] then readLengthEncodedNumber i >>= fun x =>
        take x.2 x.1 >>= fun y => attributes y.2.length y.2 [] >>= fun attrs =>
          pure (y.1, some attrs) >>= f
      else pure (i, none) >>= f) = attrsField caps i >>= f := by
    intro i β f
    unfold attrsField readLengthEncodedString
    split_ifs
    · simp only [bind_assoc]
    · rfl
  have hplugin : ∀ (i : Bytes) {β : Type} (f : Bytes × Bytes → Except Failure β),
      (if caps.contains .clientPluginAuth ∧ i ≠ [] then nulString i >>= f else pure (i, []) >>= f) =
        pluginField caps i >>= f := by
    intro i β f
    unfold pluginField
    split_ifs <;> rfl
  have hdb : ∀ (i : Bytes) {β : Type} (f : Bytes × Option Bytes → Except Failure β),
      (if caps.contains .clientConnectWithDb ∧ i ≠ [] then nulString i >>= fun x =>
        pure (x.1, some x.2) >>= f else pure (i, none) >>= f) = dbField caps i >>= f := by
    intro i β f
    unfold dbField
    split_ifs
    · simp only [bind_assoc]
    · rfl
  simp only [← hattrs, ← hplugin, ← hdb]
  unfold handshakeTail authField readLengthEncodedString
  split_ifs
  · simp only [bind_assoc]
  · simp only [bind_assoc]
  · rfl

theorem attrsField_iff (caps : CapabilityFlags) (i : Bytes) :
    (∃ p, attrsField caps i = .ok p) ↔ AttrsPart caps i := by
  unfold attrsField AttrsPart
  split_ifs with hc
  · rw [forall_prop_of_true hc]
    constructor
    · rintro ⟨p, h⟩
      obtain ⟨⟨r, data⟩, hd, h₁⟩ := bind_eq_ok.mp h
      obtain ⟨attrs, ha, -⟩ := bind_eq_ok.mp h₁
      obtain ⟨b, hb, rfl⟩ := readLengthEncodedString_eq_ok.mp hd
      exact ⟨b, data, r, hb, (attributes_iff _ data [] le_rfl).mp ⟨attrs, ha⟩, rfl⟩
    · rintro ⟨b, data, rest, hb, hdata, rfl⟩
      obtain ⟨attrs, ha⟩ := (attributes_iff _ data [] le_rfl).mpr hdata
      exact ⟨(rest, some attrs), bind_eq_ok.mpr ⟨(rest, data),
        readLengthEncodedString_eq_ok.mpr ⟨b, hb, rfl⟩, bind_eq_ok.mpr ⟨attrs, ha, rfl⟩⟩⟩
  · exact ⟨fun _ h => absurd h hc, fun _ => ⟨_, rfl⟩⟩

theorem pluginField_iff (caps : CapabilityFlags) (i : Bytes) :
    (∃ p, pluginField caps i = .ok p ∧ AttrsPart caps p.1) ↔ PluginPart caps i := by
  unfold pluginField PluginPart
  split_ifs with hc
  · constructor
    · rintro ⟨⟨r, plugin⟩, h, hA⟩
      obtain ⟨hne, hnot, he⟩ := nulString_eq_ok.mp h
      exact ⟨plugin, r, hne, hnot, he, hA⟩
    · rintro ⟨plugin, r, hne, hnot, he, hA⟩
      exact ⟨(r, plugin), nulString_eq_ok.mpr ⟨hne, hnot, he⟩, hA⟩
  · constructor
    · rintro ⟨p, h, hA⟩
      cases h
      exact hA
    · exact fun hA => ⟨_, rfl, hA⟩

theorem dbField_iff (caps : CapabilityFlags) (i : Bytes) :
    (∃ p, dbField caps i = .ok p ∧ PluginPart caps p.1) ↔ DbPart caps i := by
  unfold dbField DbPart
  split_ifs with hc
  · constructor
    · rintro ⟨p, h, hP⟩
      obtain ⟨⟨r, db⟩, hd, h₁⟩ := bind_eq_ok.mp h
      cases h₁
      obtain ⟨hne, hnot, he⟩ := nulString_eq_ok.mp hd
      exact ⟨db, r, hne, hnot, he, hP⟩
    · rintro ⟨db, r, hne, hnot, he, hP⟩
      exact ⟨(r, some db), bind_eq_ok.mpr ⟨(r, db), nulString_eq_ok.mpr ⟨hne, hnot, he⟩, rfl⟩, hP⟩
  · constructor
    · rintro ⟨p, h, hP⟩
      cases h
      exact hP
    · exact fun hP => ⟨_, rfl, hP⟩

theorem authField_eq_ok {caps : CapabilityFlags} {i auth rest : Bytes} :
    authField caps i = .ok (rest, auth) ↔
      if caps.contains .clientPluginAuthLenencClientData then
        ∃ b, Number b auth.length ∧ i = b ++ (auth ++ rest)
      else if caps.contains .clientSecureConnection then
        ∃ x : UInt8, x.toNat = auth.length ∧ i = x :: (auth ++ rest)
      else auth ≠ [] ∧ 0 ∉ auth ∧ (∃ r, rest = 0 :: r) ∧ i = auth ++ rest := by
  unfold authField
  split_ifs with h1 h2
  · exact readLengthEncodedString_eq_ok
  · constructor
    · intro h
      obtain ⟨⟨j, n⟩, hn, hj⟩ := bind_eq_ok.mp h
      obtain ⟨b, rfl, hb, rfl⟩ := leUint_eq_ok.mp hn
      obtain ⟨rfl, hl⟩ := take_eq_ok.mp hj
      obtain ⟨x, rfl⟩ := List.length_eq_one_iff.mp hb
      exact ⟨x, by simp [hl, leNat], rfl⟩
    · rintro ⟨x, hx, rfl⟩
      refine bind_eq_ok.mpr ⟨_, leUint_one x _, ?_⟩
      rw [hx]
      exact take_append auth rest
  · rw [takeUntil1_eq_ok]
    constructor
    · rintro ⟨hne, hnot, r', hr', he⟩
      exact ⟨hne, hnot, ⟨r', hr'⟩, he⟩
    · rintro ⟨hne, hnot, ⟨r', hr'⟩, he⟩
      exact ⟨hne, hnot, r', hr', he⟩

theorem authField_iff (caps : CapabilityFlags) (i : Bytes) :
    (∃ p, authField caps i = .ok p ∧ DbPart caps p.1) ↔ AuthPart caps i := by
  unfold AuthPart
  constructor
  · rintro ⟨⟨rest, auth⟩, h, hD⟩
    exact ⟨auth, rest, hD, authField_eq_ok.mp h⟩
  · rintro ⟨auth, rest, hD, h⟩
    exact ⟨(rest, auth), authField_eq_ok.mpr h, hD⟩

/-- The tail is accepted in its shape, and the user handed to it is the user of the response. -/
theorem handshakeTail_iff (caps : CapabilityFlags) (m c : ℕ) (user : Option Bytes) (i : Bytes) :
    (∃ r h, handshakeTail caps m c user i = .ok (r, h)) ↔ AuthPart caps i := by
  rw [handshakeTail_eq, ← authField_iff]
  constructor
  · rintro ⟨r, h, hr⟩
    obtain ⟨a, ha, hr₁⟩ := bind_eq_ok.mp hr
    obtain ⟨d, hd, hr₂⟩ := bind_eq_ok.mp hr₁
    obtain ⟨p, hp, hr₃⟩ := bind_eq_ok.mp hr₂
    obtain ⟨t, ht, -⟩ := bind_eq_ok.mp hr₃
    exact ⟨a, ha, (dbField_iff caps a.1).mp ⟨d, hd, (pluginField_iff caps d.1).mp ⟨p, hp,
      (attrsField_iff caps p.1).mp ⟨t, ht⟩⟩⟩⟩
  · rintro ⟨a, ha, hD⟩
    obtain ⟨d, hd, hP⟩ := (dbField_iff caps a.1).mpr hD
    obtain ⟨p, hp, hA⟩ := (pluginField_iff caps d.1).mpr hP
    obtain ⟨t, ht⟩ := (attrsField_iff caps p.1).mpr hA
    exact ⟨_, _, bind_eq_ok.mpr ⟨a, ha, bind_eq_ok.mpr ⟨d, hd, bind_eq_ok.mpr ⟨p, hp,
      bind_eq_ok.mpr ⟨t, ht, rfl⟩⟩⟩⟩⟩

theorem handshakeTail_user {caps : CapabilityFlags} {m c : ℕ} {user : Option Bytes} {i r : Bytes}
    {h : HandshakeResponse} (hr : handshakeTail caps m c user i = .ok (r, h)) :
    h.username = user ∧ h.tenantKey = none := by
  rw [handshakeTail_eq] at hr
  obtain ⟨a, -, hr₁⟩ := bind_eq_ok.mp hr
  obtain ⟨d, -, hr₂⟩ := bind_eq_ok.mp hr₁
  obtain ⟨p, -, hr₃⟩ := bind_eq_ok.mp hr₂
  obtain ⟨t, -, hr₄⟩ := bind_eq_ok.mp hr₃
  cases hr₄
  exact ⟨rfl, rfl⟩

/-! ### Responses -/

/-- The flags of an old response, which are the lower half of a word. -/
def flags320 (known : CapabilityFlags) (lower : Bytes) : CapabilityFlags :=
  BitVec.ofNat 32 (leNat lower) &&& known

/-- The flags of a response of the protocol 4.1, from the two halves of their word. -/
def flags41 (known : CapabilityFlags) (lower upper : Bytes) : CapabilityFlags :=
  BitVec.ofNat 32 (leNat upper * 2 ^ 16 + leNat lower) &&& known

/-- A response of the protocol 4.1 behind the lower half of its flags. -/
def Response41 (known : CapabilityFlags) (lower i : Bytes) (user : Option Bytes) : Prop :=
  ∃ upper fixed rest, upper.length = 2 ∧ fixed.length = 28 ∧ i = upper ++ (fixed ++ rest) ∧
    if (flags41 known lower upper).contains .clientSsl then user = none
    else ∃ u r, u ≠ [] ∧ 0 ∉ u ∧ rest = u ++ 0 :: r ∧ user = some u ∧
      AuthPart (flags41 known lower upper) r

/-- An old response behind its flags. -/
def Response320 (caps : CapabilityFlags) (i : Bytes) (user : Option Bytes) : Prop :=
  ∃ len u r, len.length = 3 ∧ u ≠ [] ∧ 0 ∉ u ∧ i = len ++ (u ++ 0 :: r) ∧ user = some u ∧
    (caps.contains .clientConnectWithDb → ∃ rest, r = [0, 0, 0, 0] ++ rest)

/-- **The shape** of a response with the given user; a request for encryption has none. -/
def Response (known : CapabilityFlags) (pkt : Bytes) (user : Option Bytes) : Prop :=
  ∃ lower i, lower.length = 2 ∧ pkt = lower ++ i ∧
    if (flags320 known lower).contains .clientProtocol41 then Response41 known lower i user
    else Response320 (flags320 known lower) i user

theorem handshakeResponse41_eq (known : CapabilityFlags) (lower : ℕ) (isAfterTls : Bool) (i : Bytes) :
    handshakeResponse41 known lower isAfterTls i = (do
      let a ← leUint 2 i
      let caps : CapabilityFlags := BitVec.ofNat 32 (a.2 * 2 ^ 16 + lower) &&& known
      let b ← leUint 4 a.1
      let c ← leUint 1 b.1
      let d ← take 23 c.1
      if !isAfterTls && caps.contains .clientSsl then
        return (d.1, ⟨caps, b.2, c.2, none, none, [], [], none, none⟩)
      else do
        let u ← nulString d.1
        handshakeTail caps b.2 c.2 (some u.2) u.1 : Except Failure (Bytes × HandshakeResponse)) := by
  unfold handshakeResponse41
  refine bind_congr fun a => bind_congr fun b => bind_congr fun c => bind_congr fun d => ?_
  cases isAfterTls
  · cases CapabilityFlags.contains (BitVec.ofNat 32 (a.2 * 2 ^ 16 + lower) &&& known) .clientSsl
    · simp
    · simp
  · simp

/-- What is done behind the fixed fields: the largest packet, the collation and the filler. -/
theorem handshakeResponse41_fixed (known : CapabilityFlags) (lower : Bytes) {upper m c f : Bytes}
    (hupper : upper.length = 2) (hm : m.length = 4) (hc : c.length = 1) (hf : f.length = 23)
    (isAfterTls : Bool) (rest : Bytes) :
    handshakeResponse41 known (leNat lower) isAfterTls (upper ++ (m ++ (c ++ (f ++ rest)))) =
      if !isAfterTls && (flags41 known lower upper).contains .clientSsl then
        .ok (rest, ⟨flags41 known lower upper, leNat m, leNat c, none, none, [], [], none, none⟩)
      else nulString rest >>= fun u =>
        handshakeTail (flags41 known lower upper) (leNat m) (leNat c) (some u.2) u.1 := by
  have h₁ : leUint 2 (upper ++ (m ++ (c ++ (f ++ rest)))) = .ok (m ++ (c ++ (f ++ rest)), leNat upper) :=
    leUint_eq_ok.mpr ⟨upper, rfl, hupper, rfl⟩
  have h₂ : leUint 4 (m ++ (c ++ (f ++ rest))) = .ok (c ++ (f ++ rest), leNat m) :=
    leUint_eq_ok.mpr ⟨m, rfl, hm, rfl⟩
  have h₃ : leUint 1 (c ++ (f ++ rest)) = .ok (f ++ rest, leNat c) :=
    leUint_eq_ok.mpr ⟨c, rfl, hc, rfl⟩
  have h₄ : take 23 (f ++ rest) = .ok (rest, f) := take_eq_ok.mpr ⟨rfl, hf⟩
  rw [handshakeResponse41_eq]
  simp only [h₁, h₂, h₃, h₄, bind, Except.bind]
  rfl

/-- What is done behind the fixed fields of `28` bytes. -/
theorem handshakeResponse41_append (known : CapabilityFlags) (lower : Bytes) {upper fixed : Bytes}
    (hupper : upper.length = 2) (hfixed : fixed.length = 28) (rest : Bytes) :
    ∃ m c, handshakeResponse41 known (leNat lower) false (upper ++ (fixed ++ rest)) =
      if (flags41 known lower upper).contains .clientSsl then
        .ok (rest, ⟨flags41 known lower upper, m, c, none, none, [], [], none, none⟩)
      else nulString rest >>= fun u => handshakeTail (flags41 known lower upper) m c (some u.2) u.1 := by
  obtain ⟨bm, bc, f, rfl, hbm, hbc, hf⟩ : ∃ bm bc f, fixed = bm ++ (bc ++ f) ∧ bm.length = 4 ∧
      bc.length = 1 ∧ f.length = 23 :=
    ⟨fixed.take 4, (fixed.drop 4).take 1, (fixed.drop 4).drop 1,
      by rw [List.take_append_drop, List.take_append_drop], by simp [hfixed], by simp [hfixed],
      by simp [hfixed]⟩
  refine ⟨leNat bm, leNat bc, ?_⟩
  rw [List.append_assoc, List.append_assoc,
    handshakeResponse41_fixed known lower hupper hbm hbc hf false rest, Bool.not_false, Bool.true_and]

theorem handshakeResponse41_iff (known : CapabilityFlags) (lower i : Bytes) (user : Option Bytes) :
    (∃ r h, handshakeResponse41 known (leNat lower) false i = .ok (r, h) ∧ h.username = user ∧
      h.tenantKey = none) ↔ Response41 known lower i user := by
  unfold Response41
  constructor
  · rintro ⟨r, h, hr, hu, -⟩
    have hi := hr
    rw [handshakeResponse41_eq] at hi
    obtain ⟨⟨i₁, n⟩, hn, hr₁⟩ := bind_eq_ok.mp hi
    obtain ⟨⟨i₂, m⟩, hm, hr₂⟩ := bind_eq_ok.mp hr₁
    obtain ⟨⟨i₃, c⟩, hc, hr₃⟩ := bind_eq_ok.mp hr₂
    obtain ⟨⟨i₄, f⟩, hf, -⟩ := bind_eq_ok.mp hr₃
    obtain ⟨upper, rfl, hupper, rfl⟩ := leUint_eq_ok.mp hn
    obtain ⟨bm, rfl, hbm, -⟩ := leUint_eq_ok.mp hm
    obtain ⟨bc, rfl, hbc, -⟩ := leUint_eq_ok.mp hc
    obtain ⟨rfl, hlf⟩ := take_eq_ok.mp hf
    have hfixed : (bm ++ (bc ++ f)).length = 28 := by simp [hbm, hbc, hlf]
    have happend : bm ++ (bc ++ (f ++ i₄)) = bm ++ (bc ++ f) ++ i₄ := by simp
    obtain ⟨m', c', he⟩ := handshakeResponse41_append known lower hupper hfixed i₄
    refine ⟨upper, bm ++ (bc ++ f), i₄, hupper, hfixed, by rw [happend], ?_⟩
    rw [happend, he] at hr
    split_ifs at hr ⊢ with hssl
    · cases hr
      exact hu.symm
    · obtain ⟨⟨i₅, u⟩, hu', hr₅⟩ := bind_eq_ok.mp hr
      obtain ⟨hne, hnot, rfl⟩ := nulString_eq_ok.mp hu'
      exact ⟨u, i₅, hne, hnot, rfl, by rw [← hu, (handshakeTail_user hr₅).1],
        (handshakeTail_iff _ _ _ _ _).mp ⟨r, h, hr₅⟩⟩
  · rintro ⟨upper, fixed, rest, hupper, hfixed, rfl, h⟩
    obtain ⟨m, c, he⟩ := handshakeResponse41_append known lower hupper hfixed rest
    rw [he]
    split_ifs at h ⊢ with hssl
    · exact ⟨rest, _, rfl, h.symm, rfl⟩
    · obtain ⟨u, r, hne, hnot, rfl, rfl, hA⟩ := h
      have hn : nulString (u ++ 0 :: r) = .ok (r, u) := nulString_eq_ok.mpr ⟨hne, hnot, rfl⟩
      obtain ⟨r', h', hr'⟩ := (handshakeTail_iff _ m c (some u) r).mpr hA
      obtain ⟨hu, ht⟩ := handshakeTail_user hr'
      exact ⟨r', h', bind_eq_ok.mpr ⟨_, hn, hr'⟩, hu, ht⟩

/-- What is done behind the largest packet of an old response. -/
theorem handshakeResponse320_append (caps : CapabilityFlags) {len : Bytes} (hlen : len.length = 3)
    (rest : Bytes) : ∃ m, handshakeResponse320 caps (len ++ rest) = nulString rest >>= fun u =>
      if caps.contains .clientConnectWithDb then
        literal [0] u.1 >>= fun a => literal [0] a.1 >>= fun b => literal [0] b.1 >>= fun d =>
          literal [0] d.1 >>= fun e =>
            pure (e.1, ⟨caps, m, 0, none, some u.2, a.2, [], some d.2, none⟩)
      else pure ([], ⟨caps, m, 0, none, some u.2, u.1, [], none, none⟩) := by
  obtain ⟨b₁, b₂, rfl, hb₁, hb₂⟩ : ∃ b₁ b₂, len = b₁ ++ b₂ ∧ b₁.length = 2 ∧ b₂.length = 1 :=
    ⟨len.take 2, len.drop 2, by simp, by simp [hlen], by simp [hlen]⟩
  have h₁ : leUint 2 (b₁ ++ b₂ ++ rest) = .ok (b₂ ++ rest, leNat b₁) :=
    leUint_eq_ok.mpr ⟨b₁, by simp, hb₁, rfl⟩
  have h₂ : leUint 1 (b₂ ++ rest) = .ok (rest, leNat b₂) := leUint_eq_ok.mpr ⟨b₂, rfl, hb₂, rfl⟩
  refine ⟨leNat b₂ * 2 ^ 16 + leNat b₁, ?_⟩
  rw [handshakeResponse320]
  simp only [h₁, h₂, bind, Except.bind]

theorem handshakeResponse320_iff (caps : CapabilityFlags) (i : Bytes) (user : Option Bytes) :
    (∃ r h, handshakeResponse320 caps i = .ok (r, h) ∧ h.username = user ∧ h.tenantKey = none) ↔
      Response320 caps i user := by
  unfold Response320
  constructor
  · rintro ⟨r, h, hr, hu, -⟩
    have hi := hr
    obtain ⟨⟨i₁, n₁⟩, hn₁, hr₁⟩ := bind_eq_ok.mp hi
    obtain ⟨⟨i₂, n₂⟩, hn₂, -⟩ := bind_eq_ok.mp hr₁
    obtain ⟨b₁, rfl, hb₁, -⟩ := leUint_eq_ok.mp hn₁
    obtain ⟨b₂, rfl, hb₂, -⟩ := leUint_eq_ok.mp hn₂
    have hlen : (b₁ ++ b₂).length = 3 := by simp [hb₁, hb₂]
    obtain ⟨m, he⟩ := handshakeResponse320_append caps hlen i₂
    rw [← List.append_assoc, he] at hr
    obtain ⟨⟨i₃, u⟩, hu', hr₃⟩ := bind_eq_ok.mp hr
    obtain ⟨hne, hnot, rfl⟩ := nulString_eq_ok.mp hu'
    refine ⟨b₁ ++ b₂, u, i₃, hlen, hne, hnot, by simp, ?_⟩
    simp only at hr₃
    split_ifs at hr₃ with hc
    · obtain ⟨⟨j₁, a⟩, h₁, hr₄⟩ := bind_eq_ok.mp hr₃
      obtain ⟨⟨j₂, x⟩, h₂, hr₅⟩ := bind_eq_ok.mp hr₄
      obtain ⟨⟨j₃, d⟩, h₃, hr₆⟩ := bind_eq_ok.mp hr₅
      obtain ⟨⟨j₄, y⟩, h₄, hr₇⟩ := bind_eq_ok.mp hr₆
      obtain ⟨rfl, -⟩ := literal_eq_ok.mp h₁
      obtain ⟨rfl, -⟩ := literal_eq_ok.mp h₂
      obtain ⟨rfl, -⟩ := literal_eq_ok.mp h₃
      obtain ⟨rfl, -⟩ := literal_eq_ok.mp h₄
      cases hr₇
      exact ⟨hu.symm, fun _ => ⟨j₄, rfl⟩⟩
    · cases hr₃
      exact ⟨hu.symm, fun h => absurd h hc⟩
  · rintro ⟨len, u, r, hlen, hne, hnot, rfl, rfl, hdb⟩
    have h₃ : nulString (u ++ 0 :: r) = .ok (r, u) := nulString_eq_ok.mpr ⟨hne, hnot, rfl⟩
    obtain ⟨m, he⟩ := handshakeResponse320_append caps hlen (u ++ 0 :: r)
    rw [he, h₃]
    simp only [bind, Except.bind]
    split_ifs with hc
    · obtain ⟨rest, rfl⟩ := hdb hc
      exact ⟨rest, _, rfl, rfl, rfl⟩
    · exact ⟨[], _, rfl, rfl, rfl⟩

theorem clientHandshakeResponse_append (known : CapabilityFlags) {lower : Bytes} (hl : lower.length = 2)
    (i : Bytes) (isAfterTls : Bool) : clientHandshakeResponse known (lower ++ i) isAfterTls =
      if (flags320 known lower).contains .clientProtocol41 then
        handshakeResponse41 known (leNat lower) isAfterTls i
      else handshakeResponse320 (flags320 known lower) i := by
  have h : leUint 2 (lower ++ i) = .ok (i, leNat lower) := leUint_eq_ok.mpr ⟨lower, rfl, hl, rfl⟩
  rw [clientHandshakeResponse, h]
  rfl

/-- No tenant is read from a packet; it is taken out of the user's name later. -/
theorem clientHandshakeResponse_tenantKey {known : CapabilityFlags} {pkt r : Bytes}
    {h : HandshakeResponse} (hr : clientHandshakeResponse known pkt false = .ok (r, h)) :
    h.tenantKey = none := by
  obtain ⟨⟨i, n⟩, -, hr₁⟩ := bind_eq_ok.mp hr
  simp only at hr₁
  split_ifs at hr₁
  · rw [handshakeResponse41_eq] at hr₁
    obtain ⟨a, -, hr₂⟩ := bind_eq_ok.mp hr₁
    obtain ⟨b, -, hr₃⟩ := bind_eq_ok.mp hr₂
    obtain ⟨c, -, hr₄⟩ := bind_eq_ok.mp hr₃
    obtain ⟨d, -, hr₅⟩ := bind_eq_ok.mp hr₄
    split_ifs at hr₅
    · cases hr₅
      rfl
    · obtain ⟨u, -, hr₆⟩ := bind_eq_ok.mp hr₅
      exact (handshakeTail_user hr₆).2
  · unfold handshakeResponse320 at hr₁
    obtain ⟨a, -, hr₂⟩ := bind_eq_ok.mp hr₁
    obtain ⟨b, -, hr₃⟩ := bind_eq_ok.mp hr₂
    obtain ⟨u, -, hr₄⟩ := bind_eq_ok.mp hr₃
    simp only at hr₄
    split_ifs at hr₄
    · obtain ⟨x₁, -, hr₅⟩ := bind_eq_ok.mp hr₄
      obtain ⟨x₂, -, hr₆⟩ := bind_eq_ok.mp hr₅
      obtain ⟨x₃, -, hr₇⟩ := bind_eq_ok.mp hr₆
      obtain ⟨x₄, -, hr₈⟩ := bind_eq_ok.mp hr₇
      cases hr₈
      rfl
    · cases hr₄
      rfl

/-- **The parser accepts exactly the shapes.** -/
theorem clientHandshakeResponse_iff (known : CapabilityFlags) (pkt : Bytes) (user : Option Bytes) :
    (∃ r h, clientHandshakeResponse known pkt false = .ok (r, h) ∧ h.username = user ∧
      h.tenantKey = none) ↔ Response known pkt user := by
  have hcases : ∀ lower i, lower.length = 2 →
      ((∃ r h, clientHandshakeResponse known (lower ++ i) false = .ok (r, h) ∧ h.username = user ∧
        h.tenantKey = none) ↔
      if (flags320 known lower).contains .clientProtocol41 then Response41 known lower i user
      else Response320 (flags320 known lower) i user) := by
    intro lower i hl
    rw [clientHandshakeResponse_append known hl]
    split_ifs
    · exact handshakeResponse41_iff known lower i user
    · exact handshakeResponse320_iff _ i user
  constructor
  · rintro ⟨r, h, hr, hu⟩
    obtain ⟨⟨i, n⟩, hn, -⟩ := bind_eq_ok.mp hr
    obtain ⟨lower, rfl, hl, -⟩ := leUint_eq_ok.mp hn
    exact ⟨lower, i, hl, rfl, (hcases lower i hl).mp ⟨r, h, hr, hu⟩⟩
  · rintro ⟨lower, i, hl, rfl, h⟩
    exact (hcases lower i hl).mpr h

end Haentgl.Protocol.Handshake
