import Haentgl.Lib.Parse

/-! # Texts, their bytes and slices of them

A text is a list of characters; in memory it is a row of bytes in which a character takes one to four.
Positions in a text are counted in bytes, and a position is legal only between two characters:
`dropBytes`, `takeBytes` and `slice` fail at any other. `utf8` are the bytes of a text; from them the
text is found again (`fromUTF8_eq_some`).

Bytes are written as two hexadecimal digits each; `hexDecode` also takes capital digits. -/

namespace Haentgl.Lib.Text

open Haentgl.Lib.Parse

/-- The length in bytes. -/
def byteLen (s : List Char) : ℕ := (s.map Char.utf8Size).sum

/-- The bytes of a text. -/
def utf8 (s : List Char) : Bytes := s.flatMap String.utf8EncodeChar

/-- The text from byte `n` on. -/
def dropBytes : ℕ → List Char → Option (List Char)
  | 0, s => some s
  | _ + 1, [] => none
  | n + 1, c :: s => if c.utf8Size ≤ n + 1 then dropBytes (n + 1 - c.utf8Size) s else none

/-- The text in front of byte `n`. -/
def takeBytes : ℕ → List Char → Option (List Char)
  | 0, _ => some []
  | _ + 1, [] => none
  | n + 1, c :: s =>
    if c.utf8Size ≤ n + 1 then (takeBytes (n + 1 - c.utf8Size) s).map (c :: ·) else none

/-- The text from byte `start` up to byte `stop`. -/
def slice (start stop : ℕ) (s : List Char) : Option (List Char) :=
  if stop < start then none
  else do
    let rest ← dropBytes start s
    takeBytes (stop - start) rest

/-- The value of a hexadecimal digit. -/
def hexVal (c : Char) : Option ℕ :=
  if '0' ≤ c ∧ c ≤ '9' then some (c.toNat - 48)
  else if 'a' ≤ c ∧ c ≤ 'f' then some (c.toNat - 87)
  else if 'A' ≤ c ∧ c ≤ 'F' then some (c.toNat - 55)
  else none

/-- Two small digits for each byte. -/
def hexEncode (b : Bytes) : List Char :=
  b.flatMap fun x => [Nat.digitChar (x.toNat / 16), Nat.digitChar (x.toNat % 16)]

/-- The bytes with the given digits. -/
def hexDecode : List Char → Option Bytes
  | [] => some []
  | [_] => none
  | c :: d :: s => do
    let x ← hexVal c
    let y ← hexVal d
    let b ← hexDecode s
    return UInt8.ofNat (16 * x + y) :: b

/-! ### Lengths and positions -/

@[simp] theorem byteLen_nil : byteLen [] = 0 := rfl

@[simp] theorem byteLen_cons (c : Char) (s : List Char) :
    byteLen (c :: s) = c.utf8Size + byteLen s := by
  simp [byteLen]

@[simp] theorem byteLen_append (s t : List Char) : byteLen (s ++ t) = byteLen s + byteLen t := by
  simp [byteLen]

theorem byteLen_replicate (n : ℕ) (c : Char) : byteLen (List.replicate n c) = n * c.utf8Size := by
  simp [byteLen]

@[simp] theorem length_utf8 (s : List Char) : (utf8 s).length = byteLen s := by
  induction s with
  | nil => rfl
  | cons c s ih => rw [utf8, List.flatMap_cons, List.length_append, String.length_utf8EncodeChar,
      byteLen_cons, ← ih, utf8]

theorem dropBytes_eq_some {n : ℕ} {s r : List Char} :
    dropBytes n s = some r ↔ ∃ p, s = p ++ r ∧ byteLen p = n := by
  fun_induction dropBytes n s with
  | case1 s =>
    constructor
    · intro h
      cases h
      exact ⟨[], rfl, rfl⟩
    · rintro ⟨p, rfl, hp⟩
      rcases p with _ | ⟨c, p⟩
      · rfl
      · have := c.utf8Size_pos
        rw [byteLen_cons] at hp
        omega
  | case2 n =>
    constructor
    · intro h
      cases h
    · rintro ⟨p, hs, hp⟩
      obtain ⟨rfl, -⟩ := List.append_eq_nil_iff.mp hs.symm
      simp at hp
  | case3 n c s h ih =>
    rw [ih]
    constructor
    · rintro ⟨p, hs, hp⟩
      refine ⟨c :: p, by rw [hs]; rfl, ?_⟩
      rw [byteLen_cons]
      omega
    · rintro ⟨p, hs, hp⟩
      rcases p with _ | ⟨d, p⟩
      · simp at hp
      · obtain ⟨rfl, rfl⟩ := List.cons.inj hs
        rw [byteLen_cons] at hp
        exact ⟨p, rfl, by omega⟩
  | case4 n c s h =>
    constructor
    · intro h
      cases h
    · rintro ⟨p, hs, hp⟩
      rcases p with _ | ⟨d, p⟩
      · simp at hp
      · obtain ⟨rfl, rfl⟩ := List.cons.inj hs
        rw [byteLen_cons] at hp
        omega

theorem takeBytes_eq_some {n : ℕ} {s p : List Char} :
    takeBytes n s = some p ↔ ∃ r, s = p ++ r ∧ byteLen p = n := by
  fun_induction takeBytes n s generalizing p with
  | case1 s =>
    constructor
    · intro h
      cases h
      exact ⟨s, rfl, rfl⟩
    · rintro ⟨r, rfl, hp⟩
      rcases p with _ | ⟨c, p⟩
      · rfl
      · have := c.utf8Size_pos
        rw [byteLen_cons] at hp
        omega
  | case2 n =>
    constructor
    · intro h
      cases h
    · rintro ⟨r, hs, hp⟩
      obtain ⟨rfl, -⟩ := List.append_eq_nil_iff.mp hs.symm
      simp at hp
  | case3 n c s h ih =>
    rw [Option.map_eq_some_iff]
    constructor
    · rintro ⟨q, hq, rfl⟩
      obtain ⟨r, rfl, hl⟩ := ih.mp hq
      refine ⟨r, rfl, ?_⟩
      rw [byteLen_cons]
      omega
    · rintro ⟨r, hs, hp⟩
      rcases p with _ | ⟨d, p⟩
      · simp at hp
      · obtain ⟨rfl, rfl⟩ := List.cons.inj hs
        rw [byteLen_cons] at hp
        exact ⟨p, ih.mpr ⟨r, rfl, by omega⟩, rfl⟩
  | case4 n c s h =>
    constructor
    · intro h
      cases h
    · rintro ⟨r, hs, hp⟩
      rcases p with _ | ⟨d, p⟩
      · simp at hp
      · obtain ⟨rfl, rfl⟩ := List.cons.inj hs
        rw [byteLen_cons] at hp
        omega

/-- A slice is what stands between a text of `start` bytes and the rest. -/
theorem slice_eq_some {start stop : ℕ} {s m : List Char} :
    slice start stop s = some m ↔
      ∃ p r, s = p ++ (m ++ r) ∧ byteLen p = start ∧ start + byteLen m = stop := by
  unfold slice
  constructor
  · intro h
    split_ifs at h with hlt
    obtain ⟨t, ht, hm⟩ := Option.bind_eq_some_iff.mp h
    obtain ⟨p, rfl, hp⟩ := dropBytes_eq_some.mp ht
    obtain ⟨r, rfl, hr⟩ := takeBytes_eq_some.mp hm
    exact ⟨p, r, rfl, hp, by omega⟩
  · rintro ⟨p, r, rfl, hp, hm⟩
    rw [if_neg (by omega)]
    have hdrop : dropBytes start (p ++ (m ++ r)) = some (m ++ r) :=
      dropBytes_eq_some.mpr ⟨p, rfl, hp⟩
    have htake : takeBytes (stop - start) (m ++ r) = some m :=
      takeBytes_eq_some.mpr ⟨r, rfl, by omega⟩
    exact Option.bind_eq_some_iff.mpr ⟨m ++ r, hdrop, htake⟩

/-! ### Bytes of a text -/

theorem toByteArray_eq_utf8 (s : String) : s.toByteArray = ⟨(utf8 s.toList).toArray⟩ := by
  rw [← String.utf8Encode_toList, List.utf8Encode, ByteArray.ext_iff, List.data_toByteArray]
  rfl

theorem fromUTF8_eq_some {b : Bytes} {s : String} :
    String.fromUTF8? ⟨b.toArray⟩ = some s ↔ b = utf8 s.toList := by
  unfold String.fromUTF8?
  constructor
  · intro h
    split_ifs at h with hv
    have hb : (⟨b.toArray⟩ : ByteArray) = s.toByteArray := by
      rw [← Option.some.inj h]
      rfl
    rw [toByteArray_eq_utf8, ByteArray.ext_iff] at hb
    simpa using hb
  · rintro rfl
    rw [← toByteArray_eq_utf8, dif_pos s.isValidUTF8]
    rfl

theorem zero_mem_utf8EncodeChar {c : Char} (h : 0 ∈ String.utf8EncodeChar c) : c = Char.ofNat 0 := by
  have hzero : ∀ n, n < 256 → (0 : UInt8) = UInt8.ofNat n → n = 0 := fun n hn he => by
    have := congrArg UInt8.toNat he
    rw [UInt8.toNat_ofNat', Nat.mod_eq_of_lt hn] at this
    exact this.symm
  unfold String.utf8EncodeChar at h
  simp only at h
  -- every byte of a character outside ASCII is at least `0x80`
  split_ifs at h with h1 h2 h3
  · have hc : c.val.toNat = 0 := hzero _ (by omega) (List.mem_singleton.mp h)
    rw [← Char.ofNat_toNat c]
    exact congrArg Char.ofNat hc
  · simp only [List.mem_cons, List.not_mem_nil, or_false] at h
    rcases h with h | h
    all_goals exact absurd (hzero _ (by omega) h) (by omega)
  · simp only [List.mem_cons, List.not_mem_nil, or_false] at h
    rcases h with h | h | h
    all_goals exact absurd (hzero _ (by omega) h) (by omega)
  · simp only [List.mem_cons, List.not_mem_nil, or_false] at h
    rcases h with h | h | h | h
    all_goals exact absurd (hzero _ (by omega) h) (by omega)

/-- A zero in the bytes is a zero in the text. -/
theorem zero_mem_utf8 {s : List Char} (h : 0 ∈ utf8 s) : Char.ofNat 0 ∈ s := by
  obtain ⟨c, hc, hz⟩ := List.mem_flatMap.mp h
  rw [← zero_mem_utf8EncodeChar hz]
  exact hc

/-- No character has the byte `0xff`. -/
theorem ff_notMem_utf8EncodeChar (c : Char) : (0xff : UInt8) ∉ String.utf8EncodeChar c := by
  have hff : ∀ n, n < 255 → (0xff : UInt8) ≠ UInt8.ofNat n := fun n hn he => by
    have hmod := congrArg UInt8.toNat he
    rw [UInt8.toNat_ofNat', Nat.mod_eq_of_lt (by omega)] at hmod
    exact absurd hmod (show 255 ≠ n by omega)
  intro h
  unfold String.utf8EncodeChar at h
  simp only at h
  split_ifs at h with h1 h2 h3
  all_goals
    simp only [List.mem_cons, List.not_mem_nil, or_false] at h
  · exact hff _ (by omega) h
  · rcases h with h | h
    all_goals exact hff _ (by omega) h
  · rcases h with h | h | h
    all_goals exact hff _ (by omega) h
  · rcases h with h | h | h | h
    all_goals exact hff _ (by omega) h

theorem ff_notMem_utf8 (s : List Char) : (0xff : UInt8) ∉ utf8 s := by
  intro h
  obtain ⟨c, -, hc⟩ := List.mem_flatMap.mp h
  exact ff_notMem_utf8EncodeChar c hc

/-- What ends with a byte that it does not contain can be told from what follows. -/
theorem terminated_inj {x : UInt8} : ∀ {a b r t : Bytes}, x ∉ a → x ∉ b →
    (a ++ x :: r = b ++ x :: t ↔ a = b ∧ r = t)
  | [], [], r, t, _, _ => by simp
  | [], y :: b, r, t, _, hb => by
    have hne : x ≠ y := fun he => hb (he ▸ List.mem_cons_self)
    simp [hne]
  | y :: a, [], r, t, ha, _ => by
    have hne : y ≠ x := fun he => ha (he ▸ List.mem_cons_self)
    simp [hne]
  | y :: a, z :: b, r, t, ha, hb => by
    have ih : a ++ x :: r = b ++ x :: t ↔ a = b ∧ r = t :=
      terminated_inj (fun h => ha (List.mem_cons_of_mem _ h)) fun h => hb (List.mem_cons_of_mem _ h)
    rw [List.cons_append, List.cons_append, List.cons_eq_cons, List.cons_eq_cons, ih, and_assoc]

/-- A text is known by its bytes. -/
theorem utf8_injective {s t : String} (h : utf8 s.toList = utf8 t.toList) : s = t :=
  Option.some.inj ((fromUTF8_eq_some.mpr rfl).symm.trans (fromUTF8_eq_some.mpr h))

/-! ### Hexadecimal digits -/

theorem hexVal_digitChar {n : ℕ} (h : n < 16) : hexVal n.digitChar = some n := by
  interval_cases n <;> decide

theorem utf8Size_of_hexVal {c : Char} {n : ℕ} (h : hexVal c = some n) : c.utf8Size = 1 := by
  have hle : ∀ d : Char, d.val ≤ 127 → c ≤ d → c.utf8Size = 1 := fun d hd hcd =>
    Char.utf8Size_eq_one_iff.mpr (UInt32.le_trans (Char.le_def.mp hcd) hd)
  unfold hexVal at h
  split_ifs at h with h1 h2 h3
  · exact hle '9' (by decide) h1.2
  · exact hle 'f' (by decide) h2.2
  · exact hle 'F' (by decide) h3.2

theorem hexDecode_hexEncode (b : Bytes) : hexDecode (hexEncode b) = some b := by
  induction b with
  | nil => rfl
  | cons x b ih =>
    have hx := x.toNat_lt
    have hval : 16 * (x.toNat / 16) + x.toNat % 16 = x.toNat := Nat.div_add_mod _ _
    rw [hexEncode, List.flatMap_cons, List.cons_append, List.singleton_append, hexDecode,
      hexVal_digitChar (by omega), hexVal_digitChar (by omega)]
    rw [hexEncode] at ih
    rw [ih]
    show some (UInt8.ofNat (16 * (x.toNat / 16) + x.toNat % 16) :: b) = some (x :: b)
    rw [hval, UInt8.ofNat_toNat]

theorem zero_notMem_hexEncode (b : Bytes) : Char.ofNat 0 ∉ hexEncode b := by
  have hdigit : ∀ n < 16, n.digitChar ≠ Char.ofNat 0 := by decide
  intro h
  obtain ⟨x, -, hx⟩ := List.mem_flatMap.mp h
  have hlt := x.toNat_lt
  simp only [List.mem_cons, List.not_mem_nil, or_false] at hx
  rcases hx with hx | hx
  · exact hdigit _ (by omega) hx.symm
  · exact hdigit _ (by omega) hx.symm

/-- Two digits, each of one byte, make a byte. -/
theorem byteLen_of_hexDecode {s : List Char} {b : Bytes} (h : hexDecode s = some b) :
    byteLen s = 2 * b.length := by
  fun_induction hexDecode s generalizing b with
  | case1 =>
    cases h
    rfl
  | case2 => cases h
  | case3 c d s ih =>
    obtain ⟨x, hx, h⟩ := Option.bind_eq_some_iff.mp h
    obtain ⟨y, hy, h⟩ := Option.bind_eq_some_iff.mp h
    obtain ⟨t, ht, h⟩ := Option.bind_eq_some_iff.mp h
    cases h
    rw [byteLen_cons, byteLen_cons, utf8Size_of_hexVal hx, utf8Size_of_hexVal hy, ih ht,
      List.length_cons]
    omega

end Haentgl.Lib.Text
