import Haentgl.Lib.Text
import Haentgl.Protocol.Constants

/-! # The text of a tenant's key

A tenant is named by a region, a zone, a namespace and a cluster. `encode_tenant_key` writes the four
texts one behind the other, their letters rotated, with a header of eight hexadecimal digits: the
lengths of the four in bytes, one byte for each. `decode_tenant_key` takes the header apart and slices
the four out of the text.

A position in the text is a sum of lengths. The source adds them as `u8`, so the sum of the first three
must not pass `255`: `decode_encode_iff` says that this is all that is needed. The rotation moves every
character within its class and is undone at the same position (`obfuscate_restore`). -/

namespace Haentgl.Backend.Keys

open Haentgl.Lib.Parse Haentgl.Lib.Text Haentgl.Protocol.Constants

structure TenantKey where
  region : String
  availableZone : String
  namespaceName : String
  clusterName : String
  deriving DecidableEq, Repr

/-- The key of a client that names no tenant. -/
def testTenantKey : TenantKey := ⟨"NONE", "NONE", "NONE", "NONE"⟩

/-! ### The codec -/

/-- How far the letter at position `index` is moved. -/
def shift (index : ℕ) : UInt8 := UInt8.ofNat ((index * 3 + 10) % 26)

/-- The first letter of the alphabet that `c` belongs to. -/
def base (c : Char) : UInt8 := if c.isLower then 97 else 65

def obfuscateChar (b : Profile) (c : Char) (index : ℕ) : Option Char :=
  if c.isAlpha then do
    let x ← subU8 b c.toUInt8 (base c)
    let x ← addU8 b x 26
    let x ← subU8 b x (shift index)
    let x ← addU8 b (x % 26) (base c)
    return Char.ofUInt8 x
  else some c

def restoreChar (b : Profile) (c : Char) (index : ℕ) : Option Char :=
  if c.isAlpha then do
    let x ← subU8 b c.toUInt8 (base c)
    let x ← addU8 b x (shift index)
    let x ← addU8 b (x % 26) (base c)
    return Char.ofUInt8 x
  else some c

/-- Every character with its position. -/
def mapChars (f : Char → ℕ → Option Char) (s : List Char) : Option (List Char) :=
  s.zipIdx.mapM fun ci => f ci.1 ci.2

def obfuscateString (b : Profile) (s : String) : Option String := do
  return String.ofList (← mapChars (obfuscateChar b) s.toList)

def restoreString (b : Profile) (s : String) : Option String := do
  return String.ofList (← mapChars (restoreChar b) s.toList)

/-- The length of a text as a byte; longer ones are cut. -/
def lenU8 (s : String) : UInt8 := UInt8.ofNat (byteLen s.toList)

def encodeTenantKey (b : Profile) (k : TenantKey) : Option String := do
  let encodeRegion ← obfuscateString b k.region
  let encodeAz ← obfuscateString b k.availableZone
  let encodeS ← obfuscateString b k.namespaceName
  let encodeClusterName ← obfuscateString b k.clusterName
  let encodeLen := [lenU8 encodeRegion, lenU8 encodeAz, lenU8 encodeS, lenU8 encodeClusterName]
  return String.ofList (hexEncode encodeLen ++ encodeRegion.toList ++ encodeAz.toList ++
    encodeS.toList ++ encodeClusterName.toList)

/-- `iter().sum::<u8>()`. -/
def sumU8 (b : Profile) (l : Bytes) : Option UInt8 := l.foldlM (addU8 b) 0

/-- The field of `len` bytes behind the header and the fields of the lengths `before`. -/
def decodeField (b : Profile) (key : List Char) (before : Bytes) (len : UInt8) : Option String := do
  let sum ← sumU8 b before
  let start := 8 + sum.toNat
  let stop := start + len.toNat
  let text ← slice start stop key
  restoreString b (String.ofList text)

/-- One round of the loop over the lengths. -/
def decodeRound (b : Profile) (key : List Char) (keyLen : Bytes) (k : TenantKey) (li : UInt8 × ℕ) :
    Option TenantKey := do
  let field ← decodeField b key (keyLen.take li.2) li.1
  match li.2 with
  | 0 => return { k with region := field }
  | 1 => return { k with availableZone := field }
  | 2 => return { k with namespaceName := field }
  | 3 => return { k with clusterName := field }
  | _ => return k

def decodeTenantKey (b : Profile) (key : String) : Option TenantKey := do
  let header ← slice 0 8 key.toList
  let keyLen ← hexDecode header
  keyLen.zipIdx.foldlM (decodeRound b key.toList keyLen) ⟨"", "", "", ""⟩

/-! ### Letters -/

theorem shift_lt (index : ℕ) : (shift index).toNat < 26 := by
  have h : (index * 3 + 10) % 26 < 26 := Nat.mod_lt _ (by decide)
  rw [shift, UInt8.toNat_ofNat', Nat.mod_eq_of_lt (by omega)]
  exact h

/-- A letter is one of the twenty-six from its base on. -/
theorem exists_letter {c : Char} (h : c.isAlpha) :
    ∃ k < 26, c = Char.ofUInt8 (base c + UInt8.ofNat k) := by
  have hc : Char.ofNat c.toNat = c := Char.ofNat_toNat c
  have hcase : (c.isUpper || c.isLower) = true := h
  rcases Bool.or_eq_true_iff.mp hcase with hu | hl
  · obtain ⟨h3, h4⟩ : 65 ≤ c.toNat ∧ c.toNat ≤ 90 := of_decide_eq_true hu
    refine ⟨c.toNat - 65, by omega, ?_⟩
    rw [← hc]
    generalize c.toNat = n at h3 h4
    interval_cases n <;> decide
  · have hrange : (decide (97 ≤ c.val) && decide (c.val ≤ 122)) = true := hl
    obtain ⟨h1, h2⟩ := Bool.and_eq_true_iff.mp hrange
    have h3 : 97 ≤ c.toNat := of_decide_eq_true h1
    have h4 : c.toNat ≤ 122 := of_decide_eq_true h2
    refine ⟨c.toNat - 97, by omega, ?_⟩
    rw [← hc]
    generalize c.toNat = n at h3 h4
    interval_cases n <;> decide

theorem letter_ofUInt8 (c : Char) {k : ℕ} (hk : k < 26) :
    (Char.ofUInt8 (base c + UInt8.ofNat k)).isAlpha ∧
      base (Char.ofUInt8 (base c + UInt8.ofNat k)) = base c ∧
      (Char.ofUInt8 (base c + UInt8.ofNat k)).toUInt8 = base c + UInt8.ofNat k ∧
      (Char.ofUInt8 (base c + UInt8.ofNat k)).utf8Size = 1 := by
  unfold base
  cases hc : c.isLower
  · interval_cases k <;> decide
  · interval_cases k <;> decide

theorem base_le (c : Char) : (base c).toNat ≤ 97 := by
  unfold base
  split_ifs <;> decide

theorem toNat_ofNat_letter {k : ℕ} (hk : k < 26) : (UInt8.ofNat k).toNat = k := by
  rw [UInt8.toNat_ofNat', Nat.mod_eq_of_lt (by omega)]

theorem subU8_base (b : Profile) (c : Char) {k : ℕ} (hk : k < 26) :
    subU8 b (base c + UInt8.ofNat k) (base c) = some (UInt8.ofNat k) := by
  have hb := base_le c
  have hsum : (base c + UInt8.ofNat k).toNat = (base c).toNat + k := by
    rw [UInt8.toNat_add, toNat_ofNat_letter hk, Nat.mod_eq_of_lt (by omega)]
  have hsub : base c + UInt8.ofNat k - base c = UInt8.ofNat k := by grind
  rw [subU8_eq (by omega), hsub]

theorem addU8_base (b : Profile) (c : Char) (x : UInt8) :
    addU8 b (x % 26) (base c) = some (base c + UInt8.ofNat (x.toNat % 26)) := by
  have hb := base_le c
  have hlt : x.toNat % 26 < 26 := Nat.mod_lt _ (by decide)
  have hmod : x % 26 = UInt8.ofNat (x.toNat % 26) := by
    apply UInt8.toNat_inj.mp
    rw [UInt8.toNat_mod, toNat_ofNat_letter hlt]
    rfl
  rw [hmod, addU8_eq (by rw [toNat_ofNat_letter hlt]; omega), UInt8.add_comm]

/-- A letter is moved back by the shift, around the alphabet. -/
theorem obfuscateChar_letter (b : Profile) (c : Char) {k : ℕ} (hk : k < 26) (i : ℕ) :
    obfuscateChar b (Char.ofUInt8 (base c + UInt8.ofNat k)) i =
      some (Char.ofUInt8 (base c + UInt8.ofNat ((k + 26 - (shift i).toNat) % 26))) := by
  obtain ⟨h1, h2, h3, -⟩ := letter_ofUInt8 c hk
  have hs := shift_lt i
  have hn := toNat_ofNat_letter hk
  have h26 : (UInt8.ofNat k + 26).toNat = k + 26 := by
    rw [UInt8.toNat_add, hn, show (26 : UInt8).toNat = 26 from rfl, Nat.mod_eq_of_lt (by omega)]
  have hle : (shift i).toNat ≤ (UInt8.ofNat k + 26).toNat := by omega
  have hadd : addU8 b (UInt8.ofNat k) 26 = some (UInt8.ofNat k + 26) :=
    addU8_eq (by rw [hn]; change k + 26 < 256; omega)
  rw [obfuscateChar, if_pos h1, h2, h3, subU8_base b c hk]
  simp only [bind, Option.bind, hadd, subU8_eq hle, addU8_base,
    UInt8.toNat_sub_of_le _ _ (UInt8.le_iff_toNat_le.mpr hle), h26]
  rfl

/-- A letter is moved on by the shift, around the alphabet. -/
theorem restoreChar_letter (b : Profile) (c : Char) {k : ℕ} (hk : k < 26) (i : ℕ) :
    restoreChar b (Char.ofUInt8 (base c + UInt8.ofNat k)) i =
      some (Char.ofUInt8 (base c + UInt8.ofNat ((k + (shift i).toNat) % 26))) := by
  obtain ⟨h1, h2, h3, -⟩ := letter_ofUInt8 c hk
  have hs := shift_lt i
  have hn := toNat_ofNat_letter hk
  have hadd : addU8 b (UInt8.ofNat k) (shift i) = some (UInt8.ofNat k + shift i) :=
    addU8_eq (by omega)
  have hsum : (UInt8.ofNat k + shift i).toNat = k + (shift i).toNat := by
    rw [UInt8.toNat_add, hn, Nat.mod_eq_of_lt (by omega)]
  rw [restoreChar, if_pos h1, h2, h3, subU8_base b c hk]
  simp only [bind, Option.bind, hadd, addU8_base, hsum]
  rfl

/-- Letters of one alphabet, or one and the same character that is no letter. -/
def SameClass (c d : Char) : Prop :=
  c.isUpper = d.isUpper ∧ c.isLower = d.isLower ∧ (c.isAlpha = false → c = d)

theorem case_letter (c : Char) {k : ℕ} (hk : k < 26) :
    (Char.ofUInt8 (base c + UInt8.ofNat k)).isLower = c.isLower ∧
      (Char.ofUInt8 (base c + UInt8.ofNat k)).isUpper = !c.isLower := by
  unfold base
  cases hc : c.isLower
  · interval_cases k <;> decide
  · interval_cases k <;> decide

/-- Two letters behind one base. -/
theorem sameClass_letters (c : Char) {k j : ℕ} (hk : k < 26) (hj : j < 26) :
    SameClass (Char.ofUInt8 (base c + UInt8.ofNat k)) (Char.ofUInt8 (base c + UInt8.ofNat j)) := by
  obtain ⟨hl, hu⟩ := case_letter c hk
  obtain ⟨hl', hu'⟩ := case_letter c hj
  refine ⟨hu.trans hu'.symm, hl.trans hl'.symm, fun h => ?_⟩
  rw [(letter_ofUInt8 c hk).1] at h
  cases h

theorem SameClass.utf8Size_eq {c d : Char} (h : SameClass c d) : c.utf8Size = d.utf8Size := by
  obtain ⟨hu, hl, hne⟩ := h
  by_cases hc : c.isAlpha
  · have hd : d.isAlpha := by
      show (d.isUpper || d.isLower) = true
      rw [← hu, ← hl]
      exact hc
    obtain ⟨k, hk, he⟩ := exists_letter hc
    obtain ⟨j, hj, he'⟩ := exists_letter hd
    rw [he, he', (letter_ofUInt8 c hk).2.2.2, (letter_ofUInt8 d hj).2.2.2]
  · rw [hne (Bool.eq_false_iff.mpr hc)]

/-- `f` moves every character within its class, in both builds alike, and `g` moves it back. -/
def Undoes (f g : Profile → Char → ℕ → Option Char) : Prop :=
  ∀ c i, ∃ d, (∀ b, f b c i = some d ∧ g b d i = some c) ∧ SameClass c d

/-- Two functions that leave alone what is no letter, and whose moves of the twenty-six letters undo
each other. -/
theorem undoes_of_letters {f g : Profile → Char → ℕ → Option Char} {u v : ℕ → ℕ → ℕ}
    (hf : ∀ b c k i, k < 26 → f b (Char.ofUInt8 (base c + UInt8.ofNat k)) i =
      some (Char.ofUInt8 (base c + UInt8.ofNat (u k i))))
    (hg : ∀ b c k i, k < 26 → g b (Char.ofUInt8 (base c + UInt8.ofNat k)) i =
      some (Char.ofUInt8 (base c + UInt8.ofNat (v k i))))
    (hout : ∀ b c i, ¬ c.isAlpha → f b c i = some c ∧ g b c i = some c)
    (hlt : ∀ k i, u k i < 26) (hback : ∀ k i, k < 26 → v (u k i) i = k) : Undoes f g := by
  intro c i
  by_cases hc : c.isAlpha
  · obtain ⟨k, hk, he⟩ := exists_letter hc
    have hclass := sameClass_letters c hk (hlt k i)
    have hmove := fun b => hf b c k i hk
    rw [← he] at hclass hmove
    refine ⟨_, fun b => ⟨hmove b, ?_⟩, hclass⟩
    rw [hg b c _ i (hlt k i), hback k i hk, ← he]
  · exact ⟨c, fun b => hout b c i hc, rfl, rfl, fun _ => rfl⟩

/-- **Obfuscation is undone** at the same position. -/
theorem undoes_obfuscateChar : Undoes obfuscateChar restoreChar := by
  refine undoes_of_letters (fun b c _ i hk => obfuscateChar_letter b c hk i)
    (fun b c _ i hk => restoreChar_letter b c hk i) (fun b c i hc => ⟨if_neg hc, if_neg hc⟩)
    (fun k i => Nat.mod_lt _ (by decide)) fun k i hk => ?_
  have hs := shift_lt i
  omega

/-- What is restored is obfuscated again to the same character. -/
theorem undoes_restoreChar : Undoes restoreChar obfuscateChar := by
  refine undoes_of_letters (fun b c _ i hk => restoreChar_letter b c hk i)
    (fun b c _ i hk => obfuscateChar_letter b c hk i) (fun b c i hc => ⟨if_neg hc, if_neg hc⟩)
    (fun k i => Nat.mod_lt _ (by decide)) fun k i hk => ?_
  have hs := shift_lt i
  omega

/-! ### Texts -/

/-- Character by character, a text is moved within its classes and back. -/
theorem Undoes.exists_chars {f g : Profile → Char → ℕ → Option Char} (h : Undoes f g) :
    ∀ (s : List Char) (n : ℕ), ∃ t, (∀ b, (s.zipIdx n).mapM (fun ci => f b ci.1 ci.2) = some t ∧
      (t.zipIdx n).mapM (fun ci => g b ci.1 ci.2) = some s) ∧ List.Forall₂ SameClass s t
  | [], _ => ⟨[], fun _ => ⟨rfl, rfl⟩, .nil⟩
  | c :: s, n => by
    obtain ⟨d, hd, hclass⟩ := h c n
    obtain ⟨t, ht, hrest⟩ := h.exists_chars s (n + 1)
    refine ⟨d :: t, fun b => ?_, .cons hclass hrest⟩
    obtain ⟨hf, hg⟩ := hd b
    obtain ⟨hfs, hgs⟩ := ht b
    exact ⟨by simp [List.zipIdx_cons, hf, hfs], by simp [List.zipIdx_cons, hg, hgs]⟩

/-- What the two functions keep of a text: the number of characters, the number of bytes, and the class
and case of every character. -/
structure Kept (s t : String) : Prop where
  length : s.toList.length = t.toList.length
  byteLen : byteLen s.toList = byteLen t.toList
  sameClass : List.Forall₂ SameClass s.toList t.toList

theorem byteLen_eq_of_sameClass {s t : List Char} (h : List.Forall₂ SameClass s t) :
    byteLen s = byteLen t := by
  induction h with
  | nil => rfl
  | cons hc _ ih => rw [byteLen_cons, byteLen_cons, hc.utf8Size_eq, ih]

theorem Undoes.exists_string {f g : Profile → Char → ℕ → Option Char} (h : Undoes f g) (s : String) :
    ∃ t, (∀ b, mapChars (f b) s.toList = some t.toList ∧ mapChars (g b) t.toList = some s.toList) ∧
      Kept s t := by
  obtain ⟨t, ht, hclass⟩ := h.exists_chars s.toList 0
  refine ⟨String.ofList t, ?_, ?_⟩
  · rw [String.toList_ofList]
    exact ht
  · refine ⟨?_, ?_, ?_⟩ <;> rw [String.toList_ofList]
    · exact hclass.length_eq
    · exact byteLen_eq_of_sameClass hclass
    · exact hclass

theorem obfuscateString_eq_some {b : Profile} {s t : String}
    (h : mapChars (obfuscateChar b) s.toList = some t.toList) : obfuscateString b s = some t := by
  rw [obfuscateString, h]
  simp

theorem restoreString_eq_some {b : Profile} {s t : String}
    (h : mapChars (restoreChar b) s.toList = some t.toList) : restoreString b s = some t := by
  rw [restoreString, h]
  simp

/-- **Obfuscation is a bijection** that keeps lengths and classes, and so is its inverse. No `u8`
operation overflows: the build with overflow checks returns the same. -/
theorem obfuscate_restore :
    (∀ s, ∃ t, (∀ b, obfuscateString b s = some t ∧ restoreString b t = some s) ∧ Kept s t) ∧
    (∀ s, ∃ t, (∀ b, restoreString b s = some t ∧ obfuscateString b t = some s) ∧ Kept s t) ∧
    ∀ c i, (obfuscateChar .dev c i).isSome ∧ (restoreChar .dev c i).isSome := by
  refine ⟨fun s => ?_, fun s => ?_, fun c i => ?_⟩
  · obtain ⟨t, ht, hkept⟩ := undoes_obfuscateChar.exists_string s
    exact ⟨t, fun b => ⟨obfuscateString_eq_some (ht b).1, restoreString_eq_some (ht b).2⟩, hkept⟩
  · obtain ⟨t, ht, hkept⟩ := undoes_restoreChar.exists_string s
    exact ⟨t, fun b => ⟨restoreString_eq_some (ht b).1, obfuscateString_eq_some (ht b).2⟩, hkept⟩
  · obtain ⟨d, hd, -⟩ := undoes_obfuscateChar c i
    obtain ⟨e, he, -⟩ := undoes_restoreChar c i
    exact ⟨by rw [(hd .dev).1]; rfl, by rw [(he .dev).1]; rfl⟩

theorem exists_obfuscateString (b : Profile) (s : String) :
    ∃ t, obfuscateString b s = some t ∧ byteLen t.toList = byteLen s.toList ∧
      restoreString b t = some s := by
  obtain ⟨t, ht, hkept⟩ := undoes_obfuscateChar.exists_string s
  exact ⟨t, obfuscateString_eq_some (ht b).1, hkept.byteLen.symm, restoreString_eq_some (ht b).2⟩

/-- What is not a letter is left where it is. -/
theorem mem_of_restoreChars {b : Profile} {c : Char} (hc : ¬ c.isAlpha) : ∀ {s t : List Char} {n : ℕ},
    (t.zipIdx n).mapM (fun ci => restoreChar b ci.1 ci.2) = some s → c ∈ t → c ∈ s
  | s, [], n, _, hmem => by simp at hmem
  | s, d :: t, n, h, hmem => by
    rw [List.zipIdx_cons, List.mapM_cons] at h
    obtain ⟨d', hd, h₁⟩ := Option.bind_eq_some_iff.mp h
    obtain ⟨s', hs, h₂⟩ := Option.bind_eq_some_iff.mp h₁
    cases h₂
    rcases List.mem_cons.mp hmem with rfl | hmem
    · have hsame : restoreChar b c n = some c := if_neg hc
      rw [hsame] at hd
      cases hd
      exact List.mem_cons_self
    · exact List.mem_cons_of_mem _ (mem_of_restoreChars hc hs hmem)

theorem mem_of_restoreString {b : Profile} {c : Char} (hc : ¬ c.isAlpha) {s t : String}
    (h : restoreString b t = some s) (hmem : c ∈ t.toList) : c ∈ s.toList := by
  obtain ⟨l, hl, h₁⟩ := Option.bind_eq_some_iff.mp h
  cases h₁
  rw [String.toList_ofList]
  exact mem_of_restoreChars hc hl hmem

/-! ### Sums of lengths -/

/-- The sum of some lengths, as a number. -/
def total (l : Bytes) : ℕ := (l.map UInt8.toNat).sum

/-- A sum comes out unless it overflows and overflows are checked; it is the true one up to a byte. -/
theorem foldlM_addU8 {b : Profile} : ∀ {l : Bytes} {x s : UInt8}, l.foldlM (addU8 b) x = some s ↔
    (b = .dev → x.toNat + total l < 256) ∧ s.toNat = (x.toNat + total l) % 256
  | [], x, s => by
    have hx := x.toNat_lt
    have htotal : x.toNat + total [] = x.toNat := rfl
    rw [htotal, Nat.mod_eq_of_lt hx, UInt8.toNat_inj, List.foldlM_nil]
    constructor
    · intro h
      cases h
      exact ⟨fun _ => hx, rfl⟩
    · rintro ⟨-, rfl⟩
      rfl
  | y :: l, x, s => by
    have htotal : total (y :: l) = y.toNat + total l := by simp [total]
    have hsum := UInt8.toNat_add x y
    rw [List.foldlM_cons, Option.bind_eq_bind, htotal, addU8]
    split_ifs with ho
    · simp only [Option.bind_none, reduceCtorEq, false_iff, not_and]
      intro h
      have := h ho.1
      omega
    · have hmod : ((x.toNat + y.toNat) % 2 ^ 8 + total l) % 256 =
          (x.toNat + (y.toNat + total l)) % 256 := by omega
      rw [Option.bind_some, foldlM_addU8, hsum, hmod]
      refine and_congr_left fun _ => forall_congr' fun hb => ?_
      have hlt : x.toNat + y.toNat < 256 := by
        by_contra hge
        exact ho ⟨hb, by omega⟩
      omega

theorem sumU8_eq_some {b : Profile} {l : Bytes} {s : UInt8} :
    sumU8 b l = some s ↔ (b = .dev → total l < 256) ∧ s.toNat = total l % 256 := by
  rw [sumU8, foldlM_addU8]
  simp

/-! ### The round trip -/

/-- The text of a field behind fields of the lengths `before`; the offset is a sum within a byte. -/
def FieldText (b : Profile) (key : List Char) (before : Bytes) (len : UInt8) (f : String) : Prop :=
  (b = .dev → total before < 256) ∧ ∃ p text r, key = p ++ (text ++ r) ∧
    byteLen p = 8 + total before % 256 ∧ byteLen text = len.toNat ∧
    restoreString b (String.ofList text) = some f

theorem decodeField_eq_some {b : Profile} {key : List Char} {before : Bytes} {len : UInt8}
    {f : String} : decodeField b key before len = some f ↔ FieldText b key before len f := by
  unfold decodeField FieldText
  constructor
  · intro h
    obtain ⟨sum, hsum, h⟩ := Option.bind_eq_some_iff.mp h
    obtain ⟨text, htext, h⟩ := Option.bind_eq_some_iff.mp h
    obtain ⟨p, r, hkey, hp, hlen⟩ := slice_eq_some.mp htext
    obtain ⟨hdev, hn⟩ := sumU8_eq_some.mp hsum
    exact ⟨hdev, p, text, r, hkey, by omega, by omega, h⟩
  · rintro ⟨hdev, p, text, r, hkey, hp, hlen, hf⟩
    have hmod : total before % 256 < 256 := Nat.mod_lt _ (by decide)
    have hsum : (UInt8.ofNat (total before % 256)).toNat = total before % 256 := by
      rw [UInt8.toNat_ofNat', Nat.mod_eq_of_lt hmod]
    have htext : slice (8 + (UInt8.ofNat (total before % 256)).toNat)
        (8 + (UInt8.ofNat (total before % 256)).toNat + len.toNat) key = some text :=
      slice_eq_some.mpr ⟨p, r, hkey, by omega, by omega⟩
    exact Option.bind_eq_some_iff.mpr ⟨_, sumU8_eq_some.mpr ⟨hdev, hsum⟩,
      Option.bind_eq_some_iff.mpr ⟨text, htext, hf⟩⟩

/-- The loop over four lengths, written out. -/
theorem foldlM_decodeRound (b : Profile) (key : List Char) (l₀ l₁ l₂ l₃ : UInt8) (k : TenantKey) :
    [l₀, l₁, l₂, l₃].zipIdx.foldlM (decodeRound b key [l₀, l₁, l₂, l₃]) k = do
      let region ← decodeField b key [] l₀
      let availableZone ← decodeField b key [l₀] l₁
      let namespaceName ← decodeField b key [l₀, l₁] l₂
      let clusterName ← decodeField b key [l₀, l₁, l₂] l₃
      return ⟨region, availableZone, namespaceName, clusterName⟩ := by
  simp [List.zipIdx_cons, decodeRound, Option.bind_assoc]

/-- Eight digits are the lengths of the fields. -/
theorem slice_header {header : List Char} {l₀ l₁ l₂ l₃ : UInt8}
    (h : hexDecode header = some [l₀, l₁, l₂, l₃]) (rest : List Char) :
    slice 0 8 (header ++ rest) = some header := by
  have hlen := byteLen_of_hexDecode h
  exact slice_eq_some.mpr ⟨[], rest, rfl, rfl, by simpa using hlen⟩

/-- **The text of a key**: eight digits that are the lengths of the fields, and the fields. -/
def KeyText (b : Profile) (key : List Char) (k : TenantKey) : Prop :=
  ∃ header rest l₀ l₁ l₂ l₃, key = header ++ rest ∧ hexDecode header = some [l₀, l₁, l₂, l₃] ∧
    FieldText b key [] l₀ k.region ∧ FieldText b key [l₀] l₁ k.availableZone ∧
    FieldText b key [l₀, l₁] l₂ k.namespaceName ∧ FieldText b key [l₀, l₁, l₂] l₃ k.clusterName

/-- Exactly the texts of keys are decoded. -/
theorem decodeTenantKey_eq_some {b : Profile} {key : String} {k : TenantKey} :
    decodeTenantKey b key = some k ↔ KeyText b key.toList k := by
  unfold decodeTenantKey KeyText
  constructor
  · intro h
    obtain ⟨header, hheader, h⟩ := Option.bind_eq_some_iff.mp h
    obtain ⟨lens, hlens, h⟩ := Option.bind_eq_some_iff.mp h
    obtain ⟨p, rest, hkey, hp, hb⟩ := slice_eq_some.mp hheader
    -- eight bytes of digits are four lengths
    have hfour : lens.length = 4 := by
      have := byteLen_of_hexDecode hlens
      omega
    obtain ⟨l₀, l₁, l₂, l₃, rfl⟩ := List.length_eq_four.mp hfour
    have hnil : p = [] := by
      rcases p with _ | ⟨c, p⟩
      · rfl
      · have := c.utf8Size_pos
        rw [byteLen_cons] at hp
        omega
    rw [foldlM_decodeRound] at h
    obtain ⟨region, h₀, h⟩ := Option.bind_eq_some_iff.mp h
    obtain ⟨availableZone, h₁, h⟩ := Option.bind_eq_some_iff.mp h
    obtain ⟨namespaceName, h₂, h⟩ := Option.bind_eq_some_iff.mp h
    obtain ⟨clusterName, h₃, h⟩ := Option.bind_eq_some_iff.mp h
    cases h
    refine ⟨header, rest, l₀, l₁, l₂, l₃, by rw [hkey, hnil]; rfl, hlens, ?_⟩
    exact ⟨decodeField_eq_some.mp h₀, decodeField_eq_some.mp h₁, decodeField_eq_some.mp h₂,
      decodeField_eq_some.mp h₃⟩
  · rintro ⟨header, rest, l₀, l₁, l₂, l₃, hkey, hlens, h₀, h₁, h₂, h₃⟩
    have hheader : slice 0 8 key.toList = some header := by
      rw [hkey]
      exact slice_header hlens rest
    rw [← decodeField_eq_some] at h₀ h₁ h₂ h₃
    simp only [hheader, hlens, foldlM_decodeRound, h₀, h₁, h₂, h₃, Option.bind_eq_bind,
      Option.bind_some]
    rfl

/-- A field behind others whose lengths add up to less than `256` bytes is found. -/
theorem fieldText_append {b : Profile} {key p r : List Char} {before : Bytes} {len : UInt8}
    {text f : String} (hkey : key = p ++ (text.toList ++ r)) (hb : total before < 256)
    (hp : byteLen p = 8 + total before) (hlen : byteLen text.toList = len.toNat)
    (hf : restoreString b text = some f) : FieldText b key before len f := by
  have hmod : total before % 256 = total before := Nat.mod_eq_of_lt hb
  refine ⟨fun _ => hb, p, text.toList, r, hkey, by omega, hlen, ?_⟩
  rw [String.ofList_toList]
  exact hf

theorem toNat_lenU8 {s : String} (h : byteLen s.toList ≤ 255) : (lenU8 s).toNat = byteLen s.toList := by
  rw [lenU8, UInt8.toNat_ofNat', Nat.mod_eq_of_lt (by omega)]

/-- The parts of an encoded key. -/
theorem exists_encodeTenantKey (b : Profile) (k : TenantKey) :
    ∃ r a n c : String, encodeTenantKey b k = some (String.ofList
        (hexEncode [lenU8 r, lenU8 a, lenU8 n, lenU8 c] ++ r.toList ++ a.toList ++ n.toList ++
          c.toList)) ∧
      (byteLen r.toList = byteLen k.region.toList ∧ restoreString b r = some k.region) ∧
      (byteLen a.toList = byteLen k.availableZone.toList ∧
        restoreString b a = some k.availableZone) ∧
      (byteLen n.toList = byteLen k.namespaceName.toList ∧
        restoreString b n = some k.namespaceName) ∧
      (byteLen c.toList = byteLen k.clusterName.toList ∧
        restoreString b c = some k.clusterName) := by
  obtain ⟨r, hr, hr'⟩ := exists_obfuscateString b k.region
  obtain ⟨a, ha, ha'⟩ := exists_obfuscateString b k.availableZone
  obtain ⟨n, hn, hn'⟩ := exists_obfuscateString b k.namespaceName
  obtain ⟨c, hc, hc'⟩ := exists_obfuscateString b k.clusterName
  refine ⟨r, a, n, c, ?_, hr', ha', hn', hc'⟩
  rw [encodeTenantKey, hr, ha, hn, hc]
  rfl

/-- No field holds a zero. -/
structure NulFree (k : TenantKey) : Prop where
  region : Char.ofNat 0 ∉ k.region.toList
  availableZone : Char.ofNat 0 ∉ k.availableZone.toList
  namespaceName : Char.ofNat 0 ∉ k.namespaceName.toList
  clusterName : Char.ofNat 0 ∉ k.clusterName.toList

/-- A zero in the text of a key is a zero in a field. -/
theorem zero_notMem_encode {b : Profile} {k : TenantKey} {text : String} (hk : NulFree k)
    (h : encodeTenantKey b k = some text) : 0 ∉ utf8 text.toList := by
  obtain ⟨r, a, n, c, he, ⟨-, hr⟩, ⟨-, ha⟩, ⟨-, hn⟩, ⟨-, hc⟩⟩ := exists_encodeTenantKey b k
  have hz : ¬ (Char.ofNat 0).isAlpha := by decide
  rw [he] at h
  cases h
  intro hmem
  have hmem := zero_mem_utf8 hmem
  simp only [String.toList_ofList, List.mem_append] at hmem
  rcases hmem with (((hmem | hmem) | hmem) | hmem) | hmem
  · exact zero_notMem_hexEncode _ hmem
  · exact hk.region (mem_of_restoreString hz hr hmem)
  · exact hk.availableZone (mem_of_restoreString hz ha hmem)
  · exact hk.namespaceName (mem_of_restoreString hz hn hmem)
  · exact hk.clusterName (mem_of_restoreString hz hc hmem)

/-- The header expresses every field. -/
structure Expressible (k : TenantKey) : Prop where
  region : byteLen k.region.toList ≤ 255
  availableZone : byteLen k.availableZone.toList ≤ 255
  namespaceName : byteLen k.namespaceName.toList ≤ 255
  clusterName : byteLen k.clusterName.toList ≤ 255

/-- The bytes in front of the last field. -/
def offset (k : TenantKey) : ℕ :=
  byteLen k.region.toList + byteLen k.availableZone.toList + byteLen k.namespaceName.toList

/-- All bytes of the fields. -/
def size (k : TenantKey) : ℕ := offset k + byteLen k.clusterName.toList

theorem byteLen_header (l : Bytes) : byteLen (hexEncode l) = 2 * l.length :=
  byteLen_of_hexDecode (hexDecode_hexEncode l)

/-- A key whose offsets fit into a byte is decoded, whatever the build. -/
theorem decode_encode {b : Profile} {k : TenantKey} (hk : Expressible k) (ho : offset k ≤ 255) :
    (encodeTenantKey b k >>= decodeTenantKey b) = some k := by
  obtain ⟨r, a, n, c, he, ⟨hr, hr'⟩, ⟨ha, ha'⟩, ⟨hn, hn'⟩, ⟨hc, hc'⟩⟩ := exists_encodeTenantKey b k
  unfold offset at ho
  have hlr := toNat_lenU8 (s := r) (by rw [hr]; exact hk.region)
  have hla := toNat_lenU8 (s := a) (by rw [ha]; exact hk.availableZone)
  have hln := toNat_lenU8 (s := n) (by rw [hn]; exact hk.namespaceName)
  have hlc := toNat_lenU8 (s := c) (by rw [hc]; exact hk.clusterName)
  have hhead : byteLen (hexEncode [lenU8 r, lenU8 a, lenU8 n, lenU8 c]) = 8 := byteLen_header _
  have t₁ : total [lenU8 r] = byteLen r.toList := by simp [total, hlr]
  have t₂ : total [lenU8 r, lenU8 a] = byteLen r.toList + byteLen a.toList := by
    simp [total, hlr, hla]
  have t₃ : total [lenU8 r, lenU8 a, lenU8 n] =
      byteLen r.toList + byteLen a.toList + byteLen n.toList := by
    simp [total, hlr, hla, hln, Nat.add_assoc]
  have hdec := hexDecode_hexEncode [lenU8 r, lenU8 a, lenU8 n, lenU8 c]
  rw [he, Option.bind_eq_bind, Option.bind_some, decodeTenantKey_eq_some, String.toList_ofList]
  generalize hexEncode [lenU8 r, lenU8 a, lenU8 n, lenU8 c] = h at hhead hdec
  refine ⟨h, r.toList ++ (a.toList ++ (n.toList ++ c.toList)), _, _, _, _, by simp, hdec,
    ?_, ?_, ?_, ?_⟩
  · exact fieldText_append (p := h) (r := a.toList ++ (n.toList ++ c.toList)) (by simp)
      (by simp [total]) (by simp [total, hhead]) hlr.symm hr'
  · exact fieldText_append (p := h ++ r.toList) (r := n.toList ++ c.toList) (by simp) (by omega)
      (by rw [byteLen_append]; omega) hla.symm ha'
  · exact fieldText_append (p := h ++ r.toList ++ a.toList) (r := c.toList) (by simp) (by omega)
      (by simp only [byteLen_append]; omega) hln.symm hn'
  · exact fieldText_append (p := h ++ r.toList ++ a.toList ++ n.toList) (r := []) (by simp)
      (by omega) (by simp only [byteLen_append]; omega) hlc.symm hc'

/-- With overflow checks, what is decoded at all has small offsets. -/
theorem offset_le_of_decode {k k' : TenantKey} (hk : Expressible k)
    (h : (encodeTenantKey .dev k >>= decodeTenantKey .dev) = some k') : offset k ≤ 255 := by
  obtain ⟨r, a, n, c, he, ⟨hr, -⟩, ⟨ha, -⟩, ⟨hn, -⟩, -⟩ := exists_encodeTenantKey .dev k
  have hlr := toNat_lenU8 (s := r) (by rw [hr]; exact hk.region)
  have hla := toNat_lenU8 (s := a) (by rw [ha]; exact hk.availableZone)
  have hln := toNat_lenU8 (s := n) (by rw [hn]; exact hk.namespaceName)
  rw [he, Option.bind_eq_bind, Option.bind_some, decodeTenantKey_eq_some, String.toList_ofList] at h
  obtain ⟨header, rest, l₀, l₁, l₂, l₃, hkey, hlens, -, -, -, hlast⟩ := h
  -- the header that is read is the one that was written
  have hread := slice_header hlens rest
  rw [← hkey] at hread
  simp only [List.append_assoc] at hread
  rw [slice_header (hexDecode_hexEncode _)] at hread
  cases hread
  rw [hexDecode_hexEncode] at hlens
  cases hlens
  have hlt := hlast.1 rfl
  have htotal : total [lenU8 r, lenU8 a, lenU8 n] = offset k := by
    simp [total, offset, hlr, hla, hln, hr, ha, hn, Nat.add_assoc]
  omega

/-- **The codec.** A key whose fields the header expresses is decoded from its encoding, in both builds
and without overflow, if and only if the last field starts within `255` bytes. -/
theorem decode_encode_iff {k : TenantKey} (hk : Expressible k) :
    (∀ b, (encodeTenantKey b k >>= decodeTenantKey b) = some k) ↔ offset k ≤ 255 := by
  constructor
  · intro h
    exact offset_le_of_decode hk (h .dev)
  · intro ho b
    exact decode_encode hk ho

/-- Dots and wide characters in the fields. -/
def wideKey : TenantKey := ⟨"eu-west.1", "zone-ß", "name€", "Cluster.7"⟩

theorem wideKey_codec : Expressible wideKey ∧
    ∀ b, (encodeTenantKey b wideKey >>= decodeTenantKey b) = some wideKey := by
  have hk : Expressible wideKey := ⟨by decide, by decide, by decide, by decide⟩
  exact ⟨hk, (decode_encode_iff hk).mpr (by decide)⟩

/-- A region and a zone of `128` bytes each. -/
def longKey : TenantKey :=
  ⟨String.ofList (List.replicate 128 'x'), String.ofList (List.replicate 128 'y'), "n", "c"⟩

theorem longKey_not_decoded : Expressible longKey ∧
    (encodeTenantKey .dev longKey >>= decodeTenantKey .dev) = none := by
  have hx : byteLen longKey.region.toList = 128 * 1 := by
    unfold longKey
    simp only [String.toList_ofList]
    exact byteLen_replicate 128 'x'
  have hy : byteLen longKey.availableZone.toList = 128 * 1 := by
    unfold longKey
    simp only [String.toList_ofList]
    exact byteLen_replicate 128 'y'
  have hk : Expressible longKey := ⟨by omega, by omega, by decide, by decide⟩
  refine ⟨hk, Option.eq_none_iff_forall_ne_some.mpr fun k' h => ?_⟩
  have ho := offset_le_of_decode hk h
  have hn : byteLen longKey.namespaceName.toList = 1 := by decide
  rw [offset] at ho
  omega

end Haentgl.Backend.Keys
