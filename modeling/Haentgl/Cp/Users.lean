import Haentgl.Cp.ActiveUsers
import Haentgl.Lib.Latest
import Haentgl.Lib.Text

/-! # One record for every active user

The key of a record is the hash of the five texts that name its user, each written with a byte behind it
that no text contains. So two records have the same bytes exactly if they are records of one user of one
tenant (`hashedBytes_eq_iff`), and where the hash does not collide the window is a table of users: a
snapshot has one record of a user at most, and a record is only ever replaced by a later one of the same
user. In the runs in which no record gets lost, the last record of every user is kept until it is
reported (`latest_kept`). -/

namespace Haentgl.Cp.Users

open Haentgl.Lib.Runs Haentgl.Lib.Parse Haentgl.Lib.Text Haentgl.Lib.Latest Haentgl.Backend.Keys
open Haentgl.Cp.ActiveUsers

/-! ### `user_com_hash` -/

/-- `Hasher::write_str`. -/
def writeStr (s : String) : Bytes := utf8 s.toList ++ [0xff]

/-- What is written to the hasher for a record. -/
def hashedBytes (c : UserCom) : Bytes :=
  writeStr c.cluster.region ++ writeStr c.cluster.availableZone ++ writeStr c.cluster.clusterName ++
    writeStr c.cluster.namespaceName ++ writeStr c.user

/-- `user_com_hash`, with the hash of the bytes as a parameter. -/
def userComHash (xxh3 : Bytes → UInt64) (c : UserCom) : UInt64 := xxh3 (hashedBytes c)

/-- The user of a record. -/
def userOf (r : Record) : TenantKey × String := (r.userCom.cluster, r.userCom.user)

/-- The first of some texts can be read back. -/
theorem writeStr_append_inj {s t : String} {a b : Bytes} :
    writeStr s ++ a = writeStr t ++ b ↔ s = t ∧ a = b := by
  unfold writeStr
  rw [List.append_assoc, List.append_assoc, List.singleton_append, List.singleton_append,
    terminated_inj (ff_notMem_utf8 _) (ff_notMem_utf8 _)]
  exact and_congr_left' ⟨utf8_injective, fun h => by rw [h]⟩

/-- **The key tells the users apart.** -/
theorem hashedBytes_eq_iff {c d : UserCom} :
    hashedBytes c = hashedBytes d ↔ c.cluster = d.cluster ∧ c.user = d.user := by
  have hlast : ∀ s t : String, writeStr s = writeStr t ↔ s = t := fun s t => by
    have h := @writeStr_append_inj s t [] []
    rwa [List.append_nil, List.append_nil, and_iff_left rfl] at h
  unfold hashedBytes
  simp only [List.append_assoc, writeStr_append_inj, hlast]
  rcases c with ⟨⟨r, z, n, k⟩, u, com, ts⟩
  rcases d with ⟨⟨r', z', n', k'⟩, u', com', ts'⟩
  simp only [TenantKey.mk.injEq]
  tauto

/-! ### What every run keeps -/

section Runs
variable {T : Type} {hash : UserCom → UInt64} {s s' : State T} {as : List (Act T)}

/-- The maps hold records under their keys that have been put; the records come with rising numbers; a
record that was replaced was put before one with the same key; a snapshot has every key once. -/
structure Filed (hash : UserCom → UInt64) (s : State T) : Prop where
  keyed : ∀ i k r, (s.table i).lookup k = some r → k = hash r.userCom
  held : ∀ i, ∀ r ∈ records (s.table i), r ∈ s.puts
  rising : s.puts.Pairwise fun r x => r.number < x.number
  used : ∀ r ∈ s.puts, r.number < s.next
  coming : ∀ r i, s.receiver = .loaded r i → r.number < s.next ∧ ∀ x ∈ s.puts, x.number < r.number
  replaced : ∀ r ∈ s.overwritten, ∃ pre post, s.puts = pre ++ r :: post ∧
    ∃ x ∈ post, hash x.userCom = hash r.userCom
  once : ∀ f ∈ s.returned, (f.map fun r => hash r.userCom).Nodup

theorem filed_init : Filed hash (init : State T) where
  keyed i k r h := by cases h
  held i r h := by cases h
  rising := .nil
  used r h := by cases h
  coming r i h := by cases h
  replaced r h := by cases h
  once f h := by cases h

/-- The keys of the records of a map are those of the map. -/
theorem map_records {m : Table} (h : ∀ k r, m.lookup k = some r → k = hash r.userCom) :
    (records m).map (fun r => hash r.userCom) = m.keys := by
  rw [records, List.map_map]
  refine List.map_congr_left fun e he => ?_
  exact (h e.1 e.2 (AList.mem_lookup_iff.mpr he)).symm

/-- A step that leaves the records where they are. -/
theorem Filed.of_eq (h : Filed hash s) (htable : s'.table = s.table) (hputs : s'.puts = s.puts)
    (hover : s'.overwritten = s.overwritten) (hret : s'.returned = s.returned) (hnext : s'.next = s.next)
    (hrec : s'.receiver = s.receiver) : Filed hash s' := by
  constructor
  · rw [htable]
    exact h.keyed
  · rw [htable, hputs]
    exact h.held
  · rw [hputs]
    exact h.rising
  · rw [hputs, hnext]
    exact h.used
  · rw [hputs, hnext, hrec]
    exact h.coming
  · rw [hputs, hover]
    exact h.replaced
  · rw [hret]
    exact h.once

section Steps
variable [DecidableEq T]

theorem filed_put {c : UserCom} (h : Filed hash s) (hs : step hash s (.put c) = some s') :
    Filed hash s' := by
  simp only [step] at hs
  split at hs
  · cases hs
    refine ⟨h.keyed, h.held, h.rising, fun r hr => ?_, fun r i hr => ?_, h.replaced, h.once⟩
    · exact Nat.lt_succ_of_lt (h.used r hr)
    · cases hr
      exact ⟨Nat.lt_succ_self _, h.used⟩
  · cases hs

theorem filed_insert (h : Filed hash s) (hs : step hash s .insert = some s') : Filed hash s' := by
  simp only [step] at hs
  split at hs
  · rename_i r i hr
    cases hs
    obtain ⟨hnum, hnew⟩ := h.coming r i hr
    constructor
    · -- the new record is under its key
      intro j k x hx
      rcases eq_or_ne j i with rfl | hj
      · simp only [Function.update_self] at hx
        by_cases hk : k = hash r.userCom
        · subst hk
          rw [AList.lookup_insert] at hx
          rw [Option.some.inj hx]
        · rw [AList.lookup_insert_ne hk] at hx
          exact h.keyed j k x hx
      · simp only [Function.update_of_ne hj] at hx
        exact h.keyed j k x hx
    · intro j x hx
      rcases eq_or_ne j i with rfl | hj
      · simp only [Function.update_self] at hx
        rcases mem_of_mem_insert hx with rfl | hx
        · simp
        · exact List.mem_append_left _ (h.held j x hx)
      · simp only [Function.update_of_ne hj] at hx
        exact List.mem_append_left _ (h.held j x hx)
    · refine List.pairwise_append.mpr ⟨h.rising, List.pairwise_singleton _ _, fun x hx y hy => ?_⟩
      rw [List.mem_singleton.mp hy]
      exact hnew x hx
    · intro x hx
      rcases List.mem_append.mp hx with hx | hx
      · exact h.used x hx
      · rw [List.mem_singleton.mp hx]
        exact hnum
    · intro x j hx
      cases hx
    · intro x hx
      rcases List.mem_append.mp hx with hx | hx
      · obtain ⟨pre, post, hputs, y, hy, hkey⟩ := h.replaced x hx
        refine ⟨pre, post ++ [r], ?_, y, List.mem_append_left _ hy, hkey⟩
        simp [hputs]
      · -- the record under this key has been put before
        have hlook : (s.table i).lookup (hash r.userCom) = some x := by
          rcases hl : (s.table i).lookup (hash r.userCom) with _ | y
          · simp [hl] at hx
          · simp only [hl, Option.toList_some, List.mem_singleton] at hx
            rw [hx]
        obtain ⟨pre, post, hputs⟩ := List.append_of_mem (h.held i x (mem_records.mpr ⟨_, hlook⟩))
        refine ⟨pre, post ++ [r], by simp [hputs], r, by simp, h.keyed i _ x hlook⟩
    · exact h.once
  · cases hs

theorem filed_snapshot {t : T} (h : Filed hash s) (hs : step hash s (.snapshot t) = some s') :
    Filed hash s' := by
  simp only [step] at hs
  split at hs
  · rename_i curr ht
    cases hs
    refine ⟨h.keyed, h.held, h.rising, h.used, h.coming, h.replaced, fun f hf => ?_⟩
    rcases List.mem_append.mp hf with hf | hf
    · exact h.once f hf
    · rw [List.mem_singleton.mp hf, map_records (h.keyed curr)]
      exact (s.table curr).keys_nodup
  · cases hs

theorem filed_clear {t : T} (h : Filed hash s) (hs : step hash s (.clear t) = some s') :
    Filed hash s' := by
  simp only [step] at hs
  split at hs
  · rename_i curr i ht
    cases hs
    refine ⟨fun j k x hx => ?_, fun j x hx => ?_, h.rising, h.used, h.coming, h.replaced, h.once⟩
    · rcases eq_or_ne j i with rfl | hj
      · simp at hx
      · simp only [Function.update_of_ne hj] at hx
        exact h.keyed j k x hx
    · rcases eq_or_ne j i with rfl | hj
      · simp only [Function.update_self] at hx
        cases hx
      · simp only [Function.update_of_ne hj] at hx
        exact h.held j x hx
  · cases hs

theorem filed_step {a : Act T} (h : Filed hash s) (hs : step hash s a = some s') : Filed hash s' := by
  cases a with
  | put c => exact filed_put h hs
  | insert => exact filed_insert h hs
  | snapshot t => exact filed_snapshot h hs
  | clear t => exact filed_clear h hs
  | load t =>
    simp only [step] at hs
    split at hs
    · cases hs
      exact h.of_eq rfl rfl rfl rfl rfl rfl
    · cases hs
  | compareExchange t =>
    simp only [step] at hs
    split at hs
    · split_ifs at hs
      · cases hs
        exact h.of_eq rfl rfl rfl rfl rfl rfl
      · cases hs
        exact h.of_eq rfl rfl rfl rfl rfl rfl
    · cases hs
  | loadInactive t =>
    simp only [step] at hs
    split at hs
    · cases hs
      exact h.of_eq rfl rfl rfl rfl rfl rfl
    · cases hs

theorem filed_run (h : (system hash).run as = some s) : Filed hash s :=
  System.invariant (I := Filed hash) filed_init (fun _ _ _ => filed_step) h

/-! ### The last record of every user -/

omit [DecidableEq T] in
/-- Where the hash does not collide, the last record of a user is not replaced. -/
theorem notMem_overwritten {xxh3 : Bytes → UInt64} (h : Filed (userComHash xxh3) s)
    (hfree : ∀ a ∈ s.puts, ∀ b ∈ s.puts, userComHash xxh3 a.userCom = userComHash xxh3 b.userCom →
      hashedBytes a.userCom = hashedBytes b.userCom) {r : Record} (hr : r ∈ latest userOf s.puts) :
    r ∉ s.overwritten := by
  intro hover
  obtain ⟨pre, post, hputs, x, hx, hkey⟩ := h.replaced r hover
  obtain ⟨pre', post', hputs', hlast⟩ := mem_latest.mp hr
  -- the record has one place among those that were put
  have hone : post = post' := by
    have hrising := h.rising
    rw [hputs] at hrising
    obtain ⟨-, hpost, hpre⟩ := List.pairwise_append.mp hrising
    have hnot : r ∉ pre := fun hmem => lt_irrefl _ (hpre r hmem r List.mem_cons_self)
    have hnot' : r ∉ post := fun hmem => lt_irrefl _ ((List.pairwise_cons.mp hpost).1 r hmem)
    exact ((List.append_cons_inj_of_notMem hnot hnot').mp (hputs.symm.trans hputs')).2.2
  have huser := hashedBytes_eq_iff.mp (hfree x (by rw [hputs]; simp [hx]) r (by rw [hputs]; simp) hkey)
  exact hlast x (hone ▸ hx) (Prod.ext huser.1 huser.2)

/-- **The last record of every user is kept.** Let the freezes of a run stay apart and no record go into
a map that is being drained, and let the hash not collide on what was put. Then the last record of every
user is in one of the maps or has been reported, and no report has two records of one user. -/
theorem latest_kept {xxh3 : Bytes → UInt64} (hap : (system (userComHash xxh3)).Every Apart as)
    (h : (system (userComHash xxh3)).run as = some s)
    (hfree : ∀ a ∈ s.puts, ∀ b ∈ s.puts, userComHash xxh3 a.userCom = userComHash xxh3 b.userCom →
      hashedBytes a.userCom = hashedBytes b.userCom) :
    (∀ r ∈ latest userOf s.puts, (∃ i, r ∈ records (s.table i)) ∨ ∃ f ∈ s.returned, r ∈ f) ∧
      ∀ f ∈ s.returned, (f.map userOf).Nodup := by
  have hfiled := filed_run h
  have hkept : Kept s := Inv.kept_state (System.invariant_of_every inv_init (fun _ _ _ => inv_step) hap h)
  refine ⟨fun r hr => ?_, fun f hf => ?_⟩
  · rcases hkept.kept r (mem_of_mem_latest hr) with hmap | hrep | hover
    · exact Or.inl hmap
    · exact Or.inr hrep
    · exact absurd hover (notMem_overwritten hfiled hfree hr)
  · -- two records of one user have one key
    refine List.Nodup.of_map (fun u => xxh3 (hashedBytes ⟨u.1, u.2, 0, 0⟩)) ?_
    rw [List.map_map]
    exact hfiled.once f hf

end Steps

end Runs

/-- A hash that tells the samples apart: the last but one of the bytes. -/
def sampleHash (b : Bytes) : UInt64 := (b.dropLast.getLast?.getD 0).toUInt64

/-- A record of the user `u` at a time. -/
def sampleUser (u : String) (ts : ℕ) : UserCom := ⟨testTenantKey, u, 3, ts⟩

/-- One user sends two commands and another one a command, and a freeze reports them. -/
def usersRun : List (Act Unit) :=
  [.put (sampleUser "u" 1), .insert, .put (sampleUser "v" 2), .insert, .put (sampleUser "u" 3), .insert,
    .load (), .compareExchange (), .snapshot ()]

theorem latest_kept_users : ∃ s, (system (userComHash sampleHash)).run usersRun = some s ∧
    latest userOf s.puts = [⟨1, sampleUser "v" 2⟩, ⟨2, sampleUser "u" 3⟩] ∧
    ∀ r ∈ latest userOf s.puts, (∃ i, r ∈ records (s.table i)) ∨ ∃ f ∈ s.returned, r ∈ f := by
  have hap : (system (userComHash sampleHash)).Every Apart usersRun :=
    System.every_of_everyFrom (by decide +kernel)
  refine ⟨_, rfl, by decide +kernel, (latest_kept hap rfl ?_).1⟩
  decide +kernel

end Haentgl.Cp.Users
