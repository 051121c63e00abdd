import BuiltInScript.Name.Set
import BuiltInScript.Proofs.Histories

/-!
# Names as keys

Equality, order and hash of names are made separately, but all of them look at the folded spelling
and at nothing else. So they agree for any two names, and it does not matter whether a spelling is
borrowed. That is what tables rely on: a set of names, be it a list that is searched or a hash table
with any hasher, remembers of all equal names the one that came first since they were removed.

**Results.**
* `Name.lawful`: equality, order, hash and borrowing agree.
* `Remembers.eq_some_iff`: what is remembered for a name after any calls, if each call changes it as
  a set does.
* `NameSet.recalls`: the set of names, and hash tables of names.
* `names_lawful`: both.
-/
namespace BuiltInScript

/-! ## Equality, order and hash -/

namespace Name

variable {a b c : Name} {H : Type}

/-- Keys are in the lexicographic order of their code points. -/
theorem compareKeys_eq_compare (as bs : List Char) :
    compareKeys as bs = compare (as.map Char.toNat) (bs.map Char.toNat) := by
  induction as generalizing bs with
  | nil => cases bs <;> rfl
  | cons a as ih =>
    cases bs with
    | nil => rfl
    | cons b bs =>
      rw [compareKeys, ih, List.map_cons, List.map_cons, List.compare_cons_cons]

theorem compare_eq (a b : Name) :
    compare a b = compare (a.key.map Char.toNat) (b.key.map Char.toNat) :=
  compareKeys_eq_compare a.key b.key

instance : Std.TransOrd Name where
  eq_swap := (compareKeys_swap _ _).symm
  isLE_trans {a b c} hab hbc := by
    rw [compare_eq] at hab hbc ⊢
    exact Std.TransCmp.isLE_trans hab hbc

instance : Std.LawfulBEqOrd Name := ⟨compare_eq_iff⟩

/-- A hasher that keeps all characters tells names apart, so no hasher is fed less. -/
theorem beq_iff_feed : (a == b) = true ↔
    ∀ (H : Type) (write : H → Char → H) (state : H), a.feed write state = b.feed write state := by
  rw [beq_iff]
  refine ⟨fun h H write state => by rw [feed, feed, h], fun h => ?_⟩
  have hall := h (List Char) (fun read c => c :: read) []
  simpa [feed] using hall

theorem borrow_beq (a b : Name) : (a.borrow == b.borrow) = (a == b) := by
  show (a.borrow.key == b.borrow.key) = (a.key == b.key)
  rw [key_borrow, key_borrow]

theorem borrow_compare (a b : Name) : compare a.borrow b.borrow = compare a b := by
  show compareKeys a.borrow.key b.borrow.key = compareKeys a.key b.key
  rw [key_borrow, key_borrow]

theorem borrow_feed (a : Name) (write : H → Char → H) (state : H) :
    a.borrow.feed write state = a.feed write state := by
  rw [BorrowedName.feed, key_borrow, feed]

/-- The laws of names as keys. -/
structure Lawful (a b c : Name) : Prop where
  refl : (a == a) = true
  symm : (a == b) = true → (b == a) = true
  trans : (a == b) = true → (b == c) = true → (a == c) = true
  compare_eq : compare a b = .eq ↔ (a == b) = true
  compare_swap : compare b a = (compare a b).swap
  compare_total : (compare a b).isLE = true ∨ (compare b a).isLE = true
  compare_antisymm : (compare a b).isLE = true → (compare b a).isLE = true → (a == b) = true
  compare_trans : (compare a b).isLE = true → (compare b c).isLE = true →
    (compare a c).isLE = true
  feed : (a == b) = true ↔
    ∀ (H : Type) (write : H → Char → H) (state : H), a.feed write state = b.feed write state
  borrow_beq : (a.borrow == b.borrow) = (a == b)
  borrow_compare : compare a.borrow b.borrow = compare a b
  borrow_feed : ∀ (H : Type) (write : H → Char → H) (state : H),
    a.borrow.feed write state = a.feed write state

theorem lawful (a b c : Name) : Lawful a b c where
  refl := BEq.rfl
  symm := BEq.symm
  trans := BEq.trans
  compare_eq := Std.LawfulBEqCmp.compare_eq_iff_beq
  compare_swap := Std.OrientedCmp.eq_swap
  compare_total := by
    have hswap : compare b a = (compare a b).swap := Std.OrientedCmp.eq_swap
    rw [hswap]
    cases compare a b <;> simp
  compare_antisymm hab hba :=
    Std.LawfulBEqCmp.compare_eq_iff_beq.1 (Std.OrientedCmp.isLE_antisymm hab hba)
  compare_trans := Std.TransCmp.isLE_trans
  feed := beq_iff_feed
  borrow_beq := borrow_beq a b
  borrow_compare := borrow_compare a b
  borrow_feed _ write state := borrow_feed a write state

end Name

/-! ## Histories -/

namespace NameSet

/-- What can be asked of a set of names. -/
inductive Call where
  | insert (n : Name) | remove (n : Name) | contains (n : Name)

/-- The set after a call. -/
def apply (s : NameSet) : Call → NameSet
  | .insert n => s.insert n
  | .remove n => s.erase n
  | .contains _ => s

/-- The set after several calls. -/
def after (calls : List Call) : NameSet := calls.foldl apply empty

theorem after_concat (calls : List Call) (call : Call) :
    after (calls ++ [call]) = (after calls).apply call := by
  simp [after]

variable {calls rest : List Call} {call : Call} {k m n : Name}

/-- No name equal to this one is removed. -/
def NotRemoved (n : Name) (calls : List Call) : Prop :=
  ∀ r, Call.remove r ∈ calls → (r == n) = false

/-- An equal name was inserted since one was last removed. -/
def Present (calls : List Call) (n : Name) : Prop :=
  ∃ m before rest, calls = before ++ .insert m :: rest ∧ (m == n) = true ∧ NotRemoved n rest

/-- This is the first equal name that was inserted since one was last removed. -/
def Kept (calls : List Call) (n m : Name) : Prop :=
  ∃ before rest, calls = before ++ .insert m :: rest ∧ (m == n) = true ∧ NotRemoved n rest ∧
    ¬Present before n

theorem NotRemoved.congr (h : NotRemoved k calls) (hk : (k == n) = true) : NotRemoved n calls :=
  fun r hr => by rw [← BEq.congr_right hk, h r hr]

theorem Present.congr (h : Present calls k) (hk : (k == n) = true) : Present calls n := by
  obtain ⟨m, before, rest, hcalls, hm, hrest⟩ := h
  exact ⟨m, before, rest, hcalls, BEq.trans hm hk, hrest.congr hk⟩

theorem notRemoved_concat : NotRemoved n (calls ++ [call]) ↔
    NotRemoved n calls ∧ ∀ r, call = .remove r → (r == n) = false := by
  simp only [NotRemoved, List.mem_append, List.mem_singleton]
  exact ⟨fun h => ⟨fun r hr => h r (.inl hr), fun r hr => h r (.inr hr.symm)⟩,
    fun ⟨hcalls, hcall⟩ r hr => hr.elim (hcalls r) fun hr => hcall r hr.symm⟩

/-- What is inserted in a history is inserted last, or before the last call. -/
theorem exists_insert_concat {holds : List Call → List Call → Prop} :
    (∃ before rest, calls ++ [call] = before ++ .insert m :: rest ∧ holds before rest) ↔
      (call = .insert m ∧ holds calls []) ∨
        ∃ before rest, calls = before ++ .insert m :: rest ∧ holds before (rest ++ [call]) := by
  simp only [concat_eq_append_cons_iff]
  constructor
  · rintro ⟨before, rest, ⟨rfl, hcall, rfl⟩ | ⟨rest, hcalls, rfl⟩, hholds⟩
    · exact .inl ⟨hcall, hholds⟩
    · exact .inr ⟨before, rest, hcalls, hholds⟩
  · rintro (⟨hcall, hholds⟩ | ⟨before, rest, hcalls, hholds⟩)
    · exact ⟨calls, [], .inl ⟨rfl, hcall, rfl⟩, hholds⟩
    · exact ⟨before, rest ++ [call], .inr ⟨rest, hcalls, rfl⟩, hholds⟩

theorem present_concat : Present (calls ++ [call]) n ↔
    (∃ m, call = .insert m ∧ (m == n) = true) ∨
      Present calls n ∧ ∀ r, call = .remove r → (r == n) = false := by
  simp only [Present, exists_insert_concat, notRemoved_concat]
  constructor
  · rintro ⟨m, ⟨hcall, hm, -⟩ | ⟨before, rest, hcalls, hm, hrest, hcall⟩⟩
    · exact .inl ⟨m, hcall, hm⟩
    · exact .inr ⟨⟨m, before, rest, hcalls, hm, hrest⟩, hcall⟩
  · rintro (⟨m, hcall, hm⟩ | ⟨⟨m, before, rest, hcalls, hm, hrest⟩, hcall⟩)
    · exact ⟨m, .inl ⟨hcall, hm, nofun⟩⟩
    · exact ⟨m, .inr ⟨before, rest, hcalls, hm, hrest, hcall⟩⟩

theorem kept_concat : Kept (calls ++ [call]) n m ↔
    (call = .insert m ∧ (m == n) = true ∧ ¬Present calls n) ∨
      Kept calls n m ∧ ∀ r, call = .remove r → (r == n) = false := by
  simp only [Kept, exists_insert_concat, notRemoved_concat]
  constructor
  · rintro (⟨hcall, hm, -, hbefore⟩ | ⟨before, rest, hcalls, hm, ⟨hrest, hcall⟩, hbefore⟩)
    · exact .inl ⟨hcall, hm, hbefore⟩
    · exact .inr ⟨⟨before, rest, hcalls, hm, hrest, hbefore⟩, hcall⟩
  · rintro (⟨hcall, hm, hbefore⟩ | ⟨⟨before, rest, hcalls, hm, hrest, hbefore⟩, hcall⟩)
    · exact .inl ⟨hcall, hm, nofun, hbefore⟩
    · exact .inr ⟨before, rest, hcalls, hm, ⟨hrest, hcall⟩, hbefore⟩

/-! ## What is remembered -/

/-- What a store has for a name after some calls, told by what each call changes: a name is inserted
unless there is an equal one. -/
structure Remembers (get : List Call → Name → Option Name) : Prop where
  nil : ∀ n, get [] n = none
  insert : ∀ calls k n, get (calls ++ [.insert k]) n =
    if (k == n) = true ∧ get calls k = none then some k else get calls n
  remove : ∀ calls k n, get (calls ++ [.remove k]) n = if (k == n) = true then none else get calls n
  contains : ∀ calls k n, get (calls ++ [.contains k]) n = get calls n

theorem Remembers.isSome_iff {get : List Call → Name → Option Name} (h : Remembers get)
    (calls : List Call) (n : Name) : (get calls n).isSome = true ↔ Present calls n := by
  induction calls using List.reverseRecOn generalizing n with
  | nil => simp [h.nil, Present]
  | append_singleton calls call ih =>
    rw [present_concat, ← ih]
    cases call with
    | insert k =>
      by_cases hk : (k == n) = true
      · cases hold : get calls k with
        | none => simp [h.insert, hk, hold]
        | some m =>
          -- nothing is inserted, as an equal name is there already
          have hsame : (get calls n).isSome = true :=
            (ih n).2 (((ih k).1 (by rw [hold]; rfl)).congr hk)
          simp [h.insert, hk, hold, hsame]
      · simp [h.insert, hk]
    | remove k => by_cases hk : (k == n) = true <;> simp [h.remove, hk]
    | contains k => simp [h.contains]

theorem Remembers.eq_some_iff {get : List Call → Name → Option Name} (h : Remembers get)
    (calls : List Call) (n m : Name) : get calls n = some m ↔ Kept calls n m := by
  induction calls using List.reverseRecOn with
  | nil => simp [h.nil, Kept]
  | append_singleton calls call ih =>
    rw [kept_concat, ← ih, ← h.isSome_iff]
    cases call with
    | insert k =>
      by_cases hk : (k == n) = true
      · have hsame : get calls k = none ↔ get calls n = none := by
          rw [← Option.not_isSome_iff_eq_none, ← Option.not_isSome_iff_eq_none, h.isSome_iff,
            h.isSome_iff]
          exact not_congr ⟨fun hp => hp.congr hk, fun hp => hp.congr (BEq.symm hk)⟩
        cases hold : get calls n with
        | none =>
          have hm : k = m → (m == n) = true := fun h => h ▸ hk
          simpa [h.insert, hk, hsame.2 hold, hold] using hm
        | some old =>
          have hkept : get calls k ≠ none := fun hnone => by simp [hsame.1 hnone] at hold
          simp [h.insert, hk, hkept, hold]
      · have hother : k = m → (m == n) = true → get calls n = none → get calls n = some m :=
          fun h hm => absurd (h ▸ hm) hk
        simpa [h.insert, hk] using hother
    | remove k => by_cases hk : (k == n) = true <;> simp [h.remove, hk]
    | contains k => simp [h.contains]

/-! ## Lists of names -/

variable {s : NameSet}

/-- No two members of a set are equal. -/
def Distinct (s : NameSet) : Prop := s.members.Pairwise fun m n => (m == n) = false

theorem Distinct.apply (h : s.Distinct) (call : Call) : (s.apply call).Distinct := by
  cases call with
  | insert n =>
    show (s.insert n).Distinct
    unfold NameSet.insert
    split
    · exact h
    · rename_i hnot
      refine List.pairwise_append.2 ⟨h, List.pairwise_singleton .., fun m hm k hk => ?_⟩
      rw [List.mem_singleton.1 hk]
      cases hmn : m == n
      · rfl
      · exact absurd (List.any_eq_true.2 ⟨m, hm, hmn⟩) hnot
  | remove n => exact List.Pairwise.filter _ h
  | contains n => exact h

theorem distinct_after (calls : List Call) : (after calls).Distinct := by
  induction calls using List.reverseRecOn with
  | nil => exact .nil
  | append_singleton calls call ih =>
    rw [after_concat]
    exact ih.apply call

theorem find?_eq (s : NameSet) (n : BorrowedName) :
    s.find? n = s.members.find? (· == n.copy) := by
  show s.members.find? (fun m => m.borrow.key == n.key) =
    s.members.find? fun m => m.key == n.copy.key
  simp only [Name.key_borrow, BorrowedName.key_copy]

theorem contains_eq (s : NameSet) (n : Name) :
    s.contains n = (s.members.find? (· == n)).isSome := List.isSome_find?.symm

/-- The member that a name is equal to is the one that is found. -/
theorem Distinct.find?_eq_some_iff (h : s.Distinct) :
    s.members.find? (· == n) = some m ↔ m ∈ s.members ∧ (m == n) = true := by
  refine ⟨fun h => ⟨List.mem_of_find?_eq_some h, List.find?_some (p := (· == n)) h⟩, ?_⟩
  rintro ⟨hm, hmn⟩
  obtain ⟨others, rest, hmembers⟩ := List.append_of_mem hm
  refine List.find?_eq_some_iff_append.2 ⟨hmn, others, rest, hmembers, fun k hk => ?_⟩
  rw [Distinct, hmembers] at h
  have hkm : (k == m) = false := (List.pairwise_append.1 h).2.2 k hk m List.mem_cons_self
  rw [← BEq.congr_right hmn, hkm, Bool.not_false]

/-- Looking for equal names is the same. -/
theorem find?_congr (s : NameSet) (h : (k == n) = true) :
    s.members.find? (· == k) = s.members.find? (· == n) := by
  congr 1
  funext m
  exact BEq.congr_right h

theorem find?_insert (s : NameSet) (k n : Name) : (s.insert k).members.find? (· == n) =
    if (k == n) = true ∧ s.members.find? (· == k) = none then some k
    else s.members.find? (· == n) := by
  unfold NameSet.insert
  rw [contains_eq]
  cases hold : s.members.find? (· == k) with
  | some m => simp
  | none =>
    by_cases hk : (k == n) = true
    · simp [hk, ← s.find?_congr hk, hold]
    · simp [hk]

theorem find?_erase (s : NameSet) (k n : Name) : (s.erase k).members.find? (· == n) =
    if (k == n) = true then none else s.members.find? (· == n) := by
  rw [NameSet.erase, List.find?_filter]
  split
  · rename_i hk
    simp [BEq.congr_right hk]
  · rename_i hk
    congr 1
    funext m
    by_cases hm : (m == n) = true
    · have hmk : (m == k) = false := Bool.eq_false_iff.2 fun h =>
        hk (BEq.trans (BEq.symm h) hm)
      simp [hm, hmk]
    · simp [hm]

theorem remembers_find? : Remembers fun calls n => (after calls).members.find? (· == n) where
  nil _ := rfl
  insert calls k n := by
    rw [after_concat]
    exact find?_insert (after calls) k n
  remove calls k n := by
    rw [after_concat]
    exact find?_erase (after calls) k n
  contains calls k n := by
    rw [after_concat]
    rfl

end NameSet

/-! ## Hash tables of names -/

/-- A hasher takes in characters one after another, and makes a hash of them. -/
structure Hasher where
  State : Type
  start : State
  write : State → Char → State
  finish : State → UInt64

namespace Hasher

open NameSet (Call)

variable (h : Hasher)

abbrev hashable : Hashable Name := ⟨fun n => h.finish (n.feed h.write h.start)⟩

/-- Equal names have one hash, whatever the hasher is. -/
theorem lawfulHashable : @LawfulHashable Name _ h.hashable := by
  let _ := h.hashable
  refine ⟨fun a b hab => ?_⟩
  show h.finish (a.feed h.write h.start) = h.finish (b.feed h.write h.start)
  rw [Name.beq_iff_feed.1 hab]

/-- A hash table of names, with this hasher. -/
abbrev Table : Type := @Std.HashSet Name _ h.hashable

/-- The table after a call. -/
def apply (table : h.Table) : Call → h.Table
  | .insert n => table.insert n
  | .remove n => table.erase n
  | .contains _ => table

/-- The table after several calls. -/
def after (calls : List Call) : h.Table :=
  calls.foldl h.apply (@Std.HashSet.emptyWithCapacity Name _ h.hashable 0)

theorem after_concat (calls : List Call) (call : Call) :
    h.after (calls ++ [call]) = h.apply (h.after calls) call := by
  simp [after]

theorem remembers_get? : NameSet.Remembers fun calls n => (h.after calls).get? n := by
  have := h.lawfulHashable
  refine ⟨fun n => ?_, fun calls k n => ?_, fun calls k n => ?_, fun calls k n => ?_⟩
  · exact Std.HashSet.get?_emptyWithCapacity
  · rw [after_concat, apply, Std.HashSet.get?_insert]
    simp only [Std.HashSet.mem_iff_isSome_get?, Option.not_isSome_iff_eq_none]
  · rw [after_concat]
    exact Std.HashSet.get?_erase
  · rw [after_concat]
    rfl

end Hasher

namespace NameSet

/-- What a set of names remembers of some calls. -/
structure Recalls (calls : List Call) : Prop where
  distinct : (after calls).Distinct
  contains_iff : ∀ n, (after calls).contains n = true ↔ Present calls n
  mem_iff : ∀ n m, m ∈ (after calls).members ∧ (m == n) = true ↔ Kept calls n m
  find?_iff : ∀ (n : BorrowedName) m, (after calls).find? n = some m ↔ Kept calls n.copy m
  table_iff : ∀ (h : Hasher) n m, (h.after calls).get? n = some m ↔ Kept calls n m

theorem recalls (calls : List Call) : Recalls calls where
  distinct := distinct_after calls
  contains_iff n := by rw [contains_eq, remembers_find?.isSome_iff]
  mem_iff n m := by
    rw [← (distinct_after calls).find?_eq_some_iff, remembers_find?.eq_some_iff]
  find?_iff n m := by rw [find?_eq, remembers_find?.eq_some_iff]
  table_iff h n m := h.remembers_get?.eq_some_iff calls n m

end NameSet

/-- **Names are lawful keys.** For any names equality, order, hash and borrowing agree; so for any
calls, a set of names has no two equal members, holds a name if an equal one was inserted since one
was last removed, and keeps of equal names the first that was inserted since then. It is found by a
borrowed name too, and a hash table keeps the same with any hasher. -/
theorem names_lawful : (∀ a b c : Name, Name.Lawful a b c) ∧
    ∀ calls : List NameSet.Call, NameSet.Recalls calls :=
  ⟨Name.lawful, NameSet.recalls⟩

end BuiltInScript
