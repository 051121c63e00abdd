import BuiltInScript.Proofs.Lexing.Folding
import Mathlib.Data.List.DropRight

/-!
# What words begin with

A word is told from everything else by its first character: that is no blank, no digit and no sign.
It begins a word in every spelling, because letters are folded to letters.

**Results.**
* `isBlank_of_isWordChar`: words have no blanks in them.
* `isDigit_of_isWordStart`: they do not begin with a digit.
* `foldCase_eq_or_isAlphabetic`: what folding changes becomes a letter.
* `isWordStart_foldCase`, `isWordChar_foldCase`, `isBlank_foldCase`: so words stay words when they
  are folded, and blanks and signs come from nothing else.
* `take_length_takeWhile`, `drop_length_takeWhile`: a word is read as a run of characters.
* `Lexer.next_reads_word`: so the rules are given a word wherever a token begins like one.
* `lastIs_concat`: what looking back through tokens finds.
-/
namespace BuiltInScript

namespace Text

/-! ## Blanks and digits -/

/-- All blanks. -/
def blanks : List Nat :=
  List.range' 0x9 5 ++ [0x20, 0x85, 0xA0, 0x1680] ++ List.range' 0x2000 11 ++
    [0x2028, 0x2029, 0x202F, 0x205F, 0x3000]

theorem blanks_clear : (blanks.all fun n =>
    !alphabeticRanges.contains n && !numericRanges.contains n && n != '_'.toNat) = true := by
  decide +kernel

theorem mem_blanks {c : Char} (h : isBlank c) : c.toNat ∈ blanks := by
  simp only [isBlank, Bool.or_eq_true, Bool.and_eq_true, decide_eq_true_eq, beq_iff_eq] at h
  simp only [blanks, List.mem_append, List.mem_range'_1, List.mem_cons, List.not_mem_nil]
  omega

/-- Words have no blanks in them. -/
theorem isBlank_of_isWordChar {c : Char} (h : isWordChar c) : isBlank c = false := by
  refine Bool.eq_false_iff.2 fun hblank => ?_
  have hclear := List.all_eq_true.1 blanks_clear _ (mem_blanks hblank)
  simp only [isWordChar, isAlphabetic, isNumeric, Bool.or_eq_true, beq_iff_eq] at h
  rcases h with (h | h) | rfl <;> simp_all

/-- What is no blank ends no line. -/
theorem isLineBreak_of_isBlank_false {c : Char} (h : isBlank c = false) : isLineBreak c = false :=
  Bool.eq_false_iff.2 fun hbreak =>
    Bool.eq_false_iff.1 h (isBlank_of_isLineBreak hbreak)

theorem isLineBreak_of_isInlineBlank {c : Char} (h : isInlineBlank c) : isLineBreak c = false := by
  rw [isInlineBlank, Bool.and_eq_true, Bool.not_eq_true'] at h
  exact h.2

theorem isLineBreak_of_isWordChar {c : Char} (h : isWordChar c) : isLineBreak c = false :=
  isLineBreak_of_isBlank_false (isBlank_of_isWordChar h)

section
variable {c : Char} (h : isWordStart c)
include h

theorem isBlank_of_isWordStart : isBlank c = false :=
  isBlank_of_isWordChar (isWordChar_of_isWordStart h)

theorem isInlineBlank_of_isWordStart : isInlineBlank c = false := by
  rw [isInlineBlank, isBlank_of_isWordStart h, Bool.false_and]

theorem isLineBreak_of_isWordStart : isLineBreak c = false :=
  isLineBreak_of_isBlank_false (isBlank_of_isWordStart h)

theorem ne_of_isWordStart {d : Char} (hd : isWordStart d = false) : c ≠ d := by
  rintro rfl
  exact Bool.eq_false_iff.1 hd h

theorem isDigit_of_isWordStart : isDigit c = false := by
  refine Bool.eq_false_iff.2 fun hdigit => ?_
  have hall : ∀ n ∈ List.range' 0x30 10, isWordStart (Char.ofNat n) = false := by decide
  rw [isDigit, Bool.and_eq_true, decide_eq_true_iff, decide_eq_true_iff] at hdigit
  have hmem : c.toNat ∈ List.range' 0x30 10 :=
    List.mem_range'_1.2 ⟨hdigit.1, Nat.lt_succ_of_le hdigit.2⟩
  have hclear := hall _ hmem
  rw [Char.ofNat_toNat] at hclear
  exact Bool.eq_false_iff.1 hclear h

end

/-- A letter or `_`, then letters, numbers and `_`. -/
def isWord : List Char → Bool
  | [] => false
  | c :: cs => isWordStart c && cs.all isWordChar

/-! ## Folded letters -/

/-- The upper-case forms of a run and whatever lies between them are letters. -/
def CaseRun.isAmongLetters (r : CaseRun) : Bool :=
  alphabeticRanges.any fun (low, high) =>
    Nat.ble low r.upper && Nat.ble (r.upper + (r.last - r.first)) high

/-- The upper-case forms of a run. -/
def CaseRun.uppers (r : CaseRun) : List Nat :=
  List.range' r.upper ((r.last - r.first) / r.stride + 1) r.stride

/-- Of one run only, of Greek letters, what lies between the upper-case forms is not assigned. -/
theorem caseRuns_alphabetic : (caseRuns.all fun r =>
    r.isAmongLetters || r.uppers.all alphabeticRanges.contains) = true := by
  decide +kernel

/-- A character that folding changes becomes a letter. -/
theorem foldCase_eq_or_isAlphabetic (c : Char) : foldCase c = c ∨ isAlphabetic (foldCase c) := by
  rcases upperIn_eq_or caseRuns c.toNat with hstays | ⟨r, hr, i, hi, hstride, hupper⟩
  · left
    rw [foldCase, hstays, Char.ofNat_toNat]
  · right
    have hletters := List.all_eq_true.1 caseRuns_alphabetic r hr
    rcases Bool.or_eq_true_iff.1 hletters with hamong | hall
    · obtain ⟨range, hrange, hbounds⟩ := List.any_eq_true.1 hamong
      rw [Bool.and_eq_true, Nat.ble_eq, Nat.ble_eq] at hbounds
      refine (isAlphabetic_iff _).2 ⟨range, hrange, ?_⟩
      rw [toNat_foldCase, hupper]
      omega
    · rw [isAlphabetic, toNat_foldCase, hupper]
      refine List.all_eq_true.1 hall _ (List.mem_range'.2 ⟨i / r.stride, ?_, ?_⟩)
      · exact Nat.lt_succ_of_le (Nat.div_le_div_right hi)
      · rw [Nat.mul_div_cancel' (Nat.dvd_of_mod_eq_zero hstride)]

/-- Letters are folded to letters. -/
theorem isAlphabetic_foldCase {c : Char} (h : isAlphabetic c) : isAlphabetic (foldCase c) := by
  rcases foldCase_eq_or_isAlphabetic c with hstays | hletter
  · rwa [hstays]
  · exact hletter

/-- Nothing else is folded to a sign. -/
theorem foldCase_eq_sign_iff {x : Char} (hx : isAlphabetic x = false) (hstays : foldCase x = x)
    (c : Char) : foldCase c = x ↔ c = x := by
  constructor
  · intro h
    rcases foldCase_eq_or_isAlphabetic c with hc | hletter
    · rw [← hc, h]
    · rw [h, hx] at hletter
      cases hletter
  · rintro rfl
    exact hstays

/-- What begins a word begins one in every spelling. -/
theorem isWordStart_foldCase {c : Char} (h : isWordStart c) : isWordStart (foldCase c) := by
  rw [isWordStart, Bool.or_eq_true, beq_iff_eq] at h ⊢
  rcases h with h | rfl
  · exact .inl (isAlphabetic_foldCase h)
  · exact .inr (by decide)

theorem isWordChar_foldCase {c : Char} (h : isWordChar c) : isWordChar (foldCase c) := by
  rcases foldCase_eq_or_isAlphabetic c with hstays | hletter
  · rwa [hstays]
  · rw [isWordChar, hletter, Bool.true_or, Bool.true_or]

/-- Words are folded to words. -/
theorem isWord_map_foldCase {word : List Char} (h : isWord word) : isWord (word.map foldCase) := by
  cases word with
  | nil => cases h
  | cons c cs =>
    rw [isWord, Bool.and_eq_true, List.all_eq_true] at h
    rw [List.map_cons, isWord, Bool.and_eq_true, List.all_eq_true]
    refine ⟨isWordStart_foldCase h.1, fun d hd => ?_⟩
    obtain ⟨c, hc, rfl⟩ := List.mem_map.1 hd
    exact isWordChar_foldCase (h.2 c hc)

theorem foldCase_blanks : ∀ n ∈ blanks, foldCase (Char.ofNat n) = Char.ofNat n := by
  decide +kernel

/-- Nothing else is folded to a blank. -/
theorem isBlank_foldCase (c : Char) : isBlank (foldCase c) = isBlank c := by
  rcases foldCase_eq_or_isAlphabetic c with hstays | hletter
  · rw [hstays]
  · have hword : isWordChar (foldCase c) := by
      rw [isWordChar, hletter, Bool.true_or, Bool.true_or]
    rw [isBlank_of_isWordChar hword]
    refine (Bool.eq_false_iff.2 fun hblank => ?_).symm
    have hstays : foldCase c = c := by
      simpa using foldCase_blanks _ (mem_blanks hblank)
    rw [hstays] at hword
    rw [isBlank_of_isWordChar hword] at hblank
    cases hblank

/-! ## Runs -/

/-- As many characters as a run has are the run. -/
theorem take_length_takeWhile (test : Char → Bool) (cs : List Char) :
    cs.take (cs.takeWhile test).length = cs.takeWhile test :=
  (List.prefix_iff_eq_take.1 (List.takeWhile_prefix test)).symm

/-- What follows a run is what remains of the text. -/
theorem drop_length_takeWhile (test : Char → Bool) (cs : List Char) :
    cs.drop (cs.takeWhile test).length = cs.dropWhile test := by
  calc cs.drop (cs.takeWhile test).length
      = (cs.takeWhile test ++ cs.dropWhile test).drop (cs.takeWhile test).length := by
        rw [List.takeWhile_append_dropWhile]
    _ = cs.dropWhile test := List.drop_left

end Text

/-! ## Words among tokens -/

/-- A list, cut at one of its elements. -/
theorem eq_take_append_cons {α : Type} {l : List α} {a : α} {n : Nat} (h : a ∈ l[n]?) :
    l = l.take n ++ a :: l.drop (n + 1) := by
  obtain ⟨hn, rfl⟩ := List.getElem?_eq_some_iff.1 h
  rw [List.getElem_cons_drop, List.take_append_drop]

variable {K M F : Type}

/-- The text of the token begins like a word. -/
def Token.BeginsWord (t : Token K) : Prop := t.text.toList.head?.any Text.isWordStart

instance (t : Token K) : Decidable t.BeginsWord := inferInstanceAs (Decidable (_ = true))

/-- Of a word the rules are given the first character and what follows it, folded. -/
theorem Lexer.next_reads_word [TokenKind K] {rules : LexicalRules K M F} {l : Lexer rules}
    (h : l.next.1.BeginsWord) :
    ∃ c cs, Text.isWordStart c ∧ l.next.1.kind = (rules.read l.state c cs).1.kind ∧
      foldWord l.next.1.text = c :: cs.take (rules.read l.state c cs).1.more := by
  obtain ⟨c, hc, hword⟩ := (Option.any_eq_true _ _).1 h
  rcases l.next_reads with ⟨-, htext⟩ | ⟨d, cs, hhead, hkind, htext, -⟩
  · rw [htext] at hc
    cases hc
  · rw [hhead] at hc
    cases hc
    exact ⟨Text.foldCase c, cs, Text.isWordStart_foldCase hword, hkind, htext⟩

/-- The last token that is not passed over is of a kind. -/
def LastIs (skip : Token K → Bool) (kind : K) (tokens : List (Token K)) : Prop :=
  ∃ t ∈ (tokens.rdropWhile skip).getLast?, t.kind = kind

instance [DecidableEq K] (skip : Token K → Bool) (kind : K) :
    DecidablePred (LastIs skip kind) := fun tokens =>
  inferInstanceAs (Decidable (∃ t ∈ (tokens.rdropWhile skip).getLast?, t.kind = kind))

section
variable {skip : Token K → Bool} {kind : K}

@[simp] theorem not_lastIs_nil : ¬LastIs skip kind [] := by simp [LastIs]

theorem lastIs_concat (tokens : List (Token K)) (t : Token K) :
    LastIs skip kind (tokens ++ [t]) ↔
      if skip t then LastIs skip kind tokens else t.kind = kind := by
  unfold LastIs
  by_cases hskip : skip t = true
  · rw [List.rdropWhile_concat_pos _ _ _ hskip, if_pos hskip]
  · rw [List.rdropWhile_concat_neg _ _ _ hskip, if_neg hskip]
    simp

end
end BuiltInScript
