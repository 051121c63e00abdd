import BuiltInScript.Source.Position
import BuiltInScript.Text.Blank
import BuiltInScript.Text.Bytes
import Mathlib.Data.List.DropRight

/-!
# Line breaks

A position is moved past one character at a time, and a `\r` is looked at together with what follows
it. Still, where a position comes to is told by the text that it was moved past: by the line breaks
in it, and by what stands after the last of them. What follows that text matters only if it was cut
within a `\r\n`.

**Results.**
* `Text.noLoneReturnBefore_iff`: without a lone `\r` there are as many breaks as `\n`.
* `Text.NoLoneReturnBefore.lastLineLength_eq`: then the last line begins after the last `\n`.
* `Position.walkTo_append`: moving past a text is moving past its pieces.
* `Position.walkTo_eq_walk`: what follows does not matter unless a `\r\n` is cut.
* `Position.walk_eq`: the line is told by the number of breaks, and the column by the last line.
-/
namespace BuiltInScript

/-! ## Breaks of a text -/

namespace Text

/-- Number of line breaks in a text: `\r\n`, a lone `\r` and a lone `\n` are one each. -/
def lineBreaks : List Char → Nat
  | [] => 0
  | '\r' :: '\n' :: cs => lineBreaks cs + 1
  | c :: cs => lineBreaks cs + (isLineBreak c).toNat

/-- Number of characters after the last line break, or of all characters if there is none. -/
def lastLineLength (cs : List Char) : Nat := (cs.rtakeWhile (!isLineBreak ·)).length

/-- A text is cut between the two characters of a `\r\n`. -/
def CutsBreak (before after : List Char) : Prop :=
  before.getLast? = some '\r' ∧ after.head? = some '\n'

instance (before after : List Char) : Decidable (CutsBreak before after) :=
  inferInstanceAs (Decidable (_ ∧ _))

theorem not_cutsBreak_nil (after : List Char) : ¬CutsBreak [] after := nofun

/-- Only the last character before a cut counts. -/
theorem cutsBreak_append_iff {first last after : List Char} (h : last ≠ []) :
    CutsBreak (first ++ last) after ↔ CutsBreak last after := by
  rw [CutsBreak, CutsBreak, List.getLast?_append, List.getLast?_eq_some_getLast h, Option.some_or]

/-- A text is cut in a piece of it if it is cut in the whole. -/
theorem CutsBreak.cons {before after : List Char} (h : CutsBreak before after) (c : Char) :
    CutsBreak (c :: before) after :=
  ⟨by rw [List.getLast?_cons, h.1, Option.getD_some], h.2⟩

/-- The last line is told by what stands after a line break. -/
theorem lastLineLength_cons_of_any (c : Char) {cs : List Char} (h : cs.any isLineBreak) :
    lastLineLength (c :: cs) = lastLineLength cs := by
  obtain ⟨d, hd, hbreak⟩ := List.any_eq_true.1 h
  have hnotAll : (cs.reverse.takeWhile (!isLineBreak ·)).length ≠ cs.reverse.length := by
    intro hlength
    have hall := List.takeWhile_eq_self_iff.1 ((List.takeWhile_prefix _).eq_of_length hlength)
    simpa [hbreak] using hall d (List.mem_reverse.2 hd)
  rw [lastLineLength, List.rtakeWhile, List.reverse_cons, List.takeWhile_append, if_neg hnotAll,
    lastLineLength, List.rtakeWhile]

/-- A text that has no line break except perhaps at its beginning. -/
theorem lastLineLength_cons_of_not_any (c : Char) {cs : List Char}
    (h : cs.any isLineBreak = false) :
    lastLineLength (c :: cs) = lastLineLength cs + (!isLineBreak c).toNat := by
  have hall : ∀ d ∈ cs.reverse, (!isLineBreak d) = true := by simpa using h
  rw [lastLineLength, List.rtakeWhile, List.reverse_cons, List.takeWhile_append_of_pos hall,
    lastLineLength, List.rtakeWhile, List.takeWhile_eq_self_iff.2 hall]
  cases hc : isLineBreak c <;> simp [hc]

theorem lastLineLength_cons_of_isLineBreak {c : Char} (h : isLineBreak c) (cs : List Char) :
    lastLineLength (c :: cs) = lastLineLength cs := by
  cases hany : cs.any isLineBreak with
  | true => exact lastLineLength_cons_of_any c hany
  | false => rw [lastLineLength_cons_of_not_any c hany, h, Bool.not_true, Bool.toNat_false,
      Nat.add_zero]

/-! ## Lone returns -/

/-- Every `\r` before a byte offset of a text has a `\n` after it. -/
def NoLoneReturnBefore (offset : Nat) (cs : List Char) : Prop :=
  ∀ before after, cs = before ++ '\r' :: after → byteLength before < offset →
    after.head? = some '\n'

theorem noLoneReturnBefore_cons_iff {offset : Nat} {c : Char} {cs : List Char} :
    NoLoneReturnBefore (c.utf8Size + offset) (c :: cs) ↔
      (c = '\r' → cs.head? = some '\n') ∧ NoLoneReturnBefore offset cs := by
  have hpos := c.utf8Size_pos
  constructor
  · intro h
    refine ⟨?_, fun before after heq hlt => ?_⟩
    · rintro rfl
      exact h [] cs rfl (by rw [byteLength]; omega)
    · exact h (c :: before) after (by rw [heq, List.cons_append]) (by rw [byteLength]; omega)
  · rintro ⟨hhead, hrest⟩ before after heq hlt
    cases before with
    | nil =>
      cases heq
      exact hhead rfl
    | cons d before =>
      cases heq
      rw [byteLength] at hlt
      exact hrest before after rfl (by omega)

theorem count_le_lineBreaks (cs : List Char) : cs.count '\n' ≤ lineBreaks cs := by
  fun_induction lineBreaks cs with
  | case1 => exact Nat.le_refl 0
  | case2 cs ih => simpa using ih
  | case3 c cs h ih => by_cases hc : c = '\n' <;> simp [hc, isLineBreak] <;> omega

/-- Up to a place that cuts no line break, there are as many line breaks as `\n` unless there is a
lone `\r`. -/
theorem noLoneReturnBefore_iff {before after : List Char} (h : ¬CutsBreak before after) :
    NoLoneReturnBefore (byteLength before) (before ++ after) ↔
      lineBreaks before = before.count '\n' := by
  fun_induction lineBreaks before with
  | case1 => exact iff_of_true (fun _ _ _ hlt => absurd hlt (Nat.not_lt_zero _)) rfl
  | case2 cs ih =>
    rw [byteLength, byteLength, List.cons_append, List.cons_append, noLoneReturnBefore_cons_iff,
      noLoneReturnBefore_cons_iff, ih fun hcut => h ((hcut.cons _).cons _)]
    simp
  | case3 c cs hpair ih =>
    have hle := count_le_lineBreaks cs
    rw [byteLength, List.cons_append, noLoneReturnBefore_cons_iff, ih fun hcut => h (hcut.cons c)]
    by_cases hreturn : c = '\r'
    · -- The `\r` is lone: what follows it is neither in the text before the place nor after it.
      have hlone : (cs ++ after).head? ≠ some '\n' := by
        intro hfeed
        cases cs with
        | nil => exact h ⟨congrArg some hreturn, hfeed⟩
        | cons d cs => exact hpair cs hreturn (by rw [Option.some.inj hfeed])
      have hcount : (c :: cs).count '\n' = cs.count '\n' := by simp [hreturn]
      have hmore : (isLineBreak c).toNat = 1 := by rw [hreturn]; rfl
      refine iff_of_false (fun hpairs => hlone (hpairs.1 hreturn)) ?_
      omega
    · by_cases hfeed : c = '\n'
      · simp [hfeed, isLineBreak]
      · have hcount : (c :: cs).count '\n' = cs.count '\n' := by simp [hfeed]
        have hmore : (isLineBreak c).toNat = 0 := by simp [isLineBreak, hreturn, hfeed]
        rw [hcount, hmore, Nat.add_zero, and_iff_right fun hc => absurd hc hreturn]

/-- A run by one test is a run by a stronger one if all of it passes that. -/
theorem takeWhile_eq_takeWhile {p q : Char → Bool} (himp : ∀ c, q c = true → p c = true)
    {cs : List Char} (h : ∀ c ∈ cs.takeWhile p, q c = true) : cs.takeWhile q = cs.takeWhile p := by
  induction cs with
  | nil => rfl
  | cons c cs ih =>
    by_cases hp : p c = true
    · rw [List.takeWhile_cons_of_pos hp] at h ⊢
      obtain ⟨hq, hrest⟩ := List.forall_mem_cons.1 h
      rw [List.takeWhile_cons_of_pos hq, ih hrest]
    · rw [List.takeWhile_cons_of_neg hp, List.takeWhile_cons_of_neg (mt (himp c) hp)]

/-- Where there is no lone `\r`, a piece of a line holds no `\r`. -/
theorem NoLoneReturnBefore.notMem {start line after : List Char}
    (h : NoLoneReturnBefore (byteLength (start ++ line)) (start ++ line ++ after))
    (hcut : ¬CutsBreak (start ++ line) after) (hline : '\n' ∉ line) : '\r' ∉ line := by
  intro hreturn
  obtain ⟨a, b, rfl⟩ := List.append_of_mem hreturn
  have hnext := h (start ++ a) (b ++ after) (by simp) (by
    have := '\r'.utf8Size_pos
    simp only [byteLength_append, byteLength]
    omega)
  cases b with
  | nil => exact hcut ⟨by simp, hnext⟩
  | cons d b =>
    obtain rfl : d = '\n' := Option.some.inj hnext
    exact hline (by simp)

/-- Where there is no lone `\r`, the last line begins after the last `\n`. -/
theorem NoLoneReturnBefore.lastLineLength_eq {before after : List Char}
    (h : NoLoneReturnBefore (byteLength before) (before ++ after))
    (hcut : ¬CutsBreak before after) :
    lastLineLength before = (before.rtakeWhile (· != '\n')).length := by
  have hfeed : '\n' ∉ before.rtakeWhile (· != '\n') :=
    fun hmem => absurd (List.mem_rtakeWhile_imp hmem) (by decide)
  have hreturn : '\r' ∉ before.rtakeWhile (· != '\n') := by
    have hsplit : before.rdropWhile (· != '\n') ++ before.rtakeWhile (· != '\n') = before :=
      List.rdropWhile_append_rtakeWhile
    rw [← hsplit] at h hcut
    exact h.notMem hcut hfeed
  have hline : ∀ c ∈ before.reverse.takeWhile (· != '\n'), (!isLineBreak c) = true := by
    intro c hc
    have hmem : c ∈ before.rtakeWhile (· != '\n') := List.mem_reverse.2 hc
    have hother : c ≠ '\r' ∧ c ≠ '\n' :=
      ⟨fun heq => hreturn (heq ▸ hmem), fun heq => hfeed (heq ▸ hmem)⟩
    simp [isLineBreak, hother]
  have hbreak : ∀ c, (!isLineBreak c) = true → (c != '\n') = true := by
    intro c hc
    by_contra hfeed
    simp_all [isLineBreak]
  rw [lastLineLength, List.rtakeWhile, takeWhile_eq_takeWhile hbreak hline, List.rtakeWhile]

end Text

/-! ## Positions -/

namespace Position

open Text

/-- Moves past a text, given the character after it. -/
def walkTo (p : Position) (next : Option Char) : List Char → Position
  | [] => p
  | c :: cs => (p.step c (cs.head?.or next)).walkTo next cs

variable (p : Position) (next : Option Char)

theorem walkTo_none (cs : List Char) : p.walkTo none cs = p.walk cs := by
  induction cs generalizing p with
  | nil => rfl
  | cons c cs ih => rw [walkTo, walk, Option.or_none, ih]

/-- A text is moved past piece by piece. -/
theorem walkTo_append (a b : List Char) :
    p.walkTo next (a ++ b) = (p.walkTo (b.head?.or next) a).walkTo next b := by
  induction a generalizing p with
  | nil => rfl
  | cons c a ih => rw [List.cons_append, walkTo, walkTo, ih, List.head?_append, Option.or_assoc]

/-- What follows a text matters only if a `\r\n` is cut. -/
theorem walkTo_eq_walk {cs : List Char} {next : Option Char}
    (h : ¬(cs.getLast? = some '\r' ∧ next = some '\n')) : p.walkTo next cs = p.walk cs := by
  induction cs generalizing p with
  | nil => rfl
  | cons c cs ih =>
    cases cs with
    | nil =>
      have hstep : p.step c next = p.step c none := by
        unfold step
        split
        · rfl
        · split
          · rename_i hreturn
            rw [if_neg fun hnext => h ⟨congrArg some hreturn, hnext⟩, if_neg nofun]
          · rfl
      exact hstep
    | cons d cs =>
      rw [walkTo, walk, ih _ (by simpa using h)]
      rfl

/-- A character that is not the `\r` of a `\r\n` ends a line or has a column of its own. -/
theorem step_eq {c : Char} {next : Option Char} (h : c = '\r' → next ≠ some '\n') :
    p.step c next = if isLineBreak c then p.newLine else { p with column := p.column + 1 } := by
  unfold step isLineBreak
  by_cases hfeed : c = '\n'
  · simp [hfeed]
  · by_cases hreturn : c = '\r'
    · simp [hreturn, h hreturn]
    · simp [hfeed, hreturn]

/-- **Positions.** The line counts the breaks before it, and the column the characters after the
last of them. -/
theorem walk_eq (cs : List Char) :
    p.walk cs = ⟨p.line + lineBreaks cs,
      if cs.any isLineBreak then lastLineLength cs else p.column + lastLineLength cs⟩ := by
  fun_induction lineBreaks cs generalizing p with
  | case1 => rfl
  | case2 cs ih =>
    have hlast : lastLineLength ('\r' :: '\n' :: cs) = lastLineLength cs := by
      rw [lastLineLength_cons_of_isLineBreak rfl, lastLineLength_cons_of_isLineBreak rfl]
    have hany : ('\r' :: '\n' :: cs).any isLineBreak = true := rfl
    rw [hlast, hany, if_pos rfl]
    calc p.walk ('\r' :: '\n' :: cs) = p.newLine.walk cs := rfl
      _ = ⟨p.line + (lineBreaks cs + 1), lastLineLength cs⟩ := by
        rw [ih]
        simp [newLine, Nat.add_assoc, Nat.add_comm 1]
  | case3 c cs h ih =>
    have hnext : c = '\r' → cs.head? ≠ some '\n' := by
      intro hreturn hfeed
      obtain ⟨rest, hrest⟩ := List.head?_eq_some_iff.1 hfeed
      exact h rest hreturn hrest
    rw [walk, p.step_eq hnext, ih, List.any_cons]
    cases hbreak : isLineBreak c with
    | true =>
      rw [lastLineLength_cons_of_isLineBreak hbreak]
      simp [newLine, Nat.add_assoc, Nat.add_comm 1]
    | false =>
      cases hany : cs.any isLineBreak with
      | true => simp [lastLineLength_cons_of_any c hany]
      | false =>
        simp [lastLineLength_cons_of_not_any c hany, hbreak, Nat.add_assoc, Nat.add_comm 1]

end Position
end BuiltInScript
