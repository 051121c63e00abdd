import BuiltInScript.Proofs.Lexing.Words
import BuiltInScript.Proofs.Query.Lexis

/-!
# What a token of a query does to the mode

A `.` puts the lexer of queries in the mode of member names, and what comes next takes it back
unless it is white space. So the mode is told by the tokens before: the lexer reads a member name
where the last token that is not white space is a `.`.

**Results.**
* `readToken_goesOn`: back in the other mode, only a `.` changes it.
* `read_moves`: what a token does to either mode.
* `Told.next`: so the tokens that were read tell the mode.
* `read_word`, `read_member`: what a word is in either mode.
-/
namespace BuiltInScript.Query

open Text

/-! ## Modes -/

/-- The lexer comes back to code only. -/
structure State.Stacked (s : State) : Prop where
  below : ∀ mode ∈ s.modes.below, mode = .default
  initial : s.modes.initial = .default

namespace State.Stacked

variable {s : State}

theorem popMode (h : s.Stacked) : State.Stacked s.popMode ∧ s.popMode.mode = .default := by
  obtain ⟨⟨current, below, initial⟩, memory⟩ := s
  cases below with
  | nil => exact ⟨⟨h.below, h.initial⟩, h.initial⟩
  | cons mode below =>
    obtain ⟨hmode, hbelow⟩ := List.forall_mem_cons.1 h.below
    exact ⟨⟨hbelow, h.initial⟩, hmode⟩

theorem pushMode (h : s.Stacked) (hs : s.mode = .default) (mode : Mode) :
    State.Stacked (s.pushMode mode) :=
  ⟨List.forall_mem_cons.2 ⟨hs, h.below⟩, h.initial⟩

end State.Stacked

/-! ## Tokens -/

/-- A token begun by `c` that only a `.` is followed by another mode of. -/
structure GoesOn (s : State) (c : Char) (result : Lexeme Kind × State) : Prop where
  state : result.2 = if result.1.kind = .dot then s.pushMode .dot else s
  blank : result.1.kind = .whiteSpace → isBlank c

theorem GoesOn.quiet {s : State} {c : Char} {kind : Kind} {n : Nat} (hdot : kind ≠ .dot)
    (hblank : kind = .whiteSpace → isBlank c) : GoesOn s c (⟨kind, n⟩, s) :=
  ⟨(if_neg hdot).symm, hblank⟩

section
variable {s : State} (c : Char) (cs : List Char)

theorem readToken_goesOn (hs : s.mode ≠ .dot) : GoesOn s c (readToken s c cs) := by
  unfold readToken
  split
  · rename_i hblank
    exact .quiet nofun fun _ => hblank
  · split
    · exact .quiet nofun nofun
    · split
      · exact .quiet nofun nofun
      · split
        · split <;> exact .quiet nofun nofun
        · exact .quiet nofun nofun
        · exact ⟨rfl, nofun⟩
        · split <;> exact .quiet nofun nofun
        · split <;> exact .quiet nofun nofun
        · split
          · rename_i kind hsign
            obtain ⟨hdot, hblank⟩ : kind ≠ .dot ∧ kind ≠ .whiteSpace :=
              signKind_of_forall (P := fun kind => kind ≠ .dot ∧ kind ≠ .whiteSpace)
                (by decide) hsign
            exact .quiet hdot fun h => absurd h hblank
          · split
            · have hkind (word : List Char) :
                  wordKind word ≠ .dot ∧ wordKind word ≠ .whiteSpace :=
                wordKind_of_forall (P := fun kind => kind ≠ .dot ∧ kind ≠ .whiteSpace)
                  (by decide) (by decide) (by decide) word
              obtain ⟨hdot, hblank⟩ := hkind (_ :: cs.takeWhile isWordChar)
              unfold readWord
              rw [if_neg hs]
              exact .quiet hdot fun h => absurd h hblank
            · exact .quiet nofun nofun

/-- A word is dispatched by its first character. -/
theorem readToken_word (hc : isWordStart c) (s : State) : readToken s c cs = readWord s c cs := by
  have hsigns : ∀ row ∈ signs, isWordStart row.1 = false := by decide
  have hsign : signs.lookup c = none :=
    List.lookup_eq_none_iff.2 fun row hrow =>
      bne_iff_ne.2 (ne_of_isWordStart hc (hsigns row hrow))
  have hslash : c ≠ '/' := ne_of_isWordStart hc (by decide)
  unfold readToken
  rw [if_neg (by simp [isBlank_of_isWordStart hc]), if_neg (by simp [hslash]),
    if_neg (by simp [isDigit_of_isWordStart hc])]
  split
  · exact absurd rfl (ne_of_isWordStart hc (by decide))
  · exact absurd rfl (ne_of_isWordStart hc (by decide))
  · exact absurd rfl (ne_of_isWordStart hc (by decide))
  · exact absurd rfl (ne_of_isWordStart hc (by decide))
  · exact absurd rfl (ne_of_isWordStart hc (by decide))
  · rw [hsign]
    exact if_pos hc

theorem read_word (hc : isWordStart c) (hs : s.mode ≠ .dot) :
    (read s c cs).1 =
      ⟨wordKind (c :: cs.takeWhile isWordChar), (cs.takeWhile isWordChar).length⟩ := by
  unfold read
  rw [if_neg (by simp [hs]), readToken_word c cs hc, readWord, if_neg hs]

/-- After `.` a word is a name, and the lexer goes back. -/
theorem read_member (hc : isWordStart c) (hs : s.mode = .dot) :
    read s c cs = (⟨.identifier, (cs.takeWhile isWordChar).length⟩, s.popMode) := by
  unfold read
  rw [if_neg (by simp [hc]), readToken_word c cs hc, readWord, if_pos hs]

theorem read_blank (hc : isBlank c) :
    read s c cs = (⟨.whiteSpace, (cs.takeWhile isBlank).length⟩, s) := by
  unfold read
  rw [if_neg (by simp [hc])]
  exact if_pos hc

/-- A token read in code: only a `.` is followed by another mode. -/
theorem readToken_moves (h : s.Stacked) (hs : s.mode = .default) :
    State.Stacked (readToken s c cs).2 ∧
      ((readToken s c cs).2.mode = .dot ↔ (readToken s c cs).1.kind = .dot) := by
  have hdot : s.mode ≠ .dot := by rw [hs]; nofun
  rw [(readToken_goesOn c cs hdot).state]
  split
  · rename_i hkind
    exact ⟨h.pushMode hs _, iff_of_true rfl hkind⟩
  · rename_i hkind
    exact ⟨h, iff_of_false hdot hkind⟩

/-- A token read in either mode: a `.` is followed by the mode of member names, and white space by
the mode before it. -/
theorem read_moves (h : s.Stacked) :
    State.Stacked (read s c cs).2 ∧
      ((read s c cs).2.mode = .dot ↔ (read s c cs).1.kind = .dot ∨
        (read s c cs).1.kind = .whiteSpace ∧ s.mode = .dot) := by
  cases hmode : s.mode with
  | default =>
    have hread : read s c cs = readToken s c cs := if_neg (by simp [hmode])
    obtain ⟨hstacked, hdot⟩ := readToken_moves c cs h hmode
    rw [hread]
    exact ⟨hstacked, by simp [hdot]⟩
  | dot =>
    obtain ⟨hpop, hcode⟩ := h.popMode
    have hnot : s.popMode.mode ≠ .dot := by rw [hcode]; nofun
    cases hword : isWordStart c with
    | true =>
      rw [read_member c cs hword hmode]
      exact ⟨hpop, iff_of_false hnot (by simp)⟩
    | false =>
      cases hblank : isBlank c with
      | true =>
        rw [read_blank c cs hblank]
        exact ⟨h, iff_of_true hmode (.inr ⟨rfl, rfl⟩)⟩
      | false =>
        have hread : read s c cs = readToken s.popMode c cs :=
          if_pos (by simp [hmode, hword, hblank])
        have hkind : (readToken s.popMode c cs).1.kind ≠ .whiteSpace := fun hkind => by
          rw [(readToken_goesOn c cs hnot).blank hkind] at hblank
          cases hblank
        obtain ⟨hstacked, hdot⟩ := readToken_moves c cs hpop hcode
        rw [hread]
        exact ⟨hstacked, by simp [hdot, hkind]⟩

end

/-! ## What the tokens tell -/

/-- The last token that is not white space is a `.`. -/
def AfterDot (tokens : List (Token Kind)) : Prop := LastIs (·.kind = .whiteSpace) .dot tokens

instance : DecidablePred AfterDot := fun tokens =>
  inferInstanceAs (Decidable (LastIs (·.kind = .whiteSpace) .dot tokens))

theorem afterDot_concat (tokens : List (Token Kind)) (t : Token Kind) :
    AfterDot (tokens ++ [t]) ↔ t.kind = .dot ∨ t.kind = .whiteSpace ∧ AfterDot tokens := by
  unfold AfterDot
  rw [lastIs_concat]
  by_cases hblank : t.kind = .whiteSpace <;> simp [hblank]

/-- The tokens that were read tell the mode of the lexer. -/
structure Told (tokens : List (Token Kind)) (s : State) : Prop where
  stacked : s.Stacked
  dot : s.mode = .dot ↔ AfterDot tokens

theorem Told.initial : Told [] lexicalRules.initial where
  stacked := ⟨List.forall_mem_nil _, rfl⟩
  dot := iff_of_false nofun not_lastIs_nil

/-- The mode is told on after each token, unless the text ends. -/
theorem Told.next {l : Lexer lexicalRules} {tokens : List (Token Kind)} (h : Told tokens l.state) :
    l.next.1.isEnd = true ∨ Told (tokens ++ [l.next.1]) l.next.2.state := by
  rcases l.next_reads with ⟨hend, -⟩ | ⟨c, cs, -, hkind, -, hstate⟩
  · exact .inl (decide_eq_true hend)
  · obtain ⟨hstacked, hdot⟩ := read_moves (foldCase c) cs h.stacked
    change l.next.1.kind = (read l.state (foldCase c) cs).1.kind at hkind
    change l.next.2.state = (read l.state (foldCase c) cs).2 at hstate
    rw [hstate]
    refine .inr ⟨hstacked, ?_⟩
    rw [hdot, afterDot_concat, hkind, h.dot]

end BuiltInScript.Query
