import BuiltInScript.Proofs.Lexing.Folding
import BuiltInScript.Proofs.Lexing.Pieces
import BuiltInScript.Proofs.Module.Nesting

/-!
# Directive lines keep their modes to themselves

A `#` of code begins a directive, which is read in modes of its own up to the line break that ends
it. There the lexer goes back to what it was doing: the modes are those before the `#`, less the
mode of a `.` or a `&` that the `#` stands right after.

**Results.**
* `next_within`, `next_break`: in a directive a token takes no line break, and a line break is a
  token.
* `directive_rest`: so a directive is read up to the first line break.
* `read_hash`: what is below a directive.
* `directives_keep_modes`: modes at every boundary of tokens, and around every directive.
-/
namespace BuiltInScript.Module

open Text

/-- What is left to read of a directive line after its `#`: some tokens, all read in modes of
directives, up to the first line break ahead or the end of the text. The line break is one token,
and brings modes `back`. -/
structure DirectiveRest (l : Lexer lexicalRules) (back : ModeStack Mode) (count : Nat) : Prop where
  modes : ∀ n ≤ count, (l.tokensUpTo n).2.mode.area = .directive
  ahead : (l.tokensUpTo count).2.scanner.stream.ahead =
    l.scanner.stream.ahead.dropWhile fun c => !isLineBreak c
  ends : let last := (l.tokensUpTo count).2
    let ahead := last.scanner.stream.ahead
    ahead = [] ∨
      last.next.1.piece = (.dirNewline, ahead.take (Scanner.lineBreakLength ahead)) ∧
        last.next.2.state.modes = back

/-! ## Tokens of a directive -/

section
variable {l : Lexer lexicalRules} {c : Char} {cs : List Char}

theorem tokensUpTo_succ (ha : l.scanner.stream.ahead = c :: cs) (n : Nat) :
    (l.tokensUpTo (n + 1)).2 = (l.next.2.tokensUpTo n).2 := by
  have hend : l.next.1.isEnd = false := by
    rw [← Bool.not_eq_true, l.isEnd_next_iff lexicalRules_plain, ha]
    exact List.cons_ne_nil c cs
  simp only [Lexer.tokensUpTo, hend]
  rfl

/-- Within a line the directive goes on. -/
theorem next_within (hs : l.mode.area = .directive) (ha : l.scanner.stream.ahead = c :: cs)
    (hc : isLineBreak c = false) :
    l.next.2.mode.area = .directive ∧ l.next.2.state.modes.pop = l.state.modes.pop ∧
      ∃ n, l.next.2.scanner.stream.ahead = cs.drop n ∧
        ∀ d ∈ cs.take n, isLineBreak d = false := by
  have hread := read_directive (cs.map foldCase) (foldCase c) hs
  rw [isLineBreak_foldCase, hc, if_neg (by decide)] at hread
  obtain ⟨⟨lexeme, s'⟩, hresult⟩ : ∃ result, read l.state (foldCase c) (cs.map foldCase) = result :=
    ⟨_, rfl⟩
  rw [hresult] at hread
  obtain ⟨⟨mode, hmode, rfl⟩, hunbroken⟩ := hread
  obtain ⟨-, hahead, hstate⟩ := l.next_of_ahead ha hresult
  refine ⟨?_, ?_, lexeme.more, hahead, ?_⟩
  · unfold Lexer.mode
    rw [hstate]
    exact hmode
  · rw [hstate]
    exact ModeStack.pop_set _ _
  · intro d hd
    rw [← isLineBreak_foldCase]
    refine hunbroken _ ?_
    rw [← List.map_take]
    exact List.mem_map_of_mem hd

/-- The line break that ends a directive has as many characters as a line break has. -/
theorem readDirectiveEnd_more (s : State) (hc : isLineBreak c) :
    (readDirectiveEnd s (foldCase c) (cs.map foldCase)).1.more + 1 =
      Scanner.lineBreakLength (c :: cs) := by
  have hreturn := foldCase_eq_iff (show '\r' ∈ marks by decide) c
  have hfeed : (cs.map foldCase).head? = some '\n' ↔ cs.head? = some '\n' := by
    rw [List.head?_map, Option.map_eq_some_iff]
    simp only [foldCase_eq_iff (show '\n' ∈ marks by decide), exists_eq_right]
  simp only [isLineBreak, Bool.or_eq_true, beq_iff_eq] at hc
  unfold readDirectiveEnd
  simp only [hreturn, hfeed]
  rcases hc with rfl | rfl
  · cases cs with
    | nil => rfl
    | cons d ds => by_cases hd : d = '\n' <;> simp [hd, Scanner.lineBreakLength]
  · rfl

/-- A line break ends the directive. -/
theorem next_break (hs : l.mode.area = .directive) (ha : l.scanner.stream.ahead = c :: cs)
    (hc : isLineBreak c) :
    l.next.1.piece = (.dirNewline, (c :: cs).take (Scanner.lineBreakLength (c :: cs))) ∧
      l.next.2.state.modes = l.state.modes.pop := by
  have hread := read_directive (cs.map foldCase) (foldCase c) hs
  rw [isLineBreak_foldCase, hc, if_pos rfl] at hread
  obtain ⟨hpiece, -, hstate⟩ := l.next_of_ahead ha hread
  rw [← readDirectiveEnd_more l.state hc, List.take_succ_cons, hstate]
  exact ⟨hpiece, rfl⟩

/-- A directive has nothing left to read before a line break or the end of the text. -/
theorem directiveRest_zero (hs : l.mode.area = .directive)
    (h : ∀ c ∈ l.scanner.stream.ahead.head?, isLineBreak c) :
    DirectiveRest l l.state.modes.pop 0 where
  modes n hn := by
    obtain rfl := Nat.le_zero.1 hn
    exact hs
  ahead := by
    change l.scanner.stream.ahead = _
    cases ha : l.scanner.stream.ahead with
    | nil => rfl
    | cons c cs =>
      have hc : isLineBreak c := h c (by rw [ha]; rfl)
      rw [List.dropWhile_cons_of_neg (by simp [hc])]
  ends := by
    cases ha : l.scanner.stream.ahead with
    | nil => exact .inl ha
    | cons c cs =>
      have hbreak := next_break hs ha (h c (by rw [ha]; rfl))
      rw [← ha] at hbreak
      exact .inr hbreak

/-- A token that takes no line break stands before what is left to read after it. -/
theorem DirectiveRest.succ {back : ModeStack Mode} {n count : Nat} (hs : l.mode.area = .directive)
    (ha : l.scanner.stream.ahead = c :: cs) (hc : isLineBreak c = false)
    (hahead : l.next.2.scanner.stream.ahead = cs.drop n)
    (hunbroken : ∀ d ∈ cs.take n, isLineBreak d = false) (h : DirectiveRest l.next.2 back count) :
    DirectiveRest l back (count + 1) where
  modes i hi := by
    cases i with
    | zero => exact hs
    | succ i =>
      rw [tokensUpTo_succ ha]
      exact h.modes i (Nat.le_of_succ_le_succ hi)
  ahead := by
    have hall : ∀ d ∈ cs.take n, (!isLineBreak d) = true := by
      intro d hd
      rw [hunbroken d hd]
      rfl
    rw [tokensUpTo_succ ha, h.ahead, hahead, ha, List.dropWhile_cons_of_pos (by simp [hc]),
      ← List.dropWhile_append_of_pos hall, List.take_append_drop]
  ends := by
    rw [tokensUpTo_succ ha]
    exact h.ends

end

/-- **A directive line.** It is read up to the first line break, which brings back the mode below
it. -/
theorem directive_rest (l : Lexer lexicalRules) (hs : l.mode.area = .directive) :
    ∃ count, DirectiveRest l l.state.modes.pop count := by
  -- on what is left to read: a token of the directive takes at least one character of it
  induction hlength : l.scanner.stream.ahead.length using Nat.strongRecOn generalizing l with
  | ind size ih =>
    cases ha : l.scanner.stream.ahead with
    | nil => exact ⟨0, directiveRest_zero hs (by simp [ha])⟩
    | cons c cs =>
      cases hc : isLineBreak c with
      | true => exact ⟨0, directiveRest_zero hs (by simpa [ha] using hc)⟩
      | false =>
        obtain ⟨hnext, hpop, n, hahead, hunbroken⟩ := next_within hs ha hc
        have hshorter : l.next.2.scanner.stream.ahead.length < size := by
          rw [hahead, ← hlength, ha, List.length_drop, List.length_cons]
          omega
        obtain ⟨count, hrest⟩ := ih _ hshorter l.next.2 hnext rfl
        rw [hpop] at hrest
        exact ⟨count + 1, hrest.succ hs ha hc hahead hunbroken⟩

/-! ## What is below a directive -/

/-- A `#` of code puts a directive above the modes in force, less a mode that ends with the token
after a `.` or a `&`. -/
theorem read_hash {s : State} {c : Char} {cs : List Char} (hs : s.mode.area = .code)
    (h : (read s c cs).1.kind = .hash) :
    (read s c cs).2.modes =
      (if s.mode.isPlain then s.modes else s.modes.pop).push .directive := by
  by_cases hstring : s.mode = .string
  · have hbetween := readBetweenLines_between s cs c
    have hread : read s c cs = readBetweenLines s c cs := by
      unfold read
      rw [hstring]
    rw [hread] at h ⊢
    rw [h] at hbetween
    rw [hstring, if_pos (show Mode.string.isPlain from rfl)]
    generalize (readBetweenLines s c cs).2 = s' at hbetween
    cases hbetween with
    | stay hkind => exact absurd rfl hkind
    | opens hopens =>
      cases hopens
      rfl
    | back hkind => exact absurd rfl hkind
  · by_cases hdefault : s.mode = .default
    · have hread : read s c cs = readCode s c cs := by
        unfold read
        rw [hdefault]
      rw [hread] at h ⊢
      rw [(readCode_goesOn s c cs).state, h, hdefault, if_pos (show Mode.default.isPlain from rfl)]
      rfl
    · have hplain : s.mode.isPlain = false := by
        generalize s.mode = mode at hstring hdefault
        cases mode <;> first | rfl | exact absurd rfl hstring | exact absurd rfl hdefault
      have hmoves := read_moves s c cs
      rw [h] at hmoves
      rw [hplain, if_neg (by decide)]
      generalize (read s c cs).2 = s' at hmoves
      cases hmoves with
      | code hcode => rw [hplain] at hcode; cases hcode
      | back => rfl
      | blank _ hkind => cases hkind
      | within mode hcode => exact absurd hs hcode

theorem next_hash {l : Lexer lexicalRules} (hs : l.mode.area = .code)
    (h : l.next.1.kind = .hash) :
    l.next.2.state.modes =
      (if l.mode.isPlain then l.state.modes else l.state.modes.pop).push .directive := by
  cases ha : l.scanner.stream.ahead with
  | nil =>
    have hend := (l.isEnd_next_iff lexicalRules_plain).2 ha
    unfold Token.isEnd at hend
    rw [h] at hend
    cases hend
  | cons c cs =>
    obtain ⟨hpiece, -, hstate⟩ := l.next_of_ahead ha rfl
    have hkind := congrArg Prod.fst hpiece
    rw [hstate]
    exact read_hash hs (hkind.symm.trans h)

/-! ## Texts -/

/-- **Directive lines do not leak their modes.** At every boundary of tokens modes are nested, and
the next token does not ask what to fall back to, which it would if the lexer went back with no
mode to go back to. Every `#` that is read in code begins a directive line, read in modes of
directives up to the first line break after it; there the modes in force before the line are back,
and the mode of a `.` or a `&` before the `#` is not. -/
theorem directives_keep_modes (l : Lexer lexicalRules) (n : Nat) :
    let here := (l.reset.tokensUpTo n).2
    Nesting here.state.modes.current here.state.modes.below ∧
      (∀ mode, (here.fallingBackTo mode).next = (here.next.1, here.next.2.fallingBackTo mode)) ∧
      (here.mode.area = .code → here.next.1.kind = .hash →
        ∃ count, DirectiveRest here.next.2
          (if here.mode.isPlain then here.state.modes else here.state.modes.pop) count) := by
  intro here
  have hnested : State.Nested here.state := tokensUpTo_nested (l := l.reset) .code n
  refine ⟨hnested, ?_, ?_⟩
  · intro mode
    exact Lexer.next_fallingBackTo fun c cs => hnested.read_fallingBackTo mode c cs
  · intro hcode hkind
    have hmodes := next_hash hcode hkind
    have harea : here.next.2.mode.area = .directive := by
      unfold Lexer.mode LexState.mode
      rw [hmodes]
      rfl
    have hline := directive_rest here.next.2 harea
    rw [hmodes, ModeStack.pop_push] at hline
    exact hline

/-- A `#` right after a `.`, and the line that it begins. -/
theorem directives_keep_modes_after_dot :
    let here := ((Lexer.ofText lexicalRules "" ".#!\n").reset.tokensUpTo 1).2
    here.mode = .dot ∧ here.next.1.kind = .hash ∧
      ∃ count, DirectiveRest here.next.2 (.ofInitial .default) count := by
  intro here
  have hkind : here.next.1.kind = .hash := by decide +kernel
  exact ⟨rfl, hkind, (directives_keep_modes (.ofText lexicalRules "" ".#!\n") 1).2.2 rfl hkind⟩

end BuiltInScript.Module
