import BuiltInScript.Proofs.Lexing.Words
import BuiltInScript.Proofs.Module.Moves

/-!
# How modes are nested

The modes to go back to are never more than two. Code has none. A mode of its own, a string literal
between its lines, a directive and a deletion stand above code, and a directive or a deletion may
also stand between the lines of a string literal. So there is always a mode to go back to when the
lexer goes back, and the mode that it would fall back to otherwise does not matter.

**Results.**
* `read_directive`: a directive goes on up to a line break, and goes back there.
* `readBetweenLines_between`: between the lines of a literal only directives and deletions begin.
* `Nested.read`: a token keeps modes nested.
* `Nested.read_fallingBackTo`: the lexer goes back only where there is a mode to go back to.
* `tokensUpTo_nested`: so does it in a whole text.
-/
namespace BuiltInScript

section
variable {K M F : Type}

/-- The mode that was left does not matter for going back. -/
@[simp] theorem ModeStack.pop_set (s : ModeStack M) (mode : M) : (s.set mode).pop = s.pop := by
  obtain ⟨current, below, initial⟩ := s
  cases below <;> rfl

/-- The same state, with another mode to fall back to where there is none to go back to. -/
def LexState.fallingBackTo (s : LexState M F) (mode : M) : LexState M F :=
  { s with modes := { s.modes with initial := mode } }

/-- What the lexer falls back to is not asked where there is a mode to go back to. -/
theorem LexState.popMode_fallingBackTo {s : LexState M F} (h : s.modes.below ≠ []) (mode : M) :
    (s.fallingBackTo mode).popMode = s.popMode.fallingBackTo mode := by
  obtain ⟨⟨current, below, initial⟩, memory⟩ := s
  cases below with
  | nil => exact absurd rfl h
  | cons next below => rfl

def Lexer.fallingBackTo {rules : LexicalRules K M F} (l : Lexer rules) (mode : M) : Lexer rules :=
  { l with state := l.state.fallingBackTo mode }

/-- If the rules do not ask for it where a lexer is, its next token does not. -/
theorem Lexer.next_fallingBackTo [TokenKind K] {rules : LexicalRules K M F} {l : Lexer rules}
    {mode : M}
    (h : ∀ c cs, rules.read (l.state.fallingBackTo mode) c cs =
      ((rules.read l.state c cs).1, (rules.read l.state c cs).2.fallingBackTo mode)) :
    (l.fallingBackTo mode).next = (l.next.1, l.next.2.fallingBackTo mode) := by
  unfold next
  simp only [fallingBackTo, h]
  split <;> rfl

/-- What the next token keeps is kept by all tokens. -/
theorem Lexer.tokensUpTo_keeps [TokenKind K] [DecidableEq K] {rules : LexicalRules K M F}
    {holds : LexState M F → Prop} (hread : ∀ s c cs, holds s → holds (rules.read s c cs).2)
    {l : Lexer rules} (h : holds l.state) (n : Nat) : holds (l.tokensUpTo n).2.state := by
  have hnext : ∀ l : Lexer rules, holds l.state → holds l.next.2.state := by
    intro l hl
    unfold next
    dsimp only
    split
    · exact hl
    · exact hread _ _ _ hl
  induction n generalizing l with
  | zero => exact h
  | succ n ih =>
    unfold tokensUpTo
    dsimp only
    split
    · exact hnext l h
    · exact ih (hnext l h)

end

namespace Module

open Text

/-- Modes that stand above each other, the current one first. -/
inductive Nesting : Mode → List Mode → Prop
  /-- Code, with nothing to go back to. -/
  | code : Nesting .default []
  /-- Anything else, above code. -/
  | above {mode : Mode} (hmode : mode ≠ .default) : Nesting mode [.default]
  /-- A directive or a deletion between the lines of a string literal. -/
  | between {mode : Mode} (hmode : mode.area ≠ .code) : Nesting mode [.string, .default]

def State.Nested (s : State) : Prop := Nesting s.modes.current s.modes.below

/-! ## Directives -/

/-- A token of a directive after which it goes on: the directive stays the current mode, and the
token takes no line break. -/
structure Within (s : State) (cs : List Char) (result : Lexeme Kind × State) : Prop where
  state : ∃ mode : Mode, mode.area = .directive ∧ result.2 = s.setMode mode
  unbroken : ∀ d ∈ cs.take result.1.more, isLineBreak d = false

section
variable {s : State} {cs : List Char}

theorem Within.stay (hs : s.mode.area = .directive) {kind : Kind} {n : Nat}
    (h : ∀ d ∈ cs.take n, isLineBreak d = false) : Within s cs (⟨kind, n⟩, s) :=
  ⟨⟨s.mode, hs, rfl⟩, h⟩

/-- A run that stops at a line break takes none. -/
theorem unbroken_run {test : Char → Bool} (htest : ∀ d, test d → isLineBreak d = false) :
    ∀ d ∈ cs.take (run test cs), isLineBreak d = false := by
  intro d hd
  rw [run, take_length_takeWhile] at hd
  exact htest d (List.mem_takeWhile_imp hd)

variable (c : Char)

theorem readDirective_within (hs : s.mode.area = .directive) (hc : isLineBreak c = false) :
    Within s cs (readDirective s c cs) := by
  unfold readDirective
  rw [if_neg (by rw [hc]; decide)]
  split
  · exact .stay hs (unbroken_run fun _ => isLineBreak_of_isInlineBlank)
  · split
    · exact .stay hs (unbroken_run fun d hd => by simpa using hd)
    · split
      · exact .stay hs nofun
      · exact .stay hs nofun
      · exact .stay hs nofun
      · exact .stay hs nofun
      · exact .stay hs (stringBody_unbroken cs)
      · split
        · -- a word may change the mode, to that of a region's name or of a library's
          refine ⟨?_, unbroken_run fun _ => isLineBreak_of_isWordChar⟩
          dsimp only
          unfold State.afterDirectiveWord
          split
          · exact ⟨.region, rfl, rfl⟩
          · exact ⟨.use, rfl, rfl⟩
          · exact ⟨s.mode, hs, rfl⟩
        · refine .stay hs (unbroken_run fun d hd => isLineBreak_of_isBlank_false ?_)
          simp only [Bool.and_eq_true, Bool.not_eq_true'] at hd
          exact hd.1.1.1.1

theorem readRegionName_within (hs : s.mode.area = .directive) (hc : isLineBreak c = false) :
    Within s cs (readRegionName s c cs) := by
  unfold readRegionName
  rw [if_neg (by rw [hc]; decide)]
  split
  · exact .stay hs (unbroken_run fun _ => isLineBreak_of_isInlineBlank)
  · split
    · exact ⟨⟨.directive, rfl, rfl⟩, unbroken_run fun _ => isLineBreak_of_isWordChar⟩
    · exact readDirective_within c hs hc

theorem readUsePath_within (hs : s.mode.area = .directive) (hc : isLineBreak c = false) :
    Within s cs (readUsePath s c cs) := by
  unfold readUsePath
  rw [if_neg (by rw [hc]; decide)]
  split
  · exact .stay hs (unbroken_run fun _ => isLineBreak_of_isInlineBlank)
  · split
    · exact .stay hs (stringBody_unbroken cs)
    · exact .stay hs (unbroken_run fun d hd => isLineBreak_of_isBlank_false (by simpa using hd))

variable (cs) in
/-- **One token of a directive.** It goes on up to a line break, and goes back there. -/
theorem read_directive (hs : s.mode.area = .directive) :
    if isLineBreak c then read s c cs = readDirectiveEnd s c cs
    else Within s cs (read s c cs) := by
  cases hc : isLineBreak c with
  | true =>
    rw [if_pos rfl]
    unfold read
    split <;> rename_i hmode <;> rw [hmode] at hs
    case h_4 => exact if_pos hc
    case h_5 => exact if_pos hc
    case h_6 => exact if_pos hc
    all_goals cases hs
  | false =>
    rw [if_neg (by decide)]
    unfold read
    split <;> rename_i hmode
    case h_4 => exact readDirective_within c hs hc
    case h_5 => exact readRegionName_within c hs hc
    case h_6 => exact readUsePath_within c hs hc
    all_goals
      rw [hmode] at hs
      cases hs

/-! ## Literals and deletions -/

/-- What a token of a kind does between the lines of a string literal. -/
inductive Between (s : State) (kind : Kind) : State → Prop
  | stay (hkind : kind ≠ .hash) : Between s kind s
  /-- A directive or a deletion begins. -/
  | opens {mode : Mode} (hkind : kind.opens? = some mode) (hmode : mode.area ≠ .code) :
      Between s kind (s.pushMode mode)
  /-- The literal ends, or is given up. -/
  | back (hkind : kind ≠ .hash) : Between s kind (State.afterCode s.popMode kind)

variable (s cs) in
theorem readHash_between : Between s (readHash s cs).1.kind (readHash s cs).2 := by
  unfold readHash
  split
  · rename_i kind n hmarker
    dsimp only
    split
    · rename_i hdelete
      exact .opens (by rw [hdelete]; rfl) nofun
    · exact .stay (patchMarker?_of_forall (P := (· ≠ .hash)) (by decide) hmarker)
  · exact .opens rfl nofun

/-- A `#` of code is what it looks like. -/
theorem eq_hash_of_readCode (h : (readCode s c cs).1.kind = .hash) : c = '#' := by
  unfold readCode at h
  split at h
  · cases h
  · split at h
    · cases h
    · split at h
      · cases h
      · split at h
        · unfold readString at h
          split at h <;> cases h
        · unfold readDate at h
          dsimp only at h
          split at h <;> cases h
        · rfl
        · cases h
        · cases h
        · split at h <;> cases h
        · split at h <;> cases h
        · split at h
          · rename_i kind hsign
            exact absurd h (signKind_of_forall (P := (· ≠ .hash)) (by decide) hsign)
          · split at h
            · exact absurd h (wordKind_of_forall (P := (· ≠ .hash)) (by decide) nofun nofun _ _)
            · cases h

variable (s cs) in
theorem readBetweenLines_between :
    Between s (readBetweenLines s c cs).1.kind (readBetweenLines s c cs).2 := by
  unfold readBetweenLines
  split
  · exact .stay nofun
  · split
    · exact .stay nofun
    · split
      · exact readHash_between s cs
      · rename_i hhash
        split
        · split
          · exact .back nofun
          · exact .stay nofun
        · have hkind : (readCode s.popMode c cs).1.kind ≠ .hash :=
            fun h => hhash (eq_hash_of_readCode c h)
          rw [(readCode_goesOn s.popMode c cs).state]
          exact .back hkind

variable (s cs) in
theorem readDeleted_state :
    (readDeleted s c cs).2 = s ∨ (readDeleted s c cs).2 = s.popMode := by
  unfold readDeleted
  split
  · exact .inr rfl
  · exact .inl rfl

end

/-! ## Modes stay nested -/

/-- Code opens modes, but not code itself. -/
theorem Kind.opens?_ne_default {kind : Kind} {mode : Mode} (h : kind.opens? = some mode) :
    mode ≠ .default := by
  unfold opens? at h
  split at h <;> cases h <;> decide

namespace State.Nested

variable {s : State} {mode : Mode} {kind : Kind}

/-- Below code there is nothing. -/
theorem below_eq_nil (h : s.Nested) (hs : s.mode = .default) : s.modes.below = [] := by
  obtain ⟨⟨current, below, initial⟩, memory⟩ := s
  change current = .default at hs
  subst hs
  cases h with
  | code => rfl
  | above hmode => exact absurd rfl hmode
  | between hmode => exact absurd rfl hmode

/-- Below everything else there is a mode to go back to. -/
theorem below_ne_nil (h : s.Nested) (hs : s.mode ≠ .default) : s.modes.below ≠ [] := by
  obtain ⟨⟨current, below, initial⟩, memory⟩ := s
  cases h with
  | code => exact absurd rfl hs
  | above => exact List.cons_ne_nil _ _
  | between => exact List.cons_ne_nil _ _

/-- After going back modes are nested. -/
theorem popMode (h : s.Nested) (hs : s.mode ≠ .default) : State.Nested s.popMode := by
  obtain ⟨⟨current, below, initial⟩, memory⟩ := s
  cases h with
  | code => exact absurd rfl hs
  | above => exact .code
  | between => exact .above nofun

/-- From the other modes of code the lexer goes back to code. -/
theorem mode_popMode (h : s.Nested) (hs : s.mode ≠ .default) (hcode : s.mode.area = .code) :
    s.popMode.mode = .default := by
  obtain ⟨⟨current, below, initial⟩, memory⟩ := s
  cases h with
  | code => exact absurd rfl hs
  | above => rfl
  | between hmode => exact absurd hcode hmode

/-- A directive may turn into another. -/
theorem setMode (h : s.Nested) (hs : s.mode.area ≠ .code) (hmode : mode.area ≠ .code) :
    State.Nested (s.setMode mode) := by
  have hne : mode ≠ .default := fun heq => hmode (congrArg Mode.area heq)
  obtain ⟨⟨current, below, initial⟩, memory⟩ := s
  cases h with
  | code => exact absurd rfl hs
  | above => exact .above hne
  | between => exact .between hmode

/-- Between the lines of a literal a directive or a deletion may begin. -/
theorem pushMode (h : s.Nested) (hs : s.mode = .string) (hmode : mode.area ≠ .code) :
    State.Nested (s.pushMode mode) := by
  obtain ⟨⟨current, below, initial⟩, memory⟩ := s
  change current = .string at hs
  subst hs
  cases h with
  | above => exact .between hmode
  | between hstring => exact absurd rfl hstring

/-- Code may open any mode. -/
theorem afterCode (h : s.Nested) (hs : s.mode = .default) : (s.afterCode kind).Nested := by
  have hbelow := h.below_eq_nil hs
  unfold State.Nested State.afterCode
  cases hopens : kind.opens? with
  | none => exact h
  | some mode =>
    change Nesting mode (s.modes.current :: s.modes.below)
    rw [show s.modes.current = .default from hs, hbelow]
    exact .above (Kind.opens?_ne_default hopens)

end State.Nested

theorem Moves.nested {s s' : State} {c : Char} {kind : Kind} (h : Moves s c kind s')
    (hs : s.Nested) (hcode : s.mode.area = .code) (hplain : s.mode.isPlain = false) :
    s'.Nested := by
  have hne : s.mode ≠ .default := by
    intro heq
    rw [heq] at hplain
    cases hplain
  cases h with
  | code h => rw [hplain] at h; cases h
  | back => exact (hs.popMode hne).afterCode (hs.mode_popMode hne hcode)
  | blank => exact hs
  | within mode h => exact absurd hcode h

theorem Between.nested {s s' : State} {kind : Kind} (h : Between s kind s') (hs : s.Nested)
    (hstring : s.mode = .string) : s'.Nested := by
  have hne : s.mode ≠ .default := by
    rw [hstring]
    nofun
  have hcode : s.mode.area = .code := by
    rw [hstring]
    rfl
  cases h with
  | stay => exact hs
  | opens _ hmode => exact hs.pushMode hstring hmode
  | back => exact (hs.popMode hne).afterCode (hs.mode_popMode hne hcode)

section
variable {s : State} (c : Char) (cs : List Char)

theorem read_nested_of_directive (h : s.Nested) (hs : s.mode.area = .directive) :
    (read s c cs).2.Nested := by
  have hne : s.mode ≠ .default := by
    intro heq
    rw [heq] at hs
    cases hs
  have hread := read_directive cs c hs
  split at hread
  · rw [hread]
    exact h.popMode hne
  · obtain ⟨⟨mode, hmode, hstate⟩, -⟩ := hread
    rw [hstate]
    exact h.setMode (by rw [hs]; nofun) (by rw [hmode]; nofun)

/-- A token keeps modes nested. -/
theorem State.Nested.read (h : s.Nested) : (read s c cs).2.Nested := by
  cases hmode : s.mode with
  | default =>
    unfold Module.read
    rw [hmode]
    dsimp only
    rw [(readCode_goesOn s c cs).state]
    exact h.afterCode hmode
  | dot => exact (read_moves s c cs).nested h (by rw [hmode]; rfl) (by rw [hmode]; rfl)
  | annotationName => exact (read_moves s c cs).nested h (by rw [hmode]; rfl) (by rw [hmode]; rfl)
  | directive => exact read_nested_of_directive c cs h (by rw [hmode]; rfl)
  | region => exact read_nested_of_directive c cs h (by rw [hmode]; rfl)
  | use => exact read_nested_of_directive c cs h (by rw [hmode]; rfl)
  | string =>
    unfold Module.read
    rw [hmode]
    exact (readBetweenLines_between s cs c).nested h hmode
  | delete =>
    unfold Module.read
    rw [hmode]
    rcases readDeleted_state s cs c with hstate | hstate <;> dsimp only <;> rw [hstate]
    · exact h
    · exact h.popMode (by rw [hmode]; nofun)

end

theorem tokensUpTo_nested {l : Lexer lexicalRules} (h : State.Nested l.state) (n : Nat) :
    State.Nested (l.tokensUpTo n).2.state :=
  Lexer.tokensUpTo_keeps (fun _ c cs hs => hs.read c cs) h n

/-! ## Going back -/

section
variable {s : State} (mode : Mode) (c : Char) (cs : List Char)

theorem readHash_fallingBackTo :
    readHash (s.fallingBackTo mode) cs =
      ((readHash s cs).1, (readHash s cs).2.fallingBackTo mode) := by
  unfold readHash
  split
  · split <;> rfl
  · rfl

/-- What is read in code does not ask for the mode to fall back to, since code does not go
back. -/
theorem readCode_fallingBackTo :
    readCode (s.fallingBackTo mode) c cs =
      ((readCode s c cs).1, (readCode s c cs).2.fallingBackTo mode) := by
  unfold readCode
  split
  · rfl
  · split
    · rfl
    · split
      · rfl
      · split
        · unfold readString
          split <;> rfl
        · unfold readDate
          dsimp only
          split <;> rfl
        · exact readHash_fallingBackTo mode cs
        · rfl
        · rfl
        · split <;> rfl
        · split <;> rfl
        · split
          · rfl
          · split <;> rfl

theorem readDirectiveEnd_fallingBackTo (h : s.modes.below ≠ []) :
    readDirectiveEnd (s.fallingBackTo mode) c cs =
      ((readDirectiveEnd s c cs).1, (readDirectiveEnd s c cs).2.fallingBackTo mode) := by
  unfold readDirectiveEnd
  rw [LexState.popMode_fallingBackTo h]

theorem readDirective_fallingBackTo (h : s.modes.below ≠ []) :
    readDirective (s.fallingBackTo mode) c cs =
      ((readDirective s c cs).1, (readDirective s c cs).2.fallingBackTo mode) := by
  unfold readDirective
  rw [readDirectiveEnd_fallingBackTo mode c cs h]
  split
  · rfl
  · split
    · rfl
    · split
      · rfl
      · split
        · rfl
        · rfl
        · rfl
        · rfl
        · rfl
        · split
          · dsimp only
            unfold State.afterDirectiveWord
            split <;> rfl
          · rfl

theorem readAfterDot_fallingBackTo (h : s.modes.below ≠ []) :
    readAfterDot (s.fallingBackTo mode) c cs =
      ((readAfterDot s c cs).1, (readAfterDot s c cs).2.fallingBackTo mode) := by
  unfold readAfterDot
  rw [LexState.popMode_fallingBackTo h, readCode_fallingBackTo]
  split
  · rfl
  · split <;> rfl

theorem readAfterAmpersand_fallingBackTo (h : s.modes.below ≠ []) :
    readAfterAmpersand (s.fallingBackTo mode) c cs =
      ((readAfterAmpersand s c cs).1, (readAfterAmpersand s c cs).2.fallingBackTo mode) := by
  unfold readAfterAmpersand
  rw [LexState.popMode_fallingBackTo h, readCode_fallingBackTo]
  split <;> rfl

theorem readRegionName_fallingBackTo (h : s.modes.below ≠ []) :
    readRegionName (s.fallingBackTo mode) c cs =
      ((readRegionName s c cs).1, (readRegionName s c cs).2.fallingBackTo mode) := by
  unfold readRegionName
  rw [readDirectiveEnd_fallingBackTo mode c cs h, readDirective_fallingBackTo mode c cs h]
  split
  · rfl
  · split
    · rfl
    · split <;> rfl

theorem readUsePath_fallingBackTo (h : s.modes.below ≠ []) :
    readUsePath (s.fallingBackTo mode) c cs =
      ((readUsePath s c cs).1, (readUsePath s c cs).2.fallingBackTo mode) := by
  unfold readUsePath
  rw [readDirectiveEnd_fallingBackTo mode c cs h]
  split
  · rfl
  · split
    · rfl
    · split <;> rfl

theorem readBetweenLines_fallingBackTo (h : s.modes.below ≠ []) :
    readBetweenLines (s.fallingBackTo mode) c cs =
      ((readBetweenLines s c cs).1, (readBetweenLines s c cs).2.fallingBackTo mode) := by
  unfold readBetweenLines
  rw [LexState.popMode_fallingBackTo h, readCode_fallingBackTo]
  split
  · rfl
  · split
    · rfl
    · split
      · exact readHash_fallingBackTo mode cs
      · split
        · split <;> rfl
        · rfl

theorem readDeleted_fallingBackTo (h : s.modes.below ≠ []) :
    readDeleted (s.fallingBackTo mode) c cs =
      ((readDeleted s c cs).1, (readDeleted s c cs).2.fallingBackTo mode) := by
  unfold readDeleted
  rw [LexState.popMode_fallingBackTo h]
  split <;> rfl

/-- Nor does what is read elsewhere, where there is a mode to go back to. -/
theorem read_fallingBackTo (h : s.modes.below ≠ []) :
    read (s.fallingBackTo mode) c cs =
      ((read s c cs).1, (read s c cs).2.fallingBackTo mode) := by
  unfold read
  rw [show (s.fallingBackTo mode).mode = s.mode from rfl]
  cases s.mode with
  | default => exact readCode_fallingBackTo mode c cs
  | dot => exact readAfterDot_fallingBackTo mode c cs h
  | annotationName => exact readAfterAmpersand_fallingBackTo mode c cs h
  | directive => exact readDirective_fallingBackTo mode c cs h
  | region => exact readRegionName_fallingBackTo mode c cs h
  | use => exact readUsePath_fallingBackTo mode c cs h
  | string => exact readBetweenLines_fallingBackTo mode c cs h
  | delete => exact readDeleted_fallingBackTo mode c cs h

end

/-- **No mode is missed.** Where modes are nested, the mode to fall back to does not matter: the
lexer goes back only where there is a mode to go back to. -/
theorem State.Nested.read_fallingBackTo {s : State} (h : s.Nested) (mode : Mode) (c : Char)
    (cs : List Char) :
    Module.read (s.fallingBackTo mode) c cs =
      ((Module.read s c cs).1, (Module.read s c cs).2.fallingBackTo mode) := by
  by_cases hs : s.mode = .default
  · unfold Module.read
    rw [show (s.fallingBackTo mode).mode = s.mode from rfl, hs]
    exact readCode_fallingBackTo mode c cs
  · exact Module.read_fallingBackTo mode c cs (h.below_ne_nil hs)

end Module
end BuiltInScript
