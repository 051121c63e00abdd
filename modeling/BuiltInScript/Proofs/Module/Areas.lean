import BuiltInScript.Proofs.Module.Lexis

/-!
# Areas of a module

A text falls into code, directive lines and deletions. The modes of the lexer are finer than that,
but the area that a token stands in is told by the tokens before it alone: a `#` begins a directive
line and a line break ends it, `#Удаление` begins a deletion and `#КонецУдаления` ends it. Neither
begins within the other, because the lexer goes into a directive or a deletion from code only, and
so comes back to code.

**Results.**
* `readCode_leads`, …, `readDeleted_leads`: in each mode a token leads to the area of the next mode.
* `read_leads`: a token leads on in every mode.
* `tokensUpTo_areas`, `tokenize_areas`: so a whole text is read through its areas.
* `Area.deletedText_of_run`: in a deletion there is only deleted text.
-/
namespace BuiltInScript.Module

open Text

inductive Area where
  | code | directive | deletion
deriving DecidableEq, Repr

/-- The area that is read in a mode. -/
def Mode.area : Mode → Area
  | .default | .dot | .annotationName | .string => .code
  | .directive | .region | .use => .directive
  | .delete => .deletion

namespace Area

/-- The area after a token of a kind, if one may stand in an area. The end marker may stand
everywhere, and ends everything. -/
def after : Area → Kind → Option Area
  | _, .endOfInput => some .code
  | .code, .hash => some .directive
  | .code, .deleteMarker => some .deletion
  | .code, kind => if kind.isDirectivePart || kind = .deletedText then none else some .code
  | .directive, .dirNewline => some .code
  | .directive, kind =>
    if kind.isDirectivePart || kind ∈ [.hash, .whiteSpace, .lineComment] then some .directive
    else none
  | .deletion, .endDeleteMarker => some .code
  | .deletion, .deletedText => some .deletion
  | .deletion, _ => none

/-- The area after some tokens, if they may stand one after another. -/
def run (area : Area) (tokens : List (Token Kind)) : Option Area :=
  tokens.foldlM (fun area t => area.after t.kind) area

theorem run_cons (area : Area) (t : Token Kind) (ts : List (Token Kind)) :
    area.run (t :: ts) = (area.after t.kind).bind (·.run ts) := rfl

theorem run_append (area : Area) (a b : List (Token Kind)) :
    area.run (a ++ b) = (area.run a).bind (·.run b) := List.foldlM_append

theorem run_concat (area : Area) (before : List (Token Kind)) (t : Token Kind) :
    area.run (before ++ [t]) = (area.run before).bind (·.after t.kind) := by
  rw [run_append]
  cases area.run before with
  | none => rfl
  | some area => simp [run]

end Area

/-! ## Modes -/

/-- Below a directive and below a deletion there is code. -/
structure State.Layered (s : State) : Prop where
  below : ∀ mode ∈ s.modes.below, mode.area = .code
  initial : s.modes.initial.area = .code

/-- A token that may stand in an area, and leaves the lexer in the area after it. -/
structure Leads (area : Area) (result : Lexeme Kind × State) : Prop where
  layered : result.2.Layered
  after : area.after result.1.kind = some result.2.mode.area

namespace State.Layered

variable {s : State} {mode : Mode}

theorem pushMode (h : s.Layered) (hs : s.mode.area = .code) : State.Layered (s.pushMode mode) :=
  ⟨List.forall_mem_cons.2 ⟨hs, h.below⟩, h.initial⟩

theorem setMode (h : s.Layered) : State.Layered (s.setMode mode) := ⟨h.below, h.initial⟩

theorem popMode (h : s.Layered) :
    State.Layered s.popMode ∧ s.popMode.mode.area = .code := by
  obtain ⟨⟨current, below, initial⟩, memory⟩ := s
  cases below with
  | nil => exact ⟨⟨h.below, h.initial⟩, h.initial⟩
  | cons mode below =>
    obtain ⟨hmode, hbelow⟩ := List.forall_mem_cons.1 h.below
    exact ⟨⟨hbelow, h.initial⟩, hmode⟩

end State.Layered

section
variable {s : State} {kind : Kind} {n : Nat}

/-- A token after which the lexer goes on in the area that it was in. -/
theorem Leads.stay {area : Area} (h : s.Layered) (hs : s.mode.area = area)
    (hk : area.after kind = some area) : Leads area (⟨kind, n⟩, s) :=
  ⟨h, hs ▸ hk⟩

end

variable {s : State} (c : Char) (cs : List Char)

theorem readWord_leads (h : s.Layered) (hs : s.mode.area = .code) :
    Leads .code (readWord s c cs) := by
  have hkind (word : List Char) : Area.code.after (wordKind s.memory word) = some .code :=
    wordKind_of_forall (P := fun kind => Area.code.after kind = some .code) (by decide) rfl rfl _ _
  exact ⟨⟨h.below, h.initial⟩, (hkind _).trans (congrArg some hs.symm)⟩

theorem readString_leads (h : s.Layered) (hs : s.mode.area = .code) :
    Leads .code (readString s cs) := by
  unfold readString
  split
  · exact .stay h hs rfl
  · exact ⟨h.pushMode hs, rfl⟩

theorem readDate_leads (h : s.Layered) (hs : s.mode.area = .code) :
    Leads .code (readDate s cs) := by
  unfold readDate
  dsimp only
  split <;> exact .stay h hs rfl

theorem readHash_leads (h : s.Layered) (hs : s.mode.area = .code) :
    Leads .code (readHash s cs) := by
  unfold readHash
  split
  · rename_i kind n hmarker
    have hkind : kind = .deleteMarker ∨ Area.code.after kind = some .code :=
      patchMarker?_of_forall
        (P := fun kind => kind = .deleteMarker ∨ Area.code.after kind = some .code)
        (by decide) hmarker
    split
    · rename_i hdelete
      subst hdelete
      exact ⟨h.pushMode hs, rfl⟩
    · rename_i hdelete
      exact .stay h hs (hkind.resolve_left hdelete)
  · exact ⟨h.pushMode hs, rfl⟩

theorem readCode_leads (h : s.Layered) (hs : s.mode.area = .code) :
    Leads .code (readCode s c cs) := by
  unfold readCode
  split
  · exact .stay h hs rfl
  · split
    · exact .stay h hs rfl
    · split
      · exact .stay h hs rfl
      · split
        · exact readString_leads cs h hs
        · exact readDate_leads cs h hs
        · exact readHash_leads cs h hs
        · exact ⟨h.pushMode hs, rfl⟩
        · exact ⟨h.pushMode hs, rfl⟩
        · split <;> exact .stay h hs rfl
        · split <;> exact .stay h hs rfl
        · split
          · rename_i kind hsign
            exact .stay h hs (signKind_of_forall
              (P := fun kind => Area.code.after kind = some .code) (by decide) hsign)
          · split
            · exact readWord_leads _ cs h hs
            · exact .stay h hs rfl

theorem readAfterDot_leads (h : s.Layered) (hs : s.mode.area = .code) :
    Leads .code (readAfterDot s c cs) := by
  obtain ⟨hpop, hcode⟩ := h.popMode
  unfold readAfterDot
  split
  · exact .stay h hs rfl
  · split
    · exact .stay hpop hcode rfl
    · exact readCode_leads c cs hpop hcode

theorem readAfterAmpersand_leads (h : s.Layered) : Leads .code (readAfterAmpersand s c cs) := by
  obtain ⟨hpop, hcode⟩ := h.popMode
  unfold readAfterAmpersand
  split
  · exact .stay hpop hcode (annotationKind_of_forall
      (P := fun kind => Area.code.after kind = some .code) (by decide) rfl _)
  · exact readCode_leads c cs hpop hcode

theorem readBetweenLines_leads (h : s.Layered) (hs : s.mode.area = .code) :
    Leads .code (readBetweenLines s c cs) := by
  obtain ⟨hpop, hcode⟩ := h.popMode
  unfold readBetweenLines
  split
  · exact .stay h hs rfl
  · split
    · exact .stay h hs rfl
    · split
      · exact readHash_leads cs h hs
      · split
        · split
          · exact .stay hpop hcode rfl
          · exact .stay h hs rfl
        · exact readCode_leads c cs hpop hcode

theorem readDirectiveEnd_leads (h : s.Layered) : Leads .directive (readDirectiveEnd s c cs) := by
  obtain ⟨hpop, hcode⟩ := h.popMode
  exact ⟨hpop, congrArg some hcode.symm⟩

/-- A word of a directive keeps to the directive, whatever it goes on with. -/
theorem afterDirectiveWord_leads (h : s.Layered) (hs : s.mode.area = .directive)
    (word : List Char) (n : Nat) :
    Leads .directive
      (⟨directiveWordKind word, n⟩, s.afterDirectiveWord (directiveWordKind word)) := by
  have hkind : Area.directive.after (directiveWordKind word) = some .directive :=
    directiveWordKind_of_forall (P := fun kind => Area.directive.after kind = some .directive)
      (by decide) rfl rfl _
  unfold State.afterDirectiveWord
  split
  · exact ⟨h.setMode, hkind⟩
  · exact ⟨h.setMode, hkind⟩
  · exact .stay h hs hkind

theorem readDirective_leads (h : s.Layered) (hs : s.mode.area = .directive) :
    Leads .directive (readDirective s c cs) := by
  unfold readDirective
  split
  · exact readDirectiveEnd_leads c cs h
  · split
    · exact .stay h hs rfl
    · split
      · exact .stay h hs rfl
      · split
        · exact .stay h hs rfl
        · exact .stay h hs rfl
        · exact .stay h hs rfl
        · exact .stay h hs rfl
        · exact .stay h hs rfl
        · split
          · exact afterDirectiveWord_leads h hs _ _
          · exact .stay h hs rfl

theorem readRegionName_leads (h : s.Layered) (hs : s.mode.area = .directive) :
    Leads .directive (readRegionName s c cs) := by
  unfold readRegionName
  split
  · exact readDirectiveEnd_leads c cs h
  · split
    · exact .stay h hs rfl
    · split
      · exact ⟨h.setMode, rfl⟩
      · exact readDirective_leads c cs h hs

theorem readUsePath_leads (h : s.Layered) (hs : s.mode.area = .directive) :
    Leads .directive (readUsePath s c cs) := by
  unfold readUsePath
  split
  · exact readDirectiveEnd_leads c cs h
  · split
    · exact .stay h hs rfl
    · split <;> exact .stay h hs rfl

theorem readDeleted_leads (h : s.Layered) (hs : s.mode.area = .deletion) :
    Leads .deletion (readDeleted s c cs) := by
  obtain ⟨hpop, hcode⟩ := h.popMode
  unfold readDeleted
  split
  · exact ⟨hpop, congrArg some hcode.symm⟩
  · exact .stay h hs rfl

/-- In every mode a token leads to the area of the next mode. -/
theorem read_leads (h : s.Layered) : Leads s.mode.area (read s c cs) := by
  unfold read
  split <;> rename_i hmode
  · exact hmode ▸ readCode_leads c cs h (by rw [hmode]; rfl)
  · exact hmode ▸ readAfterDot_leads c cs h (by rw [hmode]; rfl)
  · exact hmode ▸ readAfterAmpersand_leads c cs h
  · exact hmode ▸ readDirective_leads c cs h (by rw [hmode]; rfl)
  · exact hmode ▸ readRegionName_leads c cs h (by rw [hmode]; rfl)
  · exact hmode ▸ readUsePath_leads c cs h (by rw [hmode]; rfl)
  · exact hmode ▸ readBetweenLines_leads c cs h (by rw [hmode]; rfl)
  · exact hmode ▸ readDeleted_leads c cs h (by rw [hmode]; rfl)

/-! ## Texts -/

/-- The next token leads to the area of the mode after it, unless the text ends. -/
theorem next_leads {l : Lexer lexicalRules} (h : State.Layered l.state) :
    l.next.1.kind = .endOfInput ∨ State.Layered l.next.2.state ∧
      l.state.mode.area.after l.next.1.kind = some l.next.2.state.mode.area := by
  unfold Lexer.next
  dsimp only
  split
  · exact .inl rfl
  · exact .inr ⟨(read_leads _ _ h).layered, (read_leads _ _ h).after⟩

/-- A text is read through its areas. -/
theorem tokensUpTo_areas {l : Lexer lexicalRules} (h : State.Layered l.state) (n : Nat) :
    (l.state.mode.area.run (l.tokensUpTo n).1).isSome := by
  induction n generalizing l with
  | zero => rfl
  | succ n ih =>
    have hleads := next_leads h
    unfold Lexer.tokensUpTo
    dsimp only
    split
    · rename_i hend
      rw [Area.run_cons, show l.next.1.kind = .endOfInput from of_decide_eq_true hend]
      rfl
    · rename_i hnot
      obtain ⟨hnext, hafter⟩ := hleads.resolve_left fun hk => hnot (decide_eq_true hk)
      rw [Area.run_cons, hafter]
      exact ih hnext

theorem tokenize_areas (name text : String) :
    (Area.code.run (lexicalRules.tokenize name text)).isSome :=
  tokensUpTo_areas (l := Lexer.ofText lexicalRules name text)
    ⟨List.forall_mem_nil _, rfl⟩ _

/-! ## What an area says of its tokens -/

namespace Area

variable {area next : Area} {kind : Kind} {before between after : List (Token Kind)}

theorem run_of_append (h : (area.run (before ++ after)).isSome) :
    ∃ next, area.run before = some next ∧ (next.run after).isSome := by
  rw [run_append] at h
  cases hbefore : area.run before with
  | none =>
    rw [hbefore] at h
    cases h
  | some next => exact ⟨next, rfl, by rwa [hbefore] at h⟩

theorem run_of_cons {t : Token Kind} (h : (area.run (t :: after)).isSome) :
    ∃ next, area.after t.kind = some next ∧ (next.run after).isSome := by
  rw [run_cons] at h
  cases hafter : area.after t.kind with
  | none =>
    rw [hafter] at h
    cases h
  | some next => exact ⟨next, rfl, by rwa [hafter] at h⟩

/-- The place after a token, where what comes before it is known. -/
theorem run_of_append_cons {t : Token Kind} (h : (area.run (before ++ t :: after)).isSome) :
    ∃ here next, area.run before = some here ∧ here.after t.kind = some next ∧
      (next.run after).isSome := by
  obtain ⟨here, hbefore, hrest⟩ := run_of_append h
  obtain ⟨next, hafter, hrest⟩ := run_of_cons hrest
  exact ⟨here, next, hbefore, hafter, hrest⟩

/-- Code holds no parts of directives. -/
theorem after_code (h : Area.code.after kind = some next) : kind.isDirectivePart = false := by
  unfold after at h
  split at h <;> simp_all [Kind.isDirectivePart]

/-- A `#Удаление` begins a deletion wherever it may stand. -/
theorem after_deleteMarker (h : area.after .deleteMarker = some next) : next = .deletion := by
  cases area <;> cases h
  rfl

/-- A deletion goes on with deleted text until it is ended. -/
theorem after_deletion (h : Area.deletion.after kind = some next) :
    kind = .endDeleteMarker ∨ kind = .endOfInput ∨ kind = .deletedText ∧ next = .deletion := by
  unfold after at h
  split at h <;> simp_all

/-- Where a deletion has not ended there is only deleted text. -/
theorem deletedText_of_run (h : (Area.deletion.run (between ++ after)).isSome)
    (hnot : ∀ t ∈ between, t.kind ≠ .endDeleteMarker ∧ t.isEnd = false) :
    ∀ t ∈ between, t.kind = .deletedText := by
  induction between with
  | nil => exact List.forall_mem_nil _
  | cons t ts ih =>
    obtain ⟨⟨hmarker, hend⟩, hts⟩ := List.forall_mem_cons.1 hnot
    obtain ⟨next, hafter, hrest⟩ := run_of_cons h
    have hnotEnd : t.kind ≠ .endOfInput := of_decide_eq_false hend
    obtain ⟨htext, rfl⟩ := ((after_deletion hafter).resolve_left hmarker).resolve_left hnotEnd
    exact List.forall_mem_cons.2 ⟨htext, ih hrest hts⟩

end Area
end BuiltInScript.Module
