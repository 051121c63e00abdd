import BuiltInScript.Proofs.Module.Areas

/-!
# What a token does to the state of the lexer

A token of code leaves the state that its kind tells: some kinds open a mode, some are remembered,
and the others change nothing. Where the lexer is in a mode of its own it goes back to code first.
Within a directive or a deletion it goes on in a mode of them, and nothing there is remembered.

**Results.**
* `readCode_goesOn`: in code the kind tells the state.
* `readAfterDot_moves`, …, `readDeleted_moves`, `read_moves`: in each mode a token goes on, goes
  back, or stays.
* `Moves.stacked`, `Moves.memory`, `Moves.dot_iff`, `Moves.annotationName_iff`: so what is
  remembered and which mode is next is told by kinds.
-/
namespace BuiltInScript.Module

open Text

/-! ## Kinds -/

namespace Kind

/-- The head of a method. -/
def beginsMethod : Kind → Bool
  | .kwProcedure | .kwFunction => true
  | _ => false

def endsMethod : Kind → Bool
  | .kwEndProcedure | .kwEndFunction => true
  | _ => false

end Kind

theorem AsyncMemory.after_eq (memory : AsyncMemory) (kind : Kind) :
    memory.after kind = {
      pending := kind = .kwAsync || !kind.beginsMethod && memory.pending
      inMethod := if kind.beginsMethod then memory.pending
        else !kind.endsMethod && memory.inMethod } := by
  cases kind <;> rfl

/-! ## Modes -/

/-- The modes that code is read in and that the lexer comes back to. -/
def Mode.isPlain : Mode → Bool
  | .default | .string => true
  | _ => false

theorem Mode.isPlain_iff {mode : Mode} :
    mode.isPlain ↔ mode.area = .code ∧ mode ≠ .dot ∧ mode ≠ .annotationName := by
  cases mode <;> decide

/-- The lexer comes back to plain modes only. -/
structure State.Stacked (s : State) : Prop where
  below : ∀ mode ∈ s.modes.below, mode.isPlain
  initial : s.modes.initial.isPlain

namespace Kind

/-- The mode that a token of code is followed by, if it is not the one before. -/
def opens? : Kind → Option Mode
  | .dot => some .dot
  | .ampersand => some .annotationName
  | .stringStart => some .string
  | .hash => some .directive
  | .deleteMarker => some .delete
  | _ => none

/-- After a token of code of such a kind nothing has changed. -/
def isQuiet (kind : Kind) : Bool :=
  kind.opens?.isNone && !kind.beginsMethod && !kind.endsMethod && kind != .kwAsync

end Kind

namespace State

variable {s : State} {kind : Kind}

/-- The state after a token of code. -/
def afterCode (s : State) (kind : Kind) : State where
  modes :=
    match kind.opens? with
    | some mode => s.modes.push mode
    | none => s.modes
  memory := s.memory.after kind

theorem afterCode_of_isQuiet (h : kind.isQuiet) : s.afterCode kind = s := by
  simp only [Kind.isQuiet, Bool.and_eq_true, Bool.not_eq_true', bne_iff_ne, ne_eq,
    Option.isNone_iff_eq_none] at h
  obtain ⟨⟨⟨hopens, hbegins⟩, hends⟩, hasync⟩ := h
  unfold afterCode
  rw [hopens, AsyncMemory.after_eq, hbegins, hends]
  simp [hasync]

theorem mode_afterCode : (s.afterCode kind).mode = kind.opens?.getD s.mode := by
  unfold afterCode
  cases kind.opens? <;> rfl

theorem mode_afterCode_eq_dot (hs : s.mode.isPlain) :
    (s.afterCode kind).mode = .dot ↔ kind = .dot := by
  have hdot := (Mode.isPlain_iff.1 hs).2.1
  rw [mode_afterCode]
  unfold Kind.opens?
  split <;> simp_all

theorem mode_afterCode_eq_annotationName (hs : s.mode.isPlain) :
    (s.afterCode kind).mode = .annotationName ↔ kind = .ampersand := by
  have hname := (Mode.isPlain_iff.1 hs).2.2
  rw [mode_afterCode]
  unfold Kind.opens?
  split <;> simp_all

namespace Stacked

theorem layered (h : s.Stacked) : s.Layered :=
  ⟨fun mode hmode => (Mode.isPlain_iff.1 (h.below mode hmode)).1,
    (Mode.isPlain_iff.1 h.initial).1⟩

theorem popMode (h : s.Stacked) : State.Stacked s.popMode ∧ s.popMode.mode.isPlain := by
  obtain ⟨⟨current, below, initial⟩, memory⟩ := s
  cases below with
  | nil => exact ⟨⟨h.below, h.initial⟩, h.initial⟩
  | cons mode below =>
    obtain ⟨hmode, hbelow⟩ := List.forall_mem_cons.1 h.below
    exact ⟨⟨hbelow, h.initial⟩, hmode⟩

theorem afterCode (h : s.Stacked) (hs : s.mode.isPlain) : (s.afterCode kind).Stacked := by
  unfold State.afterCode
  split
  · exact ⟨List.forall_mem_cons.2 ⟨hs, h.below⟩, h.initial⟩
  · exact ⟨h.below, h.initial⟩

end Stacked
end State

/-! ## Tokens of code -/

/-- A token of code leaves the state that its kind tells. -/
structure GoesOn (s : State) (c : Char) (result : Lexeme Kind × State) : Prop where
  state : result.2 = s.afterCode result.1.kind
  blank : result.1.kind = .whiteSpace → isBlank c

theorem GoesOn.quiet {s : State} {c : Char} {kind : Kind} {n : Nat} (hk : kind.isQuiet)
    (hblank : kind = .whiteSpace → isBlank c) : GoesOn s c (⟨kind, n⟩, s) :=
  ⟨(State.afterCode_of_isQuiet hk).symm, hblank⟩

section
variable (s : State) (c : Char) (cs : List Char)

theorem readWord_goesOn : GoesOn s c (readWord s c cs) := by
  have hkind (word : List Char) :
      (wordKind s.memory word).opens? = none ∧ wordKind s.memory word ≠ .whiteSpace :=
    wordKind_of_forall (P := fun kind => kind.opens? = none ∧ kind ≠ .whiteSpace)
      (by decide) ⟨rfl, nofun⟩ ⟨rfl, nofun⟩ _ _
  obtain ⟨hopens, hblank⟩ := hkind (c :: cs.takeWhile isWordChar)
  refine ⟨?_, fun h => absurd h hblank⟩
  unfold readWord State.afterCode
  dsimp only
  rw [hopens]

theorem readString_goesOn : GoesOn s c (readString s cs) := by
  unfold readString
  split
  · exact .quiet rfl nofun
  · exact ⟨rfl, nofun⟩

theorem readDate_goesOn : GoesOn s c (readDate s cs) := by
  unfold readDate
  dsimp only
  split <;> exact .quiet rfl nofun

theorem readHash_goesOn : GoesOn s c (readHash s cs) := by
  unfold readHash
  split
  · rename_i kind n hmarker
    have hkind : kind = .deleteMarker ∨ kind.isQuiet ∧ kind ≠ .whiteSpace :=
      patchMarker?_of_forall
        (P := fun kind => kind = .deleteMarker ∨ kind.isQuiet ∧ kind ≠ .whiteSpace)
        (by decide) hmarker
    split
    · rename_i hdelete
      subst hdelete
      exact ⟨rfl, nofun⟩
    · rename_i hdelete
      obtain ⟨hquiet, hblank⟩ := hkind.resolve_left hdelete
      exact .quiet hquiet fun h => absurd h hblank
  · exact ⟨rfl, nofun⟩

theorem readCode_goesOn : GoesOn s c (readCode s c cs) := by
  unfold readCode
  split
  · rename_i hblank
    exact .quiet rfl fun _ => hblank
  · split
    · exact .quiet rfl nofun
    · split
      · exact .quiet rfl nofun
      · split
        · exact readString_goesOn s _ cs
        · exact readDate_goesOn s _ cs
        · exact readHash_goesOn s _ cs
        · exact ⟨rfl, nofun⟩
        · exact ⟨rfl, nofun⟩
        · split <;> exact .quiet rfl nofun
        · split <;> exact .quiet rfl nofun
        · split
          · rename_i kind hsign
            obtain ⟨hquiet, hblank⟩ : kind.isQuiet ∧ kind ≠ .whiteSpace :=
              signKind_of_forall (P := fun kind => kind.isQuiet ∧ kind ≠ .whiteSpace)
                (by decide) hsign
            exact .quiet hquiet fun h => absurd h hblank
          · split
            · exact readWord_goesOn s _ cs
            · exact .quiet rfl nofun

end

/-! ## Moves -/

/-- What a token of a kind, begun by `c`, does to the state in which it is read. -/
inductive Moves (s : State) (c : Char) (kind : Kind) : State → Prop
  /-- A token of code. -/
  | code (hs : s.mode.isPlain) : Moves s c kind (s.afterCode kind)
  /-- The lexer goes back to code, and reads a token there. -/
  | back (hblank : s.mode = .dot → kind = .whiteSpace → isLineBreak c) :
      Moves s c kind (State.afterCode s.popMode kind)
  /-- White space between a `.` and what follows it on the line. -/
  | blank (hs : s.mode = .dot) (hkind : kind = .whiteSpace) (hc : isLineBreak c = false) :
      Moves s c kind s
  /-- A token of a directive or a deletion, after which it goes on. -/
  | within (mode : Mode) (hs : s.mode.area ≠ .code) (hmode : mode.area ≠ .code) :
      Moves s c kind (s.setMode mode)

section
variable (s : State) (c : Char) (cs : List Char)

theorem readAfterDot_moves (hs : s.mode = .dot) :
    Moves s c (readAfterDot s c cs).1.kind (readAfterDot s c cs).2 := by
  unfold readAfterDot
  split
  · rename_i hblank
    rw [isInlineBlank, Bool.and_eq_true, Bool.not_eq_true'] at hblank
    exact .blank hs rfl hblank.2
  · rename_i hblank
    split
    · exact .back fun _ hkind => by cases hkind
    · have hcode := readCode_goesOn s.popMode c cs
      rw [hcode.state]
      exact .back fun _ hkind => (isBlank_iff.1 (hcode.blank hkind)).resolve_left hblank

theorem readAfterAmpersand_moves (hs : s.mode ≠ .dot) :
    Moves s c (readAfterAmpersand s c cs).1.kind (readAfterAmpersand s c cs).2 := by
  unfold readAfterAmpersand
  split
  · have hquiet (word : List Char) :
        ((annotationWords.find? word).getD .annotationCustom).isQuiet :=
      annotationKind_of_forall (P := (·.isQuiet)) (by decide) rfl word
    dsimp only
    rw [← State.afterCode_of_isQuiet (s := s.popMode) (hquiet _)]
    exact .back fun h => absurd h hs
  · rw [(readCode_goesOn s.popMode c cs).state]
    exact .back fun h => absurd h hs

theorem readBetweenLines_moves (hs : s.mode = .string) :
    Moves s c (readBetweenLines s c cs).1.kind (readBetweenLines s c cs).2 := by
  have hplain : s.mode.isPlain := by rw [hs]; rfl
  have hdot : s.mode ≠ .dot := by rw [hs]; nofun
  unfold readBetweenLines
  split
  · exact .code hplain
  · split
    · exact .code hplain
    · split
      · rw [(readHash_goesOn s c cs).state]
        exact .code hplain
      · split
        · split
          · exact .back fun _ hkind => by cases hkind
          · exact .code hplain
        · rw [(readCode_goesOn s.popMode c cs).state]
          exact .back fun h => absurd h hdot

theorem readDirectiveEnd_moves :
    Moves s c (readDirectiveEnd s c cs).1.kind (readDirectiveEnd s c cs).2 :=
  .back fun _ => nofun

variable {s} in
/-- A token of a directive or a deletion, after which its mode goes on. -/
theorem Moves.stay (hs : s.mode.area ≠ .code) (kind : Kind) : Moves s c kind s :=
  .within s.mode hs hs

theorem readDirective_moves (hs : s.mode.area ≠ .code) :
    Moves s c (readDirective s c cs).1.kind (readDirective s c cs).2 := by
  unfold readDirective
  split
  · exact readDirectiveEnd_moves s c cs
  · split
    · exact .stay c hs _
    · split
      · exact .stay c hs _
      · split
        · exact .stay _ hs _
        · exact .stay _ hs _
        · exact .stay _ hs _
        · exact .stay _ hs _
        · exact .stay _ hs _
        · split
          · dsimp only
            unfold State.afterDirectiveWord
            split
            · exact .within .region hs nofun
            · exact .within .use hs nofun
            · exact .stay _ hs _
          · exact .stay _ hs _

theorem readRegionName_moves (hs : s.mode.area ≠ .code) :
    Moves s c (readRegionName s c cs).1.kind (readRegionName s c cs).2 := by
  unfold readRegionName
  split
  · exact readDirectiveEnd_moves s c cs
  · split
    · exact .stay c hs _
    · split
      · exact .within .directive hs nofun
      · exact readDirective_moves s c cs hs

theorem readUsePath_moves (hs : s.mode.area ≠ .code) :
    Moves s c (readUsePath s c cs).1.kind (readUsePath s c cs).2 := by
  unfold readUsePath
  split
  · exact readDirectiveEnd_moves s c cs
  · split
    · exact .stay c hs _
    · split <;> exact .stay c hs _

theorem readDeleted_moves (hs : s.mode.area ≠ .code) :
    Moves s c (readDeleted s c cs).1.kind (readDeleted s c cs).2 := by
  unfold readDeleted
  split
  · exact .back fun _ hkind => by cases hkind
  · exact .stay c hs _

/-- In every mode a token moves the lexer so. -/
theorem read_moves : Moves s c (read s c cs).1.kind (read s c cs).2 := by
  unfold read
  split <;> rename_i hmode
  · rw [(readCode_goesOn s c cs).state]
    exact .code (by rw [hmode]; rfl)
  · exact readAfterDot_moves s c cs hmode
  · exact readAfterAmpersand_moves s c cs (by rw [hmode]; nofun)
  · exact readDirective_moves s c cs (by rw [hmode]; nofun)
  · exact readRegionName_moves s c cs (by rw [hmode]; nofun)
  · exact readUsePath_moves s c cs (by rw [hmode]; nofun)
  · exact readBetweenLines_moves s c cs hmode
  · exact readDeleted_moves s c cs (by rw [hmode]; nofun)

end

/-- A kind that is read outside of code says nothing of code. -/
theorem Area.quiet_of_after {area next : Area} {kind : Kind} (harea : area ≠ .code)
    (h : area.after kind = some next) :
    kind ≠ .dot ∧ kind ≠ .ampersand ∧ ∀ memory : AsyncMemory, memory.after kind = memory := by
  cases area with
  | code => exact absurd rfl harea
  | directive => cases kind <;> first | exact ⟨by decide, by decide, fun _ => rfl⟩ | cases h
  | deletion => cases kind <;> first | exact ⟨by decide, by decide, fun _ => rfl⟩ | cases h

namespace Moves

variable {s s' : State} {c : Char} {kind : Kind}

theorem stacked (h : Moves s c kind s') (hs : s.Stacked) : s'.Stacked := by
  cases h with
  | code hplain => exact hs.afterCode hplain
  | back => exact hs.popMode.1.afterCode hs.popMode.2
  | blank => exact hs
  | within => exact ⟨hs.below, hs.initial⟩

/-- A token outside of code is nothing to remember. -/
theorem memory (h : Moves s c kind s') {next : Area} (harea : s.mode.area.after kind = some next) :
    s'.memory = s.memory.after kind := by
  cases h with
  | code => rfl
  | back => rfl
  | blank hs hkind => rw [hkind]; rfl
  | within mode hs => exact ((Area.quiet_of_after hs harea).2.2 _).symm

theorem dot_iff (h : Moves s c kind s') (hs : s.Stacked) {next : Area}
    (harea : s.mode.area.after kind = some next) :
    s'.mode = .dot ↔
      kind = .dot ∨ (kind = .whiteSpace ∧ isLineBreak c = false) ∧ s.mode = .dot := by
  cases h with
  | code hplain =>
    simp [State.mode_afterCode_eq_dot hplain, (Mode.isPlain_iff.1 hplain).2.1]
  | back hblank =>
    rw [State.mode_afterCode_eq_dot hs.popMode.2]
    refine ⟨.inl, fun h => h.resolve_right ?_⟩
    rintro ⟨⟨hkind, hc⟩, hdot⟩
    rw [hblank hdot hkind] at hc
    cases hc
  | blank hdot hkind hc => simp [hdot, hkind, hc]
  | within mode hs hmode =>
    have hdot : s.mode ≠ .dot := fun h => hs (congrArg Mode.area h)
    have hnext : (s.setMode mode).mode ≠ .dot := fun h => hmode (congrArg Mode.area h)
    simp [(Area.quiet_of_after hs harea).1, hdot, hnext]

theorem annotationName_iff (h : Moves s c kind s') (hs : s.Stacked) {next : Area}
    (harea : s.mode.area.after kind = some next) :
    s'.mode = .annotationName ↔ kind = .ampersand := by
  cases h with
  | code hplain => exact State.mode_afterCode_eq_annotationName hplain
  | back => exact State.mode_afterCode_eq_annotationName hs.popMode.2
  | blank hdot hkind => simp [hdot, hkind]
  | within mode hs hmode =>
    have hnext : (s.setMode mode).mode ≠ .annotationName := fun h => hmode (congrArg Mode.area h)
    simp [(Area.quiet_of_after hs harea).2.1, hnext]

end Moves

end BuiltInScript.Module
