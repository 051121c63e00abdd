import BuiltInScript.Compilation.Scan

/-!
# Which branches are chosen

A block of conditional compilation is described by what guards its branches: of the branches begun
so far, the last one is where the code stands, and it is compiled if it is the first whose guard
holds. A scan keeps two flags for each open block instead. `Tracks` is what ties the flags to the
branches, and every directive keeps it.

**Results.**
* `chosen_concat`: a new branch is chosen if its guard holds and none before it did.
* `Tracks.isCompiled`: code is compiled if the current branches of all open blocks are chosen.
* `Tracks.apply`, `Tracks.step`: a directive does to the flags what it does to the blocks.
-/
namespace BuiltInScript.Compilation

open BuiltInScript.Module

/-! ## Blocks -/

/-- What a branch is compiled for. -/
inductive Guard where
  /-- The condition of `#Если` or `#ИначеЕсли`, missing if it is malformed. -/
  | condition (condition : Option Condition)
  /-- `#Иначе` -/
  | otherwise
deriving DecidableEq, Repr

def Guard.holds (symbols : SymbolTable) : Guard → Bool
  | .condition (some c) => symbols.eval c
  | .condition none => false
  | .otherwise => true

/-- An open block: the guards of the branches that have begun, in order. -/
abbrev Block := List Guard

/-- The last branch begun is the first one whose guard holds. -/
def chosen (symbols : SymbolTable) (block : Block) : Bool :=
  block.findIdx? (Guard.holds symbols) == some (block.length - 1)

/-- The effect of a directive on the open blocks, the innermost first. -/
def nest : List Block → Directive → List Block
  | blocks, .ifBlock condition => [.condition condition] :: blocks
  | block :: outer, .elseIf condition => (block ++ [.condition condition]) :: outer
  | block :: outer, .otherwise => (block ++ [.otherwise]) :: outer
  | _ :: outer, .endIf => outer
  | blocks, _ => blocks

/-- A new branch is chosen if its guard holds and none before it did. -/
theorem chosen_concat (symbols : SymbolTable) (block : Block) (guard : Guard) :
    chosen symbols (block ++ [guard]) =
      (!block.any (Guard.holds symbols) && guard.holds symbols) := by
  unfold chosen
  rw [List.findIdx?_append, List.length_append, List.length_singleton, Nat.add_sub_cancel]
  cases hany : block.any (Guard.holds symbols) with
  | true =>
    obtain ⟨i, hi⟩ := Option.isSome_iff_exists.1 (List.findIdx?_isSome.trans hany)
    have hlt : i < block.length := (List.findIdx?_eq_some_iff_findIdx_eq.1 hi).1
    rw [hi]
    simp
    omega
  | false =>
    have hnone : block.findIdx? (Guard.holds symbols) = none := by
      rw [List.findIdx?_eq_none_iff]
      intro g hg
      exact Bool.eq_false_iff.2 fun hh => by simpa [hany] using List.any_eq_true.2 ⟨g, hg, hh⟩
    rw [hnone]
    cases hg : guard.holds symbols <;> simp [List.findIdx?_cons, hg]

/-! ## Directives that belong to no block -/

section
variable (s : Scan) (kind : ZoneKind) (span : Span) (range : TokenRange)

theorem Scan.openZone_frame : (s.openZone kind span range).conditions = s.conditions ∧
    (s.openZone kind span range).code = s.code := by
  unfold Scan.openZone
  split <;> exact ⟨rfl, rfl⟩

theorem Scan.closeZone_frame : (s.closeZone kind span range).conditions = s.conditions ∧
    (s.closeZone kind span range).code = s.code := by
  unfold Scan.closeZone
  split <;> exact ⟨rfl, rfl⟩

theorem Scan.endRegion_frame : (s.endRegion span range).conditions = s.conditions ∧
    (s.endRegion span range).code = s.code := by
  unfold Scan.endRegion
  split <;> exact ⟨rfl, rfl⟩

/-- No directive touches the code that was selected. -/
theorem Scan.code_apply (symbols : SymbolTable) (directive : Directive) :
    (s.apply symbols span range directive).code = s.code := by
  have hset (result : Except ConditionError ConditionStack) :
      (s.setConditions span result).code = s.code := by cases result <;> rfl
  cases directive with
  | elseIf _ | otherwise | endIf => exact hset _
  | endRegion => exact (s.endRegion_frame span range).2
  | insert | delete => exact (s.openZone_frame _ span range).2
  | endInsert | endDelete => exact (s.closeZone_frame _ span range).2
  | _ => rfl

end

/-! ## Flags -/

theorem holds_condition (symbols : SymbolTable) (condition : Option Condition) :
    Scan.holds symbols condition = (Guard.condition condition).holds symbols := by
  cases condition <;> rfl

/-- The flags of open blocks: whether some branch has been chosen, and whether the current branch
is compiled, which takes all blocks around it. -/
def Tracks (symbols : SymbolTable) : List Block → List Frame → Prop
  | [], [] => True
  | block :: outer, frame :: frames =>
    frame.matched = block.any (Guard.holds symbols) ∧
      frame.compiled = (block :: outer).all (chosen symbols) ∧ Tracks symbols outer frames
  | _, _ => False

namespace Tracks

variable {symbols : SymbolTable} {blocks : List Block} {frames : List Frame} {s : ConditionStack}

/-- Code is compiled if the current branches of all open blocks are chosen. -/
theorem compiledIn (h : Tracks symbols blocks frames) :
    ConditionStack.compiledIn frames = blocks.all (chosen symbols) := by
  match blocks, frames, h with
  | [], [], _ => rfl
  | block :: outer, frame :: frames, h => exact h.2.1

theorem isCompiled (h : Tracks symbols blocks s.frames) :
    s.isCompiled = blocks.all (chosen symbols) := h.compiledIn

/-- `#Если` opens a block whose first branch has begun. -/
theorem openIf (h : Tracks symbols blocks s.frames) (guard : Guard) (opener : Span) :
    Tracks symbols ([guard] :: blocks) (s.openIf (guard.holds symbols) opener).frames := by
  have hone : chosen symbols [guard] = guard.holds symbols := by
    simpa using chosen_concat symbols [] guard
  refine ⟨by simp, ?_, h⟩
  rw [List.all_cons, hone, ← h.isCompiled]
  exact Bool.and_comm _ _

/-- A branch after others. Its flags are those that both `#ИначеЕсли` and `#Иначе` set. -/
theorem branch {block : Block} {outer : List Block} {frame : Frame}
    (h : Tracks symbols (block :: outer) (frame :: frames)) (guard : Guard) :
    Tracks symbols ((block ++ [guard]) :: outer)
      ({ frame with
        compiled := ConditionStack.compiledIn frames && !frame.matched && guard.holds symbols
        matched := frame.matched || guard.holds symbols } :: frames) := by
  obtain ⟨hmatched, -, houter⟩ := h
  refine ⟨by simp [hmatched], ?_, houter⟩
  rw [List.all_cons, chosen_concat, ← houter.compiledIn, hmatched, Bool.and_assoc]
  exact Bool.and_comm _ _

theorem frames_eq_nil (h : Tracks symbols [] frames) : frames = [] := by
  cases frames with
  | nil => rfl
  | cons frame frames => exact h.elim

theorem frames_eq_cons {block : Block} {outer : List Block}
    (h : Tracks symbols (block :: outer) frames) : ∃ frame inner, frames = frame :: inner := by
  cases frames with
  | nil => exact h.elim
  | cons frame frames => exact ⟨frame, frames, rfl⟩

/-- A directive does to the flags what it does to the blocks. -/
theorem apply {scan : Scan} (h : Tracks symbols blocks scan.conditions.frames) (span : Span)
    (range : TokenRange) (directive : Directive) :
    Tracks symbols (nest blocks directive)
      (scan.apply symbols span range directive).conditions.frames := by
  cases directive with
  | ifBlock condition =>
    rw [Scan.apply, holds_condition]
    exact h.openIf (.condition condition) span
  | elseIf condition =>
    rw [Scan.apply, ConditionStack.elseIf, holds_condition]
    cases blocks with
    | nil =>
      -- No block is open, so the directive is only reported.
      rw [h.frames_eq_nil]
      exact h
    | cons block outer =>
      obtain ⟨frame, frames, hframes⟩ := h.frames_eq_cons
      rw [hframes] at h ⊢
      exact h.branch (.condition condition)
  | otherwise =>
    rw [Scan.apply, ConditionStack.otherwise]
    cases blocks with
    | nil =>
      rw [h.frames_eq_nil]
      exact h
    | cons block outer =>
      obtain ⟨frame, frames, hframes⟩ := h.frames_eq_cons
      rw [hframes] at h ⊢
      have hbranch := h.branch .otherwise
      simp only [Guard.holds, Bool.and_true, Bool.or_true] at hbranch
      exact hbranch
  | endIf =>
    rw [Scan.apply, ConditionStack.endIf]
    cases blocks with
    | nil =>
      rw [h.frames_eq_nil]
      exact h
    | cons block outer =>
      obtain ⟨frame, frames, hframes⟩ := h.frames_eq_cons
      rw [hframes] at h ⊢
      exact h.2.2
  | endRegion =>
    rw [Scan.apply, (scan.endRegion_frame span range).1]
    exact h
  | insert | delete =>
    rw [Scan.apply, (scan.openZone_frame _ span range).1]
    exact h
  | endInsert | endDelete =>
    rw [Scan.apply, (scan.closeZone_frame _ span range).1]
    exact h
  | _ => exact h

/-- So does a directive that has been read; one that could not be read changes nothing. -/
theorem step {scan : Scan} (h : Tracks symbols blocks scan.conditions.frames)
    (reported : List Diagnostic) (found : Option Directive) (span : Span) (range : TokenRange) :
    (Scan.step symbols scan (.directive reported found span range)).code = scan.code ∧
      Tracks symbols (found.elim blocks (nest blocks))
        (Scan.step symbols scan (.directive reported found span range)).conditions.frames := by
  cases found with
  | none => exact ⟨rfl, h⟩
  | some directive =>
    refine ⟨Scan.code_apply _ span range symbols directive, ?_⟩
    have hreported : Tracks symbols blocks
        { scan with diagnostics := scan.diagnostics ++ reported }.conditions.frames := h
    exact hreported.apply span range directive

end Tracks
end BuiltInScript.Compilation
