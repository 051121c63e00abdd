import BuiltInScript.Source.Span

/-!
# Nesting of `#Если` blocks

What is compiled is decided while a module is read from front to back. For every open block it is
enough to know whether its current branch is compiled, and whether some branch of it has been
chosen already. Outside all blocks everything is compiled.
-/
namespace BuiltInScript.Compilation

/-- An open block. Mirrors `Frame`. -/
structure Frame where
  /-- The current branch is chosen, and so are all branches around it. -/
  compiled : Bool
  /-- Some branch of the block has been chosen. -/
  matched : Bool
  /-- The `#Если` that opened the block. -/
  opener : Span
deriving DecidableEq, Repr, Inhabited

/-- A directive that belongs to a block, and no block is open. Mirrors `ConditionError`. -/
inductive ConditionError where
  | unmatchedElseIf | unmatchedElse | unmatchedEndIf
deriving DecidableEq, Repr

/-- Mirrors the texts of `ConditionError`. -/
def ConditionError.message : ConditionError → String
  | .unmatchedElseIf => "`#ИначеЕсли` without a matching `#Если`"
  | .unmatchedElse => "`#Иначе` without a matching `#Если`"
  | .unmatchedEndIf => "`#КонецЕсли` without a matching `#Если`"

/-- Open blocks, the innermost first. Mirrors `ConditionStack`. -/
structure ConditionStack where
  frames : List Frame := []
deriving DecidableEq, Repr, Inhabited

namespace ConditionStack

/-- Whether the innermost of some blocks is compiled. Mirrors `ConditionStack.top` and
`ConditionStack.parent_compiled`. -/
def compiledIn : List Frame → Bool
  | [] => true
  | frame :: _ => frame.compiled

/-- Whether code at this place is compiled. Mirrors `ConditionStack.is_compiled`. -/
def isCompiled (s : ConditionStack) : Bool := compiledIn s.frames

/-- Number of open blocks. Mirrors `ConditionStack.depth`. -/
def depth (s : ConditionStack) : Nat := s.frames.length

/-- Mirrors `ConditionStack.push_if`. -/
def openIf (s : ConditionStack) (chosen : Bool) (opener : Span) : ConditionStack :=
  ⟨⟨s.isCompiled && chosen, chosen, opener⟩ :: s.frames⟩

/-- Goes on to a branch with a condition. Mirrors `ConditionStack.else_if`. -/
def elseIf (s : ConditionStack) (chosen : Bool) : Except ConditionError ConditionStack :=
  match s.frames with
  | [] => .error .unmatchedElseIf
  | frame :: outer =>
    .ok ⟨{ frame with
      compiled := compiledIn outer && !frame.matched && chosen
      matched := frame.matched || chosen } :: outer⟩

/-- Goes on to a branch that is chosen if none was. Mirrors `ConditionStack.else_branch`. -/
def otherwise (s : ConditionStack) : Except ConditionError ConditionStack :=
  match s.frames with
  | [] => .error .unmatchedElse
  | frame :: outer =>
    .ok ⟨{ frame with compiled := compiledIn outer && !frame.matched, matched := true } :: outer⟩

/-- Mirrors `ConditionStack.end_if`. -/
def endIf (s : ConditionStack) : Except ConditionError ConditionStack :=
  match s.frames with
  | [] => .error .unmatchedEndIf
  | _ :: outer => .ok ⟨outer⟩

/-- Where the open blocks began, the outermost first. Mirrors `ConditionStack.unclosed`. -/
def unclosed (s : ConditionStack) : List Span := (s.frames.map Frame.opener).reverse

@[simp] theorem endIf_openIf (s : ConditionStack) (chosen : Bool) (opener : Span) :
    (s.openIf chosen opener).endIf = .ok s := rfl

@[simp] theorem depth_openIf (s : ConditionStack) (chosen : Bool) (opener : Span) :
    (s.openIf chosen opener).depth = s.depth + 1 := rfl

theorem depth_elseIf {s t : ConditionStack} {chosen : Bool} (h : s.elseIf chosen = .ok t) :
    t.depth = s.depth := by
  unfold elseIf at h
  split at h <;> cases h
  simp [depth, *]

theorem depth_otherwise {s t : ConditionStack} (h : s.otherwise = .ok t) :
    t.depth = s.depth := by
  unfold otherwise at h
  split at h <;> cases h
  simp [depth, *]

end ConditionStack
end BuiltInScript.Compilation
