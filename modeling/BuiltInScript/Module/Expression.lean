import BuiltInScript.Module.Kind
import BuiltInScript.Parsing.Parser

/-!
# Expressions

The grammar does not look into expressions: an expression is the longest run of tokens that can
belong to one, with its brackets balanced. The same scan of the tokens ahead tells whether a
statement is an assignment.
-/
namespace BuiltInScript.Module

/-- Ends a block, and belongs to what encloses it. Mirrors `is_block_closer`. -/
def isBlockCloser : Kind → Bool
  | .kwElsIf | .kwElse | .kwEndIf | .kwEndDo | .kwExcept | .kwEndTry | .kwEndProcedure
  | .kwEndFunction => true
  | _ => false

/-- Can never be part of an expression. Mirrors `ends_expression`. -/
def endsExpression (kind : Kind) : Bool :=
  isBlockCloser kind ||
    match kind with
    | .semicolon | .kwThen | .kwDo | .kwTo | .kwIf | .kwWhile | .kwFor | .kwTry | .kwReturn
    | .kwVar | .kwExport | .kwAsync | .kwProcedure | .kwFunction | .endOfInput => true
    | _ => false

/-- Mirrors `ends_operand`. -/
def endsOperand : Kind → Bool
  | .identifier | .number | .date | .string | .stringTail | .kwTrue | .kwFalse | .kwUndefined
  | .kwNull | .rightParen | .rightBracket => true
  | _ => false

/-- Begins an operand that cannot follow another one. String literals can: adjacent ones are
joined. Mirrors `starts_operand`. -/
def startsOperand : Kind → Bool
  | .identifier | .number | .date | .kwTrue | .kwFalse | .kwUndefined | .kwNull | .kwNew => true
  | _ => false

def isClosingBracket (kind : Kind) : Bool := kind = .rightParen || kind = .rightBracket

/-- A bracket that is open, with the kind that closes it. -/
structure OpenBracket where
  closer : Kind
  opener : Token Kind
deriving DecidableEq, Repr

/-- Why a run of tokens ends. -/
inductive RunEnd where
  /-- The next token is not part of it; these brackets are open, the innermost first. -/
  | stopped (opened : List OpenBracket)
  /-- The next token closes another bracket than the innermost open one. -/
  | mismatched (innermost : OpenBracket)
deriving DecidableEq, Repr

/-- The run of tokens at the head of those ahead, and why it ends there. Within it `opened` are the
open brackets, and `previous` is the kind of the last token. Mirrors the loop of `expression`. -/
def expressionRun (upToAssign : Bool) :
    List OpenBracket → Option Kind → List (Token Kind) → List (Token Kind) × RunEnd
  | opened, _, [] => ([], .stopped opened)
  | opened, previous, t :: ts =>
    let take (opened : List OpenBracket) :=
      let (run, stop) := expressionRun upToAssign opened (some t.kind) ts
      (t :: run, stop)
    if endsExpression t.kind || (previous.any endsOperand && startsOperand t.kind) then
      ([], .stopped opened)
    else
      match t.kind.closer? with
      | some closer => take (⟨closer, t⟩ :: opened)
      | none =>
        if isClosingBracket t.kind then
          match opened with
          | [] => ([], .stopped [])
          | innermost :: outer =>
            if innermost.closer = t.kind then take outer else ([], .mismatched innermost)
        else if opened.isEmpty && (t.kind = .comma || (upToAssign && t.kind = .assign)) then
          ([], .stopped opened)
        else take opened

/-- A token that is part of a run where these brackets are open, and those that are open after
it. -/
inductive Taken (upToAssign : Bool) (opened : List OpenBracket) (t : Token Kind) :
    List OpenBracket → Prop
  | opens {closer : Kind} (hcloser : t.kind.closer? = some closer) :
      Taken upToAssign opened t (⟨closer, t⟩ :: opened)
  | closes {opener : Token Kind} {outer : List OpenBracket}
      (hopened : opened = ⟨t.kind, opener⟩ :: outer) (hclosing : isClosingBracket t.kind = true) :
      Taken upToAssign opened t outer
  | plain (hcloser : t.kind.closer? = none) (hclosing : isClosingBracket t.kind = false)
      (hends : endsExpression t.kind = false)
      (hassign : upToAssign = true → opened = [] → t.kind ≠ .assign) :
      Taken upToAssign opened t opened

/-- A run ends before the next token, or the token is taken and the run goes on after it. -/
theorem expressionRun_cons_cases (upToAssign : Bool) (opened : List OpenBracket)
    (previous : Option Kind) (t : Token Kind) (ts : List (Token Kind)) :
    expressionRun upToAssign opened previous (t :: ts) = ([], .stopped opened) ∨
      (∃ innermost ∈ opened,
        expressionRun upToAssign opened previous (t :: ts) = ([], .mismatched innermost)) ∨
      ∃ opened', Taken upToAssign opened t opened' ∧
        expressionRun upToAssign opened previous (t :: ts) =
          (t :: (expressionRun upToAssign opened' (some t.kind) ts).1,
            (expressionRun upToAssign opened' (some t.kind) ts).2) := by
  generalize hrun : expressionRun upToAssign opened previous (t :: ts) = result
  unfold expressionRun at hrun
  dsimp only at hrun
  split at hrun
  · exact .inl hrun.symm
  · rename_i hgoes
    split at hrun
    · rename_i closer hcloser
      exact .inr (.inr ⟨_, .opens hcloser, hrun.symm⟩)
    · rename_i hcloser
      split at hrun
      · rename_i hclosing
        split at hrun
        · exact .inl hrun.symm
        · rename_i innermost outer
          split at hrun
          · rename_i hkind
            obtain ⟨closer, opener⟩ := innermost
            cases hkind
            exact .inr (.inr ⟨_, .closes rfl hclosing, hrun.symm⟩)
          · exact .inr (.inl ⟨innermost, List.mem_cons_self, hrun.symm⟩)
      · rename_i hclosing
        split at hrun
        · exact .inl hrun.symm
        · rename_i hstays
          have hends : endsExpression t.kind = false := by
            simp only [Bool.or_eq_true, not_or, Bool.not_eq_true] at hgoes
            exact hgoes.1
          refine .inr (.inr ⟨_, .plain hcloser (by simpa using hclosing) hends ?_, hrun.symm⟩)
          intro hup hopen hkind
          simp [hup, hopen, hkind] at hstays

/-- A run is a beginning of the tokens ahead. -/
theorem expressionRun_eq_take (upToAssign : Bool) (opened : List OpenBracket)
    (previous : Option Kind) (tokens : List (Token Kind)) :
    (expressionRun upToAssign opened previous tokens).1 =
      tokens.take (expressionRun upToAssign opened previous tokens).1.length := by
  induction tokens generalizing opened previous with
  | nil => simp [expressionRun]
  | cons t ts ih =>
    obtain hrun | ⟨innermost, -, hrun⟩ | ⟨opened', -, hrun⟩ :=
      expressionRun_cons_cases upToAssign opened previous t ts
    · rw [hrun]
      rfl
    · rw [hrun]
      rfl
    · rw [hrun]
      exact congrArg (t :: ·) (ih ..)

/-- What a statement that begins with an expression turns out to be. -/
inductive StatementSort where
  | assignment | call
  /-- It cannot be told within the bound on looking ahead. -/
  | beyondBound
deriving DecidableEq, Repr

/-- Looks for a `=` outside brackets before the statement ends. Only tokens outside brackets are
charged against the bound, so long argument lists can be looked past. Mirrors the loop of
`is_assignment`. -/
def statementSort (bound : Option Nat) (depth charged : Nat) :
    List (Token Kind) → StatementSort
  | [] =>
    let charged := if depth = 0 then charged + 1 else charged
    if bound.any (· ≤ charged) then .beyondBound else .call
  | t :: ts =>
    let charged := if depth = 0 then charged + 1 else charged
    if bound.any (· ≤ charged) then .beyondBound
    else if t.kind.closer?.isSome then statementSort bound (depth + 1) charged ts
    else if isClosingBracket t.kind then statementSort bound (depth - 1) charged ts
    else if t.kind = .assign && depth = 0 then .assignment
    else if endsExpression t.kind then .call
    else statementSort bound depth charged ts

end BuiltInScript.Module
