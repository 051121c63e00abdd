/-!
# Lexical modes

A lexer is in one mode at a time and remembers the modes to go back to.
-/
namespace BuiltInScript

/-- Mirrors `ModeStack`. -/
structure ModeStack (M : Type) where
  current : M
  /-- Modes to go back to, the next one first. -/
  below : List M
  initial : M
deriving DecidableEq, Repr

namespace ModeStack

variable {M : Type}

/-- Mirrors `ModeStack.new`. -/
def ofInitial (initial : M) : ModeStack M := { current := initial, below := [], initial }

/-- Changes the mode without remembering the one that was left. Mirrors `ModeStack.set`. -/
def set (s : ModeStack M) (mode : M) : ModeStack M := { s with current := mode }

/-- Mirrors `ModeStack.push`. -/
def push (s : ModeStack M) (mode : M) : ModeStack M :=
  { s with current := mode, below := s.current :: s.below }

/-- Goes back to the mode before, or to the initial mode if there is none. Mirrors
`ModeStack.pop`. -/
def pop (s : ModeStack M) : ModeStack M :=
  match s.below with
  | [] => { s with current := s.initial }
  | mode :: below => { s with current := mode, below }

/-- Mirrors `ModeStack.reset`. -/
def reset (s : ModeStack M) : ModeStack M := ofInitial s.initial

@[simp] theorem pop_push (s : ModeStack M) (mode : M) : (s.push mode).pop = s := rfl

@[simp] theorem current_push (s : ModeStack M) (mode : M) : (s.push mode).current = mode := rfl

@[simp] theorem set_set (s : ModeStack M) (m n : M) : (s.set m).set n = s.set n := rfl

/-- No operation changes the mode that the lexer begins in. -/
@[simp] theorem initial_pop (s : ModeStack M) : s.pop.initial = s.initial := by
  unfold pop
  split <;> rfl

end ModeStack
end BuiltInScript
