import BuiltInScript.Parsing.Parts

/-!
# Regular parts

The rules of both grammars are made in few ways: leaves, parts in order, choices by the tokens
ahead, loops, separated lists, recovery. `Regular` lists these ways. What holds of each way of
making a part then holds of every rule of every grammar, by one induction.

Two things are told apart along the way, since what a part does to its tokens depends on them:
whether a token is known to be ahead where the part begins, and whether the part takes at least
one token whenever it succeeds. A loop gets on because each of its turns does.

A part never looks at the channels of a token. Those of the tokens ahead are what they are shown
for, so this only matters for the end marker, which is shown whatever its channels.
-/
namespace BuiltInScript

variable {R K : Type} [DecidableEq K] [TokenKind K]

/-- Looks at what is ahead without moving. Looking fails only by giving up. -/
def Parse.look {β : Type} (view : Prediction → List (Token K) → Token K → Option β) :
    Parse K β := fun p =>
  match view p.report.mode p.cursor.ahead p.cursor.marker with
  | some b => .ok b p
  | none => .error ⟨p.cursor.peek.span, p.scopes⟩ p

/-- A fault that is reported the same whatever the channels of the token that it is about. -/
class Fault.IgnoresChannels (fault : Token K → Fault K) : Prop where
  same : ∀ t channels, (fault { t with channels }).diagnostic = (fault t).diagnostic ∧
    (fault { t with channels }).span = (fault t).span

namespace Fault.IgnoresChannels

instance (kind : K) : IgnoresChannels (.expected kind) := ⟨fun _ _ => ⟨rfl, rfl⟩⟩

instance (wanted : String) : IgnoresChannels (K := K) (.unexpected wanted) :=
  ⟨fun _ _ => ⟨rfl, rfl⟩⟩

instance (closer : K) (opener : Token K) :
    IgnoresChannels fun found => .unclosedBracket closer found opener := ⟨fun _ _ => ⟨rfl, rfl⟩⟩

instance (closer : K) (opener : Token K) :
    IgnoresChannels fun found => .mismatchedBracket closer found opener := ⟨fun _ _ => ⟨rfl, rfl⟩⟩

instance : IgnoresChannels (K := K) .unterminatedStatement := ⟨fun _ _ => ⟨rfl, rfl⟩⟩

instance (closer : K) : IgnoresChannels (.unterminatedMethod closer) := ⟨fun _ _ => ⟨rfl, rfl⟩⟩

end Fault.IgnoresChannels

namespace Part

/-- A node over a run of the tokens ahead. What is read of them tells how long the run is, and what
is wrong with it if something is. -/
def scan (rule : R) (read : List (Token K) → Nat × Option (Token K → Fault K)) :
    Parse K (Trees R K) := fun p =>
  let tokens := p.cursor.ahead
  let q := { p with cursor := p.cursor.skip (read tokens).1 }
  match (read tokens).2 with
  | some fault => Parse.failHere fault q
  | none => .ok [.node rule ((tokens.take (read tokens).1).map .token) {}] q

/-- What a turn of a loop does. -/
inductive Turn (R K σ : Type) where
  | stop
  /-- The loop ends after a part. -/
  | last (part : Parse K (Trees R K))
  /-- The loop goes on after a part, in another state. -/
  | again (part : Parse K (Trees R K)) (state : σ)

namespace Turn

variable {σ : Type}

def run : Turn R K σ → Parse K (Trees R K × Option σ)
  | .stop => pure ([], none)
  | .last part => do return (← part, none)
  | .again part state => do return (← part, some state)

/-- A turn that is chosen by the state, the next token and the kind of the one after it. -/
def choosing (choose : σ → Token K → K → Turn R K σ) (state : σ) :
    Parse K (Trees R K × Option σ) := fun p =>
  (choose state p.cursor.peek (p.cursor.peekNth 1).kind).run p

end Turn

/-- Parts made in the ways of the grammars. `more`: a token is known to be ahead where the part
begins. The flag: a part that succeeds takes at least one token. -/
inductive Regular : Prop → Bool → Parse K (Trees R K) → Prop
  | nothing {more} : Regular more false (pure [])
  | any {more : Prop} : more → Regular more true any
  | leafOr {more kind fault} [Fault.IgnoresChannels fault] : kind ≠ TokenKind.endOfInput →
      Regular more true (leafOr kind fault)
  | optional {more kind} : kind ≠ TokenKind.endOfInput → Regular more false (optional kind)
  | leavesWhile {more} (test : K → Bool) : Regular more false (leavesWhile test)
  | failHere {more takes} (fault : Token K → Fault K) [Fault.IgnoresChannels fault] :
      Regular more takes (Parse.failHere fault)
  | scan {more rule} {read : List (Token K) → Nat × Option (Token K → Fault K)} :
      (∀ tokens, (read tokens).2 = none → 0 < (read tokens).1 ∧ (read tokens).1 ≤ tokens.length) →
      (∀ tokens fault, (read tokens).2 = some fault → Fault.IgnoresChannels fault) →
      Regular more true (scan rule read)
  | weaken {more part} : Regular more true part → Regular more false part
  | inOrder {more first others part parts} : Regular more first part →
      Regular False others (inOrder parts) →
      Regular more (first || others) (inOrder (part :: parts))
  | byKind {more takes} {part : K → Parse K (Trees R K)} :
      (∀ kind, Regular (kind ≠ TokenKind.endOfInput) takes (part kind)) →
      Regular more takes (byKind part)
  /-- Whatever can be told when looking is bounded is told the same way without a bound. -/
  | looking {more takes} {β : Type} {view : Prediction → List (Token K) → Token K → Option β}
      {part : β → Parse K (Trees R K)} :
      (∀ tokens marker b, view .optimistic tokens marker = some b →
        view .general tokens marker = some b) →
      (∀ b, Regular more takes (part b)) →
      (∀ mode tokens marker channels,
        (view mode tokens { marker with channels }).map part =
          (view mode tokens marker).map part) →
      Regular more takes (Parse.look view >>= part)
  | counting {more takes} {part : Nat → Parse K (Trees R K)} :
      (∀ n, Regular more takes (part n)) → Regular more takes (Parse.remaining >>= part)
  | node {more takes rule parts} : Regular more takes (inOrder parts) →
      Regular more takes (node rule parts)
  | within {more takes name part} : Regular more takes part →
      Regular more takes (Parse.within name part)
  | separated {more separator part} : separator ≠ TokenKind.endOfInput → Regular False true part →
      Regular more false (separated separator part)
  | separatedUpTo {more closer separator part} : separator ≠ TokenKind.endOfInput →
      Regular False true part → Regular more false (separatedUpTo closer separator part)
  | repeating {more} {σ : Type} {choose : σ → Token K → K → Turn R K σ} {state : σ} :
      (∀ state token after part, choose state token after = .last part →
        Regular False false part) →
      (∀ state token after part state', choose state token after = .again part state' →
        token.kind ≠ TokenKind.endOfInput) →
      (∀ state token after part state', choose state token after = .again part state' →
        Regular True true part) →
      (∀ state token after channels, token.kind = TokenKind.endOfInput →
        choose state { token with channels } after = choose state token after) →
      Regular more false (repeating (Turn.choosing choose) state)
  | recovering {more takes part} (sync : K → RecoveryPoint) : more → Regular more takes part →
      Regular more takes (recovering sync part)

namespace Regular

variable {more : Prop} {takes : Bool} {part : Parse K (Trees R K)}
  {parts : List (Parse K (Trees R K))}

/-- A further part, with whatever comes after it. -/
theorem andThen (h : Regular False takes part) (hs : Regular False false (Part.inOrder parts)) :
    Regular False false (Part.inOrder (part :: parts)) := by
  cases takes with
  | false => exact .inOrder h hs
  | true => exact .inOrder h.weaken hs

/-- Parts of which the first takes a token. -/
theorem first (h : Regular more true part) (hs : Regular False false (Part.inOrder parts)) :
    Regular more true (Part.inOrder (part :: parts)) := .inOrder h hs

/-- Parts of which the first need not take a token. -/
theorem perhaps (h : Regular more false part) (hs : Regular False takes (Part.inOrder parts)) :
    Regular more takes (Part.inOrder (part :: parts)) :=
  Bool.false_or takes ▸ .inOrder h hs

/-- A loop that goes on while tokens of a kind are next. -/
theorem whileAt {kind : K} (h : kind ≠ TokenKind.endOfInput) (hp : Regular True true part) :
    Regular more false (Part.whileAt kind part) := by
  have hturn : (fun _ => do
      if ← Parse.at? kind then return (← part, some ()) else return ([], none)) =
      Turn.choosing fun (_ : Unit) token _ =>
        if token.kind = kind then .again part () else .stop := by
    funext s p
    by_cases hk : p.cursor.peek.kind = kind
    · simp only [Turn.choosing, hk, if_true, Turn.run]
      simp [Parse.at?, hk, bind, EStateM.bind]
    · simp only [Turn.choosing, hk, if_false, Turn.run]
      simp [Parse.at?, hk, bind, EStateM.bind]
  unfold Part.whileAt
  rw [hturn]
  refine .repeating ?_ ?_ ?_ fun _ _ _ _ _ => rfl
  · intro state token after part' he
    split at he <;> cases he
  · intro state token after part' state' he
    split at he <;> simp_all
  · intro state token after part' state' he
    split at he <;> cases he
    exact hp

end Regular
end Part
end BuiltInScript
