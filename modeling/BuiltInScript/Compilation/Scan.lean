import BuiltInScript.Compilation.Fault
import BuiltInScript.Compilation.Piece
import BuiltInScript.Compilation.SymbolTable

/-!
# Scanning a module

One pass over the pieces of a module selects the code to compile and records its regions and patch
zones. Regions and zones are recorded in every branch, compiled or not.
-/
namespace BuiltInScript.Compilation

open BuiltInScript.Module

/-- A pair of `#Область` and `#КонецОбласти`. Mirrors `RegionRecord`. -/
structure Region where
  name : String
  /-- From the opening `#` through the last token of the closing directive. -/
  span : Span
  tokens : TokenRange
deriving DecidableEq, Repr, Inhabited

/-- Mirrors `PatchKind`. -/
inductive ZoneKind where
  | insert | delete
deriving DecidableEq, Repr, Inhabited

/-- A pair of `#Вставка` and `#КонецВставки`, or of `#Удаление` and `#КонецУдаления`. Mirrors
`PatchZone`. -/
structure Zone where
  kind : ZoneKind
  /-- From the opening marker through the closing one. -/
  span : Span
  tokens : TokenRange
deriving DecidableEq, Repr, Inhabited

/-- Where something began that has not ended. Mirrors `PendingMarker`. -/
structure Opening where
  span : Span
  index : Nat
deriving DecidableEq, Repr, Inhabited

/-- Mirrors `PendingRegion`. -/
structure OpenRegion where
  name : String
  opening : Opening
deriving DecidableEq, Repr, Inhabited

/-- What has been read of a module. Mirrors `Scan` and `Output`. -/
structure Scan where
  conditions : ConditionStack := {}
  /-- Open regions, the innermost first. -/
  openRegions : List OpenRegion := []
  openInsert : Option Opening := none
  openDelete : Option Opening := none
  /-- Code to compile. -/
  code : List (Token Kind) := []
  /-- Regions in the order in which they ended. -/
  regions : List Region := []
  zones : List Zone := []
  diagnostics : List Diagnostic := []

namespace Scan

def report (s : Scan) (fault : StructureFault) : Scan :=
  { s with diagnostics := s.diagnostics ++ [fault.diagnostic] }

/-- Takes over a condition stack, or reports why there is none. Mirrors the condition cases of
`Preprocessor.apply`. -/
def setConditions (s : Scan) (span : Span) :
    Except ConditionError ConditionStack → Scan
  | .ok conditions => { s with conditions }
  | .error cause => s.report (.unmatchedCondition cause span)

/-- Whether a condition holds; a malformed one does not. Mirrors `Preprocessor.evaluate`. -/
def holds (symbols : SymbolTable) (condition : Option Condition) : Bool :=
  condition.any symbols.eval

/-- Mirrors the region case of `Preprocessor.apply`. -/
def endRegion (s : Scan) (span : Span) (range : TokenRange) : Scan :=
  match s.openRegions with
  | [] => s.report (.unmatchedEndRegion span)
  | region :: outer =>
    { s with
      openRegions := outer
      regions := s.regions ++
        [⟨region.name, region.opening.span.join span, ⟨region.opening.index, range.next⟩⟩] }

/-- A zone does not begin within another one of its kind. Mirrors `open_zone`. -/
def openZone (s : Scan) (kind : ZoneKind) (span : Span) (range : TokenRange) : Scan :=
  match kind, s.openInsert, s.openDelete with
  | .insert, none, _ => { s with openInsert := some ⟨span, range.first⟩ }
  | .delete, _, none => { s with openDelete := some ⟨span, range.first⟩ }
  | .insert, some opened, _ => s.report (.nestedZone span opened.span)
  | .delete, _, some opened => s.report (.nestedZone span opened.span)

def addZone (s : Scan) (kind : ZoneKind) (opening : Opening) (span : Span)
    (range : TokenRange) : Scan :=
  { s with
    zones := s.zones ++ [⟨kind, opening.span.join span, ⟨opening.index, range.next⟩⟩] }

/-- Mirrors `close_zone`. -/
def closeZone (s : Scan) (kind : ZoneKind) (span : Span) (range : TokenRange) : Scan :=
  match kind, s.openInsert, s.openDelete with
  | .insert, some opening, _ => { s with openInsert := none }.addZone .insert opening span range
  | .delete, _, some opening => { s with openDelete := none }.addZone .delete opening span range
  | _, _, _ => s.report (.unmatchedEndZone span)

/-- The effect of a directive. Mirrors `Preprocessor.apply`. -/
def apply (symbols : SymbolTable) (s : Scan) (span : Span) (range : TokenRange) :
    Directive → Scan
  | .ifBlock condition =>
    { s with conditions := s.conditions.openIf (holds symbols condition) span }
  | .elseIf condition => s.setConditions span (s.conditions.elseIf (holds symbols condition))
  | .otherwise => s.setConditions span s.conditions.otherwise
  | .endIf => s.setConditions span s.conditions.endIf
  | .region name => { s with openRegions := ⟨name, ⟨span, range.first⟩⟩ :: s.openRegions }
  | .endRegion => s.endRegion span range
  | .insert => s.openZone .insert span range
  | .delete => s.openZone .delete span range
  | .endInsert => s.closeZone .insert span range
  | .endDelete => s.closeZone .delete span range
  | .use _ | .shebang => s

/-- Code is compiled if it is on the code channel and its branch is chosen. Mirrors a turn of
`Preprocessor.preprocess`. -/
def step (symbols : SymbolTable) (s : Scan) : Event → Scan
  | .directive reported found span range =>
    let s := { s with diagnostics := s.diagnostics ++ reported }
    match found with
    | some directive => s.apply symbols span range directive
    | none => s
  | .other token =>
    if token.channels = .codeOnly && s.conditions.isCompiled then
      { s with code := s.code ++ [token] }
    else s

/-- The zone of a deletion that is never ended: up to the last token, which is left out as the end
marker. Mirrors the zone that `Preprocessor.finish` adds. -/
def unclosedDeletion (opening : Opening) (tokens : List (Token Kind)) : Zone :=
  let next := tokens.length - 1
  let span := match tokens[next - 1]? with
    | some last => opening.span.join last.span
    | none => opening.span
  ⟨.delete, span, ⟨opening.index, next⟩⟩

/-- What is wrong at the end of a module: blocks, regions and zones that were never closed. Mirrors
what `Preprocessor.finish` reports. -/
def unclosed (s : Scan) : List StructureFault :=
  s.conditions.unclosed.map .unclosedIf ++
    s.openRegions.reverse.map (fun region => .unclosedRegion region.name region.opening.span) ++
    (s.openInsert.toList.map fun opening => .unclosedInsert opening.span) ++
    (s.openDelete.toList.map fun opening => .unclosedDelete opening.span)

/-- The end of a module. Mirrors `Preprocessor.finish`. -/
def finish (s : Scan) (tokens : List (Token Kind)) : Scan :=
  { s with
    diagnostics := s.diagnostics ++ s.unclosed.map StructureFault.diagnostic
    zones := s.zones ++ s.openDelete.toList.map fun opening => unclosedDeletion opening tokens }

end Scan
end BuiltInScript.Compilation
