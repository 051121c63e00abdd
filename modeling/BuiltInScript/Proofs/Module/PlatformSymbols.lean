import BuiltInScript.Module.PlatformSymbol
import BuiltInScript.Module.Words
import BuiltInScript.Proofs.Lexing.Words

/-!
# Names of platform symbols

A platform symbol has a name in each language, and no name belongs to two symbols, in whatever
mixture of cases it is written. So a symbol is found by each of its names.

**Results.**
* `isNamed_unique`: a name belongs to one symbol only.
* `ofName?_eq_some_iff`, `ofName?_eq_none_iff`: a symbol is found by its names.
* `russianName_checked`: the name that a symbol is shown by is a word and no keyword.
-/
namespace BuiltInScript.Module

open Text

/-- A name is looked up by its folded spelling. -/
theorem ofName?_foldWord (name : String) :
    PlatformSymbol.ofName? ⟨String.ofList (foldWord name)⟩ = PlatformSymbol.ofName? ⟨name⟩ := by
  refine PlatformSymbol.ofName?_congr (Name.beq_iff.2 ?_)
  simp [Name.key, foldWord, Function.comp_def]

/-- A platform symbol with the characters of its two names. -/
structure SymbolNames where
  symbol : PlatformSymbol
  russian : List Char
  english : List Char

/-- The Russian name is a word, no keyword, and no name of another symbol. -/
def SymbolNames.clear (row : SymbolNames) (rows : List SymbolNames) : Bool :=
  let key := row.russian.map foldCase
  isWord key && (directiveWords.find? key).isNone && rows.all fun other =>
    row.symbol = other.symbol ||
      key != other.russian.map foldCase && key != other.english.map foldCase

/-- The English name is no English name of another symbol. -/
def SymbolNames.apart (row : SymbolNames) (rows : List SymbolNames) : Bool :=
  rows.all fun other =>
    row.symbol = other.symbol || row.english.map foldCase != other.english.map foldCase

/-- All of this is evaluated on characters that are at hand, since taking long literals apart is
slow. -/
theorem symbolNames_clear : ∃ rows : List SymbolNames,
    PlatformSymbol.all.map (fun s => (s, s.russianName, s.englishName)) =
      rows.map (fun row => (row.symbol, .ofList row.russian, .ofList row.english)) ∧
    (rows.all fun row => row.clear rows) = true ∧ (rows.all fun row => row.apart rows) = true := by
  refine ⟨[⟨_, _, _⟩, ⟨_, _, _⟩, ⟨_, _, _⟩, ⟨_, _, _⟩, ⟨_, _, _⟩, ⟨_, _, _⟩, ⟨_, _, _⟩,
    ⟨_, _, _⟩, ⟨_, _, _⟩, ⟨_, _, _⟩, ⟨_, _, _⟩, ⟨_, _, _⟩, ⟨_, _, _⟩, ⟨_, _, _⟩, ⟨_, _, _⟩,
    ⟨_, _, _⟩], rfl, ?_, ?_⟩
  · decide +kernel
  · decide +kernel

/-- A row of checked names for each symbol. -/
theorem exists_symbolNames : ∃ rows : List SymbolNames,
    (∀ s : PlatformSymbol, ∃ row ∈ rows, row.symbol = s ∧
      foldWord s.russianName = row.russian.map foldCase ∧
        foldWord s.englishName = row.english.map foldCase) ∧
    (∀ row ∈ rows, row.clear rows = true ∧ row.apart rows = true) := by
  obtain ⟨rows, hrows, hclear, hapart⟩ := symbolNames_clear
  refine ⟨rows, fun s => ?_, fun row hrow => ?_⟩
  · have hmem : s ∈ PlatformSymbol.all := by cases s <;> decide
    have hnames := List.mem_map_of_mem (f := fun s => (s, s.russianName, s.englishName)) hmem
    rw [hrows] at hnames
    obtain ⟨row, hrow, hnames⟩ := List.mem_map.1 hnames
    simp only [Prod.mk.injEq] at hnames
    obtain ⟨hs, hrussian, henglish⟩ := hnames
    exact ⟨row, hrow, hs, by simp [foldWord, ← hrussian], by simp [foldWord, ← henglish]⟩
  · exact ⟨List.all_eq_true.1 hclear row hrow, List.all_eq_true.1 hapart row hrow⟩

namespace PlatformSymbol

variable {s t : PlatformSymbol} {name : String}

/-- A name of a symbol is one of two words. -/
theorem isNamed_iff : s.isNamed ⟨name⟩ ↔
    foldWord name = foldWord s.russianName ∨ foldWord name = foldWord s.englishName := by
  rw [isNamed, Bool.or_eq_true, Name.beq_iff, Name.beq_iff]
  rfl

/-- A name belongs to one symbol only. -/
theorem isNamed_unique (hs : s.isNamed ⟨name⟩) (ht : t.isNamed ⟨name⟩) : s = t := by
  obtain ⟨rows, hrow, hchecked⟩ := exists_symbolNames
  obtain ⟨row, hmem, rfl, hrussian, henglish⟩ := hrow s
  obtain ⟨other, hother, rfl, hrussian', henglish'⟩ := hrow t
  obtain ⟨hclear, hapart⟩ := hchecked row hmem
  obtain ⟨hclear', -⟩ := hchecked other hother
  by_contra hne
  have hne' : other.symbol ≠ row.symbol := fun h => hne h.symm
  simp only [SymbolNames.clear, SymbolNames.apart, Bool.and_eq_true, List.all_eq_true,
    Bool.or_eq_true, decide_eq_true_eq, bne_iff_ne] at hclear hclear' hapart
  obtain ⟨hrr, hre⟩ := (hclear.2 other hother).resolve_left hne
  obtain ⟨-, her⟩ := (hclear'.2 row hmem).resolve_left hne'
  have hee := (hapart other hother).resolve_left hne
  rw [isNamed_iff, hrussian, henglish] at hs
  rw [isNamed_iff, hrussian', henglish'] at ht
  rcases hs with hs | hs <;> rw [hs] at ht <;> rcases ht with ht | ht
  · exact hrr ht
  · exact hre ht
  · exact her ht.symm
  · exact hee ht

theorem isNamed_of_ofName? (h : ofName? ⟨name⟩ = some s) : s.isNamed ⟨name⟩ := by
  unfold ofName? at h
  exact List.find?_some (p := fun s : PlatformSymbol => s.isNamed ⟨name⟩) h

/-- A symbol is found by its names, and by no others. -/
theorem ofName?_eq_some_iff : ofName? ⟨name⟩ = some s ↔ s.isNamed ⟨name⟩ := by
  constructor
  · exact isNamed_of_ofName?
  · intro h
    have hall : s ∈ all := by cases s <;> decide
    cases hfound : ofName? ⟨name⟩ with
    | some t => rw [isNamed_unique (isNamed_of_ofName? hfound) h]
    | none => exact absurd h (List.find?_eq_none.1 hfound s hall)

theorem ofName?_eq_none_iff : ofName? ⟨name⟩ = none ↔ ∀ s, ¬isNamed s ⟨name⟩ := by
  rw [Option.eq_none_iff_forall_ne_some]
  exact forall_congr' fun s => not_congr ofName?_eq_some_iff

theorem isNamed_russianName (s : PlatformSymbol) : s.isNamed ⟨s.russianName⟩ :=
  isNamed_iff.2 (.inl rfl)

end PlatformSymbol

theorem russianName_checked (s : PlatformSymbol) : isWord (foldWord s.russianName) = true ∧
    directiveWords.find? (foldWord s.russianName) = none ∧
      PlatformSymbol.ofName? ⟨s.russianName⟩ = some s := by
  obtain ⟨rows, hrow, hchecked⟩ := exists_symbolNames
  obtain ⟨row, hmem, rfl, hrussian, -⟩ := hrow s
  have hclear := (hchecked row hmem).1
  simp only [SymbolNames.clear, ← hrussian, Bool.and_eq_true, Option.isNone_iff_eq_none]
    at hclear
  exact ⟨hclear.1.1, hclear.1.2,
    PlatformSymbol.ofName?_eq_some_iff.2 (PlatformSymbol.isNamed_russianName _)⟩

end BuiltInScript.Module
