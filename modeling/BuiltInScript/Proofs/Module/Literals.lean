import BuiltInScript.Proofs.Lexing.Pieces
import BuiltInScript.Proofs.Lexing.Words
import BuiltInScript.Proofs.Module.Lexis

/-!
# String literals read back

A string literal may go on over several lines, each of which begins with `|`, and blank lines and
comments may stand between them. Whatever the contents of its lines are, once the quotes in them
are doubled the lexer takes the literal apart into just these lines: a run of quotes is split from
the left into pairs, and only the quote that closes the literal is left over.

**Results.**
* `stringBody_doubled`: doubled contents are read whole.
* `cut_filling`: blanks and comments between the lines leave the literal open.
* `cut_lines`: the lines after the first one.
* `literal_reads_back`: a written literal is read as its lines.
-/
namespace BuiltInScript.Module

open Text

/-! ## Literals -/

/-- Contents of a line with two quotes for each quote. -/
def doubled (content : List Char) : List Char :=
  content.flatMap fun c => if c = '"' then ['"', '"'] else [c]

def lineEnds : List (List Char) := [['\n'], ['\r', '\n'], ['\r']]

/-- What stands between the end of a line and the `|` of the next line of the literal: blank lines
and lines with a comment, and then blanks. -/
inductive Gap : List Char → Prop
  | indent {blanks : List Char} (hblanks : ∀ c ∈ blanks, isInlineBlank c) : Gap blanks
  | blankLine {blanks lineEnd gap : List Char} (hblanks : ∀ c ∈ blanks, isInlineBlank c)
      (hend : lineEnd ∈ lineEnds) (hgap : Gap gap) : Gap (blanks ++ (lineEnd ++ gap))
  | commentLine {blanks text lineEnd gap : List Char} (hblanks : ∀ c ∈ blanks, isInlineBlank c)
      (htext : ∀ c ∈ text, isLineBreak c = false) (hend : lineEnd ∈ lineEnds) (hgap : Gap gap) :
      Gap (blanks ++ ('/' :: '/' :: text ++ (lineEnd ++ gap)))

/-- A further line of a literal, with what stands before it. -/
structure Line where
  /-- The end of the line before. -/
  lineEnd : List Char
  gap : List Char
  content : List Char
  ends : lineEnd ∈ lineEnds
  fills : Gap gap
  unbroken : ∀ c ∈ content, isLineBreak c = false

/-- The contents of a literal, line by line. -/
structure Literal where
  first : List Char
  more : List Line
  unbroken : ∀ c ∈ first, isLineBreak c = false

/-- What follows the contents of a line, if these lines are left. -/
def writtenLines : List Line → List Char
  | [] => ['"']
  | line :: lines =>
    line.lineEnd ++ line.gap ++ '|' :: (doubled line.content ++ writtenLines lines)

def Literal.written (literal : Literal) : List Char :=
  '"' :: (doubled literal.first ++ writtenLines literal.more)

/-- The pieces of the lines after the first one. -/
def linePieces : List Line → List (Kind × List Char)
  | [] => []
  | [last] => [(.stringTail, '|' :: (doubled last.content ++ ['"']))]
  | line :: lines => (.stringPart, '|' :: doubled line.content) :: linePieces lines

/-- The pieces that a literal consists of. -/
def Literal.pieces (literal : Literal) : List (Kind × List Char) :=
  match literal.more with
  | [] => [(.string, '"' :: (doubled literal.first ++ ['"']))]
  | lines => (.stringStart, '"' :: doubled literal.first) :: linePieces lines

/-- What may stand between the pieces of a literal. -/
def Kind.isFiller (kind : Kind) : Bool := kind == .whiteSpace || kind == .lineComment

/-! ## Contents -/

theorem foldCase_eq_quote_iff (c : Char) : foldCase c = '"' ↔ c = '"' :=
  foldCase_eq_sign_iff (by decide) (by decide +kernel) c

theorem doubled_cons (c : Char) (cs : List Char) :
    doubled (c :: cs) = (if c = '"' then ['"', '"'] else [c]) ++ doubled cs := rfl

theorem map_doubled (content : List Char) :
    (doubled content).map foldCase = doubled (content.map foldCase) := by
  have hfold : foldCase '"' = '"' := (foldCase_eq_quote_iff '"').2 rfl
  induction content with
  | nil => rfl
  | cons c cs ih =>
    rw [List.map_cons, doubled_cons, doubled_cons, List.map_append, ih]
    by_cases hc : c = '"'
    · simp [hc, hfold]
    · simp [hc, foldCase_eq_quote_iff]

theorem unbroken_map {cs : List Char} (h : ∀ c ∈ cs, isLineBreak c = false) :
    ∀ c ∈ cs.map foldCase, isLineBreak c = false := by
  intro d hd
  obtain ⟨c, hc, rfl⟩ := List.mem_map.1 hd
  rw [isLineBreak_foldCase]
  exact h c hc

theorem stringBody_quotes (cs : List Char) :
    stringBody ('"' :: '"' :: cs) = ((stringBody cs).1 + 2, (stringBody cs).2) := rfl

/-- A quote that no other follows closes the literal. -/
theorem stringBody_close {cs : List Char} (h : cs.head? ≠ some '"') :
    stringBody ('"' :: cs) = (1, true) := by
  rw [stringBody]
  intro rest hcs
  rw [hcs] at h
  exact h rfl

theorem stringBody_char {c : Char} (hquote : c ≠ '"') (hbreak : isLineBreak c = false)
    (cs : List Char) : stringBody (c :: cs) = ((stringBody cs).1 + 1, (stringBody cs).2) := by
  rw [stringBody]
  · rw [hbreak]
    rfl
  · exact fun rest hc => absurd hc hquote
  · exact hquote

/-- The end of a line leaves the literal open. -/
theorem stringBody_break {c : Char} (hbreak : isLineBreak c) (cs : List Char) :
    stringBody (c :: cs) = (0, false) := by
  have hquote : c ≠ '"' := by
    rintro rfl
    cases hbreak
  rw [stringBody]
  · rw [if_pos hbreak]
  · exact fun rest hc => absurd hc hquote
  · exact hquote

/-- Doubled contents are read whole, and what follows is read as if they were not there. -/
theorem stringBody_doubled {content : List Char} (h : ∀ c ∈ content, isLineBreak c = false)
    (cs : List Char) :
    stringBody (doubled content ++ cs) =
      ((stringBody cs).1 + (doubled content).length, (stringBody cs).2) := by
  induction content with
  | nil => rfl
  | cons c content ih =>
    obtain ⟨hc, hcontent⟩ := List.forall_mem_cons.1 h
    have hrest := ih hcontent
    rw [doubled_cons, List.append_assoc, List.length_append]
    by_cases hquote : c = '"'
    · rw [if_pos hquote]
      show stringBody ('"' :: '"' :: (doubled content ++ cs)) = _
      rw [stringBody_quotes, hrest, Nat.add_assoc, Nat.add_comm (doubled content).length]
      rfl
    · rw [if_neg hquote]
      show stringBody (c :: (doubled content ++ cs)) = _
      rw [stringBody_char hquote hc, hrest, Nat.add_assoc, Nat.add_comm (doubled content).length]
      rfl

/-! ## Lines -/

theorem lineEnd_spec {lineEnd : List Char} (h : lineEnd ∈ lineEnds) :
    ∃ c cs, lineEnd = c :: cs ∧ isLineBreak c ∧ ∀ d ∈ lineEnd, isBlank d := by
  simp only [lineEnds, List.mem_cons, List.not_mem_nil, or_false] at h
  rcases h with rfl | rfl | rfl
  · exact ⟨_, _, rfl, rfl, List.forall_mem_singleton.2 rfl⟩
  · exact ⟨_, _, rfl, rfl, List.forall_mem_cons.2 ⟨rfl, List.forall_mem_singleton.2 rfl⟩⟩
  · exact ⟨_, _, rfl, rfl, List.forall_mem_singleton.2 rfl⟩

/-- Between the lines a `|` begins a line of the literal. -/
theorem read_bar {s : State} (hs : s.mode = .string) (cs : List Char) :
    read s (foldCase '|') cs =
      match stringBody cs with
      | (n, true) => (⟨.stringTail, n⟩, s.popMode)
      | (n, false) => (⟨.stringPart, n⟩, s) := by
  rw [show foldCase '|' = '|' by decide +kernel, read, hs]
  rfl

section
variable {s : State} {content rest : List Char} (h : ∀ c ∈ content, isLineBreak c = false)
include h

/-- The contents of the last line are read up to the quote that closes the literal. -/
theorem stringBody_last (hrest : rest.head? ≠ some '"') :
    stringBody ((doubled content ++ '"' :: rest).map foldCase) =
      ((doubled content).length + 1, true) := by
  have hnext : (rest.map foldCase).head? ≠ some '"' := by
    rw [List.head?_map, ne_eq, Option.map_eq_some_iff]
    rintro ⟨c, hc, hquote⟩
    rw [(foldCase_eq_quote_iff c).1 hquote] at hc
    exact hrest hc
  have hclose : stringBody (('"' :: rest).map foldCase) = (1, true) := by
    rw [List.map_cons, (foldCase_eq_quote_iff '"').2 rfl, stringBody_close hnext]
  rw [List.map_append, map_doubled, stringBody_doubled (unbroken_map h), hclose, ← map_doubled,
    List.length_map, Nat.add_comm]

/-- The contents of the other lines are read up to the end of the line. -/
theorem stringBody_open (line : Line) (lines : List Line) :
    stringBody ((doubled content ++ (writtenLines (line :: lines) ++ rest)).map foldCase) =
      ((doubled content).length, false) := by
  obtain ⟨c, cs, hend, hbreak, -⟩ := lineEnd_spec line.ends
  have hopen : stringBody ((writtenLines (line :: lines) ++ rest).map foldCase) = (0, false) := by
    rw [writtenLines, hend]
    exact stringBody_break (by rwa [isLineBreak_foldCase]) _
  rw [List.map_append, map_doubled, stringBody_doubled (unbroken_map h), hopen, ← map_doubled,
    List.length_map, Nat.zero_add]

theorem cut_string (hs : s.mode = .default) (hrest : rest.head? ≠ some '"') :
    CutTo lexicalRules rest s [(.string, '"' :: (doubled content ++ ['"']))] s := by
  refine .single ?_
  show read s _ _ = _
  rw [List.append_assoc, (foldCase_eq_quote_iff '"').2 rfl, read, hs, List.length_append]
  show readString s _ = _
  rw [readString, List.singleton_append, stringBody_last h hrest]
  rfl

variable (rest) in
theorem cut_stringStart (hs : s.mode = .default) (line : Line) (lines : List Line) :
    CutTo lexicalRules (writtenLines (line :: lines) ++ rest) s
      [(.stringStart, '"' :: doubled content)] (s.pushMode .string) := by
  refine .single ?_
  show read s _ _ = _
  rw [(foldCase_eq_quote_iff '"').2 rfl, read, hs]
  show readString s _ = _
  rw [readString, stringBody_open h]

theorem cut_stringTail (hs : s.mode = .string) (hrest : rest.head? ≠ some '"') :
    CutTo lexicalRules rest s [(.stringTail, '|' :: (doubled content ++ ['"']))] s.popMode := by
  refine .single ?_
  show read s _ _ = _
  rw [List.append_assoc, read_bar hs, List.singleton_append, stringBody_last h hrest,
    List.length_append]
  rfl

variable (rest) in
theorem cut_stringPart (hs : s.mode = .string) (line : Line) (lines : List Line) :
    CutTo lexicalRules (writtenLines (line :: lines) ++ rest) s
      [(.stringPart, '|' :: doubled content)] s := by
  refine .single ?_
  show read s _ _ = _
  rw [read_bar hs, stringBody_open h]

end

/-! ## Between the lines -/

/-- Blanks, and comments up to the ends of their lines. -/
inductive Filling : List Char → Prop
  | nil : Filling []
  | blank {c : Char} {cs : List Char} (hc : isBlank c) (h : Filling cs) : Filling (c :: cs)
  | comment {text cs : List Char} {c : Char} (htext : ∀ c ∈ text, isLineBreak c = false)
      (hc : isLineBreak c) (h : Filling (c :: cs)) : Filling ('/' :: '/' :: text ++ c :: cs)

namespace Filling

theorem append_blanks {blanks cs : List Char} (hblanks : ∀ c ∈ blanks, isBlank c)
    (h : Filling cs) : Filling (blanks ++ cs) := by
  induction blanks with
  | nil => exact h
  | cons c blanks ih =>
    obtain ⟨hc, hblanks⟩ := List.forall_mem_cons.1 hblanks
    exact .blank hc (ih hblanks)

/-- After leading blanks there is a comment or nothing. -/
theorem dropWhile_isBlank {cs : List Char} (h : Filling cs) : Filling (cs.dropWhile isBlank) := by
  induction h with
  | nil => exact .nil
  | blank hc _ ih => rwa [List.dropWhile_cons_of_pos hc]
  | comment htext hc h =>
    rw [List.cons_append, List.dropWhile_cons_of_neg (by decide)]
    exact .comment htext hc h

end Filling

theorem Gap.filling {gap : List Char} (h : Gap gap) : Filling gap := by
  have hinline {blanks : List Char} (hblanks : ∀ c ∈ blanks, isInlineBlank c) :
      ∀ c ∈ blanks, isBlank c := fun c hc => isBlank_iff.2 (.inl (hblanks c hc))
  induction h with
  | indent hblanks =>
    have hfilling := Filling.nil.append_blanks (hinline hblanks)
    rwa [List.append_nil] at hfilling
  | blankLine hblanks hend _ ih =>
    obtain ⟨-, -, -, -, hends⟩ := lineEnd_spec hend
    exact (ih.append_blanks hends).append_blanks (hinline hblanks)
  | commentLine hblanks htext hend _ ih =>
    obtain ⟨c, cs, rfl, hbreak, hends⟩ := lineEnd_spec hend
    exact (Filling.comment htext hbreak (ih.append_blanks hends)).append_blanks (hinline hblanks)

theorem run_map_foldCase {test : Char → Bool} (htest : ∀ c, test (foldCase c) = test c)
    (cs : List Char) : run test (cs.map foldCase) = run test cs := by
  have hcomp : test ∘ foldCase = test := funext htest
  rw [run, List.takeWhile_map, List.length_map, hcomp, run]

/-- A run ends where the text goes on with something else. -/
theorem takeWhile_append_of_stop {test : Char → Bool} {rest : List Char}
    (h : ∀ d ∈ rest.head?, test d = false) (cs : List Char) :
    (cs ++ rest).takeWhile test = cs.takeWhile test := by
  induction cs with
  | nil =>
    cases rest with
    | nil => rfl
    | cons d rest => exact List.takeWhile_cons_of_neg (by simp [h d rfl])
  | cons c cs ih =>
    rw [List.cons_append, List.takeWhile_cons, ih, List.takeWhile_cons]

section
variable {s : State} {rest : List Char}

/-- Blanks before something else are one token. -/
theorem cut_blanks (hs : s.mode = .string) {c : Char} (hc : isBlank c) (cs : List Char)
    (hrest : ∀ d ∈ rest.head?, isBlank d = false) :
    CutTo lexicalRules (cs.dropWhile isBlank ++ rest) s
      [(.whiteSpace, c :: cs.takeWhile isBlank)] s := by
  refine .single ?_
  show read s _ _ = _
  rw [← List.append_assoc, List.takeWhile_append_dropWhile, read, hs]
  dsimp only
  unfold readBetweenLines
  rw [if_pos (by rwa [isBlank_foldCase]), run_map_foldCase isBlank_foldCase, run,
    takeWhile_append_of_stop hrest]

/-- A comment goes up to the end of its line. -/
theorem commentRest_line {text : List Char} (htext : ∀ c ∈ text, isLineBreak c = false) {c : Char}
    (hc : isLineBreak c) (cs : List Char) : commentRest (text ++ c :: cs) = text.length := by
  have hall : ∀ d ∈ text, (!isLineBreak d) = true := by
    intro d hd
    rw [htext d hd]
    rfl
  have hstop : (c :: cs).takeWhile (fun c => !isLineBreak c) = [] :=
    List.takeWhile_cons_of_neg (by simp [hc])
  rw [commentRest, run, List.takeWhile_append_of_pos hall, hstop, List.append_nil]

theorem cut_comment (hs : s.mode = .string) {text : List Char}
    (htext : ∀ c ∈ text, isLineBreak c = false) {c : Char} (hc : isLineBreak c) (cs : List Char) :
    CutTo lexicalRules (c :: cs) s [(.lineComment, '/' :: '/' :: text)] s := by
  have hfold : foldCase '/' = '/' := by decide +kernel
  have hslash : ∀ d ∈ '/' :: text, isLineBreak d = false :=
    List.forall_mem_cons.2 ⟨by decide, htext⟩
  have hlength : commentRest (('/' :: text ++ c :: cs).map foldCase) = ('/' :: text).length := by
    rw [List.map_append, ← List.length_map (f := foldCase)]
    exact commentRest_line (unbroken_map hslash) (by rwa [isLineBreak_foldCase]) _
  refine .single ?_
  show read s _ _ = _
  rw [read, hs, hfold, ← hlength]
  dsimp only
  unfold readBetweenLines
  rw [if_neg (by decide), if_pos (by simp [startsComment, hfold])]

/-- Blanks and comments leave the literal open. -/
theorem cut_filling (hs : s.mode = .string) {cs : List Char} (h : Filling cs)
    (hrest : ∀ d ∈ rest.head?, isBlank d = false) :
    ∃ pieces, CutTo lexicalRules rest s pieces s ∧ textOf pieces = cs ∧
      ∀ piece ∈ pieces, piece.1.isFiller := by
  -- on the length, because one token takes all blanks that stand together
  induction hlength : cs.length using Nat.strongRecOn generalizing cs with
  | ind size ih =>
    cases h with
    | nil => exact ⟨[], .nil, rfl, nofun⟩
    | @blank c cs hc h =>
      have hshorter : (cs.dropWhile isBlank).length < size := by
        have hle := (List.dropWhile_sublist (l := cs) isBlank).length_le
        rw [← hlength, List.length_cons]
        omega
      obtain ⟨pieces, hcut, htext, hfiller⟩ := ih _ hshorter h.dropWhile_isBlank rfl
      have hblanks := cut_blanks hs hc cs hrest
      rw [← htext] at hblanks
      refine ⟨_, hblanks.append hcut, ?_, List.forall_mem_cons.2 ⟨rfl, hfiller⟩⟩
      rw [List.singleton_append, textOf_cons, htext, List.cons_append,
        List.takeWhile_append_dropWhile]
    | @comment text cs c htext hc h =>
      have hshorter : (c :: cs).length < size := by
        rw [← hlength, List.length_append]
        exact Nat.lt_add_of_pos_left (Nat.succ_pos _)
      obtain ⟨pieces, hcut, hcs, hfiller⟩ := ih _ hshorter h rfl
      have hcomment := cut_comment hs htext hc (cs ++ rest)
      rw [← List.cons_append, ← hcs] at hcomment
      refine ⟨_, hcomment.append hcut, ?_, List.forall_mem_cons.2 ⟨rfl, hfiller⟩⟩
      rw [List.singleton_append, textOf_cons, hcs]

/-! ## All lines -/

/-- The lines of a literal are told by what is no filler, and the last of them ends it. -/
structure TellsLines (found lines : List (Kind × List Char)) : Prop where
  filter : found.filter (fun piece => !piece.1.isFiller) = lines
  last : found.getLast? = lines.getLast?

theorem TellsLines.append {fillers : List (Kind × List Char)}
    (hfiller : ∀ piece ∈ fillers, piece.1.isFiller) {piece : Kind × List Char}
    (hpiece : piece.1.isFiller = false) {found lines : List (Kind × List Char)}
    (h : TellsLines found lines) :
    TellsLines (fillers ++ piece :: found) (piece :: lines) where
  filter := by
    have hnone : fillers.filter (fun piece => !piece.1.isFiller) = [] := by
      rw [List.filter_eq_nil_iff]
      intro piece hmem
      rw [hfiller piece hmem]
      decide
    rw [List.filter_append, hnone, List.nil_append, List.filter_cons_of_pos (by simp [hpiece]),
      h.filter]
  last := by
    rw [List.getLast?_append_cons, List.getLast?_cons, List.getLast?_cons, h.last]

/-- What stands before the `|` of a line leaves the literal open. -/
theorem cut_lead (hs : s.mode = .string) (line : Line) (hrest : rest.head? = some '|') :
    ∃ pieces, CutTo lexicalRules rest s pieces s ∧ textOf pieces = line.lineEnd ++ line.gap ∧
      ∀ piece ∈ pieces, piece.1.isFiller := by
  obtain ⟨-, -, -, -, hends⟩ := lineEnd_spec line.ends
  refine cut_filling hs (line.fills.filling.append_blanks hends) fun d hd => ?_
  rw [hrest] at hd
  cases hd
  decide

/-- The lines after the first one, up to the quote that closes the literal. -/
theorem cut_lines (hs : s.mode = .string) (hrest : rest.head? ≠ some '"') (line : Line)
    (lines : List Line) :
    ∃ pieces, CutTo lexicalRules rest s pieces s.popMode ∧
      textOf pieces = writtenLines (line :: lines) ∧
      TellsLines pieces (linePieces (line :: lines)) := by
  induction lines generalizing line with
  | nil =>
    have hline := cut_stringTail line.unbroken hs hrest
    obtain ⟨fillers, hcut, htext, hfiller⟩ := cut_lead hs line
      (show (textOf [(Kind.stringTail, '|' :: (doubled line.content ++ ['"']))] ++ rest).head? = _
        from rfl)
    refine ⟨_, hcut.append hline, ?_, .append hfiller rfl ⟨rfl, rfl⟩⟩
    rw [textOf_append, htext, textOf_cons, textOf_nil, List.append_nil]
    rfl
  | cons next lines ih =>
    obtain ⟨after, hafter, htextAfter, htells⟩ := ih next
    have hline := cut_stringPart rest line.unbroken hs next lines
    rw [← htextAfter] at hline
    have hpart := hline.append hafter
    obtain ⟨fillers, hcut, htext, hfiller⟩ := cut_lead hs line
      (show (textOf ([(Kind.stringPart, '|' :: doubled line.content)] ++ after) ++ rest).head? = _
        from rfl)
    refine ⟨_, hcut.append hpart, ?_, .append hfiller rfl htells⟩
    rw [textOf_append, htext, List.singleton_append, textOf_cons, htextAfter]
    rfl

/-- **A literal is read back as its lines.** Only white space and comments stand between them. -/
theorem cut_literal (hs : s.mode = .default) (literal : Literal) (hrest : rest.head? ≠ some '"') :
    ∃ pieces, CutTo lexicalRules rest s pieces s ∧ textOf pieces = literal.written ∧
      TellsLines pieces literal.pieces ∧ pieces.head? = literal.pieces.head? := by
  obtain ⟨first, more, hunbroken⟩ := literal
  cases more with
  | nil => exact ⟨_, cut_string hunbroken hs hrest, List.append_nil _, ⟨rfl, rfl⟩, rfl⟩
  | cons line lines =>
    obtain ⟨pieces, hcut, htext, htells⟩ :=
      cut_lines (s := s.pushMode .string) rfl hrest line lines
    have hfirst := cut_stringStart rest hunbroken hs line lines
    rw [← htext] at hfirst
    refine ⟨_, hfirst.append hcut, ?_, .append (show ∀ piece ∈ [], _ from nofun) rfl htells, rfl⟩
    rw [List.singleton_append, textOf_cons, htext]
    rfl

end

/-- **String literals are read back.** From code, the text of a literal is read as a token for each
of its lines, with only white space and comments between them, and after it the lexer is as it
was. -/
theorem literal_reads_back (literal : Literal) {l : Lexer lexicalRules} {rest : List Char}
    (hmode : l.mode = .default) (hahead : l.scanner.stream.ahead = literal.written ++ rest)
    (hrest : rest.head? ≠ some '"') :
    ∃ n, let pieces := (l.tokensUpTo n).1.map Token.piece
      pieces.filter (fun piece => !piece.1.isFiller) = literal.pieces ∧
        pieces.head? = literal.pieces.head? ∧ pieces.getLast? = literal.pieces.getLast? ∧
        (l.tokensUpTo n).2.scanner.stream.ahead = rest ∧ (l.tokensUpTo n).2.state = l.state := by
  obtain ⟨pieces, hcut, htext, htells, hhead⟩ := cut_literal hmode literal hrest
  rw [← htext] at hahead
  obtain ⟨htokens, hafter, hstate⟩ := hcut.tokensUpTo lexicalRules_plain hahead
  refine ⟨pieces.length, ?_⟩
  rw [htokens]
  exact ⟨htells.filter, hhead, htells.last, hafter, hstate⟩

/-- Two lines that end and begin with quotes, and a comment between them. -/
theorem literal_reads_back_quotes :
    let literal : Literal := {
      first := ['a', '"']
      more := [{
        lineEnd := ['\n'], gap := [' ', '/', '/', '"', '\n', ' '], content := ['"', '|']
        ends := by decide
        fills := @Gap.commentLine [' '] ['"'] ['\n'] [' '] (List.forall_mem_singleton.2 rfl)
          (List.forall_mem_singleton.2 rfl) (by decide)
          (.indent (List.forall_mem_singleton.2 rfl))
        unbroken := List.forall_mem_cons.2 ⟨rfl, List.forall_mem_singleton.2 rfl⟩ }]
      unbroken := List.forall_mem_cons.2 ⟨rfl, List.forall_mem_singleton.2 rfl⟩ }
    let l := Lexer.ofText lexicalRules "" "\"a\"\"\n //\"\n |\"\"|\";"
    literal.pieces =
      [(.stringStart, ['"', 'a', '"', '"']), (.stringTail, ['|', '"', '"', '|', '"'])] ∧
    l.mode = .default ∧ l.scanner.stream.ahead = literal.written ++ [';'] ∧
    ∃ n, let pieces := (l.tokensUpTo n).1.map Token.piece
      pieces.filter (fun piece => !piece.1.isFiller) = literal.pieces ∧
        pieces.head? = literal.pieces.head? ∧ pieces.getLast? = literal.pieces.getLast? ∧
        (l.tokensUpTo n).2.scanner.stream.ahead = [';'] ∧ (l.tokensUpTo n).2.state = l.state := by
  intro literal l
  have hahead : l.scanner.stream.ahead = literal.written ++ [';'] := by
    decide +kernel
  exact ⟨rfl, rfl, hahead, literal_reads_back literal rfl hahead (by decide)⟩

end BuiltInScript.Module
