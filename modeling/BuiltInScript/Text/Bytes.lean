/-!
# Byte offsets

Places in a source are byte offsets into its UTF-8 form, counted after a leading byte order mark
has been dropped. A cut is defined only at an offset where a character begins or the text ends.

Main statements: `splitBytes?_eq_some_iff` and `sliceBytes?_eq_some_iff`, a cut takes a text apart
and loses nothing, and every way to take a text apart is a cut.
-/
namespace BuiltInScript.Text

/-- Bytes that the characters take in UTF-8. -/
def byteLength : List Char → Nat
  | [] => 0
  | c :: cs => c.utf8Size + byteLength cs

@[simp] theorem byteLength_append (a b : List Char) :
    byteLength (a ++ b) = byteLength a + byteLength b := by
  induction a with
  | nil => simp [byteLength]
  | cons c cs ih => simp [byteLength, ih, Nat.add_assoc]

@[simp] theorem byteLength_reverse (cs : List Char) : byteLength cs.reverse = byteLength cs := by
  induction cs with
  | nil => rfl
  | cons c cs ih => simp [byteLength, ih, Nat.add_comm]

/-- Cuts after the given number of bytes; `none` inside a character or past the end. -/
def splitBytes? : Nat → List Char → Option (List Char × List Char)
  | 0, cs => some ([], cs)
  | _ + 1, [] => none
  | n + 1, c :: cs =>
    if c.utf8Size ≤ n + 1 then
      (splitBytes? (n + 1 - c.utf8Size) cs).map fun (before, after) => (c :: before, after)
    else none

/-- A cut at an offset takes the text apart into what lies before that offset and the rest. -/
theorem splitBytes?_eq_some_iff {n : Nat} {cs a b : List Char} :
    splitBytes? n cs = some (a, b) ↔ cs = a ++ b ∧ byteLength a = n := by
  fun_induction splitBytes? n cs generalizing a with
  | case1 cs =>
    cases a with
    | nil => simp [byteLength, eq_comm]
    | cons c a => simp [byteLength, Nat.ne_of_gt c.utf8Size_pos]
  | case2 n => cases a <;> simp [byteLength]
  | case3 n c cs h ih =>
    cases a with
    | nil => simp [byteLength]
    | cons d a =>
      simp only [Option.map_eq_some_iff, Prod.exists, Prod.mk.injEq, List.cons.injEq, byteLength,
        List.cons_append]
      constructor
      · rintro ⟨x, y, hxy, ⟨rfl, rfl⟩, rfl⟩
        obtain ⟨rfl, hx⟩ := ih.1 hxy
        exact ⟨⟨rfl, rfl⟩, by omega⟩
      · rintro ⟨⟨rfl, rfl⟩, hn⟩
        exact ⟨a, b, ih.2 ⟨rfl, by omega⟩, ⟨rfl, rfl⟩, rfl⟩
  | case4 n c cs h =>
    cases a with
    | nil => simp [byteLength]
    | cons d a =>
      simp only [reduceCtorEq, List.cons_append, List.cons.injEq, byteLength, false_iff, not_and,
        and_imp]
      rintro rfl -
      omega

@[simp] theorem splitBytes?_append (a b : List Char) :
    splitBytes? (byteLength a) (a ++ b) = some (a, b) :=
  splitBytes?_eq_some_iff.2 ⟨rfl, rfl⟩

/-- The characters between two byte offsets. -/
def sliceBytes? (cs : List Char) (start stop : Nat) : Option (List Char) :=
  if start ≤ stop then do
    let (_, rest) ← splitBytes? start cs
    let (slice, _) ← splitBytes? (stop - start) rest
    return slice
  else none

theorem sliceBytes?_eq_some_iff {cs slice : List Char} {start stop : Nat} :
    sliceBytes? cs start stop = some slice ↔
      ∃ before after, cs = before ++ slice ++ after ∧ byteLength before = start ∧
        start + byteLength slice = stop := by
  unfold sliceBytes?
  split
  · simp only [bind, Option.bind_eq_some_iff, splitBytes?_eq_some_iff, Prod.exists, pure,
      Option.some.injEq]
    constructor
    · rintro ⟨before, rest, ⟨rfl, hb⟩, slice, after, ⟨rfl, hs⟩, rfl⟩
      exact ⟨before, after, by simp, hb, by omega⟩
    · rintro ⟨before, after, rfl, hb, hs⟩
      exact ⟨before, slice ++ after, ⟨by simp, hb⟩, slice, after, ⟨rfl, by omega⟩, rfl⟩
  · simp only [reduceCtorEq, false_iff, not_exists, not_and]
    omega

/-- Byte offsets at which a character ends, ascending, the text beginning at offset `start`. -/
def boundariesFrom (start : Nat) : List Char → List Nat
  | [] => []
  | c :: cs => (start + c.utf8Size) :: boundariesFrom (start + c.utf8Size) cs

/-- Mirrors `BYTE_ORDER_MARK`. -/
def byteOrderMark : Char := '\uFEFF'

/-- Drops one leading byte order mark, if there is one. Mirrors `strip_bom`. -/
def dropByteOrderMark : List Char → List Char
  | [] => []
  | c :: cs => if c = byteOrderMark then cs else c :: cs

theorem dropByteOrderMark_eq_self {cs : List Char} (h : cs.head? ≠ some byteOrderMark) :
    dropByteOrderMark cs = cs := by
  cases cs with
  | nil => rfl
  | cons c cs => exact if_neg fun hc => h (congrArg some hc)

/-- One byte order mark is dropped, but not a second one. -/
theorem head?_dropByteOrderMark_iff {cs : List Char} :
    (dropByteOrderMark cs).head? = some byteOrderMark ↔ [byteOrderMark, byteOrderMark] <+: cs := by
  cases cs with
  | nil => simp [dropByteOrderMark]
  | cons c cs =>
    rw [dropByteOrderMark]
    split
    · cases cs <;> simp [*, eq_comm]
    · simp [*, eq_comm]

/-- `dropByteOrderMark` on strings. Mirrors `strip_bom`. -/
def stripByteOrderMark (text : String) : String := String.ofList (dropByteOrderMark text.toList)

@[simp] theorem toList_stripByteOrderMark (text : String) :
    (stripByteOrderMark text).toList = dropByteOrderMark text.toList := by
  simp [stripByteOrderMark]

end BuiltInScript.Text
