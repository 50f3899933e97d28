import CallScript.Proofs.Report.Place

/-!
# What an excerpt shows

An excerpt shows the whole line in which the error begins, and under it a mark that begins in the column
of the error. The mark covers the characters of the error that lie in that line, and always the first
one, also where the line has none left. A style sets the marked characters off and adds nothing else.
-/

namespace CallScript

namespace Diagnostic

variable {d : Diagnostic} {place : Place} {column : Nat}

/-- The number of characters that the mark has behind the first one. -/
def marksBehind (d : Diagnostic) (place : Place) : Nat :=
  (d.markEnd place - place.column - 1).toNat

section

variable (hcolumn : place.column = column)
include hcolumn

theorem markEnd_eq : d.markEnd place = (column + 1 + d.marksBehind place : Nat) := by
  rw [marksBehind, markEnd]
  omega

/-- Only the first character marked may lie behind the line. -/
theorem marksBehind_within :
    d.marksBehind place = 0 ∨ column + 1 + d.marksBehind place ≤ place.line.length := by
  rw [marksBehind, markEnd]
  omega

/-- An error that ends in the line in which it begins is marked from its beginning to its end. -/
theorem marksBehind_covers (hsome : d.start < d.stop)
    (hfits : column + (d.stop - d.start) ≤ place.line.length) :
    (1 + d.marksBehind place : Int) = d.stop - d.start := by
  rw [marksBehind, markEnd]
  omega

end

def underline (column marks : Nat) : List Char :=
  ' ' :: ' ' :: (List.replicate column ' ' ++ '^' :: List.replicate marks '~')

theorem excerpt_eq (hcolumn : d.locate.column = column) (style : Text.Style) :
    d.excerpt style =
      "  " ++ String.ofList (d.locate.line.take column) ++
        style.alarm (String.ofList ((d.locate.line.drop column).take (1 + d.marksBehind d.locate))) ++
        String.ofList (d.locate.line.drop (column + 1 + d.marksBehind d.locate)) ++ "\n  " ++
        String.ofList (List.replicate column ' ') ++
        style.alarm (String.ofList ('^' :: List.replicate (d.marksBehind d.locate) '~')) := by
  have hspan : column + 1 + d.marksBehind d.locate - column = 1 + d.marksBehind d.locate := by omega
  have hmarks : ((column + 1 + d.marksBehind d.locate : Nat) - column - 1 : Int).toNat =
      d.marksBehind d.locate := by omega
  rw [excerpt]
  simp only [markEnd_eq hcolumn, hcolumn, Text.upTo_ofNat, Text.slice_ofNat, Text.onward_ofNat, hspan,
    hmarks, Int.toNat_natCast]

/-- A line is put together again from what is before the mark, what is marked and what is behind it. -/
theorem take_append_marked (line : List Char) (column marks : Nat) :
    line.take column ++ ((line.drop column).take (1 + marks) ++ line.drop (column + 1 + marks)) =
      line := by
  rw [Nat.add_assoc, ← List.drop_drop, List.take_append_drop, List.take_append_drop]

theorem toList_excerpt_plain (hcolumn : d.locate.column = column) :
    (d.excerpt .plain).toList =
      (' ' :: ' ' :: d.locate.line) ++ '\n' :: underline column (d.marksBehind d.locate) := by
  have hline := take_append_marked d.locate.line column (d.marksBehind d.locate)
  rw [excerpt_eq hcolumn]
  simp only [Text.Style.plain, id, String.toList_append, String.toList_ofList, List.append_assoc]
  rw [← List.append_assoc ((d.locate.line.drop column).take _), ← List.append_assoc (d.locate.line.take _),
    hline]
  rfl

theorem not_mem_underline (column marks : Nat) : '\n' ∉ underline column marks := by
  simp [underline, List.mem_replicate]

/-- An error is shown in the line in which it begins, with its first character and that many characters
behind it marked. -/
structure ShowsMark (d : Diagnostic) (line : List Char) (column : Int) (marks : Nat) : Prop where
  /-- In the plain style there are two lines: the whole line of the error, and the mark. -/
  plain : Text.lines (d.excerpt .plain).toList =
    [' ' :: ' ' :: line, underline column.toNat marks]
  /-- The mark stays within the line, unless it is a single character. -/
  within : marks = 0 ∨ column + 1 + marks ≤ line.length
  /-- What the error covers is marked, if there is something to mark and it fits in the line. -/
  covers : d.start < d.stop → column + (d.stop - d.start) ≤ line.length →
    (1 + marks : Int) = d.stop - d.start
  /-- In every style, the part of the line above the mark is what stands out. -/
  styled : ∀ style, d.excerpt style =
    "  " ++ String.ofList (line.take column.toNat) ++
      style.alarm (String.ofList ((line.drop column.toNat).take (1 + marks))) ++
      String.ofList (line.drop (column.toNat + 1 + marks)) ++ "\n  " ++
      String.ofList (List.replicate column.toNat ' ') ++
      style.alarm (String.ofList ('^' :: List.replicate marks '~'))

theorem showsMark (hcolumn : d.locate.column = column) (hline : '\n' ∉ d.locate.line) :
    ShowsMark d d.locate.line d.locate.column (d.marksBehind d.locate) := by
  have hfirst : '\n' ∉ ' ' :: ' ' :: d.locate.line := by simpa using hline
  have hnat : d.locate.column.toNat = column := by omega
  constructor
  · rw [toList_excerpt_plain hcolumn, Text.lines_append_newline, Text.lines_of_not_mem hfirst,
      Text.lines_of_not_mem (not_mem_underline _ _), hnat]
    rfl
  · have hwithin := marksBehind_within (d := d) hcolumn
    omega
  · rw [hcolumn]
    exact marksBehind_covers hcolumn
  · rw [hnat]
    exact excerpt_eq hcolumn

theorem locate_tellsPlace {start : Nat} (h : d.start = start) :
    TellsPlace d.source.toList start d.locate := by
  rw [locate, h]
  exact placeOf_tellsPlace d.source.toList start

theorem exists_showsMark {start : Nat} (h : d.start = start) :
    ∃ marks, ShowsMark d d.locate.line d.locate.column marks := by
  have hline : '\n' ∉ d.locate.line := fun hmem =>
    absurd (@Text.of_mem_takeWhile (· != '\n') _ _ hmem) (by decide)
  exact ⟨_, showsMark (Int.toNat_of_nonneg (locate_tellsPlace h).onward).symm hline⟩

/-- An error that begins at an offset is found in the line that holds the offset, at the column there,
and is shown in that line with the characters it covers marked. Only the column may lie behind the line,
and only where the offset lies behind the text. -/
theorem place_and_excerpt_are_faithful (d : Diagnostic) {start : Nat} (h : d.start = start) :
    TellsPlace d.source.toList start d.locate ∧
      ∃ marks, ShowsMark d d.locate.line d.locate.column marks :=
  ⟨locate_tellsPlace h, exists_showsMark h⟩

def unseparated : Diagnostic where
  kind := .syntaxError
  message := "Expected ',' or ')'"
  source := "do(a,\n  b c)"
  start := 8
  stop := 11

theorem place_and_excerpt_are_faithful_unseparated :
    unseparated.start = (8 : Nat) ∧
      TellsPlace unseparated.source.toList 8 unseparated.locate ∧
      (∃ marks, ShowsMark unseparated unseparated.locate.line unseparated.locate.column marks) ∧
      unseparated.locate = ⟨1, 2, "  b c)".toList⟩ ∧
      unseparated.excerpt .plain = "    b c)\n    ^~~" := by
  obtain ⟨hplace, hshows⟩ := place_and_excerpt_are_faithful unseparated (rfl : unseparated.start = (8 : Nat))
  exact ⟨rfl, hplace, hshows, by decide, by decide⟩

end Diagnostic

end CallScript
