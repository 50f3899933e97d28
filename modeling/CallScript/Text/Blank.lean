/-!
# Blanks and line ends

The white space of a text: the controls from U+0009 to U+000D and from U+001C to U+001F, the space
itself, and the separators of Unicode. Trimming, and the test for a text that holds nothing else,
go by this one set. The zero-width characters U+200B and U+FEFF are not in it.

Some of the blanks end a line. Source positions count the line feed alone. A text that is quoted in a
report is cut at the first of the ten line ends of Unicode, and a text that comes from a file has its
carriage returns turned into line feeds before anything else looks at it.
-/

namespace CallScript.Text

def isBlank (c : Char) : Bool :=
  let n := c.toNat
  (0x09 ≤ n && n ≤ 0x0D) || (0x1C ≤ n && n ≤ 0x20) || n == 0x85 || n == 0xA0 || n == 0x1680 ||
    (0x2000 ≤ n && n ≤ 0x200A) || n == 0x2028 || n == 0x2029 || n == 0x202F || n == 0x205F ||
    n == 0x3000

def skipBlanks (cs : List Char) : List Char :=
  cs.dropWhile isBlank

def trimEnd (cs : List Char) : List Char :=
  (cs.reverse.dropWhile isBlank).reverse

def trim (cs : List Char) : List Char :=
  trimEnd (skipBlanks cs)

/-- A text that holds nothing but blanks, such as the empty one. -/
def isBlankText (cs : List Char) : Bool :=
  cs.all isBlank

theorem skipBlanks_length_le (cs : List Char) : (skipBlanks cs).length ≤ cs.length :=
  (List.dropWhile_sublist _).length_le

theorem isBlank_of_skipBlanks_eq_cons {cs rest : List Char} {c : Char}
    (h : skipBlanks cs = c :: rest) : isBlank c = false := by
  induction cs with
  | nil => simp [skipBlanks] at h
  | cons d ds ih =>
    by_cases hd : isBlank d
    · exact ih (by simpa [skipBlanks, hd] using h)
    · simp only [skipBlanks, List.dropWhile_cons, hd] at h
      simp only [Bool.false_eq_true, if_false, List.cons.injEq] at h
      simpa [h.1] using hd

@[simp] theorem skipBlanks_skipBlanks (cs : List Char) :
    skipBlanks (skipBlanks cs) = skipBlanks cs := by
  induction cs with
  | nil => rfl
  | cons c cs ih =>
    by_cases hc : isBlank c <;> simp_all [skipBlanks]

/-- The characters that end a line in Unicode text. Each of them is blank. -/
def isLineEnd (c : Char) : Bool :=
  let n := c.toNat
  (0x0A ≤ n && n ≤ 0x0D) || (0x1C ≤ n && n ≤ 0x1E) || n == 0x85 || n == 0x2028 || n == 0x2029

def firstLine (cs : List Char) : List Char :=
  cs.takeWhile (!isLineEnd ·)

/-- Every carriage return, alone or before a line feed, becomes one line feed. -/
def unifyLineEnds : List Char → List Char
  | [] => []
  | '\r' :: '\n' :: rest => '\n' :: unifyLineEnds rest
  | '\r' :: rest => '\n' :: unifyLineEnds rest
  | c :: rest => c :: unifyLineEnds rest

/-- The lines of a console input: each ends in a line feed, and the last may lack it. -/
def inputLines (cs : List Char) : List (List Char) :=
  match cs with
  | [] => []
  | c :: rest =>
    if c == '\n' then [] :: inputLines rest
    else match inputLines rest, rest with
      | line :: lines, _ :: _ => (c :: line) :: lines
      | _, _ => [[c]]

end CallScript.Text
