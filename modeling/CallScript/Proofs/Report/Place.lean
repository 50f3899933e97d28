import CallScript.Proofs.Text.Run
import CallScript.Report.Diagnostic
import Mathlib.Algebra.GroupWithZero.Nat

/-!
# Places in a text

An offset cuts a text in two. The line feeds in the part before the cut count the lines that end
there, the last line of that part begins the line of the offset, and the part behind the cut goes on
with it up to its first line feed. This is the piece of that number among those that the line feeds
cut the whole text into.
-/

namespace CallScript

open Text

namespace Text

theorem charsBefore_of_le {n length : Nat} (h : n ≤ length) : charsBefore length n = n := by
  rw [charsBefore, if_neg (by omega), Int.toNat_natCast, Nat.min_eq_left h]

section

variable (front behind : List Char) (c : Char)

theorem upTo_append_cons : upTo front.length (front ++ c :: behind) = front := by
  rw [upTo_ofNat, List.take_left]

theorem slice_append_cons :
    slice front.length (front.length + 1 : Nat) (front ++ c :: behind) = [c] := by
  have hfront : front.length ≤ (front ++ c :: behind).length := by
    rw [List.length_append]
    omega
  rw [slice, upTo_ofNat, charsBefore_of_le hfront, List.drop_take, List.drop_left,
    Nat.add_sub_cancel_left]
  rfl

theorem onward_append_cons : onward (front.length + 1 : Nat) (front ++ c :: behind) = behind := by
  have hmarked : front.length + 1 ≤ (front ++ c :: behind).length := by
    rw [List.length_append, List.length_cons]
    omega
  rw [onward, charsBefore_of_le hmarked, ← List.drop_drop, List.drop_left]
  rfl

end

theorem onward_ofNat (n : Nat) (cs : List Char) : onward n cs = cs.drop n := by
  rw [onward]
  by_cases h : n ≤ cs.length
  · rw [charsBefore_of_le h]
  · have hall : charsBefore cs.length n = cs.length := by
      rw [charsBefore, if_neg (by omega), Int.toNat_natCast]
      omega
    rw [hall, List.drop_length, List.drop_eq_nil_of_le (by omega)]

theorem slice_ofNat (first last : Nat) (cs : List Char) :
    slice first last cs = (cs.drop first).take (last - first) := by
  rw [slice, upTo_ofNat, ← List.drop_take]
  by_cases h : first ≤ cs.length
  · rw [charsBefore_of_le h]
  · have hall : charsBefore cs.length first = cs.length := by
      rw [charsBefore, if_neg (by omega), Int.toNat_natCast]
      omega
    have hlength : (cs.take last).length ≤ cs.length := List.length_take_le' ..
    rw [hall, List.drop_eq_nil_of_le hlength, List.drop_eq_nil_of_le (by omega)]

end Text

namespace Diagnostic

def lastLine (cs : List Char) : List Char :=
  (cs.reverse.takeWhile (· != '\n')).reverse

theorem exists_append_lastLine (cs : List Char) : ∃ earlier, cs = earlier ++ lastLine cs := by
  refine ⟨(cs.reverse.dropWhile (· != '\n')).reverse, ?_⟩
  rw [lastLine, ← List.reverse_append, List.takeWhile_append_dropWhile, List.reverse_reverse]

theorem ne_newline_of_mem_lastLine {cs : List Char} {c : Char} (h : c ∈ lastLine cs) :
    (c != '\n') = true := by
  rw [lastLine, List.mem_reverse] at h
  exact @of_mem_takeWhile (· != '\n') _ _ h

end Diagnostic

namespace Text

variable {cs : List Char}

theorem ne_newline_of_not_mem (h : '\n' ∉ cs) : ∀ c ∈ cs, (c != '\n') = true :=
  fun _ hc => bne_iff_ne.2 fun heq => h (heq ▸ hc)

theorem exists_append_newline_lastLine (h : '\n' ∈ cs) :
    ∃ before, cs = before ++ '\n' :: Diagnostic.lastLine cs := by
  obtain ⟨line, before, hreverse, hline⟩ := List.eq_append_cons_of_mem (List.mem_reverse.2 h)
  have hlast : Diagnostic.lastLine cs = line.reverse := by
    rw [Diagnostic.lastLine, hreverse,
      takeWhile_append_of_stop (ne_newline_of_not_mem hline) (by simp)]
  refine ⟨before.reverse, ?_⟩
  have hcs := congrArg List.reverse hreverse
  rw [hlast]
  simpa using hcs

theorem not_mem_lastLine (cs : List Char) : '\n' ∉ Diagnostic.lastLine cs :=
  fun hmem => absurd (Diagnostic.ne_newline_of_mem_lastLine hmem) (by decide)

theorem takeWhile_eq_self (h : '\n' ∉ cs) : cs.takeWhile (· != '\n') = cs := by
  have hwhole : (cs ++ []).takeWhile (· != '\n') = cs :=
    takeWhile_append_of_stop (ne_newline_of_not_mem h) rfl
  rwa [List.append_nil] at hwhole

theorem lastLine_eq_self (h : '\n' ∉ cs) : Diagnostic.lastLine cs = cs := by
  rw [Diagnostic.lastLine, takeWhile_eq_self (by rwa [List.mem_reverse]), List.reverse_reverse]

/-- The pieces that the line feeds cut a text into. -/
def lines (cs : List Char) : List (List Char) :=
  cs.splitOn '\n'

/-- The offset at which a line begins: every line before it takes up its length and a line feed. -/
def lineStart (lines : List (List Char)) (number : Nat) : Nat :=
  ((lines.take number).map fun line => line.length + 1).sum

theorem lines_append_newline (before after : List Char) :
    lines (before ++ '\n' :: after) = lines before ++ lines after :=
  List.splitOn_append_cons_self before after

theorem lines_of_not_mem (h : '\n' ∉ cs) : lines cs = [cs] :=
  List.splitOn_eq_singleton h

theorem getElem?_lines_zero (cs : List Char) : (lines cs)[0]? = some (cs.takeWhile (· != '\n')) := by
  by_cases h : '\n' ∈ cs
  · obtain ⟨first, rest, rfl, hfirst⟩ := List.eq_append_cons_of_mem h
    rw [lines_append_newline, lines_of_not_mem hfirst,
      takeWhile_append_of_stop (ne_newline_of_not_mem hfirst) (by simp)]
    rfl
  · rw [lines_of_not_mem h, takeWhile_eq_self h]
    rfl

/-- There is one line more than there are line feeds. -/
theorem length_lines (cs : List Char) : (lines cs).length = cs.count '\n' + 1 := by
  induction cs with
  | nil => rfl
  | cons c cs ih =>
    rw [lines, List.splitOn_cons_eq_if_modifyHead]
    by_cases hc : c = '\n'
    · subst hc
      simpa [lines] using ih
    · simpa [lines, hc] using ih

/-- With their line feeds, the lines take up the whole text and one more line feed. -/
theorem sum_lines (cs : List Char) :
    ((lines cs).map fun line => line.length + 1).sum = cs.length + 1 := by
  induction cs with
  | nil => rfl
  | cons c cs ih =>
    rw [lines, List.splitOn_cons_eq_if_modifyHead]
    obtain ⟨first, rest, hlines⟩ := List.exists_cons_of_ne_nil (List.splitOn_ne_nil '\n' cs)
    rw [lines, hlines] at ih
    by_cases hc : c = '\n'
    · subst hc
      simp only [beq_self_eq_true, if_true, hlines, List.map_cons, List.sum_cons,
        List.length_nil, List.length_cons] at ih ⊢
      omega
    · simp only [beq_iff_eq, hc, if_false, hlines, List.modifyHead_cons, List.map_cons, List.sum_cons,
        List.length_cons] at ih ⊢
      omega

/-- The line in which a text is cut: it begins where the last line of the part before the cut does. -/
theorem lines_at_cut (before after : List Char) :
    (lines (before ++ after))[before.count '\n']? =
        some (Diagnostic.lastLine before ++ after.takeWhile (· != '\n')) ∧
      lineStart (lines (before ++ after)) (before.count '\n') + (Diagnostic.lastLine before).length =
        before.length := by
  by_cases h : '\n' ∈ before
  · -- The lines up to the last line feed before the cut stay whole; the next one is cut.
    obtain ⟨earlier, hbefore⟩ := exists_append_newline_lastLine h
    have hlast := not_mem_lastLine before
    have hcount : before.count '\n' = (lines earlier).length := by
      have hnone := List.count_eq_zero.2 hlast
      conv => lhs; rw [hbefore]
      rw [List.count_append, List.count_cons_self, hnone, length_lines]
    have hlines : lines (before ++ after) =
        lines earlier ++ lines (Diagnostic.lastLine before ++ after) := by
      conv => lhs; rw [hbefore]
      rw [List.append_assoc, List.cons_append, lines_append_newline]
    have hlength := congrArg List.length hbefore
    rw [List.length_append, List.length_cons] at hlength
    constructor
    · rw [hlines, hcount, List.getElem?_append_right (Nat.le_refl _), Nat.sub_self,
        getElem?_lines_zero,
        List.takeWhile_append_of_pos fun c hc => Diagnostic.ne_newline_of_mem_lastLine hc]
    · rw [lineStart, hlines, hcount, List.take_left, sum_lines]
      omega
  · rw [List.count_eq_zero.2 h, lastLine_eq_self h, getElem?_lines_zero,
      List.takeWhile_append_of_pos (ne_newline_of_not_mem h)]
    exact ⟨rfl, Nat.zero_add _⟩

end Text

namespace Diagnostic

/-- The place of an offset, by the parts that it cuts the text into. An offset past the end lies in the
last line, as many columns behind its end as it lies behind the end of the text. -/
theorem placeOf_ofNat (source : List Char) (offset : Nat) :
    placeOf source offset =
      ⟨(source.take offset).count '\n',
        (lastLine (source.take offset)).length + (offset - source.length : Nat),
        lastLine (source.take offset) ++ (source.drop offset).takeWhile (· != '\n')⟩ := by
  obtain ⟨earlier, hbefore⟩ := exists_append_lastLine (source.take offset)
  have hbegun : ((source.take offset).reverse.takeWhile (· != '\n')).length =
      (lastLine (source.take offset)).length := List.length_reverse.symm
  have hlength := congrArg List.length hbefore
  rw [List.length_append] at hlength
  have hearlier : (source.take offset).length - (lastLine (source.take offset)).length =
      earlier.length := by omega
  have hcolumn : (offset : Int) - earlier.length =
      (lastLine (source.take offset)).length + (offset - source.length : Nat) := by
    rw [List.length_take] at hlength
    omega
  have hdrop : source.drop earlier.length =
      lastLine (source.take offset) ++ source.drop offset := by
    conv => lhs; rw [← List.take_append_drop offset source, hbefore, List.append_assoc]
    exact List.drop_left
  simp only [placeOf, upTo_ofNat, hbegun, hearlier, hcolumn, hdrop]
  rw [List.takeWhile_append_of_pos fun c => ne_newline_of_mem_lastLine]

theorem placeOf_length (before after : List Char) :
    placeOf (before ++ after) before.length =
      ⟨before.count '\n', (lastLine before).length,
        lastLine before ++ after.takeWhile (· != '\n')⟩ := by
  have hnone : before.length - (before ++ after).length = 0 := by
    rw [List.length_append]
    omega
  rw [placeOf_ofNat, hnone, List.take_left, List.drop_left, Int.natCast_zero, Int.add_zero]

/-- What the place of an offset tells: the offset lies in the line of that number, and the column is
counted from the beginning of this line. -/
structure TellsPlace (source : List Char) (offset : Nat) (place : Place) : Prop where
  counted : place.lineOffset = (source.take offset).count '\n'
  line : (lines source)[place.lineOffset]? = some place.line
  onward : 0 ≤ place.column
  reached : (offset : Int) = lineStart (lines source) place.lineOffset + place.column
  inside : offset ≤ source.length → place.column ≤ place.line.length

theorem placeOf_tellsPlace (source : List Char) (offset : Nat) :
    TellsPlace source offset (placeOf source offset) := by
  obtain ⟨hline, hstart⟩ := lines_at_cut (source.take offset) (source.drop offset)
  rw [List.take_append_drop] at hline hstart
  rw [List.length_take] at hstart
  rw [placeOf_ofNat]
  constructor <;> dsimp only
  · exact hline
  · omega
  · omega
  · rw [List.length_append]
    omega

end Diagnostic

end CallScript
