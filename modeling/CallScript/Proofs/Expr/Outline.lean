import CallScript.Expr.Print
import CallScript.Proofs.Expr.Walk
import CallScript.Proofs.Report.Place

/-!
# Outlines of trees

The outline of a tree has a line for each visit on the walk around it: a node shows its class and its
text when the walk comes to it, and a call closes its brackets when the walk leaves it. Every line is
indented by four spaces for each step of its place. Siblings are divided by commas, each at the end of
the last line of a node that has a sibling right behind it.
-/

namespace CallScript.Expr

open Text

/-- A tree whose words and literals are written without a line feed. -/
inductive Unbroken : Expr → Prop where
  | literal {value : Value} (plain : '\n' ∉ value.literalText.toList) : Unbroken (.literal value)
  | word {name : String} (plain : '\n' ∉ name.toList) : Unbroken (.word name)
  | apply {operator : Expr} {args : List Expr} (first : Unbroken operator)
      (rest : ∀ arg ∈ args, Unbroken arg) : Unbroken (.apply operator args)

def comma (e : Expr) (i : Nat) : List Char :=
  if i + 1 < e.children.length then [','] else []

section

variable {root e next : Expr} {i : Nat} {rest : List Expr}

theorem getElem?_of_drop (h : root.children.drop i = e :: rest) : root.children[i]? = some e := by
  rw [← List.head?_drop, h, List.head?_cons]

theorem drop_succ_of_drop (h : root.children.drop i = e :: rest) : root.children.drop (i + 1) = rest := by
  rw [← List.tail_drop, h, List.tail_cons]

theorem comma_last (h : root.children.drop i = [e]) : comma root i = [] := by
  have hlength := List.drop_eq_nil_iff.1 (drop_succ_of_drop h)
  exact if_neg (by omega)

theorem comma_between (h : root.children.drop i = e :: next :: rest) : comma root i = [','] := by
  have hnext := congrArg List.length (drop_succ_of_drop h)
  rw [List.length_drop, List.length_cons] at hnext
  exact if_pos (by omega)

end

namespace Visit

/-- What is shown on the line of a visit, up to its indentation and a comma behind it. -/
def shown (v : Visit) : List Char :=
  if v.leaving then "])".toList
  else v.node.className.toList ++ "(expr='".toList ++ v.node.chars ++ ['\''] ++
    if v.node.isCall then ", nodes=[".toList else [')']

/-- The line of a visit on the walk around `root`, in an outline that starts `level` levels down. -/
def line (root : Expr) (level : Nat) (v : Visit) : List Char :=
  List.replicate (4 * (level + v.place.length)) ' ' ++ v.shown ++
    if v.isLast && root.followed v.place then [','] else []

theorem line_eq_append (root : Expr) (level : Nat) (v : Visit) :
    v.line root level = List.replicate (4 * level) ' ' ++ v.line root 0 := by
  simp only [line, Nat.mul_add, Nat.zero_add, List.replicate_add, List.append_assoc]

theorem getLast?_shown (v : Visit) : v.shown.getLast? = some '[' ∨ v.shown.getLast? = some ')' := by
  rw [shown]
  split
  · exact .inr rfl
  · split
    · left
      rw [List.getLast?_append]
      rfl
    · right
      rw [List.getLast?_append]
      rfl

/-- A line ends in a comma if it is the last one of a node that has a sibling right behind it, and no
other line does. -/
theorem getLast?_line_iff {root : Expr} {level : Nat} {v : Visit} :
    (v.line root level).getLast? = some ',' ↔ v.isLast = true ∧ root.followed v.place = true := by
  rw [line, ← Bool.and_eq_true]
  split
  · next h => simp [h]
  · next h =>
    rw [List.append_nil, List.getLast?_append]
    rcases getLast?_shown v with hshown | hshown <;> simp [hshown, h]

@[simp] theorem shown_under (i : Nat) (v : Visit) : (v.under i).shown = v.shown := rfl

/-- What a text behind an outline adds to the line of a visit: all of it to the last line of the root,
and nothing to the lines above. -/
def behind (v : Visit) (tail : List Char) : List Char :=
  if v.place = [] ∧ v.isLast = true then tail else []

/-- A line of a child stands in the outline of the root as it does in that of the child, one level
further down, and the comma behind the child goes onto its last line. -/
theorem line_under {root child : Expr} {i : Nat} (h : root.children[i]? = some child) (level : Nat)
    (v : Visit) : (v.under i).line root level =
      v.line child (level + 1) ++ v.behind (comma root i) := by
  have hlevel : level + (v.place.length + 1) = level + 1 + v.place.length := by omega
  rw [line, line, shown_under, isLast_under, place_under, List.length_cons, hlevel, behind, comma]
  cases v.place with
  | nil =>
    rw [followed_nil, followed_single]
    cases v.isLast <;> simp
  | cons j place =>
    rw [followed_cons h]
    simp

end Visit

theorem not_mem_indentation (level : Int) : '\n' ∉ indentation level := by
  simp [indentation]

theorem indentation_ofNat (level : Nat) : indentation level = List.replicate (4 * level) ' ' := by
  rw [indentation]
  congr 1

theorem not_mem_className (e : Expr) : '\n' ∉ e.className.toList := by
  cases e <;> simp [className]

theorem not_mem_moreArgChars {es : List Expr} (h : ∀ e ∈ es, '\n' ∉ e.chars) :
    '\n' ∉ moreArgChars es := by
  induction es with
  | nil => exact List.not_mem_nil
  | cons e rest ih =>
    obtain ⟨hfirst, hrest⟩ := List.forall_mem_cons.1 h
    simp [moreArgChars, hfirst, ih hrest]

theorem not_mem_argChars {es : List Expr} (h : ∀ e ∈ es, '\n' ∉ e.chars) : '\n' ∉ argChars es := by
  cases es with
  | nil => exact List.not_mem_nil
  | cons e rest =>
    obtain ⟨hfirst, hrest⟩ := List.forall_mem_cons.1 h
    simp [argChars, hfirst, not_mem_moreArgChars hrest]

theorem Unbroken.not_mem_chars {e : Expr} (h : e.Unbroken) : '\n' ∉ e.chars := by
  induction h with
  | literal plain => exact plain
  | word plain => exact plain
  | apply first rest ihfirst ihrest => simp [chars, ihfirst, not_mem_argChars ihrest]

theorem Unbroken.not_mem_header {e : Expr} (h : e.Unbroken) : '\n' ∉ header e := by
  simp [header, not_mem_className, h.not_mem_chars]

/-- The outline of a tree has the lines of the walk around the tree, and what comes behind it goes onto
its last line. Within a larger tree that is a comma, which the outline of a child does not hold. -/
def Drawn (level : Nat) (e : Expr) : Prop :=
  ∀ tail, '\n' ∉ tail → lines (outlineChars level e ++ tail) =
    e.walk.map fun v => v.line e level ++ v.behind tail

theorem drawn_of_not_isCall {e : Expr} (hcall : e.isCall = false) (hheader : '\n' ∉ header e)
    (level : Nat) : Drawn level e := by
  intro tail htail
  have houtline : outlineChars level e = indentation level ++ header e ++ [')'] := by
    cases e with
    | apply operator args => cases hcall
    | _ => rfl
  have hline : (⟨[], e, false⟩ : Visit).line e level = indentation level ++ header e ++ [')'] := by
    simp [Visit.line, Visit.shown, indentation_ofNat, header, hcall]
  have hwalk : e.walk = [⟨[], e, false⟩] := by
    rw [walk_eq, children_of_not_isCall hcall, hcall]
    rfl
  rw [houtline, lines_of_not_mem (by simp [not_mem_indentation, hheader, htail]), hwalk,
    List.map_singleton, hline, Visit.behind, Visit.isLast, hcall]
  simp

/-- The lines of the child `i`, with the comma behind it if there is one. -/
theorem Drawn.lines_child {root child : Expr} {level i : Nat} (h : Drawn (level + 1) child)
    (hchild : root.children[i]? = some child) :
    lines (outlineChars (level + 1 : Nat) child ++ comma root i) =
      (child.walk.map (Visit.under i)).map (Visit.line root level) := by
  have hcomma : '\n' ∉ comma root i := by
    rw [comma]
    split <;> simp
  rw [h _ hcomma, List.map_map]
  exact List.map_congr_left fun v _ => (Visit.line_under hchild level v).symm

/-- Siblings are drawn one after the other. The first of them here is the child `i` of the root. -/
theorem lines_siblings {root e : Expr} {level i : Nat} {rest : List Expr}
    (hchildren : root.children.drop i = e :: rest)
    (hdrawn : ∀ child ∈ e :: rest, Drawn (level + 1) child) :
    lines (outlineChars (level + 1 : Nat) e ++ moreOutlineChars (level + 1 : Nat) rest) =
      (walkFrom i (e :: rest)).map (Visit.line root level) := by
  induction rest generalizing e i with
  | nil =>
    have hlines := (hdrawn e List.mem_cons_self).lines_child (getElem?_of_drop hchildren)
    rw [comma_last hchildren] at hlines
    rw [moreOutlineChars, hlines, walkFrom_cons, walkFrom_nil, List.append_nil]
  | cons next rest ih =>
    obtain ⟨hfirst, hmore⟩ := List.forall_mem_cons.1 hdrawn
    have hlines := hfirst.lines_child (getElem?_of_drop hchildren)
    rw [comma_between hchildren] at hlines
    rw [moreOutlineChars, List.append_cons, lines_append_newline, hlines,
      ih (drop_succ_of_drop hchildren) hmore, walkFrom_cons i e, List.map_append]

/-- The lines of a call: the one that opens its brackets, those of the children, and the one that closes
the brackets, with what comes behind. -/
theorem map_walk_apply (operator : Expr) (args : List Expr) (level : Nat) (tail : List Char) :
    ((Expr.apply operator args).walk.map fun v =>
        v.line (.apply operator args) level ++ v.behind tail) =
      (indentation level ++ header (.apply operator args) ++ ", nodes=[".toList) ::
        ((walkFrom 0 (operator :: args)).map (Visit.line (.apply operator args) level) ++
          [indentation level ++ "])".toList ++ tail]) := by
  have hbelow : ((walkFrom 0 (operator :: args)).map fun v =>
      v.line (.apply operator args) level ++ v.behind tail) =
        (walkFrom 0 (operator :: args)).map (Visit.line (.apply operator args) level) :=
    List.map_congr_left fun v hv => by
      rw [Visit.behind, if_neg fun h => place_ne_nil_of_mem_walkFrom hv h.1, List.append_nil]
  rw [walk_eq, List.map_cons, List.map_append, children, hbelow]
  simp [Visit.line, Visit.shown, Visit.behind, Visit.isLast, isCall, indentation_ofNat, header]

theorem Unbroken.drawn {e : Expr} (h : e.Unbroken) (level : Nat) : Drawn level e := by
  induction h generalizing level with
  | literal plain => exact drawn_of_not_isCall rfl (Unbroken.literal plain).not_mem_header level
  | word plain => exact drawn_of_not_isCall rfl (Unbroken.word plain).not_mem_header level
  | @apply operator args first rest ihfirst ihrest =>
    intro tail htail
    have hchildren : ∀ child ∈ operator :: args, Drawn (level + 1) child :=
      List.forall_mem_cons.2 ⟨ihfirst (level + 1), fun arg harg => ihrest arg harg (level + 1)⟩
    have hsiblings := @lines_siblings (.apply operator args) operator level 0 args rfl hchildren
    have hopen : '\n' ∉ indentation level ++ header (.apply operator args) ++ ", nodes=[".toList := by
      simp [not_mem_indentation, (Unbroken.apply first rest).not_mem_header]
    have hclose : '\n' ∉ indentation level ++ "])".toList ++ tail := by
      simp [not_mem_indentation, htail]
    -- Two line feeds set the brackets apart from the children; all others stand between children.
    have houtline : outlineChars level (.apply operator args) ++ tail =
        (indentation level ++ header (.apply operator args) ++ ", nodes=[".toList) ++ '\n' ::
          ((outlineChars (level + 1 : Nat) operator ++ moreOutlineChars (level + 1 : Nat) args) ++ '\n' ::
            (indentation level ++ "])".toList ++ tail)) := by
      simp [outlineChars]
    rw [houtline, lines_append_newline, lines_append_newline, lines_of_not_mem hopen,
      lines_of_not_mem hclose, hsiblings, map_walk_apply, List.singleton_append]

/-- Each node takes one line, and each call another one. -/
theorem Unbroken.length_walk {e : Expr} (h : e.Unbroken) : e.walk.length = e.weight := by
  induction h with
  | literal plain => rfl
  | word plain => rfl
  | @apply operator args first rest ihfirst ihrest =>
    have hbelow : (walkFrom 0 (operator :: args)).length = operator.weight + weightAll args := by
      rw [length_walkFrom 0 (List.forall_mem_cons.2 ⟨ihfirst, ihrest⟩), weightAll_cons]
    rw [walk_eq, children, isCall, if_pos rfl, List.length_cons, List.length_append, hbelow,
      List.length_singleton, weight_apply]

theorem Unbroken.lines_outline {e : Expr} (h : e.Unbroken) (level : Nat) :
    lines (outline level e).toList = e.walk.map (Visit.line e level) := by
  have hlines := h.drawn level [] List.not_mem_nil
  simpa [outline, Visit.behind] using hlines

/-- The outline draws the tree. Its lines are those of the visits on the walk around the tree, which come
in the order of their places, so a node before its children, the operator before the arguments, and the
closing of a call behind all that is below it. There is one line for each node, and one more for each
call. A line ends in a comma exactly if it is the last one of a node that has a sibling right behind it.
At a level further down the outline is the same, with four spaces more before every line. -/
theorem outline_draws_tree {e : Expr} (h : e.Unbroken) (level : Nat) :
    lines (outline level e).toList = e.walk.map (Visit.line e level) ∧
    e.walk.Pairwise (fun v w => v.order < w.order) ∧
    (∀ v, v ∈ e.walk ↔ v.Belongs e) ∧
    (lines (outline level e).toList).length = (e.leafCount + e.callCount) + e.callCount ∧
    (∀ v : Visit, (v.line e level).getLast? = some ',' ↔ v.isLast = true ∧
      ∃ parent i, v.place = parent ++ [i] ∧ (e.at? (parent ++ [i + 1])).isSome = true) ∧
    lines (outline level e).toList =
      (lines (outline 0 e).toList).map (List.replicate (4 * level) ' ' ++ ·) := by
  have hlines := h.lines_outline level
  refine ⟨hlines, pairwise_walk e, fun _ => mem_walk, ?_, fun v => ?_, ?_⟩
  · rw [hlines, List.length_map, h.length_walk, weight]
    omega
  · rw [Visit.getLast?_line_iff, followed_iff]
  · have hroot : lines (outline 0 e).toList = e.walk.map (Visit.line e 0) := h.lines_outline 0
    rw [hlines, hroot, List.map_map]
    exact List.map_congr_left fun v _ => Visit.line_eq_append e level v

/-- A call that is an operator, one without arguments, and a string that looks like the end of a line. -/
theorem outline_draws_tree_nested :
    let e := Expr.apply (.apply (.word "f") [.word "x", .apply (.word "g") []])
      [.literal (.string "]),")]
    e.Unbroken ∧ lines (outline 1 e).toList = [
      "    Apply(expr='f(x, g())(\"]),\")', nodes=[".toList,
      "        Apply(expr='f(x, g())', nodes=[".toList,
      "            Word(expr='f'),".toList,
      "            Word(expr='x'),".toList,
      "            Apply(expr='g()', nodes=[".toList,
      "                Word(expr='g')".toList,
      "            ])".toList,
      "        ]),".toList,
      "        Value(expr='\"]),\"')".toList,
      "    ])".toList] := by
  intro e
  have hargs : ∀ arg ∈ [Expr.word "x", .apply (.word "g") []], arg.Unbroken :=
    List.forall_mem_cons.2 ⟨.word (by decide),
      List.forall_mem_singleton.2 (.apply (.word (by decide)) nofun)⟩
  have h : e.Unbroken :=
    .apply (.apply (.word (by decide)) hargs) (List.forall_mem_singleton.2 (.literal (by decide)))
  exact ⟨h, (outline_draws_tree h 1).1.trans (by decide)⟩

end CallScript.Expr
