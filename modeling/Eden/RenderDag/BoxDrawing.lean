import Eden.RenderDag.Text

/-!
# The box-drawing renderer

`BoxDrawingRenderer::next_row` (`box_drawing.rs`) draws a `GraphRow` as lines of text: the
node line, the link line if any, the two term lines (`│` and `~`) if any, and then a pad
line for every message line left. The message lines, padded to `min_row_height`, are one
iterator shared by all of these, each line taking the next one if there is one. A row with
a term line and no message line left after it leaves its base pad line in `extra_pad_line`,
drawn first by the next row.

`render.rs`, which defines `GraphRow` and the flags of `LinkLine`, is not among these sources:
a `GraphRow` has the fields `next_row` reads, and the flags are parameters (`LinkFlags`).

* `toNat_width`: the width of a row is twice the inner width and one, saturated at
  `u64::MAX`;
* `nextRow_eq_none_iff`: `next_row` panics exactly on a row with a column of its term line that
  is not terminated and has no pad line; on the others (`TermLineFits`), `nextRow_eq`: it
  returns the pending pad line, then `max S M` lines: line `k` is the `k`-th structural line
  (the base pad line after the last) with `" "` and the `k`-th message line (`rowLines`),
  where `S` counts the structural lines and `M` the message lines padded to `min_row_height`;
* `nextRow_lines`: with a glyph of one character other than a newline, these are exactly
  `max S M` printed lines, and every cell has two characters (`IsCell`). A glyph with a newline
  prints more lines (`nextRow_newline_glyph`), and a wider glyph a wider node cell.
-/

namespace Eden.RenderDag

/-- `NodeLine` -/
inductive NodeLine where
  | node
  | parent
  | ancestor
  | blank
  deriving DecidableEq, Inhabited

/-- `PadLine` -/
inductive PadLine where
  | parent
  | ancestor
  | blank
  deriving DecidableEq, Inhabited

/-- The flags of `LinkLine` that the renderer tests, each a set of bits. -/
structure LinkFlags where
  horizontal : ℕ
  parent : ℕ
  ancestor : ℕ
  leftFork : ℕ
  rightFork : ℕ
  leftMerge : ℕ
  rightMerge : ℕ
  anyFork : ℕ
  anyMerge : ℕ
  child : ℕ

/-- `bitflags` `contains`: every bit of `other` is set. -/
def contains (cur other : ℕ) : Bool := cur &&& other == other

/-- `bitflags` `intersects`: some bit of `other` is set. -/
def intersects (cur other : ℕ) : Bool := cur &&& other != 0

/-- `GraphRow`, as `next_row` reads it (`node` and `merge` are not read). -/
structure GraphRow where
  glyph : String
  message : String
  nodeLine : List NodeLine
  linkLine : Option (List ℕ)
  termLine : Option (List Bool)
  padLines : List PadLine
  deriving Inhabited

/-- `BoxDrawingRenderer`: `options.min_row_height` and `extra_pad_line` (the inner renderer
    has drawn the `GraphRow` already). -/
structure BoxDrawingRenderer where
  minRowHeight : ℕ
  extraPadLine : Option (List Char)

/-- `u64::saturating_mul` -/
def saturatingMul (a b : UInt64) : UInt64 :=
  if a.toNat * b.toNat < UInt64.size then a * b else UInt64.ofNat (UInt64.size - 1)

/-- `u64::saturating_add` -/
def saturatingAdd (a b : UInt64) : UInt64 :=
  if a.toNat + b.toNat < UInt64.size then a + b else UInt64.ofNat (UInt64.size - 1)

/-- `BoxDrawingRenderer::width`: two characters for each column of the inner renderer's
    width, and one more. -/
def width (innerWidth : UInt64) : UInt64 :=
  saturatingAdd (saturatingMul innerWidth 2) 1

/-- The width never wraps: it is `2 w + 1`, or `u64::MAX` past it. -/
theorem toNat_width (innerWidth : UInt64) :
    (width innerWidth).toNat = min (2 * innerWidth.toNat + 1) (UInt64.size - 1) := by
  have := innerWidth.toNat_lt
  unfold width saturatingAdd saturatingMul
  split_ifs <;> simp_all [UInt64.toNat_mul, UInt64.toNat_add, UInt64.size] <;> omega

/-- A cell of the node line. -/
def nodeCell (glyph : String) : NodeLine → String
  | .node => glyph ++ " "
  | .parent => "│ "
  | .ancestor => "╷ "
  | .blank => "  "

/-- A cell of a pad line. -/
def padCell : PadLine → String
  | .parent => "│ "
  | .ancestor => "╷ "
  | .blank => "  "

/-- A cell of the link line. -/
def linkCell (f : LinkFlags) (cur : ℕ) : String :=
  if contains cur f.horizontal then
    if intersects cur f.child then "┼─"
    else if intersects cur f.anyFork && intersects cur f.anyMerge then "┼─"
    else if intersects cur f.anyFork then "┬─"
    else if intersects cur f.anyMerge then "┴─"
    else "──"
  else if intersects cur (f.parent ||| f.ancestor) &&
      !intersects cur (f.leftFork ||| f.rightFork) then
    match contains cur f.leftMerge, contains cur f.rightMerge with
    | true, true => "┼─"
    | true, false => "┤ "
    | false, true => "├─"
    | false, false => if contains cur f.ancestor then "╷ " else "│ "
  else if contains cur f.leftFork && intersects cur (f.leftMerge ||| f.child) then "┤ "
  else if contains cur f.rightFork && intersects cur (f.rightMerge ||| f.child) then "├─"
  else if contains cur f.anyMerge then "┴─"
  else if contains cur f.anyFork then "┬─"
  else if contains cur f.leftFork then "╮ "
  else if contains cur f.leftMerge then "╯ "
  else if contains cur f.rightFork then "╭─"
  else if contains cur f.rightMerge then "╰─"
  else "  "

/-- The cells of a term line, `term_str` at a terminated column and its pad line elsewhere;
    `none` when `line.pad_lines[i]` is out of bounds, which panics. -/
def termCells (termStr : String) : List Bool → List PadLine → Option (List Char)
  | [], _ => some []
  | true :: terms, padLines => (termCells termStr terms padLines.tail).map (termStr.toList ++ ·)
  | false :: terms, pad :: padLines =>
    (termCells termStr terms padLines).map ((padCell pad).toList ++ ·)
  | false :: _, [] => none

/-- Every column of the term line of a row that is not terminated has a pad line, so that
    `line.pad_lines[i]` is in bounds: the rows on which `next_row` does not panic
    (`nextRow_eq_none_iff`). -/
def TermLineFits (line : GraphRow) : Prop :=
  ∀ termRow ∈ line.termLine, ∀ i, termRow[i]? = some false → i < line.padLines.length

/-- A term line no longer than the pad lines fits. -/
theorem termLineFits_of_length_le {line : GraphRow}
    (h : ∀ termRow ∈ line.termLine, termRow.length ≤ line.padLines.length) :
    TermLineFits line := fun termRow hrow _ hi =>
  lt_of_lt_of_le (List.getElem?_eq_some.1 hi).1 (h termRow hrow)

/-- One line drawn: its cells, then `" "` and the next message line if there is one, trimmed
    and ended by a newline; with the message lines left. -/
def drawLine (cells : List Char) : List (List Char) → List Char × List (List Char)
  | [] => (trimEnd cells ++ ['\n'], [])
  | msg :: messageLines => (trimEnd (cells ++ ' ' :: msg) ++ ['\n'], messageLines)

/-- The link line, if any. -/
def drawLinkLine (f : LinkFlags) (linkLine : Option (List ℕ)) (messageLines : List (List Char)) :
    List Char × List (List Char) :=
  match linkLine with
  | some linkRow => drawLine (linkRow.flatMap fun cur => (linkCell f cur).toList) messageLines
  | none => ([], messageLines)

/-- The term lines, if any, and whether a term line was drawn; `none` when one panics. -/
def drawTermLines (termLine : Option (List Bool)) (padLines : List PadLine)
    (messageLines : List (List Char)) : Option (List Char × List (List Char) × Bool) :=
  match termLine with
  | some termRow => do
    let bar ← termCells "│ " termRow padLines
    let barLine := drawLine bar messageLines
    let tilde ← termCells "~ " termRow padLines
    let tildeLine := drawLine tilde barLine.2
    pure (barLine.1 ++ tildeLine.1, tildeLine.2, true)
  | none => pure ([], messageLines, false)

/-- `extra_pad_line.take()`, drawn. -/
def drawExtraPadLine : Option (List Char) → List Char
  | some extraPadLine => trimEnd extraPadLine ++ ['\n']
  | none => []

/-- The base pad line of a row. -/
def basePadLine (line : GraphRow) : List Char :=
  line.padLines.flatMap fun entry => (padCell entry).toList

/-- `BoxDrawingRenderer::next_row`: the text of the row and the renderer after it, or `none`
    when it panics. -/
def nextRow (f : LinkFlags) (r : BoxDrawingRenderer) (line : GraphRow) :
    Option (List Char × BoxDrawingRenderer) := do
  let messageLines := padUsing r.minRowHeight (lines line.message.toList)
  -- Render the nodeline
  let node :=
    drawLine (line.nodeLine.flatMap fun entry => (nodeCell line.glyph entry).toList) messageLines
  -- Render the link line
  let link := drawLinkLine f line.linkLine node.2
  -- Render the term line
  let term ← drawTermLines line.termLine line.padLines link.2
  -- Render any pad lines
  let padOut := term.2.1.flatMap fun msg => trimEnd (basePadLine line ++ ' ' :: msg) ++ ['\n']
  pure (drawExtraPadLine r.extraPadLine ++ node.1 ++ link.1 ++ term.1 ++ padOut,
    { r with
      extraPadLine := if term.2.2 && term.2.1.isEmpty then some (basePadLine line) else none })

/-! ## The layout of a row -/

/-- A term line drawn cell by cell: `term_str` at a terminated column, its pad line elsewhere
    (a column not terminated and past the pad lines, where `next_row` panics, draws nothing). -/
def termLineCells (termStr : String) : List Bool → List PadLine → List Char
  | [], _ => []
  | true :: terms, padLines => termStr.toList ++ termLineCells termStr terms padLines.tail
  | false :: terms, pad :: padLines => (padCell pad).toList ++ termLineCells termStr terms padLines
  | false :: _, [] => []

/-- The structural lines of a row, in order: the node line, the link line, the `│` term line
    and the `~` term line. -/
def structuralLines (f : LinkFlags) (line : GraphRow) : List (List Char) :=
  (line.nodeLine.flatMap fun entry => (nodeCell line.glyph entry).toList) ::
    ((line.linkLine.map fun linkRow => linkRow.flatMap fun cur => (linkCell f cur).toList).toList ++
      (line.termLine.map fun termRow =>
        [termLineCells "│ " termRow line.padLines, termLineCells "~ " termRow line.padLines]).getD [])

/-- The number of message lines drawn: the lines of the message, at least `min_row_height`. -/
def messageHeight (minRowHeight : ℕ) (line : GraphRow) : ℕ :=
  max (lines line.message.toList).length minRowHeight

/-- The lines of a row: as many as the structural lines and the message lines, line `k`
    the `k`-th structural line (the base pad line past the last), `" "` and the `k`-th
    message line (empty past the last), trimmed. -/
def rowLines (f : LinkFlags) (minRowHeight : ℕ) (line : GraphRow) : List (List Char) :=
  (List.range (max (structuralLines f line).length (messageHeight minRowHeight line))).map
    fun k => trimEnd ((structuralLines f line).getD k (basePadLine line) ++
      ' ' :: (lines line.message.toList).getD k [])

/-- Lines, each ended by a newline. -/
def unlines (ls : List (List Char)) : List Char :=
  ls.flatMap (· ++ ['\n'])

/-- Whether a row leaves its base pad line to the next: it has a term line, and no message
    line is left after the `~` line. -/
def leavesPadLine (f : LinkFlags) (minRowHeight : ℕ) (line : GraphRow) : Bool :=
  line.termLine.isSome && decide (messageHeight minRowHeight line ≤ (structuralLines f line).length)

/-- `S`: the node line, the link line if any, and the two term lines if any. -/
theorem length_structuralLines (f : LinkFlags) (line : GraphRow) :
    (structuralLines f line).length =
      1 + (if line.linkLine.isSome then 1 else 0) + 2 * (if line.termLine.isSome then 1 else 0) := by
  obtain ⟨_, _, _, _ | _, _ | _, _⟩ := line <;> simp [structuralLines]

/-- Lines drawn one after another, each taking the next message line. -/
def drawLines : List (List Char) → List (List Char) → List Char × List (List Char)
  | [], messageLines => ([], messageLines)
  | cells :: rest, messageLines =>
    ((drawLine cells messageLines).1 ++ (drawLines rest (drawLine cells messageLines).2).1,
      (drawLines rest (drawLine cells messageLines).2).2)

theorem termCells_eq (termStr : String) {termRow : List Bool} {padLines : List PadLine}
    (h : ∀ i, termRow[i]? = some false → i < padLines.length) :
    termCells termStr termRow padLines = some (termLineCells termStr termRow padLines) := by
  induction termRow, padLines using termCells.induct termStr with
  | case1 => rfl
  | case2 terms padLines ih =>
    have h' : ∀ i, terms[i]? = some false → i < padLines.tail.length := fun i hi => by
      have := h (i + 1) (by simpa using hi)
      rw [List.length_tail]
      omega
    rw [termCells, termLineCells, ih h']
    rfl
  | case3 terms pad padLines ih =>
    rw [termCells, termLineCells, ih fun i hi => by simpa using h (i + 1) (by simpa using hi)]
    rfl
  | case4 => exact absurd (h 0 (by simp)) (Nat.lt_irrefl 0)

theorem drawLines_append (gs hs ms : List (List Char)) :
    drawLines (gs ++ hs) ms =
      ((drawLines gs ms).1 ++ (drawLines hs (drawLines gs ms).2).1,
        (drawLines hs (drawLines gs ms).2).2) := by
  induction gs generalizing ms with
  | nil => rfl
  | cons g gs ih => simp [drawLines, ih]

theorem unlines_range_getD (g : List Char → List Char) (ms : List (List Char)) :
    unlines ((List.range ms.length).map fun k => g (ms.getD k [])) =
      ms.flatMap fun msg => g msg ++ ['\n'] := by
  induction ms with
  | nil => rfl
  | cons m ms ih =>
    simp only [List.length_cons, List.range_succ_eq_map, List.map_cons, List.map_map,
      Function.comp_def, List.getD_cons_zero, List.getD_cons_succ, List.flatMap_cons, unlines] at ih ⊢
    rw [ih]

/-- Lines drawn in turn, then a pad line for every message line left, are line `k` the
    `k`-th of the lines drawn (the pad line past the last) with the `k`-th message line. -/
theorem drawLines_pad (base : List Char) (gs ms : List (List Char)) :
    (drawLines gs ms).1 ++
        (drawLines gs ms).2.flatMap (fun msg => trimEnd (base ++ ' ' :: msg) ++ ['\n']) =
      unlines ((List.range (max gs.length ms.length)).map
        fun k => trimEnd (gs.getD k base ++ ' ' :: ms.getD k [])) := by
  induction gs generalizing ms with
  | nil =>
    simp only [drawLines, List.nil_append, List.length_nil, Nat.zero_max, List.getD_nil]
    exact (unlines_range_getD (fun msg => trimEnd (base ++ ' ' :: msg)) ms).symm
  | cons g gs ih =>
    cases ms with
    | nil =>
      have := ih []
      simp only [List.length_nil, Nat.max_zero] at this
      simp only [drawLines, drawLine, List.length_cons, List.length_nil, Nat.max_zero,
        List.range_succ_eq_map, List.map_cons, List.map_map, Function.comp_def,
        List.getD_cons_zero, List.getD_cons_succ, List.getD_nil, unlines, List.flatMap_cons,
        List.append_assoc, trimEnd_append_space, this]
    | cons m ms =>
      simp only [drawLines, drawLine, List.length_cons, Nat.succ_max_succ,
        List.range_succ_eq_map, List.map_cons, List.map_map, Function.comp_def,
        List.getD_cons_zero, List.getD_cons_succ, unlines, List.flatMap_cons,
        List.append_assoc, ih ms]

theorem drawLines_snd (gs ms : List (List Char)) : (drawLines gs ms).2 = ms.drop gs.length := by
  induction gs generalizing ms with
  | nil => rfl
  | cons g gs ih => cases ms <;> simp [drawLines, drawLine, ih]

theorem drawLinkLine_eq (f : LinkFlags) (linkLine : Option (List ℕ)) (ms : List (List Char)) :
    drawLinkLine f linkLine ms =
      drawLines (linkLine.map fun linkRow => linkRow.flatMap fun cur => (linkCell f cur).toList).toList
        ms := by
  cases linkLine <;> simp [drawLinkLine, drawLines]

theorem drawTermLines_eq {termLine : Option (List Bool)} {padLines : List PadLine}
    (hterm : ∀ termRow ∈ termLine, ∀ i, termRow[i]? = some false → i < padLines.length)
    (ms : List (List Char)) :
    drawTermLines termLine padLines ms =
      some ((drawLines ((termLine.map fun termRow => [termLineCells "│ " termRow padLines,
          termLineCells "~ " termRow padLines]).getD []) ms).1,
        (drawLines ((termLine.map fun termRow => [termLineCells "│ " termRow padLines,
          termLineCells "~ " termRow padLines]).getD []) ms).2, termLine.isSome) := by
  cases termLine with
  | none => rfl
  | some termRow =>
    have h := hterm termRow rfl
    simp [drawTermLines, termCells_eq _ h, drawLines]

/-- `next_row` draws the structural lines in turn, then a pad line for every message line
    left; it leaves its base pad line when it has a term line and no message line is left. -/
theorem nextRow_eq_drawLines (f : LinkFlags) (r : BoxDrawingRenderer) (line : GraphRow)
    (hterm : TermLineFits line) :
    nextRow f r line =
      some (drawExtraPadLine r.extraPadLine ++
          (drawLines (structuralLines f line) (padUsing r.minRowHeight (lines line.message.toList))).1 ++
          (drawLines (structuralLines f line)
            (padUsing r.minRowHeight (lines line.message.toList))).2.flatMap
            (fun msg => trimEnd (basePadLine line ++ ' ' :: msg) ++ ['\n']),
        ⟨r.minRowHeight, if line.termLine.isSome && (drawLines (structuralLines f line)
            (padUsing r.minRowHeight (lines line.message.toList))).2.isEmpty
          then some (basePadLine line) else none⟩) := by
  simp only [nextRow, drawLinkLine_eq, drawTermLines_eq hterm, structuralLines, drawLines,
    drawLines_append, List.append_assoc, Option.pure_def, Option.bind_eq_bind, Option.some_bind]

/-- On a row whose term line fits its pad lines, `next_row` does not panic: it returns the
    pending pad line, then the lines of the row, and leaves its base pad line when it has a
    term line and no message line left after the `~` line. -/
theorem nextRow_eq (f : LinkFlags) (r : BoxDrawingRenderer) (line : GraphRow)
    (hterm : TermLineFits line) :
    nextRow f r line =
      some (drawExtraPadLine r.extraPadLine ++ unlines (rowLines f r.minRowHeight line),
        ⟨r.minRowHeight,
          if leavesPadLine f r.minRowHeight line then some (basePadLine line) else none⟩) := by
  rw [nextRow_eq_drawLines f r line hterm, List.append_assoc, drawLines_pad, drawLines_snd]
  simp only [rowLines, length_padUsing, getD_padUsing, messageHeight, leavesPadLine,
    Bool.and_eq_true, List.isEmpty_iff, List.drop_eq_nil_iff, decide_eq_true_eq]

/-- The cells of a term line panic exactly at a column not terminated and without a pad
    line. -/
theorem termCells_eq_none_iff (termStr : String) (termRow : List Bool) (padLines : List PadLine) :
    termCells termStr termRow padLines = none ↔
      ∃ i, termRow[i]? = some false ∧ padLines.length ≤ i := by
  induction termRow, padLines using termCells.induct termStr with
  | case1 => simp [termCells]
  | case2 terms padLines ih =>
    rw [termCells, Option.map_eq_none', ih]
    conv_rhs => rw [← Nat.or_exists_add_one]
    simp only [List.getElem?_cons_zero, List.getElem?_cons_succ, List.length_tail,
      Option.some.injEq, Bool.true_eq_false, false_and, false_or]
    exact exists_congr fun i => and_congr_right' (by omega)
  | case3 terms pad padLines ih =>
    rw [termCells, Option.map_eq_none', ih]
    conv_rhs => rw [← Nat.or_exists_add_one]
    simp
  | case4 => exact iff_of_true rfl ⟨0, by simp, le_refl _⟩

/-- `next_row` panics exactly on a row with a term line that has a column not terminated
    and without a pad line (`line.pad_lines[i]` out of bounds). -/
theorem nextRow_eq_none_iff (f : LinkFlags) (r : BoxDrawingRenderer) (line : GraphRow) :
    nextRow f r line = none ↔
      ∃ termRow ∈ line.termLine, ∃ i, termRow[i]? = some false ∧ line.padLines.length ≤ i := by
  rcases hterm : line.termLine with _ | termRow
  · simp [nextRow, drawTermLines, hterm]
  · have hbar := termCells_eq_none_iff "│ " termRow line.padLines
    have htilde := termCells_eq_none_iff "~ " termRow line.padLines
    simp only [nextRow, drawTermLines, hterm, Option.pure_def, Option.bind_eq_bind]
    rcases h : termCells "│ " termRow line.padLines with _ | bar
    · simpa [h] using hbar
    · rcases h' : termCells "~ " termRow line.padLines with _ | tilde
      · simpa [h'] using htilde
      · simp_all

/-- Flags of one bit each, `ANY_FORK` and `ANY_MERGE` the forks and the merges of both
    sides. -/
def sampleFlags : LinkFlags :=
  ⟨1, 2, 4, 8, 16, 32, 64, 8 ||| 16, 32 ||| 64, 128⟩

/-! ## Cells of two characters -/

/-- A cell of the renderer: two characters, neither a newline. -/
def IsCell (s : String) : Prop :=
  s.length = 2 ∧ '\n' ∉ s.toList

instance instDecidableIsCell (s : String) : Decidable (IsCell s) :=
  inferInstanceAs (Decidable (_ ∧ _))

theorem IsCell.ite {c : Prop} [Decidable c] {a b : String} (ha : IsCell a) (hb : IsCell b) :
    IsCell (if c then a else b) := by
  split <;> assumption

/-- With a glyph of one character other than a newline, every cell of the node line is a
    cell. -/
theorem isCell_nodeCell {glyph : String} {c : Char} (hglyph : glyph.toList = [c]) (hc : c ≠ '\n')
    (entry : NodeLine) : IsCell (nodeCell glyph entry) := by
  cases entry
  · obtain ⟨data⟩ := glyph
    cases hglyph
    exact ⟨rfl, by simpa [nodeCell] using hc.symm⟩
  all_goals simp only [nodeCell]; decide

theorem newline_not_mem_nodeCell {glyph : String} (hglyph : '\n' ∉ glyph.toList)
    (entry : NodeLine) : '\n' ∉ (nodeCell glyph entry).toList := by
  cases entry
  · simpa [nodeCell] using hglyph
  all_goals simp only [nodeCell]; decide

theorem isCell_padCell (pad : PadLine) : IsCell (padCell pad) := by
  cases pad <;> decide

theorem isCell_linkCell (f : LinkFlags) (cur : ℕ) : IsCell (linkCell f cur) := by
  unfold linkCell
  repeat' first | decide | apply IsCell.ite | split

/-- A term line that fits its pad lines has a cell for each of its columns. -/
theorem length_termLineCells {termStr : String} (htermStr : IsCell termStr)
    {termRow : List Bool} {padLines : List PadLine}
    (h : ∀ i, termRow[i]? = some false → i < padLines.length) :
    (termLineCells termStr termRow padLines).length = 2 * termRow.length := by
  induction termRow, padLines using termCells.induct termStr with
  | case1 => rfl
  | case2 terms padLines ih =>
    have h' : ∀ i, terms[i]? = some false → i < padLines.tail.length := fun i hi => by
      have := h (i + 1) (by simpa using hi)
      rw [List.length_tail]
      omega
    have hcell : termStr.toList.length = 2 := htermStr.1
    rw [termLineCells, List.length_append, ih h', List.length_cons, hcell]
    ring
  | case3 terms pad padLines ih =>
    have hcell : (padCell pad).toList.length = 2 := (isCell_padCell pad).1
    rw [termLineCells, List.length_append, hcell,
      ih fun i hi => by simpa using h (i + 1) (by simpa using hi), List.length_cons]
    ring
  | case4 => exact absurd (h 0 (by simp)) (Nat.lt_irrefl 0)

theorem newline_not_mem_termLineCells {termStr : String} (htermStr : IsCell termStr)
    (termRow : List Bool) (padLines : List PadLine) :
    '\n' ∉ termLineCells termStr termRow padLines := by
  induction termRow, padLines using termCells.induct termStr with
  | case1 => nofun
  | case2 terms padLines ih =>
    simp only [termLineCells, List.mem_append, not_or]
    exact ⟨htermStr.2, ih⟩
  | case3 terms pad padLines ih =>
    simp only [termLineCells, List.mem_append, not_or]
    exact ⟨(isCell_padCell pad).2, ih⟩
  | case4 => nofun

/-- What the cells of a term line give, when they do not panic, is the term line drawn. -/
theorem termCells_eq_some {termStr : String} {termRow : List Bool} {padLines : List PadLine}
    {cells : List Char} (h : termCells termStr termRow padLines = some cells) :
    cells = termLineCells termStr termRow padLines := by
  induction termRow, padLines using termCells.induct termStr generalizing cells with
  | case1 => exact (Option.some.inj h).symm
  | case2 terms padLines ih =>
    obtain ⟨cells', h', rfl⟩ := Option.map_eq_some'.1 h
    rw [termLineCells, ih h']
  | case3 terms pad padLines ih =>
    obtain ⟨cells', h', rfl⟩ := Option.map_eq_some'.1 h
    rw [termLineCells, ih h']
  | case4 => cases h

theorem newline_not_mem_cells {α : Type} {xs : List α} {cell : α → String}
    (h : ∀ x, '\n' ∉ (cell x).toList) : '\n' ∉ xs.flatMap fun x => (cell x).toList := by
  simp only [List.mem_flatMap, not_exists, not_and]
  exact fun x _ => h x

/-- With a glyph of one character other than a newline, no structural line of a row holds a
    newline. -/
theorem newline_not_mem_structuralLines (f : LinkFlags) {line : GraphRow} {c : Char}
    (hglyph : line.glyph.toList = [c]) (hc : c ≠ '\n') : ∀ g ∈ structuralLines f line, '\n' ∉ g := by
  intro g hg
  rw [structuralLines, List.mem_cons, List.mem_append] at hg
  rcases hg with rfl | hg | hg
  · exact newline_not_mem_cells fun entry => (isCell_nodeCell hglyph hc entry).2
  · rcases hlink : line.linkLine with _ | linkRow <;>
      simp only [hlink, Option.map_none', Option.map_some', Option.toList_none, Option.toList_some,
        List.mem_singleton, List.not_mem_nil] at hg
    rw [hg]
    exact newline_not_mem_cells fun cur => (isCell_linkCell f cur).2
  · rcases hterm : line.termLine with _ | termRow <;>
      simp only [hterm, Option.map_none', Option.map_some', Option.getD_none, Option.getD_some,
        List.mem_cons, List.mem_singleton, List.not_mem_nil, or_false] at hg
    rcases hg with rfl | rfl <;> exact newline_not_mem_termLineCells (by decide) _ _

/-- With a glyph of one character other than a newline, no line of a row holds a newline. -/
theorem newline_not_mem_rowLines (f : LinkFlags) (minRowHeight : ℕ) {line : GraphRow} {c : Char}
    (hglyph : line.glyph.toList = [c]) (hc : c ≠ '\n') :
    ∀ l ∈ rowLines f minRowHeight line, '\n' ∉ l := by
  simp only [rowLines, List.mem_map, List.mem_range]
  rintro _ ⟨k, -, rfl⟩
  refine newline_not_mem_trimEnd ?_
  simp only [List.mem_append, List.mem_cons, not_or]
  refine ⟨?_, by decide, ?_⟩
  · rcases getD_mem_or_eq (structuralLines f line) k (basePadLine line) with h | h
    · exact newline_not_mem_structuralLines f hglyph hc _ h
    · rw [h]
      exact newline_not_mem_cells fun pad => (isCell_padCell pad).2
  · rcases getD_mem_or_eq (lines line.message.toList) k [] with h | h
    · exact newline_not_mem_of_mem_lines h
    · rw [h]
      nofun

/-- On a row whose term line fits its pad lines and whose glyph is one character other than
    a newline, `next_row` does not panic: after the pending pad line it draws exactly `max S M`
    lines, none holding a newline, line `k` the `k`-th structural line (the base pad line past
    the last), `" "` and the `k`-th message line (empty past the last), trimmed. Every cell of
    a structural line has two characters. -/
theorem nextRow_lines (f : LinkFlags) (r : BoxDrawingRenderer) (line : GraphRow)
    (hterm : TermLineFits line) {c : Char} (hglyph : line.glyph.toList = [c]) (hc : c ≠ '\n') :
    (∃ r', nextRow f r line =
      some (drawExtraPadLine r.extraPadLine ++ unlines (rowLines f r.minRowHeight line), r')) ∧
      (rowLines f r.minRowHeight line).length =
        max (1 + (if line.linkLine.isSome then 1 else 0) + 2 * (if line.termLine.isSome then 1 else 0))
          (max (lines line.message.toList).length r.minRowHeight) ∧
      (∀ l ∈ rowLines f r.minRowHeight line, '\n' ∉ l) ∧
      (∀ entry, IsCell (nodeCell line.glyph entry)) ∧ (∀ pad, IsCell (padCell pad)) ∧
      (∀ cur, IsCell (linkCell f cur)) ∧
      ∀ termRow ∈ line.termLine, (termLineCells "│ " termRow line.padLines).length = 2 * termRow.length ∧
        (termLineCells "~ " termRow line.padLines).length = 2 * termRow.length := by
  refine ⟨⟨_, nextRow_eq f r line hterm⟩, ?_, newline_not_mem_rowLines f _ hglyph hc,
    isCell_nodeCell hglyph hc, isCell_padCell, isCell_linkCell f, fun termRow hrow =>
      ⟨length_termLineCells (by decide) (hterm termRow hrow),
        length_termLineCells (by decide) (hterm termRow hrow)⟩⟩
  rw [rowLines, List.length_map, List.length_range, length_structuralLines, messageHeight]

/-- A row whose glyph holds a newline: it draws a line more than `max S M`. -/
def newlineGlyphRow : GraphRow :=
  ⟨"a\nb", "", [.node], none, none, []⟩

theorem nextRow_newline_glyph :
    (nextRow sampleFlags ⟨0, none⟩ newlineGlyphRow).map (fun out => out.1.count '\n') = some 2 ∧
      max (1 + (if newlineGlyphRow.linkLine.isSome then 1 else 0) +
          2 * (if newlineGlyphRow.termLine.isSome then 1 else 0))
        (max (lines newlineGlyphRow.message.toList).length 0) = 1 ∧
      (nodeCell "@@" .node).length = 3 :=
  ⟨rfl, rfl, rfl⟩

/-- A commit with a two-line message, terminated below: the `│` and `~` lines draw no message
    line, and the row leaves its pad line to the next. -/
def terminatedRow : GraphRow :=
  ⟨"o", "fix\nbody", [.node], none, some [true], [.blank]⟩

theorem nextRow_lines_terminatedRow :
    TermLineFits terminatedRow ∧ terminatedRow.glyph.toList = ['o'] ∧ 'o' ≠ '\n' ∧
      (∃ r', nextRow sampleFlags ⟨0, none⟩ terminatedRow =
        some (drawExtraPadLine none ++ unlines (rowLines sampleFlags 0 terminatedRow), r')) ∧
      (rowLines sampleFlags 0 terminatedRow).length =
        max (1 + (if terminatedRow.linkLine.isSome then 1 else 0) +
            2 * (if terminatedRow.termLine.isSome then 1 else 0))
          (max (lines terminatedRow.message.toList).length 0) ∧
      (∀ l ∈ rowLines sampleFlags 0 terminatedRow, '\n' ∉ l) ∧
      (∀ entry, IsCell (nodeCell terminatedRow.glyph entry)) ∧ (∀ pad, IsCell (padCell pad)) ∧
      (∀ cur, IsCell (linkCell sampleFlags cur)) ∧
      ∀ termRow ∈ terminatedRow.termLine,
        (termLineCells "│ " termRow terminatedRow.padLines).length = 2 * termRow.length ∧
          (termLineCells "~ " termRow terminatedRow.padLines).length = 2 * termRow.length :=
  have hterm : TermLineFits terminatedRow := termLineFits_of_length_le (by simp [terminatedRow])
  have hglyph : terminatedRow.glyph.toList = ['o'] := rfl
  ⟨hterm, hglyph, by decide, nextRow_lines sampleFlags ⟨0, none⟩ terminatedRow hterm hglyph (by decide)⟩

/-- The row drawn: the node line and the `│` term line take the two message lines, the `~`
    line none. -/
example (f : LinkFlags) :
    (nextRow f ⟨0, none⟩ terminatedRow).map Prod.fst = some "o  fix\n│  body\n~\n".toList := by
  rfl

end Eden.RenderDag
