import Eden.RenderDag.BoxDrawing

/-!
# Rows in turn

One `BoxDrawingRenderer` draws the rows of a graph one after another, carrying
`extra_pad_line` from each row to the next (`nextRows`). On rows whose term lines fit their
pad lines (`TermLineFits`, the rows on which `next_row` does not panic):

* `nextRows_eq`: the text of the first row is its lines, and that of every later row the
  extra line of the row before it, if that row leaves one, then its own lines;
* `nextRows_separated`: after the `~` line of a row with a term line, lines drawn with its
  base pad line come before the next row: the message lines left, or else the extra line.

On any rows whose glyphs hold no newline, from any renderer whose pending line holds none:

* `nextRows_trimmedLines`: the text of every row is printed lines, each trimmed by `trim_end`
  and ended by a newline, so that no printed line ends in whitespace.
-/

namespace Eden.RenderDag

variable (f : LinkFlags)

/-- `next_row` on each row in turn, from the renderer `r`: the text of every row, or `none` at
    a panic. -/
def nextRows (r : BoxDrawingRenderer) : List GraphRow → Option (List (List Char))
  | [] => some []
  | line :: rows => (nextRow f r line).bind fun (out, r') => (nextRows r' rows).map (out :: ·)

/-- The extra line a row leaves to the next: its base pad line, trimmed, if it leaves it. -/
def extraLines (minRowHeight : ℕ) (line : GraphRow) : List (List Char) :=
  if leavesPadLine f minRowHeight line then [trimEnd (basePadLine line)] else []

/-- The text of each row in turn, after `pending` before the first: the pending line, then
    the lines of the row. -/
def rowOutputs (minRowHeight : ℕ) (pending : List Char) : List GraphRow → List (List Char)
  | [] => []
  | line :: rows => (pending ++ unlines (rowLines f minRowHeight line)) ::
      rowOutputs minRowHeight (unlines (extraLines f minRowHeight line)) rows

/-- The pad line a row leaves is drawn as its extra line. -/
theorem drawExtraPadLine_leaves (minRowHeight : ℕ) (line : GraphRow) :
    drawExtraPadLine (if leavesPadLine f minRowHeight line then some (basePadLine line) else none) =
      unlines (extraLines f minRowHeight line) := by
  unfold extraLines
  split <;> simp [drawExtraPadLine, unlines]

/-- The run of `next_row` over rows whose term lines fit their pad lines. -/
theorem nextRows_eq_rowOutputs (r : BoxDrawingRenderer) (rows : List GraphRow)
    (hrows : ∀ line ∈ rows, TermLineFits line) :
    nextRows f r rows = some (rowOutputs f r.minRowHeight (drawExtraPadLine r.extraPadLine) rows) := by
  induction rows generalizing r with
  | nil => rfl
  | cons line rows ih =>
    have hline := hrows line (List.mem_cons_self _ _)
    have hrest := fun l hl => hrows l (List.mem_cons_of_mem _ hl)
    simp only [nextRows, nextRow_eq f r line hline, Option.some_bind, ih _ hrest, Option.map_some',
      rowOutputs, drawExtraPadLine_leaves]

theorem length_rowOutputs (minRowHeight : ℕ) (pending : List Char) (rows : List GraphRow) :
    (rowOutputs f minRowHeight pending rows).length = rows.length := by
  induction rows generalizing pending <;> simp [rowOutputs, *]

theorem getD_rowOutputs_succ (minRowHeight : ℕ) (pending : List Char) (rows : List GraphRow)
    (i : ℕ) (hi : i + 1 < rows.length) :
    (rowOutputs f minRowHeight pending rows).getD (i + 1) [] =
      unlines (extraLines f minRowHeight (rows.getD i default) ++
        rowLines f minRowHeight (rows.getD (i + 1) default)) := by
  induction rows generalizing pending i with
  | nil => simp at hi
  | cons line rows ih =>
    cases rows with
    | nil => simp at hi
    | cons next rows =>
      cases i with
      | zero => simp [rowOutputs, unlines]
      | succ i =>
        rw [rowOutputs, List.getD_cons_succ, ih _ _ (by simpa using hi)]
        simp only [List.getD_cons_succ]

/-- From a new renderer, the text of the first row is its lines, and that of every later row
    the extra line of the row before it, if that row leaves one, then its own lines. -/
theorem nextRows_eq (minRowHeight : ℕ) (rows : List GraphRow)
    (hrows : ∀ line ∈ rows, TermLineFits line) :
    ∃ outs, nextRows f ⟨minRowHeight, none⟩ rows = some outs ∧ outs.length = rows.length ∧
      (∀ line ∈ rows.head?, outs.head? = some (unlines (rowLines f minRowHeight line))) ∧
      ∀ i, i + 1 < rows.length →
        outs.getD (i + 1) [] = unlines (extraLines f minRowHeight (rows.getD i default) ++
          rowLines f minRowHeight (rows.getD (i + 1) default)) := by
  refine ⟨_, nextRows_eq_rowOutputs f _ rows hrows, length_rowOutputs f _ _ rows, ?_,
    getD_rowOutputs_succ f _ _ rows⟩
  intro line hline
  cases rows with
  | nil => cases hline
  | cons first rows =>
    cases hline
    simp only [rowOutputs, drawExtraPadLine, List.nil_append, List.head?_cons]

/-- The lines of a row past its structural lines are drawn with its base pad line. -/
theorem mem_rowLines_drop {minRowHeight : ℕ} {line : GraphRow} {l : List Char}
    (hl : l ∈ (rowLines f minRowHeight line).drop (structuralLines f line).length) :
    ∃ msg, l = trimEnd (basePadLine line ++ ' ' :: msg) := by
  rw [rowLines, ← List.map_drop, List.mem_map] at hl
  obtain ⟨k, hk, rfl⟩ := hl
  have hS : (structuralLines f line).length ≤ k := by
    rw [List.mem_iff_getElem] at hk
    obtain ⟨i, hi, rfl⟩ := hk
    simp
  exact ⟨_, by rw [List.getD_eq_default _ _ hS]⟩

/-- After the `~` line of a row with a term line come lines drawn with its base pad line,
    at least one: the lines of the row left, or else the extra line it leaves. -/
theorem rowLines_drop_extraLines (minRowHeight : ℕ) (line : GraphRow)
    (hterm : line.termLine.isSome) :
    (rowLines f minRowHeight line).drop (structuralLines f line).length ++
        extraLines f minRowHeight line ≠ [] ∧
      ∀ l ∈ (rowLines f minRowHeight line).drop (structuralLines f line).length ++
          extraLines f minRowHeight line,
        ∃ msg, l = trimEnd (basePadLine line ++ ' ' :: msg) := by
  constructor
  · by_cases hleft : messageHeight minRowHeight line ≤ (structuralLines f line).length
    · have hleaves : leavesPadLine f minRowHeight line := by simp [leavesPadLine, hterm, hleft]
      simp [extraLines, hleaves]
    · simp [rowLines]
      omega
  · intro l hl
    rcases List.mem_append.1 hl with hl | hl
    · exact mem_rowLines_drop f hl
    · unfold extraLines at hl
      split at hl
      · exact ⟨[], by rw [List.eq_of_mem_singleton hl, ← trimEnd_append_space]⟩
      · cases hl

/-- From a new renderer: the text of the first row is its lines, and that of every later row
    the extra line of the row before it, if that row leaves one, then its own lines; and after
    the `~` line of a row with a term line, lines drawn with its base pad line, at least one,
    come before the next row. -/
theorem nextRows_separated (minRowHeight : ℕ) (rows : List GraphRow)
    (hrows : ∀ line ∈ rows, TermLineFits line) :
    (∃ outs, nextRows f ⟨minRowHeight, none⟩ rows = some outs ∧ outs.length = rows.length ∧
      (∀ line ∈ rows.head?, outs.head? = some (unlines (rowLines f minRowHeight line))) ∧
      ∀ i, i + 1 < rows.length →
        outs.getD (i + 1) [] = unlines (extraLines f minRowHeight (rows.getD i default) ++
          rowLines f minRowHeight (rows.getD (i + 1) default))) ∧
      ∀ i, i + 1 < rows.length → (rows.getD i default).termLine.isSome →
        (rowLines f minRowHeight (rows.getD i default)).drop
            (structuralLines f (rows.getD i default)).length ++
          extraLines f minRowHeight (rows.getD i default) ≠ [] ∧
        ∀ l ∈ (rowLines f minRowHeight (rows.getD i default)).drop
              (structuralLines f (rows.getD i default)).length ++
            extraLines f minRowHeight (rows.getD i default),
          ∃ msg, l = trimEnd (basePadLine (rows.getD i default) ++ ' ' :: msg) :=
  ⟨nextRows_eq f minRowHeight rows hrows,
    fun _ _ hterm => rowLines_drop_extraLines f minRowHeight _ hterm⟩

/-- Two terminated rows, one after the other. -/
def terminatedRows : List GraphRow := [terminatedRow, terminatedRow]

theorem nextRows_separated_terminatedRows :
    (∀ line ∈ terminatedRows, TermLineFits line) ∧
      ((∃ outs, nextRows sampleFlags ⟨0, none⟩ terminatedRows = some outs ∧
        outs.length = terminatedRows.length ∧
        (∀ line ∈ terminatedRows.head?, outs.head? = some (unlines (rowLines sampleFlags 0 line))) ∧
        ∀ i, i + 1 < terminatedRows.length →
          outs.getD (i + 1) [] = unlines (extraLines sampleFlags 0 (terminatedRows.getD i default) ++
            rowLines sampleFlags 0 (terminatedRows.getD (i + 1) default))) ∧
        ∀ i, i + 1 < terminatedRows.length → (terminatedRows.getD i default).termLine.isSome →
          (rowLines sampleFlags 0 (terminatedRows.getD i default)).drop
              (structuralLines sampleFlags (terminatedRows.getD i default)).length ++
            extraLines sampleFlags 0 (terminatedRows.getD i default) ≠ [] ∧
          ∀ l ∈ (rowLines sampleFlags 0 (terminatedRows.getD i default)).drop
                (structuralLines sampleFlags (terminatedRows.getD i default)).length ++
              extraLines sampleFlags 0 (terminatedRows.getD i default),
            ∃ msg, l = trimEnd (basePadLine (terminatedRows.getD i default) ++ ' ' :: msg)) :=
  have hrow : TermLineFits terminatedRow := termLineFits_of_length_le (by simp [terminatedRow])
  have hrows : ∀ line ∈ terminatedRows, TermLineFits line := fun line hline => by
    simp only [terminatedRows, List.mem_cons, List.mem_singleton, List.not_mem_nil, or_false,
      or_self] at hline
    exact hline ▸ hrow
  ⟨hrows, nextRows_separated sampleFlags 0 terminatedRows hrows⟩

/-! ## Trimmed lines -/

/-- Text made of lines, each trimmed, holding no newline and ended by one: the lines a terminal
    prints. -/
def TrimmedLines (out : List Char) : Prop :=
  ∃ ls, out = unlines ls ∧ ∀ l ∈ ls, Trimmed l ∧ '\n' ∉ l

theorem trimmedLines_nil : TrimmedLines [] := ⟨[], rfl, nofun⟩

theorem trimmedLines_append {a b : List Char} (ha : TrimmedLines a) (hb : TrimmedLines b) :
    TrimmedLines (a ++ b) := by
  obtain ⟨as, rfl, has⟩ := ha
  obtain ⟨bs, rfl, hbs⟩ := hb
  exact ⟨as ++ bs, by simp [unlines], fun l hl => (List.mem_append.1 hl).elim (has l) (hbs l)⟩

theorem trimmedLines_trimEnd {s : List Char} (hs : '\n' ∉ s) : TrimmedLines (trimEnd s ++ ['\n']) :=
  ⟨[trimEnd s], by simp [unlines], by simpa using ⟨trimmed_trimEnd s, newline_not_mem_trimEnd hs⟩⟩

theorem trimmedLines_flatMap {α : Type} {xs : List α} {g : α → List Char}
    (h : ∀ x ∈ xs, TrimmedLines (g x)) : TrimmedLines (xs.flatMap g) := by
  induction xs with
  | nil => exact trimmedLines_nil
  | cons x xs ih =>
    rw [List.flatMap_cons]
    exact trimmedLines_append (h x (.head _)) (ih fun y hy => h y (.tail _ hy))

/-- Message lines that hold no newline. -/
def NoNewlines (ms : List (List Char)) : Prop :=
  ∀ m ∈ ms, '\n' ∉ m

theorem noNewlines_padUsing (n : ℕ) (s : List Char) : NoNewlines (padUsing n (lines s)) := by
  intro m hm
  rcases List.mem_append.1 hm with hm | hm
  · exact newline_not_mem_of_mem_lines hm
  · rw [List.eq_of_mem_replicate hm]
    nofun

theorem newline_not_mem_line {cells msg : List Char} (hcells : '\n' ∉ cells) (hmsg : '\n' ∉ msg) :
    '\n' ∉ cells ++ ' ' :: msg := by
  simp only [List.mem_append, List.mem_cons, not_or]
  exact ⟨hcells, by decide, hmsg⟩

/-- A line drawn from cells and message lines without newlines is a printed line, and leaves
    message lines without newlines. -/
theorem trimmedLines_drawLine {cells : List Char} (hcells : '\n' ∉ cells) {ms : List (List Char)}
    (hms : NoNewlines ms) : TrimmedLines (drawLine cells ms).1 ∧ NoNewlines (drawLine cells ms).2 := by
  cases ms with
  | nil => exact ⟨trimmedLines_trimEnd hcells, nofun⟩
  | cons m ms =>
    exact ⟨trimmedLines_trimEnd (newline_not_mem_line hcells (hms m (.head _))),
      fun m' hm' => hms m' (.tail _ hm')⟩

theorem trimmedLines_drawLinkLine (linkLine : Option (List ℕ)) {ms : List (List Char)}
    (hms : NoNewlines ms) :
    TrimmedLines (drawLinkLine f linkLine ms).1 ∧ NoNewlines (drawLinkLine f linkLine ms).2 := by
  cases linkLine with
  | none => exact ⟨trimmedLines_nil, hms⟩
  | some linkRow =>
    exact trimmedLines_drawLine (newline_not_mem_cells fun cur => (isCell_linkCell f cur).2) hms

theorem trimmedLines_drawTermLines {termLine : Option (List Bool)} {padLines : List PadLine}
    {ms ms' : List (List Char)} (hms : NoNewlines ms) {out : List Char} {drawn : Bool}
    (h : drawTermLines termLine padLines ms = some (out, ms', drawn)) :
    TrimmedLines out ∧ NoNewlines ms' := by
  cases termLine with
  | none =>
    cases h
    exact ⟨trimmedLines_nil, hms⟩
  | some termRow =>
    simp only [drawTermLines, Option.bind_eq_bind, Option.bind_eq_some, Option.pure_def,
      Option.some.injEq] at h
    obtain ⟨bar, hbar, tilde, htilde, h⟩ := h
    cases h
    have hbar' := trimmedLines_drawLine
      (termCells_eq_some hbar ▸ newline_not_mem_termLineCells (by decide) termRow padLines) hms
    have htilde' := trimmedLines_drawLine
      (termCells_eq_some htilde ▸ newline_not_mem_termLineCells (by decide) termRow padLines) hbar'.2
    exact ⟨trimmedLines_append hbar'.1 htilde'.1, htilde'.2⟩

/-- One row whose glyph holds no newline, after a pending line that holds none: every line
    `next_row` draws is a printed line, trimmed, and the line it leaves holds no newline. -/
theorem nextRow_trimmedLines {r r' : BoxDrawingRenderer} {line : GraphRow} {out : List Char}
    (hglyph : '\n' ∉ line.glyph.toList) (hpending : ∀ p ∈ r.extraPadLine, '\n' ∉ p)
    (h : nextRow f r line = some (out, r')) :
    TrimmedLines out ∧ ∀ p ∈ r'.extraPadLine, '\n' ∉ p := by
  simp only [nextRow, Option.bind_eq_bind, Option.bind_eq_some, Option.pure_def,
    Option.some.injEq] at h
  obtain ⟨⟨termOut, ms, drawn⟩, hterm, h⟩ := h
  cases h
  have hcells : '\n' ∉ line.nodeLine.flatMap fun entry => (nodeCell line.glyph entry).toList :=
    newline_not_mem_cells (newline_not_mem_nodeCell hglyph)
  have hnode := trimmedLines_drawLine hcells (noNewlines_padUsing r.minRowHeight line.message.toList)
  have hlink := trimmedLines_drawLinkLine f line.linkLine hnode.2
  have hterm' := trimmedLines_drawTermLines hlink.2 hterm
  have hbase : '\n' ∉ basePadLine line := newline_not_mem_cells fun pad => (isCell_padCell pad).2
  refine ⟨trimmedLines_append (trimmedLines_append (trimmedLines_append (trimmedLines_append ?_
    hnode.1) hlink.1) hterm'.1) (trimmedLines_flatMap fun m hm =>
      trimmedLines_trimEnd (newline_not_mem_line hbase (hterm'.2 m hm))), ?_⟩
  · cases hp : r.extraPadLine with
    | none => exact trimmedLines_nil
    | some p => exact trimmedLines_trimEnd (hpending p hp)
  · intro p hp
    split at hp
    · cases hp
      exact hbase
    · cases hp

/-- Every run of rows whose glyphs hold no newline, from a renderer whose pending line holds
    none: every line of the text of every row is a printed line, trimmed by `trim_end` and ended
    by a newline, so that no printed line ends in whitespace. -/
theorem nextRows_trimmedLines {r : BoxDrawingRenderer} {rows : List GraphRow}
    (hglyphs : ∀ line ∈ rows, '\n' ∉ line.glyph.toList) (hpending : ∀ p ∈ r.extraPadLine, '\n' ∉ p)
    {outs : List (List Char)} (h : nextRows f r rows = some outs) :
    ∀ out ∈ outs, TrimmedLines out := by
  induction rows generalizing r outs with
  | nil =>
    cases h
    nofun
  | cons line rows ih =>
    simp only [nextRows, Option.bind_eq_some, Option.map_eq_some'] at h
    obtain ⟨⟨out, r'⟩, hrow, outs', hrows, rfl⟩ := h
    have hline := nextRow_trimmedLines f (hglyphs line (.head _)) hpending hrow
    rintro o (_ | ⟨_, ho⟩)
    · exact hline.1
    · exact ih (fun l hl => hglyphs l (.tail _ hl)) hline.2 hrows o ho

theorem nextRows_trimmedLines_terminatedRows :
    (∀ line ∈ terminatedRows, '\n' ∉ line.glyph.toList) ∧
      (∀ p ∈ (⟨0, none⟩ : BoxDrawingRenderer).extraPadLine, '\n' ∉ p) ∧
      nextRows sampleFlags ⟨0, none⟩ terminatedRows =
        some ["o  fix\n│  body\n~\n".toList, "\no  fix\n│  body\n~\n".toList] ∧
      ∀ out ∈ ["o  fix\n│  body\n~\n".toList, "\no  fix\n│  body\n~\n".toList],
        TrimmedLines out :=
  have hglyphs : ∀ line ∈ terminatedRows, '\n' ∉ line.glyph.toList := by
    simp [terminatedRows, terminatedRow]
  have hpending : ∀ p ∈ (⟨0, none⟩ : BoxDrawingRenderer).extraPadLine, '\n' ∉ p := nofun
  have h : nextRows sampleFlags ⟨0, none⟩ terminatedRows =
      some ["o  fix\n│  body\n~\n".toList, "\no  fix\n│  body\n~\n".toList] := rfl
  ⟨hglyphs, hpending, h, nextRows_trimmedLines sampleFlags hglyphs hpending h⟩

end Eden.RenderDag
