import Mathlib

/-!
# Text

The text operations `BoxDrawingRenderer::next_row` uses, on strings as lists of characters:
`str::lines` on the message, `Itertools::pad_using` to `min_row_height` lines, and
`str::trim_end` on every line drawn.

* `trimmed_trimEnd`: a trimmed line ends in no whitespace;
* `trimEnd_append_space`: a line ending in a space trims as the line without it, so a line
  drawn without a message line is the line drawn with the empty one;
* `getD_padUsing`: padding adds only empty lines;
* `newline_not_mem_of_mem_lines`: no line of a message holds a newline, and `trim_end` keeps
  a line free of them (`newline_not_mem_trimEnd`).
-/

namespace Eden.RenderDag

/-- `char::is_whitespace`: the characters of the Unicode `White_Space` property. -/
def isWhitespace (c : Char) : Bool :=
  let n := c.toNat
  (0x9 ≤ n && n ≤ 0xD) || n == 0x20 || n == 0x85 || n == 0xA0 || n == 0x1680 ||
    (0x2000 ≤ n && n ≤ 0x200A) || n == 0x2028 || n == 0x2029 || n == 0x202F || n == 0x205F ||
    n == 0x3000

/-- `str::trim_end`: the string without its trailing whitespace. -/
def trimEnd (s : List Char) : List Char :=
  s.rdropWhile isWhitespace

/-- `str::split_terminator('\n')`: the pieces between newlines, but for an empty last one. -/
def splitTerminator (s : List Char) : List (List Char) :=
  if (s.splitOn '\n').getLast? = some [] then (s.splitOn '\n').dropLast else s.splitOn '\n'

/-- `str::lines`: the pieces of `split_terminator('\n')`, each without a trailing `'\r'`. A
    bare `'\r'` ending the last piece is dropped too, as `str::lines` did before Rust 1.77
    (since then, only a `"\r\n"` is); these sources predate that change. -/
def lines (s : List Char) : List (List Char) :=
  (splitTerminator s).map fun line => if line.getLast? = some '\r' then line.dropLast else line

/-- `Itertools::pad_using(n, |_| "")`: the lines, then empty lines up to `n` of them. -/
def padUsing (n : ℕ) (lines : List (List Char)) : List (List Char) :=
  lines ++ List.replicate (n - lines.length) []

/-- A line that ends in no whitespace. -/
def Trimmed (line : List Char) : Prop :=
  (line.getLast?.all fun c => !isWhitespace c) = true

theorem trimmed_trimEnd (s : List Char) : Trimmed (trimEnd s) := by
  by_cases h : trimEnd s = []
  · rw [h]; rfl
  · rw [Trimmed, List.getLast?_eq_getLast _ h, Option.all_some, Bool.not_eq_true']
    simpa using List.rdropWhile_last_not isWhitespace s h

theorem trimEnd_append_space (s : List Char) : trimEnd (s ++ [' ']) = trimEnd s :=
  List.rdropWhile_concat_pos _ _ _ rfl

@[simp] theorem length_padUsing (n : ℕ) (lines : List (List Char)) :
    (padUsing n lines).length = max lines.length n := by
  simp only [padUsing, List.length_append, List.length_replicate]
  omega

theorem getD_padUsing (n k : ℕ) (lines : List (List Char)) :
    (padUsing n lines).getD k [] = lines.getD k [] := by
  rcases Nat.lt_or_ge k lines.length with hk | hk
  · rw [padUsing, List.getD_append _ _ _ _ hk]
  · rw [padUsing, List.getD_append_right _ _ _ _ hk, List.getD_eq_default _ _ hk,
      List.getD_eq_getElem?_getD, List.getElem?_replicate]
    split <;> rfl

/-- A line read with a default is a line of the list, or the default. -/
theorem getD_mem_or_eq {α : Type} (l : List α) (k : ℕ) (d : α) :
    l.getD k d ∈ l ∨ l.getD k d = d := by
  rcases Nat.lt_or_ge k l.length with hk | hk
  · exact .inl (List.getD_eq_getElem _ _ hk ▸ List.getElem_mem hk)
  · exact .inr (List.getD_eq_default _ _ hk)

/-- No piece of a list split at the elements that `p` picks holds one of them. -/
theorem not_of_mem_splitOnP {α : Type} (p : α → Bool) (xs : List α) :
    ∀ piece ∈ xs.splitOnP p, ∀ x ∈ piece, p x = false := by
  induction xs with
  | nil => simp
  | cons x xs ih =>
    rw [List.splitOnP_cons]
    split
    · rintro piece (_ | ⟨_, hpiece⟩)
      · nofun
      · exact ih piece hpiece
    · rename_i hx
      obtain ⟨head, rest, hsplit⟩ := List.exists_cons_of_ne_nil (List.splitOnP_ne_nil p xs)
      rw [hsplit] at ih ⊢
      rintro piece (_ | ⟨_, hpiece⟩)
      · rintro y (_ | ⟨_, hy⟩)
        · simpa using hx
        · exact ih head (.head _) y hy
      · exact ih piece (.tail _ hpiece)

/-- No line of a message holds a newline. -/
theorem newline_not_mem_of_mem_lines {s line : List Char} (h : line ∈ lines s) : '\n' ∉ line := by
  obtain ⟨piece, hpiece, rfl⟩ := List.mem_map.1 h
  have hsplit : piece ∈ s.splitOn '\n' := by
    unfold splitTerminator at hpiece
    split at hpiece
    · exact List.dropLast_subset _ hpiece
    · exact hpiece
  intro hmem
  have hpiece' : '\n' ∈ piece := by
    split at hmem
    · exact List.dropLast_subset _ hmem
    · exact hmem
  simpa using not_of_mem_splitOnP _ _ piece hsplit _ hpiece'

theorem newline_not_mem_trimEnd {s : List Char} (h : '\n' ∉ s) : '\n' ∉ trimEnd s :=
  fun hmem => h ((List.rdropWhile_prefix isWhitespace s).subset hmem)

end Eden.RenderDag
