import CommandShell.Display.Table
import CommandShell.Proofs.Display.Ansi
import CommandShell.Proofs.Text.Pieces
import Mathlib.Algebra.GroupWithZero.Nat

/-!
Every line of a table is as wide as the others. The widths of the columns are those of the widest
cells, a row takes as much room in every column whether it has a cell there or not, and the bars
between the cells keep an escape sequence from going on in the next cell.
-/

set_option autoImplicit false

namespace CommandShell.Table

open Ansi (visibleLength)

variable {padding : Int} {width : Nat} {widths : List Nat} {cell : Text} {row : List Text}
  {rows : List (List Text)}

/-- A row whose cells all have a column that is wide enough. -/
def Fits (widths : List Nat) (row : List Text) : Prop :=
  ∀ i : Nat, ∀ cell ∈ row[i]?, ∃ width ∈ widths[i]?, visibleLength cell ≤ width

/-- The widths of columns: every row fits, and no column is wider than its widest cell. -/
structure Columns (rows : List (List Text)) (widths : List Nat) : Prop where
  fits : ∀ row ∈ rows, Fits widths row
  reached : ∀ i : Nat, ∀ width ∈ widths[i]?,
    ∃ row ∈ rows, ∃ cell ∈ row[i]?, visibleLength cell = width

theorem getElem?_widest (as bs : List Nat) (i : Nat) :
    (widest as bs)[i]? = Option.merge max as[i]? bs[i]? := by
  fun_induction widest as bs generalizing i with
  | case1 bs => simp
  | case2 as => simp
  | case3 a as b bs ih =>
    cases i with
    | zero => rfl
    | succ i => exact ih i

/-- One more row makes a column as wide as the row needs it, and no wider. -/
theorem Columns.append (h : Columns rows widths) (row : List Text) :
    Columns (rows ++ [row]) (widest widths (row.map visibleLength)) where
  fits := by
    intro other hother i cell hcell
    rw [getElem?_widest, List.getElem?_map]
    rcases List.mem_append.mp hother with hother | hother
    · obtain ⟨width, hwidth, hle⟩ := h.fits other hother i cell hcell
      rw [Option.mem_def.mp hwidth]
      cases row[i]? with
      | none => exact ⟨width, rfl, hle⟩
      | some own => exact ⟨_, rfl, Nat.le_trans hle (Nat.le_max_left _ _)⟩
    · obtain rfl := List.mem_singleton.mp hother
      rw [Option.mem_def.mp hcell]
      cases widths[i]? with
      | none => exact ⟨_, rfl, Nat.le_refl _⟩
      | some width => exact ⟨_, rfl, Nat.le_max_right _ _⟩
  reached := by
    intro i width hwidth
    rw [getElem?_widest, List.getElem?_map] at hwidth
    have hown : ∀ own ∈ row[i]?, visibleLength own = width →
        ∃ other ∈ rows ++ [row], ∃ cell ∈ other[i]?, visibleLength cell = width :=
      fun own hmem heq => ⟨row, by simp, own, hmem, heq⟩
    have hearlier : width ∈ widths[i]? →
        ∃ other ∈ rows ++ [row], ∃ cell ∈ other[i]?, visibleLength cell = width := fun hmem =>
      let ⟨other, hother, hcell⟩ := h.reached i width hmem
      ⟨other, List.mem_append_left _ hother, hcell⟩
    cases hw : widths[i]? with
    | none =>
      cases hr : row[i]? with
      | none => simp [hw, hr] at hwidth
      | some own => exact hown own hr (by simpa [hw, hr] using hwidth)
    | some earlier =>
      cases hr : row[i]? with
      | none => exact hearlier (by simpa [hw, hr] using hwidth)
      | some own =>
        rcases Nat.le_total (visibleLength own) earlier with hle | hle
        · exact hearlier (by simpa [hw, hr, Nat.max_eq_left hle] using hwidth)
        · exact hown own hr (by simpa [hw, hr, Nat.max_eq_right hle] using hwidth)

theorem columns_columnWidths (rows : List (List Text)) : Columns rows (columnWidths rows) := by
  have hrun : ∀ (rest seen : List (List Text)) (widths : List Nat), Columns seen widths →
      Columns (seen ++ rest)
        (rest.foldl (fun widths row => widest widths (row.map visibleLength)) widths) := by
    intro rest
    induction rest with
    | nil => intro seen widths h; simpa using h
    | cons row rest ih =>
      intro seen widths h
      simpa using ih (seen ++ [row]) _ (h.append row)
  exact hrun rows [] [] ⟨by simp, by simp⟩

theorem Fits.head (h : Fits (width :: widths) (cell :: row)) : visibleLength cell ≤ width := by
  obtain ⟨_, hwidth, hle⟩ := h 0 cell rfl
  obtain rfl := Option.some.inj hwidth
  exact hle

theorem Fits.tail (h : Fits (width :: widths) (cell :: row)) : Fits widths row :=
  fun i other hother => h (i + 1) other hother

theorem not_escape_mem_repeated {c : Char} (hc : c ≠ Ansi.escape) (n : Nat) :
    Ansi.escape ∉ Text.repeated n c := by
  simp [Text.repeated, Ne.symm hc]

theorem visibleLength_repeated {c : Char} (hc : c ≠ Ansi.escape) (n : Nat) :
    visibleLength (Text.repeated n c) = n := by
  rw [Ansi.visibleLength_eq_length (not_escape_mem_repeated hc n), Text.repeated,
    List.length_replicate]

theorem apart_repeated (n : Nat) : Ansi.Apart (Text.repeated n ' ') := by
  cases n with
  | zero => simp [Ansi.Apart, Text.repeated]
  | succ n => simp [Ansi.Apart, Text.repeated, List.replicate_succ, Ansi.isArgument]

theorem visibleLength_nil : visibleLength [] = 0 := Ansi.visibleLength_eq_length (by simp)

/-- A cell takes the room of its column, and the blanks behind it leave a sequence that its text
breaks off as it is. -/
theorem visibleLength_cellText (h : visibleLength cell ≤ width) (padding : Int) :
    visibleLength (cellText padding width cell) = width + 2 * padding.toNat := by
  have hblank : ' ' ≠ Ansi.escape := by decide
  rw [cellText]
  simp only [List.append_assoc]
  rw [Ansi.visibleLength_append_left (not_escape_mem_repeated hblank _), Ansi.visibleLength_append,
    Ansi.visibleLength_append_left (not_escape_mem_repeated hblank _),
    visibleLength_repeated hblank]
  · simp only [Text.repeated, List.length_replicate]
    omega
  · rw [Text.repeated, Text.repeated, List.replicate_append_replicate]
    exact apart_repeated _

theorem rowText_eq (hwidths : widths ≠ []) (padding : Int) (row : List Text) :
    rowText padding widths row = (cells padding widths row).flatMap ('|' :: ·) ++ ['|'] := by
  obtain ⟨part, parts, hcells⟩ : ∃ part parts, cells padding widths row = part :: parts := by
    match widths, row with
    | width :: widths, [] => exact ⟨_, _, rfl⟩
    | width :: widths, cell :: row => exact ⟨_, _, rfl⟩
  rw [rowText, hcells, Text.join_cons, List.flatMap_cons]
  rfl

def lineLength (padding : Int) (widths : List Nat) : Int :=
  widths.sum + 2 * padding * widths.length + widths.length + 1

theorem visibleLength_cells (h : Fits widths row) (padding : Int) :
    visibleLength ((cells padding widths row).flatMap ('|' :: ·) ++ ['|'])
      = widths.sum + 2 * padding.toNat * widths.length + widths.length + 1 := by
  have hbar : Ansi.escape ∉ ['|'] := by decide
  -- one column: its bar and its cell, in front of what begins with a bar
  have hcolumn : ∀ (width : Nat) (cell : Text) (parts : List Text), visibleLength cell ≤ width →
      visibleLength ((cellText padding width cell :: parts).flatMap ('|' :: ·) ++ ['|'])
        = 1 + (width + 2 * padding.toNat)
          + visibleLength (parts.flatMap ('|' :: ·) ++ ['|']) := by
    intro width cell parts hle
    have hapart : Ansi.Apart (parts.flatMap ('|' :: ·) ++ ['|']) := by
      cases parts <;> simp [Ansi.Apart, Ansi.isArgument]
    rw [List.flatMap_cons, List.append_assoc, Ansi.visibleLength_append hapart,
      ← List.singleton_append, Ansi.visibleLength_append_left hbar, visibleLength_cellText hle]
    rfl
  fun_induction cells padding widths row with
  | case1 row => simpa using Ansi.visibleLength_eq_length hbar
  | case2 width widths ih =>
    have hempty : Fits widths [] := fun i cell hcell => by simp at hcell
    rw [hcolumn width [] _ (by simp [visibleLength_nil]), ih hempty, List.sum_cons,
      List.length_cons, Nat.mul_add]
    omega
  | case3 width widths cell row ih =>
    rw [hcolumn width cell _ h.head, ih h.tail, List.sum_cons, List.length_cons, Nat.mul_add]
    omega

theorem visibleLength_rowText (hwidths : widths ≠ []) (hpadding : 0 ≤ padding)
    (h : Fits widths row) :
    (visibleLength (rowText padding widths row) : Int) = lineLength padding widths := by
  have hsize : (padding.toNat : Int) = padding := Int.toNat_of_nonneg hpadding
  rw [rowText_eq hwidths, visibleLength_cells h, lineLength, ← hsize]
  push_cast
  rfl

theorem length_rule (hpadding : 0 ≤ padding) (widths : List Nat) :
    ((rule padding widths).length : Int) = lineLength padding widths := by
  have hroom : 0 ≤ 2 * padding * widths.length :=
    Int.mul_nonneg (Int.mul_nonneg (by decide) hpadding) (Int.natCast_nonneg _)
  rw [rule, Text.repeated, List.length_replicate, lineLength, ← List.sum_eq_foldl,
    Int.mul_comm padding 2]
  omega

theorem visibleLength_rule (padding : Int) (widths : List Nat) :
    visibleLength (rule padding widths) = (rule padding widths).length :=
  Ansi.visibleLength_eq_length (not_escape_mem_repeated (by decide) _)

theorem fits_dashes (widths : List Nat) : Fits widths (widths.map (Text.repeated · '-')) := by
  intro i cell hcell
  obtain ⟨width, hwidth, rfl⟩ := Option.map_eq_some_iff.mp (List.getElem?_map ▸ hcell)
  exact ⟨width, hwidth, Nat.le_of_eq (visibleLength_repeated (by decide) width)⟩

def shown (style : TableStyle) (rows : List (List Text)) : List (List Text) :=
  match style.maxCellWidth with
  | some width => rows.map (·.map (truncate width))
  | none => rows

def lines (style : TableStyle) (headers : Option (List Text)) (rows : List (List Text))
    (widths : List Nat) : List Text :=
  let edge := if style.border then [rule style.padding widths] else []
  let head := match headers with
    | some headers =>
      [rowText style.padding widths headers,
        rowText style.padding widths (widths.map (Text.repeated · '-'))]
    | none => []
  edge ++ head ++ (shown style rows).map (rowText style.padding widths) ++ edge

theorem format_eq (style : TableStyle) (headers : Option (List Text)) (rows : List (List Text)) :
    format style headers rows =
      let widths := columnWidths (headers.getD [] :: shown style rows)
      if widths.isEmpty then [] else Text.join ['\n'] (lines style headers rows widths) := rfl

theorem mem_lines {style : TableStyle} {headers : Option (List Text)} {line : Text}
    (h : line ∈ lines style headers rows widths) :
    line = rule style.padding widths ∨
      ∃ row ∈ widths.map (Text.repeated · '-') :: headers.getD [] :: shown style rows,
        line = rowText style.padding widths row := by
  have hedge : line ∈ (if style.border then [rule style.padding widths] else []) →
      line = rule style.padding widths := by
    split <;> simp
  simp only [lines, List.mem_append] at h
  rcases h with ((hmem | hmem) | hmem) | hmem
  · exact .inl (hedge hmem)
  · cases headers with
    | none => simp at hmem
    | some headers =>
      refine .inr ?_
      simp only [List.mem_cons, List.not_mem_nil, or_false] at hmem
      rcases hmem with rfl | rfl
      · exact ⟨headers, by simp, rfl⟩
      · exact ⟨_, List.mem_cons_self, rfl⟩
  · obtain ⟨row, hrow, rfl⟩ := List.mem_map.mp hmem
    exact .inr ⟨row, by simp [hrow], rfl⟩
  · exact .inl (hedge hmem)

theorem mem_truncate {width : Int} {c : Char} (h : c ∈ truncate width cell) :
    c ∈ cell ∨ c = '.' := by
  unfold truncate at h
  split at h
  · exact .inl h
  · rcases List.mem_append.mp h with h | h
    · exact .inl (List.mem_of_mem_take h)
    · exact .inr (by simpa [ellipsis] using h)

theorem mem_cells {part : Text} (h : part ∈ cells padding widths row) :
    ∃ width, ∃ cell ∈ [] :: row, part = cellText padding width cell := by
  fun_induction cells padding widths row with
  | case1 row => simp at h
  | case2 width widths ih =>
    rcases List.mem_cons.mp h with rfl | h
    · exact ⟨width, [], by simp, rfl⟩
    · exact ih h
  | case3 width widths cell row ih =>
    rcases List.mem_cons.mp h with rfl | h
    · exact ⟨width, cell, by simp, rfl⟩
    · obtain ⟨other, text, htext, heq⟩ := ih h
      exact ⟨other, text, by simp_all [or_left_comm], heq⟩

theorem mem_cellText {c : Char} (h : c ∈ cellText padding width cell) : c = ' ' ∨ c ∈ cell := by
  simp only [cellText, Text.repeated, List.mem_append, List.mem_replicate] at h
  rcases h with ((⟨_, hblank⟩ | hcell) | ⟨_, hblank⟩) | ⟨_, hblank⟩
  · exact .inl hblank
  · exact .inr hcell
  · exact .inl hblank
  · exact .inl hblank

theorem mem_rowText {c : Char} (hwidths : widths ≠ []) (h : c ∈ rowText padding widths row) :
    c = '|' ∨ c = ' ' ∨ ∃ cell ∈ row, c ∈ cell := by
  rw [rowText_eq hwidths] at h
  rcases List.mem_append.mp h with h | h
  · obtain ⟨part, hpart, hmem⟩ := List.mem_flatMap.mp h
    rcases List.mem_cons.mp hmem with rfl | hmem
    · exact .inl rfl
    · obtain ⟨width, cell, hcell, rfl⟩ := mem_cells hpart
      rcases mem_cellText hmem with hblank | hmem
      · exact .inr (.inl hblank)
      · rcases List.mem_cons.mp hcell with rfl | hcell
        · exact absurd hmem List.not_mem_nil
        · exact .inr (.inr ⟨cell, hcell, hmem⟩)
  · exact .inl (List.mem_singleton.mp h)

theorem visibleLength_line {style : TableStyle} {headers : Option (List Text)} {line : Text}
    (hpadding : 0 ≤ style.padding) (hwidths : widths ≠ [])
    (hcolumns : Columns (headers.getD [] :: shown style rows) widths)
    (h : line ∈ lines style headers rows widths) :
    (visibleLength line : Int) = lineLength style.padding widths := by
  rcases mem_lines h with rfl | ⟨row, hrow, rfl⟩
  · rw [visibleLength_rule, length_rule hpadding]
  · refine visibleLength_rowText hwidths hpadding ?_
    rcases List.mem_cons.mp hrow with rfl | hrow
    · exact fits_dashes widths
    · exact hcolumns.fits row hrow

theorem newline_not_mem_shown {style : TableStyle}
    (h : ∀ row ∈ rows, ∀ cell ∈ row, '\n' ∉ cell) :
    ∀ row ∈ shown style rows, ∀ cell ∈ row, '\n' ∉ cell := by
  unfold shown
  split
  · rename_i width _
    intro row hrow cell hcell hnewline
    obtain ⟨whole, hwhole, rfl⟩ := List.mem_map.mp hrow
    obtain ⟨uncut, huncut, rfl⟩ := List.mem_map.mp hcell
    rcases mem_truncate hnewline with hmem | hdot
    · exact h whole hwhole uncut huncut hmem
    · exact absurd hdot (by decide)
  · exact h

theorem newline_not_mem_line {style : TableStyle} {headers : Option (List Text)} {line : Text}
    (hwidths : widths ≠ [])
    (hcells : ∀ row ∈ headers.getD [] :: shown style rows, ∀ cell ∈ row, '\n' ∉ cell)
    (h : line ∈ lines style headers rows widths) : '\n' ∉ line := by
  intro hnewline
  rcases mem_lines h with rfl | ⟨row, hrow, rfl⟩
  · simp [rule, Text.repeated] at hnewline
  · rcases mem_rowText hwidths hnewline with hbar | hblank | ⟨cell, hcell, hmem⟩
    · exact absurd hbar (by decide)
    · exact absurd hblank (by decide)
    · rcases List.mem_cons.mp hrow with rfl | hrow
      · obtain ⟨width, _, rfl⟩ := List.mem_map.mp hcell
        simp [Text.repeated] at hmem
      · exact hcells row hrow cell hcell hmem

theorem lines_ne_nil {style : TableStyle} {headers : Option (List Text)} (hwidths : widths ≠ [])
    (hcolumns : Columns (headers.getD [] :: shown style rows) widths) :
    lines style headers rows widths ≠ [] := by
  obtain ⟨width, rest, rfl⟩ := List.exists_cons_of_ne_nil hwidths
  obtain ⟨row, hrow, cell, hcell, _⟩ := hcolumns.reached 0 width rfl
  cases headers with
  | some headers => simp [lines]
  | none =>
    rcases List.mem_cons.mp hrow with rfl | hrow
    · simp at hcell
    · simp [lines, List.ne_nil_of_mem hrow]

theorem pieces_format {style : TableStyle} {headers : Option (List Text)}
    (hcells : ∀ row ∈ headers.getD [] :: rows, ∀ cell ∈ row, '\n' ∉ cell)
    (hwidths : columnWidths (headers.getD [] :: shown style rows) ≠ []) :
    Text.pieces (· == '\n') (format style headers rows)
      = lines style headers rows (columnWidths (headers.getD [] :: shown style rows)) := by
  have hshown : ∀ row ∈ headers.getD [] :: shown style rows, ∀ cell ∈ row, '\n' ∉ cell := by
    obtain ⟨hheaders, hrows⟩ := List.forall_mem_cons.mp hcells
    exact List.forall_mem_cons.mpr ⟨hheaders, newline_not_mem_shown hrows⟩
  rw [format_eq, if_neg (by simpa using hwidths)]
  exact Text.pieces_join (fun line => newline_not_mem_line hwidths hshown)
    (lines_ne_nil hwidths (columns_columnWidths _))

/-- Every line of a table takes the room of its columns, with the padding on both sides and the
bars between them, and the rule at the edges is just as long. -/
theorem format_aligned {style : TableStyle} {headers : Option (List Text)}
    {rows : List (List Text)} (hpadding : 0 ≤ style.padding)
    (hcells : ∀ row ∈ headers.getD [] :: rows, ∀ cell ∈ row, '\n' ∉ cell)
    (hne : format style headers rows ≠ []) :
    ∃ widths, Columns (headers.getD [] :: shown style rows) widths ∧
      (∀ line ∈ Text.pieces (· == '\n') (format style headers rows),
        (visibleLength line : Int)
          = widths.sum + 2 * style.padding * widths.length + widths.length + 1) ∧
      ((rule style.padding widths).length : Int)
        = widths.sum + 2 * style.padding * widths.length + widths.length + 1 ∧
      (style.border = true →
        let lines := Text.pieces (· == '\n') (format style headers rows)
        lines.head? = some (rule style.padding widths) ∧
          lines.getLast? = some (rule style.padding widths)) := by
  have hwidths : columnWidths (headers.getD [] :: shown style rows) ≠ [] := by
    intro hnone
    exact hne (by rw [format_eq, if_pos (by simp [hnone])])
  have hcolumns := columns_columnWidths (headers.getD [] :: shown style rows)
  refine ⟨_, hcolumns, ?_, length_rule hpadding _, ?_⟩
  · rw [pieces_format hcells hwidths]
    exact fun line => visibleLength_line hpadding hwidths hcolumns
  · intro hborder
    rw [pieces_format hcells hwidths]
    simp [lines, hborder, List.getLast?_cons]

/-- A table whose rows are of different lengths, with a red cell, a cell that breaks off within a
sequence and a cell that is cut. -/
theorem format_aligned_ragged :
    let style := narrow 8
    let headers : Option (List Text) := some ["Name".toList, "Size".toList]
    let rows : List (List Text) :=
      [["\x1b[31mred\x1b[0m".toList, "12".toList, "\x1b[3".toList], ["a longer name".toList], []]
    0 ≤ style.padding ∧ (∀ row ∈ headers.getD [] :: rows, ∀ cell ∈ row, '\n' ∉ cell) ∧
      format style headers rows ≠ [] ∧
      ∃ widths, Columns (headers.getD [] :: shown style rows) widths ∧
        (∀ line ∈ Text.pieces (· == '\n') (format style headers rows),
          (visibleLength line : Int)
            = widths.sum + 2 * style.padding * widths.length + widths.length + 1) := by
  intro style headers rows
  have hpadding : 0 ≤ style.padding := by decide
  have hcells : ∀ row ∈ headers.getD [] :: rows, ∀ cell ∈ row, '\n' ∉ cell := by decide
  have hne : format style headers rows ≠ [] := by decide +kernel
  obtain ⟨widths, hcolumns, hlines, -, -⟩ := format_aligned hpadding hcells hne
  exact ⟨hpadding, hcells, hne, widths, hcolumns, hlines⟩

end CommandShell.Table
