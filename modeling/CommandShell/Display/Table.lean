import CommandShell.Display.Ansi

/-!
Tables of text, with columns as wide as what is visible in them.
-/

set_option autoImplicit false

namespace CommandShell

structure TableStyle where
  /-- blanks on either side of a cell -/
  padding : Int
  border : Bool
  maxCellWidth : Option Int

namespace Table

def plain : TableStyle := ⟨1, true, none⟩

def narrow (width : Int) : TableStyle := ⟨1, true, some width⟩

def ellipsis : Text := "...".toList

/-- Cuts a cell that is too wide. Cells with escape sequences are left alone, and so are all cells
where the dots would leave no room. -/
def truncate (width : Int) (cell : Text) : Text :=
  if width ≤ ellipsis.length || (Ansi.visibleLength cell : Int) ≤ width || cell != Ansi.strip cell
  then cell
  else cell.take (width.toNat - ellipsis.length) ++ ellipsis

/-- The wider of two columns, place by place; the longer list gives the number of columns. -/
def widest : List Nat → List Nat → List Nat
  | [], bs => bs
  | as, [] => as
  | a :: as, b :: bs => max a b :: widest as bs

def columnWidths (rows : List (List Text)) : List Nat :=
  rows.foldl (fun widths row => widest widths (row.map Ansi.visibleLength)) []

def cellText (padding : Int) (width : Nat) (cell : Text) : Text :=
  let pad := Text.repeated padding.toNat ' '
  pad ++ cell ++ Text.repeated (width - Ansi.visibleLength cell) ' ' ++ pad

def cells (padding : Int) : List Nat → List Text → List Text
  | [], _ => []
  | width :: widths, [] => cellText padding width [] :: cells padding widths []
  | width :: widths, cell :: row => cellText padding width cell :: cells padding widths row

def rowText (padding : Int) (widths : List Nat) (row : List Text) : Text :=
  '|' :: Text.join ['|'] (cells padding widths row) ++ ['|']

def rule (padding : Int) (widths : List Nat) : Text :=
  let length : Int :=
    (widths.foldl (· + ·) 0 : Nat) + padding * 2 * widths.length + (widths.length + 1)
  Text.repeated length.toNat '-'

def format (style : TableStyle) (headers : Option (List Text)) (rows : List (List Text)) : Text :=
  let rows := match style.maxCellWidth with
    | some width => rows.map (·.map (truncate width))
    | none => rows
  let widths := columnWidths (headers.getD [] :: rows)
  if widths.isEmpty then []
  else
    let edge := if style.border then [rule style.padding widths] else []
    let head := match headers with
      | some headers =>
        [rowText style.padding widths headers,
          rowText style.padding widths (widths.map (Text.repeated · '-'))]
      | none => []
    Text.join ['\n'] (edge ++ head ++ rows.map (rowText style.padding widths) ++ edge)

end Table

end CommandShell
