import CommandShell.Proofs.Binding.Readings
import CommandShell.Session.Help

/-!
What help answers. It answers with a command, a category or all categories where the name stands for
one, and says that there is none only where it stands for nothing.
-/

set_option autoImplicit false

namespace CommandShell

namespace Table

theorem widest_ne_nil {widths : List Nat} (h : widths ≠ []) (others : List Nat) :
    widest widths others ≠ [] := by
  cases widths with
  | nil => exact absurd rfl h
  | cons width widths => cases others <;> exact List.cons_ne_nil _ _

theorem columnWidths_ne_nil {headers : List Text} (h : headers ≠ []) (rows : List (List Text)) :
    columnWidths (headers :: rows) ≠ [] := by
  have hfold (widths : List Nat) (hw : widths ≠ []) :
      rows.foldl (fun widths row => widest widths (row.map Ansi.visibleLength)) widths ≠ [] := by
    induction rows generalizing widths with
    | nil => exact hw
    | cons row rows ih => exact ih _ (widest_ne_nil hw _)
  refine hfold _ ?_
  cases headers with
  | nil => exact absurd rfl h
  | cons header headers => exact List.cons_ne_nil _ _

theorem rule_head? (widths : List Nat) : (rule 1 widths).head? = some '-' := by
  rw [rule, Text.repeated, List.head?_replicate, if_neg]
  omega

theorem format_head? (width : Int) {headers : List Text} (h : headers ≠ [])
    (rows : List (List Text)) : (format (narrow width) (some headers) rows).head? = some '-' := by
  have hwidths := columnWidths_ne_nil h (rows.map (·.map (truncate width)))
  rw [format, narrow]
  dsimp only [Option.getD_some]
  rw [if_neg (by simpa using hwidths), if_pos rfl, List.append_assoc, List.append_assoc,
    List.singleton_append, Text.join_cons, List.head?_append, rule_head?]
  rfl

end Table

namespace Help

variable {σ : Type} {r : Registry σ} {name : Text}

/-- A name that stands for something: a command, a category, or all of them. -/
def Known (r : Registry σ) (name : Text) : Prop :=
  (r.get? name).isSome = true ∨ (r.categories.get? name).isSome = true ∨ name = "all".toList

def nothingKnown : Text := "No such command or category: ".toList

theorem nothingKnown_eq :
    nothingKnown = 'N' :: 'o' :: " such command or category: ".toList := by decide +kernel

theorem startsWith_nothingKnown_of_head? {s : Text} (h : s.head? ≠ some 'N') :
    Text.startsWith s nothingKnown = false := by
  rw [nothingKnown_eq, Text.startsWith]
  cases s with
  | nil => rfl
  | cons c s =>
    have hc : ('N' == c) = false := by
      rw [beq_eq_false_iff_ne]
      rintro rfl
      exact h rfl
    rw [List.isPrefixOf, hc, Bool.false_and]

theorem ofCategory_head? (commands : List (Command σ)) :
    (ofCategory commands).head? = some '-' :=
  Table.format_head? 60 (List.cons_ne_nil _ _) _

theorem startsWith_ofCommand (c : Command σ) :
    Text.startsWith (ofCommand c) nothingKnown = false := by
  rw [ofCommand, List.cons_append, Text.join_cons]
  rfl

theorem startsWith_on : Text.startsWith (on r name) nothingKnown = true ↔ ¬ Known r name := by
  rw [on]
  cases hc : r.get? name with
  | some c => simp [Known, hc, startsWith_ofCommand]
  | none =>
    cases hcategory : r.categories.get? name with
    | some commands =>
      have hhead : (ofCategory commands).head? ≠ some 'N' := by simp [ofCategory_head?]
      simp [Known, hcategory, startsWith_nothingKnown_of_head? hhead]
    | none =>
      dsimp only
      split
      · rename_i hall
        have hhead : (Text.join ['\n'] ((sortedCategories r).map fun category =>
            ofCategory category.2)).head? ≠ some 'N' := by
          cases sortedCategories r with
          | nil => simp
          | cons category rest => simp [Text.join_cons, ofCategory_head?]
        exact iff_of_false (Bool.eq_false_iff.mp (startsWith_nothingKnown_of_head? hhead))
          (not_not.mpr (.inr (.inr hall)))
      · rename_i hall
        have hprefix : Text.startsWith (nothingKnown ++ name) nothingKnown = true :=
          List.isPrefixOf_iff_prefix.mpr (List.prefix_append _ _)
        refine iff_of_true hprefix ?_
        rintro (h | h | h)
        · simp [hc] at h
        · simp [hcategory] at h
        · exact hall h

end Help

end CommandShell
