import CommandShell.Entries
import CommandShell.Text.Quoted

/-!
Paths: what a written path stands for, once home directories and variables are put in and the
steps up are taken.
-/

set_option autoImplicit false

namespace CommandShell

/-- An absolute path, as the names on it from the root down. -/
abbrev Path := List Text

structure Surroundings where
  folder : Path
  vars : Entries Text Text
  homes : Entries Text Text
  /-- the paths that stand for others, and those others -/
  links : Entries Path Path

namespace Path

def text (p : Path) : Text :=
  match p with
  | [] => ['/']
  | names => names.flatMap ('/' :: ·)

def isSlash (c : Char) : Bool := c == '/'

/-- The home directory that a path begins with, put in. An unknown one is left as it is. -/
def expandHome (s : Surroundings) (written : Text) : Text :=
  match written with
  | '~' :: rest =>
    let user := rest.takeWhile fun c => !isSlash c
    let home := if user.isEmpty then s.vars.get? "HOME".toList else s.homes.get? user
    match home with
    | none => written
    | some home =>
      match Text.stripEnd isSlash home ++ rest.drop user.length with
      | [] => ['/']
      | path => path
  | _ => written

def isNameChar (c : Char) : Bool := c.isAlphanum || c == '_'

def reference? : Text → Option (Text × Text)
  | '\x7b' :: s =>
    match s.dropWhile (· != '\x7d') with
    | _ :: rest => some (s.takeWhile (· != '\x7d'), rest)
    | [] => none
  | s =>
    match s.takeWhile isNameChar with
    | [] => none
    | name => some (name, s.dropWhile isNameChar)

theorem reference?_length {s name rest : Text} (h : reference? s = some (name, rest)) :
    rest.length ≤ s.length := by
  unfold reference? at h
  split at h
  · rename_i s
    have := (List.dropWhile_suffix (· != '\x7d') (l := s)).length_le
    split at h
    · simp_all; omega
    · simp at h
  · split at h
    · simp at h
    · simp only [Option.some.injEq, Prod.mk.injEq] at h
      rw [← h.2]
      exact (List.dropWhile_suffix isNameChar).length_le

def expandVariables (vars : Entries Text Text) (written : Text) : Text :=
  match written with
  | [] => []
  | c :: s =>
    if c != '$' then c :: expandVariables vars s
    else
      match _h : reference? s with
      | none => c :: expandVariables vars s
      | some (name, rest) =>
        (vars.get? name).getD (c :: s.take (s.length - rest.length))
          ++ expandVariables vars rest
termination_by written.length
decreasing_by
  · simp
  · simp
  · have := reference?_length ‹_›
    simp; omega

/-- One step from a path; a step up from the root stays there, and a link leads elsewhere. -/
def step (links : Entries Path Path) (p : Path) (name : Text) : Path :=
  if name.isEmpty || name = ['.'] then p
  else if name = ['.', '.'] then p.dropLast
  else (links.get? (p ++ [name])).getD (p ++ [name])

/-- What a written path stands for; a relative one begins at the current folder. -/
def ofWritten (s : Surroundings) (written : Text) : Path :=
  let path := expandVariables s.vars (expandHome s written)
  let first := if path.head? = some '/' then [] else s.folder
  (Text.pieces isSlash path).foldl (step s.links) first

def ofText (written : Text) : Path :=
  (Text.pieces isSlash written).filter fun name => !name.isEmpty

end Path

end CommandShell
