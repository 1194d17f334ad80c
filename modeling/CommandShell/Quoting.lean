import CommandShell.Token.Scan

/-!
Quoting of inserted values: a value is quoted unless it would be read back as one literal word.
-/

set_option autoImplicit false

namespace CommandShell.Quoting

def trial (value : Text) : Text := "echo ".toList ++ value

def needsQuoting (value : Text) : Bool :=
  match Token.scanStrict (trial value) with
  | .ok [_, token, _] =>
    !((token.kind == .bare || token.kind == .number) && token.literal && token.value == value)
  | _ => true

def quote (value : Text) : Text :=
  '\'' :: value.flatMap (fun c => if Sign.isSingleQuote c then [c, c] else [c]) ++ ['\'']

def quoteIfNeeded (value : Text) : Text := if needsQuoting value then quote value else value

end CommandShell.Quoting
