/-
Texts shown in diagnostics.

A text is put in double quotes; quotes and backslashes get a backslash, and hidden characters are
written by name or by number.

* `Text.quote` : the quoted form.
-/
import CollectorTemplate.Text.Hidden

namespace CollectorTemplate.Text

def quoteChar (c : Char) : List Char :=
  match c with
  | '\x00' => ['\\', '0']
  | '\t' => ['\\', 't']
  | '\r' => ['\\', 'r']
  | '\n' => ['\\', 'n']
  | '"' => ['\\', '"']
  | '\\' => ['\\', '\\']
  | c => if isHidden c then '\\' :: 'u' :: '{' :: Nat.toDigits 16 c.toNat ++ ['}'] else [c]

def quote (text : String) : String :=
  String.ofList ('"' :: text.toList.flatMap quoteChar ++ ['"'])

end CollectorTemplate.Text
