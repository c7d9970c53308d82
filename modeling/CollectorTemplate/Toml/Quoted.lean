/-
Strings of TOML.

Between double quotes a backslash begins an escape, between single quotes nothing is special.  Three
quotes open a string that may run over lines; a line break behind them does not count.

* `Quoted.basic?`, `Quoted.literal?` : a string on one line, from behind its opening quote;
* `Quoted.basicLines?`, `Quoted.literalLines?` : a string over lines, from behind its opening
  quotes.

All answer with the string and what follows its closing quotes.
-/
import CollectorTemplate.Text.Digits

namespace CollectorTemplate.Toml

/-- The blanks: space and tab. -/
def isBlank (c : Char) : Bool := c == ' ' || c == '\t'

/-- The characters that may stand in strings and comments: all but the control characters, among
which the tab may. -/
def isPrintable (c : Char) : Bool := c == '\t' || (0x20 ≤ c.toNat && c != '\x7f')

namespace Quoted

/-- The character of one letter behind a backslash. -/
def escape? (c : Char) : Option Char :=
  match c with
  | 'b' => some '\x08'
  | 't' => some '\t'
  | 'n' => some '\n'
  | 'f' => some '\x0c'
  | 'r' => some '\r'
  | 'e' => some '\x1b'
  | '"' => some '"'
  | '\\' => some '\\'
  | _ => none

/-- The character that hexadecimal digits write. -/
def coded? (digits : List Char) : Option Char := (Text.hexValue? digits).bind Text.codePoint?

/-- The character of an escape, from behind its backslash, and what follows it. -/
def escaped? : List Char → Option (Char × List Char)
  | 'x' :: a :: b :: rest => (coded? [a, b]).map (·, rest)
  | 'u' :: a :: b :: c :: d :: rest => (coded? [a, b, c, d]).map (·, rest)
  | 'U' :: a :: b :: c :: d :: e :: f :: g :: h :: rest =>
    (coded? [a, b, c, d, e, f, g, h]).map (·, rest)
  | c :: rest => (escape? c).map (·, rest)
  | [] => none

/-- What stands behind an escape is shorter than what stands behind its backslash. -/
theorem length_escaped? {text rest : List Char} {c : Char} (h : escaped? text = some (c, rest)) :
    rest.length < text.length := by
  unfold escaped? at h
  split at h <;> simp only [Option.map_eq_some_iff, Prod.mk.injEq, reduceCtorEq] at h
  all_goals
    obtain ⟨_, _, _, rfl⟩ := h
    simp only [List.length_cons]
    omega

/-- Reads on between double quotes on one line; `read` is what was read, latest first. -/
def basicFrom? (text read : List Char) : Option (String × List Char) :=
  match text with
  | [] => none
  | '"' :: rest => some (String.ofList read.reverse, rest)
  | '\\' :: rest =>
    match _ : escaped? rest with
    | none => none
    | some (c, after) => basicFrom? after (c :: read)
  | c :: rest => if isPrintable c then basicFrom? rest (c :: read) else none
termination_by text.length
decreasing_by
  · have := length_escaped? ‹_›
    simp only [List.length_cons]
    omega
  · simp

/-- A string on one line with escapes. -/
def basic? (text : List Char) : Option (String × List Char) := basicFrom? text []

/-- A string on one line without escapes. -/
def literal? (text : List Char) : Option (String × List Char) :=
  let inner := text.takeWhile fun c => isPrintable c && c != '\''
  match text.dropWhile fun c => isPrintable c && c != '\'' with
  | '\'' :: rest => some (String.ofList inner, rest)
  | _ => none

/-- A text without the line break it begins with. -/
def skipBreak : List Char → List Char
  | '\n' :: rest => rest
  | '\r' :: '\n' :: rest => rest
  | text => text

/-- Three or more quotes: the last three of at most five close a string over lines, and the others
belong to it. -/
def closing? (quote : Char) : List Char → Option (List Char × List Char)
  | a :: b :: c :: rest =>
    if a = quote ∧ b = quote ∧ c = quote then
      let extra := (rest.take 2).takeWhile (· = quote)
      some (extra, rest.drop extra.length)
    else none
  | _ => none

/-- What follows a backslash at the end of a line: the blanks behind it, the line break, and all
blanks and line breaks up to the next word. -/
def continued? (text : List Char) : Option (List Char) :=
  let rest := text.dropWhile isBlank
  if (skipBreak rest).length < rest.length then some (skipSpace rest) else none
where
  /-- What follows blanks and line breaks. -/
  skipSpace : List Char → List Char
    | '\n' :: rest => skipSpace rest
    | '\r' :: '\n' :: rest => skipSpace rest
    | c :: rest => if isBlank c then skipSpace rest else c :: rest
    | [] => []

/-- What follows blanks and line breaks is no longer than the text. -/
theorem length_skipSpace (text : List Char) :
    (continued?.skipSpace text).length ≤ text.length := by
  fun_induction continued?.skipSpace text <;> simp_all <;> omega

/-- What follows a backslash at the end of a line is no longer than the text. -/
theorem length_continued? {text rest : List Char} (h : continued? text = some rest) :
    rest.length ≤ text.length := by
  simp only [continued?] at h
  split at h
  · cases h
    exact Nat.le_trans (length_skipSpace _) (List.dropWhile_sublist _).length_le
  · cases h

/-- Reads on in a string over lines with escapes; `read` is what was read, latest first. -/
def basicLinesFrom? (text read : List Char) : Option (String × List Char) :=
  match closing? '"' text with
  | some (quotes, rest) => some (String.ofList (read.reverse ++ quotes), rest)
  | none =>
    match text with
    | [] => none
    | '\r' :: '\n' :: rest => basicLinesFrom? rest ('\n' :: '\r' :: read)
    | '\\' :: rest =>
      match _ : continued? rest with
      | some after => basicLinesFrom? after read
      | none =>
        match _ : escaped? rest with
        | none => none
        | some (c, after) => basicLinesFrom? after (c :: read)
    | c :: rest => if isPrintable c || c == '\n' then basicLinesFrom? rest (c :: read) else none
termination_by text.length
decreasing_by
  · simp only [List.length_cons]
    omega
  · have := length_continued? ‹_›
    simp only [List.length_cons]
    omega
  · have := length_escaped? ‹_›
    simp only [List.length_cons]
    omega
  · simp

/-- A string over lines with escapes. -/
def basicLines? (text : List Char) : Option (String × List Char) :=
  basicLinesFrom? (skipBreak text) []

/-- Reads on in a string over lines without escapes; `read` is what was read, latest first. -/
def literalLinesFrom? (text read : List Char) : Option (String × List Char) :=
  match closing? '\'' text with
  | some (quotes, rest) => some (String.ofList (read.reverse ++ quotes), rest)
  | none =>
    match text with
    | [] => none
    | '\r' :: '\n' :: rest => literalLinesFrom? rest ('\n' :: '\r' :: read)
    | c :: rest => if isPrintable c || c == '\n' then literalLinesFrom? rest (c :: read) else none

/-- A string over lines without escapes. -/
def literalLines? (text : List Char) : Option (String × List Char) :=
  literalLinesFrom? (skipBreak text) []

end Quoted

end CollectorTemplate.Toml
