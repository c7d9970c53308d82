/-
How strings are written as scalars.

A string is written plain if it then reads back as a string, else in single quotes, else in double
quotes with escapes.  One with line feeds is written as a literal block, if a block can hold it.

* `Scalar.styleOf` : the style of a string;
* `Scalar.lines` : the written form, up to the end of its last line;
* `Scalar.isSimpleKey` : whether a string can stand as a key in front of a colon.
-/
import CollectorTemplate.Yaml.Cursor
import CollectorTemplate.Yaml.Scalar.Resolve
import CollectorTemplate.Yaml.Token

namespace CollectorTemplate.Yaml.Scalar

/-! ### What each style can hold -/

/-- Whether a character can be written as itself: neither a control character other than LF, nor the
byte order mark, nor a noncharacter at the end of the basic plane. -/
def isPrintable (c : Char) : Bool :=
  let n := c.toNat
  n == 0xa || (0x20 ≤ n && n ≤ 0x7e) || (0xa0 ≤ n && n ≤ 0xd7ff) ||
  (0xe000 ≤ n && n ≤ 0xfffd && n != 0xfeff) || 0x10000 ≤ n

/-- Whether some character and the one after it satisfy `p`. -/
def anyPair (p : Char → Char → Bool) : List Char → Bool
  | a :: b :: rest => p a b || anyPair p (b :: rest)
  | _ => false

/-- Whether a space stands before a line break. -/
def hasSpaceBeforeBreak (text : List Char) : Bool := anyPair (fun a b => a == ' ' && isBreak b) text

/-- Whether a space stands after a line break. -/
def hasSpaceAfterBreak (text : List Char) : Bool := anyPair (fun a b => isBreak a && b == ' ') text

/-- The characters that open something else than a plain scalar. -/
def isOpening (c : Char) : Bool := "#,[]\x7b\x7d&*!|>'\"%@\x60".toList.contains c

/-- Whether something else than a plain scalar begins here. -/
def opensOther : List Char → Bool
  | [] => false
  | c :: rest => isOpening c || ((c == '?' || c == ':' || c == '-') && gapAhead rest)

/-- Whether a colon or a comment ends the plain scalar behind the character `before`. -/
def endsEarly (before : Char) : List Char → Bool
  | [] => false
  | c :: rest => (c == ':' && gapAhead rest) || (c == '#' && isSpacing before) || endsEarly c rest

/-- Whether a text has an indicator where it would be taken for one. -/
def hasIndicator (text : List Char) : Bool :=
  "---".toList.isPrefixOf text || "...".toList.isPrefixOf text || opensOther text ||
  match text with
  | [] => false
  | c :: rest => endsEarly c rest

/-- Whether a text begins or ends with a space or a line break. -/
def hasLooseEnd (text : List Char) : Bool :=
  let loose (c : Option Char) : Bool := c.any fun c => c == ' ' || isBreak c
  loose text.head? || loose text.getLast?

/-- Whether a plain scalar can hold a text. -/
def plainHolds (text : List Char) : Bool :=
  text.all isPrintable && !text.any isBreak && !hasLooseEnd text && !hasIndicator text

/-- Whether a scalar in single quotes can hold a text. -/
def singleHolds (text : List Char) : Bool :=
  text.all isPrintable && !hasSpaceBeforeBreak text && !hasSpaceAfterBreak text

/-- Whether a block can hold a text. -/
def blockHolds (text : List Char) : Bool :=
  text.all isPrintable && !hasSpaceBeforeBreak text && text.getLast? != some ' '

/-- Whether a plain text means something else than a string, or looks so. -/
def isAmbiguous (text : List Char) : Bool :=
  isLeadingZero text ||
  match resolve text with
  | .string => false
  | _ => true

/-- The style of a string. -/
def styleOf (text : List Char) : Style :=
  if text.contains '\n' then if blockHolds text then .literal else .doubleQuoted
  else if plainHolds text && !isAmbiguous text then .plain
  else if singleHolds text then .singleQuoted
  else .doubleQuoted

/-! ### Written forms -/

/-- The beginning of a line. -/
def spaces (indent : Nat) : List Char := List.replicate indent ' '

/-- Lines in single quotes; `fresh` says that a new line has begun. -/
def singleLines (indent : Nat) : (fresh : Bool) → List Char → List Char
  | fresh, [] => if fresh then spaces indent else []
  | fresh, c :: rest =>
    if isBreak c then c :: singleLines indent true rest
    else
      (if fresh then spaces indent else []) ++ (if c = '\'' then ['\'', '\''] else [c]) ++
        singleLines indent false rest

/-- Lines of a block; `fresh` says that a new line has begun. -/
def blockLines (indent : Nat) : (fresh : Bool) → List Char → List Char
  | _, [] => []
  | fresh, c :: rest =>
    if isBreak c then c :: blockLines indent true rest
    else (if fresh then spaces indent else []) ++ c :: blockLines indent false rest

/-- The letter behind the backslash for a character that has one. -/
def escapeLetter? (c : Char) : Option Char :=
  match c with
  | '\x00' => some '0'
  | '\x07' => some 'a'
  | '\x08' => some 'b'
  | '\t' => some 't'
  | '\n' => some 'n'
  | '\x0b' => some 'v'
  | '\x0c' => some 'f'
  | '\r' => some 'r'
  | '\x1b' => some 'e'
  | '"' => some '"'
  | '\\' => some '\\'
  | '\u0085' => some 'N'
  | '\u2028' => some 'L'
  | '\u2029' => some 'P'
  | _ => none

/-- A hexadecimal digit. -/
def hexDigit (n : Nat) : Char :=
  if n < 10 then Char.ofNat (n + '0'.toNat) else Char.ofNat (n - 10 + 'A'.toNat)

/-- The last `width` hexadecimal digits of a number. -/
def hexDigits : (width : Nat) → Nat → List Char
  | 0, _ => []
  | width + 1, n => hexDigits width (n / 16) ++ [hexDigit (n % 16)]

/-- A character in double quotes. -/
def doubleChar (c : Char) : List Char :=
  match escapeLetter? c with
  | some letter => ['\\', letter]
  | none =>
    let n := c.toNat
    if isPrintable c then [c]
    else if n ≤ 0xff then '\\' :: 'x' :: hexDigits 2 n
    else if n ≤ 0xffff then '\\' :: 'u' :: hexDigits 4 n
    else '\\' :: 'U' :: hexDigits 8 n

/-- How many spaces a level of indentation takes. -/
def indentation : Nat := 2

/-- What a block's head says about the spaces that its first line begins with, and about the breaks
it ends with. -/
def blockHints (text : List Char) : List Char :=
  let loose := text.head?.any fun c => c == ' ' || isBreak c
  let chomping :=
    match text.reverse with
    | [] => ['-']
    | [last] => if isBreak last then ['+'] else ['-']
    | last :: before :: _ =>
      if !isBreak last then ['-'] else if isBreak before then ['+'] else []
  (if loose then [Nat.digitChar indentation] else []) ++ chomping

/-- The written form of a string in a style, its further lines indented. -/
def written (indent : Nat) (style : Style) (text : List Char) : List Char :=
  match style with
  | .plain => text
  | .singleQuoted => '\'' :: singleLines indent false text ++ ['\'']
  | .doubleQuoted => '"' :: text.flatMap doubleChar ++ ['"']
  | .literal | .folded => '|' :: blockHints text ++ '\n' :: blockLines indent true text

/-- Whether what is written in a style ends with the end of a line. -/
def endsLine (style : Style) (text : List Char) : Bool :=
  match style with
  | .literal | .folded => text.getLast?.any isBreak
  | _ => false

/-- The written form of a string, up to the end of its last line. -/
def lines (indent : Nat) (text : List Char) : List Char :=
  let style := styleOf text
  written indent style text ++ (if endsLine style text then [] else ['\n'])

/-- How many octets a key in front of a colon may have. -/
def simpleKeyLimit : Nat := 128

/-- Whether a string can stand as a key in front of a colon. -/
def isSimpleKey (text : List Char) : Bool :=
  !text.any isBreak && text.foldl (fun n c => n + c.utf8Size) 0 ≤ simpleKeyLimit

end CollectorTemplate.Yaml.Scalar
