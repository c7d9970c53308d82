/-
From a text to its tokens.

Block structure is told by indentation: tokens that open and close collections are put where the
indentation grows and shrinks.  Whether a scalar, an anchor or a flow collection begins a key is
known only when a colon follows it, so each level of flow nesting remembers one place where a key
may have begun, and the colon puts a key token, and where needed the opening of a mapping, in front
of it.

* `Lexing` : the state between two tokens, and `Lexing.step`, which reads on to the next;
* `TokenStream` : the tokens that can be told from a text, and the fault that stops the reading;
* `TokenStream.ofString` : the tokens of a text.

A token is told only when no key can begin at it any more.  So a fault hides the tokens from the
earliest possible key on, which `Lexing.settled` counts.
-/
import CollectorTemplate.Yaml.Directive
import CollectorTemplate.Yaml.Scalar.Block
import CollectorTemplate.Yaml.Scalar.Plain
import CollectorTemplate.Yaml.Scalar.Quoted
import CollectorTemplate.Yaml.Source

namespace CollectorTemplate.Yaml

/-- A place where a key may have begun. -/
structure PendingKey where
  /-- The number of the token that begins at the place. -/
  number : Nat
  place : Mark
  /-- Whether the block structure allows nothing but a key there. -/
  required : Bool
  deriving Repr, DecidableEq, Inhabited

/-- The state between two tokens. -/
structure Lexing where
  cursor : Cursor
  /-- The tokens so far, latest first. -/
  lexemes : List Lexeme := []
  /-- How many tokens there are. -/
  count : Nat := 0
  /-- Where a key may have begun on the innermost level. -/
  pending : Option PendingKey := none
  /-- Where keys may have begun on the levels around each open flow collection, innermost first.
  Some of them may be too far away by now. -/
  outer : List (Option PendingKey) := []
  /-- The key that the block structure requires around the open flow collections. -/
  demanded : Option PendingKey := none
  /-- The column of the innermost block collection, −1 outside all. -/
  indent : Int := -1
  /-- The columns of the block collections around it. -/
  indents : List Int := []
  /-- Whether a key may begin here. -/
  keyAllowed : Bool := true
  /-- Whether the end of the text has been told. -/
  ended : Bool := false
  deriving Repr, DecidableEq, Inhabited

namespace Lexing

/-- Whether a flow collection is open. -/
def inFlow (s : Lexing) : Bool := !s.outer.isEmpty

/-- The place reached. -/
def mark (s : Lexing) : Mark := s.cursor.mark

/-- One more token at the end. -/
def push (s : Lexing) (lexeme : Lexeme) : Lexing :=
  { s with lexemes := lexeme :: s.lexemes, count := s.count + 1 }

/-- One more token, put before the one with the given number. -/
def insertAt (s : Lexing) (number : Nat) (lexeme : Lexeme) : Lexing :=
  let later := s.count - number
  { s with
    lexemes := s.lexemes.take later ++ lexeme :: s.lexemes.drop later
    count := s.count + 1 }

/-- A fault met here, with nothing to say about what was being read. -/
def bare (s : Lexing) (problem : Problem) : Fault := ⟨problem, s.mark, none⟩

/-! ### Indentation -/

/-- Closes the block collections that are indented more deeply than `column`. -/
def closeBlocks (s : Lexing) (column : Int) : Lexing :=
  if s.inFlow then s
  else go s.indents s
where
  /-- Closes one collection after the other; `outer` are the columns around the innermost. -/
  go : List Int → Lexing → Lexing
    | outer, s =>
      if column < s.indent then
        match outer with
        | [] => { s.push ⟨.blockEnd, s.mark, s.mark⟩ with indent := -1 }
        | indent :: outer =>
          go outer { s.push ⟨.blockEnd, s.mark, s.mark⟩ with indent := indent, indents := outer }
      else s

/-- Opens a block collection at `place`, if that is indented more deeply than the innermost; its
token goes before the one with the given number, or to the end. -/
def openBlock (s : Lexing) (place : Mark) (number : Option Nat) (token : Token) : Lexing :=
  if !s.inFlow && s.indent < place.column then
    let lexeme : Lexeme := ⟨token, place, place⟩
    let s :=
      match number with
      | some n => s.insertAt n lexeme
      | none => s.push lexeme
    { s with indent := place.column, indents := s.indent :: s.indents }
  else s

/-! ### Keys -/

/-- A key was required at a place where none came. -/
def missingColon (s : Lexing) (key : PendingKey) : Fault :=
  s.cursor.fault .missingColon .simpleKey key.place

/-- Whether what begins at the place can no longer be a key: keys stay on one line and are at most
1024 bytes long. -/
def isStale (s : Lexing) (key : PendingKey) : Bool :=
  key.place.line < s.mark.line || key.place.offset + 1024 < s.mark.offset

/-- The place, unless no key can begin there any more. -/
def refresh (s : Lexing) : Option PendingKey → Except Fault (Option PendingKey)
  | none => .ok none
  | some key =>
    if s.isStale key then if key.required then .error (s.missingColon key) else .ok none
    else .ok (some key)

/-- Forgets the place on the innermost level if no key can begin there any more.  Neither there nor
around the flow collections may a required key be missing. -/
def dropStale (s : Lexing) : Except Fault Lexing := do
  let _ ← s.refresh s.demanded
  return { s with pending := ← s.refresh s.pending }

/-- Gives up the place on the innermost level. -/
def dropPending (s : Lexing) : Except Fault Lexing :=
  match s.pending with
  | some key => if key.required then .error (s.missingColon key) else .ok { s with pending := none }
  | none => .ok s

/-- Remembers that a key may begin here. -/
def savePending (s : Lexing) : Except Fault Lexing :=
  if s.keyAllowed then do
    let required := !s.inFlow && s.indent == s.mark.column
    let s' ← s.dropPending
    return { s' with pending := some ⟨s.count, s.mark, required⟩ }
  else .ok s

/-- How many tokens can be told: those before the earliest place where a key may have begun. -/
def settled (s : Lexing) : Nat :=
  (s.pending :: s.outer).foldl
    (fun n key => ((key.filter fun k => !s.isStale k).map (min n ·.number)).getD n) s.count

/-! ### Tokens -/

/-- Over white space and comments to the next token.  In block context a line break allows a key,
and a tab is white space only where no key may begin. -/
def skipSpace : Nat → Lexing → Lexing
  | 0, s => s
  | limit + 1, s =>
    let c :=
      if s.mark.column == 0 && s.cursor.peek? == some '\ufeff' then s.cursor.next else s.cursor
    let tabs := s.inFlow || !s.keyAllowed
    let c := (c.dropWhile fun x => x == ' ' || (tabs && x == '\t')).skipComment
    match c.rest with
    | [] => { s with cursor := c }
    | x :: _ =>
      if isBreak x then
        skipSpace limit { s with cursor := c.newline, keyAllowed := s.keyAllowed || !s.inFlow }
      else { s with cursor := c }

/-- A token of `width` indicator characters here. -/
def indicator (s : Lexing) (token : Token) (width : Nat) : Lexing :=
  let c := s.cursor.forward width
  { s.push ⟨token, s.mark, c.mark⟩ with cursor := c }

/-- The end of the text, which is on a line of its own. -/
def endText (s : Lexing) : Except Fault Lexing := do
  let mark :=
    if s.mark.column == 0 then s.mark else { s.mark with line := s.mark.line + 1, column := 0 }
  let s := closeBlocks { s with cursor := ⟨[], mark⟩ } (-1)
  let s ← s.dropPending
  return { s.push ⟨.streamEnd, mark, mark⟩ with keyAllowed := false, ended := true }

def directive (s : Lexing) : Except Fault Lexing := do
  let s ← (s.closeBlocks (-1)).dropPending
  let (lexeme, next) ← Directive.scan s.cursor
  return { s.push lexeme with cursor := next, keyAllowed := false }

def documentMark (s : Lexing) (token : Token) : Except Fault Lexing := do
  let s ← (s.closeBlocks (-1)).dropPending
  return { s.indicator token 3 with keyAllowed := false }

/-- The beginning of a flow collection, which may itself begin a key. -/
def openFlow (s : Lexing) (token : Token) : Except Fault Lexing := do
  let s ← s.savePending
  let demanded := if s.inFlow then s.demanded else s.pending.filter (·.required)
  return { s.indicator token 1 with
    pending := none, outer := s.pending :: s.outer, demanded, keyAllowed := true }

/-- The end of a flow collection. -/
def closeFlow (s : Lexing) (token : Token) : Except Fault Lexing := do
  let s ← s.dropPending
  let s := { s.indicator token 1 with keyAllowed := false }
  match s.outer with
  | pending :: outer =>
    let demanded := if outer.isEmpty then none else s.demanded
    return { s with pending, outer, demanded }
  | [] => return s

/-- A comma in a flow collection. -/
def flowEntry (s : Lexing) : Except Fault Lexing := do
  let s ← s.dropPending
  return { s.indicator .flowEntry 1 with keyAllowed := true }

/-- A dash before an entry of a block sequence. -/
def blockEntry (s : Lexing) : Except Fault Lexing := do
  if !s.inFlow && !s.keyAllowed then throw (s.bare .entryNotAllowed)
  let s ← (s.openBlock s.mark none .blockSequence).dropPending
  return { s.indicator .blockEntry 1 with keyAllowed := true }

/-- A question mark before a key. -/
def explicitKey (s : Lexing) : Except Fault Lexing := do
  if !s.inFlow && !s.keyAllowed then throw (s.bare .keyNotAllowed)
  let s ← (s.openBlock s.mark none .blockMapping).dropPending
  return { s.indicator .key 1 with keyAllowed := !s.inFlow }

/-- A colon before a value.  If a key may have begun, it did. -/
def mappingValue (s : Lexing) : Except Fault Lexing :=
  match s.pending with
  | some key =>
    let s := s.insertAt key.number ⟨.key, key.place, key.place⟩
    let s := s.openBlock key.place (some key.number) .blockMapping
    .ok { s.indicator .value 1 with pending := none, keyAllowed := false }
  | none => do
    if !s.inFlow && !s.keyAllowed then throw (s.bare .valueNotAllowed)
    let s := s.openBlock s.mark none .blockMapping
    return { s.indicator .value 1 with keyAllowed := !s.inFlow }

/-- An anchor or alias. -/
def named (s : Lexing) (context : Context) (token : List Char → Token) : Except Fault Lexing := do
  let s ← s.savePending
  let (name, stop) ← Property.name context s.cursor
  return { s.push ⟨token name, s.mark, stop.mark⟩ with cursor := stop, keyAllowed := false }

def tag (s : Lexing) : Except Fault Lexing := do
  let s ← s.savePending
  let (token, stop) ← Property.tag s.inFlow s.cursor
  return { s.push ⟨token, s.mark, stop.mark⟩ with cursor := stop, keyAllowed := false }

/-- A block scalar, which cannot begin a key. -/
def blockScalar (s : Lexing) (style : Style) : Except Fault Lexing := do
  let s ← s.dropPending
  let (text, stop) ← Block.scan (style == .folded) s.indent s.cursor
  return { s.push ⟨.scalar style text, s.mark, stop.mark⟩ with cursor := stop, keyAllowed := true }

def quotedScalar (s : Lexing) (style : Style) : Except Fault Lexing := do
  let s ← s.savePending
  let (text, stop) ←
    if style == .singleQuoted then Quoted.single s.cursor else Quoted.double s.cursor
  return { s.push ⟨.scalar style text, s.mark, stop.mark⟩ with cursor := stop, keyAllowed := false }

/-- A plain scalar; one that ends after a line break lets a key follow. -/
def plainScalar (s : Lexing) : Except Fault Lexing := do
  let s ← s.savePending
  let (text, stop, broken) ← Plain.scan s.inFlow s.indent s.cursor
  return { s.push ⟨.scalar .plain text, s.mark, stop.mark⟩ with
    cursor := stop, keyAllowed := broken }

/-- Whether a plain scalar may begin with `c` when `after` follows it. -/
def startsPlain (flow : Bool) (c : Char) (after : List Char) : Bool :=
  if c == '-' then !(after.head?.any isBlank)
  else if c == '?' || c == ':' then !flow && !gapAhead after
  else !(isSpacing c || c == ',' || c == '[' || c == ']' || c == '{' || c == '}' || c == '#' ||
    c == '&' || c == '*' || c == '!' || c == '|' || c == '>' || c == '\'' || c == '"' || c == '%' ||
    c == '@' || c == '\x60')

/-- The token that begins with the character `c`, which `after` follows. -/
def token (s : Lexing) (c : Char) (after : List Char) : Except Fault Lexing :=
  if s.mark.column == 0 && c == '%' then s.directive
  else if s.cursor.atDocumentMark then
    s.documentMark (if c == '-' then .documentStart else .documentEnd)
  else if c == '[' then s.openFlow .sequenceOpen
  else if c == '{' then s.openFlow .mappingOpen
  else if c == ']' then s.closeFlow .sequenceClose
  else if c == '}' then s.closeFlow .mappingClose
  else if c == ',' then s.flowEntry
  else if c == '-' && gapAhead after then s.blockEntry
  else if c == '?' && (s.inFlow || gapAhead after) then s.explicitKey
  else if c == ':' && (s.inFlow || gapAhead after) then s.mappingValue
  else if c == '*' then s.named .reference .reference
  else if c == '&' then s.named .anchor .anchor
  else if c == '!' then s.tag
  else if c == '|' && !s.inFlow then s.blockScalar .literal
  else if c == '>' && !s.inFlow then s.blockScalar .folded
  else if c == '\'' then s.quotedScalar .singleQuoted
  else if c == '"' then s.quotedScalar .doubleQuoted
  else if startsPlain s.inFlow c after then s.plainScalar
  else .error (s.cursor.fault .noToken .nextToken s.mark)

/-- Reads on to the next token, or to the end of the text. -/
def step (s : Lexing) : Except Fault Lexing := do
  let s ← (s.skipSpace (s.cursor.rest.length + 1)).dropStale
  let s := s.closeBlocks s.mark.column
  let s ←
    match s.cursor.rest with
    | [] => s.endText
    | c :: after => s.token c after
  s.dropStale

end Lexing

/-- The tokens that can be told from a text, and the fault that stops the reading.  Without a fault
the last token is the end of the text. -/
structure TokenStream where
  lexemes : List Lexeme
  fault : Option Fault := none
  deriving Repr, DecidableEq, Inhabited

namespace TokenStream

/-- The tokens told up to a fault. -/
def stopped (s : Lexing) (fault : Fault) : TokenStream :=
  ⟨s.lexemes.reverse.take s.settled, some fault⟩

/-- The fault that an unreadable character makes of reaching the end of the readable text. -/
def cutFault (offset : Nat) : Fault := ⟨.controlCharacter offset, {}, none⟩

/-- Reads on from a state.  If the text was cut, reaching its end is a fault. -/
def read (cut : Option Nat) : Nat → Lexing → TokenStream
  | 0, s => ⟨s.lexemes.reverse, none⟩
  | limit + 1, s =>
    match cut, s.step with
    | none, .error fault => stopped s fault
    | none, .ok next => if next.ended then ⟨next.lexemes.reverse, none⟩ else read cut limit next
    | some offset, .error fault =>
      if s.mark.index + s.cursor.rest.length ≤ fault.place.index + 3 then
        stopped s (cutFault offset)
      else stopped s fault
    | some offset, .ok next =>
      if next.cursor.rest.length ≤ 3 then stopped s (cutFault offset) else read cut limit next

def ofSource (source : Source) : TokenStream :=
  read source.cut (source.chars.length + 1) { cursor := .start source.chars }

def ofString (text : String) : TokenStream := ofSource (.ofString text)

end TokenStream

end CollectorTemplate.Yaml
