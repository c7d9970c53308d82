/-
Directives.

A directive is a line that begins with a percent sign.  It gives the version of the format or a
handle for tags.

* `Directive.scan` : the directive at the cursor, and the cursor on the next line.
-/
import CollectorTemplate.Yaml.Property

namespace CollectorTemplate.Yaml.Directive

/-- The name of the directive that began at `start`. -/
def name (start : Mark) (c : Cursor) : Except Fault (List Char × Cursor) :=
  let found := c.takeWhile isWord
  let stop := c.dropWhile isWord
  if found.isEmpty then .error (stop.fault .noDirectiveName .directive start)
  else if stop.atGap then .ok (found, stop)
  else .error (stop.fault .badDirectiveName .directive start)

/-- A part of a version: one to nine digits. -/
def number (start : Mark) (c : Cursor) : Except Fault (Nat × Cursor) :=
  let digits := c.takeWhile Char.isDigit
  if 9 < digits.length then
    .error ((c.forward 9).fault .longVersionNumber .versionDirective start)
  else if digits.isEmpty then .error (c.fault .noVersionNumber .versionDirective start)
  else
    .ok (digits.foldl (fun n d => 10 * n + (d.toNat - '0'.toNat)) 0, c.dropWhile Char.isDigit)

/-- The two parts of a version. -/
def version (start : Mark) (c : Cursor) : Except Fault (Token × Cursor) := do
  let (major, c) ← number start c.skipBlanks
  if c.peek? = some '.' then
    let (minor, c) ← number start c.next
    return (.version major minor, c)
  else throw (c.fault .noVersionDot .versionDirective start)

/-- A handle and what it stands for. -/
def tagHandle (start : Mark) (c : Cursor) : Except Fault (Token × Cursor) := do
  let (found, c) ← Property.handle .tagDirectiveHandle start c.skipBlanks
  if !(Property.isClosed found || found == ['!']) then
    throw (c.fault .noTagMark .tagDirectiveEnd start)
  if !(c.rest.head?.any isBlank) then throw (c.fault .noTagSpace .tagDirective start)
  let (expansion, c) ← Property.uri true .tagDirectiveUri start [] c.skipBlanks
  if c.atGap then return (.tagHandle found expansion, c)
  else throw (c.fault .noTagEnd .tagDirective start)

/-- The rest of the directive's line. -/
def lineEnd (start : Mark) (c : Cursor) : Except Fault Cursor :=
  let c := c.skipBlanks.skipComment
  if c.atLineEnd then .ok c.newline
  else .error (c.fault .directiveNotEnded .directive start)

/-- The directive whose percent sign is at the cursor, as a lexeme, and the cursor after its
line. -/
def scan (c : Cursor) : Except Fault (Lexeme × Cursor) := do
  let (found, rest) ← name c.mark c.next
  let (token, stop) ←
    if found = "YAML".toList then version c.mark rest
    else if found = "TAG".toList then tagHandle c.mark rest
    else throw (rest.fault .unknownDirective .directive c.mark)
  let next ← lineEnd c.mark stop
  return (⟨token, c.mark, stop.mark⟩, next)

end CollectorTemplate.Yaml.Directive
