/-
What can be wrong with the form of a text.

A `Fault` says what was met (`Problem`), where, and what was being read there (`Context`).  The
wording is kept apart from the causes: `Problem.text`, `Context.text` and `Fault.text`.

* `Fault.text` : the whole diagnostic.  The beginning of the text is no place worth naming, so marks
  at it are left out, and a control character met there is placed by its byte offset instead.
-/
import CollectorTemplate.Yaml.Mark

namespace CollectorTemplate.Yaml

/-- What was met that does not belong there. -/
inductive Problem
  /-- A character that no text may hold, at this byte offset. -/
  | controlCharacter (offset : Nat)
  | noToken
  | missingColon
  | entryNotAllowed
  | keyNotAllowed
  | valueNotAllowed
  | unknownDirective
  | noDirectiveName
  | badDirectiveName
  | directiveNotEnded
  | noVersionNumber
  | noVersionDot
  | longVersionNumber
  | noTagMark
  | noTagSpace
  | noTagEnd
  | noTagUri
  | noTagEscape
  | badTagLead
  | badTagTrail
  | noTagClose
  | noName
  | zeroIndentation
  | blockHeaderNotEnded
  | tabInIndentation
  | documentMark
  | endOfText
  | unknownEscape
  | noHexDigit
  | badCodePoint
  | strayColon
  | tabBreaksIndentation
  | noDocumentStart
  | duplicateVersion
  | incompatibleVersion
  | duplicateTagHandle
  | undefinedTagHandle
  | noContent
  | noEntry
  | noKey
  | noSequenceEnd
  | noMappingEnd
  deriving Repr, DecidableEq

namespace Problem

def text : Problem → String
  | controlCharacter _ => "control characters are not allowed"
  | noToken => "found character that cannot start any token"
  | missingColon => "could not find expected ':'"
  | entryNotAllowed => "block sequence entries are not allowed in this context"
  | keyNotAllowed => "mapping keys are not allowed in this context"
  | valueNotAllowed => "mapping values are not allowed in this context"
  | unknownDirective => "found unknown directive name"
  | noDirectiveName => "could not find expected directive name"
  | badDirectiveName => "found unexpected non-alphabetical character"
  | directiveNotEnded => "did not find expected comment or line break"
  | noVersionNumber => "did not find expected version number"
  | noVersionDot => "did not find expected digit or '.' character"
  | longVersionNumber => "found extremely long version number"
  | noTagMark => "did not find expected '!'"
  | noTagSpace => "did not find expected whitespace"
  | noTagEnd => "did not find expected whitespace or line break"
  | noTagUri => "did not find expected tag URI"
  | noTagEscape => "did not find URI escaped octet"
  | badTagLead => "found an incorrect leading UTF-8 octet"
  | badTagTrail => "found an incorrect trailing UTF-8 octet"
  | noTagClose => "did not find the expected '>'"
  | noName => "did not find expected alphabetic or numeric character"
  | zeroIndentation => "found an indentation indicator equal to 0"
  | blockHeaderNotEnded => "did not find expected comment or line break"
  | tabInIndentation => "found a tab character where an indentation space is expected"
  | documentMark => "found unexpected document indicator"
  | endOfText => "found unexpected end of stream"
  | unknownEscape => "found unknown escape character"
  | noHexDigit => "did not find expected hexadecimal number"
  | badCodePoint => "found invalid Unicode character escape code"
  | strayColon => "found unexpected ':'"
  | tabBreaksIndentation => "found a tab character that violates indentation"
  | noDocumentStart => "did not find expected <document start>"
  | duplicateVersion => "found duplicate %YAML directive"
  | incompatibleVersion => "found incompatible YAML document"
  | duplicateTagHandle => "found duplicate %TAG directive"
  | undefinedTagHandle => "found undefined tag handle"
  | noContent => "did not find expected node content"
  | noEntry => "did not find expected '-' indicator"
  | noKey => "did not find expected key"
  | noSequenceEnd => "did not find expected ',' or ']'"
  | noMappingEnd => "did not find expected ',' or '\x7d'"

end Problem

/-- What was being read when a problem was met. -/
inductive Context
  | nextToken
  | simpleKey
  | directive
  | versionDirective
  | tagDirective
  /-- The handle that a tag directive defines, before it is known to be none. -/
  | tagDirectiveHandle
  | tagDirectiveEnd
  | tagDirectiveUri
  | tag
  | tagUri
  | anchor
  | reference
  | blockScalar
  | quotedScalar
  | quotedEscape
  | plainScalar
  | node
  | blockNode
  | flowNode
  | blockCollection
  | blockMapping
  | flowSequence
  | flowMapping
  deriving Repr, DecidableEq

namespace Context

def text : Context → String
  | nextToken => "while scanning for the next token"
  | simpleKey => "while scanning a simple key"
  | directive => "while scanning a directive"
  | versionDirective => "while scanning a %YAML directive"
  | tagDirective => "while scanning a %TAG directive"
  | tagDirectiveHandle => "while scanning a tag directive"
  | tagDirectiveEnd => "while parsing a tag directive"
  | tagDirectiveUri => "while parsing a %TAG directive"
  | tag => "while scanning a tag"
  | tagUri => "while parsing a tag"
  | anchor => "while scanning an anchor"
  | reference => "while scanning an alias"
  | blockScalar => "while scanning a block scalar"
  | quotedScalar => "while scanning a quoted scalar"
  | quotedEscape => "while parsing a quoted scalar"
  | plainScalar => "while scanning a plain scalar"
  | node => "while parsing a node"
  | blockNode => "while parsing a block node"
  | flowNode => "while parsing a flow node"
  | blockCollection => "while parsing a block collection"
  | blockMapping => "while parsing a block mapping"
  | flowSequence => "while parsing a flow sequence"
  | flowMapping => "while parsing a flow mapping"

end Context

/-- A fault in the form of a text. -/
structure Fault where
  /-- What was met. -/
  problem : Problem
  /-- Where it was met. -/
  place : Mark
  /-- What was being read, and where that began. -/
  within : Option (Context × Mark) := none
  deriving Repr, DecidableEq

namespace Fault

/-- The wording of the place: none for the beginning of the text, where only the byte offset of a
control character tells more. -/
def placeText (f : Fault) : String :=
  if f.place.isStart then
    match f.problem with
    | .controlCharacter offset => if offset == 0 then "" else s!" at position {offset}"
    | _ => ""
  else " at " ++ f.place.text

/-- The wording of what was being read; its beginning is named where it differs from the place of
the fault and is not the beginning of the text. -/
def withinText (f : Fault) : String :=
  match f.within with
  | none => ""
  | some (context, start) =>
    ", " ++ context.text ++
      (if start.isStart || start.samePlace f.place then "" else " at " ++ start.text)

def text (f : Fault) : String := f.problem.text ++ f.placeText ++ f.withinText

end Fault

end CollectorTemplate.Yaml
