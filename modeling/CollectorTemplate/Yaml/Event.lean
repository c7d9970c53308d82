/-
From tokens to events.

Events say the same as tokens with the structure made plain: each collection is opened and closed,
each key has a value, and what is left out stands as an empty plain scalar.

* `Event` : a step of a document;
* `Expectation` : what the grammar allows next;
* `DocumentEvents.ofTokens` : the events of the first document of a text, up to a fault, and whether
  anything follows the document.

The grammar is a machine with a stack.  Each of its moves tells one event; a move that takes no
token leads within three moves to one that takes a token or stops, which bounds their number.
-/
import CollectorTemplate.Yaml.TokenStream

namespace CollectorTemplate.Yaml

/-- What a node may carry besides its content. -/
structure Properties where
  anchor : Option (List Char) := none
  tag : Option TagText := none
  deriving Repr, DecidableEq, Inhabited

/-- A step of a document. -/
inductive Event
  | reference (name : List Char)
  | scalar (properties : Properties) (style : Style) (text : List Char)
  | sequenceStart (properties : Properties)
  | sequenceEnd
  | mappingStart (properties : Properties)
  | mappingEnd
  deriving Repr, DecidableEq, Inhabited

/-- An event and where it begins. -/
structure PlacedEvent where
  event : Event
  place : Mark
  deriving Repr, DecidableEq, Inhabited

/-- What the grammar allows next.  Collections carry the place where they opened. -/
inductive Expectation
  /-- A node of block style. -/
  | blockNode
  /-- A node of block style, or a sequence that is indented no more than its parent. -/
  | blockNodeOrEntries
  | flowNode
  /-- The content of a document, which may be missing. -/
  | content
  | documentEnd
  | blockEntry (opened : Mark)
  | indentlessEntry
  | blockKey (opened : Mark)
  | blockValue (opened : Mark)
  | firstFlowEntry (opened : Mark)
  | flowEntry (opened : Mark)
  /-- The key of a mapping that is one entry of a flow sequence. -/
  | pairKey (opened : Mark)
  | pairValue (opened : Mark)
  | pairEnd (opened : Mark)
  | firstFlowKey (opened : Mark)
  | flowKey (opened : Mark)
  | flowValue (opened : Mark)
  /-- The value of a key that no question mark or colon makes one. -/
  | missingValue (opened : Mark)
  deriving Repr, DecidableEq, Inhabited

/-- The handles known in a document and what they stand for, latest first. -/
abbrev TagHandles := List (List Char × TagText)

namespace TagHandles

/-- What the handles stand for without any directive. -/
def standard : TagHandles :=
  [("!".toList, ⟨"!".toList, true⟩), ("!!".toList, ⟨"tag:yaml.org,2002:".toList, true⟩)]

/-- The handles of directives with the standard ones that they do not redefine. -/
def complete (own : TagHandles) : TagHandles :=
  own ++ standard.filter fun h => !own.any (·.1 == h.1)

/-- The tag of a handle and a suffix, none if the handle is unknown. -/
def resolve (handles : TagHandles) (handle : List Char) (suffix : TagText) : Option TagText :=
  if handle.isEmpty then some suffix
  else (handles.find? (·.1 == handle)).map (·.2.append suffix)

end TagHandles

namespace Grammar

/-- A move of the machine: the event told, what is allowed after it, and the tokens left. -/
structure Move where
  event : PlacedEvent
  stack : List Expectation
  rest : List Lexeme
  deriving Repr, DecidableEq, Inhabited

/-- The outcome of a move. -/
inductive Outcome
  | told (move : Move)
  /-- The tokens that were told are used up. -/
  | starved
  | failed (fault : Fault)
  deriving Repr, DecidableEq, Inhabited

def empty (place : Mark) : PlacedEvent := ⟨.scalar {} .plain [], place⟩

/-- The properties in front of a node, with the place of the tag, and where the first of them
begins. -/
structure Front where
  anchor : Option (List Char) := none
  tag : Option (List Char × TagText × Mark) := none
  start : Option Mark := none
  deriving Repr, DecidableEq, Inhabited

/-- Reads an anchor and a tag, in either order, off the front of the tokens. -/
def front : List Lexeme → Front × List Lexeme
  | ⟨.anchor a, start, _⟩ :: ⟨.tag h s, place, _⟩ :: rest =>
    (⟨some a, some (h, s, place), some start⟩, rest)
  | ⟨.tag h s, place, _⟩ :: ⟨.anchor a, _, _⟩ :: rest =>
    (⟨some a, some (h, s, place), some place⟩, rest)
  | ⟨.anchor a, start, _⟩ :: rest => (⟨some a, none, some start⟩, rest)
  | ⟨.tag h s, place, _⟩ :: rest => (⟨none, some (h, s, place), some place⟩, rest)
  | rest => ({}, rest)

/-- The content of a node after its properties.  Properties without content belong to an empty
scalar. -/
def nodeContent (block entries : Bool) (stack : List Expectation) (found : Front)
    (tag : Option TagText) : List Lexeme → Outcome
  | [] => .starved
  | lexeme :: rest =>
    let start := found.start.getD lexeme.start
    let properties : Properties := ⟨found.anchor, tag⟩
    match lexeme.token with
    | .scalar style text =>
      .told ⟨⟨.scalar properties style text, start⟩, stack, rest⟩
    | .sequenceOpen =>
      .told ⟨⟨.sequenceStart properties, start⟩, .firstFlowEntry lexeme.start :: stack, rest⟩
    | .mappingOpen =>
      .told ⟨⟨.mappingStart properties, start⟩, .firstFlowKey lexeme.start :: stack, rest⟩
    | token =>
      if entries && token == .blockEntry then
        .told ⟨⟨.sequenceStart properties, start⟩, .indentlessEntry :: stack, lexeme :: rest⟩
      else if block && token == .blockSequence then
        .told ⟨⟨.sequenceStart properties, start⟩, .blockEntry lexeme.start :: stack, rest⟩
      else if block && token == .blockMapping then
        .told ⟨⟨.mappingStart properties, start⟩, .blockKey lexeme.start :: stack, rest⟩
      else if found.start.isSome then
        .told ⟨⟨.scalar properties .plain [], start⟩, stack, lexeme :: rest⟩
      else
        .failed ⟨.noContent, lexeme.start,
          some (if block then .blockNode else .flowNode, start)⟩

def node (block entries : Bool) (handles : TagHandles) (stack : List Expectation)
    (lexemes : List Lexeme) : Outcome :=
  match lexemes with
  | ⟨.reference name, start, _⟩ :: rest => .told ⟨⟨.reference name, start⟩, stack, rest⟩
  | _ =>
    let (found, rest) := front lexemes
    match rest, found.tag with
    | [], _ => .starved
    | _, none => nodeContent block entries stack found none rest
    | _, some (handle, suffix, place) =>
      match handles.resolve handle suffix with
      | none =>
        .failed ⟨.undefinedTagHandle, place, some (.node, found.start.getD place)⟩
      | some tag => nodeContent block entries stack found (some tag) rest

/-- A node, or an empty scalar at `place` if the next token satisfies `missing`. -/
def nodeUnless (missing : Token → Bool) (place : Mark) (block entries : Bool)
    (handles : TagHandles) (stack : List Expectation) : List Lexeme → Outcome
  | [] => .starved
  | lexeme :: rest =>
    if missing lexeme.token then .told ⟨empty place, stack, lexeme :: rest⟩
    else node block entries handles stack (lexeme :: rest)

/-- Whether a token leaves the key or value of a block mapping before it empty. -/
def endsBlockPart : Token → Bool
  | .key | .value | .blockEnd => true
  | _ => false

/-- Whether a token leaves the entry of a block sequence before it empty. -/
def endsBlockEntry : Token → Bool
  | .blockEntry | .blockEnd => true
  | _ => false

/-- Whether a token leaves the entry of an indentless sequence before it empty. -/
def endsIndentlessEntry : Token → Bool
  | .blockEntry | .key | .value | .blockEnd => true
  | _ => false

/-- Whether a token leaves the value in a flow sequence before it empty. -/
def endsPairValue : Token → Bool
  | .flowEntry | .sequenceClose => true
  | _ => false

/-- Whether a token leaves the value in a flow mapping before it empty. -/
def endsFlowValue : Token → Bool
  | .flowEntry | .mappingClose => true
  | _ => false

/-- Whether a token leaves the key in a flow mapping before it empty. -/
def endsFlowKey : Token → Bool
  | .value | .flowEntry | .mappingClose => true
  | _ => false

/-- Whether a token leaves a document without content. -/
def endsContent : Token → Bool
  | .version .. | .tagHandle .. | .documentStart | .documentEnd | .streamEnd => true
  | _ => false

/-- An entry of a flow sequence, or its end. -/
def sequenceEntry (handles : TagHandles) (stack : List Expectation) (opened : Mark) :
    List Lexeme → Outcome
  | [] => .starved
  | lexeme :: rest =>
    match lexeme.token with
    | .key => .told ⟨⟨.mappingStart {}, lexeme.start⟩, .pairKey opened :: stack, rest⟩
    | .sequenceClose => .told ⟨⟨.sequenceEnd, lexeme.start⟩, stack, rest⟩
    | _ => node false false handles (.flowEntry opened :: stack) (lexeme :: rest)

/-- A key of a flow mapping, or its end. -/
def mappingKey (handles : TagHandles) (stack : List Expectation) (opened : Mark) :
    List Lexeme → Outcome
  | [] => .starved
  | lexeme :: rest =>
    match lexeme.token, rest with
    | .key, [] => .starved
    | .key, after :: _ =>
      nodeUnless endsFlowKey after.start false false handles (.flowValue opened :: stack) rest
    | .mappingClose, _ => .told ⟨⟨.mappingEnd, lexeme.start⟩, stack, rest⟩
    | _, _ => node false false handles (.missingValue opened :: stack) (lexeme :: rest)

/-- The move that the first token of `lexeme :: rest` calls for. -/
def move (handles : TagHandles) (expected : Expectation) (stack : List Expectation)
    (lexeme : Lexeme) (rest : List Lexeme) : Outcome :=
  let all := lexeme :: rest
  match expected with
  | .blockNode => node true false handles stack all
  | .blockNodeOrEntries => node true true handles stack all
  | .flowNode => node false false handles stack all
  | .content =>
    if endsContent lexeme.token then .told ⟨empty lexeme.start, stack, all⟩
    else node true false handles stack all
  | .documentEnd => .starved
  | .blockEntry opened =>
    match lexeme.token with
    | .blockEntry =>
      nodeUnless endsBlockEntry lexeme.stop true false handles (expected :: stack) rest
    | .blockEnd => .told ⟨⟨.sequenceEnd, lexeme.start⟩, stack, rest⟩
    | _ => .failed ⟨.noEntry, lexeme.start, some (.blockCollection, opened)⟩
  | .indentlessEntry =>
    match lexeme.token with
    | .blockEntry =>
      nodeUnless endsIndentlessEntry lexeme.stop true false handles (expected :: stack) rest
    | _ => .told ⟨⟨.sequenceEnd, lexeme.start⟩, stack, all⟩
  | .blockKey opened =>
    match lexeme.token with
    | .key =>
      nodeUnless endsBlockPart lexeme.stop true true handles (.blockValue opened :: stack) rest
    | .blockEnd => .told ⟨⟨.mappingEnd, lexeme.start⟩, stack, rest⟩
    | _ => .failed ⟨.noKey, lexeme.start, some (.blockMapping, opened)⟩
  | .blockValue opened =>
    match lexeme.token with
    | .value =>
      nodeUnless endsBlockPart lexeme.stop true true handles (.blockKey opened :: stack) rest
    | _ => .told ⟨empty lexeme.start, .blockKey opened :: stack, all⟩
  | .firstFlowEntry opened => sequenceEntry handles stack opened all
  | .flowEntry opened =>
    match lexeme.token with
    | .flowEntry => sequenceEntry handles stack opened rest
    | .sequenceClose => .told ⟨⟨.sequenceEnd, lexeme.start⟩, stack, rest⟩
    | _ => .failed ⟨.noSequenceEnd, lexeme.start, some (.flowSequence, opened)⟩
  | .pairKey opened =>
    match lexeme.token with
    | .value | .flowEntry | .sequenceClose =>
      .told ⟨empty lexeme.stop, .pairValue opened :: stack, rest⟩
    | _ => node false false handles (.pairValue opened :: stack) all
  | .pairValue opened =>
    match lexeme.token, rest with
    | .value, [] => .starved
    | .value, after :: _ =>
      nodeUnless endsPairValue after.start false false handles (.pairEnd opened :: stack) rest
    | _, _ => .told ⟨empty lexeme.start, .pairEnd opened :: stack, all⟩
  | .pairEnd opened => .told ⟨⟨.mappingEnd, lexeme.start⟩, .flowEntry opened :: stack, all⟩
  | .firstFlowKey opened => mappingKey handles stack opened all
  | .flowKey opened =>
    match lexeme.token with
    | .flowEntry => mappingKey handles stack opened rest
    | .mappingClose => .told ⟨⟨.mappingEnd, lexeme.start⟩, stack, rest⟩
    | _ => .failed ⟨.noMappingEnd, lexeme.start, some (.flowMapping, opened)⟩
  | .flowValue opened =>
    match lexeme.token, rest with
    | .value, [] => .starved
    | .value, after :: _ =>
      nodeUnless endsFlowValue after.start false false handles (.flowKey opened :: stack) rest
    | _, _ => .told ⟨empty lexeme.start, .flowKey opened :: stack, all⟩
  | .missingValue opened => .told ⟨empty lexeme.start, .flowKey opened :: stack, all⟩

/-- The events of a document's content, with what stopped them: nothing, used up tokens (`some
none`) or a fault; and the tokens left. -/
def run (handles : TagHandles) :
    Nat → List Expectation → List Lexeme → List PlacedEvent × Option (Option Fault) × List Lexeme
  | _, [], lexemes => ([], none, lexemes)
  | 0, _ :: _, lexemes => ([], none, lexemes)
  | _ + 1, _ :: _, [] => ([], some none, [])
  | limit + 1, expected :: stack, lexeme :: rest =>
    match move handles expected stack lexeme rest with
    | .starved => ([], some none, [])
    | .failed fault => ([], some (some fault), lexeme :: rest)
    | .told m =>
      let (events, stop, left) := run handles limit m.stack m.rest
      (m.event :: events, stop, left)

end Grammar

/-- The events of the first document of a text. -/
structure DocumentEvents where
  /-- The events, none at all if the text holds no document. -/
  events : List PlacedEvent
  /-- The fault that ends them early. -/
  fault : Option Fault := none
  /-- Whether anything comes after the document. -/
  more : Bool := false
  deriving Repr, DecidableEq, Inhabited

namespace DocumentEvents

/-- The directives in front of a document, and the tokens after them. -/
def directives : List Lexeme → (version : Bool) → TagHandles →
    Except Fault (TagHandles × List Lexeme)
  | ⟨.version major minor, start, _⟩ :: rest, version, handles =>
    if version then .error ⟨.duplicateVersion, start, none⟩
    else if major ≠ 1 ∨ (minor ≠ 1 ∧ minor ≠ 2) then .error ⟨.incompatibleVersion, start, none⟩
    else directives rest true handles
  | ⟨.tagHandle handle expansion, start, _⟩ :: rest, version, handles =>
    if handles.any (·.1 == handle) then .error ⟨.duplicateTagHandle, start, none⟩
    else directives rest version (handles ++ [(handle, expansion)])
  | rest, _, handles => .ok (handles.complete, rest)

/-- Whether tokens after a document begin another one, or are no document either. -/
def hasMore : List Lexeme → Bool
  | ⟨.documentEnd, _, _⟩ :: rest => hasMore rest
  | ⟨.streamEnd, _, _⟩ :: _ => false
  | _ => true

/-- The events of a document whose grammar begins with `expected`.  Used up tokens end it with the
stream's own fault. -/
def content (handles : TagHandles) (expected : Expectation) (lexemes : List Lexeme)
    (fault : Option Fault) : DocumentEvents :=
  match Grammar.run handles (4 * lexemes.length + 4) [expected] lexemes with
  | (events, some none, _) => ⟨events, fault, false⟩
  | (events, some (some own), _) => ⟨events, some own, false⟩
  | (events, none, []) => ⟨events, fault, false⟩
  | (events, none, left) => ⟨events, none, hasMore left⟩

/-- The events of the first document. -/
def ofTokens (stream : TokenStream) : DocumentEvents :=
  match stream.lexemes with
  | [] => ⟨[], stream.fault, false⟩
  | ⟨.streamEnd, _, _⟩ :: _ => ⟨[], none, false⟩
  | first :: rest =>
    match first.token with
    | .version .. | .tagHandle .. | .documentStart =>
      match directives (first :: rest) false [] with
      | .error fault => ⟨[], some fault, false⟩
      | .ok (_, []) => ⟨[], stream.fault, false⟩
      | .ok (handles, ⟨.documentStart, _, _⟩ :: body) =>
        content handles .content body stream.fault
      | .ok (_, lexeme :: _) => ⟨[], some ⟨.noDocumentStart, lexeme.start, none⟩, false⟩
    | _ => content TagHandles.standard .blockNode (first :: rest) stream.fault

/-- The events of the first document of a text. -/
def ofString (text : String) : DocumentEvents := ofTokens (.ofString text)

end DocumentEvents

end CollectorTemplate.Yaml
