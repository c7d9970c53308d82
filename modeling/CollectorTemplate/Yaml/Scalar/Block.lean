/-
Block scalars.

A block scalar is a header and the lines below it that are indented deeply enough.  Literal scalars
keep line breaks, folded ones join lines, and the header may say how to treat the breaks at the end.

* `Block.Header` : what the header says;
* `Block.scan` : the text of the block scalar whose indicator is at the cursor, and where it ends.
-/
import CollectorTemplate.Yaml.Cursor

namespace CollectorTemplate.Yaml.Block

/-- What becomes of the line breaks at the end. -/
inductive Chomping
  /-- The last line break is kept. -/
  | clip
  /-- No line break is kept. -/
  | strip
  /-- All line breaks are kept. -/
  | keep
  deriving Repr, DecidableEq, Inhabited

structure Header where
  chomping : Chomping := .clip
  /-- The indentation beyond that of the parent, if the header gives it. -/
  indent : Option Nat := none
  deriving Repr, DecidableEq, Inhabited

/-- The chomping that a character indicates. -/
def chomping? (c : Char) : Option Chomping :=
  if c = '+' then some .keep else if c = '-' then some .strip else none

/-- The header after the indicator of a block scalar that began at `start`. -/
def header (c : Cursor) (start : Mark) : Except Fault (Header × Cursor) :=
  let digit (chomping : Chomping) (c : Cursor) : Except Fault (Header × Cursor) :=
    match c.rest with
    | d :: _ =>
      if d = '0' then .error (c.fault .zeroIndentation .blockScalar start)
      else if d.isDigit then .ok (⟨chomping, some (d.toNat - '0'.toNat)⟩, c.next)
      else .ok (⟨chomping, none⟩, c)
    | [] => .ok (⟨chomping, none⟩, c)
  match c.rest with
  | [] => .ok ({}, c)
  | x :: _ =>
    match chomping? x with
    | some chomping => digit chomping c.next
    | none => do
      let (h, c) ← digit .clip c
      match h.indent, c.rest with
      | some _, y :: _ =>
        match chomping? y with
        | some chomping => return ({ h with chomping := chomping }, c.next)
        | none => return (h, c)
      | _, _ => return (h, c)

/-- The rest of the header line. -/
def headerEnd (c : Cursor) (start : Mark) : Except Fault Cursor :=
  let c := c.skipBlanks.skipComment
  if c.atLineEnd then .ok c.newline
  else .error (c.fault .blockHeaderNotEnded .blockScalar start)

/-- What of a block scalar has been read; lists hold the latest character first. -/
structure Partial where
  text : List Char := []
  /-- The break that ends the last line of text. -/
  leading : Option Char := none
  /-- The breaks of the empty lines since. -/
  trailing : List Char := []
  /-- Whether the last line of text begins with a blank. -/
  spaced : Bool := false
  deriving Repr, DecidableEq, Inhabited

namespace Partial

/-- The text with the breaks read since, before a line that begins with a blank or not.  A folded
scalar joins two lines without blanks at their beginning. -/
def join (folded : Bool) (p : Partial) (blank : Bool) : Partial :=
  let joined :=
    if folded && p.leading == some '\n' && !p.spaced && !blank then
      if p.trailing.isEmpty then [' '] else []
    else p.leading.toList
  ⟨p.trailing ++ (joined ++ p.text), none, [], blank⟩

/-- The whole text, with the breaks at the end as the header asks. -/
def finish (p : Partial) (chomping : Chomping) : List Char :=
  let kept :=
    match chomping with
    | .strip => []
    | .clip => p.leading.toList
    | .keep => p.trailing ++ p.leading.toList
  (kept ++ p.text).reverse

end Partial

/-- Where in a block scalar the reading stands. -/
inductive Phase
  /-- In the indentation of a line; with no known depth of indentation, the deepest seen so far. -/
  | indentation (depth : Option Nat) (deepest : Nat)
  /-- In a line of text. -/
  | line (depth : Nat)
  deriving Repr, DecidableEq, Inhabited

/-- The depth of indentation: as given, or that of the first line of text, but deeper than the
parent's `indent`. -/
def Phase.settled (indent : Int) : Phase → Mark → Nat
  | .indentation none deepest, mark => max (max deepest mark.column) (max (indent + 1).toNat 1)
  | .indentation (some depth) _, _ => depth
  | .line depth, _ => depth

/-- Whether a space here still belongs to the indentation. -/
def isIndentation (depth : Option Nat) (mark : Mark) : Bool :=
  match depth with
  | none => true
  | some depth => mark.column < depth

/-- Reads on, character by character, in the block scalar that began at `start`, below a parent of
indentation `indent`. -/
def scanFrom (folded : Bool) (indent : Int) (start : Mark) :
    List Char → Mark → Phase → Partial → Except Fault (Partial × Cursor)
  | [], mark, _, p => .ok (p, ⟨[], mark⟩)
  | '\r' :: '\n' :: rest, mark, .line depth, p =>
    scanFrom folded indent start rest mark.pairedNewline (.indentation (some depth) 0)
      { p with leading := some '\n' }
  | '\r' :: '\n' :: rest, mark, .indentation depth deepest, p =>
    scanFrom folded indent start rest mark.pairedNewline
      (.indentation depth (max deepest mark.column)) { p with trailing := '\n' :: p.trailing }
  | c :: rest, mark, .line depth, p =>
    if isBreak c then
      scanFrom folded indent start rest (mark.newline c) (.indentation (some depth) 0)
        { p with leading := some (breakText c) }
    else
      scanFrom folded indent start rest (mark.next c) (.line depth) { p with text := c :: p.text }
  | c :: rest, mark, .indentation depth deepest, p =>
    if c = ' ' ∧ isIndentation depth mark then
      scanFrom folded indent start rest (mark.next c) (.indentation depth deepest) p
    else if c = '\t' ∧ isIndentation depth mark then
      .error ⟨.tabInIndentation, mark, some (.blockScalar, start)⟩
    else if isBreak c then
      scanFrom folded indent start rest (mark.newline c)
        (.indentation depth (max deepest mark.column))
        { p with trailing := breakText c :: p.trailing }
    else
      let settled := (Phase.indentation depth deepest).settled indent mark
      if mark.column = settled then
        let p := p.join folded (isBlank c)
        scanFrom folded indent start rest (mark.next c) (.line settled)
          { p with text := c :: p.text }
      else .ok (p, ⟨c :: rest, mark⟩)

/-- The block scalar at the cursor, below a parent of indentation `indent`: its text, and where
reading goes on. -/
def scan (folded : Bool) (indent : Int) (c : Cursor) : Except Fault (List Char × Cursor) := do
  let (h, body) ← header c.next c.mark
  let body ← headerEnd body c.mark
  let depth := h.indent.map fun n => (max indent 0).toNat + n
  let (p, stop) ← scanFrom folded indent c.mark body.rest body.mark (.indentation depth 0) {}
  return (p.finish h.chomping, stop)

end CollectorTemplate.Yaml.Block
