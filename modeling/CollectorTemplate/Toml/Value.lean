/-
Values of TOML.

A table knows how it came about, since that decides what may be added to it.

* `Toml.Value` : what a key can hold;
* `Toml.within` : changes the table at the end of a path of keys, which need not exist yet;
* `Toml.assign` : gives a key its value;
* `Toml.openTable`, `Toml.openItem` : what the headers of a table and of a table in a row do.

Nothing is ever given twice: `assign`, `openTable` and `openItem` have no result where that would
happen.
-/
import CollectorTemplate.Entries
import CollectorTemplate.Toml.Moment

namespace CollectorTemplate.Toml

/-- How a table came about. -/
inductive Origin
  /-- It is written in braces, and complete. -/
  | inline
  /-- A header names it. -/
  | header
  /-- The key of an entry leads through it. -/
  | dotted
  /-- A header leads through it. -/
  | implied
  deriving Repr, DecidableEq, Inhabited

/-- What a key can hold. -/
inductive Value
  | string (text : String)
  | boolean (value : Bool)
  /-- An integer of any size. -/
  | integer (value : Int)
  /-- A floating-point number, none if it is too large to be one. -/
  | float (value : Option Float)
  | moment (value : Moment)
  | array (items : List Value)
  /-- Tables in a row, each with a header of its own, latest first. -/
  | tables (latest : List (String × Value)) (earlier : List (List (String × Value)))
  | table (origin : Origin) (entries : List (String × Value))
  deriving Repr, Inhabited

/-- The entries of a table, in the order in which they were written. -/
abbrev Table := List (String × Value)

/-- Changes the table at the end of a path.  Tables in a row stand for the latest of them.  Tables
that do not exist are made; `dotted` says whether the key of an entry or a header leads through
them.  A path does not lead into a table in braces, and that of an entry does not lead into a table
with a header. -/
def within (dotted : Bool) (change : Origin → Table → Option Table) :
    (path : List String) → Origin → Table → Option Table
  | [], origin, entries => change origin entries
  | key :: path, _, entries =>
    match Entries.find? key entries with
    | none => do
      let origin := if dotted then .dotted else .implied
      let inner ← within dotted change path origin []
      return Entries.put key (.table origin inner) entries
    | some (.table origin inner) =>
      if origin = .inline ∨ (dotted ∧ origin = .header) then none
      else do
        let inner ← within dotted change path origin inner
        return Entries.put key (.table origin inner) entries
    | some (.tables latest earlier) => do
      let latest ← within dotted change path .header latest
      return Entries.put key (.tables latest earlier) entries
    | some _ => none

/-- Gives a key its value.  Behind a path the key belongs to a table that such paths alone lead
to. -/
def assign (path : List String) (key : String) (value : Value) (entries : Table) : Option Table :=
  let dotted := !path.isEmpty
  within dotted
    (fun origin table =>
      if (dotted && origin != .dotted) || Entries.contains key table then none
      else some (Entries.put key value table))
    path .header entries

/-- The header of a table.  Until then a header may only have led through it. -/
def openTable (path : List String) (key : String) (root : Table) : Option Table :=
  within false
    (fun _ table =>
      match Entries.find? key table with
      | none => some (Entries.put key (.table .header []) table)
      | some (.table .implied entries) => some (Entries.put key (.table .header entries) table)
      | some _ => none)
    path .header root

/-- The header of one more table in a row. -/
def openItem (path : List String) (key : String) (root : Table) : Option Table :=
  within false
    (fun _ table =>
      match Entries.find? key table with
      | none => some (Entries.put key (.tables [] []) table)
      | some (.tables latest earlier) =>
        some (Entries.put key (.tables [] (latest :: earlier)) table)
      | some _ => none)
    path .header root

end CollectorTemplate.Toml
