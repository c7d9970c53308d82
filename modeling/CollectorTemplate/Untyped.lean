/-
Data before it has a type.

A text of either format is first read as an `Untyped`, which keeps all that a typed reading may ask
for: the order of entries and their repetitions, keys of any kind, tags, and whether an integer was
written with a minus sign.

* `Untyped` : the data;
* `Untyped.sameKey` : when two keys of a mapping count as one.
-/

namespace CollectorTemplate

/-- Data before it has a type. -/
inductive Untyped
  | null
  | bool (value : Bool)
  | natural (value : Nat)
  /-- An integer written with a minus sign. -/
  | negative (value : Int)
  | float (value : Float)
  | string (value : String)
  | sequence (items : List Untyped)
  | mapping (entries : List (Untyped × Untyped))
  | tagged (tag : String) (value : Untyped)
  deriving Inhabited

namespace Untyped

/-- The integer that data is. -/
def int? : Untyped → Option Int
  | natural n => some n
  | negative n => some n
  | _ => none

/-- Tags are the same with and without an exclamation mark in front. -/
def bareTag (tag : String) : List Char :=
  match tag.toList with
  | '!' :: c :: rest => c :: rest
  | chars => chars

/-- Floating-point keys are the same if they are equal or both no number. -/
def sameFloat (x y : Float) : Bool := x == y || (x.isNaN && y.isNaN)

mutual

/-- Whether two keys of a mapping are the same key. -/
def sameKey : Untyped → Untyped → Bool
  | null, null => true
  | bool a, bool b => a == b
  | natural a, b => b.int? == some (a : Int)
  | negative a, b => b.int? == some a
  | float a, float b => sameFloat a b
  | string a, string b => a == b
  | sequence a, sequence b => sameItems a b
  | mapping a, mapping b => a.length == b.length && sameEntries a b
  | tagged s a, tagged t b => bareTag s == bareTag t && sameKey a b
  | _, _ => false

/-- Whether two sequences are the same, item by item. -/
def sameItems : List Untyped → List Untyped → Bool
  | [], [] => true
  | a :: as, b :: bs => sameKey a b && sameItems as bs
  | _, _ => false

/-- Whether each entry of a mapping is also in another, in any order. -/
def sameEntries : List (Untyped × Untyped) → List (Untyped × Untyped) → Bool
  | [], _ => true
  | (k, v) :: rest, other =>
    (other.any fun entry => sameKey k entry.1 && sameKey v entry.2) && sameEntries rest other

end

end Untyped

end CollectorTemplate
