/-
Entries in the order of their keys.

A table from texts to data is the list of its entries, the keys strictly increasing.  Texts are
ordered by code points, which is also the order of their UTF-8 octets.

* `Entries.insert` : sets the data of a key;
* `Entries.find?`, `Entries.keys` : what is at a key, and the keys;
* `Entries.put` : sets the data of a key where entries are in no particular order.
-/

namespace CollectorTemplate.Entries

variable {α : Type}

/-- Sets the data of a key, in its place in the order. -/
def insert (key : String) (value : α) : List (String × α) → List (String × α)
  | [] => [(key, value)]
  | (k, v) :: rest =>
    if key < k then (key, value) :: (k, v) :: rest
    else if key = k then (key, value) :: rest
    else (k, v) :: insert key value rest

/-- The data of a key. -/
def find? (key : String) : List (String × α) → Option α
  | [] => none
  | (k, v) :: rest => if key = k then some v else find? key rest

/-- The keys, in order. -/
def keys (entries : List (String × α)) : List String := entries.map Prod.fst

/-- Whether a key has data. -/
def contains (key : String) (entries : List (String × α)) : Bool := (find? key entries).isSome

/-- The table of entries in any order; of several with one key the last counts. -/
def ofList (entries : List (String × α)) : List (String × α) :=
  entries.foldl (fun table e => insert e.1 e.2 table) []

/-- Sets the data of a key among entries in no particular order. -/
def put (key : String) (value : α) : List (String × α) → List (String × α)
  | [] => [(key, value)]
  | (k, v) :: rest => if key = k then (key, value) :: rest else (k, v) :: put key value rest

/-- The keys strictly increase. -/
def Sorted (entries : List (String × α)) : Prop := entries.Pairwise fun a b => a.1 < b.1

end CollectorTemplate.Entries
