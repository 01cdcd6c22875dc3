import MetaCache.Number.Format
/-!
# TOML documents

A document is a tree of tables. How a table came about decides whether it can be extended later: a
header can take up a table that so far only occurred inside longer headers, dotted keys can extend
tables made by dotted keys, and inline tables are closed. The entries of a table are kept in
ascending order of their keys.

* `Node`: a value or a table.
* `Entries.assign`: the effect of a line `key = value`.
* `Entries.openTable`, `Entries.openElement`, `Entries.within`: the effect of headers.
-/

namespace MetaCache.Toml

/-- How a table came about. -/
inductive Origin where
  /-- As part of a longer header. -/
  | implicit
  /-- By a header of its own. -/
  | header
  /-- By a dotted key. -/
  | dotted
deriving DecidableEq, Repr

/-- A value or a table. -/
inductive Node where
  | str (s : String)
  | int (n : Int)
  | float (x : Binary64)
  /-- What has the form of a number and yet is none, because a digit is missing or wrong, or because
  it is too large for a floating-point number. -/
  | malformedNumber
  | bool (b : Bool)
  /-- A date, a time or both; which one is of no concern here. -/
  | datetime
  | array (items : List Node)
  /-- A table written as a value. -/
  | inline (entries : List (String × Node))
  | table (origin : Origin) (entries : List (String × Node))
  /-- An array of tables: the closed ones, and the last one, which can be extended. -/
  | tables (closed : List (List (String × Node))) (last : List (String × Node))

/-- The entries of a table, in ascending order of their keys. -/
abbrev Entries := List (String × Node)

namespace Entries

/-- The entry of a key. -/
def find? (es : Entries) (k : String) : Option Node :=
  es.lookup k

/-- The entries with `v` at the key `k`. -/
def put (k : String) (v : Node) : Entries → Entries
  | [] => [(k, v)]
  | (j, w) :: rest =>
    if k < j then (k, v) :: (j, w) :: rest
    else if k = j then (k, v) :: rest
    else (j, w) :: put k v rest

/-- Assigns `v` to a dotted key. A key can be assigned once. Tables on the way must not have a
header of their own; `open_` tells whether the table at hand can get the last key, which it can if
the line stands in it or if it was made by dotted keys. -/
def assign (v : Node) : Bool → List String → Entries → Option Entries
  | _, [], _ => none
  | open_, [k], es => if open_ && (find? es k).isNone then some (put k v es) else none
  | _, k :: rest, es =>
    match find? es k with
    | none => (assign v true rest []).map fun sub => put k (.table .dotted sub) es
    | some (.table .dotted sub) =>
      (assign v true rest sub).map fun sub => put k (.table .dotted sub) es
    | some (.table .implicit sub) =>
      (assign v false rest sub).map fun sub => put k (.table .implicit sub) es
    | some (.tables closed last) =>
      (assign v false rest last).map fun last => put k (.tables closed last) es
    | some _ => none

/-- Applies `f` to the entries of the table that the path leads to. Tables missing on the way are
made, and an array of tables is entered at its last table. -/
def within (f : Entries → Option Entries) : List String → Entries → Option Entries
  | [], es => f es
  | k :: rest, es =>
    match find? es k with
    | none => (within f rest []).map fun sub => put k (.table .implicit sub) es
    | some (.table origin sub) =>
      (within f rest sub).map fun sub => put k (.table origin sub) es
    | some (.tables closed last) =>
      (within f rest last).map fun last => put k (.tables closed last) es
    | some _ => none

/-- Opens the table `k` by a header. It must be new, or known from longer headers only. -/
def openTable (k : String) (es : Entries) : Option Entries :=
  match find? es k with
  | none => some (put k (.table .header []) es)
  | some (.table .implicit sub) => some (put k (.table .header sub) es)
  | some _ => none

/-- Opens one more table of the array `k` by a header. -/
def openElement (k : String) (es : Entries) : Option Entries :=
  match find? es k with
  | none => some (put k (.tables [] []) es)
  | some (.tables closed last) => some (put k (.tables (closed ++ [last]) []) es)
  | some _ => none

end Entries

end MetaCache.Toml
