/-!
# Paths

A path is a text whose names are separated by slashes. Text, not the list of names, is what is shown
to others, so a path keeps every slash and dot it was written with.

* `Path.push`: a path continued by another one.
* `Path.names`: the names along a path.
* `Path.parentNames`: the names along the path of the directory that a path lies in.
-/

namespace MetaCache.Path

/-- The path `base` continued by `rest`. A slash is put in only where one is missing, and a `rest`
that starts at the root replaces `base`. -/
def push (base rest : String) : String :=
  if rest.startsWith "/" then rest
  else if base.isEmpty || base.endsWith "/" then base ++ rest
  else base ++ "/" ++ rest

/-- The names along a path, in order; empty names come from slashes without a name between them. -/
def namesOf : List Char → List String
  | [] => [""]
  | c :: cs =>
    if c = '/' then "" :: namesOf cs
    else
      match namesOf cs with
      | [] => [c.toString]
      | n :: ns => (c.toString ++ n) :: ns

/-- The names along a path, in order. -/
def names (path : String) : List String := namesOf path.toList

/-- Whether a name leads nowhere. -/
def isIdle (name : String) : Bool :=
  name = "" || name = "."

/-- The names without the idle ones at the end. -/
def dropIdle (ns : List String) : List String :=
  (ns.reverse.dropWhile isIdle).reverse

/-- The names of the directory that a path lies in: idle names at the end do not count, neither
before the last name is taken away nor after. -/
def parentNames (ns : List String) : List String :=
  dropIdle (dropIdle ns).dropLast

/-- The names without the empty ones at the end, which stem from slashes. -/
def dropSlashes (ns : List String) : List String :=
  (ns.reverse.dropWhile (· == "")).reverse

end MetaCache.Path
