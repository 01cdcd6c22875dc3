import MetaCache.World
/-!
# Classes and metaobjects

The host's registry finds classes and methods by name. Redefining a class keeps its identity and
counts its generation up, so that whatever was compiled from it can be seen to be stale.

* `World.defineClass`, `World.bumpClass`, `World.removeClass`: classes.
* `World.defineMethod`: methods that every object has.
* `putNamed`, `World.setBehavior`: how metaobjects answer.
-/

namespace MetaCache

/-- A list of pairs with `a` for `name`, in the place of what was there. -/
def putNamed {α : Type} (name : String) (a : α) : List (String × α) → List (String × α)
  | [] => [(name, a)]
  | (n, old) :: rest => if n = name then (n, a) :: rest else (n, old) :: putNamed name a rest

theorem lookup_putNamed {α : Type} (name n : String) (a : α) (es : List (String × α)) :
    (putNamed name a es).lookup n = if n = name then some a else es.lookup n := by
  induction es with
  | nil =>
    by_cases h : n = name
    · simp [putNamed, h]
    · simp [putNamed, h, List.lookup_cons, beq_false_of_ne h]
  | cons e rest ih =>
    obtain ⟨k, old⟩ := e
    unfold putNamed
    by_cases hk : k = name
    · subst hk
      by_cases h : n = k
      · simp [h]
      · simp [h, List.lookup_cons, beq_false_of_ne h]
    · rw [if_neg hk]
      by_cases h : n = k
      · subst h
        simp [hk]
      · simp [List.lookup_cons, beq_false_of_ne h, ih]

/-- The shares held by the behaviour for a method. -/
def Behaviors.ownedBy (method : String) (bs : Behaviors) : List Owned :=
  ((bs.lookup method).map Behavior.owned).getD []

namespace Object

/-- The attributes of a class; other objects have none. -/
def attributes : Object → List Value
  | classMeta _ _ attrs => attrs
  | _ => []

/-- The object with other attributes, if it is a class. -/
def withAttributes (attrs : List Value) : Object → Object
  | classMeta n g _ => classMeta n g attrs
  | o => o

/-- The object under its next generation, if it is a class. -/
def bumped : Object → Object
  | classMeta n g attrs => classMeta n (g + 1) attrs
  | o => o

/-- The generation of a class; that of other objects is zero. -/
def generation : Object → Nat
  | classMeta _ g _ => g
  | _ => 0

/-- Whether the object is a class. -/
def isClass : Object → Bool
  | classMeta .. => true
  | _ => false

/-- The object with other behaviours, if it is a metaobject that has behaviours. -/
def withBehaviors (bs : Behaviors) : Object → Object
  | attributeMeta _ => attributeMeta bs
  | instanceMeta n _ => instanceMeta n bs
  | o => o

/-- Whether the object answers methods by behaviours. -/
def hasBehaviors : Object → Bool
  | attributeMeta _ | instanceMeta .. => true
  | _ => false

end Object

namespace World

/-- The class of that name. -/
def class? (w : World) (name : String) : Option CellId :=
  w.registry.classes.lookup name

/-- The object in a cell. -/
def objectIn? (w : World) (c : CellId) : Option Object :=
  w.store.object? (.ref c)

/-- The generation of the class in a cell. -/
def generation (w : World) (c : CellId) : Nat :=
  ((w.objectIn? c).map Object.generation).getD 0

/-- Changes the object in a cell. -/
def modifyObject (c : CellId) (f : Object → Object) (w : World) : World :=
  match w.objectIn? c with
  | some o => w.onStore (·.setReferent c (.object (f o)))
  | none => w

/-- Gives a class other attributes, which it owns from then on; the old ones are given back. -/
def setAttributes (c : CellId) (attrs : List Value) (w : World) : World :=
  let old := ((w.objectIn? c).map Object.attributes).getD []
  (w.modifyObject c (Object.withAttributes attrs)).onStore (·.release (ownedByAll old))

/-- Gives a class one attribute more, which it owns from then on. -/
def pushAttribute (c : CellId) (attr : Value) (w : World) : World :=
  w.modifyObject c fun o => o.withAttributes (o.attributes ++ [attr])

/-- Counts the generation of a class up and answers the new one. -/
def bumpClass (c : CellId) (w : World) : Nat × World :=
  let w := w.modifyObject c Object.bumped
  (w.generation c, w)

/-- Defines a class, or redefines it under its identity and the next generation. The caller gets a
share of the class. -/
def defineClass (name : String) (attrs : List Value) (w : World) : CellId × World :=
  match w.class? name with
  | some c =>
    let w := w.onStore (·.retain [.cell c])
    (c, ((w.setAttributes c attrs).bumpClass c).2)
  | none =>
    let (c, store) := w.store.newCell (.object (.classMeta name 0 attrs))
    let classes := putNamed name c w.registry.classes
    (c, { w with store := store.retain [.cell c], registry := { w.registry with classes } })

/-- Forgets the class of that name and hands its share over. -/
def removeClass (name : String) (w : World) : Option CellId × World :=
  let classes := w.registry.classes.filter fun e => e.1 != name
  (w.class? name, { w with registry := { w.registry with classes } })

/-- Makes the code in a cell, which is taken over from the caller, a method of every object. -/
def defineMethod (name : String) (c : CellId) (w : World) : World :=
  let old := ownedByCell? (w.registry.methods.lookup name)
  let methods := putNamed name c w.registry.methods
  World.onStore (·.release old) { w with registry := { w.registry with methods } }

/-- Counts a call of a method. -/
def countCall (w : World) : World :=
  { w with registry := { w.registry with calls := w.registry.calls + 1 } }

/-- Lets the metaobject in a cell answer a method in another way, which it owns from then on. -/
def setBehavior (c : CellId) (method : String) (b : Behavior) (w : World) : World :=
  let bs := ((w.objectIn? c).map Object.behaviors).getD []
  let w := w.modifyObject c (Object.withBehaviors (putNamed method b bs))
  w.onStore (·.release (bs.ownedBy method))

end World

end MetaCache
