import MetaCache.Script.Variable
/-!
# Views

What a script is shown of the things of the domain, at the moment it looks.

* `World.view`, `World.dump`: values, and values with their contents.
* `World.viewDescriptor`, `World.viewShadowInfo`, `World.viewRecord`: compiled structures.
* `Descriptor.shown`, `Shadow.shown`: compiled structures on one line.
-/

namespace MetaCache

open Script

/-- The view of a key. -/
def Key.view (k : Key) : KeyView := ⟨k.text, k.hash⟩

/-- The view of a shadow, by its slots. -/
def Shadow.view (s : Shadow) : ShadowView :=
  ⟨s.className, s.generation, s.descriptors.map (·.slot.text)⟩

/-- What a view tells of a referent besides its kind. -/
def Referent.detail : Referent → RefDetail
  | code c => .code c.name
  | object o => .object o.className
  | _ => .container

namespace World

/-- The view of a cell, which must be alive. -/
def viewCell? (w : World) (c : CellId) : Option RefView :=
  (w.store.referent? c).map fun r => ⟨r.kindName, w.holders c, r.detail⟩

/-- The view of a cell. -/
def viewCell (w : World) (c : CellId) : RefView :=
  (w.viewCell? c).getD ⟨"", [], .container⟩

/-- The view of a value. -/
def view (w : World) : Value → ValueView
  | .undef => .undef
  | .int n => .int n
  | .num x => .num x
  | .str s => .str s
  | .ref c => .ref (w.viewCell c)
  | .weak c => .weak (w.viewCell? c)

/-- The view of a value with its contents, to a depth. -/
def dump (w : World) : Nat → Value → Dump
  | depth + 1, .ref c =>
    match w.store.referent? c with
    | some (.scalar v) => .scalar (w.dump depth v)
    | some (.array vs) => .array (vs.map (w.dump depth))
    | some (.hash es) => .hash (es.map fun e => (e.1.text, w.dump depth e.2))
    | some (.object (.classMeta name generation attrs)) =>
      .classMeta name generation (attrs.map w.view)
    | _ => .plain (w.view (.ref c))
  | _, v => .plain (w.view v)

/-- The view of a value under every aspect. -/
def inspect (w : World) (v : Value) : Inspection where
  value := w.view v
  isDefined := w.store.isDefined v
  isTrue := w.store.isTrue v
  isReference := v.isReference
  isWeak := v.isWeak
  isCallable := (w.store.code? v).isSome
  text := v.text?
  shown := w.store.valueText v
  kind := v.strong?.bind fun c => (w.store.referent? c).map Referent.kindName
  upgraded :=
    match v with
    | .weak c => if w.store.alive c then w.view (.ref c) else .undef
    | _ => w.view v

/-- The view of a descriptor. -/
def viewDescriptor (w : World) (d : Descriptor) : DescriptorView where
  slot := d.slot.view
  initArg := d.initArg.map Key.view
  kind := d.default.kind
  value := d.defaultValue?.map w.view
  builder := d.builder?
  container := d.container?
  initializer := d.initializer.map w.viewCell
  flags := d.flags
  origin := w.viewCell? d.origin

/-- The view of a payload. -/
def viewPayload : Payload → PayloadView
  | .tag t => .tag t
  | .descriptor d => .descriptor d.slot.text
  | .shadow s => .shadow s.view

/-- The view of a record, whose payload has `owners` handles. -/
def viewRecord (w : World) (owners : Nat) (r : Record) : RecordView where
  generation := r.generation
  governor := w.viewCell? r.governor
  payload := ((w.store.payload? r.payload).map viewPayload).getD (.tag "")
  owners := owners

/-- The view of a record that the world holds. -/
def viewOwnRecord (w : World) (r : Record) : RecordView :=
  w.viewRecord (w.store.payloadCount r.payload) r

/-- The view of a copy of a record, which has a handle of its own. -/
def viewCopy (w : World) (r : Record) : RecordView :=
  w.viewRecord (w.store.payloadCount r.payload + 1) r

/-- The view of a shadow with all its descriptors. -/
def viewShadowInfo (w : World) (s : Shadow) : ShadowInfo where
  className := s.className
  cls := w.viewCell s.cls
  layout := s.layout
  generation := s.generation
  descriptors := s.descriptors.map w.viewDescriptor

/-- The answer that an error of the cache gives. -/
def viewError (w : World) (e : Error) : Answer :=
  .failure e (match e with
    | .host h => w.view h.thrown
    | _ => .undef)

/-- The answer that a failure of host code gives. -/
def viewHostError (w : World) (e : HostError) : Answer :=
  .hostFailure e.message (w.view e.thrown)

end World

/-- The name of a kind of container inside the text of a structure. -/
def ContainerKind.shown : ContainerKind → String
  | scalar => "Scalar"
  | array => "Array"
  | hash => "Hash"

namespace Text

/-- A name applied to the text of its content. -/
def wrapped (name content : String) : String :=
  name ++ "(" ++ content ++ ")"

/-- The text of something that may be missing. -/
def optional (content : Option String) : String :=
  (content.map (wrapped "Some")).getD "None"

end Text

/-- A default on one line. -/
def DefaultStrategy.shown (s : Store) : DefaultStrategy → String
  | none => "None"
  | value v => Text.wrapped "Value" (s.valueText v)
  | builder m => Text.wrapped "Builder" (Text.quote m)
  | container k => Text.wrapped "RefGen" k.shown

/-- A descriptor on one line. -/
def Descriptor.shown (s : Store) (d : Descriptor) : String :=
  Text.record "AttributeDescriptor"
    [("slot", d.slot.shown), ("init_arg", Text.optional (d.initArg.map Key.shown)),
      ("default", d.default.shown s),
      ("initializer", Text.optional (d.initializer.map s.cellText)),
      ("host_ref", s.weakText d.origin)]

/-- A shadow on one line. -/
def Shadow.shown (s : Store) (sh : Shadow) : String :=
  Text.record "InstanceShadow"
    [("class", s.cellText sh.cls), ("class_name", Text.quote sh.className),
      ("layout", sh.layout.shown), ("generation", toString sh.generation),
      ("descriptors", "[" ++ ", ".intercalate (sh.descriptors.map (·.shown s)) ++ "]")]

end MetaCache
