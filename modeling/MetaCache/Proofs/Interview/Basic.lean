import MetaCache.Proofs.Dialogue.Queries
/-!
# How an attribute metaobject is to be asked

The rules of an interview, without the compilation that follows them. There is one question to begin
with. A reply puts a value in hand, which may be of no use; what is asked next depends on it. An
interview is over when there is nothing more to ask, and it stops where a reply is a failure, has
too few or too many values, or has one of no use.

* `AttributeQuery.next?`, `AttributeQuery.hold`, `AttributeQuery.objection?`: the rules.
* `Interview.Reached`, `Interview.Stopped`, `Interview.Unanswered`: where queries lead by the rules.
* `Interview.Reached.inOrder`, `Interview.Stopped.inOrder`: each question is asked at most once, and
  in order.
* `Descriptor.Records`: the descriptor that is made of what was found.
-/

namespace MetaCache

namespace AttributeQuery

/-- What is asked after `q`, by the value in hand. -/
def next? (q : AttributeQuery) (v : Value) : Option AttributeQuery :=
  match q with
  | slots => some hasInitArg
  | hasInitArg => if v.isTrue then some initArg else some hasDefault
  | initArg => some hasDefault
  | hasDefault => if v.isTrue then some default else some hasBuilder
  | default => some hasInitializer
  | hasBuilder => if v.isTrue then some builder else some hasInitializer
  | builder => some hasInitializer
  | hasInitializer => if v.isTrue then some initializer else none
  | initializer => none

/-- The value in hand after a reply of one value, and the world in which it is looked at. The name
of a slot is taken as it is; in all other replies a weak reference is made strong, and is undefined
if its cell is gone. -/
def hold (q : AttributeQuery) (v : Value) (w : World) : Value × World :=
  if q = slots then (v, w)
  else ((w.store.upgrade v).1, { w with store := (w.store.upgrade v).2 })

/-- The error for a reply of `n` values where one was wanted. -/
def miscount (q : AttributeQuery) (n : Nat) : Error :=
  if q = slots then .slotCount n else .arity q.method n

/-- What is wrong with the value in hand, if it is of no use. Names must be text, but an undefined
init-arg is as good as none; a default may be anything but a reference to something that is not
code; an initializer must be a reference to code. -/
def objection? (q : AttributeQuery) (s : Store) (v : Value) : Option Mismatch :=
  match q with
  | slots => if v.text? = none then some (.slotNotText (s.valueText v)) else none
  | initArg =>
    if v ≠ .undef ∧ v.text? = none then some (.initArgNotText (s.valueText v)) else none
  | default =>
    if v.strong? ≠ none ∧ (s.code? v).isNone then some (.defaultNotCallable (s.valueText v))
    else none
  | builder => if v.text? = none then some (.builderNotText (s.valueText v)) else none
  | initializer =>
    if (s.code? v).isNone then some (.initializerNotCallable (s.valueText v)) else none
  | hasInitArg | hasDefault | hasBuilder | hasInitializer => none

end AttributeQuery

namespace Interview

open AttributeQuery (slots)

/-- What was found by asking. -/
structure Finding where
  question : AttributeQuery
  value : Value
  /-- The world in which the value was looked at. -/
  world : World

/-- How an interview stands. -/
inductive Standing where
  /-- This is to be asked next; nothing if the interview is over. -/
  | toAsk (q : Option AttributeQuery)
  /-- There was a reply of one value, which is to be looked at in this world. -/
  | heard (q : AttributeQuery) (v : Value) (w : World)

variable {attr : Value} {qs : List Query} {fs : List Finding} {st : Standing}

/-- The queries of `attr` lead to that standing, and this was found by them. -/
inductive Reached (attr : Value) : List Query → Standing → List Finding → Prop
  | start : Reached attr [] (.toAsk (some slots)) []
  | hears {qs : List Query} {q : AttributeQuery} {fs : List Finding}
    (h : Reached attr qs (.toAsk (some q)) fs) (before : World) (v : Value) (after : World) :
    Reached attr (qs ++ [⟨attr, .ofAttribute q, before, .ok [v], after⟩])
      (.heard q (q.hold v after).1 (q.hold v after).2) fs
  | accepts {qs : List Query} {q : AttributeQuery} {v : Value} {w : World} {fs : List Finding}
    (h : Reached attr qs (.heard q v w) fs) (hv : q.objection? w.store v = none) :
    Reached attr qs (.toAsk (q.next? v)) (fs ++ [⟨q, v, w⟩])

/-- The last of the queries of `attr` stops the interview, with that error. -/
inductive Stopped (attr : Value) : List Query → Error → Prop
  /-- Host code failed; its failure is passed on. -/
  | failed {qs : List Query} {q : AttributeQuery} {fs : List Finding}
    (h : Reached attr qs (.toAsk (some q)) fs) (before : World) (e : HostError) (after : World) :
    Stopped attr (qs ++ [⟨attr, .ofAttribute q, before, .error e, after⟩]) (.host e)
  | miscounted {qs : List Query} {q : AttributeQuery} {fs : List Finding}
    (h : Reached attr qs (.toAsk (some q)) fs) (before : World) {vs : List Value}
    (hvs : vs.length ≠ 1) (after : World) :
    Stopped attr (qs ++ [⟨attr, .ofAttribute q, before, .ok vs, after⟩]) (q.miscount vs.length)
  | unusable {qs : List Query} {q : AttributeQuery} {v : Value} {w : World} {fs : List Finding}
    {m : Mismatch} (h : Reached attr qs (.heard q v w) fs)
    (hv : q.objection? w.store v = some m) : Stopped attr qs (.mismatch m)

/-- After the queries of `attr`, the host does not reply to what is asked next. -/
inductive Unanswered (host : Host) (attr : Value) : List Query → Halt → Prop
  | mk {qs : List Query} {q : AttributeQuery} {fs : List Finding} {w : World} {h : Halt}
    (hr : Reached attr qs (.toAsk (some q)) fs) (hw : host.callMethod attr q.method w = .error h) :
    Unanswered host attr qs h

/-! ## The order of the questions -/

/-- The questions that may have been asked before `q`. -/
def before (q : AttributeQuery) : List AttributeQuery :=
  AttributeQuery.all.takeWhile (· ≠ q)

/-- The questions that may have been asked by then. -/
def Standing.asked : Standing → List AttributeQuery
  | toAsk none => AttributeQuery.all
  | toAsk (some q) => before q
  | heard q _ _ => before q ++ [q]

theorem before_sublist (q : AttributeQuery) : (before q ++ [q]).Sublist AttributeQuery.all := by
  cases q <;> decide

theorem before_next (q : AttributeQuery) (v : Value) :
    (before q ++ [q]).Sublist (Standing.toAsk (q.next? v)).asked := by
  have hall : ∀ q q' : AttributeQuery, q.next? .undef = some q' ∨ q.next? (.int 1) = some q' →
      (before q ++ [q]).Sublist (before q') := by
    intro q q' h
    cases q <;> rcases h with h | h <;> cases h <;> decide
  -- what is asked next depends on the truth of the value alone
  have htruth : q.next? v = q.next? .undef ∨ q.next? v = q.next? (.int 1) := by
    simp only [AttributeQuery.next?]
    cases v.isTrue with
    | false => exact .inl rfl
    | true => exact .inr rfl
  cases hn : q.next? v with
  | none => exact before_sublist q
  | some q' => exact hall q q' (htruth.imp (·.symm.trans hn) (·.symm.trans hn))

/-- Who is asked by a query, and what. -/
def asking (x : Query) : Value × Introspection := (x.invocant, x.method)

/-- The metaobject is asked nothing but known questions, each at most once and in order. -/
def InOrder (attr : Value) (qs : List Query) : Prop :=
  (qs.map asking).Sublist (AttributeQuery.all.map fun q => (attr, .ofAttribute q))

theorem Reached.order (h : Reached attr qs st fs) :
    (qs.map asking).Sublist (st.asked.map fun q => (attr, .ofAttribute q)) := by
  induction h with
  | start => exact List.nil_sublist _
  | hears _ before v after ih =>
    rw [List.map_append, Standing.asked, List.map_append]
    exact ih.append_right _
  | accepts _ _ ih => exact ih.trans ((before_next _ _).map _)

theorem Standing.asked_sublist (st : Standing) : st.asked.Sublist AttributeQuery.all := by
  cases st with
  | toAsk q =>
    cases q with
    | none => exact List.Sublist.refl _
    | some q => exact List.takeWhile_sublist _
  | heard q v w => exact before_sublist q

theorem Reached.inOrder (h : Reached attr qs st fs) : InOrder attr qs :=
  h.order.trans (st.asked_sublist.map _)

/-- So is the one that is asked next. -/
theorem Reached.inOrder_ask {q : AttributeQuery} (h : Reached attr qs (.toAsk (some q)) fs)
    {x : Query} (hx : asking x = (attr, .ofAttribute q)) : InOrder attr (qs ++ [x]) := by
  refine List.Sublist.trans ?_ ((before_sublist q).map _)
  rw [List.map_append, List.map_append, List.map_singleton, hx]
  exact h.order.append_right _

theorem Stopped.inOrder {e : Error} (h : Stopped attr qs e) : InOrder attr qs := by
  cases h with
  | failed h => exact h.inOrder_ask rfl
  | miscounted h => exact h.inOrder_ask rfl
  | unusable h _ => exact h.inOrder

theorem Unanswered.inOrder {host : Host} {h : Halt} (hu : Unanswered host attr qs h) :
    InOrder attr qs := by
  obtain ⟨hr, -⟩ := hu
  exact hr.inOrder

/-! ## What a descriptor is made of -/

/-- What was found by a question, if it was asked. -/
def on (fs : List Finding) (q : AttributeQuery) : Option Finding := fs.find? (·.question = q)

/-- The value as a name, with the hash that it had then. -/
def Finding.named? (f : Finding) : Option (String × UInt32) :=
  f.value.text?.map fun name => (name, f.world.cache.nameHash name)

/-- The value as a default: a kind of container if it is code that the classifier recognised, and
itself if not. -/
def Finding.captured (f : Finding) : DefaultStrategy :=
  match (f.world.store.code? f.value).bind f.world.cache.classifier with
  | some kind => .container kind
  | none => .value f.value

/-- The default by what was found about it: by the default if it was asked for, and else by the
builder. -/
def strategy : Option Finding → Option Finding → DefaultStrategy
  | some f, _ => f.captured
  | none, some f => ((f.value.text?.map .builder).getD .none)
  | none, none => .none

end Interview

open Interview (Finding on)

/-- The descriptor of `origin` that is made of what was found. -/
structure Descriptor.Records (d : Descriptor) (origin : CellId) (fs : List Finding) : Prop where
  slot : some (d.slot.text, d.slot.hash) = (on fs .slots).bind Finding.named?
  initArg : (d.initArg.map fun k => (k.text, k.hash)) = (on fs .initArg).bind Finding.named?
  default : d.default = Interview.strategy (on fs .default) (on fs .builder)
  initializer : d.initializer = (on fs .initializer).bind (·.value.strong?)
  origin : d.origin = origin

end MetaCache
