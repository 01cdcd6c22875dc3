import Mathlib.Data.List.Forall2
import MetaCache.Proofs.Dialogue.Compile
/-!
# What compilations ask, and what they end with

An attribute metaobject is asked about itself and nothing else is asked meanwhile. An instance
metaobject is asked for the name of its class, and then once for its attributes; these are compiled
in the order of the reply. All this holds whatever the replies are, and whatever host code did
before it replied.

* `Dialogue.Obeys`: what a dialogue may ask, and what it may end with.
* `Dialogue.obeys_descriptor`, `Dialogue.obeys_resolve`: the parts of a compilation.
* `Dialogue.ComesIn.shadow`: a compiled shadow has one descriptor for each attribute of the reply.
-/

namespace MetaCache

namespace Dialogue

variable {α β : Type} {host : Host} {d d' : Dialogue α} {f : α → Dialogue β} {w w' : World}
  {qs : List Query} {p : Value → Introspection → Prop} {post : α → Prop} {v : Value}
  {m : Introspection} {P : World → Prop}

/-! ## How far a dialogue has come, seen from its start -/

theorem ComesIn.of_ends {r : Except Error α} (h : (ends r).ComesIn P host w qs d' w') :
    qs = [] ∧ d' = ends r ∧ w' = w := by
  induction h with
  | start => exact ⟨rfl, rfl, rfl⟩
  | work _ _ ih => cases ih.2.1
  | ask _ ih => cases ih.2.1

theorem ComesIn.of_does {x : Work β} {next : β → Dialogue α}
    (h : (does x next).ComesIn P host w qs d' w') :
    (qs = [] ∧ d' = does x next ∧ w' = w) ∨
      (P w ∧ (next (x.apply host w).1).ComesIn P host (x.apply host w).2 qs d' w') := by
  induction h with
  | start => exact .inl ⟨rfl, rfl, rfl⟩
  | work _ hP ih =>
    rcases ih with ⟨rfl, he, rfl⟩ | ⟨hw, hrest⟩
    · cases he
      exact .inr ⟨hP, .start⟩
    · exact .inr ⟨hw, hrest.work hP⟩
  | ask _ ih =>
    rcases ih with ⟨-, he, -⟩ | ⟨hw, hrest⟩
    · cases he
    · exact .inr ⟨hw, hrest.ask⟩

theorem ComesIn.of_asks {next : Except HostError (List Value) → Dialogue α}
    (h : (asks v m next).ComesIn P host w qs d' w') :
    (qs = [] ∧ d' = asks v m next ∧ w' = w) ∨ ∃ q rest, qs = q :: rest ∧ q.invocant = v ∧
      q.method = m ∧ q.before = w ∧ (next q.reply).ComesIn P host q.after rest d' w' := by
  induction h with
  | start => exact .inl ⟨rfl, rfl, rfl⟩
  | work _ hP ih =>
    rcases ih with ⟨-, he, -⟩ | ⟨q, rest, hqs, hv, hm, hw, hrest⟩
    · cases he
    · exact .inr ⟨q, rest, hqs, hv, hm, hw, hrest.work hP⟩
  | @ask qs q next' _ ih =>
    rcases ih with ⟨rfl, he, hw⟩ | ⟨q', rest, rfl, hv, hm, hw, hrest⟩
    · cases he
      exact .inr ⟨q, [], rfl, rfl, rfl, hw, .start⟩
    · exact .inr ⟨q', rest ++ [q], rfl, hv, hm, hw, hrest.ask⟩

/-- A piece of work is done at once. -/
theorem ComesIn.of_work_ok {x : Work α} {a : α}
    (h : (Dialogue.work x).ComesIn P host w qs (ends (.ok a)) w') :
    qs = [] ∧ P w ∧ a = (x.apply host w).1 ∧ w' = (x.apply host w).2 := by
  rcases h.of_does with ⟨-, he, -⟩ | ⟨hP, h⟩
  · cases he
  · obtain ⟨rfl, he, rfl⟩ := h.of_ends
    cases he
    exact ⟨rfl, hP, rfl, rfl⟩

/-- A query for a list of values that was replied to well. -/
theorem ComesIn.of_askList {vs : List Value}
    (h : (askList v m).ComesIn P host w qs (ends (.ok vs)) w') :
    ∃ q, qs = [q] ∧ q.invocant = v ∧ q.method = m ∧ q.reply = .ok vs ∧ q.before = w ∧
      q.after = w' := by
  rcases h.of_asks with ⟨-, he, -⟩ | ⟨q, rest, rfl, hv, hm, hw, hrest⟩
  · cases he
  · obtain ⟨rfl, he, rfl⟩ := hrest.of_ends
    refine ⟨q, rfl, hv, hm, ?_, hw, rfl⟩
    cases hq : q.reply with
    | error e =>
      rw [hq] at he
      cases he
    | ok us =>
      rw [hq] at he
      cases he
      rfl

/-! ## Obedience -/

/-- Whatever the replies are, the dialogue asks nothing but `p`, and what it ends with is `post`. -/
def Obeys (p : Value → Introspection → Prop) : Dialogue α → (α → Prop) → Prop
  | ends (.ok a), post => post a
  | ends (.error _), _ => True
  | does _ next, post => ∀ b, (next b).Obeys p post
  | asks v m next, post => p v m ∧ ∀ reply, (next reply).Obeys p post

theorem ComesIn.obeys (h : d.ComesIn P host w qs d' w') (hd : d.Obeys p post) :
    d'.Obeys p post ∧ ∀ q ∈ qs, p q.invocant q.method := by
  induction h with
  | start => exact ⟨hd, fun _ hq => nomatch hq⟩
  | work _ _ ih => exact ⟨ih.1 _, ih.2⟩
  | @ask qs q next _ ih =>
    obtain ⟨⟨hp, hnext⟩, hqs⟩ := ih
    refine ⟨hnext q.reply, fun q' hq' => ?_⟩
    rcases List.mem_append.1 hq' with hq' | hq'
    · exact hqs q' hq'
    · rwa [List.mem_singleton.1 hq']

namespace Obeys

variable {mid : α → Prop} {post' : β → Prop}

theorem fail (e : Error) (post : α → Prop) : (fail e : Dialogue α).Obeys p post := trivial

theorem work (x : Work α) : (Dialogue.work x).Obeys p fun _ => True := fun _ => trivial

theorem bind (hd : d.Obeys p mid) (hf : ∀ a, mid a → (f a).Obeys p post') :
    (d >>= f).Obeys p post' := by
  induction d with
  | ends r =>
    cases r with
    | error e => trivial
    | ok a => exact hf a hd
  | does x next ih => exact fun b => ih b (hd b)
  | asks v m next ih => exact ⟨hd.1, fun reply => ih reply (hd.2 reply)⟩

theorem imp {p' : Value → Introspection → Prop} (hd : d.Obeys p mid)
    (hp : ∀ v m, p v m → p' v m) (hpost : ∀ a, mid a → post a) : d.Obeys p' post := by
  induction d with
  | ends r =>
    cases r with
    | error e => trivial
    | ok a => exact hpost a hd
  | does x next ih => exact fun b => ih b (hd b)
  | asks v m next ih => exact ⟨hp v m hd.1, fun reply => ih reply (hd.2 reply)⟩

/-- What comes of the first dialogue does not matter. -/
theorem bind_any (hd : d.Obeys p fun _ => True) (hf : ∀ a, (f a).Obeys p post') :
    (d >>= f).Obeys p post' :=
  hd.bind fun a _ => hf a

theorem guarding (hd : d.Obeys p post) (os : List Owned) : (d.guarding os).Obeys p post := by
  induction d with
  | ends r =>
    cases r with
    | error e => exact fun _ => trivial
    | ok a => exact hd
  | does x next ih => exact fun b => ih b (hd b)
  | asks v m next ih => exact ⟨hd.1, fun reply => ih reply (hd.2 reply)⟩

end Obeys

/-- A piece of work asks nothing. -/
theorem ComesIn.of_work {x : Work α} (h : (Dialogue.work x).ComesIn P host w qs d' w') : qs = [] :=
  List.eq_nil_iff_forall_not_mem.2 (h.obeys (p := fun _ _ => False) (Obeys.work x)).2

/-! ## Attributes -/

theorem obeys_askList (hp : p v m) : (askList v m).Obeys p fun _ => True :=
  ⟨hp, fun reply => by cases reply <;> trivial⟩

theorem obeys_failReleasing (os : List Owned) (e : Error) (post : α → Prop) :
    (failReleasing os e).Obeys p post :=
  (Obeys.work _).bind_any fun _ => .fail e post

theorem obeys_failMismatch (v : Value) (m : String → Mismatch) (post : α → Prop) :
    (failMismatch v m).Obeys p post :=
  (Obeys.work _).bind_any fun _ => obeys_failReleasing _ _ post

theorem obeys_askOne (hp : p v m) : (askOne v m).Obeys p fun _ => True := by
  refine (obeys_askList hp).bind_any fun reply => ?_
  split
  · exact .work _
  · exact obeys_failReleasing _ _ _

theorem obeys_askFlag (hp : p v m) : (askFlag v m).Obeys p fun _ => True :=
  (obeys_askOne hp).bind_any fun _ => (Obeys.work _).bind_any fun _ =>
    (Obeys.work _).bind_any fun _ => trivial

/-- A value that must be text is no reason to ask for more. -/
theorem obeys_text {f : String → Dialogue α} {e : String → Mismatch}
    (hf : ∀ t, (f t).Obeys p post) :
    Obeys p (match v.text? with
      | some t => f t
      | none => failMismatch v e) post := by
  cases v.text? with
  | some t => exact hf t
  | none => exact obeys_failMismatch v e post

/-- A question about an attribute metaobject. -/
def About (attr : Value) (v : Value) (m : Introspection) : Prop :=
  v = attr ∧ ∃ q, m = .ofAttribute q

theorem about (attr : Value) (q : AttributeQuery) : About attr attr (.ofAttribute q) :=
  ⟨rfl, q, rfl⟩

theorem obeys_slot (attr : Value) : (slot attr).Obeys (About attr) fun _ => True := by
  refine (obeys_askList (about attr _)).bind_any fun reply => ?_
  split
  · exact obeys_text fun t => .work (.key t)
  · exact obeys_failReleasing _ _ _

theorem obeys_initArg (attr : Value) : (initArg attr).Obeys (About attr) fun _ => True := by
  refine (obeys_askFlag (about attr _)).bind_any fun hasInitArg => ?_
  split
  · refine (obeys_askOne (about attr _)).bind_any fun v => ?_
    refine (Obeys.work _).bind_any fun defined => ?_
    split
    · exact obeys_text fun t => (Obeys.work (.key t)).bind_any fun _ => trivial
    · exact (Obeys.work _).bind_any fun _ => trivial
  · trivial

theorem obeys_capture (v : Value) : (capture v).Obeys p fun _ => True := by
  cases v with
  | ref c =>
    refine (Obeys.work _).bind_any fun code? => ?_
    cases code? with
    | none => exact obeys_failMismatch _ _ _
    | some code =>
      refine (Obeys.work _).bind_any fun w => ?_
      cases w.cache.classifier code with
      | none => trivial
      | some kind => exact (Obeys.work _).bind_any fun _ => trivial
  | _ => trivial

theorem obeys_default (attr : Value) : (default attr).Obeys (About attr) fun _ => True := by
  refine (obeys_askFlag (about attr _)).bind_any fun hasDefault => ?_
  split
  · exact (obeys_askOne (about attr _)).bind_any fun v => obeys_capture v
  · refine (obeys_askFlag (about attr _)).bind_any fun hasBuilder => ?_
    split
    · exact (obeys_askOne (about attr _)).bind_any fun v => obeys_text fun t => trivial
    · trivial

theorem obeys_initializer (attr : Value) :
    (initializer attr).Obeys (About attr) fun _ => True := by
  refine (obeys_askFlag (about attr _)).bind_any fun hasInitializer => ?_
  split
  · refine (obeys_askOne (about attr _)).bind_any fun v => ?_
    refine (Obeys.work _).bind_any fun code? => ?_
    split
    · trivial
    · exact obeys_failMismatch _ _ _
  · trivial

/-- An attribute metaobject is asked about itself, and the descriptor tells where it comes from. -/
theorem obeys_descriptor (attr : Value) :
    (descriptor attr).Obeys (About attr) fun d => attr = .ref d.origin := by
  cases attr with
  | ref origin =>
    refine (obeys_slot _).bind_any fun slot => ?_
    refine ((obeys_initArg _).guarding _).bind_any fun initArg => ?_
    refine ((obeys_default _).guarding _).bind_any fun default => ?_
    refine ((obeys_initializer _).guarding _).bind_any fun initializer => ?_
    refine (Obeys.work _).bind_any fun _ => ?_
    exact (Obeys.work _).bind_any fun _ => rfl
  | _ => exact (Obeys.work _).bind_any fun _ => .fail _ _

/-! ## Instance metaobjects -/

theorem obeys_ofClassName (host : Host) (className : String) :
    (ofClassName host className).Obeys p fun s => s.descriptors = [] := by
  refine (Obeys.work (.findClass className)).bind_any fun cls? => ?_
  cases cls? with
  | none => exact .fail _ _
  | some cls => exact (Obeys.work (.read id)).bind_any fun w => rfl

/-- The name of the class is all that is asked for before the class has been resolved. -/
theorem obeys_resolve (host : Host) (inst : Value) :
    (resolve host inst).Obeys (fun v m => v = inst ∧ m = .ofInstance .className)
      fun s => s.descriptors = [] := by
  refine (Obeys.work (.read id)).bind_any fun w => ?_
  dsimp only
  split
  · exact (obeys_askOne ⟨rfl, rfl⟩).bind_any fun v =>
      obeys_text fun t => obeys_ofClassName host t
  · exact (Obeys.work _).bind_any fun _ => .fail _ _

/-- How an instance metaobject was resolved, from `w` on and by way of the queries, in worlds that
`P` holds of: it was asked at once for the name of its class, and then the class was found by that
name and its generation read. -/
structure Resolves (P : World → Prop) (host : Host) (inst : Value) (w : World) (qs : List Query)
    (empty : Shadow) (w' : World) (q : Query) (found : World) : Prop where
  queries : qs = [q]
  invocant : q.invocant = inst
  method : q.method = .ofInstance .className
  before : q.before = w
  reply : ∃ v, q.reply = .ok [v] ∧ v.text? = some empty.className
  sheds : q.after.store.Sheds found.store
  holds : P found
  registry : found.registry = q.after.registry
  class? : host.class? found empty.className = some empty.cls
  world : w' = found.onStore (·.retain [.cell empty.cls])
  generation : empty.generation = host.generation w' empty.cls

theorem ComesIn.of_ofClassName {className : String} {empty : Shadow}
    (h : (ofClassName host className).ComesIn P host w qs (ends (.ok empty)) w') :
    qs = [] ∧ P w ∧ empty.className = className ∧ host.class? w className = some empty.cls ∧
      w' = w.onStore (·.retain [.cell empty.cls]) ∧
      empty.generation = host.generation w' empty.cls := by
  obtain ⟨cls?, w₁, qs₁, qs₂, rfl, hfind, h⟩ := h.of_bind_ok
  obtain ⟨rfl, hP, hcls, rfl⟩ := hfind.of_work_ok
  have hcls : cls? = host.class? w className := hcls
  cases hc : host.class? w className with
  | none =>
    rw [hcls, hc] at h
    cases h.of_ends.2.1
  | some cls =>
    rw [hcls, hc] at h
    obtain ⟨_, _, qs₃, qs₄, rfl, hread, h⟩ := h.of_bind_ok
    obtain ⟨rfl, -, rfl, rfl⟩ := hread.of_work_ok
    obtain ⟨rfl, he, rfl⟩ := h.of_ends
    cases he
    have hw : (Work.apply host (.findClass className) w).2 =
        w.onStore (·.retain [.cell cls]) := by
      rw [Work.apply, hc]
      rfl
    exact ⟨rfl, hP, rfl, rfl, hw, rfl⟩

theorem ComesIn.of_askOne {a : Value} (h : (askOne v m).ComesIn P host w qs (ends (.ok a)) w') :
    ∃ q x, qs = [q] ∧ q.invocant = v ∧ q.method = m ∧ q.before = w ∧ q.reply = .ok [x] ∧
      a = (q.after.store.upgrade x).1 ∧
      w' = { q.after with store := (q.after.store.upgrade x).2 } := by
  obtain ⟨vs, w₁, qs₁, qs₂, rfl, hlist, h⟩ := h.of_bind_ok
  obtain ⟨q, rfl, hv, hm, hreply, hw, rfl⟩ := hlist.of_askList
  split at h
  · rename_i x
    obtain ⟨rfl, -, rfl, rfl⟩ := h.of_work_ok
    exact ⟨q, x, rfl, hv, hm, hw, hreply, rfl, rfl⟩
  · exact absurd (h.obeys (p := fun _ _ => True) (obeys_failReleasing _ _ fun _ => False)).1 id

/-- How an instance metaobject is resolved. -/
theorem ComesIn.of_resolve {inst : Value} {empty : Shadow}
    (h : (resolve host inst).ComesIn P host w qs (ends (.ok empty)) w') :
    ∃ q found, Resolves P host inst w qs empty w' q found := by
  obtain ⟨_, _, qs₁, qs₂, rfl, hread, hrest⟩ := h.of_bind_ok
  obtain ⟨rfl, -, rfl, rfl⟩ := hread.of_work_ok
  dsimp only at hrest
  split at hrest
  · obtain ⟨a, w₁, qs₃, qs₄, rfl, hask, hname⟩ := hrest.of_bind_ok
    obtain ⟨q, x, rfl, hinst, hmethod, hbefore, hreply, ha, rfl⟩ := hask.of_askOne
    cases htext : a.text? with
    | none =>
      rw [htext] at hname
      exact absurd (hname.obeys (p := fun _ _ => True) (obeys_failMismatch _ _ fun _ => False)).1
        id
    | some className =>
      rw [htext] at hname
      obtain ⟨rfl, hP, rfl, hclass, hw', hgen⟩ := hname.of_ofClassName
      exact ⟨q, _, {
        queries := rfl
        invocant := hinst
        method := hmethod
        before := hbefore
        reply := ⟨x, hreply, Store.text?_upgrade (ha ▸ htext)⟩
        sheds := q.after.store.sheds_upgrade x
        holds := hP
        registry := rfl
        class? := hclass
        world := hw'
        generation := hgen }⟩
  · obtain ⟨_, _, _, _, -, -, hfail⟩ := hrest.of_bind_ok
    cases hfail.of_ends.2.1

/-- Compiling the attributes leaves a shadow its class and its generation. -/
theorem obeys_attributes (s : Shadow) (attrs : List Value) :
    (attributes s attrs).Obeys (fun _ _ => True) fun s' =>
      s'.cls = s.cls ∧ s'.generation = s.generation := by
  induction attrs generalizing s with
  | nil => exact ⟨rfl, rfl⟩
  | cons attr rest ih =>
    have hattr : (descriptor attr).Obeys (fun _ _ => True) fun _ => True :=
      (obeys_descriptor attr).imp (fun _ _ _ => trivial) fun _ _ => trivial
    refine (hattr.guarding _).bind_any fun d => ?_
    exact (Obeys.work _).bind_any fun _ => ih (s.append d)

theorem obeys_fill (inst : Value) (empty : Shadow) :
    (fill inst empty).Obeys (fun _ _ => True) fun s =>
      s.cls = empty.cls ∧ s.generation = empty.generation := by
  refine ((obeys_askList trivial).guarding _).bind_any fun attrs => ?_
  exact (obeys_attributes empty attrs).bind fun s hs => (Obeys.work _).bind_any fun _ => hs

/-- The attribute was compiled without an error, by way of some of the queries, and this is its
descriptor. -/
def Gives (host : Host) (qs : List Query) (attr : Value) (d : Descriptor) : Prop :=
  ∃ w own w', own <:+: qs ∧ (descriptor attr).Comes host w own (ends (.ok d)) w'

theorem Gives.mono {qs' : List Query} {attr : Value} {d : Descriptor} (h : Gives host qs attr d)
    (hqs : qs <:+: qs') : Gives host qs' attr d := by
  obtain ⟨w, own, w', hown, hd⟩ := h
  exact ⟨w, own, w', hown.trans hqs, hd⟩

theorem Gives.origin {attr : Value} {d : Descriptor} (h : Gives host qs attr d) :
    attr = .ref d.origin := by
  obtain ⟨_, _, _, -, hd⟩ := h
  exact (hd.obeys (obeys_descriptor attr)).1

/-- Attributes are compiled in order, and nothing else is asked meanwhile. -/
theorem ComesIn.attributes {s s' : Shadow} {attrs : List Value}
    (h : (attributes s attrs).ComesIn P host w qs (ends (.ok s')) w') :
    (∃ ds, s'.descriptors = s.descriptors ++ ds ∧ List.Forall₂ (Gives host qs) attrs ds) ∧
      ∀ q ∈ qs, ∃ a, q.method = .ofAttribute a := by
  induction attrs generalizing s w qs with
  | nil =>
    obtain ⟨rfl, he, -⟩ := h.of_ends
    cases he
    exact ⟨⟨[], (List.append_nil _).symm, .nil⟩, fun _ hq => nomatch hq⟩
  | cons attr rest ih =>
    obtain ⟨d, w₁, qs₁, qs₂, rfl, hd, h⟩ := h.of_bind_ok
    obtain ⟨_, w₂, qs₃, qs₄, rfl, hreleased, hrest⟩ := h.of_bind_ok
    have hd := hd.of_guarding_ok
    obtain rfl := hreleased.of_work
    obtain ⟨⟨ds, hds, hgives⟩, hqs₄⟩ := ih hrest
    obtain ⟨-, hqs₁⟩ := hd.obeys (obeys_descriptor attr)
    rw [List.nil_append]
    refine ⟨⟨d :: ds, ?_, .cons ⟨w, qs₁, w₁, (List.prefix_append _ _).isInfix, hd.comes⟩ ?_⟩,
      fun q hq => ?_⟩
    · rw [hds, Shadow.append, List.append_assoc]
      rfl
    · exact hgives.imp fun _ _ hg => hg.mono (List.suffix_append _ _).isInfix
    · rcases List.mem_append.1 hq with hq | hq
      · exact (hqs₁ q hq).2
      · exact hqs₄ q hq

end Dialogue

/-- The shadow was compiled by way of these queries, of which the only one for the attributes of
`inst` was replied to with `attrs`. -/
structure Shadow.From (host : Host) (inst : Value) (qs : List Query) (attrs : List Value)
    (s : Shadow) : Prop where
  asked : ∃ q, qs.filter (·.method = .ofInstance .allAttributes) = [q] ∧ q.invocant = inst ∧
    q.reply = .ok attrs
  /-- Each attribute was compiled without an error, in order. -/
  compiled : List.Forall₂ (Dialogue.Gives host qs) attrs s.descriptors

/-- There is one descriptor for each attribute, in the order of the reply. -/
theorem Shadow.From.origins {host : Host} {inst : Value} {qs : List Query} {attrs : List Value}
    {s : Shadow} (h : s.From host inst qs attrs) :
    s.descriptors.map (Value.ref ·.origin) = attrs := by
  obtain ⟨-, hc⟩ := h
  generalize s.descriptors = ds at hc
  induction hc with
  | nil => rfl
  | cons hd _ ih => rw [List.map_cons, ih, ← hd.origin]

/-- The two halves of compiling an instance metaobject: it is resolved by way of the first query,
and then the shadow is filled. -/
theorem Dialogue.ComesIn.of_shadow {P : World → Prop} {host : Host} {inst : Value} {w w' : World}
    {qs : List Query} {s : Shadow}
    (h : (Dialogue.shadow host inst).ComesIn P host w qs (.ends (.ok s)) w') :
    ∃ empty w₁ q rest found, qs = q :: rest ∧
      (Dialogue.resolve host inst).ComesIn P host w [q] (.ends (.ok empty)) w₁ ∧
      Dialogue.Resolves P host inst w [q] empty w₁ q found ∧
      (Dialogue.fill inst empty).ComesIn P host w₁ rest (.ends (.ok s)) w' := by
  obtain ⟨empty, w₁, qs₁, qs₂, rfl, hresolve, hfill⟩ := h.of_bind_ok
  obtain ⟨q, found, hres⟩ := hresolve.of_resolve
  obtain rfl := hres.queries
  exact ⟨empty, w₁, q, qs₂, found, rfl, hresolve, hres, hfill⟩

/-- A compilation of an instance metaobject that has ended well has compiled all of the attributes
that this replied with. -/
theorem Dialogue.ComesIn.shadow {P : World → Prop} {host : Host} {inst : Value} {w w' : World}
    {qs : List Query} {s : Shadow}
    (h : (Dialogue.shadow host inst).ComesIn P host w qs (.ends (.ok s)) w') :
    ∃ attrs, s.From host inst qs attrs := by
  obtain ⟨empty, w₁, qs₁, qs₂, rfl, hresolve, h⟩ := h.of_bind_ok
  obtain ⟨attrs, w₂, qs₃, qs₄, rfl, hlist, h⟩ := h.of_bind_ok
  obtain ⟨s', w₃, qs₅, qs₆, rfl, hattrs, h⟩ := h.of_bind_ok
  obtain ⟨_, w₄, qs₇, qs₈, rfl, hnote, h⟩ := h.of_bind_ok
  obtain ⟨rfl, hs, -⟩ := h.of_ends
  cases hs
  obtain ⟨hempty, hqs₁⟩ := hresolve.obeys (Dialogue.obeys_resolve host inst)
  obtain ⟨q, rfl, hinst, hmethod, hreply, -, -⟩ := hlist.of_guarding_ok.of_askList
  obtain ⟨⟨ds, hds, hgives⟩, hqs₅⟩ := hattrs.attributes
  obtain rfl := hnote.of_work
  rw [show empty.descriptors = [] from hempty, List.nil_append] at hds
  rw [List.append_nil, List.append_nil]
  refine ⟨attrs, ⟨q, ?_, hinst, hreply⟩, ?_⟩
  · have hbefore : qs₁.filter (·.method = .ofInstance .allAttributes) = [] :=
      List.filter_eq_nil_iff.2 fun q hq => by simp [(hqs₁ q hq).2]
    have hafter : qs₅.filter (·.method = .ofInstance .allAttributes) = [] :=
      List.filter_eq_nil_iff.2 fun q hq => by
        obtain ⟨a, ha⟩ := hqs₅ q hq
        simp [ha]
    rw [List.filter_append, hbefore, List.nil_append, List.filter_append, hafter, List.append_nil,
      List.filter_cons_of_pos (by simp [hmethod]), List.filter_nil]
  · rw [hds]
    refine hgives.imp fun _ _ hg => hg.mono ?_
    rw [← List.append_assoc]
    exact (List.suffix_append _ _).isInfix

end MetaCache
