import MetaCache.Proofs.History.Quiet
import MetaCache.Proofs.Play.Runs
/-!
# Commands

The run of a caller, written down command by command: lookups, discards and what is done to the
classes of the registry. The host has no side effects, so that nothing happens between commands.

* `Command`, `Command.Does`: what a caller does, and what becomes of the world.
* `Run`: commands one after another.
* `Command.Does.class?_iff`: what a command does to the names of classes.
* `Command.Does.slot`: what a command does to a shadow in a slot.
-/

namespace MetaCache

/-- What a caller does. -/
inductive Command where
  | lookup (l : Lookup)
  | invalidate (v : Value)
  | define (name : String) (attrs : List Value)
  | remove (name : String)
  | bump (cls : CellId)
  /-- Anything else that writes no extension slot and names no class. -/
  | other

/-- What becomes of the world and of what the caller holds. -/
inductive Command.Does (host : Host) : Command → World → Holding → World → Holding → Prop where
  | lookup {l : Lookup} {w w' : World} {r : Except Error PayloadId} (f : Holding) :
    l.run host w = .ok (r, w') → Does host (.lookup l) w (holding l.owned + f) w'
      (outcome (fun p => holding [.payload p]) r + (holding l.owned + f))
  | invalidate (v : Value) (w : World) (f : Holding) :
    Does host (.invalidate v) w f (w.invalidate v).2 f
  | define (name : String) (attrs : List Value) (w : World) (f : Holding) :
    Does host (.define name attrs) w (holding (ownedByAll attrs) + f)
      (w.defineClass name attrs).2 (holding [.cell (w.defineClass name attrs).1] + f)
  | remove (name : String) (w : World) (f : Holding) :
    Does host (.remove name) w f (w.removeClass name).2
      (holding (ownedByCell? (w.removeClass name).1) + f)
  | bump (cls : CellId) (w : World) (f : Holding) : Does host (.bump cls) w f (w.bumpClass cls).2 f
  | other {w w' : World} {f f' : Holding} : host.Change w f w' f' →
    w'.registry.classes = w.registry.classes → Does host .other w f w' f'

/-- Commands one after another. -/
inductive Run (host : Host) (w₀ : World) (f₀ : Holding) :
    List Command → World → Holding → Prop where
  | start : Run host w₀ f₀ [] w₀ f₀
  | step {t : List Command} {cmd : Command} {w w' : World} {f f' : Holding} :
    Run host w₀ f₀ t w f → cmd.Does host w f w' f' → Run host w₀ f₀ (t ++ [cmd]) w' f'

variable {host : Host} {w₀ w w' : World} {f₀ f f' : Holding} {cmd : Command} {t : List Command}

namespace Command.Does

/-- All but lookups and discards. -/
theorem change (hr : host.Registered) (hd : cmd.Does host w f w' f')
    (hl : ∀ l, cmd ≠ .lookup l) (hi : ∀ v, cmd ≠ .invalidate v) : host.Change w f w' f' := by
  cases hd with
  | lookup _ _ => exact absurd rfl (hl _)
  | invalidate v _ _ => exact absurd rfl (hi v)
  | define name attrs w f => exact (change_defineClass hr name attrs w).frame f
  | remove name w f =>
    have h := (change_removeClass hr.orderly name w).frame f
    rwa [zero_add] at h
  | bump cls w f =>
    have h := (change_bumpClass hr cls w).frame f
    rwa [zero_add] at h
  | other hc _ => exact hc

theorem activity (hr : host.Registered) (hs : host.SideEffectFree)
    (hd : cmd.Does host w f w' f') : ∃ ds, Activity host w f ds w' f' := by
  cases hd with
  | lookup f hrun =>
    exact ⟨_, .lookup f (.refl host)
      (fun q hq => hs.activity (Lookup.answers_of_mem_queries hq)) hrun⟩
  | invalidate v w f => exact ⟨_, .invalidate w f v⟩
  | define name attrs w f =>
    exact ⟨_, .change (change hr (.define name attrs w f) (fun _ => nofun) fun _ => nofun)⟩
  | remove name w f =>
    exact ⟨_, .change (change hr (.remove name w f) (fun _ => nofun) fun _ => nofun)⟩
  | bump cls w f =>
    exact ⟨_, .change (change hr (.bump cls w f) (fun _ => nofun) fun _ => nofun)⟩
  | other hc _ => exact ⟨_, .change hc⟩

/-- A class that was there has a name exactly if it had it before and was not removed from it. -/
theorem class?_iff (hr : host.Registered) (hs : host.SideEffectFree)
    (hd : cmd.Does host w f w' f') {cls : CellId} (hlt : cls < w.store.cells.next)
    (name : String) : host.class? w' name = some cls ↔
      host.class? w name = some cls ∧ cmd ≠ .remove name := by
  rw [hr.class?]
  have hsame : ∀ {w'' : World}, w''.registry.classes = w.registry.classes →
      w''.class? name = w.class? name := fun h => by rw [World.class?, World.class?, h]
  cases hd with
  | @lookup l _ _ r _ hrun =>
    have hreg : w'.registry.classes = w.registry.classes := by
      by_cases hl : ∃ c, l.object = .ref c
      · obtain ⟨c, hl⟩ := hl
        exact ((Lookup.ends hr.orderly hs hl hrun).still hr.orderly).classes
      · rw [(Lookup.eq_of_no_ref (fun c hc => hl ⟨c, hc⟩) hrun).1]
    simp [hsame hreg]
  | invalidate v _ _ =>
    have hreg : (w.invalidate v).2.registry.classes = w.registry.classes := by
      rcases w.invalidate_cases v with h | ⟨target, r, n, -, h⟩ <;> rw [h]
      rfl
    simp [hsame hreg]
  | define n attrs _ _ =>
    rw [class?_defineClass]
    simp only [ne_eq, reduceCtorEq, not_false_eq_true, and_true]
    split
    · rename_i hn
      subst hn
      cases hc : w.class? name with
      | some c => rfl
      | none => simpa using Nat.ne_of_gt hlt
    · rfl
  | remove n _ _ =>
    rw [class?_removeClass]
    by_cases hn : name = n
    · simp [hn]
    · simp [hn, Ne.symm hn]
  | bump c _ _ =>
    have hreg : (w.bumpClass c).2.registry.classes = w.registry.classes :=
      congrArg _ (World.registry_modifyObject _ _ _)
    simp [hsame hreg]
  | other _ hreg => simp [hsame hreg]

end Command.Does

/-! ## Shadows in slots -/

/-- The shadow is the one that a lookup of the instance metaobject in `c`, made in the world `w`,
has compiled: of the class that was found by the name that the metaobject answered. -/
structure Shadow.Compiled (host : Host) (s : Shadow) (c : CellId) (w : World) : Prop where
  /-- The lookup found nothing in its slot, and compiled. The first thing that it asked was the name
  of the class. -/
  named : ∃ w₁ w₂ q rest v, w.cached? host .shadow c = (none, w₁) ∧
    Shadow.compile host (.ref c) w₁ = .ok (.ok s, w₂) ∧
    (Lookup.shadow (.ref c)).queries host w = q :: rest ∧ host.Answers q ∧ q.invocant = .ref c ∧
    q.method = .ofInstance .className ∧ q.before = w₁ ∧ q.reply = .ok [v] ∧
    v.text? = some s.className
  class? : host.class? w s.className = some s.cls
  generation : host.generation w s.cls = s.generation

/-- What a lookup has compiled that found nothing in its slot. -/
theorem Shadow.compiled_of_miss (hr : host.Registered) (hs : host.SideEffectFree) {c : CellId}
    {s : Shadow} {w₁ : World} (hcov : w.Covers f)
    (hmiss : w.cached? host .shadow c = (none, w₁))
    (h : Shadow.compile host (.ref c) w₁ = .ok (.ok s, w')) : s.Compiled host c w := by
  have hrun : ((Lookup.shadow (.ref c)).compilation host).run host w₁ =
      .ok (.ok ⟨.shadow s, s.generation, s.cls⟩, w') := by
    rw [Lookup.compilation, Dialogue.run_bind, Dialogue.run_shadow, Build.bind_apply, h]
    rfl
  have hqueries := Lookup.queries_of_miss (l := .shadow (.ref c)) (.refl host) rfl hmiss
  obtain ⟨_, hx, hcomes⟩ := Lookup.comesIn_shadow (Dialogue.comes_queries hrun)
  cases hx
  obtain ⟨empty, stamp, q, rest, found, hfirst, hresolve, hres, hfill⟩ := hcomes.of_shadow
  rw [← hqueries] at hfirst
  have hanswers : ∀ p ∈ q :: rest, host.Answers p := fun p hp =>
    Lookup.answers_of_mem_queries (hfirst ▸ hp)
  have hresolve := hresolve.run_eq (.refl host) fun p hp =>
    hanswers p (List.mem_cons.2 (.inl (List.mem_singleton.1 hp)))
  have hfill := hfill.run_eq (.refl host) fun p hp => hanswers p (List.mem_cons_of_mem q hp)
  rw [Dialogue.run_resolve] at hresolve
  rw [Dialogue.run_fill] at hfill
  have hname : s.className = empty.className := by rw [Shadow.fill_eq hfill]
  have hcls : s.cls = empty.cls := by rw [Shadow.fill_eq hfill]
  have hgen : s.generation = empty.generation := by rw [Shadow.fill_eq hfill]
  -- no class has moved by the moment at which the class was found
  have hslot : (w.cached? host .shadow c).2.Covers _ := hcov.cached? .shadow
  have hbegan := Host.Still.of_upkeep hr.orderly (.cached? w host .shadow c)
  rw [hmiss] at hslot hbegan
  have hquiet : host.Quiet w₁ 0 stamp (holding [.held (.shadow empty)]) :=
    (Ledger.meets_resolve (L := quietly hr.orderly hs) (.ref c) w₁).done _ _ hresolve
  have hstill := hbegan.trans hquiet.toStill
  have hstamp := hquiet.covers _ (by rwa [zero_add])
  rw [holding_held] at hstamp
  have hclass : host.class? w s.className = some s.cls := by
    have hfound := hres.class?
    rw [hname, hcls]
    rw [hr.class?, World.class?] at hfound ⊢
    rw [← hstill.classes, hres.world]
    exact hfound
  obtain ⟨v, hreply, htext⟩ := hres.reply
  refine ⟨⟨w₁, w', q, rest, v, hmiss, h, hfirst, hanswers q List.mem_cons_self, hres.invocant,
    hres.method, hres.before, hreply, hname ▸ htext⟩, hclass, ?_⟩
  have hlt := Store.lt_next_of_alive (hr.orderly.class? hcov hclass)
  rw [hgen, hres.generation, ← hcls]
  refine (hstill.generation_eq hlt ?_).symm
  rw [hcls]
  exact hstamp.alive (Nat.add_pos_left (holding_pos rfl List.mem_cons_self) _)

variable {c : CellId} {r : Record} {s : Shadow}

/-- A shadow that is in a slot after a lookup was there before, or the lookup has compiled it. -/
theorem Lookup.Ends.shadow_cases (hr : host.Registered) (hs : host.SideEffectFree) {l : Lookup}
    {target : CellId} {o : Except Error PayloadId} (hl : l.object = .ref target)
    (hend : l.Ends host target w o w') (hcov : w.Covers f) (ha : w'.store.alive c)
    (hx : w'.store.extension? c = some r)
    (hp : w'.store.payload? r.payload = some (.shadow s)) :
    (w.store.extension? c = some r ∧ w.store.payload? r.payload = some (.shadow s)) ∨
      (l = .shadow (.ref c) ∧ r.governor = s.cls ∧ r.generation = s.generation ∧
        s.Compiled host c w) := by
  rcases hend.extension?_cases ha hx with hext |
    ⟨rfl, x, g, gov, w₁, w₂, hm, -, hcomp, rfl, rfl⟩
  · exact .inl ⟨hext, hcov.payload?_of_later (hend.still hr.orderly).toLater hext hp⟩
  · have hxs := World.payload?_publish hp
    cases hcomp with
    | @shadow inst _ _ s' hs' =>
      cases hxs
      cases hl
      exact .inr ⟨rfl, rfl, rfl, Shadow.compiled_of_miss hr hs hcov hm hs'⟩
    | descriptor _ => cases hxs

/-- A shadow that is in a slot after a command was there before, or the command has compiled it. -/
theorem Command.Does.slot (hr : host.Registered) (hs : host.SideEffectFree)
    (hd : cmd.Does host w f w' f') (hcov : w.Covers f) (ha : w'.store.alive c)
    (hx : w'.store.extension? c = some r)
    (hp : w'.store.payload? r.payload = some (.shadow s)) :
    (w.store.extension? c = some r ∧ w.store.payload? r.payload = some (.shadow s)) ∨
      (cmd = .lookup (.shadow (.ref c)) ∧ r.governor = s.cls ∧ r.generation = s.generation ∧
        s.Compiled host c w) := by
  have hchange (h : host.Change w f w' f') :
      w.store.extension? c = some r ∧ w.store.payload? r.payload = some (.shadow s) := by
    have hext := (h.extension? ha).symm.trans hx
    exact ⟨hext, hcov.payload?_of_later h.toLater hext hp⟩
  have hd' := hd
  cases hd with
  | @lookup l _ _ o _ hrun =>
    by_cases hl : ∃ d, l.object = .ref d
    · obtain ⟨d, hl⟩ := hl
      have hend := Lookup.ends hr.orderly hs hl hrun
      rcases hend.shadow_cases hr hs hl hcov ha hx hp with h | ⟨rfl, h⟩
      · exact .inl h
      · exact .inr ⟨rfl, h⟩
    · rw [(Lookup.eq_of_no_ref (fun d hd => hl ⟨d, hd⟩) hrun).1] at hx hp
      exact .inl ⟨hx, hp⟩
  | invalidate v _ _ =>
    rcases w.invalidate_cases v with h | ⟨target, r', n, -, h⟩
    · rw [h] at hx hp
      exact .inl ⟨hx, hp⟩
    · rw [h] at ha hx hp
      rw [World.extension?_discard ha] at hx
      split at hx
      · cases hx
      · exact .inl ⟨hx, hcov.payload?_of_later
          (Host.later_of_keeps hr.orderly (w.keeps_discard target r' n)) hx hp⟩
  | define _ _ _ _ => exact .inl (hchange (hd'.change hr (fun _ => nofun) fun _ => nofun))
  | remove _ _ _ => exact .inl (hchange (hd'.change hr (fun _ => nofun) fun _ => nofun))
  | bump _ _ _ => exact .inl (hchange (hd'.change hr (fun _ => nofun) fun _ => nofun))
  | other h _ => exact .inl (hchange h)

/-- What a lookup answers is in the slot afterwards, and of the kind wanted. -/
theorem Lookup.Ends.answered {l : Lookup} {p : PayloadId} (hend : l.Ends host c w (.ok p) w')
    (hcov : w'.Covers f) (ha : w'.store.alive c) : ∃ r x, w'.store.extension? c = some r ∧
      r.payload = p ∧ w'.store.payload? p = some x ∧ l.wanted.accepts x := by
  have hthere {r : Record} (hx : w'.store.extension? c = some r) :
      ∃ x, w'.store.payload? r.payload = some x :=
    Option.isSome_iff_exists.1 (Store.Covers.payload_isSome hcov hx)
  cases hend with
  | hit hc =>
    obtain ⟨r, hr, hf, rfl⟩ := World.cached?_eq_some_iff.1 (congrArg Prod.fst hc)
    obtain ⟨⟨x, hx, hacc⟩, -⟩ := World.isFresh_iff.1 hf
    have hs := World.sheds_of_hit hc
    have hr' := (hs.extension?_eq ha).trans hr
    obtain ⟨y, hy⟩ := hthere hr'
    have hxy := (hs.payload? _ _ hy).symm.trans hx
    cases hxy
    exact ⟨r, x, hr', rfl, hy, hacc⟩
  | @built x g gov w₁ w₂ hm hf hcomp hq =>
    have hr := World.extension?_publish ha
    rw [if_pos rfl] at hr
    obtain ⟨y, hy⟩ := hthere hr
    refine ⟨_, y, hr, rfl, hy, ?_⟩
    rw [World.payload?_publish hy]
    cases hcomp <;> rfl

/-! ## Runs -/

theorem Run.activity (hr : host.Registered) (hs : host.SideEffectFree)
    (h : Run host w₀ f₀ t w f) : ∃ ds, Activity host w₀ f₀ ds w f := by
  induction h with
  | start => exact ⟨_, .change (.refl w₀ f₀)⟩
  | step _ hd ih =>
    obtain ⟨ds, hbefore⟩ := ih
    obtain ⟨ds', hlast⟩ := hd.activity hr hs
    exact ⟨_, hbefore.trans hlast⟩

theorem Run.covers (hr : host.Registered) (hs : host.SideEffectFree)
    (h : Run host w₀ f₀ t w f) (hcov : w₀.Covers f₀) : w.Covers f := by
  rw [← add_zero f₀] at hcov
  rw [← add_zero f]
  obtain ⟨ds, hact⟩ := h.activity hr hs
  exact hact.covers hr.orderly hcov

end MetaCache
