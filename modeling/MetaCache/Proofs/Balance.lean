import MetaCache.Proofs.Compile.Captures
import MetaCache.Proofs.Compile.Transaction
import MetaCache.Proofs.History.Answers
/-!
# The balance of a compilation

A compilation takes what its result captures and nothing else. Every cell that was there before is
counted for each descriptor that captured it as its default, for each one that captured it as its
initializer, once for the shadow of that class, and weakly for each descriptor compiled from it. A
compilation that fails leaves all counts as they were, up to the value that the host has thrown, and
so does one whose result is dropped again.

* `World.WellCounted`, `World.Gains`: what counts are like, and how they have grown.
* `World.Balanced`, `compilation_balanced`: the balance.
-/

namespace MetaCache

variable {host : Host} {w w' : World}

/-! ## The balance -/

/-- The store counts all that anyone holds, everything in it has an owner, and the names in the key
table are names that there are or have been. `k` is what is held outside the world. -/
structure World.WellCounted (w : World) (k : Holding) : Prop where
  covers : w.Covers k
  attended : w.store.Attended
  known : ∀ n ∈ w.cache.keys.names, n.id < w.store.names.next

/-- Every cell that is there in `w` is counted in `w'` that much more often. -/
def World.Gains (w w' : World) (strong weak : CellId → Nat) : Prop :=
  ∀ c, w.store.alive c → w'.store.strongCount c = w.store.strongCount c + strong c ∧
    w'.store.weakCount c = w.store.weakCount c + weak c

/-- The number of names in the key table that somebody holds. -/
def World.liveNames (w : World) : Nat := w.cache.keys.liveCount w.store

/-- What a compilation from `w` to `w'` has done to the counts. -/
structure World.Balanced (w : World) (r : Except Error Payload) (w' : World) : Prop where
  /-- A failure leaves all counts as they were, up to what the host has thrown. -/
  failed : ∀ e, r = .error e →
    w.Gains w' (fun c => holding e.owned (.cell c)) (fun c => holding e.owned (.weakCell c)) ∧
      w'.liveNames = w.liveNames
  /-- A result is counted for what it has captured. -/
  compiled : ∀ x, r = .ok x → w.Gains w' x.captures x.compiledFrom
  /-- A result that is dropped leaves all counts as they were. -/
  dropped : ∀ x, r = .ok x →
    w.Gains (w'.onStore (·.release [.held x])) (fun _ => 0) (fun _ => 0) ∧
      (w'.onStore (·.release [.held x])).liveNames = w.liveNames

theorem Ongoing.gains {w₀ : World} {k f : Holding} (h : Ongoing w₀ k w f) :
    w₀.Gains w (fun c => f (.cell c)) fun c => f (.weakCell c) := fun _ hc =>
  ⟨h.count (.cell _) (.inl hc), h.count (.weakCell _) (.inl hc)⟩

/-- As many names are held as in the beginning, if no name is in hand. -/
theorem Ongoing.liveNames {w₀ : World} {k f : Holding} (h : Ongoing w₀ k w f)
    (hf : ∀ n, f (.name n) = 0) : w.liveNames = w₀.liveNames := by
  have hiff : ∀ n ∈ w.cache.keys.names, w.store.nameAlive n ↔ w₀.store.nameAlive n := by
    intro n hn
    refine ⟨fun hlive => ?_, fun hlive => h.has_of_watches (x := .name n.id) hlive⟩
    have hpos := h.attended (.name n.id) rfl hlive
    rw [h.count _ (.inr ⟨n, hn, rfl⟩), hf, add_zero] at hpos
    by_contra hdead
    rw [Store.count_of_not_has (x := .name n.id) hdead] at hpos
    exact Nat.lt_irrefl 0 hpos
  rw [World.liveNames, World.liveNames, KeyTable.liveCount_eq, KeyTable.liveCount_eq,
    List.countP_congr hiff, List.countP_eq_length_filter, List.countP_eq_length_filter, h.table]

/-- Compiling is a transaction. -/
theorem compilation_balanced (ho : host.Orderly) (hl : host.Lends) {k : Holding}
    (hw : w.WellCounted k) {l : Lookup} {r : Except Error Payload}
    (h : l.fresh host w = .ok (r, w')) : w.Balanced r w' := by
  have hstep :=
    (Lookup.meets_fresh (L := transacting ho hl w k hw.attended) l w).done r w' h
  have hend := hstep 0 (by
    rw [add_zero]
    exact .start hw.covers hw.attended hw.known)
  rw [add_zero] at hend
  refine ⟨?_, ?_, ?_⟩
  · rintro e rfl
    refine ⟨hend.gains, hend.liveNames fun n => ?_⟩
    cases e with
    | host e => exact holding_ownedByReply_name (.error e) n
    | _ => rfl
  · rintro x rfl c hc
    obtain ⟨hstrong, hweak⟩ := hend.gains c hc
    rw [← x.holding_cell c, ← Payload.holding_weakCell (l.strong_of_fresh h) c]
    exact ⟨hstrong, hweak⟩
  · rintro x rfl
    have hdropped := Ongoing.release (f := 0) hw.attended (by
      rw [add_zero]
      exact hend)
    exact ⟨hdropped.gains, hdropped.liveNames fun _ => rfl⟩

/-! ## An attribute whose code is shared -/

theorem plain?_ownedByReply (reply : Except HostError (List Value)) :
    ∀ o ∈ ownedByReply reply, o.plain?.isSome := by
  have hvalue : ∀ v : Value, ∀ o ∈ v.owned, o.plain?.isSome := by
    intro v o ho
    cases v with
    | ref c | weak c =>
      rw [List.mem_singleton.1 ho]
      rfl
    | _ => cases ho
  intro o ho
  cases reply with
  | ok vs =>
    obtain ⟨v, -, ho⟩ := List.mem_flatMap.1 ho
    exact hvalue v o ho
  | error e => exact hvalue e.thrown o ho

/-- To share what is there is to lend it. -/
theorem World.Lends.of_share {reply : Except HostError (List Value)}
    (hkeys : w'.cache.keys = w.cache.keys)
    (hstore : w'.store = w.store.retain (ownedByReply reply))
    (hcov : ∀ f, w.Covers f → w'.Covers (holding (ownedByReply reply) + f)) :
    w.Lends reply w' where
  toExtends := by
    rw [hstore]
    exact w.store.extends_retain _
  keys := hkeys
  count x hx := by rw [hstore, Store.count_retain (plain?_ownedByReply reply) hx]
  young x hx y hy := by
    rw [hstore, Store.inside_congr (fun c _ => w.store.cell?_retain _ c)
      fun p _ => w.store.payload?_retain _ p,
      Store.inside_of_not_has fun hh => hx (Store.oldIn_of_has hh)] at hy
    cases hy
  attended hat := by
    rw [hstore]
    exact hat.retain _
  covers := hcov

theorem lends_plainHost : plainHost.Lends := by
  intro q f hq hcov
  obtain ⟨hreply, hafter⟩ := answers_plain hq
  refine .of_share (by rw [hafter]; rfl) (by rw [hafter]; rfl) fun g hg => ?_
  rw [hafter]
  exact World.Covers.retain (w := q.before.countCall) hg
    (World.Covers.present_of_hands (w := q.before.countCall) hg (hands_plainReply hreply))

/-- A world is well counted if each of its entries is. -/
theorem World.wellCounted_of_entries {os : List Owned}
    (hcov : ∀ x ∈ w.store.units ++ (w.roots ++ os).flatMap Owned.units,
      w.store.held x + holding (w.roots ++ os) x ≤ w.store.count x)
    (hcells : ∀ e ∈ w.store.cells.entries, 0 < e.2.strong)
    (hnames : ∀ e ∈ w.store.names.entries, 0 < e.2)
    (hpayloads : ∀ e ∈ w.store.payloads.entries, 0 < e.2.strong)
    (hknown : ∀ n ∈ w.cache.keys.names, n.id < w.store.names.next) :
    w.WellCounted (holding os) where
  covers := by
    have := Store.covers_of_units hcov
    rwa [holding_append] at this
  attended := .of_entries hcells hnames hpayloads
  known := hknown

/-- A class with an attribute whose default and initializer are the same code, and with something
that is no attribute at all: the instance metaobject itself. -/
def codedWorld (second : List Value) : World :=
  let w := pointWorld.onStore fun s =>
    (s.newCell (.code { name := none, routine := .mk none [] none none none [] })).2.retain
      [.cell 3]
  let w := w.setBehavior 0 AttributeQuery.hasDefault.method (.reply [.int 1])
  let w := w.setBehavior 0 AttributeQuery.default.method (.reply [.ref 3])
  let w := w.setBehavior 0 AttributeQuery.hasInitializer.method (.reply [.int 1])
  let w := w.setBehavior 0 AttributeQuery.initializer.method (.reply [.ref 3])
  (w.onStore (·.retain (.cell 0 :: ownedByAll second))).setAttributes 1 (.ref 0 :: second)

theorem wellCounted_codedWorld (second : List Value) (h : second = [] ∨ second = [.ref 2]) :
    (codedWorld second).WellCounted (holding [.cell 1, .cell 2]) := by
  rcases h with rfl | rfl <;> exact World.wellCounted_of_entries (by decide +kernel)
    (by decide +kernel) (by decide +kernel) (by decide +kernel) (by decide +kernel)

/-- The shadow captures the code twice and its class once. With something that cannot be compiled
after the attribute, all that was captured is given back. -/
theorem compilation_balanced_codedWorld :
    (∃ x, (Lookup.shadow (.ref 2)).fresh plainHost (codedWorld []) =
        .ok (.ok x, ((Lookup.shadow (.ref 2)).fresh plainHost).leaves (codedWorld [])) ∧
      x.captures 3 = 2 ∧ x.captures 1 = 1 ∧ x.compiledFrom 0 = 1 ∧
      (codedWorld []).Balanced (.ok x)
        (((Lookup.shadow (.ref 2)).fresh plainHost).leaves (codedWorld []))) ∧
    ∃ e, (Lookup.shadow (.ref 2)).fresh plainHost (codedWorld [.ref 2]) =
        .ok (.error e, ((Lookup.shadow (.ref 2)).fresh plainHost).leaves (codedWorld [.ref 2])) ∧
      (codedWorld [.ref 2]).Balanced (.error e)
        (((Lookup.shadow (.ref 2)).fresh plainHost).leaves (codedWorld [.ref 2])) := by
  have ho : plainHost.Orderly := (registered_scriptedHost _ : plainHost.Registered).orderly
  constructor
  · have hanswer : (((Lookup.shadow (.ref 2)).fresh plainHost).answer? (codedWorld [])).map
        (fun x => (x.captures 3, x.captures 1, x.compiledFrom 0)) = some (2, 1, 1) := by
      decide +kernel
    obtain ⟨x, hx, hcaptures⟩ := Option.map_eq_some_iff.1 hanswer
    obtain ⟨hcode, hrest⟩ := Prod.mk.inj hcaptures
    obtain ⟨hcls, hfrom⟩ := Prod.mk.inj hrest
    have hrun := Build.eq_of_answer? hx
    exact ⟨x, hrun, hcode, hcls, hfrom, compilation_balanced ho lends_plainHost
      (wellCounted_codedWorld [] (.inl rfl)) hrun⟩
  · have hfails : (((Lookup.shadow (.ref 2)).fresh plainHost).failure?
        (codedWorld [.ref 2])).isSome := by decide +kernel
    obtain ⟨e, he⟩ := Option.isSome_iff_exists.1 hfails
    have hrun := Build.eq_of_failure? he
    exact ⟨e, hrun, compilation_balanced ho lends_plainHost
      (wellCounted_codedWorld _ (.inr rfl)) hrun⟩

end MetaCache
