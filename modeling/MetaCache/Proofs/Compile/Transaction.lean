import MetaCache.Proofs.Compile.Ongoing
import MetaCache.Proofs.History.Later
/-!
# Compiling as a transaction

The invariant of a compilation is kept when names are interned and when the host answers, and so it
is kept by every compilation, up to its outcome.

* `Ongoing.key`: names interned.
* `Ongoing.answered`: answers without side effects.
* `transacting`: the ledger of the invariant.
-/

namespace MetaCache

variable {host : Host} {w₀ w w' : World} {k f : Holding}

theorem holding_ownedByAll_name (vs : List Value) (n : NameId) :
    holding (ownedByAll vs) (.name n) = 0 := by
  induction vs with
  | nil => rfl
  | cons v rest ih =>
    rw [ownedByAll_cons, holding_append, Pi.add_apply, ih]
    cases v <;> rfl

/-- Values have no shares of names. -/
theorem holding_ownedByReply_name (reply : Except HostError (List Value)) (n : NameId) :
    holding (ownedByReply reply) (.name n) = 0 := by
  cases reply with
  | ok vs => exact holding_ownedByAll_name vs n
  | error e =>
    rw [ownedByReply, ← ownedByAll_singleton]
    exact holding_ownedByAll_name _ n

namespace Ongoing

/-! ## Keys -/

/-- Names dropped from the table that nobody held in the beginning. -/
theorem rekey (h : Ongoing w₀ k w f) (keys : KeyTable)
    (hsub : ∀ n ∈ keys.names, n ∈ w.cache.keys.names)
    (hfilter : keys.names.filter w₀.store.nameAlive =
      w.cache.keys.names.filter w₀.store.nameAlive) :
    Ongoing w₀ k { w with cache := { w.cache with keys } } f where
  toExtends := h.toExtends
  covers := h.covers
  attended := h.attended
  count x hx := h.count x (hx.imp id fun ⟨n, hn, hx⟩ => ⟨n, hsub n hn, hx⟩)
  young x hx y hy := by
    obtain ⟨hyold, hyw⟩ := h.young x hx y hy
    exact ⟨hyold, fun hw => hyw (hw.imp id fun ⟨n, hn, hx⟩ => ⟨n, hsub n hn, hx⟩)⟩
  known n hn := h.known n (hsub n hn)
  table := hfilter.trans h.table

/-- A new name, which the table may have in addition. -/
theorem newName (h : Ongoing w₀ k w f) (text : String) (keys : KeyTable)
    (hsub : ∀ n ∈ keys.names, n ∈ w.cache.keys.names ∨ n = (w.store.newName text).1)
    (hfilter : keys.names.filter w₀.store.nameAlive =
      w.cache.keys.names.filter w₀.store.nameAlive) :
    Ongoing w₀ k
      { w with cache := { w.cache with keys }, store := (w.store.newName text).2 }
      (holding [.name (w.store.newName text).1.id] + f) := by
  have hext := w.store.extends_newName text
  have hnext : ¬ (Share.name w.store.names.next).OldIn w.store := Nat.lt_irrefl _
  -- what is watched now was watched before, or it is the new name
  have hwatched : ∀ x : Share, w₀.Watches
      { w with cache := { w.cache with keys }, store := (w.store.newName text).2 } x →
      w₀.Watches w x ∨ x = .name w.store.names.next := by
    rintro x (hx | ⟨n, hn, rfl⟩)
    · exact .inl (.inl hx)
    · rcases hsub n hn with hn | rfl
      · exact .inl (.inr ⟨n, hn, rfl⟩)
      · exact .inr rfl
  have hcov := h.covers.newName text
  refine ⟨h.toExtends.trans hext, ?_, h.attended.newName text, fun x hx => ?_,
    fun x hx y hy => ?_, fun n hn => ?_, hfilter.trans h.table⟩
  · show Store.Covers _ (holding w.roots + (_ + f + k))
    rw [add_assoc, add_left_comm]
    exact hcov
  · show (w.store.newName text).2.count x = _
    rw [Store.count_newName, Pi.add_apply]
    show _ = w₀.store.count x + (holding [.name w.store.names.next] x + f x)
    by_cases hxn : x = .name w.store.names.next
    · -- nobody has a share of a name that there is not
      subst hxn
      have hgone : ¬ w.store.has (.name w.store.names.next) := fun hh =>
        hnext (Store.oldIn_of_has hh)
      have hgone₀ : ¬ w₀.store.has (.name w.store.names.next) := fun hh =>
        hnext (h.old _ (Store.oldIn_of_has hh))
      rw [Store.count_of_not_has hgone, Store.count_of_not_has hgone₀,
        h.hand_eq_zero (x := .name _) rfl hgone, Nat.add_zero]
    · rw [h.count x ((hwatched x hx).resolve_right hxn)]
      omega
  · have hinside : (w.store.newName text).2.inside x = w.store.inside x :=
      Store.inside_congr (fun _ _ => rfl) fun _ _ => rfl
    have hy : 0 < holding ((w.store.newName text).2.inside x) y := hy
    rw [hinside] at hy
    obtain ⟨hyold, hyw⟩ := h.young x hx y hy
    refine ⟨hext.old y hyold, fun hw => ?_⟩
    rcases hwatched y hw with hw | rfl
    · exact hyw hw
    · exact hnext hyold
  · rcases hsub n hn with hn | rfl
    · exact hext.old _ (h.known n hn)
    · exact Nat.lt_succ_self _

/-- Who was held in the beginning is held still. -/
theorem filter_live (h : Ongoing w₀ k w f) (names : List SharedName) :
    (names.filter w.store.nameAlive).filter w₀.store.nameAlive =
      names.filter w₀.store.nameAlive := by
  rw [List.filter_filter]
  refine List.filter_congr fun n _ => ?_
  cases hn : w₀.store.nameAlive n with
  | true => exact h.has_of_watches (x := .name n.id) hn
  | false => rfl

theorem not_nameAlive_newName (h : Ongoing w₀ k w f) (text : String) :
    ¬ w₀.store.nameAlive (w.store.newName text).1 := fun hh =>
  Nat.lt_irrefl _ (h.old (.name _) (Store.oldIn_of_has (x := .name _) hh))

theorem sweepIfDue (h : Ongoing w₀ k w f) : Ongoing w₀ k
    { w with
      cache := { w.cache with keys := (w.cache.keys.sweepIfDue w.store).1 }
      store := (w.cache.keys.sweepIfDue w.store).2 } f := by
  unfold KeyTable.sweepIfDue
  split
  · have hnames := w.cache.keys.names_sweep w.store
    refine (h.rekey (w.cache.keys.sweep w.store).1 (fun n hn => ?_) ?_).record _
    · rw [hnames] at hn
      exact (List.mem_filter.1 hn).1
    · rw [hnames]
      exact h.filter_live _
  · exact h

theorem internInBucket (h : Ongoing w₀ k w f) {hash : UInt32} (name : String)
    {bucket : List SharedName} (hb : w.cache.keys.bucket? hash = some bucket) : Ongoing w₀ k
    { w with
      cache := { w.cache with
        keys := (w.cache.keys.internInBucket hash name bucket w.store).2.1 }
      store := (w.cache.keys.internInBucket hash name bucket w.store).2.2 }
    (holding (w.cache.keys.internInBucket hash name bucket w.store).1.owned + f) := by
  have hbucket : ∀ n ∈ bucket.filter w.store.nameAlive, n ∈ w.cache.keys.names := fun n hn =>
    KeyTable.mem_names_of_bucket? hb (List.mem_filter.1 hn).1
  simp only [KeyTable.internInBucket]
  split
  · rename_i n hn
    have hlive : w.store.nameAlive n :=
      (List.mem_filter.1 (List.mem_of_find?_eq_some hn)).2
    have hswept := h.rekey { w.cache.keys with
      buckets := KeyTable.replaceBucket hash (bucket.filter w.store.nameAlive) w.cache.keys.buckets
      tracked := w.cache.keys.tracked -
        (bucket.length - (bucket.filter w.store.nameAlive).length) }
      (fun n hn => (KeyTable.mem_names_replaceBucket hn).elim (hbucket n) id)
      (KeyTable.filter_names_replaceBucket hb (h.filter_live bucket))
    exact hswept.retainOne (o := .name n.id) rfl fun _ => hlive
  · have hnew := h.newName name { w.cache.keys with
      buckets := KeyTable.replaceBucket hash
        (bucket.filter w.store.nameAlive ++ [(w.store.newName name).1]) w.cache.keys.buckets
      tracked := w.cache.keys.tracked -
        (bucket.length - (bucket.filter w.store.nameAlive).length) + 1 } (fun n hn => ?_) ?_
    · split
      · exact hnew
      · exact hnew.record _
    · rcases KeyTable.mem_names_replaceBucket hn with hn | hn
      · exact (List.mem_append.1 hn).imp (hbucket n) List.mem_singleton.1
      · exact .inl hn
    · refine KeyTable.filter_names_replaceBucket hb ?_
      rw [List.filter_append, h.filter_live,
        List.filter_cons_of_neg (h.not_nameAlive_newName name), List.filter_nil, List.append_nil]

/-- A key is a share of its name. -/
theorem key (h : Ongoing w₀ k w f) (name : String) :
    Ongoing w₀ k (w.key name).2 (holding (w.key name).1.owned + f) := by
  unfold World.key
  split
  · simp only [KeyTable.intern]
    split
    · rename_i bucket hb
      exact h.sweepIfDue.internInBucket name hb
    · refine (h.sweepIfDue.record _).newName name _ (fun n hn => ?_) ?_
      · obtain ⟨e, he, hn⟩ := KeyTable.mem_names.1 hn
        rcases List.mem_cons.1 he with rfl | he
        · exact .inr (List.mem_singleton.1 hn)
        · exact .inl (KeyTable.mem_names.2 ⟨e, he, hn⟩)
      · exact List.filter_cons_of_neg (h.sweepIfDue.not_nameAlive_newName name)
  · exact h.newName name w.cache.keys (fun n hn => .inl hn) rfl

/-! ## Answers -/

/-- An answer without side effects. -/
theorem answered (h : Ongoing w₀ k w f) {reply : Except HostError (List Value)}
    (hl : w.Lends reply w') : Ongoing w₀ k w' (holding (ownedByReply reply) + f) := by
  have hwatched : ∀ x, w₀.Watches w' x → w₀.Watches w x := by
    intro x hx
    rwa [World.Watches, hl.keys] at hx
  refine ⟨h.toExtends.trans hl.toExtends, ?_, hl.attended h.attended, fun x hx => ?_,
    fun x hx y hy => ?_, fun n hn => ?_, ?_⟩
  · rw [add_assoc]
    exact hl.covers _ h.covers
  · have hcount := h.count x (hwatched x hx)
    rw [Pi.add_apply]
    by_cases hh : w.store.has x
    · rw [hl.count x hh]
      omega
    · -- a name of the table that nobody holds
      rcases hwatched x hx with hx | ⟨n, hn, rfl⟩
      · exact absurd (h.has_of_watches hx) hh
      · have hgone : ¬ w'.store.has (.name n.id) := by
          rwa [hl.has _ (h.known n hn)]
        rw [Store.count_of_not_has hh] at hcount
        rw [Store.count_of_not_has hgone, holding_ownedByReply_name, zero_add]
        exact hcount
  · by_cases hxw : x.OldIn w.store
    · rw [hl.toExtends.inside_eq hxw] at hy
      obtain ⟨hyold, hyw⟩ := h.young x hx y hy
      exact ⟨hl.old y hyold, fun hw => hyw (hwatched y hw)⟩
    · obtain ⟨hynew, hyold⟩ := hl.young x hxw y hy
      refine ⟨hyold, fun hw => hynew ?_⟩
      rcases hwatched y hw with hw | ⟨n, hn, rfl⟩
      · exact h.old y (Store.oldIn_of_has hw)
      · exact h.known n hn
  · rw [hl.keys] at hn
    exact hl.old _ (h.known n hn)
  · rw [hl.keys]
    exact h.table

end Ongoing

/-- The ledger of the computations that began in `w₀`. -/
def transacting (ho : host.Orderly) (hl : host.Lends) (w₀ : World) (k : Holding)
    (hat₀ : w₀.store.Attended) : Ledger host where
  Step w f w' f' := ∀ g, Ongoing w₀ k w (f + g) → Ongoing w₀ k w' (f' + g)
  refl _ _ _ h := h
  trans h h' g hg := h' g (h g hg)
  frame g h g' hg := by
    rw [add_assoc] at hg ⊢
    exact h _ hg
  release w os g h := by
    rw [zero_add]
    exact h.release hat₀
  note w n g h := h.record (.note n)
  retainWeak w c g h := by
    rw [zero_add] at h
    exact h.retainOne (o := .weakCell c) (x := .weakCell c) rfl fun hx => by cases hx
  retainClass hc g h := by
    rw [zero_add] at h
    exact h.retainOne (o := .cell _) (x := .cell _) rfl fun _ => ho.class? h.covers hc
  key w name g h := by
    rw [zero_add] at h
    exact h.key name
  upgrade w v g h := h.upgrade hat₀
  query hq g h := by
    rw [zero_add] at h
    exact h.answered (hl hq h.covers)

end MetaCache
