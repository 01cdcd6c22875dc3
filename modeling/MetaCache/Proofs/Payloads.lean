import MetaCache.Proofs.Custody.Hosts
import MetaCache.Proofs.Custody.Payloads
/-!
# Payloads go once, with the last handle

Whatever is attached, detached, looked up, discarded, copied and dropped, in whatever order and over
whatever objects, a payload is there as long as an extension slot or somebody's hand has a handle on
it. It goes in the very act that gives the last handle back, also if an object with its slot goes in
the middle of a cascade, and no payload goes twice.

* `Estate.PayloadsKept`: what becomes of payloads and extension slots in a run.
* `Estate.payload_released_once`: this is what becomes of them in every run.
* `Estate.taggedStore`: an object with a payload attached to it, for an example.
-/

namespace MetaCache.Estate

open Store (farewell)

/-- What becomes of payloads and extension slots in a run from `e` to `d`. -/
structure PayloadsKept (hash : String → UInt32) (e : Estate) (ts : List Turn) (d : Estate) :
    Prop where
  /-- At every moment a payload is there exactly if an extension slot of an object that is there
  holds it, or somebody has a handle on it in hand or is giving one back. -/
  there : Throughout (fun m => ∀ p, m.There p ↔ m.Handled p) ts d
  /-- What it contains does not change. -/
  content : ∀ p x, e.store.payload? p = some x → d.There p → d.store.payload? p = some x
  /-- It goes in the turn in which the last handle goes. -/
  last : ∀ t ∈ ts, ∀ p, t.Releases hash p ↔ t.before.Handled p ∧ ¬ (t.after hash).Handled p
  /-- In that turn the one handle that was left is given back, and what the payload was is to be
  given back next. -/
  goes : ∀ t ∈ ts, ∀ p, t.Releases hash p → t.before.owners (.payload p) = 1 ∧
    ∃ x rest, t.before.store.payload? p = some x ∧ t.before.falling = .payload p :: rest ∧
      (t.after hash).falling = .held x :: rest
  /-- An object goes when it has lost its last owner. Then all that it holds is to be given back
  next, and last of this the record in its extension slot. -/
  finalised : ∀ t ∈ ts, ∀ c y, t.before.store.cell? c = some y →
    (t.after hash).store.cell? c = none → t.before.owners (.cell c) = 1 ∧
      ∃ rest, t.before.falling = .cell c :: rest ∧
        (t.after hash).falling =
          y.referent.owned ++ ownedByRecord? (t.before.store.extension? c) ++ rest
  /-- What is next to be given back goes before anything else is done. A payload is seen as it goes,
  and all that it holds is next. -/
  farewell : ∀ t ∈ ts, ∀ x rest, t.before.falling = .held x :: rest →
    (t.after hash).store.journal = farewell x :: t.before.store.journal ∧
      (t.after hash).falling = x.owned ++ rest
  /-- A payload that was there or was made goes once if it is not there any more, and never if it
  is. -/
  once : ∀ p, ts.countP (Turn.Releases hash p) + (if d.There p then 1 else 0) =
    (if e.There p then 1 else 0) + if e.Makes d p then 1 else 0
  /-- An extension slot holds the record that was put into it last. -/
  slot : ∀ c, d.store.alive c →
    d.store.extension? c = (lastPut? c ts).getD (e.store.extension? c)
  /-- Whoever puts a record into a slot, or empties it, has the record that was in it. -/
  exchange : ∀ t ∈ ts, ∀ c r?, t.act = .attach c r? → (t.after hash).store.extension? c = r? ∧
    (t.after hash).hand = holding (ownedByRecord? (t.before.store.extension? c)) +
      (t.before.hand - holding (ownedByRecord? r?))

variable {hash : String → UInt32} {e d : Estate} {ts : List Turn}

/-- Payloads are kept as long as somebody has a handle on them and go once, with the last one,
whatever is done: operations on slots, lookups, discards and exchanges of records are runs. -/
theorem payload_released_once (he : e.Exact) (hr : e.Run hash ts d) :
    PayloadsKept hash e ts d ∧ ComesToActs := by
  have hexact : Throughout Exact ts d := hr.throughout he fun h ha => h.after ha
  have hturn : ∀ t ∈ ts, (t.after hash).Exact := fun t ht =>
    (hexact.1 t ht).after (hr.allows t ht)
  refine ⟨?_, comesToActs⟩
  constructor
  case there => exact ⟨fun t ht => (hexact.1 t ht).there_iff, hexact.2.there_iff⟩
  case content =>
    intro p x hx hp
    have hold : e.store.has (.payload p) := by
      obtain ⟨y, hy, -⟩ := Option.map_eq_some_iff.1 hx
      exact Option.isSome_iff_exists.2 ⟨y, hy⟩
    exact (hr.ages.payload? p (Store.oldIn_of_has (x := .payload p) hold) hp).trans hx
  case last =>
    intro t ht p
    rw [Turn.Releases, (hexact.1 t ht).there_iff, (hturn t ht).there_iff]
  case goes =>
    intro t ht p hp
    obtain ⟨-, hone, o, rest, ho, hrest, hafter⟩ :=
      fall_of_gone (x := .payload p) (hexact.1 t ht) (hr.allows t ht) rfl hp.1 hp.2
    obtain ⟨y, hy⟩ := Option.isSome_iff_exists.1 hp.1
    have hx : t.before.store.payload? p = some y.content := by rw [Store.payload?, hy]; rfl
    have ho : o = .payload p := by
      cases o <;> cases ho
      rfl
    refine ⟨hone, y.content, rest, hx, ho ▸ hrest, ?_⟩
    rw [Turn.after, hafter, Store.inside, hx]
    rfl
  case finalised =>
    intro t ht c y hy hgone
    have hs : t.before.store.has (.cell c) := Store.alive_iff_cell?.2 ⟨y, hy⟩
    have hdead : ¬ (t.after hash).store.has (.cell c) := fun h => by
      obtain ⟨z, hz⟩ := Store.alive_iff_cell?.1 h
      rw [hgone] at hz
      cases hz
    obtain ⟨-, hone, o, rest, ho, hrest, hafter⟩ :=
      fall_of_gone (hexact.1 t ht) (hr.allows t ht) rfl hs hdead
    have ho : o = .cell c := by
      cases o <;> cases ho
      rfl
    refine ⟨hone, rest, ho ▸ hrest, ?_⟩
    rw [Turn.after, hafter, Store.inside, Store.extension?, hy]
    rfl
  case farewell =>
    intro t ht x rest hrest
    have hfall : t.act = .fall :=
      (hr.allows t ht).turn.1 (by rw [hrest]; exact List.cons_ne_nil _ _)
    rw [Turn.after, hfall, after_fall hash t.before hrest]
    exact ⟨rfl, rfl⟩
  case once => exact hr.releases_add
  case slot => exact fun c => hr.extension?_eq
  case exchange =>
    intro t ht c r? hact
    have hc : t.before.store.alive c := by
      have hfits := (hr.allows t ht).fits
      rw [hact] at hfits
      exact hfits.1
    rw [Turn.after, hact]
    refine ⟨?_, rfl⟩
    show (t.before.store.setExtension c r?).extension? c = r?
    rw [Store.extension?_setExtension hc, if_pos rfl]

/-- A store with an object that has a payload attached to it. -/
def taggedStore : Store :=
  (((({} : Store).newPayload (.tag "t")).2.newCell (.scalar .undef)).2.retain
    [.weakCell 0]).setExtension 0 (some { payload := 0, generation := 1, governor := 0 })

/-- The object comes about, and goes when its owner drops it. -/
theorem leads_taggedStore (hash : String → UInt32) : ({} : Estate).Leads hash (fun _ _ => False)
    (({} : Estate).now (taggedStore.release [.cell 0]) 0) := by
  have hpayload : Leads hash (fun _ _ => False) (({} : Estate).now {} 0) _ :=
    leads_newPayload rfl {} 0 (.tag "t")
  have hcell : Leads hash (fun _ _ => False) _ _ := leads_newCell (e := {}) rfl
    (({} : Store).newPayload (.tag "t")).2 (holding [.payload 0]) (r := .scalar .undef)
    (by simp)
  have hweak : Leads hash (fun _ _ => False) _ _ := leads_share (e := {}) rfl
    (s := ((({} : Store).newPayload (.tag "t")).2.newCell (.scalar .undef)).2)
    (f := holding [.cell 0] + holding [.payload 0]) fun (o : Owned) (ho : o ∈ [.weakCell 0]) => by
      rw [List.mem_singleton.1 ho]
      rfl
  have hattach : Leads hash (fun _ _ => False) _ (({} : Estate).now taggedStore _) :=
    leads_attach (e := {}) (f := holding [.cell 0]) rfl (by decide) _
  have hdrop : Leads hash (fun _ _ => False) _ _ :=
    leads_release (e := {}) rfl taggedStore 0 [.cell 0]
  have hrecord : holding [.weakCell 0] + (holding [.cell 0] + holding [.payload 0]) =
      holding [.payload 0, .weakCell 0] + holding [.cell 0] := by
    rw [holding_cons (.payload 0) [.weakCell 0]]
    ac_rfl
  rw [hrecord] at hweak
  rw [add_comm (holding [.cell 0])] at hdrop
  rw [add_comm] at hpayload
  exact hpayload.trans (hcell.trans (hweak.trans (hattach.trans hdrop)))

theorem payload_released_once_taggedStore : ∃ ts d, ({} : Estate).Run Text.nameHash ts d ∧
    ¬ d.There 0 ∧ ts.countP (Turn.Releases Text.nameHash 0) = 1 ∧
      PayloadsKept Text.nameHash {} ts d := by
  obtain ⟨ts, hr, -⟩ := leads_taggedStore Text.nameHash
  have hkept := (payload_released_once .empty hr).1
  have hgone : ¬ (({} : Estate).now (taggedStore.release [.cell 0]) 0).There 0 := by decide +kernel
  have hmade : Makes {} (({} : Estate).now (taggedStore.release [.cell 0]) 0) 0 := by
    decide +kernel
  have honce := hkept.once 0
  rw [if_neg hgone, if_neg (by decide), if_pos hmade] at honce
  exact ⟨ts, _, hr, hgone, honce, hkept⟩

end MetaCache.Estate
