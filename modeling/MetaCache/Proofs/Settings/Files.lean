import MetaCache.Files.Tree
/-!
# Files are read back

A path is followed name by name, and two dots lead back to the directory where the name before was
followed. Writing a file leaves every directory a directory, so in the tree with the file the same
names lead the same way as before, and in the end to the file.

* `FileTree.node?`: what is under a path without dots.
* `FileTree.Stands`: how a path has been followed so far.
* `FileTree.Leads`: how the rest of it is followed, step by step; `FileTree.Leads.fits`.
* `FileTree.Leads.same`: names followed in two trees.
* `FileTree.read_of_write`: a file that was written is read.
-/

namespace MetaCache

theorem fromUTF8?_toUTF8 (s : String) : String.fromUTF8? s.toUTF8 = some s :=
  dif_pos s.isValidUTF8

/-- The names of a place. -/
def Place.names : Place → List String
  | .found names _ | .absent names => names

namespace FileTree

variable {t t' here here' node : FileTree} {p names : List String}
  {trail trail' : List (String × FileTree)}

/-- What is under a name in a directory. -/
def child? (n : String) : FileTree → Option FileTree
  | .file _ => none
  | .directory es => es.lookup n

/-- What is under the names, one below the other. -/
def node? : FileTree → List String → Option FileTree
  | t, [] => some t
  | t, n :: rest => (t.child? n).bind fun next => next.node? rest

theorem node?_concat (t : FileTree) (p : List String) (n : String) :
    t.node? (p ++ [n]) = (t.node? p).bind (child? n) := by
  induction p generalizing t with
  | nil =>
    show (t.child? n).bind some = t.child? n
    exact Option.bind_fun_some _
  | cons m p ih =>
    show (t.child? m).bind _ = ((t.child? m).bind _).bind _
    rw [Option.bind_assoc]
    exact congrArg _ (funext fun next => ih next)

/-! ## What putting leaves -/

theorem child?_put_self (es : List (String × FileTree)) (n : String) (rest : List String) :
    child? n (put node (.directory es) (n :: rest)) =
      some (put node ((es.lookup n).getD (.directory [])) rest) := by
  rw [put, child?, List.lookup_cons, BEq.rfl]

theorem lookup_filter_of_ne (es : List (String × FileTree)) {m n : String} (h : m ≠ n) :
    (es.filter fun e => e.1 != n).lookup m = es.lookup m := by
  induction es with
  | nil => rfl
  | cons e es ih =>
    obtain ⟨j, t⟩ := e
    rw [List.lookup_cons, ← ih]
    by_cases hj : j = n
    · rw [List.filter_cons_of_neg (by simp [hj]), hj, beq_false_of_ne h]
    · rw [List.filter_cons_of_pos (by simpa using hj), List.lookup_cons]

theorem child?_put_of_ne (es : List (String × FileTree)) {m n : String} (h : m ≠ n)
    (rest : List String) : child? m (put node (.directory es) (n :: rest)) = es.lookup m := by
  rw [put, child?, List.lookup_cons, beq_false_of_ne h]
  exact lookup_filter_of_ne es h

/-- What is put in place of something is there. -/
theorem node?_put_of_some (h : t.node? p = some here) : (put node t p).node? p = some node := by
  induction p generalizing t with
  | nil => rfl
  | cons n p ih =>
    cases t with
    | file content => cases h
    | directory es =>
      obtain ⟨next, hnext, hp⟩ := Option.bind_eq_some_iff.1 h
      have hnext : es.lookup n = some next := hnext
      rw [node?, child?_put_self, hnext]
      exact ih hp

/-- What is put into a directory is there. -/
theorem node?_put_concat {es : List (String × FileTree)} {n : String}
    (h : t.node? p = some (.directory es)) :
    (put node t (p ++ [n])).node? (p ++ [n]) = some node := by
  induction p generalizing t with
  | nil =>
    cases h
    rw [List.nil_append, node?, child?_put_self]
    rfl
  | cons m p ih =>
    cases t with
    | file content => cases h
    | directory es' =>
      obtain ⟨next, hnext, hp⟩ := Option.bind_eq_some_iff.1 h
      have hnext : es'.lookup m = some next := hnext
      rw [List.cons_append, node?, child?_put_self, hnext]
      exact ih hp

/-- Where there was no directory, putting something leaves all directories directories. -/
theorem directory_put {there : List String} (ht : ∀ es, t.node? there ≠ some (.directory es))
    {es : List (String × FileTree)} (h : t.node? p = some (.directory es)) :
    ∃ es', (put node t there).node? p = some (.directory es') := by
  induction there generalizing t p with
  | nil =>
    cases t with
    | file content =>
      cases p <;> cases h
    | directory es' => exact absurd rfl (ht es')
  | cons n there ih =>
    cases t with
    | file content => cases p <;> cases h
    | directory es' =>
      cases p with
      | nil => exact ⟨_, rfl⟩
      | cons m p =>
        obtain ⟨next, hnext, hp⟩ := Option.bind_eq_some_iff.1 h
        have hnext : es'.lookup m = some next := hnext
        by_cases hm : m = n
        · subst hm
          have hthere : ∀ es, next.node? there ≠ some (.directory es) := by
            intro es heq
            refine ht es ?_
            rw [node?, child?, hnext]
            exact heq
          obtain ⟨es'', hes⟩ := ih hthere hp
          refine ⟨es'', ?_⟩
          rw [node?, child?_put_self, hnext]
          exact hes
        · refine ⟨es, ?_⟩
          rw [node?, child?_put_of_ne es' hm, hnext]
          exact hp

/-! ## Names that are followed -/

/-- The trail, innermost name first, each with the directory where it was followed, has led to
`here`. -/
inductive Stands (t : FileTree) : List (String × FileTree) → FileTree → Prop where
  | root : Stands t [] t
  | step {trail : List (String × FileTree)} {es : List (String × FileTree)} {n : String}
    {next : FileTree} : Stands t trail (.directory es) → es.lookup n = some next →
    Stands t ((n, .directory es) :: trail) next

/-- The names along a trail. -/
def along (trail : List (String × FileTree)) : List String := trail.reverse.map Prod.fst

theorem along_cons (n : String) (above : FileTree) (trail : List (String × FileTree)) :
    along ((n, above) :: trail) = along trail ++ [n] := by
  rw [along, List.reverse_cons, List.map_append]
  rfl

theorem Stands.node? (h : t.Stands trail here) : t.node? (along trail) = some here := by
  induction h with
  | root => rfl
  | step _ hn ih =>
    rw [along_cons, node?_concat, ih]
    exact hn

/-- What is under one more name is in the directory that the trail has led to. -/
theorem Stands.lookup {es : List (String × FileTree)} (h : t.Stands trail (.directory es))
    {n : String} (hn : t.node? (along trail ++ [n]) = some node) : es.lookup n = some node := by
  rw [node?_concat, h.node?] at hn
  exact hn

/-- The place that names lead to: something, or a name that is missing in a directory. -/
def Fits (t : FileTree) : Place → Prop
  | .found there node => t.node? there = some node
  | .absent there => t.node? there = none ∧
      ∃ p n es, there = p ++ [n] ∧ t.node? p = some (.directory es)

/-- A name that is looked up in a directory. -/
def Entered (n : String) : Prop := ¬ Path.isIdle n ∧ n ≠ ".." ∧ ¬ nameLimit < n.utf8ByteSize

/-- The steps in which names lead to a place. -/
inductive Leads : List (String × FileTree) → FileTree → List String → Place → Prop where
  | stop (trail : List (String × FileTree)) (here : FileTree) :
    Leads trail here [] (.found (along trail) here)
  | idle {trail : List (String × FileTree)} {es : List (String × FileTree)} {n : String}
    {rest : List String} {place : Place} (hn : Path.isIdle n)
    (h : Leads trail (.directory es) rest place) : Leads trail (.directory es) (n :: rest) place
  | top {es : List (String × FileTree)} {rest : List String} {place : Place}
    (h : Leads [] (.directory es) rest place) : Leads [] (.directory es) (".." :: rest) place
  | up {trail : List (String × FileTree)} {es : List (String × FileTree)} {n : String}
    {above : FileTree} {rest : List String} {place : Place} (h : Leads trail above rest place) :
    Leads ((n, above) :: trail) (.directory es) (".." :: rest) place
  | down {trail : List (String × FileTree)} {es : List (String × FileTree)} {n : String}
    {next : FileTree} {rest : List String} {place : Place} (hn : Entered n)
    (hnext : es.lookup n = some next) (h : Leads ((n, .directory es) :: trail) next rest place) :
    Leads trail (.directory es) (n :: rest) place
  | absent {trail : List (String × FileTree)} {es : List (String × FileTree)} {n : String}
    (hn : Entered n) (hnext : es.lookup n = none) :
    Leads trail (.directory es) [n] (.absent (along trail ++ [n]))

/-- Names that are followed lead to a place. -/
theorem leads_of_follow {place : Place} (h : follow trail here names = .ok place) :
    Leads trail here names place := by
  induction names generalizing trail here with
  | nil =>
    cases h
    exact .stop trail here
  | cons n rest ih =>
    cases here with
    | file content => cases h
    | directory es =>
      rw [follow.eq_def] at h
      dsimp only at h
      split at h
      · exact .idle ‹_› (ih h)
      split at h
      · subst n
        split at h
        · exact .top (ih h)
        · exact .up (ih h)
      split at h
      · cases h
      split at h
      · exact .down ⟨‹_›, ‹_›, ‹_›⟩ ‹_› (ih h)
      split at h
      · cases h
        obtain rfl := List.isEmpty_iff.1 ‹_›
        exact .absent ⟨‹_›, ‹_›, ‹_›⟩ ‹_›
      · cases h

/-- Each step is taken when the names are followed. -/
theorem Leads.follow_eq {place : Place} (h : Leads trail here names place) :
    follow trail here names = .ok place := by
  induction h with
  | stop trail here =>
    rw [follow]
    rfl
  | idle hn _ ih =>
    rw [follow.eq_def]
    exact (if_pos hn).trans ih
  | top _ ih | up _ ih => exact ih
  | down hn hnext _ ih =>
    rw [follow.eq_def]
    dsimp only
    rw [if_neg hn.1, if_neg hn.2.1, if_neg hn.2.2, hnext]
    exact ih
  | absent hn hnext =>
    rw [follow.eq_def]
    dsimp only
    rw [if_neg hn.1, if_neg hn.2.1, if_neg hn.2.2, hnext]
    rfl

/-- A place that names lead to is as it is said to be. -/
theorem Leads.fits {place : Place} (h : Leads trail here names place) (hs : t.Stands trail here) :
    t.Fits place := by
  induction h with
  | stop => exact hs.node?
  | idle _ _ ih | top _ ih => exact ih hs
  | up _ ih =>
    cases hs with
    | step habove _ => exact ih habove
  | down _ hnext _ ih => exact ih (hs.step hnext)
  | @absent trail es n _ hnext =>
    refine ⟨?_, along trail, n, es, rfl, hs.node?⟩
    rw [node?_concat, hs.node?]
    exact hnext

/-! ## Names that are followed in two trees -/

/-- Each directory of the first tree is one in the second. -/
def KeepsDirectories (t t' : FileTree) : Prop :=
  ∀ {p es}, t.node? p = some (.directory es) → ∃ es', t'.node? p = some (.directory es')

theorem along_congr (h : trail'.map Prod.fst = trail.map Prod.fst) :
    along trail' = along trail := by
  rw [along, along, List.map_reverse, List.map_reverse, h]

/-- The same trail leads to a directory in the second tree where it does so in the first. -/
theorem Stands.directory {es : List (String × FileTree)} (hs : t.Stands trail (.directory es))
    (hs' : t'.Stands trail' here') (hsame : trail'.map Prod.fst = trail.map Prod.fst)
    (hdirs : KeepsDirectories t t') : ∃ es', here' = .directory es' := by
  obtain ⟨es', hes'⟩ := hdirs hs.node?
  rw [← along_congr hsame, hs'.node?] at hes'
  exact ⟨es', Option.some.inj hes'⟩

/-- From a file names lead no further. -/
theorem Leads.names_eq_along {content : ByteArray} {place : Place}
    (h : Leads trail (.file content) names place) : place.names = along trail := by
  cases h with
  | stop => rfl

/-- Names that do not lead to a directory lead the same way in a tree where all directories are
directories, and to what is in the place now. -/
theorem Leads.same {place : Place} (h : Leads trail here names place) (hs : t.Stands trail here)
    (hs' : t'.Stands trail' here') (hsame : trail'.map Prod.fst = trail.map Prod.fst)
    (hdirs : KeepsDirectories t t') (hplace : ∀ there es, place ≠ .found there (.directory es))
    (hnode : t'.node? place.names = some node) :
    Leads trail' here' names (.found place.names node) := by
  induction h generalizing trail' here' with
  | stop trail here =>
    have hhere : t'.node? (along trail) = some node := hnode
    rw [← along_congr hsame, hs'.node?] at hhere
    cases hhere
    rw [Place.names, ← along_congr hsame]
    exact .stop trail' node
  | idle hn _ ih =>
    obtain ⟨es', rfl⟩ := hs.directory hs' hsame hdirs
    exact .idle hn (ih hs hs' hsame hplace hnode)
  | top _ ih =>
    obtain ⟨es', rfl⟩ := hs.directory hs' hsame hdirs
    obtain rfl := List.map_eq_nil_iff.1 hsame
    exact .top (ih hs hs' hsame hplace hnode)
  | up _ ih =>
    obtain ⟨es', rfl⟩ := hs.directory hs' hsame hdirs
    cases hs with
    | step habove _ =>
      cases hs' with
      | root => cases hsame
      | step habove' _ => exact .up (ih habove habove' (List.cons.inj hsame).2 hplace hnode)
  | @down trail es n next rest place hn hnext hrest ih =>
    obtain ⟨es', rfl⟩ := hs.directory hs' hsame hdirs
    have hbelow := hs.step hnext
    -- what is under the name now is a directory if it was one, and else it is in the place
    have hnext' : ∃ next', es'.lookup n = some next' := by
      suffices hthere : ∃ next', t'.node? (along trail ++ [n]) = some next' by
        obtain ⟨next', hn'⟩ := hthere
        exact ⟨next', hs'.lookup (along_congr hsame ▸ hn')⟩
      rw [← along_cons n (.directory es)]
      cases next with
      | directory ds =>
        obtain ⟨ds', hds⟩ := hdirs hbelow.node?
        exact ⟨_, hds⟩
      | file content => exact ⟨node, hrest.names_eq_along ▸ hnode⟩
    obtain ⟨next', hn'⟩ := hnext'
    refine .down hn hn' (ih hbelow (hs'.step hn') ?_ hplace hnode)
    rw [List.map_cons, List.map_cons, hsame]
  | @absent trail es n hn _ =>
    obtain ⟨es', rfl⟩ := hs.directory hs' hsame hdirs
    have hn' := hs'.lookup (along_congr hsame ▸ hnode)
    have hstop := Leads.stop ((n, .directory es') :: trail') node
    rw [along_cons, along_congr hsame] at hstop
    exact .down hn hn' hstop

/-! ## Files -/

/-- What is put in a place is there. -/
theorem Fits.node?_put {place : Place} (h : t.Fits place) (node : FileTree) :
    (put node t place.names).node? place.names = some node := by
  cases place with
  | found there was => exact node?_put_of_some h
  | absent there =>
    obtain ⟨-, p, n, es, rfl, hp⟩ := h
    exact node?_put_concat hp

/-- Where names lead to a file or to nothing, they lead to what is put there. -/
theorem locate_put {place : Place} (h : t.locate names = .ok place)
    (hplace : ∀ there es, place ≠ .found there (.directory es)) (node : FileTree) :
    (put node t place.names).locate names = .ok (.found place.names node) := by
  rw [locate] at h ⊢
  cases hcheck : checkNames names with
  | error e =>
    rw [hcheck] at h
    cases h
  | ok =>
    rw [hcheck] at h
    have hleads := leads_of_follow h
    have hfits := hleads.fits .root
    have hno : ∀ es, t.node? place.names ≠ some (.directory es) := by
      intro es hes
      cases place with
      | found there was =>
        cases hes.symm.trans hfits
        exact hplace there es rfl
      | absent there => cases hes.symm.trans hfits.1
    exact (hleads.same .root .root rfl (directory_put hno) hplace (hfits.node?_put node)).follow_eq

/-- Writing succeeds where the path leads to a file or to nothing yet. -/
theorem write_eq_ok {path : String} {content : ByteArray} (h : t.write path content = .ok t') :
    ∃ place, t.locate (Path.names path) = .ok place ∧
      (∀ there es, place ≠ .found there (.directory es)) ∧
      t' = put (.file content) t place.names := by
  rw [write] at h
  split at h
  · cases hl : t.locate (Path.names path) with
    | error e =>
      rw [hl] at h
      cases h
    | ok place =>
      rw [hl] at h
      cases place with
      | absent there =>
        cases h
        exact ⟨_, rfl, fun _ _ heq => (by cases heq), rfl⟩
      | found there was =>
        cases was with
        | directory es => cases h
        | file content' =>
          cases h
          exact ⟨_, rfl, fun _ _ heq => (by cases heq), rfl⟩
  · -- a path that ends in a slash
    cases hcheck : checkNames (Path.names path) with
    | error e =>
      rw [hcheck] at h
      cases h
    | ok =>
      rw [hcheck] at h
      cases hl : t.locate (Path.dropSlashes (Path.names path)).dropLast with
      | error e =>
        rw [hl] at h
        cases h
      | ok place =>
        rw [hl] at h
        cases place with
        | absent there => cases h
        | found there was => cases was <;> cases h

/-- A text that was written to a file is read from it. -/
theorem read_of_write {path text : String} (h : t.write path text.toUTF8 = .ok t') :
    t'.read path = .ok text := by
  obtain ⟨place, hl, hplace, rfl⟩ := write_eq_ok h
  have hread := locate_put hl hplace (.file text.toUTF8)
  rw [read, hread]
  simp only [bind, Except.bind, fromUTF8?_toUTF8]
  rfl

end FileTree

end MetaCache
