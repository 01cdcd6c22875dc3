import Mathlib.Data.List.Induction
import Mathlib.Data.List.Nodup
import Mathlib.Data.List.Perm.Basic
import MetaCache.Config.Files
import MetaCache.Proofs.Settings.Files
import MetaCache.Proofs.Settings.Lines
/-!
# Settings survive being written

A text that assigns some of the settings is read as these and the defaults of the others, whichever
they are, in whatever order the lines stand, and whatever is in the name of the base class. So the
settings in a file that was saved are those that were saved.

* `Config.Setting`, `Config.Setting.line`: the settings, and the line that assigns one.
* `Config.restrict`: some of the settings, and the defaults of the others; `Config.foldl_adopt`.
* `Config.parse_writeSome`, `Config.load_of_save`: texts and files.
* `Config.settings_survive`: both.
-/

namespace MetaCache.Config

/-- The settings, in the order in which they are written. -/
inductive Setting where
  | layout
  | weakenPolicy
  | instanceBaseClass
  | shareSlotKeys
deriving DecidableEq, Repr

namespace Setting

/-- All settings, in order. -/
def all : List Setting := [layout, weakenPolicy, instanceBaseClass, shareSlotKeys]

/-- The name of a setting in a file. -/
def key : Setting → String
  | layout => "layout"
  | weakenPolicy => "weaken_policy"
  | instanceBaseClass => "instance_base_class"
  | shareSlotKeys => "share_slot_keys"

/-- The value of a setting, as it is written. -/
def text (c : Config) : Setting → List Char
  | layout => Toml.writeString c.layout.name
  | weakenPolicy => Toml.writeString c.weakenPolicy.name
  | instanceBaseClass => Toml.writeString c.instanceBaseClass
  | shareSlotKeys => (toString c.shareSlotKeys).toList

/-- The value of a setting, as it is read. -/
def node (c : Config) : Setting → Toml.Node
  | layout => .str c.layout.name
  | weakenPolicy => .str c.weakenPolicy.name
  | instanceBaseClass => .str c.instanceBaseClass
  | shareSlotKeys => .bool c.shareSlotKeys

/-- The line that assigns a setting. -/
def line (c : Config) (s : Setting) : List Char := writeLine s.key (s.text c)

theorem bare_key (s : Setting) : Toml.Bare s.key := by
  cases s <;> exact ⟨by decide, by decide⟩

theorem key_injective : Function.Injective key := by
  intro s s' h
  cases s <;> cases s' <;> first | rfl | exact absurd h (by decide)

theorem spells_text (c : Config) (s : Setting) : Toml.Spells (s.text c) (s.node c) := by
  cases s with
  | shareSlotKeys => exact Toml.spells_flag _
  | _ => exact Toml.spells_writeString _

/-- The line as an assignment. -/
def assignment (c : Config) (s : Setting) : Toml.Assignment where
  key := s.key
  text := s.text c
  value := s.node c
  bare := s.bare_key
  spells := s.spells_text c

end Setting

/-- The lines that are written assign all settings. -/
theorem lines_eq (c : Config) : c.lines = Setting.all.map (Setting.line c) := rfl

/-- The text of the lines that assign some settings. -/
def writeSome (c : Config) (ss : List Setting) : String :=
  String.ofList (ss.flatMap (Setting.line c))

theorem write_eq (c : Config) : c.write = c.writeSome Setting.all := by
  rw [write, lines_eq, writeSome, List.flatMap_def]

/-- The settings `d` with one of them taken over from `c`. -/
def adopt (c d : Config) : Setting → Config
  | .layout => { d with layout := c.layout }
  | .weakenPolicy => { d with weakenPolicy := c.weakenPolicy }
  | .instanceBaseClass => { d with instanceBaseClass := c.instanceBaseClass }
  | .shareSlotKeys => { d with shareSlotKeys := c.shareSlotKeys }

/-- The settings of `c` that are in the list, and the defaults of the others. -/
def restrict (c : Config) (ss : List Setting) : Config where
  layout := if .layout ∈ ss then c.layout else ({} : Config).layout
  weakenPolicy := if .weakenPolicy ∈ ss then c.weakenPolicy else ({} : Config).weakenPolicy
  instanceBaseClass :=
    if .instanceBaseClass ∈ ss then c.instanceBaseClass else ({} : Config).instanceBaseClass
  shareSlotKeys := if .shareSlotKeys ∈ ss then c.shareSlotKeys else ({} : Config).shareSlotKeys

theorem restrict_all (c : Config) : c.restrict Setting.all = c := rfl

/-- Only which settings are in the list matters. -/
theorem restrict_congr (c : Config) {ss ss' : List Setting} (h : ∀ s, s ∈ ss ↔ s ∈ ss') :
    c.restrict ss = c.restrict ss' := by
  simp only [restrict, h]

/-- Settings that are taken over one after another. -/
theorem foldl_adopt (c : Config) (ss : List Setting) :
    ss.foldl c.adopt {} = c.restrict ss := by
  induction ss using List.reverseRecOn with
  | nil => rfl
  | append_singleton ss s ih =>
    rw [List.foldl_append, ih]
    cases s <;> simp [adopt, restrict]

/-! ## Reading -/

/-- An entry that was written for a setting is read as this setting. -/
theorem readSetting_node (c d : Config) (s : Setting) :
    d.readSetting s.key (s.node c) = .ok (c.adopt d s) := by
  obtain ⟨layout, weakenPolicy, instanceBaseClass, shareSlotKeys⟩ := c
  cases s with
  | layout => cases layout; rfl
  | weakenPolicy => cases weakenPolicy <;> rfl
  | instanceBaseClass => rfl
  | shareSlotKeys => rfl

theorem readEntries_entries (c d : Config) (ss : List Setting) :
    d.readEntries (ss.map fun s => (s.assignment c).entry) = .ok (ss.foldl c.adopt d) := by
  induction ss generalizing d with
  | nil => rfl
  | cons s ss ih =>
    show (d.readSetting s.key (s.node c)).bind _ = _
    rw [readSetting_node]
    exact ih (c.adopt d s)

/-- Lines that assign some settings, in any order, are read as these and the defaults of the
others. -/
theorem parse_writeSome (c : Config) {ss : List Setting} (h : ss.Nodup) :
    parse (c.writeSome ss) = .ok (c.restrict ss) := by
  have hkeys : ((ss.map (Setting.assignment c)).map Toml.Assignment.key).Nodup := by
    rw [List.map_map]
    exact h.map Setting.key_injective
  obtain ⟨es, hes, hperm⟩ := Toml.document?_assignments _ hkeys
  -- the entries are those of the same settings in some order
  rw [List.map_map] at hperm
  obtain ⟨ss', rfl, hsame⟩ :
      ∃ ss' : List Setting,
        es = ss'.map (Toml.Assignment.entry ∘ Setting.assignment c) ∧ ss'.Perm ss := by
    have hcomp := congrFun (congrFun (List.eq_map_comp_perm
      (Toml.Assignment.entry ∘ Setting.assignment c)) es) ss
    exact hcomp.mpr hperm
  have htext : c.writeSome ss =
      String.ofList ((ss.map (Setting.assignment c)).flatMap Toml.Assignment.line) := by
    rw [writeSome, List.flatMap_map]
    rfl
  rw [parse, htext, hes, ← restrict_congr c fun s => hsame.mem_iff, ← foldl_adopt]
  exact readEntries_entries c {} ss'

theorem load_of_read {t : FileTree} {path text : String} (h : t.read path = .ok text) :
    load t path = (parse text).mapError (.refused path) := by
  rw [load, h]
  rfl

/-- Settings that are saved are those that are loaded then. -/
theorem load_of_save {c : Config} {path : String} {t t' : FileTree}
    (h : c.save path t = (t', .ok ())) : load t' path = .ok c := by
  rw [save] at h
  split at h
  · cases h
  · rename_i t₁ _
    cases hw : t₁.write path c.write.toUTF8 with
    | error e =>
      rw [hw] at h
      cases h
    | ok t₂ =>
      rw [hw] at h
      cases h
      rw [load_of_read (FileTree.read_of_write hw), write_eq, parse_writeSome c (by decide),
        restrict_all]
      rfl

/-- Settings survive being written. The lines that assign some of them, in any order, are read as
these and the defaults of the others; all lines in their order are what is written to a file, and a
file that was saved is loaded as the settings it was saved from. -/
theorem settings_survive (c : Config) :
    (∀ ss : List Setting, ss.Nodup → parse (c.writeSome ss) = .ok (c.restrict ss)) ∧
      c.write = c.writeSome Setting.all ∧
      ∀ path t t', c.save path t = (t', .ok ()) → load t' path = .ok c :=
  ⟨fun _ h => c.parse_writeSome h, c.write_eq, fun _ _ _ h => load_of_save h⟩

/-- Settings none of which are the defaults, with a name that needs escapes. -/
def quaint : Config where
  weakenPolicy := .reject
  instanceBaseClass := "\"\"\"\\ \t\n\r\x00\x7f 'é' \ufeff # ] = "
  shareSlotKeys := false

/-- A tree with the file in which these settings were saved. -/
def quaintTree : FileTree := (quaint.save "/etc/mop/../mop/./cache.toml" (.ofDirectory "etc")).1

/-- Two of these settings in a text, and all of them in a file. -/
theorem settings_survive_quaint :
    [Setting.shareSlotKeys, .instanceBaseClass].Nodup ∧
      parse (quaint.writeSome [.shareSlotKeys, .instanceBaseClass]) =
        .ok { quaint with weakenPolicy := .weaken } ∧
      quaint.save "/etc/mop/../mop/./cache.toml" (.ofDirectory "etc") = (quaintTree, .ok ()) ∧
      load quaintTree "/etc/mop/../mop/./cache.toml" = .ok quaint := by
  have hsome : [Setting.shareSlotKeys, .instanceBaseClass].Nodup := by decide
  have hsave : quaint.save "/etc/mop/../mop/./cache.toml" (.ofDirectory "etc") =
      (quaintTree, .ok ()) := Prod.ext rfl (by decide +kernel)
  obtain ⟨hparse, -, hload⟩ := settings_survive quaint
  exact ⟨hsome, hparse _ hsome, hsave, hload _ _ _ hsave⟩

end MetaCache.Config
