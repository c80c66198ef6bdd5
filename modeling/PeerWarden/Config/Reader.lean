import PeerWarden.Config.Rules
import PeerWarden.Config.Schema
import PeerWarden.Toml.Reader
import PeerWarden.Toml.Tree

/-!
# Reading the Configuration

A configuration file is a TOML document. Each setting that it names replaces a default; what it names
besides is ignored. A section may also be written as an array of its settings in their order, of which the
last ones may be missing.
-/

namespace PeerWarden

open Toml (Node Entries)

namespace Config

/-! ## Settings -/

/-- The value of a kind that a part of a document stands for. Naturals are not negative, and an integer may
    stand for a real. -/
def Kind.ofNode? : (kind : Kind) → Node → Option kind.Value
  | .natural, .scalar (.integer n) => if 0 ≤ n then some n.toNat else none
  | .real, .scalar (.integer n) => some (Float.ofInt n)
  | .real, .scalar (.real x) => some x
  | .flag, .scalar (.flag b) => some b
  | .text, .scalar (.text s) => some s
  | _, _ => none

/-- Takes a setting from a part of a document. -/
def Setting.read? (s : Setting) (node : Node) (c : Config) : Option Config :=
  (s.kind.ofNode? node).map (s.set · c)

/-! ## Sections -/

namespace Group

/-- Takes the settings that a table names. -/
def readTable? (settings : List Setting) (entries : Entries) (c : Config) : Option Config :=
  settings.foldlM (fun c s =>
    match entries.lookup s.key with
    | none => some c
    | some node => s.read? node c) c

/-- Takes the settings from an array, as far as it goes. -/
def readList? (settings : List Setting) (items : List Node) (c : Config) : Option Config :=
  (settings.zip items).foldlM (fun c pair => pair.1.read? pair.2 c) c

/-- Takes the settings of a section. A date in its place names none of them. -/
def read? (g : Group) (node : Node) (c : Config) : Option Config :=
  match node with
  | .table _ entries => readTable? g.settings entries c
  | .list items => readList? g.settings items c
  | .scalar .moment => some c
  | _ => none

end Group

/-- The configuration that a document describes. -/
def ofEntries? (entries : Entries) : Option Config :=
  schema.foldlM (fun c g =>
    match entries.lookup g.name with
    | none => some c
    | some node => g.read? node c) {}

/-! ## Files -/

/-- Why a text is no configuration. -/
inductive Defect where
  /-- It is no TOML document, or a setting has a value of the wrong kind. -/
  | malformed
  /-- The configuration that it describes breaks a rule. -/
  | broken (rule : Rule) (config : Config)

namespace Defect

/-- What is reported about a defect. -/
def message : Defect → String
  | malformed => "invalid TOML in config file"
  | broken _ _ => "invalid configuration"

/-- The rule that is broken, in words. -/
def cause? : Defect → Option String
  | malformed => none
  | broken rule config => some (rule.message config)

end Defect

/-- The configuration that a text describes, before its rules are checked. -/
def parse? (text : String) : Option Config :=
  (Toml.read? text).bind fun statements => (Entries.ofStatements? statements).bind ofEntries?

/-- The configuration that a text describes. -/
def load (text : String) : Except Defect Config :=
  match parse? text with
  | none => .error .malformed
  | some c =>
    match c.broken? with
    | none => .ok c
    | some rule => .error (.broken rule c)

end Config

end PeerWarden
