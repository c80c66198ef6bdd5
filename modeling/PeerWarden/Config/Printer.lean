import PeerWarden.Config.Schema
import PeerWarden.Toml.Writer

/-!
# Writing the Configuration

A configuration is written with all its settings, section by section.
-/

namespace PeerWarden.Config

open Toml (Scalar)
open Toml.Writer (Table)

/-- A value of a kind as it stands in a document. -/
def Kind.toScalar : (kind : Kind) → kind.Value → Scalar
  | .natural, n => .integer n
  | .real, x => .real x
  | .flag, b => .flag b
  | .text, s => .text s

/-- The entry of a setting. -/
def Setting.entry (c : Config) (s : Setting) : String × Scalar := (s.key, s.kind.toScalar (s.get c))

/-- The table of a section. -/
def Group.table (c : Config) (g : Group) : Table := { name := g.name, entries := g.settings.map (·.entry c) }

/-- The tables of a configuration. -/
def tables (c : Config) : List Table := schema.map (·.table c)

/-- A configuration as a document. There is none if a number does not fit into 64 bits with a sign. -/
def print? (c : Config) : Option String := Toml.Writer.text? c.tables

end PeerWarden.Config
