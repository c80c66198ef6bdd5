import PeerWarden.Number.Text

/-!
# Exposition of Metrics

The text in which metrics are read by a collector: for each family of samples a line of help, a line with
its kind, and a line for each sample. A family without samples is left out.
-/

namespace PeerWarden.Exposition

/-- Whether the samples of a family only ever grow. -/
inductive Kind where
  | gauge
  | counter
  deriving DecidableEq, Repr

/-- The name of a kind. -/
def Kind.name : Kind → String
  | gauge => "gauge"
  | counter => "counter"

/-- One value, told apart from the others of its family by its labels. -/
structure Sample where
  labels : List (String × String) := []
  value : Float

/-- The samples of one name. -/
structure Family where
  name : String
  help : String
  kind : Kind
  samples : List Sample

/-! ## Texts -/

/-- How a character of a label value is written: backslashes, line breaks and quotes are escaped. -/
def escapeChar : Char → List Char
  | '\\' => ['\\', '\\']
  | '\n' => ['\\', 'n']
  | '"' => ['\\', '"']
  | c => [c]

/-- A label value as it stands between quotes. -/
def escape (s : String) : String := String.ofList (s.toList.flatMap escapeChar)

/-- One label and its value. -/
def labelText (label : String × String) : String := label.1 ++ "=\"" ++ escape label.2 ++ "\""

namespace Sample

/-- All labels of a sample in braces, or nothing. -/
def labelsText (s : Sample) : String :=
  if s.labels.isEmpty then "" else "\x7b" ++ ",".intercalate (s.labels.map labelText) ++ "\x7d"

/-- The line of a sample. -/
def text (familyName : String) (s : Sample) : String :=
  familyName ++ s.labelsText ++ " " ++ Number.plain s.value

end Sample

/-- The lines of a family. -/
def Family.lines (f : Family) : List String :=
  if f.samples.isEmpty then []
  else
    ["# HELP " ++ f.name ++ " " ++ f.help, "# TYPE " ++ f.name ++ " " ++ f.kind.name] ++
      f.samples.map (Sample.text f.name)

/-- The lines of all families in turn. -/
def lines (families : List Family) : List String := families.flatMap Family.lines

/-- The whole text; every line is ended. -/
def text (families : List Family) : String := String.join ((lines families).map (· ++ "\n"))

end PeerWarden.Exposition
