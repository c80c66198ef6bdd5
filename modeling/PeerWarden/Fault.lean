import PeerWarden.Number.Text

/-!
# Faults

What can go wrong while the program runs. A refused measurement changes nothing, and a cycle that fails is
tried again after a pause; only without room for its history the program does not start at all.
-/

namespace PeerWarden

/-- A cause of failure. -/
inductive Fault where
  /-- A link measurement that is negative or no number. -/
  | sampleRejected (field : String) (value : Float) (peer : String)
  /-- A host figure that is infinite or no number. -/
  | readingMalformed (field : String) (value : Float)
  /-- The classifier gave no answer. -/
  | classifierFailed (cause : String)
  /-- A cycle broke off. -/
  | cycleCrashed (cycle : String) (message : String)
  /-- The room for the history cannot be set aside. -/
  | historyTooLarge

/-- What is reported about a failure. -/
def Fault.message : Fault → String
  | sampleRejected field value peer => s!"rejected {field} sample {Number.plain value} for peer {peer}"
  | readingMalformed field value => s!"resource sampler returned a non-finite {field}: {Number.plain value}"
  | classifierFailed cause => s!"classifier failed: {cause}"
  | cycleCrashed cycle message => s!"{cycle} cycle panicked: {message}"
  | historyTooLarge => "capacity overflow"

end PeerWarden
