import Metering.Level.Document
import Metering.Pipeline.Fault
/-!
Session configurations that may be used: read from a document and checked.
-/

namespace Metering.SessionConfig

/-- The fault of a text that is no document of a configuration, with what the reader of documents
says of it. -/
def malformed (reason : String) : Fault :=
  .invalidConfiguration ("failed to parse configuration: " ++ reason)

/-- What a reader says that gives no reasons. -/
def unexplained (_ : String) : String := "no session configuration"

/-- The configuration of a document. Fields that are missing take their defaults. A text that is no
such document is refused with the reader's explanation. -/
def load (s : String) (explain : String → String := unexplained) : Except Fault SessionConfig :=
  match ofText? s with
  | none => .error (malformed (explain s))
  | some c =>
    match c.problem? with
    | some p => .error (.invalidConfiguration p)
    | none => .ok c

end Metering.SessionConfig
