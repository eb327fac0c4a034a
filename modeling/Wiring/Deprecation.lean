import Wiring.Json

/-!
Notices that a service should no longer be used. They go to a side channel and never stop a
resolution.
-/

namespace Wiring

structure Deprecation where
  package : String
  version : String
  message : String
deriving DecidableEq, Inhabited, Repr

namespace Deprecation

def defaultMessage (id : String) : String :=
  "The \"" ++ id ++ "\" service is deprecated. " ++
    "You should stop using it, as it will be removed in the future."

def forService (id package version : String) : Deprecation :=
  ⟨package, version, defaultMessage id⟩

/-- A notice without a text of its own takes the default one when its service gets an id. -/
def named (notice : Deprecation) (id : String) : Deprecation :=
  if notice.message.isEmpty then { notice with message := defaultMessage id } else notice

def toJson (notice : Deprecation) : Json :=
  .obj [("package", .str notice.package), ("version", .str notice.version),
    ("message", .str notice.message)]

end Deprecation
end Wiring
