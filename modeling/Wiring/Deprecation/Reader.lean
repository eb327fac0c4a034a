import Wiring.Deprecation
import Wiring.Json.Record

/-!
Reading notices from JSON text.
-/

namespace Wiring.Deprecation

/-- All three fields have to be there. -/
def ofJson? (text : String) : Option Deprecation := do
  let document ← Json.Document.parse? text
  let fields ← document.record? ["package", "version", "message"]
  let field? (name : String) : Option String := (fields.lookup name).bind Json.Document.text?
  return { package := ← field? "package"
           version := ← field? "version"
           message := ← field? "message" }

end Wiring.Deprecation
