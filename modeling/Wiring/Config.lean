import Wiring.Error
import Wiring.Loading
import Wiring.Text.Blank

/-!
Container configuration and what makes it acceptable.
-/

namespace Wiring

structure Config where
  maxDepth : Nat := defaultMaxDepth
  containerClass : String := "CompiledContainer"
  pretty : Bool := true
deriving DecidableEq, Inhabited, Repr

namespace Config

def violation? (config : Config) : Option Violation :=
  if config.maxDepth = 0 then some .zeroDepth
  else if Text.isBlank config.containerClass then some .blankClass
  else none

def validate (config : Config) : Except ConfigError Unit :=
  match config.violation? with
  | some violation => .error (.invalid violation)
  | none => .ok ()

end Config
end Wiring
