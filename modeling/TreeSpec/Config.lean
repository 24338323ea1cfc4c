import TreeSpec.Text.Blank
import TreeSpec.Text.Case

/-!
# Configuration

The defaults for new validators, read from a setting of the environment.
-/

namespace TreeSpec

set_option autoImplicit false

structure Config where
  debug : Bool
  deriving DecidableEq, Repr

namespace Config

def default : Config := ⟨false⟩

/-- The settings that switch debugging on. They are all of ASCII letters and digits, and so is every
text that becomes one of them in small letters. -/
def onSettings : List Text := ["1", "true", "yes", "on"]

/-- The configuration of an environment in which the setting has the given text, if any. Blanks
around the text and the case of its letters do not matter. -/
def ofSetting (setting : Option Text) : Config :=
  ⟨onSettings.contains ((Text.trim (setting.getD [])).map Text.lower)⟩

end Config

end TreeSpec
