import CloudeLoader.Engine.HttpHooks
import Mathlib.Data.List.Infix

/-!
# Whose event it is (`console_capture.cc`, `exception_capture.cc`)

The plugin is the first one of the list whose base directory occurs in the URL of a call frame.
-/

namespace CloudeLoader.Mep

open Engine List

structure InstalledPlugin where
  pluginName : Bytes
  pluginBaseDir : Bytes
  isInternal : Bool
  named : pluginName ≠ []

variable {plugins ps : List InstalledPlugin} {p q : InstalledPlugin} {url : Bytes} {frames : List (Option Bytes)}

/-- An address up to the slash with which the path begins. -/
def host : Bytes := utf8 "https://cloude.ftp"

end CloudeLoader.Mep
