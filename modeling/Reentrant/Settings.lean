import Reentrant.Machine

/-! What can be configured: the log filter, the machine's limits, and whether the journal is kept. -/

namespace Reentrant

structure Settings where
  /-- Which log messages are shown. -/
  filter : String := "info"
  limits : Limits := {}
  journal : Bool := false
  deriving DecidableEq, Inhabited

end Reentrant
