/-
A logger that never writes.
-/
import StorageKit.Log.Basic

namespace StorageKit

/-- A logger that never writes; neither do its children. -/
structure SilentLogger where
  deriving DecidableEq, Repr

instance : EntryLogger SilentLogger Empty where
  child _ _ l := .ok l
  write _ _ _ _ _ := .ok none

end StorageKit
