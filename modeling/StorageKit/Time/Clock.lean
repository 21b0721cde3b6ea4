/-
Clocks.

A clock shows a number of milliseconds since the start of 1970.  It may show a number that is on
no calendar; such a reading can be written down as a number, but not as a date.

* `Clock.moment?` — the moment that a clock shows, if the calendar covers it.
-/
import StorageKit.Number.Basic
import StorageKit.Time.Calendar

namespace StorageKit

/-- What a clock shows. -/
structure Clock where
  reading : Number
  deriving DecidableEq, Repr

namespace Clock

/-- The moment a clock shows, without parts of a millisecond, if it is on the calendar. -/
def moment? (c : Clock) : Option Moment := c.reading.truncate?.filter Moment.isInRange

/-- A clock that shows a moment. -/
def ofMoment (t : Moment) : Clock := ⟨.ofInt t⟩

end Clock
end StorageKit
