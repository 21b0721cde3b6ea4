/-
Frames, accesses, and what a replacer reports.

* `FrameRef` — a frame as its caller wrote it: frame zero may carry a minus sign;
* `AccessKind` — why a page was touched;
* `Entry` — what happened, as it is reported to a logger, with `Entry.level`, `Entry.message` and
  `Entry.fields`.
-/
import StorageKit.Log.Level
import StorageKit.Value.Basic

namespace StorageKit

/-- A frame as it was written. -/
inductive FrameRef where
  | frame (index : Nat)
  | minusZero
  deriving DecidableEq, Repr

namespace FrameRef

/-- The frame that is meant; the sign of zero makes no difference. -/
def index : FrameRef → Nat
  | .frame n => n
  | .minusZero => 0

/-- The number that was written. -/
def number : FrameRef → Number
  | .frame n => .ofNat n
  | .minusZero => .minusZero

end FrameRef

/-- Why a page was touched: one of four reasons, or any other word of the caller.  It is reported
and has no influence. -/
inductive AccessKind where
  | unknown
  | lookup
  | scan
  | index
  | other (word : String)
  deriving DecidableEq, Repr

namespace AccessKind

def name : AccessKind → String
  | .unknown => "unknown"
  | .lookup => "lookup"
  | .scan => "scan"
  | .index => "index"
  | .other word => word

/-- The four kinds that have a name of their own. -/
def all : List AccessKind := [.unknown, .lookup, .scan, .index]

/-- The kind with this name. -/
def ofName (s : String) : AccessKind := (all.find? fun k => k.name = s).getD (.other s)

end AccessKind

/-- What happened to the frames of a replacer. -/
inductive Entry where
  | accessed (frame : FrameRef) (kind : AccessKind) (timestamp : Nat)
  | evicted (victim : FrameRef)
  | madeRoom (frame : FrameRef) (victim : Option FrameRef)
  | removed (frame : FrameRef)
  deriving DecidableEq, Repr

namespace Entry

def level : Entry → Level
  | .accessed .. => .trace
  | _ => .debug

def message : Entry → String
  | .accessed .. => "frame access recorded"
  | .evicted _ => "frame evicted"
  | .madeRoom .. => "replacer full, evicted a frame to admit another"
  | .removed _ => "frame removed"

def fields : Entry → Fields Value
  | .accessed frame kind timestamp =>
    [("frameId", .number frame.number), ("accessType", .text kind.name),
      ("timestamp", .number (.ofNat timestamp))]
  | .evicted victim => [("frameId", .number victim.number)]
  | .madeRoom frame victim =>
    [("frameId", .number frame.number),
      ("victim", match victim with
        | some v => .number v.number
        | none => .undefined)]
  | .removed frame => [("frameId", .number frame.number)]

end Entry
end StorageKit
