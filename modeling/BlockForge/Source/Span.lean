/-!
# Source positions

A span is a half-open range of source offsets. Diagnostics are ordered by where their span starts.
-/

namespace BlockForge.Source

/-- The half-open range `start..stop` of 32-bit source offsets. -/
structure Span where
  start : UInt32
  stop : UInt32
  deriving DecidableEq, Repr, Inhabited

/-- The written form `start..stop`. -/
def Span.render (s : Span) : String := toString s.start ++ ".." ++ toString s.stop

/-- Spans compare by start, then by end. -/
def Span.before (s t : Span) : Bool := s.start < t.start || (s.start == t.start && s.stop < t.stop)

end BlockForge.Source
