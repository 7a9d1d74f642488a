import SqlLex.Text.Bytes

namespace SqlLex

/-!
# Spans

A span is a range of byte positions in a query.

* `Span.size`, `Span.isEmpty` — how many bytes it covers.
* `Span.merge` — the least span over two spans.
* `Span.slice?` — the part of a text under a span.
* `Span.merge_self` — a span merged with itself is itself.
* `Span.slice?_append` — the span of a middle part of a text cuts out that part.
-/

/-- A range of byte positions, `stop` not included.  Nothing keeps `start` below `stop`. -/
structure Span where
  start : Nat
  stop : Nat
deriving DecidableEq, Repr

namespace Span

/-- The number of bytes covered. -/
def size (s : Span) : Nat := s.stop - s.start

/-- The span starts where it stops. -/
def isEmpty (s : Span) : Bool := s.start == s.stop

/-- The least span that covers both. -/
def merge (s t : Span) : Span := ⟨min s.start t.start, max s.stop t.stop⟩

/-- The span moved `n` bytes to the right. -/
def shift (n : Nat) (s : Span) : Span := ⟨n + s.start, n + s.stop⟩

/-- The part of `text` under the span, if both ends are boundaries of characters in it and are in
    order. -/
def slice? (s : Span) (text : String) : Option String :=
  if s.start ≤ s.stop then
    (Text.dropBytes? s.start text.toList).bind fun rest =>
      (Text.takeBytes? s.size rest).map String.ofList
  else none

/-! ### Laws -/

@[simp] theorem merge_self (s : Span) : s.merge s = s := by simp [merge]

@[simp] theorem shift_zero (s : Span) : s.shift 0 = s := by simp [shift]

/-- Cutting a text at the byte positions around its middle part gives that part. -/
theorem slice?_append (cs ds es : List Char) :
    slice? ⟨Text.byteSize cs, Text.byteSize cs + Text.byteSize ds⟩
      (String.ofList (cs ++ ds ++ es)) = some (String.ofList ds) := by
  simp [slice?, size, List.append_assoc, Text.dropBytes?_append, Text.takeBytes?_append]

end Span

end SqlLex
