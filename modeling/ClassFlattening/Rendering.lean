import ClassFlattening.Flattening
import ClassFlattening.RuntimeImport
import ClassFlattening.Sorting

/-!
# Rendering a file

A generated file is its source with each declaration replaced by the flattened class and the lines
that import the runtime module left out, under a header. The text between declarations is copied.
-/

namespace ClassFlattening

/-- What every generated file starts with. -/
def fileHeader : Text :=
  "// Auto-generated by zoop-codegen\n// DO NOT EDIT - changes will be overwritten\n\n".toList

/-- The source behind a span, given the source from the start of the span on. A span that ends in
front of its start goes back to an earlier part of the source. -/
def behindSpan? (source : Text) (span : Span) (startingThere : Text) : Option Text :=
  if span.start ≤ span.stop then (startingThere.cutAt? (span.stop - span.start)).map Cut.after
  else (source.cutAt? span.stop).map Cut.after

/-- Renders a source from an offset on, with the classes whose spans lie behind it, in order. The
source from the offset on is given too, if the offset is a place in it. -/
def renderFrom (settings : Settings) (registry : Registry) (path source : Text) :
    Nat → Option Text → List Class → Except Fault Text
  | cursor, behind, [] =>
    match behind with
    | none => .error (.misplacedSpan ⟨cursor, source.size⟩)
    | some gap => .ok (withoutRuntimeImports gap)
  | cursor, behind, c :: rest =>
    let found := behind.bind fun t =>
      if cursor ≤ c.span.start then t.cutAt? (c.span.start - cursor) else none
    match found with
    | none => .error (.misplacedSpan c.span)
    | some cut => do
      let flat ← c.generate settings path registry
      let behind := behindSpan? source c.span cut.after
      let tail ← renderFrom settings registry path source c.span.stop behind rest
      return withoutRuntimeImports cut.before ++ flat ++ tail

/-- The generated text of a file. -/
def render (settings : Settings) (registry : Registry) (record : FileRecord) : Except Fault Text :=
  (renderFrom settings registry record.path record.source 0 (some record.source)
    (sortBy (fun c d => c.span.start ≤ d.span.start) record.classes)).map (fileHeader ++ ·)

end ClassFlattening
