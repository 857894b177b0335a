import ClassFlattening.Proofs.FlatteningOutcome
import ClassFlattening.Proofs.Outline
import Mathlib.Data.List.Basic

/-!
# The lines of a flattened class

A flattened class is written line by line: its heading, a line for each field as its author would write it,
its constants behind an empty line, each function behind an empty line, and the brace that closes it.
`structLines` says so of the parts of a struct, apart from the way in which a flattened class is put
together, and a generated text is these lines. Constants and functions are copied as they are, so what
stands here as one line of theirs may go on over several.
-/

namespace ClassFlattening

/-- Lines, one below the other. -/
def inLines (lines : List Text) : Text := ['\n'].intercalate lines

/-- The lines of a struct with these fields and constants and with functions of these texts. -/
def structLines (visibility name : Text) (fields : List Field) (constants : List Constant)
    (functions : List Text) : List Text :=
  [visibility ++ "const ".toList ++ name ++ " = struct \x7b".toList] ++
    fields.map (fun f => "    ".toList ++ f.text) ++
    (if constants = [] then [] else [] :: constants.map fun k => "    ".toList ++ k.source) ++
    functions.flatMap (fun source => [[], "    ".toList ++ source]) ++
    ["\x7d;".toList]

/-- In front of the last line each line ends with a newline. -/
theorem inLines_concat (lines : List Text) (last : Text) :
    inLines (lines ++ [last]) = lines.flatMap (· ++ ['\n']) ++ last := by
  induction lines with
  | nil => exact List.intercalate_singleton
  | cons line rest ih =>
    obtain ⟨next, more, hrest⟩ := List.exists_cons_of_ne_nil (List.append_ne_nil_of_right_ne_nil rest
      (List.cons_ne_nil last []))
    rw [inLines] at ih ⊢
    rw [List.cons_append, List.flatMap_cons, List.append_assoc, ← ih, hrest, List.intercalate_cons_cons,
      List.append_assoc]

/-- The line of a field has the field as it is written. -/
theorem Field.line_eq (f : Field) : f.line = "    ".toList ++ f.text ++ ['\n'] := by
  rw [line, text, element]
  cases f.value with
  | none => simp [indent, assigned]
  | some value => simp [indent, assigned]

/-- A struct is written line by line. -/
theorem FlatStruct.text_eq_inLines (s : FlatStruct) :
    s.text = inLines (structLines s.visibility s.name s.fields s.constants
      (s.functions.map FlatFunction.source)) := by
  have hfields : s.fields.flatMap Field.line =
      (s.fields.map fun f => "    ".toList ++ f.text).flatMap (· ++ ['\n']) := by
    rw [List.flatMap_map]
    exact List.flatMap_congr fun f _ => f.line_eq
  have hconstants : (if s.constants.isEmpty then []
      else '\n' :: s.constants.flatMap fun k => indent ++ k.source ++ ['\n']) =
      (if s.constants = [] then [] else [] :: s.constants.map fun k => "    ".toList ++ k.source).flatMap
        (· ++ ['\n']) := by
    cases s.constants with
    | nil => rfl
    | cons k rest =>
      rw [if_neg (by simp), if_neg (by simp), List.flatMap_cons (x := []), List.flatMap_map]
      rfl
  have hfunctions : (s.functions.flatMap fun f => '\n' :: indent ++ f.source ++ ['\n']) =
      ((s.functions.map FlatFunction.source).flatMap fun source => [[], "    ".toList ++ source]).flatMap
        (· ++ ['\n']) := by
    rw [List.flatMap_map, List.flatMap_assoc]
    exact List.flatMap_congr fun f _ => by simp [indent]
  rw [text, hfields, hconstants, hfunctions, structLines, inLines_concat, List.flatMap_append,
    List.flatMap_append, List.flatMap_append, List.flatMap_singleton]
  simp

namespace Class

/-- A generated class is written line by line: the fields of its ancestors from the root down, of its mixins
and its own, its constants and the functions of its struct. -/
theorem text_of_generate {c : Class} {settings : Settings} {file : Text} {registry : Registry} {text : Text}
    (h : c.generate settings file registry = .ok text) :
    ∃ ancestors, registry.ancestors c = .ok ancestors ∧
      c.flatten settings file registry =
        .ok (c.flatStruct settings ancestors (c.resolvedMixins registry file)) ∧
      text = inLines (structLines c.visibility c.name
        (ancestors.reverse.flatMap layout ++ (c.resolvedMixins registry file).flatMap layout ++ c.layout)
        c.constants
        ((c.flatStruct settings ancestors (c.resolvedMixins registry file)).functions.map
          FlatFunction.source)) := by
  obtain ⟨flat, hflat, rfl⟩ := (c.generate_eq_ok_iff settings file registry text).1 h
  obtain ⟨_, ancestors, hancestors, _, rfl⟩ := (c.flatten_eq_ok_iff settings file registry flat).1 hflat
  exact ⟨ancestors, hancestors, hflat, FlatStruct.text_eq_inLines _⟩

end Class

end ClassFlattening
