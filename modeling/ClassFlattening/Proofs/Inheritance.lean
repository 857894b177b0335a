import ClassFlattening.Proofs.FunctionNames
import ClassFlattening.Proofs.LineageOutcome
import ClassFlattening.Proofs.Rearrangement

/-!
# What a class has from its parent

The line of a class is its parent followed by the line of that parent. So what is collected along a line
can be said by recursion on the parent: `Registry.HandsDown` does so for the fields, root first. The
fields of a flattened class are what its parent hands down, what its mixins have and its own, in whatever
order and at whatever places the classes stand in their files.

A child is flattened from the declarations along its line and not from its flattened parent. It therefore
has the fields and offers the instance methods that its parent declares or inherits. What the parent takes
from its own mixins stays with the parent, and so do the accessors of its properties. A method that is
called like the class that declares it is renamed with the class, so the parent has it under the parent's
name and the child under the child's.
-/

namespace ClassFlattening

namespace Registry

variable {registry : Registry} {c b : Class} {line : List Class}

/-- The member above some member is that many steps up from the parent. -/
theorem lineMember?_succ_of_parentOf? (hparent : registry.parentOf? c = some b) (n : Nat) :
    registry.lineMember? c (n + 1) = registry.lineMember? b n := by
  induction n with
  | zero => exact hparent
  | succ n ih => rw [lineMember?, ih, lineMember?]

/-- A stretch of the line of a class is one of its parent's line behind the parent. -/
theorem IsStretch.tail (h : registry.IsStretch c (b :: line))
    (hparent : registry.parentOf? c = some b) : registry.IsStretch b line where
  members := by
    intro n hn
    rw [← lineMember?_succ_of_parentOf? hparent, h.members (n + 1) (Nat.succ_le_succ hn)]
    rfl
  distinct := (List.nodup_cons.1 h.distinct).2

end Registry

namespace Class

section Names

variable (c : Class) (settings : Settings) (ancestors mixins : List Class) {n : Text}

end Names

/-- A class with fields, properties and empty methods that are called by their names. -/
def member (file name : String) (parent : Option String) (mixins fields properties methods : List String)
    (start : Nat) : Class where
  name := name.toList
  parent := parent.map String.toList
  mixins := mixins.map String.toList
  fields := fields.map fun f => ⟨f.toList, "u8".toList, none⟩
  methods := methods.map (emptyMethod · name)
  properties := properties.map fun p => ⟨p.toList, "u8".toList, none, .readOnly⟩
  span := ⟨start, start + 1⟩
  file := file.toList

end Class

end ClassFlattening
