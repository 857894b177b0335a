import ClassFlattening.Member
import ClassFlattening.Site

/-!
# Declarations

A site declares a class if its header binds a name with `const`. Everything else about the class
comes from the members of its body. A source is scanned marker by marker: behind a declaration the
scan goes on at its end, and where nothing is declared one character behind the marker, so that each
marker outside a declared class is either declared or reported.
-/

namespace ClassFlattening

/-- The class with the members of its body. The last parent and the last list of mixins stand. -/
def Class.withMembers (c : Class) (members : List Member) : Class :=
  { c with
    parent := (members.filterMap Member.parent?).getLast?
    mixins := (members.filterMap Member.mixins?).getLast?.getD []
    fields := members.filterMap Member.field?
    methods := members.filterMap Member.method?
    properties := (members.filterMap Member.properties?).flatten
    constants := members.filterMap Member.constant? }

/-- The class that a site declares in a file. -/
def Site.class? (site : Site) (file : Text) : Option Class := do
  let binding ← site.header.cutAtLastWord? "const".toList
  let bound ← Text.cutAtFirst? (· == '=') (binding.after.drop 5)
  let name := bound.before.trim
  if name.isEmpty then none
  else
    let empty : Class :=
      { name
        visibility := binding.before.trimStart
        span := ⟨site.start, site.stop⟩
        file }
    return empty.withMembers (Member.readAll site.body)

/-- What a scan says about one marker. -/
inductive Finding where
  | declared (declared : Class)
  /-- Nothing could be read from the marker at this offset. -/
  | malformed (offset : Nat)
deriving DecidableEq, Repr

/-- Reports every marker of the rest of a source. -/
def reportFrom (front : Front) (rest : Text) : List Finding :=
  match _found : rest.cutAtText? marker with
  | none => []
  | some cut =>
    let here := front.push cut.before
    .malformed here.size :: reportFrom (here.push (cut.after.take 1)) cut.behind
termination_by rest.length
decreasing_by exact Text.length_behind_lt_of_cutWhere _found

/-- Scans the rest of a source behind a front. Where nothing could end a declaration any more the
markers are only reported. -/
def scanFrom (file : Text) (front : Front) (rest : Text) : List Finding :=
  match _found : rest.cutAtText? marker with
  | none => []
  | some cut =>
    let here := front.push cut.before
    match _read : Site.read? here marker (cut.after.drop marker.length) with
    | none =>
      .malformed here.size ::
        if Site.mayFollow cut.behind then scanFrom file (here.push (cut.after.take 1)) cut.behind
        else reportFrom (here.push (cut.after.take 1)) cut.behind
    | some site =>
      match site.class? file with
      | none => .malformed here.size :: scanFrom file (here.push (cut.after.take 1)) cut.behind
      | some c => .declared c :: scanFrom file site.through site.rest
termination_by rest.length
decreasing_by
  · exact Text.length_behind_lt_of_cutWhere _found
  · exact Text.length_behind_lt_of_cutWhere _found
  · have h₁ := Site.length_rest_lt _read
    have h₂ := Text.length_after_le (Text.whole_of_cutWhere _ _found)
    rw [List.length_drop] at h₁
    omega

/-- Where nothing could end a declaration, a scan only reports. -/
theorem scanFrom_eq_reportFrom {file rest : Text} (h : Site.mayFollow rest = false)
    (front : Front) : scanFrom file front rest = reportFrom front rest := by
  rw [scanFrom, reportFrom]
  split
  · rfl
  · next cut hcut =>
    have hwhole := Text.whole_of_cutWhere _ hcut
    have hbehind : Site.mayFollow cut.behind = false := by
      rw [← hwhole, ← cut.through_append_behind] at h
      cases hmay : Site.mayFollow cut.behind with
      | false => rfl
      | true => rw [Site.mayFollow_append hmay] at h; exact h
    simp only [hbehind, Bool.false_eq_true, if_false]
    split
    · rfl
    · next site hsite =>
      have hmay := Site.mayFollow_append (Site.mayFollow_of_read? hsite)
        (cut.before ++ cut.after.take marker.length)
      rw [List.append_assoc, List.take_append_drop, ← Cut.whole, hwhole, h] at hmay
      simp at hmay

/-- What the markers of a source declare, in order. -/
def scan (file source : Text) : List Finding := scanFrom file .empty source

end ClassFlattening
