import ClassFlattening.Proofs.SitePieces

/-!
# A scan step by step

A scan looks for the next marker. If there is none it is finished; if the marker declares a class it
goes on behind the declaration, and otherwise one character behind the place where the marker starts.
`ScanSteps` says this without the short cut for sources in which no declaration can end any more. Every
scan is such a run, so what each step keeps is what the scan keeps.
-/

namespace ClassFlattening

/-- The class that a finding declares. -/
def Finding.class? : Finding → Option Class
  | .declared c => some c
  | .malformed _ => none

/-- What a marker declares behind a front, given the text from the marker on. -/
def declaredAt? (file : Text) (front : Front) (after : Text) : Option (Site × Class) := do
  let site ← Site.read? front marker (after.drop marker.length)
  let c ← site.class? file
  return (site, c)

/-- A run of the scan over the rest of a source behind a front. -/
inductive ScanSteps (file : Text) : Front → Text → List Finding → Prop
  | finished {front : Front} {rest : Text} (hnone : rest.cutAtText? marker = none) :
      ScanSteps file front rest []
  | malformed {front : Front} {rest : Text} {cut : Cut} {findings : List Finding}
      (hcut : rest.cutAtText? marker = some cut)
      (hnone : declaredAt? file (front.push cut.before) cut.after = none)
      (htail : ScanSteps file ((front.push cut.before).push (cut.after.take 1)) cut.behind findings) :
      ScanSteps file front rest (.malformed (front.push cut.before).size :: findings)
  | declared {front : Front} {rest : Text} {cut : Cut} {site : Site} {c : Class}
      {findings : List Finding} (hcut : rest.cutAtText? marker = some cut)
      (hsome : declaredAt? file (front.push cut.before) cut.after = some (site, c))
      (htail : ScanSteps file site.through site.rest findings) :
      ScanSteps file front rest (.declared c :: findings)

/-- What a marker declares is a site that is read from it and the class of that site. -/
theorem declaredAt?_eq_some_iff {file : Text} {front : Front} {after : Text} {site : Site}
    {c : Class} : declaredAt? file front after = some (site, c) ↔
      Site.read? front marker (after.drop marker.length) = some site ∧
        site.class? file = some c := by
  simp only [declaredAt?, Option.bind_eq_bind, Option.bind_eq_some_iff, Option.pure_def,
    Option.some.injEq, Prod.mk.injEq]
  constructor
  · rintro ⟨_, hread, _, hclass, rfl, rfl⟩
    exact ⟨hread, hclass⟩
  · rintro ⟨hread, hclass⟩
    exact ⟨site, hread, c, hclass, rfl, rfl⟩

/-- A declaration and what is behind it make up the source. -/
theorem whole_of_declaredAt? {file : Text} {front : Front} {rest : Text} {cut : Cut} {site : Site}
    {c : Class} (hcut : rest.cutAtText? marker = some cut)
    (h : declaredAt? file (front.push cut.before) cut.after = some (site, c)) :
    site.through.text ++ site.rest = front.text ++ rest := by
  obtain ⟨more, hmore⟩ := Text.exists_of_cutAtText? hcut
  have hwhole := Site.whole_of_read? (declaredAt?_eq_some_iff.1 h).1
  rw [hmore, List.drop_left, ← hmore, Front.text_push, List.append_assoc front.text] at hwhole
  rw [Site.text_through, hwhole, ← Cut.whole, Text.whole_of_cutWhere _ hcut]

/-- One step of the scan, without its short cut. -/
theorem scanFrom_step (file : Text) (front : Front) (rest : Text) :
    scanFrom file front rest =
      match rest.cutAtText? marker with
      | none => []
      | some cut =>
        match declaredAt? file (front.push cut.before) cut.after with
        | none =>
          .malformed (front.push cut.before).size ::
            scanFrom file ((front.push cut.before).push (cut.after.take 1)) cut.behind
        | some (site, c) => .declared c :: scanFrom file site.through site.rest := by
  rw [scanFrom]
  split
  · next hnone => rw [hnone]
  · next cut hcut =>
    rw [hcut]
    dsimp only
    split
    · next hread =>
      have hnone : declaredAt? file (front.push cut.before) cut.after = none := by
        simp [declaredAt?, hread]
      rw [hnone]
      dsimp only
      split
      · rfl
      · next hmay =>
        rw [scanFrom_eq_reportFrom (Bool.eq_false_iff.2 hmay)]
    · next site hread =>
      split
      · next hclass =>
        have hnone : declaredAt? file (front.push cut.before) cut.after = none := by
          simp [declaredAt?, hread, hclass]
        rw [hnone]
      · next c hclass => rw [declaredAt?_eq_some_iff.2 ⟨hread, hclass⟩]

/-- Every scan is a run of its steps. -/
theorem scanSteps_scanFrom (file : Text) (front : Front) (rest : Text) :
    ScanSteps file front rest (scanFrom file front rest) := by
  induction hlength : rest.length using Nat.strongRecOn generalizing front rest with
  | ind n ih =>
    rw [scanFrom_step]
    cases hcut : rest.cutAtText? marker with
    | none => exact .finished hcut
    | some cut =>
      have hbehind := Text.length_behind_lt_of_cutWhere hcut
      cases hdeclared : declaredAt? file (front.push cut.before) cut.after with
      | none =>
        simp only [hdeclared]
        exact .malformed hcut hdeclared (ih _ (hlength ▸ hbehind) _ _ rfl)
      | some found =>
        obtain ⟨site, c⟩ := found
        have hsite := Site.length_rest_lt (declaredAt?_eq_some_iff.1 hdeclared).1
        have hafter := Text.length_after_le (Text.whole_of_cutWhere _ hcut)
        rw [List.length_drop] at hsite
        simp only [hdeclared]
        exact .declared hcut hdeclared (ih _ (by omega) _ _ rfl)

/-- Every class that a run declares is one of the scanned file. -/
theorem file_of_scanSteps {file : Text} {front : Front} {rest : Text} {findings : List Finding}
    (h : ScanSteps file front rest findings) :
    ∀ c ∈ findings.filterMap Finding.class?, c.file = file := by
  induction h with
  | finished => exact fun c hc => absurd hc List.not_mem_nil
  | malformed _ _ _ ih => exact ih
  | declared _ hsome _ ih =>
    exact List.forall_mem_cons.2 ⟨Site.file_of_class? (declaredAt?_eq_some_iff.1 hsome).2, ih⟩

end ClassFlattening
