import ClassFlattening.Proofs.ImportCalls
import ClassFlattening.Proofs.MethodPieces
import ClassFlattening.Proofs.ScanOutcomes

/-!
# Sources one after the other

Text that is put behind a source does not change what the source declares, as long as the source ends with its
last line and each of its markers declares a class. Every search that takes a declaration apart then stops in
the source, at the same place whatever follows, and no marker reaches over the newline at its end. The scan
goes on behind the source as if it started there: a statement never reaches back over that newline, so all that
the source in front changes are the offsets.
-/

namespace ClassFlattening

/-- A class that is declared further on in a source. -/
def Class.shift (c : Class) (offset : Nat) : Class :=
  { c with span := ⟨c.span.start + offset, c.span.stop + offset⟩ }

/-- What a scan says about a marker that stands further on in a source. -/
def Finding.shift (finding : Finding) (offset : Nat) : Finding :=
  match finding with
  | .declared c => .declared (c.shift offset)
  | .malformed place => .malformed (place + offset)

section Appended

variable {file : Text} {front other : Front} {call after : Text} {site : Site} {c : Class}

/-- A declaration is read where more text follows. -/
theorem Site.read?_append (h : read? front call after = some site) (more : Text) :
    read? front call (after ++ more) = some { site with rest := site.rest ++ more } := by
  simp only [read?, Option.bind_eq_bind, Option.bind_eq_some_iff] at h
  obtain ⟨opened, hopened, closed, hclosed, ended, hended, h⟩ := h
  cases h
  obtain ⟨inner, behind, hafter, rfl, hclosed'⟩ :=
    MethodPieces.exists_inner_of_cutAtMatching? (by decide) (by decide) (by decide) (by decide) hclosed
  have hbody := hclosed' (behind ++ more)
  rw [← List.cons_append, ← List.append_assoc, ← hafter] at hbody
  obtain ⟨rest, hrest⟩ := Text.exists_of_cutAtText? hended
  have hdrop : (ended.after ++ more).drop terminator.length = ended.after.drop terminator.length ++ more := by
    rw [hrest, List.append_assoc, List.drop_left, List.drop_left]
  have hend := Text.cutAtText?_append_of_some hended more
  rw [Cut.behind, List.tail_cons] at hend
  rw [read?, Text.cutAtFirst?_append_of_some hopened]
  simp only [Option.bind_eq_bind, Option.bind_some, hbody, Cut.behind, List.cons_append, List.tail_cons, hend,
    hdrop]
  rfl

/-- A marker declares the same class where more text follows. -/
theorem declaredAt?_append (h : declaredAt? file front (marker ++ after) = some (site, c)) (more : Text) :
    declaredAt? file front (marker ++ (after ++ more)) = some ({ site with rest := site.rest ++ more }, c) := by
  rw [declaredAt?_eq_some_iff, List.drop_left] at h ⊢
  exact ⟨Site.read?_append h.1 more, h.2⟩

/-- No marker reaches over the newline at the end of a text: where the text has none, the first one is found
behind it. -/
theorem cutAtText?_marker_behind {rest : Text} (hend : rest.getLast? = some '\n')
    (hnone : rest.cutAtText? marker = none) (more : Text) :
    (rest ++ more).cutAtText? marker = (more.cutAtText? marker).map fun cut => ⟨rest ++ cut.before, cut.after⟩ := by
  obtain ⟨lines, rfl⟩ := List.getLast?_eq_some_iff.1 hend
  have hnewline : '\n' ∉ marker := by decide
  have hfind (t : Text) := Text.cutAtText?_append_cons (s := lines) (t := t) hnewline marker_ne_nil
  have hlines : Text.cutAtText? lines marker = none := by
    rw [hfind] at hnone
    cases hcut : Text.cutAtText? lines marker with
    | none => rfl
    | some cut =>
      rw [hcut] at hnone
      cases hnone
  rw [List.append_assoc, List.singleton_append, hfind, hlines]
  simp only [List.append_assoc, List.singleton_append]

/-- The source behind a declaration ends with the newline that the source ends with. -/
theorem getLast?_rest_of_declaredAt? {rest : Text} {cut : Cut} (hcut : rest.cutAtText? marker = some cut)
    (hsome : declaredAt? file (front.push cut.before) cut.after = some (site, c))
    (hend : rest.getLast? = some '\n') : site.rest.getLast? = some '\n' := by
  have hwhole := whole_of_declaredAt? hcut hsome
  obtain ⟨-, -, -, ⟨between, hclosing⟩, -⟩ := Site.pieces_of_read? (declaredAt?_eq_some_iff.1 hsome).1
  have hlast : (front.text ++ rest).getLast? = some '\n' := by
    rw [List.getLast?_append, hend]
    rfl
  rw [← hwhole] at hlast
  by_cases hrest : site.rest = []
  · -- The declaration itself ends with its terminator.
    have hthrough : site.through.text = (site.lead.text ++ site.header ++ site.opening ++ '{' :: site.body ++
        '}' :: between ++ [')']) ++ [';'] := by
      simp [Site.text_through, Site.statement, hclosing, terminator]
    rw [hrest, List.append_nil, hthrough, List.getLast?_concat] at hlast
    exact absurd hlast (by decide)
  · rwa [List.getLast?_append_of_ne_nil _ hrest] at hlast

/-- A scan that declares a class for each marker of a text finds the same where more text follows, and goes on
behind the text. -/
theorem scanFrom_append {rest : Text} {findings : List Finding} (h : ScanSteps file front rest findings)
    (hend : rest.getLast? = some '\n') (hdeclared : ∀ finding ∈ findings, ∃ c, finding = .declared c)
    (more : Text) : scanFrom file front (rest ++ more) = findings ++ scanFrom file (front.push rest) more := by
  induction h with
  | @finished front rest hnone =>
    rw [scanFrom_step, cutAtText?_marker_behind hend hnone, List.nil_append, scanFrom_step file (front.push rest)]
    have hfront (passed : Text) : front.push (rest ++ passed) = (front.push rest).push passed :=
      Front.eq_of_text_eq (by simp)
    cases more.cutAtText? marker with
    | none => rfl
    | some cut => simp only [Option.map_some, hfront, Cut.behind]
  | malformed =>
    obtain ⟨c, hc⟩ := hdeclared _ List.mem_cons_self
    cases hc
  | @declared front rest cut site c findings hcut hsome htail ih =>
    obtain ⟨after, hafter⟩ := Text.exists_of_cutAtText? hcut
    have hcut' := Text.cutAtText?_append_of_some hcut more
    have hwhole := whole_of_declaredAt? hcut hsome
    have hrest := getLast?_rest_of_declaredAt? hcut hsome hend
    rw [hafter, List.append_assoc] at hcut'
    rw [hafter] at hsome
    have hfront : site.through.push site.rest = front.push rest :=
      Front.eq_of_text_eq (by rw [Front.text_push, Front.text_push, hwhole])
    have hbehind := ih hrest fun finding hfinding => hdeclared finding (List.mem_cons_of_mem _ hfinding)
    rw [scanFrom_step, hcut']
    simp only [declaredAt?_append hsome, List.cons_append, ← hfront, ← hbehind]
    rfl

end Appended

section Shifted

variable {file : Text} {front other : Front} {call after done : Text} {site : Site} {c : Class}

/-- The statement that a front ends with does not reach back over the end of another statement. -/
theorem Front.popStatement_append (hdone : EndsStatement done) (h : other.text = done ++ front.text) :
    other.popStatement.1.text = done ++ front.popStatement.1.text ∧
      other.popStatement.2 = front.popStatement.2 := by
  have hpassed : other.passed = front.passed ++ done.reverse := by
    rw [← List.reverse_inj, List.reverse_append, List.reverse_reverse]
    exact h
  have htake : other.passed.takeWhile (fun c => !isDelimiter c) = front.passed.takeWhile fun c => !isDelimiter c := by
    rw [hpassed]
    cases hreverse : done.reverse with
    | nil => rw [List.append_nil]
    | cons d more =>
      refine takeWhile_append_cons ?_ _ _
      rw [hdone d (by rw [List.getLast?_eq_head?_reverse, hreverse]; rfl)]
      rfl
  have hline : other.popStatement.2 = front.popStatement.2 :=
    congrArg (fun line : Text => line.reverse.dropWhile isIndent) htake
  refine ⟨?_, hline⟩
  have hwhole := other.popStatement_whole
  rw [h, hline, ← front.popStatement_whole, ← List.append_assoc] at hwhole
  exact List.append_cancel_right hwhole

/-- A declaration is read alike behind another front, up to where its statement starts. -/
theorem Site.read?_append_front (hdone : EndsStatement done) (h : other.text = done ++ front.text) :
    read? other call after = (read? front call after).map fun site => { site with lead := other.popStatement.1 } := by
  obtain ⟨-, hheader⟩ := Front.popStatement_append hdone h
  simp only [read?, hheader]
  cases after.cutAtFirst? (· == '{') with
  | none => rfl
  | some opened =>
    cases hclosed : opened.after.cutAtMatching? '{' '}' with
    | none => simp [hclosed]
    | some closed =>
      cases hended : closed.behind.cutAtText? terminator with
      | none => simp [hclosed, hended]
      | some ended => simp [hclosed, hended]

/-- A site that starts further on declares the class further on. -/
theorem Site.class?_shift {lead : Front} {offset : Nat} (h : lead.size = site.lead.size + offset) :
    class? { site with lead } file = (site.class? file).map (·.shift offset) := by
  have hstart : start { site with lead } = site.start + offset := h
  have hstop : stop { site with lead } = site.stop + offset := by
    rw [stop_eq, stop_eq, hstart]
    exact Nat.add_right_comm _ _ _
  simp only [class?, hstart, hstop]
  cases site.header.cutAtLastWord? "const".toList with
  | none => rfl
  | some binding =>
    cases hbound : Text.cutAtFirst? (· == '=') (binding.after.drop 5) with
    | none => simp [hbound]
    | some bound =>
      simp only [Option.bind_eq_bind, Option.bind_some, hbound]
      split <;> rfl

/-- A marker declares the same class behind another front, further on. -/
theorem declaredAt?_append_front (hdone : EndsStatement done) (h : other.text = done ++ front.text) :
    declaredAt? file other after = (declaredAt? file front after).map fun found =>
      ({ found.1 with lead := other.popStatement.1 }, found.2.shift done.size) := by
  rw [declaredAt?, declaredAt?, Site.read?_append_front hdone h]
  cases hread : Site.read? front marker (after.drop marker.length) with
  | none => rfl
  | some site =>
    obtain ⟨hlead, -⟩ := Site.pieces_of_read? hread
    have hsize : other.popStatement.1.size = site.lead.size + done.size := by
      rw [hlead, Front.size_eq_size_text, Front.size_eq_size_text, (Front.popStatement_append hdone h).1,
        Text.size_append, Nat.add_comm]
    simp only [Option.bind_eq_bind, Option.map_some, Option.bind_some, Site.class?_shift hsize]
    cases site.class? file with
    | none => rfl
    | some c => rfl

/-- What a scan finds behind text that ends a statement is what it finds without it, further on. -/
theorem scanFrom_append_front {rest : Text} {findings : List Finding} (hsteps : ScanSteps file front rest findings)
    (hdone : EndsStatement done) (h : other.text = done ++ front.text) :
    scanFrom file other rest = findings.map (·.shift done.size) := by
  have hpush {front other : Front} (h : other.text = done ++ front.text) (t : Text) :
      (other.push t).text = done ++ (front.push t).text := by
    rw [Front.text_push, Front.text_push, h, List.append_assoc]
  induction hsteps generalizing other with
  | finished hnone => simp [scanFrom_step, hnone]
  | @malformed front rest cut findings hcut hnone htail ih =>
    have hplace : (other.push cut.before).size = (front.push cut.before).size + done.size := by
      rw [Front.size_eq_size_text, Front.size_eq_size_text, hpush h, Text.size_append, Nat.add_comm]
    rw [scanFrom_step, hcut]
    simp only [declaredAt?_append_front hdone (hpush h _), hnone, Option.map_none, List.map_cons, Finding.shift,
      hplace, ih (hpush (hpush h _) _)]
  | @declared front rest cut site c findings hcut hsome htail ih =>
    obtain ⟨hlead, -⟩ := Site.pieces_of_read? (declaredAt?_eq_some_iff.1 hsome).1
    have hthrough : Site.through { site with lead := (other.push cut.before).popStatement.1 } =
        (other.push cut.before).popStatement.1.push site.statement := rfl
    have hfront : (other.push cut.before).popStatement.1.text = done ++ site.lead.text :=
      hlead ▸ (Front.popStatement_append hdone (hpush h cut.before)).1
    rw [scanFrom_step, hcut]
    simp only [declaredAt?_append_front hdone (hpush h _), hsome, Option.map_some, List.map_cons, Finding.shift,
      hthrough, ih (hpush hfront site.statement)]

end Shifted

/-- Behind a source that ends with its last line and declares a class with each of its markers a scan finds what
it finds in the text behind, further on by the source. -/
theorem scan_append {s : Text} (file t : Text) (hend : s.getLast? = some '\n')
    (hdeclared : ∀ finding ∈ scan file s, ∃ c, finding = .declared c) :
    scan file (s ++ t) = scan file s ++ (scan file t).map (·.shift s.size) := by
  have hdone : EndsStatement s := by
    intro c hc
    rw [hend, Option.mem_some_iff] at hc
    subst hc
    rfl
  have hfront : (Front.empty.push s).text = s ++ Front.empty.text := by
    rw [Front.text_push]
    exact (List.append_nil s).symm
  rw [scan, scanFrom_append (scanSteps_scanFrom file .empty s) hend hdeclared,
    scanFrom_append_front (scanSteps_scanFrom file .empty t) hdone hfront, scan, scan]

/-- A class that ends with its line. -/
def framedClass : Text := "const A = zoop.class(struct \x7b\n    x: u8,\n\x7d);\n".toList

/-- The class as it is declared. -/
def framed : Class := { name := "A".toList, fields := [⟨"x".toList, "u8".toList, none⟩], span := ⟨0, 44⟩ }

/-- An indented class and a marker without a body. -/
def indentedClass : Text := "  pub const B = zoop.class(struct \x7b\x7d); // zoop.class(".toList

/-- The indented class as it is declared. -/
def indented : Class := { name := "B".toList, visibility := "pub ".toList, span := ⟨2, 38⟩ }

/-- Two classes and a marker without a body, one source after the other. -/
theorem scan_append_indented :
    framedClass.getLast? = some '\n' ∧ (∀ finding ∈ scan [] framedClass, ∃ c, finding = .declared c) ∧
      scan [] (framedClass ++ indentedClass) =
        [.declared framed, .declared (indented.shift 45), .malformed 87] := by
  have hend : framedClass.getLast? = some '\n' := by decide
  have hframed : scan [] framedClass = [.declared framed] := by decide +kernel
  have hindented : scan [] indentedClass = [.declared indented, .malformed 42] := by decide +kernel
  have hdeclared : ∀ finding ∈ scan [] framedClass, ∃ c, finding = .declared c := by
    rw [hframed]
    exact fun finding hfinding => ⟨framed, List.mem_singleton.1 hfinding⟩
  refine ⟨hend, hdeclared, ?_⟩
  rw [scan_append [] indentedClass hend hdeclared, hframed, hindented]
  decide

end ClassFlattening
