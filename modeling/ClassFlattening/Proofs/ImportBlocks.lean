import ClassFlattening.Proofs.ImportLines

/-!
# Leaving out imports block by block

Where the lines that import the runtime module are left out, a source falls into blocks of whole lines: a line on
which no such call starts is kept, and the lines from one on which calls start to the one on which the last of
them ends are left out. The search for import calls looks at the whole source and the search for lines at one line
after the other, but they agree, since no call can hide a call of the runtime module.

The lines are left out in one pass. Every call of the source goes with the lines it stands on. A call that is there
afterwards was joined: it starts in front of lines that were left out and goes on behind them.
-/

namespace ClassFlattening

/-- A call is not empty. -/
theorem IsImportCall.ne_nil {path call : Text} (h : IsImportCall path call) : call ≠ [] := by
  obtain ⟨-, gap, gap', -, -, rfl⟩ := h
  rw [importStart_eq]
  exact List.cons_ne_nil _ _

/-- A source imports the runtime module exactly if a call of it stands anywhere. -/
theorem hasRuntimeImport_iff {t : Text} :
    hasRuntimeImport t = true ↔
      ∃ before call after, IsImportCall runtimeModule call ∧ t = before ++ (call ++ after) := by
  constructor
  · rw [hasRuntimeImport]
    intro h
    fun_induction importCalls t with
    | case1 => cases h
    | case2 => cases h
    | case3 t cut hcut path rest hread ih =>
      rw [List.any_cons, Bool.or_eq_true, beq_iff_eq] at h
      obtain ⟨call, hcall, hafter⟩ := readImport?_eq_some_iff.1 hread
      have hwhole := Text.whole_of_cutWhere _ hcut
      rw [Cut.whole, hafter] at hwhole
      rcases h with hpath | hrest
      · exact ⟨cut.before, call, rest, hpath ▸ hcall, hwhole.symm⟩
      · obtain ⟨before, inner, after, hinner, rfl⟩ := ih hrest
        exact ⟨cut.before ++ (call ++ before), inner, after, hinner, by
          rw [← hwhole, List.append_assoc, List.append_assoc]⟩
  · rintro ⟨before, call, after, hcall, rfl⟩
    obtain ⟨-, lead, -, -, hcalls⟩ := importCalls_append (readImport?_eq_some_iff.2 ⟨call, hcall, rfl⟩)
      (by decide) before
    rw [hasRuntimeImport, hcalls, List.any_append, List.any_cons, beq_self_eq_true, Bool.true_or, Bool.or_true]

/-- Where no call is found on the first line, none starts on it. -/
theorem readRuntimeImport?_of_behindRuntimeImport? {lead call : Text}
    (h : behindRuntimeImport? none (lead ++ call) = none) (hlead : '\n' ∉ lead) :
    readRuntimeImport? call = none := by
  have hcall := behindRuntimeImport?_of_append hlead h
  rw [Option.eq_none_iff_forall_ne_some]
  intro rest hread
  obtain ⟨inner, rfl⟩ : ∃ inner, call = '@' :: inner := by
    obtain ⟨_, ⟨-, gap, gap', -, -, rfl⟩, rfl⟩ := readRuntimeImport?_eq_some_iff.1 hread
    rw [importStart_eq]
    exact ⟨_, rfl⟩
  rw [behindRuntimeImport?, if_neg (by decide), hread] at hcall
  exact behindRuntimeImport?_some_ne_none rest inner hcall

namespace Text

/-- A place in a text of two parts lies in the first part or behind it. -/
theorem lies_in_or_behind {s t before after : Text} (h : s ++ t = before ++ after) :
    (∃ back, back ≠ [] ∧ s = before ++ back ∧ after = back ++ t) ∨ ∃ gap, before = s ++ gap ∧ t = gap ++ after := by
  rcases List.append_eq_append_iff.1 h with hbehind | ⟨back, hs, hafter⟩
  · exact Or.inr hbehind
  · by_cases hback : back = []
    · subst hback
      exact Or.inr ⟨[], by rw [hs, List.append_nil, List.append_nil], hafter.symm⟩
    · exact Or.inl ⟨back, hback, hs, hafter⟩

end Text

/-- A part of a source in which imports of the runtime module are left out: a line that is kept, or the lines of
such imports, which are left out. -/
inductive ImportBlock where
  | kept (line : Text)
  | leftOut (lines : Text)
deriving DecidableEq, Repr

namespace ImportBlock

/-- What the block is in the source. -/
def source : ImportBlock → Text
  | kept line => line
  | leftOut lines => lines

/-- What is there of the block afterwards. -/
def rest : ImportBlock → Text
  | kept line => line
  | leftOut _ => []

end ImportBlock

/-- The blocks of a source, in order. -/
def importBlocks (t : Text) : List ImportBlock :=
  if _empty : t = [] then []
  else
    match _found : behindRuntimeImport? none t with
    | some rest =>
      .leftOut (t.take (t.length - rest.cutLine.after.length)) :: importBlocks rest.cutLine.after
    | none => .kept t.cutLine.before :: importBlocks t.cutLine.after
termination_by t.length
decreasing_by
  · have hlt := (length_lt_of_behindRuntimeImport? _found).resolve_right (by simp)
    have hle := (Text.length_cutLine_after rest).1
    omega
  · exact (Text.length_cutLine_after t).2 _empty

/-- Blocks of whole lines. Each ends with its newline unless it is the last. No call of the runtime module starts
on a line that is kept; lines that are left out have one that starts on their first line and ends on their last. -/
inductive AreImportBlocks : List ImportBlock → Prop
  | nil : AreImportBlocks []
  | kept {line : Text} {later : List ImportBlock} (hne : line ≠ []) (hline : line.OnOneLine)
      (hend : line.getLast? = some '\n' ∨ later = [])
      (hnone : ∀ lead back, line = lead ++ back → back ≠ [] →
        readRuntimeImport? (back ++ later.flatMap ImportBlock.source) = none)
      (hlater : AreImportBlocks later) : AreImportBlocks (.kept line :: later)
  | leftOut {lead call tail : Text} {later : List ImportBlock} (hlead : '\n' ∉ lead)
      (hcall : IsImportCall runtimeModule call) (htail : tail.OnOneLine)
      (hend : (lead ++ (call ++ tail)).getLast? = some '\n' ∨ later = [])
      (hlater : AreImportBlocks later) : AreImportBlocks (.leftOut (lead ++ (call ++ tail)) :: later)

section Blocks

variable {t rest : Text}

/-- Where calls start on the first line, the block reaches to the end of the line on which the last of them ends. -/
theorem importBlocks_of_some (h : behindRuntimeImport? none t = some rest) :
    ∃ lead call : Text, '\n' ∉ lead ∧ IsImportCall runtimeModule call ∧ t = lead ++ (call ++ rest) ∧
      importBlocks t =
        .leftOut (lead ++ (call ++ rest.cutLine.before)) :: importBlocks rest.cutLine.after := by
  obtain ⟨lead, text, rfl, hlead, hread⟩ := (exists_call_of_behindRuntimeImport? h).resolve_right (by simp)
  obtain ⟨call, hcall, rfl⟩ := readRuntimeImport?_eq_some_iff.1 hread
  have hne : lead ++ (call ++ rest) ≠ [] := by simp [hcall.ne_nil]
  have hwhole : lead ++ (call ++ rest) = lead ++ (call ++ rest.cutLine.before) ++ rest.cutLine.after := by
    rw [List.append_assoc, List.append_assoc, ← Cut.whole, rest.cutLine_cases.1]
  have htake : List.take ((lead ++ (call ++ rest)).length - rest.cutLine.after.length) (lead ++ (call ++ rest)) =
      lead ++ (call ++ rest.cutLine.before) := by
    rw [hwhole, List.length_append, Nat.add_sub_cancel, List.take_left]
  refine ⟨lead, call, hlead, hcall, rfl, ?_⟩
  rw [importBlocks, dif_neg hne]
  split
  · next found hfound =>
    cases h.symm.trans hfound
    rw [htake]
  · next hnone => cases h.symm.trans hnone

/-- Where no call starts on the first line, the line is kept. -/
theorem importBlocks_of_none (hne : t ≠ []) (h : behindRuntimeImport? none t = none) :
    importBlocks t = .kept t.cutLine.before :: importBlocks t.cutLine.after := by
  rw [importBlocks, dif_neg hne]
  split
  · next found hfound => cases h.symm.trans hfound
  · rfl

theorem importBlocks_nil : importBlocks [] = [] := by rw [importBlocks, dif_pos rfl]

/-- The blocks of a source make it up. -/
theorem source_importBlocks (t : Text) : (importBlocks t).flatMap ImportBlock.source = t := by
  fun_induction withoutRuntimeImports t with
  | case1 => rw [importBlocks_nil, List.flatMap_nil]
  | case2 t hne rest hfound ih =>
    obtain ⟨lead, call, -, -, rfl, hblocks⟩ := importBlocks_of_some hfound
    rw [hblocks, List.flatMap_cons, ih, ImportBlock.source, List.append_assoc, List.append_assoc, ← Cut.whole,
      rest.cutLine_cases.1]
  | case3 t hne hnone ih =>
    rw [importBlocks_of_none hne hnone, List.flatMap_cons, ih, ImportBlock.source, ← Cut.whole, t.cutLine_cases.1]

/-- What is there of the blocks afterwards is the source without the lines that import the runtime module. -/
theorem rest_importBlocks (t : Text) : (importBlocks t).flatMap ImportBlock.rest = withoutRuntimeImports t := by
  fun_induction withoutRuntimeImports t with
  | case1 => rw [importBlocks_nil, List.flatMap_nil]
  | case2 t hne rest hfound ih =>
    obtain ⟨lead, call, -, -, -, hblocks⟩ := importBlocks_of_some hfound
    rw [hblocks, List.flatMap_cons, ih, ImportBlock.rest, List.nil_append]
  | case3 t hne hnone ih => rw [importBlocks_of_none hne hnone, List.flatMap_cons, ih, ImportBlock.rest]

/-- The blocks of a source are such blocks. -/
theorem areImportBlocks_importBlocks (t : Text) : AreImportBlocks (importBlocks t) := by
  fun_induction withoutRuntimeImports t with
  | case1 =>
    rw [importBlocks_nil]
    exact .nil
  | case2 t hne rest hfound ih =>
    obtain ⟨lead, call, hlead, hcall, -, hblocks⟩ := importBlocks_of_some hfound
    rw [hblocks]
    refine .leftOut hlead hcall rest.onOneLine_cutLine ?_ ih
    rcases rest.cutLine_cases.2 with ⟨front, hfront⟩ | hafter
    · left
      rw [hfront, ← List.append_assoc, ← List.append_assoc, List.getLast?_concat]
    · right
      rw [hafter, importBlocks_nil]
  | case3 t hne hnone ih =>
    obtain ⟨hwhole, hend⟩ := t.cutLine_cases
    rw [importBlocks_of_none hne hnone]
    refine .kept (fun hnil => ?_) t.onOneLine_cutLine ?_ (fun lead back hline hback => ?_) ih
    · -- Only an empty text has an empty first line.
      rcases hend with ⟨front, hfront⟩ | hafter
      · simp [hfront] at hnil
      · rw [Cut.whole, hnil, hafter] at hwhole
        exact hne hwhole.symm
    · rcases hend with ⟨front, hfront⟩ | hafter
      · left
        rw [hfront, List.getLast?_concat]
      · right
        rw [hafter, importBlocks_nil]
    · have hlead : '\n' ∉ lead := fun hmem => t.onOneLine_cutLine (by
        rw [hline, List.dropLast_append_of_ne_nil hback]
        exact List.mem_append_left _ hmem)
      rw [Cut.whole, hline, List.append_assoc] at hwhole
      rw [source_importBlocks]
      rw [← hwhole] at hnone
      exact readRuntimeImport?_of_behindRuntimeImport? hnone hlead

end Blocks

/-- The place behind a text lies on lines that are left out. -/
def LiesOnLeftOut (blocks : List ImportBlock) (before : Text) : Prop :=
  ∃ earlier lines later lead back,
    blocks = earlier ++ .leftOut lines :: later ∧ before = earlier.flatMap ImportBlock.source ++ lead ∧
      lines = lead ++ back ∧ back ≠ []

/-- The blocks in front make no difference. -/
theorem LiesOnLeftOut.cons {blocks : List ImportBlock} {before : Text} (h : LiesOnLeftOut blocks before)
    (block : ImportBlock) : LiesOnLeftOut (block :: blocks) (block.source ++ before) := by
  obtain ⟨earlier, lines, later, lead, back, rfl, rfl, hlines, hback⟩ := h
  exact ⟨block :: earlier, lines, later, lead, back, rfl, by rw [List.flatMap_cons, List.append_assoc], hlines, hback⟩

section Occurrences

variable {blocks : List ImportBlock} {before call after : Text}

/-- Lines that are left out have a call of the runtime module. -/
theorem AreImportBlocks.exists_call (h : AreImportBlocks blocks) {lines : Text} (hlines : .leftOut lines ∈ blocks) :
    ∃ call, IsImportCall runtimeModule call ∧ ∃ lead tail, lines = lead ++ (call ++ tail) := by
  induction h with
  | nil => cases hlines
  | kept _ _ _ _ _ ih => exact ih ((List.mem_cons.1 hlines).resolve_left (by simp))
  | leftOut _ hcall _ _ _ ih =>
    rcases List.mem_cons.1 hlines with heq | hlater
    · cases heq
      exact ⟨_, hcall, _, _, rfl⟩
    · exact ih hlater

/-- Every call of the runtime module starts on lines that are left out. -/
theorem AreImportBlocks.liesOnLeftOut (h : AreImportBlocks blocks) (hcall : IsImportCall runtimeModule call)
    (hsource : blocks.flatMap ImportBlock.source = before ++ (call ++ after)) : LiesOnLeftOut blocks before := by
  induction h generalizing before with
  | nil => exact absurd (List.append_eq_nil_iff.1 (List.append_eq_nil_iff.1 hsource.symm).2).1 hcall.ne_nil
  | @kept line later hne hline hend hnone hlater ih =>
    rw [List.flatMap_cons] at hsource
    rcases Text.lies_in_or_behind hsource with ⟨back, hback, hsplit, hafter⟩ | ⟨gap, rfl, hbehind⟩
    · have hread := hnone before back hsplit hback
      rw [← hafter, readRuntimeImport?_eq_some_iff.2 ⟨call, hcall, rfl⟩] at hread
      cases hread
    · exact (ih hbehind).cons (.kept line)
  | @leftOut lead inner tail later hlead hinner htail hend hlater ih =>
    rw [List.flatMap_cons] at hsource
    rcases Text.lies_in_or_behind hsource with ⟨back, hback, hsplit, hafter⟩ | ⟨gap, rfl, hbehind⟩
    · exact ⟨[], _, later, before, back, rfl, rfl, hsplit, hback⟩
    · exact (ih hbehind).cons (.leftOut _)

/-- What is left of blocks is what is in the source, unless lines are left out. -/
theorem rest_eq_source (hkept : ∀ lines, .leftOut lines ∉ blocks) :
    blocks.flatMap ImportBlock.rest = blocks.flatMap ImportBlock.source := by
  refine List.flatMap_congr fun block hblock => ?_
  cases block with
  | kept line => rfl
  | leftOut lines => exact absurd hblock (hkept lines)

/-- What is left of blocks is no longer than their source. -/
theorem length_rest_le (blocks : List ImportBlock) :
    (blocks.flatMap ImportBlock.rest).length ≤ (blocks.flatMap ImportBlock.source).length := by
  induction blocks with
  | nil => exact Nat.le_refl 0
  | cons block blocks ih =>
    rw [List.flatMap_cons, List.flatMap_cons, List.length_append, List.length_append]
    refine Nat.add_le_add ?_ ih
    cases block with
    | kept line => exact Nat.le_refl _
    | leftOut lines => exact Nat.zero_le _

/-- A source imports the runtime module exactly if lines of it are left out. -/
theorem hasRuntimeImport_iff_exists_leftOut {t : Text} :
    hasRuntimeImport t = true ↔ ∃ lines, .leftOut lines ∈ importBlocks t := by
  rw [hasRuntimeImport_iff]
  constructor
  · rintro ⟨before, call, after, hcall, ht⟩
    obtain ⟨earlier, lines, later, lead, back, hblocks, -⟩ :=
      (areImportBlocks_importBlocks t).liesOnLeftOut hcall ((source_importBlocks t).trans ht)
    exact ⟨lines, hblocks ▸ List.mem_append_right _ List.mem_cons_self⟩
  · rintro ⟨lines, hlines⟩
    obtain ⟨call, hcall, lead, tail, rfl⟩ := (areImportBlocks_importBlocks t).exists_call hlines
    obtain ⟨earlier, later, hblocks⟩ := List.append_of_mem hlines
    refine ⟨earlier.flatMap ImportBlock.source ++ lead, call, tail ++ later.flatMap ImportBlock.source, hcall, ?_⟩
    rw [← source_importBlocks t, hblocks, List.flatMap_append, List.flatMap_cons, ImportBlock.source]
    simp only [List.append_assoc]

/-- A source stays as it is exactly if it does not import the runtime module. -/
theorem withoutRuntimeImports_eq_self_iff {t : Text} :
    withoutRuntimeImports t = t ↔ hasRuntimeImport t = false := by
  rw [← Bool.not_eq_true, hasRuntimeImport_iff_exists_leftOut, not_exists]
  constructor
  · intro hself lines hlines
    obtain ⟨earlier, later, hblocks⟩ := List.append_of_mem hlines
    have hsame := (rest_importBlocks t).trans (hself.trans (source_importBlocks t).symm)
    rw [hblocks, List.flatMap_append, List.flatMap_append, List.flatMap_cons, List.flatMap_cons, ImportBlock.rest,
      ImportBlock.source, List.nil_append] at hsame
    have hlength := congrArg List.length hsame
    simp only [List.length_append] at hlength
    have hearlier := length_rest_le earlier
    have hlater := length_rest_le later
    obtain ⟨call, hcall, lead, tail, rfl⟩ := (areImportBlocks_importBlocks t).exists_call hlines
    have hpos := List.length_pos_iff.2 hcall.ne_nil
    simp only [List.length_append] at hlength
    omega
  · intro hkept
    rw [← rest_importBlocks, rest_eq_source hkept, source_importBlocks]

end Occurrences

/-- Leaving out the imports of the runtime module deletes blocks of whole lines and nothing else: the blocks of a
source make it up, and what is left are the lines that are kept. A source without such an import stays as it is, and
no other does. -/
theorem withoutRuntimeImports_deletes_blocks (t : Text) :
    (importBlocks t).flatMap ImportBlock.source = t ∧
      (importBlocks t).flatMap ImportBlock.rest = withoutRuntimeImports t ∧ AreImportBlocks (importBlocks t) ∧
      (withoutRuntimeImports t = t ↔ hasRuntimeImport t = false) :=
  ⟨source_importBlocks t, rest_importBlocks t, areImportBlocks_importBlocks t, withoutRuntimeImports_eq_self_iff⟩

/-- Lines are left out in the middle of an import of the runtime module: what is kept in front of them ends with
the start of a call, and what is kept behind them goes on with its end. -/
def JoinsImport (blocks : List ImportBlock) : Prop :=
  ∃ earlier lines later before opened closed after,
    blocks = earlier ++ .leftOut lines :: later ∧ earlier.flatMap ImportBlock.rest = before ++ opened ∧
      later.flatMap ImportBlock.rest = closed ++ after ∧ opened ≠ [] ∧ closed ≠ [] ∧
      IsImportCall runtimeModule (opened ++ closed)

/-- The blocks in front make no difference. -/
theorem JoinsImport.cons {blocks : List ImportBlock} (h : JoinsImport blocks) (block : ImportBlock) :
    JoinsImport (block :: blocks) := by
  obtain ⟨earlier, lines, later, before, opened, closed, after, rfl, hopened, hclosed, hcall⟩ := h
  refine ⟨block :: earlier, lines, later, block.rest ++ before, opened, closed, after, rfl, ?_, hclosed, hcall⟩
  rw [List.flatMap_cons, hopened, List.append_assoc]

section Joined

variable {blocks : List ImportBlock} {before call after front back : Text}

/-- What stands at the start of what is kept stands at the start of the source, or lines in the middle of it are
left out. -/
theorem starts_source_or_joined (h : blocks.flatMap ImportBlock.rest = front ++ back) :
    (∃ more, blocks.flatMap ImportBlock.source = front ++ more) ∨
      ∃ earlier lines later closed, blocks = earlier ++ .leftOut lines :: later ∧
        front = earlier.flatMap ImportBlock.rest ++ closed ∧ closed ≠ [] ∧
        later.flatMap ImportBlock.rest = closed ++ back := by
  induction blocks generalizing front with
  | nil =>
    obtain ⟨rfl, -⟩ := List.append_eq_nil_iff.1 h.symm
    exact Or.inl ⟨[], rfl⟩
  | cons block blocks ih =>
    by_cases hnil : front = []
    · subst hnil
      exact Or.inl ⟨_, rfl⟩
    rw [List.flatMap_cons] at h
    cases block with
    | leftOut lines => exact Or.inr ⟨[], lines, blocks, front, rfl, rfl, hnil, h⟩
    | kept line =>
      rw [List.flatMap_cons]
      rcases Text.lies_in_or_behind h with ⟨more, -, hline, -⟩ | ⟨gap, rfl, hbehind⟩
      · exact Or.inl ⟨more ++ blocks.flatMap ImportBlock.source, by
          rw [← List.append_assoc, ← hline, ImportBlock.source, ImportBlock.rest]⟩
      · rcases ih hbehind with ⟨more, hmore⟩ | ⟨earlier, lines, later, closed, rfl, rfl, hclosed, hlater⟩
        · exact Or.inl ⟨more, by rw [hmore, List.append_assoc, ImportBlock.source, ImportBlock.rest]⟩
        · exact Or.inr ⟨.kept line :: earlier, lines, later, closed, rfl, by
            rw [List.flatMap_cons, List.append_assoc], hclosed, hlater⟩

/-- A call that stands in what is kept was joined. -/
theorem AreImportBlocks.joinsImport (h : AreImportBlocks blocks) (hcall : IsImportCall runtimeModule call)
    (hrest : blocks.flatMap ImportBlock.rest = before ++ (call ++ after)) : JoinsImport blocks := by
  induction h generalizing before with
  | nil => exact absurd (List.append_eq_nil_iff.1 (List.append_eq_nil_iff.1 hrest.symm).2).1 hcall.ne_nil
  | @leftOut lead inner tail later hlead hinner htail hend hlater ih => exact (ih hrest).cons (.leftOut _)
  | @kept line later hne hline hend hnone hlater ih =>
    rw [List.flatMap_cons] at hrest
    rcases Text.lies_in_or_behind hrest with ⟨opened, hopened, hsplit, hafter⟩ | ⟨gap, rfl, hbehind⟩
    · -- The call starts on the line, where none of the source does.
      have hread := hnone before opened hsplit hopened
      have hno (more : Text) : opened ++ later.flatMap ImportBlock.source ≠ call ++ more := by
        intro hwhole
        rw [hwhole, readRuntimeImport?_eq_some_iff.2 ⟨call, hcall, rfl⟩] at hread
        cases hread
      rcases Text.lies_in_or_behind hafter with ⟨more, -, rfl, hlater'⟩ | ⟨gap, rfl, -⟩
      · rcases starts_source_or_joined hlater' with
          ⟨passed, hpassed⟩ | ⟨earlier, lines, behind, closed, rfl, rfl, hclosed, hbehind⟩
        · exact absurd (by rw [hpassed, List.append_assoc]) (hno passed)
        · refine ⟨.kept line :: earlier, lines, behind, before, opened ++ earlier.flatMap ImportBlock.rest, closed,
            after, rfl, ?_, hbehind, by simp [hopened], hclosed, by rwa [List.append_assoc]⟩
          rw [List.flatMap_cons, hsplit, List.append_assoc]
      · exact absurd (List.append_assoc call gap _) (hno _)
    · exact (ih hbehind).cons (.kept line)

end Joined

/-- What is left of a source imports the runtime module exactly if such an import was joined. -/
theorem hasRuntimeImport_withoutRuntimeImports_iff {t : Text} :
    hasRuntimeImport (withoutRuntimeImports t) = true ↔ JoinsImport (importBlocks t) := by
  rw [hasRuntimeImport_iff, ← rest_importBlocks t]
  constructor
  · rintro ⟨before, call, after, hcall, hrest⟩
    exact (areImportBlocks_importBlocks t).joinsImport hcall hrest
  · rintro ⟨earlier, lines, later, before, opened, closed, after, hblocks, hopened, hclosed, -, -, hcall⟩
    refine ⟨before, opened ++ closed, after, hcall, ?_⟩
    rw [hblocks, List.flatMap_append, List.flatMap_cons, hopened, hclosed, ImportBlock.rest]
    simp only [List.append_assoc, List.nil_append]

/-- The imports of the runtime module are left out in one pass. Each call of the source starts on lines that are left
out. What is left imports the module exactly if lines were left out in the middle of a call, and only then
leaving out its imports once more changes it. -/
theorem withoutRuntimeImports_once (t : Text) :
    (∀ before call after, IsImportCall runtimeModule call → t = before ++ (call ++ after) →
        LiesOnLeftOut (importBlocks t) before) ∧
      (hasRuntimeImport (withoutRuntimeImports t) = true ↔ JoinsImport (importBlocks t)) ∧
      (withoutRuntimeImports (withoutRuntimeImports t) = withoutRuntimeImports t ↔
        ¬ JoinsImport (importBlocks t)) := by
  refine ⟨fun before call after hcall ht => ?_, hasRuntimeImport_withoutRuntimeImports_iff, ?_⟩
  · exact (areImportBlocks_importBlocks t).liesOnLeftOut hcall ((source_importBlocks t).trans ht)
  · rw [withoutRuntimeImports_eq_self_iff, ← hasRuntimeImport_withoutRuntimeImports_iff, Bool.not_eq_true]

/-- A source that imports the runtime module by a call of three lines. -/
def spreadImport : Text :=
  "const std = @import(\"std\");\nconst zoop = @import(\n    \"zoop\"\n);\nconst x = 1;\n".toList

/-- The three lines are left out, and once is enough. -/
theorem withoutRuntimeImports_once_spread :
    IsImportCall runtimeModule "@import(\n    \"zoop\"\n)".toList ∧
      LiesOnLeftOut (importBlocks spreadImport) "const std = @import(\"std\");\nconst zoop = ".toList ∧
      withoutRuntimeImports spreadImport = "const std = @import(\"std\");\nconst x = 1;\n".toList ∧
      ¬ JoinsImport (importBlocks spreadImport) ∧
      withoutRuntimeImports (withoutRuntimeImports spreadImport) = withoutRuntimeImports spreadImport := by
  have hcall : IsImportCall runtimeModule "@import(\n    \"zoop\"\n)".toList :=
    ⟨by decide, "\n    ".toList, "\n".toList, by decide, by decide, rfl⟩
  have hrest : withoutRuntimeImports spreadImport = "const std = @import(\"std\");\nconst x = 1;\n".toList := by
    decide +kernel
  obtain ⟨hlies, hjoins, honce⟩ := withoutRuntimeImports_once spreadImport
  have hnone : ¬ JoinsImport (importBlocks spreadImport) := by
    rw [← hjoins, hrest]
    decide +kernel
  exact ⟨hcall, hlies _ _ ";\nconst x = 1;\n".toList hcall rfl, hrest, hnone, honce.2 hnone⟩

/-- An import in the middle of another one. -/
def nestedImport : Text := "@import(\n@import(\"zoop\");\n\"zoop\")".toList

/-- When the inner import is left out the outer one is joined, and leaving out the imports once more changes what is
left. -/
theorem hasRuntimeImport_withoutRuntimeImports_nested :
    withoutRuntimeImports nestedImport = "@import(\n\"zoop\")".toList ∧
      hasRuntimeImport (withoutRuntimeImports nestedImport) = true ∧
      withoutRuntimeImports (withoutRuntimeImports nestedImport) ≠ withoutRuntimeImports nestedImport := by
  have hleft : withoutRuntimeImports nestedImport = "@import(\n\"zoop\")".toList := by decide +kernel
  rw [hleft]
  exact ⟨rfl, by decide +kernel, by decide +kernel⟩

end ClassFlattening
