import ClassFlattening.Proofs.ByOffset.Entries
import ClassFlattening.Proofs.ImportCalls

/-!
# Imports by their offsets

The line in front of an import call is the slice between the last newline in front of the call and the
call. Part of the line may belong to the call before it. That call ends with a parenthesis, and neither a
parenthesis nor a newline can be part of a binding, so the line binds the name that the text between the
two calls binds.
-/

namespace ClassFlattening

namespace ByOffset

open Text

/-- The offsets and the paths of the import calls of a source from an offset on, given the text from
there on. -/
def importsFrom (cursor : Nat) (t : Text) : List (Nat × Text) :=
  match _found : cutAtImport? t with
  | none => []
  | some cut =>
    match _read : readImport? cut.after with
    | none => []
    | some (path, rest) =>
      (cursor + cut.before.size, path) :: importsFrom (cursor + (t.size - rest.size)) rest
termination_by t.length
decreasing_by
  have hrest := length_lt_of_readImport? _read
  have hafter := length_after_le (whole_of_cutWhere _ _found)
  omega

/-- One round of the search for import calls. -/
theorem importsFrom_eq (cursor : Nat) (t : Text) :
    importsFrom cursor t =
      match cutAtImport? t with
      | none => []
      | some cut =>
        match readImport? cut.after with
        | none => []
        | some (path, rest) =>
          (cursor + cut.before.size, path) :: importsFrom (cursor + (t.size - rest.size)) rest := by
  rw [importsFrom]
  split
  · next hcut => rw [hcut]
  · next cut hcut =>
    rw [hcut]
    dsimp only
    split
    · next hread => rw [hread]
    · next path rest hread => rw [hread]

/-- The line of an offset, up to the offset. -/
def lineBefore (source : Text) (stop : Nat) : Steps Text := do
  let front ← sliceTo source stop
  slice source (((front.lastOffset? (· == '\n')).map (· + 1)).getD 0) stop

/-- The path that an import in a file leads to. -/
def resolve (file imported : Text) : Steps Text := do
  match file.lastOffset? (· == '/') with
  | some slash => return SourcePath.normalize ((← sliceTo file slash) ++ '/' :: imported)
  | none => return SourcePath.normalize imported

/-- The aliases with the one that an import call binds, if it binds one. -/
def bindImport (file source : Text) (aliases : Aliases) (call : Nat × Text) : Steps Aliases := do
  if call.2 ∈ reservedModules then return aliases
  else
    match boundName? (← lineBefore source call.1).reverse with
    | some name => return aliases.bind name (← resolve file call.2)
    | none => return aliases

/-- The aliases that the imports of a file bind. -/
def importAliases (file source : Text) : Steps Aliases :=
  (importsFrom 0 source).foldlM (bindImport file source) []

theorem lineBefore_eq (s t : Text) :
    lineBefore (s ++ t) s.size = pure (s.cutAfterLast (· == '\n')).after := by
  have hwhole := whole_cutAfterLast (· == '\n') s
  have hslice := slice_append (s.cutAfterLast (· == '\n')).before (s.cutAfterLast (· == '\n')).after t
  rw [← List.append_assoc, ← Cut.whole, hwhole] at hslice
  rw [lineBefore, sliceTo_append, pure_bind, size_cutAfterLast_beq rfl, hslice]

/-- A text without a newline belongs to the last line as a whole. -/
theorem exists_line (front : Text) {lead : Text} (hlead : ∀ c ∈ lead, (c == '\n') = false) :
    ∃ rest, rest <:+ front ∧ ((front ++ lead : Text).cutAfterLast (· == '\n')).after = rest ++ lead := by
  obtain ⟨s, d, u, rfl, hd, hu⟩ | hfront := last_cases (· == '\n') front
  · have hafter := List.forall_mem_append.2 ⟨hu, hlead⟩
    refine ⟨u, ⟨s ++ [d], by rw [List.append_assoc, List.singleton_append]⟩, ?_⟩
    rw [List.append_assoc, List.cons_append, cutAfterLast_append (· == '\n') hd hafter]
  · have hwhole := List.forall_mem_append.2 ⟨hfront, hlead⟩
    exact ⟨front, List.suffix_refl front, by rw [cutAfterLast_of_none (· == '\n') hwhole]⟩

/-- The line in front of an import call binds what the text behind the call before it binds. -/
theorem boundName?_line {front : Text} (hfront : ∀ c, front.getLast? = some c → c = ')') (lead : Text) :
    boundName? ((front ++ lead : Text).cutAfterLast (· == '\n')).after.reverse =
      boundName? lead.reverse := by
  obtain ⟨s, d, u, rfl, hd, hu⟩ | hlead := last_cases (· == '\n') lead
  · have hstops : ∀ c ∈ (s ++ [d]).getLast?, IsStopper c := by
      intro c hc
      rw [List.getLast?_concat, eq_of_beq hd] at hc
      cases hc
      exact isStopper_newline
    have hbound := boundName?_behind hstops u
    rw [List.append_assoc, List.singleton_append] at hbound
    rw [← List.append_assoc, cutAfterLast_append (· == '\n') hd hu, hbound]
  · obtain ⟨rest, ⟨more, rfl⟩, hline⟩ := exists_line front hlead
    rw [hline]
    apply boundName?_behind
    intro c hc
    rw [List.getLast?_append, hc] at hfront
    rw [hfront c rfl]
    exact isStopper_closing

/-- Joining an import onto the folder of a file makes no misstep. -/
theorem resolve_eq (file imported : Text) :
    resolve file imported = pure (SourcePath.resolve file imported) := by
  rw [resolve, SourcePath.resolve]
  obtain ⟨s, d, u, rfl, hd, hu⟩ | hfile := last_cases (· == '/') file
  · have hmem : '/' ∈ s ++ d :: u := by
      rw [← eq_of_beq hd]
      exact List.mem_append_right s List.mem_cons_self
    rw [lastOffset?_append (· == '/') hd hu, if_pos hmem, cutAfterLast_append (· == '/') hd hu]
    dsimp only
    rw [sliceTo_append, pure_bind, List.append_assoc, List.singleton_append, eq_of_beq hd]
  · rw [lastOffset?_of_none (· == '/') hfile, if_neg]
    intro hmem
    cases hfile '/' hmem

/-- Binding the alias of an import call makes no misstep. -/
theorem bindImport_eq {front lead rest : Text} (hfront : ∀ c, front.getLast? = some c → c = ')')
    (file path : Text) (aliases : Aliases) :
    bindImport file (front ++ (lead ++ rest)) aliases (front.size + lead.size, path) =
      pure (if path ∈ reservedModules then aliases
        else
          match boundName? lead.reverse with
          | some name => aliases.bind name (SourcePath.resolve file path)
          | none => aliases) := by
  have hline := lineBefore_eq (front ++ lead) rest
  rw [List.append_assoc, size_append] at hline
  rw [bindImport, hline, pure_bind, boundName?_line hfront]
  dsimp only
  split
  · rfl
  · split
    · rw [resolve_eq, pure_bind]
    · rfl

/-- Collecting the aliases from an offset on makes no misstep. -/
theorem foldlM_importsFrom {front t : Text} (hfront : ∀ c, front.getLast? = some c → c = ')')
    (file : Text) (aliases : Aliases) :
    (importsFrom front.size t).foldlM (bindImport file (front ++ t)) aliases =
      pure ((importCalls t).foldl
        (fun aliases call =>
          if call.path ∈ reservedModules then aliases
          else
            match boundName? call.lead.reverse with
            | some name => aliases.bind name (SourcePath.resolve file call.path)
            | none => aliases)
        aliases) := by
  fun_induction importCalls t generalizing front aliases with
  | case1 t hcut =>
    rw [importsFrom_eq, hcut]
    rfl
  | case2 t cut hcut hread =>
    rw [importsFrom_eq, hcut]
    dsimp only
    rw [hread]
    rfl
  | case3 t cut hcut path rest hread ih =>
    obtain ⟨call, hcall⟩ := suffix_of_readImport? hread
    have hwhole := whole_of_cutWhere _ hcut
    rw [Cut.whole] at hwhole
    have ht : cut.before ++ (call ++ [')']) ++ rest = t := by
      rw [← hwhole, ← hcall]
      simp only [List.append_assoc, List.cons_append, List.nil_append]
    have hrest : front ++ (cut.before ++ (call ++ [')'])) ++ rest = front ++ t := by
      rw [List.append_assoc, ht]
    have hcursor : front.size + (t.size - rest.size) =
        (front ++ (cut.before ++ (call ++ [')']))).size := by
      rw [← ht, size_append, Nat.add_sub_cancel, size_append front]
    have hlast : ∀ c, (front ++ (cut.before ++ (call ++ [')']))).getLast? = some c → c = ')' := by
      intro c hc
      rw [← List.append_assoc, ← List.append_assoc, List.getLast?_concat] at hc
      exact (Option.some.inj hc).symm
    rw [importsFrom_eq, hcut]
    dsimp only
    rw [hread]
    dsimp only
    rw [List.foldlM_cons, List.foldl_cons, ← hwhole, bindImport_eq hfront, pure_bind, hwhole, hcursor,
      ← hrest]
    exact ih hlast _

/-- Collecting the aliases of a file makes no misstep. -/
theorem importAliases_eq (file source : Text) :
    importAliases file source = pure (ClassFlattening.importAliases file source) := by
  have hfold : (importsFrom (size []) source).foldlM (bindImport file ([] ++ source)) [] = _ :=
    foldlM_importsFrom (by intro c h; cases h) file []
  exact hfold

end ByOffset

end ClassFlattening
