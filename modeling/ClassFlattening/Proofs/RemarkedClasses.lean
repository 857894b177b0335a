import ClassFlattening.Proofs.RemarkedMembers

/-!
# Comments in declarations

A comment in the body of a declaration leaves it a declaration, of the same name and with the members that the
body has then. Of the places at which a declaration is written on lines of its own, only the one in front of a
member is free: what stands behind a comment in a list of the body is not read as what it is.
-/

namespace ClassFlattening

open Text

/-- The source from the marker of a site on. -/
def Site.behind (site : Site) : Text := site.opening ++ '{' :: (site.body ++ (site.closing ++ site.rest))

/-- A site with a comment in its body. -/
def Site.remarked (site : Site) (note s t : Text) : Site := { site with body := s ++ (remark note ++ t) }

/-- A class with the members that its body has with a comment in it. -/
def Class.remarked (c : Class) (note : Text) (members : List Member) : Class :=
  { c.withMembers members with span := ⟨c.span.start, c.span.stop + (remark note).size⟩ }

section Sites

variable {site : Site} {file : Text} {front : Front} {c : Class} {s t note : Text}

/-- A site is read with a comment in its body. -/
theorem Site.read?_remarked (h : Site.read? front marker (site.behind.drop marker.length) = some site)
    (hbody : site.body = s ++ t) (hs : s.EndsInCode) (hnote : '\n' ∉ note) :
    Site.read? front marker ((site.remarked note s t).behind.drop marker.length) =
      some (site.remarked note s t) := by
  have hbraces := site.cutAtMatching?_of_read? h
  obtain ⟨-, -, ⟨between, hopening⟩, ⟨through, hclosing⟩, -⟩ := Site.pieces_of_read? h
  have hdrop (body : Text) :
      (site.opening ++ '{' :: (body ++ (site.closing ++ site.rest))).drop marker.length =
        between ++ '{' :: (body ++ '}' :: (through ++ (terminator ++ site.rest))) := by
    rw [hopening, hclosing, List.append_assoc, List.drop_left]
    simp
  have hbehind : site.closing ++ site.rest = '}' :: (through ++ (terminator ++ site.rest)) := by
    rw [hclosing]
    simp
  rw [hbehind] at hbraces
  rw [Site.behind, hdrop, Site.read?] at h
  rw [Site.behind, show (site.remarked note s t).opening = site.opening from rfl,
    show (site.remarked note s t).closing = site.closing from rfl,
    show (site.remarked note s t).rest = site.rest from rfl, hdrop, Site.read?]
  simp only [Option.bind_eq_bind, Option.bind_eq_some_iff] at h ⊢
  obtain ⟨opened, hopened, closed, hclosed, ended, hended, h⟩ := h
  have hbetween : opened.before = between := by
    have hsame := congrArg Site.opening (Option.some.inj h)
    rw [hopening] at hsame
    exact List.append_cancel_left hsame
  have hfirst : ∀ d ∈ between, (d == '{') = false := hbetween ▸ forall_of_cutAtFirst? hopened
  rw [cutAtFirst?_self hfirst rfl] at hopened
  cases hopened
  rw [List.cons_append] at hbraces
  have hclosed' : closed = ⟨'{' :: site.body, '}' :: (through ++ (terminator ++ site.rest))⟩ :=
    Option.some.inj (hclosed.symm.trans hbraces)
  subst hclosed'
  rw [hbody] at hbraces
  refine ⟨_, cutAtFirst?_self hfirst rfl, ⟨'{' :: (s ++ (remark note ++ t)), _⟩, ?_, ended, hended, ?_⟩
  · exact cutAtMatching?_insert_remark rfl rfl (by decide) hnote hs hbraces
  · exact congrArg (fun other : Site => some (other.remarked note s t)) (Option.some.inj h)

/-- The class of a site with a comment in its body. -/
theorem Site.class?_remarked (h : site.class? file = some c) (hbody : site.body = s ++ t) :
    (site.remarked note s t).class? file = some (c.remarked note (Member.readAll (s ++ (remark note ++ t)))) := by
  have hstop : (site.remarked note s t).stop = site.stop + (remark note).size := by
    simp only [Site.stop, Site.bodyClose, Site.bodyOpen, Site.markerOffset, Site.start, Site.remarked, hbody,
      size_append]
    omega
  simp only [Site.class?, Option.bind_eq_bind, Option.bind_eq_some_iff] at h ⊢
  obtain ⟨binding, hbinding, bound, hbound, h⟩ := h
  split at h
  · cases h
  · next hname =>
    refine ⟨binding, hbinding, bound, hbound, ?_⟩
    rw [if_neg hname, ← Option.some.inj h, hstop]
    rfl

/-- A declaration with a comment in its body declares a class with the members that the body has then. -/
theorem declaredAt?_remarked (h : declaredAt? file front site.behind = some (site, c)) (hbody : site.body = s ++ t)
    (hs : s.EndsInCode) (hnote : '\n' ∉ note) :
    declaredAt? file front (site.remarked note s t).behind =
      some (site.remarked note s t, c.remarked note (Member.readAll (s ++ (remark note ++ t)))) := by
  rw [declaredAt?_eq_some_iff] at h ⊢
  exact ⟨Site.read?_remarked h.1 hbody hs hnote, Site.class?_remarked h.2 hbody⟩

/-- What adds nothing to a class may be among its members. -/
theorem Class.withMembers_nothing (c : Class) (members more : List Member) :
    c.withMembers (members ++ .nothing :: more) = c.withMembers (members ++ more) := by
  simp only [withMembers, List.filterMap_append]
  rfl

/-- A declared class has the members of its body. -/
theorem withMembers_of_declaredAt? (h : declaredAt? file front site.behind = some (site, c)) :
    c.withMembers (Member.readAll site.body) = c := by
  obtain ⟨name, visibility, rfl⟩ := Site.eq_of_class? (declaredAt?_eq_some_iff.1 h).2
  rfl

end Sites

/-- A member's start in the body of a site: the text in front of it, which ends in code, the text from it on, and
the members in front of it, which are read to ends of their own. -/
structure MemberPlace (site : Site) (lead rest : Text) (members : List Member) : Prop where
  body : site.body = lead ++ rest
  code : lead.EndsInCode
  reached : WalksTo rest site.body members
  more : rest ≠ []

namespace MemberPlace

variable {site : Site} {lead rest text : Text} {members : List Member} {member : Member}

/-- The members in front of a place do not depend on what stands there. -/
theorem readAll (h : MemberPlace site lead rest members) (t : Text) :
    Member.readAll (lead ++ t) = members ++ Member.readAll t :=
  WalksTo.readAll (h.body ▸ h.reached) h.more t

/-- What is read from a place on is a member of the body. -/
theorem readAll_member (h : MemberPlace site lead rest members) (hhead : text.head? = rest.head?)
    (hread : ∀ t, Member.read (text ++ t) = (member, t)) (t : Text) :
    Member.readAll (lead ++ (text ++ t)) = members ++ member :: Member.readAll t := by
  have hsettled : Settled text member := ⟨fun c hc => h.reached.head c (hhead ▸ hc), hread⟩
  rw [h.readAll, ← List.nil_append (text ++ t), hsettled.readAll_append rfl]

end MemberPlace

/-- Whether a declaration with a comment at a place of its body is one of the same class, with these members. -/
def RemarkedAs (file : Text) (front : Front) (site : Site) (c : Class) (note s t : Text) (members : List Member) :
    Prop :=
  declaredAt? file front (site.remarked note s t).behind = some (site.remarked note s t, c.remarked note members)

/-- How a declaration is read with a comment on a line of its own at a place of its body, and how without it. -/
structure RemarksRead (file : Text) (front : Front) (site : Site) (c : Class) (note : Text) : Prop where
  /-- In front of a member it changes nothing but the end of the declaration. -/
  member {lead rest : Text} {members : List Member} :
    MemberPlace site lead rest members →
      declaredAt? file front (site.remarked note lead rest).behind =
        some (site.remarked note lead rest, { c with span := ⟨c.span.start, c.span.stop + (remark note).size⟩ })
  /-- In front of an entry of the properties it takes the entry away. -/
  entry {lead rest t : Text} {members : List Member} {b : Listing} {f : ListFront} :
    MemberPlace site lead (b.text ++ ';' :: rest) members → b.BindsProperties → b.inner = f.text ++ t →
      Member.readAll site.body =
        members ++ .properties ((f.elements.map trim ++ t.topLevelPieces ',').filterMap readProperty?) ::
          Member.readAll rest ∧
      RemarkedAs file front site c note (lead ++ b.upTo f.text) (b.onFrom t ++ ';' :: rest)
        (members ++ .properties ((f.elements.map trim ++ (t.topLevelPieces ',').tail).filterMap readProperty?) ::
          Member.readAll rest)
  /-- In front of an option of an entry it takes the option away. -/
  option {lead rest t : Text} {back : Option Text} {members : List Member} {b e : Listing} {f g : ListFront} :
    MemberPlace site lead (b.text ++ ';' :: rest) members → b.BindsProperties →
      b.inner = f.text ++ (e.text ++ onwards back) → e.IsRead → e.text.Passable (· == ',') →
      isIdentifier (entryName e.head) = true → e.inner = g.text ++ t →
      Member.readAll site.body =
        members ++ .properties ((f.elements.map trim).filterMap readProperty? ++
          (Property.ofOptions? (entryName e.head) (g.elements.map trim ++ t.topLevelPieces ',')).toList ++
          (back.map listedProperties).getD []) :: Member.readAll rest ∧
      RemarkedAs file front site c note (lead ++ b.upTo (f.text ++ e.upTo g.text))
        (b.onFrom (e.onFrom t ++ onwards back) ++ ';' :: rest)
        (members ++ .properties ((f.elements.map trim).filterMap readProperty? ++
          (Property.ofOptions? (entryName e.head) (g.elements.map trim ++ (t.topLevelPieces ',').tail)).toList ++
          (back.map listedProperties).getD []) :: Member.readAll rest)
  /-- In front of a mixin it takes the list away, and what stands in front of it up to the equality sign is the
  only reference. -/
  reference {lead rest t : Text} {members : List Member} {b : Listing} {f : ListFront} :
    MemberPlace site lead (b.text ++ ';' :: rest) members → b.BindsMixins → b.inner = f.text ++ t →
      '"' ∉ b.lead ++ '{' :: f.text → Text.contains (b.lead ++ '{' :: f.text) "//".toList = false → '}' ∉ f.text →
      Member.readAll site.body =
        members ++ .mixins (readReferences b.value.dropTrailingComment.trim) :: Member.readAll rest ∧
      RemarkedAs file front site c note (lead ++ b.upTo f.text) (b.onFrom t ++ ';' :: rest)
        (members ++ .mixins [trim (b.lead ++ '{' :: f.text)] :: Member.readAll rest)
  /-- In front of the first parameter it makes the function one without an instance. -/
  parameter {lead rest blanks t : Text} {members : List Member} {p : MethodPieces} :
    MemberPlace site lead (p.text ++ rest) members → p.IsRead → p.params = blanks ++ t → blanks.allBlank = true →
      Member.readAll site.body = members ++ .method p.method :: Member.readAll rest ∧
      ∃ m : Method, m.name = p.method.name ∧ m.isStatic = true ∧
        RemarkedAs file front site c note (lead ++ p.upTo blanks) (p.onFrom t ++ rest)
          (members ++ .method m :: Member.readAll rest)

section Positions

variable {site : Site} {file : Text} {front : Front} {c : Class} {lead rest s t note : Text}
  {members : List Member} {b : Listing} {member : Member}

/-- A text starts with the same character whatever stands behind one of its characters. -/
theorem head?_append_cons (s : Text) (c : Char) (t u : Text) : (s ++ c :: t).head? = (s ++ c :: u).head? := by
  cases s <;> rfl

/-- A binding with a list at a place of the body. -/
theorem MemberPlace.readAll_binding (h : MemberPlace site lead (b.text ++ ';' :: rest) members) {l : Listing}
    (hhead : l.head = b.head) (hread : ∀ t, Member.read (l.text ++ ';' :: t) = (member, t)) :
    Member.readAll (lead ++ (l.text ++ ';' :: rest)) = members ++ member :: Member.readAll rest := by
  have hstart : (l.text ++ [';']).head? = (b.text ++ ';' :: rest).head? := by
    rw [Listing.text, Listing.text, hhead, List.append_assoc, List.append_assoc]
    exact head?_append_cons _ _ _ _
  have hall := h.readAll_member hstart (fun t => by rw [List.append_assoc]; exact hread t) rest
  rwa [List.append_assoc] at hall

/-- A declaration with a comment in the list of a binding. -/
theorem MemberPlace.remarkedAs_binding (h : MemberPlace site lead (b.text ++ ';' :: rest) members)
    (hsite : declaredAt? file front site.behind = some (site, c)) (hb : b.IsRead) (hinner : b.inner = s ++ t)
    (hs : s.EndsInCode) (hnote : '\n' ∉ note)
    (hread : ∀ more, Member.read ((b.remarked note s t).text ++ ';' :: more) = (member, more)) :
    RemarkedAs file front site c note (lead ++ b.upTo s) (b.onFrom t ++ ';' :: rest)
      (members ++ member :: Member.readAll rest) := by
  have hbody : site.body = (lead ++ b.upTo s) ++ (b.onFrom t ++ ';' :: rest) := by
    rw [h.body, Listing.text_eq hinner]
    simp only [List.append_assoc]
  have hplace : (lead ++ b.upTo s).EndsInCode := h.code.append (hb.endsInCode hs).2
  have hall := h.readAll_binding (l := b.remarked note s t) rfl hread
  rw [Listing.text_remarked] at hall
  rw [RemarkedAs, declaredAt?_remarked hsite hbody hplace hnote, ← hall]
  simp only [List.append_assoc]

/-- The properties of a list from a place in it on. -/
theorem listedProperties_text (f : ListFront) (t : Text) :
    listedProperties (f.text ++ t) = (f.elements.map trim ++ t.topLevelPieces ',').filterMap readProperty? := by
  rw [listedProperties, f.topLevelPieces_text]

/-- The properties of a list with a comment in it. -/
theorem listedProperties_remark (f : ListFront) (hnote : '\n' ∉ note) (t : Text) :
    listedProperties (f.text ++ (remark note ++ t)) =
      (f.elements.map trim ++ (t.topLevelPieces ',').tail).filterMap readProperty? := by
  obtain ⟨more, hmore⟩ := f.topLevelPieces_remark hnote t
  rw [listedProperties, hmore, List.filterMap_append, List.filterMap_append,
    List.filterMap_cons_none (readProperty?_of_slash more)]

/-- The property that the options of a list make with a comment in it. -/
theorem ofOptions?_remark (name : Text) (g : ListFront) (hnote : '\n' ∉ note) (t : Text) :
    Property.ofOptions? name ((g.text ++ (remark note ++ t)).topLevelPieces ',') =
      Property.ofOptions? name (g.elements.map trim ++ (t.topLevelPieces ',').tail) := by
  obtain ⟨more, hmore⟩ := g.topLevelPieces_remark hnote t
  rw [hmore, Property.ofOptions?, Property.ofOptions?, List.foldl_append, List.foldl_append, List.foldl_cons,
    withOption_of_slash]

/-- The properties of a list with a listing in it. -/
theorem listedProperties_listing (f : ListFront) {e : Listing} (he : e.IsRead) (hpass : e.text.Passable (· == ','))
    (hname : isIdentifier (entryName e.head) = true) (back : Option Text) :
    listedProperties (f.text ++ (e.text ++ onwards back)) =
      (f.elements.map trim).filterMap readProperty? ++
        (Property.ofOptions? (entryName e.head) (e.inner.topLevelPieces ',')).toList ++
        (back.map listedProperties).getD [] := by
  rw [listedProperties_text, topLevelPieces_onwards hpass, List.filterMap_append, List.append_assoc,
    List.filterMap_cons, he.readProperty?_text hname]
  cases back <;> cases Property.ofOptions? (entryName e.head) (e.inner.topLevelPieces ',') <;> rfl

/-- Properties are bound with a comment in front of an option of an entry, but for the option. -/
theorem Listing.BindsProperties.read_remarked_option (h : b.BindsProperties) {e : Listing} {f g : ListFront}
    {back : Option Text} (hinner : b.inner = f.text ++ (e.text ++ onwards back)) (he : e.IsRead)
    (hpass : e.text.Passable (· == ',')) (hname : isIdentifier (entryName e.head) = true)
    (hoptions : e.inner = g.text ++ t) (hnote : '\n' ∉ note) (more : Text) :
    Member.read ((b.remarked note (f.text ++ e.upTo g.text) (e.onFrom t ++ onwards back)).text ++ ';' :: more) =
      (.properties ((f.elements.map trim).filterMap readProperty? ++
        (Property.ofOptions? (entryName e.head) (g.elements.map trim ++ (t.topLevelPieces ',').tail)).toList ++
        (back.map listedProperties).getD []), more) := by
  have hinner' : b.inner = (f.text ++ e.upTo g.text) ++ (e.onFrom t ++ onwards back) := by
    rw [hinner, Listing.text_eq hoptions]
    simp only [List.append_assoc]
  have hcode := f.endsInCode.append (he.endsInCode g.endsInCode).2
  have hentry := he.remarked hoptions g.endsInCode hnote
  have hentryPass := he.passable_remarked hoptions g.endsInCode hnote rfl hpass
  have hlist : (b.remarked note (f.text ++ e.upTo g.text) (e.onFrom t ++ onwards back)).inner =
      f.text ++ ((e.remarked note g.text t).text ++ onwards back) := by
    rw [Listing.text_remarked, Listing.remarked]
    simp only [List.append_assoc]
  have hread : Property.ofOptions? (entryName e.head) ((e.remarked note g.text t).inner.topLevelPieces ',') =
      Property.ofOptions? (entryName e.head) (g.elements.map trim ++ (t.topLevelPieces ',').tail) :=
    ofOptions?_remark _ g hnote t
  rw [(h.remarked hinner' hcode hnote).read, hlist, listedProperties_listing f hentry hentryPass hname]
  rw [show (e.remarked note g.text t).head = e.head from rfl, hread]

/-- A declaration with a comment in front of the first parameter of a function. -/
theorem MemberPlace.remarkedAs_method {p : MethodPieces} {blanks : Text}
    (h : MemberPlace site lead (p.text ++ rest) members) (hsite : declaredAt? file front site.behind = some (site, c))
    (hp : p.IsRead) (hparams : p.params = blanks ++ t) (hblanks : blanks.allBlank = true) (hnote : '\n' ∉ note) :
    Member.readAll site.body = members ++ .method p.method :: Member.readAll rest ∧
      RemarkedAs file front site c note (lead ++ p.upTo blanks) (p.onFrom t ++ rest)
        (members ++ .method (p.remarked note blanks t).method :: Member.readAll rest) := by
  have hhead (q : MethodPieces) (hq : q.qualifiers = p.qualifiers) : q.text.head? = (p.text ++ rest).head? := by
    rw [← List.append_nil q.text, q.text_append, p.text_append, hq]
    exact head?_append_cons _ _ _ _
  refine ⟨by rw [h.body, h.readAll_member (hhead p rfl) hp.read_text], ?_⟩
  have hbody : site.body = (lead ++ p.upTo blanks) ++ (p.onFrom t ++ rest) := by
    rw [h.body, p.text_eq hparams]
    simp only [List.append_assoc]
  have hcode : (lead ++ p.upTo blanks).EndsInCode := h.code.append (hp.endsInCode hblanks)
  have hall := h.readAll_member (hhead (p.remarked note blanks t) rfl)
    (hp.remarked hparams hblanks hnote).read_text rest
  rw [MethodPieces.text_remarked] at hall
  rw [RemarkedAs, declaredAt?_remarked hsite hbody hcode hnote, ← hall]
  simp only [List.append_assoc]

/-- A comment on a line of its own in the body of a declaration is passed over in front of a member. In front of an
element of a list it takes the element with it: an entry or an option is lost, the mixins are, and a function
loses its instance. -/
theorem remarks_read {more : Text} (hnote : '\n' ∉ note)
    (h : declaredAt? file front (marker ++ more) = some (site, c)) : RemarksRead file front site c note := by
  have hmore : marker ++ more = site.behind := by
    obtain ⟨-, -, -, -, hpieces⟩ := Site.pieces_of_read? (declaredAt?_eq_some_iff.1 h).1
    rw [List.drop_left] at hpieces
    rw [← hpieces, Site.behind]
    simp only [List.append_assoc, List.cons_append]
  rw [hmore] at h
  exact {
    member := by
      intro lead rest members hplace
      have hsame : Member.readAll (lead ++ (remark note ++ rest)) =
          members ++ .nothing :: Member.readAll rest := by
        rw [hplace.readAll, ← List.nil_append (remark note ++ rest), (settled_remark hnote).readAll_append rfl]
      have hall : Member.readAll site.body = members ++ Member.readAll rest := by
        rw [hplace.body, hplace.readAll]
      have hwith : c.withMembers (Member.readAll (lead ++ (remark note ++ rest))) = c := by
        rw [hsame, Class.withMembers_nothing, ← hall, withMembers_of_declaredAt? h]
      rw [declaredAt?_remarked h hplace.body hplace.code hnote, Class.remarked, hwith]
    entry := by
      intro lead rest t members b f hplace hb hinner
      have hread := hplace.readAll_binding (l := b) rfl hb.read
      rw [hinner, listedProperties_text] at hread
      refine ⟨by rw [hplace.body, hread], ?_⟩
      refine hplace.remarkedAs_binding h hb.toIsRead hinner f.endsInCode hnote fun more => ?_
      rw [(hb.remarked hinner f.endsInCode hnote).read, Listing.remarked, listedProperties_remark f hnote]
    option := by
      intro lead rest t back members b e f g hplace hb hinner he hpass hname hoptions
      have hread := hplace.readAll_binding (l := b) rfl hb.read
      rw [hinner, listedProperties_listing f he hpass hname, hoptions, g.topLevelPieces_text] at hread
      refine ⟨by rw [hplace.body, hread], ?_⟩
      have hinner' : b.inner = (f.text ++ e.upTo g.text) ++ (e.onFrom t ++ onwards back) := by
        rw [hinner, Listing.text_eq hoptions]
        simp only [List.append_assoc]
      have hcode := f.endsInCode.append (he.endsInCode g.endsInCode).2
      exact hplace.remarkedAs_binding h hb.toIsRead hinner' hcode hnote
        (hb.read_remarked_option hinner he hpass hname hoptions hnote)
    reference := by
      intro lead rest t members b f hplace hb hinner hquote hslashes hbrace
      have hread := hplace.readAll_binding (l := b) rfl hb.read
      refine ⟨by rw [hplace.body, hread], ?_⟩
      exact hplace.remarkedAs_binding h hb.toIsRead hinner f.endsInCode hnote
        (hb.read_remarked hinner f.endsInCode f.passable_text hnote hquote hslashes hbrace)
    parameter := by
      intro lead rest blanks t members p hplace hp hparams hblanks
      obtain ⟨hname, hstatic⟩ := p.method_remarked hblanks hnote t
      obtain ⟨hread, hremarked⟩ := hplace.remarkedAs_method h hp hparams hblanks hnote
      exact ⟨hread, (p.remarked note blanks t).method, hname, hstatic, hremarked⟩ }

end Positions

/-- The binding of one property. -/
def lampProperties : Listing :=
  ⟨"pub const properties ".toList, " .".toList, " .id = .\x7b .type = u64 \x7d ".toList, []⟩

/-- A declaration with a field and one property. -/
def lampSite : Site where
  lead := .empty
  header := "const Lamp = ".toList
  opening := marker ++ "struct ".toList
  body := " level: u8, ".toList ++ (lampProperties.text ++ [';', ' '])
  closing := "\x7d);".toList
  rest := []

/-- The class that is declared. -/
def lamp : Class :=
  Class.withMembers ⟨"Lamp".toList, none, [], [], [], [], [], [], ⟨0, lampSite.stop⟩, "m.zig".toList⟩
    [.field ⟨"level".toList, "u8".toList, none⟩, .properties [⟨"id".toList, "u64".toList, none, .readWrite⟩]]

theorem bindsProperties_lampProperties : lampProperties.BindsProperties where
  head := by decide
  lead := by decide
  head_code := endsInCode_of_all (forall_of_all (by decide))
  lead_code := endsInCode_of_all (forall_of_all (by decide))
  inner := by decide +kernel
  start := by decide +kernel
  name := by decide +kernel
  text := by decide +kernel

/-- The place of the properties in the declaration. -/
theorem place_lampProperties : MemberPlace lampSite " level: u8, ".toList (lampProperties.text ++ [';', ' '])
    [.field ⟨"level".toList, "u8".toList, none⟩] where
  body := rfl
  code := endsInCode_of_all (forall_of_all (by decide))
  reached := by
    have hread : Member.read ("level: u8, ".toList ++ (lampProperties.text ++ [';', ' '])) =
        (.field ⟨"level".toList, "u8".toList, none⟩, ' ' :: (lampProperties.text ++ [';', ' '])) := by
      decide +kernel
    have hends : EndsItself ("level: u8, ".toList ++ (lampProperties.text ++ [';', ' '])) := by
      rw [EndsItself, hread]
      exact Or.inl (by decide)
    have hbehind : WalksTo (lampProperties.text ++ [';', ' '])
        (Member.read ("level: u8, ".toList ++ (lampProperties.text ++ [';', ' ']))).2 [] :=
      .here (by rw [hread]; decide +kernel)
    have hstart : lampSite.body.trimStart = "level: u8, ".toList ++ (lampProperties.text ++ [';', ' ']) := by
      decide +kernel
    have hstep := WalksTo.step hstart (by decide) hends hbehind
    rwa [hread] at hstep
  more := by decide

/-- What stands behind the marker of the declaration. -/
def lampText : Text :=
  "struct \x7b level: u8, ".toList ++ "pub const properties = .\x7b .id = .\x7b .type = u64 \x7d \x7d; \x7d);".toList

/-- A comment in front of the only property of a class leaves the class without properties. -/
theorem remarks_read_lamp :
    '\n' ∉ " the id".toList ∧
      declaredAt? "m.zig".toList (.ofText "const Lamp = ".toList) (marker ++ lampText) = some (lampSite, lamp) ∧
      RemarkedAs "m.zig".toList (.ofText "const Lamp = ".toList) lampSite lamp " the id".toList
        " level: u8, pub const properties = .\x7b ".toList ".id = .\x7b .type = u64 \x7d \x7d; ".toList
        [.field ⟨"level".toList, "u8".toList, none⟩, .properties []] := by
  have hnote : '\n' ∉ " the id".toList := by decide
  have hsite : declaredAt? "m.zig".toList (.ofText "const Lamp = ".toList) (marker ++ lampText) =
      some (lampSite, lamp) := by
    decide +kernel
  refine ⟨hnote, hsite, ?_⟩
  have hlead : " level: u8, ".toList ++ lampProperties.upTo " ".toList =
      " level: u8, pub const properties = .\x7b ".toList := by decide
  have hrest : lampProperties.onFrom ".id = .\x7b .type = u64 \x7d ".toList ++ [';', ' '] =
      ".id = .\x7b .type = u64 \x7d \x7d; ".toList := by decide
  have hmembers : [.field ⟨"level".toList, "u8".toList, none⟩] ++
      Member.properties ((topLevelPieces ".id = .\x7b .type = u64 \x7d ".toList ',').tail.filterMap readProperty?) ::
        Member.readAll [' '] = [.field ⟨"level".toList, "u8".toList, none⟩, .properties []] := by decide +kernel
  rw [← hlead, ← hrest, ← hmembers]
  exact ((remarks_read hnote hsite).entry (f := ⟨[], " ".toList, by simp, rfl⟩)
    (t := ".id = .\x7b .type = u64 \x7d ".toList) place_lampProperties bindsProperties_lampProperties rfl).2

/-- The classes of a source that declares one with a body of these lines. -/
def classesWith (lines : List String) : List Class :=
  (scan "m.zig".toList ("const A = zoop.class(struct \x7b\n".toList ++
    (lines.flatMap fun line => line.toList ++ ['\n']) ++ "\x7d);".toList)).filterMap Finding.class?

/-- A comment in front of an entry takes the property away, one in front of its access makes it writable, one in
front of a mixin takes the mixin away, and one in front of the instance makes the function static. -/
theorem remarks_misread :
    (classesWith ["pub const properties = .\x7b", "// the id", ".id = .\x7b .type = u64,",
        ".access = .read_only \x7d,", "\x7d;"]).map Class.properties = [[]] ∧
      (classesWith ["pub const properties = .\x7b", ".id = .\x7b .type = u64,", "// fixed",
        ".access = .read_only \x7d,", "\x7d;"]).map Class.properties =
          [[⟨"id".toList, "u64".toList, none, .readWrite⟩]] ∧
      (classesWith ["pub const properties = .\x7b", ".id = .\x7b .type = u64,",
        ".access = .read_only \x7d,", "\x7d;"]).map Class.properties =
          [[⟨"id".toList, "u64".toList, none, .readOnly⟩]] ∧
      (classesWith ["pub const mixins = .\x7b", "// moves", "Mover,", "\x7d;"]).map Class.mixins = [[".\x7b".toList]] ∧
      (classesWith ["pub const mixins = .\x7b", "Mover,", "\x7d;"]).map Class.mixins = [["Mover".toList]] ∧
      ((classesWith ["pub fn get(", "// the owner", "self: *A,", ") u8 \x7b return 1; \x7d"]).flatMap
        Class.methods).map Method.isStatic = [true] ∧
      ((classesWith ["pub fn get(", "self: *A,", ") u8 \x7b return 1; \x7d"]).flatMap
        Class.methods).map Method.isStatic = [false] := by
  decide +kernel

end ClassFlattening
