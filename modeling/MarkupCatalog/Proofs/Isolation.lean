import MarkupCatalog.Proofs.Surroundings

/-!
# Isolation

The body of a method and the value of a field are code that the class around them does not look
into.  Whatever this code is replaced by, the classes outside define the same, and what a tree
defines is what the classes before the code, in it and behind it define, in this order.
-/

namespace MarkupCatalog

/-! ## 1. One node in place of another -/

/-- Whether the text of a node is read that has a child of kind `inner`. -/
def Frame.isRead (f : Frame) (inner : Kind) : Bool :=
  (Tree.node f.kind none "" [.leaf inner ""]).isVerbatim

def Frame.withText (f : Frame) (s : String) : Frame := { f with text := s }

@[simp]
theorem Frame.before_withText (f : Frame) (s : String) : (f.withText s).before = f.before := rfl

@[simp]
theorem Frame.after_withText (f : Frame) (s : String) : (f.withText s).after = f.after := rfl

/-- The same nodes around a node of kind `inner`, with other texts where these are not read. -/
inductive Frame.Retexted : Kind → List Frame → List Frame → Prop
  | nil {inner} : Retexted inner [] []
  | cons {inner f fs gs} (s : String) (text : f.isRead inner = true → s = f.text)
      (rest : Retexted f.kind fs gs) : Retexted inner (f :: fs) (f.withText s :: gs)

/-- Two nodes in the same place: what is read of the nodes around them is the same. -/
inductive Facing : List Tree → List Tree → List Frame → List Frame → Tree → Tree → Prop
  | root {t u : Tree} : Facing [] [] [] [] t u
  | inside {before after : List Tree} {f : Frame} {fs gs : List Frame} {t u : Tree} {s : String}
      (kind : u.kind = t.kind) (text : t.kind = .comment → u.text = t.text)
      (faces : (f.plug before after t).Faces ((f.withText s).plug before after u))
      (up : Facing f.before f.after fs gs (f.plug before after t)
        ((f.withText s).plug before after u)) :
      Facing before after (f :: fs) (f.withText s :: gs) t u

namespace Facing

variable {before after : List Tree} {above above' : List Frame} {t u : Tree}

theorem sameAround (h : Facing before after above above' t u) :
    Site.SameAround (Tree.aroundIn (before.reverse ++ t :: after) above)
      (Tree.aroundIn (before.reverse ++ u :: after) above') := by
  cases h with
  | root => exact .refl none
  | inside kind text faces up => exact Site.sameAround_children faces rfl

theorem outward {f : Frame} {fs : List Frame} (h : Facing before after (f :: fs) above' t u) :
    ∃ (s : String) (gs : List Frame), above' = f.withText s :: gs ∧
      (f.plug before after t).Faces ((f.withText s).plug before after u) ∧
      Facing f.before f.after fs gs (f.plug before after t)
        ((f.withText s).plug before after u) := by
  cases h with
  | inside kind text faces up => exact ⟨_, _, rfl, faces, up⟩

theorem rooted (h : Facing before after above above' t u) :
    Frame.Rooted before after above ∧ Frame.Rooted before after above' := by
  induction h with
  | root => exact ⟨⟨rfl, rfl⟩, ⟨rfl, rfl⟩⟩
  | inside kind text faces up ih => exact ih

theorem readings_sitesBefore (h : Facing before after above above' t u) (heard : String → Bool) :
    Site.readings heard (Tree.sitesBefore before after above' u) =
      Site.readings heard (Tree.sitesBefore before after above t) := by
  induction h with
  | root => rfl
  | @inside before after f fs gs t u s kind text faces up ih =>
    -- before the node come what is before its parent, the parent and the siblings on the left
    have hrun : (Tree.commentRun f.before).map Tree.text = _ := rfl
    have hnone : [].map Tree.text = [].map Tree.text := rfl
    have hbefore := Tree.readings_sitesOf_congr heard hnone
      (Site.sameAround_children faces hrun) before.reverse
    have hup (hclass : f.kind.isClass = true) :=
      Site.reading_congr heard faces hclass hrun up.sameAround
    rw [Tree.sitesBefore, Tree.sitesBefore, Site.readings_append, Site.readings_append,
      Site.readings_cons, Site.readings_cons]
    simp only [Frame.before_withText, Frame.after_withText]
    rw [ih, hbefore]
    show _ ++ (if f.kind.isClass = true then _ else _) =
      _ ++ if f.kind.isClass = true then _ else _
    by_cases hclass : f.kind.isClass = true
    · rw [if_pos hclass, if_pos hclass, hup hclass]
    · rw [if_neg hclass, if_neg hclass]

theorem readings_sitesBehind (h : Facing before after above above' t u) (heard : String → Bool) :
    Site.readings heard (Tree.sitesBehind before after above' u) =
      Site.readings heard (Tree.sitesBehind before after above t) := by
  induction h with
  | root => rfl
  | @inside before after f fs gs t u s kind text faces up ih =>
    -- a comment may stand right before what follows it
    have hrun : (u.extendRun (Tree.commentRun before)).map Tree.text =
        (t.extendRun (Tree.commentRun before)).map Tree.text := by
      unfold Tree.extendRun Tree.isNamed Tree.isComment
      rw [kind]
      by_cases hk : t.kind = .comment
      · rw [hk]
        exact congrArg (· :: _) (text hk)
      · rw [beq_eq_false_iff_ne.mpr hk]
        split <;> rfl
    have houter : (Tree.commentRun f.before).map Tree.text = _ := rfl
    have hafter := Tree.readings_sitesOf_congr heard hrun (Site.sameAround_children faces houter)
      after
    rw [Tree.sitesBehind, Tree.sitesBehind, Site.readings_append, Site.readings_append]
    simp only [Frame.before_withText, Frame.after_withText]
    rw [ih, hafter]

end Facing

namespace Tree

/-- The same is left of two trees in their outlines, wherever they stand. -/
def SameOutline (t u : Tree) : Prop := ∀ p : Standing, t.outline p = u.outline p

namespace SameOutline

variable {t u : Tree}

theorem kind (h : SameOutline t u) : u.kind = t.kind := by
  have hkind := congrArg Tree.kind (h .elsewhere)
  rw [kind_outline, kind_outline] at hkind
  exact hkind.symm

theorem faces (h : SameOutline t u) : t.Faces u := by
  have hcode (t : Tree) : Standing.elsewhere.isCode t = false :=
    Standing.isCode_of_ne t (by decide)
  constructor
  case kind => exact h.kind
  case signs =>
    intro _
    rw [← signs_outline (hcode u), ← signs_outline (hcode t), h]
  case texts =>
    intro _
    rw [← texts_leadingComments_outline (hcode u), ← texts_leadingComments_outline (hcode t), h]
  case members =>
    intro heard hclass
    rw [← readings_members_outline heard (t := u) (by rwa [h.kind]),
      ← readings_members_outline heard hclass, h]

theorem text (h : SameOutline t u) (hk : t.kind = .comment) : u.text = t.text := by
  have htext (t : Tree) (hk : t.kind = .comment) : (t.outline .elsewhere).text = t.text :=
    text_outline (Standing.isCode_of_kind _ (.inl hk)) (by rw [isVerbatim, hk])
  rw [← htext t hk, ← htext u (h.kind.trans hk), h]

end SameOutline

end Tree

theorem Frame.isRead_of_isVerbatim {f : Frame} {before after : List Tree} {t : Tree}
    (h : (f.plug before after t).isVerbatim = true) : f.isRead t.kind = true := by
  obtain ⟨k, l, s, fbefore, fafter⟩ := f
  cases k with
  | templateString =>
    -- what is around a substitution is not read
    have hno :
        ((before.reverse ++ t :: after).any fun c => c.kind == .templateSubstitution) = false :=
      (Bool.not_eq_true' _).mp h
    rw [List.any_append, List.any_cons, Bool.or_eq_false_iff, Bool.or_eq_false_iff] at hno
    show (!([Tree.leaf t.kind ""].any fun c => c.kind == .templateSubstitution)) = true
    rw [List.any_cons, Tree.leaf, Tree.kind_node, hno.2.1]
    rfl
  | _ => exact h

namespace Tree

theorem outline_plug {f : Frame} {before after : List Tree} {t u : Tree} {s : String}
    (p : Standing) (hkind : u.kind = t.kind) (htext : f.isRead t.kind = true → s = f.text)
    (h : t.outline (p.below (f.plug before after t)) =
      u.outline (p.below (f.plug before after t))) :
    (f.plug before after t).outline p = ((f.withText s).plug before after u).outline p := by
  have hread : ((f.withText s).plug before after u).isVerbatim =
      (f.plug before after t).isVerbatim := by
    apply isVerbatim_congr
    rw [List.any_append, List.any_append, List.any_cons, List.any_cons, hkind]
  unfold Frame.plug at *
  rw [outline, outline, hread, outlines_eq_map, outlines_eq_map, List.map_append, List.map_append,
    List.map_cons, List.map_cons, h]
  by_cases hverbatim : (node f.kind f.label f.text (before.reverse ++ t :: after)).isVerbatim = true
  · rw [htext (Frame.isRead_of_isVerbatim hverbatim)]
    rfl
  · rw [if_neg hverbatim, if_neg hverbatim]
    rfl

theorem SameOutline.plug {f : Frame} {before after : List Tree} {t u : Tree} {s : String}
    (h : SameOutline t u) (htext : f.isRead t.kind = true → s = f.text) :
    SameOutline (f.plug before after t) ((f.withText s).plug before after u) :=
  fun p => outline_plug p h.kind htext (h _)

theorem SameOutline.facing {above above' : List Frame} {before after : List Tree} {t u : Tree}
    (h : SameOutline t u) (habove : Frame.Retexted t.kind above above')
    (hrooted : Frame.Rooted before after above) : Facing before after above above' t u := by
  induction above generalizing before after above' t u with
  | nil =>
    obtain ⟨rfl, rfl⟩ := hrooted
    cases habove
    exact .root
  | cons f fs ih =>
    cases habove with
    | cons s htext hrest =>
      have hup : SameOutline (f.plug before after t)
          ((f.withText s).plug before after u) := h.plug htext
      exact .inside h.kind h.text hup.faces (ih hup hrest hrooted)

end Tree

/-! ## 2. Code in the members of a class -/

namespace Cursor

/-- The node at the cursor is the body of a method or the value of a field in a class.  Comments and
decorators are no such code. -/
inductive IsCode (c : Cursor) : Prop
  | intro (m body d : Frame) (rest : List Frame) (above : c.above = m :: body :: d :: rest)
      (part : m.kind = .methodDefinition ∧ c.focus.label = some .body ∨
        m.kind = .fieldDefinition ∧ c.focus.label = some .value)
      (inBody : body.kind = .classBody ∧ body.label = some .body)
      (inClass : d.kind.isClass = true)
      (code : c.focus.kind ≠ .comment ∧ c.focus.kind ≠ .decorator)

/-- The class whose member the node at the cursor is a part of. -/
def owner? (c : Cursor) : Option Declaration :=
  ((c.parent?.bind parent?).bind parent?).map Declaration.mk

/-- The classes at and below the cursor. -/
def declarations (c : Cursor) : List Declaration :=
  (c.places.filter fun p => p.focus.kind.isClass).map Declaration.mk

end Cursor

namespace Tree

theorem Faces.of_kind {t u : Tree} (h : u.kind = t.kind) (hclass : t.kind.isClass = false)
    (hexport : t.kind ≠ .exportStatement) : t.Faces u := by
  have hnot : ¬ (t.kind.isClass = true ∨ t.kind = .exportStatement) := by
    rw [hclass]
    exact fun h => h.elim Bool.false_ne_true hexport
  exact ⟨h, fun hk => absurd hk hnot, fun hk => absurd hk hnot,
    fun _ hk => absurd (.inl hk) hnot⟩

theorem outline_of_isCode {p : Standing} {t : Tree} (h : p.isCode t = true) :
    t.outline p = .node t.kind t.label "" [] := by
  obtain ⟨k, l, s, cs⟩ := t
  rw [outline, if_pos h]
  rfl

section Code

variable {before after : List Tree} {m body : Frame} {t u : Tree}

/-- The class body around a member whose code is replaced keeps its outline. -/
theorem sameOutline_of_code (hm : m.kind.isMember = true)
    (hbody : body.kind = .classBody ∧ body.label = some .body)
    (hpart : t.label = some .body ∨ t.label = some .value)
    (hcode : t.kind ≠ .comment ∧ t.kind ≠ .decorator) (hkind : u.kind = t.kind)
    (hlabel : u.label = t.label) {x y : String} (hx : m.isRead t.kind = true → x = m.text)
    (hy : body.isRead m.kind = true → y = body.text) :
    SameOutline (body.plug m.before m.after (m.plug before after t))
      ((body.withText y).plug m.before m.after ((m.withText x).plug before after u)) := by
  have hisCode : Standing.inMember.isCode t = true := by
    unfold Standing.isCode
    rw [beq_eq_false_iff_ne.mpr hcode.1, beq_eq_false_iff_ne.mpr hcode.2]
    rcases hpart with h | h <;> rw [h] <;> rfl
  have hisCode' : Standing.inMember.isCode u = true := by
    unfold Standing.isCode at hisCode ⊢
    rwa [hkind, hlabel]
  have hbelowMember : Standing.inBody.below (m.plug before after t) = .inMember := by
    have hno : ¬ (m.kind = .classBody ∧ m.label = some .body) :=
      fun h => Kind.ne_of_isMember hm rfl h.1
    exact (if_neg hno).trans (if_pos ⟨rfl, hm⟩)
  have hmember : (m.plug before after t).outline .inBody =
      ((m.withText x).plug before after u).outline .inBody := by
    apply outline_plug .inBody hkind hx
    rw [hbelowMember, outline_of_isCode hisCode, outline_of_isCode hisCode', hkind, hlabel]
  have hmemberKind : ((m.withText x).plug before after u).kind = (m.plug before after t).kind := rfl
  -- whatever the class body is a part of, its members are those of a class
  intro p
  have hbelow : p.below (body.plug m.before m.after (m.plug before after t)) = .inBody :=
    if_pos hbody
  apply outline_plug p hmemberKind hy
  rw [hbelow, hmember]

theorem facing_of_code {fs gs : List Frame} (hm : m.kind.isMember = true)
    (hcode : t.kind ≠ .comment) (hkind : u.kind = t.kind) {x y : String}
    (h : SameOutline (body.plug m.before m.after (m.plug before after t))
      ((body.withText y).plug m.before m.after ((m.withText x).plug before after u)))
    (habove : Frame.Retexted body.kind fs gs) (hrooted : Frame.Rooted body.before body.after fs) :
    Facing before after (m :: body :: fs)
      (m.withText x :: body.withText y :: gs) t u := by
  -- of the member itself nothing is read from outside, and from the class body on it is the same
  have hmemberFaces : (m.plug before after t).Faces ((m.withText x).plug before after u) := by
    have hmemberKind : ((m.withText x).plug before after u).kind = (m.plug before after t).kind :=
      rfl
    apply Faces.of_kind hmemberKind
    · show m.kind.isClass = false
      generalize m.kind = k at hm
      cases k <;> first | rfl | exact absurd hm (by decide)
    · exact Kind.ne_of_isMember hm rfl
  have hnoComment : (m.plug before after t).kind = .comment →
      ((m.withText x).plug before after u).text = (m.plug before after t).text :=
    fun hk => absurd hk (Kind.ne_of_isMember hm rfl)
  refine .inside hkind (fun hk => absurd hk hcode) hmemberFaces (.inside rfl hnoComment h.faces ?_)
  exact h.facing habove hrooted

end Code

end Tree

/-! ## 3. What a tree defines -/

theorem Tree.map_extract_declarations (f : Formatter) (t : Tree) :
    t.declarations.map (Declaration.extract f) =
      (t.readings Doc.isDocComment).map fun r => r.catalog f := by
  rw [Tree.declarations, Tree.readings, Site.readings, ← Tree.map_site_walk, List.filter_map,
    List.map_map, List.map_map, List.map_map]
  exact List.map_congr_left fun c _ => Declaration.extract_eq_reading f ⟨c⟩

theorem Cursor.map_extract_declarations (f : Formatter) (c : Cursor) :
    c.declarations.map (Declaration.extract f) =
      (Site.readings Doc.isDocComment
        (c.focus.sites (Tree.commentRun c.before)
          (Tree.aroundIn (c.before.reverse ++ c.focus :: c.after) c.above))).map
        fun r => r.catalog f := by
  rw [Cursor.declarations, Site.readings, ← Tree.map_site_places, List.filter_map,
    List.map_map, List.map_map, List.map_map]
  exact List.map_congr_left fun c _ => Declaration.extract_eq_reading f ⟨c⟩

/-- The class around the member reads the same. -/
theorem Facing.map_extract_owner? (f : Formatter) {before after : List Tree} {m body d : Frame}
    {rest above : List Frame} {t u : Tree}
    (h : Facing before after (m :: body :: d :: rest) above t u) (hclass : d.kind.isClass = true) :
    (Cursor.mk u before after above).owner?.map (Declaration.extract f) =
      (Cursor.mk t before after (m :: body :: d :: rest)).owner?.map (Declaration.extract f) := by
  obtain ⟨x, above, rfl, -, hbody⟩ := h.outward
  obtain ⟨y, above, rfl, -, hd⟩ := hbody.outward
  obtain ⟨z, above, rfl, faces, up⟩ := hd.outward
  apply congrArg some
  rw [Declaration.extract_eq_reading, Declaration.extract_eq_reading]
  apply congrArg fun r => Declaration.Reading.catalog f r
  rw [Cursor.site_mk, Cursor.site_mk]
  exact Site.reading_congr Doc.isDocComment faces hclass rfl up.sameAround

namespace Cursor.IsCode

variable {c : Cursor}

theorem facing (h : c.IsCode) (hrooted : c.Rooted) {s : Tree} {above : List Frame}
    (hkind : s.kind = c.focus.kind) (hlabel : s.label = c.focus.label)
    (habove : Frame.Retexted c.focus.kind c.above above) :
    Facing c.before c.after c.above above c.focus s := by
  obtain ⟨m, body, d, rest, hc, hpart, hbody, -, hcode⟩ := h
  have hm : m.kind.isMember = true := by
    rcases hpart with ⟨hk, -⟩ | ⟨hk, -⟩ <;> rw [hk] <;> rfl
  have hlabels := hpart.imp And.right And.right
  unfold Cursor.Rooted at hrooted
  rw [hc] at habove hrooted ⊢
  rcases habove with _ | ⟨x, hx, _ | ⟨y, hy, hrest⟩⟩
  have hsame : Tree.SameOutline (body.plug m.before m.after (m.plug c.before c.after c.focus)) _ :=
    Tree.sameOutline_of_code hm hbody hlabels hcode hkind hlabel hx hy
  exact Tree.facing_of_code hm hcode.1 hkind hsame hrest hrooted

end Cursor.IsCode

namespace Cursor

/-- Another node of the same kind stands in the place of the cursor, in the same part. -/
structure Replaced (c c' : Cursor) : Prop where
  kind : c'.focus.kind = c.focus.kind
  label : c'.focus.label = c.focus.label
  before : c'.before = c.before
  after : c'.after = c.after
  above : Frame.Retexted c.focus.kind c.above c'.above

/-- The class around the code defines the same at `c'` as at `c`, and the tree at `c'` defines `P`,
what the classes in the code define, and `Q`. -/
structure Isolated (f : Formatter) (P Q : List Catalog) (c c' : Cursor) : Prop where
  owner : c'.owner?.map (Declaration.extract f) = c.owner?.map (Declaration.extract f)
  declarations : c'.top.declarations.map (Declaration.extract f) =
    P ++ c'.declarations.map (Declaration.extract f) ++ Q
  extract : c'.top.extract f =
    .concat P ++ .concat (c'.declarations.map (Declaration.extract f)) ++ .concat Q

end Cursor

/-- Whatever the code in a member is replaced by, the class around it and all classes before and
behind the code define the same, and stand in the same order. -/
theorem Tree.extract_isolated (f : Formatter) {t : Tree} {c : Cursor} (hc : c ∈ t.walk)
    (hcode : c.IsCode) :
    c.top = t ∧ c.owner?.isSome ∧
      ∃ P Q : List Catalog, ∀ c' : Cursor, c.Replaced c' → c.Isolated f P Q c' := by
  obtain ⟨htop, hrooted⟩ := Cursor.top_of_mem_walk hc
  have howner : c.owner?.isSome ∧ ∀ {s : Tree} {above : List Frame},
      Facing c.before c.after c.above above c.focus s →
        (Cursor.mk s c.before c.after above).owner?.map (Declaration.extract f) =
          c.owner?.map (Declaration.extract f) := by
    obtain ⟨m, body, d, rest, habove, -, -, hclass, -⟩ := hcode
    obtain ⟨focus, before, after, _⟩ := c
    obtain rfl := habove
    exact ⟨rfl, fun h => h.map_extract_owner? f hclass⟩
  -- what is before the code and behind it, as it is read at `c`
  let outside (ss : List Site) := (Site.readings Doc.isDocComment ss).map fun r => r.catalog f
  refine ⟨htop, howner.1, outside (sitesBefore c.before c.after c.above c.focus),
    outside (sitesBehind c.before c.after c.above c.focus), ?_⟩
  rintro ⟨s, _, _, above⟩ ⟨hkind, hlabel, rfl, rfl, habove⟩
  have hfacing := hcode.facing hrooted hkind hlabel habove
  have hlist : (Cursor.mk s c.before c.after above).top.declarations.map (Declaration.extract f) =
      outside (sitesBefore c.before c.after c.above c.focus) ++
        (Cursor.mk s c.before c.after above).declarations.map (Declaration.extract f) ++
          outside (sitesBehind c.before c.after c.above c.focus) := by
    rw [Tree.map_extract_declarations, Cursor.map_extract_declarations, Tree.readings, Cursor.top,
      Tree.sites_rebuilt above s hfacing.rooted.2, Site.readings_append, Site.readings_append,
      hfacing.readings_sitesBefore, hfacing.readings_sitesBehind, List.map_append, List.map_append]
  refine ⟨howner.2 hfacing, hlist, ?_⟩
  show Catalog.concat _ = _
  rw [hlist, Catalog.concat_append, Catalog.concat_append]

theorem Tree.extract_isolated_directive :
    let above : List Frame :=
      [⟨.methodDefinition, none, "", [], []⟩,
        ⟨.classBody, some .body, "", (directive "app-a").children, []⟩,
        ⟨.classDeclaration, none, "", [], []⟩]
    let c : Cursor := ⟨.node .statement (some .body) "" [], [], [], above⟩
    let c' : Cursor := ⟨.node .statement (some .body) "" [directive "app-b"], [], [], above⟩
    c ∈ c.top.walk ∧ c.IsCode ∧
      ∃ P Q, c.Replaced c' ∧ c.Isolated (.ofDetail .simple .simple) P Q c' := by
  intro above c c'
  have hc : c ∈ c.top.walk := by
    rw [Tree.walk_eq_places]
    simp [Cursor.top, rebuilt, Frame.plug, places, placesOf, c, above, directive]
  have hcode : c.IsCode :=
    ⟨_, _, _, _, rfl, .inl ⟨rfl, rfl⟩, ⟨rfl, rfl⟩, rfl, by decide⟩
  have hreplaced : c.Replaced c' := by
    refine ⟨rfl, rfl, rfl, rfl, ?_⟩
    exact .cons "" (fun _ => rfl) (.cons "" (fun _ => rfl) (.cons "" (fun _ => rfl) .nil))
  obtain ⟨-, -, P, Q, h⟩ := extract_isolated (.ofDetail .simple .simple) hc hcode
  exact ⟨hc, hcode, P, Q, hreplaced, h c' hreplaced⟩

end MarkupCatalog
