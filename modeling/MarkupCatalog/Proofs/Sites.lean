import MarkupCatalog.Extraction
import MarkupCatalog.Proofs.Catalog
import MarkupCatalog.Proofs.Configuration
import MarkupCatalog.Proofs.Preorder

/-!
# Sites

What the extraction reads of a tree.  A site is a node with the only part of its surroundings that
counts: the comments right before it, and the export that it stands in.  `Tree.sites` lists the
sites of a tree by recursion on the tree, `Site.reading` takes from a site what makes the entries of
a class, and `Tree.extract_eq_readings` says that the extraction depends on nothing else.  Readings
have a parameter, the texts of the comments that are heard: the extraction hears the documentation
comments, and a reading that hears no comment is what is left without descriptions.
-/

namespace MarkupCatalog

/-! ## 1. Sites -/

/-- Comments and decorators lead what they stand in front of, and punctuation may stand between. -/
def Kind.leads : Kind → Bool
  | .comment | .decorator | .token => true
  | _ => false

theorem Kind.leads_cases {k : Kind} (h : k.leads = true) :
    k = .comment ∨ k = .decorator ∨ k = .token := by
  cases k <;> first | decide | exact absurd h (by decide)

theorem Kind.ne_of_isMember {k other : Kind} (h : k.isMember = true)
    (hother : other.isMember = false) : k ≠ other := by
  rintro rfl
  rw [h] at hother
  cases hother

/-- A node with the comments right before it (nearest first) and, where it stands in an export, that
export with the comments right before it. -/
structure Site where
  node : Tree
  run : List Tree
  around : Option (Tree × List Tree)

namespace Tree

theorem isComment_iff (t : Tree) : t.isComment = true ↔ t.kind = .comment := beq_iff_eq

theorem isNamed_iff (t : Tree) : t.isNamed = true ↔ t.kind ≠ .token := bne_iff_ne

/-- The comments right before a node that comes after the siblings `before` (nearest first). -/
def commentRun (before : List Tree) : List Tree := (before.filter isNamed).takeWhile isComment

/-- The comments right before what follows `t`, if those before `t` are `run`. -/
def extendRun (t : Tree) (run : List Tree) : List Tree :=
  if t.isNamed then if t.isComment then t :: run else [] else run

theorem commentRun_cons (t : Tree) (before : List Tree) :
    commentRun (t :: before) = t.extendRun (commentRun before) := by
  unfold commentRun extendRun
  rw [List.filter_cons]
  split
  · rw [List.takeWhile_cons]
  · rfl

def aroundChildren (run : List Tree) (t : Tree) : Option (Tree × List Tree) :=
  if t.kind = .exportStatement then some (t, run) else none

mutual

/-- The sites at and below a tree, in source order. -/
def sites (run : List Tree) (around : Option (Tree × List Tree)) : Tree → List Site
  | .node k l s cs =>
    ⟨.node k l s cs, run, around⟩ :: sitesOf [] (aroundChildren run (.node k l s cs)) cs

def sitesOf (run : List Tree) (around : Option (Tree × List Tree)) : List Tree → List Site
  | [] => []
  | t :: ts => t.sites run around ++ sitesOf (t.extendRun run) around ts

end

/-- What the children of the innermost of `above` have around them, if `siblings` are these
children. -/
def aroundIn (siblings : List Tree) : List Frame → Option (Tree × List Tree)
  | [] => none
  | f :: _ => aroundChildren (commentRun f.before) (.node f.kind f.label f.text siblings)

end Tree

def Cursor.site (c : Cursor) : Site :=
  ⟨c.focus, Tree.commentRun c.before,
    c.parent?.bind fun p => p.focus.aroundChildren (Tree.commentRun p.before)⟩

theorem Cursor.site_mk (t : Tree) (before after : List Tree) (above : List Frame) :
    (Cursor.mk t before after above).site =
      ⟨t, Tree.commentRun before, Tree.aroundIn (before.reverse ++ t :: after) above⟩ := by
  cases above with
  | nil => rfl
  | cons f fs => rfl

mutual

theorem Tree.map_site_places (before after : List Tree) (above : List Frame) : ∀ t : Tree,
    (t.places before after above).map Cursor.site =
      t.sites (commentRun before) (aroundIn (before.reverse ++ t :: after) above)
  | .node k l s cs => by
    rw [Tree.places, Tree.sites, List.map_cons, Cursor.site_mk, Tree.map_site_placesOf]
    rfl

theorem Tree.map_site_placesOf (before : List Tree) (above : List Frame) : ∀ ts : List Tree,
    (Tree.placesOf before above ts).map Cursor.site =
      Tree.sitesOf (commentRun before) (aroundIn (before.reverse ++ ts) above) ts
  | [] => rfl
  | t :: ts => by
    rw [Tree.placesOf, Tree.sitesOf, List.map_append, Tree.map_site_places,
      Tree.map_site_placesOf, List.reverse_cons, List.append_assoc, List.singleton_append,
      Tree.commentRun_cons]

end

theorem Tree.map_site_walk (t : Tree) : t.walk.map Cursor.site = t.sites [] none := by
  rw [Tree.walk_eq_places, Tree.map_site_places]
  rfl

/-! ## 2. Decorators -/

/-- The role of a decorator that has one, and the selector in its configuration. -/
def Decorator.sign? (d : Decorator) : Option (Role × Option String) :=
  d.role.map fun r => (r, Literal.lookupString d.configuration "selector")

def Tree.sign? (t : Tree) : Option (Role × Option String) :=
  (Decorator.ofTree? t).bind Decorator.sign?

namespace Decorator

theorem filterMap_sign? (ts : List Tree) :
    (ts.filterMap ofTree?).filterMap sign? = ts.filterMap Tree.sign? :=
  List.filterMap_filterMap

theorem find?_bind_sign? (ds : List Decorator) (roles : List Role) :
    (find? ds roles).bind sign? = (ds.filterMap sign?).find? fun s => roles.contains s.1 := by
  rw [List.find?_filterMap, find?]
  congr 2
  funext d
  unfold sign?
  cases d.role <;> rfl

theorem find?_bind_selector (ds : List Decorator) (roles : List Role) :
    ((find? ds roles).bind fun d => Literal.lookupString d.configuration "selector") =
      ((ds.filterMap sign?).find? fun s => roles.contains s.1).bind Prod.snd := by
  rw [← find?_bind_sign?, Option.bind_assoc]
  cases h : find? ds roles with
  | none => rfl
  | some d =>
    -- what is found has a role, so that its sign is there
    have hrole := List.find?_some h
    rw [Option.any_eq_true] at hrole
    obtain ⟨r, hr, -⟩ := hrole
    simp only [Option.bind_some, sign?, hr, Option.map_some]

theorem has_eq_any (ds : List Decorator) (role : Role) :
    has ds role = (ds.filterMap sign?).any fun s => s.1 == role := by
  rw [has, find?, List.isSome_find?, List.any_filterMap]
  congr 1
  funext d
  unfold sign?
  cases d.role with
  | none => rfl
  | some r => cases r <;> cases role <;> rfl

theorem isNone_find?_forMembers (ds : List Decorator) :
    (find? ds Role.forMembers).isNone = (!has ds .input && !has ds .output) := by
  -- one search for two roles against a search for each
  simp only [has, find?, ← Option.not_isSome, List.isSome_find?, ← Bool.not_or]
  congr 1
  induction ds with
  | nil => rfl
  | cons d ds ih =>
    have hd : d.role.any Role.forMembers.contains =
        (d.role.any [Role.input].contains || d.role.any [Role.output].contains) := by
      rcases d.role with _ | _ | _ | _ | _ <;> rfl
    rw [List.any_cons, List.any_cons, List.any_cons, ih, hd]
    ac_rfl

end Decorator

/-! ## 3. Readings -/

def Tree.firstHeard (heard : String → Bool) (comments : List Tree) : Option String :=
  (comments.map text).find? heard

theorem Tree.firstHeard_append (heard : String → Bool) (cs ds : List Tree) :
    firstHeard heard (cs ++ ds) = (firstHeard heard cs).or (firstHeard heard ds) := by
  rw [firstHeard, List.map_append, List.find?_append]
  rfl

/-- The documentation in the first of the comments that is heard. -/
def Doc.among (heard : String → Bool) (comments : List Tree) : Option Doc :=
  (Tree.firstHeard heard comments).map Doc.parse

/-- What counts of a member: its name, its documentation, and whether it is an input or an
output. -/
structure Member.Reading where
  name : String
  isInput : Bool
  isOutput : Bool
  doc : Option Doc

structure Declaration.Reading where
  selector : Option String
  doc : Option Doc
  members : List Member.Reading

namespace Member

section Collect

variable {t : Tree} (ds cs ts : List Tree)

theorem collect_decorator (h : t.kind = .decorator) :
    collect ds cs (t :: ts) = collect (ds ++ [t]) cs ts := by
  rw [collect, if_pos h]

theorem collect_comment (h : t.kind = .comment) :
    collect ds cs (t :: ts) = collect ds (cs ++ [t]) ts := by
  rw [collect, if_neg (by rw [h]; decide), if_pos h]

theorem collect_member (h : t.kind.isMember = true) :
    collect ds cs (t :: ts) = ⟨t, ds, cs⟩ :: collect [] [] ts := by
  have hdecorator : t.kind ≠ .decorator := Kind.ne_of_isMember h rfl
  have hcomment : t.kind ≠ .comment := Kind.ne_of_isMember h rfl
  rw [collect, if_neg hdecorator, if_neg hcomment, if_pos h]

theorem collect_token (h : t.kind = .token) : collect ds cs (t :: ts) = collect ds cs ts := by
  have hnamed : ¬ t.isNamed = true := fun hn => (Tree.isNamed_iff t).mp hn h
  rw [collect, if_neg (by rw [h]; decide), if_neg (by rw [h]; decide),
    if_neg (by rw [h]; decide), if_neg hnamed]

/-- What else stands in a class body parts the members. -/
theorem collect_other (h : ¬ t.kind.leads = true) (hmember : ¬ t.kind.isMember = true) :
    collect ds cs (t :: ts) = collect [] [] ts := by
  have hdecorator : t.kind ≠ .decorator := fun hk => h (by rw [hk]; rfl)
  have hcomment : t.kind ≠ .comment := fun hk => h (by rw [hk]; rfl)
  have hnamed : t.isNamed = true := (Tree.isNamed_iff t).mpr fun hk => h (by rw [hk]; rfl)
  rw [collect, if_neg hdecorator, if_neg hcomment, if_neg hmember, if_pos hnamed]

end Collect

def signs (m : Member) : List (Role × Option String) :=
  (m.decoratorNodes ++ m.node.decorators).filterMap Tree.sign?

def reading (heard : String → Bool) (m : Member) : Reading where
  name := m.name
  isInput := m.signs.any fun s => s.1 == .input
  isOutput := m.signs.any fun s => s.1 == .output
  doc := Doc.among heard (m.comments ++ m.node.leadingComments)

def Reading.attribute? (f : Formatter) (r : Reading) : Option Attribute :=
  if (!r.isInput && !r.isOutput) || r.name.isEmpty then none
  else
    some
      { name := r.name
        description := (r.doc.map fun d => f.describeAttribute d r.isInput r.isOutput).getD "" }

theorem attribute?_eq_reading (f : Formatter) (m : Member) :
    m.attribute? f = (m.reading Doc.isDocComment).attribute? f := by
  have hinput : Decorator.has m.decorators .input = (m.reading Doc.isDocComment).isInput := by
    rw [Decorator.has_eq_any, Member.decorators, Decorator.filterMap_sign?]
    rfl
  have houtput : Decorator.has m.decorators .output = (m.reading Doc.isDocComment).isOutput := by
    rw [Decorator.has_eq_any, Member.decorators, Decorator.filterMap_sign?]
    rfl
  unfold Member.attribute? Reading.attribute?
  simp only [Decorator.isNone_find?_forMembers, hinput, houtput]
  rfl

end Member

/-- The attributes whose names do not come before, in `seen` or in the list. -/
def Attribute.firsts (seen : List String) : List Attribute → List Attribute
  | [] => []
  | a :: as => if a.name ∈ seen then firsts seen as else a :: firsts (a.name :: seen) as

theorem Member.attributes_eq_firsts (f : Formatter) (seen : List String) (ms : List Member) :
    Member.attributes f seen ms =
      Attribute.firsts seen
        ((ms.map (Member.reading Doc.isDocComment)).filterMap (Reading.attribute? f)) := by
  induction ms generalizing seen with
  | nil => rfl
  | cons m ms ih =>
    rw [Member.attributes, Member.attribute?_eq_reading, List.map_cons, List.filterMap_cons]
    cases (m.reading Doc.isDocComment).attribute? f with
    | none => exact ih seen
    | some a =>
      show (if a.name ∈ seen then _ else _) = Attribute.firsts seen (a :: _)
      rw [Attribute.firsts, ih, ih]

def Tree.members (t : Tree) : List Member :=
  match t.child? .body with
  | none => []
  | some body => Member.collect [] [] body.children

namespace Site

def aroundDecorators : Option (Tree × List Tree) → List Tree
  | some (e, _) => e.decorators
  | none => []

def aroundComments : Option (Tree × List Tree) → List Tree
  | some (e, run) => run.reverse ++ e.leadingComments
  | none => []

def decoratorNodes (s : Site) : List Tree := aroundDecorators s.around ++ s.node.decorators

def comments (s : Site) : List Tree :=
  aroundComments s.around ++ (s.run.reverse ++ s.node.leadingComments)

def selectorIn (signs : List (Role × Option String)) : Option String :=
  ((signs.find? fun s => Role.forClasses.contains s.1).bind Prod.snd).filter fun s =>
    Text.trim s.toList ≠ []

def reading (heard : String → Bool) (s : Site) : Declaration.Reading where
  selector := selectorIn (s.decoratorNodes.filterMap Tree.sign?)
  doc := Doc.among heard s.comments
  members := s.node.members.map (Member.reading heard)

end Site

namespace Declaration

def Reading.catalog (f : Formatter) (r : Reading) : Catalog :=
  match r.selector with
  | none => .empty
  | some selector =>
    let description := (r.doc.map f.describeTag).getD ""
    let attributes := Attribute.firsts [] (r.members.filterMap (Member.Reading.attribute? f))
    .concat ((Selector.classify selector).map fun part => part.entry description attributes)

theorem around_site (d : Declaration) :
    d.place.site.around = d.export?.map fun p => (p.focus, Tree.commentRun p.before) := by
  show (d.place.parent?.bind fun p => _) = (d.place.parent?.filter _).map _
  cases d.place.parent? with
  | none => rfl
  | some p =>
    rw [Option.bind_some, Tree.aroundChildren, Option.filter_some]
    by_cases h : p.focus.kind = .exportStatement
    · rw [if_pos h, if_pos (beq_iff_eq.mpr h), Option.map_some]
    · rw [if_neg h, if_neg (fun hb => h (beq_iff_eq.mp hb)), Option.map_none]

theorem selector?_eq_reading (d : Declaration) :
    d.selector? = (d.place.site.reading Doc.isDocComment).selector := by
  have hnodes : d.decoratorNodes = d.place.site.decoratorNodes := by
    unfold Declaration.decoratorNodes Site.decoratorNodes
    rw [around_site]
    cases d.export? <;> rfl
  unfold Declaration.selector? Declaration.element? Declaration.decorators
  rw [Decorator.find?_bind_selector, Decorator.filterMap_sign?, hnodes]
  rfl

theorem doc?_eq_reading (d : Declaration) :
    d.doc? = (d.place.site.reading Doc.isDocComment).doc := by
  have hcomments : d.comments = d.place.site.comments := by
    unfold Declaration.comments Site.comments
    rw [around_site]
    cases d.export? <;> rfl
  unfold Declaration.doc?
  rw [hcomments]
  rfl

theorem extract_eq_reading (f : Formatter) (d : Declaration) :
    d.extract f = (d.place.site.reading Doc.isDocComment).catalog f := by
  unfold Declaration.extract Reading.catalog
  rw [selector?_eq_reading, doc?_eq_reading, Member.attributes_eq_firsts]
  rfl

end Declaration

def Site.readings (heard : String → Bool) (ss : List Site) : List Declaration.Reading :=
  (ss.filter fun s => s.node.kind.isClass).map (Site.reading heard)

def Tree.readings (heard : String → Bool) (t : Tree) : List Declaration.Reading :=
  Site.readings heard (t.sites [] none)

theorem Site.readings_append (heard : String → Bool) (ss ss' : List Site) :
    readings heard (ss ++ ss') = readings heard ss ++ readings heard ss' := by
  rw [readings, List.filter_append, List.map_append]
  rfl

/-- The extraction depends on what counts of the classes of a tree, and on nothing else. -/
theorem Tree.extract_eq_readings (f : Formatter) (t : Tree) :
    t.extract f = .concat ((t.readings Doc.isDocComment).map fun r => r.catalog f) := by
  have hsites : t.readings Doc.isDocComment =
      (t.walk.filter fun c => c.focus.kind.isClass).map fun c =>
        c.site.reading Doc.isDocComment := by
    rw [Tree.readings, Site.readings, ← Tree.map_site_walk, List.filter_map, List.map_map]
    rfl
  rw [hsites, Tree.extract, Tree.declarations, List.map_map, List.map_map]
  congr 1
  exact List.map_congr_left fun c _ => Declaration.extract_eq_reading f ⟨c⟩

/-- A class with the decorator `@Directive` and a selector. -/
def Tree.directive (selector : String) : Tree :=
  .node .classDeclaration none ""
    [.node .decorator none ""
      [.node .callExpression none ""
        [.node .identifier (some .function) "Directive" [],
          .node .arguments (some .arguments) ""
            [.node .object none ""
              [.node .pair none ""
                [.node .propertyIdentifier (some .key) "selector" [],
                  .node .string (some .value) "" [.leaf .stringFragment selector]]]]]]]

end MarkupCatalog
