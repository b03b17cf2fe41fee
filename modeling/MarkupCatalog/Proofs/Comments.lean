import MarkupCatalog.Proofs.ThinnedReadings

/-!
# Trees without comments

Comments and formatters have a say in descriptions only.  A tree whose comments are deleted defines,
under any formatter, what the tree defines under any other, without the descriptions.
-/

namespace MarkupCatalog

/-! ## 1. Descriptions -/

def Attribute.undescribed (a : Attribute) : Attribute := { a with description := "" }

def Tag.undescribed (t : Tag) : Tag :=
  { t with description := "", attributes := t.attributes.map Attribute.undescribed }

namespace Catalog

/-- The catalog with every description erased. -/
def undescribed (c : Catalog) : Catalog :=
  { tags := c.tags.map Tag.undescribed
    globalAttributes := c.globalAttributes.map Attribute.undescribed }

structure IsUndescribed (c : Catalog) : Prop where
  tags : ∀ t ∈ c.tags, t.description = ""
  tagAttributes : ∀ t ∈ c.tags, ∀ a ∈ t.attributes, a.description = ""
  globalAttributes : ∀ a ∈ c.globalAttributes, a.description = ""

theorem isUndescribed_undescribed (c : Catalog) : c.undescribed.IsUndescribed := by
  have hattributes (as : List Attribute) :
      ∀ a ∈ as.map Attribute.undescribed, a.description = "" := by
    intro a ha
    obtain ⟨b, -, rfl⟩ := List.mem_map.mp ha
    rfl
  constructor
  case tags =>
    intro t ht
    obtain ⟨u, -, rfl⟩ := List.mem_map.mp ht
    rfl
  case tagAttributes =>
    intro t ht
    obtain ⟨u, -, rfl⟩ := List.mem_map.mp ht
    exact hattributes u.attributes
  case globalAttributes => exact hattributes c.globalAttributes

theorem undescribed_append (c d : Catalog) :
    (c ++ d).undescribed = c.undescribed ++ d.undescribed :=
  ext_lists List.map_append List.map_append

theorem undescribed_concat (cs : List Catalog) :
    (concat cs).undescribed = concat (cs.map undescribed) := by
  induction cs with
  | nil => rfl
  | cons c cs ih => rw [concat_cons, undescribed_append, ih, List.map_cons, concat_cons]

end Catalog

theorem Attribute.firsts_undescribed (seen : List String) (as : List Attribute) :
    firsts seen (as.map undescribed) = (firsts seen as).map undescribed := by
  induction as generalizing seen with
  | nil => rfl
  | cons a as ih =>
    rw [List.map_cons, firsts, firsts, ih, ih]
    show (if a.name ∈ seen then _ else _) = _
    by_cases h : a.name ∈ seen
    · rw [if_pos h, if_pos h]
    · rw [if_neg h, if_neg h, List.map_cons]
      rfl

theorem Selector.Fragment.entry_undescribed (part : Selector.Fragment) (description : String)
    (as : List Attribute) :
    (part.entry description as).undescribed = part.entry "" (as.map Attribute.undescribed) := by
  cases part <;> rfl

/-! ## 2. Readings without documentation -/

def Member.Reading.undocumented (r : Member.Reading) : Member.Reading := { r with doc := none }

theorem Member.Reading.attribute?_undocumented (f g : Formatter) (r : Member.Reading) :
    (r.attribute? f).map Attribute.undescribed = r.undocumented.attribute? g := by
  unfold attribute?
  show Option.map _ (if (!r.isInput && !r.isOutput || r.name.isEmpty) = true then _ else _) =
    if (!r.isInput && !r.isOutput || r.name.isEmpty) = true then _ else _
  split <;> rfl

namespace Declaration.Reading

def undocumented (r : Declaration.Reading) : Declaration.Reading :=
  { r with doc := none, members := r.members.map Member.Reading.undocumented }

theorem catalog_undocumented (f g : Formatter) (r : Declaration.Reading) :
    (r.catalog f).undescribed = r.undocumented.catalog g := by
  -- the formatters are only asked where there is documentation
  have hattributes :
      (r.members.filterMap (Member.Reading.attribute? f)).map Attribute.undescribed =
        r.undocumented.members.filterMap (Member.Reading.attribute? g) := by
    rw [List.map_filterMap, undocumented, List.filterMap_map]
    exact List.filterMap_congr fun m _ => m.attribute?_undocumented f g
  unfold catalog
  rw [show r.undocumented.selector = r.selector from rfl]
  cases r.selector with
  | none => rfl
  | some s =>
    dsimp only
    rw [Catalog.undescribed_concat, List.map_map, ← hattributes, Attribute.firsts_undescribed]
    congr 1
    exact List.map_congr_left fun part _ => part.entry_undescribed _ _

end Declaration.Reading

/-- No comment is heard. -/
def silence : String → Bool := fun _ => false

theorem Tree.firstHeard_silence (cs : List Tree) : firstHeard silence cs = none :=
  List.find?_eq_none.mpr fun _ _ => Bool.false_ne_true

theorem Member.reading_silence (heard : String → Bool) (m : Member) :
    m.reading silence = (m.reading heard).undocumented := by
  unfold Member.reading Doc.among
  rw [Tree.firstHeard_silence]
  rfl

theorem Site.reading_silence (heard : String → Bool) (s : Site) :
    s.reading silence = (s.reading heard).undocumented := by
  have hmembers : s.node.members.map (Member.reading silence) =
      (s.node.members.map (Member.reading heard)).map Member.Reading.undocumented := by
    rw [List.map_map]
    exact List.map_congr_left fun m _ => m.reading_silence heard
  unfold Site.reading Doc.among
  rw [Tree.firstHeard_silence, hmembers]
  rfl

theorem Tree.readings_silence (heard : String → Bool) (t : Tree) :
    t.readings silence = (t.readings heard).map Declaration.Reading.undocumented := by
  rw [Tree.readings, Tree.readings, Site.readings, Site.readings, List.map_map]
  exact List.map_congr_left fun s _ => s.reading_silence heard

theorem Tree.undescribed_extract (f g : Formatter) (t : Tree) :
    (t.extract f).undescribed = .concat ((t.readings silence).map fun r => r.catalog g) := by
  rw [Tree.extract_eq_readings, Catalog.undescribed_concat, List.map_map,
    Tree.readings_silence Doc.isDocComment, List.map_map]
  congr 1
  exact List.map_congr_left fun r _ => r.catalog_undocumented f g

/-! ## 3. Deleting the comments -/

namespace Tree

mutual

/-- The tree without the comments below its root. -/
def withoutComments : Tree → Tree
  | .node k l s cs => .node k l s (dropComments cs)

def dropComments : List Tree → List Tree
  | [] => []
  | t :: ts => if t.isComment then dropComments ts else t.withoutComments :: dropComments ts

end

theorem children_withoutComments (t : Tree) :
    t.withoutComments.children = dropComments t.children := by
  cases t; rfl

theorem isComment_withoutComments (t : Tree) : t.withoutComments.isComment = t.isComment := by
  cases t; rfl

theorem mem_dropComments {c : Tree} {ts : List Tree} (h : c ∈ dropComments ts) :
    c.isComment = false ∧ ∃ t : Tree, c = t.withoutComments := by
  induction ts with
  | nil => exact absurd h List.not_mem_nil
  | cons t ts ih =>
    rw [dropComments] at h
    by_cases ht : t.isComment = true
    · rw [if_pos ht] at h
      exact ih h
    · rw [if_neg ht] at h
      rcases List.mem_cons.mp h with rfl | h
      · rw [isComment_withoutComments]
        exact ⟨(Bool.not_eq_true _).mp ht, t, rfl⟩
      · exact ih h

theorem leadingComments_withoutComments (t : Tree) :
    t.withoutComments.leadingComments = [] := by
  rw [leadingComments, List.filter_eq_nil_iff]
  intro c hc
  have hchild := List.mem_of_mem_filter ((List.takeWhile_sublist _).subset hc)
  rw [children_withoutComments] at hchild
  rw [(mem_dropComments hchild).1]
  exact Bool.false_ne_true

theorem mem_collect_of_no_comments {m : Member} {ts : List Tree} (ds : List Tree)
    (hts : ∀ t ∈ ts, t.isComment = false) (hm : m ∈ Member.collect ds [] ts) :
    m.comments = [] ∧ m.node ∈ ts := by
  induction ts generalizing ds with
  | nil => exact absurd hm List.not_mem_nil
  | cons t ts ih =>
    have later (ds : List Tree) (h : m ∈ Member.collect ds [] ts) :
        m.comments = [] ∧ m.node ∈ t :: ts := by
      obtain ⟨hcomments, hnode⟩ := ih ds (fun c hc => hts c (List.mem_cons_of_mem t hc)) h
      exact ⟨hcomments, List.mem_cons_of_mem t hnode⟩
    have hcomment : t.kind ≠ .comment := by
      rw [ne_eq, ← isComment_iff, hts t List.mem_cons_self]
      exact Bool.false_ne_true
    by_cases hleads : t.kind.leads = true
    · rcases Kind.leads_cases hleads with ht | ht | ht
      · exact absurd ht hcomment
      · rw [Member.collect_decorator _ _ _ ht] at hm
        exact later _ hm
      · rw [Member.collect_token _ _ _ ht] at hm
        exact later _ hm
    · by_cases hmember : t.kind.isMember = true
      · rw [Member.collect_member _ _ _ hmember] at hm
        rcases List.mem_cons.mp hm with rfl | hm
        · exact ⟨rfl, List.mem_cons_self⟩
        · exact later _ hm
      · rw [Member.collect_other _ _ _ hleads hmember] at hm
        exact later _ hm

theorem comments_of_members_withoutComments {t : Tree} {m : Member}
    (hm : m ∈ t.withoutComments.members) : m.comments ++ m.node.leadingComments = [] := by
  unfold members at hm
  cases hbody : t.withoutComments.child? .body with
  | none =>
    rw [hbody] at hm
    exact absurd hm List.not_mem_nil
  | some body =>
    rw [hbody] at hm
    -- the body and the members in it are trees without comments, too
    have hchild := List.mem_of_find?_eq_some hbody
    rw [children_withoutComments] at hchild
    obtain ⟨-, b, rfl⟩ := mem_dropComments hchild
    dsimp only at hm
    rw [children_withoutComments] at hm
    obtain ⟨hcomments, hnode⟩ :=
      mem_collect_of_no_comments [] (fun c hc => (mem_dropComments hc).1) hm
    obtain ⟨-, n, hn⟩ := mem_dropComments hnode
    rw [hcomments, hn, leadingComments_withoutComments, List.append_nil]

theorem reading_withoutComments (heard : String → Bool) (t : Tree)
    {around : Option (Tree × List Tree)} (h : Site.aroundComments around = []) :
    (Site.mk t.withoutComments [] around).reading heard =
      (Site.mk t.withoutComments [] around).reading silence := by
  have hcomments : (Site.mk t.withoutComments [] around).comments = [] := by
    rw [Site.comments, h, leadingComments_withoutComments]
    rfl
  have hmembers : t.withoutComments.members.map (Member.reading heard) =
      t.withoutComments.members.map (Member.reading silence) := by
    refine List.map_congr_left fun m hm => ?_
    unfold Member.reading
    rw [comments_of_members_withoutComments hm]
    rfl
  unfold Site.reading
  rw [hcomments]
  dsimp only
  rw [hmembers]
  rfl

theorem aroundComments_withoutComments (t : Tree) :
    Site.aroundComments (aroundChildren [] t.withoutComments) = [] := by
  unfold aroundChildren
  split
  next => rw [Site.aroundComments, leadingComments_withoutComments]; rfl
  next => rfl

mutual

theorem readings_sites_withoutComments (heard : String → Bool)
    {around : Option (Tree × List Tree)} (h : Site.aroundComments around = []) :
    ∀ t : Tree, Site.readings heard (t.withoutComments.sites [] around) =
      Site.readings silence (t.withoutComments.sites [] around)
  | .node k l s cs => by
    rw [readings_sites, readings_sites, children_withoutComments,
      reading_withoutComments heard _ h, children_node,
      readings_sitesOf_dropComments heard (aroundComments_withoutComments (.node k l s cs)) cs]

theorem readings_sitesOf_dropComments (heard : String → Bool)
    {around : Option (Tree × List Tree)} (h : Site.aroundComments around = []) :
    ∀ ts : List Tree, Site.readings heard (sitesOf [] around (dropComments ts)) =
      Site.readings silence (sitesOf [] around (dropComments ts))
  | [] => rfl
  | t :: ts => by
    rw [dropComments]
    by_cases ht : t.isComment = true
    · rw [if_pos ht]
      exact readings_sitesOf_dropComments heard h ts
    · have hrun : t.withoutComments.extendRun [] = [] := by
        rw [extendRun, isComment_withoutComments, if_neg ht, ite_self]
      rw [if_neg ht, sitesOf, hrun, Site.readings_append, Site.readings_append,
        readings_sites_withoutComments heard h t, readings_sitesOf_dropComments heard h ts]

end

/-! ## 4. Comments and formatters do not interfere -/

theorem self_mem_sites (run : List Tree) (around : Option (Tree × List Tree)) (t : Tree) :
    Site.mk t run around ∈ t.sites run around := by
  cases t
  exact List.mem_cons_self

mutual

theorem thinned_withoutComments (run : List Tree) (around : Option (Tree × List Tree)) :
    ∀ t : Tree, (∀ s ∈ t.sites run around,
        s.node.kind = .comment → s.node.label = none ∧ s.node.hasClass = false) →
      Thinned silence t t.withoutComments
  | .node k l s cs, h => by
    rw [sites] at h
    exact .node (fun _ => rfl)
      (thinnedAmong_dropComments [] _ _ cs fun s hs => h s (List.mem_cons_of_mem _ hs))

theorem thinnedAmong_dropComments (run : List Tree) (around : Option (Tree × List Tree))
    (p : Place) :
    ∀ ts : List Tree, (∀ s ∈ sitesOf run around ts,
        s.node.kind = .comment → s.node.label = none ∧ s.node.hasClass = false) →
      ThinnedAmong silence (Thinned silence) p ts (dropComments ts)
  | [], _ => .nil
  | t :: ts, h => by
    rw [sitesOf] at h
    have hrest (p : Place) := thinnedAmong_dropComments (t.extendRun run) around p ts
      fun s hs => h s (List.mem_append_right _ hs)
    rw [dropComments]
    by_cases ht : t.isComment = true
    · have hk : t.kind = .comment := (isComment_iff t).mp ht
      obtain ⟨hlabel, hclass⟩ := h _ (List.mem_append_left _ (self_mem_sites run around t)) hk
      rw [if_pos ht]
      exact .drop ⟨hlabel, hclass, .inl ⟨hk, rfl⟩⟩ (fun hdecorator => by cases hk ▸ hdecorator)
        (hrest p)
    · rw [if_neg ht]
      exact .keep (thinned_withoutComments run around t fun s hs => h s (List.mem_append_left _ hs))
        (hrest _)

end

theorem forall_walk_iff_forall_sites (t : Tree) :
    (∀ c ∈ t.walk, c.focus.kind = .comment →
      c.focus.label = none ∧ c.focus.declarations = []) ↔
    ∀ s ∈ t.sites [] none, s.node.kind = .comment →
      s.node.label = none ∧ s.node.hasClass = false := by
  rw [← map_site_walk, List.forall_mem_map]
  simp only [hasClass_eq_false_iff]
  rfl

/-- Without the comments the tree is thinned, and where there are none, none is heard. -/
theorem undescribed_extract_of_sites (f g : Formatter) (t : Tree)
    (h : ∀ s ∈ t.sites [] none, s.node.kind = .comment →
      s.node.label = none ∧ s.node.hasClass = false) :
    (t.extract f).undescribed = t.withoutComments.extract g := by
  have hthinned := thinned_withoutComments [] none t h
  have hreadings :=
    calc t.readings silence
      _ = t.withoutComments.readings silence := hthinned.readings_eq.symm
      _ = t.withoutComments.readings Doc.isDocComment :=
        (readings_sites_withoutComments Doc.isDocComment rfl t).symm
  rw [undescribed_extract f g, hreadings, extract_eq_readings]

/-- A tree and the tree without comments define the same under any two formatters, except for the
descriptions, which only the former has.  The comments play no part in their parents, and no class
stands in a comment: in the tree of a source text they are leaves (`comments_of_parseUnit`). -/
theorem undescribed_extract_eq (f g : Formatter) (t : Tree)
    (h : ∀ c ∈ t.walk, c.focus.kind = .comment →
      c.focus.label = none ∧ c.focus.declarations = []) :
    (t.extract f).undescribed = t.withoutComments.extract g ∧
      (t.withoutComments.extract g).IsUndescribed := by
  have heq := undescribed_extract_of_sites f g t ((forall_walk_iff_forall_sites t).mp h)
  refine ⟨heq, ?_⟩
  rw [← heq]
  exact Catalog.isUndescribed_undescribed _

theorem undescribed_extract_eq_documented :
    (∀ c ∈ (node .program none "" [leaf .comment "/** A. */", directive "app-a"]).walk,
      c.focus.kind = .comment → c.focus.label = none ∧ c.focus.declarations = []) ∧
    ((node .program none "" [leaf .comment "/** A. */", directive "app-a"]).extract
        (.ofDetail .simple .simple)).undescribed =
      (node .program none "" [directive "app-a"]).extract (.ofDetail .summary .summary) ∧
    ((node .program none "" [directive "app-a"]).extract
      (.ofDetail .summary .summary)).IsUndescribed := by
  have h : ∀ c ∈ (node .program none "" [leaf .comment "/** A. */", directive "app-a"]).walk,
      c.focus.kind = .comment → c.focus.label = none ∧ c.focus.declarations = [] :=
    (forall_walk_iff_forall_sites _).mpr (by decide)
  exact ⟨h, undescribed_extract_eq _ _ _ h⟩

end Tree
end MarkupCatalog
