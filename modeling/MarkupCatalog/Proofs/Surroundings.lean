import MarkupCatalog.Proofs.Locality
import MarkupCatalog.Proofs.Outline
import MarkupCatalog.Proofs.ThinnedReadings

/-!
# Surroundings

A node with the tree around it.  The sites of the whole tree are those before the node, those at and
below it, and those behind it, and of what stands between only its face counts: its decorators, the
comments at its head and, of a class, its members.
-/

namespace MarkupCatalog

/-! ## 1. The tree around a place -/

/-- The node around `t`, which stands between the siblings `before` (nearest first) and `after`. -/
def Frame.plug (f : Frame) (before after : List Tree) (t : Tree) : Tree :=
  .node f.kind f.label f.text (before.reverse ++ t :: after)

namespace Tree

/-- The whole tree around a node. -/
def rebuilt (before after : List Tree) : List Frame → Tree → Tree
  | [], t => t
  | f :: fs, t => rebuilt f.before f.after fs (f.plug before after t)

/-- The sites that come before a node in the tree around it. -/
def sitesBefore (before after : List Tree) : List Frame → Tree → List Site
  | [], _ => []
  | f :: fs, t =>
    let up := f.plug before after t
    let run := commentRun f.before
    sitesBefore f.before f.after fs up ++
      ⟨up, run, aroundIn (f.before.reverse ++ up :: f.after) fs⟩ ::
        sitesOf [] (aroundChildren run up) before.reverse

/-- The sites that come behind a node and all that is below it. -/
def sitesBehind (before after : List Tree) : List Frame → Tree → List Site
  | [], _ => []
  | f :: fs, t =>
    let up := f.plug before after t
    sitesOf (t.extendRun (commentRun before)) (aroundChildren (commentRun f.before) up) after ++
      sitesBehind f.before f.after fs up

end Tree

/-- The outermost node has no siblings. -/
def Frame.Rooted (before after : List Tree) : List Frame → Prop
  | [] => before = [] ∧ after = []
  | f :: fs => Rooted f.before f.after fs

theorem Tree.sites_plug (f : Frame) (before after : List Tree) (t : Tree) (run : List Tree)
    (around : Option (Tree × List Tree)) :
    (f.plug before after t).sites run around =
      ⟨f.plug before after t, run, around⟩ ::
        (sitesOf [] (aroundChildren run (f.plug before after t)) before.reverse ++
          (t.sites (commentRun before) (aroundChildren run (f.plug before after t)) ++
            sitesOf (t.extendRun (commentRun before)) (aroundChildren run (f.plug before after t))
              after)) := by
  conv_lhs =>
    rw [Frame.plug, sites, sitesOf_append, runAfter_nil_eq, List.reverse_reverse, sitesOf]
  rfl

theorem Tree.sites_rebuilt (above : List Frame) {before after : List Tree} (t : Tree)
    (h : Frame.Rooted before after above) :
    (rebuilt before after above t).sites [] none =
      sitesBefore before after above t ++
        t.sites (commentRun before) (aroundIn (before.reverse ++ t :: after) above) ++
          sitesBehind before after above t := by
  induction above generalizing before after t with
  | nil =>
    obtain ⟨rfl, rfl⟩ := h
    exact (List.append_nil _).symm
  | cons f fs ih =>
    rw [rebuilt, ih _ h, sites_plug, sitesBefore, sitesBehind]
    simp only [List.append_assoc, List.cons_append]
    rfl

namespace Cursor

/-- The whole tree that the cursor is in. -/
def top (c : Cursor) : Tree := Tree.rebuilt c.before c.after c.above c.focus

def Rooted (c : Cursor) : Prop := Frame.Rooted c.before c.after c.above

end Cursor

mutual

theorem Tree.top_of_mem_places {c : Cursor} (before after : List Tree) (above : List Frame) :
    ∀ t : Tree, c ∈ t.places before after above →
      c.top = rebuilt before after above t ∧
        (Frame.Rooted before after above → c.Rooted)
  | .node k l s cs, h => by
    rw [Tree.places] at h
    rcases List.mem_cons.mp h with rfl | h
    · exact ⟨rfl, id⟩
    · exact Tree.top_of_mem_placesOf [] ⟨k, l, s, before, after⟩ above cs h

theorem Tree.top_of_mem_placesOf {c : Cursor} (before : List Tree) (f : Frame)
    (fs : List Frame) :
    ∀ ts : List Tree, c ∈ placesOf before (f :: fs) ts →
      c.top = rebuilt f.before f.after fs
          (.node f.kind f.label f.text (before.reverse ++ ts)) ∧
        (Frame.Rooted f.before f.after fs → c.Rooted)
  | [], h => absurd h List.not_mem_nil
  | t :: ts, h => by
    rw [Tree.placesOf] at h
    rcases List.mem_append.mp h with h | h
    · exact Tree.top_of_mem_places before ts (f :: fs) t h
    · have hrest := Tree.top_of_mem_placesOf (t :: before) f fs ts h
      rwa [List.reverse_cons, List.append_assoc, List.singleton_append] at hrest

end

theorem Cursor.top_of_mem_walk {c : Cursor} {t : Tree} (h : c ∈ t.walk) :
    c.top = t ∧ c.Rooted := by
  rw [Tree.walk_eq_places] at h
  obtain ⟨htop, hrooted⟩ := Tree.top_of_mem_places [] [] [] t h
  exact ⟨htop, hrooted ⟨rfl, rfl⟩⟩

/-! ## 2. What is read from outside -/

/-- What the nodes in an export hear and see of it. -/
structure Site.SameAround (around around' : Option (Tree × List Tree)) : Prop where
  signs : (aroundDecorators around').filterMap Tree.sign? =
    (aroundDecorators around).filterMap Tree.sign?
  texts : (aroundComments around').map Tree.text = (aroundComments around).map Tree.text

/-- What is read of a node from outside: of a class its reading, and of an export what its class
hears and sees. -/
structure Tree.Faces (t u : Tree) : Prop where
  kind : u.kind = t.kind
  signs : t.kind.isClass = true ∨ t.kind = .exportStatement →
    u.decorators.filterMap sign? = t.decorators.filterMap sign?
  texts : t.kind.isClass = true ∨ t.kind = .exportStatement →
    u.leadingComments.map text = t.leadingComments.map text
  members : ∀ heard, t.kind.isClass = true →
    u.members.map (Member.reading heard) = t.members.map (Member.reading heard)

namespace Site

variable {around around' : Option (Tree × List Tree)} {run run' : List Tree}

theorem SameAround.refl (around : Option (Tree × List Tree)) : SameAround around around :=
  ⟨rfl, rfl⟩

theorem sameAround_children {t u : Tree} (h : t.Faces u)
    (hrun : run'.map Tree.text = run.map Tree.text) :
    SameAround (Tree.aroundChildren run t) (Tree.aroundChildren run' u) := by
  unfold Tree.aroundChildren
  rw [h.kind]
  by_cases hk : t.kind = .exportStatement
  · rw [if_pos hk, if_pos hk]
    refine ⟨h.signs (.inr hk), ?_⟩
    show (run'.reverse ++ _).map _ = (run.reverse ++ _).map _
    rw [List.map_append, List.map_append, List.map_reverse, List.map_reverse, hrun,
      h.texts (.inr hk)]
  · rw [if_neg hk, if_neg hk]
    exact .refl none

theorem reading_congr (heard : String → Bool) {t u : Tree} (h : t.Faces u)
    (hclass : t.kind.isClass = true) (hrun : run'.map Tree.text = run.map Tree.text)
    (haround : SameAround around around') :
    (Site.mk u run' around').reading heard = (Site.mk t run around).reading heard := by
  have hsigns : (Site.mk u run' around').decoratorNodes.filterMap Tree.sign? =
      (Site.mk t run around).decoratorNodes.filterMap Tree.sign? := by
    unfold decoratorNodes
    rw [List.filterMap_append, List.filterMap_append, haround.signs, h.signs (.inl hclass)]
  have hdoc : Doc.among heard (Site.mk u run' around').comments =
      Doc.among heard (Site.mk t run around).comments := by
    apply Doc.among_congr
    show (aroundComments around' ++ (run'.reverse ++ u.leadingComments)).map Tree.text =
      (aroundComments around ++ (run.reverse ++ t.leadingComments)).map Tree.text
    simp only [List.map_append, List.map_reverse, haround.texts, hrun, h.texts (.inl hclass)]
  unfold reading
  rw [hsigns, hdoc]
  dsimp only
  rw [h.members heard hclass]

end Site

theorem Tree.Faces.refl (t : Tree) : t.Faces t := ⟨rfl, fun _ => rfl, fun _ => rfl, fun _ _ => rfl⟩

mutual

theorem Tree.readings_sites_congr (heard : String → Bool) {run run' : List Tree}
    {around around' : Option (Tree × List Tree)} (hrun : run'.map Tree.text = run.map Tree.text)
    (haround : Site.SameAround around around') : ∀ t : Tree,
      Site.readings heard (t.sites run' around') = Site.readings heard (t.sites run around)
  | .node k l s cs => by
    have hnone : [].map text = [].map text := rfl
    have hchildren := Tree.readings_sitesOf_congr heard hnone
      (Site.sameAround_children (.refl (.node k l s cs)) hrun) cs
    rw [Tree.readings_sites, Tree.readings_sites, children_node, kind_node, hchildren]
    by_cases hclass : k.isClass = true
    · rw [if_pos hclass, if_pos hclass,
        Site.reading_congr heard (.refl (.node k l s cs)) hclass hrun haround]
    · rw [if_neg hclass, if_neg hclass]

theorem Tree.readings_sitesOf_congr (heard : String → Bool) {run run' : List Tree}
    {around around' : Option (Tree × List Tree)} (hrun : run'.map Tree.text = run.map Tree.text)
    (haround : Site.SameAround around around') : ∀ ts : List Tree,
      Site.readings heard (sitesOf run' around' ts) = Site.readings heard (sitesOf run around ts)
  | [] => rfl
  | t :: ts => by
    have hnext : (t.extendRun run').map Tree.text = (t.extendRun run).map Tree.text := by
      unfold extendRun
      split
      next => split <;> simp only [List.map_cons, hrun]
      next => exact hrun
    rw [sitesOf, sitesOf, Site.readings_append, Site.readings_append,
      Tree.readings_sites_congr heard hrun haround t,
      Tree.readings_sitesOf_congr heard hnext haround ts]

end

end MarkupCatalog
