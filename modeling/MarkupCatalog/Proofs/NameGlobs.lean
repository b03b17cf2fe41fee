import MarkupCatalog.Proofs.GlobLines
import MarkupCatalog.Proofs.LiteralPrefixes
import MarkupCatalog.Proofs.OfferedFiles

/-!
# Globs of names

A glob without slashes and braces is for the names of files.  The rule of a pattern is tied to the
top for it, so that it selects files directly below the root of the pattern only, unless the glob
begins with two stars.  Then the rule is not tied, and it selects files of such names at every
depth.
-/

namespace MarkupCatalog

open Glob (Applies Rule)

namespace Glob

/-! ## 1. Rules for names -/

/-- The glob that remains of a pattern has neither slashes nor braces, and no class of characters
in it has the slash among them. -/
structure IsNameGlob (pattern : String) : Prop where
  noSlash : '/' ∉ (Rooted.ofPattern pattern).glob.toList
  noBrace : '\x7b' ∉ (Rooted.ofPattern pattern).glob.toList
  noOpenClass : ∀ r, Rule.parse "" (Rooted.ofPattern pattern).tied = .ok r →
    ∀ p ∈ r.glob, ¬ p.IsOpenClass

namespace IsNameGlob

variable {pattern : String} (h : IsNameGlob pattern)

include h

/-- A rule that is tied to the top applies to single names. -/
theorem eq_singleton_of_applies (hstars : ¬ BeginsWithStars pattern) {names : List RawText}
    (hne : names ≠ []) (happlies : Applies (Rooted.ofPattern pattern).tied names false) :
    ∃ name, names = [name] := by
  obtain ⟨r, hr, happlies⟩ := happlies
  have hclosed := h.noOpenClass r hr
  obtain ⟨hglob, -⟩ := Rule.parse_eq_ok_iff_body.mp hr
  rw [toList_tied (Rule.head?_ne_of_notMem h.noSlash) hstars, Rule.trimmed_slash] at hglob
  have hbegins := Rule.trimmed_prefix (Rooted.ofPattern pattern).glob.toList
  have hslash := fun hmem => h.noSlash (hbegins.subset hmem)
  have hbrace := fun hmem => h.noBrace (hbegins.subset hmem)
  rw [Rule.body_slash_of_notMem hslash, parse_eq_ok_iff] at hglob
  obtain ⟨qs, hqs, hwithin⟩ := hglob.within rfl hslash hbrace nofun fun _ heq =>
    hstars (by rwa [heq] at hbegins)
  rw [List.reverse_nil, List.nil_append] at hqs
  have hall : ∀ p ∈ r.glob, p.Within := fun p hp =>
    (hwithin p (hqs ▸ hp)).resolve_right (hclosed p hp)
  have hleading : r.glob ≠ [.leading] := by
    intro heq
    cases hall .leading (heq ▸ List.mem_cons_self)
  obtain ⟨-, hreads⟩ := Bool.and_eq_true_iff.mp happlies
  rw [reads_eq_acceptsAll hleading] at hreads
  exact eq_singleton_of_notMem hne (slash_notMem_of_acceptsAll hall hreads)

/-- A rule that is not tied reads any path, or directories and then one name. -/
theorem glob_of_stars (hstars : BeginsWithStars pattern) {r : Rule}
    (hr : Rule.parse "" (Rooted.ofPattern pattern).tied = .ok r) :
    r.glob = [.leading] ∨ ∃ p ps, r.glob = .leading :: p :: ps ∧ ∀ q ∈ p :: ps, q.Within := by
  have hclosed := h.noOpenClass r hr
  obtain ⟨hglob, -⟩ := Rule.parse_eq_ok_iff_body.mp hr
  rw [tied_of_stars hstars] at hglob
  -- the line begins with the stars too
  obtain ⟨u, hu⟩ := hstars
  obtain ⟨v, hv⟩ := Rule.prefix_trimmed_append (by decide : ∀ c ∈ ['*', '*'].getLast?, _) u
  have hbegins := Rule.trimmed_prefix (Rooted.ofPattern pattern).glob.toList
  rw [← hu, ← hv] at hbegins
  rw [← hu, ← hv] at hglob
  have hslash := fun hmem => h.noSlash (hu ▸ hbegins.subset hmem)
  have hbrace := fun hmem => h.noBrace (hu ▸ hbegins.subset hmem)
  by_cases hempty : v = []
  · subst hempty
    rw [List.append_nil, Rule.body_stars, parse_stars] at hglob
    exact .inl (Except.ok.inj hglob).symm
  · have hslash' : '/' ∉ v := fun hmem => hslash (List.mem_append_right _ hmem)
    have hbrace' : '\x7b' ∉ v := fun hmem => hbrace (List.mem_append_right _ hmem)
    have hne : ['*', '*'] ++ v ≠ ['*', '*'] := mt List.append_right_eq_self.mp hempty
    rw [Rule.body_of_notMem hslash hne, parse_everywhere] at hglob
    have hplain := afterStars_of_notMem hslash' hempty (some '/') [.leading]
    rw [List.cons_append, List.singleton_append, parseFrom] at hglob
    simp only [List.isEmpty_nil, Bool.not_true, hplain] at hglob
    obtain ⟨qs, hqs, hwithin⟩ :=
      (parseFrom_eq_ok_iff.mp hglob).within rfl hslash' hbrace' (by decide)
        fun hnil => absurd hnil (List.cons_ne_nil _ _)
    refine .inr ⟨.star, .star :: qs, hqs, ?_⟩
    intro q hq
    rcases List.mem_append.mp (show q ∈ [.star, .star] ++ qs from hq) with hq | hq
    · exact within_of_stars q hq
    · refine (hwithin q hq).resolve_right (hclosed q ?_)
      rw [hqs]
      exact List.mem_append_right _ hq

theorem reads_append_iff (hstars : BeginsWithStars pattern) {r : Rule}
    (hr : Rule.parse "" (Rooted.ofPattern pattern).tied = .ok r) {names : List RawText}
    {name : RawText} (hnames : ∀ n ∈ names ++ [name], IsEntryName n) :
    reads r.glob (Rule.bytesOf (names ++ [name])) = true ↔
      reads r.glob (Rule.bytesOf [name]) = true := by
  rcases h.glob_of_stars hstars hr with hglob | ⟨p, ps, hglob, hwithin⟩
  · rw [hglob]
    exact Iff.rfl
  · have hne : r.glob ≠ [.leading] := by
      rw [hglob]
      nofun
    have hname : ∀ n ∈ [name], IsEntryName n := fun n hn => hnames n (List.mem_append_right _ hn)
    rw [reads_eq_acceptsAll hne, reads_eq_acceptsAll hne, hglob,
      acceptsAll_leading_iff hnames (List.append_ne_nil_of_right_ne_nil _ (List.cons_ne_nil _ _)),
      acceptsAll_leading_iff hname (List.cons_ne_nil _ _)]
    -- what is left for the other pieces is one name, which is the last one
    constructor
    · rintro ⟨front, back, heq, hback, haccepts⟩
      obtain ⟨n, rfl⟩ :=
        eq_singleton_of_notMem hback (slash_notMem_of_acceptsAll hwithin haccepts)
      obtain ⟨-, hn⟩ := List.append_inj' heq rfl
      exact ⟨[], [name], rfl, List.cons_ne_nil _ _, hn ▸ haccepts⟩
    · rintro ⟨front, back, heq, hback, haccepts⟩
      rcases List.append_eq_singleton_iff.mp heq.symm with ⟨-, rfl⟩ | ⟨-, hnil⟩
      · exact ⟨names, [name], rfl, List.cons_ne_nil _ _, haccepts⟩
      · exact absurd hnil hback

/-- A rule that is not tied applies to a path if it applies to the last name. -/
theorem applies_append_iff (hstars : BeginsWithStars pattern) {names : List RawText}
    {name : RawText} (hnames : ∀ n ∈ names ++ [name], IsEntryName n) :
    Applies (Rooted.ofPattern pattern).tied (names ++ [name]) false ↔
      Applies (Rooted.ofPattern pattern).tied [name] false := by
  apply exists_congr
  intro r
  apply and_congr_right
  intro hr
  rw [Rule.applies, Rule.applies, Bool.and_eq_true, Bool.and_eq_true,
    h.reads_append_iff hstars hr hnames]

end IsNameGlob
end Glob

/-! ## 2. Direct children -/

/-- The path leads to an entry of the directory at `root`. -/
def Selection.IsChild (root : Path) (entries : List (RawText × Node)) (p : Path) : Prop :=
  ∃ name node, (name, node) ∈ entries ∧ p = root.join ⟨name⟩

open Selection (IsChild Offers pathOf walkRoot)

theorem Selection.Offers.isChild {excludes : List String} {entries : List (RawText × Node)}
    {name : RawText} (h : Offers excludes entries [name]) (root : Path) :
    IsChild root entries (pathOf root [name]) := by
  obtain ⟨content, hfile⟩ := h.isFile
  rw [Node.at?_directory] at hfile
  obtain ⟨node, hnode, -⟩ := Option.bind_eq_some_iff.mp hfile
  exact ⟨name, node, Node.mem_of_named? hnode, rfl⟩

/-- A glob of names selects direct children of the root only, unless it begins with two stars and a
file further down has a name that it applies to. -/
theorem FileSystem.select_children_iff {fs : FileSystem} (hproper : fs.Proper) {base : Path}
    {pattern : String} (hglob : Glob.IsNameGlob pattern) {excludes : List String}
    {files : List Path} (h : fs.select base pattern excludes = .ok files) :
    ∃ entries, fs.directory? (walkRoot base pattern) = some entries ∧
      ((∀ p ∈ files, IsChild (walkRoot base pattern) entries p) ↔
        ¬ (Glob.BeginsWithStars pattern ∧ ∃ names name, names ≠ [] ∧
          Offers excludes entries (names ++ [name]) ∧
          Applies (Glob.Rooted.ofPattern pattern).tied [name] false)) := by
  obtain ⟨entries, hentries, hentriesProper, hmem⟩ := mem_select_iff hproper h
  have hroot := bytes_ne_nil_of_directory? hentries
  refine ⟨entries, hentries, ?_, ?_⟩
  · -- a file further down would be selected, and is no child of the root
    rintro hchildren ⟨hstars, names, name, hne, hoffers, happlies⟩
    have hnames := hoffers.names hentriesProper
    have hselected := (hmem _).mpr
      ⟨names ++ [name], hoffers, (hglob.applies_append_iff hstars hnames).mpr happlies, rfl⟩
    obtain ⟨n, node, hn, hpath⟩ := hchildren _ hselected
    have hentry : ∀ m ∈ [n], IsEntryName m := by
      rintro m hm
      exact List.mem_singleton.mp hm ▸ hentriesProper.isEntryName hn
    have heq : names ++ [name] = [n] := Selection.pathOf_injective hroot hnames hentry hpath
    rcases List.append_eq_singleton_iff.mp heq with ⟨hnil, -⟩ | ⟨-, hcons⟩
    · exact hne hnil
    · exact List.cons_ne_nil _ _ hcons
  · intro hshallow p hp
    obtain ⟨names, hoffers, happlies, rfl⟩ := (hmem p).mp hp
    -- behind two stars only the last name counts, elsewhere there is one name only
    by_cases hstars : Glob.BeginsWithStars pattern
    · have hlast := List.dropLast_append_getLast hoffers.ne_nil
      have hnames := hoffers.names hentriesProper
      generalize names.dropLast = front at hlast
      generalize names.getLast hoffers.ne_nil = name at hlast
      subst hlast
      have happlies' := (hglob.applies_append_iff hstars hnames).mp happlies
      have hfront : front = [] := by
        by_contra hne
        exact hshallow ⟨hstars, front, name, hne, hoffers, happlies'⟩
      subst hfront
      exact hoffers.isChild _
    · obtain ⟨name, rfl⟩ := hglob.eq_singleton_of_applies hstars hoffers.ne_nil happlies
      exact hoffers.isChild _

section Example

/-- A file in a directory. -/
def deepFile : FileSystem := ⟨[("lib", .directory [("a.ts", .file .empty)])]⟩

theorem proper_deepFile : deepFile.Proper := by
  have hfile : IsEntryName "a.ts" := ⟨by decide, by decide, by decide, by decide⟩
  have hdirectory : IsEntryName "lib" := ⟨by decide, by decide, by decide, by decide⟩
  exact Node.Proper.nil.cons hdirectory (by decide)
    (Node.Proper.nil.cons hfile (by decide) (.file _))

/-- The rule `**.ts`. -/
def Glob.Rule.anyDepth : Rule :=
  { glob := .leading :: .star :: .star :: ".ts".toList.flatMap literal, directoriesOnly := false }

theorem Glob.Rule.parse_anyDepth : parse "" "**.ts" = .ok anyDepth := by
  have hbody : body (trimmed "**.ts".toList) = ['*', '*', '/', '*', '*', '.', 't', 's'] := by decide
  rw [parse_eq_ok_iff_body, hbody]
  constructor
  · simp [Glob.parse, parseFrom, pushLiteral, afterStars]
    rfl
  · decide

theorem select_deepFile : deepFile.select ⟨"/"⟩ "**.ts" [] = .ok [⟨"/lib/a.ts"⟩] := by
  have hroot : walkRoot ⟨"/"⟩ "**.ts" = ⟨"/"⟩ := by decide
  have hpath : pathOf ⟨"/"⟩ ["lib", "a.ts"] = ⟨"/lib/a.ts"⟩ := by decide
  have htied : (Glob.Rooted.ofPattern "**.ts").tied = "**.ts" := by decide
  have hpatterns : Selection.ofPatterns "**.ts" [] = .ok ⟨.anyDepth, []⟩ := by
    unfold Selection.ofPatterns Selection.rule
    rw [htied, Rule.parse_anyDepth]
    rfl
  have hinner : (Selection.mk .anyDepth []).walk ["lib"] [("a.ts", .file .empty)] =
      [[.ofString "lib", .ofString "a.ts"]] := by
    rw [Selection.walk_eq_flatMap]
    decide
  have hwalk : (Selection.mk .anyDepth []).walk [] deepFile.entries =
      [[.ofString "lib", .ofString "a.ts"]] := by
    have houter : (Selection.mk .anyDepth []).walk [] deepFile.entries =
        (Selection.mk .anyDepth []).found [] ("lib", .directory [("a.ts", .file .empty)]) ++ [] :=
      Selection.walk_eq_flatMap _ _ _
    rw [houter, List.append_nil, ← hinner]
    rfl
  rw [FileSystem.select_eq_ok_iff, hroot]
  refine ⟨deepFile.entries, _, directory?_root deepFile, hpatterns, ?_⟩
  rw [hwalk, Selection.sorted, List.mergeSort_singleton, List.map_singleton, hpath]

theorem isNameGlob_anyDepth : Glob.IsNameGlob "**.ts" where
  noSlash := by decide
  noBrace := by decide
  noOpenClass r hr p hp := by
    have htied : (Glob.Rooted.ofPattern "**.ts").tied = "**.ts" := by decide
    rw [htied, Rule.parse_anyDepth] at hr
    obtain rfl := Except.ok.inj hr
    rintro ⟨hclass⟩
    simp [Rule.anyDepth, Glob.literal] at hp

theorem not_isChild_deepFile : ¬ IsChild ⟨"/"⟩ deepFile.entries ⟨"/lib/a.ts"⟩ := by
  rintro ⟨name, node, hentry, hpath⟩
  obtain ⟨rfl, -⟩ := Prod.mk.inj (List.mem_singleton.mp hentry)
  exact absurd hpath (by decide)

/-- A file further down is selected, and its name alone is why. -/
theorem FileSystem.select_children_iff_deepFile :
    deepFile.Proper ∧ Glob.IsNameGlob "**.ts" ∧
      deepFile.select ⟨"/"⟩ "**.ts" [] = .ok [⟨"/lib/a.ts"⟩] ∧
      ∃ entries names name, deepFile.directory? ⟨"/"⟩ = some entries ∧ names ≠ [] ∧
        Offers [] entries (names ++ [name]) ∧
        Applies (Glob.Rooted.ofPattern "**.ts").tied [name] false := by
  have hroot : walkRoot ⟨"/"⟩ "**.ts" = ⟨"/"⟩ := by decide
  refine ⟨proper_deepFile, isNameGlob_anyDepth, select_deepFile, ?_⟩
  obtain ⟨entries, hentries, hiff⟩ :=
    select_children_iff proper_deepFile isNameGlob_anyDepth select_deepFile
  rw [hroot] at hentries hiff
  obtain rfl := Option.some.inj ((directory?_root deepFile).symm.trans hentries)
  by_contra hnone
  -- were there no such file, the selected one would be a direct child
  have hchildren := hiff.mpr fun ⟨_, names, name, hne, hoffers, happlies⟩ =>
    hnone ⟨deepFile.entries, names, name, hentries, hne, hoffers, happlies⟩
  exact not_isChild_deepFile (hchildren _ List.mem_cons_self)

/-- Two stars that are no component of their own lead further down than one star. -/
theorem FileSystem.select_stars_deeper :
    '/' ∉ (Glob.Rooted.ofPattern "**.ts").glob.toList ∧
      '\x7b' ∉ (Glob.Rooted.ofPattern "**.ts").glob.toList ∧
      (Glob.Rooted.ofPattern "**.ts").glob ≠ "**" ∧ deepFile.Proper ∧
      deepFile.select ⟨"/"⟩ "**.ts" [] = .ok [⟨"/lib/a.ts"⟩] ∧
      ¬ IsChild ⟨"/"⟩ deepFile.entries ⟨"/lib/a.ts"⟩ :=
  ⟨by decide, by decide, by decide, proper_deepFile, select_deepFile, not_isChild_deepFile⟩

end Example

end MarkupCatalog
