import MarkupCatalog.Proofs.SelectedFiles

/-!
# Literal prefixes of patterns

A directory that a pattern names literally in front of the rest means the same as this directory as
the base of the rest: both walk the same directory with the same rules, so that exclude patterns
are relative to the literal prefix, wherever it comes from.
-/

namespace MarkupCatalog

/-! ## 1. Joined paths -/

namespace Path

theorem isAbsolute_iff {s : String} :
    (⟨s⟩ : Path).isAbsolute = true ↔ s.toList.head? = some '/' := by
  rw [isAbsolute, decide_eq_true_iff]
  exact RawText.head?_bytes (by decide)

theorem endsInSlash_iff {s : String} :
    (⟨s⟩ : Path).endsInSlash = true ↔ s.toList.getLast? = some '/' := by
  rw [endsInSlash, decide_eq_true_iff]
  exact RawText.getLast?_bytes (by decide)

theorem isAbsolute_eq_false {s : String} (h : s.toList.head? ≠ some '/') :
    (⟨s⟩ : Path).isAbsolute = false := Bool.eq_false_iff.mpr (mt isAbsolute_iff.mp h)

/-- Only a text that starts with a dot is the directory itself. -/
theorem components_ne_here {s : String} (h : (Text.split '/' s.toList).head? ≠ some ['.']) :
    (⟨s⟩ : Path).components ≠ [.here] := by
  have hpiece (piece : List UInt8) : Component.ofPiece? piece ≠ some .here := by
    unfold Component.ofPiece?
    split_ifs <;> nofun
  have hfirst : (Text.split slash (RawText.ofString s).bytes).head? ≠ some [dot] := by
    rw [RawText.ofString, RawText.split_bytes (by decide), List.head?_map]
    intro hdot
    obtain ⟨piece, hhead, hbytes⟩ := Option.map_eq_some_iff.mp hdot
    obtain rfl : piece = ['.'] := RawText.ofChars_injective (congrArg RawText.mk hbytes)
    exact h hhead
  intro hhere
  have hmem : Component.here ∈ (⟨s⟩ : Path).components := by
    rw [hhere]
    exact List.mem_singleton.mpr rfl
  unfold components at hmem
  simp only [hfirst, if_false] at hmem
  rcases List.mem_append.mp hmem with hlead | hrest
  · split at hlead <;> simp at hlead
  · obtain ⟨piece, -, hread⟩ := List.mem_filterMap.mp hrest
    exact hpiece piece hread

/-- A directory that is relative to the base can be put in front of a path relative to it. -/
theorem join_assoc {base d more : Path} (hne : d.raw.bytes ≠ []) (hd : d.isAbsolute = false)
    (hmore : more.isAbsolute = false) : (base.join d).join more = base.join (d.join more) := by
  have hjoin {p : Path} (base : Path) (hp : p.isAbsolute = false) : base.join p =
      if base.raw.bytes = [] ∨ base.endsInSlash then ⟨⟨base.raw.bytes ++ p.raw.bytes⟩⟩
      else ⟨⟨base.raw.bytes ++ slash :: p.raw.bytes⟩⟩ := by
    rw [join, hp, if_neg Bool.false_ne_true]
  have hdirectory : (d.join more).isAbsolute = false := by
    rw [hjoin d hmore]
    split
    next => exact (isAbsolute_append hne).trans hd
    next => exact (isAbsolute_append hne).trans hd
  -- the base with the directory ends as the directory does
  have hjoined (front : List UInt8) : (⟨⟨front ++ d.raw.bytes⟩⟩ : Path).join more =
      ⟨⟨front ++ (d.join more).raw.bytes⟩⟩ := by
    have hempty : ¬ (⟨⟨front ++ d.raw.bytes⟩⟩ : Path).raw.bytes = [] :=
      List.append_ne_nil_of_right_ne_nil front hne
    have hends : (⟨⟨front ++ d.raw.bytes⟩⟩ : Path).endsInSlash = d.endsInSlash := by
      unfold endsInSlash
      rw [List.getLast?_append_of_ne_nil front hne]
    rw [hjoin _ hmore, hjoin d hmore, hends]
    simp only [hempty, hne, false_or]
    split
    next => rw [List.append_assoc]
    next => rw [List.append_assoc]
  rw [hjoin base hd, hjoin base hdirectory]
  split
  next => exact hjoined base.raw.bytes
  next =>
    have hslash := hjoined (base.raw.bytes ++ [slash])
    rwa [List.append_assoc, List.append_assoc] at hslash

theorem join_eq_append {d more : String} (hne : d ≠ "") (hlast : d.toList.getLast? ≠ some '/')
    (hmore : more.toList.head? ≠ some '/') :
    (⟨d⟩ : Path).join ⟨more⟩ = ⟨d ++ "/" ++ more⟩ := by
  have hempty : ¬ ((⟨d⟩ : Path).raw.bytes = [] ∨ (⟨d⟩ : Path).endsInSlash = true) := by
    rintro (h | h)
    · exact hne (String.toList_eq_nil_iff.mp (RawText.bytes_eq_nil_iff.mp h))
    · exact hlast (endsInSlash_iff.mp h)
  have hbytes : (RawText.ofString (d ++ "/" ++ more)).bytes =
      (RawText.ofString d).bytes ++ slash :: (RawText.ofString more).bytes := by
    rw [RawText.ofString, String.toList_append, String.toList_append, RawText.bytes_append,
      RawText.bytes_append, List.append_assoc]
    rfl
  rw [join, isAbsolute_eq_false hmore, if_neg Bool.false_ne_true, if_neg hempty, ← hbytes]

end Path

/-! ## 2. Patterns with a literal prefix -/

namespace Glob

/-- A pattern with slashes of one kind. -/
def slashed (pattern : String) : List Char :=
  pattern.toList.map fun c => if c = '\\' then '/' else c

/-- The components of a pattern, whichever slashes separate them. -/
def components (pattern : String) : List (List Char) := Text.split '/' (slashed pattern)

/-- A relative directory, written without wildcards and without what does not count in a path. -/
structure IsLiteralDirectory (d : String) : Prop where
  noWildcard : ∀ c ∈ d.toList, Rooted.isWildcard c = false
  noBackslash : '\\' ∉ d.toList
  noEmpty : [] ∉ Text.split '/' d.toList
  noDot : ['.'] ∉ Text.split '/' d.toList

/-- A pattern that is relative to its base. -/
structure IsRelative (pattern : String) : Prop where
  noSlash : pattern.toList.head? ≠ some '/'
  noBackslash : pattern.toList.head? ≠ some '\\'
  noDot : ['.'] ∉ components pattern

/-- A root below the base: a relative path that does not start with the base itself. -/
structure IsBelow (root : String) : Prop where
  nonempty : root ≠ ""
  noSlash : root.toList.head? ≠ some '/'
  noDot : (Text.split '/' root.toList).head? ≠ some ['.']

theorem IsRelative.head?_slashed {pattern : String} (h : IsRelative pattern) :
    (slashed pattern).head? ≠ some '/' := by
  have hslash := h.noSlash
  have hbackslash := h.noBackslash
  unfold slashed
  cases htext : pattern.toList <;> simp_all

namespace Rooted

theorem any_isWildcard_of_mem_split {d p : List Char} (hd : ∀ c ∈ d, isWildcard c = false)
    (hp : p ∈ Text.split '/' d) : p.any isWildcard = false := by
  rw [List.any_eq_false]
  exact fun c hc => Bool.eq_false_iff.mp (hd c (Text.mem_of_mem_split hp hc))

theorem cut_append {ds gs : List (List Char)} (hds : ∀ p ∈ ds, p.any isWildcard = false)
    (hgs : gs ≠ []) : cut (ds ++ gs) = (ds ++ (cut gs).1, (cut gs).2) := by
  induction ds with
  | nil => rfl
  | cons d ds ih =>
    obtain ⟨hd, hds⟩ := List.forall_mem_cons.mp hds
    obtain ⟨q, r, hqr⟩ := List.exists_cons_of_ne_nil (List.append_ne_nil_of_right_ne_nil ds hgs)
    rw [List.cons_append, hqr, cut, hd, if_neg Bool.false_ne_true, ← hqr, ih hds]
    rfl

/-- The two parts are the components in their order, and the second one has the last of them. -/
theorem cut_fst_append (ps : List (List Char)) (hps : ps ≠ []) :
    ∃ q qs, (cut ps).2 = q :: qs ∧ (cut ps).1 ++ q :: qs = ps := by
  fun_induction cut ps with
  | case1 => exact absurd rfl hps
  | case2 last => exact ⟨last, [], rfl, rfl⟩
  | case3 p q r => exact ⟨p, q :: r, rfl, rfl⟩
  | case4 p q r _ literal glob heq ih =>
    obtain ⟨q', qs, hglob, happend⟩ := ih (List.cons_ne_nil q r)
    rw [heq] at hglob happend
    exact ⟨q', qs, hglob, congrArg (p :: ·) happend⟩

end Rooted

theorem components_append {d g : String} (hd : '\\' ∉ d.toList) :
    components (d ++ "/" ++ g) = Text.split '/' d.toList ++ components g := by
  have hkeep : d.toList.map (fun c => if c = '\\' then '/' else c) = d.toList := by
    refine (List.map_congr_left fun c hc => if_neg ?_).trans (List.map_id _)
    rintro rfl
    exact hd hc
  unfold components slashed
  rw [String.toList_append, String.toList_append, List.append_assoc, List.map_append, hkeep]
  exact Text.split_append '/' _ _

namespace Rooted

theorem glob_ofPattern (pattern : String) :
    (ofPattern pattern).glob = String.ofList (Text.join ['/'] (cut (components pattern)).2) := rfl

theorem root_ofPattern {pattern root : String} (hroot : IsBelow root)
    (h : Text.join ['/'] (cut (components pattern)).1 = root.toList) :
    (ofPattern pattern).root = ⟨root⟩ := by
  unfold components slashed at h
  unfold ofPattern
  simp only [h]
  split
  next hempty => exact absurd (String.toList_eq_nil_iff.mp hempty) hroot.nonempty
  next => exact congrArg Path.mk String.ofList_toList

theorem root_ofPattern_here {pattern : String} (hpattern : IsRelative pattern)
    (h : (cut (components pattern)).1 = []) : (ofPattern pattern).root = ⟨"."⟩ := by
  have hhead := hpattern.head?_slashed
  unfold components at h
  unfold slashed at h hhead
  unfold ofPattern
  simp only [h, Text.join, if_neg hhead]
  rfl

end Rooted

/-! ## 3. The directory that is walked -/

theorem toList_append_slash (d more : String) :
    (d ++ "/" ++ more).toList = d.toList ++ '/' :: more.toList := by
  rw [String.toList_append, String.toList_append, List.append_assoc]
  rfl

namespace IsLiteralDirectory

variable {d : String} (hd : IsLiteralDirectory d)

include hd

theorem toList_ne_nil : d.toList ≠ [] := Text.ne_nil_of_nil_not_mem_split hd.noEmpty

theorem any_isWildcard : ∀ p ∈ Text.split '/' d.toList, p.any Rooted.isWildcard = false :=
  fun _ => Rooted.any_isWildcard_of_mem_split hd.noWildcard

theorem isBelow : IsBelow d where
  nonempty h := hd.toList_ne_nil (String.toList_eq_nil_iff.mpr h)
  noSlash := Text.head?_ne_of_nil_not_mem_split hd.noEmpty
  noDot h := hd.noDot (List.mem_of_mem_head? h)

theorem isBelow_append (more : String) : IsBelow (d ++ "/" ++ more) where
  nonempty := by
    rw [Ne, ← String.toList_eq_nil_iff, toList_append_slash]
    exact List.append_ne_nil_of_left_ne_nil hd.toList_ne_nil _
  noSlash := by
    rw [toList_append_slash, List.head?_append_of_ne_nil _ hd.toList_ne_nil]
    exact hd.isBelow.noSlash
  noDot := by
    rw [toList_append_slash, Text.split_append,
      List.head?_append_of_ne_nil _ (Text.split_ne_nil '/' d.toList)]
    exact hd.isBelow.noDot

/-- The literal prefix takes in the directory, and the rest stays as it is. -/
theorem cut_components (g : String) :
    Rooted.cut (components (d ++ "/" ++ g)) =
      (Text.split '/' d.toList ++ (Rooted.cut (components g)).1,
        (Rooted.cut (components g)).2) := by
  rw [components_append hd.noBackslash]
  exact Rooted.cut_append hd.any_isWildcard (Text.split_ne_nil _ _)

theorem tied_append (g : String) :
    (Rooted.ofPattern (d ++ "/" ++ g)).tied = (Rooted.ofPattern g).tied := by
  unfold Rooted.tied
  rw [Rooted.glob_ofPattern, Rooted.glob_ofPattern, hd.cut_components]

end IsLiteralDirectory

/-- What a relative pattern names literally in front of its glob. -/
theorem IsRelative.exists_isBelow {g : String} (hg : IsRelative g) {p : List Char}
    {ps : List (List Char)} (h : (Rooted.cut (components g)).1 = p :: ps) :
    ∃ root, IsBelow root ∧ Text.join ['/'] (p :: ps) = root.toList := by
  obtain ⟨q, qs, -, happend⟩ := Rooted.cut_fst_append (components g) (Text.split_ne_nil _ _)
  rw [h] at happend
  have hmem {x : List Char} (hx : x ∈ p :: ps) : x ∈ components g :=
    happend ▸ List.mem_append_left _ hx
  have hnoSlash : ∀ x ∈ p :: ps, '/' ∉ x := fun x hx => Text.not_mem_of_mem_split (hmem hx)
  -- an empty component in front would make the pattern absolute
  have hp : p ≠ [] := by
    obtain ⟨q', qs', hmore⟩ := List.exists_cons_of_ne_nil
      (List.append_ne_nil_of_right_ne_nil ps (List.cons_ne_nil q qs))
    rw [List.cons_append, hmore] at happend
    exact Text.head_ne_nil_of_split hg.head?_slashed happend.symm
  obtain ⟨c, t, rfl⟩ := List.exists_cons_of_ne_nil hp
  have hhead : (Text.join ['/'] ((c :: t) :: ps)).head? = some c := by
    cases ps <;> rfl
  have hc : c ≠ '/' := fun hc => hnoSlash _ List.mem_cons_self (hc ▸ List.mem_cons_self)
  refine ⟨String.ofList (Text.join ['/'] ((c :: t) :: ps)), ⟨?_, ?_, ?_⟩, String.toList_ofList.symm⟩
  · rw [Ne, ← String.toList_eq_nil_iff, String.toList_ofList, ← List.head?_eq_none_iff, hhead]
    exact Option.some_ne_none c
  · rw [String.toList_ofList, hhead]
    exact fun h => hc (Option.some.inj h)
  · rw [String.toList_ofList, Text.split_join (List.cons_ne_nil _ _) hnoSlash]
    exact fun h => hg.noDot (Option.some.inj h ▸ hmem List.mem_cons_self)

end Glob

namespace Selection

open Glob (IsBelow IsLiteralDirectory IsRelative)

theorem walkRoot_of_root {base : Path} {pattern root : String}
    (h : (Glob.Rooted.ofPattern pattern).root = ⟨root⟩) (hroot : IsBelow root) :
    walkRoot base pattern = base.join ⟨root⟩ := by
  unfold walkRoot
  simp only [h]
  rw [Path.isAbsolute_eq_false hroot.noSlash, if_neg Bool.false_ne_true,
    if_neg (Path.components_ne_here hroot.noDot)]

theorem walkRoot_of_here {base : Path} {pattern : String}
    (h : (Glob.Rooted.ofPattern pattern).root = ⟨"."⟩) : walkRoot base pattern = base := by
  unfold walkRoot
  simp only [h]
  rfl

theorem walkRoot_append {d g : String} (hd : IsLiteralDirectory d) (hg : IsRelative g)
    (base : Path) : walkRoot base (d ++ "/" ++ g) = walkRoot (base.join ⟨d⟩) g := by
  cases hliteral : (Glob.Rooted.cut (Glob.components g)).1 with
  | nil =>
    -- the rest names no directory literally, so that its root is its base
    have hroot : (Glob.Rooted.ofPattern (d ++ "/" ++ g)).root = ⟨d⟩ := by
      apply Glob.Rooted.root_ofPattern hd.isBelow
      rw [hd.cut_components, hliteral, List.append_nil, Text.join_split]
    rw [walkRoot_of_root hroot hd.isBelow,
      walkRoot_of_here (Glob.Rooted.root_ofPattern_here hg hliteral)]
  | cons p ps =>
    obtain ⟨root, hbelow, hjoin⟩ := hg.exists_isBelow hliteral
    have hrest : (Glob.Rooted.ofPattern g).root = ⟨root⟩ :=
      Glob.Rooted.root_ofPattern hbelow (by rw [hliteral, hjoin])
    have hall : (Glob.Rooted.ofPattern (d ++ "/" ++ g)).root = ⟨d ++ "/" ++ root⟩ := by
      apply Glob.Rooted.root_ofPattern (hd.isBelow_append root)
      rw [hd.cut_components, hliteral, Glob.toList_append_slash, ← hjoin,
        Text.join_append (Text.split_ne_nil '/' d.toList) (List.cons_ne_nil p ps),
        Text.join_split, List.append_assoc]
      rfl
    have hbytes : (⟨d⟩ : Path).raw.bytes ≠ [] := mt RawText.bytes_eq_nil_iff.mp hd.toList_ne_nil
    rw [walkRoot_of_root hall (hd.isBelow_append root), walkRoot_of_root hrest hbelow,
      Path.join_assoc hbytes (Path.isAbsolute_eq_false hd.isBelow.noSlash)
        (Path.isAbsolute_eq_false hbelow.noSlash),
      Path.join_eq_append hd.isBelow.nonempty (Text.getLast?_ne_of_nil_not_mem_split hd.noEmpty)
        hbelow.noSlash]

end Selection

/-! ## 4. What is selected -/

namespace Failure

/-- Failures that differ in the pattern at most that they show. -/
inductive SameKind : Failure → Failure → Prop
  | refl (e : Failure) : SameKind e e
  | invalidPattern (p q message : String) :
    SameKind (.invalidPattern p message) (.invalidPattern q message)

/-- One result twice, or two failures of one kind. -/
inductive Alike {α : Type} : Except Failure α → Except Failure α → Prop
  | ok (a : α) : Alike (.ok a) (.ok a)
  | error {e e' : Failure} (h : e.SameKind e') : Alike (.error e) (.error e')

variable {α β : Type}

theorem Alike.refl (x : Except Failure α) : Alike x x := by
  cases x with
  | ok a => exact .ok a
  | error e => exact .error (.refl e)

theorem Alike.bind {x y : Except Failure α} (h : Alike x y) (f : α → Except Failure β) :
    Alike (x >>= f) (y >>= f) := by
  cases h with
  | ok a => exact .refl (f a)
  | error h => exact .error h

theorem Alike.map {x y : Except Failure α} (h : Alike x y) (f : α → β) :
    Alike (x.map f) (y.map f) := by
  cases h with
  | ok a => exact .ok (f a)
  | error h => exact .error h

end Failure

open Failure (Alike)

namespace Selection

theorem rule_alike (p q shown text : String) : Alike (rule p shown text) (rule q shown text) := by
  unfold rule
  cases Glob.Rule.parse shown text with
  | ok r => exact .ok r
  | error e => exact .error (.invalidPattern p q e.message)

/-- Only the rule counts that the rest of a pattern is tied to. -/
theorem ofPatterns_alike {p q : String}
    (h : (Glob.Rooted.ofPattern p).tied = (Glob.Rooted.ofPattern q).tied) (excludes : List String) :
    Alike (ofPatterns p excludes) (ofPatterns q excludes) := by
  unfold ofPatterns
  rw [h]
  exact (rule_alike p q "" _).bind _

end Selection

/-- A literal directory in front of a pattern selects the same files as this directory as the base,
or fails in the same way. -/
theorem FileSystem.select_append {d g : String} (hd : Glob.IsLiteralDirectory d)
    (hg : Glob.IsRelative g) (fs : FileSystem) (base : Path) (excludes : List String) :
    Alike (fs.select base (d ++ "/" ++ g) excludes) (fs.select (base.join ⟨d⟩) g excludes) := by
  unfold select
  dsimp only
  rw [Selection.walkRoot_append hd hg]
  cases fs.directory? (Selection.walkRoot (base.join ⟨d⟩) g) with
  | none => exact .refl _
  | some entries => exact (Selection.ofPatterns_alike (hd.tied_append g) excludes).map _

section Example

def nestedFiles : FileSystem := ⟨[("lib", .directory twoFiles.entries)]⟩

theorem directory?_lib : nestedFiles.directory? ⟨"/lib"⟩ = some twoFiles.entries := by
  have hcomponents : Path.components ⟨"/lib"⟩ = [.root, .name "lib"] := by decide
  have hlib : nestedFiles.at? ([] ++ [.ofString "lib"]) = some (.directory twoFiles.entries) := rfl
  unfold FileSystem.directory? FileSystem.node? FileSystem.target FileSystem.locate
  rw [hcomponents, FileSystem.follow_root, FileSystem.follow_name_directory (by decide) hlib,
    FileSystem.follow_nil hlib]
  rfl

theorem select_lib : nestedFiles.select ⟨"/lib"⟩ "*.ts" ["/b.ts"] = .ok [⟨"/lib/a.ts"⟩] := by
  have hroot : Selection.walkRoot ⟨"/lib"⟩ "*.ts" = ⟨"/lib"⟩ := by decide
  have hpath : Selection.pathOf ⟨"/lib"⟩ ["a.ts"] = ⟨"/lib/a.ts"⟩ := by decide
  rw [FileSystem.select_eq_ok_iff, hroot]
  refine ⟨twoFiles.entries, _, directory?_lib, ofPatterns_sources, ?_⟩
  rw [walk_twoFiles, Selection.sorted, List.mergeSort_singleton, List.map_singleton, hpath]

/-- The exclude pattern is relative to the literal prefix. -/
theorem FileSystem.select_append_lib :
    Glob.IsLiteralDirectory "lib" ∧ Glob.IsRelative "*.ts" ∧
      nestedFiles.select ⟨"/lib"⟩ "*.ts" ["/b.ts"] = .ok [⟨"/lib/a.ts"⟩] ∧
      nestedFiles.select ⟨"/"⟩ "lib/*.ts" ["/b.ts"] = .ok [⟨"/lib/a.ts"⟩] := by
  have hd : Glob.IsLiteralDirectory "lib" := ⟨by decide, by decide, by decide, by decide⟩
  have hg : Glob.IsRelative "*.ts" := ⟨by decide, by decide, by decide⟩
  have halike := select_append hd hg nestedFiles ⟨"/"⟩ ["/b.ts"]
  have hbase : Path.join ⟨"/"⟩ ⟨"lib"⟩ = ⟨"/lib"⟩ := by decide
  have hpattern : "lib" ++ "/" ++ "*.ts" = "lib/*.ts" := by decide
  rw [hbase, hpattern, select_lib] at halike
  refine ⟨hd, hg, select_lib, ?_⟩
  generalize nestedFiles.select ⟨"/"⟩ "lib/*.ts" ["/b.ts"] = selected at halike ⊢
  cases halike
  rfl

end Example

end MarkupCatalog
