import MarkupCatalog.Proofs.GlobLines
import MarkupCatalog.Proofs.OfferedFiles

/-!
# Declaration files

Files that declare types only are told by the end of their names, and so is the dialect of a file.
The two tests differ: the dialect goes by three extensions in any letter case, and a declaration
file by one of them as it is written, in a name that is a text.  So declaration files are left out
for that extension and such names, and all others are selected like any file.
-/

namespace MarkupCatalog

/-! ## 1. Extensions -/

theorem Path.extensionOf?_append {name : RawText} {front ext : List UInt8} (hfront : front ≠ [])
    (hdot : dot ∉ ext) (hname : name.bytes = front ++ dot :: ext) :
    extensionOf? name = some ⟨ext⟩ := by
  have hdot' : dot ∉ ext.reverse := mt List.mem_reverse.mp hdot
  have hreverse : name.bytes.reverse = ext.reverse ++ dot :: front.reverse := by
    rw [hname, List.reverse_append, List.reverse_cons, List.append_assoc, List.singleton_append]
  obtain ⟨b, rest, hrest⟩ := List.exists_cons_of_ne_nil (mt List.reverse_eq_nil_iff.mp hfront)
  unfold extensionOf?
  simp only [hreverse, Text.dropWhile_ne_append hdot', Text.takeWhile_ne_append hdot', hrest,
    List.reverse_reverse]

namespace Dialect

variable {ext : String} {d : Dialect}

theorem lower_of_ofExtension (h : ofExtension ext = .ok d) :
    String.ofList (ext.toList.map Char.toLower) ∈ ["ts", "mts", "cts", "tsx"] := by
  unfold ofExtension at h
  dsimp only at h
  split at h
  next hlower => exact List.mem_append_left ["tsx"] hlower
  next =>
    split at h
    next hlower =>
      rw [hlower]
      decide
    next => cases h

/-- Extensions are of few letters, in any case. -/
theorem notMem_of_ofExtension (h : ofExtension ext = .ok d) {c : Char}
    (hc : c.toLower ∉ ['t', 's', 'm', 'c', 'x']) : c ∉ ext.toList := by
  intro hmem
  have hletters : ∀ lower ∈ ["ts", "mts", "cts", "tsx"], ∀ c ∈ lower.toList,
      c ∈ ['t', 's', 'm', 'c', 'x'] := by decide
  have hlower := hletters _ (lower_of_ofExtension h)
  rw [String.toList_ofList] at hlower
  exact hc (hlower _ (List.mem_map_of_mem hmem))

theorem toNat_le_of_ofExtension (h : ofExtension ext = .ok d) :
    ∀ c ∈ ext.toList, c.toNat ≤ 127 := by
  intro c hc
  by_contra hlong
  have hsame : c.toLower = c := dif_neg fun hupper => hlong (hupper.2.trans (by decide : _ ≤ 127))
  have hletters : ∀ c ∈ ['t', 's', 'm', 'c', 'x'], c.toNat ≤ 127 := by decide
  refine notMem_of_ofExtension h ?_ hc
  rw [hsame]
  exact mt (hletters c) hlong

end Dialect

theorem isDeclarationName_ofString (s : String) :
    isDeclarationName (.ofString s) = true ↔ ".d.ts".toList <:+ s.toList := by
  rw [isDeclarationName, RawText.text?_ofString, Option.any_some]
  exact Text.isSome_before?_iff

/-- The name of a declaration file with an extension. -/
def declarationName (stem : RawText) (ext : String) : RawText :=
  ⟨stem.bytes ++ (RawText.ofString (".d." ++ ext)).bytes⟩

theorem declarationName_ofString (s ext : String) :
    declarationName (.ofString s) ext = .ofString (s ++ (".d." ++ ext)) :=
  (RawText.ofString_append s _).symm

theorem bytes_declarationName (stem : RawText) (ext : String) :
    (declarationName stem ext).bytes =
      (stem.bytes ++ [Path.dot, 'd'.toUInt8]) ++ Path.dot :: (RawText.ofString ext).bytes := by
  rw [declarationName, RawText.ofString_append, List.append_assoc]
  rfl

section Extension

variable {ext : String} {d : Dialect} (h : Dialect.ofExtension ext = .ok d) (stem : RawText)

include h

theorem extensionOf?_declarationName :
    Path.extensionOf? (declarationName stem ext) = some (.ofString ext) := by
  have hfront : stem.bytes ++ [Path.dot, 'd'.toUInt8] ≠ [] :=
    List.append_ne_nil_of_right_ne_nil _ (List.cons_ne_nil _ _)
  have hdot : '.' ∉ ext.toList := Dialect.notMem_of_ofExtension h (by decide)
  exact Path.extensionOf?_append hfront (mt (RawText.mem_bytes (by decide)).mp hdot)
    (bytes_declarationName stem ext)

theorem isSome_text?_declarationName :
    (declarationName stem ext).text?.isSome = true ↔ stem.text?.isSome = true := by
  apply RawText.isSome_text?_append
  rw [String.toList_append]
  intro c hc
  rcases List.mem_append.mp hc with hc | hc
  · exact (by decide : ∀ c ∈ ".d.".toList, c.toNat ≤ 127) c hc
  · exact Dialect.toNat_le_of_ofExtension h c hc

/-- A name ends as that of a declaration file for one extension only. -/
theorem isDeclarationName_declarationName : isDeclarationName (declarationName stem ext) = true ↔
    ext = "ts" ∧ stem.text?.isSome = true := by
  cases hstem : stem.text? with
  | none =>
    -- the name is no text, as the stem is none
    have hname : (declarationName stem ext).text? = none := by
      rw [← Option.not_isSome_iff_eq_none, isSome_text?_declarationName h, hstem]
      exact Bool.false_ne_true
    rw [isDeclarationName, hname]
    exact ⟨nofun, nofun⟩
  | some s =>
    obtain rfl := RawText.text?_eq_some_iff.mp hstem
    rw [declarationName_ofString, isDeclarationName_ofString, Option.isSome_some,
      and_iff_left rfl]
    constructor
    · -- a name has one extension
      rintro ⟨front, hfront⟩
      have hname : declarationName (.ofString (String.ofList front)) "ts" =
          declarationName (.ofString s) ext := by
        rw [declarationName_ofString, declarationName_ofString]
        exact congrArg RawText.ofString (String.toList_inj.mp (by simpa using hfront))
      have hts : Dialect.ofExtension "ts" = .ok .typeScript := by decide
      have hext := congrArg Path.extensionOf? hname
      rw [extensionOf?_declarationName h, extensionOf?_declarationName hts] at hext
      exact RawText.ofString_injective (Option.some.inj hext).symm
    · rintro rfl
      rw [String.toList_append]
      exact List.suffix_append _ _

/-- Names of declaration files are those of source files, with one exception. -/
theorem isSourceName_declarationName : isSourceName (declarationName stem ext) = true ↔
    ¬ (ext = "ts" ∧ stem.text?.isSome = true) := by
  have hdialect : Dialect.ofName? (some (declarationName stem ext)) = .ok d := by
    unfold Dialect.ofName?
    rw [Option.bind_some, extensionOf?_declarationName h, Option.bind_some, RawText.text?_ofString]
    exact h
  unfold isSourceName
  rw [hdialect, Bool.and_eq_true, Bool.not_eq_true', ← Bool.not_eq_true,
    isDeclarationName_declarationName h]
  exact ⟨fun h => h.2, fun h => ⟨rfl, h⟩⟩

omit h in
/-- A stem that is no text makes a source file of any declaration file. -/
example : isSourceName (declarationName ⟨[0xff]⟩ "ts") = true := by decide

theorem isEntryName_declarationName {stem : RawText} (hslash : Path.slash ∉ stem.bytes) :
    IsEntryName (declarationName stem ext) := by
  have hext : '/' ∉ ext.toList := Dialect.notMem_of_ofExtension h (by decide)
  have hbytes := bytes_declarationName stem ext
  have hsize : 2 < (declarationName stem ext).bytes.length := by
    rw [hbytes]
    simp
    omega
  constructor
  case nonempty => exact fun h => absurd (h ▸ hsize) (by decide)
  case noSlash =>
    rw [hbytes, List.append_assoc, List.mem_append, List.mem_append]
    rintro (hmem | hmem | hmem)
    · exact hslash hmem
    · exact absurd hmem (by decide)
    · exact hext ((RawText.mem_bytes (by decide)).mp (List.mem_of_ne_of_mem (by decide) hmem))
  case notHere => exact fun h => absurd (h ▸ hsize) (by decide)
  case notUp => exact fun h => absurd (h ▸ hsize) (by decide)

end Extension

/-! ## 2. Runs -/

namespace Glob.Rule

/-- The rule `**`, which applies to everything. -/
def everything : Rule := { glob := [.leading], directoriesOnly := false }

theorem parse_everything : parse "" "**" = .ok everything := by
  have hbody : body (trimmed "**".toList) = ['*', '*'] := by decide
  rw [parse_eq_ok_iff_body, hbody]
  exact ⟨parse_stars, by decide⟩

end Glob.Rule

/-- A source file is selected where everything is. -/
theorem FileSystem.select_everything {name : RawText} (hshown : isSkippedName name = false)
    (hsource : isSourceName name = true) :
    (singleFile name).select ⟨"/"⟩ "**" [] = .ok [Selection.pathOf ⟨"/"⟩ [name]] := by
  have hroot : Selection.walkRoot ⟨"/"⟩ "**" = ⟨"/"⟩ := by decide
  have htied : (Glob.Rooted.ofPattern "**").tied = "**" := by decide
  have hpatterns : Selection.ofPatterns "**" [] = .ok ⟨.everything, []⟩ := by
    unfold Selection.ofPatterns Selection.rule
    rw [htied, Glob.Rule.parse_everything]
    rfl
  exact select_singleFile hroot hpatterns hshown rfl hsource

/-- Of the extensions of the first dialect there is one for which declaration files are left out,
and only if their names are texts.  All others are selected in some run, but for hidden ones. -/
theorem FileSystem.select_declarations_iff {ext : String}
    (hext : Dialect.ofExtension ext = .ok .typeScript) {stem : RawText}
    (hslash : Path.slash ∉ stem.bytes) :
    (∀ fs : FileSystem, fs.Proper → ∀ base pattern excludes files,
      fs.select base pattern excludes = .ok files →
        ∀ p ∈ files, p.fileName? ≠ some (declarationName stem ext)) ↔
      stem.text?.isSome = true ∧ (ext = "ts" ∨ IsHiddenName (declarationName stem ext)) := by
  have hsource := isSourceName_declarationName hext stem
  have hskipped : isSkippedName (declarationName stem ext) = true ↔
      stem.text?.isSome = true ∧ IsHiddenName (declarationName stem ext) := by
    rw [isSkippedName_iff, isSome_text?_declarationName hext]
  constructor
  · -- a file that is neither left out nor hidden is selected where it is the only one
    intro hnone
    have hname : IsEntryName (declarationName stem ext) := isEntryName_declarationName hext hslash
    have hnames : ∀ n ∈ [declarationName stem ext], IsEntryName n :=
      List.forall_mem_singleton.mpr hname
    have hroot : (⟨"/"⟩ : Path).raw.bytes ≠ [] := by decide
    have hfile := Selection.fileName?_pathOf hroot hnames (List.cons_ne_nil _ _)
    by_contra hother
    have hshown : isSkippedName (declarationName stem ext) = false := by
      rw [← Bool.not_eq_true, hskipped]
      exact fun h => hother ⟨h.1, .inr h.2⟩
    have hselect := select_everything hshown (hsource.mpr fun h => hother ⟨h.2, .inl h.1⟩)
    exact hnone _ (proper_singleFile hname) _ _ _ _ hselect _ List.mem_cons_self hfile
  · -- what a run selects has the name of a source file and is not hidden, whatever its patterns are
    rintro ⟨hstem, hleft⟩ fs hproper base pattern excludes files hfiles p hp hname
    obtain ⟨entries, hentries, hentriesProper, hmem⟩ := mem_select_iff hproper hfiles
    obtain ⟨names, hoffers, -, rfl⟩ := (hmem p).mp hp
    have hnames := hoffers.names hentriesProper
    rw [Selection.fileName?_pathOf (bytes_ne_nil_of_directory? hentries) hnames hoffers.ne_nil]
      at hname
    rcases hleft with hts | hhidden
    · have hselected := hoffers.isSource
      rw [hname, Option.any_some, hsource] at hselected
      exact hselected ⟨hts, hstem⟩
    · have hshown := hoffers.shown _ (List.mem_of_getLast? hname)
      rw [hskipped.mpr ⟨hstem, hhidden⟩] at hshown
      cases hshown

theorem FileSystem.select_declarations_iff_twoFiles :
    Dialect.ofExtension "ts" = .ok .typeScript ∧ twoFiles.Proper ∧
      twoFiles.select ⟨"/"⟩ "*.ts" ["/b.ts"] = .ok [⟨"/a.ts"⟩] ∧
      (⟨"/a.ts"⟩ : Path).fileName? ≠ some (declarationName "a" "ts") := by
  have hext : Dialect.ofExtension "ts" = .ok .typeScript := by decide
  have hslash : Path.slash ∉ (RawText.ofString "a").bytes := by decide
  have htext : (RawText.ofString "a").text?.isSome = true := by rw [RawText.text?_ofString]; rfl
  refine ⟨hext, proper_twoFiles, select_twoFiles, ?_⟩
  exact (select_declarations_iff hext hslash).mpr ⟨htext, .inl rfl⟩ twoFiles proper_twoFiles
    _ _ _ _ select_twoFiles _ List.mem_cons_self

/-- A declaration file of a module is selected. -/
theorem FileSystem.select_moduleDeclaration :
    Dialect.ofExtension "mts" = .ok .typeScript ∧ (singleFile "x.d.mts").Proper ∧
      (singleFile "x.d.mts").select ⟨"/"⟩ "**" [] = .ok [⟨"/x.d.mts"⟩] ∧
      (⟨"/x.d.mts"⟩ : Path).fileName? = some (declarationName "x" "mts") := by
  have hname : IsEntryName "x.d.mts" := ⟨by decide, by decide, by decide, by decide⟩
  have hselect := select_everything (by decide : isSkippedName "x.d.mts" = false) (by decide)
  have hpath : Selection.pathOf ⟨"/"⟩ ["x.d.mts"] = ⟨"/x.d.mts"⟩ := by decide
  rw [hpath] at hselect
  exact ⟨by decide, proper_singleFile hname, hselect, by decide⟩

end MarkupCatalog
