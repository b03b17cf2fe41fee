import MarkupCatalog.Proofs.GlobReadings
import MarkupCatalog.Proofs.SelectedFiles

/-!
# Lines of globs

What the line of a rule says apart from its glob.  A rule with a slash in front and the rule without
it have one glob, but where there is no other slash the second one has a piece for the directories
from the top on in front of it, so that it applies to more.
-/

namespace MarkupCatalog.Glob

namespace Rule

/-! ## 1. The text of the glob -/

/-- A line without a slash in front. -/
def untied (line : List Char) : List Char := if line.head? = some '/' then line.tail else line

/-- What of a line is read as a glob. -/
def body (line : List Char) : List Char :=
  let s := untied line
  let s := if s.getLast? = some '/' then withoutEndSlash s else s
  withinOnly (if line.head? = some '/' then s else atEveryDepth s)

theorem parse_eq_ok_iff_body {text : String} {r : Rule} :
    parse "" text = .ok r ↔ Glob.parse (body (trimmed text.toList)) = .ok r.glob ∧
      r.directoriesOnly = decide ((untied (trimmed text.toList)).getLast? = some '/') := by
  unfold parse
  dsimp only
  split
  next glob hglob =>
    constructor
    · intro h
      obtain rfl := Except.ok.inj h
      exact ⟨hglob, rfl⟩
    · rintro ⟨hglob', hdirectories⟩
      obtain ⟨_, _⟩ := r
      cases hglob.symm.trans hglob'
      cases hdirectories
      rfl
  next fault hfault =>
    refine ⟨nofun, fun h => ?_⟩
    cases hfault.symm.trans h.1

theorem endsWith_iff {tail : String} {s : List Char} :
    endsWith tail s = true ↔ tail.toList <:+ s := Text.isSome_before?_iff

theorem withinOnly_of_notMem {s : List Char} (h : '/' ∉ s) : withinOnly s = s := by
  apply if_neg
  rw [endsWith_iff]
  exact fun hsuffix => h (hsuffix.subset List.mem_cons_self)

theorem withinOnly_everywhere {s : List Char} (hslash : '/' ∉ s) (hstars : s ≠ ['*', '*']) :
    withinOnly ("**/".toList ++ s) = "**/".toList ++ s := by
  apply if_neg
  rw [endsWith_iff]
  rintro ⟨t, ht⟩
  have hstart : '/' ∉ ['*', '*'] := by decide
  -- there is one slash, and what follows it is not two stars
  have heq : t ++ '/' :: ['*', '*'] = ['*', '*'] ++ '/' :: s := ht
  exact hstars ((List.append_cons_inj_of_notMem hstart hslash).mp heq.symm).2.2

section Untied

variable {s : List Char}

theorem body_slash (h : s.getLast? ≠ some '/') : body ('/' :: s) = withinOnly s := by
  show withinOnly (if s.getLast? = some '/' then withoutEndSlash s else s) = withinOnly s
  rw [if_neg h]

theorem body_free (hhead : s.head? ≠ some '/') (hend : s.getLast? ≠ some '/') :
    body s = withinOnly (atEveryDepth s) := by
  have huntied : untied s = s := if_neg hhead
  unfold body
  simp only [huntied, if_neg hhead, if_neg hend]

theorem body_of_mem (hhead : s.head? ≠ some '/') (hend : s.getLast? ≠ some '/') (h : '/' ∈ s) :
    body s = withinOnly s := by
  rw [body_free hhead hend, atEveryDepth, if_pos (.inl h)]

theorem getLast?_ne_of_notMem (h : '/' ∉ s) : s.getLast? ≠ some '/' :=
  fun hlast => h (List.mem_of_getLast? hlast)

theorem head?_ne_of_notMem (h : '/' ∉ s) : s.head? ≠ some '/' :=
  fun hhead => h (List.mem_of_mem_head? hhead)

theorem body_slash_of_notMem (h : '/' ∉ s) : body ('/' :: s) = s := by
  rw [body_slash (getLast?_ne_of_notMem h), withinOnly_of_notMem h]

/-- Without a slash the glob has a piece for directories in front of it. -/
theorem body_of_notMem (h : '/' ∉ s) (hstars : s ≠ ['*', '*']) : body s = "**/".toList ++ s := by
  have hdepth : atEveryDepth s = "**/".toList ++ s := if_neg (not_or.mpr ⟨h, hstars⟩)
  rw [body_free (head?_ne_of_notMem h) (getLast?_ne_of_notMem h), hdepth,
    withinOnly_everywhere h hstars]

theorem body_stars : body ['*', '*'] = ['*', '*'] := by decide

end Untied

/-! ## 2. Blanks at the end -/

theorem trimmed_prefix (s : List Char) : trimmed s <+: s := by
  unfold trimmed
  split
  next => exact List.prefix_rfl
  next =>
    obtain ⟨b, hb, -⟩ := Text.trimEnd_append_rest s
    exact ⟨b, hb.symm⟩

/-- What does not end in a blank stays at the beginning of a line. -/
theorem prefix_trimmed_append {t : List Char} (h : ∀ c ∈ t.getLast?, Text.isBlank c = false)
    (s : List Char) : t <+: trimmed (t ++ s) := by
  unfold trimmed
  split
  next => exact List.prefix_append t s
  next =>
    rw [Text.trimEnd_append h]
    exact List.prefix_append t (Text.trimEnd s)

theorem trimmed_slash (s : List Char) : trimmed ('/' :: s) = '/' :: trimmed s := by
  have hends : endsWith "\\ " ('/' :: s) = endsWith "\\ " s := by
    rw [Bool.eq_iff_iff, endsWith_iff, endsWith_iff, List.suffix_cons_iff]
    exact ⟨fun h => h.resolve_left (by simp), .inr⟩
  have htrim : Text.trimEnd ('/' :: s) = '/' :: Text.trimEnd s :=
    Text.trimEnd_append (by decide : ∀ c ∈ ['/'].getLast?, Text.isBlank c = false) s
  unfold trimmed
  rw [hends, htrim]
  split <;> rfl

end Rule

/-! ## 3. Tied globs -/

/-- The glob that remains of a pattern begins with two stars. -/
def BeginsWithStars (pattern : String) : Prop :=
  ['*', '*'] <+: (Rooted.ofPattern pattern).glob.toList

variable {pattern : String}

theorem tied_of_stars (h : BeginsWithStars pattern) :
    (Rooted.ofPattern pattern).tied = (Rooted.ofPattern pattern).glob := by
  have hafter : (Text.after? "**".toList (Rooted.ofPattern pattern).glob.toList).isSome = true :=
    Text.isSome_after?_iff.mpr h
  unfold Rooted.tied
  simp only [hafter, Bool.or_true, if_true]

theorem toList_tied (hhead : (Rooted.ofPattern pattern).glob.toList.head? ≠ some '/')
    (h : ¬ BeginsWithStars pattern) :
    (Rooted.ofPattern pattern).tied.toList = '/' :: (Rooted.ofPattern pattern).glob.toList := by
  have hafter : ¬ (Text.after? "**".toList (Rooted.ofPattern pattern).glob.toList).isSome = true :=
    mt Text.isSome_after?_iff.mp h
  unfold Rooted.tied
  simp only [hhead, hafter, decide_false, Bool.or_self, if_neg Bool.false_ne_true]
  rw [String.toList_append]
  rfl

end MarkupCatalog.Glob
