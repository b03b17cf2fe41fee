import MarkupCatalog.Proofs.Sites

/-!
# Locality

A top-level statement defines the same whatever stands before and after it, as long as no comment
comes right before it: the comments of a class are looked for no further than the nearest sibling
that is no comment.
-/

namespace MarkupCatalog

namespace Tree

/-! ## 1. Comments across a list of siblings -/

/-- The comments right before what follows the siblings `ts`, if those before `ts` are `run`. -/
def runAfter (run ts : List Tree) : List Tree := ts.foldl (fun run t => t.extendRun run) run

theorem sitesOf_append (run : List Tree) (around : Option (Tree × List Tree)) (ts us : List Tree) :
    sitesOf run around (ts ++ us) =
      sitesOf run around ts ++ sitesOf (runAfter run ts) around us := by
  induction ts generalizing run with
  | nil => rfl
  | cons t ts ih => rw [List.cons_append, sitesOf, ih, sitesOf, List.append_assoc]; rfl

theorem runAfter_nil_eq (ts : List Tree) : runAfter [] ts = commentRun ts.reverse := by
  unfold runAfter
  rw [← List.foldr_reverse]
  induction ts.reverse with
  | nil => rfl
  | cons t ts ih => rw [List.foldr_cons, ih, commentRun_cons]

theorem runAfter_eq_nil {ts : List Tree}
    (h : ∀ t, (ts.filter isNamed).getLast? = some t → t.kind ≠ .comment) : runAfter [] ts = [] := by
  rw [runAfter_nil_eq, commentRun, List.filter_reverse]
  rw [← List.head?_reverse] at h
  -- the last named sibling, which is no comment, ends the run
  cases hts : (ts.filter isNamed).reverse with
  | nil => rfl
  | cons t us =>
    have ht : t.kind ≠ .comment := h t (by rw [hts]; rfl)
    rw [List.takeWhile_cons, if_neg (mt (isComment_iff t).mp ht)]

/-! ## 2. Top-level statements -/

theorem readings_program (heard : String → Bool) (l : Option Label) (s : String)
    (ts : List Tree) :
    (node .program l s ts).readings heard = Site.readings heard (sitesOf [] none ts) := rfl

/-- Two groups of top-level statements define together what each of them defines alone, if the first
does not end in a comment. -/
theorem extract_append (f : Formatter) (l l₁ l₂ : Option Label) (s s₁ s₂ : String)
    (ts us : List Tree)
    (h : ∀ t, (node .program l₁ s₁ ts).namedChildren.getLast? = some t → t.kind ≠ .comment) :
    (node .program l s (ts ++ us)).extract f =
      (node .program l₁ s₁ ts).extract f ++ (node .program l₂ s₂ us).extract f := by
  have hrun : runAfter [] ts = [] := runAfter_eq_nil h
  simp only [extract_eq_readings, readings_program]
  rw [sitesOf_append, hrun, Site.readings_append, List.map_append, Catalog.concat_append]

theorem extract_append_documented :
    (∀ t, (node .program none "" [directive "app-a"]).namedChildren.getLast? = some t →
      t.kind ≠ .comment) ∧
    (node .program none ""
        ([directive "app-a"] ++ [leaf .comment "/** B. */", directive "app-b"])).extract
        (.ofDetail .simple .simple) =
      (node .program none "" [directive "app-a"]).extract (.ofDetail .simple .simple) ++
        (node .program none "" [leaf .comment "/** B. */", directive "app-b"]).extract
          (.ofDetail .simple .simple) := by
  have h : ∀ t, (node .program none "" [directive "app-a"]).namedChildren.getLast? = some t →
      t.kind ≠ .comment := by
    intro t ht
    obtain rfl : directive "app-a" = t := Option.some.inj ht
    decide
  exact ⟨h, extract_append _ none none none "" "" "" _ _ h⟩

end Tree
end MarkupCatalog
