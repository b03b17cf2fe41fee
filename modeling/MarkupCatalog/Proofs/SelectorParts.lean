import MarkupCatalog.Proofs.SelectorTexts

/-!
# Parts of selectors

A comma divides a selector, whatever stands on its two sides: no bracket reaches across it.  So each
part is read on its own, and each part that is not blank gives one fragment.
-/

namespace MarkupCatalog.Selector

open Text

/-! ## 1. Commas -/

theorem parts_append (s t : List Char) : parts (s ++ ',' :: t) = parts s ++ parts t := by
  rw [parts, split_append, List.map_append, List.filter_append]
  rfl

theorem classify_append (s t : String) : classify (s ++ "," ++ t) = classify s ++ classify t := by
  have htext : (s ++ "," ++ t).toList = s.toList ++ ',' :: t.toList := by simp
  rw [classify, htext, parts_append, List.map_append]
  rfl

/-- The texts are what stands between the commas of `s`. -/
structure IsCut (s : String) (ps : List String) : Prop where
  nonempty : ps ≠ []
  noComma : ∀ p ∈ ps, ',' ∉ p.toList
  joined : ",".intercalate ps = s

theorem exists_isCut (s : String) : ∃ ps, IsCut s ps := by
  refine ⟨(split ',' s.toList).map String.ofList, ?_, ?_, ?_⟩
  · rw [Ne, List.map_eq_nil_iff]
    exact split_ne_nil ',' s.toList
  · intro p hp
    obtain ⟨q, hq, rfl⟩ := List.mem_map.mp hp
    rw [String.toList_ofList]
    exact not_mem_of_mem_split hq
  · apply String.toList_injective
    have hback : String.toList ∘ String.ofList = id := funext fun _ => String.toList_ofList
    rw [String.toList_intercalate, List.map_map, hback, List.map_id]
    show [','].intercalate _ = _
    rw [← join_eq_intercalate, join_split]

/-! ## 2. One part after the other -/

def isBlankPart (p : String) : Bool := p.toList.all isBlank

/-- A part without commas gives one fragment, unless it is blank. -/
theorem classify_part {p : String} (h : ',' ∉ p.toList) :
    classify p = if isBlankPart p then [] else [Fragment.ofPart (trim p.toList)] := by
  have hblank : isBlankPart p = true ↔ trim p.toList = [] :=
    List.all_eq_true.trans (trim_eq_nil_iff _).symm
  have hparts : parts p.toList = [trim p.toList].filter (· ≠ []) := by
    rw [parts, split_of_not_mem h, List.map_singleton]
  rw [classify, hparts]
  by_cases htrim : trim p.toList = []
  · rw [if_pos (hblank.mpr htrim), htrim]
    rfl
  · rw [if_neg (mt hblank.mp htrim)]
    simp [htrim]

theorem classify_intercalate {ps : List String} (h : ps ≠ []) :
    classify (",".intercalate ps) = ps.flatMap classify := by
  induction ps with
  | nil => exact absurd rfl h
  | cons p ps ih =>
    cases ps with
    | nil => rw [String.intercalate_singleton, List.flatMap_singleton]
    | cons q ps =>
      rw [String.intercalate_cons_cons, classify_append, ih (List.cons_ne_nil q ps)]
      rfl

theorem length_flatMap_classify {ps : List String} (h : ∀ p ∈ ps, ',' ∉ p.toList) :
    (ps.flatMap classify).length = ps.countP fun p => !isBlankPart p := by
  induction ps with
  | nil => rfl
  | cons p ps ih =>
    obtain ⟨hp, hps⟩ := List.forall_mem_cons.mp h
    rw [List.flatMap_cons, List.length_append, ih hps, classify_part hp, List.countP_cons,
      Nat.add_comm]
    cases isBlankPart p <;> rfl

/-- What stands before a comma and what stands behind it are read apart.  So a selector gives what
its parts give one after the other: nothing for a blank part, and one fragment for any other. -/
theorem classify_parts (s t : String) :
    classify (s ++ "," ++ t) = classify s ++ classify t ∧
      ∃ ps, IsCut s ps ∧ classify s = ps.flatMap classify ∧
        (∀ p ∈ ps,
          classify p = if isBlankPart p then [] else [Fragment.ofPart (trim p.toList)]) ∧
        (classify s).length = ps.countP fun p => !isBlankPart p := by
  refine ⟨classify_append s t, ?_⟩
  obtain ⟨ps, hcut⟩ := exists_isCut s
  have hread : classify s = ps.flatMap classify := by
    rw [← hcut.joined]
    exact classify_intercalate hcut.nonempty
  refine ⟨ps, hcut, hread, fun p hp => classify_part (hcut.noComma p hp), ?_⟩
  rw [hread, length_flatMap_classify hcut.noComma]

/-- A bracket that is left open does not reach the next part. -/
example : classify "[a,b]," = [.globalAttribute "a", .element "b]"] := by decide

end MarkupCatalog.Selector
