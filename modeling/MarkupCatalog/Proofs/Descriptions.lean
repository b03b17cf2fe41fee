import MarkupCatalog.Doc.Description
import MarkupCatalog.Proofs.Texts

/-!
# Descriptions

What the descriptions that are made from the same documentation have in common.  The main statement
is that each of them continues the one that shows less: the summary is continued by the paragraphs
of the tags, and these by the marks of an input and an output, with which the description ends.
-/

namespace MarkupCatalog

open Text

namespace Doc

/-- Paragraphs are only added. -/
theorem prefix_foldl_paragraph (s : String) (ts : List Tag) :
    s.toList <+: (ts.foldl (fun s t => s ++ t.paragraph) s).toList := by
  induction ts generalizing s with
  | nil => exact List.prefix_rfl
  | cons t ts ih =>
    have hfirst : s.toList <+: (s ++ t.paragraph).toList := by
      rw [String.toList_append]
      exact List.prefix_append _ _
    exact hfirst.trans (ih (s ++ t.paragraph))

/-- The marks of an attribute, behind its paragraphs. -/
def marks (isInput isOutput : Bool) : String :=
  (if isInput then inputMark else "") ++ (if isOutput then outputMark else "")

/-- The marks of an output end in the same way, whether it is an input or not. -/
theorem marks_output (isInput : Bool) :
    ∃ front, (marks isInput true).toList = front ++ "_@Output_".toList := by
  cases isInput with
  | false => exact ⟨"\n\n".toList, by decide⟩
  | true => exact ⟨"\n\n_@Input_\n\n".toList, by decide⟩

theorem toList_describeAttribute (d : Doc) (isInput isOutput : Bool) :
    (d.describeAttribute isInput isOutput).toList =
      trim (d.paragraphs.toList ++ (marks isInput isOutput).toList) := by
  unfold describeAttribute marks trimmed
  rw [String.append_assoc, String.toList_ofList, String.toList_append]

/-- A description ends as the marks do, without the line breaks before them. -/
theorem suffix_describeAttribute (d : Doc) {isInput isOutput : Bool} {front back : List Char}
    (hmarks : (marks isInput isOutput).toList = front ++ back) (hback : Trimmed back) :
    back <:+ (d.describeAttribute isInput isOutput).toList := by
  rw [toList_describeAttribute, hmarks, ← List.append_assoc]
  exact suffix_trim hback _

theorem describeSummary_prefix (d : Doc) :
    d.describeSummary.toList <+: d.describeTag.toList := by
  obtain ⟨tags, htags⟩ := prefix_foldl_paragraph d.summaryText d.tags
  unfold describeSummary describeTag paragraphs trimmed
  rw [String.toList_ofList, String.toList_ofList, ← htags]
  exact trim_prefix _ _

theorem describeTag_prefix (d : Doc) (isInput isOutput : Bool) :
    d.describeTag.toList <+: (d.describeAttribute isInput isOutput).toList := by
  rw [toList_describeAttribute, describeTag, trimmed, String.toList_ofList]
  exact trim_prefix _ _

theorem describeAttribute_unmarked (d : Doc) : d.describeAttribute false false = d.describeTag := by
  apply String.toList_inj.mp
  rw [toList_describeAttribute, describeTag, trimmed, String.toList_ofList]
  exact congrArg trim (List.append_nil _)

end Doc

namespace Detail

theorem trimmed_tagFormat (k : Detail) (d : Doc) : Trimmed (k.tagFormat d).toList := by
  cases k <;> exact String.toList_ofList ▸ trimmed_trim _

theorem trimmed_attributeFormat (k : Detail) (d : Doc) (isInput isOutput : Bool) :
    Trimmed (k.attributeFormat d isInput isOutput).toList := by
  cases k <;> exact String.toList_ofList ▸ trimmed_trim _

/-- The more detailed description continues the less detailed one, whatever the texts in the
documentation are, and no description has blanks around it. -/
theorem formats_continue (d : Doc) (isInput isOutput : Bool) :
    let summary := (Detail.summary.tagFormat d).toList
    let tag := (Detail.simple.tagFormat d).toList
    let marked (isInput isOutput : Bool) :=
      (Detail.simple.attributeFormat d isInput isOutput).toList
    (Detail.summary.attributeFormat d isInput isOutput).toList = summary ∧
      summary <+: tag ∧
      tag <+: marked isInput isOutput ∧
      marked false false = tag ∧
      "_@Output_".toList <:+ marked isInput true ∧
      "_@Input_".toList <:+ marked true false ∧
      "_@Input_\n\n_@Output_".toList <:+ marked true true ∧
      ∀ k : Detail, Trimmed (k.tagFormat d).toList ∧
        Trimmed (k.attributeFormat d isInput isOutput).toList := by
  intro summary tag marked
  obtain ⟨front, hfront⟩ := Doc.marks_output isInput
  have houtput : "_@Output_".toList <:+ marked isInput true :=
    d.suffix_describeAttribute hfront (by decide)
  have hinput : "_@Input_".toList <:+ marked true false :=
    d.suffix_describeAttribute (show _ = "\n\n".toList ++ _ by decide) (by decide)
  have hboth : "_@Input_\n\n_@Output_".toList <:+ marked true true :=
    d.suffix_describeAttribute (show _ = "\n\n".toList ++ _ by decide) (by decide)
  refine ⟨rfl, d.describeSummary_prefix, d.describeTag_prefix isInput isOutput, ?_, houtput, hinput,
    hboth, fun k => ⟨k.trimmed_tagFormat d, k.trimmed_attributeFormat d isInput isOutput⟩⟩
  exact congrArg String.toList d.describeAttribute_unmarked

end Detail
end MarkupCatalog
