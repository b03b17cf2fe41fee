import MarkupCatalog.Document.Text
import MarkupCatalog.Proofs.JsonTexts

/-!
# Document texts that are read back

Attributes, tags and documents are read from the text that is written for them.  Names and
descriptions may be any strings; only the version has to be the one that is written.
-/

namespace MarkupCatalog

open Json

/-! ## 1. Entries -/

theorem reads_attribute (a : Attribute) (depth : Nat) :
    Reads Attribute.record.read (a.toJson.write depth) a := by
  have hname : Attribute.record.Takes (Written (depth + 1)) {} "name" (.string a.name)
      { name := some a.name } :=
    Record.takes_written rfl rfl (fun _ _ h => congrArg (Except.map _) h) (reads_text a.name)
  have hdescription : Attribute.record.Takes (Written (depth + 1)) { name := some a.name }
      "description" (.string a.description)
      { name := some a.name, description := some a.description } :=
    Record.takes_written rfl rfl (fun _ _ h => congrArg (Except.map _) h) (reads_text a.description)
  exact Record.reads_written (.cons hname (.cons hdescription .nil)) rfl

theorem reads_attributes (attributes : List Attribute) (depth : Nat) :
    Reads (list Attribute.record.read) ((Value.list (attributes.map Attribute.toJson)).write depth)
      attributes :=
  reads_writtenList fun a _ => reads_attribute a (depth + 1)

theorem reads_tag (t : Tag) (depth : Nat) : Reads Tag.record.read (t.toJson.write depth) t := by
  have hname : Tag.record.Takes (Written (depth + 1)) {} "name" (.string t.name)
      { name := some t.name } :=
    Record.takes_written rfl rfl (fun _ _ h => congrArg (Except.map _) h) (reads_text t.name)
  have hdescription : Tag.record.Takes (Written (depth + 1)) { name := some t.name } "description"
      (.string t.description) { name := some t.name, description := some t.description } :=
    Record.takes_written rfl rfl (fun _ _ h => congrArg (Except.map _) h) (reads_text t.description)
  have hattributes : Tag.record.Takes (Written (depth + 1))
      { name := some t.name, description := some t.description } "attributes"
      (.list (t.attributes.map Attribute.toJson))
      ⟨some t.name, some t.description, some t.attributes⟩ :=
    Record.takes_written rfl rfl (fun _ _ h => congrArg (Except.map _) h)
      (reads_attributes t.attributes (depth + 1))
  exact Record.reads_written (.cons hname (.cons hdescription (.cons hattributes .nil))) rfl

theorem reads_tags (tags : List Tag) (depth : Nat) :
    Reads (list Tag.record.read) ((Value.list (tags.map Tag.toJson)).write depth) tags :=
  reads_writtenList fun t _ => reads_tag t (depth + 1)

/-! ## 2. Documents -/

theorem text?_currentVersion : layout.text? Document.currentVersion = some "1.1" := by
  decide +kernel

/-- The version is read back to the last bit. -/
theorem reads_currentVersion (depth : Nat) :
    Reads float ((Value.float Document.currentVersion).write depth) Document.currentVersion := by
  have htext : (Value.float Document.currentVersion).write depth = ['1', '.', '1'] := by
    rw [Value.write, text?_currentVersion]
    rfl
  rw [htext]
  refine ⟨⟨'1', _, rfl, rfl, by decide⟩, ?_⟩
  intro s rest hskip hrest
  have hnumber : number ('1' :: '.' :: '1' :: rest) =
      .ok (.float Document.currentVersion, rest) := by
    cases rest with
    | nil => rfl
    | cons c r =>
      rcases hrest c rfl with rfl | rfl | rfl | hspace
      on_goal 4 => rcases isSpace_iff.mp hspace with rfl | rfl | rfl | rfl
      all_goals rfl
  unfold float
  rw [hskip]
  show (number ('1' :: '.' :: '1' :: rest)).map _ = _
  rw [hnumber]
  rfl

theorem reads_document {d : Document} (hversion : d.version = Document.currentVersion) :
    Reads Document.record.read (d.toJson.write 0) d := by
  obtain ⟨version, tags, globalAttributes⟩ := d
  obtain rfl : version = Document.currentVersion := hversion
  have hversion : Document.record.Takes (Written 1) {} "version" (.float Document.currentVersion)
      { version := some Document.currentVersion } :=
    Record.takes_written rfl rfl (fun _ _ h => congrArg (Except.map _) h) (reads_currentVersion 1)
  have htags : Document.record.Takes (Written 1) { version := some Document.currentVersion } "tags"
      (.list (tags.map Tag.toJson))
      { version := some Document.currentVersion, tags := some tags } :=
    Record.takes_written rfl rfl (fun _ _ h => congrArg (Except.map _) h) (reads_tags tags 1)
  have hattributes : Document.record.Takes (Written 1)
      { version := some Document.currentVersion, tags := some tags } "globalAttributes"
      (.list (globalAttributes.map Attribute.toJson))
      ⟨some Document.currentVersion, some tags, some globalAttributes⟩ :=
    Record.takes_written rfl rfl (fun _ _ h => congrArg (Except.map _) h)
      (reads_attributes globalAttributes 1)
  exact Record.reads_written (.cons hversion (.cons htags (.cons hattributes .nil))) rfl

/-- A document is read back from its text. -/
theorem Document.ofText_text {d : Document} (hversion : d.version = currentVersion) :
    ofText d.text = .ok d :=
  decode_written (reads_document hversion)

/-- Quotes, backslashes, line breaks and other control characters, characters beyond sixteen bits,
two tags of one name, and empty lists. -/
theorem Document.ofText_text_escapes :
    let d : Document :=
      { version := currentVersion
        tags := [⟨"a", "\"\\\n\t\x00\x1f", [⟨"", "😀"⟩, ⟨"", "😀"⟩]⟩, ⟨"a", "", []⟩]
        globalAttributes := [] }
    ofText d.text = .ok d :=
  ofText_text rfl

end MarkupCatalog
