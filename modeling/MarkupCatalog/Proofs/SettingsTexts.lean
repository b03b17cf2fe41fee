import MarkupCatalog.Proofs.JsonSpellings
import MarkupCatalog.Settings.Text

/-!
# Texts that hold settings

A text holds settings if it is an object with a member for each of them.  It is read as the layer
that gives these settings, whatever the order of the members and the spelling of their values.
-/

namespace MarkupCatalog

open Json

namespace Settings.Layer

/-! ## 1. Settings as members -/

/-- The settings that a layer can give. -/
inductive Key where
  | destination
  | files
  | exclude
  | tagFormatter
  | attributeFormatter
  deriving DecidableEq

def Key.name : Key → String
  | destination => "destination"
  | files => "files"
  | exclude => "exclude"
  | tagFormatter => "tagFormatter"
  | attributeFormatter => "attributeFormatter"

def gives (l : Layer) : Key → Bool
  | .destination => l.destination.isSome
  | .files => l.files.isSome
  | .exclude => l.exclude.isSome
  | .tagFormatter => l.tagDetail.isSome
  | .attributeFormatter => l.attributeDetail.isSome

/-- The value of a setting, null where the layer does not give it. -/
def value (l : Layer) : Key → Value
  | .destination => l.destination.elim .null .string
  | .files => l.files.elim .null .string
  | .exclude => l.exclude.elim .null fun globs => .list (globs.map .string)
  | .tagFormatter => l.tagDetail.elim .null fun d => .string d.name
  | .attributeFormatter => l.attributeDetail.elim .null fun d => .string d.name

/-- The text is an object with the settings that the layer gives as its members, in any order.  It
may say of others that they are null. -/
def HeldBy (l : Layer) (text : String) : Prop :=
  ∃ keys : List Key, keys.Nodup ∧ (∀ k, l.gives k → k ∈ keys) ∧
    ∃ lead body space, Space lead ∧ Space space ∧
      Spells (.object (keys.map fun k => (k.name, l.value k))) body ∧
      text = String.ofList (lead ++ (body ++ space))

/-! ## 2. Values of settings -/

section Values

variable {text : List Char}

theorem head?_ne_of_spells {v : Value} (h : Spells v text) (hv : v ≠ .null) :
    text.head? ≠ some 'n' := by
  cases h with
  | null => exact absurd rfl hv
  | string h =>
    cases h
    nofun
  | list => nofun
  | object => nofun

theorem reads_optional {reader : Reader α} {encode : α → Value}
    (hread : ∀ v text, Spells (encode v) text → Reads reader text v)
    (hvalue : ∀ v, encode v ≠ .null) {x : Option α} (h : Spells (x.elim .null encode) text) :
    Reads (optional reader) text x := by
  cases x with
  | none =>
    cases h
    exact reads_null reader
  | some v => exact reads_some (hread v text h) (head?_ne_of_spells h (hvalue v))

theorem reads_string {s : String} (h : Spells (.string s) text) : Reads Json.text text s := by
  cases h with
  | string h => exact stringAs_of_spells h _

theorem reads_strings {globs : List String} (h : Spells (.list (globs.map .string)) text) :
    Reads (Json.list Json.text) text globs := by
  cases h with
  | list h => exact reads_list (h.of_map fun _ _ _ hglob => reads_string hglob)

theorem find?_names (d : Detail) :
    Detail.names.find? (fun c => c.1 = d.name) = some (d.name, d) := by
  cases d <;> rfl

theorem reads_detail {d : Detail} (h : Spells (.string d.name) text) :
    Reads Detail.reader text d := by
  cases h with
  | string h =>
    cases h with
    | @quoted body h =>
      have hname := stringAs_of_spells (.quoted h) "variant identifier"
      refine ⟨hname.opens, ?_⟩
      intro s rest hskip hrest
      have hskip : skip s = '"' :: (body ++ rest) := hskip
      have hchoice : named Detail.names ('"' :: (body ++ rest)) = .ok (d, rest) := by
        have hread : stringAs "variant identifier" ('"' :: (body ++ rest)) = .ok (d.name, rest) :=
          hname.read_text hrest
        have hfind := find?_names d
        unfold named
        rw [hread]
        simp only [Except.bind, hfind]
      unfold Detail.reader variant
      rw [hskip]
      exact hchoice

end Values

/-! ## 3. Reading the members -/

/-- The draft in which the settings of some keys have been read. -/
def draft (l : Layer) (keys : List Key) : Draft :=
  { destination := if .destination ∈ keys then some l.destination else none
    files := if .files ∈ keys then some l.files else none
    exclude := if .exclude ∈ keys then some l.exclude else none
    tagDetail := if .tagFormatter ∈ keys then some l.tagDetail else none
    attributeDetail := if .attributeFormatter ∈ keys then some l.attributeDetail else none }

/-- A key that has not been read yet is added to the draft. -/
theorem takes_key (l : Layer) {keys : List Key} {k : Key} (hk : k ∉ keys) :
    record.Takes Spells (l.draft keys) k.name (l.value k) (l.draft (keys ++ [k])) := by
  cases k with
  | destination =>
    have hdraft : l.draft (keys ++ [.destination]) =
        { l.draft keys with destination := some l.destination } := by simp [draft]
    rw [hdraft]
    exact Record.takes_field rfl (by simp [draft, hk]) (fun _ _ h => congrArg (Except.map _) h)
      fun _ h => reads_optional (fun _ _ => reads_string) nofun h
  | files =>
    have hdraft : l.draft (keys ++ [.files]) =
        { l.draft keys with files := some l.files } := by simp [draft]
    rw [hdraft]
    exact Record.takes_field rfl (by simp [draft, hk]) (fun _ _ h => congrArg (Except.map _) h)
      fun _ h => reads_optional (fun _ _ => reads_string) nofun h
  | exclude =>
    have hdraft : l.draft (keys ++ [.exclude]) =
        { l.draft keys with exclude := some l.exclude } := by simp [draft]
    rw [hdraft]
    exact Record.takes_field rfl (by simp [draft, hk]) (fun _ _ h => congrArg (Except.map _) h)
      fun _ h => reads_optional (fun _ _ => reads_strings) nofun h
  | tagFormatter =>
    have hdraft : l.draft (keys ++ [.tagFormatter]) =
        { l.draft keys with tagDetail := some l.tagDetail } := by simp [draft]
    rw [hdraft]
    exact Record.takes_field rfl (by simp [draft, hk]) (fun _ _ h => congrArg (Except.map _) h)
      fun _ h => reads_optional (fun _ _ => reads_detail) nofun h
  | attributeFormatter =>
    have hdraft : l.draft (keys ++ [.attributeFormatter]) =
        { l.draft keys with attributeDetail := some l.attributeDetail } := by simp [draft]
    rw [hdraft]
    exact Record.takes_field rfl (by simp [draft, hk]) (fun _ _ h => congrArg (Except.map _) h)
      fun _ h => reads_optional (fun _ _ => reads_detail) nofun h

theorem fills_keys (l : Layer) (keys : List Key) : ∀ read, (read ++ keys).Nodup →
    record.Fills Spells (l.draft read) (keys.map fun k => (k.name, l.value k))
      (l.draft (read ++ keys)) := by
  -- the state of the induction are the keys that have been read
  induction keys with
  | nil =>
    intro read _
    rw [List.append_nil]
    exact .nil
  | cons k keys ih =>
    intro read hnodup
    have hk : k ∉ read :=
      fun h => (List.nodup_append.mp hnodup).2.2 k h k List.mem_cons_self rfl
    rw [List.append_cons] at hnodup ⊢
    exact .cons (l.takes_key hk) (ih (read ++ [k]) hnodup)

theorem getD_of_given {α : Type} {x : Option α} {p : Prop} [Decidable p] (h : x.isSome → p) :
    (if p then some x else none).getD none = x := by
  by_cases hp : p
  · rw [if_pos hp, Option.getD_some]
  · rw [if_neg hp, Option.getD_none]
    exact (Option.not_isSome_iff_eq_none.mp fun hx => hp (h hx)).symm

theorem finish_draft {l : Layer} {keys : List Key} (h : ∀ k, l.gives k → k ∈ keys) :
    record.finish (l.draft keys) = .ok l := by
  have hdestination := getD_of_given (h .destination)
  have hfiles := getD_of_given (h .files)
  have hexclude := getD_of_given (h .exclude)
  have htag := getD_of_given (h .tagFormatter)
  have hattribute := getD_of_given (h .attributeFormatter)
  simp only [record, draft, hdestination, hfiles, hexclude, htag, hattribute]

/-- A text is read as the layer whose settings it holds. -/
theorem ofText_of_heldBy {l : Layer} {text : String} (h : l.HeldBy text) : ofText text = .ok l := by
  obtain ⟨keys, hnodup, hgiven, lead, body, space, hlead, hspace, hbody, rfl⟩ := h
  have hfills := l.fills_keys keys [] hnodup
  rw [List.nil_append] at hfills
  cases hbody with
  | object hmembers =>
    exact decode_of_reads (Record.reads hmembers hfills (finish_draft hgiven)) hlead hspace

end Settings.Layer

end MarkupCatalog
