import MarkupCatalog.Text.Blank

/-!
# Raw texts

Paths and the names in a file system are bytes. They are the encoding of a text in most cases, but
need not be, and what is asked of a text holds of no other bytes.
-/

namespace MarkupCatalog

structure RawText where
  bytes : List UInt8
  deriving DecidableEq, Repr

namespace RawText

/-! ## 1. Texts as bytes -/

def ofChars (s : List Char) : RawText := ⟨s.flatMap String.utf8EncodeChar⟩

def ofString (s : String) : RawText := ofChars s.toList

instance : Coe String RawText := ⟨ofString⟩

/-- The text that is encoded, if there is one. -/
def text? (r : RawText) : Option String := String.fromUTF8? r.bytes.toByteArray

theorem toByteArray_ofString (s : String) : (ofString s).bytes.toByteArray = s.toUTF8 :=
  String.utf8Encode_toList

theorem fromUTF8?_eq_some_iff {content : ByteArray} {s : String} :
    String.fromUTF8? content = some s ↔ content = s.toUTF8 := by
  unfold String.fromUTF8?
  constructor
  · intro h
    split at h
    next => rw [← Option.some.inj h]; rfl
    next => cases h
  · rintro rfl
    exact dif_pos s.isValidUTF8

theorem text?_eq_some_iff {r : RawText} {s : String} : r.text? = some s ↔ r = ofString s := by
  rw [text?, fromUTF8?_eq_some_iff, ← toByteArray_ofString]
  constructor
  · intro h
    have hbytes := congrArg (fun b : ByteArray => b.data.toList) h
    simp only [List.toList_data_toByteArray] at hbytes
    exact congrArg RawText.mk hbytes
  · rintro rfl
    rfl

@[simp] theorem text?_ofString (s : String) : (ofString s).text? = some s :=
  text?_eq_some_iff.mpr rfl

theorem ofString_injective {s t : String} (h : ofString s = ofString t) : s = t :=
  Option.some.inj ((text?_ofString s).symm.trans (text?_eq_some_iff.mpr h))

/-! ## 2. How they are shown -/

/-- A byte that continues the encoding of a character. -/
def isContinuation (b : UInt8) : Bool := 0x80 ≤ b && b ≤ 0xbf

/-- The second byte fits the first one in the encoding of a character of three or four bytes. -/
def opens (first second : UInt8) : Bool :=
  if first = 0xe0 then 0xa0 ≤ second && second ≤ 0xbf
  else if first = 0xed then 0x80 ≤ second && second ≤ 0x9f
  else if first = 0xf0 then 0x90 ≤ second && second ≤ 0xbf
  else if first = 0xf4 then 0x80 ≤ second && second ≤ 0x8f
  else 0xe1 ≤ first && first ≤ 0xf3 && isContinuation second

/-- How many bytes are shown as one replacement character, where no character is encoded: those with
which an encoding begins, or a single one. -/
def brokenSize : List UInt8 → Nat
  | first :: second :: third :: _ =>
    if !opens first second then 1 else if 0xf0 ≤ first && isContinuation third then 3 else 2
  | [first, second] => if opens first second then 2 else 1
  | _ => 1

/-- The characters that are encoded, with replacement characters for all else. -/
def shownChars (fuel : Nat) (bytes : List UInt8) : List Char :=
  match fuel, bytes with
  | 0, _ | _, [] => []
  | fuel + 1, bytes =>
    match ByteArray.utf8DecodeChar? bytes.toByteArray 0 with
    | some c => c :: shownChars fuel (bytes.drop c.utf8Size)
    | none => '\ufffd' :: shownChars fuel (bytes.drop (brokenSize bytes))

def shown (r : RawText) : String :=
  r.text?.getD (String.ofList (shownChars r.bytes.length r.bytes))

@[simp] theorem shown_ofString (s : String) : (ofString s).shown = s := by
  rw [shown, text?_ofString, Option.getD_some]

end RawText
end MarkupCatalog
