import MarkupCatalog.Proofs.Texts
import MarkupCatalog.Text.Raw

/-!
# Texts as bytes

Characters up to 127 are encoded as one byte, which occurs in the encoding of no other character.  A
text can be cut at such a character before or after it is encoded.
-/

namespace MarkupCatalog.RawText

/-! ## 1. Bytes of a character -/

theorem utf8EncodeChar_of_le {c : Char} (h : c.toNat ≤ 127) :
    String.utf8EncodeChar c = [c.toUInt8] := if_pos h

/-- All bytes of a longer character are 128 or more. -/
theorem le_of_mem_utf8EncodeChar {c : Char} (hc : ¬ c.toNat ≤ 127) {b : UInt8}
    (h : b ∈ String.utf8EncodeChar c) : 128 ≤ b.toNat := by
  have hlong : ∀ n, 128 ≤ n % 256 → 128 ≤ (UInt8.ofNat n).toNat := fun n hn => hn
  unfold String.utf8EncodeChar at h
  dsimp only at h
  rw [if_neg (show ¬ c.val.toNat ≤ 127 from hc)] at h
  split at h
  next =>
    simp only [List.mem_cons, List.not_mem_nil, or_false] at h
    rcases h with rfl | rfl
    all_goals exact hlong _ (by omega)
  next =>
    split at h
    next =>
      simp only [List.mem_cons, List.not_mem_nil, or_false] at h
      rcases h with rfl | rfl | rfl
      all_goals exact hlong _ (by omega)
    next =>
      simp only [List.mem_cons, List.not_mem_nil, or_false] at h
      rcases h with rfl | rfl | rfl | rfl
      all_goals exact hlong _ (by omega)

section Ascii

variable {d : Char} (hd : d.toNat ≤ 127)

include hd

theorem toNat_toUInt8 : d.toUInt8.toNat = d.toNat :=
  Nat.mod_eq_of_lt (Nat.lt_of_le_of_lt hd (by decide))

theorem mem_utf8EncodeChar {c : Char} : d.toUInt8 ∈ String.utf8EncodeChar c ↔ c = d := by
  constructor
  · intro h
    by_cases hc : c.toNat ≤ 127
    · rw [utf8EncodeChar_of_le hc, List.mem_singleton, ← UInt8.toNat_inj, toNat_toUInt8 hd,
        toNat_toUInt8 hc] at h
      exact Char.toNat_inj.mp h.symm
    · have hle := le_of_mem_utf8EncodeChar hc h
      rw [toNat_toUInt8 hd] at hle
      omega
  · rintro rfl
    rw [utf8EncodeChar_of_le hd]
    exact List.mem_singleton_self _

/-! ## 2. Bytes of a text -/

theorem bytes_cons_of_le (s : List Char) :
    (ofChars (d :: s)).bytes = d.toUInt8 :: (ofChars s).bytes := by
  show List.flatMap String.utf8EncodeChar (d :: s) = _
  rw [List.flatMap_cons, utf8EncodeChar_of_le hd]
  rfl

theorem mem_bytes {s : List Char} : d.toUInt8 ∈ (ofChars s).bytes ↔ d ∈ s := by
  show d.toUInt8 ∈ List.flatMap String.utf8EncodeChar s ↔ d ∈ s
  simp only [List.mem_flatMap, mem_utf8EncodeChar hd, exists_eq_right]

theorem head?_bytes {s : List Char} :
    (ofChars s).bytes.head? = some d.toUInt8 ↔ s.head? = some d := by
  cases s with
  | nil => exact ⟨nofun, nofun⟩
  | cons c s =>
    obtain ⟨b, bytes, hc⟩ := List.exists_cons_of_ne_nil (String.utf8EncodeChar_ne_nil (c := c))
    show (List.flatMap String.utf8EncodeChar (c :: s)).head? = _ ↔ _
    rw [List.flatMap_cons, hc, List.cons_append, List.head?_cons, List.head?_cons,
      Option.some_inj, Option.some_inj]
    constructor
    · rintro rfl
      exact (mem_utf8EncodeChar hd).mp (hc ▸ List.mem_cons_self)
    · rintro rfl
      rw [utf8EncodeChar_of_le hd] at hc
      exact (List.cons.inj hc).1.symm

theorem getLast?_bytes {s : List Char} :
    (ofChars s).bytes.getLast? = some d.toUInt8 ↔ s.getLast? = some d := by
  rcases List.eq_nil_or_concat' s with rfl | ⟨s, c, rfl⟩
  · exact ⟨nofun, nofun⟩
  · have hne := String.utf8EncodeChar_ne_nil (c := c)
    show (List.flatMap String.utf8EncodeChar (s ++ [c])).getLast? = _ ↔ _
    rw [List.flatMap_append, List.flatMap_singleton, List.getLast?_append_of_ne_nil _ hne,
      List.getLast?_append_of_ne_nil _ (List.cons_ne_nil c []), List.getLast?_singleton,
      Option.some_inj]
    constructor
    · intro hlast
      exact (mem_utf8EncodeChar hd).mp (List.mem_of_getLast? hlast)
    · rintro rfl
      rw [utf8EncodeChar_of_le hd]
      rfl

/-- A text can be cut into pieces before or after it is encoded. -/
theorem split_bytes (s : List Char) :
    Text.split d.toUInt8 (ofChars s).bytes =
      (Text.split d s).map fun piece => (ofChars piece).bytes := by
  induction s with
  | nil => rfl
  | cons c s ih =>
    by_cases hc : c = d
    · subst hc
      rw [bytes_cons_of_le hd, Text.split, Text.split, if_pos rfl, if_pos rfl, ih]
      rfl
    · have hmem : d.toUInt8 ∉ String.utf8EncodeChar c := mt (mem_utf8EncodeChar hd).mp hc
      have hsplit : Text.split d s ≠ [] := Text.split_ne_nil d s
      obtain ⟨p, ps, hps⟩ := List.exists_cons_of_ne_nil hsplit
      show Text.split d.toUInt8 (String.utf8EncodeChar c ++ (ofChars s).bytes) = _
      rw [hps, List.map_cons] at ih
      rw [Text.split_append_of_not_mem hmem ih, Text.split, if_neg hc, hps]
      rfl

end Ascii

theorem bytes_append (s t : List Char) :
    (ofChars (s ++ t)).bytes = (ofChars s).bytes ++ (ofChars t).bytes := List.flatMap_append

theorem ofString_ofList (s : List Char) : ofString (String.ofList s) = ofChars s := by
  rw [ofString, String.toList_ofList]

theorem ofChars_injective {s t : List Char} (h : ofChars s = ofChars t) : s = t := by
  rw [← ofString_ofList, ← ofString_ofList] at h
  exact String.ofList_injective (ofString_injective h)

theorem bytes_eq_nil_iff {s : List Char} : (ofChars s).bytes = [] ↔ s = [] :=
  ⟨fun h => ofChars_injective (congrArg RawText.mk h), fun h => by rw [h]; rfl⟩

/-- A text of characters up to 127 ends an encoding where it ends the text. -/
theorem suffix_bytes_iff {t : List Char} (ht : ∀ c ∈ t, c.toNat ≤ 127) {s : List Char} :
    (ofChars t).bytes <:+ (ofChars s).bytes ↔ t <:+ s := by
  constructor
  · intro h
    induction t using List.reverseRecOn generalizing s with
    | nil => exact List.nil_suffix
    | append_singleton t d ih =>
      have hd : d.toNat ≤ 127 := ht d (List.mem_append_right _ List.mem_cons_self)
      obtain ⟨front, hfront⟩ := h
      have hsingle : (ofChars [d]).bytes = [d.toUInt8] := bytes_cons_of_le hd []
      rw [bytes_append, hsingle, ← List.append_assoc] at hfront
      have hlast : s.getLast? = some d := by
        rw [← getLast?_bytes hd, ← hfront, List.getLast?_concat]
      obtain ⟨s, rfl⟩ := List.getLast?_eq_some_iff.mp hlast
      rw [bytes_append, hsingle] at hfront
      have hrest : (ofChars t).bytes <:+ (ofChars s).bytes :=
        ⟨front, List.append_cancel_right hfront⟩
      obtain ⟨more, hmore⟩ := ih (fun c hc => ht c (List.mem_append_left _ hc)) hrest
      exact ⟨more, by rw [← List.append_assoc, hmore]⟩
  · rintro ⟨front, rfl⟩
    exact ⟨(ofChars front).bytes, (bytes_append front t).symm⟩

theorem ofString_append (s t : String) :
    ofString (s ++ t) = ⟨(ofString s).bytes ++ (ofString t).bytes⟩ := by
  rw [ofString, String.toList_append]
  exact congrArg RawText.mk (bytes_append _ _)

/-- Bytes in front of such a text are a text if all of them are. -/
theorem isSome_text?_append {bytes : List UInt8} {t : String} (ht : ∀ c ∈ t.toList, c.toNat ≤ 127) :
    (RawText.mk (bytes ++ (ofString t).bytes)).text?.isSome = true ↔
      (RawText.mk bytes).text?.isSome = true := by
  constructor
  · intro h
    obtain ⟨s, hs⟩ := Option.isSome_iff_exists.mp h
    have hbytes : bytes ++ (ofString t).bytes = (ofString s).bytes :=
      congrArg RawText.bytes (text?_eq_some_iff.mp hs)
    obtain ⟨front, hfront⟩ := (suffix_bytes_iff ht).mp ⟨bytes, hbytes⟩
    have hsame : bytes = (ofString (String.ofList front)).bytes := by
      rw [ofString, ofString, ← hfront, bytes_append] at hbytes
      rw [ofString_ofList]
      exact List.append_cancel_right hbytes
    rw [hsame, text?_eq_some_iff.mpr rfl]
    rfl
  · intro h
    obtain ⟨s, hs⟩ := Option.isSome_iff_exists.mp h
    have hbytes : bytes = (ofString s).bytes := congrArg RawText.bytes (text?_eq_some_iff.mp hs)
    rw [hbytes, ← ofString_append, text?_ofString]
    rfl

end MarkupCatalog.RawText
