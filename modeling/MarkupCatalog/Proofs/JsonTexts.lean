import MarkupCatalog.Proofs.JsonSpellings

/-!
# Reading what was written

The text that is written for a value is one of its spellings: strings have only the escapes that
they need, and each item of a list and each member of an object stands on a line of its own.  So
what was written is read back, as far as it consists of strings, lists and objects; of other values
that has to be known.
-/

namespace MarkupCatalog.Json

/-! ## 1. Strings -/

theorem spellsCode_control {n : Nat} (h : n < 32) : SpellsCode n ('0' :: '0' :: hexDigits n) := by
  have hzero : SpellsDigit 0 '0' := .small (by decide)
  have hhigh : SpellsDigit (n / 16) (Nat.digitChar (n / 16)) := .small (by omega)
  have hlow : SpellsDigit (n % 16) (Nat.digitChar (n % 16)) := .small (by omega)
  have hcode := SpellsCode.digits hzero hzero hhigh hlow
  rwa [Nat.mul_zero, Nat.zero_add, Nat.div_add_mod] at hcode

theorem spellsChar_escaped (c : Char) : SpellsChar c (escaped c) := by
  unfold escaped
  split_ifs with hquote hslash _ _ _ _ _ hcontrol
  on_goal 8 => exact .code (spellsCode_control (UInt32.lt_iff_toNat_lt.mp hcontrol))
  on_goal 8 => exact .plain hquote hslash hcontrol
  -- the other escapes are a letter each
  all_goals
    subst c
    exact .letter (by decide)

theorem spellsBody_escaped (s : String) : SpellsBody s (s.toList.flatMap escaped ++ ['"']) := by
  refine ⟨s.toList.map escaped, ?_, rfl⟩
  rw [List.forall₂_map_right_iff]
  exact List.forall₂_same.mpr fun c _ => spellsChar_escaped c

theorem spells_writeString (s : String) : SpellsString s (writeString s) :=
  .quoted (spellsBody_escaped s)

theorem reads_text (s : String) : Reads Json.text (writeString s) s :=
  stringAs_of_spells (spells_writeString s) _

/-! ## 2. Lists and objects -/

/-- The text of a value whose brackets stand at a depth. -/
def Written (depth : Nat) (v : Value) (text : List Char) : Prop := text = v.write depth

theorem space_newline (depth : Nat) : Space (newline depth) := by
  intro c hc
  rcases List.mem_cons.mp hc with rfl | hc
  · rfl
  · rw [List.eq_of_mem_replicate hc]
    rfl

theorem spells_writeItems (depth : Nat) (vs : List Value) :
    SpellsRest ']' (Written (depth + 1)) vs (writeItems depth vs) := by
  induction vs with
  | nil =>
    rw [writeItems]
    exact .nil (space_newline depth)
  | cons v vs ih =>
    have hv : Written (depth + 1) v (v.write (depth + 1)) := rfl
    have hitems := SpellsRest.cons Space.nil (space_newline (depth + 1)) hv ih
    rw [writeItems]
    simpa using hitems

theorem spells_list (depth : Nat) (vs : List Value) :
    ∃ body, (Value.list vs).write depth = '[' :: body ∧
      SpellsItems ']' (Written (depth + 1)) vs body := by
  cases vs with
  | nil => exact ⟨[']'], by rw [Value.write], .nil Space.nil⟩
  | cons v vs =>
    have hv : Written (depth + 1) v (v.write (depth + 1)) := rfl
    have hbody := SpellsItems.cons (space_newline (depth + 1)) hv (spells_writeItems depth vs)
    exact ⟨_, by rw [Value.write]; simp, hbody⟩

theorem spells_member (depth : Nat) (name : String) (v : Value) :
    SpellsMember (Written depth) (name, v) (writeString name ++ ':' :: ' ' :: v.write depth) := by
  have hblank : Space [' '] := .cons rfl .nil
  have hv : Written depth v (v.write depth) := rfl
  have hmember := SpellsMember.mk (spellsBody_escaped name) Space.nil hblank hv
  simpa [writeString] using hmember

theorem spells_writeMembers (depth : Nat) (ms : List (String × Value)) :
    SpellsRest '\x7d' (SpellsMember (Written (depth + 1))) ms (writeMembers depth ms) := by
  induction ms with
  | nil =>
    rw [writeMembers]
    exact .nil (space_newline depth)
  | cons m ms ih =>
    have hm := spells_member (depth + 1) m.1 m.2
    have hmembers := SpellsRest.cons Space.nil (space_newline (depth + 1)) hm ih
    rw [writeMembers]
    simpa using hmembers

theorem spells_object (depth : Nat) (ms : List (String × Value)) :
    ∃ body, (Value.object ms).write depth = '\x7b' :: body ∧
      SpellsItems '\x7d' (SpellsMember (Written (depth + 1))) ms body := by
  cases ms with
  | nil => exact ⟨['\x7d'], by rw [Value.write], .nil Space.nil⟩
  | cons m ms =>
    have hm := spells_member (depth + 1) m.1 m.2
    have hbody := SpellsItems.cons (space_newline (depth + 1)) hm (spells_writeMembers depth ms)
    exact ⟨_, by rw [Value.write]; simp, hbody⟩

/-! ## 3. Reading back -/

/-- A list is read back if its items are. -/
theorem reads_writtenList {item : Reader α} {encode : α → Value} {xs : List α} {depth : Nat}
    (hitem : ∀ x ∈ xs, Reads item ((encode x).write (depth + 1)) x) :
    Reads (list item) ((Value.list (xs.map encode)).write depth) xs := by
  obtain ⟨body, htext, hbody⟩ := spells_list depth (xs.map encode)
  rw [htext]
  refine reads_list (hbody.of_map ?_)
  rintro x hx _ rfl
  exact hitem x hx

namespace Record

variable {record : Record δ α} {depth : Nat}

/-- A field that is not set yet takes the value that is read back. -/
theorem takes_written {f : Field δ} {d d' : δ} {name : String} {v : Value} {reader : Reader β}
    {value : β} (hfield : record.fields.find? (fun f => f.name = name) = some f)
    (hset : f.isSet d = false)
    (hread : ∀ s rest, reader s = .ok (value, rest) → f.read d s = .ok (d', rest))
    (hvalue : Reads reader (v.write depth) value) : record.Takes (Written depth) d name v d' := by
  refine takes_field hfield hset hread ?_
  rintro _ rfl
  exact hvalue

/-- A record is read back if its members are. -/
theorem reads_written {d' : δ} {ms : List (String × Value)} {value : α}
    (h : Fills record (Written (depth + 1)) record.draft ms d')
    (hfinish : record.finish d' = .ok value) :
    Reads record.read ((Value.object ms).write depth) value := by
  obtain ⟨body, htext, hbody⟩ := spells_object depth ms
  rw [htext]
  exact reads hbody h hfinish

end Record

theorem decode_written {reader : Reader α} {text : List Char} {value : α}
    (h : Reads reader text value) : decode reader (String.ofList text) = .ok value := by
  have hdecode := decode_of_reads h Space.nil Space.nil
  rwa [List.nil_append, List.append_nil] at hdecode

end MarkupCatalog.Json
