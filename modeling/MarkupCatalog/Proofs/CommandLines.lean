import MarkupCatalog.CommandLine.Parser
import MarkupCatalog.Proofs.Attempts

/-!
# A switch more

Command lines that differ in one switch.  The switch that asks for the document on standard output
changes nothing but its own option, wherever it stands among the arguments.
-/

namespace MarkupCatalog.CommandLine

/-! ## 1. Options that ask for the document -/

namespace Options

def printing (o : Options) : Options := { o with toStdout := true }

theorem printing_of_toStdout {o : Options} (h : o.toStdout = true) : o.printing = o := by
  cases o
  subst h
  rfl

theorem toStdout_of_eq {o : Options} (h : o = o.printing) : o.toStdout = true := by
  rw [h]
  rfl

theorem once_printing {α : Type} (old : Option α) (set : Except Refusal Options) :
    once old (set.map printing) = (once old set).map printing := by
  unfold once
  split <;> rfl

theorem assign_printing (o : Options) (value : String) (s : Setting) :
    o.printing.assign value s = (o.assign value s).map printing := by
  cases s with
  | files => exact once_printing o.files (.ok { o with files := some value })
  | destination => exact once_printing o.destination (.ok { o with destination := some value })
  | exclude => rfl
  | tagFormatter =>
    rw [assign, assign, ← once_printing]
    cases detail value <;> rfl
  | attributeFormatter =>
    rw [assign, assign, ← once_printing]
    cases detail value <;> rfl
  | config =>
    rw [assign, assign, ← once_printing]
    cases path value <;> rfl

theorem eq_printing_of_turnOn {o o' : Options} (h : o.turnOn .stdout = .ok o') :
    o' = o.printing := by
  rw [turnOn] at h
  split at h
  next => cases h
  next =>
    cases h
    rfl

/-- Either the switch is another one, or the document has been asked for now. -/
theorem turnOn_printing {o o' : Options} {s : Switch} (h : o.turnOn s = .ok o') :
    o.printing.turnOn s = .ok o'.printing ∨ o'.toStdout = true := by
  cases s with
  | stdout =>
    rw [eq_printing_of_turnOn h]
    exact .inr rfl
  | verbose | quiet =>
    rw [turnOn] at h ⊢
    split at h
    next => cases h
    next hoff =>
      cases h
      exact .inl (if_neg hoff)
  | help | version => cases h

theorem orElseSettings_printing (o : Options) (named : Option String) :
    o.printing.orElseSettings named = (o.orElseSettings named).map printing := by
  have hpath : o.printing.settingsPath = o.settingsPath := rfl
  unfold orElseSettings
  rw [hpath]
  cases o.settingsPath with
  | some p => cases named <;> rfl
  | none =>
    cases named with
    | none => rfl
    | some value => cases h : path value <;> simp only [h] <;> rfl

end Options

namespace Progress

/-! ## 2. One argument -/

/-- What an argument does, unless it is two hyphens alone. -/
def step (p : Progress) (arg : String) : Except Refusal Progress :=
  match arg.toList with
  | '-' :: '-' :: r => p.long r
  | ['-'] => p.plain arg
  | '-' :: r => p.short r
  | _ => p.plain arg

theorem all_cons (p : Progress) {arg : String} (harg : arg.toList ≠ ['-', '-'])
    (rest : List String) : p.all (arg :: rest) = (p.step arg).bind fun q => q.all rest := by
  rw [all, step]
  split
  next h => exact absurd h harg
  all_goals simp_all

theorem all_hyphens (p : Progress) {arg : String} (harg : arg.toList = ['-', '-'])
    (rest : List String) :
    p.all (arg :: rest) = if rest = [] then p.settle else .error .unknownArgument := by
  rw [all, harg]
  rfl

def printing (p : Progress) : Progress := { p with options := p.options.printing }

theorem printing_of_toStdout {p : Progress} (h : p.options.toStdout = true) : p.printing = p := by
  unfold printing
  rw [Options.printing_of_toStdout h]

theorem toStdout_of_eq {p : Progress} (h : p = p.printing) : p.options.toStdout = true :=
  Options.toStdout_of_eq (congrArg options h)

theorem settle_printing (p : Progress) : p.printing.settle = p.settle.map Options.printing := by
  obtain ⟨o, pending⟩ := p
  rcases pending with _ | ⟨s, _ | value⟩
  · rfl
  · rfl
  · exact o.assign_printing value s

theorem attached_printing (p : Progress) (s : Setting) (value : String) :
    p.printing.attached s value = (p.attached s value).map printing := by
  unfold attached
  rw [settle_printing]
  cases p.settle with
  | error r => rfl
  | ok o =>
    show (o.printing.assign value s).map _ = ((o.assign value s).map _).map _
    rw [o.assign_printing]
    cases o.assign value s <;> rfl

theorem awaiting_printing (p : Progress) (s : Setting) :
    p.printing.awaiting s = (p.awaiting s).map printing := by
  unfold awaiting
  rw [settle_printing]
  cases p.settle <;> rfl

theorem plain_printing (p : Progress) (arg : String) :
    p.printing.plain arg = (p.plain arg).map printing := by
  obtain ⟨o, pending⟩ := p
  rcases pending with _ | ⟨s, _ | value⟩ <;> rfl

theorem switch_printing {p q : Progress} {s : Switch} (h : p.switch s = .ok q) :
    p.printing.switch s = .ok q.printing ∨ q.options.toStdout = true := by
  obtain ⟨o', hbind, rfl⟩ := map_eq_ok h
  obtain ⟨o, hsettle, hon⟩ := bind_eq_ok hbind
  rcases Options.turnOn_printing hon with hon' | hstdout
  · left
    unfold switch
    rw [settle_printing, hsettle]
    show (o.printing.turnOn s).map _ = _
    rw [hon']
    rfl
  · exact .inr hstdout

/-- A step that does not heed whether the document is asked for. -/
theorem printing_of_map {q : Progress} {x y : Except Refusal Progress}
    (hmap : y = x.map printing) (h : x = .ok q) : y = .ok q.printing := by
  rw [hmap, h]
  rfl

/-- What an argument behind two hyphens does does not depend on what came before. -/
inductive LongAction (arg : List Char) : Prop
  | refused (r : Refusal) (h : ∀ p, long p arg = .error r)
  | attached (s : Setting) (value : String) (h : ∀ p, long p arg = p.attached s value)
  | awaiting (s : Setting) (h : ∀ p, long p arg = p.awaiting s)
  | switch (s : Switch) (h : ∀ p, long p arg = p.switch s)

theorem longAction (arg : List Char) : LongAction arg := by
  cases hname : (longNames.find? fun n =>
      n.1 = String.ofList (arg.takeWhile (· ≠ '='))).map Prod.snd with
  | none => exact .refused .unknownArgument fun p => by simp only [long, hname]
  | some name =>
    cases hvalue : arg.dropWhile (· ≠ '=') with
    | nil =>
      cases name with
      | setting s => exact .awaiting s fun p => by simp only [long, hname, hvalue]
      | switch s => exact .switch s fun p => by simp only [long, hname, hvalue]
    | cons c r =>
      cases name with
      | setting s => exact .attached s (String.ofList r) fun p => by simp only [long, hname, hvalue]
      | switch s => exact .refused .tooManyValues fun p => by simp only [long, hname, hvalue]

/-- What a letter behind one hyphen does, and then those behind it. -/
inductive ShortAction (letters : List Char) (r : List Char) : Prop
  | refused (h : ∀ p, short p letters = .error .unknownArgument)
  | attached (s : Setting) (value : String) (h : ∀ p, short p letters = p.attached s value)
  | awaiting (s : Setting) (h : ∀ p, short p letters = p.awaiting s)
  | switch (s : Switch) (h : ∀ p, short p letters = (p.switch s).bind fun q => q.short r)

theorem shortAction (c : Char) (r : List Char) : ShortAction (c :: r) r := by
  cases hname : (shortNames.find? fun n => n.1 = c).map Prod.snd with
  | none => exact .refused fun p => by simp only [short, hname]
  | some name =>
    cases name with
    | switch s => exact .switch s fun p => by simp only [short, hname]
    | setting s =>
      cases r with
      | nil => exact .awaiting s fun p => by simp only [short, hname]
      | cons d r =>
        by_cases hd : d = '='
        · subst hd
          exact .attached s (String.ofList r) fun p => by simp only [short, hname]
        · refine .attached s (String.ofList (d :: r)) fun p => ?_
          simp only [short, hname]
          split
          next h => cases h
          next h => exact absurd (List.cons.inj h).1 hd
          next => rfl

theorem long_printing {p q : Progress} {arg : List Char} (h : p.long arg = .ok q) :
    p.printing.long arg = .ok q.printing ∨ q.options.toStdout = true := by
  cases longAction arg with
  | refused r hlong =>
    rw [hlong] at h
    cases h
  | attached s value hlong =>
    rw [hlong] at h ⊢
    exact .inl (printing_of_map (p.attached_printing s value) h)
  | awaiting s hlong =>
    rw [hlong] at h ⊢
    exact .inl (printing_of_map (p.awaiting_printing s) h)
  | switch s hlong =>
    rw [hlong] at h ⊢
    exact switch_printing h

theorem short_printing {letters : List Char} {p q : Progress} (h : p.short letters = .ok q) :
    p.printing.short letters = .ok q.printing ∨ q.options.toStdout = true := by
  -- the letters are switches up to the one that takes a value
  induction letters generalizing p with
  | nil =>
    cases h
    exact .inl rfl
  | cons c r ih =>
    cases shortAction c r with
    | refused hshort =>
      rw [hshort] at h
      cases h
    | attached s value hshort =>
      rw [hshort] at h ⊢
      exact .inl (printing_of_map (p.attached_printing s value) h)
    | awaiting s hshort =>
      rw [hshort] at h ⊢
      exact .inl (printing_of_map (p.awaiting_printing s) h)
    | switch s hshort =>
      rw [hshort] at h ⊢
      obtain ⟨p', hswitch, hrest⟩ := bind_eq_ok h
      have hrest' := ih hrest
      rcases switch_printing hswitch with hswitch' | hstdout
      · rw [hswitch']
        exact hrest'
      · rw [printing_of_toStdout hstdout, hrest] at hrest'
        exact .inr (hrest'.elim (fun hsame => toStdout_of_eq (Except.ok.inj hsame)) id)

theorem step_printing {p q : Progress} {arg : String} (h : p.step arg = .ok q) :
    p.printing.step arg = .ok q.printing ∨ q.options.toStdout = true := by
  unfold step at h ⊢
  split at h
  next => exact long_printing h
  next => exact .inl (printing_of_map (p.plain_printing arg) h)
  next => exact short_printing h
  next => exact .inl (printing_of_map (p.plain_printing arg) h)

/-! ## 3. All arguments -/

/-- Arguments that do not ask for the document mean the same where it has been asked for. -/
theorem all_printing {args : List String} {p : Progress} {o : Options} (h : p.all args = .ok o) :
    p.printing.all args = .ok o.printing ∨ o.toStdout = true := by
  induction args generalizing p with
  | nil =>
    left
    rw [all, settle_printing]
    rw [all] at h
    rw [h]
    rfl
  | cons arg rest ih =>
    by_cases harg : arg.toList = ['-', '-']
    · rw [all_hyphens p harg] at h
      rw [all_hyphens _ harg]
      split at h
      next hrest =>
        left
        rw [if_pos hrest, settle_printing, h]
        rfl
      next => cases h
    · rw [all_cons p harg] at h
      rw [all_cons _ harg]
      obtain ⟨p', hstep, hrest⟩ := bind_eq_ok h
      have hrest' := ih hrest
      rcases step_printing hstep with hstep' | hstdout
      · rw [hstep']
        exact hrest'
      · rw [printing_of_toStdout hstdout, hrest] at hrest'
        exact .inr (hrest'.elim (fun hsame => Options.toStdout_of_eq (Except.ok.inj hsame)) id)

section Settled

variable {p : Progress} {o : Options} (h : p.settle = .ok o)

include h

theorem plain_settled (arg : String) : p.plain arg = ({ options := o } : Progress).plain arg := by
  obtain ⟨o', pending⟩ := p
  rcases pending with _ | ⟨s, _ | value⟩
  · rfl
  · cases h
  · rfl

theorem attached_settled (s : Setting) (value : String) :
    p.attached s value = ({ options := o } : Progress).attached s value := by
  unfold attached
  rw [h]
  rfl

theorem awaiting_settled (s : Setting) :
    p.awaiting s = ({ options := o } : Progress).awaiting s := by
  unfold awaiting
  rw [h]
  rfl

theorem switch_settled (s : Switch) : p.switch s = ({ options := o } : Progress).switch s := by
  unfold switch
  rw [h]
  rfl

theorem step_settled (arg : String) : p.step arg = ({ options := o } : Progress).step arg := by
  unfold step
  split
  next r _ =>
    cases longAction r with
    | refused r' hlong => rw [hlong, hlong]
    | attached s value hlong => rw [hlong, hlong, attached_settled h]
    | awaiting s hlong => rw [hlong, hlong, awaiting_settled h]
    | switch s hlong => rw [hlong, hlong, switch_settled h]
  next => exact plain_settled h arg
  next r _ hne _ =>
    cases r with
    | nil => exact absurd rfl hne
    | cons c r =>
      cases shortAction c r with
      | refused hshort => rw [hshort, hshort]
      | attached s value hshort => rw [hshort, hshort, attached_settled h]
      | awaiting s hshort => rw [hshort, hshort, awaiting_settled h]
      | switch s hshort => rw [hshort, hshort, switch_settled h]
  next => exact plain_settled h arg

/-- An option is carried out before the next one, whatever that is. -/
theorem all_settled (args : List String) : p.all args = ({ options := o } : Progress).all args := by
  cases args with
  | nil => exact h
  | cons arg rest =>
    by_cases harg : arg.toList = ['-', '-']
    · rw [all_hyphens _ harg, all_hyphens _ harg, h]
      rfl
    · rw [all_cons _ harg, all_cons _ harg, step_settled h]

end Settled

/-- The switch that asks for the document, between other arguments. -/
theorem all_insert {before after : List String} {p : Progress} {o o' : Options}
    (h : p.all (before ++ after) = .ok o) (hstdout : o.toStdout = false)
    (h' : p.all (before ++ "--stdout" :: after) = .ok o') : o' = o.printing := by
  induction before generalizing p with
  | nil =>
    have hhyphens : "--stdout".toList ≠ ['-', '-'] := by decide
    have hstep : p.step "--stdout" = p.switch .stdout := rfl
    rw [List.nil_append] at h h'
    rw [all_cons p hhyphens, hstep] at h'
    obtain ⟨q, hq, hrest⟩ := bind_eq_ok h'
    obtain ⟨o₂, hswitch, rfl⟩ := map_eq_ok hq
    obtain ⟨o₁, hsettle, hon⟩ := bind_eq_ok hswitch
    obtain rfl := Options.eq_printing_of_turnOn hon
    rw [all_settled hsettle] at h
    rcases all_printing h with hrest' | hasked
    · exact Except.ok.inj (hrest.symm.trans hrest')
    · rw [hstdout] at hasked
      cases hasked
  | cons arg before ih =>
    rw [List.cons_append] at h h'
    by_cases harg : arg.toList = ['-', '-']
    · have hne : before ++ "--stdout" :: after ≠ [] :=
        List.append_ne_nil_of_right_ne_nil _ (List.cons_ne_nil _ _)
      rw [all_hyphens p harg, if_neg hne] at h'
      cases h'
    · rw [all_cons p harg] at h h'
      obtain ⟨q, hq, hrest⟩ := bind_eq_ok h
      obtain ⟨q', hq', hrest'⟩ := bind_eq_ok h'
      obtain rfl : q = q' := Except.ok.inj (hq.symm.trans hq')
      exact ih hrest hrest'

end Progress

/-! ## 4. Whole command lines -/

theorem parse_eq_ok_iff {args : List String} {environment : Option String} {o : Options} :
    parse args environment = .ok o ↔ ∃ o₁, Progress.all {} args = .ok o₁ ∧
      o₁.orElseSettings environment = .ok o ∧ (o.verbose && o.quiet) = false := by
  unfold parse
  constructor
  · intro h
    obtain ⟨o₁, hall, h⟩ := bind_eq_ok h
    obtain ⟨o₂, helse, h⟩ := bind_eq_ok h
    split at h
    next => cases h
    next hlog =>
      cases h
      exact ⟨o₁, hall, helse, Bool.eq_false_iff.mpr hlog⟩
  · rintro ⟨o₁, hall, helse, hlog⟩
    show (Progress.all {} args).bind _ = _
    rw [hall]
    show (o₁.orElseSettings environment).bind _ = _
    rw [helse]
    exact if_neg (Bool.eq_false_iff.mp hlog)

theorem toStdout_of_orElseSettings {o o₁ : Options} {named : Option String}
    (h : o₁.orElseSettings named = .ok o) : o.toStdout = o₁.toStdout := by
  unfold Options.orElseSettings at h
  split at h
  next =>
    obtain ⟨p, -, rfl⟩ := map_eq_ok h
    rfl
  next => rw [Except.ok.inj h]

section Parse

variable {args : List String} {environment : Option String} {o : Options}

theorem parse_cons_stdout (h : parse args environment = .ok o) (hstdout : o.toStdout = false) :
    parse ("--stdout" :: args) environment = .ok o.printing := by
  obtain ⟨o₁, hall, helse, hlog⟩ := parse_eq_ok_iff.mp h
  have hhyphens : "--stdout".toList ≠ ['-', '-'] := by decide
  refine parse_eq_ok_iff.mpr ⟨o₁.printing, ?_, ?_, hlog⟩
  · rw [Progress.all_cons _ hhyphens]
    show Progress.all (Progress.printing {}) args = _
    rcases Progress.all_printing hall with hall' | hasked
    · exact hall'
    · rw [← toStdout_of_orElseSettings helse, hstdout] at hasked
      cases hasked
  · rw [Options.orElseSettings_printing, helse]
    rfl

/-- Wherever the switch stands, nothing else is asked for than without it. -/
theorem parse_insert_stdout {before after : List String}
    (h : parse (before ++ after) environment = .ok o) (hstdout : o.toStdout = false) {o' : Options}
    (h' : parse (before ++ "--stdout" :: after) environment = .ok o') : o' = o.printing := by
  obtain ⟨o₁, hall, helse, -⟩ := parse_eq_ok_iff.mp h
  obtain ⟨o₂, hall', helse', -⟩ := parse_eq_ok_iff.mp h'
  have hstdout₁ := (toStdout_of_orElseSettings helse).symm.trans hstdout
  obtain rfl := Progress.all_insert hall hstdout₁ hall'
  rw [Options.orElseSettings_printing, helse] at helse'
  exact (Except.ok.inj helse').symm

end Parse

end MarkupCatalog.CommandLine
