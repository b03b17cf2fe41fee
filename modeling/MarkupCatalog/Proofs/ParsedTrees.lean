import Mathlib.Data.List.TakeDrop
import MarkupCatalog.Proofs.Comments
import MarkupCatalog.Report

/-!
# Comments and strings in parsed trees

In the tree of a source text every comment is a leaf that plays no part in its parent.  Readers
bring comments along as leaves, no pattern makes a node of this kind, and parts are given to other
nodes.  Nor does a pattern make a string: outside of markup, its parts are what was read between
quotes.
-/

namespace MarkupCatalog

/-! ## 1. Tidy trees -/

/-- The parts of a string, with both quotes, as they are read. -/
def Tree.IsQuoted (parts : List Tree) : Prop :=
  ∃ size s rest, readString size s = some (parts, rest)

/-- All comments are leaves without a part.  In the dialect without markup, the parts of a string
are what was read as one. -/
inductive Tree.Tidy (dialect : Dialect) : Tree → Prop
  | node {k : Kind} {l : Option Label} {s : String} {cs : List Tree}
      (comment : k = .comment → l = none ∧ cs = [])
      (string : dialect = .typeScript → k = .string → IsQuoted cs)
      (children : ∀ c ∈ cs, Tidy dialect c) : Tidy dialect (.node k l s cs)

variable {dialect : Dialect}

namespace Tree

theorem Tidy.of_leaf {k : Kind} (hk : k ≠ .string) (s : String) : (leaf k s).Tidy dialect :=
  .node (fun _ => ⟨rfl, rfl⟩) (fun _ hstring => absurd hstring hk) nofun

/-- A node that is neither a comment nor a string. -/
theorem Tidy.of_other {k : Kind} (hcomment : k ≠ .comment) (hstring : k ≠ .string)
    {l : Option Label} {s : String} {cs : List Tree} (children : ∀ c ∈ cs, c.Tidy dialect) :
    (Tree.node k l s cs).Tidy dialect :=
  .node (fun h => absurd h hcomment) (fun _ h => absurd h hstring) children

theorem Tidy.of_comment {t : Tree} (h : t.Tidy dialect) (ht : t.kind = .comment) :
    t.label = none ∧ t.children = [] := by
  obtain ⟨comment, -, -⟩ := h
  exact comment ht

theorem Tidy.of_string {t : Tree} (h : t.Tidy .typeScript) (ht : t.kind = .string) :
    IsQuoted t.children := by
  obtain ⟨-, string, -⟩ := h
  exact string rfl ht

theorem mem_sitesOf {s : Site} {run : List Tree} {around : Option (Tree × List Tree)}
    {ts : List Tree} (h : s ∈ sitesOf run around ts) :
    ∃ t ∈ ts, ∃ run', s ∈ t.sites run' around := by
  induction ts generalizing run with
  | nil => exact absurd h List.not_mem_nil
  | cons t ts ih =>
    rw [sitesOf] at h
    rcases List.mem_append.mp h with h | h
    · exact ⟨t, List.mem_cons_self, run, h⟩
    · obtain ⟨u, hu, run', hs⟩ := ih h
      exact ⟨u, List.mem_cons_of_mem t hu, run', hs⟩

theorem Tidy.sites {t : Tree} (h : t.Tidy dialect) (run : List Tree)
    (around : Option (Tree × List Tree)) : ∀ s ∈ t.sites run around, s.node.Tidy dialect := by
  induction h generalizing run around with
  | node comment string children ih =>
    intro s hs
    rw [Tree.sites] at hs
    rcases List.mem_cons.mp hs with rfl | hs
    · exact .node comment string children
    · obtain ⟨c, hc, run', hs⟩ := mem_sitesOf hs
      exact ih c hc run' _ s hs

theorem Tidy.walk {t : Tree} (h : t.Tidy dialect) : ∀ c ∈ t.walk, c.focus.Tidy dialect := by
  have hsites := h.sites [] none
  rw [← map_site_walk, List.forall_mem_map] at hsites
  exact hsites

end Tree

/-! ## 2. Readers and terminals -/

def Reader.Tidy (dialect : Dialect) (r : Reader) : Prop := ∀ t ∈ r.comments, t.Tidy dialect

theorem tidy_splitTrivia (fuel : Nat) (s : List Char) :
    ∀ t ∈ (splitTrivia fuel s).1, t.Tidy dialect := by
  induction fuel generalizing s with
  | zero => exact nofun
  | succ fuel ih =>
    cases s with
    | nil => exact nofun
    | cons c r =>
      rw [splitTrivia]
      split
      next => exact ih r
      next =>
        split
        next => exact nofun
        next text rest _ => exact List.forall_mem_cons.mpr ⟨.of_leaf (by decide) _, ih rest⟩

theorem Reader.tidy_before (rest : List Char) (left : Nat) : (before rest left).Tidy dialect := by
  show ∀ t ∈ (splitTrivia (left + 1) rest).1, t.Tidy dialect
  exact tidy_splitTrivia _ rest

/-- What has been read is tidy, and so are the comments that come next. -/
structure TidyRead (dialect : Dialect) (read : List Tree × Reader) : Prop where
  items : ∀ t ∈ read.1, t.Tidy dialect
  stop : read.2.Tidy dialect

theorem TidyRead.nothing {r : Reader} (hr : r.Tidy dialect) : TidyRead dialect ([], r) :=
  ⟨nofun, hr⟩

theorem tidy_leaf {k : Kind} (hk : k ≠ .string) (s : String) :
    ∀ t ∈ [Tree.leaf k s], t.Tidy dialect :=
  List.forall_mem_singleton.mpr (.of_leaf hk s)

theorem tidy_leaf_cons {k : Kind} (hk : k ≠ .string) {s : String} {ts : List Tree}
    (h : ∀ t ∈ ts, t.Tidy dialect) : ∀ t ∈ Tree.leaf k s :: ts, t.Tidy dialect :=
  List.forall_mem_cons.mpr ⟨.of_leaf hk s, h⟩

/-- What is read of a string in one round: an escape, or the characters up to the next escape or the
closing quote. -/
inductive QuotedPart (quote : Char) : List Char → Tree → List Char → Prop
  | escape {r e t : List Char} (hquote : '\\' ≠ quote)
      (read : readEscape ('\\' :: r) = some (e, t)) :
      QuotedPart quote ('\\' :: r) (.leaf .escapeSequence (String.ofList e)) t
  | fragment {c : Char} {r f t : List Char} (hquote : c ≠ quote) (hslash : c ≠ '\\')
      (read : (c :: r).span (fun d => d != quote && d != '\\' && d != '\r' && d != '\n') = (f, t))
      (hne : f ≠ []) : QuotedPart quote (c :: r) (.leaf .stringFragment (String.ofList f)) t

section Round

variable {quote c : Char} {fuel : Nat} {r : List Char}

theorem readQuoted_escape (hquote : '\\' ≠ quote) :
    readQuoted quote (fuel + 1) ('\\' :: r) = (readEscape ('\\' :: r)).bind fun (e, r) =>
      (readQuoted quote fuel r).bind fun (parts, t) =>
        some (.leaf .escapeSequence (String.ofList e) :: parts, t) := by
  show (if '\\' = quote then _ else if ('\\' == '\\') = true then _ else _) = _
  rw [if_neg hquote, if_pos (beq_self_eq_true '\\')]
  rfl

theorem readQuoted_fragment (hquote : c ≠ quote) (hslash : c ≠ '\\') {f t : List Char}
    (hspan : (c :: r).span (fun d => d != quote && d != '\\' && d != '\r' && d != '\n') = (f, t)) :
    readQuoted quote (fuel + 1) (c :: r) = if f = [] then none else
      (readQuoted quote fuel t).bind fun (parts, t) =>
        some (.leaf .stringFragment (String.ofList f) :: parts, t) := by
  show (if c = quote then _ else if (c == '\\') = true then _ else _) = _
  rw [if_neg hquote, if_neg (by simpa using hslash), hspan]
  cases f <;> rfl

/-- A round reads the closing quote or a part in front of it. -/
theorem readQuoted_succ_iff {s t : List Char} {parts : List Tree} :
    readQuoted quote (fuel + 1) s = some (parts, t) ↔
      (s = quote :: t ∧ parts = [.leaf .token (String.singleton quote)]) ∨
        ∃ part rest r, QuotedPart quote s part r ∧ readQuoted quote fuel r = some (rest, t) ∧
          parts = part :: rest := by
  constructor
  · intro h
    cases s with
    | nil => exact nomatch h
    | cons c r =>
      -- a quote ends the string, a backslash begins an escape, and all else is text
      by_cases hquote : c = quote
      · change (if c = quote then _ else _) = _ at h
        rw [if_pos hquote] at h
        obtain ⟨rfl, rfl⟩ := Prod.mk.inj (Option.some.inj h)
        exact .inl ⟨by rw [hquote], rfl⟩
      by_cases hslash : c = '\\'
      · subst hslash
        rw [readQuoted_escape hquote] at h
        obtain ⟨⟨e, r'⟩, he, h⟩ := Option.bind_eq_some_iff.mp h
        obtain ⟨⟨ps, t'⟩, hps, h⟩ := Option.bind_eq_some_iff.mp h
        obtain ⟨rfl, rfl⟩ := Prod.mk.inj (Option.some.inj h)
        exact .inr ⟨_, ps, r', .escape hquote he, hps, rfl⟩
      · rcases hspan : (c :: r).span fun d =>
          d != quote && d != '\\' && d != '\r' && d != '\n' with ⟨f, r'⟩
        rw [readQuoted_fragment hquote hslash hspan] at h
        split at h
        next => exact nomatch h
        next hne =>
          obtain ⟨⟨ps, t'⟩, hps, h⟩ := Option.bind_eq_some_iff.mp h
          obtain ⟨rfl, rfl⟩ := Prod.mk.inj (Option.some.inj h)
          exact .inr ⟨_, ps, r', .fragment hquote hslash hspan hne, hps, rfl⟩
  · rintro (⟨rfl, rfl⟩ | ⟨part, rest, r, hpart, hrest, rfl⟩)
    · exact if_pos rfl
    · cases hpart with
      | escape hquote read =>
        rw [readQuoted_escape hquote]
        refine Option.bind_eq_some_iff.mpr ⟨_, read, ?_⟩
        exact Option.bind_eq_some_iff.mpr ⟨_, hrest, rfl⟩
      | fragment hquote hslash read hne =>
        rw [readQuoted_fragment hquote hslash read, if_neg hne, hrest]
        rfl

end Round

theorem readString_eq_some_iff {size : Nat} {s t : List Char} {parts : List Tree} :
    readString size s = some (parts, t) ↔ ∃ quote r rest,
      (quote == '\x22' || quote == '\x27') = true ∧ s = quote :: r ∧
        readQuoted quote size r = some (rest, t) ∧
        parts = .leaf .token (String.singleton quote) :: rest := by
  constructor
  · intro h
    cases s with
    | nil => exact nomatch h
    | cons q r =>
      rw [readString] at h
      split at h
      next hstart =>
        obtain ⟨⟨rest, t'⟩, hrest, h⟩ := Option.map_eq_some_iff.mp h
        obtain ⟨rfl, rfl⟩ := Prod.mk.inj h
        exact ⟨q, r, rest, hstart, rfl, hrest, rfl⟩
      next => exact nomatch h
  · rintro ⟨quote, r, rest, hstart, rfl, hrest, rfl⟩
    rw [readString, if_pos hstart, hrest]
    rfl

theorem tidy_readQuoted {quote : Char} {fuel : Nat} {s t : List Char} {parts : List Tree}
    (h : readQuoted quote fuel s = some (parts, t)) : ∀ p ∈ parts, p.Tidy dialect := by
  induction fuel generalizing s parts with
  | zero => exact nomatch h
  | succ fuel ih =>
    rcases readQuoted_succ_iff.mp h with ⟨-, rfl⟩ | ⟨part, rest, r, hpart, hrest, rfl⟩
    · exact tidy_leaf (by decide) _
    · cases hpart with
      | escape => exact tidy_leaf_cons (by decide) (ih hrest)
      | fragment => exact tidy_leaf_cons (by decide) (ih hrest)

theorem tidy_readString {size : Nat} {s t : List Char} {parts : List Tree}
    (h : readString size s = some (parts, t)) : ∀ p ∈ parts, p.Tidy dialect := by
  obtain ⟨quote, r, rest, -, -, hrest, rfl⟩ := readString_eq_some_iff.mp h
  exact tidy_leaf_cons (by decide) (tidy_readQuoted hrest)

theorem tidy_readMarkupQuoted {quote : Char} {fuel : Nat} {s t : List Char} {parts : List Tree}
    (h : readMarkupQuoted quote fuel s = some (parts, t)) : ∀ p ∈ parts, p.Tidy dialect := by
  induction fuel generalizing s t parts with
  | zero => exact nomatch h
  | succ fuel ih =>
    cases s with
    | nil => exact nomatch h
    | cons c r =>
      rw [readMarkupQuoted] at h
      split at h
      next =>
        obtain ⟨rfl, -⟩ := Prod.mk.inj (Option.some.inj h)
        exact tidy_leaf (by decide) _
      next =>
        split at h
        next =>
          obtain ⟨⟨ps, t⟩, hps, h⟩ := Option.map_eq_some_iff.mp h
          obtain ⟨rfl, -⟩ := Prod.mk.inj h
          exact tidy_leaf_cons (by decide) (ih hps)
        next =>
          obtain ⟨⟨ps, t⟩, hps, h⟩ := Option.map_eq_some_iff.mp h
          obtain ⟨rfl, -⟩ := Prod.mk.inj h
          exact tidy_leaf_cons (by decide) (ih hps)

theorem tidy_readMarkupString {size : Nat} {s t : List Char} {parts : List Tree}
    (h : readMarkupString size s = some (parts, t)) : ∀ p ∈ parts, p.Tidy dialect := by
  cases s with
  | nil => exact nomatch h
  | cons q r =>
    rw [readMarkupString] at h
    split at h
    next =>
      obtain ⟨⟨ps, t⟩, hps, h⟩ := Option.map_eq_some_iff.mp h
      obtain ⟨rfl, -⟩ := Prod.mk.inj h
      exact tidy_leaf_cons (by decide) (tidy_readMarkupQuoted hps)
    next => exact nomatch h

namespace Terminal

variable {r : Reader} {read : List Tree × Reader}

/-- Words are not taken for strings, and strings of markup are read in the other dialect only. -/
def plain (dialect : Dialect) : Terminal → Bool
  | word _ kind | identifier kind | anyWord kind => kind != .string
  | markupString => dialect == .tsx
  | _ => true

theorem tidy_step {kind : Kind} (hkind : kind ≠ .string)
    {found : Option (List Char × List Char)} (hr : r.Tidy dialect)
    (h : step r kind found = some read) : TidyRead dialect read := by
  obtain ⟨⟨w, t⟩, -, rfl⟩ := Option.map_eq_some_iff.mp h
  exact ⟨List.forall_mem_append.mpr ⟨hr, tidy_leaf hkind _⟩, Reader.tidy_before _ _⟩

theorem tidy_stepNode {found : Option (List Tree × List Char)} (hr : r.Tidy dialect)
    (hstring : dialect = .typeScript → ∀ ps t, found = some (ps, t) → Tree.IsQuoted ps)
    (hfound : ∀ ps t, found = some (ps, t) → ∀ p ∈ ps, p.Tidy dialect)
    (h : stepNode r .string found = some read) : TidyRead dialect read := by
  obtain ⟨⟨ps, t⟩, hps, rfl⟩ := Option.map_eq_some_iff.mp h
  have hnode (s : String) : (Tree.node .string none s ps).Tidy dialect :=
    .node nofun (fun hdialect _ => hstring hdialect ps t hps) (hfound ps t hps)
  exact ⟨List.forall_mem_append.mpr ⟨hr, List.forall_mem_singleton.mpr (hnode _)⟩,
    Reader.tidy_before _ _⟩

theorem tidy_stepRest {kind : Kind} (hkind : kind ≠ .string)
    {found : Option (List Char × List Char)} (h : stepRest r kind found = some read) :
    TidyRead dialect read := by
  obtain ⟨⟨w, t⟩, -, rfl⟩ := Option.map_eq_some_iff.mp h
  exact ⟨tidy_leaf hkind _, Reader.tidy_before _ _⟩

theorem tidy_here {holds : Bool} (hr : r.Tidy dialect) (h : here r holds = some read) :
    TidyRead dialect read := by
  unfold here at h
  split at h
  next =>
    obtain rfl := Option.some.inj h
    exact .nothing hr
  next => exact nomatch h

theorem tidy_leaveOut {afterExpression inSignature : Bool} {fuel : Nat}
    (hr : r.Tidy dialect) (h : leaveOut afterExpression inSignature fuel r = some read) :
    TidyRead dialect read := by
  induction fuel generalizing r read with
  | zero => exact nomatch h
  | succ fuel ih =>
    rw [leaveOut] at h
    split at h
    next =>
      obtain rfl := Option.some.inj h
      exact .nothing hr
    next =>
      split at h
      next => exact nomatch h
      next c cs hcomments =>
        obtain ⟨⟨ts, stop⟩, hts, h⟩ := Option.bind_eq_some_iff.mp h
        obtain rfl := Option.some.inj h
        obtain ⟨hitems, hstop⟩ := ih (Reader.tidy_before _ _) hts
        have hc : c.Tidy dialect := hr c (hcomments ▸ List.mem_cons_self)
        exact ⟨List.forall_mem_cons.mpr ⟨hc, hitems⟩, hstop⟩

theorem tidy_read (t : Terminal) (ht : t.plain dialect = true) (hr : r.Tidy dialect)
    (h : t.read r = some read) : TidyRead dialect read := by
  cases t with
  | symbol | operator | number | regex | markupName | markupReference | unclosed =>
    exact tidy_step (by decide) hr h
  | word | identifier | anyWord => exact tidy_step (bne_iff_ne.mp ht) hr h
  | templateEscape | adjacent | markupText => exact tidy_stepRest (by decide) h
  | string =>
    exact tidy_stepNode hr (fun _ ps t hps => ⟨_, _, t, hps⟩) (fun _ _ => tidy_readString) h
  | markupString =>
    have hmarkup : dialect = .typeScript → ∀ ps t,
        readMarkupString r.nextLeft r.next = some (ps, t) → Tree.IsQuoted ps := by
      rintro rfl
      cases ht
    exact tidy_stepNode hr hmarkup (fun _ _ => tidy_readMarkupString) h
  | autoSemicolon => exact tidy_leaveOut hr h
  | sameLine | endOfText => exact tidy_here hr h
  | privateName | anyChar =>
    unfold Terminal.read at h
    dsimp only at h
    split at h
    next => exact tidy_step (by decide) hr h
    next => exact nomatch h
  | templateChars =>
    unfold Terminal.read at h
    dsimp only at h
    split at h
    next => exact nomatch h
    next => exact tidy_stepRest (by decide) h
  | scriptLine =>
    unfold Terminal.read at h
    dsimp only at h
    split at h
    next => exact tidy_stepRest (by decide) h
    next => exact nomatch h

end Terminal

/-! ## 3. Patterns -/

section Plain

variable {ρ : Type} (dialect : Dialect) (allowed : ρ → Bool)

mutual

/-- No node that the pattern makes is a comment or a string, and it uses allowed rules only. -/
def Pattern.plain : Pattern ρ → Bool
  | .empty => true
  | .terminal t => t.plain dialect
  | .rule s => allowed s
  | .seq p q | .alt p q => p.plain && q.plain
  | .many p | .ahead p | .notAhead p | .part _ p => p.plain
  | .node k p => k != .comment && k != .string && p.plain
  | .grow p links => p.plain && Pattern.plainLinks links

def Pattern.plainLinks : List (Option Label × Kind × Pattern ρ) → Bool
  | [] => true
  | (_, k, p) :: links => k != .comment && k != .string && p.plain && Pattern.plainLinks links

end

end Plain

namespace Pattern

variable {ρ : Type} {allowed : ρ → Bool}

theorem plain_of_mem_links {links : List (Option Label × Kind × Pattern ρ)}
    (h : plainLinks dialect allowed links = true) :
    ∀ link ∈ links, (link.2.1 ≠ .comment ∧ link.2.1 ≠ .string) ∧
      link.2.2.plain dialect allowed = true := by
  induction links with
  | nil => exact nofun
  | cons link links ih =>
    obtain ⟨l, k, p⟩ := link
    rw [plainLinks, Bool.and_eq_true, Bool.and_eq_true, Bool.and_eq_true, bne_iff_ne,
      bne_iff_ne] at h
    intro other hother
    rcases List.mem_cons.mp hother with rfl | hother
    · exact h.1
    · exact ih h.2 other hother

theorem tidy_wrap {kind : Kind} {start stop : Reader} {items : List Tree}
    (hkind : kind ≠ .comment ∧ kind ≠ .string) (h : ∀ t ∈ items, t.Tidy dialect) :
    ∀ t ∈ wrap kind start stop items, t.Tidy dialect := by
  unfold wrap
  rw [List.span_eq_takeWhile_dropWhile]
  refine List.forall_mem_append.mpr ⟨?_, List.forall_mem_singleton.mpr ?_⟩
  · exact fun t ht => h t ((List.takeWhile_sublist _).subset ht)
  · exact .of_other hkind.1 hkind.2 fun c hc => h c ((List.dropWhile_sublist _).subset hc)

theorem tidy_mark {label : Label} {items : List Tree} (h : ∀ t ∈ items, t.Tidy dialect) :
    ∀ t ∈ mark label items, t.Tidy dialect := by
  intro t ht
  obtain ⟨⟨k, l, s, cs⟩, hu, rfl⟩ := List.mem_map.mp ht
  have hnode := h _ hu
  by_cases hcomment : (Tree.node k l s cs).isComment = true
  · -- comments are passed over
    rw [if_pos hcomment]
    exact hnode
  · rw [if_neg hcomment]
    obtain ⟨-, string, children⟩ := hnode
    exact .node (fun hk => absurd (beq_iff_eq.mpr hk) hcomment) string children

theorem tidy_repeated {step : Reader → Result}
    (hstep : ∀ r, r.Tidy dialect → ∀ read, step r = .some read → TidyRead dialect read)
    (fuel : Nat) {r : Reader} (hr : r.Tidy dialect) :
    TidyRead dialect (repeated step fuel r) := by
  induction fuel generalizing r with
  | zero => exact .nothing hr
  | succ fuel ih =>
    rw [repeated]
    split
    next => exact .nothing hr
    next xs stop hread =>
      obtain ⟨hitems, hstop⟩ := hstep r hr _ hread
      split
      next =>
        obtain ⟨hrest, hlast⟩ := ih hstop
        exact ⟨List.forall_mem_append.mpr ⟨hitems, hrest⟩, hlast⟩
      next => exact .nothing hr

theorem tidy_grown {parse : Pattern ρ → Reader → Result}
    {links : List (Option Label × Kind × Pattern ρ)} {start : Reader}
    (hparse : ∀ p, p.plain dialect allowed = true → ∀ r, r.Tidy dialect →
      ∀ read, parse p r = .some read → TidyRead dialect read)
    (hlinks : plainLinks dialect allowed links = true) (fuel : Nat) {items : List Tree}
    {r : Reader} (hitems : ∀ t ∈ items, t.Tidy dialect) (hr : r.Tidy dialect) :
    TidyRead dialect (grown parse links start fuel items r) := by
  induction fuel generalizing items r with
  | zero => exact ⟨hitems, hr⟩
  | succ fuel ih =>
    rw [grown]
    dsimp only
    split
    next => exact ⟨hitems, hr⟩
    next items' stop hlink =>
      have hread : (∀ t ∈ items', t.Tidy dialect) ∧ stop.Tidy dialect := by
        obtain ⟨⟨label, kind, p⟩, hmem, hlink⟩ := List.exists_of_findSome?_eq_some hlink
        obtain ⟨hkind, hp⟩ := plain_of_mem_links hlinks _ hmem
        obtain ⟨⟨xs, last⟩, hxs, hwrap⟩ := Option.map_eq_some_iff.mp hlink
        obtain ⟨rfl, rfl⟩ := Prod.mk.inj hwrap
        obtain ⟨hbehind, hlast⟩ := hparse p hp r hr _ hxs
        refine ⟨tidy_wrap hkind (List.forall_mem_append.mpr ⟨?_, hbehind⟩), hlast⟩
        cases label with
        | none => exact hitems
        | some l => exact tidy_mark hitems
      split
      next => exact ih hread.1 hread.2
      next => exact ⟨hitems, hr⟩

theorem tidy_parse {rules : ρ → Pattern ρ}
    (hrules : ∀ s, allowed s = true → (rules s).plain dialect allowed = true) (fuel : Nat)
    (p : Pattern ρ) (hp : p.plain dialect allowed = true) (r : Reader) (hr : r.Tidy dialect)
    (read : List Tree × Reader) (h : parse rules fuel p r = .some read) :
    TidyRead dialect read := by
  induction fuel generalizing p r read with
  | zero => exact nomatch h
  | succ fuel ih =>
    cases p with
    | empty =>
      -- nothing is read
      obtain rfl := Option.some.inj h
      exact .nothing hr
    | terminal t => exact Terminal.tidy_read t hp hr h
    | rule s => exact ih (rules s) (hrules s hp) r hr read h
    | seq p q =>
      obtain ⟨hp, hq⟩ := (Bool.and_eq_true _ _).mp hp
      rw [parse] at h
      split at h
      next => exact nomatch h
      next xs stop hxs =>
        obtain ⟨hitems, hstop⟩ := ih p hp r hr _ hxs
        split at h
        next => exact nomatch h
        next ys last hys =>
          obtain ⟨hrest, hlast⟩ := ih q hq stop hstop _ hys
          obtain rfl := Option.some.inj h
          exact ⟨List.forall_mem_append.mpr ⟨hitems, hrest⟩, hlast⟩
    | alt p q =>
      obtain ⟨hp, hq⟩ := (Bool.and_eq_true _ _).mp hp
      rw [parse] at h
      split at h
      next => exact ih q hq r hr read h
      next found hfound =>
        obtain rfl := Option.some.inj h
        exact ih p hp r hr _ hfound
    | many p =>
      obtain rfl := Option.some.inj h
      exact tidy_repeated (fun r hr read => ih p hp r hr read) _ hr
    | ahead p =>
      obtain ⟨-, -, rfl⟩ := Option.map_eq_some_iff.mp h
      exact .nothing hr
    | notAhead p =>
      rw [parse] at h
      split at h
      next =>
        obtain rfl := Option.some.inj h
        exact .nothing hr
      next => exact nomatch h
    | node kind p =>
      obtain ⟨hkind, hp⟩ := (Bool.and_eq_true _ _).mp hp
      obtain ⟨⟨xs, stop⟩, hxs, rfl⟩ := Option.map_eq_some_iff.mp h
      obtain ⟨hitems, hstop⟩ := ih p hp r hr _ hxs
      rw [Bool.and_eq_true, bne_iff_ne, bne_iff_ne] at hkind
      exact ⟨tidy_wrap hkind hitems, hstop⟩
    | part label p =>
      obtain ⟨⟨xs, stop⟩, hxs, rfl⟩ := Option.map_eq_some_iff.mp h
      obtain ⟨hitems, hstop⟩ := ih p hp r hr _ hxs
      exact ⟨tidy_mark hitems, hstop⟩
    | grow first links =>
      obtain ⟨hfirst, hlinks⟩ := (Bool.and_eq_true _ _).mp hp
      rw [parse] at h
      split at h
      next => exact nomatch h
      next xs stop hxs =>
        obtain ⟨hitems, hstop⟩ := ih first hfirst r hr _ hxs
        obtain rfl := Option.some.inj h
        exact tidy_grown (fun p hp r hr read => ih p hp r hr read) hlinks _ hitems hstop

end Pattern

/-! ## 4. Source units -/

namespace Rule

/-- The dialect has the rule: the first one has no markup. -/
def isOf (dialect : Dialect) (r : Rule) : Bool := dialect == .tsx || r != .markup

/-- A form of the dialect. -/
def IsPlain (dialect : Dialect) (p : Form) : Prop := p.plain dialect (isOf dialect) = true

theorem plain_anyOperator (ops : List String) : IsPlain dialect (anyOperator ops) := by
  induction ops with
  | nil => rfl
  | cons op ops ih => exact ih

theorem plain_binaryForm (level : Nat) : IsPlain dialect (binaryForm level) := by
  have hsymbols (ops : List String) (p : Form) (hp : IsPlain dialect p) :
      IsPlain dialect (anyOperator ops ++ p) := by
    show ((anyOperator ops).plain dialect _ && p.plain dialect _) = true
    rw [plain_anyOperator, hp]
    rfl
  have htighter : IsPlain dialect (the (.binary (level + 1))) := by cases dialect <;> rfl
  unfold binaryForm
  split
  next => cases dialect <;> rfl
  next ops _ =>
    dsimp only
    rw [IsPlain, Pattern.plain, htighter]
    split
    next =>
      rw [Pattern.plainLinks, hsymbols _ _ htighter]
      cases dialect <;> rfl
    next =>
      rw [Pattern.plainLinks, hsymbols _ _ htighter]
      rfl

theorem plain_form (r : Rule) (hr : r.isOf dialect = true) : IsPlain dialect (r.form dialect) := by
  cases r with
  | binary level => exact plain_binaryForm level
  | markup => cases dialect with
    | typeScript => cases hr
    | tsx => rfl
  | method inClass => cases inClass <;> cases dialect <;> rfl
  | _ => cases dialect <;> rfl

theorem plain_repaired (r : Rule) (hr : r.isOf dialect = true) :
    IsPlain dialect (r.repaired dialect) := by
  unfold repaired repair?
  split
  -- the rules that are mended, and the others as they are
  all_goals first | exact plain_form r hr | (cases dialect <;> rfl)

end Rule

theorem tidy_parseUnit (dialect : Dialect) (source : String) :
    (parseUnit dialect source).Tidy dialect := by
  unfold parseUnit
  dsimp only
  split
  next items stop hread =>
    have hstart (s : List Char) : (Reader.ofText s).Tidy dialect := Reader.tidy_before s _
    have htidy : TidyRead dialect (items, stop) := by
      rw [Option.orElse_eq_orElse, Option.orElse_eq_or, Option.or_eq_some_iff] at hread
      rcases hread with hread | ⟨-, hread⟩
      · exact Pattern.tidy_parse Rule.plain_form _ _ (by cases dialect <;> rfl) _ (hstart _) _
          hread
      · exact Pattern.tidy_parse Rule.plain_repaired _ _ (by cases dialect <;> rfl) _ (hstart _) _
          hread
    exact .of_other (by decide) (by decide) (List.forall_mem_append.mpr ⟨htidy.items, htidy.stop⟩)
  next => exact .of_other (by decide) (by decide) (tidy_leaf (by decide) _)

/-- The comments of a source text are leaves, and play no part in what they stand in. -/
theorem comments_of_parseUnit (dialect : Dialect) (source : String) :
    ∀ c ∈ (parseUnit dialect source).walk, c.focus.kind = .comment →
      c.focus.label = none ∧ c.focus.declarations = [] := by
  intro c hc hcomment
  obtain ⟨hlabel, hchildren⟩ := ((tidy_parseUnit dialect source).walk c hc).of_comment hcomment
  refine ⟨hlabel, (Tree.hasClass_eq_false_iff _).mp ?_⟩
  obtain ⟨⟨k, l, s, cs⟩, before, after, above⟩ := c
  obtain rfl : k = .comment := hcomment
  obtain rfl : cs = [] := hchildren
  rfl

/-- What a source text defines is, but for the descriptions, what it defines without its comments,
under any two formatters. -/
theorem Catalog.undescribed_ofSource (f g : Formatter) (p : Path) (source : String) :
    (ofSource f p source).map undescribed = (Dialect.ofPath p).map fun dialect =>
      (parseUnit dialect source).withoutComments.extract g := by
  unfold ofSource
  cases Dialect.ofPath p with
  | error e => rfl
  | ok dialect =>
    have hsites := (Tree.forall_walk_iff_forall_sites _).mp (comments_of_parseUnit dialect source)
    exact congrArg Except.ok (Tree.undescribed_extract_of_sites f g _ hsites)

/-- The parts of a string in a source text without markup are what was read between quotes. -/
theorem strings_of_parseUnit (source : String) :
    ∀ c ∈ (parseUnit .typeScript source).walk, c.focus.kind = .string →
      Tree.IsQuoted c.focus.children :=
  fun c hc => ((tidy_parseUnit .typeScript source).walk c hc).of_string

end MarkupCatalog
