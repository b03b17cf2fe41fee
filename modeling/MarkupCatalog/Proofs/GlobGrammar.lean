import MarkupCatalog.Glob.Parser
import MarkupCatalog.Proofs.Attempts
import MarkupCatalog.Proofs.Texts

/-!
# Grammar of globs

How the text of a glob is read, as a relation: what one token adds to the pieces, and what the other
tokens do to open groups.  What stands in front of a glob goes in front of its pieces, whatever it
is, unless the glob begins with two stars, which ask for what stands in front.
-/

namespace MarkupCatalog.Glob

/-! ## 1. The relation -/

/-- The characters that stand for more than themselves. -/
def special : List Char := ['?', '*', '[', '\x7b', '\x7d', ',', '\\']

/-- A token that means the same wherever it stands, in front of a rest: its last character and its
pieces, last one first. -/
inductive Token : List Char → Char → List Piece → List Char → Prop
  | anyByte (r : List Char) : Token ('?' :: r) '?' [.anyByte] r
  | star {r : List Char} (single : ∀ r', r = '*' :: r' → False) : Token ('*' :: r) '*' [.star] r
  | oneOf {r r' : List Char} {p : Piece} (read : classOf r = .ok (p, r')) :
      Token ('[' :: r) ']' [p] r'
  | escaped (c : Char) (r : List Char) : Token ('\\' :: c :: r) c (literal c).reverse r
  | char {c : Char} (plain : c ∉ special) (r : List Char) : Token (c :: r) c (literal c).reverse r

/-- A text is read as the last part of a glob: after the character `last`, within open groups, and
behind pieces of the innermost branch, last one first. -/
inductive Parses : Option Char → List Group → List Piece → List Char → List Piece → Prop
  | done (last : Option Char) (ps : List Piece) : Parses last [] ps [] ps.reverse
  | token {last c groups ps qs s r out} (token : Token s c qs r)
      (rest : Parses (some c) groups (qs ++ ps) r out) : Parses last groups ps s out
  | stars {last groups ps r out}
      (rest : Parses (some (afterStars last (!groups.isEmpty) ps r).2.1) groups
        (afterStars last (!groups.isEmpty) ps r).1 (afterStars last (!groups.isEmpty) ps r).2.2
        out) :
      Parses last groups ps ('*' :: '*' :: r) out
  | opening {last groups ps r out} (rest : Parses (some '\x7b') (⟨ps, []⟩ :: groups) [] r out) :
      Parses last groups ps ('\x7b' :: r) out
  | closing {last g groups ps r out}
      (rest : Parses (some '\x7d') groups
        (Piece.ofBranches (ps.reverse :: g.branches).reverse :: g.before) r out) :
      Parses last (g :: groups) ps ('\x7d' :: r) out
  | comma {last g groups ps r out}
      (rest : Parses (some ',') ({ g with branches := ps.reverse :: g.branches } :: groups) [] r
        out) :
      Parses last (g :: groups) ps (',' :: r) out
  | freeComma {last ps r out} (rest : Parses (some ',') [] (pushLiteral ',' ps) r out) :
      Parses last [] ps (',' :: r) out

theorem literal_ne_nil (c : Char) : (literal c).reverse ≠ [] := by
  unfold literal String.utf8EncodeChar
  dsimp only
  split
  next => exact List.cons_ne_nil _ _
  next =>
    rw [Ne, List.reverse_eq_nil_iff, List.map_eq_nil_iff]
    split <;> first | exact List.cons_ne_nil _ _ | (split <;> exact List.cons_ne_nil _ _)

theorem Token.pieces_ne_nil {s r : List Char} {c : Char} {qs : List Piece} (h : Token s c qs r) :
    qs ≠ [] := by
  cases h with
  | escaped => exact literal_ne_nil c
  | char => exact literal_ne_nil c
  | _ => exact List.cons_ne_nil _ _

theorem Token.parseFrom_eq {s r : List Char} {c : Char} {qs : List Piece} (h : Token s c qs r)
    (last : Option Char) (groups : List Group) (ps : List Piece) :
    parseFrom last groups ps s = parseFrom (some c) groups (qs ++ ps) r := by
  cases h with
  | anyByte => rw [parseFrom]; rfl
  | star single => rw [parseFrom]; rfl; exact single
  | oneOf read =>
    rw [parseFrom]
    split
    next h => cases read.symm.trans h
    next h => cases read.symm.trans h; rfl
  | escaped => rw [parseFrom]; rfl
  | char plain =>
    simp only [special, List.mem_cons, not_or] at plain
    rw [parseFrom]
    rfl
    all_goals simp_all

/-- The relation is what globs are read by. -/
theorem parseFrom_eq_ok_iff {last : Option Char} {groups : List Group} {ps out : List Piece}
    {s : List Char} : parseFrom last groups ps s = .ok out ↔ Parses last groups ps s out := by
  constructor
  · -- each branch of the parser that goes on is one rule, and the others are faults
    fun_induction parseFrom last groups ps s with
    | case1 last groups ps hgroups =>
      intro h
      obtain rfl := List.isEmpty_iff.mp hgroups
      obtain rfl := Except.ok.inj h
      exact .done last ps
    | case2 | case6 | case9 | case13 => nofun
    | case3 last groups ps r ih => exact fun h => .token (.anyByte r) (ih h)
    | case4 last groups ps r _ after ih => exact fun h => .stars (ih h)
    | case5 last groups ps r single ih => exact fun h => .token (.star single) (ih h)
    | case7 last groups ps r p r' read _ ih => exact fun h => .token (.oneOf read) (ih h)
    | case8 last groups ps r ih => exact fun h => .opening (ih h)
    | case10 last ps r g groups group ih =>
      simp only [group, List.unattach_reverse, List.unattach_attach] at ih
      exact fun h => .closing (ih h)
    | case11 last ps r ih => exact fun h => .freeComma (ih h)
    | case12 last ps r g groups ih =>
      simp only [List.unattach_reverse, List.unattach_attach] at ih
      exact fun h => .comma (ih h)
    | case14 last groups ps c r ih => exact fun h => .token (.escaped c r) (ih h)
    | case15 last groups ps c r question _ star bracket opening closing comma escape ih =>
      have plain : c ∉ special := by
        simp only [special, List.mem_cons, List.not_mem_nil, or_false, not_or]
        exact ⟨question, star, bracket, opening, closing, comma, escape⟩
      exact fun h => .token (.char plain r) (ih h)
  · intro h
    induction h with
    | done last ps => rw [parseFrom]; rfl
    | token token rest ih => rw [token.parseFrom_eq]; exact ih
    | stars rest ih => rw [parseFrom]; exact ih
    | opening rest ih => rw [parseFrom]; exact ih
    | closing rest ih => rw [parseFrom]; exact ih
    | comma rest ih => rw [parseFrom]; exact ih
    | freeComma rest ih => rw [parseFrom]; exact ih

theorem parse_eq_ok_iff {s : List Char} {out : List Piece} :
    parse s = .ok out ↔ Parses none [] [] s out := parseFrom_eq_ok_iff

/-! ## 2. Two stars -/

theorem afterStars_ne_nil (last : Option Char) (grouped : Bool) (ps : List Piece) (r : List Char) :
    (afterStars last grouped ps r).1 ≠ [] := by
  fun_cases afterStars last grouped ps r <;> simp +zetaDelta

/-- What stands in front of the last piece stays. -/
theorem afterStars_append {ps : List Piece} (h : ps ≠ []) (front : List Piece)
    (last : Option Char) (grouped : Bool) (r : List Char) :
    afterStars last grouped (ps ++ front) r =
      ((afterStars last grouped ps r).1 ++ front, (afterStars last grouped ps r).2) := by
  obtain ⟨p, before, rfl⟩ := List.exists_cons_of_ne_nil h
  rw [List.cons_append]
  unfold afterStars
  dsimp only
  split
  next =>
    cases r with
    | nil => rfl
    | cons c r =>
      dsimp only
      split
      next => rfl
      next => split <;> rfl
  next => rfl

/-- Behind a character that is no slash, two stars are no more than two stars. -/
theorem afterStars_of_ne {last : Option Char} (hlast : last ≠ some '/') {ps : List Piece}
    (hps : ps ≠ []) (r : List Char) :
    afterStars last false ps r = (.star :: .star :: ps, '*', r) := by
  obtain ⟨p, before, rfl⟩ := List.exists_cons_of_ne_nil hps
  unfold afterStars
  simp [hlast]

/-- Nor are they more in front of a character that is no slash. -/
theorem afterStars_of_notMem {r : List Char} (hslash : '/' ∉ r) (hr : r ≠ []) (last : Option Char)
    (ps : List Piece) : afterStars last false ps r = (.star :: .star :: ps, '*', r) := by
  obtain ⟨c, r, rfl⟩ := List.exists_cons_of_ne_nil hr
  have hc : c ≠ '/' := Ne.symm (List.ne_of_not_mem_cons hslash)
  cases ps with
  | nil => exact if_neg hc
  | cons p before =>
    unfold afterStars
    simp [hc]

theorem parse_stars : parse ['*', '*'] = .ok [.leading] := by
  show parseFrom none [] [] ['*', '*'] = _
  rw [parseFrom]
  show parseFrom (some '*') [] [.leading] [] = _
  rw [parseFrom]
  rfl

/-- Two stars and a slash in front of a glob stand for directories. -/
theorem parse_everywhere (s : List Char) :
    parse ("**/".toList ++ s) = parseFrom (some '/') [] [.leading] s := by
  show parseFrom none [] [] ('*' :: '*' :: '/' :: s) = _
  rw [parseFrom]
  rfl

/-! ## 3. Pieces in front -/

/-- The pieces of the innermost branch, where those of the outermost one stand behind others. -/
def piecesOn (front : List Piece) (groups : List Group) (ps : List Piece) : List Piece :=
  if groups.isEmpty then ps ++ front else ps

def groupsOn (front : List Piece) : List Group → List Group
  | [] => []
  | g :: groups => { g with before := piecesOn front groups g.before } :: groupsOn front groups

theorem piecesOn_append (front : List Piece) (groups : List Group) (qs ps : List Piece) :
    piecesOn front groups (qs ++ ps) = qs ++ piecesOn front groups ps := by
  unfold piecesOn
  split
  next => exact List.append_assoc qs ps front
  next => rfl

theorem isEmpty_groupsOn (front : List Piece) (groups : List Group) :
    (groupsOn front groups).isEmpty = groups.isEmpty := by
  cases groups <;> rfl

/-- What stands in front of a glob goes in front of its pieces. -/
theorem Parses.on {last last' : Option Char} {groups : List Group} {ps out : List Piece}
    {s : List Char} (h : Parses last groups ps s out) (front : List Piece)
    (hstars : ∀ r, s = '*' :: '*' :: r → last' = last ∧ (groups = [] → ps ≠ [])) :
    Parses last' (groupsOn front groups) (piecesOn front groups ps) s (front.reverse ++ out) := by
  -- behind the first token the last character is the same on both sides, and a piece is there
  have behind {c : Char} {groups : List Group} {ps : List Piece} {r : List Char} (hps : ps ≠ []) :
      ∀ r', r = '*' :: '*' :: r' → some c = some c ∧ (groups = [] → ps ≠ []) :=
    fun _ _ => ⟨rfl, fun _ => hps⟩
  induction h generalizing last' with
  | done last ps =>
    rw [← List.reverse_append]
    exact .done last' (ps ++ front)
  | token token rest ih =>
    have hps := List.append_ne_nil_of_left_ne_nil token.pieces_ne_nil
    exact .token token (piecesOn_append front _ _ _ ▸ ih (behind (hps _)))
  | @stars last groups ps r out rest ih =>
    obtain ⟨rfl, hps⟩ := hstars r rfl
    have hmore := ih (behind (afterStars_ne_nil _ _ _ _))
    apply Parses.stars
    rw [isEmpty_groupsOn]
    unfold piecesOn at hmore ⊢
    by_cases hgroups : groups = []
    · rw [if_pos (List.isEmpty_iff.mpr hgroups), afterStars_append (hps hgroups)]
      rwa [if_pos (List.isEmpty_iff.mpr hgroups)] at hmore
    · rw [if_neg (mt List.isEmpty_iff.mp hgroups)]
      rwa [if_neg (mt List.isEmpty_iff.mp hgroups)] at hmore
  | opening rest ih => exact .opening (ih fun _ _ => ⟨rfl, nofun⟩)
  | @closing last g groups ps r out rest ih =>
    have hmore := ih (behind (List.cons_ne_nil _ _))
    rw [← List.singleton_append, piecesOn_append] at hmore
    exact .closing hmore
  | comma rest ih => exact .comma (ih fun _ _ => ⟨rfl, nofun⟩)
  | @freeComma last ps r out rest ih =>
    have hps := List.append_ne_nil_of_left_ne_nil (literal_ne_nil ',') ps
    refine .freeComma ?_
    have hmore := ih (behind hps)
    rwa [pushLiteral, piecesOn_append] at hmore

/-! ## 4. The first pieces -/

/-- The pieces of the outermost branch, last one first. -/
def outer : List Group → List Piece → List Piece
  | [], ps => ps
  | g :: groups, _ => outer groups g.before

theorem outer_append (groups : List Group) (qs ps : List Piece) :
    ∃ more, outer groups (qs ++ ps) = more ++ outer groups ps := by
  cases groups with
  | nil => exact ⟨qs, rfl⟩
  | cons g groups => exact ⟨[], rfl⟩

/-- The piece reads a slash before anything else. -/
inductive Piece.StartsInSlash : Piece → Prop
  | byte : StartsInSlash (.byte slash)
  | between : StartsInSlash .between
  | trailing : StartsInSlash .trailing

theorem Piece.StartsInSlash.merge {stars p : Piece} (hstars : stars.StartsInSlash)
    (h : p.StartsInSlash) : (merge stars p).StartsInSlash := by
  cases h with
  | byte => exact hstars
  | between => exact hstars
  | trailing => exact .trailing

/-- Two stars behind a slash change the piece for it to one that starts in a slash as well. -/
theorem afterStars_of_startsInSlash {p : Piece} (h : p.StartsInSlash) (last : Option Char)
    (front : List Piece) (r : List Char) :
    ∃ more q, (afterStars last false (p :: front) r).1 = more ++ q :: front ∧ q.StartsInSlash := by
  unfold afterStars
  dsimp only
  split
  next =>
    cases r with
    | nil => exact ⟨[], _, rfl, .merge .trailing h⟩
    | cons c r =>
      dsimp only
      split
      next => exact ⟨[], _, rfl, .merge .between h⟩
      next => exact ⟨[.star, .star], p, rfl, h⟩
  next => exact ⟨[.star, .star], p, rfl, h⟩

/-- The pieces in front of a slash stay what they are, and what they are followed by starts in a
slash. -/
theorem Parses.exists_startsInSlash {last : Option Char} {groups : List Group}
    {ps out : List Piece} {s : List Char} (h : Parses last groups ps s out) {front : List Piece}
    (more : List Piece) {p : Piece} (houter : outer groups ps = more ++ p :: front)
    (hp : p.StartsInSlash) : ∃ q rest, out = front.reverse ++ q :: rest ∧ q.StartsInSlash := by
  -- along the outermost branch: a step puts pieces in front, and only stars may change the last one
  have grows {groups : List Group} {ps : List Piece} (more : List Piece) {p : Piece}
      (houter : outer groups ps = more ++ p :: front) (qs : List Piece) :
      ∃ more, outer groups (qs ++ ps) = more ++ p :: front := by
    obtain ⟨new, hnew⟩ := outer_append groups qs ps
    exact ⟨new ++ more, by rw [hnew, houter, List.append_assoc]⟩
  induction h generalizing more p with
  | done last ps =>
    rw [outer] at houter
    refine ⟨p, more.reverse, ?_, hp⟩
    rw [houter, List.reverse_append, List.reverse_cons, List.append_assoc, List.singleton_append]
  | token token rest ih =>
    obtain ⟨more, hmore⟩ := grows more houter _
    exact ih more hmore hp
  | @stars last groups ps r out rest ih =>
    cases groups with
    | nil =>
      rw [outer] at houter
      subst houter
      -- with nothing but the piece before them, the stars take it in
      by_cases hmore : more = []
      · subst hmore
        obtain ⟨more, q, hq, hslash⟩ := afterStars_of_startsInSlash hp last front r
        exact ih more hq hslash
      · refine ih ((afterStars last false more r).1) ?_ hp
        exact congrArg Prod.fst (afterStars_append hmore (p :: front) last false r)
    | cons g groups => exact ih more houter hp
  | opening rest ih => exact ih more houter hp
  | @closing last g groups ps r out rest ih =>
    have hbefore : outer groups g.before = more ++ p :: front := houter
    obtain ⟨more, hmore⟩ := grows more hbefore [_]
    exact ih more hmore hp
  | comma rest ih => exact ih more houter hp
  | freeComma rest ih =>
    obtain ⟨more, hmore⟩ := grows more houter (literal ',').reverse
    exact ih more hmore hp

/-! ## 5. Pieces that stand for directories -/

theorem exists_oneOf_of_classOf {s r : List Char} {p : Piece} (h : classOf s = .ok (p, r)) :
    ∃ negated ranges, p = .oneOf negated ranges := by
  unfold classOf at h
  obtain ⟨ranges, -, h⟩ := bind_eq_ok h
  split at h
  next => cases h
  next => exact ⟨_, _, (Prod.mk.inj (Except.ok.inj h)).1.symm⟩

theorem literal_eq_byte {c : Char} {p : Piece} (h : p ∈ (literal c).reverse) :
    ∃ b ∈ String.utf8EncodeChar c, p = .byte b := by
  obtain ⟨b, hb, rfl⟩ := List.mem_map.mp (List.mem_reverse.mp h)
  exact ⟨b, hb, rfl⟩

theorem Token.ne_leading {s r : List Char} {c : Char} {qs : List Piece} (h : Token s c qs r) :
    ∀ p ∈ qs, p ≠ .leading := by
  intro p hp
  cases h with
  | anyByte => cases List.mem_singleton.mp hp; nofun
  | star => cases List.mem_singleton.mp hp; nofun
  | oneOf read =>
    cases List.mem_singleton.mp hp
    obtain ⟨negated, ranges, rfl⟩ := exists_oneOf_of_classOf read
    nofun
  | escaped => obtain ⟨b, -, rfl⟩ := literal_eq_byte hp; nofun
  | char => obtain ⟨b, -, rfl⟩ := literal_eq_byte hp; nofun

theorem ofBranches_ne_leading (branches : List (List Piece)) :
    Piece.ofBranches branches ≠ .leading := by
  unfold Piece.ofBranches
  split <;> nofun

theorem getLast?_append_ne_leading {qs ps : List Piece} (hqs : ∀ p ∈ qs, p ≠ .leading)
    (hps : ps.getLast? ≠ some .leading) : (qs ++ ps).getLast? ≠ some .leading := by
  by_cases hnil : ps = []
  · rw [hnil, List.append_nil]
    exact fun h => hqs _ (List.mem_of_getLast? h) rfl
  · rwa [List.getLast?_append_of_ne_nil _ hnil]

theorem merge_ne_leading {stars p : Piece} (hstars : stars ≠ .leading) (h : p ≠ .leading) :
    merge stars p ≠ .leading := by
  unfold merge
  split
  next => exact absurd rfl h
  next => nofun
  next => exact hstars

theorem getLast?_afterStars_ne_leading {last : Option Char} {grouped : Bool} {ps : List Piece}
    {r : List Char} (hne : ps ≠ []) (h : ps.getLast? ≠ some .leading) :
    (afterStars last grouped ps r).1.getLast? ≠ some .leading := by
  obtain ⟨p, before, rfl⟩ := List.exists_cons_of_ne_nil hne
  have hmerge {stars : Piece} (hstars : stars ≠ .leading) :
      (merge stars p :: before).getLast? ≠ some .leading := by
    cases before with
    | nil =>
      have hp : p ≠ .leading := fun hp => h (congrArg some hp)
      exact fun hlast => merge_ne_leading hstars hp (Option.some.inj hlast)
    | cons q before => exact h
  have hplain : (Piece.star :: .star :: p :: before).getLast? ≠ some .leading := h
  unfold afterStars
  dsimp only
  split
  next =>
    cases r with
    | nil => exact hmerge nofun
    | cons c r =>
      dsimp only
      split
      next => exact hmerge nofun
      next =>
        split
        next => exact hmerge nofun
        next => exact hplain
  next => exact hplain

/-- Only two stars at the beginning stand for the directories from the top on. -/
theorem Parses.head?_ne_leading {last : Option Char} {groups : List Group} {ps out : List Piece}
    {s : List Char} (h : Parses last groups ps s out)
    (houter : (outer groups ps).getLast? ≠ some .leading)
    (hstars : ∀ r, s = '*' :: '*' :: r → groups = [] → ps ≠ []) : out.head? ≠ some .leading := by
  induction h with
  | done last ps => rwa [List.head?_reverse]
  | @token last c groups ps qs s r out token rest ih =>
    refine ih ?_ fun _ _ _ => List.append_ne_nil_of_left_ne_nil token.pieces_ne_nil ps
    cases groups with
    | nil => exact getLast?_append_ne_leading token.ne_leading houter
    | cons g groups => exact houter
  | @stars last groups ps r out rest ih =>
    refine ih ?_ fun _ _ _ => afterStars_ne_nil _ _ _ _
    cases groups with
    | nil => exact getLast?_afterStars_ne_leading (hstars r rfl rfl) houter
    | cons g groups => exact houter
  | opening rest ih => exact ih houter nofun
  | @closing last g groups ps r out rest ih =>
    refine ih ?_ fun _ _ _ => List.cons_ne_nil _ _
    cases groups with
    | nil =>
      apply getLast?_append_ne_leading (List.forall_mem_singleton.mpr (ofBranches_ne_leading _))
      exact houter
    | cons g' groups => exact houter
  | comma rest ih => exact ih houter nofun
  | @freeComma last ps r out rest ih =>
    refine ih ?_ fun _ _ _ => List.append_ne_nil_of_left_ne_nil (literal_ne_nil ',') ps
    refine getLast?_append_ne_leading (fun p hp => ?_) houter
    obtain ⟨b, -, rfl⟩ := literal_eq_byte hp
    nofun

end MarkupCatalog.Glob
