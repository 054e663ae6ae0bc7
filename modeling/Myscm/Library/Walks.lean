import Myscm.Library.FileTree

/-!
Owns how a walk along a path text goes on piece by piece, and where it ends below a
directory that another file system lacks.

Owns: one equation for each kind of piece; a walk as a derivation with the links it may
still follow; walks along two texts behind one another; walks that meet no link.

Does not own: the calls that walk.
-/

namespace Myscm.Library

/-- A piece that a walk passes over. -/
abbrev Idle (piece : Str) : Prop := piece = [] ∨ piece = ['.']

/-- A piece that leads up. -/
abbrev Up (piece : Str) : Prop := piece = ['.', '.']

/-- The pieces that name an entry. -/
def names (pieces : List Str) : Path :=
  pieces.filter fun piece => ¬ Idle piece

theorem names_cons_idle {piece : Str} (idle : Idle piece) (rest : List Str) :
    names (piece :: rest) = names rest :=
  List.filter_cons_of_neg fun kept => of_decide_eq_true kept idle

theorem names_cons_name {piece : Str} (named : ¬ Idle piece) (rest : List Str) :
    names (piece :: rest) = piece :: names rest :=
  List.filter_cons_of_pos (decide_eq_true named)

theorem names_append (left right : List Str) : names (left ++ right) = names left ++ names right :=
  List.filter_append ..

namespace Fs

variable {fs : Fs} {follow : Bool} {links : Nat} {current : Path}

/-! ## One piece -/

/-- Where a walk goes on behind a link. -/
def linkStart (current : Path) (target : Str) : Path :=
  if target.head? = some '/' then [] else current

/-- The walk behind a link, with one link less to follow. -/
def jump (fs : Fs) (follow : Bool) : Nat → Path → List Str → Option Path
  | 0, _, _ => none
  | links + 1, current, rest => fs.walk follow links current rest

theorem walk_nil : fs.walk follow links current [] = some current := by
  cases links <;> rfl

theorem walk_cons (piece : Str) (rest : List Str) :
    fs.walk follow links current (piece :: rest) =
      if fs.isDirAt current = false then none
      else if Idle piece then fs.walk follow links current rest
      else if Up piece then fs.walk follow links current.dropLast rest
      else
        match fs.targetAt (current ++ [piece]) with
        | some target =>
            if rest = [] ∧ follow = false then some (current ++ [piece])
            else fs.jump follow links (linkStart current target) (target.splitOn '/' ++ rest)
        | none => fs.walk follow links (current ++ [piece]) rest := by
  cases links <;> rfl

theorem isDirAt_of_walk {piece : Str} {rest : List Str} {finish : Path}
    (walked : fs.walk follow links current (piece :: rest) = some finish) :
    fs.isDirAt current = true := by
  rw [walk_cons] at walked
  split at walked
  · cases walked
  · simp_all

section Pieces

variable {piece : Str} {rest : List Str} (isDir : fs.isDirAt current = true)
include isDir

theorem walk_idle (idle : Idle piece) :
    fs.walk follow links current (piece :: rest) = fs.walk follow links current rest := by
  rw [walk_cons, isDir, if_neg (by simp), if_pos idle]

theorem walk_up (up : Up piece) :
    fs.walk follow links current (piece :: rest) = fs.walk follow links current.dropLast rest := by
  have notIdle : ¬ Idle piece := by
    rw [up]
    decide
  rw [walk_cons, isDir, if_neg (by simp), if_neg notIdle, if_pos up]

variable (named : ¬ Idle piece) (notUp : ¬ Up piece)
include named notUp

theorem walk_name (noLink : fs.targetAt (current ++ [piece]) = none) :
    fs.walk follow links current (piece :: rest) =
      fs.walk follow links (current ++ [piece]) rest := by
  rw [walk_cons, isDir, if_neg (by simp), if_neg named, if_neg notUp, noLink]

/-- A link that is the last piece, where links are not followed there. -/
theorem walk_last {target : Str} (link : fs.targetAt (current ++ [piece]) = some target) :
    fs.walk false links current [piece] = some (current ++ [piece]) := by
  rw [walk_cons, isDir, if_neg (by simp), if_neg named, if_neg notUp, link]
  rfl

theorem walk_link {target : Str} (link : fs.targetAt (current ++ [piece]) = some target)
    (followed : rest ≠ [] ∨ follow = true) :
    fs.walk follow links current (piece :: rest) =
      fs.jump follow links (linkStart current target) (target.splitOn '/' ++ rest) := by
  have notLast : ¬ (rest = [] ∧ follow = false) := by
    rintro ⟨last, noFollow⟩
    rcases followed with more | follows
    · exact more last
    · rw [noFollow] at follows
      cases follows
  rw [walk_cons, isDir, if_neg (by simp), if_neg named, if_neg notUp, link]
  dsimp only
  rw [if_neg notLast]

end Pieces

/-! ## Derivations -/

/-- A walk that ends, by its pieces. -/
inductive Walks (fs : Fs) (follow : Bool) : Nat → Path → List Str → Path → Prop
  | nil {links : Nat} {current : Path} : Walks fs follow links current [] current
  | idle {links : Nat} {current finish : Path} {piece : Str} {rest : List Str}
      (isDir : fs.isDirAt current = true) (idle : Idle piece)
      (later : Walks fs follow links current rest finish) :
      Walks fs follow links current (piece :: rest) finish
  | up {links : Nat} {current finish : Path} {piece : Str} {rest : List Str}
      (isDir : fs.isDirAt current = true) (up : Up piece)
      (later : Walks fs follow links current.dropLast rest finish) :
      Walks fs follow links current (piece :: rest) finish
  | name {links : Nat} {current finish : Path} {piece : Str} {rest : List Str}
      (isDir : fs.isDirAt current = true) (named : ¬ Idle piece) (notUp : ¬ Up piece)
      (noLink : fs.targetAt (current ++ [piece]) = none)
      (later : Walks fs follow links (current ++ [piece]) rest finish) :
      Walks fs follow links current (piece :: rest) finish
  | last {links : Nat} {current : Path} {piece target : Str}
      (isDir : fs.isDirAt current = true) (named : ¬ Idle piece) (notUp : ¬ Up piece)
      (link : fs.targetAt (current ++ [piece]) = some target) (stops : follow = false) :
      Walks fs follow links current [piece] (current ++ [piece])
  | link {links : Nat} {current finish : Path} {piece target : Str} {rest : List Str}
      (isDir : fs.isDirAt current = true) (named : ¬ Idle piece) (notUp : ¬ Up piece)
      (link : fs.targetAt (current ++ [piece]) = some target)
      (followed : rest ≠ [] ∨ follow = true)
      (later : Walks fs follow links (linkStart current target) (target.splitOn '/' ++ rest)
        finish) :
      Walks fs follow (links + 1) current (piece :: rest) finish

/-- The derivation of a walk, from one behind every link. -/
theorem walks_of_jump {pieces : List Str} {finish : Path}
    (jumps : ∀ start rest, fs.jump follow links start rest = some finish →
      ∃ fewer, links = fewer + 1 ∧ Walks fs follow fewer start rest finish)
    (walked : fs.walk follow links current pieces = some finish) :
    Walks fs follow links current pieces finish := by
  induction pieces generalizing current with
  | nil =>
      rw [walk_nil] at walked
      obtain rfl := Option.some.inj walked
      exact .nil
  | cons piece rest inductionHypothesis =>
      have isDir := isDirAt_of_walk walked
      by_cases idle : Idle piece
      · rw [walk_idle isDir idle] at walked
        exact .idle isDir idle (inductionHypothesis walked)
      by_cases up : Up piece
      · rw [walk_up isDir up] at walked
        exact .up isDir up (inductionHypothesis walked)
      cases link : fs.targetAt (current ++ [piece]) with
      | none =>
          rw [walk_name isDir idle up link] at walked
          exact .name isDir idle up link (inductionHypothesis walked)
      | some target =>
          by_cases stops : rest = [] ∧ follow = false
          · obtain ⟨rfl, rfl⟩ := stops
            rw [walk_last isDir idle up link] at walked
            obtain rfl := Option.some.inj walked
            exact .last isDir idle up link rfl
          · have followed : rest ≠ [] ∨ follow = true := by
              rcases not_and_or.mp stops with more | follows
              · exact .inl more
              · exact .inr (by simpa using follows)
            rw [walk_link isDir idle up link followed] at walked
            obtain ⟨fewer, rfl, walks⟩ := jumps _ _ walked
            exact .link isDir idle up link followed walks

theorem walks_of_walk {pieces : List Str} {finish : Path}
    (walked : fs.walk follow links current pieces = some finish) :
    Walks fs follow links current pieces finish := by
  induction links generalizing current pieces with
  | zero =>
      exact walks_of_jump (fun _ _ none => by cases none) walked
  | succ links inductionHypothesis =>
      exact walks_of_jump (fun _ _ jumped => ⟨links, rfl, inductionHypothesis jumped⟩) walked

theorem walk_of_walks {pieces : List Str} {finish : Path}
    (walks : Walks fs follow links current pieces finish) :
    fs.walk follow links current pieces = some finish := by
  induction walks with
  | nil => exact walk_nil
  | idle isDir idle _ inductionHypothesis =>
      rw [walk_idle isDir idle]
      exact inductionHypothesis
  | up isDir up _ inductionHypothesis =>
      rw [walk_up isDir up]
      exact inductionHypothesis
  | name isDir named notUp noLink _ inductionHypothesis =>
      rw [walk_name isDir named notUp noLink]
      exact inductionHypothesis
  | last isDir named notUp link stops =>
      rw [stops]
      exact walk_last isDir named notUp link
  | link isDir named notUp link followed _ inductionHypothesis =>
      rw [walk_link isDir named notUp link followed]
      exact inductionHypothesis

/-- A walk that ends is a derivation. -/
theorem walk_eq_some_iff {pieces : List Str} {finish : Path} :
    fs.walk follow links current pieces = some finish ↔
      Walks fs follow links current pieces finish :=
  ⟨walks_of_walk, walk_of_walks⟩

/-! ## Two texts behind one another -/

/-- The walk to the directory a last piece is looked up in. -/
theorem walks_snoc {pieces : List Str} {piece : Str} {finish : Path}
    (walks : Walks fs true links current (pieces ++ [piece]) finish) :
    ∃ dir, fs.walk true links current pieces = some dir ∧ fs.isDirAt dir = true := by
  generalize whole : pieces ++ [piece] = all at walks
  induction walks generalizing pieces with
  | nil => simp at whole
  | @idle links current finish first rest isDir idle _ inductionHypothesis =>
      cases pieces with
      | nil => exact ⟨current, walk_nil, isDir⟩
      | cons _ later =>
          obtain ⟨rfl, rfl⟩ := List.cons.inj whole
          rw [walk_idle isDir idle]
          exact inductionHypothesis rfl
  | @up links current finish first rest isDir up _ inductionHypothesis =>
      cases pieces with
      | nil => exact ⟨current, walk_nil, isDir⟩
      | cons _ later =>
          obtain ⟨rfl, rfl⟩ := List.cons.inj whole
          rw [walk_up isDir up]
          exact inductionHypothesis rfl
  | @name links current finish first rest isDir named notUp noLink _ inductionHypothesis =>
      cases pieces with
      | nil => exact ⟨current, walk_nil, isDir⟩
      | cons _ later =>
          obtain ⟨rfl, rfl⟩ := List.cons.inj whole
          rw [walk_name isDir named notUp noLink]
          exact inductionHypothesis rfl
  | last _ _ _ _ stops => cases stops
  | @link links current finish first target rest isDir named notUp link _ _ inductionHypothesis =>
      cases pieces with
      | nil => exact ⟨current, walk_nil, isDir⟩
      | cons _ later =>
          obtain ⟨rfl, rfl⟩ := List.cons.inj whole
          rw [walk_link isDir named notUp link (.inr rfl)]
          exact inductionHypothesis (List.append_assoc _ _ _)

/-- Walks through `base` go the same way through `fs`: it has its directories and links, and
no link where a walk finds none. -/
structure Extends (base fs : Fs) : Prop where
  isDirAt : ∀ path, base.isDirAt path = true → fs.isDirAt path = true
  link : ∀ path target, base.targetAt path = some target → fs.targetAt path = some target
  free : ∀ dir name, base.isDirAt dir = true → base.targetAt (dir ++ [name]) = none →
    fs.targetAt (dir ++ [name]) = none

/-- Behind a walk, a walk goes on from its end. -/
theorem walk_append {base : Fs} (wider : Extends base fs) {pieces rest : List Str} {middle : Path}
    (further : rest ≠ [] ∨ follow = true) (walks : Walks base true links current pieces middle) :
    ∃ fewer, fs.walk follow links current (pieces ++ rest) = fs.walk follow fewer middle rest := by
  induction walks with
  | @nil links current => exact ⟨links, rfl⟩
  | idle isDir idle _ inductionHypothesis =>
      rw [List.cons_append, walk_idle (wider.isDirAt _ isDir) idle]
      exact inductionHypothesis
  | up isDir up _ inductionHypothesis =>
      rw [List.cons_append, walk_up (wider.isDirAt _ isDir) up]
      exact inductionHypothesis
  | name isDir named notUp free _ inductionHypothesis =>
      rw [List.cons_append,
        walk_name (wider.isDirAt _ isDir) named notUp (wider.free _ _ isDir free)]
      exact inductionHypothesis
  | last _ _ _ _ stops => cases stops
  | @link links current finish piece target later isDir named notUp link _ _ inductionHypothesis =>
      have followed : later ++ rest ≠ [] ∨ follow = true := by
        rcases further with more | follows
        · exact .inl fun empty => more (List.append_eq_nil_iff.mp empty).2
        · exact .inr follows
      rw [List.cons_append, walk_link (wider.isDirAt _ isDir) named notUp (wider.link _ _ link)
        followed, ← List.append_assoc]
      exact inductionHypothesis

/-- A walk through `base` ends in the same place. -/
theorem walk_of_extends {base : Fs} (wider : Extends base fs) {pieces : List Str} {finish : Path}
    (walks : Walks base follow links current pieces finish) :
    fs.walk follow links current pieces = some finish := by
  induction walks with
  | nil => exact walk_nil
  | idle isDir idle _ inductionHypothesis =>
      rw [walk_idle (wider.isDirAt _ isDir) idle]
      exact inductionHypothesis
  | up isDir up _ inductionHypothesis =>
      rw [walk_up (wider.isDirAt _ isDir) up]
      exact inductionHypothesis
  | name isDir named notUp free _ inductionHypothesis =>
      rw [walk_name (wider.isDirAt _ isDir) named notUp (wider.free _ _ isDir free)]
      exact inductionHypothesis
  | last isDir named notUp link stops =>
      rw [stops]
      exact walk_last (wider.isDirAt _ isDir) named notUp (wider.link _ _ link)
  | link isDir named notUp link followed _ inductionHypothesis =>
      rw [walk_link (wider.isDirAt _ isDir) named notUp (wider.link _ _ link) followed]
      exact inductionHypothesis

/-- A walk over pieces that pass no link goes down by their names. -/
theorem walk_names {pieces rest : List Str} {finish : Path} (noUp : ∀ piece ∈ pieces, ¬ Up piece)
    (clear : ∀ front, front ≠ [] → front <+: names pieces → fs.targetAt (current ++ front) = none)
    (walked : fs.walk follow links current (pieces ++ rest) = some finish) :
    fs.walk follow links (current ++ names pieces) rest = some finish := by
  induction pieces generalizing current with
  | nil => simpa [names] using walked
  | cons piece later inductionHypothesis =>
      have isDir := isDirAt_of_walk walked
      have noUpLater : ∀ piece ∈ later, ¬ Up piece :=
        fun other member => noUp other (List.mem_cons_of_mem _ member)
      rw [List.cons_append] at walked
      by_cases idle : Idle piece
      · rw [walk_idle isDir idle] at walked
        rw [names_cons_idle idle] at clear ⊢
        exact inductionHypothesis noUpLater clear walked
      · rw [names_cons_name idle] at clear ⊢
        have noLink := clear [piece] (by simp) ⟨names later, rfl⟩
        rw [walk_name isDir idle (noUp piece List.mem_cons_self) noLink] at walked
        have deeper := inductionHypothesis noUpLater (fun front _ isFront => by
          rw [List.append_assoc]
          exact clear (piece :: front) (by simp) (List.cons_prefix_cons.mpr ⟨rfl, isFront⟩)) walked
        rwa [List.append_assoc] at deeper

/-- A last piece that a walk passes over stands for the directory the walk ends at. -/
theorem isDirAt_of_walks_idle {pieces : List Str} {piece : Str} {finish : Path}
    (idle : Idle piece) (walks : Walks fs follow links current (pieces ++ [piece]) finish) :
    fs.isDirAt finish = true := by
  have solid {other : Str} (named : ¬ Idle other) : [other] ≠ [piece] := by
    intro same
    obtain ⟨rfl, _⟩ := List.cons.inj same
    exact named idle
  generalize whole : pieces ++ [piece] = all at walks
  induction walks generalizing pieces with
  | nil => simp at whole
  | idle isDir _ later inductionHypothesis =>
      cases pieces with
      | nil =>
          obtain ⟨rfl, rfl⟩ := List.cons.inj whole
          cases later
          exact isDir
      | cons _ front =>
          obtain ⟨rfl, rfl⟩ := List.cons.inj whole
          exact inductionHypothesis rfl
  | up _ up _ inductionHypothesis =>
      cases pieces with
      | nil =>
          obtain ⟨rfl, rfl⟩ := List.cons.inj whole
          rw [up] at idle
          exact absurd idle (by decide)
      | cons _ front =>
          obtain ⟨rfl, rfl⟩ := List.cons.inj whole
          exact inductionHypothesis rfl
  | name _ named _ _ _ inductionHypothesis =>
      cases pieces with
      | nil =>
          obtain ⟨rfl, rfl⟩ := List.cons.inj whole
          exact absurd idle named
      | cons _ front =>
          obtain ⟨rfl, rfl⟩ := List.cons.inj whole
          exact inductionHypothesis rfl
  | last _ named _ _ _ =>
      cases pieces with
      | nil => exact absurd whole.symm (solid named)
      | cons _ front => simp at whole
  | link _ named _ _ _ _ inductionHypothesis =>
      cases pieces with
      | nil =>
          obtain ⟨rfl, rfl⟩ := List.cons.inj whole
          exact absurd idle named
      | cons _ front =>
          obtain ⟨rfl, rfl⟩ := List.cons.inj whole
          exact inductionHypothesis (List.append_assoc _ _ _)

theorem filter_ne_nil {pieces : List Str} (solid : pieces.getLast? ≠ some []) (more : pieces ≠ []) :
    pieces.filter (· ≠ []) ≠ [] := by
  intro none
  obtain ⟨last, isLast⟩ := Option.ne_none_iff_exists'.mp (mt List.getLast?_eq_none_iff.mp more)
  have empty := List.filter_eq_nil_iff.mp none last (List.mem_of_getLast? isLast)
  have isEmpty : last = [] := by simpa using empty
  rw [isEmpty] at isLast
  exact solid isLast

/-- Pieces without text along a walk leave it as it is, unless one is the last. -/
theorem walks_filter {pieces rest : List Str} {finish : Path} (solid : rest.getLast? ≠ some [])
    (walks : Walks fs follow links current (pieces ++ rest) finish) :
    fs.walk follow links current (pieces ++ rest.filter (· ≠ [])) = some finish := by
  have solidTail {first : Str} {later : List Str} (last : (first :: later).getLast? ≠ some []) :
      later.getLast? ≠ some [] := by
    cases later with
    | nil => simp
    | cons second more => simpa using last
  generalize whole : pieces ++ rest = all at walks
  induction walks generalizing pieces rest with
  | nil =>
      obtain ⟨rfl, rfl⟩ := List.append_eq_nil_iff.mp whole
      exact walk_nil
  | @idle links current finish first later isDir idle _ inductionHypothesis =>
      cases pieces with
      | nil =>
          obtain rfl : rest = first :: later := whole
          by_cases empty : first = []
          · rw [List.filter_cons_of_neg (by simpa using empty)]
            exact inductionHypothesis (solidTail solid) rfl
          · rw [List.filter_cons_of_pos (by simpa using empty), List.nil_append,
              walk_idle isDir idle]
            exact @inductionHypothesis [] later (solidTail solid) rfl
      | cons _ front =>
          obtain ⟨rfl, rfl⟩ := List.cons.inj whole
          rw [List.cons_append, walk_idle isDir idle]
          exact inductionHypothesis solid rfl
  | @up links current finish first later isDir up _ inductionHypothesis =>
      cases pieces with
      | nil =>
          obtain rfl : rest = first :: later := whole
          have named : first ≠ [] := by rw [up]; decide
          rw [List.filter_cons_of_pos (by simpa using named), List.nil_append, walk_up isDir up]
          exact @inductionHypothesis [] later (solidTail solid) rfl
      | cons _ front =>
          obtain ⟨rfl, rfl⟩ := List.cons.inj whole
          rw [List.cons_append, walk_up isDir up]
          exact inductionHypothesis solid rfl
  | @name links current finish first later isDir named notUp noLink _ inductionHypothesis =>
      cases pieces with
      | nil =>
          obtain rfl : rest = first :: later := whole
          have text : first ≠ [] := fun empty => named (.inl empty)
          rw [List.filter_cons_of_pos (by simpa using text), List.nil_append,
            walk_name isDir named notUp noLink]
          exact @inductionHypothesis [] later (solidTail solid) rfl
      | cons _ front =>
          obtain ⟨rfl, rfl⟩ := List.cons.inj whole
          rw [List.cons_append, walk_name isDir named notUp noLink]
          exact inductionHypothesis solid rfl
  | @last links current piece target isDir named notUp link stops =>
      have alone : pieces ++ rest.filter (· ≠ []) = [piece] := by
        have text : piece ≠ [] := fun empty => named (.inl empty)
        rcases List.append_eq_singleton_iff.mp whole with ⟨rfl, rfl⟩ | ⟨rfl, rfl⟩
        · simp [text]
        · rfl
      rw [alone, stops]
      exact walk_last isDir named notUp link
  | @link links current finish first target later isDir named notUp link followed _
      inductionHypothesis =>
      cases pieces with
      | nil =>
          obtain rfl : rest = first :: later := whole
          have text : first ≠ [] := fun empty => named (.inl empty)
          have more : later.filter (· ≠ []) ≠ [] ∨ follow = true := by
            rcases followed with more | follows
            · exact .inl (filter_ne_nil (solidTail solid) more)
            · exact .inr follows
          rw [List.filter_cons_of_pos (by simpa using text), List.nil_append,
            walk_link isDir named notUp link more]
          exact inductionHypothesis (solidTail solid) rfl
      | cons _ front =>
          obtain ⟨rfl, rfl⟩ := List.cons.inj whole
          have more : front ++ rest.filter (· ≠ []) ≠ [] ∨ follow = true := by
            rcases followed with more | follows
            · refine .inl fun none => ?_
              obtain ⟨rfl, noRest⟩ := List.append_eq_nil_iff.mp none
              exact filter_ne_nil solid more noRest
            · exact .inr follows
          rw [List.cons_append, walk_link isDir named notUp link more, ← List.append_assoc]
          exact inductionHypothesis solid (List.append_assoc _ _ _)

end Fs

end Myscm.Library
