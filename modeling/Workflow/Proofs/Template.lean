import Mathlib.Data.List.TakeWhile
import Workflow.Proofs.Fields
import Workflow.Proofs.Json.RoundTrip
import Workflow.Variables.Template

/-!
# Templates that are rendered

A text is taken apart into literal pieces and placeholders in exactly one way. Rendering puts a text
in the place of every placeholder that stands for something, and never looks at what it has put in.

* `Template.Parted` says how a text is taken apart: placeholders are as long as they can be, and no
  literal piece hides one. `Template.parted_pieces` says that every text can be taken apart like this,
  and `Template.pieces_join` that there is no other way.
* `Template.Troubled` says that a placeholder names a variable with a problem.
* `Template.Renders` says what a template becomes, and `Template.renders_render` that this is so for
  all templates, scopes and variables.
-/

namespace Workflow.Template

variable {c : Char} {s text after name : List Char} {parts : List Piece} {vars : Variables}
  {scope : Fields Value} {input : Option String}

/-! ## Pieces -/

/-- The text does not go on with a word character. -/
def Stops (s : List Char) : Prop :=
  ∀ c, s.head? = some c → Unicode.isWordChar c = false

/-- No placeholder begins inside the first text if the second one follows it. -/
def Bare (text after : List Char) : Prop :=
  ∀ before rest, text ++ after = before ++ '@' :: rest → before.length < text.length → Stops rest

/-- Pieces of a text: a placeholder has a name, which ends only where no word character follows, and
the text of a literal piece is not empty, has no placeholder in it and ends only where a placeholder
begins. -/
inductive Parted : List Piece → Prop where
  /-- The empty text has no pieces. -/
  | nil : Parted []
  /-- A placeholder is as long as it can be. -/
  | placeholder {name : List Char} {parts : List Piece} (hne : name ≠ [])
    (hname : ∀ c ∈ name, Unicode.isWordChar c = true) (hstops : Stops (join parts))
    (hparts : Parted parts) : Parted (.placeholder name :: parts)
  /-- A literal piece is as long as it can be. -/
  | literal {text : List Char} {parts : List Piece} (hne : text ≠ [])
    (hbare : Bare text (join parts)) (hnext : ∀ other rest, parts ≠ .literal other :: rest)
    (hparts : Parted parts) : Parted (.literal text :: parts)

@[simp] theorem join_nil : join [] = [] :=
  rfl

@[simp] theorem join_literal (text : List Char) (parts : List Piece) :
    join (.literal text :: parts) = text ++ join parts :=
  rfl

@[simp] theorem join_placeholder (name : List Char) (parts : List Piece) :
    join (.placeholder name :: parts) = '@' :: (name ++ join parts) :=
  rfl

@[simp] theorem join_consLiteral (c : Char) (parts : List Piece) :
    join (consLiteral c parts) = c :: join parts := by
  unfold consLiteral
  split
  · rfl
  · rfl

/-- A text stops if and only if no word character can be taken from it. -/
theorem stops_iff : Stops s ↔ s.takeWhile Unicode.isWordChar = [] := by
  cases s with
  | nil => simp [Stops]
  | cons c rest => simp [Stops, List.takeWhile_cons]

theorem stops_dropWhile (s : List Char) : Stops (s.dropWhile Unicode.isWordChar) := by
  intro c hc
  have hhead := List.head?_dropWhile_not Unicode.isWordChar s
  rw [hc] at hhead
  simpa using hhead

/-- Word characters in front of a text that stops are all that can be taken. -/
theorem takeWhile_name (hname : ∀ c ∈ name, Unicode.isWordChar c = true) (hstops : Stops s) :
    (name ++ s).takeWhile Unicode.isWordChar = name ∧
      (name ++ s).dropWhile Unicode.isWordChar = s := by
  have htake : s.takeWhile Unicode.isWordChar = [] := stops_iff.1 hstops
  have hdrop : s.dropWhile Unicode.isWordChar = s := by
    have hwhole := List.takeWhile_append_dropWhile (p := Unicode.isWordChar) (l := s)
    rwa [htake, List.nil_append] at hwhole
  rw [List.takeWhile_append_of_pos hname, List.dropWhile_append_of_pos hname, htake, hdrop]
  simp

theorem bare_nil (after : List Char) : Bare [] after := by
  intro before rest _ hlt
  simp at hlt

theorem bare_cons_iff :
    Bare (c :: text) after ↔ (c = '@' → Stops (text ++ after)) ∧ Bare text after := by
  constructor
  · intro h
    refine ⟨?_, ?_⟩
    · rintro rfl
      exact h [] (text ++ after) rfl (by simp)
    · intro before rest heq hlt
      exact h (c :: before) rest (by simp [heq]) (by simpa using hlt)
  · rintro ⟨hfirst, hrest⟩ before rest heq hlt
    cases before with
    | nil =>
      obtain ⟨rfl, rfl⟩ : c = '@' ∧ text ++ after = rest := by simpa using heq
      exact hfirst rfl
    | cons d before =>
      obtain ⟨-, htail⟩ : c = d ∧ text ++ after = before ++ '@' :: rest := by simpa using heq
      exact hrest before rest htail (by simpa using hlt)

/-! ## Every text is taken apart -/

/-- A character that begins no placeholder joins the literal piece behind it, or is one of its own. -/
theorem Parted.consLiteral (h : Parted parts) (hc : c = '@' → Stops (join parts)) :
    Parted (Template.consLiteral c parts) := by
  cases h with
  | nil =>
    exact .literal (List.cons_ne_nil c []) (bare_cons_iff.2 ⟨hc, bare_nil _⟩) nofun .nil
  | placeholder hne hname hstops hparts =>
    exact .literal (List.cons_ne_nil c []) (bare_cons_iff.2 ⟨hc, bare_nil _⟩) nofun
      (.placeholder hne hname hstops hparts)
  | literal hne hbare hnext hparts =>
    exact .literal (List.cons_ne_nil c _) (bare_cons_iff.2 ⟨hc, hbare⟩) hnext hparts

/-- The pieces of a text are the text. -/
theorem join_pieces (s : List Char) : join (pieces s) = s := by
  induction s using pieces.induct with
  | case1 => simp [pieces]
  | case2 c rest hplaceholder ih =>
    rw [pieces, if_pos hplaceholder, join_placeholder, ih, List.takeWhile_append_dropWhile,
      hplaceholder.1]
  | case3 c rest hliteral ih => rw [pieces, if_neg hliteral, join_consLiteral, ih]

/-- Every text can be taken apart. -/
theorem parted_pieces (s : List Char) : Parted (pieces s) := by
  induction s using pieces.induct with
  | case1 =>
    rw [pieces]
    exact .nil
  | case2 c rest hplaceholder ih =>
    rw [pieces, if_pos hplaceholder]
    refine .placeholder hplaceholder.2 ?_ ?_ ih
    · intro d hd
      exact List.mem_takeWhile_imp hd
    · rw [join_pieces]
      exact stops_dropWhile rest
  | case3 c rest hliteral ih =>
    rw [pieces, if_neg hliteral]
    apply ih.consLiteral
    intro hc
    rw [join_pieces, stops_iff]
    by_contra hne
    exact hliteral ⟨hc, hne⟩

/-! ## There is no other way -/

/-- Where no placeholder begins, characters are put in front of the other pieces one after the other. -/
theorem pieces_append (h : Bare text after) :
    pieces (text ++ after) = text.foldr consLiteral (pieces after) := by
  induction text with
  | nil => rfl
  | cons c text ih =>
    obtain ⟨hfirst, hrest⟩ := bare_cons_iff.1 h
    have hliteral : ¬ (c = '@' ∧ (text ++ after).takeWhile Unicode.isWordChar ≠ []) := by
      rintro ⟨hc, hne⟩
      exact hne (stops_iff.1 (hfirst hc))
    rw [List.cons_append, pieces, if_neg hliteral, ih hrest, List.foldr_cons]

/-- Characters in front of pieces that do not begin with a literal piece are a piece of their own. -/
theorem foldr_consLiteral (hne : text ≠ []) (hnext : ∀ other rest, parts ≠ .literal other :: rest) :
    text.foldr consLiteral parts = .literal text :: parts := by
  induction text with
  | nil => exact absurd rfl hne
  | cons c text ih =>
    cases text with
    | nil =>
      show consLiteral c parts = .literal [c] :: parts
      unfold consLiteral
      split
      · exact absurd rfl (hnext _ _)
      · rfl
    | cons d text =>
      rw [List.foldr_cons, ih (List.cons_ne_nil d text)]
      rfl

/-- Pieces are had back from the text that they are. -/
theorem pieces_join (h : Parted parts) : pieces (join parts) = parts := by
  induction h with
  | nil => simp [pieces]
  | @placeholder name parts hne hname hstops _ ih =>
    obtain ⟨htake, hdrop⟩ := takeWhile_name hname hstops
    rw [join_placeholder, pieces, htake, hdrop, if_pos ⟨rfl, hne⟩, ih]
  | @literal text parts hne hbare hnext _ ih =>
    rw [join_literal, pieces_append hbare, ih, foldr_consLiteral hne hnext]

/-! ## What pieces become -/

/-- How a value appears in a text: not at all if it is absent, a text as it is, and any other value as
JSON, from which a plain value is read back. -/
inductive Shows : Value → List Char → Prop where
  /-- Nothing is shown of the absent value. -/
  | null : Shows .null []
  /-- A text is shown as it is. -/
  | string (s : String) : Shows (.string s) s.toList
  /-- Any other value is shown as JSON. -/
  | json {v : Value} (hnull : v ≠ .null) (hstring : ∀ s, v ≠ .string s)
    (hread : v.Plain → Json.parse (v.toJson .line) = .ok v) : Shows v (v.toJson .line).toList

theorem shows_valueText (v : Value) : Shows v (valueText v).toList := by
  have hread (hplain : v.Plain) : Json.parse (v.toJson .line) = .ok v := by
    simpa using Json.parse_toJson JsonStyle.readable_line hplain Json.spaces_nil
  cases v with
  | null => exact .null
  | string s => exact .string s
  | _ => exact .json nofun nofun hread

/-- What a name stands for: what it has in scope, else the value of the run variable. -/
def meaning? (vars : Variables) (scope : Fields Value) (name : String) : Option Value :=
  (Fields.get? scope name).or (Fields.get? vars.values name)

/-- The text that comes in the place of a piece: of a placeholder that of what its name stands for, if
it stands for anything. -/
def Piece.replaced (vars : Variables) (scope : Fields Value) : Piece → List Char
  | literal text => text
  | placeholder name =>
    match meaning? vars scope (String.ofList name) with
    | some v => (valueText v).toList
    | none => '@' :: name

/-- The name has no value in scope, and the run variable of this name has the problem. -/
structure Troubled (vars : Variables) (scope : Fields Value) (name problem : String) : Prop where
  scope : Fields.get? scope name = none
  problem : Fields.get? vars.problems name = some problem

/-- No piece is a placeholder whose variable has a problem. -/
def Untroubled (vars : Variables) (scope : Fields Value) (parts : List Piece) : Prop :=
  ∀ name problem, .placeholder name ∈ parts → ¬ Troubled vars scope (String.ofList name) problem

/-- Of the placeholders whose variables have problems the first one has this name. -/
def FirstTrouble (vars : Variables) (scope : Fields Value) (parts : List Piece)
    (name problem : String) : Prop :=
  ∃ before chars after, parts = before ++ .placeholder chars :: after ∧ name = String.ofList chars ∧
    Untroubled vars scope before ∧ Troubled vars scope name problem

theorem untroubled_cons_iff {piece : Piece} : Untroubled vars scope (piece :: parts) ↔
    Untroubled vars scope [piece] ∧ Untroubled vars scope parts := by
  constructor
  · intro h
    refine ⟨fun name problem hmem => ?_, fun name problem hmem => ?_⟩
    · exact h name problem (by simp_all)
    · exact h name problem (List.mem_cons_of_mem piece hmem)
  · rintro ⟨hpiece, hparts⟩ name problem hmem
    rcases List.mem_cons.1 hmem with rfl | hmem
    · exact hpiece name problem (List.mem_singleton_self _)
    · exact hparts name problem hmem

/-- A placeholder whose variable has a problem is an error that names the variable. -/
theorem renderPiece_of_troubled {problem : String}
    (h : Troubled vars scope (String.ofList name) problem) :
    renderPiece vars scope input (.placeholder name) =
      .error ⟨input, .badVariable (String.ofList name) problem⟩ := by
  obtain ⟨hscope, hproblem⟩ := h
  simp [renderPiece, lookup, Variables.lookup, Variables.knows, Fields.has, hscope, hproblem,
    Except.map]

/-- Every other piece becomes the text that comes in its place. -/
theorem renderPiece_of_untroubled {piece : Piece} (h : Untroubled vars scope [piece]) :
    renderPiece vars scope input piece = .ok (piece.replaced vars scope) := by
  cases piece with
  | literal text => rfl
  | placeholder name =>
    have hfree (problem : String) := h name problem (List.mem_singleton_self _)
    cases hscope : Fields.get? scope (String.ofList name) with
    | some v =>
      simp [renderPiece, lookup, Piece.replaced, meaning?, Fields.has, hscope, Except.map]
    | none =>
      have hproblem : Fields.get? vars.problems (String.ofList name) = none := by
        cases hproblem : Fields.get? vars.problems (String.ofList name) with
        | none => rfl
        | some problem => exact absurd ⟨hscope, hproblem⟩ (hfree problem)
      cases hvalue : Fields.get? vars.values (String.ofList name) with
      | some v =>
        simp [renderPiece, lookup, Variables.lookup, Variables.knows, Piece.replaced, meaning?,
          Fields.has, hscope, hproblem, hvalue, Except.map]
      | none =>
        simp [renderPiece, Variables.knows, Piece.replaced, meaning?, Fields.has, hscope, hproblem,
          hvalue]

/-! ## What texts become -/

theorem renderPieces_of_untroubled (h : Untroubled vars scope parts) :
    renderPieces vars scope input parts = .ok (parts.flatMap (Piece.replaced vars scope)) := by
  induction parts with
  | nil => rfl
  | cons piece parts ih =>
    obtain ⟨hpiece, hparts⟩ := untroubled_cons_iff.1 h
    simp [renderPieces, renderPiece_of_untroubled hpiece, ih hparts]

/-- The first problem counts, whatever comes after it. -/
theorem renderPieces_of_firstTrouble {name problem : String}
    (h : FirstTrouble vars scope parts name problem) :
    renderPieces vars scope input parts = .error ⟨input, .badVariable name problem⟩ := by
  obtain ⟨before, chars, after, rfl, rfl, hbefore, htrouble⟩ := h
  induction before with
  | nil => simp [renderPieces, renderPiece_of_troubled htrouble]
  | cons piece before ih =>
    obtain ⟨hpiece, hbefore⟩ := untroubled_cons_iff.1 hbefore
    simp [renderPieces, renderPiece_of_untroubled hpiece, ih hbefore]

/-- Pieces have no placeholder whose variable has a problem, or a first one. -/
theorem untroubled_or_firstTrouble (vars : Variables) (scope : Fields Value) (parts : List Piece) :
    Untroubled vars scope parts ∨ ∃ name problem, FirstTrouble vars scope parts name problem := by
  induction parts with
  | nil =>
    left
    intro name problem hmem
    cases hmem
  | cons piece parts ih =>
    by_cases hpiece : Untroubled vars scope [piece]
    · rcases ih with hparts | ⟨name, problem, before, chars, after, rfl, hname, hbefore, htrouble⟩
      · exact .inl (untroubled_cons_iff.2 ⟨hpiece, hparts⟩)
      · exact .inr ⟨name, problem, piece :: before, chars, after, rfl, hname,
          untroubled_cons_iff.2 ⟨hpiece, hbefore⟩, htrouble⟩
    · right
      unfold Untroubled at hpiece
      push Not at hpiece
      obtain ⟨name, problem, hmem, htrouble⟩ := hpiece
      obtain rfl := List.mem_singleton.1 hmem
      exact ⟨String.ofList name, problem, [], name, parts, rfl, rfl, nofun, htrouble⟩

/-- Pieces that stand for nothing become the text that they are. -/
theorem flatMap_replaced_of_unknown
    (h : ∀ name, .placeholder name ∈ parts → meaning? vars scope (String.ofList name) = none) :
    parts.flatMap (Piece.replaced vars scope) = join parts := by
  apply List.flatMap_congr
  intro piece hmem
  cases piece with
  | literal text => rfl
  | placeholder name => simp [Piece.replaced, Piece.chars, h name hmem]

/-! ## What a template becomes -/

/-- What is rendered of a template whose text is taken apart into the pieces. -/
structure Renders (template : String) (vars : Variables) (scope : Fields Value)
    (input : Option String) (parts : List Piece) : Prop where
  /-- The pieces are those of the text. -/
  parted : Parted parts
  whole : join parts = template.toList
  /-- There is no other way to take the text apart. -/
  only : ∀ others, Parted others → join others = template.toList → others = parts
  /-- The template has no text if and only if a placeholder names a variable that has a problem and is
  not in scope. -/
  refused_iff : (∃ e, render template vars scope input = .error e) ↔
    ∃ name problem, .placeholder name ∈ parts ∧ Troubled vars scope (String.ofList name) problem
  /-- The error names the first such variable. -/
  cause_iff : ∀ e, render template vars scope input = .error e ↔
    ∃ name problem, FirstTrouble vars scope parts name problem ∧ e = ⟨input, .badVariable name problem⟩
  /-- In every other template what comes in the place of each piece stands in its order. -/
  text : Untroubled vars scope parts → render template vars scope input =
    .ok (String.ofList (parts.flatMap (Piece.replaced vars scope)))
  /-- What comes in the place of a placeholder that stands for a value shows the value. -/
  shown : ∀ name v, .placeholder name ∈ parts → meaning? vars scope (String.ofList name) = some v →
    Shows v (Piece.replaced vars scope (.placeholder name))
  /-- A template without known placeholders stays as it is. -/
  unknown : (∀ name, .placeholder name ∈ parts →
    Fields.get? scope (String.ofList name) = none ∧ vars.knows (String.ofList name) = false) →
    render template vars scope input = .ok template

/-- Every template is taken apart in one way. The first variable with a problem is the error of its
text; else every placeholder that stands for something is replaced once, and all else is kept. -/
theorem renders_render (template : String) (vars : Variables) (scope : Fields Value)
    (input : Option String) : ∃ parts, Renders template vars scope input parts := by
  set parts := pieces template.toList with hpieces
  have htext (h : Untroubled vars scope parts) : render template vars scope input =
      .ok (String.ofList (parts.flatMap (Piece.replaced vars scope))) := by
    rw [render, ← hpieces, renderPieces_of_untroubled h]
    rfl
  have htrouble {name problem : String} (h : FirstTrouble vars scope parts name problem) :
      render template vars scope input = .error ⟨input, .badVariable name problem⟩ := by
    rw [render, ← hpieces, renderPieces_of_firstTrouble h]
    rfl
  refine ⟨parts, parted_pieces _, join_pieces _, ?_, ⟨?_, ?_⟩, fun e => ⟨?_, ?_⟩, htext, ?_, ?_⟩
  · intro others hothers hjoin
    rw [hpieces, ← hjoin, pieces_join hothers]
  · rintro ⟨e, he⟩
    by_contra hnone
    push Not at hnone
    rw [htext hnone] at he
    cases he
  · rintro ⟨name, problem, hmem, hproblem⟩
    rcases untroubled_or_firstTrouble vars scope parts with hfree | ⟨first, cause, hfirst⟩
    · exact absurd hproblem (hfree name problem hmem)
    · exact ⟨_, htrouble hfirst⟩
  · intro he
    rcases untroubled_or_firstTrouble vars scope parts with hfree | ⟨first, cause, hfirst⟩
    · rw [htext hfree] at he
      cases he
    · rw [htrouble hfirst] at he
      cases he
      exact ⟨first, cause, hfirst, rfl⟩
  · rintro ⟨name, problem, hfirst, rfl⟩
    exact htrouble hfirst
  · intro name v _ hv
    simp only [Piece.replaced, hv]
    exact shows_valueText v
  · intro hunknown
    have hfree : Untroubled vars scope parts := by
      intro name problem hmem htroubled
      have hknows := (hunknown name hmem).2
      simp [Variables.knows, Fields.has, htroubled.problem] at hknows
    have hnone : ∀ name, .placeholder name ∈ parts →
        meaning? vars scope (String.ofList name) = none := by
      intro name hmem
      obtain ⟨hscope, hknows⟩ := hunknown name hmem
      obtain ⟨hvalue, -⟩ : Fields.get? vars.values (String.ofList name) = none ∧
          Fields.get? vars.problems (String.ofList name) = none := by
        simpa [Variables.knows, Fields.has] using hknows
      simp [meaning?, hscope, hvalue]
    rw [htext hfree, flatMap_replaced_of_unknown hnone, join_pieces, String.ofList_toList]

end Workflow.Template
