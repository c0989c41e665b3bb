import Mathlib.Data.List.Forall2
import Mathlib.Data.List.TakeWhile
import Workflow.Path.Basic

/-!
# The grammar of paths

A path is the root with segments, each after a point. What is read is given by the text of its
segments, but a line end may close every segment.

* `Path.SegmentText` and `Path.Closed` say which texts stand for a segment, without and with a line
  end at its end, and `Path.Spells` which texts stand for the segments of a path.
* `Path.reads_parse` says that exactly the texts of this grammar are read, and as which segments.
-/

namespace Workflow.Path

/-! ## Texts of segments -/

/-- The text of a segment: a field, and the digits of its index in brackets if it has one. -/
inductive SegmentText : List Char → Segment → Prop where
  /-- A field is a letter or an underscore with word characters. -/
  | field {c : Char} {rest : List Char} (hc : isFieldStart c = true)
    (hrest : ∀ d ∈ rest, Unicode.isWordChar d = true) :
    SegmentText (c :: rest) ⟨String.ofList (c :: rest), none⟩
  /-- The digits of an index follow a field, and they are not left out. -/
  | entry {c : Char} {rest digits : List Char} (hc : isFieldStart c = true)
    (hrest : ∀ d ∈ rest, Unicode.isWordChar d = true)
    (hne : digits ≠ []) (hdigits : ∀ d ∈ digits, Unicode.isDecimalDigit d = true) :
    SegmentText (c :: (rest ++ '[' :: (digits ++ [']'])))
      ⟨String.ofList (c :: rest), some (indexValue digits)⟩

/-- The text of a segment, perhaps with a line end. -/
inductive Closed : List Char → Segment → Prop where
  /-- Nothing follows the text. -/
  | bare {text : List Char} {segment : Segment} (h : SegmentText text segment) : Closed text segment
  /-- A line end follows the text. -/
  | lineEnd {text : List Char} {segment : Segment} (h : SegmentText text segment) :
    Closed (text ++ ['\n']) segment

/-- A text is the root with the texts of segments, each after a point. -/
def Spells (P : List Char → Segment → Prop) (text : List Char) (segments : List Segment) : Prop :=
  ∃ pieces, List.Forall₂ P pieces segments ∧ text = '$' :: pieces.flatMap ('.' :: ·)

variable {text piece rest : List Char} {c : Char} {segment : Segment} {segments : List Segment}

/-! ## Characters -/

theorem isWordChar_of_isFieldStart (h : isFieldStart c = true) : Unicode.isWordChar c = true := by
  rw [isFieldStart, Bool.or_eq_true] at h
  rw [Unicode.isWordChar, Unicode.isLetter]
  rcases h with h | h <;> simp [h]

/-- Besides word characters, digits and brackets nothing stands in the text of a segment. -/
theorem SegmentText.not_mem (h : SegmentText text segment) (hword : Unicode.isWordChar c = false)
    (hdigit : Unicode.isDecimalDigit c = false) (hopen : c ≠ '[') (hclose : c ≠ ']') :
    c ∉ text := by
  intro hmem
  have hfield {d : Char} (h : Unicode.isWordChar d = true) : c ≠ d := by
    rintro rfl
    rw [hword] at h
    cases h
  cases h with
  | field hd hrest =>
    rcases List.mem_cons.1 hmem with hmem | hmem
    · exact hfield (isWordChar_of_isFieldStart hd) hmem
    · exact hfield (hrest c hmem) rfl
  | entry hd hrest hne hdigits =>
    simp only [List.mem_cons, List.mem_append, List.not_mem_nil, or_false] at hmem
    rcases hmem with hmem | hmem | hmem | hmem | hmem
    · exact hfield (isWordChar_of_isFieldStart hd) hmem
    · exact hfield (hrest c hmem) rfl
    · exact hopen hmem
    · rw [hdigits c hmem] at hdigit
      cases hdigit
    · exact hclose hmem

theorem SegmentText.point_not_mem (h : SegmentText text segment) : '.' ∉ text :=
  h.not_mem (by decide) (by decide) (by decide) (by decide)

theorem SegmentText.lineEnd_not_mem (h : SegmentText text segment) : '\n' ∉ text :=
  h.not_mem (by decide) (by decide) (by decide) (by decide)

theorem Closed.point_not_mem (h : Closed piece segment) : '.' ∉ piece := by
  cases h with
  | bare h => exact h.point_not_mem
  | lineEnd h =>
    rw [List.mem_append]
    rintro (hmem | hmem)
    · exact h.point_not_mem hmem
    · cases List.mem_singleton.1 hmem

theorem segmentText_iff : SegmentText piece segment ↔ '\n' ∉ piece ∧ Closed piece segment := by
  constructor
  · intro h
    exact ⟨h.lineEnd_not_mem, .bare h⟩
  · rintro ⟨hline, hclosed⟩
    cases hclosed with
    | bare h => exact h
    | lineEnd h => simp at hline

/-! ## Segments that are read -/

/-- The characters up to the first one of another kind are taken. -/
theorem takeWhile_of_stop {p : Char → Bool} {before : List Char} (h : ∀ d ∈ before, p d = true)
    (hc : p c = false) (after : List Char) : (before ++ c :: after).takeWhile p = before ∧
      (before ++ c :: after).dropWhile p = c :: after := by
  rw [List.takeWhile_append_of_pos h, List.dropWhile_append_of_pos h,
    List.takeWhile_cons_of_neg (by simp [hc]), List.dropWhile_cons_of_neg (by simp [hc]),
    List.append_nil]
  exact ⟨rfl, rfl⟩

theorem parseIndex?_eq_some_iff {n : Nat} : parseIndex? text = some n ↔
    ∃ digits ≠ [], (∀ d ∈ digits, Unicode.isDecimalDigit d = true) ∧
      text = '[' :: (digits ++ [']']) ∧ n = indexValue digits := by
  constructor
  · intro h
    unfold parseIndex? at h
    split at h
    · rename_i rest
      simp only [List.isEmpty_iff] at h
      split_ifs at h with hne hclose
      refine ⟨_, hne, fun d hd => List.mem_takeWhile_imp hd, ?_, (Option.some.inj h).symm⟩
      rw [← hclose, List.takeWhile_append_dropWhile]
    · cases h
  · rintro ⟨digits, hne, hdigits, rfl, rfl⟩
    obtain ⟨htake, hdrop⟩ := takeWhile_of_stop hdigits
      (show Unicode.isDecimalDigit ']' = false by decide) []
    rw [parseIndex?, htake, hdrop]
    simp [hne]

/-- The texts of segments are read, and no others. -/
theorem parseField?_eq_some_iff : parseField? text = some segment ↔ SegmentText text segment := by
  constructor
  · intro h
    unfold parseField? at h
    split at h
    · cases h
    · rename_i c rest
      have hword : ∀ d ∈ rest.takeWhile Unicode.isWordChar, Unicode.isWordChar d = true :=
        fun d hd => List.mem_takeWhile_imp hd
      have hsplit := List.takeWhile_append_dropWhile (p := Unicode.isWordChar) (l := rest)
      split at h
      · rename_i hc
        simp only at h
        split at h
        · -- nothing follows the field
          rename_i hnil
          rw [hnil, List.append_nil] at hsplit
          rw [← Option.some.inj h, hsplit]
          exact .field hc (hsplit ▸ hword)
        · -- an index follows the field
          obtain ⟨_, hindex, rfl⟩ := Option.map_eq_some_iff.1 h
          obtain ⟨n, hindex, hn⟩ := Option.bind_eq_some_iff.1 hindex
          obtain ⟨digits, hne, hdigits, hafter, rfl⟩ := parseIndex?_eq_some_iff.1 hindex
          cases hn
          have hentry := SegmentText.entry hc hword hne hdigits
          rwa [← hafter, hsplit] at hentry
      · cases h
  · intro h
    cases h with
    | @field c rest hc hrest =>
      rw [parseField?, if_pos hc, List.takeWhile_eq_self_iff.2 hrest,
        List.dropWhile_eq_nil_iff.2 hrest]
    | @entry c rest digits hc hrest hne hdigits =>
      obtain ⟨htake, hdrop⟩ := takeWhile_of_stop hrest
        (show Unicode.isWordChar '[' = false by decide) (digits ++ [']'])
      have hindex := parseIndex?_eq_some_iff.2 ⟨digits, hne, hdigits, rfl, rfl⟩
      rw [parseField?, if_pos hc, htake, hdrop]
      simp only [hindex]
      rfl

theorem dropLineEnd_of_not_mem (h : '\n' ∉ text) : dropLineEnd text = text := by
  rw [dropLineEnd, if_neg fun hlast => h (List.mem_of_getLast? hlast)]

theorem dropLineEnd_concat (text : List Char) : dropLineEnd (text ++ ['\n']) = text := by
  rw [dropLineEnd, if_pos (List.getLast?_concat), List.dropLast_concat]

/-- A text is what is left of it without its line end, or has it. -/
theorem eq_dropLineEnd_or (text : List Char) :
    text = dropLineEnd text ∨ text = dropLineEnd text ++ ['\n'] := by
  rw [dropLineEnd]
  split
  · rename_i hlast
    exact .inr (List.dropLast_append_getLast? _ hlast).symm
  · exact .inl rfl

/-- What is read as a segment is the text of one, perhaps with a line end. -/
theorem parseSegment?_eq_some_iff : parseSegment? piece = some segment ↔ Closed piece segment := by
  rw [parseSegment?, parseField?_eq_some_iff]
  constructor
  · intro h
    rcases eq_dropLineEnd_or piece with hpiece | hpiece
    · rw [hpiece]
      exact .bare h
    · rw [hpiece]
      exact .lineEnd h
  · intro h
    cases h with
    | bare h => rwa [dropLineEnd_of_not_mem h.lineEnd_not_mem]
    | lineEnd h => rwa [dropLineEnd_concat]

/-! ## Pieces between points -/

theorem splitPoints_of_not_mem (h : '.' ∉ piece) : splitPoints piece = [piece] := by
  induction piece with
  | nil => rfl
  | cons c piece ih =>
    rw [List.mem_cons, not_or] at h
    rw [splitPoints, if_neg (Ne.symm h.1), ih h.2]

theorem splitPoints_append (h : '.' ∉ piece) :
    splitPoints (piece ++ '.' :: rest) = piece :: splitPoints rest := by
  induction piece with
  | nil => rw [List.nil_append, splitPoints, if_pos rfl]
  | cons c piece ih =>
    rw [List.mem_cons, not_or] at h
    rw [List.cons_append, splitPoints, if_neg (Ne.symm h.1), ih h.2]

/-- The pieces with a point before each are the text with one before it. -/
theorem flatMap_splitPoints (text : List Char) :
    (splitPoints text).flatMap ('.' :: ·) = '.' :: text := by
  induction text with
  | nil => rfl
  | cons c rest ih =>
    rw [splitPoints]
    split
    · rename_i hc
      rw [hc, List.flatMap_cons, ih]
      rfl
    · split
      · rename_i hnil
        rw [hnil] at ih
        cases ih
      · rename_i first others hsplit
        rw [hsplit, List.flatMap_cons, List.cons_append, List.cons.injEq] at ih
        rw [List.flatMap_cons, List.cons_append, List.cons_append, ih.2]

/-- Pieces without points are had back. -/
theorem splitPoints_flatMap {pieces : List (List Char)} (h : ∀ other ∈ piece :: pieces, '.' ∉ other) :
    splitPoints (piece ++ pieces.flatMap ('.' :: ·)) = piece :: pieces := by
  induction pieces generalizing piece with
  | nil => rw [List.flatMap_nil, List.append_nil, splitPoints_of_not_mem (h piece List.mem_cons_self)]
  | cons next pieces ih =>
    rw [List.flatMap_cons, List.cons_append, splitPoints_append (h piece List.mem_cons_self),
      ih fun other hother => h other (List.mem_cons_of_mem _ hother)]

/-- Pieces are read if every one of them is. -/
theorem parsePieces_eq_ok_iff {position : Nat} {pieces : List (List Char)} :
    parsePieces position pieces = .ok segments ↔ List.Forall₂ Closed pieces segments := by
  induction pieces generalizing position segments with
  | nil =>
    rw [List.forall₂_nil_left_iff, parsePieces, Except.ok.injEq]
    exact eq_comm
  | cons piece pieces ih =>
    rw [parsePieces, List.forall₂_cons_left_iff]
    cases hpiece : parseSegment? piece with
    | none =>
      simp only [← parseSegment?_eq_some_iff, hpiece]
      simp
    | some segment =>
      have hpieces {others : List Segment} : parsePieces (position + 1) pieces = .ok others ↔
          List.Forall₂ Closed pieces others := ih
      simp only [← hpieces, ← parseSegment?_eq_some_iff, hpiece]
      cases parsePieces (position + 1) pieces with
      | error cause => simp
      | ok others => simp [eq_comm]

/-! ## Paths that are read -/

theorem parseChars_eq_ok_iff : parseChars text = .ok segments ↔ Spells Closed text segments := by
  constructor
  · intro h
    unfold parseChars at h
    split at h
    · cases h
    · cases h
      exact ⟨[], .nil, rfl⟩
    · rename_i rest
      refine ⟨splitPoints rest, parsePieces_eq_ok_iff.1 h, ?_⟩
      rw [flatMap_splitPoints]
    · cases h
    · cases h
  · rintro ⟨pieces, hpieces, rfl⟩
    cases pieces with
    | nil =>
      cases hpieces
      rfl
    | cons piece pieces =>
      have hpoint : ∀ other ∈ piece :: pieces, '.' ∉ other :=
        ((List.forall₂_and_left _ _).1 (hpieces.imp fun _ _ h => ⟨h.point_not_mem, h⟩)).1
      rw [List.flatMap_cons, List.cons_append, parseChars, splitPoints_flatMap hpoint]
      exact parsePieces_eq_ok_iff.2 hpieces

theorem parse_eq_ok_iff {expression : String} :
    parse expression = .ok segments ↔ Spells Closed expression.toList segments := by
  rw [← parseChars_eq_ok_iff, parse]
  split
  · rename_i hparsed
    rw [hparsed, Except.ok.injEq, Except.ok.injEq]
  · rename_i hparsed
    rw [hparsed]
    simp

/-- A path whose segments no line end closes is one in which no line end stands. -/
theorem spells_segmentText_iff :
    Spells SegmentText text segments ↔ Spells Closed text segments ∧ '\n' ∉ text := by
  have hline (pieces : List (List Char)) :
      '\n' ∉ '$' :: pieces.flatMap ('.' :: ·) ↔ ∀ piece ∈ pieces, '\n' ∉ piece := by
    simp
  have hpieces (pieces : List (List Char)) : List.Forall₂ SegmentText pieces segments ↔
      (∀ piece ∈ pieces, '\n' ∉ piece) ∧ List.Forall₂ Closed pieces segments := by
    have hsplit : SegmentText = fun piece segment => '\n' ∉ piece ∧ Closed piece segment := by
      funext piece segment
      exact propext segmentText_iff
    rw [hsplit, List.forall₂_and_left]
  constructor
  · rintro ⟨pieces, h, rfl⟩
    obtain ⟨hnone, hclosed⟩ := (hpieces pieces).1 h
    exact ⟨⟨pieces, hclosed, rfl⟩, (hline pieces).2 hnone⟩
  · rintro ⟨⟨pieces, h, rfl⟩, hnone⟩
    exact ⟨pieces, (hpieces pieces).2 ⟨(hline pieces).1 hnone, h⟩, rfl⟩

/-- How expressions are read. -/
structure Reads (expression : String) : Prop where
  /-- The segments of a path are read if every one of them is closed by a line end at most. -/
  ok_iff : ∀ segments, parse expression = .ok segments ↔
    Spells Closed expression.toList segments
  /-- The paths that are read and in which no line end stands are those of the grammar. -/
  grammar_iff : ∀ segments, Spells SegmentText expression.toList segments ↔
    parse expression = .ok segments ∧ '\n' ∉ expression.toList
  /-- Every other expression is said to be malformed. -/
  malformed : (∀ segments, ¬ Spells Closed expression.toList segments) →
    ∃ cause, parse expression = .error (.malformed expression cause)

/-- Every expression is read like this. -/
theorem reads_parse (expression : String) : Reads expression := by
  refine ⟨fun segments => parse_eq_ok_iff, fun segments => ?_, fun hnone => ?_⟩
  · rw [parse_eq_ok_iff, spells_segmentText_iff]
  · cases hparsed : parseChars expression.toList with
    | ok segments => exact absurd (parseChars_eq_ok_iff.1 hparsed) (hnone segments)
    | error cause => exact ⟨cause, by rw [parse, hparsed]⟩

/-- A line end closes the first segment. -/
example : (parse "$.input[0]\n.input").toOption = some [⟨"input", some 0⟩, ⟨"input", none⟩] := by
  decide +kernel

end Workflow.Path
