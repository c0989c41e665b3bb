import Workflow.Proofs.Path.Child
import Workflow.Proofs.Path.Grammar

/-!
# Paths that are written and read

What is written of the segments of a path is read as these segments.

* `Segment.Proper` says what segments are read from texts, and `Path.proper_of_parse` that no others
  are.
* `Path.parse_format` says that a path that is written from such segments is read as them.
* `Path.roundTrip_format` says that writing and reading undo each other, for one segment more as well.
-/

namespace Workflow

/-- A segment as it is read from a text: a field that starts and goes on as fields do, and perhaps an
index that is not negative. -/
structure Segment.Proper (segment : Segment) : Prop where
  field : ∃ c rest, segment.field.toList = c :: rest ∧ Path.isFieldStart c = true ∧
    ∀ d ∈ rest, Unicode.isWordChar d = true
  index : ∀ i, segment.index = some i → ∃ n : Nat, i = n

namespace Path

/-! ## Digits -/

theorem digitValue_of_isDigit {c : Char} (h : c.isDigit = true) :
    Unicode.digitValue c = some (c.toNat - 48) := by
  rw [Unicode.digitValue, if_pos h]

theorem isDigit_of_mem_toDigits {n : Nat} {c : Char} (h : c ∈ Nat.toDigits 10 n) :
    c.isDigit = true :=
  Nat.isDigit_of_mem_toDigits (by decide) (by decide) h

theorem isDecimalDigit_of_mem_toDigits {n : Nat} {c : Char} (h : c ∈ Nat.toDigits 10 n) :
    Unicode.isDecimalDigit c = true := by
  rw [Unicode.isDecimalDigit, digitValue_of_isDigit (isDigit_of_mem_toDigits h)]
  rfl

/-- The digits of a number are read as the number. -/
theorem indexValue_toDigits (n : Nat) : indexValue (Nat.toDigits 10 n) = n := by
  have hfold (digits : List Char) (hdigits : ∀ c ∈ digits, c.isDigit = true) (start : Nat) :
      digits.foldl (fun n c => 10 * n + (Unicode.digitValue c).getD 0) start =
        Nat.ofDigitChars 10 digits start := by
    induction digits generalizing start with
    | nil => rfl
    | cons c digits ih =>
      rw [List.foldl_cons, digitValue_of_isDigit (hdigits c List.mem_cons_self),
        ih fun d hd => hdigits d (List.mem_cons_of_mem _ hd)]
      rfl
  rw [indexValue, hfold _ (fun c hc => isDigit_of_mem_toDigits hc)]
  exact Nat.ofDigitChars_ten_toDigits

/-! ## Segments -/

theorem chars_of_index {segment : Segment} {n : Nat} (h : segment.index = some (n : Int)) :
    segment.chars = segment.field.toList ++ '[' :: (Nat.toDigits 10 n ++ [']']) := by
  have hdigits : (n : Int).repr.toList = Nat.toDigits 10 n := Nat.toList_repr
  rw [Segment.chars, h]
  simp [hdigits]

/-- What is written of a segment is a text of the segment. -/
theorem segmentText_chars {segment : Segment} (h : segment.Proper) :
    SegmentText segment.chars segment := by
  obtain ⟨field, index⟩ := segment
  obtain ⟨c, rest, hfield, hc, hrest⟩ := h.field
  obtain rfl : String.ofList (c :: rest) = field := by
    rw [← hfield]
    exact String.ofList_toList
  cases index with
  | none =>
    have htext : Segment.chars ⟨String.ofList (c :: rest), none⟩ = c :: rest := hfield
    rw [htext]
    exact .field hc hrest
  | some i =>
    obtain ⟨n, rfl⟩ := h.index i rfl
    rw [chars_of_index rfl, hfield, List.cons_append]
    have hdigits : ∀ d ∈ Nat.toDigits 10 n, Unicode.isDecimalDigit d = true :=
      fun d hd => isDecimalDigit_of_mem_toDigits hd
    have htext := SegmentText.entry hc hrest Nat.toDigits_ne_nil hdigits
    rwa [indexValue_toDigits] at htext

/-- What is read as a segment is proper. -/
theorem proper_of_closed {piece : List Char} {segment : Segment} (h : Closed piece segment) :
    segment.Proper := by
  have hproper {text : List Char} (htext : SegmentText text segment) : segment.Proper := by
    cases htext with
    | field hc hrest => exact ⟨⟨_, _, String.toList_ofList, hc, hrest⟩, nofun⟩
    | entry hc hrest =>
      refine ⟨⟨_, _, String.toList_ofList, hc, hrest⟩, ?_⟩
      rintro _ ⟨⟩
      exact ⟨_, rfl⟩
  cases h with
  | bare htext => exact hproper htext
  | lineEnd htext => exact hproper htext

/-! ## Paths -/

/-- What is written of segments is read as the segments. -/
theorem parse_format {segments : List Segment} (h : ∀ segment ∈ segments, Segment.Proper segment) :
    parse (format segments) = .ok segments := by
  rw [parse_eq_ok_iff]
  refine ⟨segments.map Segment.chars, ?_, ?_⟩
  · rw [List.forall₂_map_left_iff, List.forall₂_same]
    intro segment hmem
    exact .bare (segmentText_chars (h segment hmem))
  · rw [format, String.toList_ofList, formatChars, formatTail, List.flatMap_map]

/-- What is read from a text is proper. -/
theorem proper_of_parse {expression : String} {segments : List Segment}
    (h : parse expression = .ok segments) : ∀ segment ∈ segments, Segment.Proper segment := by
  obtain ⟨pieces, hpieces, -⟩ := parse_eq_ok_iff.1 h
  exact ((List.forall₂_and_left _ _).1
    (hpieces.imp fun _ _ hclosed => ⟨proper_of_closed hclosed, hclosed⟩).flip).1

/-! ## Round trips -/

variable {segments others : List Segment}

/-- A segment is appended to a path as it is appended to the segments of the path. -/
theorem child_format (segments : List Segment) (segment : Segment) :
    child (format segments) segment = format (segments ++ [segment]) := by
  apply String.toList_injective
  rw [toList_child, format, format, String.toList_ofList, String.toList_ofList]
  simp [formatChars, formatTail]

/-- A path tells its segments. -/
theorem format_inj (h : ∀ segment ∈ segments, Segment.Proper segment)
    (hothers : ∀ segment ∈ others, Segment.Proper segment) (hformat : format segments = format others) :
    segments = others := by
  have hread := parse_format h
  rw [hformat, parse_format hothers] at hread
  exact (Except.ok.inj hread).symm

/-- Writing the segments of a path and reading it undo each other. -/
structure RoundTrip (segments : List Segment) : Prop where
  /-- The segments are read from their path if and only if they are proper. -/
  read_iff : parse (format segments) = .ok segments ↔
    ∀ segment ∈ segments, Segment.Proper segment
  /-- What is written of one segment more is the path with the segment appended. -/
  child_eq : ∀ segment, child (format segments) segment = format (segments ++ [segment])
  /-- Other proper segments have another path. -/
  injective : (∀ segment ∈ segments, Segment.Proper segment) →
    ∀ others, (∀ segment ∈ others, Segment.Proper segment) →
      format segments = format others → segments = others
  /-- An expression that is read as the segments may be replaced by their path. -/
  reread : ∀ expression, parse expression = .ok segments →
    parse (format segments) = .ok segments

/-- All segments are written and read like this. -/
theorem roundTrip_format (segments : List Segment) : RoundTrip segments where
  read_iff := ⟨proper_of_parse, parse_format⟩
  child_eq := child_format segments
  injective h _ hothers hformat := format_inj h hothers hformat
  reread _ hparse := parse_format (proper_of_parse hparse)

/-- The path need not be the expression: zeros at the front of an index and a line end are not kept. -/
example : (parse "$.a_1[007]\n.b").map format = .ok "$.a_1[7].b" := by
  decide +kernel

end Path
end Workflow
