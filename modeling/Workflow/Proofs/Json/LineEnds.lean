import Workflow.Proofs.Json.Float
import Workflow.Proofs.Value.Plain
import Workflow.Settings.EnvFile

/-!
# Characters and line ends of written texts

A written value holds no character below the space but the line breaks of its style. Files are read
with all line ends written as one character, which does not change the text of a value, since a carriage
return in a text is escaped and no other is written.

* `Json.written_writeValue` says which characters are written of a value, and `Json.printable_toJson`
  that none of them is below the space if it is written on one line.
* `Json.return_not_mem_toJson` says that there is no carriage return in the text.
* `EnvFile.unifyLineEnds_of_not_mem` says that such texts are left as they are.
-/

namespace Workflow

theorem EnvFile.unifyLineEnds_of_not_mem {s : List Char} (h : '\r' ∉ s) : unifyLineEnds s = s := by
  fun_induction unifyLineEnds s with
  | case1 rest ih => exact absurd List.mem_cons_self h
  | case2 rest _ ih => exact absurd List.mem_cons_self h
  | case3 c rest _ _ ih => rw [ih fun hrest => h (List.mem_cons_of_mem _ hrest)]
  | case4 => rfl

namespace Json

/-! ## Texts -/

/-- No character is below the space. -/
def Printable (s : List Char) : Prop :=
  ∀ c ∈ s, 32 ≤ c.toNat

instance (s : List Char) : Decidable (Printable s) :=
  List.decidableBAll (fun c : Char => 32 ≤ c.toNat) s

theorem Printable.append {s t : List Char} (hs : Printable s) (ht : Printable t) : Printable (s ++ t) :=
  List.forall_mem_append.2 ⟨hs, ht⟩

theorem Printable.cons {c : Char} {s : List Char} (hc : 32 ≤ c.toNat) (hs : Printable s) :
    Printable (c :: s) :=
  List.forall_mem_cons.2 ⟨hc, hs⟩

theorem printable_of_digits {s : List Char} (h : ∀ c ∈ s, c.isDigit = true) : Printable s := by
  intro c hc
  have hdigit := h c hc
  simp only [Char.isDigit, Bool.and_eq_true, decide_eq_true_eq] at hdigit
  exact Nat.le_trans (by decide) (UInt32.le_iff_toNat_le.1 hdigit.1)

theorem printable_digitChar : ∀ d, d < 16 → 32 ≤ d.digitChar.toNat := by
  decide

theorem printable_unitEscape {n : Nat} (h : n < 65536) : Printable (unitEscape n) := by
  rw [unitEscape, Text.hexDigits_four h]
  intro c hc
  simp only [List.mem_cons, List.not_mem_nil, or_false] at hc
  rcases hc with rfl | rfl | rfl | rfl | rfl | rfl
  · decide
  · decide
  all_goals exact printable_digitChar _ (by omega)

theorem printable_escapedChar (ascii : Bool) (c : Char) : Printable (escapedChar ascii c) := by
  have hbound := toNat_lt c
  unfold escapedChar
  split_ifs with hquote hbackslash hline hreturn htab hback hfeed hcontrol hplain hunit
  iterate 7 decide
  · exact printable_unitEscape (by omega)
  · simpa [Printable] using Nat.not_lt.1 hcontrol
  · exact printable_unitEscape hunit
  · exact (printable_unitEscape (by omega)).append (printable_unitEscape (by omega))

theorem printable_writeString (style : JsonStyle) (s : String) : Printable (writeString style s) := by
  intro c hc
  simp only [writeString, List.mem_cons, List.mem_append, List.mem_flatMap, List.not_mem_nil,
    or_false, List.cons_append] at hc
  rcases hc with rfl | ⟨d, _, hc⟩ | rfl
  · decide
  · exact printable_escapedChar style.ascii d c hc
  · decide

/-! ## Numbers -/

theorem printable_exponentText (f : FloatFormat) (power : Int) : Printable (f.exponentText power) := by
  obtain ⟨digits, _, hdigits, _, htext⟩ := exists_exponentText f power
  have hsign : Printable (if power < 0 then ['-'] else if f.plusSign then ['+'] else []) := by
    split_ifs <;> decide
  rw [htext]
  exact .cons (by decide) (hsign.append (printable_of_digits hdigits))

theorem printable_layout (f : FloatFormat) {digits : List Char} (h : ∀ c ∈ digits, c.isDigit = true)
    (power : Int) : Printable (f.layout digits power) := by
  have hdigits := printable_of_digits h
  have hzeros (n : Nat) : Printable (List.replicate n '0') := printable_of_digits (isDigit_replicate n)
  have hexponent := printable_exponentText f power
  unfold FloatFormat.layout
  split
  · split
    · exact nofun
    · exact .cons (hdigits _ List.mem_cons_self) hexponent
    · obtain ⟨hd, hds⟩ := List.forall_mem_cons.1 hdigits
      exact .cons hd (.append (.cons (by decide) hds) hexponent)
  split
  · exact .append (.cons (by decide) (.cons (by decide) (hzeros _))) hdigits
  · have hwhole : Printable (digits.take (power.toNat + 1)) :=
      fun c hc => hdigits c (List.mem_of_mem_take hc)
    have hpart : Printable (digits.drop (power.toNat + 1)) :=
      fun c hc => hdigits c (List.mem_of_mem_drop hc)
    refine (hwhole.append (hzeros _)).append ?_
    split_ifs
    · decide
    · exact nofun
    · exact .cons (by decide) hpart

theorem printable_number {n : Number} (h : (Value.number n).Kept) (floats : FloatFormat) :
    Printable (n.text floats) := by
  cases n with
  | int n =>
    have hdigits (n : Nat) : Printable (Nat.toDigits 10 n) := printable_of_digits (isDigit_toDigits n)
    change Printable (toString n).toList
    cases n with
    | ofNat n => simpa [toString, Int.repr] using hdigits n
    | negSucc n => simpa [toString, Int.repr] using Printable.cons (by decide) (hdigits (n + 1))
  | float x =>
    obtain ⟨negative, m, e, hkind⟩ := Binary64.exists_kind_eq h.isFinite
    rw [Number.text, Binary64.text_eq hkind]
    refine .append (by cases negative <;> decide) ?_
    split_ifs
    · exact printable_layout floats (by simp) 0
    · exact printable_layout floats (Binary64.isDigit_scientific _) _

/-! ## Values -/

/-- A character of a written text is not below the space, unless it breaks a line as the style does. -/
def Written (style : JsonStyle) (c : Char) : Prop :=
  32 ≤ c.toNat ∨ c = '\n' ∧ style.indent.isSome = true

variable {style : JsonStyle}

theorem Printable.written {s : List Char} (h : Printable s) : ∀ c ∈ s, Written style c :=
  fun c hc => .inl (h c hc)

theorem written_lineBreak (depth : Nat) : ∀ c ∈ lineBreak style depth, Written style c := by
  unfold lineBreak
  cases hindent : style.indent with
  | none => exact nofun
  | some width =>
    refine List.forall_mem_cons.2 ⟨.inr ⟨rfl, by rw [hindent]; rfl⟩, fun c hc => .inl ?_⟩
    rw [List.eq_of_mem_replicate hc]
    decide

theorem written_append {s t : List Char} (hs : ∀ c ∈ s, Written style c)
    (ht : ∀ c ∈ t, Written style c) : ∀ c ∈ s ++ t, Written style c :=
  List.forall_mem_append.2 ⟨hs, ht⟩

section
variable (hcomma : Printable style.comma.toList) (hcolon : Printable style.colon.toList)
include hcomma

theorem written_writeItems (depth : Nat) : (items : List Value) →
    (∀ v ∈ items, ∀ c ∈ writeValue style depth v, Written style c) →
      ∀ c ∈ writeItems style depth items, Written style c
  | [], _ => by
    rw [writeItems]
    exact nofun
  | [v], h => by
    rw [writeItems]
    exact h v List.mem_cons_self
  | v :: w :: items, h => by
    obtain ⟨hv, hmore⟩ := List.forall_mem_cons.1 h
    rw [writeItems]
    exact written_append (written_append (written_append hv hcomma.written) (written_lineBreak depth))
      (written_writeItems depth (w :: items) hmore)

include hcolon

theorem written_writeFields (depth : Nat) : (fields : List (String × Value)) →
    (∀ field ∈ fields, ∀ c ∈ writeValue style depth field.2, Written style c) →
      ∀ c ∈ writeFields style depth fields, Written style c
  | [], _ => by
    rw [writeFields]
    exact nofun
  | [(name, v)], h => by
    have hv := h _ List.mem_cons_self
    rw [writeFields]
    exact written_append ((printable_writeString style name).append hcolon).written hv
  | (name, v) :: field :: fields, h => by
    obtain ⟨hv, hmore⟩ := List.forall_mem_cons.1 h
    have hname : ∀ c ∈ writeString style name ++ style.colon.toList, Written style c :=
      ((printable_writeString style name).append hcolon).written
    rw [writeFields]
    exact written_append (written_append (written_append (written_append hname hv) hcomma.written)
      (written_lineBreak depth)) (written_writeFields depth (field :: fields) hmore)

/-- The characters that are written of a value. -/
theorem written_writeValue (v : Value) : ∀ depth, v.Kept →
    ∀ c ∈ writeValue style depth v, Written style c := by
  have hchar {c : Char} (hc : 32 ≤ c.toNat) : ∀ d ∈ [c], Written style d :=
    List.forall_mem_singleton.2 (.inl hc)
  induction v using Value.ind with
  | null =>
    intro depth _
    rw [writeValue]
    exact Printable.written (by decide)
  | bool b =>
    intro depth _
    rw [writeValue]
    exact Printable.written (by cases b <;> decide)
  | number n =>
    intro depth h
    rw [writeValue]
    exact (printable_number h style.floats).written
  | string s =>
    intro depth _
    rw [writeValue]
    exact (printable_writeString style s).written
  | array items ih =>
    intro depth h
    have hitems := written_writeItems hcomma (depth + 1) items fun v hv =>
      ih v hv _ (Value.kept_array_iff.1 h v hv)
    rw [writeValue]
    split
    · exact Printable.written (by decide)
    · exact written_append (written_append (written_append
        (written_append (hchar (by decide)) (written_lineBreak _)) hitems) (written_lineBreak _))
        (hchar (by decide))
  | object fields ih =>
    intro depth h
    have hfields := written_writeFields hcomma hcolon (depth + 1) fields fun field hfield =>
      ih field hfield _ ((Value.kept_object_iff.1 h).2 field hfield)
    rw [writeValue]
    split
    · exact Printable.written (by decide)
    · exact written_append (written_append (written_append
        (written_append (hchar (by decide)) (written_lineBreak _)) hfields) (written_lineBreak _))
        (hchar (by decide))

/-- A value that is written on one line holds no character below the space. -/
theorem printable_toJson {v : Value} (hindent : style.indent = none) (h : v.Kept) :
    Printable (v.toJson style).toList := by
  intro c hc
  rw [Value.toJson, String.toList_ofList] at hc
  rcases written_writeValue hcomma hcolon v 0 h c hc with hc | ⟨_, hbreak⟩
  · exact hc
  · rw [hindent] at hbreak
    cases hbreak

/-- There is no carriage return in the text of a plain value. -/
theorem return_not_mem_toJson {v : Value} (h : v.Plain) : '\r' ∉ (v.toJson style).toList := by
  intro hreturn
  rw [Value.toJson, String.toList_ofList] at hreturn
  rcases written_writeValue hcomma hcolon v 0 h.kept _ hreturn with hc | ⟨hc, _⟩
  · exact absurd hc (by decide)
  · exact absurd hc (by decide)

end

end Json
end Workflow
