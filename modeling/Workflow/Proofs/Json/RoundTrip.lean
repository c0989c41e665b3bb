import Workflow.Proofs.Fields
import Workflow.Proofs.Json.Float
import Workflow.Proofs.Value.Plain

/-!
# Written values are read back

Whatever the style, a value is read back from its JSON text if its numbers are finite and its names
distinct.

* `Json.readValue_writeValue` says so of a value in front of something else.
* `Json.parse_toJson_of_kept` says so of a text that is a value with white space after it.
* `Json.distinct_of_parse` says that no object of a value that is read gives a name twice.
-/

namespace Workflow

namespace Json

/-! ## White space -/

/-- All characters are white space. -/
def Spaces (s : List Char) : Prop :=
  ∀ c ∈ s, isSpace c = true

theorem spaces_nil : Spaces [] :=
  nofun

theorem spaces_lineBreak (style : JsonStyle) (depth : Nat) : Spaces (lineBreak style depth) := by
  unfold lineBreak
  cases style.indent with
  | none => exact nofun
  | some width =>
    intro c hc
    rcases List.mem_cons.1 hc with rfl | hc
    · rfl
    · rw [List.eq_of_mem_replicate hc]
      rfl

theorem skipSpace_append {space : List Char} (h : Spaces space) (rest : List Char) :
    skipSpace (space ++ rest) = skipSpace rest :=
  List.dropWhile_append_of_pos h

theorem skipSpace_cons {c : Char} (h : isSpace c = false) (rest : List Char) :
    skipSpace (c :: rest) = c :: rest := by
  simp [skipSpace, h]

/-- White space and brackets cannot go on with a number. -/
theorem stops_append {space rest : List Char} (h : Spaces space) (hrest : Stops rest) :
    Stops (space ++ rest) := by
  cases space with
  | nil => exact hrest
  | cons c space =>
    intro d hd
    cases hd
    have hc := h c List.mem_cons_self
    simp only [isSpace, Bool.or_eq_true, beq_iff_eq] at hc
    rcases hc with ((rfl | rfl) | rfl) | rfl <;> decide

theorem stops_nil : Stops [] :=
  nofun

theorem stops_cons {c : Char} (h : c = ',' ∨ c = ']' ∨ c = '\x7d') (rest : List Char) :
    Stops (c :: rest) := by
  intro d hd
  cases hd
  rcases h with rfl | rfl | rfl <;> decide

end Json

/-- What stands between items and after names is a comma or a colon and white space, and
double-precision numbers have a point or an exponent. -/
structure JsonStyle.Readable (style : JsonStyle) : Prop where
  /-- A comma stands between items. -/
  comma : ∃ space, style.comma.toList = ',' :: space ∧ Json.Spaces space
  /-- A colon stands after a name. -/
  colon : ∃ space, style.colon.toList = ':' :: space ∧ Json.Spaces space
  /-- Double-precision numbers are not taken for whole ones. -/
  pointZero : style.floats.pointZero = true

theorem JsonStyle.readable_document : JsonStyle.document.Readable :=
  ⟨⟨[], rfl, Json.spaces_nil⟩, ⟨[' '], rfl, by simp [Json.Spaces, Json.isSpace]⟩, rfl⟩

theorem JsonStyle.readable_line : JsonStyle.line.Readable :=
  ⟨⟨[' '], rfl, by simp [Json.Spaces, Json.isSpace]⟩,
    ⟨[' '], rfl, by simp [Json.Spaces, Json.isSpace]⟩, rfl⟩

theorem JsonStyle.readable_packed : JsonStyle.packed.Readable :=
  ⟨⟨[], rfl, Json.spaces_nil⟩, ⟨[], rfl, Json.spaces_nil⟩, rfl⟩

namespace Json

variable {style : JsonStyle} {rest : List Char} {fuel depth : Nat}

/-! ## Leaves -/

theorem readValue_of_readNumber? {s : List Char} {n : Number} (h : readNumber? s = some (n, rest)) :
    readValue (fuel + 1) s = .ok (.number n, rest) := by
  unfold readValue
  split
  · simp [readNumber?, readWhole] at h
  · simp [readNumber?, readWhole] at h
  · simp [readNumber?, readWhole] at h
  · rw [h]

theorem readValue_null : readValue (fuel + 1) ("null".toList ++ rest) = .ok (.null, rest) := by
  simp [readValue, readNumber?, readWhole, readConstant?, constants, String.length]

theorem readValue_bool (b : Bool) :
    readValue (fuel + 1) ((if b then "true" else "false").toList ++ rest) = .ok (.bool b, rest) := by
  cases b <;>
    simp [readValue, readNumber?, readWhole, readConstant?, constants, String.length]

theorem escapedChar_ne_nil (ascii : Bool) (c : Char) : escapedChar ascii c ≠ [] := by
  unfold escapedChar
  split_ifs
  all_goals exact List.cons_ne_nil _ _

theorem length_le_length_escaped (ascii : Bool) (cs : List Char) :
    cs.length ≤ (cs.flatMap (escapedChar ascii)).length := by
  induction cs with
  | nil => exact Nat.zero_le _
  | cons c cs ih =>
    have hc := List.length_pos_iff.2 (escapedChar_ne_nil ascii c)
    rw [List.flatMap_cons, List.length_append, List.length_cons]
    omega

/-- What is written of a text, after its opening quote, is read back. -/
theorem exists_writeString (style : JsonStyle) (s : String) (rest : List Char) :
    ∃ body, writeString style s ++ rest = '"' :: body ∧
      ∀ {start fuel}, (writeString style s).length < fuel + 2 →
        readString start [] fuel body = .ok (s, rest) := by
  refine ⟨s.toList.flatMap (escapedChar style.ascii) ++ '"' :: rest, by simp [writeString], ?_⟩
  intro start fuel h
  have hlength := length_le_length_escaped style.ascii s.toList
  rw [writeString, List.length_append, List.length_cons, List.length_singleton] at h
  rw [readString_escaped style.ascii s.toList (by omega)]
  simp

/-! ## The first character of a written value -/

/-- What starts a value: neither white space nor what closes a list nor a byte order mark. -/
def Starts (s : List Char) : Prop :=
  ∃ c rest, s = c :: rest ∧ isSpace c = false ∧ c ≠ ']' ∧ c ≠ '\ufeff'

theorem starts_writeString (style : JsonStyle) (s : String) : Starts (writeString style s) :=
  ⟨'"', _, rfl, rfl, by decide⟩

/-- A digit starts no other value than a number. -/
theorem starts_cons_digit {c : Char} (hc : c.isDigit = true) (rest : List Char) :
    Starts (c :: rest) := by
  refine ⟨c, rest, rfl, ?_, (by rintro rfl; cases hc), (by rintro rfl; cases hc)⟩
  by_contra hspace
  simp only [isSpace, Bool.not_eq_false, Bool.or_eq_true, beq_iff_eq] at hspace
  rcases hspace with ((rfl | rfl) | rfl) | rfl <;> cases hc

/-- What is read as a number starts with a sign or a digit. -/
theorem starts_of_readNumber? {s : List Char} {n : Number} (h : readNumber? s = some (n, rest)) :
    Starts s := by
  cases s with
  | nil => cases h
  | cons c s =>
    by_cases hminus : c = '-'
    · exact ⟨c, s, rfl, by rw [hminus]; rfl, by rw [hminus]; decide, by rw [hminus]; decide⟩
    by_cases hc : c.isDigit = true
    · exact starts_cons_digit hc s
    have hzero : c ≠ '0' := by rintro rfl; exact hc rfl
    simp [readNumber?, readWhole, hminus, hzero, hc] at h

/-- What is written of a finite number is read back. -/
theorem readNumber?_number {n : Number} (hpoint : style.floats.pointZero = true)
    (hn : (Value.number n).Kept) (hrest : Stops rest) :
    readNumber? (n.text style.floats ++ rest) = some (n, rest) := by
  cases n with
  | int n => exact readNumber?_text style.floats n hrest
  | float x => exact readNumber?_float hpoint hn.isFinite hrest

theorem starts_writeValue (hstyle : style.Readable) (depth : Nat) (v : Value) (h : v.Kept) :
    Starts (writeValue style depth v) := by
  cases v with
  | null => exact ⟨'n', _, rfl, rfl, by decide⟩
  | bool b =>
    cases b
    · exact ⟨'f', _, rfl, rfl, by decide⟩
    · exact ⟨'t', _, rfl, rfl, by decide⟩
  | number n =>
    rw [writeValue, ← List.append_nil (n.text style.floats)]
    exact starts_of_readNumber? (readNumber?_number hstyle.pointZero h stops_nil)
  | string s => exact starts_writeString style s
  | array items =>
    rw [writeValue]
    split
    · exact ⟨'[', _, rfl, rfl, by decide⟩
    · exact ⟨'[', _, rfl, rfl, by decide⟩
  | object fields =>
    rw [writeValue]
    split
    · exact ⟨'\x7b', _, rfl, rfl, by decide⟩
    · exact ⟨'\x7b', _, rfl, rfl, by decide⟩

/-! ## Brackets -/

/-- A list whose items are read is read. -/
theorem readValue_array {space s : List Char} {items : List Value} (hspace : Spaces space)
    (hstarts : Starts s) (h : readItems fuel s = .ok (items, rest)) :
    readValue (fuel + 1) ('[' :: (space ++ s)) = .ok (.array items, rest) := by
  obtain ⟨c, t, rfl, hc, hbracket⟩ := hstarts
  rw [readValue, skipSpace_append hspace, skipSpace_cons hc]
  split
  · rename_i heq
    cases heq
    exact absurd rfl hbracket.1
  · simp [h, bind, Except.bind, pure, Except.pure]

/-- An object whose fields are read is read. -/
theorem readValue_object {space s : List Char} {fields : Fields Value} (hspace : Spaces space)
    (h : readFields fuel [] ('"' :: s) = .ok (fields, rest)) :
    readValue (fuel + 1) ('\x7b' :: (space ++ '"' :: s)) = .ok (.object fields, rest) := by
  rw [readValue, skipSpace_append hspace, skipSpace_cons rfl]
  simp [h, bind, Except.bind, pure, Except.pure]

/-- The last item of a list is read up to the closing bracket. -/
theorem readItems_last {space s : List Char} {v : Value} (hspace : Spaces space)
    (h : readValue fuel s = .ok (v, space ++ ']' :: rest)) :
    readItems (fuel + 1) s = .ok ([v], rest) := by
  rw [readItems]
  simp only [h, bind, Except.bind]
  rw [skipSpace_append hspace, skipSpace_cons rfl]
  rfl

/-- An item and the items after the comma are read. -/
theorem readItems_cons {space s more : List Char} {v : Value} {items : List Value}
    (hspace : Spaces space) (hstarts : Starts more)
    (h : readValue fuel s = .ok (v, ',' :: (space ++ more)))
    (hmore : readItems fuel more = .ok (items, rest)) :
    readItems (fuel + 1) s = .ok (v :: items, rest) := by
  obtain ⟨c, t, rfl, hc, _⟩ := hstarts
  rw [readItems]
  simp only [h, bind, Except.bind]
  rw [skipSpace_cons rfl]
  simp only
  rw [skipSpace_append hspace, skipSpace_cons hc, hmore]
  rfl

/-- The last field of an object is read up to the closing bracket. -/
theorem readFields_last {body colon s close : List Char} {fields : Fields Value} {name : String}
    {v : Value} (hcolon : Spaces colon) (hstarts : Starts s) (hclose : Spaces close)
    (hname : readString ('"' :: body) [] fuel body = .ok (name, ':' :: (colon ++ s)))
    (h : readValue fuel s = .ok (v, close ++ '\x7d' :: rest)) :
    readFields (fuel + 1) fields ('"' :: body) = .ok (Fields.set fields name v, rest) := by
  obtain ⟨c, t, rfl, hc, _⟩ := hstarts
  rw [readFields]
  simp only [hname, bind, Except.bind]
  rw [skipSpace_cons rfl]
  simp only
  rw [skipSpace_append hcolon, skipSpace_cons hc, h]
  simp only
  rw [skipSpace_append hclose, skipSpace_cons rfl]
  rfl

/-- A field and the fields after the comma are read. -/
theorem readFields_cons {body colon s comma more : List Char} {fields result : Fields Value}
    {name : String} {v : Value} (hcolon : Spaces colon) (hstarts : Starts s) (hcomma : Spaces comma)
    (hname : readString ('"' :: body) [] fuel body = .ok (name, ':' :: (colon ++ s)))
    (h : readValue fuel s = .ok (v, ',' :: (comma ++ '"' :: more)))
    (hmore : readFields fuel (Fields.set fields name v) ('"' :: more) = .ok (result, rest)) :
    readFields (fuel + 1) fields ('"' :: body) = .ok (result, rest) := by
  obtain ⟨c, t, rfl, hc, _⟩ := hstarts
  rw [readFields]
  simp only [hname, bind, Except.bind]
  rw [skipSpace_cons rfl]
  simp only
  rw [skipSpace_append hcolon, skipSpace_cons hc, h]
  simp only
  rw [skipSpace_cons rfl]
  simp only
  rw [skipSpace_append hcomma, skipSpace_cons rfl, hmore]

theorem Starts.length_pos {s : List Char} (h : Starts s) : 0 < s.length := by
  obtain ⟨_, _, rfl, _⟩ := h
  exact Nat.succ_pos _

theorem Starts.append {s : List Char} (h : Starts s) (rest : List Char) : Starts (s ++ rest) := by
  obtain ⟨c, t, rfl, hc, hbracket⟩ := h
  exact ⟨c, t ++ rest, rfl, hc, hbracket⟩

theorem starts_writeItems (hstyle : style.Readable) (depth : Nat) {v : Value} (h : v.Kept)
    (items : List Value) : Starts (writeItems style depth (v :: items)) := by
  cases items with
  | nil =>
    rw [writeItems]
    exact starts_writeValue hstyle depth v h
  | cons w items =>
    rw [writeItems, List.append_assoc, List.append_assoc]
    exact (starts_writeValue hstyle depth v h).append _

/-- What is written of fields starts with a quote. -/
theorem exists_writeFields (style : JsonStyle) (depth : Nat) (field : String × Value)
    (fields : Fields Value) (rest : List Char) :
    ∃ body, writeFields style depth (field :: fields) ++ rest = '"' :: body := by
  cases fields with
  | nil =>
    rw [writeFields, writeString]
    exact ⟨_, rfl⟩
  | cons next fields =>
    rw [writeFields, writeString]
    exact ⟨_, rfl⟩

/-- A name that comes after others was not given before. -/
theorem not_mem_of_nodup {sofar fields : Fields Value} {name : String} {v : Value}
    (h : (Fields.names (sofar ++ (name, v) :: fields)).Nodup) : name ∉ Fields.names sofar := by
  rw [Fields.names, List.map_append] at h
  exact fun hmem => (List.nodup_append.1 h).2.2 name hmem name List.mem_cons_self rfl

/-! ## Values -/

mutual

/-- A value is read back from what is written of it. -/
theorem readValue_writeValue (hstyle : style.Readable) : (v : Value) →
    ∀ (depth fuel : Nat) (rest : List Char), v.Kept → (writeValue style depth v).length < fuel →
      Stops rest → readValue fuel (writeValue style depth v ++ rest) = .ok (v, rest)
  | .null => by
    intro depth fuel rest _ hfuel _
    obtain ⟨fuel, rfl⟩ := Nat.exists_eq_succ_of_ne_zero (Nat.ne_zero_of_lt hfuel)
    rw [writeValue]
    exact readValue_null
  | .bool b => by
    intro depth fuel rest _ hfuel _
    obtain ⟨fuel, rfl⟩ := Nat.exists_eq_succ_of_ne_zero (Nat.ne_zero_of_lt hfuel)
    rw [writeValue]
    exact readValue_bool b
  | .number n => by
    intro depth fuel rest h hfuel hrest
    obtain ⟨fuel, rfl⟩ := Nat.exists_eq_succ_of_ne_zero (Nat.ne_zero_of_lt hfuel)
    rw [writeValue]
    exact readValue_of_readNumber? (readNumber?_number hstyle.pointZero h hrest)
  | .string s => by
    intro depth fuel rest _ hfuel _
    obtain ⟨fuel, rfl⟩ := Nat.exists_eq_succ_of_ne_zero (Nat.ne_zero_of_lt hfuel)
    obtain ⟨body, hbody, hread⟩ := exists_writeString style s rest
    rw [writeValue] at hfuel ⊢
    rw [hbody, readValue]
    simp [hread (show _ < fuel + 2 by omega), bind, Except.bind, pure, Except.pure]
  | .array [] => by
    intro depth fuel rest _ hfuel _
    obtain ⟨fuel, rfl⟩ := Nat.exists_eq_succ_of_ne_zero (Nat.ne_zero_of_lt hfuel)
    simp [writeValue, readValue, skipSpace, isSpace]
  | .array (v :: items) => by
    intro depth fuel rest h hfuel hrest
    obtain ⟨fuel, rfl⟩ := Nat.exists_eq_succ_of_ne_zero (Nat.ne_zero_of_lt hfuel)
    rw [Value.kept_array_iff] at h
    have hwritten : writeValue style depth (.array (v :: items)) ++ rest =
        '[' :: (lineBreak style (depth + 1) ++ (writeItems style (depth + 1) (v :: items) ++
          (lineBreak style depth ++ ']' :: rest))) := by
      simp [writeValue]
    have hlength : (writeItems style (depth + 1) (v :: items)).length + 2 ≤
        (writeValue style depth (.array (v :: items))).length := by
      simp [writeValue]
      omega
    rw [hwritten]
    exact readValue_array (spaces_lineBreak style _)
      ((starts_writeItems hstyle _ (h v List.mem_cons_self) items).append _)
      (readItems_writeItems hstyle (v :: items) _ _ _ _ nofun h (by omega)
        (spaces_lineBreak style depth))
  | .object [] => by
    intro depth fuel rest _ hfuel _
    obtain ⟨fuel, rfl⟩ := Nat.exists_eq_succ_of_ne_zero (Nat.ne_zero_of_lt hfuel)
    simp [writeValue, readValue, skipSpace, isSpace]
  | .object (field :: fields) => by
    intro depth fuel rest h hfuel hrest
    obtain ⟨fuel, rfl⟩ := Nat.exists_eq_succ_of_ne_zero (Nat.ne_zero_of_lt hfuel)
    rw [Value.kept_object_iff] at h
    have hwritten : writeValue style depth (.object (field :: fields)) ++ rest =
        '\x7b' :: (lineBreak style (depth + 1) ++ (writeFields style (depth + 1) (field :: fields) ++
          (lineBreak style depth ++ '\x7d' :: rest))) := by
      simp [writeValue]
    have hlength : (writeFields style (depth + 1) (field :: fields)).length + 2 ≤
        (writeValue style depth (.object (field :: fields))).length := by
      simp [writeValue]
      omega
    have hread := readFields_writeFields hstyle (field :: fields) (depth + 1) fuel []
      (lineBreak style depth) rest nofun h.1 h.2 (by omega) (spaces_lineBreak style depth)
    obtain ⟨body, hbody⟩ := exists_writeFields style (depth + 1) field fields
      (lineBreak style depth ++ '\x7d' :: rest)
    rw [hbody] at hread
    rw [hwritten, hbody]
    exact readValue_object (spaces_lineBreak style _) hread

/-- Items are read back up to the closing bracket. -/
theorem readItems_writeItems (hstyle : style.Readable) : (items : List Value) →
    ∀ (depth fuel : Nat) (close rest : List Char), items ≠ [] → (∀ v ∈ items, v.Kept) →
      (writeItems style depth items).length + 1 < fuel → Spaces close →
      readItems fuel (writeItems style depth items ++ (close ++ ']' :: rest)) = .ok (items, rest)
  | [] => by
    intro _ _ _ _ h
    exact absurd rfl h
  | [v] => by
    intro depth fuel close rest _ h hfuel hclose
    obtain ⟨fuel, rfl⟩ := Nat.exists_eq_succ_of_ne_zero (Nat.ne_zero_of_lt hfuel)
    rw [writeItems] at hfuel ⊢
    exact readItems_last hclose (readValue_writeValue hstyle v depth fuel _ (h v List.mem_cons_self)
      (by omega) (stops_append hclose (stops_cons (.inr (.inl rfl)) rest)))
  | v :: w :: items => by
    intro depth fuel close rest _ h hfuel hclose
    obtain ⟨fuel, rfl⟩ := Nat.exists_eq_succ_of_ne_zero (Nat.ne_zero_of_lt hfuel)
    obtain ⟨space, hcomma, hspace⟩ := hstyle.comma
    obtain ⟨hv, hmore⟩ := List.forall_mem_cons.1 h
    have hwritten : writeItems style depth (v :: w :: items) ++ (close ++ ']' :: rest) =
        writeValue style depth v ++ ',' :: ((space ++ lineBreak style depth) ++
          (writeItems style depth (w :: items) ++ (close ++ ']' :: rest))) := by
      simp [writeItems, hcomma]
    have hlength : (writeValue style depth v).length + (writeItems style depth (w :: items)).length +
        1 ≤ (writeItems style depth (v :: w :: items)).length := by
      simp [writeItems, hcomma]
      omega
    have hpos := (starts_writeValue hstyle depth v hv).length_pos
    have hspaces : Spaces (space ++ lineBreak style depth) :=
      List.forall_mem_append.2 ⟨hspace, spaces_lineBreak style depth⟩
    rw [hwritten]
    exact readItems_cons hspaces
      ((starts_writeItems hstyle depth (hmore w List.mem_cons_self) items).append _)
      (readValue_writeValue hstyle v depth fuel _ hv (by omega) (stops_cons (.inl rfl) _))
      (readItems_writeItems hstyle (w :: items) depth fuel close rest nofun hmore (by omega) hclose)

/-- Fields with new names are read back up to the closing bracket, after those that are read
already. -/
theorem readFields_writeFields (hstyle : style.Readable) : (fields : List (String × Value)) →
    ∀ (depth fuel : Nat) (sofar : Fields Value) (close rest : List Char), fields ≠ [] →
      (Fields.names (sofar ++ fields)).Nodup → (∀ field ∈ fields, field.2.Kept) →
      (writeFields style depth fields).length + 1 < fuel → Spaces close →
      readFields fuel sofar (writeFields style depth fields ++ (close ++ '\x7d' :: rest)) =
        .ok (sofar ++ fields, rest)
  | [] => by
    intro _ _ _ _ _ h
    exact absurd rfl h
  | [(name, v)] => by
    intro depth fuel sofar close rest _ hnames h hfuel hclose
    obtain ⟨fuel, rfl⟩ := Nat.exists_eq_succ_of_ne_zero (Nat.ne_zero_of_lt hfuel)
    obtain ⟨space, hcolon, hspace⟩ := hstyle.colon
    have hv := h _ List.mem_cons_self
    have hwritten : writeFields style depth [(name, v)] ++ (close ++ '\x7d' :: rest) =
        writeString style name ++
          ':' :: (space ++ (writeValue style depth v ++ (close ++ '\x7d' :: rest))) := by
      simp [writeFields, hcolon]
    have hlength : (writeString style name).length + (writeValue style depth v).length + 1 ≤
        (writeFields style depth [(name, v)]).length := by
      simp only [writeFields, hcolon, List.length_append, List.length_cons]
      omega
    obtain ⟨body, hbody, hread⟩ := exists_writeString style name
      (':' :: (space ++ (writeValue style depth v ++ (close ++ '\x7d' :: rest))))
    rw [hwritten, hbody, ← Fields.set_of_not_mem (not_mem_of_nodup hnames)]
    exact readFields_last hspace ((starts_writeValue hstyle depth v hv).append _) hclose
      (hread (by omega)) (readValue_writeValue hstyle v depth fuel _ hv (by omega)
        (stops_append hclose (stops_cons (.inr (.inr rfl)) rest)))
  | (name, v) :: field :: fields => by
    intro depth fuel sofar close rest _ hnames h hfuel hclose
    obtain ⟨fuel, rfl⟩ := Nat.exists_eq_succ_of_ne_zero (Nat.ne_zero_of_lt hfuel)
    obtain ⟨space, hcolon, hspace⟩ := hstyle.colon
    obtain ⟨gap, hcomma, hgap⟩ := hstyle.comma
    obtain ⟨hv, hmore⟩ := List.forall_mem_cons.1 h
    have hgaps : Spaces (gap ++ lineBreak style depth) :=
      List.forall_mem_append.2 ⟨hgap, spaces_lineBreak style depth⟩
    have hlength : (writeString style name).length + (writeValue style depth v).length +
        (writeFields style depth (field :: fields)).length + 1 ≤
          (writeFields style depth ((name, v) :: field :: fields)).length := by
      simp [writeFields, hcolon, hcomma]
      omega
    have hpos := (starts_writeValue hstyle depth v hv).length_pos
    -- the fields after the comma come after the name that is read
    have hset := Fields.set_of_not_mem (not_mem_of_nodup hnames) v
    have hread := readFields_writeFields hstyle (field :: fields) depth fuel
      (Fields.set sofar name v) close rest nofun (by rw [hset]; simpa using hnames) hmore (by omega)
      hclose
    obtain ⟨more, hmoreWritten⟩ := exists_writeFields style depth field fields
      (close ++ '\x7d' :: rest)
    have hwritten : writeFields style depth ((name, v) :: field :: fields) ++
        (close ++ '\x7d' :: rest) = writeString style name ++ ':' :: (space ++
          (writeValue style depth v ++ ',' :: ((gap ++ lineBreak style depth) ++ '"' :: more))) := by
      rw [← hmoreWritten]
      simp [writeFields, hcolon, hcomma]
    obtain ⟨body, hbody, hname⟩ := exists_writeString style name (':' :: (space ++
      (writeValue style depth v ++ ',' :: ((gap ++ lineBreak style depth) ++ '"' :: more))))
    rw [hwritten, hbody]
    rw [hmoreWritten, hset, List.append_assoc] at hread
    refine readFields_cons hspace ((starts_writeValue hstyle depth v hv).append _) hgaps
      (hname (by omega)) (readValue_writeValue hstyle v depth fuel _ hv (by omega)
        (stops_cons (.inl rfl) _)) ?_
    rw [hset]
    exact hread

end

/-! ## Texts -/

/-- A value is read back from its text, with white space after it. -/
theorem parse_toJson_of_kept (hstyle : style.Readable) {v : Value} (h : v.Kept) {space : List Char}
    (hspace : Spaces space) :
    parse (v.toJson style ++ String.ofList space) = .ok v := by
  have hchars : (v.toJson style ++ String.ofList space).toList = writeValue style 0 v ++ space := by
    simp [Value.toJson]
  obtain ⟨c, t, hwritten, hc, _, hmark⟩ := starts_writeValue hstyle 0 v h
  have hstops : Stops space := by
    simpa using stops_append hspace stops_nil
  have hread := readValue_writeValue hstyle v 0 ((writeValue style 0 v ++ space).length + 1) space h
    (by rw [List.length_append]; omega) hstops
  have hrest : skipSpace space = [] := by
    simpa [skipSpace] using skipSpace_append hspace []
  have hskip : skipSpace (writeValue style 0 v ++ space) = writeValue style 0 v ++ space := by
    rw [hwritten, List.cons_append, skipSpace_cons hc]
  have hhead : (writeValue style 0 v ++ space).head? ≠ some '\ufeff' := by
    rw [hwritten]
    simpa using hmark
  unfold parse parseChars
  rw [hchars, if_neg hhead, hskip, hread]
  simp only
  rw [hrest]

/-- A plain value is read back from its text, with white space after it. -/
theorem parse_toJson (hstyle : style.Readable) {v : Value} (h : v.Plain) {space : List Char}
    (hspace : Spaces space) :
    parse (v.toJson style ++ String.ofList space) = .ok v :=
  parse_toJson_of_kept hstyle h.kept hspace

/-! ## Names of values that are read -/

/-- What succeeds in two steps succeeds in each of them. -/
theorem exists_of_bind_eq_ok {ε α β : Type} {x : Except ε α} {f : α → Except ε β} {b : β}
    (h : (x >>= f) = .ok b) : ∃ a, x = .ok a ∧ f a = .ok b := by
  cases x with
  | error e => cases h
  | ok a => exact ⟨a, rfl, h⟩

theorem distinct_of_readConstant? {s : List Char} {v : Value}
    (h : readConstant? s = some (v, rest)) : v.Distinct := by
  obtain ⟨entry, hentry, heq⟩ := Option.map_eq_some_iff.1 h
  cases heq
  have hall : ∀ entry ∈ constants, entry.2.Distinct := by
    simp [constants, Value.Distinct, Value.walk, Value.float]
  exact hall entry (List.mem_of_find?_eq_some hentry)

mutual

/-- No object of a value that is read gives a name twice. -/
theorem distinct_of_readValue : (fuel : Nat) → ∀ (s rest : List Char) (v : Value),
    readValue fuel s = .ok (v, rest) → v.Distinct
  | 0 => by
    intro s rest v h
    rw [readValue] at h
    cases h
  | fuel + 1 => by
    intro s rest v h
    rw [readValue.eq_def] at h
    simp only at h
    split at h
    · obtain ⟨⟨text, more⟩, _, heq⟩ := exists_of_bind_eq_ok h
      cases heq
      exact Value.plain_string text |>.distinct
    · split at h
      · cases h
        simp
      · obtain ⟨⟨items, more⟩, hitems, heq⟩ := exists_of_bind_eq_ok h
        cases heq
        exact Value.distinct_array_iff.2 (distinct_of_readItems fuel _ _ _ hitems)
    · split at h
      · cases h
        simp [Fields.names]
      · obtain ⟨⟨fields, more⟩, hfields, heq⟩ := exists_of_bind_eq_ok h
        cases heq
        exact distinct_of_readFields fuel _ _ _ _ (by simp [Fields.names]) hfields
    · split at h
      · cases h
        simp [Value.Distinct, Value.walk]
      · split at h
        · rename_i hconstant
          cases h
          exact distinct_of_readConstant? hconstant
        · cases h

theorem distinct_of_readItems : (fuel : Nat) → ∀ (s rest : List Char) (items : List Value),
    readItems fuel s = .ok (items, rest) → ∀ v ∈ items, v.Distinct
  | 0 => by
    intro s rest items h
    rw [readItems] at h
    cases h
  | fuel + 1 => by
    intro s rest items h
    rw [readItems] at h
    obtain ⟨⟨v, more⟩, hv, h⟩ := exists_of_bind_eq_ok h
    have hdistinct := distinct_of_readValue fuel _ _ _ hv
    simp only at h
    split at h
    · cases h
      exact List.forall_mem_singleton.2 hdistinct
    · obtain ⟨⟨others, last⟩, hothers, heq⟩ := exists_of_bind_eq_ok h
      cases heq
      exact List.forall_mem_cons.2 ⟨hdistinct, distinct_of_readItems fuel _ _ _ hothers⟩
    · cases h

theorem distinct_of_readFields : (fuel : Nat) → ∀ (s rest : List Char) (sofar fields : Fields Value),
    (Value.object sofar).Distinct → readFields fuel sofar s = .ok (fields, rest) →
      (Value.object fields).Distinct
  | 0 => by
    intro s rest sofar fields _ h
    rw [readFields] at h
    cases h
  | fuel + 1 => by
    intro s rest sofar fields hsofar h
    rw [readFields.eq_def] at h
    simp only at h
    split at h
    · obtain ⟨⟨name, more⟩, _, h⟩ := exists_of_bind_eq_ok h
      simp only at h
      split at h
      · obtain ⟨⟨v, more⟩, hv, h⟩ := exists_of_bind_eq_ok h
        have hset := Value.distinct_set hsofar (distinct_of_readValue fuel _ _ _ hv) name
        simp only at h
        split at h
        · cases h
          exact hset
        · exact distinct_of_readFields fuel _ _ _ _ hset h
        · cases h
      · cases h
    · cases h

end

/-- No object of a value that is read from a text gives a name twice. -/
theorem distinct_of_parse {text : String} {v : Value} (h : parse text = .ok v) : v.Distinct := by
  unfold parse parseChars at h
  split at h
  · rename_i w hw
    cases h
    split at hw
    · cases hw
    · split at hw
      · cases hw
      · rename_i hread
        split at hw
        · cases hw
          exact distinct_of_readValue _ _ _ _ hread
        · cases hw
  · cases h

end Json
end Workflow
