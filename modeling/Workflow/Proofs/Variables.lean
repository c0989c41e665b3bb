import Mathlib.Data.List.Induction
import Mathlib.Data.List.Nodup
import Workflow.Proofs.Fields
import Workflow.Proofs.Path.Child
import Workflow.Variables.Basic

/-!
# Variables that are bound

Every declared variable is checked against its own declaration. What is wrong is remembered under a
key, and a key is the name of a declaration as well as that of a position: if the name of a
declaration is the key of a later position, its problem is taken for one of the later declaration.

* `Variable.Admits` says which values a declaration admits, and `Variable.Wrong` what is wrong with
  what it is given.
* `Variables.Answers` says which declaration a problem is taken for.
* `Variables.Binds` says what is bound and what is remembered of declarations, and
  `Variables.binds_bind` that this is so if no two of them have one name.
-/

namespace Workflow

/-! ## Admitted values -/

namespace Variable

/-- The value is one of the declared type. -/
def HasType (declared : Variable) (value : Value) : Prop :=
  match declared.type with
  | .string => ∃ s, value = .string s
  | .number => ∃ n, value = .number n
  | .boolean => ∃ b, value = .bool b
  | .enumeration => ∃ s ∈ declared.options, value = .string s
  | .url => ∃ s, value = .string s ∧ Url.check s = .ok ()
  | .json => True

/-- A declaration admits the values of its type, and the absent value if none is required. -/
def Admits (declared : Variable) (value : Value) : Prop :=
  declared.HasType value ∨ (value = .null ∧ declared.required = false)

/-- What a variable is given, if anything, is not what its declaration asks for. -/
def Wrong (declared : Variable) : Option Value → Prop
  | none => declared.required = true
  | some value => ¬ declared.Admits value

end Variable

namespace Variables

variable {declared l : List Variable} {V W d : Variable} {supplied data : Fields Value}
  {keys : Fields Variable} {problems : Fields String} {name text : String} {i j : Nat}

theorem typeProblem_eq_none_iff {value : Value} :
    typeProblem V value = none ↔ V.HasType value := by
  unfold typeProblem Variable.HasType
  cases htype : V.type <;> cases value <;> simp
  -- a text that is to be a URL
  split <;> simp_all

theorem problem?_eq_none_iff {given : Option Value} :
    problem? V given = none ↔ ¬ V.Wrong given := by
  cases given with
  | none =>
    rw [problem?, Variable.Wrong]
    cases V.required <;> simp
  | some value =>
    rw [problem?, Variable.Wrong, not_not, Variable.Admits, ← typeProblem_eq_none_iff]
    cases V.required <;> cases value <;> simp [Value.isNull]

/-! ## Keys -/

/-- A position can be read off its key. -/
theorem positionKey_inj (h : positionKey i = positionKey j) : i = j := by
  have hlist (k : Nat) : (positionKey k).toList = 'v' :: Nat.toDigits 10 k := by
    simp only [positionKey, String.toList_append, Nat.toString_eq_repr, Nat.toList_repr]
    rfl
  have hsame := congrArg String.toList h
  rw [hlist, hlist] at hsame
  exact toDigits_inj (List.cons.inj hsame).2

/-- What is wrong with the declaration at the first position is taken for a problem of the one at the
second: of a later one whose key is the name of the first, if there is one. -/
def Answers (declared : List Variable) (i j : Nat) : Prop :=
  (j = i ∧ ∀ k V, i < k → k < declared.length → declared[i]? = some V →
    V.name ≠ positionKey k) ∨
  (i < j ∧ ∃ V, declared[i]? = some V ∧ V.name = positionKey j)

theorem keyed_concat (l : List Variable) (d : Variable) : keyed (l ++ [d]) =
    Fields.set (Fields.set (keyed l) d.name d) (positionKey l.length) d := by
  rw [keyed, List.zipIdx_append, List.foldl_append]
  simp only [List.zipIdx_cons, List.zipIdx_nil, Nat.zero_add]
  rfl

/-- Under the name of a declaration the one is found that answers for it. -/
theorem get?_keyed (hnames : (declared.map Variable.name).Nodup) (hV : declared[i]? = some V) :
    ∃ j W, declared[j]? = some W ∧ Answers declared i j ∧
      Fields.get? (keyed declared) V.name = some W := by
  induction declared using List.reverseRecOn generalizing i V with
  | nil => cases hV
  | append_singleton l d ih =>
    rw [List.map_append, List.nodup_append] at hnames
    obtain ⟨hnames, -, hdisjoint⟩ := hnames
    have hlast : (l ++ [d])[l.length]? = some d := by simp
    rw [keyed_concat]
    by_cases hi : i < l.length
    · rw [List.getElem?_append_left hi] at hV
      have hne : d.name ≠ V.name := fun heq =>
        hdisjoint V.name (List.mem_map_of_mem (List.mem_of_getElem? hV)) d.name (by simp) heq.symm
      by_cases hkey : positionKey l.length = V.name
      · refine ⟨l.length, d, hlast, .inr ⟨hi, V, ?_, hkey.symm⟩, ?_⟩
        · rw [List.getElem?_append_left hi, hV]
        · rw [Fields.get?_set, if_pos hkey]
      · obtain ⟨j, W, hW, hanswers, hget⟩ := ih hnames hV
        have hj := (List.getElem?_eq_some_iff.1 hW).1
        refine ⟨j, W, by rw [List.getElem?_append_left hj, hW], ?_, ?_⟩
        · rcases hanswers with ⟨rfl, hnone⟩ | ⟨hij, V', hV', hname⟩
          · refine .inl ⟨rfl, fun k V' hk hlt hV' => ?_⟩
            rw [List.getElem?_append_left hi] at hV'
            rw [List.length_append, List.length_singleton] at hlt
            rcases Nat.lt_succ_iff_lt_or_eq.1 hlt with hlt | rfl
            · exact hnone k V' hk hlt hV'
            · rw [hV, Option.some.injEq] at hV'
              exact hV' ▸ Ne.symm hkey
          · exact .inr ⟨hij, V', by rw [List.getElem?_append_left hi, hV'], hname⟩
        · rw [Fields.get?_set_of_ne _ _ hkey, Fields.get?_set_of_ne _ _ hne, hget]
    · -- the last declaration answers for itself
      have hlt := (List.getElem?_eq_some_iff.1 hV).1
      rw [List.length_append, List.length_singleton] at hlt
      have heq : i = l.length := Nat.le_antisymm (Nat.lt_succ_iff.1 hlt) (Nat.le_of_not_lt hi)
      subst heq
      rw [hlast, Option.some.injEq] at hV
      subst hV
      refine ⟨l.length, d, hlast, .inl ⟨rfl, fun k V' hk hlt' => ?_⟩, ?_⟩
      · rw [List.length_append, List.length_singleton] at hlt'
        omega
      · rw [Fields.get?_set, Fields.get?_set_self, ite_self]

/-! ## Problems -/

/-- The check of a declaration finds a problem that is remembered under the name with the text. -/
def Blames (keys : Fields Variable) (data : Fields Value) (checked : Variable)
    (name text : String) : Prop :=
  ∃ problem owner, problem? checked (Fields.get? data checked.name) = some problem ∧
    Fields.get? keys checked.name = some owner ∧ owner.name = name ∧
      text = problemText owner problem

/-- The problems after one more declaration has been checked. -/
def remember (keys : Fields Variable) (data : Fields Value) (problems : Fields String)
    (checked : Variable) : Fields String :=
  match problem? checked (Fields.get? data checked.name) with
  | none => problems
  | some problem =>
    match Fields.get? keys checked.name with
    | none => problems
    | some owner =>
      if Fields.has problems owner.name then problems
      else Fields.set problems owner.name (problemText owner problem)

theorem findProblems_eq (declared : List Variable) (data : Fields Value) :
    findProblems declared data = declared.foldl (remember (keyed declared) data) [] :=
  rfl

/-- A problem is remembered under a name that had none before if the check finds it. -/
theorem get?_remember (checked : Variable) :
    Fields.get? (remember keys data problems checked) name = some text ↔
      Fields.get? problems name = some text ∨
        (Fields.get? problems name = none ∧ Blames keys data checked name text) := by
  have hnone : ¬ Blames keys data checked name text →
      (Fields.get? problems name = some text ↔ Fields.get? problems name = some text ∨
        (Fields.get? problems name = none ∧ Blames keys data checked name text)) := by
    intro hnot
    simp only [hnot, and_false, or_false]
  unfold remember
  split
  · rename_i hproblem
    refine hnone ?_
    rintro ⟨problem, owner, hsome, _⟩
    rw [hproblem] at hsome
    cases hsome
  · rename_i problem hproblem
    split
    · rename_i howner
      refine hnone ?_
      rintro ⟨_, owner, _, hsome, _⟩
      rw [howner] at hsome
      cases hsome
    · rename_i owner howner
      have hblames : Blames keys data checked name text ↔
          owner.name = name ∧ text = problemText owner problem := by
        constructor
        · rintro ⟨problem', owner', hproblem', howner', hname, htext⟩
          rw [hproblem, Option.some.injEq] at hproblem'
          rw [howner, Option.some.injEq] at howner'
          subst hproblem' howner'
          exact ⟨hname, htext⟩
        · rintro ⟨hname, htext⟩
          exact ⟨problem, owner, hproblem, howner, hname, htext⟩
      rw [hblames]
      by_cases hname : owner.name = name
      · subst hname
        cases hget : Fields.get? problems owner.name with
        | none => simp [Fields.has, hget, eq_comm]
        | some old => simp [Fields.has, hget]
      · simp only [hname, false_and, and_false, or_false]
        split
        · rfl
        · rw [Fields.get?_set_of_ne _ _ hname]

/-- A name has a problem if and only if some check finds one for it, and the text is that of such a
check. -/
theorem get?_foldl_remember (l : List Variable) (problems : Fields String) :
    (∀ text, Fields.get? (l.foldl (remember keys data) problems) name = some text →
      Fields.get? problems name = some text ∨ ∃ checked ∈ l, Blames keys data checked name text) ∧
    ((Fields.get? problems name).isSome ∨
        (∃ checked ∈ l, ∃ text, Blames keys data checked name text) →
      (Fields.get? (l.foldl (remember keys data) problems) name).isSome) := by
  induction l generalizing problems with
  | nil => simp
  | cons first l ih =>
    obtain ⟨hfound, hsome⟩ := ih (remember keys data problems first)
    rw [List.foldl_cons]
    constructor
    · intro text htext
      rcases hfound text htext with hget | ⟨checked, hmem, hblames⟩
      · rcases (get?_remember first).1 hget with hold | ⟨_, hblames⟩
        · exact .inl hold
        · exact .inr ⟨first, List.mem_cons_self, hblames⟩
      · exact .inr ⟨checked, List.mem_cons_of_mem _ hmem, hblames⟩
    · intro hcause
      refine hsome ?_
      cases hget : Fields.get? problems name with
      | some old =>
        exact .inl (Option.isSome_iff_exists.2 ⟨old, (get?_remember first).2 (.inl hget)⟩)
      | none =>
        rcases hcause with hold | ⟨checked, hmem, text, hblames⟩
        · rw [hget] at hold
          cases hold
        · rcases List.mem_cons.1 hmem with rfl | hmem
          · exact .inl (Option.isSome_iff_exists.2
              ⟨text, (get?_remember checked).2 (.inr ⟨hget, hblames⟩)⟩)
          · exact .inr ⟨checked, hmem, text, hblames⟩

/-! ## What variables are given -/

/-- A name that is not declared is given nothing. -/
theorem get?_givenData_of_forall_ne (h : ∀ V ∈ declared, V.name ≠ name) :
    Fields.get? (givenData supplied declared) name = none := by
  unfold givenData
  refine List.foldlRecOn (motive := fun data => Fields.get? data name = none) _ _ rfl ?_
  intro data hdata V hV
  split
  · rw [Fields.get?_set_of_ne _ _ (h V hV), hdata]
  · exact hdata

/-- Every declared variable has what it is given. -/
theorem get?_givenData (hnames : (declared.map Variable.name).Nodup) (hV : V ∈ declared) :
    Fields.get? (givenData supplied declared) V.name = given supplied V := by
  induction declared using List.reverseRecOn with
  | nil => cases hV
  | append_singleton l d ih =>
    rw [List.map_append, List.nodup_append] at hnames
    obtain ⟨hnames, -, hdisjoint⟩ := hnames
    rw [givenData, List.foldl_append, List.foldl_cons, List.foldl_nil,
      show List.foldl _ [] l = givenData supplied l from rfl]
    rcases List.mem_append.1 hV with hmem | hmem
    · have hne : d.name ≠ V.name := fun heq =>
        hdisjoint V.name (List.mem_map_of_mem hmem) d.name (by simp) heq.symm
      split
      · rw [Fields.get?_set_of_ne _ _ hne, ih hnames hmem]
      · exact ih hnames hmem
    · rw [List.mem_singleton] at hmem
      subst hmem
      split
      · rename_i value hgiven
        rw [Fields.get?_set_self, hgiven]
      · rename_i hgiven
        rw [hgiven]
        exact get?_givenData_of_forall_ne fun d hd heq =>
          hdisjoint d.name (List.mem_map_of_mem hd) V.name (by simp) heq

/-! ## Binding -/

/-- One declaration answers for another one at most. -/
theorem Answers.unique {k : Nat} (h : Answers declared i j) (h' : Answers declared i k)
    (hj : j < declared.length) (hk : k < declared.length) : j = k := by
  rcases h with ⟨rfl, hnone⟩ | ⟨hij, V, hV, hname⟩
  · rcases h' with ⟨rfl, _⟩ | ⟨hik, V, hV, hname⟩
    · rfl
    · exact absurd hname (hnone k V hik hk hV)
  · rcases h' with ⟨rfl, hnone⟩ | ⟨_, V', hV', hname'⟩
    · exact absurd hname (hnone j V hij hj hV)
    · rw [hV, Option.some.injEq] at hV'
      subst hV'
      exact positionKey_inj (hname.symm.trans hname')

/-- Declared variables of one name stand at one position. -/
theorem position_inj (hnames : (declared.map Variable.name).Nodup) (hV : declared[i]? = some V)
    (hW : declared[j]? = some W) (hname : V.name = W.name) : i = j := by
  have hi : i < (declared.map Variable.name).length := by
    rw [List.length_map]
    exact (List.getElem?_eq_some_iff.1 hV).1
  refine (List.getElem?_inj hi hnames).1 ?_
  rw [List.getElem?_map, List.getElem?_map, hV, hW]
  exact congrArg some hname

/-- A declared variable has a problem if and only if a variable that it answers for is given something
wrong. -/
theorem has_problems_iff (hnames : (declared.map Variable.name).Nodup)
    (hW : declared[j]? = some W) : Fields.has (bind declared supplied).problems W.name ↔
      ∃ i V, declared[i]? = some V ∧ Answers declared i j ∧ V.Wrong (given supplied V) := by
  have hwrong {V : Variable} (hV : V ∈ declared) :
      problem? V (Fields.get? (givenData supplied declared) V.name) = none ↔
        ¬ V.Wrong (given supplied V) := by
    rw [get?_givenData hnames hV, problem?_eq_none_iff]
  change (Fields.get? (findProblems declared (givenData supplied declared)) W.name).isSome ↔ _
  rw [findProblems_eq]
  obtain ⟨hfound, hsome⟩ : (∀ text, Fields.get? (declared.foldl (remember (keyed declared)
        (givenData supplied declared)) []) W.name = some text → _) ∧ _ :=
    get?_foldl_remember declared []
  constructor
  · intro hhas
    obtain ⟨text, htext⟩ := Option.isSome_iff_exists.1 hhas
    rcases hfound text htext with hnil | ⟨V, hmem, problem, owner, hproblem, howner, hname, _⟩
    · cases hnil
    · obtain ⟨i, hi⟩ := List.getElem?_of_mem hmem
      obtain ⟨k, W', hW', hanswers, hget⟩ := get?_keyed hnames hi
      rw [hget, Option.some.injEq] at howner
      subst howner
      have hkj : k = j := position_inj hnames hW' hW hname
      subst hkj
      refine ⟨i, V, hi, hanswers, ?_⟩
      by_contra hnot
      rw [(hwrong hmem).2 hnot] at hproblem
      cases hproblem
  · rintro ⟨i, V, hV, hanswers, hbad⟩
    have hmem := List.mem_of_getElem? hV
    obtain ⟨k, W', hW', hanswers', hget⟩ := get?_keyed hnames hV
    have hkj : k = j := hanswers'.unique hanswers (List.getElem?_eq_some_iff.1 hW').1
      (List.getElem?_eq_some_iff.1 hW).1
    subst hkj
    rw [hW, Option.some.injEq] at hW'
    subst hW'
    obtain ⟨problem, hproblem⟩ := Option.ne_none_iff_exists'.1 fun hnone =>
      (hwrong hmem).1 hnone hbad
    exact hsome (.inr ⟨V, hmem, problemText W problem, problem, W, hproblem, hget, rfl, rfl⟩)

/-- Other declarations do not touch what a name holds. -/
theorem get?_foldl_set_of_ne (p : Variable → Bool) (content : Variable → Value)
    (l : List Variable) (values : Fields Value) (h : ∀ d ∈ l, d.name ≠ name) :
    Fields.get? (l.foldl (fun values d =>
      if p d then values else Fields.set values d.name (content d)) values) name =
        Fields.get? values name := by
  induction l generalizing values with
  | nil => rfl
  | cons first rest ih =>
    rw [List.foldl_cons, ih _ fun d hd => h d (List.mem_cons_of_mem _ hd)]
    split
    · rfl
    · rw [Fields.get?_set_of_ne _ _ (h first List.mem_cons_self)]

/-- Only the declaration itself touches what its name holds. -/
theorem get?_foldl_set {p : Variable → Bool} {content : Variable → Value} {values : Fields Value}
    (hnames : (l.map Variable.name).Nodup) (hV : V ∈ l) (hnone : Fields.get? values V.name = none) :
    Fields.get? (l.foldl (fun values d =>
      if p d then values else Fields.set values d.name (content d)) values) V.name =
        if p V then none else some (content V) := by
  obtain ⟨before, after, rfl⟩ := List.append_of_mem hV
  rw [List.map_append, List.map_cons, List.nodup_append, List.nodup_cons] at hnames
  obtain ⟨-, ⟨hafter, -⟩, hdisjoint⟩ := hnames
  have hbefore : Fields.get? (before.foldl (fun values d =>
      if p d then values else Fields.set values d.name (content d)) values) V.name = none := by
    rw [get?_foldl_set_of_ne _ _ before _ fun d hd heq =>
      hdisjoint d.name (List.mem_map_of_mem hd) V.name List.mem_cons_self heq, hnone]
  have hne : ∀ d ∈ after, d.name ≠ V.name := by
    intro d hd heq
    exact hafter (heq ▸ List.mem_map_of_mem hd)
  rw [List.foldl_append, List.foldl_cons, get?_foldl_set_of_ne _ _ after _ hne]
  split
  · exact hbefore
  · rw [Fields.get?_set_self]

/-- A declared variable has the value that it is given, or the absent one, unless it has a problem. -/
theorem get?_values (hnames : (declared.map Variable.name).Nodup) (hV : V ∈ declared) :
    Fields.get? (bind declared supplied).values V.name =
      if Fields.has (bind declared supplied).problems V.name then none
      else some ((given supplied V).getD .null) := by
  have hpassed : Fields.get? (supplied.filter fun entry =>
      !Fields.has (keyed declared) entry.1) V.name = none := by
    obtain ⟨i, hi⟩ := List.getElem?_of_mem hV
    obtain ⟨_, _, _, _, hget⟩ := get?_keyed hnames hi
    rw [Fields.get?_filter supplied fun name => !Fields.has (keyed declared) name, Fields.has, hget]
    rfl
  rw [← get?_givenData hnames hV]
  exact get?_foldl_set hnames hV hpassed

/-- The problem that is remembered of a declaration that answers for itself alone is its own. -/
theorem get?_problems (hnames : (declared.map Variable.name).Nodup)
    (hV : declared[i]? = some V) (hown : ∀ k, k < declared.length → Answers declared k i → k = i)
    (hget : Fields.get? (bind declared supplied).problems V.name = some text) :
    ∃ problem, problem? V (given supplied V) = some problem ∧ text = problemText V problem := by
  change Fields.get? (findProblems declared (givenData supplied declared)) V.name = some text
    at hget
  rw [findProblems_eq] at hget
  rcases (get?_foldl_remember declared []).1 text hget with
    hnil | ⟨checked, hmem, problem, owner, hproblem, howner, hname, rfl⟩
  · cases hnil
  obtain ⟨k, hk⟩ := List.getElem?_of_mem hmem
  obtain ⟨j, W, hW, hanswers, howner'⟩ := get?_keyed hnames hk
  rw [howner', Option.some.injEq] at howner
  subst howner
  have hji : j = i := position_inj hnames hW hV hname
  subst hji
  have hkj := hown k (List.getElem?_eq_some_iff.1 hk).1 hanswers
  subst hkj
  rw [hV, Option.some.injEq] at hW hk
  subst hW hk
  rw [get?_givenData hnames (List.mem_of_getElem? hV)] at hproblem
  exact ⟨problem, hproblem, rfl⟩

/-- No declaration has a name that is the key of a later position. -/
def OwnKeys (declared : List Variable) : Prop :=
  ∀ i k V, declared[i]? = some V → i < k → k < declared.length → V.name ≠ positionKey k

/-- If no name is the key of a later position, every declaration answers for itself. -/
theorem OwnKeys.answers_iff (h : OwnKeys declared) (hj : j < declared.length) :
    Answers declared i j ↔ j = i := by
  constructor
  · rintro (⟨rfl, _⟩ | ⟨hij, V, hV, hname⟩)
    · rfl
    · exact absurd hname (h i j V hV hij hj)
  · rintro rfl
    exact .inl ⟨rfl, fun k V hk hlt hV => h j k V hV hk hlt⟩

/-- What is bound of a declared variable, and what its lookup gives. -/
structure Bound (supplied : Fields Value) (V : Variable) (v : Variables) : Prop where
  /-- There is a problem if and only if what the variable is given is wrong. -/
  problem_iff : Fields.has v.problems V.name ↔ V.Wrong (given supplied V)
  /-- The lookup fails with the variable's own problem, or gives a value that it admits. -/
  lookup : ∀ input,
    (∃ problem, problem? V (given supplied V) = some problem ∧
      v.lookup V.name input = .error ⟨input, .badVariable V.name (problemText V problem)⟩) ∨
    ∃ value, v.lookup V.name input = .ok value ∧ V.Admits value

/-- What is bound of declarations, and what is wrong with them. -/
structure Binds (declared : List Variable) (supplied : Fields Value) (v : Variables) : Prop where
  /-- A declaration has a problem if one that it answers for is given something wrong. -/
  problem_iff : ∀ j W, declared[j]? = some W → (Fields.has v.problems W.name ↔
    ∃ i V, declared[i]? = some V ∧ Answers declared i j ∧ V.Wrong (given supplied V))
  /-- Either a variable has a problem, or it has what it is given; the absent value if nothing. -/
  value : ∀ V ∈ declared, Fields.get? v.values V.name =
    if Fields.has v.problems V.name then none else some ((given supplied V).getD .null)
  /-- Declarations that answer for themselves are bound on their own. -/
  bound : OwnKeys declared → ∀ V ∈ declared, Bound supplied V v

/-- Declarations with distinct names are bound like this, whatever is supplied. -/
theorem binds_bind (declared : List Variable) (supplied : Fields Value)
    (hnames : (declared.map Variable.name).Nodup) :
    Binds declared supplied (bind declared supplied) := by
  refine ⟨fun j W hW => has_problems_iff hnames hW, fun V hV => get?_values hnames hV,
    fun hown V hV => ?_⟩
  obtain ⟨i, hi⟩ := List.getElem?_of_mem hV
  have hlt := (List.getElem?_eq_some_iff.1 hi).1
  have hiff : Fields.has (bind declared supplied).problems V.name ↔ V.Wrong (given supplied V) := by
    rw [has_problems_iff hnames hi]
    constructor
    · rintro ⟨k, W, hW, hanswers, hwrong⟩
      have hik := (hown.answers_iff hlt).1 hanswers
      subst hik
      rw [hi, Option.some.injEq] at hW
      exact hW ▸ hwrong
    · intro hwrong
      exact ⟨i, V, hi, (hown.answers_iff hlt).2 rfl, hwrong⟩
  refine ⟨hiff, fun input => ?_⟩
  rw [lookup]
  cases hget : Fields.get? (bind declared supplied).problems V.name with
  | some text =>
    obtain ⟨problem, hproblem, rfl⟩ := get?_problems hnames hi
      (fun k _ hanswers => ((hown.answers_iff hlt).1 hanswers).symm) hget
    exact .inl ⟨problem, hproblem, rfl⟩
  | none =>
    have hhas : ¬ Fields.has (bind declared supplied).problems V.name := by
      rw [Fields.has, hget]
      exact Bool.false_ne_true
    have hright : ¬ V.Wrong (given supplied V) := fun hwrong => hhas (hiff.2 hwrong)
    rw [get?_values hnames hV, if_neg hhas]
    refine .inr ⟨_, rfl, ?_⟩
    cases hgiven : given supplied V with
    | some value =>
      rw [hgiven, Variable.Wrong, not_not] at hright
      exact hright
    | none =>
      rw [hgiven, Variable.Wrong, Bool.not_eq_true] at hright
      exact .inr ⟨rfl, hright⟩

/-- Two declarations, of which the name of the first is the key of the second, are bound so. -/
theorem binds_bind_keys : Binds [{ name := "v1" }, { name := "count", type := .number }]
    [("v1", .int 5), ("count", .int 3)]
    (bind [{ name := "v1" }, { name := "count", type := .number }]
      [("v1", .int 5), ("count", .int 3)]) :=
  binds_bind _ _ (by decide)

end Variables
end Workflow
