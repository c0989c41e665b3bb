import Workflow.Path.Basic
import Workflow.Run.Live

/-!
# Paths of children

A path tells the path of the node above and the position of the child: a point stands before every
segment and in none of those that lead to children.
-/

namespace Workflow

/-! ## Texts cut at their last point -/

theorem append_cons_inj {c : Char} {l l' r r' : List Char} (hr : c ∉ r) (hr' : c ∉ r')
    (h : l ++ c :: r = l' ++ c :: r') : l = l' ∧ r = r' := by
  rcases List.append_eq_append_iff.1 h with ⟨m, hl, hm⟩ | ⟨m, hl, hm⟩
  · cases m with
    | nil => simpa [hl] using hm
    | cons d m =>
      rw [List.cons_append, List.cons.injEq] at hm
      exact absurd (by rw [hm.2]; simp) hr
  · cases m with
    | nil => simpa [hl] using hm.symm
    | cons d m =>
      rw [List.cons_append, List.cons.injEq] at hm
      exact absurd (by rw [hm.2]; simp) hr'

/-- The digits of a number tell it. -/
theorem toDigits_inj {i j : Nat} (h : Nat.toDigits 10 i = Nat.toDigits 10 j) : i = j := by
  rw [← Nat.ofDigitChars_ten_toDigits (n := i), h, Nat.ofDigitChars_ten_toDigits]

theorem point_not_mem_toDigits (i : Nat) : '.' ∉ Nat.toDigits 10 i := by
  intro hmem
  have hdigit := Nat.isDigit_of_mem_toDigits (by decide) (by decide) hmem
  revert hdigit
  decide

namespace Live

/-! ## Segments that lead to children -/

theorem chars_kidSegment (work : Work) (i : Nat) :
    (kidSegment work i).chars =
      match work with
      | .branch _ cases =>
        if i < cases.length then "input".toList ++ '[' :: Nat.toDigits 10 i ++ [']']
        else "default".toList
      | .loop .. => "item".toList ++ '[' :: Nat.toDigits 10 i ++ [']']
      | _ => "input".toList ++ '[' :: Nat.toDigits 10 i ++ [']'] := by
  have hdigits : (toString (i : Int)).toList = Nat.toDigits 10 i := Nat.toList_repr
  cases work with
  | branch condition cases =>
    simp only [kidSegment]
    split
    · rw [← hdigits]
      rfl
    · rfl
  | _ => simp only [← hdigits]; rfl

/-- No point stands in a segment that leads to a child. -/
theorem point_not_mem_kidSegment (work : Work) (i : Nat) : '.' ∉ (kidSegment work i).chars := by
  have hindex := point_not_mem_toDigits i
  rw [chars_kidSegment]
  cases work with
  | branch condition cases =>
    simp only
    split
    · simp [hindex]
    · simp
  | _ => simp [hindex]

/-- The segment tells the position, as far as the node has children. -/
theorem kidSegment_inj {work : Work} {i j : Nat}
    (hbranch : ∀ condition cases, work = .branch condition cases →
      i ≤ cases.length ∧ j ≤ cases.length)
    (h : (kidSegment work i).chars = (kidSegment work j).chars) : i = j := by
  have hindex (field : String)
      (h : field.toList ++ '[' :: Nat.toDigits 10 i ++ [']'] =
        field.toList ++ '[' :: Nat.toDigits 10 j ++ [']']) : i = j :=
    toDigits_inj (by simpa using h)
  rw [chars_kidSegment, chars_kidSegment] at h
  cases work with
  | branch condition cases =>
    obtain ⟨hi, hj⟩ := hbranch condition cases rfl
    simp only at h
    split at h
    · split at h
      · exact hindex _ h
      · simp at h
    · split at h
      · simp at h
      · omega
  | _ => exact hindex _ h

end Live

namespace Path

theorem toList_child (parent : String) (segment : Segment) :
    (child parent segment).toList = parent.toList ++ '.' :: segment.chars := by
  rw [child, Segment.text]
  simp

/-- A path of a child tells the path of the node above and the segment. -/
theorem child_inj {parent parent' : String} {work work' : Work} {i j : Nat}
    (h : child parent (Live.kidSegment work i) = child parent' (Live.kidSegment work' j)) :
    parent = parent' ∧ (Live.kidSegment work i).chars = (Live.kidSegment work' j).chars := by
  have hlist := congrArg String.toList h
  rw [toList_child, toList_child] at hlist
  obtain ⟨hparent, hsegment⟩ := append_cons_inj (Live.point_not_mem_kidSegment work i)
    (Live.point_not_mem_kidSegment work' j) hlist
  exact ⟨String.toList_injective hparent, hsegment⟩

/-- The path of a child is not that of the root. -/
theorem child_ne_root (parent : String) (segment : Segment) : child parent segment ≠ root := by
  intro h
  have hlist := congrArg String.toList h
  rw [toList_child] at hlist
  have hmem : '.' ∈ root.toList := by
    rw [← hlist]
    simp
  revert hmem
  decide

end Path
end Workflow
