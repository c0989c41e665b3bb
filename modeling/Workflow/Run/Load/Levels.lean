/-!
# Levels

A quantity that is kept on several levels shrinks if it becomes smaller on one level and larger on
no higher one, whatever happens on the levels below.

* `Levels.Below` is that order.
* `Levels.acc_of_bounded` says that a quantity with finitely many levels cannot shrink forever.
-/

namespace Workflow

/-- A number for every level. -/
abbrev Levels := Nat → Nat

namespace Levels

/-- A level above the level 0 is the level 1, or lies above that. -/
theorem eq_one_or_add_two {k : Nat} (hk : 0 < k) : k = 1 ∨ ∃ j, k = j + 2 := by
  by_cases h : k = 1
  · exact .inl h
  · exact .inr ⟨k - 2, by omega⟩

/-- Smaller on the level `m`, and larger on no higher one. -/
def DropsAt (m : Nat) (f g : Levels) : Prop :=
  f m < g m ∧ ∀ k, m < k → f k ≤ g k

/-- Smaller on some level, and larger on no higher one. -/
def Below (f g : Levels) : Prop :=
  ∃ m, DropsAt m f g

/-- There is nothing on the level `n` and above. -/
def Bounded (n : Nat) (f : Levels) : Prop :=
  ∀ k, n ≤ k → f k = 0

/-- The levels below `n` alone. -/
def cut (n : Nat) (f : Levels) : Levels :=
  fun k => if k < n then f k else 0

theorem bounded_cut (n : Nat) (f : Levels) : Bounded n (cut n f) := by
  intro k hk
  simp [cut, Nat.not_lt.2 hk]

/-- What lies below is bounded by the same level. -/
theorem Below.bounded {n : Nat} {f g : Levels} (h : Below f g) (hg : Bounded n g) :
    Bounded n f := by
  obtain ⟨m, hm, above⟩ := h
  intro k hk
  have : m < n := by
    refine Nat.lt_of_not_le fun hn => ?_
    have := hg m hn
    omega
  have := above k (by omega)
  have := hg k hk
  omega

/-- If all below the level `n` is accessible once the level is cut off, then so is `f`: the number
on the level `n` can only become smaller. -/
theorem acc_succ {n : Nat} (cutAcc : ∀ f, Bounded n f → Acc Below f) (v : Nat) :
    ∀ f, Bounded (n + 1) f → f n = v → Acc Below f := by
  induction v using Nat.strongRecOn with
  | ind v lower =>
    suffices h : ∀ c, Acc Below c → ∀ f, cut n f = c → Bounded (n + 1) f → f n = v →
        Acc Below f from
      fun f => h (cut n f) (cutAcc _ (bounded_cut n f)) f rfl
    intro c hc
    induction hc with
    | intro c _ ih =>
      intro f hcut hf hv
      refine Acc.intro f fun g hgf => ?_
      have hg := hgf.bounded hf
      obtain ⟨m, drop, above⟩ := hgf
      have hm : m ≤ n := by
        refine Nat.le_of_not_lt fun hn => ?_
        have := hf m hn
        omega
      have hn : g n ≤ f n := by
        by_cases h : m = n
        · subst h; omega
        · exact above n (by omega)
      by_cases h : g n < v
      · exact lower (g n) h g hg rfl
      · have hmn : m < n := by
          refine Nat.lt_of_le_of_ne hm fun h => ?_
          subst h; omega
        refine ih (cut n g) ?_ g rfl hg (by omega)
        refine ⟨m, ?_, fun k hk => ?_⟩
        · rw [← hcut]; simpa [cut, hmn] using drop
        · rw [← hcut]
          by_cases hkn : k < n
          · simpa [cut, hkn] using above k hk
          · simp [cut, hkn]

/-- A quantity with finitely many levels cannot shrink forever. -/
theorem acc_of_bounded (n : Nat) : ∀ f, Bounded n f → Acc Below f := by
  induction n with
  | zero =>
    refine fun f hf => Acc.intro f fun g ⟨m, drop, _⟩ => ?_
    have := hf m (Nat.zero_le m)
    omega
  | succ n ih => exact fun f hf => acc_succ ih (f n) f hf rfl

/-! ## Changes one after the other -/

/-- Smaller on some level and larger on no higher one, or larger on no level at all. -/
def BelowOrEq (f g : Levels) : Prop :=
  Below f g ∨ ∀ k, f k ≤ g k

/-- What is nowhere larger than something below lies below. -/
theorem Below.of_le_left {f g h : Levels} (hle : ∀ k, f k ≤ g k) (hgh : Below g h) :
    Below f h := by
  obtain ⟨m, drop, above⟩ := hgh
  exact ⟨m, Nat.lt_of_le_of_lt (hle m) drop, fun k hk => Nat.le_trans (hle k) (above k hk)⟩

/-- What lies below something lies below all that is nowhere smaller. -/
theorem Below.of_le_right {f g h : Levels} (hfg : Below f g) (hle : ∀ k, g k ≤ h k) :
    Below f h := by
  obtain ⟨m, drop, above⟩ := hfg
  exact ⟨m, Nat.lt_of_lt_of_le drop (hle m), fun k hk => Nat.le_trans (above k hk) (hle k)⟩

theorem BelowOrEq.of_le_right {f g h : Levels} (hfg : BelowOrEq f g) (hle : ∀ k, g k ≤ h k) :
    BelowOrEq f h :=
  hfg.imp (fun hfg => hfg.of_le_right hle) fun hfg k => Nat.le_trans (hfg k) (hle k)

/-- One more on the level 0 undoes no more than what a drop has gained. -/
theorem Below.add_one {f g h : Levels} (hfg : Below f g) (hadd : ∀ k, h k ≤ f k + (1 - k)) :
    BelowOrEq h g := by
  obtain ⟨m, drop, above⟩ := hfg
  by_cases hm : m = 0
  · subst hm
    refine .inr fun k => ?_
    have := hadd k
    by_cases hk : k = 0
    · subst hk; omega
    · have := above k (by omega)
      omega
  · refine .inl ⟨m, ?_, fun k hk => ?_⟩
    · have := hadd m
      omega
    · have := hadd k
      have := above k hk
      omega

/-- One less on the level 0 makes a drop of what is not larger. -/
theorem BelowOrEq.below {f g h : Levels} (hfg : BelowOrEq f g)
    (hsub : ∀ k, g k + (1 - k) ≤ h k) : Below f h := by
  rcases hfg with hfg | hfg
  · exact hfg.of_le_right fun k => Nat.le_trans (Nat.le_add_right _ _) (hsub k)
  · refine ⟨0, ?_, fun k _ => ?_⟩
    · have := hfg 0
      have := hsub 0
      omega
    · have := hfg k
      have := hsub k
      omega

end Levels
end Workflow
