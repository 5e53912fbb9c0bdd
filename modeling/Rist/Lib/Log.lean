/-
Lists that only grow at the end.

A log is read by where an entry stands in it, `log = before ++ entry :: after`.
Adding an entry keeps every such reading and adds one.
-/
import Mathlib.Data.List.Basic

namespace Log

variable {α : Type}

/-- The entries of a longer log: the new one, and the old ones. -/
theorem concat_eq_split {log before after : List α} {a x : α} :
    log ++ [a] = before ++ x :: after ↔
      (after = [] ∧ before = log ∧ x = a) ∨
        ∃ after', after = after' ++ [a] ∧ log = before ++ x :: after' := by
  constructor
  · intro h
    rcases List.eq_nil_or_concat after with rfl | ⟨after, y, rfl⟩
    · have h1 := List.append_inj' h rfl
      exact Or.inl ⟨rfl, h1.1.symm, (List.cons.inj h1.2).1.symm⟩
    · have h1 : log ++ [a] = (before ++ x :: after) ++ [y] := by simpa using h
      have h2 := List.append_inj' h1 rfl
      obtain ⟨rfl, -⟩ := List.cons.inj h2.2
      exact Or.inr ⟨after, by simp, h2.1⟩
  · rintro (⟨rfl, rfl, rfl⟩ | ⟨after', rfl, rfl⟩)
    · rfl
    · simp

end Log
