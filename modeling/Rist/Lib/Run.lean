/-
Runs of a machine.

A machine is a step function on states; a run feeds it a list of operations.
`Along` says that a property of a state and the operation about to be taken holds
at every step of a run, which is how a hypothesis on the environment ("no insert
overflows", "times do not go back") is stated, and how a conclusion about every
step is stated too.

Two machines are compared by what one makes of every step of the other.  Progress is
stated without fairness: a goal is inevitable when it is reached whichever steps are
taken, and some step can always be relied on.
-/
import Mathlib.Algebra.Ring.Nat
import Mathlib.Logic.Basic
import Mathlib.Data.List.Basic

namespace Run

variable {σ ο : Type}

/-- The state a run ends in. -/
def final (step : σ → ο → σ) (s : σ) (ops : List ο) : σ := ops.foldl step s

variable {step : σ → ο → σ}

@[simp] theorem final_nil (s : σ) : final step s [] = s := rfl

@[simp] theorem final_cons (s : σ) (op : ο) (ops : List ο) :
    final step s (op :: ops) = final step (step s op) ops := rfl

/-- `P` holds of every state of the run and the operation taken there. -/
def Along (step : σ → ο → σ) (P : σ → ο → Prop) : σ → List ο → Prop
  | _, [] => True
  | s, op :: ops => P s op ∧ Along step P (step s op) ops

variable {P Q : σ → ο → Prop}

instance Along.decidable [∀ s op, Decidable (P s op)] :
    ∀ (s : σ) (ops : List ο), Decidable (Along step P s ops)
  | _, [] => .isTrue trivial
  | s, op :: ops =>
    match (inferInstance : Decidable (P s op)), Along.decidable (step s op) ops with
    | .isTrue h, .isTrue hs => .isTrue ⟨h, hs⟩
    | .isFalse h, _ => .isFalse fun hc => h hc.1
    | _, .isFalse hs => .isFalse fun hc => hs hc.2

@[simp] theorem along_nil (s : σ) : Along step P s [] := trivial

@[simp] theorem along_cons {s : σ} {op : ο} {ops : List ο} :
    Along step P s (op :: ops) ↔ P s op ∧ Along step P (step s op) ops := Iff.rfl

theorem along_append {pre post : List ο} : ∀ {s : σ},
    Along step P s (pre ++ post) ↔
      Along step P s pre ∧ Along step P (final step s pre) post := by
  induction pre with
  | nil => intro s; simp
  | cons op pre ih =>
      intro s
      rw [List.cons_append, along_cons, ih, along_cons, final_cons, and_assoc]

/-- Every step of a run, named by the operations before and after it. -/
theorem along_iff {s : σ} {ops : List ο} :
    Along step P s ops ↔
      ∀ pre op post, ops = pre ++ op :: post → P (final step s pre) op := by
  constructor
  · rintro h pre op post rfl
    exact (along_append.mp h).2.1
  · induction ops generalizing s with
    | nil => intro _; trivial
    | cons op ops ih =>
        intro h
        refine ⟨h [] op ops rfl, ih ?_⟩
        rintro pre op' post rfl
        exact h (op :: pre) op' post rfl

/-- **The invariant rule.**  What holds at the start and is kept by every step the
run may take holds at the end. -/
theorem invariant {I : σ → Prop} (hstep : ∀ s op, I s → P s op → I (step s op)) :
    ∀ {ops : List ο} {s : σ}, I s → Along step P s ops → I (final step s ops) := by
  intro ops
  induction ops with
  | nil => intro s hs _; exact hs
  | cons op ops ih =>
      intro s hs h
      exact ih (hstep s op hs h.1) h.2

/-- The invariant rule for an environment without restrictions. -/
theorem invariant_of_step {I : σ → Prop} (hstep : ∀ s op, I s → I (step s op))
    {s : σ} (hs : I s) (ops : List ο) : I (final step s ops) := by
  refine invariant (P := fun _ _ => True) (fun s op h _ => hstep s op h) hs ?_
  exact along_iff.mpr fun _ _ _ _ => trivial

theorem along_and {s : σ} {ops : List ο} (hP : Along step P s ops) (hQ : Along step Q s ops) :
    Along step (fun s op => P s op ∧ Q s op) s ops := by
  rw [along_iff] at hP hQ ⊢
  intro pre op post heq
  exact ⟨hP pre op post heq, hQ pre op post heq⟩

/-- A quantity that never goes down stays below a bound exactly when it ends below it. -/
theorem along_lt_iff {m : σ → Nat} {n : Nat} (hmono : ∀ s op, m s ≤ m (step s op)) :
    ∀ {ops : List ο} {s : σ}, m s < n ∧ Along step (fun s op => m (step s op) < n) s ops ↔
      m (final step s ops) < n := by
  intro ops
  induction ops with
  | nil => intro s; exact and_iff_left trivial
  | cons op ops ih =>
      intro s
      rw [final_cons, ← ih, along_cons]
      constructor
      · exact fun h => h.2
      · exact fun h => ⟨Nat.lt_of_le_of_lt (hmono s op) h.1, h⟩

/-- What every step does under an invariant holds at every step of the run. -/
theorem along_of_invariant {I : σ → Prop} (hstep : ∀ s op, I s → P s op → I (step s op))
    (hQ : ∀ s op, I s → P s op → Q s op) :
    ∀ {ops : List ο} {s : σ}, I s → Along step P s ops → Along step Q s ops := by
  intro ops
  induction ops with
  | nil => intro s _ _; trivial
  | cons op ops ih =>
      intro s hs h
      exact ⟨hQ s op hs h.1, ih (hstep s op hs h.1) h.2⟩

/-- Two conditions on steps that an invariant makes equivalent, and that each keep
the invariant, hold along the same runs of an environment `E`. -/
theorem along_iff_of_env {E : σ → ο → Prop} {I : σ → Prop}
    (hiff : ∀ s op, I s → E s op → (P s op ↔ Q s op))
    (hstep : ∀ s op, I s → E s op → P s op → I (step s op)) :
    ∀ {ops : List ο} {s : σ}, I s → Along step E s ops →
      (Along step P s ops ↔ Along step Q s ops) := by
  intro ops
  induction ops with
  | nil => intro s _ _; exact Iff.rfl
  | cons op ops ih =>
      intro s hs hE
      rw [along_cons, along_cons, ← hiff s op hs hE.1]
      exact and_congr_right fun hp => ih (hstep s op hs hE.1 hp) hE.2

/-- The same for an environment without restrictions. -/
theorem along_iff_of_invariant {I : σ → Prop} (hiff : ∀ s op, I s → (P s op ↔ Q s op))
    (hstep : ∀ s op, I s → P s op → I (step s op)) {ops : List ο} {s : σ} (hs : I s) :
    Along step P s ops ↔ Along step Q s ops := by
  refine along_iff_of_env (E := fun _ _ => True) (fun s op h _ => hiff s op h)
    (fun s op h _ => hstep s op h) hs ?_
  exact along_iff.mpr fun _ _ _ _ => trivial

/-! ### Two machines -/

/-- What every step of a run puts out, one after the other. -/
def emitted {π : Type} (step : σ → ο → σ) (emit : σ → ο → List π) : σ → List ο → List π
  | _, [] => []
  | s, op :: ops => emit s op ++ emitted step emit (step s op) ops

theorem final_append (s : σ) (pre post : List ο) :
    final step s (pre ++ post) = final step (final step s pre) post := List.foldl_append

/-- **The simulation rule.**  If every step is seen by another machine as some steps of
its own, then so is every run. -/
theorem final_of_simulates {τ π : Type} {step' : τ → π → τ} {emit : σ → ο → List π}
    (view : σ → τ) (h : ∀ s op, view (step s op) = final step' (view s) (emit s op)) :
    ∀ (ops : List ο) (s : σ),
      view (final step s ops) = final step' (view s) (emitted step emit s ops) := by
  intro ops
  induction ops with
  | nil => intro s; rfl
  | cons op ops ih =>
      intro s
      rw [final_cons, ih, h, emitted, final_append]

/-- What every step puts out, weighed, is paid for by the operation that caused it. -/
theorem emitted_sum_le {π : Type} {emit : σ → ο → List π} {weight : π → Nat} {charge : ο → Nat}
    (h : ∀ s op, ((emit s op).map weight).sum ≤ charge op) :
    ∀ (ops : List ο) (s : σ),
      ((emitted step emit s ops).map weight).sum ≤ (ops.map charge).sum := by
  intro ops
  induction ops with
  | nil => intro s; exact Nat.le_refl 0
  | cons op ops ih =>
      intro s
      rw [emitted, List.map_append, List.sum_append, List.map_cons, List.sum_cons]
      exact Nat.add_le_add (h s op) (ih (step s op))

/-- **The invariant rule with output**: what relates the state to all that was put out. -/
theorem emitted_invariant {π : Type} {emit : σ → ο → List π} {I : σ → List π → Prop}
    (hstep : ∀ s op out, I s out → P s op → I (step s op) (out ++ emit s op)) :
    ∀ {ops : List ο} {s : σ} {out : List π}, I s out → Along step P s ops →
      I (final step s ops) (out ++ emitted step emit s ops) := by
  intro ops
  induction ops with
  | nil =>
      intro s out hs _
      rw [emitted, List.append_nil]
      exact hs
  | cons op ops ih =>
      intro s out hs h
      rw [emitted, ← List.append_assoc]
      exact ih (hstep s op out hs h.1) h.2

/-- A log that every step adds its output to holds what was put out. -/
theorem log_eq_emitted {π : Type} {emit : σ → ο → List π} {log : σ → List π}
    (h : ∀ s op, log (step s op) = log s ++ emit s op) :
    ∀ (ops : List ο) (s : σ), log (final step s ops) = log s ++ emitted step emit s ops := by
  intro ops
  induction ops with
  | nil =>
      intro s
      rw [emitted, List.append_nil]
      rfl
  | cons op ops ih =>
      intro s
      rw [final_cons, ih, h, emitted, List.append_assoc]

/-- **What was put out was put out by a step**, named by the operations before and after it. -/
theorem mem_emitted {π : Type} {emit : σ → ο → List π} {x : π} :
    ∀ {ops : List ο} {s : σ}, x ∈ emitted step emit s ops →
      ∃ pre op post, ops = pre ++ op :: post ∧ x ∈ emit (final step s pre) op := by
  intro ops
  induction ops with
  | nil =>
      intro s hx
      exact absurd hx List.not_mem_nil
  | cons op ops ih =>
      intro s hx
      rcases List.mem_append.mp hx with hx | hx
      · exact ⟨[], op, ops, rfl, hx⟩
      · obtain ⟨pre, op', post, rfl, hput⟩ := ih hx
        exact ⟨op :: pre, op', post, rfl, hput⟩

/-- What every piece put out by a step is, every piece put out is. -/
theorem forall_emitted {π : Type} {emit : σ → ο → List π} {Q : π → Prop}
    (h : ∀ s op, ∀ x ∈ emit s op, Q x) (ops : List ο) (s : σ) :
    ∀ x ∈ emitted step emit s ops, Q x := by
  intro x hx
  obtain ⟨pre, op, post, -, hput⟩ := mem_emitted hx
  exact h _ op x hput

/-! ### Progress -/

/-- The goal is reached whatever happens: until then some operation that may be relied
on changes the state, and every operation that changes it leads to such a state. -/
inductive Inevitable (step : σ → ο → σ) (relied : ο → Prop) (goal : σ → Prop) : σ → Prop
  | here {s : σ} : goal s → Inevitable step relied goal s
  | next {s : σ} : (∃ op, relied op ∧ step s op ≠ s) →
      (∀ op, step s op ≠ s → Inevitable step relied goal (step s op)) →
      Inevitable step relied goal s

variable {relied : ο → Prop} {goal : σ → Prop}

/-- What cannot move and is not the goal never gets there. -/
theorem not_inevitable_of_stuck {s : σ} (hgoal : ¬goal s)
    (hstuck : ∀ op, relied op → step s op = s) : ¬Inevitable step relied goal s := by
  intro h
  cases h with
  | here hg => exact hgoal hg
  | next hmove _ =>
      obtain ⟨op, hop, hne⟩ := hmove
      exact hne (hstuck op hop)

/-- A state that a step can take to a dead end does not reach the goal by itself. -/
theorem not_inevitable_of_step {s : σ} (op : ο) (hgoal : ¬goal s) (hne : step s op ≠ s)
    (hbad : ¬Inevitable step relied goal (step s op)) : ¬Inevitable step relied goal s := by
  intro h
  cases h with
  | here hg => exact hgoal hg
  | next _ hall => exact hbad (hall op hne)

end Run
