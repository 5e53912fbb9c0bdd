/-
A monitor with one worker.

A writer and a worker share a value behind a lock with a condition variable.  The
writer changes the value under the lock and notifies after it has released it.  The
worker takes turns under the lock; a turn ends with items to hand over outside the lock,
with a sleep on the condition variable, or with neither.  A stop flag is set from
outside, and the worker reads it only when it enters.  The writer leaves by telling the
worker once more, without the lock.

Going to sleep releases the lock and parks the worker in one step, so a write comes
before the turn or finds the worker parked.  An operation that cannot be taken changes
nothing, and a list of operations is an interleaving of the two.
-/
import Rist.Lib.Run

namespace Monitor

variable {σ ω ι ρ : Type}

/-- What a turn under the lock ends with. -/
inductive Verdict (ρ : Type) where
  /-- Release the lock and hand the items over. -/
  | emit (items : List ρ)
  /-- Wait on the condition variable, at most until the deadline if there is one. -/
  | sleep (deadline : Option Nat)
  /-- Release the lock and go round again. -/
  | again
  deriving DecidableEq

/-- Where the worker is. -/
inductive Phase (ρ : Type) where
  /-- At the head of its loop, without the lock. -/
  | free
  /-- Under the lock, past its look at the stop flag. -/
  | inside
  | emitting (items : List ρ)
  /-- Waiting; the lock is released. -/
  | parked (deadline : Option Nat)
  /-- Done waiting, and without the lock. -/
  | woken
  | stopped
  deriving DecidableEq

def Verdict.phase : Verdict ρ → Phase ρ
  | emit items => .emitting items
  | sleep deadline => .parked deadline
  | again => .free

/-- What a notification does. -/
def Phase.wake : Phase ρ → Phase ρ
  | parked _ => woken
  | p => p

/-- Does the worker hold the lock? -/
def Phase.locked : Phase ρ → Bool
  | inside => true
  | _ => false

structure State (σ ρ : Type) where
  value : σ
  phase : Phase ρ
  /-- The writer has written and not yet notified. -/
  owes : Bool
  /-- The stop flag. -/
  stopping : Bool
  /-- The writer has left. -/
  told : Bool

/-- What a turn gives out. -/
def Verdict.items : Verdict ρ → List ρ
  | emit items => items
  | _ => []

/-- The two critical sections. -/
structure Program (σ ω ι ρ : Type) where
  write : σ → ω → σ
  turn : σ → ι → σ × Verdict ρ

inductive Op (ω ι : Type) where
  /-- The worker takes the lock and looks at the stop flag. -/
  | enter
  | turn (i : ι)
  | hand
  | write (w : ω)
  | notify
  | stop
  /-- The writer's last notification. -/
  | tell
  | timeout (now : Nat)
  | spurious
  /-- The worker takes the lock again after a wait and releases it. -/
  | resume
  deriving DecidableEq

/-- A step that does not hang on luck. -/
def Op.Relied : Op ω ι → Prop
  | spurious => False
  | _ => True

namespace State

def start (v : σ) : State σ ρ := ⟨v, .free, false, false, false⟩

/-- What a turn has given out and the worker has not yet handed over. -/
def pending (s : State σ ρ) : List ρ :=
  match s.phase with
  | .emitting items => items
  | _ => []

/-- The writer may take the lock: the worker is not in a turn, and the writer is done
with its last write and still there. -/
def MayWrite (s : State σ ρ) : Prop :=
  s.phase.locked = false ∧ s.owes = false ∧ s.told = false

/-- The writer may leave. -/
def MayTell (s : State σ ρ) : Prop := s.stopping = true ∧ s.owes = false ∧ s.told = false

instance (s : State σ ρ) : Decidable s.MayWrite :=
  inferInstanceAs (Decidable (_ ∧ _ ∧ _))

instance (s : State σ ρ) : Decidable s.MayTell :=
  inferInstanceAs (Decidable (_ ∧ _ ∧ _))

def step (p : Program σ ω ι ρ) (s : State σ ρ) : Op ω ι → State σ ρ
  | .enter =>
    match s.phase with
    | .free => { s with phase := if s.stopping then .stopped else .inside }
    | _ => s
  | .turn i =>
    match s.phase with
    | .inside => { s with value := (p.turn s.value i).1, phase := (p.turn s.value i).2.phase }
    | _ => s
  | .hand =>
    match s.phase with
    | .emitting (_ :: items) => { s with phase := .emitting items }
    | .emitting [] => { s with phase := .free }
    | _ => s
  | .write w => if s.MayWrite then { s with value := p.write s.value w, owes := true } else s
  | .notify => if s.owes then { s with phase := s.phase.wake, owes := false } else s
  | .stop => { s with stopping := true }
  | .tell => if s.MayTell then { s with phase := s.phase.wake, told := true } else s
  | .timeout now =>
    match s.phase with
    | .parked (some deadline) => if deadline ≤ now then { s with phase := .woken } else s
    | _ => s
  | .spurious =>
    match s.phase with
    | .parked _ => { s with phase := .woken }
    | _ => s
  | .resume =>
    match s.phase with
    | .woken => { s with phase := .free }
    | _ => s

end State

variable {p : Program σ ω ι ρ} {s s' : State σ ρ} {op : Op ω ι}

theorem Phase.wake_ne_parked (ph : Phase ρ) (d : Option Nat) : ph.wake ≠ .parked d := by
  cases ph <;> simp [wake]

theorem Phase.wake_eq_inside {ph : Phase ρ} : ph.wake = .inside ↔ ph = .inside := by
  cases ph <;> simp [wake]

/-- The operations that can be taken, and what they do. -/
inductive Moves (p : Program σ ω ι ρ) (s : State σ ρ) : Op ω ι → State σ ρ → Prop
  | enter : s.phase = .free → s.stopping = false → Moves p s .enter { s with phase := .inside }
  | leave : s.phase = .free → s.stopping = true → Moves p s .enter { s with phase := .stopped }
  | turn (i : ι) : s.phase = .inside → Moves p s (.turn i)
      { s with value := (p.turn s.value i).1, phase := (p.turn s.value i).2.phase }
  | hand (x : ρ) (items : List ρ) : s.phase = .emitting (x :: items) →
      Moves p s .hand { s with phase := .emitting items }
  | handed : s.phase = .emitting [] → Moves p s .hand { s with phase := .free }
  | write (w : ω) : s.MayWrite → Moves p s (.write w)
      { s with value := p.write s.value w, owes := true }
  | notify : s.owes = true → Moves p s .notify { s with phase := s.phase.wake, owes := false }
  | stop : Moves p s .stop { s with stopping := true }
  | tell : s.MayTell → Moves p s .tell { s with phase := s.phase.wake, told := true }
  | timeout (d now : Nat) : s.phase = .parked (some d) → d ≤ now →
      Moves p s (.timeout now) { s with phase := .woken }
  | spurious (d : Option Nat) : s.phase = .parked d →
      Moves p s .spurious { s with phase := .woken }
  | resume : s.phase = .woken → Moves p s .resume { s with phase := .free }

/-- An operation changes nothing, or can be taken. -/
theorem Moves.of_step (h : s.step p op = s') : s' = s ∨ Moves p s op s' := by
  subst h
  cases op with
  | enter =>
      cases hp : s.phase with
      | free =>
          cases hs : s.stopping with
          | false => exact Or.inr (by simpa [State.step, hp, hs] using Moves.enter hp hs)
          | true => exact Or.inr (by simpa [State.step, hp, hs] using Moves.leave hp hs)
      | _ => exact Or.inl (by simp [State.step, hp])
  | turn i =>
      cases hp : s.phase with
      | inside => exact Or.inr (by simpa [State.step, hp] using Moves.turn i hp)
      | _ => exact Or.inl (by simp [State.step, hp])
  | hand =>
      cases hp : s.phase with
      | emitting items =>
          cases items with
          | nil => exact Or.inr (by simpa [State.step, hp] using Moves.handed hp)
          | cons x items => exact Or.inr (by simpa [State.step, hp] using Moves.hand x items hp)
      | _ => exact Or.inl (by simp [State.step, hp])
  | write w =>
      by_cases hm : s.MayWrite
      · exact Or.inr (by simpa [State.step, hm] using Moves.write w hm)
      · exact Or.inl (by simp [State.step, hm])
  | notify =>
      cases ho : s.owes with
      | true => exact Or.inr (by simpa [State.step, ho] using Moves.notify ho)
      | false => exact Or.inl (by simp [State.step, ho])
  | stop => exact Or.inr Moves.stop
  | tell =>
      by_cases hm : s.MayTell
      · exact Or.inr (by simpa [State.step, hm] using Moves.tell hm)
      · exact Or.inl (by simp [State.step, hm])
  | timeout now =>
      cases hp : s.phase with
      | parked deadline =>
          cases deadline with
          | none => exact Or.inl (by simp [State.step, hp])
          | some d =>
              by_cases hd : d ≤ now
              · exact Or.inr (by simpa [State.step, hp, hd] using Moves.timeout d now hp hd)
              · exact Or.inl (by simp [State.step, hp, hd])
      | _ => exact Or.inl (by simp [State.step, hp])
  | spurious =>
      cases hp : s.phase with
      | parked deadline =>
          exact Or.inr (by simpa [State.step, hp] using Moves.spurious deadline hp)
      | _ => exact Or.inl (by simp [State.step, hp])
  | resume =>
      cases hp : s.phase with
      | woken => exact Or.inr (by simpa [State.step, hp] using Moves.resume hp)
      | _ => exact Or.inl (by simp [State.step, hp])

/-- What holds now and after every operation that can be taken holds after any. -/
theorem Moves.keeps {I : State σ ρ → Prop} (hs : I s) (h : ∀ s', Moves p s op s' → I s') :
    I (s.step p op) := by
  rcases Moves.of_step (rfl : s.step p op = _) with heq | hm
  · rw [heq]
    exact hs
  · exact h _ hm

/-- Only a write and a turn change the value. -/
theorem State.step_value (op : Op ω ι) (hturn : ∀ i, op ≠ .turn i) (hwrite : ∀ w, op ≠ .write w) :
    (s.step p op).value = s.value := by
  refine Moves.keeps (I := fun s' => s'.value = s.value) rfl fun s' hm => ?_
  cases hm with
  | turn i hp => exact absurd rfl (hturn i)
  | write w hw => exact absurd rfl (hwrite w)
  | _ => rfl

/-! ### What is handed over -/

theorem State.pending_wake (s : State σ ρ) (owes stopping told : Bool) :
    State.pending ⟨s.value, s.phase.wake, owes, stopping, told⟩ = s.pending := by
  unfold State.pending
  cases hp : s.phase <;> rfl

/-- Nothing but a turn and a hand-over touches what is pending. -/
theorem State.step_pending (op : Op ω ι) (hturn : ∀ i, op ≠ .turn i) (hhand : op ≠ .hand) :
    (s.step p op).pending = s.pending := by
  refine Moves.keeps (I := fun s' => s'.pending = s.pending) rfl fun s' hm => ?_
  cases hm with
  | turn i hp => exact absurd rfl (hturn i)
  | hand x items hp => exact absurd rfl hhand
  | handed hp => exact absurd rfl hhand
  | notify ho => exact s.pending_wake _ _ _
  | tell ht => exact s.pending_wake _ _ _
  | write w hw => rfl
  | stop => rfl
  | enter hp hs => simp only [State.pending, hp]
  | leave hp hs => simp only [State.pending, hp]
  | timeout d now hp hd => simp only [State.pending, hp]
  | spurious d hp => simp only [State.pending, hp]
  | resume hp => simp only [State.pending, hp]

/-- A hand-over takes the first item. -/
theorem State.step_hand_pending (s : State σ ρ) :
    s.pending.take 1 ++ (s.step p .hand).pending = s.pending := by
  simp only [State.step, State.pending]
  cases hp : s.phase with
  | emitting items => cases items <;> rfl
  | _ => simp only [hp]; rfl

/-- A turn leaves pending what it gives out. -/
theorem State.step_turn_pending (i : ι) :
    (s.step p (.turn i)).pending
      = if s.phase.locked then (p.turn s.value i).2.items else s.pending := by
  simp only [State.step]
  cases hp : s.phase with
  | inside =>
      simp only [State.pending, Phase.locked, if_true]
      cases (p.turn s.value i).2 <;> rfl
  | _ => simp [Phase.locked]

theorem State.pending_of_locked (h : s.phase.locked = true) : s.pending = [] := by
  unfold State.pending
  cases hp : s.phase <;> simp_all [Phase.locked]

/-! ### No lost wake-up -/

/-- What a turn saw when it went to sleep holds of the value, as long as the worker
sleeps and no notification is on its way. -/
def State.Rests (P : σ → Option Nat → Prop) (s : State σ ρ) : Prop :=
  ∀ d, s.phase = .parked d → s.owes = false → P s.value d

theorem Verdict.phase_parked {v : Verdict ρ} {d : Option Nat} (h : v.phase = .parked d) :
    v = .sleep d := by
  cases v <;> simp_all [Verdict.phase]

/-- **No wake-up is lost.**  The turn that goes to sleep sets the fact up; a write makes
the writer owe a notification, and paying it wakes the worker. -/
theorem State.Rests.step {P : σ → Option Nat → Prop}
    (hturn : ∀ v i d, (p.turn v i).2 = .sleep d → P (p.turn v i).1 d)
    (h : s.Rests P) (op : Op ω ι) : (s.step p op).Rests P := by
  refine Moves.keeps h fun s' hm d hd howes => ?_
  cases hm with
  | enter hp hs => cases hd
  | leave hp hs => cases hd
  | turn i hp => exact hturn s.value i d (Verdict.phase_parked hd)
  | hand x items hp => cases hd
  | handed hp => cases hd
  | write w hw => cases howes
  | notify ho => exact absurd hd (Phase.wake_ne_parked _ d)
  | stop => exact h d hd howes
  | tell ht => exact absurd hd (Phase.wake_ne_parked _ d)
  | timeout u now hp hu => cases hd
  | spurious u hp => cases hd
  | resume hp => cases hd

/-! ### Shutdown -/

/-- The writer has left, in order. -/
structure State.Left (s : State σ ρ) : Prop where
  told : s.told = true
  stopping : s.stopping = true
  owes : s.owes = false

/-- The worker sleeps without a deadline, or is about to. -/
def State.Stuck (p : Program σ ω ι ρ) (s : State σ ρ) : Prop :=
  s.phase = .parked none ∨ s.phase = .inside ∧ ∃ i, (p.turn s.value i).2 = .sleep none

theorem State.MayTell.left (h : s.MayTell) : (s.step p .tell).Left := by
  simp only [State.step, if_pos h]
  exact ⟨rfl, h.1, h.2.1⟩

/-- After the writer has left only the worker moves, and it does not enter again. -/
theorem State.Left.moves (h : s.Left) (hne : s' ≠ s) (hm : Moves p s op s') :
    s'.Left ∧ ((s.phase = .free ∧ s'.phase = .stopped) ∨
      (∃ x items, s.phase = .emitting (x :: items) ∧ s'.phase = .emitting items) ∨
      (s.phase = .emitting [] ∧ s'.phase = .free) ∨
      ((∃ d, s.phase = .parked d ∧ (d = none → op = .spurious)) ∧ s'.phase = .woken) ∨
      (s.phase = .woken ∧ s'.phase = .free) ∨
      (s.phase = .inside ∧ ∃ i, s'.phase = (p.turn s.value i).2.phase)) := by
  obtain ⟨htold, hstop, howes⟩ := h
  cases hm with
  | enter hp hs => rw [hstop] at hs; cases hs
  | leave hp hs => exact ⟨⟨htold, hstop, howes⟩, .inl ⟨hp, rfl⟩⟩
  | turn i hp => exact ⟨⟨htold, hstop, howes⟩, .inr (.inr (.inr (.inr (.inr ⟨hp, i, rfl⟩))))⟩
  | hand x items hp => exact ⟨⟨htold, hstop, howes⟩, .inr (.inl ⟨x, items, hp, rfl⟩)⟩
  | handed hp => exact ⟨⟨htold, hstop, howes⟩, .inr (.inr (.inl ⟨hp, rfl⟩))⟩
  | write w hw => exact absurd hw.2.2 (by simp [htold])
  | notify ho => rw [howes] at ho; cases ho
  | stop =>
      refine absurd ?_ hne
      cases s
      cases hstop
      rfl
  | tell ht => exact absurd ht.2.2 (by simp [htold])
  | timeout d now hp hd =>
      refine ⟨⟨htold, hstop, howes⟩, .inr (.inr (.inr (.inl ⟨⟨_, hp, ?_⟩, rfl⟩)))⟩
      intro hc
      cases hc
  | spurious d hp =>
      exact ⟨⟨htold, hstop, howes⟩, .inr (.inr (.inr (.inl ⟨⟨_, hp, fun _ => rfl⟩, rfl⟩)))⟩
  | resume hp => exact ⟨⟨htold, hstop, howes⟩, .inr (.inr (.inr (.inr (.inl ⟨hp, rfl⟩))))⟩

/-- The worker ends its loop, whatever happens.  A spurious wake-up may happen and is
not relied on. -/
def State.Stops (p : Program σ ω ι ρ) (s : State σ ρ) : Prop :=
  Run.Inevitable (State.step p) Op.Relied (fun s => s.phase = .stopped) s

/-- One round of the argument: some step of the worker can be taken, and every step that
can be taken leads to a phase from which it stops. -/
theorem State.stops_next (op : Op ω ι) (hrel : op.Relied)
    (hop : (s.step p op).phase ≠ s.phase)
    (hall : ∀ op' s', s' ≠ s → Moves p s op' s' → s'.Stops p) : s.Stops p := by
  refine .next ⟨op, hrel, fun heq => hop (congrArg State.phase heq)⟩ fun op' hne => ?_
  rcases Moves.of_step (rfl : s.step p op' = _) with heq | hm
  · exact absurd heq hne
  · exact hall op' _ hne hm

theorem State.Left.stops_free (h : s.Left) (hp : s.phase = .free) : s.Stops p := by
  refine State.stops_next .enter trivial (by simp [State.step, hp, h.stopping]) ?_
  intro op s' hne hm
  obtain ⟨-, ⟨-, h'⟩ | ⟨x, items, h', -⟩ | ⟨h', -⟩ | ⟨⟨d, h', -⟩, -⟩ | ⟨h', -⟩ | ⟨h', -⟩⟩ :=
    h.moves hne hm
  · exact .here h'
  all_goals rw [hp] at h'; cases h'

theorem State.Left.stops_woken (h : s.Left) (hp : s.phase = .woken) : s.Stops p := by
  refine State.stops_next .resume trivial (by simp [State.step, hp]) ?_
  intro op s' hne hm
  obtain ⟨hl, ⟨h', -⟩ | ⟨x, items, h', -⟩ | ⟨h', -⟩ | ⟨⟨d, h', -⟩, -⟩ | ⟨-, h'⟩ | ⟨h', -⟩⟩ :=
    h.moves hne hm
  case inr.inr.inr.inr.inl => exact hl.stops_free h'
  all_goals rw [hp] at h'; cases h'

theorem State.Left.stops_emitting {items : List ρ} :
    ∀ {s : State σ ρ}, s.Left → s.phase = .emitting items → s.Stops p := by
  induction items with
  | nil =>
      intro s h hp
      refine State.stops_next .hand trivial (by simp [State.step, hp]) ?_
      intro op s' hne hm
      obtain ⟨hl, ⟨h', -⟩ | ⟨x, items, h', -⟩ | ⟨-, h'⟩ | ⟨⟨d, h', -⟩, -⟩ | ⟨h', -⟩ | ⟨h', -⟩⟩ :=
        h.moves hne hm
      case inr.inr.inl => exact hl.stops_free h'
      all_goals rw [hp] at h'; cases h'
  | cons x items ih =>
      intro s h hp
      refine State.stops_next .hand trivial (by simp [State.step, hp]) ?_
      intro op s' hne hm
      obtain ⟨hl, ⟨h', -⟩ | ⟨y, rest, h', hnext⟩ | ⟨h', -⟩ | ⟨⟨d, h', -⟩, -⟩ | ⟨h', -⟩ | ⟨h', -⟩⟩ :=
        h.moves hne hm
      case inr.inl =>
        rw [hp] at h'
        cases h'
        exact ih hl hnext
      all_goals rw [hp] at h'; cases h'

theorem State.Left.stops_parked (h : s.Left) {d : Nat} (hp : s.phase = .parked (some d)) :
    s.Stops p := by
  refine State.stops_next (.timeout d) trivial (by simp [State.step, hp]) ?_
  intro op s' hne hm
  obtain ⟨hl, ⟨h', -⟩ | ⟨x, items, h', -⟩ | ⟨h', -⟩ | ⟨-, h'⟩ | ⟨h', -⟩ | ⟨h', -⟩⟩ :=
    h.moves hne hm
  case inr.inr.inr.inl => exact hl.stops_woken h'
  all_goals rw [hp] at h'; cases h'

/-- A turn that does not sleep for good. -/
theorem State.Left.stops_verdict (h : s.Left) {v : Verdict ρ} (hp : s.phase = v.phase)
    (hv : v ≠ .sleep none) : s.Stops p := by
  cases v with
  | emit items => exact h.stops_emitting hp
  | sleep d =>
      cases d with
      | none => exact absurd rfl hv
      | some d => exact h.stops_parked hp
  | again => exact h.stops_free hp

/-- Asleep without a deadline, the worker waits for a notification that never comes. -/
theorem State.Left.not_stops_parked (h : s.Left) (hp : s.phase = .parked none) :
    ¬s.Stops p := by
  refine Run.not_inevitable_of_stuck (by simp [hp]) fun op hrel => ?_
  rcases Moves.of_step (rfl : s.step p op = _) with heq | hm
  · exact heq
  by_contra hne
  obtain ⟨-, ⟨h', -⟩ | ⟨x, items, h', -⟩ | ⟨h', -⟩ | ⟨⟨d, h', hop⟩, -⟩ | ⟨h', -⟩ | ⟨h', -⟩⟩ :=
    h.moves hne hm
  case inr.inr.inr.inr.inl =>
    rw [hp] at h'
    cases h'
    rw [hop rfl] at hrel
    exact hrel
  all_goals rw [hp] at h'; cases h'

/-- **The worker stops unless the last notification comes too early.**  After the writer
has left, the worker ends its loop in every way the rest can go, exactly when it is
neither asleep without a deadline nor in a turn that may end so. -/
theorem State.Left.stops_iff [Nonempty ι] (h : s.Left) : s.Stops p ↔ ¬s.Stuck p := by
  constructor
  · rintro hstops (hp | ⟨hp, i, hi⟩)
    · exact h.not_stops_parked hp hstops
    · -- the turn goes to sleep after the notification
      have hstep : s.step p (.turn i)
          = { s with value := (p.turn s.value i).1, phase := .parked none } := by
        simp only [State.step, hp, hi, Verdict.phase]
      refine Run.not_inevitable_of_step (.turn i) (by simp [hp]) ?_ ?_ hstops
      · intro heq
        rw [← heq, hstep] at hp
        cases hp
      · rw [hstep]
        exact State.Left.not_stops_parked ⟨h.told, h.stopping, h.owes⟩ rfl
  · intro hns
    cases hp : s.phase with
    | free => exact h.stops_free hp
    | inside =>
        obtain ⟨i⟩ := ‹Nonempty ι›
        refine State.stops_next (.turn i) trivial ?_ ?_
        · simp only [State.step, hp]
          cases (p.turn s.value i).2 <;> simp [Verdict.phase]
        · intro op s' hne hm
          obtain ⟨hl, ⟨h', -⟩ | ⟨x, items, h', -⟩ | ⟨h', -⟩ | ⟨⟨d, h', -⟩, -⟩ | ⟨h', -⟩ |
            ⟨-, j, h'⟩⟩ := h.moves hne hm
          case inr.inr.inr.inr.inr =>
            exact hl.stops_verdict h' fun hv => hns (.inr ⟨hp, j, hv⟩)
          all_goals rw [hp] at h'; cases h'
    | emitting items => exact h.stops_emitting hp
    | parked d =>
        cases d with
        | none => exact absurd (.inl hp) hns
        | some d => exact h.stops_parked hp
    | woken => exact h.stops_woken hp
    | stopped => exact .here hp

end Monitor
