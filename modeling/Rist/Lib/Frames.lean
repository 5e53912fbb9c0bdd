/-
Cutting a stream at declared lengths.

A stream is a list of frames, one after another.  The first few elements of a frame
say how long the whole frame is, or are refused.  `cut` takes frames off the front of
a buffer for as long as it can, and says why it stopped.

Two facts carry everything built on it.  What `cut` takes off are frames, and what
it leaves is where it had to stop (`cut_spec`).  And frames that are there are taken
off whatever follows them (`cut_append`), so cutting undoes concatenation.  Frames of
which only the front has arrived are taken off up to the one that is broken
(`cut_take_flatten`).
-/
import Mathlib.Data.List.Basic

namespace Frames

/-- How a frame declares its length.  The declaration is in the first `head` elements
and counts them. -/
structure Format (α ε : Type) where
  head : Nat
  size : List α → Except ε Nat
  head_pos : 0 < head
  head_le : ∀ {buf n}, size buf = .ok n → head ≤ n
  size_append : ∀ {buf} t, head ≤ buf.length → size (buf ++ t) = size buf

/-- Why cutting stopped. -/
inductive Stop (ε : Type) where
  /-- As many frames as were asked for. -/
  | full
  /-- Not even a declaration is left. -/
  | short
  /-- The frame declared is longer than what is left. -/
  | truncated
  /-- The declaration is refused. -/
  | bad (e : ε)

variable {α ε : Type} {F : Format α ε}

/-- At most `n` frames off the front of a buffer. -/
def cut (F : Format α ε) : Nat → List α → List (List α) × Stop ε
  | 0, _ => ([], .full)
  | n + 1, buf =>
    if buf.length < F.head then ([], .short)
    else
      match F.size buf with
      | .error e => ([], .bad e)
      | .ok size =>
        if buf.length < size then ([], .truncated)
        else
          let (fs, stop) := cut F n (buf.drop size)
          (buf.take size :: fs, stop)

theorem cut_short {buf : List α} (h : buf.length < F.head) (n : Nat) :
    cut F (n + 1) buf = ([], .short) := if_pos h

theorem cut_bad {buf : List α} (h : F.head ≤ buf.length) {e : ε} (hsize : F.size buf = .error e)
    (n : Nat) : cut F (n + 1) buf = ([], .bad e) := by
  rw [cut, if_neg (Nat.not_lt.mpr h), hsize]

theorem cut_truncated {buf : List α} (h : F.head ≤ buf.length) {size : Nat}
    (hsize : F.size buf = .ok size) (hlong : buf.length < size) (n : Nat) :
    cut F (n + 1) buf = ([], .truncated) := by
  rw [cut, if_neg (Nat.not_lt.mpr h), hsize]
  exact if_pos hlong

theorem cut_take {buf : List α} (h : F.head ≤ buf.length) {size : Nat}
    (hsize : F.size buf = .ok size) (hfits : size ≤ buf.length) (n : Nat) :
    cut F (n + 1) buf
      = (buf.take size :: (cut F n (buf.drop size)).1, (cut F n (buf.drop size)).2) := by
  rw [cut, if_neg (Nat.not_lt.mpr h), hsize]
  exact if_neg (Nat.not_lt.mpr hfits)

/-- A frame: exactly as long as it declares. -/
structure IsFrame (F : Format α ε) (f : List α) : Prop where
  head : F.head ≤ f.length
  size : F.size f = .ok f.length

/-- Where cutting stops, with `n` frames still wanted and `rest` left. -/
def Ends (F : Format α ε) (n : Nat) (rest : List α) : Stop ε → Prop
  | .full => n = 0
  | .short => 0 < n ∧ rest.length < F.head
  | .truncated => 0 < n ∧ F.head ≤ rest.length ∧
      ∃ size, F.size rest = .ok size ∧ rest.length < size
  | .bad e => 0 < n ∧ F.head ≤ rest.length ∧ F.size rest = .error e

/-- The front of a buffer that is long enough for what it declares is a frame. -/
theorem isFrame_take {buf : List α} {size : Nat} (hsize : F.size buf = .ok size)
    (hlen : size ≤ buf.length) : IsFrame F (buf.take size) := by
  have htake : (buf.take size).length = size := List.length_take_of_le hlen
  have hhead : F.head ≤ (buf.take size).length := htake.symm ▸ F.head_le hsize
  refine ⟨hhead, ?_⟩
  have happ := F.size_append (buf.drop size) hhead
  rw [List.take_append_drop] at happ
  rw [htake, ← happ, hsize]

/-- **What is cut off are frames, and cutting stops where it must.** -/
theorem cut_spec (F : Format α ε) : ∀ (n : Nat) (buf : List α),
    ∃ rest, buf = (cut F n buf).1.flatten ++ rest ∧ (∀ f ∈ (cut F n buf).1, IsFrame F f) ∧
      (cut F n buf).1.length ≤ n ∧ Ends F (n - (cut F n buf).1.length) rest (cut F n buf).2 := by
  intro n
  induction n with
  | zero =>
      intro buf
      exact ⟨buf, rfl, by simp [cut], Nat.le_refl 0, rfl⟩
  | succ n ih =>
      intro buf
      by_cases hshort : buf.length < F.head
      · rw [cut_short hshort]
        exact ⟨buf, rfl, by simp, Nat.zero_le _, Nat.succ_pos n, hshort⟩
      have hhead : F.head ≤ buf.length := Nat.le_of_not_lt hshort
      cases hsize : F.size buf with
      | error e =>
          rw [cut_bad hhead hsize]
          exact ⟨buf, rfl, by simp, Nat.zero_le _, Nat.succ_pos n, hhead, hsize⟩
      | ok size =>
          by_cases hlong : buf.length < size
          · rw [cut_truncated hhead hsize hlong]
            exact ⟨buf, rfl, by simp, Nat.zero_le _, Nat.succ_pos n, hhead, size, hsize, hlong⟩
          have hfits : size ≤ buf.length := Nat.le_of_not_lt hlong
          obtain ⟨rest, hrest, hframes, hlen, hends⟩ := ih (buf.drop size)
          rw [cut_take hhead hsize hfits]
          refine ⟨rest, ?_, ?_, ?_, ?_⟩
          · rw [List.flatten_cons, List.append_assoc, ← hrest, List.take_append_drop]
          · intro f hf
            rcases List.mem_cons.mp hf with rfl | hf
            · exact isFrame_take hsize hfits
            · exact hframes f hf
          · simpa using hlen
          · simpa using hends

/-- One frame at the front is taken off. -/
theorem cut_frame {f : List α} (hf : IsFrame F f) (n : Nat) (t : List α) :
    cut F (n + 1) (f ++ t) = (f :: (cut F n t).1, (cut F n t).2) := by
  have hlen : f.length ≤ (f ++ t).length := by simp
  have hsize : F.size (f ++ t) = .ok f.length := (F.size_append t hf.head).trans hf.size
  rw [cut_take (Nat.le_trans hf.head hlen) hsize hlen, List.take_left, List.drop_left]

/-- **Frames at the front are taken off, whatever follows.** -/
theorem cut_append {fs : List (List α)} :
    ∀ {n : Nat}, (∀ f ∈ fs, IsFrame F f) → fs.length ≤ n → ∀ t : List α,
      cut F n (fs.flatten ++ t)
        = (fs ++ (cut F (n - fs.length) t).1, (cut F (n - fs.length) t).2) := by
  induction fs with
  | nil =>
      intro n _ _ t
      rfl
  | cons f fs ih =>
      intro n hfs hn t
      obtain ⟨m, rfl⟩ : ∃ m, n = m + 1 := ⟨n - 1, by simp at hn; omega⟩
      have hrest := ih (fun g hg => hfs g (List.mem_cons_of_mem f hg)) (by simpa using hn) t
      rw [List.flatten_cons, List.append_assoc, cut_frame (hfs f List.mem_cons_self), hrest]
      simp

theorem cut_nil (n : Nat) : cut F n [] = ([], if n = 0 then .full else .short) := by
  cases n with
  | zero => rfl
  | succ n => exact cut_short (by simpa using F.head_pos) n

/-- Cutting undoes concatenation. -/
theorem cut_flatten {fs : List (List α)} {n : Nat} (hfs : ∀ f ∈ fs, IsFrame F f)
    (hn : fs.length ≤ n) :
    cut F n fs.flatten = (fs, if n - fs.length = 0 then .full else .short) := by
  have h := cut_append hfs hn []
  rw [List.append_nil, cut_nil, List.append_nil] at h
  exact h

/-- A frame that is broken off is not taken, and is no bad declaration either. -/
theorem cut_broken {f : List α} (hf : IsFrame F f) {n : Nat} (hn : n < f.length) (m : Nat) :
    (cut F (m + 1) (f.take n)).1 = [] ∧ ∀ e, (cut F (m + 1) (f.take n)).2 ≠ .bad e := by
  have hlen : (f.take n).length = n := List.length_take_of_le (Nat.le_of_lt hn)
  by_cases hshort : n < F.head
  · rw [cut_short (hlen.symm ▸ hshort)]
    exact ⟨rfl, fun e => nofun⟩
  have hhead : F.head ≤ (f.take n).length := hlen.symm ▸ Nat.le_of_not_lt hshort
  have hsize : F.size (f.take n) = .ok f.length := by
    rw [← F.size_append (f.drop n) hhead, List.take_append_drop, hf.size]
  rw [cut_truncated hhead hsize (hlen.symm ▸ hn)]
  exact ⟨rfl, fun e => nofun⟩

/-- As many frames as are wholly among the first `n` elements, and at most `m`. -/
structure Whole (fs : List (List α)) (m n k : Nat) : Prop where
  le : k ≤ fs.length
  count : k ≤ m
  fits : (fs.take k).flatten.length ≤ n
  most : k < m → k < fs.length → n < (fs.take (k + 1)).flatten.length

theorem Whole.cons {f : List α} {fs : List (List α)} {m n k : Nat}
    (h : Whole fs m (n - f.length) k) (hf : f.length ≤ n) : Whole (f :: fs) (m + 1) n (k + 1) := by
  have hfits := h.fits
  refine ⟨Nat.succ_le_succ h.le, Nat.succ_le_succ h.count, ?_, ?_⟩
  · rw [List.take_succ_cons, List.flatten_cons, List.length_append]
    omega
  · intro hm hlen
    have hmost := h.most (Nat.lt_of_succ_lt_succ hm) (Nat.lt_of_succ_lt_succ hlen)
    rw [List.take_succ_cons, List.flatten_cons, List.length_append]
    omega

/-- **Frames of which only the front is there** are taken off up to the broken one. -/
theorem cut_take_flatten {fs : List (List α)} : (∀ f ∈ fs, IsFrame F f) → ∀ m n : Nat,
    ∃ k, Whole fs m n k ∧ (cut F m (fs.flatten.take n)).1 = fs.take k ∧
      ∀ e, (cut F m (fs.flatten.take n)).2 ≠ .bad e := by
  induction fs with
  | nil =>
      intro _ m n
      refine ⟨0, ⟨Nat.le_refl 0, Nat.zero_le m, Nat.zero_le n, fun _ h => absurd h (by simp)⟩, ?_⟩
      rw [List.flatten_nil, List.take_nil, cut_nil]
      refine ⟨rfl, fun e => ?_⟩
      split <;> exact nofun
  | cons f fs ih =>
      intro hfs m n
      have hframe := hfs f List.mem_cons_self
      cases m with
      | zero =>
          exact ⟨0, ⟨Nat.zero_le _, Nat.le_refl 0, Nat.zero_le n, fun h => absurd h (by simp)⟩, rfl,
            fun e => nofun⟩
      | succ m =>
          by_cases hf : f.length ≤ n
          · obtain ⟨k, hk, hcut, hstop⟩ :=
              ih (fun g hg => hfs g (List.mem_cons_of_mem f hg)) m (n - f.length)
            refine ⟨k + 1, hk.cons hf, ?_⟩
            rw [List.flatten_cons, List.take_append, List.take_of_length_le hf, cut_frame hframe, hcut]
            exact ⟨rfl, hstop⟩
          · have hn : n < f.length := Nat.lt_of_not_le hf
            obtain ⟨hcut, hstop⟩ := cut_broken hframe hn m
            have htake : (f :: fs).flatten.take n = f.take n := by
              rw [List.flatten_cons, List.take_append_of_le_length (Nat.le_of_lt hn)]
            rw [htake]
            refine ⟨0, ⟨Nat.zero_le _, Nat.zero_le _, Nat.zero_le n, fun _ _ => ?_⟩, hcut, hstop⟩
            rw [List.take_succ_cons, List.take_zero, List.flatten_singleton]
            exact hn

end Frames
