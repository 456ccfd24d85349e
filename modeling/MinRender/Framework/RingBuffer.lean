import Mathlib.Algebra.GroupWithZero.Nat
import Mathlib.Data.List.Basic

/-!
# Ring buffers

A buffer that grows to a capacity and then overwrites its oldest element at a
moving position, and a queue that drops its front when it is full. Both are the
unbounded list cut to its last elements; `lastN` says so, and its rules let a
bounded history be compared with the whole one.
-/

namespace MinRender

variable {α : Type*}

/-! ## The last elements of a list -/

/-- The last `n` elements, in order. -/
def lastN (n : Nat) (l : List α) : List α := l.drop (l.length - n)

theorem lastN_of_le {n : Nat} {l : List α} (h : l.length ≤ n) : lastN n l = l := by
  unfold lastN
  rw [Nat.sub_eq_zero_of_le h, List.drop_zero]

@[simp] theorem lastN_nil (n : Nat) : lastN n ([] : List α) = [] := List.drop_nil

theorem length_lastN (n : Nat) (l : List α) : (lastN n l).length = min n l.length := by
  unfold lastN
  rw [List.length_drop]
  omega

/-- What was cut off before more elements came is cut off after them. -/
theorem lastN_append (n : Nat) (l m : List α) : lastN n (lastN n l ++ m) = lastN n (l ++ m) := by
  unfold lastN
  rw [List.length_append, List.length_append, List.length_drop]
  rcases Nat.le_total l.length n with hfits | hfull
  · rw [Nat.sub_eq_zero_of_le hfits, List.drop_zero, Nat.sub_zero]
  · have hcut : l.length - (l.length - n) = n := Nat.sub_sub_self hfull
    rw [hcut, Nat.add_sub_cancel_left, List.drop_append, List.drop_append, List.drop_drop,
      List.length_drop, hcut]
    congr 2
    · omega
    · omega

theorem lastN_concat_of_lt {n : Nat} {l : List α} (h : l.length < n) (a : α) :
    lastN n (l ++ [a]) = l ++ [a] :=
  lastN_of_le (by rw [List.length_append]; exact h)

theorem lastN_concat_of_eq {n : Nat} {l : List α} (h : l.length = n) (hn : 0 < n) (a : α) :
    lastN n (l ++ [a]) = l.tail ++ [a] := by
  unfold lastN
  have hone : (l ++ [a]).length - n = 1 := by
    rw [List.length_append, List.length_singleton]
    omega
  cases l with
  | nil => exact absurd h (Nat.ne_of_lt hn)
  | cons x l =>
      rw [hone]
      rfl

/-! ## The ring -/

/-- The buffer, the position of the next write once it is full, and whether it
has overwritten anything. -/
structure Ring (α : Type*) (cap : Nat) where
  buffer : List α := []
  writePos : Nat := 0
  wrapped : Bool := false
  bounded : buffer.length ≤ cap
  filling : wrapped = false → writePos = buffer.length % cap
  full : wrapped = true → buffer.length = cap ∧ writePos < cap

namespace Ring

variable {cap : Nat}

def empty (cap : Nat) : Ring α cap where
  buffer := []
  writePos := 0
  wrapped := false
  bounded := Nat.zero_le cap
  filling _ := (Nat.zero_mod cap).symm
  full h := absurd h Bool.false_ne_true

/-- The elements, oldest first. -/
def toList (r : Ring α cap) : List α :=
  if r.wrapped then r.buffer.drop r.writePos ++ r.buffer.take r.writePos else r.buffer

theorem length_toList (r : Ring α cap) : r.toList.length = r.buffer.length := by
  unfold toList
  split
  · rw [List.length_append, List.length_drop, List.length_take]
    omega
  · rfl

theorem toList_of_open (r : Ring α cap) (h : r.wrapped = false) : r.toList = r.buffer := by
  unfold toList
  rw [h]
  rfl

variable [NeZero cap]

def push (r : Ring α cap) (a : α) : Ring α cap :=
  if h : r.buffer.length < cap then
    { buffer := r.buffer ++ [a]
      writePos := (r.writePos + 1) % cap
      wrapped := r.wrapped
      bounded := by rwa [List.length_append]
      filling := fun hw => by rw [r.filling hw, List.length_append, Nat.mod_add_mod]; rfl
      full := fun hw => absurd (r.full hw).1 (Nat.ne_of_lt h) }
  else
    { buffer := r.buffer.set r.writePos a
      writePos := (r.writePos + 1) % cap
      wrapped := true
      bounded := by rw [List.length_set]; exact r.bounded
      filling := fun hw => absurd hw.symm Bool.false_ne_true
      full := fun _ => by
        rw [List.length_set]
        exact ⟨Nat.le_antisymm r.bounded (Nat.le_of_not_lt h),
          Nat.mod_lt _ (Nat.pos_of_neZero cap)⟩ }

/-- The position to write to is the oldest element's. -/
theorem toList_of_full (r : Ring α cap) (h : r.buffer.length = cap) :
    r.writePos < cap ∧ r.toList = r.buffer.drop r.writePos ++ r.buffer.take r.writePos := by
  cases hw : r.wrapped with
  | true =>
      refine ⟨(r.full hw).2, ?_⟩
      unfold toList
      rw [hw]
      rfl
  | false =>
      have hpos : r.writePos = 0 := by rw [r.filling hw, h, Nat.mod_self]
      rw [toList_of_open r hw, hpos, List.drop_zero, List.take_zero, List.append_nil]
      exact ⟨Nat.pos_of_neZero cap, rfl⟩

/-- Overwriting the element `b` drops it from the front of what is read. -/
theorem rotate_set (front back : List α) (b a : α) :
    let l := (front ++ b :: back).set front.length a
    let next := (front.length + 1) % l.length
    l.drop next ++ l.take next = (b :: back ++ front).tail ++ [a] := by
  have hset : (front ++ b :: back).set front.length a = front ++ a :: back := by
    rw [List.set_append_right front.length _ (Nat.le_refl _), Nat.sub_self]
    rfl
  have hlength : (front ++ a :: back).length = front.length + 1 + back.length := by
    rw [List.length_append, List.length_cons]
    omega
  dsimp only
  rw [hset, hlength]
  cases back with
  | nil =>
      -- the last position: the next write is at the start
      rw [List.length_nil, Nat.add_zero, Nat.mod_self]
      simp
  | cons c back =>
      have hnext : (front.length + 1) % (front.length + 1 + (c :: back).length) =
          front.length + 1 := Nat.mod_eq_of_lt (by simp)
      have hsplit : front ++ a :: c :: back = (front ++ [a]) ++ c :: back := by simp
      have hfront : (front ++ [a]).length = front.length + 1 := by simp
      rw [hnext, hsplit, ← hfront, List.drop_left, List.take_left]
      simp

/-- **A push keeps the last `cap` elements.** -/
theorem toList_push (r : Ring α cap) (a : α) :
    (r.push a).toList = lastN cap (r.toList ++ [a]) := by
  by_cases h : r.buffer.length < cap
  · have hw : r.wrapped = false :=
      Bool.eq_false_iff.mpr fun hw => Nat.ne_of_lt h (r.full hw).1
    have hpush : (r.push a).wrapped = false ∧ (r.push a).buffer = r.buffer ++ [a] := by
      unfold push
      rw [dif_pos h]
      exact ⟨hw, rfl⟩
    rw [toList_of_open _ hpush.1, hpush.2, toList_of_open r hw, lastN_concat_of_lt h]
  · have hfull : r.buffer.length = cap := Nat.le_antisymm r.bounded (Nat.le_of_not_lt h)
    obtain ⟨hpos, hread⟩ := toList_of_full r hfull
    have hpush : (r.push a).buffer = r.buffer.set r.writePos a ∧
        (r.push a).writePos = (r.writePos + 1) % cap := by
      unfold push
      rw [dif_neg h]
      exact ⟨rfl, rfl⟩
    have hfull' : (r.push a).buffer.length = cap := by rw [hpush.1, List.length_set, hfull]
    rw [lastN_concat_of_eq ((length_toList r).trans hfull) (Nat.pos_of_neZero cap), hread,
      (toList_of_full _ hfull').2, hpush.1, hpush.2]
    -- the buffer around the element that is overwritten
    have hlt : r.writePos < r.buffer.length := hfull.symm ▸ hpos
    have hfront : (r.buffer.take r.writePos).length = r.writePos :=
      List.length_take_of_le (Nat.le_of_lt hlt)
    have hsplit : r.buffer =
        r.buffer.take r.writePos ++ r.buffer[r.writePos] :: r.buffer.drop (r.writePos + 1) := by
      rw [← List.drop_eq_getElem_cons hlt, List.take_append_drop]
    have hrotate := rotate_set (r.buffer.take r.writePos) (r.buffer.drop (r.writePos + 1))
      r.buffer[r.writePos] a
    dsimp only at hrotate
    rwa [hfront, ← hsplit, List.length_set, hfull, ← List.drop_eq_getElem_cons hlt] at hrotate

end Ring

/-! ## A queue that drops its front -/

/-- Drop the front of a full queue, then append. -/
def pushDropping (cap : Nat) (q : List α) (a : α) : List α :=
  (if cap ≤ q.length then q.tail else q) ++ [a]

/-- Append, then drop the front of a queue that got too long. -/
def pushTrimming (cap : Nat) (q : List α) (a : α) : List α :=
  if cap < (q ++ [a]).length then (q ++ [a]).tail else q ++ [a]

theorem pushDropping_eq {cap : Nat} (hcap : 0 < cap) {q : List α} (h : q.length ≤ cap) (a : α) :
    pushDropping cap q a = lastN cap (q ++ [a]) := by
  unfold pushDropping
  rcases Nat.lt_or_eq_of_le h with hlt | heq
  · rw [if_neg (Nat.not_le_of_lt hlt), lastN_concat_of_lt hlt]
  · rw [if_pos (Nat.le_of_eq heq.symm), lastN_concat_of_eq heq hcap]

theorem pushTrimming_eq {cap : Nat} (hcap : 0 < cap) {q : List α} (h : q.length ≤ cap) (a : α) :
    pushTrimming cap q a = lastN cap (q ++ [a]) := by
  unfold pushTrimming
  rw [List.length_append, List.length_singleton]
  rcases Nat.lt_or_eq_of_le h with hlt | heq
  · rw [if_neg (Nat.not_lt_of_le hlt), lastN_concat_of_lt hlt]
  · rw [if_pos (heq ▸ Nat.lt_succ_self _), lastN_concat_of_eq heq hcap]
    cases q with
    | nil => exact absurd heq (Nat.ne_of_lt hcap)
    | cons x q => rfl

/-- A queue that trims each time it is pushed keeps the last elements of all. -/
theorem foldl_pushTrimming {cap : Nat} (hcap : 0 < cap) (l q : List α) (h : q.length ≤ cap) :
    l.foldl (pushTrimming cap) q = lastN cap (q ++ l) := by
  induction l generalizing q with
  | nil => rw [List.foldl_nil, List.append_nil, lastN_of_le h]
  | cons a l ih =>
      have hbound : (lastN cap (q ++ [a])).length ≤ cap := by
        rw [length_lastN]
        exact Nat.min_le_left _ _
      rw [List.foldl_cons, pushTrimming_eq hcap h, ih _ hbound, lastN_append, List.append_assoc]
      rfl

end MinRender
