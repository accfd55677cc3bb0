import Mathlib.Data.List.Basic

/-!
# Queues with their history

A `Fifo` holds what is queued and, for the statements about it only, what was taken out so far.  All that was ever put in
(`arrived`) is the one followed by the other, and taking does not change it: nothing is lost, duplicated or reordered.
-/

namespace EdUsb.Lib

structure Fifo (α : Type) where
  taken : List α
  queue : List α

namespace Fifo

variable {α : Type}

def empty : Fifo α := ⟨[], []⟩

/-- The queue with `xs` put in behind. -/
def put (f : Fifo α) (xs : List α) : Fifo α := ⟨f.taken, f.queue ++ xs⟩

/-- The queue with its first `k` elements taken out. -/
def take (f : Fifo α) (k : ℕ) : Fifo α := ⟨f.taken ++ f.queue.take k, f.queue.drop k⟩

/-- All that was ever put in. -/
def arrived (f : Fifo α) : List α := f.taken ++ f.queue

/-- What was taken out between the state `f` and the later state `g`. -/
def between (f g : Fifo α) : List α := g.taken.drop f.taken.length

variable (f : Fifo α) (xs ys : List α) (k : ℕ)

@[simp] theorem taken_put : (f.put xs).taken = f.taken := rfl
@[simp] theorem queue_put : (f.put xs).queue = f.queue ++ xs := rfl
@[simp] theorem taken_take : (f.take k).taken = f.taken ++ f.queue.take k := rfl
@[simp] theorem queue_take : (f.take k).queue = f.queue.drop k := rfl
@[simp] theorem put_nil : f.put [] = f := by simp [put]
@[simp] theorem put_put : (f.put xs).put ys = f.put (xs ++ ys) := by simp [put]

@[simp] theorem arrived_put : (f.put xs).arrived = f.arrived ++ xs := by simp [arrived]
@[simp] theorem arrived_take : (f.take k).arrived = f.arrived := by simp [arrived]

@[simp] theorem between_put (g : Fifo α) : f.between (g.put xs) = f.between g := rfl

/-- Put in, then taken out, then put in again: what was taken out is the front of the queue in between. -/
theorem between_put_take : f.between (((f.put xs).take k).put ys) = (f.queue ++ xs).take k := by simp [between]

theorem take_take (j : ℕ) : (f.take j).take k = f.take (j + k) := by
  simp [take, List.take_add, List.drop_drop]

/-- What is put in behind does not matter to what is taken out in front. -/
theorem take_put (h : k ≤ f.queue.length) : (f.take k).put xs = (f.put xs).take k := by
  simp [take, put, List.take_append_of_le_length h, List.drop_append_of_le_length h]

end Fifo

end EdUsb.Lib
