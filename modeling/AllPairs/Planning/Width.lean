import AllPairs.Decimal.Numeral

/-!
How many tasks one batch may hold. A limit is positive, so the first task of a batch always has
room.
-/

namespace AllPairs

/-- The largest number of tasks in one batch. -/
inductive Width where
  | unbounded
  | atMost (limit : Nat) (pos : 0 < limit)
deriving DecidableEq

namespace Width

/-- The width with the given limit; zero stands for no limit. -/
def ofNat (limit : Nat) : Width :=
  if pos : 0 < limit then .atMost limit pos else .unbounded

/-- The limit, if there is one. -/
def limit? : Width → Option Nat
  | unbounded => none
  | atMost limit _ => some limit

/-- The limit as a number, the largest one of a word if there is no limit. -/
def toNat (width : Width) : Nat :=
  width.limit?.getD (wordSize - 1)

/-- A batch of this size may take one more task. -/
def HasRoom (width : Width) (size : Nat) : Prop :=
  ∀ limit ∈ width.limit?, size < limit

instance (width : Width) (size : Nat) : Decidable (width.HasRoom size) :=
  match width with
  | unbounded => .isTrue fun _ h => nomatch h
  | atMost limit _ => decidable_of_iff (size < limit) (by simp [HasRoom, limit?])

/-- Cuts a list into pieces of the given positive length; the last one may be shorter. -/
def pieces {α : Type} (length : Nat) (pos : 0 < length) : List α → List (List α)
  | [] => []
  | item :: rest => (item :: rest).take length :: pieces length pos ((item :: rest).drop length)
termination_by items => items.length
decreasing_by simp; omega

/-- Cuts a list into the fewest runs that fit the width, all but the last one full. -/
def chunks {α : Type} : Width → List α → List (List α)
  | _, [] => []
  | unbounded, items => [items]
  | atMost limit pos, items => pieces limit pos items

@[simp]
theorem hasRoom_unbounded (size : Nat) : unbounded.HasRoom size := by
  simp [HasRoom, limit?]

@[simp]
theorem hasRoom_atMost {limit size : Nat} {pos : 0 < limit} :
    (atMost limit pos).HasRoom size ↔ size < limit := by
  simp [HasRoom, limit?]

theorem hasRoom_zero (width : Width) : width.HasRoom 0 := by
  cases width <;> simp_all

@[simp]
theorem flatten_pieces {α : Type} (length : Nat) (pos : 0 < length) (items : List α) :
    (pieces length pos items).flatten = items := by
  fun_induction pieces length pos items with
  | case1 => rfl
  | case2 item rest ih => rw [List.flatten_cons, ih, List.take_append_drop]

@[simp]
theorem flatten_chunks {α : Type} (width : Width) (items : List α) :
    (width.chunks items).flatten = items := by
  cases items <;> cases width <;> simp [chunks]

end Width

/-- The limits that a planner keeps to. -/
structure PlanConfig where
  maxWidth : Width := .unbounded
deriving DecidableEq

end AllPairs
