import Mathlib.Data.List.Nodup
import Mathlib.Data.List.Perm.Subperm

/-!
# Filling an array by assignments

An array is filled by a list of assignments, one after the other, in any order
of places.  Where no place is assigned twice, every assignment is visible in
the end, so the order does not matter; and as many assignments as the array has
cells leave no cell as it was.
-/

namespace Assignments

variable {α : Type} {writes : List (Nat × α)} {cells : List α}
  {position : Nat}

/-- The array after the assignments, the first one first. -/
def assign (writes : List (Nat × α)) (cells : List α) : List α :=
  writes.foldl (fun cells write => cells.set write.1 write.2) cells

@[simp]
theorem assign_nil : assign [] cells = cells := rfl

theorem assign_cons (write : Nat × α) (writes : List (Nat × α)) :
    assign (write :: writes) cells =
      assign writes (cells.set write.1 write.2) := rfl

@[simp]
theorem assign_length : (assign writes cells).length = cells.length := by
  induction writes generalizing cells with
  | nil => rfl
  | cons write writes ih => rw [assign_cons, ih, List.length_set]

/-- A cell that is not assigned stays. -/
theorem assign_of_notMem (absent : position ∉ writes.map Prod.fst) :
    (assign writes cells)[position]? = cells[position]? := by
  induction writes generalizing cells with
  | nil => rfl
  | cons write writes ih =>
      rw [List.map_cons, List.mem_cons, not_or] at absent
      rw [assign_cons, ih absent.2, List.getElem?_set_ne (Ne.symm absent.1)]

/-- A cell that is not assigned later holds what is assigned to it. -/
theorem assign_append_cons {value : α} {front back : List (Nat × α)}
    (absent : position ∉ back.map Prod.fst) (inside : position < cells.length) :
    (assign (front ++ (position, value) :: back) cells)[position]? =
      some value := by
  have parts : assign (front ++ (position, value) :: back) cells =
      assign back ((assign front cells).set position value) :=
    List.foldl_append ..
  rw [parts, assign_of_notMem absent, List.getElem?_set_self]
  rw [assign_length]
  exact inside

/-- A cell that is assigned once holds what was assigned. -/
theorem assign_of_mem {value : α} (distinct : (writes.map Prod.fst).Nodup)
    (member : (position, value) ∈ writes) (inside : position < cells.length) :
    (assign writes cells)[position]? = some value := by
  induction writes generalizing cells with
  | nil => simp at member
  | cons write writes ih =>
      rw [List.map_cons, List.nodup_cons] at distinct
      rw [assign_cons]
      rcases List.mem_cons.mp member with rfl | later
      · rw [assign_of_notMem distinct.1, List.getElem?_set_self inside]
      · exact ih distinct.2 later (by rw [List.length_set]; exact inside)

/-- A cell that is only ever assigned one value holds it. -/
theorem assign_of_forall {value : α} (member : position ∈ writes.map Prod.fst)
    (all : ∀ write ∈ writes, write.1 = position → write.2 = value)
    (inside : position < cells.length) :
    (assign writes cells)[position]? = some value := by
  induction writes generalizing cells with
  | nil => simp at member
  | cons write writes ih =>
      rw [assign_cons]
      by_cases later : position ∈ writes.map Prod.fst
      · exact ih later (fun write member => all write (by simp [member]))
          (by rw [List.length_set]; exact inside)
      · rw [List.map_cons, List.mem_cons, or_iff_left later] at member
        rw [assign_of_notMem later, ← all write (by simp) member.symm, member,
          List.getElem?_set_self (by rw [← member]; exact inside)]

/-- A cell holds what was assigned to it last. -/
theorem assign_last (inside : position < cells.length) :
    (assign writes cells)[position]? =
      ((writes.filter (·.1 = position)).getLast?.map Prod.snd).or
        cells[position]? := by
  induction writes generalizing cells with
  | nil => rfl
  | cons write writes ih =>
      rw [assign_cons, ih (by rw [List.length_set]; exact inside)]
      by_cases here : write.1 = position
      · subst here
        rw [List.filter_cons_of_pos (by simp), List.getLast?_cons,
          List.getElem?_set_self inside]
        cases (writes.filter (·.1 = write.1)).getLast? <;> rfl
      · rw [List.filter_cons_of_neg (by simpa using here),
          List.getElem?_set_ne here]

/-- Assigning the images of some values gives the images. -/
theorem assign_map {β : Type} {f : α → β} {cells' : List β}
    (inside : position < cells.length) (inside' : position < cells'.length)
    (same : cells'[position]? = cells[position]?.map f) :
    (assign (writes.map fun write => (write.1, f write.2)) cells')[position]? =
      (assign writes cells)[position]?.map f := by
  induction writes generalizing cells cells' with
  | nil => exact same
  | cons write writes ih =>
      rw [List.map_cons, assign_cons, assign_cons]
      apply ih
      · rw [List.length_set]
        exact inside
      · rw [List.length_set]
        exact inside'
      · by_cases here : write.1 = position
        · subst here
          rw [List.getElem?_set_self inside, List.getElem?_set_self inside']
          rfl
        · rw [List.getElem?_set_ne here, List.getElem?_set_ne here]
          exact same

/-- As many different places as there are cells are all the places. -/
theorem covers {places : List Nat} {count : Nat} (distinct : places.Nodup)
    (inside : ∀ place ∈ places, place < count) (enough : places.length = count) :
    places.Perm (List.range count) := by
  apply List.Subperm.perm_of_length_le
  · apply distinct.subperm
    intro place member
    exact List.mem_range.mpr (inside place member)
  · rw [List.length_range]
    exact Nat.le_of_eq enough.symm

end Assignments
