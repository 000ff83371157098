import Mathlib.Data.List.Basic

namespace ArenaAlligator.Regions

variable {α : Type}

def read (m : Nat → α) (pos len : Nat) : List α := (List.range len).map fun j => m (pos + j)

def write (m : Nat → α) (pos : Nat) (data : List α) : Nat → α :=
  fun i => if pos ≤ i then (data[i - pos]?).getD (m i) else m i

@[simp] theorem length_read (m : Nat → α) (pos len : Nat) : (read m pos len).length = len := by
  simp [read]

theorem read_congr {m k : Nat → α} {pos len : Nat} (h : ∀ i, pos ≤ i → i < pos + len → m i = k i) :
    read m pos len = read k pos len := by
  apply List.map_congr_left
  intro j hj
  have hlt := List.mem_range.mp hj
  exact h (pos + j) (by omega) (by omega)

theorem read_add (m : Nat → α) (pos n k : Nat) : read m pos (n + k) = read m pos n ++ read m (pos + n) k := by
  simp [read, List.range_add, Function.comp_def, Nat.add_assoc]

theorem write_outside (m : Nat → α) {pos : Nat} {data : List α} {i : Nat} (h : i < pos ∨ pos + data.length ≤ i) :
    write m pos data i = m i := by
  unfold write
  split
  · rw [List.getElem?_eq_none (by omega), Option.getD_none]
  · rfl

theorem write_inside (m : Nat → α) (pos : Nat) {data : List α} {j : Nat} (h : j < data.length) :
    write m pos data (pos + j) = data[j] := by
  simp [write, h]

theorem read_write (m : Nat → α) (pos : Nat) (data : List α) : read (write m pos data) pos data.length = data := by
  apply List.ext_getElem
  · simp
  · intro j hj hj'
    simp [read, write_inside m pos hj']

theorem read_write_append (m : Nat → α) (pos n : Nat) (data : List α) :
    read (write m (pos + n) data) pos (n + data.length) = read m pos n ++ data := by
  rw [read_add, read_write]
  congr 1
  apply read_congr
  intro i hi hlt
  exact write_outside m (Or.inl hlt)

theorem read_part (m : Nat → α) (pos : Nat) {start n len : Nat} (h : start + n ≤ len) :
    read m (pos + start) n = ((read m pos len).drop start).take n := by
  obtain ⟨rest, rfl⟩ := Nat.exists_eq_add_of_le h
  rw [Nat.add_assoc, read_add, read_add, List.drop_left' (length_read m pos start),
    List.take_left' (length_read m (pos + start) n)]

theorem read_write_cell (m : Nat → α) (pos len j : Nat) (x : α) :
    read (write m (pos + j) [x]) pos len = (read m pos len).set j x := by
  apply List.ext_getElem
  · simp
  · intro i hi hi'
    rw [List.getElem_set]
    split
    next hij =>
      subst hij
      simpa [read] using @write_inside α m (pos + j) [x] 0 Nat.zero_lt_one
    next hij =>
      have hout : pos + i < pos + j ∨ pos + j + [x].length ≤ pos + i := by
        simp only [List.length_singleton]
        omega
      simp [read, write_outside m hout]

end ArenaAlligator.Regions
