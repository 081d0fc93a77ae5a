import Mathlib.Data.List.Nodup

/-!
# Cells of an enumeration

Values that are kept for each element of an enumeration lie in one flat vector, and
a pair of enumerations is laid out row by row. No element is outside the vector,
and no two share a cell.
-/
namespace Pccs.Cells

/-- All the values of a type in their order, and the place of each. -/
class Indexed (ι : Type) where
  all : List ι
  index : ι → Nat
  index_all : all.map index = List.range all.length
  mem_all : ∀ i, i ∈ all

export Indexed (all index index_all mem_all)

section Order

variable {ι κ V : Type} [Indexed ι] [Indexed κ]

def size (ι : Type) [Indexed ι] : Nat := (all : List ι).length

theorem index_lt (i : ι) : index i < size ι := by
  have hmem : index i ∈ List.range (size ι) := by
    rw [size, ← index_all]
    exact List.mem_map_of_mem (mem_all i)
  exact List.mem_range.mp hmem

theorem index_nodup : ((all : List ι).map index).Nodup := by
  rw [index_all]
  exact List.nodup_range

theorem all_nodup : (all : List ι).Nodup := List.Nodup.of_map index index_nodup

theorem index_inj {i j : ι} (h : index i = index j) : i = j :=
  List.inj_on_of_nodup_map index_nodup (mem_all i) (mem_all j) h

theorem get_all (i : ι) : (all : List ι)[index i]? = some i := by
  obtain ⟨k, hk, hget⟩ := List.getElem_of_mem (mem_all i)
  have hindex : ((all : List ι).map index)[k]? = (List.range (all : List ι).length)[k]? := by
    rw [index_all]
  have hki : index i = k := by simpa [hk, hget] using hindex
  rw [hki, List.getElem?_eq_getElem hk, hget]

/-- The first values are those with the first places. -/
theorem mem_take_all {i : ι} {n : Nat} : i ∈ (all : List ι).take n ↔ index i < n := by
  constructor
  · intro h
    have hmem : index i ∈ ((all : List ι).take n).map index := List.mem_map_of_mem h
    rw [List.map_take, index_all, List.take_range, List.mem_range] at hmem
    omega
  · intro h
    exact List.mem_of_getElem? ((List.getElem?_take_of_lt h).trans (get_all i))

theorem range_mul (m n : Nat) :
    (List.range m).flatMap (fun i => (List.range n).map fun j => i * n + j) =
      List.range (m * n) := by
  induction m with
  | zero => simp
  | succ m ih =>
    rw [List.range_succ, List.flatMap_append, ih, Nat.succ_mul, List.range_add]
    simp

/-- Row by row, as two loops one inside the other. -/
instance : Indexed (ι × κ) where
  all := all.flatMap fun i => all.map fun j => (i, j)
  index p := index p.1 * size κ + index p.2
  index_all := by
    have hlength : ((all : List ι).flatMap fun i => (all : List κ).map fun j => (i, j)).length =
        size ι * size κ := by
      simp [List.length_flatMap, size]
    rw [hlength, ← range_mul, size, size, ← index_all, ← index_all, List.map_flatMap,
      List.flatMap_map]
    simp [Function.comp_def]
  mem_all p := by
    simp only [List.mem_flatMap, List.mem_map]
    exact ⟨p.1, mem_all _, p.2, mem_all _, rfl⟩

theorem flatMap_all {β : Type} (f : ι × κ → List β) :
    (all : List (ι × κ)).flatMap f = all.flatMap fun i => all.flatMap fun j => f (i, j) := by
  change ((all : List ι).flatMap fun i => (all : List κ).map fun j => (i, j)).flatMap f = _
  rw [List.flatMap_assoc]
  congr 1
  funext i
  rw [List.flatMap_map]

end Order

section Storage

variable {ι V : Type} [Indexed ι]

abbrev Table (ι V : Type) [Indexed ι] : Type := Vector V (size ι)

/-- The same value everywhere. -/
def fill (ι : Type) [Indexed ι] (v : V) : Table ι V := .replicate (size ι) v

def cell (c : Table ι V) (i : ι) : V := c.get ⟨index i, index_lt i⟩

def modify (c : Table ι V) (i : ι) (f : V → V) : Table ι V :=
  c.set (index i) (f (cell c i)) (index_lt i)

@[simp] theorem cell_fill (v : V) (i : ι) : cell (fill ι v) i = v := by
  simp [cell, fill, Vector.get]

theorem cell_modify [DecidableEq ι] (c : Table ι V) (i j : ι) (f : V → V) :
    cell (modify c i f) j = if i = j then f (cell c j) else cell c j := by
  have hset := @Vector.getElem_set V (size ι) c (index i) (f (cell c i)) (index_lt i)
    (index j) (index_lt j)
  by_cases hij : i = j
  · subst hij
    rw [if_pos rfl] at hset ⊢
    exact hset
  · rw [if_neg (mt index_inj hij)] at hset
    rw [if_neg hij]
    exact hset

end Storage

end Pccs.Cells
