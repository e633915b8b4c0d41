import Mathlib.Data.List.Basic
set_option autoImplicit false

namespace Blocks

/-- Cut the indices from `i` up to `n` into blocks, the one at `i` of `size i`
indices; the first argument bounds the number of blocks. -/
def cut (size : ℕ → ℕ) (n : ℕ) : ℕ → ℕ → List (List ℕ)
  | 0, _ => []
  | fuel+1, i => if i < n then List.range' i (size i) :: cut size n fuel (i+size i) else []

def Fits (size : ℕ → ℕ) (n : ℕ) : Prop := ∀ i, i < n → 1 ≤ size i ∧ i+size i ≤ n

theorem cut_flatten {size : ℕ → ℕ} {n : ℕ} (h : Fits size n) (fuel i : ℕ) (hi : i ≤ n)
    (hf : n ≤ fuel+i) : (cut size n fuel i).flatten = List.range' i (n-i) := by
  induction fuel generalizing i with
  | zero =>
    have hn : n-i = 0 := by omega
    rw [hn]
    rfl
  | succ fuel ih =>
    rw [cut]
    split
    · rename_i hlt
      obtain ⟨h1,hle⟩ := h i hlt
      have hn : n-i = size i+(n-(i+size i)) := by omega
      rw [List.flatten_cons, ih (i+size i) hle (by omega), hn, ← List.range'_append_1]
    · have hn : n-i = 0 := by omega
      rw [hn]
      rfl

theorem mem_cut {size : ℕ → ℕ} {n fuel i : ℕ} {block : List ℕ} (hb : block ∈ cut size n fuel i) :
    ∃ j, j < n ∧ block = List.range' j (size j) := by
  induction fuel generalizing i with
  | zero => cases hb
  | succ fuel ih =>
    rw [cut] at hb
    split at hb
    · rename_i hlt
      rcases List.mem_cons.mp hb with rfl | hb
      · exact ⟨i,hlt,rfl⟩
      · exact ih hb
    · cases hb

end Blocks
