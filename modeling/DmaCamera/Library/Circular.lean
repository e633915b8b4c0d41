import Mathlib.Data.List.Basic
import Mathlib.Data.List.Nodup
import Mathlib.Logic.Function.Iterate
set_option autoImplicit false

namespace Circular

/-- The `n` consecutive slots from position `a` on, in a ring of `N` slots. -/
def span (N a n : ℕ) : List ℕ := (List.range n).map fun k => (a+k)%N

variable {N a b m n k : ℕ}

@[simp] theorem span_zero : span N a 0 = [] := rfl

@[simp] theorem span_length : (span N a n).length = n := by simp [span]

theorem span_add : span N a (m+n) = span N a m ++ span N (a+m) n := by
  simp only [span, List.range_add, List.map_append, List.map_map]
  congr 1
  apply List.map_congr_left
  intro k _
  simp [Nat.add_assoc]

theorem span_succ : span N a (n+1) = span N a n ++ [(a+n)%N] := by
  rw [span_add]
  simp [span]

theorem span_congr (h : a%N = b%N) : span N a n = span N b n := by
  apply List.map_congr_left
  intro k _
  rw [Nat.add_mod, h, ← Nat.add_mod]

theorem span_mod : span N (a%N) n = span N a n := span_congr (Nat.mod_mod _ _)

theorem mem_span {i : ℕ} : i ∈ span N a n ↔ ∃ k < n, (a+k)%N = i := by simp [span]

theorem slot_ne (hlt : a < b) (hround : b < a+N) : a%N ≠ b%N := by
  intro h
  have hd : N ∣ b-a := Nat.dvd_of_mod_eq_zero (Nat.sub_mod_eq_zero_of_mod_eq h.symm)
  have hle := Nat.le_of_dvd (by omega) hd
  omega

theorem slot_inj (h : a%N = b%N) (hab : a < b+N) (hba : b < a+N) : a = b := by
  rcases Nat.lt_trichotomy a b with hlt | heq | hlt
  · exact absurd h (slot_ne hlt hba)
  · exact heq
  · exact absurd h.symm (slot_ne hlt hab)

theorem mem_span_slot (hab : a ≤ b) (hround : b < a+N) (hn : n ≤ N) :
    b%N ∈ span N a n ↔ b < a+n := by
  rw [mem_span]
  constructor
  · rintro ⟨k,hk,h⟩
    have := slot_inj h (by omega) (by omega)
    omega
  · intro h
    exact ⟨b-a,by omega,by congr 1; omega⟩

/-- A function that takes each slot to the next one goes round the ring. -/
theorem iterate_round {α : Type*} {f : α → α} {slot : ℕ → α} (hN : 0 < N)
    (h : ∀ i < N, f (slot i) = slot ((i+1)%N)) (n : ℕ) : f^[n] (slot 0) = slot (n%N) := by
  induction n with
  | zero => rw [Nat.zero_mod, Function.iterate_zero_apply]
  | succ n ih => rw [Function.iterate_succ_apply', ih, h _ (Nat.mod_lt _ hN), Nat.mod_add_mod]

theorem distance (hm : m < N) : ((a+m)%N+N-a%N)%N = m := by
  have ha := Nat.mod_lt a (show 0 < N by omega)
  have hsum : (a+m)%N = (a%N+m)%N := by simp
  rw [hsum]
  by_cases h : a%N+m < N
  · rw [Nat.mod_eq_of_lt h]
    have hx : a%N+m+N-a%N = m+N := by omega
    rw [hx, Nat.add_mod_right, Nat.mod_eq_of_lt hm]
  · have hwrap : (a%N+m)%N = a%N+m-N := by
      rw [Nat.mod_eq_sub_mod (by omega), Nat.mod_eq_of_lt (by omega)]
    have hx : a%N+m-N+N-a%N = m := by omega
    rw [hwrap, hx, Nat.mod_eq_of_lt hm]

theorem add_distance (ha : a < N) (hb : b < N) : (a+(b+N-a)%N)%N = b := by
  by_cases h : a ≤ b
  · have hx : b+N-a = b-a+N := by omega
    have hd : (b-a)%N = b-a := Nat.mod_eq_of_lt (by omega)
    rw [hx, Nat.add_mod_right, hd, Nat.add_sub_cancel' h, Nat.mod_eq_of_lt hb]
  · have hd : (b+N-a)%N = b+N-a := Nat.mod_eq_of_lt (by omega)
    have hx : a+(b+N-a) = b+N := by omega
    rw [hd, hx, Nat.add_mod_right, Nat.mod_eq_of_lt hb]

theorem mem_span_round {i : ℕ} (hi : i < N) : i ∈ span N a N := by
  have ha := Nat.mod_lt a (show 0 < N by omega)
  have hdiv := Nat.div_add_mod a N
  by_cases h : a%N ≤ i
  · refine mem_span.mpr ⟨i-a%N,by omega,?_⟩
    have hx : a+(i-a%N) = i+N*(a/N) := by omega
    rw [hx, Nat.add_mul_mod_self_left, Nat.mod_eq_of_lt hi]
  · refine mem_span.mpr ⟨N+i-a%N,by omega,?_⟩
    have hx : a+(N+i-a%N) = i+N*(a/N+1) := by rw [Nat.mul_add]; omega
    rw [hx, Nat.add_mul_mod_self_left, Nat.mod_eq_of_lt hi]

theorem exists_position (hN : 0 < N) (a b : ℕ) : ∃ c, c%N = a%N ∧ b ≤ c ∧ c < b+N := by
  obtain ⟨k,hk,h⟩ := mem_span.mp (mem_span_round (a := b) (Nat.mod_lt a hN))
  exact ⟨b+k,h,by omega,by omega⟩

/-- Taking the positions from `b` to `c` away from those from `a` on, all of them
within one round from `b`. -/
theorem span_removeAll {c : ℕ} (hab : b ≤ a) (hround : a+m ≤ b+N) (hbc : b ≤ c) (hc : c ≤ b+N) :
    (span N a m).removeAll (span N b (c-b)) = span N (max a c) (a+m-max a c) := by
  induction m with
  | zero =>
    have h0 : a+0-max a c = 0 := by omega
    rw [h0]
    rfl
  | succ m ih =>
    have hmem : (a+m)%N ∈ span N b (c-b) ↔ a+m < c := by
      rw [mem_span_slot (by omega) (by omega) (by omega)]
      omega
    have hstep : ∀ l : List ℕ, (span N a m ++ l).removeAll (span N b (c-b)) =
        (span N a m).removeAll (span N b (c-b)) ++ l.removeAll (span N b (c-b)) := by
      simp [List.removeAll]
    rw [span_succ, hstep, ih (by omega)]
    by_cases h : a+m < c
    · have h1 : a+m-max a c = 0 := by omega
      have h2 : a+(m+1)-max a c = 0 := by omega
      rw [h1, h2]
      simp [List.removeAll, hmem.mpr h]
    · have h1 : a+(m+1)-max a c = (a+m-max a c)+1 := by omega
      have h2 : max a c+(a+m-max a c) = a+m := by omega
      rw [h1, span_succ, h2]
      simp [List.removeAll, mt hmem.mp h]

variable {α : Type*} {P Q : ℕ → α → Prop} {l : List α} {x : α}

def Along (P : ℕ → α → Prop) (a : ℕ) (l : List α) : Prop := ∀ j x, l[j]? = some x → P (a+j) x

theorem Along.nil : Along P a [] := by simp [Along]

theorem Along.mono (h : Along P a l) (hPQ : ∀ j x, l[j]? = some x → P (a+j) x → Q (a+j) x) :
    Along Q a l := fun j x hx => hPQ j x hx (h j x hx)

theorem Along.take (h : Along P a l) (n : ℕ) : Along P a (l.take n) := by
  intro j x hx
  rw [List.getElem?_take] at hx
  split at hx
  · exact h j x hx
  · cases hx

theorem Along.drop (h : Along P a l) (n : ℕ) : Along P (a+n) (l.drop n) := by
  intro j x hx
  rw [List.getElem?_drop] at hx
  rw [Nat.add_assoc]
  exact h (n+j) x hx

theorem Along.head (h : Along P a (x :: l)) : P a x := h 0 x rfl

theorem Along.tail (h : Along P a (x :: l)) : Along P (a+1) l := h.drop 1

theorem Along.snoc (h : Along P a l) (hx : P (a+l.length) x) : Along P a (l ++ [x]) := by
  intro j y hy
  rcases Nat.lt_or_ge j l.length with hlt | hge
  · rw [List.getElem?_append_left hlt] at hy
    exact h j y hy
  · rw [List.getElem?_append_right hge, List.getElem?_singleton] at hy
    split at hy
    · cases hy
      have hj : j = l.length := by omega
      rwa [hj]
    · cases hy

end Circular
