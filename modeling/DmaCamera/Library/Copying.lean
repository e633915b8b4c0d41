import Mathlib.Data.List.Nodup
import Mathlib.Logic.Function.Basic
set_option autoImplicit false

namespace Copying

variable {A B V : Type*}

def pairs (f : ℕ → A) (g : ℕ → B) (i n : ℕ) : List (A × B) :=
  (List.range' i n).map fun k => (f k,g k)

theorem mem_pairs {f : ℕ → A} {g : ℕ → B} {i n : ℕ} {m : A × B} (h : m ∈ pairs f g i n) :
    ∃ k, i ≤ k ∧ k < i+n ∧ m = (f k,g k) := by
  obtain ⟨k,hk,rfl⟩ := List.mem_map.mp h
  have hk := List.mem_range'_1.mp hk
  exact ⟨k,hk.1,hk.2,rfl⟩

variable [DecidableEq B]

/-- The target memory after every pair has been copied from its place in the
source to its place in the target, one after the other. -/
def copy (source : A → V) : List (A × B) → (B → V) → B → V
  | [], target => target
  | (a,b) :: moves, target => copy source moves (Function.update target b (source a))

theorem copy_append (source : A → V) (ms ns : List (A × B)) (target : B → V) :
    copy source (ms ++ ns) target = copy source ns (copy source ms target) := by
  induction ms generalizing target with
  | nil => rfl
  | cons m ms ih => exact ih _

theorem copy_frame {source : A → V} {ms : List (A × B)} {b : B} (target : B → V)
    (h : ∀ m ∈ ms, m.2 ≠ b) : copy source ms target b = target b := by
  induction ms generalizing target with
  | nil => rfl
  | cons m ms ih =>
    have hne : b ≠ m.2 := (h m (List.mem_cons_self ..)).symm
    exact (ih _ fun n hn => h n (List.mem_cons_of_mem _ hn)).trans (Function.update_of_ne hne _ _)

theorem copy_last {source : A → V} {ms ns : List (A × B)} {a : A} {b : B} (target : B → V)
    (h : ∀ n ∈ ns, n.2 ≠ b) : copy source (ms ++ (a,b) :: ns) target b = source a := by
  rw [copy_append]
  exact (copy_frame _ h).trans (Function.update_self _ _ _)

theorem copy_pairs {source : A → V} {f : ℕ → A} {g : ℕ → B} {n : ℕ} (target : B → V)
    (hg : ∀ i < n, ∀ j < n, g i = g j → i = j) {k : ℕ} (hk : k < n) :
    copy source (pairs f g 0 n) target (g k) = source (f k) := by
  have hcut : n = k+(1+(n-k-1)) := by omega
  have hsplit : pairs f g 0 n = pairs f g 0 k ++ (f k,g k) :: pairs f g (k+1) (n-k-1) := by
    rw [pairs, hcut, ← List.range'_append_1, ← List.range'_append_1, List.map_append]
    simp [pairs]
  rw [hsplit]
  refine copy_last target fun m hm => ?_
  obtain ⟨j,hlo,hhi,rfl⟩ := mem_pairs hm
  intro heq
  have hj := hg j (by omega) k hk heq
  omega

theorem copy_pairs_frame {source : A → V} {f : ℕ → A} {g : ℕ → B} {n : ℕ} {b : B} (target : B → V)
    (h : ∀ k < n, b ≠ g k) : copy source (pairs f g 0 n) target b = target b := by
  refine copy_frame target fun m hm => ?_
  obtain ⟨k,_,hk,rfl⟩ := mem_pairs hm
  exact (h k (by omega)).symm

/-- Copying to places that differ is what puts each value into its place and leaves
the others alone. -/
theorem eq_copy {source : A → V} {f : ℕ → A} {g : ℕ → B} {n : ℕ} {target after : B → V}
    (hg : ∀ i < n, ∀ j < n, g i = g j → i = j) (hat : ∀ k < n, after (g k) = source (f k))
    (hframe : ∀ b, (∀ k < n, b ≠ g k) → after b = target b) :
    after = copy source (pairs f g 0 n) target := by
  funext b
  by_cases hb : ∃ k < n, b = g k
  · obtain ⟨k,hk,rfl⟩ := hb
    exact (hat k hk).trans (copy_pairs target hg hk).symm
  · have hout : ∀ k < n, b ≠ g k := fun k hk heq => hb ⟨k,hk,heq⟩
    exact (hframe b hout).trans (copy_pairs_frame target hout).symm

end Copying
