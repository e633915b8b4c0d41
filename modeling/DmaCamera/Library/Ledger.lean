import Mathlib.Data.List.Induction
set_option autoImplicit false

namespace Ledger

variable {ρ : Type*} [DecidableEq ρ]

inductive Event (ρ : Type*) where
  | acquire (r : ρ)
  | release (r : ρ)
  deriving DecidableEq, Repr

open Event

def returned : Option ℕ → Option ℕ
  | some (n+1) => some n
  | _ => none

def post (r : ρ) (b : Option ℕ) : Event ρ → Option ℕ
  | acquire r' => if r' = r then b.map (· + 1) else b
  | release r' => if r' = r then returned b else b

/-- How often `r` is held at the end of a trace; there is no answer once `r` has
been released while it was not held. -/
def balance (r : ρ) (t : List (Event ρ)) : Option ℕ := t.foldl (post r) (some 0)

@[simp] theorem balance_nil (r : ρ) : balance r [] = some 0 := rfl

@[simp] theorem balance_snoc (r : ρ) (t : List (Event ρ)) (e : Event ρ) :
    balance r (t ++ [e]) = post r (balance r t) e := by
  simp [balance]

@[simp] theorem returned_some_succ (n : ℕ) : returned (some (n+1)) = some n := rfl

@[simp] theorem returned_some_zero : returned (some 0) = none := rfl

@[simp] theorem returned_some_one : returned (some 1) = some 0 := rfl

theorem returned_eq_some {b : Option ℕ} {n : ℕ} : returned b = some n ↔ b = some (n+1) := by
  rcases b with _ | _ | m
  · simp [returned]
  · simp
  · simp

theorem returned_map_succ (b : Option ℕ) : returned (b.map (· + 1)) = b := by
  cases b <;> rfl

theorem balance_each {r : ρ} {c : ρ → Event ρ} {f : Option ℕ → Option ℕ}
    (hc : ∀ r' b, post r b (c r') = if r' = r then f b else b) (t : List (Event ρ)) {rs : List ρ}
    (hn : rs.Nodup) : balance r (t ++ rs.map c) = if r ∈ rs then f (balance r t) else balance r t := by
  induction rs using List.reverseRecOn with
  | nil => simp
  | append_singleton rs r' ih =>
    have hrs := (List.nodup_append.mp hn).1
    have hr' : r' ∉ rs := fun h => (List.nodup_append.mp hn).2.2 r' h r' (by simp) rfl
    rw [List.map_append, ← List.append_assoc, List.map_singleton, balance_snoc, ih hrs, hc]
    by_cases h : r' = r
    · subst h
      simp [hr']
    · simp [h, Ne.symm h]

theorem balance_acquired (r : ρ) (t : List (Event ρ)) {rs : List ρ} (hn : rs.Nodup) :
    balance r (t ++ rs.map acquire) =
      if r ∈ rs then (balance r t).map (· + 1) else balance r t :=
  balance_each (fun _ _ => rfl) t hn

theorem balance_released (r : ρ) (t : List (Event ρ)) {rs : List ρ} (hn : rs.Nodup) :
    balance r (t ++ rs.map release) = if r ∈ rs then returned (balance r t) else balance r t :=
  balance_each (fun _ _ => rfl) t hn

theorem balance_returned (r : ρ) {rs ss : List ρ} (hn : rs.Nodup) (hp : rs.Perm ss) :
    balance r (rs.map acquire ++ ss.map release) = some 0 := by
  have h := balance_acquired r [] hn
  rw [List.nil_append] at h
  rw [balance_released r _ (hp.nodup_iff.mp hn), h]
  simp only [hp.mem_iff, balance_nil, Option.map_some]
  split <;> rfl

/-- No resource is released more often than it was acquired, at no time, and in
the end `n` acquisitions of `r` are left. -/
structure Settled (r : ρ) (t : List (Event ρ)) (n : ℕ) : Prop where
  sane : ∀ p, p <+: t → p.count (release r) ≤ p.count (acquire r)
  left : t.count (acquire r) = t.count (release r) + n

theorem settled_nil {r : ρ} {n : ℕ} : Settled r [] n ↔ n = 0 := by
  constructor
  · intro h
    have hl := h.left
    simp only [List.count_nil] at hl
    omega
  · rintro rfl
    refine ⟨fun p hp => ?_,rfl⟩
    simp [List.prefix_nil.mp hp]

theorem settled_snoc {r : ρ} {t : List (Event ρ)} {e : Event ρ} {n : ℕ} :
    Settled r (t ++ [e]) n ↔ (∃ m, Settled r t m) ∧
      (t ++ [e]).count (acquire r) = (t ++ [e]).count (release r) + n := by
  constructor
  · intro h
    have ht := h.sane t (List.prefix_append t [e])
    exact ⟨⟨_,fun p hp => h.sane p (hp.trans (List.prefix_append t [e])),
      (Nat.add_sub_cancel' ht).symm⟩,h.left⟩
  · rintro ⟨⟨m,h⟩,hl⟩
    refine ⟨fun p hp => ?_,hl⟩
    rcases List.prefix_concat_iff.mp hp with rfl | hp
    · omega
    · exact h.sane p hp

/-- The balance is what the two counts say, at every moment. -/
theorem balance_eq_some {r : ρ} {t : List (Event ρ)} {n : ℕ} :
    balance r t = some n ↔ Settled r t n := by
  induction t using List.reverseRecOn generalizing n with
  | nil => simp [settled_nil, eq_comm]
  | append_singleton t e ih =>
    rw [settled_snoc, balance_snoc]
    cases hb : balance r t with
    | none =>
      have hnot : ¬∃ m, Settled r t m := by
        rintro ⟨m,hm⟩
        rw [ih.mpr hm] at hb
        cases hb
      cases e <;> simp [post, returned, hnot]
    | some k =>
      have hk := ih.mp hb
      have hl := hk.left
      simp only [show (∃ m, Settled r t m) from ⟨k,hk⟩, true_and, List.count_append]
      cases e with
      | acquire r' =>
        by_cases hr : r' = r
        · simp [post, hr]
          omega
        · simp [post, hr]
          omega
      | release r' =>
        by_cases hr : r' = r
        · simp only [post, hr, if_true, returned_eq_some]
          simp
          omega
        · simp [post, hr]
          omega

end Ledger
