import Mathlib.Logic.Function.Basic
set_option autoImplicit false

namespace Loops

variable {α β : Type*}

def forLoop : Nat → (Nat → α → α) → α → α
  | 0, _, a => a
  | n+1, f, a => f n (forLoop n f a)

theorem forLoop_invariant (P : Nat → α → Prop) {f : Nat → α → α} {a : α} (n : Nat)
    (h₀ : P 0 a) (hs : ∀ i b, i < n → P i b → P (i+1) (f i b)) : P n (forLoop n f a) := by
  induction n with
  | zero => exact h₀
  | succ n ih =>
    have h := ih fun i b hi hb => hs i b (by omega) hb
    exact hs n _ (by omega) h

theorem forLoop_log (log : α → List β) (g : Nat → List β) {f : Nat → α → α} {a : α} (n : Nat)
    (h : ∀ i b, i < n → log (f i b) = log b ++ g i) :
    log (forLoop n f a) = log a ++ (List.range n).flatMap g := by
  induction n with
  | zero => simp [forLoop]
  | succ n ih =>
    have hn := ih fun i b hi => h i b (by omega)
    simp [forLoop, h n _ (by omega), hn, List.range_succ]

theorem forLoop_update (n : Nat) (g : Nat → β → β) (d : Nat → β) (k : Nat) :
    forLoop n (fun i e => Function.update e i (g i (e i))) d k =
      if k < n then g k (d k) else d k := by
  induction n generalizing k with
  | zero => simp [forLoop]
  | succ n ih =>
    simp only [forLoop]
    by_cases hk : k = n
    · subst k
      simp [ih]
    · rw [Function.update_of_ne hk, ih]
      have hlt : k < n+1 ↔ k < n := by omega
      simp only [hlt]

/-- `while (more(a)) a = body(a)`, for at most as many rounds as the fuel allows. -/
def whileLoop (more : α → Bool) (body : α → α) : Nat → α → α
  | 0, a => a
  | fuel+1, a => if more a then whileLoop more body fuel (body a) else a

/-- What holds after `k` rounds holds at the end, for some `k`; the loop has come
to its own end unless `k` is all the fuel. -/
theorem whileLoop_rounds {more : α → Bool} {body : α → α} (P : Nat → α → Prop) (fuel : Nat)
    {a : α} {z : Nat} (h₀ : P z a) (hs : ∀ k b, P k b → more b = true → P (k+1) (body b)) :
    ∃ k ≤ fuel, P (z+k) (whileLoop more body fuel a) ∧
      (more (whileLoop more body fuel a) = false ∨ k = fuel) := by
  induction fuel generalizing a z with
  | zero => exact ⟨0,Nat.le_refl _,h₀,Or.inr rfl⟩
  | succ fuel ih =>
    cases hm : more a with
    | false => exact ⟨0,by omega,by simpa [whileLoop, hm] using h₀,by simp [whileLoop, hm]⟩
    | true =>
      obtain ⟨k,hk,hP,hend⟩ := ih (hs z a h₀ hm)
      have hsum : z+1+k = z+(k+1) := by omega
      refine ⟨k+1,by omega,?_,?_⟩
      · rw [← hsum]
        simpa [whileLoop, hm] using hP
      · simpa [whileLoop, hm] using hend

/-- `for (b in bs) { rc = f(b); if (rc) break; }`, with the last return code. -/
def tryEach (f : β → α → Int × α) : List β → α → Int × α
  | [], a => (0,a)
  | b :: bs, a => if (f b a).1 ≠ 0 then f b a else tryEach f bs (f b a).2

@[simp] theorem tryEach_nil (f : β → α → Int × α) (a : α) : tryEach f [] a = (0,a) := rfl

theorem tryEach_cons_of_fails {f : β → α → Int × α} {b : β} {a : α} (bs : List β)
    (h : (f b a).1 ≠ 0) : tryEach f (b :: bs) a = f b a := if_pos h

theorem tryEach_cons_of_passes {f : β → α → Int × α} {b : β} {a : α} (bs : List β)
    (h : (f b a).1 = 0) : tryEach f (b :: bs) a = tryEach f bs (f b a).2 :=
  if_neg (fun hn => hn h)

theorem tryEach_invariant (P : α → Prop) {f : β → α → Int × α} {bs : List β} {a : α} (h₀ : P a)
    (hs : ∀ b ∈ bs, ∀ a, P a → P (f b a).2) : P (tryEach f bs a).2 := by
  induction bs generalizing a with
  | nil => exact h₀
  | cons b bs ih =>
    have hb := hs b (by simp) a h₀
    by_cases hf : (f b a).1 = 0
    · rw [tryEach_cons_of_passes bs hf]
      exact ih hb fun c hc => hs c (by simp [hc])
    · rw [tryEach_cons_of_fails bs hf]
      exact hb

theorem tryEach_fails (P : α → Prop) {f : β → α → Int × α} {bad : β → Prop} (bs : List β) {a : α}
    (h₀ : P a) (hs : ∀ b a, P a → P (f b a).2) (h : ∀ b a, P a → ((f b a).1 ≠ 0 ↔ bad b)) :
    (tryEach f bs a).1 ≠ 0 ↔ ∃ b ∈ bs, bad b := by
  induction bs generalizing a with
  | nil => simp
  | cons b bs ih =>
    by_cases hf : (f b a).1 = 0
    · have hb : ¬bad b := fun hb => (h b a h₀).mpr hb hf
      rw [tryEach_cons_of_passes bs hf, ih (hs b a h₀)]
      simp [hb]
    · rw [tryEach_cons_of_fails bs hf]
      simp [hf, (h b a h₀).mp hf]

end Loops
