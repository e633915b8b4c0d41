import DmaCamera.Library.Runs
import Mathlib.Logic.Function.Basic
set_option autoImplicit false

namespace Locking
open Runs

variable {κ α ℓ ρ β : Type*}

/-- What a call does to a resource while it holds its lock, access by access: a call
ends with a result, and until then it has a state of its own. -/
structure Program (α ℓ ρ β : Type*) where
  start : α → ℓ
  access : α → ℓ → ρ → (ℓ ⊕ β) × ρ

structure Locked (κ α ℓ ρ β : Type*) where
  resource : κ → ρ
  holder : κ → Option (α × ℓ)
  done : κ → List (α × β)

inductive LockOp (κ α : Type*) where
  | enter (k : κ) (a : α)
  | access (k : κ)

section system

variable [DecidableEq κ] (p : Program α ℓ ρ β)

def accessNext (s : Locked κ α ℓ ρ β) (k : κ) (a : α) : (ℓ ⊕ β) × ρ → Locked κ α ℓ ρ β
  | (.inl l,r) => { s with
      resource := Function.update s.resource k r
      holder := Function.update s.holder k (some (a,l)) }
  | (.inr b,r) =>
    { resource := Function.update s.resource k r
      holder := Function.update s.holder k none
      done := Function.update s.done k (s.done k ++ [(a,b)]) }

def lockNext (s : Locked κ α ℓ ρ β) : LockOp κ α → Option (Locked κ α ℓ ρ β)
  | .enter k a => match s.holder k with
    | none => some { s with holder := Function.update s.holder k (some (a,p.start a)) }
    | some _ => none
  | .access k => match s.holder k with
    | none => none
    | some (a,l) => some (accessNext s k a (p.access a l (s.resource k)))

end system

section serial

variable (p : Program α ℓ ρ β)

/-- A call that found the resource as `r`, and what it has made of it so far. -/
inductive Partway (a : α) (r : ρ) : ℓ → ρ → Prop
  | start : Partway a r (p.start a) r
  | access {l l' : ℓ} {r' r'' : ρ} :
      Partway a r l r' → p.access a l r' = (.inl l',r'') → Partway a r l' r''

def Performs (a : α) (r : ρ) (b : β) (r' : ρ) : Prop :=
  ∃ l m, Partway p a r l m ∧ p.access a l m = (.inr b,r')

inductive Serial (r₀ : ρ) : List (α × β) → ρ → Prop
  | nil : Serial r₀ [] r₀
  | snoc {cs : List (α × β)} {a : α} {b : β} {r r' : ρ} :
      Serial r₀ cs r → Performs p a r b r' → Serial r₀ (cs ++ [(a,b)]) r'

/-- The resource is what the calls that have ended would have made of it one after the
other, and what the holder of the lock has made of that. -/
def InOrder (r₀ : ρ) (cs : List (α × β)) (holder : Option (α × ℓ)) (now : ρ) : Prop :=
  ∃ r, Serial p r₀ cs r ∧ (holder = none → now = r) ∧
    ∀ a l, holder = some (a,l) → Partway p a r l now

variable {p}

theorem InOrder.enter {r₀ now : ρ} {cs : List (α × β)} (h : InOrder p r₀ cs none now) (a : α) :
    InOrder p r₀ cs (some (a,p.start a)) now := by
  obtain ⟨r,hs,hfree,-⟩ := h
  refine ⟨r,hs,by simp,?_⟩
  rintro a' l ⟨⟩
  rw [hfree rfl]
  exact .start

theorem InOrder.access {r₀ now r' : ρ} {cs : List (α × β)} {a : α} {l l' : ℓ}
    (h : InOrder p r₀ cs (some (a,l)) now) (ha : p.access a l now = (.inl l',r')) :
    InOrder p r₀ cs (some (a,l')) r' := by
  obtain ⟨r,hs,-,hheld⟩ := h
  refine ⟨r,hs,by simp,?_⟩
  rintro a' l'' ⟨⟩
  exact (hheld a l rfl).access ha

theorem InOrder.leave {r₀ now r' : ρ} {cs : List (α × β)} {a : α} {l : ℓ} {b : β}
    (h : InOrder p r₀ cs (some (a,l)) now) (ha : p.access a l now = (.inr b,r')) :
    InOrder p r₀ (cs ++ [(a,b)]) none r' := by
  obtain ⟨r,hs,-,hheld⟩ := h
  exact ⟨r',hs.snoc ⟨l,now,hheld a l rfl,ha⟩,fun _ => rfl,by simp⟩

variable [DecidableEq κ]

def unlocked (r₀ : κ → ρ) : Locked κ α ℓ ρ β := ⟨r₀,fun _ => none,fun _ => []⟩

/-- However the accesses of the calls are interleaved, on every resource they are in order. -/
theorem run_inOrder {r₀ : κ → ρ} {ops : List (LockOp κ α)} {s : Locked κ α ℓ ρ β}
    (r : Run (stepOf (lockNext p)) anyStep (unlocked r₀) ops s) (k : κ) :
    InOrder p (r₀ k) (s.done k) (s.holder k) (s.resource k) := by
  refine r.invariant (fun s => ∀ k, InOrder p (r₀ k) (s.done k) (s.holder k) (s.resource k))
    (fun k => ⟨r₀ k,.nil,fun _ => rfl,by simp [unlocked]⟩) (fun s op t h _ hs k => ?_) k
  cases op with
  | enter j a =>
    simp only [stepOf, lockNext] at hs
    cases hj : s.holder j with
    | some c =>
      rw [hj] at hs
      cases hs
    | none =>
      rw [hj] at hs
      cases hs
      by_cases hk : k = j
      · subst hk
        have hk := h k
        rw [hj] at hk
        dsimp only
        rw [Function.update_self]
        exact hk.enter a
      · dsimp only
        rw [Function.update_of_ne hk]
        exact h k
  | access j =>
    simp only [stepOf, lockNext] at hs
    cases hj : s.holder j with
    | none =>
      rw [hj] at hs
      cases hs
    | some c =>
      obtain ⟨a,l⟩ := c
      rw [hj] at hs
      cases hs
      have hheld := h j
      rw [hj] at hheld
      cases hacc : p.access a l (s.resource j) with
      | mk w r' =>
        cases w with
        | inl l' =>
          by_cases hk : k = j
          · subst hk
            simp only [accessNext, Function.update_self]
            exact hheld.access hacc
          · simp only [accessNext, Function.update_of_ne hk]
            exact h k
        | inr b =>
          by_cases hk : k = j
          · subst hk
            simp only [accessNext, Function.update_self]
            exact hheld.leave hacc
          · simp only [accessNext, Function.update_of_ne hk]
            exact h k

end serial

end Locking
