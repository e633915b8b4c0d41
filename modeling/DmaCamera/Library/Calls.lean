import Mathlib.Logic.Basic
set_option autoImplicit false

namespace Calls

/-- A call returns a value or dies of a fault, and leaves a state in both cases. -/
abbrev Call (ε σ α : Type) := ExceptT ε (StateM σ) α

variable {ε σ α β : Type} {p : Call ε σ α} {f : α → Call ε σ β} {s t : σ}
  {Q Q' : α → σ → Prop} {D D' : ε → σ → Prop}

def Call.outcome (p : Call ε σ α) (s : σ) : Except ε α × σ := p.run.run s

/-- `Q` holds where the call returns, `D` where it dies. -/
def Ends (p : Call ε σ α) (s : σ) (Q : α → σ → Prop) (D : ε → σ → Prop) : Prop :=
  match p.outcome s with
  | (.ok a,t) => Q a t
  | (.error e,t) => D e t

theorem ends_of_ok {a : α} (h : p.outcome s = (.ok a,t)) : Ends p s Q D ↔ Q a t := by
  rw [Ends, h]

theorem ends_of_error {e : ε} (h : p.outcome s = (.error e,t)) : Ends p s Q D ↔ D e t := by
  rw [Ends, h]

theorem Ends.mono (h : Ends p s Q D) (hQ : ∀ a t, Q a t → Q' a t) (hD : ∀ e t, D e t → D' e t) :
    Ends p s Q' D' := by
  rcases hp : p.outcome s with ⟨e | a,t⟩
  · rw [ends_of_error hp] at h ⊢
    exact hD e t h
  · rw [ends_of_ok hp] at h ⊢
    exact hQ a t h

theorem Ends.and (h : Ends p s Q D) (h' : Ends p s Q' D') :
    Ends p s (fun a t => Q a t ∧ Q' a t) fun e t => D e t ∧ D' e t := by
  rcases hp : p.outcome s with ⟨e | a,t⟩
  · rw [ends_of_error hp] at *
    exact ⟨h,h'⟩
  · rw [ends_of_ok hp] at *
    exact ⟨h,h'⟩

@[simp] theorem ends_pure (a : α) : Ends (pure a : Call ε σ α) s Q D ↔ Q a s := Iff.rfl

@[simp] theorem ends_throw (e : ε) : Ends (throw e : Call ε σ α) s Q D ↔ D e s := Iff.rfl

@[simp] theorem ends_get {Q : σ → σ → Prop} : Ends (get : Call ε σ σ) s Q D ↔ Q s s := Iff.rfl

@[simp] theorem ends_modify {g : σ → σ} {Q : Unit → σ → Prop} :
    Ends (modify g : Call ε σ Unit) s Q D ↔ Q () (g s) := Iff.rfl

theorem outcome_bind_ok {a : α} (h : p.outcome s = (.ok a,t)) :
    (p >>= f).outcome s = (f a).outcome t := by
  change (ExceptT.bindCont f (p.outcome s).1).run (p.outcome s).2 = _
  rw [h]
  rfl

theorem outcome_bind_error {e : ε} (h : p.outcome s = (.error e,t)) :
    (p >>= f).outcome s = (.error e,t) := by
  change (ExceptT.bindCont f (p.outcome s).1).run (p.outcome s).2 = _
  rw [h]
  rfl

@[simp] theorem ends_bind {Q : β → σ → Prop} :
    Ends (p >>= f) s Q D ↔ Ends p s (fun a t => Ends (f a) t Q D) D := by
  rcases hp : p.outcome s with ⟨e | a,t⟩
  · rw [ends_of_error hp, ends_of_error (outcome_bind_error hp)]
  · rw [ends_of_ok hp, Ends, Ends, outcome_bind_ok hp]

theorem ends_ite {c : Prop} [Decidable c] {q : Call ε σ α} :
    Ends (if c then p else q) s Q D ↔ if c then Ends p s Q D else Ends q s Q D := by
  split <;> rfl

theorem Ends.of_ok {a : α} (h : Ends p s Q D) (hp : p.outcome s = (.ok a,t)) : Q a t :=
  (ends_of_ok hp).mp h

theorem Ends.of_error {e : ε} (h : Ends p s Q D) (hp : p.outcome s = (.error e,t)) : D e t :=
  (ends_of_error hp).mp h

theorem Ends.returns (h : Ends p s Q fun _ _ => False) : ∃ a t, p.outcome s = (.ok a,t) ∧ Q a t := by
  rcases hp : p.outcome s with ⟨e | a,t⟩
  · exact (h.of_error hp).elim
  · exact ⟨a,t,rfl,h.of_ok hp⟩

theorem ends_outcome (p : Call ε σ α) (s : σ) :
    Ends p s (fun a t => p.outcome s = (.ok a,t)) fun e t => p.outcome s = (.error e,t) := by
  rcases hp : p.outcome s with ⟨e | a,t⟩
  · rw [ends_of_error hp]
  · rw [ends_of_ok hp]

end Calls
