import DmaCamera.Library.Runs
import DmaCamera.Library.Copying
import Mathlib.Data.Int.Basic
set_option autoImplicit false

namespace RandomAccess
open Runs Copying

/-- A file, the memory of its users, and the positions at which its open
descriptions are in it. -/
structure Machine (F A V : Type*) where
  content : ℕ → V
  memory : A → V
  position : F → ℕ

inductive Origin where
  | start
  | current
  | finish
  deriving DecidableEq, Repr

/-- A call, with the places of its buffer in memory; the result of one that fails
is `none`. Or the users store something. -/
inductive Event (F A V : Type*) where
  | seek (f : F) (origin : Option Origin) (offset : ℤ) (result : Option ℕ)
  | write (f : F) (place : ℕ → A) (n : ℕ) (result : Option ℕ)
  | read (f : F) (place : ℕ → A) (n : ℕ) (result : Option ℕ)
  | store (memory : A → V)

variable {F A V : Type*}

def Machine.base (s : Machine F A V) (finish : ℕ) (f : F) : Origin → ℤ
  | .start => 0
  | .current => s.position f
  | .finish => finish

def within (limit : ℕ) (p : ℤ) : Option ℕ := if 0 ≤ p ∧ p < limit then some p.toNat else none

def Machine.sought (s : Machine F A V) (limit finish : ℕ) (f : F) (origin : Option Origin)
    (offset : ℤ) : Option ℕ :=
  origin.bind fun o => within limit (s.base finish f o+offset)

def Machine.put (s : Machine F A V) (f : F) (place : ℕ → A) (done : ℕ) : Machine F A V :=
  { s with content := copy s.memory (pairs place (s.position f + ·) 0 done) s.content }

variable [DecidableEq F] [DecidableEq A]

def Machine.get (s : Machine F A V) (f : F) (place : ℕ → A) (done : ℕ) : Machine F A V :=
  { s with memory := copy s.content (pairs (s.position f + ·) place 0 done) s.memory }

def Machine.moveTo (s : Machine F A V) (f : F) (p : ℕ) : Machine F A V :=
  { s with position := Function.update s.position f p }

/-- A call that succeeds does all it is asked for, one that fails an initial part
of it, which counts for the position or not. -/
inductive Step (limit finish : ℕ) : Machine F A V → Event F A V → Machine F A V → Prop
  | seek (s : Machine F A V) (f : F) (origin : Option Origin) (offset : ℤ) :
      Step limit finish s (.seek f origin offset (s.sought limit finish f origin offset))
        (s.moveTo f ((s.sought limit finish f origin offset).getD (s.position f)))
  | write (s : Machine F A V) (f : F) (place : ℕ → A) (n : ℕ) :
      Step limit finish s (.write f place n (some n)) ((s.put f place n).moveTo f (s.position f+n))
  | read (s : Machine F A V) (f : F) (place : ℕ → A) (n : ℕ) :
      Step limit finish s (.read f place n (some n)) ((s.get f place n).moveTo f (s.position f+n))
  | writeFails (s : Machine F A V) (f : F) (place : ℕ → A) (n done p : ℕ) :
      done ≤ n → (p = s.position f ∨ p = s.position f+done) →
      Step limit finish s (.write f place n none) ((s.put f place done).moveTo f p)
  | readFails (s : Machine F A V) (f : F) (place : ℕ → A) (n done p : ℕ) :
      done ≤ n → (p = s.position f ∨ p = s.position f+done) →
      Step limit finish s (.read f place n none) ((s.get f place done).moveTo f p)
  | store (s : Machine F A V) (memory : A → V) :
      Step limit finish s (.store memory) { s with memory := memory }

/-- The call hands over data for the place `x` of the file. -/
def Event.writes (s : Machine F A V) (x : ℕ) : Event F A V → Prop
  | .write f _ n _ => s.position f ≤ x ∧ x < s.position f+n
  | _ => False

section steps

variable {limit finish : ℕ} {s t u : Machine F A V} {f g : F} {place : ℕ → A} {n done : ℕ}

omit [DecidableEq F] [DecidableEq A] in
theorem put_at {k : ℕ} (hk : k < done) :
    (s.put f place done).content (s.position f+k) = s.memory (place k) := by
  have hplaces : ∀ i < done, ∀ j < done, s.position f+i = s.position f+j → i = j :=
    fun _ _ _ _ h => Nat.add_left_cancel h
  exact copy_pairs s.content hplaces hk

omit [DecidableEq F] [DecidableEq A] in
theorem put_frame {x : ℕ} (hx : x < s.position f ∨ s.position f+done ≤ x) :
    (s.put f place done).content x = s.content x :=
  copy_pairs_frame s.content fun k hk => by omega

omit [DecidableEq F] in
theorem get_at (hplace : ∀ i < done, ∀ j < done, place i = place j → i = j) {k : ℕ}
    (hk : k < done) : (s.get f place done).memory (place k) = s.content (s.position f+k) :=
  copy_pairs s.memory hplace hk

theorem Step.wrote {r : ℕ} (h : Step limit finish s (.write f place n (some r)) t) : r = n := by
  cases h
  rfl

theorem Step.got {r : ℕ} (h : Step limit finish s (.read f place n (some r)) t) : r = n := by
  cases h
  rfl

theorem Step.kept {e : Event F A V} {x : ℕ} (h : Step limit finish s e t) (hx : ¬ e.writes s x) :
    t.content x = s.content x := by
  have hput {f : F} {n done : ℕ} (place : ℕ → A) (hd : done ≤ n)
      (hx : ¬ (s.position f ≤ x ∧ x < s.position f+n)) :
      (s.put f place done).content x = s.content x := put_frame (by omega)
  cases h with
  | seek f origin offset => rfl
  | write f place n => exact hput place (Nat.le_refl n) hx
  | read f place n => rfl
  | writeFails f place n done p hd hp => exact hput place hd hx
  | readFails f place n done p hd hp => rfl
  | store memory => rfl

theorem run_kept {es : List (Event F A V)} {x : ℕ}
    (r : Run (Step limit finish) (fun s e => ¬ e.writes s x) s es t) :
    t.content x = s.content x := by
  induction r with
  | nil => rfl
  | snoc _ hok hs ih => exact (hs.kept hok).trans ih

/-- What was written is read, by a read of any part of it, if nothing is written to
the places of that part in between. -/
theorem Step.readBack {m r r' : ℕ} {es : List (Event F A V)} {place' : ℕ → A}
    {s' u' : Machine F A V} (hw : Step limit finish s (.write f place n (some r)) s')
    (hrun : Run (Step limit finish)
      (fun v e => ∀ k < m, ¬ e.writes v (u.position g+k)) s' es u)
    (hr : Step limit finish u (.read g place' m (some r')) u')
    (hplace : ∀ i < m, ∀ j < m, place' i = place' j → i = j)
    (hlo : s.position f ≤ u.position g) (hhi : u.position g+m ≤ s.position f+n) {k : ℕ}
    (hk : k < m) : u'.memory (place' k) = s.memory (place (u.position g-s.position f+k)) := by
  have hkept := run_kept (hrun.mono fun _ _ hok => hok k hk)
  cases hw with
  | write =>
    cases hr with
    | read =>
      have hput := @put_at _ _ _ s f place n (u.position g-s.position f+k) (by omega)
      have hsame : s.position f+(u.position g-s.position f+k) = u.position g+k := by omega
      rw [hsame] at hput
      exact (get_at hplace hk).trans (hkept.trans hput)

end steps

end RandomAccess
