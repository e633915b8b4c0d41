import DmaCamera.Library.Countdown
set_option autoImplicit false

namespace Framing
open Countdown

variable {α : Type*} (last : α → Bool)

def closes (l : List α) : Bool := l.getLast?.any last

def Unbroken (l : List α) : Prop := ∀ x ∈ l.dropLast, last x = false

def IsFrame (l : List α) : Prop := closes last l = true ∧ Unbroken last l

instance (l : List α) : Decidable (Unbroken last l) := List.decidableBAll _ _

instance (l : List α) : Decidable (IsFrame last l) := inferInstanceAs (Decidable (_ ∧ _))

def framesFrom : List α → List α → List (List α)
  | _, [] => []
  | front, x :: xs =>
    if last x then (front ++ [x]) :: framesFrom [] xs else framesFrom (front ++ [x]) xs

/-- A stream cut behind each end marker, without what follows the last one. -/
def frames (l : List α) : List (List α) := framesFrom last [] l

variable {last} {l m rest : List α} {x : α}

@[simp] theorem closes_nil : closes last [] = false := rfl

@[simp] theorem closes_concat : closes last (l ++ [x]) = last x := by simp [closes]

theorem closes_append (h : m ≠ []) : closes last (l ++ m) = closes last m := by
  rw [closes, List.getLast?_append_of_ne_nil _ h, closes]

theorem unbroken_nil : Unbroken last [] := by simp [Unbroken]

theorem Unbroken.append (hl : ∀ x ∈ l, last x = false) (hm : Unbroken last m) :
    Unbroken last (l ++ m) := by
  intro x hx
  rw [List.dropLast_append] at hx
  split at hx
  · exact hl x (List.dropLast_subset l hx)
  · exact (List.mem_append.mp hx).elim (hl x) (hm x)

theorem Unbroken.plain (h : Unbroken last l) (hopen : closes last l = false) :
    ∀ x ∈ l, last x = false := by
  rcases List.eq_nil_or_concat l with rfl | ⟨l,y,rfl⟩
  · simp
  · intro x hx
    simp only [List.concat_eq_append, List.mem_append, List.mem_singleton] at hx hopen h
    rcases hx with hx | rfl
    · exact h x (by simpa using hx)
    · simpa using hopen

theorem closes_plain (h : ∀ x ∈ l, last x = false) : closes last l = false := by
  rcases List.eq_nil_or_concat l with rfl | ⟨l,y,rfl⟩
  · rfl
  · rw [List.concat_eq_append, closes_concat]
    exact h y (by simp)

theorem IsFrame.ne_nil (h : IsFrame last l) : l ≠ [] := by
  rintro rfl
  exact absurd h.1 (by simp)

theorem IsFrame.concat (h : IsFrame last l) :
    ∃ m x, l = m ++ [x] ∧ last x = true ∧ ∀ y ∈ m, last y = false := by
  rcases List.eq_nil_or_concat l with rfl | ⟨m,x,rfl⟩
  · exact absurd rfl h.ne_nil
  · obtain ⟨hclose,hfront⟩ := h
    simp only [List.concat_eq_append, closes_concat] at hclose hfront ⊢
    exact ⟨m,x,rfl,hclose,fun y hy => hfront y (by simpa using hy)⟩

theorem framesFrom_plain (front : List α) (h : ∀ x ∈ l, last x = false) :
    framesFrom last front (l ++ rest) = framesFrom last (front ++ l) rest := by
  induction l generalizing front with
  | nil => simp
  | cons x l ih =>
    simp only [List.cons_append, framesFrom, h x (by simp), Bool.false_eq_true, if_false]
    rw [ih _ fun y hy => h y (by simp [hy]), List.append_assoc, List.singleton_append]

theorem frames_plain (h : ∀ x ∈ l, last x = false) : frames last l = [] := by
  have hf : framesFrom last [] (l ++ []) = [] := framesFrom_plain [] h
  rwa [List.append_nil] at hf

theorem frames_cons (h : IsFrame last l) : frames last (l ++ rest) = l :: frames last rest := by
  obtain ⟨m,x,rfl,hx,hm⟩ := h.concat
  rw [frames, List.append_assoc, framesFrom_plain [] hm]
  simp [framesFrom, hx, frames]

theorem frames_flatten {ps : List (List α)} (h : ∀ p ∈ ps, IsFrame last p) :
    frames last (ps.flatten ++ rest) = ps ++ frames last rest := by
  induction ps with
  | nil => rfl
  | cons p ps ih =>
    rw [List.flatten_cons, List.append_assoc, frames_cons (h p (by simp)),
      ih fun q hq => h q (by simp [hq]), List.cons_append]

variable (last) (size : α → ℕ) (limit : ℕ)

def fitsFrom : ℕ → List α → Bool
  | _, [] => true
  | n, x :: xs => n+size x ≤ limit && fitsFrom (if last x then 0 else n+size x) xs

def fits (l : List α) : Bool := fitsFrom last size limit 0 l

variable {last size limit}

theorem fitsFrom_unbroken {n : ℕ} (hfit : fitsFrom last size limit n (l ++ rest) = true)
    (hl : Unbroken last l) (hn : n ≤ limit) : n+total size l ≤ limit := by
  induction l generalizing n with
  | nil => simpa using hn
  | cons x l ih =>
    simp only [List.cons_append, fitsFrom, Bool.and_eq_true, decide_eq_true_eq] at hfit
    cases l with
    | nil => simpa using hfit.1
    | cons y l =>
      have hx : last x = false := hl x (by simp)
      simp only [hx, Bool.false_eq_true, if_false] at hfit
      have hrest := ih hfit.2 (fun z hz => hl z (by simp [hz])) hfit.1
      rw [total_cons]
      omega

theorem fits_unbroken (hfit : fits last size limit (l ++ rest) = true) (hl : Unbroken last l) :
    total size l ≤ limit := by
  have h := fitsFrom_unbroken hfit hl (Nat.zero_le _)
  rwa [Nat.zero_add] at h

theorem fitsFrom_frame {n : ℕ} (h : IsFrame last l)
    (hfit : fitsFrom last size limit n (l ++ rest) = true) : fits last size limit rest = true := by
  obtain ⟨m,x,rfl,hx,hm⟩ := h.concat
  clear h
  induction m generalizing n with
  | nil =>
    simp only [List.nil_append, List.singleton_append, fitsFrom, hx, if_true,
      Bool.and_eq_true] at hfit
    exact hfit.2
  | cons y m ih =>
    simp only [List.cons_append, fitsFrom, hm y (by simp), Bool.false_eq_true, if_false,
      Bool.and_eq_true] at hfit
    exact ih hfit.2 fun z hz => hm z (by simp [hz])

theorem fits_flatten {ps : List (List α)} (h : ∀ p ∈ ps, IsFrame last p)
    (hfit : fits last size limit (ps.flatten ++ rest) = true) :
    fits last size limit rest = true := by
  induction ps with
  | nil => exact hfit
  | cons p ps ih =>
    rw [List.flatten_cons, List.append_assoc] at hfit
    exact ih (fun q hq => h q (by simp [hq])) (fitsFrom_frame (h p (by simp)) hfit)

theorem fits_mem {ps : List (List α)} (h : ∀ p ∈ ps, IsFrame last p)
    (hfit : fits last size limit (ps.flatten ++ rest) = true) : ∀ p ∈ ps, total size p ≤ limit := by
  induction ps with
  | nil => simp
  | cons q ps ih =>
    rw [List.flatten_cons, List.append_assoc] at hfit
    have hq := h q (by simp)
    intro p hp
    rcases List.mem_cons.mp hp with rfl | hp
    · exact fits_unbroken hfit hq.2
    · exact ih (fun x hx => h x (by simp [hx])) (fitsFrom_frame hq hfit) p hp

end Framing
