import Mathlib.Data.List.Basic
set_option autoImplicit false

namespace Countdown

variable {τ : Type*} (need : τ → ℕ)

def total : List τ → ℕ
  | [] => 0
  | t :: ts => need t + total ts

@[simp] theorem total_nil : total need [] = 0 := rfl

@[simp] theorem total_cons (t : τ) (ts : List τ) :
    total need (t :: ts) = need t + total need ts := rfl

theorem total_append (ts us : List τ) : total need (ts ++ us) = total need ts + total need us := by
  induction ts with
  | nil => simp
  | cons t ts ih => simp [ih, Nat.add_assoc]

variable {need} in
theorem total_perm {ts us : List τ} (h : ts.Perm us) : total need ts = total need us := by
  induction h with
  | nil => rfl
  | cons t _ ih => rw [total_cons, total_cons, ih]
  | swap t u ts => simp only [total_cons, Nat.add_left_comm]
  | trans _ _ ih₁ ih₂ => exact ih₁.trans ih₂

variable {need} in
theorem total_congr {need' : τ → ℕ} {ts : List τ} (h : ∀ t ∈ ts, need' t = need t) :
    total need' ts = total need ts := by
  induction ts with
  | nil => rfl
  | cons t ts ih =>
    rw [total_cons, total_cons, h t (by simp), ih fun u hu => h u (by simp [hu])]

theorem total_range_update (need need' : ℕ → ℕ) {n i : ℕ} (hi : i < n)
    (h : ∀ j, j ≠ i → need' j = need j) :
    total need' (List.range n) + need i = total need (List.range n) + need' i := by
  induction n with
  | zero => omega
  | succ n ih =>
    simp only [List.range_succ, total_append, total_cons, total_nil]
    rcases Nat.lt_succ_iff_lt_or_eq.mp hi with hlt | rfl
    · have hn := h n (by omega)
      have := ih hlt
      omega
    · have hrest : total need' (List.range i) = total need (List.range i) := total_congr fun j hj =>
        h j (Nat.ne_of_lt (List.mem_range.mp hj))
      omega

theorem total_bounds {b : ℕ} {t : List τ} (h : ∀ u ∈ t, 1 ≤ need u ∧ need u ≤ b) :
    t.length ≤ total need t ∧ total need t ≤ b*t.length := by
  induction t with
  | nil => simp
  | cons u TS ih =>
    have ht := h u (by simp)
    have hTS := ih fun v hv => h v (by simp [hv])
    rw [total_cons, List.length_cons, Nat.mul_add]
    omega

/-- Split a queue where a count runs out: the items it pays for with something
left over, the items behind them, and what is left. -/
def split : List τ → ℕ → List τ × List τ × ℕ
  | [], c => ([],[],c)
  | t :: ts, c =>
    if need t < c then
      let r := split ts (c-need t)
      (t :: r.1,r.2)
    else ([],t :: ts,c)

theorem split_append (ts : List τ) (c : ℕ) : (split need ts c).1 ++ (split need ts c).2.1 = ts := by
  fun_induction split need ts c with
  | case1 => rfl
  | case2 t ts c h r ih => simp [r, ih]
  | case3 => rfl

variable {need} in
theorem split_cut {ts gone rest : List τ} {c left : ℕ} (h : split need ts c = (gone,rest,left)) :
    ts = gone ++ rest := by
  have happ := split_append need ts c
  rw [h] at happ
  exact happ.symm

theorem split_of_le {t : τ} {ts : List τ} {c : ℕ} (h : c ≤ need t) :
    split need (t :: ts) c = ([],t :: ts,c) := by
  rw [split, if_neg (Nat.not_lt.mpr h)]

theorem split_of_lt {t : τ} {ts : List τ} {c : ℕ} (h : need t < c) :
    split need (t :: ts) c =
      (t :: (split need ts (c-need t)).1,(split need ts (c-need t)).2) := by
  rw [split, if_pos h]

theorem split_spent {ts rest : List τ} {c left : ℕ} {t : τ}
    (h : split need ts c = ([],t :: rest,left)) : c ≤ need t := by
  cases ts with
  | nil => cases h
  | cons u us =>
    rw [split] at h
    split at h
    · cases h
    · rename_i hlt
      cases h
      exact Nat.le_of_not_lt hlt

/-- A count beyond what lies in front of an item reaches the item. -/
theorem split_reaches {ts front back : List τ} {t : τ} {c : ℕ} (h : ts = front ++ t :: back)
    (hc : front = [] ∨ total need front < c) :
    t ∈ (split need ts c).1 ∨ (split need ts c).2.1.head? = some t := by
  induction front generalizing ts c with
  | nil =>
    subst h
    rw [List.nil_append]
    by_cases hlt : need t < c
    · rw [split_of_lt need hlt]
      exact Or.inl (List.mem_cons_self ..)
    · rw [split_of_le need (Nat.le_of_not_lt hlt)]
      exact Or.inr rfl
  | cons u front ih =>
    subst h
    simp only [total_cons, reduceCtorEq, false_or] at hc
    rw [List.cons_append, split_of_lt need (by omega)]
    have hrest : front = [] ∨ total need front < c-need u := Or.inr (by omega)
    rcases ih rfl hrest with hm | hh
    · exact Or.inl (List.mem_cons_of_mem _ hm)
    · exact Or.inr hh

theorem split_short {ts front back : List τ} {t : τ} {c : ℕ} (h : ts = front ++ t :: back)
    (hne : front ≠ []) (hc : c ≤ total need front) :
    ∃ gone u rest left, split need ts c = (gone,u :: rest ++ t :: back,left) ∧
      front = gone ++ u :: rest := by
  subst h
  induction front generalizing c with
  | nil => exact absurd rfl hne
  | cons u front ih =>
    rw [List.cons_append]
    by_cases hlt : need u < c
    · rw [split_of_lt need hlt]
      have hfront : front ≠ [] := by
        rintro rfl
        simp only [total_cons, total_nil] at hc
        omega
      rw [total_cons] at hc
      obtain ⟨gone,v,rest,left,hs,rfl⟩ := ih hfront (c := c-need u) (by omega)
      exact ⟨u :: gone,v,rest,left,by rw [hs],rfl⟩
    · rw [split_of_le need (Nat.le_of_not_lt hlt)]
      exact ⟨[],u,front,c,rfl,rfl⟩

/-- A count that the queue uses up stops at an item, with something left of what the item needs
unless nothing is in front of it. -/
theorem split_within {ts : List τ} {c : ℕ} (hne : ts ≠ []) (hc : c ≤ total need ts) :
    ∃ gone t rest left, split need ts c = (gone,t :: rest,left) ∧ total need gone+left = c ∧
      left ≤ need t ∧ (gone ≠ [] → 0 < left) := by
  induction ts generalizing c with
  | nil => exact absurd rfl hne
  | cons u ts ih =>
    by_cases hlt : need u < c
    · rw [total_cons] at hc
      have hts : ts ≠ [] := by
        rintro rfl
        rw [total_nil] at hc
        omega
      obtain ⟨gone,t,rest,left,hs,hsum,hleft,hsome⟩ := ih hts (c := c-need u) (by omega)
      refine ⟨u :: gone,t,rest,left,?_,?_,hleft,fun _ => ?_⟩
      · rw [split_of_lt need hlt, hs]
      · rw [total_cons]
        omega
      · rcases List.eq_nil_or_concat gone with rfl | ⟨front,v,rfl⟩
        · rw [total_nil] at hsum
          omega
        · exact hsome (by simp)
    · exact ⟨[],u,ts,c,split_of_le need (Nat.le_of_not_lt hlt),Nat.zero_add c,
        Nat.le_of_not_lt hlt,fun h => absurd rfl h⟩

def upTo (ts : List τ) (i : ℕ) : ℕ := total need (ts.take (i+1))

theorem total_take_mono (ts : List τ) {m n : ℕ} (h : m ≤ n) :
    total need (ts.take m) ≤ total need (ts.take n) := by
  obtain ⟨k,rfl⟩ := Nat.exists_eq_add_of_le h
  rw [List.take_add, total_append]
  exact Nat.le_add_right _ _

/-- A count pays for the items `done` in full, and for no more of the queue. -/
structure Pays (done rest : List τ) (c : ℕ) : Prop where
  paid : total need done ≤ c
  short : ∀ t ∈ rest.head?, c < total need done+need t

section pays

variable {need} {done rest : List τ} {c i : ℕ}

theorem pays_cases {gone : List τ} {t : τ} {left : ℕ} (hpos : ∀ u ∈ rest, 1 ≤ need u)
    (hsum : total need gone+left = c) (hleft : left ≤ need t) :
    left < need t ∧ Pays need gone (t :: rest) c ∨ left = need t ∧ Pays need (gone ++ [t]) rest c := by
  rcases Nat.lt_or_eq_of_le hleft with hlt | heq
  · refine Or.inl ⟨hlt,by omega,fun u hu => ?_⟩
    cases hu
    omega
  · have htotal : total need (gone ++ [t]) = c := by
      rw [total_append, total_cons, total_nil]
      omega
    refine Or.inr ⟨heq,Nat.le_of_eq htotal,fun u hu => ?_⟩
    rw [htotal]
    exact Nat.lt_add_of_pos_right (hpos u (List.mem_of_mem_head? hu))

theorem upTo_front (hi : i < done.length) : upTo need (done ++ rest) i ≤ total need done := by
  have hmono := total_take_mono need (done ++ rest) (Nat.succ_le_of_lt hi)
  rw [List.take_left] at hmono
  exact hmono

theorem Pays.upTo_le (h : Pays need done rest c) (hi : i < (done ++ rest).length) :
    upTo need (done ++ rest) i ≤ c ↔ i < done.length := by
  constructor
  · intro hle
    by_contra hge
    cases rest with
    | nil =>
      rw [List.append_nil] at hi
      exact hge hi
    | cons t rest =>
      have hmono := total_take_mono need (done ++ t :: rest) (show done.length+1 ≤ i+1 by omega)
      have hnext : (done ++ t :: rest).take (done.length+1) = done ++ [t] := by
        rw [List.take_length_add_append]
        rfl
      rw [hnext, total_append, total_cons, total_nil] at hmono
      have hshort := h.short t rfl
      rw [upTo] at hle
      omega
  · exact fun hlt => Nat.le_trans (upTo_front hlt) h.paid

/-- A count is one of the sums exactly if it pays for items and has nothing left. -/
theorem Pays.upTo_eq (h : Pays need done rest c) :
    (∃ i < (done ++ rest).length, upTo need (done ++ rest) i = c) ↔ done ≠ [] ∧ total need done = c := by
  constructor
  · rintro ⟨i,hi,hsum⟩
    have hlt := (h.upTo_le hi).mp (Nat.le_of_eq hsum)
    have hfront := @upTo_front τ need done rest i hlt
    exact ⟨List.ne_nil_of_length_pos (by omega),Nat.le_antisymm h.paid (by omega)⟩
  · rintro ⟨hne,hsum⟩
    have hpos := List.length_pos_of_ne_nil hne
    refine ⟨done.length-1,by rw [List.length_append]; omega,?_⟩
    rw [upTo, Nat.sub_add_cancel hpos, List.take_left, hsum]

end pays

end Countdown
