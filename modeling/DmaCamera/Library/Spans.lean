import Mathlib.Data.List.Basic
import Mathlib.Data.Nat.Cast.Prod
import Mathlib.Tactic.Ring
set_option autoImplicit false

namespace Spans

variable {A B : Type*} [AddMonoidWithOne A] [AddMonoidWithOne B]

/-- The `n` consecutive addresses from `a` on, in whatever arithmetic `A` has. -/
def bytes (a : A) (n : ℕ) : List A := (List.range n).map fun k : ℕ => a + (k : A)

@[simp] theorem bytes_zero (a : A) : bytes a 0 = [] := rfl

@[simp] theorem bytes_length (a : A) (n : ℕ) : (bytes a n).length = n := by simp [bytes]

theorem bytes_add (a : A) (m n : ℕ) : bytes a (m+n) = bytes a m ++ bytes (a+(m : A)) n := by
  simp only [bytes, List.range_add, List.map_append, List.map_map]
  congr 1
  apply List.map_congr_left
  intro k _
  simp [add_assoc]

/-- Pieces `(a, n)` laid one after the other against a contiguous range from `b` on. -/
def weave : List (A × ℕ) → B → List (A × B)
  | [], _ => []
  | (a,n) :: es, b => bytes (a,b) n ++ weave es (b+(n : B))

theorem weave_coalesce (a : A) (b : B) (m n : ℕ) (es : List (A × ℕ)) :
    bytes (a,b) m ++ weave ((a+(m : A),n) :: es) (b+(m : B)) =
      bytes (a,b) (m+n) ++ weave es (b+((m+n : ℕ) : B)) := by
  have hs : ((a+(m : A),b+(m : B)) : A × B) = (a,b)+((m : ℕ) : A × B) := by
    ext <;> simp
  simp only [weave, bytes_add, hs, List.append_assoc, Nat.cast_add, add_assoc]

structure Piece where
  page : ℕ
  offset : ℕ
  length : ℕ
  deriving DecidableEq, Repr

/-- The pieces cut the range of `n` bytes from `start` on at the boundaries of
pages of `P` bytes, none of them empty or crossing its page. -/
def Tiles (P : ℕ) : ℕ → ℕ → List Piece → Prop
  | _, n, [] => n = 0
  | start, n, p :: ps =>
    p.page*P+p.offset = start ∧ p.offset+p.length ≤ P ∧ 1 ≤ p.length ∧ p.length ≤ n ∧
      Tiles P (start+p.length) (n-p.length) ps

theorem Tiles.le_pages {P start n : ℕ} {ps : List Piece} (h : Tiles P start n ps) :
    n ≤ ps.length*P := by
  induction ps generalizing start n with
  | nil =>
    have hn : n = 0 := h
    omega
  | cons p ps ih =>
    obtain ⟨_,hp,_,hle,ht⟩ := h
    have hrest := ih ht
    rw [List.length_cons, Nat.succ_mul]
    omega

theorem Tiles.total {P start n : ℕ} {ps : List Piece} (h : Tiles P start n ps) :
    (ps.map Piece.length).sum = n := by
  induction ps generalizing start n with
  | nil => exact Eq.symm h
  | cons p ps ih =>
    obtain ⟨_,_,_,hle,ht⟩ := h
    rw [List.map_cons, List.sum_cons, ih ht]
    omega

/-- The pieces one after the other are the bytes of the range. -/
theorem Tiles.covers {P start n : ℕ} {ps : List Piece} (h : Tiles P start n ps) :
    (ps.flatMap fun p => bytes (p.page*P+p.offset) p.length) = bytes start n := by
  induction ps generalizing start n with
  | nil =>
    have hn : n = 0 := h
    rw [hn, bytes_zero, List.flatMap_nil]
  | cons p ps ih =>
    obtain ⟨hs,_,_,hle,ht⟩ := h
    have hn : n = p.length+(n-p.length) := by omega
    rw [List.flatMap_cons, ih ht, hs, hn, bytes_add, Nat.add_sub_cancel_left, Nat.cast_id]

theorem Tiles.inside {P start n : ℕ} {ps : List Piece} (h : Tiles P start n ps) :
    ∀ p ∈ ps, 1 ≤ p.length ∧ p.offset+p.length ≤ P := by
  induction ps generalizing start n with
  | nil => simp
  | cons p ps ih =>
    obtain ⟨_,hp,hpos,_,ht⟩ := h
    exact List.forall_mem_cons.mpr ⟨⟨hpos,hp⟩,ih ht⟩

theorem Tiles.touches {P start n : ℕ} {ps : List Piece} (h : Tiles P start n ps) (page : ℕ) :
    page ∈ ps.map Piece.page ↔ ∃ x, start ≤ x ∧ x < start+n ∧ x/P = page := by
  induction ps generalizing start n with
  | nil =>
    have hn : n = 0 := h
    subst hn
    simp only [List.map_nil, List.not_mem_nil, false_iff]
    rintro ⟨x,hlo,hhi,_⟩
    omega
  | cons p ps ih =>
    obtain ⟨hs,hp,hpos,hle,ht⟩ := h
    have hdiv : ∀ k, k < p.length → (start+k)/P = p.page := by
      intro k hk
      have hP : 0 < P := by omega
      have hx : start+k = p.offset+k+P*p.page := by
        rw [← hs, Nat.mul_comm]
        omega
      rw [hx, Nat.add_mul_div_left _ _ hP, Nat.div_eq_of_lt (by omega), Nat.zero_add]
    rw [List.map_cons, List.mem_cons, ih ht]
    constructor
    · rintro (rfl | ⟨x,hlo,hhi,hx⟩)
      · exact ⟨start,Nat.le_refl start,by omega,hdiv 0 hpos⟩
      · exact ⟨x,by omega,by omega,hx⟩
    · rintro ⟨x,hlo,hhi,hx⟩
      by_cases hfirst : x < start+p.length
      · have hk := hdiv (x-start) (by omega)
        rw [Nat.add_sub_cancel' hlo, hx] at hk
        exact Or.inl hk
      · exact Or.inr ⟨x,by omega,by omega,hx⟩

def pagePieces (P start n : ℕ) : List Piece :=
  if _h : start%P+n ≤ P ∨ P = 0 then [⟨start/P,start%P,n⟩]
  else ⟨start/P,start%P,P-start%P⟩ :: pagePieces P (start+(P-start%P)) (n-(P-start%P))
termination_by n
decreasing_by
  have hlt := Nat.mod_lt start (Nat.pos_of_ne_zero (not_or.mp _h).2)
  omega

theorem pagePieces_single {P start n : ℕ} (h : start%P+n ≤ P) :
    pagePieces P start n = [⟨start/P,start%P,n⟩] := by
  rw [pagePieces, dif_pos (Or.inl h)]

theorem pagePieces_cons {P start n : ℕ} (hP : 0 < P) (h : P < start%P+n) :
    pagePieces P start n =
      ⟨start/P,start%P,P-start%P⟩ :: pagePieces P (start+(P-start%P)) (n-(P-start%P)) := by
  rw [pagePieces, dif_neg (by omega)]

theorem pagePieces_tiles {P : ℕ} (hP : 0 < P) {start n : ℕ} (hn : 1 ≤ n) :
    Tiles P start n (pagePieces P start n) := by
  have hsplit (s : ℕ) : s/P*P+s%P = s := Nat.div_add_mod' s P
  fun_induction pagePieces P start n with
  | case1 start n h =>
    have hfit : start%P+n ≤ P := h.resolve_right (by omega)
    exact ⟨hsplit start,hfit,hn,Nat.le_refl n,Nat.sub_self n⟩
  | case2 start n h ih =>
    have hlt := Nat.mod_lt start hP
    have hover : ¬ start%P+n ≤ P := fun hle => h (Or.inl hle)
    refine ⟨hsplit start,?_,?_,?_,ih (by omega)⟩ <;> simp only <;> omega

theorem pagePieces_head {P start n : ℕ} (hP : 0 < P) :
    ∃ length rest, pagePieces P start n = ⟨start/P,start%P,length⟩ :: rest := by
  by_cases h : start%P+n ≤ P
  · exact ⟨n,[],pagePieces_single h⟩
  · exact ⟨_,_,pagePieces_cons hP (Nat.lt_of_not_le h)⟩

theorem next_page_aligned {P : ℕ} (hP : 0 < P) (start : ℕ) : (start+(P-start%P))%P = 0 := by
  have hlt := Nat.mod_lt start hP
  have hsum : start+(P-start%P) = P*(start/P)+P := by
    have hdm := Nat.div_add_mod start P
    omega
  rw [hsum, Nat.mul_add_mod, Nat.mod_self]

/-- All pieces but the last end with their page, and all but the first begin with it. -/
theorem pagePieces_chain {P : ℕ} (hP : 0 < P) (start n : ℕ) :
    (pagePieces P start n).IsChain fun p q => p.offset+p.length = P ∧ q.offset = 0 := by
  fun_induction pagePieces P start n with
  | case1 start n h => exact .singleton _
  | case2 start n h ih =>
    have hlt := Nat.mod_lt start hP
    obtain ⟨length,rest,hrest⟩ := @pagePieces_head P (start+(P-start%P)) (n-(P-start%P)) hP
    rw [hrest] at ih ⊢
    refine List.isChain_cons_cons.mpr ⟨⟨?_,next_page_aligned hP start⟩,ih⟩
    simp only
    omega

theorem pagePieces_offset {P : ℕ} (hP : 0 < P) (start n : ℕ) :
    ∀ p ∈ pagePieces P start n, p.offset = start%P ∨ p.offset = 0 := by
  fun_induction pagePieces P start n with
  | case1 start n h => simp
  | case2 start n h ih =>
    intro p hp
    rcases List.mem_cons.mp hp with rfl | hp
    · exact Or.inl rfl
    · have hrest := ih p hp
      rw [next_page_aligned hP start, or_self] at hrest
      exact Or.inr hrest

theorem pagePieces_tail {P : ℕ} (hP : 0 < P) (start n : ℕ) :
    ∀ p ∈ (pagePieces P start n).tail, p.offset = 0 := by
  by_cases h : start%P+n ≤ P
  · rw [pagePieces_single h]
    simp
  · rw [pagePieces_cons hP (Nat.lt_of_not_le h), List.tail_cons]
    intro p hp
    have hrest := pagePieces_offset hP _ _ p hp
    rwa [next_page_aligned hP start, or_self] at hrest

theorem pagePieces_length {P : ℕ} (hP : 0 < P) {start n : ℕ} (hn : 1 ≤ n) :
    (pagePieces P start n).length = (start%P+n-1)/P+1 := by
  fun_induction pagePieces P start n with
  | case1 start n h =>
    have hfit : start%P+n ≤ P := h.resolve_right (by omega)
    have hlast : (start%P+n-1)/P = 0 := Nat.div_eq_of_lt (by omega)
    rw [hlast]
    rfl
  | case2 start n h ih =>
    have hlt := Nat.mod_lt start hP
    have hover : ¬ start%P+n ≤ P := fun hle => h (Or.inl hle)
    have hsum : start%P+n-1 = n-(P-start%P)-1+P := by omega
    rw [List.length_cons, ih (by omega), next_page_aligned hP start, Nat.zero_add, hsum,
      Nat.add_div_right _ hP]

theorem pagePieces_ordered {P : ℕ} (hP : 0 < P) {start n : ℕ} (hn : 1 ≤ n) :
    ((pagePieces P start n).map Piece.page).Pairwise (· < ·) := by
  fun_induction pagePieces P start n with
  | case1 start n h => exact List.pairwise_singleton _ _
  | case2 start n h ih =>
    have hlt := Nat.mod_lt start hP
    have hover : ¬ start%P+n ≤ P := fun hle => h (Or.inl hle)
    have hrest : 1 ≤ n-(P-start%P) := by omega
    refine List.pairwise_cons.mpr ⟨fun page hpage => ?_,ih hrest⟩
    -- what lies behind the first page is divided by it at least once more
    obtain ⟨x,hlo,_,rfl⟩ := ((pagePieces_tiles hP hrest).touches page).mp hpage
    have hsplit := Nat.div_add_mod start P
    have hnext : P*(start/P+1) ≤ x := by
      rw [Nat.mul_add, Nat.mul_one]
      omega
    exact (Nat.le_div_iff_mul_le hP).mpr (by rwa [Nat.mul_comm])

def translate (P : ℕ) (place : ℕ → A) (x : ℕ) : A := place (x/P) + ((x%P : ℕ) : A)

theorem translate_piece {P : ℕ} (place : ℕ → A) {page offset k : ℕ} (h : offset+k < P) :
    translate P place (page*P+offset+k) = place page + (offset : A) + (k : A) := by
  have hP : 0 < P := by omega
  have hx : page*P+offset+k = offset+k+P*page := by ring
  rw [translate, hx, Nat.add_mul_div_left _ _ hP, Nat.add_mul_mod_self_left,
    Nat.div_eq_of_lt h, Nat.mod_eq_of_lt h]
  simp [add_assoc]

/-- Placed page by page, a tiled range is the range translated byte by byte. -/
theorem Tiles.weave {P : ℕ} (place : ℕ → A) {start n : ℕ} {ps : List Piece}
    (h : Tiles P start n ps) (b : B) :
    Spans.weave (ps.map fun p => (place p.page + (p.offset : A),p.length)) b =
      (List.range n).map fun k : ℕ => (translate P place (start+k),b+(k : B)) := by
  induction ps generalizing start n b with
  | nil =>
    have hn : n = 0 := h
    simp [Spans.weave, hn]
  | cons p ps ih =>
    obtain ⟨hs,hp,_,hle,ht⟩ := h
    have hn : n = p.length+(n-p.length) := by omega
    rw [hn, List.range_add, List.map_append, List.map_cons, Spans.weave, ih ht]
    congr 1
    · apply List.map_congr_left
      intro k hk
      have hk := List.mem_range.mp hk
      rw [← hs, translate_piece place (by omega)]
      rfl
    · rw [List.map_map]
      apply List.map_congr_left
      intro k _
      simp [add_assoc]

end Spans
