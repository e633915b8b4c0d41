import Mathlib.Data.List.Basic
set_option autoImplicit false

namespace Readers

/-- Why a reader stops: it has come to where there is nothing, or it refuses what is there. -/
inductive Stop (ε : Type) where
  | outside (position : ℕ)
  | refused (reason : ε)
  deriving DecidableEq, Repr

abbrev Reader (ε α : Type) := StateT ℕ (Except (Stop ε)) α

variable {ε α β γ : Type}

def next (tape : ℕ → Option β) : Reader ε β := fun i =>
  match tape i with
  | none => .error (.outside i)
  | some b => .ok (b,i+1)

def refuse (reason : ε) : Reader ε α := fun _ => .error (.refused reason)

def items (tape : ℕ → Option β) : ℕ → Reader ε (List β)
  | 0 => pure []
  | n+1 => do
    let b ← next tape
    let bs ← items tape n
    pure (b :: bs)

def Lies (tape : ℕ → Option β) (i : ℕ) (bs : List β) : Prop :=
  ∀ k < bs.length, tape (i+k) = bs[k]?

variable {tape : ℕ → Option β} {i : ℕ}

@[simp] theorem lies_nil : Lies tape i [] := fun _ hk => absurd hk (Nat.not_lt_zero _)

theorem lies_append {as bs : List β} :
    Lies tape i (as ++ bs) ↔ Lies tape i as ∧ Lies tape (i+as.length) bs := by
  constructor
  · intro h
    refine ⟨fun k hk => ?_,fun k hk => ?_⟩
    · rw [h k (by rw [List.length_append]; omega), List.getElem?_append_left hk]
    · rw [Nat.add_assoc, h _ (by rw [List.length_append]; omega),
        List.getElem?_append_right (Nat.le_add_right _ _), Nat.add_sub_cancel_left]
  · rintro ⟨has,hbs⟩ k hk
    by_cases hlt : k < as.length
    · rw [has k hlt, List.getElem?_append_left hlt]
    · rw [List.length_append] at hk
      have hle : as.length ≤ k := Nat.not_lt.mp hlt
      have hbs' := hbs (k-as.length) (by omega)
      rwa [Nat.add_assoc, Nat.add_sub_cancel' hle, ← List.getElem?_append_right hle] at hbs'

@[simp] theorem lies_singleton {b : β} : Lies tape i [b] ↔ tape i = some b := by
  simp [Lies]

/-- `E` is the language that is accepted, with the value read off it, and `R` the
language that is refused, with the reason. -/
structure Reads (tape : ℕ → Option β) (p : Reader ε α) (E : α → List β → Prop)
    (R : ε → List β → Prop) : Prop where
  accepts : ∀ i a j, p i = .ok (a,j) ↔ ∃ bs, E a bs ∧ Lies tape i bs ∧ j = i+bs.length
  refuses : ∀ i e, p i = .error (.refused e) ↔ ∃ bs, R e bs ∧ Lies tape i bs

theorem Reads.congr {p : Reader ε α} {E E' : α → List β → Prop} {R R' : ε → List β → Prop}
    (h : Reads tape p E R) (hE : ∀ a bs, E a bs ↔ E' a bs) (hR : ∀ e bs, R e bs ↔ R' e bs) :
    Reads tape p E' R' := by
  refine ⟨fun i a j => ?_,fun i e => ?_⟩
  · simp only [h.accepts, hE]
  · simp only [h.refuses, hR]

theorem pure_apply (a : α) : (pure a : Reader ε α) i = .ok (a,i) :=
  rfl

theorem reads_pure (a : α) : Reads (ε := ε) tape (pure a) (fun x bs => x = a ∧ bs = [])
    fun _ _ => False := by
  refine ⟨fun i x j => ?_,fun i e => ?_⟩
  · simp [pure_apply, eq_comm]
  · simp [pure_apply]

theorem reads_refuse (reason : ε) : Reads tape (refuse reason : Reader ε α) (fun _ _ => False)
    fun e bs => e = reason ∧ bs = [] := by
  refine ⟨fun i x j => ?_,fun i e => ?_⟩
  · simp [refuse]
  · simp [refuse, eq_comm]

theorem reads_next : Reads (ε := ε) tape (next tape) (fun b bs => bs = [b]) fun _ _ => False := by
  refine ⟨fun i b j => ?_,fun i e => ?_⟩
  · cases h : tape i with
    | none => simp [next, h]
    | some c =>
      simp [next, h, eq_comm]
  · cases h : tape i <;> simp [next, h]

theorem bind_ok_iff {p : Reader ε α} {f : α → Reader ε γ} {c : γ} {j : ℕ} :
    (p >>= f) i = .ok (c,j) ↔ ∃ a k, p i = .ok (a,k) ∧ f a k = .ok (c,j) := by
  cases h : p i with
  | error e => simp [Bind.bind, StateT.bind, Except.bind, h]
  | ok r => simp [Bind.bind, StateT.bind, Except.bind, h, Prod.ext_iff]

theorem bind_error_iff {p : Reader ε α} {f : α → Reader ε γ} {e : Stop ε} :
    (p >>= f) i = .error e ↔ p i = .error e ∨ ∃ a k, p i = .ok (a,k) ∧ f a k = .error e := by
  cases h : p i with
  | error e' => simp [Bind.bind, StateT.bind, Except.bind, h]
  | ok r => simp [Bind.bind, StateT.bind, Except.bind, h, Prod.ext_iff]

def Extends (q p : Reader ε α) : Prop := ∀ i r, p i = .ok r → q i = .ok r

theorem Extends.refl (p : Reader ε α) : Extends p p := fun _ _ h => h

theorem Extends.bind {p q : Reader ε α} {f g : α → Reader ε γ} (h : Extends q p)
    (h' : ∀ a, Extends (g a) (f a)) : Extends (q >>= g) (p >>= f) := by
  rintro i ⟨c,j⟩ hr
  obtain ⟨a,k,hp,hf⟩ := bind_ok_iff.mp hr
  exact bind_ok_iff.mpr ⟨a,k,h i _ hp,h' a k _ hf⟩

theorem Reads.bind {p : Reader ε α} {f : α → Reader ε γ} {E : α → List β → Prop}
    {R : ε → List β → Prop} {F : α → γ → List β → Prop} {S : α → ε → List β → Prop}
    (hp : Reads tape p E R) (hf : ∀ a, Reads tape (f a) (F a) (S a)) :
    Reads tape (p >>= f) (fun c bs => ∃ a as cs, E a as ∧ F a c cs ∧ bs = as ++ cs)
      fun e bs => R e bs ∨ ∃ a as cs, E a as ∧ S a e cs ∧ bs = as ++ cs := by
  refine ⟨fun i c j => ?_,fun i e => ?_⟩
  · rw [bind_ok_iff]
    constructor
    · rintro ⟨a,k,ha,hc⟩
      obtain ⟨as,hE,has,rfl⟩ := (hp.accepts i a k).mp ha
      obtain ⟨cs,hF,hcs,rfl⟩ := ((hf a).accepts _ c j).mp hc
      refine ⟨as ++ cs,⟨a,as,cs,hE,hF,rfl⟩,lies_append.mpr ⟨has,hcs⟩,?_⟩
      rw [List.length_append, Nat.add_assoc]
    · rintro ⟨bs,⟨a,as,cs,hE,hF,rfl⟩,hlies,rfl⟩
      obtain ⟨has,hcs⟩ := lies_append.mp hlies
      refine ⟨a,i+as.length,(hp.accepts i a _).mpr ⟨as,hE,has,rfl⟩,?_⟩
      rw [List.length_append, ← Nat.add_assoc]
      exact ((hf a).accepts _ c _).mpr ⟨cs,hF,hcs,rfl⟩
  · rw [bind_error_iff, hp.refuses]
    constructor
    · rintro (⟨bs,hR,hbs⟩ | ⟨a,k,ha,he⟩)
      · exact ⟨bs,Or.inl hR,hbs⟩
      · obtain ⟨as,hE,has,rfl⟩ := (hp.accepts i a k).mp ha
        obtain ⟨cs,hS,hcs⟩ := ((hf a).refuses _ e).mp he
        exact ⟨as ++ cs,Or.inr ⟨a,as,cs,hE,hS,rfl⟩,lies_append.mpr ⟨has,hcs⟩⟩
    · rintro ⟨bs,hR | ⟨a,as,cs,hE,hS,rfl⟩,hlies⟩
      · exact Or.inl ⟨bs,hR,hlies⟩
      · obtain ⟨has,hcs⟩ := lies_append.mp hlies
        exact Or.inr ⟨a,i+as.length,(hp.accepts i a _).mpr ⟨as,hE,has,rfl⟩,
          ((hf a).refuses _ e).mpr ⟨cs,hS,hcs⟩⟩

theorem Reads.map {p : Reader ε α} {E : α → List β → Prop} {R : ε → List β → Prop} (g : α → γ)
    (hp : Reads tape p E R) :
    Reads tape (p >>= fun a => pure (g a)) (fun c bs => ∃ a, E a bs ∧ c = g a) R := by
  refine (hp.bind fun a => reads_pure (g a)).congr (fun c bs => ?_) (fun e bs => by simp)
  constructor
  · rintro ⟨a,as,cs,hE,⟨rfl,rfl⟩,rfl⟩
    exact ⟨a,by simpa using hE,rfl⟩
  · rintro ⟨a,hE,rfl⟩
    exact ⟨a,bs,[],hE,⟨rfl,rfl⟩,by simp⟩

theorem reads_guard (c : Prop) [Decidable c] (reason : ε) {p : Reader ε α}
    {E : α → List β → Prop} {R : ε → List β → Prop} (hp : c → Reads tape p E R) :
    Reads tape (if c then p else refuse reason) (fun a bs => c ∧ E a bs)
      fun e bs => if c then R e bs else e = reason ∧ bs = [] := by
  by_cases hc : c
  · simp only [hc, if_true, true_and]
    exact hp hc
  · simp only [hc, if_false, false_and]
    exact reads_refuse reason

theorem reads_items (n : ℕ) : Reads (ε := ε) tape (items tape n)
    (fun l bs => bs = l ∧ l.length = n) fun _ _ => False := by
  induction n with
  | zero =>
    refine (reads_pure []).congr (fun l bs => ?_) fun _ _ => Iff.rfl
    rw [List.length_eq_zero_iff]
    constructor
    · rintro ⟨rfl,rfl⟩
      exact ⟨rfl,rfl⟩
    · rintro ⟨rfl,rfl⟩
      exact ⟨rfl,rfl⟩
  | succ n ih =>
    refine (reads_next.bind fun b => ih.map fun bs => b :: bs).congr (fun l bs => ?_)
      (fun e bs => by simp)
    constructor
    · rintro ⟨b,as,cs,rfl,⟨m,⟨rfl,hlen⟩,rfl⟩,rfl⟩
      exact ⟨rfl,by simp [hlen]⟩
    · rintro ⟨rfl,hlen⟩
      cases bs with
      | nil => simp at hlen
      | cons b m => exact ⟨b,[b],m,rfl,⟨m,⟨rfl,by simpa using hlen⟩,rfl⟩,rfl⟩

structure Section (ε β : Type) where
  right : List β → Prop
  wrong : ε → List β → Prop

def Whole : List (Section ε β) → List β → Prop
  | [], bs => bs = []
  | s :: rest, bs => ∃ as cs, s.right as ∧ Whole rest cs ∧ bs = as ++ cs

def Broken : List (Section ε β) → ε → List β → Prop
  | [], _, _ => False
  | s :: rest, e, bs => s.wrong e bs ∨ ∃ as cs, s.right as ∧ Broken rest e cs ∧ bs = as ++ cs

/-- The reader goes over whole texts and refuses broken ones. -/
structure Parses (tape : ℕ → Option β) (p : Reader ε α) (ss : List (Section ε β)) : Prop where
  accepts : ∀ i j, (∃ a, p i = .ok (a,j)) ↔ ∃ bs, Whole ss bs ∧ Lies tape i bs ∧ j = i+bs.length
  refuses : ∀ i e, p i = .error (.refused e) ↔ ∃ bs, Broken ss e bs ∧ Lies tape i bs

theorem parses_pure (a : α) : Parses (ε := ε) tape (pure a) [] := by
  refine ⟨fun i j => ?_,fun i e => ?_⟩
  · simp [pure_apply, Whole, eq_comm]
  · simp [pure_apply, Broken]

theorem Reads.parses {p : Reader ε α} {f : α → Reader ε γ} {E : α → List β → Prop}
    {s : Section ε β} {rest : List (Section ε β)} (hp : Reads tape p E s.wrong)
    (hright : ∀ bs, s.right bs ↔ ∃ a, E a bs) (hf : ∀ a, Parses tape (f a) rest) :
    Parses tape (p >>= f) (s :: rest) := by
  refine ⟨fun i j => ?_,fun i e => ?_⟩
  · simp only [bind_ok_iff]
    constructor
    · rintro ⟨c,a,k,ha,hc⟩
      obtain ⟨as,hE,has,rfl⟩ := (hp.accepts i a k).mp ha
      obtain ⟨cs,hcs,hlies,rfl⟩ := ((hf a).accepts _ j).mp ⟨c,hc⟩
      refine ⟨as ++ cs,⟨as,cs,(hright as).mpr ⟨a,hE⟩,hcs,rfl⟩,lies_append.mpr ⟨has,hlies⟩,?_⟩
      rw [List.length_append, Nat.add_assoc]
    · rintro ⟨bs,⟨as,cs,has,hcs,rfl⟩,hlies,rfl⟩
      obtain ⟨a,hE⟩ := (hright as).mp has
      obtain ⟨hl₁,hl₂⟩ := lies_append.mp hlies
      obtain ⟨c,hc⟩ := ((hf a).accepts (i+as.length) _).mpr ⟨cs,hcs,hl₂,rfl⟩
      refine ⟨c,a,i+as.length,(hp.accepts i a _).mpr ⟨as,hE,hl₁,rfl⟩,?_⟩
      rw [List.length_append, ← Nat.add_assoc]
      exact hc
  · rw [bind_error_iff, hp.refuses]
    constructor
    · rintro (⟨bs,hwrong,hbs⟩ | ⟨a,k,ha,he⟩)
      · exact ⟨bs,Or.inl hwrong,hbs⟩
      · obtain ⟨as,hE,has,rfl⟩ := (hp.accepts i a k).mp ha
        obtain ⟨cs,hcs,hlies⟩ := ((hf a).refuses _ e).mp he
        exact ⟨as ++ cs,Or.inr ⟨as,cs,(hright as).mpr ⟨a,hE⟩,hcs,rfl⟩,lies_append.mpr ⟨has,hlies⟩⟩
    · rintro ⟨bs,hwrong | ⟨as,cs,has,hcs,rfl⟩,hlies⟩
      · exact Or.inl ⟨bs,hwrong,hlies⟩
      · obtain ⟨a,hE⟩ := (hright as).mp has
        obtain ⟨hl₁,hl₂⟩ := lies_append.mp hlies
        exact Or.inr ⟨a,i+as.length,(hp.accepts i a _).mpr ⟨as,hE,hl₁,rfl⟩,
          ((hf a).refuses _ e).mpr ⟨cs,hcs,hl₂⟩⟩

/-- A reader comes to a value, or to a harmless refusal, on whole and on broken texts. -/
theorem Parses.ends_iff {p : Reader ε α} {ss : List (Section ε β)} (hp : Parses tape p ss)
    (harmless : ε → Prop) (i : ℕ) :
    (∀ e, p i = .error e → ∃ r, e = .refused r ∧ harmless r) ↔
      ∃ bs, Lies tape i bs ∧ (Whole ss bs ∨ ∃ r, harmless r ∧ Broken ss r bs) := by
  constructor
  · intro hin
    cases h : p i with
    | ok r =>
      obtain ⟨bs,hwhole,hlies,_⟩ := (hp.accepts i r.2).mp ⟨r.1,h⟩
      exact ⟨bs,hlies,Or.inl hwhole⟩
    | error e =>
      obtain ⟨r,rfl,hr⟩ := hin e h
      obtain ⟨bs,hbroken,hlies⟩ := (hp.refuses i r).mp h
      exact ⟨bs,hlies,Or.inr ⟨r,hr,hbroken⟩⟩
  · rintro ⟨bs,hlies,hwhole | ⟨r,hr,hbroken⟩⟩ e h
    · obtain ⟨a,ha⟩ := (hp.accepts i _).mpr ⟨bs,hwhole,hlies,rfl⟩
      rw [ha] at h
      cases h
    · rw [(hp.refuses i r).mpr ⟨bs,hbroken,hlies⟩] at h
      cases h
      exact ⟨r,rfl,hr⟩

end Readers
