import DmaCamera.ReadResult
set_option autoImplicit false

namespace DmaCamera
open Circular Countdown

def ended : List Pass → Bool
  | [] => false
  | .signal :: _ => false
  | .locked _ _ eopFound :: rest => eopFound || ended rest

/-- The `EIO` codes take `rc_len` below the least `int`, from where the sum comes out
above `count`. -/
def CodesWrap (count : Nat) (left : Nat → Nat → Nat) (passes : List Pass) : Prop :=
  2^31+countedBytes left passes < eIo*faultySections passes % 2^32 ∧
    eIo*faultySections passes % 2^32+count < 2^32+countedBytes left passes

section bounds

variable {left : Nat → Nat → Nat} {passes : List Pass} {rcLen : Int} {index count : Nat}
  {user : UserBuffer}

/-- It takes as many faulty sections as there are multiples of 5 below `2^31`. -/
theorem codesWrap_many (h : CodesWrap count left passes) : 429496729 < faultySections passes := by
  have hlow := h.1
  have heIo : eIo = 5 := rfl
  rw [heIo] at hlow
  by_contra hfew
  rw [Int.emod_eq_of_lt (by omega) (by omega)] at hlow
  omega

theorem firstLeft_le {left : Nat → Nat} {fuel remaining u : Nat}
    (h : firstLeft left fuel remaining = some u) : u ≤ remaining := by
  induction fuel generalizing remaining with
  | zero => cases h
  | succ fuel ih =>
    have hle := copyLength_le remaining
    simp only [firstLeft] at h
    split at h
    · cases h
    · split at h
      · cases h
        omega
      · have hrest := ih h
        omega

theorem countedBytes_le (left : Nat → Nat → Nat) (passes : List Pass) :
    countedBytes left passes ≤ readBytes passes := by
  induction passes with
  | nil => exact Nat.le_refl 0
  | cons pass rest ih =>
    cases pass with
    | signal => exact Nat.le_refl 0
    | locked ring rxBuffer eopFound =>
      have hsection : (sectionBytes ring.pending).elim 0
          (fun n => (firstLeft (left rest.length) n n).getD n) ≤
            (sectionBytes ring.pending).getD 0 := by
        cases sectionBytes ring.pending with
        | none => exact Nat.le_refl 0
        | some n =>
          cases hleft : firstLeft (left rest.length) n n with
          | none => simp [hleft]
          | some u => simpa [hleft] using firstLeft_le hleft
      have hrest : (if eopFound then 0 else countedBytes left rest) ≤
          if eopFound then 0 else readBytes rest := by
        cases eopFound with
        | true => exact Nat.le_refl 0
        | false => exact ih
      exact Nat.add_le_add hsection hrest

theorem readCyclicLoop_ends :
    (readCyclicLoop left passes rcLen index user).1.isSome = (interrupted passes || ended passes) := by
  induction passes generalizing rcLen index user with
  | nil => rfl
  | cons pass rest ih =>
    cases pass with
    | signal => rfl
    | locked ring rxBuffer eopFound =>
      rw [readCyclicLoop_locked]
      cases eopFound with
      | true => rfl
      | false => simpa [interrupted, ended] using ih

theorem interrupted_not_ended (h : ended passes = true) : interrupted passes = false := by
  induction passes with
  | nil => rfl
  | cons pass rest ih =>
    cases pass with
    | signal => cases h
    | locked ring rxBuffer eopFound =>
      cases eopFound with
      | true => rfl
      | false => exact ih (by simpa [ended] using h)

theorem charSgdmaReadCyclic_ended (h : ended passes = true) :
    (charSgdmaReadCyclic left passes).1 =
      some (Int.bmod (countedBytes left passes-eIo*faultySections passes) (2^32)) := by
  have hends := @readCyclicLoop_ends left passes 0 0 .untouched
  rw [h, Bool.or_true] at hends
  obtain ⟨sum,hsum⟩ := Option.isSome_iff_exists.mp hends
  have hrc : (charSgdmaReadCyclic left passes).1 = some (Int.bmod sum (2^32)) := by
    rw [charSgdmaReadCyclic, hsum, Option.map_some]
  have hvalue := charSgdmaReadCyclic_rc hrc
  rw [interrupted_not_ended h, if_neg Bool.false_ne_true] at hvalue
  rw [hrc, hvalue]

theorem sum_le_iff (hcounted : countedBytes left passes ≤ count) (hcount : count < 2^31) :
    Int.bmod (countedBytes left passes-eIo*faultySections passes) (2^32) ≤ count ↔
      ¬ CodesWrap count left passes := by
  have heIo : eIo = 5 := rfl
  simp only [CodesWrap, Int.bmod, heIo]
  constructor
  · rintro h ⟨hlow,hhigh⟩
    split at h <;> omega
  · intro h
    split <;> omega

/-- However much the kernel manages to copy, a read stays within its count exactly
if the results it takes do, and the codes of the faulty ones do not wrap. -/
theorem charSgdmaRead_within_iff (passes : List Pass) {count : Nat} (hcount : count ≤ maxRwCount) :
    (∀ left, Within count (charSgdmaRead left passes count)) ↔ readBytes passes ≤ count ∧
      (ended passes = true → ∀ left, ¬ CodesWrap count left passes) := by
  simp only [maxRwCount] at hcount
  constructor
  · intro h
    have hbytes : readBytes passes ≤ count := by
      by_contra hlt
      have hstart : Covers 0 0 UserBuffer.untouched :=
        ⟨rfl,fun o ho => absurd ho (Nat.not_lt_zero o)⟩
      have hwritten := readCyclicLoop_covers passes 0 hstart (o := count) (by omega) (by omega)
      have := (h fun _ _ => 0).1 count hwritten
      omega
    refine ⟨hbytes,fun hended left => ?_⟩
    have hcounted := countedBytes_le left passes
    exact (sum_le_iff (by omega) (by omega)).mp ((h left).2 _ (charSgdmaReadCyclic_ended hended))
  · rintro ⟨hbytes,hwrap⟩ left
    have hstart : Below 0 0 UserBuffer.untouched := ⟨Nat.le_refl _,fun o ho => absurd rfl ho⟩
    have huser := (readCyclicLoop_within left passes hstart (Int.le_refl 0) (by omega)).1
    have hcounted := countedBytes_le left passes
    refine ⟨fun o ho => ?_,fun rc hrc => ?_⟩
    · have := huser o ho
      omega
    · have hvalue := charSgdmaReadCyclic_rc hrc
      have hends := @readCyclicLoop_ends left passes 0 0 .untouched
      obtain ⟨sum,hsum,_⟩ := Option.map_eq_some_iff.mp hrc
      rw [hsum, Option.isSome_some] at hends
      cases hint : interrupted passes with
      | true =>
        rw [hint, if_pos rfl] at hvalue
        have herrno : -eRestartSys < 0 := by decide
        omega
      | false =>
        rw [hint, Bool.false_or] at hends
        rw [hint, if_neg Bool.false_ne_true] at hvalue
        rw [hvalue]
        exact (sum_le_iff (by omega) (by omega)).mpr (hwrap hends.symm left)

theorem charSgdmaRead_fivebytes :
    (∀ left, Within 8 (charSgdmaRead left [.locked (onePacketRing 5) (fun _ => 7) true] 8)) ∧
      readBytes [.locked (onePacketRing 5) (fun _ => 7) true] = 5 := by
  have hbytes : readBytes [.locked (onePacketRing 5) (fun _ => 7) true] = 5 := by decide
  have hfaulty : faultySections [.locked (onePacketRing 5) (fun _ => 7) true] = 0 := by decide
  refine ⟨(charSgdmaRead_within_iff [.locked (onePacketRing 5) (fun _ => 7) true]
    (by decide)).mpr ⟨by rw [hbytes]; decide,fun _ left hwrap => ?_⟩,hbytes⟩
  have hmany := codesWrap_many hwrap
  rw [hfaulty] at hmany
  omega

theorem charSgdmaRead_onebyte : ¬ ∀ left passes count,
    Within count (charSgdmaRead left passes count) := by
  intro h
  have hrc := (h (fun _ _ => 0) [.locked (onePacketRing 4096) (fun _ => 7) true] 1).2 4096
    (by decide)
  omega

end bounds

end DmaCamera
