import DmaCamera.ReadCall
set_option autoImplicit false

namespace DmaCamera
open Circular Countdown

def IsReadErrno (rc : Int) : Prop := rc = -eIo ∨ rc = -eRestartSys

instance (rc : Int) : Decidable (IsReadErrno rc) := inferInstanceAs (Decidable (_ ∨ _))

def ringByte (rxBuffer : Nat → Byte) (head k : Nat) : Byte :=
  rxBuffer ((head+k/rxBufBlock) % rxBufPages*rxBufBlock+k % rxBufBlock)

def ringBytes (rxBuffer : Nat → Byte) (head n : Nat) : List Byte :=
  (List.range n).map (ringByte rxBuffer head)

def sectionPayload (ring : RxRing) (rxBuffer : Nat → Byte) : Option (List Byte) :=
  if ring.complete.fault then none
  else some ((List.range ring.complete.numCredit).flatMap fun j =>
    ringBytes rxBuffer (ring.rxHead+j) (ring.ahead j).length.toNat)

def readPayload : List Pass → Option (List Byte)
  | [] => some []
  | .signal :: _ => some []
  | .locked ring rxBuffer eopFound :: rest => (sectionPayload ring rxBuffer).bind fun data =>
    if eopFound then some data else (readPayload rest).map (data ++ ·)

def UserBuffer.Holds (user : UserBuffer) (data : List Byte) : Prop := ∀ o, user o = data[o]?

def ReturnsRight (passes : List Pass) (rc : Int) (user : UserBuffer) : Prop :=
  IsReadErrno rc ∨ ∃ data, readPayload passes = some data ∧ rc = data.length ∧ user.Holds data

def interrupted : List Pass → Bool
  | [] => false
  | .signal :: _ => true
  | .locked _ _ eopFound :: rest => !eopFound && interrupted rest

def firstLeft (left : Nat → Nat) : Nat → Nat → Option Nat
  | 0, _ => none
  | fuel+1, remaining => if remaining = 0 then none
    else if min (left fuel) (copyLength remaining) ≠ 0 then
      some (min (left fuel) (copyLength remaining))
    else firstLeft left fuel (remaining-copyLength remaining)

/-- Well-formed results, whose payloads lie in the ring without a gap, and a copy
of all of them. -/
structure CleanSection (left : Nat → Nat) (ring : RxRing) (rxBuffer : Nat → Byte) (n : Nat) :
    Prop where
  bytes : sectionBytes ring.pending = some n
  gapless : sectionPayload ring rxBuffer = some (ringBytes rxBuffer ring.rxHead n)
  copied : firstLeft left n n = none

def CleanRead (left : Nat → Nat → Nat) : List Pass → Prop
  | [] => True
  | .signal :: _ => True
  | .locked ring rxBuffer eopFound :: rest =>
    (∃ n, CleanSection (left rest.length) ring rxBuffer n) ∧ (eopFound = true ∨ CleanRead left rest)

def faultySections : List Pass → Nat
  | [] => 0
  | .signal :: _ => 0
  | .locked ring _ eopFound :: rest =>
    (if (sectionBytes ring.pending).isNone then 1 else 0) +
      if eopFound then 0 else faultySections rest

/-- Of each other section its bytes, or what is left of a block if its copy fails. -/
def countedBytes (left : Nat → Nat → Nat) : List Pass → Nat
  | [] => 0
  | .signal :: _ => 0
  | .locked ring _ eopFound :: rest =>
    (sectionBytes ring.pending).elim 0 (fun n => (firstLeft (left rest.length) n n).getD n) +
      if eopFound then 0 else countedBytes left rest

/-- The faulty sections, at `EIO` each, and the bytes of the others make an errno. -/
def looksLikeErrno (left : Nat → Nat → Nat) (passes : List Pass) : Prop :=
  IsReadErrno (Int.bmod (countedBytes left passes-eIo*faultySections passes) (2^32))

section copy

variable {rxBuffer : Nat → Byte} {left : Nat → Nat} {fuel remaining head T index : Nat}
  {user : UserBuffer}

theorem copyLoop_uncopied (rxBuffer : Nat → Byte) (left : Nat → Nat)
    (fuel remaining head index : Nat) (user : UserBuffer) :
    (copyLoop rxBuffer left fuel remaining head index user).uncopied =
      firstLeft left fuel remaining := by
  induction fuel generalizing remaining head index user with
  | zero => rfl
  | succ fuel ih =>
    simp only [copyLoop, firstLeft]
    split
    · rfl
    · split
      · rfl
      · exact ih _ _ _ _

theorem ringByte_head (rxBuffer : Nat → Byte) (hhead : head < rxBufPages) {k : Nat}
    (hk : k < rxBufBlock) : ringByte rxBuffer head k = rxBuffer (head*rxBufBlock+k) := by
  rw [ringByte, Nat.div_eq_of_lt hk, Nat.add_zero, Nat.mod_eq_of_lt hhead, Nat.mod_eq_of_lt hk]

theorem ringByte_next (rxBuffer : Nat → Byte) (head k : Nat) :
    ringByte rxBuffer ((head+1) % rxBufPages) k = ringByte rxBuffer head (k+rxBufBlock) := by
  have hdiv : (k+rxBufBlock)/rxBufBlock = k/rxBufBlock+1 := Nat.add_div_right k (by decide)
  rw [ringByte, ringByte, hdiv, Nat.add_mod_right, Nat.mod_add_mod, Nat.add_right_comm, Nat.add_assoc]

theorem write_ringBytes (rxBuffer : Nat → Byte) (hhead : head < rxBufPages) (remaining o : Nat) :
    (if index+copyLength remaining ≤ o ∧
        o < index+copyLength remaining+(remaining-copyLength remaining) then
      some (ringByte rxBuffer head (o-(index+copyLength remaining)+rxBufBlock))
    else user.write index (copyLength remaining) (fun k => rxBuffer (head*rxBufBlock+k)) o) =
      if index ≤ o ∧ o < index+remaining then some (ringByte rxBuffer head (o-index))
      else user o := by
  have hle := copyLength_le remaining
  have hblock : copyLength remaining ≤ rxBufBlock ∧
      (copyLength remaining < remaining → copyLength remaining = rxBufBlock) := by
    unfold copyLength
    split <;> omega
  by_cases hrest : index+copyLength remaining ≤ o ∧
      o < index+copyLength remaining+(remaining-copyLength remaining)
  · have hfull := hblock.2 (by omega)
    rw [if_pos hrest, if_pos (by omega), hfull]
    congr 2
    omega
  · rw [if_neg hrest, UserBuffer.write]
    by_cases hfirst : index ≤ o ∧ o < index+copyLength remaining
    · rw [if_pos hfirst, if_pos (by omega), ringByte_head rxBuffer hhead (by omega)]
    · rw [if_neg hfirst, if_neg (by omega)]

theorem copyLoop_whole (hcopied : firstLeft left fuel remaining = none) (hfuel : remaining ≤ fuel)
    (hhead : head < rxBufPages) (hT : index+remaining < 2^32) :
    (copyLoop rxBuffer left fuel remaining head index user).index = index+remaining ∧
      ∀ o, (copyLoop rxBuffer left fuel remaining head index user).user o =
        if index ≤ o ∧ o < index+remaining then some (ringByte rxBuffer head (o-index))
        else user o := by
  induction fuel generalizing remaining head index user with
  | zero =>
    obtain rfl : remaining = 0 := by omega
    refine ⟨rfl,fun o => ?_⟩
    rw [if_neg (by omega)]
    rfl
  | succ fuel ih =>
    simp only [firstLeft] at hcopied
    simp only [copyLoop]
    split
    · rename_i hzero
      refine ⟨by rw [hzero]; rfl,fun o => ?_⟩
      rw [if_neg (by omega)]
    · rename_i hpos
      rw [if_neg hpos] at hcopied
      split at hcopied
      · cases hcopied
      · rename_i hdone
        rw [if_neg hdone, not_not.mp hdone, Nat.sub_zero]
        have hle := copyLength_le remaining
        have hlt := copyLength_pos hpos
        have hmod : bumpIndex index (copyLength remaining) = index+copyLength remaining :=
          Nat.mod_eq_of_lt (by omega)
        obtain ⟨hindex,huser⟩ := @ih (remaining-copyLength remaining) ((head+1) % rxBufPages)
          (index+copyLength remaining)
          (user.write index (copyLength remaining) fun k => rxBuffer (head*rxBufBlock+k))
          hcopied (by omega) (Nat.mod_lt _ (by decide)) (by omega)
        rw [hmod]
        refine ⟨by omega,fun o => ?_⟩
        rw [huser, ringByte_next]
        exact write_ringBytes rxBuffer hhead remaining o

/-- A copy that fails stops short of its last byte. -/
theorem copyLoop_short {u : Nat} (hfails : firstLeft left fuel remaining = some u)
    (h : Below T index user) (hT : T+remaining < 2^32) : 0 < remaining ∧
      Below (T+remaining-1) (copyLoop rxBuffer left fuel remaining head index user).index
        (copyLoop rxBuffer left fuel remaining head index user).user := by
  induction fuel generalizing remaining head T index user with
  | zero => cases hfails
  | succ fuel ih =>
    have hi := h.index
    simp only [firstLeft] at hfails
    simp only [copyLoop]
    split at hfails
    · cases hfails
    · rename_i hpos
      have hle := copyLength_le remaining
      have hlt := copyLength_pos hpos
      rw [if_neg hpos]
      refine ⟨Nat.pos_of_ne_zero hpos,?_⟩
      split at hfails
      · rename_i hblock
        rw [if_pos hblock]
        refine ⟨by dsimp only; omega,fun o ho => ?_⟩
        dsimp only at ho
        unfold UserBuffer.write at ho
        split at ho
        · omega
        · have := h.user o ho
          omega
      · rename_i hblock
        rw [if_neg hblock, not_not.mp hblock, Nat.sub_zero]
        have hmod : bumpIndex index (copyLength remaining) = index+copyLength remaining :=
          Nat.mod_eq_of_lt (by omega)
        rw [hmod]
        have hnext : Below (T+copyLength remaining) (index+copyLength remaining)
            (user.write index (copyLength remaining) fun k => rxBuffer (head*rxBufBlock+k)) :=
          ⟨by omega,fun o ho => h.write (Nat.le_refl _) _ o ho⟩
        obtain ⟨hrest,hbelow⟩ := @ih (remaining-copyLength remaining) ((head+1) % rxBufPages)
          (T+copyLength remaining) (index+copyLength remaining) _ hfails hnext (by omega)
        have hsum : T+copyLength remaining+(remaining-copyLength remaining)-1 = T+remaining-1 := by
          omega
        rwa [hsum] at hbelow

theorem copyLoop_before (hT : index+remaining < 2^32) :
    index ≤ (copyLoop rxBuffer left fuel remaining head index user).index ∧
      (copyLoop rxBuffer left fuel remaining head index user).index ≤ index+remaining ∧
      ∀ o < index, (copyLoop rxBuffer left fuel remaining head index user).user o = user o := by
  induction fuel generalizing remaining head index user with
  | zero => exact ⟨Nat.le_refl _,Nat.le_add_right _ _,fun _ _ => rfl⟩
  | succ fuel ih =>
    have hle := copyLength_le remaining
    have hwrite : ∀ n data, ∀ o < index, user.write index n data o = user o := by
      intro n data o ho
      rw [UserBuffer.write, if_neg (by omega)]
    simp only [copyLoop]
    split
    · exact ⟨Nat.le_refl _,Nat.le_add_right _ _,fun _ _ => rfl⟩
    · split
      · exact ⟨Nat.le_refl _,Nat.le_add_right _ _,
          hwrite (copyLength remaining-min (left fuel) (copyLength remaining))
            fun k => rxBuffer (head*rxBufBlock+k)⟩
      · have hmod : bumpIndex index (copyLength remaining) = index+copyLength remaining :=
          Nat.mod_eq_of_lt (by omega)
        rw [hmod]
        obtain ⟨hindex,hle',huser⟩ := @ih (remaining-copyLength remaining) ((head+1) % rxBufPages)
          (index+copyLength remaining)
          (user.write index (copyLength remaining-min (left fuel) (copyLength remaining))
            fun k => rxBuffer (head*rxBufBlock+k)) (by omega)
        exact ⟨by omega,by omega,fun o ho => (huser o (by omega)).trans (hwrite _ _ o ho)⟩

end copy

section sections

variable {ring : RxRing} {rxBuffer : Nat → Byte} {left : Nat → Nat} {index n : Nat}
  {user : UserBuffer}

def passResult (left : Nat → Nat) (ring : RxRing) (rxBuffer : Nat → Byte) (index : Nat)
    (user : UserBuffer) : CopyResult :=
  if ring.complete.fault then ⟨none,index,user⟩
  else copyLoop rxBuffer left ring.complete.pktLength ring.complete.pktLength ring.rxHead index user

def passRc (left : Nat → Nat) (ring : RxRing) : Int :=
  (sectionBytes ring.pending).elim (-eIo) fun n => ((firstLeft left n n).getD n : Nat)

theorem readCyclicLoop_locked (left : Nat → Nat → Nat) (ring : RxRing) (rxBuffer : Nat → Byte)
    (eopFound : Bool) (rest : List Pass) (rcLen : Int) (index : Nat) (user : UserBuffer) :
    readCyclicLoop left (.locked ring rxBuffer eopFound :: rest) rcLen index user =
      let r := passResult (left rest.length) ring rxBuffer index user
      let rc := rcLen+passRc (left rest.length) ring
      if eopFound then (some rc,r.user) else readCyclicLoop left rest rc r.index r.user := by
  have hrc : passRc (left rest.length) ring = if ring.complete.fault then -eIo
      else ((passResult (left rest.length) ring rxBuffer index user).uncopied.getD
        ring.complete.pktLength : Nat) := by
    rw [passRc, complete_bytes, passResult]
    cases ring.complete.fault with
    | true => rfl
    | false => simp [copyLoop_uncopied]
  rw [hrc, readCyclicLoop]
  rfl

theorem passResult_faulty (h : sectionBytes ring.pending = none) :
    passResult left ring rxBuffer index user = ⟨none,index,user⟩ := by
  rw [complete_bytes] at h
  split at h
  · rename_i hfault
    rw [passResult, if_pos hfault]
  · cases h

theorem passResult_bytes (h : sectionBytes ring.pending = some n) :
    passResult left ring rxBuffer index user =
      copyLoop rxBuffer left n n ring.rxHead index user := by
  rw [complete_bytes] at h
  split at h
  · cases h
  · rename_i hfault
    cases h
    rw [passResult, if_neg hfault]

theorem ringBytes_length (rxBuffer : Nat → Byte) (head n : Nat) :
    (ringBytes rxBuffer head n).length = n := by simp [ringBytes]

theorem sectionPayload_faulty (h : sectionBytes ring.pending = none) :
    sectionPayload ring rxBuffer = none := by
  rw [complete_bytes] at h
  split at h
  · rename_i hfault
    rw [sectionPayload, if_pos hfault]
  · cases h

theorem sectionPayload_bytes (h : sectionBytes ring.pending = some n) :
    ∃ data, sectionPayload ring rxBuffer = some data ∧ data.length = n := by
  rw [complete_bytes] at h
  split at h
  · cases h
  · rename_i hfault
    cases h
    rw [sectionPayload, if_neg hfault]
    refine ⟨_,rfl,?_⟩
    rw [ring.complete_spec.1.length]
    induction ring.complete.numCredit with
    | zero => rfl
    | succ m ih =>
      rw [List.range_succ, List.flatMap_append, List.length_append, ih, front_succ, resultBytes,
        resultBytes, total_append]
      simp [ringBytes_length]

theorem ringBytes_add (rxBuffer : Nat → Byte) (head j n : Nat) :
    ringBytes rxBuffer head (rxBufBlock*j+n) =
      ringBytes rxBuffer head (rxBufBlock*j) ++ ringBytes rxBuffer (head+j) n := by
  have hbyte : ∀ k, ringByte rxBuffer head (rxBufBlock*j+k) = ringByte rxBuffer (head+j) k := by
    intro k
    rw [ringByte, ringByte, Nat.mul_add_div (by decide), Nat.mul_add_mod, Nat.add_assoc]
  have hrange := @List.range_add (rxBufBlock*j) n
  rw [ringBytes, hrange, List.map_append, List.map_map]
  exact congrArg _ (List.map_congr_left fun k _ => hbyte k)

/-- Slots that are full but for the last one leave no gap. -/
theorem gapless_of_full (hbytes : sectionBytes ring.pending = some n)
    (hfull : ∀ j, j+1 < ring.complete.numCredit → (ring.ahead j).length.toNat = rxBufBlock) :
    sectionPayload ring rxBuffer = some (ringBytes rxBuffer ring.rxHead n) := by
  obtain ⟨data,hdata,hlen⟩ := @sectionPayload_bytes ring rxBuffer n hbytes
  rw [hdata]
  rw [sectionPayload] at hdata
  split at hdata
  · cases hdata
  · cases hdata
    generalize ring.complete.numCredit = m at hfull hlen ⊢
    have hfront : ∀ k, k < m → ((List.range k).flatMap fun j =>
        ringBytes rxBuffer (ring.rxHead+j) (ring.ahead j).length.toNat) =
          ringBytes rxBuffer ring.rxHead (rxBufBlock*k) := by
      intro k hk
      induction k with
      | zero => rfl
      | succ k ih =>
        rw [List.range_succ, List.flatMap_append, ih (by omega), Nat.mul_succ, ringBytes_add]
        simp [hfull k hk]
    cases m with
    | zero =>
      simp only [List.range_zero, List.flatMap_nil, List.length_nil] at hlen
      simp [← hlen, ringBytes]
    | succ k =>
      rw [List.range_succ, List.flatMap_append, hfront k (by omega)] at hlen ⊢
      simp only [List.flatMap_cons, List.flatMap_nil, List.append_nil, List.length_append,
        ringBytes_length] at hlen ⊢
      rw [← ringBytes_add, hlen]

end sections

section call

variable {left : Nat → Nat → Nat} {passes : List Pass} {rcLen : Int} {index : Nat}
  {user : UserBuffer} {data : List Byte}

theorem passRc_counts (left : Nat → Nat) (ring : RxRing) : passRc left ring =
    ((sectionBytes ring.pending).elim 0 fun n => (firstLeft left n n).getD n : Nat) -
      eIo*(if (sectionBytes ring.pending).isNone then 1 else 0 : Nat) := by
  rw [passRc]
  cases sectionBytes ring.pending with
  | none => rfl
  | some n => simp

theorem readCyclicLoop_rc {x : Int} (h : (readCyclicLoop left passes rcLen index user).1 = some x) :
    x = if interrupted passes then -eRestartSys
      else rcLen+countedBytes left passes-eIo*faultySections passes := by
  induction passes generalizing rcLen index user with
  | nil => cases h
  | cons pass rest ih =>
    cases pass with
    | signal =>
      cases h
      rfl
    | locked ring rxBuffer eopFound =>
      rw [readCyclicLoop_locked, passRc_counts] at h
      simp only [interrupted, countedBytes, faultySections]
      cases eopFound with
      | true =>
        simp only [if_true, Option.some.injEq] at h
        simp only [Bool.not_true, Bool.false_and, Bool.false_eq_true, if_false, if_true, ← h,
          Nat.add_zero]
        omega
      | false =>
        simp only [Bool.false_eq_true, if_false] at h
        rw [ih h]
        simp only [Bool.not_false, Bool.true_and, Bool.false_eq_true, if_false]
        split
        · rfl
        · push_cast
          ring

theorem charSgdmaReadCyclic_rc {rc : Int} (h : (charSgdmaReadCyclic left passes).1 = some rc) :
    rc = if interrupted passes then -eRestartSys
      else Int.bmod (countedBytes left passes-eIo*faultySections passes) (2^32) := by
  obtain ⟨sum,hsum,hrc⟩ := Option.map_eq_some_iff.mp h
  rw [← hrc, readCyclicLoop_rc hsum]
  split
  · rfl
  · rw [Int.zero_add]

theorem readCyclicLoop_user (rcLen rcLen' : Int) :
    (readCyclicLoop left passes rcLen index user).2 =
      (readCyclicLoop left passes rcLen' index user).2 := by
  induction passes generalizing rcLen rcLen' index user with
  | nil => rfl
  | cons pass rest ih =>
    cases pass with
    | signal => rfl
    | locked ring rxBuffer eopFound =>
      rw [readCyclicLoop_locked, readCyclicLoop_locked]
      cases eopFound with
      | true => rfl
      | false => exact ih _ _

theorem readCyclicLoop_before (hT : index+readBytes passes < 2^32) {o : Nat} (ho : o < index) :
    (readCyclicLoop left passes rcLen index user).2 o = user o := by
  induction passes generalizing rcLen index user with
  | nil => rfl
  | cons pass rest ih =>
    cases pass with
    | signal => rfl
    | locked ring rxBuffer eopFound =>
      simp only [readBytes] at hT
      rw [readCyclicLoop_locked]
      obtain ⟨r,hr⟩ : ∃ r, r = passResult (left rest.length) ring rxBuffer index user := ⟨_,rfl⟩
      have hpass : index ≤ r.index ∧ r.index ≤ index+(sectionBytes ring.pending).getD 0 ∧
          ∀ o < index, r.user o = user o := by
        cases hbytes : sectionBytes ring.pending with
        | none =>
          rw [hr, passResult_faulty hbytes]
          exact ⟨Nat.le_refl _,Nat.le_refl _,fun _ _ => rfl⟩
        | some n =>
          rw [hr, passResult_bytes hbytes]
          rw [hbytes] at hT
          exact copyLoop_before (by simp only [Option.getD_some] at hT; omega)
      dsimp only
      rw [← hr]
      cases eopFound with
      | true => exact hpass.2.2 o ho
      | false =>
        simp only [Bool.false_eq_true, if_false] at hT ⊢
        rw [ih (by omega) (by omega)]
        exact hpass.2.2 o ho

theorem readPayload_length {data : List Byte} (h : readPayload passes = some data) :
    data.length = readBytes passes := by
  induction passes generalizing data with
  | nil =>
    cases h
    rfl
  | cons pass rest ih =>
    cases pass with
    | signal =>
      cases h
      rfl
    | locked ring rxBuffer eopFound =>
      simp only [readPayload, Option.bind_eq_some_iff] at h
      obtain ⟨d,hd,h⟩ := h
      cases hbytes : sectionBytes ring.pending with
      | none =>
        rw [sectionPayload_faulty hbytes] at hd
        cases hd
      | some n =>
        obtain ⟨d',hd',hlen⟩ := @sectionPayload_bytes ring rxBuffer n hbytes
        cases hd.symm.trans hd'
        simp only [readBytes, hbytes, Option.getD_some]
        cases eopFound with
        | true =>
          simp only [if_true, Option.some.injEq] at h
          simp [← h, hlen]
        | false =>
          simp only [Bool.false_eq_true, if_false, Option.map_eq_some_iff] at h
          obtain ⟨d₂,hd₂,rfl⟩ := h
          simp [ih hd₂, hlen]

theorem UserBuffer.Holds.unique {a b : List Byte} (ha : user.Holds a) (hb : user.Holds b) : a = b :=
  List.ext_getElem? fun o => (ha o).symm.trans (hb o)

theorem passResult_clean {left : Nat → Nat} {ring : RxRing} {rxBuffer : Nat → Byte} {n : Nat}
    (hbytes : sectionBytes ring.pending = some n) (hcopied : firstLeft left n n = none)
    (h : user.Holds data) (hT : data.length+n < 2^32) :
    (passResult left ring rxBuffer data.length user).index = data.length+n ∧
      (passResult left ring rxBuffer data.length user).user.Holds
        (data ++ ringBytes rxBuffer ring.rxHead n) := by
  rw [passResult_bytes hbytes]
  obtain ⟨hindex,huser⟩ := @copyLoop_whole rxBuffer left n n ring.rxHead data.length user hcopied
    (Nat.le_refl n) ring.head_lt hT
  refine ⟨hindex,fun o => ?_⟩
  rw [huser, h o]
  by_cases hbefore : o < data.length
  · rw [if_neg (by omega), List.getElem?_append_left hbefore]
  · rw [List.getElem?_append_right (by omega), ringBytes, List.getElem?_map]
    by_cases hnew : o < data.length+n
    · rw [if_pos ⟨by omega,hnew⟩, List.getElem?_range (by omega)]
      rfl
    · rw [if_neg (by omega), List.getElem?_eq_none (by omega),
        List.getElem?_eq_none (by rw [List.length_range]; omega)]
      rfl

theorem readCyclicLoop_clean (hclean : CleanRead left passes) (h : user.Holds data)
    (hT : data.length+readBytes passes < 2^32) :
    ∃ d, readPayload passes = some d ∧
      (readCyclicLoop left passes rcLen data.length user).2.Holds (data ++ d) ∧
      faultySections passes = 0 ∧ countedBytes left passes = readBytes passes := by
  induction passes generalizing rcLen data user with
  | nil => exact ⟨[],rfl,by simpa [readCyclicLoop] using h,rfl,rfl⟩
  | cons pass rest ih =>
    cases pass with
    | signal => exact ⟨[],rfl,by simpa [readCyclicLoop] using h,rfl,rfl⟩
    | locked ring rxBuffer eopFound =>
      obtain ⟨⟨n,hbytes,hgapless,hcopied⟩,hrest⟩ := hclean
      simp only [readBytes, hbytes, Option.getD_some] at hT
      obtain ⟨hindex,huser⟩ := @passResult_clean user data (left rest.length) ring rxBuffer n
        hbytes hcopied h (by omega)
      rw [readCyclicLoop_locked]
      simp only [readPayload, hgapless, Option.bind_some, faultySections, countedBytes, readBytes,
        hbytes, Option.isNone_some, Bool.false_eq_true, if_false, Nat.zero_add, Option.elim_some,
        hcopied, Option.getD_none, Option.getD_some]
      cases eopFound with
      | true =>
        refine ⟨_,rfl,?_,rfl,rfl⟩
        simpa using huser
      | false =>
        have hrest := hrest.resolve_left (by decide)
        have hlen : (data ++ ringBytes rxBuffer ring.rxHead n).length = data.length+n := by
          simp [ringBytes_length]
        simp only [Bool.false_eq_true, if_false] at hT ⊢
        obtain ⟨d,hd,hholds,hfaulty,hcounted⟩ := @ih
          (rcLen+passRc (left rest.length) ring) _ _ hrest huser (by rw [hlen]; omega)
        refine ⟨ringBytes rxBuffer ring.rxHead n ++ d,by rw [hd]; rfl,?_,hfaulty,?_⟩
        · rw [hindex, ← hlen, ← List.append_assoc]
          exact hholds
        · rw [hcounted]

theorem readCyclicLoop_short {rest : List Pass} {ring : RxRing} {rxBuffer : Nat → Byte}
    {eopFound : Bool} {n u : Nat} (hbytes : sectionBytes ring.pending = some n)
    (hcopied : firstLeft (left rest.length) n n = some u) (h : user.Holds data)
    (hT : data.length+readBytes (.locked ring rxBuffer eopFound :: rest) < 2^32) :
    0 < readBytes (.locked ring rxBuffer eopFound :: rest) ∧
      (readCyclicLoop left (.locked ring rxBuffer eopFound :: rest) rcLen data.length user).2
        (data.length+readBytes (.locked ring rxBuffer eopFound :: rest)-1) = none := by
  have hstart : Below data.length data.length user := by
    refine ⟨Nat.le_refl _,fun o ho => ?_⟩
    by_contra hge
    rw [h o, List.getElem?_eq_none (by omega)] at ho
    exact ho rfl
  simp only [readBytes, hbytes, Option.getD_some] at hT ⊢
  obtain ⟨hpos,hbelow⟩ := @copyLoop_short rxBuffer (left rest.length) n n ring.rxHead
    data.length data.length user u hcopied hstart (by omega)
  rw [← passResult_bytes hbytes] at hbelow
  refine ⟨by omega,?_⟩
  rw [readCyclicLoop_locked]
  by_contra hwritten
  cases eopFound with
  | true =>
    have hlt := hbelow.user _ hwritten
    simp only [if_true] at hlt
    omega
  | false =>
    simp only [Bool.false_eq_true, if_false] at hwritten hT
    rw [readCyclicLoop_user _ 0] at hwritten
    have hlt := (@readCyclicLoop_within left rest _ _ 0 _ hbelow (Int.natCast_nonneg _)
      (by omega)).1 _ hwritten
    omega

theorem cleanRead_of_holds {d : List Byte} (hd : readPayload passes = some d) (h : user.Holds data)
    (hT : data.length+d.length < 2^32)
    (hfinal : (readCyclicLoop left passes rcLen data.length user).2.Holds (data ++ d)) :
    CleanRead left passes := by
  induction passes generalizing rcLen data user d with
  | nil => trivial
  | cons pass rest ih =>
    cases pass with
    | signal => trivial
    | locked ring rxBuffer eopFound =>
      have hlength := readPayload_length hd
      simp only [readPayload, Option.bind_eq_some_iff] at hd
      obtain ⟨d₁,hd₁,hd⟩ := hd
      cases hbytes : sectionBytes ring.pending with
      | none =>
        rw [sectionPayload_faulty hbytes] at hd₁
        cases hd₁
      | some n =>
        obtain ⟨d',hd',hn⟩ := @sectionPayload_bytes ring rxBuffer n hbytes
        cases hd₁.symm.trans hd'
        cases hcopied : firstLeft (left rest.length) n n with
        | some u =>
          have hlast := hfinal (data.length+d.length-1)
          have hshort := @readCyclicLoop_short left rcLen user data rest ring rxBuffer eopFound n u
            hbytes hcopied h (by omega)
          obtain ⟨hpos,hnone⟩ := hshort
          rw [← hlength] at hnone
          rw [hnone, List.getElem?_eq_getElem (by rw [List.length_append]; omega)] at hlast
          cases hlast
        | none =>
          simp only [readBytes, hbytes, Option.getD_some] at hlength
          obtain ⟨hindex,huser⟩ := @passResult_clean user data (left rest.length) ring rxBuffer n
            hbytes hcopied h (by omega)
          have hlen : (data ++ ringBytes rxBuffer ring.rxHead n).length = data.length+n := by
            simp [ringBytes_length]
          rw [readCyclicLoop_locked] at hfinal
          cases eopFound with
          | true =>
            simp only [if_true, Option.some.injEq] at hd
            subst hd
            have hsame := List.append_cancel_left (huser.unique hfinal)
            exact ⟨⟨n,hbytes,by rw [hd₁, hsame],hcopied⟩,Or.inl rfl⟩
          | false =>
            simp only [Bool.false_eq_true, if_false, Option.map_eq_some_iff] at hd hfinal hlength
            obtain ⟨d₂,hd₂,rfl⟩ := hd
            have hlen₂ := readPayload_length hd₂
            rw [hindex] at hfinal
            -- what the section left is still there at the end
            have hsame : ringBytes rxBuffer ring.rxHead n = d₁ := by
              have hprefix : data ++ ringBytes rxBuffer ring.rxHead n = data ++ d₁ := by
                refine List.ext_getElem? fun o => ?_
                by_cases ho : o < data.length+n
                · have hkept := hfinal o
                  rw [readCyclicLoop_before (by omega) ho, huser o, ← List.append_assoc] at hkept
                  rw [hkept, List.getElem?_append_left (by rw [List.length_append]; omega)]
                · rw [List.getElem?_eq_none (by omega),
                    List.getElem?_eq_none (by rw [List.length_append]; omega)]
              exact List.append_cancel_left hprefix
            rw [hsame] at huser hlen
            rw [← hlen, ← List.append_assoc] at hfinal
            exact ⟨⟨n,hbytes,by rw [hd₁, hsame],hcopied⟩,
              Or.inr (ih hd₂ huser (by rw [hlen]; omega) hfinal)⟩

/-- A call that returns does so with an errno, or with as many bytes as it has
delivered, exactly if a signal ends it, or its sections are clean and short of
2 GiB, or it is taken for an errno. -/
theorem charSgdmaReadCyclic_right {rc : Int}
    (h : (charSgdmaReadCyclic left passes).1 = some rc) :
    ReturnsRight passes rc (charSgdmaReadCyclic left passes).2 ↔ interrupted passes = true ∨
      (CleanRead left passes ∧ readBytes passes < 2^31) ∨ looksLikeErrno left passes := by
  have hrc := charSgdmaReadCyclic_rc h
  have hempty : UserBuffer.untouched.Holds [] := fun _ => rfl
  by_cases hint : interrupted passes = true
  · rw [if_pos hint] at hrc
    exact iff_of_true (Or.inl (Or.inr hrc)) (Or.inl hint)
  · rw [if_neg hint] at hrc
    constructor
    · rintro (herrno | ⟨data,hdata,hlen,hholds⟩)
      · refine Or.inr (Or.inr ?_)
        rwa [looksLikeErrno, ← hrc]
      · have hbytes := readPayload_length hdata
        have hlt : rc < 2^31 := by
          rw [hrc]
          exact Int.bmod_lt (by decide)
        have hclean := @cleanRead_of_holds left passes 0 _ [] data hdata hempty
          (by simp; omega) hholds
        exact Or.inr (Or.inl ⟨hclean,by omega⟩)
    · rintro (hi | ⟨hclean,hlt⟩ | herrno)
      · exact absurd hi hint
      · obtain ⟨d,hd,hholds,hfaulty,hcounted⟩ := @readCyclicLoop_clean left passes 0 _ [] hclean
          hempty (by simp; omega)
        have hbytes := readPayload_length hd
        refine Or.inr ⟨d,hd,?_,hholds⟩
        rw [hrc, hfaulty, hcounted, hbytes, Int.bmod_eq_of_le] <;> omega
      · refine Or.inl ?_
        rwa [looksLikeErrno, ← hrc] at herrno

def oneSlotRing (head : Nat) (hhead : head < rxBufPages) (result : XdmaResult) : RxRing where
  rxHead := head
  rxTail := (head+1) % rxBufPages
  rxOverrun := false
  result := Function.update (fun _ => .cleared) head result
  head_lt := hhead
  tail_lt := Nat.mod_lt _ (by decide)

theorem charSgdmaReadCyclic_right_packet :
    (charSgdmaReadCyclic (fun _ _ => 0) [.locked (onePacketRing 5) (fun _ => 7) true]).1 = some 5 ∧
      ReturnsRight [.locked (onePacketRing 5) (fun _ => 7) true] 5
        (charSgdmaReadCyclic (fun _ _ => 0) [.locked (onePacketRing 5) (fun _ => 7) true]).2 := by
  have hreturned : (charSgdmaReadCyclic (fun _ _ => 0)
      [.locked (onePacketRing 5) (fun _ => 7) true]).1 = some 5 := by decide
  have hclean : CleanSection (fun _ => 0) (onePacketRing 5) (fun _ => 7) 5 :=
    ⟨by decide,by decide,by decide⟩
  exact ⟨hreturned,(charSgdmaReadCyclic_right hreturned).mpr
    (Or.inr (Or.inl ⟨⟨⟨5,hclean⟩,Or.inl rfl⟩,by decide⟩))⟩

def faultThenPacket : List Pass :=
  [.locked (oneSlotRing 0 rxBufPages_pos ⟨0x52B40000,0⟩) (fun _ => 7) false,
    .locked (oneSlotRing 1 one_lt_rxBufPages ⟨0x52B40001,100⟩) (fun _ => 7) true]

/-- The call returns 95, with 100 bytes in the buffer. -/
theorem faultThenPacket_not :
    (charSgdmaReadCyclic (fun _ _ => 0) faultThenPacket).1 = some 95 ∧
      (charSgdmaReadCyclic (fun _ _ => 0) faultThenPacket).2 99 = some 7 ∧
      (charSgdmaReadCyclic (fun _ _ => 0) faultThenPacket).2 100 = none ∧
      ¬ ReturnsRight faultThenPacket 95 (charSgdmaReadCyclic (fun _ _ => 0) faultThenPacket).2 := by
  refine ⟨by decide,by decide,by decide,?_⟩
  rintro (herrno | ⟨data,hdata,_⟩)
  · revert herrno
    decide
  · have hnone : readPayload faultThenPacket = none := by decide
    rw [hnone] at hdata
    cases hdata

end call

end DmaCamera
