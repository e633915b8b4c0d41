import DmaCamera.Transfer
set_option autoImplicit false

namespace DmaCamera
open Spans

/-- The byte moves a descriptor asks for, as pairs of source and destination. -/
def XdmaDesc.expand (desc : XdmaDesc) : List (U64 × U64) :=
  Spans.bytes (desc.src,desc.dst) desc.bytes.toNat

def XdmaTransfer.expand (x : XdmaTransfer) : List (U64 × U64) :=
  (List.range x.descNum).flatMap fun i => (x.descVirt i).expand

def ends (dirToDev : Bool) (p : U64 × U64) : U64 × U64 := if dirToDev then p else p.swap

theorem bytes_ends (dir : Bool) (p : U64 × U64) (n : Nat) :
    bytes (ends dir p) n = (bytes p n).map (ends dir) := by
  cases dir
  · simp only [bytes, List.map_map]
    apply List.map_congr_left
    intro k _
    rfl
  · simp [ends, bytes]

theorem xdmaDescSet_expand (desc : XdmaDesc) (rc ep : U64) {len : Nat} (h : len < 2^32)
    (dir : Bool) :
    (xdmaDescSet desc rc ep len dir).expand = (bytes (rc,ep) len).map (ends dir) := by
  have hl : (BitVec.ofNat 32 len).toNat = len := Nat.mod_eq_of_lt h
  rw [← bytes_ends, XdmaDesc.expand, xdmaDescSet_bytes, hl, xdmaDescSet_src, xdmaDescSet_dst]
  cases dir <;> rfl

def SameMoves (d e : Nat → XdmaDesc) : Prop := ∀ i, (e i).expand = (d i).expand

theorem transferPerf_moves (d : Nat → XdmaDesc) (last : Nat) : SameMoves d (transferPerf d last) := by
  intro i
  by_cases h : i = last
  · subst i
    simp only [transferPerf, Function.update_self]
    rfl
  · simp [transferPerf, Function.update_of_ne h]

theorem fillAdjacent_moves (n : Nat) (d : Nat → XdmaDesc) : SameMoves d (fillAdjacent n d) := by
  intro i
  rw [fillAdjacent, Loops.forLoop_update n fun i e => xdmaDescAdjacent e (n-i-1)]
  split <;> rfl

theorem filledIn_expand (m : BuildMode) (sgm : SgMapping) (nents : Nat) (bus : U64)
    (d : Nat → XdmaDesc) (last : Nat) :
    (filledIn m sgm nents bus d last).expand =
      (List.range (last+1)).flatMap fun i => (d i).expand := by
  have hm : ∀ i, (fillAdjacent (last+1) (transferPerf d last) i).expand = (d i).expand :=
    fun i => (fillAdjacent_moves _ _ i).trans (transferPerf_moves _ _ i)
  simp only [XdmaTransfer.expand, filledIn, hm]

def entryPieces (es : List SgEntry) : List (U64 × Nat) :=
  es.map fun e => (e.dmaAddress,e.dmaLength)

def Block.moves (b : Block) : List (U64 × U64) := bytes (b.contAddr,b.epAddr) b.contLen

theorem Block.moves_grow {b : Block} {entry : SgEntry} (es : List SgEntry)
    (hcl : (b.grow entry).contLen = b.contLen+entry.dmaLength)
    (ha : entry.dmaAddress = b.contAddr+(b.contLen : U64)) :
    b.moves ++ weave (entryPieces (entry :: es)) (b.epAddr+(b.contLen : U64)) =
      (b.grow entry).moves ++ weave (entryPieces es) (b.epAddr+((b.grow entry).contLen : U64)) := by
  simp only [Block.moves, entryPieces, List.map_cons]
  rw [ha, weave_coalesce, hcl]
  rfl

/-- The blocks cover the one collected so far and, behind it, the entries still to come. -/
theorem transferBlocks_moves {m : BuildMode} (hm : m.nonIncrAddr = false) (es : List SgEntry)
    (b : Block) (hne : es ≠ []) (hlen : ∀ e ∈ es, e.dmaLength ≤ dmaMaxSegSize)
    (hc : b.contLen ≤ xdmaDescMaxBytes-pageSize)
    (hnext : ∀ e, es.head? = some e → e.dmaAddress = b.contAddr+(b.contLen : U64)) :
    (transferBlocks m es b).flatMap Block.moves =
      b.moves ++ weave (entryPieces es) (b.epAddr+(b.contLen : U64)) := by
  fun_induction transferBlocks m es b with
  | case1 b => exact absurd rfl hne
  | case2 entry b =>
    have hcl := Block.grow_open hc (hlen entry (List.mem_cons_self ..))
    rw [Block.moves_grow [] hcl (hnext entry rfl)]
    simp [entryPieces, weave]
  | case3 entry next rest b b₁ hnew ih =>
    have hcl := Block.grow_open hc (hlen entry (List.mem_cons_self ..))
    have hcov := ih (by simp) (fun e h => hlen e (List.mem_cons_of_mem _ h)) (Nat.zero_le _)
      (by intro e h; cases h; simp [Block.advance])
    have hep : (b₁.advance m next).epAddr = b.epAddr+(b₁.contLen : U64) := by
      simp [Block.advance, hm]
      rfl
    have hz : (b₁.advance m next).contLen = 0 := rfl
    have hempty : (b₁.advance m next).moves = [] := rfl
    rw [hempty, List.nil_append, hep, hz, Nat.cast_zero, add_zero] at hcov
    rw [Block.moves_grow _ hcl (hnext entry rfl), List.flatMap_cons, hcov]
  | case4 entry next rest b b₁ hnew ih =>
    have hcl := Block.grow_open hc (hlen entry (List.mem_cons_self ..))
    simp only [needsNewDesc, bne_iff_ne, ne_eq, Bool.or_eq_true, decide_eq_true_eq, not_or,
      not_not, Bool.not_eq_true] at hnew
    obtain ⟨⟨hadj,hmax⟩,_⟩ := hnew
    have ha := hnext entry rfl
    have hcont : next.dmaAddress = b₁.contAddr+(b₁.contLen : U64) := by
      have hsum : b₁.contLen = b.contLen+entry.dmaLength := hcl
      rw [hadj, ha, hsum]
      push_cast
      rw [add_assoc]
      rfl
    rw [ih (by simp) (fun e h => hlen e (List.mem_cons_of_mem _ h)) (Nat.le_of_not_lt hmax)
      (by intro e h; cases h; exact hcont), Block.moves_grow _ hcl ha]
    rfl

theorem transferBuild_moves {sgl : List SgEntry} {d d' : Nat → XdmaDesc} {ep : U64} {m : BuildMode}
    {last : Nat} (hm : m.nonIncrAddr = false) (hlen : ∀ e ∈ sgl, e.dmaLength ≤ dmaMaxSegSize)
    (h : transferBuild sgl d ep m = .ok (last,d')) :
    ((List.range (last+1)).flatMap fun i => (d' i).expand) =
      (weave (entryPieces sgl) ep).map (ends m.dirToDev) := by
  have hne : sgl ≠ [] := by
    rintro rfl
    cases h
  have hcov := transferBlocks_moves hm sgl (firstBlock sgl ep) hne hlen (Nat.zero_le _) (by
    intro e he
    cases sgl with
    | nil => cases he
    | cons entry rest =>
      cases he
      simp [firstBlock])
  have heach := transferBuild_map h XdmaDesc.expand (fun b => b.moves.map (ends m.dirToDev))
    fun b hb desc => xdmaDescSet_expand desc _ _ (transferBlocks_lt b hb) _
  rw [List.flatMap_def, heach, ← List.flatMap_def, ← List.map_flatMap, hcov]
  simp [Block.moves, firstBlock]

theorem Tiles.length_le {P start n : Nat} {ps : List Piece} (h : Tiles P start n ps) :
    ∀ p ∈ ps, p.length ≤ P := by
  induction ps generalizing start n with
  | nil => simp
  | cons q ps ih =>
    obtain ⟨_,hq,_,_,ht⟩ := h
    intro p hp
    rcases List.mem_cons.mp hp with rfl | hp
    · omega
    · exact ih ht p hp

theorem Tiles.ne_nil {P start n : Nat} {ps : List Piece} (h : Tiles P start n ps) (hn : 1 ≤ n) :
    ps ≠ [] := by
  rintro rfl
  have hz : n = 0 := h
  omega

theorem sgmGetUserPages_tiles {k : Platform} {dma : Nat → U64} (hk : k.Maps dma) {start cnt : Nat}
    (h1 : 1 ≤ cnt) (hc : cnt ≤ xdmaTransferMaxBytes) (hs : start+cnt < 2^64) :
    ∃ sgm sgm' rc, sgCreateMapper k cnt = some sgm ∧
      sgmGetUserPages k sgm start cnt = .ok (rc,sgm') ∧ 0 ≤ rc ∧ 0 < sgm'.mappedPages ∧
      Tiles pageSize start cnt sgm'.sgl := by
  have hcreate : sgCreateMapper k cnt = some ⟨[],((cnt/pageSize+2 : Nat) : Int),0⟩ :=
    sgCreateMapper_some_iff.mpr
      ⟨h1,⟨hk.kcallocMapper,hk.kcallocPages,hk.kcallocSgl⟩,by rw [sgCreateMapper_max hc]⟩
  have hfits := sgCreateMapper_fits hcreate h1 (Nat.le_refl cnt) (fewPages_of_le hc) hs
  have hlists := sgmGetUserPages_lists hfits (hk.getUserPagesFast start (touched start cnt))
  exact ⟨_,_,_,hcreate,hlists,Int.natCast_nonneg _,Nat.succ_pos _,pagePieces_tiles pageSize_pos h1⟩

/-- A created transfer moves its bytes of the buffer, and its descriptors fit
the array that was allocated for them. -/
theorem transferCreate_moves {k : Platform} {dma : Nat → U64} (hk : k.Maps dma) {start cnt : Nat}
    (h1 : 1 ≤ cnt) (hc : cnt ≤ xdmaTransferMaxBytes) (hs : start+cnt < 2^64) (ep : U64)
    (dir : Bool) :
    ∃ x, transferCreate k start cnt ep ⟨dir,false,false,true⟩ = .ok (some x) ∧
      x.descNum ≤ x.sglNents ∧
      x.expand = (List.range cnt).map fun i : ℕ =>
        ends dir (translate pageSize dma (start+i),ep+(i : U64)) := by
  obtain ⟨sgm,sgm',rc,hcreate,hpages,hrc,hmapped,ht⟩ := sgmGetUserPages_tiles hk h1 hc hs
  have hsgl := hk.pciMapSg sgm'.sgl
  have hlen : (k.pciMapSg sgm'.sgl).length = sgm'.sgl.length := by rw [hsgl, List.length_map]
  have hpos : 1 ≤ sgm'.sgl.length := List.length_pos_iff.mpr (Tiles.ne_nil ht h1)
  have hes : k.pciMapSg sgm'.sgl ≠ [] := List.length_pos_iff.mp (by omega)
  obtain ⟨⟨bus,memory⟩,halloc⟩ := hk.pciAllocConsistent (k.pciMapSg sgm'.sgl).length
  obtain ⟨d,hd,_⟩ := xdmaDescAlloc_spec (hlen ▸ hpos) bus memory
  obtain ⟨last,d',hbuild,hlast,_⟩ := transferBuild_chain hes d ep ⟨dir,false,false,true⟩
  have hle : ∀ e ∈ k.pciMapSg sgm'.sgl, e.dmaLength ≤ dmaMaxSegSize := by
    intro e he
    rw [hsgl] at he
    obtain ⟨p,hp,rfl⟩ := List.mem_map.mp he
    exact Nat.le_trans (Tiles.length_le ht p hp) (by decide)
  have hcov := transferBuild_moves rfl hle hbuild
  refine ⟨filledIn ⟨dir,false,false,true⟩ sgm' (k.pciMapSg sgm'.sgl).length bus d' last,?_,hlast,?_⟩
  · have hr : (decide (rc < 0) || sgm'.mappedPages == 0) = false := by
      have h0 : ¬ rc < 0 := by omega
      have h1 : sgm'.mappedPages ≠ 0 := by omega
      simp [h0, h1]
    simp only [transferCreate, hk.kzallocTransfer, Bool.not_true, Bool.false_eq_true, if_false,
      hcreate, if_true, hpages, hr, halloc, hd, hbuild]
  · have hpieces : entryPieces (k.pciMapSg sgm'.sgl) =
        sgm'.sgl.map fun p => (dma p.page+(p.offset : U64),p.length) := by
      rw [entryPieces, hsgl, List.map_map]
      rfl
    rw [filledIn_expand, hcov, hpieces, Tiles.weave dma ht ep, List.map_map]
    rfl

/-- What a chunk of a request meets: the kernel's answers to `transfer_create`,
the return value of `transfer_monitor`, and the state its transfer then has. -/
structure ChunkEnv where
  kernel : Platform
  rc : Int
  state : TransferState

structure DataState where
  res : Int
  done : Nat
  transferAddr : Nat
  remaining : Nat
  pos : Int
  built : List XdmaTransfer

/-- What `transfer_data` makes of a chunk: an untouched transfer is an error
only if the monitor reported one. -/
def chunkVerdict (state : TransferState) (rc : Int) : Int :=
  if state ≠ .submitted then
    if state ≠ .completed then -eIo else 0
  else if rc ≠ 0 then -eRestartSys
  else 0

def chunkLength (remaining : Nat) : Nat :=
  if remaining > xdmaTransferMaxBytes then xdmaTransferMaxBytes else remaining

theorem chunkLength_bounds {remaining : Nat} (h : 0 < remaining) :
    1 ≤ chunkLength remaining ∧ chunkLength remaining ≤ xdmaTransferMaxBytes ∧
      chunkLength remaining ≤ remaining := by
  have hm : 0 < xdmaTransferMaxBytes := by decide
  unfold chunkLength
  split <;> omega

/-- A `size_of_request` is filled in on the last transfer of the request. -/
def markLast (x : XdmaTransfer) (s : DataState) : XdmaTransfer :=
  if chunkLength s.remaining ≥ s.remaining then
    { x with lastInRequest := true, sizeOfRequest := s.done+chunkLength s.remaining }
  else x

def DataState.build (s : DataState) (x : XdmaTransfer) : DataState :=
  { s with built := s.built ++ [markLast x s] }

def DataState.account (s : DataState) (res : Int) : DataState :=
  if res ≠ 0 then { s with res := res, remaining := 0 }
  else { s with
    res := res
    done := s.done+chunkLength s.remaining
    transferAddr := (s.transferAddr+chunkLength s.remaining) % 2^64
    remaining := s.remaining-chunkLength s.remaining
    pos := Int.bmod (s.pos+chunkLength s.remaining) (2^64) }

def DataState.create (k : Platform) (m : BuildMode) (s : DataState) :
    Except Fault (Option XdmaTransfer) :=
  transferCreate k s.transferAddr (chunkLength s.remaining) (BitVec.ofInt 64 s.pos) m

def transferDataStep (m : BuildMode) (c : ChunkEnv) (s : DataState) : Except Fault DataState :=
  match s.create c.kernel m with
  | .error f => .error f
  | .ok none => .ok { s with remaining := 0, res := -eIo }
  | .ok (some x) => .ok ((s.build x).account (chunkVerdict c.state c.rc))

def DataState.advance (s : DataState) : DataState :=
  { s with
    res := 0
    done := s.done+chunkLength s.remaining
    transferAddr := (s.transferAddr+chunkLength s.remaining) % 2^64
    remaining := s.remaining-chunkLength s.remaining
    pos := Int.bmod (s.pos+chunkLength s.remaining) (2^64) }

theorem transferDataStep_ok {m : BuildMode} {c : ChunkEnv} {s s' : DataState}
    (h : transferDataStep m c s = .ok s') :
    (s.create c.kernel m = .ok none ∧ s' = { s with remaining := 0, res := -eIo }) ∨
      ∃ x, s.create c.kernel m = .ok (some x) ∧
        ((chunkVerdict c.state c.rc ≠ 0 ∧
            s' = { s.build x with res := chunkVerdict c.state c.rc, remaining := 0 }) ∨
          (chunkVerdict c.state c.rc = 0 ∧ s' = (s.build x).advance)) := by
  unfold transferDataStep at h
  split at h
  · cases h
  · rename_i hnone
    cases h
    exact Or.inl ⟨hnone,rfl⟩
  · rename_i x hx
    cases h
    refine Or.inr ⟨x,hx,?_⟩
    by_cases hv : chunkVerdict c.state c.rc = 0
    · exact Or.inr ⟨hv,by simp [DataState.account, DataState.advance, hv]⟩
    · exact Or.inl ⟨hv,by simp [DataState.account, hv]⟩

theorem transferDataStep_remaining {m : BuildMode} {c : ChunkEnv} {s s' : DataState}
    (hs : 0 < s.remaining) (h : transferDataStep m c s = .ok s') : s'.remaining < s.remaining := by
  have hlen := chunkLength_bounds hs
  rcases transferDataStep_ok h with ⟨_,rfl⟩ | ⟨x,_,⟨_,rfl⟩ | ⟨_,rfl⟩⟩
  · exact hs
  · exact hs
  · simp only [DataState.advance, DataState.build]
    omega

def transferDataLoop (m : BuildMode) (env : Nat → ChunkEnv) (i : Nat) (s : DataState) :
    Except Fault DataState :=
  if _h : s.res = 0 ∧ 0 < s.remaining then
    match hs : transferDataStep m (env i) s with
    | .error f => .error f
    | .ok s' => transferDataLoop m env (i+1) s'
  else .ok s
termination_by s.remaining
decreasing_by exact transferDataStep_remaining _h.2 hs

theorem transferDataLoop_more {m : BuildMode} {env : Nat → ChunkEnv} {i : Nat} {s s' : DataState}
    (h : s.res = 0 ∧ 0 < s.remaining) (hs : transferDataStep m (env i) s = .ok s') :
    transferDataLoop m env i s = transferDataLoop m env (i+1) s' := by
  rw [transferDataLoop, dif_pos h]
  split
  · rename_i f hf
    rw [hs] at hf
    cases hf
  · rename_i t ht
    rw [hs] at ht
    cases ht
    rfl

theorem transferDataLoop_done {m : BuildMode} {env : Nat → ChunkEnv} {i : Nat} {s : DataState}
    (h : ¬ (s.res = 0 ∧ 0 < s.remaining)) : transferDataLoop m env i s = .ok s := by
  rw [transferDataLoop, dif_neg h]

def transferData (dirToDev nonIncrAddr : Bool) (env : Nat → ChunkEnv) (transferAddr remaining : Nat)
    (pos : Int) : Except Fault (Int × Int × List XdmaTransfer) :=
  match transferDataLoop ⟨dirToDev,nonIncrAddr,false,true⟩ env 0
    ⟨0,0,transferAddr,remaining,pos,[]⟩ with
  | .error f => .error f
  | .ok s => .ok (if s.res ≠ 0 then s.res else s.done,s.pos,s.built)

def requestedMove (dir : Bool) (dma : Nat → U64) (start : Nat) (pos : Int) (k : Nat) : U64 × U64 :=
  ends dir (translate pageSize dma (start+k),BitVec.ofInt 64 (pos+k))

structure Moved (dir : Bool) (dma : Nat → U64) (start count : Nat) (pos : Int) (s : DataState) :
    Prop where
  res : s.res = 0
  addr : s.transferAddr = start+s.done
  left : s.done+s.remaining = count
  position : s.pos = pos+s.done
  fits : ∀ x ∈ s.built, x.descNum ≤ x.sglNents
  moves : s.built.flatMap XdmaTransfer.expand =
    (List.range s.done).map (requestedMove dir dma start pos)

theorem markLast_expand (x : XdmaTransfer) (s : DataState) :
    (markLast x s).expand = x.expand := by
  unfold markLast
  split <;> rfl

theorem markLast_fits (x : XdmaTransfer) (s : DataState) :
    (markLast x s).descNum ≤ (markLast x s).sglNents ↔ x.descNum ≤ x.sglNents := by
  unfold markLast
  split <;> rfl

theorem ofInt_add_cast (pos : Int) (k : Nat) :
    BitVec.ofInt 64 pos+(k : U64) = BitVec.ofInt 64 (pos+k) := by
  rw [BitVec.ofInt_add, BitVec.ofInt_natCast]
  rfl

/-- A chunk whose transfer moves its bytes is done. -/
theorem Moved.advance {dir : Bool} {dma : Nat → U64} {start count : Nat} {pos : Int} {s : DataState}
    {x : XdmaTransfer} (hm : Moved dir dma start count pos s) (hs : start+count < 2^64) (hp : 0 ≤ pos)
    (hpc : pos+count < 2^63) (hr : 0 < s.remaining) (hfit : x.descNum ≤ x.sglNents)
    (hmove : x.expand = (List.range (chunkLength s.remaining)).map fun i : ℕ =>
      ends dir (translate pageSize dma (s.transferAddr+i),BitVec.ofInt 64 s.pos+(i : U64))) :
    Moved dir dma start count pos (s.build x).advance := by
  obtain ⟨n,hn⟩ : ∃ n, n = chunkLength s.remaining := ⟨_,rfl⟩
  obtain ⟨_,hle,hrem⟩ := chunkLength_bounds hr
  rw [← hn] at hle hrem hmove
  have haddr := hm.addr
  have hleft := hm.left
  have hpos := hm.position
  refine ⟨rfl,?_,?_,?_,?_,?_⟩
  · simp only [DataState.advance, DataState.build, ← hn]
    omega
  · simp only [DataState.advance, DataState.build, ← hn]
    omega
  · have hb : Int.bmod (s.pos+n) (2^64) = s.pos+n := by
      rw [Int.bmod_eq_of_le] <;> omega
    simp only [DataState.advance, DataState.build, ← hn]
    rw [hb, hpos]
    push_cast
    omega
  · intro y hy
    rcases List.mem_append.mp hy with hy | hy
    · exact hm.fits y hy
    · rw [List.mem_singleton.mp hy, markLast_fits]
      exact hfit
  · simp only [DataState.advance, DataState.build, ← hn]
    rw [List.flatMap_append, hm.moves, List.range_add, List.map_append, List.map_map]
    congr 1
    simp only [List.flatMap_cons, List.flatMap_nil, List.append_nil, markLast_expand]
    rw [hmove]
    apply List.map_congr_left
    intro k _
    simp only [Function.comp, requestedMove, ofInt_add_cast, haddr, hpos, Nat.cast_add,
      Nat.add_assoc, Int.add_assoc]

theorem transferDataStep_moved {dir : Bool} {dma : Nat → U64} {start count : Nat} {pos : Int}
    {s : DataState} {c : ChunkEnv} (hk : c.kernel.Maps dma) (hc : c.state = .completed)
    (hs : start+count < 2^64) (hp : 0 ≤ pos) (hpc : pos+count < 2^63)
    (hm : Moved dir dma start count pos s) (hr : 0 < s.remaining) :
    ∃ s', transferDataStep ⟨dir,false,false,true⟩ c s = .ok s' ∧
      Moved dir dma start count pos s' := by
  obtain ⟨h1,hle,hrem⟩ := chunkLength_bounds hr
  have haddr := hm.addr
  have hleft := hm.left
  have hend : s.transferAddr+chunkLength s.remaining < 2^64 := by omega
  obtain ⟨x,hx,hfit,hmove⟩ := transferCreate_moves hk h1 hle hend (BitVec.ofInt 64 s.pos) dir
  have hv : chunkVerdict c.state c.rc = 0 := by simp [chunkVerdict, hc]
  have hstep : transferDataStep ⟨dir,false,false,true⟩ c s = .ok (s.build x).advance := by
    simp only [transferDataStep, DataState.create, hx, hv, DataState.account, DataState.advance,
      ne_eq, not_true_eq_false, if_false]
  exact ⟨_,hstep,hm.advance hs hp hpc hr hfit hmove⟩

theorem transferDataLoop_moved {dir : Bool} {dma : Nat → U64} {start count : Nat} {pos : Int}
    {env : Nat → ChunkEnv} (hk : ∀ i, (env i).kernel.Maps dma)
    (hc : ∀ i, (env i).state = .completed) (hs : start+count < 2^64) (hp : 0 ≤ pos)
    (hpc : pos+count < 2^63) (i : Nat) (s : DataState) (hm : Moved dir dma start count pos s) :
    ∃ s', transferDataLoop ⟨dir,false,false,true⟩ env i s = .ok s' ∧
      Moved dir dma start count pos s' ∧ s'.remaining = 0 := by
  obtain ⟨n,hn⟩ : ∃ n, n = s.remaining := ⟨_,rfl⟩
  induction n using Nat.strongRecOn generalizing i s with
  | ind n ih =>
    by_cases hr : 0 < s.remaining
    · obtain ⟨s',hs',hm'⟩ := transferDataStep_moved (hk i) (hc i) hs hp hpc hm hr
      have hlt := transferDataStep_remaining hr hs'
      rw [transferDataLoop_more ⟨hm.res,hr⟩ hs']
      exact ih s'.remaining (hn ▸ hlt) (i+1) s' hm' rfl
    · rw [transferDataLoop_done (fun h => hr h.2)]
      exact ⟨s,rfl,hm,Nat.eq_zero_of_not_pos hr⟩

theorem transferData_moves {dma : Nat → U64} {env : Nat → ChunkEnv} (dir : Bool) {start count : Nat}
    {pos : Int} (hk : ∀ i, (env i).kernel.Maps dma) (hc : ∀ i, (env i).state = .completed)
    (hs : start+count < 2^64) (hp : 0 ≤ pos) (hpc : pos+count < 2^63) :
    ∃ built, transferData dir false env start count pos = .ok (count,pos+count,built) ∧
      (∀ x ∈ built, x.descNum ≤ x.sglNents) ∧
      built.flatMap XdmaTransfer.expand =
        (List.range count).map (requestedMove dir dma start pos) := by
  have h0 : Moved dir dma start count pos ⟨0,0,start,count,pos,[]⟩ :=
    ⟨rfl,rfl,Nat.zero_add _,(Int.add_zero _).symm,by simp,rfl⟩
  obtain ⟨s,hloop,hm,hr⟩ := transferDataLoop_moved hk hc hs hp hpc 0 _ h0
  have hdone : s.done = count := by
    have h := hm.left
    omega
  refine ⟨s.built,?_,hm.fits,by rw [hm.moves, hdone]⟩
  simp only [transferData, hloop, hm.res, hm.position, hdone, ne_eq, not_true_eq_false, if_false]

theorem transferData_moves_nineMiB :
    ∃ built, transferData true false
        (fun _ => ⟨.ample fun page => BitVec.ofNat 64 (page*8192),0,.completed⟩) 100 9437184 64 =
          .ok ((9437184 : Nat),64+(9437184 : Nat),built) ∧
      (∀ x ∈ built, x.descNum ≤ x.sglNents) ∧
      built.flatMap XdmaTransfer.expand = (List.range 9437184).map
        (requestedMove true (fun page => BitVec.ofNat 64 (page*8192)) 100 64) :=
  transferData_moves true (fun _ => Platform.ample_maps fun page => BitVec.ofNat 64 (page*8192))
    (fun _ => rfl) (by norm_num) (by norm_num) (by norm_num)

end DmaCamera
