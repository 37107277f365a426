-- SUMMARY: What creating a DMA buffer leaves and what destroying it takes back: the size of the block, its pages, and the kernel's memory before and after.
import Gpcieuni.Buffer
import Mathlib.Data.List.Nodup

/-!
# DMA buffers: specification

Both functions act on the pages that `pageLoop` comes to. `pageLoop_eq` says
which these are for a size that is a number of pages, so that what one loop
reserves is what the other gives back.
-/

namespace Gpcieuni

/-! ## Orders and sizes -/

theorem pageSize_eq : pageSize = 4096 := rfl

theorem getOrder_zero : getOrder 0 = 52 := by decide

/-- `get_order` gives the least order whose block holds that many bytes. -/
theorem getOrder_le_iff {size : BitVec 64} (h : size ≠ 0) {k : Nat} :
    getOrder size ≤ k ↔ size.toNat ≤ pageSize * 2 ^ k := by
  have hpos : size.toNat ≠ 0 := by
    intro hzero
    exact h (BitVec.eq_of_toNat_eq hzero)
  have hlt := size.isLt
  have hsub : (size - 1).toNat = size.toNat - 1 := by
    rw [BitVec.toNat_sub]
    have hone : BitVec.toNat (1 : BitVec 64) = 1 := rfl
    omega
  have hpage : pageSize = 2 ^ pageShift := rfl
  unfold getOrder
  rw [Nat.size_le, BitVec.toNat_ushiftRight, hsub, Nat.shiftRight_eq_div_pow, ← hpage,
    Nat.div_lt_iff_lt_mul (by decide), Nat.mul_comm pageSize]
  omega

theorem getOrder_le (size : BitVec 64) : getOrder size ≤ 52 := by
  have hlt := (size - 1).isLt
  unfold getOrder
  rw [Nat.size_le, BitVec.toNat_ushiftRight, Nat.shiftRight_eq_div_pow,
    Nat.div_lt_iff_lt_mul (by decide)]
  exact hlt

theorem order_toNat (size : BitVec 64) : (BitVec.ofNat 32 (getOrder size)).toNat = getOrder size := by
  have hle := getOrder_le size
  rw [BitVec.toNat_ofNat]
  omega

/-- The shift of `pcieuni_buffer_create`: it has a value exactly for the orders
below 19, and then no bit is lost. -/
theorem intOneShiftLeft_order (size : BitVec 64) :
    intOneShiftLeft (BitVec.ofNat 32 (getOrder size) + BitVec.ofNat 32 pageShift) =
      if getOrder size < 19 then some (BitVec.ofNat 64 (pageSize * 2 ^ getOrder size)) else none := by
  have hle := getOrder_le size
  have hsum : (BitVec.ofNat 32 (getOrder size) + BitVec.ofNat 32 pageShift).toNat =
      getOrder size + 12 := by
    rw [BitVec.toNat_add, order_toNat, show (BitVec.ofNat 32 pageShift).toNat = 12 from rfl]
    omega
  unfold intOneShiftLeft
  rw [hsum]
  by_cases h : getOrder size < 19
  · rw [if_pos (by omega), if_pos h]
    congr 1
    apply BitVec.eq_of_toNat_eq
    rw [BitVec.toNat_shiftLeft, BitVec.toNat_ofNat, BitVec.toNat_ofNat, Nat.shiftLeft_eq,
      show pageSize = 2 ^ 12 from rfl, ← pow_add, Nat.add_comm 12, Nat.one_mod_two_pow (by decide),
      Nat.one_mul]
  · rw [if_neg (by omega), if_neg h]

/-! ## The pages of a block -/

/-- The pages of a block of `n` pages, in the order of their addresses. -/
def blockPages (kaddr : BitVec 64) (n : Nat) : List (BitVec 64) :=
  (List.range n).map fun i => virtToPage (kaddr + BitVec.ofNat 64 (pageSize * i))

/-- An address of a block of `n` pages lies in the page. -/
def InBlock (kaddr : BitVec 64) (n : Nat) (page : BitVec 64) : Prop :=
  ∃ i < pageSize * n, page = virtToPage (kaddr + BitVec.ofNat 64 i)

theorem pageLoop_range' (kaddr : BitVec 64) {n i l : Nat} (h : i + l = n) :
    pageLoop kaddr (pageSize * n) (pageSize * i) =
      (List.range' i l).map fun j => virtToPage (kaddr + BitVec.ofNat 64 (pageSize * j)) := by
  induction l generalizing i with
  | zero =>
      have hdone : ¬ pageSize * i < pageSize * n := by
        rw [pageSize_eq]
        omega
      rw [pageLoop, if_neg hdone]
      rfl
  | succ l ih =>
      have hmore : pageSize * i < pageSize * n := by
        rw [pageSize_eq]
        omega
      rw [pageLoop, if_pos hmore, List.range'_succ, List.map_cons, ← ih (by omega), Nat.mul_succ]

theorem pageLoop_eq (kaddr : BitVec 64) (n : Nat) :
    pageLoop kaddr (pageSize * n) 0 = blockPages kaddr n := by
  have h := pageLoop_range' kaddr (Nat.zero_add n)
  rwa [Nat.mul_zero, ← List.range_eq_range'] at h

theorem virtToPage_toNat (a : BitVec 64) : (virtToPage a).toNat = a.toNat / pageSize := by
  unfold virtToPage
  rw [BitVec.toNat_ushiftRight, Nat.shiftRight_eq_div_pow]
  rfl

theorem virtToPage_inj {kaddr : BitVec 64} {i j : Nat} (hi : i < 2 ^ 52) (hj : j < 2 ^ 52)
    (h : virtToPage (kaddr + BitVec.ofNat 64 (pageSize * i)) =
      virtToPage (kaddr + BitVec.ofNat 64 (pageSize * j))) : i = j := by
  have hnat := congrArg BitVec.toNat h
  have hlt := kaddr.isLt
  rw [virtToPage_toNat, virtToPage_toNat, BitVec.toNat_add, BitVec.toNat_add, BitVec.toNat_ofNat,
    BitVec.toNat_ofNat, pageSize_eq] at hnat
  omega

/-- The loops come to every page once. -/
theorem blockPages_nodup (kaddr : BitVec 64) {n : Nat} (hn : n ≤ 2 ^ 52) :
    (blockPages kaddr n).Nodup := by
  apply List.Nodup.map_on ?_ List.nodup_range
  intro i hi j hj h
  have hi := List.mem_range.mp hi
  have hj := List.mem_range.mp hj
  exact virtToPage_inj (by omega) (by omega) h

/-- They come to the pages that the block's addresses lie in. -/
theorem mem_blockPages {kaddr page : BitVec 64} {n : Nat} (haligned : kaddr.toNat % pageSize = 0) :
    page ∈ blockPages kaddr n ↔ InBlock kaddr n page := by
  unfold blockPages InBlock
  rw [List.mem_map]
  constructor
  · rintro ⟨i, hi, rfl⟩
    exact ⟨pageSize * i, Nat.mul_lt_mul_of_pos_left (List.mem_range.mp hi) (by decide), rfl⟩
  · rintro ⟨i, hi, rfl⟩
    refine ⟨i / pageSize, List.mem_range.mpr (Nat.div_lt_of_lt_mul hi), ?_⟩
    -- the rest of the offset stays inside the page, because the block starts one
    apply BitVec.eq_of_toNat_eq
    rw [virtToPage_toNat, virtToPage_toNat, BitVec.toNat_add, BitVec.toNat_add, BitVec.toNat_ofNat,
      BitVec.toNat_ofNat, pageSize_eq]
    rw [pageSize_eq] at haligned
    omega

/-! ## Sequences of calls -/

theorem Memory.run_append (m : Memory) (l l' : List MemCall) :
    m.run (l ++ l') = (m.run l).bind fun m' => m'.run l' := by
  induction l generalizing m with
  | nil => rfl
  | cons c l ih =>
      rw [List.cons_append, run, run]
      cases m.call c with
      | none => rfl
      | some m' => exact ih m'

theorem Memory.run_setPageReserved (m : Memory) (pages : List (BitVec 64)) :
    m.run (pages.map .setPageReserved) =
      some { m with reserved := fun p => m.reserved p || decide (p ∈ pages) } := by
  induction pages generalizing m with
  | nil => simp [run]
  | cons page pages ih =>
      rw [List.map_cons, run]
      simp only [call]
      rw [ih]
      congr 2
      funext p
      by_cases h : p = page
      · subst h; simp
      · simp [h]

theorem Memory.run_clearPageReserved (m : Memory) (pages : List (BitVec 64)) :
    m.run (pages.map .clearPageReserved) =
      some { m with reserved := fun p => m.reserved p && !decide (p ∈ pages) } := by
  induction pages generalizing m with
  | nil => simp [run]
  | cons page pages ih =>
      rw [List.map_cons, run]
      simp only [call]
      rw [ih]
      congr 2
      funext p
      by_cases h : p = page
      · subst h; simp
      · simp [h]

/-! ## What the two functions call -/

section Create

variable {env : BufferEnv} {mappingError : BitVec 64 → Bool} {d : PciDev} {bufSize : BitVec 64}

/-- The order that is asked for. -/
def orderOf (bufSize : BitVec 64) : BitVec 32 := BitVec.ofNat 32 (getOrder bufSize)

/-- The pages of the block that is handed out. -/
def BufferEnv.pages (env : BufferEnv) (bufSize : BitVec 64) : List (BitVec 64) :=
  blockPages (env.getFreePages (orderOf bufSize)) (2 ^ getOrder bufSize)

/-- The buffer that is returned. -/
def BufferEnv.buffer (env : BufferEnv) (p bufSize : BitVec 64) : PcieuniBuffer where
  addr := p
  size := some (BitVec.ofNat 64 (pageSize * 2 ^ getOrder bufSize))
  order := orderOf bufSize
  kaddr := env.getFreePages (orderOf bufSize)
  dmaHandle := env.dmaMapSingle
  state := BufferList.createdState

/-- The calls that get the structure and the block and reserve its pages. -/
def BufferEnv.acquire (env : BufferEnv) (p bufSize : BitVec 64) : List MemCall :=
  .kzalloc p :: .getFreePages (env.getFreePages (orderOf bufSize)) (orderOf bufSize) ::
    (env.pages bufSize).map .setPageReserved

/-- The calls that undo these. -/
def BufferEnv.release (env : BufferEnv) (p bufSize : BitVec 64) : List MemCall :=
  (env.pages bufSize).map .clearPageReserved ++
    [.freePages (env.getFreePages (orderOf bufSize)) (orderOf bufSize), .kfree p]

/-- The four ways through `pcieuni_buffer_create`. -/
inductive Creates (env : BufferEnv) (mappingError : BitVec 64 → Bool) (d : PciDev)
    (bufSize : BitVec 64) : BufferRet → Prop where
  | noStructure (hp : env.kzalloc = none) :
      Creates env mappingError d bufSize ⟨.inl (-enomem), []⟩
  | noPages {p : BitVec 64} (hp : env.kzalloc = some p)
      (hkaddr : env.getFreePages (orderOf bufSize) = 0) :
      Creates env mappingError d bufSize ⟨.inl (-enomem), [.kzalloc p, .kfree p]⟩
  | notMapped {p : BitVec 64} (hp : env.kzalloc = some p)
      (hkaddr : env.getFreePages (orderOf bufSize) ≠ 0) (hmap : mappingError env.dmaMapSingle = true) :
      Creates env mappingError d bufSize
        ⟨.inl (-enomem), env.acquire p bufSize ++ env.release p bufSize⟩
  | created {p : BitVec 64} (hp : env.kzalloc = some p)
      (hkaddr : env.getFreePages (orderOf bufSize) ≠ 0)
      (hmap : mappingError env.dmaMapSingle = false) :
      Creates env mappingError d bufSize
        ⟨.inr (env.buffer p bufSize), env.acquire p bufSize ++
          [.dmaMapSingle d env.dmaMapSingle (env.getFreePages (orderOf bufSize))
            (BitVec.ofNat 64 (pageSize * 2 ^ getOrder bufSize))]⟩

/-- All three allocations of the call succeed. -/
def BufferEnv.Succeeds (env : BufferEnv) (mappingError : BitVec 64 → Bool) (bufSize : BitVec 64) :
    Prop :=
  (∃ p, env.kzalloc = some p) ∧ env.getFreePages (orderOf bufSize) ≠ 0 ∧
    mappingError env.dmaMapSingle = false

theorem Creates.returns_iff {r : BufferRet} (h : Creates env mappingError d bufSize r) :
    (∃ b, r.ret = .inr b) ↔ env.Succeeds mappingError bufSize := by
  cases h with
  | noStructure hp => simp [BufferEnv.Succeeds, hp]
  | noPages _ hkaddr => simp [BufferEnv.Succeeds, hkaddr]
  | notMapped _ _ hmap => simp [BufferEnv.Succeeds, hmap]
  | created hp hkaddr hmap => exact iff_of_true ⟨_, rfl⟩ ⟨⟨_, hp⟩, hkaddr, hmap⟩

/-- The pages of a block whose order has a size. -/
theorem pageLoop_size {kaddr : BitVec 64} {o : Nat} (ho : o < 19) :
    pageLoop kaddr (BitVec.ofNat 64 (pageSize * 2 ^ o)).toNat 0 = blockPages kaddr (2 ^ o) := by
  have hlt : pageSize * 2 ^ o < 2 ^ 64 := by
    rw [show pageSize = 2 ^ 12 from rfl, ← pow_add]
    exact Nat.pow_lt_pow_right (by decide) (by omega)
  rw [BitVec.toNat_ofNat, Nat.mod_eq_of_lt hlt, pageLoop_eq]

/-- Destroying the buffer undoes the mapping, if there is one, and then what
`acquire` did. -/
theorem pcieuniBufferDestroy_buffer (mappingError : BitVec 64 → Bool) (d : PciDev) (p : BitVec 64)
    (ho : getOrder bufSize < 19)
    (hkaddr : env.getFreePages (orderOf bufSize) ≠ 0) :
    pcieuniBufferDestroy mappingError d (some (env.buffer p bufSize)) =
      some ((if mappingError env.dmaMapSingle then [] else
        [.dmaUnmapSingle d env.dmaMapSingle (BitVec.ofNat 64 (pageSize * 2 ^ getOrder bufSize))]) ++
          env.release p bufSize) := by
  simp only [pcieuniBufferDestroy, BufferEnv.buffer, hkaddr, ne_eq, not_false_eq_true, if_true,
    pageLoop_size ho, List.append_assoc]
  rfl

/-- Because no block is handed out of an order whose size does not fit an `int`,
every call returns, in one of the four ways. -/
theorem pcieuniBufferCreate_creates (mappingError : BitVec 64 → Bool) (d : PciDev)
    (bufSize : BitVec 64) (hmax : ∀ o : BitVec 32, 18 < o.toNat → env.getFreePages o = 0) :
    ∃ r, pcieuniBufferCreate env mappingError d bufSize = some r ∧
      Creates env mappingError d bufSize r := by
  cases hp : env.kzalloc with
  | none =>
    refine ⟨_, ?_, .noStructure hp⟩
    simp only [pcieuniBufferCreate, hp]
  | some p =>
    by_cases hkaddr : env.getFreePages (orderOf bufSize) = 0
    · refine ⟨_, ?_, .noPages hp hkaddr⟩
      unfold orderOf at hkaddr
      simp [pcieuniBufferCreate, pcieuniBufferDestroy, hp, hkaddr]
    · have ho : getOrder bufSize < 19 := by
        by_contra hbig
        apply hkaddr
        apply hmax
        rw [orderOf, order_toNat]
        omega
      have hsize : intOneShiftLeft (orderOf bufSize + BitVec.ofNat 32 pageShift) =
          some (BitVec.ofNat 64 (pageSize * 2 ^ getOrder bufSize)) := by
        rw [orderOf, intOneShiftLeft_order, if_pos ho]
      have hdestroy := pcieuniBufferDestroy_buffer mappingError d p ho hkaddr
      cases hmap : mappingError env.dmaMapSingle with
      | true =>
        refine ⟨_, ?_, .notMapped hp hkaddr hmap⟩
        rw [hmap] at hdestroy
        unfold BufferEnv.buffer orderOf at hdestroy
        unfold orderOf at hkaddr hsize
        simp only [pcieuniBufferCreate, hp, hkaddr, hsize, hmap, hdestroy, if_false, if_true,
          pageLoop_size ho]
        rfl
      | false =>
        refine ⟨_, ?_, .created hp hkaddr hmap⟩
        unfold orderOf at hkaddr hsize
        simp only [pcieuniBufferCreate, hp, hkaddr, hsize, hmap, if_false, Bool.false_eq_true,
          pageLoop_size ho]
        rfl

/-! ## The size -/

/-- The page that a call reserves. -/
def MemCall.reserves : MemCall → Option (BitVec 64)
  | .setPageReserved page => some page
  | _ => none

theorem acquire_reserves (p : BitVec 64) :
    (env.acquire p bufSize).filterMap MemCall.reserves = env.pages bufSize := by
  have hmap : ∀ pages : List (BitVec 64),
      (pages.map MemCall.setPageReserved).filterMap MemCall.reserves = pages := by
    intro pages
    rw [List.filterMap_map]
    exact List.filterMap_some
  exact hmap _

/-- The block of the buffer `b` is the least one that holds `bufSize` bytes, the
recorded size is that of the block, and the calls reserve each of its pages once. -/
structure SizedBlock (bufSize : BitVec 64) (b : PcieuniBuffer) (log : List MemCall) : Prop where
  order : b.order.toNat = getOrder bufSize
  order_le : b.order.toNat ≤ 10
  size : b.size = some (BitVec.ofNat 64 (pageSize * 2 ^ b.order.toNat))
  noOverflow : pageSize * 2 ^ b.order.toNat < 2 ^ 31
  holds : bufSize.toNat ≤ pageSize * 2 ^ b.order.toNat
  least : ∀ k, bufSize.toNat ≤ pageSize * 2 ^ k →
    pageSize * 2 ^ b.order.toNat ≤ pageSize * 2 ^ k
  reserves : log.filterMap MemCall.reserves =
    (List.range (2 ^ b.order.toNat)).map
      (fun i => virtToPage (b.kaddr + BitVec.ofNat 64 (pageSize * i)))
  once : (log.filterMap MemCall.reserves).Nodup

/-- What create returns for a request of `bufSize` bytes. -/
structure CreateSize (bufSize : BitVec 64) (r : BufferRet) : Prop where
  created : ∀ b, r.ret = .inr b → SizedBlock bufSize b r.log
  failed : ∀ err, r.ret = .inl err → err = -enomem
  tooLarge : 10 < getOrder bufSize → r.ret = .inl (-enomem)

theorem CreateSize.of_error {r : BufferRet} (h : r.ret = .inl (-enomem)) : CreateSize bufSize r := by
  refine ⟨?_, ?_, fun _ => h⟩
  · intro b hb
    cases h.symm.trans hb
  · intro err herr
    cases h.symm.trans herr
    rfl

/-- For every size: create returns without using a size whose shift has
overflowed, it returns a buffer if the three allocations succeed, and the size that
it records is right. -/
theorem pcieuniBufferCreate_size
    (hmax : ∀ o : BitVec 32, 10 < o.toNat → env.getFreePages o = 0) :
    ∃ r, pcieuniBufferCreate env mappingError d bufSize = some r ∧ CreateSize bufSize r ∧
      ((∃ b, r.ret = .inr b) ↔ env.Succeeds mappingError bufSize) := by
  obtain ⟨r, hr, hcreates⟩ :=
    pcieuniBufferCreate_creates mappingError d bufSize (fun o ho => hmax o (by omega))
  refine ⟨r, hr, ?_, hcreates.returns_iff⟩
  cases hcreates with
  | noStructure hp => exact .of_error rfl
  | noPages hp hkaddr => exact .of_error rfl
  | notMapped hp hkaddr hmap => exact .of_error rfl
  | @created p hp hkaddr hmap =>
    have horder : (env.buffer p bufSize).order.toNat = getOrder bufSize := order_toNat bufSize
    have hle : getOrder bufSize ≤ 10 := by
      by_contra hbig
      exact hkaddr (hmax _ (lt_of_lt_of_eq (not_le.mp hbig) horder.symm))
    have hne : bufSize ≠ 0 := by
      rintro rfl
      rw [getOrder_zero] at hle
      omega
    have hpow : 2 ^ getOrder bufSize ≤ 2 ^ 10 := Nat.pow_le_pow_right (by decide) hle
    have hpages : (env.acquire p bufSize ++ [MemCall.dmaMapSingle d env.dmaMapSingle
        (env.getFreePages (orderOf bufSize)) (BitVec.ofNat 64 (pageSize * 2 ^ getOrder bufSize))]
        ).filterMap MemCall.reserves = env.pages bufSize := by
      rw [List.filterMap_append, acquire_reserves]
      exact List.append_nil _
    have hblock : SizedBlock bufSize (env.buffer p bufSize) (env.acquire p bufSize ++
        [.dmaMapSingle d env.dmaMapSingle (env.getFreePages (orderOf bufSize))
          (BitVec.ofNat 64 (pageSize * 2 ^ getOrder bufSize))]) := by
      constructor
      case order => exact horder
      case once =>
        rw [hpages]
        exact blockPages_nodup _ (by omega)
      all_goals rw [horder]
      case order_le => exact hle
      case size => rfl
      case noOverflow =>
        rw [pageSize_eq]
        omega
      case holds => exact (getOrder_le_iff hne).mp (le_refl _)
      case least =>
        intro k hk
        exact Nat.mul_le_mul_left _
          (Nat.pow_le_pow_right (by decide) ((getOrder_le_iff hne).mpr hk))
      case reserves => exact hpages
    refine ⟨?_, ?_, ?_⟩
    · intro b hb
      cases hb
      exact hblock
    · intro err herr
      cases herr
    · intro hlarge
      omega

end Create

/-- A structure, and a block at four mebibytes for every order up to 10. -/
private def sampleBufferEnv : BufferEnv where
  kzalloc := some 0x1000
  getFreePages o := if o.toNat ≤ 10 then 0x400000 else 0
  dmaMapSingle := 0x400000

private theorem sampleBufferEnv_succeeds :
    sampleBufferEnv.Succeeds (fun h => h == 0xFFFFFFFFFFFFFFFF#64) 0x1400 :=
  ⟨⟨_, rfl⟩, by decide, rfl⟩

/-- A request of five kilobytes. -/
theorem pcieuniBufferCreate_size_twoPages :
    ∃ r b, pcieuniBufferCreate sampleBufferEnv (fun h => h == 0xFFFFFFFFFFFFFFFF#64) 7 0x1400 =
      some r ∧ r.ret = .inr b ∧ SizedBlock 0x1400 b r.log := by
  have hmax : ∀ o : BitVec 32, 10 < o.toNat → sampleBufferEnv.getFreePages o = 0 :=
    fun o ho => if_neg (by omega)
  obtain ⟨r, hr, hsize, hreturns⟩ := pcieuniBufferCreate_size hmax
  obtain ⟨b, hb⟩ := hreturns.mpr sampleBufferEnv_succeeds
  exact ⟨r, b, hr, hb, hsize.created b hb⟩

/-! ## The kernel's memory -/

/-- What a buffer adds to the kernel's memory: its structure, its block, whose
pages are reserved, and one mapping of the whole block. -/
structure Memory.Adds (m m' : Memory) (d : PciDev) (b : PcieuniBuffer) : Prop where
  object : m.objects b.addr = none ∧
    m'.objects = Function.update m.objects b.addr (some ())
  block : m.blocks b.kaddr = none ∧
    m'.blocks = Function.update m.blocks b.kaddr (some b.order)
  reserved : ∀ page, m'.reserved page = true ↔
    m.reserved page = true ∨ InBlock b.kaddr (2 ^ b.order.toNat) page
  mapping : ∃ size, b.size = some size ∧ size.toNat = pageSize * 2 ^ b.order.toNat ∧
    m.mappings (d, b.dmaHandle) = none ∧
    m'.mappings = Function.update m.mappings (d, b.dmaHandle) (some (b.kaddr, size))

/-- What the kernel promises of its answers: what it hands out is not in use, a
block starts at a page, none of its pages is reserved, and its order is limited
(the kernel's own limit is 10). -/
structure BufferEnv.Grants (env : BufferEnv) (mappingError : BitVec 64 → Bool) (d : PciDev)
    (m : Memory) : Prop where
  object : ∀ p, env.kzalloc = some p → m.objects p = none
  maxOrder : ∀ o : BitVec 32, 18 < o.toNat → env.getFreePages o = 0
  aligned : ∀ o, (env.getFreePages o).toNat % pageSize = 0
  block : ∀ o, env.getFreePages o ≠ 0 → m.blocks (env.getFreePages o) = none
  unreserved : ∀ o, env.getFreePages o ≠ 0 → ∀ page,
    InBlock (env.getFreePages o) (2 ^ o.toNat) page → m.reserved page = false
  handle : mappingError env.dmaMapSingle = false → m.mappings (d, env.dmaMapSingle) = none

section Balance

variable {env : BufferEnv} {mappingError : BitVec 64 → Bool} {d : PciDev} {bufSize p : BitVec 64}
  {m : Memory}

/-- The memory with the structure and the block of a buffer, and its pages reserved. -/
def BufferEnv.taken (env : BufferEnv) (p bufSize : BitVec 64) (m : Memory) : Memory :=
  { m with
    objects := m.objects.add p ()
    blocks := m.blocks.add (env.getFreePages (orderOf bufSize)) (orderOf bufSize)
    reserved := fun page => m.reserved page || decide (page ∈ env.pages bufSize) }

theorem run_acquire : m.run (env.acquire p bufSize) = some (env.taken p bufSize m) := by
  simp only [BufferEnv.acquire, Memory.run, Memory.call, Memory.run_setPageReserved]
  rfl

/-- Releasing what was acquired gives back the memory, because nothing of it was in
use before. -/
theorem run_release (h : env.Grants mappingError d m) (hp : env.kzalloc = some p)
    (hkaddr : env.getFreePages (orderOf bufSize) ≠ 0) :
    (env.taken p bufSize m).run (env.release p bufSize) = some m := by
  have hobject := h.object p hp
  have hblock := h.block _ hkaddr
  have hreserved : (fun page => (m.reserved page || decide (page ∈ env.pages bufSize)) &&
      !decide (page ∈ env.pages bufSize)) = m.reserved := by
    funext page
    by_cases hmem : page ∈ env.pages bufSize
    · have hpage := (mem_blockPages (h.aligned _)).mp hmem
      rw [← order_toNat bufSize] at hpage
      simp [hmem, h.unreserved _ hkaddr page hpage]
    · simp [hmem]
  unfold BufferEnv.release
  rw [Memory.run_append, Memory.run_clearPageReserved]
  simp only [BufferEnv.taken, Option.bind_some, hreserved, Memory.run, Memory.call,
    Registry.add_self hobject, Registry.add_self hblock, Registry.remove_add hobject,
    Registry.remove_add hblock, if_true]

/-- The mapping of the whole block, on top of what was acquired. -/
theorem run_dmaMapSingle (p bufSize : BitVec 64) (h : env.Grants mappingError d m)
    (hmap : mappingError env.dmaMapSingle = false) (kaddr size : BitVec 64) :
    ∃ m', (env.taken p bufSize m).run [.dmaMapSingle d env.dmaMapSingle kaddr size] = some m' ∧
      m' = { env.taken p bufSize m with
        mappings := m.mappings.add (d, env.dmaMapSingle) (kaddr, size) } ∧
      m'.run [.dmaUnmapSingle d env.dmaMapSingle size] = some (env.taken p bufSize m) := by
  have hfree := h.handle hmap
  refine ⟨_, rfl, rfl, ?_⟩
  simp [Memory.run, Memory.call, BufferEnv.taken, Registry.add_self hfree,
    Registry.remove_add hfree]

/-- What a call of `pcieuni_buffer_create` that returns `r` does to the memory `m`,
and what `pcieuni_buffer_destroy` of its buffer takes back. -/
structure CreateBalanced (mappingError : BitVec 64 → Bool) (d : PciDev) (m : Memory)
    (r : BufferRet) : Prop where
  failed : ∀ err, r.ret = .inl err → m.run r.log = some m
  created : ∀ b, r.ret = .inr b → ∃ m' size log, m.run r.log = some m' ∧ m.Adds m' d b ∧
    b.size = some size ∧
    pcieuniBufferDestroy mappingError d (some b) = some log ∧ m'.run log = some m ∧
    log = [.dmaUnmapSingle d b.dmaHandle size] ++
      (blockPages b.kaddr (2 ^ b.order.toNat)).map .clearPageReserved ++
        [.freePages b.kaddr b.order, .kfree b.addr] ∧
    (blockPages b.kaddr (2 ^ b.order.toNat)).Nodup

/-- For every size and every outcome of the three allocations: a create that fails
leaves the kernel's memory as it was, and a create that succeeds, because all three
do, adds exactly what destroying the buffer takes back. -/
theorem pcieuniBufferCreate_balanced (h : env.Grants mappingError d m) :
    ∃ r, pcieuniBufferCreate env mappingError d bufSize = some r ∧
      CreateBalanced mappingError d m r ∧
      ((∃ b, r.ret = .inr b) ↔ env.Succeeds mappingError bufSize) := by
  obtain ⟨r, hr, hcreates⟩ :=
    pcieuniBufferCreate_creates mappingError d bufSize h.maxOrder
  refine ⟨r, hr, ?_, hcreates.returns_iff⟩
  cases hcreates with
  | noStructure hp => exact ⟨fun _ _ => rfl, by simp⟩
  | @noPages p hp hkaddr =>
    refine ⟨?_, by simp⟩
    intro err _
    have hobject := h.object p hp
    simp [Memory.run, Memory.call, Registry.add_self hobject, Registry.remove_add hobject]
  | @notMapped p hp hkaddr hmap =>
    refine ⟨?_, by simp⟩
    intro err _
    rw [Memory.run_append, run_acquire]
    exact run_release h hp hkaddr
  | @created p hp hkaddr hmap =>
    refine ⟨by simp, ?_⟩
    intro b hb
    cases hb
    have horder : (orderOf bufSize).toNat = getOrder bufSize := order_toNat bufSize
    have hle : getOrder bufSize ≤ 18 := by
      by_contra hbig
      exact hkaddr (h.maxOrder _ (by omega))
    have hpow : 2 ^ getOrder bufSize ≤ 2 ^ 18 := Nat.pow_le_pow_right (by decide) hle
    obtain ⟨m', hrun, hm', hunmap⟩ := run_dmaMapSingle p bufSize h hmap
      (env.getFreePages (orderOf bufSize)) (BitVec.ofNat 64 (pageSize * 2 ^ getOrder bufSize))
    have hdestroy := pcieuniBufferDestroy_buffer mappingError d p
      (lt_of_le_of_lt hle (by decide)) hkaddr
    rw [hmap] at hdestroy
    have hnodup : (blockPages (env.buffer p bufSize).kaddr
        (2 ^ (env.buffer p bufSize).order.toNat)).Nodup := by
      apply blockPages_nodup
      simp only [BufferEnv.buffer, horder]
      omega
    refine ⟨m', _, _, ?_, ?_, rfl, hdestroy, ?_, ?_, hnodup⟩
    · rw [Memory.run_append, run_acquire]
      exact hrun
    · subst hm'
      have hobject := h.object p hp
      have hblock := h.block _ hkaddr
      have hhandle := h.handle hmap
      refine ⟨⟨hobject, Registry.add_of_free hobject⟩, ⟨hblock, Registry.add_of_free hblock⟩, ?_,
        ⟨_, rfl, ?_, hhandle, Registry.add_of_free hhandle⟩⟩
      · intro page
        have hmem : page ∈ env.pages bufSize ↔ InBlock _ _ page := mem_blockPages (h.aligned _)
        simp only [BufferEnv.taken, BufferEnv.buffer, Bool.or_eq_true, decide_eq_true_eq, hmem,
          horder]
      · simp only [BufferEnv.buffer, horder, BitVec.toNat_ofNat, pageSize_eq]
        omega
    · rw [if_neg (by decide), Memory.run_append, hunmap]
      exact run_release h hp hkaddr
    · simp only [BufferEnv.buffer, BufferEnv.release, BufferEnv.pages, horder, if_false,
        Bool.false_eq_true, List.append_assoc]

end Balance

private theorem sampleBufferEnv_grants :
    sampleBufferEnv.Grants (fun h => h == 0xFFFFFFFFFFFFFFFF#64) 7
      ⟨fun _ => none, fun _ => none, fun _ => false, fun _ => none⟩ := by
  constructor
  case maxOrder =>
    intro o ho
    exact if_neg (by omega)
  case aligned =>
    intro o
    unfold sampleBufferEnv
    dsimp only
    split <;> decide
  all_goals
    intros
    rfl

/-- A request of five kilobytes when nothing is handed out, and the destruction of
the buffer. -/
theorem pcieuniBufferCreate_balanced_twoPages :
    ∃ r b m', pcieuniBufferCreate sampleBufferEnv (fun h => h == 0xFFFFFFFFFFFFFFFF#64) 7 0x1400 =
        some r ∧ r.ret = .inr b ∧
      Memory.run ⟨fun _ => none, fun _ => none, fun _ => false, fun _ => none⟩ r.log = some m' ∧
      Memory.Adds ⟨fun _ => none, fun _ => none, fun _ => false, fun _ => none⟩ m' 7 b ∧
      ∃ log, pcieuniBufferDestroy (fun h => h == 0xFFFFFFFFFFFFFFFF#64) 7 (some b) = some log ∧
        m'.run log = some ⟨fun _ => none, fun _ => none, fun _ => false, fun _ => none⟩ := by
  obtain ⟨r, hr, hbalanced, hreturns⟩ := pcieuniBufferCreate_balanced sampleBufferEnv_grants
  obtain ⟨b, hb⟩ := hreturns.mpr sampleBufferEnv_succeeds
  obtain ⟨m', size, log, hrun, hadds, -, hdestroy, hback, -⟩ := hbalanced.created b hb
  exact ⟨r, b, m', hr, hb, hrun, hadds, log, hdestroy, hback⟩

end Gpcieuni
