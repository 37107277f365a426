-- SUMMARY: The buffer list together with the kernel's memory: what the buffers hold of it over whole runs, and that the driver gives back what it took.
import Gpcieuni.BufferSpec
import Gpcieuni.BufferList.Destroyed
import Gpcieuni.BufferList.Shutdown

/-!
# The memory behind the buffers

`pcieuni_buffer_create` and the list meet in `pcieuni_bufferList_clear`, which
destroys buffers that other threads have created and passed around. The kernel
refuses to take back what is not held in that form (`Memory.call`), so a step of
the list that destroys a buffer is possible only if every call goes through.

`Holds` says what the memory is at any time: what it was in the beginning, and on
top of that the structure, the block, the reserved pages and the mapping of each
buffer that is allocated, and nothing else.
-/

namespace Gpcieuni

namespace BufferList

/-! ## One buffer -/

/-- The calls that took a block of pages for `x` took it in this form. -/
structure WellSized (mappingError : BitVec 64 → Bool) (x : PcieuniBuffer) : Prop where
  kaddr : x.kaddr ≠ 0
  aligned : x.kaddr.toNat % pageSize = 0
  order : x.order.toNat < 19
  size : x.size = some (BitVec.ofNat 64 (pageSize * 2 ^ x.order.toNat))
  mapped : mappingError x.dmaHandle = false

/-- The pages of the block of `x`. -/
def pagesOf (x : PcieuniBuffer) : List (BitVec 64) := blockPages x.kaddr (2 ^ x.order.toNat)

/-- The memory with all that belongs to the buffer `x`. -/
def addBuffer (d : PciDev) (x : PcieuniBuffer) (m : Memory) : Memory where
  objects := m.objects.add x.addr ()
  blocks := m.blocks.add x.kaddr x.order
  reserved page := m.reserved page || (pagesOf x).contains page
  mappings := m.mappings.add (d, x.dmaHandle) (x.kaddr, x.size.getD 0)

/-- The memory without it. -/
def removeBuffer (d : PciDev) (x : PcieuniBuffer) (m : Memory) : Memory where
  objects := m.objects.remove x.addr
  blocks := m.blocks.remove x.kaddr
  reserved page := m.reserved page && !(pagesOf x).contains page
  mappings := m.mappings.remove (d, x.dmaHandle)

section OneBuffer

variable {mappingError : BitVec 64 → Bool} {d : PciDev} {x : PcieuniBuffer} {m : Memory}

/-- Destroying a buffer takes effect if all that belongs to it is held. -/
theorem destroy_runs (hx : WellSized mappingError x) (hobject : m.objects x.addr = some ())
    (hblock : m.blocks x.kaddr = some x.order)
    (hmapping : m.mappings (d, x.dmaHandle) = some (x.kaddr, x.size.getD 0)) :
    ∃ log, pcieuniBufferDestroy mappingError d (some x) = some log ∧
      m.run log = some (removeBuffer d x m) := by
  have hpages := @pageLoop_size x.kaddr _ hx.order
  rw [hx.size, Option.getD_some] at hmapping
  simp only [pcieuniBufferDestroy, hx.kaddr, hx.size, hx.mapped, hpages, ne_eq, not_false_eq_true,
    if_true, Bool.false_eq_true, if_false]
  refine ⟨_, rfl, ?_⟩
  rw [List.append_assoc, List.singleton_append, Memory.run]
  simp only [Memory.call, hmapping, Option.map_some, if_true]
  rw [Memory.run_append, Memory.run_clearPageReserved]
  simp only [Option.bind_some, Memory.run, Memory.call, hblock, hobject, if_true, removeBuffer,
    pagesOf, List.contains_eq_mem]

/-- What a buffer that is new takes was free. -/
structure TakesFree (d : PciDev) (x : PcieuniBuffer) (m : Memory) : Prop where
  object : m.objects x.addr = none
  block : m.blocks x.kaddr = none
  pages : ∀ page ∈ pagesOf x, m.reserved page = false
  mapping : m.mappings (d, x.dmaHandle) = none

/-- Creating a buffer leaves the memory as it was, or adds all that belongs to the
buffer that is returned. -/
theorem create_runs {env : BufferEnv} (bufSize : BitVec 64) (h : env.Grants mappingError d m) :
    ∃ r, pcieuniBufferCreate env mappingError d bufSize = some r ∧
      ((∃ err, r.ret = .inl err ∧ m.run r.log = some m) ∨
        ∃ x, r.ret = .inr x ∧ WellSized mappingError x ∧ TakesFree d x m ∧
          m.run r.log = some (addBuffer d x m)) := by
  obtain ⟨r, hr, hcreates⟩ := pcieuniBufferCreate_creates mappingError d bufSize h.maxOrder
  refine ⟨r, hr, ?_⟩
  cases hcreates with
  | noStructure hp => exact .inl ⟨_, rfl, rfl⟩
  | @noPages p hp hkaddr =>
      refine .inl ⟨_, rfl, ?_⟩
      have hobject := h.object p hp
      simp [Memory.run, Memory.call, Registry.add_self hobject, Registry.remove_add hobject]
  | @notMapped p hp hkaddr hmap =>
      refine .inl ⟨_, rfl, ?_⟩
      rw [Memory.run_append, run_acquire]
      exact run_release h hp hkaddr
  | @created p hp hkaddr hmap =>
      have horder : (orderOf bufSize).toNat = getOrder bufSize := order_toNat bufSize
      have hle : getOrder bufSize < 19 := by
        by_contra hbig
        exact hkaddr (h.maxOrder _ (by omega))
      have hpages : pagesOf (env.buffer p bufSize) = env.pages bufSize := by
        simp only [pagesOf, BufferEnv.buffer, BufferEnv.pages, horder]
      refine .inr ⟨_, rfl, ⟨hkaddr, h.aligned _, ?_, ?_, hmap⟩, ⟨h.object p hp, h.block _ hkaddr, ?_,
        h.handle hmap⟩, ?_⟩
      · simpa only [BufferEnv.buffer, horder] using hle
      · simp only [BufferEnv.buffer, horder]
      · intro page hpage
        exact h.unreserved _ hkaddr page ((mem_blockPages (h.aligned _)).mp hpage)
      · rw [Memory.run_append, run_acquire]
        simp only [addBuffer, hpages, List.contains_eq_mem]
        rfl

end OneBuffer

/-! ## The system -/

/-- The list, the kernel's memory, and the structure of each buffer that is allocated. -/
structure Backed where
  list : State
  memory : Memory
  buffer : BufId → Option PcieuniBuffer

/-- A buffer is created under a new identity, or the list takes a step. -/
inductive BackedAct where
  | create (b : BufId) (env : BufferEnv) (bufSize : BitVec 64)
  | list (a : Act)

namespace Backed

/-- The calls of `pcieuni_buffer_destroy` in a step of the list. -/
def destroyAll (mappingError : BitVec 64 → Bool) (d : PciDev) (s : Backed) :
    List Event → Option Backed
  | [] => some s
  | .returned .. :: out => destroyAll mappingError d s out
  | .destroyed b :: out =>
    match pcieuniBufferDestroy mappingError d (s.buffer b) with
    | none => none
    | some log =>
      match s.memory.run log with
      | none => none
      | some memory =>
        destroyAll mappingError d
          { s with memory, buffer := Function.update s.buffer b none } out

/-- One step. A call that the kernel refuses, or that uses a size whose shift has
overflowed, disables it. -/
def step (mappingError : BitVec 64 → Bool) (d : PciDev) (s : Backed) :
    BackedAct → Option (Backed × List Event)
  | .create b env bufSize =>
    match pcieuniBufferCreate env mappingError d bufSize with
    | none => none
    | some r =>
      match s.memory.run r.log with
      | none => none
      | some memory =>
        match r.ret with
        | .inl _ => some ({ s with memory }, [])
        | .inr x =>
          match s.list.step (.create b) with
          | none => none
          | some (list, out) => some (⟨list, memory, Function.update s.buffer b (some x)⟩, out)
  | .list (.create _) => none
  | .list a =>
    match s.list.step a with
    | none => none
    | some (list, out) => (destroyAll mappingError d { s with list } out).map (·, out)

/-- The kernel keeps its promises. -/
def Granted (mappingError : BitVec 64 → Bool) (d : PciDev) (s : Backed) : BackedAct → Prop
  | .create _ env _ => env.Grants mappingError d s.memory
  | .list _ => True

end Backed

/-- A new list, on a memory `m₀` that others use as well, under any calls of any
threads. -/
def backedLts (mappingError : BitVec 64 → Bool) (d : PciDev) (m₀ : Memory) :
    Lts Backed BackedAct (List Event) where
  init s := s = ⟨State.initial, m₀, fun _ => none⟩
  step := Backed.step mappingError d

/-! ## What the memory holds -/

/-- A step creates a buffer, destroys one, or leaves the allocated buffers. -/
theorem Step.live_iff {s s' : State} {a : Act} {out : List Event} (h : Step s a s' out)
    (c : BufId) : s'.Live c ↔ a = .create c ∨ s.Live c ∧ .destroyed c ∉ out := by
  have hother : ∀ {b : BufId} {cell : Cell}, s'.cell = Function.update s.cell b cell → c ≠ b →
      s'.Live c → s.Live c := by
    rintro b cell hnew hcb ⟨state, hc⟩
    rw [hnew, Function.update_of_ne hcb] at hc
    exact ⟨state, hc⟩
  have hlive : ∀ {b : BufId} {state : BitVec 64} {cell : Cell}, s.cell b = .live state →
      s'.cell = Function.update s.cell b cell → s'.Live c → s.Live c := by
    intro b state cell hcell hnew hc
    by_cases hcb : c = b
    · subst hcb
      exact ⟨state, hcell⟩
    · exact hother hnew hcb hc
  constructor
  · intro hc
    cases h with
    | @create b hcell =>
        by_cases hcb : c = b
        · exact .inl (congrArg Act.create hcb.symm)
        · exact .inr ⟨hother rfl hcb hc, by simp⟩
    | handOut _ _ _ hcell => exact .inr ⟨hlive hcell rfl hc, by simp⟩
    | setFree _ hcell => exact .inr ⟨hlive hcell rfl hc, by simp⟩
    | @destroy t b tpos code state ht hcell =>
        have hcb : c ≠ b := by
          rintro rfl
          obtain ⟨state', hc⟩ := hc
          exact Cell.noConfusion ((Function.update_self ..).symm.trans hc)
        exact .inr ⟨hlive hcell rfl hc, by simpa using hcb⟩
    | _ => exact .inr ⟨hc, by simp⟩
  · rintro (rfl | ⟨hc, hout⟩)
    · cases h
      exact ⟨_, Function.update_self ..⟩
    · exact h.live hc hout

/-- The memory is `m₀` and what belongs to the allocated buffers. -/
structure Holds (mappingError : BitVec 64 → Bool) (d : PciDev) (m₀ : Memory) (s : Backed) :
    Prop where
  wellSized : ∀ b x, s.buffer b = some x → WellSized mappingError x
  objects : m₀.objects.Extends s.memory.objects s.buffer (·.addr) fun _ => ()
  blocks : m₀.blocks.Extends s.memory.blocks s.buffer (·.kaddr) (·.order)
  mappings : m₀.mappings.Extends s.memory.mappings s.buffer (fun x => (d, x.dmaHandle))
    fun x => (x.kaddr, x.size.getD 0)
  reserved : ∀ page, s.memory.reserved page = true ↔
    m₀.reserved page = true ∨ ∃ b x, s.buffer b = some x ∧ page ∈ pagesOf x
  /-- Reserved pages are reserved for one purpose. -/
  apart : ∀ b x, s.buffer b = some x → ∀ page ∈ pagesOf x, m₀.reserved page = false ∧
    ∀ c y, s.buffer c = some y → page ∈ pagesOf y → c = b
  live : ∀ b, (∃ x, s.buffer b = some x) ↔ s.list.Live b

namespace Holds

variable {mappingError : BitVec 64 → Bool} {d : PciDev} {m₀ : Memory} {s s' : Backed} {b : BufId}
  {x : PcieuniBuffer} {list : State} {out : List Event}

theorem of_init (h : (backedLts mappingError d m₀).init s) : Holds mappingError d m₀ s := by
  obtain rfl : s = ⟨State.initial, m₀, fun _ => none⟩ := h
  refine ⟨by simp, Registry.extends_refl fun _ => rfl, Registry.extends_refl fun _ => rfl,
    Registry.extends_refl fun _ => rfl, by simp, by simp, fun b => ?_⟩
  refine iff_of_false (by simp) ?_
  rintro ⟨state, hlive⟩
  cases hlive

/-- When no buffer is allocated, everything has been given back. -/
theorem memory_eq (h : Holds mappingError d m₀ s) (hnone : ∀ b, ¬ s.list.Live b) :
    s.memory = m₀ := by
  have hown : ∀ b, s.buffer b = none := by
    intro b
    apply Option.eq_none_iff_forall_ne_some.mpr
    intro x hx
    exact hnone b ((h.live b).mp ⟨x, hx⟩)
  have hreserved : s.memory.reserved = m₀.reserved := by
    funext page
    rw [Bool.eq_iff_iff, h.reserved page]
    simp [hown]
  calc s.memory
      = ⟨s.memory.objects, s.memory.blocks, s.memory.reserved, s.memory.mappings⟩ := rfl
    _ = m₀ := by
      rw [h.objects.eq_of_none hown, h.blocks.eq_of_none hown, h.mappings.eq_of_none hown, hreserved]

theorem of_list (h : Holds mappingError d m₀ s) (hlist : ∀ c, list.Live c ↔ s.list.Live c) :
    Holds mappingError d m₀ { s with list } :=
  ⟨h.wellSized, h.objects, h.blocks, h.mappings, h.reserved, h.apart,
    fun c => (h.live c).trans (hlist c).symm⟩

theorem add (h : Holds mappingError d m₀ s) (hb : s.buffer b = none)
    (hx : WellSized mappingError x) (hfree : TakesFree d x s.memory)
    (hlist : ∀ c, list.Live c ↔ c = b ∨ s.list.Live c) :
    Holds mappingError d m₀ ⟨list, addBuffer d x s.memory, Function.update s.buffer b (some x)⟩ := by
  have hcases : ∀ {c y}, Function.update s.buffer b (some x) c = some y →
      (c = b ∧ y = x) ∨ (c ≠ b ∧ s.buffer c = some y) := by
    intro c y hc
    by_cases hcb : c = b
    · subst hcb
      rw [Function.update_self] at hc
      exact .inl ⟨rfl, (Option.some.inj hc).symm⟩
    · rw [Function.update_of_ne hcb] at hc
      exact .inr ⟨hcb, hc⟩
  have hold : ∀ {c y}, s.buffer c = some y → Function.update s.buffer b (some x) c = some y := by
    intro c y hc
    have hcb : c ≠ b := by
      rintro rfl
      rw [hb] at hc
      cases hc
    rw [Function.update_of_ne hcb, hc]
  -- a page of the new buffer was not reserved, so it belongs to nobody else
  have hnew : ∀ page ∈ pagesOf x, m₀.reserved page = false ∧
      ∀ c y, s.buffer c = some y → page ∉ pagesOf y := by
    intro page hpage
    have hunreserved := mt (h.reserved page).mpr (by rw [hfree.pages page hpage]; simp)
    exact ⟨by simpa using fun h₀ => hunreserved (.inl h₀),
      fun c y hc hy => hunreserved (.inr ⟨c, y, hc, hy⟩)⟩
  refine ⟨?_, h.objects.add hb hfree.object, h.blocks.add hb hfree.block,
    h.mappings.add hb hfree.mapping, ?_, ?_, ?_⟩
  · intro c y hc
    rcases hcases hc with ⟨rfl, rfl⟩ | ⟨-, hc⟩
    · exact hx
    · exact h.wellSized c y hc
  · intro page
    simp only [addBuffer, Bool.or_eq_true, List.contains_iff_mem, h.reserved page]
    constructor
    · rintro ((h₀ | ⟨c, y, hc, hy⟩) | hpage)
      · exact .inl h₀
      · exact .inr ⟨c, y, hold hc, hy⟩
      · exact .inr ⟨b, x, Function.update_self .., hpage⟩
    · rintro (h₀ | ⟨c, y, hc, hy⟩)
      · exact .inl (.inl h₀)
      · rcases hcases hc with ⟨rfl, rfl⟩ | ⟨-, hc⟩
        · exact .inr hy
        · exact .inl (.inr ⟨c, y, hc, hy⟩)
  · intro c y hc page hy
    rcases hcases hc with ⟨rfl, rfl⟩ | ⟨-, hcy⟩
    · refine ⟨(hnew page hy).1, fun c' z hc' hz => ?_⟩
      rcases hcases hc' with ⟨rfl, -⟩ | ⟨-, hcz⟩
      · rfl
      · exact absurd hz ((hnew page hy).2 c' z hcz)
    · refine ⟨(h.apart c y hcy page hy).1, fun c' z hc' hz => ?_⟩
      rcases hcases hc' with ⟨-, rfl⟩ | ⟨-, hcz⟩
      · exact absurd hy ((hnew page hz).2 c y hcy)
      · exact (h.apart c y hcy page hy).2 c' z hcz hz
  · intro c
    rw [hlist c, ← h.live c]
    by_cases hcb : c = b
    · subst hcb
      simp
    · simp [hcb]

theorem remove (h : Holds mappingError d m₀ s) (hb : s.buffer b = some x)
    (hlist : ∀ c, list.Live c ↔ s.list.Live c ∧ c ≠ b) :
    Holds mappingError d m₀ ⟨list, removeBuffer d x s.memory, Function.update s.buffer b none⟩ := by
  have hcases : ∀ {c y}, Function.update s.buffer b none c = some y ↔ s.buffer c = some y ∧ c ≠ b := by
    intro c y
    by_cases hcb : c = b
    · subst hcb
      simp
    · simp [hcb]
  refine ⟨?_, h.objects.remove hb, h.blocks.remove hb, h.mappings.remove hb, ?_, ?_, ?_⟩
  · intro c y hc
    exact h.wellSized c y (hcases.mp hc).1
  · intro page
    simp only [removeBuffer, Bool.and_eq_true, Bool.not_eq_true', List.contains_eq_mem,
      decide_eq_false_iff_not, h.reserved page]
    constructor
    · rintro ⟨h₀ | ⟨c, y, hc, hy⟩, hpage⟩
      · exact .inl h₀
      · refine .inr ⟨c, y, hcases.mpr ⟨hc, ?_⟩, hy⟩
        rintro rfl
        obtain rfl := Option.some.inj (hb.symm.trans hc)
        exact hpage hy
    · rintro (h₀ | ⟨c, y, hc, hy⟩)
      · refine ⟨.inl h₀, fun hpage => ?_⟩
        rw [(h.apart b x hb page hpage).1] at h₀
        cases h₀
      · obtain ⟨hc, hcb⟩ := hcases.mp hc
        refine ⟨.inr ⟨c, y, hc, hy⟩, fun hpage => hcb ?_⟩
        exact (h.apart b x hb page hpage).2 c y hc hy
  · intro c y hc page hy
    obtain ⟨h₀, hother⟩ := h.apart c y (hcases.mp hc).1 page hy
    exact ⟨h₀, fun c' z hc' hz => hother c' z (hcases.mp hc').1 hz⟩
  · intro c
    rw [hlist c, ← h.live c]
    constructor
    · rintro ⟨y, hc⟩
      obtain ⟨hc, hcb⟩ := hcases.mp hc
      exact ⟨⟨y, hc⟩, hcb⟩
    · rintro ⟨⟨y, hc⟩, hcb⟩
      exact ⟨y, hcases.mpr ⟨hc, hcb⟩⟩

end Holds

/-! ## Steps and runs -/

theorem destroyAll_of_returned (mappingError : BitVec 64 → Bool) (d : PciDev) (s : Backed)
    {out : List Event} (h : ∀ b, .destroyed b ∉ out) :
    s.destroyAll mappingError d out = some s := by
  induction out with
  | nil => rfl
  | cons e out ih =>
      cases e with
      | returned t r =>
          rw [Backed.destroyAll]
          exact ih fun b hb => h b (List.mem_cons_of_mem _ hb)
      | destroyed b => exact absurd (List.mem_cons_self ..) (h b)

namespace Holds

variable {mappingError : BitVec 64 → Bool} {d : PciDev} {m₀ : Memory} {s : Backed}

/-- Whenever the list can take a step, the kernel accepts what is destroyed in it. -/
theorem step_list (h : Holds mappingError d m₀ s) {a : Act} (ha : ∀ b, a ≠ .create b)
    {list : State} {out : List Event} (hstep : s.list.step a = some (list, out)) :
    ∃ s', s.step mappingError d (.list a) = some (s', out) ∧ s'.list = list ∧
      Holds mappingError d m₀ s' := by
  have hrule := step_rules hstep
  have hunfold : s.step mappingError d (.list a) =
      (Backed.destroyAll mappingError d { s with list } out).map (·, out) := by
    cases a with
    | create b => exact absurd rfl (ha b)
    | call | run | wait | recheck => simp only [Backed.step, hstep]
  rw [hunfold]
  by_cases hdestroyed : ∃ b, .destroyed b ∈ out
  · obtain ⟨b, hout⟩ := hdestroyed
    obtain ⟨⟨state, hcell, -⟩, -, rfl⟩ := hrule.destroyed hout
    obtain ⟨x, hx⟩ := (h.live b).mpr ⟨state, hcell⟩
    obtain ⟨log, hlog, hrun⟩ := destroy_runs (h.wellSized b x hx) (h.objects.get b x hx).1
      (h.blocks.get b x hx).1 (h.mappings.get b x hx).1
    simp only [Backed.destroyAll, hx, hlog, hrun, Option.map_some]
    refine ⟨_, rfl, rfl, h.remove hx fun c => ?_⟩
    rw [hrule.live_iff c]
    simp [ha c]
  · rw [destroyAll_of_returned mappingError d _ (not_exists.mp hdestroyed)]
    refine ⟨_, rfl, rfl, h.of_list fun c => ?_⟩
    rw [hrule.live_iff c]
    simp [ha c, not_exists.mp hdestroyed c]

/-- Creating a buffer goes through as well, whatever it returns. -/
theorem step_create (h : Holds mappingError d m₀ s) {b : BufId} {env : BufferEnv}
    (bufSize : BitVec 64) (hgrant : env.Grants mappingError d s.memory)
    (hb : s.list.cell b = .unborn) :
    ∃ s' out, s.step mappingError d (.create b env bufSize) = some (s', out) ∧
      Holds mappingError d m₀ s' := by
  obtain ⟨r, hr, ⟨err, hret, hrun⟩ | ⟨x, hret, hx, hfree, hrun⟩⟩ := create_runs bufSize hgrant
  · exact ⟨s, [], by simp only [Backed.step, hr, hrun, hret], h⟩
  · obtain ⟨list, hlist⟩ : ∃ list, s.list.step (.create b) = some (list, []) := by
      simp only [State.step, hb]
      exact ⟨_, rfl⟩
    have hrule := step_rules (s := s.list) (a := .create b) hlist
    have hnone : s.buffer b = none := by
      apply Option.eq_none_iff_forall_ne_some.mpr
      intro y hy
      obtain ⟨state, hlive⟩ := (h.live b).mp ⟨y, hy⟩
      rw [hb] at hlive
      cases hlive
    refine ⟨⟨list, addBuffer d x s.memory, Function.update s.buffer b (some x)⟩, [],
      by simp only [Backed.step, hr, hrun, hret, hlist], h.add hnone hx hfree fun c => ?_⟩
    rw [hrule.live_iff c]
    simp [eq_comm]

theorem step {s' : Backed} {a : BackedAct} {out : List Event} (h : Holds mappingError d m₀ s)
    (hgrant : s.Granted mappingError d a) (hstep : s.step mappingError d a = some (s', out)) :
    Holds mappingError d m₀ s' := by
  cases a with
  | create b env bufSize =>
      by_cases hb : s.list.cell b = .unborn
      · obtain ⟨s₁, out₁, hstep₁, h₁⟩ := h.step_create bufSize hgrant hb
        cases hstep₁.symm.trans hstep
        exact h₁
      -- the identity is taken, so the call has returned an error
      · have hlist : s.list.step (.create b) = none := by
          simp only [State.step]
        obtain ⟨r, hr, ⟨err, hret, hrun⟩ | ⟨x, hret, hx, hfree, hrun⟩⟩ := create_runs bufSize hgrant
        · simp only [Backed.step, hr, hrun, hret] at hstep
          cases hstep
          exact h
        · simp only [Backed.step, hr, hrun, hret, hlist] at hstep
          cases hstep
  | list a =>
      by_cases ha : ∃ b, a = .create b
      · obtain ⟨b, rfl⟩ := ha
        cases hstep
      · have hne := not_exists.mp ha
        cases hlist : s.list.step a with
        | none =>
            cases a with
            | create b => exact absurd rfl (hne b)
            | call | run | wait | recheck =>
                simp only [Backed.step, hlist] at hstep
                cases hstep
        | some r =>
            obtain ⟨s₁, hstep₁, -, h₁⟩ := h.step_list hne hlist
            cases hstep₁.symm.trans hstep
            exact h₁

end Holds

/-- Whatever the callers do, and in whatever order their threads run: the memory is at
any time what it was and what belongs to the allocated buffers; the kernel accepts
every call by which clear destroys a buffer; and when no buffer is allocated any more,
the memory is as it was. -/
theorem run_backed {mappingError : BitVec 64 → Bool} {d : PciDev} {m₀ : Memory} {s s' : Backed}
    {tr : List (Transition Backed BackedAct (List Event))}
    (h : (backedLts mappingError d m₀).Run s tr s') (hinit : (backedLts mappingError d m₀).init s)
    (hgrant : ∀ t ∈ tr, t.pre.Granted mappingError d t.act) :
    Holds mappingError d m₀ s' ∧
    (∀ a list out, (∀ b, a ≠ .create b) → s'.list.step a = some (list, out) →
      ∃ s'', s'.step mappingError d (.list a) = some (s'', out) ∧ s''.list = list) ∧
    ((∀ b, ¬ s'.list.Live b) → s'.memory = m₀) := by
  have hs : Holds mappingError d m₀ s' := (h.preserves (P := Backed.Granted mappingError d)
    (fun _ _ _ _ hs hgrant hstep => hs.step hgrant hstep) (.of_init hinit) hgrant).1
  refine ⟨hs, fun a list out ha hstep => ?_, hs.memory_eq⟩
  obtain ⟨s'', hstep', hlist, -⟩ := hs.step_list ha hstep
  exact ⟨s'', hstep', hlist⟩

/-- A block at four mebibytes for every order up to 10. -/
private def backingEnv : BufferEnv where
  kzalloc := some 0x1000
  getFreePages o := if o.toNat ≤ 10 then 0x400000 else 0
  dmaMapSingle := 0x400000

/-- A buffer of two pages is created, appended, handed out, given back, and destroyed. -/
theorem run_backed_cleared : ∃ tr s',
    (backedLts (fun h => h == 0xFFFFFFFFFFFFFFFF#64) 7
      ⟨fun _ => none, fun _ => none, fun _ => false, fun _ => none⟩).Run
        ⟨State.initial, ⟨fun _ => none, fun _ => none, fun _ => false, fun _ => none⟩,
          fun _ => none⟩ tr s' ∧
    tr.flatMap (·.out) = [.returned 0 .void, .returned 1 (.buffer 0), .returned 1 .void,
      .destroyed 0, .returned 2 .void] ∧
    Holds (fun h => h == 0xFFFFFFFFFFFFFFFF#64) 7
      ⟨fun _ => none, fun _ => none, fun _ => false, fun _ => none⟩ s' ∧
    s'.memory.objects 0x1000 = none ∧ s'.memory.reserved 0x400 = false := by
  obtain ⟨tr, s', hrun, hacts, hend⟩ := Lts.Run.of_exec_map
    (M := backedLts (fun h => h == 0xFFFFFFFFFFFFFFFF#64) 7
      ⟨fun _ => none, fun _ => none, fun _ => false, fun _ => none⟩)
    (g := fun r => (r.1.flatMap (·.out), r.2.memory.objects 0x1000, r.2.memory.reserved 0x400))
    (v := ([.returned 0 .void, .returned 1 (.buffer 0), .returned 1 .void, .destroyed 0,
      .returned 2 .void], none, false))
    (s := ⟨State.initial, ⟨fun _ => none, fun _ => none, fun _ => false, fun _ => none⟩,
      fun _ => none⟩)
    (l := [.create 0 backingEnv 0x1400, .list (.call 0 (.append 0)), .list (.run 0),
      .list (.run 0), .list (.call 1 .getFree), .list (.run 1), .list (.run 1),
      .list (.call 1 (.setFree 0)), .list (.run 1), .list (.run 1), .list (.run 1),
      .list (.call 2 .clear), .list (.run 2), .list (.run 2), .list (.run 2), .list (.run 2)])
    (by decide +kernel)
  obtain ⟨hout, hfreed⟩ := Prod.mk.inj hend
  obtain ⟨hobject, hreserved⟩ := Prod.mk.inj hfreed
  refine ⟨tr, s', hrun, hout, ?_, hobject, hreserved⟩
  obtain ⟨t, tr', rfl, hact, hacts'⟩ := List.map_eq_cons_iff.mp hacts
  obtain ⟨hpre, -, -⟩ := hrun.of_cons
  refine (run_backed hrun rfl fun u hu => ?_).1
  rcases List.mem_cons.mp hu with rfl | hmem
  -- the creation, on an empty memory
  · rw [hact, hpre]
    constructor
    case maxOrder =>
      intro o ho
      exact if_neg (by omega)
    case aligned =>
      intro o
      unfold backingEnv
      dsimp only
      split <;> decide
    all_goals
      intros
      rfl
  · have hlist : u.act ∈ tr'.map (·.act) := List.mem_map_of_mem hmem
    simp only [hacts', List.mem_cons, List.not_mem_nil, or_false] at hlist
    obtain ⟨a, ha⟩ : ∃ a, u.act = .list a := by
      rcases hlist with h | h | h | h | h | h | h | h | h | h | h | h | h | h | h <;> exact ⟨_, h⟩
    rw [ha]
    trivial

end BufferList

end Gpcieuni
