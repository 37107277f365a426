-- SUMMARY: The driver refines a service that lends the windows of devices through handles.
import Gpcieuni.Lib.WindowService
import Gpcieuni.Session
import Gpcieuni.Driver.Noninterference

/-!
# The service of the driver

What the driver is for can be said without slots, minor numbers, positions, lists and
mutexes: it lends the windows of the devices that are plugged in, through open files.
`toService` forgets everything else, and `exec_refines` says that each call is an event
of the service, or nothing that its clients could notice.
-/

namespace Gpcieuni

/-! ## The abstraction -/

/-- The lengths, in words, of the BARs that are mapped. -/
def PcieuniDev.windows (dv : PcieuniDev) (n : Nat) : Option Nat :=
  if h : n < 6 then (dv.bar ⟨n, h⟩).memmoryBase.map fun _ => (dv.bar ⟨n, h⟩).length / 4 else none

theorem PcieuniDev.SameDevice.windows {dv dv' : PcieuniDev} (h : dv.SameDevice dv') :
    dv'.windows = dv.windows := by
  funext n
  rw [PcieuniDev.windows, PcieuniDev.windows, h.2.2.2]

/-- The first `k` words of a user buffer. -/
def bufWords (buf : UserMem) (k : Nat) : List (BitVec 32) :=
  (List.range k).map fun j => copyFromUser buf (4 * j)

/-- The registers, by their numbers in their BARs. -/
def Regs.words (regs : Regs) (d : PciDev) (n i : Nat) : BitVec 32 :=
  if h : n < 6 then regs d ⟨n, h⟩ (4 * i : Nat) else 0

theorem bufWords_length (buf : UserMem) (k : Nat) : (bufWords buf k).length = k := by
  simp [bufWords]

theorem Regs.words_eq_wordAt {regs : Regs} {m : Iomem} {o : Nat} (ho : o % 4 = 0) (j : Nat) :
    regs.words m.dev m.bar (o / 4 + j) = wordAt regs m o j := by
  rw [words, dif_pos m.bar.isLt, wordAt, show 4 * (o / 4 + j) = o + 4 * j by omega]

/-- The words of a buffer that has their bytes. -/
theorem bufWords_of_fetched {regs : Regs} {m : Iomem} {o k : Nat} {buf : UserMem}
    (h : ∀ j < k, ∀ b < 4, buf (4 * j + b) = Word.byte (wordAt regs m o j) b) :
    bufWords buf k = (List.range k).map fun j => wordAt regs m o j := by
  apply List.map_congr_left
  intro j hj
  have hj := List.mem_range.mp hj
  rw [copyFromUser, ← Word.ofBytes_byte (wordAt regs m o j)]
  simp only [Word.ofBytes, h j hj 0 (by decide), h j hj 1 (by decide), h j hj 2 (by decide),
    h j hj 3 (by decide)]

/-- Storing the bytes of a buffer is storing its words. -/
theorem Stored.words {regs regs' : Regs} {m : Iomem} {o k : Nat} {buf : UserMem}
    (h : Stored regs regs' m o k buf) (ho : o % 4 = 0) :
    regs'.words = WindowService.store regs.words m.dev m.bar (o / 4) (bufWords buf k) := by
  funext d n i
  rw [WindowService.store]
  split
  · rename_i hin
    obtain ⟨rfl, rfl, hi⟩ := hin
    obtain ⟨j, rfl⟩ := Nat.exists_eq_add_of_le hi
    rw [Nat.add_sub_cancel_left, Regs.words_eq_wordAt ho, Regs.words_eq_wordAt ho]
    by_cases hj : j < k
    · have hword : (bufWords buf k)[j]? = some (copyFromUser buf (4 * j)) := by
        simp [bufWords, hj]
      rw [hword, Option.getD_some, copyFromUser, ← Word.ofBytes_byte (wordAt regs' m o j)]
      simp only [Word.ofBytes, wordAt, h.holds j hj 0 (by decide), h.holds j hj 1 (by decide),
        h.holds j hj 2 (by decide), h.holds j hj 3 (by decide)]
    · rw [List.getElem?_eq_none (by rw [bufWords_length]; omega), Option.getD_none]
      apply h.frame
      rintro ⟨-, -, j', hj', heq⟩
      omega
  · rename_i hout
    by_cases hn : n < 6
    · rw [Regs.words, Regs.words, dif_pos hn, dif_pos hn]
      apply h.frame
      rintro ⟨rfl, hb, j, -, heq⟩
      exact hout ⟨rfl, congrArg Fin.val hb, by omega⟩
    · rw [Regs.words, Regs.words, dif_neg hn, dif_neg hn]

theorem LiesIn.offset_aligned {dv : PcieuniDev} {pos : BitVec 64} {k : Nat} {m : Iomem}
    (h : LiesIn dv pos k m) : pos.toNat % 2 ^ 60 % 4 = 0 := by
  obtain ⟨-, hpos, -⟩ := h
  omega

namespace Driver

/-- The device that is present at slot `k`. -/
def occupant (s : Driver) (k : Slot) : Option PciDev :=
  if (s.dev k).devSts = 0 then none else (s.dev k).pcieuniPciDev

def toService (s : Driver) : WindowService PciDev FilePtr (BitVec 32) where
  windows d := if d ∈ s.bound then (s.drvdata d).map fun k => (s.dev k).windows else none
  handle f := (s.privateData f).map s.occupant
  mem := s.regs.words

/-- The events that a step is. The words of a read are those that it has delivered. -/
def events (t : Transition Driver Op OpRet) :
    List (WindowService.Event PciDev FilePtr (BitVec 32)) :=
  match t.act with
  | .probe _ d =>
    if t.out.ret = 0 then
      ((t.post.drvdata d).map fun k => .plug d (t.post.dev k).windows).toList
    else []
  | .remove _ d => [.unplug d]
  | .openFile _ k f => if t.out.ret = 0 then ((t.pre.occupant k).map (.take f ·)).toList else []
  | .release _ f => [.giveBack f]
  | .read _ f _ _ pos =>
    match t.pre.delivered t.act with
    | .transfer _ out =>
      if 0 < t.out.ret then
        [.read f (pos.toNat / 2 ^ 60 % 8) (pos.toNat % 2 ^ 60 / 4)
          (bufWords out (t.out.ret.toNat / 4))]
      else []
    | _ => []
  | .write _ f buf _ pos =>
    if 0 < t.out.ret then
      [.write f (pos.toNat / 2 ^ 60 % 8) (pos.toNat % 2 ^ 60 / 4)
        (bufWords buf (t.out.ret.toNat / 4))]
    else []
  | .ioctl .. => []

/-! ## The invariant -/

/-- The BARs of a bound device are mapped in their places, and made of words. -/
def BarInv (s : Driver) : Prop :=
  ∀ d k, s.Serves d k → ∀ n m, ((s.dev k).bar n).memmoryBase = some m →
    m.bar = n ∧ ((s.dev k).bar n).length % 4 = 0

/-- An open file names the slot of a bound device, or the null device. -/
def FilePlaces (s : Driver) : Prop :=
  ∀ f k, s.privateData f = some k → k = nullSlot ∨ ∃ d, s.Serves d k

/-- What the refinement needs to hold between the calls. -/
structure Orderly (s : Driver) : Prop where
  slots : s.SlotInv
  files : s.FileInv
  inUse : s.InUse
  bars : s.BarInv
  places : s.FilePlaces

end Driver

/-- The BARs of the device that is probed are made of words. -/
def ProbeEnv.WholeWords (env : ProbeEnv) : Prop :=
  ∀ n, env.Implements n → (env.resource n).start.toNat ≤ (env.resource n).stop.toNat ∧
    ((env.resource n).stop.toNat - (env.resource n).start.toNat + 1) % 4 = 0

instance (env : ProbeEnv) : Decidable env.WholeWords :=
  inferInstanceAs (Decidable (∀ n, env.Implements n → _ ∧ _))

theorem ProbeEnv.WholeWords.bar {env : ProbeEnv} (h : env.WholeWords) {d : PciDev} {n : Fin 6}
    {b : Bar} {m : Iomem} (hm : (probedBar env d n b).memmoryBase = some m) :
    m.bar = n ∧ (probedBar env d n b).length % 4 = 0 := by
  obtain ⟨himp, -, hn, -⟩ := probedBar_memmoryBase.mp hm
  obtain ⟨hle, hwords⟩ := h n himp
  refine ⟨hn, ?_⟩
  simp only [Bar.length, probedBar, BitVec.toNat_sub, BitVec.toNat_setWidth]
  omega

namespace Driver

/-- What the callers promise beyond what they may not do: the BARs of PCI devices are
made of words, files are opened on the nodes of devices that are present, and the VFS
bounds the counts. -/
def Promised (s : Driver) : Op → Prop
  | .probe env _ => env.WholeWords
  | .openFile _ k _ => (s.dev k).devSts ≠ 0
  | .read env _ _ count _ => count.toNat ≤ 0x7ffff000 ∧ 2 ^ 29 ≤ env.fuel
  | .write env _ _ count _ => count.toNat ≤ 0x7ffff000 ∧ 2 ^ 29 ≤ env.fuel
  | .remove .. | .release .. | .ioctl .. => True

/-- The calls of a kernel and of users that keep to the rules. -/
def Ordered (s : Driver) (op : Op) : Prop :=
  s.Admissible op ∧ s.ReleaseUnlists op ∧ s.Promised op

instance (s : Driver) (op : Op) : Decidable (s.ReleaseUnlists op) :=
  match op with
  | .release intr f =>
    inferInstanceAs (Decidable (intr = true → ∀ k, s.privateData f = some k →
      f ∉ (s.dev k).devFileList.map (·.filp)))
  | .probe .. | .remove .. | .openFile .. | .read .. | .write .. | .ioctl .. => isTrue trivial

instance (s : Driver) (op : Op) : Decidable (s.Promised op) :=
  match op with
  | .probe env _ => inferInstanceAs (Decidable env.WholeWords)
  | .openFile _ k _ => inferInstanceAs (Decidable ((s.dev k).devSts ≠ 0))
  | .read env _ _ count _ =>
    inferInstanceAs (Decidable (count.toNat ≤ 0x7ffff000 ∧ 2 ^ 29 ≤ env.fuel))
  | .write env _ _ count _ =>
    inferInstanceAs (Decidable (count.toNat ≤ 0x7ffff000 ∧ 2 ^ 29 ≤ env.fuel))
  | .remove .. | .release .. | .ioctl .. => isTrue trivial

instance (s : Driver) (op : Op) : Decidable (s.Ordered op) :=
  inferInstanceAs (Decidable (_ ∧ _ ∧ _))

section Invariant

variable {s s' : Driver} {op : Op} {r : OpRet}

/-- A device that has a slot after a call, and had one before, had it before. -/
theorem serves_before (hs : s.SlotInv) (hadm : s.Admissible op) (h : s.exec op = .ok (s', r))
    {d : PciDev} {k : Slot} (hd : s'.Serves d k) (hbound : d ∈ s.bound)
    (hop : ∀ devName, op ≠ .remove devName d) : s.Serves d k := by
  obtain ⟨j, hj⟩ := hs.serves d hbound
  have hj' := exec_serves hs hadm h hj hop
  obtain rfl : j = k := Option.some.inj (hj'.drvdata.symm.trans hd.drvdata)
  exact hj

theorem FileInv.exec_of_unlists (hs : s.FileInv) (hadm : s.Admissible op)
    (hrel : s.ReleaseUnlists op) (h : s.exec op = .ok (s', r)) : s'.FileInv := by
  by_cases hop : op.Uninterrupted
  · exact hs.exec hadm hop h
  refine ⟨hs.toListInv.exec hadm hrel h, fun f k hf hk => ?_⟩
  cases op with
  | openFile env j g =>
      rcases exec_openFile h with ⟨-, -, rfl⟩ | ⟨hintr, -⟩
      · have hlist : ((s.setDev j { s.dev j with devMinor := j }).dev k).devFileList =
            (s.dev k).devFileList := by
          by_cases hkj : k = j
          · subst hkj
            simp
          · rw [setDev_dev_ne hkj]
        rw [hlist]
        exact hs.listed f k hf hk
      · exact absurd hintr hop
  | release intr g =>
      obtain ⟨j, -, ⟨-, -, rfl⟩ | ⟨hintr, -⟩⟩ := exec_release h
      · exact hs.listed f k (List.mem_filter.mp hf).1 hk
      · exact absurd hintr hop
  | probe | remove | read | write | ioctl => exact absurd trivial hop

theorem BarInv.exec (hb : s.BarInv) (hs : s.SlotInv) (hadm : s.Admissible op)
    (hop : s.Promised op) (h : s.exec op = .ok (s', r)) : s'.BarInv := by
  intro d k hd n m hm
  rcases exec_slots h with ⟨hsame, -, hrem⟩ | ⟨env, d', i, drvdata, rfl, hfree, -, -, -, rfl⟩ |
      ⟨env, d', -, -, rfl, -, -, -, hret, -, -⟩ | ⟨devName, d', j, dv, files, rfl, hj, -, rfl⟩
  · have hd₀ := serves_before hs hadm h hd (hsame.bound ▸ hd.bound) fun devName => hrem devName d
    rw [(hsame.dev k).2.2.2] at hm ⊢
    exact hb d k hd₀ n m hm
  · have hd₀ := serves_before hs hadm h hd hd.bound (by simp)
    rw [setDev_dev_ne (hd₀.ne_free hfree)] at hm ⊢
    exact hb d k hd₀ n m hm
  · obtain ⟨i, dv, o, -, -, hfree, -, rfl⟩ := exec_probe_ok h hret
    by_cases hdd : d = d'
    · subst hdd
      have hk : Function.update s.drvdata d (some i.castSucc) d = some k := hd.drvdata
      rw [Function.update_self] at hk
      obtain rfl := Option.some.inj hk
      simp only [setDev_dev_self, o.bar] at hm ⊢
      exact ProbeEnv.WholeWords.bar hop hm
    · have hbound : d ∈ s.bound := (List.mem_cons.mp hd.bound).resolve_left hdd
      have hd₀ := serves_before hs hadm h hd hbound (by simp)
      simp only [setDev_dev_ne (hd₀.ne_free hfree)] at hm ⊢
      exact hb d k hd₀ n m hm
  · obtain ⟨hne, hbound⟩ := hs.nodup.mem_erase_iff.mp hd.bound
    have hd₀ := serves_before hs hadm h hd hbound (by rintro _ heq; cases heq; exact hne rfl)
    have hkj : k ≠ j := hd₀.slot_ne (hs.serves_of_drvdata hadm hj) hne
    simp only [setDev_dev_ne hkj] at hm ⊢
    exact hb d k hd₀ n m hm

theorem FilePlaces.exec (hp : s.FilePlaces) (hs : s.SlotInv) (hf : s.FileInv) (hu : s.InUse)
    (hadm : s.Admissible op) (hop : s.Promised op) (h : s.exec op = .ok (s', r)) :
    s'.FilePlaces := by
  intro f k hfk
  have hkeep : ∀ d, s.Serves d k → (∀ devName, op ≠ .remove devName d) →
      k = nullSlot ∨ ∃ d, s'.Serves d k := fun d hd hrem =>
    .inr ⟨d, exec_serves hs hadm h hd hrem⟩
  have hold : s.privateData f = some k → (∀ devName d, op ≠ .remove devName d) →
      k = nullSlot ∨ ∃ d, s'.Serves d k := by
    intro hk hrem
    rcases hp f k hk with hnull | ⟨d, hd⟩
    · exact .inl hnull
    · exact hkeep d hd fun devName => hrem devName d
  have hreleased : ∀ {g : FilePtr} {intr : Bool}, op = .release intr g →
      s'.files = s.files.filter (·.filp ≠ g) → k = nullSlot ∨ ∃ d, s'.Serves d k := by
    intro g intr heq hfiles
    rw [privateData_filter hfiles] at hfk
    split at hfk
    · cases hfk
    · exact hold hfk (by simp [heq])
  rcases exec_files h with ⟨hsame, -, hrem⟩ | ⟨env, j, g, rfl, hnew⟩ | ⟨g, j, hrel, -, hnew⟩ |
      ⟨g, j, hrel, -, hnew⟩ | ⟨devName, d', j, rfl, hj, hnew⟩
  · exact hold (by simpa only [privateData, hsame.files] using hfk) hrem
  · rw [privateData_cons hnew.files] at hfk
    split at hfk
    · obtain rfl := Option.some.inj hfk
      obtain ⟨d, hd⟩ := hu j hop
      exact hkeep d hd (by simp)
    · exact hold hfk (by simp)
  · exact hreleased hrel hnew.files
  · exact hreleased hrel hnew.files
  · have hmem := mem_files_of_privateData hfk
    rw [hnew.files, mem_detachFiles] at hmem
    rcases hmem with ⟨hunlisted, hmem⟩ | ⟨-, hnull, -⟩
    · rcases hp f k (privateData_of_mem_files hf.nodup hmem) with hnull | ⟨d, hd⟩
      · exact .inl hnull
      · refine hkeep d hd ?_
        rintro _ heq
        cases heq
        obtain rfl : k = j := Option.some.inj (hd.drvdata.symm.trans hj)
        exact hunlisted (hf.listed f k hmem hd.ne_null)
    · exact .inl hnull

theorem Orderly.exec (hs : s.Orderly) (hop : s.Ordered op) (h : s.exec op = .ok (s', r)) :
    s'.Orderly where
  slots := hs.slots.exec hop.1 h
  files := hs.files.exec_of_unlists hop.1 hop.2.1 h
  inUse := hs.inUse.exec hs.slots hop.1 h
  bars := hs.bars.exec hs.slots hop.1 hop.2.2 h
  places := hs.places.exec hs.slots hs.files hs.inUse hop.1 hop.2.2 h

theorem Orderly.of_init (h : driverLts.init s) : s.Orderly := by
  refine ⟨.of_init h, .of_init h, .of_init h, ?_, ?_⟩
  · obtain ⟨major, verMaj, verMin, regs, rfl⟩ := h
    rintro d k ⟨hbound, -⟩
    cases hbound
  · obtain ⟨major, verMaj, verMin, regs, rfl⟩ := h
    intro f k hf
    cases hf

end Invariant

/-! ## What the abstraction forgets -/

section Abstraction

variable {s s' : Driver} {d : PciDev} {k : Slot} {f : FilePtr}

theorem SameSlots.occupant (h : s.SameSlots s') : s'.occupant = s.occupant := by
  funext k
  obtain ⟨hpci, -, hsts, -⟩ := h.dev k
  rw [Driver.occupant, Driver.occupant, hsts, hpci]

theorem Serves.occupant (hd : s.Serves d k) : s.occupant k = some d := by
  rw [Driver.occupant, if_neg (by rw [hd.devSts]; decide), hd.pcieuniPciDev]

theorem SlotInv.occupant_null (hs : s.SlotInv) : s.occupant nullSlot = none := if_pos hs.null

theorem Serves.windows (hd : s.Serves d k) :
    s.toService.windows d = some (s.dev k).windows := by
  simp only [toService, if_pos hd.bound, hd.drvdata, Option.map_some]

theorem windows_of_unbound (hd : d ∉ s.bound) : s.toService.windows d = none := if_neg hd

/-- The file of a device is one on its slot. -/
theorem Orderly.handle_eq_iff (hs : s.Orderly) (hd : s.Serves d k) :
    s.toService.handle f = some (some d) ↔ s.privateData f = some k := by
  simp only [toService, Option.map_eq_some_iff]
  constructor
  · rintro ⟨j, hj, hocc⟩
    rcases hs.places f j hj with rfl | ⟨d', hd'⟩
    · rw [hs.slots.occupant_null] at hocc
      cases hocc
    · rw [hd'.occupant] at hocc
      obtain rfl := Option.some.inj hocc
      obtain rfl : j = k := Option.some.inj (hd'.drvdata.symm.trans hd.drvdata)
      exact hj
  · exact fun hk => ⟨k, hk, hd.occupant⟩

end Abstraction

/-! ## One call -/

section Calls

variable {s s' : Driver} {op : Op} {r : OpRet}

/-- A device that is not removed keeps its windows. -/
theorem exec_windows (hs : s.SlotInv) (hadm : s.Admissible op) (h : s.exec op = .ok (s', r))
    {d : PciDev} {k : Slot} (hd : s.Serves d k) (hop : ∀ devName, op ≠ .remove devName d) :
    s'.toService.windows d = s.toService.windows d := by
  rw [hd.windows, (exec_serves hs hadm h hd hop).windows]
  rcases exec_slots h with ⟨hsame, -, -⟩ | ⟨env, d', i, drvdata, rfl, hfree, -, -, -, rfl⟩ |
      ⟨env, d', i, dv, rfl, hfree, -, -, -, -, rfl⟩ | ⟨devName, d', j, dv, files, rfl, hj, -, rfl⟩
  · rw [(hsame.dev k).windows]
  · simp only [setDev_dev_ne (hd.ne_free hfree)]
  · simp only [setDev_dev_ne (hd.ne_free hfree)]
  · have hne : d ≠ d' := fun heq => hop devName (heq ▸ rfl)
    simp only [setDev_dev_ne (hd.slot_ne (hs.serves_of_drvdata hadm hj) hne)]

/-- The place that an open file names keeps its device, unless that is removed. -/
theorem Orderly.exec_occupant (hs : s.Orderly) (hadm : s.Admissible op)
    (h : s.exec op = .ok (s', r)) {f : FilePtr} {k : Slot} (hf : s.privateData f = some k)
    (hop : ∀ devName d, op = .remove devName d → ¬ s.Serves d k) :
    s'.occupant k = s.occupant k := by
  rcases hs.places f k hf with rfl | ⟨d, hd⟩
  · rw [hs.slots.occupant_null, (hs.slots.exec hadm h).occupant_null]
  · rw [hd.occupant, (exec_serves hs.slots hadm h hd fun devName heq => hop devName d heq hd).occupant]

/-- While no device comes or goes, all of them keep their windows. -/
theorem Orderly.windows_eq (hs : s.Orderly) (hadm : s.Admissible op) (h : s.exec op = .ok (s', r))
    (hop : ∀ devName d, op ≠ .remove devName d) (hbound : s'.bound = s.bound) :
    s'.toService.windows = s.toService.windows := by
  funext d
  by_cases hd : d ∈ s.bound
  · obtain ⟨k, hk⟩ := hs.slots.serves d hd
    exact exec_windows hs.slots hadm h hk fun devName => hop devName d
  · rw [windows_of_unbound hd, windows_of_unbound (hbound ▸ hd)]

/-- Between two states with the same bound devices, open files and registers, nothing
has happened to the service. -/
theorem Orderly.toService_eq (hs : s.Orderly) (hadm : s.Admissible op)
    (h : s.exec op = .ok (s', r)) (hop : ∀ devName d, op ≠ .remove devName d)
    (hbound : s'.bound = s.bound) (hfiles : s'.files = s.files) (hregs : s'.regs = s.regs) :
    s'.toService = s.toService := by
  refine WindowService.ext (hs.windows_eq hadm h hop hbound) (funext fun f => ?_) ?_
  · simp only [toService, privateData, hfiles]
    exact Option.map_congr fun k hk =>
      hs.exec_occupant hadm h hk fun devName d heq => absurd heq (hop devName d)
  · simp only [toService, hregs]

theorem probe_step (hs : s.Orderly) {env : ProbeEnv} {d : PciDev}
    (hadm : s.Admissible (.probe env d)) (h : s.exec (.probe env d) = .ok (s', r))
    (hret : r.ret = 0) :
    ∃ k, s'.drvdata d = some k ∧
      s.toService.step (.plug d (s'.dev k).windows) = some s'.toService := by
  rcases exec_probe h with ⟨-, -, hneg⟩ | ⟨-, -, -, -, hne, -⟩ | ⟨i, dv, -, -, -, -, hprobed, hs'⟩
  · rw [hret] at hneg
    cases hneg
  · exact absurd hret hne
  have hd : s'.Serves d i.castSucc := hs' ▸ serves_of_probed hprobed
  refine ⟨i.castSucc, hd.drvdata, ?_⟩
  rw [WindowService.step_plug (windows_of_unbound hadm)]
  refine congrArg some (WindowService.ext (funext fun d' => ?_) (funext fun f => ?_) ?_)
  · dsimp only
    by_cases hdd : d' = d
    · subst hdd
      rw [hd.windows, Function.update_self]
    · rw [Function.update_of_ne hdd]
      by_cases hd' : d' ∈ s.bound
      · obtain ⟨k, hk⟩ := hs.slots.serves d' hd'
        exact (exec_windows hs.slots hadm h hk (by simp)).symm
      · rw [windows_of_unbound hd', windows_of_unbound]
        simp [hs', hdd, hd']
  · simp only [toService, privateData, show s'.files = s.files by rw [hs']; rfl]
    exact Option.map_congr fun k hk => (hs.exec_occupant hadm h hk (by simp)).symm
  · simp only [toService, show s'.regs = s.regs by rw [hs']; rfl]

/-- A remove sends the files of its slot, and no others, to the null device. -/
theorem privateData_of_detached {k : Slot} (hs : s.FileInv) (hk : k ≠ nullSlot)
    (hfiles : s'.files = detachFiles (s.dev k).devFileList s.files) (f : FilePtr) :
    s'.privateData f = if s.privateData f = some k then some nullSlot else s.privateData f := by
  have hnodup : (s'.files.map (·.filp)).Nodup := by
    rw [hfiles, map_filp_detachFiles]
    exact hs.nodup
  cases hf : s.privateData f with
  | none =>
      rw [if_neg (by simp)]
      rw [privateData_eq_none] at hf ⊢
      rw [hfiles, map_filp_detachFiles]
      exact hf
  | some j =>
      have hmem := mem_files_of_privateData hf
      split
      · rename_i hj
        obtain rfl := Option.some.inj hj
        apply privateData_of_mem_files hnodup
        rw [hfiles, mem_detachFiles]
        exact .inr ⟨hs.listed f j hmem hk, rfl, List.mem_map_of_mem hmem⟩
      · rename_i hj
        apply privateData_of_mem_files hnodup
        rw [hfiles, mem_detachFiles]
        refine .inl ⟨fun hlisted => hj ?_, hmem⟩
        obtain ⟨e, he, rfl⟩ := List.mem_map.mp hlisted
        rw [hs.slot_unique hmem (hs.entries k e he)]

theorem remove_step (hs : s.Orderly) {devName : String} {d : PciDev}
    (hadm : s.Admissible (.remove devName d)) (h : s.exec (.remove devName d) = .ok (s', r)) :
    s.toService.step (.unplug d) = some s'.toService := by
  obtain ⟨k, dv, hk, -, -, -, -, hs'⟩ := exec_remove h
  have hd := hs.slots.serves_of_drvdata hadm hk
  rw [WindowService.step_unplug (by rw [hd.windows]; simp)]
  refine congrArg some (WindowService.ext (funext fun d' => ?_) (funext fun f => ?_) ?_)
  · dsimp only
    by_cases hdd : d' = d
    · subst hdd
      rw [Function.update_self, windows_of_unbound]
      rw [hs']
      exact fun hmem => (hs.slots.nodup.mem_erase_iff.mp hmem).1 rfl
    · rw [Function.update_of_ne hdd]
      by_cases hd' : d' ∈ s.bound
      · obtain ⟨j, hj⟩ := hs.slots.serves d' hd'
        exact (exec_windows hs.slots hadm h hj (by rintro _ heq; cases heq; exact hdd rfl)).symm
      · rw [windows_of_unbound hd', windows_of_unbound]
        rw [hs']
        exact fun hmem => hd' (List.mem_of_mem_erase hmem)
  · dsimp only
    simp only [hs.handle_eq_iff hd]
    simp only [toService,
      privateData_of_detached hs.files hd.ne_null (show s'.files = _ by rw [hs']) f]
    split
    · rw [Option.map_some, (hs.slots.exec hadm h).occupant_null]
    · rename_i hf
      refine Option.map_congr fun j hj => (hs.exec_occupant hadm h hj ?_).symm
      rintro _ _ heq hj'
      cases heq
      exact hf (by rw [hj, ← hk, hj'.drvdata])
  · simp only [toService, show s'.regs = s.regs by rw [hs']; rfl]

theorem openFile_step (hs : s.Orderly) {env : OpenEnv} {k : Slot} {f : FilePtr}
    (hop : s.Ordered (.openFile env k f)) (h : s.exec (.openFile env k f) = .ok (s', r))
    (hret : r.ret = 0) :
    ∃ d, s.occupant k = some d ∧ s.toService.step (.take f d) = some s'.toService := by
  obtain ⟨hadm, -, hpresent⟩ := hop
  obtain ⟨d, hd⟩ := hs.inUse k hpresent
  refine ⟨d, hd.occupant, ?_⟩
  rcases exec_openFile h with ⟨-, hneg, -⟩ | ⟨-, -, -, hs'⟩
  · rw [hret] at hneg
    cases hneg
  have hbound : s'.bound = s.bound := by rw [hs']; rfl
  rw [WindowService.step_take]
  · refine congrArg some (WindowService.ext ?_ (funext fun g => ?_) ?_)
    · exact (hs.windows_eq hadm h (by simp) hbound).symm
    · simp only [toService, privateData_cons (show s'.files = _ by rw [hs']) g]
      by_cases hg : f = g
      · subst hg
        rw [Function.update_self, if_pos rfl, Option.map_some,
          (exec_serves hs.slots hadm h hd (by simp)).occupant]
      · rw [Function.update_of_ne (Ne.symm hg), if_neg hg]
        exact Option.map_congr fun j hj => (hs.exec_occupant hadm h hj (by simp)).symm
    · simp only [toService, show s'.regs = s.regs by rw [hs']; rfl]
  · simp only [toService, show s.privateData f = none from hadm, Option.map_none]
  · rw [hd.windows]
    simp

theorem release_step (hs : s.Orderly) {intr : Bool} {f : FilePtr}
    (h : s.exec (.release intr f) = .ok (s', r)) :
    s.toService.step (.giveBack f) = some s'.toService := by
  have hadm : s.Admissible (.release intr f) := trivial
  obtain ⟨k, hk, hcases⟩ := exec_release h
  have hsame : s'.bound = s.bound ∧ s'.regs = s.regs ∧
      s'.files = s.files.filter (·.filp ≠ f) := by
    rcases hcases with ⟨-, -, rfl⟩ | ⟨-, -, -, rfl⟩ <;> exact ⟨rfl, rfl, rfl⟩
  obtain ⟨hbound, hregs, hfiles⟩ := hsame
  rw [WindowService.step_giveBack (by simp [toService, hk])]
  refine congrArg some (WindowService.ext ?_ (funext fun g => ?_) ?_)
  · exact (hs.windows_eq hadm h (by simp) hbound).symm
  · simp only [toService, privateData_filter hfiles g]
    by_cases hg : f = g
    · subst hg
      rw [Function.update_self, if_pos rfl, Option.map_none]
    · rw [Function.update_of_ne (Ne.symm hg), if_neg hg]
      exact Option.map_congr fun j hj => (hs.exec_occupant hadm h hj (by simp)).symm
  · simp only [toService, hregs]

end Calls

/-! ## Transfers -/

section Transfers

variable {s : Driver} {d : PciDev} {k : Slot}

/-- Where a piece lies in the windows of its device. -/
theorem Serves.target (hb : s.BarInv) (hd : s.Serves d k) {f : FilePtr}
    (hf : s.privateData f = some k) {pos : BitVec 64} {l : Nat} {m : Iomem}
    (h : LiesIn (s.dev k) pos l m) :
    m.dev = d ∧ (m.bar : Nat) = pos.toNat / 2 ^ 60 % 8 ∧
      ∃ len, s.toService.target f (pos.toNat / 2 ^ 60 % 8) = some (d, len) ∧
        pos.toNat % 2 ^ 60 / 4 + l ≤ len := by
  obtain ⟨-, -, n, hn, hm, hin⟩ := h
  obtain ⟨hbar, -⟩ := hb d k hd n m hm
  refine ⟨hd.mapped n m hm, by rw [hbar, hn], ((s.dev k).bar n).length / 4, ?_, by omega⟩
  apply WindowService.target_eq (w := (s.dev k).windows)
  · simp only [toService, hf, Option.map_some, hd.occupant]
  · exact hd.windows
  · rw [← hn, PcieuniDev.windows, dif_pos n.isLt, hm, Option.map_some]

variable {f : FilePtr} {buf out : UserMem} {count pos fPos : BitVec 64} {s' : Driver} {r : OpRet}

/-- A file on which a transfer has moved anything is one of a device. -/
theorem Orderly.serves_of_transferred (hs : s.Orderly) (hf : s.privateData f = some k)
    (hsts : (s.dev k).devSts ≠ 0) :
    ∃ d, s.Serves d k ∧
      ∀ n m, ((s.dev k).bar n).memmoryBase = some m → ((s.dev k).bar n).length % 4 = 0 := by
  rcases hs.places f k hf with rfl | ⟨d, hd⟩
  · exact absurd hs.slots.null hsts
  · exact ⟨d, hd, fun n m hm => (hs.bars d k hd n m hm).2⟩

theorem read_step (hs : s.Orderly) {env : ReadEnv} (hop : s.Ordered (.read env f buf count pos))
    (h : s.exec (.read env f buf count pos) = .ok (s', r))
    (hout : s.delivered (.read env f buf count pos) = .transfer fPos out) (hret : 0 < r.ret) :
    s.toService.step (.read f (pos.toNat / 2 ^ 60 % 8) (pos.toNat % 2 ^ 60 / 4)
      (bufWords out (r.ret.toNat / 4))) = some s.toService := by
  obtain ⟨-, -, hcount, hfuel⟩ := hop
  obtain ⟨k, hf, -, htr⟩ := exec_read h
  have hsts : (s.dev k).devSts ≠ 0 := by
    intro h0
    rw [(htr.gone h0).1] at hret
    cases hret
  obtain ⟨d, hd, hlen⟩ := hs.serves_of_transferred hf hsts
  simp only [exec, hf] at h
  simp only [delivered, hf] at hout
  cases hread : pcieuniReadNoStructExp env s.regs (s.dev k) buf count pos with
  | error e => rw [hread] at h; cases h
  | ok x =>
      simp only [hread] at h hout
      cases h
      cases hout
      replace hret : 0 < x.2.ret := hret
      obtain ⟨l, hl, hfetched⟩ := read_returned hlen hcount hfuel hread
      rcases hfetched with rfl | ⟨m, hm, hbytes⟩
      · omega
      obtain ⟨hmd, hmn, len, htarget, hin⟩ := hd.target hs.bars hf hm
      rw [show x.2.ret.toNat / 4 = l by omega]
      apply WindowService.step_read htarget
      · rwa [bufWords_length]
      · rw [bufWords_length, bufWords_of_fetched hbytes, WindowService.wordsFrom]
        apply List.map_congr_left
        intro j _
        rw [← hmd, ← hmn]
        exact (Regs.words_eq_wordAt hm.offset_aligned j).symm

theorem write_step (hs : s.Orderly) {env : WriteEnv} (hop : s.Ordered (.write env f buf count pos))
    (h : s.exec (.write env f buf count pos) = .ok (s', r)) :
    (0 < r.ret →
      s.toService.step (.write f (pos.toNat / 2 ^ 60 % 8) (pos.toNat % 2 ^ 60 / 4)
        (bufWords buf (r.ret.toNat / 4))) = some s'.toService) ∧
    (¬ 0 < r.ret → s'.toService = s.toService) := by
  obtain ⟨-, -, hcount, hfuel⟩ := hop
  obtain ⟨k, -, hf, -, htr⟩ := exec_write h
  simp only [exec, hf] at h
  cases hwrite : pcieuniWriteNoStructExp env s.regs (s.dev k) buf count pos with
  | error e => rw [hwrite] at h; cases h
  | ok x =>
      obtain ⟨dv', w⟩ := x
      simp only [hwrite] at h
      cases h
      obtain rfl := (pcieuniWriteNoStructExp_cases hwrite).same
      rw [setDev_self]
      by_cases hsts : (s.dev k).devSts = 0
      · simp only [pcieuniWriteNoStructExp, check_of_devSts hsts] at hwrite
        cases hwrite
        exact ⟨fun hret => absurd hret (by simp [efault]), fun _ => rfl⟩
      obtain ⟨d, hd, hlen⟩ := hs.serves_of_transferred hf hsts
      obtain ⟨l, hl, hwritten⟩ := write_returned hlen hcount hfuel hwrite
      constructor
      · intro hret
        replace hret : 0 < w.ret := hret
        rcases hwritten with ⟨rfl, -⟩ | ⟨m, hm, hstored⟩
        · omega
        obtain ⟨hmd, hmn, len, htarget, hin⟩ := hd.target hs.bars hf hm
        rw [show w.ret.toNat / 4 = l by omega]
        rw [WindowService.step_write htarget (by rwa [bufWords_length])]
        refine congrArg some (WindowService.ext rfl rfl ?_)
        rw [← hmd, ← hmn]
        exact (hstored.words hm.offset_aligned).symm
      · intro hret
        replace hret : ¬ 0 < w.ret := hret
        obtain rfl : l = 0 := by omega
        simp only [hwritten.regs_eq]

end Transfers

/-! ## Whole runs -/

section Runs

variable {s s' : Driver} {op : Op} {r : OpRet}

/-- The service can go where the driver goes, by these events. -/
def Follows (s s' : Driver) (es : List (WindowService.Event PciDev FilePtr (BitVec 32))) : Prop :=
  ∃ w, WindowService.lts.Run s.toService w s'.toService ∧ w.map (·.label) = es.map (·, ())

theorem follows_nil (h : s'.toService = s.toService) : s.Follows s' [] := by
  refine ⟨[], ?_, rfl⟩
  rw [h]
  exact .nil _

theorem follows_single {e : WindowService.Event PciDev FilePtr (BitVec 32)}
    (h : s.toService.step e = some s'.toService) : s.Follows s' [e] :=
  ⟨_, .single (WindowService.lts_step.mpr h), rfl⟩

/-- Each call is an event of the service, or nothing that its clients could notice. -/
theorem exec_refines (hs : s.Orderly) (hop : s.Ordered op) (h : s.exec op = .ok (s', r)) :
    s.Follows s' (events ⟨s, op, r, s'⟩) := by
  have hadm := hop.1
  cases op with
  | probe env d =>
      simp only [events]
      split
      · rename_i hret
        obtain ⟨k, hk, hstep⟩ := probe_step hs hadm h hret
        rw [hk]
        exact follows_single hstep
      · rename_i hret
        apply follows_nil
        rcases exec_probe h with ⟨-, rfl, -⟩ | ⟨i, drvdata, -, -, -, -, hs'⟩ |
            ⟨i, dv, -, -, -, hzero, -, -⟩
        · rfl
        · apply hs.toService_eq hadm h (by simp) <;> rw [hs'] <;> rfl
        · exact absurd hzero hret
  | remove devName d => exact follows_single (remove_step hs hadm h)
  | openFile env k f =>
      simp only [events]
      split
      · rename_i hret
        obtain ⟨d, hd, hstep⟩ := openFile_step hs hop h hret
        rw [hd]
        exact follows_single hstep
      · rename_i hret
        apply follows_nil
        rcases exec_openFile h with ⟨-, -, hs'⟩ | ⟨-, -, hzero, -⟩
        · apply hs.toService_eq hadm h (by simp) <;> rw [hs'] <;> rfl
        · exact absurd hzero hret
  | release intr f => exact follows_single (release_step hs h)
  | read env f buf count pos =>
      obtain ⟨k, -, rfl, -⟩ := exec_read h
      simp only [events]
      split
      · rename_i hout
        split
        · rename_i hret
          exact follows_single (read_step hs hop h hout hret)
        · exact follows_nil rfl
      · exact follows_nil rfl
  | write env f buf count pos =>
      obtain ⟨hmoved, hidle⟩ := write_step hs hop h
      simp only [events]
      split
      · rename_i hret
        exact follows_single (hmoved hret)
      · rename_i hret
        exact follows_nil (hidle hret)
  | ioctl env f cmd arg =>
      apply follows_nil
      obtain ⟨k, -, -, -, ⟨rfl, -⟩ | ⟨-, -, -, -, hs'⟩⟩ := exec_ioctl h
      · rfl
      · apply hs.toService_eq hadm h (by simp) <;> rw [hs'] <;> rfl

/-- The driver, simulated by the service of which its state is a part. -/
def serviceSimulation :
    Lts.Simulation driverLts (WindowService.lts (δ := PciDev) (φ := FilePtr) (ω := BitVec 32))
      fun t => t.pre.Ordered t.act where
  rel s p := s.Orderly ∧ p = s.toService
  labels t := (events t).map (·, ())
  step s a s' e p hrel hop hstep := by
    obtain ⟨hs, rfl⟩ := hrel
    have hexec := driverLts_step.mp hstep
    obtain ⟨w, hrun, hlabels⟩ := exec_refines hs hop hexec
    exact ⟨w, s'.toService, hrun, hlabels, hs.exec hop hexec, rfl⟩

/-- The driver refines the service: whatever is called, as long as the callers keep to
the rules, what happens is a run of the service that starts with nothing plugged in and
nothing taken. -/
theorem run_refines_service {tr : List (Transition Driver Op OpRet)} (hinit : driverLts.init s)
    (h : driverLts.Run s tr s') (hord : ∀ t ∈ tr, t.pre.Ordered t.act) :
    ∃ w, WindowService.lts.Run ⟨fun _ => none, fun _ => none, s.regs.words⟩ w s'.toService ∧
      w.map (·.act) = tr.flatMap events := by
  have hempty : s.toService = ⟨fun _ => none, fun _ => none, s.regs.words⟩ := by
    obtain ⟨major, verMaj, verMin, regs, rfl⟩ := hinit
    rfl
  obtain ⟨ws, p, hmatch, hrun, -, rfl⟩ :=
    serviceSimulation.run h ⟨.of_init hinit, rfl⟩ hord
  rw [← hempty]
  refine ⟨ws.flatten, hrun, ?_⟩
  have hlabels := congrArg (List.map Prod.fst) (Lts.Simulation.labels_flatten _ hmatch)
  simpa [serviceSimulation, List.map_flatMap, Function.comp_def, Transition.label] using hlabels

/-- A device is plugged in, a file taken, written and read; the device is unplugged
under the file, which is given back last. -/
theorem run_refines_service_unplugged : ∃ tr s',
    driverLts.Run (initial 250 1 0 fun _ _ _ => 0) tr s' ∧
    tr.map (·.act) = [.probe (oneBarEnv 0x1000) 7, .openFile {} 0 1,
      .write { fuel := 2 ^ 29 } 1 (fun _ => 5) 4 8, .read { fuel := 2 ^ 29 } 1 (fun _ => 0) 4 8,
      .remove "gpcieuni" 7, .read { fuel := 2 ^ 29 } 1 (fun _ => 0) 4 8, .release false 1] ∧
    ∃ w, WindowService.lts.Run ⟨fun _ => none, fun _ => none, Regs.words fun _ _ _ => 0⟩ w
        s'.toService ∧
      w.map (·.act) = tr.flatMap events ∧ w.length = 6 := by
  obtain ⟨tr, s', hrun, hacts, hend⟩ := Lts.Run.of_exec_map (M := driverLts)
    (g := fun r => (r.1.all fun t => decide (t.pre.Ordered t.act), (r.1.flatMap events).length))
    (v := (true, 6)) (s := initial 250 1 0 fun _ _ _ => 0)
    (l := [.probe (oneBarEnv 0x1000) 7, .openFile {} 0 1,
      .write { fuel := 2 ^ 29 } 1 (fun _ => 5) 4 8, .read { fuel := 2 ^ 29 } 1 (fun _ => 0) 4 8,
      .remove "gpcieuni" 7, .read { fuel := 2 ^ 29 } 1 (fun _ => 0) 4 8, .release false 1])
    (by decide +kernel)
  obtain ⟨hord, hlength⟩ := Prod.mk.inj hend
  have htr : ∀ t ∈ tr, t.pre.Ordered t.act := fun t ht =>
    of_decide_eq_true (List.all_eq_true.mp hord t ht)
  obtain ⟨w, hw, hevents⟩ := run_refines_service ⟨250, 1, 0, _, rfl⟩ hrun htr
  refine ⟨tr, s', hrun, hacts, w, hw, hevents, ?_⟩
  rw [← List.length_map (f := (·.act)), hevents]
  exact hlength

end Runs

end Driver

end Gpcieuni
