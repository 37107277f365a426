-- SUMMARY: The balance of PCI resources: in every state each device holds what its struct says, and a remove releases it once.
import Gpcieuni.Driver.Mutex
import Gpcieuni.Driver.Resources

/-!
# Resource balance

The driver keeps track of what it has acquired in the structs: `msi`, `irq_mode`
and the mappings. The invariant ties these to the answers of the kernel and to
the ledger. Each of the calls is described by what it does to the bound devices
and to their structs; that the accounts stay right follows for all resources at
once from `Ledger.Account.gain` and `Ledger.Account.give`.
-/

namespace Gpcieuni

namespace Plugged

/-- The invariant of the system. -/
structure Inv (config : Bool) (s : Plugged) : Prop where
  slots : s.driver.SlotInv
  free : s.driver.MutexFree
  mapped : ∀ d k, s.BoundAt d k → ∀ n m, ((s.driver.dev k).bar n).memmoryBase = some m →
    m.dev = d ∧ m.bar = n
  msi : ∀ d k, s.BoundAt d k → ((s.driver.dev k).msi ≠ 0 ↔ s.msi d = true)
  noMsi : config = false → ∀ k, (s.driver.dev k).msi = 0
  irq : ∀ d k, s.BoundAt d k → ((s.driver.dev k).irqMode ≠ 0 ↔ s.setup d = some 0)
  accounts : ∀ r, Ledger.Account (s.Holds r) (s.held r)

section Slots

variable {s : Plugged} {d d' : PciDev} {k k' : Slot}

theorem BoundAt.serves (h : s.BoundAt d k) (hs : s.driver.SlotInv) : s.driver.Serves d k :=
  hs.serves_of_drvdata h.1 h.2

theorem BoundAt.slot_unique (h : s.BoundAt d k) (h' : s.BoundAt d k') : k = k' :=
  Option.some.inj (h.2.symm.trans h'.2)

theorem BoundAt.dev_unique (h : s.BoundAt d k) (h' : s.BoundAt d' k) (hs : s.driver.SlotInv) :
    d = d' := by
  by_contra hne
  exact (h.serves hs).slot_ne (h'.serves hs) hne rfl

end Slots

/-! ## What each call does -/

/-- The slots and structs of two states agree on the devices that are bound in the
second, except `d`. -/
structure KeepsOthers (s s' : Plugged) (d : PciDev) : Prop where
  bound : ∀ d', d' ≠ d → (d' ∈ s'.driver.bound ↔ d' ∈ s.driver.bound)
  boundAt : ∀ d', d' ≠ d → ∀ k, s'.BoundAt d' k ↔ s.BoundAt d' k
  dev : ∀ d', d' ≠ d → ∀ k, s.BoundAt d' k → s'.driver.dev k = s.driver.dev k
  setup : ∀ d', d' ≠ d → s'.setup d' = s.setup d'
  msi : ∀ d', d' ≠ d → s'.msi d' = s.msi d'

theorem KeepsOthers.before {s s' : Plugged} {d d' : PciDev} {k : Slot} (h : KeepsOthers s s' d)
    (hd' : d' ≠ d) (hk : s'.BoundAt d' k) :
    s.BoundAt d' k ∧ s'.driver.dev k = s.driver.dev k := by
  have hk₀ := (h.boundAt d' hd' k).mp hk
  exact ⟨hk₀, h.dev d' hd' k hk₀⟩

theorem KeepsOthers.symm {s s' : Plugged} {d : PciDev} (h : KeepsOthers s s' d) :
    KeepsOthers s' s d where
  bound d' hd' := (h.bound d' hd').symm
  boundAt d' hd' k := (h.boundAt d' hd' k).symm
  dev _ hd' _ hk := (h.before hd' hk).2.symm
  setup d' hd' := (h.setup d' hd').symm
  msi d' hd' := (h.msi d' hd').symm

theorem KeepsOthers.after {s s' : Plugged} {d d' : PciDev} {k : Slot} (h : KeepsOthers s s' d)
    (hd' : d' ≠ d) (hk : s.BoundAt d' k) :
    s'.BoundAt d' k ∧ s'.driver.dev k = s.driver.dev k :=
  ⟨(h.boundAt d' hd' k).mpr hk, h.dev d' hd' k hk⟩

theorem step_probe {s s' : Plugged} {env : ProbeEnv} {d : PciDev} {r : PlugRet}
    (h : s.step (.probe env d) = some (s', r)) :
    ∃ driver log, s.driver.exec (.probe env d) = .ok (driver, ⟨r.ret, log⟩) ∧
      r.log = log.map .effect ∧
      s' = { driver
             held := s.post r.log
             setup := Function.update s.setup d none
             msi := Function.update s.msi d (decide (.pciEnableMsi d 0 ∈ log)) } := by
  simp only [step] at h
  split at h
  · cases h
  · rename_i driver r₁ hexec
    cases h
    exact ⟨driver, r₁.log, hexec, rfl, rfl⟩

theorem step_remove {s s' : Plugged} {devName : String} {d : PciDev} {r : PlugRet}
    (h : s.step (.remove devName d) = some (s', r)) :
    ∃ driver log, s.driver.exec (.remove devName d) = .ok (driver, ⟨r.ret, log⟩) ∧
      r.log = log.map .effect ∧ s' = { s with driver, held := s.post r.log } := by
  simp only [step] at h
  split at h
  · cases h
  · rename_i driver r₁ hexec
    cases h
    exact ⟨driver, r₁.log, hexec, rfl, rfl⟩

theorem step_setupInterrupt {s s' : Plugged} {err : Int} {d : PciDev} {r : PlugRet}
    (h : s.step (.setupInterrupt err d) = some (s', r)) :
    ∃ k, s.driver.drvdata d = some k ∧
      r.log = [.requestIrq (s.driver.dev k).pciDevIrq k err] ∧
      s' = { s with
        driver := s.driver.setDev k
          { s.driver.dev k with irqMode := if err = 0 then 1 else 0 }
        held := s.post r.log
        setup := Function.update s.setup d (some err) } := by
  simp only [step] at h
  split at h
  · cases h
  · rename_i k hk
    cases h
    refine ⟨k, hk, rfl, ?_⟩
    by_cases herr : err = 0
    · simp [pcieuniSetupInterrupt, herr]
    · simp [pcieuniSetupInterrupt, herr]

theorem Inv.slots_probe {config : Bool} {s s' : Plugged} {env : ProbeEnv} {d : PciDev}
    {r : PlugRet} (hs : s.Inv config) (hd : d ∉ s.driver.bound)
    (h : s.step (.probe env d) = some (s', r)) : s'.driver.SlotInv ∧ s'.driver.MutexFree := by
  obtain ⟨driver, log, hexec, -, rfl⟩ := step_probe h
  have hadm : s.driver.Admissible (.probe env d) := hd
  exact ⟨hs.slots.exec hadm hexec, (hs.free.exec_iff hexec).mpr trivial⟩

/-! ## What the other devices hold -/

section Others

variable {s s' : Plugged} {d : PciDev}

/-- A device that is not bound holds nothing. -/
theorem BelongsTo.bound (hs : s.driver.SlotInv) {x : Resource} (h : s.BelongsTo d x)
    (hx : s.Holds x) : d ∈ s.driver.bound := by
  cases x with
  | enabled d' | regions d' =>
      obtain rfl : d' = d := h
      exact hx
  | msi d' =>
      obtain rfl : d' = d := h
      exact hx.1
  | mapping m =>
      obtain ⟨d', k, n, hk, hm⟩ := hx
      obtain rfl : d' = d := ((hk.serves hs).mapped n m hm).symm.trans h
      exact hk.1
  | irq n k => exact h.1

/-- When a device goes and the others stay, what is still held is what the others
hold. -/
theorem Holds.without (hs : s.driver.SlotInv) (hkeep : KeepsOthers s s' d)
    (hgone : d ∉ s'.driver.bound) (x : Resource) :
    s'.Holds x ↔ s.Holds x ∧ ¬ s.BelongsTo d x := by
  have hne : ∀ {d' k}, s'.BoundAt d' k → d' ≠ d := fun hk heq => hgone (heq ▸ hk.1)
  have hbound : ∀ d', d' ∈ s'.driver.bound ↔ d' ∈ s.driver.bound ∧ d' ≠ d := by
    intro d'
    by_cases hd' : d' = d
    · subst hd'
      simp [hgone]
    · simp [hkeep.bound d' hd', hd']
  cases x with
  | enabled d' | regions d' => exact hbound d'
  | mapping m =>
      constructor
      · rintro ⟨d', k, n, hk, hm⟩
        obtain ⟨hk₀, hsame⟩ := hkeep.before (hne hk) hk
        rw [hsame] at hm
        refine ⟨⟨d', k, n, hk₀, hm⟩, fun hdev => hne hk ?_⟩
        exact ((hk₀.serves hs).mapped n m hm).symm.trans hdev
      · rintro ⟨⟨d', k, n, hk, hm⟩, hnot⟩
        have hd' : d' ≠ d := by
          rintro rfl
          exact hnot ((hk.serves hs).mapped n m hm)
        obtain ⟨hk', hsame⟩ := hkeep.after hd' hk
        exact ⟨d', k, n, hk', by rw [hsame]; exact hm⟩
  | msi d' =>
      by_cases hd' : d' = d
      · subst hd'
        simp [Holds, BelongsTo, hgone]
      · simp [Holds, BelongsTo, hbound, hd', hkeep.msi d' hd']
  | irq n k =>
      constructor
      · rintro ⟨d', hk, hirq, hzero⟩
        obtain ⟨hk₀, hsame⟩ := hkeep.before (hne hk) hk
        rw [hsame] at hirq
        rw [hkeep.setup d' (hne hk)] at hzero
        exact ⟨⟨d', hk₀, hirq, hzero⟩, fun hk₁ => hne hk (hk₀.dev_unique hk₁ hs)⟩
      · rintro ⟨⟨d', hk, hirq, hzero⟩, hnot⟩
        have hd' : d' ≠ d := by
          rintro rfl
          exact hnot hk
        obtain ⟨hk', hsame⟩ := hkeep.after hd' hk
        refine ⟨d', hk', ?_, ?_⟩
        · rw [hsame]; exact hirq
        · rw [hkeep.setup d' hd']; exact hzero

end Others

/-! ## The probe that succeeds -/

section ProbeOk

variable {config : Bool} {s s' : Plugged} {env : ProbeEnv} {d : PciDev} {r : PlugRet}

/-- The device gets a slot that no bound device has. -/
theorem probe_ok (hs : s.Inv config) (h : s.step (.probe env d) = some (s', r)) (hret : r.ret = 0) :
    ∃ i dv, ∃ _ : ProbeOutcome env s.driver.regs d { s.driver.dev i with binded := 1 } dv,
      KeepsOthers s s' d ∧ (∀ k, s'.BoundAt d k ↔ k = i) ∧ s'.driver.dev i = dv ∧
      (∀ k, k ≠ i → s'.driver.dev k = s.driver.dev k) ∧
      s'.setup d = none ∧ (s'.msi d = true ↔ env.configPciMsi = true ∧ env.enableMsi = 0) ∧
      (∀ d', d' ∈ s'.driver.bound ↔ d' ∈ s.driver.bound ∨ d' = d) ∧
      ∀ r, s'.held r = s.held r + (if ProbeGains env d r then 1 else 0 : Nat) := by
  obtain ⟨driver, log, hexec, hlog, rfl⟩ := step_probe h
  obtain ⟨i, dv, o, devSts, slotNum, hfree, hcalls, rfl⟩ := Driver.exec_probe_ok hexec hret
  have hne : ∀ d' k, s.BoundAt d' k → k ≠ i.castSucc := fun d' k hk =>
    (hk.serves hs.slots).ne_free hfree
  change log = probeCalls o _ _ devSts slotNum at hcalls
  refine ⟨i.castSucc, dv, o, ⟨?_, ?_, ?_, ?_, ?_⟩, ?_, by simp, fun k hk => Driver.setDev_dev_ne hk,
    Function.update_self .., ?_, ?_, ?_⟩
  · intro d' hd'
    simp [hd']
  · intro d' hd' k
    simp [BoundAt, hd']
  · intro d' hd' k hk
    exact Driver.setDev_dev_ne (hne d' k hk)
  · intro d' hd'
    exact Function.update_of_ne hd' _ _
  · intro d' hd'
    exact Function.update_of_ne hd' _ _
  · intro k
    simp [BoundAt, eq_comm]
  · simp only [Function.update_self, decide_eq_true_eq]
    rw [hcalls]
    exact probe_msi o _ _ devSts slotNum
  · intro d'
    simp [or_comm]
  · intro r'
    simp only [post, Ledger.balance, hlog, tally_effects, hcalls, probe_acquires, probe_releases]
    simp

/-- What a probe acquires is what its device holds afterwards. -/
theorem probeGains_iff (hs : s.Inv config) (hd : d ∉ s.driver.bound)
    (h : s.step (.probe env d) = some (s', r)) (hret : r.ret = 0) (x : Resource) :
    ProbeGains env d x ↔ s'.Holds x ∧ s'.BelongsTo d x := by
  obtain ⟨hslots, -⟩ := hs.slots_probe hd h
  obtain ⟨i, dv, o, -, hnew, hdev, -, hsetup, hmsi, hbound, -⟩ := Plugged.probe_ok hs h hret
  have hmem : d ∈ s'.driver.bound := (hbound d).mpr (.inr rfl)
  cases x with
  | enabled d' | regions d' => exact ⟨fun heq => ⟨heq ▸ hmem, heq⟩, fun hx => hx.2⟩
  | mapping m =>
      constructor
      · intro hgain
        have hgain' := probedBar_memmoryBase.mp hgain
        refine ⟨⟨d, i, m.bar, (hnew i).mpr rfl, ?_⟩, hgain'.2.1⟩
        rw [hdev, o.bar, probedBar_memmoryBase]
        exact hgain'
      · rintro ⟨⟨d', k, n, hk, hm⟩, hbelongs⟩
        obtain rfl : d' = d := ((hk.serves hslots).mapped n m hm).symm.trans hbelongs
        obtain rfl := (hnew k).mp hk
        rw [hdev, o.bar, probedBar_memmoryBase] at hm
        obtain ⟨himp, hd', rfl, haddr⟩ := hm
        exact probedBar_memmoryBase.mpr ⟨himp, hd', rfl, haddr⟩
  | msi d' =>
      constructor
      · rintro ⟨rfl, hgain⟩
        exact ⟨⟨hmem, hmsi.mpr hgain⟩, rfl⟩
      · rintro ⟨⟨-, hheld⟩, rfl⟩
        exact ⟨rfl, hmsi.mp hheld⟩
  | irq n k =>
      refine ⟨False.elim, ?_⟩
      rintro ⟨⟨d', hk, -, hzero⟩, hbelongs⟩
      obtain rfl := hk.dev_unique hbelongs hslots
      rw [hsetup] at hzero
      cases hzero

theorem Holds.probe_ok (hs : s.Inv config) (hd : d ∉ s.driver.bound)
    (h : s.step (.probe env d) = some (s', r)) (hret : r.ret = 0) (x : Resource) :
    (s'.Holds x ↔ s.Holds x ∨ ProbeGains env d x) ∧ (ProbeGains env d x → ¬ s.Holds x) := by
  obtain ⟨hslots, -⟩ := hs.slots_probe hd h
  obtain ⟨i, dv, -, hkeep, -⟩ := Plugged.probe_ok hs h hret
  -- seen backwards, the device goes and the others stay
  have hothers := Holds.without hslots hkeep.symm hd x
  have hgains := probeGains_iff hs hd h hret x
  refine ⟨⟨fun hx => ?_, fun hx => ?_⟩, fun hgain hx => ?_⟩
  · by_cases hb : s'.BelongsTo d x
    · exact .inr (hgains.mpr ⟨hx, hb⟩)
    · exact .inl (hothers.mpr ⟨hx, hb⟩)
  · rcases hx with hx | hgain
    · exact (hothers.mp hx).1
    · exact (hgains.mp hgain).1
  · exact (hothers.mp hx).2 (hgains.mp hgain).2

theorem Inv.probe_ok (hs : s.Inv config) (hadm : s.Admissible config (.probe env d))
    (h : s.step (.probe env d) = some (s', r)) (hret : r.ret = 0) : s'.Inv config := by
  obtain ⟨hslots, hfree⟩ := hs.slots_probe hadm.1 h
  have hholds := fun x => Holds.probe_ok hs hadm.1 h hret x
  obtain ⟨i, dv, o, hkeep, hnew, hdev, hrest, hsetup, hmsi, hbound, hheld⟩ :=
    Plugged.probe_ok hs h hret
  have hconfig : env.configPciMsi = config := hadm.2
  -- without MSI in the kernel the field keeps its initial zero
  have hmsi' : dv.msi ≠ 0 ↔ env.configPciMsi = true ∧ env.enableMsi = 0 := by
    rw [o.msi, probedMsi]
    cases hc : env.configPciMsi with
    | true => by_cases herr : env.enableMsi = 0 <;> simp [herr]
    | false => simp [hs.noMsi (hconfig.symm.trans hc) i]
  refine ⟨hslots, hfree, ?_, ?_, ?_, ?_, fun x => ?_⟩
  · intro d' k hk n m hm
    by_cases hd' : d' = d
    · subst hd'
      obtain rfl := (hnew k).mp hk
      rw [hdev, o.bar, probedBar_memmoryBase] at hm
      exact ⟨hm.2.1, hm.2.2.1⟩
    · obtain ⟨hk₀, hsame⟩ := hkeep.before hd' hk
      rw [hsame] at hm
      exact hs.mapped d' k hk₀ n m hm
  · intro d' k hk
    by_cases hd' : d' = d
    · subst hd'
      obtain rfl := (hnew k).mp hk
      rw [hdev, hmsi, hmsi']
    · obtain ⟨hk₀, hsame⟩ := hkeep.before hd' hk
      rw [hsame, hkeep.msi d' hd']
      exact hs.msi d' k hk₀
  · intro hnone k
    by_cases hk : k = i
    · subst hk
      rw [hdev, o.msi, probedMsi, hconfig, hnone]
      exact hs.noMsi hnone k
    · rw [hrest k hk]
      exact hs.noMsi hnone k
  · intro d' k hk
    by_cases hd' : d' = d
    · subst hd'
      obtain rfl := (hnew k).mp hk
      rw [hdev, o.irqMode, hsetup]
      simp
    · obtain ⟨hk₀, hsame⟩ := hkeep.before hd' hk
      rw [hsame, hkeep.setup d' hd']
      exact hs.irq d' k hk₀
  · rw [hheld x]
    exact (hs.accounts x).gain rfl (hholds x).2 (hholds x).1

end ProbeOk

/-! ## Calls after which the device is not bound -/

section Gone

variable {config : Bool} {s s' : Plugged} {d : PciDev}

/-- The invariant when a device goes and the others stay. -/
theorem Inv.without (hs : s.Inv config) (hslots : s'.driver.SlotInv)
    (hfree : s'.driver.MutexFree) (hkeep : KeepsOthers s s' d) (hgone : d ∉ s'.driver.bound)
    (hmsi : ∀ k, (s'.driver.dev k).msi = (s.driver.dev k).msi)
    (haccounts : ∀ x, Ledger.Account (s'.Holds x) (s'.held x)) : s'.Inv config := by
  have hold : ∀ {d' k}, s'.BoundAt d' k → d' ≠ d ∧ s.BoundAt d' k ∧
      s'.driver.dev k = s.driver.dev k := by
    intro d' k hk
    have hd' : d' ≠ d := fun heq => hgone (heq ▸ hk.1)
    exact ⟨hd', hkeep.before hd' hk⟩
  refine ⟨hslots, hfree, ?_, ?_, ?_, ?_, haccounts⟩
  · intro d' k hk n m hm
    obtain ⟨-, hk₀, hdev⟩ := hold hk
    rw [hdev] at hm
    exact hs.mapped d' k hk₀ n m hm
  · intro d' k hk
    obtain ⟨hd', hk₀, hdev⟩ := hold hk
    rw [hdev, hkeep.msi d' hd']
    exact hs.msi d' k hk₀
  · intro hnone k
    rw [hmsi k]
    exact hs.noMsi hnone k
  · intro d' k hk
    obtain ⟨hd', hk₀, hdev⟩ := hold hk
    rw [hdev, hkeep.setup d' hd']
    exact hs.irq d' k hk₀

end Gone

/-! ## The probe that fails -/

section ProbeFailed

variable {config : Bool} {s s' : Plugged} {env : ProbeEnv} {d : PciDev} {r : PlugRet}

/-- What a failing probe acquires it releases. -/
theorem failed_balance {driver driver' : Driver} {env : ProbeEnv} {d : PciDev} {r : OpRet}
    (h : driver.exec (.probe env d) = .ok (driver', r)) (hret : r.ret ≠ 0) (x : Resource) :
    Ledger.balance Effect.entry r.log x = 0 := by
  rcases Driver.exec_probe_failed h hret with hlog | ⟨err, herr, hlog⟩ | ⟨err, herr, hlog⟩
  · simp [Ledger.balance, hlog]
  · simp [Ledger.balance, hlog, Ledger.tally_cons, Effect.entry, herr]
  · cases x with
    | enabled d' => simp [Ledger.balance, hlog, Ledger.tally_cons, Effect.entry, herr]
    | regions | mapping | msi | irq =>
        simp [Ledger.balance, hlog, Ledger.tally_cons, Effect.entry, herr]

theorem probe_failed (hs : s.Inv config) (h : s.step (.probe env d) = some (s', r))
    (hret : r.ret ≠ 0) :
    KeepsOthers s s' d ∧ s'.driver.bound = s.driver.bound ∧
      (∀ k, (s'.driver.dev k).msi = (s.driver.dev k).msi) ∧ s'.held = s.held := by
  obtain ⟨driver, log, hexec, hlog, rfl⟩ := step_probe h
  have hheld : s.post r.log = s.held := by
    funext x
    have hzero := failed_balance hexec hret x
    simp only [Ledger.balance] at hzero
    simp only [post, Ledger.balance, hlog, tally_effects, hzero, Int.add_zero]
  have hsetup : ∀ d', d' ≠ d → Function.update s.setup d none d' = s.setup d' :=
    fun d' hd' => Function.update_of_ne hd' _ _
  have hmsi : ∀ b d', d' ≠ d → Function.update s.msi d b d' = s.msi d' :=
    fun b d' hd' => Function.update_of_ne hd' _ _
  rcases Driver.exec_probe hexec with ⟨-, rfl, -⟩ | ⟨i, drvdata, hfree, -, -, hdrv, rfl⟩ |
      ⟨i, dv, -, -, -, hzero, -, -⟩
  · exact ⟨⟨fun _ _ => .rfl, fun _ _ _ => .rfl, fun _ _ _ _ => rfl, hsetup, hmsi _⟩, rfl,
      fun _ => rfl, hheld⟩
  · refine ⟨⟨fun _ _ => .rfl, ?_, ?_, hsetup, hmsi _⟩, rfl, ?_, hheld⟩
    · intro d' hd' k
      simp [BoundAt, hdrv d' hd']
    · intro d' hd' k hk
      exact Driver.setDev_dev_ne ((hk.serves hs.slots).ne_free hfree)
    · exact Driver.setDev_forall (Q := fun k dv => dv.msi = (s.driver.dev k).msi) rfl
        (fun _ _ => rfl)
  · exact absurd hzero hret

theorem Inv.probe_failed (hs : s.Inv config) (hadm : s.Admissible config (.probe env d))
    (h : s.step (.probe env d) = some (s', r)) (hret : r.ret ≠ 0) : s'.Inv config := by
  obtain ⟨hslots, hfree⟩ := hs.slots_probe hadm.1 h
  obtain ⟨hkeep, hbound, hmsi, hheld⟩ := Plugged.probe_failed hs h hret
  have hgone : d ∉ s'.driver.bound := hbound ▸ hadm.1
  apply hs.without hslots hfree hkeep hgone hmsi
  intro x
  have hholds : s'.Holds x ↔ s.Holds x := by
    rw [Holds.without hs.slots hkeep hgone]
    exact ⟨fun hx => hx.1, fun hx => ⟨hx, fun hd => hadm.1 (hd.bound hs.slots hx)⟩⟩
  rw [hheld, hholds]
  exact hs.accounts x

end ProbeFailed

/-! ## The set-up of the interrupt -/

section SetupInterrupt

variable {config : Bool} {s s' : Plugged} {err : Int} {d : PciDev} {r : PlugRet}

theorem setupInterrupt_ok {k : Slot} (hk : s.BoundAt d k)
    (h : s.step (.setupInterrupt err d) = some (s', r)) :
    s'.driver.bound = s.driver.bound ∧ s'.driver.drvdata = s.driver.drvdata ∧
      (∀ j, s'.driver.dev j = { s.driver.dev j with irqMode := (s'.driver.dev j).irqMode }) ∧
      (∀ j, j ≠ k → s'.driver.dev j = s.driver.dev j) ∧
      ((s'.driver.dev k).irqMode ≠ 0 ↔ err = 0) ∧
      s'.setup = Function.update s.setup d (some err) ∧ s'.msi = s.msi ∧
      ∀ x, s'.held x = s.held x +
        (if err = 0 ∧ x = .irq (s.driver.dev k).pciDevIrq k then 1 else 0 : Nat) := by
  obtain ⟨k', hk', hlog, rfl⟩ := step_setupInterrupt h
  obtain rfl : k' = k := Option.some.inj (hk'.symm.trans hk.2)
  refine ⟨rfl, rfl, ?_, fun j hj => Driver.setDev_dev_ne hj, ?_, rfl, rfl, ?_⟩
  · exact Driver.setDev_forall
      (Q := fun j dv => dv = { s.driver.dev j with irqMode := dv.irqMode }) rfl (fun _ _ => rfl)
  · rw [Driver.setDev_dev_self]
    by_cases herr : err = 0 <;> simp [herr]
  · intro x
    simp only [post, Ledger.balance, hlog, Ledger.tally_cons, Ledger.tally_nil, PlugCall.entry]
    by_cases herr : err = 0 <;> simp [herr, eq_comm]

/-- Only the interrupt of the slot can become held. -/
theorem Holds.setupInterrupt (hs : s.Inv config) {k : Slot} (hk : s.BoundAt d k)
    (hnone : s.setup d = none) (h : s.step (.setupInterrupt err d) = some (s', r))
    (x : Resource) :
    (s'.Holds x ↔ s.Holds x ∨ (err = 0 ∧ x = .irq (s.driver.dev k).pciDevIrq k)) ∧
      (err = 0 ∧ x = .irq (s.driver.dev k).pciDevIrq k → ¬ s.Holds x) := by
  obtain ⟨hbound, hdrv, hdev, -, -, hsetup, hmsi, -⟩ := setupInterrupt_ok hk h
  cases x with
  | enabled | regions | msi => simp [Holds, hbound, hmsi]
  | mapping m =>
      have hbar : ∀ j, (s'.driver.dev j).bar = (s.driver.dev j).bar := fun j => by rw [hdev j]
      simp [Holds, BoundAt, hbound, hdrv, hbar]
  | irq n j =>
      have hirq : (s'.driver.dev j).pciDevIrq = (s.driver.dev j).pciDevIrq := by rw [hdev j]
      refine ⟨?_, ?_⟩
      · simp only [Holds, BoundAt, hirq, hbound, hdrv, hsetup]
        constructor
        · rintro ⟨d', hj, hn, hzero⟩
          by_cases hd' : d' = d
          · subst hd'
            obtain rfl : j = k := Option.some.inj (hj.2.symm.trans hk.2)
            rw [Function.update_self, Option.some.injEq] at hzero
            exact .inr ⟨hzero, by rw [hn]⟩
          · rw [Function.update_of_ne hd'] at hzero
            exact .inl ⟨d', hj, hn, hzero⟩
        · rintro (⟨d', hj, hn, hzero⟩ | ⟨rfl, heq⟩)
          · have hd' : d' ≠ d := by
              rintro rfl
              rw [hnone] at hzero
              cases hzero
            exact ⟨d', hj, hn, by rw [Function.update_of_ne hd']; exact hzero⟩
          · cases heq
            exact ⟨d, hk, rfl, by rw [Function.update_self]⟩
      · rintro ⟨-, heq⟩ ⟨d', hj, -, hzero⟩
        cases heq
        obtain rfl := hk.dev_unique hj hs.slots
        rw [hnone] at hzero
        cases hzero

theorem Inv.setupInterrupt (hs : s.Inv config) (hadm : s.Admissible config (.setupInterrupt err d))
    (h : s.step (.setupInterrupt err d) = some (s', r)) : s'.Inv config := by
  obtain ⟨k, hserves⟩ := hs.slots.serves d hadm.1
  have hk : s.BoundAt d k := ⟨hadm.1, hserves.drvdata⟩
  have hholds := Holds.setupInterrupt hs hk hadm.2 h
  obtain ⟨hbound, hdrv, hdev, hrest, hmode, hsetup, hmsi, hheld⟩ := setupInterrupt_ok hk h
  have hat : ∀ d' j, s'.BoundAt d' j ↔ s.BoundAt d' j := fun d' j => by
    rw [BoundAt, BoundAt, hbound, hdrv]
  have hsame : ∀ j, (s.driver.dev j).SameDevice (s'.driver.dev j) := fun j => by
    rw [hdev j]
    exact ⟨rfl, rfl, rfl, rfl⟩
  refine ⟨⟨hbound ▸ hs.slots.nodup, ?_, (hsame nullSlot).2.2.1.trans hs.slots.null⟩,
    fun j => ?_, ?_, ?_, ?_, ?_, fun x => ?_⟩
  · intro d' hd'
    obtain ⟨j, hj⟩ := hs.slots.serves d' (hbound ▸ hd')
    exact ⟨j, hj.congr hd' (by rw [hdrv]) (hsame j)⟩
  · rw [hdev j]
    exact hs.free j
  · intro d' j hj n m hm
    rw [hdev j] at hm
    exact hs.mapped d' j ((hat d' j).mp hj) n m hm
  · intro d' j hj
    rw [hdev j, hmsi]
    exact hs.msi d' j ((hat d' j).mp hj)
  · intro hconfig j
    rw [hdev j]
    exact hs.noMsi hconfig j
  · intro d' j hj
    have hj₀ := (hat d' j).mp hj
    by_cases hd' : d' = d
    · subst hd'
      obtain rfl := hj₀.slot_unique hk
      rw [hmode, hsetup, Function.update_self, Option.some.injEq]
    · have hne : j ≠ k := by
        rintro rfl
        exact hd' (hj₀.dev_unique hk hs.slots)
      rw [hrest j hne, hsetup, Function.update_of_ne hd']
      exact hs.irq d' j hj₀
  · rw [hheld x]
    exact (hs.accounts x).gain rfl (hholds x).2 (hholds x).1

end SetupInterrupt

/-! ## The remove -/

section Remove

variable {config : Bool} {s s' : Plugged} {devName : String} {d : PciDev} {k : Slot} {r : PlugRet}

/-- A remove releases what its device holds. -/
theorem removeGives_iff (hs : s.Inv config) (hk : s.BoundAt d k) (x : Resource) :
    RemoveGives d k (s.driver.dev k) x ↔ s.Holds x ∧ s.BelongsTo d x := by
  have hpci := (hk.serves hs.slots).pcieuniPciDev
  cases x with
  | enabled d' => exact ⟨fun h => ⟨h ▸ hk.1, h⟩, fun h => h.2⟩
  | regions d' =>
      constructor
      · intro h
        obtain rfl : d = d' := Option.some.inj (hpci.symm.trans h)
        exact ⟨hk.1, rfl⟩
      · rintro ⟨-, rfl⟩
        exact hpci
  | mapping m =>
      constructor
      · intro h
        exact ⟨⟨d, k, m.bar, hk, h⟩, (hs.mapped d k hk _ m h).1⟩
      · rintro ⟨⟨d', k', n, hk', hm⟩, hdev⟩
        obtain ⟨hd', rfl⟩ := hs.mapped d' k' hk' n m hm
        obtain rfl : d' = d := hd'.symm.trans hdev
        obtain rfl := hk'.slot_unique hk
        exact hm
  | msi d' =>
      constructor
      · rintro ⟨hflag, h⟩
        obtain rfl : d = d' := Option.some.inj (hpci.symm.trans h)
        exact ⟨⟨hk.1, (hs.msi d k hk).mp hflag⟩, rfl⟩
      · rintro ⟨⟨-, hmsi⟩, rfl⟩
        exact ⟨(hs.msi d' k hk).mpr hmsi, hpci⟩
  | irq n k' =>
      constructor
      · rintro ⟨hmode, rfl, rfl⟩
        exact ⟨⟨d, hk, rfl, (hs.irq d k' hk).mp hmode⟩, hk⟩
      · rintro ⟨⟨d', hk', rfl, hzero⟩, hbelongs⟩
        obtain rfl := hk'.dev_unique hbelongs hs.slots
        obtain rfl := hk'.slot_unique hk
        exact ⟨(hs.irq d' k' hk').mpr hzero, rfl, rfl⟩

theorem remove_ok (hs : s.Inv config) (hk : s.BoundAt d k)
    (h : s.step (.remove devName d) = some (s', r)) :
    KeepsOthers s s' d ∧ d ∉ s'.driver.bound ∧
      (∀ j, (s'.driver.dev j).msi = (s.driver.dev j).msi) ∧ s'.held = s.post r.log ∧
      (∀ x, Ledger.tally PlugCall.entry r.log (.acquire x) = 0) ∧
      ∀ x, Ledger.tally PlugCall.entry r.log (.release x) =
        if RemoveGives d k (s.driver.dev k) x then 1 else 0 := by
  obtain ⟨driver, log, hexec, hlog, rfl⟩ := step_remove h
  obtain ⟨k₁, p, devno, name, hk₁, hp, -, -, hmsi, hcalls⟩ := Driver.exec_remove_ok hexec
  obtain ⟨k₂, dv, hk₂, -, -, -, -, rfl⟩ := Driver.exec_remove hexec
  obtain rfl : k₁ = k := Option.some.inj (hk₁.symm.trans hk.2)
  obtain rfl : k₂ = k₁ := Option.some.inj (hk₂.symm.trans hk.2)
  have hpci := (hk.serves hs.slots).pcieuniPciDev
  obtain rfl : p = d := Option.some.inj (hp.symm.trans hpci)
  change log = removeCalls p p k₂ (s.driver.dev k₂) devno name at hcalls
  refine ⟨⟨?_, ?_, ?_, fun _ _ => rfl, fun _ _ => rfl⟩, ?_, ?_, rfl, fun x => ?_, fun x => ?_⟩
  · intro d' hd'
    exact List.mem_erase_of_ne hd'
  · intro d' hd' j
    simp [BoundAt, List.mem_erase_of_ne hd']
  · intro d' hd' j hj
    apply Driver.setDev_dev_ne
    exact (hj.serves hs.slots).slot_ne (hk.serves hs.slots) hd'
  · exact fun hmem => (hs.slots.nodup.mem_erase_iff.mp hmem).1 rfl
  · rw [Driver.setDev_dev_self] at hmsi
    exact Driver.setDev_forall (Q := fun j dv => dv.msi = (s.driver.dev j).msi) hmsi
      (fun _ _ => rfl)
  · rw [hlog, tally_effects, hcalls, remove_acquires]
  · rw [hlog, tally_effects, hcalls,
      remove_releases hpci devno name fun n m hm => (hs.mapped p k₂ hk n m hm).2]

theorem Inv.remove (hs : s.Inv config) (hadm : s.Admissible config (.remove devName d))
    (h : s.step (.remove devName d) = some (s', r)) : s'.Inv config := by
  have hadm' : s.driver.Admissible (.remove devName d) := hadm
  have hslots : s'.driver.SlotInv ∧ s'.driver.MutexFree := by
    obtain ⟨driver, log, hexec, -, rfl⟩ := step_remove h
    exact ⟨hs.slots.exec hadm' hexec, (hs.free.exec_iff hexec).mpr trivial⟩
  obtain ⟨k, hserves⟩ := hs.slots.serves d hadm
  have hk : s.BoundAt d k := ⟨hadm, hserves.drvdata⟩
  obtain ⟨hkeep, hgone, hmsi, hheld, hacquires, hreleases⟩ := remove_ok hs hk h
  apply hs.without hslots.1 hslots.2 hkeep hgone hmsi
  intro x
  have hpost : s'.held x = s.held x -
      (if RemoveGives d k (s.driver.dev k) x then 1 else 0 : Nat) := by
    rw [hheld, post, Ledger.balance, hacquires, hreleases]
    omega
  rw [hpost]
  apply (hs.accounts x).give rfl (fun hx => ((removeGives_iff hs hk x).mp hx).1)
  rw [Holds.without hs.slots hkeep hgone, removeGives_iff hs hk]
  exact ⟨fun hx => ⟨hx.1, fun hb => hx.2 hb.2⟩, fun hx => ⟨hx.1, fun hb => hx.2 ⟨hx.1, hb⟩⟩⟩

/-- The remove of a bound device returns. -/
theorem remove_returns (hs : s.Inv config) (hd : d ∈ s.driver.bound) (devName : String) :
    ∃ s' r, s.step (.remove devName d) = some (s', r) := by
  obtain ⟨k, hk⟩ := hs.slots.serves d hd
  have hlock : mutexLock (s.driver.dev k).devMut = .acquired :=
    mutexLock_acquired.mpr (hs.free k)
  simp [step, Driver.exec, pcieuniRemoveExp, hk.drvdata, hk.pcieuniPciDev, hlock]

end Remove

/-! ## Whole runs -/

theorem Inv.of_init {config : Bool} {s : Plugged} (h : plugLts.init s) : s.Inv config := by
  obtain ⟨hdriver, hheld, hsetup, hmsi⟩ := h
  have hslots : s.driver.SlotInv := .of_init hdriver
  obtain ⟨major, verMaj, verMin, regs, hinit⟩ := hdriver
  have hnone : ∀ d k, ¬ s.BoundAt d k := fun d k hk => by simp [BoundAt, hinit, Driver.initial] at hk
  have hholds : ∀ x, ¬ s.Holds x := by
    intro x hx
    cases x with
    | enabled | regions | msi => simp [Holds, hinit, Driver.initial] at hx
    | mapping m =>
        obtain ⟨d, k, n, hk, -⟩ := hx
        exact hnone d k hk
    | irq n k =>
        obtain ⟨d, hk, -⟩ := hx
        exact hnone d k hk
  refine ⟨hslots, fun k => by rw [hinit]; rfl, fun d k hk => absurd hk (hnone d k),
    fun d k hk => absurd hk (hnone d k), fun _ k => by rw [hinit]; rfl,
    fun d k hk => absurd hk (hnone d k), fun x => ?_⟩
  exact ⟨fun hx => absurd hx (hholds x), fun _ => by rw [hheld]⟩

/-- Every admissible call keeps the invariant. -/
theorem Inv.step {config : Bool} {s s' : Plugged} {op : PlugOp} {r : PlugRet} (hs : s.Inv config)
    (hadm : s.Admissible config op) (h : s.step op = some (s', r)) : s'.Inv config := by
  cases op with
  | probe env d =>
      by_cases hret : r.ret = 0
      · exact hs.probe_ok hadm h hret
      · exact hs.probe_failed hadm h hret
  | setupInterrupt err d => exact hs.setupInterrupt hadm h
  | remove devName d => exact hs.remove hadm h

/-- The balance over every run of probes, interrupt set-ups and removes. In every
state reached each resource is held once if the driver knows of it and not at
all otherwise, and different BARs have different mappings. A remove acquires
nothing, releases what its device holds once and nothing else, and leaves it
with nothing; the remove of a bound device always returns. A probe that fails
changes nothing of what is held, and its device holds nothing. -/
theorem run_resources {config : Bool} {s s' : Plugged}
    {tr : List (Transition Plugged PlugOp PlugRet)} (h : plugLts.Run s tr s')
    (hinit : plugLts.init s) (hadm : ∀ t ∈ tr, t.pre.Admissible config t.act) :
    (∀ x, Ledger.Account (s'.Holds x) (s'.held x)) ∧
    (∀ d k, s'.BoundAt d k → ∀ n m, ((s'.driver.dev k).bar n).memmoryBase = some m →
      m.dev = d ∧ m.bar = n) ∧
    (∀ d ∈ s'.driver.bound, ∀ devName, ∃ s'' r,
      plugLts.step s' (.remove devName d) = some (s'', r)) ∧
    (∀ t ∈ tr, ∀ devName d, t.act = .remove devName d → ∀ x,
      Ledger.tally PlugCall.entry t.out.log (.acquire x) = 0 ∧
      Ledger.Account (t.pre.Holds x ∧ t.pre.BelongsTo d x)
        (Ledger.tally PlugCall.entry t.out.log (.release x)) ∧
      (t.pre.BelongsTo d x → t.post.held x = 0)) ∧
    (∀ t ∈ tr, ∀ env d, t.act = .probe env d → t.out.ret ≠ 0 →
      t.post.held = t.pre.held ∧ ∀ x, t.post.BelongsTo d x → t.post.held x = 0) := by
  obtain ⟨hend, hall⟩ := h.preserves (I := Inv config) (P := Admissible config)
    (fun s op s' r hs hP hstep => hs.step hP hstep) (.of_init hinit) hadm
  refine ⟨hend.accounts, hend.mapped, fun d hd devName => remove_returns hend hd devName, ?_, ?_⟩
  · intro t ht devName d hact x
    obtain ⟨hpre, hpost⟩ := hall t ht
    have hstep := h.step_of_mem ht
    have hd := hadm t ht
    rw [hact] at hstep hd
    obtain ⟨k, hserves⟩ := hpre.slots.serves d hd
    have hk : t.pre.BoundAt d k := ⟨hd, hserves.drvdata⟩
    obtain ⟨hkeep, hgone, -, -, hacquires, hreleases⟩ := remove_ok hpre hk hstep
    have hgives := removeGives_iff hpre hk x
    refine ⟨hacquires x, ⟨fun hx => ?_, fun hx => ?_⟩, fun hb => ?_⟩
    · rw [hreleases, if_pos (hgives.mpr hx)]
      rfl
    · rw [hreleases, if_neg (fun hr => hx (hgives.mp hr))]
      rfl
    · apply (hpost.accounts x).2
      intro hx
      exact ((Holds.without hpre.slots hkeep hgone x).mp hx).2 hb
  · intro t ht env d hact hret
    obtain ⟨hpre, hpost⟩ := hall t ht
    have hstep := h.step_of_mem ht
    have hd := hadm t ht
    rw [hact] at hstep hd
    obtain ⟨hkeep, hbound, -, hheld⟩ := probe_failed hpre hstep hret
    refine ⟨hheld, fun x hb => (hpost.accounts x).2 fun hx => hd.1 ?_⟩
    rw [← hbound]
    exact hb.bound hpost.slots hx

/-- A card with one BAR and MSI. -/
private def msiCard : ProbeEnv where
  resource n := if n = 0 then { start := 0x1000, stop := 0x1fff } else {}
  iomap n := if n = 0 then some 0x10000 else none
  irq := 40
  fuel := 1

private def unplugged : Plugged where
  driver := .initial 250 1 0 fun _ _ _ => 0
  held _ := 0
  setup _ := none
  msi _ := false

/-- A probe of that card, the set-up of its interrupt, a probe of a second card
that fails, and the remove of the first. -/
theorem run_resources_oneCard : ∃ tr s',
    plugLts.Run unplugged tr s' ∧
    tr.map (·.act) = [.probe msiCard 7, .setupInterrupt 0 7,
      .probe { msiCard with requestRegions := -16 } 8, .remove "gpcieuni" 7] ∧
    (tr.map fun t => [t.post.held (.enabled 7), t.post.held (.mapping ⟨7, 0, 0x10000⟩),
      t.post.held (.irq 40 0), t.post.held (.enabled 8)]) =
        [[1, 1, 0, 0], [1, 1, 1, 0], [1, 1, 1, 0], [0, 0, 0, 0]] ∧
    (∀ x, Ledger.Account (s'.Holds x) (s'.held x)) ∧
    ∀ t ∈ tr, t.act = .remove "gpcieuni" 7 → ∀ x, t.pre.BelongsTo 7 x → t.post.held x = 0 := by
  obtain ⟨tr, s', hrun, hacts, hend⟩ := Lts.Run.of_exec_map (M := plugLts)
    (g := fun r => (r.1.all fun t => decide (t.pre.Admissible true t.act),
      r.1.map fun t => [t.post.held (.enabled 7), t.post.held (.mapping ⟨7, 0, 0x10000⟩),
        t.post.held (.irq 40 0), t.post.held (.enabled 8)]))
    (v := (true, [[1, 1, 0, 0], [1, 1, 1, 0], [1, 1, 1, 0], [0, 0, 0, 0]])) (s := unplugged)
    (l := [.probe msiCard 7, .setupInterrupt 0 7,
      .probe { msiCard with requestRegions := -16 } 8, .remove "gpcieuni" 7]) (by decide +kernel)
  obtain ⟨hadm, hheld⟩ := Prod.mk.inj hend
  obtain ⟨haccounts, -, -, hremove, -⟩ := @run_resources true _ _ _ hrun
    ⟨⟨250, 1, 0, _, rfl⟩, rfl, rfl, rfl⟩ (by simpa using hadm)
  exact ⟨tr, s', hrun, hacts, hheld, haccounts, fun t ht hact x hb =>
    (hremove t ht "gpcieuni" 7 hact x).2.2 hb⟩

end Plugged

end Gpcieuni
