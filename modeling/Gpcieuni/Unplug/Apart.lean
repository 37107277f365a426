-- SUMMARY: One device at a slot when probes and removes overlap: exactly when no probe takes the slot that it has found while another device is there.
import Gpcieuni.Lib.Threads
import Gpcieuni.Unplug.Moves

/-!
# Devices apart

A slot is with a device from the moment its probe sets `binded` to the end of its remove.
Two things can bring another device there: a probe sets the flag that it has seen clear
some time ago, and a remove clears it before it is through with the files.
-/

namespace Gpcieuni

namespace Unplug

/-- The slot where a thread sets up or takes down a device. -/
def Pc.holds : Pc → Option (PciDev × Slot)
  | .filling d i => some (d, i.castSucc)
  | .detaching d k => some (d, k)
  | .idle | .opening .. | .releasing .. | .searching .. | .probing .. => none

def Pc.isDetaching : Pc → Bool
  | .detaching .. => true
  | .idle | .opening .. | .releasing .. | .searching .. | .probing .. | .filling .. => false

namespace State

/-- A probe or a remove of `d` is under way. -/
def Busy (s : State) (d : PciDev) : Prop := ∃ t, (s.thread t).device = some d

/-- A remove is taking the files off slot `k`. -/
def Removing (s : State) (k : Slot) : Prop := ∃ t d, s.thread t = .detaching d k

/-- The device `d` is being set up at slot `k`, or present there, or being removed. -/
def At (s : State) (d : PciDev) (k : Slot) : Prop :=
  s.drv.occupant k = some d ∨ ∃ t, (s.thread t).holds = some (d, k)

end State

/-- The driver core probes devices that are not bound and removes devices that are, and
one call at a time for each device. -/
def Admissible (s : State) : Act → Prop
  | .callProbe _ d => d ∉ s.drv.bound ∧ ¬ s.Busy d
  | .lockRemove _ d => d ∈ s.drv.bound ∧ ¬ s.Busy d
  | _ => True

/-! ## Devices and their threads -/

/-- What holds in every run of admissible calls: a device that is present is bound and at
rest, and one thread at most is busy with a device. -/
structure Sound (s : State) : Prop where
  null : (s.drv.dev nullSlot).devSts = 0
  owner : ∀ k d, s.drv.occupant k = some d →
    d ∈ s.drv.bound ∧ s.drv.drvdata d = some k ∧ ¬ s.Busy d
  stage : ∀ t d, (s.thread t).device = some d →
    (d ∈ s.drv.bound ↔ (s.thread t).isDetaching = true)
  lone : ∀ t u d, (s.thread t).device = some d → (s.thread u).device = some d → t = u
  nodup : s.drv.bound.Nodup

theorem Pc.device_of_holds {pc : Pc} {d : PciDev} {k : Slot} (h : pc.holds = some (d, k)) :
    pc.device = some d := by
  cases pc <;> simp [holds] at h <;> simp [device, h]

section Threads

variable {s s' : State} {t : Tid} {pc : Pc} {d : PciDev}

theorem SamePlaces.occupant (h : SamePlaces s s') (k : Slot) :
    s'.drv.occupant k = s.drv.occupant k := by
  rw [Driver.occupant, Driver.occupant, h.devSts, h.pcieuniPciDev]

theorem occupant_of_absent {k : Slot} (h : (s.drv.dev k).devSts = 0) : s.drv.occupant k = none :=
  if_pos h

theorem occupant_congr {k : Slot} (h : s'.drv.dev k = s.drv.dev k) :
    s'.drv.occupant k = s.drv.occupant k := by
  rw [Driver.occupant, Driver.occupant, h]

/-- A device that is busy after a step is so in the thread that moved, or was before. -/
theorem busy_update (h : s'.thread = Function.update s.thread t pc) (hd : s'.Busy d) :
    pc.device = some d ∨ ∃ u, u ≠ t ∧ (s.thread u).device = some d := by
  obtain ⟨u, hu⟩ := hd
  rw [h] at hu
  by_cases hut : u = t
  · rw [hut, Function.update_self] at hu
    exact .inl hu
  · rw [Function.update_of_ne hut] at hu
    exact .inr ⟨u, hut, hu⟩

/-- A device stays idle when the thread that moves does not take it up. -/
theorem idle_update (h : s'.thread = Function.update s.thread t pc) (hidle : ¬ s.Busy d)
    (hpc : pc.device = some d → s.Busy d) : ¬ s'.Busy d := by
  intro hd
  rcases busy_update h hd with hself | ⟨u, -, hu⟩
  · exact hidle (hpc hself)
  · exact hidle ⟨u, hu⟩

theorem stage_update (hs : Sound s) (h : s'.thread = Function.update s.thread t pc)
    (hpc : ∀ d, pc.device = some d → (d ∈ s'.drv.bound ↔ pc.isDetaching = true))
    (hbound : ∀ u d, u ≠ t → (s.thread u).device = some d →
      (d ∈ s'.drv.bound ↔ d ∈ s.drv.bound)) (u : Tid) (d : PciDev)
    (hu : (s'.thread u).device = some d) :
    d ∈ s'.drv.bound ↔ (s'.thread u).isDetaching = true := by
  rw [h] at hu ⊢
  by_cases hut : u = t
  · subst hut
    rw [Function.update_self] at hu ⊢
    exact hpc d hu
  · rw [Function.update_of_ne hut] at hu ⊢
    exact (hbound u d hut hu).trans (hs.stage u d hu)

theorem lone_update (hs : Sound s) (h : s'.thread = Function.update s.thread t pc)
    (hpc : ∀ d, pc.device = some d → ∀ u, u ≠ t → (s.thread u).device ≠ some d) (u v : Tid)
    (d : PciDev) (hu : (s'.thread u).device = some d) (hv : (s'.thread v).device = some d) :
    u = v := by
  rw [h] at hu hv
  by_cases hut : u = t <;> by_cases hvt : v = t
  · rw [hut, hvt]
  · subst hut
    rw [Function.update_self] at hu
    rw [Function.update_of_ne hvt] at hv
    exact absurd hv (hpc d hu v hvt)
  · subst hvt
    rw [Function.update_self] at hv
    rw [Function.update_of_ne hut] at hu
    exact absurd hu (hpc d hv u hut)
  · rw [Function.update_of_ne hut] at hu
    rw [Function.update_of_ne hvt] at hv
    exact hs.lone u v d hu hv

/-- A device that another thread is busy with is not that of the thread that moves. -/
theorem Sound.device_ne (hs : Sound s) {u : Tid} {d d' : PciDev} (hut : u ≠ t)
    (hd : (s.thread t).device = some d) (hd' : (s.thread u).device = some d') : d' ≠ d := by
  rintro rfl
  exact hut (hs.lone u t d' hd' hd)

/-- A step that neither starts nor ends a probe or a remove. -/
theorem Sound.of_same (hs : Sound s) (threads : s'.thread = Function.update s.thread t pc)
    (places : SamePlaces s s') (devices : SameDevices s s')
    (hpc : pc.device = none ∨ (pc.device = (s.thread t).device ∧
      pc.isDetaching = (s.thread t).isDetaching)) : Sound s' := by
  have hdevice : ∀ d, pc.device = some d → (s.thread t).device = some d ∧
      pc.isDetaching = (s.thread t).isDetaching := by
    intro d hd
    rcases hpc with hnone | ⟨hsame, hdet⟩
    · rw [hd] at hnone
      cases hnone
    · exact ⟨hsame ▸ hd, hdet⟩
  constructor
  · exact (places.devSts nullSlot).trans hs.null
  · intro k d hd
    rw [places.occupant] at hd
    rw [devices.bound, devices.drvdata]
    obtain ⟨hbound, hslot, hidle⟩ := hs.owner k d hd
    exact ⟨hbound, hslot, idle_update threads hidle fun hself => ⟨t, (hdevice d hself).1⟩⟩
  · apply stage_update hs threads
    · intro d hd
      rw [devices.bound, (hdevice d hd).2]
      exact hs.stage t d (hdevice d hd).1
    · intro u d _ _
      rw [devices.bound]
  · apply lone_update hs threads
    intro d hd u hut hu
    exact hs.device_ne hut (hdevice d hd).1 hu rfl
  · rw [devices.bound]
    exact hs.nodup

/-- The probe of a device that is neither bound nor busy begins. -/
theorem Sound.searches (hs : Sound s) {is : List (Fin pcieuniNrDevs)} (hunbound : d ∉ s.drv.bound)
    (hidle : ¬ s.Busy d) (drv : s'.drv = s.drv)
    (threads : s'.thread = Function.update s.thread t (.searching d is)) : Sound s' := by
  constructor
  · rw [drv]
    exact hs.null
  · intro k d' hd'
    obtain ⟨hbound, hslot, hidle'⟩ := hs.owner k d' (drv ▸ hd')
    rw [drv]
    refine ⟨hbound, hslot, idle_update threads hidle' fun hself => ?_⟩
    obtain rfl : d = d' := Option.some.inj hself
    exact absurd hbound hunbound
  · apply stage_update hs threads
    · intro d' hd'
      obtain rfl : d = d' := Option.some.inj hd'
      simpa [drv, Pc.isDetaching] using hunbound
    · intro u d' _ _
      rw [drv]
  · apply lone_update hs threads
    intro d' hd' u _ hu
    obtain rfl : d = d' := Option.some.inj hd'
    exact hidle ⟨u, hu⟩
  · rw [drv]
    exact hs.nodup

/-- A device that is set up is not bound yet. -/
theorem Sound.unbound_of_filling (hs : Sound s) {i : Fin pcieuniNrDevs}
    (before : s.thread t = .filling d i) : d ∉ s.drv.bound := by
  have hstage := hs.stage t d (by rw [before]; rfl)
  simp [hstage, before, Pc.isDetaching]

/-- The kernel refuses to enable the device, or its regions. -/
theorem Sound.spoils (hs : Sound s) {i : Fin pcieuniNrDevs} (before : s.thread t = .filling d i)
    (threads : s'.thread = Function.update s.thread t .idle) (dev : s'.drv.dev = s.drv.dev)
    (drvdata : ∀ d', d' ≠ d → s'.drv.drvdata d' = s.drv.drvdata d')
    (bound : s'.drv.bound = s.drv.bound) : Sound s' := by
  have hunbound := hs.unbound_of_filling before
  constructor
  · rw [dev]
    exact hs.null
  · intro k d' hd'
    rw [occupant_congr (congrFun dev k)] at hd'
    obtain ⟨hbound, hslot, hidle⟩ := hs.owner k d' hd'
    have hne : d' ≠ d := by
      rintro rfl
      exact hunbound hbound
    rw [bound, drvdata d' hne]
    exact ⟨hbound, hslot, idle_update threads hidle (by simp [Pc.device])⟩
  · exact stage_update hs threads (by simp [Pc.device]) fun u d' _ _ => by rw [bound]
  · exact lone_update hs threads (by simp [Pc.device])
  · rw [bound]
    exact hs.nodup

/-- The device is bound and present. -/
theorem Sound.fills (hs : Sound s) {i : Fin pcieuniNrDevs} (before : s.thread t = .filling d i)
    (threads : s'.thread = Function.update s.thread t .idle)
    (others : ∀ j, j ≠ i.castSucc → s'.drv.dev j = s.drv.dev j)
    (here : s'.drv.occupant i.castSucc = some d)
    (drvdata : s'.drv.drvdata = Function.update s.drv.drvdata d (some i.castSucc))
    (bound : s'.drv.bound = d :: s.drv.bound) : Sound s' := by
  have hbusy : (s.thread t).device = some d := by rw [before]; rfl
  have hunbound := hs.unbound_of_filling before
  constructor
  · rw [others nullSlot i.castSucc_ne_last.symm]
    exact hs.null
  · intro k d' hd'
    rw [bound, drvdata]
    by_cases hk : k = i.castSucc
    · rw [hk, here] at hd'
      obtain rfl : d = d' := Option.some.inj hd'
      refine ⟨List.mem_cons_self .., by rw [hk, Function.update_self], fun hbusy' => ?_⟩
      obtain ⟨u, hut, hu⟩ := (busy_update threads hbusy').resolve_left (by simp [Pc.device])
      exact hs.device_ne hut hbusy hu rfl
    · rw [occupant_congr (others k hk)] at hd'
      obtain ⟨hbound, hslot, hidle⟩ := hs.owner k d' hd'
      have hne : d' ≠ d := by
        rintro rfl
        exact hunbound hbound
      exact ⟨List.mem_cons_of_mem _ hbound, by rw [Function.update_of_ne hne, hslot],
        idle_update threads hidle (by simp [Pc.device])⟩
  · apply stage_update hs threads (by simp [Pc.device])
    intro u d' hut hu
    rw [bound, List.mem_cons, or_iff_right (hs.device_ne hut hbusy hu)]
  · exact lone_update hs threads (by simp [Pc.device])
  · rw [bound]
    exact List.nodup_cons.mpr ⟨hunbound, hs.nodup⟩

/-- The remove of a device that is bound and at rest begins. -/
theorem Sound.closes (hs : Sound s) {k : Slot} (hbound : d ∈ s.drv.bound) (hidle : ¬ s.Busy d)
    (threads : s'.thread = Function.update s.thread t (.detaching d k))
    (slot : s.drv.drvdata d = some k) (others : ∀ j, j ≠ k → s'.drv.dev j = s.drv.dev j)
    (gone : (s'.drv.dev k).devSts = 0) (devices : SameDevices s s') : Sound s' := by
  constructor
  · by_cases hk : nullSlot = k
    · rw [hk]
      exact gone
    · rw [others _ hk]
      exact hs.null
  · intro j d' hd'
    rw [devices.bound, devices.drvdata]
    have hj : j ≠ k := by
      rintro rfl
      rw [occupant_of_absent gone] at hd'
      cases hd'
    rw [occupant_congr (others j hj)] at hd'
    obtain ⟨hbound', hslot, hidle'⟩ := hs.owner j d' hd'
    refine ⟨hbound', hslot, idle_update threads hidle' fun hself => ?_⟩
    obtain rfl : d = d' := Option.some.inj hself
    exact absurd (Option.some.inj (hslot.symm.trans slot)) hj
  · apply stage_update hs threads
    · intro d' hd'
      obtain rfl : d = d' := Option.some.inj hd'
      simpa [devices.bound, Pc.isDetaching] using hbound
    · intro u d' _ _
      rw [devices.bound]
  · apply lone_update hs threads
    intro d' hd' u _ hu
    obtain rfl : d = d' := Option.some.inj hd'
    exact hidle ⟨u, hu⟩
  · rw [devices.bound]
    exact hs.nodup

/-- The remove is through, and the device is not bound any more. -/
theorem Sound.ends (hs : Sound s) {k : Slot} (before : s.thread t = .detaching d k)
    (threads : s'.thread = Function.update s.thread t .idle) (places : SamePlaces s s')
    (drvdata : s'.drv.drvdata = s.drv.drvdata) (bound : s'.drv.bound = s.drv.bound.erase d) :
    Sound s' := by
  have hbusy : (s.thread t).device = some d := by rw [before]; rfl
  constructor
  · exact (places.devSts nullSlot).trans hs.null
  · intro j d' hd'
    rw [places.occupant] at hd'
    obtain ⟨hbound, hslot, hidle⟩ := hs.owner j d' hd'
    have hne : d' ≠ d := by
      rintro rfl
      exact hidle ⟨t, hbusy⟩
    rw [bound, drvdata]
    exact ⟨(List.mem_erase_of_ne hne).mpr hbound, hslot,
      idle_update threads hidle (by simp [Pc.device])⟩
  · apply stage_update hs threads (by simp [Pc.device])
    intro u d' hut hu
    rw [bound, List.mem_erase_of_ne (hs.device_ne hut hbusy hu)]
  · exact lone_update hs threads (by simp [Pc.device])
  · rw [bound]
    exact hs.nodup.erase d

end Threads

theorem Sound.step {s s' : State} {a : Act} {r : Option Int} (hs : Sound s)
    (hadm : Admissible s a) (h : unplugLts.step s a = some (s', r)) : Sound s' := by
  cases step_move h with
  | calm pc _ after threads places devices => exact hs.of_same threads places devices (.inl after)
  | opens _ _ _ threads places devices | releases _ _ _ threads places devices =>
      exact hs.of_same threads places devices (.inl rfl)
  | searches d is _ drv threads => exact hs.searches hadm.1 hadm.2 drv threads
  | looks d is pc before after drv threads =>
      have hdev : s'.drv.dev = s.drv.dev := by rw [drv]
      refine hs.of_same threads (samePlaces_of_dev hdev) ⟨by rw [drv], by rw [drv]⟩ ?_
      rw [before]
      rcases after with rfl | ⟨i, rfl⟩ | ⟨is', rfl⟩
      · exact .inl rfl
      · exact .inr ⟨rfl, rfl⟩
      · exact .inr ⟨rfl, rfl⟩
  | claims d i before threads places devices =>
      exact hs.of_same threads places devices (.inr (by simp [before, Pc.device, Pc.isDetaching]))
  | spoils d i before threads dev drvdata bound =>
      exact hs.spoils before threads dev drvdata bound
  | fills d i before threads others here _ drvdata bound =>
      exact hs.fills before threads others here drvdata bound
  | closes k _ threads slot others gone devices =>
      exact hs.closes hadm.1 hadm.2 threads slot others gone devices
  | @detaches t _ d k e _ threads places devices =>
      have hthreads : s'.thread = Function.update s.thread t (s.thread t) := by
        rw [threads, Function.update_eq_self]
      exact hs.of_same hthreads places devices (.inr ⟨rfl, rfl⟩)
  | ends d k before threads places drvdata bound =>
      exact hs.ends before threads places drvdata bound

/-! ## One device at a slot -/

/-- No slot is with two devices. -/
def Apart (s : State) : Prop := ∀ k d d', s.At d k → s.At d' k → d = d'

/-- A probe takes a slot that no device is at. -/
def ClaimsEmpty (s : State) : Act → Prop
  | .claim t => ∀ d i, s.thread t = .probing d i → ∀ d', ¬ s.At d' i.castSucc
  | _ => True

/-- A probe still finds the flag of its slot clear, and no remove at work there. -/
def ClaimsClear (s : State) : Act → Prop
  | .claim t => ∀ d i, s.thread t = .probing d i →
      (s.drv.dev i.castSucc).binded = 0 ∧ ¬ s.Removing i.castSucc
  | _ => True

/-- What holds as long as the devices are apart: a device that is bound is present at its
slot or being removed from it, and a device that comes or is present has its slot marked. -/
structure Settled (s : State) : Prop where
  sound : Sound s
  apart : Apart s
  serves : ∀ d ∈ s.drv.bound, ∃ k, s.drv.drvdata d = some k ∧
    (s.drv.occupant k = some d ∨ ∃ t, s.thread t = .detaching d k)
  present : ∀ k d, s.drv.occupant k = some d → (s.drv.dev k).binded ≠ 0
  coming : ∀ t d i, s.thread t = .filling d i → (s.drv.dev i.castSucc).binded ≠ 0

section Steps

variable {s s' : State} {a : Act} {r : Option Int} {d : PciDev} {k : Slot}

theorem at_update {t : Tid} {pc : Pc} (threads : s'.thread = Function.update s.thread t pc)
    (hocc : s'.drv.occupant k = some d → s.At d k) (hpc : pc.holds = some (d, k) → s.At d k)
    (h : s'.At d k) : s.At d k := by
  rcases h with hd | ⟨u, hu⟩
  · exact hocc hd
  · rw [threads] at hu
    by_cases hut : u = t
    · rw [hut, Function.update_self] at hu
      exact hpc hu
    · rw [Function.update_of_ne hut] at hu
      exact .inr ⟨u, hu⟩

/-- A device that is to be removed is present at its slot. -/
theorem Settled.occupant_of_idle (hs : Settled s) (hbound : d ∈ s.drv.bound) (hidle : ¬ s.Busy d)
    (hslot : s.drv.drvdata d = some k) : s.drv.occupant k = some d := by
  obtain ⟨j, hj, hplace⟩ := hs.serves d hbound
  obtain rfl : j = k := Option.some.inj (hj.symm.trans hslot)
  rcases hplace with hocc | ⟨t, ht⟩
  · exact hocc
  · exact absurd ⟨t, by rw [ht]; rfl⟩ hidle

/-- Only a probe that takes its slot brings a device to a slot. -/
theorem Settled.at_before (hs : Settled s) (hadm : Admissible s a)
    (h : unplugLts.step s a = some (s', r)) (hat : s'.At d k) :
    s.At d k ∨ ∃ t i, a = .claim t ∧ s.thread t = .probing d i ∧ k = i.castSucc := by
  cases step_move h with
  | calm pc _ after threads places =>
      refine .inl (at_update threads (fun hd => .inl (places.occupant k ▸ hd)) ?_ hat)
      intro hpc
      rw [Pc.device_of_holds hpc] at after
      cases after
  | opens _ _ _ threads places | releases _ _ _ threads places | ends _ _ _ threads places =>
      exact .inl (at_update threads (fun hd => .inl (places.occupant k ▸ hd)) (by simp [Pc.holds])
        hat)
  | searches d' is _ drv threads =>
      exact .inl (at_update threads (fun hd => .inl (drv ▸ hd)) (by simp [Pc.holds]) hat)
  | looks d' is pc _ after drv threads =>
      refine .inl (at_update threads (fun hd => .inl (drv ▸ hd)) (fun hpc => ?_) hat)
      rcases after with rfl | ⟨i, rfl⟩ | ⟨is', rfl⟩ <;> cases hpc
  | @claims t _ d' i before threads places =>
      by_cases hnew : d' = d ∧ i.castSucc = k
      · obtain ⟨rfl, rfl⟩ := hnew
        exact .inr ⟨t, i, rfl, before, rfl⟩
      · refine .inl (at_update threads (fun hd => .inl (places.occupant k ▸ hd)) ?_ hat)
        intro hpc
        exact absurd (by simpa [Pc.holds] using hpc) hnew
  | spoils _ _ _ threads dev =>
      exact .inl (at_update threads (fun hd => .inl (occupant_congr (congrFun dev k) ▸ hd))
        (by simp [Pc.holds]) hat)
  | @fills t _ d' i before threads others here =>
      refine .inl (at_update threads (fun hd => ?_) (by simp [Pc.holds]) hat)
      by_cases hk : k = i.castSucc
      · rw [hk, here] at hd
        obtain rfl := Option.some.inj hd
        exact .inr ⟨t, by rw [before, hk]; rfl⟩
      · exact .inl (occupant_congr (others k hk) ▸ hd)
  | @closes t d' _ k' before threads slot others gone =>
      refine .inl (at_update threads (fun hd => ?_) (fun hpc => ?_) hat)
      · by_cases hk : k = k'
        · rw [hk, occupant_of_absent gone] at hd
          cases hd
        · exact .inl (occupant_congr (others k hk) ▸ hd)
      · obtain ⟨rfl, rfl⟩ : d' = d ∧ k' = k := by simpa [Pc.holds] using hpc
        exact .inl (hs.occupant_of_idle hadm.1 hadm.2 slot)
  | detaches _ _ _ _ threads places =>
      rcases hat with hd | ⟨u, hu⟩
      · exact .inl (.inl (places.occupant k ▸ hd))
      · exact .inl (.inr ⟨u, threads ▸ hu⟩)

theorem Settled.apart_step (hs : Settled s) (hadm : Admissible s a) (hempty : ClaimsEmpty s a)
    (h : unplugLts.step s a = some (s', r)) : Apart s' := by
  intro k d d' hd hd'
  rcases hs.at_before hadm h hd with hold | ⟨t, i, rfl, ht, rfl⟩
  · rcases hs.at_before hadm h hd' with hold' | ⟨t, i, rfl, ht, rfl⟩
    · exact hs.apart k d d' hold hold'
    · exact absurd hold (hempty d' i ht d)
  · rcases hs.at_before hadm h hd' with hold' | ⟨t', i', heq, ht', -⟩
    · exact absurd hold' (hempty d i ht d')
    · cases heq
      rw [ht] at ht'
      cases ht'
      rfl

/-- A remove goes on as long as its thread does not move. -/
theorem detaching_update {t u : Tid} {pc : Pc} (threads : s'.thread = Function.update s.thread t pc)
    (hne : ∀ k, s.thread t ≠ .detaching d k) (hu : s.thread u = .detaching d k) :
    s'.thread u = .detaching d k := by
  rw [threads, Function.update_of_ne, hu]
  rintro rfl
  exact hne k hu

/-- A device that is bound keeps its place, or its remove begins. -/
theorem Settled.serves_of (hs : Settled s) (hbound : d ∈ s.drv.bound)
    (hslot : s'.drv.drvdata d = s.drv.drvdata d)
    (hocc : ∀ k, s.drv.drvdata d = some k → s.drv.occupant k = some d →
      s'.drv.occupant k = some d ∨ ∃ t, s'.thread t = .detaching d k)
    (hdet : ∀ t k, s.thread t = .detaching d k → s'.thread t = .detaching d k) :
    ∃ k, s'.drv.drvdata d = some k ∧
      (s'.drv.occupant k = some d ∨ ∃ t, s'.thread t = .detaching d k) := by
  obtain ⟨k, hk, hplace⟩ := hs.serves d hbound
  refine ⟨k, hslot.trans hk, ?_⟩
  rcases hplace with hd | ⟨t, ht⟩
  · exact hocc k hk hd
  · exact .inr ⟨t, hdet t k ht⟩

theorem Settled.serves_step (hs : Settled s) (hadm : Admissible s a)
    (h : unplugLts.step s a = some (s', r)) (hd : d ∈ s'.drv.bound) :
    ∃ k, s'.drv.drvdata d = some k ∧
      (s'.drv.occupant k = some d ∨ ∃ t, s'.thread t = .detaching d k) := by
  cases step_move h with
  | calm pc before _ threads places devices =>
      apply hs.serves_of (devices.bound ▸ hd) (by rw [devices.drvdata])
      · intro k _ hocc
        exact .inl (places.occupant k ▸ hocc)
      · intro u k
        apply detaching_update threads
        intro k ht
        rw [ht] at before
        cases before
  | opens _ _ before threads places devices | releases _ _ before threads places devices
  | claims _ _ before threads places devices =>
      apply hs.serves_of (devices.bound ▸ hd) (by rw [devices.drvdata])
      · intro k _ hocc
        exact .inl (places.occupant k ▸ hocc)
      · intro u k
        exact detaching_update threads (by simp [before])
  | searches _ _ before drv threads | looks _ _ _ before _ drv threads =>
      apply hs.serves_of (drv ▸ hd) (by rw [drv])
      · intro k _ hocc
        exact .inl (drv ▸ hocc)
      · intro u k
        exact detaching_update threads (by simp [before])
  | @spoils t env _ d' i before threads dev drvdata bound =>
      have hbound : d ∈ s.drv.bound := bound ▸ hd
      have hne : d ≠ d' := by
        rintro rfl
        have hstage := hs.sound.stage t d (by rw [before]; rfl)
        simp [before, Pc.isDetaching, hbound] at hstage
      apply hs.serves_of hbound (drvdata d hne)
      · intro k _ hocc
        exact .inl (occupant_congr (congrFun dev k) ▸ hocc)
      · intro u k
        exact detaching_update threads (by simp [before])
  | @fills t env d' i before threads others here _ drvdata bound =>
      by_cases hdd : d = d'
      · subst hdd
        exact ⟨i.castSucc, by rw [drvdata, Function.update_self], .inl here⟩
      · have hbound : d ∈ s.drv.bound :=
          (List.mem_cons.mp (bound ▸ hd)).resolve_left hdd
        apply hs.serves_of hbound (by rw [drvdata, Function.update_of_ne hdd])
        · intro k _ hocc
          have hk : k ≠ i.castSucc := by
            rintro rfl
            exact hdd (hs.apart _ _ _ (.inl hocc) (.inr ⟨t, by rw [before]; rfl⟩))
          exact .inl (occupant_congr (others k hk) ▸ hocc)
        · intro u k
          exact detaching_update threads (by simp [before])
  | @closes t d' _ k' before threads slot others gone devices =>
      apply hs.serves_of (devices.bound ▸ hd) (by rw [devices.drvdata])
      · intro k hk hocc
        by_cases hkk : k = k'
        · subst hkk
          have hocc' := hs.occupant_of_idle hadm.1 hadm.2 slot
          obtain rfl : d' = d := Option.some.inj (hocc'.symm.trans hocc)
          exact .inr ⟨t, by rw [threads, Function.update_self]⟩
        · exact .inl (occupant_congr (others k hkk) ▸ hocc)
      · intro u k
        exact detaching_update threads (by simp [before])
  | detaches _ _ _ _ threads places devices =>
      apply hs.serves_of (devices.bound ▸ hd) (by rw [devices.drvdata])
      · intro k _ hocc
        exact .inl (places.occupant k ▸ hocc)
      · intro u k hu
        rw [threads, hu]
  | @ends t _ d' k' before threads places drvdata bound =>
      obtain ⟨hne, hbound⟩ := (hs.sound.nodup.mem_erase_iff).mp (bound ▸ hd)
      apply hs.serves_of hbound (by rw [drvdata])
      · intro k _ hocc
        exact .inl (places.occupant k ▸ hocc)
      · intro u k
        apply detaching_update threads
        intro j ht
        rw [before] at ht
        cases ht
        exact hne rfl

/-- A slot loses its mark only when a remove begins there. -/
theorem binded_step (h : unplugLts.step s a = some (s', r)) (hk : (s.drv.dev k).binded ≠ 0) :
    (s'.drv.dev k).binded ≠ 0 ∨ ∃ t d, a = .lockRemove t d ∧ s.drv.drvdata d = some k ∧
      s'.drv.occupant k = none := by
  cases step_move h with
  | calm _ _ _ _ places | opens _ _ _ _ places | releases _ _ _ _ places
  | claims _ _ _ _ places | detaches _ _ _ _ _ places | ends _ _ _ _ places =>
      exact .inl (places.binded k hk)
  | searches _ _ _ drv | looks _ _ _ _ _ drv => exact .inl (drv ▸ hk)
  | spoils _ _ _ _ dev => exact .inl (by rw [dev]; exact hk)
  | fills d i _ _ others _ binded =>
      by_cases hki : k = i.castSucc
      · exact .inl (by rw [hki, binded, ← hki]; exact hk)
      · exact .inl (by rw [others k hki]; exact hk)
  | @closes t d _ j _ _ slot others gone =>
      by_cases hkj : k = j
      · exact .inr ⟨t, d, rfl, hkj ▸ slot, hkj ▸ occupant_of_absent gone⟩
      · exact .inl (by rw [others k hkj]; exact hk)

theorem Settled.present_step (hs : Settled s) (h : unplugLts.step s a = some (s', r))
    (hd : s'.drv.occupant k = some d) : (s'.drv.dev k).binded ≠ 0 := by
  have hbefore : (s.drv.dev k).binded ≠ 0 := by
    cases step_move h with
    | calm _ _ _ _ places | opens _ _ _ _ places | releases _ _ _ _ places
    | claims _ _ _ _ places | detaches _ _ _ _ _ places | ends _ _ _ _ places =>
        exact hs.present k d (places.occupant k ▸ hd)
    | searches _ _ _ drv | looks _ _ _ _ _ drv => exact hs.present k d (drv ▸ hd)
    | spoils _ _ _ _ dev => exact hs.present k d (occupant_congr (congrFun dev k) ▸ hd)
    | @fills t _ d' i before _ others here =>
        by_cases hki : k = i.castSucc
        · exact hki ▸ hs.coming t d' i before
        · exact hs.present k d (occupant_congr (others k hki) ▸ hd)
    | closes j _ _ _ others gone =>
        by_cases hkj : k = j
        · rw [hkj, occupant_of_absent gone] at hd
          cases hd
        · exact hs.present k d (occupant_congr (others k hkj) ▸ hd)
  rcases binded_step h hbefore with hbinded | ⟨-, -, -, -, hnone⟩
  · exact hbinded
  · rw [hnone] at hd
    cases hd

theorem filling_before (h : unplugLts.step s a = some (s', r)) {t : Tid}
    {i : Fin pcieuniNrDevs} (ht : s'.thread t = .filling d i) :
    s.thread t = .filling d i ∨ (s'.drv.dev i.castSucc).binded ≠ 0 := by
  cases step_move h with
  | calm pc _ after threads =>
      refine .inl (Threads.eq_of_update (threads ▸ ht) ?_)
      rintro rfl
      cases after
  | searches _ _ _ _ threads | spoils _ _ _ threads | fills _ _ _ threads | opens _ _ _ threads
  | releases _ _ _ threads | closes _ _ threads | ends _ _ _ threads =>
      exact .inl (Threads.eq_of_update (threads ▸ ht) (by simp))
  | looks _ _ pc _ after _ threads =>
      refine .inl (Threads.eq_of_update (threads ▸ ht) ?_)
      rcases after with rfl | ⟨j, rfl⟩ | ⟨is', rfl⟩ <;> simp
  | claims d' j _ threads _ _ flag =>
      by_cases hnew : d' = d ∧ j = i
      · exact .inr (hnew.2 ▸ flag)
      · exact .inl (Threads.eq_of_update (threads ▸ ht) (by simpa using hnew))
  | detaches _ _ _ _ threads => exact .inl (threads ▸ ht)

theorem Settled.coming_step (hs : Settled s) (hadm : Admissible s a)
    (h : unplugLts.step s a = some (s', r)) {t : Tid} {i : Fin pcieuniNrDevs}
    (ht : s'.thread t = .filling d i) : (s'.drv.dev i.castSucc).binded ≠ 0 := by
  rcases filling_before h ht with hbefore | hflag
  · rcases binded_step h (hs.coming t d i hbefore) with hbinded | ⟨u, d', rfl, hslot, -⟩
    · exact hbinded
    · -- the device that is removed would be at the slot of the probe
      have hocc := hs.occupant_of_idle hadm.1 hadm.2 hslot
      obtain rfl : d' = d := hs.apart _ _ _ (.inl hocc) (.inr ⟨t, by rw [hbefore]; rfl⟩)
      exact absurd ⟨t, by rw [hbefore]; rfl⟩ hadm.2
  · exact hflag

theorem Settled.step (hs : Settled s) (hadm : Admissible s a) (hempty : ClaimsEmpty s a)
    (h : unplugLts.step s a = some (s', r)) : Settled s' where
  sound := hs.sound.step hadm h
  apart := hs.apart_step hadm hempty h
  serves _ hd := hs.serves_step hadm h hd
  present _ _ hd := hs.present_step h hd
  coming _ _ _ ht := hs.coming_step hadm h ht

/-- A probe that takes a slot from another device brings two devices there. -/
theorem Settled.not_apart (hs : Settled s) (hempty : ¬ ClaimsEmpty s a)
    (h : unplugLts.step s a = some (s', r)) : ¬ Apart s' := by
  obtain ⟨t, rfl⟩ : ∃ t, a = .claim t := by
    cases a with
    | claim t => exact ⟨t, rfl⟩
    | _ => exact absurd trivial hempty
  simp only [ClaimsEmpty, not_forall, not_not] at hempty
  obtain ⟨d, i, ht, d', hat⟩ := hempty
  cases step_move h with
  | calm _ _ _ _ _ _ _ _ quiet => exact absurd rfl (quiet t).1
  | claims d₁ i₁ before threads places =>
      obtain ⟨rfl, rfl⟩ : d₁ = d ∧ i₁ = i := by simpa using before.symm.trans ht
      have hbusy : (s.thread t).device = some d₁ := by rw [before]; rfl
      have hd : s'.At d₁ i₁.castSucc := .inr ⟨t, by rw [threads, Function.update_self]; rfl⟩
      intro hapart
      rcases hat with hocc | ⟨u, hu⟩
      · obtain rfl := hapart _ d₁ d' hd (.inl (places.occupant _ ▸ hocc))
        exact (hs.sound.owner _ _ hocc).2.2 ⟨t, hbusy⟩
      · have hut : u ≠ t := by
          rintro rfl
          rw [before] at hu
          cases hu
        obtain rfl := hapart _ d₁ d' hd
          (.inr ⟨u, by rw [threads, Function.update_of_ne hut, hu]⟩)
        exact hut (hs.sound.lone u t d₁ (Pc.device_of_holds hu) hbusy)

/-- A slot whose mark is clear and that no remove is at is free. -/
theorem Settled.empty_of_clear (hs : Settled s) (hclear : ClaimsClear s a) : ClaimsEmpty s a := by
  cases a with
  | claim t =>
      intro d i ht d' hat
      obtain ⟨hflag, hrem⟩ := hclear d i ht
      rcases hat with hocc | ⟨u, hu⟩
      · exact hs.present _ _ hocc hflag
      · cases hpc : s.thread u with
        | filling d'' j =>
            obtain ⟨rfl, hj⟩ : d'' = d' ∧ j.castSucc = i.castSucc := by
              simpa [hpc, Pc.holds] using hu
            exact hs.coming u d'' j hpc (hj ▸ hflag)
        | detaching d'' k =>
            obtain ⟨rfl, rfl⟩ : d'' = d' ∧ k = i.castSucc := by simpa [hpc, Pc.holds] using hu
            exact hrem ⟨u, d'', hpc⟩
        | idle | opening | releasing | searching | probing => simp [hpc, Pc.holds] at hu
  | _ => trivial

end Steps

theorem Settled.of_init {s : State} (h : unplugLts.init s) : Settled s := by
  obtain ⟨⟨major, verMaj, verMin, regs, hs⟩, hidle⟩ := h
  have hocc : ∀ k, s.drv.occupant k = none := by
    intro k
    rw [hs]
    rfl
  have hat : ∀ d k, ¬ s.At d k := by
    rintro d k (hd | ⟨t, ht⟩)
    · rw [hocc] at hd
      cases hd
    · rw [hidle] at ht
      cases ht
  refine ⟨⟨?_, ?_, ?_, ?_, ?_⟩, ?_, ?_, ?_, ?_⟩
  · rw [hs]; rfl
  · intro k d hd
    exact absurd (.inl hd) (hat d k)
  · intro t d ht
    rw [hidle] at ht
    cases ht
  · intro t u d ht
    rw [hidle] at ht
    cases ht
  · rw [hs]; exact List.nodup_nil
  · intro k d d' hd
    exact absurd hd (hat d k)
  · intro d hd
    rw [hs] at hd
    cases hd
  · intro k d hd
    exact absurd (.inl hd) (hat d k)
  · intro t d i ht
    rw [hidle] at ht
    cases ht

/-- In every run of admissible calls no slot is ever with two devices exactly when each
probe takes a slot that no device is at; and so it is when each probe still finds the flag
of its slot clear and no remove at work there. -/
theorem run_apart_iff {s s' : State} {tr : List (Transition State Act (Option Int))}
    (hinit : unplugLts.init s) (hrun : unplugLts.Run s tr s')
    (hadm : ∀ t ∈ tr, Admissible t.pre t.act) :
    ((∀ t ∈ tr, Apart t.post) ↔ ∀ t ∈ tr, ClaimsEmpty t.pre t.act) ∧
      ((∀ t ∈ tr, ClaimsClear t.pre t.act) → ∀ t ∈ tr, Apart t.post) := by
  have hiff := hrun.always_iff (J := Settled) (fun _ hs => hs.apart)
    (fun _ _ _ _ hs hadm hempty h => hs.step hadm hempty h)
    (fun _ _ _ _ hs _ hempty h => hs.not_apart hempty h) (.of_init hinit) hadm
  refine ⟨hiff, fun hclear t ht => ?_⟩
  have hall := (hrun.preserves (P := fun s a => Admissible s a ∧ ClaimsClear s a)
    (fun _ _ _ _ hs hac h => Settled.step hs hac.1 (hs.empty_of_clear hac.2) h) (.of_init hinit)
    fun t ht => ⟨hadm t ht, hclear t ht⟩).2
  exact (hall t ht).2.apart

/-! ## Runs of a few threads -/

/-- `Admissible`, when only the threads in `ts` take steps. -/
def AdmissibleIn (ts : List Tid) (s : State) : Act → Prop
  | .callProbe _ d => d ∉ s.drv.bound ∧ ∀ t ∈ ts, (s.thread t).device ≠ some d
  | .lockRemove _ d => d ∈ s.drv.bound ∧ ∀ t ∈ ts, (s.thread t).device ≠ some d
  | _ => True

instance (ts : List Tid) (s : State) (a : Act) : Decidable (AdmissibleIn ts s a) :=
  match a with
  | .callProbe _ d =>
    inferInstanceAs (Decidable (d ∉ s.drv.bound ∧ ∀ t ∈ ts, (s.thread t).device ≠ some d))
  | .lockRemove _ d =>
    inferInstanceAs (Decidable (d ∈ s.drv.bound ∧ ∀ t ∈ ts, (s.thread t).device ≠ some d))
  | .look .. | .claim .. | .fill .. | .callOpen .. | .lockOpen .. | .callRelease ..
  | .lockRelease .. | .detach .. => isTrue trivial

theorem run_admissible {ts : List Tid} {s s' : State}
    {tr : List (Transition State Act (Option Int))} (hinit : unplugLts.init s)
    (hrun : unplugLts.Run s tr s') (hts : ∀ t ∈ tr, t.act.tid ∈ ts)
    (h : ∀ t ∈ tr, AdmissibleIn ts t.pre t.act) : ∀ t ∈ tr, Admissible t.pre t.act := by
  have hstay : ∀ (s₁ : State) a s₂ r, (∀ u, u ∉ ts → s₁.thread u = .idle) → a.tid ∈ ts →
      unplugLts.step s₁ a = some (s₂, r) → ∀ u, u ∉ ts → s₂.thread u = .idle := by
    intro s₁ a s₂ r hidle ha hstep u hu
    have hne : u ≠ a.tid := by
      rintro rfl
      exact hu ha
    rw [step_thread hstep hne, hidle u hu]
  have hall := (hrun.preserves (P := fun _ a => a.tid ∈ ts) hstay (fun u _ => hinit.2 u) hts).2
  have hbusy : ∀ t ∈ tr, ∀ d, (∀ u ∈ ts, (t.pre.thread u).device ≠ some d) → ¬ t.pre.Busy d := by
    rintro t ht d hd ⟨u, hu⟩
    by_cases hut : u ∈ ts
    · exact hd u hut hu
    · rw [(hall t ht).1 u hut] at hu
      cases hu
  intro t ht
  have hin := h t ht
  cases hact : t.act with
  | callProbe u d =>
      rw [hact] at hin
      exact ⟨hin.1, hbusy t ht d hin.2⟩
  | lockRemove u d =>
      rw [hact] at hin
      exact ⟨hin.1, hbusy t ht d hin.2⟩
  | _ => trivial

/-- Two probes find the same slot before either has taken it, and both devices are bound
to it. -/
theorem run_apart_two :
    ∃ tr s', unplugLts.Run ⟨freshDriver, fun _ => .idle⟩ tr s' ∧
      tr.map (·.act) = [.callProbe 0 7, .callProbe 1 8, .look 0, .look 1, .claim 0, .claim 1,
        .fill 0 (oneBarEnv 0x1000), .fill 1 (oneBarEnv 0x1000)] ∧
      (s'.drv.bound = [8, 7] ∧ s'.drv.drvdata 7 = some 0 ∧ s'.drv.drvdata 8 = some 0) ∧
      ¬ ∀ t ∈ tr, Apart t.post := by
  have hinit : unplugLts.init ⟨freshDriver, fun _ => .idle⟩ :=
    ⟨⟨240, 1, 0, _, rfl⟩, fun _ => rfl⟩
  obtain ⟨tr, s₁, hrun, hacts, hend⟩ := Lts.Run.of_exec_map (M := unplugLts)
    (g := fun r => (r.1.all fun t => decide (AdmissibleIn [0, 1] t.pre t.act), r.2.thread 0,
      r.2.thread 1, (unplugLts.exec r.2 [.claim 1, .fill 0 (oneBarEnv 0x1000),
        .fill 1 (oneBarEnv 0x1000)]).map fun q : _ × State => decide (q.2.drv.bound = [8, 7] ∧
          q.2.drv.drvdata 7 = some 0 ∧ q.2.drv.drvdata 8 = some 0)))
    (v := (true, .filling 7 ⟨0, by decide⟩, .probing 8 ⟨0, by decide⟩, some true))
    (s := ⟨freshDriver, fun _ => .idle⟩)
    (l := [.callProbe 0 7, .callProbe 1 8, .look 0, .look 1, .claim 0]) (by decide +kernel)
  simp only [Prod.mk.injEq] at hend
  obtain ⟨hadm, hfilling, hprobing, hrest⟩ := hend
  obtain ⟨tr', s', hrun', hacts', hseen⟩ := Lts.Run.of_exec_map hrest
  have hall := hrun.append hrun'
  have hmap : (tr ++ tr').map (·.act) = [.callProbe 0 7, .callProbe 1 8, .look 0, .look 1,
      .claim 0, .claim 1, .fill 0 (oneBarEnv 0x1000), .fill 1 (oneBarEnv 0x1000)] := by
    rw [List.map_append, hacts, hacts']
    rfl
  refine ⟨tr ++ tr', s', hall, hmap, of_decide_eq_true hseen, fun hapart => ?_⟩
  have hacts₁ : ∀ t ∈ tr ++ tr', t.act.tid ∈ [0, 1] := by
    intro t ht
    have hmem : t.act ∈ (tr ++ tr').map (·.act) := List.mem_map_of_mem ht
    rw [hmap] at hmem
    simp only [List.mem_cons, List.not_mem_nil, or_false] at hmem
    rcases hmem with heq | heq | heq | heq | heq | heq | heq | heq <;> simp [heq, Act.tid]
  have hadm₁ : ∀ t ∈ tr ++ tr', AdmissibleIn [0, 1] t.pre t.act := by
    intro t ht
    rcases List.mem_append.mp ht with hmem | hmem
    · exact of_decide_eq_true (List.all_eq_true.mp hadm t hmem)
    · have hact : t.act ∈ tr'.map (·.act) := List.mem_map_of_mem hmem
      simp only [hacts', List.mem_cons, List.not_mem_nil, or_false] at hact
      rcases hact with heq | heq | heq <;> rw [heq] <;> trivial
  have hempty := (run_apart_iff hinit hall (run_admissible hinit hall hacts₁ hadm₁)).1.mp hapart
  cases tr' with
  | nil => cases hacts'
  | cons t tr₁ =>
      have hact : t.act = .claim 1 := (List.cons.inj hacts').1
      have hclaim := hempty t (List.mem_append_right _ (List.mem_cons_self ..))
      rw [hact, hrun'.of_cons.1] at hclaim
      exact hclaim 8 _ hprobing 7 (.inr ⟨0, by rw [hfilling]; rfl⟩)

end Unplug

end Gpcieuni
