-- SUMMARY: Which device a file reaches when opens wait for a remove: files come by their devices through opens alone exactly when no probe fills a slot that a file still names.
import Gpcieuni.Unplug.Apart

/-!
# The device that a file reaches

`private_data` names a slot, and the slot gets the next device. A remove takes the files
of its list off the slot, so what endangers a later user is a file that came onto the
slot when the device had gone from it, and a slot that is with two devices.
-/

namespace Gpcieuni

namespace Driver

/-- A call on the file `f` gets to the device `d`. -/
def Reaches (s : Driver) (f : FilePtr) (d : PciDev) : Prop :=
  ∃ k, s.privateData f = some k ∧ s.occupant k = some d

variable {s s' : Driver}

theorem privateData_congr (h : s'.files = s.files) (f : FilePtr) :
    s'.privateData f = s.privateData f := by
  rw [privateData, privateData, h]

/-- What a file names when the file of one entry has been handed to the null device. -/
theorem privateData_detach {e : FileEntry} (h : s'.files = detachFiles [e] s.files) (g : FilePtr) :
    s'.privateData g = if g = e.filp then (s.privateData g).map fun _ => nullSlot
      else s.privateData g := by
  simp only [privateData, h, detachFiles, List.find?_map, List.map_cons, List.map_nil,
    List.mem_singleton]
  have hsame : ((fun o : OpenFile => decide (o.filp = g)) ∘ fun o : OpenFile =>
      if o.filp = e.filp then { o with privateData := nullSlot } else o) =
      fun o => decide (o.filp = g) := by
    funext o
    simp only [Function.comp_apply]
    split <;> rfl
  rw [hsame]
  cases hfind : s.files.find? fun o => decide (o.filp = g) with
  | none => simp
  | some o =>
      obtain rfl : o.filp = g := by simpa using List.find?_some hfind
      by_cases ho : o.filp = e.filp
      · simp [ho]
      · simp [ho]

end Driver

namespace Unplug

/-! ## Files come by their devices through opens -/

/-- A file that reaches a device after the step did so before it, unless the step makes
the entry of its open on the node of the device. -/
def ComesByOpen (t : Transition State Act (Option Int)) : Prop :=
  ∀ f d, t.post.drv.Reaches f d → t.pre.drv.Reaches f d ∨
    ∃ u intr k, t.act = .lockOpen u intr ∧ t.pre.thread u = .opening k f ∧
      t.pre.drv.occupant k = some d

/-- A probe that succeeds fills a slot that no file names. -/
def FillsUnnamed (t : Transition State Act (Option Int)) : Prop :=
  ∀ u env d i, t.act = .fill u env → t.out = some 0 → t.pre.thread u = .filling d i →
    ∀ f, t.pre.drv.privateData f ≠ some i.castSucc

section Step

variable {s s' : State} {a : Act} {r : Option Int}

/-- The exact condition for one step. -/
theorem comesByOpen_iff (hs : Sound s) (h : unplugLts.step s a = some (s', r)) :
    ComesByOpen ⟨s, a, r, s'⟩ ↔ FillsUnnamed ⟨s, a, r, s'⟩ := by
  constructor
  · rintro hcomes u env d i rfl rfl hu f hf
    cases step_move h with
    | calm _ _ _ _ _ _ _ _ quiet => exact absurd rfl ((quiet u).2 env)
    | spoils _ _ _ _ _ _ _ _ ret => exact ret rfl
    | fills d' j before _ _ here _ _ _ _ files =>
        obtain ⟨rfl, rfl⟩ : d' = d ∧ j = i := by simpa using before.symm.trans hu
        rcases hcomes f d' ⟨_, (Driver.privateData_congr files f).trans hf, here⟩ with
          ⟨k, hk, hocc⟩ | ⟨u', intr, k, hact, -⟩
        · obtain rfl : j.castSucc = k := Option.some.inj (hf.symm.trans hk)
          exact (hs.owner _ _ hocc).2.2 ⟨u, by rw [before]; rfl⟩
        · cases hact
  · rintro hfills f d ⟨k, hk, hocc⟩
    cases step_move h with
    | calm _ _ _ _ places _ _ files | claims _ _ _ _ places _ _ _ files
    | ends _ _ _ _ places _ _ _ _ files =>
        rw [Driver.privateData_congr files] at hk
        exact .inl ⟨k, hk, places.occupant k ▸ hocc⟩
    | searches _ _ _ drv | looks _ _ _ _ _ drv => exact .inl ⟨k, drv ▸ hk, drv ▸ hocc⟩
    | spoils _ _ _ _ dev _ _ files =>
        rw [Driver.privateData_congr files] at hk
        exact .inl ⟨k, hk, occupant_congr (congrFun dev k) ▸ hocc⟩
    | fills d' i before _ others here _ _ _ _ files =>
        rw [Driver.privateData_congr files] at hk
        by_cases hki : k = i.castSucc
        · exact absurd (hki ▸ hk) (hfills _ _ d' i rfl rfl before f)
        · exact .inl ⟨k, hk, occupant_congr (others k hki) ▸ hocc⟩
    | opens j g before _ places _ _ _ files =>
        have hocc := places.occupant k ▸ hocc
        rw [Driver.privateData_cons files] at hk
        split at hk
        · rename_i hg
          obtain rfl : j = k := Option.some.inj hk
          subst hg
          exact .inr ⟨_, _, j, rfl, before, hocc⟩
        · exact .inl ⟨k, hk, hocc⟩
    | releases _ g _ _ places _ _ files =>
        rw [Driver.privateData_filter files] at hk
        split at hk
        · cases hk
        · exact .inl ⟨k, hk, places.occupant k ▸ hocc⟩
    | closes j _ _ _ others gone _ _ files =>
        by_cases hkj : k = j
        · rw [hkj, occupant_of_absent gone] at hocc
          cases hocc
        · rw [Driver.privateData_congr files] at hk
          exact .inl ⟨k, hk, occupant_congr (others k hkj) ▸ hocc⟩
    | detaches _ j e _ _ places _ _ files =>
        have hocc := places.occupant k ▸ hocc
        rw [Driver.privateData_detach files] at hk
        split at hk
        · obtain ⟨-, -, rfl⟩ := Option.map_eq_some_iff.mp hk
          rw [occupant_of_absent hs.null] at hocc
          cases hocc
        · exact .inl ⟨k, hk, hocc⟩

end Step

/-! ## When no file is left behind -/

/-- An open that gets the mutex finds a device at its slot. -/
def OpensPresent (s : State) : Act → Prop
  | .lockOpen t false => ∀ k f, s.thread t = .opening k f → s.drv.occupant k ≠ none
  | _ => True

/-- A device is present at slot `k`, or a remove is still at its files. -/
def State.Held (s : State) (k : Slot) : Prop := s.drv.occupant k ≠ none ∨ s.Removing k

/-- A file that names a slot is on its list, and the slot is held. -/
def Tied (s : State) : Prop :=
  ∀ f k, s.drv.privateData f = some k → k ≠ nullSlot → s.Listed f k ∧ s.Held k

section Tied

variable {s s' : State} {a : Act} {r : Option Int} {t : Tid} {pc : Pc} {k : Slot}

theorem removing_update (threads : s'.thread = Function.update s.thread t pc)
    (hne : ∀ d, s.thread t ≠ .detaching d k) (h : s.Removing k) : s'.Removing k := by
  obtain ⟨u, d, hu⟩ := h
  refine ⟨u, d, ?_⟩
  rw [threads, Function.update_of_ne, hu]
  rintro rfl
  exact hne d hu

/-- One file at one slot: the step takes neither its entry nor what holds the slot. -/
theorem Tied.keep {f : FilePtr} (hs : Tied s) (hk : s.drv.privateData f = some k)
    (hnull : k ≠ nullSlot) (occupied : s'.drv.occupant k = s.drv.occupant k)
    (lists : s.Listed f k → s'.Listed f k)
    (removes : s.Listed f k → s.Removing k → s'.Removing k) : s'.Listed f k ∧ s'.Held k := by
  obtain ⟨hlist, hheld⟩ := hs f k hk hnull
  exact ⟨lists hlist, hheld.imp (fun hocc => occupied ▸ hocc) (removes hlist)⟩

theorem Tied.step (hs : Tied s) (hopens : OpensPresent s a)
    (h : unplugLts.step s a = some (s', r)) : Tied s' := by
  intro f k hk hnull
  cases step_move h with
  | calm pc before _ threads places _ lists files =>
      rw [Driver.privateData_congr files] at hk
      refine hs.keep hk hnull (places.occupant k) (lists f k not_false) fun _ =>
        removing_update threads fun d ht => ?_
      rw [ht] at before
      cases before
  | searches d is before drv threads | looks d is pc before _ drv threads =>
      refine hs.keep (drv ▸ hk) hnull (by rw [drv]) (fun hlist => ?_) fun _ =>
        removing_update threads (by simp [before])
      rw [State.Listed, drv]
      exact hlist
  | claims d i before threads places _ _ lists files =>
      rw [Driver.privateData_congr files] at hk
      exact hs.keep hk hnull (places.occupant k) (lists f k not_false) fun _ =>
        removing_update threads (by simp [before])
  | spoils d i before threads dev _ _ files =>
      rw [Driver.privateData_congr files] at hk
      refine hs.keep hk hnull (occupant_congr (by rw [dev])) (fun hlist => ?_) fun _ =>
        removing_update threads (by simp [before])
      rw [State.Listed, dev]
      exact hlist
  | fills d i before threads others here _ _ _ lists files =>
      rw [Driver.privateData_congr files] at hk
      by_cases hki : k = i.castSucc
      · exact ⟨lists f k not_false (hs f k hk hnull).1, .inl (by rw [hki, here]; simp)⟩
      · exact hs.keep hk hnull (occupant_congr (others k hki)) (lists f k not_false) fun _ =>
          removing_update threads (by simp [before])
  | opens j g before threads places _ lists entry files =>
      rw [Driver.privateData_cons files] at hk
      split at hk
      · rename_i hg
        obtain rfl : j = k := Option.some.inj hk
        exact ⟨hg ▸ entry, .inl (places.occupant j ▸ hopens j g before)⟩
      · exact hs.keep hk hnull (places.occupant k) (lists f k not_false) fun _ =>
          removing_update threads (by simp [before])
  | releases j g before threads places _ lists files =>
      rw [Driver.privateData_filter files] at hk
      split at hk
      · cases hk
      · rename_i hg
        exact hs.keep hk hnull (places.occupant k) (lists f k (Ne.symm hg)) fun _ =>
          removing_update threads (by simp [before])
  | @closes t d _ j before threads _ others _ _ lists files =>
      rw [Driver.privateData_congr files] at hk
      by_cases hkj : k = j
      · exact ⟨lists f k not_false (hs f k hk hnull).1,
          .inr ⟨t, d, by rw [threads, Function.update_self, hkj]⟩⟩
      · exact hs.keep hk hnull (occupant_congr (others k hkj)) (lists f k not_false) fun _ =>
          removing_update threads (by simp [before])
  | detaches d j e _ threads places _ lists files =>
      rw [Driver.privateData_detach files] at hk
      split at hk
      · obtain ⟨-, -, rfl⟩ := Option.map_eq_some_iff.mp hk
        exact absurd rfl hnull
      · rename_i hne
        refine hs.keep hk hnull (places.occupant k) (lists f k fun hoff => hne hoff.1) ?_
        rintro - ⟨u, d', hu⟩
        exact ⟨u, d', by rw [threads, hu]⟩
  | ends d j before threads places _ _ empty lists files =>
      rw [Driver.privateData_congr files] at hk
      refine hs.keep hk hnull (places.occupant k) (lists f k not_false) fun hlist =>
        removing_update threads fun d' ht => ?_
      -- the remove ends at an empty list, and the file is still on the list of its slot
      rw [before] at ht
      cases ht
      exact empty f hlist

/-- As long as the devices are apart, a slot that is filled is not held. -/
theorem Tied.fillsUnnamed (hs : Tied s) (hset : Settled s) : FillsUnnamed ⟨s, a, r, s'⟩ := by
  rintro u env d i - - hu f hf
  have hat : s.At d i.castSucc := .inr ⟨u, by rw [hu]; rfl⟩
  rcases (hs f _ hf i.castSucc_ne_last).2 with hocc | ⟨v, d', hv⟩
  · obtain ⟨d', hd'⟩ := Option.ne_none_iff_exists'.mp hocc
    obtain rfl := hset.apart _ d d' hat (.inl hd')
    exact (hset.sound.owner _ _ hd').2.2 ⟨u, by rw [hu]; rfl⟩
  · obtain rfl := hset.apart _ d d' hat (.inr ⟨v, by rw [hv]; rfl⟩)
    obtain rfl := hset.sound.lone u v d (by rw [hu]; rfl) (by rw [hv]; rfl)
    rw [hu] at hv
    cases hv

end Tied

theorem Tied.of_init {s : State} (h : unplugLts.init s) : Tied s := by
  obtain ⟨⟨major, verMaj, verMin, regs, hs⟩, -⟩ := h
  intro f k hk
  rw [hs] at hk
  cases hk

/-- In every run of admissible calls, the files come by the devices that they reach through
their own opens exactly when no probe fills a slot that a file names; and so it is when the
probes take slots that no device is at, and the opens find a device at theirs. -/
theorem run_comesByOpen_iff {s s' : State} {tr : List (Transition State Act (Option Int))}
    (hinit : unplugLts.init s) (hrun : unplugLts.Run s tr s')
    (hadm : ∀ t ∈ tr, Admissible t.pre t.act) :
    ((∀ t ∈ tr, ComesByOpen t) ↔ ∀ t ∈ tr, FillsUnnamed t) ∧
      ((∀ t ∈ tr, ClaimsEmpty t.pre t.act) → (∀ t ∈ tr, OpensPresent t.pre t.act) →
        ∀ t ∈ tr, ComesByOpen t) := by
  have hsound := (hrun.preserves (fun _ _ _ _ hs hadm h => Sound.step hs hadm h)
    (Settled.of_init hinit).sound hadm).2
  have hiff : ∀ t ∈ tr, ComesByOpen t ↔ FillsUnnamed t := fun t ht =>
    comesByOpen_iff (hsound t ht).1 (hrun.step_of_mem ht)
  refine ⟨forall₂_congr hiff, fun hempty hopens t ht => (hiff t ht).mpr ?_⟩
  have hset := (hrun.preserves (P := fun s a => Admissible s a ∧ ClaimsEmpty s a)
    (fun _ _ _ _ hs hac h => Settled.step hs hac.1 hac.2 h) (.of_init hinit)
    fun t ht => ⟨hadm t ht, hempty t ht⟩).2
  have htied := (hrun.preserves (fun _ _ _ _ hs ho h => Tied.step hs ho h) (.of_init hinit)
    hopens).2
  exact (htied t ht).1.fillsUnnamed (hset t ht).1

/-- An open waits while its device is removed. The next device at the slot is then open to
a user who never opened it. -/
theorem run_comesByOpen_late :
    ∃ tr s', unplugLts.Run ⟨freshDriver, fun _ => .idle⟩ tr s' ∧
      tr.map (·.act) = [.callProbe 2 7, .look 2, .claim 2, .fill 2 (oneBarEnv 0x1000),
        .callOpen 0 0 1, .lockRemove 1 7, .detach 1, .lockOpen 0 false, .callProbe 2 8, .look 2,
        .claim 2, .fill 2 (oneBarEnv 0x1000)] ∧
      ¬ (∀ t ∈ tr, ComesByOpen t) ∧
      ¬ ((∀ t ∈ tr, ClaimsEmpty t.pre t.act) ∧ ∀ t ∈ tr, OpensPresent t.pre t.act) := by
  have hinit : unplugLts.init ⟨freshDriver, fun _ => .idle⟩ :=
    ⟨⟨240, 1, 0, _, rfl⟩, fun _ => rfl⟩
  obtain ⟨tr, s₁, hrun, hacts, hend⟩ := Lts.Run.of_exec_map (M := unplugLts)
    (g := fun r => (r.1.all fun t => decide (AdmissibleIn [0, 1, 2] t.pre t.act),
      r.2.thread 2, r.2.drv.privateData 1,
      (unplugLts.step r.2 (.fill 2 (oneBarEnv 0x1000))).map fun q : State × _ => q.2))
    (v := (true, .filling 8 ⟨0, by decide⟩, some 0, some (some 0)))
    (s := ⟨freshDriver, fun _ => .idle⟩)
    (l := [.callProbe 2 7, .look 2, .claim 2, .fill 2 (oneBarEnv 0x1000), .callOpen 0 0 1,
      .lockRemove 1 7, .detach 1, .lockOpen 0 false, .callProbe 2 8, .look 2, .claim 2])
    (by decide +kernel)
  simp only [Prod.mk.injEq] at hend
  obtain ⟨hadm, hfilling, hfile, hlast⟩ := hend
  obtain ⟨⟨s₂, r⟩, hstep, rfl⟩ := Option.map_eq_some_iff.mp hlast
  let last : Transition State Act (Option Int) := ⟨s₁, .fill 2 (oneBarEnv 0x1000), some 0, s₂⟩
  have hall : unplugLts.Run _ (tr ++ [last]) s₂ := hrun.append (.single hstep)
  have hmap : (tr ++ [last]).map (·.act) =
      [.callProbe 2 7, .look 2, .claim 2, .fill 2 (oneBarEnv 0x1000), .callOpen 0 0 1,
        .lockRemove 1 7, .detach 1, .lockOpen 0 false, .callProbe 2 8, .look 2, .claim 2,
        .fill 2 (oneBarEnv 0x1000)] := by
    rw [List.map_append, hacts]
    rfl
  have htids : ∀ t ∈ tr ++ [last], t.act.tid ∈ [0, 1, 2] := by
    intro t ht
    have hmem := List.mem_map_of_mem (f := (·.act)) ht
    rw [hmap] at hmem
    simp only [List.mem_cons, List.not_mem_nil, or_false] at hmem
    rcases hmem with heq | heq | heq | heq | heq | heq | heq | heq | heq | heq | heq | heq <;>
      simp [heq, Act.tid]
  have hadmIn : ∀ t ∈ tr ++ [last], AdmissibleIn [0, 1, 2] t.pre t.act := by
    intro t ht
    rcases List.mem_append.mp ht with hmem | hmem
    · exact of_decide_eq_true (List.all_eq_true.mp hadm t hmem)
    · obtain rfl := List.mem_singleton.mp hmem
      trivial
  obtain ⟨hiff, hsafe⟩ :=
    run_comesByOpen_iff hinit hall (run_admissible hinit hall htids hadmIn)
  refine ⟨_, s₂, hall, hmap, ?_⟩
  have hnot : ¬ ∀ t ∈ tr ++ [last], ComesByOpen t := by
    intro hcomes
    exact hiff.mp hcomes _ (List.mem_append_right _ (List.mem_singleton_self _)) 2 _ 8 _ rfl rfl
      hfilling 1 hfile
  exact ⟨hnot, fun hcare => hnot (hsafe hcare.1 hcare.2)⟩

end Unplug

end Gpcieuni
