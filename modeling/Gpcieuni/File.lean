-- SUMMARY: Opening and closing the character device: `pcieuni_open_exp` and `pcieuni_release_exp`.
import Gpcieuni.Device

/-!
# Open and release

Both functions work on the device struct alone; which files exist is the
business of the VFS.
-/

namespace Gpcieuni

/-- What the environment decides during an open. -/
structure OpenEnv where
  intr : Bool := false
  /-- The allocation of the list entry succeeds. -/
  alloc : Bool := true

/-- `pcieuni_open_exp` of file `f` on the struct of slot `k`. The allocated list
entry is used without a test. -/
def pcieuniOpenExp (env : OpenEnv) (k : Slot) (f : FilePtr) (dv : PcieuniDev) :
    Call (PcieuniDev × Int) :=
  let dv := { dv with devMinor := k }
  match mutexLockInterruptible dv.devMut env.intr with
  | .interrupted => .ok (dv, -erestartsys)
  | .blocked => .error .blocked
  | .acquired =>
    let dv := { dv with devMut := true, devFileRef := dv.devFileRef + 1 }
    if env.alloc then
      let dv := { dv with devFileList := ⟨f, dv.devFileRef⟩ :: dv.devFileList }
      .ok ({ dv with devMut := false }, 0)
    else .error .oops

/-- `pcieuni_release_exp` of file `f` on the struct its `private_data` names. -/
def pcieuniReleaseExp (intr : Bool) (f : FilePtr) (dv : PcieuniDev) : Call (PcieuniDev × Int) :=
  match mutexLockInterruptible dv.devMut intr with
  | .interrupted => .ok (dv, -erestartsys)
  | .blocked => .error .blocked
  | .acquired =>
    let dv := { dv with devMut := true, devFileRef := dv.devFileRef - 1 }
    let dv := { dv with devFileList := dv.devFileList.filter (·.filp ≠ f) }
    .ok ({ dv with devMut := false }, 0)

/-- What an open that returns did. -/
theorem pcieuniOpenExp_cases {env : OpenEnv} {k : Slot} {f : FilePtr} {dv dv' : PcieuniDev}
    {r : Int} (h : pcieuniOpenExp env k f dv = .ok (dv', r)) :
    (env.intr = true ∧ r = -erestartsys ∧ dv' = { dv with devMinor := k }) ∨
    (env.intr = false ∧ dv.devMut = false ∧ r = 0 ∧
      dv' = { dv with
        devMinor := k
        devFileRef := dv.devFileRef + 1
        devFileList := ⟨f, dv.devFileRef + 1⟩ :: dv.devFileList }) := by
  simp only [pcieuniOpenExp] at h
  split at h
  · rename_i hlock
    cases h
    exact .inl ⟨mutexLockInterruptible_interrupted.mp hlock, rfl, rfl⟩
  · cases h
  · rename_i hlock
    obtain ⟨hfree, hintr⟩ := mutexLockInterruptible_acquired.mp hlock
    split at h
    · cases h
      exact .inr ⟨hintr, hfree, rfl, by rw [← hfree]⟩
    · cases h

/-- What a release that returns did. -/
theorem pcieuniReleaseExp_cases {intr : Bool} {f : FilePtr} {dv dv' : PcieuniDev} {r : Int}
    (h : pcieuniReleaseExp intr f dv = .ok (dv', r)) :
    (intr = true ∧ r = -erestartsys ∧ dv' = dv) ∨
    (intr = false ∧ dv.devMut = false ∧ r = 0 ∧
      dv' = { dv with
        devFileRef := dv.devFileRef - 1
        devFileList := dv.devFileList.filter (·.filp ≠ f) }) := by
  simp only [pcieuniReleaseExp] at h
  split at h
  · rename_i hlock
    cases h
    exact .inl ⟨mutexLockInterruptible_interrupted.mp hlock, rfl, rfl⟩
  · cases h
  · rename_i hlock
    obtain ⟨hfree, hintr⟩ := mutexLockInterruptible_acquired.mp hlock
    cases h
    exact .inr ⟨hintr, hfree, rfl, by rw [← hfree]⟩

end Gpcieuni
