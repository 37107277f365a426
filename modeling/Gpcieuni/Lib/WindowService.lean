-- SUMMARY: A service that lends the memory windows of devices which come and go, through handles.
import Gpcieuni.Lib.Lts
import Mathlib.Logic.Function.Basic

/-!
# Window services

Devices are plugged in and unplugged. A plugged device has numbered windows, each a
number of words long, and a memory behind them that stays when the device goes. A
handle is taken on a plugged device; when the device is unplugged the handle is
severed, and a severed handle cannot be used any more, only given back. Every transfer
through a handle moves words between the client and the memory in one go.
-/

/-- What the clients of such a service can tell. -/
@[ext]
structure WindowService (δ φ ω : Type) where
  /-- The lengths of the windows of a plugged device. -/
  windows : δ → Option (Nat → Option Nat)
  /-- The device of a handle. A handle that is taken and has no device is severed. -/
  handle : φ → Option (Option δ)
  mem : δ → Nat → Nat → ω

namespace WindowService

inductive Event (δ φ ω : Type) where
  | plug (d : δ) (w : Nat → Option Nat)
  | unplug (d : δ)
  | take (f : φ) (d : δ)
  | giveBack (f : φ)
  /-- The words `ws` are read from window `n` on from word `o`. -/
  | read (f : φ) (n o : Nat) (ws : List ω)
  | write (f : φ) (n o : Nat) (ws : List ω)

variable {δ φ ω : Type}

/-- The device behind a handle, and the length of its window `n`. -/
def target (s : WindowService δ φ ω) (f : φ) (n : Nat) : Option (δ × Nat) :=
  match s.handle f with
  | some (some d) => ((s.windows d).bind fun w => w n).map fun len => (d, len)
  | _ => none

theorem target_eq {s : WindowService δ φ ω} {d : δ} {f : φ} {n len : Nat} {w : Nat → Option Nat}
    (hf : s.handle f = some (some d)) (hd : s.windows d = some w) (hn : w n = some len) :
    s.target f n = some (d, len) := by
  simp [target, hf, hd, hn]

/-- The words of a device from word `o` of window `n` on. -/
def wordsFrom (s : WindowService δ φ ω) (d : δ) (n o k : Nat) : List ω :=
  (List.range k).map fun j => s.mem d n (o + j)

variable [DecidableEq δ] [DecidableEq φ] [DecidableEq ω]

/-- Store `ws` from word `o` of window `n` on. -/
def store (mem : δ → Nat → Nat → ω) (d : δ) (n o : Nat) (ws : List ω) : δ → Nat → Nat → ω :=
  fun d' n' i => if d' = d ∧ n' = n ∧ o ≤ i then (ws[i - o]?).getD (mem d' n' i) else mem d' n' i

/-- What an event does, if it can happen. -/
def step (s : WindowService δ φ ω) : Event δ φ ω → Option (WindowService δ φ ω)
  | .plug d w =>
    match s.windows d with
    | none => some { s with windows := Function.update s.windows d (some w) }
    | some _ => none
  | .unplug d =>
    match s.windows d with
    | none => none
    | some _ =>
      some { s with
        windows := Function.update s.windows d none
        handle := fun f => if s.handle f = some (some d) then some none else s.handle f }
  | .take f d =>
    match s.handle f, s.windows d with
    | none, some _ => some { s with handle := Function.update s.handle f (some (some d)) }
    | _, _ => none
  | .giveBack f =>
    match s.handle f with
    | none => none
    | some _ => some { s with handle := Function.update s.handle f none }
  | .read f n o ws =>
    match s.target f n with
    | none => none
    | some (d, len) =>
      if o + ws.length ≤ len ∧ ws = s.wordsFrom d n o ws.length then some s else none
  | .write f n o ws =>
    match s.target f n with
    | none => none
    | some (d, len) =>
      if o + ws.length ≤ len then some { s with mem := store s.mem d n o ws } else none

/-- The service as a transition system, from any state. -/
def lts : Lts (WindowService δ φ ω) (Event δ φ ω) Unit where
  init _ := True
  step s e := (s.step e).map (·, ())

theorem lts_step {s s' : WindowService δ φ ω} {e : Event δ φ ω} :
    lts.step s e = some (s', ()) ↔ s.step e = some s' := by
  simp [lts]

/-! ## When an event can happen -/

section Steps

variable {s : WindowService δ φ ω} {d : δ} {f : φ} {n o : Nat} {ws : List ω}

theorem step_plug {w : Nat → Option Nat} (hd : s.windows d = none) :
    s.step (.plug d w) = some { s with windows := Function.update s.windows d (some w) } := by
  simp only [step, hd]

theorem step_unplug (hd : s.windows d ≠ none) :
    s.step (.unplug d) = some { s with
      windows := Function.update s.windows d none
      handle := fun f => if s.handle f = some (some d) then some none else s.handle f } := by
  cases hw : s.windows d with
  | none => exact absurd hw hd
  | some w => simp only [step, hw]

theorem step_take (hf : s.handle f = none) (hd : s.windows d ≠ none) :
    s.step (.take f d) = some { s with handle := Function.update s.handle f (some (some d)) } := by
  cases hw : s.windows d with
  | none => exact absurd hw hd
  | some w => simp only [step, hf, hw]

theorem step_giveBack (hf : s.handle f ≠ none) :
    s.step (.giveBack f) = some { s with handle := Function.update s.handle f none } := by
  cases hh : s.handle f with
  | none => exact absurd hh hf
  | some h => simp only [step, hh]

theorem step_read {len : Nat} (ht : s.target f n = some (d, len)) (hlen : o + ws.length ≤ len)
    (hws : ws = s.wordsFrom d n o ws.length) : s.step (.read f n o ws) = some s := by
  simp only [step, ht]
  exact if_pos ⟨hlen, hws⟩

theorem step_write {len : Nat} (ht : s.target f n = some (d, len)) (hlen : o + ws.length ≤ len) :
    s.step (.write f n o ws) = some { s with mem := store s.mem d n o ws } := by
  simp only [step, ht]
  exact if_pos hlen

end Steps

end WindowService
