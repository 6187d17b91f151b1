import E2Term.Lib.Effect

/-!
# Instrumented computations

An instrumented program has a record beside its own state, which it writes and never reads. `lift`
runs a part of the program, `note` writes to the record, and `Erases m' m` says that `m'` without
its record is `m`; the rules follow the shape of the program.
-/

namespace Instrument

open Effect

variable {ε σ τ α β : Type}

/-- A part of the program, which leaves the record alone. -/
def lift (m : EStateM ε σ α) : EStateM ε (σ × τ) α := fun s =>
  match m s.1 with
  | .ok a s' => .ok a (s', s.2)
  | .error e s' => .error e (s', s.2)

/-- A write to the record, with a value that is taken from it. -/
def note (f : σ → τ → α × τ) : EStateM ε (σ × τ) α := fun s =>
  .ok (f s.1 s.2).1 (s.1, (f s.1 s.2).2)

/-- A result without the record. -/
def erase : EStateM.Result ε (σ × τ) α → EStateM.Result ε σ α
  | .ok a s => .ok a s.1
  | .error e s => .error e s.1

/-- The instrumented `m'` does what `m` does. -/
def Erases (m' : EStateM ε (σ × τ) α) (m : EStateM ε σ α) : Prop :=
  ∀ s t, erase (m' (s, t)) = m s

/-! ## Erasing the record -/

section Erasure

theorem Erases.pure (a : α) : Erases (τ := τ) (pure a : EStateM ε (σ × τ) α) (pure a) :=
  fun _ _ => rfl

theorem Erases.lift (m : EStateM ε σ α) : Erases (τ := τ) (lift m) m := by
  intro s t
  unfold Instrument.lift
  dsimp only
  cases m s <;> rfl

theorem Erases.bind {m' : EStateM ε (σ × τ) α} {m : EStateM ε σ α}
    {f' : α → EStateM ε (σ × τ) β} {f : α → EStateM ε σ β} (hm : Erases m' m)
    (hf : ∀ a, Erases (f' a) (f a)) : Erases (m' >>= f') (m >>= f) := by
  intro s t
  have hrun := hm s t
  cases hms : m' (s, t) with
  | ok a st =>
    rw [hms] at hrun
    rw [bind_of_ok hms, bind_of_ok hrun.symm]
    exact hf a st.1 st.2
  | error e st =>
    rw [hms] at hrun
    rw [bind_of_error hms, bind_of_error hrun.symm]
    rfl

/-- A part in front of which something is written to the record. -/
theorem Erases.note_bind {f : σ → τ → β × τ} {k : β → EStateM ε (σ × τ) α} {m : EStateM ε σ α}
    (hk : ∀ b, Erases (k b) m) : Erases (note f >>= k) m :=
  fun s t => hk (f s t).1 s (f s t).2

end Erasure

/-! ## Running an instrumented program -/

section Running

variable {s s' : σ} {t : τ} {a : α} {e : ε}

theorem lift_of_ok {m : EStateM ε σ α} (h : m s = .ok a s') : lift m (s, t) = .ok a (s', t) := by
  unfold lift
  rw [h]

theorem lift_of_error {m : EStateM ε σ α} (h : m s = .error e s') :
    lift m (s, t) = .error e (s', t) := by
  unfold lift
  rw [h]

theorem note_eq (f : σ → τ → α × τ) (s : σ) (t : τ) :
    (note f : EStateM ε (σ × τ) α) (s, t) = .ok (f s t).1 (s, (f s t).2) := rfl

/-- What is said of the record alone, no part of the program changes. -/
theorem keeps_lift (J : τ → Prop) (m : EStateM ε σ α) :
    Keeps (fun _ => True) (fun s => J s.2) (lift m) := by
  rintro ⟨s, t⟩ hJ
  refine ⟨?_, fun _ _ _ => trivial⟩
  unfold lift
  dsimp only
  cases m s <;> exact hJ

end Running

end Instrument
