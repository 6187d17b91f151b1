import Mathlib.Tactic.Common

/-!
# Computations that keep an invariant, also when they raise

A program that may stop in the middle is an `EStateM` computation: it returns or raises, and
either way it leaves a state behind. `Keeps E I m` says that `m`, started where `I` holds, leaves
`I` behind on both exits and raises only errors in `E`. The rules follow the shape of the program,
so an invariant of a long handler is read off its primitives. A two-state relation `R` is the
invariant `R s₀` for every `s₀`; `Moves R` is that instance.
-/

namespace Effect

variable {ε σ α β : Type}

/-- The state a computation ends in, whether it returned or raised. -/
def final : EStateM.Result ε σ α → σ
  | .ok _ s => s
  | .error _ s => s

/-- A result that returned, with a value and a state that meet `P`. -/
def Returned (P : α → σ → Prop) (r : EStateM.Result ε σ α) : Prop := ∃ a s, r = .ok a s ∧ P a s

/-- A result that raised `e`. -/
def Raised (e : ε) (r : EStateM.Result ε σ α) : Prop := ∃ s, r = .error e s

instance {P : α → σ → Prop} [∀ a s, Decidable (P a s)] :
    (r : EStateM.Result ε σ α) → Decidable (Returned P r)
  | .ok a s => decidable_of_iff (P a s)
      ⟨fun h => ⟨a, s, rfl, h⟩, fun ⟨_, _, heq, h⟩ => by cases heq; exact h⟩
  | .error _ _ => .isFalse fun ⟨_, _, heq, _⟩ => by cases heq

instance [DecidableEq ε] {e : ε} : (r : EStateM.Result ε σ α) → Decidable (Raised e r)
  | .ok _ _ => .isFalse fun ⟨_, heq⟩ => by cases heq
  | .error e' s => decidable_of_iff (e' = e)
      ⟨fun h => ⟨s, by rw [h]⟩, fun ⟨_, heq⟩ => by cases heq; rfl⟩

/-- A result that left `I` behind and is no error outside `E`. -/
structure Ends (E : ε → Prop) (I : σ → Prop) (r : EStateM.Result ε σ α) : Prop where
  state : I (final r)
  raised : ∀ e s, r = .error e s → E e

/-- `m` preserves `I` on both exits and raises only errors in `E`. -/
def Keeps (E : ε → Prop) (I : σ → Prop) (m : EStateM ε σ α) : Prop :=
  ∀ s, I s → Ends E I (m s)

/-- Every run of `m` takes its start state to its end state by `R`, also a run that raises. -/
def Moves (R : σ → σ → Prop) (m : EStateM ε σ α) : Prop :=
  ∀ s₀, Keeps (fun _ => True) (R s₀) m

section Rules

variable {E : ε → Prop} {I : σ → Prop}

theorem Keeps.pure (a : α) : Keeps E I (pure a : EStateM ε σ α) := by
  intro s hs
  refine ⟨hs, fun e s' h => ?_⟩
  cases h

theorem Keeps.get : Keeps E I (get : EStateM ε σ σ) := by
  intro s hs
  refine ⟨hs, fun e s' h => ?_⟩
  cases h

theorem Keeps.throw {e : ε} (he : E e) : Keeps E I (throw e : EStateM ε σ α) := by
  intro s hs
  refine ⟨hs, fun e' s' h => ?_⟩
  cases h
  exact he

theorem Keeps.modify {f : σ → σ} (hf : ∀ s, I s → I (f s)) :
    Keeps E I (modify f : EStateM ε σ PUnit) := by
  intro s hs
  refine ⟨hf s hs, fun e s' h => ?_⟩
  cases h

theorem Keeps.modifyGet {f : σ → α × σ} (hf : ∀ s, I s → I (f s).2) :
    Keeps E I (modifyGet f : EStateM ε σ α) := by
  intro s hs
  refine ⟨hf s hs, fun e s' h => ?_⟩
  cases h

/-- A first part that leaves a stronger invariant `J` behind, of which the rest makes use. -/
theorem Ends.bind {J : σ → Prop} {m : EStateM ε σ α} {f : α → EStateM ε σ β} {s : σ}
    (hJ : ∀ s, J s → I s) (hm : Ends E J (m s)) (hf : ∀ a s, J s → Ends E I (f a s)) :
    Ends E I ((m >>= f) s) := by
  obtain ⟨hfinal, hE⟩ := hm
  have hrun : (m >>= f) s = match m s with
      | .ok a s' => f a s'
      | .error e s' => .error e s' := EStateM.run_bind m f
  rw [hrun]
  cases hms : m s with
  | ok a s' =>
    rw [hms] at hfinal
    exact hf a s' hfinal
  | error e s' =>
    rw [hms] at hfinal
    refine ⟨hJ s' hfinal, fun e' s'' h => ?_⟩
    cases h
    exact hE e s' hms

theorem Keeps.bind {m : EStateM ε σ α} {f : α → EStateM ε σ β} (hm : Keeps E I m)
    (hf : ∀ a, Keeps E I (f a)) : Keeps E I (m >>= f) :=
  fun s hs => (hm s hs).bind (fun _ h => h) hf

theorem Keeps.mono {E' : ε → Prop} {m : EStateM ε σ α} (hm : Keeps E I m)
    (h : ∀ e, E e → E' e) : Keeps E' I m :=
  fun s hs => ⟨(hm s hs).state, fun e s' he => h e ((hm s hs).raised e s' he)⟩

/-- What a computation that returns leaves behind. -/
theorem Keeps.of_ok {m : EStateM ε σ α} (hm : Keeps E I m) {s s' : σ} {a : α} (hs : I s)
    (h : m s = .ok a s') : I s' := by
  have hend := hm s hs
  rw [h] at hend
  exact hend.state

/-- A computation that raises nothing returns. -/
theorem Keeps.returns {m : EStateM ε σ α} (hm : Keeps (fun _ => False) I m) {s : σ} (hs : I s) :
    ∃ a s', m s = .ok a s' ∧ I s' := by
  obtain ⟨hI, hE⟩ := hm s hs
  cases hms : m s with
  | ok a s' =>
    rw [hms] at hI
    exact ⟨a, s', rfl, hI⟩
  | error e s' => exact (hE e s' hms).elim

end Rules

/-! ## Moves -/

section Moves

variable {R : σ → σ → Prop}

theorem Moves.final {m : EStateM ε σ α} (hm : Moves R m) (hr : ∀ s, R s s) (s : σ) :
    R s (final (m s)) := (hm s s (hr s)).1

theorem Moves.of_ok {m : EStateM ε σ α} (hm : Moves R m) (hr : ∀ s, R s s) {s s' : σ} {a : α}
    (h : m s = .ok a s') : R s s' := by
  have := hm.final hr s
  rwa [h] at this

theorem Moves.pure (a : α) : Moves R (pure a : EStateM ε σ α) := fun _ => Keeps.pure a

theorem Moves.throw (e : ε) : Moves R (throw e : EStateM ε σ α) := fun _ => Keeps.throw trivial

theorem Moves.bind {m : EStateM ε σ α} {f : α → EStateM ε σ β} (hm : Moves R m)
    (hf : ∀ a, Moves R (f a)) : Moves R (m >>= f) :=
  fun s₀ => (hm s₀).bind fun a => hf a s₀

end Moves

/-! ## What a returning run did -/

theorem bind_eq_ok {m : EStateM ε σ α} {f : α → EStateM ε σ β} {s s'' : σ} {b : β} :
    (m >>= f) s = .ok b s'' ↔ ∃ a s', m s = .ok a s' ∧ f a s' = .ok b s'' := by
  have hrun : (m >>= f) s = match m s with
      | .ok a s' => f a s'
      | .error e s' => .error e s' := EStateM.run_bind m f
  rw [hrun]
  cases m s with
  | ok a s' => simp
  | error e s' => simp

theorem bind_of_ok {m : EStateM ε σ α} {f : α → EStateM ε σ β} {s s' : σ} {a : α}
    (h : m s = .ok a s') : (m >>= f) s = f a s' := by
  have hrun : (m >>= f) s = match m s with
      | .ok a s' => f a s'
      | .error e s' => .error e s' := EStateM.run_bind m f
  rw [hrun, h]

theorem bind_of_error {m : EStateM ε σ α} {f : α → EStateM ε σ β} {s s' : σ} {e : ε}
    (h : m s = .error e s') : (m >>= f) s = .error e s' := by
  have hrun : (m >>= f) s = match m s with
      | .ok a s' => f a s'
      | .error e s' => .error e s' := EStateM.run_bind m f
  rw [hrun, h]

end Effect
