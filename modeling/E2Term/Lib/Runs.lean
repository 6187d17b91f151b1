import Mathlib.Tactic.Common

/-!
# Runs of a machine and their histories

A machine is a step function `step : α → EStateM ε σ Unit`; an action that raises ends the run,
so a run is made of the actions that returned. `Run step s₀ h s` is such a run: it starts in `s₀`,
its history `h` lists every action with the states before and after it, and it ends in `s`.
-/

namespace Runs

variable {ε σ α : Type}

/-- One returned action of a run. -/
structure Step (σ α : Type) where
  pre : σ
  act : α
  post : σ

/-- The runs from `s₀`, with their histories. -/
inductive Run (step : α → EStateM ε σ Unit) (s₀ : σ) : List (Step σ α) → σ → Prop where
  | start : Run step s₀ [] s₀
  | next {h : List (Step σ α)} {s s' : σ} {a : α} :
      Run step s₀ h s → step a s = .ok () s' → Run step s₀ (h ++ [⟨s, a, s'⟩]) s'

variable {step : α → EStateM ε σ Unit} {s₀ s : σ} {h : List (Step σ α)}

/-- An invariant of the history and the state, kept by every step. -/
theorem Run.history (I : List (Step σ α) → σ → Prop) (h0 : I [] s₀)
    (hs : ∀ h s a s', Run step s₀ h s → I h s → step a s = .ok () s' → I (h ++ [⟨s, a, s'⟩]) s')
    (r : Run step s₀ h s) : I h s := by
  induction r with
  | start => exact h0
  | next r hstep ih => exact hs _ _ _ _ r ih hstep

/-- An invariant of the state, kept by every step. -/
theorem Run.invariant (I : σ → Prop) (h0 : I s₀)
    (hs : ∀ s a s', I s → step a s = .ok () s' → I s') (r : Run step s₀ h s) : I s :=
  r.history (fun _ s => I s) h0 fun _ s a s' _ hI hstep => hs s a s' hI hstep

/-- Every step of the history meets `C`, which may look at what came before it. -/
def Along (C : List (Step σ α) → σ → α → Prop) (h : List (Step σ α)) : Prop :=
  ∀ before st after, h = before ++ st :: after → C before st.pre st.act

theorem along_nil (C : List (Step σ α) → σ → α → Prop) : Along C [] := by
  intro before st after heq
  simp at heq

theorem along_append (C : List (Step σ α) → σ → α → Prop) (h : List (Step σ α)) (st : Step σ α) :
    Along C (h ++ [st]) ↔ Along C h ∧ C h st.pre st.act := by
  constructor
  · intro hC
    refine ⟨fun before st' after heq => ?_, hC h st [] rfl⟩
    exact hC before st' (after ++ [st]) (by simp [heq])
  · rintro ⟨hC, hst⟩ before st' after heq
    rcases List.eq_nil_or_concat after with rfl | ⟨after', st'', rfl⟩
    · obtain ⟨rfl, hlast⟩ := List.append_inj' heq rfl
      simp only [List.cons.injEq, and_true] at hlast
      subst hlast
      exact hst
    · rw [List.concat_eq_append, ← List.cons_append, ← List.append_assoc] at heq
      exact hC before st' after' (List.append_inj' heq rfl).1

theorem along_iff_forall (C : σ → α → Prop) (h : List (Step σ α)) :
    Along (fun _ => C) h ↔ ∀ st ∈ h, C st.pre st.act := by
  constructor
  · intro hC st hst
    obtain ⟨before, after, heq⟩ := List.append_of_mem hst
    exact hC before st after heq
  · exact fun hC before st after heq => hC st (by simp [heq])

/-- An invariant of the history and the state, kept by the steps that meet a condition, holds at
the end of every run all of whose steps meet it. -/
theorem Run.history_of (I : List (Step σ α) → σ → Prop) (C : List (Step σ α) → σ → α → Prop)
    (h0 : I [] s₀)
    (hs : ∀ h s a s', Run step s₀ h s → I h s → C h s a → step a s = .ok () s' →
      I (h ++ [⟨s, a, s'⟩]) s')
    (r : Run step s₀ h s) (hC : Along C h) : I h s := by
  refine r.history (fun h s => Along C h → I h s) (fun _ => h0) ?_ hC
  intro h s a s' r ih hstep hC
  obtain ⟨hbefore, hlast⟩ := (along_append C h _).mp hC
  exact hs h s a s' r (ih hbefore) hlast hstep

/-- An invariant of the state, kept by the steps that meet a condition, holds at the end of every
run all of whose steps meet it. -/
theorem Run.invariant_of (I : σ → Prop) (C : σ → α → Prop) (h0 : I s₀)
    (hs : ∀ h s a s', Run step s₀ h s → I s → C s a → step a s = .ok () s' → I s')
    (r : Run step s₀ h s) (hC : ∀ st ∈ h, C st.pre st.act) : I s :=
  r.history_of (fun _ => I) (fun _ => C) h0 hs ((along_iff_forall C h).mpr hC)

/-- Where a step of the run leads from `I` to `I` exactly when it meets `C`, the run stays in `I`
exactly when all of its steps meet `C`. -/
theorem Run.along_iff (I : List (Step σ α) → σ → Prop) (C : List (Step σ α) → σ → α → Prop)
    (h0 : I [] s₀) (r : Run step s₀ h s)
    (hs : ∀ before st after, h = before ++ st :: after → Run step s₀ before st.pre →
      step st.act st.pre = .ok () st.post → I before st.pre →
      (I (before ++ [st]) st.post ↔ C before st.pre st.act)) :
    (Along (fun before s _ => I before s) h ∧ I h s) ↔ Along C h := by
  induction r with
  | start => simp only [along_nil, h0, and_self]
  | @next h s s' a r hstep ih =>
    have ih := ih fun before st after heq =>
      hs before st (after ++ [⟨s, a, s'⟩]) (by rw [heq, List.append_assoc]; rfl)
    rw [along_append, along_append, ih]
    exact and_congr_right fun hC => hs h ⟨s, a, s'⟩ [] rfl r hstep (ih.mpr hC).2

/-- The same for an invariant of the state alone. -/
theorem Run.always_iff (I : σ → Prop) (C : σ → α → Prop) (h0 : I s₀)
    (hs : ∀ h s a s', Run step s₀ h s → step a s = .ok () s' → I s → (I s' ↔ C s a))
    (r : Run step s₀ h s) :
    ((∀ st ∈ h, I st.pre) ∧ I s) ↔ ∀ st ∈ h, C st.pre st.act := by
  have hiff := r.along_iff (fun _ => I) (fun _ => C) h0 fun before st _ _ r' hstep =>
    hs before st.pre st.act st.post r' hstep
  rwa [along_iff_forall fun s _ => I s, along_iff_forall C] at hiff

/-- A step of a run was taken from a state that the run reached, and the run goes on after it. -/
theorem Run.split (r : Run step s₀ h s) :
    ∀ before st after, h = before ++ st :: after →
      Run step s₀ before st.pre ∧ step st.act st.pre = .ok () st.post ∧
        Run step st.post after s := by
  refine r.history (fun h s => ∀ before st after, h = before ++ st :: after →
      Run step s₀ before st.pre ∧ step st.act st.pre = .ok () st.post ∧
        Run step st.post after s) (by simp) ?_
  intro h s a s' r ih hstep before st after heq
  rcases List.eq_nil_or_concat after with rfl | ⟨after', st', rfl⟩
  · obtain ⟨rfl, hst⟩ := List.append_inj' heq rfl
    simp only [List.cons.injEq, and_true] at hst
    subst hst
    exact ⟨r, hstep, .start⟩
  · rw [List.concat_eq_append, ← List.cons_append, ← List.append_assoc] at heq
    obtain ⟨hh, hst⟩ := List.append_inj' heq rfl
    simp only [List.cons.injEq, and_true] at hst
    subst hst
    obtain ⟨hbefore, hthis, hafter⟩ := ih before st after' hh
    rw [List.concat_eq_append]
    exact ⟨hbefore, hthis, hafter.next hstep⟩

theorem Run.eq_of_nil (r : Run step s₀ [] s) : s = s₀ := by
  generalize hh : ([] : List (Step σ α)) = h at r
  cases r with
  | start => rfl
  | next => simp at hh

/-- A step begins where the one before it ended. -/
theorem Run.pre_eq_post (r : Run step s₀ h s) (before : List (Step σ α))
    {after : List (Step σ α)} {st st' : Step σ α} (hh : h = before ++ st :: st' :: after) :
    st'.pre = st.post :=
  ((r.split before st _ hh).2.2.split [] st' after rfl).1.eq_of_nil

theorem Run.step_of_mem (r : Run step s₀ h s) {st : Step σ α} (hst : st ∈ h) :
    step st.act st.pre = .ok () st.post := by
  obtain ⟨before, after, heq⟩ := List.append_of_mem hst
  exact (r.split before st after heq).2.1

/-- A run goes on where another one ended. -/
theorem Run.append {h' : List (Step σ α)} {s' : σ} (r : Run step s₀ h s) (r' : Run step s h' s') :
    Run step s₀ (h ++ h') s' := by
  induction r' with
  | start => simpa using r
  | next _ hstep ih =>
    rw [← List.append_assoc]
    exact ih.next hstep

theorem Run.single {a : α} {s' : σ} (hstep : step a s = .ok () s') :
    Run step s [⟨s, a, s'⟩] s' := by
  simpa using Run.start.next hstep

/-! ## Running a list of actions -/

/-- The history and the last state of a list of actions, `none` when one of them raises. -/
def exec (step : α → EStateM ε σ Unit) : σ → List α → Option (List (Step σ α) × σ)
  | s, [] => some ([], s)
  | s, a :: as =>
    match step a s with
    | .ok () s' => (exec step s' as).map fun p => (⟨s, a, s'⟩ :: p.1, p.2)
    | .error _ _ => none

theorem Run.append_exec (as : List α) : ∀ {h : List (Step σ α)} {s : σ} {p : List (Step σ α) × σ},
    Run step s₀ h s → exec step s as = some p → Run step s₀ (h ++ p.1) p.2 := by
  induction as with
  | nil =>
    intro h s p r hp
    cases hp
    simpa using r
  | cons a as ih =>
    intro h s p r hp
    simp only [exec] at hp
    cases hstep : step a s with
    | error e s' => simp [hstep] at hp
    | ok u s' =>
      simp only [hstep, Option.map_eq_some_iff] at hp
      obtain ⟨q, hq, rfl⟩ := hp
      simpa using ih (r.next hstep) hq

/-- A list of actions that all return is a run. -/
theorem Run.of_exec {as : List α} {p : List (Step σ α) × σ} (hp : exec step s₀ as = some p) :
    Run step s₀ p.1 p.2 := by
  simpa using Run.append_exec as Run.start hp

theorem exec_acts (as : List α) : ∀ {s : σ} {p : List (Step σ α) × σ},
    exec step s as = some p → p.1.map Step.act = as := by
  induction as with
  | nil =>
    intro s p hp
    cases hp
    rfl
  | cons a as ih =>
    intro s p hp
    simp only [exec] at hp
    cases hstep : step a s with
    | error e s' => simp [hstep] at hp
    | ok u s' =>
      simp only [hstep, Option.map_eq_some_iff] at hp
      obtain ⟨q, hq, rfl⟩ := hp
      rw [List.map_cons, ih hq]

/-- What a list of actions is seen to reach, a run of these actions reaches. -/
theorem Run.of_any (as : List α) (P : List (Step σ α) × σ → Bool)
    (h : (exec step s₀ as).any P = true) :
    ∃ h s, Run step s₀ h s ∧ h.map Step.act = as ∧ P (h, s) = true := by
  cases hp : exec step s₀ as with
  | none =>
    rw [hp] at h
    cases h
  | some p =>
    rw [hp] at h
    exact ⟨p.1, p.2, Run.of_exec hp, exec_acts as hp, h⟩

end Runs
