import E2Term.Lib.Effect

/-!
# Two runs side by side

Two programs of one shape, run from two states, do alike when they both return or both raise the
same error. `Alike R V R' m m'` is a triple over pairs of states: from states related by `R` the two
runs are alike, and where they return their values are related by `V` and their states by `R'`. The
rules follow the shape of the programs, so what two runs have in common is read off the primitives
in which they differ.
-/

namespace Effect

variable {ε σ τ α β γ δ : Type}

/-- Two results that are alike. -/
inductive Agree (V : α → β → Prop) (R : σ → τ → Prop) :
    EStateM.Result ε σ α → EStateM.Result ε τ β → Prop where
  | ok {a : α} {b : β} {s : σ} {t : τ} : V a b → R s t → Agree V R (.ok a s) (.ok b t)
  | error {e : ε} {s : σ} {t : τ} : Agree V R (.error e s) (.error e t)

/-- Two programs that are alike from related states. -/
def Alike (R : σ → τ → Prop) (V : α → β → Prop) (R' : σ → τ → Prop) (m : EStateM ε σ α)
    (m' : EStateM ε τ β) : Prop :=
  ∀ s t, R s t → Agree V R' (m s) (m' t)

section Rules

variable {R Q R' : σ → τ → Prop} {U : γ → δ → Prop} {V : α → β → Prop}

/-- Where the first program returns, so does the second. -/
theorem Agree.of_ok {r : EStateM.Result ε σ α} {r' : EStateM.Result ε τ β} {a : α} {s : σ}
    (h : Agree V R r r') (hr : r = .ok a s) : ∃ b t, r' = .ok b t ∧ V a b ∧ R s t := by
  cases h with
  | ok hv hs =>
    cases hr
    exact ⟨_, _, rfl, hv, hs⟩
  | error => cases hr

theorem Agree.bind {m : EStateM ε σ γ} {m' : EStateM ε τ δ} {f : γ → EStateM ε σ α}
    {f' : δ → EStateM ε τ β} {s : σ} {t : τ} (hm : Agree U Q (m s) (m' t))
    (hf : ∀ a b, U a b → Alike Q V R' (f a) (f' b)) :
    Agree V R' ((m >>= f) s) ((m' >>= f') t) := by
  cases hms : m s with
  | ok a s' =>
    obtain ⟨b, t', hms', hu, hq⟩ := hm.of_ok hms
    rw [bind_of_ok hms, bind_of_ok hms']
    exact hf a b hu s' t' hq
  | error e s' =>
    rw [hms] at hm
    cases hms' : m' t with
    | ok b t' =>
      rw [hms'] at hm
      cases hm
    | error e' t' =>
      rw [hms'] at hm
      cases hm
      rw [bind_of_error hms, bind_of_error hms']
      exact .error

theorem Alike.bind {m : EStateM ε σ γ} {m' : EStateM ε τ δ} {f : γ → EStateM ε σ α}
    {f' : δ → EStateM ε τ β} (hm : Alike R U Q m m')
    (hf : ∀ a b, U a b → Alike Q V R' (f a) (f' b)) : Alike R V R' (m >>= f) (m' >>= f') :=
  fun s t hs => (hm s t hs).bind hf

theorem Alike.pure {a : α} {b : β} (h : V a b) :
    Alike R V R (pure a : EStateM ε σ α) (pure b : EStateM ε τ β) :=
  fun _ _ hs => .ok h hs

theorem Alike.throw (e : ε) :
    Alike R V R' (throw e : EStateM ε σ α) (throw e : EStateM ε τ β) :=
  fun _ _ _ => .error

/-- Both programs read their state first. -/
theorem Alike.get_bind {f : σ → EStateM ε σ α} {f' : τ → EStateM ε τ β}
    (hf : ∀ s t, R s t → Agree V R' (f s s) (f' t t)) :
    Alike R V R' ((MonadState.get : EStateM ε σ σ) >>= f)
      ((MonadState.get : EStateM ε τ τ) >>= f') := hf

theorem Alike.modify {f : σ → σ} {g : τ → τ} (h : ∀ s t, R s t → R' (f s) (g t)) :
    Alike R (fun _ _ => True) R' (modify f : EStateM ε σ PUnit)
      (modify g : EStateM ε τ PUnit) :=
  fun s t hs => .ok trivial (h s t hs)

theorem Alike.modifyGet {f : σ → α × σ} {g : τ → β × τ}
    (hv : ∀ s t, R s t → V (f s).1 (g t).1) (hr : ∀ s t, R s t → R' (f s).2 (g t).2) :
    Alike R V R' (modifyGet f : EStateM ε σ α) (modifyGet g : EStateM ε τ β) :=
  fun s t hs => .ok (hv s t hs) (hr s t hs)

theorem Agree.mono {V' : α → β → Prop} {r : EStateM.Result ε σ α} {r' : EStateM.Result ε τ β}
    (h : Agree V R r r') (hv : ∀ a b, V a b → V' a b) (hr : ∀ s t, R s t → R' s t) :
    Agree V' R' r r' := by
  cases h with
  | ok hab hst => exact .ok (hv _ _ hab) (hr _ _ hst)
  | error => exact .error

/-- Programs that are alike from more states, and end in fewer. -/
theorem Alike.consequence {P : σ → τ → Prop} {m : EStateM ε σ α} {m' : EStateM ε τ β}
    (h : Alike R V Q m m') (hpre : ∀ s t, P s t → R s t) (hpost : ∀ s t, Q s t → R' s t) :
    Alike P V R' m m' :=
  fun s t hs => (h s t (hpre s t hs)).mono (fun _ _ hv => hv) hpost

end Rules

end Effect
