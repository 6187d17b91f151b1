import Mathlib.Tactic.Common

/-!
# Encoders and decoders of bit streams

An encoder puts bits behind the ones that are there already, a decoder takes bits from the front of
what is left. Both may look at their place in the current octet, so what an encoder puts depends on
where it starts, and a decoder is told of bits from a place on. `RoundTrips` pairs the two for a
value; it composes along the steps of a format, without a look at the bits.
-/

/-- States that bits are put into. -/
class BitSink (σ : Type) where
  bits : σ → List Bool

/-- States that bits are taken from; `off` is how many are gone, `behind` how many are there that do
not count. -/
class BitSource (τ : Type) where
  off : τ → Nat
  rest : τ → List Bool
  behind : τ → Nat

namespace BitCodec

variable {σ τ : Type} [BitSink σ] [BitSource τ] {α β : Type}

/-- The encoder succeeds, and puts bits that depend on the place where it starts. -/
def Puts (f : σ → Option σ) (bs : Nat → List Bool) : Prop :=
  ∀ s, ∃ s', f s = some s' ∧ BitSink.bits s' = BitSink.bits s ++ bs (BitSink.bits s).length

/-- The bits that are left, and the place of the first one. -/
structure At (s : τ) (off behind : Nat) (bs : List Bool) : Prop where
  off_eq : BitSource.off s = off
  rest_eq : BitSource.rest s = bs
  behind_eq : BitSource.behind s = behind

/-- The decoder takes `bs` at the place `off`, whatever is behind them, and returns `a`. -/
def Gets (m : StateT τ Option α) (off : Nat) (bs : List Bool) (a : α) : Prop :=
  ∀ s behind rest, At s off behind (bs ++ rest) →
    ∃ s', m s = some (a, s') ∧ At s' (off + bs.length) behind rest

/-- What the encoder puts anywhere, the decoder takes there and returns `a`. -/
def RoundTrips (f : σ → Option σ) (m : StateT τ Option α) (a : α) : Prop :=
  ∃ bs, Puts f bs ∧ ∀ off, Gets m off (bs off) a

/-! ## Encoders -/

theorem Puts.nothing : Puts (σ := σ) some fun _ => [] :=
  fun s => ⟨s, rfl, (List.append_nil _).symm⟩

theorem Puts.bind {f g : σ → Option σ} {bs cs : Nat → List Bool} (hf : Puts f bs)
    (hg : Puts g cs) :
    Puts (fun s => f s >>= g) fun off => bs off ++ cs (off + (bs off).length) := by
  intro s
  obtain ⟨s₁, hs₁, hbits₁⟩ := hf s
  obtain ⟨s₂, hs₂, hbits₂⟩ := hg s₁
  refine ⟨s₂, ?_, ?_⟩
  · show (f s).bind g = some s₂
    rw [hs₁]
    exact hs₂
  · rw [hbits₂, hbits₁, List.length_append, List.append_assoc]

theorem Puts.unique {f : σ → Option σ} {bs cs : Nat → List Bool} (hbs : Puts f bs)
    (hcs : Puts f cs) (s : σ) : bs (BitSink.bits s).length = cs (BitSink.bits s).length := by
  obtain ⟨s₁, hs₁, hbits₁⟩ := hbs s
  obtain ⟨s₂, hs₂, hbits₂⟩ := hcs s
  have heq : s₁ = s₂ := Option.some.inj (hs₁.symm.trans hs₂)
  rw [heq, hbits₂] at hbits₁
  exact (List.append_cancel_left hbits₁).symm

/-! ## Decoders -/

theorem Gets.pure (a : α) (off : Nat) : Gets (τ := τ) (pure a) off [] a :=
  fun s _ _ hs => ⟨s, rfl, hs⟩

theorem Gets.bind {m : StateT τ Option α} {k : α → StateT τ Option β} {off : Nat}
    {bs cs : List Bool} {a : α} {b : β} (hm : Gets m off bs a)
    (hk : Gets (k a) (off + bs.length) cs b) : Gets (m >>= k) off (bs ++ cs) b := by
  intro s behind rest hs
  rw [List.append_assoc] at hs
  obtain ⟨s₁, hs₁, hat₁⟩ := hm s behind _ hs
  obtain ⟨s₂, hs₂, hat₂⟩ := hk s₁ behind rest hat₁
  refine ⟨s₂, ?_, ?_⟩
  · show (m s).bind (fun r => k r.1 r.2) = some (b, s₂)
    rw [hs₁]
    exact hs₂
  · rw [List.length_append, ← Nat.add_assoc]
    exact hat₂

theorem Gets.map {m : StateT τ Option α} {off : Nat} {bs : List Bool} {a : α}
    (hm : Gets m off bs a) (f : α → β) : Gets (f <$> m) off bs (f a) := by
  intro s behind rest hs
  obtain ⟨s', hs', hat⟩ := hm s behind rest hs
  refine ⟨s', ?_, hat⟩
  show (m s).bind (fun r => some (f r.1, r.2)) = some (f a, s')
  rw [hs']
  rfl

/-! ## Both -/

theorem RoundTrips.pure (a : α) : RoundTrips (σ := σ) (τ := τ) some (pure a) a :=
  ⟨fun _ => [], Puts.nothing, fun off => Gets.pure a off⟩

theorem RoundTrips.bind {f g : σ → Option σ} {m : StateT τ Option α}
    {k : α → StateT τ Option β} {a : α} {b : β} (hf : RoundTrips f m a)
    (hg : RoundTrips g (k a) b) : RoundTrips (fun s => f s >>= g) (m >>= k) b := by
  obtain ⟨bs, hputs, hgets⟩ := hf
  obtain ⟨cs, hputs', hgets'⟩ := hg
  exact ⟨_, hputs.bind hputs', fun off => (hgets off).bind (hgets' _)⟩

theorem RoundTrips.map {f : σ → Option σ} {m : StateT τ Option α} {a : α}
    (h : RoundTrips f m a) (g : α → β) : RoundTrips f (g <$> m) (g a) := by
  obtain ⟨bs, hputs, hgets⟩ := h
  exact ⟨bs, hputs, fun off => (hgets off).map g⟩

/-- What is done with the value may fail for other ones. -/
theorem RoundTrips.check {f : σ → Option σ} {m : StateT τ Option α} {k : α → StateT τ Option β}
    {a : α} {b : β} (h : RoundTrips f m a) (hk : k a = Pure.pure b) :
    RoundTrips f (m >>= k) b := by
  obtain ⟨bs, hputs, hgets⟩ := h
  refine ⟨bs, hputs, fun off => ?_⟩
  have hread := (hgets off).bind (k := k) (by
    rw [hk]
    exact Gets.pure b _)
  rwa [List.append_nil] at hread

theorem RoundTrips.isSome {f : σ → Option σ} {m : StateT τ Option α} {a : α}
    (h : RoundTrips f m a) (s : σ) : (f s).isSome := by
  obtain ⟨_, hputs, -⟩ := h
  obtain ⟨s', hs', -⟩ := hputs s
  rw [hs']
  rfl

/-- There is no round trip where the decoder, given the bits and no more, does not return the value
or does not take them all. -/
theorem not_roundTrips {f : σ → Option σ} {m : StateT τ Option α} {a : α} {bs : Nat → List Bool}
    (hputs : Puts f bs) (s : σ) {t : τ} {behind : Nat}
    (ht : At t (BitSink.bits s).length behind (bs (BitSink.bits s).length))
    (hne : ∀ t', m t = some (a, t') → BitSource.rest t' ≠ []) : ¬ RoundTrips f m a := by
  rintro ⟨cs, hcs, hgets⟩
  rw [hputs.unique hcs s, ← List.append_nil (cs _)] at ht
  obtain ⟨t', ht', hat⟩ := hgets _ t behind [] ht
  exact hne t' ht' hat.rest_eq

/-- The same behind a step that does come back. -/
theorem not_roundTrips_bind {f g : σ → Option σ} {m : StateT τ Option α}
    {k : α → StateT τ Option β} {a : α} {b : β} {bs cs : Nat → List Bool} (hf : Puts f bs)
    (hm : ∀ off, Gets m off (bs off) a) (hg : Puts g cs) (s : σ) {t : τ} {behind : Nat}
    (ht : At t (BitSink.bits s).length behind (bs (BitSink.bits s).length ++
      cs ((BitSink.bits s).length + (bs (BitSink.bits s).length).length)))
    (hne : ∀ t₁, At t₁ ((BitSink.bits s).length + (bs (BitSink.bits s).length).length) behind
        (cs ((BitSink.bits s).length + (bs (BitSink.bits s).length).length)) →
      ∀ t', k a t₁ = some (b, t') → BitSource.rest t' ≠ []) :
    ¬ RoundTrips (fun s => f s >>= g) (m >>= k) b := by
  refine not_roundTrips (hf.bind hg) s ht fun t' ht' => ?_
  obtain ⟨t₁, ht₁, hat⟩ := hm _ t behind _ ht
  have hrun : (m t).bind (fun r => k r.1 r.2) = some (b, t') := ht'
  rw [ht₁] at hrun
  exact hne t₁ hat t' hrun

/-- Nor where bits are put behind those that the decoder takes. -/
theorem not_roundTrips_behind {f g : σ → Option σ} {m : StateT τ Option α} {a : α}
    {cs : Nat → List Bool} (hf : RoundTrips f m a) (hg : Puts g cs) (hne : ∀ off, cs off ≠ [])
    (hsource : ∀ off bs, ∃ (t : τ) (behind : Nat), At t off behind bs) (s : σ) :
    ¬ RoundTrips (fun s => f s >>= g) m a := by
  obtain ⟨bs, hputs, hgets⟩ := hf
  obtain ⟨t, behind, ht⟩ := hsource (BitSink.bits s).length (bs (BitSink.bits s).length ++
    cs ((BitSink.bits s).length + (bs (BitSink.bits s).length).length))
  refine not_roundTrips (hputs.bind hg) s ht fun t' ht' => ?_
  obtain ⟨t₁, ht₁, hat⟩ := hgets _ t behind _ ht
  obtain rfl : t' = t₁ := congrArg Prod.snd (Option.some.inj (ht'.symm.trans ht₁))
  rw [hat.rest_eq]
  exact hne _

/-! ## Lists -/

/-- A decoder run `n` times. -/
def repeatGet (m : StateT τ Option α) : Nat → StateT τ Option (List α)
  | 0 => Pure.pure []
  | n + 1 => m >>= fun a => (a :: ·) <$> repeatGet m n

/-- The elements of a list one after another, with their number known. -/
theorem RoundTrips.list {f : α → σ → Option σ} {m : StateT τ Option α} {as : List α}
    (h : ∀ a ∈ as, RoundTrips (f a) m a) :
    RoundTrips (fun s => as.foldlM (fun s a => f a s) s) (repeatGet m as.length) as := by
  induction as with
  | nil => exact RoundTrips.pure []
  | cons a as ih =>
    rw [List.forall_mem_cons] at h
    exact h.1.bind ((ih h.2).map (a :: ·))

/-! ## Locality -/

theorem At.self (s : τ) :
    At s (BitSource.off s) (BitSource.behind s) (BitSource.rest s) := ⟨rfl, rfl, rfl⟩

/-- The decoder looks at its place and at the bits that it takes, and at nothing else. -/
def IsLocal (m : StateT τ Option α) : Prop :=
  ∀ s a s', m s = some (a, s') →
    ∃ bs, BitSource.rest s = bs ++ BitSource.rest s' ∧ Gets m (BitSource.off s) bs a

/-- What is gone is counted. -/
theorem Gets.off_eq {m : StateT τ Option α} {s s' : τ} {bs : List Bool} {a b : α}
    (h : Gets m (BitSource.off s) bs a) (hrest : BitSource.rest s = bs ++ BitSource.rest s')
    (hs : m s = some (b, s')) :
    b = a ∧ BitSource.off s' = BitSource.off s + bs.length ∧
      BitSource.behind s' = BitSource.behind s := by
  obtain ⟨s₁, hs₁, hat⟩ := h s _ _ (hrest ▸ At.self s)
  have heq := Option.some.inj (hs.symm.trans hs₁)
  have hstate : s' = s₁ := congrArg Prod.snd heq
  rw [hstate]
  exact ⟨congrArg Prod.fst heq, hat.off_eq, hat.behind_eq⟩

theorem IsLocal.pure (a : α) : IsLocal (τ := τ) (pure a) := by
  intro s b s' hs
  obtain ⟨rfl, rfl⟩ := Prod.mk.inj (Option.some.inj hs)
  exact ⟨[], rfl, Gets.pure a _⟩

theorem IsLocal.failure : IsLocal (τ := τ) (failure : StateT τ Option α) := by
  intro s a s' hs
  cases hs

theorem IsLocal.lift (a : Option α) : IsLocal (τ := τ) (StateT.lift a) := by
  cases a with
  | none => exact IsLocal.failure
  | some a => exact IsLocal.pure a

theorem IsLocal.bind {m : StateT τ Option α} {k : α → StateT τ Option β} (hm : IsLocal m)
    (hk : ∀ a, IsLocal (k a)) : IsLocal (m >>= k) := by
  intro s b s'' hs
  obtain ⟨⟨a, s'⟩, hs', hrun⟩ := Option.bind_eq_some_iff.mp hs
  obtain ⟨bs, hrest, hgets⟩ := hm s a s' hs'
  obtain ⟨cs, hrest', hgets'⟩ := hk a s' b s'' hrun
  rw [(hgets.off_eq hrest hs').2.1] at hgets'
  exact ⟨bs ++ cs, by rw [hrest, hrest', List.append_assoc], hgets.bind hgets'⟩

theorem IsLocal.map {m : StateT τ Option α} (hm : IsLocal m) (f : α → β) :
    IsLocal (f <$> m) := by
  intro s b s' hs
  obtain ⟨⟨a, s₁⟩, hs₁, hrun⟩ := Option.bind_eq_some_iff.mp hs
  obtain ⟨rfl, rfl⟩ := Prod.mk.inj (Option.some.inj hrun)
  obtain ⟨bs, hrest, hgets⟩ := hm s a s₁ hs₁
  exact ⟨bs, hrest, hgets.map f⟩

theorem IsLocal.ite {c : Prop} [Decidable c] {m m' : StateT τ Option α} (h : IsLocal m)
    (h' : IsLocal m') : IsLocal (if c then m else m') := by
  split
  · exact h
  · exact h'

theorem IsLocal.repeatGet {m : StateT τ Option α} (hm : IsLocal m) (n : Nat) :
    IsLocal (repeatGet m n) := by
  induction n with
  | zero => exact IsLocal.pure []
  | succ n ih => exact hm.bind fun a => ih.map (a :: ·)

/-- More bits behind those that were there change nothing. -/
theorem IsLocal.append {m : StateT τ Option α} (hm : IsLocal m) {s s' t : τ} {a : α}
    {behind : Nat} {more : List Bool} (hs : m s = some (a, s'))
    (ht : At t (BitSource.off s) behind (BitSource.rest s ++ more)) :
    ∃ t', m t = some (a, t') ∧
      At t' (BitSource.off s') behind (BitSource.rest s' ++ more) := by
  obtain ⟨bs, hrest, hgets⟩ := hm s a s' hs
  rw [hrest, List.append_assoc] at ht
  rw [(hgets.off_eq hrest hs).2.1]
  exact hgets t behind _ ht

/-- With bits missing at the end there is no answer. -/
theorem IsLocal.eq_none {m : StateT τ Option α} (hm : IsLocal m) {off behind behind' : Nat}
    {s t : τ} {bs cs : List Bool} {a : α} (hget : Gets m off (bs ++ cs) a) (hcs : cs ≠ [])
    (hs : At s off behind bs) (ht : At t off behind' (bs ++ cs)) : m s = none := by
  cases hrun : m s with
  | none => rfl
  | some r =>
    obtain ⟨t₁, ht₁, hat₁⟩ := hm.append hrun (by rwa [hs.off_eq, hs.rest_eq])
    obtain ⟨t₂, ht₂, hat₂⟩ := hget t behind' [] (by rwa [List.append_nil])
    have hsame : t₁ = t₂ := congrArg Prod.snd (Option.some.inj (ht₁.symm.trans ht₂))
    have hrest := hat₁.rest_eq
    rw [hsame, hat₂.rest_eq] at hrest
    exact absurd (List.append_eq_nil_iff.mp hrest.symm).2 hcs

/-! ## What comes out -/

omit [BitSource τ]

/-- What the decoder returns has the property. -/
def Returns (m : StateT τ Option α) (P : α → Prop) : Prop :=
  ∀ s a s', m s = some (a, s') → P a

theorem Returns.mono {m : StateT τ Option α} {P Q : α → Prop} (hm : Returns m P)
    (h : ∀ a, P a → Q a) : Returns m Q := fun s a s' hs => h a (hm s a s' hs)

theorem Returns.trivial (m : StateT τ Option α) : Returns m fun _ => True := fun _ _ _ _ => ⟨⟩

theorem Returns.pure {P : α → Prop} {a : α} (h : P a) : Returns (τ := τ) (pure a) P := by
  intro s b s' hs
  obtain ⟨rfl, rfl⟩ := Prod.mk.inj (Option.some.inj hs)
  exact h

theorem Returns.failure {P : α → Prop} : Returns (failure : StateT τ Option α) P := by
  intro s a s' hs
  cases hs

theorem Returns.lift {P : α → Prop} {a : Option α} (h : ∀ b, a = some b → P b) :
    Returns (τ := τ) (StateT.lift a) P := by
  cases a with
  | none => exact Returns.failure
  | some b => exact Returns.pure (h b rfl)

theorem Returns.bind {m : StateT τ Option α} {k : α → StateT τ Option β} {P : α → Prop}
    {Q : β → Prop} (hm : Returns m P) (hk : ∀ a, P a → Returns (k a) Q) :
    Returns (m >>= k) Q := by
  intro s b s'' hs
  obtain ⟨⟨a, s'⟩, hs', hrun⟩ := Option.bind_eq_some_iff.mp hs
  exact hk a (hm s a s' hs') s' b s'' hrun

theorem Returns.map {m : StateT τ Option α} {P : α → Prop} {Q : β → Prop} {f : α → β}
    (hm : Returns m P) (h : ∀ a, P a → Q (f a)) : Returns (f <$> m) Q := by
  intro s b s' hs
  obtain ⟨⟨a, s₁⟩, hs₁, hrun⟩ := Option.bind_eq_some_iff.mp hs
  obtain ⟨rfl, rfl⟩ := Prod.mk.inj (Option.some.inj hrun)
  exact h a (hm s a s₁ hs₁)

theorem Returns.ite {c : Prop} [Decidable c] {m m' : StateT τ Option α} {P : α → Prop}
    (h : c → Returns m P) (h' : ¬ c → Returns m' P) : Returns (if c then m else m') P := by
  split
  · exact h ‹_›
  · exact h' ‹_›

theorem Returns.repeatGet {m : StateT τ Option α} {P : α → Prop} (hm : Returns m P) (n : Nat) :
    Returns (repeatGet m n) fun as => as.length = n ∧ ∀ a ∈ as, P a := by
  induction n with
  | zero => exact Returns.pure ⟨rfl, fun _ h => absurd h List.not_mem_nil⟩
  | succ n ih =>
    refine hm.bind fun a ha => ih.map fun as has => ⟨congrArg (· + 1) has.1, ?_⟩
    exact List.forall_mem_cons.mpr ⟨ha, has.2⟩

end BitCodec
