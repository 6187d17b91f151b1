import E2Term.NameText
import E2Term.Setup

/-!
# RAN names and keys

A name that `buildRanName` built starts with the type of the node, so it is never taken for one of
the keys `host:…` and `msg:…` that `sctpMap` is meant to hold beside names.
-/

namespace E2Term

open CString

/-- The first letters of the node types. -/
def typeLetters : List UInt8 := [101, 103, 110]

/-- The name is empty or starts with the letter of a node type. -/
def RanName (n : Name) : Prop := ∀ b, n.head? = some b → b ∈ typeLetters

/-- The buffer is empty or starts with the letter of a node type. -/
def RanBuf (b : NameBuf) : Prop := ∃ x, b.bytes.head? = some x ∧ (x = 0 ∨ x ∈ typeLetters)

theorem RanBuf.ranName {b : NameBuf} (h : RanBuf b) : RanName b.str := by
  obtain ⟨x, hx, hx'⟩ := h
  intro y hy
  obtain ⟨t, ht⟩ := List.head?_eq_some_iff.mp hx
  unfold Buf.str chars at hy
  rw [ht, List.takeWhile_cons] at hy
  split at hy
  · rename_i hne
    cases hy
    exact hx'.resolve_left (by simpa using hne)
  · cases hy

theorem ranBuf_zeros : RanBuf (Buf.zeros maxEnodbNameSize) := ⟨0, rfl, .inl rfl⟩

theorem isInternalKey_of_ranName {n : Name} (h : RanName n) : isInternalKey n = false := by
  cases n with
  | nil => rfl
  | cons b n =>
    have hb := h b rfl
    simp only [typeLetters, List.mem_cons, List.not_mem_nil, or_false] at hb
    rcases hb with rfl | rfl | rfl <;> rfl

theorem ne_hostKey_of_ranName {n : Name} (h : RanName n) (cu : ConnectedCU) : n ≠ hostKey cu := by
  rintro rfl
  have hb := h 104 rfl
  simp [typeLetters] at hb

/-! ## Building a name -/

section Build

variable {b b' : NameBuf} {x : UInt8}

/-- A write of a text puts its first character in front. -/
theorem head_write {s : List UInt8} (hs : s.head? = some x) (h : b.write s = some b') :
    b'.bytes.head? = some x := by
  obtain ⟨t, rfl⟩ := List.head?_eq_some_iff.mp hs
  rw [Buf.write_bytes h]
  rfl

theorem head_appendText {s : List UInt8} (hb : b.bytes.head? = some x) (hx : x ≠ 0)
    (h : appendText b s = some b') : b'.bytes.head? = some x := by
  obtain ⟨t, ht⟩ := List.head?_eq_some_iff.mp hb
  refine head_write ?_ h
  unfold Buf.str chars
  rw [ht, List.takeWhile_cons, if_pos (by simpa using hx)]
  rfl

theorem head_translatePlmnId {plmn : PlmnId} {type : List UInt8} (ht : type.head? = some x)
    (h : translatePlmnId b plmn type = some b') : b'.bytes.head? = some x := by
  obtain ⟨t, rfl⟩ := List.head?_eq_some_iff.mp ht
  unfold translatePlmnId Buf.snprintf at h
  dsimp only at h
  split at h
  · exact head_write rfl h
  · exact head_write rfl h

theorem head_translateOctets {octets : List UInt8} :
    ∀ {b : NameBuf} {unused before : Nat}, b.bytes.head? = some x → x ≠ 0 →
      translateOctets b unused before octets = some b' → b'.bytes.head? = some x := by
  induction octets with
  | nil =>
    intro b unused before hb hx h
    cases h
    exact hb
  | cons octet rest ih =>
    intro b unused before hb hx h
    simp only [translateOctets, Option.bind_eq_bind, Option.bind_eq_some_iff] at h
    obtain ⟨b₁, h₁, b₂, h₂, h⟩ := h
    exact ih (head_appendText (head_appendText hb hx h₁) hx h₂) hx h

theorem head_translateBitStringToChar {data : BitString} {cuid duid : Int}
    (hb : b.bytes.head? = some x) (hx : x ≠ 0)
    (h : translateBitStringToChar b data cuid duid = some b') : b'.bytes.head? = some x := by
  simp only [translateBitStringToChar, Option.bind_eq_bind, Option.bind_eq_some_iff] at h
  obtain ⟨b₁, h₁, b₂, h₂, h⟩ := h
  have hb₂ := head_translateOctets (head_appendText hb hx h₁) hx h₂
  split at h
  · exact head_appendText hb₂ hx h
  · split at h
    · exact head_appendText hb₂ hx h
    · split at h
      · exact head_appendText hb₂ hx h
      · exact head_appendText hb₂ hx h

/-- The first character of the buffer is the letter of a node type. -/
def Headed (b : NameBuf) : Prop := ∃ x ∈ typeLetters, b.bytes.head? = some x

theorem ne_zero_of_mem_typeLetters (hx : x ∈ typeLetters) : x ≠ 0 := by
  rintro rfl
  simp [typeLetters] at hx

theorem NodeKind.head_type (k : NodeKind) : ∃ x ∈ typeLetters, k.type.head? = some x := by
  cases k <;> exact ⟨_, by decide, rfl⟩

theorem headed_build {p : NameParts} (h : p.build b = some b') : Headed b' := by
  obtain ⟨x, hx, htype⟩ := p.kind.head_type
  obtain ⟨kind, plmn, id⟩ := p
  simp only [NameParts.build, Option.bind_eq_bind, Option.bind_eq_some_iff] at h
  obtain ⟨b₁, h₁, h⟩ := h
  have hhead := head_translatePlmnId htype h₁
  cases id with
  | none =>
    cases h
    exact ⟨x, hx, hhead⟩
  | some id =>
    exact ⟨x, hx, head_translateBitStringToChar hhead (ne_zero_of_mem_typeLetters hx) h⟩

/-- `buildRanName` rejects an identity and leaves the buffer, or it builds a name that starts like a
node type or leaves the buffer. -/
theorem buildRanName_cases {g : GlobalE2nodeID} {rc : Int}
    (h : buildRanName b g = some (rc, b')) :
    (rc = -1 ∧ b' = b) ∨ (rc = 0 ∧ (b' = b ∨ Headed b')) := by
  rw [buildRanName_eq] at h
  cases hp : g.parts with
  | none =>
    rw [hp] at h
    dsimp only at h
    split at h
    · cases h
      exact .inl ⟨rfl, rfl⟩
    · cases h
      exact .inr ⟨rfl, .inl rfl⟩
  | some p =>
    rw [hp] at h
    obtain ⟨b'', hb, heq⟩ := Option.map_eq_some_iff.mp h
    cases heq
    exact .inr ⟨rfl, .inr (headed_build hb)⟩

/-- Whatever identity a name is built from, it starts like a node type or stays as it was. -/
theorem ranBuf_buildRanName {g : GlobalE2nodeID} {rc : Int} (hb : RanBuf b)
    (h : buildRanName b g = some (rc, b')) : RanBuf b' := by
  rcases buildRanName_cases h with ⟨-, rfl⟩ | ⟨-, rfl | ⟨x, hx, hhead⟩⟩
  · exact hb
  · exact hb
  · exact ⟨x, hhead, .inr hx⟩

/-- A rejected identity leaves the buffer. -/
theorem buildRanName_of_neg {g : GlobalE2nodeID} {rc : Int}
    (h : buildRanName b g = some (rc, b')) (hrc : rc < 0) : b' = b := by
  rcases buildRanName_cases h with ⟨-, heq⟩ | ⟨rfl, -⟩
  · exact heq
  · exact absurd hrc (by decide)

end Build

/-! ## The names of a setup request -/

/-- A copy of a name over a name is a name. -/
theorem ranBuf_copyStr {dst src : NameBuf} (hd : RanBuf dst) (hs : RanBuf src) :
    RanBuf (dst.copyStr src) := by
  have hbytes := Buf.copyStr_bytes dst src
  cases hstr : src.str with
  | nil =>
    rw [hstr] at hbytes
    obtain ⟨x, hx, hx'⟩ := hd
    exact ⟨x, by rw [hbytes]; exact hx, hx'⟩
  | cons y t =>
    rw [hstr] at hbytes
    exact ⟨y, by rw [hbytes]; rfl, .inr (hs.ranName y (by rw [hstr]; rfl))⟩

/-- Every name a setup request leaves is the name of a node. -/
structure SetupScan.Named (s : SetupScan) : Prop where
  message : RanBuf s.message
  peer : RanBuf s.peer
  keys : ∀ k ∈ s.keys, RanName k

theorem scanSetupIEs_named {s : SetupScan} (ies : List (ProtocolIE E2setupRequestIEs)) :
    ∀ {tid : Int} {message peer : NameBuf}, RanBuf message → RanBuf peer →
      scanSetupIEs tid message peer ies = some s → s.Named := by
  induction ies generalizing s with
  | nil =>
    intro tid message peer hm hp h
    cases h
    exact ⟨hm, hp, by simp⟩
  | cons ie rest ih =>
    intro tid message peer hm hp h
    unfold scanSetupIEs at h
    split at h
    · rename_i g _
      split at h
      · cases hb : buildRanName peer g with
        | none =>
          rw [hb] at h
          cases h
        | some r =>
          obtain ⟨rc, ranName⟩ := r
          have hr := ranBuf_buildRanName hp hb
          simp only [hb] at h
          split at h
          · cases h
            exact ⟨hm, hr, by simp⟩
          · obtain ⟨s', hs', rfl⟩ := Option.map_eq_some_iff.mp h
            have hcopy := ranBuf_copyStr hm hr
            obtain ⟨hm', hp', hk'⟩ := ih hcopy hr hs'
            refine ⟨hm', hp', fun k hk => ?_⟩
            rcases List.mem_cons.mp hk with rfl | hk
            · exact hcopy.ranName
            · exact hk' k hk
      · exact ih hm hp h
    · split at h
      · exact ih hm hp h
      · exact ih hm hp h
    · exact ih hm hp h

/-- The names that the identities of a request build, one after another in the buffer `peer`. -/
def ranNames (peer : NameBuf) : List (ProtocolIE E2setupRequestIEs) → List NameBuf
  | [] => []
  | ie :: rest =>
    match ie.value with
    | .globalE2nodeID g =>
      if ie.id = idGlobalE2nodeID then
        match buildRanName peer g with
        | none => []
        | some (rc, ranName) => if rc < 0 then [] else ranName :: ranNames ranName rest
      else ranNames peer rest
    | _ => ranNames peer rest

/-- The names of a scan: each name of the request is copied over the name for messages and
registered, and the last one is the connection's. -/
structure SetupScan.From (s : SetupScan) (message peer : NameBuf) (names : List NameBuf) :
    Prop where
  keys : s.keys = (message.copies names).map Buf.str
  message : s.message = message.copyAll names
  peer : s.peer = names.getLastD peer

theorem scanSetupIEs_from {s : SetupScan} (ies : List (ProtocolIE E2setupRequestIEs)) :
    ∀ {tid : Int} {message peer : NameBuf}, scanSetupIEs tid message peer ies = some s →
      s.From message peer (ranNames peer ies) := by
  induction ies generalizing s with
  | nil =>
    intro tid message peer h
    cases h
    exact ⟨rfl, rfl, rfl⟩
  | cons ie rest ih =>
    intro tid message peer h
    unfold scanSetupIEs at h
    unfold ranNames
    cases hv : ie.value with
    | globalE2nodeID g =>
      simp only [hv] at h ⊢
      by_cases hid : ie.id = idGlobalE2nodeID
      · rw [if_pos hid] at h ⊢
        cases hb : buildRanName peer g with
        | none =>
          rw [hb] at h
          cases h
        | some r =>
          obtain ⟨rc, ranName⟩ := r
          simp only [hb] at h ⊢
          by_cases hrc : rc < 0
          · rw [if_pos hrc] at h ⊢
            cases h
            exact ⟨rfl, rfl, buildRanName_of_neg hb hrc⟩
          · rw [if_neg hrc] at h ⊢
            obtain ⟨s', hs', rfl⟩ := Option.map_eq_some_iff.mp h
            obtain ⟨hkeys, hmessage, hpeer⟩ := ih hs'
            exact ⟨by rw [hkeys]; rfl, hmessage, by rw [hpeer, List.getLastD_cons]⟩
      · rw [if_neg hid] at h ⊢
        exact ih h
    | transactionID t =>
      simp only [hv] at h ⊢
      split at h
      · exact ih h
      · exact ih h
    | other =>
      simp only [hv] at h ⊢
      exact ih h

section From

variable {s : SetupScan} {message peer : NameBuf} {names : List NameBuf}

theorem SetupScan.From.keys_eq_nil_iff (h : s.From message peer names) :
    s.keys = [] ↔ names = [] := by
  rw [h.keys, List.map_eq_nil_iff, Buf.copies_eq_nil_iff]

theorem SetupScan.From.keys_eq_iff (h : s.From message peer names) (k : Name) :
    (∀ key ∈ s.keys, key = k) ↔ message.ReadsAs names k := by
  rw [h.keys, List.forall_mem_map, Buf.copies_str_iff]

/-- The name for messages is the last key that was registered. -/
theorem SetupScan.From.message_mem_keys (h : s.From message peer names) (hnames : names ≠ []) :
    s.message.str ∈ s.keys := by
  rw [h.keys, h.message]
  exact List.mem_map_of_mem (Buf.copyAll_mem_copies message hnames)

/-- The name for messages is the connection's exactly when the old name leaves no tail behind it. -/
theorem SetupScan.From.message_eq_iff (h : s.From message peer names) (hpeer : peer.str = []) :
    s.message.str = s.peer.str ↔ message.bytes[s.peer.str.length]? = some 0 ∧
      ∀ name ∈ names, name.str.length ≤ s.peer.str.length := by
  rw [h.message, h.peer, Buf.copyAll_str_eq_iff message names hpeer]

end From

theorem scanSetup_named {enodbName : NameBuf} {ies : List (ProtocolIE E2setupRequestIEs)}
    {s : SetupScan} (hn : RanBuf enodbName) (h : scanSetup enodbName ies = some s) : s.Named :=
  scanSetupIEs_named ies hn ranBuf_zeros h

end E2Term
