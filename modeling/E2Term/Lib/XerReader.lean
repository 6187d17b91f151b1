import E2Term.Lib.XerTypes

/-!
# Reading XML texts by type

A reader that follows a type: it reads every text of a value of the type back to the value. What
it does with other texts is its own.
-/

namespace Xer

open Digits

/-! ## Reading -/

/-- What reads something from the front of a text. -/
abbrev Reader (α : Type) := Text → Option (α × Text)

def skipLayout (s : Text) : Text := s.dropWhile isLayout

/-- The text behind `p`. -/
def eat (p s : Text) : Option Text := if p.isPrefixOf s then some (s.drop p.length) else none

/-- The characters up to the next tag. -/
def leaf (s : Text) : Text × Text := (s.takeWhile (· ≠ 60), s.dropWhile (· ≠ 60))

def digitsValue (s : Text) : Nat := s.foldl (fun n b => 10 * n + (b.toNat - 48)) 0

def readInteger (s : Text) : Option Int :=
  match s with
  | [] => none
  | b :: rest =>
    if b = 45 then
      if rest.all fun b => 48 ≤ b && b ≤ 57 then some (-digitsValue rest) else none
    else if s.all fun b => 48 ≤ b && b ≤ 57 then some (digitsValue s) else none

def upperHexValue (b : UInt8) : Option Nat :=
  if 48 ≤ b ∧ b ≤ 57 then some (b.toNat - 48)
  else if 65 ≤ b ∧ b ≤ 70 then some (b.toNat - 55)
  else none

def readOctets : Text → Option (List UInt8)
  | [] => some []
  | [_] => none
  | b :: c :: rest => do
    let high ← upperHexValue b
    let low ← upperHexValue c
    let octets ← readOctets rest
    return (16 * high + low).toUInt8 :: octets

def readBits (s : Text) : Option (List Bool) :=
  if s.all fun b => b = 48 || b = 49 then some (s.map (· = 49)) else none

def readEnumerated (ids : List Name) : Reader Value := fun s =>
  ids.findSome? fun id => (eat id.emptyTag s).map fun s => (.enumerated id, s)

def readLeaf (f : Text → Option Value) : Reader Value := fun s =>
  (f (leaf s).1).map fun v => (v, (leaf s).2)

/-- One element, with the layout in front of it. -/
def readElement {α : Type} (n : Name) (content : Reader α) : Reader α := fun s => do
  let s ← eat n.openTag (skipLayout s)
  let (v, s) ← content s
  let s ← eat n.closeTag s
  return (v, s)

/-- Whether the next element is called `n`. -/
def atElement (n : Name) (s : Text) : Bool := n.openTag.isPrefixOf (skipLayout s)

/-- At most `k` elements that are called `n`. -/
def readMany (n : Name) (content : Reader Value) : Nat → Reader Elements
  | 0, _ => none
  | k + 1, s =>
    if atElement n s then do
      let (v, s) ← readElement n content s
      let (es, s) ← readMany n content k s
      return (.cons n v es, s)
    else some (.nil, skipLayout s)

mutual

/-- A value of the type, up to the tag behind it. -/
def Typ.read : Typ → Reader Value
  | .integer => readLeaf fun s => (readInteger s).map .integer
  | .enumerated ids => readEnumerated ids
  | .octetString => readLeaf fun s => (readOctets (unlaid s)).map .octetString
  | .bitString => readLeaf fun s => (readBits (unlaid s)).map .bitString
  | .printableString => readLeaf fun s =>
    if h : ∀ b ∈ s, isPrintable b = true then some (.printableString ⟨s, h⟩) else none
  | .sequence fields => fun s => (fields.read s).map fun (es, s) => (.elements es, s)
  | .choice alternatives => fun s =>
    (alternatives.readOne s).map fun (es, s) => (.elements es, s)
  | .sequenceOf name element => fun s =>
    (readMany name element.read (s.length + 1) s).map fun (es, s) => (.elements es, s)
  | .object key criticality value ids rows => fun s => do
    let (n, s) ← readElement key
      (fun s => (readInteger (leaf s).1).map fun n => (n, (leaf s).2)) s
    let (c, s) ← readElement criticality (readEnumerated ids) s
    let (v, s) ← readElement value
      (fun s => (rows.readRow n s).map fun (es, s) => (.elements es, s)) s
    return (.elements (.cons key (.integer n) (.cons criticality c (.cons value v .nil))),
      skipLayout s)

def Fields.read : Fields → Reader Elements
  | .nil, s => some (.nil, skipLayout s)
  | .cons f t rest, s =>
    if atElement f.name s then do
      let (v, s) ← readElement f.name t.read s
      let (es, s) ← rest.read s
      return (.cons f.name v es, s)
    else if f.optional then rest.read s
    else none

def Fields.readOne : Fields → Reader Elements
  | .nil, _ => none
  | .cons f t rest, s =>
    if atElement f.name s then do
      let (v, s) ← readElement f.name t.read s
      return (.cons f.name v .nil, skipLayout s)
    else rest.readOne s

def Fields.readRow : Fields → Int → Reader Elements
  | .nil, _, _ => none
  | .cons f t rest, n, s =>
    if n = f.key then do
      let (v, s) ← readElement f.name t.read s
      return (.cons f.name v .nil, skipLayout s)
    else rest.readRow n s

end

/-- A text that is one element called `n`, with layout around it. -/
def readDocument (n : Name) (t : Typ) (s : Text) : Option Value :=
  match readElement n t.read s with
  | some (v, s) => if s.all isLayout then some v else none
  | none => none

/-! ## What the readers read -/

theorem eat_append (p r : Text) : eat p (p ++ r) = some r := by
  unfold eat
  rw [if_pos (List.isPrefixOf_iff_prefix.mpr ⟨r, rfl⟩), List.drop_left]

theorem skipLayout_append {lay r : Text} (hlay : ∀ b ∈ lay, isLayout b = true) :
    skipLayout (lay ++ 60 :: r) = 60 :: r := by
  unfold skipLayout
  rw [List.dropWhile_append_of_pos hlay]
  rfl

theorem leaf_append {t r : Text} (ht : ∀ b ∈ t, b ≠ 60) : leaf (t ++ 60 :: r) = (t, 60 :: r) := by
  have ht' : ∀ b ∈ t, decide (b ≠ 60) = true := by simpa using ht
  unfold leaf
  rw [List.takeWhile_append_of_pos ht', List.dropWhile_append_of_pos ht']
  simp

/-- Two texts up to their first separators. -/
theorem eq_of_append_cons {a b r r' : Text} {x : UInt8} (ha : ∀ y ∈ a, y ≠ x)
    (hb : ∀ y ∈ b, y ≠ x) (h : a ++ x :: r = b ++ x :: r') : a = b := by
  have hfront {c u : Text} (hc : ∀ y ∈ c, y ≠ x) : (c ++ x :: u).takeWhile (· ≠ x) = c := by
    rw [List.takeWhile_append_of_pos (by simpa using hc)]
    simp
  rw [← hfront ha, h, hfront hb]

theorem Name.chars_ne (n : Name) {x : UInt8} (hx : isNameChar x = false) :
    ∀ y ∈ n.chars, y ≠ x := by
  rintro y hy rfl
  rw [n.plain y hy] at hx
  cases hx

theorem Name.ext_chars {n m : Name} (h : n.chars = m.chars) : n = m := by
  cases n
  cases m
  cases h
  rfl

theorem openTag_isPrefixOf (n m : Name) (r : Text) :
    n.openTag.isPrefixOf (m.openTag ++ r) = decide (n = m) := by
  rw [Bool.eq_iff_iff, List.isPrefixOf_iff_prefix, decide_eq_true_iff]
  constructor
  · rintro ⟨u, hu⟩
    have h : n.chars ++ 62 :: u = m.chars ++ 62 :: r := by
      simpa [Name.openTag] using hu
    exact Name.ext_chars
      (eq_of_append_cons (n.chars_ne (by decide)) (m.chars_ne (by decide)) h)
  · rintro rfl
    exact ⟨r, rfl⟩

theorem atElement_open {lay r : Text} (hlay : ∀ b ∈ lay, isLayout b = true) (n m : Name) :
    atElement n (lay ++ m.openTag ++ r) = decide (n = m) := by
  unfold atElement
  rw [List.append_assoc]
  show n.openTag.isPrefixOf (skipLayout (lay ++ 60 :: _)) = _
  rw [skipLayout_append hlay]
  exact openTag_isPrefixOf n m r

/-- No element is in front of a closing tag. -/
theorem atElement_close {lay r : Text} (hlay : ∀ b ∈ lay, isLayout b = true) (n : Name) :
    atElement n (lay ++ 60 :: 47 :: r) = false := by
  unfold atElement
  rw [skipLayout_append hlay]
  obtain ⟨x, l, hx⟩ := List.exists_cons_of_ne_nil n.ne_nil
  have hne : x ≠ 47 := n.chars_ne (by decide) x (hx ▸ List.mem_cons_self)
  unfold Name.openTag
  rw [hx]
  simp [List.isPrefixOf, hne]

/-- The reader reads `t` as `v`, up to a closing tag. -/
def Reads {α : Type} (p : Reader α) (t : Text) (v : α) : Prop :=
  ∀ r, p (t ++ 60 :: 47 :: r) = some (v, 60 :: 47 :: r)

theorem readElement_of {α : Type} {p : Reader α} {t : Text} {v : α} (h : Reads p t v) {lay : Text}
    (hlay : ∀ b ∈ lay, isLayout b = true) (n : Name) (r : Text) :
    readElement n p (lay ++ n.openTag ++ t ++ n.closeTag ++ r) = some (v, r) := by
  have hopen : skipLayout (lay ++ n.openTag ++ t ++ n.closeTag ++ r) =
      n.openTag ++ (t ++ (n.closeTag ++ r)) := by
    rw [List.append_assoc, List.append_assoc, List.append_assoc]
    exact skipLayout_append hlay
  unfold readElement
  rw [hopen, eat_append]
  show (p (t ++ (n.closeTag ++ r)) >>= fun q => _) = _
  rw [show p (t ++ (n.closeTag ++ r)) = some (v, n.closeTag ++ r) from h _]
  show (eat n.closeTag (n.closeTag ++ r) >>= fun q => _) = _
  rw [eat_append]
  rfl

/-! ### Leaves -/

theorem reads_leaf {f : Text → Option Value} {t : Text} {v : Value} (ht : ∀ b ∈ t, b ≠ 60)
    (hf : f t = some v) : Reads (readLeaf f) t v := by
  intro r
  unfold readLeaf
  rw [leaf_append ht, hf]
  rfl

theorem digitsValue_append (s : Text) (b : UInt8) :
    digitsValue (s ++ [b]) = 10 * digitsValue s + (b.toNat - 48) := by
  unfold digitsValue
  rw [List.foldl_append]
  rfl

theorem digitsValue_digitBytes (n : Nat) : digitsValue (digitBytes 10 n) = n := by
  have hdigit : ∀ d < 10, (digitByte d).toNat - 48 = d := by decide
  induction n using Nat.strongRecOn with
  | ind n ih =>
    rcases Nat.lt_or_ge n 10 with hn | hn
    · rw [digitBytes_of_lt hn, ← List.nil_append [digitByte n], digitsValue_append, hdigit n hn]
      simp [digitsValue]
    · rw [digitBytes_of_le (by decide) hn, digitsValue_append, ih (n / 10) (by omega),
        hdigit (n % 10) (by omega)]
      omega

theorem mem_digitBytes_ten {n : Nat} {b : UInt8} (hb : b ∈ digitBytes 10 n) :
    48 ≤ b ∧ b ≤ 57 ∧ b ≠ 45 ∧ b ≠ 60 := by
  obtain ⟨d, hd, rfl⟩ := mem_digitBytes (by decide) hb
  have key : ∀ d < 10, 48 ≤ digitByte d ∧ digitByte d ≤ 57 ∧ digitByte d ≠ 45 ∧
    digitByte d ≠ 60 := by decide
  exact key d hd

theorem readInteger_integerText (n : Int) : readInteger (integerText n) = some n := by
  have hall : (digitBytes 10 n.natAbs).all (fun b => 48 ≤ b && b ≤ 57) = true := by
    rw [List.all_eq_true]
    intro b hb
    have hmem := mem_digitBytes_ten hb
    simp [hmem.1, hmem.2.1]
  unfold integerText
  split
  · unfold readInteger
    dsimp only
    rw [if_pos rfl, if_pos hall, digitsValue_digitBytes]
    congr 1
    omega
  · obtain ⟨b, rest, hbytes⟩ := List.exists_cons_of_ne_nil (digitBytes_ne_nil (b := 10)
      (n := n.natAbs))
    have hb : b ≠ 45 := (mem_digitBytes_ten (hbytes ▸ List.mem_cons_self)).2.2.1
    rw [hbytes] at hall ⊢
    unfold readInteger
    dsimp only
    rw [if_neg hb, if_pos hall, ← hbytes, digitsValue_digitBytes]
    congr 1
    omega

theorem integerText_ne_tag (n : Int) : ∀ b ∈ integerText n, b ≠ 60 := by
  have hdigits : ∀ b ∈ digitBytes 10 n.natAbs, b ≠ 60 := fun b hb =>
    (mem_digitBytes_ten hb).2.2.2
  unfold integerText
  split
  · exact List.forall_mem_cons.mpr ⟨by decide, hdigits⟩
  · exact hdigits

theorem upperHexDigit_spec {d : Nat} (hd : d < 16) :
    upperHexValue (upperHexDigit d) = some d ∧ upperHexDigit d ≠ 60 := by
  have key : ∀ d < 16, upperHexValue (upperHexDigit d) = some d ∧ upperHexDigit d ≠ 60 := by
    decide
  exact key d hd

theorem readOctets_octetText (octets : List UInt8) :
    readOctets (octetText octets) = some octets := by
  induction octets with
  | nil => rfl
  | cons o rest ih =>
    have ho := o.toNat_lt
    have hback : (16 * (o.toNat / 16) + o.toNat % 16).toUInt8 = o := by
      rw [Nat.div_add_mod]
      exact UInt8.ofNat_toNat
    show readOctets (upperHexDigit _ :: upperHexDigit _ :: octetText rest) = _
    unfold readOctets
    rw [(upperHexDigit_spec (by omega)).1, (upperHexDigit_spec (by omega)).1, ih]
    show some (_ :: rest) = _
    rw [hback]

theorem octetText_ne_tag (octets : List UInt8) : ∀ b ∈ octetText octets, b ≠ 60 := by
  intro b hb
  obtain ⟨o, -, hb⟩ := List.mem_flatMap.mp hb
  have ho := o.toNat_lt
  rw [List.mem_cons, List.mem_singleton] at hb
  rcases hb with rfl | rfl
  · exact (upperHexDigit_spec (by omega)).2
  · exact (upperHexDigit_spec (by omega)).2

theorem readBits_bitText (bits : List Bool) : readBits (bitText bits) = some bits := by
  have hall : (bitText bits).all (fun b => b = 48 || b = 49) = true := by
    rw [List.all_eq_true]
    intro b hb
    obtain ⟨bit, -, rfl⟩ := List.mem_map.mp hb
    cases bit <;> rfl
  unfold readBits
  rw [if_pos hall]
  unfold bitText
  rw [List.map_map]
  congr 1
  calc bits.map _ = bits.map id := List.map_congr_left fun bit _ => by cases bit <;> rfl
    _ = bits := List.map_id bits

theorem bitText_ne_tag (bits : List Bool) : ∀ b ∈ bitText bits, b ≠ 60 := by
  intro b hb
  obtain ⟨bit, -, rfl⟩ := List.mem_map.mp hb
  cases bit <;> decide

/-- Layout adds no tag. -/
theorem ne_tag_of_unlaid {s t : Text} (h : unlaid s = t) (ht : ∀ b ∈ t, b ≠ 60) :
    ∀ b ∈ s, b ≠ 60 := by
  rintro b hb rfl
  refine ht 60 ?_ rfl
  rw [← h]
  exact List.mem_filter.mpr ⟨hb, rfl⟩

theorem reads_enumerated {ids : List Name} {id : Name} (hid : id ∈ ids) :
    Reads (readEnumerated ids) id.emptyTag (.enumerated id) := by
  intro r
  have heat (m : Name) : eat m.emptyTag (id.emptyTag ++ 60 :: 47 :: r) =
      if m = id then some (60 :: 47 :: r) else none := by
    by_cases hm : m = id
    · rw [if_pos hm, hm, eat_append]
    · rw [if_neg hm]
      unfold eat
      refine if_neg fun hstart => hm ?_
      obtain ⟨u, hu⟩ := List.isPrefixOf_iff_prefix.mp hstart
      have h : m.chars ++ 47 :: (62 :: u) = id.chars ++ 47 :: (62 :: 60 :: 47 :: r) := by
        simpa [Name.emptyTag] using hu
      exact Name.ext_chars
        (eq_of_append_cons (m.chars_ne (by decide)) (id.chars_ne (by decide)) h)
  unfold readEnumerated
  induction ids with
  | nil => exact absurd hid List.not_mem_nil
  | cons m rest ih =>
    rw [List.findSome?_cons, heat]
    by_cases hm : m = id
    · rw [if_pos hm, hm]
      rfl
    · rw [if_neg hm]
      exact ih ((List.mem_cons.mp hid).resolve_left fun h => hm h.symm)

/-! ### Elements -/

theorem atElement_element {lay t u : Text} (hlay : ∀ b ∈ lay, isLayout b = true) (n m : Name) :
    atElement n (lay ++ m.openTag ++ t ++ m.closeTag ++ u) = decide (n = m) := by
  rw [List.append_assoc, List.append_assoc]
  exact atElement_open hlay n m

theorem length_toList_le (es : Elements) {t : Text} (h : es.Text t) :
    es.toList.length ≤ t.length := by
  cases es with
  | nil => exact Nat.zero_le _
  | cons name content rest =>
    obtain ⟨lay, t', u, rfl, -, -, hu⟩ := h
    have hrest := length_toList_le rest hu
    simp only [Elements.toList, List.length_cons, List.length_append, Name.openTag]
    omega

/-- The elements of a SEQUENCE OF, whose reader reads each of them. -/
theorem reads_many {n : Name} {p : Reader Value} : ∀ (es : Elements) {t : Text} {k : Nat},
    (∀ e ∈ es.toList, e.1 = n ∧ ∀ t', e.2.Text t' → Reads p t' e.2) → es.Text t →
      es.toList.length < k → Reads (readMany n p k) t es
  | .nil, t, k, _, ht, hk => by
    obtain ⟨k, rfl⟩ := Nat.exists_eq_succ_of_ne_zero (Nat.ne_of_gt hk)
    intro r
    unfold readMany
    rw [atElement_close ht, skipLayout_append ht]
    rfl
  | .cons name content rest, t, k, hes, ht, hk => by
    obtain ⟨k, rfl⟩ := Nat.exists_eq_succ_of_ne_zero (Nat.ne_of_gt ((Nat.zero_le _).trans_lt hk))
    obtain ⟨lay, t', u, rfl, hlay, ht', hu⟩ := ht
    unfold Elements.toList at hes
    rw [List.forall_mem_cons] at hes
    obtain ⟨⟨rfl, hread⟩, hrest⟩ := hes
    intro r
    unfold readMany
    rw [List.append_assoc, atElement_element hlay, if_pos (decide_eq_true rfl),
      readElement_of (hread t' ht') hlay]
    show (readMany name p k (u ++ 60 :: 47 :: r) >>= fun q => _) = _
    rw [reads_many rest hrest hu (Nat.lt_of_succ_lt_succ hk) r]
    rfl

/-- Layout in front of a closing tag. -/
theorem skipLayout_close {lay : Text} (hlay : ∀ b ∈ lay, isLayout b = true) (r : Text) :
    skipLayout (lay ++ 60 :: 47 :: r) = 60 :: 47 :: r := skipLayout_append hlay

mutual

/-- A reader of a type reads every text of every value of the type. -/
theorem Typ.reads : ∀ (T : Typ) {v : Value} {t : Text}, T.has v = true → v.Text t →
    Reads T.read t v
  | .integer, v, t, hv, ht => by
    cases v with
    | integer n =>
      subst ht
      exact reads_leaf (integerText_ne_tag n) (by rw [readInteger_integerText]; rfl)
    | _ => cases hv
  | .enumerated ids, v, t, hv, ht => by
    cases v with
    | enumerated id =>
      subst ht
      exact reads_enumerated (List.contains_iff_mem.mp hv)
    | _ => cases hv
  | .octetString, v, t, hv, ht => by
    cases v with
    | octetString octets =>
      have hne := ne_tag_of_unlaid ht (octetText_ne_tag octets)
      exact reads_leaf hne (by rw [show unlaid t = _ from ht, readOctets_octetText]; rfl)
    | _ => cases hv
  | .bitString, v, t, hv, ht => by
    cases v with
    | bitString bits =>
      have hne := ne_tag_of_unlaid ht (bitText_ne_tag bits)
      exact reads_leaf hne (by rw [show unlaid t = _ from ht, readBits_bitText]; rfl)
    | _ => cases hv
  | .printableString, v, t, hv, ht => by
    cases v with
    | printableString s =>
      subst ht
      refine reads_leaf (fun b hb => ?_) (dif_pos s.printable)
      rintro rfl
      exact absurd (s.printable 60 hb) (by decide)
    | _ => cases hv
  | .sequence fields, v, t, hv, ht => by
    cases v with
    | elements es =>
      intro r
      rw [Typ.read]
      beta_reduce
      rw [show fields.read (t ++ 60 :: 47 :: r) = _ from Fields.reads fields hv ht r]
      rfl
    | _ => cases hv
  | .choice alternatives, v, t, hv, ht => by
    obtain ⟨name, content, rfl, hone⟩ := has_choice hv
    intro r
    rw [Typ.read]
    beta_reduce
    rw [show alternatives.readOne (t ++ 60 :: 47 :: r) = _ from
      Fields.readsOne alternatives hone ht r]
    rfl
  | .sequenceOf name element, v, t, hv, ht => by
    cases v with
    | elements es =>
      have hall : ∀ e ∈ es.toList, e.1 = name ∧ ∀ t', e.2.Text t' → Reads element.read t' e.2 := by
        intro e he
        have hmem := List.all_eq_true.mp hv e he
        rw [Bool.and_eq_true, decide_eq_true_iff] at hmem
        exact ⟨hmem.1, fun t' ht' => Typ.reads element hmem.2 ht'⟩
      intro r
      have hlen := length_toList_le es ht
      rw [Typ.read]
      beta_reduce
      rw [show readMany name element.read ((t ++ 60 :: 47 :: r).length + 1) (t ++ 60 :: 47 :: r) = _
        from reads_many es hall ht (by rw [List.length_append]; omega) r]
      rfl
    | _ => cases hv
  | .object key criticality value ids rows, v, t, hv, ht => by
    obtain ⟨n, id, name, content, rfl, hid, hrow⟩ := has_object hv
    obtain ⟨lay, _, _, rfl, hlay, rfl, lay', _, _, rfl, hlay', rfl, lay'', t, lay₀, rfl, hlay'',
      ht, hlay₀⟩ := ht
    have hnumber : Reads (fun s => (readInteger (leaf s).1).map fun n => (n, (leaf s).2))
        (integerText n) n := fun r => by
      dsimp only
      rw [leaf_append (integerText_ne_tag n), readInteger_integerText]
      rfl
    have hvalue : Reads (fun s => (rows.readRow n s).map fun (es, s) => (Value.elements es, s)) t
        (.elements (.cons name content .nil)) := fun r => by
      dsimp only
      rw [show rows.readRow n (t ++ 60 :: 47 :: r) = _ from Fields.readsRow rows hrow ht r]
      rfl
    intro r
    rw [Typ.read]
    beta_reduce
    rw [List.append_assoc, readElement_of hnumber hlay]
    show (readElement criticality (readEnumerated ids) _ >>= fun q => _) = _
    rw [List.append_assoc, readElement_of (reads_enumerated hid) hlay']
    show (readElement value _ _ >>= fun q => _) = _
    rw [List.append_assoc, readElement_of hvalue hlay'']
    show some (_, skipLayout (lay₀ ++ 60 :: 47 :: r)) = _
    rw [skipLayout_close hlay₀]

/-- The fields of a SEQUENCE. -/
theorem Fields.reads : ∀ (fields : Fields) {es : Elements} {t : Text}, fields.has es = true →
    es.Text t → Reads fields.read t es
  | .nil, es, t, hes, ht => by
    cases es with
    | nil =>
      intro r
      unfold Fields.read
      rw [skipLayout_close ht]
    | cons _ _ _ => cases hes
  | .cons f type rest, es, t, hes, ht => by
    intro r
    unfold Fields.read
    cases es with
    | nil =>
      unfold Fields.has at hes
      rw [Bool.and_eq_true] at hes
      rw [atElement_close ht, if_neg Bool.false_ne_true, if_pos hes.1]
      exact Fields.reads rest hes.2 ht r
    | cons name content es =>
      obtain ⟨lay, t', u, rfl, hlay, ht', hu⟩ := ht
      unfold Fields.has at hes
      rw [List.append_assoc, atElement_element hlay]
      by_cases hname : name = f.name
      · rw [if_pos hname, Bool.and_eq_true] at hes
        rw [if_pos (decide_eq_true hname.symm), hname,
          readElement_of (Typ.reads type hes.1 ht') hlay]
        show (rest.read (u ++ 60 :: 47 :: r) >>= fun q => _) = _
        rw [Fields.reads rest hes.2 hu r]
        rfl
      · rw [if_neg hname, Bool.and_eq_true] at hes
        have hne : ¬ decide (f.name = name) = true := by simpa using Ne.symm hname
        rw [if_neg hne, if_pos hes.1, ← List.append_assoc]
        exact Fields.reads rest hes.2 ⟨lay, t', u, rfl, hlay, ht', hu⟩ r

/-- The element of a CHOICE. -/
theorem Fields.readsOne : ∀ (fields : Fields) {name : Name} {content : Value} {t : Text},
    fields.hasOne name content = true → (Elements.cons name content .nil).Text t →
      Reads fields.readOne t (.cons name content .nil)
  | .nil, _, _, _, hone, _ => by cases hone
  | .cons f type rest, name, content, t, hone, ht => by
    obtain ⟨lay, t', u, rfl, hlay, ht', hu⟩ := ht
    intro r
    unfold Fields.readOne
    unfold Fields.hasOne at hone
    rw [List.append_assoc, atElement_element hlay]
    by_cases hname : name = f.name
    · rw [if_pos hname] at hone
      rw [if_pos (decide_eq_true hname.symm), hname, readElement_of (Typ.reads type hone ht') hlay]
      show some (_, skipLayout (u ++ 60 :: 47 :: r)) = _
      rw [skipLayout_close hu]
    · rw [if_neg hname] at hone
      have hne : ¬ decide (f.name = name) = true := by simpa using Ne.symm hname
      rw [if_neg hne, ← List.append_assoc]
      exact Fields.readsOne rest hone ⟨lay, t', u, rfl, hlay, ht', hu⟩ r

/-- The element that the key of an object selects. -/
theorem Fields.readsRow : ∀ (fields : Fields) {n : Int} {name : Name} {content : Value} {t : Text},
    fields.hasRow n name content = true → (Elements.cons name content .nil).Text t →
      Reads (fields.readRow n) t (.cons name content .nil)
  | .nil, _, _, _, _, hrow, _ => by cases hrow
  | .cons f type rest, n, name, content, t, hrow, ht => by
    intro r
    unfold Fields.readRow
    unfold Fields.hasRow at hrow
    by_cases hkey : n = f.key
    · obtain ⟨lay, t', u, rfl, hlay, ht', hu⟩ := ht
      rw [if_pos hkey, Bool.and_eq_true, decide_eq_true_iff] at hrow
      rw [if_pos hkey, hrow.1, List.append_assoc,
        readElement_of (Typ.reads type hrow.2 ht') hlay]
      show some (_, skipLayout (u ++ 60 :: 47 :: r)) = _
      rw [skipLayout_close hu]
    · rw [if_neg hkey] at hrow
      rw [if_neg hkey]
      exact Fields.readsRow rest hrow ht r

end

/-- A document is read back. -/
theorem readDocument_of {n : Name} {T : Typ} {v : Value} {s : Text} (hv : T.has v = true)
    (hs : (Elements.cons n v .nil).Text s) : readDocument n T s = some v := by
  obtain ⟨lay, t, lay', rfl, hlay, ht, hlay'⟩ := hs
  unfold readDocument
  rw [readElement_of (Typ.reads T hv ht) hlay]
  show (if lay'.all isLayout then some v else none) = some v
  rw [if_pos (List.all_eq_true.mpr hlay')]

end Xer
