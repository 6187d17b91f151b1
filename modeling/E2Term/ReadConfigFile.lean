import E2Term.Lib.Bindings
import E2Term.Lib.Lines
import E2Term.Lib.Numerals
import E2Term.RanName

/-!
# Configuration files

`ReadConfigFile::openConfigFile` line by line, and the meaning that the format gives to a file.
A file is its bytes; `none` is a file that does not open.
-/

namespace E2Term

open Bindings Lines

/-- `class ReadConfigFile`. -/
structure ReadConfigFile where
  entries : AList fun _ : List UInt8 => List UInt8

namespace ReadConfigFile

/-- The default of the parameter `chars`: `"\t\n\v\f\r "`. -/
def isBlank (b : UInt8) : Bool := b ∈ ([9, 10, 11, 12, 13, 32] : List UInt8)

/-- `ltrim`. -/
def ltrim (str : List UInt8) : List UInt8 := str.dropWhile isBlank

/-- `rtrim`. -/
def rtrim (str : List UInt8) : List UInt8 := str.rdropWhile isBlank

/-- `trim`. -/
def trim (str : List UInt8) : List UInt8 := ltrim (rtrim str)

/-- A line that starts with `#`, `;` or `{` is skipped. -/
def skipChars : List UInt8 := [35, 59, 123]

/-- `[`. -/
def sectionOpen : UInt8 := 91

/-- `]`. -/
def sectionClose : UInt8 := 93

/-- `=`. -/
def equalSign : UInt8 := 61

/-- `.`. -/
def dot : UInt8 := 46

/-- `\n`. -/
def newline : UInt8 := 10

/-- The loop of `openConfigFile` over the lines, with the variable `section`. -/
def readLines : List (List UInt8) → List UInt8 → ReadConfigFile → Int × ReadConfigFile
  | [], _, conf => (0, conf)
  | [] :: rest, sect, conf => readLines rest sect conf
  | (c :: cs) :: rest, sect, conf =>
    let line := c :: cs
    if c ∈ skipChars then readLines rest sect conf
    else if c = sectionOpen then
      match line.idxOf? sectionClose with
      | none => (-1, conf)
      | some sectionEnd =>
        -- `substr(1, sectionEnd - 1)`
        readLines rest (trim ((line.drop 1).take (sectionEnd - 1) ++ [dot])) conf
    else
      match line.idxOf? equalSign with
      | none => readLines rest sect conf
      | some leftHand =>
        let name := sect ++ trim (line.take leftHand)
        let value := line.drop (leftHand + 1)
        if value.length = 0 then readLines rest sect conf
        else readLines rest sect ⟨conf.entries.insert name (trim value)⟩

/-- `openConfigFile`. -/
def openConfigFile (conf : ReadConfigFile) (configFile : Option (List UInt8)) :
    Int × ReadConfigFile :=
  match configFile with
  | none => (-1, conf)
  | some content => readLines (lines newline content) [] conf

/-- `ReadConfigFile conf {}`. -/
def empty : ReadConfigFile := ⟨∅⟩

/-- `entries.find(key)`. -/
def find (conf : ReadConfigFile) (key : List UInt8) : Option (List UInt8) := conf.entries.lookup key

/-- `getStringValue`. -/
def getStringValue (conf : ReadConfigFile) (key : List UInt8) : List UInt8 :=
  match conf.find key with
  | none => []
  | some value => value

/-- `getIntValue`: the cast to `int` wraps. -/
def getIntValue (conf : ReadConfigFile) (key : List UInt8) : Int32 :=
  match conf.find key with
  | none => -1
  | some value => Int32.ofInt (Numerals.strtol (CString.chars value))

/-! ## The meaning of the format -/

/-- A line that starts with `[`. -/
def OpensSection (line : List UInt8) : Prop := line.head? = some sectionOpen

instance : DecidablePred OpensSection := fun _ => inferInstanceAs (Decidable (_ = _))

/-- A line that starts with `[` and has no `]`. -/
def BadSection (line : List UInt8) : Prop := OpensSection line ∧ sectionClose ∉ line

instance : DecidablePred BadSection := fun _ => inferInstanceAs (Decidable (_ ∧ _))

/-- The name between the brackets of a section line, as it stands there. -/
def sectionName (line : List UInt8) : Option (List UInt8) :=
  if OpensSection line then (cut sectionClose line.tail).map Prod.fst else none

/-- The key and the value of a line `key=value`, as they stand there. -/
def entryOf : List UInt8 → Option (List UInt8 × List UInt8)
  | [] => none
  | c :: cs => if c ∈ skipChars ∨ c = sectionOpen then none else cut equalSign (c :: cs)

/-- A line, with the name in the last section line before it. -/
structure PlacedLine where
  sect : Option (List UInt8)
  line : List UInt8

/-- The name in the last section line. -/
def lastSection (before : List (List UInt8)) : Option (List UInt8) :=
  (before.filterMap sectionName).getLast?

/-- Lines in their sections, when others are before them. -/
def placedBehind (before all : List (List UInt8)) : List PlacedLine :=
  (all.inits.zip all).map fun entry => ⟨lastSection (before ++ entry.1), entry.2⟩

/-- The lines of a file in their sections. -/
def placed (content : List UInt8) : List PlacedLine := placedBehind [] (lines newline content)

/-- What the format says of a line: the prefix of its section and its trimmed key are bound to its
trimmed value, unless the value is blank. -/
def meantBinding (l : PlacedLine) : Option (List UInt8 × List UInt8) :=
  match entryOf l.line with
  | none => none
  | some (key, value) =>
    if trim value = [] then none
    else some ((l.sect.elim [] fun name => trim name ++ [dot]) ++ trim key, trim value)

/-- The meaning of a file: every key has the value of its last binding. -/
def meaning (content key : List UInt8) : Option (List UInt8) :=
  lastFor key ((placed content).filterMap meantBinding)

/-- The files that have no meaning: they do not open, or they have a section line without `]`. -/
def Rejected : Option (List UInt8) → Prop
  | none => True
  | some content => ∃ line ∈ lines newline content, BadSection line

instance : DecidablePred Rejected
  | none => .isTrue trivial
  | some content => inferInstanceAs (Decidable (∃ line ∈ lines newline content, BadSection line))

/-- The file is read as the format means it. -/
def ReadsAsMeant (file : Option (List UInt8)) : Prop :=
  (empty.openConfigFile file).1 = (if Rejected file then -1 else 0) ∧
    (¬ Rejected file → ∀ content, file = some content → ∀ key,
      (empty.openConfigFile file).2.find key = meaning content key)

/-! ## The loop, line by line -/

/-- What the loop has in `section` after a section line with this name. -/
def readPrefix (sect : Option (List UInt8)) : List UInt8 :=
  sect.elim [] fun name => trim (name ++ [dot])

/-- What the loop binds at a line. -/
def readBinding (l : PlacedLine) : Option (List UInt8 × List UInt8) :=
  match entryOf l.line with
  | none => none
  | some (key, value) =>
    if value = [] then none else some (readPrefix l.sect ++ trim key, trim value)

theorem placedBehind_cons (before : List (List UInt8)) (line : List UInt8)
    (rest : List (List UInt8)) : placedBehind before (line :: rest) =
      ⟨lastSection before, line⟩ :: placedBehind (before ++ [line]) rest := by
  unfold placedBehind
  simp [List.zip_map_left, Function.comp_def]

theorem lastSection_concat (before : List (List UInt8)) (line : List UInt8) :
    lastSection (before ++ [line]) = (sectionName line).or (lastSection before) := by
  unfold lastSection
  cases h : sectionName line <;> simp [h]

/-- The name in a section line, by the position of the bracket. -/
theorem sectionName_eq (cs : List UInt8) : sectionName (sectionOpen :: cs) =
    ((sectionOpen :: cs).idxOf? sectionClose).map fun sectionEnd =>
      ((sectionOpen :: cs).drop 1).take (sectionEnd - 1) := by
  have hne : (sectionOpen == sectionClose) = false := by decide
  have hopens : OpensSection (sectionOpen :: cs) := rfl
  rw [sectionName, if_pos hopens, List.tail_cons, cut_eq_idxOf?, List.idxOf?_cons, hne,
    Option.map_map]
  simp [Function.comp_def]

theorem entryOf_of_not_entry {c : UInt8} (cs : List UInt8) (h : c ∈ skipChars ∨ c = sectionOpen) :
    entryOf (c :: cs) = none := if_pos h

theorem sectionName_of_ne {c : UInt8} (cs : List UInt8) (h : c ≠ sectionOpen) :
    sectionName (c :: cs) = none := if_neg fun hopens => h (Option.some.inj hopens)

theorem not_badSection_of_ne {c : UInt8} (cs : List UInt8) (h : c ≠ sectionOpen) :
    ¬ BadSection (c :: cs) := fun hbad => h (Option.some.inj hbad.1)

/-- A line that binds nothing and is no section line. -/
theorem readLines_skip {line : List UInt8} (sect : Option (List UInt8)) (conf : ReadConfigFile)
    (hentry : entryOf line = none) :
    (⟨insertAll conf.entries (readBinding ⟨sect, line⟩).toList⟩ : ReadConfigFile) = conf := by
  rw [readBinding, hentry]
  rfl

/-- One line of the loop. -/
theorem readLines_cons (line : List UInt8) (rest : List (List UInt8)) (sect : Option (List UInt8))
    (conf : ReadConfigFile) : readLines (line :: rest) (readPrefix sect) conf =
      if BadSection line then (-1, conf)
      else readLines rest (readPrefix ((sectionName line).or sect))
        ⟨insertAll conf.entries (readBinding ⟨sect, line⟩).toList⟩ := by
  cases line with
  | nil => rfl
  | cons c cs =>
    conv_lhs => unfold readLines
    by_cases hskip : c ∈ skipChars
    · have hc : c ≠ sectionOpen := by
        rintro rfl
        revert hskip
        decide
      rw [if_pos hskip, if_neg (not_badSection_of_ne cs hc), sectionName_of_ne cs hc,
        readLines_skip sect conf (entryOf_of_not_entry cs (.inl hskip)), Option.none_or]
    · rw [if_neg hskip]
      by_cases hc : c = sectionOpen
      · subst hc
        rw [if_pos rfl, readLines_skip sect conf (entryOf_of_not_entry cs (.inr rfl)),
          sectionName_eq]
        cases hend : (sectionOpen :: cs).idxOf? sectionClose with
        | none => exact (if_pos ⟨rfl, List.idxOf?_eq_none_iff.mp hend⟩).symm
        | some sectionEnd =>
          have hmem : sectionClose ∈ sectionOpen :: cs := by
            by_contra hno
            rw [List.idxOf?_eq_none_iff.mpr hno] at hend
            cases hend
          rw [if_neg fun hbad => hbad.2 hmem]
          rfl
      · rw [if_neg hc, if_neg (not_badSection_of_ne cs hc), sectionName_of_ne cs hc,
          Option.none_or]
        have hentry : entryOf (c :: cs) = ((c :: cs).idxOf? equalSign).map fun leftHand =>
            ((c :: cs).take leftHand, (c :: cs).drop (leftHand + 1)) := by
          rw [entryOf, if_neg (not_or.mpr ⟨hskip, hc⟩), cut_eq_idxOf?]
        cases hleft : (c :: cs).idxOf? equalSign with
        | none =>
          rw [hleft] at hentry
          rw [readLines_skip sect conf hentry]
        | some leftHand =>
          rw [hleft] at hentry
          rw [readBinding, hentry]
          dsimp only [Option.map_some]
          by_cases hvalue : (c :: cs).drop (leftHand + 1) = []
          · rw [if_pos (List.length_eq_zero_iff.mpr hvalue), if_pos hvalue]
            rfl
          · rw [if_neg (mt List.length_eq_zero_iff.mp hvalue), if_neg hvalue]
            rfl

/-- The whole loop, when no section line lacks its `]`. -/
theorem readLines_eq (all before : List (List UInt8)) (conf : ReadConfigFile)
    (h : ∀ line ∈ all, ¬ BadSection line) :
    readLines all (readPrefix (lastSection before)) conf =
      (0, ⟨insertAll conf.entries ((placedBehind before all).filterMap readBinding)⟩) := by
  induction all generalizing before conf with
  | nil => rfl
  | cons line rest ih =>
    obtain ⟨hline, hrest⟩ := List.forall_mem_cons.mp h
    rw [readLines_cons, if_neg hline, ← lastSection_concat, ih _ _ hrest, placedBehind_cons,
      List.filterMap_cons]
    congr 2
    cases readBinding ⟨lastSection before, line⟩ <;> rfl

/-- The loop gives up at a section line without `]`. -/
theorem readLines_of_bad {all : List (List UInt8)} (sect : Option (List UInt8))
    (conf : ReadConfigFile) (h : ∃ line ∈ all, BadSection line) :
    (readLines all (readPrefix sect) conf).1 = -1 := by
  induction all generalizing sect conf with
  | nil => simp at h
  | cons line rest ih =>
    rw [readLines_cons]
    by_cases hline : BadSection line
    · rw [if_pos hline]
    · rw [if_neg hline]
      exact ih _ _ (by simpa [hline] using h)

/-- What `openConfigFile` has bound, when it accepts the file. -/
theorem openConfigFile_some {content : List UInt8} (h : ¬ Rejected (some content)) :
    empty.openConfigFile (some content) =
      (0, ⟨insertAll ∅ ((placed content).filterMap readBinding)⟩) :=
  readLines_eq (lines newline content) [] empty fun line hline hbad => h ⟨line, hline, hbad⟩

theorem find_openConfigFile {content : List UInt8} (h : ¬ Rejected (some content))
    (key : List UInt8) : (empty.openConfigFile (some content)).2.find key =
      lastFor key ((placed content).filterMap readBinding) := by
  rw [openConfigFile_some h, find, lookup_insertAll, AList.lookup_empty, Option.or_none]

theorem openConfigFile_ret (file : Option (List UInt8)) :
    (empty.openConfigFile file).1 = if Rejected file then -1 else 0 := by
  by_cases h : Rejected file
  · rw [if_pos h]
    cases file with
    | none => rfl
    | some content => exact readLines_of_bad none empty h
  · rw [if_neg h]
    cases file with
    | none => exact absurd trivial h
    | some content => rw [openConfigFile_some h]

/-! ## Where the loop misreads a line -/

/-- A line `key=value` whose value is blank but not empty, or which stands in a section with blanks
behind the name, inside of the brackets. -/
def Misread (l : PlacedLine) : Prop :=
  ∃ key value, entryOf l.line = some (key, value) ∧ value ≠ [] ∧
    (trim value = [] ∨ ∃ name, l.sect = some name ∧ ltrim name ≠ trim name)

/-- The dot behind the name keeps the blanks between them. -/
theorem readPrefix_some (name : List UInt8) : readPrefix (some name) = ltrim name ++ [dot] :=
  strip_concat name (by decide)

theorem readPrefix_ne_iff (sect : Option (List UInt8)) :
    readPrefix sect ≠ (sect.elim [] fun name => trim name ++ [dot]) ↔
      ∃ name, sect = some name ∧ ltrim name ≠ trim name := by
  cases sect with
  | none => simp [readPrefix]
  | some name =>
    rw [readPrefix_some]
    simp

theorem readBinding_ne_iff (l : PlacedLine) : readBinding l ≠ meantBinding l ↔ Misread l := by
  unfold readBinding meantBinding Misread
  rw [← readPrefix_ne_iff]
  cases entryOf l.line with
  | none => simp
  | some entry =>
    obtain ⟨key, value⟩ := entry
    by_cases hvalue : value = []
    · subst hvalue
      simp [trim, rtrim, ltrim]
    · by_cases hblank : trim value = []
      · simp [hvalue, hblank]
      · simp [hvalue, hblank]

/-- A file is read as meant exactly when every misread line of it is harmless. -/
theorem find_eq_meaning_iff {content : List UInt8} (h : ¬ Rejected (some content)) :
    (∀ key, (empty.openConfigFile (some content)).2.find key = meaning content key) ↔
      Harmless Misread readBinding meantBinding (placed content) ∧
        Harmless Misread meantBinding readBinding (placed content) := by
  rw [← agree_iff fun l hl => not_ne_iff.mp (mt (readBinding_ne_iff l).mp hl)]
  exact forall_congr' fun key => by rw [find_openConfigFile h, meaning]

/-- `openConfigFile` reads a file as the format means it exactly when each line that it misreads is
harmless: a later line binds that key again, or the last line for that key binds it alike. -/
theorem openConfigFile_iff (file : Option (List UInt8)) :
    ReadsAsMeant file ↔ (¬ Rejected file → ∀ content, file = some content →
      Harmless Misread readBinding meantBinding (placed content) ∧
        Harmless Misread meantBinding readBinding (placed content)) := by
  unfold ReadsAsMeant
  rw [and_iff_right (openConfigFile_ret file)]
  refine imp_congr_right fun h => forall_congr' fun content => imp_congr_right fun hfile => ?_
  subst hfile
  exact find_eq_meaning_iff h

/-- A blank value takes the place of the port. -/
theorem blank_value_binds : ¬ ReadsAsMeant (some (text "nano=38000\nnano= \n")) := by
  intro h
  have := h.2 (by decide +kernel) _ rfl (text "nano")
  revert this
  decide +kernel

/-- A file without misread lines is read as the format means it. -/
theorem readsAsMeant_of_regular {content : List UInt8}
    (h : ∀ l ∈ placed content, ¬ Misread l) : ReadsAsMeant (some content) := by
  refine ⟨openConfigFile_ret _, fun hmeaning content' hc => ?_⟩
  obtain rfl := Option.some.inj hc
  have harmless : ∀ f g : PlacedLine → Option (List UInt8 × List UInt8),
      Harmless Misread f g (placed content) := by
    intro f g pre l post hl hmis
    exact absurd hmis (h l (by simp [hl]))
  exact (find_eq_meaning_iff hmeaning).mpr ⟨harmless _ _, harmless _ _⟩

end ReadConfigFile

end E2Term
