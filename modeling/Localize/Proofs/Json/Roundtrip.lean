import Localize.Proofs.Json.Numeral
import Localize.Proofs.Table

/-!
# Documents read back

A value whose objects hold no name twice and whose double precision numbers are rounded ones is read
back from its document as it is. Reading gives only such values, so a document that was read,
written and read again has lost nothing.
-/

namespace Localize.Json

/-! ### Strings -/

theorem readUnits_escape {e d : Char} (he : simpleEscape? e = some d) (hu : e ≠ 'u') (more : Text) :
    readUnits ('\\' :: e :: more) = consRead d.toNat (readUnits more) := by
  rw [readUnits.eq_def]
  simp [he, hu]

theorem readUnits_hex {a b c d : Char} {n : ℕ} (h : hexValue4? a b c d = some n) (more : Text) :
    readUnits ('\\' :: 'u' :: a :: b :: c :: d :: more) = consRead n (readUnits more) := by
  rw [readUnits.eq_def]
  simp [h]

theorem readUnits_plain {c : Char} (hquote : c ≠ '\x22') (hescape : c ≠ '\\')
    (hcontrol : ¬c.toNat < 0x20) (more : Text) :
    readUnits (c :: more) = consRead c.toNat (readUnits more) := by
  rw [readUnits.eq_def]
  simp [hquote, hescape, hcontrol]

theorem simpleEscape?_escapeLetter {c letter : Char} (h : escapeLetter? c = some letter) :
    simpleEscape? letter = some c := by
  unfold escapeLetter? at h
  split_ifs at h <;> subst_vars <;> cases h <;> rfl

theorem hexValue4?_hexDigits : ∀ n : Fin 32, ∃ a b c d, Text.hexDigits 4 n = [a, b, c, d] ∧
    hexValue4? a b c d = some n.val := by
  let digit (n : Fin 32) (i : Nat) : Char := (Text.hexDigits 4 n).getD i '0'
  have hread : ∀ n : Fin 32, Text.hexDigits 4 n = [digit n 0, digit n 1, digit n 2, digit n 3] ∧
      hexValue4? (digit n 0) (digit n 1) (digit n 2) (digit n 3) = some n.val := by decide
  exact fun n => ⟨_, _, _, _, hread n⟩

/-- The characters that do not stand for themselves in a string. -/
def MustEscape (c : Char) : Prop := c = '\x22' ∨ c = '\\' ∨ c.toNat < 0x20

/-- How a character stands between the quotes of a string: for itself, or if it has to be escaped
behind a backslash, by its letter or by its number. -/
inductive SpelledAs (c : Char) : Text → Prop
  | itself (h : ¬MustEscape c) : SpelledAs c [c]
  | letter {e : Char} (h : MustEscape c) (he : simpleEscape? e = some c) : SpelledAs c ['\\', e]
  | number {d₁ d₂ d₃ d₄ : Char} (h : MustEscape c)
      (hd : hexValue4? d₁ d₂ d₃ d₄ = some c.toNat) : SpelledAs c ['\\', 'u', d₁, d₂, d₃, d₄]

theorem mustEscape_of_escapeLetter? {c letter : Char} (h : escapeLetter? c = some letter) :
    MustEscape c := by
  unfold escapeLetter? at h
  split_ifs at h <;> subst_vars <;> exact .inr (.inr (by decide))

theorem spelledAs_writeChar (c : Char) : SpelledAs c (writeChar c) := by
  by_cases hquote : c = '\x22' ∨ c = '\\'
  · rw [writeChar, if_pos (by simpa using hquote)]
    refine .letter (hquote.imp_right .inl) ?_
    obtain rfl | rfl := hquote
    · rfl
    · rfl
  · rw [writeChar, if_neg (by simpa using hquote)]
    cases hletter : escapeLetter? c with
    | some letter =>
      exact .letter (mustEscape_of_escapeLetter? hletter) (simpleEscape?_escapeLetter hletter)
    | none =>
      by_cases hcontrol : c.toNat < 0x20
      · obtain ⟨d₁, d₂, d₃, d₄, hdigits, hread⟩ := hexValue4?_hexDigits ⟨c.toNat, hcontrol⟩
        simp only [hcontrol, if_true]
        rw [hdigits]
        exact .number (.inr (.inr hcontrol)) hread
      · simp only [hcontrol, if_false]
        exact .itself fun hescape => hquote (hescape.imp_right (·.resolve_right hcontrol))

/-- Each way in which a character can stand in a string gives its number back. -/
theorem SpelledAs.readUnits_append {c : Char} {w : Text} (h : SpelledAs c w) (more : Text) :
    readUnits (w ++ more) = consRead c.toNat (readUnits more) := by
  cases h with
  | itself h =>
    simp only [MustEscape, not_or] at h
    exact readUnits_plain h.1 h.2.1 h.2.2 more
  | letter _ he =>
    refine readUnits_escape he ?_ more
    rintro rfl
    cases he
  | number _ hd => exact readUnits_hex hd more

theorem readUnits_flatMap (t rest : Text) :
    readUnits (t.flatMap writeChar ++ '\x22' :: rest) = .ok (t.map Char.toNat, rest) := by
  induction t with
  | nil =>
    rw [List.flatMap_nil, List.nil_append, readUnits.eq_def]
    rfl
  | cons c t ih =>
    rw [List.flatMap_cons, List.append_assoc, (spelledAs_writeChar c).readUnits_append, ih]
    rfl

/-- The number of a character is no half of a surrogate pair. -/
theorem charOf_toNat (c : Char) : charOf c.toNat = c ∧ isHighHalf c.toNat = false := by
  have hvalid : c.toNat < 0xd800 ∨ 0xdfff < c.toNat ∧ c.toNat < 0x110000 := c.valid
  constructor
  · rw [charOf, if_neg (by simp only [Bool.and_eq_true, decide_eq_true_eq]; omega),
      Char.ofNat_toNat]
  · simp only [isHighHalf, Bool.and_eq_false_iff, decide_eq_false_iff_not]
    omega

theorem joinUnits_map_toNat (t : Text) : joinUnits (t.map Char.toNat) = t := by
  induction t with
  | nil => rfl
  | cons c t ih =>
    obtain ⟨hchar, hhigh⟩ := charOf_toNat c
    cases t with
    | nil => simp [joinUnits, hchar]
    | cons d t => simp_all [joinUnits]

/-- A string is read up to its closing quote. -/
theorem readChars_flatMap (t rest : Text) :
    readChars (t.flatMap writeChar ++ '\x22' :: rest) = .ok (t, rest) := by
  rw [readChars, readUnits_flatMap]
  simp only [joinUnits_map_toNat]

/-! ### How a value begins -/

/-- The characters that a value may begin with. -/
def opensValue (c : Char) : Bool :=
  c.isDigit || c ∈ ['\x22', '[', '\x7b', '-', 'n', 't', 'f', 'N', 'I']

theorem opensValue_not {c : Char} (h : opensValue c = true) :
    isGap c = false ∧ c ≠ ']' ∧ c ≠ Char.ofNat 0xfeff := by
  refine ⟨?_, ?_, ?_⟩
  · rw [Bool.eq_false_iff]
    intro hgap
    simp only [isGap, Bool.or_eq_true, decide_eq_true_eq, or_assoc] at hgap
    obtain rfl | rfl | rfl | rfl := hgap <;> exact absurd h (by decide)
  · rintro rfl
    exact absurd h (by decide)
  · rintro rfl
    exact absurd h (by decide)

/-- What is read as a name or a number begins with a letter, a digit or a minus. -/
theorem opensValue_of_readScalar {t : Text} {read : Json × Text} (h : readScalar t = .ok read) :
    ∃ c u, t = c :: u ∧ opensValue c = true ∧ c ≠ '\x22' ∧ c ≠ '[' ∧ c ≠ '\x7b' := by
  unfold readScalar at h
  split at h
  · next name value hname =>
    have hprefix := List.find?_some hname
    obtain ⟨u, rfl⟩ := List.isPrefixOf_iff_prefix.mp hprefix
    have hmem := List.mem_of_find?_eq_some hname
    simp only [namedValues, List.mem_cons, Prod.mk.injEq, List.not_mem_nil, or_false] at hmem
    obtain ⟨rfl, -⟩ | ⟨rfl, -⟩ | ⟨rfl, -⟩ | ⟨rfl, -⟩ | ⟨rfl, -⟩ | ⟨rfl, -⟩ := hmem <;>
      exact ⟨_, _, rfl, by decide, by decide, by decide, by decide⟩
  · dsimp only at h
    split at h
    · next hread =>
      split at hread
      · exact ⟨_, _, rfl, by decide, by decide, by decide, by decide⟩
      · obtain ⟨c, u, rfl, hdigit⟩ := exists_digit_of_readNumber? hread
        refine ⟨c, u, rfl, by rw [opensValue, hdigit, Bool.true_or], ?_, ?_, ?_⟩ <;>
          · rintro rfl
            cases hdigit
    · cases h

theorem readValue_of_readScalar {t : Text} {read : Json × Text} (h : readScalar t = .ok read)
    (fuel : ℕ) : readValue (fuel + 1) t = .ok read := by
  obtain ⟨c, u, rfl, -, hquote, hlist, hobject⟩ := opensValue_of_readScalar h
  simp only [readValue, hquote, hlist, hobject, if_false, h]

theorem opensValue_of_readValue {fuel : ℕ} {t : Text} {read : Json × Text}
    (h : readValue fuel t = .ok read) : ∃ c u, t = c :: u ∧ opensValue c = true := by
  cases fuel with
  | zero => cases h
  | succ fuel =>
    cases t with
    | nil => cases h
    | cons c u =>
      refine ⟨c, u, rfl, ?_⟩
      by_cases hquote : c = '\x22'
      · rw [hquote]
        rfl
      by_cases hlist : c = '['
      · rw [hlist]
        rfl
      by_cases hobject : c = '\x7b'
      · rw [hobject]
        rfl
      simp only [readValue, hquote, hlist, hobject, if_false] at h
      obtain ⟨d, v, heq, hopens, -⟩ := opensValue_of_readScalar h
      rw [(List.cons.inj heq).1]
      exact hopens

/-! ### Blanks of the layout -/

theorem skipGaps_newLine (level : ℕ) (t : Text) : skipGaps (newLine level ++ t) = skipGaps t := by
  refine List.dropWhile_append_of_pos fun c hc => ?_
  obtain rfl | hspace := List.mem_cons.mp hc
  · rfl
  · rw [List.eq_of_mem_replicate hspace]
    rfl

theorem skipGaps_of_opens {c : Char} (h : opensValue c = true) (t : Text) :
    skipGaps (c :: t) = c :: t :=
  List.dropWhile_cons_of_neg (by rw [(opensValue_not h).1]; decide)

theorem skipGaps_comma (t : Text) : skipGaps (',' :: t) = ',' :: t := rfl

theorem skipGaps_colon (t : Text) : skipGaps (':' :: t) = ':' :: t := rfl

theorem ends_newLine (level : ℕ) (t : Text) : Ends (newLine level ++ t) := by
  intro c hc
  exact .inr (Option.some.inj hc).symm

theorem ends_comma (t : Text) : Ends (',' :: t) := by
  intro c hc
  exact .inl (Option.some.inj hc).symm

/-! ### Values -/

/-- A value that a document can give back: no name stands twice in an object, and double precision
numbers are rounded. -/
inductive Sound : Json → Prop
  | null : Sound .null
  | bool (b : Bool) : Sound (.bool b)
  | int (i : ℤ) : Sound (.int i)
  | float {x : Binary64} (h : x.Canonical) : Sound (.float x)
  | str (t : Text) : Sound (.str t)
  | arr {items : List Json} (h : ∀ item ∈ items, Sound item) : Sound (.arr items)
  | obj {fields : Fields} (hkeys : (Table.keys fields).Nodup) (h : ∀ f ∈ fields, Sound f.2) :
    Sound (.obj fields)

/-- With fuel for every character, the text of a value is read as the value. -/
def ReadsBack (value : Json) : Prop :=
  ∀ (fuel level : ℕ) (rest : Text), Ends rest → 2 * (write level value).length ≤ fuel →
    readValue fuel (write level value ++ rest) = .ok (value, rest)

theorem readsBack_of_readScalar {value : Json} {text : Text}
    (htext : ∀ level, write level value = text)
    (hread : ∀ rest, Ends rest → readScalar (text ++ rest) = .ok (value, rest)) :
    ReadsBack value := by
  intro fuel level rest hrest hfuel
  have hscalar := hread rest hrest
  rw [htext] at hfuel ⊢
  cases fuel with
  | succ fuel => exact readValue_of_readScalar hscalar fuel
  | zero =>
    -- an empty text is no value
    obtain rfl : text = [] := List.length_eq_zero_iff.mp (by omega)
    obtain ⟨c, u, rfl, hopens, -⟩ := opensValue_of_readScalar hscalar
    obtain rfl | rfl := hrest c rfl <;> exact absurd hopens (by decide)

/-- The text of a value that reads back begins as values begin. -/
theorem ReadsBack.opens {value : Json} (h : ReadsBack value) (level : ℕ) :
    ∃ c u, write level value = c :: u ∧ opensValue c = true := by
  obtain ⟨c, u, heq, hopens⟩ :=
    opensValue_of_readValue (h _ level [] (by intro c hc; cases hc) le_rfl)
  exact ⟨c, u, by simpa using heq, hopens⟩

theorem readItems_writeItems {items : List Json} (hitems : ∀ item ∈ items, ReadsBack item)
    (hne : items ≠ []) {fuel level outer : ℕ} {rest : Text}
    (hfuel : 2 * (writeItems level items).length ≤ fuel) :
    readItems fuel (skipGaps (writeItems level items ++ (newLine outer ++ ']' :: rest))) =
      .ok (items, rest) := by
  induction items generalizing fuel with
  | nil => exact absurd rfl hne
  | cons item items ih =>
    obtain ⟨hitem, hothers⟩ := List.forall_mem_cons.mp hitems
    obtain ⟨c, u, hwrite, hopens⟩ := hitem.opens level
    have hstart (t : Text) : skipGaps (newLine level ++ (write level item ++ t)) =
        write level item ++ t := by
      rw [skipGaps_newLine, hwrite, List.cons_append, skipGaps_of_opens hopens]
    cases fuel with
    | zero => cases items <;> simp [writeItems, newLine] at hfuel
    | succ fuel =>
      cases items with
      | nil =>
        simp only [writeItems, newLine, List.length_append, List.length_cons] at hfuel
        rw [writeItems, List.append_assoc, hstart, readItems,
          hitem fuel level _ (ends_newLine _ _) (by omega)]
        simp only [skipGaps_newLine]
        rfl
      | cons next others =>
        simp only [writeItems, newLine, List.length_append, List.length_cons] at hfuel
        have hothersfuel : 2 * (writeItems level (next :: others)).length ≤ fuel := by omega
        rw [writeItems, List.append_assoc, List.append_assoc, List.cons_append, hstart, readItems,
          hitem fuel level _ (ends_comma _) (by omega)]
        simp only [skipGaps_comma, ih hothers (List.cons_ne_nil _ _) hothersfuel]

theorem readFields_writeFields {fields : Fields} (hfields : ∀ f ∈ fields, ReadsBack f.2)
    (hne : fields ≠ []) {fuel level outer : ℕ} {rest : Text}
    (hfuel : 2 * (writeFields level fields).length ≤ fuel) :
    readFields fuel (skipGaps (writeFields level fields ++ (newLine outer ++ '\x7d' :: rest))) =
      .ok (fields, rest) := by
  induction fields generalizing fuel with
  | nil => exact absurd rfl hne
  | cons f fields ih =>
    obtain ⟨name, value⟩ := f
    obtain ⟨hfirst, hothers⟩ := List.forall_mem_cons.mp hfields
    have hvalue : ReadsBack value := hfirst
    obtain ⟨c, u, hwrite, hopens⟩ := hvalue.opens level
    have hname (t : Text) : skipGaps (newLine level ++ (writeString name ++ t)) =
        '\x22' :: (name.flatMap writeChar ++ '\x22' :: t) := by
      rw [skipGaps_newLine, writeString, List.cons_append, List.cons_append,
        skipGaps_of_opens (by decide), List.append_assoc, List.singleton_append]
    have hstart (t : Text) : skipGaps (' ' :: (write level value ++ t)) =
        write level value ++ t := by
      rw [hwrite]
      exact skipGaps_of_opens hopens _
    cases fuel with
    | zero => cases fields <;> simp [writeFields, newLine] at hfuel
    | succ fuel =>
      cases fields with
      | nil =>
        simp only [writeFields, newLine, List.length_append, List.length_cons] at hfuel
        simp only [writeFields, List.append_assoc, List.cons_append, hname, readFields,
          readChars_flatMap, skipGaps_colon, hstart]
        rw [hvalue fuel level _ (ends_newLine _ _) (by omega)]
        simp only [skipGaps_newLine]
        rfl
      | cons next others =>
        simp only [writeFields, newLine, List.length_append, List.length_cons] at hfuel
        have hothersfuel : 2 * (writeFields level (next :: others)).length ≤ fuel := by omega
        simp only [writeFields, List.append_assoc, List.cons_append, hname, readFields,
          readChars_flatMap, skipGaps_colon, hstart]
        rw [hvalue fuel level _ (ends_comma _) (by omega)]
        simp only [skipGaps_comma, ih hothers (List.cons_ne_nil _ _) hothersfuel]

/-- A list is read item by item, since no item begins with the closing bracket. -/
theorem readValue_list {fuel : ℕ} {inside rest : Text} {items : List Json}
    (h : readItems fuel (skipGaps inside) = .ok (items, rest)) :
    readValue (fuel + 1) ('[' :: inside) = .ok (.arr items, rest) := by
  have hopens : ∃ c u, skipGaps inside = c :: u ∧ opensValue c = true := by
    cases fuel with
    | zero => cases h
    | succ fuel =>
      rw [readItems] at h
      cases hread : readValue fuel (skipGaps inside) with
      | error e => simp [hread] at h
      | ok read => exact opensValue_of_readValue hread
  obtain ⟨c, u, hinside, hopens⟩ := hopens
  have hclose : c ≠ ']' := (opensValue_not hopens).2.1
  rw [hinside] at h
  rw [readValue]
  simp [hinside, hclose, h]

theorem readValue_object {fuel : ℕ} {inside rest : Text} {fields : Fields}
    (h : readFields fuel (skipGaps inside) = .ok (fields, rest)) :
    readValue (fuel + 1) ('\x7b' :: inside) = .ok (.obj (Table.ofPairs fields), rest) := by
  have hopens : ∃ u, skipGaps inside = '\x22' :: u := by
    cases fuel with
    | zero => cases h
    | succ fuel =>
      unfold readFields at h
      split at h
      · next u heq => exact ⟨u, heq⟩
      · cases h
  obtain ⟨u, hinside⟩ := hopens
  rw [hinside] at h
  rw [readValue]
  simp [hinside, h]

theorem readsBack_arr {items : List Json} (h : ∀ item ∈ items, ReadsBack item) :
    ReadsBack (.arr items) := by
  intro fuel level rest hrest hfuel
  cases fuel with
  | zero => cases items <;> simp [write] at hfuel
  | succ fuel =>
    cases items with
    | nil => rfl
    | cons item items =>
      simp only [write, List.length_append, List.length_cons] at hfuel
      simp only [write, List.cons_append, List.append_assoc, List.nil_append]
      exact readValue_list (readItems_writeItems h (List.cons_ne_nil _ _) (by omega))

theorem readsBack_obj {fields : Fields} (hkeys : (Table.keys fields).Nodup)
    (h : ∀ f ∈ fields, ReadsBack f.2) : ReadsBack (.obj fields) := by
  intro fuel level rest hrest hfuel
  cases fuel with
  | zero => cases fields <;> simp [write] at hfuel
  | succ fuel =>
    cases fields with
    | nil => rfl
    | cons f fields =>
      simp only [write, List.length_append, List.length_cons] at hfuel
      simp only [write, List.cons_append, List.append_assoc, List.nil_append]
      rw [readValue_object (readFields_writeFields h (List.cons_ne_nil _ _) (by omega)),
        Table.ofPairs_of_nodup hkeys]

theorem Sound.readsBack {value : Json} (h : value.Sound) : ReadsBack value := by
  induction h with
  | null => exact readsBack_of_readScalar (fun _ => rfl) fun _ _ => rfl
  | bool b =>
    cases b
    · exact readsBack_of_readScalar (fun _ => rfl) fun _ _ => rfl
    · exact readsBack_of_readScalar (fun _ => rfl) fun _ _ => rfl
  | int i => exact readsBack_of_readScalar (fun _ => rfl) fun _ hrest => readScalar_ofInt i hrest
  | float h =>
    exact readsBack_of_readScalar (fun _ => rfl) fun _ hrest => readScalar_writeFloat h hrest
  | str t =>
    intro fuel level rest _ hfuel
    cases fuel with
    | zero => simp [write, writeString] at hfuel
    | succ fuel =>
      simp only [write, writeString, List.cons_append, List.append_assoc, List.nil_append]
      rw [readValue]
      simp only [if_true, readChars_flatMap]
  | arr _ ih => exact readsBack_arr ih
  | obj hkeys _ ih => exact readsBack_obj hkeys ih

/-- What is written to a document is read from it. -/
theorem read_document {value : Json} (h : value.Sound) : read value.document = .ok value := by
  obtain ⟨c, u, hwrite, hopens⟩ := h.readsBack.opens 0
  have hfuel : 2 * (write 0 value).length ≤ 2 * value.document.length + 2 := by
    simp only [document, written, List.length_append]
    omega
  have hread := h.readsBack _ 0 ['\n'] (fun d hd => .inr (Option.some.inj hd).symm) hfuel
  have hstart : skipGaps value.document = write 0 value ++ ['\n'] := by
    rw [document, written, hwrite]
    exact skipGaps_of_opens hopens _
  have hmark : value.document.head? ≠ some (Char.ofNat 0xfeff) := by
    rw [document, written, hwrite]
    exact fun hhead => (opensValue_not hopens).2.2 (Option.some.inj hhead)
  rw [read, if_neg hmark, hstart, hread]
  rfl

/-! ### What is read -/

theorem sound_of_readNumber? {negative : Bool} {t : Text} {read : Json × Text}
    (h : readNumber? negative t = some read) : read.1.Sound := by
  unfold readNumber? at h
  split at h <;> dsimp only at h <;> split_ifs at h <;> split at h <;> cases h
  all_goals first
    | exact .int _
    | exact .float (Decimal.canonical_toBinary64 _ _)

theorem sound_of_readScalar {t : Text} {read : Json × Text} (h : readScalar t = .ok read) :
    read.1.Sound := by
  unfold readScalar at h
  split at h
  · next name value hname =>
    have hmem := List.mem_of_find?_eq_some hname
    cases h
    simp only [namedValues, List.mem_cons, Prod.mk.injEq, List.not_mem_nil, or_false] at hmem
    obtain ⟨-, rfl⟩ | ⟨-, rfl⟩ | ⟨-, rfl⟩ | ⟨-, rfl⟩ | ⟨-, rfl⟩ | ⟨-, rfl⟩ := hmem
    · exact .null
    · exact .bool true
    · exact .bool false
    · exact .float trivial
    · exact .float trivial
    · exact .float trivial
  · dsimp only at h
    split at h
    · next hread =>
      cases h
      split at hread <;> exact sound_of_readNumber? hread
    · cases h

/-- Every value that is read is sound: the induction is on the fuel, for values, items and fields at
once. -/
theorem sound_of_reading (fuel : ℕ) :
    (∀ t value rest, readValue fuel t = .ok (value, rest) → value.Sound) ∧
      (∀ t items rest, readItems fuel t = .ok (items, rest) → ∀ item ∈ items, item.Sound) ∧
      ∀ t fields rest, readFields fuel t = .ok (fields, rest) → ∀ f ∈ fields, f.2.Sound := by
  induction fuel with
  | zero => exact ⟨nofun, nofun, nofun⟩
  | succ fuel ih =>
    obtain ⟨hvalue, hitems, hfields⟩ := ih
    refine ⟨fun t value rest h => ?_, fun t items rest h => ?_, fun t fields rest h => ?_⟩
    · cases t with
      | nil => cases h
      | cons c u =>
        rw [readValue] at h
        split_ifs at h
        · split at h <;> cases h
          exact .str _
        · split at h
          · cases h
            exact .arr (by simp)
          · split at h <;> cases h
            next hread => exact .arr (hitems _ _ _ hread)
        · split at h
          · cases h
            exact .obj List.nodup_nil (by simp)
          · split at h <;> cases h
            next hread =>
              refine .obj (Table.nodup_keys_ofPairs _) fun f hf => ?_
              exact hfields _ _ _ hread f (Table.mem_of_mem_ofPairs hf)
        · exact sound_of_readScalar h
    · rw [readItems] at h
      split at h
      · cases h
      · next item left hread =>
        have hitem := hvalue _ _ _ hread
        split at h
        · cases h
          exact List.forall_mem_singleton.mpr hitem
        · split at h <;> cases h
          next hmore => exact List.forall_mem_cons.mpr ⟨hitem, hitems _ _ _ hmore⟩
        · cases h
    · unfold readFields at h
      split at h
      · split at h
        · cases h
        · split at h
          · split at h
            · cases h
            · next item left hread =>
              have hitem := hvalue _ _ _ hread
              split at h
              · cases h
                exact List.forall_mem_singleton.mpr hitem
              · split at h <;> cases h
                next hmore => exact List.forall_mem_cons.mpr ⟨hitem, hfields _ _ _ hmore⟩
              · cases h
          · cases h
      · cases h

theorem sound_of_read {t : Text} {value : Json} (h : read t = .ok value) : value.Sound := by
  unfold read at h
  split_ifs at h
  split at h
  · cases h
  · next hread =>
    split at h <;> cases h
    exact (sound_of_reading _).1 _ _ _ hread

end Localize.Json
