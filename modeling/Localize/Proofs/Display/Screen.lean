import Localize.Proofs.Display.Value
import Mathlib.Data.List.Induction

/-!
# Displays through time

Whatever is done to a display, the content under a key is the first that was given with it and was
not blank, and it stays. Whenever everything is shown again, the renderer is told for every key what
the table in force says of that first value, so a display that turns back to its default language
shows all first values. The table in force is that of the language turned to last.
-/

namespace Localize

namespace Display

/-- What can be done to a display. -/
inductive Act where
  | remember (content : List Reference)
  | load (language : Text)
  | change (language : Text)
  | added (content : List Reference)
  | apply

/-- What an act gives when it comes to its end. -/
inductive Outcome where
  | counted (added : Nat)
  | loaded (table : Fields)
  | shown (s : Shown)
  | nothingNew

namespace Act

/-- The content given with an act. -/
def content : Act → List Reference
  | .remember content | .added content => content
  | .load _ | .change _ | .apply => []

/-- The language that an act turns to. -/
def language? : Act → Option Text
  | .load language | .change language => some language
  | .remember _ | .added _ | .apply => none

end Act

/-- A display and what its renderer has been told so far. -/
structure Screen where
  display : Display
  rendered : List (Piece × Json)

namespace Screen

def start (defaultLanguage : Text) : Screen := ⟨.empty defaultLanguage, []⟩

/-- Tells the renderer all values that are shown, each with the content under its key. -/
def render (s : Screen) (shown : Shown) : Screen :=
  { s with
    rendered := s.rendered ++ shown.values.filterMap fun p =>
      (Table.find? s.display.index p.1).map (·, p.2) }

/-- What is shown is rendered, if it can be shown. -/
def ended (s : Screen) : Except Fault Shown → Except Fault Outcome × Screen
  | .ok shown => (.ok (.shown shown), s.render shown)
  | .error fault => (.error fault, s)

def perform (loader : Loader) (s : Screen) : Act → Except Fault Outcome × Screen
  | .remember content =>
    let (result, display) := s.display.remember 0 content
    (result.map .counted, { s with display })
  | .load language =>
    let display := s.display.load loader language
    (.ok (.loaded display.table), { s with display })
  | .change language =>
    let (result, display) := s.display.change loader language
    ended { s with display } result
  | .added content =>
    match s.display.added content with
    | (.error fault, display) => (.error fault, { s with display })
    | (.ok none, display) => (.ok .nothingNew, { s with display })
    | (.ok (some shown), display) => ended { s with display } (.ok shown)
  | .apply => ended s s.display.apply

/-- Acts one after another, each with what tables can be loaded at its time. -/
def run (s : Screen) (acts : List (Loader × Act)) : Screen :=
  acts.foldl (fun s a => (s.perform a.1 a.2).2) s

/-- The value that the renderer was told last for a key. -/
def last? (s : Screen) (key : Key) : Option Json :=
  Table.find? (s.rendered.map fun p => (p.1.key, p.2)).reverse key

/-- The renderer was told last for every key what the table says of the content under it, and every
key was counted. -/
structure Current (s : Screen) (table : Fields) (shown : Shown) : Prop where
  rendered : ∀ key c, Table.find? s.display.index key = some c →
    ∃ value, s.last? key = some value ∧ ShowsValue table c value
  counted : shown.translated + shown.fallbacks = s.display.index.length

end Screen

/-- The pieces of content up to the first value that is none. -/
def pieces : List Reference → List Piece
  | .piece c :: rest => c :: pieces rest
  | _ => []

/-- The pieces given with some acts. -/
def given (acts : List (Loader × Act)) : List Piece := acts.flatMap fun a => pieces a.2.content

/-- The first piece with a key that is not blank. -/
def first? (given : List Piece) (key : Key) : Option Piece :=
  given.find? fun c => c.key = key && !Text.allBlank c.source

/-- The table of a language; the default language has none. -/
def tableOf (defaultLanguage : Text) (loader : Loader) (language : Text) : Fields :=
  if language = defaultLanguage then [] else (loader language).getD []

/-- The table in force after some acts. -/
def tableAfter (defaultLanguage : Text) (acts : List (Loader × Act)) : Fields :=
  ((acts.reverse.findSome? fun a => a.2.language?.map (tableOf defaultLanguage a.1 ·))).getD []

/-- A loader that gives tables of texts, or none. -/
def Loader.Textual (loader : Loader) : Prop :=
  ∀ language table, loader language = some table → Display.Textual table

/-- Everything is shown again: always when the act asks for it, and when pieces have been given of
which some are new. -/
def Act.Redraws (before after : Display) : Act → Prop
  | .apply | .change _ => True
  | .added content => (∀ r ∈ content, ∃ c, r = .piece c) ∧ after.index ≠ before.index
  | .remember _ | .load _ => False

variable {d : Display} {s : Screen} {loader : Loader} {act : Act} {acts : List (Loader × Act)}
  {key : Key} {table : Fields}

/-! ### Remembering -/

theorem Indexed.insert {index : Table Key Piece} (h : Indexed index) {c : Piece}
    (hblank : Text.allBlank c.source = false) : Indexed (Table.insert index c.key c) where
  keyed p hp := by
    obtain rfl | hp := Table.of_mem_insert hp
    · rfl
    · exact h.keyed p hp
  distinct := Table.nodup_keys_insert h.distinct c.key c
  notBlank p hp := by
    obtain rfl | hp := Table.of_mem_insert hp
    · exact hblank
    · exact h.notBlank p hp

theorem first?_cons (c : Piece) (given : List Piece) (key : Key) :
    first? (c :: given) key =
      if c.key = key ∧ Text.allBlank c.source = false then some c else first? given key := by
  rw [first?, List.find?_cons]
  by_cases h : c.key = key ∧ Text.allBlank c.source = false
  · simp [h]
  · rw [if_neg h]
    split
    · next hc => exact absurd (by simpa using hc) h
    · rfl

theorem first?_append (given more : List Piece) (key : Key) :
    first? (given ++ more) key = (first? given key).or (first? more key) :=
  List.find?_append

/-- Remembering adds the first pieces with new keys at the end of the index and counts them. It
stops at a value that is no piece. -/
theorem remember_eq (h : Indexed d.index) (count : Nat) (content : List Reference) :
    ∃ new, (d.remember count content).2 = { d with index := d.index ++ new } ∧
      Indexed (d.index ++ new) ∧
      (∀ key, Table.find? (d.index ++ new) key =
        (Table.find? d.index key).or (first? (pieces content) key)) ∧
      ((d.remember count content).1 = .ok (count + new.length) ∨
        (∃ value, .other value ∈ content) ∧ (d.remember count content).1 = .error .noMember) := by
  induction content generalizing d count with
  | nil => exact ⟨[], by simp [remember], by simpa using h, by simp [pieces, first?], .inl rfl⟩
  | cons r content ih =>
    cases r with
    | other value =>
      exact ⟨[], by simp [remember], by simpa using h, by simp [pieces, first?],
        .inr ⟨⟨value, List.mem_cons_self⟩, rfl⟩⟩
    | piece c =>
      rw [remember, pieces]
      by_cases hseen : (Text.allBlank c.source || Table.has d.index c.key) = true
      · rw [if_pos hseen]
        obtain ⟨new, hdisplay, hindexed, hfirst, hresult⟩ := ih h count
        refine ⟨new, hdisplay, hindexed, fun key => ?_, hresult.imp_right fun hstop => ?_⟩
        · rw [hfirst, first?_cons]
          split_ifs with hc
          · obtain ⟨rfl, hblank⟩ := hc
            rw [hblank, Bool.false_or, Table.has, Option.isSome_iff_exists] at hseen
            obtain ⟨c', hc'⟩ := hseen
            rw [hc', Option.some_or, Option.some_or]
          · rfl
        · exact ⟨hstop.1.imp fun _ hvalue => List.mem_cons_of_mem _ hvalue, hstop.2⟩
      · rw [if_neg hseen]
        rw [Bool.or_eq_true, not_or, Bool.not_eq_true, Bool.not_eq_true, Table.has,
          Option.isSome_eq_false_iff, Option.isNone_iff_eq_none] at hseen
        obtain ⟨hblank, hnew⟩ := hseen
        have hindex : Table.insert d.index c.key c = d.index ++ [(c.key, c)] :=
          Table.insert_of_notMem (Table.find?_eq_none_iff.mp hnew) c
        obtain ⟨new, hdisplay, hindexed, hfirst, hresult⟩ :=
          ih (d := { d with index := Table.insert d.index c.key c }) (h.insert hblank) (count + 1)
        have happend : Table.insert d.index c.key c ++ new = d.index ++ (c.key, c) :: new := by
          rw [hindex, List.append_assoc, List.singleton_append]
        simp only [happend] at hdisplay hindexed hfirst
        have hcount : count + 1 + new.length = count + ((c.key, c) :: new).length := by
          rw [List.length_cons]
          omega
        rw [hcount] at hresult
        refine ⟨(c.key, c) :: new, hdisplay, hindexed, fun key => ?_,
          hresult.imp_right fun hstop => ?_⟩
        · rw [hfirst, first?_cons, Table.find?_insert]
          by_cases hkey : c.key = key
          · rw [if_pos hkey, if_pos ⟨hkey, hblank⟩, ← hkey, hnew, Option.some_or, Option.none_or]
          · rw [if_neg hkey, if_neg (fun hc => hkey hc.1)]
        · exact ⟨hstop.1.imp fun _ hvalue => List.mem_cons_of_mem _ hvalue, hstop.2⟩

/-! ### What an act leaves -/

/-- The display that an act leaves. -/
def Act.after (loader : Loader) (d : Display) : Act → Display
  | .remember content | .added content => (d.remember 0 content).2
  | .load language | .change language => d.load loader language
  | .apply => d

namespace Screen

theorem display_ended (s : Screen) (shown : Except Fault Shown) :
    (s.ended shown).2.display = s.display := by
  cases shown <;> rfl

theorem display_perform (s : Screen) (loader : Loader) (act : Act) :
    (s.perform loader act).2.display = act.after loader s.display := by
  cases act with
  | remember content | load language => rfl
  | change language | apply => exact display_ended _ _
  | added content =>
    rw [perform, Display.added, Act.after]
    cases s.display.remember 0 content with
    | mk result display =>
      cases result with
      | error fault => rfl
      | ok count =>
        cases count with
        | zero => rfl
        | succ count =>
          cases hshown : display.apply with
          | error fault => simp [hshown, Except.map]
          | ok shown => simp [hshown, Except.map, display_ended]

theorem run_concat (s : Screen) (acts : List (Loader × Act)) (loader : Loader) (act : Act) :
    s.run (acts ++ [(loader, act)]) = ((s.run acts).perform loader act).2 :=
  List.foldl_append

end Screen

/-- An act adds the first pieces with new keys to the index and takes none away. -/
theorem indexed_after (h : Indexed d.index) (loader : Loader) (act : Act) :
    Indexed (act.after loader d).index ∧ ∀ key, Table.find? (act.after loader d).index key =
      (Table.find? d.index key).or (first? (pieces act.content) key) := by
  cases act with
  | apply | load language | change language => exact ⟨h, fun key => Option.or_none.symm⟩
  | remember content | added content =>
    obtain ⟨new, hdisplay, hindexed, hfirst, -⟩ := remember_eq h 0 content
    rw [Act.after, hdisplay]
    exact ⟨hindexed, hfirst⟩

theorem settings_after (h : Indexed d.index) (loader : Loader) (act : Act) :
    (act.after loader d).defaultLanguage = d.defaultLanguage ∧
      (act.after loader d).table =
        (act.language?.map (tableOf d.defaultLanguage loader ·)).getD d.table := by
  cases act with
  | apply | load language | change language => exact ⟨rfl, rfl⟩
  | remember content | added content =>
    obtain ⟨new, hdisplay, -⟩ := remember_eq h 0 content
    rw [Act.after, hdisplay]
    exact ⟨rfl, rfl⟩

theorem given_concat (acts : List (Loader × Act)) (loader : Loader) (act : Act) :
    given (acts ++ [(loader, act)]) = given acts ++ pieces act.content := by
  simp [given]

theorem tableAfter_concat (defaultLanguage : Text) (acts : List (Loader × Act)) (loader : Loader)
    (act : Act) : tableAfter defaultLanguage (acts ++ [(loader, act)]) =
      (act.language?.map (tableOf defaultLanguage loader ·)).getD
        (tableAfter defaultLanguage acts) := by
  unfold tableAfter
  rw [List.reverse_append, List.reverse_singleton, List.singleton_append, List.findSome?_cons]
  cases act.language? with
  | none => rfl
  | some language => rfl

theorem textual_tableAfter (hloaders : ∀ a ∈ acts, a.1.Textual) (defaultLanguage : Text) :
    Textual (tableAfter defaultLanguage acts) := by
  unfold tableAfter
  cases hfind : acts.reverse.findSome? fun a =>
      a.2.language?.map (tableOf defaultLanguage a.1 ·) with
  | none => exact fun p hp => nomatch hp
  | some table =>
    obtain ⟨a, ha, htable⟩ := List.exists_of_findSome?_eq_some hfind
    obtain ⟨language, -, rfl⟩ := Option.map_eq_some_iff.mp htable
    rw [Option.getD_some, tableOf]
    split_ifs
    · exact fun p hp => nomatch hp
    · cases hload : a.1 language with
      | none => exact fun p hp => nomatch hp
      | some table => exact hloaders a (List.mem_reverse.mp ha) language table hload

namespace Screen

/-- The index after some acts holds the first pieces that were given with them. -/
theorem indexed_run (defaultLanguage : Text) (acts : List (Loader × Act)) :
    Indexed ((start defaultLanguage).run acts).display.index ∧
      ∀ key, Table.find? ((start defaultLanguage).run acts).display.index key =
        first? (given acts) key := by
  induction acts using List.reverseRecOn with
  | nil =>
    exact ⟨⟨fun _ hp => absurd hp List.not_mem_nil, List.nodup_nil,
      fun _ hp => absurd hp List.not_mem_nil⟩, fun _ => rfl⟩
  | append_singleton acts a ih =>
    obtain ⟨loader, act⟩ := a
    obtain ⟨hindexed, hfirst⟩ := indexed_after ih.1 loader act
    rw [run_concat, display_perform]
    refine ⟨hindexed, fun key => ?_⟩
    rw [hfirst, ih.2, given_concat, first?_append]

theorem settings_run (defaultLanguage : Text) (acts : List (Loader × Act)) :
    ((start defaultLanguage).run acts).display.defaultLanguage = defaultLanguage ∧
      ((start defaultLanguage).run acts).display.table = tableAfter defaultLanguage acts := by
  induction acts using List.reverseRecOn with
  | nil => exact ⟨rfl, rfl⟩
  | append_singleton acts a ih =>
    obtain ⟨loader, act⟩ := a
    obtain ⟨hdefault, htable⟩ :=
      settings_after (indexed_run defaultLanguage acts).1 loader act
    rw [run_concat, display_perform, tableAfter_concat, hdefault, htable, ih.1, ih.2]
    exact ⟨rfl, rfl⟩

/-! ### What is rendered -/

/-- The renderer is told the values by the keys under which they are shown. -/
theorem map_rendered {index : Table Key Piece} {values : Table Key Json}
    (h : ∀ p ∈ values, ∃ c, Table.find? index p.1 = some c ∧ c.key = p.1) :
    (values.filterMap fun p => (Table.find? index p.1).map (·, p.2)).map
      (fun p => (p.1.key, p.2)) = values := by
  induction values with
  | nil => rfl
  | cons p values ih =>
    obtain ⟨⟨c, hfind, hkey⟩, hvalues⟩ := List.forall_mem_cons.mp h
    simp only [List.filterMap_cons, hfind, Option.map_some, List.map_cons, ih hvalues, hkey]

/-- A display with a table of texts can be shown, and its renderer is told everything. -/
theorem exists_apply (hindex : Indexed s.display.index) (htable : Textual s.display.table) :
    ∃ shown, s.display.apply = .ok shown ∧ (s.render shown).Current s.display.table shown := by
  obtain ⟨shown, hshown, hvalues, hcount⟩ := exists_ofTable htable hindex
  have hkeys : Table.keys shown.values = Table.keys s.display.index :=
    Table.keys_of_forall₂ hvalues
  have hdistinct : (Table.keys shown.values).Nodup := by
    rw [hkeys]
    exact hindex.distinct
  have hlast : ∀ key, Table.find? shown.values key ≠ none →
      (s.render shown).last? key = Table.find? shown.values key := by
    intro key hkey
    have hrendered : ∀ p ∈ shown.values,
        ∃ c, Table.find? s.display.index p.1 = some c ∧ c.key = p.1 := by
      intro p hp
      have hmem : p.1 ∈ Table.keys s.display.index := hkeys ▸ List.mem_map_of_mem hp
      obtain ⟨c, hc⟩ := Option.isSome_iff_exists.mp (Table.mem_keys_iff.mp hmem)
      exact ⟨c, hc, hindex.keyed _ (Table.mem_of_find? hc)⟩
    rw [last?, render, List.map_append, map_rendered hrendered, List.reverse_append,
      Table.find?_append, Table.find?_reverse hdistinct]
    obtain ⟨value, hvalue⟩ := Option.ne_none_iff_exists'.mp hkey
    rw [hvalue, Option.some_or]
  refine ⟨shown, hshown, fun key c hc => ?_, hcount⟩
  obtain ⟨value, hvalue, hshows⟩ := Table.exists_find?_of_forall₂ hvalues hc
  exact ⟨value, by rw [hlast key (by simp [hvalue]), hvalue], hshows⟩

/-- An act that shows everything again shows the display that it leaves. -/
theorem perform_redraw (hindex : Indexed s.display.index)
    (h : act.Redraws s.display (act.after loader s.display)) {shown : Shown}
    (happly : (act.after loader s.display).apply = .ok shown) :
    s.perform loader act =
      (.ok (.shown shown), { s with display := act.after loader s.display }.render shown) := by
  cases act with
  | remember content | load language => exact h.elim
  | change language =>
    have hchange : (s.display.load loader language).apply = .ok shown := happly
    rw [perform, Display.change]
    simp only [hchange]
    rfl
  | apply =>
    have hsame : s.display.apply = .ok shown := happly
    rw [perform, hsame]
    rfl
  | added content =>
    obtain ⟨hcontent, hchanged⟩ := h
    obtain ⟨new, hdisplay, -, -, hresult⟩ := remember_eq hindex 0 content
    have hcounted : (s.display.remember 0 content).1 = .ok (0 + new.length) := by
      refine hresult.resolve_right ?_
      rintro ⟨⟨value, hvalue⟩, -⟩
      obtain ⟨c, hc⟩ := hcontent _ hvalue
      cases hc
    have hnew : new ≠ [] := by
      rintro rfl
      apply hchanged
      rw [Act.after, hdisplay, List.append_nil]
    obtain ⟨n, hn⟩ := Nat.exists_eq_succ_of_ne_zero (List.length_pos_iff.mpr hnew).ne'
    have hremember : s.display.remember 0 content =
        (.ok (n + 1), Act.after loader s.display (.added content)) := by
      rw [hn, Nat.zero_add] at hcounted
      exact Prod.ext hcounted rfl
    rw [perform, Display.added, hremember]
    simp only [happly]
    rfl

/-- After whatever has been done to a display and one act more, the content under every key is the
first that was given with it, and stays through all that follows. If the act shows everything again,
the renderer was told last for every key what the table of the language turned to last says of that
content, and every key was counted. Turning to the default language shows all first values. -/
theorem current_of_run (defaultLanguage : Text) {acts : List (Loader × Act)} {loader : Loader}
    {act : Act} (hloaders : ∀ a ∈ acts ++ [(loader, act)], a.1.Textual) :
    let s := (start defaultLanguage).run acts
    let r := s.perform loader act
    (∀ key, Table.find? r.2.display.index key = first? (given (acts ++ [(loader, act)])) key) ∧
    (∀ more key c, Table.find? r.2.display.index key = some c →
      Table.find? (r.2.run more).display.index key = some c) ∧
    (act.Redraws s.display r.2.display → ∃ shown, r.1 = .ok (.shown shown) ∧
      r.2.Current (tableAfter defaultLanguage (acts ++ [(loader, act)])) shown ∧
      (act = .change defaultLanguage → ∀ key c, Table.find? r.2.display.index key = some c →
        r.2.last? key = some (.str c.source))) := by
  intro s r
  have hr : r.2 = (start defaultLanguage).run (acts ++ [(loader, act)]) :=
    (run_concat _ _ _ _).symm
  obtain ⟨hindex, hfirst⟩ := indexed_run defaultLanguage (acts ++ [(loader, act)])
  have htable := (settings_run defaultLanguage (acts ++ [(loader, act)])).2
  rw [← hr] at hindex hfirst htable
  refine ⟨hfirst, fun more key c hc => ?_, fun hredraws => ?_⟩
  · have hmore := (indexed_run defaultLanguage (acts ++ [(loader, act)] ++ more)).2 key
    rw [run, List.foldl_append] at hmore
    rw [hfirst] at hc
    rw [hr]
    refine hmore.trans ?_
    rw [given, List.flatMap_append, first?_append]
    exact (congrArg (Option.or · _) hc).trans Option.some_or
  · have hafter : r.2.display = act.after loader s.display := display_perform s loader act
    have htextual : Textual r.2.display.table := htable ▸ textual_tableAfter hloaders _
    obtain ⟨shown, happly, hcurrent⟩ :=
      exists_apply (s := { s with display := r.2.display }) hindex htextual
    have hperform : r = (.ok (.shown shown), { s with display := r.2.display }.render shown) := by
      rw [hafter] at hredraws happly ⊢
      exact perform_redraw (indexed_run defaultLanguage acts).1 hredraws happly
    have hscreen : r.2 = { s with display := r.2.display }.render shown :=
      congrArg Prod.snd hperform
    have hcurrent' : r.2.Current (tableAfter defaultLanguage (acts ++ [(loader, act)])) shown := by
      rw [hscreen, ← htable]
      exact hcurrent
    refine ⟨shown, congrArg Prod.fst hperform, hcurrent', ?_⟩
    rintro rfl key c hc
    obtain ⟨value, hlast, t, rfl, hshows⟩ := hcurrent'.rendered key c hc
    rw [tableAfter_concat] at hshows
    have hplain : tableOf defaultLanguage loader defaultLanguage = [] := if_pos rfl
    rw [Act.language?, Option.map_some, Option.getD_some, hplain] at hshows
    rw [hlast, hshows.eq_source]

/-- The tables of one language. -/
def spanish : Loader := fun language =>
  if language = "es".toList then
    some (Json.record [("Hello", Json.lit "Hola"), ("Search", Json.lit "Buscar")])
  else none

/-- A heading is met, and the display turns to Spanish. -/
def opening : List (Loader × Act) :=
  [(spanish, .remember [.piece (.text (Json.lit "heading") " Hello ".toList)]),
    (spanish, .change "es".toList)]

/-- The heading comes again with another value, and a field with it. -/
def arrival : Act := .added [.piece (.text (Json.lit "heading") "Hola".toList),
  .piece (.attr (Json.lit "field") "title".toList "Search".toList)]

example : ((start "en".toList).run (opening ++ [(spanish, arrival)])).last?
    (.text (Json.lit "heading")) = some (Json.lit " Hola ") := by decide +kernel

theorem textual_spanish : spanish.Textual := by
  intro language table h
  unfold spanish at h
  split_ifs at h
  cases h
  exact List.forall_mem_cons.mpr ⟨⟨_, rfl⟩, List.forall_mem_singleton.mpr ⟨_, rfl⟩⟩

theorem current_of_run_arrival :
    let s := (start "en".toList).run opening
    let r := s.perform spanish arrival
    (∀ a ∈ opening ++ [(spanish, arrival)], a.1.Textual) ∧
    arrival.Redraws s.display r.2.display ∧
    (∀ key, Table.find? r.2.display.index key =
      first? (given (opening ++ [(spanish, arrival)])) key) ∧
    (∀ more key c, Table.find? r.2.display.index key = some c →
      Table.find? (r.2.run more).display.index key = some c) ∧
    ∃ shown, r.1 = .ok (.shown shown) ∧
      r.2.Current (tableAfter "en".toList (opening ++ [(spanish, arrival)])) shown := by
  have hloaders : ∀ a ∈ opening ++ [(spanish, arrival)], a.1.Textual := by
    intro a ha
    have hspanish : a.1 = spanish := by
      simp only [opening, List.cons_append, List.nil_append, List.mem_cons, List.not_mem_nil,
        or_false] at ha
      obtain rfl | rfl | rfl := ha <;> rfl
    rw [hspanish]
    exact textual_spanish
  have hcontent : ∀ r ∈ arrival.content, ∃ c, r = .piece c :=
    List.forall_mem_cons.mpr ⟨⟨_, rfl⟩, List.forall_mem_singleton.mpr ⟨_, rfl⟩⟩
  have hnew : (((start "en".toList).run opening).perform spanish arrival).2.display.index ≠
      ((start "en".toList).run opening).display.index := by decide +kernel
  obtain ⟨hfirst, hkept, hshown⟩ := current_of_run "en".toList hloaders
  obtain ⟨shown, hresult, hcurrent, -⟩ := hshown ⟨hcontent, hnew⟩
  exact ⟨hloaders, ⟨hcontent, hnew⟩, hfirst, hkept, shown, hresult, hcurrent⟩

end Screen

end Display

end Localize
