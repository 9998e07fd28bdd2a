import Localize.Proofs.Journal.Logger
import Localize.Proofs.Settings.File
import Localize.Proofs.Table

/-!
# Changes of the mode

Loggers are asked for and the mode changes, in any order. A change reaches those loggers of the
library that have outlets. A logger made while the mode is `off` has none: it stays silent until it
is asked for again, and loggers with other names keep the mode in which they were last asked for.
-/

namespace Localize

namespace Journal

variable {v v' : Volume} {env : Environment} {j j' : Journal} {mode : Json} {name : Text}
  {l : Logger}

/-! ### Opening the file -/

theorem names?_file :
    file.names? = some ([".polygot".toList, "logs".toList] ++ ["polygot.log".toList]) := by
  decide +kernel

/-- Opening the file of the journal makes it, empty, where there was none. -/
theorem content?_openFile (h : openFile v = .ok v') (p : Path) :
    v'.content? p = v.content? p ∨ v.content? p = none ∧ v'.content? p = some (.text []) := by
  unfold openFile at h
  cases hmake : v.makeFolder? folder with
  | none =>
    simp only [hmake] at h
    cases h
  | some v₁ =>
    simp only [hmake] at h
    rw [← Volume.content?_makeFolder? hmake]
    have hput (hplace : ∀ inner, v₁.place file ≠ .folder inner) (hnone : v₁.content? file = none) :
        (v₁.put file (some (.text []))).content? p = v₁.content? p ∨
          v₁.content? p = none ∧ (v₁.put file (some (.text []))).content? p = some (.text []) := by
      have hfree : ¬ v₁.entries.HasFolder
          ([".polygot".toList, "logs".toList] ++ ["polygot.log".toList]) := by
        rintro ⟨inner, hinner⟩
        refine hplace inner ?_
        rw [Volume.place, names?_file]
        exact hinner
      rcases Volume.content?_put names?_file hfree (.text []) p with hsame | ⟨hnames, hempty⟩
      · exact .inl hsame
      · refine .inr ⟨?_, hempty⟩
        rw [Volume.content?_eq, hnames, ← Volume.content?_eq, hnone]
    cases hplace : v₁.place file with
    | file content =>
      simp only [hplace] at h
      cases h
      exact .inl rfl
    | folder inner =>
      simp only [hplace] at h
      cases h
    | missing | throughFile =>
      simp only [hplace] at h
      cases h
      refine hput (fun inner hfolder => by cases hplace.symm.trans hfolder) ?_
      rw [Volume.content?, hplace]

/-- The file has been opened, or the volume left alone. -/
def Opened (v v' : Volume) : Prop := v' = v ∨ openFile v = .ok v'

/-- An empty file says nothing about the mode. -/
theorem Opened.askedMode_eq (h : Opened v v') (env : Environment) :
    askedMode v' env = askedMode v env := by
  rcases h with rfl | h
  · rfl
  · have hload (p : Path) : Settings.load v' p = Settings.load v p := by
      rw [Settings.load_eq, Settings.load_eq]
      rcases content?_openFile h p with hsame | ⟨hnone, hempty⟩
      · rw [hsame]
      · rw [hnone, hempty]
        rfl
    rw [askedMode, askedMode, hload]

/-! ### The mode in force -/

theorem kept_mode (v : Volume) (env : Environment) :
    (askedMode v env).2 = none ∨ (askedMode v env).2 = some (askedMode v env).1 := by
  unfold askedMode
  split
  · exact .inr rfl
  · split
    · dsimp only
      split
      · exact .inl rfl
      · exact .inr rfl
    · exact .inl rfl

theorem mode_congr (hknown : j'.knownMode = j.knownMode)
    (hasked : askedMode v' env = askedMode v env) : (j'.mode v' env).1 = (j.mode v env).1 := by
  unfold Journal.mode
  rw [hknown]
  cases j.knownMode with
  | some mode => rfl
  | none =>
    dsimp only
    rw [hasked]

/-- Looking up the mode changes neither the mode nor the loggers. -/
theorem mode_lookUp (j : Journal) (v : Volume) (env : Environment) :
    ((j.mode v env).2.mode v env).1 = (j.mode v env).1 ∧
      (j.mode v env).2.loggers = j.loggers := by
  unfold Journal.mode
  cases hknown : j.knownMode with
  | some mode =>
    dsimp only
    rw [hknown]
    exact ⟨rfl, rfl⟩
  | none =>
    dsimp only
    rcases kept_mode v env with hkept | hkept
    · rw [hkept]
      exact ⟨rfl, rfl⟩
    · rw [hkept]
      exact ⟨rfl, rfl⟩

/-! ### Asking for a logger -/

/-- A logger as it is when it has been asked for: new, or adjusted if it has outlets. -/
def obtained (mode : Json) : Option Logger → Logger
  | some ⟨level, first :: rest⟩ => Logger.adjusted mode ⟨level, first :: rest⟩
  | _ => .ofMode mode

theorem obtained_of_outlets (houtlets : l.outlets ≠ []) :
    obtained mode (some l) = l.adjusted mode := by
  obtain ⟨level, outlets⟩ := l
  cases outlets with
  | nil => exact absurd rfl houtlets
  | cons first rest => rfl

theorem Logger.SetTo.obtained {m : Json} (h : l.SetTo m) :
    (obtained mode (some l)).SetTo mode := by
  obtain ⟨level, outlets⟩ := l
  cases outlets with
  | nil => exact Logger.setTo_ofMode mode
  | cons first rest => exact (h.adjusted (List.cons_ne_nil _ _) mode).1

theorem adjust_ok (h : j.adjust v mode name l = (.ok (), j', v')) :
    j' = j.setLogger name (l.adjusted mode) ∧ Opened v v' := by
  unfold adjust at h
  split at h
  · cases hopen : openFile v with
    | ok v₁ =>
      simp only [hopen] at h
      cases h
      exact ⟨rfl, .inr hopen⟩
    | error fault =>
      simp only [hopen] at h
      cases h
  · cases h
    exact ⟨rfl, .inl rfl⟩

theorem equip_ok (h : j.equip v mode name = (.ok (), j', v')) :
    j' = j.setLogger name (.ofMode mode) ∧ Opened v v' := by
  unfold equip at h
  split at h
  · cases h
    exact ⟨rfl, .inl rfl⟩
  · cases hopen : openFile v with
    | ok v₁ =>
      simp only [hopen] at h
      cases h
      exact ⟨rfl, .inr hopen⟩
    | error fault =>
      simp only [hopen] at h
      cases h

/-- Asking for a logger leaves the mode and the other loggers as they are. -/
theorem get_ok (h : j.get v env name = (.ok (), j', v')) :
    (j'.mode v' env).1 = (j.mode v env).1 ∧ j'.loggers = Table.insert j.loggers name
      (obtained (j.mode v env).1 (Table.find? j.loggers name)) := by
  obtain ⟨hmode, hloggers⟩ := mode_lookUp j v env
  have hget : ∃ l, l = obtained (j.mode v env).1 (Table.find? j.loggers name) ∧
      j' = (j.mode v env).2.setLogger name l ∧ Opened v v' := by
    unfold Journal.get at h
    dsimp only at h
    rw [← hloggers]
    cases hfind : Table.find? (j.mode v env).2.loggers name with
    | none =>
      simp only [hfind] at h
      exact ⟨_, rfl, equip_ok h⟩
    | some l =>
      obtain ⟨level, outlets⟩ := l
      cases outlets with
      | nil =>
        simp only [hfind] at h
        exact ⟨_, rfl, equip_ok h⟩
      | cons first rest =>
        simp only [hfind] at h
        exact ⟨_, rfl, adjust_ok h⟩
  obtain ⟨l, rfl, rfl, hopened⟩ := hget
  refine ⟨?_, ?_⟩
  · rw [← hmode]
    exact mode_congr rfl (hopened.askedMode_eq env)
  · rw [← hloggers]
    rfl

/-! ### Changing the mode -/

/-- A logger as it is when the mode has changed. -/
def refreshed (mode : Json) (name : Text) (l : Logger) : Logger :=
  if l.outlets.isEmpty || !isOwn name then l else l.adjusted mode

theorem refreshed_of_own (hown : isOwn name = true) (houtlets : l.outlets ≠ []) :
    refreshed mode name l = l.adjusted mode := by
  have hempty : l.outlets.isEmpty = false := by simpa using houtlets
  rw [refreshed, hempty, hown]
  rfl

theorem refreshed_of_foreign (hforeign : isOwn name = false) : refreshed mode name l = l := by
  rw [refreshed, hforeign, Bool.not_false, Bool.or_true, if_pos rfl]

/-- Going through loggers adjusts each of them and no other. -/
theorem adjustAll_ok {entries : List (Text × Logger)} (hdistinct : (Table.keys entries).Nodup)
    (h : adjustAll v mode j entries = (.ok (), j', v')) :
    j'.knownMode = j.knownMode ∧ (∀ env, askedMode v' env = askedMode v env) ∧
      ((Table.keys j.loggers).Nodup → (Table.keys j'.loggers).Nodup) ∧
      ∀ name, Table.find? j'.loggers name =
        match Table.find? entries name with
        | some l => if l.outlets.isEmpty || !isOwn name then Table.find? j.loggers name
            else some (l.adjusted mode)
        | none => Table.find? j.loggers name := by
  induction entries generalizing j v with
  | nil =>
    cases h
    exact ⟨rfl, fun _ => rfl, id, fun _ => rfl⟩
  | cons entry entries ih =>
    obtain ⟨first, l⟩ := entry
    obtain ⟨hfirst, hdistinct⟩ := List.nodup_cons.mp hdistinct
    have hnone : Table.find? entries first = none := Table.find?_eq_none_iff.mpr hfirst
    rw [adjustAll] at h
    split at h
    · next hskipped =>
      obtain ⟨hknown, hasked, hnodup, hfind⟩ := ih hdistinct h
      refine ⟨hknown, hasked, hnodup, fun name => ?_⟩
      rw [hfind, Table.find?_cons]
      by_cases hname : first = name
      · subst hname
        rw [hnone, if_pos rfl]
        exact (if_pos hskipped).symm
      · rw [if_neg hname]
    · next hadjusted =>
      cases hadjust : j.adjust v mode first l with
      | mk result after =>
        obtain ⟨j₁, v₁⟩ := after
        cases result with
        | error fault =>
          simp only [hadjust] at h
          cases h
        | ok done =>
          simp only [hadjust] at h
          obtain ⟨rfl, hopened⟩ := adjust_ok hadjust
          obtain ⟨hknown, hasked, hnodup, hfind⟩ := ih hdistinct h
          refine ⟨hknown, fun env => (hasked env).trans (hopened.askedMode_eq env),
            fun hn => hnodup (Table.nodup_keys_insert hn _ _), fun name => ?_⟩
          rw [hfind, Table.find?_cons, setLogger, Table.find?_insert]
          by_cases hname : first = name
          · subst hname
            simp only [hnone, if_true, hadjusted]
            rfl
          · rw [if_neg hname, if_neg hname]

/-- A change of the mode adjusts the loggers of the library that have outlets. -/
theorem refresh_ok (hdistinct : (Table.keys j.loggers).Nodup)
    (h : j.refresh v env = (.ok (), j', v')) :
    (Table.keys j'.loggers).Nodup ∧ ∀ name, Table.find? j'.loggers name =
      (Table.find? j.loggers name).map (refreshed (j'.mode v' env).1 name) := by
  obtain ⟨hmode, hloggers⟩ := mode_lookUp j.forgetMode v env
  change _ = j.loggers at hloggers
  unfold refresh at h
  dsimp only at h
  rw [hloggers] at h
  obtain ⟨hknown, hasked, hnodup, hfind⟩ := adjustAll_ok hdistinct h
  rw [hloggers] at hnodup hfind
  have hforce : (j'.mode v' env).1 = (j.forgetMode.mode v env).1 := by
    rw [mode_congr hknown (hasked env), hmode]
  refine ⟨hnodup hdistinct, fun name => ?_⟩
  rw [hfind, hforce]
  cases hname : Table.find? j.loggers name with
  | none => rfl
  | some l =>
    dsimp only [Option.map_some, refreshed]
    split
    · rfl
    · rfl

/-! ### Any requests and changes -/

end Journal

/-- A journal with the volume and the environment around it. -/
structure Scene where
  journal : Journal
  volume : Volume
  env : Environment

namespace Scene

open Journal

/-- The mode in force, which a logger that is new is made in. -/
def mode (s : Scene) : Json := (s.journal.mode s.volume s.env).1

/-- From a new journal a scene is reached by asking for loggers and by changes of the mode, with the
requests that were made and the mode in force at each, the latest first. The mode changes with the
environment or with the settings on the volume. -/
inductive Reached : Table Text Json → Scene → Prop
  | start (v : Volume) (env : Environment) : Reached [] ⟨.empty, v, env⟩
  | get {asked : Table Text Json} {s : Scene} (h : Reached asked s) {name : Text} {j : Journal}
      {v : Volume} (hget : s.journal.get s.volume s.env name = (.ok (), j, v)) :
      Reached ((name, s.mode) :: asked) ⟨j, v, s.env⟩
  | change {asked : Table Text Json} {s : Scene} (h : Reached asked s) {changed v : Volume}
      {env : Environment} {j : Journal}
      (hrefresh : s.journal.refresh changed env = (.ok (), j, v)) : Reached asked ⟨j, v, env⟩

/-- Under a name the records of every weight are written as by a new logger. -/
def Current (s : Scene) (name : Text) : Prop :=
  ∀ level < silentLevel, ∀ message v, s.journal.logged v name level message =
    (s.journal.setLogger name (.ofMode s.mode)).logged v name level message

variable {asked : Table Text Json} {s : Scene} {name : Text} {m m' : Json} {l : Logger}
  {j : Journal} {v : Volume} {env : Environment}

/-- A logger writes as a new one does if the mode it has been set to has the level of the mode in
force. -/
theorem current_iff (hl : Table.find? s.journal.loggers name = some l) (hset : l.SetTo m) :
    s.Current name ↔ levelOf m = levelOf s.mode := by
  have hnew : Table.find? (s.journal.setLogger name (.ofMode s.mode)).loggers name =
      some (.ofMode s.mode) := (Table.find?_insert _ _ _ _).trans (if_pos rfl)
  exact hset.logged_eq_iff hl (Logger.setTo_ofMode s.mode) hnew rfl

/-! ### What a logger has noticed -/

/-- What there is under a name while a mode is in force. A logger of the library keeps up with the
mode from the first request on that was made while the mode was not `off`, and is silent till then.
Any other is in the mode of the last request for it. -/
inductive Standing (asked : Table Text Json) (mode : Json) (name : Text) : Option Logger → Prop
  | unknown (hunasked : Table.find? asked name = none) : Standing asked mode name none
  | silent (hown : isOwn name = true) (hoff : ∀ m, (name, m) ∈ asked → isOff m = true) :
      Standing asked mode name (some ⟨silentLevel, []⟩)
  | heard {l : Logger} (hown : isOwn name = true) (hset : l.SetTo mode) (houtlets : l.outlets ≠ [])
      {m : Json} (hm : (name, m) ∈ asked) (hon : isOff m = false) :
      Standing asked mode name (some l)
  | foreign {l : Logger} (hforeign : isOwn name = false) {m : Json}
      (hlast : Table.find? asked name = some m) (hset : l.SetTo m) :
      Standing asked mode name (some l)

variable {mode : Json} {found : Option Logger}

theorem standing_ofMode (hown : isOwn name = true) (hoff : ∀ m, (name, m) ∈ asked → isOff m = true)
    (mode : Json) : Standing ((name, mode) :: asked) mode name (some (.ofMode mode)) := by
  cases hmode : isOff mode with
  | true =>
    rw [Logger.ofMode_of_off hmode]
    refine .silent hown fun m hm => ?_
    rcases List.mem_cons.mp hm with heq | hm
    · cases heq
      exact hmode
    · exact hoff m hm
  | false =>
    exact .heard hown (Logger.setTo_ofMode mode) (Logger.outlets_ofMode_ne_nil hmode)
      List.mem_cons_self hmode

/-- After a request a logger of the library has noticed the mode, unless it is `off`, and any other
logger is in the mode. -/
theorem Standing.asked_again (h : Standing asked mode name found) :
    Standing ((name, mode) :: asked) mode name (some (obtained mode found)) := by
  have hlast : Table.find? ((name, mode) :: asked) name = some mode := if_pos rfl
  cases h with
  | unknown hunasked =>
    cases hown : isOwn name with
    | true =>
      refine standing_ofMode hown (fun m hm => ?_) mode
      exact absurd (List.mem_map_of_mem hm) (Table.find?_eq_none_iff.mp hunasked)
    | false => exact .foreign hown hlast (Logger.setTo_ofMode mode)
  | silent hown hoff => exact standing_ofMode hown hoff mode
  | heard hown hset houtlets hm hon =>
    rw [obtained_of_outlets houtlets]
    obtain ⟨hset, houtlets⟩ := hset.adjusted houtlets mode
    exact .heard hown hset houtlets (List.mem_cons_of_mem _ hm) hon
  | foreign hforeign _ hset => exact .foreign hforeign hlast hset.obtained

/-- A request for another logger changes nothing. -/
theorem Standing.other_asked (h : Standing asked mode name found) {other : Text}
    (hname : other ≠ name) (m' : Json) : Standing ((other, m') :: asked) mode name found := by
  have hlast : Table.find? ((other, m') :: asked) name = Table.find? asked name := if_neg hname
  cases h with
  | unknown hunasked => exact .unknown (hlast.trans hunasked)
  | silent hown hoff =>
    refine .silent hown fun m hm => ?_
    rcases List.mem_cons.mp hm with heq | hm
    · exact absurd (congrArg Prod.fst heq).symm hname
    · exact hoff m hm
  | heard hown hset houtlets hm hon =>
    exact .heard hown hset houtlets (List.mem_cons_of_mem _ hm) hon
  | foreign hforeign hm hset => exact .foreign hforeign (hlast.trans hm) hset

/-- A change of the mode is noticed by the loggers of the library that have outlets. -/
theorem Standing.changed (h : Standing asked mode name found) (mode' : Json) :
    Standing asked mode' name (found.map (refreshed mode' name)) := by
  cases h with
  | unknown hunasked => exact .unknown hunasked
  | silent hown hoff => exact .silent hown hoff
  | heard hown hset houtlets hm hon =>
    rw [Option.map_some, refreshed_of_own hown houtlets]
    obtain ⟨hset, houtlets⟩ := hset.adjusted houtlets mode'
    exact .heard hown hset houtlets hm hon
  | foreign hforeign hlast hset =>
    rw [Option.map_some, refreshed_of_foreign hforeign]
    exact .foreign hforeign hlast hset

/-! ### Any requests and changes -/

/-- There is one logger at most under a name, and it stands as the requests say. -/
structure Tracked (asked : Table Text Json) (s : Scene) : Prop where
  distinct : (Table.keys s.journal.loggers).Nodup
  standing : ∀ name, Standing asked s.mode name (Table.find? s.journal.loggers name)

theorem tracked_start (v : Volume) (env : Environment) : Tracked [] ⟨.empty, v, env⟩ where
  distinct := List.nodup_nil
  standing _ := .unknown rfl

theorem Tracked.get (h : Tracked asked s)
    (hget : s.journal.get s.volume s.env name = (.ok (), j, v)) :
    Tracked ((name, s.mode) :: asked) ⟨j, v, s.env⟩ := by
  obtain ⟨hmode, hloggers⟩ := get_ok hget
  constructor
  · dsimp only
    rw [hloggers]
    exact Table.nodup_keys_insert h.distinct _ _
  · intro other
    change Standing _ (j.mode v s.env).1 other (Table.find? j.loggers other)
    rw [hmode, hloggers, Table.find?_insert]
    by_cases hother : name = other
    · subst hother
      rw [if_pos rfl]
      exact (h.standing name).asked_again
    · rw [if_neg hother]
      exact (h.standing other).other_asked hother _

theorem Tracked.change (h : Tracked asked s) {changed : Volume}
    (hrefresh : s.journal.refresh changed env = (.ok (), j, v)) :
    Tracked asked ⟨j, v, env⟩ := by
  obtain ⟨hdistinct, hfind⟩ := refresh_ok h.distinct hrefresh
  refine ⟨hdistinct, fun name => ?_⟩
  change Standing _ (j.mode v env).1 name (Table.find? j.loggers name)
  rw [hfind]
  exact (h.standing name).changed _

theorem tracked_of_reached (h : Reached asked s) : Tracked asked s := by
  induction h with
  | start v env => exact tracked_start v env
  | get _ hget ih => exact ih.get hget
  | change _ hrefresh ih => exact ih.change hrefresh

/-- A logger that has been asked for writes as a new one would, whatever was asked for and changed
since, exactly in these cases. For a logger of the library the mode in force is `off`, or some
request for it was made while the mode was not `off`. For any other logger the mode of the last
request for it has the level of the mode in force. -/
theorem mode_reaches_iff (h : Reached asked s) (hasked : Table.find? asked name = some m) :
    s.Current name ↔
      if isOwn name then isOff s.mode = true ∨ ∃ m', (name, m') ∈ asked ∧ isOff m' = false
      else levelOf m = levelOf s.mode := by
  have hstanding := (tracked_of_reached h).standing name
  cases hl : Table.find? s.journal.loggers name with
  | none =>
    rw [hl] at hstanding
    cases hstanding with
    | unknown hunasked => rw [hunasked] at hasked; cases hasked
  | some l =>
    rw [hl] at hstanding
    cases hstanding with
    | silent hown hoff =>
      have hset : Logger.SetTo (Json.lit "off") ⟨silentLevel, []⟩ := .bare rfl
      have hnone : ¬ ∃ m', (name, m') ∈ asked ∧ isOff m' = false := by
        rintro ⟨m', hm', hon⟩
        rw [hoff m' hm'] at hon
        cases hon
      rw [if_pos hown, current_iff hl hset, or_iff_left hnone, isOff_iff]
      exact eq_comm
    | heard hown hset houtlets hm hon =>
      rw [if_pos hown, current_iff hl hset]
      exact iff_of_true rfl (.inr ⟨_, hm, hon⟩)
    | foreign hforeign hlast hset =>
      cases hasked.symm.trans hlast
      rw [if_neg (by rw [hforeign]; nofun), current_iff hl hset]

/-- The scene in which a logger made while the mode was `off` is silent, the environment now asking
for a mode. -/
def silenced (mode : Text) : Scene :=
  ⟨⟨some (.str mode), [("polygot.a".toList, ⟨silentLevel, []⟩)], []⟩, ⟨[], []⟩,
    [("POLYGOT_LOG_MODE".toList, mode)]⟩

theorem reached_silenced :
    Reached [("polygot.a".toList, Json.lit "off")] (silenced "info".toList) := by
  have hget : Reached [("polygot.a".toList, Json.lit "off")] (silenced "off".toList) :=
    .get (.start ⟨[], []⟩ [("POLYGOT_LOG_MODE".toList, "off".toList)]) rfl
  have hrefresh : (silenced "off".toList).journal.refresh ⟨[], []⟩ (silenced "info".toList).env =
      (.ok (), (silenced "info".toList).journal, ⟨[], []⟩) := rfl
  exact .change hget hrefresh

/-- A logger that is made while the mode is `off` misses a change to `info`. -/
theorem not_current_silenced : Reached [("polygot.a".toList, Json.lit "off")]
    (silenced "info".toList) ∧ ¬ (silenced "info".toList).Current "polygot.a".toList := by
  refine ⟨reached_silenced, fun hcurrent => ?_⟩
  have hown : isOwn "polygot.a".toList = true := rfl
  have hcases := (mode_reaches_iff reached_silenced rfl).mp hcurrent
  rw [if_pos hown] at hcases
  rcases hcases with hoff | ⟨m, hm, hon⟩
  · cases hoff
  · cases List.mem_singleton.mp hm
    cases hon

end Scene

end Localize
