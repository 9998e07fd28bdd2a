import Localize.Proofs.Settings.Overlay
import Localize.Proofs.Volume.Atomic
import Localize.Proofs.Volume.Content
import Localize.Settings.File

/-!
# Settings read from a file

Whatever the bytes of the settings file are, the settings read from it are the defaults, with the
object of the file laid over them if there is one, unless the bytes encode no text: exactly then
nothing is read. Settings that have been read are read again as they are when they have been saved.
-/

namespace Localize.Settings

open CommandLine (contentOf)

variable {v v' : Volume} {p : Path} {env : Environment} {bytes : ByteArray} {base newer : Fields}

/-- What is read from a path, by the file there. -/
theorem load_eq (v : Volume) (p : Path) : load v p =
    match v.content? p with
    | some (.text t) =>
      match Json.read t with
      | .ok (.obj fields) => .ok (ofFields fields)
      | _ => .ok default
    | some (.bytes _) => .error .notText
    | none => .ok default := by
  unfold load Volume.content?
  cases v.place p with
  | missing | throughFile | folder _ => rfl
  | file content => cases content <;> rfl

/-! ### What can be read -/

theorem load_of_object {t : Text} {fields : Fields} (h : v.content? p = some (.text t))
    (hread : Json.read t = .ok (.obj fields)) : load v p = .ok (ofFields fields) := by
  rw [load_eq, h]
  simp only [hread]

theorem load_of_other {t : Text} (h : v.content? p = some (.text t))
    (hread : ∀ fields, Json.read t ≠ .ok (.obj fields)) : load v p = .ok default := by
  rw [load_eq, h]
  dsimp only
  split
  · next fields hobject => exact absurd hobject (hread fields)
  · rfl

/-- Bytes of a settings file give the defaults with the object over them that they encode, or the
defaults if they encode a text that is no object. Exactly if they encode no text, nothing is read.
-/
theorem load_of_bytes (h : v.content? p = some (contentOf bytes)) :
    ((∃ settings, load v p = .ok settings) ↔ ∃ t, Encodes bytes t) ∧
    (∀ fault, load v p = .error fault → fault = .notText) ∧
    (∀ fields, EncodesObject bytes fields → load v p = .ok (overlay default fields) ∧
      Json.LaidOver (.obj default) (.obj fields) (.obj (overlay default fields))) ∧
    (∀ t, Encodes bytes t → (∀ fields, ¬ EncodesObject bytes fields) →
      load v p = .ok default) := by
  have hobject : ∀ fields, EncodesObject bytes fields →
      load v p = .ok (overlay default fields) := by
    rintro fields ⟨t, hbytes, hread⟩
    exact load_of_object (h.trans (congrArg some (contentOf_eq_text_iff.mpr hbytes))) hread
  have hother : ∀ t, Encodes bytes t → (∀ fields, ¬ EncodesObject bytes fields) →
      load v p = .ok default := by
    intro t hbytes hnone
    refine load_of_other (h.trans (congrArg some (contentOf_eq_text_iff.mpr hbytes))) ?_
    exact fun fields hread => hnone fields ⟨t, hbytes, hread⟩
  have hnotText : (∀ t, ¬ Encodes bytes t) → load v p = .error .notText := by
    intro hnone
    obtain ⟨b, hb⟩ := contentOf_eq_bytes hnone
    rw [load_eq, h, hb]
  have htext : ∀ t, Encodes bytes t → ∃ settings, load v p = .ok settings := by
    intro t hbytes
    by_cases hany : ∃ fields, EncodesObject bytes fields
    · obtain ⟨fields, hfields⟩ := hany
      exact ⟨_, hobject fields hfields⟩
    · exact ⟨_, hother t hbytes fun fields hfields => hany ⟨fields, hfields⟩⟩
  refine ⟨⟨?_, fun ⟨t, hbytes⟩ => htext t hbytes⟩, ?_, fun fields hfields => ?_, hother⟩
  · rintro ⟨settings, hload⟩
    by_contra hnone
    cases hload.symm.trans (hnotText fun t hbytes => hnone ⟨t, hbytes⟩)
  · intro fault hfault
    by_cases hany : ∃ t, Encodes bytes t
    · obtain ⟨t, hbytes⟩ := hany
      obtain ⟨settings, hload⟩ := htext t hbytes
      cases hfault.symm.trans hload
    · cases hfault.symm.trans (hnotText fun t hbytes => hany ⟨t, hbytes⟩)
      rfl
  · refine ⟨hobject fields hfields, laidOver_overlay ?_ default⟩
    obtain ⟨t, -, hread⟩ := hfields
    exact Json.sound_of_read hread

/-- A settings file that does not hold a text. -/
def garbled : Volume :=
  .ofEntries [(".polygot".toList, .folder [("config.json".toList, .file (contentOf ⟨#[0xff]⟩))])]

theorem load_of_bytes_garbled :
    garbled.content? (path []) = some (contentOf ⟨#[0xff]⟩) ∧ (∀ t, ¬ Encodes ⟨#[0xff]⟩ t) ∧
      load garbled (path []) = .error .notText := by
  have hfile : garbled.content? (path []) = some (contentOf ⟨#[0xff]⟩) := by decide +kernel
  have hnone : ∀ t, ¬ Encodes ⟨#[0xff]⟩ t := by
    intro t ht
    have hdecoded : String.fromUTF8? ⟨#[0xff]⟩ = none := by decide +kernel
    cases hdecoded.symm.trans (fromUTF8?_eq_some_iff.mpr ht)
  obtain ⟨hread, hfault, -⟩ := load_of_bytes hfile
  refine ⟨hfile, hnone, ?_⟩
  cases hload : load garbled (path []) with
  | ok settings =>
    obtain ⟨t, ht⟩ := hread.mp ⟨settings, hload⟩
    exact absurd ht (hnone t)
  | error fault => rw [hfault fault hload]

/-! ### What is read again -/

theorem canonical_half : (Binary64.ofFraction 1 2).Canonical := by
  have hhalf : Binary64.ofFraction 1 2 = .finite false (2 ^ 52) (-53) := by decide +kernel
  rw [hhalf]
  exact .inr ⟨by norm_num, by norm_num, by norm_num, by norm_num, .inl le_rfl⟩

theorem sound_texts (items : List String) : (texts items).Sound := by
  refine .arr fun item hitem => ?_
  obtain ⟨t, -, rfl⟩ := List.mem_map.mp hitem
  exact .str _

theorem sound_providerDefaults (models : List String) (address : String) :
    (providerDefaults models address).Sound :=
  Json.sound_record (by simp) ⟨.str _, sound_texts models, .int _, .int _, .str _⟩

theorem sound_default : (Json.obj default).Sound := by
  have hnone : (Json.arr []).Sound := .arr (by simp)
  have hprovider := sound_providerDefaults
  refine Json.sound_record (by simp) ⟨?project, .str _, hprovider _ _, hprovider _ _,
    hprovider _ _, ?translation, ?parser, ?storage, .str _⟩
  case project =>
    exact Json.sound_record (by simp) ⟨.str _, .str _, sound_texts _, .str _, hnone, .str _⟩
  case translation =>
    exact Json.sound_record (by simp)
      ⟨.str _, .int _, .float canonical_half, .bool _, .str _, .str _⟩
  case parser => exact Json.sound_record (by simp) ⟨sound_texts _, sound_texts _, hnone⟩
  case storage => exact Json.sound_record (by simp) ⟨.str _, .str _, .int _⟩

/-- Settings that have been saved are read as they lie over the defaults. -/
theorem load_save {settings : Fields} (hsettings : (Json.obj settings).Sound)
    (h : save v env (.obj settings) = (.ok (), v')) :
    load v' (path env) = .ok (ofFields settings) :=
  load_of_object (Volume.content?_of_writeJson h) (Json.read_document hsettings)

/-- Fields laid over others have, path by path, what the newer ones have there or else the older
ones. The result lies over the older fields and under the newer ones as it is, no fields change
nothing, and what lies over the defaults is read as it is when it has been saved. -/
theorem overlay_stable (hbase : (Json.obj base).Sound) (hnewer : (Json.obj newer).Sound) :
    Json.LaidOver (.obj base) (.obj newer) (.obj (overlay base newer)) ∧
    overlay base (overlay base newer) = overlay base newer ∧
    overlay (overlay base newer) newer = overlay base newer ∧
    overlay base [] = base ∧
    ∀ v env v', save v env (.obj (ofFields newer)) = (.ok (), v') →
      load v' (path env) = .ok (ofFields newer) := by
  have hempty : overlay base [] = base := by rw [overlay]
  refine ⟨laidOver_overlay hnewer base, overlay_older_again hbase hnewer,
    overlay_newer_again hbase hnewer, hempty, ?_⟩
  intro v env v' hsave
  rw [load_save (sound_overlay sound_default hnewer) hsave]
  exact congrArg _ (overlay_older_again sound_default hnewer)

/-- Settings with a section and a text. -/
def plainTone : Fields := Json.record [("translation", .obj (Json.record [
  ("tone", Json.lit "neutral"), ("context", Json.lit "shop")])), ("log_mode", Json.lit "info")]

/-- Settings that change one field of the section, add another, and put a section in the place of
the text. -/
def formalTone : Fields := Json.record [("log_mode", .obj (Json.record [("file", .bool true)])),
  ("translation", .obj (Json.record [("chunk_size", .nat 10), ("tone", Json.lit "formal")]))]

theorem overlay_stable_formalTone :
    (Json.obj plainTone).Sound ∧ (Json.obj formalTone).Sound ∧
    Json.LaidOver (.obj plainTone) (.obj formalTone) (.obj (overlay plainTone formalTone)) ∧
    overlay plainTone formalTone = Json.record [
      ("translation", .obj (Json.record [("tone", Json.lit "formal"), ("context", Json.lit "shop"),
        ("chunk_size", .nat 10)])),
      ("log_mode", .obj (Json.record [("file", .bool true)]))] ∧
    ∃ v', save (.ofEntries []) [] (.obj (ofFields formalTone)) = (.ok (), v') ∧
      load v' (path []) = .ok (ofFields formalTone) := by
  have hplain : (Json.obj plainTone).Sound :=
    Json.sound_record (by simp) ⟨Json.sound_record (by simp) ⟨.str _, .str _⟩, .str _⟩
  have hformal : (Json.obj formalTone).Sound :=
    Json.sound_record (by simp) ⟨Json.sound_record (by simp) (.bool _),
      Json.sound_record (by simp) ⟨.int _, .str _⟩⟩
  have hwrite : (Volume.ofEntries []).CanWrite (path []) :=
    Volume.canWrite_of_isOk rfl (by decide +kernel)
  obtain ⟨v', hsave, -⟩ := hwrite.writeJson (.obj (ofFields formalTone))
  obtain ⟨hlaid, -, -, -, hload⟩ := overlay_stable hplain hformal
  exact ⟨hplain, hformal, hlaid, by decide +kernel, v', hsave, hload _ _ _ hsave⟩

end Localize.Settings
