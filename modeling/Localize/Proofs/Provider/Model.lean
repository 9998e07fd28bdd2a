import Localize.Provider.Service

/-!
# The model that is asked

A service is set up if its provider has a model, anywhere in its list or as its single one. The
model asked is the first of the list, or the single one where the first counts as nothing, or the
default where that counts as nothing too. So it is a configured one if and only if the one that is
taken is a name, or none is taken and the default stands further back in the list.
-/

namespace Localize.Service

variable {s : Settings} {env : Environment} {key given provider : Json} {own : Bool}
  {service : Service} {profile : Fields} {name : Text}

/-- The models in the list of a provider; none where there is no list. -/
def listed (profile : Fields) : List Json :=
  match Table.find? profile "models".toList with
  | some (.arr models) => models
  | _ => []

/-- The single model of a provider, if it counts as something. -/
def single? (profile : Fields) : Option Json :=
  (Table.find? profile "model".toList).filter Json.isSomething

/-- The first model in the list, if it counts as something, or else the single one. -/
def foremost? (profile : Fields) : Option Json :=
  ((listed profile).head?.filter Json.isSomething).or (single? profile)

/-- A model that a provider is configured with: a name that is in its list or its single one. -/
def Configured (profile : Fields) (model : Json) : Prop :=
  (∃ t, t ≠ [] ∧ model = .str t) ∧
    (model ∈ listed profile ∨ Table.find? profile "model".toList = some model)

/-! ### Set-up -/

theorem listed_of_find? {models : List Json}
    (h : Table.find? profile "models".toList = some (.arr models)) : listed profile = models := by
  rw [listed, h]

theorem listed_eq_nil
    (h : ∀ models, Table.find? profile "models".toList = some (.arr models) → models = []) :
    listed profile = [] := by
  unfold listed
  split
  · next models hmodels => exact h models hmodels
  · rfl

theorem hasModel_iff : hasModel profile = true ↔
    (∃ t, t ≠ [] ∧ .str t ∈ listed profile) ∨ ∃ model, single? profile = some model := by
  have hsingle : ((Table.find? profile "model".toList).getD (.str [])).isSomething = true ↔
      ∃ model, single? profile = some model := by
    unfold single?
    cases Table.find? profile "model".toList with
    | none => simp [Json.isSomething]
    | some model => simp [Option.filter_some]
  unfold hasModel
  rw [Bool.or_eq_true, hsingle]
  refine or_congr_left ?_
  split
  · next models h =>
    rw [listed_of_find? h, List.any_eq_true]
    constructor
    · rintro ⟨model, hmem, hname⟩
      cases model with
      | str t => exact ⟨t, by simpa using hname, hmem⟩
      | null | bool _ | int _ | float _ | arr _ | obj _ => cases hname
    · rintro ⟨t, ht, hmem⟩
      exact ⟨.str t, hmem, by simpa using ht⟩
  · next h =>
    have hnone : listed profile = [] :=
      listed_eq_nil fun models hmodels => absurd hmodels (h models)
    simp [hnone]

theorem exists_profile_of_check (h : check s provider = .ok name) :
    ∃ profile, profile? s name = some profile ∧ hasModel profile = true := by
  unfold check at h
  split at h
  · split at h
    · cases h
    · next profile hprofile =>
      split at h
      · next hmodel =>
        cases h
        exact ⟨profile, hprofile, hmodel⟩
      · cases h
  · split at h <;> cases h

/-- A service that is set up has a provider with a model. -/
theorem exists_profile (h : ofSettings s env key given provider own = .ok service) :
    ∃ profile, profile? s service.provider = some profile ∧ hasModel profile = true ∧
      service.settings = s ∧ service.givenModel = given := by
  unfold ofSettings at h
  split at h
  · cases h
  · next name hcheck =>
    obtain ⟨profile, hprofile, hmodel⟩ := exists_profile_of_check hcheck
    split at h
    · cases h
    · cases h
    · cases h
      exact ⟨profile, hprofile, hmodel, rfl, rfl⟩

/-! ### The model taken -/

theorem orElse_getD_null (value : Option Json) (other : Json) :
    (value.getD .null).orElse other = (value.filter Json.isSomething).getD other := by
  cases value with
  | none => rfl
  | some model =>
    rw [Option.getD_some, Json.orElse, Option.filter_some]
    split <;> rfl

theorem model_eq (hprofile : profile? service.settings service.provider = some profile)
    (hgiven : service.givenModel.isSomething = false) :
    service.model = (foremost? profile).getD (.str Settings.defaultModel) := by
  have hsetting (name : String) : service.setting? name = Table.find? profile name.toList := by
    rw [setting?, hprofile, Option.bind_some]
  unfold model foremost? single?
  simp only [hsetting, hgiven, Bool.false_eq_true, if_false, orElse_getD_null]
  split
  · next first rest hlist =>
    rw [listed_of_find? hlist, List.head?_cons, Option.filter_some]
    split <;> rfl
  · next hlist =>
    have hnone : listed profile = [] := by
      refine listed_eq_nil fun models hmodels => ?_
      cases models with
      | nil => rfl
      | cons first rest => exact absurd hmodels (hlist first rest)
    rw [hnone, List.head?_nil, Option.filter_none, Option.none_or]

/-- What is taken is in the list or is the single model, and counts as something. -/
theorem mem_of_foremost? {model : Json} (h : foremost? profile = some model) :
    model.isSomething = true ∧
      (model ∈ listed profile ∨ Table.find? profile "model".toList = some model) := by
  unfold foremost? single? at h
  rcases Option.or_eq_some_iff.mp h with h | ⟨-, h⟩
  · obtain ⟨hmem, hsome⟩ := Option.filter_eq_some_iff.mp h
    exact ⟨hsome, .inl (List.mem_of_mem_head? hmem)⟩
  · obtain ⟨hfind, hsome⟩ := Option.filter_eq_some_iff.mp h
    exact ⟨hsome, .inr hfind⟩

/-- Where nothing is taken, the list begins with what counts as nothing, or is empty, and there is
no single model. -/
theorem foremost?_eq_none_iff : foremost? profile = none ↔
    (∀ first ∈ (listed profile).head?, first.isSomething = false) ∧ single? profile = none := by
  unfold foremost?
  rw [Option.or_eq_none_iff, Option.filter_eq_none_iff]
  simp

theorem configured_model_iff :
    Configured profile ((foremost? profile).getD (.str Settings.defaultModel)) ↔
      (∃ t, foremost? profile = some (.str t)) ∨
        foremost? profile = none ∧ .str Settings.defaultModel ∈ listed profile := by
  cases h : foremost? profile with
  | some model =>
    obtain ⟨hsome, hmem⟩ := mem_of_foremost? h
    constructor
    · rintro ⟨⟨t, -, rfl⟩, -⟩
      exact .inl ⟨t, rfl⟩
    · rintro (⟨t, ht⟩ | ⟨hnone, -⟩)
      · cases ht
        exact ⟨⟨t, by simpa [Json.isSomething] using hsome, rfl⟩, hmem⟩
      · cases hnone
  | none =>
    obtain ⟨-, hsingle⟩ := foremost?_eq_none_iff.mp h
    rw [Option.getD_none]
    constructor
    · rintro ⟨-, hmem | hfind⟩
      · exact .inr ⟨rfl, hmem⟩
      · rw [single?, hfind] at hsingle
        cases hsingle
    · rintro (⟨t, ht⟩ | ⟨-, hmem⟩)
      · cases ht
      · exact ⟨⟨Settings.defaultModel, by decide, rfl⟩, .inl hmem⟩

/-- A service that takes no configured model has one further back in its list. -/
theorem exists_listed_of_foremost?_eq_none (hmodel : hasModel profile = true)
    (h : foremost? profile = none) :
    ∃ first rest t, listed profile = first :: rest ∧ first.isSomething = false ∧ t ≠ [] ∧
      .str t ∈ rest := by
  obtain ⟨hfirst, hsingle⟩ := foremost?_eq_none_iff.mp h
  obtain ⟨t, ht, hmem⟩ | ⟨model, hmodel⟩ := hasModel_iff.mp hmodel
  · cases hlist : listed profile with
    | nil =>
      rw [hlist] at hmem
      cases hmem
    | cons first rest =>
      have hnothing : first.isSomething = false := hfirst first (by rw [hlist]; rfl)
      rw [hlist] at hmem
      refine ⟨first, rest, t, rfl, hnothing, ht, (List.mem_cons.mp hmem).resolve_left ?_⟩
      -- A name that stands first would count as something.
      rintro rfl
      exact ht (by simpa [Json.isSomething] using hnothing)
  · rw [hsingle] at hmodel
    cases hmodel

theorem model_requested {system user : Text} {r : Provider.Request}
    (h : service.request system user = .ok r) :
    r.body.field? "model".toList = some service.model := by
  unfold request at h
  dsimp only at h
  split at h
  · split at h
    · cases h
    · cases h
      rfl
    · cases h
  · cases h

/-- A service set up without a model of its own asks for what is taken from its provider, and for
the default where nothing is taken. That is a configured model if and only if what is taken is a
name, or nothing is and the default is in the list. Where nothing is taken, a name stands further
back in the list. -/
theorem model_configured_iff (h : ofSettings s env key given provider own = .ok service)
    (hgiven : given.isSomething = false) :
    ∃ profile, profile? s service.provider = some profile ∧
      service.model = (foremost? profile).getD (.str Settings.defaultModel) ∧
      (Configured profile service.model ↔ (∃ t, foremost? profile = some (.str t)) ∨
        foremost? profile = none ∧ .str Settings.defaultModel ∈ listed profile) ∧
      (foremost? profile = none → ∃ first rest t, listed profile = first :: rest ∧
        first.isSomething = false ∧ t ≠ [] ∧ .str t ∈ rest) ∧
      ∀ system user r, service.request system user = .ok r →
        r.body.field? "model".toList = some service.model := by
  obtain ⟨profile, hprofile, hmodel, hsettings, rfl⟩ := exists_profile h
  have heq : service.model = (foremost? profile).getD (.str Settings.defaultModel) :=
    model_eq (hsettings ▸ hprofile) hgiven
  refine ⟨profile, hprofile, heq, ?_, exists_listed_of_foremost?_eq_none hmodel,
    fun system user r => model_requested⟩
  rw [heq]
  exact configured_model_iff

/-- Settings whose first model is an empty text, with a usable one behind it. -/
def blankFirst : Settings :=
  [("deepseek".toList, .obj [("models".toList, .arr [.str [], .str "deepseek-chat".toList])])]

def blankFirstService : Service :=
  ⟨blankFirst, "deepseek".toList, .str ['k'], .null, false, .zero, .whole 0, .whole 0⟩

theorem model_configured_iff_blankFirst :
    ofSettings blankFirst [] (.str ['k']) .null (.str "deepseek".toList) false =
        .ok blankFirstService ∧
      Json.isSomething .null = false ∧
      blankFirstService.model = .str Settings.defaultModel ∧
      ∃ profile, profile? blankFirst "deepseek".toList = some profile ∧
        ¬Configured profile blankFirstService.model := by
  have hset : ofSettings blankFirst [] (.str ['k']) .null (.str "deepseek".toList) false =
      .ok blankFirstService := rfl
  obtain ⟨profile, hprofile, -, hiff, -, -⟩ := model_configured_iff hset rfl
  cases hprofile
  refine ⟨hset, rfl, rfl, _, rfl, fun hconfigured => ?_⟩
  rcases hiff.mp hconfigured with ⟨t, ht⟩ | ⟨-, hmem⟩
  · cases ht
  · revert hmem
    decide

end Localize.Service
