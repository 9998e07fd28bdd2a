import Localize.Proofs.Batch.Ending
import Localize.Proofs.Glossary.Lossless
import Mathlib.Algebra.Order.Ring.Int

/-!
# The accounts of a run

What a result counts agrees with what was done. Every text of the request has come from the memory,
from the glossary or from the translator; the calls of the translator are the texts sent, cut into
chunks of which only the last may be smaller; what failed and the tokens used are those of the
calls.
-/

namespace Localize.Batch

/-- Counts of several calls added up. -/
def TokenCount.sum (counts : List TokenCount) : TokenCount :=
  ⟨(counts.map input).sum, (counts.map output).sum, (counts.map total).sum⟩

theorem TokenCount.add_sum_cons (a b : TokenCount) (counts : List TokenCount) :
    a.add (sum (b :: counts)) = (a.add b).add (sum counts) := by
  simp only [sum, add, List.map_cons, List.sum_cons, Int.add_assoc]

namespace Call

/-- The call has given nothing usable, or its tokens cannot be read. -/
def failed (c : Call) : Bool := c.count?.isNone

/-- The tokens of the calls that have not failed, under the numbers of these calls. -/
def tokensFrom (number : Nat) (calls : List Call) : List (Nat × TokenCount) :=
  (calls.zipIdx number).filterMap fun p => p.1.count?.map (p.2, ·)

theorem tokensFrom_cons (number : Nat) (c : Call) (calls : List Call) :
    tokensFrom number (c :: calls) =
      (c.count?.map (number, ·)).toList ++ tokensFrom (number + 1) calls := by
  rw [tokensFrom, List.zipIdx_cons, List.filterMap_cons]
  cases c.count? with
  | none => rfl
  | some count => rfl

/-- How many texts were given to calls that have failed. -/
def failedTexts (calls : List Call) : Nat :=
  ((calls.filter failed).map fun c => c.texts.length).sum

end Call

/-- What is counted of the calls of a run. -/
structure Tally where
  tokens : TokenCount
  chunkTokens : List (Nat × TokenCount)
  failedStrings : Nat
  failedChunks : Nat

namespace Tally

/-- One more call, under its number. -/
def count (t : Tally) (number : Nat) (c : Call) : Tally :=
  match c.count? with
  | none =>
    { t with
      failedStrings := t.failedStrings + c.texts.length
      failedChunks := t.failedChunks + 1 }
  | some count =>
    { t with
      tokens := t.tokens.add count
      chunkTokens := t.chunkTokens ++ [(number, count)] }

theorem foldl_count (calls : List Call) (number : Nat) (t : Tally) :
    (calls.zipIdx number).foldl (fun t p => t.count p.2 p.1) t =
      ⟨t.tokens.add (.sum ((Call.tokensFrom number calls).map Prod.snd)),
        t.chunkTokens ++ Call.tokensFrom number calls,
        t.failedStrings + Call.failedTexts calls,
        t.failedChunks + calls.countP Call.failed⟩ := by
  induction calls generalizing number t with
  | nil =>
    obtain ⟨⟨input, output, total⟩, chunkTokens, failedStrings, failedChunks⟩ := t
    simp [Call.tokensFrom, Call.failedTexts, TokenCount.sum, TokenCount.add]
  | cons c calls ih =>
    rw [List.zipIdx_cons, List.foldl_cons, ih, Call.tokensFrom_cons, Call.failedTexts,
      Call.failedTexts, count]
    cases hcount : c.count? with
    | none =>
      have hfailed : c.failed = true := by rw [Call.failed, hcount]; rfl
      simp [hfailed, Nat.add_assoc, Nat.add_comm 1]
    | some tokens =>
      have hfailed : c.failed = false := by rw [Call.failed, hcount]; rfl
      simp [hfailed, TokenCount.add_sum_cons]

end Tally

namespace Collection

variable {sourceOf : Table Text Text}

def tally (c : Collection) : Tally := ⟨c.tokens, c.chunkTokens, c.failedStrings, c.failedChunks⟩

theorem tally_foldl_addAnswer (translations : Fields) (texts : List Text) (c : Collection) :
    (texts.foldl (addAnswer sourceOf translations) c).tally = c.tally := by
  induction texts generalizing c with
  | nil => rfl
  | cons u texts ih =>
    rw [List.foldl_cons, ih, addAnswer]
    cases usable? translations u with
    | none => rfl
    | some translated => rfl

theorem tally_addChunk (c : Collection) (call : Call) (index : Nat) :
    (addChunk sourceOf c (call.result index)).tally = c.tally.count (index + 1) call := by
  rcases call.result_cases index with ⟨hcount, hresult⟩ | ⟨count, fields, hcount, hresult⟩
  · rw [hresult, Tally.count, hcount]
    rfl
  · rw [hresult, Tally.count, hcount]
    exact tally_foldl_addAnswer fields call.texts _

theorem tally_foldl_addChunk (calls : List Call) (index : Nat) (c : Collection) :
    ((resultsFrom index calls).foldl (addChunk sourceOf) c).tally =
      (calls.zipIdx (index + 1)).foldl (fun t p => t.count p.2 p.1) c.tally := by
  induction calls generalizing index c with
  | nil => rfl
  | cons call calls ih =>
    rw [resultsFrom_cons, List.foldl_cons, ih, tally_addChunk, List.zipIdx_cons, List.foldl_cons]

end Collection

theorem Opening.tally_collected (o : Opening) (calls : List Call) :
    (o.collected calls).tally =
      ⟨.sum ((Call.tokensFrom 1 calls).map Prod.snd), Call.tokensFrom 1 calls,
        Call.failedTexts calls, calls.countP Call.failed⟩ := by
  have hfold : (o.collected calls).tally = _ := Collection.tally_foldl_addChunk calls 0 .empty
  have hcounts := Tally.foldl_count calls 1 Collection.empty.tally
  rw [hfold, hcounts]
  simp [Collection.tally, Collection.empty, TokenCount.add, TokenCount.zero]

/-! ### What is settled and what is sent -/

section Tiers

variable {strings : List Text}

/-- A string is recalled, or it is missing. -/
theorem length_recalls (known : Text → Option Json) (h : strings.Nodup) :
    (Memory.recalls known strings).found.length + (Memory.recalls known strings).missing.length =
      strings.length := by
  have hsplit := List.length_eq_length_filter_add (l := strings) fun t => (known t).isSome
  have hmissing : (strings.filter fun t => !(known t).isSome) =
      strings.filter fun t => (known t).isNone := by
    simp only [Option.not_isSome]
  rw [hmissing] at hsplit
  rw [Memory.recalls, Table.length_ofPairs_filterMap h, hsplit]

/-- A string is a whole term, or something is sent for it. -/
theorem length_prepareFor {g : Option Glossary} {language : Text} {p : Glossary.Preparation}
    (h : prepareFor g language strings = .ok p) (hdistinct : strings.Nodup) :
    p.finals.length + p.sent.length = strings.length := by
  cases g with
  | none =>
    cases h
    exact Nat.zero_add _
  | some g =>
    rw [prepareFor_some] at h
    obtain ⟨-, rfl⟩ := Glossary.prepare_ok_iff.mp h
    have hsettled := length_recalls (g.wholeTerm? language) hdistinct
    rw [Glossary.length_sentFrom, Glossary.settle_eq]
    exact hsettled

end Tiers

/-- The accounts of a run: which strings were missing from the memory, which calls were made, and
what the result says of them. -/
structure Balanced (g : Option Glossary) (c : Checked) (missing : List Text) (calls : List Call)
    (r : Result) : Prop where
  /-- The texts that are not blank, each once. -/
  total : r.totalStrings =
    ((c.strings.filterMap Json.text?).filter fun t => !Text.allBlank t).dedup.length
  tiers : r.fromMemory + r.fromGlossary + r.fromService = r.totalStrings
  recalled : r.fromMemory + missing.length = r.totalStrings
  /-- Without a glossary what is missing is sent as it is, and with one as the glossary prepares
  it. -/
  sent : match g with
    | none => (calls.map Call.texts).flatten = missing
    | some g => ∃ p, g.prepare c.language missing = .ok p ∧
        (calls.map Call.texts).flatten = p.sent
  served : r.fromService = (calls.map fun call => call.texts.length).sum
  sizes : ∀ call ∈ calls, 1 ≤ call.texts.length ∧ call.texts.length ≤ c.chunkSize
  full : ∀ call ∈ calls.dropLast, call.texts.length = c.chunkSize
  chunks : r.chunks = calls.length
  failedChunks : r.failedChunks = calls.countP Call.failed
  failedStrings : r.failedStrings = Call.failedTexts calls
  chunkTokens : r.chunkTokens = Call.tokensFrom 1 calls
  tokens : r.tokens = .sum (r.chunkTokens.map Prod.snd)

variable {σ : Type} {t : Translator σ} {g : Option Glossary} {now : Nat} {r : Request}
  {w : Workspace σ} {result : Result}

/-- A result agrees with the calls that the run has made. -/
theorem translate_balanced (h : (translate t g now r w).result = .ok result) :
    ∃ c calls prompt, r.check = .ok c ∧
      t.Session c.language prompt w.translator calls
        (translate t g now r w).workspace.translator ∧
      (translate t g now r w).trace.results = resultsFrom 0 calls ∧
      Balanced g c ((unique c.strings).filter fun text =>
        (w.known? ⟨r.options.sourceLanguage, .str c.language⟩ text).isNone) calls result := by
  obtain ⟨o, w₁, calls, answers, hopen, hfinished⟩ := translate_finished h
  obtain ⟨hcheck, rfl, htotal, hlook, hprep⟩ := openRun_ok_iff.mp hopen
  obtain ⟨hrecalled, ⟨-, htranslator⟩, -⟩ := lookUp_ok hlook
  have hsession := hfinished.session
  rw [htranslator] at hsession
  refine ⟨o.checked, calls, _, hcheck, hsession, hfinished.results, ?_⟩
  have hresult := Except.ok.inj (h.symm.trans hfinished.result)
  have htally := o.tally_collected calls
  rw [Collection.tally, Tally.mk.injEq] at htally
  obtain ⟨htokens, hchunkTokens, hfailedStrings, hfailedChunks⟩ := htally
  have hsize := one_le_chunkSize hcheck
  have hflatten : (calls.map Call.texts).flatten = o.prepared.sent := by
    rw [hfinished.chunks, flatten_chunksOf]
  have hfound : o.recalled.found.length + o.recalled.missing.length = o.total := by
    rw [hrecalled, htotal]
    exact length_recalls _ (nodup_unique _)
  have hdistinct : o.recalled.missing.Nodup := by
    rw [hrecalled]
    exact (nodup_unique _).filter _
  have hsettled := length_prepareFor hprep hdistinct
  have hmissing : o.recalled.missing = (unique o.checked.strings).filter fun text =>
      (w.known? ⟨o.request.options.sourceLanguage, .str o.checked.language⟩ text).isNone := by
    rw [hrecalled]
    rfl
  rw [← hmissing, hresult]
  constructor
  case total => exact htotal.trans (length_unique _)
  case tiers =>
    change o.recalled.found.length + o.prepared.finals.length + o.prepared.sent.length = o.total
    omega
  case recalled => exact hfound
  case sent =>
    cases g with
    | none =>
      have hplain : o.prepared = ⟨[], o.recalled.missing, o.recalled.missing, []⟩ :=
        (Except.ok.inj hprep).symm
      exact hflatten.trans (congrArg Glossary.Preparation.sent hplain)
    | some g =>
      rw [prepareFor_some] at hprep
      exact ⟨o.prepared, hprep, hflatten⟩
  case served =>
    change o.prepared.sent.length = _
    rw [← hflatten, List.length_flatten, List.map_map]
    rfl
  case sizes =>
    intro call hcall
    apply length_of_mem_chunksOf hsize
    rw [← hfinished.chunks]
    exact List.mem_map_of_mem hcall
  case full =>
    intro call hcall
    apply length_of_mem_dropLast_chunksOf hsize
    rw [← hfinished.chunks, ← List.map_dropLast]
    exact List.mem_map_of_mem hcall
  case chunks => rfl
  case failedChunks => exact hfailedChunks
  case failedStrings => exact hfailedStrings
  case chunkTokens => exact hchunkTokens
  case tokens =>
    change (o.collected calls).tokens = .sum ((o.collected calls).chunkTokens.map Prod.snd)
    rw [htokens, hchunkTokens]

/-- A translator that fails for its first call and answers every text of the others with itself. -/
def Translator.late : Translator Nat where
  prepare s := (.ok (), s)
  translate s texts _ _ :=
    if s = 0 then (.failed, [], 1)
    else
      (.gave (.obj (texts.map fun t => (t, .str t)))
        (.obj (Json.record [("input", .nat 7), ("output", .nat 4)])), [], s + 1)

/-- A request for four texts and a blank one, two to a call. -/
def Request.inPairs : Request where
  strings := .arr (["Acme", "One", " ", "Two", "Three", "One"].map Json.lit)
  language := Json.lit "es"
  key := Json.lit "key"
  options := { chunkSize := .nat 2, pause := .nat 0 }

theorem translate_balanced_inPairs : ∃ result c calls missing,
    (translate .late (some Glossary.shop) 0 .inPairs ⟨none, ⟨[], []⟩, 0⟩).result = .ok result ∧
      Balanced (some Glossary.shop) c missing calls result ∧ result.fromGlossary = 1 ∧
      result.fromService = 3 ∧ result.failedChunks = 1 ∧ result.failedStrings = 2 ∧
      result.chunkTokens = [(2, ⟨7, 4, 11⟩)] := by
  have hrun : (translate .late (some Glossary.shop) 0 .inPairs
      ⟨none, ⟨[], []⟩, 0⟩).result.toOption.any (fun result =>
        decide (result.fromGlossary = 1 ∧ result.fromService = 3 ∧ result.failedChunks = 1 ∧
          result.failedStrings = 2 ∧ result.chunkTokens = [(2, ⟨7, 4, 11⟩)])) = true := by
    decide +kernel
  obtain ⟨result, hresult, hcounts⟩ := exists_result hrun
  obtain ⟨c, calls, -, -, -, -, hbalanced⟩ := translate_balanced hresult
  exact ⟨result, c, calls, _, hresult, hbalanced, of_decide_eq_true hcounts⟩

end Localize.Batch
