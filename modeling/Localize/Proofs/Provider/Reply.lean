import Localize.Proofs.Outcome
import Localize.Provider.Service

/-!
# What a reply comes to

The tokens that a good reply reports are added to the totals, and the content of its first choice is
searched for an object. Both take a shape of the reply for granted, which `WellShaped` spells out: a
value may be missing or count as nothing, but one that is there must be of the type that its use
needs. A reply that is not good, holds no JSON at all or is well-shaped comes to an object or to an
error of the translation (`Comes`). Every other reply ends the attempt in a fault.
-/

namespace Localize

open Provider

namespace Provider

/-- The value of a field, or what stands for a missing one. -/
def valueOf (fields : Fields) (name : String) (missing : Json) : Json :=
  (Table.find? fields name.toList).getD missing

/-- A value that has a property unless it counts as nothing. -/
def NothingOr (P : Json → Prop) (value : Json) : Prop := value.isSomething = true → P value

/-- A count that can be added to a total. -/
def Addable (total : Quantity) (count : Json) : Prop :=
  ∃ q sum, count.quantity? = some q ∧ total.add? q = some sum

/-- A message with a text or without content. -/
def IsMessage (value : Json) : Prop :=
  ∃ fields, value = .obj fields ∧
    NothingOr (fun content => ∃ t, content = .str t) (valueOf fields "content" .null)

/-- A list of choices whose first one has a message or nothing in its place. -/
def AreChoices (value : Json) : Prop :=
  ∃ first rest, value = .arr (.obj first :: rest) ∧
    NothingOr IsMessage (valueOf first "message" .null)

/-- The content of a message, the empty text where there is none. -/
def contentOf (message : Json) : Json :=
  ((message.field? "content".toList).getD .null).orElse (.str [])

/-- The first choice of a reply has a text as its content, or the text is empty and stands for a
content that is missing. -/
def HasContent (reply : Fields) (t : Text) : Prop :=
  ∃ first rest, valueOf reply "choices" .null = .arr (.obj first :: rest) ∧
    contentOf (valueOf first "message" .null) = .str t

/-- The object that a reply holds, or the error that it means. -/
inductive Comes (provider : Text) : Reply → Except Error Fields → Prop
  | timedOut : Comes provider .timedOut (.error (.providerTimeout provider))
  | unreachable {reason : Text} :
      Comes provider (.unreachable reason) (.error (.providerUnreachable provider reason))
  | refused {status : Nat} {body : Text} (bad : Reply.isGood status = false) :
      Comes provider (.response status body)
        (.error (.refusedByProvider provider status (refusalReason body)))
  | notJson {status : Nat} {body : Text} {e : Json.ReadError} (good : Reply.isGood status = true)
      (unread : readBody body = .error e) :
      Comes provider (.response status body) (.error (.replyNotJson provider e.message))
  | withoutContent {status : Nat} {body : Text} {reply : Fields}
      (good : Reply.isGood status = true) (read : readBody body = .ok (.obj reply))
      (nothing : (valueOf reply "choices" .null).isSomething = false) :
      Comes provider (.response status body) (.error (.replyWithoutContent provider))
  | withoutObject {status : Nat} {body : Text} {reply : Fields} {t : Text}
      (good : Reply.isGood status = true) (read : readBody body = .ok (.obj reply))
      (has : HasContent reply t) (unfound : objectIn? t = none) :
      Comes provider (.response status body) (.error .replyWithoutObject)
  | object {status : Nat} {body : Text} {reply : Fields} {t : Text} {fields : Fields}
      (good : Reply.isGood status = true) (read : readBody body = .ok (.obj reply))
      (has : HasContent reply t) (found : objectIn? t = some fields) :
      Comes provider (.response status body) (.ok fields)

theorem HasContent.unique {reply : Fields} {t t' : Text} (h : HasContent reply t)
    (h' : HasContent reply t') : t = t' := by
  obtain ⟨first, rest, hchoices, ht⟩ := h
  obtain ⟨first', rest', hchoices', ht'⟩ := h'
  cases hchoices.symm.trans hchoices'
  cases ht.symm.trans ht'
  rfl

theorem HasContent.isSomething {reply : Fields} {t : Text} (h : HasContent reply t) :
    (valueOf reply "choices" .null).isSomething = true := by
  obtain ⟨first, rest, hchoices, -⟩ := h
  rw [hchoices]
  rfl

/-- A reply comes to one thing: its body is read in one way, its first choice has one content, and
there is none where the choices count as nothing. -/
theorem Comes.unique {provider : Text} {reply : Reply} {r r' : Except Error Fields}
    (h : Comes provider reply r) (h' : Comes provider reply r') : r = r' := by
  cases h <;> cases h' <;> grind [HasContent.isSomething, HasContent.unique]

theorem Comes.category {provider : Text} {reply : Reply} {e : Error}
    (h : Comes provider reply (.error e)) : e.category = .translation := by
  cases h <;> rfl

end Provider

/-! ### Tokens -/

theorem Quantity.exists_add?_zero (total : Quantity) :
    ∃ sum, total.add? (.whole 0) = some sum := by
  cases total with
  | whole i => exact ⟨_, rfl⟩
  | real x =>
    have hzero : ∃ z, Quantity.toReal? (.whole 0) = some z :=
      Option.isSome_iff_exists.mp (by decide +kernel)
    obtain ⟨z, hz⟩ := hzero
    have hx : Quantity.toReal? (.real x) = some x := rfl
    exact ⟨.real (x.add z), by simp only [Quantity.add?, hz, hx]; rfl⟩

namespace Service

/-- A report whose tokens can be added to the totals. -/
def Accountable (s : Service) (report : Json) : Prop :=
  ∃ fields, report = .obj fields ∧
    Addable s.promptTotal (valueOf fields "prompt_tokens" (.nat 0)) ∧
    Addable s.completionTotal (valueOf fields "completion_tokens" (.nat 0))

/-- A reply with the shape that its use takes for granted. -/
def WellShaped (s : Service) (value : Json) : Prop :=
  ∃ reply, value = .obj reply ∧ NothingOr s.Accountable (valueOf reply "usage" .null) ∧
    NothingOr AreChoices (valueOf reply "choices" .null)

/-- A good reply that is JSON of another shape. -/
def Misread (s : Service) (reply : Reply) : Prop :=
  ∃ status body value, reply = .response status body ∧ Reply.isGood status = true ∧
    readBody body = .ok value ∧ ¬s.WellShaped value

variable {s : Service} {reply : Fields}

theorem account_provider (u : ReportedUsage) : (s.account u).2.provider = s.provider := by
  simp only [account]
  split
  · rfl
  · split <;> rfl

theorem account_ok_iff {u : ReportedUsage} :
    (s.account u).1 = .ok () ↔
      Addable s.promptTotal u.prompt ∧ Addable s.completionTotal u.completion := by
  unfold account Addable
  cases hp : u.prompt.quantity? with
  | none => simp
  | some p =>
    cases hc : u.completion.quantity? with
    | none =>
      cases hsum : s.promptTotal.add? p <;> simp [hsum]
    | some c =>
      cases hsum : s.promptTotal.add? p with
      | none => simp [hsum]
      | some sum =>
        cases hsum' : s.completionTotal.add? c <;> simp [hsum, hsum']

theorem ofReply_nothing (h : (valueOf reply "usage" .null).isSomething = false) :
    ReportedUsage.ofReply reply = .ok .zero := by
  unfold valueOf at h
  unfold ReportedUsage.ofReply
  simp only [h, Bool.false_eq_true, if_false]

theorem ofReply_object {fields : Fields} (h : valueOf reply "usage" .null = .obj fields)
    (hs : (valueOf reply "usage" .null).isSomething = true) :
    ReportedUsage.ofReply reply = .ok ⟨valueOf fields "prompt_tokens" (.nat 0),
      valueOf fields "completion_tokens" (.nat 0), valueOf fields "total_tokens" (.nat 0)⟩ := by
  rw [h] at hs
  unfold valueOf at h
  unfold ReportedUsage.ofReply valueOf
  simp only [h, hs, if_true]

theorem ofReply_other (h : ∀ fields, valueOf reply "usage" .null ≠ .obj fields)
    (hs : (valueOf reply "usage" .null).isSomething = true) :
    ReportedUsage.ofReply reply = .error .noMember := by
  unfold valueOf at h hs
  unfold ReportedUsage.ofReply
  simp only [hs, if_true]

/-- The tokens of a reply are accounted for exactly when the report has the shape for it. -/
theorem account_ofReply_iff :
    (∃ u, ReportedUsage.ofReply reply = .ok u ∧ (s.account u).1 = .ok ()) ↔
      NothingOr s.Accountable (valueOf reply "usage" .null) := by
  cases hs : (valueOf reply "usage" .null).isSomething with
  | false =>
    have hzero : (s.account .zero).1 = .ok () := by
      obtain ⟨p, hp⟩ := s.promptTotal.exists_add?_zero
      obtain ⟨c, hc⟩ := s.completionTotal.exists_add?_zero
      exact account_ok_iff.mpr ⟨⟨_, p, rfl, hp⟩, _, c, rfl, hc⟩
    rw [ofReply_nothing hs]
    exact ⟨fun _ h => absurd h (by rw [hs]; exact Bool.false_ne_true), fun _ => ⟨_, rfl, hzero⟩⟩
  | true =>
    by_cases hobj : ∃ fields, valueOf reply "usage" .null = .obj fields
    · obtain ⟨fields, hfields⟩ := hobj
      rw [ofReply_object hfields hs]
      constructor
      · rintro ⟨u, hu, hok⟩ -
        cases hu
        exact ⟨fields, hfields, account_ok_iff.mp hok⟩
      · intro h
        obtain ⟨fields', hfields', hcount⟩ := h hs
        rw [hfields] at hfields'
        cases hfields'
        exact ⟨_, rfl, account_ok_iff.mpr hcount⟩
    · rw [ofReply_other (fun fields hfields => hobj ⟨fields, hfields⟩) hs]
      constructor
      · rintro ⟨u, hu, -⟩
        cases hu
      · intro h
        obtain ⟨fields, hfields, -⟩ := h hs
        exact absurd ⟨fields, hfields⟩ hobj

/-! ### Content -/

theorem content_nothing (h : (valueOf reply "choices" .null).isSomething = false) :
    s.content reply = .error (Error.replyWithoutContent s.provider) := by
  unfold valueOf at h
  unfold content
  simp only [h, Bool.false_eq_true, if_false]

theorem content_first {first : Fields} {rest : List Json}
    (h : valueOf reply "choices" .null = .arr (.obj first :: rest)) :
    s.content reply =
      match (valueOf first "message" .null).isSomething, valueOf first "message" .null with
      | true, .obj fields =>
        match contentOf (.obj fields) with
        | .bool _ | .int _ | .float _ | .null => .error Fault.wrongType
        | content => .ok content
      | false, _ => .ok (.str [])
      | true, _ => .error Fault.noMember := by
  have hsome : Json.isSomething (.arr (.obj first :: rest)) = true := rfl
  unfold valueOf at h
  unfold content valueOf contentOf
  simp only [h, hsome, if_true]
  generalize (Table.find? first "message".toList).getD Json.null = message
  cases hm : message.isSomething
  · rfl
  · cases message <;> rfl

theorem contentOf_nothing {message : Json} (h : message.isSomething = false) :
    contentOf message = .str [] := by
  cases message with
  | obj fields =>
    obtain rfl : fields = [] := by simpa [Json.isSomething] using h
    rfl
  | _ => rfl

theorem contentOf_text_iff {fields : Fields} :
    (∃ t, contentOf (.obj fields) = .str t) ↔
      NothingOr (fun content => ∃ t, content = .str t) (valueOf fields "content" .null) := by
  unfold contentOf NothingOr Json.orElse
  change (∃ t, (if (valueOf fields "content" .null).isSomething then _ else _) = Json.str t) ↔ _
  cases h : (valueOf fields "content" .null).isSomething with
  | false => simp
  | true => simp [valueOf, Json.field?]

/-- Choices of the right shape give a text. -/
theorem exists_content (h : AreChoices (valueOf reply "choices" .null)) :
    ∃ t, HasContent reply t ∧ s.content reply = .ok (.str t) := by
  obtain ⟨first, rest, hchoices, hmessage⟩ := h
  rw [content_first hchoices]
  cases hm : (valueOf first "message" .null).isSomething with
  | false => exact ⟨[], ⟨first, rest, hchoices, contentOf_nothing hm⟩, rfl⟩
  | true =>
    obtain ⟨fields, hfields, hcontent⟩ := hmessage hm
    obtain ⟨t, ht⟩ := contentOf_text_iff.mpr hcontent
    exact ⟨t, ⟨first, rest, hchoices, hfields ▸ ht⟩, by simp only [hfields, ht]⟩

/-- A first choice without a proper message ends in a fault, at the latest when an object is looked
for in its content. -/
theorem exists_fault_first {first : Fields} {rest : List Json}
    (h : valueOf reply "choices" .null = .arr (.obj first :: rest))
    (hm : ¬NothingOr IsMessage (valueOf first "message" .null)) :
    ∃ fault, (s.content reply >>= objectOf) = .error (.fault fault) := by
  unfold NothingOr at hm
  push Not at hm
  obtain ⟨hsome, hm⟩ := hm
  rw [content_first h, hsome]
  cases hmessage : valueOf first "message" .null with
  | obj fields =>
    have hcontent : ∀ t, contentOf (.obj fields) ≠ .str t := fun t ht =>
      hm ⟨fields, hmessage, contentOf_text_iff.mp ⟨t, ht⟩⟩
    cases hc : contentOf (.obj fields) with
    | str t => exact absurd hc (hcontent t)
    | _ => simp only [hc]; exact ⟨_, rfl⟩
  | _ => exact ⟨.noMember, rfl⟩

/-- Choices of another shape end in a fault. -/
theorem exists_fault (hs : (valueOf reply "choices" .null).isSomething = true)
    (hc : ¬AreChoices (valueOf reply "choices" .null)) :
    ∃ fault, (s.content reply >>= objectOf) = .error (.fault fault) := by
  by_cases hfirst : ∃ first rest, valueOf reply "choices" .null = .arr (.obj first :: rest)
  · obtain ⟨first, rest, hchoices⟩ := hfirst
    exact exists_fault_first hchoices fun hm => hc ⟨first, rest, hchoices, hm⟩
  · unfold valueOf at hs hfirst
    unfold content
    simp only [hs, if_true]
    split
    · exact absurd ⟨_, _, ‹_›⟩ hfirst
    all_goals exact ⟨_, rfl⟩

/-! ### A whole reply -/

/-- The object in a value that was read off a good reply. -/
def fieldsIn (s : Service) (value : Json) : Except Failure Fields :=
  (s.digest value).1 >>= objectOf

theorem fieldsIn_of_account {u : ReportedUsage} (hu : ReportedUsage.ofReply reply = .ok u)
    (ha : (s.account u).1 = .ok ()) :
    s.fieldsIn (.obj reply) = ((s.account u).2.content reply >>= objectOf) := by
  unfold fieldsIn digest
  rcases hs : s.account u with ⟨r, s'⟩
  rw [hs] at ha
  cases ha
  simp only [hu, hs]

/-- A reply whose tokens cannot be accounted for ends in a fault. -/
theorem exists_fault_of_account (h : ¬∃ u, ReportedUsage.ofReply reply = .ok u ∧
    (s.account u).1 = .ok ()) :
    ∃ fault, s.fieldsIn (.obj reply) = .error (.fault fault) := by
  unfold fieldsIn digest
  cases hu : ReportedUsage.ofReply reply with
  | error fault => exact ⟨fault, by simp only [hu]; rfl⟩
  | ok u =>
    rcases hs : s.account u with ⟨r, s'⟩
    simp only [hu, hs]
    cases r with
    | error fault => exact ⟨fault, rfl⟩
    | ok => exact absurd ⟨u, hu, by rw [hs]⟩ h

theorem exists_fault_of_not_wellShaped {value : Json} (h : ¬s.WellShaped value) :
    ∃ fault, s.fieldsIn value = .error (.fault fault) := by
  cases value with
  | obj reply =>
    by_cases ha : ∃ u, ReportedUsage.ofReply reply = .ok u ∧ (s.account u).1 = .ok ()
    · have hchoices : ¬NothingOr AreChoices (valueOf reply "choices" .null) := fun hc =>
        h ⟨reply, rfl, account_ofReply_iff.mp ha, hc⟩
      unfold NothingOr at hchoices
      push Not at hchoices
      obtain ⟨u, hu, ha⟩ := ha
      rw [fieldsIn_of_account hu ha]
      exact exists_fault hchoices.1 hchoices.2
    · exact exists_fault_of_account ha
  | _ => exact ⟨.noMember, rfl⟩

theorem objectOf_found {t : Text} {fields : Fields} (h : objectIn? t = some fields) :
    objectOf (.str t) = .ok fields := by
  simp only [objectOf, h]

theorem objectOf_unfound {t : Text} (h : objectIn? t = none) :
    objectOf (.str t) = .error (.error .replyWithoutObject) := by
  simp only [objectOf, h]

/-- A good reply that is well-shaped comes to an object or to an error. -/
theorem exists_comes_of_wellShaped {status : Nat} {body : Text} {value : Json}
    (good : Reply.isGood status = true) (read : readBody body = .ok value)
    (h : s.WellShaped value) :
    ∃ r, Comes s.provider (.response status body) r ∧
      s.fieldsIn value = r.mapError Failure.error := by
  obtain ⟨reply, rfl, husage, hchoices⟩ := h
  obtain ⟨u, hu, ha⟩ := account_ofReply_iff.mpr husage
  rw [fieldsIn_of_account hu ha]
  cases hs : (valueOf reply "choices" .null).isSomething with
  | false =>
    rw [content_nothing hs, account_provider]
    exact ⟨_, .withoutContent good read hs, rfl⟩
  | true =>
    obtain ⟨t, ht, hcontent⟩ := exists_content (s := (s.account u).2) (hchoices hs)
    rw [hcontent]
    cases hfound : objectIn? t with
    | none => exact ⟨_, .withoutObject good read ht hfound, objectOf_unfound hfound⟩
    | some fields => exact ⟨_, .object good read ht hfound, objectOf_found hfound⟩

/-- What comes of a reply as an attempt reads it. -/
def outcome (s : Service) (reply : Reply) : Except Failure Fields :=
  s.readReply reply >>= s.fieldsIn

theorem exists_comes {reply : Reply} (h : ¬s.Misread reply) :
    ∃ r, Comes s.provider reply r ∧ s.outcome reply = r.mapError Failure.error := by
  unfold outcome
  cases reply with
  | timedOut => exact ⟨_, .timedOut, rfl⟩
  | unreachable reason => exact ⟨_, .unreachable, rfl⟩
  | response status body =>
    cases hgood : Reply.isGood status with
    | false => exact ⟨_, .refused hgood, by simp only [readReply, hgood]; rfl⟩
    | true =>
      cases hread : readBody body with
      | error e => exact ⟨_, .notJson hgood hread, by simp only [readReply, hgood, hread]; rfl⟩
      | ok value =>
        have hshape : s.WellShaped value := by
          by_contra hshape
          exact h ⟨status, body, value, rfl, hgood, hread, hshape⟩
        have hvalue : s.readReply (.response status body) = .ok value := by
          simp only [readReply, hgood, hread, if_true]
        rw [hvalue]
        exact exists_comes_of_wellShaped hgood hread hshape

theorem exists_fault_of_misread {reply : Reply} (h : s.Misread reply) :
    ∃ fault, s.outcome reply = .error (.fault fault) := by
  obtain ⟨status, body, value, rfl, hgood, hread, hshape⟩ := h
  have hvalue : s.readReply (.response status body) = .ok value := by
    simp only [readReply, hgood, hread, if_true]
  unfold outcome
  rw [hvalue]
  exact exists_fault_of_not_wellShaped hshape

end Service

end Localize
