import LlmRelay.Ecma.RegexPlaces
import LlmRelay.Dialects.Refusal

/-!
# Conservation of recovered calls

A call envelope that `stripEnvelopes` removes from the prose should have contributed one call, with
the object that its payload states as its input. The parsers and the removal scan the text with
expressions of their own, so an envelope is related to the block of its parser that ends with it,
and the removal is followed by the positions of the code units.

## Main definitions

* `DialectForm.envelope`: a call from its opening to its closing delimiter;
* `proseUnits`, `Removed`: what is left of the text, and an envelope of which nothing is;
* `DialectForm.contribution`: the call that a block contributes to the result;
* `DialectForm.stated`: the call that a block states;
* `Conserved`, `WellStated`: an envelope contributed the call it states; it is framed and filled as
  its parser expects.

## Main results

* `recoveredCalls_eq`: the calls of a text are what its blocks contribute;
* `conserved_iff`: an envelope is conserved exactly when it is well stated;
* `recovered_calls_conserved_iff`: so are all the removed ones.
-/

namespace LlmRelay

open Ecma

deriving instance DecidableEq for DialectToolCall, DialectOutcome

/-! ## What a block contributes -/

namespace DialectForm

/-- The forms in the order of the parsers. -/
def all : List DialectForm :=
  [invoke, deepSeek, kimi, toolCall, function]

instance (f : DialectForm) (m : Regex.Match) : Decidable (f.GoesOn m) :=
  match f with
  | deepSeek => inferInstanceAs (Decidable (m.get 0 = [] ∨ (objectPayload? (m.get 1)).isSome = true))
  | kimi =>
    inferInstanceAs (Decidable (m.get 0 = []
      ∨ (kimiName? (m.get 0)).isSome = true ∧ (objectPayload? (m.get 1)).isSome = true))
  | invoke | toolCall | function => isTrue trivial

/-- The call that the parser of a form makes of a block. -/
def read (f : DialectForm) (schemas : ToolSchemas) (m : Regex.Match) : Option DialectToolCall :=
  match f with
  | invoke =>
    some ⟨m.get 0, .obj (invokeInput (schemas (m.get 0)) [] (DialectRegex.param.matchAll (m.get 1)))⟩
  | deepSeek => (objectPayload? (m.get 1)).map fun input => ⟨(m.get 0).trim, input⟩
  | kimi => (kimiName? (m.get 0)).bind fun name =>
    (objectPayload? (m.get 1)).map fun input => ⟨name, input⟩
  | toolCall => fromJsonPayload (m.get 0)
  | function =>
    match Json.parse (m.get 1).trim with
    | none => none
    | some (.obj fields) => some ⟨(m.get 0).trim, .obj fields⟩
    | some (.arr items) => some ⟨(m.get 0).trim, .arr items⟩
    | some _ => some ⟨(m.get 0).trim, .obj []⟩

/-- A call without a name is dropped. -/
def call (f : DialectForm) (schemas : ToolSchemas) (m : Regex.Match) : Option DialectToolCall :=
  (f.read schemas m).filter fun c => c.name != []

/-- What a block contributes: a parser whose scan stops discards all of its calls. -/
def contribution (f : DialectForm) (schemas : ToolSchemas) (t : Text) (m : Regex.Match) :
    Option DialectToolCall :=
  if ∀ m' ∈ f.regex.matchAll t, f.GoesOn m' then f.call schemas m else none

end DialectForm

/-- The calls with a name. -/
def namedCalls (calls : List DialectToolCall) : List DialectToolCall :=
  calls.filter fun c => c.name != []

theorem namedCalls_append (cs ds : List DialectToolCall) :
    namedCalls (cs ++ ds) = namedCalls cs ++ namedCalls ds :=
  List.filter_append _ _

section Calls

variable {f : DialectForm} {schemas : ToolSchemas} {m : Regex.Match}

theorem namedCalls_snoc {c : DialectToolCall} (h : f.read schemas m = some c)
    (calls : List DialectToolCall) (rest : List Regex.Match) :
    namedCalls (calls ++ [c]) ++ rest.filterMap (f.call schemas)
      = namedCalls calls ++ (m :: rest).filterMap (f.call schemas) := by
  rw [namedCalls_append, List.filterMap_cons, DialectForm.call, h]
  cases hname : c.name != [] with
  | true => simp [namedCalls, Option.filter_some, hname]
  | false => simp [namedCalls, Option.filter_some, hname]

theorem filterMap_call_of_none (h : f.call schemas m = none) (rest : List Regex.Match) :
    (m :: rest).filterMap (f.call schemas) = rest.filterMap (f.call schemas) :=
  List.filterMap_cons_none h

theorem call_of_name_nil
    (h : ∀ c, f.read schemas m = some c → c.name = []) : f.call schemas m = none := by
  rw [DialectForm.call]
  cases hread : f.read schemas m with
  | none => rfl
  | some c => simp [h c hread]

variable (found : DialectScan)

variable (ms : List Regex.Match)

include ms

variable (schemas) in
theorem invokeScan_calls :
    namedCalls (invokeScan schemas found ms).calls
      = namedCalls found.calls ++ ms.filterMap (DialectForm.invoke.call schemas) := by
  induction ms generalizing found with
  | nil => rw [invokeScan, List.filterMap_nil, List.append_nil]
  | cons m rest ih =>
    rw [invokeScan]
    dsimp only
    split
    · rename_i hname
      rw [ih, filterMap_call_of_none (call_of_name_nil fun c hc => ?_)]
      cases hc
      exact hname
    · rw [ih]
      exact namedCalls_snoc rfl found.calls rest

theorem deepSeekScan_calls :
    namedCalls (deepSeekScan found ms).calls
      = if ∀ m ∈ ms, DialectForm.deepSeek.GoesOn m then
          namedCalls found.calls ++ ms.filterMap (DialectForm.deepSeek.call schemas)
        else [] := by
  induction ms generalizing found with
  | nil => rw [deepSeekScan, List.filterMap_nil, List.append_nil, if_pos (by simp)]
  | cons m rest ih =>
    simp only [List.forall_mem_cons]
    rw [deepSeekScan]
    by_cases hname : m.get 0 = []
    · have hgo : DialectForm.deepSeek.GoesOn m := .inl hname
      have hnone : DialectForm.deepSeek.call schemas m = none := by
        refine call_of_name_nil fun c hc => ?_
        obtain ⟨input, -, rfl⟩ := Option.map_eq_some_iff.mp hc
        rw [hname]
        rfl
      rw [if_pos hname, ih, filterMap_call_of_none hnone]
      simp only [hgo, true_and]
    · rw [if_neg hname]
      cases hpayload : objectPayload? (m.get 1) with
      | none =>
        have hstop : ¬ DialectForm.deepSeek.GoesOn m := by
          rintro (h | h)
          · exact hname h
          · rw [hpayload] at h
            cases h
        simp only [hstop]
        rfl
      | some input =>
        have hgo : DialectForm.deepSeek.GoesOn m := .inr (by rw [hpayload]; rfl)
        have hread : DialectForm.deepSeek.read schemas m = some ⟨(m.get 0).trim, input⟩ := by
          rw [DialectForm.read, hpayload]
          rfl
        rw [ih, namedCalls_snoc hread]
        simp only [hgo, true_and]

theorem kimiScan_calls :
    namedCalls (kimiScan found ms).calls
      = if ∀ m ∈ ms, DialectForm.kimi.GoesOn m then
          namedCalls found.calls ++ ms.filterMap (DialectForm.kimi.call schemas)
        else [] := by
  induction ms generalizing found with
  | nil => rw [kimiScan, List.filterMap_nil, List.append_nil, if_pos (by simp)]
  | cons m rest ih =>
    simp only [List.forall_mem_cons]
    rw [kimiScan]
    by_cases htoken : m.get 0 = []
    · have hgo : DialectForm.kimi.GoesOn m := .inl htoken
      have hnone : DialectForm.kimi.call schemas m = none := by
        rw [DialectForm.call, DialectForm.read, htoken]
        rfl
      rw [if_pos htoken, ih, filterMap_call_of_none hnone]
      simp only [hgo, true_and]
    · rw [if_neg htoken]
      cases hname : kimiName? (m.get 0) with
      | none =>
        have hstop : ¬ DialectForm.kimi.GoesOn m := by
          rintro (h | h)
          · exact htoken h
          · rw [hname] at h
            cases h.1
        simp only [hstop]
        rfl
      | some name =>
        cases hpayload : objectPayload? (m.get 1) with
        | none =>
          have hstop : ¬ DialectForm.kimi.GoesOn m := by
            rintro (h | h)
            · exact htoken h
            · rw [hpayload] at h
              cases h.2
          simp only [hstop]
          rfl
        | some input =>
          have hgo : DialectForm.kimi.GoesOn m :=
            .inr ⟨by rw [hname]; rfl, by rw [hpayload]; rfl⟩
          have hread : DialectForm.kimi.read schemas m = some ⟨name, input⟩ := by
            rw [DialectForm.read, hname, hpayload]
            rfl
          rw [ih, namedCalls_snoc hread]
          simp only [hgo, true_and]

theorem toolCallScan_calls :
    namedCalls (toolCallScan found ms).calls
      = namedCalls found.calls ++ ms.filterMap (DialectForm.toolCall.call schemas) := by
  induction ms generalizing found with
  | nil => rw [toolCallScan, List.filterMap_nil, List.append_nil]
  | cons m rest ih =>
    rw [toolCallScan]
    cases hread : fromJsonPayload (m.get 0) with
    | none =>
      have hnone : DialectForm.toolCall.call schemas m = none := by
        rw [DialectForm.call, DialectForm.read, hread]
        rfl
      rw [filterMap_call_of_none hnone]
      exact ih found
    | some c =>
      rw [ih]
      exact @namedCalls_snoc .toolCall schemas m c hread found.calls rest

theorem functionScan_calls :
    namedCalls (functionScan found ms).calls
      = namedCalls found.calls ++ ms.filterMap (DialectForm.function.call schemas) := by
  induction ms generalizing found with
  | nil => rw [functionScan, List.filterMap_nil, List.append_nil]
  | cons m rest ih =>
    rw [functionScan]
    by_cases hname : m.get 0 = []
    · have hnone : DialectForm.function.call schemas m = none := by
        refine call_of_name_nil fun c hc => ?_
        rw [DialectForm.read, hname] at hc
        split at hc
        · cases hc
        all_goals
          cases hc
          rfl
      rw [if_pos hname, ih, filterMap_call_of_none hnone]
    · rw [if_neg hname]
      -- the payload decides what is read, an array and a scalar included
      cases hpayload : Json.parse (m.get 1).trim with
      | none =>
        have hnone : DialectForm.function.call schemas m = none := by
          rw [DialectForm.call, DialectForm.read, hpayload]
          rfl
        rw [ih, filterMap_call_of_none hnone]
      | some payload =>
        have hread : ∀ input, DialectForm.function.read schemas m = some ⟨(m.get 0).trim, input⟩ →
            namedCalls (functionScan ⟨found.calls ++ [⟨(m.get 0).trim, input⟩],
                found.names ++ [(m.get 0).trim]⟩ rest).calls
              = namedCalls found.calls
                ++ (m :: rest).filterMap (DialectForm.function.call schemas) := by
          intro input h
          rw [ih]
          exact namedCalls_snoc h found.calls rest
        cases payload <;> exact hread _ (by rw [DialectForm.read, hpayload])

end Calls

theorem filterMap_contribution (f : DialectForm) (schemas : ToolSchemas) (t : Text) :
    (f.regex.matchAll t).filterMap (f.contribution schemas t)
      = if ∀ m ∈ f.regex.matchAll t, f.GoesOn m then (f.regex.matchAll t).filterMap (f.call schemas)
        else [] := by
  unfold DialectForm.contribution
  split
  · rfl
  · exact List.filterMap_eq_nil_iff.mpr fun _ _ => rfl

/-- **The calls of a text** are what its blocks contribute, form by form. -/
theorem recoveredCalls_eq (t : Text) (schemas : ToolSchemas) :
    namedCalls ((dialectScans t schemas).flatMap (·.calls))
      = DialectForm.all.flatMap fun f =>
          (f.regex.places t).filterMap fun b => f.contribution schemas t b.found := by
  have hplaces : ∀ f : DialectForm, ((f.regex.places t).filterMap fun b =>
      f.contribution schemas t b.found) = (f.regex.matchAll t).filterMap (f.contribution schemas t) := by
    intro f
    rw [← Regex.map_places, List.filterMap_map]
    rfl
  have hinvoke : ∀ m ∈ DialectForm.invoke.regex.matchAll t, DialectForm.invoke.GoesOn m :=
    fun _ _ => trivial
  have htoolCall : ∀ m ∈ DialectForm.toolCall.regex.matchAll t, DialectForm.toolCall.GoesOn m :=
    fun _ _ => trivial
  have hfunction : ∀ m ∈ DialectForm.function.regex.matchAll t, DialectForm.function.GoesOn m :=
    fun _ _ => trivial
  simp only [hplaces, filterMap_contribution, DialectForm.all, List.flatMap_cons, if_pos hinvoke, if_pos htoolCall, if_pos hfunction]
  simp only [dialectScans, List.flatMap_cons, List.flatMap_nil, List.append_nil, namedCalls_append]
  rw [fromInvokeForm, invokeScan_calls, fromDeepSeekForm, @deepSeekScan_calls schemas,
    fromKimiTokenForm, @kimiScan_calls schemas, fromTaggedJsonForms, @functionScan_calls schemas,
    @toolCallScan_calls schemas]
  rfl

/-! ## What a block states -/

/-- The object that the parameters of an invoke block state. -/
def statedInput (schema : Option Json) (fields : List (Text × Json)) :
    List Regex.Match → List (Text × Json)
  | [] => fields
  | p :: rest =>
    let key := p.get 0
    if key = [] then statedInput schema fields rest
    else
      let declared := (schema.bind (·.get? (text "properties"))).bind (·.get? key)
      statedInput schema (setProperty fields key (coerce (p.get 1) declared)) rest

/-- No parameter is named like the prototype, which is no own property of an object literal. -/
def OwnParameters (ms : List Regex.Match) : Prop :=
  ∀ p ∈ ms, p.get 0 ≠ text "__proto__"

instance (ms : List Regex.Match) : Decidable (OwnParameters ms) :=
  inferInstanceAs (Decidable (∀ p ∈ ms, p.get 0 ≠ text "__proto__"))

section Parameters

variable (schema : Option Json)

theorem lookupEntry_invokeInput (fields : List (Text × Json)) (ms : List Regex.Match) :
    lookupEntry (text "__proto__") (invokeInput schema fields ms)
      = lookupEntry (text "__proto__") fields := by
  induction ms generalizing fields with
  | nil => rfl
  | cons p rest ih =>
    rw [invokeInput]
    split
    · exact ih fields
    · rw [ih, assignProperty]
      split
      · rfl
      · rename_i hne
        rw [lookupEntry_setProperty, if_neg hne]

theorem isSome_lookupEntry_statedInput {key : Text} (hkey : key ≠ []) {fields : List (Text × Json)}
    {ms : List Regex.Match} (h : (lookupEntry key fields).isSome = true ∨ ∃ p ∈ ms, p.get 0 = key) :
    (lookupEntry key (statedInput schema fields ms)).isSome = true := by
  induction ms generalizing fields with
  | nil =>
    rcases h with h | ⟨p, hp, -⟩
    · exact h
    · cases hp
  | cons p rest ih =>
    rw [statedInput]
    split
    · rename_i hempty
      refine ih (h.imp_right ?_)
      rintro ⟨q, hq, hname⟩
      rcases List.mem_cons.mp hq with rfl | hq
      · exact absurd (hname.symm.trans hempty) hkey
      · exact ⟨q, hq, hname⟩
    · apply ih
      by_cases hp : p.get 0 = key
      · left
        rw [lookupEntry_setProperty, if_pos hp]
        rfl
      · rcases h with h | ⟨q, hq, hname⟩
        · left
          rw [lookupEntry_setProperty, if_neg hp]
          exact h
        · right
          rcases List.mem_cons.mp hq with rfl | hq
          · exact absurd hname hp
          · exact ⟨q, hq, hname⟩

/-- **The input of an invoke block** is what its parameters state exactly when all of them are own
properties. -/
theorem invokeInput_eq_iff (ms : List Regex.Match) :
    invokeInput schema [] ms = statedInput schema [] ms ↔ OwnParameters ms := by
  constructor
  · intro heq p hp hname
    have hnone := lookupEntry_invokeInput schema [] ms
    have hsome := @isSome_lookupEntry_statedInput schema (text "__proto__") (by decide) [] ms
      (.inr ⟨p, hp, hname⟩)
    rw [← heq, hnone] at hsome
    cases hsome
  · intro hown
    generalize ([] : List (Text × Json)) = fields
    induction ms generalizing fields with
    | nil => rfl
    | cons p rest ih =>
      have hrest : OwnParameters rest := fun q hq => hown q (List.mem_cons_of_mem p hq)
      rw [invokeInput, statedInput]
      dsimp only
      split
      · exact ih hrest fields
      · rw [assignProperty, if_neg (hown p List.mem_cons_self)]
        exact ih hrest _

end Parameters

namespace DialectForm

/-- The call that a block states: the tool it names, and the object that its payload denotes. -/
def stated (f : DialectForm) (schemas : ToolSchemas) (m : Regex.Match) : Option DialectToolCall :=
  let call : Option DialectToolCall :=
    match f with
    | invoke => some ⟨m.get 0,
        .obj (statedInput (schemas (m.get 0)) [] (DialectRegex.param.matchAll (m.get 1)))⟩
    | function => (objectPayload? (m.get 1)).map fun input => ⟨(m.get 0).trim, input⟩
    | deepSeek | kimi | toolCall => f.read schemas m
  call.filter fun c => c.name != []

/-- The parameters of an invoke block are own properties. -/
def Own (f : DialectForm) (m : Regex.Match) : Prop :=
  f = invoke → OwnParameters (DialectRegex.param.matchAll (m.get 1))

instance (f : DialectForm) (m : Regex.Match) : Decidable (f.Own m) :=
  inferInstanceAs (Decidable (_ → _))

theorem call_of_stated {f : DialectForm} {schemas : ToolSchemas} {m : Regex.Match}
    {c : DialectToolCall} (h : f.stated schemas m = some c) :
    f.call schemas m = some c ↔ f.Own m := by
  cases f with
  | invoke =>
    rw [stated, Option.filter_eq_some_iff] at h
    obtain ⟨heq, hname⟩ := h
    cases heq
    rw [call, read, Option.filter_eq_some_iff]
    have hown := invokeInput_eq_iff (schemas (m.get 0)) (DialectRegex.param.matchAll (m.get 1))
    constructor
    · rintro ⟨heq, -⟩ -
      injection heq with heq
      injection heq with _ heq
      injection heq with heq
      exact hown.mp heq
    · intro h
      refine ⟨?_, hname⟩
      rw [hown.mpr (h rfl)]
  | function =>
    refine iff_of_true ?_ nofun
    rw [stated, Option.filter_eq_some_iff] at h
    obtain ⟨heq, hname⟩ := h
    obtain ⟨input, hinput, rfl⟩ := Option.map_eq_some_iff.mp heq
    rw [call, read, Option.filter_eq_some_iff]
    refine ⟨?_, hname⟩
    rw [objectPayload?] at hinput
    cases hpayload : Json.parse (m.get 1).trim with
    | none =>
      rw [hpayload] at hinput
      cases hinput
    | some payload =>
      rw [hpayload] at hinput
      cases payload with
      | obj fields =>
        cases hinput
        rfl
      | _ => cases hinput
  | deepSeek | kimi | toolCall => exact iff_of_true h nofun

end DialectForm

/-! ## Envelopes -/

namespace DialectForm

/-- The envelope of one call, from its opening to its closing delimiter. -/
def envelope : DialectForm → Regex
  | invoke =>
    DialectRegex.between
      (.seq (.lit (text "<")) <| .seq DialectRegex.dsml <| .seq (.lit (text "invoke")) <|
        .seq (Regex.plus isWhitespace) <| .seq (.lit (text "name=\"")) <|
        .seq (.rep true (· != 0x22)) <| .seq (.lit (text "\"")) <|
        .seq Regex.spaces (.lit (text ">")))
      (.seq (.lit (text "</")) (.seq DialectRegex.dsml (.lit (text "invoke>"))))
  | deepSeek =>
    DialectRegex.between
      (.alt (.lit (text "<｜tool▁call▁begin｜>")) (.lit (text "<｜tool▁sep｜>")))
      (.lit (text "<｜tool▁call▁end｜>"))
  | kimi =>
    DialectRegex.between (.lit (text "<|tool_call_begin|>")) (.lit (text "<|tool_call_end|>"))
  | toolCall => DialectRegex.toolCall
  | function => DialectRegex.function

theorem matched_ne_nil {f : DialectForm} {t : Text} {b : Regex.Placed} (h : b ∈ f.regex.places t) :
    b.found.matched ≠ [] := by
  obtain ⟨u, v, -, hm⟩ := Regex.isBlock_of_mem_matchAll (Regex.found_mem_matchAll h)
  obtain ⟨marker, hmarker, hin⟩ :=
    f.contains_marker v b.found (List.mem_of_mem_head? (Option.mem_def.mpr hm))
  intro hempty
  rw [hempty, List.infix_nil] at hin
  have hne : [] ∉ ALL_MARKERS := by decide
  exact hne (hin ▸ hmarker)

end DialectForm

/-- A block lies in an envelope, and ends with it. -/
def endsIn (e b : Regex.Placed) : Bool :=
  decide (e.start ≤ b.start) && decide (b.stop = e.stop)

/-- The prose, every code unit with its position in the text. -/
def proseUnits (t : Text) : List (CodeUnit × Nat) :=
  Text.trimOn Prod.fst
    (envelopeRegexes.foldl (fun units r => r.removeAllOn Prod.fst units) t.zipIdx)

theorem map_proseUnits (t : Text) : (proseUnits t).map Prod.fst = stripEnvelopes t := by
  rw [proseUnits, Text.map_trimOn, Regex.map_foldl_removeAllOn, stripEnvelopes]
  have hfst : t.zipIdx.map Prod.fst = t := by simp
  rw [hfst]

/-- Nothing of the envelope is left in the prose. -/
def Removed (t : Text) (e : Regex.Placed) : Prop :=
  ∀ unit ∈ proseUnits t, ¬ (e.start ≤ unit.2 ∧ unit.2 < e.stop)

instance (t : Text) (e : Regex.Placed) : Decidable (Removed t e) :=
  inferInstanceAs (Decidable (∀ unit ∈ proseUnits t, _))

section Envelopes

variable (schemas : ToolSchemas) (t : Text)

/-- The calls that an envelope contributed. -/
def callsOf (f : DialectForm) (e : Regex.Placed) : List DialectToolCall :=
  ((f.regex.places t).filter (endsIn e)).filterMap fun b => f.contribution schemas t b.found

/-- The envelope contributed exactly one call, which is the one it states. -/
def Conserved (f : DialectForm) (e : Regex.Placed) : Prop :=
  ∃ c, callsOf schemas t f e = [c] ∧
    ∃ b ∈ f.regex.places t, endsIn e b = true ∧ f.stated schemas b.found = some c

/-- The envelope is framed as its parser expects, it names a tool and its payload denotes an
object; and no other block of its form stops the parser. -/
def WellStated (f : DialectForm) (e : Regex.Placed) : Prop :=
  (∃ b ∈ f.regex.places t, endsIn e b = true ∧ (f.stated schemas b.found).isSome = true ∧
      f.Own b.found) ∧
    ∀ m ∈ f.regex.matchAll t, f.GoesOn m

instance (f : DialectForm) (e : Regex.Placed) : Decidable (WellStated schemas t f e) :=
  inferInstanceAs (Decidable (_ ∧ _))

theorem callsOf_eq {f : DialectForm} {e b : Regex.Placed} (hb : b ∈ f.regex.places t)
    (hends : endsIn e b = true) :
    callsOf schemas t f e = (f.contribution schemas t b.found).toList := by
  have hstop : ∀ a, endsIn e a = true → a.stop = e.stop := by
    intro a ha
    rw [endsIn, Bool.and_eq_true, decide_eq_true_eq, decide_eq_true_eq] at ha
    exact ha.2
  have honly : (f.regex.places t).filter (endsIn e) = [b] :=
    Regex.filter_places_eq (fun _ hc => DialectForm.matched_ne_nil hc) hb hends
      fun a ha => (hstop a ha).trans (hstop b hends).symm
  rw [callsOf, honly, List.filterMap_cons]
  cases f.contribution schemas t b.found <;> rfl

/-- **One envelope** is conserved exactly when it is well stated. -/
theorem conserved_iff (f : DialectForm) (e : Regex.Placed) :
    Conserved schemas t f e ↔ WellStated schemas t f e := by
  constructor
  · rintro ⟨c, hcalls, b, hb, hends, hstated⟩
    rw [callsOf_eq schemas t hb hends, Option.toList_eq_singleton_iff,
      DialectForm.contribution] at hcalls
    split at hcalls
    · rename_i hgo
      refine ⟨⟨b, hb, hends, ?_, (DialectForm.call_of_stated hstated).mp hcalls⟩, hgo⟩
      rw [hstated]
      rfl
    · cases hcalls
  · rintro ⟨⟨b, hb, hends, hsome, hown⟩, hgo⟩
    obtain ⟨c, hstated⟩ := Option.isSome_iff_exists.mp hsome
    refine ⟨c, ?_, b, hb, hends, hstated⟩
    rw [callsOf_eq schemas t hb hends, DialectForm.contribution, if_pos hgo,
      (DialectForm.call_of_stated hstated).mpr hown]
    rfl

end Envelopes

/-- **Conservation.** The prose is what the removal leaves of the text, and the calls are what the
blocks contribute. Every call envelope that is removed contributed exactly the one call it states,
exactly when every one is framed as its parser expects and filled with an object, and no block of
the same form stops the parser. -/
theorem recovered_calls_conserved_iff (t : Text) (schemas : ToolSchemas)
    (isDestructive : Text → Bool) (calls : List DialectToolCall) (prose dialect : Text)
    (h : recoverToolCalls t schemas isDestructive = .parsed calls prose dialect) :
    prose = (proseUnits t).map Prod.fst ∧
      (calls = DialectForm.all.flatMap fun f =>
        (f.regex.places t).filterMap fun b => f.contribution schemas t b.found) ∧
      ((∀ f : DialectForm, ∀ e ∈ f.envelope.places t, Removed t e → Conserved schemas t f e)
        ↔ ∀ f : DialectForm, ∀ e ∈ f.envelope.places t, Removed t e → WellStated schemas t f e) := by
  have hparsed : calls = namedCalls ((dialectScans t schemas).flatMap (·.calls)) ∧
      prose = stripEnvelopes t := by
    unfold recoverToolCalls at h
    split at h
    · cases h
    · dsimp only at h
      split at h
      · cases h
      · split at h
        · cases h
        · injection h with hcalls hprose _
          exact ⟨hcalls.symm, hprose.symm⟩
  refine ⟨?_, ?_, ?_⟩
  · rw [map_proseUnits]
    exact hparsed.2
  · rw [hparsed.1, recoveredCalls_eq]
  · simp only [conserved_iff]

/-- A call with an object as its payload. -/
def objectCallText : Text :=
  text "<function=Read>\x7b\x7d</function>"

/-- It is removed and conserved. -/
theorem object_call_conserved :
    proseUnits objectCallText = [] ∧
      ∀ f : DialectForm, ∀ e ∈ f.envelope.places objectCallText, Removed objectCallText e →
        Conserved (fun _ => none) objectCallText f e := by
  refine ⟨by decide +kernel, (recovered_calls_conserved_iff objectCallText (fun _ => none)
    (fun _ => false) [⟨text "Read", .obj []⟩] [] (text "functionary")
    (by decide +kernel)).2.2.mpr fun f => ?_⟩
  cases f <;> decide +kernel

/-- A call with an array as its payload. -/
def arrayCallText : Text :=
  text "<function=Read>[1]</function>"

/-- The array becomes the input of a call, though the envelope states no object. -/
theorem array_call_recovered :
    recoverToolCalls arrayCallText (fun _ => none) (fun _ => false)
        = .parsed [⟨text "Read", .arr [.num 1]⟩] [] (text "functionary") ∧
      ¬ ∀ f : DialectForm, ∀ e ∈ f.envelope.places arrayCallText, Removed arrayCallText e →
          Conserved (fun _ => none) arrayCallText f e := by
  refine ⟨by decide +kernel, fun hall => ?_⟩
  have hfunction := hall .function
  simp only [conserved_iff] at hfunction
  revert hfunction
  decide +kernel

end LlmRelay
