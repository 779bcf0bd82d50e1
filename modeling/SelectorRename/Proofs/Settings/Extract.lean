/-
  What the settings of an extraction are read from.

  * `ExtractSettings.asText?` and the like: what a value of the right type holds.
  * `ExtractSettings.settingOr`, `ExtractSettings.warning`: one setting for itself.
  * `Agree`: a check lets through exactly the values that the strict reader of the field can read.
    Hence strict reading never fails on what the checks leave (`Agree.optional`,
    `Shape.members_eq_ok`).
  * `ExtractSettings.ofJson_eq`: the settings of a value, each one for itself, or the first text that
    is missing.
-/
import SelectorRename.Proofs.Json.Settled
import SelectorRename.Settings.Extract

namespace SelectorRename

/-! ## Members by name -/

namespace Json

theorem member?_ofMembers (settings : List (String × Json)) (name : String) :
    member? (settings.map fun m => (some m.1, m.2)) name = settings.lookup name := by
  rw [member?]
  induction settings with
  | nil => rfl
  | cons m settings ih =>
    have hkey : (some name == some m.1) = (name == m.1) := rfl
    rw [List.map_cons, List.lookup_cons, List.lookup_cons, hkey, ih]

end Json

/-- A record can be read if every field can that is there. -/
theorem Shape.members_eq_ok {fields : Shape.Fields} {settings : List (String × Json)}
    {seen : List String} (hnodup : (settings.map Prod.fst).Nodup)
    (hseen : ∀ m ∈ settings, m.1 ∉ seen)
    (h : ∀ f ∈ fields, ∀ v, settings.lookup f.1 = some v → f.2 v = .ok ()) :
    Shape.members fields seen (settings.map fun m => (some m.1, m.2)) = .ok () := by
  induction settings generalizing seen with
  | nil => rfl
  | cons m settings ih =>
    obtain ⟨name, v⟩ := m
    rw [List.map_cons, List.nodup_cons] at hnodup
    have hrest : ∀ f ∈ fields, ∀ v, settings.lookup f.1 = some v → f.2 v = .ok () := by
      intro f hf v' hv'
      refine h f hf v' ?_
      rw [lookup_cons_ite, if_neg]
      · exact hv'
      · rintro rfl
        exact hnodup.1 (List.mem_map.2 ⟨_, mem_of_lookup_eq_some hv', rfl⟩)
    have hnew : ∀ m ∈ settings, m.1 ≠ name := by
      rintro m hm rfl
      exact hnodup.1 (List.mem_map.2 ⟨m, hm, rfl⟩)
    rw [List.map_cons, Shape.members]
    split
    next => exact ih hnodup.2 (fun m hm => hseen m (List.mem_cons_of_mem _ hm)) hrest
    next shape hfield =>
      have hread : shape v = .ok () := h (name, shape) (mem_of_lookup_eq_some hfield) v (by simp)
      rw [if_neg (hseen _ (List.mem_cons_self ..)), hread]
      refine ih hnodup.2 (fun m hm => ?_) hrest
      rw [List.mem_cons, not_or]
      exact ⟨hnew m hm, hseen m (List.mem_cons_of_mem _ hm)⟩

/-! ## Values of the right type -/

namespace ExtractSettings

/-- A truth value. -/
def asBool? : Json → Option Bool
  | .bool b => some b
  | _ => none

/-- A text. -/
def asText? : Json → Option String
  | .text s => s
  | _ => none

/-- A natural number of 64 bits. -/
def asNat64? : Json → Option Nat
  | .number n => n.toNat64?
  | _ => none

/-- A list of texts. -/
def asTexts? : Json → Option (List String)
  | .array items => items.mapM asText?
  | _ => none

/-- An object, by its members. -/
def asObject? : Json → Option (List (Option String × Json))
  | .object ms => some ms
  | _ => none

/-- The label of a form of display. -/
def asProgressKind? (v : Json) : Option ProgressKind := (asText? v).bind ProgressKind.ofLabel?

/-! ## One setting for itself -/

/-- The value of a setting, or its default if it is missing or has the wrong type. -/
def settingOr {α : Type} (v : Json) (name : String) (read? : Json → Option α) (otherwise : α) : α :=
  ((v.get? name).bind read?).getD otherwise

/-- The warning about a setting that is there with the wrong type. -/
def warning {α : Type} (v : Json) (scope name : String) (read? : Json → Option α) : List Message :=
  match v.get? name with
  | some found => if (read? found).isSome then [] else [.mistypedSetting scope name]
  | none => []

/-- The settings of the display. -/
def progressOf (v : Json) : ProgressSettings where
  logging := settingOr v "logging" asBool? true
  heading := settingOr v "prefix" asText? "Extract"
  displayFilename := settingOr v "displayFilename" asBool? true
  displayPercentage := settingOr v "displayPercentage" asBool? true
  kind := settingOr v "type" asProgressKind? .bar
  barBg := settingOr v "barBg" asText? "bgWhite"

/-- The warnings about the settings of the display. -/
def progressWarnings (v : Json) : List Message :=
  warning v "logger." "logging" asBool? ++ warning v "logger." "prefix" asText? ++
    warning v "logger." "displayFilename" asBool? ++
    warning v "logger." "displayPercentage" asBool? ++
    warning v "logger." "type" asProgressKind? ++ warning v "logger." "barBg" asText?

/-- All warnings about a value, in the order of its settings. -/
def warnings (v : Json) : List Message :=
  warning v "" "path" asText? ++ warning v "" "restModulo" asNat64? ++
    warning v "" "restTime" asNat64? ++ warning v "" "ignore" asTexts? ++
    warning v "" "logger" asObject? ++ warning v "" "displayResult" asBool? ++
    progressWarnings ((v.get? "logger").getD .null)

/-! ## Checks and strict readers -/

/-- A check lets through what a value of the right type is, and the strict reader reads it. -/
structure Agree {α : Type} (check : Check) (read? : Json → Option α) (shape : Shape α) : Prop where
  check_eq (v : Json) : check v = (read? v).isSome
  shape_eq (v : Json) (a : α) : read? v = some a → shape v = .ok a

theorem agree_bool : Agree isBool asBool? Shape.boolean where
  check_eq v := by cases v <;> rfl
  shape_eq v a h := by
    cases v <;> cases h
    rfl

theorem agree_text : Agree isText asText? Shape.string where
  check_eq v := by cases v <;> rfl
  shape_eq v a h := by
    cases v <;> cases h
    rfl

theorem agree_nat64 (type : String) : Agree isNat64 asNat64? (Shape.word type) where
  check_eq v := by cases v <;> rfl
  shape_eq v a h := by
    cases v with
    | number n =>
      have hn : n.toNat64? = some a := h
      simp [Shape.word, hn]
    | _ => cases h

theorem agree_orNull (type : String) :
    Agree isNat64 (fun v => (asNat64? v).map some) (Shape.orNull (Shape.word type)) where
  check_eq v := by rw [Option.isSome_map]; exact (agree_nat64 type).check_eq v
  shape_eq v a h := by
    obtain ⟨k, hk, rfl⟩ := Option.map_eq_some_iff.1 h
    have hread := (agree_nat64 type).shape_eq v k hk
    cases v with
    | null => cases hk
    | _ => rw [Shape.orNull]; all_goals simp [hread, Except.map]

theorem agree_texts : Agree isTexts asTexts? (Shape.list Shape.string) where
  check_eq v := by
    cases v with
    | array items =>
      show items.all isText = (items.mapM asText?).isSome
      induction items with
      | nil => rfl
      | cons v items ih =>
        rw [List.all_cons, ih, agree_text.check_eq, List.mapM_cons]
        cases asText? v <;> cases items.mapM asText? <;> rfl
    | _ => rfl
  shape_eq v a h := by
    cases v with
    | array items =>
      show items.mapM Shape.string = .ok a
      have hread : items.mapM asText? = some a := h
      clear h
      induction items generalizing a with
      | nil => cases hread; rfl
      | cons v items ih =>
        rw [List.mapM_cons] at hread ⊢
        obtain ⟨s, hs, hread⟩ := Option.bind_eq_some_iff.1 hread
        obtain ⟨rest, hrest, hread⟩ := Option.bind_eq_some_iff.1 hread
        cases hread
        rw [agree_text.shape_eq v s hs, ih rest hrest]
        rfl
    | _ => cases h

theorem isObject_eq (v : Json) : isObject v = (asObject? v).isSome := by
  cases v <;> rfl

theorem agree_progressKind : Agree isProgressKind asProgressKind? ProgressKind.shape where
  check_eq v := by
    cases v with
    | text s => cases s <;> rfl
    | _ => rfl
  shape_eq v a h := by
    cases v with
    | text s =>
      cases s with
      | none => cases h
      | some s =>
        have hkind : ProgressKind.ofLabel? s = some a := h
        simp [ProgressKind.shape, Shape.label, hkind]
    | _ => cases h

section
variable {α : Type} {check : Check} {read? : Json → Option α} {shape : Shape α}
  {settings : List (String × Json)} {v : Json} {name : String}

/-- What was checked is read, and what was taken away has its default. -/
theorem Agree.optional (h : Agree check read? shape)
    (hchecked : settings.lookup name = (v.get? name).filter check) (otherwise : α) :
    Shape.optional (settings.map fun m => (some m.1, m.2)) name shape otherwise =
      .ok (settingOr v name read? otherwise) := by
  rw [Shape.optional, Json.member?_ofMembers, hchecked, settingOr]
  cases v.get? name with
  | none => rfl
  | some x =>
    rw [Option.filter_some, h.check_eq, Option.bind_some]
    cases hx : read? x with
    | none => rfl
    | some a => exact h.shape_eq x a hx

theorem Agree.field (h : Agree check read? shape)
    (hchecked : settings.lookup name = (v.get? name).filter check) :
    ∀ x, settings.lookup name = some x → (Shape.field name shape).2 x = .ok () := by
  intro x hx
  rw [hchecked, Option.filter_eq_some_iff, h.check_eq, Option.isSome_iff_exists] at hx
  obtain ⟨-, a, ha⟩ := hx
  show (shape x).map (fun _ => ()) = .ok ()
  rw [h.shape_eq x a ha]
  rfl

theorem required_text {s : String} (h : settings.lookup name = some (.ofString s)) :
    Shape.required (settings.map fun m => (some m.1, m.2)) name Shape.string = .ok s := by
  rw [Shape.required, Json.member?_ofMembers, h]
  rfl

theorem field_text {s : String} (h : settings.lookup name = some (.ofString s)) :
    ∀ x, settings.lookup name = some x → (Shape.field name Shape.string).2 x = .ok () := by
  intro x hx
  rw [h] at hx
  cases hx
  rfl

theorem warning_eq (h : ∀ x, check x = (read? x).isSome) (scope : String) :
    (if (v.get? name).any (!check ·) then [Message.mistypedSetting scope name] else []) =
      warning v scope name read? := by
  rw [warning]
  cases v.get? name with
  | none => rfl
  | some x =>
    simp only [Option.any_some, h]
    cases (read? x).isSome <;> rfl

end

/-! ## What the checks leave -/

section
variable (scope : String) (checks : List (String × Check)) (settings : List (String × Json))

theorem dropMistyped_sublist : (dropMistyped scope checks settings).1.Sublist settings := by
  induction checks generalizing settings with
  | nil => exact List.Sublist.refl _
  | cons c checks ih =>
    rw [dropMistyped]
    split
    · exact (ih _).trans List.filter_sublist
    · exact ih _

/-- A setting keeps its value if that passes every check of its name. -/
theorem lookup_dropMistyped (name : String) :
    (dropMistyped scope checks settings).1.lookup name =
      (settings.lookup name).filter fun v => checks.all fun c => c.1 ≠ name || c.2 v := by
  induction checks generalizing settings with
  | nil => cases hv : settings.lookup name <;> simp [dropMistyped, hv, Option.filter_some]
  | cons c checks ih =>
    obtain ⟨other, check⟩ := c
    by_cases hname : other = name
    · subst hname
      have hall : ∀ v, (((other, check) :: checks).all fun c => c.1 ≠ other || c.2 v) =
          (check v && checks.all fun c => c.1 ≠ other || c.2 v) := by simp
      simp only [hall]
      rw [dropMistyped]
      cases hv : settings.lookup other with
      | none => simp [ih, hv]
      | some v =>
        rw [Option.any_some, Option.filter_some]
        cases hcheck : check v with
        | false =>
          show (dropMistyped scope checks _).1.lookup other = _
          rw [ih, lookup_filter_ne, if_pos rfl]
          rfl
        | true =>
          show (dropMistyped scope checks settings).1.lookup other = _
          rw [ih, hv, Option.filter_some, Bool.true_and]
    · have hall : ∀ v, (((other, check) :: checks).all fun c => c.1 ≠ name || c.2 v) =
          checks.all fun c => c.1 ≠ name || c.2 v := by simp [hname]
      simp only [hall]
      rw [dropMistyped]
      split
      · show (dropMistyped scope checks _).1.lookup name = _
        rw [ih, lookup_filter_ne, if_neg (Ne.symm hname)]
      · exact ih _

/-- There is a warning for each field whose value fails the check, in the order of the fields. -/
theorem log_dropMistyped (hnodup : (checks.map Prod.fst).Nodup) :
    (dropMistyped scope checks settings).2 = checks.flatMap fun c =>
      if (settings.lookup c.1).any (!c.2 ·) then [.mistypedSetting scope c.1] else [] := by
  induction checks generalizing settings with
  | nil => rfl
  | cons c checks ih =>
    rw [List.map_cons, List.nodup_cons] at hnodup
    rw [dropMistyped, List.flatMap_cons]
    split
    next hbad =>
      show _ :: (dropMistyped scope checks _).2 = _
      rw [ih _ hnodup.2, List.singleton_append]
      congr 1
      refine List.flatMap_congr fun c' hc' => ?_
      have hne : c'.1 ≠ c.1 := fun heq => hnodup.1 (heq ▸ List.mem_map_of_mem hc')
      rw [lookup_filter_ne, if_neg hne]
    next => exact ih _ hnodup.2

end

/-- The settings of the display are read strictly as they were found, each one for itself. -/
theorem shape_display {v : Json} (hnodup : (v.named.map Prod.fst).Nodup) :
    ProgressSettings.shape (.ofMembers (dropMistyped "logger." loggerFields v.named).1) =
      .ok (progressOf v) := by
  set kept := (dropMistyped "logger." loggerFields v.named).1 with hkept
  have hkeys : (kept.map Prod.fst).Nodup :=
    hnodup.sublist ((dropMistyped_sublist ..).map _)
  have hchecked : ∀ name check, (∀ x, (loggerFields.all fun c => c.1 ≠ name || c.2 x) = check x) →
      kept.lookup name = (v.get? name).filter check := by
    intro name check hcheck
    rw [hkept, lookup_dropMistyped, Json.lookup_named, funext hcheck]
  have logging := hchecked "logging" isBool fun x => by simp [loggerFields]
  have heading := hchecked "prefix" isText fun x => by simp [loggerFields]
  have filename := hchecked "displayFilename" isBool fun x => by simp [loggerFields]
  have percentage := hchecked "displayPercentage" isBool fun x => by simp [loggerFields]
  have kind := hchecked "type" isProgressKind fun x => by simp [loggerFields]
  have barBg := hchecked "barBg" isText fun x => by simp [loggerFields]
  have hmembers : Shape.members ProgressSettings.fields [] (kept.map fun m => (some m.1, m.2)) =
      .ok () := by
    refine Shape.members_eq_ok hkeys (by simp) ?_
    simp only [ProgressSettings.fields, List.forall_mem_cons]
    exact ⟨agree_bool.field logging, agree_text.field heading, agree_bool.field filename,
      agree_bool.field percentage, agree_progressKind.field kind, agree_text.field barBg, by simp⟩
  rw [Json.ofMembers, ProgressSettings.shape, hmembers, agree_bool.optional logging,
    agree_text.optional heading, agree_bool.optional filename, agree_bool.optional percentage,
    agree_progressKind.optional kind, agree_text.optional barBg]
  rfl

theorem log_display (v : Json) :
    (dropMistyped "logger." loggerFields v.named).2 = progressWarnings v := by
  rw [log_dropMistyped _ _ _ (by decide)]
  simp only [loggerFields, List.flatMap_cons, List.flatMap_nil, Json.lookup_named,
    warning_eq agree_bool.check_eq, warning_eq agree_text.check_eq,
    warning_eq agree_progressKind.check_eq]
  simp only [progressWarnings, List.append_assoc, List.append_nil]

/-! ## All settings -/

/-- What is left of the settings in a value after all checks. -/
structure Checked (v : Json) (settings : List (String × Json)) : Prop where
  nodup : (settings.map Prod.fst).Nodup
  lookup_eq (name : String) : name ≠ "logger" →
    settings.lookup name =
      (v.get? name).filter fun x => optionalFields.all fun c => c.1 ≠ name || c.2 x
  display (x : Json) : settings.lookup "logger" = some x →
    ProgressSettings.shape x = .ok (progressOf ((v.get? "logger").getD .null))
  noDisplay : settings.lookup "logger" = none → progressOf ((v.get? "logger").getD .null) = {}

theorem lookup_logger (v : Json) :
    (dropMistyped "" optionalFields v.named).1.lookup "logger" = (v.get? "logger").filter isObject := by
  rw [lookup_dropMistyped, Json.lookup_named]
  congr 1
  funext x
  simp [optionalFields]

theorem object_or_not (v : Json) :
    (∃ ms, v.get? "logger" = some (.object ms)) ∨ (v.get? "logger").filter isObject = none := by
  cases hv : v.get? "logger" with
  | none => exact Or.inr rfl
  | some x =>
    cases x with
    | object ms => exact Or.inl ⟨ms, rfl⟩
    | _ => exact Or.inr rfl

theorem dropAllMistyped_of_object {v : Json} {ms : List (Option String × Json)}
    (h : v.get? "logger" = some (.object ms)) :
    dropAllMistyped v.named =
      ((dropMistyped "" optionalFields v.named).1.map fun s =>
          if s.1 = "logger" then
            (s.1, .ofMembers (dropMistyped "logger." loggerFields (Json.object ms).named).1)
          else s,
        (dropMistyped "" optionalFields v.named).2 ++
          (dropMistyped "logger." loggerFields (Json.object ms).named).2) := by
  have hlogger : (dropMistyped "" optionalFields v.named).1.lookup "logger" = some (.object ms) := by
    rw [lookup_logger, h]
    rfl
  rw [dropAllMistyped]
  simp only [hlogger]

theorem dropAllMistyped_of_not_object {v : Json} (h : (v.get? "logger").filter isObject = none) :
    dropAllMistyped v.named = dropMistyped "" optionalFields v.named := by
  rw [← lookup_logger] at h
  rw [dropAllMistyped]
  simp only [h]

/-- What is no object has no settings of the display. -/
theorem get?_display_of_not_object {v : Json} (h : (v.get? "logger").filter isObject = none)
    (name : String) : ((v.get? "logger").getD .null).get? name = none := by
  cases hv : v.get? "logger" with
  | none => rfl
  | some x =>
    rw [hv, Option.filter_some] at h
    cases x with
    | object ms => cases h
    | _ => rfl

theorem checked_dropAllMistyped {v : Json} (hnodup : (v.named.map Prod.fst).Nodup)
    (hdisplay : ∀ x, v.get? "logger" = some x → (x.named.map Prod.fst).Nodup) :
    Checked v (dropAllMistyped v.named).1 := by
  have hkeys : ((dropMistyped "" optionalFields v.named).1.map Prod.fst).Nodup :=
    hnodup.sublist ((dropMistyped_sublist ..).map _)
  have hlookup : ∀ name, (dropMistyped "" optionalFields v.named).1.lookup name =
      (v.get? name).filter fun x => optionalFields.all fun c => c.1 ≠ name || c.2 x := by
    intro name
    rw [lookup_dropMistyped, Json.lookup_named]
  rcases object_or_not v with ⟨ms, hms⟩ | hnone
  · rw [dropAllMistyped_of_object hms]
    refine ⟨?_, fun name hname => ?_, fun x hx => ?_, fun hnone => ?_⟩
    · rw [List.map_map]
      convert hkeys using 2
      funext s
      simp only [Function.comp]
      split_ifs <;> rfl
    · rw [lookup_map_replace, if_neg hname]
      exact hlookup name
    · rw [lookup_map_replace, if_pos rfl, lookup_logger, hms] at hx
      cases hx
      rw [hms]
      exact shape_display (hdisplay _ hms)
    · rw [lookup_map_replace, if_pos rfl, lookup_logger, hms] at hnone
      cases hnone
  · rw [dropAllMistyped_of_not_object hnone]
    refine ⟨hkeys, fun name _ => hlookup name, fun x hx => ?_, fun _ => ?_⟩
    · rw [lookup_logger, hnone] at hx
      cases hx
    · simp only [progressOf, settingOr, get?_display_of_not_object hnone]
      rfl

theorem log_dropAllMistyped (v : Json) : (dropAllMistyped v.named).2 = warnings v := by
  have hlog : (dropMistyped "" optionalFields v.named).2 =
      warning v "" "path" asText? ++ warning v "" "restModulo" asNat64? ++
        warning v "" "restTime" asNat64? ++ warning v "" "ignore" asTexts? ++
        warning v "" "logger" asObject? ++ warning v "" "displayResult" asBool? := by
    rw [log_dropMistyped _ _ _ (by decide)]
    simp only [optionalFields, List.flatMap_cons, List.flatMap_nil, Json.lookup_named,
      warning_eq agree_bool.check_eq, warning_eq agree_text.check_eq,
      warning_eq (agree_nat64 "").check_eq, warning_eq agree_texts.check_eq, warning_eq isObject_eq,
      List.append_assoc, List.append_nil]
  rw [warnings, ← hlog]
  rcases object_or_not v with ⟨ms, hms⟩ | hnone
  · rw [dropAllMistyped_of_object hms, hms, ← log_display]
    rfl
  · rw [dropAllMistyped_of_not_object hnone]
    simp only [progressWarnings, warning, get?_display_of_not_object hnone, List.append_nil]

/-- The text of a setting. -/
def textAt? (v : Json) (name : String) : Option String := (v.get? name).bind asText?

/-- The settings in a value, each one for itself, beside the three texts. -/
def given (v : Json) (data outputCss outputJs : String) : ExtractSettings where
  path := settingOr v "path" asText? ""
  outputCss := outputCss
  outputJs := outputJs
  data := data
  restModulo := settingOr v "restModulo" asNat64? 1000
  restTime := (v.get? "restTime").bind asNat64?
  ignore := settingOr v "ignore" asTexts? []
  logger := progressOf ((v.get? "logger").getD .null)
  displayResult := settingOr v "displayResult" asBool? false

theorem Checked.required {v : Json} {settings : List (String × Json)} (h : Checked v settings)
    {name s : String} (hname : name ∈ required) (hs : textAt? v name = some s) :
    settings.lookup name = some (.ofString s) := by
  obtain ⟨x, hx, htext⟩ := Option.bind_eq_some_iff.1 hs
  have hxs : x = .ofString s := by
    cases x with
    | text t => rw [show t = some s from htext]; rfl
    | _ => cases htext
  have hfree : name ≠ "logger" ∧ ∀ c ∈ optionalFields, c.1 ≠ name := by
    simp only [ExtractSettings.required, List.mem_cons, List.not_mem_nil, or_false] at hname
    rcases hname with rfl | rfl | rfl <;> simp [optionalFields]
  rw [h.lookup_eq name hfree.1, hx, hxs, Option.filter_some, if_pos]
  simp only [List.all_eq_true, Bool.or_eq_true, decide_eq_true_eq]
  exact fun c hc => Or.inl (hfree.2 c hc)

/-- **What the checks leave is read strictly**, without a fault. -/
theorem Checked.shape_eq {v : Json} {settings : List (String × Json)} (h : Checked v settings)
    {data outputCss outputJs : String} (hdata : textAt? v "data" = some data)
    (hcss : textAt? v "outputCss" = some outputCss) (hjs : textAt? v "outputJs" = some outputJs) :
    shape (.ofMembers settings) = .ok (given v data outputCss outputJs) := by
  have hchecked : ∀ name check, name ≠ "logger" →
      (∀ x, (optionalFields.all fun c => c.1 ≠ name || c.2 x) = check x) →
      settings.lookup name = (v.get? name).filter check := by
    intro name check hname hcheck
    rw [h.lookup_eq name hname, funext hcheck]
  have path := hchecked "path" isText (by decide) fun x => by simp [optionalFields]
  have modulo := hchecked "restModulo" isNat64 (by decide) fun x => by simp [optionalFields]
  have time := hchecked "restTime" isNat64 (by decide) fun x => by simp [optionalFields]
  have ignore := hchecked "ignore" isTexts (by decide) fun x => by simp [optionalFields]
  have result := hchecked "displayResult" isBool (by decide) fun x => by simp [optionalFields]
  have dataText := h.required (by simp [ExtractSettings.required]) hdata
  have cssText := h.required (by simp [ExtractSettings.required]) hcss
  have jsText := h.required (by simp [ExtractSettings.required]) hjs
  have logger : Shape.optional (settings.map fun m => (some m.1, m.2)) "logger"
      ProgressSettings.shape {} = .ok (progressOf ((v.get? "logger").getD .null)) := by
    rw [Shape.optional, Json.member?_ofMembers]
    cases hx : settings.lookup "logger" with
    | none => rw [h.noDisplay hx]
    | some x => exact h.display x hx
  have hmembers : Shape.members fields [] (settings.map fun m => (some m.1, m.2)) = .ok () := by
    refine Shape.members_eq_ok h.nodup (by simp) ?_
    simp only [fields, List.forall_mem_cons]
    refine ⟨agree_text.field path, field_text cssText, field_text jsText, field_text dataText,
      (agree_nat64 _).field modulo, (agree_orNull _).field time, agree_texts.field ignore,
      fun x hx => ?_, agree_bool.field result, by simp⟩
    show (ProgressSettings.shape x).map (fun _ => ()) = .ok ()
    rw [h.display x hx]
    rfl
  have htime : settingOr v "restTime" (fun x => (asNat64? x).map some) none =
      (v.get? "restTime").bind asNat64? := by
    rw [settingOr]
    cases v.get? "restTime" with
    | none => rfl
    | some x => cases hx : asNat64? x <;> simp [hx]
  rw [Json.ofMembers, shape, hmembers, agree_text.optional path, required_text cssText,
    required_text jsText, required_text dataText, (agree_nat64 _).optional modulo,
    (agree_orNull _).optional time, agree_texts.optional ignore, logger, agree_bool.optional result,
    htime]
  rfl

theorem requireTexts_cons (v : Json) (name : String) (rest : List String) :
    requireTexts v (name :: rest) =
      if (textAt? v name).isSome then requireTexts v rest else .error (.notText name) := by
  have hcheck : (v.get? name).any isText = (textAt? v name).isSome := by
    rw [textAt?]
    cases v.get? name with
    | none => rfl
    | some x => exact agree_text.check_eq x
  rw [requireTexts, hcheck]

/-- **The settings of a value**: the first text that is missing is the fault, and there is no other
    one. With the three texts each other setting has the value that is given for it, or its default if
    there is none or it has the wrong type; there is a warning for each of the latter. -/
theorem ofJson_eq (v : Json) :
    ofJson v =
      match textAt? v.settle "data", textAt? v.settle "outputCss", textAt? v.settle "outputJs" with
      | none, _, _ => .error (.notText "data")
      | some _, none, _ => .error (.notText "outputCss")
      | some _, some _, none => .error (.notText "outputJs")
      | some data, some outputCss, some outputJs =>
        .ok (given v.settle data outputCss outputJs, warnings v.settle) := by
  have hnodup := v.nodup_named_settle
  have hdisplay : ∀ x, v.settle.get? "logger" = some x → (x.named.map Prod.fst).Nodup := by
    intro x hx
    rw [Json.get?_settle] at hx
    obtain ⟨u, -, rfl⟩ := Option.map_eq_some_iff.1 hx
    exact u.nodup_named_settle
  have hchecked := checked_dropAllMistyped hnodup hdisplay
  have hlog := log_dropAllMistyped v.settle
  rw [ofJson, required, requireTexts_cons, requireTexts_cons, requireTexts_cons, requireTexts]
  cases hdata : textAt? v.settle "data" with
  | none => rfl
  | some data =>
    cases hcss : textAt? v.settle "outputCss" with
    | none => rfl
    | some outputCss =>
      cases hjs : textAt? v.settle "outputJs" with
      | none => rfl
      | some outputJs =>
        have hshape := hchecked.shape_eq hdata hcss hjs
        rcases hdrop : dropAllMistyped v.settle.named with ⟨settings, log⟩
        rw [hdrop] at hshape hlog
        simp only [Option.isSome_some, if_true, hshape, ← hlog]
        rfl

end ExtractSettings

end SelectorRename
