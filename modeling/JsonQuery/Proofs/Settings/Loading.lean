import JsonQuery.Proofs.Json.Numbers
import JsonQuery.Proofs.Settings.Files
import JsonQuery.Proofs.Settings.Reading

/-! Settings from layers. What is given directly lies over what the environment holds, that over the file of the project
    and that over the file of the user. Settings that are loaded have for each of them what the highest layer holds that
    holds anything for it, or the default; what lower layers hold for it is not seen. It is seen in two ways only: an
    object that is refused comes with the members that lower layers add to it, and the variable of the expression keys
    has to be readable even where something higher is held for them. Where names are spelled plainly, the environment
    holds what the variable of a setting says, or else what the JSON of its section holds. -/

namespace JsonQuery.Settings

open Layer (Regular sectionNames)
open Members (get?)

variable {readers : Readers} {given : Members Json} {s : Surroundings}

theorem findSome?_id_cons {α : Type} (o : Option α) (os : List (Option α)) :
    (o :: os).findSome? id = o.or (os.findSome? id) := by
  cases o <;> rfl

/-- The members of the layer that variables make up; none if there is no such layer. -/
def environmentMembers (readers : Readers) (vars : Variables) : Members Json :=
  (environmentLayer readers vars).toOption.getD []

/-- What each layer holds for a setting, the highest first. -/
def heldInLayers (readers : Readers) (given : Members Json) (s : Surroundings) (x : Setting) : List (Option Json) :=
  [x.held fun name => get? name (readers.given given),
    x.held fun name => get? name (environmentMembers readers s.environment),
    x.held fun name => get? name (fileMembers readers s.project),
    x.held fun name => get? name (fileMembers readers s.user)]

/-- What the highest layer holds that holds anything for a setting. -/
def highest? (readers : Readers) (given : Members Json) (s : Surroundings) (x : Setting) : Option Json :=
  (heldInLayers readers given s x).findSome? id

/-- What comes first of what is held for a setting by that which is given directly, by its variable, by the JSON of its
    section, by the file of the project and by the file of the user. -/
def first? (readers : Readers) (given : Members Json) (s : Surroundings) (x : Setting) : Option Json :=
  [x.held fun name => get? name given, Variables.own? s.environment x, Variables.inSection? s.environment x,
    x.held fun name => get? name (fileMembers readers s.project),
    x.held fun name => get? name (fileMembers readers s.user)].findSome? id

/-- Sections that are there are objects, in what is given, in the JSON of the environment and in the files; and the
    files are not there, are passed over or hold objects. -/
structure Layered (readers : Readers) (given : Members Json) (s : Surroundings) : Prop where
  distinct : given.Distinct
  given : ∀ name ∈ sectionNames, ∀ v, get? name (readers.given given) = some v →
    ∃ ms : Members Json, v = .object ms ∧ ms.Distinct
  environment : Variables.SectionsAreObjects s.environment
  project : HoldsLayer readers s.project
  user : HoldsLayer readers s.user

instance : Decidable (Layered readers given s) :=
  decidable_of_iff (given.Distinct ∧ (∀ name ∈ sectionNames, ∀ v ∈ get? name (readers.given given),
      ∃ ms : Members Json, v = .object ms ∧ ms.Distinct) ∧
      Variables.SectionsAreObjects s.environment ∧ HoldsLayer readers s.project ∧ HoldsLayer readers s.user)
    ⟨fun ⟨hdistinct, hgiven, henvironment, hproject, huser⟩ => ⟨hdistinct, hgiven, henvironment, hproject, huser⟩,
      fun h => ⟨h.distinct, h.given, h.environment, h.project, h.user⟩⟩

namespace Layered

theorem regular_given (h : Layered readers given s) (hlaws : readers.Laws) : Regular (readers.given given) :=
  ⟨hlaws.given h.distinct, h.given⟩

theorem regular_environment (h : Layered readers given s) (hlaws : readers.Laws) :
    Regular (environmentMembers readers s.environment) := by
  rw [environmentMembers]
  cases htop : environmentLayer readers s.environment with
  | error part => exact .nil
  | ok top => exact hlaws.environment.regular h.environment htop

/-- Layers that are laid one below the other hold for each setting what the highest holds that holds anything, but for
    members of objects. -/
theorem build_eq (h : Layered readers given s) (hlaws : readers.Laws) :
    (Variables.Readable s.environment → ∃ ms, Regular ms ∧
      (build readers given s).outcome = (ofMembers readers ms).mapError .invalid ∧
      ∀ x : Setting, (x.held fun name => get? name ms).map Value.outline =
        (highest? readers given s x).map Value.outline) ∧
    (¬ Variables.Readable s.environment → (build readers given s).outcome = .error (.undecodable "validation")) := by
  have hfiles : (fileValues readers s).outcome =
      .ok [.object (fileMembers readers s.project), .object (fileMembers readers s.user)] := by
    rw [fileValues, h.project.outcome]
    dsimp only
    rw [h.user.outcome]
    rfl
  have hmerge : (fileValues readers s).outcome.bind (merge readers given s.environment) =
      merge readers given s.environment
        [.object (fileMembers readers s.project), .object (fileMembers readers s.user)] := by
    rw [hfiles]
    rfl
  constructor
  · intro hread
    obtain ⟨top, htop⟩ := hlaws.environment.readable h.environment hread
    have hmembers : environmentMembers readers s.environment = top := by rw [environmentMembers, htop]; rfl
    have hupper := (h.regular_given hlaws).overlay (h.regular_environment hlaws)
    have hmiddle := hupper.overlay (h.project.regular hlaws)
    refine ⟨_, hmiddle.overlay (h.user.regular hlaws), ?_, fun x => ?_⟩
    · rw [build, hmerge, merge, htop, hmembers]
      rfl
    · rw [Layer.held_overlay hmiddle (h.user.regular hlaws), Option.map_or,
        Layer.held_overlay hupper (h.project.regular hlaws), Option.map_or,
        Layer.held_overlay (h.regular_given hlaws) (h.regular_environment hlaws), highest?, heldInLayers]
      simp only [findSome?_id_cons, List.findSome?_nil, Option.or_none, Option.map_or, Option.or_assoc]
  · intro hread
    rw [build, hmerge, merge, hlaws.environment.unreadable h.environment hread]

/-- Where names are spelled plainly the highest layer holds what comes first, but for members of objects. -/
theorem highest?_eq_first? (h : Layered readers given s) (hlaws : readers.Laws)
    (hread : Variables.Readable s.environment) {x : Setting} (hgiven : Plain given x.name)
    (hvars : Variables.Plain s.environment x) :
    (highest? readers given s x).map Value.outline = (first? readers given s x).map Value.outline := by
  have hnamed : get? x.name (readers.given given) = get? x.name given :=
    hlaws.named h.distinct (by cases x <;> decide) hgiven
  have hheld : (x.held fun name => get? name (readers.given given)) = x.held fun name => get? name given := by
    cases x with
    | depth => exact congrArg (Option.bind · _) hnamed
    | keys => exact congrArg (Option.bind · _) hnamed
    | verbosity => exact hnamed
  obtain ⟨top, htop⟩ := hlaws.environment.readable h.environment hread
  have hmembers : environmentMembers readers s.environment = top := by rw [environmentMembers, htop]; rfl
  have htop := hlaws.environment.held h.environment htop hvars
  rw [← hmembers] at htop
  rw [highest?, first?, heldInLayers, hheld]
  simp only [findSome?_id_cons, ← @Option.or_assoc _ (Variables.own? s.environment x), Option.map_or] at htop ⊢
  rw [htop]

end Layered

/-- Settings that are built or loaded have for each of them what the highest layer holds that holds anything, as it is
    read, or the default. If the same is the highest in two runs, but for members of objects and whatever is held below
    it, the outcomes are the same, but for the members of an object that is refused; unless the variable of the
    expression keys is not readable, which is an error whatever else is held. Where names are spelled plainly the
    highest is what comes first among what is given directly, the variable of the setting, the JSON of its section and
    the files. -/
theorem build_takes_highest (hlaws : readers.Laws) (h : Layered readers given s) :
    (∀ r, (build readers given s).outcome = .ok r →
      (∀ x, Takes readers r x (highest? readers given s x) ∧
        (Plain given x.name → Variables.Plain s.environment x → Takes readers r x (first? readers given s x))) ∧
      1 ≤ r.maxDepth ∧ r.maxDepth ≤ 256) ∧
    (∀ given' s', Layered readers given' s' →
      (∀ x, (highest? readers given s x).map Value.outline = (highest? readers given' s' x).map Value.outline) →
      (Variables.Readable s.environment ↔ Variables.Readable s'.environment) →
      (build readers given s).outcome = (build readers given' s').outcome ∨
      ∃ x message a b, (∃ ms, highest? readers given s x = some (.object ms)) ∧
        (build readers given s).outcome = .error (.invalid ⟨message, x.path, .object a⟩) ∧
        (build readers given' s').outcome = .error (.invalid ⟨message, x.path, .object b⟩)) ∧
    (∀ x, Variables.Readable s.environment → Plain given x.name → Variables.Plain s.environment x →
      (highest? readers given s x).map Value.outline = (first? readers given s x).map Value.outline) ∧
    (¬ Variables.Readable s.environment → (build readers given s).outcome = .error (.undecodable "validation")) ∧
    (load readers s).outcome = (build readers [] s).outcome := by
  obtain ⟨hreadable, hunreadable⟩ := h.build_eq hlaws
  refine ⟨fun r hr => ?_, fun given' s' h' hhighest hread => ?_,
    fun x hread hgiven hvars => h.highest?_eq_first? hlaws hread hgiven hvars, hunreadable, rfl⟩
  · by_cases hread : Variables.Readable s.environment
    · obtain ⟨ms, hms, hbuild, hheld⟩ := hreadable hread
      have htakes : ∀ x, Takes readers r x (highest? readers given s x) := fun x =>
        (takes_of_ofMembers hms (mapError_eq_ok (hbuild.symm.trans hr)) x).of_outline hlaws (hheld x)
      exact ⟨fun x => ⟨htakes x, fun hgiven hvars =>
        (htakes x).of_outline hlaws (h.highest?_eq_first? hlaws hread hgiven hvars)⟩, (htakes .depth).depth_bounds⟩
    · rw [hunreadable hread] at hr
      cases hr
  · obtain ⟨hreadable', hunreadable'⟩ := h'.build_eq hlaws
    by_cases hr : Variables.Readable s.environment
    · obtain ⟨ms, hms, hbuild, hheld⟩ := hreadable hr
      obtain ⟨ms', hms', hbuild', hheld'⟩ := hreadable' (hread.1 hr)
      rw [hbuild, hbuild']
      rcases ofMembers_sameButObjects hlaws hms hms' hheld fun x => (hheld' x).trans (hhighest x).symm with
        heq | ⟨x, message, a, b, hx, ha, hb⟩
      · exact .inl (by rw [heq])
      · refine .inr ⟨x, message, a, b, ?_, by rw [ha]; rfl, by rw [hb]; rfl⟩
        obtain ⟨v, hv, hobject⟩ := Option.map_eq_some_iff.1 hx
        cases v with
        | object ms => exact ⟨ms, hv⟩
        | _ => cases hobject
    · rw [hunreadable hr, hunreadable' (mt hread.2 hr)]
      exact .inl rfl

/-! ### Readers of JSON -/

/-- A file that holds JSON. -/
def readJson (text : String) : FileContent :=
  match Json.read .literal text.toList with
  | .ok .null => .empty
  | .ok v => .value v
  | .error _ => .malformed "not JSON"

/-- A value under a name. -/
def memberOf {ρ : Type} (name : String) (v? : Option (Value ρ)) : Members (Value ρ) := (v?.map ((name, ·))).toList

/-- The layer that holds for each setting what is given for it. -/
def layerOf (held : Setting → Option Json) : Members Json :=
  memberOf "engine" ((held .depth).map fun v => .object [("max_depth", v)]) ++
    (memberOf "validation" ((held .keys).map fun v => .object [("expression_keys", v)]) ++
      memberOf "verbosity" (held .verbosity))

/-- Readers of files that hold JSON, of names that are spelled plainly, and of integers and texts as they are. -/
def jsonReaders : Readers where
  file := readJson
  given ms := ms
  environment _ _ vars :=
    if Variables.Readable vars then .ok (layerOf fun x => (Variables.own? vars x).or (Variables.inSection? vars x))
    else .error "validation"
  integer
    | .number (.int n) => .ok n
    | v => .error ⟨"Input should be a valid integer", [], v⟩
  texts v := match v.items?.bind Definitions.texts? with
    | some texts => .ok texts
    | none => .error ⟨"Input should be a valid list", [], v⟩
  verbosity v := match v.string?.bind fun s => Verbosity.all.find? (·.label == s) with
    | some x => .ok x
    | none => .error ⟨"Input should be 'error', 'warning', 'info' or 'debug'", [], v⟩

theorem get?_memberOf {ρ : Type} (name key : String) (v? : Option (Value ρ)) :
    get? key (memberOf name v?) = if name = key then v? else none := by
  cases v? with
  | none => exact (ite_self _).symm
  | some v => rfl

theorem keys_memberOf_sublist {ρ : Type} (name : String) (v? : Option (Value ρ)) :
    (memberOf name v?).keys.Sublist [name] := by
  cases v? with
  | none => exact List.nil_sublist _
  | some v => exact List.Sublist.refl _

/-- What a layer holds under each name. -/
theorem get?_layerOf (held : Setting → Option Json) :
    get? "engine" (layerOf held) = (held .depth).map (fun v => .object [("max_depth", v)]) ∧
    get? "validation" (layerOf held) = (held .keys).map (fun v => .object [("expression_keys", v)]) ∧
    get? "verbosity" (layerOf held) = held .verbosity := by
  simp only [layerOf, Members.get?_append, get?_memberOf, reduceIte, String.reduceEq, Option.or_none,
    Option.none_or, and_self]

theorem held_layerOf (held : Setting → Option Json) (x : Setting) :
    (x.held fun name => get? name (layerOf held)) = held x := by
  obtain ⟨hdepth, hkeys, hverbosity⟩ := get?_layerOf held
  cases x with
  | depth =>
    rw [Setting.held, hdepth]
    cases held .depth <;> rfl
  | keys =>
    rw [Setting.held, hkeys]
    cases held .keys <;> rfl
  | verbosity => exact hverbosity

theorem regular_layerOf (held : Setting → Option Json) : Regular (layerOf held) := by
  constructor
  · have hkeys : (layerOf held).keys.Sublist ["engine", "validation", "verbosity"] := by
      rw [layerOf, Members.keys, List.map_append, List.map_append]
      exact (keys_memberOf_sublist ..).append ((keys_memberOf_sublist ..).append (keys_memberOf_sublist ..))
    exact hkeys.nodup (by decide)
  · intro name hname v hv
    obtain ⟨hdepth, hkeys, -⟩ := get?_layerOf held
    have hsection : ∃ w field, v = .object [(field, w)] := by
      rcases List.mem_pair.1 hname with rfl | rfl
      · obtain ⟨w, -, rfl⟩ := Option.map_eq_some_iff.1 (hdepth ▸ hv)
        exact ⟨w, _, rfl⟩
      · obtain ⟨w, -, rfl⟩ := Option.map_eq_some_iff.1 (hkeys ▸ hv)
        exact ⟨w, _, rfl⟩
    obtain ⟨w, field, rfl⟩ := hsection
    exact ⟨_, rfl, List.nodup_cons.2 ⟨List.not_mem_nil, List.nodup_nil⟩⟩

/-- An object that is read as JSON has no key twice, and neither have the objects in it. -/
theorem distinct_readJson {text : String} {ms : Members Json} (h : readJson text = .value (.object ms)) :
    ms.Distinct ∧ ∀ p ∈ ms, ∀ inner, p.2 = .object inner → Members.Distinct inner := by
  unfold readJson at h
  split at h
  next => cases h
  next v _ hv =>
    cases h
    obtain ⟨rest, hread⟩ := Json.exists_of_read hv
    obtain ⟨-, hspelled⟩ := Json.spelledIn_of_readValue hread
    cases hspelled with
    | object hdistinct hmembers =>
      refine ⟨hdistinct, fun p hp inner hinner => ?_⟩
      have hmember := hmembers p hp
      rw [hinner] at hmember
      cases hmember with
      | object hdistinct _ => exact hdistinct
  next => cases h

theorem laws_jsonReaders : jsonReaders.Laws where
  file := distinct_readJson
  given h := h
  named _ _ _ := rfl
  environment := by
    have hreadable : ∀ {vars}, Variables.Readable vars → environmentLayer jsonReaders vars =
        .ok (layerOf fun x => (Variables.own? vars x).or (Variables.inSection? vars x)) := fun h => if_pos h
    have hunreadable : ∀ {vars}, ¬ Variables.Readable vars →
        environmentLayer jsonReaders vars = .error "validation" := fun h => if_neg h
    have htop : ∀ {vars top}, environmentLayer jsonReaders vars = .ok top →
        top = layerOf fun x => (Variables.own? vars x).or (Variables.inSection? vars x) := by
      intro vars top h
      by_cases hread : Variables.Readable vars
      · exact Except.ok.inj (h.symm.trans (hreadable hread))
      · rw [hunreadable hread] at h
        cases h
    refine ⟨fun _ h => htop h ▸ regular_layerOf _, fun _ h _ => ?_, fun _ h => ⟨_, hreadable h⟩,
      fun _ h => hunreadable h⟩
    rw [htop h, held_layerOf]
  integer := ⟨_, fun _ => rfl⟩
  texts := ⟨_, fun _ => rfl⟩
  verbosity := ⟨_, fun _ => rfl⟩

theorem ok_of_toOption {ε α : Type} {x : Except ε α} {a : α} (h : x.toOption = some a) : x = .ok a := by
  cases x with
  | error e => cases h
  | ok b => exact congrArg Except.ok (Option.some.inj h)

/-- Surroundings with a file of the project, variables and a file of the user. -/
def surroundings (project : Option String) (vars : Variables) (user : Option String) : Surroundings :=
  ⟨⟨"sdkquery.yaml", project⟩, ⟨"config.yaml", user⟩, vars⟩

/-- A depth that is given directly. -/
def givenDepth : Members Json := [("engine", .object [("max_depth", .int 5)])]

/-- Another depth and keys in variables, a verbosity of the project, and one of the user that is not acceptable. -/
def mixedSurroundings : Surroundings :=
  surroundings (some "\x7b\"verbosity\": \"info\"\x7d")
    [("SDKQUERY_ENGINE__MAX_DEPTH", "7"), ("SDKQUERY_VALIDATION", "\x7b\"expression_keys\": [\"q\"]\x7d")]
    (some "\x7b\"verbosity\": \"loud\"\x7d")

/-- Each setting comes from another layer. -/
theorem build_takes_highest_mixed :
    (build jsonReaders givenDepth mixedSurroundings).outcome = .ok ⟨5, ["q"], .info⟩ ∧
    ∀ x, Takes jsonReaders ⟨5, ["q"], .info⟩ x (highest? jsonReaders givenDepth mixedSurroundings x) := by
  have hlayered : Layered jsonReaders givenDepth mixedSurroundings := by decide +kernel
  have hbuild : (build jsonReaders givenDepth mixedSurroundings).outcome = .ok ⟨5, ["q"], .info⟩ :=
    ok_of_toOption (by decide +kernel)
  exact ⟨hbuild, fun x => (((build_takes_highest laws_jsonReaders hlayered).1 _ hbuild).1 x).1⟩

/-- Where lower layers are seen: the file of the user adds members to an object that the project holds for the depth,
    and a variable is refused though keys are given. -/
theorem lower_layers_seen :
    (load jsonReaders (surroundings (some "\x7b\"engine\": \x7b\"max_depth\": \x7b\"a\": 1\x7d\x7d\x7d") []
        (some "\x7b\"engine\": \x7b\"max_depth\": \x7b\"b\": 2\x7d\x7d\x7d"))).outcome ≠
      (load jsonReaders (surroundings (some "\x7b\"engine\": \x7b\"max_depth\": \x7b\"a\": 1\x7d\x7d\x7d") []
        none)).outcome ∧
    (build jsonReaders [("validation", .object [("expression_keys", .array [.string "q"])])]
        (surroundings none [("SDKQUERY_VALIDATION__EXPRESSION_KEYS", "[")] none)).outcome ≠
      (build jsonReaders [("validation", .object [("expression_keys", .array [.string "q"])])]
        (surroundings none [] none)).outcome := by
  refine ⟨fun h => ?_, fun h => ?_⟩
  · -- an outcome of which the error is forgiven unless its value has the member of the user
    have hmember := congrArg (fun o => (o.tryCatch fun e =>
      if (e.value.field "b").isNull then .ok default else .error e).toOption.isSome) h
    exact absurd hmember (by decide +kernel)
  · have hsuccess := congrArg (fun o => o.toOption.isSome) h
    exact absurd hsuccess (by decide +kernel)

end JsonQuery.Settings
