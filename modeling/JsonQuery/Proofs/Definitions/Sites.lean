import JsonQuery.Definitions.Validation
import JsonQuery.Proofs.Expr.Places
import JsonQuery.Proofs.Token.Tiling

/-! Where expressions stand within definitions. A path leads from definitions to a value within them, step by step;
    its location is written as it goes. A string is an expression if it stands under an expression key, or if it is
    an item of a list of only strings there, however deep. The search, which looks at every value once and in four
    ways, lists just these strings, each once and in document order: what it lists for the members of an object
    or for the items of an array is what it lists for the first and then for the rest. -/

namespace JsonQuery.Definitions

/-! ### Paths -/

/-- A step to a member of an object, which has a place and a key, or to an item of an array. -/
inductive PathStep where
  | member (place : Nat) (key : String)
  | item (index : Nat)
  deriving DecidableEq

/-- How many members or items come before the one stepped to. -/
def PathStep.place : PathStep → Nat
  | member place _ => place
  | item index => index

/-- How a step is written after others: a key after a dot, an index in brackets. -/
def PathStep.text : PathStep → String
  | member _ key => "." ++ key
  | item index => "[" ++ toString index ++ "]"

/-- The steps to a value within definitions. -/
abbrev Path := List PathStep

/-- How steps are written after others. -/
def continued : Path → String
  | [] => ""
  | step :: rest => step.text ++ continued rest

/-- How a path is written: no dot comes first, and so empty keys at the start leave nothing. -/
def location : Path → String
  | [] => ""
  | .member _ key :: rest => if key = "" then location rest else key ++ continued rest
  | .item index :: rest => "[" ++ toString index ++ "]" ++ continued rest

example : location [.item 0, .member 2 "path", .item 1] = "[0].path[1]" := by decide

/-- Document order: what comes first where two paths part comes first. -/
def Before : Path → Path → Prop := List.Lex fun s t => s.place < t.place

theorem Before.ne {p q : Path} (h : Before p q) : p ≠ q := by
  induction h with
  | nil => exact nofun
  | rel hplace =>
    rintro ⟨_⟩
    exact Nat.lt_irrefl _ hplace
  | cons _ ih => exact fun heq => ih (List.cons.inj heq).2

/-! ### Locations -/

/-- The location that the search goes on with after a step. -/
def PathStep.after (location : String) : PathStep → String
  | member _ key => memberLocation location key
  | item index => itemLocation location index

/-- The location that the search comes to along a path. -/
def locationFrom (location : String) (path : Path) : String := path.foldl PathStep.after location

theorem append_ne_empty {s : String} (h : s ≠ "") (t : String) : s ++ t ≠ "" :=
  fun hst => h (String.append_eq_empty_iff.1 hst).1

theorem PathStep.after_of_ne {s : String} (h : s ≠ "") (step : PathStep) : step.after s = s ++ step.text := by
  cases step with
  | member place key =>
    rw [after, memberLocation, if_neg h, text, String.append_assoc]
  | item index =>
    rw [after, itemLocation, text, String.append_assoc, String.append_assoc, String.append_assoc]

theorem locationFrom_of_ne : ∀ (path : Path) {s : String}, s ≠ "" → locationFrom s path = s ++ continued path := by
  intro path
  induction path with
  | nil => exact fun _ => (String.append_empty).symm
  | cons step rest ih =>
    intro s h
    have hstep := step.after_of_ne h
    rw [continued, ← String.append_assoc, ← hstep]
    exact ih (hstep ▸ append_ne_empty h step.text)

/-- From the root the search comes to the location as it is written. -/
theorem locationFrom_root : ∀ path : Path, locationFrom "" path = location path := by
  intro path
  induction path with
  | nil => rfl
  | cons step rest ih =>
    cases step with
    | member place key =>
      have hafter : PathStep.after "" (.member place key) = key := by
        rw [PathStep.after, memberLocation, if_pos rfl]
      rw [location, locationFrom, List.foldl_cons, hafter]
      split
      next hkey => exact hkey ▸ ih
      next hkey => exact locationFrom_of_ne rest hkey
    | item index =>
      have hafter : PathStep.after "" (.item index) = "[" ++ toString index ++ "]" := by
        rw [PathStep.after, itemLocation, String.empty_append]
      rw [location, locationFrom, List.foldl_cons, hafter]
      refine locationFrom_of_ne rest (append_ne_empty (append_ne_empty ?_ _) _)
      decide

/-! ### Expressions -/

/-- The expressions that a value holds under an expression key: itself, or all its items, if they are strings. -/
inductive Holds : Json → Path → String → Prop
  | string (text : String) : Holds (.string text) [] text
  | item {items : List Json} {i : Nat} {text : String} : (∀ v ∈ items, ∃ s, v = .string s) →
    items[i]? = some (.string text) → Holds (.array items) [.item i] text

/-- The expressions within definitions: what is held under an expression key, at any depth. -/
inductive IsSite (keys : List String) : Json → Path → String → Prop
  | held {members : List (String × Json)} {i : Nat} {key : String} {v : Json} {path : Path} {text : String} :
    members[i]? = some (key, v) → key ∈ keys → Holds v path text →
    IsSite keys (.object members) (.member i key :: path) text
  | member {members : List (String × Json)} {i : Nat} {key : String} {v : Json} {path : Path} {text : String} :
    members[i]? = some (key, v) → IsSite keys v path text →
    IsSite keys (.object members) (.member i key :: path) text
  | item {items : List Json} {i : Nat} {v : Json} {path : Path} {text : String} :
    items[i]? = some v → IsSite keys v path text → IsSite keys (.array items) (.item i :: path) text

/-- The expressions at a member: what its value holds, if its key is an expression key, and what is within. -/
def AtMember (keys : List String) (m : String × Json) (path : Path) (text : String) : Prop :=
  m.1 ∈ keys ∧ Holds m.2 path text ∨ IsSite keys m.2 path text

/-- What stands at the elements of a row, which are numbered from some number on. -/
def InRow {α : Type} (step : Nat → α → PathStep) (stands : α → Path → String → Prop) (n : Nat) (xs : List α)
    (path : Path) (text : String) : Prop :=
  ∃ i x rest, xs[i]? = some x ∧ path = step (n + i) x :: rest ∧ stands x rest text

variable {α : Type} {keys : List String} {stands stands' : Path → String → Prop} {listed : String → List Site}

theorem isSite_object {members : List (String × Json)} {path : Path} {text : String} :
    IsSite keys (.object members) path text ↔
      InRow (fun i m => .member i m.1) (AtMember keys) 0 members path text := by
  constructor
  · intro h
    cases h with
    | held hi hkey hv => exact ⟨_, _, _, hi, by rw [Nat.zero_add], .inl ⟨hkey, hv⟩⟩
    | member hi hv => exact ⟨_, _, _, hi, by rw [Nat.zero_add], .inr hv⟩
  · rintro ⟨i, ⟨key, v⟩, rest, hi, rfl, ⟨hkey, hv⟩ | hv⟩
    · rw [Nat.zero_add]
      exact .held hi hkey hv
    · rw [Nat.zero_add]
      exact .member hi hv

theorem isSite_array {items : List Json} {path : Path} {text : String} :
    IsSite keys (.array items) path text ↔
      InRow (fun i _ => .item i) (IsSite keys) 0 items path text := by
  constructor
  · intro h
    cases h with
    | item hi hv => exact ⟨_, _, _, hi, by rw [Nat.zero_add], hv⟩
  · rintro ⟨i, v, rest, hi, rfl, hv⟩
    rw [Nat.zero_add]
    exact .item hi hv

/-- What stands in a row stands at its first element or in the rest of the row. -/
theorem inRow_cons {step : Nat → α → PathStep} {stands : α → Path → String → Prop} {n : Nat} {x : α} {xs : List α}
    {path : Path} {text : String} : InRow step stands n (x :: xs) path text ↔
      (∃ rest, path = step n x :: rest ∧ stands x rest text) ∨ InRow step stands (n + 1) xs path text := by
  constructor
  · rintro ⟨i, y, rest, hi, hpath, hy⟩
    cases i with
    | zero =>
      cases hi
      exact .inl ⟨rest, hpath, hy⟩
    | succ i => exact .inr ⟨i, y, rest, hi, by rw [hpath, Nat.add_right_comm, Nat.add_assoc], hy⟩
  · rintro (⟨rest, hpath, hx⟩ | ⟨i, y, rest, hi, hpath, hy⟩)
    · exact ⟨0, x, rest, rfl, hpath, hx⟩
    · exact ⟨i + 1, y, rest, hi, by rw [hpath, Nat.add_right_comm, Nat.add_assoc], hy⟩

/-! ### Listings -/

/-- From whatever location, just the texts that stand at certain paths are listed, once each and in document
    order. -/
def Lists (stands : Path → String → Prop) (listed : String → List Site) : Prop :=
  ∃ found : List (Path × String), (∀ path text, (path, text) ∈ found ↔ stands path text) ∧
    found.Pairwise (fun s t => Before s.1 t.1) ∧
    ∀ location, listed location = found.map fun s => ⟨locationFrom location s.1, s.2⟩

namespace Lists

theorem nil (h : ∀ path text, ¬ stands path text) : Lists stands fun _ => [] :=
  ⟨[], fun path text => ⟨nofun, fun hs => (h path text hs).elim⟩, .nil, fun _ => rfl⟩

theorem congr (h : Lists stands listed) (hs : ∀ path text, stands path text ↔ stands' path text) :
    Lists stands' listed := by
  obtain ⟨found, hmem, hrest⟩ := h
  exact ⟨found, fun path text => (hmem path text).trans (hs path text), hrest⟩

theorem text (s : String) : Lists (fun path text => path = [] ∧ text = s) fun location => [⟨location, s⟩] :=
  ⟨[([], s)], fun path text => by simp, List.pairwise_singleton _ _, fun _ => rfl⟩

/-- The first element of a row is listed, at its step, and then the rest of the row. -/
theorem row {step : Nat → α → PathStep} {stands : α → Path → String → Prop} {n : Nat} {x : α} {xs : List α}
    {first rest : String → List Site} (hplace : ∀ i y, (step i y).place = i) (hfirst : Lists (stands x) first)
    (hrest : Lists (InRow step stands (n + 1) xs) rest) : Lists (InRow step stands n (x :: xs))
      fun location => first ((step n x).after location) ++ rest location := by
  obtain ⟨found, hmem, hordered, hlisted⟩ := hfirst
  obtain ⟨found', hmem', hordered', hlisted'⟩ := hrest
  refine ⟨found.map (fun s => (step n x :: s.1, s.2)) ++ found', fun path text => ?_, ?_, fun location => ?_⟩
  · rw [List.mem_append, hmem', inRow_cons, List.mem_map]
    refine or_congr_left ⟨?_, ?_⟩
    · rintro ⟨⟨path, text⟩, hs, heq⟩
      cases heq
      exact ⟨path, rfl, (hmem path text).1 hs⟩
    · rintro ⟨path, rfl, hs⟩
      exact ⟨(path, text), (hmem path text).2 hs, rfl⟩
  · rw [List.pairwise_append, List.pairwise_map]
    refine ⟨hordered.imp .cons, hordered', fun s hs t ht => ?_⟩
    obtain ⟨r, -, rfl⟩ := List.mem_map.1 hs
    obtain ⟨i, y, path, -, hpath, -⟩ := (hmem' t.1 t.2).1 ht
    rw [hpath]
    refine .rel ?_
    rw [hplace, hplace]
    omega
  · dsimp only
    rw [hlisted, hlisted', List.map_append, List.map_map]
    rfl

end Lists

/-! ### Strings under an expression key -/

theorem texts?_eq_some_iff : ∀ {items : List Json} {ts : List String},
    texts? items = some ts ↔ items = ts.map .string := by
  intro items
  induction items with
  | nil =>
    intro ts
    cases ts <;> simp [texts?]
  | cons v rest ih =>
    intro ts
    cases v with
    | string s =>
      rw [texts?, Option.map_eq_some_iff]
      constructor
      · rintro ⟨us, hus, rfl⟩
        rw [ih.1 hus, List.map_cons]
      · intro h
        cases ts with
        | nil => cases h
        | cons t us =>
          cases h
          exact ⟨us, ih.2 rfl, rfl⟩
    | _ => cases ts <;> simp [texts?]

theorem exists_texts_of_forall : ∀ {items : List Json}, (∀ v ∈ items, ∃ s, v = .string s) →
    ∃ ts, texts? items = some ts := by
  intro items
  induction items with
  | nil => exact fun _ => ⟨[], rfl⟩
  | cons v rest ih =>
    intro h
    obtain ⟨⟨s, rfl⟩, hrest⟩ := List.forall_mem_cons.1 h
    obtain ⟨ts, hts⟩ := ih hrest
    exact ⟨s :: ts, by rw [texts?, hts]; rfl⟩

theorem textSites_lists : ∀ (ts : List String) (n : Nat),
    Lists (InRow (fun i _ => .item i) (fun s path text => path = [] ∧ text = s) n ts) fun location =>
      textSites location n ts := by
  intro ts
  induction ts with
  | nil => exact fun n => .nil fun path text h => by simp [InRow] at h
  | cons s ts ih => exact fun n => .row (fun _ _ => rfl) (.text s) (ih (n + 1))

theorem holds_texts {ts : List String} {path : Path} {text : String} :
    Holds (.array (ts.map .string)) path text ↔
      InRow (fun i _ => .item i) (fun s path text => path = [] ∧ text = s) 0 ts path text := by
  constructor
  · intro h
    cases h with
    | @item _ i _ _ hi =>
      rw [List.getElem?_map] at hi
      obtain ⟨s, hs, heq⟩ := Option.map_eq_some_iff.1 hi
      cases heq
      exact ⟨i, _, [], hs, by rw [Nat.zero_add], rfl, rfl⟩
  · rintro ⟨i, s, rest, hs, rfl, rfl, rfl⟩
    rw [Nat.zero_add]
    refine .item (fun v hv => ?_) (by rw [List.getElem?_map, hs]; rfl)
    obtain ⟨t, -, rfl⟩ := List.mem_map.1 hv
    exact ⟨t, rfl⟩

/-- Nothing is within strings alone. -/
theorem not_isSite_texts {ts : List String} {path : Path} {text : String} :
    ¬ IsSite keys (.array (ts.map .string)) path text := by
  intro h
  cases h with
  | item hi hv =>
    obtain ⟨s, -, rfl⟩ := List.mem_map.1 (List.mem_of_getElem? hi)
    cases hv

/-- Either a value holds expressions, which are listed and have nothing within, or it holds none. -/
theorem ownSites?_lists (keys : List String) (v : Json) :
    (∃ listed, (∀ location, ownSites? location v = some (listed location)) ∧ Lists (Holds v) listed ∧
      ∀ path text, ¬ IsSite keys v path text) ∨
    (∀ location, ownSites? location v = none) ∧ ∀ path text, ¬ Holds v path text := by
  cases v with
  | string s =>
    refine .inl ⟨fun location => [⟨location, s⟩], fun _ => rfl, (Lists.text s).congr fun path text => ?_, nofun⟩
    constructor
    · rintro ⟨rfl, rfl⟩
      exact .string _
    · rintro ⟨_⟩
      exact ⟨rfl, rfl⟩
  | array items =>
    cases hts : texts? items with
    | some ts =>
      obtain rfl := texts?_eq_some_iff.1 hts
      refine .inl ⟨fun location => textSites location 0 ts, fun location => by rw [ownSites?, hts]; rfl, ?_,
        fun _ _ => not_isSite_texts⟩
      exact (textSites_lists ts 0).congr fun path text => holds_texts.symm
    | none =>
      refine .inr ⟨fun location => by rw [ownSites?, hts]; rfl, fun path text h => ?_⟩
      cases h with
      | item hall _ =>
        obtain ⟨ts, hsome⟩ := exists_texts_of_forall hall
        rw [hts] at hsome
        cases hsome
  | _ => exact .inr ⟨fun _ => rfl, nofun⟩

/-! ### Values -/

/-- At a member its value is looked at in one of the ways there are. -/
theorem atMember_lists (key : String) {v : Json} (h : Lists (IsSite keys v) fun location => sites keys location v) :
    Lists (AtMember keys (key, v)) fun here =>
      if keys.contains key then
        match ownSites? here v with
        | some own => own
        | none => sites keys here v
      else sites keys here v := by
  by_cases hkey : key ∈ keys
  · simp only [List.contains_iff_mem, hkey, if_true]
    rcases ownSites?_lists keys v with ⟨listed, hown, hlists, hwithin⟩ | ⟨hnone, hholds⟩
    · simp only [hown]
      refine hlists.congr fun path text => ⟨fun hv => .inl ⟨hkey, hv⟩, ?_⟩
      exact Or.rec And.right fun hv => absurd hv (hwithin path text)
    · simp only [hnone]
      refine h.congr fun path text => ⟨.inr, ?_⟩
      exact Or.rec (fun hv => absurd hv.2 (hholds path text)) id
  · simp only [List.contains_iff_mem, hkey, if_false]
    exact h.congr fun path text => ⟨.inr, Or.rec (fun hv => absurd hv.1 hkey) id⟩

mutual

/-- The expressions within a value are listed. -/
theorem sites_lists (keys : List String) : ∀ v : Json, Lists (IsSite keys v) fun location => sites keys location v
  | .object members => (memberSites_lists keys 0 members).congr fun _ _ => isSite_object.symm
  | .array items => (itemSites_lists keys 0 items).congr fun _ _ => isSite_array.symm
  | .null | .bool _ | .number _ | .string _ => .nil nofun
  | .reference r => nomatch r

theorem memberSites_lists (keys : List String) : ∀ (n : Nat) (members : List (String × Json)),
    Lists (InRow (fun i m => .member i m.1) (AtMember keys) n members) fun location =>
      memberSites keys location members
  | _, [] => .nil fun path text h => by simp [InRow] at h
  | n, (key, v) :: rest =>
    .row (fun _ _ => rfl) (atMember_lists key (sites_lists keys v)) (memberSites_lists keys (n + 1) rest)

theorem itemSites_lists (keys : List String) : ∀ (n : Nat) (items : List Json),
    Lists (InRow (fun i _ => .item i) (IsSite keys) n items) fun location => itemSites keys location n items
  | _, [] => .nil fun path text h => by simp [InRow] at h
  | n, v :: rest => .row (fun _ _ => rfl) (sites_lists keys v) (itemSites_lists keys (n + 1) rest)

end

example : sites ["path"] "" (.object [("a", .array [.object [("path", .array [.string "b", .string "c"])]])]) =
    [⟨"a[0].path[0]", "b"⟩, ⟨"a[0].path[1]", "c"⟩] := by decide

/-! ### Issues -/

variable {text : String} {limit : Int}

/-- A text has no report just if it is read as an expression. -/
theorem check_eq_none_iff : check text limit = .ok none ↔ ∃ e, Expr.parse text limit = .ok e := by
  unfold check
  cases Expr.parse text limit with
  | ok e => simp
  | error e => cases hlong : e.overlong? <;> simp [hlong]

/-- The report of a text that is checked, if it is no expression. -/
def report? (limit : Int) (text : String) : Option SyntaxReport := (check text limit).toOption.join

/-- The issues of some expressions that are checked. -/
def reported (limit : Int) (found : List (Path × String)) : List Issue :=
  found.filterMap fun s => (report? limit s.2).map fun report => ⟨location s.1, report⟩

/-- What a check of expressions comes to: it goes through them in order, and either to the end, or up to one that has a
    number that is too long. -/
theorem findings_spec (limit : Int) : ∀ found : List (Path × String), ∃ read rest, found = read ++ rest ∧
    (∀ s ∈ read, ∃ report, check s.2 limit = .ok report) ∧
    (findings limit (found.map fun s => ⟨location s.1, s.2⟩)).issues = reported limit read ∧
    (rest = [] ∧ (findings limit (found.map fun s => ⟨location s.1, s.2⟩)).overlong = none ∨
      ∃ s after number, rest = s :: after ∧ check s.2 limit = .error number ∧
        (findings limit (found.map fun s => ⟨location s.1, s.2⟩)).overlong = some number) := by
  intro found
  induction found with
  | nil => exact ⟨[], [], rfl, nofun, rfl, .inl ⟨rfl, rfl⟩⟩
  | cons s found ih =>
    obtain ⟨read, rest, rfl, hread, hissues, hend⟩ := ih
    rw [List.map_cons, findings]
    cases hcheck : check s.2 limit with
    | error number => exact ⟨[], s :: (read ++ rest), rfl, nofun, rfl, .inr ⟨s, _, number, rfl, hcheck, rfl⟩⟩
    | ok report =>
      have hreported : reported limit (s :: read) =
          ((report.map fun report => ⟨location s.1, report⟩).toList ++ reported limit read) := by
        rw [reported, List.filterMap_cons, report?, hcheck]
        cases report <;> rfl
      refine ⟨s :: read, rest, rfl, List.forall_mem_cons.2 ⟨⟨report, hcheck⟩, hread⟩, ?_, ?_⟩
      all_goals cases report with
      | none => first | exact hissues.trans hreported.symm | exact hend
      | some report => first | exact (congrArg (List.cons _) hissues).trans hreported.symm | exact hend

/-- The issues of definitions are one for each expression within them that is not read as one, with its location and
    the report of the check, in document order and for no path twice; and the events are one for each issue, in the
    same order, and one with the number of the expressions and the number of the issues. That is so if no number in an
    expression is too long; the first expression that has such a number ends the run, with the number as its outcome,
    after the issues of the expressions before it and without the last event. -/
theorem issues_of_sites (keys : List String) (limit : Int) (definitions : Json) :
    ∃ found read rest : List (Path × String), found = read ++ rest ∧
      (∀ path text, (path, text) ∈ found ↔ IsSite keys definitions path text) ∧
      found.Pairwise (fun s t => Before s.1 t.1) ∧ (found.map Prod.fst).Nodup ∧
      (∀ s ∈ read, ∃ report, check s.2 limit = .ok report) ∧
      issues keys limit definitions = reported limit read ∧
      (∀ text, check text limit = .ok none ↔ ∃ e, Expr.parse text limit = .ok e) ∧
      let issueEvents : List Event := (issues keys limit definitions).map fun issue =>
        ⟨.warning, logger, "invalid_expression", [("location", .string issue.location),
          ("expression", .string issue.report.text), ("error", .string issue.report.reason),
          ("offset", .int issue.report.offset)]⟩
      (rest = [] ∧ validate keys limit definitions = .ok (issues keys limit definitions) ∧
        events keys limit definitions = issueEvents ++
          [⟨.info, logger, "expressions_validated", [("checked", .int found.length),
            ("invalid", .int (issues keys limit definitions).length)]⟩]) ∨
      ∃ s after number, rest = s :: after ∧ check s.2 limit = .error number ∧
        validate keys limit definitions = .error number ∧ events keys limit definitions = issueEvents := by
  obtain ⟨found, hmem, hordered, hlisted⟩ := sites_lists keys definitions
  have hsites : sites keys "" definitions = found.map fun s => ⟨location s.1, s.2⟩ := by
    simp only [hlisted, locationFrom_root]
  have honce : (found.map Prod.fst).Nodup := List.pairwise_map.2 (hordered.imp Before.ne)
  obtain ⟨read, rest, hparts, hread, hissues, hend⟩ := findings_spec limit found
  rw [← hsites] at hissues hend
  refine ⟨found, read, rest, hparts, hmem, hordered, honce, hread, hissues, fun _ => check_eq_none_iff, ?_⟩
  rcases hend with ⟨hrest, hnone⟩ | ⟨s, after, number, hrest, hcheck, hsome⟩
  · have hvalidate : validate keys limit definitions = .ok (issues keys limit definitions) := by
      rw [validate, findingsWithin, hnone]
    refine .inl ⟨hrest, hvalidate, ?_⟩
    rw [events, hvalidate, hsites, List.length_map]
    rfl
  · have hvalidate : validate keys limit definitions = .error number := by
      rw [validate, findingsWithin, hsome]
    refine .inr ⟨s, after, number, hrest, hcheck, hvalidate, ?_⟩
    rw [events, hvalidate, List.append_nil]
    rfl

/-- A row of digits that is too long is neither an expression nor an issue. -/
theorem check_digits {cs : List Char} (hdigit : ∀ c ∈ cs, c.isDigit = true) (hlength : digitLimit < cs.length)
    (limit : Int) : check (String.ofList cs) limit = .error ⟨cs.length⟩ := by
  have hscan : Scan.ofText (String.ofList cs).toList = ⟨[], .fault ⟨.overlong ⟨cs.length⟩, 0⟩⟩ := by
    rw [String.toList_ofList, Scan.ofText_digits hdigit hlength]
  have hparse : Expr.parse (String.ofList cs) limit = .error (.lexical ⟨.overlong ⟨cs.length⟩, 0⟩) := by
    refine (Expr.parse_of_fault (congrArg Scan.ending hscan) limit).resolve_right ?_
    rintro ⟨cause, t, ht, -⟩
    rw [hscan] at ht
    cases ht
  rw [check, hparse]
  rfl

/-- A text with a number that is too long ends the run of definitions that have nothing else. -/
theorem validate_of_overlong {number : Overlong} (h : check text 128 = .error number) :
    IsSite ["path"] (.object [("path", .string text)]) [.member 0 "path"] text ∧
    validate ["path"] 128 (.object [("path", .string text)]) = .error number ∧
    events ["path"] 128 (.object [("path", .string text)]) = [] := by
  have hfindings : findingsWithin ["path"] 128 (.object [("path", .string text)]) = ⟨[], some number⟩ := by
    show findings 128 [⟨"path", text⟩] = _
    rw [findings, h]
  have hvalidate : validate ["path"] 128 (.object [("path", .string text)]) = .error number := by
    rw [validate, hfindings]
  refine ⟨.held (i := 0) rfl (List.mem_singleton_self _) (.string text), hvalidate, ?_⟩
  rw [events, hvalidate, issues, hfindings]
  rfl

/-- A zero more than may be read is no issue, and the run has no result. -/
theorem validate_zeros :
    IsSite ["path"] (.object [("path", .string (String.ofList (List.replicate 4301 '0')))]) [.member 0 "path"]
      (String.ofList (List.replicate 4301 '0')) ∧
    validate ["path"] 128 (.object [("path", .string (String.ofList (List.replicate 4301 '0')))]) = .error ⟨4301⟩ ∧
    events ["path"] 128 (.object [("path", .string (String.ofList (List.replicate 4301 '0')))]) = [] := by
  refine validate_of_overlong ?_
  rw [check_digits (fun c hc => List.eq_of_mem_replicate hc ▸ rfl) (by rw [List.length_replicate]; decide),
    List.length_replicate]

end JsonQuery.Definitions
