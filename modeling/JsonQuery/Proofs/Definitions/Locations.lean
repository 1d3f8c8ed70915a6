import JsonQuery.Proofs.Definitions.Stored
import JsonQuery.Proofs.Json.Members
import JsonQuery.Proofs.Number.Digits

/-! Locations read back. A location is parted at its points; each part is a key, and the numbers in brackets that come
    after it are indices, of which the leading part may have nothing else. Where no key is empty or has a point or an
    opening bracket in it, this undoes the writing of a location: what is read are the keys and the indices of the
    path. An object has a key at one place only, so they lead from the definitions to where the path leads, and no
    other path is written alike. -/

namespace JsonQuery.Definitions

/-! ### Reading a location -/

/-- A step that a location tells of: to the value of a key, or to the item at an index. -/
inductive Access where
  | key (name : String)
  | item (index : Nat)
  deriving DecidableEq

/-- The index of a text that goes on from an opening bracket to the closing one. -/
def readIndex? (cs : List Char) : Option Access :=
  match takeDigits asciiDigit? cs with
  | (d :: ds, [']']) => some (.item (digitsValue (d :: ds)))
  | _ => none

/-- The steps of a part between two points: a key, and the indices after it. Only the leading part may lack a key. -/
def readPart? (leading : Bool) (cs : List Char) : Option (List Access) :=
  match cs.splitOn '[' with
  | [] => none
  | name :: indices =>
    (indices.mapM readIndex?).bind fun items =>
      if name ≠ [] then some (.key (String.ofList name) :: items) else if leading then some items else none

/-- The steps of some parts, of which the first may be the leading one. -/
def readParts? (leading : Bool) : List (List Char) → Option (List Access)
  | [] => some []
  | part :: rest => (readPart? leading part).bind fun steps => (readParts? false rest).map (steps ++ ·)

/-- The steps that a location tells of. -/
def readLocation? (location : String) : Option (List Access) := readParts? true (location.toList.splitOn '.')

example : readLocation? "[0].path[1][20]" = some [.item 0, .key "path", .item 1, .item 20] := by decide

/-- The value that a step leads to. -/
def Access.into? : Access → Json → Option Json
  | key name, .object members => Members.get? name members
  | item index, .array items => items[index]?
  | _, _ => none

/-- The value that some steps lead to. -/
def follow? : List Access → Json → Option Json
  | [], v => some v
  | step :: rest, v => (step.into? v).bind (follow? rest)

/-- The value that a location leads to. -/
def valueAt? (location : String) (definitions : Json) : Option Json :=
  (readLocation? location).bind fun steps => follow? steps definitions

/-! ### What is written is read -/

/-- A key that can be told from what a location has around it. -/
def PlainKey (key : String) : Prop := key ≠ "" ∧ '.' ∉ key.toList ∧ '[' ∉ key.toList

instance (key : String) : Decidable (PlainKey key) := inferInstanceAs (Decidable (_ ∧ _ ∧ _))

/-- What a location tells of a step. -/
def PathStep.access : PathStep → Access
  | member _ key => .key key
  | item index => .item index

/-- A path whose keys can all be told. -/
def PlainPath (path : Path) : Prop := ∀ place key, .member place key ∈ path → PlainKey key

theorem PlainPath.tail {step : PathStep} {rest : Path} (h : PlainPath (step :: rest)) : PlainPath rest :=
  fun place key hmem => h place key (List.mem_cons_of_mem step hmem)

theorem readIndex?_natDigits (index : Nat) : readIndex? (natDigits index ++ [']']) = some (.item index) := by
  have hrest : NoDigitNext [']'] := fun c hc => by cases hc; rfl
  have htake := takeDigits_append hrest fun c (hc : c ∈ natDigits index) => isDigit_of_mem_natDigits hc
  have hvalue := digitsValue_natDigits index
  obtain ⟨c, cs, hcs⟩ := List.exists_cons_of_ne_nil (natDigits_ne_nil index)
  rw [readIndex?, htake]
  rw [hcs] at hvalue ⊢
  exact congrArg (some ∘ Access.item) hvalue

theorem readPart?_key {key : String} (h : PlainKey key) (leading : Bool) :
    readPart? leading key.toList = some [.key key] := by
  obtain ⟨hne, -, hbracket⟩ := h
  have hname : key.toList ≠ [] := fun hnil => hne (String.toList_eq_nil_iff.1 hnil)
  rw [readPart?, List.splitOn_eq_singleton hbracket]
  simp [hname]

theorem bracket_not_mem_index (index : Nat) : '[' ∉ natDigits index ++ [']'] := by
  intro h
  rcases List.mem_append.1 h with h | h
  · exact absurd (isDigit_of_mem_natDigits h) (by decide)
  · exact absurd (List.mem_singleton.1 h) (by decide)

/-- An index that is written after a part is read after the steps of the part. -/
theorem readPart?_index {leading : Bool} {cs : List Char} {steps : List Access} (h : readPart? leading cs = some steps)
    (index : Nat) : readPart? leading (cs ++ '[' :: (natDigits index ++ [']'])) = some (steps ++ [.item index]) := by
  obtain ⟨name, indices, hsplit⟩ := List.exists_cons_of_ne_nil (List.splitOn_ne_nil '[' cs)
  rw [readPart?, hsplit] at h
  rw [readPart?, List.splitOn_append_cons_self, List.splitOn_eq_singleton (bracket_not_mem_index index), hsplit]
  obtain ⟨items, hitems, h⟩ := Option.bind_eq_some_iff.1 h
  have hmore : (indices ++ [natDigits index ++ [']']]).mapM readIndex? = some (items ++ [.item index]) := by
    rw [List.mapM_append, hitems]
    simp [readIndex?_natDigits]
  simp only [List.cons_append, hmore, Option.bind_some]
  split at h
  next hname =>
    cases h
    rw [if_pos hname, List.cons_append]
  next hname =>
    rw [if_neg hname]
    split at h
    next hleading =>
      cases h
      rw [if_pos hleading]
    next => cases h

theorem toList_text_item (index : Nat) : (PathStep.text (.item index)).toList = '[' :: (natDigits index ++ [']']) := by
  have hdigits : (toString index).toList = natDigits index := by
    rw [Nat.toString_eq_ofList_toDigits, String.toList_ofList]
    rfl
  rw [PathStep.text, String.toList_append, String.toList_append, hdigits]
  rfl

theorem toList_text_member (place : Nat) (key : String) :
    (PathStep.text (.member place key)).toList = '.' :: key.toList := String.toList_append

theorem point_not_mem_index (index : Nat) : '.' ∉ '[' :: (natDigits index ++ [']']) := by
  intro h
  rcases List.mem_append.1 (List.mem_of_ne_of_mem (by decide) h) with h | h
  · exact absurd (isDigit_of_mem_natDigits h) (by decide)
  · exact absurd (List.mem_singleton.1 h) (by decide)

/-- A part that has been begun is read with the indices that come next, and then the other parts are. -/
theorem readParts?_continued : ∀ {path : Path} {leading : Bool} {cs : List Char} {steps : List Access}, PlainPath path →
    '.' ∉ cs → readPart? leading cs = some steps →
    readParts? leading ((cs ++ (continued path).toList).splitOn '.') = some (steps ++ path.map PathStep.access) := by
  intro path
  induction path with
  | nil =>
    intro leading cs steps _ hcs h
    have hend : cs ++ (continued []).toList = cs := List.append_nil cs
    rw [hend, List.splitOn_eq_singleton hcs, readParts?, h]
    rfl
  | cons step rest ih =>
    intro leading cs steps hpath hcs h
    rw [continued, String.toList_append]
    cases step with
    | item index =>
      rw [toList_text_item, ← List.append_assoc, ih hpath.tail ?_ (readPart?_index h index), List.append_assoc]
      · rfl
      · exact fun hmem => (List.mem_append.1 hmem).elim hcs (point_not_mem_index index)
    | member place key =>
      have hkey := hpath place key List.mem_cons_self
      rw [toList_text_member, List.cons_append, List.splitOn_append_cons_self_of_not_mem hcs, readParts?, h,
        ih hpath.tail hkey.2.1 (readPart?_key hkey false)]
      rfl

/-- What is read from the location of a path are the steps of the path. -/
theorem readLocation?_location {path : Path} (h : PlainPath path) :
    readLocation? (location path) = some (path.map PathStep.access) := by
  cases path with
  | nil => rfl
  | cons step rest =>
    cases step with
    | item index =>
      have hnone : readPart? true [] = some [] := rfl
      have hread := readParts?_continued h List.not_mem_nil hnone
      rw [List.nil_append] at hread
      rw [readLocation?, location, ← PathStep.text, ← continued]
      exact hread
    | member place key =>
      have hkey := h place key List.mem_cons_self
      rw [readLocation?, location, if_neg hkey.1, String.toList_append]
      exact readParts?_continued h.tail hkey.2.1 (readPart?_key hkey true)

/-! ### Paths within definitions -/

/-- Definitions of which every object has each of its keys once, and keys that can be told. -/
inductive Addressable : Json → Prop
  | null : Addressable .null
  | bool (b : Bool) : Addressable (.bool b)
  | number (n : Number) : Addressable (.number n)
  | string (s : String) : Addressable (.string s)
  | array {items : List Json} : (∀ v ∈ items, Addressable v) → Addressable (.array items)
  | object {members : Members Json} : members.Distinct → (∀ m ∈ members, PlainKey m.1) →
    (∀ m ∈ members, Addressable m.2) → Addressable (.object members)

variable {definitions v w : Json} {path other : Path} {step : PathStep}

/-- A key stands at one place. -/
theorem place_inj {members : Members Json} {place place' : Nat} {key : String} (h : members.Distinct)
    (hplace : members[place]? = some (key, v)) (hplace' : members[place']? = some (key, w)) : place = place' := by
  have hkey : (members.map Prod.fst)[place]? = some key := by rw [List.getElem?_map, hplace]; rfl
  have hkey' : (members.map Prod.fst)[place']? = some key := by rw [List.getElem?_map, hplace']; rfl
  obtain ⟨hlt, -⟩ := List.getElem?_eq_some_iff.1 hkey
  exact (List.getElem?_inj hlt h).1 (hkey.trans hkey'.symm)

theorem Addressable.into (h : Addressable v) (hstep : step.into? v = some w) : Addressable w := by
  cases step with
  | member place key =>
    obtain ⟨members, rfl, hmember⟩ := PathStep.into?_member_eq_some_iff.1 hstep
    cases h with
    | object _ _ hvalues => exact hvalues _ (List.mem_of_getElem? hmember)
  | item index =>
    obtain ⟨items, rfl, hitem⟩ := PathStep.into?_item_eq_some_iff.1 hstep
    cases h with
    | array hitems => exact hitems _ (List.mem_of_getElem? hitem)

/-- A step leads to the same value by what a location tells of it. -/
theorem Addressable.into?_access (h : Addressable v) (hstep : step.into? v = some w) :
    step.access.into? v = some w := by
  cases step with
  | member place key =>
    obtain ⟨members, rfl, hmember⟩ := PathStep.into?_member_eq_some_iff.1 hstep
    cases h with
    | object hdistinct _ _ => exact Members.get?_of_mem hdistinct (List.mem_of_getElem? hmember)
  | item index =>
    obtain ⟨items, rfl, hitem⟩ := PathStep.into?_item_eq_some_iff.1 hstep
    exact hitem

/-- Steps from one value that are told alike are the same. -/
theorem Addressable.step_inj (h : Addressable definitions) {step' : PathStep} (hstep : step.into? definitions = some v)
    (hstep' : step'.into? definitions = some w) (heq : step.access = step'.access) : step = step' := by
  cases step with
  | member place key =>
    cases step' with
    | item index => cases heq
    | member place' key' =>
      cases heq
      obtain ⟨members, rfl, hmember⟩ := PathStep.into?_member_eq_some_iff.1 hstep
      obtain ⟨_, hmembers, hmember'⟩ := PathStep.into?_member_eq_some_iff.1 hstep'
      cases hmembers
      cases h with
      | object hdistinct _ _ => rw [place_inj hdistinct hmember hmember']
  | item index =>
    cases step' with
    | member place key => cases heq
    | item index' =>
      cases heq
      rfl

theorem PlainPath.cons (h : Addressable v) (hstep : step.into? v = some w) (hrest : PlainPath path) :
    PlainPath (step :: path) := by
  intro place key hmem
  rcases List.mem_cons.1 hmem with rfl | hmem
  · obtain ⟨members, rfl, hmember⟩ := PathStep.into?_member_eq_some_iff.1 hstep
    cases h with
    | object _ hplain _ => exact hplain _ (List.mem_of_getElem? hmember)
  · exact hrest place key hmem

/-- A path that leads to a value has only keys that can be told, and what its location tells leads to that value. -/
theorem Addressable.at? (h : Addressable v) (hat : at? path v = some w) :
    PlainPath path ∧ follow? (path.map PathStep.access) v = some w := by
  induction path generalizing v with
  | nil => exact ⟨nofun, hat⟩
  | cons step rest ih =>
    obtain ⟨u, hstep, hrest⟩ := at?_cons_eq_some_iff.1 hat
    obtain ⟨hplain, hfollow⟩ := ih (h.into hstep) hrest
    exact ⟨hplain.cons h hstep, Option.bind_eq_some_iff.2 ⟨u, h.into?_access hstep, hfollow⟩⟩

theorem Addressable.valueAt?_location (h : Addressable definitions) (hat : Definitions.at? path definitions = some w) :
    valueAt? (location path) definitions = some w := by
  obtain ⟨hplain, hfollow⟩ := h.at? hat
  rw [valueAt?, readLocation?_location hplain]
  exact hfollow

/-- Paths to values that are told alike are the same. -/
theorem Addressable.path_inj (h : Addressable definitions) (hat : Definitions.at? path definitions = some v)
    (hat' : Definitions.at? other definitions = some w)
    (heq : path.map PathStep.access = other.map PathStep.access) : path = other := by
  induction path generalizing definitions other with
  | nil => exact (List.map_eq_nil_iff.1 heq.symm).symm
  | cons step rest ih =>
    cases other with
    | nil => cases heq
    | cons step' rest' =>
      obtain ⟨hhead, htail⟩ := List.cons.inj heq
      obtain ⟨u, hstep, hrest⟩ := at?_cons_eq_some_iff.1 hat
      obtain ⟨u', hstep', hrest'⟩ := at?_cons_eq_some_iff.1 hat'
      obtain rfl := h.step_inj hstep hstep' hhead
      cases hstep.symm.trans hstep'
      rw [ih (h.into hstep) hrest hrest' htail]

/-- Paths to values are written alike only if they are the same. -/
theorem Addressable.location_inj (h : Addressable definitions) (hat : Definitions.at? path definitions = some v)
    (hat' : Definitions.at? other definitions = some w) (heq : location path = location other) : path = other := by
  have hread := readLocation?_location (h.at? hat).1
  rw [heq, readLocation?_location (h.at? hat').1] at hread
  exact h.path_inj hat hat' (Option.some.inj hread).symm

/-! ### Issues -/

variable {keys : List String} {limit : Int} {text : String} {report : SyntaxReport}

theorem Holds.at? (h : Holds v path text) : at? path v = some (.string text) := by
  cases h with
  | string => rfl
  | item _ hitem => exact at?_cons_eq_some_iff.2 ⟨_, hitem, rfl⟩

/-- At an expression's path there is the text. -/
theorem IsSite.at? (h : IsSite keys v path text) : at? path v = some (.string text) := by
  induction h with
  | held hmember _ hv =>
    exact at?_cons_eq_some_iff.2 ⟨_, PathStep.into?_member_eq_some_iff.2 ⟨_, rfl, hmember⟩, hv.at?⟩
  | member hmember _ ih => exact at?_cons_eq_some_iff.2 ⟨_, PathStep.into?_member_eq_some_iff.2 ⟨_, rfl, hmember⟩, ih⟩
  | item hitem _ ih => exact at?_cons_eq_some_iff.2 ⟨_, PathStep.into?_item_eq_some_iff.2 ⟨_, rfl, hitem⟩, ih⟩

theorem text_of_report? (h : report? limit text = some report) : report.text = text := by
  unfold report? check at h
  split at h
  next => cases h
  next =>
    split at h
    next => cases h
    next =>
      cases h
      rfl

/-- Where objects have each of their keys once, and no key is empty or has a point or an opening bracket in it, the
    location of every issue leads back to the text that the issue has as its expression, and no two issues have the
    same location. -/
theorem issues_addressed (keys : List String) (limit : Int) {definitions : Json} (h : Addressable definitions) :
    (∀ issue ∈ issues keys limit definitions, valueAt? issue.location definitions = some (.string issue.report.text)) ∧
      ((issues keys limit definitions).map Issue.location).Nodup := by
  obtain ⟨found, hmem, hordered, hlisted⟩ := sites_lists keys definitions
  have hsites : sites keys "" definitions = found.map fun s => ⟨location s.1, s.2⟩ := by
    simp only [hlisted, locationFrom_root]
  have hat : ∀ s ∈ found, at? s.1 definitions = some (.string s.2) := fun s hs => ((hmem s.1 s.2).1 hs).at?
  obtain ⟨read, rest, rfl, -, hissues, -⟩ := findings_spec limit found
  rw [← hsites] at hissues
  have hread : ∀ s ∈ read, at? s.1 definitions = some (.string s.2) := fun s hs => hat s (List.mem_append_left _ hs)
  rw [issues, findingsWithin, hissues]
  constructor
  · intro issue hissue
    obtain ⟨s, hs, hsome⟩ := List.mem_filterMap.1 hissue
    obtain ⟨report, hreport, rfl⟩ := Option.map_eq_some_iff.1 hsome
    rw [text_of_report? hreport]
    exact h.valueAt?_location (hread s hs)
  · refine List.pairwise_map.2 (List.pairwise_filterMap.2 ((List.pairwise_append.1 hordered).1.imp_of_mem ?_))
    intro s t hs ht hbefore issue hissue issue' hissue' heq
    obtain ⟨_, -, rfl⟩ := Option.map_eq_some_iff.1 hissue
    obtain ⟨_, -, rfl⟩ := Option.map_eq_some_iff.1 hissue'
    exact hbefore.ne (h.location_inj (hread s hs) (hread t ht) heq)

/-- An item of an array that has a list of expressions, and an object with another expression within. -/
def sampleFlows : Json :=
  .array [.object [("path", .array [.string "a", .string "a["]), ("flow", .object [("argument", .string "b.")])]]

theorem addressable_sampleFlows : Addressable sampleFlows := by
  have hpath : Addressable (.array [.string "a", .string "a["]) := .array fun v hv => by
    rcases List.mem_pair.1 hv with rfl | rfl
    · exact .string "a"
    · exact .string "a["
  have hflow : Addressable (.object [("argument", .string "b.")]) :=
    .object (by decide) (by decide) fun m hm => List.mem_singleton.1 hm ▸ .string "b."
  refine .array fun v hv => List.mem_singleton.1 hv ▸ .object (by decide) (by decide) fun m hm => ?_
  rcases List.mem_pair.1 hm with rfl | rfl
  · exact hpath
  · exact hflow

/-- The locations of the two texts there that are no expressions lead to them. -/
theorem issues_addressed_sampleFlows :
    Addressable sampleFlows ∧
      (issues ["path", "argument"] 128 sampleFlows).map (fun issue => (issue.location, issue.report.text)) =
        [("[0].path[1]", "a["), ("[0].flow.argument", "b.")] ∧
      (∀ issue ∈ issues ["path", "argument"] 128 sampleFlows,
        valueAt? issue.location sampleFlows = some (.string issue.report.text)) ∧
      ((issues ["path", "argument"] 128 sampleFlows).map Issue.location).Nodup :=
  ⟨addressable_sampleFlows, by decide +kernel,
    (issues_addressed ["path", "argument"] 128 addressable_sampleFlows).1,
    (issues_addressed ["path", "argument"] 128 addressable_sampleFlows).2⟩

end JsonQuery.Definitions
