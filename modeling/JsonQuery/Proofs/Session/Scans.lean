import JsonQuery.Session
import JsonQuery.Proofs.Token.Scan
import Mathlib.Data.List.Induction
import Mathlib.Logic.Function.Iterate

/-! Scans within a session. A scan that is advanced step by step says what the tokens of its text, cut all at once,
    give by number. Of a request only two things matter to the scan of a name: whether it advances that scan, and
    whether it starts one anew under the name. So whatever else is asked in between, of this scan or of others, what a
    scan says next depends on the text that it was started with and on how often it was advanced. -/

namespace JsonQuery

/-! ### One scan -/

/-- What comes after the last of the tokens, by number: the token of the end or the fault, and then nothing. -/
def Ending.heard : Ending → Nat → Heard
  | .finish t, 0 => .token t
  | .fault f, 0 => .fault f
  | _, _ + 1 => .over

/-- What the tokens of a text give by number, and after the last of them its ending. -/
def Scan.heard (s : Scan) (k : Nat) : Heard :=
  match s.tokens[k]? with
  | some t => .token t
  | none => s.ending.heard (k - s.tokens.length)

theorem Scan.heard_succ (t : Token) (s : Scan) (k : Nat) :
    Scan.heard ⟨t :: s.tokens, s.ending⟩ (k + 1) = s.heard k := by
  rw [heard, heard, List.getElem?_cons_succ, List.length_cons, Nat.add_sub_add_right]

namespace Scanning

variable {text : String} {c after : Cursor} {t : Token}

theorem next_of_token (h : c.next = .token t after) :
    (⟨text, some c⟩ : Scanning).next = (.token t, ⟨text, some after⟩) := by
  simp only [next, h]

theorem next_of_finish (h : c.next = .finish t) :
    (⟨text, some c⟩ : Scanning).next = (.token t, ⟨text, none⟩) := by
  simp only [next, h]

theorem next_of_fault {f : LexicalFault} (h : c.next = .fault f) :
    (⟨text, some c⟩ : Scanning).next = (.fault f, ⟨text, none⟩) := by
  simp only [next, h]

theorem text_next (s : Scanning) : s.next.2.text = s.text := by
  obtain ⟨text, _ | c⟩ := s
  · rfl
  · cases hn : c.next with
    | token t after => rw [next_of_token hn]
    | finish t => rw [next_of_finish hn]
    | fault f => rw [next_of_fault hn]

/-- The scan after some steps. -/
def advanced (k : Nat) (s : Scanning) : Scanning := (fun s : Scanning => s.next.2)^[k] s

theorem advanced_succ (k : Nat) (s : Scanning) : s.advanced (k + 1) = s.next.2.advanced k :=
  Function.iterate_succ_apply _ k s

theorem next_advanced (k : Nat) (s : Scanning) : (s.advanced k).next.2 = s.advanced (k + 1) :=
  (Function.iterate_succ_apply' (fun s : Scanning => s.next.2) k s).symm

theorem text_advanced : ∀ (k : Nat) (s : Scanning), (s.advanced k).text = s.text := by
  intro k
  induction k with
  | zero => exact fun _ => rfl
  | succ k ih =>
    intro s
    rw [advanced_succ, ih, text_next]

/-- A scan that is over stays so. -/
theorem next_of_over (text : String) : ∀ k : Nat, ((⟨text, none⟩ : Scanning).advanced k).next.1 = .over := by
  intro k
  induction k with
  | zero => rfl
  | succ k ih => rwa [advanced_succ]

/-- Step by step a scan says what is cut from its cursor on all at once. -/
theorem next_of_cursor (text : String) : ∀ (k : Nat) (c : Cursor),
    ((⟨text, some c⟩ : Scanning).advanced k).next.1 = c.scan.heard k := by
  intro k
  induction k with
  | zero =>
    intro c
    show (⟨text, some c⟩ : Scanning).next.1 = _
    cases hn : c.next with
    | token t after => rw [next_of_token hn, Cursor.scan_of_token hn]; rfl
    | finish t => rw [next_of_finish hn, Cursor.scan_of_finish hn]; rfl
    | fault f => rw [next_of_fault hn, Cursor.scan_of_fault hn]; rfl
  | succ k ih =>
    intro c
    rw [advanced_succ]
    cases hn : c.next with
    | token t after => rw [next_of_token hn, ih, Cursor.scan_of_token hn, Scan.heard_succ]
    | finish t => rw [next_of_finish hn, next_of_over, Cursor.scan_of_finish hn]; rfl
    | fault f => rw [next_of_fault hn, next_of_over, Cursor.scan_of_fault hn]; rfl

theorem next_of_start (text : String) (k : Nat) :
    ((start text).advanced k).next.1 = (Scan.ofText text.toList).heard k := next_of_cursor text k _

end Scanning

namespace Session

variable {stack : EvaluatorStack} {s : Session} {r : Request} {name stream text : String}

/-! ### Requests -/

/-- The text that a request gives a stream, if it creates that stream. -/
def Request.creates? (stream : String) : Request → Option String
  | .stream name text => if name = stream then some text else none
  | _ => none

/-- Whether a request advances the scan of a name. -/
def Request.advances (name : String) : Request → Bool
  | .next n => n == name
  | _ => false

/-- The text that a stream has after some requests: the last that it was created with. -/
def lastText (stream : String) (rs : List Request) : Option String :=
  (rs.filterMap (Request.creates? stream)).getLast?

/-- The session after some requests. -/
def after (stack : EvaluatorStack) (s : Session) (rs : List Request) : Session :=
  rs.foldl (fun s r => (s.handle stack r).2) s

theorem lastText_concat (stream : String) (rs : List Request) (r : Request) :
    lastText stream (rs ++ [r]) = (r.creates? stream).or (lastText stream rs) := by
  rw [lastText, List.filterMap_append, List.getLast?_append, lastText, List.filterMap_cons]
  cases r.creates? stream <;> rfl

theorem after_concat (s : Session) (rs : List Request) (r : Request) :
    s.after stack (rs ++ [r]) = ((s.after stack rs).handle stack r).2 := by
  rw [after, List.foldl_append]
  rfl

/-- A request is answered by the session that the requests before it leave. -/
theorem run_append_cons : ∀ (s : Session) (rs : List Request) (r : Request) (rest : List Request),
    (s.run stack (rs ++ r :: rest))[rs.length]? = some ((s.after stack rs).handle stack r).1 := by
  intro s rs r rest
  induction rs generalizing s with
  | nil => rfl
  | cons q rs ih => exact ih (s.handle stack q).2

/-! ### What one request changes -/

/-- The texts of streams change just as streams are created. -/
theorem texts_handle (s : Session) (r : Request) (stream : String) :
    (s.handle stack r).2.texts.get? stream = (r.creates? stream).or (s.texts.get? stream) := by
  cases r with
  | stream name text =>
    rw [handle, Members.get?_put, Request.creates?]
    split <;> rfl
  | extend | table | scan | next => simp only [handle]; split <;> rfl
  | compile | search =>
    simp only [handle]
    split
    · rfl
    · split <;> rfl

/-- A scan is started at the text that its stream has. -/
theorem scans_of_start (h : s.texts.get? stream = some text) :
    (s.handle stack (.scan name stream)).2.scans.get? name = some (.start text) := by
  rw [handle, h]
  simp only [Members.get?_put, if_true]

/-- A request that advances a scan takes it one step further. -/
theorem scans_of_advances {scan : Scanning} (hr : r.advances name = true) (h : s.scans.get? name = some scan) :
    (s.handle stack r).2.scans.get? name = some scan.next.2 := by
  cases r with
  | next n =>
    obtain rfl := beq_iff_eq.1 hr
    rw [handle, h]
    simp only [Members.get?_put, if_true]
  | _ => cases hr

/-- Every other request leaves a scan as it is, unless it starts one under the same name. -/
theorem scans_of_other (hr : r.advances name = false)
    (hstart : ∀ stream, r = .scan name stream → s.texts.get? stream = none) :
    (s.handle stack r).2.scans.get? name = s.scans.get? name := by
  cases r with
  | scan n stream =>
    cases htext : s.texts.get? stream with
    | none => rw [handle, htext]
    | some text =>
      have hne : n ≠ name := by
        rintro rfl
        cases htext.symm.trans (hstart stream rfl)
      rw [handle, htext]
      simp only [Members.get?_put, if_neg hne]
  | next n =>
    have hne : n ≠ name := beq_eq_false_iff_ne.1 hr
    rw [handle]
    split
    next => rfl
    next => simp only [Members.get?_put, if_neg hne]
  | stream => rfl
  | extend | table => simp only [handle]; split <;> rfl
  | compile | search =>
    simp only [handle]
    split
    · rfl
    · split <;> rfl

/-! ### What requests come to -/

theorem texts_after (stream : String) (rs : List Request) :
    (new.after stack rs).texts.get? stream = lastText stream rs := by
  induction rs using List.reverseRecOn with
  | nil => rfl
  | append_singleton rs r ih => rw [after_concat, texts_handle, ih, lastText_concat]

/-- A scan, after whatever requests that start no other under its name, is where its own advances take it. -/
theorem scans_after {before since : List Request} (htext : lastText stream before = some text)
    (hkept : ∀ mid other more, since = mid ++ .scan name other :: more →
      lastText other (before ++ .scan name stream :: mid) = none) :
    (new.after stack (before ++ .scan name stream :: since)).scans.get? name =
      some ((Scanning.start text).advanced (since.countP (Request.advances name))) := by
  induction since using List.reverseRecOn with
  | nil =>
    rw [after_concat]
    exact scans_of_start ((texts_after stream before).trans htext)
  | append_singleton since r ih =>
    have ih := ih fun mid other more h => hkept mid other (more ++ [r]) (by rw [h]; simp)
    rw [← List.cons_append, ← List.append_assoc, after_concat, List.countP_append, List.countP_singleton]
    cases hr : r.advances name with
    | true => rw [scans_of_advances hr ih, Scanning.next_advanced, if_pos rfl]
    | false =>
      rw [scans_of_other hr, ih]
      · rfl
      · rintro other rfl
        rw [texts_after]
        exact hkept since other [] rfl

/-- What a scan says next, within whatever requests. It was started at the text that its stream had at that time, and no
    other was started under its name since; whether its stream was created anew, other scans were started or advanced,
    or anything else was asked, makes no difference. As often as it was advanced since, so many of the tokens of its
    text, cut all at once, have been said; after the last of them come the token of the end or the fault, once, and
    then nothing more. -/
theorem next_of_scan (stack : EvaluatorStack) {before since : List Request} (rest : List Request)
    (htext : lastText stream before = some text)
    (hkept : ∀ mid other more, since = mid ++ .scan name other :: more →
      lastText other (before ++ .scan name stream :: mid) = none) :
    (new.run stack ((before ++ .scan name stream :: since) ++ .next name :: rest))[before.length + 1 + since.length]? =
      some (.heard text ((Scan.ofText text.toList).heard (since.countP (Request.advances name)))) := by
  have hlength : before.length + 1 + since.length = (before ++ .scan name stream :: since).length := by
    rw [List.length_append, List.length_cons]
    omega
  rw [hlength, run_append_cons, handle, scans_after htext hkept]
  simp only [Scanning.text_advanced, Scanning.next_of_start]
  rfl

/-- A scan of a text with a fault, which another scan, a new text for its stream and a start that fails leave alone. -/
theorem next_of_scan_fault : (new.run (.ample 0) [.stream "s" "a #", .stream "t" "b.c", .scan "x" "s", .scan "y" "t",
      .next "x", .stream "s" "d", .scan "x" "u", .next "y", .next "x"])[8]? =
    some (.heard "a #" (.fault ⟨.unknownCharacter '#', 2⟩)) := by
  have hscan : Scan.ofText "a #".toList = ⟨[⟨.name "a", 0, 1, 0⟩], .fault ⟨.unknownCharacter '#', 2⟩⟩ := by
    decide +kernel
  have hnext := @next_of_scan "x" "s" "a #" (.ample 0) [.stream "s" "a #", .stream "t" "b.c"]
    [.scan "y" "t", .next "x", .stream "s" "d", .scan "x" "u", .next "y"] [] rfl ?_
  · rw [hscan] at hnext
    exact hnext
  · intro mid other more h
    -- the only start of a scan under the name is the fourth request
    rcases mid with _ | ⟨_, _ | ⟨_, _ | ⟨_, _ | ⟨_, _ | ⟨_, _⟩⟩⟩⟩⟩ <;> simp at h
    obtain ⟨rfl, rfl, rfl, rfl, -⟩ := h
    rfl

end Session
end JsonQuery
