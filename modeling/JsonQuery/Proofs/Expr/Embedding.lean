import JsonQuery.Proofs.Expr.Printer
import JsonQuery.Query

/-! Values as expressions. The compact text of a value, with a backslash before each back-tick and between two
    back-ticks, is an expression that has the value at every document. The backslashes of the compact text
    stand before characters other than a back-tick, so those that are added cannot be confused with them. -/

namespace JsonQuery

/-- The compact text of a value: the one that `to_string` gives, but for a string, of which it is the quoted
    text. -/
def Json.CompactText : Json → String → Prop
  | .string s, text => text = String.ofList (Json.quotedString s)
  | v, text => Builtin.toString v = .ok (.string text)

/-- A text as a literal: between back-ticks, and with a backslash before each back-tick of its own. -/
def literalText (text : String) : String :=
  String.ofList ('\x60' :: (text.toList.flatMap Lexeme.escapedLiteral ++ ['\x60']))

theorem Value.toJson_self (v : Json) : v.toJson = v := by
  have h := Value.toJson_lift (ρ := Empty) v
  rwa [Value.lift_self] at h

theorem Json.CompactText.eq_text {v : Json} {text : String} (h : v.CompactText text) : text = Json.text v := by
  have hprinted : ∀ {w : Json},
      Builtin.toString w = (if w.toJson.isWritable then .ok (.string w.toJson.text) else .error .overlong) →
      Builtin.toString w = .ok (.string text) → text = Json.text w := by
    intro w hw ht
    rw [hw] at ht
    split at ht
    next =>
      cases ht
      rw [Value.toJson_self]
    next => cases ht
  cases v with
  | string s => exact h
  | reference r => exact nomatch r
  | _ => exact hprinted rfl h

mutual

/-- What JSON text can hold is written. -/
theorem Json.isWritable_of_writable : ∀ {v : Json}, v.Writable → v.isWritable = true
  | .null, _ | .bool _, _ | .string _, _ => rfl
  | .number _, h => h.2
  | .array _, h => itemsWritable_of_writable h
  | .object _, h => membersWritable_of_writable h.2

theorem Json.itemsWritable_of_writable : ∀ {items : List Json}, WritableItems items → itemsWritable items = true
  | [], _ => rfl
  | _ :: _, ⟨hx, hrest⟩ => by
    rw [itemsWritable, isWritable_of_writable hx, itemsWritable_of_writable hrest, Bool.and_self]

theorem Json.membersWritable_of_writable : ∀ {members : List (String × Json)}, WritableMembers members →
    membersWritable members = true
  | [], _ => rfl
  | (_, _) :: _, ⟨hv, hrest⟩ => by
    rw [membersWritable, isWritable_of_writable hv, membersWritable_of_writable hrest, Bool.and_self]

end

/-- A value that JSON text can hold has its text as its compact text. -/
theorem Json.compactText_of_writable {v : Json} (h : v.Writable) : v.CompactText v.text := by
  have hprinted {w : Json} (hw : w.Writable) :
      (if w.toJson.isWritable then .ok (.string w.toJson.text) else .error .overlong : Except EvalError Json) =
        .ok (.string w.text) := by
    rw [Value.toJson_self, if_pos (isWritable_of_writable hw)]
  cases v with
  | string s => exact rfl
  | reference r => exact nomatch r
  | _ => exact hprinted h

namespace Expr

variable {v : Json} {limit : Int}

/-- The literal of a text is one token. -/
theorem cut_literalText {text : String} (hticks : Lexeme.Unticked text.toList) :
    Cut (literalText text).toList [.literal text] := by
  have hseparate : Separate [.literal text] := separate_cons hticks (fun _ => rfl) trivial
  have hspellings : spellings [.literal text] = (literalText text).toList := by
    rw [literalText, String.toList_ofList]
    exact List.append_nil _
  rw [← hspellings]
  exact cut_of_separate hseparate

/-- The literal of a JSON text is read as a literal of what the text stands for. -/
theorem parse_literal {text : String} (hticks : Lexeme.Unticked text.toList)
    (h : Json.read .literal text.toList = .ok v) (hlimit : 1 ≤ limit) :
    parse (literalText text) limit = .ok (literal v) :=
  parse_of_cut (cut_literalText hticks) hlimit (Grammar.pipeline_of_postfixed (.primary (.literal h)))

/-- The literal of a value is read as a literal. -/
theorem parse_literalText (h : v.Writable) (hlimit : 1 ≤ limit) :
    parse (literalText (Json.text v)) limit = .ok (literal v) :=
  parse_literal (legible_literal v) (Json.read_text h) hlimit

theorem evaluate_literal (v document : Json) (hlimit : 1 ≤ limit) :
    evaluate (.plain Builtin.table limit) (literal v) document = .ok v := by
  have hlevel : ¬ (Environment.plain Builtin.table limit).limit < Place.root.level + 1 := by
    show ¬ limit < 0 + 1
    omega
  rw [evaluate, visit, Environment.enter_of hlevel, Value.lift_self]
  rfl

end Expr

/-- Searching with the literal of a value finds the value itself, whatever the document. -/
theorem search_literalText {v : Json} (h : v.Writable) {text : String} (htext : v.CompactText text)
    {limit : Int} (hlimit : 1 ≤ limit) (document : Json) :
    search (literalText text) document limit = .ok v := by
  rw [htext.eq_text, search_eq, Expr.parse_literalText h hlimit]
  dsimp only
  rw [Expr.evaluate_literal v document hlimit]
  rfl

/-- A value with a back-tick in a key and one after a backslash, and with an integer and a double that are equal
    numbers. -/
def tickedValue : Json :=
  .object [("z\x60", .array [.string "\\\x60", .int 1,
    .number (.double (.finite false (1 <<< 52) 1022 (by decide)))]), ("a", .null)]

/-- The compact text of that value. -/
def tickedText : String := "\x7b\x22z\x60\x22:[\x22\\\\\x60\x22,1,1.0],\x22a\x22:null\x7d"

theorem search_literalText_ticks :
    literalText tickedText = "\x60\x7b\x22z\\\x60\x22:[\x22\\\\\\\x60\x22,1,1.0],\x22a\x22:null\x7d\x60" ∧
    search (literalText tickedText) (.bool true) 1 = .ok tickedValue := by
  have hkeys : ["z\x60", "a"].Nodup := by decide
  have hone : Json.Writable (.int 1) := ⟨rfl, Number.isWritable_digit (by decide)⟩
  have hwritable : tickedValue.Writable := ⟨hkeys, ⟨trivial, hone, ⟨rfl, rfl⟩, trivial⟩, trivial, trivial⟩
  have htext : tickedText = tickedValue.text := by decide +kernel
  have hcompact : tickedValue.CompactText tickedText := htext ▸ Json.compactText_of_writable hwritable
  exact ⟨by decide +kernel, search_literalText hwritable hcompact (Int.le_refl 1) (.bool true)⟩

end JsonQuery
