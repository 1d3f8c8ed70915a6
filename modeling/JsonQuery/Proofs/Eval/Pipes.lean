import JsonQuery.Proofs.Eval.Moved
import JsonQuery.Proofs.Expr.Length
import JsonQuery.Proofs.Token.Append
import JsonQuery.Query

/-! Pipes. A pipe binds least and groups to the left. So where a pipeline is put after another, with a pipe
    between them, the first becomes the innermost left side of the pipes of the second. As each side of a pipe
    sees a plain value, searching with both in one text is searching with the second what the first finds. -/

namespace JsonQuery

open Grammar

namespace Expr

/-- The tree of a pipeline after another one: the tree of the first is piped into the innermost left side of
    the pipes at the top of the second, of as many of them as are not in parentheses. -/
inductive PipedInto (first : Expr) : Expr → Expr → Prop
  | whole (second : Expr) : PipedInto first second (.pipe first second)
  | left {l t : Expr} (r : Expr) : PipedInto first l t → PipedInto first (.pipe l r) (.pipe t r)

/-- Two pipelines with a pipe between them are a pipeline. -/
theorem pipeline_append {ls : List Lexeme} {first : Expr} (hfirst : Pipeline ls first) :
    ∀ {ms : List Lexeme} {second : Expr}, Pipeline ms second →
      ∃ t, PipedInto first second t ∧ Pipeline (ls ++ .mark .pipe :: ms) t
  | _, second, .disjunction h => ⟨_, .whole second, .pipe hfirst h⟩
  | _, .pipe _ r, .pipe hl hr => by
    obtain ⟨t, hinto, ht⟩ := pipeline_append hfirst hl
    have happend := Pipeline.pipe ht hr
    rw [List.append_assoc] at happend
    exact ⟨_, .left r hinto, happend⟩

variable {functions : FunctionTable Empty} {limit : Int} {first second t : Expr}

theorem visit_pipe {l r : Expr} {place : Place} {v : Json}
    (h : (place.level : Int) + (pipe l r).height ≤ limit) :
    visit (.plain functions limit) (pipe l r) place v =
      (do
        let x ← visit (.plain functions limit) l (place.child 0) v
        visit (.plain functions limit) r (place.child 1) x.collapse) := by
  have hlevel : ¬ (Environment.plain functions limit).limit < place.level + 1 := not_too_deep h
  rw [visit, Environment.enter_of hlevel]

/-- At places at which there is room, a pipeline after another denotes what the second does at what the first
    gives. -/
theorem visit_pipedInto (h : PipedInto first second t) : ∀ {place place₁ place₂ : Place} (v : Json),
    (place.level : Int) + t.height ≤ limit → (place₁.level : Int) + first.height ≤ limit →
    (place₂.level : Int) + second.height ≤ limit →
    visit (.plain functions limit) t place v =
      (do
        let x ← visit (.plain functions limit) first place₁ v
        visit (.plain functions limit) second place₂ x.collapse) := by
  induction h with
  | whole second =>
    intro place place₁ place₂ v hplace h₁ h₂
    have hfirst := child_within 0 hplace (Nat.le_max_left first.height second.height)
    have hsecond := child_within 1 hplace (Nat.le_max_right first.height second.height)
    rw [visit_pipe hplace, visit_moved first v ⟨hfirst, h₁⟩]
    exact bind_congr fun x => visit_moved second x.collapse ⟨hsecond, h₂⟩
  | @left l t r _ ih =>
    intro place place₁ place₂ v hplace h₁ h₂
    -- the last pipe is the same on both sides, and what is to its left has changed as the hypothesis says
    have hl := child_within 0 h₂ (Nat.le_max_left l.height r.height)
    have hr := child_within 1 h₂ (Nat.le_max_right l.height r.height)
    have ht := child_within 0 hplace (Nat.le_max_left t.height r.height)
    have hr' := child_within 1 hplace (Nat.le_max_right t.height r.height)
    rw [visit_pipe hplace, ih v ht h₁ hl, bind_assoc]
    refine bind_congr fun x => ?_
    rw [visit_pipe h₂]
    exact bind_congr fun y => visit_moved r y.collapse ⟨hr', hr⟩

theorem evaluate_pipedInto (h : PipedInto first second t) (ht : t.height ≤ limit) (h₁ : first.height ≤ limit)
    (h₂ : second.height ≤ limit) (document : Json) :
    evaluate (.plain functions limit) t document =
      (do evaluate (.plain functions limit) second (← evaluate (.plain functions limit) first document)) := by
  have hroot {n : Nat} (hn : n ≤ limit) : (Place.root.level : Int) + n ≤ limit := by
    simpa [Place.root] using hn
  simp only [evaluate, visit_pipedInto h document (hroot ht) (hroot h₁) (hroot h₂), bind_assoc, pure_bind]

end Expr

theorem Cut.pipe {first second : List Char} {ls ms : List Lexeme} (hfirst : Cut first ls)
    (hsecond : Cut second ms) : Cut (first ++ " | ".toList ++ second) (ls ++ .mark .pipe :: ms) := by
  have hskip : Json.skipSpace (' ' :: second) = Json.skipSpace second := rfl
  have hpipe : Cut ('|' :: ' ' :: second) (.mark .pipe :: ms) := .cons rfl rfl (hsecond.of_skipSpace hskip)
  rw [List.append_assoc]
  exact hfirst.append_blank rfl hpipe

/-- Searching with two texts that are joined by a pipe is searching with the first, and then searching what it
    finds with the second, if the limit is at least the number of tokens of the whole. -/
theorem search_pipe {first second : String} {bound₁ bound₂ limit : Int} {e₁ e₂ : Expr}
    (h₁ : Expr.parse first bound₁ = .ok e₁) (h₂ : Expr.parse second bound₂ = .ok e₂)
    (hlimit : (Scan.ofText (first ++ " | " ++ second).toList).tokens.length ≤ limit) (document : Json) :
    search (first ++ " | " ++ second) document limit =
      (do search second (← search first document limit) limit) := by
  obtain ⟨ls, hcut₁, hfirst⟩ := Expr.cut_of_parse h₁
  obtain ⟨ms, hcut₂, hsecond⟩ := Expr.cut_of_parse h₂
  obtain ⟨t, hinto, ht⟩ := Expr.pipeline_append hfirst hsecond
  have hcut : Cut (first ++ " | " ++ second).toList (ls ++ .mark .pipe :: ms) := by
    rw [String.toList_append, String.toList_append]
    exact hcut₁.pipe hcut₂
  have hlength : (ls ++ .mark .pipe :: ms).length = ls.length + (ms.length + 1) := List.length_append
  rw [hcut.length_tokens] at hlimit
  have hparse := Expr.parse_of_cut hcut hlimit ht
  have hparse₁ : Expr.parse first limit = .ok e₁ := Expr.parse_of_cut hcut₁ (by omega) hfirst
  have hparse₂ : Expr.parse second limit = .ok e₂ := Expr.parse_of_cut hcut₂ (by omega) hsecond
  have hheight := Expr.height_pipeline ht
  have hheight₁ := Expr.height_pipeline hfirst
  have hheight₂ := Expr.height_pipeline hsecond
  have hevaluate : t.evaluate (.plain Builtin.table limit) document =
      (do
        let x ← e₁.evaluate (.plain Builtin.table limit) document
        e₂.evaluate (.plain Builtin.table limit) x) :=
    Expr.evaluate_pipedInto hinto (by omega) (by omega) (by omega) document
  simp only [search_eq, hparse, hparse₁, hparse₂, hevaluate]
  cases e₁.evaluate (.plain Builtin.table limit) document <;> rfl

/-- The first of the items that a wildcard gives, and not what is first in each of them. -/
theorem search_pipe_first : search ("a[*]" ++ " | " ++ "[0].b | @")
    (.object [("a", .array [.object [("b", .int 1)], .object [("b", .int 2)]])]) 12 = .ok (.int 1) := by
  have hitems : Expr.parse "a[*]" 12 = .ok (.arrayWildcard (some (.identifier "a"))) := by
    have hcut : Cut "a[*]".toList [.name "a", .mark .lbracket, .mark .star, .mark .rbracket] := by
      decide +kernel
    exact Expr.parse_of_cut hcut (by decide)
      (pipeline_of_postfixed (.suffixed (.primary (.name "a")) (.bracketed .items)))
  have hfirst : Expr.parse "[0].b | @" 12 = .ok
      (.pipe (.subexpression (.index none 0) (.identifier "b")) .current) := by
    have hcut : Cut "[0].b | @".toList [.mark .lbracket, .number 0, .mark .rbracket, .mark .dot, .name "b",
      .mark .pipe, .mark .current] := by decide +kernel
    have hindex := Postfixed.primary (.bracketed (.selector (.index (.plain 0))))
    have hcurrent := Operands.postfixed (.primary .current)
    exact Expr.parse_of_cut hcut (by decide) (.pipe
      (pipeline_of_postfixed (.suffixed hindex (.field (.name "b"))))
      (.conjunction (.comparison (.operands hcurrent))))
  rw [search_pipe hitems hfirst (by decide +kernel)]
  simp only [search_eq, hitems, hfirst]
  rfl

end JsonQuery
