import JsonQuery.Proofs.Token.Tiling

/-! The blanks of a text. Where no token stands, a text can be taken apart: what comes before is cut into the
    first of its lexemes and what comes after into the others. So blanks may be put in at the boundaries of
    tokens, and blanks between tokens may be replaced by others, without a change to the lexemes. -/

namespace JsonQuery

/-- The tokens of a scan, with the one at the end if there is no fault. -/
def Scan.row (s : Scan) : List Token :=
  match s.ending with
  | .finish last => s.tokens ++ [last]
  | .fault _ => s.tokens

theorem Scan.row_of_finish {s : Scan} {last : Token} (h : s.ending = .finish last) : s.row = s.tokens ++ [last] := by
  rw [row, h]

/-- A position of a text at which a token starts or stops; the end of the text is one too. -/
def IsBoundary (text : String) (p : Nat) : Prop :=
  ∃ t ∈ (Scan.ofText text.toList).row, p = t.start ∨ p = t.stop

/-- Two positions of a text with no token between them. -/
structure Gap (text : String) (p q : Nat) : Prop where
  le : p ≤ q
  le_length : q ≤ text.length
  off_tokens : ∀ t ∈ (Scan.ofText text.toList).tokens, t.stop ≤ p ∨ q ≤ t.start

/-- A text with what is between two positions replaced by other characters. -/
def relaid (text : String) (p q : Nat) (more : List Char) : String :=
  String.ofList (text.toList.take p ++ more ++ text.toList.drop q)

theorem drop_drop_sub {α : Type} {p q : Nat} (xs : List α) (h : p ≤ q) :
    (xs.drop p).drop (q - p) = xs.drop q := by
  rw [List.drop_drop, Nat.add_sub_cancel' h]

theorem extract_append_drop {α : Type} {p q : Nat} (xs : List α) (h : p ≤ q) :
    xs.extract p q ++ xs.drop q = xs.drop p := by
  rw [List.extract_eq_take_drop, ← drop_drop_sub xs h, List.take_append_drop]

theorem extract_append_extract {α : Type} {p q r : Nat} (xs : List α) (hpq : p ≤ q) (hqr : q ≤ r) :
    xs.extract p q ++ xs.extract q r = xs.extract p r := by
  obtain ⟨m, rfl⟩ := Nat.exists_eq_add_of_le hpq
  obtain ⟨n, rfl⟩ := Nat.exists_eq_add_of_le hqr
  simp only [List.extract_eq_take_drop, Nat.add_assoc, Nat.add_sub_cancel_left, Nat.add_sub_add_left]
  rw [List.take_add, List.drop_drop]

namespace BlankBetween

variable {cs : List Char} {p p' q q' : Nat}

theorem mono (h : BlankBetween cs p q) (hp : p ≤ p') (hle : p' ≤ q') (hq : q' ≤ q) : BlankBetween cs p' q' where
  le := hle
  le_length := Nat.le_trans hq h.le_length
  blank i hi hip hiq := h.blank i hi (Nat.le_trans hp hip) (Nat.lt_of_lt_of_le hiq hq)

theorem skipSpace_extract (h : BlankBetween cs p q) : Json.skipSpace (cs.extract p q) = [] := by
  refine List.dropWhile_eq_nil_iff.2 fun c hc => ?_
  rw [List.extract_eq_take_drop] at hc
  obtain ⟨i, hi, rfl⟩ := List.mem_iff_getElem.1 hc
  simp only [List.length_take, List.length_drop] at hi
  simp only [List.getElem_take, List.getElem_drop]
  exact h.blank (p + i) (by omega) (Nat.le_add_right p i) (by omega)

theorem cut_extract (h : BlankBetween cs p q) : Cut (cs.extract p q) [] := .nil h.skipSpace_extract

/-- What comes after some blanks is cut as they and what comes after them are. -/
theorem cut_drop_iff (h : BlankBetween cs p q) {ls : List Lexeme} :
    Cut (cs.drop p) ls ↔ Cut (cs.drop q) ls := by
  have hskip : Json.skipSpace (cs.drop p) = Json.skipSpace (cs.drop q) := by
    rw [← extract_append_drop cs h.le, Cut.skipSpace_append_of_nil h.skipSpace_extract]
  exact ⟨Cut.of_skipSpace hskip.symm, Cut.of_skipSpace hskip⟩

end BlankBetween

/-! ### Texts in two parts -/

/-- Where no token stands across a position, the text from the cursor to there and the text after it are cut
    into the lexemes of the one and then of the other. -/
theorem Cursor.cut_split {cs : List Char} {c : Cursor} {last : Token} {p : Nat} (hc : c.On cs)
    (hle : c.position ≤ p) (hlength : p ≤ cs.length) (hlast : c.scan.ending = .finish last)
    (hoff : ∀ t ∈ c.scan.tokens, t.stop ≤ p ∨ p ≤ t.start) :
    ∃ ls ms, c.scan.tokens.map Token.lexeme = ls ++ ms ∧ Cut (cs.extract c.position p) ls ∧
      Cut (cs.drop p) ms := by
  have hcut := cut_of_scan hlast
  rw [hc.rest] at hcut
  have hfrom := next_from hc
  cases hn : c.next with
  | finish t =>
    rw [hn] at hfrom
    rw [scan_of_finish hn] at hcut ⊢
    cases hfrom with
    | finish hblank =>
      have hblank := hblank.mono (Nat.le_refl _) hle hlength
      exact ⟨[], [], rfl, hblank.cut_extract, hblank.cut_drop_iff.1 hcut⟩
  | fault f =>
    rw [scan_of_fault hn] at hlast
    cases hlast
  | token t after =>
    rw [hn] at hfrom
    rw [scan_of_token hn] at hcut hlast hoff ⊢
    obtain ⟨ht, hoff⟩ := List.forall_mem_cons.1 hoff
    cases hfrom with
    | token hblank hread _ hafter hstop =>
      rcases ht with ht | ht
      · obtain ⟨ls, ms, hsplit, hls, hms⟩ := cut_split hafter (hstop ▸ ht) hlength hlast hoff
        refine ⟨t.lexeme :: ls, ms, congrArg _ hsplit, ?_, hms⟩
        rw [hstop] at hls
        refine (hread.cut ht hls).of_skipSpace ?_
        rw [← extract_append_extract cs hblank.le (Nat.le_trans hread.lt.le ht),
          Cut.skipSpace_append_of_nil hblank.skipSpace_extract]
      · have hblank := hblank.mono (Nat.le_refl _) hle ht
        exact ⟨[], _, rfl, hblank.cut_extract, hblank.cut_drop_iff.1 hcut⟩
termination_by c.rest.length
decreasing_by exact c.length_lt_of_next hn

/-! ### Gaps -/

section
variable {text : String} {last : Token} {p q : Nat}

/-- Of two tokens in a tiling one ends before the other starts, if they are not the same. -/
theorem Tiling.eq_or_apart {cs : List Char} {ts : List Token} (h : Tiling cs p ts q) {t u : Token} (ht : t ∈ ts)
    (hu : u ∈ ts) : t = u ∨ t.stop ≤ u.start ∨ u.stop ≤ t.start := by
  have hordered := List.pairwise_iff_getElem.1 h.ordered
  obtain ⟨i, hi, rfl⟩ := List.mem_iff_getElem.1 ht
  obtain ⟨j, hj, rfl⟩ := List.mem_iff_getElem.1 hu
  rcases Nat.lt_trichotomy i j with hij | rfl | hij
  · exact .inr (.inl (hordered i j hi hj hij))
  · exact .inl rfl
  · exact .inr (.inr (hordered j i hj hi hij))

theorem gap_of_boundary (h : IsBoundary text p) (hlast : (Scan.ofText text.toList).ending = .finish last) :
    Gap text p p := by
  obtain ⟨htiling, rfl⟩ := Scan.tiling_of_finish hlast
  obtain ⟨t, ht, hp⟩ := h
  rw [Scan.row_of_finish hlast] at ht
  rcases List.mem_append.1 ht with ht | ht
  · have hlt := htiling.nonempty t ht
    have hwithin := htiling.within t ht
    refine ⟨Nat.le_refl p, by omega, fun u hu => ?_⟩
    rcases htiling.eq_or_apart ht hu with rfl | hapart <;> omega
  · obtain rfl := List.mem_singleton.1 ht
    obtain rfl : p = text.length := hp.elim id id
    exact ⟨Nat.le_refl _, Nat.le_refl _, fun u hu => .inl (htiling.within u hu).2⟩

theorem blankBetween_of_gap (h : Gap text p q) (hlast : (Scan.ofText text.toList).ending = .finish last) :
    BlankBetween text.toList p q := by
  obtain ⟨htiling, -⟩ := Scan.tiling_of_finish hlast
  refine ⟨h.le, String.length_toList ▸ h.le_length, fun i hi hp hq => ?_⟩
  refine htiling.blank i hi (Nat.zero_le i) (Nat.lt_of_lt_of_le hq h.le_length) fun t ht => ?_
  have := h.off_tokens t ht
  omega

/-- A text is cut into the lexemes before a gap and those after it. -/
theorem cut_of_gap (h : Gap text p q) (hlast : (Scan.ofText text.toList).ending = .finish last) :
    ∃ ls ms, (Scan.ofText text.toList).tokens.map Token.lexeme = ls ++ ms ∧ Cut (text.toList.take p) ls ∧
      Cut (text.toList.drop q) ms := by
  have hlength : p ≤ text.toList.length := String.length_toList ▸ Nat.le_trans h.le h.le_length
  have hoff : ∀ t ∈ (Scan.ofText text.toList).tokens, t.stop ≤ p ∨ p ≤ t.start := fun t ht =>
    (h.off_tokens t ht).imp_right (Nat.le_trans h.le)
  obtain ⟨ls, ms, hsplit, hls, hms⟩ :=
    Cursor.cut_split (Cursor.on_start text.toList) (Nat.zero_le p) hlength hlast hoff
  exact ⟨ls, ms, hsplit, hls, (blankBetween_of_gap h hlast).cut_drop_iff.1 hms⟩

/-- A text has the same lexemes if what is between two positions with no token between them is replaced by
    blanks; by at least one, if something is there. -/
theorem lexemes?_relaid {blanks : List Char} {ls : List Lexeme}
    (hls : (Scan.ofText text.toList).lexemes? = some ls) (h : Gap text p q)
    (hblank : ∀ c ∈ blanks, Json.isSpace c = true) (hne : p < q → blanks ≠ []) :
    (Scan.ofText (relaid text p q blanks).toList).lexemes? = some ls := by
  rw [relaid, String.toList_ofList]
  cases blanks with
  | nil =>
    obtain rfl : p = q := Nat.le_antisymm h.le (Nat.le_of_not_lt fun hlt => hne hlt rfl)
    rw [List.append_nil, List.take_append_drop]
    exact hls
  | cons b bs =>
    cases hlast : (Scan.ofText text.toList).ending with
    | fault f => simp [Scan.lexemes?, hlast] at hls
    | finish last =>
      obtain ⟨ks, ms, hsplit, hks, hms⟩ := cut_of_gap h hlast
      obtain ⟨hb, hbs⟩ := List.forall_mem_cons.1 hblank
      have hskip : Json.skipSpace (bs ++ text.toList.drop q) = Json.skipSpace (text.toList.drop q) :=
        Cut.skipSpace_append_of_nil (List.dropWhile_eq_nil_iff.2 hbs) _
      have hcut := hks.append_blank hb (hms.of_skipSpace hskip)
      rw [Scan.lexemes?, hlast, Option.some.injEq] at hls
      rw [List.append_assoc, List.cons_append, ← hls, hsplit]
      exact Scan.cut_iff.1 hcut

end

end JsonQuery
