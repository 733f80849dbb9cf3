import ModularBuild.Notice
import ModularBuild.Proofs.Outcome
import ModularBuild.Proofs.Text.Reading

/-! # The years of a notice

One place decides: the leftmost span on the first line with the marker. What stands behind its
last four digits is not looked at, so a longer number there is cut. -/

namespace ModularBuild.Notice

open Text

variable {cs line before first last after : List Char} {years : YearSpan} {y : Nat}

/-! ## Spans in a line -/

/-- Four digits, of any script. -/
structure FourDigits (cs : List Char) : Prop where
  length : cs.length = 4
  digits : ∀ c ∈ cs, isDecimalDigit c = true

theorem FourDigits.ne_nil (h : FourDigits cs) : cs ≠ [] := by
  rintro rfl
  cases h.length

/-- The marker, a space and two years with a dash between them, somewhere in a line. -/
structure SpanAt (line before first last after : List Char) : Prop where
  split : line = before ++ (marker.toList ++ [' '] ++ first ++ ['-'] ++ last ++ after)
  first : FourDigits first
  last : FourDigits last

theorem SpanAt.prefix_drop (h : SpanAt line before first last after) :
    marker.toList <+: line.drop before.length := by
  rw [h.split, List.drop_left]
  simp only [List.append_assoc]
  exact List.prefix_append _ _

theorem SpanAt.length_eq (h : SpanAt line before first last after) :
    line.length = before.length + 19 + after.length := by
  have hmarker : marker.toList.length = 9 := by decide
  rw [h.split]
  simp only [List.length_append, List.length_singleton, hmarker, h.first.length, h.last.length]
  omega

theorem SpanAt.after_eq (h : SpanAt line before first last after) :
    after = line.drop (before.length + 19) := by
  have hlength := h.length_eq
  rw [h.split, ← List.append_assoc] at hlength ⊢
  rw [List.drop_left']
  rw [List.length_append] at hlength
  omega

/-- A span before which no other one begins. -/
structure LeftmostSpan (line before first last after : List Char) : Prop extends
    SpanAt line before first last after where
  leftmost : ∀ {before' first' last' after'}, SpanAt line before' first' last' after' →
    before.length ≤ before'.length

theorem fourDigits?_eq_some_iff {digits rest : List Char} :
    fourDigits? cs = some (digits, rest) ↔ FourDigits digits ∧ cs = digits ++ rest := by
  constructor
  · intro h
    simp only [fourDigits?, Option.ite_none_right_eq_some, Bool.and_eq_true, decide_eq_true_eq,
      List.all_eq_true] at h
    obtain ⟨⟨hlength, hdigits⟩, h⟩ := h
    cases h
    exact ⟨⟨hlength, hdigits⟩, (List.take_append_drop 4 cs).symm⟩
  · rintro ⟨hd, rfl⟩
    have htake : (digits ++ rest).take 4 = digits := by rw [← hd.length, List.take_left]
    have hdrop : (digits ++ rest).drop 4 = rest := by rw [← hd.length, List.drop_left]
    have hall : digits.all isDecimalDigit = true := List.all_eq_true.mpr hd.digits
    simp [fourDigits?, htake, hdrop, hd.length, hall]

theorem spanHere?_eq_some_iff :
    spanHere? cs = some (first, last) ↔ ∃ after, SpanAt cs [] first last after := by
  constructor
  · intro hspan
    obtain ⟨_, hguard, hyears⟩ := Option.bind_eq_some_iff.mp hspan
    obtain ⟨⟨first', rest⟩, hfirst, h⟩ := Option.bind_eq_some_iff.mp hyears
    have hlead : marker.toList ++ [' '] <+: cs := by
      rw [← List.isPrefixOf_iff_prefix]
      by_contra hno
      rw [guard, if_neg hno] at hguard
      cases hguard
    obtain ⟨tail, rfl⟩ := hlead
    rw [List.drop_left] at hfirst
    obtain ⟨hfour, rfl⟩ := fourDigits?_eq_some_iff.mp hfirst
    dsimp only at h
    split at h
    · next rest =>
      obtain ⟨⟨last', after⟩, hlast, heq⟩ := Option.bind_eq_some_iff.mp h
      cases heq
      obtain ⟨hfour', rfl⟩ := fourDigits?_eq_some_iff.mp hlast
      exact ⟨after, by simp, hfour, hfour'⟩
    · cases h
  · rintro ⟨after, rfl, hfirst, hlast⟩
    have hafter : fourDigits? (last ++ after) = some (last, after) :=
      fourDigits?_eq_some_iff.mpr ⟨hlast, rfl⟩
    unfold spanHere?
    refine Option.bind_eq_some_iff.mpr ⟨(), if_pos (List.isPrefixOf_iff_prefix.mpr ?_), ?_⟩
    · simp
    · refine Option.bind_eq_some_iff.mpr ⟨(first, '-' :: (last ++ after)), ?_, ?_⟩
      · refine fourDigits?_eq_some_iff.mpr ⟨hfirst, ?_⟩
        simp
      · simp [hafter]

theorem spanAt_cons_iff {c : Char} :
    SpanAt (c :: cs) (c :: before) first last after ↔ SpanAt cs before first last after := by
  constructor
  · rintro ⟨hsplit, hfirst, hlast⟩
    exact ⟨(List.cons.inj hsplit).2, hfirst, hlast⟩
  · rintro ⟨rfl, hfirst, hlast⟩
    exact ⟨rfl, hfirst, hlast⟩

/-- A span begins with the line or behind its first character. -/
theorem SpanAt.of_cons {c : Char} (h : SpanAt (c :: cs) before first last after) :
    before = [] ∨ ∃ before', before = c :: before' ∧ SpanAt cs before' first last after := by
  cases before with
  | nil => exact .inl rfl
  | cons d before =>
    have hd : c = d := (List.cons.inj h.split).1
    subst hd
    exact .inr ⟨before, rfl, spanAt_cons_iff.mp h⟩

theorem span?_eq_some_iff : span? line = some (first, last) ↔
    ∃ before after, LeftmostSpan line before first last after := by
  induction line with
  | nil =>
    constructor
    · intro h
      cases h
    · rintro ⟨before, after, h⟩
      have hsplit := congrArg List.length h.split
      simp at hsplit
  | cons c rest ih =>
    rw [span?]
    cases hhere : spanHere? (c :: rest) with
    | some years =>
      obtain ⟨first', last'⟩ := years
      obtain ⟨after', hat⟩ := spanHere?_eq_some_iff.mp hhere
      rw [Option.some_or, ← hhere, spanHere?_eq_some_iff]
      constructor
      · rintro ⟨after, h⟩
        exact ⟨[], after, h, fun _ => Nat.zero_le _⟩
      · rintro ⟨before, after, h⟩
        obtain rfl : before = [] := List.length_eq_zero_iff.mp (Nat.le_zero.mp (h.leftmost hat))
        exact ⟨after, h.toSpanAt⟩
    | none =>
      have hlater : ∀ {before first last after},
          SpanAt (c :: rest) before first last after →
            ∃ before', before = c :: before' ∧ SpanAt rest before' first last after := by
        intro before first last after h
        refine h.of_cons.resolve_left ?_
        rintro rfl
        rw [spanHere?_eq_some_iff.mpr ⟨after, h⟩] at hhere
        cases hhere
      rw [Option.none_or, ih]
      constructor
      · rintro ⟨before, after, h⟩
        refine ⟨c :: before, after, spanAt_cons_iff.mpr h.toSpanAt, fun h' => ?_⟩
        obtain ⟨before', rfl, hat⟩ := hlater h'
        exact Nat.succ_le_succ (h.leftmost hat)
      · rintro ⟨before, after, h⟩
        obtain ⟨before, rfl, hat⟩ := hlater h.toSpanAt
        exact ⟨before, after, hat, fun h' =>
          Nat.le_of_succ_le_succ (h.leftmost (spanAt_cons_iff.mpr h'))⟩

/-- What follows a line and is no digit is no part of its spans. -/
theorem spanAt_concat_iff {c : Char} (hc : isDecimalDigit c = false) :
    SpanAt (line ++ [c]) before first last after ↔
      ∃ after', after = after' ++ [c] ∧ SpanAt line before first last after' := by
  constructor
  · rintro ⟨hsplit, hfirst, hlast⟩
    rcases List.eq_nil_or_concat' after with rfl | ⟨after', d, rfl⟩
    · -- the last year would end with the character
      obtain ⟨front, d, rfl⟩ := (List.eq_nil_or_concat' last).resolve_left hlast.ne_nil
      rw [List.append_nil, ← List.append_assoc, ← List.append_assoc] at hsplit
      have hd : d = c := by simpa using (List.append_inj' hsplit rfl).2.symm
      rw [← hd, hlast.digits d (by simp)] at hc
      cases hc
    · rw [← List.append_assoc, ← List.append_assoc] at hsplit
      obtain ⟨hline, hd⟩ := List.append_inj' hsplit rfl
      cases hd
      exact ⟨after', rfl, by simpa using hline, hfirst, hlast⟩
  · rintro ⟨after', rfl, rfl, hfirst, hlast⟩
    exact ⟨by simp, hfirst, hlast⟩

theorem span?_concat {c : Char} (hc : isDecimalDigit c = false) (line : List Char) :
    span? (line ++ [c]) = span? line := by
  refine Option.ext fun ⟨first, last⟩ => ?_
  rw [span?_eq_some_iff, span?_eq_some_iff]
  constructor
  · rintro ⟨before, after, h⟩
    obtain ⟨after', rfl, hat⟩ := (spanAt_concat_iff hc).mp h.toSpanAt
    exact ⟨before, after', hat, fun h' => h.leftmost ((spanAt_concat_iff hc).mpr ⟨_, rfl, h'⟩)⟩
  · rintro ⟨before, after, h⟩
    refine ⟨before, after ++ [c], (spanAt_concat_iff hc).mpr ⟨after, rfl, h.toSpanAt⟩, fun h' => ?_⟩
    obtain ⟨_, -, h'⟩ := (spanAt_concat_iff hc).mp h'
    exact h.leftmost h'

/-! ## Years -/

theorem isDigit_iff (c : Char) : c.isDigit = true ↔ '0' ≤ c ∧ c.toNat < '0'.toNat + 10 := by
  rw [Char.isDigit, Bool.and_eq_true, decide_eq_true_eq, decide_eq_true_eq]
  exact and_congr_right fun _ => Nat.lt_succ_iff.symm

theorem year?_eq_some_iff (hcs : FourDigits cs) : year? cs = some y ↔ Numeral 10 cs y := by
  rw [year?, Option.ite_none_right_eq_some, Option.some.injEq, numeral_iff isDigit_iff]
  exact (and_iff_right hcs.ne_nil).symm

/-- A line says which years a notice spans: the digits of its leftmost span are ASCII digits, and
the first year is not after the last one. -/
def Dated (line : List Char) (years : YearSpan) : Prop :=
  ∃ before first last after, LeftmostSpan line before first last after ∧
    Numeral 10 first years.first ∧ Numeral 10 last years.last ∧ years.first ≤ years.last

theorem lineSpan?_eq_some_iff : lineSpan? line = some years ↔ Dated line years := by
  simp only [lineSpan?, Option.bind_eq_bind, Option.bind_eq_some_iff]
  constructor
  · rintro ⟨⟨first, last⟩, hspan, a, ha, b, hb, h⟩
    obtain ⟨before, after, hat⟩ := span?_eq_some_iff.mp hspan
    obtain ⟨hle, h⟩ := Option.ite_none_right_eq_some.mp h
    cases h
    exact ⟨before, first, last, after, hat, (year?_eq_some_iff hat.first).mp ha,
      (year?_eq_some_iff hat.last).mp hb, hle⟩
  · rintro ⟨before, first, last, after, hat, ha, hb, hle⟩
    exact ⟨(first, last), span?_eq_some_iff.mpr ⟨before, after, hat⟩, _,
      (year?_eq_some_iff hat.first).mpr ha, _, (year?_eq_some_iff hat.last).mpr hb, if_pos hle⟩

/-! ## The first line with the marker -/

theorem lineSpan?_concat_return (line : List Char) :
    lineSpan? (line ++ ['\r']) = lineSpan? line := by
  rw [lineSpan?, span?_concat (by decide)]
  rfl

theorem span_of_firstLineWith {text : String} (h : FirstLineWith marker.toList text.toList line) :
    span text = (lineSpan? line).elim
      (.error (.noticePatternMismatch (String.ofList (trimChars line)))) .ok := by
  obtain ⟨found, hfound, hline⟩ := find?_lineChars_of_firstLineWith (by decide) (by decide) h
  -- a carriage return at the end of the text is left on the line, and makes no difference
  have hsame : lineSpan? found = lineSpan? line ∧ trimChars found = trimChars line := by
    rcases hline with rfl | rfl
    · exact ⟨rfl, rfl⟩
    · exact ⟨lineSpan?_concat_return line, trimChars_concat (by decide) line⟩
  rw [span, markerLine?, hfound, ← hsame.1, ← hsame.2]
  cases hspan : lineSpan? found <;> simp [hspan]

theorem span_of_no_marker {text : String}
    (h : ∀ p ∈ splitOn '\n' text.toList, ¬ marker.toList <:+: p) :
    span text = .error (.noticeMarkerMissing marker) := by
  rw [span, markerLine?, lineChars, find?_closeLines_eq_none (by decide) (by decide) h]

/-- What a text says about its years. -/
inductive Verdict (text : List Char) : Except BuildError YearSpan → Prop
  | unmarked (hnone : ∀ line ∈ splitOn '\n' text, ¬ marker.toList <:+: line) :
      Verdict text (.error (.noticeMarkerMissing marker))
  | dated {line : List Char} {years : YearSpan}
      (hline : FirstLineWith marker.toList text line) (hyears : Dated line years) :
      Verdict text (.ok years)
  | undated {line core : List Char} (hline : FirstLineWith marker.toList text line)
      (hnone : ∀ years, ¬ Dated line years) (hcore : Trimmed line core) :
      Verdict text (.error (.noticePatternMismatch (String.ofList core)))

theorem span_of_verdict {text : String} {result : Except BuildError YearSpan}
    (h : Verdict text.toList result) : span text = result := by
  cases h with
  | unmarked hnone => exact span_of_no_marker hnone
  | dated hline hyears =>
    rw [span_of_firstLineWith hline, lineSpan?_eq_some_iff.mpr hyears, Option.elim_some]
  | undated hline hnone hcore =>
    have hspan : lineSpan? _ = none :=
      Option.eq_none_iff_forall_ne_some.mpr fun years h => hnone years (lineSpan?_eq_some_iff.mp h)
    rw [span_of_firstLineWith hline, hspan, trimChars_eq_iff.mpr hcore, Option.elim_none]

theorem exists_verdict (text : List Char) : ∃ result, Verdict text result := by
  rcases firstLineWith_or_none marker.toList text with ⟨line, hline⟩ | hnone
  · by_cases hyears : ∃ years, Dated line years
    · obtain ⟨years, hyears⟩ := hyears
      exact ⟨_, .dated hline hyears⟩
    · push Not at hyears
      exact ⟨_, .undated hline hyears (trimmed_trimChars line)⟩
  · exact ⟨_, .unmarked hnone⟩

/-- The first line with the marker decides, whatever the other lines are: the result for a text is
its verdict. -/
theorem span_eq_iff_verdict (text : String) :
    (∀ result, span text = result ↔ Verdict text.toList result) ∧
    (∀ other line, FirstLineWith marker.toList text.toList line →
      FirstLineWith marker.toList other.toList line → span other = span text) ∧
    lastYear text = (span text).map (·.last) := by
  refine ⟨fun result => ⟨?_, span_of_verdict⟩, fun other line h h' => ?_, rfl⟩
  · rintro rfl
    obtain ⟨result, h⟩ := exists_verdict text.toList
    rwa [span_of_verdict h]
  · rw [span_of_firstLineWith h', span_of_firstLineWith h]

/-- A first line that does not help is not made up for by a later one, nor by a later span. -/
example : span "Copyright 2024-1998, Copyright 1998-2024\r\nCopyright 2000-2010" =
    .error (.noticePatternMismatch "Copyright 2024-1998, Copyright 1998-2024") := by
  decide +kernel

/-! ## Whole years and cut ones -/

/-- A line with two complete years of four digits, of which the last one is `y`. -/
def WholeYears (line : List Char) (y : Nat) : Prop :=
  ∃ before first last after a, SpanAt line before first last after ∧
    (∀ c ∈ after.head?, isDecimalDigit c = false) ∧
    Numeral 10 first a ∧ Numeral 10 last y ∧ a ≤ y

/-- A line on which the leftmost span ends inside a number: only the first four digits of it
make `y`. -/
def CutYear (line : List Char) (y : Nat) : Prop :=
  ∃ before first last digit after a, LeftmostSpan line before first last (digit :: after) ∧
    isDecimalDigit digit = true ∧ Numeral 10 first a ∧ Numeral 10 last y ∧ a ≤ y

theorem Dated.whole_or_cut (h : Dated line years) :
    WholeYears line years.last ∨ CutYear line years.last := by
  obtain ⟨before, first, last, after, hat, ha, hb, hle⟩ := h
  cases after with
  | nil => exact .inl ⟨before, first, last, [], _, hat.toSpanAt, by simp, ha, hb, hle⟩
  | cons c after =>
    cases hc : isDecimalDigit c with
    | false =>
      exact .inl ⟨before, first, last, c :: after, _, hat.toSpanAt, by simpa using hc, ha, hb, hle⟩
    | true => exact .inr ⟨before, first, last, c, after, _, hat, hc, ha, hb, hle⟩

theorem CutYear.dated (h : CutYear line y) : ∃ a, Dated line ⟨a, y⟩ := by
  obtain ⟨before, first, last, digit, after, a, hat, -, ha, hy, hle⟩ := h
  exact ⟨a, before, first, last, digit :: after, hat, ha, hy, hle⟩

theorem lastYear_eq_ok_iff {text : String} : lastYear text = .ok y ↔
    ∃ line a, FirstLineWith marker.toList text.toList line ∧ Dated line ⟨a, y⟩ := by
  constructor
  · intro h
    obtain ⟨result, hverdict⟩ := exists_verdict text.toList
    rw [lastYear, span_of_verdict hverdict] at h
    cases hverdict with
    | unmarked => cases h
    | dated hline hyears =>
      cases h
      exact ⟨_, _, hline, hyears⟩
    | undated => cases h
  · rintro ⟨line, a, hline, hyears⟩
    rw [lastYear, span_of_verdict (.dated hline hyears)]
    rfl

/-- The year of the last edit is a whole number of the first line with the marker, unless the span
there ends inside a number; then it is always the beginning of that number. Any other line with
the marker gives no year. -/
theorem lastYear_whole_or_cut (text : String) :
    (∀ y, lastYear text = .ok y → ∃ line, FirstLineWith marker.toList text.toList line ∧
      (WholeYears line y ∨ CutYear line y)) ∧
    (∀ line y, FirstLineWith marker.toList text.toList line → CutYear line y →
      lastYear text = .ok y) ∧
    ∀ line core, FirstLineWith marker.toList text.toList line → Trimmed line core →
      (∀ y, ¬ WholeYears line y ∧ ¬ CutYear line y) →
        lastYear text = .error (.noticePatternMismatch (String.ofList core)) := by
  refine ⟨fun y h => ?_, fun line y hline hcut => ?_, fun line core hline hcore hnone => ?_⟩
  · obtain ⟨line, a, hline, hyears⟩ := lastYear_eq_ok_iff.mp h
    exact ⟨line, hline, hyears.whole_or_cut⟩
  · obtain ⟨a, hyears⟩ := hcut.dated
    exact lastYear_eq_ok_iff.mpr ⟨line, a, hline, hyears⟩
  · have hundated : ∀ years, ¬ Dated line years := fun years hyears =>
      hyears.whole_or_cut.elim (hnone _).1 (hnone _).2
    rw [lastYear, span_of_verdict (.undated hline hundated hcore)]
    rfl

/-- A number of five digits is cut to a year, and the line has no year of four digits that ends. -/
theorem longer_number_cut : lastYear "Copyright 1998-20245" = .ok 2024 ∧
    ∀ line, FirstLineWith marker.toList "Copyright 1998-20245".toList line →
      ∀ y, ¬ WholeYears line y := by
  refine ⟨by decide +kernel, ?_⟩
  rintro line hline y ⟨before, _, _, after, _, hat, hend, -⟩
  have hlength : line.length = 20 := by
    rw [hline.eq_of_splitOn (by decide)]
    decide
  -- a span takes nineteen characters, so there are two places for it
  obtain hzero | hone : before.length = 0 ∨ before.length = 1 := by
    have := hat.length_eq
    omega
  · have hafter := hat.after_eq
    rw [hline.eq_of_splitOn (by decide), hzero] at hafter
    exact absurd (hend '5' (by rw [hafter]; decide)) (by decide)
  · have hstart := hat.prefix_drop
    rw [hline.eq_of_splitOn (by decide), hone] at hstart
    exact absurd hstart (by decide)

end ModularBuild.Notice
