import Cal.Proofs.Lexer.Definition
import Mathlib.Data.List.TakeWhile

/-!
# Skipping takes the longest gap

* `skip_enclosed`, `skip_neverClosed`: what comes of an open block comment.
* `skip_gap`: a gap is skipped, whatever stands behind it.
* `skip_longest`, `skip_unclosed`: behind the longest gap skipping comes to an end, or meets a block
  comment that is never closed.
-/

namespace Cal.Trivia

variable {position opened : Position} {inner : Nat} {c : Char} {comment gap more rest text : List Char}

theorem skip_block_other (hopen : ¬ ['/', '*'] <+: c :: rest) (hclose : ¬ ['*', '/'] <+: c :: rest) :
    skip (.block opened inner) position (c :: rest) =
      skip (.block opened inner) (position.after c) rest := by
  conv => lhs; unfold skip
  split <;> simp_all [List.cons_prefix_cons]

theorem Enclosed.ne_nil (h : Enclosed comment) : comment ≠ [] := by
  cases h <;> simp

/-- What stands behind an enclosed text makes no mark at its beginning. -/
theorem Enclosed.mark_append (h : Enclosed comment) (a b : Char) :
    [a, b] <+: c :: (comment ++ rest) ↔ [a, b] <+: c :: comment := by
  obtain ⟨d, chars, rfl⟩ := List.exists_cons_of_ne_nil h.ne_nil
  simp [List.cons_prefix_cons]

/-- **A block comment is skipped up to its closing**, those within it included. -/
theorem skip_enclosed (h : Enclosed comment) :
    skip (.block opened inner) position (comment ++ rest) =
      skip (if inner = 0 then .blanks else .block opened (inner - 1)) (position.afterAll comment) rest := by
  induction h generalizing inner position rest with
  | close => rfl
  | @nested nested outer _ _ ihNested ihOuter =>
    calc skip (.block opened inner) position ('/' :: '*' :: (nested ++ outer) ++ rest)
        = skip (.block opened (inner + 1)) (position.afterAll ['/', '*']) (nested ++ (outer ++ rest)) := by
          rw [← List.append_assoc]
          rfl
      _ = skip (.block opened inner) ((position.afterAll ['/', '*']).afterAll nested) (outer ++ rest) :=
          ihNested
      _ = _ := by
          rw [ihOuter, ← Position.afterAll_append, ← Position.afterAll_append]
          rfl
  | other hopen hclose henclosed ih =>
    rw [List.cons_append, skip_block_other (by rwa [henclosed.mark_append])
      (by rwa [henclosed.mark_append]), ih]
    rfl

/-- An open block comment that is not closed is an error at the place where the outermost one opened. -/
theorem skip_neverClosed (h : NeverClosed text) :
    ∃ stop, skip (.block opened inner) position text = .unclosed opened stop := by
  induction hlength : text.length using Nat.strongRecOn generalizing text inner position with
  | ind n ih =>
    match text with
    | [] => exact ⟨position, rfl⟩
    | c :: chars =>
      rw [List.length_cons] at hlength
      by_cases hopen : ['/', '*'] <+: c :: chars
      · obtain ⟨body, hbody⟩ := hopen
        obtain ⟨rfl, rfl⟩ : '/' = c ∧ '*' :: body = chars := by simpa using hbody
        rw [List.length_cons] at hlength
        by_cases hclosed : NeverClosed body
        · have hskip : skip (.block opened inner) position ('/' :: '*' :: body) =
              skip (.block opened (inner + 1)) (position.afterAll ['/', '*']) body := rfl
          rw [hskip]
          exact ih body.length (by omega) hclosed rfl
        -- The comment that opens here is closed, but the one around it is not.
        obtain ⟨nested, hnested, after, rfl⟩ : ∃ nested, Enclosed nested ∧ nested <+: body := by
          simpa [NeverClosed] using hclosed
        have hafter : NeverClosed after := by
          rintro outer houter ⟨left, rfl⟩
          exact h _ (.nested hnested houter) ⟨left, by simp⟩
        have hskip : skip (.block opened inner) position ('/' :: '*' :: (nested ++ after)) =
            skip (.block opened inner) ((position.afterAll ['/', '*']).afterAll nested) after :=
          skip_enclosed hnested
        rw [hskip]
        rw [List.length_append] at hlength
        exact ih after.length (by omega) hafter rfl
      · have hclose : ¬ ['*', '/'] <+: c :: chars := h _ .close
        have hchars : NeverClosed chars := by
          rintro closed henclosed ⟨left, rfl⟩
          rw [henclosed.mark_append] at hopen hclose
          exact h _ (.other hopen hclose henclosed) ⟨left, rfl⟩
        rw [skip_block_other hopen hclose]
        exact ih chars.length (by omega) hchars rfl

/-- A line comment is skipped up to the end of its line. -/
theorem skip_line (hline : '\n' ∉ comment) (hend : ∀ c ∈ rest.head?, c = '\n') :
    skip .line position (comment ++ rest) = skip .blanks (position.afterAll comment) rest := by
  induction comment generalizing position with
  | nil =>
    cases rest with
    | nil => rfl
    | cons c rest =>
      obtain rfl : c = '\n' := hend c rfl
      rfl
  | cons c comment ih =>
    obtain ⟨hc, hcomment⟩ : '\n' ≠ c ∧ '\n' ∉ comment := by simpa using hline
    rw [List.cons_append, skip, if_neg hc.symm, ih hcomment]
    rfl

theorem skip_blank (hc : isBlank c = true) :
    skip .blanks position (c :: rest) = skip .blanks (position.after c) rest := by
  have hslash : c ≠ '/' := by
    rintro rfl
    exact absurd hc (by decide)
  conv => lhs; unfold skip
  split <;> simp_all

/-- **A gap is skipped**, whatever stands behind it. -/
theorem skip_gap (h : Gap gap rest) :
    skip .blanks position (gap ++ rest) = skip .blanks (position.afterAll gap) rest := by
  induction h generalizing position with
  | nil => rfl
  | blank hc _ ih =>
    rw [List.cons_append, skip_blank hc, ih]
    rfl
  | @line comment gap rest hline hend _ ih =>
    calc skip .blanks position ('/' :: '/' :: (comment ++ gap) ++ rest)
        = skip .line (position.afterAll ['/', '/']) (comment ++ (gap ++ rest)) := by
          rw [← List.append_assoc]
          rfl
      _ = skip .blanks ((position.afterAll ['/', '/']).afterAll comment) (gap ++ rest) :=
          skip_line hline hend
      _ = _ := by
          rw [ih, ← Position.afterAll_append, ← Position.afterAll_append]
          rfl
  | @block comment gap rest henclosed _ ih =>
    calc skip .blanks position ('/' :: '*' :: (comment ++ gap) ++ rest)
        = skip (.block position 0) (position.afterAll ['/', '*']) (comment ++ (gap ++ rest)) := by
          rw [← List.append_assoc]
          rfl
      _ = skip .blanks ((position.afterAll ['/', '*']).afterAll comment) (gap ++ rest) :=
          skip_enclosed henclosed
      _ = _ := by
          rw [ih, ← Position.afterAll_append, ← Position.afterAll_append]
          rfl

theorem Gap.append {left : List Char} (h : Gap gap left) (hmore : Gap more rest) (hleft : left = more ++ rest) :
    Gap (gap ++ more) rest := by
  subst hleft
  generalize htext : more ++ rest = text at h
  induction h with
  | nil => exact hmore
  | blank hc _ ih => exact .blank hc (ih htext)
  | @line comment gap text hline hend _ ih =>
    subst htext
    rw [List.cons_append, List.cons_append, List.append_assoc]
    exact .line hline (by rwa [List.append_assoc]) (ih rfl)
  | block henclosed _ ih =>
    rw [List.cons_append, List.cons_append, List.append_assoc]
    exact .block henclosed (ih htext)

/-- Behind the longest gap no gap stands. -/
theorem eq_nil_of_longest (h : Longest Gap gap text) (hmore : Gap more rest) (htext : text = more ++ rest) :
    more = [] := by
  subst htext
  have hle := h.maximal (List.append_assoc ..) (h.holds.append hmore rfl)
  rw [List.length_append] at hle
  exact List.eq_nil_of_length_eq_zero (by omega)

/-- A line comment goes on to the end of its line. -/
theorem gap_line (text : List Char) :
    ∃ comment rest, '/' :: '/' :: text = '/' :: '/' :: comment ++ rest ∧
      Gap ('/' :: '/' :: comment) rest := by
  refine ⟨text.takeWhile (· ≠ '\n'), text.dropWhile (· ≠ '\n'), by simp, ?_⟩
  have hline : '\n' ∉ text.takeWhile (· ≠ '\n') := by
    intro hmem
    simpa using List.mem_takeWhile_imp hmem
  have hend : ∀ c ∈ (text.dropWhile (· ≠ '\n')).head?, c = '\n' := by
    intro c hc
    have hother := List.head?_dropWhile_not (· ≠ '\n') text
    rw [Option.mem_def.1 hc] at hother
    simpa using hother
  simpa using Gap.line hline hend (Gap.nil _)

/-- **Skipping takes the longest gap**, unless a block comment opens behind it. -/
theorem skip_longest (h : Longest Gap gap rest) (hopen : ¬ ['/', '*'] <+: rest) :
    skip .blanks position (gap ++ rest) = .reached ⟨position.afterAll gap, rest⟩ := by
  rw [skip_gap h.holds]
  match rest with
  | [] => rfl
  | c :: text =>
    have hblank : ¬ isBlank c = true := by
      intro hc
      have := eq_nil_of_longest h (.blank hc (.nil text)) rfl
      cases this
    have hline : ¬ ['/', '/'] <+: c :: text := by
      rintro ⟨body, hbody⟩
      obtain ⟨comment, after, hsplit, hgap⟩ := gap_line body
      have := eq_nil_of_longest h hgap (hbody.symm.trans hsplit)
      cases this
    unfold skip
    split <;> simp_all [List.cons_prefix_cons]

/-- A block comment that opens behind the longest gap is never closed. -/
theorem neverClosed_of_longest (h : Longest Gap gap ('/' :: '*' :: text)) : NeverClosed text := by
  rintro comment henclosed ⟨rest, rfl⟩
  have hgap : Gap ('/' :: '*' :: (comment ++ [])) rest := .block henclosed (.nil rest)
  have := eq_nil_of_longest h hgap (by simp)
  cases this

/-- A block comment that is never closed is read to the end of the text. -/
theorem stop_of_skip {mode : Mode} {stop : Position} (h : skip mode position text = .unclosed opened stop) :
    stop = position.afterAll text := by
  fun_induction skip mode position text with
  | case1 | case5 | case6 => cases h
  | case8 => cases h; rfl
  | case2 _ _ ih | case3 _ _ ih | case9 _ _ _ _ ih | case10 _ _ _ _ ih => exact ih h
  | case4 _ _ _ _ _ _ ih | case7 _ _ _ ih | case11 _ _ _ _ _ _ _ ih => exact ih h

/-- Behind the longest gap skipping meets a block comment that is never closed, if one opens there. -/
theorem skip_unclosed (position : Position) (h : Longest Gap gap ('/' :: '*' :: text)) :
    skip .blanks position (gap ++ '/' :: '*' :: text) =
      .unclosed (position.afterAll gap) (position.afterAll (gap ++ '/' :: '*' :: text)) := by
  obtain ⟨stop, hskip⟩ : ∃ stop, skip .blanks position (gap ++ '/' :: '*' :: text) =
      .unclosed (position.afterAll gap) stop := by
    rw [skip_gap h.holds]
    exact skip_neverClosed (neverClosed_of_longest h)
  rw [hskip, stop_of_skip hskip]

end Cal.Trivia
