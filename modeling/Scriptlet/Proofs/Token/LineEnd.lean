import Scriptlet.Proofs.Renumber
import Scriptlet.Token.Scan

namespace Scriptlet

namespace Segment

theorem takeWhile_append_cons {p : Char → Bool} {d : Char} (hd : p d = false) (xs ys : List Char) :
    (xs ++ d :: ys).takeWhile p = xs.takeWhile p := by
  induction xs with
  | nil => simp [hd]
  | cons x xs ih => simp only [List.cons_append, List.takeWhile_cons, ih]

theorem dropWhile_append_cons {p : Char → Bool} {d : Char} (hd : p d = false) (xs ys : List Char) :
    (xs ++ d :: ys).dropWhile p = xs.dropWhile p ++ d :: ys := by
  induction xs with
  | nil => simp [hd]
  | cons x xs ih =>
    simp only [List.cons_append, List.dropWhile_cons, ih]
    split <;> rfl

private theorem text_fraction (cs : List Char) :
    (if (fraction cs).1.isEmpty then [] else '.' :: (fraction cs).1) ++ (fraction cs).2 = cs := by
  unfold fraction
  split
  · split
    · simp
    · rfl
  · rfl

private theorem text_single (c : Char) (cs : List Char) :
    (single c cs).1.text ++ (single c cs).2 = c :: cs := by
  unfold single
  split <;> rfl

/-- A segment and what is behind it are the text. -/
theorem text_first (c : Char) (cs : List Char) :
    (first c cs).1.text ++ (first c cs).2 = c :: cs := by
  unfold first
  split
  · simp [blanks]
  split
  · have h := text_fraction (cs.dropWhile Char.isDigit)
    simp only [number]
    split at h <;> rename_i hp
    · rw [if_pos hp, show (fraction (cs.dropWhile Char.isDigit)).2 = cs.dropWhile Char.isDigit from h]
      simp
    · rw [if_neg hp, List.append_assoc, h]
      simp
  split
  · simp [word]
  split
  · rename_i hq
    have hc : c = quote := by simpa using hq
    have h := List.takeWhile_append_dropWhile (p := (· != quote)) (l := cs)
    unfold quoted
    split
    · next hd =>
      rw [hd, List.append_nil] at h
      simp [h, hc]
    · next q rest hd =>
      rw [hd] at h
      simp [h, hc]
  split
  · simp [comment]
  · unfold operator
    split
    · split
      · rfl
      · exact text_single c _
    · exact text_single c []

private theorem fraction_of_ne {c : Char} (hc : c ≠ '.') (cs : List Char) :
    fraction (c :: cs) = ([], c :: cs) := by
  unfold fraction
  split
  · next h => exact absurd (List.cons.inj h).1 hc
  · rfl

/-- A blank is in no word, number or operator. -/
theorem apart_of_isBlank {d : Char} (hd : isBlank d) :
    isWordRest d = false ∧ d.isDigit = false ∧ d ≠ '.' ∧ d ≠ '/' ∧ ∀ c, pairKind? c d = none := by
  have hpair : ∀ c, pairKind? c d = none := by
    intro c
    unfold pairKind?
    split <;> first | rfl | cases hd
  simp only [isBlank, Bool.or_eq_true, beq_iff_eq] at hd
  refine ⟨?_, ?_, ?_, ?_, hpair⟩
  all_goals rcases hd with (((rfl | rfl) | rfl) | rfl) | rfl <;> decide

private theorem fraction_append {d : Char} (hd : isBlank d) (cs rest : List Char) :
    fraction (cs ++ d :: rest) = ((fraction cs).1, (fraction cs).2 ++ d :: rest) := by
  obtain ⟨-, hdigit, hpoint, -⟩ := apart_of_isBlank hd
  cases cs with
  | nil => exact fraction_of_ne hpoint rest
  | cons c cs =>
    by_cases hc : c = '.'
    · subst hc
      cases cs with
      | nil =>
        simp only [List.cons_append, List.nil_append, fraction, hdigit]
        rfl
      | cons e cs =>
        simp only [List.cons_append, fraction]
        split
        · rw [takeWhile_append_cons hdigit, dropWhile_append_cons hdigit]
        · rfl
    · rw [List.cons_append, fraction_of_ne hc, fraction_of_ne hc, List.cons_append]

private theorem single_append (c : Char) (cs rest : List Char) :
    single c (cs ++ rest) = ((single c cs).1, (single c cs).2 ++ rest) := by
  unfold single
  split <;> rfl

private theorem operator_append {d : Char} (hd : isBlank d) (c : Char) (cs rest : List Char) :
    operator c (cs ++ d :: rest) = ((operator c cs).1, (operator c cs).2 ++ d :: rest) := by
  cases cs with
  | nil =>
    obtain ⟨-, -, -, -, hpair⟩ := apart_of_isBlank hd
    simp only [List.nil_append, operator, hpair]
    exact single_append c [] _
  | cons e cs =>
    simp only [List.cons_append, operator]
    split
    · rfl
    · exact single_append c (e :: cs) _

theorem quoted_append {cs : List Char} (rest : List Char)
    (hu : (quoted cs).1.kind ≠ .unterminated) :
    quoted (cs ++ rest) = ((quoted cs).1, (quoted cs).2 ++ rest) := by
  have hd : cs.dropWhile (· != quote) ≠ [] := by
    intro h
    apply hu
    simp only [quoted]
    rw [h]
  obtain ⟨q, more, hq⟩ := List.exists_cons_of_ne_nil hd
  have hdrop : (cs ++ rest).dropWhile (· != quote) = q :: (more ++ rest) := by
    rw [List.dropWhile_append, hq]
    rfl
  have htake : (cs ++ rest).takeWhile (· != quote) = cs.takeWhile (· != quote) := by
    have hsplit := List.takeWhile_append_dropWhile (p := (· != quote)) (l := cs)
    have hlen := congrArg List.length hsplit
    rw [hq, List.length_append, List.length_cons] at hlen
    rw [List.takeWhile_append, if_neg (by omega)]
  simp only [quoted, hdrop, htake, hq]

/-- What is behind a blank has no part in a segment before it, unless that is a run of blanks, a string
that does not end, or a comment and the blank no line end. -/
theorem first_append {c d : Char} {cs : List Char} (hd : isBlank d) (rest : List Char)
    (hc : isBlank c = false) (hu : (first c cs).1.kind ≠ .unterminated)
    (hend : d = '\n' ∨ (first c cs).1.kind ≠ .layout) :
    first c (cs ++ d :: rest) = ((first c cs).1, (first c cs).2 ++ d :: rest) := by
  obtain ⟨hword, hdigit, -, hslash, -⟩ := apart_of_isBlank hd
  have hhead : ((cs ++ d :: rest).head? == some '/') = (cs.head? == some '/') := by
    cases cs with
    | nil => simp [hslash]
    | cons e cs => rfl
  simp only [first, hc, Bool.false_eq_true, if_false, hhead] at hu hend ⊢
  split
  · simp only [number]
    rw [takeWhile_append_cons hdigit, dropWhile_append_cons hdigit, fraction_append hd]
  split
  · simp only [word]
    rw [takeWhile_append_cons hword, dropWhile_append_cons hword]
  rename_i hnumber hstart
  rw [if_neg hnumber, if_neg hstart] at hu hend
  split
  · rename_i hquote
    rw [if_pos hquote] at hu
    exact quoted_append _ hu
  rename_i hquote
  split
  · rename_i hcomment
    rw [if_neg hquote, if_pos hcomment] at hend
    obtain rfl : d = '\n' := hend.resolve_right fun h => h rfl
    simp only [comment]
    rw [takeWhile_append_cons (by decide), dropWhile_append_cons (by decide)]
  · exact operator_append hd c cs rest

def isLayout (s : Segment) : Bool :=
  match s.kind with
  | .layout => true
  | _ => false

/-- The segments that are not layout, with the lines on which they end. -/
def visible (line : Nat) (cs : List Char) : List (Segment × Nat) :=
  (withLines line (ofText cs)).filter fun s => !s.1.isLayout

theorem visible_nil (line : Nat) : visible line [] = [] := by
  rw [visible, ofText]
  rfl

theorem visible_cons (line : Nat) (c : Char) (cs : List Char) :
    visible line (c :: cs) =
      (if (first c cs).1.isLayout then [] else [((first c cs).1, line + (first c cs).1.lineEnds)]) ++
        visible (line + (first c cs).1.lineEnds) (first c cs).2 := by
  rw [visible, ofText, withLines, List.filter_cons]
  cases (first c cs).1.isLayout <;> rfl

/-- A blank counts only as the line end that it may be. -/
theorem visible_blank (line : Nat) {c : Char} (cs : List Char) (hc : isBlank c) :
    visible line (c :: cs) = visible (line + [c].count '\n') cs := by
  have hrun (line : Nat) (c : Char) (cs : List Char) (hc : isBlank c) : visible line (c :: cs) =
      visible (line + (c :: cs.takeWhile isBlank).count '\n') (cs.dropWhile isBlank) := by
    have hfirst : first c cs = blanks c cs := by rw [first, if_pos hc]
    rw [visible_cons, hfirst]
    rfl
  rw [hrun line c cs hc]
  cases cs with
  | nil => rfl
  | cons d cs =>
    by_cases hd : isBlank d
    · rw [hrun _ d cs hd, List.takeWhile_cons_of_pos hd, List.dropWhile_cons_of_pos hd,
        Nat.add_assoc, ← List.count_append, List.singleton_append]
    · rw [List.takeWhile_cons_of_neg hd, List.dropWhile_cons_of_neg hd]

theorem visible_append (line : Nat) {cs : List Char} (rest : List Char)
    (hu : ∀ s ∈ visible line cs, s.1.kind ≠ .unterminated) :
    visible line (cs ++ '\n' :: rest) = visible line cs ++ visible (line + (cs.count '\n' + 1)) rest := by
  induction hk : cs.length using Nat.strongRecOn generalizing line cs with
  | ind k ih =>
    subst hk
    cases cs with
    | nil =>
      have hblank : isBlank '\n' := by decide
      rw [visible_nil]
      exact visible_blank line rest hblank
    | cons c cs =>
      by_cases hc : isBlank c
      · have hcount : (c :: cs).count '\n' = [c].count '\n' + cs.count '\n' := by
          rw [← List.count_append, List.singleton_append]
        rw [visible_blank line cs hc] at hu ⊢
        rw [List.cons_append, visible_blank line _ hc, ih cs.length (Nat.lt_succ_self _) _ hu rfl,
          hcount, Nat.add_assoc, Nat.add_assoc]
      · have hterminated : (first c cs).1.kind ≠ .unterminated := by
          intro h
          have hlayout : (first c cs).1.isLayout = false := by rw [isLayout, h]
          apply hu ((first c cs).1, line + (first c cs).1.lineEnds) _ h
          rw [visible_cons, hlayout]
          exact List.mem_cons_self
        have hmore : ∀ s ∈ visible (line + (first c cs).1.lineEnds) (first c cs).2,
            s.1.kind ≠ .unterminated := by
          intro s hs
          apply hu
          rw [visible_cons]
          exact List.mem_append_right _ hs
        have hcount : (c :: cs).count '\n' =
            (first c cs).1.lineEnds + (first c cs).2.count '\n' := by
          rw [← text_first c cs, List.count_append, lineEnds]
        have hshort := Nat.lt_succ_of_le (length_first c cs)
        have hfirst := first_append rfl rest (by simpa using hc) hterminated (.inl rfl)
        rw [List.cons_append, visible_cons, hfirst, visible_cons line c cs, ih _ hshort _ hmore rfl,
          hcount, List.append_assoc, Nat.add_assoc, Nat.add_assoc]

theorem kind_quoted_eq_unterminated_iff (cs : List Char) :
    (quoted cs).1.kind = .unterminated ↔ quote ∉ cs := by
  have hnone : cs.dropWhile (· != quote) = [] ↔ quote ∉ cs := by
    induction cs with
    | nil => exact iff_of_true rfl List.not_mem_nil
    | cons c cs ih =>
      by_cases hc : c = quote
      · simp [hc]
      · have hne : quote ≠ c := fun h => hc h.symm
        simp [hc, hne, ih]
  rw [← hnone]
  unfold quoted
  split
  · next hd => simp [hd]
  · next hd => simp [hd]

/-- Only a string can lack its end, and whether it does depends on the quotes that follow. -/
theorem first_of_unterminated {c : Char} {cs : List Char} (h : (first c cs).1.kind = .unterminated)
    (ds : List Char) : first c ds = quoted ds := by
  have hsingle (cs : List Char) : (single c cs).1.kind ≠ .unterminated := by
    unfold single
    split <;> simp
  have hoperator : (operator c cs).1.kind ≠ .unterminated := by
    unfold operator
    split
    · split
      · simp
      · exact hsingle _
    · exact hsingle []
  by_cases hblank : isBlank c = true
  · simp [first, hblank, blanks] at h
  by_cases hdigit : c.isDigit = true
  · simp [first, hblank, hdigit, number] at h
  by_cases hword : isWordStart c = true
  · simp [first, hblank, hdigit, hword, word] at h
  by_cases hquote : (c == quote) = true
  · rw [first, if_neg hblank, if_neg hdigit, if_neg hword, if_pos hquote]
  · rw [first, if_neg hblank, if_neg hdigit, if_neg hword, if_neg hquote] at h
    split at h
    · cases h
    · exact absurd h hoperator

/-- A string that does not end before a line end does not end behind it either, where there is no
quote. -/
theorem unterminated_append (line : Nat) {cs rest : List Char} (hrest : quote ∉ rest)
    (h : ∃ s ∈ visible line cs, s.1.kind = .unterminated) :
    ∃ s ∈ visible line (cs ++ '\n' :: rest), s.1.kind = .unterminated := by
  induction hk : cs.length using Nat.strongRecOn generalizing line cs with
  | ind k ih =>
    subst hk
    cases cs with
    | nil =>
      rw [visible_nil] at h
      obtain ⟨s, hs, -⟩ := h
      cases hs
    | cons c cs =>
      by_cases hc : isBlank c
      · rw [visible_blank line cs hc] at h
        rw [List.cons_append, visible_blank line _ hc]
        exact ih cs.length (Nat.lt_succ_self _) _ h rfl
      rw [List.cons_append, visible_cons]
      -- Either the string starts here, or it starts behind this segment.
      by_cases hu : (first c cs).1.kind = .unterminated
      · have hquoted := first_of_unterminated hu
        have hopen : (first c (cs ++ '\n' :: rest)).1.kind = .unterminated := by
          rw [hquoted, kind_quoted_eq_unterminated_iff] at hu ⊢
          have hnewline : quote ≠ '\n' := by decide
          simp [hu, hrest, hnewline]
        have hlayout : (first c (cs ++ '\n' :: rest)).1.isLayout = false := by rw [isLayout, hopen]
        rw [hlayout]
        exact ⟨_, List.mem_append_left _ List.mem_cons_self, hopen⟩
      · obtain ⟨s, hs, hkind⟩ := h
        have hmore : ∃ s ∈ visible (line + (first c cs).1.lineEnds) (first c cs).2,
            s.1.kind = .unterminated := by
          rw [visible_cons] at hs
          rcases List.mem_append.1 hs with hs | hs
          · split at hs
            · cases hs
            · rw [List.mem_singleton.1 hs] at hkind
              exact absurd hkind hu
          · exact ⟨s, hs, hkind⟩
        have hshort := Nat.lt_succ_of_le (length_first c cs)
        obtain ⟨s', hs', hkind'⟩ := ih _ hshort _ hmore rfl
        rw [first_append rfl rest (by simpa using hc) hu (.inl rfl)]
        exact ⟨s', List.mem_append_right _ hs', hkind'⟩

private theorem withLines_add (line k : Nat) (ss : List Segment) :
    withLines (line + k) ss = (withLines line ss).map fun s => (s.1, s.2 + k) := by
  induction ss generalizing line with
  | nil => rfl
  | cons s ss ih =>
    have hline : line + k + s.lineEnds = line + s.lineEnds + k := Nat.add_right_comm _ _ _
    rw [withLines, withLines, hline, ih, List.map_cons]

private theorem visible_add (line k : Nat) (cs : List Char) :
    visible (line + k) cs = (visible line cs).map fun s => (s.1, s.2 + k) := by
  rw [visible, withLines_add, List.filter_map]
  rfl

private theorem token?_add (k : Nat) (s : Segment × Nat) :
    token? (s.1, s.2 + k) = (token? s).map (Token.renumber (· + k)) := by
  obtain ⟨⟨kind, text⟩, line⟩ := s
  cases kind <;> rfl

private theorem error?_add (k : Nat) (s : Segment × Nat) :
    error? (s.1, s.2 + k) = (error? s).map (Diagnostic.renumber (· + k)) := by
  obtain ⟨⟨kind, text⟩, line⟩ := s
  cases kind <;> rfl

private theorem wordKind_ne_eof (word : List Char) : wordKind word ≠ .eof := by
  have hkeywords : ∀ k ∈ keywords, k.2 ≠ .eof := by decide
  unfold wordKind
  cases h : keywords.lookup (String.ofList word) with
  | none => decide
  | some kind =>
    obtain ⟨before, behind, hsplit, -⟩ := List.lookup_eq_some_iff.1 h
    exact hkeywords (String.ofList word, kind) (by rw [hsplit]; simp)

private theorem charKind?_ne_eof (c : Char) : charKind? c ≠ some .eof := by
  unfold charKind?
  split <;> simp

private theorem pairKind?_ne_eof (c d : Char) : pairKind? c d ≠ some .eof := by
  unfold pairKind?
  split <;> simp

/-- No segment of a text is its end. -/
theorem kind_first_ne_eof (c : Char) (cs : List Char) (literal : Option Literal) :
    (first c cs).1.kind ≠ .token .eof literal := by
  have hsingle (cs : List Char) : (single c cs).1.kind ≠ .token .eof literal := by
    unfold single
    cases h : charKind? c with
    | none => simp
    | some kind =>
      have hkind := charKind?_ne_eof c
      rw [h] at hkind
      simp_all
  unfold first
  split
  · simp [blanks]
  split
  · simp [number]
  split
  · simp [word, wordKind_ne_eof]
  split
  · unfold quoted
    split <;> simp
  split
  · simp [comment]
  · unfold operator
    split
    · rename_i d ds _
      cases h : pairKind? c d with
      | none => exact hsingle _
      | some kind =>
        have hkind := pairKind?_ne_eof c d
        rw [h] at hkind
        simp_all
    · exact hsingle []

private theorem kind_ofText_ne_eof (cs : List Char) (literal : Option Literal) :
    ∀ s ∈ ofText cs, s.kind ≠ .token .eof literal := by
  induction hk : cs.length using Nat.strongRecOn generalizing cs with
  | ind k ih =>
    subst hk
    intro s hs
    cases cs with
    | nil =>
      rw [ofText] at hs
      cases hs
    | cons c cs =>
      rw [ofText, List.mem_cons] at hs
      rcases hs with rfl | hs
      · exact kind_first_ne_eof c cs literal
      · exact ih _ (Nat.lt_succ_of_le (length_first c cs)) _ rfl s hs

private theorem mem_of_mem_withLines {line : Nat} {ss : List Segment} {s : Segment × Nat}
    (h : s ∈ withLines line ss) : s.1 ∈ ss := by
  induction ss generalizing line with
  | nil => cases h
  | cons t ss ih =>
    rcases List.mem_cons.1 h with rfl | h
    · exact List.mem_cons_self
    · exact List.mem_cons_of_mem _ (ih h)

end Segment

namespace Scan

open Segment

theorem dropLast_tokens (cs : List Char) :
    (ofChars cs).tokens.dropLast = (visible 1 cs).filterMap token? := by
  have hlayout : (fun s => if (!s.1.isLayout) = true then token? s else none) = token? := by
    funext ⟨⟨kind, text⟩, line⟩
    cases kind <;> rfl
  rw [visible, List.filterMap_filter, hlayout]
  exact List.dropLast_concat

theorem tokens_eq (cs : List Char) :
    (ofChars cs).tokens = (ofChars cs).tokens.dropLast ++ [eof (1 + cs.count '\n')] := by
  have hlast : (ofChars cs).tokens.dropLast =
      (withLines 1 (Segment.ofText cs)).filterMap token? := List.dropLast_concat
  rw [hlast]
  rfl

theorem kind_ne_eof (cs : List Char) : ∀ t ∈ (ofChars cs).tokens.dropLast, t.kind ≠ .eof := by
  intro t ht hkind
  rw [dropLast_tokens, List.mem_filterMap] at ht
  obtain ⟨⟨⟨kind, text⟩, line⟩, hs, htoken⟩ := ht
  have hsegment := mem_of_mem_withLines (List.mem_filter.1 hs).1
  cases kind with
  | token kind literal =>
    cases htoken
    have hkind : kind = .eof := hkind
    exact kind_ofText_ne_eof cs literal _ hsegment (by rw [hkind])
  | _ => cases htoken

theorem errors_eq (cs : List Char) : (ofChars cs).errors = (visible 1 cs).filterMap error? := by
  have hlayout : (fun s => if (!s.1.isLayout) = true then error? s else none) = error? := by
    funext ⟨⟨kind, text⟩, line⟩
    cases kind <;> rfl
  rw [visible, List.filterMap_filter, hlayout]
  rfl

/-- A string that does not end is an error with a message of its own. -/
theorem terminated_of_messages {cs : List Char}
    (h : ∀ d ∈ (ofChars cs).errors, d.message ≠ "Unterminated string.") :
    ∀ s ∈ visible 1 cs, s.1.kind ≠ .unterminated := by
  rintro ⟨⟨kind, text⟩, line⟩ hs hkind
  have herror : error? (⟨kind, text⟩, line) = some (.lexical line "Unterminated string.") := by
    rw [show kind = .unterminated from hkind]
    rfl
  have hmem := List.mem_filterMap.2 ⟨_, hs, herror⟩
  rw [← errors_eq] at hmem
  exact h _ hmem rfl

theorem terminated_of_errors {cs : List Char} (h : (ofChars cs).errors = []) :
    ∀ s ∈ visible 1 cs, s.1.kind ≠ .unterminated := by
  apply terminated_of_messages
  rw [h]
  exact List.forall_mem_nil _

/-- The texts before and behind a line end are scanned apart, unless the one before ends in a string
that does not. -/
theorem ofChars_append {before : List Char} (behind : List Char)
    (hu : ∀ s ∈ visible 1 before, s.1.kind ≠ .unterminated) :
    let k := before.count '\n' + 1
    (ofChars (before ++ '\n' :: behind)).tokens =
        (ofChars before).tokens.dropLast ++ (ofChars behind).tokens.map (Token.renumber (· + k)) ∧
      (ofChars (before ++ '\n' :: behind)).errors =
        (ofChars before).errors ++ (ofChars behind).errors.map (Diagnostic.renumber (· + k)) := by
  intro k
  have hvisible := visible_append 1 behind hu
  rw [visible_add] at hvisible
  constructor
  · have hcount : 1 + (before ++ '\n' :: behind).count '\n' = 1 + behind.count '\n' + k := by
      rw [List.count_append, List.count_cons_self]
      omega
    have hbody : (ofChars (before ++ '\n' :: behind)).tokens.dropLast =
        (ofChars before).tokens.dropLast ++
          (ofChars behind).tokens.dropLast.map (Token.renumber (· + k)) := by
      rw [dropLast_tokens, dropLast_tokens, dropLast_tokens, hvisible, List.filterMap_append,
        List.filterMap_map, List.map_filterMap]
      congr 2
      funext s
      exact token?_add k s
    rw [tokens_eq (before ++ '\n' :: behind), hbody, hcount, tokens_eq behind, List.map_append,
      List.dropLast_concat, List.append_assoc]
    rfl
  · rw [errors_eq, errors_eq, errors_eq, hvisible, List.filterMap_append, List.filterMap_map,
      List.map_filterMap]
    congr 2
    funext s
    exact error?_add k s

/-- No error before a line end is undone by what is behind it, unless that could end a string. -/
theorem errors_of_append {before behind : List Char} (hquote : quote ∉ behind)
    (h : (ofChars (before ++ '\n' :: behind)).errors = []) : (ofChars before).errors = [] := by
  by_cases hu : ∃ s ∈ visible 1 before, s.1.kind = .unterminated
  · obtain ⟨s, hs, hkind⟩ := unterminated_append 1 hquote hu
    exact absurd hkind (terminated_of_errors h s hs)
  · have hterminated : ∀ s ∈ visible 1 before, s.1.kind ≠ .unterminated :=
      fun s hs hkind => hu ⟨s, hs, hkind⟩
    rw [(ofChars_append behind hterminated).2, List.append_eq_nil_iff] at h
    exact h.1

/-- Unless a string lacks its end before it, a line end divides a text in two that are scanned each by
itself, the one behind on lines that are counted on from there. -/
theorem scan_across_line_end (before behind : String)
    (h : ∀ d ∈ (ofText before).errors, d.message ≠ "Unterminated string.") :
    let k := 1 + before.toList.count '\n'
    ∃ ts, (ofText before).tokens = ts ++ [eof k] ∧ (∀ t ∈ ts, t.kind ≠ .eof) ∧
      (ofText (before ++ "\n" ++ behind)).tokens =
        ts ++ (ofText behind).tokens.map (Token.renumber (· + k)) ∧
      (ofText (before ++ "\n" ++ behind)).errors =
        (ofText before).errors ++ (ofText behind).errors.map (Diagnostic.renumber (· + k)) := by
  intro k
  have htext : (before ++ "\n" ++ behind).toList = before.toList ++ '\n' :: behind.toList := by
    simp
  have hk : before.toList.count '\n' + 1 = k := Nat.add_comm _ _
  obtain ⟨htokens, herrors⟩ := ofChars_append behind.toList (terminated_of_messages h)
  rw [← htext, hk] at htokens herrors
  exact ⟨_, tokens_eq before.toList, kind_ne_eof before.toList, htokens, herrors⟩

/-- The text before the line end holds a stray character and a comment with a quote, the one behind a
string without an end. -/
theorem scan_across_line_end_with_errors :
    let before := "a @\n// \x22"
    let behind := "b\n\x22c"
    let whole := ofText (before ++ "\n" ++ behind)
    (∀ d ∈ (ofText before).errors, d.message ≠ "Unterminated string.") ∧
      whole.tokens.map (fun t => (t.kind, t.lexeme, t.line)) =
        [(.identifier, "a", 1), (.identifier, "b", 3), (.eof, "", 4)] ∧
      whole.errors = [.lexical 1 "Unexpected character.", .lexical 4 "Unterminated string."] := by
  intro before behind whole
  have hbefore : (ofText before).errors = [.lexical 1 "Unexpected character."] := by decide +kernel
  have hbehind : (ofText behind).errors = [.lexical 2 "Unterminated string."] := by decide +kernel
  have hcount : before.toList.count '\n' = 1 := by decide +kernel
  have hmessages : ∀ d ∈ (ofText before).errors, d.message ≠ "Unterminated string." := by
    rw [hbefore]
    decide
  obtain ⟨ts, hends, -, htokens, herrors⟩ := scan_across_line_end before behind hmessages
  have hts : ts = (ofText before).tokens.dropLast := by rw [hends, List.dropLast_concat]
  refine ⟨hmessages, ?_, ?_⟩
  · rw [htokens, hts]
    decide +kernel
  · rw [herrors, hbefore, hbehind, hcount]
    rfl

end Scan

end Scriptlet
