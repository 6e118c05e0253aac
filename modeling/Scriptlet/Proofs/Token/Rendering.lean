import Scriptlet.Proofs.Session.Layout
import Scriptlet.Proofs.Token.LongestMatch

namespace Scriptlet

open List (Forall₂)

/-- What may stand between two lexemes: blanks, and behind them comments up to their line ends, with
or without further blanks at the beginning of each line. -/
inductive Separator : List Char → Prop where
  | blanks {d : Char} {ds : List Char} (h : ∀ e ∈ d :: ds, Segment.isBlank e) : Separator (d :: ds)
  | comment {sep : List Char} (hsep : Separator sep) (cs more : List Char) (hcs : '\n' ∉ cs)
    (hmore : ∀ e ∈ more, Segment.isBlank e) : Separator (sep ++ '/' :: '/' :: cs ++ '\n' :: more)

/-- The text is made of the lexemes in order, any two of them with a separator between them. -/
inductive Rendering : List String → List Char → Prop where
  | nil : Rendering [] []
  | single (lexeme : String) : Rendering [lexeme] lexeme.toList
  | cons (lexeme : String) {next : String} {lexemes : List String} {sep rest : List Char}
    (hsep : Separator sep) (hrest : Rendering (next :: lexemes) rest) :
    Rendering (lexeme :: next :: lexemes) (lexeme.toList ++ sep ++ rest)

private theorem Separator.exists_blank {sep : List Char} (h : Separator sep) :
    ∃ d ds, sep = d :: ds ∧ Segment.isBlank d := by
  induction h with
  | @blanks d ds h => exact ⟨d, ds, rfl, h d List.mem_cons_self⟩
  | comment _ _ _ _ _ ih =>
    obtain ⟨d, ds, rfl, hd⟩ := ih
    exact ⟨d, _, rfl, hd⟩

namespace Segment

private theorem visible_blanks (line : Nat) {ds : List Char} (rest : List Char)
    (h : ∀ d ∈ ds, isBlank d) :
    visible line (ds ++ rest) = visible (line + ds.count '\n') rest := by
  induction ds generalizing line with
  | nil => rfl
  | cons d ds ih =>
    obtain ⟨hd, hds⟩ := List.forall_mem_cons.1 h
    rw [List.cons_append, visible_blank line _ hd, ih _ hds, Nat.add_assoc, ← List.count_append,
      List.singleton_append]

private theorem visible_comment (line : Nat) {cs : List Char} (rest : List Char) (h : '\n' ∉ cs) :
    visible line ('/' :: '/' :: cs ++ '\n' :: rest) = visible (line + 1) rest := by
  have hnone : visible line ('/' :: '/' :: cs) = [] := by
    obtain ⟨c, ds, htext, hfirst⟩ := first_of_matches (.comment h)
    rw [htext, visible_cons, hfirst, visible_nil]
    rfl
  have hcount : ('/' :: '/' :: cs).count '\n' = 0 := by simp [List.count_eq_zero.2 h]
  rw [visible_append line rest (by simp [hnone]), hnone, hcount]
  rfl

private theorem visible_separator (line : Nat) {sep : List Char} (rest : List Char)
    (h : Separator sep) :
    visible line (sep ++ rest) = visible (line + sep.count '\n') rest := by
  induction h generalizing rest with
  | blanks h => exact visible_blanks line rest h
  | @comment sep _ cs more hcs hmore ih =>
    have hcount : (sep ++ '/' :: '/' :: cs ++ '\n' :: more).count '\n' =
        sep.count '\n' + 1 + more.count '\n' := by
      simp [List.count_eq_zero.2 hcs]
      omega
    have hsplit : sep ++ '/' :: '/' :: cs ++ '\n' :: more ++ rest =
        sep ++ ('/' :: '/' :: cs ++ '\n' :: (more ++ rest)) := by simp
    rw [hsplit, ih, visible_comment _ _ hcs, visible_blanks _ _ hmore, hcount, Nat.add_assoc,
      Nat.add_assoc, Nat.add_assoc]

/-- Everything in a text matches, unless it is unexpected. -/
theorem matches_ofText {cs : List Char} {s : Segment} (hs : s ∈ ofText cs)
    (hkind : s.kind ≠ .unexpected) : Matches s.kind s.text := by
  have h := segmentation_ofText cs
  generalize ofText cs = ss at h hs
  induction h with
  | nil => cases hs
  | longest hm _ _ ih =>
    rcases List.mem_cons.1 hs with rfl | hs
    · exact hm
    · exact ih hs
  | unexpected _ _ ih =>
    rcases List.mem_cons.1 hs with rfl | hs
    · exact absurd rfl hkind
    · exact ih hs

/-- A segment of a program: the text of a token. -/
structure IsToken (s : Segment) : Prop where
  kind : ∃ kind literal, s.kind = .token kind literal
  fits : Matches s.kind s.text

/-- At the end of a text and before a blank a token is scanned as it is by itself. -/
theorem visible_token {s : Segment} (h : s.IsToken) (line : Nat) {rest : List Char}
    (hrest : rest = [] ∨ ∃ d ds, rest = d :: ds ∧ isBlank d) :
    visible line (s.text ++ rest) = (s, line + s.lineEnds) :: visible (line + s.lineEnds) rest := by
  obtain ⟨kind, literal, hkind⟩ := h.kind
  obtain ⟨c, cs, htext, hfirst⟩ := first_of_matches h.fits
  have hself : first c cs = (s, []) := by rw [hfirst, ← htext]
  have hlayout : s.isLayout = false := by rw [isLayout, hkind]
  have hall : first c (cs ++ rest) = (s, rest) := by
    rcases hrest with rfl | ⟨d, ds, rfl, hd⟩
    · rw [List.append_nil, hself]
    · have hc : isBlank c = false := by
        by_contra hblank
        have hblanks : first c cs = blanks c cs := by
          rw [first, if_pos (by simpa using hblank)]
        rw [hself] at hblanks
        have hs := congrArg (fun r => r.1.kind) hblanks
        rw [hkind] at hs
        cases hs
      rw [first_append hd ds hc (by simp [hself, hkind]) (.inr (by simp [hself, hkind])), hself]
      rfl
  rw [htext, List.cons_append, visible_cons, hall, hlayout]
  rfl

/-- The segments of a rendered text are the tokens that it is rendered from. -/
theorem map_fst_visible_of_rendering {ss : List Segment} (hss : ∀ s ∈ ss, s.IsToken)
    {cs : List Char} (h : Rendering (ss.map fun s => String.ofList s.text) cs) (line : Nat) :
    (visible line cs).map Prod.fst = ss := by
  induction ss generalizing cs line with
  | nil =>
    cases h
    rw [visible_nil]
    rfl
  | cons s ss ih =>
    obtain ⟨hs, hss⟩ := List.forall_mem_cons.1 hss
    cases ss with
    | nil =>
      cases h
      have hself := visible_token hs line (.inl rfl)
      rw [List.append_nil, visible_nil] at hself
      rw [String.toList_ofList, hself]
      rfl
    | cons next ss =>
      cases h with
      | @cons _ _ _ sep rest hsep hrest =>
        obtain ⟨d, ds, hd, hblank⟩ := hsep.exists_blank
        have hbehind : sep ++ rest = d :: (ds ++ rest) := by rw [hd, List.cons_append]
        rw [String.toList_ofList, List.append_assoc,
          visible_token hs line (.inr ⟨d, _, hbehind, hblank⟩), visible_separator _ _ hsep,
          List.map_cons, ih hss hrest]

end Segment

namespace Session

/-- Where nothing is wrong, all that is not layout is tokens. -/
theorem isToken_of_errors {source : String} (h : (Scan.ofText source).errors = []) :
    ∀ s ∈ besideLayout source, s.IsToken := by
  intro s hs
  have hmem := hs
  rw [← map_fst_visible 1, List.mem_map] at hmem
  obtain ⟨⟨s', line⟩, hplaced, rfl⟩ := hmem
  obtain ⟨hsegment, hlayout⟩ := List.mem_filter.1 hs
  have hnone : Segment.error? (s', line) = none := by
    have herrors := Scan.errors_eq source.toList
    rw [← Scan.ofText, h] at herrors
    exact List.filterMap_eq_nil_iff.1 herrors.symm _ hplaced
  obtain ⟨kind, text⟩ := s'
  cases kind with
  | token kind literal =>
    exact ⟨⟨kind, literal, rfl⟩, Segment.matches_ofText hsegment (by simp)⟩
  | layout => cases hlayout
  | unterminated => cases hnone
  | unexpected => cases hnone

/-- Where nothing is wrong, the texts of the segments that are not layout are the lexemes. -/
theorem map_lexeme_tokens {source : String} (h : (Scan.ofText source).errors = []) :
    (Scan.ofText source).tokens.dropLast.map Token.lexeme =
      (besideLayout source).map fun s => String.ofList s.text := by
  have htoken : ∀ s ∈ Segment.visible 1 source.toList,
      (Segment.token? s).map Token.lexeme = some (String.ofList s.1.text) := by
    rintro ⟨⟨kind, text⟩, line⟩ hs
    have hmem : (⟨kind, text⟩ : Segment) ∈ besideLayout source := by
      rw [← map_fst_visible 1]
      exact List.mem_map_of_mem hs
    obtain ⟨⟨kind, literal, rfl⟩, -⟩ := isToken_of_errors h _ hmem
    rfl
  rw [Scan.ofText, Scan.dropLast_tokens, List.map_filterMap, List.filterMap_congr htoken,
    List.filterMap_eq_map', ← map_fst_visible 1, List.map_map]
  rfl

/-- The lexemes of a text that scanning accepts, written again with any separators, are scanned as
tokens of the same kinds with the same lexemes and literals. -/
theorem rendering_scans_alike (source : String) (h : (Scan.ofText source).errors = []) :
    ∃ ts line, (Scan.ofText source).tokens = ts ++ [Scan.eof line] ∧ (∀ t ∈ ts, t.kind ≠ .eof) ∧
      ∀ text : String, Rendering (ts.map Token.lexeme) text.toList →
        (Scan.ofText text).errors = [] ∧
        Forall₂ Token.Alike (Scan.ofText text).tokens (Scan.ofText source).tokens ∧
        ∃ ts' line', (Scan.ofText text).tokens = ts' ++ [Scan.eof line'] ∧
          ∀ t ∈ ts', t.kind ≠ .eof := by
  refine ⟨_, _, Scan.tokens_eq source.toList, Scan.kind_ne_eof source.toList, ?_⟩
  intro text hrendering
  have hbeside : besideLayout text = besideLayout source := by
    rw [← Scan.ofText, map_lexeme_tokens h] at hrendering
    rw [← map_fst_visible 1]
    exact Segment.map_fst_visible_of_rendering (isToken_of_errors h) hrendering 1
  obtain ⟨htokens, herrors⟩ := alike_scan hbeside
  rw [h] at herrors
  exact ⟨List.forall₂_nil_right_iff.1 herrors, htokens, _, _, Scan.tokens_eq text.toList,
    Scan.kind_ne_eof text.toList⟩

/-- Pairs of operators that would grow together, a number before a point, a comment behind a slash and
a string over a line end. -/
theorem rendering_scans_alike_where_lexemes_touch :
    let source := "5.5.x/!y&&&\x22a\n//b\x22"
    let text := "5.5 .\tx / // \x22c\n! y && // d\n//e\n & \x22a\n//b\x22"
    (Scan.ofText source).errors = [] ∧ (Scan.ofText text).errors = [] ∧
      Forall₂ Token.Alike (Scan.ofText text).tokens (Scan.ofText source).tokens ∧
      (Scan.ofText text).tokens.map (fun t => (t.kind, t.lexeme, t.line)) =
        [(.number, "5.5", 1), (.dot, ".", 1), (.identifier, "x", 1), (.slash, "/", 1),
          (.bang, "!", 2), (.identifier, "y", 2), (.ampersandAmpersand, "&&", 2),
          (.ampersand, "&", 4), (.string, "\x22a\n//b\x22", 5), (.eof, "", 5)] := by
  intro source text
  have hsource : (Scan.ofText source).errors = [] := by decide +kernel
  have hlexemes : (Scan.ofText source).tokens.dropLast.map Token.lexeme =
      ["5.5", ".", "x", "/", "!", "y", "&&", "&", "\x22a\n//b\x22"] := by decide +kernel
  have hblank : ∀ e ∈ [' '], Segment.isBlank e := List.forall_mem_singleton.2 rfl
  have hnone : ∀ e ∈ ([] : List Char), Segment.isBlank e := List.forall_mem_nil _
  have hspace : Separator [' '] := .blanks hblank
  have htab : Separator ['\t'] := .blanks (List.forall_mem_singleton.2 rfl)
  have hcomment := hspace.comment [' ', '\x22', 'c'] [] (by decide) hnone
  have hcomments := (hspace.comment [' ', 'd'] [] (by decide) hnone).comment ['e'] [' ']
    (by decide) hblank
  obtain ⟨ts, line, hends, -, hall⟩ := rendering_scans_alike source hsource
  have hts : ts = (Scan.ofText source).tokens.dropLast := by rw [hends, List.dropLast_concat]
  have hrendering : Rendering (ts.map Token.lexeme) text.toList := by
    have hwritten := Rendering.cons "5.5" hspace <| .cons "." htab <| .cons "x" hspace <|
      .cons "/" hcomment <| .cons "!" hspace <| .cons "y" hspace <| .cons "&&" hcomments <|
      .cons "&" hspace <| .single "\x22a\n//b\x22"
    rw [hts, hlexemes]
    convert hwritten using 1
    decide +kernel
  obtain ⟨htext, htokens, -⟩ := hall text hrendering
  exact ⟨hsource, htext, htokens, by decide +kernel⟩

end Session

end Scriptlet
