import Scriptlet.Proofs.Evaluation.Echo
import Scriptlet.Proofs.Grammar.LastSemicolon
import Scriptlet.Proofs.Session.Piecewise

namespace Scriptlet

open Grammar Evaluation

/-- A text without errors, completed by a semicolon. -/
theorem Scan.ofText_completed {source : String} (h : (ofText source).errors = []) :
    (ofText (source ++ "\n;")).errors = [] ∧ ∃ t, t.kind = .semicolon ∧
      (ofText (source ++ "\n;")).tokens.dropLast = (ofText source).tokens.dropLast ++ [t] := by
  have htext : (source ++ "\n;").toList = source.toList ++ '\n' :: [';'] := by simp
  have hkinds : (ofChars [';']).tokens.map Token.kind = [.semicolon, .eof] := by decide +kernel
  have herrors : (ofChars [';']).errors = [] := by decide +kernel
  obtain ⟨htokens, hreport⟩ := ofChars_append [';'] (terminated_of_errors h)
  rw [← htext] at htokens hreport
  constructor
  · have hbefore : (ofChars source.toList).errors = [] := h
    rw [ofText, hreport, hbefore, herrors]
    rfl
  · obtain ⟨t, more, hsplit, hk, hmore⟩ := List.map_eq_cons_iff.1 hkinds
    obtain ⟨e, rfl, -⟩ := List.map_eq_singleton_iff.1 hmore
    refine ⟨t.renumber (· + (source.toList.count '\n' + 1)), hk, ?_⟩
    rw [ofText, htokens, hsplit, List.dropLast_append_of_ne_nil (by simp)]
    rfl

private theorem Scan.errors_of_completed {source : String}
    (h : (ofText (source ++ "\n;")).errors = []) :
    (ofText source).errors = [] := by
  have htext : (source ++ "\n;").toList = source.toList ++ '\n' :: [';'] := by simp
  rw [ofText, htext] at h
  exact errors_of_append (by decide) h

namespace Session

open Scriptlet.Action

/-- The text passes the gate, as these statements. -/
structure Reads (mode : Mode) (source : String) (ss : List Stmt) : Prop where
  scanned : (Scan.ofText source).errors = []
  program : Program.ofTokens mode.isInteractive (Scan.ofText source).tokens = ⟨ss, []⟩
  enclosed : Stmt.exposedReturnsOf ss = []

private theorem isClean_iff_reads (mode : Mode) (source : String) :
    IsClean mode source ↔ ∃ ss, Reads mode source ss := by
  constructor
  · rintro ⟨herrors, hreport, hreturns⟩
    have hprogram : Program.ofTokens mode.isInteractive (Scan.ofText source).tokens =
        ⟨statements mode source, []⟩ := by
      rw [← List.map_eq_nil_iff.1 hreport]
      rfl
    exact ⟨_, herrors, hprogram, List.map_eq_nil_iff.1 hreturns⟩
  · rintro ⟨ss, hreads⟩
    have hprogram := hreads.program
    simp only [IsClean, hprogram]
    refine ⟨hreads.scanned, rfl, ?_⟩
    rw [checkReturns, hreads.enclosed, List.map_nil]

namespace Reads

variable {mode : Mode} {source : String} {ss : List Stmt}

private theorem statements_eq (h : Reads mode source ss) : statements mode source = ss := by
  rw [statements, h.program]

private theorem sourceReport_eq (h : Reads mode source ss) : sourceReport mode source = [] := by
  have hreturns : checkReturns ss = [] := by rw [checkReturns, h.enclosed, List.map_nil]
  simp only [sourceReport, staticReport, h.scanned, h.program, hreturns]
  rfl

/-- The text is executed statement by statement. -/
theorem run_eq (h : Reads mode source ss) (bound : Nat) (m : Machine) :
    run bound mode source m =
      finish mode [] (executeEach bound ss { m with scope := globals }) := by
  rw [run_of_clean h.sourceReport_eq, h.statements_eq, executeEach,
    executeTop_eq_foldlM bound .normal h.enclosed]

end Reads

private theorem reads_script_iff (source : String) (ss : List Stmt) :
    Reads .script source ss ↔ (Scan.ofText source).errors = [] ∧
      IsProgram (Scan.ofText source).tokens.dropLast ss ∧ Stmt.exposedReturnsOf ss = [] := by
  have hprogram : Program.ofTokens Mode.script.isInteractive (Scan.ofText source).tokens = ⟨ss, []⟩ ↔
      IsProgram (Scan.ofText source).tokens.dropLast ss := by
    rw [ofTokens_scan]
    exact declarations_eq_iff rfl
  exact ⟨fun h => ⟨h.scanned, hprogram.1 h.program, h.enclosed⟩,
    fun ⟨hscan, hp, henclosed⟩ => ⟨hscan, hprogram.2 hp, henclosed⟩⟩

/-- An interactive text is read as the script that it is or becomes with a semicolon behind it. -/
theorem reads_interactive_iff (source : String) (ss : List Stmt) :
    Reads .interactive source ss ↔
      Reads .script source ss ∨ Reads .script (source ++ "\n;") ss := by
  have hread {t : Token} (ht : t.kind = .semicolon) :
      Program.ofTokens Mode.interactive.isInteractive (Scan.ofText source).tokens = ⟨ss, []⟩ ↔
        IsProgram (Scan.ofText source).tokens.dropLast ss ∨
          IsProgram ((Scan.ofText source).tokens.dropLast ++ [t]) ss := by
    rw [ofTokens_scan]
    exact declarations_interactive_iff rfl ht
  rw [reads_script_iff, reads_script_iff]
  constructor
  · rintro ⟨hscan, hprogram, henclosed⟩
    obtain ⟨herrors, t, ht, htokens⟩ := Scan.ofText_completed hscan
    rcases (hread ht).1 hprogram with hp | hp
    · exact .inl ⟨hscan, hp, henclosed⟩
    · rw [← htokens] at hp
      exact .inr ⟨herrors, hp, henclosed⟩
  · rintro (⟨hscan, hp, henclosed⟩ | ⟨herrors, hp, henclosed⟩)
    · obtain ⟨-, t, ht, -⟩ := Scan.ofText_completed hscan
      exact ⟨hscan, (hread ht).2 (.inl hp), henclosed⟩
    · have hscan := Scan.errors_of_completed herrors
      obtain ⟨-, t, ht, htokens⟩ := Scan.ofText_completed hscan
      rw [htokens] at hp
      exact ⟨hscan, (hread ht).2 (.inr hp), henclosed⟩

/-- The last statement is an expression, and `v` is its value once the statements before it have been
executed. -/
def LastValue (bound : Nat) (ss : List Stmt) (m : Machine) (v : Value) : Prop :=
  ∃ front e flow m' m'', ss = front ++ [.expression e] ∧
    executeEach bound front m = .done flow m' ∧ evaluateWith (call bound) e m' = .done v m''

private theorem executeEach_concat (bound : Nat) (front : List Stmt) (s : Stmt) :
    executeEach bound (front ++ [s]) =
      executeEach bound front >>= fun _ => executeWith (call bound) bound s := by
  rw [executeEach, List.foldlM_append, executeEach]
  simp only [List.foldlM_cons, List.foldlM_nil, bind_pure]

/-- Statements end with a value just if the last one gives it. -/
theorem executeEach_eq_value_iff (bound : Nat) (ss : List Stmt) (m : Machine) (v : Value) :
    (∃ m', executeEach bound ss m = .done (.value v) m') ↔ LastValue bound ss m v := by
  constructor
  · rintro ⟨m'', h⟩
    rcases List.eq_nil_or_concat ss with rfl | ⟨front, s, hss⟩
    · cases h
    · rw [List.concat_eq_append] at hss
      subst hss
      rw [executeEach_concat, bind_apply] at h
      cases hfront : executeEach bound front m with
      | done flow m' =>
        rw [hfront] at h
        obtain ⟨e, rfl, he⟩ := executeWith_eq_value_iff.1 h
        exact ⟨front, e, flow, m', m'', rfl, hfront, he⟩
      | error e m' =>
        rw [hfront] at h
        cases h
      | unfinished =>
        rw [hfront] at h
        cases h
  · rintro ⟨front, e, flow, m', m'', rfl, hfront, he⟩
    refine ⟨m'', ?_⟩
    rw [executeEach_concat, bind_apply, hfront]
    exact executeWith_eq_value_iff.2 ⟨e, rfl, he⟩

/-- The bytes that are shown once statements have been executed: a line with their last value, unless
there is none or it is `nil`. -/
def Shows (bound : Nat) (ss : List Stmt) (m : Machine) (shown : ByteArray) : Prop :=
  (∃ v, LastValue bound ss m v ∧ v.isNil = false ∧ shown = (v.text ++ "\n").toUTF8) ∨
    (∀ v, LastValue bound ss m v → v.isNil = true) ∧ shown = .empty

/-- The same run with more bytes written. -/
def showing (r : RunResult) (shown : ByteArray) : RunResult :=
  let output := { r.machine.output with written := r.machine.output.written ++ shown }
  { r with machine := { r.machine with output } }

private theorem showing_empty (r : RunResult) : showing r .empty = r := by
  simp only [showing, ByteArray.append_empty]

private theorem write_eq_of_written {o : Output} {text : String} (h : (o.write text).2 = true) :
    (o.write text).1 = { o with written := o.written ++ text.toUTF8 } := by
  unfold Output.write at h ⊢
  split
  · rfl
  · next n hn =>
    rw [hn] at h
    dsimp only at h ⊢
    split
    · rfl
    · next hroom =>
      rw [if_neg hroom] at h
      cases h

private theorem written_of_unlimited {o : Output} (h : o.limit = none) (text : String) :
    (o.write text).2 = true := by
  rw [Output.write, h]

private theorem keepsLimit_executeEach (bound : Nat) (ss : List Stmt) :
    KeepsLimit (executeEach bound ss) := by
  have hfold (last : Flow) :
      KeepsLimit (ss.foldlM (fun _ s => executeWith (call bound) bound s) last) := by
    induction ss generalizing last with
    | nil => exact compositional_keepsLimit.pure id last
    | cons s ss ih =>
      rw [List.foldlM_cons]
      exact (keepsLimit_executeWith bound s).bind ih
  exact hfold .normal

/-- Only a value is shown, and only if it is not `nil`. -/
theorem echo?_interactive_eq_some_iff (flow : Flow) (text : String) :
    echo? .interactive flow = some text ↔
      ∃ v, flow = .value v ∧ v.isNil = false ∧ text = v.text ++ "\n" := by
  cases flow with
  | normal => simp [echo?]
  | ret v => simp [echo?]
  | value v =>
    have hvalue : echo? .interactive (.value v) = if v.isNil then none else some (v.text ++ "\n") := by
      cases hnil : v.isNil <;> simp [echo?, Mode.isInteractive, hnil]
    rw [hvalue]
    cases hnil : v.isNil with
    | true => simp [hnil]
    | false =>
      constructor
      · intro h
        cases h
        exact ⟨v, rfl, hnil, rfl⟩
      · rintro ⟨w, hw, -, rfl⟩
        cases hw
        rfl

/-- An interactive run ends as that of a script and then shows the last value, unless it cannot. -/
theorem finish_interactive (bound : Nat) (ss : List Stmt) (m : Machine) {r : RunResult}
    (h : finish .script [] (executeEach bound ss m) = some r) :
    ∃ r' shown, finish .interactive [] (executeEach bound ss m) = some r' ∧
      Shows bound ss m shown ∧ (r.report ≠ [] → shown = .empty) ∧
      (r'.echoFailure = none → r' = showing r shown) ∧
      (m.output.limit = none → r'.echoFailure = none) := by
  have hlast (v : Value) := executeEach_eq_value_iff bound ss m v
  have hlimit := keepsLimit_executeEach bound ss m
  cases ho : executeEach bound ss m with
  | unfinished =>
    rw [ho] at h
    cases h
  | error e m' =>
    simp only [ho] at h hlast
    cases h
    have hnone : ∀ v, LastValue bound ss m v → v.isNil = true := by
      intro v hv
      obtain ⟨m'', heq⟩ := (hlast v).2 hv
      cases heq
    refine ⟨_, .empty, rfl, .inr ⟨hnone, rfl⟩, fun _ => rfl, fun _ => ?_, fun _ => rfl⟩
    rw [showing_empty]
  | done flow m' =>
    simp only [ho, finish_script] at h hlast hlimit
    cases h
    cases hecho : echo? .interactive flow with
    | none =>
      have hnone : ∀ v, LastValue bound ss m v → v.isNil = true := by
        intro v hv
        obtain ⟨m'', heq⟩ := (hlast v).2 hv
        cases heq
        cases hnil : v.isNil with
        | true => rfl
        | false =>
          have hsome := (echo?_interactive_eq_some_iff (.value v) _).2 ⟨v, rfl, hnil, rfl⟩
          rw [hecho] at hsome
          cases hsome
      refine ⟨⟨[], none, m'⟩, .empty, ?_, .inr ⟨hnone, rfl⟩, fun _ => rfl, fun _ => ?_, fun _ => rfl⟩
      · rw [finish, hecho]
      · rw [showing_empty]
    | some text =>
      obtain ⟨v, rfl, hnil, rfl⟩ := (echo?_interactive_eq_some_iff flow text).1 hecho
      have hv : LastValue bound ss m v := (hlast v).1 ⟨m', rfl⟩
      have hshows : Shows bound ss m (v.text ++ "\n").toUTF8 := .inl ⟨v, hv, hnil, rfl⟩
      obtain ⟨output, written, hwrite⟩ :
          ∃ output written, m'.output.write (v.text ++ "\n") = (output, written) := ⟨_, _, rfl⟩
      cases written with
      | true =>
        have houtput := write_eq_of_written (congrArg Prod.snd hwrite)
        rw [hwrite] at houtput
        refine ⟨⟨[], none, { m' with output }⟩, _, ?_, hshows, fun h => absurd rfl h, fun _ => ?_,
          fun _ => rfl⟩
        · simp only [finish, hecho, hwrite]
        · rw [showing, ← houtput]
      | false =>
        refine ⟨⟨[], some output.refusal, { m' with output }⟩, _, ?_, hshows, fun h => absurd rfl h,
          fun h => (by cases h), fun hunlimited => ?_⟩
        · simp only [finish, hecho, hwrite]
        · have hroom := written_of_unlimited (hlimit.trans hunlimited) (v.text ++ "\n")
          rw [hwrite] at hroom
          cases hroom

/-- An interactive text passes the gate just if it is a script, or would be with a semicolon on a line
behind it. It runs as that script does, and a last value but `nil` is shown. -/
theorem interactive_is_completed_script (source : String) :
    (IsClean .interactive source ↔
      IsClean .script source ∨ IsClean .script (source ++ "\n;")) ∧
    ∀ completed, completed = source ∨ completed = source ++ "\n;" → IsClean .script completed →
      statements .interactive source = statements .script completed ∧
      ∀ bound m,
        (run bound .script completed m = none → run bound .interactive source m = none) ∧
        ∀ r, run bound .script completed m = some r →
          ∃ r' shown, run bound .interactive source m = some r' ∧
            Shows bound (statements .script completed) { m with scope := globals } shown ∧
            (r.report ≠ [] → shown = .empty) ∧
            (r'.echoFailure = none → r' = showing r shown) ∧
            (m.output.limit = none → r'.echoFailure = none) := by
  constructor
  · simp only [isClean_iff_reads, reads_interactive_iff, exists_or]
  · intro completed hcompleted hclean
    obtain ⟨ss, hscript⟩ := (isClean_iff_reads .script completed).1 hclean
    have hreads : Reads .interactive source ss := by
      rw [reads_interactive_iff]
      rcases hcompleted with rfl | rfl
      · exact .inl hscript
      · exact .inr hscript
    refine ⟨hreads.statements_eq.trans hscript.statements_eq.symm, fun bound m => ?_⟩
    rw [hreads.run_eq, hscript.run_eq, hscript.statements_eq]
    refine ⟨?_, fun r hr => finish_interactive bound ss { m with scope := globals } hr⟩
    simp only [finish_eq_none_iff]
    exact id

/-- A line without its semicolon: the value of the call is shown behind what the call prints. -/
theorem interactive_shows_call :
    let source := "fun f() \x7b print nil; return \"x\"; \x7d f()"
    IsClean .script (source ++ "\n;") ∧ IsClean .interactive source ∧
      ∃ r shown, run 1 .script (source ++ "\n;") (start none) = some r ∧
        run 1 .interactive source (start none) = some (showing r shown) ∧
        r.machine.output.written = "nil\n".toUTF8 ∧
        (showing r shown).machine.output.written = "nil\nx\n".toUTF8 := by
  intro source
  obtain ⟨hiff, hruns⟩ := interactive_is_completed_script source
  have hcompleted : IsClean .script (source ++ "\n;") := by
    unfold IsClean
    decide +kernel
  have hscript : (run 1 .script (source ++ "\n;") (start none)).map (·.machine.output.written) =
      some "nil\n".toUTF8 := by decide +kernel
  have hinteractive : (run 1 .interactive source (start none)).map (·.machine.output.written) =
      some "nil\nx\n".toUTF8 := by decide +kernel
  obtain ⟨r, hr, hwritten⟩ := Option.map_eq_some_iff.1 hscript
  obtain ⟨r', shown, hr', -, -, hshowing, hroom⟩ :=
    ((hruns _ (.inr rfl) hcompleted).2 1 (start none)).2 r hr
  have heq := hshowing (hroom rfl)
  rw [hr', heq] at hinteractive
  rw [heq] at hr'
  exact ⟨hcompleted, hiff.2 (.inr hcompleted), r, shown, hr, hr', hwritten,
    Option.some.inj hinteractive⟩

end Session

end Scriptlet
