import Scriptlet.Proofs.Evaluation.Traced
import Scriptlet.Proofs.Session.Gate

namespace Scriptlet

open Scriptlet.Action Evaluation

def RunResult.withLimit (limit : Option Nat) (r : RunResult) : RunResult :=
  { r with machine := r.machine.withLimit limit }

namespace Session

/-- The run of a script without a limit on its output, with all that it prints. -/
def trace (bound : Nat) (source : String) (m : Machine) : Trace Flow :=
  Instrument.traced.executeTop bound .normal (statements .script source)
    { m.withLimit none with scope := globals }

private theorem finish_withLimit (limit : Option Nat) (report : Report) (r : Outcome Flow) :
    finish .script report (r.withLimit limit) =
      (finish .script report r).map (RunResult.withLimit limit) := by
  cases r with
  | done flow m => rw [Outcome.withLimit, finish_script, finish_script]; rfl
  | error e m => rfl
  | unfinished => rfl

private theorem limited_trace (limit : Option Nat) (bound : Nat) (source : String) (m : Machine)
    (hfit : Printed.Fit limit m.output.written []) :
    (trace bound source m).Limited limit m.output.refusal m.output.written globals
      (executeTop bound .normal (statements .script source)
        { m.withLimit limit with scope := globals }) := by
  rw [← Instrument.plain_executeTop]
  exact (Traced.relates_limits limit).executeTop (.inl rfl) () nofun (fun _ _ => trivial) nofun
    m.store m.output.written m.output.refusal globals hfit

/-- A longer run prints what a shorter one has printed before it was cut off. -/
theorem extends_trace {bound bound' : Nat} (h : bound ≤ bound') (source : String) (m : Machine) :
    Traced.Extends (trace bound source m) (trace bound' source m) := by
  have hcut : ∀ (_ : Unit) (α : Type) (_ : α → Prop) (y : Traced α),
      Traced.Precedes Instrument.traced.cutOff y := fun _ _ _ y _ => .inr ⟨rfl, List.nil_prefix⟩
  exact Traced.relates_precedes.executeTop (.inr ⟨h, hcut⟩) () nofun (fun _ _ => trivial) nofun _

/-- Without a limit a run does what its trace says. -/
theorem run_unlimited {source : String} (hclean : sourceReport .script source = []) (bound : Nat)
    (m : Machine) :
    run bound .script source (m.withLimit none) = finish .script [] (trace bound source m).outcome ∧
    ∀ r, run bound .script source (m.withLimit none) = some r →
      r.machine.output.written = m.output.written ++ Printed.bytes (trace bound source m).printed := by
  have hlimited := limited_trace none bound source m fun n hn => by cases hn
  rw [run_of_clean hclean]
  generalize trace bound source m = t at hlimited
  generalize executeTop bound .normal _ _ = r at hlimited
  cases hlimited with
  | done _ =>
    refine ⟨rfl, fun r hr => ?_⟩
    rw [finish_script] at hr
    cases hr
    rfl
  | error _ =>
    refine ⟨rfl, fun r hr => ?_⟩
    cases hr
    rfl
  | unfinished _ => exact ⟨rfl, fun r hr => by cases hr⟩
  | cut hn _ _ => cases hn

/-- What follows the bytes that are taken does not matter. -/
theorem extract_append_left {taken more : ByteArray} {n : Nat} (h : n ≤ taken.size) :
    (taken ++ more).extract 0 n = taken.extract 0 n := by
  rw [ByteArray.extract_append, Nat.sub_eq_zero_of_le h, Nat.zero_sub, ByteArray.extract_same,
    ByteArray.append_empty]

private theorem fit_room {written : ByteArray} {n : Nat} {ps : List Printed} :
    Printed.Fit (some (written.size + n)) written ps ↔ (Printed.bytes ps).size ≤ n := by
  simp [Printed.Fit]

/-- With room for all that it prints a run is as without the limit. Otherwise the statement that
prints the first line too much is the last one, also if the run would never have ended. -/
theorem limit_cuts_output_short {source : String} (hclean : sourceReport .script source = [])
    (bound : Nat) (m : Machine) :
    run bound .script source (m.withLimit none) = finish .script [] (trace bound source m).outcome ∧
    (∀ r, run bound .script source (m.withLimit none) = some r →
      r.machine.output.written = m.output.written ++ Printed.bytes (trace bound source m).printed) ∧
    (∀ bound', bound ≤ bound' →
      Traced.Extends (trace bound source m) (trace bound' source m)) ∧
    ∀ n, let limit := some (m.output.written.size + n)
      ((Printed.bytes (trace bound source m).printed).size ≤ n →
        run bound .script source (m.withLimit limit) =
          (run bound .script source (m.withLimit none)).map (RunResult.withLimit limit)) ∧
      (n < (Printed.bytes (trace bound source m).printed).size →
        ∃ earlier line later, (trace bound source m).printed = earlier ++ line :: later ∧
          (Printed.bytes earlier).size ≤ n ∧ n < (Printed.bytes (earlier ++ [line])).size ∧
          run bound .script source (m.withLimit limit) =
            some ⟨[(⟨line.keyword, .outputFailed m.output.refusal⟩ : RuntimeError).diagnostic], none,
              ⟨line.store, ⟨m.output.written ++ (Printed.bytes (trace bound source m).printed).extract 0 n,
                limit, m.output.refusal⟩, globals⟩⟩) := by
  obtain ⟨hrun, hwritten⟩ := run_unlimited hclean bound m
  refine ⟨hrun, hwritten, fun bound' h => extends_trace h source m, fun n => ?_⟩
  intro limit
  have hbegin : Printed.Fit limit m.output.written [] := fit_room.2 (Nat.zero_le n)
  have hlimited := limited_trace limit bound source m hbegin
  rw [hrun, run_of_clean hclean]
  refine ⟨fun hle => ?_, fun hlt => ?_⟩
  · rw [hlimited.eq_of_fit (fit_room.2 hle), finish_withLimit]
  · obtain ⟨earlier, line, later, k, hprinted, hk, hearlier, hover, hcut⟩ :=
      hlimited.exists_cut fun hfit => absurd (fit_room.1 hfit) (Nat.not_le.2 hlt)
    obtain rfl : m.output.written.size + n = k := Option.some.inj hk
    rw [ByteArray.size_append] at hearlier hover
    refine ⟨earlier, line, later, hprinted, by omega, by omega, ?_⟩
    rw [hcut, Traced.extract_append_of_le (Nat.le_add_right _ n), Nat.add_sub_cancel_left, hprinted,
      List.append_cons earlier line later, Printed.bytes_append _ later, extract_append_left (by omega)]
    rfl

/-- The loop never ends without a limit. With one, its second line is cut after its first byte. -/
theorem limit_cuts_endless_loop_short :
    let source := "print \"ab\";\nwhile (true) print \"cd\";"
    sourceReport .script source = [] ∧ run 3 .script source ((start none).withLimit none) = none ∧
      ∃ r, run 3 .script source ((start none).withLimit (some 7)) = some r ∧
        r.report = [.runtime 2 "Failed to write output: sink full"] ∧
        r.machine.output.written = "ab\ncd\nc".toUTF8 ∧ r.machine.scope = globals := by
  intro source
  have hclean : sourceReport .script source = [] := by decide +kernel
  obtain ⟨-, -, -, hlimited⟩ := limit_cuts_output_short hclean 3 (start none)
  have hlong : 7 < (Printed.bytes (trace 3 source (start none)).printed).size := by decide +kernel
  obtain ⟨_, _, _, -, -, -, hcut⟩ := (hlimited 7).2 hlong
  have hendless : (run 3 .script source ((start none).withLimit none)).isNone = true := by
    decide +kernel
  have hline : ((run 3 .script source ((start none).withLimit (some 7))).map fun r =>
      (r.report, r.machine.output.written)) =
      some ([.runtime 2 "Failed to write output: sink full"], "ab\ncd\nc".toUTF8) := by decide +kernel
  obtain ⟨r, hr, hline⟩ := Option.map_eq_some_iff.1 hline
  have heq := hr.symm.trans hcut
  cases heq
  exact ⟨hclean, Option.isNone_iff_eq_none.1 hendless, _, hr, congrArg Prod.fst hline,
    congrArg Prod.snd hline, rfl⟩

end Session

end Scriptlet
