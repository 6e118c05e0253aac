import Scriptlet.Proofs.Evaluation.Watched
import Scriptlet.Proofs.Session.Isolation

namespace Scriptlet.Session

/-- A text of a session that is run under watch. -/
def Turn.watched (σ : Sentinel) (t : Turn) (w : Watch) (m : Machine) : Watch × Option RunResult :=
  if t.isRejected then (w, some ⟨sourceReport t.mode t.source, none, m⟩)
  else
    match (Instrument.watched σ).executeTop t.bound .normal t.statements w { m with scope := globals } with
    | (w, r) => (w, finish t.mode [] r)

/-- A session under watch. What was noted in one text is still known in the next one. -/
def watchAll (σ : Sentinel) : List Turn → Watch → Machine → Option (List RunResult × Machine)
  | [], _, m => some ([], m)
  | t :: ts, w, m =>
    match t.watched σ w m with
    | (w, r) => r.bind fun r => (watchAll σ ts w r.machine).map fun (rs, last) => (r :: rs, last)

variable {σ : Sentinel} {w : Watch} {m : Machine}

/-- What has been noted agrees with the machine, and no code of the function runs in the scope of the
globals. -/
structure Between (σ : Sentinel) (w : Watch) (m : Machine) : Prop where
  fits : σ.Fits w m.store
  globals_lt : globals.own < m.store.scopes.size
  outside : w.Places globals false

theorem Between.start (limit : Option Nat) : Between σ .start (start limit) where
  fits := Sentinel.fits_start _
  globals_lt := Nat.zero_lt_one
  outside := List.forall_mem_nil _

/-- A text under watch does what it does without, and leaves notes that agree with the machine. -/
theorem Between.watched (h : Between σ w m) (hexpected : σ.expected = Store.homeNow σ.name)
    (t : Turn) :
    (t.watched σ w m).2 = t.run m ∧ ∀ r, t.run m = some r → Between σ (t.watched σ w m).1 r.machine := by
  unfold Turn.watched
  cases hrejected : t.isRejected with
  | true =>
    rw [if_pos rfl, Turn.run_of_rejected hrejected]
    refine ⟨rfl, fun r hr => ?_⟩
    cases hr
    exact h
  | false =>
    -- The names that are declared at the top level do not matter, as no code of the function runs there.
    have hquiet : σ.Quiet false ((Instrument.watched σ).executeTop t.bound .normal t.statements)
        (Instrument.plain.executeTop t.bound .normal t.statements) :=
      (Sentinel.relates_watched hexpected).executeTop (.inl rfl) false nofun
        (fun _ _ hinside => by cases hinside) nofun
    rw [Instrument.plain_executeTop] at hquiet
    obtain ⟨houtcome, hleft⟩ := hquiet w { m with scope := globals } h.fits h.globals_lt h.outside
    have hnext {m' : Machine} (hm' : (executeTop t.bound .normal t.statements
        { m with scope := globals }).machine? = some m') (m'' : Machine) (hstore : m''.store = m'.store) :
        Between σ ((Instrument.watched σ).executeTop t.bound .normal t.statements w
          { m with scope := globals }).1 m'' := by
      obtain ⟨hfits, hgrows⟩ := hleft hm'
      refine ⟨hstore ▸ hfits, ?_, h.outside.grows hgrows h.globals_lt⟩
      rw [hstore]
      exact Nat.lt_of_lt_of_le h.globals_lt hgrows.size
    rw [if_neg Bool.false_ne_true, Turn.run_of_not_rejected hrejected]
    refine ⟨congrArg (finish t.mode []) houtcome, fun r hr => ?_⟩
    rcases finish_cases hr with ⟨e, ho, -⟩ | ⟨flow, m', ho, -, hstore⟩
    · exact hnext (ho ▸ rfl) r.machine rfl
    · exact hnext (ho ▸ rfl) r.machine hstore

private theorem Between.watchAll (h : Between σ w m) (hexpected : σ.expected = Store.homeNow σ.name)
    (turns : List Turn) : watchAll σ turns w m = runAll turns m := by
  induction turns generalizing w m with
  | nil => rfl
  | cons t turns ih =>
    obtain ⟨hrun, hnext⟩ := h.watched hexpected t
    unfold Session.watchAll runAll
    rw [← hrun] at hnext ⊢
    cases hr : (t.watched σ w m).2 with
    | none => simp [hr]
    | some r => simp [hr, ih (hnext r hr)]

/-- Wherever code of a function reads or assigns to a name free in it, the name is in the scope in
which the closure found it first, or in a nearer one that has come to bind it. -/
theorem closure_finds_variable_where_it_was_or_nearer (identity : Nat) (name : String)
    (alarm : Action Unit) (turns : List Turn) (limit : Option Nat) :
    watchAll ⟨identity, name, Store.homeNow name, alarm⟩ turns .start (start limit) =
      runAll turns (start limit) :=
  (Between.start limit).watchAll rfl turns

/-- The variable need not stay the same: the second call finds the one that the block has come to
declare, and a sentinel that looks for the first one cuts the run off. -/
theorem closure_finds_later_variable :
    let source := "var a = \"global\";\n\x7b\n  fun show() \x7b print a; \x7d\n  show();\n" ++
      "  var a = \"block\";\n  show();\n\x7d\n"
    let turns : List Turn := [⟨2, .script, source⟩]
    (runAll turns (start none)).map (fun (_, last) => last.output.written) =
        some "global\nblock\n".toUTF8 ∧
      watchAll ⟨0, "a", fun _ _ scope => scope, Action.cutOff⟩ turns .start (start none) = none ∧
      ¬∀ identity name alarm, watchAll ⟨identity, name, fun _ _ scope => scope, alarm⟩ turns .start
        (start none) = runAll turns (start none) := by
  intro source turns
  have hwritten : (runAll turns (start none)).map (fun (_, last) => last.output.written) =
      some "global\nblock\n".toUTF8 := by decide +kernel
  have hcut : (watchAll ⟨0, "a", fun _ _ scope => scope, Action.cutOff⟩ turns .start
      (start none)).isNone = true := by decide +kernel
  have hnone := Option.isNone_iff_eq_none.1 hcut
  refine ⟨hwritten, hnone, fun hall => ?_⟩
  rw [← hall 0 "a" Action.cutOff, hnone] at hwritten
  cases hwritten

end Scriptlet.Session
