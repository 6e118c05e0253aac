import Scriptlet.Proofs.Evaluation.Callers
import Scriptlet.Proofs.Evaluation.Instrument

namespace Scriptlet

open Scriptlet.Action Evaluation

/-- A line that is printed, for the statement of the keyword. -/
structure Printed where
  keyword : Token
  text : String
  store : Store

namespace Printed

def bytes : List Printed → ByteArray
  | [] => .empty
  | p :: ps => p.text.toUTF8 ++ bytes ps

theorem bytes_append (ps qs : List Printed) : bytes (ps ++ qs) = bytes ps ++ bytes qs := by
  induction ps with
  | nil => exact ByteArray.empty_append.symm
  | cons p ps ih => rw [List.cons_append, bytes, ih, bytes, ByteArray.append_assoc]

end Printed

/-- How a run ends, and all that it prints. -/
structure Trace (α : Type) where
  printed : List Printed
  outcome : Outcome α

def Traced (α : Type) := Machine → Trace α

namespace Traced

variable {α β : Type}

protected def pure (a : α) : Traced α := fun m => ⟨[], .done a m⟩

protected def bind (x : Traced α) (f : α → Traced β) : Traced β := fun m =>
  match x m with
  | ⟨ps, .done a m⟩ => ⟨ps ++ (f a m).printed, (f a m).outcome⟩
  | ⟨ps, .error e m⟩ => ⟨ps, .error e m⟩
  | ⟨ps, .unfinished⟩ => ⟨ps, .unfinished⟩

instance : Monad Traced where
  pure := Traced.pure
  bind := Traced.bind

/-- Nothing is printed. -/
def ofAction (x : Action α) : Traced α := fun m => ⟨[], x m⟩

def inScope (env : Env) (x : Traced α) : Traced α := fun m =>
  ⟨(x { m with scope := env }).printed, Action.inScope env (fun m => (x m).outcome) m⟩

end Traced

namespace Instrument

open Traced

def traced : Instrument Traced where
  read name := ofAction (plain.read name)
  assign name v := ofAction (plain.assign name v)
  define name v := ofAction (plain.define name v)
  declare name params body := ofAction (plain.declare name params body)
  print keyword text := fun m =>
    ⟨[⟨keyword, text ++ "\n", m.store⟩], Action.printLine keyword text m⟩
  raise token fault := ofAction (Action.raise token fault)
  cutOff := ofAction Action.cutOff
  broken := pure .normal
  inBlock x := do
    let inner ← ofAction do Action.openScope (← Action.scope).chain
    inScope inner x
  inCall f args x := do
    let env ← ofAction do
      let env ← Action.openScope f.closure.chain
      Action.defineAll env f.params args
      pure env
    inScope env x

end Instrument

def Machine.withLimit (limit : Option Nat) (m : Machine) : Machine :=
  { m with output := { m.output with limit } }

def Outcome.withLimit {α : Type} (limit : Option Nat) : Outcome α → Outcome α
  | .done a m => .done a (m.withLimit limit)
  | .error e m => .error e (m.withLimit limit)
  | .unfinished => .unfinished

/-- There is room for all lines behind what was written before. -/
def Printed.Fit (limit : Option Nat) (written : ByteArray) (ps : List Printed) : Prop :=
  ∀ n, limit = some n → (written ++ bytes ps).size ≤ n

/-- How the run of a trace ends if there is a limit on its output. Without one the trace is what is
printed. -/
inductive Trace.Limited (limit : Option Nat) (refusal : String) (written : ByteArray) (env : Env) {α : Type} :
    Trace α → Outcome α → Prop where
  | done {ps : List Printed} {a : α} {s : Store} : Printed.Fit limit written ps →
    Limited limit refusal written env ⟨ps, .done a ⟨s, ⟨written ++ Printed.bytes ps, none, refusal⟩, env⟩⟩
      (.done a ⟨s, ⟨written ++ Printed.bytes ps, limit, refusal⟩, env⟩)
  | error {ps : List Printed} {e : RuntimeError} {s : Store} : Printed.Fit limit written ps →
    Limited limit refusal written env ⟨ps, .error e ⟨s, ⟨written ++ Printed.bytes ps, none, refusal⟩, env⟩⟩
      (.error e ⟨s, ⟨written ++ Printed.bytes ps, limit, refusal⟩, env⟩)
  | unfinished {ps : List Printed} : Printed.Fit limit written ps →
    Limited limit refusal written env ⟨ps, .unfinished⟩ .unfinished
  /-- The first line that does not fit ends the run, and so much of it is written as there is room for. -/
  | cut {earlier later : List Printed} {line : Printed} {n : Nat} {r : Outcome α} : limit = some n →
    Printed.Fit limit written earlier → n < (written ++ Printed.bytes (earlier ++ [line])).size →
    Limited limit refusal written env ⟨earlier ++ line :: later, r⟩
      (.error ⟨line.keyword, .outputFailed refusal⟩
        ⟨line.store, ⟨(written ++ Printed.bytes (earlier ++ [line])).extract 0 n, limit, refusal⟩, env⟩)

namespace Trace

variable {α : Type} {limit : Option Nat} {refusal : String} {written : ByteArray} {env : Env} {t : Trace α}
  {r : Outcome α}

theorem Limited.eq_of_fit (h : t.Limited limit refusal written env r)
    (hfit : Printed.Fit limit written t.printed) : r = t.outcome.withLimit limit := by
  cases h with
  | done _ => rfl
  | error _ => rfl
  | unfinished _ => rfl
  | @cut earlier later line n _ hn _ hover =>
    have hall := hfit n hn
    rw [List.append_cons, Printed.bytes_append, ← ByteArray.append_assoc, ByteArray.size_append] at hall
    omega

theorem Limited.exists_cut (h : t.Limited limit refusal written env r)
    (hfit : ¬Printed.Fit limit written t.printed) :
    ∃ earlier line later n, t.printed = earlier ++ line :: later ∧ limit = some n ∧
      (written ++ Printed.bytes earlier).size ≤ n ∧
      n < (written ++ Printed.bytes (earlier ++ [line])).size ∧
      r = .error ⟨line.keyword, .outputFailed refusal⟩ ⟨line.store,
        ⟨(written ++ Printed.bytes (earlier ++ [line])).extract 0 n, limit, refusal⟩, env⟩ := by
  cases h with
  | done h => exact absurd h hfit
  | error h => exact absurd h hfit
  | unfinished h => exact absurd h hfit
  | cut hn hearlier hover => exact ⟨_, _, _, _, rfl, hn, hearlier _ hn, hover, rfl⟩

end Trace

namespace Traced

open Instrument (plain traced Relates)

variable {α β : Type} {limit : Option Nat} {refusal : String}

/-- The action does with a limit on its output what the trace says. -/
def Limits (limit : Option Nat) (x : Traced α) (y : Action α) : Prop :=
  ∀ s written refusal env, Printed.Fit limit written [] →
    (x ⟨s, ⟨written, none, refusal⟩, env⟩).Limited limit refusal written env (y ⟨s, ⟨written, limit, refusal⟩, env⟩)

private theorem limited_done {written : ByteArray} (hfit : Printed.Fit limit written []) {env : Env}
    (a : α) (s : Store) :
    (⟨[], .done a ⟨s, ⟨written, none, refusal⟩, env⟩⟩ : Trace α).Limited limit refusal written env
      (.done a ⟨s, ⟨written, limit, refusal⟩, env⟩) := by
  have h := @Trace.Limited.done limit refusal written env α [] a s hfit
  rwa [Printed.bytes, ByteArray.append_empty] at h

private theorem limited_error {written : ByteArray} (hfit : Printed.Fit limit written [])
    {env : Env} (e : RuntimeError) (s : Store) :
    (⟨[], .error e ⟨s, ⟨written, none, refusal⟩, env⟩⟩ : Trace α).Limited limit refusal written env
      (.error e ⟨s, ⟨written, limit, refusal⟩, env⟩) := by
  have h := @Trace.Limited.error limit refusal written env α [] e s hfit
  rwa [Printed.bytes, ByteArray.append_empty] at h

private theorem limits_pure (a : α) : Limits limit (pure a) (pure a) :=
  fun s _ _ _ hfit => limited_done hfit a s

private theorem limits_raise (token : Token) (fault : RuntimeFault) :
    Limits limit (ofAction (raise token fault)) (raise token fault : Action α) :=
  fun s _ _ _ hfit => limited_error hfit _ s

private theorem limits_cutOff : Limits limit (ofAction cutOff) (cutOff : Action α) :=
  fun _ _ _ _ hfit => .unfinished hfit

private theorem limits_read (name : Token) : Limits limit (traced.read name) (plain.read name) := by
  intro s written refusal env hfit
  simp only [traced, plain, ofAction, bind_apply, Action.scope, Action.read]
  cases s.get? env name.lexeme with
  | some v => exact limited_done hfit v s
  | none => exact limited_error hfit _ s

private theorem limits_assign (name : Token) (v : Value) :
    Limits limit (traced.assign name v) (plain.assign name v) := by
  intro s written refusal env hfit
  simp only [traced, plain, ofAction, bind_apply, Action.scope, Action.assign]
  cases s.holder? env.chain name.lexeme with
  | some n => exact limited_done hfit () _
  | none => exact limited_error hfit _ s

private theorem limits_define (name : Token) (v : Value) :
    Limits limit (traced.define name v) (plain.define name v) :=
  fun _ _ _ _ hfit => limited_done hfit () _

private theorem limits_declare (name : Token) (params : List Token) (body : List Stmt) :
    Limits limit (traced.declare name params body) (plain.declare name params body) :=
  fun _ _ _ _ hfit => limited_done hfit () _

private theorem bytes_assoc (written : ByteArray) (ps qs : List Printed) :
    written ++ Printed.bytes ps ++ Printed.bytes qs = written ++ Printed.bytes (ps ++ qs) := by
  rw [Printed.bytes_append, ByteArray.append_assoc]

private theorem fit_append {written : ByteArray} {ps qs : List Printed} :
    Printed.Fit limit (written ++ Printed.bytes ps) qs ↔ Printed.Fit limit written (ps ++ qs) := by
  unfold Printed.Fit
  rw [bytes_assoc]

/-- The lines of the first part stand before those of the second one. -/
theorem limited_prepend {written : ByteArray} {ps : List Printed} {env : Env} {t : Trace α}
    {r : Outcome α} (h : t.Limited limit refusal (written ++ Printed.bytes ps) env r) :
    (⟨ps ++ t.printed, t.outcome⟩ : Trace α).Limited limit refusal written env r := by
  cases h with
  | done hfit =>
    rw [bytes_assoc]
    exact .done (fit_append.1 hfit)
  | error hfit =>
    rw [bytes_assoc]
    exact .error (fit_append.1 hfit)
  | unfinished hfit => exact .unfinished (fit_append.1 hfit)
  | @cut earlier later line n r hn hfit hover =>
    dsimp only
    rw [bytes_assoc, ← List.append_assoc ps earlier [line]] at hover ⊢
    rw [← List.append_assoc ps earlier (line :: later)]
    exact .cut hn (fit_append.1 hfit) hover

theorem Limits.bind {x : Traced α} {y : Action α} {f : α → Traced β} {g : α → Action β}
    (hx : Limits limit x y) (hf : ∀ a, Limits limit (f a) (g a)) :
    Limits limit (x >>= f) (y >>= g) := by
  intro s written refusal env hfit
  have hfirst := hx s written refusal env hfit
  show (Traced.bind x f ⟨s, ⟨written, none, refusal⟩, env⟩).Limited limit refusal written env
    (Action.bind y g ⟨s, ⟨written, limit, refusal⟩, env⟩)
  unfold Traced.bind Action.bind
  generalize x ⟨s, ⟨written, none, refusal⟩, env⟩ = t at hfirst ⊢
  generalize y ⟨s, ⟨written, limit, refusal⟩, env⟩ = r at hfirst ⊢
  cases hfirst with
  | @done ps a s hps =>
    have hbegin : Printed.Fit limit (written ++ Printed.bytes ps) [] := by
      rwa [fit_append, List.append_nil]
    exact limited_prepend (hf a s _ refusal env hbegin)
  | error hps => exact .error hps
  | unfinished hps => exact .unfinished hps
  | @cut earlier later line n r hn hearlier hover =>
    cases r with
    | done a m =>
      dsimp only
      rw [List.append_assoc, List.cons_append]
      exact .cut hn hearlier hover
    | error e m => exact .cut hn hearlier hover
    | unfinished => exact .cut hn hearlier hover

theorem Limits.inScope {x : Traced α} {y : Action α} (h : Limits limit x y) (inner : Env) :
    Limits limit (inScope inner x) (Action.inScope inner y) := by
  intro s written refusal env hfit
  have hinner := h s written refusal inner hfit
  simp only [Traced.inScope, Action.inScope]
  generalize x ⟨s, ⟨written, none, refusal⟩, inner⟩ = t at hinner ⊢
  generalize y ⟨s, ⟨written, limit, refusal⟩, inner⟩ = r at hinner ⊢
  cases hinner with
  | done hps => exact .done hps
  | error hps => exact .error hps
  | unfinished hps => exact .unfinished hps
  | cut hn hearlier hover => exact .cut hn hearlier hover

/-- So much of what follows is kept as there is room for behind what was there. -/
theorem extract_append_of_le {written more : ByteArray} {n : Nat} (h : written.size ≤ n) :
    (written ++ more).extract 0 n = written ++ more.extract 0 (n - written.size) := by
  have hall : written.extract 0 n = written := by
    rw [← Nat.max_eq_left h, ByteArray.extract_zero_max_size]
  rw [ByteArray.extract_append, hall, Nat.zero_sub]

private theorem limits_print (keyword : Token) (text : String) :
    Limits limit (traced.print keyword text) (plain.print keyword text) := by
  intro s written refusal env hfit
  have hbytes : Printed.bytes [⟨keyword, text ++ "\n", s⟩] = (text ++ "\n").toUTF8 :=
    ByteArray.append_empty
  simp only [traced, plain, printLine, Output.write]
  rw [← hbytes]
  cases limit with
  | none => exact .done fun n hn => by cases hn
  | some n =>
    have hroom : written.size ≤ n := by simpa [Printed.Fit, Printed.bytes] using hfit
    by_cases hle : (Printed.bytes [⟨keyword, text ++ "\n", s⟩]).size ≤ n - written.size
    · simp only [hle, if_true]
      refine .done fun k hk => ?_
      cases hk
      rw [ByteArray.size_append]
      omega
    · simp only [hle, if_false]
      rw [← extract_append_of_le hroom]
      refine @Trace.Limited.cut _ _ _ _ _ [] [] ⟨keyword, text ++ "\n", s⟩ n _ rfl hfit ?_
      rw [List.nil_append, ByteArray.size_append]
      omega

/-- A limit on the output changes what a program does as it changes what the parts of it do. -/
theorem relates_limits (limit : Option Nat) :
    Relates traced plain False (fun (_ : Unit) _ => True) fun _ _ _ => Limits limit where
  pure _ a _ := limits_pure a
  bind hx hf := hx.bind fun a => hf a nofun
  read _ := limits_read
  assign _ name v _ := limits_assign name v
  define {_ name v} _ _ := limits_define name v
  declare _ _ := limits_declare _ _ _
  print _ := limits_print
  raise _ token fault _ := limits_raise token fault
  cutOff _ := limits_cutOff
  broken _ _ := limits_pure Flow.normal
  inBlock {_ x y} h := by
    have hblock : plain.inBlock y = (do openScope (← Action.scope).chain) >>= fun inner =>
        Action.inScope inner y := by
      simp only [plain, bind_assoc]
    rw [hblock]
    exact Limits.bind (fun _ _ _ _ hfit => limited_done hfit _ _) fun inner => h.inScope inner
  inCall {f x y} _ args _ h := by
    have hcall : plain.inCall f args y = (do
        let env ← openScope f.closure.chain
        defineAll env f.params args
        pure env) >>= fun env => Action.inScope env y := by
      simp only [plain, bind_assoc, pure_bind]
    have hbody := h () fun _ _ => trivial
    rw [hcall]
    exact Limits.bind (fun _ _ _ _ hfit => limited_done hfit _ _) fun env => hbody.inScope env

/-- Nothing is different, or the first run was cut off and the second one has printed more. -/
def Extends (t t' : Trace α) : Prop :=
  t = t' ∨ t.outcome = .unfinished ∧ t.printed <+: t'.printed

def Precedes (x y : Traced α) : Prop := ∀ m, Extends (x m) (y m)

theorem Precedes.refl (x : Traced α) : Precedes x x := fun _ => .inl rfl

theorem Precedes.bind {x y : Traced α} {f g : α → Traced β} (hx : Precedes x y)
    (hf : ∀ a, Precedes (f a) (g a)) : Precedes (x >>= f) (y >>= g) := by
  intro m
  show Extends (Traced.bind x f m) (Traced.bind y g m)
  unfold Traced.bind
  have hfirst := hx m
  generalize x m = t at hfirst ⊢
  generalize y m = t' at hfirst ⊢
  rcases hfirst with rfl | ⟨hcut, hprefix⟩
  · obtain ⟨ps, r⟩ := t
    cases r with
    | done a m' =>
      rcases hf a m' with heq | ⟨hcut, hprefix⟩
      · exact .inl (by dsimp only; rw [heq])
      · exact .inr ⟨hcut, (List.prefix_append_right_inj ps).2 hprefix⟩
    | error e m' => exact .inl rfl
    | unfinished => exact .inl rfl
  · obtain ⟨ps, r⟩ := t
    obtain rfl : r = .unfinished := hcut
    obtain ⟨qs, r'⟩ := t'
    refine .inr ⟨rfl, ?_⟩
    cases r' with
    | done a m' => exact hprefix.trans (List.prefix_append qs _)
    | error e m' => exact hprefix
    | unfinished => exact hprefix

theorem Precedes.inScope {x y : Traced α} (h : Precedes x y) (env : Env) :
    Precedes (inScope env x) (inScope env y) := by
  rintro ⟨s, o, before⟩
  rcases h ⟨s, o, env⟩ with heq | ⟨hcut, hprefix⟩
  · refine .inl ?_
    simp only [Traced.inScope, Action.inScope, heq]
  · refine .inr ⟨?_, hprefix⟩
    simp only [Traced.inScope, Action.inScope, hcut]

/-- A run with a larger bound does the same and then goes on, if it was cut off. -/
theorem relates_precedes :
    Relates traced traced False (fun (_ : Unit) _ => True) fun _ _ _ => Precedes where
  pure _ a _ := .refl (pure a)
  bind hx hf := hx.bind fun a => hf a nofun
  read _ _ := .refl _
  assign _ _ _ _ := .refl _
  define _ _ := .refl _
  declare _ _ := .refl _
  print _ _ _ := .refl _
  raise _ _ _ _ := .refl _
  cutOff _ := .refl _
  broken _ _ := .refl _
  inBlock h := Precedes.bind (.refl _) fun inner => h.inScope inner
  inCall _ _ _ h := Precedes.bind (.refl _) fun env => (h () fun _ _ => trivial).inScope env

end Traced

end Scriptlet
