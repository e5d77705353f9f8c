import LoxLang.Proofs.Evaluation.Noting

/-!
# What a run prints

A program never reads what it has printed, so what it prints does not depend on where it prints to.  A
noted run prints nothing and notes what would be printed, with the machine as it stood then.  The run
itself is found from the notes: the sink takes one print after the other, and if it refuses one, then
all that came behind that print is undone.

* `Print` — the bytes of a print, and the machine in front of it; `Print.joined` — the bytes of many.
* `Printed` — a step with its prints; `Printed.steps` — a run that is made of such steps.
* `Sink.passes` — a sink that takes prints until it refuses one.
* `Noted.onto` — what comes of a noted run at a sink.
* **`Printed.prints`** — every run, at every sink, is what comes of the noted run there.
-/

namespace LoxLang

/-- The same machine with another sink. -/
def Machine.onto (machine : Machine) (sink : Sink) : Machine := { machine with sink }

/-- How a step ends with another sink. -/
def Outcome.onto {α : Type} (sink : Sink) : Outcome α → Outcome α
  | .done value machine => .done value (machine.onto sink)
  | .failed fault machine => .failed fault (machine.onto sink)
  | .exhausted => .exhausted

/-- The bytes of a print, and the machine in front of it with the scope in which the step began. -/
structure Print where
  bytes : ByteArray
  machine : Machine

/-- The bytes of prints in a row. -/
def Print.joined : List Print → ByteArray
  | [] => .empty
  | print :: later => print.bytes ++ joined later

/-- A noted step of a program.  Its outcome has no regard to the sink. -/
abbrev Printed : Type → Type := Noting Print

/-- A sink that takes one print after the other.  If it refuses one, nothing has happened from there on,
and the refusal is the fault. -/
def Sink.passes (sink : Sink) : List Print → Except (SinkError × Machine) Sink
  | [] => .ok sink
  | print :: later =>
    match sink.write print.bytes with
    | (none, sink) => sink.passes later
    | (some error, sink) => .error (error, print.machine.onto sink)

/-- What comes of a noted step at a sink. -/
def Noted.onto {α : Type} (noted : Noted Print α) (sink : Sink) : Outcome α :=
  match sink.passes noted.notes with
  | .ok sink => noted.outcome.onto sink
  | .error (error, machine) => .failed (.output error) machine

namespace Printed

variable {α β : Type}

/-- The steps of a noted run.  A print in another scope is noted with the machine as it is once that
scope has been left. -/
def steps : Steps Printed where
  basic := Noting.lift
  print text := fun machine => ⟨[⟨(text ++ "\n").toUTF8, machine⟩], .done () machine⟩
  within scope step := fun machine =>
    let noted := step { machine with current := scope }
    ⟨noted.notes.map fun print =>
        { print with machine := { print.machine with current := machine.current } },
      Action.within scope (fun _ => noted.outcome) machine⟩

end Printed

/-! ## Sinks that take prints -/

namespace Sink

lemma passes_append (sink : Sink) (first second : List Print) :
    sink.passes (first ++ second) =
      match sink.passes first with
      | .ok sink => sink.passes second
      | .error refused => .error refused := by
  induction first generalizing sink with
  | nil => rfl
  | cons print later ih =>
      rw [List.cons_append, passes, passes]
      rcases sink.write print.bytes with ⟨_ | error, after⟩
      · exact ih after
      · rfl

/-- A sink that takes all bytes takes all prints, in their order. -/
lemma passes_takes (sink : ByteArray → Sink)
    (takes : ∀ taken bytes, (sink taken).write bytes = (none, sink (taken ++ bytes)))
    (taken : ByteArray) (prints : List Print) :
    (sink taken).passes prints = .ok (sink (taken ++ Print.joined prints)) := by
  induction prints generalizing taken with
  | nil => rw [passes, Print.joined, ByteArray.append_empty]
  | cons print later ih =>
      rw [Print.joined, ← ByteArray.append_assoc, ← ih, passes, takes]

/-- Prints that leave the scope around them are taken alike, and so is the scope left on a refusal. -/
lemma passes_leave (sink : Sink) (outside : Nat) (prints : List Print) :
    sink.passes (prints.map fun print =>
        { print with machine := { print.machine with current := outside } }) =
      match sink.passes prints with
      | .ok sink => .ok sink
      | .error (error, machine) => .error (error, { machine with current := outside }) := by
  induction prints generalizing sink with
  | nil => rfl
  | cons print later ih =>
      rw [List.map_cons, passes, passes]
      rcases sink.write print.bytes with ⟨_ | error, after⟩
      · exact ih after
      · rfl

end Sink

/-! ## Steps that do not look at the sink -/

namespace Action

variable {α : Type}

/-- The step neither prints nor looks at what has been printed. -/
def Calm (action : Action α) : Prop :=
  ∀ machine sink, action (machine.onto sink) = (action machine).onto sink

/-- **No basic step has to do with the sink.** -/
lemma Basic.calm {action : Action α} (basic : action.Basic) : action.Calm := by
  intro machine sink
  cases basic with
  | exhausted => rfl
  | fail error place => rfl
  | ofExcept place result => cases result <;> rfl
  | define name value => rfl
  | declare name parameters body => rfl
  | openScope outer => rfl
  | current => rfl
  | bindAll scope parameters arguments => rfl
  | callNative index paren arguments =>
      simp only [Action.callNative, Machine.onto]
      split
      · rfl
      · split <;> rfl
      · rfl

lemma calm_look (name : Token) (hops : Option Nat) : (look name hops).Calm := by
  intro machine sink
  simp only [look, Machine.onto]
  split <;> rfl

lemma calm_assign (name : Token) (hops : Option Nat) (value : Value) :
    (assign name hops value).Calm := by
  intro machine sink
  simp only [assign, Machine.onto]
  split <;> rfl

end Action

/-! ## The run from its notes -/

namespace Printed

variable {α β : Type}

/-- At every sink, the step is what comes of the noted step there. -/
def Prints (step : Printed α) (action : Action α) : Prop :=
  ∀ machine sink, action (machine.onto sink) = (step machine).onto sink

namespace Prints

lemma pure (value : α) : Prints (Pure.pure value) (Pure.pure value) := fun _ _ => rfl

lemma lift {action : Action α} (calm : action.Calm) : Prints (Noting.lift action) action := calm

lemma print (text : String) : Prints (steps.print text) (Action.print text) := by
  intro machine sink
  simp only [Action.print, Machine.onto, steps, Noted.onto, Sink.passes]
  rcases sink.write (text ++ "\n").toUTF8 with ⟨_ | error, after⟩
  · rfl
  · rfl

lemma bind {step : Printed α} {action : Action α} {next : α → Printed β} {follow : α → Action β}
    (first : Prints step action) (second : ∀ value, Prints (next value) (follow value)) :
    Prints (step >>= next) (action >>= follow) := by
  intro machine sink
  show Action.bind action follow (machine.onto sink) = (Noting.bind step next machine).onto sink
  simp only [Action.bind, Noting.bind, first machine sink, Noted.onto]
  rcases step machine with ⟨prints, outcome⟩
  cases outcome with
  | done value after =>
      simp only [Sink.passes_append]
      cases sink.passes prints with
      | ok taken => exact second value after taken
      | error refused => rfl
  | failed fault after => cases sink.passes prints <;> rfl
  | exhausted => cases sink.passes prints <;> rfl

lemma within (scope : Nat) {step : Printed α} {action : Action α} (inner : Prints step action) :
    Prints (steps.within scope step) (Action.within scope action) := by
  intro machine sink
  have inside := inner { machine with current := scope } sink
  simp only [Action.within, Machine.onto] at inside ⊢
  simp only [inside, Noted.onto, steps, Sink.passes_leave]
  rcases step { machine with current := scope } with ⟨prints, outcome⟩
  cases sink.passes prints with
  | ok taken => cases outcome <;> rfl
  | error refused => rfl

end Prints

/-- Putting noted steps together keeps what comes of them. -/
lemma follows : steps.Follows Steps.own Prints where
  pure := Prints.pure
  bind := Prints.bind
  basic basic := .lift basic.calm
  within := Prints.within
  print := Prints.print
  look name hops := .lift (Action.calm_look name hops)
  assign name hops value := .lift (Action.calm_assign name hops value)
  around _ := id

/-- **Every run is what comes of the noted run**, at every sink: if the sink takes all prints, then the
run ends as the noted one does, and otherwise it stops with the machine in front of the print that was
refused. -/
theorem prints (n : Nat) : steps.Tells Prints n := follows.program n

end Printed

end LoxLang
