import Mathlib.Data.List.Basic

/-!
# Programs that leave a trace

A program `Traced ω ε φ α` takes the answers `ω` of its environment one after another, says what
it does as events `ε`, and ends with a value `α` or raises a `φ`. What was said stays said when
the program raises, so a trace is the whole history of a program that catches and tries again.

`p.Meets Q` is the statement that `Q` holds of the events and the ending of every run of `p`,
whatever the environment answers. Its rules follow the constructors of a program:

* in sequence (`Meets.bind`), where the rest is met by what may follow the events so far;
* an exception handled (`Meets.catching`), where the handler's events come after those of the
  program that raised;
* something said at the end however the program ends (`Meets.afterwards`).
-/

namespace AiraGateway

/-- What a run left: its events in order, how many answers it has used up, and its ending. -/
structure TracedRun (ε φ α : Type) where
  events : List ε
  used : ℕ
  result : Except φ α

def Traced (ω ε φ α : Type) : Type := (ℕ → ω) → ℕ → TracedRun ε φ α

namespace Traced

variable {ω ε φ α β : Type}

/-- What `rest` leaves after a run that left `events` and used `used` answers. -/
def after (events : List ε) (used : ℕ) (rest : Traced ω ε φ α) (answers : ℕ → ω) :
    TracedRun ε φ α :=
  let ran := rest answers used
  ⟨events ++ ran.events, ran.used, ran.result⟩

/-- Run `p`, and `f` on its value after it. -/
def andThen (p : Traced ω ε φ α) (f : α → Traced ω ε φ β) : Traced ω ε φ β :=
  fun answers n =>
    let ran := p answers n
    match ran.result with
    | .error e => ⟨ran.events, ran.used, .error e⟩
    | .ok a => after ran.events ran.used (f a) answers

instance : Monad (Traced ω ε φ) where
  pure a := fun _ n => ⟨[], n, .ok a⟩
  bind := andThen

/-- Take the environment's next answer. -/
def ask : Traced ω ε φ ω := fun answers n => ⟨[], n + 1, .ok (answers n)⟩

def say (event : ε) : Traced ω ε φ Unit := fun _ n => ⟨[event], n, .ok ()⟩

def ofExcept (x : Except φ α) : Traced ω ε φ α := fun _ n => ⟨[], n, x⟩

def raise (e : φ) : Traced ω ε φ α := ofExcept (.error e)

/-- Run `p`, and the handler after it where it raises. -/
def catching (p : Traced ω ε φ α) (handler : φ → Traced ω ε φ α) : Traced ω ε φ α :=
  fun answers n =>
    let ran := p answers n
    match ran.result with
    | .ok a => ⟨ran.events, ran.used, .ok a⟩
    | .error e => after ran.events ran.used (handler e) answers

/-- Run `p` and say `event` at its end, however it ends. -/
def afterwards (p : Traced ω ε φ α) (event : ε) : Traced ω ε φ α :=
  fun answers n =>
    let ran := p answers n
    ⟨ran.events ++ [event], ran.used, ran.result⟩

/-! ### What every run meets -/

/-- `Q` holds of the events and the ending of every run. -/
def Meets (p : Traced ω ε φ α) (Q : List ε → Except φ α → Prop) : Prop :=
  ∀ answers n, Q (p answers n).events (p answers n).result

variable {p : Traced ω ε φ α} {f : α → Traced ω ε φ β} {Q R : List ε → Except φ α → Prop}
variable {S : List ε → Except φ β → Prop}

theorem Meets.mono (h : p.Meets Q) (hQ : ∀ events result, Q events result → R events result) :
    p.Meets R :=
  fun answers n => hQ _ _ (h answers n)

theorem meets_pure {a : α} (h : Q [] (.ok a)) : Meets (pure a : Traced ω ε φ α) Q :=
  fun _ _ => h

theorem meets_ofExcept {x : Except φ α} (h : Q [] x) : (ofExcept x : Traced ω ε φ α).Meets Q :=
  fun _ _ => h

theorem meets_raise {e : φ} (h : Q [] (.error e)) : (raise e : Traced ω ε φ α).Meets Q :=
  meets_ofExcept h

/-- Two programs in sequence: the first raises, or the second follows it. -/
theorem Meets.bind
    (h : p.Meets fun events result =>
      (∀ e, result = .error e → S events (.error e)) ∧
      ∀ a, result = .ok a → (f a).Meets fun more => S (events ++ more)) :
    (p >>= f).Meets S := by
  intro answers n
  obtain ⟨hraise, hrest⟩ := h answers n
  change S (andThen p f answers n).events (andThen p f answers n).result
  rw [andThen]
  rcases hresult : (p answers n).result with e | a
  · exact hraise e hresult
  · exact hrest a hresult answers _

theorem meets_ask_bind {g : ω → Traced ω ε φ β} (h : ∀ answer, (g answer).Meets S) :
    (ask >>= g).Meets S :=
  .bind fun _ _ => ⟨fun _ he => (nomatch he), fun answer _ => h answer⟩

theorem meets_say_bind {event : ε} {rest : Unit → Traced ω ε φ β}
    (h : (rest ()).Meets fun more => S (event :: more)) : (say event >>= rest).Meets S :=
  .bind fun _ _ => ⟨fun _ he => (nomatch he), fun _ _ => h⟩

theorem meets_ofExcept_bind {x : Except φ α} (hraise : ∀ e, x = .error e → S [] (.error e))
    (hrest : ∀ a, x = .ok a → (f a).Meets S) : (ofExcept x >>= f).Meets S :=
  .bind fun _ _ => ⟨hraise, hrest⟩

/-- A handled exception: the program ends well, or the handler follows it. -/
theorem Meets.catching {handler : φ → Traced ω ε φ α}
    (h : p.Meets fun events result =>
      (∀ a, result = .ok a → Q events (.ok a)) ∧
      ∀ e, result = .error e → (handler e).Meets fun more => Q (events ++ more)) :
    (p.catching handler).Meets Q := by
  intro answers n
  obtain ⟨hok, hrest⟩ := h answers n
  rw [Traced.catching]
  rcases hresult : (p answers n).result with e | a
  · exact hrest e hresult answers _
  · exact hok a hresult

theorem Meets.afterwards {event : ε} (h : p.Meets fun events => Q (events ++ [event])) :
    (p.afterwards event).Meets Q :=
  fun answers n => h answers n

end Traced

end AiraGateway
