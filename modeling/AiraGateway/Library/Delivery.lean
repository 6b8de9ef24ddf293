import AiraGateway.Library.Runs
import Mathlib.Logic.Function.Basic

/-!
# At-least-once delivery of ordered logs

Several topics each keep one ordered log of events. A consumer applies them to its state one at a
time, in any interleaving of the topics, and keeps a cursor for each: how much of that log it has
applied. A restart may set any cursor back, after which the suffix from there on is delivered
again; a cursor never jumps ahead. What an event does may depend on an input of the moment it is
applied in (a clock), of type `ι`.

* **The cursor rule** (`Delivery.cursor_invariant`): a property of one topic's cursor and the
  state holds over every run if the topic's next event moves it on, every other topic's events
  keep it, and setting the cursor back keeps it.
* **The last word** (`Delivery.holds_at_end`): what the last event of one topic establishes and
  no event of another topic undoes holds whenever that topic has been delivered to its end.
-/

namespace AiraGateway

universe u v w x

/-- How far each topic has been delivered, and the consumer's state. -/
structure Delivery (τ : Type u) (σ : Type v) where
  cursor : τ → ℕ
  model : σ

/-- A topic's next event is applied, or a topic is set back. -/
inductive Delivery.Act (τ : Type u) (ι : Type v)
  | deliver (topic : τ) (input : ι)
  | rewind (topic : τ) (back : ℕ)

namespace Delivery

variable {τ : Type u} {σ : Type v} {ι : Type w} {ε : Type x} [DecidableEq τ]

/-- One step: the event at a topic's cursor is applied and the cursor moves past it, or the
cursor is set back to where it has been. -/
def step (apply : ι → σ → ε → σ) (logs : τ → List ε) (d : Delivery τ σ) :
    Act τ ι → Option (Delivery τ σ)
  | .deliver t i => (logs t)[d.cursor t]?.map fun e =>
      ⟨Function.update d.cursor t (d.cursor t + 1), apply i d.model e⟩
  | .rewind t n =>
      if n ≤ d.cursor t then some { d with cursor := Function.update d.cursor t n } else none

/-- Nothing delivered yet. -/
def start (s : σ) : Delivery τ σ := ⟨fun _ => 0, s⟩

variable {apply : ι → σ → ε → σ} {logs : τ → List ε} {d d' : Delivery τ σ}
  {ok : Delivery τ σ → Act τ ι → Prop} {acts : List (Act τ ι)}

/-- What a delivery and a rewind each do, said once. -/
theorem step_cases {a : Act τ ι} (h : step apply logs d a = some d') :
    (∃ t i e, a = .deliver t i ∧ (logs t)[d.cursor t]? = some e ∧
      d' = ⟨Function.update d.cursor t (d.cursor t + 1), apply i d.model e⟩) ∨
    (∃ t n, a = .rewind t n ∧ n ≤ d.cursor t ∧
      d' = { d with cursor := Function.update d.cursor t n }) := by
  cases a with
  | deliver t i =>
    obtain ⟨e, he, rfl⟩ := Option.map_eq_some_iff.mp h
    exact .inl ⟨t, i, e, rfl, he, rfl⟩
  | rewind t n =>
    rw [step] at h
    split_ifs at h with hn
    exact .inr ⟨t, n, rfl, hn, (Option.some.inj h).symm⟩

/-- **What every event keeps, every run keeps.** -/
theorem model_invariant {P : σ → Prop}
    (hkeep : ∀ t, ∀ e ∈ logs t, ∀ i s, P s → P (apply i s e))
    (run : Run (step apply logs) ok d acts d') (h : P d.model) : P d'.model := by
  refine run.invariant (P := fun d => P d.model) (fun d a d' hP _ hst => ?_) h
  rcases step_cases hst with ⟨t, i, e, -, he, rfl⟩ | ⟨t, n, -, -, rfl⟩
  · exact hkeep t e (List.mem_of_getElem? he) i d.model hP
  · exact hP

/-- **The cursor rule** for one topic `t`, beside a property `P` that every event keeps. -/
theorem cursor_invariant {t : τ} {P : σ → Prop} {Φ : ℕ → σ → Prop}
    (hP : ∀ t', ∀ e ∈ logs t', ∀ i s, P s → P (apply i s e))
    (hown : ∀ c e i s, P s → (logs t)[c]? = some e → Φ c s → Φ (c + 1) (apply i s e))
    (hother : ∀ t' ≠ t, ∀ e ∈ logs t', ∀ c i s, P s → Φ c s → Φ c (apply i s e))
    (hback : ∀ c n s, n ≤ c → Φ c s → Φ n s)
    (run : Run (step apply logs) ok d acts d') (hd : P d.model) (h : Φ (d.cursor t) d.model) :
    Φ (d'.cursor t) d'.model := by
  have hboth : P d'.model ∧ Φ (d'.cursor t) d'.model := by
    refine run.invariant (P := fun d => P d.model ∧ Φ (d.cursor t) d.model)
      (fun d a d' hd _ hst => ?_) ⟨hd, h⟩
    obtain ⟨hPd, hΦ⟩ := hd
    rcases step_cases hst with ⟨t', i, e, -, he, rfl⟩ | ⟨t', n, -, hn, rfl⟩
    · refine ⟨hP t' e (List.mem_of_getElem? he) i d.model hPd, ?_⟩
      by_cases ht : t' = t
      · subst ht
        simpa using hown _ e i d.model hPd he hΦ
      · simpa [Function.update_of_ne (Ne.symm ht)]
          using hother t' ht e (List.mem_of_getElem? he) _ i d.model hPd hΦ
    · refine ⟨hPd, ?_⟩
      by_cases ht : t' = t
      · subst ht
        simpa using hback _ n d.model hn hΦ
      · simpa [Function.update_of_ne (Ne.symm ht)] using hΦ
  exact hboth.2

/-- **The last word.** What a topic's last event establishes and no event of another topic undoes
holds whenever that topic has been delivered to its end, however often it was set back. -/
theorem holds_at_end {t : τ} {last : ε} {P Q : σ → Prop} {s : σ}
    (hP : ∀ t', ∀ e ∈ logs t', ∀ i s, P s → P (apply i s e))
    (hlast : (logs t).getLast? = some last)
    (hset : ∀ i s, P s → Q (apply i s last))
    (hkeep : ∀ t' ≠ t, ∀ e ∈ logs t', ∀ i s, P s → Q s → Q (apply i s e))
    (run : Run (step apply logs) ok (start s) acts d) (hs : P s)
    (hend : d.cursor t = (logs t).length) : Q d.model := by
  have hne : 0 < (logs t).length := by
    cases hlog : logs t with
    | nil => simp [hlog] at hlast
    | cons e rest => simp
  -- only the last event moves the cursor to the end, and a rewind from there leaves it
  have hΦ : d.cursor t ≤ (logs t).length ∧ (d.cursor t = (logs t).length → Q d.model) := by
    refine cursor_invariant (t := t) (P := P)
      (Φ := fun c s => c ≤ (logs t).length ∧ (c = (logs t).length → Q s)) hP ?_ ?_ ?_ run hs ?_
    · intro c e i s hPs he _
      have hc : c < (logs t).length := (List.getElem?_eq_some_iff.mp he).1
      refine ⟨hc, fun hc' => ?_⟩
      obtain rfl : c = (logs t).length - 1 := by omega
      rw [← List.getLast?_eq_getElem?, hlast] at he
      obtain rfl : last = e := Option.some.inj he
      exact hset i s hPs
    · intro t' ht e he c i s hPs hQ
      exact ⟨hQ.1, fun hc => hkeep t' ht e he i s hPs (hQ.2 hc)⟩
    · intro c n s hn hQ
      have hc := hQ.1
      exact ⟨by omega, fun hn' => hQ.2 (by omega)⟩
    · have h0 : 0 ≠ (logs t).length := by omega
      exact ⟨Nat.zero_le _, fun h => absurd h h0⟩
  exact hΦ.2 hend

end Delivery

end AiraGateway
