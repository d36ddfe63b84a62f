import Mathlib.Data.List.Basic

/-!
# Runs, their steps and the logs they leave

A machine is a step function `S → L → S`. `steps` pairs every label of a run with the state
it finds, `states` are the states a run goes through, and `forall_mem_states` is the
invariant rule : what holds at the start and is kept by every step of the run holds of every
state. A monitor is a relation on its own states labelled by events, and `Follows` is a
monitor reading a log to its end : the events a log may hold and the order they may come in.
-/

namespace Trace

variable {S L P E : Type*}

/-! ## Runs -/

def run (step : S → L → S) (s : S) (ls : List L) : S :=
  ls.foldl step s

/-- The states of a run, each with the step taken there. -/
def steps (step : S → L → S) : S → List L → List (S × L)
  | _, [] => []
  | s, l :: ls => (s, l) :: steps step (step s l) ls

/-- The states of a run, the last too. -/
def states (step : S → L → S) : S → List L → List S
  | s, [] => [s]
  | s, l :: ls => s :: states step (step s l) ls

theorem run_mem_states (step : S → L → S) :
    ∀ (ls : List L) (s : S), run step s ls ∈ states step s ls
  | [], s => List.mem_singleton_self s
  | l :: ls, s => List.mem_cons_of_mem _ (run_mem_states step ls (step s l))

theorem run_append (step : S → L → S) (s : S) (ls ls' : List L) :
    run step s (ls ++ ls') = run step (run step s ls) ls' :=
  List.foldl_append

theorem log_run {step : S → L → S} (log : S → List E) {emits : S × L → List E}
    (h : ∀ s l, log (step s l) = log s ++ emits (s, l)) :
    ∀ (ls : List L) (s : S), log (run step s ls) = log s ++ (steps step s ls).flatMap emits
  | [], s => by simp [run, steps]
  | l :: ls, s => by
    have ih := log_run log h ls (step s l)
    rw [h, List.append_assoc] at ih
    simpa [run, steps] using ih

theorem fst_mem_states (step : S → L → S) :
    ∀ (ls : List L) (s : S) {x : S × L}, x ∈ steps step s ls → x.1 ∈ states step s ls
  | l :: ls, s, x, hx => by
    rcases List.mem_cons.1 hx with rfl | hx
    · exact List.mem_cons_self
    · exact List.mem_cons_of_mem _ (fst_mem_states step ls (step s l) hx)

/-- An invariant of every step holds in every state. -/
theorem forall_mem_states {step : S → L → S} {I : S → Prop} :
    ∀ (ls : List L) (s : S), I s → (∀ x ∈ steps step s ls, I x.1 → I (step x.1 x.2)) →
      ∀ t ∈ states step s ls, I t
  | [], s, hs, _, t, ht => by
    rw [List.mem_singleton.1 ht]
    exact hs
  | l :: ls, s, hs, hstep, t, ht => by
    rcases List.mem_cons.1 ht with rfl | ht
    · exact hs
    · have hs' : I (step s l) := hstep (s, l) List.mem_cons_self hs
      exact forall_mem_states ls (step s l) hs'
        (fun x hx => hstep x (List.mem_cons_of_mem _ hx)) t ht

/-! ## Monitors -/

/-- `Follows next p log q` : a monitor that starts in `p` can read the log, and is in `q`
after it. -/
inductive Follows (next : P → E → P → Prop) (p : P) : List E → P → Prop
  | nil : Follows next p [] p
  | snoc {log : List E} {q r : P} {e : E} (h : Follows next p log q) (he : next q e r) :
      Follows next p (log ++ [e]) r

variable {next : P → E → P → Prop}

theorem Follows.one {p q : P} {e : E} (h : next p e q) : Follows next p [e] q :=
  .snoc .nil h

theorem Follows.append {p q r : P} {log log' : List E} (h : Follows next p log q)
    (h' : Follows next q log' r) : Follows next p (log ++ log') r := by
  induction h' with
  | nil => simpa using h
  | snoc _ he ih =>
    rw [← List.append_assoc]
    exact .snoc ih he

/-- An invariant of every event holds after a log. -/
theorem Follows.invariant {I : P → Prop} {p q : P} {log : List E} (h : Follows next p log q)
    (hp : I p) (hnext : ∀ {a e b}, next a e b → I a → I b) : I q := by
  induction h with
  | nil => exact hp
  | snoc _ he ih => exact hnext he ih

end Trace
