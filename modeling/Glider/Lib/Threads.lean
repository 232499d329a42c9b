import Glider.Lib.Program
import Glider.Lib.Transition
import Mathlib.Logic.Function.Basic

namespace Glider.Lib

-- What a thread has done: it began with a call, had an operation answered, or came to an end.
inductive Event (κ Op : Type) (Ans : Op → Type) (ε : Type) where
  | begins (call : κ)
  | answers (op : Op) (answer : Ans op)
  | ends (result : Except ε Unit)
  | hangsUp

-- Threads that run their programs over one shared state. A thread's number is not given again, and
-- the history has the newest event first.
structure Threads (σ κ Op : Type) (Ans : Op → Type) (ε : Type) where
  shared : σ
  running : ℕ → Option (Program Op Ans ε Unit)
  started : ℕ
  history : List (ℕ × Event κ Op Ans ε)

-- How calls begin and operations take effect. An operation that is not answered yet may already
-- have an effect.
structure System (σ κ ι Op : Type) (Ans : Op → Type) (ε : Type) where
  program : κ → Program Op Ans ε Unit
  begins : σ → ℕ → κ → Option σ
  act : σ → ℕ → (op : Op) → ι → Option (σ × Option (Ans op))
  ends : σ → ℕ → σ
  hangsUp : σ → ℕ → Option σ

inductive Move (κ ι : Type) where
  | begins (call : κ)
  | acts (t : ℕ) (i : ι)
  | ends (t : ℕ)
  | hangsUp (t : ℕ)

namespace Threads

variable {σ κ ι Op μ ε : Type} {Ans : Op → Type}

def record (s : Threads σ κ Op Ans ε) (t : ℕ) (event : Event κ Op Ans ε)
    (p : Option (Program Op Ans ε Unit)) (shared : σ) : Threads σ κ Op Ans ε :=
  { s with
    shared
    running := Function.update s.running t p
    history := (t, event) :: s.history }

def begun (s : Threads σ κ Op Ans ε) (call : κ) (p : Program Op Ans ε Unit) (shared : σ) :
    Threads σ κ Op Ans ε :=
  { s.record s.started (.begins call) (some p) shared with started := s.started + 1 }

def asks (s : Threads σ κ Op Ans ε) (t : ℕ) : Option Op := (s.running t).bind Program.asks

theorem asks_of_running {s : Threads σ κ Op Ans ε} {t : ℕ} {op : Op}
    {next : Ans op → Program Op Ans ε Unit} (h : s.running t = some (.call op next)) :
    s.asks t = some op := congrArg (·.bind Program.asks) h

theorem running_of_asks {s : Threads σ κ Op Ans ε} {t : ℕ} {op : Op} (h : s.asks t = some op) :
    ∃ next, s.running t = some (.call op next) := by
  obtain ⟨p, hrunning, hasks⟩ := Option.bind_eq_some_iff.mp h
  cases p with
  | call op' next =>
    obtain rfl : op' = op := Option.some.inj hasks
    exact ⟨next, hrunning⟩
  | _ => cases hasks

theorem asks_congr {s s' : Threads σ κ Op Ans ε} {t : ℕ} (h : s'.running t = s.running t) :
    s'.asks t = s.asks t := congrArg (·.bind Program.asks) h

def initial (shared : σ) : Threads σ κ Op Ans ε := ⟨shared, fun _ => none, 0, []⟩

def step (sys : System σ κ ι Op Ans ε) : Transition (Threads σ κ Op Ans ε) (Move κ ι)
  | s, .begins call =>
    (sys.begins s.shared s.started call).map fun shared =>
      s.begun call (sys.program call) shared
  | s, .acts t i =>
    match s.running t with
    | some (.call op next) =>
      (sys.act s.shared t op i).map fun (shared, answer) =>
        match answer with
        | some answer => s.record t (.answers op answer) (some (next answer)) shared
        | none => { s with shared }
    | _ => none
  | s, .ends t =>
    match s.running t with
    | some (.pure _) => some (s.record t (.ends (.ok ())) none (sys.ends s.shared t))
    | some (.throw e) => some (s.record t (.ends (.error e)) none (sys.ends s.shared t))
    | _ => none
  | s, .hangsUp t =>
    match s.running t with
    | some _ => (sys.hangsUp s.shared t).map fun shared => s.record t .hangsUp none shared
    | none => none

-- A thread that comes to an end waits for nothing.
theorem asks_of_ends {sys : System σ κ ι Op Ans ε} {s s' : Threads σ κ Op Ans ε} {t : ℕ}
    (h : step sys s (.ends t) = some s') : s.asks t = none := by
  unfold step at h
  dsimp only at h
  split at h
  next a hrunning => exact congrArg (·.bind Program.asks) hrunning
  next e hrunning => exact congrArg (·.bind Program.asks) hrunning
  · cases h

-- Where the monitor is that follows one thread. It stays there when the thread has come to an end.
def stageIn (monitor : Program.Monitor Op Ans μ) (start : κ → μ) (t : ℕ) :
    List (ℕ × Event κ Op Ans ε) → Option μ
  | [] => none
  | (u, event) :: older =>
    if u = t then
      match event with
      | .begins call => some (start call)
      | .answers op answer =>
        (stageIn monitor start t older).map fun m => monitor.next m op answer
      | _ => stageIn monitor start t older
    else stageIn monitor start t older

-- The call that a thread began with.
def callIn (t : ℕ) : List (ℕ × Event κ Op Ans ε) → Option κ
  | [] => none
  | (u, .begins call) :: older => if u = t then some call else callIn t older
  | _ :: older => callIn t older

theorem mem_of_callIn {t : ℕ} {call : κ} {history : List (ℕ × Event κ Op Ans ε)}
    (h : callIn t history = some call) : (t, .begins call) ∈ history := by
  induction history with
  | nil => cases h
  | cons newest older ih =>
    obtain ⟨u, event⟩ := newest
    cases event with
    | begins call' =>
      by_cases hu : u = t
      · obtain rfl : call' = call := Option.some.inj ((if_pos hu).symm.trans h)
        exact hu ▸ List.mem_cons_self
      · exact List.mem_cons_of_mem _ (ih ((if_neg hu).symm.trans h))
    | _ => exact List.mem_cons_of_mem _ (ih h)

-- The operations that a program has had answered, oldest first.
abbrev Trace (Op : Type) (Ans : Op → Type) := List (Σ op, Ans op)

-- Those of a thread since its call.
def traceIn (t : ℕ) : List (ℕ × Event κ Op Ans ε) → Trace Op Ans
  | [] => []
  | (u, event) :: older =>
    if u = t then
      match event with
      | .begins _ => []
      | .answers op answer => traceIn t older ++ [⟨op, answer⟩]
      | _ => traceIn t older
    else traceIn t older

-- A monitor that knows the call and everything since.
def tracing (allows : κ → Trace Op Ans → Op → Prop) : Program.Monitor Op Ans (κ × Trace Op Ans) :=
  ⟨fun m op => allows m.1 m.2 op, fun m op answer => (m.1, m.2 ++ [⟨op, answer⟩])⟩

theorem stageIn_tracing (allows : κ → Trace Op Ans → Op → Prop) (t : ℕ)
    (history : List (ℕ × Event κ Op Ans ε)) :
    stageIn (tracing allows) (·, []) t history =
      (callIn t history).map fun call => (call, traceIn t history) := by
  induction history with
  | nil => rfl
  | cons newest older ih =>
    obtain ⟨u, event⟩ := newest
    by_cases hu : u = t
    · cases event with
      | begins call => simp only [stageIn, callIn, traceIn, if_pos hu, Option.map_some]
      | answers op answer =>
        simp only [stageIn, callIn, traceIn, if_pos hu, ih, Option.map_map]
        rfl
      | _ => simp only [stageIn, callIn, traceIn, if_pos hu, ih]
    · cases event <;> simp only [stageIn, callIn, traceIn, if_neg hu, ih]

-- A discipline is what the threads keep to: a monitor for the programs of all calls, where it
-- starts, and what it has come to at an end.
structure Discipline (κ Op : Type) (Ans : Op → Type) (ε μ : Type) where
  monitor : Program.Monitor Op Ans μ
  start : κ → μ
  post : μ → Except ε Unit → Prop

-- Every operation that is asked for meets `guard`.
def Met (guard : σ → Op → Prop) (s : Threads σ κ Op Ans ε) : Move κ ι → Prop
  | .acts t _ => ∀ op, s.asks t = some op → guard s.shared op
  | _ => True

theorem met_of_running {guard : σ → Op → Prop} {s : Threads σ κ Op Ans ε} {t : ℕ} {op : Op}
    {next : Ans op → Program Op Ans ε Unit} (i : ι) (hrunning : s.running t = some (.call op next))
    (h : guard s.shared op) : Met guard s (.acts t i : Move κ ι) := by
  intro op' hasks
  obtain rfl : op = op' := Option.some.inj ((asks_of_running hrunning).symm.trans hasks)
  exact h

-- A thread that runs on its own from one state to another: what is shared, and the history. Its
-- operations meet `guard`.
inductive Runs {α : Type} (sys : System σ κ ι Op Ans ε) (guard : σ → Op → Prop) (t : ℕ) :
    σ × List (ℕ × Event κ Op Ans ε) → Program Op Ans ε α →
      σ × List (ℕ × Event κ Op Ans ε) → α → Prop where
  | pure {a : α} {s : σ × List (ℕ × Event κ Op Ans ε)} : Runs sys guard t s (.pure a) s a
  | answers {op : Op} {i : ι} {next : Ans op → Program Op Ans ε α} {answer : Ans op} {shared : σ}
      {s s' : σ × List (ℕ × Event κ Op Ans ε)} {b : α} (hguard : guard s.1 op)
      (hact : sys.act s.1 t op i = some (shared, some answer))
      (h : Runs sys guard t (shared, (t, .answers op answer) :: s.2) (next answer) s' b) :
      Runs sys guard t s (.call op next) s' b
  | waits {op : Op} {i : ι} {next : Ans op → Program Op Ans ε α} {shared : σ}
      {s s' : σ × List (ℕ × Event κ Op Ans ε)} {b : α} (hguard : guard s.1 op)
      (hact : sys.act s.1 t op i = some (shared, none))
      (h : Runs sys guard t (shared, s.2) (.call op next) s' b) :
      Runs sys guard t s (.call op next) s' b

namespace Runs

variable {α β : Type} {sys : System σ κ ι Op Ans ε} {guard : σ → Op → Prop} {t : ℕ}
  {s s' s'' : σ × List (ℕ × Event κ Op Ans ε)}

theorem bind {p : Program Op Ans ε α} {f : α → Program Op Ans ε β} {a : α} {b : β}
    (hp : Runs sys guard t s p s' a) (hf : Runs sys guard t s' (f a) s'' b) :
    Runs sys guard t s (p >>= f) s'' b := by
  induction hp with
  | pure => exact hf
  | answers hguard hact h ih => exact .answers hguard hact (ih hf)
  | waits hguard hact h ih => exact .waits hguard hact (ih hf)

theorem handle {p : Program Op Ans ε α} {a : α} {f : ε → Program Op Ans ε α}
    (hp : Runs sys guard t s p s' a) : Runs sys guard t s (p.handle f) s' a := by
  induction hp with
  | pure => exact .pure
  | answers hguard hact h ih => exact .answers hguard hact ih
  | waits hguard hact h ih => exact .waits hguard hact ih

-- The same steps as steps of the whole system.
theorem exists_path {p : Program Op Ans ε Unit} {u : Unit} (hp : Runs sys guard t s p s' u)
    {w : Threads σ κ Op Ans ε} (hshared : (w.shared, w.history) = s)
    (hrunning : w.running t = some p) :
    ∃ steps w', Transition.path (step sys) w steps = some w' ∧
      Transition.Guarded (step sys) (Met guard) w steps ∧ w'.started = w.started ∧
      w'.shared = s'.1 ∧ w'.history = s'.2 ∧ w'.running t = some (.pure u) := by
  induction hp generalizing w with
  | pure =>
    subst hshared
    exact ⟨[], w, rfl, trivial, rfl, rfl, rfl, hrunning⟩
  | answers hguard hact h ih =>
    rename_i op i next answer shared s₀ s₁ b
    subst hshared
    obtain ⟨steps, w', hpath, hmet, hw'⟩ := ih (w := w.record t (.answers op answer)
      (some (next answer)) shared) rfl (Function.update_self ..)
    have hstep : step sys w (.acts t i) =
        some (w.record t (.answers op answer) (some (next answer)) shared) := by
      simp only [step, hrunning, hact, Option.map_some]
    exact ⟨.acts t i :: steps, w', Transition.path_cons_eq_some.mpr ⟨_, hstep, hpath⟩,
      (Transition.guarded_cons hstep).mpr ⟨met_of_running i hrunning hguard, hmet⟩, hw'⟩
  | waits hguard hact h ih =>
    rename_i op i next shared s₀ s₁ b
    subst hshared
    obtain ⟨steps, w', hpath, hmet, hw'⟩ := ih (w := { w with shared := shared }) rfl hrunning
    have hstep : step sys w (.acts t i) = some { w with shared := shared } := by
      simp only [step, hrunning, hact, Option.map_some]
    exact ⟨.acts t i :: steps, w', Transition.path_cons_eq_some.mpr ⟨_, hstep, hpath⟩,
      (Transition.guarded_cons hstep).mpr ⟨met_of_running i hrunning hguard, hmet⟩, hw'⟩

end Runs

namespace Discipline

variable (d : Discipline κ Op Ans ε μ)

def stage (s : Threads σ κ Op Ans ε) (t : ℕ) : Option μ :=
  stageIn d.monitor d.start t s.history

-- What is of interest of the stages.
def view {α : Type} (f : μ → Option α) (s : Threads σ κ Op Ans ε) (t : ℕ) : Option α :=
  (d.stage s t).bind f

def Governs (sys : System σ κ ι Op Ans ε) : Prop :=
  ∀ call, (sys.program call).Meets d.monitor d.post (d.start call)

structure Follows (s : Threads σ κ Op Ans ε) : Prop where
  running : ∀ t p, s.running t = some p → ∃ m, d.stage s t = some m ∧ p.Meets d.monitor d.post m
  fresh : ∀ t, s.started ≤ t → s.running t = none ∧ d.stage s t = none
  ended : ∀ t result, (t, Event.ends result) ∈ s.history →
    s.running t = none ∧ ∃ m, d.stage s t = some m ∧ d.post m result

-- Everything that a step can do under the discipline.
inductive Moves (sys : System σ κ ι Op Ans ε) (s : Threads σ κ Op Ans ε) :
    Move κ ι → Threads σ κ Op Ans ε → Prop where
  | begins {call : κ} {shared : σ} (h : sys.begins s.shared s.started call = some shared) :
      Moves sys s (.begins call) (s.begun call (sys.program call) shared)
  | answers {t : ℕ} {i : ι} {op : Op} {next : Ans op → Program Op Ans ε Unit} {shared : σ}
      {answer : Ans op} {m : μ} (hstage : d.stage s t = some m) (hallows : d.monitor.allows m op)
      (hact : sys.act s.shared t op i = some (shared, some answer))
      (hrunning : s.running t = some (.call op next)) :
      Moves sys s (.acts t i) (s.record t (.answers op answer) (some (next answer)) shared)
  | waits {t : ℕ} {i : ι} {op : Op} {shared : σ} {m : μ} (hstage : d.stage s t = some m)
      (hallows : d.monitor.allows m op) (hact : sys.act s.shared t op i = some (shared, none))
      (hrunning : ∃ next, s.running t = some (.call op next)) :
      Moves sys s (.acts t i) { s with shared }
  | ends {t : ℕ} {result : Except ε Unit} {m : μ} (hstage : d.stage s t = some m)
      (hpost : d.post m result) :
      Moves sys s (.ends t) (s.record t (.ends result) none (sys.ends s.shared t))
  | hangsUp {t : ℕ} {m : μ} {shared : σ} (hstage : d.stage s t = some m)
      (h : sys.hangsUp s.shared t = some shared) (hrunning : (s.running t).isSome) :
      Moves sys s (.hangsUp t) (s.record t .hangsUp none shared)

variable {d}

section Stages

variable {s : Threads σ κ Op Ans ε} {t : ℕ} {event : Event κ Op Ans ε}
  {p : Option (Program Op Ans ε Unit)} {shared : σ}

theorem stage_record_of_ne {u : ℕ} (h : u ≠ t) :
    d.stage (s.record t event p shared) u = d.stage s u := if_neg h.symm

theorem stage_begun (call : κ) (p : Program Op Ans ε Unit) (shared : σ) :
    d.stage (s.begun call p shared) s.started = some (d.start call) := if_pos rfl

theorem stage_begun_of_ne {u : ℕ} (h : u ≠ s.started) (call : κ) (p : Program Op Ans ε Unit)
    (shared : σ) : d.stage (s.begun call p shared) u = d.stage s u := if_neg h.symm

theorem stage_answers {m : μ} (h : d.stage s t = some m) (op : Op) (answer : Ans op)
    (p : Option (Program Op Ans ε Unit)) (shared : σ) :
    d.stage (s.record t (.answers op answer) p shared) t = some (d.monitor.next m op answer) := by
  have hnext : d.stage (s.record t (.answers op answer) p shared) t =
      (d.stage s t).map fun m => d.monitor.next m op answer := if_pos rfl
  rw [hnext, h, Option.map_some]

theorem stages_begun (call : κ) (p : Program Op Ans ε Unit) (shared : σ) :
    d.stage (s.begun call p shared) =
      Function.update (d.stage s) s.started (some (d.start call)) := by
  funext u
  obtain rfl | hu := eq_or_ne u s.started
  · rw [Function.update_self, stage_begun]
  · rw [Function.update_of_ne hu, stage_begun_of_ne hu]

theorem stages_answers {m : μ} (h : d.stage s t = some m) (op : Op) (answer : Ans op)
    (p : Option (Program Op Ans ε Unit)) (shared : σ) :
    d.stage (s.record t (.answers op answer) p shared) =
      Function.update (d.stage s) t (some (d.monitor.next m op answer)) := by
  funext u
  obtain rfl | hu := eq_or_ne u t
  · rw [Function.update_self, stage_answers h]
  · rw [Function.update_of_ne hu, stage_record_of_ne hu]

theorem came_of_answers {m m' : μ} {op : Op} {answer : Ans op} (h : d.stage s t = some m) {u : ℕ}
    (hstage : d.stage (s.record t (.answers op answer) p shared) u = some m') :
    u = t ∧ m' = d.monitor.next m op answer ∨ u ≠ t ∧ d.stage s u = some m' := by
  by_cases hu : u = t
  · subst hu
    exact .inl ⟨rfl, Option.some.inj (hstage.symm.trans (stage_answers h ..))⟩
  · exact .inr ⟨hu, (stage_record_of_ne hu).symm.trans hstage⟩

theorem came_of_begun {m : μ} {call : κ} {q : Program Op Ans ε Unit} {u : ℕ}
    (hstage : d.stage (s.begun call q shared) u = some m) :
    u = s.started ∧ m = d.start call ∨ u ≠ s.started ∧ d.stage s u = some m := by
  by_cases hu : u = s.started
  · subst hu
    exact .inl ⟨rfl, Option.some.inj (hstage.symm.trans (stage_begun ..))⟩
  · exact .inr ⟨hu, (stage_begun_of_ne hu ..).symm.trans hstage⟩

theorem stage_ends (result : Except ε Unit) (u : ℕ) (p : Option (Program Op Ans ε Unit))
    (shared : σ) : d.stage (s.record t (.ends result) p shared) u = d.stage s u := by
  by_cases htu : t = u
  · exact if_pos htu
  · exact if_neg htu

theorem stage_hangsUp (u : ℕ) (p : Option (Program Op Ans ε Unit)) (shared : σ) :
    d.stage (s.record t .hangsUp p shared) u = d.stage s u := by
  by_cases htu : t = u
  · exact if_pos htu
  · exact if_neg htu

theorem running_record : (s.record t event p shared).running t = p := Function.update_self ..

theorem running_begun (call : κ) (p : Program Op Ans ε Unit) (shared : σ) :
    (s.begun call p shared).running s.started = some p := Function.update_self ..

theorem running_begun_of_ne {u : ℕ} (h : u ≠ s.started) (call : κ) (p : Program Op Ans ε Unit)
    (shared : σ) : (s.begun call p shared).running u = s.running u := Function.update_of_ne h ..

theorem running_record_of_ne {u : ℕ} (h : u ≠ t) :
    (s.record t event p shared).running u = s.running u := Function.update_of_ne h ..

end Stages

section Steps

variable {sys : System σ κ ι Op Ans ε} {s s' : Threads σ κ Op Ans ε} {i : Move κ ι}

theorem Follows.initial (shared : σ) : d.Follows (Threads.initial shared) :=
  ⟨fun _ _ h => (nomatch h), fun _ _ => ⟨rfl, rfl⟩, fun _ _ h => (nomatch h)⟩

theorem Follows.stage_lt (hs : d.Follows s) {t : ℕ} {m : μ} (h : d.stage s t = some m) :
    t < s.started := by
  by_contra hle
  rw [(hs.fresh t (Nat.le_of_not_lt hle)).2] at h
  cases h

theorem moves_of_step (hs : d.Follows s) (h : step sys s i = some s') : d.Moves sys s i s' := by
  cases i with
  | begins call =>
    obtain ⟨shared, hbegins, rfl⟩ := Option.map_eq_some_iff.mp h
    exact .begins hbegins
  | acts t i =>
    simp only [step] at h
    split at h
    case h_2 => cases h
    case h_1 op next hrunning =>
      obtain ⟨m, hstage, hallows, -⟩ := hs.running t _ hrunning
      obtain ⟨⟨shared, answer⟩, hact, rfl⟩ := Option.map_eq_some_iff.mp h
      cases answer with
      | some answer => exact .answers hstage hallows hact hrunning
      | none => exact .waits hstage hallows hact ⟨next, hrunning⟩
  | ends t =>
    simp only [step] at h
    split at h
    case h_1 hrunning =>
      obtain ⟨m, hstage, hpost⟩ := hs.running t _ hrunning
      obtain rfl := Option.some.inj h
      exact .ends hstage hpost
    case h_2 hrunning =>
      obtain ⟨m, hstage, hpost⟩ := hs.running t _ hrunning
      obtain rfl := Option.some.inj h
      exact .ends hstage hpost
    case h_3 => cases h
  | hangsUp t =>
    simp only [step] at h
    split at h
    case h_2 => cases h
    case h_1 p hrunning =>
      obtain ⟨m, hstage, -⟩ := hs.running t _ hrunning
      obtain ⟨shared, hhangs, rfl⟩ := Option.map_eq_some_iff.mp h
      exact .hangsUp hstage hhangs (hrunning ▸ rfl)

theorem view_answers {α : Type} {f : μ → Option α} {t : ℕ} {m : μ} (h : d.stage s t = some m)
    (op : Op) (answer : Ans op) (p : Option (Program Op Ans ε Unit)) (shared : σ) :
    d.view f (s.record t (.answers op answer) p shared) =
      Function.update (d.view f s) t (f (d.monitor.next m op answer)) := by
  funext u
  by_cases hu : u = t
  · subst hu
    rw [Function.update_self]
    exact congrArg (·.bind f) (stage_answers h op answer p shared)
  · rw [Function.update_of_ne hu]
    exact congrArg (·.bind f) (stage_record_of_ne hu)

theorem view_eq_of_answers {α : Type} {f : μ → Option α} {t : ℕ} {m : μ}
    (h : d.stage s t = some m) {op : Op} {answer : Ans op}
    (hnext : f (d.monitor.next m op answer) = f m) (p : Option (Program Op Ans ε Unit))
    (shared : σ) : d.view f (s.record t (.answers op answer) p shared) = d.view f s := by
  rw [view_answers h, hnext]
  exact Function.update_eq_self_iff.mpr (congrArg (·.bind f) h).symm

theorem view_begun {α : Type} {f : μ → Option α} (hs : d.Follows s) {call : κ}
    (hstart : f (d.start call) = none) (p : Program Op Ans ε Unit) (shared : σ) :
    d.view f (s.begun call p shared) = d.view f s := by
  funext u
  by_cases hu : u = s.started
  · subst hu
    have hfresh : d.stage s s.started = none := (hs.fresh s.started (Nat.le_refl _)).2
    rw [view, view, hfresh, stage_begun]
    exact hstart
  · exact congrArg (·.bind f) (stage_begun_of_ne hu call p shared)

theorem view_ends {α : Type} {f : μ → Option α} (t : ℕ) (result : Except ε Unit)
    (p : Option (Program Op Ans ε Unit)) (shared : σ) :
    d.view f (s.record t (.ends result) p shared) = d.view f s :=
  funext fun _ => congrArg (·.bind f) (stage_ends ..)

theorem view_hangsUp {α : Type} {f : μ → Option α} (t : ℕ)
    (p : Option (Program Op Ans ε Unit)) (shared : σ) :
    d.view f (s.record t .hangsUp p shared) = d.view f s :=
  funext fun _ => congrArg (·.bind f) (stage_hangsUp ..)

-- A thread that is gone says nothing about the others.
theorem Follows.remove (hs : d.Follows s) {t : ℕ} {event : Event κ Op Ans ε} {shared : σ}
    (hstage : ∀ u, d.stage (s.record t event none shared) u = d.stage s u)
    (hpost : ∀ result, event = .ends result → ∃ m, d.stage s t = some m ∧ d.post m result) :
    d.Follows (s.record t event none shared) := by
  refine ⟨fun u p hrunning => ?_, fun u hle => ?_, fun u result hmem => ?_⟩
  · rw [hstage]
    obtain rfl | hne := eq_or_ne u t
    · rw [running_record] at hrunning
      cases hrunning
    · rw [running_record_of_ne hne] at hrunning
      exact hs.running u p hrunning
  · rw [hstage]
    obtain ⟨hnone, hfresh⟩ := hs.fresh u hle
    refine ⟨?_, hfresh⟩
    obtain rfl | hne := eq_or_ne u t
    · exact running_record
    · rw [running_record_of_ne hne, hnone]
  · rw [hstage]
    obtain rfl | hne := eq_or_ne u t
    · refine ⟨running_record, ?_⟩
      obtain heq | hold := List.mem_cons.mp hmem
      · exact hpost result (Prod.mk.inj heq).2.symm
      · exact (hs.ended u result hold).2
    · rw [running_record_of_ne hne]
      obtain heq | hold := List.mem_cons.mp hmem
      · exact absurd (Prod.mk.inj heq).1 hne
      · exact hs.ended u result hold

theorem Follows.of_step (hgoverns : d.Governs sys) (hs : d.Follows s)
    (h : step sys s i = some s') : d.Follows s' := by
  cases moves_of_step hs h with
  | begins hbegins =>
    rename_i call shared
    refine ⟨fun u p hrunning => ?_, fun u hle => ?_, fun u result hmem => ?_⟩
    · obtain rfl | hne := eq_or_ne u s.started
      · rw [running_begun, Option.some.injEq] at hrunning
        exact ⟨_, stage_begun call _ shared, hrunning ▸ hgoverns call⟩
      · rw [running_begun_of_ne hne] at hrunning
        rw [stage_begun_of_ne hne]
        exact hs.running u p hrunning
    · have hle : s.started + 1 ≤ u := hle
      have hne : u ≠ s.started := by omega
      rw [running_begun_of_ne hne, stage_begun_of_ne hne]
      exact hs.fresh u (by omega)
    · have hold : (u, Event.ends result) ∈ s.history := by
        obtain heq | hold := List.mem_cons.mp hmem
        · cases (Prod.mk.inj heq).2
        · exact hold
      obtain ⟨hnone, m, hstage, hpost⟩ := hs.ended u result hold
      have hne : u ≠ s.started := Nat.ne_of_lt (hs.stage_lt hstage)
      rw [running_begun_of_ne hne, stage_begun_of_ne hne]
      exact ⟨hnone, m, hstage, hpost⟩
  | answers hstage hallows hact hrun =>
    rename_i t i op next shared answer m
    obtain ⟨m', hstage', -, hnext⟩ := hs.running t _ hrun
    obtain rfl : m = m' := Option.some.inj (hstage.symm.trans hstage')
    refine ⟨fun u p hrunning => ?_, fun u hle => ?_, fun u result hmem => ?_⟩
    · obtain rfl | hne := eq_or_ne u t
      · rw [running_record, Option.some.injEq] at hrunning
        exact ⟨_, stage_answers hstage op answer _ shared, hrunning ▸ hnext answer⟩
      · rw [running_record_of_ne hne] at hrunning
        rw [stage_record_of_ne hne]
        exact hs.running u p hrunning
    · have hne : u ≠ t := by
        have hlt := hs.stage_lt hstage
        have hle : s.started ≤ u := hle
        omega
      rw [running_record_of_ne hne, stage_record_of_ne hne]
      exact hs.fresh u hle
    · have hold : (u, Event.ends result) ∈ s.history := by
        obtain heq | hold := List.mem_cons.mp hmem
        · cases (Prod.mk.inj heq).2
        · exact hold
      obtain ⟨hnone, hended⟩ := hs.ended u result hold
      have hne : u ≠ t := by
        rintro rfl
        cases hrun.symm.trans hnone
      rw [running_record_of_ne hne, stage_record_of_ne hne]
      exact ⟨hnone, hended⟩
  | waits hstage hallows hact hrunning => exact ⟨hs.running, hs.fresh, hs.ended⟩
  | ends hstage hpost =>
    refine hs.remove (fun u => stage_ends ..) ?_
    rintro r ⟨⟩
    exact ⟨_, hstage, hpost⟩
  | hangsUp hstage hhangs hrunning => exact hs.remove (fun u => stage_hangsUp ..) (by rintro r ⟨⟩)

-- Where a stage comes from.
inductive Came (d : Discipline κ Op Ans ε μ) (sys : System σ κ ι Op Ans ε)
    (s : Threads σ κ Op Ans ε) (i : Move κ ι) (s' : Threads σ κ Op Ans ε) (t : ℕ) : μ → Prop where
  | began {call : κ} (hi : i = .begins call) (ht : t = s.started) : Came d sys s i s' t (d.start call)
  | stayed {m : μ} (h : d.stage s t = some m) : Came d sys s i s' t m
  | went {c : ι} {op : Op} {answer : Ans op} {m : μ} (hi : i = .acts t c)
      (h : d.stage s t = some m) (hallows : d.monitor.allows m op)
      (hact : sys.act s.shared t op c = some (s'.shared, some answer)) (hasks : s.asks t = some op)
      (hhistory : s'.history = (t, .answers op answer) :: s.history) :
      Came d sys s i s' t (d.monitor.next m op answer)

theorem came_of_moves (hm : d.Moves sys s i s') {t : ℕ} {m : μ} (h : d.stage s' t = some m) :
    Came d sys s i s' t m := by
  cases hm with
  | begins hbegins =>
    rename_i call shared
    by_cases ht : t = s.started
    · subst ht
      rw [stage_begun, Option.some.injEq] at h
      exact h ▸ .began rfl rfl
    · exact .stayed ((stage_begun_of_ne ht ..).symm.trans h)
  | answers hstage hallows hact hrunning =>
    rename_i u c op next shared answer m'
    by_cases ht : t = u
    · subst ht
      rw [stage_answers hstage, Option.some.injEq] at h
      exact h ▸ .went rfl hstage hallows hact (asks_of_running hrunning) rfl
    · exact .stayed ((stage_record_of_ne ht).symm.trans h)
  | waits hstage hallows hact hrunning => exact .stayed h
  | ends hstage hpost => exact .stayed ((stage_ends ..).symm.trans h)
  | hangsUp hstage hhangs hrunning => exact .stayed ((stage_hangsUp ..).symm.trans h)

theorem history_subset_of_moves (hm : d.Moves sys s i s') : s.history ⊆ s'.history := by
  cases hm with
  | waits hstage hallows hact hrunning => exact List.Subset.refl _
  | _ => exact List.subset_cons_self ..

theorem allows_of_asks (hs : d.Follows s) {t : ℕ} {op : Op} (h : s.asks t = some op) :
    ∃ m, d.stage s t = some m ∧ d.monitor.allows m op := by
  obtain ⟨next, hrunning⟩ := running_of_asks h
  obtain ⟨m, hstage, hmeets⟩ := hs.running t _ hrunning
  exact ⟨m, hstage, hmeets.1⟩

-- What the call of a thread determines of its stage.
theorem callIn_of_stage {P : κ → μ → Prop} (hstart : ∀ call, P call (d.start call))
    (hnext : ∀ call m op answer, P call m → P call (d.monitor.next m op answer)) {t : ℕ} {m : μ}
    (h : d.stage s t = some m) : ∃ call, callIn t s.history = some call ∧ P call m := by
  unfold stage at h
  generalize s.history = history at h ⊢
  induction history generalizing m with
  | nil => cases h
  | cons newest older ih =>
    obtain ⟨u, event⟩ := newest
    by_cases hu : u = t
    · subst hu
      cases event with
      | begins call =>
        have hm : d.start call = m := Option.some.inj ((if_pos rfl).symm.trans h)
        exact ⟨call, if_pos rfl, hm ▸ hstart call⟩
      | answers op answer =>
        obtain ⟨m', hm', rfl⟩ := Option.map_eq_some_iff.mp ((if_pos rfl).symm.trans h)
        obtain ⟨call, hcall, hm⟩ := ih hm'
        exact ⟨call, hcall, hnext call m' op answer hm⟩
      | ends result => exact ih ((if_pos rfl).symm.trans h)
      | hangsUp => exact ih ((if_pos rfl).symm.trans h)
    · obtain ⟨call, hcall, hm⟩ := ih ((if_neg hu).symm.trans h)
      refine ⟨call, ?_, hm⟩
      cases event with
      | begins call' => exact (if_neg hu).trans hcall
      | _ => exact hcall

theorem begun_of_stage {P : κ → μ → Prop} (hstart : ∀ call, P call (d.start call))
    (hnext : ∀ call m op answer, P call m → P call (d.monitor.next m op answer)) {t : ℕ} {m : μ}
    (h : d.stage s t = some m) : ∃ call, (t, .begins call) ∈ s.history ∧ P call m := by
  obtain ⟨call, hcall, hm⟩ := callIn_of_stage hstart hnext h
  exact ⟨call, mem_of_callIn hcall, hm⟩

-- Where a stage goes to.
theorem stage_of_moves (hs : d.Follows s) (hm : d.Moves sys s i s') {t : ℕ} {m : μ}
    (h : d.stage s t = some m) :
    d.stage s' t = some m ∨ ∃ op answer, d.monitor.allows m op ∧
      d.stage s' t = some (d.monitor.next m op answer) := by
  cases hm with
  | begins hbegins =>
    exact .inl ((stage_begun_of_ne (Nat.ne_of_lt (hs.stage_lt h)) ..).trans h)
  | answers hstage hallows hact hrunning =>
    rename_i u c op next shared answer m'
    by_cases ht : t = u
    · subst ht
      obtain rfl : m = m' := Option.some.inj (h.symm.trans hstage)
      exact .inr ⟨op, answer, hallows, stage_answers hstage ..⟩
    · exact .inl ((stage_record_of_ne ht).trans h)
  | waits hstage hallows hact hrunning => exact .inl h
  | ends hstage hpost => exact .inl ((stage_ends ..).trans h)
  | hangsUp hstage hhangs hrunning => exact .inl ((stage_hangsUp ..).trans h)

-- How a thread comes to be gone.
theorem running_none_of_moves (hm : d.Moves sys s i s') {t : ℕ} (h : s'.running t = none) :
    s.running t = none ∨
      (∃ result m, i = .ends t ∧ d.stage s t = some m ∧ d.post m result) ∨ i = .hangsUp t := by
  cases hm with
  | begins hbegins =>
    by_cases ht : t = s.started
    · subst ht
      cases running_begun .. ▸ h
    · exact .inl ((running_begun_of_ne ht ..).symm.trans h)
  | answers hstage hallows hact hrunning =>
    rename_i u c op next shared answer m
    by_cases ht : t = u
    · subst ht
      cases running_record ▸ h
    · exact .inl ((running_record_of_ne ht).symm.trans h)
  | waits hstage hallows hact hrunning => exact .inl h
  | ends hstage hpost =>
    rename_i u result m
    by_cases ht : t = u
    · subst ht
      exact .inr (.inl ⟨result, m, rfl, hstage, hpost⟩)
    · exact .inl ((running_record_of_ne ht).symm.trans h)
  | hangsUp hstage hhangs hrunning =>
    rename_i u m shared
    by_cases ht : t = u
    · exact .inr (.inr (ht ▸ rfl))
    · exact .inl ((running_record_of_ne ht).symm.trans h)

-- What the past of a thread tells of its stage.
def Recalls (d : Discipline κ Op Ans ε μ) (tells : Event κ Op Ans ε → μ → Prop)
    (s : Threads σ κ Op Ans ε) : Prop :=
  ∀ t event, (t, event) ∈ s.history → ∃ m, d.stage s t = some m ∧ tells event m

-- It is told when the event happens, and then for good.
structure Lasts (d : Discipline κ Op Ans ε μ) (tells : Event κ Op Ans ε → μ → Prop) : Prop where
  begins : ∀ call, tells (.begins call) (d.start call)
  answers : ∀ m op answer, d.monitor.allows m op →
    tells (.answers op answer) (d.monitor.next m op answer)
  ends : ∀ m result, d.post m result → tells (.ends result) m
  hangsUp : ∀ m, tells .hangsUp m
  goes : ∀ event m op answer, d.monitor.allows m op → tells event m →
    tells event (d.monitor.next m op answer)

theorem Recalls.of_moves {tells : Event κ Op Ans ε → μ → Prop} (hl : Lasts d tells)
    (hs : d.Follows s) (h : Recalls d tells s) (hm : d.Moves sys s i s') : Recalls d tells s' := by
  intro u event hmem
  have hold (hmem : (u, event) ∈ s.history) : ∃ m, d.stage s' u = some m ∧ tells event m := by
    obtain ⟨m, hstage, hsays⟩ := h u event hmem
    obtain hsame | ⟨op, answer, hallows, hnext⟩ := stage_of_moves hs hm hstage
    · exact ⟨m, hsame, hsays⟩
    · exact ⟨_, hnext, hl.goes event m op answer hallows hsays⟩
  cases hm with
  | begins hbegins =>
    obtain heq | hmem := List.mem_cons.mp hmem
    · obtain ⟨rfl, rfl⟩ := Prod.mk.inj heq
      exact ⟨_, stage_begun .., hl.begins _⟩
    · exact hold hmem
  | answers hstage hallows hact hrunning =>
    obtain heq | hmem := List.mem_cons.mp hmem
    · obtain ⟨rfl, rfl⟩ := Prod.mk.inj heq
      exact ⟨_, stage_answers hstage .., hl.answers _ _ _ hallows⟩
    · exact hold hmem
  | waits hstage hallows hact hrunning => exact hold hmem
  | ends hstage hpost =>
    obtain heq | hmem := List.mem_cons.mp hmem
    · obtain ⟨rfl, rfl⟩ := Prod.mk.inj heq
      exact ⟨_, (stage_ends ..).trans hstage, hl.ends _ _ hpost⟩
    · exact hold hmem
  | hangsUp hstage hhangs hrunning =>
    obtain heq | hmem := List.mem_cons.mp hmem
    · obtain ⟨rfl, rfl⟩ := Prod.mk.inj heq
      exact ⟨_, (stage_hangsUp ..).trans hstage, hl.hangsUp _⟩
    · exact hold hmem

end Steps

section Traces

variable {allows : κ → Trace Op Ans → Op → Prop} {post : κ → Trace Op Ans → Except ε Unit → Prop}
  {sys : System σ κ ι Op Ans ε} {s s' : Threads σ κ Op Ans ε} {i : Move κ ι}

-- A discipline in terms of the call and everything since.
def ofTraces (allows : κ → Trace Op Ans → Op → Prop)
    (post : κ → Trace Op Ans → Except ε Unit → Prop) : Discipline κ Op Ans ε (κ × Trace Op Ans) :=
  ⟨tracing allows, (·, []), fun m => post m.1 m.2⟩

theorem stage_ofTraces (s : Threads σ κ Op Ans ε) (t : ℕ) :
    (ofTraces allows post).stage s t =
      (callIn t s.history).map fun call => (call, traceIn t s.history) :=
  stageIn_tracing ..

-- Every operation was allowed when it was asked for.
inductive Kept (allows : Trace Op Ans → Op → Prop) : Trace Op Ans → Prop where
  | nil : Kept allows []
  | snoc {trace : Trace Op Ans} {op : Op} (h : Kept allows trace) (hallows : allows trace op)
      (answer : Ans op) : Kept allows (trace ++ [⟨op, answer⟩])

def KeepsTraces (allows : κ → Trace Op Ans → Op → Prop) (s : Threads σ κ Op Ans ε) : Prop :=
  ∀ t call, callIn t s.history = some call → Kept (allows call) (traceIn t s.history)

theorem KeepsTraces.of_moves (h : KeepsTraces allows s)
    (hm : (ofTraces allows post).Moves sys s i s') : KeepsTraces allows s' := by
  intro t call hcall
  have hstage : (ofTraces allows post).stage s' t = some (call, traceIn t s'.history) := by
    rw [stage_ofTraces, hcall, Option.map_some]
  generalize traceIn t s'.history = trace at hstage
  generalize hm' : (call, trace) = m at hstage
  cases came_of_moves hm hstage with
  | began hi ht =>
    obtain ⟨rfl, rfl⟩ := Prod.mk.inj hm'
    exact .nil
  | stayed hold =>
    subst hm'
    rw [stage_ofTraces] at hold
    obtain ⟨call', hcall', heq⟩ := Option.map_eq_some_iff.mp hold
    obtain ⟨rfl, rfl⟩ := Prod.mk.inj heq
    exact h t _ hcall'
  | went hi hold hallows hact hasks hhistory =>
    rename_i c op answer m
    rw [stage_ofTraces] at hold
    obtain ⟨call', hcall', rfl⟩ := Option.map_eq_some_iff.mp hold
    obtain ⟨rfl, rfl⟩ := Prod.mk.inj hm'
    exact .snoc (h t _ hcall') hallows answer

-- What has come of a call when its thread has come to an end.
theorem Follows.post_of_ended (hs : (ofTraces allows post).Follows s) {t : ℕ} {call : κ}
    {result : Except ε Unit} (hended : (t, Event.ends result) ∈ s.history)
    (hcall : callIn t s.history = some call) : post call (traceIn t s.history) result := by
  obtain ⟨-, m, hstage, hpost⟩ := hs.ended t result hended
  rw [stage_ofTraces, hcall, Option.map_some, Option.some.injEq] at hstage
  rw [← hstage] at hpost
  exact hpost

end Traces

end Discipline

end Threads

end Glider.Lib
