import Glider.CallbackQuery.Dispatch
import Glider.Lib.History

namespace Glider.CallbackQuery

open Glider.Lib Glider.Lib.Threads

abbrev Happening := ℕ × Event Call Op Op.Answer Unit

-- What has been found out about the owner of the listener that a query is at.
inductive Verdict where
  | accepting
  | stopped
  | absent
  deriving DecidableEq

def verdictIn : Event Call Op Op.Answer Unit → Option (Option Verdict)
  | .answers (.acceptingExecutions _) accepts => some (some (if accepts then .accepting else .stopped))
  | .answers (.kModuleLoader _) false => some (some .absent)
  | .answers (.find _) none => some (some .absent)
  | .answers (.continue_ _) _ | .answers (.emplaceTask _) _ | .answers .listeners _ => some none
  | _ => none

def resolvedIn : Event Call Op Op.Answer Unit → Option Entry
  | .answers (.continue_ entry) _ => some entry
  | .answers (.emplaceTask invocation) _ => some (invocation.owner, invocation.callback)
  | _ => none

def listenersIn : Event Call Op Op.Answer Unit → Option (List Entry)
  | .answers .listeners entries => some entries
  | _ => none

def queryIn : Event Call Op Op.Answer Unit → Option ℕ
  | .begins (.callbackQuery query) => some query
  | _ => none

def handedIn : Event Call Op Op.Answer Unit → Option CallbackInvocation
  | .answers (.emplaceTask invocation) true => some invocation
  | _ => none

def takenIn : Event Call Op Op.Answer Unit → Option CallbackInvocation
  | .answers .takeFront invocation => some invocation
  | _ => none

def calledIn : Event Call Op Op.Answer Unit → Option CallbackInvocation
  | .answers (.callback invocation) _ => some invocation
  | _ => none

-- What the events of one thread tell.
def ofThread {α : Type} (t : ℕ) (f : Event Call Op Op.Answer Unit → Option α) (e : Happening) :
    Option α := if e.1 = t then f e.2 else none

def lastOf {α : Type} (f : Event Call Op Op.Answer Unit → Option α) (history : History) (t : ℕ) :
    Option α := history.findSome? (ofThread t f)

def allOf {α : Type} (f : Event Call Op Op.Answer Unit → Option α) (history : History) (t : ℕ) :
    List α := collected (ofThread t f) history

def verdict (history : History) (t : ℕ) : Option Verdict := (lastOf verdictIn history t).join

-- The listeners that were registered when a query came to be handed out.
def snapshot (history : History) (t : ℕ) : List Entry := (lastOf listenersIn history t).getD []

-- A listener is passed over only when its module was found stopped, or is no module that is known;
-- the bot's own components are none. It is handed the query only when its module accepts executions.
-- At the end every listener has had its turn once, and a worker has called what it has taken.
def Good (builtin : String → Bool) (e : Happening) (older : History) : Prop :=
  match e.2 with
  | .answers (.emplaceTask invocation) accepted =>
    accepted = true ∧ verdict older e.1 = some .accepting ∧
      lastOf queryIn older e.1 = some invocation.query
  | .answers (.continue_ entry) _ =>
    verdict older e.1 = some .stopped ∨
      verdict older e.1 = some .absent ∧ builtin entry.1 = false
  | .answers (.callback invocation) _ =>
    allOf takenIn older e.1 = [invocation] ∧ allOf calledIn older e.1 = []
  | .ends _ =>
    allOf resolvedIn older e.1 = snapshot older e.1 ∧
      allOf calledIn older e.1 = allOf takenIn older e.1
  | _ => True

instance (builtin : String → Bool) (e : Happening) (older : History) :
    Decidable (Good builtin e older) := by
  unfold Good
  split <;> infer_instance

-- What is handed out is taken once, in the order in which it has been handed out.
structure Reaches (builtin : String → Bool) (w : World) : Prop where
  good : Explained (Good builtin) w.history
  queued : collected (fun e : Happening => handedIn e.2) w.history =
    collected (fun e : Happening => takenIn e.2) w.history ++
      w.shared.queryAsync.tasks.map Prod.snd

inductive Stage where
  | dispatching (query : ℕ)
  | looping (query : ℕ) (rest : List Entry) (verdict : Option Verdict)
  | working
  | taken (invocation : CallbackInvocation)
  | called
  | other

def next : Stage → (op : Op) → op.Answer → Stage
  | .dispatching query, .listeners, entries => .looping query entries none
  | .looping query rest _, .acceptingExecutions _, accepts =>
    .looping query rest (some (if accepts then .accepting else .stopped))
  | .looping query rest _, .kModuleLoader _, false => .looping query rest (some .absent)
  | .looping query rest _, .find _, none => .looping query rest (some .absent)
  | .looping query rest _, .continue_ _, _ => .looping query rest.tail none
  | .looping query rest _, .emplaceTask _, _ => .looping query rest.tail none
  | .working, .takeFront, invocation => .taken invocation
  | .taken _, .callback _, _ => .called
  | m, _, _ => m

-- What is left to the queries and to the workers.
def Allows (m : Stage) : Op → Prop
  | .listeners => ∃ query, m = .dispatching query
  | .kModuleLoader owner => ∃ query listener rest, m = .looping query ((owner, listener) :: rest) none
  | .find name => m = .other ∨
      ∃ query listener rest, m = .looping query ((name, listener) :: rest) none
  | .acceptingExecutions _ => ∃ query rest verdict, m = .looping query rest verdict
  | .continue_ entry => ∃ query rest, m = .looping query (entry :: rest) (some .stopped) ∨
      m = .looping query (entry :: rest) (some .absent)
  | .emplaceTask invocation => ∃ rest, m =
      .looping invocation.query ((invocation.owner, invocation.callback) :: rest) (some .accepting)
  | .takeFront => m = .working
  | .callback invocation => m = .taken invocation
  | _ => True

def Ends (m : Stage) (_ : Except Unit Unit) : Prop :=
  (∃ query verdict, m = .looping query [] verdict) ∨ m = .called ∨ m = .other

def Stage.start : Call → Stage
  | .callbackQuery query => .dispatching query
  | .work => .working
  | _ => .other

def discipline : Discipline Call Op Op.Answer Unit Stage where
  monitor := ⟨Allows, next⟩
  start := .start
  post := Ends

section Conduct

abbrev Meets {α : Type} (post : Stage → Except Unit α → Prop) (p : Routine α) (m : Stage) : Prop :=
  p.Meets discipline.monitor post m

open Routine

-- What a lease comes to for the query that asks for it.
def Leased (query : ℕ) (entry : Entry) (rest : List Entry) (granted : Bool) (m : Stage) : Prop :=
  if granted then m = .looping query (entry :: rest) (some .accepting)
  else m = .looping query (entry :: rest) (some .stopped) ∨
    m = .looping query (entry :: rest) (some .absent)

theorem meets_acquireLease (query : ℕ) (entry : Entry) (rest : List Entry) (module : ℕ) :
    Meets (fun m r => ∃ granted, r = .ok granted ∧ Leased query entry rest granted m)
      (acquireLease module) (.looping query (entry :: rest) none) := by
  refine ⟨⟨query, _, _, rfl⟩, fun accepts => ?_⟩
  cases accepts with
  | false => exact ⟨false, rfl, .inl rfl⟩
  | true =>
    refine ⟨trivial, fun _ => ⟨⟨query, _, _, rfl⟩, fun accepts => ?_⟩⟩
    cases accepts with
    | false => exact ⟨trivial, fun _ => ⟨false, rfl, .inl rfl⟩⟩
    | true => exact ⟨true, rfl, rfl⟩

theorem meets_acquireExecutionLease (query : ℕ) (entry : Entry) (rest : List Entry) :
    Meets (fun m r => ∃ module : Option ℕ, r = .ok module ∧
        Leased query entry rest module.isSome m)
      (acquireExecutionLease entry.1) (.looping query (entry :: rest) none) := by
  refine ⟨trivial, fun _ => ⟨.inr ⟨query, entry.2, rest, rfl⟩, fun found => ?_⟩⟩
  cases found with
  | none => exact ⟨trivial, fun _ => ⟨none, rfl, .inr rfl⟩⟩
  | some module =>
    refine (Program.meets_bind (p := acquireLease module)).mpr
      ((meets_acquireLease query entry rest module).mono ?_)
    rintro m r ⟨granted, rfl, hleased⟩
    refine ⟨trivial, fun _ => ?_⟩
    cases granted with
    | false => obtain rfl | rfl := hleased <;> exact ⟨none, rfl, by simp [Leased, discipline, next]⟩
    | true =>
      obtain rfl : m = _ := hleased
      exact ⟨some module, rfl, rfl⟩

theorem meets_dispatch (query : ℕ) (entry : Entry) (rest : List Entry) :
    Meets (fun m r => r = .ok () ∧ m = .looping query rest none) (dispatch query entry)
      (.looping query (entry :: rest) none) := by
  refine ⟨⟨query, entry.2, rest, rfl⟩, fun present => ?_⟩
  cases present with
  | false => exact ⟨⟨query, rest, .inr rfl⟩, fun _ => ⟨rfl, rfl⟩⟩
  | true =>
    refine (Program.meets_bind (p := acquireExecutionLease entry.1)).mpr
      ((meets_acquireExecutionLease query entry rest).mono ?_)
    rintro m r ⟨module, rfl, hleased⟩
    cases module with
    | none => exact ⟨⟨query, rest, hleased⟩, fun _ => by
        obtain rfl | rfl := hleased <;> exact ⟨rfl, rfl⟩⟩
    | some module =>
      obtain rfl : m = _ := hleased
      refine ⟨⟨rest, rfl⟩, fun accepted => ?_⟩
      cases accepted with
      | false => exact ⟨trivial, fun _ => ⟨rfl, rfl⟩⟩
      | true => exact ⟨rfl, rfl⟩

theorem meets_loop (query : ℕ) (entries : List Entry) :
    Meets (fun m r => r = .ok () ∧ m = .looping query [] none) (entries.forM (dispatch query))
      (.looping query entries none) := by
  induction entries with
  | nil => exact ⟨rfl, rfl⟩
  | cons entry rest ih =>
    refine Program.meets_bind.mpr ((meets_dispatch query entry rest).mono ?_)
    rintro m r ⟨rfl, rfl⟩
    exact ih

theorem meets_onCallbackQueryFunction (query : ℕ) :
    Meets Ends (onCallbackQueryFunction query) (.dispatching query) := by
  refine ⟨trivial, fun _ => ⟨⟨query, rfl⟩, fun entries => ?_⟩⟩
  refine (Program.meets_bind (p := entries.forM (dispatch query))).mpr
    ((meets_loop query entries).mono ?_)
  rintro m r ⟨rfl, rfl⟩
  exact ⟨trivial, fun _ => .inl ⟨query, none, rfl⟩⟩

theorem meets_work : Meets Ends work .working :=
  ⟨rfl, fun _ => ⟨rfl, fun _ => ⟨trivial, fun _ => ⟨trivial, fun _ => .inr (.inl rfl)⟩⟩⟩⟩

-- What has nothing to do with the queries.
abbrev Plain {α : Type} (p : Routine α) : Prop := p.Keeps discipline.monitor .other

theorem plain_perform {op : Op} (h : Allows .other op) :
    Plain (Program.perform op : Routine (Op.Answer op)) := ⟨h, fun _ => rfl⟩

theorem plain_then {α : Type} {op : Op} {f : op.Answer → Routine α} (h : Allows .other op)
    (hf : ∀ a, Plain (f a)) : Plain (Program.perform op >>= f) := (plain_perform h).bind hf

theorem plain_onUnload (name : String) : Plain (onUnload name) :=
  plain_then trivial fun _ => plain_then trivial fun _ => plain_perform trivial

theorem plain_loadHandle (name : String) : Plain (loadHandle name) := by
  refine plain_then (.inl rfl) fun found => ?_
  cases found with
  | none => exact .pure false
  | some module => exact plain_then trivial fun loaded => .ite (.pure true) (plain_perform trivial)

theorem plain_loadName (name : String) : Plain (loadName name) :=
  plain_then trivial fun _ => (plain_loadHandle name).bind fun loaded =>
    plain_then trivial fun _ => .pure loaded

theorem plain_register (module : ℕ) (image : Option String) : Plain (register module image) := by
  unfold register
  split
  · exact .pure none
  · exact .pure none
  · exact plain_then (.inl rfl) fun found => .ite (.pure none) (plain_then trivial fun _ => .pure _)

theorem plain_load : Plain load := by
  refine plain_then trivial fun _ => plain_then trivial fun created =>
    (plain_register created.1 created.2).bind fun registered => plain_then trivial fun _ => ?_
  cases registered with
  | none => exact .pure ()
  | some name => exact (plain_loadName name).bind fun _ => .pure ()

theorem plain_executionBarrier (module : ℕ) : Plain (executionBarrier module) :=
  plain_then trivial fun _ => plain_then trivial fun _ => plain_perform trivial

theorem plain_unloadImage (module : ℕ) : Plain (unloadImage module) :=
  plain_then trivial fun _ => plain_then trivial fun _ => plain_then trivial fun closed =>
    plain_then trivial fun _ => .pure closed

theorem plain_unloadIfLoaded (module : ℕ) : Plain (unloadIfLoaded module) :=
  plain_then trivial fun _ => .ite ((plain_unloadImage module).bind fun _ => .pure ()) (.pure ())

theorem plain_unloadDirect (name : String) : Plain (unloadDirect name) := by
  refine plain_then trivial fun _ => plain_then (.inl rfl) fun found => ?_
  cases found with
  | none => exact plain_perform trivial
  | some module =>
    exact plain_then trivial fun _ => plain_then trivial fun _ =>
      (plain_executionBarrier module).bind fun _ => (plain_onUnload name).bind fun _ =>
        plain_unloadIfLoaded module

theorem plain_enable (name : String) : Plain (enable name) := by
  refine plain_then trivial fun _ => plain_then (.inl rfl) fun found => ?_
  cases found with
  | none => exact plain_perform trivial
  | some module => exact plain_then trivial fun _ => plain_perform trivial

theorem plain_restore (name : String) (current candidate : ℕ) :
    Plain (restore name current candidate) :=
  plain_then trivial fun _ => plain_then trivial fun _ =>
    plain_then trivial fun _ => (plain_executionBarrier current).bind fun _ =>
      (plain_enable name).bind fun _ => (plain_unloadIfLoaded candidate).bind fun _ =>
        (plain_loadName name).bind fun _ => .pure ()

theorem plain_handOver (name : String) (current candidate : ℕ) :
    Plain (handOver name current candidate) :=
  plain_then trivial fun _ => plain_then trivial fun _ =>
    plain_then trivial fun _ => plain_then trivial fun _ =>
      plain_then trivial fun _ => (plain_loadName name).bind fun _ => .ite
        ((plain_executionBarrier current).bind fun _ => (plain_onUnload name).bind fun _ =>
          (plain_unloadIfLoaded current).bind fun _ => plain_enable name)
        (plain_restore name current candidate)

theorem plain_reloadDirect (name : String) : Plain (reloadDirect name) := by
  refine plain_then trivial fun _ => plain_then (.inl rfl) fun found => ?_
  cases found with
  | none => exact plain_perform trivial
  | some current =>
    refine plain_then trivial fun _ => .ite ?_ (plain_perform trivial)
    exact plain_then trivial fun created => plain_then trivial fun _ =>
      .ite (plain_handOver name current created.1) (.pure ())

theorem governs : discipline.Governs system := by
  intro call
  have hplain {p : Routine Unit} (hp : Plain p) : Meets Ends p .other :=
    hp.mono fun m r hm => .inr (.inr hm)
  cases call with
  | callbackQuery query => exact meets_onCallbackQueryFunction query
  | work => exact meets_work
  | onCallbackQuery owner listener =>
    exact hplain (plain_then trivial fun _ => plain_then trivial fun _ =>
      (plain_perform trivial))
  | load => exact hplain plain_load
  | unload name => exact hplain (plain_unloadDirect name)
  | reload name => exact hplain (plain_reloadDirect name)
  | assignLoader present => exact hplain (plain_perform trivial)

end Conduct

-- What the history tells of a thread.
structure Log where
  query : Option ℕ
  verdict : Option Verdict
  resolved : List Entry
  snapshot : List Entry
  taken : List CallbackInvocation
  called : List CallbackInvocation

def log (history : History) (t : ℕ) : Log where
  query := lastOf queryIn history t
  verdict := verdict history t
  resolved := allOf resolvedIn history t
  snapshot := snapshot history t
  taken := allOf takenIn history t
  called := allOf calledIn history t

def Log.add (l : Log) (e : Event Call Op Op.Answer Unit) : Log where
  query := (queryIn e).or l.query
  verdict := (verdictIn e).getD l.verdict
  resolved := l.resolved ++ (resolvedIn e).toList
  snapshot := (listenersIn e).getD l.snapshot
  taken := l.taken ++ (takenIn e).toList
  called := l.called ++ (calledIn e).toList

def Agrees (l : Log) : Option Stage → Prop
  | some (.dispatching query) => l.query = some query ∧ l.resolved = [] ∧ l.taken = l.called
  | some (.looping query rest verdict) =>
    l.query = some query ∧ l.verdict = verdict ∧ l.resolved ++ rest = l.snapshot ∧
      l.taken = l.called
  | some (.taken invocation) =>
    l.resolved = [] ∧ l.snapshot = [] ∧ l.taken = [invocation] ∧ l.called = []
  | some .called => l.resolved = [] ∧ l.snapshot = [] ∧ l.taken = l.called
  | _ => l.resolved = [] ∧ l.snapshot = [] ∧ l.taken = [] ∧ l.called = []

section Logs

variable {history : History} {t u : ℕ} {e : Event Call Op Op.Answer Unit}

theorem lastOf_cons_self {α : Type} (f : Event Call Op Op.Answer Unit → Option α) :
    lastOf f ((t, e) :: history) t = (f e).or (lastOf f history t) := by
  have hself : ofThread t f (t, e) = f e := if_pos rfl
  rw [lastOf, List.findSome?_cons, hself]
  cases f e <;> rfl

theorem allOf_cons_self {α : Type} (f : Event Call Op Op.Answer Unit → Option α) :
    allOf f ((t, e) :: history) t = allOf f history t ++ (f e).toList := by
  have hself : ofThread t f (t, e) = f e := if_pos rfl
  rw [allOf, collected, hself]
  rfl

theorem log_cons_self : log ((t, e) :: history) t = (log history t).add e := by
  have hverdict : verdict ((t, e) :: history) t = (verdictIn e).getD (verdict history t) := by
    rw [verdict, lastOf_cons_self]
    cases verdictIn e <;> rfl
  have hsnapshot : snapshot ((t, e) :: history) t = (listenersIn e).getD (snapshot history t) := by
    rw [snapshot, lastOf_cons_self]
    cases listenersIn e <;> rfl
  rw [log, lastOf_cons_self, hverdict, hsnapshot, allOf_cons_self, allOf_cons_self,
    allOf_cons_self]
  rfl

theorem log_cons_of_ne (h : u ≠ t) : log ((t, e) :: history) u = log history u := by
  have hother {α : Type} (f : Event Call Op Op.Answer Unit → Option α) :
      ofThread u f (t, e) = none := if_neg fun heq => h heq.symm
  have hlast {α : Type} (f : Event Call Op Op.Answer Unit → Option α) :
      lastOf f ((t, e) :: history) u = lastOf f history u := by
    rw [lastOf, List.findSome?_cons, hother]
    rfl
  have hall {α : Type} (f : Event Call Op Op.Answer Unit → Option α) :
      allOf f ((t, e) :: history) u = allOf f history u := collected_cons_of_none (hother f) history
  rw [log, hlast, verdict, hlast, snapshot, hlast, hall, hall, hall]
  rfl

-- An event that tells nothing.
theorem add_quiet {l : Log} (hquery : queryIn e = none) (hverdict : verdictIn e = none)
    (hresolved : resolvedIn e = none) (hlisteners : listenersIn e = none) (htaken : takenIn e = none)
    (hcalled : calledIn e = none) : l.add e = l := by
  rw [Log.add, hquery, hverdict, hresolved, hlisteners, htaken, hcalled]
  simp

end Logs

theorem agrees_next {l : Log} {m : Stage} {op : Op} {a : op.Answer} (hallows : Allows m op)
    (h : Agrees l (some m)) : Agrees (l.add (.answers op a)) (some (next m op a)) := by
  have hquiet (hadd : l.add (.answers op a) = l) (hnext : next m op a = m) :
      Agrees (l.add (.answers op a)) (some (next m op a)) := by
    rw [hadd, hnext]
    exact h
  cases op with
  | listeners =>
    obtain ⟨query, rfl⟩ := hallows
    obtain ⟨hquery, hresolved, htaken⟩ := h
    exact ⟨hquery, rfl, by simp [Log.add, hresolved, resolvedIn, listenersIn],
      by simpa [Log.add, takenIn, calledIn] using htaken⟩
  | kModuleLoader owner =>
    obtain ⟨query, listener, rest, rfl⟩ := hallows
    cases a with
    | true => exact hquiet (add_quiet rfl rfl rfl rfl rfl rfl) rfl
    | false =>
      obtain ⟨hquery, -, hresolved, htaken⟩ := h
      exact ⟨hquery, rfl, by simpa [Log.add, resolvedIn, listenersIn] using hresolved,
        by simpa [Log.add, takenIn, calledIn] using htaken⟩
  | find name =>
    obtain rfl | ⟨query, listener, rest, rfl⟩ := hallows
    · obtain ⟨hresolved, hsnapshot, htaken, hcalled⟩ := h
      refine ⟨by simpa [Log.add, resolvedIn] using hresolved, ?_,
        by simpa [Log.add, takenIn] using htaken, by simpa [Log.add, calledIn] using hcalled⟩
      exact hsnapshot
    · cases a with
      | some module => exact hquiet (add_quiet rfl rfl rfl rfl rfl rfl) rfl
      | none =>
        obtain ⟨hquery, -, hresolved, htaken⟩ := h
        exact ⟨hquery, rfl, by simpa [Log.add, resolvedIn, listenersIn] using hresolved,
          by simpa [Log.add, takenIn, calledIn] using htaken⟩
  | acceptingExecutions module =>
    obtain ⟨query, rest, verdict, rfl⟩ := hallows
    obtain ⟨hquery, -, hresolved, htaken⟩ := h
    exact ⟨hquery, rfl, by simpa [Log.add, resolvedIn, listenersIn] using hresolved,
      by simpa [Log.add, takenIn, calledIn] using htaken⟩
  | continue_ entry =>
    obtain ⟨query, rest, rfl | rfl⟩ := hallows <;>
    · obtain ⟨hquery, -, hresolved, htaken⟩ := h
      exact ⟨hquery, rfl, by simpa [Log.add, resolvedIn, listenersIn] using hresolved,
        by simpa [Log.add, takenIn, calledIn] using htaken⟩
  | emplaceTask invocation =>
    obtain ⟨rest, rfl⟩ := hallows
    obtain ⟨hquery, -, hresolved, htaken⟩ := h
    exact ⟨hquery, rfl, by simpa [Log.add, resolvedIn, listenersIn] using hresolved,
      by simpa [Log.add, takenIn, calledIn] using htaken⟩
  | takeFront =>
    obtain rfl : m = _ := hallows
    obtain ⟨hresolved, hsnapshot, htaken, hcalled⟩ := h
    exact ⟨by simpa [Log.add, resolvedIn] using hresolved, hsnapshot,
      by simp [Log.add, takenIn, htaken], by simpa [Log.add, calledIn] using hcalled⟩
  | callback invocation =>
    obtain rfl : m = _ := hallows
    obtain ⟨hresolved, hsnapshot, htaken, hcalled⟩ := h
    exact ⟨by simpa [Log.add, resolvedIn] using hresolved, hsnapshot,
      by simp [Log.add, takenIn, calledIn, htaken, hcalled]⟩
  | _ => exact hquiet (add_quiet rfl rfl rfl rfl rfl rfl) (by cases m <;> rfl)

-- The queue has room, and a component of the bot is not looked for where it cannot be found.
def FoundBy (builtin : String → Bool) (w : World) (t : ℕ) : Op → Prop
  | .emplaceTask invocation => w.shared.queryAsync.refuses invocation.owner = false
  | .kModuleLoader owner => builtin owner = true → w.shared.loader = true
  | .find owner => (lastOf queryIn w.history t).isSome = true → builtin owner = true →
      (w.shared.handles owner).isSome = true
  | _ => True

instance (builtin : String → Bool) (w : World) (t : ℕ) : ∀ op, Decidable (FoundBy builtin w t op) := by
  intro op
  cases op <;> unfold FoundBy <;> infer_instance

def Served (builtin : String → Bool) (w : World) : Step → Prop
  | .acts t _ => ∀ op ∈ w.asks t, FoundBy builtin w t op
  | _ => True

instance (builtin : String → Bool) : ∀ w i, Decidable (Served builtin w i)
  | w, .acts t _ => inferInstanceAs (Decidable (∀ op ∈ w.asks t, FoundBy builtin w t op))
  | _, .begins _ | _, .ends _ | _, .hangsUp _ => .isTrue trivial

abbrev stageOf (w : World) (t : ℕ) : Option Stage := discipline.stage w t

abbrev Moves (w : World) (i : Step) (w' : World) : Prop := discipline.Moves system w i w'

structure Kept (builtin : String → Bool) (w : World) : Prop where
  agrees : ∀ t, Agrees (log w.history t) (stageOf w t)
  absent : ∀ t query entry rest,
    stageOf w t = some (.looping query (entry :: rest) (some .absent)) → builtin entry.1 = false
  reaches : Reaches builtin w

section Steps

variable {builtin : String → Bool} {w w' : World} {i : Step}

theorem queued_of_act {s s' : State} {t : ℕ} {op : Op} {c : Choice} {a : op.Answer}
    (h : act s t op c = some (s', some a)) :
    s.queryAsync.tasks.map Prod.snd ++ (handedIn (.answers op a)).toList =
      (takenIn (.answers op a)).toList ++ s'.queryAsync.tasks.map Prod.snd := by
  -- Most operations have nothing to do with the queue.
  have hquiet (hhanded : handedIn (.answers op a) = none) (htaken : takenIn (.answers op a) = none)
      (hsame : s'.queryAsync.tasks = s.queryAsync.tasks) :
      s.queryAsync.tasks.map Prod.snd ++ (handedIn (.answers op a)).toList =
        (takenIn (.answers op a)).toList ++ s'.queryAsync.tasks.map Prod.snd := by
    rw [hhanded, htaken, hsame]
    exact List.append_nil _
  cases op with
  | emplaceTask invocation =>
    have h : some ({ s with
        queryAsync := (s.queryAsync.emplaceTask invocation.owner invocation).2 },
      some (s.queryAsync.emplaceTask invocation.owner invocation).1) = some (s', some a) := h
    cases hroom : s.queryAsync.refuses invocation.owner with
    | true =>
      rw [Exec.Async.emplaceTask_of_refuses hroom] at h
      cases h
      exact hquiet rfl rfl rfl
    | false =>
      rw [Exec.Async.emplaceTask_of_room hroom] at h
      cases h
      simp only [handedIn, takenIn, Exec.Async.push_tasks, List.map_append, List.map_cons,
        List.map_nil, Option.toList_some, Option.toList_none, List.nil_append]
  | takeFront =>
    obtain ⟨⟨front, queryAsync⟩, htake, heq⟩ := Option.map_eq_some_iff.mp h
    obtain ⟨rfl, ha⟩ := Prod.mk.inj heq
    obtain rfl := Option.some.inj ha
    unfold Exec.Async.takeFront at htake
    split at htake
    · cases htake
    · next front' rest htasks =>
      obtain ⟨rfl, rfl⟩ := Prod.mk.inj (Option.some.inj htake)
      rw [htasks]
      exact List.append_nil _
  | finish owner =>
    cases h
    exact hquiet rfl rfl (s.queryAsync.finish_tasks owner)
  | lockListeners | lockManager =>
    obtain ⟨-, heq⟩ := Option.ite_none_right_eq_some.mp h
    cases heq
    exact hquiet rfl rfl rfl
  | acquireShared module | acquireExclusive module =>
    obtain ⟨m, -, heq⟩ := Option.map_eq_some_iff.mp h
    cases heq
    exact hquiet rfl rfl rfl
  | loadImage module | closeImage module =>
    cases c <;> cases h <;> exact hquiet rfl rfl rfl
  | _ =>
    cases h
    exact hquiet rfl rfl rfl

theorem accepted_of_act {s s' : State} {t : ℕ} {c : Choice} {invocation : CallbackInvocation}
    {accepted : Bool} (hroom : s.queryAsync.refuses invocation.owner = false)
    (h : act s t (.emplaceTask invocation) c = some (s', some accepted)) : accepted = true := by
  have ha : (s.queryAsync.emplaceTask invocation.owner invocation).1 = accepted :=
    Option.some.inj (Prod.mk.inj (Option.some.inj h)).2
  rw [← ha, Exec.Async.emplaceTask_of_room hroom]

theorem good_of_answers (h : Kept builtin w) {t : ℕ} {m : Stage} {op : Op} {a : op.Answer}
    {c : Choice} {shared : State} (hstage : stageOf w t = some m) (hallows : Allows m op)
    (hguard : FoundBy builtin w t op) (hact : act w.shared t op c = some (shared, some a)) :
    Good builtin (t, .answers op a) w.history := by
  have hagrees := h.agrees t
  rw [hstage] at hagrees
  cases op with
  | emplaceTask invocation =>
    obtain ⟨rest, rfl⟩ := hallows
    obtain ⟨hquery, hverdict, -⟩ := hagrees
    exact ⟨accepted_of_act hguard hact, hverdict, hquery⟩
  | continue_ entry =>
    obtain ⟨query, rest, rfl | rfl⟩ := hallows
    · exact .inl hagrees.2.1
    · exact .inr ⟨hagrees.2.1, h.absent t query entry rest hstage⟩
  | callback invocation =>
    obtain rfl : m = _ := hallows
    exact ⟨hagrees.2.2.1, hagrees.2.2.2⟩
  | _ => exact trivial

theorem good_of_ends (h : Kept builtin w) {t : ℕ} {m : Stage} {result : Except Unit Unit}
    (hstage : stageOf w t = some m) (hpost : Ends m result) :
    Good builtin (t, .ends result) w.history := by
  have hagrees := h.agrees t
  rw [hstage] at hagrees
  obtain ⟨query, verdict, rfl⟩ | rfl | rfl := hpost
  · obtain ⟨-, -, hresolved, htaken⟩ := hagrees
    rw [List.append_nil] at hresolved
    exact ⟨hresolved, htaken.symm⟩
  · obtain ⟨hresolved, hsnapshot, htaken⟩ := hagrees
    exact ⟨hresolved.trans hsnapshot.symm, htaken.symm⟩
  · obtain ⟨hresolved, hsnapshot, htaken, hcalled⟩ := hagrees
    exact ⟨hresolved.trans hsnapshot.symm, hcalled.trans htaken.symm⟩

-- A component of the bot is not found to be absent.
theorem absent_of_next {t : ℕ} {m : Stage} {op : Op} {a : op.Answer} {c : Choice} {shared : State}
    {query : ℕ} {entry : Entry} {rest : List Entry}
    (hquery : (lastOf queryIn w.history t).isSome = true) (hallows : Allows m op) (hguard : FoundBy builtin w t op)
    (hact : act w.shared t op c = some (shared, some a))
    (hnext : next m op a = .looping query (entry :: rest) (some .absent)) :
    m = .looping query (entry :: rest) (some .absent) ∨ builtin entry.1 = false := by
  cases op with
  | kModuleLoader owner =>
    obtain ⟨query', listener, rest', rfl⟩ := hallows
    cases a with
    | true => cases hnext
    | false =>
      cases hnext
      refine .inr (Bool.eq_false_iff.mpr fun hbuiltin => ?_)
      have hloader : w.shared.loader = true := hguard hbuiltin
      have ha : w.shared.loader = false :=
        Option.some.inj (Prod.mk.inj (Option.some.inj hact)).2
      cases hloader.symm.trans ha
  | find name =>
    obtain rfl | ⟨query', listener, rest', rfl⟩ := hallows
    · cases hnext
    · cases a with
      | some module => cases hnext
      | none =>
        cases hnext
        refine .inr (Bool.eq_false_iff.mpr fun hbuiltin => ?_)
        have hfound : (w.shared.handles name).isSome = true := hguard hquery hbuiltin
        have ha : w.shared.handles name = none :=
          Option.some.inj (Prod.mk.inj (Option.some.inj hact)).2
        rw [ha] at hfound
        cases hfound
  | listeners =>
    obtain ⟨query', rfl⟩ := hallows
    cases hnext
  | acceptingExecutions module =>
    obtain ⟨query', rest', verdict, rfl⟩ := hallows
    cases a <;> cases hnext
  | continue_ entry' =>
    obtain ⟨query', rest', rfl | rfl⟩ := hallows <;> cases hnext
  | emplaceTask invocation =>
    obtain ⟨rest', rfl⟩ := hallows
    cases hnext
  | takeFront | callback invocation =>
    obtain rfl : m = _ := hallows
    cases hnext
  | _ => exact .inl (by cases m <;> exact hnext)

theorem Kept.of_moves (hs : discipline.Follows w) (h : Kept builtin w)
    (hguard : Served builtin w i) (hm : Moves w i w') : Kept builtin w' := by
  -- A step of a thread that has nothing to do with the queue.
  have hqueued {t : ℕ} {e : Event Call Op Op.Answer Unit} (hhistory : w'.history = (t, e) :: w.history)
      (hgood : Good builtin (t, e) w.history) (hhanded : handedIn e = none) (htaken : takenIn e = none)
      (hsame : w'.shared = w.shared) : Reaches builtin w' := by
    refine ⟨by rw [hhistory]; exact ⟨hgood, h.reaches.good⟩, ?_⟩
    rw [hhistory, collected, collected, hhanded, htaken, hsame, Option.toList_none,
      List.append_nil, List.append_nil]
    exact h.reaches.queued
  cases hm with
  | begins hbegins =>
    rename_i call shared
    cases hbegins
    refine ⟨fun u => ?_, fun u query entry rest hstage' => ?_, hqueued rfl trivial rfl rfl rfl⟩
    · by_cases hu : u = w.started
      · subst hu
        have hbefore := h.agrees w.started
        rw [stageOf, (hs.fresh _ (Nat.le_refl _)).2] at hbefore
        obtain ⟨hresolved, hsnapshot, htaken, hcalled⟩ := hbefore
        rw [stageOf, Discipline.stage_begun]
        change Agrees (log ((w.started, .begins call) :: w.history) w.started) _
        rw [log_cons_self]
        cases call with
        | callbackQuery query =>
          exact ⟨rfl, by simpa [Log.add, resolvedIn] using hresolved,
            by simp [Log.add, takenIn, calledIn, htaken, hcalled]⟩
        | _ =>
          rw [add_quiet rfl rfl rfl rfl rfl rfl]
          exact ⟨hresolved, hsnapshot, htaken, hcalled⟩
      · rw [stageOf, Discipline.stage_begun_of_ne hu]
        change Agrees (log ((w.started, .begins call) :: w.history) u) _
        rw [log_cons_of_ne hu]
        exact h.agrees u
    · by_cases hu : u = w.started
      · subst hu
        rw [stageOf, Discipline.stage_begun] at hstage'
        cases call <;> cases hstage'
      · rw [stageOf, Discipline.stage_begun_of_ne hu] at hstage'
        exact h.absent u query entry rest hstage'
  | ends hstage hpost =>
    rename_i t result m
    refine ⟨fun u => ?_, fun u query entry rest hstage' => ?_,
      hqueued rfl (good_of_ends h hstage hpost) rfl rfl rfl⟩
    · rw [stageOf, Discipline.stage_ends]
      change Agrees (log ((t, .ends result) :: w.history) u) _
      by_cases hu : u = t
      · subst hu
        rw [log_cons_self, add_quiet rfl rfl rfl rfl rfl rfl]
        exact h.agrees u
      · rw [log_cons_of_ne hu]
        exact h.agrees u
    · rw [stageOf, Discipline.stage_ends] at hstage'
      exact h.absent u query entry rest hstage'
  | hangsUp hstage hhangs hrunning => cases hhangs
  | waits hstage hallows hact hrunning =>
    rename_i t c op shared m
    refine ⟨h.agrees, h.absent, h.reaches.good, ?_⟩
    cases op <;> first
      | cases hact
      | cases (Option.ite_none_right_eq_some.mp hact).2
      | (obtain ⟨p, -, heq⟩ := Option.map_eq_some_iff.mp hact; cases heq)
  | answers hstage hallows hact hrunning =>
    rename_i t c op next' shared answer m
    have hfound := hguard op (asks_of_running hrunning)
    refine ⟨fun u => ?_, fun u query entry rest hstage' => ?_,
      ⟨good_of_answers h hstage hallows hfound hact, h.reaches.good⟩, ?_⟩
    · change Agrees (log ((t, .answers op answer) :: w.history) u) _
      by_cases hu : u = t
      · subst hu
        have hagrees := h.agrees u
        rw [stageOf, hstage] at hagrees
        rw [stageOf, Discipline.stage_answers hstage, log_cons_self]
        exact agrees_next hallows hagrees
      · rw [stageOf, Discipline.stage_record_of_ne hu, log_cons_of_ne hu]
        exact h.agrees u
    · by_cases hu : u = t
      · subst hu
        rw [stageOf, Discipline.stage_answers hstage, Option.some.injEq] at hstage'
        have hagrees := h.agrees u
        rw [stageOf, hstage] at hagrees
        have hafter := agrees_next (a := answer) hallows hagrees
        have hstage'' : next m op answer = .looping query (entry :: rest) (some .absent) := hstage'
        rw [hstage''] at hafter
        have hquery : lastOf queryIn w.history u = some query := hafter.1
        obtain rfl | hnot := absent_of_next (by rw [hquery]; rfl) hallows hfound hact hstage'
        · exact h.absent u query entry rest hstage
        · exact hnot
      · rw [stageOf, Discipline.stage_record_of_ne hu] at hstage'
        exact h.absent u query entry rest hstage'
    · change collected _ ((t, .answers op answer) :: w.history) =
        collected _ ((t, .answers op answer) :: w.history) ++ shared.queryAsync.tasks.map Prod.snd
      rw [collected, collected, h.reaches.queued, List.append_assoc, List.append_assoc]
      exact congrArg _ (queued_of_act hact)

theorem Kept.initial (maxQueueSize : ℕ) : Kept builtin (.initial maxQueueSize) :=
  ⟨fun _ => ⟨rfl, rfl, rfl, rfl⟩, fun _ _ _ _ h => (nomatch h), trivial, rfl⟩

-- Every query reaches the listeners that accept it.
theorem reaches {maxQueueSize : ℕ} {steps : List Step}
    (hg : Transition.Guarded step (Served builtin) (.initial maxQueueSize) steps)
    (hp : Transition.path step (.initial maxQueueSize) steps = some w) : Reaches builtin w := by
  have hinvariant : discipline.Follows w ∧ Kept builtin w := by
    refine Transition.path_invariant (fun w => discipline.Follows w ∧ Kept builtin w) ?_
      ⟨Discipline.Follows.initial _, .initial maxQueueSize⟩ hg hp
    rintro u i u' ⟨hs, h⟩ hguard hstep
    exact ⟨hs.of_step governs hstep, h.of_moves hs hguard (Discipline.moves_of_step hs hstep)⟩
  exact hinvariant.2.reaches

end Steps

def startsBuiltin (owner : String) : Bool := owner.startsWith "[builtin::"

def registers (t : ℕ) (owner : String) (listener : ℕ) : List Step :=
  .begins (.onCallbackQuery owner listener) :: List.replicate 3 (.acts t .fails) ++ [.ends t]

def loads (t : ℕ) (name : String) : List Step :=
  .begins .load :: List.replicate 9 (.acts t (.succeeds name)) ++ [.ends t]

def starts (t : ℕ) : List Step := [.begins (.assignLoader true), .acts t .fails, .ends t]

def queries (t count : ℕ) : List Step :=
  .begins (.callbackQuery 7) :: List.replicate count (.acts t .fails) ++ [.ends t]

def works (t : ℕ) : List Step := .begins .work :: List.replicate 4 (.acts t .fails) ++ [.ends t]

theorem reaches_module :
    ∃ w, Transition.path step (.initial 4) (loads 0 "bash" ++ starts 1 ++ registers 2 "bash" 5 ++
      queries 3 11 ++ works 4) = some w ∧ Reaches startsBuiltin w := by
  obtain ⟨w, hpath, -⟩ := Transition.exists_path step (.initial 4)
    (loads 0 "bash" ++ starts 1 ++ registers 2 "bash" 5 ++ queries 3 11 ++ works 4)
    (fun _ => True) (by decide +kernel)
  exact ⟨w, hpath, reaches (by decide +kernel) hpath⟩

-- A component of the bot is in no table of modules, so its listener is passed over.
theorem builtin_passed_over :
    ∃ w, Transition.path step (.initial 4) (starts 0 ++ registers 1 "[builtin::ChatJoinRequest]" 5 ++
      queries 2 8) = some w ∧ ¬Reaches startsBuiltin w := by
  obtain ⟨w, hpath, hbad⟩ := Transition.exists_path step (.initial 4)
    (starts 0 ++ registers 1 "[builtin::ChatJoinRequest]" 5 ++ queries 2 8)
    (fun w => ¬Explained (Good startsBuiltin) w.history) (by decide +kernel)
  exact ⟨w, hpath, fun hreaches => hbad hreaches.good⟩

end Glider.CallbackQuery
