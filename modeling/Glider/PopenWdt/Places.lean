import Glider.PopenWdt.Posix

namespace Glider.PopenWdt

open Glider.Lib Glider.Lib.Threads

inductive Role where
  | watchdog
  | cancel
  | owner
  | detachedReaper
  | outside

def Call.role : Call → Role
  | .watchdog => .watchdog
  | .cancel => .cancel
  | .own _ => .owner
  | .detachedReaper => .detachedReaper
  | .exit _ | .fork | .leave | .reuse => .outside

-- What a thread has to do with the reaping of the child: it may call `waitpid`, it has yet to
-- create the detached reaper, or it is that one.
inductive Hold where
  | nothing
  | reaper
  | abandoned
  | detached
deriving DecidableEq

def Hold.ofClaim (claimed : Bool) : Hold := if claimed then .reaper else .nothing

-- Where a thread is: the status that it has been given, whether it has set `terminating`, and
-- whether it waits for another thread to reset it.
structure Stage where
  role : Role
  hold : Hold
  status : Option ℕ
  terminator : Bool
  asleep : Bool
  joined : Bool

namespace Stage

def create (role : Role) (hold : Hold) : Stage := ⟨role, hold, none, false, false, false⟩

def next (m : Stage) : (op : Op) → op.Answer → Stage
  | .claimReaper, claimed => { m with hold := .ofClaim claimed }
  | .waitpid _, .changed status => { m with status := some status }
  | .recordStatus _, _ => { m with hold := .nothing, status := none }
  | .releaseReaper, _ => { m with hold := .nothing }
  | .abandonReap, _ => { m with hold := .abandoned }
  | .createReaper, _ => { m with hold := .nothing }
  | .timedwait, .timedOut => { m with terminator := true }
  | .requestCancel, .mine => { m with terminator := true }
  | .requestCancel, .busy => { m with asleep := true }
  | .waitFinished, _ => { m with asleep := false }
  | .finishTermination, _ => { m with terminator := false }
  | .join, _ => { m with joined := true }
  | _, _ => m

def Allows (m : Stage) : Op → Prop
  | .claimReaper => m.hold = .nothing
  | .waitpid true => m.hold = .reaper ∧ m.status = none
  | .waitpid false => m.role = .detachedReaper ∧ m.hold = .detached ∧ m.terminator = false
  | .recordStatus status => m.hold = .reaper ∧ m.status = some status
  | .releaseReaper | .abandonReap => m.hold = .reaper ∧ m.status = none
  | .createReaper => m.hold = .abandoned
  | .watch | .timedwait => m.role = .watchdog
  | .requestCancel => m.role = .cancel
  | .waitFinished => m.role = .cancel ∧ m.terminator = false
  | .waitTerminating | .asleep | .join | .quiesce => m.role = .owner ∧ m.terminator = false
  | .killpg _ | .kill _ => m.status = none
  | .cleanup => m.joined = true
  | _ => True

end Stage

def discipline : Discipline Call Op Op.Answer Empty Stage where
  monitor := ⟨fun m op => (m.asleep = true → op = .waitFinished) ∧ m.Allows op, Stage.next⟩
  start
    | .detachedReaper => .create .detachedReaper .detached
    | call => .create call.role .nothing
  post m _ := m.terminator = false ∧ m.asleep = false

-- A thread that has nothing to do with the reaping.
structure Quiet (m : Stage) : Prop where
  hold : m.hold = .nothing
  status : m.status = none
  asleep : m.asleep = false

section Keeps

variable {α : Type} {m : Stage} {post : Stage → α → Prop}

abbrev Keeps (p : Code α) (m : Stage) : Prop := p.Keeps discipline.monitor m

abbrev Leads (p : Code α) (m : Stage) (post : Stage → α → Prop) : Prop :=
  Program.Leads discipline.monitor p m post

theorem leads_perform {op : Op} {rest : op.Answer → Code α} (hasleep : m.asleep = false)
    (hallows : m.Allows op) (hrest : ∀ answer, Leads (rest answer) (m.next op answer) post) :
    Leads (Program.perform op >>= rest) m post :=
  ⟨⟨fun h => absurd (hasleep.symm.trans h) Bool.false_ne_true, hallows⟩, hrest⟩

theorem leads_keeps {β : Type} {p : Code β} {rest : β → Code α} (hp : Keeps p m)
    (hrest : ∀ b, Leads (rest b) m post) : Leads (p >>= rest) m post :=
  Program.Keeps.meets_bind hp hrest fun e => e.elim

theorem keeps_of_leads {p : Code α} (h : Leads p m fun m' _ => m' = m) : Keeps p m :=
  Program.Leads.meets h fun _ _ => id

theorem keeps_perform (op : Op) (hasleep : m.asleep = false) (hallows : m.Allows op)
    (hnext : ∀ answer, m.next op answer = m) : Keeps (Program.perform op) m :=
  ⟨⟨fun h => absurd (hasleep.symm.trans h) Bool.false_ne_true, hallows⟩, hnext⟩

theorem keeps_processGroupExists (hasleep : m.asleep = false) (hstatus : m.status = none) :
    Keeps Code.processGroupExists m :=
  Program.Keeps.bind (keeps_perform (.killpg 0) hasleep hstatus fun _ => rfl) fun _ => rfl

theorem keeps_leaderExists (hasleep : m.asleep = false) (hstatus : m.status = none) :
    Keeps Code.leaderExists m := by
  refine Program.Keeps.bind (keeps_perform .unreaped hasleep trivial fun _ => rfl)
    fun unreaped => ?_
  cases unreaped with
  | true =>
    exact Program.Keeps.bind (keeps_perform (.kill 0) hasleep hstatus fun _ => rfl) fun _ => rfl
  | false => rfl

theorem keeps_commandProcessesExist (hasleep : m.asleep = false) (hstatus : m.status = none) :
    Keeps Code.commandProcessesExist m := by
  refine Program.Keeps.bind (keeps_processGroupExists hasleep hstatus) fun found => ?_
  cases found with
  | true => rfl
  | false => exact keeps_leaderExists hasleep hstatus

theorem keeps_signalProcessTree (hasleep : m.asleep = false) (hstatus : m.status = none)
    (signal : ℕ) : Keeps (Code.signalProcessTree signal) m := by
  refine Program.Keeps.bind (keeps_perform (.killpg signal) hasleep hstatus fun _ => rfl)
    fun _ => Program.Keeps.ite ?_ rfl
  exact Program.Keeps.bind (keeps_perform (.kill signal) hasleep hstatus fun _ => rfl) fun _ => rfl

-- The reaper calls `waitpid`, and it is the reaper no more when the child has changed.
theorem leads_reapChildNohang (h : Quiet m) :
    Leads Code.reapChildNohang { m with hold := .reaper } fun m' reaped =>
      m' = { m with hold := .ofClaim !reaped } := by
  obtain ⟨role, hold, status, terminator, asleep, joined⟩ := m
  obtain ⟨rfl, rfl, rfl⟩ := h
  refine leads_perform rfl ⟨rfl, rfl⟩ fun waited => ?_
  cases waited with
  | changed status => exact leads_perform rfl ⟨rfl, rfl⟩ fun _ => rfl
  | noChild => exact leads_perform rfl ⟨rfl, rfl⟩ fun _ => rfl
  | unchanged => rfl

theorem keeps_childFinishedNohang (h : Quiet m) : Keeps Code.childFinishedNohang m := by
  refine keeps_of_leads (leads_perform h.asleep h.hold fun claimed => ?_)
  have hm : { m with hold := .nothing } = m := by
    rw [← h.hold]
  cases claimed with
  | true =>
    refine Program.Leads.bind (leads_reapChildNohang h) fun m' reaped hm' => ?_
    subst hm'
    cases reaped with
    | true => exact hm
    | false => exact leads_perform h.asleep ⟨rfl, h.status⟩ fun _ => hm
  | false => exact hm

theorem leads_grace (h : Quiet m) (ownsReaper : Bool) (rounds : ℕ) (leaderReaped : Bool) :
    Leads (Code.grace ownsReaper rounds leaderReaped)
      { m with hold := .ofClaim (ownsReaper && !leaderReaped) } fun m' leaderReaped =>
        m' = { m with hold := .ofClaim (ownsReaper && !leaderReaped) } := by
  induction rounds generalizing leaderReaped with
  | zero => rfl
  | succ rounds ih =>
    have hround (leaderReaped : Bool) : Leads (do
        if ← Code.commandProcessesExist then
          Program.perform Op.sleep
          Code.grace ownsReaper rounds leaderReaped
        else return leaderReaped) { m with hold := .ofClaim (ownsReaper && !leaderReaped) }
        fun m' leaderReaped =>
          m' = { m with hold := .ofClaim (ownsReaper && !leaderReaped) } := by
      refine leads_keeps (keeps_commandProcessesExist h.asleep h.status) fun exist => ?_
      cases exist with
      | true => exact leads_perform h.asleep trivial fun _ => ih leaderReaped
      | false => rfl
    rw [Code.grace]
    split
    next howns =>
      rw [howns]
      obtain ⟨rfl, -⟩ := Bool.and_eq_true_iff.mp howns
      refine Program.Leads.bind (leads_reapChildNohang h) fun m' reaped hm' => ?_
      subst hm'
      exact hround reaped
    next => exact hround leaderReaped

theorem leads_killWait (h : Quiet m) (rounds : ℕ) :
    Leads (Code.killWait rounds) { m with hold := .reaper } fun m' reaped =>
      m' = { m with hold := .ofClaim !reaped } := by
  induction rounds with
  | zero => rfl
  | succ rounds ih =>
    refine Program.Leads.bind (leads_reapChildNohang h) fun m' reaped hm' => ?_
    subst hm'
    cases reaped with
    | true => rfl
    | false => exact leads_perform h.asleep trivial fun _ => ih

theorem leads_abandonReap (h : Quiet m) :
    Leads Code.abandonReap { m with hold := .reaper } fun m' _ => m' = m := by
  obtain ⟨role, hold, status, terminator, asleep, joined⟩ := m
  obtain ⟨rfl, rfl, rfl⟩ := h
  refine leads_perform rfl ⟨rfl, rfl⟩ fun _ => ?_
  exact ⟨⟨nofun, rfl⟩, fun _ => rfl⟩

theorem keeps_terminateProcessGroup (h : Quiet m) : Keeps Code.terminateProcessGroup m := by
  have hm : { m with hold := .nothing } = m := by
    rw [← h.hold]
  refine keeps_of_leads (leads_perform h.asleep h.hold fun ownsReaper => ?_)
  refine leads_keeps (@keeps_signalProcessTree { m with hold := .ofClaim ownsReaper } h.asleep
    h.status sigterm) fun _ => ?_
  refine leads_perform h.asleep trivial fun rounds => ?_
  have hgrace := leads_grace h ownsReaper rounds false
  rw [Bool.not_false, Bool.and_true] at hgrace
  refine Program.Leads.bind hgrace fun m' leaderReaped hm' => ?_
  subst hm'
  refine leads_keeps (keeps_commandProcessesExist h.asleep h.status) fun exist => ?_
  have hend : Leads (if ownsReaper && !leaderReaped then do
      let rounds ← Program.perform Op.deadline
      if ← Code.killWait rounds then return
      else Code.abandonReap
      else return) { m with hold := .ofClaim (ownsReaper && !leaderReaped) }
      fun m' _ => m' = m := by
    split
    next howns =>
      rw [howns]
      refine leads_perform h.asleep trivial fun rounds => ?_
      refine Program.Leads.bind (leads_killWait h rounds) fun m' reaped hm' => ?_
      subst hm'
      cases reaped with
      | true => exact hm
      | false => exact leads_abandonReap h
    next howns =>
      rw [Bool.eq_false_iff.mpr howns]
      exact hm
  cases exist with
  | true =>
    exact leads_keeps (@keeps_signalProcessTree
      { m with hold := .ofClaim (ownsReaper && !leaderReaped) } h.asleep h.status sigkill)
      fun _ => hend
  | false => exact hend

theorem keeps_waitForChild (h : Quiet m) (hrole : m.role = .owner)
    (hterminator : m.terminator = false) : Keeps Code.waitForChild m := by
  have hpolls (polls : ℕ) : Keeps (Code.pollChild polls) m := by
    induction polls with
    | zero => exact keeps_perform .asleep h.asleep ⟨hrole, hterminator⟩ fun _ => rfl
    | succ polls ih =>
      refine Program.Keeps.bind (keeps_perform .waitTerminating h.asleep ⟨hrole, hterminator⟩
        fun _ => rfl) fun complete => Program.Keeps.ite rfl ?_
      refine Program.Keeps.bind (keeps_childFinishedNohang h) fun reaped =>
        Program.Keeps.ite rfl ?_
      exact Program.Keeps.bind (keeps_perform .sleep h.asleep trivial fun _ => rfl) fun _ => ih
  exact Program.Keeps.bind (keeps_perform .polls h.asleep trivial fun _ => rfl) hpolls

end Keeps

-- At the end of a call.
def Rests (m : Stage) : Prop := m.terminator = false ∧ m.asleep = false

theorem leads_watchdog : Leads Code.watchdog (.create .watchdog .nothing) fun m _ => Rests m := by
  have hquiet : Quiet { Stage.create .watchdog .nothing with terminator := true } :=
    ⟨rfl, rfl, rfl⟩
  refine leads_perform rfl rfl fun waits => ?_
  cases waits with
  | false => exact ⟨rfl, rfl⟩
  | true =>
    refine leads_perform rfl rfl fun wake => ?_
    cases wake with
    | timedOut =>
      refine leads_keeps (keeps_childFinishedNohang hquiet) fun _ => ?_
      refine leads_keeps (keeps_commandProcessesExist rfl rfl) fun exist => ?_
      cases exist with
      | true =>
        refine leads_perform rfl trivial fun _ => ?_
        refine leads_keeps (keeps_terminateProcessGroup hquiet) fun _ => ?_
        exact ⟨⟨nofun, trivial⟩, fun _ => ⟨rfl, rfl⟩⟩
      | false => exact ⟨⟨nofun, trivial⟩, fun _ => ⟨rfl, rfl⟩⟩
    | leaves | failed => exact ⟨rfl, rfl⟩

theorem leads_cancel : Leads Code.cancel (.create .cancel .nothing) fun m _ => Rests m := by
  have hquiet : Quiet { Stage.create .cancel .nothing with terminator := true } :=
    ⟨rfl, rfl, rfl⟩
  refine leads_perform rfl rfl fun request => ?_
  cases request with
  | gone => exact ⟨rfl, rfl⟩
  | busy => exact ⟨⟨fun _ => rfl, rfl, rfl⟩, fun _ => ⟨rfl, rfl⟩⟩
  | mine =>
    refine leads_keeps (keeps_terminateProcessGroup hquiet) fun _ => ?_
    exact leads_perform rfl trivial fun _ => ⟨rfl, rfl⟩

theorem leads_own (calls : ℕ) (joined : Bool) :
    Leads (Code.own calls) { Stage.create .owner .nothing with joined } fun m _ => Rests m := by
  have hquiet (joined : Bool) : Quiet { Stage.create .owner .nothing with joined } :=
    ⟨rfl, rfl, rfl⟩
  induction calls generalizing joined with
  | zero =>
    refine leads_perform rfl ⟨rfl, rfl⟩ fun _ => ?_
    have hend : Leads (do
        Program.perform Op.broadcast
        Program.perform Op.join
        let status ← Program.perform Op.readStatus
        Program.perform Op.cleanup
        return status) { Stage.create .owner .nothing with joined } fun m _ => Rests m := by
      refine leads_perform rfl trivial fun _ => leads_perform rfl ⟨rfl, rfl⟩ fun _ => ?_
      exact leads_perform rfl trivial fun _ => leads_perform rfl rfl fun _ => ⟨rfl, rfl⟩
    have hdestroy : Leads Code.destroy { Stage.create .owner .nothing with joined }
        fun m _ => Rests m := by
      refine leads_keeps (keeps_waitForChild (hquiet joined) rfl rfl) fun _ => ?_
      refine leads_keeps (keeps_processGroupExists rfl rfl) fun found => ?_
      cases found with
      | true => exact leads_keeps (keeps_terminateProcessGroup (hquiet joined)) fun _ => hend
      | false => exact hend
    exact Program.Leads.bind hdestroy fun _ _ h => h
  | succ calls ih =>
    have hactivated : Leads Code.activated { Stage.create .owner .nothing with joined } fun m _ =>
        m = { Stage.create .owner .nothing with joined := true } := by
      refine leads_keeps (keeps_waitForChild (hquiet joined) rfl rfl) fun _ => ?_
      refine leads_perform rfl trivial fun _ => leads_perform rfl ⟨rfl, rfl⟩ fun _ => ?_
      exact ⟨⟨nofun, trivial⟩, fun _ => rfl⟩
    exact Program.Leads.bind hactivated fun m _ hm => hm ▸ ih true

theorem governs : discipline.Governs system := by
  have hmeets {p : Code Unit} {m : Stage} (h : Leads p m fun m _ => Rests m) :
      p.Meets discipline.monitor discipline.post m := Program.Leads.meets h fun _ _ => id
  intro call
  cases call with
  | watchdog => exact hmeets leads_watchdog
  | cancel => exact hmeets (Program.Leads.bind leads_cancel fun _ _ h => h)
  | own calls => exact hmeets (leads_own calls false)
  | detachedReaper =>
    refine hmeets (leads_perform rfl ⟨rfl, rfl, rfl⟩ fun waited => ?_)
    cases waited <;> exact ⟨rfl, rfl⟩
  | exit | fork | leave | reuse => exact ⟨rfl, rfl⟩

end Glider.PopenWdt
