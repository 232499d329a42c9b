import Glider.Ibash.Manager

namespace Glider.Ibash

open Lib

-- What a call has in its hands: a process that it has started and not yet put away, what it has
-- seen in the table, and what it has still to clean up of a hand-over.
structure Stage where
  holding : Option ℕ
  looked : List (SessionKey × ℕ)
  pending : Option (ℕ × List ℕ)

def monitor : Program.Monitor Op Op.Answer Stage where
  allows
    | m, .spawn => m.holding = none
    | m, .retireNew session => m.holding = some session
    | m, .emplace _ session => m.holding = some session
    | m, .retireFound key expected => (key, expected) ∈ m.looked
    | m, .cleanup handOver session => ∃ rest, m.pending = some (handOver, session :: rest)
    | _, _ => True
  next
    | m, .find key, (some session, _) => { m with looked := (key, session) :: m.looked }
    | m, .snapshot, entries => { m with looked := entries ++ m.looked }
    | m, .spawn, session => { m with holding := session }
    | m, .retireNew _, _ => { m with holding := none }
    | m, .emplace _ _, _ => { m with holding := none }
    | m, .swapRetired, (handOver, retired) => { m with pending := some (handOver, retired) }
    | m, .swapAll, (handOver, sessions, retired) =>
      { m with pending := some (handOver, sessions ++ retired) }
    | m, .cleanup _ _, _ =>
      { m with pending := m.pending.map fun pending => (pending.1, pending.2.tail) }
    | m, _, _ => m

def conduct : Threads.Discipline Call Op Op.Answer Empty Stage :=
  ⟨monitor, fun _ => ⟨none, [], none⟩, fun m _ => m.holding = none⟩

-- A part of a call that begins and ends with no process in its hands.
def Tidy {α : Type} (m : Stage) (p : Prog α) : Prop :=
  p.Meets monitor (fun m' _ => m'.holding = none) m

section Parts

variable {α β : Type} {m : Stage}

theorem Tidy.bind {p : Prog α} {f : α → Prog β} (hp : p.Keeps monitor m)
    (hf : ∀ a, Tidy m (f a)) : Tidy m (p >>= f) :=
  hp.meets_bind hf fun e => nomatch e

theorem keeps_requestTermination (session : ℕ) :
    (perform (.requestTermination session)).Keeps monitor m := ⟨trivial, fun _ => rfl⟩

theorem keeps_isGone (session : ℕ) : (isGone session).Keeps monitor m := by
  refine ⟨trivial, fun idle => ?_⟩
  cases idle with
  | true => rfl
  | false => exact ⟨trivial, fun _ => rfl⟩

theorem keeps_retireExpected {key : SessionKey} {expected : ℕ} (h : (key, expected) ∈ m.looked) :
    (retireExpected key expected).Keeps monitor m := by
  refine ⟨h, fun retired => ?_⟩
  cases retired with
  | true => exact keeps_requestTermination expected
  | false => rfl

theorem tidy_startNew (hm : m.holding = none) (key : SessionKey) : Tidy m (startNew key) := by
  refine ⟨hm, fun spawned => ?_⟩
  cases spawned with
  | none => rfl
  | some session =>
    refine ⟨trivial, fun stopped => ?_⟩
    cases stopped with
    | true => exact ⟨rfl, fun _ => rfl⟩
    | false => exact ⟨rfl, fun _ => rfl⟩

theorem tidy_startSession (hm : m.holding = none) (key : SessionKey) :
    Tidy m (startSession key) := by
  refine ⟨trivial, fun ensured => ?_⟩
  cases ensured with
  | false => exact hm
  | true =>
    refine ⟨trivial, fun ⟨existing, size⟩ => ?_⟩
    cases existing with
    | none =>
      by_cases hfull : kMaxSessions ≤ size
      · change Tidy m (if kMaxSessions ≤ size then pure false else startNew key)
        rw [if_pos hfull]
        exact hm
      · change Tidy m (if kMaxSessions ≤ size then pure false else startNew key)
        rw [if_neg hfull]
        exact tidy_startNew hm key
    | some session =>
      refine ⟨trivial, fun running => ?_⟩
      cases running with
      | true => exact hm
      | false =>
        change Tidy { m with looked := (key, session) :: m.looked }
          (retireExpected key session >>= fun _ => startNew key)
        refine Tidy.bind (keeps_retireExpected List.mem_cons_self) fun _ => tidy_startNew ?_ key
        exact hm

theorem tidy_executeFound (hm : m.holding = none) {key : SessionKey} {session : ℕ}
    (h : (key, session) ∈ m.looked) : Tidy m (executeFound key session) := by
  refine Tidy.bind (keeps_isGone session) fun gone => ?_
  cases gone with
  | true => exact Tidy.bind (keeps_retireExpected h) fun _ => hm
  | false =>
    refine ⟨trivial, fun answered => ?_⟩
    cases answered with
    | true => exact hm
    | false =>
      change Tidy m (retireExpected key session >>= fun _ => pure ExecuteStatus.failed)
      exact Tidy.bind (keeps_retireExpected h) fun _ => hm

theorem tidy_executeCommand (hm : m.holding = none) (key : SessionKey) :
    Tidy m (executeCommand key) := by
  refine ⟨trivial, fun ⟨found, size⟩ => ?_⟩
  cases found with
  | none => exact hm
  | some session =>
    change Tidy { m with looked := (key, session) :: m.looked } (executeFound key session)
    refine tidy_executeFound ?_ List.mem_cons_self
    exact hm

theorem tidy_retireSession (hm : m.holding = none) (key : SessionKey) :
    Tidy m (retireSession key) := by
  refine ⟨trivial, fun retired => ?_⟩
  cases retired with
  | none => exact hm
  | some session => exact ⟨trivial, fun _ => hm⟩

theorem keeps_expire {entry : SessionKey × ℕ} (h : entry ∈ m.looked) :
    (expire entry).Keeps monitor m := by
  refine .bind (keeps_isGone entry.2) fun gone => ?_
  cases gone with
  | true => exact keeps_retireExpected h
  | false => rfl

-- The clean-up of a hand-over goes through its sessions one by one.
theorem meets_cleanup {handOver : ℕ} (sessions rest : List ℕ) {post : Stage → Except Empty PUnit → Prop}
    (hm : m.pending = some (handOver, sessions ++ rest))
    (hpost : ∀ m', m'.holding = m.holding → m'.looked = m.looked →
      m'.pending = some (handOver, rest) → post m' (.ok ())) :
    (sessions.forM fun session => perform (.cleanup handOver session)).Meets monitor post m := by
  induction sessions generalizing m with
  | nil => exact hpost m rfl rfl hm
  | cons session sessions ih =>
    refine ⟨⟨sessions ++ rest, hm⟩, fun _ => ih ?_ fun m' hholding hlooked hrest => ?_⟩
    · change m.pending.map _ = _
      rw [hm]
      rfl
    · exact hpost m' hholding hlooked hrest

theorem tidy_cleanupRetired (hm : m.holding = none) : Tidy m cleanupRetired := by
  refine ⟨trivial, fun _ => ⟨trivial, fun ⟨handOver, retired⟩ => ?_⟩⟩
  change Tidy { m with pending := some (handOver, retired) }
    ((retired.forM fun session => perform (.requestTermination session)) >>= fun _ =>
      (retired.forM fun session => perform (.cleanup handOver session)) >>= fun _ =>
        perform .unlockCleanup)
  refine Tidy.bind (.forM fun session _ => keeps_requestTermination session) fun _ => ?_
  refine Program.meets_bind.mpr (meets_cleanup retired [] ?_ fun m' hholding _ _ => ?_)
  · rw [List.append_nil]
  · exact ⟨trivial, fun _ => hholding.trans hm⟩

theorem tidy_reap (hm : m.holding = none) : Tidy m reap := by
  refine ⟨trivial, fun entries => ?_⟩
  change Tidy { m with looked := entries ++ m.looked }
    (entries.forM expire >>= fun _ => cleanupRetired)
  refine Tidy.bind (.forM fun entry hentry => ?_) fun _ => ?_
  · exact keeps_expire (List.mem_append_left _ hentry)
  · exact tidy_cleanupRetired hm

theorem tidy_shutdown (hm : m.holding = none) : Tidy m shutdown := by
  refine ⟨trivial, fun _ => ⟨trivial, fun _ => ⟨trivial, fun _ =>
    ⟨trivial, fun ⟨handOver, sessions, retired⟩ => ?_⟩⟩⟩⟩
  change Tidy { m with pending := some (handOver, sessions ++ retired) }
    (((sessions.forM fun session => perform (.requestTermination session)) >>= fun _ =>
      (retired.forM fun session => perform (.requestTermination session)) >>= fun _ =>
      (sessions.forM fun session => perform (.cleanup handOver session)) >>= fun _ =>
      (retired.forM fun session => perform (.cleanup handOver session)) >>= fun _ =>
        perform .unlockCleanup) >>= fun _ => perform .unlockLifecycle)
  refine Program.meets_bind.mpr ?_
  refine Program.Keeps.meets_bind (.forM fun session _ => keeps_requestTermination session)
    (fun _ => ?_) fun e => nomatch e
  refine Program.Keeps.meets_bind (.forM fun session _ => keeps_requestTermination session)
    (fun _ => ?_) fun e => nomatch e
  refine Program.meets_bind.mpr (meets_cleanup sessions retired rfl fun m' hholding _ hrest => ?_)
  refine Program.meets_bind.mpr (meets_cleanup retired [] ?_ fun m'' hholding' _ _ => ?_)
  · rw [List.append_nil]
    exact hrest
  · exact ⟨trivial, fun _ => ⟨trivial, fun _ => hholding'.trans (hholding.trans hm)⟩⟩

theorem tidy_discard {p : Prog α} (h : Tidy m p) : Tidy m (p >>= fun _ => pure ()) := by
  refine Program.meets_bind.mpr (h.mono ?_)
  rintro m' (e | a) hm
  · exact nomatch e
  · exact hm

end Parts

theorem conduct_governs : conduct.Governs system := by
  intro call
  cases call with
  | start key => exact tidy_discard (tidy_startSession rfl key)
  | execute key => exact tidy_discard (tidy_executeCommand rfl key)
  | retire key => exact tidy_discard (tidy_retireSession rfl key)
  | reap => exact tidy_reap rfl
  | shutdown => exact tidy_shutdown rfl

end Glider.Ibash
