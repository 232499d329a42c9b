import Glider.Ibash.Accounted

namespace Glider.Ibash

open Lib Threads

abbrev State := Threads Manager Call Op Op.Answer Empty

def State.initial : State := Threads.initial Manager.initial

-- The process that each thread has started and not yet put away, and what it has still to clean up.
def holding : State → ℕ → Option ℕ := conduct.view (·.holding)

def pending : State → ℕ → Option (ℕ × List ℕ) := conduct.view (·.pending)

structure Inv (s : State) : Prop where
  follows : conduct.Follows s
  accounted : Accounted s.shared (holding s) (pending s)

theorem Inv.initial : Inv .initial where
  follows := Discipline.Follows.initial _
  accounted := ⟨Nat.zero_le _, .initial, .initial⟩

variable {s s' : State} {t : ℕ}

theorem accounted_of_answers (h : Inv s) {m : Stage} {op : Op} {answer : op.Answer} {choice : Choice}
    {shared : Manager} (hstage : conduct.stage s t = some m) (hallows : monitor.allows m op)
    (hact : act s.shared t op choice = some (shared, some answer)) (p : Option (Prog Unit)) :
    Accounted shared (holding (s.record t (.answers op answer) p shared))
      (pending (s.record t (.answers op answer) p shared)) := by
  have hholding : holding (s.record t (.answers op answer) p shared) =
      Function.update (holding s) t (monitor.next m op answer).holding :=
    Discipline.view_answers hstage ..
  have hpending : pending (s.record t (.answers op answer) p shared) =
      Function.update (pending s) t (monitor.next m op answer).pending :=
    Discipline.view_answers hstage ..
  have hholds : holding s t = m.holding := congrArg (·.bind Stage.holding) hstage
  have hpends : pending s t = m.pending := congrArg (·.bind Stage.pending) hstage
  have hsame : Function.update (holding s) t m.holding = holding s :=
    Function.update_eq_self_iff.mpr hholds.symm
  have hsame' : Function.update (pending s) t m.pending = pending s :=
    Function.update_eq_self_iff.mpr hpends.symm
  -- an operation on neither leaves what the thread has in its hands
  have hquiet : (monitor.next m op answer).holding = m.holding →
      (monitor.next m op answer).pending = m.pending →
      Accounted shared (holding s) (pending s) →
      Accounted shared (Function.update (holding s) t (monitor.next m op answer).holding)
        (Function.update (pending s) t (monitor.next m op answer).pending) := by
    intro hm hm' hshared
    rw [hm, hm', hsame, hsame']
    exact hshared
  rw [hholding, hpending]
  cases op with
  | ensureReaper =>
    refine hquiet rfl rfl ?_
    simp only [act] at hact
    split at hact
    · cases hact
    · split at hact
      · cases hact
        exact h.accounted.congr rfl rfl rfl rfl rfl
      · cases hact
        exact h.accounted
  | find key =>
    cases hact
    refine hquiet ?_ ?_ h.accounted
    · cases s.shared.sessions.find? key <;> rfl
    · cases s.shared.sessions.find? key <;> rfl
  | spawn =>
    cases choice with
    | true =>
      cases hact
      exact hsame'.symm ▸ h.accounted.spawn (hholds.trans hallows)
    | false =>
      cases hact
      refine hquiet ?_ rfl h.accounted
      exact (hallows : m.holding = none).symm
  | retireNew session =>
    cases hact
    exact hsame'.symm ▸ h.accounted.retireNew (hholds.trans hallows)
  | emplace key session =>
    cases hact
    exact hsame'.symm ▸ h.accounted.emplace (hholds.trans hallows) key
  | retireFound key expected =>
    cases hact
    exact hquiet rfl rfl (h.accounted.retireFound key expected)
  | retire key =>
    cases hact
    exact hquiet rfl rfl (h.accounted.retire key)
  | swapRetired =>
    cases hact
    exact hsame.symm ▸ h.accounted.swapRetired t
  | swapAll =>
    cases hact
    exact hsame.symm ▸ h.accounted.swapAll t
  | cleanup handOver session =>
    cases hact
    obtain ⟨rest, hrest⟩ := hallows
    have hnext : (monitor.next m (.cleanup handOver session) ()).pending =
        some (handOver, rest) := by
      change m.pending.map _ = _
      rw [hrest]
      rfl
    rw [hnext]
    exact hsame.symm ▸ h.accounted.cleanup (hpends.trans hrest)
  | isRunning _ | isIdle _ | stopped | requestTermination _ | execute _ | snapshot =>
    cases hact
    exact hquiet rfl rfl h.accounted
  | unlockCleanup | unlockLifecycle =>
    cases hact
    exact hquiet rfl rfl (h.accounted.congr rfl rfl rfl rfl rfl)
  | lockCleanup | lockLifecycle =>
    refine hquiet rfl rfl ?_
    simp only [act] at hact
    split at hact
    · cases hact
    · cases hact
      exact h.accounted.congr rfl rfl rfl rfl rfl
  | joinReaper =>
    refine hquiet rfl rfl ?_
    simp only [act] at hact
    split at hact
    · cases hact
    · cases hact
      exact h.accounted.congr rfl rfl rfl rfl rfl

-- An operation either has to be made later or is answered at once.
theorem act_ne_unanswered {m m' : Manager} {op : Op} {choice : Choice} :
    act m t op choice ≠ some (m', none) := by
  cases op with
  | ensureReaper | spawn | lockCleanup | lockLifecycle | joinReaper =>
    simp only [act]
    repeat' split
    all_goals exact fun h => nomatch h
  | _ => exact fun h => nomatch h

theorem accounted_of_begins {m m' : Manager} {call : Call} {held : ℕ → Option ℕ}
    {left : ℕ → Option (ℕ × List ℕ)} (h : Accounted m held left)
    (hbegins : begins m t call = some m') : Accounted m' held left := by
  cases call with
  | reap =>
    simp only [begins] at hbegins
    split at hbegins
    · cases hbegins
      exact h.congr rfl rfl rfl rfl rfl
    · cases hbegins
  | _ =>
    cases hbegins
    exact h

theorem accounted_of_ends {m : Manager} {held : ℕ → Option ℕ} {left : ℕ → Option (ℕ × List ℕ)}
    (h : Accounted m held left) : Accounted (ends m t) held left := by
  unfold ends
  split
  · exact h.congr rfl rfl rfl rfl rfl
  · exact h

theorem Inv.of_step {i : Move Call Choice} (h : Inv s) (hstep : step system s i = some s') :
    Inv s' := by
  refine ⟨h.follows.of_step conduct_governs hstep, ?_⟩
  cases Discipline.moves_of_step h.follows hstep with
  | begins hbegins =>
    rw [holding, pending, Discipline.view_begun h.follows rfl, Discipline.view_begun h.follows rfl]
    exact accounted_of_begins h.accounted hbegins
  | answers hstage hallows hact hrunning => exact accounted_of_answers h hstage hallows hact _
  | waits hstage hallows hact hrunning => exact absurd hact act_ne_unanswered
  | ends hstage hpost =>
    rw [holding, pending, Discipline.view_ends, Discipline.view_ends]
    exact accounted_of_ends h.accounted
  | hangsUp hstage hhangs hrunning => cases hhangs

theorem Inv.of_path {steps : List (Move Call Choice)}
    (hp : Transition.path (step system) State.initial steps = some s) : Inv s :=
  Transition.path_invariant_of_step Inv (fun _ _ _ => Inv.of_step) .initial hp

section Looked

-- The thread has seen the session under the key, by itself or among all entries of the table.
def LookedUp (history : List (ℕ × Event Call Op Op.Answer Empty)) (t : ℕ) (key : SessionKey)
    (session : ℕ) : Prop :=
  (∃ size, (t, .answers (.find key) (some session, size)) ∈ history) ∨
    ∃ entries, (t, .answers .snapshot entries) ∈ history ∧ (key, session) ∈ entries

theorem LookedUp.mono {history : List (ℕ × Event Call Op Op.Answer Empty)} {key : SessionKey}
    {session : ℕ} (h : LookedUp history t key session) (event : ℕ × Event Call Op Op.Answer Empty) :
    LookedUp (event :: history) t key session := by
  rcases h with ⟨size, hmem⟩ | ⟨entries, hmem, hentry⟩
  · exact .inl ⟨size, List.mem_cons_of_mem _ hmem⟩
  · exact .inr ⟨entries, List.mem_cons_of_mem _ hmem, hentry⟩

theorem looked_next {m : Stage} {op : Op} {answer : op.Answer} {entry : SessionKey × ℕ}
    (h : entry ∈ (monitor.next m op answer).looked) :
    entry ∈ m.looked ∨
      (∃ size, (⟨op, answer⟩ : (op : Op) × op.Answer) = ⟨.find entry.1, (some entry.2, size)⟩) ∨
      ∃ entries, (⟨op, answer⟩ : (op : Op) × op.Answer) = ⟨.snapshot, entries⟩ ∧
        entry ∈ entries := by
  cases op with
  | find key =>
    obtain ⟨found, size⟩ := answer
    cases found with
    | none => exact .inl h
    | some session =>
      rcases List.mem_cons.mp h with rfl | hold
      · exact .inr (.inl ⟨size, rfl⟩)
      · exact .inl hold
  | snapshot =>
    rcases List.mem_append.mp h with hentry | hold
    · exact .inr (.inr ⟨answer, rfl, hentry⟩)
    · exact .inl hold
  | _ => exact .inl h

theorem lookedUp_of_stage (history : List (ℕ × Event Call Op Op.Answer Empty)) {m : Stage}
    (hstage : stageIn monitor conduct.start t history = some m) {key : SessionKey} {session : ℕ}
    (h : (key, session) ∈ m.looked) : LookedUp history t key session := by
  induction history generalizing m with
  | nil => cases hstage
  | cons event history ih =>
    obtain ⟨u, event⟩ := event
    by_cases hu : u = t
    · subst hu
      cases event with
      | begins call =>
        have hstart : conduct.start call = m :=
          Option.some.inj ((if_pos rfl).symm.trans hstage)
        subst hstart
        cases h
      | answers op answer =>
        have hmap : (stageIn monitor conduct.start u history).map
            (fun m => monitor.next m op answer) = some m := (if_pos rfl).symm.trans hstage
        obtain ⟨m', hm', rfl⟩ := Option.map_eq_some_iff.mp hmap
        rcases looked_next h with hold | ⟨size, heq⟩ | ⟨entries, heq, hentry⟩
        · exact (ih hm' hold).mono _
        · cases heq
          exact .inl ⟨size, List.mem_cons_self⟩
        · cases heq
          exact .inr ⟨entries, List.mem_cons_self, hentry⟩
      | ends result | hangsUp => exact (ih ((if_pos rfl).symm.trans hstage) h).mono _
    · exact (ih ((if_neg hu).symm.trans hstage) h).mono _

end Looked

section Sound

-- What holds of the manager between any two steps of its callers.
structure Sound (s : State) : Prop where
  bounded : s.shared.sessions.members.length ≤ kMaxSessions
  keyed : (s.shared.sessions.members.map Prod.fst).Nodup
  kept : ∀ session < s.shared.spawned, (∀ t, holding s t ≠ some session) →
    s.shared.stored.count session = 1
  put : ∀ t result, (t, .ends result) ∈ s.history → holding s t = none
  cleaned : s.shared.cleaned.Nodup
  handed : ∀ handOver session, (handOver, session) ∈ s.shared.cleaned →
    ∃ sessions, s.shared.handed[handOver]? = some sessions ∧ session ∈ sessions
  spares : ∀ t key expected, s.asks t = some (.retireFound key expected) →
    LookedUp s.history t key expected ∧ ∀ choice s', step system s (.acts t choice) = some s' →
      ∀ key' session, s.shared.sessions.find? key' = some session → session ≠ expected →
        s'.shared.sessions.find? key' = some session

theorem find?_retireFound {m : Manager} {key key' : SessionKey} {expected session : ℕ}
    (h : m.sessions.find? key' = some session) (hne : session ≠ expected) :
    (m.retireFound key expected).2.sessions.find? key' = some session := by
  unfold Manager.retireFound
  split
  · next hfound =>
    have hkey : key' ≠ key := by
      rintro rfl
      exact hne (Option.some.inj (h.symm.trans hfound))
    exact (Assoc.find?_erase_of_ne hkey).trans h
  · exact h

theorem Inv.sound (h : Inv s) : Sound s where
  bounded := h.accounted.bounded
  keyed := s.shared.sessions.nodup
  kept := fun session hlt hfree => h.accounted.custody.count_eq_one hlt hfree
  put := by
    intro t result hended
    obtain ⟨-, m, hstage, hpost⟩ := h.follows.ended t result hended
    have hnone : m.holding = none := hpost
    have hholding : holding s t = m.holding := congrArg (·.bind Stage.holding) hstage
    exact hholding.trans hnone
  cleaned := h.accounted.cleaning.nodup
  handed := h.accounted.cleaning.mem
  spares := by
    intro t key expected hasks
    obtain ⟨m, hstage, hallows⟩ := Discipline.allows_of_asks h.follows hasks
    refine ⟨lookedUp_of_stage s.history hstage hallows, ?_⟩
    intro choice s' hstep key' session hfind hne
    cases Discipline.moves_of_step h.follows hstep with
    | answers hstage' hallows' hact hrunning =>
      cases (asks_of_running hrunning).symm.trans hasks
      cases hact
      exact find?_retireFound hfind hne
    | waits hstage' hallows' hact hrunning => exact absurd hact act_ne_unanswered

-- However the calls interleave.
theorem sessions_sound {steps : List (Move Call Choice)} {s : State}
    (hp : Transition.path (step system) State.initial steps = some s) : Sound s :=
  (Inv.of_path hp).sound

def started (t : ℕ) (key : SessionKey) : List (Move Call Choice) :=
  [.begins (.start key), .acts t true, .acts t true, .acts t true, .acts t false, .acts t true,
    .ends t]

-- A session goes idle, a second one takes its place, and the reaper puts the first one away.
def replacedAndReaped (key : SessionKey) : List (Move Call Choice) :=
  started 0 key ++ .begins (.execute key) :: List.replicate 4 (.acts 1 true) ++ .ends 1 ::
    started 2 key ++ [.begins .reap, .acts 3 true, .acts 3 false, .acts 3 true] ++
    List.replicate 5 (.acts 3 true) ++ [.ends 3]

theorem sessions_sound_replaced :
    ∃ s, Transition.path (step system) State.initial (replacedAndReaped ⟨-100, 7⟩) = some s ∧
      s.shared.sessions.find? ⟨-100, 7⟩ = some 1 ∧ s.shared.cleaned = [(0, 0)] ∧ Sound s := by
  obtain ⟨s, hpath, hfound, hcleaned⟩ := Transition.exists_path (step system) State.initial
    (replacedAndReaped ⟨-100, 7⟩)
    (fun s => s.shared.sessions.find? ⟨-100, 7⟩ = some 1 ∧ s.shared.cleaned = [(0, 0)])
    (by decide +kernel)
  exact ⟨s, hpath, hfound, hcleaned, sessions_sound hpath⟩

end Sound

end Glider.Ibash
