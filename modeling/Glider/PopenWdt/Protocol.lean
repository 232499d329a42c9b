import Glider.PopenWdt.Reaping

namespace Glider.PopenWdt

open Glider.Lib Glider.Lib.Threads

variable {c c' : Core} {w w' : World} {t : ℕ}

-- What an operation can do that is not answered yet.
theorem waits_of_act {op : Op} {i : ℕ} (h : c.act t op i = some (c', none)) :
    ∃ sleepers, c' = { c with sleepers } ∧
      (sleepers ≠ [] → c.sleepers ≠ [] ∨ c.terminating = true) ∧
      ∀ u ∈ sleepers, u ∈ c.sleepers ∨ u = t ∧ (op = .waitTerminating ∨ op = .waitFinished) := by
  have hwaits {α : Type} {holds wakes : Bool} {answer : α}
      (hop : op = .waitTerminating ∨ op = .waitFinished)
      (hholds : holds = true → c.terminating = true)
      (h : c.waitWhile t holds wakes answer = some (c', none)) :
      ∃ sleepers, c' = { c with sleepers } ∧
        (sleepers ≠ [] → c.sleepers ≠ [] ∨ c.terminating = true) ∧
        ∀ u ∈ sleepers, u ∈ c.sleepers ∨ u = t ∧ (op = .waitTerminating ∨ op = .waitFinished) := by
    unfold Core.waitWhile at h
    split at h
    next hmem =>
      obtain ⟨-, heq⟩ := Option.ite_none_right_eq_some.mp h
      cases heq
      exact ⟨_, rfl, fun _ => .inl (List.ne_nil_of_mem hmem),
        fun u hu => .inl (List.mem_of_mem_erase hu)⟩
    · split at h
      next hterminating =>
        cases h
        refine ⟨_, rfl, fun _ => .inr (hholds hterminating), fun u hu => ?_⟩
        rcases List.mem_cons.mp hu with rfl | hu
        · exact .inr ⟨rfl, hop⟩
        · exact .inl hu
      · cases h
  cases op with
  | waitTerminating =>
    refine hwaits (.inl rfl) (fun hholds => ?_) h
    exact (Bool.and_eq_true_iff.mp (Bool.and_eq_true_iff.mp hholds).1).1
  | waitFinished => exact hwaits (.inr rfl) id h
  | timedwait =>
    simp only [Core.act, Core.timedwait] at h
    split at h
    · cases h
    · cases h
    · split at h
      · cases h
      · cases h
        exact ⟨_, rfl, .inl, fun u hu => .inl hu⟩
  | waitpid nohang =>
    obtain ⟨⟨c'', waited⟩, hc, heq⟩ := Option.map_eq_some_iff.mp h
    cases heq
  | join =>
    obtain ⟨c'', hc, heq⟩ := Option.map_eq_some_iff.mp h
    cases heq
  | quiesce =>
    obtain ⟨-, heq⟩ := Option.ite_none_right_eq_some.mp h
    cases heq
  | _ => cases h

-- What holds in every state that a run leads to.
structure Orderly (w : World) : Prop where
  follows : discipline.Follows w
  sound : Sound w.shared (discipline.stage w)
  terminator : ∀ t m, discipline.stage w t = some m → m.terminator = true → w.running t ≠ none
  watchdog : ∀ t, w.shared.watchdog = some t → (w.shared.ended = true ↔ w.running t = none)
  ended : w.shared.ended = true → w.shared.watchdog ≠ none
  sleepers : ∀ t ∈ w.shared.sleepers,
    w.asks t = some .waitTerminating ∨ w.asks t = some .waitFinished

theorem asks_of_asleep (hfollows : discipline.Follows w) {m : Stage}
    (hstage : discipline.stage w t = some m) (hasleep : m.asleep = true)
    {p : Program Op Op.Answer Empty Unit} (hrunning : w.running t = some p) :
    w.asks t = some .waitFinished := by
  obtain ⟨m', hstage', hmeets⟩ := hfollows.running t p hrunning
  cases hstage.symm.trans hstage'
  cases p with
  | pure a => cases hasleep.symm.trans hmeets.2
  | throw e => exact e.elim
  | call op next =>
    obtain rfl := hmeets.1.1 hasleep
    exact asks_of_running hrunning

-- A thread that has to wait for a termination, or one that waits already and has not been answered.
theorem sleepers_of_acts {op : Op} {answer : op.Answer} (m : Stage) (hacts : Acts c t op c' answer)
    {u : ℕ} (hu : u ∈ c'.sleepers) :
    u ∈ c.sleepers ∧ (u = t → op ≠ .waitTerminating ∧ op ≠ .waitFinished) ∨
      u = t ∧ (m.next op answer).asleep = true := by
  cases hacts with
  | requestsBusy hterminating =>
    rcases List.mem_cons.mp hu with rfl | hu
    · exact .inr ⟨rfl, rfl⟩
    · exact .inl ⟨hu, fun _ => ⟨nofun, nofun⟩⟩
  | waitsTerminating hnot | waitsFinished hnot => exact .inl ⟨hu, fun heq => absurd (heq ▸ hu) hnot⟩
  | records | releases | abandons | requests | finishes | broadcasts => cases hu
  | looks hop =>
    refine .inl ⟨hu, fun _ => ?_⟩
    cases op <;> first | exact hop.elim | exact ⟨nofun, nofun⟩
  | _ => exact .inl ⟨hu, fun _ => ⟨nofun, nofun⟩⟩

theorem ended_of_acts {op : Op} {answer : op.Answer} (hacts : Acts c t op c' answer) :
    c'.ended = c.ended ∧ c'.watchdog = c.watchdog := by
  cases hacts <;> exact ⟨rfl, rfl⟩

namespace Orderly

theorem initial (watchdogEnabled : Bool) :
    Orderly (Threads.initial (Core.start watchdogEnabled)) := by
  have hno : ∀ {t : ℕ} {m : Stage},
      discipline.stage (Threads.initial (Core.start watchdogEnabled) : World) t ≠ some m :=
    fun heq => Option.some_ne_none _ heq.symm
  refine ⟨Discipline.Follows.initial _, ⟨⟨?_, nofun, nofun, ?_⟩, ⟨?_, nofun⟩, ⟨?_, nofun⟩,
    ⟨nofun, ?_, ?_⟩, ⟨nofun, ?_, nofun, nofun⟩⟩, ?_, nofun, nofun, nofun⟩
  · exact fun t m hm => absurd hm hno
  · exact fun t u m m' hm => absurd hm hno
  · exact fun t m status hm => absurd hm hno
  · exact fun t m hm => absurd hm hno
  · exact fun h => absurd rfl h
  · exact fun t m hm => absurd hm hno
  · exact fun t m hm => absurd hm hno
  · exact fun t m hm => absurd hm hno

theorem begins (h : Orderly w) {call : Call} {shared : Core}
    (hbegins : w.shared.begins w.started call = some shared)
    (hfollows : discipline.Follows (w.begun call call.program shared)) :
    Orderly (w.begun call call.program shared) := by
  have hnew := h.follows.fresh w.started (Nat.le_refl _)
  have hsame : shared.ended = w.shared.ended ∧ shared.sleepers = w.shared.sleepers ∧
      ∀ t, shared.watchdog = some t → w.shared.watchdog = some t ∨
        t = w.started ∧ w.shared.watchdog = none := by
    cases call with
    | watchdog =>
      obtain ⟨hnone, heq⟩ := Option.ite_none_right_eq_some.mp hbegins
      cases heq
      exact ⟨rfl, rfl, fun t ht => .inr ⟨(Option.some.inj ht).symm, hnone.2⟩⟩
    | cancel | leave | reuse =>
      obtain ⟨-, heq⟩ := Option.ite_none_left_eq_some.mp hbegins
      cases heq
      exact ⟨rfl, rfl, fun _ => .inl⟩
    | own | detachedReaper | exit | fork =>
      obtain ⟨-, heq⟩ := Option.ite_none_right_eq_some.mp hbegins
      cases heq
      exact ⟨rfl, rfl, fun _ => .inl⟩
  obtain ⟨hended, hsleepers, hwatchdog⟩ := hsame
  refine ⟨hfollows, ?_, fun t m hm hterminator => ?_, fun t ht => ?_, fun hc => ?_, fun t ht => ?_⟩
  · rw [Discipline.stages_begun]
    exact h.sound.begins hnew.2 hbegins
  · rcases Discipline.came_of_begun hm with ⟨rfl, rfl⟩ | ⟨hne, hold⟩
    · cases call <;> cases hterminator
    · rw [Discipline.running_begun_of_ne hne]
      exact h.terminator t m hold hterminator
  · rcases hwatchdog t ht with hold | ⟨rfl, hnone⟩
    · have hne : t ≠ w.started := by
        rintro rfl
        obtain ⟨m, hm, -⟩ := h.sound.watched.watchdog _ hold
        cases hnew.2.symm.trans hm
      rw [Discipline.running_begun_of_ne hne]
      exact hended ▸ h.watchdog t hold
    · refine iff_of_false (fun hc => h.ended (hended ▸ hc) hnone) fun hrunning => ?_
      cases Discipline.running_begun .. ▸ hrunning
  · intro hnone
    have hold := h.ended (hended ▸ hc)
    cases call with
    | watchdog =>
      obtain ⟨-, heq⟩ := Option.ite_none_right_eq_some.mp hbegins
      cases heq
      cases hnone
    | cancel | leave | reuse =>
      obtain ⟨-, heq⟩ := Option.ite_none_left_eq_some.mp hbegins
      cases heq
      exact hold hnone
    | own | detachedReaper | exit | fork =>
      obtain ⟨-, heq⟩ := Option.ite_none_right_eq_some.mp hbegins
      cases heq
      exact hold hnone
  · have hold := h.sleepers t (hsleepers ▸ ht)
    have hne : t ≠ w.started := by
      rintro rfl
      have hasks : w.asks w.started = none := by
        rw [Threads.asks, hnew.1]
        rfl
      rw [hasks] at hold
      rcases hold with heq | heq <;> cases heq
    rw [asks_congr (Discipline.running_begun_of_ne hne ..)]
    exact hold

theorem answers (h : Orderly w) {op : Op} {next : op.Answer → Program Op Op.Answer Empty Unit}
    {shared : Core} {answer : op.Answer} {m : Stage} (hstage : discipline.stage w t = some m)
    (hallows : discipline.monitor.allows m op) (hacts : Acts w.shared t op shared answer)
    (hrunning : w.running t = some (.call op next))
    (hfollows : discipline.Follows (w.record t (.answers op answer) (some (next answer)) shared)) :
    Orderly (w.record t (.answers op answer) (some (next answer)) shared) := by
  obtain ⟨hended, hwatchdog⟩ := ended_of_acts hacts
  refine ⟨hfollows, ?_, fun u m' hm hterminator => ?_, fun u hu => ?_, fun hc => ?_, fun u hu => ?_⟩
  · rw [Discipline.stages_answers hstage]
    exact h.sound.next hstage hallows.2 hacts
  · rcases Discipline.came_of_answers hstage hm with ⟨rfl, -⟩ | ⟨hne, hold⟩
    · rw [Discipline.running_record]
      exact Option.some_ne_none _
    · rw [Discipline.running_record_of_ne hne]
      exact h.terminator u m' hold hterminator
  · have hold := h.watchdog u (hwatchdog ▸ hu)
    rw [show (w.record t (.answers op answer) (some (next answer)) shared).shared.ended =
      w.shared.ended from hended, hold]
    obtain rfl | hne := eq_or_ne u t
    · rw [Discipline.running_record, hrunning]
      exact iff_of_false (Option.some_ne_none _) (Option.some_ne_none _)
    · rw [Discipline.running_record_of_ne hne]
  · exact fun hnone => h.ended (hended ▸ hc) (hwatchdog ▸ hnone)
  · rcases sleepers_of_acts m hacts hu with ⟨hold, hop⟩ | ⟨rfl, hasleep⟩
    · have hasks := h.sleepers u hold
      have hne : u ≠ t := by
        intro heq
        obtain ⟨hne₁, hne₂⟩ := hop heq
        rw [heq, asks_of_running hrunning] at hasks
        rcases hasks with heq | heq
        · exact hne₁ (Option.some.inj heq)
        · exact hne₂ (Option.some.inj heq)
      rw [asks_congr (Discipline.running_record_of_ne hne)]
      exact hasks
    · exact .inr (asks_of_asleep hfollows (Discipline.stage_answers hstage ..) hasleep
        Discipline.running_record)

theorem of_step (h : Orderly w) {i : Move Call ℕ} (hstep : step system w i = some w') :
    Orderly w' := by
  have hfollows := h.follows.of_step governs hstep
  cases Discipline.moves_of_step h.follows hstep with
  | begins hbegins => exact h.begins hbegins hfollows
  | answers hstage hallows hact hrunning =>
    exact h.answers hstage hallows (acts_of_act hact) hrunning hfollows
  | waits hstage hallows hact hrunning =>
    rename_i t i op shared m
    obtain ⟨sleepers, rfl, hterminating, hmem⟩ := waits_of_act hact
    obtain ⟨next, hrunning⟩ := hrunning
    refine ⟨hfollows, h.sound.of_sleepers fun hne => ?_, h.terminator, h.watchdog, h.ended,
      fun u hu => ?_⟩
    · exact (hterminating hne).elim h.sound.terminating.sleepers id
    · have hasks : w.asks t = some op := asks_of_running hrunning
      rcases hmem u hu with hold | ⟨rfl, rfl | rfl⟩
      · exact h.sleepers u hold
      · exact .inl hasks
      · exact .inr hasks
  | ends hstage hpost =>
    rename_i t result m
    have hstages : discipline.stage (w.record t (.ends result) none (w.shared.ends t)) =
        discipline.stage w := funext fun u => Discipline.stage_ends ..
    refine ⟨hfollows, ?_, fun u m' hm hterminator => ?_, fun u hu => ?_, fun hc => ?_,
      fun u hu => ?_⟩
    · have hsound := h.sound.ends t
      rw [← hstages] at hsound
      exact hsound
    · have hold : discipline.stage w u = some m' := (congrFun hstages u).symm.trans hm
      have hne : u ≠ t := by
        rintro rfl
        obtain rfl := Option.some.inj (hstage.symm.trans hold)
        cases hpost.1.symm.trans hterminator
      rw [Discipline.running_record_of_ne hne]
      exact h.terminator u m' hold hterminator
    · have hu : w.shared.watchdog = some u := hu
      have hold := h.watchdog u hu
      have hended : (w.shared.ends t).ended = true ↔ w.shared.ended = true ∨ u = t := by
        refine Bool.or_eq_true_iff.trans (or_congr Iff.rfl (decide_eq_true_iff.trans ?_))
        rw [hu, Option.some.injEq]
      refine hended.trans ?_
      obtain rfl | hne := eq_or_ne u t
      · exact iff_of_true (.inr rfl) Discipline.running_record
      · rw [Discipline.running_record_of_ne hne, ← hold, or_iff_left hne]
    · intro hnone
      have hnone : w.shared.watchdog = none := hnone
      rcases Bool.or_eq_true_iff.mp hc with hold | hself
      · exact h.ended hold hnone
      · cases hnone.symm.trans (of_decide_eq_true hself)
    · have hasks := h.sleepers u hu
      have hne : u ≠ t := by
        rintro rfl
        rw [asks_of_ends hstep] at hasks
        rcases hasks with heq | heq <;> cases heq
      rw [asks_congr (Discipline.running_record_of_ne hne)]
      exact hasks
  | hangsUp hstage hhangs hrunning => cases hhangs

theorem of_path {watchdogEnabled : Bool} {steps : List (Move Call ℕ)}
    (hpath : Transition.path (step system) (Threads.initial (Core.start watchdogEnabled)) steps =
      some w) : Orderly w :=
  Transition.path_invariant_of_step Orderly (fun _ _ _ h hstep => h.of_step hstep)
    (.initial watchdogEnabled) hpath

theorem allows (h : Orderly w) {op : Op} (hasks : w.asks t = some op) :
    ∃ m, discipline.stage w t = some m ∧ m.Allows op := by
  obtain ⟨m, hstage, -, hallows⟩ := Discipline.allows_of_asks h.follows hasks
  exact ⟨m, hstage, hallows⟩

theorem hold_of_waitpid (h : Orderly w) {nohang : Bool}
    (hasks : w.asks t = some (.waitpid nohang)) :
    ∃ m, discipline.stage w t = some m ∧ m.hold ≠ .nothing := by
  obtain ⟨m, hstage, hallows⟩ := h.allows hasks
  refine ⟨m, hstage, ?_⟩
  cases nohang with
  | true => exact hallows.1 ▸ nofun
  | false => exact hallows.2.1 ▸ nofun

end Orderly

-- A thread waits without a timeout: on the condition, or for the end of the watchdog.
def Waits (w : World) (t : ℕ) : Prop :=
  t ∈ w.shared.sleepers ∨ w.asks t = some .join ∧ w.shared.join = none

-- The watchdog or a call of `popen_watchdog_cancel` that is under way can take a step, or the
-- watchdog that has been created can begin.
def GoesOn (w : World) (t : ℕ) : Prop :=
  ∃ i w' event, step system w i = some w' ∧ w'.history = (t, event) :: w.history ∧
    (event = .begins .watchdog ∨ w.running t ≠ none ∧
      ((t, .begins .watchdog) ∈ w.history ∨ (t, .begins .cancel) ∈ w.history))

-- What a thread that terminates the command does next, it can do.
theorem exists_act (c : Core) (t : ℕ) {m : Stage} {op : Op} (hallows : m.Allows op)
    (hm : m.role = .watchdog ∨ m.terminator = true) :
    ∃ i c' answer, c.act t op i = some (c', some answer) := by
  have hnot (role : Role) (hrole : role ≠ .watchdog) :
      ¬(m.role = role ∧ m.terminator = false) := by
    rintro ⟨hrole', hterminator⟩
    rcases hm with hm | hm
    · exact hrole (hrole'.symm.trans hm)
    · cases hterminator.symm.trans hm
  cases op with
  | waitpid nohang =>
    cases nohang with
    | true =>
      unfold Core.act Core.waitpid
      cases c.child <;> exact ⟨0, _, _, rfl⟩
    | false => exact absurd ⟨hallows.1, hallows.2.2⟩ (hnot .detachedReaper nofun)
  | waitFinished => exact absurd hallows (hnot .cancel nofun)
  | waitTerminating | asleep | join | quiesce => exact absurd hallows (hnot .owner nofun)
  | _ => exact ⟨0, _, _, rfl⟩

theorem Orderly.goesOn (h : Orderly w) {m : Stage} (hstage : discipline.stage w t = some m)
    (hm : m.role = .watchdog ∨ m.terminator = true) (hrunning : w.running t ≠ none) :
    GoesOn w t := by
  have hrole : m.role = .watchdog ∨ m.role = .cancel := by
    rcases hm with hm | hm
    · exact .inl hm
    · exact h.sound.terminating.role t m hstage hm
  obtain ⟨call, hmem, hcall⟩ : ∃ call, (t, .begins call) ∈ w.history ∧ m.role = call.role := by
    refine @Discipline.begun_of_stage _ _ _ _ _ _ discipline _ (fun call m => m.role = call.role)
      (fun call => ?_) (fun call m op answer hm => ?_) _ _ hstage
    · cases call <;> rfl
    · rw [← hm]
      cases op with
      | waitpid | timedwait | requestCancel => cases answer <;> rfl
      | _ => rfl
  have hbegun : (t, .begins .watchdog) ∈ w.history ∨ (t, .begins .cancel) ∈ w.history := by
    cases call with
    | watchdog => exact .inl hmem
    | cancel => exact .inr hmem
    | own | detachedReaper | exit | fork | leave | reuse =>
      rcases hrole with hrole | hrole <;> cases hcall.symm.trans hrole
  obtain ⟨p, hp⟩ := Option.ne_none_iff_exists'.mp hrunning
  obtain ⟨m', hstage', hmeets⟩ := h.follows.running t p hp
  obtain rfl := Option.some.inj (hstage.symm.trans hstage')
  cases p with
  | pure a =>
    refine ⟨.ends t, w.record t (.ends (.ok ())) none (system.ends w.shared t), _, ?_, rfl,
      .inr ⟨hrunning, hbegun⟩⟩
    simp only [step, hp]
  | throw e => exact e.elim
  | call op next =>
    obtain ⟨i, c', answer, hact⟩ := exists_act w.shared t hmeets.1.2 hm
    refine ⟨.acts t i, w.record t (.answers op answer) (some (next answer)) c', _, ?_, rfl,
      .inr ⟨hrunning, hbegun⟩⟩
    have hact : system.act w.shared t op i = some (c', some answer) := hact
    simp only [step, hp, hact, Option.map_some]

-- Whoever waits without a timeout waits for a thread that can take a step.
theorem Orderly.exists_goesOn (h : Orderly w) (hwaits : Waits w t) : ∃ u ≠ t, GoesOn w u := by
  rcases hwaits with hsleeps | ⟨hasks, hjoin⟩
  · obtain ⟨u, m, hstage, hm⟩ := h.sound.terminating.exists_terminator
      (h.sound.terminating.sleepers (List.ne_nil_of_mem hsleeps))
    refine ⟨u, ?_, h.goesOn hstage (.inr hm) (h.terminator u m hstage hm)⟩
    rintro rfl
    have hterminator : m.terminator = false := by
      rcases h.sleepers u hsleeps with hasks | hasks <;>
        (obtain ⟨m', hstage', hallows⟩ := h.allows hasks
         obtain rfl := Option.some.inj (hstage.symm.trans hstage')
         exact hallows.2)
    cases hterminator.symm.trans hm
  · obtain ⟨m, hstage, hrole, -⟩ := h.allows hasks
    have hnot : w.shared.watchdogStarted = true ∧ w.shared.ended = false := by
      unfold Core.join at hjoin
      split at hjoin
      next hstarted =>
        refine ⟨(Bool.and_eq_true_iff.mp hstarted).1, ?_⟩
        split at hjoin
        · cases hjoin
        next hended => exact Bool.eq_false_iff.mpr hended
      · cases hjoin
    cases hwatchdog : w.shared.watchdog with
    | none =>
      -- the watchdog has yet to begin
      refine ⟨w.started, ?_, .begins .watchdog, w.begun .watchdog (system.program .watchdog)
        { w.shared with watchdog := some w.started }, _, ?_, rfl, .inl rfl⟩
      · exact (Nat.ne_of_lt (h.follows.stage_lt hstage)).symm
      · have hbegins : system.begins w.shared w.started .watchdog =
            some { w.shared with watchdog := some w.started } := if_pos ⟨hnot.1, hwatchdog⟩
        simp only [step, hbegins, Option.map_some]
    | some u =>
      obtain ⟨m', hstage', hrole'⟩ := h.sound.watched.watchdog u hwatchdog
      refine ⟨u, ?_, h.goesOn hstage' (.inl hrole') fun hnone => ?_⟩
      · rintro rfl
        obtain rfl := Option.some.inj (hstage.symm.trans hstage')
        cases hrole.symm.trans hrole'
      · cases hnot.2.symm.trans ((h.watchdog u hwatchdog).mpr hnone)

-- A call of `waitpid` that has returned the child.
def reaps : ℕ × Event Call Op Op.Answer Empty → Bool
  | (_, .answers (.waitpid _) (.changed _)) => true
  | _ => false

theorem child_of_acts {op : Op} {answer : op.Answer} (hacts : Acts c t op c' answer) :
    reaps (t, .answers op answer) = false ∧ c'.child = c.child ∨
      reaps (t, .answers op answer) = true ∧
        ∃ status, c.child = .exited status ∧ c'.child = .reaped status := by
  cases hacts with
  | reaps nohang h => exact .inr ⟨rfl, _, h, rfl⟩
  | reapsNot nohang h =>
    rename_i waited
    cases waited with
    | changed status => exact absurd rfl (h status)
    | _ => exact .inl ⟨rfl, rfl⟩
  | looks hop => cases op <;> first | exact hop.elim | exact .inl ⟨rfl, rfl⟩
  | _ => exact .inl ⟨rfl, rfl⟩

def Child.reapings : Child → ℕ
  | .reaped _ => 1
  | _ => 0

def Child.Exits (child : Child) (status : ℕ) : Prop :=
  child = .exited status ∨ child = .reaped status

-- What a history tells of the child.
structure Told (child : Child) (history : List (ℕ × Event Call Op Op.Answer Empty)) : Prop where
  reapings : history.countP reaps = child.reapings
  exits : ∀ status, child.Exits status → ∃ t, (t, .begins (.exit status)) ∈ history

section Told

variable {child child' : Child} {history : List (ℕ × Event Call Op Op.Answer Empty)}
  {event : ℕ × Event Call Op Op.Answer Empty} {status : ℕ}

theorem Told.cons (h : Told child history) (hreaps : reaps event = false) :
    Told child (event :: history) where
  reapings := (List.countP_cons_of_neg (Bool.eq_false_iff.mp hreaps)).trans h.reapings
  exits status hexits := by
    obtain ⟨u, hu⟩ := h.exits status hexits
    exact ⟨u, List.mem_cons_of_mem _ hu⟩

theorem Told.exit (h : Told .running history) (t status : ℕ) :
    Told (.exited status) ((t, .begins (.exit status)) :: history) where
  reapings := (List.countP_cons_of_neg Bool.false_ne_true).trans h.reapings
  exits status' hexits := by
    rcases hexits with heq | heq <;> cases heq
    exact ⟨t, List.mem_cons_self⟩

theorem Told.reap (h : Told (.exited status) history) (hreaps : reaps event = true) :
    Told (.reaped status) (event :: history) where
  reapings := (List.countP_cons_of_pos hreaps).trans (congrArg (· + 1) h.reapings)
  exits status' hexits := by
    rcases hexits with heq | heq <;> cases heq
    obtain ⟨u, hu⟩ := h.exits status (.inl rfl)
    exact ⟨u, List.mem_cons_of_mem _ hu⟩

end Told

theorem told_of_step (hfollows : discipline.Follows w) (h : Told w.shared.child w.history)
    {i : Move Call ℕ} (hstep : step system w i = some w') : Told w'.shared.child w'.history := by
  cases Discipline.moves_of_step hfollows hstep with
  | begins hbegins =>
    rename_i call shared
    cases call with
    | exit status =>
      obtain ⟨hrunning, heq⟩ := Option.ite_none_right_eq_some.mp hbegins
      cases heq
      rw [hrunning] at h
      exact h.exit w.started status
    | cancel | leave | reuse =>
      obtain ⟨-, heq⟩ := Option.ite_none_left_eq_some.mp hbegins
      cases heq
      exact h.cons rfl
    | watchdog | own | detachedReaper | fork =>
      obtain ⟨-, heq⟩ := Option.ite_none_right_eq_some.mp hbegins
      cases heq
      exact h.cons rfl
  | answers hstage hallows hact hrunning =>
    rename_i t i op next shared answer m
    change Told shared.child ((t, .answers op answer) :: w.history)
    rcases child_of_acts (acts_of_act hact) with
      ⟨hreaps, hchild⟩ | ⟨hreaps, status, hexited, hreaped⟩
    · rw [hchild]
      exact h.cons hreaps
    · rw [hexited] at h
      rw [hreaped]
      exact h.reap hreaps
  | waits hstage hallows hact hrunning =>
    obtain ⟨sleepers, rfl, -⟩ := waits_of_act hact
    exact h
  | ends hstage hpost => exact h.cons rfl
  | hangsUp hstage hhangs hrunning => cases hhangs

theorem Told.countP_le {child : Child} {history : List (ℕ × Event Call Op Op.Answer Empty)}
    (h : Told child history) : history.countP reaps ≤ 1 := by
  rw [h.reapings]
  cases child with
  | reaped status => exact Nat.le_refl 1
  | _ => exact Nat.zero_le 1

-- A recorded status.
def Core.Records (c : Core) (status : ℕ) : Prop := c.childReaped = true ∧ c.status = status

theorem records_of_acts {op : Op} {answer : op.Answer} (hacts : Acts c t op c' answer) {status : ℕ}
    (h : c.Records status) : c'.Records status := by
  cases hacts with
  | records status' => exact ⟨rfl, (if_pos h.1).trans h.2⟩
  | _ => exact h

theorem records_of_step (hfollows : discipline.Follows w) {status : ℕ}
    (h : w.shared.Records status) {i : Move Call ℕ} (hstep : step system w i = some w') :
    w'.shared.Records status := by
  cases Discipline.moves_of_step hfollows hstep with
  | begins hbegins =>
    rename_i call shared
    cases call with
    | cancel | leave | reuse =>
      obtain ⟨-, heq⟩ := Option.ite_none_left_eq_some.mp hbegins
      cases heq
      exact h
    | watchdog | own | detachedReaper | exit | fork =>
      obtain ⟨-, heq⟩ := Option.ite_none_right_eq_some.mp hbegins
      cases heq
      exact h
  | answers hstage hallows hact hrunning => exact records_of_acts (acts_of_act hact) h
  | waits hstage hallows hact hrunning =>
    obtain ⟨sleepers, rfl, -⟩ := waits_of_act hact
    exact h
  | ends hstage hpost => exact h
  | hangsUp hstage hhangs hrunning => cases hhangs

theorem Orderly.records_of_path (h : Orderly w) {status : ℕ} (hrecords : w.shared.Records status)
    {steps : List (Move Call ℕ)} (hpath : Transition.path (step system) w steps = some w') :
    w'.shared.Records status :=
  (Transition.path_invariant_of_step (fun w => Orderly w ∧ w.shared.Records status)
    (fun _ _ _ h hstep => ⟨h.1.of_step hstep, records_of_step h.1.follows h.2 hstep⟩)
    ⟨h, hrecords⟩ hpath).2

-- In every run one thread at most is in `waitpid`, which succeeds once at most; a recorded status
-- is the one that the child exited with, for good; whoever waits without a timeout waits for a
-- thread that can take a step; and the data is freed after the watchdog has ended.
theorem reaping_sound (watchdogEnabled : Bool) (steps : List (Move Call ℕ)) (w : World)
    (hpath : Transition.path (step system) (Threads.initial (Core.start watchdogEnabled)) steps =
      some w) :
    (∀ t u nohang nohang', w.asks t = some (.waitpid nohang) →
      w.asks u = some (.waitpid nohang') → t = u) ∧
    w.history.countP reaps ≤ 1 ∧
    (∀ status, w.shared.Records status → (∃ t, (t, .begins (.exit status)) ∈ w.history) ∧
      ∀ steps' w', Transition.path (step system) w steps' = some w' → w'.shared.Records status) ∧
    (∀ t, Waits w t → ∃ u ≠ t, GoesOn w u) ∧
    (w.shared.freed = true → w.shared.watchdogStarted = true →
      ∃ t, w.shared.watchdog = some t ∧ w.running t = none) := by
  have h := Orderly.of_path hpath
  have htold : Told w.shared.child w.history :=
    (Transition.path_invariant_of_step (fun w => Orderly w ∧ Told w.shared.child w.history)
      (fun _ _ _ h hstep => ⟨h.1.of_step hstep, told_of_step h.1.follows h.2 hstep⟩)
      ⟨.initial watchdogEnabled, rfl, fun _ hexits => by rcases hexits with heq | heq <;> cases heq⟩
      hpath).2
  refine ⟨fun t u nohang nohang' ht hu => ?_, htold.countP_le, fun status hrecords => ⟨?_, ?_⟩,
    fun t => h.exists_goesOn, fun hfreed hstarted => ?_⟩
  · obtain ⟨m, hstage, hm⟩ := h.hold_of_waitpid ht
    obtain ⟨m', hstage', hm'⟩ := h.hold_of_waitpid hu
    exact h.sound.reapers.one t u m m' hstage hstage' hm hm'
  · exact htold.exits status (.inr (hrecords.2 ▸ h.sound.recorded.recorded hrecords.1))
  · exact fun steps' w' => h.records_of_path hrecords
  · have hended := h.sound.watched.freed hfreed hstarted
    obtain ⟨t, ht⟩ := Option.ne_none_iff_exists'.mp (h.ended hended)
    exact ⟨t, ht, (h.watchdog t ht).mp hended⟩

-- The command is terminated after its time is up, and its owner waits for that.
def timedOut : List (Move Call ℕ) :=
  [.begins (.own 1), .begins .watchdog, .acts 0 1, .acts 1 0, .acts 1 0, .acts 0 0]

theorem reaping_sound_timed_out :
    ∃ w, Transition.path (step system) (Threads.initial (Core.start true)) timedOut = some w ∧
      Waits w 0 ∧ ∃ u ≠ 0, GoesOn w u :=
  ⟨_, rfl, .inl (by decide), (reaping_sound true timedOut _ rfl).2.2.2.1 0 (.inl (by decide))⟩

-- A thread is about to send a signal that is not the null signal.
def sends (w : World) (t : ℕ) : Bool :=
  match w.asks t with
  | some (.killpg signal) | some (.kill signal) => signal != 0
  | _ => false

-- A thread that has claimed the reaping and has not reaped.
def claims (w : World) (t : ℕ) : Bool := (discipline.stage w t).any (·.hold = .reaper)

-- A signal is sent by a thread that has the claim, or while the command or its group is there.
def Timely (w : World) : Move Call ℕ → Prop
  | .acts t _ => sends w t = true → claims w t = true ∨ w.shared.Present
  | _ => True

instance (w : World) (i : Move Call ℕ) : Decidable (Timely w i) :=
  match i with
  | .acts t _ =>
    inferInstanceAs (Decidable (sends w t = true → claims w t = true ∨ w.shared.Present))
  | .begins _ | .ends _ | .hangsUp _ => .isTrue trivial

theorem Orderly.present_of_claims (h : Orderly w) (hsends : sends w t = true)
    (hclaims : claims w t = true) : w.shared.Present := by
  rw [claims, Option.any_eq_true] at hclaims
  obtain ⟨m, hstage, hhold⟩ := hclaims
  have hstatus : m.status = none := by
    unfold sends at hsends
    split at hsends
    next signal hasks =>
      obtain ⟨m', hstage', hallows⟩ := h.allows hasks
      exact Option.some.inj (hstage.symm.trans hstage') ▸ hallows
    next signal hasks =>
      obtain ⟨m', hstage', hallows⟩ := h.allows hasks
      exact Option.some.inj (hstage.symm.trans hstage') ▸ hallows
    · cases hsends
  exact .inl (h.sound.claimed.unreaped t m hstage (of_decide_eq_true hhold) hstatus)

-- A stranger has the id only when the command and its group are gone, and none has been struck.
structure Own (c : Core) : Prop where
  gone : c.reused = true → ¬c.Present
  struck : c.struck = false

theorem Own.of_acts {op : Op} {answer : op.Answer} (h : Own c) (hacts : Acts c t op c' answer)
    (hsends : ∀ signal, signal ≠ 0 → op = .killpg signal ∨ op = .kill signal → c.Present) :
    Own c' := by
  have hsignal (signal : ℕ) (result : Sent) (hpresent : signal ≠ 0 → c.Present) :
      Own (c.signal signal result) := by
    refine ⟨h.gone, ?_⟩
    change (c.struck || (c.reused && signal != 0 && result == .sent)) = false
    rw [h.struck, Bool.false_or]
    obtain rfl | hsignal := eq_or_ne signal 0
    · cases c.reused <;> rfl
    · have hreused : c.reused = false :=
        Bool.eq_false_iff.mpr fun hreused => h.gone hreused (hpresent hsignal)
      rw [hreused]
      rfl
  cases hacts with
  | reaps nohang hchild =>
    refine ⟨fun hreused => absurd (.inl fun status hreaped => ?_) (h.gone hreused), h.struck⟩
    cases hchild.symm.trans hreaped
  | signalsGroup signal i => exact hsignal _ _ fun hne => hsends signal hne (.inl rfl)
  | signalsLeader signal i => exact hsignal _ _ fun hne => hsends signal hne (.inr rfl)
  | _ => exact ⟨h.gone, h.struck⟩

theorem Own.of_begins {call : Call} (h : Own c) (hbegins : c.begins t call = some c') : Own c' := by
  cases call with
  | exit status =>
    obtain ⟨hrunning, heq⟩ := Option.ite_none_right_eq_some.mp hbegins
    cases heq
    refine ⟨fun hreused => absurd (.inl fun status hreaped => ?_) (h.gone hreused), h.struck⟩
    cases hrunning.symm.trans hreaped
  | fork =>
    obtain ⟨hpresent, heq⟩ := Option.ite_none_right_eq_some.mp hbegins
    cases heq
    refine ⟨fun hreused => absurd ?_ (h.gone hreused), h.struck⟩
    rcases hpresent with hrunning | hmembers
    · exact .inl fun status hreaped => by cases hrunning.symm.trans hreaped
    · exact .inr hmembers
  | leave =>
    obtain ⟨hmembers, heq⟩ := Option.ite_none_left_eq_some.mp hbegins
    cases heq
    exact ⟨fun hreused => absurd (.inr hmembers) (h.gone hreused), h.struck⟩
  | reuse =>
    obtain ⟨hgone, heq⟩ := Option.ite_none_left_eq_some.mp hbegins
    cases heq
    exact ⟨fun _ => hgone, h.struck⟩
  | cancel =>
    obtain ⟨-, heq⟩ := Option.ite_none_left_eq_some.mp hbegins
    cases heq
    exact ⟨h.gone, h.struck⟩
  | watchdog | own | detachedReaper =>
    obtain ⟨-, heq⟩ := Option.ite_none_right_eq_some.mp hbegins
    cases heq
    exact ⟨h.gone, h.struck⟩

theorem Own.of_step (h : Own w.shared) (horderly : Orderly w) {i : Move Call ℕ}
    (htimely : Timely w i) (hstep : step system w i = some w') : Own w'.shared := by
  cases Discipline.moves_of_step horderly.follows hstep with
  | begins hbegins => exact h.of_begins hbegins
  | answers hstage hallows hact hrunning =>
    refine h.of_acts (acts_of_act hact) fun signal hne hop => ?_
    rename_i t i op next shared answer m
    have hsends : sends w t = true := by
      unfold sends
      rw [asks_of_running hrunning]
      rcases hop with rfl | rfl <;> exact bne_iff_ne.mpr hne
    exact (htimely hsends).elim (horderly.present_of_claims hsends) id
  | waits hstage hallows hact hrunning =>
    obtain ⟨sleepers, rfl, -⟩ := waits_of_act hact
    exact ⟨h.gone, h.struck⟩
  | ends hstage hpost => exact ⟨h.gone, h.struck⟩
  | hangsUp hstage hhangs hrunning => cases hhangs

theorem struck_of_reused (hreused : w.shared.reused = true) (hgone : ¬w.shared.Present)
    (hsends : sends w t = true) :
    ∃ w', step system w (.acts t 0) = some w' ∧ w'.shared.struck = true := by
  have hmembers : w.shared.members = 0 := by
    by_contra hmembers
    exact hgone (.inr hmembers)
  obtain ⟨status, hchild⟩ : ∃ status, w.shared.child = .reaped status := by
    by_contra hnone
    exact hgone (.inl (not_exists.mp hnone))
  have hstruck {op : Op} {answer : op.Answer} {signal : ℕ} (hasks : w.asks t = some op)
      (hsignal : (signal != 0) = true)
      (hact : w.shared.act t op 0 = some (w.shared.signal signal .sent, some answer)) :
      ∃ w', step system w (.acts t 0) = some w' ∧ w'.shared.struck = true := by
    obtain ⟨next, hrunning⟩ := running_of_asks hasks
    have hact : system.act w.shared t op 0 =
        some (w.shared.signal signal .sent, some answer) := hact
    refine ⟨w.record t (.answers op answer) (some (next answer))
      (w.shared.signal signal .sent), ?_, ?_⟩
    · simp only [step, hrunning, hact, Option.map_some]
    · change (w.shared.struck || (w.shared.reused && signal != 0 && Sent.sent == .sent)) = true
      rw [hreused, hsignal]
      exact Bool.or_true _
  unfold sends at hsends
  split at hsends
  next signal hasks =>
    have hsent : w.shared.groupSent 0 = .sent := by
      rw [Core.groupSent, if_neg (not_not.mpr hmembers), if_pos (.inr hreused)]
      rfl
    refine @hstruck (.killpg signal) Sent.sent signal hasks hsends ?_
    rw [Core.act, hsent]
  next signal hasks =>
    have hsent : w.shared.leaderSent 0 = .sent := by
      rw [Core.leaderSent, hchild, hreused]
      rfl
    refine @hstruck (.kill signal) Sent.sent signal hasks hsends ?_
    rw [Core.act, hsent]
  · cases hsends

-- When the command and its group are gone, the kernel may give the id away before the signal is
-- sent.
theorem struck_of_gone (hfollows : discipline.Follows w) (hsends : sends w t = true)
    (hgone : ¬w.shared.Present) :
    ∃ w', Transition.path (step system) w [.begins .reuse, .acts t 0] = some w' ∧
      w'.shared.struck = true := by
  have hbegins : system.begins w.shared w.started .reuse = some w.shared.reuse := if_neg hgone
  have hstep : step system w (.begins .reuse) =
      some (w.begun .reuse (system.program .reuse) w.shared.reuse) := by
    simp only [step, hbegins, Option.map_some]
  have hne : t ≠ w.started := by
    rintro rfl
    have hasks : w.asks w.started = none := by
      rw [Threads.asks, (hfollows.fresh _ (Nat.le_refl w.started)).1]
      rfl
    rw [sends, hasks] at hsends
    cases hsends
  have hsends' : sends (w.begun .reuse (system.program .reuse) w.shared.reuse) t = true := by
    rw [sends, asks_congr (Discipline.running_begun_of_ne hne ..)]
    exact hsends
  obtain ⟨w', hacts, hstruck⟩ := struck_of_reused
    (w := w.begun .reuse (system.program .reuse) w.shared.reuse) rfl hgone hsends'
  exact ⟨w', Transition.path_cons_eq_some.mpr
    ⟨_, hstep, Transition.path_cons_eq_some.mpr ⟨w', hacts, rfl⟩⟩, hstruck⟩

-- In a run whose signals are all sent in time, no stranger is sent one; and any other signal may be
-- sent to a stranger.
theorem no_stranger_struck (watchdogEnabled : Bool) :
    (∀ steps, Transition.Guarded (step system) Timely
      (Threads.initial (Core.start watchdogEnabled)) steps → ∀ first, first <+: steps → ∀ w,
        Transition.path (step system) (Threads.initial (Core.start watchdogEnabled)) first =
          some w → w.shared.struck = false) ∧
    ∀ steps w t i,
      Transition.path (step system) (Threads.initial (Core.start watchdogEnabled)) steps = some w →
        ¬Timely w (.acts t i) →
          ∃ w', Transition.path (step system) w [.begins .reuse, .acts t 0] = some w' ∧
            w'.shared.struck = true := by
  refine ⟨fun steps htimely first hfirst w hpath => ?_, fun steps w t i hpath hlate => ?_⟩
  · have hown : Own (Core.start watchdogEnabled) := ⟨nofun, rfl⟩
    exact (Transition.path_invariant (fun w => Orderly w ∧ Own w.shared)
      (fun _ _ _ h htimely hstep => ⟨h.1.of_step hstep, h.2.of_step h.1 htimely hstep⟩)
      ⟨.initial watchdogEnabled, hown⟩ (htimely.of_isPrefix hfirst) hpath).2.struck
  · obtain ⟨hsends, hnot⟩ := Classical.not_imp.mp hlate
    exact struck_of_gone (Orderly.of_path hpath).follows hsends (not_or.mp hnot).2

-- A call of `popen_watchdog_cancel` that has the claim.
def cancelled : List (Move Call ℕ) := [.begins .cancel, .acts 0 0, .acts 0 0, .acts 0 0]

theorem no_stranger_struck_cancelled :
    ∃ w, Transition.path (step system) (Threads.initial (Core.start true)) cancelled = some w ∧
      w.shared.struck = false :=
  ⟨_, rfl, (no_stranger_struck true).1 cancelled (by decide) cancelled (List.prefix_refl _) _ rfl⟩

-- The owner is about to reap when the command is cancelled, and reaps it before the signal is sent.
def lateSignal : List (Move Call ℕ) :=
  [.begins (.own 1), .acts 0 1, .acts 0 0, .acts 0 0, .begins .cancel, .acts 1 0,
    .begins (.exit 0), .acts 0 0, .acts 0 0, .begins .reuse, .acts 1 0, .acts 1 0]

theorem stranger_struck :
    ¬∀ (watchdogEnabled : Bool) (steps : List (Move Call ℕ)) (w : World),
      Transition.path (step system) (Threads.initial (Core.start watchdogEnabled)) steps = some w →
        w.shared.struck = false := by
  intro h
  have hstruck := h true lateSignal _ rfl
  cases hstruck

end Glider.PopenWdt
