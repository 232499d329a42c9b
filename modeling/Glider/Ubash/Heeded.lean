import Glider.Ubash.Flags

namespace Glider.Ubash

open Glider.Lib Glider.Lib.Threads
open Work (Lane Active Phase Task acceptedTasks)

-- The command has begun its submission and has not recorded its job.
def beginsIn (t : ℕ) : Happening → Bool
  | (u, .answers .begin false) => u == t
  | _ => false

def recordsIn (t : ℕ) : Happening → Bool
  | (u, .answers (.record _) _) => u == t
  | _ => false

def InSubmission (t : ℕ) (history : List Happening) : Bool :=
  history.any (beginsIn t) && !history.any (recordsIn t)

-- A cancel command has found the job of the command being submitted.
def FoundSubmitting (t : ℕ) : List Happening → Bool
  | [] => false
  | (_, .answers .find (_, true)) :: older => InSubmission t older || FoundSubmitting t older
  | _ :: older => FoundSubmitting t older

-- The job of the command was rejected, or is over, or was asked to stop.
def Settled (older : List Happening) : Option ℕ → Prop
  | none => True
  | some id => Completed older id ∨ Stopped older id

instance (older : List Happening) : ∀ workId, Decidable (Settled older workId)
  | none => .isTrue trivial
  | some id => inferInstanceAs (Decidable (Completed older id ∨ Stopped older id))

-- A command is done with its job when it has recorded it and has nothing to cancel, or when it has
-- reset what it has cancelled. If a cancel command has found it submitting, its job is settled then.
def Heeded : Happening → List Happening → Prop
  | (t, .answers (.record workId) none), older => FoundSubmitting t older = true → Settled older workId
  | (t, .answers (.reset id) _), older => FoundSubmitting t older = true → Settled older (some id)
  | _, _ => True

-- The closure of the job is being executed.
def Runs (s : State) (a : Active) : Prop := a.phase = .running ∧ s.completed a.task.id = false

instance (s : State) (a : Active) : Decidable (Runs s a) := inferInstanceAs (Decidable (_ ∧ _))

def OneRuns (s : State) : Prop := (s.lane.active.filter fun a => Runs s a).length ≤ 1

def WithinReach (s : State) : Prop :=
  ∀ a ∈ s.lane.active, Runs s a → a.stop = false → s.submitting = true ∨ s.active = some a.task.id

-- The job is in the lane and not over.
def Exists (s : State) (id : ℕ) : Prop :=
  id ∈ s.lane.tasks.map Task.id ∧ s.completed id = false

instance (s : State) (id : ℕ) : Decidable (Exists s id) := inferInstanceAs (Decidable (_ ∧ _))

-- The command has submitted the job, and is done with it.
def DoneWith (history : List Happening) (id : ℕ) : Bool :=
  history.any fun
    | (t, .answers .submitCommandWork (some id')) => id' == id && history.any fun
        | (u, .answers (.record _) none) => u == t
        | (u, .answers (.reset _) _) => u == t
        | _ => false
    | _ => false

def NeverOutlives (w : World) : Prop :=
  ∀ id ∈ w.shared.active, DoneWith w.history id = true → Exists w.shared id

instance (w : World) : Decidable (NeverOutlives w) :=
  inferInstanceAs (Decidable (∀ id ∈ w.shared.active, _))

-- A command has cancelled the job, and its next section resets the recorded id.
def AboutToReset (w : World) (id : ℕ) : Prop :=
  ∃ t, w.asks t = some (.reset id) ∧ ∃ requested,
    (t, .answers (.cancelCommandWork id) requested) ∈ w.history

def Recorded (w : World) : Prop :=
  ∀ id ∈ w.shared.active, Exists w.shared id ∨ AboutToReset w id

abbrev Moves (w : World) (i : Step) (w' : World) : Prop := discipline.Moves system w i w'

-- What the history tells of the flags.
structure Found (w : World) : Prop where
  fresh : ∀ t, stageOf w t = some .submitter → w.history.any (beginsIn t) = false
  requested : ∀ t m, stageOf w t = some m → m.opens = true →
    FoundSubmitting t w.history = true → w.shared.cancellationRequested = true
  settled : ∀ t m id, stageOf w t = some m → m.resets = some id →
    Settled w.history (some id) ∧ ∃ requested,
      (t, .answers (.cancelCommandWork id) requested) ∈ w.history
  heeded : Explained Heeded w.history

section Acts

variable {s s' : State} {op : Op} {accepts : Bool} {answer : op.Answer}

theorem any_beginsIn_of_found {t : ℕ} {history : List Happening}
    (h : FoundSubmitting t history = true) : history.any (beginsIn t) = true := by
  induction history with
  | nil => cases h
  | cons event older ih =>
    rw [List.any_cons]
    have hcases : InSubmission t older = true ∨ FoundSubmitting t older = true := by
      unfold FoundSubmitting at h
      split at h
      · cases h
      next heq =>
        obtain ⟨-, rfl⟩ := List.cons.inj heq
        exact Bool.or_eq_true_iff.mp h
      next heq =>
        obtain ⟨-, rfl⟩ := List.cons.inj heq
        exact .inr h
    have hbegun : older.any (beginsIn t) = true := by
      obtain hin | hfound := hcases
      · exact (Bool.and_eq_true_iff.mp hin).1
      · exact ih hfound
    rw [hbegun, Bool.or_true]

theorem found_cons {t u : ℕ} (hop : op ≠ .find) (history : List Happening) :
    FoundSubmitting t ((u, .answers op answer) :: history) = FoundSubmitting t history := by
  cases op with
  | find => exact absurd rfl hop
  | _ => rfl

theorem requested_of_act (hact : act s op accepts = some (s', some answer))
    (hop : ∀ workId, op ≠ .record workId) (h : s.cancellationRequested = true) :
    s'.cancellationRequested = true := by
  cases op with
  | record workId => exact absurd rfl (hop workId)
  | find =>
    cases hact
    exact Bool.or_eq_true_iff.mpr (.inl h)
  | begin =>
    cases hact
    unfold State.begin
    split <;> exact h
  | submitCommandWork => cases accepts <;> cases hact <;> exact h
  | take =>
    simp only [act] at hact
    split at hact <;> cases hact
    exact h
  | checkDeadline id | checkStop id | complete id | erase id =>
    obtain ⟨lane, -, heq⟩ := Option.map_eq_some_iff.mp hact
    cases heq
    exact h
  | _ =>
    cases hact
    exact h

end Acts

section Steps

variable {w w' : World} {t : ℕ} {op : Op} {accepts : Bool} {answer : op.Answer} {m : Stage}
  {shared : State} {p : Option (Program Op Op.Answer Unit Unit)} {i : Step}

theorem Settled.cons {history : List Happening} {workId : Option ℕ} (h : Settled history workId)
    (event : Happening) : Settled (event :: history) workId := by
  cases workId with
  | none => trivial
  | some id => exact h.imp (fun hover => hover.cons event) fun hstopped => hstopped.cons event

-- A cancellation finds its job in the lane, or the job is settled already.
theorem settled_of_cancel (hf : Fates w) {id : ℕ} (hknown : Known w.shared id)
    (hop : op = .cancelCommandWork id)
    (hact : act w.shared op accepts = some (shared, some answer)) :
    Settled (w.record t (.answers op answer) p shared).history (some id) := by
  obtain ⟨task, htask, rfl⟩ := List.mem_map.mp hknown
  obtain htasks | hover | hstopped := hf.fates task htask
  · have hresult := Lane.cancel_eq_true hf.lane.ok.inv htasks
    rw [(hf.lane.plain task htask).1] at hresult
    exact .inr (stopped_of_cancel hop hact hresult)
  · exact .inl ((hf.completed _ hover).1.cons _)
  · exact .inr (hstopped.cons _)

theorem Found.of_answers (h : Found w) (hf : Fates w) (hflags : Flags w)
    (hstage : stageOf w t = some m) (hallows : Allows m op)
    (hact : act w.shared op accepts = some (shared, some answer)) :
    Found (w.record t (.answers op answer) p shared) where
  fresh u hu := by
    obtain ⟨rfl, hnext⟩ | ⟨hne, hold⟩ := Discipline.came_of_answers hstage hu
    · have hgoes : Goes m op answer .submitter := hnext ▸ goes_of_allows hallows answer
      cases hgoes
    · change ((t, Event.answers op answer) :: w.history).any (beginsIn u) = false
      have hevent : beginsIn u (t, .answers op answer) = false := by
        cases op with
        | begin =>
          cases answer with
          | true => rfl
          | false => exact beq_false_of_ne hne.symm
        | _ => rfl
      rw [List.any_cons, hevent, h.fresh u hold]
      rfl
  requested u m' hu hopen hfound := by
    have hgoes := goes_of_allows hallows answer
    by_cases hfind : op = .find
    · subst hfind
      cases hact
      obtain ⟨rfl, hnext⟩ | ⟨-, hold⟩ := Discipline.came_of_answers hstage hu
      · rw [hnext] at hopen
        obtain ⟨-, hop⟩ | ⟨-, hop, -⟩ := opens_of_goes hgoes hopen
        · cases hop
        · cases hop
      · have hsubmitting := (hflags.opens u m' hold hopen).1
        have hactive := hflags.closed hsubmitting
        change (w.shared.cancellationRequested ||
          (w.shared.submitting && w.shared.active.isNone)) = true
        rw [hsubmitting, hactive]
        exact Bool.or_true _
    · have hbefore : FoundSubmitting u w.history = true := (found_cons hfind _).symm.trans hfound
      obtain ⟨rfl, hnext⟩ | ⟨hne, hold⟩ := Discipline.came_of_answers hstage hu
      · rw [hnext] at hopen
        obtain ⟨hopens, rfl⟩ | ⟨rfl, -⟩ := opens_of_goes hgoes hopen
        · exact requested_of_act hact nofun (h.requested u m hstage hopens hbefore)
        · cases (h.fresh u hstage).symm.trans (any_beginsIn_of_found hbefore)
      · refine requested_of_act hact ?_ (h.requested u m' hold hopen hbefore)
        rintro workId rfl
        obtain rfl : m = .submitted workId := hallows
        exact hne ((hflags.opens t _ hstage rfl).2 u m' hold hopen)
  settled u m' id hu hresets := by
    obtain ⟨rfl, hnext⟩ | ⟨-, hold⟩ := Discipline.came_of_answers hstage hu
    · have hgoes : Goes m op answer m' := hnext ▸ goes_of_allows hallows answer
      cases hgoes with
      | cancels id' requested | cancelsOwn id' requested =>
        obtain rfl := Option.some.inj hresets
        have hknown := hflags.known u _ id' hstage rfl
        exact ⟨settled_of_cancel hf hknown rfl hact, requested, List.mem_cons_self⟩
      | _ => cases hresets
    · obtain ⟨hsettled, requested, hmem⟩ := h.settled u m' id hold hresets
      exact ⟨hsettled.cons _, requested, List.mem_cons_of_mem _ hmem⟩
  heeded := by
    refine ⟨?_, h.heeded⟩
    cases op with
    | record workId =>
      cases answer with
      | some id => exact trivial
      | none =>
        intro hfound
        obtain rfl : m = .submitted workId := hallows
        have hrequested := h.requested t _ hstage rfl hfound
        obtain ⟨-, hanswer⟩ := Prod.mk.inj (Option.some.inj hact)
        have hanswer := Option.some.inj hanswer
        change (if w.shared.cancellationRequested = true then w.shared.submittedJob workId
          else none) = none at hanswer
        rw [if_pos hrequested] at hanswer
        cases workId with
        | none => exact trivial
        | some id =>
          refine .inl (hf.completed id ?_).1
          by_contra hfalse
          have hjob := submittedJob_eq_some.mpr ⟨rfl, eq_false_of_ne_true hfalse⟩
          cases hanswer.symm.trans hjob
    | reset id =>
      intro _
      have hresets : m.resets = some id := by
        obtain rfl | rfl := hallows
        · rfl
        · rfl
      exact (h.settled t m id hstage hresets).1
    | _ => exact trivial

-- A stage of a new call, of which nothing is known.
structure Plain (m : Stage) : Prop where
  opens : m.opens = false
  cancels : m.cancels = none
  holder : m.holder = none

theorem plain_startOf (call : Call) : Plain (startOf call) := by
  cases call with
  | ubash extraText =>
    change Plain (if isUbashCancel extraText then .canceller else .submitter)
    split <;> exact ⟨rfl, rfl, rfl⟩
  | work | elsewhere elapsed ids => exact ⟨rfl, rfl, rfl⟩

theorem Plain.resets (h : Plain m) : m.resets = none := by
  rw [Option.eq_none_iff_forall_ne_some]
  intro id hresets
  cases h.cancels.symm.trans (cancels_of_resets hresets)

-- A call begins or ends, and nothing else happens.
structure Quiet (w w' : World) : Prop where
  shared : w'.shared = w.shared
  history : ∃ event, w'.history = event :: w.history ∧ Heeded event w.history ∧
    (fun t => FoundSubmitting t (event :: w.history)) = (fun t => FoundSubmitting t w.history) ∧
    ∀ t, beginsIn t event = false
  stage : ∀ t m, stageOf w' t = some m → stageOf w t = some m ∨
    Plain m ∧ w.history.any (beginsIn t) = false
  kept : ∀ t m, stageOf w t = some m → stageOf w' t = some m

theorem Fates.of_quiet (h : Fates w) (hq : Quiet w w') : Fates w' := by
  obtain ⟨hshared, ⟨event, hhistory, -⟩, hstage, -⟩ := hq
  refine ⟨hshared ▸ h.lane, ?_, fun t m id ht hholder => ?_, fun t id ht => ?_, ?_, ?_⟩
  · intro a ha
    rw [hshared] at ha
    obtain ⟨hstop, hfinished⟩ := h.entries a ha
    refine ⟨fun hs => ?_, hshared ▸ hfinished⟩
    rw [hhistory]
    exact (hstop hs).cons event
  · obtain ht | ⟨hplain, -⟩ := hstage t m ht
    · obtain ⟨hactive, honly⟩ := h.held t m id ht hholder
      refine ⟨hshared ▸ hactive, fun u m' hu hholder' => ?_⟩
      obtain hu | ⟨hplain, -⟩ := hstage u m' hu
      · exact honly u m' hu hholder'
      · cases hplain.holder.symm.trans hholder'
    · cases hplain.holder.symm.trans hholder
  · obtain ht | ⟨hplain, -⟩ := hstage t _ ht
    · exact hshared ▸ h.ended t id ht
    · cases hplain.holder
  · rw [hshared, hhistory]
    intro task htask
    exact (h.fates task htask).imp_right fun hrest => hrest.imp_right fun hs => hs.cons event
  · rw [hshared, hhistory]
    intro id hid
    exact (h.completed id hid).imp_left fun hover => hover.cons event

theorem Flags.of_quiet (h : Flags w) (hq : Quiet w w') : Flags w' := by
  obtain ⟨hshared, -, hstage, hkept⟩ := hq
  refine ⟨?_, hshared ▸ h.closed, ?_, hshared ▸ h.knownActive, ?_, ?_, ?_, ?_⟩
  · intro t m ht hopen
    obtain ht | ⟨hplain, -⟩ := hstage t m ht
    · obtain ⟨hsubmitting, honly⟩ := h.opens t m ht hopen
      refine ⟨hshared ▸ hsubmitting, fun u m' hu hopen' => ?_⟩
      obtain hu | ⟨hplain, -⟩ := hstage u m' hu
      · exact honly u m' hu hopen'
      · cases hplain.opens.symm.trans hopen'
    · cases hplain.opens.symm.trans hopen
  · intro t m id ht hcancels
    obtain ht | ⟨hplain, -⟩ := hstage t m ht
    · exact hshared ▸ h.known t m id ht hcancels
    · cases hplain.cancels.symm.trans hcancels
  · intro t id ht
    obtain ht | ⟨hplain, -⟩ := hstage t _ ht
    · obtain ⟨hknown, hlive, halone⟩ := h.submitted t id ht
      refine ⟨hshared ▸ hknown, hshared ▸ hlive, fun u m hu hcancels => ?_⟩
      obtain hu | ⟨hplain, -⟩ := hstage u m hu
      · exact halone u m hu hcancels
      · cases hplain.cancels.symm.trans hcancels
    · cases hplain.opens
  · rw [hshared]
    intro id hlive
    exact (h.covered id hlive).imp_right fun ⟨t, ht⟩ => ⟨t, hkept t _ ht⟩
  · rw [hshared]
    intro id hactive
    exact (h.recorded id hactive).imp_right fun ⟨t, m, ht, hr⟩ => ⟨t, m, hkept t m ht, hr⟩
  · rw [hshared]
    intro t m id ht hresets
    obtain ht | ⟨hplain, -⟩ := hstage t m ht
    · exact h.dead t m id ht hresets
    · cases hplain.resets.symm.trans hresets

theorem Found.of_quiet (h : Found w) (hq : Quiet w w') : Found w' := by
  obtain ⟨hshared, ⟨event, hhistory, hheeded, hfound, hbegins⟩, hstage, -⟩ := hq
  refine ⟨fun t ht => ?_, fun t m ht hopen => ?_, fun t m id ht hresets => ?_, ?_⟩
  · rw [hhistory, List.any_cons, hbegins t, Bool.false_or]
    obtain ht | ⟨-, hnone⟩ := hstage t _ ht
    · exact h.fresh t ht
    · exact hnone
  · obtain ht | ⟨hplain, -⟩ := hstage t m ht
    · rw [hhistory, congrFun hfound t, hshared]
      exact h.requested t m ht hopen
    · cases hplain.opens.symm.trans hopen
  · obtain ht | ⟨hplain, -⟩ := hstage t m ht
    · rw [hhistory]
      obtain ⟨hsettled, requested, hmem⟩ := h.settled t m id ht hresets
      exact ⟨hsettled.cons event, requested, List.mem_cons_of_mem _ hmem⟩
    · cases hplain.resets.symm.trans hresets
  · rw [hhistory]
    exact ⟨hheeded, h.heeded⟩

theorem quiet_begins (hs : discipline.Follows w)
    (hacted : discipline.Recalls (fun _ _ => True) w) (call : Call)
    (q : Program Op Op.Answer Unit Unit) : Quiet w (w.begun call q w.shared) where
  shared := rfl
  history := ⟨_, rfl, trivial, rfl, fun _ => rfl⟩
  stage t m ht := by
    obtain ⟨rfl, rfl⟩ | ⟨-, hold⟩ := Discipline.came_of_begun ht
    · refine .inr ⟨plain_startOf call, ?_⟩
      rw [List.any_eq_false]
      rintro ⟨u, event⟩ hmem hbegins
      have hu : u = w.started := by
        unfold beginsIn at hbegins
        split at hbegins
        next heq =>
          cases heq
          exact beq_iff_eq.mp hbegins
        · cases hbegins
      subst hu
      obtain ⟨m, hstage, -⟩ := hacted _ _ hmem
      exact absurd (hs.stage_lt hstage) (Nat.lt_irrefl _)
    · exact .inl hold
  kept t m ht := (Discipline.stage_begun_of_ne (Nat.ne_of_lt (hs.stage_lt ht)) ..).trans ht

theorem quiet_ends (t : ℕ) (result : Except Unit Unit) :
    Quiet w (w.record t (.ends result) none w.shared) where
  shared := rfl
  history := ⟨_, rfl, trivial, rfl, fun _ => rfl⟩
  stage _ _ hu := .inl ((Discipline.stage_ends ..).symm.trans hu)
  kept _ _ hu := (Discipline.stage_ends ..).trans hu

-- A command that has cancelled a job is still running until it has reset it.
def Resetting (w : World) : Prop :=
  ∀ t m id, stageOf w t = some m → m.resets = some id → (w.running t).isSome

theorem Resetting.of_moves (h : Resetting w) (hm : Moves w i w') : Resetting w' := by
  intro t m id hstage hresets
  rw [Option.isSome_iff_ne_none]
  intro hnone
  obtain hgone | ⟨result, m', rfl, hbefore, hends⟩ | rfl :=
    Discipline.running_none_of_moves hm hnone
  · cases Discipline.came_of_moves hm hstage with
    | began hi ht =>
      rename_i call
      cases (plain_startOf call).resets.symm.trans hresets
    | stayed hold =>
      have hrunning := h t m id hold hresets
      rw [hgone] at hrunning
      cases hrunning
    | went hi hold hallows hact hasks hhistory =>
      rw [Threads.asks, hgone] at hasks
      cases hasks
  · cases hm with
    | ends hstage' hpost =>
      have hsame := (Discipline.stage_ends ..).symm.trans hstage
      obtain rfl := Option.some.inj (hbefore.symm.trans hsame)
      cases m' with
      | cancelled id' => exact hends id' (.inl rfl)
      | undone id' => exact hends id' (.inr rfl)
      | _ => cases hresets
  · cases hm with
    | hangsUp hstage' hhangs hrunning => cases hhangs

structure Kept (w : World) : Prop where
  follows : discipline.Follows w
  acted : discipline.Recalls (fun _ _ => True) w
  fates : Fates w
  flags : Flags w
  found : Found w
  resetting : Resetting w

theorem Kept.of_step (h : Kept w) (hstep : step w i = some w') : Kept w' := by
  have hm := Discipline.moves_of_step h.follows hstep
  have hfollows := h.follows.of_step governs hstep
  have hlasts : Discipline.Lasts discipline fun _ _ => True :=
    ⟨fun _ => trivial, fun _ _ _ _ => trivial, fun _ _ _ => trivial, fun _ => trivial,
      fun _ _ _ _ _ _ => trivial⟩
  have hacted := h.acted.of_moves hlasts h.follows hm
  have hresetting := h.resetting.of_moves hm
  cases hm with
  | begins hbegins =>
    rename_i call shared
    cases hbegins
    have hq := quiet_begins h.follows h.acted call (system.program call)
    exact ⟨hfollows, hacted, h.fates.of_quiet hq, h.flags.of_quiet hq, h.found.of_quiet hq,
      hresetting⟩
  | answers hstage hallows hact hrunning =>
    exact ⟨hfollows, hacted, h.fates.of_answers hstage hallows hact,
      h.flags.of_answers h.fates hstage hallows hact,
      h.found.of_answers h.fates h.flags hstage hallows hact, hresetting⟩
  | waits hstage hallows hact hrunning => exact (act_ne_none hact).elim
  | ends hstage hpost =>
    rename_i t result m
    have hq := quiet_ends (w := w) t result
    exact ⟨hfollows, hacted, h.fates.of_quiet hq, h.flags.of_quiet hq, h.found.of_quiet hq,
      hresetting⟩
  | hangsUp hstage hhangs hrunning => cases hhangs

theorem kept_initial : Kept World.initial where
  follows := .initial _
  acted _ _ hmem := nomatch hmem
  fates := {
    lane := ⟨⟨.create .., fun _ htask => nomatch htask⟩, rfl, rfl, fun _ htask => nomatch htask⟩
    entries := fun _ ha => nomatch ha
    held := fun _ _ _ hstage => nomatch hstage
    ended := fun _ _ hstage => nomatch hstage
    fates := fun _ htask => nomatch htask
    completed := fun _ hid => nomatch hid }
  flags := {
    opens := fun _ _ hstage => nomatch hstage
    closed := fun _ => rfl
    known := fun _ _ _ hstage => nomatch hstage
    knownActive := fun _ hactive => nomatch hactive
    submitted := fun _ _ hstage => nomatch hstage
    covered := fun _ hlive => nomatch hlive.mem_tasks
    recorded := fun _ hactive => nomatch hactive
    dead := fun _ _ _ hstage => nomatch hstage }
  found := {
    fresh := fun _ hstage => nomatch hstage
    requested := fun _ _ hstage => nomatch hstage
    settled := fun _ _ _ hstage => nomatch hstage
    heeded := trivial }
  resetting _ _ _ hstage := nomatch hstage

end Steps

section Results

variable {w : World}

theorem Kept.oneRuns (h : Kept w) : OneRuns w.shared := by
  have hsize : w.shared.lane.depth ≤ w.shared.lane.maximumOutstanding := h.fates.lane.ok.inv.size
  rw [Lane.depth, Lane.maximumOutstanding, h.fates.lane.workers, h.fates.lane.capacity] at hsize
  have hfilter := List.length_filter_le (fun a => Runs w.shared a) w.shared.lane.active
  unfold OneRuns
  omega

theorem Kept.withinReach (h : Kept w) : WithinReach w.shared := by
  rintro a ha ⟨-, hcompleted⟩ hstop
  have hmem : (a.task.id, false) ∈ w.shared.lane.active.map fun a => (a.task.id, a.stop) :=
    hstop ▸ List.mem_map_of_mem (f := fun a : Active => (a.task.id, a.stop)) ha
  obtain hactive | ⟨t, ht⟩ := h.flags.covered _ ⟨hcompleted, .inr hmem⟩
  · exact .inr hactive
  · exact .inl (h.flags.opens t _ ht rfl).1

theorem Kept.aboutToReset (h : Kept w) {t id : ℕ} {m : Stage} (hstage : stageOf w t = some m)
    (hresets : m.resets = some id) : AboutToReset w id := by
  obtain ⟨-, requested, hmem⟩ := h.found.settled t m id hstage hresets
  refine ⟨t, ?_, requested, hmem⟩
  obtain ⟨q, hrunning⟩ := Option.isSome_iff_exists.mp (h.resetting t m id hstage hresets)
  obtain ⟨m', hstage', hmeets⟩ := h.follows.running t q hrunning
  obtain rfl := Option.some.inj (hstage.symm.trans hstage')
  have hallows : Allows m (.reset id) := by
    cases m with
    | cancelled id' =>
      obtain rfl := Option.some.inj hresets
      exact .inl rfl
    | undone id' =>
      obtain rfl := Option.some.inj hresets
      exact .inr rfl
    | _ => cases hresets
  cases q with
  | pure a | throw e => exact absurd hallows (hmeets id)
  | call op next =>
    have hop := op_of_resets hmeets.1 hresets
    rw [Threads.asks, hrunning]
    exact congrArg some hop

theorem Kept.recorded (h : Kept w) : Recorded w := by
  intro id hactive
  obtain hlive | ⟨t, m, hstage, hresets⟩ := h.flags.recorded id hactive
  · exact .inl ⟨hlive.mem_tasks, hlive.1⟩
  · exact .inr (h.aboutToReset hstage hresets)

-- One job at a time, within reach of a cancel command, recorded as long as it is there and until
-- whoever has cancelled it resets it; and who is found submitting settles its job.
theorem jobs_consistent {steps : List Step}
    (hp : Transition.path step World.initial steps = some w) :
    OneRuns w.shared ∧ WithinReach w.shared ∧ Recorded w ∧ Explained Heeded w.history := by
  have h : Kept w := Transition.path_invariant_of_step Kept
    (fun _ _ _ hkept hstep => hkept.of_step hstep) kept_initial hp
  exact ⟨h.oneRuns, h.withinReach, h.recorded, h.found.heeded⟩

end Results

-- A job that is submitted and found being submitted.
def foundSubmitting : List Step :=
  [.begins (.ubash none), .acts 0 true, .acts 0 true,
    .begins (.ubash (some (Bytes.ascii "cancel"))), .acts 1 true, .begins .work, .acts 2 true,
    .acts 0 true, .acts 0 true]

theorem jobs_consistent_found :
    ∃ w, Transition.path step World.initial foundSubmitting = some w ∧ OneRuns w.shared ∧
      WithinReach w.shared ∧ Recorded w ∧ Explained Heeded w.history := by
  obtain ⟨w, hpath, -⟩ := Transition.exists_path step World.initial foundSubmitting
    (fun _ => True) (by decide +kernel)
  exact ⟨w, hpath, jobs_consistent hpath⟩

-- The job was dropped from the queue, and the cancel command has not reset it yet.
theorem recorded_outlives :
    ∃ w, Transition.path step World.initial
        [.begins (.ubash none), .acts 0 true, .acts 0 true, .acts 0 true, .ends 0,
          .begins (.ubash (some (Bytes.ascii "cancel"))), .acts 1 true, .acts 1 true] = some w ∧
      ¬(OneRuns w.shared ∧ WithinReach w.shared ∧ NeverOutlives w ∧
        Explained Heeded w.history) := by
  obtain ⟨w, hpath, houtlives⟩ := Transition.exists_path step World.initial
    [.begins (.ubash none), .acts 0 true, .acts 0 true, .acts 0 true, .ends 0,
      .begins (.ubash (some (Bytes.ascii "cancel"))), .acts 1 true, .acts 1 true]
    (fun w => ¬NeverOutlives w) (by decide +kernel)
  exact ⟨w, hpath, fun h => houtlives h.2.2.1⟩

end Glider.Ubash
