import Glider.PopenWdt.Places

namespace Glider.PopenWdt

open Glider.Lib Glider.Lib.Threads

variable {c c' : Core} {t : ℕ}

-- An operation that changes nothing.
def Op.Looks : Op → Prop
  | .unreaped | .deadline | .polls | .sleep | .watch | .readActivated
  | .readStatus => True
  | _ => False

-- Everything that an operation can do when it is answered.
inductive Acts (c : Core) (t : ℕ) : (op : Op) → Core → op.Answer → Prop where
  | claims (hreaped : c.childReaped = false) (hreaping : c.reaping = false)
      (habandoned : c.reapAbandoned = false) :
      Acts c t .claimReaper { c with reaping := true } true
  | claimsNot : Acts c t .claimReaper c false
  | reaps (nohang : Bool) {status : ℕ} (h : c.child = .exited status) :
      Acts c t (.waitpid nohang) { c with child := .reaped status } (.changed status)
  | reapsNot (nohang : Bool) {waited : Waited} (h : ∀ status, waited ≠ .changed status) :
      Acts c t (.waitpid nohang) c waited
  | records (status : ℕ) : Acts c t (.recordStatus status) (c.recordStatus status) ()
  | releases : Acts c t .releaseReaper { c with reaping := false }.broadcast ()
  | abandons : Acts c t .abandonReap { c with reapAbandoned := true, reaping := false }.broadcast ()
  | creates (created : Bool) : Acts c t .createReaper { c with orphan := created } ()
  | timesOut : Acts c t .timedwait { c with terminating := true } .timedOut
  | wakes {wake : Wake} (h : wake ≠ .timedOut) : Acts c t .timedwait c wake
  | requestsGone : Acts c t .requestCancel c .gone
  | requestsBusy (h : c.terminating = true) :
      Acts c t .requestCancel { c with sleepers := t :: c.sleepers } .busy
  | requests :
      Acts c t .requestCancel
        { c with terminating := true, watchdogActivated := true }.broadcast .mine
  | finishes : Acts c t .finishTermination { c with terminating := false }.broadcast ()
  | waitsTerminating {complete : Bool} (h : t ∉ c.sleepers) : Acts c t .waitTerminating c complete
  | waitsFinished (h : t ∉ c.sleepers) : Acts c t .waitFinished c ()
  | broadcasts : Acts c t .broadcast c.broadcast ()
  | joins (h : c.ended = true) : Acts c t .join { c with watchdogJoined := true } ()
  | joinsNot (h : c.watchdogStarted = true → c.watchdogJoined = true) : Acts c t .join c ()
  | activates : Acts c t .setActivated { c with watchdogActivated := true } ()
  | closes : Acts c t .quiesce { c with closing := true } ()
  | cleans : Acts c t .cleanup { c with freed := true } ()
  | signalsGroup (signal i : ℕ) :
      Acts c t (.killpg signal) (c.signal signal (c.groupSent i)) (c.groupSent i)
  | signalsLeader (signal i : ℕ) :
      Acts c t (.kill signal) (c.signal signal (c.leaderSent i)) (c.leaderSent i)
  | looks {op : Op} {answer : op.Answer} (hop : op.Looks) : Acts c t op c answer

theorem waitWhile_eq_some {α : Type} {holds wakes : Bool} {answer answer' : α}
    (h : c.waitWhile t holds wakes answer = some (c', some answer')) : c' = c ∧ t ∉ c.sleepers := by
  unfold Core.waitWhile at h
  split at h
  · split at h <;> cases h
  next hmem =>
    split at h
    · cases h
    · cases h
      exact ⟨rfl, hmem⟩

theorem acts_of_act {op : Op} {i : ℕ} {answer : op.Answer}
    (h : c.act t op i = some (c', some answer)) : Acts c t op c' answer := by
  cases op with
  | claimReaper =>
    simp only [Core.act, Core.claimReaper] at h
    split at h
    next hfree =>
      cases h
      simp only [Bool.and_eq_true, Bool.not_eq_true'] at hfree
      exact .claims hfree.1.1 hfree.1.2 hfree.2
    next =>
      cases h
      exact .claimsNot
  | waitpid nohang =>
    obtain ⟨⟨c'', waited⟩, hc, heq⟩ := Option.map_eq_some_iff.mp h
    cases heq
    unfold Core.waitpid at hc
    split at hc
    next status hchild =>
      cases hc
      exact .reaps nohang hchild
    next =>
      cases hc
      exact .reapsNot nohang nofun
    next =>
      split at hc
      · cases hc
        exact .reapsNot _ nofun
      · cases hc
  | waitTerminating =>
    obtain ⟨rfl, hmem⟩ := waitWhile_eq_some h
    exact .waitsTerminating hmem
  | waitFinished =>
    obtain ⟨rfl, hmem⟩ := waitWhile_eq_some h
    exact .waitsFinished hmem
  | timedwait =>
    simp only [Core.act, Core.timedwait] at h
    split at h
    · cases h
      exact .timesOut
    · cases h
      exact .wakes nofun
    · split at h
      · cases h
        exact .wakes nofun
      · cases h
  | requestCancel =>
    simp only [Core.act, Core.requestCancel] at h
    split at h
    · cases h
      exact .requestsGone
    · split at h
      next hterminating =>
        cases h
        exact .requestsBusy hterminating
      · cases h
        exact .requests
  | join =>
    obtain ⟨c'', hc, heq⟩ := Option.map_eq_some_iff.mp h
    cases heq
    unfold Core.join at hc
    split at hc
    · obtain ⟨hended, heq⟩ := Option.ite_none_right_eq_some.mp hc
      cases heq
      exact .joins hended
    next hnot =>
      cases hc
      refine .joinsNot fun hstarted => ?_
      simpa [hstarted] using hnot
  | quiesce =>
    obtain ⟨-, heq⟩ := Option.ite_none_right_eq_some.mp h
    cases heq
    exact .closes
  | asleep => cases h
  | unreaped | deadline | polls | sleep | watch | readActivated | readStatus =>
    cases h
    exact .looks trivial
  | _ =>
    cases h
    constructor

theorem came_of_update {stages : ℕ → Option Stage} {m m' : Stage} {u : ℕ}
    (h : Function.update stages t (some m') u = some m) :
    u = t ∧ m = m' ∨ u ≠ t ∧ stages u = some m := by
  rw [Function.update_apply] at h
  split at h
  next hu => exact .inl ⟨hu, (Option.some.inj h).symm⟩
  next hu => exact .inr ⟨hu, h⟩

-- What the shared flags say of a thread.
def Hold.Marked (c : Core) : Hold → Prop
  | .nothing => True
  | .reaper => c.reaping = true
  | .abandoned | .detached => c.reapAbandoned = true

theorem Hold.Marked.congr {hold : Hold} (h : hold.Marked c) (hreaping : c'.reaping = c.reaping)
    (habandoned : c'.reapAbandoned = c.reapAbandoned) : hold.Marked c' := by
  cases hold with
  | nothing => trivial
  | reaper => exact hreaping.trans h
  | abandoned | detached => exact habandoned.trans h

-- One thread at most has to do with the reaping.
structure Reapers (c : Core) (stages : ℕ → Option Stage) : Prop where
  marked : ∀ t m, stages t = some m → m.hold.Marked c
  free : c.reapAbandoned = true → c.reaping = false
  orphan : c.orphan = true → c.reapAbandoned = true ∧
    ∀ t m, stages t = some m → m.hold = .nothing
  one : ∀ t u m m', stages t = some m → stages u = some m' → m.hold ≠ .nothing →
    m'.hold ≠ .nothing → t = u

-- The status that a thread has been given or has recorded is the one of the child.
structure Recorded (c : Core) (stages : ℕ → Option Stage) : Prop where
  given : ∀ t m status, stages t = some m → m.status = some status → c.child = .reaped status
  recorded : c.childReaped = true → c.child = .reaped c.status

-- The child is not reaped while a thread may call `waitpid` that has not been given its status.
structure Claimed (c : Core) (stages : ℕ → Option Stage) : Prop where
  unreaped : ∀ t m, stages t = some m → m.hold = .reaper → m.status = none →
    ∀ status, c.child ≠ .reaped status
  reaped : ∀ status, c.child = .reaped status →
    c.childReaped = true ∨ c.reaping = true ∨ c.reapAbandoned = true

-- Some thread terminates the command while others wait for that.
structure Terminating (c : Core) (stages : ℕ → Option Stage) : Prop where
  exists_terminator : c.terminating = true → ∃ t m, stages t = some m ∧ m.terminator = true
  sleepers : c.sleepers ≠ [] → c.terminating = true
  role : ∀ t m, stages t = some m → m.terminator = true → m.role = .watchdog ∨ m.role = .cancel

structure Watched (c : Core) (stages : ℕ → Option Stage) : Prop where
  watchdog : ∀ t, c.watchdog = some t → ∃ m, stages t = some m ∧ m.role = .watchdog
  joined : ∀ t m, stages t = some m → m.joined = true → c.watchdogStarted = true → c.ended = true
  marked : c.watchdogJoined = true → c.ended = true
  freed : c.freed = true → c.watchdogStarted = true → c.ended = true

variable {stages : ℕ → Option Stage} {op : Op} {answer : op.Answer} {m m' : Stage}

namespace Reapers

theorem change (h : Reapers c stages) (hmarked : m'.hold.Marked c')
    (hothers : ∀ u ≠ t, ∀ m, stages u = some m → m.hold ≠ .nothing →
      m.hold.Marked c' ∧ m'.hold = .nothing)
    (hfree : c'.reapAbandoned = true → c'.reaping = false)
    (horphan : c'.orphan = true → c'.reapAbandoned = true ∧ m'.hold = .nothing ∧
      ∀ u ≠ t, ∀ m, stages u = some m → m.hold = .nothing) :
    Reapers c' (Function.update stages t (some m')) := by
  refine ⟨fun u m hm => ?_, hfree, fun horphan' => ⟨(horphan horphan').1, fun u m hm => ?_⟩,
    fun u v m₁ m₂ h₁ h₂ hm₁ hm₂ => ?_⟩
  · rcases came_of_update hm with ⟨rfl, rfl⟩ | ⟨hu, hold⟩
    · exact hmarked
    · by_cases hnothing : m.hold = .nothing
      · rw [hnothing]
        trivial
      · exact (hothers u hu m hold hnothing).1
  · rcases came_of_update hm with ⟨rfl, rfl⟩ | ⟨hu, hold⟩
    · exact (horphan horphan').2.1
    · exact (horphan horphan').2.2 u hu m hold
  · rcases came_of_update h₁ with ⟨rfl, rfl⟩ | ⟨hu, hold₁⟩
    · rcases came_of_update h₂ with ⟨rfl, -⟩ | ⟨hv, hold₂⟩
      · rfl
      · exact absurd (hothers v hv m₂ hold₂ hm₂).2 hm₁
    · rcases came_of_update h₂ with ⟨rfl, rfl⟩ | ⟨hv, hold₂⟩
      · exact absurd (hothers u hu m₁ hold₁ hm₁).2 hm₂
      · exact h.one u v m₁ m₂ hold₁ hold₂ hm₁ hm₂

theorem only (h : Reapers c stages) (hstage : stages t = some m) (hm : m.hold ≠ .nothing) :
    ∀ u ≠ t, ∀ m', stages u = some m' → m'.hold = .nothing := by
  intro u hu m' hstage'
  by_contra hm'
  exact hu (h.one u t m' m hstage' hstage hm' hm)

theorem keep (h : Reapers c stages) (hstage : stages t = some m) (hhold : m'.hold = m.hold)
    (hreaping : c'.reaping = c.reaping) (habandoned : c'.reapAbandoned = c.reapAbandoned)
    (horphan : c'.orphan = c.orphan) : Reapers c' (Function.update stages t (some m')) := by
  refine h.change ?_
    (fun u hu m'' hold hm'' => ⟨(h.marked u m'' hold).congr hreaping habandoned, ?_⟩) ?_
    fun hc => ?_
  · exact hhold ▸ (h.marked t m hstage).congr hreaping habandoned
  · by_contra hm'
    exact hm'' (h.only hstage (hhold ▸ hm') u hu m'' hold)
  · rw [habandoned, hreaping]
    exact h.free
  · obtain ⟨hold, hnone⟩ := h.orphan (horphan ▸ hc)
    exact ⟨habandoned.trans hold, hhold.trans (hnone t m hstage), fun u _ m'' h' => hnone u m'' h'⟩

-- The thread that has to do with the reaping gives it up, or hands it on.
theorem leave (h : Reapers c stages) (hstage : stages t = some m) (hhold : m.hold ≠ .nothing)
    (hmarked : m'.hold.Marked c') (hfree : c'.reapAbandoned = true → c'.reaping = false)
    (horphan : c'.orphan = true → c'.reapAbandoned = true ∧ m'.hold = .nothing) :
    Reapers c' (Function.update stages t (some m')) := by
  have honly := h.only hstage hhold
  refine h.change hmarked (fun u hu m'' hold hm'' => absurd (honly u hu m'' hold) hm'') hfree
    fun hc => ?_
  exact ⟨(horphan hc).1, (horphan hc).2, honly⟩

theorem next (h : Reapers c stages) (hstage : stages t = some m) (hallows : m.Allows op)
    (hacts : Acts c t op c' answer) :
    Reapers c' (Function.update stages t (some (m.next op answer))) := by
  have horphan (hhold : m.hold ≠ .nothing) : c.orphan ≠ true := fun hc =>
    hhold ((h.orphan hc).2 t m hstage)
  cases hacts with
  | claims hreaped hreaping habandoned =>
    refine h.change rfl (fun u hu m'' hold hm'' => ?_) ?_ fun hc => ?_
    · have hmarked := h.marked u m'' hold
      cases hhold : m''.hold with
      | nothing => exact absurd hhold hm''
      | reaper => cases hreaping.symm.trans (hhold ▸ hmarked)
      | abandoned | detached => cases habandoned.symm.trans (hhold ▸ hmarked)
    · exact fun hc => absurd (habandoned.symm.trans hc) Bool.false_ne_true
    · cases habandoned.symm.trans (h.orphan hc).1
  | claimsNot => exact h.keep hstage hallows.symm rfl rfl rfl
  | records status | releases =>
    have hhold : m.hold ≠ .nothing := hallows.1 ▸ nofun
    exact h.leave hstage hhold trivial (fun _ => rfl) fun hc => absurd hc (horphan hhold)
  | abandons =>
    have hhold : m.hold ≠ .nothing := hallows.1 ▸ nofun
    exact h.leave hstage hhold rfl (fun _ => rfl) fun hc => absurd hc (horphan hhold)
  | creates created =>
    have hhold : m.hold ≠ .nothing := hallows ▸ nofun
    have hmarked : c.reapAbandoned = true := by
      have hm := h.marked t m hstage
      rw [show m.hold = .abandoned from hallows] at hm
      exact hm
    exact h.leave hstage hhold trivial h.free fun _ => ⟨hmarked, rfl⟩
  | reapsNot nohang hnot =>
    rename_i waited
    cases waited with
    | changed status => exact absurd rfl (hnot status)
    | _ => exact h.keep hstage rfl rfl rfl rfl
  | wakes hwake =>
    rename_i wake
    cases wake with
    | timedOut => exact absurd rfl hwake
    | _ => exact h.keep hstage rfl rfl rfl rfl
  | looks hop =>
    have hsame : (m.next op answer).hold = m.hold := by
      cases op <;> first | exact hop.elim | rfl
    exact h.keep hstage hsame rfl rfl rfl
  | _ => exact h.keep hstage rfl rfl rfl rfl

theorem begins (h : Reapers c stages) (hhold : m'.hold = .nothing)
    (hreaping : c'.reaping = c.reaping) (habandoned : c'.reapAbandoned = c.reapAbandoned)
    (horphan : c'.orphan = c.orphan) : Reapers c' (Function.update stages t (some m')) := by
  refine h.change (hhold ▸ trivial)
    (fun u _ m hold _ => ⟨(h.marked u m hold).congr hreaping habandoned, hhold⟩) ?_ fun hc => ?_
  · rw [habandoned, hreaping]
    exact h.free
  · obtain ⟨hold, hnone⟩ := h.orphan (horphan ▸ hc)
    exact ⟨habandoned.trans hold, hhold, fun u _ m h' => hnone u m h'⟩

-- The detached reaper begins when nobody else reaps.
theorem detach (h : Reapers c stages) (horphan : c.orphan = true) (hhold : m'.hold = .detached) :
    Reapers { c with orphan := false } (Function.update stages t (some m')) := by
  obtain ⟨habandoned, hnone⟩ := h.orphan horphan
  refine h.change (hhold ▸ habandoned) (fun u _ m hold hm => ?_) h.free nofun
  exact absurd (hnone u m hold) hm

end Reapers

namespace Recorded

theorem change (h : Recorded c stages)
    (hgiven : ∀ status, m'.status = some status → c'.child = .reaped status)
    (hothers : ∀ status, c.child = .reaped status → c'.child = .reaped status)
    (hrecorded : c'.childReaped = true → c'.child = .reaped c'.status) :
    Recorded c' (Function.update stages t (some m')) := by
  refine ⟨fun u m status hm hstatus => ?_, hrecorded⟩
  rcases came_of_update hm with ⟨-, rfl⟩ | ⟨-, hold⟩
  · exact hgiven status hstatus
  · exact hothers status (h.given u m status hold hstatus)

theorem keep (h : Recorded c stages) (hstage : stages t = some m) (hstatus : m'.status = m.status)
    (hchild : c'.child = c.child) (hreaped : c'.childReaped = c.childReaped)
    (hsame : c'.status = c.status) : Recorded c' (Function.update stages t (some m')) := by
  refine h.change (fun status hm' => ?_) (fun status => hchild.trans) ?_
  · exact hchild.trans (h.given t m status hstage (hstatus ▸ hm'))
  · rw [hchild, hreaped, hsame]
    exact h.recorded

theorem next (h : Recorded c stages) (hstage : stages t = some m) (hallows : m.Allows op)
    (hacts : Acts c t op c' answer) :
    Recorded c' (Function.update stages t (some (m.next op answer))) := by
  cases hacts with
  | reaps nohang hchild =>
    refine h.change (fun _ hstatus => congrArg _ (Option.some.inj hstatus))
      (fun _ hreaped => ?_) fun hreaped => ?_
    · cases hchild.symm.trans hreaped
    · cases hchild.symm.trans (h.recorded hreaped)
  | records status =>
    have hgiven := h.given t m status hstage hallows.2
    refine h.change nofun (fun _ => id) fun _ => ?_
    change c.child = .reaped (if c.childReaped then c.status else status)
    split
    next hreaped => exact h.recorded hreaped
    next => exact hgiven
  | reapsNot nohang hnot =>
    rename_i waited
    cases waited with
    | changed status => exact absurd rfl (hnot status)
    | _ => exact h.keep hstage rfl rfl rfl rfl
  | wakes hwake =>
    rename_i wake
    cases wake <;> exact h.keep hstage rfl rfl rfl rfl
  | looks hop =>
    have hsame : (m.next op answer).status = m.status := by
      cases op <;> first | exact hop.elim | rfl
    exact h.keep hstage hsame rfl rfl rfl
  | _ => exact h.keep hstage rfl rfl rfl rfl

theorem begins (h : Recorded c stages) (hstatus : m'.status = none)
    (hchild : ∀ status, c.child = .reaped status → c'.child = .reaped status)
    (hreaped : c'.childReaped = c.childReaped) (hsame : c'.status = c.status) :
    Recorded c' (Function.update stages t (some m')) := by
  refine h.change (fun status hm' => ?_) hchild fun hc => ?_
  · cases hstatus.symm.trans hm'
  · rw [hsame]
    exact hchild _ (h.recorded (hreaped ▸ hc))

end Recorded

namespace Claimed

theorem change (h : Claimed c stages) (hchild : c'.child = c.child)
    (hm' : m'.hold = .reaper → m'.status = none → ∀ status, c.child ≠ .reaped status)
    (hreaped : ∀ status, c.child = .reaped status →
      c'.childReaped = true ∨ c'.reaping = true ∨ c'.reapAbandoned = true) :
    Claimed c' (Function.update stages t (some m')) := by
  refine ⟨fun u m hm hhold hstatus => ?_, fun status => ?_⟩
  · rw [hchild]
    rcases came_of_update hm with ⟨-, rfl⟩ | ⟨-, hold⟩
    · exact hm' hhold hstatus
    · exact h.unreaped u m hold hhold hstatus
  · rw [hchild]
    exact hreaped status

theorem keep (h : Claimed c stages) (hstage : stages t = some m) (hhold : m'.hold = m.hold)
    (hstatus : m'.status = m.status) (hchild : c'.child = c.child)
    (hreaped : c'.childReaped = c.childReaped) (hreaping : c'.reaping = c.reaping)
    (habandoned : c'.reapAbandoned = c.reapAbandoned) :
    Claimed c' (Function.update stages t (some m')) := by
  refine h.change hchild (fun hm' hm'' => ?_) ?_
  · exact h.unreaped t m hstage (hhold ▸ hm') (hstatus ▸ hm'')
  · rw [hreaped, hreaping, habandoned]
    exact h.reaped

theorem next (h : Claimed c stages) (hreapers : Reapers c stages) (hstage : stages t = some m)
    (hallows : m.Allows op) (hacts : Acts c t op c' answer) :
    Claimed c' (Function.update stages t (some (m.next op answer))) := by
  cases hacts with
  | claims hreaped hreaping habandoned =>
    refine h.change rfl (fun _ _ status hchild => ?_) fun _ _ => .inr (.inl rfl)
    rcases h.reaped status hchild with heq | heq | heq
    · cases hreaped.symm.trans heq
    · cases hreaping.symm.trans heq
    · cases habandoned.symm.trans heq
  | claimsNot => exact h.change rfl nofun h.reaped
  | @reaps nohang status hchild =>
    have hmarked := hreapers.marked t m hstage
    have hhold : m.hold ≠ .nothing ∧ (c.reaping = true ∨ c.reapAbandoned = true) := by
      cases nohang with
      | true =>
        rw [hallows.1] at hmarked
        exact ⟨hallows.1 ▸ nofun, .inl hmarked⟩
      | false =>
        rw [hallows.2.1] at hmarked
        exact ⟨hallows.2.1 ▸ nofun, .inr hmarked⟩
    refine ⟨fun u m'' hm hm'' hstatus => ?_, fun _ _ => .inr hhold.2⟩
    rcases came_of_update hm with ⟨-, rfl⟩ | ⟨hu, hold⟩
    · cases hstatus
    · cases (hreapers.only hstage hhold.1 u hu m'' hold).symm.trans hm''
  | records status => exact h.change rfl nofun fun _ _ => .inl rfl
  | releases =>
    exact h.change rfl nofun fun status hchild =>
      absurd hchild (h.unreaped t m hstage hallows.1 hallows.2 status)
  | abandons => exact h.change rfl nofun fun _ _ => .inr (.inr rfl)
  | creates created => exact h.change rfl nofun h.reaped
  | reapsNot nohang hnot =>
    rename_i waited
    cases waited with
    | changed status => exact absurd rfl (hnot status)
    | _ => exact h.keep hstage rfl rfl rfl rfl rfl rfl
  | wakes hwake =>
    rename_i wake
    cases wake <;> exact h.keep hstage rfl rfl rfl rfl rfl rfl
  | looks hop =>
    have hsame : (m.next op answer).hold = m.hold ∧ (m.next op answer).status = m.status := by
      cases op <;> first | exact hop.elim | exact ⟨rfl, rfl⟩
    exact h.keep hstage hsame.1 hsame.2 rfl rfl rfl rfl
  | _ => exact h.keep hstage rfl rfl rfl rfl rfl rfl

theorem begins (h : Claimed c stages) (hhold : m'.hold ≠ .reaper)
    (hchild : ∀ status, c'.child = .reaped status → c.child = .reaped status)
    (hreaped : c'.childReaped = c.childReaped) (hreaping : c'.reaping = c.reaping)
    (habandoned : c'.reapAbandoned = c.reapAbandoned) :
    Claimed c' (Function.update stages t (some m')) := by
  refine ⟨fun u m hm hm' hstatus status hc => ?_, fun status hc => ?_⟩
  · rcases came_of_update hm with ⟨-, rfl⟩ | ⟨-, hold⟩
    · exact hhold hm'
    · exact h.unreaped u m hold hm' hstatus status (hchild status hc)
  · rw [hreaped, hreaping, habandoned]
    exact h.reaped status (hchild status hc)

end Claimed

namespace Terminating

theorem keep (h : Terminating c stages) (hstage : stages t = some m)
    (hterminator : m'.terminator = m.terminator) (hrole : m'.role = m.role)
    (hterminating : c'.terminating = c.terminating)
    (hsleepers : c'.sleepers ≠ [] → c.terminating = true) :
    Terminating c' (Function.update stages t (some m')) := by
  refine ⟨fun hc => ?_, fun hc => hterminating.trans (hsleepers hc), fun u m'' hm hm'' => ?_⟩
  · obtain ⟨u, m'', hold, hm''⟩ := h.exists_terminator (hterminating ▸ hc)
    obtain rfl | hu := eq_or_ne u t
    · obtain rfl := Option.some.inj (hold.symm.trans hstage)
      exact ⟨u, m', Function.update_self .., hterminator.trans hm''⟩
    · exact ⟨u, m'', (Function.update_of_ne hu ..).trans hold, hm''⟩
  · rcases came_of_update hm with ⟨-, rfl⟩ | ⟨-, hold⟩
    · rw [hrole]
      exact h.role t m hstage (hterminator ▸ hm'')
    · exact h.role u m'' hold hm''

theorem start (h : Terminating c stages) (hm' : m'.terminator = true)
    (hrole : m'.role = .watchdog ∨ m'.role = .cancel) (hterminating : c'.terminating = true) :
    Terminating c' (Function.update stages t (some m')) := by
  refine ⟨fun _ => ⟨t, m', Function.update_self .., hm'⟩, fun _ => hterminating,
    fun u m'' hm hm'' => ?_⟩
  rcases came_of_update hm with ⟨-, rfl⟩ | ⟨-, hold⟩
  · exact hrole
  · exact h.role u m'' hold hm''

theorem next (h : Terminating c stages) (hstage : stages t = some m) (hallows : m.Allows op)
    (hacts : Acts c t op c' answer) :
    Terminating c' (Function.update stages t (some (m.next op answer))) := by
  have hnil : ([] : List ℕ) ≠ [] → c.terminating = true := fun h => absurd rfl h
  cases hacts with
  | timesOut => exact h.start rfl (.inl hallows) rfl
  | requests => exact h.start rfl (.inr hallows) rfl
  | finishes =>
    refine ⟨nofun, fun hsleepers => absurd rfl hsleepers, fun u m'' hm hm'' => ?_⟩
    rcases came_of_update hm with ⟨-, rfl⟩ | ⟨-, hold⟩
    · cases hm''
    · exact h.role u m'' hold hm''
  | requestsBusy hterminating => exact h.keep hstage rfl rfl rfl fun _ => hterminating
  | records | releases | abandons | broadcasts => exact h.keep hstage rfl rfl rfl hnil
  | reapsNot nohang hnot =>
    rename_i waited
    cases waited <;> exact h.keep hstage rfl rfl rfl h.sleepers
  | wakes hwake =>
    rename_i wake
    cases wake with
    | timedOut => exact absurd rfl hwake
    | _ => exact h.keep hstage rfl rfl rfl h.sleepers
  | looks hop =>
    have hsame : (m.next op answer).terminator = m.terminator ∧
        (m.next op answer).role = m.role := by
      cases op <;> first | exact hop.elim | exact ⟨rfl, rfl⟩
    exact h.keep hstage hsame.1 hsame.2 rfl h.sleepers
  | _ => exact h.keep hstage rfl rfl rfl h.sleepers

theorem begins (h : Terminating c stages) (hnew : stages t = none) (hm' : m'.terminator = false)
    (hterminating : c'.terminating = c.terminating) (hsleepers : c'.sleepers = c.sleepers) :
    Terminating c' (Function.update stages t (some m')) := by
  refine ⟨fun hc => ?_, fun hc => ?_, fun u m hm hterminator => ?_⟩
  · obtain ⟨u, m, hold, hm⟩ := h.exists_terminator (hterminating ▸ hc)
    have hu : u ≠ t := by
      rintro rfl
      cases hnew.symm.trans hold
    exact ⟨u, m, (Function.update_of_ne hu ..).trans hold, hm⟩
  · exact hterminating.trans (h.sleepers (hsleepers ▸ hc))
  · rcases came_of_update hm with ⟨-, rfl⟩ | ⟨-, hold⟩
    · cases hm'.symm.trans hterminator
    · exact h.role u m hold hterminator

end Terminating

namespace Watched

theorem change (h : Watched c stages) (hstage : stages t = some m) (hrole : m'.role = m.role)
    (hjoined : m'.joined = true → c.watchdogStarted = true → c.ended = true)
    (hwatchdog : c'.watchdog = c.watchdog) (hstarted : c'.watchdogStarted = c.watchdogStarted)
    (hended : c'.ended = c.ended) (hmarked : c'.watchdogJoined = true → c.ended = true)
    (hfreed : c'.freed = true → c.watchdogStarted = true → c.ended = true) :
    Watched c' (Function.update stages t (some m')) := by
  refine ⟨fun u hu => ?_, fun u m'' hm hm'' => ?_, ?_, ?_⟩
  · obtain ⟨m'', hold, hm''⟩ := h.watchdog u (hwatchdog ▸ hu)
    obtain rfl | hne := eq_or_ne u t
    · obtain rfl := Option.some.inj (hold.symm.trans hstage)
      exact ⟨m', Function.update_self .., hrole.trans hm''⟩
    · exact ⟨m'', (Function.update_of_ne hne ..).trans hold, hm''⟩
  · rw [hstarted, hended]
    rcases came_of_update hm with ⟨-, rfl⟩ | ⟨-, hold⟩
    · exact hjoined hm''
    · exact h.joined u m'' hold hm''
  · rw [hended]
    exact hmarked
  · rw [hstarted, hended]
    exact hfreed

theorem keep (h : Watched c stages) (hstage : stages t = some m) (hrole : m'.role = m.role)
    (hjoined : m'.joined = m.joined) (hwatchdog : c'.watchdog = c.watchdog)
    (hstarted : c'.watchdogStarted = c.watchdogStarted) (hended : c'.ended = c.ended)
    (hmarked : c'.watchdogJoined = c.watchdogJoined) (hfreed : c'.freed = c.freed) :
    Watched c' (Function.update stages t (some m')) :=
  h.change hstage hrole (fun hm' => h.joined t m hstage (hjoined ▸ hm')) hwatchdog hstarted hended
    (fun hc => h.marked (hmarked ▸ hc)) fun hc => h.freed (hfreed ▸ hc)

theorem next (h : Watched c stages) (hstage : stages t = some m) (hallows : m.Allows op)
    (hacts : Acts c t op c' answer) :
    Watched c' (Function.update stages t (some (m.next op answer))) := by
  cases hacts with
  | joins hended =>
    exact h.change hstage rfl (fun _ _ => hended) rfl rfl rfl (fun _ => hended) h.freed
  | joinsNot hjoined =>
    exact h.change hstage rfl (fun _ hstarted => h.marked (hjoined hstarted)) rfl rfl rfl
      h.marked h.freed
  | cleans =>
    exact h.change hstage rfl (h.joined t m hstage) rfl rfl rfl h.marked fun _ =>
      h.joined t m hstage hallows
  | reapsNot nohang hnot =>
    rename_i waited
    cases waited <;> exact h.keep hstage rfl rfl rfl rfl rfl rfl rfl
  | wakes hwake =>
    rename_i wake
    cases wake <;> exact h.keep hstage rfl rfl rfl rfl rfl rfl rfl
  | looks hop =>
    have hsame : (m.next op answer).role = m.role ∧ (m.next op answer).joined = m.joined := by
      cases op <;> first | exact hop.elim | exact ⟨rfl, rfl⟩
    exact h.keep hstage hsame.1 hsame.2 rfl rfl rfl rfl rfl
  | _ => exact h.keep hstage rfl rfl rfl rfl rfl rfl rfl

theorem begins (h : Watched c stages) (hnew : stages t = none) (hm' : m'.joined = false)
    (hwatchdog : ∀ u, c'.watchdog = some u → c.watchdog = some u ∨ u = t ∧ m'.role = .watchdog)
    (hstarted : c'.watchdogStarted = c.watchdogStarted) (hended : c'.ended = c.ended)
    (hmarked : c'.watchdogJoined = c.watchdogJoined) (hfreed : c'.freed = c.freed) :
    Watched c' (Function.update stages t (some m')) := by
  refine ⟨fun u hu => ?_, fun u m hm hjoined => ?_, ?_, ?_⟩
  · rcases hwatchdog u hu with hold | ⟨rfl, hrole⟩
    · obtain ⟨m, hold, hm⟩ := h.watchdog u hold
      have hu : u ≠ t := by
        rintro rfl
        cases hnew.symm.trans hold
      exact ⟨m, (Function.update_of_ne hu ..).trans hold, hm⟩
    · exact ⟨m', Function.update_self .., hrole⟩
  · rw [hstarted, hended]
    rcases came_of_update hm with ⟨-, rfl⟩ | ⟨-, hold⟩
    · cases hm'.symm.trans hjoined
    · exact h.joined u m hold hjoined
  · rw [hmarked, hended]
    exact h.marked
  · rw [hfreed, hstarted, hended]
    exact h.freed

end Watched

-- What the flags say of the threads.
structure Sound (c : Core) (stages : ℕ → Option Stage) : Prop where
  reapers : Reapers c stages
  recorded : Recorded c stages
  claimed : Claimed c stages
  terminating : Terminating c stages
  watched : Watched c stages

namespace Sound

theorem next (h : Sound c stages) (hstage : stages t = some m) (hallows : m.Allows op)
    (hacts : Acts c t op c' answer) :
    Sound c' (Function.update stages t (some (m.next op answer))) where
  reapers := h.reapers.next hstage hallows hacts
  recorded := h.recorded.next hstage hallows hacts
  claimed := h.claimed.next h.reapers hstage hallows hacts
  terminating := h.terminating.next hstage hallows hacts
  watched := h.watched.next hstage hallows hacts

-- Threads that wait for `terminating` to be reset.
theorem of_sleepers (h : Sound c stages) {sleepers : List ℕ}
    (hsleepers : sleepers ≠ [] → c.terminating = true) : Sound { c with sleepers } stages where
  reapers :=
    ⟨fun t m hm => h.reapers.marked t m hm, h.reapers.free, h.reapers.orphan, h.reapers.one⟩
  recorded := ⟨h.recorded.given, h.recorded.recorded⟩
  claimed := ⟨h.claimed.unreaped, h.claimed.reaped⟩
  terminating := ⟨h.terminating.exists_terminator, hsleepers, h.terminating.role⟩
  watched := ⟨h.watched.watchdog, h.watched.joined, h.watched.marked, h.watched.freed⟩

theorem ends (h : Sound c stages) (t : ℕ) : Sound (c.ends t) stages := by
  have hended : c.ended = true → (c.ends t).ended = true := fun hended =>
    Bool.or_eq_true_iff.mpr (.inl hended)
  exact ⟨⟨fun u m hm => h.reapers.marked u m hm, h.reapers.free, h.reapers.orphan, h.reapers.one⟩,
    ⟨h.recorded.given, h.recorded.recorded⟩, ⟨h.claimed.unreaped, h.claimed.reaped⟩,
    ⟨h.terminating.exists_terminator, h.terminating.sleepers, h.terminating.role⟩,
    ⟨h.watched.watchdog,
      fun u m hm hjoined hstarted => hended (h.watched.joined u m hm hjoined hstarted),
      fun hjoined => hended (h.watched.marked hjoined),
      fun hfreed hstarted => hended (h.watched.freed hfreed hstarted)⟩⟩

theorem begins {call : Call} (h : Sound c stages) (hnew : stages t = none)
    (hbegins : c.begins t call = some c') :
    Sound c' (Function.update stages t (some (discipline.start call))) := by
  cases call with
  | watchdog =>
    obtain ⟨-, heq⟩ := Option.ite_none_right_eq_some.mp hbegins
    cases heq
    exact ⟨h.reapers.begins rfl rfl rfl rfl, h.recorded.begins rfl (fun _ => id) rfl rfl,
      h.claimed.begins nofun (fun _ => id) rfl rfl rfl, h.terminating.begins hnew rfl rfl rfl,
      h.watched.begins hnew rfl (fun u hu => .inr ⟨(Option.some.inj hu).symm, rfl⟩) rfl rfl rfl
        rfl⟩
  | cancel | leave | reuse =>
    obtain ⟨-, heq⟩ := Option.ite_none_left_eq_some.mp hbegins
    cases heq
    exact ⟨h.reapers.begins rfl rfl rfl rfl, h.recorded.begins rfl (fun _ => id) rfl rfl,
      h.claimed.begins nofun (fun _ => id) rfl rfl rfl, h.terminating.begins hnew rfl rfl rfl,
      h.watched.begins hnew rfl (fun _ => .inl) rfl rfl rfl rfl⟩
  | own | fork =>
    obtain ⟨-, heq⟩ := Option.ite_none_right_eq_some.mp hbegins
    cases heq
    exact ⟨h.reapers.begins rfl rfl rfl rfl, h.recorded.begins rfl (fun _ => id) rfl rfl,
      h.claimed.begins nofun (fun _ => id) rfl rfl rfl, h.terminating.begins hnew rfl rfl rfl,
      h.watched.begins hnew rfl (fun _ => .inl) rfl rfl rfl rfl⟩
  | detachedReaper =>
    obtain ⟨horphan, heq⟩ := Option.ite_none_right_eq_some.mp hbegins
    cases heq
    exact ⟨h.reapers.detach horphan rfl, h.recorded.begins rfl (fun _ => id) rfl rfl,
      h.claimed.begins nofun (fun _ => id) rfl rfl rfl, h.terminating.begins hnew rfl rfl rfl,
      h.watched.begins hnew rfl (fun _ => .inl) rfl rfl rfl rfl⟩
  | exit status =>
    obtain ⟨hrunning, heq⟩ := Option.ite_none_right_eq_some.mp hbegins
    cases heq
    have hchild (status' : ℕ) (hreaped : c.child = .reaped status') :
        Child.exited status = .reaped status' := by
      cases hrunning.symm.trans hreaped
    exact ⟨h.reapers.begins rfl rfl rfl rfl, h.recorded.begins rfl hchild rfl rfl,
      h.claimed.begins nofun nofun rfl rfl rfl, h.terminating.begins hnew rfl rfl rfl,
      h.watched.begins hnew rfl (fun _ => .inl) rfl rfl rfl rfl⟩

end Sound

end Glider.PopenWdt
