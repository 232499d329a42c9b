import Mathlib.Data.List.Basic
import Glider.Lib.Transition

namespace Glider.Llm

open Glider.Lib

def isConsequential (toolName : String) : Bool :=
  toolName == "send_message" || toolName == "save_chat_info" ||
    toolName == "kernelbuild" || toolName == "rombuild"

def requiresExplicitApproval (toolName : String) : Bool :=
  toolName == "send_message" || toolName == "save_chat_info"

-- The JSON library is not part of the repository. `dump` is its serialiser; `none` is the exception
-- it throws on a string that is not valid UTF-8.
variable {Json : Type} (dump : Json → Option String)

def canonicalAction (toolName : String) (input : Json) : Option String :=
  (dump input).map fun text => toolName ++ "\n" ++ text

structure ToolExecutionPolicy where
  allowedTools : List String
  approvedAction : Option String
  consequentialActionAttempted : Bool

namespace ToolExecutionPolicy

def create (allowedTools : List String) : ToolExecutionPolicy :=
  ⟨allowedTools, none, false⟩

-- The answer is `none` when serialising the input throws.
def recordApproval (p : ToolExecutionPolicy) (toolName : String) (input : Json) :
    Option Bool × ToolExecutionPolicy :=
  if toolName ∉ p.allowedTools ∨ requiresExplicitApproval toolName = false ∨
      p.consequentialActionAttempted then
    (some false, p)
  else
    match canonicalAction dump toolName input with
    | none => (none, p)
    | some action => (some true, { p with approvedAction := some action })

-- How the locked section of `execute` ends.
inductive Verdict where
  | delegated
  | rejected (message : String)
  | threw

def check (p : ToolExecutionPolicy) (toolName : String) (input : Json) :
    Verdict × ToolExecutionPolicy :=
  if toolName ∉ p.allowedTools then
    (.rejected ("Tool call rejected: " ++ toolName ++ " was not exposed for this routed request."),
      p)
  else if isConsequential toolName then
    if p.consequentialActionAttempted then
      (.rejected "Tool call rejected: only one consequential action is allowed per turn.", p)
    else if requiresExplicitApproval toolName then
      match canonicalAction dump toolName input with
      | none => (.threw, p)
      | some requested =>
        if p.approvedAction ≠ some requested then
          (.rejected ("Tool call rejected: this exact action has not been approved by the " ++
            "initiating admin."), p)
        else
          (.delegated, { p with approvedAction := none, consequentialActionAttempted := true })
    else
      (.delegated, { p with consequentialActionAttempted := true })
  else
    (.delegated, p)

end ToolExecutionPolicy

structure Call (Json : Type) where
  toolName : String
  input : Json
deriving DecidableEq

-- What a delegate does: it returns a text or throws, and may set the error flag.
structure Reply where
  result : Option String
  isError : Bool

inductive Event (Json : Type) where
  | approval (call : Call Json) (answer : Option Bool)
  | refused (call : Call Json) (verdict : ToolExecutionPolicy.Verdict)
  | passed (call : Call Json)
  | delegate (call : Call Json) (reply : Reply)

-- The policy, the calls of `execute` that left the locked section and have not yet called their
-- delegate, and all that happened so far, newest first.
structure Turn (Json : Type) where
  policy : ToolExecutionPolicy
  pending : List (Call Json)
  history : List (Event Json)

namespace Turn

def start (allowedTools : List String) : Turn Json :=
  ⟨ToolExecutionPolicy.create allowedTools, [], []⟩

inductive Step (Json : Type) where
  | recordApproval (call : Call Json)
  | check (call : Call Json)
  | delegate (thread : ℕ) (reply : Reply)

def step : Transition (Turn Json) (Step Json)
  | t, .recordApproval call =>
    let r := t.policy.recordApproval dump call.toolName call.input
    some { t with policy := r.2, history := .approval call r.1 :: t.history }
  | t, .check call =>
    let r := t.policy.check dump call.toolName call.input
    match r.1 with
    | .delegated =>
      some ⟨r.2, t.pending ++ [call], .passed call :: t.history⟩
    | verdict => some ⟨r.2, t.pending, .refused call verdict :: t.history⟩
  | t, .delegate thread reply =>
    t.pending[thread]?.map fun call =>
      { t with pending := t.pending.eraseIdx thread,
               history := .delegate call reply :: t.history }

end Turn

-- The calls that reached a delegate, newest first.
def delegated (history : List (Event Json)) : List (Call Json) :=
  history.filterMap fun
    | .delegate call _ => some call
    | _ => none

-- The most recent approval that was recorded, with the number of events before it.
def lastApproval : List (Event Json) → Option (ℕ × Call Json)
  | [] => none
  | .approval call (some true) :: older => some (older.length, call)
  | _ :: older => lastApproval older

def ApprovedBy (history : List (Event Json)) (call : Call Json) : Prop :=
  ∃ n given text, lastApproval history = some (n, given) ∧ given.toolName = call.toolName ∧
    dump given.input = some text ∧ dump call.input = some text

-- What the boundary promises about everything that was delegated in a turn.
structure Respects (allowedTools : List String) (history : List (Event Json)) : Prop where
  exposed : ∀ call ∈ delegated history, call.toolName ∈ allowedTools
  single : (delegated history).countP (fun call => isConsequential call.toolName) ≤ 1
  approved : ∀ newer call reply older, history = newer ++ .delegate call reply :: older →
    requiresExplicitApproval call.toolName = true → ApprovedBy dump older call
  once : ∀ newer call reply older newer' call' reply' older',
    history = newer ++ .delegate call reply :: older →
    history = newer' ++ .delegate call' reply' :: older' →
    requiresExplicitApproval call.toolName = true →
    requiresExplicitApproval call'.toolName = true →
    lastApproval older = lastApproval older' → older = older'

theorem consequential_of_requiresApproval {toolName : String}
    (h : requiresExplicitApproval toolName = true) : isConsequential toolName = true := by
  simp only [requiresExplicitApproval, Bool.or_eq_true] at h
  simp only [isConsequential, Bool.or_eq_true]
  exact .inl (.inl h)

-- A tool that needs approval has no line break in its name, so that the text determines both parts.
theorem canonicalAction_inj {tool other : String} {input input' : Json} {action : String}
    (ht : requiresExplicitApproval tool = true) (ho : requiresExplicitApproval other = true)
    (h : canonicalAction dump tool input = some action)
    (h' : canonicalAction dump other input' = some action) :
    tool = other ∧ ∃ text, dump input = some text ∧ dump input' = some text := by
  simp only [canonicalAction, Option.map_eq_some_iff] at h h'
  obtain ⟨text, hd, ha⟩ := h
  obtain ⟨text', hd', ha'⟩ := h'
  have he := congrArg String.toList (ha.trans ha'.symm)
  simp only [requiresExplicitApproval, Bool.or_eq_true, beq_iff_eq] at ht ho
  simp only [String.toList_append, List.append_assoc] at he
  rcases ht with rfl | rfl <;> rcases ho with rfl | rfl
  · refine ⟨rfl, text, hd, ?_⟩
    rw [hd', String.toList_inj.mp (List.append_cancel_left (List.append_cancel_left he))]
  · simp at he
  · simp at he
  · refine ⟨rfl, text, hd, ?_⟩
    rw [hd', String.toList_inj.mp (List.append_cancel_left (List.append_cancel_left he))]

namespace ToolExecutionPolicy

-- The two ways an approval request can end, and the four of the locked check.
theorem recordApproval_cases (p : ToolExecutionPolicy) (toolName : String) (input : Json) :
    (∃ answer, answer ≠ some true ∧ p.recordApproval dump toolName input = (answer, p)) ∨
    ∃ action, requiresExplicitApproval toolName = true ∧ p.consequentialActionAttempted = false ∧
      canonicalAction dump toolName input = some action ∧
      p.recordApproval dump toolName input = (some true, { p with approvedAction := some action }) := by
  unfold recordApproval
  by_cases h : toolName ∉ p.allowedTools ∨ requiresExplicitApproval toolName = false ∨
      p.consequentialActionAttempted = true
  · rw [if_pos h]
    exact .inl ⟨some false, by simp, rfl⟩
  · rw [if_neg h]
    simp only [not_or, not_not] at h
    cases ha : canonicalAction dump toolName input with
    | none => exact .inl ⟨none, by simp, rfl⟩
    | some action => exact .inr ⟨action, by simpa using h.2.1, by simpa using h.2.2, rfl, rfl⟩

theorem check_cases (p : ToolExecutionPolicy) (toolName : String) (input : Json) :
    (∃ verdict, verdict ≠ .delegated ∧ p.check dump toolName input = (verdict, p)) ∨
    (toolName ∈ p.allowedTools ∧ isConsequential toolName = false ∧
      p.check dump toolName input = (.delegated, p)) ∨
    (toolName ∈ p.allowedTools ∧ isConsequential toolName = true ∧
      p.consequentialActionAttempted = false ∧ requiresExplicitApproval toolName = false ∧
      p.check dump toolName input = (.delegated, { p with consequentialActionAttempted := true })) ∨
    ∃ requested, toolName ∈ p.allowedTools ∧ isConsequential toolName = true ∧
      p.consequentialActionAttempted = false ∧ requiresExplicitApproval toolName = true ∧
      canonicalAction dump toolName input = some requested ∧ p.approvedAction = some requested ∧
      p.check dump toolName input =
        (.delegated, { p with approvedAction := none, consequentialActionAttempted := true }) := by
  unfold check
  by_cases hm : toolName ∈ p.allowedTools
  swap
  · rw [if_pos hm]
    exact .inl ⟨_, by simp, rfl⟩
  rw [if_neg (not_not_intro hm)]
  cases hc : isConsequential toolName with
  | false => exact .inr (.inl ⟨hm, rfl, rfl⟩)
  | true =>
    rw [if_pos rfl]
    cases hd : p.consequentialActionAttempted with
    | true => exact .inl ⟨_, by simp, rfl⟩
    | false =>
      rw [if_neg Bool.false_ne_true]
      cases hr : requiresExplicitApproval toolName with
      | false => exact .inr (.inr (.inl ⟨hm, rfl, rfl, rfl, rfl⟩))
      | true =>
        rw [if_pos rfl]
        cases ha : canonicalAction dump toolName input with
        | none => exact .inl ⟨_, by simp, rfl⟩
        | some requested =>
          by_cases hp : p.approvedAction = some requested
          · refine .inr (.inr (.inr ⟨requested, hm, rfl, rfl, rfl, rfl, hp, ?_⟩))
            simp only [hp, ne_eq, not_true_eq_false, if_false]
          · dsimp only
            rw [if_pos hp]
            exact .inl ⟨_, by simp, rfl⟩

end ToolExecutionPolicy

@[simp] theorem delegated_delegate (call : Call Json) (reply : Reply) (older : List (Event Json)) :
    delegated (.delegate call reply :: older) = call :: delegated older := rfl

@[simp] theorem delegated_append (newer older : List (Event Json)) :
    delegated (newer ++ older) = delegated newer ++ delegated older := List.filterMap_append

theorem lastApproval_approval {call : Call Json} {answer : Option Bool} (h : answer ≠ some true)
    (older : List (Event Json)) :
    lastApproval (.approval call answer :: older) = lastApproval older := by
  rcases answer with _ | _ | _
  · rfl
  · rfl
  · exact absurd rfl h

namespace Turn

-- Every delegation so far found its approval; by recursion over the history.
def Justified : List (Event Json) → Prop
  | [] => True
  | .delegate call _ :: older =>
    (requiresExplicitApproval call.toolName = true → ApprovedBy dump older call) ∧ Justified older
  | _ :: older => Justified older

theorem Justified.of_append {newer older : List (Event Json)}
    (h : Justified dump (newer ++ older)) : Justified dump older := by
  induction newer with
  | nil => exact h
  | cons event newer ih =>
    cases event with
    | approval => exact ih h
    | refused => exact ih h
    | passed => exact ih h
    | delegate => exact ih h.2

def consequentialCalls (calls : List (Call Json)) : ℕ :=
  calls.countP fun call => isConsequential call.toolName

structure Safe (allowedTools : List String) (t : Turn Json) : Prop where
  tools : t.policy.allowedTools = allowedTools
  pending_exposed : ∀ call ∈ t.pending, call.toolName ∈ allowedTools
  exposed : ∀ call ∈ delegated t.history, call.toolName ∈ allowedTools
  budget : consequentialCalls t.pending + consequentialCalls (delegated t.history) =
    if t.policy.consequentialActionAttempted then 1 else 0
  recorded : t.policy.consequentialActionAttempted = false → ∀ action,
    t.policy.approvedAction = some action → ∃ n given, lastApproval t.history = some (n, given) ∧
      requiresExplicitApproval given.toolName = true ∧
      canonicalAction dump given.toolName given.input = some action
  approved : ∀ call ∈ t.pending, requiresExplicitApproval call.toolName = true →
    t.policy.consequentialActionAttempted = true ∧ ApprovedBy dump t.history call
  justified : Justified dump t.history

variable {dump} {allowedTools : List String} {t u : Turn Json}

theorem Safe.start : Safe dump allowedTools (start allowedTools) where
  tools := rfl
  pending_exposed := by simp [Turn.start]
  exposed := by simp [Turn.start, delegated]
  budget := rfl
  recorded := by simp [Turn.start, ToolExecutionPolicy.create]
  approved := by simp [Turn.start]
  justified := trivial

-- An event that is neither an approval nor a delegation changes nothing that is recorded.
theorem Safe.of_refused (h : Safe dump allowedTools t) (event : Event Json)
    (hd : delegated (event :: t.history) = delegated t.history)
    (ha : lastApproval (event :: t.history) = lastApproval t.history)
    (hj : Justified dump t.history → Justified dump (event :: t.history)) :
    Safe dump allowedTools { t with history := event :: t.history } where
  tools := h.tools
  pending_exposed := h.pending_exposed
  exposed := hd ▸ h.exposed
  budget := hd ▸ h.budget
  recorded := by rw [ha]; exact h.recorded
  approved := by
    intro call hc hr
    obtain ⟨hattempt, hby⟩ := h.approved call hc hr
    refine ⟨hattempt, ?_⟩
    simpa only [ApprovedBy, ha] using hby
  justified := hj h.justified

theorem Safe.recordApproval (h : Safe dump allowedTools t) (call : Call Json)
    (hu : step dump t (.recordApproval call) = some u) : Safe dump allowedTools u := by
  simp only [step, Option.some_inj] at hu
  subst hu
  rcases ToolExecutionPolicy.recordApproval_cases dump t.policy call.toolName call.input with
    ⟨answer, hne, he⟩ | ⟨action, hr, hfalse, hcan, he⟩
  · rw [he]
    exact h.of_refused (.approval call answer) rfl (lastApproval_approval hne _) id
  · rw [he]
    -- No approved call can be waiting, since nothing consequential was attempted.
    refine ⟨h.tools, h.pending_exposed, h.exposed, h.budget, ?_, ?_, h.justified⟩
    · rintro - action' ha
      obtain rfl := Option.some_inj.mp ha
      exact ⟨_, call, rfl, hr, hcan⟩
    · intro other hc ho
      exact absurd (h.approved other hc ho).1 (by rw [hfalse]; exact Bool.false_ne_true)

theorem Safe.pass (h : Safe dump allowedTools t) (call : Call Json) (policy : ToolExecutionPolicy)
    (htools : policy.allowedTools = allowedTools) (hexposed : call.toolName ∈ allowedTools)
    (hbudget : consequentialCalls (t.pending ++ [call]) + consequentialCalls (delegated t.history) =
      if policy.consequentialActionAttempted then 1 else 0)
    (hrecorded : policy.consequentialActionAttempted = false → policy = t.policy)
    (hkept : t.policy.consequentialActionAttempted = true →
      policy.consequentialActionAttempted = true)
    (happroved : requiresExplicitApproval call.toolName = true →
      policy.consequentialActionAttempted = true ∧ ApprovedBy dump t.history call) :
    Safe dump allowedTools ⟨policy, t.pending ++ [call], .passed call :: t.history⟩ where
  tools := htools
  pending_exposed := by
    intro c hc
    rcases List.mem_append.mp hc with hc | hc
    · exact h.pending_exposed c hc
    · rwa [List.mem_singleton.mp hc]
  exposed := h.exposed
  budget := hbudget
  recorded := by
    intro hf
    obtain rfl := hrecorded hf
    exact h.recorded hf
  approved := by
    intro c hc hr
    rcases List.mem_append.mp hc with hc | hc
    · obtain ⟨hattempt, hby⟩ := h.approved c hc hr
      exact ⟨hkept hattempt, hby⟩
    · rw [List.mem_singleton.mp hc] at hr ⊢
      exact happroved hr
  justified := h.justified

theorem consequentialCalls_append (calls : List (Call Json)) (call : Call Json) :
    consequentialCalls (calls ++ [call]) =
      consequentialCalls calls + if isConsequential call.toolName then 1 else 0 := by
  simp only [consequentialCalls, List.countP_append, List.countP_singleton]

theorem Safe.check (h : Safe dump allowedTools t) (call : Call Json)
    (hu : step dump t (.check call) = some u) : Safe dump allowedTools u := by
  have hbudget := h.budget
  rcases ToolExecutionPolicy.check_cases dump t.policy call.toolName call.input with
    ⟨verdict, hne, he⟩ | ⟨hm, hc, he⟩ | ⟨hm, hc, hd, hr, he⟩ | ⟨requested, hm, hc, hd, hr, ha, hp, he⟩
  · have hs : u = { t with history := .refused call verdict :: t.history } := by
      simp only [step, he] at hu
      cases verdict with
      | delegated => exact absurd rfl hne
      | rejected | threw => exact (Option.some_inj.mp hu).symm
    rw [hs]
    exact h.of_refused (.refused call verdict) rfl rfl id
  all_goals
    simp only [step, he, Option.some_inj] at hu
    subst hu
    rw [h.tools] at hm
  · refine h.pass call t.policy h.tools hm ?_ (fun _ => rfl) id ?_
    · rw [consequentialCalls_append, hc]
      simpa using hbudget
    · intro hr
      rw [consequential_of_requiresApproval hr] at hc
      exact absurd hc.symm Bool.false_ne_true
  · refine h.pass call _ h.tools hm ?_ (fun hf => absurd hf (by simp)) (fun _ => rfl) ?_
    · rw [hd, if_neg Bool.false_ne_true] at hbudget
      rw [consequentialCalls_append, hc, if_pos rfl]
      show _ = 1
      omega
    · intro hr'
      exact absurd (hr.symm.trans hr') Bool.false_ne_true
  · refine h.pass call _ h.tools hm ?_ (fun hf => absurd hf (by simp)) (fun _ => rfl) ?_
    · rw [hd, if_neg Bool.false_ne_true] at hbudget
      rw [consequentialCalls_append, hc, if_pos rfl]
      show _ = 1
      omega
    · intro _
      obtain ⟨n, given, hlast, hgr, hcan⟩ := h.recorded hd requested hp
      obtain ⟨htool, text, hg, hi⟩ := canonicalAction_inj dump hgr hr hcan ha
      exact ⟨rfl, n, given, text, hlast, htool, hg, hi⟩

theorem consequentialCalls_eraseIdx {calls : List (Call Json)} {i : ℕ} {call : Call Json}
    (h : calls[i]? = some call) :
    consequentialCalls (calls.eraseIdx i) + (if isConsequential call.toolName then 1 else 0) =
      consequentialCalls calls := by
  induction calls generalizing i with
  | nil => simp at h
  | cons first rest ih =>
    cases i with
    | zero =>
      obtain rfl := Option.some_inj.mp h
      simp only [consequentialCalls, List.eraseIdx_cons_zero, List.countP_cons]
    | succ i =>
      have hr := ih (List.getElem?_cons_succ ▸ h)
      simp only [consequentialCalls, List.eraseIdx_cons_succ, List.countP_cons] at hr ⊢
      omega

theorem Safe.delegate (h : Safe dump allowedTools t) (thread : ℕ) (reply : Reply)
    (hu : step dump t (.delegate thread reply) = some u) : Safe dump allowedTools u := by
  simp only [step, Option.map_eq_some_iff] at hu
  obtain ⟨call, hget, rfl⟩ := hu
  have hmem : call ∈ t.pending := List.mem_of_getElem? hget
  have hrest : ∀ c ∈ t.pending.eraseIdx thread, c ∈ t.pending :=
    fun c hc => List.mem_of_mem_eraseIdx hc
  have hcount := consequentialCalls_eraseIdx hget
  have hbudget := h.budget
  refine ⟨h.tools, fun c hc => h.pending_exposed c (hrest c hc), ?_, ?_, h.recorded,
    fun c hc => h.approved c (hrest c hc), fun hr => (h.approved call hmem hr).2, h.justified⟩
  · intro c hc
    rcases List.mem_cons.mp hc with rfl | hc
    · exact h.pending_exposed c hmem
    · exact h.exposed c hc
  · simp only [delegated_delegate, consequentialCalls, List.countP_cons] at hcount hbudget ⊢
    omega

theorem Safe.step (h : Safe dump allowedTools t) (s : Step Json)
    (hu : step dump t s = some u) : Safe dump allowedTools u := by
  cases s with
  | recordApproval call => exact h.recordApproval call hu
  | check call => exact h.check call hu
  | delegate thread reply => exact h.delegate thread reply hu

theorem two_le_consequentialCalls {newer mid older : List (Event Json)} {call call' : Call Json}
    {reply reply' : Reply} (hc : isConsequential call.toolName = true)
    (hc' : isConsequential call'.toolName = true) :
    2 ≤ consequentialCalls
      (delegated (newer ++ .delegate call reply :: (mid ++ .delegate call' reply' :: older))) := by
  simp only [consequentialCalls, delegated_append, delegated_delegate, List.countP_append,
    List.countP_cons, hc, hc', if_true]
  omega

-- Two different delegations of approved tools would be two consequential ones.
theorem Safe.once (h : Safe dump allowedTools t) {newer newer' : List (Event Json)}
    {call call' : Call Json} {reply reply' : Reply} {older older' : List (Event Json)}
    (hh : t.history = newer ++ .delegate call reply :: older)
    (hh' : t.history = newer' ++ .delegate call' reply' :: older')
    (hr : requiresExplicitApproval call.toolName = true)
    (hr' : requiresExplicitApproval call'.toolName = true) : older = older' := by
  have hc := consequential_of_requiresApproval hr
  have hc' := consequential_of_requiresApproval hr'
  have hle : consequentialCalls (delegated t.history) ≤ 1 := by
    have hb := h.budget
    split at hb <;> omega
  -- The history is split in two places; the older parts are comparable suffixes.
  rcases List.append_eq_append_iff.mp (hh.symm.trans hh') with ⟨mid, rfl, hm⟩ | ⟨mid, rfl, hm⟩
  · cases mid with
    | nil => exact (List.cons_eq_cons.mp hm).2
    | cons event mid =>
      obtain ⟨rfl, rfl⟩ := List.cons_eq_cons.mp hm
      rw [hh] at hle
      exact absurd (two_le_consequentialCalls hc hc') (Nat.not_le.mpr (Nat.lt_succ_of_le hle))
  · cases mid with
    | nil => exact (List.cons_eq_cons.mp hm).2.symm
    | cons event mid =>
      obtain ⟨rfl, rfl⟩ := List.cons_eq_cons.mp hm
      rw [hh'] at hle
      exact absurd (two_le_consequentialCalls hc' hc) (Nat.not_le.mpr (Nat.lt_succ_of_le hle))

theorem Safe.respects (h : Safe dump allowedTools t) : Respects dump allowedTools t.history where
  exposed := h.exposed
  single := by
    have hb := h.budget
    simp only [consequentialCalls] at hb
    split at hb <;> omega
  approved := by
    intro newer call reply older hh hr
    have hj := h.justified
    rw [hh] at hj
    exact (hj.of_append).1 hr
  once := fun _ _ _ _ _ _ _ _ hh hh' hr hr' _ => h.once hh hh' hr hr'

theorem history_respects_policy (dump : Json → Option String) (allowedTools : List String)
    (steps : List (Step Json)) (t : Turn Json)
    (hp : Transition.path (Turn.step dump) (Turn.start allowedTools) steps = some t) :
    Respects dump allowedTools t.history := by
  have hs : Safe dump allowedTools t :=
    Transition.path_invariant_of_step (Safe dump allowedTools) (fun _ s _ h hu => h.step s hu)
      Safe.start hp
  exact hs.respects

-- An approved message is sent; another text, a second approval and a build are refused.
def approvedTurn : List (Step String) :=
  [.recordApproval ⟨"send_message", "hi"⟩, .check ⟨"send_message", "ho"⟩,
    .check ⟨"send_message", "hi"⟩, .recordApproval ⟨"send_message", "ho"⟩,
    .check ⟨"rombuild", "x"⟩, .delegate 0 ⟨none, true⟩]

theorem history_respects_policy_approvedTurn : ∃ t,
    Transition.path (Turn.step some) (Turn.start ["send_message", "rombuild"]) approvedTurn =
      some t ∧ delegated t.history = [⟨"send_message", "hi"⟩] ∧
    Respects some ["send_message", "rombuild"] t.history := by
  obtain ⟨t, hp, hd⟩ := Transition.exists_path (Turn.step some)
    (Turn.start ["send_message", "rombuild"]) approvedTurn
    (fun t => delegated t.history = [⟨"send_message", "hi"⟩]) (by decide)
  exact ⟨t, hp, hd, history_respects_policy some _ approvedTurn t hp⟩

end Turn

end Glider.Llm
