import Glider.Compiler.CCpp

namespace Glider.Compiler

open Lib StringStream

variable (locale : PerLocaleMap)

section Reads

-- Output that does not fit the buffer after what is already there.
def Full (before output : Bytes) : Prop :=
  output ≠ [] ∧ BASH_MAX_BUF < before.length + output.length

instance (before output : Bytes) : Decidable (Full before output) :=
  inferInstanceAs (Decidable (_ ∧ _))

-- Each read keeps what the buffer still has room for.
theorem read_eq (r : Reading) (chunk : Bytes) :
    r.read chunk =
      ⟨r.res.write (chunk.take (BASH_MAX_BUF - r.bufLen)),
        r.bufLen + min (BASH_MAX_BUF - r.bufLen) chunk.length,
        r.hasmore || decide (BASH_MAX_BUF - r.bufLen < chunk.length)⟩ := by
  have havailable : (if r.bufLen < BASH_MAX_BUF then BASH_MAX_BUF - r.bufLen else 0) =
      BASH_MAX_BUF - r.bufLen := by
    split <;> omega
  have hmore : (min (BASH_MAX_BUF - r.bufLen) chunk.length ≠ chunk.length) =
      (BASH_MAX_BUF - r.bufLen < chunk.length) := by
    apply propext
    omega
  unfold Reading.read
  simp only [havailable, hmore]
  split
  · rw [← List.take_eq_take_min]
  · next hnone =>
    have hzero : min (BASH_MAX_BUF - r.bufLen) chunk.length = 0 := by omega
    rw [List.take_eq_take_min, hzero, List.take_zero]
    rfl

theorem foldl_read_of_full (reads : List Bytes) (r : Reading) (hfull : BASH_MAX_BUF ≤ r.bufLen) :
    (reads.foldl Reading.read r).res = r.res ∧
      ((reads.foldl Reading.read r).hasmore = true ↔ r.hasmore = true ∨ reads.flatten ≠ []) := by
  have hroom : BASH_MAX_BUF - r.bufLen = 0 := by omega
  induction reads generalizing r with
  | nil => simp
  | cons chunk reads ih =>
    have hread : r.read chunk = ⟨r.res, r.bufLen, r.hasmore || decide (0 < chunk.length)⟩ := by
      rw [read_eq, hroom, List.take_zero, Nat.zero_min]
      rfl
    rw [List.foldl_cons, hread]
    obtain ⟨hres, hmore⟩ :=
      ih ⟨r.res, r.bufLen, r.hasmore || decide (0 < chunk.length)⟩ hfull hroom
    refine ⟨hres, hmore.trans ?_⟩
    simp only [Bool.or_eq_true, decide_eq_true_eq, List.length_pos_iff, List.flatten_cons, ne_eq,
      List.append_eq_nil_iff, not_and_or, or_assoc]

-- While the stream is written at its end it takes what fits, however the output is split.
theorem foldl_read_of_atEnd (reads : List Bytes) (r : Reading) (hend : r.res.AtEnd)
    (hlen : r.bufLen = r.res.content.length) :
    (reads.foldl Reading.read r).res.content =
        r.res.content ++ reads.flatten.take (BASH_MAX_BUF - r.bufLen) ∧
      (reads.foldl Reading.read r).res.AtEnd ∧
      ((reads.foldl Reading.read r).hasmore = true ↔
        r.hasmore = true ∨ Full r.res.content reads.flatten) := by
  induction reads generalizing r with
  | nil => simp [hend, Full]
  | cons chunk reads ih =>
    rw [List.foldl_cons]
    have hcontent := content_write_of_atEnd hend (chunk.take (BASH_MAX_BUF - r.bufLen))
    have hlen' : (r.read chunk).bufLen = (r.read chunk).res.content.length := by
      rw [read_eq, hcontent, List.length_append, List.length_take, hlen]
    have hend' : (r.read chunk).res.AtEnd := by
      rw [read_eq]
      exact hend.write _
    obtain ⟨hkept, hstill, hmore⟩ := ih (r.read chunk) hend' hlen'
    refine ⟨?_, hstill, hmore.trans ?_⟩
    · have hroom : BASH_MAX_BUF - (r.read chunk).bufLen =
          BASH_MAX_BUF - r.bufLen - chunk.length := by
        rw [read_eq]
        dsimp only
        omega
      rw [hkept, hroom, read_eq, hcontent, List.append_assoc, List.flatten_cons, List.take_append]
    · have htotal : (r.read chunk).res.content.length =
          r.res.content.length + min (BASH_MAX_BUF - r.bufLen) chunk.length := by
        rw [read_eq, hcontent, List.length_append, List.length_take]
      have hflag : (r.read chunk).hasmore = true ↔
          r.hasmore = true ∨ BASH_MAX_BUF - r.bufLen < chunk.length := by
        rw [read_eq, Bool.or_eq_true, decide_eq_true_eq]
      rw [hflag]
      unfold Full
      rw [htotal, ← hlen, ← List.length_pos_iff, ← List.length_pos_iff, List.flatten_cons,
        List.length_append]
      by_cases hsome : r.hasmore = true
      · simp only [hsome, true_or]
      · simp only [hsome, Bool.false_eq_true, false_or]
        omega

end Reads

section RunCommand

-- What a stream holds after a command whose writer stayed at the end: all of it, or a prefix and
-- the marker when the buffer is full.
def shown (before output : Bytes) : Bytes :=
  if Full before output then truncate locale (before ++ output) else before ++ output

-- How much of the text a truncation keeps.
def room : ℕ :=
  if (marker locale).length < BASH_MAX_BUF then BASH_MAX_BUF - (marker locale).length
  else BASH_MAX_BUF

theorem truncate_eq {output : Bytes} (hlen : BASH_MAX_BUF ≤ output.length) :
    truncate locale output =
      output.take (room locale) ++
        if (marker locale).length < BASH_MAX_BUF then marker locale else [] := by
  unfold truncate room
  split
  · next hfits =>
    have hmin : min output.length (BASH_MAX_BUF - (marker locale).length) =
        BASH_MAX_BUF - (marker locale).length := by
      omega
    rw [hmin, resize_of_le (by omega)]
  · rw [resize_of_le hlen, List.append_nil]

theorem truncate_congr {first second : Bytes} (hfirst : BASH_MAX_BUF ≤ first.length)
    (hsecond : BASH_MAX_BUF ≤ second.length) :
    truncate locale first = truncate locale second ↔
      first.take (room locale) = second.take (room locale) := by
  rw [truncate_eq locale hfirst, truncate_eq locale hsecond, List.append_left_inj]

theorem room_le : room locale ≤ BASH_MAX_BUF := by
  unfold room
  split <;> omega

theorem length_truncate {output : Bytes} (hlen : BASH_MAX_BUF ≤ output.length) :
    (truncate locale output).length = BASH_MAX_BUF := by
  have hroom := room_le locale
  rw [truncate_eq locale hlen, List.length_append, List.length_take, Nat.min_eq_left (by omega)]
  unfold room
  split
  · omega
  · rfl

theorem take_truncate {output : Bytes} (hlen : BASH_MAX_BUF ≤ output.length) :
    (truncate locale output).take (room locale) = output.take (room locale) := by
  have hroom := room_le locale
  have hkept : (output.take (room locale)).length = room locale := by
    rw [List.length_take, Nat.min_eq_left (by omega)]
  rw [truncate_eq locale hlen, List.take_left' hkept]

-- A second truncation finds the text as the first one left it.
theorem truncate_truncate {output : Bytes} (hlen : BASH_MAX_BUF ≤ output.length) (more : Bytes) :
    truncate locale (truncate locale output ++ more) = truncate locale output := by
  have hroom := room_le locale
  have htruncated := length_truncate locale hlen
  apply (truncate_congr locale (by rw [List.length_append]; omega) hlen).mpr
  rw [List.take_append_of_le_length (by omega), take_truncate locale hlen]

theorem shown_of_full {before output : Bytes} (h : Full before output) :
    shown locale before output = truncate locale (before ++ output) := if_pos h

theorem shown_of_fits {before output : Bytes} (h : ¬Full before output) :
    shown locale before output = before ++ output := if_neg h

variable {locale : PerLocaleMap} {cmd : Bytes} {res : StringStream} {useWdt : Bool}
  {execution : Execution}

theorem runCommand_of_fits (hend : res.AtEnd) (hfits : ¬Full res.content execution.output) :
    (runCommand locale cmd res useWdt execution).1.content = res.content ++ execution.output ∧
      (runCommand locale cmd res useWdt execution).1.AtEnd := by
  cases execution with
  | initFails | startFails => exact ⟨(List.append_nil _).symm, hend⟩
  | runs reads activated exit =>
    obtain ⟨hkept, hstill, hmore⟩ :=
      foldl_read_of_atEnd reads ⟨res, res.content.length, false⟩ hend rfl
    have hdone : (reads.foldl Reading.read ⟨res, res.content.length, false⟩).hasmore = false := by
      by_contra hsome
      rcases hmore.mp (by simpa using hsome) with hfalse | hfull
      · exact Bool.false_ne_true hfalse
      · exact hfits hfull
    have hwhole : reads.flatten.take (BASH_MAX_BUF - res.content.length) = reads.flatten := by
      by_cases hnone : reads.flatten = []
      · rw [hnone, List.take_nil]
      · apply List.take_of_length_le
        have hle : ¬BASH_MAX_BUF < res.content.length + reads.flatten.length :=
          fun hlt => hfits ⟨hnone, hlt⟩
        omega
    simp only [runCommand, hdone, Bool.false_eq_true, if_false]
    exact ⟨by rw [hkept, hwhole]; rfl, hstill⟩

theorem runCommand_of_full (hend : res.AtEnd) (hfull : Full res.content execution.output) :
    (runCommand locale cmd res useWdt execution).1 =
      .replaceText (truncate locale (res.content ++ execution.output)) := by
  cases execution with
  | initFails | startFails => exact absurd rfl hfull.1
  | runs reads activated exit =>
    obtain ⟨hkept, hstill, hmore⟩ :=
      foldl_read_of_atEnd reads ⟨res, res.content.length, false⟩ hend rfl
    have hlen : BASH_MAX_BUF < res.content.length + reads.flatten.length := hfull.2
    simp only [runCommand, hmore.mpr (.inr hfull), if_true, hkept]
    congr 1
    apply (truncate_congr locale ?_ ?_).mpr
    · have hroom := room_le locale
      rw [List.take_append, List.take_append, List.take_take, Nat.min_eq_left (by omega)]
      rfl
    · rw [List.length_append, List.length_take]
      omega
    · rw [List.length_append]
      exact Nat.le_of_lt hlen

-- A full stream keeps its text but for the marker, wherever it is written next.
theorem runCommand_content_of_max_le (hmax : BASH_MAX_BUF ≤ res.content.length) :
    (runCommand locale cmd res useWdt execution).1.content =
      if execution.output = [] then res.content else truncate locale res.content := by
  cases execution with
  | initFails | startFails => rfl
  | runs reads activated exit =>
    obtain ⟨hkept, hmore⟩ := foldl_read_of_full reads ⟨res, res.content.length, false⟩ hmax
    simp only [runCommand, hkept]
    have hmore' : (reads.foldl Reading.read ⟨res, res.content.length, false⟩).hasmore = true ↔
        reads.flatten ≠ [] := by
      simpa using hmore
    by_cases hnone : reads.flatten = []
    · have hdone : ¬(reads.foldl Reading.read ⟨res, res.content.length, false⟩).hasmore = true :=
        fun hsome => hmore'.mp hsome hnone
      rw [if_neg hdone]
      exact (if_pos hnone).symm
    · rw [if_pos (hmore'.mpr hnone)]
      exact (if_neg hnone).symm

end RunCommand

section Report

variable (params : Params) (locale : PerLocaleMap) (message : Message) (host : Host)

def Host.ran : Bool := !host.stopRequested && host.programExists

def heading : Bytes := locale .runTime ++ Bytes.ascii ":\n"

-- The report of a run all of whose texts are put one after the other.
def reportText (cmd : Bytes) : Bytes :=
  let compiled :=
    shown locale (commandLine locale cmd) host.compile.output ++ Bytes.ascii "\n"
  if host.ran then shown locale (compiled ++ heading locale) host.program.output else compiled

-- The stream after the compiler's run, and after the program's.
def compiledStream (cmd : Bytes) : StringStream :=
  (runCommand locale cmd (empty.write (commandLine locale cmd)) true host.compile).1.write
    (Bytes.ascii "\n")

def executedStream (cmd : Bytes) : StringStream :=
  (runCommand locale (aoutname params)
    (((compiledStream locale host cmd).write (locale .runTime)).write (Bytes.ascii ":\n")) true
    host.program).1

theorem resultReady_not_mem_runCommand {locale : PerLocaleMap} {cmd : Bytes} {res : StringStream}
    {useWdt : Bool} {execution : Execution} (text : Bytes) :
    .resultReady text ∉ (runCommand locale cmd res useWdt execution).2 := by
  cases execution with
  | initFails | startFails => simp [runCommand]
  | runs reads activated exit =>
    by_cases htimeout : (useWdt && activated) = true
    · simp [runCommand, htimeout]
    · simp [runCommand, htimeout]

theorem verifyParseWrite_error {refusal : Callback} {text : Bytes}
    (h : verifyParseWrite locale message host = .error refusal) : .resultReady text ≠ refusal := by
  unfold verifyParseWrite at h
  split at h
  · cases h
    exact Callback.noConfusion
  · split at h
    · cases h
    · cases h
      exact Callback.noConfusion

theorem verifyParseWrite_ok {extraargs : Bytes}
    (h : verifyParseWrite locale message host = .ok extraargs) :
    extraargs = message.extraText.getD [] := by
  unfold verifyParseWrite at h
  split at h
  · cases h
  · split at h
    · cases h
      rfl
    · cases h

theorem resultReady_mem_run {text : Bytes}
    (h : .resultReady text ∈ (run params locale message host).callbacks) :
    text =
      if host.ran then
        (executedStream params locale host (command params (message.extraText.getD []))).content
      else (compiledStream locale host (command params (message.extraText.getD []))).content := by
  unfold run at h
  split at h
  · next refusal hrefused =>
    rw [List.mem_singleton] at h
    exact absurd h (verifyParseWrite_error locale message host hrefused)
  · next extraargs hverified =>
    have hargs := verifyParseWrite_ok locale message host hverified
    subst hargs
    by_cases hran : host.ran = true
    · have hran' : (!host.stopRequested && host.programExists) = true := hran
      simp only [hran', if_true] at h
      rw [if_pos hran]
      split at h
      · split at h
        · simp only [List.mem_append, List.mem_singleton, resultReady_not_mem_runCommand, false_or,
            Callback.resultReady.injEq] at h
          exact h
        · simp only [List.mem_append, resultReady_not_mem_runCommand, or_self] at h
      · simp only [List.mem_append, resultReady_not_mem_runCommand, or_self] at h
    · have hran' : ¬(!host.stopRequested && host.programExists) = true := hran
      simp only [hran', Bool.false_eq_true, if_false] at h
      rw [if_neg hran]
      split at h
      · simp only [List.mem_append, List.mem_singleton, resultReady_not_mem_runCommand, false_or,
          Callback.resultReady.injEq] at h
        exact h
      · exact absurd h (resultReady_not_mem_runCommand text)

-- A run that meets no refusal and can remove its files reports.
theorem run_reports {reply : Bytes} (hreply : message.reply = some reply)
    (hopens : host.opens = true) (hprogram : host.removesProgram = true)
    (hsource : host.removesSource = true) :
    .resultReady
        (if host.ran then
          (executedStream params locale host (command params (message.extraText.getD []))).content
        else (compiledStream locale host (command params (message.extraText.getD []))).content) ∈
      (run params locale message host).callbacks := by
  have hverified : verifyParseWrite locale message host = .ok (message.extraText.getD []) := by
    rw [verifyParseWrite, hreply]
    exact if_pos hopens
  rw [run, hverified]
  by_cases hran : host.ran = true
  · have hran' : (!host.stopRequested && host.programExists) = true := hran
    simp only [hran, hran', hprogram, hsource, if_true]
    exact List.mem_append_right _ (List.mem_singleton.mpr rfl)
  · have hran' : ¬(!host.stopRequested && host.programExists) = true := hran
    simp only [hran, hran', hsource, Bool.false_eq_true, if_false, if_true]
    exact List.mem_append_right _ (List.mem_singleton.mpr rfl)

-- A program that ran printed something, and the line and the compiler's output begin as what is
-- then written over them.
def Unnoticed (cmd : Bytes) : Prop :=
  host.ran = true ∧ host.program.output ≠ [] ∧
    (Bytes.ascii "\n" ++ heading locale).take (room locale) <+:
      commandLine locale cmd ++ host.compile.output

variable {params locale host} {cmd : Bytes}

variable (locale cmd) in
theorem content_commandStream :
    (empty.write (commandLine locale cmd)).content = commandLine locale cmd :=
  content_write_of_atEnd atEnd_empty _

theorem compiledStream_of_fits (hfits : ¬Full (commandLine locale cmd) host.compile.output) :
    (compiledStream locale host cmd).content =
        shown locale (commandLine locale cmd) host.compile.output ++ Bytes.ascii "\n" ∧
      (compiledStream locale host cmd).AtEnd := by
  rw [← content_commandStream locale cmd] at hfits
  obtain ⟨hcontent, hend⟩ :
      (runCommand locale cmd (empty.write (commandLine locale cmd)) true host.compile).1.content =
        (empty.write (commandLine locale cmd)).content ++ host.compile.output ∧ _ :=
    runCommand_of_fits (atEnd_empty.write _) hfits
  refine ⟨?_, hend.write _⟩
  rw [content_commandStream locale cmd] at hfits hcontent
  rw [compiledStream, content_write_of_atEnd hend, hcontent, shown_of_fits locale hfits]

-- The newline is written over the first byte of the truncated text.
theorem compiledStream_of_full (hfull : Full (commandLine locale cmd) host.compile.output) :
    compiledStream locale host cmd =
      (replaceText (truncate locale (commandLine locale cmd ++ host.compile.output))).write
        (Bytes.ascii "\n") := by
  rw [← content_commandStream locale cmd] at hfull
  rw [compiledStream, runCommand_of_full (atEnd_empty.write _) hfull, content_commandStream locale cmd]

theorem executedStream_of_fits (hfits : ¬Full (commandLine locale cmd) host.compile.output) :
    (executedStream params locale host cmd).content =
      shown locale (shown locale (commandLine locale cmd) host.compile.output ++
        Bytes.ascii "\n" ++ heading locale) host.program.output := by
  obtain ⟨hcontent, hend⟩ := compiledStream_of_fits hfits
  have hheaded := content_write_write (compiledStream locale host cmd) (locale .runTime)
    (Bytes.ascii ":\n")
  rw [content_write_of_atEnd hend, hcontent] at hheaded
  have hend' := (hend.write (locale .runTime)).write (Bytes.ascii ":\n")
  by_cases hfull : Full (shown locale (commandLine locale cmd) host.compile.output ++
      Bytes.ascii "\n" ++ heading locale) host.program.output
  · rw [shown_of_full locale hfull, executedStream,
      runCommand_of_full hend' (by rw [hheaded]; exact hfull), hheaded]
    rfl
  · rw [shown_of_fits locale hfull, executedStream,
      (runCommand_of_fits hend' (by rw [hheaded]; exact hfull)).1, hheaded]
    rfl

theorem max_le_length_of_full {before output : Bytes} (hfull : Full before output) :
    BASH_MAX_BUF ≤ (before ++ output).length := by
  rw [List.length_append]
  exact Nat.le_of_lt hfull.2

variable (params) in
theorem executedStream_of_full (hfull : Full (commandLine locale cmd) host.compile.output)
    {truncated overwritten : Bytes}
    (htruncated : truncated = truncate locale (commandLine locale cmd ++ host.compile.output))
    (hoverwritten : overwritten = Bytes.ascii "\n" ++ heading locale ++
      truncated.drop (Bytes.ascii "\n" ++ heading locale).length) :
    BASH_MAX_BUF ≤ overwritten.length ∧
      (executedStream params locale host cmd).content =
        if host.program.output = [] then overwritten else truncate locale overwritten := by
  have hlen := length_truncate locale (max_le_length_of_full hfull)
  have hmax : BASH_MAX_BUF ≤ overwritten.length := by
    rw [hoverwritten, List.length_append, List.length_drop, htruncated, hlen]
    omega
  have hheaded : (((compiledStream locale host cmd).write (locale .runTime)).write
      (Bytes.ascii ":\n")).content = overwritten := by
    rw [content_write_write, compiledStream_of_full hfull, content_write_write,
      content_write_replaceText, hoverwritten, htruncated]
    rfl
  rw [← hheaded] at hmax ⊢
  exact ⟨hmax, runCommand_content_of_max_le hmax⟩

theorem reportText_of_not_ran (hran : host.ran = false) :
    reportText locale host cmd =
      shown locale (commandLine locale cmd) host.compile.output ++ Bytes.ascii "\n" := by
  rw [reportText, hran, if_neg Bool.false_ne_true]

theorem reportText_of_ran (hran : host.ran = true) :
    reportText locale host cmd =
      shown locale (shown locale (commandLine locale cmd) host.compile.output ++
        Bytes.ascii "\n" ++ heading locale) host.program.output := by
  rw [reportText, hran, if_pos rfl]

-- A report without the program's part loses the byte that the newline is written over.
theorem compiledStream_ne_of_full (hran : host.ran = false)
    (hfull : Full (commandLine locale cmd) host.compile.output) :
    (compiledStream locale host cmd).content ≠ reportText locale host cmd := by
  intro h
  have hlen := congrArg List.length h
  have htruncated := length_truncate locale (max_le_length_of_full hfull)
  rw [compiledStream_of_full hfull, content_write_replaceText, reportText_of_not_ran hran,
    shown_of_full locale hfull, List.length_append, List.length_append, List.length_drop,
    htruncated] at hlen
  have hone : (Bytes.ascii "\n").length = 1 := rfl
  have hmax : BASH_MAX_BUF = 3072 := rfl
  omega

theorem executedStream_eq_iff_of_full (hran : host.ran = true)
    (hfull : Full (commandLine locale cmd) host.compile.output) :
    (executedStream params locale host cmd).content = reportText locale host cmd ↔
      Unnoticed locale host cmd := by
  obtain ⟨hmax, hcontent⟩ := executedStream_of_full params hfull rfl rfl
  have houtput := max_le_length_of_full hfull
  have htruncated := length_truncate locale houtput
  rw [hcontent, reportText_of_ran hran, shown_of_full locale hfull]
  by_cases hnone : host.program.output = []
  · have hfits : ¬Full (truncate locale (commandLine locale cmd ++ host.compile.output) ++
        Bytes.ascii "\n" ++ heading locale) host.program.output := fun hmore => hmore.1 hnone
    rw [if_pos hnone, shown_of_fits locale hfits]
    refine iff_of_false (fun h => ?_) (fun hunnoticed => hunnoticed.2.1 hnone)
    have hlen := congrArg List.length h
    have hone : (Bytes.ascii "\n").length = 1 := rfl
    have hbuf : BASH_MAX_BUF = 3072 := rfl
    simp only [List.length_append, List.length_drop, htruncated] at hlen
    omega
  · have hmore : Full (truncate locale (commandLine locale cmd ++ host.compile.output) ++
        Bytes.ascii "\n" ++ heading locale) host.program.output := by
      refine ⟨hnone, ?_⟩
      have hsome := List.length_pos_iff.mpr hnone
      simp only [List.length_append, htruncated]
      omega
    have hspec : truncate locale (truncate locale (commandLine locale cmd ++ host.compile.output) ++
        Bytes.ascii "\n" ++ heading locale ++ host.program.output) =
          truncate locale (commandLine locale cmd ++ host.compile.output) := by
      rw [List.append_assoc, List.append_assoc]
      exact truncate_truncate locale houtput _
    have hlen : ((Bytes.ascii "\n" ++ heading locale).take (room locale)).length ≤ room locale := by
      rw [List.length_take]
      omega
    rw [if_neg hnone, shown_of_full locale hmore, hspec, truncate_congr locale hmax houtput,
      ← take_truncate locale houtput, take_overwritten_eq_iff, take_truncate locale houtput,
      List.prefix_take_iff]
    constructor
    · exact fun ⟨hbegins, _⟩ => ⟨hran, hnone, hbegins⟩
    · exact fun ⟨_, _, hbegins⟩ => ⟨hbegins, hlen⟩

-- Whatever the texts and however they are split, a report has them all in order unless the
-- compiler's output fills the buffer.
theorem report_complete_iff {message : Message} {text : Bytes}
    (h : .resultReady text ∈ (run params locale message host).callbacks) :
    text = reportText locale host (command params (message.extraText.getD [])) ↔
      ¬Full (commandLine locale (command params (message.extraText.getD []))) host.compile.output ∨
        Unnoticed locale host (command params (message.extraText.getD [])) := by
  rw [resultReady_mem_run params locale message host h]
  by_cases hfull :
    Full (commandLine locale (command params (message.extraText.getD []))) host.compile.output
  · cases hran : host.ran with
    | false =>
      rw [if_neg Bool.false_ne_true]
      refine iff_of_false (compiledStream_ne_of_full hran hfull) ?_
      rintro (hnot | ⟨hran', -⟩)
      · exact hnot hfull
      · exact Bool.false_ne_true (hran.symm.trans hran')
    | true =>
      rw [if_pos rfl, executedStream_eq_iff_of_full hran hfull]
      simp only [hfull, not_true_eq_false, false_or]
  · refine iff_of_true ?_ (.inl hfull)
    cases hran : host.ran with
    | false => rw [if_neg Bool.false_ne_true, (compiledStream_of_fits hfull).1,
        reportText_of_not_ran hran]
    | true => rw [if_pos rfl, executedStream_of_fits hfull, reportText_of_ran hran]

end Report

section Runs

def english : PerLocaleMap
  | .commandIs => Bytes.ascii "Command is"
  | .runTime => Bytes.ascii "Run time"
  | .ibashOutputTruncated => Bytes.ascii "[Output truncated]"
  | .replyToACode => Bytes.ascii "Reply to a message with code as text"
  | .failedToWriteFile => Bytes.ascii "Failed to write file"

def gcc : Params := ⟨Bytes.ascii "/usr/bin/gcc", Bytes.ascii "./compile.c"⟩

def source : Message := ⟨none, some (Bytes.ascii "int main() \x7b\x7d")⟩

-- A clean compilation, and a program that prints in two pieces.
def greeting : Host where
  opens := true
  compile := .runs [] false ⟨0, false⟩
  stopRequested := false
  programExists := true
  program := .runs [Bytes.ascii "hel", Bytes.ascii "lo"] false ⟨0, false⟩
  removesProgram := true
  removesSource := true

-- Errors that fill the buffer; the program is not there to run.
def erring : Host where
  opens := true
  compile := .runs (List.replicate 13 (List.replicate 256 101)) false ⟨1, false⟩
  stopRequested := false
  programExists := false
  program := .initFails
  removesProgram := true
  removesSource := true

theorem report_complete_iff_greeting :
    (executedStream gcc english greeting (command gcc [])).content =
      Bytes.ascii "Command is: /usr/bin/gcc  ./compile.c -o ./compile.out\n\nRun time:\nhello" ∧
    (executedStream gcc english greeting (command gcc [])).content =
      reportText english greeting (command gcc []) := by
  have hfits : ¬Full (commandLine english (command gcc [])) greeting.compile.output := by
    decide +kernel
  have hreported := run_reports gcc english source greeting rfl rfl rfl rfl
  rw [if_pos (show greeting.ran = true from rfl)] at hreported
  exact ⟨by decide +kernel, (report_complete_iff hreported).mpr (.inl hfits)⟩

theorem report_overwritten :
    ¬∀ (params : Params) (locale : PerLocaleMap) (message : Message) (host : Host) (text : Bytes),
      .resultReady text ∈ (run params locale message host).callbacks →
        text = reportText locale host (command params (message.extraText.getD [])) := by
  intro h
  have hfull : Full (commandLine english (command gcc [])) erring.compile.output := by
    decide +kernel
  exact compiledStream_ne_of_full rfl hfull
    (h gcc english source erring _ (run_reports gcc english source erring rfl rfl rfl rfl))

end Runs

end Glider.Compiler
