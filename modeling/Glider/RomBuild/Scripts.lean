import Glider.Lib.Shell
import Glider.RomBuild.Service

namespace Glider.RomBuild

open Lib Shell

namespace BuildService

def joinLines (lines : List String) : String := "\n".intercalate lines

def rbeEnvHead : List String := [
  "# Remote Build Execution (RBE) configurations",
  "# See https://nopenopeguy.github.io/rbe for more information",
  "",
  "# --- Enable RBE and General Settings ---",
  "export USE_RBE=1",
  "export RBE_DIR=\""]

def rbeEnvConnection : List String := [
  "export NINJA_REMOTE_NUM_JOBS=128",
  "",
  "# --- BuildBuddy Connection Settings ---",
  "export RBE_service=\"aosp.buildbuddy.io:443\"",
  "export RBE_remote_headers="]

def rbeEnvTail : List String := [
  "export RBE_use_rpc_credentials=false",
  "export RBE_service_no_auth=true",
  "",
  "# --- Unified Downloads/Uploads (Recommended) ---",
  "export RBE_use_unified_downloads=true",
  "export RBE_use_unified_uploads=true",
  "",
  "# --- Execution Strategies (remote_local_fallback is generally best) ---",
  "export RBE_R8_EXEC_STRATEGY=remote_local_fallback",
  "export RBE_D8_EXEC_STRATEGY=remote_local_fallback",
  "export RBE_JAVAC_EXEC_STRATEGY=remote_local_fallback",
  "export RBE_JAR_EXEC_STRATEGY=remote_local_fallback",
  "export RBE_ZIP_EXEC_STRATEGY=remote_local_fallback",
  "export RBE_TURBINE_EXEC_STRATEGY=remote_local_fallback",
  "export RBE_SIGNAPK_EXEC_STRATEGY=remote_local_fallback",
  "export RBE_CXX_EXEC_STRATEGY=remote_local_fallback",
  "export RBE_CXX_LINKS_EXEC_STRATEGY=remote_local_fallback",
  "export RBE_ABI_LINKER_EXEC_STRATEGY=remote_local_fallback",
  "export RBE_CLANG_TIDY_EXEC_STRATEGY=remote_local_fallback",
  "export RBE_METALAVA_EXEC_STRATEGY=remote_local_fallback",
  "export RBE_LINT_EXEC_STRATEGY=remote_local_fallback",
  "",
  "# --- Enable RBE for Specific Tools ---",
  "export RBE_R8=1",
  "export RBE_D8=1",
  "export RBE_JAVAC=1",
  "export RBE_JAR=1",
  "export RBE_ZIP=1",
  "export RBE_TURBINE=1",
  "export RBE_SIGNAPK=1",
  "export RBE_CXX_LINKS=1",
  "export RBE_CXX=1",
  "export RBE_ABI_LINKER=1",
  "export RBE_CLANG_TIDY=1",
  "export RBE_METALAVA=1",
  "export RBE_LINT=1",
  "",
  "# --- Resource Pools ---",
  "export RBE_JAVA_POOL=default",
  "export RBE_METALAVA_POOL=default",
  "export RBE_LINT_POOL=default"]

def rbeHeader (rbeApiToken : String) : String := "x-buildbuddy-api-key=" ++ rbeApiToken

-- What `setup_rbe_env` writes. The path stands between double quotes, the header does not.
def rbeEnvContent (rbeCliPath : Path) (rbeApiToken : String) : String :=
  joinLines rbeEnvHead ++ BuildTask.shellSingleQuote rbeCliPath ++ "\"\n" ++
    joinLines rbeEnvConnection ++ BuildTask.shellSingleQuote (rbeHeader rbeApiToken) ++ "\n" ++
    joinLines rbeEnvTail

end BuildService

-- The commands line by line as bash gets them.
def sent (line : String) : List Char :=
  line.toList ++ if line.toList.getLast? = some '\n' then [] else ['\n']

def stdinText (lines : List String) : List Char := lines.flatMap sent

section Meaning

def Means (text : List Char) (commands : List (List String)) : Prop :=
  ∀ read, Evaluates text read ↔ read = commands.map (·.map String.toList)

def rbeEnvCommands (rbeDir header : String) : List (List String) := [
  ["export", "USE_RBE=1"],
  ["export", "RBE_DIR=" ++ rbeDir],
  ["export", "NINJA_REMOTE_NUM_JOBS=128"],
  ["export", "RBE_service=aosp.buildbuddy.io:443"],
  ["export", "RBE_remote_headers=" ++ header],
  ["export", "RBE_use_rpc_credentials=false"],
  ["export", "RBE_service_no_auth=true"],
  ["export", "RBE_use_unified_downloads=true"],
  ["export", "RBE_use_unified_uploads=true"],
  ["export", "RBE_R8_EXEC_STRATEGY=remote_local_fallback"],
  ["export", "RBE_D8_EXEC_STRATEGY=remote_local_fallback"],
  ["export", "RBE_JAVAC_EXEC_STRATEGY=remote_local_fallback"],
  ["export", "RBE_JAR_EXEC_STRATEGY=remote_local_fallback"],
  ["export", "RBE_ZIP_EXEC_STRATEGY=remote_local_fallback"],
  ["export", "RBE_TURBINE_EXEC_STRATEGY=remote_local_fallback"],
  ["export", "RBE_SIGNAPK_EXEC_STRATEGY=remote_local_fallback"],
  ["export", "RBE_CXX_EXEC_STRATEGY=remote_local_fallback"],
  ["export", "RBE_CXX_LINKS_EXEC_STRATEGY=remote_local_fallback"],
  ["export", "RBE_ABI_LINKER_EXEC_STRATEGY=remote_local_fallback"],
  ["export", "RBE_CLANG_TIDY_EXEC_STRATEGY=remote_local_fallback"],
  ["export", "RBE_METALAVA_EXEC_STRATEGY=remote_local_fallback"],
  ["export", "RBE_LINT_EXEC_STRATEGY=remote_local_fallback"],
  ["export", "RBE_R8=1"],
  ["export", "RBE_D8=1"],
  ["export", "RBE_JAVAC=1"],
  ["export", "RBE_JAR=1"],
  ["export", "RBE_ZIP=1"],
  ["export", "RBE_TURBINE=1"],
  ["export", "RBE_SIGNAPK=1"],
  ["export", "RBE_CXX_LINKS=1"],
  ["export", "RBE_CXX=1"],
  ["export", "RBE_ABI_LINKER=1"],
  ["export", "RBE_CLANG_TIDY=1"],
  ["export", "RBE_METALAVA=1"],
  ["export", "RBE_LINT=1"],
  ["export", "RBE_JAVA_POOL=default"],
  ["export", "RBE_METALAVA_POOL=default"],
  ["export", "RBE_LINT_POOL=default"]]

def buildCommands (t : BuildTask) (rbeEnvPath : Option Path) (vendor : String)
    (release : Option String) : List (List String) :=
  let combo := vendor ++ "_" ++ t.resolved.codename ++
    (release.elim "" fun name => "-" ++ name) ++ "-" ++ t.request.variant.text
  [["set", "-e"]] ++ (rbeEnvPath.map fun path => ["source", path]).toList ++
    (if t.settings.useCcache then [] else [["unset", "USE_CCACHE"], ["unset", "CCACHE_EXEC"]]) ++
    [["source", "build/envsetup.sh"], ["lunch", combo],
      ["m", t.resolved.romEntry.target, "-j" ++ toString t.request.parallelJobs], ["exit", "0"]]

end Meaning

section Quoted

theorem toList_shellSingleQuote (value : String) :
    (BuildTask.shellSingleQuote value).toList = quote value.toList := by
  have hquote : ("'" : String).toList = ['\''] := String.toList_ofList
  have hescape : ∀ c : Char, (if c = '\'' then "'\\''" else c.toString).toList = escapeQuote c := by
    intro c
    by_cases hc : c = '\''
    · rw [if_pos hc, escapeQuote, if_pos hc]
      exact String.toList_ofList
    · rw [if_neg hc, escapeQuote, if_neg hc]
      exact String.toList_singleton c
  simp only [BuildTask.shellSingleQuote, String.toList_append, String.toList_join, hquote,
    List.flatMap_map, hescape, quote, List.singleton_append]

theorem toList_newline : ("\n" : String).toList = ['\n'] := String.toList_ofList

theorem run_askpass : run .initial "#!/bin/sh\nprintf '%s\\n' ".toList =
    some ⟨.plain, none, ["printf".toList, "%s\\n".toList], []⟩ := by
  apply run_ofList
  decide

theorem means_askpass (token : String) :
    Means (BuildService.askpassScript token).toList [["printf", "%s\\n", token]] := by
  have hreads : Reads (BuildService.askpassScript token).toList
      [["printf".toList, "%s\\n".toList, token.toList]] := by
    intro before
    have htext : (BuildService.askpassScript token).toList =
        "#!/bin/sh\nprintf '%s\\n' ".toList ++ (quote token.toList ++ ['\n']) := by
      unfold BuildService.askpassScript
      rw [String.toList_append, String.toList_append, toList_shellSingleQuote, List.append_assoc]
      simp only [toList_newline]
    rw [htext, run_append_of_run (run_after before run_askpass), run_quote, run_newline]
    simp only [List.append_nil, Option.getD_none, List.nil_append, List.cons_append, run]
  exact fun read => hreads.evaluates_iff

theorem printf_askpass (token : String) :
    printf "%s\\n".toList [token.toList] = some (token ++ "\n").toList := by
  have hformat : "%s\\n".toList = ['%', 's', '\\', 'n'] := String.toList_ofList
  rw [hformat, String.toList_append, toList_newline]
  rfl

theorem getLast?_append_quote (s value : List Char) : (s ++ quote value).getLast? = some '\'' := by
  rw [quote, ← List.append_assoc, List.getLast?_concat]

theorem sent_of_quote {line : String} {s : List Char} {value : List Char}
    (h : line.toList = s ++ quote value) : sent line = s ++ (quote value ++ ['\n']) := by
  have hlast : line.toList.getLast? ≠ some '\n' := by
    rw [h, getLast?_append_quote]
    decide
  rw [sent, if_neg hlast, h, List.append_assoc]

theorem reads_source (path : String) :
    Reads (sent ("source " ++ BuildTask.shellSingleQuote path)) [["source".toList, path.toList]] := by
  have hsource : run .initial "source ".toList = some ⟨.plain, none, ["source".toList], []⟩ := by
    apply run_ofList
    decide
  intro before
  have htext : ("source " ++ BuildTask.shellSingleQuote path).toList =
      "source ".toList ++ quote path.toList := by
    rw [String.toList_append, toList_shellSingleQuote]
  rw [sent_of_quote htext, run_append_of_run (run_after before hsource), run_quote, run_newline]
  simp only [Option.getD_none, List.nil_append, List.cons_append, List.append_nil, run]

theorem all_isBare_toString (n : ℤ) : (toString n).toList.all isBare = true := by
  have hdigits : ∀ m : ℕ, (Nat.repr m).toList.all isBare = true := by
    intro m
    apply List.all_eq_true.mpr
    intro c hc
    apply isBare_of_isDigit
    exact Nat.isDigit_of_mem_toDigits (by decide) (by decide) (Nat.toList_repr ▸ hc)
  cases n with
  | ofNat m => exact hdigits m
  | negSucc m =>
    change ("-" ++ Nat.repr (m + 1)).toList.all isBare = true
    have hminus : ("-" : String).toList = ['-'] := String.toList_ofList
    rw [String.toList_append, List.all_append, hdigits, hminus]
    decide

theorem bare_separators : "_".toList.all isBare = true ∧ "-".toList.all isBare = true := by
  have hunderscore : ("_" : String).toList = ['_'] := String.toList_ofList
  have hminus : ("-" : String).toList = ['-'] := String.toList_ofList
  rw [hunderscore, hminus]
  decide

def releaseText (release : Option String) : String :=
  release.elim "" fun name => "-" ++ BuildTask.shellSingleQuote name

def lunchText (vendor codename : String) (release : Option String) (variant : String) : String :=
  BuildTask.shellSingleQuote vendor ++ "_" ++ BuildTask.shellSingleQuote codename ++
    releaseText release ++ "-" ++ BuildTask.shellSingleQuote variant

theorem run_release (word : Word) (words : Command) (before : List Command)
    (release : Option String) (after : List Char) :
    run ⟨.plain, some word, words, before⟩ ((releaseText release).toList ++ after) =
      run ⟨.plain, some (word ++ (release.elim "" fun name => "-" ++ name).toList), words, before⟩
        after := by
  cases release with
  | none =>
    have hempty : ("" : String).toList = [] := String.toList_ofList
    rw [releaseText, Option.elim_none, Option.elim_none, hempty, List.append_nil, List.nil_append]
  | some name =>
    rw [releaseText, Option.elim_some, Option.elim_some, String.toList_append,
      toList_shellSingleQuote, List.append_assoc, run_bare bare_separators.2, run_quote,
      Option.getD_some, String.toList_append, List.append_assoc]

theorem reads_lunch (vendor codename : String) (release : Option String) (variant : String) :
    Reads (sent ("lunch " ++ lunchText vendor codename release variant))
      [["lunch".toList, (vendor ++ "_" ++ codename ++
        (release.elim "" fun name => "-" ++ name) ++ "-" ++ variant).toList]] := by
  have hlunch : run .initial "lunch ".toList = some ⟨.plain, none, ["lunch".toList], []⟩ := by
    apply run_ofList
    decide
  intro before
  have htext : ("lunch " ++ lunchText vendor codename release variant).toList =
      "lunch ".toList ++ (quote vendor.toList ++ ("_".toList ++ (quote codename.toList ++
        ((releaseText release).toList ++ "-".toList)))) ++ quote variant.toList := by
    unfold lunchText
    rw [String.toList_append, String.toList_append, String.toList_append, String.toList_append,
      String.toList_append, String.toList_append, toList_shellSingleQuote, toList_shellSingleQuote,
      toList_shellSingleQuote]
    simp only [List.append_assoc]
  rw [sent_of_quote htext]
  simp only [List.append_assoc]
  rw [run_append_of_run (run_after before hlunch), run_quote, run_bare bare_separators.1, run_quote,
    run_release, run_bare bare_separators.2, run_quote, run_newline]
  rw [String.toList_append, String.toList_append, String.toList_append, String.toList_append,
    String.toList_append]
  simp only [Option.getD_none, Option.getD_some, List.nil_append, List.cons_append,
    List.append_nil, run]

theorem reads_make (target : String) (jobs : ℤ) :
    Reads (sent ("m " ++ BuildTask.shellSingleQuote target ++ (" -j" ++ toString jobs)))
      [["m".toList, target.toList, ("-j" ++ toString jobs).toList]] := by
  have hmake : run .initial "m ".toList = some ⟨.plain, none, ["m".toList], []⟩ := by
    apply run_ofList
    decide
  have hseparated : (" -j" : String).toList = [' ', '-', 'j'] := String.toList_ofList
  have hflag : ("-j" : String).toList = ['-', 'j'] := String.toList_ofList
  have hdigits := all_isBare_toString jobs
  have htext : ("m " ++ BuildTask.shellSingleQuote target ++ (" -j" ++ toString jobs)).toList =
      "m ".toList ++ (quote target.toList ++ (' ' :: ['-', 'j'] ++ (toString jobs).toList)) := by
    rw [String.toList_append, String.toList_append, String.toList_append, toList_shellSingleQuote,
      hseparated, List.append_assoc]
  have hlast : ("m ".toList ++ (quote target.toList ++
      (' ' :: ['-', 'j'] ++ (toString jobs).toList))).getLast? ≠ some '\n' := by
    intro hnewline
    have hne : [' ', '-', 'j'] ++ (toString jobs).toList ≠ [] := List.cons_ne_nil _ _
    rw [← List.append_assoc, List.getLast?_append_of_ne_nil _ hne] at hnewline
    have hmem := List.mem_of_getLast? hnewline
    rcases List.mem_append.mp hmem with hmem | hmem
    · revert hmem
      decide
    · have hbare := List.all_eq_true.mp hdigits _ hmem
      revert hbare
      decide
  intro before
  rw [sent, htext, if_neg hlast]
  simp only [List.append_assoc]
  have hword : ['-', 'j'] ++ (toString jobs).toList = ("-j" ++ toString jobs).toList := by
    rw [String.toList_append, hflag]
  have hbare : (['j'] ++ (toString jobs).toList).all isBare = true := by
    rw [List.all_append, hdigits]
    decide
  have htail : [' ', '-', 'j'] ++ ((toString jobs).toList ++ ['\n']) =
      ' ' :: '-' :: (['j'] ++ (toString jobs).toList ++ ['\n']) := rfl
  rw [run_append_of_run (run_after before hmake), run_quote, htail, run_blank,
    run_cons_of_step (step_bare (by decide) _ _ _), run_bare hbare, run_newline, ← hword]
  simp only [Option.getD_none, List.nil_append, List.cons_append, List.append_nil, run]

theorem reads_line {line : List Char} {commands : List Command}
    (h : run .initial (line ++ ['\n']) = some ⟨.plain, none, [], commands⟩)
    (hlast : line.getLast? ≠ some '\n') : Reads (sent (String.ofList line)) commands := by
  rw [sent, String.toList_ofList, if_neg hlast]
  exact .of_run h

theorem reads_set : Reads (sent "set -e") [["set".toList, "-e".toList]] := by
  apply reads_line
  · decide
  · decide

theorem reads_unset : Reads (sent "unset USE_CCACHE; unset CCACHE_EXEC;")
    [["unset".toList, "USE_CCACHE".toList], ["unset".toList, "CCACHE_EXEC".toList]] := by
  apply reads_line
  · decide
  · decide

theorem reads_envsetup :
    Reads (sent "source build/envsetup.sh") [["source".toList, "build/envsetup.sh".toList]] := by
  apply reads_line
  · decide
  · decide

theorem reads_exit : Reads (sent "exit 0") [["exit".toList, "0".toList]] := by
  apply reads_line
  · decide
  · decide

theorem reads_commandList (t : BuildTask) (rbeEnvPath : Option Path) (vendor : String)
    (release : Option String) :
    Reads (stdinText (t.commandList rbeEnvPath vendor release))
      ((buildCommands t rbeEnvPath vendor release).map (·.map String.toList)) := by
  have hsource : Reads (stdinText (rbeEnvPath.map fun path =>
      "source " ++ BuildTask.shellSingleQuote path).toList)
      ((rbeEnvPath.map fun path => ["source", path]).toList.map (·.map String.toList)) := by
    cases rbeEnvPath with
    | none => exact .nil
    | some path => exact (reads_source path).append .nil
  have hunset : Reads (stdinText
      (if t.settings.useCcache then [] else ["unset USE_CCACHE; unset CCACHE_EXEC;"]))
      ((if t.settings.useCcache then []
        else [["unset", "USE_CCACHE"], ["unset", "CCACHE_EXEC"]]).map (·.map String.toList)) := by
    by_cases hccache : t.settings.useCcache = true
    · rw [if_pos hccache, if_pos hccache]
      exact .nil
    · rw [if_neg hccache, if_neg hccache]
      exact reads_unset.append .nil
  have hbuild := reads_envsetup.append <|
    (reads_lunch vendor t.resolved.codename release t.request.variant.text).append <|
      (reads_make t.resolved.romEntry.target t.request.parallelJobs).append <|
        reads_exit.append .nil
  have hall := ((reads_set.append hsource).append hunset).append hbuild
  unfold BuildTask.commandList buildCommands
  simp only [stdinText, List.flatMap_append, List.map_append, List.flatMap_cons, List.flatMap_nil,
    List.map_cons, List.map_nil, List.append_assoc] at hall ⊢
  exact hall

end Quoted

section RbeEnv

abbrev Spells : String → List Char → Prop := fun text chars => text.toList = chars

theorem toList_eq_of_spells {texts : List String} {chars : List (List Char)}
    (h : List.Forall₂ Spells texts chars) : texts.map String.toList = chars := by
  rwa [← List.forall₂_eq_eq_eq, List.forall₂_map_left_iff]

theorem toList_commands {commands : List (List String)} {chars : List Command}
    (h : List.Forall₂ (List.Forall₂ Spells) commands chars) :
    commands.map (·.map String.toList) = chars := by
  rw [← List.forall₂_eq_eq_eq, List.forall₂_map_left_iff]
  exact h.imp fun _ _ => toList_eq_of_spells

theorem run_lines {lines : List String} {chars : List (List Char)} {commands : List (List String)}
    {mode : Mode} {word : Option Word} {words : Command} {read : List Command}
    (hlines : List.Forall₂ Spells lines chars)
    (hcommands : List.Forall₂ (List.Forall₂ Spells) commands read)
    (hrun : run .initial (['\n'].intercalate chars) = some ⟨mode, word, words, read⟩) :
    run .initial (BuildService.joinLines lines).toList =
      some ⟨mode, word, words, commands.map (·.map String.toList)⟩ := by
  rw [BuildService.joinLines, String.toList_intercalate, toList_newline,
    toList_eq_of_spells hlines, toList_commands hcommands, hrun]

theorem run_joinLines {lines : List String} {last : String} {chars : List (List Char)}
    {commands : List (List String)} {mode : Mode} {word : Option Word} {words : Command}
    {read : List Command} (hlines : List.Forall₂ Spells lines chars)
    (hcommands : List.Forall₂ (List.Forall₂ Spells) commands read)
    (hsimple : chars.all (IsSimple ·) = true) (hread : chars.flatMap lineCommands = read)
    (hlast : run .initial last.toList = some ⟨mode, word, words, []⟩) :
    run .initial (BuildService.joinLines (lines ++ [last])).toList =
      some ⟨mode, word, words, commands.map (·.map String.toList)⟩ := by
  rw [List.all_eq_true] at hsimple
  apply run_lines (List.rel_append hlines (.cons rfl .nil)) hcommands
  have hrun := run_intercalate (fun line hline => of_decide_eq_true (hsimple line hline)) hlast
  rwa [Lexer.behind, List.append_nil, hread] at hrun

theorem run_rbeEnvHead : run .initial (BuildService.joinLines BuildService.rbeEnvHead).toList =
    some ⟨.double, some "RBE_DIR=".toList, ["export".toList],
      [["export".toList, "USE_RBE=1".toList]]⟩ := by
  have hlines : BuildService.rbeEnvHead =
      BuildService.rbeEnvHead.dropLast ++ ["export RBE_DIR=\""] := rfl
  rw [hlines]
  change _ = (some ⟨_, _, _, [["export", "USE_RBE=1"]].map (·.map String.toList)⟩ : Option Lexer)
  apply run_joinLines
  case hlines =>
    simp only [BuildService.rbeEnvHead, List.dropLast_cons_cons, List.dropLast_singleton]
    repeat first | exact .nil | exact String.toList_ofList | apply List.Forall₂.cons
  case hcommands => repeat first | exact .nil | exact String.toList_ofList | apply List.Forall₂.cons
  case hsimple => decide +kernel
  case hread => decide +kernel
  case hlast =>
    apply run_ofList
    decide +kernel

theorem run_rbeEnvConnection :
    run .initial (BuildService.joinLines BuildService.rbeEnvConnection).toList =
      some ⟨.plain, some "RBE_remote_headers=".toList, ["export".toList],
        [["export".toList, "NINJA_REMOTE_NUM_JOBS=128".toList],
          ["export".toList, "RBE_service=aosp.buildbuddy.io:443".toList]]⟩ := by
  change _ = (some ⟨_, _, _, [["export", "NINJA_REMOTE_NUM_JOBS=128"],
    ["export", "RBE_service=aosp.buildbuddy.io:443"]].map (·.map String.toList)⟩ : Option Lexer)
  apply run_lines
  case hlines =>
    simp only [BuildService.rbeEnvConnection]
    repeat first | exact .nil | exact String.toList_ofList | apply List.Forall₂.cons
  case hcommands => repeat first | exact .nil | exact String.toList_ofList | apply List.Forall₂.cons
  case hrun => decide +kernel

theorem run_rbeEnvTail : run .initial (BuildService.joinLines BuildService.rbeEnvTail).toList =
    some ⟨.plain, some "RBE_LINT_POOL=default".toList, ["export".toList],
      (((rbeEnvCommands "" "").drop 5).dropLast).map (·.map String.toList)⟩ := by
  have hlines : BuildService.rbeEnvTail =
      BuildService.rbeEnvTail.dropLast ++ ["export RBE_LINT_POOL=default"] := rfl
  rw [hlines]
  apply run_joinLines
  case hlines =>
    simp only [BuildService.rbeEnvTail, List.dropLast_cons_cons, List.dropLast_singleton]
    repeat first | exact .nil | exact String.toList_ofList | apply List.Forall₂.cons
  case hcommands =>
    simp only [rbeEnvCommands, List.drop_succ_cons, List.drop_zero, List.dropLast_cons_cons,
      List.dropLast_singleton]
    repeat first | exact .nil | exact String.toList_ofList | apply List.Forall₂.cons
  case hsimple => decide +kernel
  case hread => decide +kernel
  case hlast =>
    apply run_ofList
    decide +kernel

theorem toList_enclosing (head path connection header tail : String) :
    (head ++ BuildTask.shellSingleQuote path ++ "\"\n" ++ connection ++
      BuildTask.shellSingleQuote header ++ "\n" ++ tail).toList =
      head.toList ++ (quote path.toList ++ ('"' :: '\n' :: (connection.toList ++
        (quote header.toList ++ ('\n' :: tail.toList))))) := by
  have hclosing : ("\"\n" : String).toList = ['"', '\n'] := String.toList_ofList
  rw [String.toList_append, String.toList_append, String.toList_append, String.toList_append,
    String.toList_append, String.toList_append, toList_shellSingleQuote, toList_shellSingleQuote,
    hclosing, toList_newline]
  simp only [List.append_assoc, List.cons_append, List.nil_append]

theorem toList_rbeEnvContent (rbeCliPath : Path) (rbeApiToken : String) :
    (BuildService.rbeEnvContent rbeCliPath rbeApiToken).toList =
      (BuildService.joinLines BuildService.rbeEnvHead).toList ++
        (quote rbeCliPath.toList ++ ('"' :: '\n' ::
          ((BuildService.joinLines BuildService.rbeEnvConnection).toList ++
          (quote (BuildService.rbeHeader rbeApiToken).toList ++
            ('\n' :: (BuildService.joinLines BuildService.rbeEnvTail).toList))))) :=
  toList_enclosing ..

-- Where nothing in the path is active between double quotes, the quotes around it stay in the value.
theorem means_rbeEnvContent {rbeCliPath : Path} (h : Literal rbeCliPath.toList)
    (rbeApiToken : String) :
    Means (BuildService.rbeEnvContent rbeCliPath rbeApiToken).toList
      (rbeEnvCommands (BuildTask.shellSingleQuote rbeCliPath)
        (BuildService.rbeHeader rbeApiToken)) := by
  obtain ⟨mode, hrun, hmode⟩ := run_literal h.quoted "RBE_DIR=".toList ["export".toList]
    [["export".toList, "USE_RBE=1".toList]]
  have hdouble : mode = .double := by
    rcases hmode with ⟨hdouble, -⟩ | ⟨-, hwaits⟩
    · exact hdouble
    · have hlast := congrArg List.getLast? hwaits
      rw [List.getLast?_concat, quote, List.getLast?_concat] at hlast
      cases hlast
  subst hdouble
  rw [settled_of_quote] at hrun
  have hwhole : run .initial (BuildService.rbeEnvContent rbeCliPath rbeApiToken).toList =
      some ⟨.plain, some "RBE_LINT_POOL=default".toList, ["export".toList],
        ((rbeEnvCommands (BuildTask.shellSingleQuote rbeCliPath)
          (BuildService.rbeHeader rbeApiToken)).dropLast).map (·.map String.toList)⟩ := by
    rw [toList_rbeEnvContent, run_append_of_run run_rbeEnvHead, run_append_of_run hrun, run_closing,
      run_newline, run_append_of_run (run_after _ run_rbeEnvConnection), run_quote, run_newline,
      run_after _ run_rbeEnvTail, Option.getD_some]
    have hdir : "RBE_DIR=".toList ++ quote rbeCliPath.toList =
        ("RBE_DIR=" ++ BuildTask.shellSingleQuote rbeCliPath).toList := by
      rw [String.toList_append, toList_shellSingleQuote]
    have hheaders : "RBE_remote_headers=".toList ++ (BuildService.rbeHeader rbeApiToken).toList =
        ("RBE_remote_headers=" ++ BuildService.rbeHeader rbeApiToken).toList :=
      String.toList_append.symm
    rw [hdir, hheaders]
    rfl
  intro read
  exact Shell.evaluates_iff hwhole rfl

-- Whatever the path is, what is between the double quotes begins with more quotes than it has.
theorem not_means_rbeEnvContent (rbeCliPath : Path) (rbeApiToken header : String) :
    ¬Means (BuildService.rbeEnvContent rbeCliPath rbeApiToken).toList
      (rbeEnvCommands rbeCliPath header) := by
  intro hmeans
  have hevaluates := (hmeans _).mpr rfl
  apply not_literally_quoted rbeCliPath.toList
  intro s hs hliteral
  obtain ⟨rest, hrest⟩ := hs
  rw [toList_rbeEnvContent, ← hrest, List.append_assoc, ← List.append_assoc] at hevaluates
  obtain ⟨mode, hrun, -⟩ := run_literal hliteral "RBE_DIR=".toList ["export".toList]
    [["export".toList, "USE_RBE=1".toList]]
  have hextends := extends_of_evaluates
    ((run_append_of_run run_rbeEnvHead).trans hrun) hevaluates
  obtain ⟨more, hmore, hnext⟩ := hextends
  have hsecond : ["export".toList, ("RBE_DIR=" ++ rbeCliPath).toList] ::
      ((rbeEnvCommands rbeCliPath header).drop 2).map (·.map String.toList) = more :=
    (List.cons.inj hmore).2
  obtain ⟨tail, htail, hword⟩ := hnext _ _ hsecond.symm
  have hvalue : [("RBE_DIR=" ++ rbeCliPath).toList] = tail := (List.cons.inj htail).2
  rcases hword _ rfl with hdigits | ⟨after, others, hafter⟩
  · have hname : ("RBE_DIR=" : String).toList = ['R', 'B', 'E', '_', 'D', 'I', 'R', '='] :=
      String.toList_ofList
    rw [hname, List.all_append, Bool.and_eq_true] at hdigits
    exact absurd hdigits.1 (by decide)
  · have hpath := (List.cons.inj (hvalue.trans hafter)).1
    rw [String.toList_append, List.append_assoc] at hpath
    exact ⟨after, (List.append_cancel_left hpath).symm⟩

end RbeEnv

section Meant

variable (t : BuildTask) (rbeApiToken githubToken : String) (rbeEnvPath : Option Path)
  (vendor : String) (release : Option String)

def rbeCliPath : Path := Path.join t.buildDir "rbe_cli"

-- The script for git and the commands of the build stand for their data and for nothing else.
structure CommandsMeant : Prop where
  askpass : Means (BuildService.askpassScript githubToken).toList [["printf", "%s\\n", githubToken]]
  token : printf "%s\\n".toList [githubToken.toList] = some (githubToken ++ "\n").toList
  build : Means (stdinText (t.commandList rbeEnvPath vendor release))
    (buildCommands t rbeEnvPath vendor release)

def RbeEnvMeant : Prop :=
  Means (BuildService.rbeEnvContent (rbeCliPath t) rbeApiToken).toList
    (rbeEnvCommands (rbeCliPath t) (BuildService.rbeHeader rbeApiToken))

def Meant : Prop :=
  RbeEnvMeant t rbeApiToken ∧ CommandsMeant t githubToken rbeEnvPath vendor release

def NulFree : Prop :=
  ∀ text ∈ [t.buildDir, t.secretDir, rbeApiToken, githubToken, vendor, t.resolved.codename,
    release.getD "", t.request.variant.text, t.resolved.romEntry.target, rbeEnvPath.getD ""],
    '\x00' ∉ text.toList

theorem commandsMeant : CommandsMeant t githubToken rbeEnvPath vendor release where
  askpass := means_askpass githubToken
  token := printf_askpass githubToken
  build := fun _ => (reads_commandList t rbeEnvPath vendor release).evaluates_iff

-- All is as meant but for the path of the client, which keeps quotes of its own.
theorem not_meant : ¬Meant t rbeApiToken githubToken rbeEnvPath vendor release ∧
    CommandsMeant t githubToken rbeEnvPath vendor release ∧
    (Literal (rbeCliPath t).toList →
      Means (BuildService.rbeEnvContent (rbeCliPath t) rbeApiToken).toList
        (rbeEnvCommands (BuildTask.shellSingleQuote (rbeCliPath t))
          (BuildService.rbeHeader rbeApiToken))) := by
  refine ⟨fun hmeant => ?_, commandsMeant t githubToken rbeEnvPath vendor release, fun hliteral => ?_⟩
  · exact not_means_rbeEnvContent _ _ _ hmeant.1
  · exact means_rbeEnvContent hliteral rbeApiToken

end Meant

section Sample

def ravenTask : BuildTask where
  id := 0
  request := ⟨.user, false, 8, none, .none⟩
  settings := ⟨false, false, true, true, none, false⟩
  buildDir := "/rom"
  tempDir := "/tmp"
  resolved :=
    ⟨.standard "manifests", "raven", "main", ⟨"rom", "bacon", .zipFilePrefixer, "rom-"⟩, "15"⟩
  askpassPath := none
  secretDir := "/tmp/secrets"

theorem meant_not_raven : ¬∀ t rbeApiToken githubToken rbeEnvPath vendor release,
    NulFree t rbeApiToken githubToken rbeEnvPath vendor release →
      Meant t rbeApiToken githubToken rbeEnvPath vendor release := by
  intro hall
  have hfree : NulFree ravenTask "key" "token" none "lineage" none := by
    unfold NulFree
    decide +kernel
  exact not_means_rbeEnvContent _ _ _ (hall _ _ _ _ _ _ hfree).1

end Sample

end Glider.RomBuild
