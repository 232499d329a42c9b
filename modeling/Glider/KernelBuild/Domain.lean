import Glider.RomBuild.Domain
import Mathlib.Data.Rat.Defs

namespace Glider.KernelBuild

open Glider.Lib
open Glider.RomBuild (Path)

abbrev Bytes := List UInt8

inductive Code where
  | notFound
  | failedPrecondition
  | internal
  deriving DecidableEq

structure Status where
  code : Code
  message : String
  deriving DecidableEq

inductive ProgressStatus where
  | pending
  | inProgressDownload
  | inProgressConfigure
  | inProgressBuild
  | success
  | failed
  deriving DecidableEq

structure BuildStatus where
  status : ProgressStatus
  output : String
  buildId : Option ℕ
  deriving DecidableEq

inductive Architecture where
  | any
  | arm
  | arm64
  | x86
  | x86_64
  deriving DecidableEq

namespace Architecture

-- `impl PartialEq`: `Any` is equal to everything.
def eq (a b : Architecture) : Bool := a == .any || b == .any || a == b

def text : Architecture → String
  | .any => "any"
  | .arm => "arm"
  | .arm64 => "arm64"
  | .x86 => "x86"
  | .x86_64 => "x86_64"

-- `{:?}`.
def debug : Architecture → String
  | .any => "Any"
  | .arm => "ARM"
  | .arm64 => "ARM64"
  | .x86 => "X86"
  | .x86_64 => "X86_64"

end Architecture

inductive CompilerType where
  | gcc
  | clang
  deriving DecidableEq

structure Toolchain where
  compiler : CompilerType
  compilerVersion : ℚ
  compilerTriple : Option String
  name : String
  arch : Architecture
  deriving DecidableEq

namespace Toolchain

def exeName (toolchain : Toolchain) : String :=
  match toolchain.compiler with
  | .gcc => toolchain.compilerTriple.getD "" ++ "-gcc"
  | .clang => "clang"

def crossCompileDefault : Architecture → String
  | .arm => "arm-linux-gnueabi-"
  | .arm64 => "aarch64-linux-gnu-"
  | .x86 => "x86_64-linux-gnu-"
  | .x86_64 => "x86_64-linux-gnu-"
  | .any => ""

def buildArgs (toolchain : Toolchain) (arch : Architecture) : List String :=
  match toolchain.compilerTriple with
  | some triple => [s!"CROSS_COMPILE={triple}-"]
  | none =>
    if crossCompileDefault arch ≠ "" then [s!"CROSS_COMPILE={crossCompileDefault arch}"] else []

end Toolchain

structure Repo where
  url : String
  branch : String
  deriving DecidableEq

structure AnyKernel where
  enabled : Bool
  location : Option String
  deriving DecidableEq

structure Defconfig where
  scheme : String
  devices : List String
  deriving DecidableEq

structure Fragment where
  name : String
  scheme : String
  deriving DecidableEq

structure LLVMSupport where
  clang : Bool
  llvmBinutils : Bool
  llvmIas : Bool
  deriving DecidableEq

structure KernelConfig where
  name : String
  repo : Repo
  arch : Architecture
  imageType : String
  toolchains : LLVMSupport
  anykernel : Option AnyKernel
  defconfig : Defconfig
  fragments : List Fragment
  env : List (String × String)
  deriving DecidableEq

namespace KernelConfig

variable (config : KernelConfig)

def supportsArch (arch : Architecture) : Bool := config.arch.eq arch || config.arch.eq .any

def archArg : String :=
  match config.arch with
  | .any => ""
  | arch => arch.text

def buildArgs : List String :=
  if config.supportsArch config.arch then
    s!"ARCH={config.archArg}" ::
      if config.toolchains.clang then
        if config.toolchains.llvmIas then ["LLVM=1", "LLVM_IAS=1"]
        else if config.toolchains.llvmBinutils then
          ["CC=clang", "LD=ld.lld", "AR=llvm-ar", "NM=llvm-nm", "OBJCOPY=llvm-objcopy",
            "OBJDUMP=llvm-objdump", "STRIP=llvm-strip"]
        else ["CC=clang"]
      else []
  else []

def envVars (toolchainDir : Path) (path : String) : List (String × String) :=
  let bin := toolchainDir.join "bin"
  config.env ++ [("PATH", s!"{bin}:{path}"), ("KBUILD_BUILD_USER", "builder-rs"),
    ("KBUILD_BUILD_HOST", "builder-rs-host")]

-- `config.name.replace([' ', ':'], "_")`.
def dirName : Path :=
  String.ofList (config.name.toList.map fun c => if c = ' ' ∨ c = ':' then '_' else c)

-- The image below the directory that is given to `make` as `O`.
def imagePath : Path :=
  (((Path.join "arch" config.arch.text).join "boot").join config.imageType)

end KernelConfig

structure BuildPrepareRequest where
  name : String
  deviceName : String
  configFragments : List String
  githubToken : Option String
  failOnFetch : Bool

structure BuildContext where
  id : ℕ
  config : KernelConfig
  toolchain : Toolchain
  workDir : Path
  toolchainDir : Path
  deviceName : String
  artifactPath : Option Path
  killSignal : Option ℕ
  deriving DecidableEq

inductive BuildLifecycle where
  | prepared
  | running
  | finished
  deriving DecidableEq

structure PerBuildIdStatus where
  buildId : ℕ
  lifecycle : BuildLifecycle
  succeeded : Bool
  deriving DecidableEq

inductive ArtifactChunk where
  | metadata (filename : String) (totalSize : ℕ)
  | data (bytes : Bytes)
  | error (status : Status)
  deriving DecidableEq

-- Which `make` a command is: the one that writes `out/.config`, or the one that builds.
inductive Goal where
  | defconfig
  | build
  deriving DecidableEq

structure CommandSpec where
  goal : Goal
  dir : Path
  args : List String
  env : List (String × String)
  logPath : Path
  buildId : Option ℕ
  killRx : Option ℕ
  deriving DecidableEq

def CommandSpec.outDir (spec : CommandSpec) : Path := spec.dir.join "out"

-- What git, the file system and the machine answer at one moment. The known configurations are
-- among it, since other calls add, change and delete them.
structure Environment where
  kernelConfigs : List KernelConfig
  nproc : ℕ
  pathVariable : String
  date : String
  execVersion : Path → Option String
  cloneToDir : Toolchain → Path → Except String Unit
  pathExists : Path → Bool
  isDir : Path → Bool
  createDir : Path → Except String Unit
  gitOpen : Path → Option String → Bool
  getRemoteUrl : Path → Except String String
  revision : String
  outcome : Except String Unit
  spares : Path → Bool
  connected : Bool

-- What a call asks of the rest of the service. A kill channel goes by the number of its thread.
inductive Op where
  | observe
  | report (status : BuildStatus)
  | checkoutBranch (dir : Path) (branch : String)
  | fastForward (dir : Path)
  | cloneRepo (url branch : String) (dir : Path) (token : Option String)
  | removeDirAll (path : Path)
  | runProcess (spec : CommandSpec)
  | incAndGetBuildId
  | pushContext (context : BuildContext)
  | pushStatus (entry : PerBuildIdStatus)
  | pruneKernelStatuses
  | isValidBuildId (id : ℕ)
  | isBuildFinished (id : ℕ)
  | findContext (id : ℕ)
  | claimPreparedBuild (id : ℕ)
  | newKillChannel
  | storeKillSignal (id kill : ℕ)
  | spawn
  | addArtifactPath (id : ℕ) (path : Path)
  | markBuildFinished (id : ℕ) (success : Bool)
  | copy (source dest : Path)
  | zipDir (archive dir : Path)
  | removeFile (path : Path)
  | findKillSignal (id : ℕ)
  | sendKill (kill : ℕ)
  | setFinished (id : ℕ)
  | fileLen (path : Path)
  | openFile (path : Path)
  | sendChunk (chunk : ArtifactChunk)
  | streamFile (path : Path)
  | lockContexts
  | requestShutdown
  deriving DecidableEq

abbrev Op.Answer : Op → Type
  | .observe => Environment
  | .checkoutBranch _ _ | .fastForward _ | .cloneRepo _ _ _ _ | .removeDirAll _ | .copy _ _
  | .zipDir _ _ | .removeFile _ | .openFile _ => Except String Unit
  | .runProcess _ => Except Status Bool
  | .incAndGetBuildId | .newKillChannel => ℕ
  | .isValidBuildId _ | .isBuildFinished _ | .sendKill _ | .sendChunk _ => Bool
  | .findContext _ => Option BuildContext
  | .claimPreparedBuild _ => Except Status Unit
  | .findKillSignal _ => Option ℕ
  | .fileLen _ => Except String ℕ
  | .lockContexts => Option (ℕ × ℕ)
  | _ => Unit

abbrev Build := Program Op Op.Answer Status

namespace Build

variable {α : Type}

def observe (f : Environment → α) : Build α := .call .observe fun env => .pure (f env)

def perform (op : Op) : Build op.Answer := Program.perform op

def report (status : ProgressStatus) (output : String) : Build Unit :=
  perform (.report ⟨status, output, none⟩)

def reportBuildId (id : ℕ) (status : ProgressStatus) (output : String) : Build Unit :=
  perform (.report ⟨status, output, some id⟩)

-- The operator `?`.
def orThrow : Except Status α → Build α
  | .ok a => .pure a
  | .error e => .throw e

end Build

end Glider.KernelBuild
