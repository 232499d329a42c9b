import Glider.Lib.History
import Mathlib.Data.Option.Basic

namespace Glider.GitRepo

open Glider.Lib

inductive ErrorCode where
  | auth
  | other (code : Int)
  deriving DecidableEq

structure Error where
  code : ErrorCode
  message : String

inductive Cred where
  | username (name : String)
  | sshKeyFromAgent (username : String)
  | userpassPlaintext (username password : String)
  | credentialHelper (url username : String)
  | default

structure Request where
  url : String
  usernameFromUrl : Option String
  allowedTypes : ℕ

-- `git2::CredentialType::USERNAME`.
def usernameType : ℕ := 32

inductive Answer where
  | offered (cred : Cred)
  | failed (error : Error)
  | panicked

structure Url where
  scheme : String
  host : Option String

-- The libraries: how a URL is parsed, and at the call with this number, whether a configuration can
-- be had and what becomes of the credentials that are to be made.
structure Git where
  parse : String → Option Url
  config : ℕ → Bool
  create : ℕ → Cred → Except Error Unit

namespace Git

variable (git : Git) (githubToken : Option String) (n : ℕ)

def isTokenEligibleUrl (url : String) : Bool :=
  (git.parse url).any fun parsed => parsed.scheme == "https" && parsed.host == some "github.com"

def offer (cred : Cred) : Answer :=
  match git.create n cred with
  | .ok () => .offered cred
  | .error e => .failed e

def helperOrDefault (url username : String) : Answer :=
  match git.create n (.credentialHelper url username) with
  | .ok () => .offered (.credentialHelper url username)
  | .error _ => git.offer n .default

-- The part of the callback after the URL has been noted down.
def attempt (request : Request) : Answer :=
  let username := request.usernameFromUrl.getD "git"
  if !git.config n then .panicked
  else if request.url.startsWith "ssh://" then git.offer n (.sshKeyFromAgent username)
  else
    match githubToken with
    | some token =>
      if git.isTokenEligibleUrl request.url then git.offer n (.userpassPlaintext token "")
      else git.helperOrDefault n request.url username
    | none => git.helperOrDefault n request.url username

def rejection (url : String) : Error where
  code := .auth
  message :=
    s!"authentication failed for '{url}': credentials were rejected by the remote server"

-- What `get_cred_callback` returns, as one call of it.
def credCallback (lastUrl : Option String) (request : Request) : Answer × Option String :=
  if request.allowedTypes = usernameType then
    (git.offer n (.username (request.usernameFromUrl.getD "git")), lastUrl)
  else if lastUrl = some request.url then (.failed (rejection request.url), lastUrl)
  else (git.attempt githubToken n request, some request.url)

end Git

abbrev Event := Request × Answer

-- One callback, with what it was asked and what it answered, newest first.
structure Callback where
  lastUrl : Option String
  history : List Event

section Runs

variable (git : Git) (githubToken : Option String)

def Callback.ask (callback : Callback) (request : Request) : Callback :=
  let (answer, lastUrl) :=
    git.credCallback githubToken callback.history.length callback.lastUrl request
  ⟨lastUrl, (request, answer) :: callback.history⟩

def getCredCallback (requests : List Request) : Callback :=
  requests.foldl (Callback.ask git githubToken) ⟨none, []⟩

-- A query for the name alone is no attempt.
def Request.counts (request : Request) : Bool := request.allowedTypes != usernameType

def Answer.isOffer : Answer → Bool
  | .offered _ => true
  | _ => false

def Answer.isAuthError : Answer → Bool
  | .failed e => e.code == .auth
  | _ => false

def Offered (url : String) (older : List Event) : Prop :=
  ∃ event ∈ older, event.1.counts = true ∧ event.1.url = url ∧ event.2.isOffer = true

instance (url : String) (older : List Event) : Decidable (Offered url older) :=
  inferInstanceAs (Decidable (∃ event ∈ older, _))

def lastAttempt (older : List Event) : Option String :=
  (older.find? fun event => event.1.counts).map fun event => event.1.url

-- The token goes to GitHub alone, and no URL is offered credentials twice.
structure Lawful (event : Event) (older : List Event) : Prop where
  token : ∀ username password, event.2 = .offered (.userpassPlaintext username password) →
    ∃ url, git.parse event.1.url = some url ∧ url.scheme = "https" ∧ url.host = some "github.com"
  rejected : event.1.counts = true → Offered event.1.url older → event.2.isAuthError = true

-- A URL that was offered credentials is asked for again only at once, or the libraries end the
-- attempt with an authentication error themselves.
def AtOnce (event : Event) (older : List Event) : Prop :=
  event.1.counts = true → Offered event.1.url older →
    lastAttempt older = some event.1.url ∨
      (git.attempt githubToken older.length event.1).isAuthError = true

instance (event : Event) (older : List Event) : Decidable (AtOnce git githubToken event older) :=
  inferInstanceAs (Decidable (_ → _ → _ ∨ _))

-- What the callback answers, in terms of what came before.
def Answered (event : Event) (older : List Event) : Prop :=
  event.2 = (git.credCallback githubToken older.length (lastAttempt older) event.1).1

variable {git githubToken} {event : Event} {older : List Event} {n : ℕ} {request : Request}

theorem offer_eq {cred cred' : Cred} (h : git.offer n cred = .offered cred') : cred' = cred := by
  unfold Git.offer at h
  split at h
  · exact (Answer.offered.inj h).symm
  · cases h

theorem helperOrDefault_ne {url username name password : String} :
    git.helperOrDefault n url username ≠ .offered (.userpassPlaintext name password) := by
  intro h
  unfold Git.helperOrDefault at h
  split at h
  · cases h
  · cases offer_eq h

theorem token_of_attempt {name password : String}
    (h : git.attempt githubToken n request = .offered (.userpassPlaintext name password)) :
    git.isTokenEligibleUrl request.url = true := by
  unfold Git.attempt at h
  dsimp only at h
  split at h
  · cases h
  split at h
  · cases offer_eq h
  split at h
  · split at h
    · assumption
    · exact absurd h helperOrDefault_ne
  · exact absurd h helperOrDefault_ne

theorem token_of_answered (h : Answered git githubToken event older) (name password : String)
    (hoffer : event.2 = .offered (.userpassPlaintext name password)) :
    ∃ url, git.parse event.1.url = some url ∧ url.scheme = "https" ∧
      url.host = some "github.com" := by
  have heligible : git.isTokenEligibleUrl event.1.url = true := by
    rw [h] at hoffer
    unfold Git.credCallback at hoffer
    split at hoffer
    · cases offer_eq hoffer
    split at hoffer
    · cases hoffer
    · exact token_of_attempt hoffer
  obtain ⟨url, hparse, hurl⟩ := (Option.any_eq_true _ _).mp heligible
  obtain ⟨hscheme, hhost⟩ := Bool.and_eq_true_iff.mp hurl
  exact ⟨url, hparse, beq_iff_eq.mp hscheme, beq_iff_eq.mp hhost⟩

theorem isAuthError_of_answered (h : Answered git githubToken event older)
    (hcounts : event.1.counts = true) :
    event.2.isAuthError = true ↔ lastAttempt older = some event.1.url ∨
      (git.attempt githubToken older.length event.1).isAuthError = true := by
  have htype : event.1.allowedTypes ≠ usernameType := bne_iff_ne.mp hcounts
  rw [h, Git.credCallback, if_neg htype]
  split
  · next hlast => exact iff_of_true rfl (.inl hlast)
  · next hlast => exact ⟨.inr, fun h => h.resolve_left hlast⟩

theorem lawful_iff_atOnce (h : Answered git githubToken event older) :
    Lawful git event older ↔ AtOnce git githubToken event older := by
  constructor
  · intro hlawful hcounts hoffered
    exact (isAuthError_of_answered h hcounts).mp (hlawful.rejected hcounts hoffered)
  · intro hatOnce
    exact ⟨token_of_answered h, fun hcounts hoffered =>
      (isAuthError_of_answered h hcounts).mpr (hatOnce hcounts hoffered)⟩

-- The URL that is noted down is that of the last attempt.
structure Sound (git : Git) (githubToken : Option String) (callback : Callback) : Prop where
  lastUrl : callback.lastUrl = lastAttempt callback.history
  answered : Explained (Answered git githubToken) callback.history

theorem Sound.ask {callback : Callback} (h : Sound git githubToken callback) (request : Request) :
    Sound git githubToken (callback.ask git githubToken request) := by
  refine ⟨?_, ?_, h.answered⟩
  · simp only [Callback.ask, Git.credCallback]
    by_cases htype : request.allowedTypes = usernameType
    · have hcounts : request.counts = false := by simp [Request.counts, htype]
      simp [htype, lastAttempt, hcounts, h.lastUrl]
    · have hcounts : request.counts = true := by simp [Request.counts, htype]
      by_cases hlast : callback.lastUrl = some request.url
      · simp [htype, hlast, lastAttempt, hcounts]
      · simp [htype, hlast, lastAttempt, hcounts]
  · rw [Answered, ← h.lastUrl]
    rfl

theorem sound_getCredCallback (requests : List Request) :
    Sound git githubToken (getCredCallback git githubToken requests) := by
  have hfold : ∀ callback, Sound git githubToken callback →
      Sound git githubToken (requests.foldl (Callback.ask git githubToken) callback) := by
    induction requests with
    | nil => exact fun _ h => h
    | cons request rest ih => exact fun callback h => ih _ (h.ask request)
  exact hfold _ ⟨rfl, trivial⟩

theorem lawful_iff (requests : List Request) :
    Explained (Lawful git) (getCredCallback git githubToken requests).history ↔
      Explained (AtOnce git githubToken)
        (getCredCallback git githubToken requests).history :=
  (sound_getCredCallback requests).answered.congr fun _ _ h => lawful_iff_atOnce h

end Runs

-- A library that parses nothing but the one URL, and refuses nothing.
def openGit : Git where
  parse url := if url = "https://github.com/foo/a" then some ⟨"https", some "github.com"⟩ else none
  config _ := true
  create _ _ := .ok ()

def ask (url : String) : Request := ⟨url, none, 1⟩

-- A redirect comes back to an earlier URL.
theorem offered_again :
    ¬Explained (Lawful openGit) (getCredCallback openGit (some "token")
      [ask "https://github.com/foo/a", ask "https://example.com/b",
        ask "https://github.com/foo/a"]).history := by
  intro h
  have hrejected := h.1.rejected (by decide +kernel) (by decide +kernel)
  revert hrejected
  decide +kernel

end Glider.GitRepo
