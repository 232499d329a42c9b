import Glider.Api.RateLimit
import Glider.Lib.Assoc
import Glider.Lib.History

namespace Glider.Api

open Glider.Lib

namespace IntervalRateLimiter

-- A call of `check` that no other one comes between.
def check (limiter : IntervalRateLimiter) (state : UInt64) (now : ℕ) : Bool × UInt64 :=
  match limiter.desired (now / limiter.interval) state with
  | none => (false, state)
  | some value => (true, value)

end IntervalRateLimiter

inductive CheckResult where
  | allowed
  | limited
  | stillLimited
  | recovered
  deriving DecidableEq

-- An entry of `KeyedIntervalRateLimiter`: the state of its limiter, the last access and the flag.
structure Entry where
  state : UInt64
  lastAccess : ℕ
  wasLimited : Bool
  deriving DecidableEq

structure KeyedState where
  limiters : Assoc ℤ Entry
  checksSincePrune : ℕ

structure Request where
  time : ℕ
  key : ℤ

def kPruneEvery : ℕ := 256

section Keyed

variable (limiter : IntervalRateLimiter)

def pruneIfNeeded (s : KeyedState) (now : ℕ) : KeyedState :=
  if s.checksSincePrune + 1 < kPruneEvery then
    { s with checksSincePrune := s.checksSincePrune + 1 }
  else
    { limiters := s.limiters.filter fun _ entry => now - entry.lastAccess ≤ limiter.interval * 4
      checksSincePrune := 0 }

def freshEntry (now : ℕ) : Entry := ⟨0, now, false⟩

def accessEntry (entry : Entry) (now : ℕ) : CheckResult × Entry :=
  let (admitted, state) := limiter.check entry.state now
  if admitted then
    (if entry.wasLimited then .recovered else .allowed, ⟨state, now, false⟩)
  else
    (if entry.wasLimited then .stillLimited else .limited, ⟨state, now, true⟩)

def checkWithStatus (s : KeyedState) (request : Request) : CheckResult × KeyedState :=
  let s := pruneIfNeeded limiter s request.time
  let entry := (s.limiters.find? request.key).getD (freshEntry request.time)
  let (result, entry) := accessEntry limiter entry request.time
  (result, { s with limiters := s.limiters.insert request.key entry })

-- The requests are listed newest first.
def stateAfter : List Request → KeyedState
  | [] => ⟨.empty, 0⟩
  | request :: older => (checkWithStatus limiter (stateAfter older) request).2

def resultOf (request : Request) (older : List Request) : CheckResult :=
  (checkWithStatus limiter (stateAfter limiter older) request).1

-- A limiter for a single key, which is never dropped.
def entryAfter (key : ℤ) : List Request → Option Entry
  | [] => none
  | request :: older =>
    if request.key = key then
      some (accessEntry limiter ((entryAfter key older).getD (freshEntry request.time))
        request.time).2
    else entryAfter key older

def expectedOf (request : Request) (older : List Request) : CheckResult :=
  (accessEntry limiter ((entryAfter limiter request.key older).getD (freshEntry request.time))
    request.time).1

end Keyed

section Pruned

variable (limiter : IntervalRateLimiter)

-- The request at `now` prunes, and the key was not asked for since long.
def DropsAt (now : ℕ) (older : List Request) (key : ℤ) : Prop :=
  kPruneEvery ∣ older.length + 1 ∧
    ∃ last, older.find? (fun request => request.key = key) = some last ∧
      limiter.interval * 4 < now - last.time

-- An entry was dropped, and its key was not asked for since.
def Forgotten (key : ℤ) : List Request → Prop
  | [] => False
  | request :: older =>
    request.key ≠ key ∧ (Forgotten key older ∨ DropsAt limiter request.time older key)

def Lost (request : Request) (older : List Request) : Prop :=
  Forgotten limiter request.key older ∨ DropsAt limiter request.time older request.key

-- The key of a dropped entry was let through the last time. A limiter that lets nothing through is
-- not new in a window whose number looks like that of the initial state.
def Spared (request : Request) (older : List Request) : Prop :=
  Lost limiter request older →
    (∀ entry, entryAfter limiter request.key older = some entry → entry.wasLimited = false) ∧
      ¬(limiter.maxPerInterval = 0 ∧ UInt32.ofNat (request.time / limiter.interval) = 0)

structure Invisible (requests : List Request) : Prop where
  same : Explained (fun request older =>
    resultOf limiter request older = expectedOf limiter request older) requests
  apart : Explained (fun request older => resultOf limiter request older =
    expectedOf limiter request (older.filter fun other => other.key = request.key)) requests
  recovers : Explained (fun request older => resultOf limiter request older = .allowed →
    ∀ newer last oldest, older = newer ++ last :: oldest → last.key = request.key →
      resultOf limiter last oldest = .limited →
        ∃ first next rest, newer = first ++ next :: rest ∧ next.key = request.key ∧
          resultOf limiter next (rest ++ last :: oldest) = .recovered) requests

structure Near (requests : List Request) : Prop where
  sorted : requests.Pairwise fun newer older => older.time ≤ newer.time
  spans : ∀ first ∈ requests, ∀ last ∈ requests,
    last.time / limiter.interval < first.time / limiter.interval + 2 ^ 32

end Pruned

section Access

variable {limiter : IntervalRateLimiter} {entry : Entry} {now : ℕ}

theorem stateWindow_check (state : UInt64) :
    stateWindow (limiter.check state now).2 = UInt32.ofNat (now / limiter.interval) := by
  simp only [IntervalRateLimiter.check, IntervalRateLimiter.desired]
  by_cases hwindow : stateWindow state = UInt32.ofNat (now / limiter.interval)
  · rw [if_neg (not_not_intro hwindow)]
    by_cases hcount : stateCount state ≥ limiter.maxPerInterval
    · rw [if_pos hcount]
      exact hwindow
    · rw [if_neg hcount]
      exact stateWindow_pack _ _
  · rw [if_pos hwindow]
    exact stateWindow_pack _ _

-- What an entry that was used says of its last access.
structure Dated (limiter : IntervalRateLimiter) (entry : Entry) (time : ℕ) : Prop where
  access : entry.lastAccess = time
  window : stateWindow entry.state = UInt32.ofNat (time / limiter.interval)

theorem dated_accessEntry : Dated limiter (accessEntry limiter entry now).2 now := by
  have hwindow : stateWindow (limiter.check entry.state now).2 = _ :=
    stateWindow_check entry.state
  unfold accessEntry
  cases hcheck : limiter.check entry.state now with
  | mk admitted state =>
    rw [hcheck] at hwindow
    cases admitted with
    | false | true => exact ⟨rfl, hwindow⟩

theorem accessEntry_late {last : ℕ} (h : Dated limiter entry last)
    (hinterval : 0 < limiter.interval) (hlate : limiter.interval * 4 < now - last)
    (hnear : now / limiter.interval < last / limiter.interval + 2 ^ 32) :
    accessEntry limiter entry now = (if entry.wasLimited then .recovered else .allowed,
      ⟨pack (UInt32.ofNat (now / limiter.interval)) 1, now, false⟩) := by
  have hlater : last / limiter.interval < now / limiter.interval := by
    have hmul : (last / limiter.interval + 1) * limiter.interval ≤ now := by
      have hdiv := Nat.div_mul_le_self last limiter.interval
      rw [Nat.add_mul, Nat.one_mul]
      omega
    exact (Nat.le_div_iff_mul_le hinterval).mpr hmul
  have hwindow : stateWindow entry.state ≠ UInt32.ofNat (now / limiter.interval) := by
    rw [h.window]
    intro heq
    have hsame := IntervalRateLimiter.ofNat_inj_of_near (Nat.le_refl _) hlater.le
      (Nat.lt_add_of_pos_right (by decide)) hnear heq
    exact absurd hsame hlater.ne
  have hcheck : limiter.check entry.state now =
      (true, pack (UInt32.ofNat (now / limiter.interval)) 1) := by
    simp only [IntervalRateLimiter.check, IntervalRateLimiter.desired]
    rw [if_pos hwindow]
  simp only [accessEntry, hcheck, if_true]

theorem accessEntry_fresh_of_refused
    (h : limiter.maxPerInterval = 0 ∧ UInt32.ofNat (now / limiter.interval) = 0) :
    (accessEntry limiter (freshEntry now) now).1 = .limited := by
  have hcheck : limiter.check 0 now = (false, 0) := by
    simp only [IntervalRateLimiter.check, IntervalRateLimiter.desired, h.1, h.2]
    rfl
  simp only [accessEntry, freshEntry, hcheck]
  rfl

theorem accessEntry_fresh
    (h : ¬(limiter.maxPerInterval = 0 ∧ UInt32.ofNat (now / limiter.interval) = 0)) :
    accessEntry limiter (freshEntry now) now =
      (.allowed, ⟨pack (UInt32.ofNat (now / limiter.interval)) 1, now, false⟩) := by
  have hzero : stateWindow 0 = 0 ∧ stateCount 0 = 0 := ⟨rfl, rfl⟩
  have hcheck : limiter.check 0 now =
      (true, pack (UInt32.ofNat (now / limiter.interval)) 1) := by
    simp only [IntervalRateLimiter.check, IntervalRateLimiter.desired, hzero]
    by_cases hwindow : UInt32.ofNat (now / limiter.interval) = 0
    · have hmax : limiter.maxPerInterval ≠ 0 := fun hmax => h ⟨hmax, hwindow⟩
      have hcount : ¬(0 : UInt32) ≥ limiter.maxPerInterval := by
        intro hle
        exact hmax (UInt32.le_antisymm hle (UInt32.zero_le))
      rw [hwindow, if_neg (not_not_intro rfl), if_neg hcount]
      rfl
    · rw [if_pos (Ne.symm hwindow)]
  simp only [accessEntry, freshEntry, hcheck, if_true]
  rfl

end Access

section Reference

variable {limiter : IntervalRateLimiter} {key : ℤ} {older : List Request}

theorem dated_entryAfter {entry : Entry} (h : entryAfter limiter key older = some entry) :
    ∃ last, older.find? (fun request => request.key = key) = some last ∧
      Dated limiter entry last.time := by
  induction older with
  | nil => cases h
  | cons request older ih =>
    rw [entryAfter] at h
    by_cases hkey : request.key = key
    · rw [if_pos hkey] at h
      obtain rfl := Option.some.inj h
      exact ⟨request, List.find?_cons_of_pos (decide_eq_true hkey), dated_accessEntry⟩
    · rw [if_neg hkey] at h
      obtain ⟨last, hlast, hdated⟩ := ih h
      exact ⟨last, by rw [List.find?_cons_of_neg (by simpa using hkey)]; exact hlast, hdated⟩

theorem exists_entryAfter {last : Request}
    (h : older.find? (fun request => request.key = key) = some last) :
    ∃ entry, entryAfter limiter key older = some entry := by
  induction older with
  | nil => cases h
  | cons request older ih =>
    rw [entryAfter]
    by_cases hkey : request.key = key
    · rw [if_pos hkey]
      exact ⟨_, rfl⟩
    · rw [if_neg hkey]
      rw [List.find?_cons_of_neg (by simpa using hkey)] at h
      exact ih h

-- Only the requests for a key matter to it.
theorem entryAfter_filter (key : ℤ) (older : List Request) :
    entryAfter limiter key (older.filter fun other => other.key = key) =
      entryAfter limiter key older := by
  induction older with
  | nil => rfl
  | cons request older ih =>
    by_cases hkey : request.key = key
    · rw [List.filter_cons_of_pos (by simpa using hkey), entryAfter, entryAfter, ih]
    · rw [List.filter_cons_of_neg (by simpa using hkey), ih, entryAfter, if_neg hkey]

theorem expectedOf_filter (request : Request) (older : List Request) :
    expectedOf limiter request (older.filter fun other => other.key = request.key) =
      expectedOf limiter request older := by
  rw [expectedOf, expectedOf, entryAfter_filter]

theorem wasLimited_accessEntry {entry : Entry} {now : ℕ} :
    (accessEntry limiter entry now).2.wasLimited = true ↔
      (accessEntry limiter entry now).1 = .limited ∨
        (accessEntry limiter entry now).1 = .stillLimited := by
  unfold accessEntry
  cases limiter.check entry.state now with
  | mk admitted state =>
    cases admitted with
    | false | true => cases entry.wasLimited <;> simp

theorem accessEntry_of_wasLimited {entry : Entry} (h : entry.wasLimited = true) (now : ℕ) :
    (accessEntry limiter entry now).1 = .recovered ∨
      (accessEntry limiter entry now).1 = .stillLimited := by
  unfold accessEntry
  cases limiter.check entry.state now with
  | mk admitted state =>
    cases admitted with
    | false => exact .inr (by simp [h])
    | true => exact .inl (by simp [h])

-- Until the next recovery a key stays marked.
theorem wasLimited_entryAfter {newer oldest : List Request} {last : Request}
    (hkey : last.key = key) (hlast : expectedOf limiter last oldest = .limited)
    (hnone : ∀ first next rest, newer = first ++ next :: rest → next.key = key →
      expectedOf limiter next (rest ++ last :: oldest) ≠ .recovered) :
    ∃ entry, entryAfter limiter key (newer ++ last :: oldest) = some entry ∧
      entry.wasLimited = true := by
  induction newer with
  | nil =>
    rw [List.nil_append, entryAfter, if_pos hkey]
    subst hkey
    exact ⟨_, rfl, wasLimited_accessEntry.mpr (.inl hlast)⟩
  | cons request newer ih =>
    obtain ⟨entry, hentry, hlimited⟩ := ih fun first next rest heq =>
      hnone (request :: first) next rest (by rw [heq]; rfl)
    rw [List.cons_append, entryAfter]
    by_cases hrequest : request.key = key
    · rw [if_pos hrequest, hentry]
      refine ⟨_, rfl, wasLimited_accessEntry.mpr (.inr ?_)⟩
      have hnot := hnone [] request newer rfl hrequest
      rw [expectedOf, hrequest, hentry] at hnot
      exact (accessEntry_of_wasLimited hlimited request.time).resolve_left hnot
    · rw [if_neg hrequest]
      exact ⟨entry, hentry, hlimited⟩

theorem recovers_expectedOf {request last : Request} {newer oldest : List Request}
    (hkey : last.key = request.key) (hlast : expectedOf limiter last oldest = .limited)
    (hallowed : expectedOf limiter request (newer ++ last :: oldest) = .allowed) :
    ∃ first next rest, newer = first ++ next :: rest ∧ next.key = request.key ∧
      expectedOf limiter next (rest ++ last :: oldest) = .recovered := by
  by_contra hnone
  push Not at hnone
  obtain ⟨entry, hentry, hlimited⟩ := wasLimited_entryAfter hkey hlast hnone
  rw [expectedOf, hentry, Option.getD_some] at hallowed
  rcases accessEntry_of_wasLimited hlimited request.time with h | h
  · rw [h] at hallowed
    cases hallowed
  · rw [h] at hallowed
    cases hallowed

end Reference

section Tracking

variable {limiter : IntervalRateLimiter} {older : List Request} {request : Request}

-- What the map has: the entries of the limiters for single keys, but those that were dropped.
structure Tracks (limiter : IntervalRateLimiter) (older : List Request) : Prop where
  checks : (stateAfter limiter older).checksSincePrune = older.length % kPruneEvery
  kept : ∀ key, ¬Forgotten limiter key older →
    (stateAfter limiter older).limiters.find? key = entryAfter limiter key older
  dropped : ∀ key, Forgotten limiter key older →
    (stateAfter limiter older).limiters.find? key = none

theorem Tracks.checks_pruned (h : Tracks limiter older) (now : ℕ) :
    (pruneIfNeeded limiter (stateAfter limiter older) now).checksSincePrune =
      (older.length + 1) % kPruneEvery := by
  rw [pruneIfNeeded, h.checks]
  unfold kPruneEvery
  split
  · next hfew => exact (by omega : older.length % 256 + 1 = (older.length + 1) % 256)
  · next hmany => exact (by omega : 0 = (older.length + 1) % 256)

theorem Tracks.find?_pruned (h : Tracks limiter older) {now : ℕ} {key : ℤ}
    (hkept : ¬(Forgotten limiter key older ∨ DropsAt limiter now older key)) :
    (pruneIfNeeded limiter (stateAfter limiter older) now).limiters.find? key =
      entryAfter limiter key older := by
  rw [not_or] at hkept
  rw [pruneIfNeeded, h.checks]
  split
  · exact h.kept key hkept.1
  · next hmany =>
    have hdvd : kPruneEvery ∣ older.length + 1 := by
      unfold kPruneEvery at hmany ⊢
      omega
    rw [Assoc.find?_filter, h.kept key hkept.1]
    cases hafter : entryAfter limiter key older with
    | none => rfl
    | some entry =>
      obtain ⟨last, hlast, hdated⟩ := dated_entryAfter hafter
      have hrecent : now - last.time ≤ limiter.interval * 4 := by
        by_contra hlate
        exact hkept.2 ⟨hdvd, last, hlast, not_le.mp hlate⟩
      rw [Option.filter_some, hdated.access, if_pos (decide_eq_true hrecent)]

theorem Tracks.find?_pruned_of_lost (h : Tracks limiter older) {now : ℕ} {key : ℤ}
    (hlost : Forgotten limiter key older ∨ DropsAt limiter now older key) :
    (pruneIfNeeded limiter (stateAfter limiter older) now).limiters.find? key = none := by
  rw [pruneIfNeeded, h.checks]
  by_cases hforgotten : Forgotten limiter key older
  · split
    · exact h.dropped key hforgotten
    · rw [Assoc.find?_filter, h.dropped key hforgotten]
      rfl
  · obtain ⟨hdvd, last, hlast, hlate⟩ := hlost.resolve_left hforgotten
    have hmany : ¬older.length % kPruneEvery + 1 < kPruneEvery := by
      unfold kPruneEvery at hdvd ⊢
      omega
    obtain ⟨entry, hentry⟩ := exists_entryAfter hlast
    obtain ⟨last', hlast', hdated⟩ := dated_entryAfter hentry
    obtain rfl : last' = last := Option.some.inj (hlast'.symm.trans hlast)
    rw [if_neg hmany, Assoc.find?_filter, h.kept key hforgotten, hentry, Option.filter_some,
      hdated.access, if_neg fun hrecent => absurd (of_decide_eq_true hrecent) (not_le.mpr hlate)]

theorem resultOf_eq (request : Request) (older : List Request) :
    resultOf limiter request older = (accessEntry limiter
      (((pruneIfNeeded limiter (stateAfter limiter older) request.time).limiters.find?
        request.key).getD (freshEntry request.time)) request.time).1 := rfl

-- The entry of a key that is asked for after it was dropped, by the limiter that drops nothing.
theorem exists_lost (hnear : Near limiter (request :: older)) (hinterval : 0 < limiter.interval)
    (hlost : Lost limiter request older) :
    ∃ entry, entryAfter limiter request.key older = some entry ∧
      accessEntry limiter entry request.time =
        (if entry.wasLimited then .recovered else .allowed,
          ⟨pack (UInt32.ofNat (request.time / limiter.interval)) 1, request.time, false⟩) := by
  have hlate : ∃ last, older.find? (fun other => other.key = request.key) = some last ∧
      limiter.interval * 4 < request.time - last.time := by
    rcases hlost with hforgotten | ⟨-, hlate⟩
    · have hsorted : ∀ other ∈ older, other.time ≤ request.time :=
        (List.pairwise_cons.mp hnear.sorted).1
      clear hnear
      induction older with
      | nil => cases hforgotten
      | cons other older ih =>
        obtain ⟨hkey, hbefore⟩ := hforgotten
        rw [List.find?_cons_of_neg (by simpa using hkey)]
        rcases hbefore with hforgotten | ⟨-, last, hlast, hlate⟩
        · exact ih hforgotten fun o ho => hsorted o (List.mem_cons_of_mem _ ho)
        · have htime := hsorted other List.mem_cons_self
          exact ⟨last, hlast, by omega⟩
    · exact hlate
  obtain ⟨last, hlast, hlate⟩ := hlate
  obtain ⟨entry, hentry⟩ : ∃ entry, entryAfter limiter request.key older = some entry :=
    exists_entryAfter hlast
  obtain ⟨last', hlast', hdated⟩ := dated_entryAfter hentry
  obtain rfl : last' = last := Option.some.inj (hlast'.symm.trans hlast)
  refine ⟨entry, hentry, accessEntry_late hdated hinterval hlate ?_⟩
  exact hnear.spans last' (List.mem_cons_of_mem _ (List.mem_of_find?_eq_some hlast)) request
    List.mem_cons_self

theorem Tracks.same_iff (h : Tracks limiter older) (hnear : Near limiter (request :: older))
    (hinterval : 0 < limiter.interval) :
    resultOf limiter request older = expectedOf limiter request older ↔
      Spared limiter request older := by
  rw [resultOf_eq]
  by_cases hlost : Lost limiter request older
  · obtain ⟨entry, hentry, haccess⟩ := exists_lost hnear hinterval hlost
    rw [h.find?_pruned_of_lost hlost, Option.getD_none, expectedOf, hentry, Option.getD_some,
      haccess]
    by_cases hrefused : limiter.maxPerInterval = 0 ∧
        UInt32.ofNat (request.time / limiter.interval) = 0
    · rw [accessEntry_fresh_of_refused hrefused]
      constructor
      · intro heq
        cases hlimited : entry.wasLimited <;> simp [hlimited] at heq
      · exact fun hspared => absurd hrefused (hspared hlost).2
    · rw [accessEntry_fresh hrefused]
      constructor
      · intro heq _
        refine ⟨fun entry' hentry' => ?_, hrefused⟩
        obtain rfl := Option.some.inj (hentry.symm.trans hentry')
        cases hlimited : entry.wasLimited with
        | false => rfl
        | true => simp [hlimited] at heq
      · intro hspared
        rw [(hspared hlost).1 entry hentry]
        rfl
  · rw [h.find?_pruned hlost]
    exact iff_of_true rfl fun h => absurd h hlost

theorem Tracks.cons (h : Tracks limiter older) (hnear : Near limiter (request :: older))
    (hinterval : 0 < limiter.interval) (hspared : Spared limiter request older) :
    Tracks limiter (request :: older) := by
  have hother : ∀ key, request.key ≠ key →
      (stateAfter limiter (request :: older)).limiters.find? key =
        (pruneIfNeeded limiter (stateAfter limiter older) request.time).limiters.find? key :=
    fun key hkey => Assoc.find?_insert_of_ne (Ne.symm hkey)
  constructor
  case checks => exact h.checks_pruned request.time
  case dropped =>
    rintro key ⟨hkey, hlost⟩
    rw [hother key hkey, h.find?_pruned_of_lost hlost]
  case kept =>
    intro key hkept
    rw [entryAfter]
    by_cases hkey : request.key = key
    · subst hkey
      have hself : (stateAfter limiter (request :: older)).limiters.find? request.key =
          some (accessEntry limiter (((pruneIfNeeded limiter (stateAfter limiter older)
            request.time).limiters.find? request.key).getD (freshEntry request.time))
              request.time).2 := Assoc.find?_insert_self
      rw [hself, if_pos rfl]
      by_cases hlost : Lost limiter request older
      · obtain ⟨entry, hentry, haccess⟩ := exists_lost hnear hinterval hlost
        rw [h.find?_pruned_of_lost hlost, Option.getD_none, hentry, Option.getD_some, haccess,
          accessEntry_fresh (hspared hlost).2]
      · rw [h.find?_pruned hlost]
    · rw [hother key hkey, if_neg hkey]
      exact h.find?_pruned fun hlost => hkept ⟨hkey, hlost⟩

theorem Near.tail (h : Near limiter (request :: older)) : Near limiter older :=
  ⟨h.sorted.of_cons, fun first hfirst last hlast =>
    h.spans first (List.mem_cons_of_mem _ hfirst) last (List.mem_cons_of_mem _ hlast)⟩

theorem tracks (hinterval : 0 < limiter.interval) {requests : List Request}
    (hnear : Near limiter requests) (hspared : Explained (Spared limiter) requests) :
    Tracks limiter requests := by
  induction requests with
  | nil => exact ⟨rfl, fun _ _ => rfl, fun _ h => h.elim⟩
  | cons request older ih => exact (ih hnear.tail hspared.2).cons hnear hinterval hspared.1

theorem same_iff (hinterval : 0 < limiter.interval) {requests : List Request}
    (hnear : Near limiter requests) :
    Explained (fun request older =>
      resultOf limiter request older = expectedOf limiter request older) requests ↔
      Explained (Spared limiter) requests := by
  induction requests with
  | nil => exact Iff.rfl
  | cons request older ih =>
    have hiff := ih hnear.tail
    constructor
    · rintro ⟨hsame, hold⟩
      have hspared := hiff.mp hold
      exact ⟨((tracks hinterval hnear.tail hspared).same_iff hnear hinterval).mp hsame, hspared⟩
    · rintro ⟨hspared, hold⟩
      exact ⟨((tracks hinterval hnear.tail hold).same_iff hnear hinterval).mpr hspared,
        hiff.mpr hold⟩

theorem invisible_of_same {requests : List Request} (h : Explained (fun request older =>
      resultOf limiter request older = expectedOf limiter request older) requests) :
    Invisible limiter requests := by
  have hapart := h.mono fun request older (hsame : resultOf limiter request older =
    expectedOf limiter request older) => hsame.trans (expectedOf_filter request older).symm
  refine ⟨h, hapart, ?_⟩
  rw [explained_iff] at h ⊢
  rintro before request older rfl hallowed newer last oldest rfl hkey hlimited
  rw [h before request _ rfl] at hallowed
  rw [h (before ++ request :: newer) last oldest (by simp)] at hlimited
  obtain ⟨first, next, rest, rfl, hnext, hrecovered⟩ :=
    recovers_expectedOf hkey hlimited hallowed
  refine ⟨first, next, rest, rfl, hnext, ?_⟩
  rw [h (before ++ request :: first) next (rest ++ last :: oldest) (by simp)]
  exact hrecovered

theorem invisible_iff (limiter : IntervalRateLimiter) (requests : List Request)
    (hinterval : 0 < limiter.interval) (hnear : Near limiter requests) :
    Invisible limiter requests ↔ Explained (Spared limiter) requests := by
  rw [← same_iff hinterval hnear]
  exact ⟨Invisible.same, invisible_of_same⟩

end Tracking

section Quota

variable {limiter : IntervalRateLimiter} {older : List Request} {request : Request}

def CheckResult.admits : CheckResult → Bool
  | .allowed => true
  | .recovered => true
  | .limited => false
  | .stillLimited => false

-- The requests for a key that were let through in a window.
def admittedTo (limiter : IntervalRateLimiter) (key : ℤ) (window : ℕ) : List Request → ℕ
  | [] => 0
  | request :: older =>
    admittedTo limiter key window older +
      if request.key = key ∧ request.time / limiter.interval = window ∧
        (resultOf limiter request older).admits = true then 1 else 0

-- What a state says was let through in a window.
def usedOf (state : UInt64) (window : ℕ) : ℕ :=
  if stateWindow state = UInt32.ofNat window then (stateCount state).toNat else 0

theorem usedOf_check (hmax : 0 < limiter.maxPerInterval) (state : UInt64) (now : ℕ) :
    ((limiter.check state now).1 = true ↔
        usedOf state (now / limiter.interval) < limiter.maxPerInterval.toNat) ∧
      (stateCount (limiter.check state now).2).toNat =
        usedOf state (now / limiter.interval) + if (limiter.check state now).1 then 1 else 0 := by
  by_cases hwindow : stateWindow state = UInt32.ofNat (now / limiter.interval)
  · by_cases hcount : stateCount state ≥ limiter.maxPerInterval
    · have hcheck : limiter.check state now = (false, state) := by
        simp only [IntervalRateLimiter.check, IntervalRateLimiter.desired]
        rw [if_neg (not_not_intro hwindow), if_pos hcount]
      have hle := UInt32.le_iff_toNat_le.mp hcount
      simp [hcheck, usedOf, hwindow, hle]
    · have hcheck : limiter.check state now =
          (true, pack (UInt32.ofNat (now / limiter.interval)) (stateCount state + 1)) := by
        simp only [IntervalRateLimiter.check, IntervalRateLimiter.desired]
        rw [if_neg (not_not_intro hwindow), if_neg hcount]
      have hlt := UInt32.lt_iff_toNat_lt.mp (UInt32.not_le.mp hcount)
      have hsmall := limiter.maxPerInterval.toNat_lt
      have hadd : (stateCount state + 1).toNat = (stateCount state).toNat + 1 := by
        rw [UInt32.toNat_add]
        exact Nat.mod_eq_of_lt (by simp only [UInt32.toNat_one]; omega)
      simp [hcheck, usedOf, hwindow, hadd, hlt]
  · have hcheck : limiter.check state now =
        (true, pack (UInt32.ofNat (now / limiter.interval)) 1) := by
      simp only [IntervalRateLimiter.check, IntervalRateLimiter.desired]
      rw [if_pos hwindow]
    have hpos : 0 < limiter.maxPerInterval.toNat := UInt32.lt_iff_toNat_lt.mp hmax
    simp [hcheck, usedOf, hwindow, hpos]

theorem admits_accessEntry (limiter : IntervalRateLimiter) (entry : Entry) (now : ℕ) :
    (accessEntry limiter entry now).1.admits = (limiter.check entry.state now).1 ∧
      (accessEntry limiter entry now).2.state = (limiter.check entry.state now).2 := by
  unfold accessEntry
  cases hcheck : limiter.check entry.state now with
  | mk admitted state =>
    cases admitted <;> cases hlimited : entry.wasLimited <;> simp [CheckResult.admits]

theorem pruned_cases (limiter : IntervalRateLimiter) (s : KeyedState) (now : ℕ) (key : ℤ) :
    (pruneIfNeeded limiter s now).limiters.find? key = s.limiters.find? key ∨
      (pruneIfNeeded limiter s now).limiters.find? key =
        (s.limiters.find? key).filter fun entry =>
          now - entry.lastAccess ≤ limiter.interval * 4 := by
  by_cases hfew : s.checksSincePrune + 1 < kPruneEvery
  · rw [pruneIfNeeded, if_pos hfew]
    exact .inl rfl
  · rw [pruneIfNeeded, if_neg hfew]
    exact .inr (Assoc.find?_filter _)

theorem find?_of_pruned {s : KeyedState} {now : ℕ} {key : ℤ} {entry : Entry}
    (h : (pruneIfNeeded limiter s now).limiters.find? key = some entry) :
    s.limiters.find? key = some entry := by
  rcases pruned_cases limiter s now key with hsame | hfilter
  · exact hsame.symm.trans h
  · exact (Option.filter_eq_some_iff.mp (hfilter.symm.trans h)).1

theorem pruned_eq_none {s : KeyedState} {now : ℕ} {key : ℤ}
    (h : (pruneIfNeeded limiter s now).limiters.find? key = none) :
    s.limiters.find? key = none ∨
      ∃ entry, s.limiters.find? key = some entry ∧
        limiter.interval * 4 < now - entry.lastAccess := by
  rcases pruned_cases limiter s now key with hsame | hfilter
  · exact .inl (hsame.symm.trans h)
  · cases hfind : s.limiters.find? key with
    | none => exact .inl rfl
    | some entry =>
      refine .inr ⟨entry, rfl, ?_⟩
      rw [h, hfind, Option.filter_some] at hfilter
      by_contra hrecent
      rw [if_pos (decide_eq_true (Nat.le_of_not_lt hrecent))] at hfilter
      cases hfilter

-- The entry of a key has counted what was let through in the window of its last request, and it is
-- dropped only when that window is over.
structure Spends (limiter : IntervalRateLimiter) (older : List Request) : Prop where
  absent : ∀ key, older.find? (fun request => request.key = key) = none →
    (stateAfter limiter older).limiters.find? key = none
  counted : ∀ key last entry, older.find? (fun request => request.key = key) = some last →
    (stateAfter limiter older).limiters.find? key = some entry → Dated limiter entry last.time ∧
      admittedTo limiter key (last.time / limiter.interval) older = (stateCount entry.state).toNat
  dropped : ∀ key last, older.find? (fun request => request.key = key) = some last →
    (stateAfter limiter older).limiters.find? key = none →
      ∃ newer ∈ older, limiter.interval * 4 < newer.time - last.time

theorem window_lt (hinterval : 0 < limiter.interval) {last now : ℕ}
    (h : limiter.interval * 4 < now - last) : last / limiter.interval < now / limiter.interval := by
  have hdiv := Nat.div_mul_le_self last limiter.interval
  have hmul : (last / limiter.interval + 1) * limiter.interval ≤ now := by
    rw [Nat.add_mul, Nat.one_mul]
    omega
  exact (Nat.le_div_iff_mul_le hinterval).mpr hmul

-- Nothing was let through in a window that is not reached yet.
theorem admittedTo_eq_zero {key : ℤ} {window : ℕ}
    (h : ∀ request ∈ older, request.key = key → request.time / limiter.interval < window) :
    admittedTo limiter key window older = 0 := by
  induction older with
  | nil => rfl
  | cons request older ih =>
    obtain ⟨hrequest, holder⟩ := List.forall_mem_cons.mp h
    rw [admittedTo, ih holder, if_neg fun hin => absurd (hrequest hin.1) (by omega)]

-- The requests of a key are not newer than the first one that is found.
theorem time_le_of_find? (hsorted : older.Pairwise fun newer older => older.time ≤ newer.time)
    {key : ℤ} {last : Request} (h : older.find? (fun request => request.key = key) = some last)
    {other : Request} (hmem : other ∈ older) (hkey : other.key = key) : other.time ≤ last.time := by
  obtain ⟨-, first, rest, rfl, hfirst⟩ := List.find?_eq_some_iff_append.mp h
  rcases List.mem_append.mp hmem with hbefore | hafter
  · have hne := hfirst other hbefore
    simp [hkey] at hne
  · rcases List.mem_cons.mp hafter with rfl | hafter
    · exact Nat.le_refl _
    · exact List.rel_of_pairwise_cons (List.pairwise_append.mp hsorted).2.1 hafter

-- The entry that a request finds or makes says what was let through in its window.
theorem Spends.admitted_eq (h : Spends limiter older) (hinterval : 0 < limiter.interval)
    (hnear : Near limiter (request :: older)) :
    admittedTo limiter request.key (request.time / limiter.interval) older =
      usedOf (((pruneIfNeeded limiter (stateAfter limiter older) request.time).limiters.find?
        request.key).getD (freshEntry request.time)).state (request.time / limiter.interval) := by
  have hfresh : usedOf (freshEntry request.time).state (request.time / limiter.interval) = 0 := by
    have hzero : stateCount 0 = 0 := rfl
    simp [usedOf, freshEntry, hzero]
  obtain ⟨hnewest, holder⟩ := List.pairwise_cons.mp hnear.sorted
  cases hlast : older.find? (fun other => other.key = request.key) with
  | none =>
    have hnone : ∀ other ∈ older, other.key = request.key →
        other.time / limiter.interval < request.time / limiter.interval := by
      intro other hmem hkey
      have hne := List.find?_eq_none.mp hlast other hmem
      simp [hkey] at hne
    have habsent : (pruneIfNeeded limiter (stateAfter limiter older) request.time).limiters.find?
        request.key = none := by
      by_contra hsome
      obtain ⟨entry, hentry⟩ := Option.ne_none_iff_exists'.mp hsome
      have hold := find?_of_pruned hentry
      rw [h.absent request.key hlast] at hold
      cases hold
    rw [admittedTo_eq_zero hnone, habsent, Option.getD_none, hfresh]
  | some last =>
    have hmem := List.mem_of_find?_eq_some hlast
    by_cases hwindow : last.time / limiter.interval = request.time / limiter.interval
    · have hpresent : (pruneIfNeeded limiter (stateAfter limiter older)
          request.time).limiters.find? request.key ≠ none := by
        intro hnone
        rcases pruned_eq_none hnone with hgone | ⟨entry, hentry, hlate⟩
        · obtain ⟨newer, hnewer, hlate⟩ := h.dropped request.key last hlast hgone
          have hle := Nat.div_le_div_right (c := limiter.interval) (hnewest newer hnewer)
          have hlt := window_lt hinterval hlate
          omega
        · rw [(h.counted request.key last entry hlast hentry).1.access] at hlate
          have hlt := window_lt hinterval hlate
          omega
      obtain ⟨entry, hentry⟩ := Option.ne_none_iff_exists'.mp hpresent
      obtain ⟨hdated, hcount⟩ := h.counted request.key last entry hlast (find?_of_pruned hentry)
      rw [hentry, Option.getD_some, usedOf, hdated.window, hwindow, if_pos rfl, ← hwindow]
      exact hcount
    · have hearlier : last.time / limiter.interval < request.time / limiter.interval :=
        Nat.lt_of_le_of_ne (Nat.div_le_div_right (hnewest last hmem)) hwindow
      have hbefore : ∀ other ∈ older, other.key = request.key →
          other.time / limiter.interval < request.time / limiter.interval :=
        fun other hother hkey => Nat.lt_of_le_of_lt
          (Nat.div_le_div_right (time_le_of_find? holder hlast hother hkey)) hearlier
      rw [admittedTo_eq_zero hbefore]
      cases hentry : (pruneIfNeeded limiter (stateAfter limiter older) request.time).limiters.find?
          request.key with
      | none => rw [Option.getD_none, hfresh]
      | some entry =>
        have hdated := (h.counted request.key last entry hlast (find?_of_pruned hentry)).1
        have hapart : UInt32.ofNat (last.time / limiter.interval) ≠
            UInt32.ofNat (request.time / limiter.interval) := by
          intro heq
          have hspan := hnear.spans last (List.mem_cons_of_mem _ hmem) request List.mem_cons_self
          exact hwindow (IntervalRateLimiter.ofNat_inj_of_near (Nat.le_refl _) hearlier.le
            (Nat.lt_add_of_pos_right (by decide)) hspan heq)
        rw [Option.getD_some, usedOf, hdated.window, if_neg hapart]

theorem Spends.cons (h : Spends limiter older) (hinterval : 0 < limiter.interval)
    (hmax : 0 < limiter.maxPerInterval) (hnear : Near limiter (request :: older)) :
    Spends limiter (request :: older) ∧
      ((resultOf limiter request older).admits = true ↔
        admittedTo limiter request.key (request.time / limiter.interval) older <
          limiter.maxPerInterval.toNat) := by
  have hbefore := h.admitted_eq hinterval hnear
  generalize hfound : ((pruneIfNeeded limiter (stateAfter limiter older)
    request.time).limiters.find? request.key).getD (freshEntry request.time) = found at hbefore
  have hstep : stateAfter limiter (request :: older) =
      { pruneIfNeeded limiter (stateAfter limiter older) request.time with
        limiters := (pruneIfNeeded limiter (stateAfter limiter older) request.time).limiters.insert
          request.key (accessEntry limiter found request.time).2 } := by
    rw [← hfound]
    rfl
  have hresult : resultOf limiter request older = (accessEntry limiter found request.time).1 := by
    rw [resultOf_eq, hfound]
  obtain ⟨hadmits, hstate⟩ := admits_accessEntry limiter found request.time
  obtain ⟨hiff, hused⟩ := usedOf_check hmax found.state request.time
  have hsame {key : ℤ} (hkey : key ≠ request.key) :
      (stateAfter limiter (request :: older)).limiters.find? key =
        (pruneIfNeeded limiter (stateAfter limiter older) request.time).limiters.find? key := by
    rw [hstep]
    exact Assoc.find?_insert_of_ne hkey
  have hfind {key : ℤ} (hkey : key ≠ request.key) :
      (request :: older).find? (fun other => other.key = key) =
        older.find? (fun other => other.key = key) :=
    List.find?_cons_of_neg (by simpa using Ne.symm hkey)
  have hself : (stateAfter limiter (request :: older)).limiters.find? request.key =
      some (accessEntry limiter found request.time).2 := by
    rw [hstep]
    exact Assoc.find?_insert_self
  have hspent : admittedTo limiter request.key (request.time / limiter.interval)
      (request :: older) = (stateCount (accessEntry limiter found request.time).2.state).toNat := by
    rw [admittedTo, hresult, hadmits, hstate, hused, hbefore]
    simp only [true_and]
  refine ⟨⟨fun key hnone => ?_, fun key last entry hlast hentry => ?_,
    fun key last hlast hnone => ?_⟩, ?_⟩
  · have hkey : key ≠ request.key := by
      rintro rfl
      simp at hnone
    rw [hfind hkey] at hnone
    rw [hsame hkey]
    by_contra hsome
    obtain ⟨entry, hentry⟩ := Option.ne_none_iff_exists'.mp hsome
    have hold := find?_of_pruned hentry
    rw [h.absent key hnone] at hold
    cases hold
  · by_cases hkey : key = request.key
    · subst hkey
      obtain rfl : request = last := by simpa using hlast
      obtain rfl := Option.some.inj (hself.symm.trans hentry)
      exact ⟨dated_accessEntry, hspent⟩
    · rw [hfind hkey] at hlast
      rw [hsame hkey] at hentry
      obtain ⟨hdated, hcount⟩ := h.counted key last entry hlast (find?_of_pruned hentry)
      refine ⟨hdated, ?_⟩
      rw [admittedTo, if_neg fun hin => hkey hin.1.symm]
      exact hcount
  · have hkey : key ≠ request.key := by
      rintro rfl
      rw [hself] at hnone
      cases hnone
    rw [hfind hkey] at hlast
    rw [hsame hkey] at hnone
    rcases pruned_eq_none hnone with hgone | ⟨entry, hentry, hlate⟩
    · obtain ⟨newer, hmem, hlate⟩ := h.dropped key last hlast hgone
      exact ⟨newer, List.mem_cons_of_mem _ hmem, hlate⟩
    · rw [(h.counted key last entry hlast hentry).1.access] at hlate
      exact ⟨request, List.mem_cons_self, hlate⟩
  · rw [hresult, hadmits, hbefore]
    exact hiff

theorem spends (hinterval : 0 < limiter.interval) (hmax : 0 < limiter.maxPerInterval)
    {requests : List Request} (hnear : Near limiter requests) : Spends limiter requests := by
  induction requests with
  | nil =>
    refine ⟨fun _ _ => rfl, fun key last entry hlast => ?_, fun key last hlast => ?_⟩
    · cases hlast
    · cases hlast
  | cons request older ih => exact ((ih hnear.tail).cons hinterval hmax hnear).1

-- Dropping entries lets no more through and no less: a request is let through exactly as long as
-- the key has not had its number in the window.
theorem admits_iff (limiter : IntervalRateLimiter) (request : Request) (older : List Request)
    (hinterval : 0 < limiter.interval) (hmax : 0 < limiter.maxPerInterval)
    (hnear : Near limiter (request :: older)) :
    (resultOf limiter request older).admits = true ↔
      admittedTo limiter request.key (request.time / limiter.interval) older <
        limiter.maxPerInterval.toNat :=
  ((spends hinterval hmax hnear.tail).cons hinterval hmax hnear).2

end Quota

section Sample

-- One request for a key is refused. After 253 of another key and a pause of more than four
-- intervals the next one is the 256th request.
def beforePause : List Request := List.replicate 253 ⟨10, 2⟩ ++ [⟨10, 1⟩, ⟨10, 1⟩]

def pausedRequests : List Request := ⟨60, 1⟩ :: beforePause

theorem near_pausedRequests : Near ⟨1, 10⟩ pausedRequests := by
  constructor
  · decide +kernel
  · decide +kernel

theorem invisible_iff_pausedRequests :
    Invisible ⟨1, 10⟩ pausedRequests ↔ Explained (Spared ⟨1, 10⟩) pausedRequests :=
  invisible_iff ⟨1, 10⟩ pausedRequests (by decide) near_pausedRequests

-- The entry of the key 1 is dropped, and its next request finds that nothing was let through yet.
theorem admits_iff_pausedRequests :
    (resultOf ⟨1, 10⟩ ⟨60, 1⟩ beforePause).admits = true ↔ admittedTo ⟨1, 10⟩ 1 6 beforePause < 1 :=
  admits_iff ⟨1, 10⟩ ⟨60, 1⟩ beforePause (by decide) (by decide) near_pausedRequests

theorem pruning_visible : ¬∀ (limiter : IntervalRateLimiter) (requests : List Request),
    0 < limiter.interval → Near limiter requests → Invisible limiter requests := by
  intro h
  have hinvisible := h ⟨1, 10⟩ pausedRequests (by decide) near_pausedRequests
  have hspared := ((same_iff (by decide) near_pausedRequests).mp hinvisible.same).1
  have hfilter : beforePause.filter (fun other => other.key = 1) = [⟨10, 1⟩, ⟨10, 1⟩] := by
    rw [beforePause, List.filter_append, List.filter_replicate]
    rfl
  have hentry : entryAfter ⟨1, 10⟩ 1 beforePause = some ⟨pack 1 1, 10, true⟩ := by
    rw [← entryAfter_filter, hfilter]
    decide
  have hlength : beforePause.length + 1 = kPruneEvery := by
    rw [beforePause, List.length_append, List.length_replicate]
    rfl
  have hlast : beforePause.find? (fun other => other.key = 1) = some ⟨10, 1⟩ := by
    rw [beforePause, List.find?_append, List.find?_replicate]
    rfl
  have hdrops : DropsAt ⟨1, 10⟩ 60 beforePause 1 :=
    ⟨hlength ▸ dvd_refl _, ⟨10, 1⟩, hlast, by decide⟩
  have hnot := (hspared (.inr hdrops)).1 _ hentry
  cases hnot

end Sample

end Glider.Api
