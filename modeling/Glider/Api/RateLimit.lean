import Mathlib.Data.List.Basic
import Mathlib.Data.Nat.ModEq
import Glider.Lib.Transition

namespace Glider.Api

open Glider.Lib

structure IntervalRateLimiter where
  maxPerInterval : UInt32
  interval : ℕ

-- The packed state: the window in the upper half, the number of requests in the lower half.
def pack (window count : UInt32) : UInt64 := (window.toUInt64 <<< 32) ||| count.toUInt64

def stateWindow (state : UInt64) : UInt32 := (state >>> 32).toUInt32

def stateCount (state : UInt64) : UInt32 := (state &&& 0xFFFFFFFF).toUInt32

-- A call of `check` reads the clock, loads the state and then loops. `window` is the window that
-- the clock showed, before it is cut down to 32 bits.
inductive Call where
  | begun (window : ℕ)
  | looping (window : ℕ) (expected : UInt64)
  | returned (window : ℕ) (result : Bool)
deriving DecidableEq

structure State where
  state : UInt64
  now : ℕ
  calls : List Call

namespace IntervalRateLimiter

def start (now : ℕ) : State := ⟨0, now, []⟩

inductive Step where
  | tick (elapsed : ℕ)
  | readClock
  | load (call : ℕ)
  | iterate (call : ℕ) (spurious : Bool)

-- The value one turn of the loop wants to store; `none` is the refusal.
def desired (limiter : IntervalRateLimiter) (window : ℕ) (expected : UInt64) : Option UInt64 :=
  let currentWindow := UInt32.ofNat window
  if stateWindow expected ≠ currentWindow then
    some (pack currentWindow 1)
  else if stateCount expected ≥ limiter.maxPerInterval then
    none
  else
    some (pack currentWindow (stateCount expected + 1))

-- A weak exchange may fail although the state is the expected one. A failed one reads the state.
def compareExchangeWeak (s : State) (expected : UInt64) (spurious : Bool) : Bool :=
  s.state == expected && !spurious

def iterate (limiter : IntervalRateLimiter) (s : State) (call window : ℕ) (expected : UInt64)
    (spurious : Bool) : State :=
  match limiter.desired window expected with
  | none => { s with calls := s.calls.set call (.returned window false) }
  | some value =>
    if compareExchangeWeak s expected spurious then
      { s with state := value, calls := s.calls.set call (.returned window true) }
    else
      { s with calls := s.calls.set call (.looping window s.state) }

def step (limiter : IntervalRateLimiter) : Transition State Step
  | s, .tick elapsed => some { s with now := s.now + elapsed }
  | s, .readClock => some { s with calls := s.calls ++ [.begun (s.now / limiter.interval)] }
  | s, .load call =>
    match s.calls[call]? with
    | some (.begun window) => some { s with calls := s.calls.set call (.looping window s.state) }
    | _ => none
  | s, .iterate call spurious =>
    match s.calls[call]? with
    | some (.looping window expected) => some (limiter.iterate s call window expected spurious)
    | _ => none

end IntervalRateLimiter

-- The calls that read `window` and were let through.
def admitted (s : State) (window : ℕ) : ℕ := s.calls.count (.returned window true)

theorem toNat_pack (window count : UInt32) :
    (pack window count).toNat = 2 ^ 32 * window.toNat + count.toNat := by
  have hw := window.toNat_lt
  have hc := count.toNat_lt
  rw [pack, UInt64.toNat_or, UInt64.toNat_shiftLeft, UInt32.toNat_toUInt64, UInt32.toNat_toUInt64,
    Nat.two_pow_add_eq_or_of_lt hc, Nat.shiftLeft_eq]
  simp only [UInt64.toNat_ofNat, Nat.reducePow, Nat.reduceMod] at hw ⊢
  rw [Nat.mod_eq_of_lt (by omega), Nat.mul_comm]

@[simp] theorem stateWindow_pack (window count : UInt32) :
    stateWindow (pack window count) = window := by
  have hw := window.toNat_lt
  have hc := count.toNat_lt
  apply UInt32.toNat_inj.mp
  rw [stateWindow, UInt64.toNat_toUInt32, UInt64.toNat_shiftRight, toNat_pack,
    Nat.shiftRight_eq_div_pow]
  simp only [UInt64.toNat_ofNat, Nat.reducePow, Nat.reduceMod] at hw hc ⊢
  omega

@[simp] theorem stateCount_pack (window count : UInt32) :
    stateCount (pack window count) = count := by
  have hc := count.toNat_lt
  apply UInt32.toNat_inj.mp
  have hm : (0xFFFFFFFF : UInt64).toNat = 2 ^ 32 - 1 := rfl
  rw [stateCount, UInt64.toNat_toUInt32, UInt64.toNat_and, toNat_pack, hm,
    Nat.and_two_pow_sub_one_eq_mod]
  omega

namespace IntervalRateLimiter

-- A call of a window after this one was let through.
def passedBy (window : ℕ) : Call → Bool
  | .returned newer result => result && decide (window < newer)
  | _ => false

-- The exchange of this step succeeds for a call whose window is older than one that was already
-- let through.
def storesLate (limiter : IntervalRateLimiter) (s : State) : Step → Bool
  | .iterate call spurious =>
    match s.calls[call]? with
    | some (.looping window expected) =>
      (limiter.desired window expected).isSome && compareExchangeWeak s expected spurious &&
        s.calls.any (passedBy window)
    | _ => false
  | _ => false

def InOrder (limiter : IntervalRateLimiter) (s : State) (i : Step) : Prop :=
  limiter.storesLate s i = false

instance (limiter : IntervalRateLimiter) (s : State) (i : Step) :
    Decidable (limiter.InOrder s i) := inferInstanceAs (Decidable (_ = _))

variable {limiter : IntervalRateLimiter} {s t : State}

def windowOf : Call → ℕ
  | .begun window => window
  | .looping window _ => window
  | .returned window _ => window

-- What the state means while no call is late: `newest` is the newest window that was let through,
-- the packed state has it with its number of admissions.
structure Counted (limiter : IntervalRateLimiter) (base : ℕ) (s : State) : Prop where
  read : ∀ call ∈ s.calls, base ≤ windowOf call ∧ windowOf call ≤ s.now / limiter.interval
  clock : base ≤ s.now / limiter.interval
  bound : ∀ window, admitted s window ≤ limiter.maxPerInterval.toNat
  packed : (∀ window, admitted s window = 0) ∧ s.state = 0 ∨
    ∃ newest count, 0 < admitted s newest ∧ (∀ window, 0 < admitted s window → window ≤ newest) ∧
      s.state = pack (UInt32.ofNat newest) count ∧ count.toNat = admitted s newest

theorem admitted_set {calls : List Call} {i : ℕ} {old new : Call} (hi : calls[i]? = some old)
    (hold : ∀ window, old ≠ .returned window true) (window : ℕ) :
    (calls.set i new).count (.returned window true) =
      calls.count (.returned window true) + if new = .returned window true then 1 else 0 := by
  obtain ⟨hlt, rfl⟩ := List.getElem?_eq_some_iff.mp hi
  rw [List.count_set hlt]
  simp only [beq_iff_eq, hold window, if_false, Nat.sub_zero]

theorem windowOf_set {calls : List Call} {i lo hi : ℕ} {old new : Call}
    (hget : calls[i]? = some old) (hw : windowOf new = windowOf old)
    (h : ∀ call ∈ calls, lo ≤ windowOf call ∧ windowOf call ≤ hi) :
    ∀ call ∈ calls.set i new, lo ≤ windowOf call ∧ windowOf call ≤ hi := by
  intro call hc
  rcases List.mem_or_eq_of_mem_set hc with hc | rfl
  · exact h call hc
  · rw [hw]
    exact h old (List.mem_of_getElem? hget)

-- A call that moves on without being let through changes no count.
theorem Counted.move {base : ℕ} (h : Counted limiter base s) {i : ℕ} {old new : Call}
    (hi : s.calls[i]? = some old) (hw : windowOf new = windowOf old)
    (hold : ∀ window, old ≠ .returned window true)
    (hnew : ∀ window, new ≠ .returned window true) :
    Counted limiter base { s with calls := s.calls.set i new } := by
  have ha : ∀ window, admitted { s with calls := s.calls.set i new } window = admitted s window := by
    intro window
    simp only [admitted, admitted_set hi hold, hnew window, if_false, Nat.add_zero]
  refine ⟨windowOf_set hi hw h.read, h.clock, fun window => ha window ▸ h.bound window, ?_⟩
  simpa only [ha] using h.packed

theorem ofNat_inj_of_near {base a b : ℕ} (ha : base ≤ a) (hb : base ≤ b) (ha' : a < base + 2 ^ 32)
    (hb' : b < base + 2 ^ 32) (h : UInt32.ofNat a = UInt32.ofNat b) : a = b := by
  have hm := congrArg UInt32.toNat h
  simp only [UInt32.toNat_ofNat'] at hm
  omega

-- What a turn of the loop stores for a call that is not late is the next count of its window.
theorem Counted.desired_eq {base window : ℕ} {value : UInt64} (h : Counted limiter base s)
    (hmax : 1 ≤ limiter.maxPerInterval) (hlo : base ≤ window) (hhi : window < base + 2 ^ 32)
    (hnow : s.now / limiter.interval < base + 2 ^ 32)
    (horder : ∀ newer, 0 < admitted s newer → newer ≤ window)
    (hd : limiter.desired window s.state = some value) :
    ∃ count, value = pack (UInt32.ofNat window) count ∧ count.toNat = admitted s window + 1 ∧
      admitted s window < limiter.maxPerInterval.toNat := by
  have hone : 1 ≤ limiter.maxPerInterval.toNat := UInt32.le_iff_toNat_le.mp hmax
  simp only [desired] at hd
  by_cases hw : stateWindow s.state = UInt32.ofNat window
  · rw [if_neg (not_not_intro hw)] at hd
    by_cases hc : stateCount s.state ≥ limiter.maxPerInterval
    · rw [if_pos hc] at hd
      exact absurd hd nofun
    · rw [if_neg hc, Option.some_inj] at hd
      have hlt : (stateCount s.state).toNat < limiter.maxPerInterval.toNat :=
        UInt32.lt_iff_toNat_lt.mp (UInt32.not_le.mp hc)
      have hmax := limiter.maxPerInterval.toNat_lt
      have hcount : (stateCount s.state).toNat = admitted s window := by
        rcases h.packed with ⟨hz, hs⟩ | ⟨newest, count, hpos, -, hs, hn⟩
        · rw [hz window, hs]
          rfl
        · rw [hs, stateWindow_pack] at hw
          have hmem : Call.returned newest true ∈ s.calls := List.count_pos_iff.mp hpos
          have hr := h.read _ hmem
          simp only [windowOf] at hr
          rw [ofNat_inj_of_near hr.1 hlo (by omega) hhi hw] at hn hs
          rw [hs, stateCount_pack, hn]
      refine ⟨_, hd.symm, ?_, hcount ▸ hlt⟩
      rw [UInt32.toNat_add, hcount]
      simp only [UInt32.reduceToNat]
      exact Nat.mod_eq_of_lt (by omega)
  · rw [if_pos hw, Option.some_inj] at hd
    have hzero : admitted s window = 0 := by
      rcases h.packed with ⟨hz, -⟩ | ⟨newest, count, hpos, hmost, hs, -⟩
      · exact hz window
      · by_contra hne
        have hle := hmost window (Nat.pos_of_ne_zero hne)
        have heq : newest = window := Nat.le_antisymm (horder newest hpos) hle
        rw [hs, stateWindow_pack, heq] at hw
        exact hw rfl
    refine ⟨1, hd.symm, ?_, ?_⟩
    · rw [hzero]
      rfl
    · omega

theorem Counted.admit {base window call : ℕ} {value expected : UInt64} (h : Counted limiter base s)
    (hmax : 1 ≤ limiter.maxPerInterval) (hnow : s.now / limiter.interval < base + 2 ^ 32)
    (hi : s.calls[call]? = some (.looping window expected))
    (horder : ∀ newer, .returned newer true ∈ s.calls → newer ≤ window)
    (hd : limiter.desired window s.state = some value) :
    Counted limiter base
      { s with state := value, calls := s.calls.set call (.returned window true) } := by
  have hr := h.read _ (List.mem_of_getElem? hi)
  simp only [windowOf] at hr
  have horder' : ∀ newer, 0 < admitted s newer → newer ≤ window :=
    fun newer hp => horder newer (List.count_pos_iff.mp hp)
  obtain ⟨count, hv, hc, hlt⟩ := h.desired_eq hmax hr.1 (by omega) hnow horder' hd
  have ha : ∀ w,
      admitted { s with state := value, calls := s.calls.set call (.returned window true) } w =
        admitted s w + if window = w then 1 else 0 := by
    intro w
    simp only [admitted, admitted_set hi (fun _ => nofun), Call.returned.injEq, and_true]
  refine ⟨windowOf_set hi rfl h.read, h.clock, ?_, .inr ⟨window, count, ?_, ?_, hv, ?_⟩⟩
  · intro w
    rw [ha]
    by_cases he : window = w
    · rw [if_pos he, ← he]
      exact hlt
    · rw [if_neg he]
      exact h.bound w
  · rw [ha, if_pos rfl]
    exact Nat.succ_pos _
  · intro w hw
    rw [ha] at hw
    by_cases he : window = w
    · exact he.ge
    · rw [if_neg he] at hw
      exact horder' w hw
  · rw [ha, if_pos rfl, hc]

theorem step_now_le {i : Step} (h : limiter.step s i = some t) : s.now ≤ t.now := by
  cases i with
  | tick elapsed =>
    obtain rfl := Option.some_inj.mp h
    exact Nat.le_add_right _ _
  | readClock =>
    obtain rfl := Option.some_inj.mp h
    exact Nat.le_refl _
  | load call =>
    simp only [step] at h
    split at h
    · obtain rfl := Option.some_inj.mp h
      exact Nat.le_refl _
    · exact absurd h nofun
  | iterate call spurious =>
    simp only [step] at h
    split at h
    · obtain rfl := Option.some_inj.mp h
      simp only [iterate]
      split
      · exact Nat.le_refl _
      · split <;> exact Nat.le_refl _
    · exact absurd h nofun

theorem Counted.step {base : ℕ} {i : Step} (h : Counted limiter base s)
    (hmax : 1 ≤ limiter.maxPerInterval) (hnow : s.now / limiter.interval < base + 2 ^ 32)
    (hg : InOrder limiter s i) (ht : limiter.step s i = some t) : Counted limiter base t := by
  cases i with
  | tick elapsed =>
    obtain rfl := Option.some_inj.mp ht
    have hle : s.now / limiter.interval ≤ (s.now + elapsed) / limiter.interval :=
      Nat.div_le_div_right (Nat.le_add_right _ _)
    refine ⟨fun call hc => ?_, h.clock.trans hle, h.bound, h.packed⟩
    exact ⟨(h.read call hc).1, (h.read call hc).2.trans hle⟩
  | readClock =>
    obtain rfl := Option.some_inj.mp ht
    have ha : ∀ window, admitted { s with calls := s.calls ++ [.begun (s.now / limiter.interval)] }
        window = admitted s window := by
      intro window
      simp [admitted, List.count_append]
    refine ⟨?_, h.clock, fun window => ha window ▸ h.bound window, by simpa only [ha] using h.packed⟩
    intro call hc
    rcases List.mem_append.mp hc with hc | hc
    · exact h.read call hc
    · rw [List.mem_singleton.mp hc]
      exact ⟨h.clock, Nat.le_refl _⟩
  | load call =>
    simp only [IntervalRateLimiter.step] at ht
    split at ht
    next window hi =>
      obtain rfl := Option.some_inj.mp ht
      exact h.move hi rfl (fun _ => nofun) (fun _ => nofun)
    · exact absurd ht nofun
  | iterate call spurious =>
    simp only [IntervalRateLimiter.step] at ht
    split at ht
    next window expected hi =>
      obtain rfl := Option.some_inj.mp ht
      unfold iterate
      cases hd : limiter.desired window expected with
      | none => exact h.move hi rfl (fun _ => nofun) (fun _ => nofun)
      | some value =>
        cases hx : compareExchangeWeak s expected spurious with
        | false => exact h.move hi rfl (fun _ => nofun) (fun _ => nofun)
        | true =>
          have hs : s.state = expected := by
            simp only [compareExchangeWeak, Bool.and_eq_true, beq_iff_eq] at hx
            exact hx.1
          have hlate : s.calls.any (passedBy window) = false := by
            simpa only [InOrder, storesLate, hi, hd, hx, Option.isSome_some, Bool.true_and]
              using hg
          refine h.admit hmax hnow hi (fun newer hm => ?_) (hs ▸ hd)
          simpa [passedBy] using List.any_eq_false.mp hlate _ hm
    · exact absurd ht nofun

-- The bound of every window, for the runs in which no call stores an older window than one that
-- was already let through.
theorem admitted_le_maxPerInterval (limiter : IntervalRateLimiter) (now : ℕ) (steps : List Step)
    (t : State) (hmax : 1 ≤ limiter.maxPerInterval)
    (hp : Transition.path limiter.step (start now) steps = some t)
    (hnear : t.now / limiter.interval < now / limiter.interval + 2 ^ 32)
    (hg : Transition.Guarded limiter.step limiter.InOrder (start now) steps) (window : ℕ) :
    admitted t window ≤ limiter.maxPerInterval.toNat := by
  have hgood : t.now / limiter.interval < now / limiter.interval + 2 ^ 32 →
      Counted limiter (now / limiter.interval) t := by
    refine Transition.path_invariant (fun s : State =>
      s.now / limiter.interval < now / limiter.interval + 2 ^ 32 →
        Counted limiter (now / limiter.interval) s) ?_ ?_ hg hp
    · intro s i u hs hi hu hn
      have hle : s.now / limiter.interval ≤ u.now / limiter.interval :=
        Nat.div_le_div_right (step_now_le hu)
      exact (hs (by omega)).step hmax (by omega) hi hu
    · intro _
      exact ⟨by simp [start], Nat.le_refl _, by simp [start, admitted],
        .inl ⟨by simp [start, admitted], rfl⟩⟩
  exact (hgood hnear).bound window

-- One window is filled, the next one begins and is filled too.
def inOrderRun : List Step :=
  [.readClock, .readClock, .load 0, .load 1, .iterate 0 true, .iterate 0 false, .iterate 1 false,
    .iterate 1 false, .tick 10, .readClock, .load 2, .iterate 2 false]

theorem admitted_le_maxPerInterval_inOrderRun : ∃ t,
    Transition.path (step ⟨1, 10⟩) (start 57) inOrderRun = some t ∧
    t.calls = [.returned 5 true, .returned 5 false, .returned 6 true] ∧ admitted t 5 ≤ 1 := by
  obtain ⟨t, hp, hn, hc⟩ := Transition.exists_path (step ⟨1, 10⟩) (start 57) inOrderRun
    (fun t => t.now / 10 < 57 / 10 + 2 ^ 32 ∧
      t.calls = [.returned 5 true, .returned 5 false, .returned 6 true]) (by decide)
  exact ⟨t, hp, hc, admitted_le_maxPerInterval ⟨1, 10⟩ 57 inOrderRun t (by decide) hp hn
    (by decide) 5⟩

-- The second call reads window 5 as well, but loads the state only after window 6 has begun. It
-- stores window 5 with the count 1 again.
def lateRun : List Step :=
  [.readClock, .readClock, .load 0, .iterate 0 false, .tick 10, .readClock, .load 2,
    .iterate 2 false, .load 1, .iterate 1 false]

theorem maxPerInterval_exceeded : ¬∀ (limiter : IntervalRateLimiter) (now : ℕ) (steps : List Step)
    (t : State), 1 ≤ limiter.maxPerInterval →
    Transition.path limiter.step (start now) steps = some t →
    t.now / limiter.interval < now / limiter.interval + 2 ^ 32 →
    ∀ window, admitted t window ≤ limiter.maxPerInterval.toNat := by
  intro h
  obtain ⟨t, hp, hn, ha⟩ := Transition.exists_path (step ⟨1, 10⟩) (start 57) lateRun
    (fun t => t.now / 10 < 57 / 10 + 2 ^ 32 ∧ admitted t 5 = 2) (by decide)
  have hle : admitted t 5 ≤ 1 := h ⟨1, 10⟩ 57 lateRun t (by decide) hp hn 5
  omega

end IntervalRateLimiter

end Glider.Api
