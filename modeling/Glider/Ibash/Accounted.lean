import Glider.Ibash.Conduct
import Glider.Lib.Custody

namespace Glider.Ibash

open Lib

section Cleaning

-- Hand-overs by their numbers, the calls of `cleanup` made for them, and what each thread has still
-- to clean up of one.
structure Cleaning (handed : List (List ℕ)) (cleaned : List (ℕ × ℕ))
    (pending : ℕ → Option (ℕ × List ℕ)) : Prop where
  nodup : cleaned.Nodup
  mem : ∀ n p, (n, p) ∈ cleaned → ∃ l, handed[n]? = some l ∧ p ∈ l
  given : ∀ t n l, pending t = some (n, l) → ∃ full, handed[n]? = some full ∧ l ⊆ full
  fresh : ∀ t n l, pending t = some (n, l) → l.Nodup ∧ ∀ p ∈ l, (n, p) ∉ cleaned
  alone : ∀ t u n l l', pending t = some (n, l) → pending u = some (n, l') → t = u

variable {handed : List (List ℕ)} {cleaned : List (ℕ × ℕ)} {pending : ℕ → Option (ℕ × List ℕ)}
  {t n p : ℕ} {l rest : List ℕ}

theorem Cleaning.initial : Cleaning [] [] fun _ => none where
  nodup := List.nodup_nil
  mem := fun _ _ h => (nomatch h)
  given := fun _ _ _ h => (nomatch h)
  fresh := fun _ _ _ h => (nomatch h)
  alone := fun _ _ _ _ _ h => (nomatch h)

theorem lt_of_given (h : Cleaning handed cleaned pending) (ht : pending t = some (n, l)) :
    n < handed.length := by
  obtain ⟨full, hfull, -⟩ := h.given t n l ht
  exact (List.getElem?_eq_some_iff.mp hfull).1

theorem update_cases {α : Type} {f : ℕ → Option α} {a a' : α} {u : ℕ}
    (h : Function.update f t (some a) u = some a') : u = t ∧ a' = a ∨ u ≠ t ∧ f u = some a' := by
  by_cases hut : u = t
  · subst hut
    rw [Function.update_self, Option.some.injEq] at h
    exact .inl ⟨rfl, h.symm⟩
  · rw [Function.update_of_ne hut] at h
    exact .inr ⟨hut, h⟩

-- A new hand-over has a number of its own.
theorem Cleaning.handOver (h : Cleaning handed cleaned pending) (hl : l.Nodup) (t : ℕ) :
    Cleaning (handed ++ [l]) cleaned (Function.update pending t (some (handed.length, l))) := by
  have hkeep : ∀ (n : ℕ) (full : List ℕ), handed[n]? = some full → (handed ++ [l])[n]? = some full := by
    intro n full hfull
    rw [List.getElem?_append_left (List.getElem?_eq_some_iff.mp hfull).1, hfull]
  refine ⟨h.nodup, fun n p hmem => ?_, fun u n k hu => ?_, fun u n k hu => ?_,
    fun u v n k k' hu hv => ?_⟩
  · obtain ⟨full, hfull, hp⟩ := h.mem n p hmem
    exact ⟨full, hkeep n full hfull, hp⟩
  · rcases update_cases hu with ⟨-, heq⟩ | ⟨-, hold⟩
    · cases heq
      exact ⟨l, List.getElem?_concat_length, List.Subset.refl l⟩
    · obtain ⟨full, hfull, hsub⟩ := h.given u n k hold
      exact ⟨full, hkeep n full hfull, hsub⟩
  · rcases update_cases hu with ⟨-, heq⟩ | ⟨-, hold⟩
    · cases heq
      refine ⟨hl, fun p _ hmem => ?_⟩
      obtain ⟨full, hfull, -⟩ := h.mem _ p hmem
      exact Nat.lt_irrefl _ (List.getElem?_eq_some_iff.mp hfull).1
    · exact h.fresh u n k hold
  · rcases update_cases hu with ⟨hut, heq⟩ | ⟨-, hold⟩
    · rcases update_cases hv with ⟨hvt, -⟩ | ⟨-, hold'⟩
      · exact hut.trans hvt.symm
      · cases heq
        exact absurd (lt_of_given h hold') (Nat.lt_irrefl _)
    · rcases update_cases hv with ⟨-, heq⟩ | ⟨-, hold'⟩
      · cases heq
        exact absurd (lt_of_given h hold) (Nat.lt_irrefl _)
      · exact h.alone u v n k k' hold hold'

theorem Cleaning.clean (h : Cleaning handed cleaned pending)
    (ht : pending t = some (n, p :: rest)) :
    Cleaning handed ((n, p) :: cleaned) (Function.update pending t (some (n, rest))) := by
  obtain ⟨full, hfull, hsub⟩ := h.given t n _ ht
  obtain ⟨hnodup, hfresh⟩ := h.fresh t n _ ht
  rw [List.nodup_cons] at hnodup
  refine ⟨List.nodup_cons.mpr ⟨hfresh p List.mem_cons_self, h.nodup⟩, fun m q hmem => ?_,
    fun u m k hu => ?_, fun u m k hu => ?_, fun u v m k k' hu hv => ?_⟩
  · rcases List.mem_cons.mp hmem with heq | hmem
    · cases heq
      exact ⟨full, hfull, hsub List.mem_cons_self⟩
    · exact h.mem m q hmem
  · rcases update_cases hu with ⟨-, heq⟩ | ⟨-, hold⟩
    · cases heq
      exact ⟨full, hfull, fun q hq => hsub (List.mem_cons_of_mem p hq)⟩
    · exact h.given u m k hold
  · rcases update_cases hu with ⟨-, heq⟩ | ⟨hne, hold⟩
    · cases heq
      refine ⟨hnodup.2, fun q hq hmem => ?_⟩
      rcases List.mem_cons.mp hmem with heq | hmem
      · cases heq
        exact hnodup.1 hq
      · exact hfresh q (List.mem_cons_of_mem p hq) hmem
    · refine ⟨(h.fresh u m k hold).1, fun q hq hmem => ?_⟩
      rcases List.mem_cons.mp hmem with heq | hmem
      · cases heq
        exact hne (h.alone u t n k _ hold ht)
      · exact (h.fresh u m k hold).2 q hq hmem
  · rcases update_cases hu with ⟨hut, heq⟩ | ⟨-, hold⟩
    · rcases update_cases hv with ⟨hvt, -⟩ | ⟨-, hold'⟩
      · exact hut.trans hvt.symm
      · cases heq
        exact hut.trans (h.alone t v n _ k' ht hold')
    · rcases update_cases hv with ⟨hvt, heq⟩ | ⟨-, hold'⟩
      · cases heq
        exact (h.alone u t n k _ hold ht).trans hvt.symm
      · exact h.alone u v m k k' hold hold'

end Cleaning

section Sections

-- Where a session is kept: in the table, among the retired ones, or in a hand-over.
def Manager.stored (s : Manager) : List ℕ := s.live ++ s.retired ++ s.handed.flatten

structure Accounted (s : Manager) (held : ℕ → Option ℕ) (pending : ℕ → Option (ℕ × List ℕ)) :
    Prop where
  bounded : s.sessions.members.length ≤ kMaxSessions
  custody : Custody s.stored held s.spawned
  cleaning : Cleaning s.handed s.cleaned pending

variable {s s' : Manager} {held : ℕ → Option ℕ} {pending : ℕ → Option (ℕ × List ℕ)}
  {t session : ℕ} {key : SessionKey}

-- The locks and the reaper have no part in it.
theorem Accounted.congr (h : Accounted s held pending) (hsessions : s'.sessions = s.sessions)
    (hretired : s'.retired = s.retired) (hhanded : s'.handed = s.handed)
    (hcleaned : s'.cleaned = s.cleaned) (hspawned : s'.spawned = s.spawned) :
    Accounted s' held pending := by
  have hstored : s'.stored = s.stored := by
    rw [Manager.stored, Manager.live, hsessions, hretired, hhanded]
    rfl
  exact ⟨hsessions ▸ h.bounded, hstored ▸ hspawned ▸ h.custody, hhanded ▸ hcleaned ▸ h.cleaning⟩

theorem stored_retired_append (session : ℕ) :
    ({ s with retired := s.retired ++ [session] } : Manager).stored.Perm (session :: s.stored) := by
  change (s.live ++ (s.retired ++ [session]) ++ s.handed.flatten).Perm
    (session :: (s.live ++ s.retired ++ s.handed.flatten))
  rw [← List.append_assoc s.live, List.append_assoc _ [session]]
  exact List.perm_middle

theorem Accounted.retireNew (h : Accounted s held pending) (ht : held t = some session) :
    Accounted { s with retired := s.retired ++ [session] } (Function.update held t none) pending :=
  ⟨h.bounded, h.custody.store ht (stored_retired_append session), h.cleaning⟩

theorem Accounted.emplace (h : Accounted s held pending) (ht : held t = some session)
    (key : SessionKey) :
    Accounted (s.emplace key session).2 (Function.update held t none) pending := by
  unfold Manager.emplace
  split
  · exact h.retireNew ht
  · next hroom =>
    rw [not_or, Nat.not_le, Option.not_isSome_iff_eq_none] at hroom
    have hmembers := Assoc.members_insert_of_none (a := session) hroom.2
    refine ⟨?_, h.custody.store ht ?_, h.cleaning⟩
    · change (s.sessions.insert key session).members.length ≤ _
      rw [hmembers, List.length_append]
      exact hroom.1
    · change ((s.sessions.insert key session).members.map Prod.snd ++ s.retired ++
        s.handed.flatten).Perm (session :: s.stored)
      rw [hmembers, List.map_append, List.append_assoc, List.append_assoc, Manager.stored,
        List.append_assoc]
      exact List.perm_middle

-- A session goes from the table to the retired ones.
theorem stored_erase (hfound : s.sessions.find? key = some session) :
    ({ s with sessions := s.sessions.erase key, retired := s.retired ++ [session] } :
      Manager).stored.Perm s.stored := by
  have hlive : s.live.Perm (session :: (s.sessions.erase key).members.map Prod.snd) :=
    (Assoc.members_erase_perm hfound).map Prod.snd
  change ((s.sessions.erase key).members.map Prod.snd ++ (s.retired ++ [session]) ++
    s.handed.flatten).Perm (s.live ++ s.retired ++ s.handed.flatten)
  refine List.Perm.append_right _ ?_
  rw [← List.append_assoc]
  exact (List.perm_append_singleton session _).trans (hlive.append_right s.retired).symm

theorem Accounted.move (h : Accounted s held pending)
    (hfound : s.sessions.find? key = some session) :
    Accounted { s with sessions := s.sessions.erase key, retired := s.retired ++ [session] } held
      pending := by
  refine ⟨?_, h.custody.perm (stored_erase hfound), h.cleaning⟩
  have hlen := (Assoc.members_erase_perm hfound).length_eq
  have hbound := h.bounded
  change (s.sessions.erase key).members.length ≤ _
  rw [List.length_cons] at hlen
  omega

theorem Accounted.retireFound (h : Accounted s held pending) (key : SessionKey) (expected : ℕ) :
    Accounted (s.retireFound key expected).2 held pending := by
  unfold Manager.retireFound
  split
  · next hfound => exact h.move hfound
  · exact h

theorem Accounted.retire (h : Accounted s held pending) (key : SessionKey) :
    Accounted (s.retire key).2 held pending := by
  unfold Manager.retire
  split
  · exact h
  · next session hfound => exact h.move hfound

theorem Accounted.swapRetired (h : Accounted s held pending) (t : ℕ) :
    Accounted s.swapRetired held
      (Function.update pending t (some (s.handed.length, s.retired))) := by
  have hstored : s.swapRetired.stored.Perm s.stored := by
    change (s.live ++ [] ++ (s.handed ++ [s.retired]).flatten).Perm
      (s.live ++ s.retired ++ s.handed.flatten)
    rw [List.append_nil, List.flatten_append, List.flatten_singleton, List.append_assoc]
    exact List.perm_append_comm.append_left s.live
  have hretired : s.retired.Nodup :=
    (List.nodup_append.mp (List.nodup_append.mp h.custody.nodup).1).2.1
  exact ⟨h.bounded, h.custody.perm hstored, h.cleaning.handOver hretired t⟩

theorem Accounted.swapAll (h : Accounted s held pending) (t : ℕ) :
    Accounted s.swapAll held
      (Function.update pending t (some (s.handed.length, s.live ++ s.retired))) := by
  have hstored : s.swapAll.stored.Perm s.stored := by
    change ((s.handed ++ [s.live ++ s.retired]).flatten).Perm
      (s.live ++ s.retired ++ s.handed.flatten)
    rw [List.flatten_append, List.flatten_singleton]
    exact List.perm_append_comm
  have hlive : (s.live ++ s.retired).Nodup := (List.nodup_append.mp h.custody.nodup).1
  exact ⟨Nat.zero_le _, h.custody.perm hstored, h.cleaning.handOver hlive t⟩

theorem Accounted.cleanup (h : Accounted s held pending) {handOver : ℕ} {rest : List ℕ}
    (ht : pending t = some (handOver, session :: rest)) :
    Accounted { s with cleaned := (handOver, session) :: s.cleaned } held
      (Function.update pending t (some (handOver, rest))) :=
  ⟨h.bounded, h.custody, h.cleaning.clean ht⟩

theorem Accounted.spawn (h : Accounted s held pending) (ht : held t = none) :
    Accounted { s with spawned := s.spawned + 1 } (Function.update held t (some s.spawned))
      pending :=
  ⟨h.bounded, h.custody.make ht, h.cleaning⟩

end Sections

end Glider.Ibash
