import Glider.Db.Auth
import Glider.Db.ListAgreement

namespace Glider.Db

open Glider.Lib

-- An operation on the lists of `user` that was answered with `OK`.
def okListCall (user : UserId) : ListCall × ListAnswer → Option ListCall
  | (.addUserToList type u, .list .OK) => if u = user then some (.addUserToList type u) else none
  | (.removeUserFromList type u, .list .OK) =>
    if u = user then some (.removeUserFromList type u) else none
  | _ => none

-- The last of them; the history has the newest call first.
def lastListed (history : List (ListCall × ListAnswer)) (user : UserId) : Option ListCall :=
  history.findSome? (okListCall user)

namespace Roster

variable {r r' : Roster} {history : List (ListCall × ListAnswer)} {user : UserId}

-- Without storage failures an answer says what was done to the roster.
def Exact (r r' : Roster) : ListCall → ListAnswer → Prop
  | .addUserToList type user, .list .OK =>
    user ∉ r.otherList type ∧ r' = r.setList (r.list type ++ [user]) type
  | .removeUserFromList type user, .list .OK =>
    user ∈ r.list type ∧ r' = r.setList ((r.list type).erase user) type
  | .claimOwnerUserId user, .claim .OK => r' = { r with owner := some user }
  | _, _ => r' = r

-- The lists say what was last done to each user.
def Recorded (r : Roster) (history : List (ListCall × ListAnswer)) : Prop :=
  ∀ type user, user ∈ r.list type ↔
    lastListed history user = some (.addUserToList type user)

theorem recorded_empty : empty.Recorded [] := by
  intro type user
  cases type <;> simp [empty, list, lastListed]

theorem mem_setList_self {ids : List UserId} (type : ListType) :
    user ∈ (r.setList ids type).list type ↔ user ∈ ids := by
  cases type <;> rfl

theorem mem_setList_other {ids : List UserId} {type type' : ListType} (hne : type' ≠ type) :
    user ∈ (r.setList ids type).list type' ↔ user ∈ r.list type' := by
  cases type <;> cases type' <;> first | rfl | exact absurd rfl hne

theorem otherList_eq {type type' : ListType} (hne : type' ≠ type) :
    r.otherList type = r.list type' := by
  cases type <;> cases type' <;> first | rfl | exact absurd rfl hne

theorem nodup_list (h : r.Consistent) (type : ListType) : (r.list type).Nodup := by
  cases type
  · exact h.whitelist
  · exact h.blacklist

theorem Recorded.add (h : r.Recorded history) {type : ListType} (hother : user ∉ r.otherList type) :
    (r.setList (r.list type ++ [user]) type).Recorded
      ((.addUserToList type user, .list .OK) :: history) := by
  intro type' u
  have hlist := h type' u
  simp only [lastListed, List.findSome?_cons, okListCall] at hlist ⊢
  by_cases hu : user = u
  · subst hu
    simp only [if_true, Option.some.injEq, ListCall.addUserToList.injEq, and_true]
    by_cases htype : type' = type
    · subst htype
      simp [mem_setList_self]
    · rw [mem_setList_other htype, ← otherList_eq htype]
      exact ⟨fun hin => absurd hin hother, fun heq => absurd heq.symm htype⟩
  · simp only [hu, if_false]
    rw [← hlist]
    by_cases htype : type' = type
    · subst htype
      have hne : u ≠ user := fun heq => hu heq.symm
      simp [mem_setList_self, hne]
    · exact mem_setList_other htype

theorem Recorded.remove (h : r.Recorded history) (hr : r.Consistent) {type : ListType}
    (hin : user ∈ r.list type) :
    (r.setList ((r.list type).erase user) type).Recorded
      ((.removeUserFromList type user, .list .OK) :: history) := by
  intro type' u
  have hlist := h type' u
  simp only [lastListed, List.findSome?_cons, okListCall] at hlist ⊢
  by_cases hu : user = u
  · subst hu
    simp only [if_true, Option.some.injEq, reduceCtorEq, iff_false]
    by_cases htype : type' = type
    · subst htype
      rw [mem_setList_self]
      exact (nodup_list hr type').not_mem_erase
    · rw [mem_setList_other htype, ← otherList_eq htype]
      exact hr.notMem_other hin
  · simp only [hu, if_false]
    rw [← hlist]
    by_cases htype : type' = type
    · subst htype
      have hne : u ≠ user := fun heq => hu heq.symm
      rw [mem_setList_self, List.mem_erase_of_ne hne]
    · exact mem_setList_other htype

theorem Recorded.step {call : ListCall} {answer : ListAnswer} (h : r.Recorded history)
    (hr : r.Consistent) (hexact : r.Exact r' call answer) :
    r'.Recorded ((call, answer) :: history) := by
  unfold Exact at hexact
  split at hexact
  · obtain ⟨hother, rfl⟩ := hexact
    exact h.add hother
  · obtain ⟨hin, rfl⟩ := hexact
    exact h.remove hr hin
  · subst hexact
    intro type user
    exact Iff.trans (by cases type <;> rfl) (h type user)
  · rename_i hadd hremove _
    subst hexact
    intro type user
    have hnone : okListCall user (call, answer) = none := by
      unfold okListCall
      split <;> rename_i heq
      · obtain ⟨rfl, rfl⟩ := Prod.mk.inj heq
        exact (hadd _ _ rfl rfl).elim
      · obtain ⟨rfl, rfl⟩ := Prod.mk.inj heq
        exact (hremove _ _ rfl rfl).elim
      · rfl
    rw [h type user, lastListed, lastListed, List.findSome?_cons, hnone]

end Roster

theorem Sqlite.rosterStep_exact (r : Roster) (call : ListCall) :
    r.Exact (rosterStep r call).2 call (rosterStep r call).1 := by
  cases call with
  | addUserToList type user | removeUserFromList type user =>
    simp only [rosterStep, standing]
    by_cases howner : r.owner = some user
    · simp [howner, Roster.Exact]
    by_cases hmine : user ∈ r.list type
    · simp [howner, hmine, Roster.Exact]
    by_cases hother : user ∈ r.otherList type
    · simp [howner, hmine, hother, Roster.Exact]
    · simp [howner, hmine, hother, Roster.Exact]
  | checkUserInList type user => rfl
  | claimOwnerUserId user =>
    simp only [rosterStep]
    split_ifs <;> rfl
  | getOwnerUserId => rfl

theorem Protobuf.rosterStep_exact (r : Roster) (call : ListCall) :
    r.Exact (rosterStep r call).2 call (rosterStep r call).1 := by
  cases call with
  | addUserToList type user =>
    simp only [rosterStep]
    split_ifs with howner hother hmine
    · rfl
    · rfl
    · rfl
    · exact ⟨hother, rfl⟩
  | removeUserFromList type user =>
    simp only [rosterStep]
    split_ifs with hmine
    · exact ⟨hmine, rfl⟩
    · rfl
  | checkUserInList type user | claimOwnerUserId user =>
    simp only [rosterStep]
    split_ifs <;> rfl
  | getOwnerUserId => rfl

-- What an authorization check in the state `s` says about the calls made so far.
structure AuthorizedByHistory {σ : Type} (impl : DatabaseBase σ) (s : σ)
    (history : List (ListCall × ListAnswer)) : Prop where
  owner_admin : ∀ user, (isAuthorized impl user .Owner s).1.authorized = true →
    (isAuthorized impl user .AdminUser s).1.authorized = true
  admin_user : ∀ user, (isAuthorized impl user .AdminUser s).1.authorized = true →
    (isAuthorized impl user .User s).1.authorized = true
  user_unprotected : ∀ user, (isAuthorized impl user .User s).1.authorized = true →
    (isAuthorized impl user .Unprotected s).1.authorized = true
  admin_iff : ∀ id, ¬TreatedAsBot id →
    ((isAuthorized impl (some ⟨id, false⟩) .AdminUser s).1.authorized = true ↔
      id ∈ claimants history ∨ lastListed history id = some (.addUserToList .WHITELIST id))
  user_refused_iff : ∀ id, ¬TreatedAsBot id →
    ((isAuthorized impl (some ⟨id, false⟩) .User s).1.authorized = false ↔
      id ∉ claimants history ∧ lastListed history id = some (.addUserToList .BLACKLIST id))
  bots_refused : ∀ user : User, user.isBot = true ∨ TreatedAsBot user.id → ∀ level,
    level ≠ .Unprotected → (isAuthorized impl (some user) level s).1.authorized = false

section Backend

variable {σ : Type} {impl : DatabaseBase σ} {good : σ → Prop} {view : σ → Roster}
  {machine : Machine Roster ListCall ListAnswer} {s : σ} {id : UserId}

-- The backend does on its roster what the machine does.
def Follows (impl : DatabaseBase σ) (good : σ → Prop) (view : σ → Roster)
    (machine : Machine Roster ListCall ListAnswer) : Prop :=
  ∀ s call, good s →
    (listStep impl s call).1 = (machine (view s) call).1 ∧
      view (listStep impl s call).2 = (machine (view s) call).2 ∧ good (listStep impl s call).2

-- What the machine answers when it is only asked.
structure Reads (machine : Machine Roster ListCall ListAnswer) : Prop where
  check : ∀ r type user, ∃ result, machine r (.checkUserInList type user) = (.list result, r) ∧
    result ≠ .BACKEND_ERROR ∧ (r.owner ≠ some user → (result = .OK ↔ user ∈ r.list type))
  owner : ∀ r, machine r .getOwnerUserId = (.owner r.owner, r)

theorem Sqlite.reads : Reads Sqlite.rosterStep where
  check := by
    intro r type user
    refine ⟨standing r type user, rfl, ?_, ?_⟩
    · unfold standing
      split_ifs <;> simp
    · intro howner
      unfold standing
      split_ifs <;> simp_all
  owner := fun _ => rfl

theorem Protobuf.reads : Reads Protobuf.rosterStep where
  check := by
    intro r type user
    simp only [rosterStep]
    split_ifs with hmine hother
    · exact ⟨.OK, rfl, by simp, by simp [hmine]⟩
    · exact ⟨.ALREADY_IN_OTHER_LIST, rfl, by simp, by simp [hmine]⟩
    · exact ⟨.NOT_IN_LIST, rfl, by simp, by simp [hmine]⟩
  owner := fun _ => rfl

theorem isInList_of_follows (hf : Follows impl good view machine) (hm : Reads machine)
    (hs : good s) (type : ListType) (id : UserId) :
    ((view s).owner ≠ some id → ((isInList impl type id s).1 = true ↔ id ∈ (view s).list type)) ∧
      view (isInList impl type id s).2 = view s ∧ good (isInList impl type id s).2 := by
  obtain ⟨result, hresult, hok, hlist⟩ := hm.check (view s) type id
  obtain ⟨hanswer, hview, hgood⟩ := hf s (.checkUserInList type id) hs
  rw [hresult] at hanswer hview
  simp only [listStep, ListAnswer.list.injEq] at hanswer hview hgood
  have hin : isInList impl type id s =
      (decide (result = .OK), (impl.checkUserInList type id s).2) := by
    unfold isInList
    split <;> rename_i heq <;> rw [heq] at hanswer <;> subst hanswer <;> simp_all
  rw [hin]
  refine ⟨?_, hview, hgood⟩
  intro howner
  rw [decide_eq_true_eq]
  exact hlist howner

-- A check for a human reads the roster and nothing else.
theorem isAuthorized_of_follows (hf : Follows impl good view machine) (hm : Reads machine)
    (hs : good s) (hid : ¬TreatedAsBot id) (level : AccessLevel) :
    (isAuthorized impl (some ⟨id, false⟩) level s).1.authorized =
      granted level (decide ((view s).owner = some id)) (decide (id ∈ (view s).blacklist))
        (decide (id ∈ (view s).whitelist)) := by
  obtain ⟨hblack, hview, hgood⟩ := isInList_of_follows hf hm hs .BLACKLIST id
  obtain ⟨hwhite, hview', hgood'⟩ := isInList_of_follows hf hm hgood .WHITELIST id
  rw [hview] at hwhite hview'
  obtain ⟨howner, -, -⟩ := hf _ .getOwnerUserId hgood'
  rw [hm.owner, hview'] at howner
  simp only [listStep, ListAnswer.owner.injEq] at howner
  rw [isAuthorized_human _ hid]
  simp only [howner]
  by_cases hown : (view s).owner = some id
  · cases level <;> simp [granted, hown]
  · have hb : (isInList impl .BLACKLIST id s).1 = decide (id ∈ (view s).blacklist) := by
      rw [Bool.eq_iff_iff, hblack hown, decide_eq_true_eq]
      rfl
    have hw : (isInList impl .WHITELIST id (isInList impl .BLACKLIST id s).2).1 =
        decide (id ∈ (view s).whitelist) := by
      rw [Bool.eq_iff_iff, hwhite hown, decide_eq_true_eq]
      rfl
    rw [hb, hw]

-- The levels are nested for everybody, a missing user included.
theorem authorized_nested (hf : Follows impl good view machine) (hm : Reads machine) (hs : good s)
    {level level' : AccessLevel}
    (hnested : ∀ owner black white, granted level owner black white = true →
      granted level' owner black white = true) (hlevel : level ≠ .Unprotected)
    (user : Option User) (h : (isAuthorized impl user level s).1.authorized = true) :
    (isAuthorized impl user level' s).1.authorized = true := by
  have hnobot : ∀ user : Option User,
      (user.bind fun user => if user.isBot then none else some user.id) = none →
      (isAuthorized impl user level s).1.authorized = false := by
    intro user huser
    unfold isAuthorized
    split_ifs
    · rfl
    · rw [huser]
      simp [hlevel, AuthResult.make]
  cases user with
  | none => exact absurd h (by rw [hnobot none rfl]; decide)
  | some user =>
    obtain ⟨id, isBot⟩ := user
    cases isBot with
    | true => exact absurd h (by rw [hnobot _ rfl]; decide)
    | false =>
      by_cases hid : TreatedAsBot id
      · simp [isAuthorized, hid, AuthResult.make] at h
      · rw [isAuthorized_of_follows hf hm hs hid] at h ⊢
        exact hnested _ _ _ h

theorem bots_refused (user : User) (hbot : user.isBot = true ∨ TreatedAsBot user.id)
    (level : AccessLevel) (hlevel : level ≠ .Unprotected) :
    (isAuthorized impl (some user) level s).1.authorized = false := by
  by_cases hid : TreatedAsBot user.id
  · simp [isAuthorized, hid, AuthResult.make]
  · have hbot : user.isBot = true := hbot.resolve_right hid
    simp [isAuthorized, hid, hbot, hlevel, AuthResult.make]

-- The whole run: the state is good, the roster says what the history says.
structure Tracked (good : σ → Prop) (view : σ → Roster) (s : σ)
    (history : List (ListCall × ListAnswer)) : Prop where
  good : good s
  kept : (view s).Kept history
  recorded : (view s).Recorded history

theorem tracked_of_steps (hf : Follows impl good view machine)
    (hstep : ∀ s call, (view s).Step call (listStep impl s call).1 (view (listStep impl s call).2))
    (hexact : ∀ (r : Roster) call, r.Exact (machine r call).2 call (machine r call).1)
    (hs : good s) (hempty : view s = .empty) (calls : List ListCall) :
    let t := (listStep impl).recorded.run (s, []) calls
    Tracked good view t.1 t.2 := by
  have htracked : ∀ (t : σ × List (ListCall × ListAnswer)) (call : ListCall),
      Tracked good view t.1 t.2 → Tracked good view ((listStep impl).recorded t call).2.1
        ((listStep impl).recorded t call).2.2 := by
    intro t call h
    obtain ⟨hanswer, hview, hgood⟩ := hf t.1 call h.good
    refine ⟨hgood, h.kept.step (hstep t.1 call), ?_⟩
    refine h.recorded.step h.kept.consistent ?_
    show (view t.1).Exact (view (listStep impl t.1 call).2) call (listStep impl t.1 call).1
    rw [hanswer, hview]
    exact hexact (view t.1) call
  refine Machine.run_invariant_of_step htracked ⟨hs, ?_, ?_⟩ calls
  · rw [hempty]
    exact ⟨Roster.consistent_empty, rfl⟩
  · rw [hempty]
    exact Roster.recorded_empty

theorem Tracked.authorized {history : List (ListCall × ListAnswer)}
    (h : Tracked good view s history) (hf : Follows impl good view machine) (hm : Reads machine) :
    AuthorizedByHistory impl s history := by
  have hclaim : ∀ id, id ∈ claimants history ↔ (view s).owner = some id := by
    intro id
    rw [h.kept.claims, Option.mem_toList]
  have hwhite : ∀ id, id ∈ (view s).whitelist ↔ _ := h.recorded .WHITELIST
  have hblack : ∀ id, id ∈ (view s).blacklist ↔ _ := h.recorded .BLACKLIST
  have hdisjoint := h.kept.consistent.disjoint
  refine ⟨?_, ?_, ?_, ?_, ?_, bots_refused⟩
  · exact authorized_nested hf hm h.good (by decide) (by decide)
  · exact authorized_nested hf hm h.good (by decide) (by decide)
  · exact authorized_nested hf hm h.good (by decide) (by decide)
  · intro id hid
    have hapart := hdisjoint id
    rw [isAuthorized_of_follows hf hm h.good hid, hclaim, ← hwhite]
    simp only [granted, Bool.or_eq_true, Bool.and_eq_true, Bool.not_eq_true', decide_eq_true_eq,
      decide_eq_false_iff_not]
    constructor
    · rintro (howner | ⟨_, hin⟩)
      · exact Or.inl howner
      · exact Or.inr hin
    · rintro (howner | hin)
      · exact Or.inl howner
      · exact Or.inr ⟨hapart hin, hin⟩
  · intro id hid
    rw [isAuthorized_of_follows hf hm h.good hid, hclaim, ← hblack]
    simp [granted]

end Backend

-- After every run without storage failures, on both backends.
theorem authorized_by_history (codec : Protobuf.Codec) (path : Bytes)
    (files : FileStore Bytes UInt8) (pid sequence : ℕ) (planner : Sqlite.Planner)
    (calls : List ListCall) :
    (let t := (listStep Sqlite.database).recorded.run
       (Sqlite.Conn.fresh planner fun _ => none, []) calls
     AuthorizedByHistory Sqlite.database t.1 t.2) ∧
    (let t := (listStep (Protobuf.database codec)).recorded.run
       (Protobuf.ProtoDatabase.fresh path files pid sequence fun _ => none, []) calls
     AuthorizedByHistory (Protobuf.database codec) t.1 t.2) := by
  constructor
  · have hf : Follows Sqlite.database Sqlite.Good (fun c => Sqlite.roster c.tables)
        Sqlite.rosterStep := fun c call h => Sqlite.follows_roster h call
    exact (tracked_of_steps hf Sqlite.listStep_roster Sqlite.rosterStep_exact
      ⟨fun _ => rfl, fun r hr => absurd hr List.not_mem_nil⟩ rfl calls).authorized hf Sqlite.reads
  · have hf : Follows (Protobuf.database codec) Protobuf.Good Protobuf.roster
        Protobuf.rosterStep := fun s call h => Protobuf.follows_roster h call
    exact (tracked_of_steps hf Protobuf.listStep_roster Protobuf.rosterStep_exact
      ⟨rfl, fun _ => rfl⟩ rfl calls).authorized hf Protobuf.reads

end Glider.Db
